import Mathlib.Data.List.Basic
import Mathlib.Tactic.Common

/-!
# Cells of a list

A system of parties is a list of their states; a step replaces one of them, or adds one.
-/

namespace Cells

variable {α : Type} {l : List α} {m n : Nat} {a b c : α}

/-- What is in a cell after one of them was replaced. -/
theorem of_set (h : (l.set n a)[m]? = some b) : (m = n ∧ b = a) ∨ (m ≠ n ∧ l[m]? = some b) := by
  rw [List.getElem?_set] at h
  by_cases hm : n = m
  · split_ifs at h
    exact .inl ⟨hm.symm, (Option.some.inj h).symm⟩
  · rw [if_neg hm] at h
    exact .inr ⟨Ne.symm hm, h⟩

theorem set_self (h : l[n]? = some a) : (l.set n b)[n]? = some b :=
  List.getElem?_set_self (List.getElem?_eq_some_iff.1 h).1

theorem of_mem_set (h : b ∈ l.set n a) : b = a ∨ ∃ m, m ≠ n ∧ l[m]? = some b := by
  obtain ⟨m, hm⟩ := List.mem_iff_getElem?.1 h
  exact (of_set hm).imp And.right fun hm => ⟨m, hm⟩

/-- What is not replaced stays. -/
theorem mem_set (h : b ∈ l) (hn : l[n]? = some a) : b ∈ l.set n c ∨ b = a := by
  obtain ⟨m, hm⟩ := List.mem_iff_getElem?.1 h
  rcases eq_or_ne m n with rfl | hne
  · exact .inr (Option.some.inj (hm.symm.trans hn))
  · exact .inl (List.mem_of_getElem? ((List.getElem?_set_ne hne.symm).trans hm))

theorem set_ne (h : m ≠ n) : (l.set n b)[m]? = l[m]? := List.getElem?_set_ne h.symm

/-- What is in a cell after one was added. -/
theorem of_append (h : (l ++ [a])[m]? = some b) : l[m]? = some b ∨ (m = l.length ∧ b = a) := by
  rcases Nat.lt_or_ge m l.length with hlt | hge
  · rw [List.getElem?_append_left hlt] at h
    exact .inl h
  · rw [List.getElem?_append_right hge] at h
    have hlt := (List.getElem?_eq_some_iff.1 h).1
    rw [List.length_singleton] at hlt
    exact .inr ⟨by omega, List.mem_singleton.1 (List.mem_of_getElem? h)⟩

theorem append (h : l[m]? = some b) : (l ++ [a])[m]? = some b := by
  rwa [List.getElem?_append_left (List.getElem?_eq_some_iff.1 h).1]

/-- At most one cell has a property. -/
def Lone (P : α → Prop) (l : List α) : Prop :=
  ∀ (n m : Nat) (a b : α), l[n]? = some a → l[m]? = some b → P a → P b → n = m

variable {P : α → Prop}

theorem Lone.mem (h : Lone P l) (hn : l[n]? = some a) (ha : P a) (hb : b ∈ l) : b = a ∨ ¬ P b := by
  obtain ⟨m, hm⟩ := List.mem_iff_getElem?.1 hb
  by_cases hP : P b
  · obtain rfl := h n m a b hn hm ha hP
    exact .inl (Option.some.inj (hm.symm.trans hn))
  · exact .inr hP

theorem Lone.mem_set (h : Lone P l) (hn : l[n]? = some a) (ha : P a) (hb : b ∈ l.set n c) :
    b = c ∨ b ∈ l ∧ ¬ P b := by
  refine (of_mem_set hb).imp_right fun ⟨m, hne, hm⟩ => ⟨List.mem_of_getElem? hm, fun hP => ?_⟩
  exact hne (h m n b a hm hn hP ha)

theorem Lone.set (h : Lone P l) (hn : l[n]? = some a) (ha : P a) : Lone P (l.set n c) := by
  have key {k : Nat} {x : α} (hk : (l.set n c)[k]? = some x) (hx : P x) : k = n := by
    rcases of_set hk with ⟨heq, -⟩ | ⟨-, hk⟩
    · exact heq
    · exact h k n x a hk hn hx ha
  exact fun i j x y hi hj hx hy => (key hi hx).trans (key hj hy).symm

theorem lone_append (h : ∀ b ∈ l, ¬ P b) : Lone P (l ++ [a]) := by
  have key {k : Nat} {x : α} (hk : (l ++ [a])[k]? = some x) (hx : P x) : k = l.length := by
    rcases of_append hk with hk | ⟨heq, -⟩
    · exact absurd hx (h x (List.mem_of_getElem? hk))
    · exact heq
  exact fun i j x y hi hj hx hy => (key hi hx).trans (key hj hy).symm

end Cells
