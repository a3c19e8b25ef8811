import Mathlib.Algebra.BigOperators.Group.List.Basic
import Mathlib.Algebra.GroupWithZero.Nat
import Mathlib.Data.List.AList
import Mathlib.Data.List.Dedup
import Mathlib.Data.List.Forall2
import Mathlib.Data.List.Sort
import Mathlib.Tactic.Common

/-!
# A stream cut at a separator

What arrives in pieces is cut into the stretches that a separator ends and a rest that waits
for more.  The stretches do not depend on the pieces.
-/

namespace Codec

open List Option

variable {α : Type} [DecidableEq α] (sep : α)

/-- The stretches that the separator ends, and the rest. -/
def cut : List α → List (List α) × List α
  | [] => ([], [])
  | c :: cs =>
    if c = sep then ([] :: (cut cs).1, (cut cs).2)
    else
      match (cut cs).1 with
      | [] => ([], c :: (cut cs).2)
      | l :: ls => ((c :: l) :: ls, (cut cs).2)

variable {sep}

@[simp] theorem cut_nil : cut sep [] = ([], []) := rfl

/-- A stretch without the separator waits. -/
theorem cut_of_notMem {l : List α} (h : sep ∉ l) : cut sep l = ([], l) := by
  induction l with
  | nil => rfl
  | cons c l ih =>
    obtain ⟨hc, hl⟩ := ne_and_not_mem_of_not_mem_cons h
    rw [cut, if_neg hc.symm, ih hl]

/-- The first stretch. -/
theorem cut_append_cons {l : List α} (h : sep ∉ l) (rest : List α) :
    cut sep (l ++ sep :: rest) = (l :: (cut sep rest).1, (cut sep rest).2) := by
  induction l with
  | nil => rw [nil_append, cut, if_pos rfl]
  | cons c l ih =>
    obtain ⟨hc, hl⟩ := ne_and_not_mem_of_not_mem_cons h
    rw [cons_append, cut, if_neg hc.symm, ih hl]

/-- Some stretches, each with its separator. -/
theorem cut_flatMap {ls : List (List α)} (h : ∀ l ∈ ls, sep ∉ l) (rest : List α) :
    cut sep (ls.flatMap (· ++ [sep]) ++ rest) = (ls ++ (cut sep rest).1, (cut sep rest).2) := by
  induction ls with
  | nil => rfl
  | cons l ls ih =>
    rw [flatMap_cons, append_assoc, append_assoc, singleton_append,
      cut_append_cons (h l (.head _)), ih fun m hm => h m (.tail _ hm)]
    rfl

variable (sep) in
theorem sep_notMem_cut (s : List α) : (∀ l ∈ (cut sep s).1, sep ∉ l) ∧ sep ∉ (cut sep s).2 := by
  induction s with
  | nil => exact ⟨fun _ h => (not_mem_nil h).elim, not_mem_nil⟩
  | cons c cs ih =>
    rw [cut]
    split
    next hc =>
      refine ⟨fun l hl => ?_, ih.2⟩
      rcases mem_cons.mp hl with rfl | hl
      · exact not_mem_nil
      · exact ih.1 l hl
    next hc =>
      split
      next => exact ⟨fun _ h => (not_mem_nil h).elim,
        not_mem_cons_of_ne_of_not_mem (Ne.symm hc) ih.2⟩
      next l ls hls =>
        rw [hls] at ih
        refine ⟨fun m hm => ?_, ih.2⟩
        rcases mem_cons.mp hm with rfl | hm
        · exact not_mem_cons_of_ne_of_not_mem (Ne.symm hc) (ih.1 l (.head _))
        · exact ih.1 m (.tail _ hm)

variable (sep) in
/-- The stretches and the rest make up what was cut. -/
theorem flatMap_cut (s : List α) : (cut sep s).1.flatMap (· ++ [sep]) ++ (cut sep s).2 = s := by
  induction s with
  | nil => rfl
  | cons c cs ih =>
    rw [cut]
    split
    next hc => rw [hc, flatMap_cons, nil_append, append_assoc, ih]; rfl
    next hc =>
      split
      next hnil => rw [hnil] at ih; exact congrArg (c :: ·) ih
      next l ls hls => rw [hls] at ih; exact congrArg (c :: ·) ih

variable (sep) in
/-- What was waiting is cut with what comes next. -/
theorem cut_append (s t : List α) : cut sep (s ++ t) =
    ((cut sep s).1 ++ (cut sep ((cut sep s).2 ++ t)).1, (cut sep ((cut sep s).2 ++ t)).2) := by
  have h := cut_flatMap (sep_notMem_cut sep s).1 ((cut sep s).2 ++ t)
  rwa [← append_assoc, flatMap_cut] at h

section

variable {σ : Type} (sep) (handle : σ → List α → σ)

/-- A reader that cuts what arrives, and folds the stretches. -/
def feed (p : σ × List α) (chunk : List α) : σ × List α :=
  ((cut sep (p.2 ++ chunk)).1.foldl handle p.1, (cut sep (p.2 ++ chunk)).2)

/-- In pieces or at once. -/
theorem foldl_feed (chunks : List (List α)) {p : σ × List α} (hp : sep ∉ p.2) :
    chunks.foldl (feed sep handle) p = feed sep handle p chunks.flatten := by
  induction chunks generalizing p with
  | nil =>
    rw [foldl_nil, flatten_nil, feed, append_nil, cut_of_notMem hp]
    rfl
  | cons c cs ih =>
    rw [foldl_cons, ih (sep_notMem_cut sep _).2, flatten_cons, feed, feed, feed,
      ← append_assoc, cut_append sep (p.2 ++ c), foldl_append]

end

end Codec

/-!
## Names joined with a dash

A name made of a part and, optionally, another part behind a dash.  Where the
parts may hold dashes themselves, two such names are equal in exactly one further
way: the dash of one lies inside the first part of the other.
-/

namespace Codec

/-- `a` alone, or `a-x`. -/
def joined (a : String) (x : Option String) : String :=
  match x with
  | none => a
  | some x => a ++ "-" ++ x

/-- The first part of the second name is the first name up to somewhere behind its
dash. -/
def Extends (a : String) (x : Option String) (a' : String) (x' : Option String) : Prop :=
  ∃ r, a' = a ++ "-" ++ r ∧ x = some (joined r x')

variable {a a' : String} {x x' : Option String}

theorem Extends.joined_eq (h : Extends a x a' x') : joined a x = joined a' x' := by
  obtain ⟨r, rfl, rfl⟩ := h
  cases x' <;> simp [joined, String.append_assoc]

/-- What follows the first part. -/
def tail : Option String → String
  | none => ""
  | some x => "-" ++ x

theorem joined_eq_append (a : String) (x : Option String) : joined a x = a ++ tail x := by
  cases x <;> simp [joined, tail, String.append_assoc]

theorem append_eq_append {x x' : String} (h : a ++ x = a' ++ x') :
    (∃ m, a' = a ++ m ∧ x = m ++ x') ∨ ∃ m, a = a' ++ m ∧ x' = m ++ x := by
  have hl := congrArg String.toList h
  rw [String.toList_append, String.toList_append, List.append_eq_append_iff] at hl
  rcases hl with ⟨m, ha, hx⟩ | ⟨m, ha, hx⟩
  · refine .inl ⟨String.ofList m, ?_, ?_⟩ <;> rw [← String.toList_inj] <;> simpa
  · refine .inr ⟨String.ofList m, ?_, ?_⟩ <;> rw [← String.toList_inj] <;> simpa

theorem tail_inj (h : tail x = tail x') : x = x' := by
  have hl := congrArg String.toList h
  cases x <;> cases x' <;> simp [tail, String.toList_inj] at hl ⊢
  exact hl

/-- What follows one first part and begins inside another one begins with its dash. -/
theorem tail_eq_append {m : String} (h : tail x = m ++ tail x') :
    (m = "" ∧ x = x') ∨ ∃ r, m = "-" ++ r ∧ x = some (joined r x') := by
  cases hm : m.toList with
  | nil =>
    obtain rfl : m = "" := by rw [← String.toList_inj, hm]; rfl
    exact .inl ⟨rfl, tail_inj (by simpa using h)⟩
  | cons c cs =>
    have hl := congrArg String.toList h
    rw [String.toList_append, hm] at hl
    cases x with
    | none => simp [tail] at hl
    | some y =>
      have hy : (tail (some y)).toList = '-' :: y.toList := by simp [tail]
      rw [hy, List.cons_append] at hl
      obtain ⟨rfl, hy⟩ := List.cons.inj hl
      refine .inr ⟨String.ofList cs, ?_, ?_⟩
      · rw [← String.toList_inj, hm]
        simp
      · rw [Option.some.injEq, joined_eq_append, ← String.toList_inj, hy]
        simp

/-- When two joined names are equal. -/
theorem joined_eq_iff :
    joined a x = joined a' x' ↔ (a = a' ∧ x = x') ∨ Extends a x a' x' ∨ Extends a' x' a x := by
  constructor
  · intro h
    rw [joined_eq_append, joined_eq_append] at h
    rcases append_eq_append h with ⟨m, rfl, hx⟩ | ⟨m, rfl, hx⟩
    · rcases tail_eq_append hx with ⟨rfl, rfl⟩ | ⟨r, rfl, rfl⟩
      · exact .inl ⟨by simp, rfl⟩
      · exact .inr (.inl ⟨r, by rw [String.append_assoc], rfl⟩)
    · rcases tail_eq_append hx with ⟨rfl, rfl⟩ | ⟨r, rfl, rfl⟩
      · exact .inl ⟨by simp, rfl⟩
      · exact .inr (.inr ⟨r, by rw [String.append_assoc], rfl⟩)
  · rintro (⟨rfl, rfl⟩ | h | h)
    · rfl
    · exact h.joined_eq
    · exact h.joined_eq.symm

/-- What stands before the first dot, and what behind it. -/
theorem append_dot_inj {b b' : String} (ha : '.' ∉ a.toList) (ha' : '.' ∉ a'.toList) :
    a ++ "." ++ b = a' ++ "." ++ b' ↔ a = a' ∧ b = b' := by
  refine ⟨fun h => ?_, fun ⟨ha, hb⟩ => by rw [ha, hb]⟩
  have hl := congrArg String.toList h
  have hsplit : ∀ l l' m m' : List Char, '.' ∉ l → '.' ∉ l' →
      l ++ '.' :: m = l' ++ '.' :: m' → l = l' ∧ m = m' := by
    intro l
    induction l with
    | nil =>
      intro l' m m' _ hl' h
      cases l' with
      | nil => exact ⟨rfl, (List.cons.inj h).2⟩
      | cons c cs => exact absurd ((List.cons.inj h).1 ▸ List.mem_cons_self) hl'
    | cons c cs ih =>
      intro l' m m' hl hl' h
      cases l' with
      | nil => exact absurd ((List.cons.inj h).1 ▸ List.mem_cons_self) hl
      | cons c' cs' =>
        obtain ⟨rfl, htl⟩ := List.cons.inj h
        have hrest := ih cs' m m' (fun hc => hl (List.mem_cons_of_mem _ hc))
          (fun hc => hl' (List.mem_cons_of_mem _ hc)) htl
        exact ⟨by rw [hrest.1], hrest.2⟩
  have h := hsplit a.toList a'.toList b.toList b'.toList ha ha' (by simpa using hl)
  exact ⟨String.toList_inj.1 h.1, String.toList_inj.1 h.2⟩

end Codec
