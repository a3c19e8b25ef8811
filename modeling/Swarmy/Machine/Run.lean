import Mathlib.Algebra.BigOperators.Group.List.Basic
import Mathlib.Algebra.GroupWithZero.Nat
import Mathlib.Data.Finset.Card
import Mathlib.Data.Finset.Image
import Mathlib.Data.Finset.Range
import Mathlib.Data.List.AList
import Mathlib.Data.List.Dedup
import Mathlib.Data.List.Forall2
import Mathlib.Data.List.Sort
import Mathlib.Tactic.Common

/-!
# Runs of a machine

A machine is a partial step function on its states: every choice there is, is part of the
move.  `Reach` is reachability along moves that satisfy a side condition, `Reach.induct`
the induction every invariant is proved by; `reach_of_run` and `reach_of_runIf` evaluate
concrete runs.
-/

namespace Machine

open List Option Nat

variable {S M : Type} {step : S → M → Option S} {ok : S → M → Prop} {s₀ s : S}

/-- Reachability along moves allowed by `ok`. -/
inductive Reach (step : S → M → Option S) (ok : S → M → Prop) (s₀ : S) : S → Prop
  | /-- No move. -/
    refl : Reach step ok s₀ s₀
  | /-- One more move. -/
    tail {s s' : S} (m : M) : Reach step ok s₀ s → ok s m → step s m = some s' → Reach step ok s₀ s'

/-- What holds at the start and is kept by every allowed move holds of every state
reached. -/
theorem Reach.induct {I : S → Prop} (h₀ : I s₀)
    (hs : ∀ s m s', I s → ok s m → step s m = some s' → I s') (h : Reach step ok s₀ s) : I s := by
  induction h with
  | refl => exact h₀
  | tail m _ hok hstep ih => exact hs _ m _ ih hok hstep

/-- Take a list of moves. -/
def run (step : S → M → Option S) (s : S) : List M → Option S
  | [] => some s
  | m :: ms => (step s m).bind fun s' => run step s' ms

/-- What a run reaches is reachable, when nothing is forbidden. -/
theorem reach_of_run {ms : List M} {s s' : S} (hs : Reach step (fun _ _ => True) s₀ s)
    (h : run step s ms = some s') : Reach step (fun _ _ => True) s₀ s' := by
  induction ms generalizing s with
  | nil => exact some.inj h ▸ hs
  | cons m ms ih =>
    obtain ⟨s₁, hm, hrest⟩ := bind_eq_some_iff.mp h
    exact ih (.tail m hs trivial hm) hrest

/-- Take a list of moves, as long as each passes a test. -/
def runIf (step : S → M → Option S) (test : S → M → Bool) (s : S) : List M → Option S
  | [] => some s
  | m :: ms => if test s m then (step s m).bind fun s' => runIf step test s' ms else none

/-- What a run reaches is reachable, when the moves that pass its test are allowed. -/
theorem reach_of_runIf {test : S → M → Bool} (htest : ∀ s m, test s m = true → ok s m)
    {ms : List M} {s s' : S} (hs : Reach step ok s₀ s) (h : runIf step test s ms = some s') :
    Reach step ok s₀ s' := by
  induction ms generalizing s with
  | nil => exact some.inj h ▸ hs
  | cons m ms ih =>
    rw [runIf] at h
    split at h
    · next hm =>
      obtain ⟨s₁, hstep, hrest⟩ := bind_eq_some_iff.mp h
      exact ih (.tail m hs (htest s m hm) hstep) hrest
    · cases h

end Machine

/-!
## Walks

A step that takes each place to at most one next place is walked until there is no next place.
Among finitely many places a walk ends unless it comes to a place to which it returns.
-/

namespace Walk

variable {α : Type}

/-- Where a walk is after so many steps. -/
def place (next : α → Option α) : Nat → α → Option α
  | 0, x => some x
  | n + 1, x => (next x).bind (place next n)

variable {next : α → Option α}

/-- The walk from `x` comes back to `x`. -/
def Returns (next : α → Option α) (x : α) : Prop := ∃ n, place next (n + 1) x = some x

theorem place_add (m n : Nat) (x : α) :
    place next (m + n) x = (place next m x).bind (place next n) := by
  induction m generalizing x with
  | zero => rw [zero_add, place, Option.bind_some]
  | succ m ih =>
    rw [add_right_comm, place, place, Option.bind_assoc]
    exact congrArg _ (funext ih)

/-- A walk that is over stays over. -/
theorem place_none_mono {m n : Nat} {x : α} (h : place next m x = none) (hmn : m ≤ n) :
    place next n x = none := by
  obtain ⟨k, rfl⟩ := Nat.exists_eq_add_of_le hmn
  rw [place_add, h, Option.bind_none]

/-- One that returns is never over. -/
theorem Returns.place_ne_none {x : α} (h : Returns next x) (n : Nat) : place next n x ≠ none := by
  obtain ⟨k, hk⟩ := h
  have hround : ∀ r, place next (r * (k + 1)) x = some x := fun r => by
    induction r with
    | zero => rw [zero_mul, place]
    | succ r ih => rw [Nat.succ_mul, place_add, ih, Option.bind_some, hk]
  intro hnone
  have hover := place_none_mono hnone (Nat.le_mul_of_pos_right n k.succ_pos)
  rw [hround] at hover
  cases hover

theorem place_ne_none_of_returns {m : Nat} {x y : α} (hy : place next m x = some y)
    (h : Returns next y)
    (n : Nat) : place next n x ≠ none := by
  intro hnone
  have hover := place_none_mono hnone (Nat.le_add_left n m)
  rw [place_add, hy, Option.bind_some] at hover
  exact h.place_ne_none n hover

/-- Where every next place is one of finitely many, a long walk comes to a place to which it
returns. -/
theorem exists_returns [DecidableEq α] {places : Finset α}
    (h : ∀ x y, next x = some y → y ∈ places) {x : α}
    (hx : place next (places.card + 1) x ≠ none) :
    ∃ m y, place next (m + 1) x = some y ∧ Returns next y := by
  have hsome : ∀ n ≤ places.card, ∃ y, place next (n + 1) x = some y := fun n hn =>
    Option.ne_none_iff_exists'.mp fun hnone => hx (place_none_mono hnone (Nat.succ_le_succ hn))
  have hmem : ∀ n y, place next (n + 1) x = some y → y ∈ places := fun n y hy => by
    rw [place_add, Option.bind_eq_some_iff] at hy
    obtain ⟨z, -, hz⟩ := hy
    rw [place, Option.bind_eq_some_iff] at hz
    obtain ⟨w, hw, hwy⟩ := hz
    obtain rfl := Option.some.inj hwy
    exact h z w hw
  have hmaps : Set.MapsTo (fun n => (place next (n + 1) x).getD x)
      (Finset.range (places.card + 1)) places := by
    intro n hn
    obtain ⟨y, hy⟩ := hsome n (Nat.lt_succ_iff.mp (Finset.mem_range.mp hn))
    simp only [hy, Option.getD_some]
    exact hmem n y hy
  obtain ⟨i, hi, j, hj, hne, heq⟩ := Finset.exists_ne_map_eq_of_card_lt_of_maps_to
    (by rw [Finset.card_range]; exact Nat.lt_succ_self _) hmaps
  obtain ⟨y, hy⟩ := hsome i (Nat.lt_succ_iff.mp (Finset.mem_range.mp hi))
  obtain ⟨z, hz⟩ := hsome j (Nat.lt_succ_iff.mp (Finset.mem_range.mp hj))
  simp only [hy, hz, Option.getD_some] at heq
  subst heq
  have hreturns : ∀ a b, a < b → place next (a + 1) x = some y → place next (b + 1) x = some y →
      Returns next y := fun a b hab ha hb => by
    obtain ⟨k, rfl⟩ := Nat.exists_eq_add_of_lt hab
    refine ⟨k, ?_⟩
    have hsplit : a + k + 1 + 1 = (a + 1) + (k + 1) := by omega
    rw [hsplit, place_add, ha, Option.bind_some] at hb
    exact hb
  obtain hij | hji := lt_or_gt_of_ne hne
  · exact ⟨i, y, hy, hreturns i j hij hy hz⟩
  · exact ⟨i, y, hy, hreturns j i hji hz hy⟩

/-- A walk is over at some time unless it comes to a place to which it returns. -/
theorem ends_iff [DecidableEq α] {places : Finset α}
    (h : ∀ x y, next x = some y → y ∈ places) (x : α) :
    (∃ n, place next n x = none) ↔ ∀ m y, place next m x = some y → ¬ Returns next y := by
  constructor
  · rintro ⟨n, hn⟩ m y hy hreturns
    exact place_ne_none_of_returns hy hreturns n hn
  · intro hnot
    refine ⟨places.card + 1, ?_⟩
    by_contra hne
    obtain ⟨m, y, hy, hreturns⟩ := exists_returns h hne
    exact hnot _ y hy hreturns

/-- All walks are over after one and the same time unless some place is returned to. -/
theorem exists_fuel_iff [DecidableEq α] {places : Finset α}
    (h : ∀ x y, next x = some y → y ∈ places) :
    (∃ n, ∀ x, place next n x = none) ↔ ∀ x, ¬ Returns next x := by
  constructor
  · rintro ⟨n, hn⟩ x hreturns
    exact hreturns.place_ne_none n (hn x)
  · intro hnot
    refine ⟨places.card + 1, fun x => ?_⟩
    by_contra hne
    obtain ⟨m, y, -, hreturns⟩ := exists_returns h hne
    exact hnot y hreturns

end Walk
