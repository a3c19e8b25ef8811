import Mathlib.Data.List.Induction
import Mathlib.Data.List.Nodup
import Mathlib.Data.List.Perm.Subperm
import Mathlib.Order.Basic

/-!
# Pages of a query

What a query for some of the rows, in the order of a key and up to a limit, may answer.  The
order of rows whose keys are equal is open.
-/

namespace Sql

open List Option

variable {α : Type} (p : α → Bool) (key : α → Nat) (limit : Nat) (rows page : List α)

/-- The first rows that satisfy `p`, by their key. -/
def IsPage : Prop :=
  page.Nodup ∧ (∀ x ∈ page, x ∈ rows ∧ p x = true) ∧
    page.Pairwise (fun x y => key x ≤ key y) ∧
    page.length = min limit (rows.filter p).length ∧
    ∀ x ∈ rows, p x = true → x ∉ page → ∀ y ∈ page, key y ≤ key x

instance [DecidableEq α] : Decidable (IsPage p key limit rows page) :=
  inferInstanceAs (Decidable (_ ∧ _ ∧ _ ∧ _ ∧ _))

variable {p key limit rows page}

namespace IsPage

variable (h : IsPage p key limit rows page)

include h

theorem nodup : page.Nodup := h.1

theorem mem {x : α} (hx : x ∈ page) : x ∈ rows := (h.2.1 x hx).1

theorem holds {x : α} (hx : x ∈ page) : p x = true := (h.2.1 x hx).2

/-- What is left out is behind what is not. -/
theorem le {x y : α} (hx : x ∈ rows) (hp : p x = true) (hl : x ∉ page) (hy : y ∈ page) :
    key y ≤ key x :=
  h.2.2.2.2 x hx hp hl y hy

/-- A page that leaves a row out is full. -/
theorem full {x : α} (hx : x ∈ rows) (hp : p x = true) (hl : x ∉ page) : page.length = limit := by
  have hlen := h.2.2.2.1
  have hsub : (x :: page).Subperm (rows.filter p) := by
    refine (nodup_cons.2 ⟨hl, h.nodup⟩).subperm ?_
    intro y hy
    rcases mem_cons.1 hy with rfl | hy
    · exact mem_filter.2 ⟨hx, hp⟩
    · exact mem_filter.2 ⟨h.mem hy, h.holds hy⟩
  have hle := hsub.length_le
  rw [length_cons] at hle
  omega

end IsPage

/-- No rows, no page. -/
theorem isPage_nil : IsPage p key limit [] [] :=
  ⟨nodup_nil, by simp, .nil, by simp, by simp⟩

end Sql

/-!
## Replacing tables

A table to which rows are only appended, and of which the row with the highest version counts
for each key.
-/

namespace Sql

variable {α κ : Type} [DecidableEq κ] (key : α → κ) (version : α → Nat)

/-- Keep the row that counts. -/
def newer (k : κ) (best : Option α) (row : α) : Option α :=
  if key row = k then
    match best with
    | none => some row
    | some b => if version b ≤ version row then some row else some b
  else best

/-- The row that counts for a key. -/
def final (rows : List α) (k : κ) : Option α := rows.foldl (newer key version k) none

variable {key version} {rows : List α} {row b : α} {k : κ}

theorem final_append : final key version (rows ++ [row]) k =
    newer key version k (final key version rows k) row := by
  simp [final, List.foldl_append]

/-- A row of another key does not count. -/
theorem final_append_ne (h : key row ≠ k) :
    final key version (rows ++ [row]) k = final key version rows k := by
  rw [final_append]
  exact if_neg h

/-- A row that is not older counts. -/
theorem final_append_self (h : key row = k)
    (hv : ∀ b ∈ final key version rows k, version b ≤ version row) :
    final key version (rows ++ [row]) k = some row := by
  rw [final_append]
  unfold newer
  rw [if_pos h]
  split
  · rfl
  · next b hb => rw [if_pos (hv b hb)]

theorem key_final (h : final key version rows k = some b) : key b = k := by
  induction rows using List.reverseRecOn with
  | nil => cases h
  | append_singleton rows row ih =>
    rw [final_append] at h
    unfold newer at h
    split_ifs at h with hk
    · split at h
      · exact Option.some.inj h ▸ hk
      · next b' hb' =>
          split_ifs at h
          · exact Option.some.inj h ▸ hk
          · exact ih (hb'.trans h)
    · exact ih h

theorem mem_of_final (h : final key version rows k = some b) : b ∈ rows := by
  induction rows using List.reverseRecOn with
  | nil => cases h
  | append_singleton rows row ih =>
    rw [final_append] at h
    unfold newer at h
    split_ifs at h with hk
    · split at h
      · exact List.mem_append_right _ (List.mem_singleton.2 (Option.some.inj h).symm)
      · next b' hb' =>
          split_ifs at h
          · exact List.mem_append_right _ (List.mem_singleton.2 (Option.some.inj h).symm)
          · exact List.mem_append_left _ (ih (hb'.trans h))
    · exact List.mem_append_left _ (ih h)

/-- Appended rows of other keys do not count. -/
theorem final_append_of_forall_ne {new : List α} (h : ∀ x ∈ new, key x ≠ k) :
    final key version (rows ++ new) k = final key version rows k := by
  induction new using List.reverseRecOn with
  | nil => rw [List.append_nil]
  | append_singleton new row ih =>
    rw [← List.append_assoc, final_append_ne (h row (by simp))]
    exact ih fun x hx => h x (by simp [hx])

/-- Of rows with different keys each counts that is not older than what did. -/
theorem final_append_of_mem {new : List α} (hnd : (new.map key).Nodup) (hr : row ∈ new)
    (hv : ∀ b ∈ final key version rows (key row), version b ≤ version row) :
    final key version (rows ++ new) (key row) = some row := by
  induction new using List.reverseRecOn with
  | nil => cases hr
  | append_singleton new last ih =>
    rw [List.map_append, List.nodup_append] at hnd
    obtain ⟨hnd, -, hdis⟩ := hnd
    rw [← List.append_assoc]
    rcases List.mem_append.1 hr with hr | hr
    · have hne : key last ≠ key row := fun heq =>
        hdis _ (List.mem_map_of_mem hr) _ (by simp) heq.symm
      rw [final_append_ne hne]
      exact ih hnd hr
    · rw [List.mem_singleton.1 hr] at hv ⊢
      apply final_append_self rfl
      rw [final_append_of_forall_ne]
      · exact hv
      · exact fun x hx heq => hdis _ (List.mem_map_of_mem hx) _ (by simp) heq

end Sql
