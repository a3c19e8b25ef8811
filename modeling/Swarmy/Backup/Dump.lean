import Mathlib.Data.List.Perm.Basic
import Mathlib.Data.List.Nodup
import Mathlib.Data.Option.Basic
import Mathlib.Logic.Function.Basic

/-! # Dumps of a database, and the two ways of loading one

A dump is the objects of a database in the order in which its script makes them. `psql` goes on
after a statement the server refuses, `pg_restore` counts it as an error. -/

namespace Swarmy.Logical

open List Option Function

variable {ν δ ρ : Type}

/-- An object of a database: its definition, and its rows. A view, a function, an index or a key
is an object without rows. -/
structure Object (δ ρ : Type) where
  definition : δ
  rows : List ρ

/-- Rows have no order. -/
structure Object.Same (o o' : Object δ ρ) : Prop where
  definition : o.definition = o'.definition
  rows : o.rows.Perm o'.rows

theorem Object.same_iff {o o' : Object δ ρ} :
    o.Same o' ↔ o.definition = o'.definition ∧ o.rows.Perm o'.rows :=
  ⟨fun h => ⟨h.definition, h.rows⟩, fun h => ⟨h.1, h.2⟩⟩

theorem Object.Same.refl (o : Object δ ρ) : o.Same o := ⟨rfl, .refl _⟩

/-- The objects of a server, by name. -/
abbrev Objects (ν δ ρ : Type) := ν → Option (Object δ ρ)

/-- The objects a dump lists, each name once. -/
structure Dump (ν δ ρ : Type) where
  entries : List (ν × Object δ ρ)
  nodup : (entries.map Prod.fst).Nodup

namespace Dump

/-- The dump holds these objects and no others. -/
def Lists (d : Dump ν δ ρ) (s : Objects ν δ ρ) : Prop :=
  ∀ n o, (n, o) ∈ d.entries ↔ s n = some o

theorem Lists.mem_names {d : Dump ν δ ρ} {s : Objects ν δ ρ} (h : d.Lists s) (n : ν) :
    n ∈ d.entries.map Prod.fst ↔ (s n).isSome := by
  rw [List.mem_map, Option.isSome_iff_exists]
  constructor
  · rintro ⟨e, he, rfl⟩
    exact ⟨e.2, (h e.1 e.2).1 he⟩
  · rintro ⟨o, ho⟩
    exact ⟨(n, o), (h n o).2 ho, rfl⟩

/-- The same objects under other names: an archive of one database, loaded in another. -/
def rename {μ : Type} (d : Dump ν δ ρ) (f : ν → μ) (hf : f.Injective) : Dump μ δ ρ where
  entries := d.entries.map (Prod.map f id)
  nodup := by
    have h : (d.entries.map (Prod.map f id)).map Prod.fst = (d.entries.map Prod.fst).map f := by
      simp
    rw [h]
    exact d.nodup.map hf

end Dump

/-- The statements of a dump. -/
inductive Stmt (ν δ ρ : Type)
  | dropIfExists (name : ν)
  | create (name : ν) (definition : δ)
  | copy (name : ν) (rows : List ρ)

namespace Stmt

/-- The object a statement is about. -/
@[simp] def name : Stmt ν δ ρ → ν
  | dropIfExists n | create n _ | copy n _ => n

variable [DecidableEq ν]

/-- One statement, `none` where the server answers with an error: an object that is there is not
created again, rows go to an object that is there, and the server refuses what else it refuses
(a key that the rows break, a dependent object, a full disk). -/
@[grind =] def exec (refuses : Stmt ν δ ρ → Bool) (s : Objects ν δ ρ) (st : Stmt ν δ ρ) :
    Option (Objects ν δ ρ) :=
  if refuses st then none
  else match st with
    | dropIfExists n => some (update s n none)
    | create n d => if (s n).isSome then none else some (update s n (some ⟨d, []⟩))
    | copy n rows => (s n).map fun o =>
      update s n (some { o with rows := o.rows ++ rows })

/-- A statement leaves the other objects alone. -/
theorem exec_frame {refuses : Stmt ν δ ρ → Bool} {s s' : Objects ν δ ρ} {st : Stmt ν δ ρ}
    (h : st.exec refuses s = some s') {n : ν} (hn : n ≠ st.name) : s' n = s n := by
  unfold exec at h
  split at h
  · cases h
  · cases st with
    | dropIfExists m =>
      obtain rfl := some.inj h
      exact update_of_ne hn _ _
    | create m d =>
      dsimp only at h
      split at h
      · cases h
      · obtain rfl := some.inj h
        exact update_of_ne hn _ _
    | copy m rows =>
      obtain ⟨o, _, rfl⟩ := map_eq_some_iff.1 h
      exact update_of_ne hn _ _

end Stmt

section Load

variable [DecidableEq ν] (refuses : Stmt ν δ ρ → Bool)

/-- `psql -f` without `ON_ERROR_STOP`: the statement that fails changes nothing, and the next one
runs. -/
def goOn (script : List (Stmt ν δ ρ)) (s : Objects ν δ ρ) : Objects ν δ ρ :=
  script.foldl (fun s st => (st.exec refuses s).getD s) s

/-- Every statement of the script goes through. -/
def allOf (script : List (Stmt ν δ ρ)) (s : Objects ν δ ρ) : Option (Objects ν δ ρ) :=
  script.foldlM (fun s st => st.exec refuses s) s

/-- What a plain dump makes an object with. -/
def making (e : ν × Object δ ρ) : List (Stmt ν δ ρ) :=
  [.create e.1 e.2.definition, .copy e.1 e.2.rows]

/-- The script of `pg_dumpall`. -/
def Dump.script (d : Dump ν δ ρ) : List (Stmt ν δ ρ) := d.entries.flatMap making

/-- The statements of `pg_restore --clean --if-exists`. -/
def Dump.cleanScript (d : Dump ν δ ρ) : List (Stmt ν δ ρ) :=
  (d.entries.reverse.map fun e => .dropIfExists e.1) ++ d.script

theorem goOn_append (a b : List (Stmt ν δ ρ)) (s : Objects ν δ ρ) :
    goOn refuses (a ++ b) s = goOn refuses b (goOn refuses a s) := foldl_append

variable {n : ν} {s s' : Objects ν δ ρ}

theorem goOn_frame (script : List (Stmt ν δ ρ)) (s : Objects ν δ ρ)
    (hn : ∀ st ∈ script, n ≠ st.name) : goOn refuses script s n = s n := by
  induction script generalizing s with
  | nil => rfl
  | cons st script ih =>
    have step : ((st.exec refuses s).getD s) n = s n := by
      cases h : st.exec refuses s with
      | none => rfl
      | some s' => exact Stmt.exec_frame h (hn st mem_cons_self)
    exact (ih _ fun st' h' => hn st' (mem_cons_of_mem _ h')).trans step

theorem allOf_frame {script : List (Stmt ν δ ρ)} (h : allOf refuses script s = some s')
    (hn : ∀ st ∈ script, n ≠ st.name) : s' n = s n := by
  induction script generalizing s with
  | nil =>
    obtain rfl := some.inj h
    rfl
  | cons st script ih =>
    obtain ⟨s₁, h₁, h₂⟩ := bind_eq_some_iff.1 h
    exact (ih h₂ fun st' h' => hn st' (mem_cons_of_mem _ h')).trans
      (Stmt.exec_frame h₁ (hn st mem_cons_self))

theorem allOf_append {a b : List (Stmt ν δ ρ)} (h : allOf refuses (a ++ b) s = some s') :
    ∃ s₁, allOf refuses a s = some s₁ ∧ allOf refuses b s₁ = some s' := by
  rw [allOf, foldlM_append] at h
  exact bind_eq_some_iff.1 h

omit [DecidableEq ν] in
theorem name_making {e : ν × Object δ ρ} {st : Stmt ν δ ρ} (h : st ∈ making e) : st.name = e.1 := by
  simp only [making, mem_cons, not_mem_nil, or_false] at h
  rcases h with rfl | rfl <;> rfl

omit [DecidableEq ν] in
theorem name_script {es : List (ν × Object δ ρ)} (hn : n ∉ es.map Prod.fst)
    {st : Stmt ν δ ρ} (h : st ∈ es.flatMap making) : n ≠ st.name := by
  obtain ⟨e, he, hst⟩ := mem_flatMap.1 h
  rintro rfl
  exact hn (name_making hst ▸ mem_map_of_mem he)

/-- What is left of an object when a plain dump of `o` is loaded over it and errors are skipped. -/
@[grind =] def loaded (n : ν) (o : Object δ ρ) (prior : Option (Object δ ρ)) :
    Option (Object δ ρ) :=
  let made := match prior with
    | some p => some p
    | none => if refuses (.create n o.definition) then none else some ⟨o.definition, []⟩
  if refuses (.copy n o.rows) then made
  else made.map fun p => { p with rows := p.rows ++ o.rows }

theorem goOn_making (e : ν × Object δ ρ) (s : Objects ν δ ρ) :
    goOn refuses (making e) s e.1 = loaded refuses e.1 e.2 (s e.1) := by
  simp only [goOn, making, foldl_cons, foldl_nil, loaded, Stmt.exec]
  cases hs : s e.1 <;> cases hc : refuses (.create e.1 e.2.definition) <;>
    cases hr : refuses (.copy e.1 e.2.rows) <;> simp [hs]

/-- **`psql` object by object.** -/
theorem goOn_script (es : List (ν × Object δ ρ)) (nd : (es.map Prod.fst).Nodup)
    (s : Objects ν δ ρ) {o : Object δ ρ} (h : (n, o) ∈ es) :
    goOn refuses (es.flatMap making) s n = loaded refuses n o (s n) := by
  induction es generalizing s with
  | nil => cases h
  | cons e es ih =>
    rw [map_cons, nodup_cons] at nd
    rw [flatMap_cons, goOn_append]
    rcases mem_cons.1 h with rfl | h
    · rw [goOn_frame refuses _ _ fun st hst => name_script nd.1 hst]
      exact goOn_making refuses (n, o) s
    · have hne : n ≠ e.1 := by
        rintro rfl
        exact nd.1 (mem_map.2 ⟨_, h, rfl⟩)
      rw [ih nd.2 _ h, goOn_frame refuses _ _ fun st hst => (name_making hst).symm ▸ hne]

/-- The loads with errors skipped that give `o` back. Over nothing, the server takes the object and
its rows; over an object, that is the same one, and it either has the rows already and refuses
them, or takes them and had none. -/
def Takes (n : ν) (o : Object δ ρ) : Option (Object δ ρ) → Prop
  | none => refuses (.create n o.definition) = false ∧
      (refuses (.copy n o.rows) = true → o.rows = [])
  | some p => o.definition = p.definition ∧
      if refuses (.copy n o.rows) then o.rows.Perm p.rows else p.rows = []

omit [DecidableEq ν] in
theorem rel_loaded_iff (n : ν) (o : Object δ ρ) (prior : Option (Object δ ρ)) :
    Option.Rel Object.Same (some o) (loaded refuses n o prior) ↔ Takes refuses n o prior := by
  cases prior with
  | none =>
    cases hc : refuses (.create n o.definition) <;> cases hr : refuses (.copy n o.rows) <;>
      simp [loaded, Takes, hc, hr, Object.same_iff]
  | some p =>
    cases hr : refuses (.copy n o.rows)
    · have appended : o.rows.Perm (p.rows ++ o.rows) ↔ p.rows = [] := by
        constructor
        · intro h
          have len := h.length_eq
          rw [length_append] at len
          exact eq_nil_of_length_eq_zero (by omega)
        · intro h
          rw [h]
          exact .refl _
      simp [loaded, Takes, hr, Object.same_iff, appended]
    · simp [loaded, Takes, hr, Object.same_iff]

theorem allOf_making {e : ν × Object δ ρ}
    (h : allOf refuses (making e) s = some s') : s e.1 = none ∧ s' e.1 = some e.2 := by
  simp only [allOf, making, foldlM_cons, foldlM_nil, Stmt.exec] at h
  cases hs : s e.1 <;> cases hc : refuses (.create e.1 e.2.definition) <;>
    cases hr : refuses (.copy e.1 e.2.rows) <;> simp_all
  rw [← h]
  simp

/-- **A script without an error makes what it lists.** -/
theorem allOf_script {es : List (ν × Object δ ρ)} (nd : (es.map Prod.fst).Nodup)
    (hs : allOf refuses (es.flatMap making) s = some s') {o : Object δ ρ} (h : (n, o) ∈ es) :
    s' n = some o := by
  induction es generalizing s with
  | nil => cases h
  | cons e es ih =>
    rw [map_cons, nodup_cons] at nd
    obtain ⟨s₁, h₁, h₂⟩ := allOf_append refuses hs
    rcases mem_cons.1 h with rfl | h
    · rw [allOf_frame refuses h₂ fun st hst => name_script nd.1 hst]
      exact (allOf_making refuses h₁).2
    · exact ih nd.2 h₂ h

/-- `pg_restore` without an error: the dumped objects as dumped, the others as they were. -/
theorem allOf_cleanScript (d : Dump ν δ ρ) (hs : allOf refuses d.cleanScript s = some s') :
    (∀ n o, (n, o) ∈ d.entries → s' n = some o) ∧
      ∀ n, n ∉ d.entries.map Prod.fst → s' n = s n := by
  obtain ⟨s₁, h₁, h₂⟩ := allOf_append refuses hs
  refine ⟨fun n o h => allOf_script refuses d.nodup h₂ h, fun n hn => ?_⟩
  rw [allOf_frame refuses h₂ fun st hst => name_script hn hst]
  refine allOf_frame refuses h₁ fun st hst => ?_
  obtain ⟨e, he, rfl⟩ := mem_map.1 hst
  rintro rfl
  exact hn (mem_map_of_mem (mem_reverse.1 he))

end Load

end Swarmy.Logical
