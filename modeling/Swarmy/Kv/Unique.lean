import Swarmy.Kv.Table

/-!
# Unique keys

When the rows of a table stay unique on the declared field sets, in the swarm and in the cache.
Only `create` checks, it checks against the cache, and between its check and its write the other
calls go on: `unique_of_careful` says what the accesses have to keep to, and `not_unique` that the
code does not see to it.
-/

namespace Swarmy.KvTable

open List Option AList

variable (t : Table)

/-! ## Agreement -/

/-- A row of a document, in the swarm or in the cache. -/
def Shown (s : State) (id : String) (r : Stored) : Prop :=
  (s.swarm id).head?.map (·.row) = some r ∨ (s.cache.lookup id).map (·.row) = some r

/-- No two rows show the same under all fields of a declared set. -/
def Unique (s : State) : Prop :=
  ∀ fields ∈ t.unique, ∀ id r id' r', Shown s id r → Shown s id' r' → id ≠ id' →
    ¬∀ f ∈ fields, cell t id r f = cell t id' r' f

/-- No row of another document shows these values under the fields. -/
def Untaken (s : State) (fields : List String) (id : String) (cells : String → Js.Value) : Prop :=
  ∀ id' r', Shown s id' r' → id' ≠ id → ¬∀ f ∈ fields, cells f = cell t id' r' f

/-- The check of a set would pass. -/
def NoClash (s : State) (data : Doc) (fields : List String) : Prop :=
  ∀ id r, Shown s id r → clash data fields (cell t id r) = false

/-- The check of a set speaks of the row that is created: the data has its values as a row shows
them, no default, date or field of the row's own, and `===` can hold of them. -/
def Speaks (data : Doc) (fields : List String) : Prop :=
  ∀ f ∈ fields, f ∉ rowFields ∧ (data.get f = none → t.defaults.get f = none) ∧
    (∀ s, data.get f = some (.str s) → f ∉ t.dateFields) ∧
    ((data.get f).getD .null).isPrimitive = true

/-- What a write asks a row to show under a field: what its data says, else what the row shows. -/
def asked (now : Nat) (id : String) (r : Stored) (data : Doc) (f : String) : Js.Value :=
  if f = "updatedAt" then .num (.int now)
  else match (clean data).lookup f with
    | some v => present t f v
    | none => cell t id r f

/-- What a create has behind it is still so. -/
def Ready (s : State) : Phase → Prop
  | .checking _ data checked todo =>
    (∀ fields ∈ t.unique, fields ∈ checked ∨ fields ∈ todo) ∧
      ∀ fields ∈ checked, NoClash t s data fields
  | .putting _ data => ∀ fields ∈ t.unique, NoClash t s data fields
  | _ => True

/-! ## Careful runs -/

/-- A create has a set behind it. -/
def Phase.HasChecked (data : Doc) (fields : List String) : Phase → Prop
  | .checking _ data' checked _ => data' = data ∧ fields ∈ checked
  | .putting _ data' => data' = data ∧ fields ∈ t.unique
  | _ => False

/-- No create of another call has checked these values already. -/
def Unseen (s : State) (n : Nat) (cells : String → Js.Value) : Prop :=
  ∀ m ≠ n, ∀ p, s.calls[m]? = some p → ∀ data fields, p.HasChecked t data fields →
    clash data fields cells = false

/-- A document may come to show these values.  For each declared set its create has checked for
them, or the document shows them already, or no other one does; and no other create has checked
for them and not yet written. -/
def Harmless (s : State) (n : Nat) (id : String) (checks : List String → Prop)
    (cells : String → Js.Value) : Prop :=
  (∀ fields ∈ t.unique, checks fields ∨
    (∃ r, Shown s id r ∧ ∀ f ∈ fields, cells f = cell t id r f) ∨ Untaken t s fields id cells) ∧
  Unseen t s n cells

/-- The condition on an access that is carried out.  A check misses no row that is in the swarm
and not in the cache; a create, an update and a delete that leaves an older version behind are
harmless. -/
def Careful (s : State) : Move → Prop
  | .resume n fate => ∀ p, s.calls[n]? = some p →
    match p with
    | .checking _ data _ (fields :: _) =>
      ∀ id r, (s.swarm id).head?.map (·.row) = some r →
        (s.cache.lookup id).map (·.row) ≠ some r → clash data fields (cell t id r) = false
    | .putting id data =>
      Harmless t s n id (Speaks t data) (asked t s.now id ⟨[], s.now, s.now⟩ data)
    | .patching (id :: _) data _ => ∀ r, Shown s id r →
      Harmless t s n id (fun _ => False) (asked t s.now id r data)
    | .removing (id :: _) _ =>
      match fate with
      | .carriedOut gone => ∀ v ∈ ((s.swarm id).filter fun v => !gone v.seq).head?,
        Harmless t s n id (fun _ => False) (cell t id v.row)
      | _ => True
    | _ => True
  | _ => True

/-! ## Rows -/

section

variable {t : Table} {s s' : State} {id : String} {r : Stored} {fields : List String}

/-- What a step shows that was not shown before is one row at most. -/
def Adds (s s' : State) (id : String) (r : Stored) : Prop :=
  ∀ id' r', Shown s' id' r' → Shown s id' r' ∨ (id' = id ∧ r' = r)

theorem NoClash.adds {data : Doc} (h : NoClash t s data fields) (ha : Adds s s' id r)
    (hr : clash data fields (cell t id r) = false) : NoClash t s' data fields := by
  intro id' r' hshown
  obtain hshown | ⟨rfl, rfl⟩ := ha id' r' hshown
  · exact h id' r' hshown
  · exact hr

theorem Unique.adds (h : Unique t s) (ha : Adds s s' id r)
    (hfree : ∀ fields ∈ t.unique, Untaken t s fields id (cell t id r)) : Unique t s' := by
  intro fields hf id₁ r₁ id₂ r₂ h₁ h₂ hne hag
  obtain h₁ | ⟨rfl, rfl⟩ := ha id₁ r₁ h₁
  · obtain h₂ | ⟨rfl, rfl⟩ := ha id₂ r₂ h₂
    · exact h fields hf id₁ r₁ id₂ r₂ h₁ h₂ hne hag
    · exact hfree fields hf id₁ r₁ h₁ hne fun f hmem => (hag f hmem).symm
  · obtain h₂ | ⟨rfl, rfl⟩ := ha id₂ r₂ h₂
    · exact hfree fields hf id₂ r₂ h₂ (Ne.symm hne) hag
    · exact hne rfl

/-! ## Values -/

theorem lookup_clean (data : Doc) (f : String) :
    (clean data).lookup f = if f ∈ rowFields then none else data.lookup f := by
  rw [clean]
  induction data with
  | nil => simp
  | cons p data ih =>
    obtain ⟨k, v⟩ := p
    by_cases hk : f = k
    · subst hk
      by_cases hf : f ∈ rowFields
      · rw [filter_cons_of_neg (by simpa using hf), ih, if_pos hf, if_pos hf]
      · rw [filter_cons_of_pos (by simpa using hf), lookup_cons_self, lookup_cons_self, if_neg hf]
    · have hne : (f == k) = false := beq_eq_false_iff_ne.mpr hk
      rw [filter_cons, lookup_cons, hne]
      split
      · rw [lookup_cons, hne]
        exact ih
      · exact ih

theorem get_append (d d' : Doc) (f : String) :
    Doc.get (d ++ d') f = match d.lookup f with
      | some v => v
      | none => d'.get f := by
  rw [Doc.get, Doc.get, lookup_append]
  cases d.lookup f <;> rfl

theorem cell_patch (now : Nat) (data : Doc) (f : String) :
    cell t id (r.patch now data) f = asked t now id r data f := by
  have hnone : f ∈ rowFields → (clean data).lookup f = none := fun h => by
    rw [lookup_clean, if_pos h]
  unfold asked cell Stored.patch Doc.merge
  by_cases hu : f = "updatedAt"
  · subst hu
    rfl
  by_cases hrow : f ∈ rowFields
  · rw [hnone hrow]
    have : f = "id" ∨ f = "orgId" ∨ f = "createdAt" := by simpa [rowFields, hu] using hrow
    obtain rfl | rfl | rfl := this <;> rfl
  · simp only [rowFields, mem_cons, not_or] at hrow
    simp only [if_neg hrow.1, if_neg hrow.2.1, if_neg hrow.2.2.1, if_neg hu, get_append]
    cases (clean data).lookup f <;> rfl

theorem cell_newRow (now : Nat) (data : Doc) (f : String) :
    cell t id (newRow t now data) f = asked t now id ⟨[], now, now⟩ data f := by
  rw [← cell_patch]
  unfold cell newRow Stored.patch Doc.merge
  split_ifs <;> try rfl
  rw [get_append, get_append]
  cases (clean data).lookup f with
  | some v => rfl
  | none =>
    simp only [present, Option.or_self]
    rfl

/-- What the check of a set compares with is what the row shows. -/
theorem asked_of_speaks {now : Nat} {data : Doc} (h : Speaks t data fields) {f : String}
    (hf : f ∈ fields) :
    asked t now id ⟨[], now, now⟩ data f = (data.get f).getD .null := by
  obtain ⟨hrow, hdefault, hdate, -⟩ := h f hf
  have hpresent : present t f (data.get f) = (data.get f).getD .null := by
    unfold present
    cases hget : data.get f with
    | none => simp [hdefault hget]
    | some v =>
      cases v with
      | str s => simp [hdate s hget]
      | _ => simp
  have hu : f ≠ "updatedAt" := by
    rintro rfl
    exact hrow (by decide)
  rw [asked, if_neg hu, lookup_clean, if_neg hrow, ← hpresent, Doc.get]
  cases data.lookup f with
  | some v => rfl
  | none =>
    simp only [rowFields, mem_cons, not_or] at hrow
    rw [cell, if_neg hrow.1, if_neg hrow.2.1, if_neg hrow.2.2.1, if_neg hrow.2.2.2.1]
    rfl

/-! ## The store -/

/-- A new version is the newest, or the newest stays. -/
theorem head_added {vs : List Version} {v u : Version} {keep : Version → Bool}
    (hkeep : ∀ w, v.seq ≤ w.seq → keep w = true)
    (h : ((vs.orderedInsert (·.seq ≥ ·.seq) v).filter keep).head? = some u) :
    u = v ∨ vs.head? = some u := by
  cases vs with
  | nil =>
    rw [orderedInsert_nil, filter_cons_of_pos (hkeep v le_rfl)] at h
    exact .inl (some.inj h).symm
  | cons w ws =>
    rw [orderedInsert_cons] at h
    split at h
    · rw [filter_cons_of_pos (hkeep v le_rfl)] at h
      exact .inl (some.inj h).symm
    · rename_i hlt
      rw [filter_cons_of_pos (hkeep w (Nat.le_of_not_le hlt))] at h
      exact .inr h

theorem adds_added (v : Version) (gone : Nat → Bool) : Adds s (s.added id v gone) id v.row := by
  rintro id' r' (h | h)
  · by_cases hid : id' = id
    · subst hid
      simp only [State.added, Function.update_self] at h
      obtain ⟨u, hu, rfl⟩ := Option.map_eq_some_iff.mp h
      obtain rfl | hu := head_added (fun w hw => by simp [Nat.not_lt.mpr hw]) hu
      · exact .inr ⟨rfl, rfl⟩
      · exact .inl (.inl (by rw [hu]; rfl))
    · simp only [State.added, Function.update_of_ne hid] at h
      exact .inl (.inl h)
  · exact .inl (.inr h)

theorem adds_cached {v : Version} (h : Adds s s' id v.row) : Adds s (s'.cached id v) id v.row := by
  rintro id' r' (hs | hs)
  · exact h id' r' (.inl hs)
  · by_cases hid : id' = id
    · subst hid
      simp only [State.cached, lookup_insert] at hs
      exact .inr ⟨rfl, (some.inj hs).symm⟩
    · simp only [State.cached, lookup_insert_ne hid] at hs
      exact h id' r' (.inr hs)

/-- A removal shows the newest version that it leaves. -/
theorem shown_removed {gone : Nat → Bool} {id' : String} {r' : Stored}
    (h : Shown (s.removed id gone) id' r') : Shown s id' r' ∨
      (id' = id ∧ ∃ v, ((s.swarm id).filter fun v => !gone v.seq).head? = some v ∧ r' = v.row) := by
  obtain h | h := h
  · by_cases hid : id' = id
    · subst hid
      simp only [State.removed, Function.update_self] at h
      obtain ⟨v, hv, rfl⟩ := Option.map_eq_some_iff.mp h
      exact .inr ⟨rfl, v, hv, rfl⟩
    · simp only [State.removed, Function.update_of_ne hid] at h
      exact .inl (.inl h)
  · by_cases hid : id' = id
    · subst hid
      simp only [State.removed, lookup_erase] at h
      cases h
    · simp only [State.removed, lookup_erase_ne hid] at h
      exact .inl (.inr h)

/-- Nothing is shown for being read anew. -/
theorem Shown.of_refresh {ids : List String} (h : Shown (s.refresh ids) id r) : Shown s id r := by
  obtain h | h := h
  · exact .inl h
  rw [State.refresh] at h
  generalize hc : s.cache = cache at h
  have hcache : ∀ v, cache.lookup id = some v → Shown s id v.row := fun v hv =>
    .inr (by rw [hc, hv]; rfl)
  clear hc
  induction ids generalizing cache with
  | nil =>
    obtain ⟨v, hv, rfl⟩ := Option.map_eq_some_iff.mp h
    exact hcache v hv
  | cons i ids ih =>
    refine ih _ h fun v hv => ?_
    by_cases hi : id = i
    · subst hi
      cases hhead : (s.swarm id).head? with
      | some u =>
        simp only [hhead, lookup_insert] at hv
        exact .inl (by rw [hhead, hv]; rfl)
      | none =>
        simp only [hhead, lookup_erase] at hv
        cases hv
    · dsimp only at hv
      split at hv
      · rw [lookup_insert_ne hi] at hv
        exact hcache v hv
      · rw [lookup_erase_ne hi] at hv
        exact hcache v hv

theorem shown_base {v : Version} (h : s.base id = some v) : Shown s id v.row := by
  simp only [State.base] at h
  split at h
  · exact .inl (by rw [h]; rfl)
  · exact .inr (by rw [h]; rfl)

theorem write_adds (s : State) (id : String) (row : Option Stored → Stored) (next : Phase)
    (fate : Fate) :
    (s.write id row next fate).2 = s ∨
      Adds s (s.write id row next fate).2 id (row ((s.base id).map (·.row))) := by
  cases fate with
  | carriedOut gone => exact .inr (adds_cached (adds_added _ gone))
  | skipped => exact .inl rfl
  | failed => exact .inl rfl
  | lost =>
    exact .inr (adds_added ⟨((s.base id).map (·.seq)).getD 0 + 1, row ((s.base id).map (·.row))⟩
      fun _ => false)

/-! ## Phases -/

theorem ready_afterCheck {data : Doc} {checked todo : List (List String)}
    (hall : ∀ fields ∈ t.unique, fields ∈ checked ∨ fields ∈ todo)
    (hc : ∀ fields ∈ checked, NoClash t s data fields) :
    Ready t s (afterCheck id data checked todo) := by
  unfold afterCheck
  split
  · next hempty =>
      intro fields hf
      rcases hall fields hf with h | h
      · exact hc fields h
      · rw [isEmpty_iff.mp hempty] at h
        cases h
  · exact ⟨hall, hc⟩

theorem ready_startCreate (data : Doc) (fresh : String) : Ready t s (startCreate t data fresh) :=
  ready_afterCheck (fun _ h => .inr h) fun _ h => by cases h

theorem ready_loop {ids : List String} {p : List String → Phase}
    (h : ∀ ids, Ready t s (p ids)) : Ready t s (.loop ids p) := by
  unfold Phase.loop
  split
  · trivial
  · exact h ids

theorem ready_start (c : Call) : Ready t s (c.start t) := by
  cases c with
  | create data fresh => exact ready_startCreate data fresh
  | update w data =>
    simp only [Call.start]
    split <;> trivial
  | upsert w create update fresh => trivial
  | updateMany w data => trivial
  | delete w => trivial
  | deleteMany w => trivial

theorem ready_found (ids : List String) (next : Next) : Ready t s (next.found t ids) := by
  cases next with
  | updateOne data => cases ids <;> trivial
  | upsert create update fresh =>
    cases ids with
    | nil => exact ready_startCreate create fresh
    | cons id ids => trivial
  | updateMany data => exact ready_loop (p := (.patching · data false)) fun _ => trivial
  | deleteOne => cases ids <;> trivial
  | deleteMany => exact ready_loop (p := (.removing · false)) fun _ => trivial

theorem ready_write {row : Option Stored → Stored} {next : Phase} (fate : Fate)
    (h : ∀ s', Ready t s' next) :
    Ready t (s.write id row next fate).2 (s.write id row next fate).1 := by
  cases fate with
  | carriedOut gone => exact h _
  | skipped => exact h _
  | failed => trivial
  | lost => trivial

/-- A careful access leaves its own call ready. -/
theorem ready_access {n : Nat} {p : Phase} (fate : Fate) (h : Ready t s p)
    (hp : s.calls[n]? = some p) (hc : Careful t s (.resume n fate)) :
    Ready t (access t s fate p).2 (access t s fate p).1 := by
  have hcare := hc p hp
  cases p with
  | checking id data checked todo =>
    obtain ⟨hall, hchecked⟩ := h
    simp only [access]
    split
    · trivial
    · intro fields hf
      exact hchecked fields ((hall fields hf).resolve_right fun h => by cases h)
    · rename_i fields rest _
      split
      · trivial
      · next hno =>
          refine ready_afterCheck (fun fs hf => ?_) fun fs hf => ?_
          · rcases hall fs hf with h | h
            · exact .inl (mem_cons_of_mem _ h)
            · rcases mem_cons.mp h with rfl | h
              · exact .inl mem_cons_self
              · exact .inr h
          · rcases mem_cons.mp hf with rfl | hf
            · intro id' r' hshown
              have hcached : (s.cache.lookup id').map (·.row) = some r' →
                  clash data fs (cell t id' r') = false := fun hlk => by
                obtain ⟨v, hv, rfl⟩ := Option.map_eq_some_iff.mp hlk
                by_contra hclash
                exact hno (any_eq_true.mpr
                  ⟨⟨id', v⟩, mem_lookup_iff.mp hv, by simpa using hclash⟩)
              obtain hs | hs := hshown
              · by_cases hlk : (s.cache.lookup id').map (·.row) = some r'
                · exact hcached hlk
                · exact hcare id' r' hs hlk
              · exact hcached hs
            · exact hchecked fs hf
  | putting id data =>
    simp only [access]
    split
    · exact ready_write fate fun _ => trivial
    · trivial
  | finding w next =>
    simp only [access]
    split
    · trivial
    · exact ready_found _ next
    · trivial
  | patching ids data one =>
    cases ids with
    | nil => trivial
    | cons id rest =>
      simp only [access]
      split
      · trivial
      · split
        · exact ready_write fate fun _ =>
            ready_loop (p := (.patching · data one)) fun _ => trivial
        · split
          · trivial
          · exact ready_loop (p := (.patching · data one)) fun _ => trivial
  | removing ids one =>
    simp only [access]
    split
    · trivial
    · split
      · trivial
      · exact ready_loop (p := (.removing · one)) fun _ => trivial
    · trivial
  | ended r => trivial

/-- What an access does to the rows: it shows none that was not shown, or it is a write, or the
removal of a newest version. -/
theorem access_adds (fate : Fate) (p : Phase) :
    (∀ id r, Shown (access t s fate p).2 id r → Shown s id r) ∨
    (∃ id data, p = .putting id data ∧
      Adds s (access t s fate p).2 id (newRow t s.now data)) ∨
    (∃ id rest data one r, p = .patching (id :: rest) data one ∧ Shown s id r ∧
      Adds s (access t s fate p).2 id (r.patch s.now data)) ∨
    ∃ id rest one gone v, p = .removing (id :: rest) one ∧ fate = .carriedOut gone ∧
      ((s.swarm id).filter fun v => !gone v.seq).head? = some v ∧
      Adds s (access t s fate p).2 id v.row := by
  cases p with
  | checking id data checked todo =>
    left
    simp only [access]
    split
    · exact fun _ _ h => h
    · exact fun _ _ h => h
    · split <;> exact fun _ _ h => h
  | putting id data =>
    simp only [access]
    split
    · obtain h | h := write_adds s id (fun _ => newRow t s.now data)
        (.ended (.ok ())) fate
      · rw [h]
        exact .inl fun _ _ h => h
      · exact .inr (.inl ⟨id, data, rfl, h⟩)
    · exact .inl fun _ _ h => h
  | finding w next =>
    left
    simp only [access]
    split <;> exact fun _ _ h => h
  | patching ids data one =>
    cases ids with
    | nil => exact .inl fun _ _ h => h
    | cons id rest =>
      simp only [access]
      split
      · exact .inl fun _ _ h => h
      · split
        · rename_i v hv
          obtain h | h := write_adds s id (fun r => (r.getD v.row).patch s.now data)
            (.loop rest (.patching · data one)) fate
          · rw [h]
            exact .inl fun _ _ h => h
          · refine .inr (.inr (.inl ⟨id, rest, data, one, _, rfl, ?_, h⟩))
            cases hbase : s.base id with
            | some u => exact shown_base hbase
            | none => exact .inr (by rw [hv]; rfl)
        · exact .inl fun _ _ h => h
  | removing ids one =>
    cases ids with
    | nil => exact .inl fun _ _ h => h
    | cons id rest =>
      cases fate with
      | carriedOut gone =>
        cases hv : ((s.swarm id).filter fun v => !gone v.seq).head? with
        | none =>
          refine .inl fun id' r' h => (shown_removed h).resolve_right ?_
          rintro ⟨-, v, hv', -⟩
          rw [hv] at hv'
          cases hv'
        | some v =>
          refine .inr (.inr (.inr ⟨id, rest, one, gone, v, rfl, rfl, hv, fun id' r' h => ?_⟩))
          refine (shown_removed h).imp_right ?_
          rintro ⟨rfl, v', hv', rfl⟩
          rw [hv] at hv'
          exact ⟨rfl, congrArg _ (some.inj hv').symm⟩
      | skipped => exact .inl fun _ _ h => h
      | failed => exact .inl fun _ _ h => h
      | lost => exact .inl fun _ _ h => h
  | ended r => exact .inl fun _ _ h => h

/-! ## The invariant -/

/-- The rows are unique, and every create is ready. -/
structure Inv (t : Table) (s : State) : Prop where
  unique : Unique t s
  ready : ∀ (n : Nat) p, s.calls[n]? = some p → Ready t s p

theorem Ready.mono {p : Phase} (h : Ready t s p)
    (hn : ∀ data fields, p.HasChecked t data fields → NoClash t s data fields →
      NoClash t s' data fields) : Ready t s' p := by
  cases p with
  | checking id data checked todo =>
    exact ⟨h.1, fun fields hf => hn data fields ⟨rfl, hf⟩ (h.2 fields hf)⟩
  | putting id data => exact fun fields hf => hn data fields ⟨rfl, hf⟩ (h fields hf)
  | _ => trivial

/-- A set whose check has passed leaves its values to the row it speaks of. -/
theorem untaken_of_speaks {now : Nat} {data : Doc} (h : Speaks t data fields)
    (hc : NoClash t s data fields) :
    Untaken t s fields id (asked t now id ⟨[], now, now⟩ data) := by
  intro id' r' hshown hne hag
  have hclash : clash data fields (cell t id' r') = true := by
    refine all_eq_true.mpr fun f hf => ?_
    have hcell := (hag f hf).symm.trans (asked_of_speaks h hf)
    refine Js.Value.same_iff.mpr ⟨hcell, ?_⟩
    rw [hcell]
    exact (h f hf).2.2.2
  rw [hc id' r' hshown] at hclash
  cases hclash

theorem Harmless.untaken {n : Nat} {checks : List String → Prop} {cells : String → Js.Value}
    (h : Harmless t s n id checks cells) (hu : Unique t s)
    (hchecks : ∀ fields ∈ t.unique, checks fields → Untaken t s fields id cells) :
    ∀ fields ∈ t.unique, Untaken t s fields id cells := by
  intro fields hf
  obtain h | ⟨r, hr, hkept⟩ | h := h.1 fields hf
  · exact hchecks fields hf h
  · intro id' r' hshown hne hag
    exact hu fields hf id r id' r' hr hshown (Ne.symm hne) fun f hmem =>
      (hkept f hmem).symm.trans (hag f hmem)
  · exact h

/-- A row that does no harm may come to be shown. -/
theorem Inv.adds {n : Nat} (h : Inv t s) (ha : Adds s s' id r)
    (hfree : ∀ fields ∈ t.unique, Untaken t s fields id (cell t id r))
    (hunseen : Unseen t s n (cell t id r)) :
    Unique t s' ∧ ∀ m ≠ n, ∀ q, s.calls[m]? = some q → Ready t s' q :=
  ⟨h.unique.adds ha hfree, fun m hm q hq => (h.ready m q hq).mono fun data fields hk hn =>
    hn.adds ha (hunseen m hm q hq data fields hk)⟩

/-- A careful access keeps the rows unique and the other calls ready. -/
theorem Inv.access {n : Nat} {p : Phase} {fate : Fate} (h : Inv t s)
    (hp : s.calls[n]? = some p) (hc : Careful t s (.resume n fate)) :
    Unique t (access t s fate p).2 ∧
      ∀ m ≠ n, ∀ q, s.calls[m]? = some q → Ready t (KvTable.access t s fate p).2 q := by
  have hcare := hc p hp
  obtain hsub | ⟨id, data, rfl, ha⟩ | ⟨id, rest, data, one, r, rfl, hr, ha⟩ |
    ⟨id, rest, one, gone, v, rfl, rfl, hv, ha⟩ := access_adds (t := t) (s := s) fate p
  · refine ⟨fun fields hf id r id' r' h₁ h₂ => ?_, fun m _ q hq => ?_⟩
    · exact h.unique fields hf id r id' r' (hsub id r h₁) (hsub id' r' h₂)
    · exact (h.ready m q hq).mono fun data fields _ hn id r hs => hn id r (hsub id r hs)
  · have hcells : cell t id (newRow t s.now data) = asked t s.now id ⟨[], s.now, s.now⟩ data :=
      funext (cell_newRow s.now data)
    refine h.adds ha ?_ (hcells ▸ hcare.2)
    rw [hcells]
    exact hcare.untaken h.unique fun fields hf hs =>
      untaken_of_speaks hs (h.ready n _ hp fields hf)
  · have hcells : cell t id (r.patch s.now data) = asked t s.now id r data :=
      funext (cell_patch s.now data)
    have hharm := hcare r hr
    refine h.adds ha ?_ (hcells ▸ hharm.2)
    rw [hcells]
    exact hharm.untaken h.unique fun _ _ hs => hs.elim
  · have hharm := hcare v hv
    exact h.adds ha (hharm.untaken h.unique fun _ _ hs => hs.elim) hharm.2

theorem Inv.step {m : Move} (h : Inv t s) (hc : Careful t s m) (hs : step t s m = some s') :
    Inv t s' := by
  cases m with
  | call c =>
    cases hs
    refine ⟨h.unique, fun n p hp => ?_⟩
    rcases Cells.of_append hp with hp | ⟨-, rfl⟩
    · exact h.ready n p hp
    · exact ready_start c
  | tick dt =>
    cases hs
    exact ⟨h.unique, h.ready⟩
  | refresh ids =>
    cases hs
    refine ⟨fun fields hf id r id' r' h₁ h₂ => ?_, fun n p hp => ?_⟩
    · exact h.unique fields hf id r id' r' h₁.of_refresh h₂.of_refresh
    · exact (h.ready n p hp).mono fun data fields _ hn id r hs => hn id r hs.of_refresh
  | resume n fate =>
    obtain ⟨p, hp, hs⟩ := bind_eq_some_iff.mp hs
    have hready := ready_access fate (h.ready n p hp) hp hc
    obtain ⟨hu, hothers⟩ := h.access hp hc
    split at hs
    · cases hs
    · cases hs
      refine ⟨hu, fun m q hq => ?_⟩
      rcases Cells.of_set hq with ⟨-, rfl⟩ | ⟨hm, hq⟩
      · exact hready
      · exact hothers m hm q hq

end

/-- In careful runs unique keys stay unique, in the swarm and in the cache. -/
theorem unique_of_careful (t : Table) {s₀ s : State} (h₀ : Unique t s₀) (hidle : s₀.calls = [])
    (h : Reach t (Careful t) s₀ s) : Unique t s := by
  have hinv : Inv t s := by
    induction h with
    | refl =>
      refine ⟨h₀, fun n p hp => ?_⟩
      rw [hidle] at hp
      cases hp
    | tail _ hc hs ih => exact ih.step hc hs
  exact hinv.unique

/-! ## Two backup targets of one name -/

/-- `backupTargets`, with the default kind. -/
def backupTargets : Table where
  dateFields := []
  defaults := [("kind", some (.str "S3"))]
  unique := [["name"]]
  singleton := false
  orgId := "org"
  getTime _ := .other "NaN"

def noRows : State := ⟨0, fun _ => [], ∅, []⟩

/-- A target of a name. -/
def named (name : String) : Doc := [("name", some (.str name))]

/-- The first version of a target. -/
def firstVersion (name : String) : Version := ⟨1, newRow backupTargets 0 (named name)⟩

/-- A target whose create has lost its answer, read anew. -/
def lostTarget : State :=
  { (noRows.added "a" (firstVersion "s3") fun _ => false).refresh ["a"] with
    calls := [.ended (.error .store)] }

/-- Another target beside it. -/
def bothTargets : State :=
  { (lostTarget.added "b" (firstVersion "b2") fun _ => false).cached "b" (firstVersion "b2") with
    calls := [.ended (.error .store), .ended (.ok ())] }

theorem speaks_named (name : String) :
    ∀ fields ∈ backupTargets.unique, Speaks backupTargets (named name) fields := by
  intro fields hf f hmem
  rw [mem_singleton.mp hf, mem_singleton] at hmem
  subst hmem
  refine ⟨by decide, fun h => ?_, fun _ _ => not_mem_nil, rfl⟩
  cases h

/-- A create that checks and writes beside calls that have ended. -/
theorem careful_create {s : State} {n : Nat} {id name : String} {fate : Fate}
    (hn : s.calls[n]? = some (.putting id (named name)))
    (hended : ∀ m ≠ n, ∀ p, s.calls[m]? = some p → ∃ r, p = .ended r) :
    Careful backupTargets s (.resume n fate) := by
  intro p hp
  rw [hn] at hp
  obtain rfl := some.inj hp
  refine ⟨fun fields hf => .inl (speaks_named name fields hf), fun m hm p hp data fields hk => ?_⟩
  obtain ⟨r, rfl⟩ := hended m hm p hp
  exact hk.elim

/-- A target is created with its answer lost, and another one once the cache is read anew. -/
theorem unique_named : Unique backupTargets bothTargets := by
  let R := Reach backupTargets (Careful backupTargets) noRows
  let check (id name : String) : Phase := .checking id (named name) [] [["name"]]
  let put (id name : String) : Phase := .putting id (named name)
  let ended : Phase := .ended (.error .store)
  have h₁ : R { noRows with calls := [check "a" "s3"] } :=
    .tail (m := .call (.create (named "s3") "a")) .refl trivial rfl
  have h₂ : R { noRows with calls := [put "a" "s3"] } := by
    refine h₁.tail (m := .resume 0 (.carriedOut fun _ => false)) ?_ rfl
    intro p hp
    cases hp
    intro id r hr
    cases hr
  have h₃ : R { noRows.added "a" (firstVersion "s3") fun _ => false with calls := [ended] } := by
    refine h₂.tail (m := .resume 0 .lost) (careful_create rfl fun m hm p hp => ?_) rfl
    cases m with
    | zero => exact absurd rfl hm
    | succ m => cases hp
  have h₄ : R lostTarget := h₃.tail (m := .refresh ["a"]) trivial rfl
  have h₅ : R { lostTarget with calls := [ended, check "b" "b2"] } :=
    h₄.tail (m := .call (.create (named "b2") "b")) trivial rfl
  have h₆ : R { lostTarget with calls := [ended, put "b" "b2"] } := by
    refine h₅.tail (m := .resume 1 (.carriedOut fun _ => false)) ?_ rfl
    intro p hp
    cases hp
    intro id r hr hcache
    refine absurd ?_ hcache
    by_cases hid : id = "a"
    · subst hid
      exact hr
    · cases (show (none : Option Stored) = some r by
        rw [← hr]
        simp [lostTarget, State.refresh, State.added, Function.update_of_ne hid, noRows])
  have h₇ : R bothTargets := by
    refine h₆.tail (m := .resume 1 (.carriedOut fun _ => false))
      (careful_create rfl fun m hm p hp => ?_) rfl
    rcases m with _ | _ | m
    · exact ⟨_, (some.inj hp).symm⟩
    · exact absurd rfl hm
    · cases hp
  have hnone : Unique backupTargets noRows := by
    intro _ _ _ _ _ _ h
    obtain h | h := h <;> cases h
  exact unique_of_careful backupTargets hnone rfl h₇

/-- Run some moves. -/
def runMoves (s : State) : List Move → Option State
  | [] => some s
  | m :: ms => (step backupTargets s m).bind fun s => runMoves s ms

theorem reach_runMoves {s₀ : State} {ms : List Move} {s s' : State}
    (h : Reach backupTargets (fun _ _ => True) s₀ s) (hrun : runMoves s ms = some s') :
    Reach backupTargets (fun _ _ => True) s₀ s' := by
  induction ms generalizing s with
  | nil =>
    cases hrun
    exact h
  | cons m ms ih =>
    obtain ⟨s₁, hs, hrun⟩ := bind_eq_some_iff.mp hrun
    exact ih (h.tail trivial hs) hrun

/-- An access that is carried out. -/
def carriedOut (n : Nat) : Move := .resume n (.carriedOut fun _ => true)

/-- Two creates check before either writes. -/
def overlapping : List Move :=
  [.call (.create (named "s3") "a"), .call (.create (named "s3") "b"),
    carriedOut 0, carriedOut 1, carriedOut 0, carriedOut 1]

theorem not_unique : ¬∀ (t : Table) (s : State), Reach t (fun _ _ => True) noRows s →
    Unique t s := by
  intro h
  have hrun : (runMoves noRows overlapping).map (fun s =>
      (((s.swarm "a").head?.map fun v => (cell backupTargets "a" v.row "name").same (.str "s3")),
        (s.swarm "b").head?.map fun v => (cell backupTargets "b" v.row "name").same (.str "s3"))) =
      some (some true, some true) := by decide
  obtain ⟨s, hs, heq⟩ := map_eq_some_iff.mp hrun
  obtain ⟨ha, hb⟩ := Prod.mk.inj heq
  obtain ⟨va, hva, hna⟩ := map_eq_some_iff.mp ha
  obtain ⟨vb, hvb, hnb⟩ := map_eq_some_iff.mp hb
  refine h backupTargets s (reach_runMoves .refl hs) ["name"] (by decide) "a" va.row "b" vb.row
    (.inl (by rw [hva]; rfl)) (.inl (by rw [hvb]; rfl)) (by decide) fun f hf => ?_
  rw [mem_singleton.mp hf, (Js.Value.same_iff.mp hna).1, (Js.Value.same_iff.mp hnb).1]

end Swarmy.KvTable
