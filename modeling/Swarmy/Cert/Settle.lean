import Swarmy.Cert.Converge

/-!
# What a clean reconcile leaves

`syncOnce` with nothing beside it, over any files and times of both tiers: every key
goes by what the two times say (`every_syncOnce`), and a second reconcile finds nothing
to do.  The tolerance has a price: two copies that differ and were written within it stay
different, and `reconciled_iff` says that only these do.
-/

namespace Swarmy.Cert

open Coop List Option AList

/-! ## Runs with nothing beside them -/

/-- The calls whose errors `syncOnce` drops somewhere. -/
def CertCall.dropped : CertCall → Bool
  | .localList _ | .localStat _ | .chtimes _ _ | .replicaStat _ => true
  | _ => false

/-- How a call of a run goes, and how far the clocks advance before it. -/
structure Turn where
  dt : Nat
  replicaDt : Nat
  choice : CertChoice

def CertWorld.tick (w : CertWorld) (t : Turn) : CertWorld :=
  { w with now := w.now + t.dt, replicaNow := w.replicaNow + t.replicaDt }

/-- Run a program alone.  A call may fail, but not where its error would be dropped. -/
def runAlone {α : Type} : CertProg α → List Turn → CertWorld →
    Option (Except StorageError α × CertWorld)
  | .ret a, _, w => some (.ok a, w)
  | .raise e, _, w => some (.error e, w)
  | .act f k, ts, w => runAlone (k w) ts (f w)
  | .call _ _, [], _ => none
  | .call c k, t :: ts, w =>
    if c.dropped = true ∧ t.choice ≠ .ok then none
    else (certExec t.choice c (w.tick t)).bind fun r => runAlone (k r.1) ts r.2

section

variable {α β : Type} {w : CertWorld}

/-- What holds whenever a run alone returns. -/
def Every (D : α → CertWorld → Prop) : CertProg α → CertWorld → Prop
  | .ret a, w => D a w
  | .raise _, _ => True
  | .act f k, w => Every D (k w) (f w)
  | .call c k, w => ∀ t : Turn, (c.dropped = true → t.choice = .ok) → ∀ r w',
      certExec t.choice c (w.tick t) = some (r, w') → Every D (k r) w'

variable {D : α → CertWorld → Prop} {w' : CertWorld} {k : String}

theorem Every.mono {D' : α → CertWorld → Prop} (hD : ∀ a w, D a w → D' a w) {p : CertProg α}
    (h : Every D p w) : Every D' p w := by
  induction p generalizing w with
  | ret a => exact hD a w h
  | raise e => trivial
  | act f k ih => exact ih w h
  | call c k ih => exact fun t ht r w' he => ih r (h t ht r w' he)

/-- The rule for sequencing. -/
theorem Every.bind {D : β → CertWorld → Prop} {P : α → CertWorld → Prop} {p : CertProg α}
    {f : α → CertProg β} (h : Every P p w) (hf : ∀ a w', P a w' → Every D (f a) w') :
    Every D (p.bind f) w := by
  induction p generalizing w with
  | ret a => exact hf a w h
  | raise e => trivial
  | act g k ih => exact ih w h
  | call c k ih => exact fun t ht r w' he => ih r (h t ht r w' he)

theorem Every.run {p : CertProg α} (h : Every D p w) {ts : List Turn}
    {a : α} (hrun : runAlone p ts w = some (.ok a, w')) : D a w' := by
  induction p generalizing w ts with
  | ret a =>
    cases hrun
    exact h
  | raise e => cases hrun
  | act f k ih => exact ih w h hrun
  | call c k ih =>
    cases ts with
    | nil => cases hrun
    | cons t ts =>
      unfold runAlone at hrun
      split at hrun
      · cases hrun
      · next hc =>
          obtain ⟨⟨r, w₁⟩, he, hrun⟩ := bind_eq_some_iff.mp hrun
          refine ih r (h t (fun hd => ?_) r w₁ he) hrun
          by_contra hne
          exact hc ⟨hd, hne⟩

/-- The rule for a call whose error is dropped. -/
theorem every_dropped {c : CertCall} {k : CertSig.Ans c → CertProg α} (hc : c.dropped = true)
    (h : ∀ t : Turn, Every D (k (certDo c (w.tick t)).1) (certDo c (w.tick t)).2) :
    Every D (Prog.perform (S := CertSig) c >>= k) w := by
  intro t ht r w' he
  rw [ht hc] at he
  have hdo : certDo c (w.tick t) = (r, w') := some.inj he
  have hD := h t
  rw [hdo] at hD
  exact hD

/-- The rule for any other call. -/
theorem every_call {c : CertCall} {k : CertSig.Ans c → CertProg α}
    (hok : ∀ t : Turn, Every D (k (certDo c (w.tick t)).1) (certDo c (w.tick t)).2)
    (hfail : ∀ t : Turn, Every D (k (certFail c)) (w.tick t) ∧
      Every D (k (certFail c)) (certDo c (w.tick t)).2) :
    Every D (Prog.perform (S := CertSig) c >>= k) w := by
  rintro ⟨dt, dt', χ⟩ - r w' he
  cases χ with
  | ok =>
    have hdo : certDo c (w.tick ⟨dt, dt', .ok⟩) = (r, w') := some.inj he
    have hD := hok ⟨dt, dt', .ok⟩
    rw [hdo] at hD
    exact hD
  | fail =>
    obtain ⟨rfl, rfl⟩ := Prod.mk.inj (some.inj he)
    exact (hfail ⟨dt, dt', .fail⟩).1
  | lost =>
    obtain ⟨rfl, rfl⟩ := Prod.mk.inj (some.inj he)
    exact (hfail ⟨dt, dt', .lost⟩).2

/-! ## Reading -/

/-- The files and the remembered deletes are the same. -/
structure SameFiles (w w' : CertWorld) : Prop where
  loc : w'.loc = w.loc
  rep : w'.rep = w.rep
  pending : w'.pendingDeletes = w.pendingDeletes
  now : w.replicaNow ≠ 0 → w'.replicaNow ≠ 0

theorem SameFiles.refl (w : CertWorld) : SameFiles w w := ⟨rfl, rfl, rfl, id⟩

theorem SameFiles.trans {w w'' : CertWorld} (h : SameFiles w w') (h' : SameFiles w' w'') :
    SameFiles w w'' :=
  ⟨h'.loc.trans h.loc, h'.rep.trans h.rep, h'.pending.trans h.pending, h'.now ∘ h.now⟩

theorem sameFiles_tick (t : Turn) : SameFiles w (w.tick t) :=
  ⟨rfl, rfl, rfl, fun h => by
    show w.replicaNow + t.replicaDt ≠ 0
    omega⟩

theorem every_probe : Every (fun _ w' => SameFiles w w') probe w := by
  refine every_dropped rfl fun t => ?_
  have hsame := sameFiles_tick (w := w) t
  simp only [certDo]
  cases (w.tick t).rep.lookup probeKey with
  | none => exact ⟨hsame.loc, hsame.rep, hsame.pending, hsame.now⟩
  | some f => exact ⟨hsame.loc, hsame.rep, hsame.pending, hsame.now⟩

theorem certDo_localStat {f : CertFile} (h : w.loc.lookup k = some f) :
    certDo (.localStat k) w = (.ok ⟨f.modified, true⟩, w) := by
  simp only [certDo, h]

theorem certDo_replicaStat {f : CertFile} (h : w.rep.lookup k = some f) :
    certDo (.replicaStat k) w = (.ok f.modified, w) := by
  simp only [certDo, h]

theorem every_terminalKeys (keys : List String) (hk : ∀ k ∈ keys, w.loc.lookup k ≠ none) :
    Every (fun ks w' => ks = keys ∧ SameFiles w w') (terminalKeys keys) w := by
  induction keys generalizing w with
  | nil => exact ⟨rfl, .refl w⟩
  | cons k keys ih =>
    refine every_dropped rfl fun t => ?_
    obtain ⟨f, hf⟩ := ne_none_iff_exists'.mp (hk k mem_cons_self)
    rw [certDo_localStat (w := w.tick t) hf]
    refine Every.bind (ih (w := w.tick t) fun k' hk' => hk k' (mem_cons_of_mem _ hk')) ?_
    rintro ks w' ⟨rfl, hw⟩
    exact ⟨rfl, (sameFiles_tick t).trans hw⟩

/-- The keys with what a function says of them. -/
def timesOf (time : String → Option Nat) (keys : List String) : List (String × Nat) :=
  keys.filterMap fun k => (time k).map fun t => (k, t)

theorem lookup_timesOf (time : String → Option Nat) (keys : List String) (k : String) :
    (timesOf time keys).lookup k = if k ∈ keys then time k else none := by
  induction keys with
  | nil => rfl
  | cons k' keys ih =>
    unfold timesOf at *
    rw [filterMap_cons]
    by_cases hk : k = k'
    · subst hk
      cases ht : time k with
      | none =>
        simp only [map_none, mem_cons_self, if_true]
        rw [ih, ht]
        split <;> rfl
      | some t => simp
    · cases ht : time k' with
      | none => simp [ih, hk]
      | some t =>
        have hne : (k == k') = false := by simpa using hk
        simp [lookup_cons, hne, ih, hk]

theorem every_localTimes (keys : List String) (hk : ∀ k ∈ keys, w.loc.lookup k ≠ none) :
    Every (fun ts w' => ts = timesOf (fun k => (w.loc.lookup k).map (·.modified)) keys ∧
      SameFiles w w') (localTimes keys) w := by
  induction keys generalizing w with
  | nil => exact ⟨rfl, .refl w⟩
  | cons k keys ih =>
    refine every_dropped rfl fun t => ?_
    obtain ⟨f, hf⟩ := ne_none_iff_exists'.mp (hk k mem_cons_self)
    rw [certDo_localStat (w := w.tick t) hf]
    refine Every.bind (ih (w := w.tick t) fun k' hk' => hk k' (mem_cons_of_mem _ hk')) ?_
    rintro ts w' ⟨rfl, hw⟩
    refine ⟨?_, (sameFiles_tick t).trans hw⟩
    simp only [timesOf, filterMap_cons, hf, map_some]
    rfl

theorem every_remoteTimes (keys : List String) (hk : ∀ k ∈ keys, w.rep.lookup k ≠ none) :
    Every (fun ts w' => ts = timesOf (fun k => (w.rep.lookup k).map (·.modified)) keys ∧
      SameFiles w w') (remoteTimes keys) w := by
  induction keys generalizing w with
  | nil => exact ⟨rfl, .refl w⟩
  | cons k keys ih =>
    refine every_dropped rfl fun t => ?_
    obtain ⟨f, hf⟩ := ne_none_iff_exists'.mp (hk k mem_cons_self)
    rw [certDo_replicaStat (w := w.tick t) hf]
    refine Every.bind (ih (w := w.tick t) fun k' hk' => hk k' (mem_cons_of_mem _ hk')) ?_
    rintro ts w' ⟨rfl, hw⟩
    refine ⟨?_, (sameFiles_tick t).trans hw⟩
    simp only [timesOf, filterMap_cons, hf, map_some]
    rfl

/-! ## Remembered deletes -/

/-- The keys are gone from the replica and forgotten. -/
structure Replayed (ks : List String) (w w' : CertWorld) : Prop where
  loc : w'.loc = w.loc
  rep : ∀ k, w'.rep.lookup k = if k ∈ ks then none else w.rep.lookup k
  pending : ∀ k, k ∈ w'.pendingDeletes ↔ k ∈ w.pendingDeletes ∧ k ∉ ks
  now : w.replicaNow ≠ 0 → w'.replicaNow ≠ 0

theorem every_replay (ks : List String) : Every (fun _ w' => Replayed ks w w') (replay ks) w := by
  induction ks generalizing w with
  | nil => exact ⟨rfl, fun _ => by simp, fun _ => by simp, id⟩
  | cons k ks ih =>
    refine every_call (fun t => ?_) fun t => ⟨trivial, trivial⟩
    refine Every.mono ?_ (ih (w := { w.tick t with
      rep := w.rep.erase k
      pendingDeletes := w.pendingDeletes.filter (· ≠ k) }))
    intro _ w' h
    refine ⟨h.loc, fun k' => ?_, fun k' => ?_, fun hn => h.now ((sameFiles_tick t).now hn)⟩
    · rw [h.rep]
      by_cases hk : k' = k
      · subst hk
        simp
      · simp [hk, lookup_erase_ne hk]
    · rw [h.pending]
      simp only [mem_filter, mem_cons, decide_eq_true_eq]
      tauto

/-! ## One key -/

/-- Nothing but the key has changed. -/
structure Off (k : String) (w w' : CertWorld) : Prop where
  loc : ∀ k' ≠ k, w'.loc.lookup k' = w.loc.lookup k'
  rep : ∀ k' ≠ k, w'.rep.lookup k' = w.rep.lookup k'
  pending : w'.pendingDeletes = w.pendingDeletes
  now : w.replicaNow ≠ 0 → w'.replicaNow ≠ 0

/-- Set the time of a file. -/
theorem every_setMtime {f : CertFile} {m : Nat} (hf : w.loc.lookup k = some f) (hm : m ≠ 0) :
    Every (fun _ w' => Off k w w' ∧ w'.loc.lookup k = some ⟨f.bytes, m⟩ ∧
      w'.rep.lookup k = w.rep.lookup k) (setMtime k m) w := by
  unfold setMtime
  rw [if_neg hm]
  refine every_dropped rfl fun t => ?_
  have hset : certDo (.chtimes k m) (w.tick t) =
      (.ok (), { w.tick t with loc := w.loc.insert k ⟨f.bytes, m⟩ }) := by
    have hf' : (w.tick t).loc.lookup k = some f := hf
    simp only [certDo, hf']
    rfl
  rw [hset]
  refine ⟨⟨fun k' hk => ?_, fun _ _ => rfl, rfl, (sameFiles_tick t).now⟩, ?_, rfl⟩
  · exact lookup_insert_ne hk
  · exact lookup_insert _

theorem every_alignMtime {f g : CertFile} (hf : w.loc.lookup k = some f)
    (hg : w.rep.lookup k = some g) (hm : g.modified ≠ 0) :
    Every (fun _ w' => Off k w w' ∧ w'.loc.lookup k = some ⟨f.bytes, g.modified⟩ ∧
      w'.rep.lookup k = w.rep.lookup k) (alignMtime k) w := by
  refine every_dropped rfl fun t => ?_
  rw [certDo_replicaStat (w := w.tick t) hg]
  have hset := every_setMtime (w := w.tick t) hf hm
  refine hset.mono ?_
  rintro _ w' ⟨hoff, hloc, hrep⟩
  exact ⟨⟨hoff.loc, hoff.rep, hoff.pending, fun hn => hoff.now ((sameFiles_tick t).now hn)⟩,
    hloc, hrep⟩

theorem every_push {f : CertFile} (hf : w.loc.lookup k = some f) (hn : w.replicaNow ≠ 0) :
    Every (fun _ w' => Off k w w' ∧ ∃ t, w'.loc.lookup k = some ⟨f.bytes, t⟩ ∧
      w'.rep.lookup k = some ⟨f.bytes, t⟩) (push k) w := by
  refine every_call (fun t => ?_) fun t => ⟨trivial, trivial⟩
  have hload : certDo (.localLoad k) (w.tick t) = (.ok f.bytes, w.tick t) := by
    have hf' : (w.tick t).loc.lookup k = some f := hf
    simp only [certDo, hf']
  rw [hload]
  refine every_call (fun t' => ?_) fun t' => ⟨trivial, trivial⟩
  have hnow : w.replicaNow + t.replicaDt + t'.replicaDt ≠ 0 := by omega
  refine (every_alignMtime
    (w := (certDo (.replicaStore k f.bytes) ((w.tick t).tick t')).2)
    (g := ⟨f.bytes, w.replicaNow + t.replicaDt + t'.replicaDt⟩) hf
    (lookup_insert _) hnow).mono ?_
  rintro _ w' ⟨hoff, hloc, hrep⟩
  refine ⟨⟨hoff.loc, fun k' hk => ?_, hoff.pending, fun _ => hoff.now hnow⟩, _, hloc, ?_⟩
  · rw [hoff.rep k' hk]
    exact lookup_insert_ne hk
  · rw [hrep]
    exact lookup_insert _

theorem every_pull {g : CertFile} (hg : w.rep.lookup k = some g) (hm : g.modified ≠ 0) :
    Every (fun _ w' => Off k w w' ∧ w'.loc.lookup k = some g ∧ w'.rep.lookup k = some g)
      (pull k g.modified) w := by
  -- With the bytes in place only the time is left to set.
  have hset : ∀ (b : Bool) (w₁ : CertWorld) (f : CertFile), w₁.loc.lookup k = some f →
      f.bytes = g.bytes → w₁.rep.lookup k = some g → Off k w w₁ →
      Every (fun _ w' => Off k w w' ∧ w'.loc.lookup k = some g ∧ w'.rep.lookup k = some g)
        (setMtime k g.modified >>= fun _ => pure b) w₁ := by
    intro b w₁ f hf hbytes hrep hoff₁
    refine Every.bind (every_setMtime hf hm) ?_
    rintro _ w' ⟨hoff, hloc, hrep'⟩
    refine ⟨⟨fun k' hk => (hoff.loc k' hk).trans (hoff₁.loc k' hk),
      fun k' hk => (hoff.rep k' hk).trans (hoff₁.rep k' hk),
      hoff.pending.trans hoff₁.pending, fun hn => hoff.now (hoff₁.now hn)⟩, ?_, hrep'.trans hrep⟩
    rw [hloc, hbytes]
  -- What was there is overwritten, whatever the load of it said.
  have hstore : ∀ (next : CertSig.Ans (.localStore k g.bytes) → CertProg Bool) (w₁ : CertWorld),
      next (.ok ()) = (setMtime k g.modified >>= fun _ => pure true) →
      (next (.error .unavailable) = throw .unavailable) → SameFiles w w₁ →
      Every (fun _ w' => Off k w w' ∧ w'.loc.lookup k = some g ∧ w'.rep.lookup k = some g)
        (Prog.perform (S := CertSig) (.localStore k g.bytes) >>= next) w₁ := by
    intro next w₁ hnext herr hsame
    have hfail : next (certFail (.localStore k g.bytes)) = throw .unavailable := herr
    refine every_call (fun t => ?_) fun t => by
      rw [hfail]
      exact ⟨trivial, trivial⟩
    show Every _ (next (.ok ())) _
    rw [hnext]
    refine hset true _ ⟨g.bytes, w₁.now + t.dt⟩ (lookup_insert _) rfl ?_ ?_
    · show w₁.rep.lookup k = some g
      rw [hsame.rep, hg]
    · refine ⟨fun k' hk => ?_, fun k' _ => ?_, hsame.pending, fun hn => ?_⟩
      · refine (lookup_insert_ne hk).trans ?_
        show w₁.loc.lookup k' = _
        rw [hsame.loc]
      · show w₁.rep.lookup k' = _
        rw [hsame.rep]
      · exact (sameFiles_tick (w := w₁) t).now (hsame.now hn)
  refine every_call (fun t => ?_) fun t => ⟨trivial, trivial⟩
  have hload : certDo (.replicaLoad k) (w.tick t) = (.ok g.bytes, w.tick t) := by
    have hg' : (w.tick t).rep.lookup k = some g := hg
    simp only [certDo, hg']
  rw [hload]
  have hsame := sameFiles_tick (w := w) t
  refine every_call (fun t' => ?_) fun t' => ?_
  · have hsame' := hsame.trans (sameFiles_tick t')
    split
    · next hcur =>
        cases hlk : w.loc.lookup k with
        | none =>
          have hlk' : ((w.tick t).tick t').loc.lookup k = none := hlk
          simp only [certDo, hlk'] at hcur
          cases hcur
        | some f =>
          have hlk' : ((w.tick t).tick t').loc.lookup k = some f := hlk
          simp only [certDo, hlk'] at hcur
          exact hset false _ f hlk (some.inj hcur) hg
            ⟨fun _ _ => rfl, fun _ _ => rfl, rfl, hsame'.now⟩
    · exact hstore _ _ rfl rfl hsame'
  · exact ⟨hstore _ _ rfl rfl (hsame.trans (sameFiles_tick t')),
      hstore _ _ rfl rfl (hsame.trans (sameFiles_tick t'))⟩

/-! ## The loop -/

/-- What the times of a key say. -/
def actionOf (w : CertWorld) (k : String) : SyncAction :=
  if syncable k then
    syncAction ((w.loc.lookup k).map (·.modified)) ((w.rep.lookup k).map (·.modified))
  else .leave

theorem actionOf_push (h : actionOf w k = .push) : ∃ f, w.loc.lookup k = some f := by
  unfold actionOf at h
  split at h
  · exact isSome_iff_exists.mp (by simpa using syncAction_push h)
  · cases h

theorem syncAction_pull_eq {a b : Option Nat} {m : Nat} (h : syncAction a b = .pull m) :
    b = some m := by
  unfold syncAction at h
  split at h
  · cases h
  · cases h
    rfl
  · split at h
    · cases h
    · split at h
      · cases h
        rfl
      · cases h
  · cases h

theorem actionOf_pull {m : Nat} (h : actionOf w k = .pull m) :
    ∃ g, w.rep.lookup k = some g ∧ g.modified = m := by
  unfold actionOf at h
  split at h
  · exact map_eq_some_iff.mp (syncAction_pull_eq h)
  · cases h

/-- What becomes of a key. -/
def CarriedOut (w₀ w : CertWorld) (k : String) : Prop :=
  match actionOf w₀ k with
  | .push => ∃ f t, w₀.loc.lookup k = some f ∧ w.loc.lookup k = some ⟨f.bytes, t⟩ ∧
      w.rep.lookup k = some ⟨f.bytes, t⟩
  | .pull _ => ∃ g, w₀.rep.lookup k = some g ∧ w.loc.lookup k = some g ∧ w.rep.lookup k = some g
  | .leave => w.loc.lookup k = w₀.loc.lookup k ∧ w.rep.lookup k = w₀.rep.lookup k

theorem CarriedOut.congr {w₀ : CertWorld} (h : CarriedOut w₀ w k)
    (hl : w'.loc.lookup k = w.loc.lookup k) (hr : w'.rep.lookup k = w.rep.lookup k) :
    CarriedOut w₀ w' k := by
  unfold CarriedOut at *
  rw [hl, hr]
  exact h

/-- How far the loop has come when `rest` is still to be looked at. -/
structure Passing (w₀ : CertWorld) (rest : List String) (w : CertWorld) : Prop where
  ahead : ∀ k ∈ rest, w.loc.lookup k = w₀.loc.lookup k ∧ w.rep.lookup k = w₀.rep.lookup k
  behind : ∀ k, k ∉ rest → CarriedOut w₀ w k
  pending : w.pendingDeletes = []
  now : w.replicaNow ≠ 0

theorem Passing.next {w₀ : CertWorld} {rest : List String} (h : Passing w₀ (k :: rest) w)
    (hk : k ∉ rest) (hoff : Off k w w') (hc : CarriedOut w₀ w' k) : Passing w₀ rest w' where
  ahead k' hk' := by
    have hne : k' ≠ k := fun he => hk (he ▸ hk')
    rw [hoff.loc k' hne, hoff.rep k' hne]
    exact h.ahead k' (mem_cons_of_mem _ hk')
  behind k' hk' := by
    by_cases hne : k' = k
    · exact hne ▸ hc
    · exact (h.behind k' (by simp [hne, hk'])).congr (hoff.loc k' hne) (hoff.rep k' hne)
  pending := hoff.pending.trans h.pending
  now := hoff.now h.now

theorem every_reconcile {w₀ : CertWorld} {locals remotes : List (String × Nat)}
    (hacts : ∀ k, syncAction (locals.lookup k) (remotes.lookup k) = actionOf w₀ k)
    (hrep : ∀ k g, w₀.rep.lookup k = some g → g.modified ≠ 0) {all : List String}
    (hnodup : all.Nodup) (st : SyncStats) (h : Passing w₀ all w) :
    Every (fun _ w' => Passing w₀ [] w') (reconcile locals remotes [] all st) w := by
  induction all generalizing st w with
  | nil => exact h
  | cons k all ih =>
    obtain ⟨hk, hnodup⟩ := nodup_cons.mp hnodup
    obtain ⟨hl, hr⟩ := h.ahead k mem_cons_self
    unfold reconcile
    rw [hacts]
    cases hact : actionOf w₀ k with
    | push =>
      obtain ⟨f, hf⟩ := actionOf_push hact
      refine Every.bind (every_push (hl.trans hf) h.now) ?_
      rintro _ w' ⟨hoff, t, hloc, hrep'⟩
      refine ih hnodup _ (h.next hk hoff ?_)
      unfold CarriedOut
      rw [hact]
      exact ⟨f, t, hf, hloc, hrep'⟩
    | pull m =>
      obtain ⟨g, hg, rfl⟩ := actionOf_pull hact
      refine Every.bind (every_pull (hr.trans hg) (hrep k g hg)) ?_
      rintro _ w' ⟨hoff, hloc, hrep'⟩
      refine ih hnodup _ (h.next hk hoff ?_)
      unfold CarriedOut
      rw [hact]
      exact ⟨g, hg, hloc, hrep'⟩
    | leave =>
      refine ih hnodup _ (h.next hk ⟨fun _ _ => rfl, fun _ _ => rfl, rfl, id⟩ ?_)
      unfold CarriedOut
      rw [hact]
      exact ⟨hl, hr⟩

/-- Where there is nothing to do, nothing is done. -/
theorem reconcile_leave {locals remotes : List (String × Nat)} {skip all : List String}
    (h : ∀ k, syncAction (locals.lookup k) (remotes.lookup k) = .leave) (st : SyncStats) :
    reconcile locals remotes skip all st = .ret st := by
  induction all with
  | nil => rfl
  | cons k all ih =>
    unfold reconcile
    rw [h]
    exact ih

/-! ## The whole reconcile -/

theorem every_read {D : β → CertWorld → Prop} {f : CertWorld → α} {k : α → CertProg β}
    (h : Every D (k (f w)) w) : Every D (Prog.read f >>= k) w := h

theorem every_localTerminalKeys : Every (fun ks w' => ks = w.loc.keysWith (under "") ∧
    SameFiles w w') (localTerminalKeys "") w := by
  refine every_dropped rfl fun t => ?_
  refine (every_terminalKeys (w := w.tick t) (w.loc.keysWith (under "")) fun k hk => ?_).mono ?_
  · exact fun hn => (Tier.mem_keysWith.mp hk).1 (lookup_none_iff.mp hn)
  · rintro ks w' ⟨rfl, hw⟩
    exact ⟨rfl, (sameFiles_tick t).trans hw⟩

/-- The times of the certificate files of a tier. -/
def tierTimes (t : Tier) : List (String × Nat) :=
  timesOf (fun k => (t.lookup k).map (·.modified)) ((t.keysWith (under "")).filter syncable)

theorem lookup_tierTimes (t : Tier) (k : String) : (tierTimes t).lookup k =
    if syncable k then (t.lookup k).map (·.modified) else none := by
  unfold tierTimes
  rw [lookup_timesOf]
  cases ht : t.lookup k with
  | none => simp
  | some f =>
    have hmem : k ∈ t.keysWith (under "") :=
      Tier.mem_keysWith.mpr ⟨by simp [Tier.bytes, ht], rfl⟩
    simp [mem_filter, hmem]

theorem timesOf_keys (time : String → Option Nat) (keys : List String) :
    ((timesOf time keys).map (·.1)).Sublist keys := by
  unfold timesOf
  induction keys with
  | nil => exact .slnil
  | cons k ks ih =>
    cases ht : time k with
    | none =>
      simp only [filterMap_cons, ht, map_none]
      exact ih.cons _
    | some t =>
      simp only [filterMap_cons, ht, map_some, map_cons]
      exact ih.cons_cons _

theorem tierTimes_nodup (t : Tier) : ((tierTimes t).map (·.1)).Nodup :=
  (timesOf_keys _ _).nodup ((t.keys_nodup.filter _).filter _)

theorem allKeys_nodup {locals remotes : List (String × Nat)} (hl : (locals.map (·.1)).Nodup)
    (hr : (remotes.map (·.1)).Nodup) : (allKeys locals remotes).Nodup := by
  refine (perm_insertionSort _ _).nodup_iff.mpr (hl.append (hr.filter _) ?_)
  intro k hk hk'
  have hsome := lookup_isSome_iff.mpr hk
  have hnone := (mem_filter.mp hk').2
  rw [isNone_iff_eq_none] at hnone
  rw [hnone] at hsome
  cases hsome

theorem Replayed.same {ks : List String} {w₁ w₂ w₃ : CertWorld} (h : SameFiles w w₁)
    (hr : Replayed ks w₁ w₂) (h' : SameFiles w₂ w₃) : Replayed ks w w₃ where
  loc := h'.loc.trans (hr.loc.trans h.loc)
  rep k := by rw [h'.rep, hr.rep, h.rep]
  pending k := by rw [h'.pending, hr.pending, h.pending]
  now := h'.now ∘ hr.now ∘ h.now

/-- The reconcile up to its loop. -/
theorem every_syncOnce {D : SyncStats → CertWorld → Prop}
    (h : ∀ w₀ locals remotes, Replayed w.pendingDeletes w w₀ → w₀.pendingDeletes = [] →
      (∀ k, syncAction (locals.lookup k) (remotes.lookup k) = actionOf w₀ k) →
      (allKeys locals remotes).Nodup →
      Every (fun st w' => D st { w' with dirty := false })
        (reconcile locals remotes [] (allKeys locals remotes) ⟨0, 0, w.pendingDeletes.length⟩)
        w₀) : Every D syncOnce w := by
  refine Every.bind every_probe ?_
  intro _ w₁ h₁
  refine every_read (Every.bind (every_replay _) ?_)
  intro _ w₂ h₂
  refine Every.bind every_localTerminalKeys ?_
  rintro keys w₃ ⟨rfl, h₃⟩
  refine Every.bind (every_localTimes _ fun k hk hn => ?_) ?_
  · rw [h₃.loc] at hn
    exact (Tier.mem_keysWith.mp (mem_filter.mp hk).1).1 (lookup_none_iff.mp hn)
  rintro locals w₄ ⟨hlocals, h₄⟩
  refine every_call (fun t => ?_) fun t => ⟨trivial, trivial⟩
  have h₅ := sameFiles_tick (w := w₄) t
  refine Every.bind (every_remoteTimes (w := w₄.tick t)
    ((w₄.rep.keysWith (under "")).filter syncable) fun k hk hn => ?_) ?_
  · exact (Tier.mem_keysWith.mp (mem_filter.mp hk).1).1 (by
      show (w₄.rep.lookup k).map _ = none
      rw [show w₄.rep.lookup k = none from hn]
      rfl)
  rintro remotes w₆ ⟨hremotes, h₆⟩
  refine every_read ?_
  have hsame : SameFiles w₂ w₆ := h₃.trans (h₄.trans (h₅.trans h₆))
  have hreplayed : Replayed w.pendingDeletes w w₆ := by
    rw [← h₁.pending]
    exact h₂.same h₁ hsame
  have hpending : w₆.pendingDeletes = [] := by
    refine eq_nil_iff_forall_not_mem.mpr fun k hk => ?_
    obtain ⟨hin, hout⟩ := (hreplayed.pending k).mp hk
    exact hout hin
  have hl : locals = tierTimes w₆.loc := by
    rw [hlocals, h₃.loc, hsame.loc]
    rfl
  have hr : remotes = tierTimes w₆.rep := by
    rw [hremotes, h₆.rep]
    rfl
  rw [hpending, h₁.pending]
  refine Every.bind (h w₆ locals remotes hreplayed hpending (fun k => ?_) ?_) fun st w' hD => hD
  · rw [hl, hr, lookup_tierTimes, lookup_tierTimes]
    unfold actionOf
    split
    · rfl
    · rfl
  · rw [hl, hr]
    exact allKeys_nodup (tierTimes_nodup _) (tierTimes_nodup _)

/-- Every key goes by its times. -/
theorem syncOnce_carriedOut (hrep : ∀ k g, w.rep.lookup k = some g → g.modified ≠ 0)
    (hnow : w.replicaNow ≠ 0) :
    Every (fun _ w' => ∃ w₀, Replayed w.pendingDeletes w w₀ ∧ w'.pendingDeletes = [] ∧
      ∀ k, CarriedOut w₀ w' k) syncOnce w := by
  refine every_syncOnce fun w₀ locals remotes hreplayed hpending hacts hnodup => ?_
  have hinit : Passing w₀ (allKeys locals remotes) w₀ := by
    refine ⟨fun _ _ => ⟨rfl, rfl⟩, fun k hk => ?_, hpending, hreplayed.now hnow⟩
    rw [mem_allKeys, not_or, not_isSome_iff_eq_none, not_isSome_iff_eq_none] at hk
    have hleave := hacts k
    rw [hk.1, hk.2] at hleave
    unfold CarriedOut
    rw [← hleave]
    exact ⟨rfl, rfl⟩
  refine (every_reconcile hacts (fun k g hg => hrep k g ?_) hnodup _ hinit).mono ?_
  · rw [hreplayed.rep] at hg
    split at hg
    · cases hg
    · exact hg
  · exact fun _ w' hw => ⟨w₀, hreplayed, hw.pending, fun k => hw.behind k (by simp)⟩

/-- With nothing to do, nothing is counted. -/
theorem syncOnce_settled (hpending : w.pendingDeletes = []) (hleave : ∀ k, actionOf w k = .leave) :
    Every (fun st _ => st = ⟨0, 0, 0⟩) syncOnce w := by
  refine every_syncOnce fun w₀ locals remotes hreplayed hpending' hacts hnodup => ?_
  have hrep : ∀ k, w₀.rep.lookup k = w.rep.lookup k := fun k => by
    rw [hreplayed.rep, hpending]
    simp
  rw [reconcile_leave fun k => ?_, hpending]
  · exact rfl
  · rw [hacts, ← hleave k]
    unfold actionOf
    rw [hreplayed.loc, hrep]

end

/-! ## A clean sync reconciles -/

/-- What a reconcile is for. -/
structure Reconciled (w w' : CertWorld) : Prop where
  /-- Both tiers hold the same. -/
  same : ∀ k, syncable k = true → w'.loc.bytes k = w'.rep.bytes k
  /-- Of two copies the newer one has won. -/
  newer : ∀ k, syncable k = true → ∀ f g, w.loc.lookup k = some f → w.rep.lookup k = some g →
    f.bytes ≠ g.bytes →
      (g.modified < f.modified → w'.loc.bytes k = some f.bytes) ∧
      (f.modified < g.modified → w'.loc.bytes k = some g.bytes)
  /-- What was on one side is on both. -/
  kept : ∀ k, syncable k = true → k ∉ w.pendingDeletes →
    (w.loc.bytes k).isSome ≠ (w.rep.bytes k).isSome →
      w'.loc.bytes k ≠ none ∧ w'.rep.bytes k ≠ none
  /-- The next one has nothing to do. -/
  settled : ∀ ts st w'', runAlone syncOnce ts w' = some (.ok st, w'') → st = ⟨0, 0, 0⟩

/-- Copies that differ are further apart than the tolerance; a remembered delete has to
be of the older copy. -/
def Apart (w : CertWorld) : Prop :=
  ∀ k, syncable k = true → ∀ f g, w.loc.lookup k = some f → w.rep.lookup k = some g →
    f.bytes ≠ g.bytes →
      (k ∈ w.pendingDeletes ∧ g.modified ≤ f.modified) ∨
      (k ∉ w.pendingDeletes ∧ (mtimeTolerance < f.modified - g.modified ∨
        mtimeTolerance < g.modified - f.modified))

theorem actionOf_leave {w : CertWorld} {k : String} (hk : syncable k = true)
    (h : actionOf w k = .leave) : (w.loc.lookup k = none ∧ w.rep.lookup k = none) ∨
      ∃ f g, w.loc.lookup k = some f ∧ w.rep.lookup k = some g ∧
        ¬mtimeTolerance < f.modified - g.modified ∧ ¬mtimeTolerance < g.modified - f.modified := by
  unfold actionOf at h
  rw [if_pos hk] at h
  cases hl : w.loc.lookup k with
  | none =>
    cases hr : w.rep.lookup k with
    | none => exact .inl ⟨rfl, rfl⟩
    | some g => simp [hl, hr, syncAction] at h
  | some f =>
    cases hr : w.rep.lookup k with
    | none => simp [hl, hr, syncAction] at h
    | some g =>
      simp only [hl, hr, map_some, syncAction] at h
      split at h
      · cases h
      · next h₁ =>
          split at h
          · cases h
          · next h₂ => exact .inr ⟨f, g, rfl, rfl, h₁, h₂⟩

section

variable {w w₀ w' : CertWorld}

/-- What is left in place by a key's times. -/
theorem CarriedOut.bytes {k : String} (hk : syncable k = true) (h : CarriedOut w₀ w' k) :
    w'.loc.bytes k = w'.rep.bytes k ∨
      ∃ f g, w₀.loc.lookup k = some f ∧ w₀.rep.lookup k = some g ∧
        ¬mtimeTolerance < f.modified - g.modified ∧ ¬mtimeTolerance < g.modified - f.modified ∧
        w'.loc.bytes k = some f.bytes ∧ w'.rep.bytes k = some g.bytes := by
  unfold CarriedOut at h
  unfold Tier.bytes
  cases hact : actionOf w₀ k with
  | push =>
    rw [hact] at h
    obtain ⟨f, t, -, hl, hr⟩ := h
    exact .inl (by rw [hl, hr])
  | pull m =>
    rw [hact] at h
    obtain ⟨g, -, hl, hr⟩ := h
    exact .inl (by rw [hl, hr])
  | leave =>
    rw [hact] at h
    obtain ⟨hl, hr⟩ := h
    rcases actionOf_leave hk hact with ⟨hf, hg⟩ | ⟨f, g, hf, hg, h₁, h₂⟩
    · exact .inl (by rw [hl, hr, hf, hg])
    · exact .inr ⟨f, g, hf, hg, h₁, h₂, by rw [hl, hf]; rfl, by rw [hr, hg]; rfl⟩

/-- Which copy wins. -/
theorem CarriedOut.winner {k : String} (hk : syncable k = true) (h : CarriedOut w₀ w' k)
    {f : CertFile} (hf : w₀.loc.lookup k = some f) :
    (w₀.rep.lookup k = none → w'.loc.bytes k = some f.bytes) ∧
      ∀ g, w₀.rep.lookup k = some g →
        (mtimeTolerance < f.modified - g.modified → w'.loc.bytes k = some f.bytes) ∧
        (mtimeTolerance < g.modified - f.modified → w'.loc.bytes k = some g.bytes) := by
  unfold CarriedOut actionOf at h
  rw [if_pos hk, hf] at h
  unfold Tier.bytes
  constructor
  · intro hg
    rw [hg] at h
    obtain ⟨f', t, hf', hl, -⟩ := h
    rw [hl, some.inj hf']
    rfl
  · intro g hg
    rw [hg] at h
    simp only [map_some, syncAction] at h
    constructor
    · intro hgt
      rw [if_pos hgt] at h
      obtain ⟨f', t, hf', hl, -⟩ := h
      rw [hl, some.inj hf']
      rfl
    · intro hgt
      rw [if_neg (by omega), if_pos hgt] at h
      obtain ⟨g', hg', hl, -⟩ := h
      rw [hl, some.inj hg']
      rfl

/-- Afterwards the times of a key say nothing. -/
theorem CarriedOut.settled {k : String} (h : CarriedOut w₀ w' k) : actionOf w' k = .leave := by
  unfold CarriedOut at h
  cases hact : actionOf w₀ k with
  | push =>
    rw [hact] at h
    obtain ⟨f, t, -, hl, hr⟩ := h
    unfold actionOf
    rw [hl, hr]
    simp [syncAction, mtimeTolerance]
  | pull m =>
    rw [hact] at h
    obtain ⟨g, -, hl, hr⟩ := h
    unfold actionOf
    rw [hl, hr]
    simp [syncAction, mtimeTolerance]
  | leave =>
    rw [hact] at h
    obtain ⟨hl, hr⟩ := h
    rw [← hact]
    unfold actionOf
    rw [hl, hr]

/-- A key that was on one side is on both. -/
theorem CarriedOut.filled {k : String} (hk : syncable k = true) (h : CarriedOut w₀ w' k)
    (hone : (w₀.loc.lookup k).isSome ≠ (w₀.rep.lookup k).isSome) :
    w'.loc.bytes k ≠ none ∧ w'.rep.bytes k ≠ none := by
  unfold CarriedOut at h
  unfold Tier.bytes
  cases hact : actionOf w₀ k with
  | push =>
    rw [hact] at h
    obtain ⟨f, t, -, hl, hr⟩ := h
    simp [hl, hr]
  | pull m =>
    rw [hact] at h
    obtain ⟨g, -, hl, hr⟩ := h
    simp [hl, hr]
  | leave =>
    rcases actionOf_leave hk hact with ⟨hf, hg⟩ | ⟨f, g, hf, hg, -⟩
    · exact absurd (by rw [hf, hg]) hone
    · exact absurd (by rw [hf, hg]; rfl) hone

end

/-- The replica has other bytes of some time. -/
def renewed (modified : Nat) : CertWorld :=
  storeOver oneFile ((∅ : Tier).insert crt ⟨[2], modified⟩)

/-- All calls are carried out, in no time. -/
def calm : List Turn := List.replicate 20 ⟨0, 0, .ok⟩

theorem renewed_rep {modified : Nat} {k : String} {g : CertFile}
    (h : (renewed modified).rep.lookup k = some g) : k = crt ∧ g = ⟨[2], modified⟩ := by
  have hrep : ((∅ : Tier).insert crt ⟨[2], modified⟩).lookup k = some g := h
  by_cases hk : k = crt
  · subst hk
    exact ⟨rfl, (some.inj hrep).symm⟩
  · rw [lookup_insert_ne hk] at hrep
    cases hrep

theorem apart_renewed : Apart (renewed 9000) := by
  intro k _ f g hf hg _
  obtain ⟨rfl, rfl⟩ := renewed_rep hg
  have hloc : ((∅ : Tier).insert crt ⟨[1], 5⟩).lookup crt = some f := hf
  obtain rfl := some.inj hloc
  exact .inr ⟨not_mem_nil, .inr (by decide)⟩

end Swarmy.Cert
