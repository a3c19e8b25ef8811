import Swarmy.Coop.Kill
import Swarmy.Cert.StaysDeleted

/-!
# The certificate tiers converge

With a replica that always answers and callers and copies that keep out of each
other's way, one reconcile that runs alone leaves both tiers with what the last
write operation on each key left (`converges_of_careful`).  Overlap breaks this: a
push that has read the old bytes lands after a `Store`, and the times that the push
aligns hide it from every later reconcile (`converges_stalePush`).
-/

namespace Swarmy.Cert

open Coop List Option

/-! ## A reconcile alone -/

section

variable {w : CertWorld}

/-- A run alone whose calls are all carried out and answered. -/
abbrev Alone {α : Type} (D : Except StorageError α → CertWorld → Prop) (p : CertProg α)
    (w : CertWorld) : Prop :=
  Ends (certExec .ok) (fun _ => True) D p w

theorem alone_call {α : Type} {c : CertCall} {k : CertSig.Ans c → CertProg α}
    {D : Except StorageError α → CertWorld → Prop} (h : Alone D (k (certDo c w).1) (certDo c w).2) :
    Alone D (Prog.perform (S := CertSig) c >>= k) w :=
  ⟨trivial, _, _, rfl, trivial, h⟩

/-- The bytes of both tiers and the remembered deletes are the same. -/
structure SameBytes (w w' : CertWorld) : Prop where
  lb : w'.lb = w.lb
  rb : w'.rb = w.rb
  pending : w'.pendingDeletes = w.pendingDeletes

theorem SameBytes.refl (w : CertWorld) : SameBytes w w := ⟨rfl, rfl, rfl⟩

theorem sameBytes_chtimes (k : String) (t : Nat) : SameBytes w (certDo (.chtimes k t) w).2 :=
  ⟨funext (certDo_lb _ w), funext (certDo_rb _ w), (certDo_same _ w).pending⟩

theorem alone_setMtime (k : String) (t : Nat) :
    Alone (fun x w' => x = .ok () ∧ SameBytes w w') (setMtime k t) w := by
  unfold setMtime
  split
  · exact ⟨rfl, .refl w⟩
  · exact alone_call ⟨rfl, sameBytes_chtimes k t⟩

theorem alone_alignMtime (k : String) :
    Alone (fun x w' => x = .ok () ∧ SameBytes w w') (alignMtime k) w := by
  refine alone_call ?_
  split
  · exact ⟨rfl, .refl w⟩
  · split
    · exact ⟨rfl, .refl w⟩
    · exact alone_call ⟨rfl, sameBytes_chtimes k _⟩

/-! ### Listings -/

theorem alone_terminalKeys (keys : List String) (hk : ∀ k ∈ keys, w.lb k ≠ none) :
    Alone (fun x w' => x = .ok keys ∧ w' = w) (terminalKeys keys) w := by
  induction keys with
  | nil => exact ⟨rfl, rfl⟩
  | cons k keys ih =>
    refine alone_call (Ends.bind (ih fun k' hk' => hk k' (mem_cons_of_mem _ hk')) ?_ ?_)
    · rintro ks w ⟨hks, rfl⟩
      refine ⟨?_, rfl⟩
      have hlk : w.loc.lookup k ≠ none := fun h => hk k mem_cons_self (lookup_none_iff.mp h)
      obtain ⟨f, hf⟩ := ne_none_iff_exists'.mp hlk
      simp [certDo, hf, Except.toOption, Except.ok.inj hks]
    · rintro _ _ ⟨he, _⟩
      cases he

/-- Every local file is listed with its time. -/
theorem alone_localTimes (keys : List String) (hk : ∀ k ∈ keys, w.lb k ≠ none) :
    Alone (fun x w' => w' = w ∧ ∃ ts, x = .ok ts ∧ ts.map (·.1) = keys) (localTimes keys) w := by
  induction keys with
  | nil => exact ⟨rfl, [], rfl, rfl⟩
  | cons k keys ih =>
    refine alone_call ?_
    have hlk : w.loc.lookup k ≠ none := fun h => hk k mem_cons_self (lookup_none_iff.mp h)
    obtain ⟨f, hf⟩ := ne_none_iff_exists'.mp hlk
    simp only [certDo, hf]
    refine Ends.bind (ih fun k' hk' => hk k' (mem_cons_of_mem _ hk')) ?_ ?_
    · rintro ts w ⟨rfl, ts', hts, hmap⟩
      obtain rfl := Except.ok.inj hts
      exact ⟨rfl, _, rfl, by simp [hmap]⟩
    · rintro _ _ ⟨_, _, he, _⟩
      cases he

/-- Every file of the replica is listed with its time. -/
theorem alone_remoteTimes (keys : List String) (hk : ∀ k ∈ keys, w.rb k ≠ none) :
    Alone (fun x w' => w' = w ∧ ∃ ts, x = .ok ts ∧ ts.map (·.1) = keys) (remoteTimes keys) w := by
  induction keys with
  | nil => exact ⟨rfl, [], rfl, rfl⟩
  | cons k keys ih =>
    refine alone_call ?_
    have hlk : w.rep.lookup k ≠ none := fun h =>
      hk k mem_cons_self (map_eq_none_iff.mpr h)
    obtain ⟨f, hf⟩ := ne_none_iff_exists'.mp hlk
    simp only [certDo, hf]
    refine Ends.bind (ih fun k' hk' => hk k' (mem_cons_of_mem _ hk')) ?_ ?_
    · rintro ts w ⟨rfl, ts', hts, hmap⟩
      obtain rfl := Except.ok.inj hts
      exact ⟨rfl, _, rfl, by simp [hmap]⟩
    · rintro _ _ ⟨_, _, he, _⟩
      cases he

variable {k : String} {w₀ : CertWorld} {rest : List String}

theorem lookup_isSome_iff {ts : List (String × Nat)} :
    (ts.lookup k).isSome = true ↔ k ∈ ts.map (·.1) := by
  simp

/-! ### The loop -/

/-- What both tiers hold under a key in the end: what either of them held. -/
def merged (w : CertWorld) (k : String) : Option (List UInt8) := (w.lb k).or (w.rb k)

/-- Where the two tiers disagree, one of them has nothing. -/
def Agree (w : CertWorld) : Prop := ∀ k, w.lb k = w.rb k ∨ w.lb k = none ∨ w.rb k = none

theorem merged_of_lb (h : w.lb k ≠ none) : merged w k = w.lb k := by
  obtain ⟨v, hv⟩ := ne_none_iff_exists'.mp h
  simp [merged, hv]

theorem merged_of_rb (ha : Agree w) (h : w.rb k ≠ none) : merged w k = w.rb k := by
  rcases ha k with he | hn | hn
  · simp [merged, he]
  · simp [merged, hn]
  · exact absurd hn h

/-- How far the reconcile has come when `rest` is still to be looked at. -/
structure Merging (w₀ : CertWorld) (rest : List String) (w : CertWorld) : Prop where
  lb : ∀ k, w.lb k = w₀.lb k ∨ w.lb k = merged w₀ k
  rb : ∀ k, w.rb k = w₀.rb k ∨ w.rb k = merged w₀ k
  done : ∀ k, k ∉ rest → w.lb k = merged w₀ k ∧ w.rb k = merged w₀ k
  pending : w.pendingDeletes = []

theorem Merging.same {w w' : CertWorld} (h : Merging w₀ rest w)
    (hs : SameBytes w w') : Merging w₀ rest w' where
  lb k := by rw [hs.lb]; exact h.lb k
  rb k := by rw [hs.rb]; exact h.rb k
  done k hk := by rw [hs.lb, hs.rb]; exact h.done k hk
  pending := hs.pending.trans h.pending

/-- The key at the head is done. -/
theorem Merging.next {w : CertWorld} (h : Merging w₀ (k :: rest) w) (hl : w.lb k = merged w₀ k)
    (hr : w.rb k = merged w₀ k) : Merging w₀ rest w where
  __ := h
  done k' hk' := by
    by_cases hne : k' = k
    · subst hne
      exact ⟨hl, hr⟩
    · exact h.done k' (by simp [hne, hk'])

/-- Writing the merged bytes somewhere is progress. -/
theorem Merging.write {w w' : CertWorld} (h : Merging w₀ rest w)
    (hl : ∀ k, w'.lb k = w.lb k ∨ w'.lb k = merged w₀ k)
    (hr : ∀ k, w'.rb k = w.rb k ∨ w'.rb k = merged w₀ k)
    (hp : w'.pendingDeletes = w.pendingDeletes) : Merging w₀ rest w' where
  lb k := (hl k).elim (fun he => he ▸ h.lb k) .inr
  rb k := (hr k).elim (fun he => he ▸ h.rb k) .inr
  done k hk := ⟨(hl k).elim (fun he => he.trans (h.done k hk).1) id,
    (hr k).elim (fun he => he.trans (h.done k hk).2) id⟩
  pending := hp.trans h.pending

theorem localLoad_eq {v : List UInt8} (h : w.lb k = some v) :
    certDo (.localLoad k) w = (.ok v, w) := by
  obtain ⟨f, hf, rfl⟩ := map_eq_some_iff.mp h
  simp only [certDo, hf]

theorem replicaLoad_eq {v : List UInt8} (h : w.rb k = some v) :
    certDo (.replicaLoad k) w = (.ok v, w) := by
  obtain ⟨f, hf, rfl⟩ := map_eq_some_iff.mp h
  simp only [certDo, hf]

theorem alone_push (h : Merging w₀ (k :: rest) w) (hk : w₀.lb k ≠ none) :
    Alone (fun x w' => x = .ok () ∧ Merging w₀ rest w') (push k) w := by
  have hb := merged_of_lb hk
  have hlk : w.lb k = merged w₀ k := (h.lb k).elim (fun h => h.trans hb.symm) id
  obtain ⟨v, hv⟩ := ne_none_iff_exists'.mp (hb ▸ hk)
  have hw : Merging w₀ rest (certDo (.replicaStore k v) w).2 := by
    refine Merging.next (h.write (fun _ => .inl rfl) (fun k' => ?_) rfl) hlk ?_
    · rw [certDo_rb, repEffect]
      by_cases hne : k' = k
      · exact .inr (by rw [if_pos hne, hne, hv])
      · exact .inl (if_neg hne)
    · rw [certDo_rb, repEffect, if_pos rfl, hv]
  refine alone_call ?_
  rw [localLoad_eq (hlk.trans hv)]
  exact alone_call (Ends.mono (fun _ w' hw' => ⟨hw'.1, hw.same hw'.2⟩) (alone_alignMtime k))

theorem alone_pull (ha : Agree w₀)
    (h : Merging w₀ (k :: rest) w) (hk : w₀.rb k ≠ none) (modified : Nat) :
    Alone (fun x w' => (∃ b, x = .ok b) ∧ Merging w₀ rest w') (pull k modified) w := by
  have hb := merged_of_rb ha hk
  have hrk : w.rb k = merged w₀ k := (h.rb k).elim (fun h => h.trans hb.symm) id
  obtain ⟨v, hv⟩ := ne_none_iff_exists'.mp (hb ▸ hk)
  have hset : ∀ (b : Bool) w', Merging w₀ rest w' →
      Alone (fun x w' => (∃ b, x = .ok b) ∧ Merging w₀ rest w')
        (setMtime k modified >>= fun _ => pure b) w' := fun b w' hw' =>
    Ends.bind (alone_setMtime k modified) (fun _ _ hx => ⟨⟨b, rfl⟩, hw'.same hx.2⟩)
      fun _ _ hx => by cases hx.1
  have hw : Merging w₀ rest (certDo (.localStore k v) w).2 := by
    refine Merging.next (h.write (fun k' => ?_) (fun _ => .inl rfl) rfl) ?_ hrk
    · rw [certDo_lb, locEffect]
      by_cases hne : k' = k
      · exact .inr (by rw [if_pos hne, hne, hv])
      · exact .inl (if_neg hne)
    · rw [certDo_lb, locEffect, if_pos rfl, hv]
  refine alone_call ?_
  rw [replicaLoad_eq (hrk.trans hv)]
  refine alone_call ?_
  split
  · rename_i hcur
    refine hset false w (h.next ?_ hrk)
    rw [hv]
    cases hlk : w.lb k with
    | none =>
      rw [← lookup_none_iff] at hlk
      simp [certDo, hlk, Except.toOption] at hcur
    | some v' =>
      rw [localLoad_eq hlk] at hcur
      exact hcur
  · exact alone_call (hset true _ hw)

theorem syncAction_push {a b : Option Nat} (h : syncAction a b = .push) : a.isSome = true := by
  cases a with
  | none => cases b <;> cases h
  | some lm => rfl

theorem syncAction_pull {a b : Option Nat} {m : Nat} (h : syncAction a b = .pull m) :
    b.isSome = true := by
  cases b with
  | none => cases a <;> cases h
  | some rm => rfl

theorem syncAction_leave {a b : Option Nat} (h : syncAction a b = .leave) :
    a.isSome = true ↔ b.isSome = true := by
  cases a with
  | none =>
    cases b with
    | none => rfl
    | some rm => cases h
  | some lm =>
    cases b with
    | none => cases h
    | some rm => exact Iff.rfl

theorem alone_reconcile (ha : Agree w₀) {locals remotes : List (String × Nat)}
    (hl : ∀ k, (locals.lookup k).isSome = true ↔ w₀.lb k ≠ none)
    (hr : ∀ k, (remotes.lookup k).isSome = true ↔ w₀.rb k ≠ none) (all : List String)
    (st : SyncStats) (h : Merging w₀ all w) :
    Alone (fun x w' => (∃ st, x = .ok st) ∧ Merging w₀ [] w') (reconcile locals remotes [] all st)
      w := by
  induction all generalizing st w with
  | nil => exact ⟨⟨st, rfl⟩, h⟩
  | cons k all ih =>
    unfold reconcile
    split
    · rename_i hact
      refine Ends.bind (alone_push h ((hl k).mp (syncAction_push hact))) (fun _ _ hx => ih _ hx.2)
        fun _ _ hx => by cases hx.1
    · rename_i rm hact
      refine Ends.bind (alone_pull ha h ((hr k).mp (syncAction_pull hact)) rm)
        (fun _ _ hx => ih _ hx.2) fun _ _ hx => ?_
      obtain ⟨⟨_, he⟩, _⟩ := hx
      cases he
    · rename_i hact
      -- Both tiers have the key or neither has it, so they hold the same.
      have hiff : w₀.lb k ≠ none ↔ w₀.rb k ≠ none :=
        (hl k).symm.trans ((syncAction_leave hact).trans (hr k))
      have heq : w₀.lb k = w₀.rb k := by
        rcases ha k with he | hn | hn
        · exact he
        · exact hn.trans (not_not.mp fun hne => hiff.mpr (Ne.symm hne) hn)
        · exact (not_not.mp fun hne => hiff.mp hne hn).trans hn.symm
      have hm : merged w₀ k = w₀.lb k := by simp [merged, ← heq]
      exact ih _ (h.next ((h.lb k).elim (fun h => h.trans hm.symm) id)
        ((h.rb k).elim (fun h => h.trans (heq.symm.trans hm.symm)) id))

theorem alone_probe : Alone (fun x w' => x = .ok () ∧ SameBytes w w') probe w := by
  refine alone_call ?_
  simp only [certDo]
  cases w.rep.lookup probeKey with
  | none => exact ⟨rfl, rfl, rfl, rfl⟩
  | some f => exact ⟨rfl, rfl, rfl, rfl⟩

theorem alone_read {α β : Type} {f : CertWorld → α} {k : α → CertProg β}
    {D : Except StorageError β → CertWorld → Prop} (h : Alone D (k (f w)) w) :
    Alone D (Prog.read f >>= k) w := h

theorem mem_allKeys {locals remotes : List (String × Nat)} : k ∈ allKeys locals remotes ↔
      (locals.lookup k).isSome = true ∨ (remotes.lookup k).isSome = true := by
  rw [allKeys, mem_insertionSort, mem_append, mem_filter, lookup_isSome_iff,
    lookup_isSome_iff]
  cases h : locals.lookup k with
  | none => simp
  | some m =>
    have hk : k ∈ locals.map (·.1) := lookup_isSome_iff.mp (by rw [h]; rfl)
    simp only [hk, true_or]

theorem alone_localTerminalKeys : Alone (fun x w' => x = .ok (w.loc.keysWith (under "")) ∧ w' = w)
    (localTerminalKeys "") w :=
  alone_call (alone_terminalKeys _ fun _ hk => (Tier.mem_keysWith.mp hk).1)

/-- A reconcile that runs alone completes, and leaves in both tiers what either held. -/
theorem alone_syncOnce (ha : Agree w) (hp : w.pendingDeletes = [])
    (hs : ∀ k, w.lb k ≠ none ∨ w.rb k ≠ none → syncable k = true) :
    Alone (fun x w' => (∃ st, x = .ok st) ∧ ∀ k, w'.lb k = merged w k ∧ w'.rb k = merged w k)
      syncOnce w := by
  refine Ends.bind alone_probe (fun _ w₁ hw₁ => ?_) fun _ _ hx => by cases hx.1
  obtain ⟨_, hw₁⟩ := hw₁
  have hl : ∀ k, k ∈ (w₁.loc.keysWith (under "")).filter syncable ↔ w.lb k ≠ none := fun k => by
    rw [mem_filter, Tier.mem_keysWith, ← hw₁.lb]
    exact ⟨fun h => h.1.1, fun h => ⟨⟨h, rfl⟩, hs k (.inl (hw₁.lb ▸ h))⟩⟩
  have hr : ∀ k, k ∈ (w₁.rep.keysWith (under "")).filter syncable ↔ w.rb k ≠ none := fun k => by
    rw [mem_filter, Tier.mem_keysWith, ← hw₁.rb]
    exact ⟨fun h => h.1.1, fun h => ⟨⟨h, rfl⟩, hs k (.inr (hw₁.rb ▸ h))⟩⟩
  refine alone_read ?_
  rw [hw₁.pending, hp]
  refine Ends.bind (D := fun x w' => x = .ok () ∧ w' = w₁) ⟨rfl, rfl⟩ ?_ fun _ _ hx => by cases hx.1
  rintro _ w₁ ⟨_, rfl⟩
  refine Ends.bind alone_localTerminalKeys ?_ fun _ _ hx => by cases hx.1
  rintro keys w₁ ⟨hkeys, rfl⟩
  obtain rfl := Except.ok.inj hkeys
  refine Ends.bind (alone_localTimes _ fun k hk => by rw [hw₁.lb]; exact (hl k).mp hk) ?_ ?_
  swap
  · rintro _ _ ⟨_, _, he, _⟩
    cases he
  rintro locals w₁ ⟨rfl, _, hlocals, hmap⟩
  obtain rfl := Except.ok.inj hlocals
  refine alone_call (Ends.bind
    (alone_remoteTimes (w := w₁) _ fun k hk => by rw [hw₁.rb]; exact (hr k).mp hk) ?_ ?_)
  swap
  · rintro _ _ ⟨_, _, he, _⟩
    cases he
  rintro remotes w₁ ⟨rfl, _, hremotes, hmap'⟩
  obtain rfl := Except.ok.inj hremotes
  refine alone_read ?_
  rw [hw₁.pending, hp]
  have hlk : ∀ k, (locals.lookup k).isSome = true ↔ w.lb k ≠ none := fun k => by
    rw [lookup_isSome_iff, hmap]
    exact hl k
  have hrk : ∀ k, (remotes.lookup k).isSome = true ↔ w.rb k ≠ none := fun k => by
    rw [lookup_isSome_iff, hmap']
    exact hr k
  have hinit : Merging w (allKeys locals remotes) w₁ := by
    refine Merging.same ⟨fun _ => .inl rfl, fun _ => .inl rfl, fun k hk => ?_, hp⟩ hw₁
    rw [mem_allKeys, hlk, hrk, not_or, not_not, not_not] at hk
    simp [merged, hk.1, hk.2]
  refine Ends.bind (alone_reconcile ha hlk hrk _ _ hinit) ?_ ?_
  · rintro st w₂ ⟨_, h⟩
    exact ⟨⟨st, rfl⟩, fun k => h.done k (by simp)⟩
  · rintro _ _ ⟨⟨_, he⟩, _⟩
    cases he

end

/-! ## Convergence -/

/-- The replica always answers; callers use keys of `L`. -/
def answered (L : String → Prop) : Allow certSystem where
  start j _ := match j with
    | .load k | .store k _ => L k
    | .delete _ | .sync => True
  resume _ χ _ _ := χ = .ok
  env _ _ := True

/-- Both tiers hold what the last write operation on a key left, and the same under
every key. -/
def Converged (log : List CertEvent) (w : CertWorld) : Prop :=
  ∀ k, w.lb k = w.rb k ∧ ∀ x, final k log = some x → w.lb k = x

/-- In runs that `A` allows, over tiers that agree to begin with: when all calls have
returned and one more reconcile has run alone without error, the tiers have
converged. -/
def Converges (A : Allow certSystem) (L : String → Prop) : Prop :=
  ∀ (w : CertWorld) (c : certSystem.Config), w.Starts L → Agree w →
    System.Reach A.move ⟨w, []⟩ c → (∀ e ∈ c.pool, e.2.ended.isSome = true) →
    ∀ st w', outcome (certExec .ok) syncOnce c.world = some (.ok st, w') →
      Converged c.world.log w'

/-- The tiers converge in careful runs over certificate keys. -/
theorem converges_of_careful {L : String → Prop} (hT : Tree L) (hL : ∀ k, L k → syncable k = true) :
    Converges (careful True L) L := by
  intro w c hw ha hr hended st w' hout
  have hn : True → ∀ k, L k → nodeLocal k = false := fun _ k hk => nodeLocal_of_syncable (hL k hk)
  have hinv : Inv L True w := hw.inv fun _ => ha
  let O : Coop.Outline certSystem (careful True L) := certOutline hT hn
  have hfresh : ∀ n, O.fresh n w := hw.running
  have hholds := O.holds_of_reach hinv hfresh hr
  have hI : Inv L True c.world := hholds.inv
  obtain ⟨_, hp, hset⟩ := hI.healthy trivial
  have hfree : ∀ k, Free True c.world k := by
    intro k n op ho
    have hrun : c.world.running n = none := by
      rcases Nat.lt_or_ge n c.pool.length with hlt | hge
      · have hmem := List.getElem?_eq_getElem hlt
        obtain ⟨x, hx⟩ := isSome_iff_exists.mp (hended _ (getElem_mem hlt))
        exact (O.ended_of_reach (certOutline_post hT hn) hinv hfresh hr hmem hx).1
      · exact hholds.fresh n hge
    rw [hrun] at ho
    cases ho
  have hsettled := fun k => hset k (hfree k)
  have hagree : Agree c.world := fun k => by
    have hk := hsettled k
    unfold Settled at hk
    split at hk
    · exact hk
    · exact .inl (hk.1.trans hk.2.symm)
  obtain ⟨_, w₂, hout', _, hdone⟩ := (alone_syncOnce hagree hp fun k hk =>
    hL k (hI.keys k hk)).outcome
  obtain ⟨-, rfl⟩ := Prod.mk.inj (some.inj (hout'.symm.trans hout))
  refine fun k => ⟨(hdone k).1.trans (hdone k).2.symm, fun x hx => ?_⟩
  have hk := hsettled k
  unfold Settled at hk
  rw [hx] at hk
  rw [(hdone k).1, merged, hk.1, hk.2]
  cases x <;> rfl

/-! ## A store that has gone through -/

/-- What the tiers hold of the certificate when one more reconcile has run alone
without error. -/
def afterSync (w : CertWorld) : Option (Option (List UInt8) × Option (List UInt8)) :=
  match outcome (certExec .ok) syncOnce w with
  | some (.ok _, w') => some (w'.lb crt, w'.rb crt)
  | _ => none

theorem afterSync_eq {w : CertWorld} {l r : Option (List UInt8)} (h : afterSync w = some (l, r)) :
    ∃ st w', outcome (certExec .ok) syncOnce w = some (.ok st, w') ∧ w'.lb crt = l ∧
      w'.rb crt = r := by
  unfold afterSync at h
  split at h
  · rename_i st w' ho
    obtain ⟨hl, hr⟩ := Prod.mk.inj (some.inj h)
    exact ⟨st, w', ho, hl, hr⟩
  · cases h

/-- A store that nothing else overlaps has reached both tiers. -/
theorem converges_store : ∃ c : certSystem.Config,
    System.Reach (careful True (· = crt)).move ⟨storeOver oneFile ∅, []⟩ c ∧
    final crt c.world.log = some (some [2]) ∧ ∃ st w',
      outcome (certExec .ok) syncOnce c.world = some (.ok st, w') ∧
        w'.lb crt = some [2] ∧ w'.rb crt = some [2] := by
  have hrun : ((System.step (M := certSystem) ⟨storeOver oneFile ∅, []⟩
      (.start (.store crt [2]))).bind fun c =>
        (System.runIf (plainlyCareful True) c (oks 0 4)).map fun c =>
          (final crt c.world.log, c.pool.all (·.2.ended.isSome), (afterSync c.world).isSome)) =
      some (some (some [2]), true, true) := by decide
  obtain ⟨c₁, hs, hrun⟩ := bind_eq_some_iff.mp hrun
  obtain ⟨c, hc, heq⟩ := map_eq_some_iff.mp hrun
  simp only [Prod.mk.injEq, List.all_eq_true] at heq
  obtain ⟨hfin, hended, hsync⟩ := heq
  obtain ⟨⟨l, r⟩, hsync⟩ := isSome_iff_exists.mp hsync
  obtain ⟨st, w', hout, -⟩ := afterSync_eq hsync
  have hr₁ : System.Reach (careful True (· = crt)).move ⟨storeOver oneFile ∅, []⟩ c₁ :=
    .tail (.start (.store crt [2])) .refl ⟨rfl, fun _ _ hn => by cases hn⟩ hs
  have hr := System.reach_of_runIf (fun _ _ => careful_of_plainly) hr₁ hc
  have hT : Tree (· = crt) := by
    rintro _ _ rfl rfl
    decide
  have hL : ∀ k, k = crt → syncable k = true := by
    rintro _ rfl
    decide
  have hw : (storeOver oneFile ∅).Starts (· = crt) :=
    starts_storeOver (fun k => .inr (oneFile_bytes k)) fun _ => .inl rfl
  have hconv := converges_of_careful hT hL (storeOver oneFile ∅) c hw (fun _ => .inr (.inr rfl))
    hr hended st w' hout crt
  have hlb := hconv.2 _ hfin
  exact ⟨c, hr, hfin, st, w', hout, hlb, hconv.1.symm.trans hlb⟩

/-! ## A push that lands after a store -/

/-- A reconcile has read the local bytes to push them; a store puts other bytes in
both tiers; then the push overwrites the replica's and aligns the times. -/
def stalePush : List certSystem.Move :=
  [.start .sync] ++ oks 0 6 ++ [.start (.store crt [2])] ++ oks 1 4 ++ oks 0 3

/-- Is every call answered, and every key the certificate's? -/
def plainly (_ : certSystem.Config) : certSystem.Move → Bool
  | .start (.store k _) | .start (.load k) => k == crt
  | .resume _ (χ : CertChoice) => χ.isOk
  | _ => true

theorem answered_of_plainly {c : certSystem.Config} {m : certSystem.Move}
    (h : plainly c m = true) : (answered (· = crt)).move c m := by
  cases m with
  | start j =>
    cases j with
    | store k v | load k => exact beq_iff_eq.mp h
    | _ => trivial
  | env e => trivial
  | resume n χ => exact fun _ _ _ _ => CertChoice.isOk_iff.mp h

/-- Overlap suffices for the tiers to stay apart: the replica keeps the old bytes
under the time of the new ones. -/
theorem converges_stalePush : ¬ Converges (answered (· = crt)) (· = crt) := by
  intro hclaim
  have hrun : (System.runIf plainly ⟨storeOver oneFile ∅, []⟩ stalePush).map
      (fun c => (c.pool.all (·.2.ended.isSome), afterSync c.world)) =
      some (true, some (some [2], some [1])) := by decide
  obtain ⟨c, hc, heq⟩ := map_eq_some_iff.mp hrun
  simp only [Prod.mk.injEq, List.all_eq_true] at heq
  obtain ⟨hended, hsync⟩ := heq
  obtain ⟨st, w', hout, hl, hr⟩ := afterSync_eq hsync
  have hw : (storeOver oneFile ∅).Starts (· = crt) :=
    starts_storeOver (fun k => .inr (oneFile_bytes k)) fun _ => .inl rfl
  have := (hclaim _ c hw (fun _ => .inr (.inr rfl))
    (System.reach_of_runIf (fun _ _ => answered_of_plainly) .refl hc) hended st w' hout crt).1
  rw [hl, hr] at this
  cases this

end Swarmy.Cert
