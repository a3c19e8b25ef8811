import Swarmy.Cert.Writes

/-!
# A deleted certificate key stays away

Once a reconcile that began after `Delete` returned has completed, a deleted key is
on neither tier until it is stored again: in every careful run
(`staysDeleted_of_careful`).  Outages alone are not harmless: a site prefix deleted
while the replica cannot be listed leaves behind the files that only the replica
holds, and the next reconcile brings them back (`staysDeleted_unlistedPrefix`).
-/

namespace Swarmy.Cert

open Coop Bool

/-- The replica may fail at any call, the local tier does not. -/
def outages : Allow certSystem where
  start _ _ := True
  resume _ χ c _ := c.replica = false → χ = .ok
  env _ _ := True

/-- A store as its process starts it, over files with keys of `L`. -/
structure CertWorld.Starts (L : String → Prop) (w : CertWorld) : Prop where
  downUntil : w.downUntil = 0
  pendingDeletes : w.pendingDeletes = []
  log : w.log = []
  running : ∀ n, w.running n = none
  keys : ∀ k, w.lb k ≠ none ∨ w.rb k ≠ none → L k
  shared : ∀ k, w.rb k ≠ none → nodeLocal k = false

theorem CertWorld.Starts.inv {L : String → Prop} {strict : Prop} {w : CertWorld} (h : w.Starts L)
    (hs : strict → ∀ k, w.lb k = w.rb k ∨ w.lb k = none ∨ w.rb k = none) : Inv L strict w where
  __ := h
  apart n m op op' _ hn := by
    rw [h.running] at hn
    cases hn
  storing n k v hn := by
    rw [h.running] at hn
    cases hn
  gone k hk := by
    rw [h.log] at hk
    cases hk
  healthy hst := by
    refine ⟨h.downUntil, h.pendingDeletes, fun k _ => ?_⟩
    unfold Settled
    rw [h.log]
    exact hs hst k

/-- In runs that `A` allows: when a reconcile has completed that began when a delete
of the key was over, and the key has not been stored since, it is on neither tier. -/
def StaysDeleted (A : Allow certSystem) (L : String → Prop) : Prop :=
  ∀ (w : CertWorld) (c : certSystem.Config) (n : Nat) (j : certSystem.Job)
    (p : CertProg CertResult) (st : SyncStats) (since : List CertEvent) (k : String), w.Starts L →
    System.Reach A.move ⟨w, []⟩ c → c.pool[n]? = some (j, p) →
      p.ended = some (.ok (.synced st since)) →
    gone k since = true → stores k c.world.log = stores k since →
    c.world.lb k = none ∧ c.world.rb k = none

/-- Deleted keys stay away in careful runs. -/
theorem staysDeleted_of_careful {L : String → Prop} (hT : Tree L) :
    StaysDeleted (careful False L) L := by
  intro w c n j p st since k hw hr hp hx hg hst
  have hinv : Inv L False w := hw.inv False.elim
  let O : Coop.Outline certSystem (careful False L) := certOutline hT False.elim
  have hfresh : ∀ n, O.fresh n w := hw.running
  have hI : Inv L False c.world := O.reach hinv hfresh hr
  have hpost := O.ended_of_reach (certOutline_post hT False.elim) hinv hfresh hr hp hx
  obtain ⟨hsince, hc⟩ := hpost.2 _ rfl
  exact ⟨(hI.gone k (hsince.gone hg hst)).1, (hc k hg hst).resolve_right (by simp)⟩

/-! ## A delete that is replayed -/

/-- A certificate file. -/
def crt : String := "certificates/ca/a/a.crt"

/-- One tier with the certificate. -/
def oneFile : Tier := (∅ : Tier).insert crt ⟨[1], 5⟩

/-- A store over these tiers. -/
def storeOver (loc rep : Tier) : CertWorld :=
  ⟨9, 9, loc, rep, 0, false, false, [], [], fun _ => none⟩

/-- Answer the next `k` calls of a task. -/
def oks (n k : Nat) : List certSystem.Move := List.replicate k (.resume n .ok)

/-- The delete of the certificate fails on the replica and is replayed. -/
def replayedDelete : List certSystem.Move :=
  oks 0 3 ++ [.resume 0 .fail, .env (40000, 40000), .start .sync] ++ oks 1 4

/-- Has reconcile `n` completed, with the certificate deleted when it began and not
stored since? -/
def synced (n : Nat) (c : certSystem.Config) : Bool :=
  match c.pool[n]?.bind (·.2.ended) with
  | some (.ok (.synced _ since)) => gone crt since && stores crt c.world.log == stores crt since
  | _ => false

theorem synced_iff {n : Nat} {c : certSystem.Config} (h : synced n c = true) :
    ∃ j p st since, c.pool[n]? = some (j, p) ∧ p.ended = some (.ok (.synced st since)) ∧
      gone crt since = true ∧ stores crt c.world.log = stores crt since := by
  unfold synced at h
  split at h
  · rename_i st since hp
    obtain ⟨⟨j, p⟩, hp, hx⟩ := Option.bind_eq_some_iff.mp hp
    obtain ⟨hg, hs⟩ := and_eq_true_iff.mp h
    exact ⟨j, p, st, since, hp, hx, hg, beq_iff_eq.mp hs⟩
  · cases h

/-- Is the call carried out and answered? -/
def CertChoice.isOk : CertChoice → Bool
  | .ok => true
  | .fail | .lost => false

theorem CertChoice.isOk_iff {χ : CertChoice} : χ.isOk = true ↔ χ = .ok := by
  cases χ <;> simp [isOk]

theorem oneFile_bytes (k : String) : oneFile.bytes k = if k = crt then some [1] else none :=
  Tier.bytes_insert _ _ _ _

theorem starts_storeOver {loc rep : Tier}
    (hl : ∀ k, loc.bytes k = none ∨ loc.bytes k = if k = crt then some [1] else none)
    (hr : ∀ k, rep.bytes k = none ∨ rep.bytes k = if k = crt then some [1] else none) :
    (storeOver loc rep).Starts (· = crt) := by
  have key : ∀ {t : Tier}, (∀ k, t.bytes k = none ∨
      t.bytes k = if k = crt then some [1] else none) →
      ∀ k, t.bytes k ≠ none → k = crt := by
    intro t ht k hk
    have := (ht k).resolve_left hk
    by_contra hne
    exact hk (this.trans (if_neg hne))
  refine ⟨rfl, rfl, rfl, fun _ => rfl, fun k hk => hk.elim (key hl k) (key hr k), fun k hk => ?_⟩
  rw [key hr k hk]
  decide

/-- Enough for a move to be careful, when the only write operation has begun. -/
def plainlyCareful (strict : Prop) [Decidable strict] (c : certSystem.Config) :
    certSystem.Move → Bool
  | .start .sync | .env _ => true
  | .start _ => false
  | .resume n (χ : CertChoice) => match c.pool[n]? with
    | some (j, .call q _) => (!decide strict && q.replica || χ.isOk) && match j, q with
      | .sync, .replicaStore _ _ | .sync, .localStore _ _ | .load _, .localStore _ _ => false
      | .delete _, .localDelete _ => c.world.downUntil ≤ c.world.now
      | .delete _, .replicaList _ => χ.isOk
      | _, _ => true
    | _ => false

theorem careful_of_plainly {strict : Prop} [Decidable strict] {L : String → Prop}
    {c : certSystem.Config} {m : certSystem.Move} (h : plainlyCareful strict c m = true) :
    (careful strict L).move c m := by
  cases m with
  | start j =>
    cases j with
    | sync => trivial
    | _ => cases h
  | env e => trivial
  | resume n χ =>
    intro j q k hp
    simp only [plainlyCareful, hp, and_eq_true, or_eq_true] at h
    obtain ⟨hχ, h⟩ := h
    refine ⟨fun hq => CertChoice.isOk_iff.mp (hχ.resolve_left fun hne => ?_), ?_⟩
    · rcases hq with hs | hq
      · simp [hs] at hne
      · rw [hq] at hne
        cases hne.2
    · cases j with
      | sync | load k => cases q <;> trivial
      | store k v => trivial
      | delete p =>
        cases q with
        | localDelete p => exact fun hlt => absurd (of_decide_eq_true h) (by omega)
        | replicaList p => exact fun hne => absurd (CertChoice.isOk_iff.mp h) hne
        | _ => trivial

/-- A delete that the replica has not seen is replayed, and the key stays away. -/
theorem staysDeleted_replayed : ∃ c : certSystem.Config,
    System.Reach (careful False (· = crt)).move ⟨storeOver oneFile oneFile, []⟩ c ∧
    synced 1 c = true ∧ c.world.lb crt = none ∧ c.world.rb crt = none := by
  have hrun : ((System.step (M := certSystem) ⟨storeOver oneFile oneFile, []⟩
      (.start (.delete crt))).bind fun c =>
        (System.runIf (plainlyCareful False) c replayedDelete).map (synced 1)) = some true := by
    decide
  obtain ⟨c₁, hs, hrun⟩ := Option.bind_eq_some_iff.mp hrun
  obtain ⟨c, hc, hsync⟩ := Option.map_eq_some_iff.mp hrun
  have hr₁ : System.Reach (careful False (· = crt)).move ⟨storeOver oneFile oneFile, []⟩ c₁ :=
    .tail (.start (.delete crt)) .refl (fun _ _ _ _ hn => by cases hn) hs
  have hr := System.reach_of_runIf (fun _ _ => careful_of_plainly) hr₁ hc
  obtain ⟨j, p, st, since, hp, hx, hg, hst⟩ := synced_iff hsync
  refine ⟨c, hr, hsync, staysDeleted_of_careful (L := (· = crt)) ?_
    (storeOver oneFile oneFile) c 1 j p
    st since crt ?_ hr hp hx hg hst⟩
  · rintro _ _ rfl rfl
    decide
  · exact starts_storeOver (fun k => .inr (oneFile_bytes k)) fun k => .inr (oneFile_bytes k)

/-! ## A prefix that cannot be listed -/

/-- The site's prefix is deleted while the replica is down; the next reconcile runs
when it is up again. -/
def unlistedPrefix : List certSystem.Move :=
  [.start (.delete "certificates/ca/a")] ++ oks 0 2 ++
    [.resume 0 .fail, .resume 0 .fail, .env (40000, 40000), .start .sync] ++ oks 1 9

/-- May the replica, and nothing else, fail at this move? -/
def onlyOutages (c : certSystem.Config) : certSystem.Move → Bool
  | .resume n (χ : CertChoice) => match c.pool[n]? with
    | some (_, .call q _) => q.replica || χ.isOk
    | _ => true
  | _ => true

theorem outages_of_only {c : certSystem.Config} {m : certSystem.Move}
    (h : onlyOutages c m = true) : outages.move c m := by
  cases m with
  | start j => trivial
  | env e => trivial
  | resume n χ =>
    intro j q k hp hq
    simp only [onlyOutages, hp, hq, Bool.false_or] at h
    exact CertChoice.isOk_iff.mp h

/-- Outages suffice for a deleted certificate to come back: the replica's file below
the prefix is not known when the prefix is expanded. -/
theorem staysDeleted_unlistedPrefix : ¬ StaysDeleted outages (· = crt) := by
  intro hclaim
  have hrun : (System.runIf onlyOutages ⟨storeOver ∅ oneFile, []⟩ unlistedPrefix).map
      (fun c => (synced 1 c, c.world.lb crt)) = some (true, some [1]) := by decide
  obtain ⟨c, hc, heq⟩ := Option.map_eq_some_iff.mp hrun
  obtain ⟨hsync, hlb⟩ := Prod.mk.inj heq
  obtain ⟨j, p, st, since, hp, hx, hg, hst⟩ := synced_iff hsync
  have hr := System.reach_of_runIf (fun _ _ => outages_of_only) .refl hc
  have hw : (storeOver ∅ oneFile).Starts (· = crt) :=
    starts_storeOver (fun _ => .inl rfl) fun k => .inr (oneFile_bytes k)
  have := (hclaim _ c 1 j p st since crt hw hr hp hx hg hst).1
  rw [hlb] at this
  cases this

end Swarmy.Cert
