import Swarmy.Storage.EngineUpgrade

/-!
# One version, with its metadata

`promised_of_carefulUpgrade`: where a wait for the tasks ends when they are gone, a rollback's calls
take effect once the new engine is recorded, and a rollback is not resumed after a redeploy had
finished, Garage is started on metadata of its engine only, copies are made while it is stopped, and
the run ends with the engine that the metadata is for.
-/

namespace EngineUpgrade

open List Option Function

namespace State

variable (members : List Nat)

/-! ## The promise -/

/-- A run that is over has left the engine that every member's metadata is for. -/
def Matched (s : State) : Prop :=
  s.run.status ≠ .running → ∀ m ∈ members, (s.meta_ m).opened = s.engineImage

/-- Garage is stopped on every member. -/
def Stopped (s : State) : Prop := ∀ m ∈ members, s.task m = none

/-- Garage starts on the new engine or on metadata that no newer engine has opened; metadata is
copied and restored while Garage is stopped; and a rollback that was resumed restores over no write
that was acknowledged after a redeploy. -/
def Kept (s : State) : Step → Prop
  | .taskStarts m => ∀ e, s.service = some e → m ∈ members → s.task m = none →
      e = .new ∨ (s.meta_ m).opened = .old
  | .call _ => match s.phase with
    | .backup => (∃ m ∈ members, m ∉ s.run.backedUp) → s.Stopped members
    | .restore (m :: _) => s.Stopped members ∧ (s.resumed = true → (s.meta_ m).written = false)
    | _ => True
  | _ => True

def PromisedRun (s : State) : List Step → Prop
  | [] => s.Matched members
  | e :: steps => s.Matched members ∧ s.Kept members e ∧ PromisedRun (s.step members e) steps

/-! ## The condition -/

/-- The condition on a call of a rollback: with members to restore, the service is removed; and the
calls fail only while the old engine is recorded. -/
def CarefulCall (s : State) (outcome : Outcome) : Prop :=
  match s.phase with
  | .rollbackRemove => (outcome = .refused → s.engineImage = .old) ∧
      (outcome ≠ .refused → s.run.backedUp ≠ [] → outcome.took = true ∨ s.service = none)
  | .restore (_ :: _) => outcome ≠ .done → outcome ≠ .cut → s.engineImage = .old
  | .restore [] => outcome.took = false → s.engineImage = .old
  | _ => True

/-- The condition on a look at the tasks: no member with a task is disconnected when there seem to
be none, and a rollback with members to restore does not stop waiting at its deadline. -/
def CarefulPoll (s : State) (late : Bool) : Prop :=
  match s.phase with
  | .wait => s.storeTasksRunning members = false → ∀ m ∈ members, s.task m ≠ none →
    s.isOnline m = true
  | .rollbackWait => s.run.backedUp ≠ [] → (late = true → s.storeTasksRunning members = false) ∧
      (s.storeTasksRunning members = false → ∀ m ∈ members, s.task m ≠ none → s.isOnline m = true)
  | _ => True

def Careful (s : State) : Step → Prop
  | .call outcome => s.CarefulCall outcome
  | .poll late => s.CarefulPoll members late
  | .resumeEngineUpgrade => s.run.step = .rollback → s.redeployed = false
  | _ => True

def CarefulRun (s : State) : List Step → Prop
  | [] => True
  | e :: steps => s.Careful members e ∧ CarefulRun (s.step members e) steps

/-! ## The invariant -/

/-- Nothing runs, and Swarm starts nothing. -/
def Quiet (s : State) : Prop := s.service = none ∧ s.Stopped members

/-- What holds wherever the run is. -/
structure Core (s : State) : Prop where
  service_image : ∀ e, s.service = some e → e = s.engineImage
  image_old : s.engineImage = .old → ∀ m ∈ members, (s.meta_ m).opened = .old
  task_new : ∀ m ∈ members, s.task m = some .new → (s.meta_ m).opened = .new
  copies : ∀ m ∈ s.run.backedUp, ((s.copy m).getD .empty).opened = .old
  copied : s.engineImage = .new ∨ s.run.step = .deploy → ∀ m ∈ members, m ∈ s.run.backedUp
  before : s.run.step = .preflight ∨ s.run.step = .stop ∨ s.run.step = .backup →
    s.engineImage = .old
  quiet : s.run.step = .backup → s.Quiet members
  removed : s.run.step = .deploy → s.engineImage = .old → s.service = none
  verified : s.run.step = .verify → s.engineImage = .new
  nonempty : s.run.step ≠ .preflight → members ≠ []
  unwritten : s.redeployed = false → ∀ m, (s.meta_ m).written = false ∧
    ((s.copy m).getD .empty).written = false
  resumed : s.resumed = true → s.run.step = .rollback
  matched : s.Matched members

/-- In a rollback, which was not resumed after a redeploy. -/
structure Back (s : State) : Prop where
  step : s.run.step = .rollback
  status : s.run.status = .running
  resumed : s.resumed = true → s.redeployed = false

/-- What holds at a phase. -/
def At (s : State) : Phase → Prop
  | .idle => True
  | .preflight => s.run.step = .preflight ∧ s.run.status = .running
  | .remove => s.run.step = .stop ∧ s.run.status = .running
  | .wait => s.run.step = .stop ∧ s.run.status = .running ∧ s.service = none
  | .backup => s.run.step = .backup ∧ s.run.status = .running
  | .backedUp m => s.run.step = .backup ∧ s.run.status = .running ∧
    ((s.copy m).getD .empty).opened = .old
  | .engineImage => s.run.step = .deploy ∧ s.run.status = .running
  | .redeploy | .deployed => s.run.step = .deploy ∧ s.run.status = .running ∧ s.engineImage = .new
  | .verify => s.run.step = .verify ∧ s.run.status = .running
  | .rollbackRemove => s.Back
  | .rollbackWait => s.Back ∧ (s.run.backedUp ≠ [] → s.service = none)
  | .restore todo => s.Back ∧ (s.run.backedUp ≠ [] → s.Quiet members) ∧
      (∀ m ∈ members, m ∉ todo → (s.meta_ m).opened = .old) ∧ ∀ m ∈ todo, m ∈ s.run.backedUp
  | .rollbackRedeploy => s.Back ∧ s.engineImage = .old
  | .ended status => s.run.step = .rollback ∧ s.engineImage = .old ∧ status ≠ .running

structure Inv (s : State) : Prop where
  core : s.Core members
  at_ : s.At members s.phase

variable {members} {s : State}

/-! ## Going on -/

theorem Core.goTo (h : s.Core members) (phase : Phase) : (s.goTo phase).Core members :=
  { h with }

theorem Core.idle (h : s.Core members) : (s.goTo .idle).Inv members := ⟨h.goTo .idle, trivial⟩

/-- A call is done, fails, or is the controller's last. -/
theorem inv_after {outcome : Outcome} {next thrown : State → State} (h : s.Core members)
    (hnext : outcome = .done → (next s).Inv members)
    (hthrown : outcome ≠ .done → outcome ≠ .cut → (thrown s).Inv members) :
    (s.after outcome next thrown).Inv members := by
  cases outcome with
  | done => exact hnext rfl
  | late | failed | refused => exact hthrown nofun nofun
  | cut => exact h.idle

theorem Core.back (h : s.Core members) (hstatus : s.run.status = .running)
    (hpreflight : s.run.step ≠ .preflight) (hresumed : s.resumed = true → s.redeployed = false) :
    s.rollback.Inv members where
  core :=
    { h with
      copied := fun hnew => h.copied (hnew.imp id nofun)
      before := by rintro (hstep | hstep | hstep) <;> cases hstep
      quiet := nofun
      removed := nofun
      verified := nofun
      nonempty := fun _ => h.nonempty hpreflight
      resumed := fun _ => rfl }
  at_ := ⟨rfl, hstatus, hresumed⟩

/-- A step throws. -/
theorem Core.thrown {step : EngineUpgradeStep} (h : s.Core members) (hstep : s.run.step = step)
    (hstatus : s.run.status = .running) (hpreflight : step ≠ .preflight)
    (hrollback : step ≠ .rollback) :
    s.rollback.Inv members :=
  h.back hstatus (hstep ▸ hpreflight) fun hresumed => absurd (hstep ▸ h.resumed hresumed) hrollback

theorem Core.finish (h : s.Core members) (status : EngineUpgradeStatus)
    (hmatched : ∀ m ∈ members, (s.meta_ m).opened = s.engineImage) :
    (s.finish status).Inv members :=
  ⟨{ h with matched := fun _ => hmatched }, trivial⟩

theorem Core.matched_of_old (h : s.Core members) (hold : s.engineImage = .old) (m : Nat)
    (hm : m ∈ members) :
    (s.meta_ m).opened = s.engineImage := (h.image_old hold m hm).trans hold.symm

theorem Back.congr {s' : State} (h : s.Back) (hrun : s'.run = s.run)
    (hresumed : s'.resumed = s.resumed)
    (hredeployed : s'.redeployed = s.redeployed) : s'.Back :=
  ⟨by rw [hrun]; exact h.step, by rw [hrun]; exact h.status,
    by rw [hresumed, hredeployed]; exact h.resumed⟩

/-! ## Effects -/

theorem Core.removeService (h : s.Core members) : s.removeService.Core members :=
  { h with
    service_image := nofun
    quiet := fun hstep => ⟨rfl, (h.quiet hstep).2⟩
    removed := fun _ _ => rfl }

theorem Core.copyMeta (h : s.Core members) {m : Nat} (hm : (s.meta_ m).opened = .old) :
    (s.copyMeta m).Core members where
  __ := h
  copies m' hm' := by
    rw [copyMeta_copy]
    split
    · exact hm
    · exact h.copies m' hm'
  unwritten hredeployed m' := by
    refine ⟨(h.unwritten hredeployed m').1, ?_⟩
    rw [copyMeta_copy]
    split
    · exact (h.unwritten hredeployed m).1
    · exact (h.unwritten hredeployed m').2

/-- What a restore leaves on a member. -/
theorem opened_restoreMeta {m : Nat} (hm : ((s.copy m).getD .empty).opened = .old) (m' : Nat)
    (hm' : m' ≠ m → ((s.meta_ m').opened = .old)) : ((s.restoreMeta m).meta_ m').opened = .old := by
  rw [restoreMeta_meta]
  split
  · exact hm
  · rename_i heq
    exact hm' heq

theorem Core.restoreMeta (h : s.Core members) {m : Nat} (hm : m ∈ s.run.backedUp)
    (hquiet : s.Quiet members)
    (hstatus : s.run.status = .running) : (s.restoreMeta m).Core members where
  __ := h
  image_old hold m' hm' := opened_restoreMeta (h.copies m hm) m' fun _ => h.image_old hold m' hm'
  task_new m' hm' htask := by
    rw [show (s.restoreMeta m).task m' = none from hquiet.2 m' hm'] at htask; cases htask
  unwritten hredeployed m' := by
    refine ⟨?_, (h.unwritten hredeployed m').2⟩
    rw [restoreMeta_meta]
    split
    · exact (h.unwritten hredeployed m).2
    · exact (h.unwritten hredeployed m').1
  matched hover := absurd hstatus hover

theorem Core.redeployStore (h : s.Core members) (hbackup : s.run.step ≠ .backup)
    (hdeploy : s.run.step = .deploy → s.engineImage = .new) : s.redeployStore.Core members where
  service_image e he := (some.inj he).symm
  __ := h
  quiet hstep := absurd hstep hbackup
  removed hstep hold := by
    have hnew : s.engineImage = .new := hdeploy hstep
    rw [show s.engineImage = .old from hold] at hnew
    cases hnew

theorem Core.finishRedeploy (h : s.Core members) (phase : Phase) :
    (s.finishRedeploy phase).Core members :=
  { h with unwritten := nofun }

/-! ## Steps of others -/

/-- Tasks end, agents come and go, and writes change nothing else. -/
theorem Inv.same {s' : State} (h : s.Inv members) (hservice : s'.service = s.service)
    (himage : s'.engineImage = s.engineImage) (hrun : s'.run = s.run) (hcopy : s'.copy = s.copy)
    (hphase : s'.phase = s.phase) (hresumed : s'.resumed = s.resumed)
    (hredeployed : s'.redeployed = s.redeployed)
    (htask : ∀ m, s'.task m = s.task m ∨ s'.task m = none)
    (hopened : ∀ m, (s'.meta_ m).opened = (s.meta_ m).opened)
    (hwritten : s.redeployed = false → ∀ m, (s'.meta_ m).written = (s.meta_ m).written) :
    s'.Inv members := by
  have hstopped (hs : s.Stopped members) : s'.Stopped members := fun m hm =>
    (htask m).elim (fun heq => heq.trans (hs m hm)) id
  have hquiet (hq : s.Quiet members) : s'.Quiet members := ⟨hservice.trans hq.1, hstopped hq.2⟩
  refine ⟨⟨?_, ?_, ?_, ?_, ?_, ?_, ?_, ?_, ?_, ?_, ?_, ?_, ?_⟩, ?_⟩
  · rw [hservice, himage]
    exact h.core.service_image
  · intro hold m hm
    rw [hopened]
    exact h.core.image_old (himage.symm.trans hold) m hm
  · intro m hm hnew
    rw [hopened]
    rcases htask m with heq | heq
    · exact h.core.task_new m hm (heq.symm.trans hnew)
    · rw [heq] at hnew
      cases hnew
  · rw [hrun, hcopy]
    exact h.core.copies
  · rw [hrun, himage]
    exact h.core.copied
  · rw [hrun, himage]
    exact h.core.before
  · rw [hrun]
    exact fun hstep => hquiet (h.core.quiet hstep)
  · rw [hrun, himage, hservice]
    exact h.core.removed
  · rw [hrun, himage]
    exact h.core.verified
  · rw [hrun]
    exact h.core.nonempty
  · rw [hredeployed, hcopy]
    exact fun hfalse m => ⟨(hwritten hfalse m).trans (h.core.unwritten hfalse m).1,
      (h.core.unwritten hfalse m).2⟩
  · rw [hresumed, hrun]
    exact h.core.resumed
  · intro hover m hm
    rw [hopened, himage]
    exact h.core.matched (by rwa [hrun] at hover) m hm
  · have hback (hb : s.Back) : s'.Back := hb.congr hrun hresumed hredeployed
    rw [hphase]
    have hat := h.at_
    cases hp : s.phase with
    | idle => exact trivial
    | restore todo =>
      rw [hp] at hat
      refine ⟨hback hat.1, fun hne => hquiet (hat.2.1 (by rwa [hrun] at hne)),
        fun m hm hnot => ?_, ?_⟩
      · rw [hopened]
        exact hat.2.2.1 m hm hnot
      · rw [hrun]
        exact hat.2.2.2
    | rollbackRemove =>
      rw [hp] at hat
      exact hback hat
    | rollbackWait =>
      rw [hp] at hat
      exact ⟨hback hat.1, by rw [hrun, hservice]; exact hat.2⟩
    | rollbackRedeploy =>
      rw [hp] at hat
      exact ⟨hback hat.1, himage.trans hat.2⟩
    | _ =>
      rw [hp] at hat
      simp only [At, hrun, himage, hservice, hcopy] at hat ⊢
      exact hat

theorem Inv.taskEnds (h : s.Inv members) (m : Nat) :
    (s.step members (.taskEnds m)).Inv members := by
  refine h.same rfl rfl rfl rfl rfl rfl rfl (fun m' => ?_) (fun _ => rfl) fun _ _ => rfl
  by_cases heq : m' = m
  · right
    show update s.task m none m' = none
    rw [heq, update_self]
  · left
    exact update_of_ne heq none s.task

theorem Inv.write (h : s.Inv members) (m : Nat) : (s.write m).Inv members := by
  unfold State.write
  split
  · refine h.same rfl rfl rfl rfl rfl rfl rfl (fun _ => .inl rfl) (fun m' =>
      ?_) fun hredeployed m' => ?_
    · show (update s.meta_ m _ m').opened = _
      rw [update_apply]
      split
      · rename_i heq
        rw [heq]
      · rfl
    · show (update s.meta_ m _ m').written = _
      rw [update_apply]
      split
      · rename_i heq
        rw [heq, hredeployed, Bool.or_false]
      · rfl
  · exact h

theorem Inv.taskStarts (h : s.Inv members) (m : Nat) : (s.taskStarts members m).Inv members := by
  unfold State.taskStarts
  split
  · rename_i e hservice
    split
    · rename_i hcan
      have hcore := h.core
      have himage := hcore.service_image e hservice
      have hopened (m' : Nat) : m' = m ∧ (update s.meta_ m ((s.meta_ m).start e) m').opened =
          ((s.meta_ m).start e).opened ∨ m' ≠ m ∧
          (update s.meta_ m ((s.meta_ m).start e) m').opened = (s.meta_ m').opened := by
        by_cases heq : m' = m
        · exact .inl ⟨heq, by rw [heq, update_self]⟩
        · exact .inr ⟨heq, by rw [update_of_ne heq]⟩
      have hold (hall : e = .old) (m' : Nat) :
          (update s.meta_ m ((s.meta_ m).start e) m').opened = (s.meta_ m').opened := by
        rcases hopened m' with ⟨heq, h⟩ | ⟨-, h⟩
        · rw [h, hall, heq]
          rfl
        · exact h
      refine ⟨⟨hcore.service_image, ?_, ?_, hcore.copies, hcore.copied, hcore.before, ?_,
        hcore.removed,
        hcore.verified, hcore.nonempty, ?_, hcore.resumed, ?_⟩, ?_⟩
      · intro hi m' hm'
        rw [hold (himage.trans hi)]
        exact hcore.image_old hi m' hm'
      · intro m' hm' htask
        rcases hopened m' with ⟨heq, h⟩ | ⟨hne, h⟩
        · rw [heq] at htask
          have he : some e = some Engine.new := (update_self m (some e) s.task).symm.trans htask
          rw [h, some.inj he]
          rfl
        · rw [h]
          exact hcore.task_new m' hm' ((update_of_ne hne (some e) s.task).symm.trans htask)
      · intro hstep
        have hnone := (hcore.quiet hstep).1
        rw [hservice] at hnone
        cases hnone
      · intro hredeployed m'
        refine ⟨?_, (hcore.unwritten hredeployed m').2⟩
        by_cases heq : m' = m
        · show (update s.meta_ m ((s.meta_ m).start e) m').written = false
          rw [heq, update_self, ← (hcore.unwritten hredeployed m).1]
          cases e <;> rfl
        · show (update s.meta_ m ((s.meta_ m).start e) m').written = false
          rw [update_of_ne heq]
          exact (hcore.unwritten hredeployed m').1
      · intro hover m' hm'
        have hmatched := hcore.matched hover m' hm'
        rcases hopened m' with ⟨heq, h⟩ | ⟨-, h⟩
        · refine h.trans ?_
          rw [heq] at hmatched
          cases e with
          | old => exact hmatched
          | new => exact himage
        · exact h.trans hmatched
      · have hat := h.at_
        cases hp : s.phase with
        | restore todo =>
          rw [hp] at hat
          have hempty : s.run.backedUp = [] := by
            by_contra hne
            rw [(hat.2.1 hne).1] at hservice
            cases hservice
          have hall : e = .old := by
            cases e with
            | old => rfl
            | new =>
              have hmem := hcore.copied (.inl himage.symm) m hcan.1
              rw [hempty] at hmem
              cases hmem
          refine ⟨hat.1.congr rfl rfl rfl, fun hne => absurd hempty hne,
            fun m' hm' hnot => ?_, hat.2.2.2⟩
          rw [hold hall]
          exact hat.2.2.1 m' hm' hnot
        | rollbackRemove =>
          rw [hp] at hat
          exact Back.congr hat rfl rfl rfl
        | rollbackWait | rollbackRedeploy =>
          rw [hp] at hat
          exact ⟨hat.1.congr rfl rfl rfl, hat.2⟩
        | _ =>
          rw [hp] at hat
          exact hat
    · exact h
  · exact h

/-! ## Steps of the run -/

theorem Core.enter (h : s.Core members) {step : EngineUpgradeStep} (phase : Phase)
    (hne : members ≠ [])
    (hresumed : s.run.step ≠ .rollback)
    (hbefore : step = .preflight ∨ step = .stop ∨ step = .backup → s.engineImage = .old)
    (hcopied : step = .deploy → ∀ m ∈ members, m ∈ s.run.backedUp)
    (hquiet : step = .backup → s.Quiet members)
    (hremoved : step = .deploy → s.service = none)
    (hverified : step = .verify → s.engineImage = .new) :
    (s.enter step phase).Core members :=
  ⟨h.service_image, h.image_old, h.task_new, h.copies,
    fun hnew => hnew.elim (fun hnew => h.copied (.inl hnew)) hcopied, hbefore, hquiet,
      fun hstep _ => hremoved hstep,
    hverified, fun _ => hne, h.unwritten, fun hr => absurd (h.resumed hr) hresumed, h.matched⟩

/-- A call with an effect, after which a failure is thrown. -/
theorem inv_call {s' : State} {next thrown : State → State} {outcome : Outcome}
    (heffect : s'.Core members) (hnext : (next s').Inv members) (hlate : (thrown s').Inv members)
    (hfailed : (thrown s).Inv members) :
    ((if outcome.took then s' else s).after outcome next thrown).Inv members := by
  cases outcome with
  | done => exact hnext
  | late => exact hlate
  | failed | refused => exact hfailed
  | cut => exact heffect.idle

theorem Core.recordNew (h : s.Core members) (hstep : s.run.step = .deploy)
    (hstatus : s.run.status = .running) :
    (s.record .new).Core members where
  service_image e he := by
    have hnew := h.service_image e he
    cases hi : s.engineImage with
    | new => exact hnew.trans hi
    | old =>
      have hnone := h.removed hstep hi
      rw [show s.service = some e from he] at hnone
      cases hnone
  image_old := nofun
  __ := h
  copied _ := h.copied (.inr hstep)
  before hbefore := by
    rcases hbefore with hbefore | hbefore | hbefore <;> cases hstep.symm.trans hbefore
  quiet hbackup := nomatch hstep.symm.trans hbackup
  removed _ := nofun
  verified _ := rfl
  matched hover := absurd hstatus hover

theorem Core.recordOld (h : s.Core members) (hback : s.Back)
    (hservice : s.service = none ∨ s.engineImage = .old)
    (hall : ∀ m ∈ members, (s.meta_ m).opened = .old) : (s.record .old).Core members where
  service_image e he := by
    rcases hservice with hnone | hold
    · rw [show s.service = some e from he] at hnone
      cases hnone
    · exact (h.service_image e he).trans hold
  image_old _ := hall
  __ := h
  copied hnew := by
    rcases hnew with hnew | hstep
    · cases hnew
    · cases hback.step.symm.trans hstep
  before _ := rfl
  removed hstep := nomatch hback.step.symm.trans hstep
  verified hstep := nomatch hback.step.symm.trans hstep
  matched hover := absurd hback.status hover

/-- In a rollback, the members that are not to be restored have old metadata. -/
theorem Core.old_of_not_backedUp (h : s.Core members) (m : Nat) (hm : m ∈ members)
    (hnot : m ∉ s.run.backedUp) :
    (s.meta_ m).opened = .old := by
  cases hi : s.engineImage with
  | old => exact h.image_old hi m hm
  | new => exact absurd (h.copied (.inl hi) m hm) hnot

theorem Core.old_of_empty (h : s.Core members) (hback : s.Back) (hempty : s.run.backedUp = []) :
    s.engineImage = .old := by
  cases hi : s.engineImage with
  | old => rfl
  | new =>
    obtain ⟨m, hm⟩ := exists_mem_of_ne_nil members (h.nonempty (by rw [hback.step]; exact nofun))
    have hmem := h.copied (.inl hi) m hm
    rw [hempty] at hmem
    cases hmem

theorem Inv.call {outcome : Outcome} (h : s.Inv members) (hc : s.CarefulCall outcome) :
    (s.call members outcome).Inv members := by
  have hat := h.at_
  have hcore := h.core
  unfold CarefulCall at hc
  cases hp : s.phase with
  | preflight =>
    rw [hp] at hat
    simp only [State.call, hp]
    have hold := hcore.matched_of_old (hcore.before (.inl hat.1))
    refine inv_after hcore (fun _ => ?_) fun _ _ => hcore.finish .failed hold
    split
    · exact hcore.finish .failed hold
    · rename_i hne
      refine ⟨hcore.enter .remove hne (by rw [hat.1]; exact nofun) (fun _ =>
        hcore.before (.inl hat.1)) nofun
        nofun nofun nofun, rfl, hat.2⟩
  | remove =>
    rw [hp] at hat
    simp only [State.call, hp]
    exact inv_call hcore.removeService ⟨hcore.removeService.goTo _, hat.1, hat.2, rfl⟩
      (hcore.removeService.thrown hat.1 hat.2 nofun nofun) (hcore.thrown hat.1 hat.2 nofun nofun)
  | backup =>
    rw [hp] at hat
    simp only [State.call, hp]
    split
    · rename_i hnone
      refine ⟨hcore.enter .engineImage (hcore.nonempty (by rw [hat.1]; exact nofun))
        (by rw [hat.1]; exact nofun)
        (by rintro (hstep | hstep | hstep) <;> cases hstep) (fun _ m hm => ?_) nofun
        (fun _ => (hcore.quiet hat.1).1) nofun, rfl, hat.2⟩
      simpa using List.find?_eq_none.1 hnone m hm
    · rename_i m hsome
      have hold := hcore.image_old (hcore.before (.inr (.inr hat.1))) m (mem_of_find?_eq_some hsome)
      have hcopy := hcore.copyMeta hold
      refine inv_call hcopy ⟨hcopy.goTo _, hat.1, hat.2, ?_⟩ (hcopy.thrown hat.1 hat.2 nofun nofun)
        (hcore.thrown hat.1 hat.2 nofun nofun)
      show (((s.copyMeta m).copy m).getD .empty).opened = .old
      rw [copyMeta_copy, if_pos rfl]
      exact hold
  | engineImage =>
    rw [hp] at hat
    simp only [State.call, hp]
    have hnew := hcore.recordNew hat.1 hat.2
    exact inv_call hnew ⟨hnew.goTo _, hat.1, hat.2, rfl⟩ (hnew.thrown hat.1 hat.2 nofun nofun)
      (hcore.thrown hat.1 hat.2 nofun nofun)
  | redeploy =>
    rw [hp] at hat
    simp only [State.call, hp]
    have hredeploy := hcore.redeployStore (by rw [hat.1]; exact nofun) fun _ => hat.2.2
    exact inv_call hredeploy ⟨hredeploy.finishRedeploy _, hat⟩
      (hredeploy.thrown hat.1 hat.2.1 nofun nofun) (hcore.thrown hat.1 hat.2.1 nofun nofun)
  | verify =>
    rw [hp] at hat
    simp only [State.call, hp]
    refine inv_after hcore (fun hdone => ?_) fun _ _ => hcore.thrown hat.1 hat.2 nofun nofun
    have hall : ∀ m ∈ members, s.task m = some .new := by
      by_contra hnot
      split at hdone
      · cases hdone
      · rename_i hcases
        exact hcases ⟨hdone, hnot⟩
    have hnew := hcore.verified hat.1
    have hdone : (s.enter .done .idle).Core members :=
      hcore.enter .idle (hcore.nonempty (by rw [hat.1]; exact nofun)) (by rw [hat.1]; exact nofun)
        (by rintro (hstep | hstep | hstep) <;> cases hstep) nofun nofun nofun nofun
    exact hdone.finish .done fun m hm => (hcore.task_new m hm (hall m hm)).trans hnew.symm
  | rollbackRemove =>
    rw [hp] at hat hc
    simp only [State.call, hp]
    cases outcome with
    | refused => exact ⟨hcore.goTo _, hat.step, hc.1 rfl, nofun⟩
    | done | late => exact ⟨hcore.removeService.goTo _, ⟨hat.step, hat.status, hat.resumed⟩,
      fun _ => rfl⟩
    | failed =>
      refine ⟨hcore.goTo _, ⟨hat.step, hat.status, hat.resumed⟩, fun hne => ?_⟩
      exact (hc.2 nofun hne).resolve_left nofun
    | cut => exact hcore.removeService.idle
  | restore todo =>
    rw [hp] at hat hc
    obtain ⟨hback, hquiet, hold, hmem⟩ := hat
    cases todo with
    | nil =>
      simp only [State.call, hp]
      have hservice : s.service = none ∨ s.engineImage = .old := by
        by_cases hempty : s.run.backedUp = []
        · exact .inr (hcore.old_of_empty hback hempty)
        · exact .inl (hquiet hempty).1
      have hrecord := hcore.recordOld hback hservice fun m hm => hold m hm not_mem_nil
      cases outcome with
      | done => exact ⟨hrecord.goTo _, ⟨hback.step, hback.status, hback.resumed⟩, rfl⟩
      | late => exact ⟨hrecord.goTo _, hback.step, rfl, nofun⟩
      | failed | refused => exact ⟨hcore.goTo _, hback.step, hc rfl, nofun⟩
      | cut => exact hrecord.idle
    | cons m todo =>
      simp only [State.call, hp]
      have hm := hmem m mem_cons_self
      have hstopped := hquiet (ne_nil_of_mem hm)
      have hrestore := hcore.restoreMeta hm hstopped hback.status
      cases outcome with
      | done =>
        refine ⟨hrestore.goTo _, ⟨hback.step, hback.status, hback.resumed⟩, fun _ => hstopped,
          fun m' hm' hnot => opened_restoreMeta (hcore.copies m hm) m' fun hne => ?_,
          fun m' hm' => hmem m' (mem_cons_of_mem m hm')⟩
        exact hold m' hm' fun hcons => (mem_cons.1 hcons).elim hne hnot
      | late => exact ⟨hrestore.goTo _, hback.step, hc nofun nofun, nofun⟩
      | failed | refused => exact ⟨hcore.goTo _, hback.step, hc nofun nofun, nofun⟩
      | cut => exact hrestore.idle
  | rollbackRedeploy =>
    rw [hp] at hat
    simp only [State.call, hp]
    have hredeploy := hcore.redeployStore (by rw [hat.1.step]; exact nofun)
        (by rw [hat.1.step]; exact nofun)
    exact inv_call hredeploy ⟨hredeploy.finishRedeploy _, hat.1.step, hat.2, nofun⟩
      ⟨hredeploy.goTo _, hat.1.step, hat.2, nofun⟩ ⟨hcore.goTo _, hat.1.step, hat.2, nofun⟩
  | _ =>
    simp only [State.call, hp]
    exact h

theorem stopped_of_none (hnone : s.storeTasksRunning members = false)
    (hseen : ∀ m ∈ members, s.task m ≠ none → s.isOnline m = true) : s.Stopped members := by
  intro m hm
  by_contra hne
  have hany : s.storeTasksRunning members = true :=
    any_eq_true.2 ⟨m, hm, by rw [hseen m hm hne, isSome_iff_ne_none.2 hne]; rfl⟩
  rw [hnone] at hany
  cases hany

theorem Inv.poll {late : Bool} (h : s.Inv members) (hc : s.CarefulPoll members late) :
    (s.poll members late).Inv members := by
  have hat := h.at_
  have hcore := h.core
  unfold CarefulPoll at hc
  cases hp : s.phase with
  | wait =>
    rw [hp] at hat hc
    simp only [State.poll, hp]
    split
    · rename_i hnone
      have hnone : s.storeTasksRunning members = false := by simpa using hnone
      refine ⟨hcore.enter .backup (hcore.nonempty (by rw [hat.1]; exact nofun))
        (by rw [hat.1]; exact nofun)
        (fun _ => hcore.before (.inr (.inl hat.1))) nofun (fun _ =>
          ⟨hat.2.2, stopped_of_none hnone (hc hnone)⟩)
        nofun nofun, rfl, hat.2.1⟩
    · split
      · exact hcore.thrown hat.1 hat.2.1 nofun nofun
      · exact h
  | rollbackWait =>
    rw [hp] at hat hc
    simp only [State.poll, hp]
    split
    · rename_i hend
      refine ⟨hcore.goTo _, ⟨hat.1.step, hat.1.status, hat.1.resumed⟩, fun hne => ⟨hat.2 hne, ?_⟩,
        hcore.old_of_not_backedUp, fun _ hm => hm⟩
      have hnone : s.storeTasksRunning members = false := by
        rcases Bool.or_eq_true_iff.1 hend with hnone | hlate
        · simpa using hnone
        · exact (hc hne).1 hlate
      exact stopped_of_none hnone ((hc hne).2 hnone)
    · exact h
  | _ =>
    simp only [State.poll, hp]
    exact h

theorem Inv.save (h : s.Inv members) : s.save.Inv members := by
  have hat := h.at_
  have hcore := h.core
  cases hp : s.phase with
  | backedUp m =>
    rw [hp] at hat
    simp only [State.save, hp]
    refine ⟨{ hcore with copies := fun m' hm' => ?_, copied := fun hnew m' hm' => ?_ },
      hat.1, hat.2.1⟩
    · rcases mem_append.1 hm' with hm' | hm'
      · exact hcore.copies m' hm'
      · rw [mem_singleton.1 hm']
        exact hat.2.2
    · exact mem_append_left _ (hcore.copied hnew m' hm')
  | deployed =>
    rw [hp] at hat
    simp only [State.save, hp]
    exact ⟨hcore.enter .verify (hcore.nonempty (by rw [hat.1]; exact nofun))
      (by rw [hat.1]; exact nofun)
      (by rintro (hstep | hstep | hstep) <;> cases hstep) nofun nofun nofun fun _ =>
        hat.2.2, rfl, hat.2.1⟩
  | ended status =>
    rw [hp] at hat
    simp only [State.save, hp]
    exact hcore.finish status (hcore.matched_of_old hat.2.1)
  | _ =>
    simp only [State.save, hp]
    exact h

theorem Inv.resume (h : s.Inv members) (hc : s.run.step = .rollback → s.redeployed = false) :
    s.resumeEngineUpgrade.Inv members := by
  have hcore := h.core
  unfold State.resumeEngineUpgrade
  split
  · rename_i hidle
    split
    · rename_i hstep
      exact ⟨hcore.goTo _, hstep, hidle.2⟩
    · rename_i hstep
      exact ⟨hcore.goTo _, hstep, hidle.2⟩
    · rename_i hstep
      exact ⟨hcore.goTo _, hstep, hidle.2⟩
    · rename_i hstep
      exact ⟨hcore.goTo _, hstep, hidle.2⟩
    · rename_i hstep
      exact ⟨hcore.goTo _, hstep, hidle.2⟩
    · exact h
    · rename_i hstep
      have hback := hcore.back hidle.2 (by rw [hstep]; exact nofun) fun _ => hc hstep
      have hcore' := hback.core
      exact ⟨⟨hcore'.service_image, hcore'.image_old, hcore'.task_new, hcore'.copies, hcore'.copied,
        hcore'.before,
        hcore'.quiet, hcore'.removed, hcore'.verified, hcore'.nonempty, hcore'.unwritten,
          fun _ => rfl,
        hcore'.matched⟩, rfl, hidle.2, fun _ => hc hstep⟩
  · exact h

/-! ## Runs -/

theorem Inv.step (e : Step) (h : s.Inv members) (hc : s.Careful members e) :
    (s.step members e).Inv members := by
  cases e with
  | taskStarts m => exact h.taskStarts m
  | taskEnds m => exact h.taskEnds m
  | agent m online =>
    exact h.same rfl rfl rfl rfl rfl rfl rfl (fun _ => .inl rfl) (fun _ => rfl) fun _ _ => rfl
  | write m => exact h.write m
  | call outcome => exact h.call hc
  | poll late => exact h.poll hc
  | save => exact h.save
  | controllerStops => exact h.core.idle
  | resumeEngineUpgrade => exact h.resume hc

theorem Inv.kept (e : Step) (h : s.Inv members) : s.Kept members e := by
  cases e with
  | taskStarts m =>
    intro e he hm _
    cases e with
    | new => exact .inl rfl
    | old => exact .inr (h.core.image_old (h.core.service_image _ he).symm m hm)
  | call outcome =>
    have hat := h.at_
    unfold Kept
    dsimp only
    split
    · rename_i hp
      rw [hp] at hat
      exact fun _ => (h.core.quiet hat.1).2
    · rename_i m todo hp
      rw [hp] at hat
      obtain ⟨hback, hquiet, -, hmem⟩ := hat
      exact ⟨(hquiet (ne_nil_of_mem (hmem m mem_cons_self))).2,
        fun hresumed => (h.core.unwritten (hback.resumed hresumed) m).1⟩
    · exact trivial
  | _ => exact trivial

theorem inv_start (task isOnline : Nat → Bool) : (start task isOnline).Inv members where
  core :=
    { service_image := fun e he => (some.inj he).symm
      image_old := fun _ _ _ => rfl
      task_new := fun m _ hm => by
        have htask : (if task m then some Engine.old else none) = some .new := hm
        split at htask <;> cases htask
      copies := nofun
      copied := by rintro (hnew | hstep) <;> contradiction
      before := fun _ => rfl
      quiet := nofun
      removed := nofun
      verified := nofun
      nonempty := fun hne => absurd rfl hne
      unwritten := fun _ _ => ⟨rfl, rfl⟩
      resumed := nofun
      matched := fun hover => absurd rfl hover }
  at_ := ⟨rfl, rfl⟩

theorem promised_run (steps : List Step) (h : s.Inv members) (hc : s.CarefulRun members steps) :
    s.PromisedRun members steps := by
  induction steps generalizing s with
  | nil => exact h.core.matched
  | cons e steps ih => exact ⟨h.core.matched, h.kept e, ih (h.step e hc.1) hc.2⟩

/-- In careful runs no engine opens metadata that a newer one has written. -/
theorem promised_of_carefulUpgrade (members : List Nat) (task isOnline : Nat → Bool)
    (steps : List Step)
    (h : (start task isOnline).CarefulRun members steps) :
    (start task isOnline).PromisedRun members steps :=
  promised_run steps (inv_start task isOnline) h

/-! ## Two upgrades -/

/-- Calls of a rollback are answered, and every task is seen. -/
def undisturbed (members : List Nat) (s : State) : Step → Bool
  | .call outcome => match s.phase with
    | .rollbackRemove | .restore _ => outcome = .done
    | _ => true
  | .poll late => !late && members.all fun m => (s.task m).isNone || s.isOnline m
  | .resumeEngineUpgrade => !s.redeployed
  | _ => true

theorem careful_of_undisturbed (e : Step) (h : s.undisturbed members e = true) :
    s.Careful members e := by
  cases e with
  | call outcome =>
    simp only [undisturbed] at h
    unfold Careful CarefulCall
    dsimp only
    split at h
    case h_3 hremove hrestore =>
      split
      · next hp => exact absurd hp hremove
      · next hp => exact absurd hp (hrestore _)
      · next hp => exact absurd hp (hrestore _)
      · trivial
    all_goals
      obtain rfl := of_decide_eq_true h
      split
      · exact ⟨nofun, fun _ _ => .inl rfl⟩
      · exact fun hne => absurd rfl hne
      · exact nofun
      · trivial
  | poll late =>
    simp only [undisturbed, Bool.and_eq_true, Bool.not_eq_true', List.all_eq_true] at h
    obtain ⟨rfl, hseen⟩ := h
    have honline : ∀ m ∈ members, s.task m ≠ none → s.isOnline m = true := fun m hm htask =>
      ((Bool.or_eq_true _ _).mp (hseen m hm)).resolve_left fun hnone =>
        htask (isNone_iff_eq_none.1 hnone)
    unfold Careful CarefulPoll
    dsimp only
    split
    · exact fun _ => honline
    · exact fun _ => ⟨nofun, fun _ => honline⟩
    · trivial
  | resumeEngineUpgrade => exact fun _ => (Bool.not_eq_true' _).mp h
  | _ => trivial

def undisturbedRun (members : List Nat) (s : State) : List Step → Bool
  | [] => true
  | e :: steps => s.undisturbed members e && undisturbedRun members (s.step members e) steps

theorem careful_of_undisturbedRun (steps : List Step) (h : s.undisturbedRun members steps = true) :
    s.CarefulRun members steps := by
  induction steps generalizing s with
  | nil => trivial
  | cons e steps ih =>
    obtain ⟨he, hsteps⟩ := (Bool.and_eq_true _ _).mp h
    exact ⟨careful_of_undisturbed e he, ih hsteps⟩

/-- The upgrade of a store with two members: the controller stops in the second copy, the new
engine is not healthy, and the old one goes on with the metadata that was copied. -/
def rolledBackRun : List Step :=
  [.call .done, .call .done, .taskEnds 0, .poll false, .taskEnds 1, .poll false,
    .call .done, .save, .call .cut, .resumeEngineUpgrade, .call .done, .save, .call .done,
    .call .done, .call .done, .save, .taskStarts 0, .taskStarts 1, .call .failed,
    .call .done, .taskEnds 0, .taskEnds 1, .poll false, .call .done, .call .done, .call .done,
    .call .done, .save, .taskStarts 0, .taskStarts 1]

theorem promised_rolledBackRun :
    (start (fun _ => true) fun _ => true).PromisedRun [0, 1] rolledBackRun ∧
      (rolledBackRun.foldl (step [0, 1]) (start (fun _ => true) fun _ => true)).run.status =
        .rolledBack :=
  ⟨promised_of_carefulUpgrade [0, 1] _ _ _ (careful_of_undisturbedRun _ (by decide)), by decide⟩

/-- The member's agent disconnects, so that its task is not seen: the copy is made while it runs. -/
theorem not_promised_unseenTask :
    ¬ ∀ (members : List Nat) (task isOnline : Nat → Bool) (steps : List Step),
    (start task isOnline).PromisedRun members steps := by
  intro h
  have hrun := h [0] (fun _ => true) (fun _ => true)
    [.call .done, .agent 0 false, .call .done, .poll false, .call .done]
  have hkept := hrun.2.2.2.2.2.2.2.2.2.1
  have hstopped := hkept ⟨0, mem_singleton_self 0, not_mem_nil⟩ 0 (mem_singleton_self 0)
  cases hstopped

end State

end EngineUpgrade
