import Swarmy.Upgrade.Platform

/-!
# A platform that is upgraded

`promised_of_carefulPlatform`: where the controller that comes to the agents' step carries the
release's agents, agents and services stay on the target once the run has come to them, and a
failed step is retried while what it has recorded still holds, the steps are entered in order, a
run that is done has moved every agent and every system service, and a retried controller step
sends the update again.
-/

namespace PlatformUpgrade

open List Option Function

/-! ## The order of the steps -/

/-- Every step before the run's is done or skipped. -/
def RunState.Ordered (run : RunState) : Prop :=
  ∀ key ∈ STEP_ORDER.take (STEP_ORDER.idxOf run.step), (run.steps key).isOver = true

theorem idxOf_append_cons_le {α : Type} [DecidableEq α] (xs ys : List α) (a : α) :
    (xs ++ a :: ys).idxOf a ≤ xs.length := by
  induction xs with
  | nil => simp
  | cons x xs ih =>
    rw [cons_append, idxOf_cons]
    cases x == a with
    | true => exact Nat.zero_le _
    | false => exact Nat.succ_le_succ ih

theorem mem_stepOrder (key : StepKey) : key ∈ STEP_ORDER := by cases key <;> decide

theorem RunState.Ordered.next {run : RunState} (h : run.Ordered) {key : StepKey}
    (hnext : run.next = some key) :
    ∀ k ∈ STEP_ORDER.take (STEP_ORDER.idxOf key), (run.steps k).isOver = true := by
  obtain ⟨-, as, bs, hdrop, has⟩ := List.find?_eq_some_iff_append.1 hnext
  have hsplit : STEP_ORDER = (STEP_ORDER.take (STEP_ORDER.idxOf run.step) ++ as) ++ key :: bs := by
    rw [append_assoc, ← hdrop, take_append_drop]
  have hle := idxOf_append_cons_le (STEP_ORDER.take (STEP_ORDER.idxOf run.step) ++ as) bs key
  rw [← hsplit] at hle
  intro k hk
  have hmem : k ∈ STEP_ORDER.take (STEP_ORDER.idxOf run.step) ++ as := by
    rw [hsplit, take_append_of_le_length (by rwa [← hsplit])] at hk
    exact mem_of_mem_take hk
  rcases mem_append.1 hmem with hmem | hmem
  · exact h k hmem
  · simpa using has k hmem

theorem RunState.Ordered.all_over {run : RunState} (h : run.Ordered) (hnext : run.next = none)
    (key : StepKey) : (run.steps key).isOver = true := by
  have hmem := mem_stepOrder key
  rw [← take_append_drop (STEP_ORDER.idxOf run.step) STEP_ORDER] at hmem
  rcases mem_append.1 hmem with hmem | hmem
  · exact h key hmem
  · simpa using List.find?_eq_none.1 hnext key hmem

theorem notMem_take_idxOf (key : StepKey) : key ∉ STEP_ORDER.take (STEP_ORDER.idxOf key) := by
  cases key <;> decide

/-- The status of the run's own step does not matter. -/
theorem RunState.Ordered.setStep {run : RunState} (h : run.Ordered) (st : StepStatus) :
    (run.setStep run.step st).Ordered := by
  intro k hk
  have hne : k ≠ run.step := by
    rintro rfl
    exact notMem_take_idxOf _ hk
  rw [RunState.steps_setStep, if_neg hne]
  exact h k hk

namespace State

variable (up : Upgrade)

/-! ## The promise -/

/-- The agent last reported the build of the release, where the release carries one. -/
def OnRelease (s : State) (n : Nat) : Prop :=
  ∀ b, up.target.agentBuild = some b → isSameAgentBuild (s.builds n) b = true

/-- No system service is left to be updated, and every agent reports the build of the release. -/
def Moved (s : State) : Prop := plan up s.live = [] ∧ ∀ n ∈ s.nodes, s.OnRelease up n

/-- A step is entered when every step before it is over; the run is done when the platform has
moved; and a controller step that was retried sends the update, unless the controller runs the
target. -/
def Kept (s : State) : Step → Prop
  | .advance => match s.phase with
    | .loop => match s.run.next with
      | none => s.Moved up
      | some key => ∀ k ∈ STEP_ORDER.take (STEP_ORDER.idxOf key), (s.run.steps k).isOver = true
    | .controller => s.retried = true → controllerStepDecision (s.controllerInput up) = .dispatch ∨
        (s.controllerInput up).liveImage.bind digestOf = some (up.target.controller.getD []) ∨
          up.target.controller.getD [] = [] ∨ (s.controllerInput up).liveImage = none
    | _ => True
  | _ => True

def PromisedRun (s : State) : List Step → Prop
  | [] => True
  | e :: steps => s.Kept up e ∧ PromisedRun (s.step up e) steps

/-! ## The condition -/

/-- The controller hands out the agents of the release, where the release carries any. -/
def Current (s : State) : Prop :=
  ∀ b, up.target.agentBuild = some b → ∃ r, s.release = some r ∧ isSameAgentBuild r b = true

def Recorded (run : RunState) (n : Nat) : Prop :=
  run.nodes n = some .done ∨ run.nodes n = some .upgraded

/-- What a run has recorded still holds. -/
structure Entries (s : State) (run : RunState) : Prop where
  recorded : ∀ n, Recorded run n → s.OnRelease up n
  updated : ∀ u ∈ plan up s.live, u.service ∉ run.updated

/-- The step is rolled back, or failed and is not retried yet. -/
def Undoing (s : State) (key : StepKey) : Prop :=
  s.phase = .rollback key ∨ s.phase = .idle ∧ s.run.status = .failed ∧ s.run.step = key

/-- The agents' step has listed the nodes. -/
def Listed (s : State) : Prop :=
  (∃ todo, s.phase = .agents todo) ∨ (∃ n todo, s.phase = .agentsWait n todo) ∨
    (s.run.steps .agents).isOver = true

/-- The run is done with the agent, or with its node's turn. -/
def Counted (s : State) (n : Nat) : Prop :=
  ¬ s.Undoing .agents ∧ Recorded s.run n ∨ s.Listed ∧ n ∈ s.nodes

/-- The system step has planned its updates. -/
def Planned (s : State) : Prop :=
  (∃ todo, s.phase = .system todo) ∨ (s.run.steps .system).isOver = true

/-- No service is selected anew that the run is done with. -/
def Steady (s : State) (live : List LiveService) : Prop :=
  ∀ u ∈ plan up live, s.Planned ∨ u.service ∈ s.run.updated →
    ∃ v ∈ plan up s.live, v.service = u.service

/-- The condition on a step: nodes that join after the agents' step listed them report the release's
build, and agents that the run is done with keep reporting it; services that it is done with are not
selected anew, and an update that landed takes its service off the plan; the controller that comes
to the agents' step hands out the release's agents; and the controller's step is only retried
without a dispatch on record, the agents' and the system step while what the run has recorded still
holds, as it does when the controller stops in a rollback. -/
def Careful (s : State) : Step → Prop
  | .node id there => there = true → s.Listed → s.OnRelease up id
  | .agent id (some build) => s.Counted id → s.OnRelease up id →
      ∀ b, up.target.agentBuild = some b → isSameAgentBuild build b = true
  | .inventory live _ => ¬ s.Undoing .system → s.Steady up live
  | .restart _ _ => ∀ key, s.phase = .rollback key → s.Entries up s.saved
  | .call outcome live => match s.phase with
    | .send => outcome = .done → s.Steady up live
    | .system (u :: _) => outcome = .done → ∀ v ∈ plan up live,
        v.service ≠ u.service ∧ ∃ w ∈ plan up s.live, w.service = v.service
    | .rollback key => key ≠ .system → s.Steady up live
    | _ => True
  | .advance => s.phase = .loop → s.run.next = some .agents → s.Current up
  | .retry => (s.saved.step = .controller → s.saved.dispatchedAt = none) ∧
      (s.saved.step = .agents ∨ s.saved.step = .system → s.Entries up s.saved)
  | _ => True

def CarefulRun (s : State) : List Step → Prop
  | [] => True
  | e :: steps => s.Careful up e ∧ CarefulRun (s.step up e) steps

/-! ## The invariant -/

/-- Does the driver go on from here? -/
def Phase.isDriving : Phase → Bool
  | .idle | .rollback _ => false
  | _ => true

/-- What holds at a phase. -/
def At (s : State) : Phase → Prop
  | .idle | .rollback _ | .loop => True
  | .handler key => s.run.step = key ∧ key ≠ .agents ∧ key ≠ .system
  | .controller | .send => s.run.step = .controller
  | .agents todo => (s.run.step = .agents ∧ (s.run.steps .agents).isOver = false ∧ s.Current up) ∧
      ∀ n ∈ s.nodes, s.OnRelease up n ∨ n ∈ todo
  | .agentsWait n todo =>
      (s.run.step = .agents ∧ (s.run.steps .agents).isOver = false ∧ s.Current up) ∧
      ∀ m ∈ s.nodes, s.OnRelease up m ∨ m = n ∨ m ∈ todo
  | .system todo => (s.run.step = .system ∧ (s.run.steps .system).isOver = false) ∧
      ∀ u ∈ plan up s.live, ∃ v ∈ todo, v.service = u.service

/-- What is saved is not ahead of the run. -/
structure Behind (s : State) : Prop where
  steps : ∀ k, (s.saved.steps k).isOver = true → (s.run.steps k).isOver = true
  nodes : ∀ n, Recorded s.saved n → Recorded s.run n
  updated : ∀ x ∈ s.saved.updated, x ∈ s.run.updated

/-- What the run has done still holds, but for a step that is undone. -/
structure Holds (s : State) : Prop where
  recorded : ¬ s.Undoing .agents → ∀ n, Recorded s.run n → s.OnRelease up n
  updated : ¬ s.Undoing .system → ∀ u ∈ plan up s.live, u.service ∉ s.run.updated
  agents : (s.run.steps .agents).isOver = true → ∀ n ∈ s.nodes, s.OnRelease up n
  system : ¬ s.Undoing .system → (s.run.steps .system).isOver = true → plan up s.live = []

structure Inv (s : State) : Prop where
  saved : s.saved.Ordered
  run : s.run.Ordered
  idle : s.phase = .idle → s.run = s.saved
  rollback : ∀ key, s.phase = .rollback key → s.run.step = key
  behind : s.Behind
  holds : s.Holds up
  at_ : s.At up s.phase
  retried : s.retried = true → s.saved.dispatchedAt = none ∧ s.run.dispatchedAt = none

variable {up} {s : State}

/-! ## Parts of steps -/

theorem isSameAgentBuild_trans {a b c : AgentBuild} (hab : isSameAgentBuild a b = true)
    (hbc : isSameAgentBuild b c = true) : isSameAgentBuild a c = true := by
  unfold isSameAgentBuild at *
  grind

/-- An agent that reports what a controller of the release hands out reports the release's build. -/
theorem Current.onRelease (h : s.Current up) {n : Nat} (hn : s.isUpToDate n = true) :
    s.OnRelease up n := by
  intro b hb
  obtain ⟨r, hr, hsame⟩ := h b hb
  have hbuild : isSameAgentBuild (s.builds n) r = true := by
    unfold isUpToDate agentBuildFor at hn
    rw [hr] at hn
    split at hn
    · simpa using hn
    · simp at hn
  exact isSameAgentBuild_trans hbuild hsame

/-- Without agents to hand out the release carries none. -/
theorem Current.of_none (h : s.Current up) (hnone : s.release = none) (n : Nat) :
    s.OnRelease up n := by
  intro b hb
  obtain ⟨r, hr, -⟩ := h b hb
  exact absurd (hnone.symm.trans hr) nofun

theorem not_undoing (hd : Phase.isDriving s.phase = true) (key : StepKey) : ¬ s.Undoing key := by
  rintro (hphase | ⟨hphase, -⟩) <;> rw [hphase] at hd <;> cases hd

/-- What an inventory that is steady leaves of the plan. -/
theorem Steady.updated {live : List LiveService} (h : s.Steady up live)
    (hold : ∀ u ∈ plan up s.live, u.service ∉ s.run.updated) :
    ∀ u ∈ plan up live, u.service ∉ s.run.updated := by
  intro u hu hmem
  obtain ⟨v, hv, heq⟩ := h u hu (.inr hmem)
  rw [← heq] at hmem
  exact hold v hv hmem

theorem Steady.nil {live : List LiveService} (h : s.Steady up live)
    (hover : (s.run.steps .system).isOver = true) (hold : plan up s.live = []) :
    plan up live = [] := by
  refine eq_nil_iff_forall_not_mem.2 fun u hu => ?_
  obtain ⟨v, hv, -⟩ := h u hu (.inl (.inr hover))
  rw [hold] at hv
  cases hv

theorem behind_of_eq (h : s.saved = s.run) : s.Behind :=
  ⟨fun _ hk => h ▸ hk, fun _ hn => h ▸ hn, fun _ hx => h ▸ hx⟩

/-- The status of a step is set. -/
theorem Holds.setStep {s' : State} (h : s.Holds up) (hd : Phase.isDriving s.phase = true)
    (key : StepKey) (st : StepStatus) (hrun : s'.run.steps = (s.run.setStep key st).steps)
    (hnodes : s'.run.nodes = s.run.nodes) (hupdated : s'.run.updated = s.run.updated)
    (hbuilds : s'.builds = s.builds) (hlisted : s'.nodes = s.nodes) (hlive : s'.live = s.live)
    (hagents : key = .agents → st.isOver = true → ∀ n ∈ s.nodes, s.OnRelease up n)
    (hsystem : key = .system → st.isOver = true → plan up s.live = []) : s'.Holds up where
  recorded _ n hn := by
    unfold OnRelease Recorded at *
    rw [hnodes] at hn
    rw [hbuilds]
    exact h.recorded (not_undoing hd _) n hn
  updated _ := by
    rw [hlive, hupdated]
    exact h.updated (not_undoing hd _)
  agents hover := by
    unfold OnRelease at *
    rw [hlisted, hbuilds]
    rw [hrun, RunState.steps_setStep] at hover
    split at hover
    · rename_i hkey
      exact hagents hkey.symm hover
    · exact h.agents hover
  system _ hover := by
    rw [hlive]
    rw [hrun, RunState.steps_setStep] at hover
    split at hover
    · rename_i hkey
      exact hsystem hkey.symm hover
    · exact h.system (not_undoing hd _) hover

/-- What the driver's phase does not matter for. -/
theorem Holds.of_driving {s' : State} (h : s.Holds up) (hd : Phase.isDriving s.phase = true)
    (hrun : s'.run = s.run) (hbuilds : s'.builds = s.builds) (hnodes : s'.nodes = s.nodes)
    (hlive : s'.live = s.live) : s'.Holds up := by
  refine h.setStep hd .preflight (s.run.steps .preflight) ?_ ?_ ?_ hbuilds hnodes hlive
    nofun nofun
  · rw [hrun]
    exact (update_eq_self .preflight s.run.steps).symm
  · rw [hrun]
  · rw [hrun]

theorem Inv.finishStep (h : s.Inv up) (hd : Phase.isDriving s.phase = true) {key : StepKey}
    (hkey : s.run.step = key) (st : StepStatus) {phase : Phase}
    (hphase : phase = .loop ∨ phase = .idle)
    (hagents : key = .agents → st.isOver = true → ∀ n ∈ s.nodes, s.OnRelease up n)
    (hsystem : key = .system → st.isOver = true → plan up s.live = []) :
    (s.finishStep key st phase).Inv up where
  saved := hkey ▸ h.run.setStep st
  run := hkey ▸ h.run.setStep st
  idle _ := rfl
  rollback k hk := by rcases hphase with rfl | rfl <;> cases hk
  behind := behind_of_eq rfl
  holds := h.holds.setStep hd _ _ rfl rfl rfl rfl rfl rfl hagents hsystem
  at_ := by rcases hphase with rfl | rfl <;> exact trivial
  retried hr := ⟨(h.retried hr).2, (h.retried hr).2⟩

/-- A step of the two that have a rollback fails. -/
theorem Inv.toRollback (h : s.Inv up) (hd : Phase.isDriving s.phase = true) {key : StepKey}
    (hkey : s.run.step = key) (hover : (s.run.steps key).isOver = false) :
    Inv up { s with run := s.run.setStep key .failed, phase := .rollback key } where
  saved := h.saved
  run := hkey ▸ h.run.setStep .failed
  idle := nofun
  rollback k hk := by
    injection hk with hk
    exact hkey.trans hk
  behind := by
    refine ⟨fun k hk => ?_, h.behind.nodes, h.behind.updated⟩
    have hrun := h.behind.steps k hk
    show ((s.run.setStep key .failed).steps k).isOver = true
    rw [RunState.steps_setStep, if_neg]
    · exact hrun
    · rintro rfl
      exact absurd (hover.symm.trans hrun) nofun
  holds := h.holds.setStep hd _ _ rfl rfl rfl rfl rfl rfl nofun nofun
  at_ := trivial
  retried := h.retried

theorem Inv.failStep (h : s.Inv up) (hd : Phase.isDriving s.phase = true) {key : StepKey}
    (hkey : s.run.step = key)
    (hover : key = .agents ∨ key = .system → (s.run.steps key).isOver = false) :
    (s.failStep key).Inv up := by
  unfold State.failStep
  split
  · rename_i hwhich
    exact h.toRollback hd hkey (hover hwhich)
  · exact
      { saved := hkey ▸ h.run.setStep .failed
        run := hkey ▸ h.run.setStep .failed
        idle := fun _ => rfl
        rollback := nofun
        behind := behind_of_eq rfl
        holds := h.holds.setStep hd _ _ rfl rfl rfl rfl rfl rfl nofun nofun
        at_ := trivial
        retried := fun hr => ⟨(h.retried hr).2, (h.retried hr).2⟩ }

theorem Inv.enterStep (h : s.Inv up) (hd : Phase.isDriving s.phase = true) {key : StepKey}
    (hnext : s.run.next = some key) (hcurrent : key = .agents → s.Current up) :
    (s.enterStep up key).Inv up := by
  have hordered : (s.enterStep up key).run.Ordered := by
    intro k hk
    have hne : k ≠ key := by
      rintro rfl
      exact notMem_take_idxOf _ hk
    show ((s.run.setStep key .running).steps k).isOver = true
    rw [RunState.steps_setStep, if_neg hne]
    exact h.run.next hnext k hk
  have hover : ((s.enterStep up key).run.steps key).isOver = false := by
    show ((s.run.setStep key .running).steps key).isOver = false
    rw [RunState.steps_setStep, if_pos rfl]
    rfl
  have hat : (s.enterStep up key).At up (s.enterPhase up key) := by
    cases key with
    | preflight | engines | verify => exact ⟨rfl, nofun, nofun⟩
    | controller => exact rfl
    | agents => exact ⟨⟨rfl, hover, hcurrent rfl⟩, fun n hn => .inr hn⟩
    | system =>
      refine ⟨⟨rfl, hover⟩, fun u hu => ⟨u, mem_filter.2 ⟨hu, ?_⟩, rfl⟩⟩
      simpa using h.holds.updated (not_undoing hd _) u hu
  exact
    { saved := hordered
      run := hordered
      idle := fun _ => rfl
      rollback := by
        intro k hk
        cases key <;> cases hk
      behind := behind_of_eq rfl
      holds := h.holds.setStep hd _ _ rfl rfl rfl rfl rfl rfl nofun nofun
      at_ := hat
      retried := fun hr => ⟨(h.retried hr).2, (h.retried hr).2⟩ }

/-- The driver goes on, with the same run. -/
theorem Inv.goTo (h : s.Inv up) (hd : Phase.isDriving s.phase = true) {phase : Phase}
    (hphase : Phase.isDriving phase = true) (hat : s.At up phase) : (s.goTo phase).Inv up where
  saved := h.saved
  run := h.run
  idle hidle := by
    rw [show phase = .idle from hidle] at hphase
    cases hphase
  rollback k hk := by
    rw [show phase = .rollback k from hk] at hphase
    cases hphase
  behind := ⟨h.behind.1, h.behind.2, h.behind.3⟩
  holds := h.holds.of_driving hd rfl rfl rfl rfl
  at_ := by cases phase <;> exact hat
  retried := h.retried

theorem Inv.checkpoint (h : s.Inv up) (hd : Phase.isDriving s.phase = true) :
    s.checkpoint.Inv up where
  saved := h.run
  run := h.run
  idle _ := rfl
  rollback := h.rollback
  behind := behind_of_eq rfl
  holds := h.holds.of_driving hd rfl rfl rfl rfl
  at_ := by
    have hat := h.at_
    show s.checkpoint.At up s.phase
    cases hp : s.phase <;> (rw [hp] at hat; exact hat)
  retried hr := ⟨(h.retried hr).2, (h.retried hr).2⟩

/-- A node's progress is recorded. -/
theorem Inv.setNode (h : s.Inv up) (hd : Phase.isDriving s.phase = true) {n : Nat}
    {p : NodeProgress}
    (hp : p = .dispatched ∧ ¬ Recorded s.run n ∨ p ≠ .dispatched ∧ s.OnRelease up n) :
    (s.setNode n p).Inv up := by
  have hother {m : Nat} (hm : m ≠ n) : Recorded (s.setNode n p).run m ↔ Recorded s.run m := by
    unfold Recorded State.setNode
    simp only [update_of_ne hm]
  have hself : Recorded (s.setNode n p).run n ↔ p ≠ .dispatched := by
    unfold Recorded State.setNode
    simp only [update_self]
    cases p <;> simp
  refine
    { saved := h.saved
      run := h.run
      idle := fun hidle => ?_
      rollback := h.rollback
      behind := ⟨h.behind.steps, fun m hm => ?_, h.behind.updated⟩
      holds := ⟨fun _ m hm => ?_, fun _ => h.holds.updated (not_undoing hd _), h.holds.agents,
        fun _ => h.holds.system (not_undoing hd _)⟩
      at_ := ?_
      retried := h.retried }
  · rw [show s.phase = .idle from hidle] at hd
    cases hd
  · have hrun := h.behind.nodes m hm
    by_cases heq : m = n
    · subst heq
      rcases hp with ⟨-, hnot⟩ | ⟨hp, -⟩
      · exact absurd hrun hnot
      · exact hself.2 hp
    · exact (hother heq).2 hrun
  · by_cases heq : m = n
    · subst heq
      exact (hp.resolve_left fun hno => hself.1 hm hno.1).2
    · exact h.holds.recorded (not_undoing hd _) m ((hother heq).1 hm)
  · have hat := h.at_
    show (s.setNode n p).At up s.phase
    cases hp : s.phase <;> (rw [hp] at hat; exact hat)

/-! ## Steps of others -/

/-- What a step that leaves the run and the driver alone has to keep. -/
theorem Inv.of_frame {s' : State} (h : s.Inv up) (hrun : s'.run = s.run)
    (hsaved : s'.saved = s.saved)
    (hphase : s'.phase = s.phase) (hretried : s'.retried = s.retried) (hholds : s'.Holds up)
    (hat : s'.At up s.phase) : s'.Inv up where
  saved := hsaved ▸ h.saved
  run := hrun ▸ h.run
  idle hidle := by
    rw [hrun, hsaved]
    exact h.idle (hphase ▸ hidle)
  rollback k hk := hrun ▸ h.rollback k (hphase ▸ hk)
  behind := by
    refine ⟨fun k hk => ?_, fun n hn => ?_, fun x hx => ?_⟩
    · rw [hsaved] at hk
      rw [hrun]
      exact h.behind.steps k hk
    · rw [hsaved] at hn
      rw [hrun]
      exact h.behind.nodes n hn
    · rw [hsaved] at hx
      rw [hrun]
      exact h.behind.updated x hx
  holds := hholds
  at_ := hphase ▸ hat
  retried hr := by
    rw [hrun, hsaved]
    exact h.retried (hretried ▸ hr)

theorem Inv.node (h : s.Inv up) {id : Nat} {there : Bool} (hc : s.Careful up (.node id there)) :
    (s.step up (.node id there)).Inv up := by
  have hmem {n : Nat} (hlisted : s.Listed)
      (hn : n ∈ if there then s.nodes ++ [id] else s.nodes.filter (· ≠ id)) :
      n ∈ s.nodes ∨ s.OnRelease up n := by
    split at hn
    · rename_i hthere
      rcases mem_append.1 hn with hn | hn
      · exact .inl hn
      · rw [mem_singleton.1 hn]
        exact .inr (hc hthere hlisted)
    · exact .inl (mem_of_mem_filter hn)
  refine h.of_frame rfl rfl rfl rfl ⟨h.holds.recorded, h.holds.updated, fun hover n hn => ?_,
    h.holds.system⟩ ?_
  · exact (hmem (.inr (.inr hover)) hn).elim (h.holds.agents hover n) fun hon => hon
  · have hat := h.at_
    cases hp : s.phase with
    | agents todo =>
      rw [hp] at hat
      refine ⟨hat.1, fun n hn => ?_⟩
      exact (hmem (.inl ⟨todo, hp⟩) hn).elim (hat.2 n) .inl
    | agentsWait m todo =>
      rw [hp] at hat
      refine ⟨hat.1, fun n hn => ?_⟩
      exact (hmem (.inr (.inl ⟨m, todo, hp⟩)) hn).elim (hat.2 n) .inl
    | _ =>
      rw [hp] at hat
      exact hat

theorem Inv.agent (h : s.Inv up) {id : Nat} {build : AgentBuild}
    (hc : s.Careful up (.agent id (some build))) : (s.step up (.agent id (some build))).Inv up := by
  have hkeep {n : Nat} (hcounted : s.Counted n) (hn : s.OnRelease up n) :
      (s.step up (.agent id (some build))).OnRelease up n := by
    intro b hb
    show isSameAgentBuild (update s.builds id build n) b = true
    rw [update_apply]
    split
    · rename_i heq
      exact hc (heq ▸ hcounted) (heq ▸ hn) b hb
    · exact hn b hb
  refine h.of_frame rfl rfl rfl rfl ⟨fun hnot n hn => ?_, h.holds.updated, fun hover n hn => ?_,
    h.holds.system⟩ ?_
  · exact hkeep (.inl ⟨hnot, hn⟩) (h.holds.recorded hnot n hn)
  · exact hkeep (.inr ⟨.inr (.inr hover), hn⟩) (h.holds.agents hover n hn)
  · have hat := h.at_
    cases hp : s.phase with
    | agents todo =>
      rw [hp] at hat
      exact ⟨hat.1, fun n hn => (hat.2 n hn).imp_left (hkeep (.inr ⟨.inl ⟨todo, hp⟩, hn⟩))⟩
    | agentsWait m todo =>
      rw [hp] at hat
      exact ⟨hat.1, fun n hn => (hat.2 n hn).imp_left
        (hkeep (.inr ⟨.inr (.inl ⟨m, todo, hp⟩), hn⟩))⟩
    | _ =>
      rw [hp] at hat
      exact hat

/-- Another inventory. -/
theorem Inv.live (h : s.Inv up) {live : List LiveService} {ready : Bool}
    (hc : ¬ s.Undoing .system → s.Steady up live) :
    Inv up { s with live, inventoryReady := ready } := by
  refine h.of_frame rfl rfl rfl rfl ⟨h.holds.recorded,
    fun hu => (hc hu).updated (h.holds.updated hu),
    h.holds.agents, fun hu hover => (hc hu).nil hover (h.holds.system hu hover)⟩ ?_
  have hat := h.at_
  cases hp : s.phase with
  | system todo =>
    rw [hp] at hat
    refine ⟨hat.1, fun u hu => ?_⟩
    have hd : Phase.isDriving s.phase = true := by rw [hp]; rfl
    obtain ⟨v, hv, heq⟩ := hc (not_undoing hd _) u hu (.inl (.inl ⟨todo, hp⟩))
    obtain ⟨w, hw, hweq⟩ := hat.2 v hv
    exact ⟨w, hw, hweq.trans heq⟩
  | _ =>
    rw [hp] at hat
    exact hat

theorem plan_nil : plan up [] = [] := by simp [plan, planSystemUpdates]

theorem Inv.restart (h : s.Inv up) {selfCommit : Option Text} {release : Option AgentBuild}
    (hc : s.Careful up (.restart selfCommit release)) :
    (s.step up (.restart selfCommit release)).Inv up where
  saved := h.saved
  run := h.saved
  idle _ := rfl
  rollback := nofun
  behind := behind_of_eq rfl
  holds := by
    refine ⟨fun hnot n hn => ?_, fun _ u hu => ?_, fun hover n hn => ?_, fun _ _ => plan_nil⟩
    · by_cases hu : s.Undoing .agents
      case neg => exact h.holds.recorded hu n (h.behind.nodes n hn)
      case pos =>
        rcases hu with hback | ⟨hidle, hfailed, hstep⟩
        · exact (hc _ hback).recorded n hn
        · rw [h.idle hidle] at hfailed hstep
          exact absurd (.inr ⟨rfl, hfailed, hstep⟩) hnot
    · exact absurd ((plan_nil : plan up [] = []) ▸ hu) not_mem_nil
    · exact h.holds.agents (h.behind.steps _ hover) n hn
  at_ := trivial
  retried hr := ⟨(h.retried hr).1, (h.retried hr).1⟩

theorem Inv.drive (h : s.Inv up) : (s.step up .drive).Inv up := by
  show Inv up (if _ then _ else _)
  split
  · rename_i hidle
    have hrun := h.idle hidle.1
    have hnot (key : StepKey) : ¬ s.Undoing key := by
      rintro (hback | ⟨-, hfailed, -⟩)
      · exact absurd (hidle.1.symm.trans hback) nofun
      · rw [hrun, hidle.2] at hfailed
        cases hfailed
    refine
      { saved := h.saved
        run := h.saved
        idle := nofun
        rollback := nofun
        behind := behind_of_eq rfl
        holds := ⟨fun _ n hn => ?_, fun _ => ?_, fun hover => ?_, fun _ hover => ?_⟩
        at_ := trivial
        retried := fun hr => ⟨(h.retried hr).1, (h.retried hr).1⟩ }
    · exact h.holds.recorded (hnot _) n (hrun ▸ hn)
    · have hold := h.holds.updated (hnot _)
      rw [hrun] at hold
      exact hold
    · exact h.holds.agents (hrun ▸ hover)
    · exact h.holds.system (hnot _) (hrun ▸ hover)
  · exact h

theorem Inv.retry (h : s.Inv up) (hc : s.Careful up .retry) : (s.step up .retry).Inv up := by
  show Inv up (if _ then _ else _)
  split
  · rename_i hidle
    have hrun := h.idle hidle.1
    have hundoing {key : StepKey} (hu : s.Undoing key) : s.saved.step = key := by
      rcases hu with hback | ⟨-, -, hstep⟩
      · exact absurd (hidle.1.symm.trans hback) nofun
      · exact hrun ▸ hstep
    have hentries {key : StepKey} (hkey : key = .agents ∨ key = .system) (hu : s.Undoing key) :
        s.Entries up s.saved :=
      hc.2 (hkey.imp (hundoing hu).trans (hundoing hu).trans)
    have hover {key : StepKey} (hkey : ((retryRun s.saved).steps key).isOver = true) :
        (s.run.steps key).isOver = true ∧ s.saved.step ≠ key := by
      have hsteps := RunState.steps_setStep s.saved s.saved.step key .pending
      rw [show (retryRun s.saved).steps = (s.saved.setStep s.saved.step .pending).steps from rfl,
        hsteps] at hkey
      split at hkey
      · cases hkey
      · rename_i hne
        exact ⟨hrun ▸ hkey, fun heq => hne heq.symm⟩
    refine
      { saved := h.saved.setStep .pending
        run := h.saved.setStep .pending
        idle := fun _ => rfl
        rollback := fun k hk => absurd (hidle.1.symm.trans hk) nofun
        behind := behind_of_eq rfl
        holds := ⟨fun _ n hn => ?_, fun _ => ?_, fun hkey => ?_, fun _ hkey => ?_⟩
        at_ := ?_
        retried := fun hr => ?_ }
    · by_cases hu : s.Undoing .agents
      · exact (hentries (.inl rfl) hu).recorded n hn
      · exact h.holds.recorded hu n (hrun ▸ hn)
    · by_cases hu : s.Undoing .system
      · exact (hentries (.inr rfl) hu).updated
      · have hold := h.holds.updated hu
        rw [hrun] at hold
        exact hold
    · exact h.holds.agents (hover hkey).1
    · exact h.holds.system (fun hu => (hover hkey).2 (hundoing hu)) (hover hkey).1
    · show At up _ s.phase
      rw [hidle.1]
      exact trivial
    · have hnone := hc.1 (of_decide_eq_true hr)
      exact ⟨hnone, hnone⟩
  · exact h

/-! ## Steps of the run -/

theorem Inv.advance (h : s.Inv up) (hc : s.Careful up .advance) : (s.advance up).Inv up := by
  have hat := h.at_
  unfold State.advance
  cases hp : s.phase with
  | loop =>
    have hd : Phase.isDriving s.phase = true := by rw [hp]; rfl
    dsimp only
    split
    · exact
        { saved := h.run
          run := h.run
          idle := fun _ => rfl
          rollback := nofun
          behind := behind_of_eq rfl
          holds := ⟨fun _ => h.holds.recorded (not_undoing hd _),
            fun _ => h.holds.updated (not_undoing hd _), h.holds.agents,
            fun _ => h.holds.system (not_undoing hd _)⟩
          at_ := trivial
          retried := fun hr => ⟨(h.retried hr).2, (h.retried hr).2⟩ }
    · rename_i key hnext
      exact h.enterStep hd hnext fun hkey => hc hp (hkey ▸ hnext)
  | controller =>
    have hd : Phase.isDriving s.phase = true := by rw [hp]; rfl
    rw [hp] at hat
    dsimp only
    split
    · exact h.finishStep hd hat _ (.inl rfl) nofun nofun
    · exact h.finishStep hd hat _ (.inl rfl) nofun nofun
    · exact h.finishStep hd hat _ (.inr rfl) nofun nofun
    · exact h.failStep hd hat (by simp)
    · exact
        { saved := h.run
          run := h.run
          idle := nofun
          rollback := nofun
          behind := behind_of_eq rfl
          holds := ⟨fun _ => h.holds.recorded (not_undoing hd _),
            fun _ => h.holds.updated (not_undoing hd _), h.holds.agents,
            fun _ => h.holds.system (not_undoing hd _)⟩
          at_ := hat
          retried := nofun }
  | agents todo =>
    have hd : Phase.isDriving s.phase = true := by rw [hp]; rfl
    rw [hp] at hat
    obtain ⟨⟨hstep, hover, hcurrent⟩, hall⟩ := hat
    cases todo with
    | nil =>
      refine h.finishStep hd hstep _ (.inl rfl) (fun _ _ n hn => ?_) nofun
      exact (hall n hn).resolve_right not_mem_nil
    | cons n todo =>
      have hrest (hn : s.OnRelease up n) : s.At up (.agents todo) := by
        refine ⟨⟨hstep, hover, hcurrent⟩, fun m hm => ?_⟩
        rcases hall m hm with hm | hm
        · exact .inl hm
        · rcases mem_cons.1 hm with rfl | hm
          · exact .inl hn
          · exact .inr hm
      dsimp only
      split
      · rename_i hnone
        exact h.finishStep hd hstep _ (.inl rfl) (fun _ _ m _ => hcurrent.of_none hnone m) nofun
      · split
        · rename_i hnode
          exact h.goTo hd rfl (hrest (h.holds.recorded (not_undoing hd _) n (.inl hnode)))
        · rename_i hnode
          exact h.goTo hd rfl (hrest (h.holds.recorded (not_undoing hd _) n (.inr hnode)))
        · have hwait : s.At up (.agentsWait n todo) :=
            ⟨⟨hstep, hover, hcurrent⟩, fun m hm => (hall m hm).imp_right mem_cons.1⟩
          exact h.goTo hd rfl hwait
        · split
          · rename_i hr
            have hon := hcurrent.onRelease hr
            exact (h.setNode hd (p := .done) (.inr ⟨by simp, hon⟩)).goTo hd rfl (hrest hon)
          · split
            · exact h
            · exact h.failStep hd hstep fun _ => hover
  | system todo =>
    have hd : Phase.isDriving s.phase = true := by rw [hp]; rfl
    rw [hp] at hat
    cases todo with
    | nil =>
      refine h.finishStep hd hat.1.1 _ (.inl rfl) nofun fun _ _ => ?_
      refine eq_nil_iff_forall_not_mem.2 fun u hu => ?_
      obtain ⟨v, hv, -⟩ := hat.2 u hu
      cases hv
    | cons u todo => exact h
  | _ => exact h

/-- An update of the system step that landed. -/
theorem Inv.landed (h : s.Inv up) {u : SystemServiceUpdate} {todo : List SystemServiceUpdate}
    (hp : s.phase = .system (u :: todo)) {live : List LiveService}
    (hplan : ∀ v ∈ plan up live, v.service ≠ u.service ∧
      ∃ w ∈ plan up s.live, w.service = v.service) :
    Inv up ({ s with live, run := { s.run with updated := s.run.updated ++
      [u.service] } }.checkpoint.goTo
      (.system todo)) := by
  have hd : Phase.isDriving s.phase = true := by rw [hp]; rfl
  have hat := h.at_
  rw [hp] at hat
  refine
    { saved := h.run
      run := h.run
      idle := nofun
      rollback := nofun
      behind := behind_of_eq rfl
      holds := ⟨fun _ => h.holds.recorded (not_undoing hd _), fun _ v hv hmem => ?_, h.holds.agents,
        fun _ hover => absurd (hat.1.2.symm.trans hover) nofun⟩
      at_ := ⟨hat.1, fun v hv => ?_⟩
      retried := fun hr => ⟨(h.retried hr).2, (h.retried hr).2⟩ }
  · rcases mem_append.1 hmem with hmem | hmem
    · obtain ⟨w, hw, heq⟩ := (hplan v hv).2
      rw [← heq] at hmem
      exact h.holds.updated (not_undoing hd _) w hw hmem
    · exact (hplan v hv).1 (mem_singleton.1 hmem)
  · obtain ⟨w, hw, heq⟩ := (hplan v hv).2
    obtain ⟨x, hx, hxeq⟩ := hat.2 w hw
    rcases mem_cons.1 hx with rfl | hx
    · exact absurd (hxeq.trans heq).symm (hplan v hv).1
    · exact ⟨x, hx, hxeq.trans heq⟩

/-- The end of a rollback. -/
theorem Inv.rolledBack (h : s.Inv up) {key : StepKey} (hp : s.phase = .rollback key)
    {live : List LiveService} (hc : key ≠ .system → s.Steady up live) (st : StepStatus)
    (hst : st.isOver = false) : Inv up
      { s with
        live, phase := .idle, run := { s.run.setStep key st with status := .failed }
        saved := { s.run.setStep key st with status := .failed } } := by
  have hkey := h.rollback key hp
  have hordered : (s.run.setStep key st).Ordered := hkey ▸ h.run.setStep st
  have hother {k : StepKey} (hk : k ≠ key) : ¬ s.Undoing k := by
    rintro (hback | ⟨hidle, -⟩)
    · exact hk (Phase.rollback.inj (hback.symm.trans hp))
    · exact absurd (hp.symm.trans hidle) nofun
  have hover {k : StepKey} (hk : ((s.run.setStep key st).steps k).isOver = true) :
      (s.run.steps k).isOver = true ∧ k ≠ key := by
    rw [RunState.steps_setStep] at hk
    split at hk
    · exact absurd (hst.symm.trans hk) nofun
    · rename_i hne
      exact ⟨hk, hne⟩
  have hself {k : StepKey} (hnot : ¬ Undoing
      { s with
        live, phase := .idle, run := { s.run.setStep key st with status := .failed }
        saved := { s.run.setStep key st with status := .failed } } k) : k ≠ key := by
    rintro rfl
    exact hnot (.inr ⟨rfl, rfl, hkey⟩)
  refine
    { saved := hordered
      run := hordered
      idle := fun _ => rfl
      rollback := nofun
      behind := behind_of_eq rfl
      holds := ⟨fun hnot => ?_, fun hnot => ?_, fun hk => ?_, fun hnot hk => ?_⟩
      at_ := trivial
      retried := fun hr => ⟨(h.retried hr).2, (h.retried hr).2⟩ }
  · exact h.holds.recorded (hother (hself hnot))
  · have hne := hself hnot
    exact (hc hne.symm).updated (h.holds.updated (hother hne))
  · exact h.holds.agents (hover hk).1
  · obtain ⟨hk, hne⟩ := hover hk
    exact (hc hne.symm).nil hk (h.holds.system (hother hne) hk)

theorem Inv.call (h : s.Inv up) {outcome : Outcome} {live : List LiveService}
    (hc : s.Careful up (.call outcome live)) : (s.call outcome live).Inv up := by
  have hat := h.at_
  unfold Careful at hc
  unfold State.call
  cases hp : s.phase with
  | handler key =>
    have hd : Phase.isDriving s.phase = true := by rw [hp]; rfl
    rw [hp] at hat
    have hover {st : StepStatus} : (s.finishStep key st .loop).Inv up :=
      h.finishStep hd hat.1 st (.inl rfl) (fun hkey => absurd hkey hat.2.1)
        fun hkey => absurd hkey hat.2.2
    have hfail : (s.failStep key).Inv up := h.failStep hd hat.1 fun hkey =>
      hkey.elim (fun hkey => absurd hkey hat.2.1) fun hkey => absurd hkey hat.2.2
    cases outcome with
    | done => exact hover
    | skipped =>
      dsimp only
      split
      · exact hover
      · exact hfail
    | refused | failed => exact hfail
  | send =>
    have hd : Phase.isDriving s.phase = true := by rw [hp]; rfl
    rw [hp] at hat hc
    cases outcome with
    | done =>
      have hlive : Inv up { s with live } := h.live fun _ => hc rfl
      exact hlive.finishStep hd hat _ (.inr rfl) nofun nofun
    | refused =>
      have hnone : Inv up { s with run := { s.run with dispatchedAt := none } } :=
        { saved := h.saved
          run := h.run
          idle := fun hidle => absurd (hp.symm.trans hidle) nofun
          rollback := h.rollback
          behind := ⟨h.behind.1, h.behind.2, h.behind.3⟩
          holds := ⟨fun _ => h.holds.recorded (not_undoing hd _),
            fun _ => h.holds.updated (not_undoing hd _), h.holds.agents,
            fun _ => h.holds.system (not_undoing hd _)⟩
          at_ := by
            show At up _ s.phase
            rw [hp]
            exact hat
          retried := fun hr => ⟨(h.retried hr).1, rfl⟩ }
      exact hnone.failStep hd hat (by simp)
    | failed | skipped => exact h.failStep hd hat (by simp)
  | agents todo =>
    have hd : Phase.isDriving s.phase = true := by rw [hp]; rfl
    rw [hp] at hat
    obtain ⟨⟨hstep, hover, hcurrent⟩, hall⟩ := hat
    cases todo with
    | nil => exact h
    | cons n todo =>
      dsimp only
      split
      · rename_i hwhy
        cases outcome with
        | done =>
          have hwait : s.At up (.agentsWait n todo) :=
            ⟨⟨hstep, hover, hcurrent⟩, fun m hm => (hall m hm).imp_right mem_cons.1⟩
          have hnot : ¬ Recorded s.run n := by
            rintro (hn | hn) <;> rw [hwhy.2.1] at hn <;> cases hn
          exact ((h.setNode hd (.inl ⟨rfl, hnot⟩)).checkpoint hd).goTo hd rfl hwait
        | _ => exact h.failStep hd hstep fun _ => hover
      · exact h
  | system todo =>
    have hd : Phase.isDriving s.phase = true := by rw [hp]; rfl
    rw [hp] at hat hc
    cases todo with
    | nil => exact h
    | cons u todo =>
      cases outcome with
      | done => exact h.landed hp (hc rfl)
      | _ =>
        -- the step is undone, and its services are looked at again when it is retried
        have hback := h.toRollback hd hat.1.1 hat.1.2
        have hlive : Inv up
            { s with live, run := s.run.setStep .system .failed, phase := .rollback .system } :=
          hback.live fun hnot => absurd (.inl rfl) hnot
        exact hlive
  | rollback key =>
    rw [hp] at hc
    exact h.rolledBack hp hc _ (by split <;> rfl)
  | _ => exact h

theorem Inv.poll (h : s.Inv up) (late : Bool) : (s.poll late).Inv up := by
  have hat := h.at_
  unfold State.poll
  cases hp : s.phase with
  | agentsWait n todo =>
    have hd : Phase.isDriving s.phase = true := by rw [hp]; rfl
    rw [hp] at hat
    obtain ⟨⟨hstep, hover, hcurrent⟩, hall⟩ := hat
    dsimp only
    split
    · rename_i hseen
      have hon := hcurrent.onRelease (Bool.and_eq_true_iff.1 hseen).2
      have hrest : s.At up (.agents todo) := by
        refine ⟨⟨hstep, hover, hcurrent⟩, fun m hm => ?_⟩
        rcases hall m hm with hm | rfl | hm
        · exact .inl hm
        · exact .inl hon
        · exact .inr hm
      exact ((h.setNode hd (p := .upgraded) (.inr ⟨by simp, hon⟩)).checkpoint hd).goTo hd rfl hrest
    · split
      · exact h.failStep hd hstep fun _ => hover
      · exact h
  | _ => exact h

theorem Inv.step (e : Step) (h : s.Inv up) (hc : s.Careful up e) : (s.step up e).Inv up := by
  cases e with
  | wait ms =>
    refine h.of_frame rfl rfl rfl rfl ⟨h.holds.1, h.holds.2, h.holds.3, h.holds.4⟩ ?_
    have hat := h.at_
    cases hp : s.phase <;> (rw [hp] at hat; exact hat)
  | node id there => exact h.node hc
  | agent id build =>
    cases build with
    | some build => exact h.agent hc
    | none =>
      refine h.of_frame rfl rfl rfl rfl ⟨h.holds.1, h.holds.2, h.holds.3, h.holds.4⟩ ?_
      have hat := h.at_
      cases hp : s.phase <;> (rw [hp] at hat; exact hat)
  | inventory live ready => exact h.live hc
  | restart selfCommit release => exact h.restart hc
  | drive => exact h.drive
  | retry => exact h.retry hc
  | advance => exact h.advance hc
  | call outcome live => exact h.call hc
  | poll late => exact h.poll late

theorem Inv.kept (e : Step) (h : s.Inv up) : s.Kept up e := by
  cases e with
  | advance =>
    unfold Kept
    cases hp : s.phase with
    | loop =>
      have hd : Phase.isDriving s.phase = true := by rw [hp]; rfl
      dsimp only
      split
      · rename_i hnext
        have hover := h.run.all_over hnext
        exact ⟨h.holds.system (not_undoing hd _) (hover .system), h.holds.agents (hover .agents)⟩
      · rename_i key hnext
        exact h.run.next hnext
    | controller =>
      intro hr
      have hnone : (s.controllerInput up).dispatchedAt = none := (h.retried hr).2
      unfold controllerStepDecision
      rw [hnone]
      dsimp only
      split
      · rename_i htarget
        exact .inr (.inr (.inl htarget))
      · split
        · rename_i hlive
          exact .inr (.inr (.inr hlive))
        · split
          · rename_i hlive
            exact .inr (.inl hlive)
          · exact .inl rfl
    | _ => exact trivial
  | _ => exact trivial

theorem promised_run (steps : List Step) (h : s.Inv up) (hc : s.CarefulRun up steps) :
    s.PromisedRun up steps := by
  induction steps generalizing s with
  | nil => exact trivial
  | cons e steps ih => exact ⟨h.kept e, ih (h.step e hc.1) hc.2⟩

theorem inv_start (up : Upgrade) (site : Site) : (start site).Inv up where
  saved := fun _ hkey => absurd hkey not_mem_nil
  run := fun _ hkey => absurd hkey not_mem_nil
  idle _ := rfl
  rollback := nofun
  behind := behind_of_eq rfl
  holds := by
    refine ⟨fun _ n hn => ?_, fun _ u _ => not_mem_nil, nofun, fun _ => nofun⟩
    rcases hn with hn | hn <;> cases hn
  at_ := trivial
  retried := nofun

def digestA : Text := "sha256:".toList ++ List.replicate 64 'a'

def newBuild : AgentBuild := ⟨"1.1.0".toList, some "b".toList⟩

def oldBuild : AgentBuild := ⟨"1.0.0".toList, some "a".toList⟩

/-- A release with a controller and an agent. -/
def someUpgrade : Upgrade :=
  ⟨⟨newBuild.version, newBuild.commit,
      [("agent".toList, ⟨"swarmy/agent".toList, "swarmy/agent".toList, some digestA⟩)],
        some digestA, []⟩,
    oldBuild.commit, fun _ c => c.ref, fun _ _ => true⟩

/-- The controller's service on another build. -/
def oldController (updateStatus : Option UpdateStatus) : LiveService :=
  ⟨CONTROLLER_SERVICE, "swarmy/controller@sha256:".toList ++ List.replicate 64 'b', [],
    updateStatus⟩

def newController : LiveService :=
  ⟨CONTROLLER_SERVICE, "swarmy/controller@".toList ++ digestA, [], some .completed⟩

/-- A server with an agent of the old release. -/
def someSite : Site where
  nodes := [0]
  isOnline _ := true
  known _ := true
  builds _ := oldBuild
  live := [oldController none]
  inventoryReady := true
  now := 0
  processStartedAt := 0
  selfCommit := oldBuild.commit
  release := some oldBuild

/-- Swarm refuses the update, and the retried step sends it again. -/
def refusedSteps : List Step :=
  [.drive, .advance, .call .done [], .advance, .advance, .call .refused [], .retry,
    .drive, .advance,
    .advance, .call .done [oldController (some .updating)]]

/-- The new controller moves the agent. -/
def movedSteps : List Step :=
  [.wait 1, .restart newBuild.commit (some newBuild), .agent 0 (some oldBuild),
    .inventory [newController] true, .drive, .advance, .advance, .advance, .call .done [],
    .agent 0 none, .agent 0 (some newBuild), .poll false, .advance, .advance, .advance, .advance,
    .call .skipped [], .advance, .call .done [], .advance]

theorem plan_controller (up : Upgrade) {c : LiveService} (h : c.name = CONTROLLER_SERVICE) :
    plan up [c] = [] := by
  simp [plan, planSystemUpdates, updateFor, SYSTEM_STEP_EXCLUDED, h]

theorem steady_controller {s : State} {c : LiveService} (h : c.name = CONTROLLER_SERVICE) :
    s.Steady someUpgrade [c] := by
  intro u hu
  exact absurd (plan_controller someUpgrade h ▸ hu) not_mem_nil

/-- An agent of the old release may do as it likes, and may come back with the new one. -/
theorem careful_agent {s : State} {build : AgentBuild}
    (h : s.builds 0 = oldBuild ∨ build = newBuild) :
    s.Careful someUpgrade (.agent 0 (some build)) := by
  intro _ hon b hb
  have hnew : newBuild = b := Option.some.inj hb
  rcases h with hold | rfl
  · have hfalse := hon b hb
    rw [hold, ← hnew] at hfalse
    exact absurd hfalse (by decide)
  · rw [← hnew]
    decide

theorem careful_call {s : State} {outcome : Outcome} :
    s.Careful someUpgrade (.call outcome []) := by
  have hsteady : s.Steady someUpgrade [] := fun u hu => absurd (plan_nil ▸ hu) not_mem_nil
  unfold Careful
  cases s.phase with
  | send => exact fun _ => hsteady
  | rollback key => exact fun _ => hsteady
  | system todo =>
    cases todo with
    | nil => trivial
    | cons u todo => exact fun _ v hv => absurd (plan_nil ▸ hv) not_mem_nil
  | _ => trivial

/-- The release of the controller is another one only after a restart. -/
theorem release_advance (up : Upgrade) (s : State) : (s.advance up).release = s.release := by
  unfold State.advance
  repeat' split
  all_goals rfl

theorem release_call (s : State) (outcome : Outcome) (live : List LiveService) :
    (s.call outcome live).release = s.release := by
  have hfail (s : State) (key : StepKey) : (s.failStep key).release = s.release := by
    unfold failStep
    split <;> rfl
  unfold State.call
  repeat' split
  all_goals first | rfl | exact hfail _ _

/-- An agent of the new controller's release is moved, and the steps after it have nothing to do. -/
theorem careful_rest {s : State} (hs : s.release = some newBuild) : s.CarefulRun someUpgrade
    [.advance, .advance, .advance, .call .skipped [], .advance, .call .done [], .advance] := by
  have hcurrent {s : State} (hs : s.release = some newBuild) : s.Current someUpgrade := fun b hb =>
    ⟨newBuild, hs, Option.some.inj hb ▸ by decide⟩
  have h₁ := (release_advance someUpgrade s).trans hs
  have h₂ := (release_advance someUpgrade _).trans h₁
  have h₃ := (release_call _ .skipped []).trans ((release_advance someUpgrade _).trans h₂)
  have h₄ := (release_call _ .done []).trans ((release_advance someUpgrade _).trans h₃)
  exact ⟨fun _ _ => hcurrent hs, fun _ _ => hcurrent h₁, fun _ _ => hcurrent h₂, careful_call,
    fun _ _ => hcurrent h₃, careful_call, fun _ _ => hcurrent h₄, trivial⟩

end State

end PlatformUpgrade
