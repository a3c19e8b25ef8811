import Mathlib.Data.Option.Basic

/-! # A point-in-time restore

`runPitrRestore` of the controller, `restoreWalgPitr` of the agent and the two scripts it runs in a
sidecar, as one machine. Each command of a script is a step that may fail; a killed sidecar stops
where it is, and the controller may stop waiting while the agent goes on. -/

namespace Swarmy.Pitr

open List Option

/-- What a directory of the data volume holds. -/
inductive Data
  | original
  | half
  | staged

/-- `$PGDATA` and `$ASIDE`, the path of the kept copy. -/
structure Disk where
  pgdata : Option Data
  aside : Option Data

/-! ## The scripts -/

/-- Where `walgPitrRestoreScript` is; the last three are `rollback`, which its trap runs. -/
inductive Pc
  | check
  | move
  | moved
  | started
  | make
  | stage
  | disarm
  | remove
  | removing
  | putBack

/-- The restore script and its flags. -/
structure Run where
  pc : Pc
  MOVED : Bool
  STARTED : Bool

/-- What a command comes to: the script goes on, or it exits. -/
inductive Next (σ : Type)
  | goes (r : σ) (d : Disk)
  | exits (ok : Bool) (d : Disk)

namespace Run

def begin : Run := ⟨.check, false, false⟩

/-- `set -e`: a command that failed leaves the rest to the trap. -/
def trap (r : Run) (d : Disk) : Next Run := .goes { r with pc := .remove } d

/-- One command of the restore script. -/
def next (ok : Bool) (r : Run) (d : Disk) : Next Run :=
  match r.pc with
  | .check => if d.aside.isSome then r.trap d else .goes { r with pc := .move } d
  | .move =>
    if d.pgdata.isSome then
      if ok then .goes { r with pc := .moved } ⟨none, d.pgdata⟩ else r.trap d
    else .goes { r with pc := .started } d
  | .moved => .goes { r with pc := .started, MOVED := true } d
  | .started => .goes { r with pc := .make, STARTED := true } d
  | .make =>
    if ok then .goes { r with pc := .stage } { d with pgdata := some .half } else r.trap d
  | .stage =>
    if ok then .goes { r with pc := .disarm } { d with pgdata := some .staged } else r.trap d
  | .disarm => .exits true d
  | .remove =>
    if r.STARTED then
      .goes { r with pc := .removing } { d with pgdata := d.pgdata.map fun _ => .half }
    else .goes { r with pc := .putBack } d
  | .removing =>
    if ok then .goes { r with pc := .putBack } { d with pgdata := none } else .exits false d
  | .putBack =>
    if r.MOVED && ok then .exits false ⟨d.aside, none⟩ else .exits false d

end Run

/-- Where `WALG_PITR_ROLLBACK_SCRIPT` is. -/
inductive Back
  | check
  | remove
  | removing
  | putBack

/-- One command of the rollback script. -/
def Back.next (ok : Bool) (b : Back) (d : Disk) : Next Back :=
  match b with
  | .check => if d.aside.isSome then .goes .remove d else .exits false d
  | .remove => .goes .removing { d with pgdata := d.pgdata.map fun _ => .half }
  | .removing => if ok then .goes .putBack { d with pgdata := none } else .exits false d
  | .putBack => if ok then .exits true ⟨d.aside, none⟩ else .exits false d

/-! ## The agent and the controller -/

/-- What the agent does for the command it was sent. -/
inductive Job
  | idle
  | waitsRestore
  | waitsRollback
  | restores (r : Run)
  | rollsBack (b : Back)

/-- What `runPitrRestore` waits for. -/
inductive Ctl
  | stopping
  | restoring
  | promoting
  | stoppingAgain
  | rollingBack
  | promoted
  | ended
deriving DecidableEq

/-- `ups` holds what `$PGDATA` was whenever the controller scaled the service up again. -/
structure State where
  disk : Disk
  job : Job
  ctl : Ctl
  scaled : Bool
  running : Bool
  ups : List (Option Data)

namespace State

/-- `scale(replicas)`. -/
def up (s : State) (ctl : Ctl) : State :=
  { s with ctl, scaled := true, ups := s.disk.pgdata :: s.ups }

/-- The dispatch of the controller comes back. -/
def answer (s : State) (ok : Bool) : State :=
  match s.ctl with
  | .restoring => if ok then s.up .promoting else s.up .ended
  | .rollingBack => s.up .ended
  | _ => s

/-- The sidecar is gone, and the agent says how it ended. -/
def exits (s : State) (ok : Bool) (d : Disk) : State :=
  answer { s with disk := d, job := .idle } ok

end State

inductive Event
  /-- The task of the service starts, or is gone. -/
  | taskStarts
  | taskStops
  /-- `waitForNoTask` ends. -/
  | stopped
  | stopTimedOut
  /-- The agent throws before it runs the script, or finds the volume idle and runs it. -/
  | agentRefuses
  | agentBegins
  /-- The script's next command, and the end of a sidecar without it. -/
  | runs (ok : Bool)
  | killed
  /-- The dispatch times out or the agent's connection is lost; the sidecar goes on. -/
  | lost
  /-- `waitPromoted` ends; the `scale(0)` where the server has not promoted may fail. -/
  | promoted
  | notPromoted (scaledDown : Bool)
  | controllerRestarts

def Next.land {σ : Type} (s : State) (job : σ → Job) : Next σ → State
  | .goes r d => { s with disk := d, job := job r }
  | .exits ok d => s.exits ok d

def step (s : State) : Event → Option State
  | .taskStarts => if s.scaled && !s.running then some { s with running := true } else none
  | .taskStops => if s.running then some { s with running := false } else none
  | .stopped =>
    if s.running then none
    else match s.ctl with
      | .stopping => some { s with ctl := .restoring, job := .waitsRestore }
      | .stoppingAgain => some { s with ctl := .rollingBack, job := .waitsRollback }
      | _ => none
  | .stopTimedOut =>
    match s.ctl with
    | .stopping | .stoppingAgain => some (s.up .ended)
    | _ => none
  | .agentRefuses =>
    match s.job with
    | .waitsRestore | .waitsRollback => some (s.exits false s.disk)
    | _ => none
  | .agentBegins =>
    if s.running then none
    else match s.job with
      | .waitsRestore => some { s with job := .restores .begin }
      | .waitsRollback => some { s with job := .rollsBack .check }
      | _ => none
  | .runs ok =>
    match s.job with
    | .restores r => some ((r.next ok s.disk).land s .restores)
    | .rollsBack b => some ((b.next ok s.disk).land s .rollsBack)
    | _ => none
  | .killed =>
    match s.job with
    | .restores _ | .rollsBack _ => some (s.exits false s.disk)
    | _ => none
  | .lost =>
    match s.ctl with
    | .restoring | .rollingBack => some (s.answer false)
    | _ => none
  | .promoted =>
    if s.running && s.ctl = .promoting then some { s with ctl := .promoted } else none
  | .notPromoted scaledDown =>
    -- an error of the call is caught, and the wait for the task begins
    if s.ctl = .promoting then
      some { s with ctl := .stoppingAgain, scaled := s.scaled && !scaledDown }
    else none
  | .controllerRestarts => some { s with ctl := .ended }

/-- After `scale(0)`, with whatever lies at the path of the kept copy. -/
def start (aside : Option Data) : State where
  disk := ⟨some .original, aside⟩
  job := .idle
  ctl := .stopping
  scaled := false
  running := true
  ups := []

def run : State → List Event → Option State
  | s, [] => some s
  | s, e :: es => (step s e).bind fun s' => run s' es

end Swarmy.Pitr

/-! # The original data is kept

In every run the original `$PGDATA` is in place or kept aside. What the service is started on is
the original or a staged restore, as long as no sidecar ends, and no dispatch is given up, between
the move of the data and the end of the staging. -/

namespace Swarmy.Pitr

/-- The original data is complete, at its own path or kept aside. -/
def Disk.Kept (d : Disk) : Prop := d.pgdata = some .original ∨ d.aside = some .original

/-- A service may be started on it. -/
def Whole (x : Option Data) : Prop := x = some .original ∨ x = some .staged

/-- What the restore script has done to the disk, by where it is. -/
def Run.Inv (r : Run) (d : Disk) : Prop :=
  match r.pc with
  | .check => r.MOVED = false ∧ r.STARTED = false ∧ d.pgdata = some .original
  | .move => r.MOVED = false ∧ r.STARTED = false ∧ d.pgdata = some .original
  | .moved => r.STARTED = false ∧ d.pgdata = none ∧ d.aside = some .original
  | .started => r.MOVED = true ∧ d.pgdata = none ∧ d.aside = some .original
  | .make | .stage => r.MOVED = true ∧ r.STARTED = true ∧ d.aside = some .original
  | .disarm => d.pgdata = some .staged ∧ d.aside = some .original
  | .remove => (r.MOVED = false ∧ r.STARTED = false ∧ d.pgdata = some .original) ∨
      r.MOVED = true ∧ d.aside = some .original
  | .removing => r.MOVED = true ∧ d.aside = some .original
  | .putBack => (r.MOVED = false ∧ d.pgdata = some .original) ∨
      r.MOVED = true ∧ d.aside = some .original

/-- The sidecar has not touched `$PGDATA`, or has staged it. -/
def Run.Clear (r : Run) : Prop :=
  match r.pc with
  | .check | .move | .disarm => True
  | .remove | .putBack => r.MOVED = false
  | _ => False

def Back.Inv (b : Back) (d : Disk) : Prop :=
  d.aside = some .original ∧
    match b with
    | .check | .remove => d.pgdata = some .staged
    | .removing | .putBack => True

def Back.Clear : Back → Prop
  | .check | .remove => True
  | .removing | .putBack => False

/-- What the agent's job says of the disk. -/
def Job.Inv (job : Job) (d : Disk) : Prop :=
  match job with
  | .idle => d.Kept
  | .waitsRestore => d.pgdata = some .original
  | .waitsRollback => d.pgdata = some .staged ∧ d.aside = some .original
  | .restores r => r.Inv d
  | .rollsBack b => b.Inv d

/-- What the controller may rely on while it does not wait for the agent. -/
def State.CtlInv (s : State) : Prop :=
  match s.ctl with
  | .stopping => s.job = .idle ∧ s.disk.pgdata = some .original
  | .promoting | .stoppingAgain =>
    s.job = .idle ∧ s.disk.pgdata = some .staged ∧ s.disk.aside = some .original
  | .restoring => s.job = .waitsRestore ∨ ∃ r, s.job = .restores r
  | .rollingBack => s.job = .waitsRollback ∨ ∃ b, s.job = .rollsBack b
  | _ => True

structure State.Inv (s : State) : Prop where
  job : s.job.Inv s.disk
  ctl : s.CtlInv

/-! ## The scripts -/

/-- `P` where the script goes on, `Q` where it exits. -/
def Next.All {σ : Type} (P : σ → Disk → Prop) (Q : Bool → Disk → Prop) : Next σ → Prop
  | .goes r d => P r d
  | .exits ok d => Q ok d

/-- A restore that exits 0 has staged the new data beside the original. -/
def Left (ok : Bool) (d : Disk) : Prop :=
  d.Kept ∧ (ok = true → d.pgdata = some .staged ∧ d.aside = some .original)

variable {r : Run} {d : Disk} {b : Back}

theorem Run.next_inv (h : r.Inv d) (ok : Bool) : (r.next ok d).All Run.Inv Left := by
  obtain ⟨pc, MOVED, STARTED⟩ := r
  cases pc <;> simp only [Run.Inv] at h
  case check =>
    obtain ⟨rfl, rfl, h⟩ := h
    by_cases ha : d.aside.isSome <;> simp [Run.next, Run.trap, Next.All, Run.Inv, ha, h]
  case move =>
    obtain ⟨rfl, rfl, h⟩ := h
    cases ok <;> simp [Run.next, Run.trap, Next.All, Run.Inv, h]
  case moved =>
    obtain ⟨rfl, hp, ha⟩ := h
    exact ⟨rfl, hp, ha⟩
  case started =>
    obtain ⟨rfl, -, ha⟩ := h
    exact ⟨rfl, rfl, ha⟩
  case make =>
    obtain ⟨rfl, rfl, ha⟩ := h
    cases ok
    · exact .inr ⟨rfl, ha⟩
    · exact ⟨rfl, rfl, ha⟩
  case stage =>
    obtain ⟨rfl, rfl, ha⟩ := h
    cases ok
    · exact .inr ⟨rfl, ha⟩
    · exact ⟨rfl, ha⟩
  case disarm => exact ⟨.inr h.2, fun _ => h⟩
  case remove =>
    rcases h with ⟨rfl, rfl, h⟩ | ⟨rfl, h⟩
    · exact .inl ⟨rfl, h⟩
    · cases STARTED
      · exact .inr ⟨rfl, h⟩
      · exact ⟨rfl, h⟩
  case removing =>
    obtain ⟨rfl, h⟩ := h
    cases ok
    · exact ⟨.inr h, fun h => by cases h⟩
    · exact .inr ⟨rfl, h⟩
  case putBack =>
    rcases h with ⟨rfl, h⟩ | ⟨rfl, h⟩
    · exact ⟨.inl h, fun h => by cases h⟩
    · cases ok
      · exact ⟨.inr h, fun h => by cases h⟩
      · exact ⟨.inl h, fun h => by cases h⟩

/-- A command of the trap that fails leaves what it was at. -/
def Run.Fails (r : Run) (ok : Bool) : Prop :=
  ok = false ∧ (r.pc = .removing ∨ r.pc = .putBack ∧ r.MOVED = true)

/-- Where the script exits, the service may be started. -/
theorem Run.next_whole (h : r.Inv d) {ok : Bool} (hok : ¬ r.Fails ok) :
    (r.next ok d).All (fun _ _ => True) fun _ d' => Whole d'.pgdata := by
  obtain ⟨pc, MOVED, STARTED⟩ := r
  cases pc <;> simp only [Run.Inv] at h
  case disarm => exact .inr h.1
  case removing =>
    cases ok
    · exact absurd ⟨rfl, .inl rfl⟩ hok
    · trivial
  case putBack =>
    rcases h with ⟨rfl, h⟩ | ⟨rfl, h⟩
    · exact .inl h
    · cases ok
      · exact absurd ⟨rfl, .inr ⟨rfl, rfl⟩⟩ hok
      · exact .inl h
  all_goals
    simp only [Run.next, Run.trap]
    repeat' split
    all_goals trivial

theorem Run.Clear.whole (clear : r.Clear) (h : r.Inv d) : Whole d.pgdata := by
  obtain ⟨pc, MOVED, STARTED⟩ := r
  cases pc <;> simp only [Run.Clear, Run.Inv] at clear h
  case check | move => exact .inl h.2.2
  case disarm => exact .inr h.1
  case remove =>
    rcases h with ⟨-, -, h⟩ | ⟨h, -⟩
    · exact .inl h
    · rw [clear] at h
      cases h
  case putBack =>
    rcases h with ⟨-, h⟩ | ⟨h, -⟩
    · exact .inl h
    · rw [clear] at h
      cases h

theorem Run.Inv.kept (h : r.Inv d) : d.Kept := by
  obtain ⟨pc, MOVED, STARTED⟩ := r
  cases pc <;> simp only [Run.Inv] at h
  case check | move => exact .inl h.2.2
  case moved | started | make | stage => exact .inr h.2.2
  case disarm | removing => exact .inr h.2
  case remove =>
    rcases h with h | h
    · exact .inl h.2.2
    · exact .inr h.2
  case putBack =>
    rcases h with h | h
    · exact .inl h.2
    · exact .inr h.2

theorem Back.next_inv (h : b.Inv d) (ok : Bool) :
    (b.next ok d).All Back.Inv fun _ d' => d'.Kept := by
  obtain ⟨ha, hp⟩ := h
  cases b with
  | check =>
    simp only [Back.next, ha, Option.isSome_some, if_true]
    exact ⟨ha, hp⟩
  | remove => exact ⟨ha, trivial⟩
  | removing =>
    cases ok
    · exact .inr ha
    · exact ⟨ha, trivial⟩
  | putBack =>
    cases ok
    · exact .inr ha
    · exact .inl ha

def Back.Fails (b : Back) (ok : Bool) : Prop := ok = false ∧ (b = .removing ∨ b = .putBack)

theorem Back.next_whole (h : b.Inv d) {ok : Bool} (hok : ¬ b.Fails ok) :
    (b.next ok d).All (fun _ _ => True) fun _ d' => Whole d'.pgdata := by
  obtain ⟨ha, hp⟩ := h
  cases b with
  | check =>
    simp only [Back.next, ha, Option.isSome_some, if_true]
    trivial
  | remove => trivial
  | removing =>
    cases ok
    · exact absurd ⟨rfl, .inl rfl⟩ hok
    · trivial
  | putBack =>
    cases ok
    · exact absurd ⟨rfl, .inr rfl⟩ hok
    · exact .inl ha

theorem Back.Clear.whole (clear : b.Clear) (h : b.Inv d) : Whole d.pgdata := by
  cases b with
  | check | remove => exact .inr h.2
  | removing | putBack => exact clear.elim

theorem Job.Inv.kept {job : Job} (h : job.Inv d) : d.Kept := by
  cases job with
  | idle => exact h
  | waitsRestore => exact .inl h
  | waitsRollback => exact .inr h.2
  | restores r => exact Run.Inv.kept h
  | rollsBack b => exact .inr h.1

/-! ## Steps -/

variable {s s' : State} {e : Event}

/-- The controller waits for the agent. -/
def State.Waits (s : State) : Prop := s.ctl = .restoring ∨ s.ctl = .rollingBack

theorem State.Inv.waits (h : s.Inv) (busy : s.job ≠ .idle) :
    s.Waits ∨ s.ctl = .promoted ∨ s.ctl = .ended := by
  have hc := h.ctl
  unfold State.CtlInv at hc
  cases hs : s.ctl <;> simp only [hs] at hc
  case restoring => exact .inl (.inl hs)
  case rollingBack => exact .inl (.inr hs)
  case promoted => exact .inr (.inl rfl)
  case ended => exact .inr (.inr rfl)
  all_goals exact absurd hc.1 busy

/-- A sidecar that is gone leaves an idle agent, and a staged restore where it says so. -/
theorem State.Inv.exits (h : s.Inv) (busy : s.job ≠ .idle) {ok : Bool} (kept : d.Kept)
    (staged : ok = true → s.ctl = .restoring → d.pgdata = some .staged ∧ d.aside = some .original) :
    (s.exits ok d).Inv := by
  unfold State.exits State.answer
  rcases h.waits busy with (hs | hs) | hs | hs <;> simp only [hs]
  · cases ok
    · exact ⟨kept, trivial⟩
    · exact ⟨kept, rfl, staged rfl hs⟩
  · exact ⟨kept, trivial⟩
  · exact ⟨kept, by simp [State.CtlInv]⟩
  · exact ⟨kept, by simp [State.CtlInv]⟩

theorem State.Inv.land_restores (h : s.Inv) (hr : s.job = .restores r) {n : Next Run}
    (hn : n.All Run.Inv Left) : (n.land s .restores).Inv := by
  have busy : s.job ≠ .idle := by simp [hr]
  cases n with
  | exits ok d => exact h.exits busy hn.1 fun hok _ => hn.2 hok
  | goes r' d =>
    refine ⟨hn, ?_⟩
    have hc := h.ctl
    rcases h.waits busy with (hs | hs) | hs | hs <;>
      simp_all [Next.land, State.CtlInv]

theorem State.Inv.land_rollsBack (h : s.Inv) (hb : s.job = .rollsBack b) {n : Next Back}
    (hn : n.All Back.Inv fun _ d => d.Kept) : (n.land s .rollsBack).Inv := by
  have busy : s.job ≠ .idle := by simp [hb]
  have hc := h.ctl
  cases n with
  | exits ok d =>
    refine h.exits busy hn fun _ hs => ?_
    simp [State.CtlInv, hs, hb] at hc
  | goes b' d =>
    refine ⟨hn, ?_⟩
    rcases h.waits busy with (hs | hs) | hs | hs <;>
      simp_all [Next.land, State.CtlInv]

/-- **A step keeps the original data.** -/
theorem State.Inv.step (h : s.Inv) (hs : step s e = some s') : s'.Inv := by
  have hj := h.job
  have hc := h.ctl
  cases e <;> simp only [Pitr.step] at hs
  case taskStarts | taskStops =>
    split at hs
    · obtain rfl := Option.some.inj hs
      exact ⟨hj, hc⟩
    · cases hs
  case stopped =>
    split at hs
    · cases hs
    · split at hs
      · rename_i ctl
        obtain rfl := Option.some.inj hs
        simp only [State.CtlInv, ctl] at hc
        exact ⟨hc.2, .inl rfl⟩
      · rename_i ctl
        obtain rfl := Option.some.inj hs
        simp only [State.CtlInv, ctl] at hc
        exact ⟨hc.2, .inl rfl⟩
      · cases hs
  case stopTimedOut =>
    split at hs
    · obtain rfl := Option.some.inj hs
      exact ⟨hj, trivial⟩
    · obtain rfl := Option.some.inj hs
      exact ⟨hj, trivial⟩
    · cases hs
  case agentRefuses =>
    split at hs
    · rename_i job
      obtain rfl := Option.some.inj hs
      exact h.exits (by simp [job]) hj.kept fun h => by cases h
    · rename_i job
      obtain rfl := Option.some.inj hs
      exact h.exits (by simp [job]) hj.kept fun h => by cases h
    · cases hs
  case agentBegins =>
    split at hs
    · cases hs
    · split at hs
      · rename_i job
        obtain rfl := Option.some.inj hs
        rw [job] at hj
        refine ⟨⟨rfl, rfl, hj⟩, ?_⟩
        rcases h.waits (by simp [job]) with (hs | hs) | hs | hs <;> simp_all [State.CtlInv]
      · rename_i job
        obtain rfl := Option.some.inj hs
        rw [job] at hj
        refine ⟨⟨hj.2, hj.1⟩, ?_⟩
        rcases h.waits (by simp [job]) with (hs | hs) | hs | hs <;> simp_all [State.CtlInv]
      · cases hs
  case runs ok =>
    split at hs
    · rename_i r job
      obtain rfl := Option.some.inj hs
      rw [job] at hj
      exact h.land_restores job (Run.next_inv hj ok)
    · rename_i b job
      obtain rfl := Option.some.inj hs
      rw [job] at hj
      exact h.land_rollsBack job (Back.next_inv hj ok)
    · cases hs
  case killed =>
    split at hs
    · rename_i job
      obtain rfl := Option.some.inj hs
      exact h.exits (by simp [job]) hj.kept fun h => by cases h
    · rename_i job
      obtain rfl := Option.some.inj hs
      exact h.exits (by simp [job]) hj.kept fun h => by cases h
    · cases hs
  case lost =>
    split at hs
    · rename_i ctl
      obtain rfl := Option.some.inj hs
      simp only [State.answer, ctl, Bool.false_eq_true, if_false]
      exact ⟨hj, trivial⟩
    · rename_i ctl
      obtain rfl := Option.some.inj hs
      simp only [State.answer, ctl]
      exact ⟨hj, trivial⟩
    · cases hs
  case promoted =>
    split at hs
    · obtain rfl := Option.some.inj hs
      exact ⟨hj, trivial⟩
    · cases hs
  case notPromoted =>
    split at hs
    · rename_i ctl
      obtain rfl := Option.some.inj hs
      simp only [State.CtlInv, ctl] at hc
      exact ⟨hj, hc⟩
    · cases hs
  case controllerRestarts =>
    obtain rfl := Option.some.inj hs
    exact ⟨hj, trivial⟩

theorem State.Inv.run {es : List Event} (h : s.Inv) (hs : run s es = some s') : s'.Inv := by
  induction es generalizing s with
  | nil =>
    obtain rfl := Option.some.inj hs
    exact h
  | cons e es ih =>
    obtain ⟨s₁, h₁, h₂⟩ := Option.bind_eq_some_iff.1 hs
    exact ih (h.step h₁) h₂

theorem start_inv (aside : Option Data) : (start aside).Inv := ⟨.inl rfl, rfl, rfl⟩

/-! ## What the service is started on -/

/-- No sidecar that the controller waits for ends, and no wait for one is given up, where
`$PGDATA` has been moved or removed and the new data is not yet staged. -/
def Careful (s : State) (e : Event) : Prop :=
  s.Waits → match s.job, e with
    | .restores r, .killed | .restores r, .lost => r.Clear
    | .rollsBack b, .killed | .rollsBack b, .lost => b.Clear
    | .restores r, .runs ok => ¬ r.Fails ok
    | .rollsBack b, .runs ok => ¬ b.Fails ok
    | _, _ => True

/-- Whatever the service was started on could be started on. -/
def State.Sound (s : State) : Prop := ∀ x ∈ s.ups, Whole x

theorem State.Sound.up (h : s.Sound) (whole : Whole s.disk.pgdata) (ctl : Ctl) : (s.up ctl).Sound :=
  List.forall_mem_cons.2 ⟨whole, h⟩

theorem State.Sound.answer (h : s.Sound) (whole : s.Waits → Whole s.disk.pgdata) (ok : Bool) :
    (s.answer ok).Sound := by
  unfold State.answer
  split
  · rename_i ctl
    split
    · exact h.up (whole (.inl ctl)) _
    · exact h.up (whole (.inl ctl)) _
  · rename_i ctl
    exact h.up (whole (.inr ctl)) _
  · exact h

theorem State.Sound.land {σ : Type} {job : σ → Job} {n : Next σ} (h : s.Sound)
    (hn : s.Waits → n.All (fun _ _ => True) fun _ d => Whole d.pgdata) : (n.land s job).Sound := by
  cases n with
  | goes r d => exact h
  | exits ok d => exact State.Sound.answer (s := { s with disk := d, job := .idle }) h hn ok

/-- The disk of a controller that waits for no agent yet. -/
theorem State.Inv.whole_of_stopping (h : s.Inv)
    (hs : s.ctl = .stopping ∨ s.ctl = .stoppingAgain) : Whole s.disk.pgdata := by
  have hc := h.ctl
  unfold State.CtlInv at hc
  rcases hs with hs | hs <;> simp only [hs] at hc
  · exact .inl hc.2
  · exact .inr hc.2.1

/-- The data before the agent's script runs. -/
theorem State.Inv.whole_of_waiting (h : s.Inv)
    (hs : s.job = .waitsRestore ∨ s.job = .waitsRollback) : Whole s.disk.pgdata := by
  have hj := h.job
  rcases hs with hs | hs <;> rw [hs] at hj
  · exact .inl hj
  · exact .inr hj.1

/-- **A careful step starts the service on whole data.** -/
theorem State.Sound.step (h : s.Sound) (inv : s.Inv) (careful : Careful s e)
    (hs : step s e = some s') : s'.Sound := by
  have hj := inv.job
  cases e <;> simp only [Pitr.step] at hs
  case taskStarts | taskStops | promoted | notPromoted =>
    split at hs
    · obtain rfl := Option.some.inj hs
      exact h
    · cases hs
  case stopped =>
    split at hs
    · cases hs
    · split at hs
      · obtain rfl := Option.some.inj hs
        exact h
      · obtain rfl := Option.some.inj hs
        exact h
      · cases hs
  case stopTimedOut =>
    split at hs
    · rename_i ctl
      obtain rfl := Option.some.inj hs
      exact h.up (inv.whole_of_stopping (.inl ctl)) _
    · rename_i ctl
      obtain rfl := Option.some.inj hs
      exact h.up (inv.whole_of_stopping (.inr ctl)) _
    · cases hs
  case agentRefuses =>
    split at hs
    · rename_i job
      obtain rfl := Option.some.inj hs
      exact State.Sound.answer (s := { s with job := .idle }) h
        (fun _ => inv.whole_of_waiting (.inl job)) false
    · rename_i job
      obtain rfl := Option.some.inj hs
      exact State.Sound.answer (s := { s with job := .idle }) h
        (fun _ => inv.whole_of_waiting (.inr job)) false
    · cases hs
  case agentBegins =>
    split at hs
    · cases hs
    · split at hs
      · obtain rfl := Option.some.inj hs
        exact h
      · obtain rfl := Option.some.inj hs
        exact h
      · cases hs
  case runs ok =>
    split at hs
    · rename_i r job
      obtain rfl := Option.some.inj hs
      rw [job] at hj
      refine h.land fun waits => Run.next_whole hj ?_
      simpa only [job] using careful waits
    · rename_i b job
      obtain rfl := Option.some.inj hs
      rw [job] at hj
      refine h.land fun waits => Back.next_whole hj ?_
      simpa only [job] using careful waits
    · cases hs
  case killed =>
    split at hs
    · rename_i r job
      obtain rfl := Option.some.inj hs
      rw [job] at hj
      refine State.Sound.answer (s := { s with job := .idle }) h (fun waits => ?_) false
      have clear : r.Clear := by simpa only [job] using careful waits
      exact clear.whole hj
    · rename_i b job
      obtain rfl := Option.some.inj hs
      rw [job] at hj
      refine State.Sound.answer (s := { s with job := .idle }) h (fun waits => ?_) false
      have clear : b.Clear := by simpa only [job] using careful waits
      exact clear.whole hj
    · cases hs
  case lost =>
    have whole : s.Waits → Whole s.disk.pgdata := by
      intro waits
      have clear := careful waits
      cases job : s.job with
      | idle =>
        have hc := inv.ctl
        rcases waits with hs | hs <;> simp [State.CtlInv, hs, job] at hc
      | waitsRestore => exact inv.whole_of_waiting (.inl job)
      | waitsRollback => exact inv.whole_of_waiting (.inr job)
      | restores r =>
        simp only [job] at hj clear
        exact clear.whole hj
      | rollsBack b =>
        simp only [job] at hj clear
        exact clear.whole hj
    split at hs
    · obtain rfl := Option.some.inj hs
      exact h.answer whole false
    · obtain rfl := Option.some.inj hs
      exact h.answer whole false
    · cases hs
  case controllerRestarts =>
    obtain rfl := Option.some.inj hs
    exact h

/-- Every step of the run is careful. -/
def CarefulRun : State → List Event → Prop
  | _, [] => True
  | s, e :: es => Careful s e ∧ ∀ s', step s e = some s' → CarefulRun s' es

theorem State.Sound.run {es : List Event} (h : s.Sound) (inv : s.Inv) (careful : CarefulRun s es)
    (hs : run s es = some s') : s'.Sound := by
  induction es generalizing s with
  | nil =>
    obtain rfl := Option.some.inj hs
    exact h
  | cons e es ih =>
    obtain ⟨s₁, h₁, h₂⟩ := Option.bind_eq_some_iff.1 hs
    exact ih (h.step inv careful.1 h₁) (inv.step h₁) (careful.2 s₁ h₁) h₂

theorem start_sound (aside : Option Data) : (start aside).Sound := fun _ h => by cases h

/-! ## Runs in which nothing is cut short -/

/-- No sidecar is killed, no dispatch is given up, and no command fails that puts data back. -/
def State.undisturbed (s : State) : Event → Bool
  | .killed | .lost => false
  | .runs ok => ok || match s.job with
    | .restores r => (r.pc matches .check | .move | .make | .stage)
    | _ => false
  | _ => true

theorem careful_of_undisturbed (h : s.undisturbed e = true) : Careful s e := by
  intro _
  split
  · cases h
  · cases h
  · cases h
  · cases h
  · rename_i r ok job
    rintro ⟨rfl, hpc | ⟨hpc, -⟩⟩ <;> simp [State.undisturbed, job, hpc] at h
  · rename_i b ok job
    rintro ⟨rfl, -⟩
    simp [State.undisturbed, job] at h
  · trivial

def undisturbedRun : State → List Event → Bool
  | _, [] => true
  | s, e :: es => s.undisturbed e && (step s e).all (undisturbedRun · es)

theorem careful_of_undisturbedRun {es : List Event} (h : undisturbedRun s es = true) :
    CarefulRun s es := by
  induction es generalizing s with
  | nil => trivial
  | cons e es ih =>
    obtain ⟨he, hes⟩ := (Bool.and_eq_true _ _).mp h
    refine ⟨careful_of_undisturbed he, fun s' hs => ih ?_⟩
    rw [hs] at hes
    exact hes

end Swarmy.Pitr
