import Swarmy.Backup.Scheduler
import Swarmy.Keyed.Cells
import Mathlib.Data.List.Nodup
import Mathlib.Order.MinMax
import Mathlib.Algebra.Order.Group.Nat

/-!
# One job for each slot

`promised_of_carefulTicks`: in a run in which no tick takes up a schedule that another still has, or
that is no longer due by the history, and in which no call fails between the start and the end of a
job, every slot has at most one job, no schedule is run twice at a time, schedules that are due are
taken up by the next tick, and jobs are finished with their runs.
-/

namespace Backup

open List Option Nat

/-! ## The words of the statement -/

namespace Phase

/-- The schedules that a tick has still to run, with the one it runs. -/
def held : Phase → List BackupSchedule
  | .run x _ rest => x :: rest
  | .listing | .listed _ | .counted _ _ | .ended => []

/-- The schedules whose jobs a tick has still to create. -/
def pending : Phase → List BackupSchedule
  | .run x phase rest => if phase.early then x :: rest else rest
  | .listing | .listed _ | .counted _ _ | .ended => []

/-- The rows that a tick has read. -/
def active : Phase → List BackupSchedule
  | .listed active | .counted active _ => active
  | .listing | .run _ _ _ | .ended => []

/-- The job of the run that a tick is in. -/
def job : Phase → Option Nat
  | .run _ phase _ => phase.job
  | .listing | .listed _ | .counted _ _ | .ended => none

/-- The schedule that a tick runs. -/
def current : Phase → Option BackupSchedule
  | .run x _ _ => some x
  | .listing | .listed _ | .counted _ _ | .ended => none

end Phase

namespace State

def keys (s : State) : List (Text × Nat) := s.jobs.map BackupJob.key

/-- What is promised of a state. -/
structure Promised (t : Table) (s : State) : Prop where
  once : ∀ x ∈ t.rows, ∀ (i j : Nat) (a b : BackupJob), s.jobs[i]? = some a → s.jobs[j]? = some b →
    a.scheduleId = x.id →
    b.scheduleId = x.id → x.slot a.startedAt = x.slot b.startedAt → i = j
  alone : ∀ (m n : Nat) (a b : Tick) (x y : BackupSchedule), s.ticks[m]? = some a →
    s.ticks[n]? = some b → a.phase.current = some x →
    b.phase.current = some y → x.id = y.id → m = n
  /-- What is due and not in progress is on the list of the tick. -/
  prompt : ∀ (n at_ : Nat) (active : List BackupSchedule) (lastRunOf : Text → Option Nat),
    s.ticks[n]? = some ⟨at_, .counted active lastRunOf⟩ → ∀ x ∈ active,
    x.due at_ (lastRun x.id s.keys) = true →
    (∀ (m : Nat) (a : Tick) (y : BackupSchedule), s.ticks[m]? = some a → a.phase.current = some y →
      y.id ≠ x.id) →
    x ∈ s.dueList at_ active lastRunOf
  /-- A schedule whose turn it is, with its target and a node there, gets its job. -/
  turn : ∀ (n at_ : Nat) (x : BackupSchedule) (rest : List BackupSchedule) (online : Text → Bool)
    (managers : List Text) (node : Text), s.ticks[n]? = some ⟨at_, .run x .target rest⟩ →
    pickNode online managers x.nodeId = some node →
    ((s.step t (.found n true online managers)).step t (.create n)).jobs =
      s.jobs ++ [⟨x.id, at_, .RUNNING⟩]
  settled : ∀ (j : Nat) (a : BackupJob), s.jobs[j]? = some a → a.status = .RUNNING →
    ∃ (n : Nat) (b : Tick), s.ticks[n]? = some b ∧ b.phase.job = some j

/-- No step takes up a schedule twice, and no call fails while a job is unfinished. -/
def Careful (s : State) : Step → Prop
  | .due n => ∀ (at_ : Nat) (active : List BackupSchedule) (lastRunOf : Text → Option Nat),
    s.ticks[n]? = some ⟨at_, .counted active lastRunOf⟩ →
      ∀ x ∈ s.dueList at_ active lastRunOf, x.due at_ (lastRun x.id s.keys) = true ∧
        ∀ (m : Nat) (a : Tick), s.ticks[m]? = some a → ∀ y ∈ a.phase.held, y.id ≠ x.id
  | .fails n => ∀ a : Tick, s.ticks[n]? = some a → a.phase.job = none
  | .wait _ | .start | .rows _ _ | .last _ | .found _ _ _ _ | .create _ | .backup _ _ | .finish _
  | .second _ _ | .copied _ | .dumped _ => True

def CarefulRun (t : Table) (s : State) : List Step → Prop
  | [] => True
  | e :: steps => s.Careful e ∧ CarefulRun t (s.step t e) steps

end State

/-! ## Slots -/

section

variable {x : BackupSchedule} {step last now : Nat}

theorem stepMs_pos (h : x.stepMs = some step) : 0 < step := by
  obtain ⟨unit, -, h⟩ := bind_eq_some_iff.1 h
  split_ifs at h with hpos
  rw [← some.inj h]
  refine Nat.mul_pos hpos ?_
  cases unit <;> decide

/-- What is due is in a later slot than the last run. -/
theorem slot_lt (hstep : x.stepMs = some step) (h : nextRun step x.anchor last ≤ now) :
    x.anchor ≤ now ∧ (x.anchor ≤ last → x.slot last < x.slot now) := by
  have hpos := stepMs_pos hstep
  unfold nextRun at h
  split_ifs at h with hlt
  · exact ⟨h, fun hle => absurd hle (by omega)⟩
  · have hle : x.anchor ≤ now := le_trans (le_add_right _ _) h
    refine ⟨hle, fun _ => ?_⟩
    unfold BackupSchedule.slot
    rw [hstep, getD_some]
    refine lt_of_succ_le ((le_div_iff_mul_le hpos).2 ?_)
    rw [succ_eq_add_one]
    omega

theorem slot_mono {a b : Nat} (h : a ≤ b) : x.slot a ≤ x.slot b :=
  Nat.div_le_div_right (Nat.sub_le_sub_right h _)

theorem le_nextRun (hpos : 0 < step) (anchor from_ : Nat) : from_ ≤ nextRun step anchor from_ := by
  unfold nextRun
  split_ifs with hlt
  · exact hlt.le
  · have hmod := mod_lt (from_ - anchor) hpos
    have hdiv := Nat.div_add_mod (from_ - anchor) step
    rw [Nat.add_mul, Nat.one_mul, Nat.mul_comm]
    omega

theorem nextRun_mono {anchor a b : Nat} (h : a ≤ b) :
    nextRun step anchor a ≤ nextRun step anchor b := by
  unfold nextRun
  split_ifs
  · exact le_rfl
  · exact le_add_right _ _
  · omega
  · have hdiv : (a - anchor) / step ≤ (b - anchor) / step :=
      Nat.div_le_div_right (Nat.sub_le_sub_right h _)
    exact Nat.add_le_add_left (Nat.mul_le_mul_right _ (Nat.succ_le_succ hdiv)) _

end

theorem le_lastRun {id : Text} {at_ : Nat} {ks : List (Text × Nat)} (h : (id, at_) ∈ ks) :
    ∃ last, lastRun id ks = some last ∧ at_ ≤ last := by
  induction ks with
  | nil => cases h
  | cons k ks ih =>
    unfold lastRun
    rcases mem_cons.1 h with heq | h
    · obtain ⟨rfl, rfl⟩ := Prod.mk.inj heq
      rw [if_pos rfl]
      exact ⟨_, rfl, le_max_left _ _⟩
    · obtain ⟨last, hlast, hle⟩ := ih h
      split_ifs
      · rw [hlast, getD_some]
        exact ⟨_, rfl, hle.trans (le_max_right _ _)⟩
      · exact ⟨last, hlast, hle⟩

theorem lastRun_mem {id : Text} {last : Nat} {ks : List (Text × Nat)}
    (h : lastRun id ks = some last) :
    (id, last) ∈ ks := by
  induction ks generalizing last with
  | nil => cases h
  | cons k ks ih =>
    obtain ⟨id', at'⟩ := k
    unfold lastRun at h
    split_ifs at h with hid
    · obtain rfl := some.inj h
      subst hid
      cases hrest : lastRun id' ks with
      | none => simp
      | some l =>
        rw [getD_some]
        rcases max_choice at' l with hmax | hmax
        · rw [hmax]
          exact mem_cons_self
        · rw [hmax]
          exact mem_cons_of_mem _ (ih hrest)
    · exact mem_cons_of_mem _ (ih h)

/-! ## The changes of a step -/

namespace Phase

def enter : List BackupSchedule → Phase
  | [] => .ended
  | x :: rest => .run x .target rest

theorem held_enter (l : List BackupSchedule) : (enter l).held = l := by cases l <;> rfl

theorem pending_enter (l : List BackupSchedule) : (enter l).pending = l := by cases l <;> rfl

theorem active_enter (l : List BackupSchedule) : (enter l).active = [] := by cases l <;> rfl

theorem current_enter (l : List BackupSchedule) : (enter l).current = l.head? := by cases l <;> rfl

theorem mem_held_of_pending {p : Phase} {x : BackupSchedule} (h : x ∈ p.pending) : x ∈ p.held := by
  cases p with
  | run y phase rest =>
    simp only [pending] at h
    split_ifs at h
    · exact h
    · exact mem_cons_of_mem _ h
  | listing | listed | counted | ended => cases h

theorem mem_held_of_current {p : Phase} {x : BackupSchedule} (h : p.current = some x) :
    x ∈ p.held := by
  cases p with
  | run y phase rest => exact some.inj h ▸ mem_cons_self
  | listing | listed | counted | ended => cases h

end Phase

namespace State

variable {t : Table} {s : State} {n at_ : Nat}

theorem enter_eq (l : List BackupSchedule) : s.enter n at_ l =
    { s.put n at_ (.enter l) with inFlight := (l.head?.map (·.id)).toList ++ s.inFlight } := by
  cases l <;> rfl

/-- What a step does to the tick that it is a step of. -/
inductive Change (t : Table) (s : State) (n at_ : Nat) : Phase → State → Prop
  | read {p p' : Phase} : p.held = [] → p.job = none → p'.held = [] →
      p'.active.Sublist t.rows ∨ p'.active = p.active →
      (∀ active lastRunOf, p' = .counted active lastRunOf →
        lastRunOf = fun id => lastRun id s.keys) →
      Change t s n at_ p (s.put n at_ p')
  | take {active : List BackupSchedule} {lastRunOf : Text → Option Nat} :
      (∀ x ∈ s.dueList at_ active lastRunOf, x.due at_ (lastRun x.id s.keys) = true ∧
        ∀ (m : Nat) (a : Tick), s.ticks[m]? = some a → ∀ y ∈ a.phase.held, y.id ≠ x.id) →
      Change t s n at_ (.counted active lastRunOf) (s.enter n at_ (s.dueList at_ active lastRunOf))
  | advance {x : BackupSchedule} {phase phase' : RunPhase} {rest : List BackupSchedule} :
      phase'.job = phase.job → phase'.early = phase.early →
      Change t s n at_ (.run x phase rest) (s.put n at_ (.run x phase' rest))
  | create {x : BackupSchedule} {node : Text} {rest : List BackupSchedule} :
      Change t s n at_ (.run x (.create node) rest)
        { s.put n at_ (.run x (.backup node s.jobs.length) rest) with jobs := s.jobs ++
          [⟨x.id, at_, .RUNNING⟩] }
  | finish {x : BackupSchedule} {node : Text} {job : Nat} {ok : Bool} {phase : RunPhase}
      {rest : List BackupSchedule} : phase.job = none → phase.early = false →
      Change t s n at_ (.run x (.finish node job ok) rest)
        { s.put n at_ (.run x phase rest) with
          jobs := s.jobs.modify job fun j =>
            { j with status := if ok then .SUCCEEDED else .FAILED } }
  | leave {x : BackupSchedule} {phase : RunPhase} {rest : List BackupSchedule} : phase.job = none →
      Change t s n at_ (.run x phase rest) (s.leave n at_ x rest)
  | abort {x : BackupSchedule} {phase : RunPhase} {rest : List BackupSchedule} : phase.job = none →
      Change t s n at_ (.run x phase rest) ((s.release x).put n at_ .ended)

/-- The ways a step goes. -/
inductive Goes (t : Table) (s : State) : State → Prop
  | wait (now : Nat) : Goes t s { s with now }
  | start : Goes t s { s with ticks := s.ticks ++ [⟨s.now, .listing⟩] }
  | change {n at_ : Nat} {p : Phase} {s' : State} : s.ticks[n]? = some ⟨at_, p⟩ →
    Change t s n at_ p s' →
      Goes t s s'

theorem goes_self (t : Table) (s : State) : Goes t s s := .wait s.now

theorem step_goes {e : Step} (h : s.Careful e) : Goes t s (s.step t e) := by
  cases e with
  | wait ms => exact .wait _
  | start => exact .start
  | rows n seen =>
    simp only [step]
    split
    · next hn =>
      refine .change hn (.read rfl rfl ?_ ?_ ?_)
      · split_ifs <;> rfl
      · split_ifs
        · exact .inl (nil_sublist _)
        · exact .inl filter_sublist
      · intro active lastRunOf heq
        split_ifs at heq
    · exact goes_self t s
  | last n =>
    simp only [step]
    split
    · next hn =>
      refine .change hn (.read rfl rfl rfl (.inr rfl) fun active lastRunOf heq => ?_)
      exact (Phase.counted.inj heq).2.symm
    · exact goes_self t s
  | due n =>
    simp only [step]
    split
    · next hn => exact .change hn (.take (h _ _ _ hn))
    · exact goes_self t s
  | found n target online managers =>
    simp only [step]
    split
    · next hn =>
      split
      · split_ifs
        · exact .change hn (.advance rfl rfl)
        · exact .change hn (.leave rfl)
      · exact .change hn (.leave rfl)
    · exact goes_self t s
  | create n =>
    simp only [step]
    split
    · next hn => exact .change hn .create
    · exact goes_self t s
  | backup n ok =>
    simp only [step]
    split
    · next hn => exact .change hn (.advance rfl rfl)
    · exact goes_self t s
  | finish n =>
    simp only [step]
    split
    · next hn =>
      refine .change hn (.finish ?_ ?_)
      · split <;> first | rfl | (split_ifs <;> rfl)
      · split <;> first | rfl | (split_ifs <;> rfl)
    · exact goes_self t s
  | second n target =>
    simp only [step]
    split
    · next hn =>
      refine .change hn (.advance ?_ ?_)
      · cases target <;> rfl
      · cases target <;> rfl
    · exact goes_self t s
  | copied n =>
    simp only [step]
    split
    · next hn => exact .change hn (.advance rfl rfl)
    · exact goes_self t s
  | dumped n =>
    simp only [step]
    split
    · next hn => exact .change hn (.leave rfl)
    · exact goes_self t s
  | fails n =>
    simp only [step]
    split
    · next hn => exact .change hn (.read rfl rfl rfl (.inl (nil_sublist _)) fun _ _ h => by cases h)
    · next hn => exact .change hn (.read rfl rfl rfl (.inl (nil_sublist _)) fun _ _ h => by cases h)
    · next hn => exact .change hn (.leave rfl)
    · next hn => exact .change hn (.abort (h _ hn))
    · exact goes_self t s

/-! ## The invariant -/

/-- What holds of the ticks and the history. -/
structure Core (t : Table) (ticks : List Tick) (keys : List (Text × Nat)) : Prop where
  read : ∀ (n : Nat) (a : Tick), ticks[n]? = some a → a.phase.active.Sublist t.rows
  known : ∀ (n : Nat) (a : Tick), ticks[n]? = some a → ∀ x ∈ a.phase.held, x ∈ t.rows
  nodup : ∀ (n : Nat) (a : Tick), ticks[n]? = some a → (a.phase.held.map (·.id)).Nodup
  lone : ∀ (m n : Nat) (a b : Tick), ticks[m]? = some a → ticks[n]? = some b → ∀ x ∈ a.phase.held,
    ∀ y ∈ b.phase.held, x.id = y.id → m = n
  waiting : ∀ (n : Nat) (a : Tick), ticks[n]? = some a → ∀ x ∈ a.phase.pending,
    (x.anchor ≤ a.now ∧ x.createdAt ≤ a.now) ∧ ∀ at_, (x.id, at_) ∈ keys → x.slot at_ < x.slot a.now
  once : ∀ x ∈ t.rows, ∀ (i j at_ at' : Nat), keys[i]? = some (x.id, at_) →
    keys[j]? = some (x.id, at') →
    x.slot at_ = x.slot at' → i = j
  anchored : ∀ x ∈ t.rows, ∀ at_, (x.id, at_) ∈ keys → x.anchor ≤ at_ ∧ x.createdAt ≤ at_
  older : ∀ (n at_ : Nat) (active : List BackupSchedule) (lastRunOf : Text → Option Nat),
    ticks[n]? = some ⟨at_, .counted active lastRunOf⟩ → ∀ id last, lastRunOf id = some last →
      (id, last) ∈ keys

namespace Core

variable {ticks : List Tick} {ks : List (Text × Nat)} {p p' : Phase}

/-- A tick that takes up nothing new. -/
theorem set (h : Core t ticks ks) (hn : ticks[n]? = some ⟨at_, p⟩)
    (hread : p'.active.Sublist t.rows)
    (hheld : p'.held.Sublist p.held) (hpending : ∀ x ∈ p'.pending, x ∈ p.pending)
    (holder : ∀ active lastRunOf, p' = .counted active lastRunOf →
      ∀ id last, lastRunOf id = some last →
      (id, last) ∈ ks) : Core t (ticks.set n ⟨at_, p'⟩) ks where
  read m a ha := by
    rcases Cells.of_set ha with ⟨-, rfl⟩ | ⟨-, ha⟩
    · exact hread
    · exact h.read m a ha
  known m a ha x hx := by
    rcases Cells.of_set ha with ⟨-, rfl⟩ | ⟨-, ha⟩
    · exact h.known n _ hn x (hheld.subset hx)
    · exact h.known m a ha x hx
  nodup m a ha := by
    rcases Cells.of_set ha with ⟨-, rfl⟩ | ⟨-, ha⟩
    · exact (h.nodup n _ hn).sublist (hheld.map _)
    · exact h.nodup m a ha
  lone m k a b ha hb x hx y hy hid := by
    rcases Cells.of_set ha with ⟨rfl, rfl⟩ | ⟨-, ha⟩
    · rcases Cells.of_set hb with ⟨rfl, rfl⟩ | ⟨-, hb⟩
      · rfl
      · exact h.lone m k _ b hn hb x (hheld.subset hx) y hy hid
    · rcases Cells.of_set hb with ⟨rfl, rfl⟩ | ⟨-, hb⟩
      · exact h.lone m _ a _ ‹_› hn x hx y (hheld.subset hy) hid
      · exact h.lone m k a b ha hb x hx y hy hid
  waiting m a ha x hx := by
    rcases Cells.of_set ha with ⟨-, rfl⟩ | ⟨-, ha⟩
    · exact h.waiting n _ hn x (hpending x hx)
    · exact h.waiting m a ha x hx
  __ := h
  older m at' active lastRunOf ha := by
    rcases Cells.of_set ha with ⟨-, heq⟩ | ⟨-, ha⟩
    · exact holder active lastRunOf (congrArg Tick.phase heq).symm
    · exact h.older m at' active lastRunOf ha

/-- A tick that takes up what is due. -/
theorem take (h : Core t ticks ks) (hn : ticks[n]? = some ⟨at_, p⟩) {l : List BackupSchedule}
    (hl : l.Sublist t.rows) (hdue : ∀ x ∈ l, x.due at_ (lastRun x.id ks) = true ∧
      ∀ (m : Nat) (a : Tick), ticks[m]? = some a → ∀ y ∈ a.phase.held, y.id ≠ x.id) :
    Core t (ticks.set n ⟨at_, .enter l⟩) ks where
  read m a ha := by
    rcases Cells.of_set ha with ⟨-, rfl⟩ | ⟨-, ha⟩
    · exact Phase.active_enter l ▸ nil_sublist _
    · exact h.read m a ha
  known m a ha x hx := by
    rcases Cells.of_set ha with ⟨-, rfl⟩ | ⟨-, ha⟩
    · rw [Phase.held_enter] at hx
      exact hl.subset hx
    · exact h.known m a ha x hx
  nodup m a ha := by
    rcases Cells.of_set ha with ⟨-, rfl⟩ | ⟨-, ha⟩
    · rw [Phase.held_enter]
      exact t.nodup.sublist (hl.map _)
    · exact h.nodup m a ha
  lone m k a b ha hb x hx y hy hid := by
    rcases Cells.of_set ha with ⟨rfl, rfl⟩ | ⟨-, ha⟩
    · rcases Cells.of_set hb with ⟨rfl, rfl⟩ | ⟨-, hb⟩
      · rfl
      · rw [Phase.held_enter] at hx
        exact absurd hid.symm ((hdue x hx).2 k b hb y hy)
    · rcases Cells.of_set hb with ⟨rfl, rfl⟩ | ⟨-, hb⟩
      · rw [Phase.held_enter] at hy
        exact absurd hid ((hdue y hy).2 m a ‹_› x hx)
      · exact h.lone m k a b ha hb x hx y hy hid
  waiting m a ha x hx := by
    rcases Cells.of_set ha with ⟨-, rfl⟩ | ⟨-, ha⟩
    · rw [Phase.pending_enter] at hx
      obtain ⟨step, hstep, hnext⟩ := (any_eq_true _ _).1 (hdue x hx).1
      have hle := slot_lt hstep (of_decide_eq_true hnext)
      have hcreated : x.createdAt ≤ (lastRun x.id ks).getD x.createdAt := by
        cases hlast : lastRun x.id ks with
        | none => exact le_rfl
        | some last => exact (h.anchored x (hl.subset hx) last (lastRun_mem hlast)).2
      have hnow := (hcreated.trans (le_nextRun (stepMs_pos hstep) x.anchor _)).trans
          (of_decide_eq_true hnext)
      refine ⟨⟨hle.1, hnow⟩, fun at' hat => ?_⟩
      obtain ⟨last, hlast, hat'⟩ := le_lastRun hat
      rw [hlast, getD_some] at hle
      have hanchor := (h.anchored x (hl.subset hx) at' hat).1
      exact (slot_mono hat').trans_lt (hle.2 (hanchor.trans hat'))
    · exact h.waiting m a ha x hx
  __ := h
  older m at' active lastRunOf ha := by
    rcases Cells.of_set ha with ⟨-, heq⟩ | ⟨-, ha⟩
    · cases l <;> cases congrArg Tick.phase heq
    · exact h.older m at' active lastRunOf ha

theorem row_eq {x y : BackupSchedule} (hx : x ∈ t.rows) (hy : y ∈ t.rows) (h : x.id = y.id) :
    x = y :=
  inj_on_of_nodup_map t.nodup hx hy h

/-- A tick that creates the job of the schedule it runs. -/
theorem create (h : Core t ticks ks) {x : BackupSchedule} {rest : List BackupSchedule}
    {phase phase' : RunPhase}
    (hn : ticks[n]? = some ⟨at_, .run x phase rest⟩) (hearly : phase.early = true)
    (hlate : phase'.early = false) :
    Core t (ticks.set n ⟨at_, .run x phase' rest⟩) (ks ++ [(x.id, at_)]) := by
  have hpending : (Phase.run x phase rest).pending = x :: rest := if_pos hearly
  have hpending' : (Phase.run x phase' rest).pending = rest := if_neg (by rw [hlate]; decide)
  have hx := h.known n _ hn x mem_cons_self
  obtain ⟨hanchor, hlt⟩ := h.waiting n _ hn x (hpending ▸ mem_cons_self)
  have hset : Core t (ticks.set n ⟨at_, .run x phase' rest⟩) ks :=
    h.set hn (nil_sublist _) (List.Sublist.refl _)
    (fun y hy => hpending ▸ mem_cons_of_mem _ (hpending' ▸ hy)) fun _ _ heq => by cases heq
  refine ⟨hset.read, hset.known, hset.nodup, hset.lone, ?_, ?_, ?_, ?_⟩
  · intro m a ha y hy
    refine ⟨(hset.waiting m a ha y hy).1, fun at' hat => ?_⟩
    rcases mem_append.1 hat with hat | hat
    · exact (hset.waiting m a ha y hy).2 at' hat
    · obtain ⟨hid, -⟩ := Prod.mk.inj (mem_singleton.1 hat)
      -- no other tick has the schedule, and this one has it once
      obtain rfl := hset.lone m n a _ ha (Cells.set_self hn) y
        (Phase.mem_held_of_pending hy) x mem_cons_self hid
      rcases Cells.of_set ha with ⟨-, rfl⟩ | ⟨hne, -⟩
      · rw [hpending'] at hy
        have hnodup := h.nodup m _ hn
        rw [Phase.held, map_cons, nodup_cons] at hnodup
        exact absurd (hid ▸ mem_map_of_mem hy) hnodup.1
      · exact absurd rfl hne
  · intro y hy i j at₁ at₂ hi hj hslot
    have hnew {k at' : Nat} (hk : (ks ++ [(x.id, at_)])[k]? = some (y.id, at')) :
        ks[k]? = some (y.id, at') ∨ (k = ks.length ∧ x = y ∧ at' = at_) := by
      refine (Cells.of_append hk).imp_right fun ⟨hlen, heq⟩ => ?_
      obtain ⟨hid, hat⟩ := Prod.mk.inj heq
      exact ⟨hlen, row_eq hx hy hid.symm, hat⟩
    rcases hnew hi with hold | ⟨rfl, rfl, rfl⟩
    · rcases hnew hj with hold' | ⟨rfl, rfl, rfl⟩
      · exact h.once y hy i j at₁ at₂ hold hold' hslot
      · exact absurd hslot (hlt at₁ (mem_of_getElem? hold)).ne
    · rcases hnew hj with hold' | ⟨rfl, -, -⟩
      · exact absurd hslot.symm (hlt at₂ (mem_of_getElem? hold')).ne
      · rfl
  · intro y hy at' hat
    rcases mem_append.1 hat with hat | hat
    · exact h.anchored y hy at' hat
    · obtain ⟨hid, rfl⟩ := Prod.mk.inj (mem_singleton.1 hat)
      obtain rfl := row_eq hy hx hid
      exact hanchor
  · intro m at' active lastRunOf ha id last hlast
    exact mem_append_left _ (hset.older m at' active lastRunOf ha id last hlast)

end Core

/-- A job that is not finished has the run that is to finish it. -/
def Settles (s : State) : Prop :=
  ∀ (j : Nat) (a : BackupJob), s.jobs[j]? = some a → a.status = .RUNNING →
  ∃ (n : Nat) (b : Tick), s.ticks[n]? = some b ∧ b.phase.job = some j

/-- A schedule that is taken for one in progress is. -/
def Flies (s : State) : Prop := ∀ id ∈ s.inFlight, ∃ (n : Nat) (a : Tick) (x : BackupSchedule),
  s.ticks[n]? = some a ∧ a.phase.current = some x ∧ x.id = id

structure Inv (t : Table) (s : State) : Prop where
  core : Core t s.ticks s.keys
  settled : s.Settles
  flight : s.Flies

section

variable {p p' : Phase} {s' : State}

/-- The runs of the other ticks go on. -/
theorem Settles.set (h : s.Settles) (hn : s.ticks[n]? = some ⟨at_, p⟩)
    (hticks : s'.ticks = s.ticks.set n ⟨at_, p'⟩)
    (hjobs : s'.jobs = s.jobs) (hjob : ∀ j, p.job = some j → p'.job = some j) : s'.Settles := by
  intro j a ha hrunning
  rw [hjobs] at ha
  obtain ⟨m, b, hb, hbj⟩ := h j a ha hrunning
  rw [hticks]
  by_cases hm : m = n
  · subst hm
    rw [hn] at hb
    obtain rfl := some.inj hb
    exact ⟨m, _, Cells.set_self hn, hjob j hbj⟩
  · exact ⟨m, b, (Cells.set_ne hm).trans hb, hbj⟩

theorem Flies.set (h : s.Flies) (hn : s.ticks[n]? = some ⟨at_, p⟩)
    (hticks : s'.ticks = s.ticks.set n ⟨at_, p'⟩)
    (hflight : ∀ id ∈ s'.inFlight, (∃ x, p'.current = some x ∧ x.id = id) ∨
      (id ∈ s.inFlight ∧ ∀ x, p.current = some x → x.id ≠ id)) : s'.Flies := by
  intro id hid
  rw [hticks]
  rcases hflight id hid with ⟨x, hx, hxid⟩ | ⟨hid, hother⟩
  · exact ⟨n, _, x, Cells.set_self hn, hx, hxid⟩
  · obtain ⟨m, a, x, ha, hx, hxid⟩ := h id hid
    have hm : m ≠ n := by
      rintro rfl
      rw [hn] at ha
      obtain rfl := some.inj ha
      exact hother x hx hxid
    exact ⟨m, a, x, (Cells.set_ne hm).trans ha, hx, hxid⟩

theorem keys_finish (job : Nat) (status : Status) :
    (s.jobs.modify job fun j => { j with status }).map BackupJob.key = s.keys := by
  unfold keys
  refine ext_getElem? fun i => ?_
  rw [List.getElem?_map, List.getElem?_map, List.getElem?_modify]
  cases s.jobs[i]? with
  | none => rfl
  | some j =>
    refine congrArg some ?_
    split_ifs <;> rfl

theorem current_of_held {p : Phase} (h : p.held = []) : p.current = none := by
  cases p with
  | run => cases h
  | listing | listed | counted | ended => rfl

theorem Inv.change (h : Inv t s) (hn : s.ticks[n]? = some ⟨at_, p⟩) (hc : Change t s n at_ p s') :
    Inv t s' := by
  cases hc with
  | @read p p' hp hjob hp' hread hlast =>
    refine ⟨h.core.set hn ?_ (hp' ▸ nil_sublist _) ?_ ?_, h.settled.set hn rfl rfl ?_,
      h.flight.set hn rfl ?_⟩
    · rcases hread with hread | hread
      · exact hread
      · exact hread ▸ h.core.read n _ hn
    · intro x hx
      have hheld := Phase.mem_held_of_pending hx
      rw [hp'] at hheld
      cases hheld
    · intro active lastRunOf heq id last hid
      rw [hlast active lastRunOf heq] at hid
      exact lastRun_mem hid
    · intro j hj
      rw [hjob] at hj
      cases hj
    · intro id hid
      refine .inr ⟨hid, fun x hx => ?_⟩
      rw [current_of_held hp] at hx
      cases hx
  | @take active lastRunOf hdue =>
    rw [enter_eq]
    refine ⟨h.core.take hn ?_ hdue, h.settled.set hn rfl rfl ?_, h.flight.set hn rfl ?_⟩
    · exact filter_sublist.trans (h.core.read n _ hn)
    · intro j hj
      cases hj
    · intro id hid
      rcases mem_append.1 hid with hid | hid
      · obtain ⟨x, hx, rfl⟩ := map_eq_some_iff.1 (mem_toList.1 hid)
        exact .inl ⟨x, (Phase.current_enter _).trans hx, rfl⟩
      · exact .inr ⟨hid, fun x hx => by cases hx⟩
  | @advance x phase phase' rest hjob hearly =>
    have hpending : (Phase.run x phase' rest).pending = (Phase.run x phase rest).pending := by
      simp only [Phase.pending, hearly]
    refine ⟨h.core.set hn (nil_sublist _) (List.Sublist.refl _) ?_ ?_, h.settled.set hn rfl rfl ?_,
      h.flight.set hn rfl ?_⟩
    · exact fun y hy => hpending ▸ hy
    · intro _ _ heq
      cases heq
    · intro j hj
      exact hjob.trans hj
    · intro id hid
      by_cases hx : x.id = id
      · exact .inl ⟨x, rfl, hx⟩
      · exact .inr ⟨hid, fun y hy => some.inj hy ▸ hx⟩
  | @create x node rest =>
    have hkeys : (s.jobs ++ [(⟨x.id, at_, .RUNNING⟩ : BackupJob)]).map BackupJob.key =
        s.keys ++ [(x.id, at_)] :=
      map_append
    refine ⟨?_, ?_, h.flight.set hn rfl ?_⟩
    · unfold keys
      rw [hkeys]
      exact h.core.create hn rfl rfl
    · intro j a ha hrunning
      rcases lt_or_ge j s.jobs.length with hlt | hge
      · rw [List.getElem?_append_left hlt] at ha
        obtain ⟨m, b, hb, hbj⟩ := h.settled j a ha hrunning
        have hm : m ≠ n := by
          rintro rfl
          rw [hn] at hb
          obtain rfl := some.inj hb
          cases hbj
        exact ⟨m, b, (Cells.set_ne hm).trans hb, hbj⟩
      · have hj : j = s.jobs.length := by
          have hlt := (List.getElem?_eq_some_iff.1 ha).1
          rw [length_append, length_singleton] at hlt
          omega
        exact ⟨n, _, Cells.set_self hn, congrArg some hj.symm⟩
    · intro id hid
      by_cases hx : x.id = id
      · exact .inl ⟨x, rfl, hx⟩
      · exact .inr ⟨hid, fun y hy => some.inj hy ▸ hx⟩
  | @finish x node job ok phase rest hjob hearly =>
    refine ⟨?_, ?_, h.flight.set hn rfl ?_⟩
    · show Core t _ ((s.jobs.modify job _).map BackupJob.key)
      rw [keys_finish]
      have hpending : (Phase.run x phase rest).pending = rest := if_neg (by rw [hearly]; decide)
      refine h.core.set hn (nil_sublist _) (List.Sublist.refl _) (fun y hy => ?_) fun _ _ heq => by
        cases heq
      exact hpending ▸ hy
    · intro j a ha hrunning
      rw [List.getElem?_modify] at ha
      obtain ⟨b, hb, rfl⟩ := map_eq_some_iff.1 ha
      by_cases hj : job = j
      · rw [if_pos hj] at hrunning
        cases ok <;> cases hrunning
      · rw [if_neg hj] at hrunning
        obtain ⟨m, c, hc, hcj⟩ := h.settled j b hb hrunning
        have hm : m ≠ n := by
          rintro rfl
          rw [hn] at hc
          obtain rfl := some.inj hc
          exact hj (some.inj hcj)
        exact ⟨m, c, (Cells.set_ne hm).trans hc, hcj⟩
    · intro id hid
      by_cases hx : x.id = id
      · exact .inl ⟨x, rfl, hx⟩
      · exact .inr ⟨hid, fun y hy => some.inj hy ▸ hx⟩
  | @leave x phase rest hjob =>
    rw [leave, enter_eq]
    refine ⟨h.core.set hn ?_ ?_ ?_ ?_, h.settled.set hn rfl rfl ?_, h.flight.set hn rfl ?_⟩
    · exact Phase.active_enter rest ▸ nil_sublist _
    · rw [Phase.held_enter]
      exact sublist_cons_self x rest
    · intro y hy
      rw [Phase.pending_enter] at hy
      simp only [Phase.pending]
      split_ifs
      · exact mem_cons_of_mem _ hy
      · exact hy
    · intro _ _ heq
      cases rest <;> cases heq
    · intro j hj
      rw [Phase.job, hjob] at hj
      cases hj
    · intro id hid
      rcases mem_append.1 hid with hid | hid
      · obtain ⟨y, hy, rfl⟩ := map_eq_some_iff.1 (mem_toList.1 hid)
        exact .inl ⟨y, (Phase.current_enter _).trans hy, rfl⟩
      · obtain ⟨hid, hne⟩ := mem_filter.1 hid
        exact .inr ⟨hid, fun y hy => some.inj hy ▸ Ne.symm (of_decide_eq_true hne)⟩
  | @abort x phase rest hjob =>
    refine ⟨h.core.set hn (nil_sublist _) (nil_sublist _) ?_ ?_, h.settled.set hn rfl rfl ?_,
      h.flight.set hn rfl ?_⟩
    · intro y hy
      cases hy
    · intro _ _ heq
      cases heq
    · intro j hj
      rw [Phase.job, hjob] at hj
      cases hj
    · intro id hid
      obtain ⟨hid, hne⟩ := mem_filter.1 hid
      exact .inr ⟨hid, fun y hy => some.inj hy ▸ Ne.symm (of_decide_eq_true hne)⟩

theorem Inv.goes (h : Inv t s) (hg : Goes t s s') : Inv t s' := by
  cases hg with
  | wait now => exact ⟨h.core, h.settled, h.flight⟩
  | change hn hc => exact h.change hn hc
  | start =>
    refine ⟨⟨fun m a ha => ?_, fun m a ha x hx => ?_,
      fun m a ha => ?_, fun m k a b ha hb x hx y hy hid => ?_,
      fun m a ha x hx => ?_, h.core.once, h.core.anchored, fun m at_ active lastRunOf ha => ?_⟩,
      fun j a ha hrunning => ?_, fun id hid => ?_⟩
    · rcases Cells.of_append ha with ha | ⟨-, rfl⟩
      · exact h.core.read m a ha
      · exact nil_sublist _
    · rcases Cells.of_append ha with ha | ⟨-, rfl⟩
      · exact h.core.known m a ha x hx
      · cases hx
    · rcases Cells.of_append ha with ha | ⟨-, rfl⟩
      · exact h.core.nodup m a ha
      · exact nodup_nil
    · rcases Cells.of_append ha with ha | ⟨-, rfl⟩
      · rcases Cells.of_append hb with hb | ⟨-, rfl⟩
        · exact h.core.lone m k a b ha hb x hx y hy hid
        · cases hy
      · cases hx
    · rcases Cells.of_append ha with ha | ⟨-, rfl⟩
      · exact h.core.waiting m a ha x hx
      · cases hx
    · rcases Cells.of_append ha with ha | ⟨-, heq⟩
      · exact h.core.older m at_ active lastRunOf ha
      · cases congrArg Tick.phase heq
    · obtain ⟨n, b, hb, hbj⟩ := h.settled j a ha hrunning
      exact ⟨n, b, Cells.append hb, hbj⟩
    · obtain ⟨n, a, x, ha, hx⟩ := h.flight id hid
      exact ⟨n, a, x, Cells.append ha, hx⟩

end

/-! ## Runs -/

theorem inv_start (now : Nat) : Inv t (start now) := by
  have hnone {m : Nat} {a : Tick} : (start now).ticks[m]? = some a → False := fun h => by cases h
  have hjob {m : Nat} {k : Text × Nat} : (start now).keys[m]? = some k → False :=
    fun h => by cases h
  exact ⟨⟨fun _ _ h => (hnone h).elim, fun _ _ h => (hnone h).elim, fun _ _ h => (hnone h).elim,
    fun _ _ _ _ h => (hnone h).elim, fun _ _ h => (hnone h).elim,
      fun _ _ _ _ _ _ h => (hjob h).elim,
    fun _ _ _ h => (not_mem_nil h).elim, fun _ _ _ _ h => (hnone h).elim⟩,
    (fun _ _ h => by cases h), fun _ h => (not_mem_nil h).elim⟩

theorem inv_run (steps : List Step) (h : Inv t s) (hc : CarefulRun t s steps) :
    Inv t (run t s steps) := by
  induction steps generalizing s with
  | nil => exact h
  | cons e steps ih => exact ih (h.goes (step_goes hc.1)) hc.2

/-- What is due by the history is due by an older reading of it. -/
theorem due_of_older (h : Inv t s) {active : List BackupSchedule} {lastRunOf : Text → Option Nat}
    (hn : s.ticks[n]? = some ⟨at_, .counted active lastRunOf⟩) {x : BackupSchedule}
    (hx : x ∈ t.rows)
    (hdue : x.due at_ (lastRun x.id s.keys) = true) : x.due at_ (lastRunOf x.id) = true := by
  obtain ⟨step, hstep, hnext⟩ := (any_eq_true _ _).1 hdue
  refine (any_eq_true _ _).2 ⟨step, hstep, decide_eq_true (le_trans ?_ (of_decide_eq_true hnext))⟩
  refine nextRun_mono ?_
  cases hold : lastRunOf x.id with
  | some last =>
    obtain ⟨last', hlast, hle⟩ := le_lastRun (h.core.older n at_ active lastRunOf hn x.id last hold)
    rwa [hlast]
  | none =>
    cases hlast : lastRun x.id s.keys with
    | none => exact le_rfl
    | some last => exact (h.core.anchored x hx last (lastRun_mem hlast)).2

theorem Inv.promised (h : Inv t s) : s.Promised t where
  once x hx i j a b ha hb hai hbi hslot := by
    have hkey {k : Nat} {c : BackupJob} (hc : s.jobs[k]? = some c) (hid : c.scheduleId = x.id) :
        s.keys[k]? = some (x.id, c.startedAt) := by
      unfold keys
      rw [List.getElem?_map, hc, ← hid]
      rfl
    exact h.core.once x hx i j _ _ (hkey ha hai) (hkey hb hbi) hslot
  alone m n a b x y ha hb hx hy hid :=
    h.core.lone m n a b ha hb x (Phase.mem_held_of_current hx) y (Phase.mem_held_of_current hy) hid
  prompt n at_ active lastRunOf hn x hx hdue hidle := by
    have hrow := (h.core.read n _ hn).subset hx
    refine mem_filter.2 ⟨hx, ?_⟩
    rw [Bool.and_eq_true, Bool.not_eq_true', contains_eq_mem, decide_eq_false_iff_not]
    refine ⟨fun hflight => ?_, due_of_older h hn hrow hdue⟩
    obtain ⟨m, a, y, ha, hy, hid⟩ := h.flight x.id hflight
    exact hidle m a y ha hy hid
  turn n at_ x rest online managers node hn hnode := by
    have hfound : s.step t (.found n true online managers) =
        s.put n at_ (.run x (.create node) rest) := by
      simp [step, hn, hnode]
    have hput : (s.put n at_ (.run x (.create node) rest)).ticks[n]? =
        some ⟨at_, .run x (.create node) rest⟩ :=
      Cells.set_self hn
    rw [hfound]
    simp only [step, hput]
    rfl
  settled := h.settled

/-- Whatever fails, in careful runs every due slot is run once and no two runs of a schedule
overlap. -/
theorem promised_of_carefulTicks (t : Table) (now : Nat) (steps : List Step)
    (h : CarefulRun t (start now) steps) :
    (run t (start now) steps).Promised t :=
  (inv_run steps (inv_start now) h).promised

/-! ## Two ticks -/

/-- Every hour, from the start of time on. -/
def hourly (id : Char) : BackupSchedule := ⟨[id], ['t'], none, none, 1, some .hours, 0, none⟩

def twoSchedules : Table := ⟨[hourly 'a', hourly 'b'], by decide⟩

/-- The steps of a tick up to its list. -/
def tickUp (n : Nat) : List Step := [.start, .rows n fun _ => true, .last n, .due n]

/-- A tick begins the run of the first schedule on its list. -/
def began (n : Nat) : List Step := [.found n true (fun _ => true) [['m']], .create n]

def ended (n : Nat) : List Step := [.backup n true, .finish n, .dumped n]

theorem promised_twoSchedules : (run twoSchedules (start 3600000)
    (tickUp 0 ++ began 0 ++ ended 0 ++ began 0 ++ ended 0)).Promised twoSchedules := by
  refine promised_of_carefulTicks twoSchedules 3600000 _ ?_
  refine ⟨trivial, trivial, trivial, ?_, trivial, trivial, trivial, trivial, trivial, trivial,
    trivial, trivial,
    trivial, trivial, trivial⟩
  intro at_ active lastRunOf h
  cases h
  intro x hx
  refine ⟨?_, fun m a ha y hy => ?_⟩
  · revert x
    decide
  · -- the only tick has not begun
    cases m with
    | zero =>
      cases ha
      cases hy
    | succ m => cases ha

/-- While a tick is at the first schedule, the next tick runs the second; the first tick then runs
it again. -/
theorem not_promised_twoSchedules : ¬ ∀ (t : Table) (now : Nat) (steps : List Step),
    (run t (start now) steps).Promised t := by
  intro h
  have hjobs : (run twoSchedules (start 3600000)
      (tickUp 0 ++ began 0 ++ [.wait 60000] ++ tickUp 1 ++ began 1 ++
      ended 0 ++ began 0)).jobs = [⟨['a'], 3600000, .SUCCEEDED⟩, ⟨['b'], 3660000, .RUNNING⟩,
        ⟨['b'], 3600000, .RUNNING⟩] := by decide
  have honce := (h twoSchedules 3600000 _).once (hourly 'b') (by decide) 1 2 _ _
      (congrArg (·[1]?) hjobs)
    (congrArg (·[2]?) hjobs) rfl rfl rfl
  cases honce

end State

end Backup
