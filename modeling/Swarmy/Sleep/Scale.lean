import Mathlib.Data.List.Dedup
import Mathlib.Data.Rat.Cast.Order
import Mathlib.Tactic.Linarith
import Mathlib.Tactic.Common

/-!
# Scale to zero

The sleeper scales the services that had no activity to zero; the activator scales a service up
when a request reaches it.  Both read what the agents have reported.  A request to a service that
runs is served by its upstream and is seen by neither.
-/

namespace ScaleToZero

open List Option

abbrev Text := List Char

abbrev Labels := List (Text × Text)

def SCALE_TO_ZERO_LABEL : Text := "swarmy.scaleToZero.enabled".toList

def SCALE_TO_ZERO_TARGET_LABEL : Text := "swarmy.scaleToZero.targetReplicas".toList

def SCALE_TO_ZERO_IDLE_LABEL : Text := "swarmy.scaleToZero.idleSeconds".toList

def enabled (labels : Labels) : Bool := labels.lookup SCALE_TO_ZERO_LABEL = some "true".toList

/-- `Number(text) || low`. -/
def numberOr (Number : Text → Option Rat) (text : Option Text) (low : Rat) : Rat :=
  match text.bind Number with
  | none => low
  | some q => if q = 0 then low else q

section

variable (Number : Text → Option Rat)

def idleMs (labels : Labels) : Rat :=
  numberOr Number (labels.lookup SCALE_TO_ZERO_IDLE_LABEL) 300 * 1000

def target (labels : Labels) : Rat := numberOr Number (labels.lookup SCALE_TO_ZERO_TARGET_LABEL) 1

end

/-! ## Reports -/

structure SwarmServiceInfo where
  id : Text
  name : Text
  labels : Labels
  runningReplicas : Nat
  desiredReplicas : Option Nat
  updatedAt : Option Nat

structure Store where
  nodeOrg : List (Text × Text)
  serviceInfo : List (Text × List SwarmServiceInfo)
  managers : List (Text × Bool)

namespace Store

def nodesForOrg (st : Store) (org : Text) : List Text :=
  (st.nodeOrg.filter (·.2 = org)).map Prod.fst

/-- The newest of the reports of a service. -/
def newest (svc : SwarmServiceInfo) : List SwarmServiceInfo → List SwarmServiceInfo
  | [] => [svc]
  | seen :: rest =>
    if seen.id = svc.id then (if seen.updatedAt.getD 0 ≤ svc.updatedAt.getD 0 then svc
      else seen) :: rest
    else seen :: newest svc rest

def liveServicesForOrg (st : Store) (org : Text) : List SwarmServiceInfo :=
  ((st.nodesForOrg org).flatMap fun n => (st.serviceInfo.lookup n).getD []).foldl (fun seen svc =>
    newest svc seen) []

def managerNode (st : Store) (org : Text) : Option Text :=
  (st.nodesForOrg org).find? fun n => st.managers.lookup n = some true

end Store

/-! ## The sleeper -/

abbrev Activity := Text → Option Nat

def recordActivity (lastActivity : Activity) (name : Text) (now : Nat) : Activity :=
  fun n => if n = name then some now else lastActivity n

/-- `service.scale`, as it is dispatched to a manager of an organisation. -/
structure ScaleCommand where
  node : Text
  org : Text
  service : Text
  replicas : Rat
deriving DecidableEq

section

variable (Number : Text → Option Rat)

/-- The sleeper at one service. -/
def visit (st : Store) (now : Nat) (p : Activity × List ScaleCommand)
    (x : Text × SwarmServiceInfo) :
    Activity × List ScaleCommand :=
  let (org, s) := x
  if !enabled s.labels then p
  else if s.runningReplicas = 0 ∧ s.desiredReplicas.getD 0 = 0 then p
  else
    match p.1 s.name with
    | none => (recordActivity p.1 s.name now, p.2)
    | some last =>
      if idleMs Number s.labels < now - last then
        match st.managerNode org with
        | none => p
        | some node => (p.1, p.2 ++ [⟨node, org, s.name, 0⟩])
      else p

/-- A tick of the sleeper: the activity it leaves, and its commands. -/
def sleeper (st : Store) (now : Nat) (lastActivity : Activity) : Activity × List ScaleCommand :=
  (((st.nodeOrg.map Prod.snd).eraseDups.flatMap fun org =>
    (st.liveServicesForOrg org).map fun s => (org, s)).foldl (visit Number st now)
      (lastActivity, []))

/-! ## The activator -/

structure Found where
  orgId : Text
  running : Nat
  target : Rat

def findService (st : Store) (name : Text) : Option Found :=
  st.serviceInfo.findSome? fun (nodeId, services) => do
    let svc ← services.find? fun s => s.name = name && enabled s.labels
    let orgId ← st.nodeOrg.lookup nodeId
    if orgId = [] then none else some ⟨orgId, svc.runningReplicas, target Number svc.labels⟩

/-- The command of `wake`. -/
def wake (st : Store) (name : Text) : Option ScaleCommand := do
  let found ← findService Number st name
  let node ← st.managerNode found.orgId
  if found.running < 1 then some ⟨node, found.orgId, name, found.target⟩ else none

end

/-! ## Runs -/

/-- A service as its swarm has it. -/
structure Declared where
  labels : Labels
  replicas : Rat
deriving DecidableEq

inductive Event where
  /-- A request that a service's upstream has served. -/
  | served (org name : Text) (at_ : Nat)
  /-- The sleeper has scaled a service to zero. -/
  | slept (org name : Text) (at_ : Nat) (svc : Declared)
  /-- A request for a service has reached the activator; it may have scaled one. -/
  | called (org name : Text) (svc : Option Declared) (woken : Option (ScaleCommand × Declared))
deriving DecidableEq

structure State where
  store : Store
  lastActivity : Activity
  /-- The services of each organisation's swarm, by name. -/
  actual : Text → Text → Option Declared
  now : Nat
  /-- The newest first. -/
  history : List Event

/-- The controller has started. -/
def State.start (store : Store) (actual : Text → Text → Option Declared) (now : Nat) : State :=
  ⟨store, fun _ => none, actual, now, []⟩

/-- A command at its swarm. -/
def State.scale (s : State) (c : ScaleCommand) : State where
  store := s.store
  lastActivity := s.lastActivity
  actual := fun org name =>
    if org = c.org ∧ name = c.service then (s.actual org name).map fun d =>
      { d with replicas := c.replicas }
    else s.actual org name
  now := s.now
  history := s.history

def State.record (s : State) (e : Event) : State := { s with history := e :: s.history }

/-- A command of the sleeper at its swarm. -/
def State.sleep (s : State) (c : ScaleCommand) : State :=
  match s.actual c.org c.service with
  | none => s
  | some d => (s.scale c).record (.slept c.org c.service s.now d)

/-- A command of the activator at its swarm. -/
def State.woken (s : State) (c : Option ScaleCommand) : Option (ScaleCommand × Declared) :=
  c.bind fun c => (s.actual c.org c.service).map fun d => (c, d)

inductive Step where
  /-- Agents connect, disconnect and report. -/
  | report (store : Store)
  /-- Services are deployed, changed and removed. -/
  | deploy (actual : Text → Text → Option Declared)
  | wait (ms : Nat)
  | serve (org name : Text)
  /-- A tick of the sleeper; not all of its commands need be carried out. -/
  | tick (done : ScaleCommand → Bool)
  | request (org name : Text) (done : Bool)
  | restart

def State.step (Number : Text → Option Rat) (s : State) : Step → State
  | .report store => { s with store }
  | .deploy actual => { s with actual }
  | .wait ms => { s with now := s.now + ms }
  | .serve org name => s.record (.served org name s.now)
  | .tick done =>
    let (lastActivity, commands) := sleeper Number s.store s.now s.lastActivity
    (commands.filter done).foldl State.sleep { s with lastActivity }
  | .request org name done =>
    let command := if done then wake Number s.store name else none
    let s' := (command.elim s s.scale).record
        (.called org name (s.actual org name) (s.woken command))
    { s' with lastActivity := recordActivity s.lastActivity name s.now }
  | .restart => { s with lastActivity := fun _ => none }

def State.run (Number : Text → Option Rat) (s : State) (steps : List Step) : State :=
  steps.foldl (State.step Number) s

end ScaleToZero

/-!
## Services that are put to sleep

`good_of_careful`: a run scales only labelled services that were quiet to zero, and wakes the
service that was asked for, where the reports keep up with the swarms, the recorded activity with
the upstreams, and no two organisations use one name.
-/

namespace ScaleToZero

variable (Number : Text → Option Rat)

/-! ## The words of the statement -/

/-- The service has its label, and none of its requests was served in its idle window. -/
def Quiet (history : List Event) (org name : Text) (at_ : Nat) (labels : Labels) : Prop :=
  enabled labels = true ∧ ∀ t : Nat, .served org name t ∈ history →
    (t : Rat) + idleMs Number labels < at_

/-- A request scales no service but its own, and scales that to its target when it sleeps. -/
structure Answered (org name : Text) (svc : Option Declared)
    (woken : Option (ScaleCommand × Declared)) :
    Prop where
  own : ∀ c d, woken = some (c, d) → c.org = org ∧ c.service = name ∧ enabled d.labels = true
  wakes : ∀ d, svc = some d → enabled d.labels = true → d.replicas = 0 →
    ∃ c d', woken = some (c, d') ∧ c.replicas = target Number d.labels

/-- Everything that was scaled was rightly scaled. -/
def Good : List Event → Prop
  | [] => True
  | .served _ _ _ :: history => Good history
  | .slept org name at_ svc :: history => Quiet Number history org name at_ svc.labels ∧
    Good history
  | .called org name svc woken :: history => Answered Number org name svc woken ∧ Good history

/-- A service that a command puts to sleep is quiet. -/
def IdleAt (s : State) (c : ScaleCommand) : Prop :=
  ∀ d, s.actual c.org c.service = some d → Quiet Number s.history c.org c.service s.now d.labels

/-- A service that the sleeper looks at, as the newest report of it has it. -/
structure Watched (st : Store) (org : Text) (svc : SwarmServiceInfo) : Prop where
  live : svc ∈ st.liveServicesForOrg org
  labelled : enabled svc.labels = true
  awake : ¬ (svc.runningReplicas = 0 ∧ svc.desiredReplicas.getD 0 = 0)

/-- When a service was last active by the record; a name without one is noted now. -/
def State.lastActive (s : State) (name : Text) : Nat := (s.lastActivity name).getD s.now

/-- A service that is idle by the record is reported as its swarm has it, and its upstream has
served no request that the record does not know. -/
def Tracked (s : State) : Prop :=
  ∀ org svc, Watched s.store org svc →
    idleMs Number svc.labels < (s.now : Rat) - s.lastActive svc.name →
    ∀ d, s.actual org svc.name = some d →
      enabled d.labels = true ∧ idleMs Number d.labels ≤ idleMs Number svc.labels ∧
        ∀ t, .served org svc.name t ∈ s.history → t ≤ s.lastActive svc.name

/-- A report of a service that may be woken, by a node of an organisation. -/
structure Wakeable (st : Store) (org name : Text) (svc : SwarmServiceInfo) : Prop where
  reported : ∃ node services, (node, services) ∈ st.serviceInfo ∧ svc ∈ services ∧
    st.nodeOrg.lookup node = some org
  named : svc.name = name
  labelled : enabled svc.labels = true

/-- The reports of services of that name with the label are of the organisation, whose service has
the label; and one that sleeps is reported, as its swarm has it, and can be reached. -/
structure Known (s : State) (org name : Text) (done : Bool) : Prop where
  own : ∀ org' svc, org' ≠ [] → Wakeable s.store org' name svc → org' = org
  labelled : ∀ svc, Wakeable s.store org name svc → ∀ d, s.actual org name = some d →
    enabled d.labels = true
  asleep : ∀ d, s.actual org name = some d → enabled d.labels = true → d.replicas = 0 →
    org ≠ [] ∧ (∃ svc, Wakeable s.store org name svc) ∧
      (∀ svc, Wakeable s.store org name svc →
        svc.runningReplicas = 0 ∧ target Number svc.labels = target Number d.labels) ∧
      (s.store.managerNode org).isSome = true ∧ done = true

def Careful (s : State) : Step → Prop
  | .report _ | .deploy _ | .wait _ | .serve _ _ | .restart => True
  | .tick _ => Tracked Number s
  | .request org name done => Known Number s org name done

def CarefulRun (s : State) : List Step → Prop
  | [] => True
  | step :: steps => Careful Number s step ∧ CarefulRun (s.step Number step) steps

/-! ## The sleeper's commands -/

variable {Number} {s : State} {c c' : ScaleCommand}

theorem labels_scale (org name : Text) :
    ((s.scale c).actual org name).map Declared.labels =
    (s.actual org name).map Declared.labels := by
  unfold State.scale
  dsimp only
  split_ifs
  · rw [Option.map_map]
    rfl
  · rfl

theorem idleAt_iff : IdleAt Number s c ↔ ∀ l ∈ (s.actual c.org c.service).map Declared.labels,
    Quiet Number s.history c.org c.service s.now l := by
  simp [IdleAt]

theorem quiet_slept {history : List Event} {org name org' name' : Text} {at_ at' : Nat}
    {svc : Declared}
    {labels : Labels} : Quiet Number (.slept org' name' at' svc :: history) org name at_ labels ↔
      Quiet Number history org name at_ labels := by
  simp [Quiet]

theorem idleAt_sleep : IdleAt Number (s.sleep c') c ↔ IdleAt Number s c := by
  unfold State.sleep
  cases h : s.actual c'.org c'.service with
  | none => rfl
  | some d =>
    rw [idleAt_iff, idleAt_iff]
    show (∀ l ∈ ((s.scale c').actual c.org c.service).map Declared.labels,
      Quiet Number (.slept _ _ _ _ :: s.history) _ _ s.now l) ↔ _
    rw [labels_scale]
    simp only [quiet_slept]

theorem good_sleep : Good Number (s.sleep c).history ↔
    IdleAt Number s c ∧ Good Number s.history := by
  unfold State.sleep
  cases h : s.actual c.org c.service with
  | none =>
    refine (and_iff_right fun d hd => ?_).symm
    rw [h] at hd
    cases hd
  | some d =>
    show Quiet Number s.history c.org c.service s.now d.labels ∧ Good Number s.history ↔ _
    refine and_congr_left' ⟨fun hq d' hd' => ?_, fun hi => hi d h⟩
    rw [h] at hd'
    exact Option.some.inj hd' ▸ hq

/-- Commands that are carried out one after the other. -/
theorem good_foldl_sleep (cs : List ScaleCommand) (s : State) :
    Good Number (cs.foldl State.sleep s).history ↔ (∀ c ∈ cs, IdleAt Number s c) ∧
    Good Number s.history := by
  induction cs generalizing s with
  | nil => simp
  | cons c cs ih =>
    rw [List.foldl_cons, ih, good_sleep, List.forall_mem_cons]
    simp only [idleAt_sleep]
    tauto

/-- What a command of the sleeper is for. -/
structure Sleepy (Number : Text → Option Rat) (st : Store) (now : Nat) (lastActivity : Activity)
    (c : ScaleCommand) : Prop where
  service : ∃ svc, Watched st c.org svc ∧ c.service = svc.name ∧
    idleMs Number svc.labels < (now : Rat) - ((lastActivity svc.name).getD now : Nat)

theorem visit_inv {st : Store} {now : Nat} {lastActivity : Activity}
    {p : Activity × List ScaleCommand}
    {org : Text} {svc : SwarmServiceInfo} (hsvc : svc ∈ st.liveServicesForOrg org)
    (hrecord : ∀ n, (p.1 n).getD now = (lastActivity n).getD now)
    (hcommands : ∀ c ∈ p.2, Sleepy Number st now lastActivity c) :
    (∀ n, ((visit Number st now p (org, svc)).1 n).getD now = (lastActivity n).getD now) ∧
      ∀ c ∈ (visit Number st now p (org, svc)).2, Sleepy Number st now lastActivity c := by
  unfold visit
  dsimp only
  split_ifs with hlabel hasleep
  · exact ⟨hrecord, hcommands⟩
  · exact ⟨hrecord, hcommands⟩
  · split
    next hnone =>
      refine ⟨fun n => ?_, hcommands⟩
      show ((if n = svc.name then some now else p.1 n : Option Nat)).getD now = _
      split_ifs with hn
      · subst hn
        rw [← hrecord, hnone]
        rfl
      · exact hrecord n
    next last hlast =>
      split_ifs with hidle
      · split
        · exact ⟨hrecord, hcommands⟩
        next node hnode =>
          refine ⟨hrecord, fun c hc => ?_⟩
          rcases List.mem_append.1 hc with hc | hc
          · exact hcommands c hc
          · obtain rfl := List.mem_singleton.1 hc
            refine ⟨svc, ⟨hsvc, by simpa using hlabel, hasleep⟩, rfl, ?_⟩
            rw [← hrecord, hlast]
            exact hidle
      · exact ⟨hrecord, hcommands⟩

theorem sleepy_of_mem {st : Store} {now : Nat} {lastActivity : Activity}
    (hc : c ∈ (sleeper Number st now lastActivity).2) : Sleepy Number st now lastActivity c := by
  have hfold : ∀ (xs : List (Text × SwarmServiceInfo)) (p : Activity × List ScaleCommand),
      (∀ x ∈ xs, x.2 ∈ st.liveServicesForOrg x.1) →
      (∀ n, (p.1 n).getD now = (lastActivity n).getD now) →
      (∀ c ∈ p.2, Sleepy Number st now lastActivity c) →
      ∀ c ∈ (xs.foldl (visit Number st now) p).2, Sleepy Number st now lastActivity c := by
    intro xs
    induction xs with
    | nil => exact fun p _ _ hcommands => hcommands
    | cons x xs ih =>
      intro p hxs hrecord hcommands
      obtain ⟨hrecord', hcommands'⟩ := visit_inv (hxs x List.mem_cons_self) hrecord hcommands
      exact ih _ (fun y hy => hxs y (List.mem_cons_of_mem _ hy)) hrecord' hcommands'
  refine hfold _ _ (fun x hx => ?_) (fun _ => rfl) (fun _ hc => by cases hc) c hc
  obtain ⟨org, -, hx⟩ := List.mem_flatMap.1 hx
  obtain ⟨svc, hsvc, rfl⟩ := List.mem_map.1 hx
  exact hsvc

/-- A tracked service that the sleeper takes as idle is quiet. -/
theorem Tracked.idleAt (h : Tracked Number s)
    (hc : c ∈ (sleeper Number s.store s.now s.lastActivity).2) :
    IdleAt Number s c := by
  obtain ⟨svc, hwatched, hname, hidle⟩ := sleepy_of_mem hc
  intro d hd
  rw [hname] at hd ⊢
  obtain ⟨hlabel, hwindow, hserved⟩ := h c.org svc hwatched hidle d hd
  refine ⟨hlabel, fun t ht => ?_⟩
  have hle : (t : Rat) ≤ (s.lastActive svc.name : Nat) := Nat.cast_le.2 (hserved t ht)
  have hlast : (s.lastActive svc.name : Rat) =
      (((s.lastActivity svc.name).getD s.now : Nat) : Rat) := rfl
  rw [hlast] at hle
  linarith

/-! ## Requests -/

theorem service_of_wake {st : Store} {name : Text} (h : wake Number st name = some c) :
    c.service = name := by
  unfold wake at h
  simp only [Option.bind_eq_bind, Option.bind_eq_some_iff] at h
  obtain ⟨found, -, node, -, h⟩ := h
  split_ifs at h
  rw [← Option.some.inj h]

theorem woken_eq_some {command : Option ScaleCommand} {d : Declared} :
    s.woken command = some (c, d) ↔ command = some c ∧ s.actual c.org c.service = some d := by
  cases command with
  | none => simp [State.woken]
  | some c' =>
    simp only [State.woken, Option.bind_some, Option.map_eq_some_iff, Prod.mk.injEq,
      Option.some.injEq]
    constructor
    · rintro ⟨d', hd, rfl, rfl⟩
      exact ⟨rfl, hd⟩
    · rintro ⟨rfl, hd⟩
      exact ⟨d, hd, rfl, rfl⟩

/-- The report that `findService` takes. -/
theorem wakeable_of_findService {st : Store} {name : Text} {found : Found}
    (h : findService Number st name = some found) :
    found.orgId ≠ [] ∧ ∃ svc, Wakeable st found.orgId name svc ∧
      found.running = svc.runningReplicas ∧ found.target = target Number svc.labels := by
  obtain ⟨⟨node, services⟩, hmem, hfound⟩ := List.exists_of_findSome?_eq_some h
  simp only [Option.bind_eq_bind, Option.bind_eq_some_iff] at hfound
  obtain ⟨svc, hsvc, org, horg, hfound⟩ := hfound
  split_ifs at hfound with hnil
  obtain rfl := Option.some.inj hfound
  have hmatch := List.find?_some hsvc
  simp only [Bool.and_eq_true, decide_eq_true_eq] at hmatch
  exact ⟨hnil, svc, ⟨⟨node, services, hmem, List.mem_of_find?_eq_some hsvc, horg⟩, hmatch.1,
    hmatch.2⟩, rfl, rfl⟩

/-- It finds a service that is reported. -/
theorem findService_isSome (Number : Text → Option Rat) {st : Store} {org name : Text}
    {svc : SwarmServiceInfo} (horg : org ≠ [])
    (h : Wakeable st org name svc) : (findService Number st name).isSome = true := by
  obtain ⟨⟨node, services, hmem, hsvc, hnode⟩, hname, hlabel⟩ := h
  rw [findService, List.findSome?_isSome_iff]
  refine ⟨_, hmem, ?_⟩
  have hsome : (services.find? fun s => s.name = name && enabled s.labels).isSome = true :=
    List.find?_isSome.2 ⟨svc, hsvc, by simp [hname, hlabel]⟩
  obtain ⟨svc', hfind⟩ := Option.isSome_iff_exists.1 hsome
  simp [hfind, hnode, horg]

theorem Known.answered {org name : Text} {done : Bool} (h : Known Number s org name done) :
    Answered Number org name (s.actual org name)
      (s.woken (if done then wake Number s.store name else none)) := by
  constructor
  · intro c d hwoken
    obtain ⟨hcommand, hd⟩ := woken_eq_some.1 hwoken
    split_ifs at hcommand with hdone
    have hname := service_of_wake hcommand
    unfold wake at hcommand
    simp only [Option.bind_eq_bind, Option.bind_eq_some_iff] at hcommand
    obtain ⟨found, hfound, node, -, hcommand⟩ := hcommand
    split_ifs at hcommand
    obtain ⟨hnil, svc, hwakeable, -, -⟩ := wakeable_of_findService hfound
    have horg := h.own _ _ hnil hwakeable
    have hc : c.org = found.orgId := by rw [← Option.some.inj hcommand]
    rw [hc, horg, hname] at hd
    exact ⟨hc.trans horg, hname, h.labelled svc (horg ▸ hwakeable) d hd⟩
  · intro d hd hlabel hzero
    obtain ⟨hnil, ⟨svc, hsvc⟩, hreports, hmanager, rfl⟩ := h.asleep d hd hlabel hzero
    obtain ⟨found, hfound⟩ := Option.isSome_iff_exists.1 (findService_isSome Number hnil hsvc)
    obtain ⟨hnil', svc', hwakeable, hrunning, htarget⟩ := wakeable_of_findService hfound
    have horg := h.own _ _ hnil' hwakeable
    obtain ⟨hzero', htarget'⟩ := hreports svc' (horg ▸ hwakeable)
    obtain ⟨node, hnode⟩ := Option.isSome_iff_exists.1 hmanager
    have hwake : wake Number s.store name = some ⟨node, found.orgId, name, found.target⟩ := by
      unfold wake
      simp [hfound, horg, hnode, hrunning, hzero']
    refine ⟨_, d, woken_eq_some.2 ⟨(if_pos rfl).trans hwake, ?_⟩, htarget.trans htarget'⟩
    show s.actual found.orgId name = some d
    rw [horg, hd]

/-! ## Runs -/

theorem history_scale (command : Option ScaleCommand) :
    (command.elim s s.scale).history = s.history := by
  cases command <;> rfl

theorem good_step {step : Step} (hgood : Good Number s.history) (hok : Careful Number s step) :
    Good Number (s.step Number step).history := by
  cases step with
  | report | deploy | wait | serve | restart => exact hgood
  | tick done =>
    refine (good_foldl_sleep _ _).2 ⟨fun c hc => ?_, hgood⟩
    exact Tracked.idleAt (s := s) hok (List.mem_filter.1 hc).1
  | request org name done =>
    show Answered Number org name (s.actual org name) _ ∧
        Good Number (Option.elim _ s s.scale).history
    rw [history_scale]
    exact ⟨Known.answered hok, hgood⟩

theorem good_run {steps : List Step} (hgood : Good Number s.history)
    (h : CarefulRun Number s steps) :
    Good Number (s.run Number steps).history := by
  induction steps generalizing s with
  | nil => exact hgood
  | cons step steps ih => exact ih (good_step hgood h.1) h.2

def web : Labels := [(SCALE_TO_ZERO_LABEL, "true".toList)]

def oneService : Store :=
  ⟨[(['n'], ['a'])], [(['n'], [⟨['i'], ['w'], web, 1, some 1, none⟩])], [(['n'], true)]⟩

/-- The service as it is reported asleep. -/
def asleepStore : Store :=
  { oneService with serviceInfo := [(['n'], [⟨['i'], ['w'], web, 0, some 0, none⟩])] }

/-- A service that no request reaches is put to sleep, reported, and woken by a request. -/
def quietNight : List Step :=
  [.tick fun _ => true, .wait 301000, .tick fun _ =>
    true, .report asleepStore, .request ['a'] ['w'] true]

theorem labels_oneService {org : Text} {svc : SwarmServiceInfo}
    (h : svc ∈ oneService.liveServicesForOrg org) :
    svc.labels = web := by
  by_cases horg : org = ['a']
  · subst horg
    rw [List.mem_singleton.1 (show svc ∈ [_] from h)]
  · have hnodes : oneService.nodesForOrg org = [] := by
      simp [Store.nodesForOrg, oneService, Ne.symm horg]
    simp [Store.liveServicesForOrg, hnodes] at h

theorem tracked_oneService {s : State} (hstore : s.store = oneService) (hhistory : s.history = [])
    (hactual : ∀ org name d, s.actual org name = some d → d.labels = web) :
    Tracked (fun _ => none) s := by
  intro org svc hwatched _ d hd
  rw [hactual org svc.name d hd, labels_oneService (hstore ▸ hwatched.live)]
  refine ⟨rfl, le_rfl, fun t ht => ?_⟩
  rw [hhistory] at ht
  cases ht

theorem wakeable_asleepStore {org name : Text} {svc : SwarmServiceInfo}
    (h : Wakeable asleepStore org name svc) :
    org = ['a'] ∧ svc = ⟨['i'], ['w'], web, 0, some 0, none⟩ := by
  obtain ⟨node, services, hmem, hsvc, hnode⟩ := h.reported
  obtain ⟨rfl, rfl⟩ := Prod.mk.inj (List.mem_singleton.1 hmem)
  exact ⟨(Option.some.inj hnode).symm, List.mem_singleton.1 hsvc⟩

/-- The first tick takes note of the service; its upstream serves a request a second before the
second tick. -/
def busyRun : List Step :=
  [.tick fun _ => true, .wait 300000, .serve ['a'] ['w'], .wait 1000, .tick fun _ => true]

end ScaleToZero
