import Swarmy.Js.Value
import Swarmy.Machine.Run

/-!
# The live inventory

Managers of one swarm push what they read of its services to the controller, which keeps the
last snapshot of each and merges them.  Reads, pushes and writes interleave in any order.
Snapshots remember when they were read, and writes what they left, for the statements only.
-/

namespace Swarmy.Gateway

open List Option Function Nat

/-- A service, with what it was changed to at its last change. -/
structure SwarmServiceInfo where
  id : String
  updatedAt : Nat
  spec : String
deriving DecidableEq

/-- The services of the swarm, as an agent read them. -/
structure Snapshot where
  readAt : Nat
  services : List SwarmServiceInfo

/-- What an agent sends. -/
inductive AgentReport where
  | commandResult (written : Nat)
  | serviceState (s : Snapshot)

/-- A manager's agent: its reads and results that are not sent yet, and its socket. -/
structure Agent where
  connected : Bool
  reads : List Snapshot
  results : List Nat
  socket : List AgentReport

/-- A write through a manager that has been connected since; `left` is the service it left,
if it did not remove it. -/
structure ServiceWrite where
  executor : String
  service : String
  time : Nat
  left : Option SwarmServiceInfo
  resultSeen : Bool
  snapshotSeen : Bool
deriving DecidableEq

/-- The swarm, its agents and the `GatewayStore` of an organisation. -/
structure Inventory where
  clock : Nat
  swarm : List SwarmServiceInfo
  removed : List (String × Nat)
  agents : String → Agent
  nodeOrg : List String
  serviceInfo : String → Option Snapshot
  writes : List ServiceWrite

namespace Inventory

def initial : Inventory where
  clock := 0
  swarm := []
  removed := []
  agents _ := ⟨false, [], [], []⟩
  nodeOrg := []
  serviceInfo _ := none
  writes := []

/-! ## The merge -/

/-- One service of one manager: the newest spec wins. -/
def mergeService (byId : List SwarmServiceInfo) (svc : SwarmServiceInfo) : List SwarmServiceInfo :=
  match byId.find? (·.id = svc.id) with
  | none => byId ++ [svc]
  | some seen =>
    if seen.updatedAt ≤ svc.updatedAt then byId.map fun s => if s.id = svc.id then svc else s
    else byId

/-- What the managers report, in the order of the nodes. -/
def reported (w : Inventory) : List SwarmServiceInfo :=
  w.nodeOrg.flatMap fun nodeId => ((w.serviceInfo nodeId).map (·.services)).getD []

def liveServicesForOrg (w : Inventory) : List SwarmServiceInfo := w.reported.foldl mergeService []

/-! ## Runs -/

variable (w : Inventory)

def setAgent (nodeId : String) (a : Agent) : Inventory :=
  { w with agents := update w.agents nodeId a }

/-- A write through a manager changes the swarm, and its result is to be sent. -/
def write (nodeId service : String) (left : Option SwarmServiceInfo)
    (swarm : List SwarmServiceInfo) :
    Inventory :=
  { w.setAgent nodeId { w.agents nodeId with results := (w.agents nodeId).results ++
    [w.clock + 1] } with
    clock := w.clock + 1
    swarm := swarm
    removed := match left with
      | none => (service, w.clock + 1) :: w.removed
      | some _ => w.removed
    writes := ⟨nodeId, service, w.clock + 1, left, false, false⟩ :: w.writes }

/-- The controller takes a report from a socket. -/
def receive (nodeId : String) : AgentReport → Inventory
  | .commandResult written =>
    { w with writes := w.writes.map fun W =>
        if W.time = written then { W with resultSeen := true } else W }
  | .serviceState s =>
    { w with
      serviceInfo := update w.serviceInfo nodeId (some s)
      writes := w.writes.map fun W =>
        if W.executor = nodeId ∧ W.time ≤ s.readAt then { W with snapshotSeen := true } else W }

end Inventory

inductive InventoryMove where
  | connect (nodeId : String)
  | disconnect (nodeId : String)
  | create (nodeId : String) (svc : SwarmServiceInfo)
  | update (nodeId : String) (svc : SwarmServiceInfo)
  | remove (nodeId service : String)
  | read (nodeId : String)
  | push (nodeId : String) (i : Nat)
  | sendResult (nodeId : String) (i : Nat)
  | process (nodeId : String)

/-- One move.  Docker never gives an id twice, and a change of a service makes it newer, also in
the milliseconds that agents report; a report that is sent without a connection is lost, as is
what a closed socket held. -/
def Inventory.step (w : Inventory) : InventoryMove → Option Inventory
  | .connect nodeId =>
    if (w.agents nodeId).connected then none
    else
      some { w.setAgent nodeId { w.agents nodeId with connected := true, socket := [] } with
        nodeOrg := if nodeId ∈ w.nodeOrg then w.nodeOrg else w.nodeOrg ++ [nodeId] }
  | .disconnect nodeId =>
    some { w.setAgent nodeId { w.agents nodeId with connected := false, socket := [] } with
      serviceInfo := update w.serviceInfo nodeId none
      writes := w.writes.filter (·.executor ≠ nodeId) }
  | .create nodeId svc =>
    if (w.agents nodeId).connected ∧ svc.id ∉ w.swarm.map (·.id) ∧ svc.id ∉ w.removed.map (·.1) then
      some (w.write nodeId svc.id (some svc) (w.swarm ++ [svc]))
    else none
  | .update nodeId svc =>
    if (w.agents nodeId).connected ∧ ∃ old ∈ w.swarm, old.id = svc.id ∧
      old.updatedAt < svc.updatedAt then
      some (w.write nodeId svc.id (some svc) (w.swarm.map fun s =>
        if s.id = svc.id then svc else s))
    else none
  | .remove nodeId service =>
    if (w.agents nodeId).connected ∧ service ∈ w.swarm.map (·.id) then
      some (w.write nodeId service none (w.swarm.filter (·.id ≠ service)))
    else none
  | .read nodeId =>
    let a := w.agents nodeId
    some (w.setAgent nodeId { a with reads := a.reads ++ [⟨w.clock, w.swarm⟩] })
  | .push nodeId i =>
    let a := w.agents nodeId
    (a.reads[i]?).map fun s => w.setAgent nodeId { a with
      reads := a.reads.eraseIdx i
      socket := if a.connected then a.socket ++ [.serviceState s] else a.socket }
  | .sendResult nodeId i =>
    let a := w.agents nodeId
    (a.results[i]?).map fun written => w.setAgent nodeId { a with
      results := a.results.eraseIdx i
      socket := if a.connected then a.socket ++ [.commandResult written] else a.socket }
  | .process nodeId =>
    let a := w.agents nodeId
    match a.socket with
    | [] => none
    | f :: rest => some ((w.setAgent nodeId { a with socket := rest }).receive nodeId f)

end Swarmy.Gateway

/-!
## Reading one's own writes

The merged inventory shows what a write left as long as the executor's snapshots arrive in
the order they were read, and no other manager's older snapshot still lists a service that
was removed.
-/

namespace Swarmy.Gateway

open Machine

namespace Inventory

/-! ## What the inventory promises -/

/-- What a write left is shown, or something newer; a removed service is not shown; and what
is there still is not missed. -/
structure Shows (w : Inventory) (W : ServiceWrite) : Prop where
  newer : ∀ left, W.left = some left → ∀ s ∈ w.liveServicesForOrg, s.id = W.service →
    left.updatedAt ≤ s.updatedAt
  gone : W.left = none → ∀ s ∈ w.liveServicesForOrg, s.id ≠ W.service
  there : ∀ left, W.left = some left → W.service ∈ w.swarm.map (·.id) →
    ∃ s ∈ w.liveServicesForOrg, s.id = W.service

/-- In a state that a run of allowed moves reaches, every write whose result and whose
executor's following snapshot have been processed is shown. -/
def ReadsOwnWrites (ok : Inventory → InventoryMove → Prop) (w : Inventory) : Prop :=
  Reach step ok initial w → ∀ W ∈ w.writes, W.resultSeen = true → W.snapshotSeen = true → w.Shows W

/-! ## When it holds -/

/-- For every such write, the executor's snapshot was read after it; and if it was read
after a removal of the service, every other manager's was read after the write. -/
def Timely (w : Inventory) : Prop :=
  ∀ W ∈ w.writes, W.resultSeen = true → W.snapshotSeen = true →
    ∃ own, w.serviceInfo W.executor = some own ∧ W.time ≤ own.readAt ∧
      ∀ r ∈ w.removed, r.1 = W.service → W.time ≤ r.2 → r.2 ≤ own.readAt →
        ∀ nodeId s, w.serviceInfo nodeId = some s → W.time ≤ s.readAt

/-- A report arrives in time. -/
def InTime (w : Inventory) (m : InventoryMove) : Prop := ∀ w', w.step m = some w' → w'.Timely

/-! ## The merge -/

section

variable {w w' : Inventory} {W : ServiceWrite} {σ : Snapshot} {byId xs : List SwarmServiceInfo}
  {s svc : SwarmServiceInfo}

/-- What has been merged: one service for each id, none older than what was reported. -/
structure Merged (xs byId : List SwarmServiceInfo) : Prop where
  mem : ∀ s ∈ byId, s ∈ xs
  one : ∀ s ∈ byId, ∀ s' ∈ byId, s.id = s'.id → s = s'
  newest : ∀ x ∈ xs, ∃ s ∈ byId, s.id = x.id ∧ x.updatedAt ≤ s.updatedAt

theorem Merged.mergeService (h : Merged xs byId) :
    Merged (xs ++ [svc]) (mergeService byId svc) := by
  unfold Inventory.mergeService
  split
  next hnone =>
    have hother : ∀ s ∈ byId, s.id ≠ svc.id := fun s hs => by
      simpa using List.find?_eq_none.mp hnone s hs
    refine ⟨fun s hs => ?_, fun s hs s' hs' hid => ?_, fun x hx => ?_⟩
    · exact (List.mem_append.mp hs).elim (fun hs => List.mem_append_left _ (h.mem s hs))
        (List.mem_append_right _)
    · rcases List.mem_append.mp hs with hs | hs <;> rcases List.mem_append.mp hs' with hs' | hs'
      · exact h.one s hs s' hs' hid
      · rw [List.mem_singleton.mp hs'] at hid
        exact absurd hid (hother s hs)
      · rw [List.mem_singleton.mp hs] at hid
        exact absurd hid.symm (hother s' hs')
      · rw [List.mem_singleton.mp hs, List.mem_singleton.mp hs']
    · rcases List.mem_append.mp hx with hx | hx
      · obtain ⟨s, hs, hs'⟩ := h.newest x hx
        exact ⟨s, List.mem_append_left _ hs, hs'⟩
      · rw [List.mem_singleton.mp hx]
        exact ⟨svc, List.mem_append_right _ (List.mem_singleton_self _), rfl, le_refl _⟩
  next seen hseen =>
    have hmem := List.mem_of_find?_eq_some hseen
    have hid : seen.id = svc.id := by simpa using List.find?_some hseen
    split
    next hle =>
      refine ⟨fun s hs => ?_, fun s hs s' hs' heq => ?_, fun x hx => ?_⟩
      · obtain ⟨s₀, hs₀, rfl⟩ := List.mem_map.mp hs
        split
        · exact List.mem_append_right _ (List.mem_singleton_self _)
        · exact List.mem_append_left _ (h.mem s₀ hs₀)
      · obtain ⟨s₀, hs₀, rfl⟩ := List.mem_map.mp hs
        obtain ⟨s₁, hs₁, rfl⟩ := List.mem_map.mp hs'
        by_cases h₀ : s₀.id = svc.id <;> by_cases h₁ : s₁.id = svc.id
        · rw [if_pos h₀, if_pos h₁]
        · rw [if_pos h₀, if_neg h₁] at heq
          exact absurd heq.symm h₁
        · rw [if_neg h₀, if_pos h₁] at heq
          exact absurd heq h₀
        · rw [if_neg h₀, if_neg h₁] at heq ⊢
          exact h.one s₀ hs₀ s₁ hs₁ heq
      · -- what stood for the id is no newer than the service
        have hsvc : svc ∈ byId.map fun s => if s.id = svc.id then svc else s :=
          List.mem_map.mpr ⟨seen, hmem, if_pos hid⟩
        rcases List.mem_append.mp hx with hx | hx
        · obtain ⟨s, hs, hsid, hsle⟩ := h.newest x hx
          by_cases heq : s.id = svc.id
          · rw [h.one s hs seen hmem (heq.trans hid.symm)] at hsle
            exact ⟨svc, hsvc, heq ▸ hsid, hsle.trans hle⟩
          · exact ⟨s, List.mem_map.mpr ⟨s, hs, if_neg heq⟩, hsid, hsle⟩
        · rw [List.mem_singleton.mp hx]
          exact ⟨svc, hsvc, rfl, le_refl _⟩
    next hlt =>
      refine ⟨fun s hs => List.mem_append_left _ (h.mem s hs), h.one, fun x hx => ?_⟩
      rcases List.mem_append.mp hx with hx | hx
      · exact h.newest x hx
      · rw [List.mem_singleton.mp hx]
        exact ⟨seen, hmem, hid, Nat.le_of_not_le hlt⟩

theorem merged_live : Merged w.reported w.liveServicesForOrg := by
  have hfold : ∀ (ys xs byId : List SwarmServiceInfo), Merged xs byId →
      Merged (xs ++ ys) (ys.foldl Inventory.mergeService byId) := by
    intro ys
    induction ys with
    | nil => exact fun xs byId h => (List.append_nil xs).symm ▸ h
    | cons y ys ih =>
      intro xs byId h
      rw [List.foldl_cons, ← List.singleton_append, ← List.append_assoc]
      exact ih _ _ h.mergeService
  exact hfold _ [] [] ⟨fun s hs => (by cases hs), fun s hs => (by cases hs),
    fun x hx => (by cases hx)⟩

theorem mem_reported : s ∈ w.reported ↔
    ∃ nodeId ∈ w.nodeOrg, ∃ σ, w.serviceInfo nodeId = some σ ∧ s ∈ σ.services := by
  unfold reported
  rw [List.mem_flatMap]
  refine exists_congr fun nodeId => and_congr_right fun _ => ?_
  cases w.serviceInfo nodeId with
  | none => simp
  | some σ => simp

/-! ## What snapshots show -/

/-- A snapshot that was read after a write shows what it left, if nothing newer or nothing
at all since the service was removed. -/
structure After (w : Inventory) (σ : Snapshot) (W : ServiceWrite) : Prop where
  newer : ∀ left, W.left = some left → ∀ s ∈ σ.services, s.id = W.service →
    left.updatedAt ≤ s.updatedAt
  gone : W.left = none → ∀ s ∈ σ.services, s.id ≠ W.service
  there : ∀ left, W.left = some left → (∃ s ∈ σ.services, s.id = W.service) ∨
    ∃ r ∈ w.removed, r.1 = W.service ∧ W.time ≤ r.2 ∧ r.2 ≤ σ.readAt

def Honest (w : Inventory) (σ : Snapshot) : Prop :=
  σ.readAt ≤ w.clock ∧ ∀ W ∈ w.writes, W.time ≤ σ.readAt → w.After σ W

structure Inv (w : Inventory) : Prop where
  reads : ∀ nodeId, ∀ σ ∈ (w.agents nodeId).reads, w.Honest σ
  sockets : ∀ nodeId σ, .serviceState σ ∈ (w.agents nodeId).socket → w.Honest σ
  stored : ∀ nodeId σ, w.serviceInfo nodeId = some σ → w.Honest σ
  now : w.Honest ⟨w.clock, w.swarm⟩
  removals : ∀ W ∈ w.writes, W.left = none → (W.service, W.time) ∈ w.removed
  absent : ∀ r ∈ w.removed, r.2 ≤ w.clock ∧ r.1 ∉ w.swarm.map (·.id)
  times : ∀ W ∈ w.writes, W.time ≤ w.clock
  known : ∀ nodeId, (w.agents nodeId).socket ≠ [] ∨ (w.serviceInfo nodeId).isSome →
    nodeId ∈ w.nodeOrg
  linked : ∀ nodeId, (w.agents nodeId).connected = true → nodeId ∈ w.nodeOrg

/-- In time, and so shown. -/
theorem Inv.shows (h : Inv w) (ht : w.Timely) (hW : W ∈ w.writes) (hresult : W.resultSeen = true)
    (hsnapshot : W.snapshotSeen = true) : w.Shows W := by
  obtain ⟨own, hown, htime, hrest⟩ := ht W hW hresult hsnapshot
  have hafter := (h.stored _ own hown).2 W hW htime
  have hmerged := merged_live (w := w)
  have hnode : W.executor ∈ w.nodeOrg := h.known _ (.inr (by rw [hown]; rfl))
  refine ⟨fun left hleft s hs hid => ?_, fun hleft s hs hid => ?_, fun left hleft hswarm => ?_⟩
  · rcases hafter.there left hleft with ⟨x, hx, hxid⟩ | ⟨r, hr, hrid, hle, hread⟩
    · obtain ⟨s', hs', hid', hnewest⟩ :=
        hmerged.newest x (mem_reported.mpr ⟨_, hnode, own, hown, hx⟩)
      rw [hmerged.one s' hs' s hs (hid'.trans (hxid.trans hid.symm))] at hnewest
      exact (hafter.newer left hleft x hx hxid).trans hnewest
    · obtain ⟨nodeId, -, σ, hσ, hmem⟩ := mem_reported.mp (hmerged.mem s hs)
      have hlate := hrest r hr hrid hle hread nodeId σ hσ
      exact ((h.stored nodeId σ hσ).2 W hW hlate).newer left hleft s hmem hid
  · obtain ⟨nodeId, -, σ, hσ, hmem⟩ := mem_reported.mp (hmerged.mem s hs)
    have hlate := hrest _ (h.removals W hW hleft) rfl (le_refl _) htime nodeId σ hσ
    exact ((h.stored nodeId σ hσ).2 W hW hlate).gone hleft s hmem hid
  · rcases hafter.there left hleft with ⟨x, hx, hxid⟩ | ⟨r, hr, hrid, -, -⟩
    · obtain ⟨s, hs, hid, -⟩ := hmerged.newest x (mem_reported.mpr ⟨_, hnode, own, hown, hx⟩)
      exact ⟨s, hs, hid.trans hxid⟩
    · exact absurd (hrid ▸ hswarm) (h.absent r hr).2

/-! ## Moves -/

/-- More time, more removals, and later writes. -/
theorem Honest.mono (h : w.Honest σ) (hclock : w.clock ≤ w'.clock)
    (hremoved : ∀ r ∈ w.removed, r ∈ w'.removed)
    (hwrites : ∀ W' ∈ w'.writes, (∃ W ∈ w.writes, W.service = W'.service ∧ W.time = W'.time ∧
      W.left = W'.left) ∨ w.clock < W'.time) : w'.Honest σ := by
  refine ⟨h.1.trans hclock, fun W' hW' htime => ?_⟩
  rcases hwrites W' hW' with ⟨W, hW, hservice, ht, hleft⟩ | hlate
  · obtain ⟨hnewer, hgone, hthere⟩ := h.2 W hW (ht ▸ htime)
    rw [hleft, hservice] at hnewer hgone
    refine ⟨hnewer, hgone, fun left hl => ?_⟩
    rcases hthere left (hleft.trans hl) with hx | ⟨r, hr, hid, hle⟩
    · exact .inl (hservice ▸ hx)
    · exact .inr ⟨r, hremoved r hr, hservice ▸ hid, ht ▸ hle⟩
  · exact absurd (htime.trans h.1) (not_le.mpr hlate)

variable {nodeId : String}

/-- Moves of one agent that leave the swarm alone. -/
theorem Inv.frame (h : Inv w) {a : Agent} {info : Option Snapshot} (hclock : w'.clock = w.clock)
    (hswarm : w'.swarm = w.swarm) (hremoved : w'.removed = w.removed)
    (hagents : w'.agents = Function.update w.agents nodeId a)
    (hinfo : w'.serviceInfo = Function.update w.serviceInfo nodeId info)
    (horg : ∀ n ∈ w.nodeOrg, n ∈ w'.nodeOrg)
    (hwrites : ∀ W' ∈ w'.writes, ∃ W ∈ w.writes, W.service = W'.service ∧ W.time = W'.time ∧
      W.left = W'.left) (hreads : ∀ σ ∈ a.reads, w.Honest σ)
    (hsockets : ∀ σ, .serviceState σ ∈ a.socket → w.Honest σ)
    (hstored : ∀ σ, info = some σ → w.Honest σ)
    (hlinked : a.connected = true ∨ a.socket ≠ [] ∨ info.isSome → nodeId ∈ w'.nodeOrg) :
    Inv w' := by
  have hhonest : ∀ σ, w.Honest σ → w'.Honest σ := fun σ hσ =>
    hσ.mono hclock.ge (fun r hr => hremoved ▸ hr) fun W' hW' => .inl (hwrites W' hW')
  have hagent (n : String) : (∀ σ ∈ (w'.agents n).reads, w.Honest σ) ∧
      (∀ σ, .serviceState σ ∈ (w'.agents n).socket → w.Honest σ) ∧
      (∀ σ, w'.serviceInfo n = some σ → w.Honest σ) ∧
      ((w'.agents n).connected = true ∨ (w'.agents n).socket ≠ [] ∨ (w'.serviceInfo n).isSome →
        n ∈ w'.nodeOrg) := by
    rw [hagents, hinfo]
    by_cases hn : n = nodeId
    · subst hn
      rw [Function.update_self, Function.update_self]
      exact ⟨hreads, hsockets, hstored, hlinked⟩
    · rw [Function.update_of_ne hn, Function.update_of_ne hn]
      exact ⟨h.reads n, h.sockets n, h.stored n,
        fun hn => horg n (hn.elim (h.linked n) (h.known n))⟩
  refine ⟨fun n σ hσ => hhonest σ ((hagent n).1 σ hσ),
    fun n σ hσ => hhonest σ ((hagent n).2.1 σ hσ),
    fun n σ hσ => hhonest σ ((hagent n).2.2.1 σ hσ), ?_, fun W' hW' hleft => ?_, fun r hr => ?_,
    fun W' hW' => ?_, fun n hn => (hagent n).2.2.2 (.inr hn),
      fun n hc => (hagent n).2.2.2 (.inl hc)⟩
  · rw [hclock, hswarm]
    exact hhonest _ h.now
  · obtain ⟨W, hW, hservice, ht, hl⟩ := hwrites W' hW'
    rw [← hservice, ← ht, hremoved]
    exact h.removals W hW (hl.trans hleft)
  · rw [hclock, hswarm]
    exact h.absent r (hremoved ▸ hr)
  · obtain ⟨W, hW, -, ht, -⟩ := hwrites W' hW'
    rw [← ht, hclock]
    exact h.times W hW

/-- A write, after which the swarm shows what every write left. -/
theorem Inv.write (h : Inv w) {service : String} {left : Option SwarmServiceInfo}
    {swarm : List SwarmServiceInfo} (hafter : ∀ W ∈ (w.write nodeId service left swarm).writes,
      (w.write nodeId service left swarm).After ⟨w.clock + 1, swarm⟩ W)
    (habsent : ∀ r ∈ (w.write nodeId service left swarm).removed, r.1 ∉ swarm.map (·.id)) :
    Inv (w.write nodeId service left swarm) := by
  have hremoved : ∀ r ∈ w.removed, r ∈ (w.write nodeId service left swarm).removed := by
    intro r hr
    cases left with
    | none => exact List.mem_cons_of_mem _ hr
    | some svc => exact hr
  have hhonest : ∀ σ, w.Honest σ → (w.write nodeId service left swarm).Honest σ := by
    refine fun σ hσ => hσ.mono (Nat.le_succ _) hremoved fun W' hW' => ?_
    rcases List.mem_cons.mp hW' with rfl | hW'
    · exact .inr (Nat.lt_succ_self _)
    · exact .inl ⟨W', hW', rfl, rfl, rfl⟩
  have hagents : ∀ nodeId', ((w.write nodeId service left swarm).agents nodeId').reads =
        (w.agents nodeId').reads ∧
      ((w.write nodeId service left swarm).agents nodeId').socket = (w.agents nodeId').socket ∧
      ((w.write nodeId service left swarm).agents nodeId').connected =
        (w.agents nodeId').connected := by
    intro nodeId'
    show (Function.update w.agents nodeId _ nodeId').reads = _ ∧
      (Function.update w.agents nodeId _ nodeId').socket = _ ∧
      (Function.update w.agents nodeId _ nodeId').connected = _
    by_cases hn : nodeId' = nodeId
    · subst hn
      rw [Function.update_self]
      exact ⟨rfl, rfl, rfl⟩
    · rw [Function.update_of_ne hn]
      exact ⟨rfl, rfl, rfl⟩
  refine ⟨fun nodeId' σ hσ => hhonest σ (h.reads nodeId' σ ((hagents nodeId').1 ▸ hσ)),
    fun nodeId' σ hσ => hhonest σ (h.sockets nodeId' σ ((hagents nodeId').2.1 ▸ hσ)),
    fun nodeId' σ hσ => hhonest σ (h.stored nodeId' σ hσ),
    ⟨le_refl _, fun W hW _ => hafter W hW⟩, fun W hW hleft => ?_, fun r hr => ⟨?_, habsent r hr⟩,
    fun W hW => ?_, fun nodeId' hn => ?_, fun nodeId' hn => ?_⟩
  · rcases List.mem_cons.mp hW with rfl | hW
    · obtain rfl : left = none := hleft
      exact List.mem_cons_self ..
    · exact hremoved _ (h.removals W hW hleft)
  · cases left with
    | none =>
      rcases List.mem_cons.mp hr with rfl | hr
      · exact le_refl _
      · exact (h.absent r hr).1.trans (Nat.le_succ _)
    | some svc => exact (h.absent r hr).1.trans (Nat.le_succ _)
  · rcases List.mem_cons.mp hW with rfl | hW
    · exact le_refl _
    · exact (h.times W hW).trans (Nat.le_succ _)
  · rw [(hagents nodeId').2.1] at hn
    exact h.known nodeId' hn
  · rw [(hagents nodeId').2.2] at hn
    exact h.linked nodeId' hn

theorem Inv.create (h : Inv w) (hfresh : svc.id ∉ w.swarm.map (·.id))
    (hnew : svc.id ∉ w.removed.map (·.1)) :
    Inv (w.write nodeId svc.id (some svc) (w.swarm ++ [svc])) := by
  have hother : ∀ s ∈ w.swarm, s.id ≠ svc.id := fun s hs heq =>
    hfresh (heq ▸ List.mem_map_of_mem hs)
  have hstill : ∀ r ∈ w.removed, r.1 ≠ svc.id := fun r hr heq =>
    hnew (heq ▸ List.mem_map_of_mem hr)
  refine h.write (fun W hW => ?_) fun r hr hmem => ?_
  · rcases List.mem_cons.mp hW with rfl | hW
    · refine ⟨fun left hleft s hs hid => ?_,
        fun hleft => (by cases hleft), fun left hleft => .inl ?_⟩
      · obtain rfl := Option.some.inj hleft
        rcases List.mem_append.mp hs with hs | hs
        · exact absurd hid (hother s hs)
        · rw [List.mem_singleton.mp hs]
      · exact ⟨svc, List.mem_append_right _ (List.mem_singleton_self _), rfl⟩
    · obtain ⟨hnewer, hgone, hthere⟩ := h.now.2 W hW (h.times W hW)
      refine ⟨fun left hleft s hs hid => ?_, fun hleft s hs hid => ?_, fun left hleft => ?_⟩
      · rcases List.mem_append.mp hs with hs | hs
        · exact hnewer left hleft s hs hid
        · rw [List.mem_singleton.mp hs] at hid
          rcases hthere left hleft with ⟨x, hx, hxid⟩ | ⟨r, hr, hrid, -⟩
          · exact absurd (hxid.trans hid.symm) (hother x hx)
          · exact absurd (hrid.trans hid.symm) (hstill r hr)
      · rcases List.mem_append.mp hs with hs | hs
        · exact hgone hleft s hs hid
        · rw [List.mem_singleton.mp hs] at hid
          exact hstill _ (h.removals W hW hleft) hid.symm
      · rcases hthere left hleft with ⟨x, hx, hxid⟩ | ⟨r, hr, hrid, hle, hread⟩
        · exact .inl ⟨x, List.mem_append_left _ hx, hxid⟩
        · exact .inr ⟨r, hr, hrid, hle, hread.trans (Nat.le_succ _)⟩
  · obtain ⟨s, hs, hid⟩ := List.mem_map.mp hmem
    rcases List.mem_append.mp hs with hs | hs
    · exact (h.absent r hr).2 (hid ▸ List.mem_map_of_mem hs)
    · rw [List.mem_singleton.mp hs] at hid
      exact hstill r hr hid.symm

theorem Inv.update (h : Inv w) {old : SwarmServiceInfo} (hold : old ∈ w.swarm)
    (hid : old.id = svc.id) (hlt : old.updatedAt < svc.updatedAt) :
    Inv (w.write nodeId svc.id (some svc)
      (w.swarm.map fun s => if s.id = svc.id then svc else s)) := by
  have hmapped : ∀ s ∈ w.swarm.map fun s => if s.id = svc.id then svc else s,
      ∃ s₀ ∈ w.swarm, s₀.id = s.id ∧ (s = s₀ ∨ s = svc) := by
    intro s hs
    obtain ⟨s₀, hs₀, rfl⟩ := List.mem_map.mp hs
    refine ⟨s₀, hs₀, ?_⟩
    split
    next heq => exact ⟨heq, .inr rfl⟩
    · exact ⟨rfl, .inl rfl⟩
  have hstays : ∀ s ∈ w.swarm, ∃ s' ∈ w.swarm.map fun s => if s.id = svc.id then svc else s,
      s'.id = s.id := by
    intro s hs
    refine ⟨_, List.mem_map_of_mem hs, ?_⟩
    split
    next heq => exact heq.symm
    · rfl
  refine h.write (fun W hW => ?_) fun r hr hmem => ?_
  · rcases List.mem_cons.mp hW with rfl | hW
    · refine ⟨fun left hleft s hs hsid => ?_,
        fun hleft => (by cases hleft), fun left hleft => .inl ?_⟩
      · obtain rfl := Option.some.inj hleft
        obtain ⟨s₀, hs₀, rfl⟩ := List.mem_map.mp hs
        split at hsid
        next heq => rw [if_pos heq]
        next heq => exact absurd hsid heq
      · obtain ⟨s', hs', hs'id⟩ := hstays old hold
        exact ⟨s', hs', hs'id.trans hid⟩
    · obtain ⟨hnewer, hgone, hthere⟩ := h.now.2 W hW (h.times W hW)
      refine ⟨fun left hleft s hs hsid => ?_, fun hleft s hs hsid => ?_, fun left hleft => ?_⟩
      · obtain ⟨s₀, hs₀, hs₀id, rfl | rfl⟩ := hmapped s hs
        · exact hnewer left hleft s hs₀ hsid
        · exact (hnewer left hleft old hold (hid.trans hsid)).trans hlt.le
      · obtain ⟨s₀, hs₀, hs₀id, -⟩ := hmapped s hs
        exact hgone hleft s₀ hs₀ (hs₀id.trans hsid)
      · rcases hthere left hleft with ⟨x, hx, hxid⟩ | ⟨r, hr, hrid, hle, hread⟩
        · obtain ⟨s', hs', hs'id⟩ := hstays x hx
          exact .inl ⟨s', hs', hs'id.trans hxid⟩
        · exact .inr ⟨r, hr, hrid, hle, hread.trans (Nat.le_succ _)⟩
  · obtain ⟨s, hs, hsid⟩ := List.mem_map.mp hmem
    obtain ⟨s₀, hs₀, hs₀id, -⟩ := hmapped s hs
    exact (h.absent r hr).2 (hsid ▸ hs₀id ▸ List.mem_map_of_mem hs₀)

theorem Inv.remove (h : Inv w) {service : String} :
    Inv (w.write nodeId service none (w.swarm.filter (·.id ≠ service))) := by
  refine h.write (fun W hW => ?_) fun r hr hmem => ?_
  · rcases List.mem_cons.mp hW with rfl | hW
    · exact ⟨fun left hleft => (by cases hleft),
        fun _ s hs => of_decide_eq_true (List.mem_filter.mp hs).2,
          fun left hleft => (by cases hleft)⟩
    · obtain ⟨hnewer, hgone, hthere⟩ := h.now.2 W hW (h.times W hW)
      refine ⟨fun left hleft s hs => hnewer left hleft s (List.mem_filter.mp hs).1,
        fun hleft s hs => hgone hleft s (List.mem_filter.mp hs).1, fun left hleft => ?_⟩
      by_cases hservice : W.service = service
      · exact .inr ⟨(service, w.clock + 1), List.mem_cons_self .., hservice.symm,
          (h.times W hW).trans (Nat.le_succ _), Nat.le_refl _⟩
      · rcases hthere left hleft with ⟨x, hx, hxid⟩ | ⟨r, hr, hrid, hle, hread⟩
        · exact .inl ⟨x, List.mem_filter.mpr ⟨hx, decide_eq_true (hxid ▸ hservice)⟩, hxid⟩
        · exact .inr ⟨r, List.mem_cons_of_mem _ hr, hrid, hle, hread.trans (Nat.le_succ _)⟩
  · obtain ⟨s, hs, hid⟩ := List.mem_map.mp hmem
    obtain ⟨hs, hne⟩ := List.mem_filter.mp hs
    rcases List.mem_cons.mp hr with rfl | hr
    · exact of_decide_eq_true hne hid
    · exact (h.absent r hr).2 (hid ▸ List.mem_map_of_mem hs)

/-- An agent that sends a report, or loses it. -/
theorem Inv.send (h : Inv w) {reads : List Snapshot} {results : List Nat} {f : AgentReport}
    (hreads : ∀ σ ∈ reads, w.Honest σ) (hf : ∀ σ, f = .serviceState σ → w.Honest σ) :
    Inv (w.setAgent nodeId ⟨(w.agents nodeId).connected, reads, results,
      if (w.agents nodeId).connected then (w.agents nodeId).socket ++ [f]
      else (w.agents nodeId).socket⟩) := by
  refine h.frame rfl rfl rfl rfl (Function.update_eq_self ..).symm (fun _ => id)
    (fun W hW => ⟨W, hW, rfl, rfl, rfl⟩) hreads (fun σ hσ => ?_) (h.stored nodeId) fun hn => ?_
  · split at hσ
    · rcases List.mem_append.mp hσ with hσ | hσ
      · exact h.sockets nodeId σ hσ
      · exact hf σ (List.mem_singleton.mp hσ).symm
    · exact h.sockets nodeId σ hσ
  · cases hc : (w.agents nodeId).connected with
    | true => exact h.linked nodeId hc
    | false => exact h.known nodeId (by simpa [hc, Inventory.setAgent] using hn)

theorem Inv.connect (h : Inv w) :
    Inv { w.setAgent nodeId { w.agents nodeId with connected := true, socket := [] } with
      nodeOrg := if nodeId ∈ w.nodeOrg then w.nodeOrg else w.nodeOrg ++ [nodeId] } := by
  refine h.frame rfl rfl rfl rfl (Function.update_eq_self ..).symm (fun n hn => ?_)
    (fun W hW => ⟨W, hW, rfl, rfl, rfl⟩) (h.reads nodeId) (fun σ hσ =>
      by cases hσ) (h.stored nodeId)
    fun _ => ?_
  · dsimp only
    split
    · exact hn
    · exact List.mem_append_left _ hn
  · dsimp only
    split
    next hn => exact hn
    · exact List.mem_append_right _ (List.mem_singleton_self _)

theorem Inv.disconnect (h : Inv w) :
    Inv { w.setAgent nodeId { w.agents nodeId with connected := false, socket := [] } with
      serviceInfo := Function.update w.serviceInfo nodeId none
      writes := w.writes.filter (·.executor ≠ nodeId) } := by
  exact h.frame rfl rfl rfl rfl rfl (fun _ => id)
    (fun W hW => ⟨W, (List.mem_filter.mp hW).1, rfl, rfl, rfl⟩) (h.reads nodeId)
    (fun σ hσ => by cases hσ) (fun σ hσ => by cases hσ) fun hn => by simp at hn

theorem Inv.receive (h : Inv w) {f : AgentReport} {rest : List AgentReport}
    (hsocket : (w.agents nodeId).socket = f :: rest) :
    Inv ((w.setAgent nodeId { w.agents nodeId with socket := rest }).receive nodeId f) := by
  have hnode : nodeId ∈ w.nodeOrg := h.known nodeId (.inl (by rw [hsocket]; simp))
  have hrest : ∀ σ, .serviceState σ ∈ rest → w.Honest σ := fun σ hσ =>
    h.sockets nodeId σ (hsocket ▸ List.mem_cons_of_mem _ hσ)
  cases f with
  | commandResult written =>
    refine h.frame rfl rfl rfl rfl (Function.update_eq_self ..).symm (fun _ =>
      id) (fun W' hW' => ?_)
      (h.reads nodeId) hrest (h.stored nodeId) fun _ => hnode
    obtain ⟨W, hW, rfl⟩ := List.mem_map.mp hW'
    refine ⟨W, hW, ?_⟩
    split <;> exact ⟨rfl, rfl, rfl⟩
  | serviceState s =>
    refine h.frame rfl rfl rfl rfl rfl (fun _ => id) (fun W' hW' => ?_) (h.reads nodeId) hrest
      (fun σ hσ => ?_) fun _ => hnode
    · obtain ⟨W, hW, rfl⟩ := List.mem_map.mp hW'
      refine ⟨W, hW, ?_⟩
      split <;> exact ⟨rfl, rfl, rfl⟩
    · rw [← Option.some.inj hσ]
      exact h.sockets nodeId s (hsocket ▸ List.mem_cons_self ..)

theorem Inv.step (h : Inv w) {m : InventoryMove} (hs : w.step m = some w') : Inv w' := by
  cases m with
  | connect nodeId =>
    simp only [Inventory.step] at hs
    split at hs
    · cases hs
    · obtain rfl := Option.some.inj hs
      exact h.connect
  | disconnect nodeId =>
    obtain rfl := Option.some.inj hs
    exact h.disconnect
  | create nodeId svc =>
    simp only [Inventory.step] at hs
    split at hs
    next hok =>
      obtain rfl := Option.some.inj hs
      exact h.create hok.2.1 hok.2.2
    · cases hs
  | update nodeId svc =>
    simp only [Inventory.step] at hs
    split at hs
    next hok =>
      obtain rfl := Option.some.inj hs
      obtain ⟨-, old, hold, hid, hlt⟩ := hok
      exact h.update hold hid hlt
    · cases hs
  | remove nodeId service =>
    simp only [Inventory.step] at hs
    split at hs
    · obtain rfl := Option.some.inj hs
      exact h.remove
    · cases hs
  | read nodeId =>
    obtain rfl := Option.some.inj hs
    refine h.frame rfl rfl rfl rfl (Function.update_eq_self ..).symm (fun _ => id)
      (fun W hW => ⟨W, hW, rfl, rfl, rfl⟩) (fun σ hσ => ?_) (h.sockets nodeId) (h.stored nodeId)
      fun hn => hn.elim (h.linked nodeId) (h.known nodeId)
    rcases List.mem_append.mp hσ with hσ | hσ
    · exact h.reads nodeId σ hσ
    · rw [List.mem_singleton.mp hσ]
      exact h.now
  | push nodeId i =>
    obtain ⟨s, hget, rfl⟩ := Option.map_eq_some_iff.mp hs
    exact h.send (fun σ hσ => h.reads nodeId σ (List.mem_of_mem_eraseIdx hσ)) fun σ hσ => by
      rw [← AgentReport.serviceState.inj hσ]
      exact h.reads nodeId s (List.mem_of_getElem? hget)
  | sendResult nodeId i =>
    obtain ⟨written, hget, rfl⟩ := Option.map_eq_some_iff.mp hs
    exact h.send (h.reads nodeId) fun σ hσ => by cases hσ
  | process nodeId =>
    simp only [Inventory.step] at hs
    split at hs
    · cases hs
    next f rest hsocket =>
      obtain rfl := Option.some.inj hs
      exact h.receive hsocket

theorem Inv.initial : Inv initial :=
  ⟨fun _ σ hσ => (by cases hσ), fun _ σ hσ => (by cases hσ), fun _ σ hσ => (by cases hσ),
    ⟨le_refl _, fun W hW => (by cases hW)⟩, fun W hW => (by cases hW), fun r hr => (by cases hr),
    fun W hW => (by cases hW),
      fun _ hn => hn.elim (fun hne => absurd rfl hne) fun hs => (by cases hs),
    fun _ hc => (by cases hc)⟩

end

/-- Where reports arrive in time, the inventory reads its own writes. -/
theorem readsOwnWrites_inTime (w : Inventory) : ReadsOwnWrites InTime w := by
  intro h
  have hinv : Inv w ∧ w.Timely := h.induct (I := fun w => Inv w ∧ w.Timely)
    ⟨Inv.initial, fun W hW => by cases hW⟩ fun _ _ _ hI hok hs => ⟨hI.1.step hs, hok _ hs⟩
  exact fun W hW hresult hsnapshot => hinv.1.shows hinv.2 hW hresult hsnapshot

/-! ## A removed service -/

/-- A service is removed through one manager while the other's snapshot lists it. -/
def removedElsewhere : List InventoryMove :=
  [.connect "a", .connect "b", .create "a" ⟨"s1", 1, "web"⟩, .read "b", .push "b" 0, .process "b",
    .remove "a" "s1", .sendResult "a" 1, .process "a", .read "a", .push "a" 0, .process "a"]

/-- The result and the snapshot have been processed, and the service is shown. -/
theorem readsOwnWrites_removedElsewhere : ¬ ∀ w, ReadsOwnWrites (fun _ _ => True) w := by
  intro h
  have hrun : ((run step initial removedElsewhere).map fun w => (w.writes, w.liveServicesForOrg)) =
      some ([⟨"a", "s1", 2, none, true, true⟩, ⟨"a", "s1", 1, some ⟨"s1", 1, "web"⟩, false, true⟩],
        [⟨"s1", 1, "web"⟩]) := by decide
  obtain ⟨w, hw, heq⟩ := Option.map_eq_some_iff.mp hrun
  obtain ⟨hwrites, hlive⟩ := Prod.mk.inj heq
  have hshown := h w (reach_of_run .refl hw) ⟨"a", "s1", 2, none, true, true⟩
    (by rw [hwrites]; exact List.mem_cons_self ..) rfl rfl
  exact hshown.gone rfl ⟨"s1", 1, "web"⟩ (by rw [hlive]; exact List.mem_singleton_self _) rfl

end Inventory

end Swarmy.Gateway
