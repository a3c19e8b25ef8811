import Swarmy.Net.LinkName
import Mathlib.Data.Finset.Image
import Mathlib.Logic.Function.Basic

/-!
# Connected apps

`connectStacks`, `disconnectStacks` and the part of a compose redeploy that carries links, of
`packages/trpc/src/services/stack-links.service.ts`, a hub call at a time.  A service has its
`swarmy.links` label, the set of peers, and the link overlays it is attached to.  Connect and
disconnect rewrite both from an inventory they have read before.
-/

namespace Swarmy.Links

/-! ## Services -/

/-- A swarm service as the inventory shows it, as far as links go. -/
structure Service where
  org : String
  stack : String
  name : String
  /-- It is neither a managed-data member nor a system service. -/
  linkable : Bool
  /-- The peers in its label. -/
  links : Finset String
  /-- The link overlays among its networks. -/
  nets : Finset String
deriving DecidableEq

/-- The app a service belongs to. -/
abbrev Service.app (s : Service) : String × String := (s.org, s.stack)

/-- The overlays of a stack with some peers. -/
def overlays (org stack : String) (peers : Finset String) : Finset String :=
  peers.image (linkNetworkName org stack)

/-- The deploy of a live service with other links. -/
structure Patch where
  org : String
  stack : String
  name : String
  links : Finset String
  nets : Finset String

/-- Is this the service that a patch is for? -/
def Patch.isFor (p : Patch) (s : Service) : Bool :=
  p.org == s.org && p.stack == s.stack && p.name == s.name

/-- `linkPatch` over the service's networks as the inventory has them. -/
def linkPatch (s : Service) (peers : Finset String) : Patch where
  org := s.org
  stack := s.stack
  name := s.name
  links := peers
  nets := (s.nets \ overlays s.org s.stack (s.links \ peers)) ∪ overlays s.org s.stack peers

/-- Peer apps a stack is connected to: the union of its services' labels. -/
def stackPeers (svcs : List Service) : Finset String :=
  svcs.foldr (fun s peers => s.links ∪ peers) ∅

/-- The patches of `applyPeers`, for the services whose label is another one. -/
def applyPeers (svcs : List Service) (mutate : Finset String → Finset String) : List Patch :=
  ((svcs.filter (·.linkable)).filter fun s => s.links ≠ mutate (stackPeers svcs)).map
    fun s => linkPatch s (mutate (stackPeers svcs))

/-- A service of a compose file, with the peers in the label it may write itself and the link
overlays among its networks. -/
structure Spec where
  name : String
  linkable : Bool
  links : Finset String
  nets : Finset String

/-- `carryLinks` -/
def carryLinks (org stack : String) (peers : Finset String) (spec : Spec) : Service :=
  if peers = ∅ ∨ spec.linkable = false then
    ⟨org, stack, spec.name, spec.linkable, spec.links, spec.nets⟩
  else ⟨org, stack, spec.name, spec.linkable, peers, spec.nets ∪ overlays org stack peers⟩

/-! ## Calls -/

inductive Call where
  | idle
  | /-- `connectStacks` has read both inventories; it awaits the manager and `network.ensure`. -/
    connecting (org a b : String) (svcsA svcsB : List Service)
  | /-- It patches the services of both. -/
    joining (org a b : String) (todo : List Patch)
  | /-- `disconnectStacks` awaits the manager. -/
    disconnecting (org a b : String)
  | /-- It patches the services of the first app, with the inventory of before. -/
    leavingFirst (org a b : String) (todo : List Patch)
  | leavingSecond (org a b : String) (todo : List Patch)
  | /-- A compose redeploy; the peers were read at its start. -/
    deploying (org stack : String) (peers : Finset String) (todo : List Spec)

/-- The apps that a call is about. -/
def Call.apps : Call → List (String × String)
  | .idle => []
  | .connecting org a b _ _ | .joining org a b _ | .disconnecting org a b
  | .leavingFirst org a b _ | .leavingSecond org a b _ => [(org, a), (org, b)]
  | .deploying org stack _ _ => [(org, stack)]

structure State where
  services : List Service
  calls : Nat → Call
  /-- The pairs connected after the last disconnect that returned. -/
  linked : List (String × String × String)

/-- The pair is connected. -/
def Linked (linked : List (String × String × String)) (org a b : String) : Prop :=
  (org, a, b) ∈ linked ∨ (org, b, a) ∈ linked

def State.live (s : State) (org stack : String) : List Service :=
  s.services.filter fun svc => svc.app = (org, stack)

def State.setCall (s : State) (n : Nat) (c : Call) : State :=
  { s with calls := Function.update s.calls n c }

def State.patch (s : State) (p : Patch) : State :=
  { s with services := s.services.map fun svc =>
      if p.isFor svc then { svc with links := p.links, nets := p.nets } else svc }

/-- The deploy of a service of a compose file. -/
def State.deploy (s : State) (svc : Service) : State :=
  { s with services := svc :: s.services.filter fun x => ¬(x.app = svc.app ∧ x.name = svc.name) }

/-- The first app is done: `disconnectStacks` reads the inventory of the second. -/
def State.second (s : State) (org a b : String) : Call :=
  .leavingSecond org a b (applyPeers (s.live org b) (·.erase a))

/-- What comes of what a call awaits. -/
inductive Fate where
  | ok | failed
  | /-- It has been carried out, and the call gets an error. -/
    lost
deriving DecidableEq

inductive Move where
  | connect (n : Nat) (org a b : String)
  | disconnect (n : Nat) (org a b : String)
  | redeploy (n : Nat) (org stack : String) (specs : List Spec)
  | resume (n : Nat) (fate : Fate)
  | /-- A service is removed. -/
    remove (svc : Service)

/-- Go on with what is left, after an answer. -/
def State.next (s : State) (n : Nat) (fate : Fate) (c : Call) : State :=
  s.setCall n (if fate = .ok then c else .idle)

def resume (s : State) (n : Nat) (fate : Fate) : Option State :=
  match s.calls n with
  | .idle => none
  | .connecting org a b svcsA svcsB => some (
    if fate = .ok then
      { s with linked := (org, a, b) :: s.linked }.setCall n (.joining org a b
        (applyPeers svcsA (insert b) ++ applyPeers svcsB (insert a)))
    else s.setCall n .idle)
  | .joining _ _ _ [] => some (s.setCall n .idle)
  | .joining org a b (p :: todo) => some (
    (if fate = .failed then s else s.patch p).next n fate (.joining org a b todo))
  | .disconnecting org a b => some (
    let todo := applyPeers (s.live org a) (·.erase b)
    s.next n fate (if todo = [] then s.second org a b else .leavingFirst org a b todo))
  | .leavingFirst _ _ _ [] => none
  | .leavingFirst org a b (p :: todo) => some (
    let s := if fate = .failed then s else s.patch p
    s.next n fate (if todo = [] then s.second org a b else .leavingFirst org a b todo))
  | .leavingSecond org a b [] => some (
    if fate = .ok then
      { s with linked := s.linked.filter fun x => x ≠ (org, a, b) ∧
        x ≠ (org, b, a) }.setCall n .idle
    else s.setCall n .idle)
  | .leavingSecond org a b (p :: todo) => some (
    (if fate = .failed then s else s.patch p).next n fate (.leavingSecond org a b todo))
  | .deploying _ _ _ [] => some (s.setCall n .idle)
  | .deploying org stack peers (spec :: todo) => some (
    (if fate = .failed then s else s.deploy (carryLinks org stack peers spec)).next n fate
      (.deploying org stack peers todo))

def step (s : State) : Move → Option State
  | .connect n org a b => match s.calls n with
    | .idle =>
      let (a, b) := linkPair a b
      if a = "" ∨ b = "" ∨ a = b ∨ s.live org a = [] ∨ s.live org b = [] then none
      else some (s.setCall n (.connecting org a b (s.live org a) (s.live org b)))
    | _ => none
  | .disconnect n org a b => match s.calls n with
    | .idle =>
      let (a, b) := linkPair a b
      if a = "" ∨ b = "" ∨ a = b then none else some (s.setCall n (.disconnecting org a b))
    | _ => none
  | .redeploy n org stack specs => match s.calls n with
    | .idle => some (s.setCall n (.deploying org stack (stackPeers (s.live org stack)) specs))
    | _ => none
  | .resume n fate => resume s n fate
  | .remove svc => some { s with services := s.services.filter (· ≠ svc) }

/-! ## The promise and what it takes -/

/-- Two apps in play. -/
structure Pair (apps : Set (String × String)) (org a b : String) : Prop where
  left : (org, a) ∈ apps
  right : (org, b) ∈ apps
  ne : a ≠ b
  named : a ≠ "" ∧ b ≠ ""

/-- The overlays of pairs of these apps have names of their own. -/
def NamesDiffer (apps : Set (String × String)) : Prop :=
  ∀ org a b org' a' b', Pair apps org a b → Pair apps org' a' b' →
    linkNetworkName org a b = linkNetworkName org' a' b' →
    org = org' ∧ (a = a' ∧ b = b' ∨ a = b' ∧ b = a')

/-- No two of these pairs agree in both halves of the hash. -/
def HashesDiffer (apps : Set (String × String)) : Prop :=
  ∀ org a b org' a' b', Pair apps org a b → Pair apps org' a' b' →
    half₁ (linkInput org a b) = half₁ (linkInput org' a' b') →
    half₂ (linkInput org a b) = half₂ (linkInput org' a' b') →
    org = org' ∧ (a = a' ∧ b = b' ∨ a = b' ∧ b = a')

/-- A service is attached to the overlay of a pair only as an app service of one of the two
while they are connected, and its label and its overlays agree. -/
structure Private (apps : Set (String × String)) (s : State) : Prop where
  attached : ∀ svc ∈ s.services, ∀ org a b, Pair apps org a b →
    linkNetworkName org a b ∈ svc.nets →
    svc.org = org ∧ (svc.stack = a ∨ svc.stack = b) ∧ svc.linkable = true ∧ Linked s.linked org a b
  agree : ∀ svc ∈ s.services, svc.nets = overlays svc.org svc.stack svc.links

/-- No call is about the app. -/
def State.Free (s : State) (app : String × String) : Prop := ∀ n, app ∉ (s.calls n).apps

/-- A call begins on apps in play while no other is about them, and a compose file writes no links
itself. -/
def Careful (apps : Set (String × String)) (s : State) : Move → Prop
  | .connect _ org a b | .disconnect _ org a b =>
    ((org, a) ∈ apps ∧ s.Free (org, a)) ∧ (org, b) ∈ apps ∧ s.Free (org, b)
  | .redeploy _ org stack specs => ((org, stack) ∈ apps ∧ s.Free (org, stack)) ∧
      ∀ spec ∈ specs, spec.links = ∅ ∧ spec.nets = ∅
  | _ => True

/-- Services that have no links, and no call. -/
def start (services : List Service) : State := ⟨services, fun _ => .idle, []⟩

inductive Reach (apps : Set (String × String)) (s₀ : State) : State → Prop where
  | start : Reach apps s₀ s₀
  | step {s s' : State} (m : Move) (h : Reach apps s₀ s) (hm : Careful apps s m)
      (hs : step s m = some s') : Reach apps s₀ s'

end Swarmy.Links
