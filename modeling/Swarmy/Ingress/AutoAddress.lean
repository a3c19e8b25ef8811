import Mathlib
import Swarmy.App.Config
import Swarmy.Net.LinkName

/-!
# Automatic app addresses

`packages/ingress/src/auto-address.ts`: the label of a service, who qualifies, and the plan that
stamps a host on each service that has none and moves the stamped ones when the base changes.
A record is the list of its entries, the first of a key counting.
-/

namespace Swarmy.Ingress

abbrev Text := List Char

scoped instance : LawfulBEq Text := inferInstance

/-- What the planner takes from the language. -/
structure Lang where
  toLowerCase : Text → Text
  /-- `Number(s)`, where that is a whole number. -/
  number : Text → Option Int
  lower_fixed : ∀ s, toLowerCase s = s ↔ ∀ c ∈ s, toLowerCase [c] = [c]
  lower_plain : ∀ c, App.isSlugChar c = true ∨ c = '-' ∨ c = '.' → toLowerCase [c] = [c]

def autoAddressLabel : Text := "swarmy.ingress.auto".toList

def autoAddressHostLabel : Text := "swarmy.ingress.auto.host".toList

def autoAddressPortLabel : Text := "swarmy.ingress.auto.port".toList

def managedPrefixes : List Text :=
  ["swarmy.db.", "swarmy.cache.", "swarmy.search.", "swarmy.vector."].map String.toList

/-- Well-known ports that are never HTTP. -/
def nonHttpPorts : List Nat :=
  [21, 22, 23, 25, 53, 110, 143, 389, 465, 587, 636, 993, 995, 1433, 1521, 1883, 2181, 2379, 2380,
    3306, 4222, 5432, 5672, 6379, 6380, 7000, 7001, 8883, 9042, 9092, 9093, 11211, 15672, 25565,
    26257, 27017, 27018]

/-- Preferred HTTP ports, in order. -/
def httpPreference : List Nat :=
  [80, 8080, 3000, 8000, 5000, 4000, 8888, 3001, 5173, 4200, 9000, 1337, 8081]

/-! ## Labels -/

/-- Short stable hash: FNV-1a over the code units, `toString(36).padStart(6, '0').slice(-6)`. -/
def hash6 (s : Text) : Text :=
  let digits := App.base36 7 (Links.half₁ (s.flatMap Links.charCodes)) []
  let padded := List.replicate (6 - digits.length) '0' ++ digits
  padded.drop (padded.length - 6)

/-- `s.replace(/p+/g, '-')`; the flag says that the run before has its dash. -/
def replaceRuns (p : Char → Bool) : Bool → Text → Text
  | _, [] => []
  | inRun, c :: cs =>
    if p c then if inRun then replaceRuns p true cs else '-' :: replaceRuns p true cs
    else c :: replaceRuns p false cs

/-- Cuts a dash at the end. -/
def trimEndDash (s : Text) : Text := if s.getLast? = some '-' then s.dropLast else s

/-- Cuts a dash at the front and one at the end. -/
def trimDashes (s : Text) : Text := trimEndDash (if s.head? = some '-' then s.tail else s)

/-- `[a-z0-9-]` -/
def isLabelChar (c : Char) : Bool := App.isSlugChar c || c = '-'

def sanitizeLabel (L : Lang) (raw : Text) : Text :=
  trimDashes (replaceRuns (· = '-') false (replaceRuns (!isLabelChar ·) false (L.toLowerCase raw)))

/-- A label cut to make room, and the hash. -/
def hashed (label serviceName : Text) : Text :=
  trimEndDash (label.take 56) ++ '-' :: hash6 serviceName

/-- The DNS label for a service. -/
def autoLabelFor (L : Lang) (stack serviceName : Text) : Text :=
  let standalone := stack = [] ∨ stack = "(ungrouped)".toList
  let svc :=
    if ¬ standalone ∧ stack ++ ['_'] <+: serviceName then serviceName.drop (stack.length + 1)
    else serviceName
  let raw := if standalone then svc else svc ++ '-' :: stack
  let slug := sanitizeLabel L raw
  let label := if slug = [] then "svc-".toList ++ hash6 serviceName else slug
  if label.length ≤ 63 then label else hashed label serviceName

/-! ## Who qualifies -/

/-- Pick the port to route to, or `none` when nothing looks like HTTP. -/
def pickHttpPort (ports : List Nat) : Option Nat :=
  let candidates := ports.eraseDups.filter fun p => 0 < p && p < 65536 && p ∉ nonHttpPorts
  (httpPreference.find? (· ∈ candidates)).or (candidates.insertionSort (· ≤ ·)).head?

structure Port where
  target : Nat
  protocol : Text

structure AutoAddressCandidate where
  serviceId : Text
  serviceName : Text
  stack : Text
  labels : List (Text × Text)
  ports : List Port
  exposedTcp : List Nat
  /-- Hosts on this service's route label right now. -/
  routeHosts : List Text

inductive AutoAddressAction where
  | add (serviceId serviceName host : Text) (port : Nat)
  | rehost (serviceId serviceName host previousHost : Text)
deriving DecidableEq

inductive AutoAddressSkip where
  | optedOut | system | managedData | notPublic | noHttpPort

/-- Why a service does or doesn't get an auto address. -/
def autoAddressEligibility (L : Lang) (c : AutoAddressCandidate) : Except AutoAddressSkip Nat :=
  let l := c.labels
  if l.lookup autoAddressLabel = some "false".toList then .error .optedOut
  else if c.stack = "swarmy".toList ∨ "swarmy-".toList <+: c.serviceName ∨
      "swarmy_".toList <+: c.serviceName then .error .system
  else if l.any fun e => managedPrefixes.any (·.isPrefixOf e.1) then .error .managedData
  else
    let intent := l.lookup "swarmy.expose".toList
    if intent ∈ ["private", "mesh", "tunnel"].map (some ·.toList) then .error .notPublic
    else
      let override := (l.lookup autoAddressPortLabel).bind L.number
      let published := (c.ports.filter (·.protocol ≠ "udp".toList)).map (·.target)
      let optedIn := l.lookup autoAddressLabel = some "true".toList ∨
        intent = some "public".toList
      if published = [] ∧ ¬ optedIn then .error .notPublic
      else
        match override.filter fun o => 0 < o && o < 65536 with
        | some o => .ok o.toNat
        | none =>
          match pickHttpPort (if published ≠ [] then published else c.exposedTcp ++ published) with
          | none => .error .noHttpPort
          | some port => .ok port

/-! ## The plan -/

def AutoAddressAction.serviceId : AutoAddressAction → Text
  | .add id _ _ _ | .rehost id _ _ _ => id

def AutoAddressAction.host : AutoAddressAction → Text
  | .add _ _ host _ | .rehost _ _ host _ => host

/-- The host swarmy stamped; an empty label counts as none. -/
def AutoAddressCandidate.marker (c : AutoAddressCandidate) : Option Text :=
  (c.labels.lookup autoAddressHostLabel).filter (· ≠ [])

/-- `.${base}` behind a label. -/
def hostOf (base label : Text) : Text := label ++ '.' :: base

/-- A pass of the loop over the hosts taken and the actions so far. -/
def planOne (L : Lang) (base : Text) (s : List Text × List AutoAddressAction)
    (c : AutoAddressCandidate) : List Text × List AutoAddressAction :=
  if c.labels.lookup autoAddressLabel = some "false".toList then s
  else
    match c.marker with
    | some marker =>
      if marker ∉ c.routeHosts then s  -- the user removed it
      else if '.' :: base <:+ marker then s
      else
        let label := marker.takeWhile (· ≠ '.')
        let host :=
          if hostOf base label ∈ s.1 then hostOf base (label ++ '-' :: hash6 c.serviceName)
          else hostOf base label
        (host :: s.1, s.2 ++ [.rehost c.serviceId c.serviceName host marker])
    | none =>
      if c.routeHosts ≠ [] then s  -- a custom domain replaces the auto address
      else
        match autoAddressEligibility L c with
        | .error _ => s
        | .ok port =>
          let label := autoLabelFor L c.stack c.serviceName
          let host :=
            if hostOf base label ∈ s.1 then hostOf base (hashed label c.serviceName)
            else hostOf base label
          (host :: s.1, s.2 ++ [.add c.serviceId c.serviceName host port])

/-- By service name, compared by code units. -/
def sorted (cs : List AutoAddressCandidate) : List AutoAddressCandidate :=
  cs.insertionSort fun a b =>
    Links.unitsLe (a.serviceName.flatMap Links.charCodes) (b.serviceName.flatMap Links.charCodes)

/-- Plan the label writes that converge auto addresses for an org. -/
def planAutoAddresses (L : Lang) (candidates : List AutoAddressCandidate) (base : Option Text)
    (takenHosts : List Text) : List AutoAddressAction :=
  match base.filter (· ≠ []) with
  | none => []
  | some base =>
    ((sorted candidates).foldl (planOne L base) (takenHosts.map L.toLowerCase, [])).2

/-- The service once the action's labels are written: the marker, and the host among the routes,
of a re-hosted service in the place of the host before. -/
def AutoAddressCandidate.stamped (c : AutoAddressCandidate) (a : AutoAddressAction) :
    AutoAddressCandidate :=
  let routes := match a with
    | .add .. => c.routeHosts
    | .rehost _ _ host previousHost =>
      c.routeHosts.map fun h => if h = previousHost then host else h
  { c with
    labels := ("swarmy.ingress".toList, "true".toList) :: (autoAddressHostLabel, a.host) :: c.labels
    routeHosts := if a.host ∈ routes then routes else routes ++ [a.host] }

/-- The services once the plan is carried out. -/
def applyPlan (plan : List AutoAddressAction) (cs : List AutoAddressCandidate) :
    List AutoAddressCandidate :=
  cs.map fun c => ((plan.find? (·.serviceId = c.serviceId)).map c.stamped).getD c

end Swarmy.Ingress
