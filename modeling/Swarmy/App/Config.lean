import Swarmy.Js.Value

/-!
# swarmy.yaml: the parts of a config that names are made of

A validated config as `packages/app-config/src` sees it: the app, its services
with their ports, domains and volumes, its environments and its previews, each
name in the shape the schema asks for, and the branch slugs of `branches.ts`.
-/

namespace Swarmy.App

/-! ## Names -/

/-- A lowercase letter, then at most `max` lowercase letters, digits and dashes. -/
def nameRe (max : Nat) (s : String) : Bool :=
  match s.toList with
  | [] => false
  | c :: cs => c.isLower && cs.all (fun c => c.isLower || c.isDigit || c == '-') && cs.length ≤ max

/-- A service, resource, job or volume name. -/
def unitNameRe : String → Bool := nameRe 29

def envNameRe : String → Bool := nameRe 19

def appNameRe : String → Bool := nameRe 39

def reservedEnvNames : List String := ["production", "prod", "preview"]

def production : String := "production"

/-! ## Configs -/

/-- What a service says about its port, its hosts and its volumes. -/
structure ServiceConfig where
  port : Option Nat
  domains : Option (List String)
  /-- Volume name and mount path. -/
  volumes : List (String × String)

structure EnvironmentConfig where
  branch : String
  /-- The services' own domains in this environment. -/
  domains : List (String × List String)

inductive ResourceType where
  | postgres | cache | queue | search | vector | bucket
deriving DecidableEq

structure AuthConfig where
  database : Option String

/-- A config that passed the schema and `validateConfig`. -/
structure AppConfig where
  app : String
  services : List (String × ServiceConfig)
  resources : List (String × ResourceType)
  environments : List (String × EnvironmentConfig)
  auth : Option AuthConfig
  previewsEnabled : Bool
  baseDomain : Option String
  app_ok : appNameRe app = true
  services_ok : ∀ s ∈ services, unitNameRe s.1 = true
  services_nodup : (services.map (·.1)).Nodup
  volumes_ok : ∀ s ∈ services, ∀ v ∈ s.2.volumes, unitNameRe v.1 = true
  volumes_nodup : ∀ s ∈ services, (s.2.volumes.map (·.1)).Nodup
  environments_ok : ∀ e ∈ environments, envNameRe e.1 = true ∧ e.1 ∉ reservedEnvNames
  /-- `swarmy-auth` is taken by the service `auth:` adds. -/
  auth_ok : auth.isSome = true → "swarmy-auth" ∉ services.map (·.1)

/-! ## Branches -/

/-- FNV-1a over the bytes of a string. -/
def fnv32 (s : String) : UInt32 :=
  s.toUTF8.toList.foldl (fun h b => (h ^^^ b.toUInt32) * 0x01000193) 0x811c9dc5

def digit36 (d : Nat) : Char := if d < 10 then Char.ofNat (48 + d) else Char.ofNat (87 + d)

/-- The digits of a number to base 36, before those collected already. -/
def base36 : Nat → Nat → List Char → List Char
  | 0, _, digits => digits
  | fuel + 1, n, digits =>
    let digits := digit36 (n % 36) :: digits
    if n / 36 = 0 then digits else base36 fuel (n / 36) digits

/-- `n.toString(36)`; seven digits hold 32 bits. -/
def toBase36 (n : UInt32) : String := String.ofList (base36 7 n.toNat [])

def isSlugChar (c : Char) : Bool := c.isLower || c.isDigit

/-- Replaces each run of other characters by a dash; the flag says that the run
before has its dash. -/
def dashed : Bool → List Char → List Char
  | _, [] => []
  | inRun, c :: cs =>
    if isSlugChar c then c :: dashed false cs
    else if inRun then dashed true cs
    else '-' :: dashed true cs

/-- Cuts the dashes at the end. -/
def trimEndDashes (cs : List Char) : List Char := (cs.reverse.dropWhile (· == '-')).reverse

section

variable (toLowerCase : String → String)

/-- The slug before it is cut to length. -/
def slugBase (branch : String) : List Char :=
  trimEndDashes ((dashed false (toLowerCase branch).toList).dropWhile (· == '-'))

/-- Stack- and DNS-safe slug for a branch. -/
def branchSlug (branch : String) : String :=
  let base := slugBase toLowerCase branch
  if base.length ≤ 24 ∧ base.length > 0 then String.ofList base
  else
    let hash := String.ofList ((toBase36 (fnv32 branch)).toList.take 5)
    String.ofList (trimEndDashes (base.take 18)) ++ "-" ++ hash

end

end Swarmy.App
