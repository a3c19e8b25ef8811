import Swarmy.Js.Value

/-!
# abac: requests and attribute resolution

Principals, resources and requests (`packages/abac/src/types.ts`) and the
resolution of attribute paths both engines share (`attrs.ts`).  The ambient
facts of a request (time, address) are left out: no clause of a policy reads
them.
-/

namespace Swarmy.Abac

open Js (Value Fields)

/-! ## Requests -/

inductive Role where
  | owner | admin | member

def Role.name : Role → String
  | .owner => "owner"
  | .admin => "admin"
  | .member => "member"

/-- The catalogue of governed actions. -/
def actions : List String :=
  ["node.read", "node.drain", "node.remove", "node.setLabels", "service.read", "service.deploy",
    "service.scale", "service.restart", "service.remove", "stack.read", "stack.deploy",
    "stack.remove", "ingress.read", "ingress.write", "token.create", "token.revoke",
    "policy.read", "policy.write", "member.read", "member.write", "authconfig.read",
    "authconfig.write", "terminal.open", "data.destroy", "data.restore", "data.failover",
    "backup.remove", "secret.delete", "dns.remove", "ingress.remove", "cicd.remove",
    "node.disk.format", "service.configure", "secrets.read", "mesh.connect", "data.read",
    "data.write", "app.access", "ai.use", "email.write", "email.send"]

/-- An action of the catalogue. -/
structure Action where
  name : String
  mem : name ∈ actions

inductive Relation where
  | owner | operator | viewer
deriving DecidableEq

def Relation.name : Relation → String
  | .owner => "owner"
  | .operator => "operator"
  | .viewer => "viewer"

/-- The authenticated subject. -/
structure Principal where
  userId : String
  memberId : Option String
  orgId : String
  roles : List Role
  teamIds : Option (List String)
  groups : Option (List String)
  attributes : Fields

/-- The target of an action. -/
structure Resource where
  type : String
  id : String
  orgId : String
  labels : Fields
  env : Option String
  ownerMemberId : Option String
  ownerTeamId : Option String
  principalRelations : Option (List Relation)

structure AuthzRequest where
  principal : Principal
  action : Action
  resource : Option Resource

/-! ## Attributes -/

/-- The Docker label that marks a stack's or a service's environment. -/
def envLabel : String := "swarmy.env"

/-- Git apps stamp their environment here. -/
def appEnvLabel : String := "swarmy.app.environment"

def production : String := "production"

def envAliases : String → Option String
  | "prod" | "prd" | "production" | "live" => some production
  | "stage" | "staging" | "stg" => some "staging"
  | "dev" | "development" => some "development"
  | "preview" => some "preview"
  | "test" => some "test"
  | _ => none

section

variable (toLowerCase : String → String)

def normaliseEnv : Option Value → Option String
  | some (.str value) =>
    let v := toLowerCase (Js.trim value)
    if v = "" then none else some ((envAliases v).getD v)
  | _ => none

/-- A resource's environment: explicit `env`, else its `swarmy.env` or app label. -/
def resourceEnv (env : Option String) (labels : Fields) : Option String :=
  match env with
  | some env => normaliseEnv toLowerCase (some (.str env))
  | none => (normaliseEnv toLowerCase (labels.get envLabel)).or
      (normaliseEnv toLowerCase (labels.get appEnvLabel))

/-- The string values of an attribute; a missing one has none. -/
def strings : Option Value → List String
  | none | some .null | some (.obj _) => []
  | some (.arr elems) => (elems.filter fun | .null => false | _ => true).map Value.text
  | some v => if v.text = "" then [] else [v.text]

/-- Groups from a `Member.attributes` bag. -/
def groupsFromAttributes (attributes : Fields) : List String :=
  (strings (attributes.get "groups") ++ strings (attributes.get "ssoGroups") ++
    strings (attributes.get "teamIds")).eraseDups

/-- Groups the principal is in. -/
def principalGroups (principal : Principal) : List String :=
  (principal.groups.getD [] ++ principal.teamIds.getD [] ++
    groupsFromAttributes principal.attributes).eraseDups

def resourceAttrs : List String := ["resource.env", "resource.type", "resource.id"]

def resourceLabelPrefix : String := "resource.label."

def principalPrefix : String := "principal."

/-- Is `attr` a well-formed attribute path? -/
def isAttrPath (attr : String) : Bool :=
  if attr ∈ resourceAttrs then true
  else if Js.startsWith attr resourceLabelPrefix then attr.length > resourceLabelPrefix.length
  else if Js.startsWith attr principalPrefix then attr.length > principalPrefix.length
  else false

/-- Resolve one attribute path to its string values. -/
def lookupAttr (attr : String) (principal : Principal) (resource : Option Resource) :
    List String :=
  if attr = "resource.env" then
    strings ((resource.bind fun r => resourceEnv toLowerCase r.env r.labels).map .str)
  else if attr = "resource.type" then strings (resource.map fun r => .str r.type)
  else if attr = "resource.id" then strings (resource.map fun r => .str r.id)
  else if Js.startsWith attr resourceLabelPrefix then
    strings (resource.bind fun r => r.labels.get (Js.slice attr resourceLabelPrefix.length))
  else if attr = "principal.role" then principal.roles.map Role.name
  else if attr = "principal.groups" then principalGroups principal
  else if Js.startsWith attr principalPrefix then
    strings (principal.attributes.get (Js.slice attr principalPrefix.length))
  else []

end

/-- The predicate of a condition, with the value its operator takes. -/
inductive ConditionOp where
  | eq (value : String)
  | ne (value : String)
  | in (value : List String)
  | notIn (value : List String)
  | exists
  | notExists

/-- One attribute predicate, on a well-formed path. -/
structure Condition where
  attr : String
  isPath : isAttrPath attr = true
  op : ConditionOp

/-- Evaluate a condition against resolved attribute values. -/
def conditionHolds (op : ConditionOp) (values : List String) : Bool :=
  match op with
  | .eq value => values.contains value
  | .ne value => !values.contains value
  | .in value => values.any value.contains
  | .notIn value => !values.any value.contains
  | .exists => values.length > 0
  | .notExists => values.length = 0

end Swarmy.Abac
