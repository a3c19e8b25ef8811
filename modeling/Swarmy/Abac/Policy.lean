import Swarmy.Abac.Attrs
import Swarmy.Cedar.Lang

/-!
# abac: policy documents and the JSON engine

`packages/abac/src/policy.ts` and `engine.ts`: the parser of policy documents
with its error texts, the matching of a document against a request, and the
engine that evaluates documents directly.  `JSON.parse` and `toLowerCase` are
parameters.
-/

namespace Swarmy.Abac

open Js (Value Fields)

/-! ## Policy documents -/

/-- A predicate document; matching is conjunctive across the populated clauses. -/
structure PolicyDoc where
  actions : Option (List String)
  roles : Option (List String)
  resourceTypes : Option (List String)
  resourceLabels : Option Fields
  attributes : Option Fields
  ownerOnly : Bool
  relations : Option (List String)
  groups : Option (List String)
  members : Option (List String)
  conditions : List Condition

abbrev Effect := Cedar.Effect

/-- A stored policy, as loaded from the database. -/
structure PolicyInput where
  id : String
  name : String
  effect : Effect
  source : String
  priority : Int
  enabled : Bool

structure ParsedPolicy where
  id : String
  name : String
  effect : Effect
  priority : Int
  doc : PolicyDoc

/-! ## Parsing -/

def asStr : Value → Option String
  | .str s => some s
  | _ => none

def strArray (obj : Fields) (key : String) : Except String (Option (List String)) :=
  let error := .error ("\"" ++ key ++ "\" must be an array of strings")
  match obj.get key with
  | none => .ok none
  | some (.arr elems) =>
    match elems.mapM asStr with
    | some xs => .ok (some xs)
    | none => error
  | some _ => error

def record (obj : Fields) (key : String) : Except String (Option Fields) :=
  match obj.get key with
  | none => .ok none
  | some (.obj fields) => .ok (some fields)
  | some _ => .error ("\"" ++ key ++ "\" must be an object")

def parseOwnerOnly (obj : Fields) : Except String Bool :=
  match obj.get "ownerOnly" with
  | none => .ok false
  | some (.bool b) => .ok b
  | some _ => .error "\"ownerOnly\" must be a boolean"

def allowedRelations : List String := ["owner", "operator", "viewer"]

def checkRelations (relations : Option (List String)) : Except String Unit :=
  match (relations.getD []).find? (!allowedRelations.contains ·) with
  | some r => .error ("\"relations\" must contain only owner|operator|viewer (got \"" ++ r ++ "\")")
  | none => .ok ()

def conditionOps : List String := ["eq", "ne", "in", "notIn", "exists", "notExists"]

section

variable (toLowerCase : String → String)

/-- The environment is normalised in a condition's value, as it is in a label. -/
def normValue (attr v : String) : String :=
  if attr = "resource.env" then (normaliseEnv toLowerCase (some (.str v))).getD v else v

def parseConditionOp (i : Nat) (attr op : String) (value : Option Value) :
    Except String ConditionOp :=
  let field := "conditions[" ++ toString i ++ "]"
  let scalar := match value with
    | some (.str s) => .ok (normValue toLowerCase attr s)
    | some (.num x) => .ok (normValue toLowerCase attr (Value.num x).text)
    | some (.bool b) => .ok (normValue toLowerCase attr (Value.bool b).text)
    | _ => .error (field ++ ".value must be a string for \"" ++ op ++ "\"")
  let list :=
    let error := .error (field ++ ".value must be a non-empty string array for \"" ++ op ++ "\"")
    match value with
    | some (.arr elems) =>
      match elems.mapM asStr with
      | none | some [] => error
      | some xs => .ok (xs.map (normValue toLowerCase attr))
    | _ => error
  match op with
  | "eq" => ConditionOp.eq <$> scalar
  | "ne" => ConditionOp.ne <$> scalar
  | "in" => ConditionOp.in <$> list
  | "notIn" => ConditionOp.notIn <$> list
  | "exists" => .ok .exists
  | "notExists" => .ok .notExists
  | _ => .error (field ++ ".op must be one of " ++ " | ".intercalate conditionOps)

def parseCondition (c : Value) (i : Nat) : Except String Condition :=
  let field := "conditions[" ++ toString i ++ "]"
  match c with
  | .obj fields =>
    let badAttr := Except.error (field ++ ".attr must be resource.env | resource.type | " ++
      "resource.id | resource.label.<key> | principal.<key>")
    match Fields.get fields "attr" with
    | some (.str attr) =>
      if h : isAttrPath attr = true then
        match Fields.get fields "op" with
        | some (.str op) => do
            return ⟨attr, h, ← parseConditionOp toLowerCase i attr op (Fields.get fields "value")⟩
        | _ => .error (field ++ ".op must be one of " ++ " | ".intercalate conditionOps)
      else badAttr
    | _ => badAttr
  | _ => .error (field ++ " must be an object")

def parseConditions : Option Value → Except String (List Condition)
  | none => .ok []
  | some (.arr elems) => elems.zipIdx.mapM fun (c, i) => parseCondition toLowerCase c i
  | some _ => .error "\"conditions\" must be an array"

variable (parseJson : String → Option Value)

/-- Parse and validate a policy source. -/
def parsePolicyDoc (source : String) : Except String PolicyDoc :=
  match parseJson source with
  | none => .error "policy source is not valid JSON"
  | some (.obj obj) => do
      let actions ← strArray obj "actions"
      let roles ← strArray obj "roles"
      let resourceTypes ← strArray obj "resourceTypes"
      let resourceLabels ← record obj "resourceLabels"
      let attributes ← record obj "attributes"
      let ownerOnly ← parseOwnerOnly obj
      let relations ← strArray obj "relations"
      checkRelations relations
      let groups ← strArray obj "groups"
      let members ← strArray obj "members"
      let conditions ← parseConditions toLowerCase (Fields.get obj "conditions")
      return {
        actions, roles, resourceTypes, resourceLabels, attributes, ownerOnly, relations, groups,
        members, conditions }
  | some _ => .error "policy source must be a JSON object"

/-- The enabled policies, parsed: what both engines are constructed from. -/
def compile (policies : List PolicyInput) : Except String (List ParsedPolicy) :=
  (policies.filter (·.enabled)).mapM fun p => do
    let doc ← parsePolicyDoc toLowerCase parseJson p.source
    return { id := p.id, name := p.name, effect := p.effect, priority := p.priority, doc }

end

/-! ## Matching -/

/-- An absent or empty list is no clause. -/
def clause (list : Option (List String)) (holds : List String → Bool) : Bool :=
  match list with
  | none | some [] => true
  | some xs => holds xs

def listMatches (list : Option (List String)) (value : String) : Bool :=
  clause list fun xs => xs.contains "*" || xs.contains value

def principalTeamIds (principal : Principal) : List String :=
  match principal.teamIds with
  | some (t :: ts) => t :: ts
  | _ =>
    match principal.attributes.get "teamIds" with
    | some (.arr elems) => elems.map Value.text
    | _ => []

/-- A resolved `owner` relation counts as ownership. -/
def ownerRelation (resource : Resource) : Bool :=
  (resource.principalRelations.getD []).contains .owner

def ownsResource (principal : Principal) (resource : Resource) : Bool :=
  ownerRelation resource ||
  (resource.ownerMemberId.any fun owner =>
    owner ≠ "" && (some owner == principal.memberId || owner == principal.userId)) ||
  resource.ownerTeamId.any fun team => team ≠ "" && (principalTeamIds principal).contains team

section

variable (doc : PolicyDoc) (principal : Principal) (resource : Option Resource)

def rolesMatch : Bool :=
  clause doc.roles fun roles =>
    roles.contains "*" || roles.any (principal.roles.map Role.name).contains

def typesMatch : Bool :=
  clause doc.resourceTypes fun _ => resource.any fun r => listMatches doc.resourceTypes r.type

def labelsMatch : Bool :=
  doc.resourceLabels.all fun labels => resource.any fun r =>
    labels.all fun (k, v) => (r.labels.get k).any (·.same v)

def attributesMatch : Bool :=
  doc.attributes.all fun attributes =>
    attributes.all fun (k, v) => (principal.attributes.get k).any (·.same v)

def ownerMatch : Bool :=
  !doc.ownerOnly || resource.any (ownsResource principal)

def relationsMatch : Bool :=
  clause doc.relations fun relations => resource.any fun r =>
    relations.any (((r.principalRelations.getD []).map Relation.name).contains ·)

def membersMatch : Bool :=
  clause doc.members fun members =>
    members.any ((principal.memberId.toList ++ [principal.userId]).filter (· ≠ "")).contains

variable (toLowerCase : String → String)

def groupsMatch : Bool :=
  clause doc.groups fun groups =>
    groups.contains "*" || groups.any (principalGroups principal).contains

def conditionsHold : Bool :=
  doc.conditions.all fun cond =>
    conditionHolds cond.op (lookupAttr toLowerCase cond.attr principal resource)

end

/-- Does this policy match the request? -/
def policyMatches (toLowerCase : String → String) (doc : PolicyDoc) (req : AuthzRequest) : Bool :=
  listMatches doc.actions req.action.name &&
  rolesMatch doc req.principal &&
  typesMatch doc req.resource &&
  labelsMatch doc req.resource &&
  attributesMatch doc req.principal &&
  ownerMatch doc req.principal req.resource &&
  relationsMatch doc req.resource &&
  groupsMatch doc req.principal &&
  membersMatch doc req.principal &&
  conditionsHold doc req.principal req.resource toLowerCase

/-! ## The JSON engine -/

inductive Verdict where
  | permit | deny
deriving DecidableEq

structure Decision where
  decision : Verdict
  policyId : Option String
  reasons : List String

/-- The first policy of the highest priority. -/
def topPolicy (ps : List ParsedPolicy) : Option ParsedPolicy :=
  (ps.mergeSort fun a b => b.priority ≤ a.priority).head?

/-- `JsonPolicyEngine.evaluate`: forbid wins, default deny. -/
def JsonPolicyEngine.evaluate (toLowerCase : String → String) (compiled : List ParsedPolicy)
    (req : AuthzRequest) : Decision :=
  let matched := compiled.filter fun p => policyMatches toLowerCase p.doc req
  match topPolicy (matched.filter (·.effect = .forbid)) with
  | some top => ⟨.deny, some top.id, ["forbidden by policy \"" ++ top.name ++ "\""]⟩
  | none =>
    match topPolicy (matched.filter (·.effect = .permit)) with
    | some top => ⟨.permit, some top.id, ["permitted by policy \"" ++ top.name ++ "\""]⟩
    | none => ⟨.deny, none, ["no matching permit (default deny)"]⟩

theorem topPolicy_eq_none (ps : List ParsedPolicy) : topPolicy ps = none ↔ ps = [] := by
  rw [topPolicy, List.head?_eq_none_iff]
  constructor
  · intro h
    simpa [h] using (List.mergeSort_perm ps fun a b => decide (b.priority ≤ a.priority)).symm
  · rintro rfl
    simp

/-- The engine permits when a permit matches and no forbid does. -/
theorem JsonPolicyEngine.evaluate_permit (toLowerCase : String → String)
    (compiled : List ParsedPolicy) (req : AuthzRequest) :
    (evaluate toLowerCase compiled req).decision = .permit ↔
      (∀ p ∈ compiled, p.effect = .forbid → policyMatches toLowerCase p.doc req = false) ∧
        ∃ p ∈ compiled, p.effect = .permit ∧ policyMatches toLowerCase p.doc req = true := by
  have hf := topPolicy_eq_none ((compiled.filter fun p =>
    policyMatches toLowerCase p.doc req).filter (·.effect = .forbid))
  have hp := topPolicy_eq_none ((compiled.filter fun p =>
    policyMatches toLowerCase p.doc req).filter (·.effect = .permit))
  simp only [List.filter_filter, List.filter_eq_nil_iff, Bool.and_eq_true,
    decide_eq_true_eq, not_and, Bool.not_eq_true] at hf hp
  simp only [evaluate, List.filter_filter]
  split
  case h_1 top heq =>
    rw [heq] at hf
    simp only [reduceCtorEq, false_iff] at hf ⊢
    exact fun h => hf h.1
  case h_2 heq =>
    have hforbid := hf.1 heq
    split
    case h_1 top heq' =>
      rw [heq'] at hp
      simp only [reduceCtorEq, false_iff, not_forall, Bool.not_eq_false] at hp
      obtain ⟨p, hmem, heff, hmatch⟩ := hp
      exact ⟨fun _ => ⟨hforbid, p, hmem, heff, hmatch⟩, fun _ => rfl⟩
    case h_2 heq' =>
      have hpermit := hp.1 heq'
      simp only [reduceCtorEq, false_iff]
      rintro ⟨-, p, hmem, heff, hmatch⟩
      rw [hpermit p hmem heff] at hmatch
      cases hmatch

end Swarmy.Abac
