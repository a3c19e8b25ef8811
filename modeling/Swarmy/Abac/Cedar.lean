import Swarmy.Abac.Policy

/-!
# abac: the Cedar adapter

`packages/abac/src/cedar.ts`: the translation of a policy document to Cedar, the
context a request becomes, and the engine that asks Cedar and falls back to the
JSON engine when Cedar gives no answer.
-/

namespace Swarmy.Abac

open List Option Function

open Js (Value Fields)
open Cedar (Expr Lit)

/-! ## The translation -/

section

variable (toUpperCase : String → String)

def resourceTypes : String → Option String
  | "node" => some "Swarmy::Node"
  | "service" => some "Swarmy::Service"
  | "stack" => some "Swarmy::Stack"
  | "org" => some "Swarmy::Org"
  | "setting" => some "Swarmy::Setting"
  | _ => none

def resourceCedarType (type : String) : String :=
  (resourceTypes type).getD ("Swarmy::" ++
    (if type = "" then "undefined" else toUpperCase (String.ofList (type.toList.take 1))) ++
    Js.slice type 1)

end

def esc (v : String) : String := Cedar.esc v

def strList (xs : List String) : String := ", ".intercalate (xs.map fun x => "\"" ++ esc x ++ "\"")

/-- The text of a value to compare with. -/
def cedarValue : Value → String
  | .str s => "\"" ++ esc s ++ "\""
  | .num x => x.text
  | .bool b => if b then "true" else "false"
  | v => "\"" ++ esc v.text ++ "\""

def conditionToCedar (c : Condition) : String :=
  let k := "\"" ++ esc c.attr ++ "\""
  let has := "context.attrs has " ++ k
  let eq := fun v => "(" ++ has ++ " && context.attrs[" ++ k ++ "].contains(\"" ++ esc v ++ "\"))"
  let any := fun vs => "(" ++ has ++ " && context.attrs[" ++ k ++ "].containsAny([" ++
    strList vs ++ "]))"
  match c.op with
  | .eq v => eq v
  | .ne v => "!" ++ eq v
  | .in vs => any vs
  | .notIn vs => "!" ++ any vs
  | .exists => "(" ++ has ++ ")"
  | .notExists => "!(" ++ has ++ ")"

/-- One conjunct for a list that is neither empty nor, where that counts, holds `*`. -/
def listCond {α : Type} (wild : Bool) (list : Option (List String)) (cond : List String → α) :
    List α :=
  match list with
  | none | some [] => []
  | some xs => if wild && xs.contains "*" then [] else [cond xs]

/-- The conjuncts of a document's `when` clause. -/
def docConds (doc : PolicyDoc) : List String :=
  (listCond true doc.actions fun xs => "[" ++ strList xs ++ "].contains(context.action)") ++
  (listCond true doc.roles fun xs => "context.roles.containsAny([" ++ strList xs ++ "])") ++
  (listCond true doc.resourceTypes fun xs =>
    "context.hasResource && [" ++ strList xs ++ "].contains(context.resourceType)") ++
  ((doc.resourceLabels.getD []).map fun (k, v) =>
    "context.hasResource && context.labels has \"" ++ esc k ++ "\" && context.labels[\"" ++
      esc k ++ "\"] == " ++ cedarValue v) ++
  ((doc.attributes.getD []).map fun (k, v) =>
    "context.attributes has \"" ++ esc k ++ "\" && context.attributes[\"" ++ esc k ++ "\"] == " ++
      cedarValue v) ++
  (if doc.ownerOnly then ["context.hasResource && context.isOwner"] else []) ++
  (listCond false doc.relations fun xs =>
    "context.hasResource && context.relations.containsAny([" ++ strList xs ++ "])") ++
  (listCond true doc.groups fun xs => "context.groups.containsAny([" ++ strList xs ++ "])") ++
  (listCond false doc.members fun xs =>
    "([" ++ strList xs ++ "].contains(context.memberId) || [" ++ strList xs ++
      "].contains(context.userId))") ++
  doc.conditions.map conditionToCedar

/-- Translate one policy document into the text of a Cedar policy. -/
def policyDocToCedar (id : String) (effect : Effect) (doc : PolicyDoc) : String :=
  let conds := docConds doc
  "@id(\"" ++ esc id ++ "\")\n" ++ effect.render ++ "(principal, action, resource)" ++
    (if conds.isEmpty then ""
      else " when \x7b\n  " ++ " &&\n  ".intercalate conds ++ "\n\x7d") ++ ";"

/-! ## The policy a text is read as -/

/-- `context.name`. -/
def contextField (name : String) : Expr := .attr .context name

def strSet (xs : List String) : Expr := .set (xs.map .string)

/-- The literal a value to compare with is read as; a number that is no 64-bit
integer is a syntax error. -/
def literal : Value → Option Lit
  | .str s => some (.string s)
  | .num x => (Cedar.readNum x).map .long
  | .bool b => some (.bool b)
  | v => some (.string v.text)

def conditionExpr (c : Condition) : Expr :=
  let has := .has (contextField "attrs") c.attr
  let eq := fun v => .paren (.and has
      (.contains (.index (contextField "attrs") c.attr) (.lit (.string v))))
  let any := fun vs =>
    .paren (.and has (.containsAny (.index (contextField "attrs") c.attr) (strSet vs)))
  match c.op with
  | .eq v => eq v
  | .ne v => .not (eq v)
  | .in vs => any vs
  | .notIn vs => .not (any vs)
  | .exists => .paren has
  | .notExists => .not (.paren has)

def labelExpr (k : String) (l : Lit) : Expr :=
  .and (.and (contextField "hasResource") (.has (contextField "labels") k))
    (.eq (.index (contextField "labels") k) (.lit l))

def attributeExpr (k : String) (l : Lit) : Expr :=
  .and (.has (contextField "attributes") k) (.eq (.index (contextField "attributes") k) (.lit l))

/-- A conjunct for each entry of a record. -/
def recordExprs (expr : String → Lit → Expr) (entries : Option Fields) : Option (List Expr) :=
  (entries.getD []).mapM fun (k, v) => (literal v).map (expr k)

def docExprs (doc : PolicyDoc) : Option (List Expr) := do
  let labels ← recordExprs labelExpr doc.resourceLabels
  let attributes ← recordExprs attributeExpr doc.attributes
  return (listCond true doc.actions fun xs => .contains (strSet xs) (contextField "action")) ++
    (listCond true doc.roles fun xs => .containsAny (contextField "roles") (strSet xs)) ++
    (listCond true doc.resourceTypes fun xs =>
      .and (contextField "hasResource") (.contains (strSet xs) (contextField "resourceType"))) ++
    labels ++ attributes ++
    (if doc.ownerOnly then [.and (contextField "hasResource") (contextField "isOwner")] else []) ++
    (listCond false doc.relations fun xs =>
      .and (contextField "hasResource") (.containsAny (contextField "relations") (strSet xs))) ++
    (listCond true doc.groups fun xs => .containsAny (contextField "groups") (strSet xs)) ++
    (listCond false doc.members fun xs =>
      .paren (.or (.contains (strSet xs) (contextField "memberId"))
        (.contains (strSet xs) (contextField "userId")))) ++
    doc.conditions.map conditionExpr

/-- The Cedar policy a document becomes; `none` when its text does not parse. -/
def cedarPolicy (id : String) (effect : Effect) (doc : PolicyDoc) : Option Cedar.Policy :=
  (docExprs doc).map fun conds => { id, effect, conds }

theorem mapM_eq_some {α β : Type} {f : α → Option β} {xs : List α} {ys : List β} :
    xs.mapM f = some ys ↔ List.Forall₂ (fun x y => f x = some y) xs ys := by
  induction xs generalizing ys with
  | nil => cases ys <;> simp
  | cons x xs ih =>
    cases ys <;> simp [bind_eq_some_iff, ih]

theorem isSome_mapM {α β : Type} (f : α → Option β) (xs : List α) :
    (xs.mapM f).isSome = xs.all fun x => (f x).isSome := by
  induction xs with
  | nil => rfl
  | cons x xs ih =>
    rw [mapM_cons, all_cons, ← ih]
    cases f x <;> cases xs.mapM f <;> rfl

theorem literal_render {v : Value} {l : Lit} (h : literal v = some l) :
    l.render = cedarValue v := by
  cases v with
  | num x =>
    obtain ⟨n, hn, rfl⟩ := map_eq_some_iff.1 h
    rw [Cedar.readNum_eq_some hn]
    rfl
  | _ =>
    obtain rfl := some.inj h
    rfl

theorem strSet_render (xs : List String) : (strSet xs).render = "[" ++ strList xs ++ "]" := by
  simp [strSet, strList, Expr.render, Lit.render, Cedar.quote, esc, comp_def]

theorem conditionExpr_render (c : Condition) : (conditionExpr c).render = conditionToCedar c := by
  obtain ⟨attr, hp, op⟩ := c
  rw [← String.toList_inj]
  cases op <;>
    simp [conditionExpr, conditionToCedar, Expr.render, contextField, strSet_render, Lit.render,
      Cedar.quote, esc]

theorem listCond_map {α β : Type} (wild : Bool) (list : Option (List String)) (f : List String → α)
    (g : α → β) : (listCond wild list f).map g = listCond wild list fun xs => g (f xs) := by
  unfold listCond
  split
  · rfl
  · rfl
  · split <;> rfl

theorem recordExprs_render {expr : String → Lit → Expr} {text : String → String → String}
    {entries : Option Fields} {es : List Expr} (ht : ∀ k l, (expr k l).render = text k l.render)
    (h : recordExprs expr entries = some es) :
    es.map Expr.render = (entries.getD []).map fun (k, v) => text k (cedarValue v) := by
  rw [recordExprs, mapM_eq_some] at h
  generalize entries.getD [] = fs at h
  induction h with
  | nil => rfl
  | cons hx _ ih =>
    obtain ⟨l, hl, rfl⟩ := map_eq_some_iff.1 hx
    rw [map_cons, map_cons, ih, ht, literal_render hl]

theorem labelExpr_render (k : String) (l : Lit) : (labelExpr k l).render =
    "context.hasResource && context.labels has \"" ++ esc k ++ "\" && context.labels[\"" ++
      esc k ++ "\"] == " ++ l.render := by
  rw [← String.toList_inj]
  simp [labelExpr, Expr.render, contextField, Cedar.quote, esc]

theorem attributeExpr_render (k : String) (l : Lit) : (attributeExpr k l).render =
    "context.attributes has \"" ++ esc k ++ "\" && context.attributes[\"" ++ esc k ++
      "\"] == " ++ l.render := by
  rw [← String.toList_inj]
  simp [attributeExpr, Expr.render, contextField, Cedar.quote, esc]

theorem containsAny_render (name : String) (xs : List String) :
    (Expr.containsAny (contextField name) (strSet xs)).render =
      ("context." ++ name ++ ".containsAny([") ++ strList xs ++ "])" := by
  rw [← String.toList_inj]
  simp [Expr.render, contextField, strSet_render]

theorem contains_render (name : String) (xs : List String) :
    (Expr.contains (strSet xs) (contextField name)).render =
      "[" ++ strList xs ++ ("].contains(context." ++ name ++ ")") := by
  rw [← String.toList_inj]
  simp [Expr.render, contextField, strSet_render]

theorem docExprs_render {doc : PolicyDoc} {conds : List Expr} (h : docExprs doc = some conds) :
    conds.map Expr.render = docConds doc := by
  simp only [docExprs, Option.bind_eq_bind, Option.bind_eq_some_iff, Option.pure_def,
    Option.some.injEq] at h
  obtain ⟨labels, hl, attributes, ha, rfl⟩ := h
  have hl := recordExprs_render labelExpr_render hl
  have ha := recordExprs_render attributeExpr_render ha
  have hres : ∀ e : Expr, ((contextField "hasResource").and e).render =
      "context.hasResource && " ++ e.render := fun e => by simp [Expr.render, contextField]
  have howner : (if doc.ownerOnly then [(contextField "hasResource").and (contextField "isOwner")]
      else []).map Expr.render =
        if doc.ownerOnly then ["context.hasResource && context.isOwner"] else [] := by
    split <;> rfl
  have hmembers : ∀ xs, (Expr.paren (.or (.contains (strSet xs) (contextField "memberId"))
      (.contains (strSet xs) (contextField "userId")))).render = "([" ++ strList xs ++
        "].contains(context.memberId) || [" ++ strList xs ++ "].contains(context.userId))" := by
    intro xs
    rw [Expr.render, Expr.render, contains_render, contains_render, ← String.toList_inj]
    simp
  simp only [docConds, map_append, listCond_map, hl, ha, howner, hmembers, hres,
    contains_render, containsAny_render, ← String.append_assoc, String.reduceAppend,
    List.map_map, comp_def, conditionExpr_render]

/-- The text that is produced is the text of the policy it is read as. -/
theorem cedarPolicy_render {id : String} {effect : Effect} {doc : PolicyDoc} {p : Cedar.Policy}
    (h : cedarPolicy id effect doc = some p) : p.render = policyDocToCedar id effect doc := by
  obtain ⟨conds, hc, rfl⟩ := map_eq_some_iff.1 h
  have hid : "@id(" ++ Cedar.quote id ++ ")\n" = "@id(\"" ++ esc id ++ "\")\n" := by
    rw [← String.toList_inj]
    simp [Cedar.quote, esc]
  rw [Cedar.Policy.render, policyDocToCedar, hid, docExprs_render hc, ← docExprs_render hc,
    isEmpty_map]

/-! ## The context -/

section

variable (toLowerCase : String → String)

/-- Every attribute path any policy's conditions reference. -/
def referencedAttrs (docs : List PolicyDoc) : List String :=
  (docs.flatMap fun d => d.conditions.map Condition.attr).eraseDups

def stringArray (xs : List String) : Value := .arr (xs.map .str)

/-- The attributes that have a value, by their path. -/
def attrsRecord (req : AuthzRequest) (attrPaths : List String) : Fields :=
  attrPaths.filterMap fun path =>
    let values := lookupAttr toLowerCase path req.principal req.resource
    if values = [] then none else some (path, stringArray values)

def isOwner (req : AuthzRequest) : Bool :=
  req.resource.any fun r => ownerRelation r ||
    r.ownerMemberId.any fun owner => owner ≠ "" && some owner == req.principal.memberId

def resourceLabels (req : AuthzRequest) : Fields := (req.resource.map (·.labels)).getD []

def resourceRelations (req : AuthzRequest) : List Relation :=
  (req.resource.bind (·.principalRelations)).getD []

def buildCedarContext (req : AuthzRequest) (attrPaths : List String) : Fields := [
  ("userId", .str req.principal.userId),
  ("memberId", .str (req.principal.memberId.getD "")),
  ("groups", stringArray (principalGroups req.principal)),
  ("attrs", .obj (attrsRecord toLowerCase req attrPaths)),
  ("action", .str req.action.name),
  ("roles", stringArray (req.principal.roles.map Role.name)),
  ("attributes", .obj req.principal.attributes),
  ("hasResource", .bool req.resource.isSome),
  ("resourceType", .str ((req.resource.map (·.type)).getD "")),
  ("labels", .obj (resourceLabels req)),
  ("relations", stringArray ((resourceRelations req).map Relation.name)),
  ("isOwner", .bool (isOwner req))]

/-! ## The engine -/

structure CedarCall where
  principal : String
  action : String
  resource : String
  context : Fields
  policies : String

/-- The optional dependency: which calls it takes, and what it reads an escaped
object as. -/
structure CedarWasm where
  accepts : CedarCall → Bool
  escape : Fields → Option String

/-- The answer to a call whose policies are read as the ones given; `none` is a failure. -/
def CedarWasm.isAuthorized (cedar : CedarWasm) (call : CedarCall)
    (policies : Option (List Cedar.Policy)) : Option Bool :=
  if cedar.accepts call then
    policies.bind fun ps =>
      (Cedar.readValue cedar.escape (.obj call.context)).map (Cedar.isAuthorized ps)
  else none

def toCedarSource (policies : List ParsedPolicy) : String :=
  "\n\n".intercalate (policies.map fun p => policyDocToCedar p.id p.effect p.doc)

variable (toUpperCase : String → String)

def cedarCall (compiled : List ParsedPolicy) (req : AuthzRequest) : CedarCall where
  principal := "Swarmy::User::\"" ++ esc req.principal.userId ++ "\""
  action := "Swarmy::Action::\"act\""
  resource := match req.resource with
    | some r => resourceCedarType toUpperCase r.type ++ "::\"" ++ esc r.id ++ "\""
    | none => "Swarmy::Org::\"org\""
  context := buildCedarContext toLowerCase req (referencedAttrs (compiled.map (·.doc)))
  policies := toCedarSource compiled

/-- The policies the source text is read as. -/
def cedarPolicies (compiled : List ParsedPolicy) : Option (List Cedar.Policy) :=
  compiled.mapM fun p => cedarPolicy p.id p.effect p.doc

/-- `CedarPolicyEngine.evaluate`: Cedar's answer, or the JSON engine's when it gives none. -/
def CedarPolicyEngine.evaluate (cedar : CedarWasm) (compiled : List ParsedPolicy)
    (req : AuthzRequest) : Decision :=
  match cedar.isAuthorized (cedarCall toLowerCase toUpperCase compiled req)
      (cedarPolicies compiled) with
  | some true => ⟨.permit, none, ["cedar: allow"]⟩
  | some false => ⟨.deny, none, ["cedar: deny"]⟩
  | none => JsonPolicyEngine.evaluate toLowerCase compiled req

end

end Swarmy.Abac
