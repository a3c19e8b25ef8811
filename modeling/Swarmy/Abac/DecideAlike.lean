import Swarmy.Abac.Cedar

/-!
# The two engines, side by side

What a Cedar policy asks of a request is worked out clause by clause.  The two
engines read five clauses differently, some more loosely and one more strictly;
`decideAlike_iff` says exactly when this shows in a decision.
-/

namespace Swarmy.Abac

open List Option

open Js (Value Fields)
open Cedar (Expr Lit)

/-! ## How Cedar reads a document -/

/-- The value has no literal of its own: its text is compared instead. -/
def isCompound : Value → Bool
  | .null | .arr _ | .obj _ => true
  | _ => false

/-- What a value is compared as. -/
def written (v : Value) : Value := if isCompound v then .str v.text else v

section

variable (doc : PolicyDoc) (principal : Principal) (resource : Option Resource)

def typesRead : Bool :=
  clause doc.resourceTypes fun types =>
    types.contains "*" || resource.any fun r => types.contains r.type

/-- The entries asked for, of a record that is one. -/
def entriesRead (wanted stored : Fields) : Bool :=
  wanted.all fun (k, v) => !Cedar.isEscape stored && (stored.get k).any (·.same (written v))

def labelsRead : Bool :=
  (doc.resourceLabels.getD []).isEmpty ||
    resource.any fun r => entriesRead (doc.resourceLabels.getD []) r.labels

def attributesRead : Bool :=
  entriesRead (doc.attributes.getD []) principal.attributes

def membersRead : Bool :=
  clause doc.members fun members =>
    members.contains (principal.memberId.getD "") || members.contains principal.userId

end

/-- Cedar's reading of the document holds of the request. -/
def cedarMatches (toLowerCase : String → String) (doc : PolicyDoc) (req : AuthzRequest) : Bool :=
  listMatches doc.actions req.action.name &&
  rolesMatch doc req.principal &&
  typesRead doc req.resource &&
  labelsRead doc req.resource &&
  attributesRead doc req.principal &&
  (!doc.ownerOnly || isOwner req) &&
  relationsMatch doc req.resource &&
  groupsMatch doc req.principal &&
  membersRead doc req.principal &&
  conditionsHold doc req.principal req.resource toLowerCase

/-! ## The context as Cedar reads it -/

section

variable (toLowerCase : String → String) (req : AuthzRequest) (attrPaths : List String)

/-- A set of strings, as a Cedar value. -/
def stringSet (xs : List String) : Cedar.Value := .set (xs.map fun x => .lit (.string x))

def stringValue (s : String) : Cedar.Value := .lit (.string s)

def attrsValue : Cedar.Value :=
  .record (attrPaths.filterMap fun path =>
    let values := lookupAttr toLowerCase path req.principal req.resource
    if values = [] then none else some (path, stringSet values))

/-- The context, the two bags of a request being read as `attributes` and `labels`. -/
def contextValue (attributes labels : Cedar.Value) : Cedar.Value := .record [
  ("userId", stringValue req.principal.userId),
  ("memberId", stringValue (req.principal.memberId.getD "")),
  ("groups", stringSet (principalGroups req.principal)),
  ("attrs", attrsValue toLowerCase req attrPaths),
  ("action", stringValue req.action.name),
  ("roles", stringSet (req.principal.roles.map Role.name)),
  ("attributes", attributes),
  ("hasResource", .ofBool req.resource.isSome),
  ("resourceType", stringValue ((req.resource.map (·.type)).getD "")),
  ("labels", labels),
  ("relations", stringSet ((resourceRelations req).map Relation.name)),
  ("isOwner", .ofBool (isOwner req))]

end

variable {toLowerCase : String → String} {req : AuthzRequest} {attrPaths : List String}
  {escape : Fields → Option String}

theorem readValue_stringArray (xs : List String) :
    Cedar.readValue escape (stringArray xs) = some (stringSet xs) := by
  rw [stringArray, Cedar.readValue, Cedar.readElems_strs, map_some, stringSet]

/-- No attribute path is a reserved key. -/
theorem isEscape_attrsRecord (hp : ∀ path ∈ attrPaths, isAttrPath path = true) :
    Cedar.isEscape (attrsRecord toLowerCase req attrPaths) = false := by
  rw [Cedar.isEscape, List.any_eq_false]
  intro f hf hr
  obtain ⟨path, hmem, hsome⟩ := mem_filterMap.1 hf
  have hkey : f.1 = path := by
    dsimp only at hsome
    split at hsome
    · cases hsome
    · obtain rfl := some.inj hsome
      rfl
  have hpath := hp path hmem
  simp only [Cedar.reservedKeys, contains_cons, contains_nil, Bool.or_false,
    Bool.or_eq_true, beq_iff_eq, hkey] at hr
  rcases hr with rfl | rfl | rfl <;> revert hpath <;> decide

theorem readFields_attrsRecord :
    (Cedar.readFields escape (attrsRecord toLowerCase req attrPaths)).map .record =
      some (attrsValue toLowerCase req attrPaths) := by
  rw [attrsValue, attrsRecord, map_eq_some_iff]
  refine ⟨_, ?_, rfl⟩
  induction attrPaths with
  | nil => simp [Cedar.readFields]
  | cons path paths ih =>
    by_cases hv : lookupAttr toLowerCase path req.principal req.resource = []
    · simpa [hv] using ih
    · simpa [hv, Cedar.readFields, readValue_stringArray] using ih

variable (toLowerCase attrPaths escape) in
theorem readValue_context (hp : ∀ path ∈ attrPaths, isAttrPath path = true) {v : Cedar.Value} :
    Cedar.readValue escape (.obj (buildCedarContext toLowerCase req attrPaths)) = some v ↔
      ∃ attributes labels, Cedar.readValue escape
        (.obj req.principal.attributes) = some attributes ∧
        Cedar.readValue escape (.obj (resourceLabels req)) = some labels ∧
        contextValue toLowerCase req attrPaths attributes labels = v := by
  have hattrs : Cedar.readValue escape (.obj (attrsRecord toLowerCase req attrPaths)) =
      some (attrsValue toLowerCase req attrPaths) := by
    rw [Cedar.readValue, isEscape_attrsRecord hp]
    exact readFields_attrsRecord
  have hctx : Cedar.isEscape (buildCedarContext toLowerCase req attrPaths) = false := by
    simp [Cedar.isEscape, buildCedarContext, Cedar.reservedKeys]
  have hstr : ∀ s, Cedar.readValue escape (.str s) = some (stringValue s) := fun s => by
    rw [Cedar.readValue, stringValue]
  have hbool : ∀ b, Cedar.readValue escape (.bool b) = some (.ofBool b) := fun b => by
    rw [Cedar.readValue]
  rw [Cedar.readValue, hctx]
  simp only [buildCedarContext, Cedar.readFields, hstr, hbool, hattrs, readValue_stringArray]
  simp [bind_eq_some_iff, contextValue]

/-! ## What each conjunct asks -/

section

variable {attributes labels : Cedar.Value}

theorem eval_strSet (ctx : Cedar.Value) (xs : List String) :
    (strSet xs).eval ctx = some (stringSet xs) := by
  rw [strSet, Expr.eval, stringSet, List.map_map]
  rfl

theorem is_contains {c : Cedar.Value} {a b : Expr} {xs : List String} {s : String}
    (ha : a.eval c = some (stringSet xs)) (hb : b.eval c = some (stringValue s)) :
    (Expr.contains a b).Is c (xs.contains s) := by
  rw [Expr.Is, Expr.eval, ha, hb, bind_some, bind_some, stringSet, stringValue,
    Cedar.Value.contains_strs, map_some]

theorem is_containsAny {c : Cedar.Value} {a b : Expr} {x ys : List String}
    (ha : a.eval c = some (stringSet x)) (hb : b.eval c = some (stringSet ys)) :
    (Expr.containsAny a b).Is c (ys.any x.contains) := by
  rw [Expr.Is, Expr.eval, ha, hb, bind_some, bind_some, stringSet, stringSet,
    Cedar.Value.containsAny_strs, map_some]

/-- A conjunct for a list asks what the clause asks. -/
theorem holds_listCond {ctx : Cedar.Value} {cond : List String → Expr} {P : List String → Bool}
    (h : ∀ xs, (cond xs).Is ctx (P xs)) (wild : Bool) (list : Option (List String)) :
    (∀ e ∈ listCond wild list cond, e.Holds ctx) ↔
      clause list (fun xs => wild && xs.contains "*" || P xs) = true := by
  unfold listCond clause
  split
  · simp
  · simp
  · case _ xs _ =>
      by_cases hw : (wild && xs.contains "*") = true
      · simp only [hw, if_true, Bool.true_or, not_mem_nil, false_imp_iff, implies_true]
      · simp only [hw, Bool.false_or, Bool.false_eq_true, if_false]
        rw [forall_mem_singleton, (h xs).holds_iff]

variable (toLowerCase req attrPaths) in
theorem lookup_attrs (path : String) : (attrPaths.filterMap fun path =>
      let values := lookupAttr toLowerCase path req.principal req.resource
      if values = [] then none else some (path, stringSet values)).lookup path =
      if path ∈ attrPaths ∧ lookupAttr toLowerCase path req.principal req.resource ≠ [] then
        some (stringSet (lookupAttr toLowerCase path req.principal req.resource)) else none := by
  induction attrPaths with
  | nil => simp
  | cons p paths ih =>
    by_cases hp : path = p
    · subst hp
      by_cases hv : lookupAttr toLowerCase path req.principal req.resource = []
      · simpa [hv] using ih
      · simp [hv]
    · have hne : (path == p) = false := by simpa using hp
      by_cases hv : lookupAttr toLowerCase p req.principal req.resource = []
      · simpa [hv, hp] using ih
      · simpa [hv, hp, lookup_cons, hne] using ih

theorem any_contains_comm (xs ys : List String) : xs.any ys.contains = ys.any xs.contains := by
  rw [Bool.eq_iff_iff]
  simp only [List.any_eq_true, List.contains_iff_mem]
  exact ⟨fun ⟨x, hx, hy⟩ => ⟨x, hy, hx⟩, fun ⟨x, hx, hy⟩ => ⟨x, hy, hx⟩⟩

/-- A condition asks in Cedar what it asks of the values of its attribute. -/
theorem is_conditionExpr {c : Condition} (hmem : c.attr ∈ attrPaths) :
    (conditionExpr c).Is (contextValue toLowerCase req attrPaths attributes labels)
      (conditionHolds c.op (lookupAttr toLowerCase c.attr req.principal req.resource)) := by
  set ctx := contextValue toLowerCase req attrPaths attributes labels
  have hattrs : (contextField "attrs").eval ctx = some (attrsValue toLowerCase req attrPaths) := rfl
  have hlookup := lookup_attrs toLowerCase req attrPaths c.attr
  generalize hv : lookupAttr toLowerCase c.attr req.principal req.resource = values at *
  have hhas : (Expr.has (contextField "attrs") c.attr).Is ctx (!values.isEmpty) := by
    rw [Expr.Is, Expr.eval, hattrs, bind_some, attrsValue, Cedar.Value.has, hlookup]
    cases values <;> simp [hmem]
  have hindex (hne : (!values.isEmpty) = true) :
      (Expr.index (contextField "attrs") c.attr).eval ctx = some (stringSet values) := by
    rw [Expr.eval, hattrs, bind_some, attrsValue, Cedar.Value.get, hlookup,
      if_pos ⟨hmem, by simpa using hne⟩]
  have heq (v : String) : (Expr.paren (.and (.has (contextField "attrs") c.attr)
      (.contains (.index (contextField "attrs") c.attr) (.lit (.string v))))).Is ctx
        (values.contains v) := by
    have h := Expr.is_and hhas fun hne =>
      is_contains (hindex hne) (b := .lit (.string v)) (s := v) rfl
    cases values <;> exact h
  have hany (vs : List String) : (Expr.paren (.and (.has (contextField "attrs") c.attr)
      (.containsAny (.index (contextField "attrs") c.attr) (strSet vs)))).Is ctx
        (values.any vs.contains) := by
    have h := Expr.is_and hhas fun hne => is_containsAny (hindex hne) (eval_strSet ctx vs)
    rw [any_contains_comm] at h
    cases values <;> exact h
  obtain ⟨attr, hp, op⟩ := c
  cases op with
  | eq v => exact heq v
  | ne v => exact Expr.is_not (heq v)
  | «in» vs => exact hany vs
  | notIn vs => exact Expr.is_not (hany vs)
  | «exists» => cases values <;> exact hhas
  | notExists => cases values <;> exact Expr.is_not hhas

/-- Two values with literals of their own are `===` when the literals are equal. -/
theorem literal_same {a b : Value} {l m : Lit} (ha : isCompound a = false)
    (hb : isCompound b = false) (hl : literal a = some l) (hm : literal b = some m) :
    (l == m) = a.same b := by
  have hnum {x : Js.Num} {l : Lit} (h : literal (.num x) = some l) :
      ∃ n, x = .int n ∧ l = .long n := by
    obtain ⟨n, hn, rfl⟩ := map_eq_some_iff.1 h
    exact ⟨n, Cedar.readNum_eq_some hn, rfl⟩
  cases a with
  | null | arr | obj => cases ha
  | num x =>
    obtain ⟨n, rfl, rfl⟩ := hnum hl
    cases b with
    | num y =>
      obtain ⟨k, rfl, rfl⟩ := hnum hm
      simp [Value.same]
    | _ =>
      cases hb
      all_goals cases hm
      all_goals simp [Value.same]
  | _ =>
    cases hl
    cases b with
    | num y =>
      obtain ⟨k, rfl, rfl⟩ := hnum hm
      simp [Value.same]
    | _ =>
      cases hb
      all_goals cases hm
      all_goals simp [Value.same]

theorem literal_written {v : Value} {l : Lit} (h : literal v = some l) :
    isCompound (written v) = false ∧ literal (written v) = some l := by
  cases v <;> exact ⟨rfl, h⟩

theorem same_literal {stored wanted : Value} {v : Cedar.Value} {l : Lit}
    (hs : Cedar.readValue escape stored = some v) (hl : literal wanted = some l) :
    v.same (.lit l) = stored.same (written wanted) := by
  obtain ⟨hprim, hwl⟩ := literal_written hl
  have hlit (m : Lit) (hm : literal stored = some m) (hv : v = .lit m)
      (hp : isCompound stored = false) : v.same (.lit l) = stored.same (written wanted) := by
    rw [hv, Cedar.Value.same, literal_same hp hprim hm hwl]
  have hother (hv : ∀ m, v ≠ .lit m) (hp : stored.isPrimitive = false) :
      v.same (.lit l) = stored.same (written wanted) := by
    have hns : stored.same (written wanted) = false := by
      rw [Bool.eq_false_iff, Ne, Value.same_iff, hp]
      exact fun h => Bool.false_ne_true h.2
    rw [hns]
    cases v with
    | lit m => exact absurd rfl (hv m)
    | _ => rfl
  cases stored with
  | null => cases hs
  | bool b => exact hlit _ rfl (some.inj hs).symm rfl
  | str s => exact hlit _ rfl (some.inj hs).symm rfl
  | num x =>
    obtain ⟨n, hn, rfl⟩ := map_eq_some_iff.1 hs
    exact hlit (.long n) (by rw [literal, hn, map_some]) rfl rfl
  | arr elems =>
    obtain ⟨vs, -, rfl⟩ := map_eq_some_iff.1 hs
    exact hother (fun m hm => by cases hm) rfl
  | obj fields =>
    refine hother (fun m hm => ?_) rfl
    subst hm
    rw [Cedar.readValue] at hs
    split at hs <;> obtain ⟨_, -, h⟩ := map_eq_some_iff.1 hs <;> cases h

theorem typesRead_eq (doc : PolicyDoc) (resource : Option Resource) :
    clause doc.resourceTypes (fun xs => xs.contains "*" ||
      resource.isSome && xs.contains ((resource.map (·.type)).getD "")) =
        typesRead doc resource := by
  cases resource <;> simp [typesRead]

theorem labelsRead_eq (doc : PolicyDoc) (req : AuthzRequest) :
    (doc.resourceLabels.getD []).all (fun (k, v) => req.resource.isSome &&
      (!Cedar.isEscape (resourceLabels req) &&
        ((resourceLabels req).get k).any (·.same (written v)))) = labelsRead doc req.resource := by
  unfold resourceLabels labelsRead entriesRead
  cases req.resource with
  | none => cases doc.resourceLabels.getD [] <;> rfl
  | some r => cases doc.resourceLabels.getD [] <;> rfl

theorem relationsMatch_eq (doc : PolicyDoc) (req : AuthzRequest) :
    clause doc.relations (fun xs => req.resource.isSome &&
      xs.any ((resourceRelations req).map Relation.name).contains) =
        relationsMatch doc req.resource := by
  unfold relationsMatch resourceRelations
  cases req.resource <;> rfl

/-- The two conjuncts for an entry of a record ask for its value. -/
theorem holds_entry {c bag : Cedar.Value} {name k : String} {l : Lit} {stored : Fields}
    {wanted : Value} (hbag : Cedar.readValue escape (.obj stored) = some bag)
    (hctx : (contextField name).eval c = some bag) (hl : literal wanted = some l) :
    ((Expr.has (contextField name) k).Holds c ∧
        (Expr.eq (.index (contextField name) k) (.lit l)).Holds c) ↔
      (!Cedar.isEscape stored && (stored.get k).any (·.same (written wanted))) = true := by
  rw [Cedar.readValue] at hbag
  by_cases hesc : Cedar.isEscape stored = true
  · rw [if_pos hesc] at hbag
    obtain ⟨text, -, rfl⟩ := map_eq_some_iff.1 hbag
    simp [Expr.Holds, Expr.Is, Expr.eval, hctx, Cedar.Value.has, hesc]
  · rw [if_neg hesc] at hbag
    obtain ⟨gs, hgs, rfl⟩ := map_eq_some_iff.1 hbag
    simp only [Expr.Holds, Expr.Is, Expr.eval, hctx, bind_some, Cedar.Value.has,
      Cedar.Value.get]
    rcases Cedar.readFields_lookup hgs k with ⟨hnone, hnone'⟩ | ⟨v, w, hv, hw, hw'⟩
    · simp [hnone, hnone']
    · simp [hv, hw', same_literal hw hl, hesc]

theorem holds_recordExprs {ctx : Cedar.Value} {expr : String → Lit → Expr} {entries : Option Fields}
    {es : List Expr} {P : String → Value → Bool} (h : recordExprs expr entries = some es)
    (hP : ∀ k v l, literal v = some l → ((expr k l).Holds ctx ↔ P k v = true)) :
    (∀ e ∈ es, e.Holds ctx) ↔ (entries.getD []).all (fun (k, v) => P k v) = true := by
  rw [recordExprs, mapM_eq_some] at h
  generalize entries.getD [] = fs at h
  induction h with
  | nil => simp
  | cons hx _ ih =>
    obtain ⟨l, hl, rfl⟩ := map_eq_some_iff.1 hx
    rw [forall_mem_cons, ih, hP _ _ _ hl, all_cons, Bool.and_eq_true]

/-- The conjuncts of a document hold when Cedar's reading of it does. -/
theorem holds_docExprs {doc : PolicyDoc} {es : List Expr} (hes : docExprs doc = some es)
    (hpaths : ∀ c ∈ doc.conditions, c.attr ∈ attrPaths)
    (ha : Cedar.readValue escape (.obj req.principal.attributes) = some attributes)
    (hl : Cedar.readValue escape (.obj (resourceLabels req)) = some labels) :
    (∀ e ∈ es, e.Holds (contextValue toLowerCase req attrPaths attributes labels)) ↔
      cedarMatches toLowerCase doc req = true := by
  set ctx := contextValue toLowerCase req attrPaths attributes labels with hctx
  simp only [docExprs, Option.bind_eq_bind, Option.bind_eq_some_iff, Option.pure_def,
    Option.some.injEq] at hes
  obtain ⟨ls, hls, as, has, rfl⟩ := hes
  have hres : (contextField "hasResource").Is ctx req.resource.isSome := rfl
  have hactions := holds_listCond (fun xs => is_contains (c := ctx) (b := contextField "action")
    (eval_strSet ctx xs) rfl) true doc.actions
  have hroles := holds_listCond (fun xs => is_containsAny (c := ctx) (a := contextField "roles")
    (x := req.principal.roles.map Role.name) rfl (eval_strSet ctx xs)) true doc.roles
  have htypes := holds_listCond (fun xs => Expr.is_and hres fun _ => is_contains (c := ctx)
    (b := contextField "resourceType") (eval_strSet ctx xs) rfl) true doc.resourceTypes
  have hrelations := holds_listCond (fun xs => Expr.is_and hres fun _ => is_containsAny (c := ctx)
    (a := contextField "relations") (x := (resourceRelations req).map Relation.name) rfl
    (eval_strSet ctx xs)) false doc.relations
  have hgroups := holds_listCond (fun xs => is_containsAny (c := ctx) (a := contextField "groups")
    (x := principalGroups req.principal) rfl (eval_strSet ctx xs)) true doc.groups
  have hmembers := holds_listCond (fun xs => Expr.is_paren.2 (Expr.is_or
    (is_contains (c := ctx) (b := contextField "memberId") (eval_strSet ctx xs) rfl)
    (is_contains (c := ctx) (b := contextField "userId") (eval_strSet ctx xs) rfl)))
    false doc.members
  have hlabels := holds_recordExprs hls fun k v l hv => by
    rw [labelExpr, Expr.holds_and, Expr.holds_and, and_assoc, hres.holds_iff,
      holds_entry hl rfl hv, ← Bool.and_eq_true]
  have hattributes := holds_recordExprs has fun k v l hv => by
    rw [attributeExpr, Expr.holds_and, holds_entry (c := ctx) ha rfl hv]
  have hconds : (∀ e ∈ doc.conditions.map conditionExpr, e.Holds ctx) ↔
      conditionsHold doc req.principal req.resource toLowerCase = true := by
    rw [List.forall_mem_map, conditionsHold, List.all_eq_true]
    exact forall₂_congr fun c hc => (is_conditionExpr (hpaths c hc)).holds_iff
  have howner : (∀ e ∈ if doc.ownerOnly then
      [Expr.and (contextField "hasResource") (contextField "isOwner")] else [], e.Holds ctx) ↔
        (!doc.ownerOnly || isOwner req) = true := by
    have h := (Expr.is_and hres (b := contextField "isOwner") (d := isOwner req)
      fun _ => rfl).holds_iff
    cases doc.ownerOnly with
    | false => simp
    | true =>
      rw [if_pos rfl, forall_mem_singleton, h]
      cases hr : req.resource <;> simp [isOwner, hr]
  simp only [forall_mem_append, hactions, hroles, htypes, hlabels, hattributes, howner,
    hrelations, hgroups, hmembers, hconds, cedarMatches, Bool.and_eq_true, Bool.true_and,
    Bool.false_and, Bool.false_or, typesRead_eq, labelsRead_eq, relationsMatch_eq]
  exact Iff.rfl

end

/-! ## Where the readings part -/

/-- Some clause asks more in Cedar's reading than in the JSON engine's: ownership
counts neither the owner's user id nor the owning team, and a bag that is read as
an escape has no entries. -/
def readsStricter (doc : PolicyDoc) (req : AuthzRequest) : Bool :=
  (doc.ownerOnly && !isOwner req) ||
  (!(doc.resourceLabels.getD []).isEmpty && Cedar.isEscape (resourceLabels req)) ||
  (!(doc.attributes.getD []).isEmpty && Cedar.isEscape req.principal.attributes)

/-- Some clause asks less in Cedar's reading: the type `*` and an empty record of
labels need no resource, a value without a literal is compared by its text, and a
missing member id is the blank one. -/
def readsLooser (doc : PolicyDoc) (req : AuthzRequest) : Bool :=
  ((doc.resourceTypes.getD []).contains "*" && req.resource.isNone) ||
  (doc.resourceLabels.isSome && req.resource.isNone) ||
  ((doc.resourceLabels.getD []).any fun f => isCompound f.2) ||
  ((doc.attributes.getD []).any fun f => isCompound f.2) ||
  !membersMatch doc req.principal

section

variable {doc : PolicyDoc} {stored : Fields} {bag attributes labels : Cedar.Value}

/-- A record that is read holds no `null`. -/
theorem get_ne_null (h : Cedar.readValue escape (.obj stored) = some bag)
    (hesc : Cedar.isEscape stored = false) (k : String) : stored.get k ≠ some .null := by
  intro hk
  rw [Cedar.readValue, hesc] at h
  obtain ⟨gs, hgs, -⟩ := map_eq_some_iff.1 h
  rcases Cedar.readFields_lookup hgs k with ⟨hn, -⟩ | ⟨v, w, hv, hw, -⟩
  · rw [hn] at hk
    cases hk
  · obtain rfl := some.inj (hk.symm.trans hv)
    cases hw

/-- An entry is asked for alike unless its value has no literal. -/
theorem entry_eq (h : Cedar.readValue escape (.obj stored) = some bag)
    (hesc : Cedar.isEscape stored = false) (k : String) (v : Value) :
    (stored.get k).any (·.same v) =
      ((stored.get k).any (·.same (written v)) && !isCompound v) := by
  cases hc : isCompound v with
  | false => simp [written, hc]
  | true =>
    rw [Bool.not_true, Bool.and_false, Option.any_eq_false]
    intro w hw
    rw [Bool.eq_false_iff]
    intro hsame
    obtain ⟨rfl, hprim⟩ := Value.same_iff.1 hsame
    cases w with
    | null => exact get_ne_null h hesc k hw
    | arr | obj => cases hprim
    | bool | num | str => cases hc

theorem entries_eq (h : Cedar.readValue escape (.obj stored) = some bag) {wanted : Fields}
    (hesc : (!wanted.isEmpty && Cedar.isEscape stored) = false) :
    wanted.all (fun (k, v) => (stored.get k).any (·.same v)) =
      (entriesRead wanted stored && !wanted.any fun f => isCompound f.2) := by
  by_cases he : Cedar.isEscape stored = true
  · obtain rfl : wanted = [] := by simpa [he] using hesc
    rfl
  · rw [Bool.not_eq_true] at he
    have hentry (f : String × Value) : (stored.get f.1).any (·.same f.2) = true ↔
        (stored.get f.1).any (·.same (written f.2)) = true ∧ (!isCompound f.2) = true := by
      rw [entry_eq h he, Bool.and_eq_true]
    rw [entriesRead, not_any_eq_all_not, Bool.eq_iff_iff, Bool.and_eq_true]
    simp only [he, Bool.not_false, Bool.true_and, List.all_eq_true]
    exact ⟨fun h => ⟨fun f hf => ((hentry f).1 (h f hf)).1, fun f hf => ((hentry f).1 (h f hf)).2⟩,
      fun h f hf => (hentry f).2 ⟨h.1 f hf, h.2 f hf⟩⟩

theorem entriesRead_escape {wanted : Fields}
    (hesc : (!wanted.isEmpty && Cedar.isEscape stored) = true) :
    entriesRead wanted stored = false := by
  obtain ⟨hne, he⟩ := Bool.and_eq_true_iff.1 hesc
  cases wanted with
  | nil => cases hne
  | cons f fs => simp [entriesRead, he]

theorem attributesMatch_eq (h : Cedar.readValue escape (.obj req.principal.attributes) = some bag)
    (hesc : (!(doc.attributes.getD []).isEmpty && Cedar.isEscape req.principal.attributes) = false)
    : attributesMatch doc req.principal =
      (attributesRead doc req.principal &&
        !(doc.attributes.getD []).any fun f => isCompound f.2) := by
  rw [attributesRead, ← entries_eq h hesc, attributesMatch]
  cases doc.attributes <;> rfl

theorem labelsMatch_eq (h : Cedar.readValue escape (.obj (resourceLabels req)) = some bag)
    (hesc : (!(doc.resourceLabels.getD []).isEmpty && Cedar.isEscape (resourceLabels req)) =
      false) :
    labelsMatch doc req.resource =
      (labelsRead doc req.resource && !(doc.resourceLabels.isSome && req.resource.isNone) &&
        !(doc.resourceLabels.getD []).any fun f => isCompound f.2) := by
  unfold labelsMatch labelsRead
  cases hl : doc.resourceLabels with
  | none => simp
  | some labels =>
    cases hr : req.resource with
    | none => simp
    | some r =>
      have hlabels : resourceLabels req = r.labels := by simp [resourceLabels, hr]
      rw [hl, getD_some] at hesc
      have hentries := entries_eq h hesc
      rw [hlabels] at hentries
      rw [all_some, any_some, getD_some, hentries]
      cases labels <;> simp [entriesRead]

theorem typesMatch_eq (doc : PolicyDoc) (resource : Option Resource) :
    typesMatch doc resource = (typesRead doc resource &&
      !((doc.resourceTypes.getD []).contains "*" && resource.isNone)) := by
  unfold typesMatch typesRead listMatches clause
  rcases doc.resourceTypes with _ | _ | ⟨t, ts⟩
  · simp
  · simp
  · cases resource with
    | none =>
      simp only [any_none, Bool.or_false, isNone_none, Bool.and_true,
        getD_some, Bool.and_not_self]
    | some r => simp

theorem membersMatch_imp {doc : PolicyDoc} {principal : Principal}
    (h : membersMatch doc principal = true) : membersRead doc principal = true := by
  unfold membersMatch membersRead clause at *
  split at h
  · rfl
  · rfl
  · obtain ⟨m, hm, hid⟩ := any_eq_true.1 h
    simp only [contains_iff_mem, mem_filter, mem_append, mem_toList,
      mem_singleton] at hid
    rw [Bool.or_eq_true, contains_iff_mem, contains_iff_mem]
    rcases hid.1 with hid | rfl
    · exact .inl (by rwa [mem_def.1 hid])
    · exact .inr hm

theorem ownerMatch_of_isOwner {doc : PolicyDoc} (h : isOwner req = true) :
    ownerMatch doc req.principal req.resource = true := by
  rw [ownerMatch, Bool.or_eq_true]
  right
  unfold isOwner at h
  unfold ownsResource
  cases hr : req.resource with
  | none => simp [hr] at h
  | some r =>
    rw [hr, any_some, Bool.or_eq_true] at h
    rw [any_some, Bool.or_eq_true, Bool.or_eq_true]
    refine .inl (h.imp_right fun h => ?_)
    cases ho : r.ownerMemberId with
    | none => simp [ho] at h
    | some owner =>
      simp only [ho, any_some, Bool.and_eq_true] at h ⊢
      exact ⟨h.1, by rw [h.2, Bool.true_or]⟩

/-- Where no clause asks more in Cedar's reading, a policy matches when that reading
holds and no clause asks less in it. -/
theorem policyMatches_eq
    (ha : Cedar.readValue escape (.obj req.principal.attributes) = some attributes)
    (hl : Cedar.readValue escape (.obj (resourceLabels req)) = some labels)
    (hs : readsStricter doc req = false) : policyMatches toLowerCase doc req =
      (cedarMatches toLowerCase doc req && !readsLooser doc req) := by
  simp only [readsStricter, Bool.or_eq_false_iff] at hs
  obtain ⟨⟨howner, hlabels⟩, hattributes⟩ := hs
  have howner : ownerMatch doc req.principal req.resource = (!doc.ownerOnly || isOwner req) := by
    cases ho : doc.ownerOnly with
    | false => simp [ownerMatch, ho]
    | true =>
      have hown : isOwner req = true := by simpa [ho] using howner
      rw [ownerMatch_of_isOwner hown, hown, Bool.or_true]
  have hmembers : membersMatch doc req.principal =
      (membersRead doc req.principal && membersMatch doc req.principal) := by
    cases hm : membersMatch doc req.principal with
    | false => rw [Bool.and_false]
    | true => rw [membersMatch_imp hm, Bool.and_true]
  rw [policyMatches, cedarMatches, readsLooser, typesMatch_eq, labelsMatch_eq hl hlabels,
    attributesMatch_eq ha hattributes, howner, hmembers]
  simp only [Bool.not_or, Bool.not_not]
  ac_rfl

theorem cedarMatches_stricter (hs : readsStricter doc req = true) :
    cedarMatches toLowerCase doc req = false := by
  rw [Bool.eq_false_iff]
  intro h
  simp only [cedarMatches, Bool.and_eq_true] at h
  obtain ⟨⟨⟨⟨⟨⟨⟨-, hlabels⟩, hattributes⟩, howner⟩, -⟩, -⟩, -⟩, -⟩ := h
  simp only [readsStricter, Bool.or_eq_true] at hs
  rcases hs with (hs | hs) | hs
  · cases ho : doc.ownerOnly <;> simp_all
  · have hnone := entriesRead_escape hs
    unfold labelsRead at hlabels
    cases hr : req.resource with
    | none => simp [resourceLabels, hr, Cedar.isEscape] at hs
    | some r =>
      have hstored : resourceLabels req = r.labels := by simp [resourceLabels, hr]
      rw [hstored] at hnone
      simp [hr, hnone] at hlabels
      simp [hlabels] at hs
  · rw [attributesRead, entriesRead_escape hs] at hattributes
    cases hattributes

theorem satisfied_eq {id : String} {effect : Effect} {q : Cedar.Policy}
    (hq : cedarPolicy id effect doc = some q) (hpaths : ∀ c ∈ doc.conditions, c.attr ∈ attrPaths)
    (ha : Cedar.readValue escape (.obj req.principal.attributes) = some attributes)
    (hl : Cedar.readValue escape (.obj (resourceLabels req)) = some labels) :
    q.satisfied (contextValue toLowerCase req attrPaths attributes labels) =
      cedarMatches toLowerCase doc req := by
  obtain ⟨es, hes, rfl⟩ := map_eq_some_iff.1 hq
  rw [Bool.eq_iff_iff, Cedar.Policy.satisfied_iff]
  exact holds_docExprs hes hpaths ha hl

end

/-! ## Decisions -/

section

variable (toLowerCase toUpperCase : String → String) (cedar : CedarWasm)
  (compiled : List ParsedPolicy) (req : AuthzRequest)

/-- Every value to compare with has a literal. -/
def hasLiterals (doc : PolicyDoc) : Bool :=
  (doc.resourceLabels.getD [] ++ doc.attributes.getD []).all fun f => (literal f.2).isSome

/-- Cedar takes the call, and can read the policies and the request's two bags. -/
def Answers : Prop :=
  cedar.accepts (cedarCall toLowerCase toUpperCase compiled req) = true ∧
    (∀ p ∈ compiled, hasLiterals p.doc = true) ∧
    (Cedar.readValue cedar.escape (.obj req.principal.attributes)).isSome = true ∧
    (Cedar.readValue cedar.escape (.obj (resourceLabels req))).isSome = true

/-- Some policy of the effect satisfies `P`. -/
def SomePolicy (effect : Effect) (P : PolicyDoc → Bool) : Prop :=
  ∃ p ∈ compiled, p.effect = effect ∧ P p.doc = true

/-- Both engines' readings of the document hold. -/
def matchesBoth (doc : PolicyDoc) : Bool :=
  policyMatches toLowerCase doc req && !readsStricter doc req

def matchesJsonOnly (doc : PolicyDoc) : Bool :=
  policyMatches toLowerCase doc req && readsStricter doc req

def matchesCedarOnly (doc : PolicyDoc) : Bool :=
  cedarMatches toLowerCase doc req && readsLooser doc req

/-- What only one engine reads as a match does not change the verdict: a `forbid`
that both read so decides, or the policies that match give the same verdict with
those of either engine added. -/
def Alike : Prop :=
  SomePolicy compiled .forbid (matchesBoth toLowerCase req) ∨
    (¬ SomePolicy compiled .forbid (matchesJsonOnly toLowerCase req) ∧
        (SomePolicy compiled .permit (matchesBoth toLowerCase req) ∨
          SomePolicy compiled .permit (matchesJsonOnly toLowerCase req)) ↔
      ¬ SomePolicy compiled .forbid (matchesCedarOnly toLowerCase req) ∧
        (SomePolicy compiled .permit (matchesBoth toLowerCase req) ∨
          SomePolicy compiled .permit (matchesCedarOnly toLowerCase req)))

end

section

variable {cedar : CedarWasm} {toUpperCase : String → String} {compiled : List ParsedPolicy}

theorem recordExprs_isSome (expr : String → Lit → Expr) (entries : Option Fields) :
    (recordExprs expr entries).isSome = (entries.getD []).all fun f => (literal f.2).isSome := by
  simp only [recordExprs, isSome_mapM, isSome_map]

theorem docExprs_isSome (doc : PolicyDoc) : (docExprs doc).isSome = hasLiterals doc := by
  rw [hasLiterals, all_append, ← recordExprs_isSome labelExpr,
    ← recordExprs_isSome attributeExpr, docExprs]
  cases recordExprs labelExpr doc.resourceLabels <;>
    cases recordExprs attributeExpr doc.attributes <;> rfl

theorem cedarPolicies_isSome :
    (cedarPolicies compiled).isSome = compiled.all fun p => hasLiterals p.doc := by
  simp only [cedarPolicies, isSome_mapM, cedarPolicy, isSome_map, docExprs_isSome]

theorem mem_referencedAttrs {docs : List PolicyDoc} {doc : PolicyDoc} {c : Condition}
    (hd : doc ∈ docs) (hc : c ∈ doc.conditions) : c.attr ∈ referencedAttrs docs := by
  rw [referencedAttrs, mem_eraseDups, mem_flatMap]
  exact ⟨doc, hd, mem_map_of_mem hc⟩

theorem isAttrPath_of_referenced {docs : List PolicyDoc} {path : String}
    (h : path ∈ referencedAttrs docs) : isAttrPath path = true := by
  rw [referencedAttrs, mem_eraseDups, mem_flatMap] at h
  obtain ⟨doc, -, h⟩ := h
  obtain ⟨c, -, rfl⟩ := mem_map.1 h
  exact c.isPath

theorem any_satisfied {qs : List Cedar.Policy} {ctx : Cedar.Value} (effect : Effect)
    (h : List.Forall₂ (fun p q => cedarPolicy p.id p.effect p.doc = some q) compiled qs)
    (hsat : ∀ p ∈ compiled, ∀ q, cedarPolicy p.id p.effect p.doc = some q →
      q.satisfied ctx = cedarMatches toLowerCase p.doc req) :
    (qs.any fun q => q.effect == effect && q.satisfied ctx) =
      compiled.any fun p => p.effect == effect && cedarMatches toLowerCase p.doc req := by
  induction h with
  | nil => rfl
  | @cons p q ps qs hq _ ih =>
    have heff : q.effect = p.effect := by
      obtain ⟨es, -, rfl⟩ := map_eq_some_iff.1 hq
      rfl
    rw [any_cons, any_cons, heff, hsat p mem_cons_self q hq,
      ih fun p hp => hsat p (mem_cons_of_mem _ hp)]

/-- Cedar's answer, from its reading of the documents. -/
theorem isAuthorized_eq (h : Answers toLowerCase toUpperCase cedar compiled req) :
    cedar.isAuthorized (cedarCall toLowerCase toUpperCase compiled req) (cedarPolicies compiled) =
      some (!(compiled.any fun p => p.effect == .forbid && cedarMatches toLowerCase p.doc req) &&
        compiled.any fun p => p.effect == .permit && cedarMatches toLowerCase p.doc req) := by
  obtain ⟨hacc, hlit, ha, hl⟩ := h
  obtain ⟨attributes, ha⟩ := isSome_iff_exists.1 ha
  obtain ⟨labels, hl⟩ := isSome_iff_exists.1 hl
  obtain ⟨qs, hqs⟩ := isSome_iff_exists.1
    (cedarPolicies_isSome.trans (all_eq_true.2 hlit))
  have hctx := (readValue_context toLowerCase (referencedAttrs (compiled.map (·.doc))) cedar.escape
    fun path hp => isAttrPath_of_referenced hp).2 ⟨attributes, labels, ha, hl, rfl⟩
  have hall := mapM_eq_some.1 hqs
  have hsat : ∀ p ∈ compiled, ∀ q, cedarPolicy p.id p.effect p.doc = some q →
      q.satisfied (contextValue toLowerCase req (referencedAttrs (compiled.map (·.doc)))
        attributes labels) = cedarMatches toLowerCase p.doc req := fun p hp q hq =>
    satisfied_eq hq (fun c hc => mem_referencedAttrs (mem_map_of_mem hp) hc) ha hl
  rw [CedarWasm.isAuthorized, if_pos hacc, hqs, bind_some]
  simp only [cedarCall]
  rw [hctx, map_some, Cedar.isAuthorized, any_satisfied .forbid hall hsat,
    any_satisfied .permit hall hsat]

/-- Where Cedar gives no answer, the JSON engine decides. -/
theorem isAuthorized_eq_none (h : ¬ Answers toLowerCase toUpperCase cedar compiled req) :
    cedar.isAuthorized (cedarCall toLowerCase toUpperCase compiled req) (cedarPolicies compiled) =
      none := by
  by_contra hne
  obtain ⟨b, hb⟩ := ne_none_iff_exists'.1 hne
  rw [CedarWasm.isAuthorized] at hb
  split at hb
  case isFalse => cases hb
  case isTrue hacc =>
    obtain ⟨qs, hqs, hb⟩ := bind_eq_some_iff.1 hb
    obtain ⟨v, hv, -⟩ := map_eq_some_iff.1 hb
    obtain ⟨attributes, labels, ha, hl, -⟩ := (readValue_context _ _ _ fun path hp =>
      isAttrPath_of_referenced hp).1 hv
    refine h ⟨hacc, ?_, by rw [ha]; rfl, by rw [hl]; rfl⟩
    exact all_eq_true.1 (cedarPolicies_isSome.symm.trans (by rw [hqs]; rfl))

theorem CedarPolicyEngine.evaluate_permit (h : Answers toLowerCase toUpperCase cedar compiled req) :
    (evaluate toLowerCase toUpperCase cedar compiled req).decision = .permit ↔
      ¬ SomePolicy compiled .forbid (cedarMatches toLowerCase · req) ∧
        SomePolicy compiled .permit (cedarMatches toLowerCase · req) := by
  have hsome (effect : Effect) : SomePolicy compiled effect (cedarMatches toLowerCase · req) ↔
      (compiled.any fun p => p.effect == effect && cedarMatches toLowerCase p.doc req) = true := by
    simp [SomePolicy]
  rw [hsome, hsome, evaluate, isAuthorized_eq h, Bool.not_eq_true]
  cases compiled.any fun p => p.effect == .forbid && cedarMatches toLowerCase p.doc req <;>
    cases compiled.any fun p => p.effect == .permit && cedarMatches toLowerCase p.doc req <;> simp

theorem JsonPolicyEngine.evaluate_permit_iff :
    (evaluate toLowerCase compiled req).decision = .permit ↔
      ¬ SomePolicy compiled .forbid (policyMatches toLowerCase · req) ∧
        SomePolicy compiled .permit (policyMatches toLowerCase · req) := by
  rw [evaluate_permit]
  simp [SomePolicy]

theorem SomePolicy.or {effect : Effect} {P Q : PolicyDoc → Bool} :
    SomePolicy compiled effect (fun d => P d || Q d) ↔
      SomePolicy compiled effect P ∨ SomePolicy compiled effect Q := by
  simp only [SomePolicy, Bool.or_eq_true, and_or_left, exists_or]

theorem policyMatches_split : (policyMatches toLowerCase · req) =
      fun d => matchesBoth toLowerCase req d || matchesJsonOnly toLowerCase req d := by
  funext d
  rw [matchesBoth, matchesJsonOnly]
  cases policyMatches toLowerCase d req <;> cases readsStricter d req <;> rfl

theorem cedarMatches_split (h : Answers toLowerCase toUpperCase cedar compiled req) :
    (cedarMatches toLowerCase · req) =
      fun d => matchesBoth toLowerCase req d || matchesCedarOnly toLowerCase req d := by
  obtain ⟨-, -, ha, hl⟩ := h
  obtain ⟨attributes, ha⟩ := isSome_iff_exists.1 ha
  obtain ⟨labels, hl⟩ := isSome_iff_exists.1 hl
  funext d
  rw [matchesBoth, matchesCedarOnly]
  cases hs : readsStricter d req with
  | true => rw [cedarMatches_stricter hs, Bool.not_true, Bool.and_false, Bool.false_and,
    Bool.or_false]
  | false =>
    rw [policyMatches_eq ha hl hs]
    cases cedarMatches toLowerCase d req <;> cases readsLooser d req <;> rfl

theorem decision_eq_iff :
    (CedarPolicyEngine.evaluate toLowerCase toUpperCase cedar compiled req).decision =
        (JsonPolicyEngine.evaluate toLowerCase compiled req).decision ↔
      (Answers toLowerCase toUpperCase cedar compiled req → Alike toLowerCase compiled req) := by
  by_cases h : Answers toLowerCase toUpperCase cedar compiled req
  · have hiff (d e : Verdict) : d = e ↔ (d = .permit ↔ e = .permit) := by
      cases d <;> cases e <;> simp
    rw [hiff, CedarPolicyEngine.evaluate_permit h, JsonPolicyEngine.evaluate_permit_iff,
      policyMatches_split, cedarMatches_split h, SomePolicy.or, SomePolicy.or, SomePolicy.or,
      SomePolicy.or]
    simp only [h, true_imp_iff, Alike]
    by_cases hboth : SomePolicy compiled .forbid (matchesBoth toLowerCase req)
    · simp [hboth]
    · simp [hboth, iff_comm]
  · simp only [h, false_imp_iff, iff_true]
    rw [CedarPolicyEngine.evaluate, isAuthorized_eq_none h]

end

/-- A new JSON engine's verdict on a request; an error of the constructor otherwise. -/
def jsonVerdict (toLowerCase : String → String) (parseJson : String → Option Value)
    (policies : List PolicyInput) (req : AuthzRequest) : Except String Verdict := do
  let compiled ← compile toLowerCase parseJson policies
  return (JsonPolicyEngine.evaluate toLowerCase compiled req).decision

/-- A new Cedar engine's verdict on a request. -/
def cedarVerdict (toLowerCase toUpperCase : String → String) (parseJson : String → Option Value)
    (cedar : CedarWasm) (policies : List PolicyInput) (req : AuthzRequest) :
    Except String Verdict := do
  let compiled ← compile toLowerCase parseJson policies
  return (CedarPolicyEngine.evaluate toLowerCase toUpperCase cedar compiled req).decision

/-- The two engines decide alike exactly when Cedar gives no answer, or what only one
of them reads as a match does not change the verdict. -/
theorem decideAlike_iff (toLowerCase toUpperCase : String → String)
    (parseJson : String → Option Value) (cedar : CedarWasm) (policies : List PolicyInput)
    (req : AuthzRequest) : cedarVerdict toLowerCase toUpperCase parseJson cedar policies req =
        jsonVerdict toLowerCase parseJson policies req ↔
      ∀ compiled, compile toLowerCase parseJson policies = .ok compiled →
        Answers toLowerCase toUpperCase cedar compiled req → Alike toLowerCase compiled req := by
  unfold cedarVerdict jsonVerdict
  cases hc : compile toLowerCase parseJson policies with
  | error message => simp [bind, Except.bind]
  | ok compiled =>
    simp only [bind, Except.bind, pure, Except.pure, Except.ok.injEq, forall_eq']
    exact decision_eq_iff

/-- The loader of a fixed text, for the run below. -/
def parseOwnerPolicy (source : String) : Option Value :=
  if source = "\x7b\"ownerOnly\":true\x7d" then some (.obj [("ownerOnly", .bool true)]) else none

/-- Cedar, taking every call and reading no escapes. -/
def plainCedar : CedarWasm where
  accepts := fun _ => true
  escape := fun _ => none

/-- A member of the team that owns a stack, who asks to deploy it. -/
def teamRequest : AuthzRequest where
  principal := {
    userId := "u1", memberId := some "m1", orgId := "org", roles := [.member],
    teamIds := some ["t1"], groups := some [], attributes := [] }
  action := ⟨"stack.deploy", by decide⟩
  resource := some {
    type := "stack", id := "s1", orgId := "org", labels := [], env := none,
    ownerMemberId := none, ownerTeamId := some "t1", principalRelations := none }

/-- A policy for owners permits the owning team's member in one engine only. -/
theorem decideAlike_teamOwner :
    ¬ ∀ (toLowerCase toUpperCase : String → String) (parseJson : String → Option Value)
      (cedar : CedarWasm) (policies : List PolicyInput) (req : AuthzRequest),
      cedarVerdict toLowerCase toUpperCase parseJson cedar policies req =
        jsonVerdict toLowerCase parseJson policies req := by
  intro h
  have h := h String.toLower String.toUpper parseOwnerPolicy plainCedar
    [⟨"p1", "owners", .permit, "\x7b\"ownerOnly\":true\x7d", 0, true⟩] teamRequest
  revert h
  decide +kernel

end Swarmy.Abac
