import Swarmy.Abac.Attrs
import Swarmy.Compose.Interpolate

/-!
# The labels of a stack

The labels a compose deploy puts on its services (`compose/to-stack.ts`, with the
reader of `from-compose.ts`), and the labels the authorization check of a deploy
looks at (`liveStackLabels`, `composeLabels` and `stackResource` of the trpc
package's `abac.ts`).  Of a service only the image, the name and the labels are read
here.  The YAML parser is a parameter; it is the same one on both paths.
-/

namespace Swarmy.Compose

open Js (Value Fields)
open Swarmy.Abac (Resource resourceEnv envLabel production)

/-- A record of labels. -/
abbrev Labels := AList fun _ : String => String

namespace Labels

def ofEntries (es : List (String × String)) : Labels :=
  es.foldl (fun out e => out.insert e.1 e.2) ∅

/-- The labels as an attribute bag. -/
def fields (ls : Labels) : Fields := ls.entries.map fun e => (e.1, .str e.2)

end Labels

/-- The texts before and after the first `=`. -/
def splitEq (s : String) : Option (String × String) :=
  match s.toList.dropWhile (· ≠ '=') with
  | [] => none
  | _ :: value => some (.ofList (s.toList.takeWhile (· ≠ '=')), .ofList value)

/-! ## What is deployed -/

/-- The `com.docker.stack.namespace` label. -/
def stackNamespaceLabel : String := "com.docker.stack.namespace"

/-- `v == null ? '' : String(v)`. -/
def textOr (v : Value) : String :=
  match v with
  | .null => ""
  | v => v.text

/-- A `list_or_dict`, entry by entry. -/
def listOrDictEntries : Option Value → List (String × String)
  | some (.arr elems) => elems.map fun e => (splitEq e.text).getD (e.text, "")
  | some (.obj fields) => fields.map fun f => (f.1, textOr f.2)
  | _ => []

def listOrDict (v : Option Value) : Labels := .ofEntries (listOrDictEntries v)

/-- A service's specification: its name and labels. -/
structure ServiceSpec where
  name : String
  labels : Labels

def maxServiceName : Nat := 63

/-- A service that can be deployed has an image and a name that fits. -/
def checkService (stack short : String) (svc : Value) : Except String Unit :=
  let image := match svc.field "image" with
    | none | some .null => ""
    | some v => Js.trim v.text
  if image = "" then
    .error (s!"service \"{short}\" has no image — swarm can't build; push an image (or use a " ++
      "git build) and reference it")
  else if Js.length s!"{stack}_{short}" > maxServiceName then
    .error (s!"service name \"{stack}_{short}\" exceeds {maxServiceName} characters — shorten " ++
      "the stack or service name")
  else .ok ()

/-- Service labels: compose `labels`, then `deploy.labels`, which win. -/
def deployedLabels (stack : String) (svc : Value) : Labels :=
  (listOrDict ((svc.field "deploy").bind (·.field "labels")) ∪
    listOrDict (svc.field "labels")).insert
    stackNamespaceLabel stack

def specOf (stack : String) (short : String) (svc : Value) : ServiceSpec where
  name := s!"{stack}_{short}"
  labels := deployedLabels stack svc

/-- The check of every service, in order. -/
def checkServices (stack : String) : List (String × Value) → Except String Unit
  | [] => .ok ()
  | (short, svc) :: rest =>
    match checkService stack short svc with
    | .error e => .error e
    | .ok () => checkServices stack rest

def composeToStack (doc : Value) (stack : String) : Except String (List ServiceSpec) :=
  match doc.field "services" with
  | some (.obj (f :: fs)) =>
    (checkServices stack (f :: fs)).map fun _ => (f :: fs).map fun f => specOf stack f.1 f.2
  | _ => .error "compose file defines no services"

/-- The parsed text, when it is a mapping. -/
def parseComposeDoc (parseYaml : String → Option Value) (source : String) : Except String Value :=
  match parseYaml source with
  | some (.obj fields) => .ok (.obj fields)
  | some _ => .error "compose file must be a YAML mapping with a `services:` key"
  | none => .error "compose file is not valid YAML"

def interpolateDoc (doc : Value) (vars : Variables) : Except String Value :=
  match interpolateCompose vars doc with
  | .ok (doc, _) => .ok doc
  | .error e =>
    .error ("compose interpolation: " ++
      if e.path = "" then e.message else e.path ++ ": " ++ e.message)

def planComposeStack (parseYaml : String → Option Value) (source stack : String)
    (vars : Variables) : Except String (List ServiceSpec) := do
  let doc ← parseComposeDoc parseYaml source
  let doc ← interpolateDoc doc vars
  composeToStack doc stack

/-! ## What is authorized -/

/-- The entries of `labels` that `composeLabels` reads. -/
def labelsOfEntries : Option Value → List (String × String)
  | some (.arr elems) => elems.filterMap fun e =>
      match e with
      | .str s => (splitEq s).filter (·.1 ≠ "")
      | _ => none
  | some (.obj fields) => fields.filterMap fun f =>
      match f.2 with
      | .null => none
      | v => some (f.1, v.text)
  | _ => []

def labelsOf (v : Option Value) : Labels := .ofEntries (labelsOfEntries v)

/-- A service's own labels, as the text has them. -/
def ownLabels (svc : Value) : Labels :=
  labelsOf ((svc.field "deploy").bind (·.field "labels")) ∪ labelsOf (svc.field "labels")

/-- `Object.values(services)`. -/
def servicesOf (doc : Value) : List Value :=
  match doc.field "services" with
  | some (.obj fields) => fields.map (·.2)
  | some (.arr elems) => elems
  | _ => []

/-- `Object.assign` of one record after the other. -/
def assignAll (ls : List Labels) : Labels := ls.foldl (fun merged own => own ∪ merged) ∅

section

variable (toLowerCase : String → String)

/-- Do these labels say production? -/
def isProduction (ls : Labels) : Bool :=
  resourceEnv toLowerCase none (Labels.fields ls) == some production

/-- The union of the labels, production as soon as one of them is. -/
def unionLabels (ls : List Labels) : Labels :=
  if ls.any (isProduction toLowerCase) then (assignAll ls).insert envLabel production
  else assignAll ls

/-- Labels declared in a compose document. -/
def composeLabels (parseYaml : String → Option Value) (source : String) : Labels :=
  match parseYaml source with
  | none => ∅
  | some doc => unionLabels toLowerCase ((servicesOf doc).map ownLabels)

/-- The live services of a stack. -/
def members (inventory : List Labels) (stackName : String) : List Labels :=
  inventory.filter fun ls => ls.lookup stackNamespaceLabel = some stackName

/-- A stack's labels as Docker reports them. -/
def liveStackLabels (inventory : List Labels) (stackName : String) : Option Labels :=
  let members := members inventory stackName
  if members.isEmpty then none else some (unionLabels toLowerCase members)

/-- The stack resource for a name: live labels, else the incoming compose's. -/
def stackResource (parseYaml : String → Option Value) (inventory : List Labels)
    (row : Option String)
    (orgId name : String) (composeSource : Option String) : Resource :=
  let live := (liveStackLabels toLowerCase inventory name).getD ∅
  let incoming := match composeSource with
    | some source => if source = "" then ∅ else composeLabels toLowerCase parseYaml source
    | none => ∅
  let labels := live ∪ incoming
  -- A deploy that stamps production counts as production immediately.
  let labels := if isProduction toLowerCase incoming then labels.insert envLabel production
    else labels
  { type := "stack"
    id := row.getD name
    orgId := orgId
    labels := Labels.fields labels
    env := none
    ownerMemberId := none
    ownerTeamId := none
    principalRelations := none }

end

end Swarmy.Compose
