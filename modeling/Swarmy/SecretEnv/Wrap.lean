import Swarmy.Canary.Spec
import Swarmy.Js.Json
import Swarmy.Net.LinkName

/-!
# Specs that run through the secret-env shim

`packages/core/src/app-secrets.ts`: a spec that asks for secrets in its environment is wrapped when
it is deployed, and unwrapped when it is read back from the live service.  `applySecretVars` plans
the secret variables of a service on the unwrapped spec.
-/

namespace Swarmy.SecretEnv

open Canary Js

/-! ## Wrapping -/

/-- The image's own ENTRYPOINT and CMD. -/
structure ImageArgv where
  entrypoint : List String
  cmd : List String

/-- The argv that the app would run without the shim: a command drops the image's CMD. -/
def originalArgv (spec : ServiceSpec) (image : Option ImageArgv) : Except String (List String) :=
  match spec.command, image with
  | some (c :: cs), _ => .ok (c :: cs ++ spec.args.getD [])
  | _, none => .error "image entrypoint unknown — cannot wrap the secret-env shim"
  | _, some image => .ok (image.entrypoint ++ ((spec.args >>= nonempty).getD image.cmd))

/-- `r.target ?? r.source`. -/
def targetOf (r : Ref) : String := r.target.getD r.source

/-- What a name must have before it can be wrapped. -/
def checkName (spec : ServiceSpec) (n : String) : Except String Unit :=
  if !isEnvName n then .error s!"\"{n}\" is not a valid env var name"
  else if n ∉ (spec.secrets.getD []).map targetOf then
    .error s!"secret env {n} has no secret mounted at {SECRETS_DIR}/{n}"
  else .ok ()

/-- A list of strings, or `null`. -/
def stringsOrNull : Option (List String) → Value
  | some ss => .arr (ss.map .str)
  | none => .null

/-- The label that keeps a spec's own command and arguments. -/
def argvLabel (spec : ServiceSpec) : String :=
  Json.stringify (.obj [("command", stringsOrNull spec.command), ("args", stringsOrNull spec.args)])

def shimConfig : Ref where
  source := SECRET_ENV_SHIM_CONFIG
  target := some SECRET_ENV_SHIM_PATH
  uid := none
  gid := none
  mode := some (.int 0o444)

/-- The names that a spec asks for in its environment. -/
def secretNames (spec : ServiceSpec) : List String := unique (spec.secretEnv.getD [])

/-- The environment without the names, and with the list of them. -/
def wrapEnv (env : Record) (names : List String) : Record :=
  (names.foldl Record.delete env).set SECRET_ENV_VAR (",".intercalate names)

/-- What is left of the configs when the shim's is taken out. -/
def ownConfigs (spec : ServiceSpec) : List Ref :=
  (spec.configs.getD []).filter fun c => c.source ≠ SECRET_ENV_SHIM_CONFIG

/-- The spec that runs an argv through the shim. -/
def shimmed (spec : ServiceSpec) (argv : List String) : ServiceSpec :=
  { spec with
    secretEnv := none
    secretEnvFileFallback := none
    command := some ["/bin/sh", SECRET_ENV_SHIM_PATH]
    args := some argv
    env := some (wrapEnv (spec.env.getD []) (secretNames spec))
    configs := some (ownConfigs spec ++ [shimConfig])
    labels := some ((spec.labels.getD []).set SECRET_ENV_ARGV_LABEL (argvLabel spec)) }

/-- Wrapping a spec that has been unwrapped. -/
def wrapUnwrapped (spec : ServiceSpec) (image : Option ImageArgv) : Except String ServiceSpec :=
  if secretNames spec = [] then .ok { spec with secretEnv := none, secretEnvFileFallback := none }
  else do
    (secretNames spec).forM (checkName spec)
    let argv ← originalArgv spec image
    if argv = [] then .error "image has no ENTRYPOINT/CMD and no command was given"
    else .ok (shimmed spec argv)

section

-- The number that a text of digits stands for, in a label that is read.
variable (number : List Char → Js.Num)

/-- `unwrapSecretEnv`, with the label read as JSON. -/
def unwrap (spec : ServiceSpec) : ServiceSpec := unwrapSecretEnv (Json.parse number) spec

/-- Deploy-time transform: the spec that runs the original argv through the shim. -/
def wrapSecretEnv (input : ServiceSpec) (image : Option ImageArgv) : Except String ServiceSpec :=
  wrapUnwrapped (unwrap number input) image

/-! ## Planning -/

inductive SecretDelivery where
  | env
  | file
deriving DecidableEq

structure SecretVarDesired where
  key : String
  delivery : SecretDelivery
  /-- Physical Docker secret that the key mounts. -/
  secretName : String

/-- Where the secret of a name is mounted. -/
def mountPath (n : String) : String := SECRETS_DIR ++ "/" ++ n

/-- A `<NAME>_FILE` that points at the secret of the name is dropped. -/
def dropPointer (env : Record) (t : String) : Record :=
  if env.lookup (t ++ "_FILE") = some (mountPath t) then env.delete (t ++ "_FILE") else env

/-- The environment for one desired variable: no plain value, and a pointer for a file. -/
def desireEnv (env : Record) (d : SecretVarDesired) : Record :=
  match d.delivery with
  | .file => (env.delete d.key).set (d.key ++ "_FILE") (mountPath d.key)
  | .env => env.delete d.key

/-- `[...names].sort()`. -/
def sorted (names : List String) : List String :=
  names.mergeSort fun a b => Links.unitsLe (Links.codeUnits a) (Links.codeUnits b)

/-- The plan on a spec that has been unwrapped. -/
def applyUnwrapped (spec : ServiceSpec) (desired : List SecretVarDesired) (managed : List String) :
    ServiceSpec :=
  let keys := desired.map (·.key)
  let secrets := spec.secrets.getD []
  let previouslyManagedTargets := unique ((secrets.filter (·.source ∈ managed)).map targetOf)
  let refs := secrets.filter (fun r => r.source ∉ managed ∧ targetOf r ∉ keys) ++
    desired.map fun d => ⟨d.secretName, some d.key, none, none, some (.int 0o444)⟩
  let env := desired.foldl desireEnv (previouslyManagedTargets.foldl dropPointer (spec.env.getD []))
  let secretEnv := unique ((spec.secretEnv.getD []).filter
      (fun n => n ∉ previouslyManagedTargets ∧ n ∉ keys) ++
    (desired.filter (·.delivery = .env)).map (·.key))
  { spec with
    secrets := nonempty refs
    env := nonempty env
    secretEnv := nonempty (sorted secretEnv) }

/-- Apply a service's full desired secret-var set to a (live or fresh) spec. -/
def applySecretVars (base : ServiceSpec) (desired : List SecretVarDesired) (managed : List String) :
    ServiceSpec :=
  applyUnwrapped (unwrap number base) desired managed

end

end Swarmy.SecretEnv
