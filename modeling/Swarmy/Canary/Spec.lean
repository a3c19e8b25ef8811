import Swarmy.Js.Value

/-!
# The spec of a promoted canary

A canary is promoted by deploying the live service's spec again, with the canary's image.  The
spec is rebuilt from what `docker service inspect` prints: by `specFromInspect` in the router, and
by a copy of it in the worker, `Worker.promoteSpecFrom`.  `promoteSpecFrom_eq_iff` says for which
services the two agree.
-/

namespace Canary

open Js List Option

/-! ## Readers -/

def asObj : Option Value → Option Fields
  | some (.obj fields) => some fields
  | _ => none

def asArr : Option Value → List Value
  | some (.arr elems) => elems
  | _ => []

def asStr : Option Value → Option String
  | some (.str s) => if s = "" then none else some s
  | _ => none

/-- `Number.isFinite(x)`. -/
def isFinite : Js.Num → Bool
  | .int _ => true
  | .other text => !(["Infinity", "-Infinity", "NaN"].contains text)

/-- `x > 0`, of a finite number. -/
def isPositive : Js.Num → Bool
  | .int n => decide (0 < n)
  | .other text => text.toList.head? != some '-'

def asNum : Option Value → Option Js.Num
  | some (.num x) => if isFinite x then some x else none
  | _ => none

/-- `o?.[k]`. -/
def get (o : Option Fields) (k : String) : Option Value := o.bind fun fields => fields.get k

def strings (elems : List Value) : List String :=
  elems.filterMap fun
    | .str s => some s
    | _ => none

/-- A list that is only set when it has elements. -/
def nonempty {α : Type} : List α → Option (List α)
  | [] => none
  | x :: xs => some (x :: xs)

/-- A `Record<string, string>`. -/
abbrev Record := List (String × String)

/-- `o[k] = v`. -/
def Record.set : Record → String → String → Record
  | [], k, v => [(k, v)]
  | (k', v') :: o, k, v => if k' = k then (k, v) :: o else (k', v') :: Record.set o k v

/-- `delete o[k]`. -/
def Record.delete (o : Record) (k : String) : Record := o.filter fun entry => entry.1 ≠ k

@[simp] theorem Record.lookup_delete (o : Record) (k : String) :
    List.lookup k (o.delete k) = none := by
  rw [lookup_eq_none_iff]
  intro entry hentry
  have hne := of_decide_eq_true (mem_filter.1 hentry).2
  exact bne_iff_ne.2 hne.symm

theorem Record.lookup_delete_eq_none {o : Record} {k : String} (j : String)
    (h : List.lookup k o = none) :
    List.lookup k (o.delete j) = none := by
  rw [lookup_eq_none_iff] at h ⊢
  exact fun entry hentry => h entry (mem_of_mem_filter hentry)

theorem Record.lookup_set_self (o : Record) (k v : String) :
    List.lookup k (o.set k v) = some v := by
  induction o with
  | nil => simp [Record.set]
  | cons e o ih =>
    rw [Record.set]
    split
    · simp
    · rename_i hne
      rw [lookup_cons, beq_false_of_ne (Ne.symm hne), ih]

theorem Record.lookup_set_of_ne (o : Record) {j k : String} (h : j ≠ k) (v : String) :
    List.lookup j (o.set k v) = List.lookup j o := by
  induction o with
  | nil => simp [Record.set, beq_false_of_ne h]
  | cons e o ih =>
    rw [Record.set]
    split
    · rename_i heq
      rw [lookup_cons, lookup_cons, beq_false_of_ne h, heq, beq_false_of_ne h]
    · rw [lookup_cons, lookup_cons, ih]

theorem Record.lookup_delete_of_ne (o : Record) {j k : String} (h : j ≠ k) :
    List.lookup j (o.delete k) = List.lookup j o := by
  induction o with
  | nil => rfl
  | cons e o ih =>
    rw [Record.delete, filter_cons]
    by_cases hk : e.1 = k
    · rw [if_neg (by simp [hk]), lookup_cons, hk, beq_false_of_ne h]
      exact ih
    · rw [if_pos (decide_eq_true hk), lookup_cons, lookup_cons, ← Record.delete, ih]

/-- Whether a key is deleted is all that a deletion changes. -/
theorem Record.lookup_delete_eq (o : Record) (j k : String) :
    List.lookup j (o.delete k) = if j = k then none else List.lookup j o := by
  by_cases h : j = k
  · rw [if_pos h, h, Record.lookup_delete]
  · rw [if_neg h, Record.lookup_delete_of_ne o h]

theorem Record.lookup_set_eq (o : Record) (j k v : String) :
    List.lookup j (o.set k v) = if j = k then some v else List.lookup j o := by
  by_cases h : j = k
  · rw [if_pos h, h, Record.lookup_set_self]
  · rw [if_neg h, Record.lookup_set_of_ne o h]

theorem Record.lookup_foldl_delete (ks : List String) (o : Record) (j : String) :
    List.lookup j (ks.foldl Record.delete o) = if j ∈ ks then none else List.lookup j o := by
  induction ks generalizing o with
  | nil => rw [foldl_nil, if_neg not_mem_nil]
  | cons k ks ih =>
    rw [foldl_cons, ih, Record.lookup_delete_eq]
    by_cases hk : j = k
    · rw [if_pos hk, ite_self, if_pos (hk ▸ mem_cons_self)]
    · simp only [mem_cons, hk, false_or, if_false]

theorem Record.delete_of_lookup {o : Record} {k : String} (h : List.lookup k o = none) :
    o.delete k = o := by
  rw [lookup_eq_none_iff] at h
  refine filter_eq_self.mpr fun e he => decide_eq_true ?_
  exact fun hk => absurd hk.symm (bne_iff_ne.mp (h e he))

theorem Record.delete_set (o : Record) (k v : String) : (o.set k v).delete k = o.delete k := by
  induction o with
  | nil => simp [Record.set, Record.delete]
  | cons e o ih =>
    rw [Record.set]
    split
    · rename_i heq
      simp [Record.delete, heq]
    · simp only [Record.delete, filter_cons] at ih ⊢
      rw [ih]

/-! ## Specs -/

inductive Mode where
  | replicated (replicas : Js.Num)
  | global
deriving DecidableEq

inductive MountType where
  | volume
  | bind
  | tmpfs
deriving DecidableEq

structure Mount where
  type : MountType
  target : String
  source : Option String
  readOnly : Bool
deriving DecidableEq

/-- A secret or a config of a service. -/
structure Ref where
  source : String
  target : Option String
  uid : Option String
  gid : Option String
  mode : Option Js.Num
deriving DecidableEq

inductive Protocol where
  | tcp
  | udp
deriving DecidableEq

inductive PublishMode where
  | ingress
  | host
deriving DecidableEq

structure Port where
  target : Js.Num
  published : Option Js.Num
  protocol : Protocol
  mode : PublishMode
deriving DecidableEq

inductive RestartCondition where
  | none
  | onFailure
  | any
deriving DecidableEq

structure RestartPolicy where
  condition : RestartCondition
  maxAttempts : Option Js.Num
  delayNs : Option Js.Num
deriving DecidableEq

inductive UpdateOrder where
  | startFirst
  | stopFirst
deriving DecidableEq

inductive FailureAction where
  | pause
  | continue
  | rollback
deriving DecidableEq

structure UpdateConfig where
  parallelism : Option Js.Num
  order : Option UpdateOrder
  failureAction : Option FailureAction
  monitorNs : Option Js.Num
  delayNs : Option Js.Num
deriving DecidableEq

structure Placement where
  constraints : Option (List String)
  preferences : Option (List String)
  maxReplicasPerNode : Option Js.Num
deriving DecidableEq

/-- `nano / 1e9`. -/
structure Cpus where
  nano : Js.Num
deriving DecidableEq

structure ResourceSide where
  cpus : Option Cpus
  memoryBytes : Option Js.Num
deriving DecidableEq

structure Resources where
  limits : Option ResourceSide
  reservations : Option ResourceSide
deriving DecidableEq

inductive Healthcheck where
  | disable
  | test (test : List String) (intervalNs timeoutNs startPeriodNs retries : Option Js.Num)
deriving DecidableEq

structure ServiceSpec where
  name : String
  image : String
  mode : Option Mode
  env : Option Record
  command : Option (List String)
  args : Option (List String)
  labels : Option Record
  mounts : Option (List Mount)
  secrets : Option (List Ref)
  configs : Option (List Ref)
  ports : Option (List Port)
  restartPolicy : Option RestartPolicy
  updateConfig : Option UpdateConfig
  placement : Option Placement
  resources : Option Resources
  healthcheck : Option Healthcheck
  stopGracePeriodNs : Option Js.Num
  networks : Option (List String)
  secretEnv : Option (List String)
  secretEnvFileFallback : Option (List String)
deriving DecidableEq

/-! ## The parts of a spec

Both rebuilds read these in the same words. -/

def readMode (spec : Option Fields) : Option Mode :=
  let mode := asObj (get spec "Mode")
  match asNum (get (asObj (get mode "Replicated")) "Replicas") with
  | some replicas => some (.replicated replicas)
  | none => if (get mode "Global").isSome then some .global else none

/-- `env[kv.slice(0, eq)] = kv.slice(eq + 1)`, where `=` is there and not at the start. -/
def setEnv (env : Record) (kv : String) : Record :=
  match kv.toList.span (· ≠ '=') with
  | (_, []) | ([], _) => env
  | (k :: ks, _ :: v) => env.set (String.ofList (k :: ks)) (String.ofList v)

def readEnv (cs : Option Fields) : Option Record :=
  nonempty ((strings (asArr (get cs "Env"))).foldl setEnv [])

def readStrings (o : Option Fields) (k : String) : Option (List String) :=
  nonempty (strings (asArr (get o k)))

def readLabels (spec : Option Fields) : Option Record :=
  (asObj (get spec "Labels")).bind fun labels => nonempty (labels.filterMap fun
    | (k, .str s) => some (k, s)
    | _ => none)

def readMountType : Option String → Option MountType
  | some "volume" => some .volume
  | some "bind" => some .bind
  | some "tmpfs" => some .tmpfs
  | _ => none

def readMount (m : Value) : Option Mount := do
  let mo ← asObj (some m)
  let target ← asStr (mo.get "Target")
  let type ← readMountType (asStr (mo.get "Type"))
  let readOnly := match mo.get "ReadOnly" with
    | some (.bool b) => b
    | _ => false
  some ⟨type, target, asStr (mo.get "Source"), readOnly⟩

def readMounts (cs : Option Fields) : Option (List Mount) :=
  nonempty ((asArr (get cs "Mounts")).filterMap readMount)

def readRef (nameKey : String) (r : Value) : Option Ref := do
  let ro ← asObj (some r)
  let source ← asStr (ro.get nameKey)
  let file := asObj (ro.get "File")
  some ⟨source, asStr (get file "Name"), asStr (get file "UID"), asStr (get file "GID"),
    asNum (get file "Mode")⟩

def readRefs (cs : Option Fields) (k nameKey : String) : Option (List Ref) :=
  nonempty ((asArr (get cs k)).filterMap (readRef nameKey))

def readPort (p : Value) : Option Port := do
  let po ← asObj (some p)
  let target ← asNum (po.get "TargetPort")
  some ⟨target, asNum (po.get "PublishedPort"),
    if asStr (po.get "Protocol") = some "udp" then .udp else .tcp,
    if asStr (po.get "PublishMode") = some "host" then .host else .ingress⟩

def readPorts (spec : Option Fields) : Option (List Port) :=
  nonempty ((asArr (get (asObj (get spec "EndpointSpec")) "Ports")).filterMap readPort)

def readCondition (restart : Option Fields) : Option RestartCondition :=
  match asStr (get restart "Condition") with
  | some "none" => some .none
  | some "on-failure" => some .onFailure
  | some "any" => some .any
  | _ => none

def readConstraints (tt : Option Fields) : List String :=
  strings (asArr (get (asObj (get tt "Placement")) "Constraints"))

def resourcesOf (side : Option Value) : Option ResourceSide :=
  let o := asObj side
  match asNum (get o "NanoCPUs"), asNum (get o "MemoryBytes") with
  | none, none => none
  | nano, mem => some ⟨nano.map Cpus.mk, mem⟩

def readResources (tt : Option Fields) : Option Resources :=
  let res := asObj (get tt "Resources")
  match resourcesOf (get res "Limits"), resourcesOf (get res "Reservations") with
  | none, none => none
  | limits, reservations => some ⟨limits, reservations⟩

/-- The commands of a health check; none also when there is no health check. -/
def readTest (cs : Option Fields) : List String :=
  strings (asArr (get (asObj (get cs "Healthcheck")) "Test"))

def readChecked (cs : Option Fields) : Option Healthcheck :=
  let hc := asObj (get cs "Healthcheck")
  (nonempty (readTest cs)).map fun test => .test test (asNum (get hc "Interval"))
    (asNum (get hc "Timeout")) (asNum (get hc "StartPeriod")) (asNum (get hc "Retries"))

/-! ## The secret-env shim -/

def SECRET_ENV_VAR : String := "SWARMY_SECRET_ENV"

def SECRET_ENV_SHIM_PATH : String := "/run/swarmy/secret-env.sh"

def SECRET_ENV_SHIM_CONFIG : String := "swarmy_secret-env-shim_v1"

def SECRET_ENV_ARGV_LABEL : String := "swarmy.secretenv.argv"

def SECRET_ENV_FILE_LABEL : String := "swarmy.secretenv.file"

def SECRETS_DIR : String := "/run/secrets"

/-- `s.split(',')`. -/
def split (s : String) : List String := (s.toList.splitOn ',').map String.ofList

def isEnvName (name : String) : Bool :=
  match name.toList with
  | [] => false
  | c :: cs => (c.isAlpha || c == '_') && cs.all fun c => c.isAlphanum || c == '_'

def secretEnvFileNames (labels : Option Record) : List String :=
  (split (((labels.getD []).lookup SECRET_ENV_FILE_LABEL).getD "")).filter isEnvName

def unwrapSecretEnvFileFallback (spec : ServiceSpec) : ServiceSpec :=
  let names := secretEnvFileNames spec.labels
  if names = [] then spec
  else
    let env := names.foldl (fun env n =>
      if env.lookup (n ++ "_FILE") = some (SECRETS_DIR ++ "/" ++ n) then env.delete (n ++ "_FILE")
      else env) (spec.env.getD [])
    { spec with
      labels := some ((spec.labels.getD []).delete SECRET_ENV_FILE_LABEL)
      env := nonempty env
      secretEnv := some (unique (spec.secretEnv.getD [] ++ names))
      secretEnvFileFallback := some (unique (spec.secretEnvFileFallback.getD [] ++ names)) }

def isSecretEnvWrapped (spec : ServiceSpec) : Bool :=
  ((spec.labels.getD []).lookup SECRET_ENV_ARGV_LABEL).isSome ||
    match spec.command with
    | some [_, path] => path == SECRET_ENV_SHIM_PATH
    | _ => false

def strArr : Option Value → Option (List String)
  | some (.arr elems) => elems.mapM fun
      | .str s => some s
      | _ => none
  | _ => none

section

-- `JSON.parse`, `none` where it throws.
variable (parse : String → Option Value)

/-- The `command` and `args` that the label keeps; `none` for a label that is missing or corrupt.
Reading a property of `null` throws too. -/
def bakedArgv (raw : Option String) : Option (Option (List String) × Option (List String)) := do
  let raw ← raw
  if raw = "" then none
  else match ← parse raw with
    | .null => none
    | parsed => some (strArr (parsed.field "command") >>= nonempty,
      strArr (parsed.field "args") >>= nonempty)

def unwrapSecretEnv (input : ServiceSpec) : ServiceSpec :=
  let spec := unwrapSecretEnvFileFallback input
  if !isSecretEnvWrapped spec then spec
  else
    let labels := spec.labels.getD []
    let argv := match bakedArgv parse (labels.lookup SECRET_ENV_ARGV_LABEL) with
      | some argv => argv
      | none => (nonempty (spec.args.getD []), none)
    let env := spec.env.getD []
    let names := (split ((env.lookup SECRET_ENV_VAR).getD "")).filter (· ≠ "")
    { spec with
      labels := some (labels.delete SECRET_ENV_ARGV_LABEL)
      command := argv.1
      args := argv.2
      env := nonempty (env.delete SECRET_ENV_VAR)
      configs := nonempty ((spec.configs.getD []).filter fun c => c.source ≠ SECRET_ENV_SHIM_CONFIG)
      secretEnv := if names = [] then spec.secretEnv
        else some (unique (spec.secretEnv.getD [] ++ names)) }

/-! ## The router's rebuild -/

def readRestartPolicy (tt : Option Fields) : Option RestartPolicy :=
  let restart := asObj (get tt "RestartPolicy")
  (readCondition restart).map fun condition =>
    ⟨condition, asNum (get restart "MaxAttempts"), asNum (get restart "Delay")⟩

def readOrder : Option String → Option UpdateOrder
  | some "start-first" => some .startFirst
  | some "stop-first" => some .stopFirst
  | _ => none

def readFailureAction : Option String → Option FailureAction
  | some "pause" => some .pause
  | some "continue" => some .continue
  | some "rollback" => some .rollback
  | _ => none

def readUpdateConfig (spec : Option Fields) : Option UpdateConfig :=
  let upd := asObj (get spec "UpdateConfig")
  let updateConfig : UpdateConfig :=
    ⟨asNum (get upd "Parallelism"), readOrder (asStr (get upd "Order")),
    readFailureAction (asStr (get upd "FailureAction")), asNum (get upd "Monitor"),
      asNum (get upd "Delay")⟩
  if updateConfig = ⟨none, none, none, none, none⟩ then none else some updateConfig

def readPreferences (tt : Option Fields) : List String :=
  ((asArr (get (asObj (get tt "Placement")) "Preferences")).filterMap fun p =>
    asStr (get (asObj (get (asObj (some p)) "Spread")) "SpreadDescriptor")).map fun d =>
      "spread=" ++ d

def readMaxReplicas (tt : Option Fields) : Option Js.Num :=
  (asNum (get (asObj (get tt "Placement")) "MaxReplicas")).filter isPositive

def readPlacement (tt : Option Fields) : Option Placement :=
  match nonempty (readConstraints tt), nonempty (readPreferences tt), readMaxReplicas tt with
  | none, none, none => none
  | constraints, preferences, maxReplicasPerNode =>
    some ⟨constraints, preferences, maxReplicasPerNode⟩

def readHealthcheck (cs : Option Fields) : Option Healthcheck :=
  if readTest cs = ["NONE"] then some .disable else readChecked cs

def specFromInspect (inspect : Option Value) (networks : List String) : Option ServiceSpec :=
  let spec := asObj (get (asObj inspect) "Spec")
  (asStr (get spec "Name")).map fun name =>
    let tt := asObj (get spec "TaskTemplate")
    let cs := asObj (get tt "ContainerSpec")
    unwrapSecretEnv parse
      { name
        image := (asStr (get cs "Image")).getD ""
        mode := readMode spec
        env := readEnv cs
        command := readStrings cs "Command"
        args := readStrings cs "Args"
        labels := readLabels spec
        mounts := readMounts cs
        secrets := readRefs cs "Secrets" "SecretName"
        configs := readRefs cs "Configs" "ConfigName"
        ports := readPorts spec
        restartPolicy := readRestartPolicy tt
        updateConfig := readUpdateConfig spec
        placement := readPlacement tt
        resources := readResources tt
        healthcheck := readHealthcheck cs
        stopGracePeriodNs := asNum (get cs "StopGracePeriod")
        networks := nonempty networks
        secretEnv := none
        secretEnvFileFallback := none }

/-- What `promoteCanary` deploys. -/
def promoteSpecFrom (inspect : Option Value) (image : String) (networks : List String) :
    Option ServiceSpec :=
  (specFromInspect parse inspect networks).map fun spec => { spec with image }

end

/-! ## The worker's rebuild -/

namespace Worker

def readRestartPolicy (tt : Option Fields) : Option RestartPolicy :=
  let restart := asObj (get tt "RestartPolicy")
  (readCondition restart).map fun condition => ⟨condition, asNum (get restart "MaxAttempts"), none⟩

def promoteSpecFrom (inspect : Option Value) (image : String) (networks : List String) :
    Option ServiceSpec :=
  let spec := asObj (get (asObj inspect) "Spec")
  (asStr (get spec "Name")).map fun name =>
    let tt := asObj (get spec "TaskTemplate")
    let cs := asObj (get tt "ContainerSpec")
    { name
      image
      mode := readMode spec
      env := readEnv cs
      command := readStrings cs "Command"
      args := readStrings cs "Args"
      labels := readLabels spec
      mounts := readMounts cs
      secrets := readRefs cs "Secrets" "SecretName"
      configs := readRefs cs "Configs" "ConfigName"
      ports := readPorts spec
      restartPolicy := readRestartPolicy tt
      updateConfig := none
      placement := (nonempty (readConstraints tt)).map fun constraints =>
        ⟨some constraints, none, none⟩
      resources := readResources tt
      healthcheck := readChecked cs
      stopGracePeriodNs := asNum (get cs "StopGracePeriod")
      networks := nonempty networks
      secretEnv := none
      secretEnvFileFallback := none }

end Worker

/-! ## Where they agree -/

section

variable (parse : String → Option Value)

/-- The live service runs through the secret-env shim, or has variables that fell back to files. -/
def Shimmed (spec cs : Option Fields) : Prop :=
  ((readLabels spec).getD []).lookup SECRET_ENV_ARGV_LABEL ≠ none ∨
    secretEnvFileNames (readLabels spec) ≠ [] ∨
      ∃ shell, readStrings cs "Command" = some [shell, SECRET_ENV_SHIM_PATH]

/-- The service has nothing that the worker does not copy: no delay between restarts, no update
policy, no spread preferences, no limit per node, no disabled health check and no secret-env
shim. -/
structure Copied (inspect : Option Value) : Prop where
  delay :
    readCondition (asObj (get (asObj (get (asObj (get (asObj inspect) "Spec"))
      "TaskTemplate")) "RestartPolicy")) = none ∨
    asNum (get (asObj (get (asObj (get (asObj (get (asObj inspect) "Spec"))
      "TaskTemplate")) "RestartPolicy")) "Delay") = none
  updateConfig : readUpdateConfig (asObj (get (asObj inspect) "Spec")) = none
  preferences : readPreferences (asObj (get (asObj (get (asObj inspect) "Spec")) "TaskTemplate")) =
    []
  maxReplicas : readMaxReplicas (asObj (get (asObj (get (asObj inspect) "Spec")) "TaskTemplate")) =
    none
  healthcheck : readTest
    (asObj (get (asObj (get (asObj (get (asObj inspect) "Spec")) "TaskTemplate"))
    "ContainerSpec")) ≠ ["NONE"]
  shim : ¬ Shimmed (asObj (get (asObj inspect) "Spec"))
    (asObj (get (asObj (get (asObj (get (asObj inspect) "Spec")) "TaskTemplate")) "ContainerSpec"))

variable {spec : ServiceSpec}

theorem readRestartPolicy_eq_iff {tt : Option Fields} :
    Worker.readRestartPolicy tt = readRestartPolicy tt ↔
      readCondition (asObj (get tt "RestartPolicy")) = none ∨
        asNum (get (asObj (get tt "RestartPolicy")) "Delay") = none := by
  cases hcondition : readCondition (asObj (get tt "RestartPolicy")) with
  | none => simp [Worker.readRestartPolicy, readRestartPolicy, hcondition]
  | some condition => simp [Worker.readRestartPolicy, readRestartPolicy, hcondition, eq_comm]

theorem readPlacement_eq_iff {tt : Option Fields} :
    (nonempty (readConstraints tt)).map
    (fun constraints => (⟨some constraints, none, none⟩ : Placement)) =
      readPlacement tt ↔ readPreferences tt = [] ∧ readMaxReplicas tt = none := by
  unfold readPlacement
  cases hpreferences : readPreferences tt <;> cases hmax : readMaxReplicas tt <;>
    cases hconstraints : readConstraints tt <;> simp [nonempty]

theorem readHealthcheck_eq_iff {cs : Option Fields} :
    readChecked cs = readHealthcheck cs ↔ readTest cs ≠ ["NONE"] := by
  unfold readHealthcheck
  by_cases htest : readTest cs = ["NONE"]
  · simp [htest, readChecked, nonempty]
  · simp [htest]

/-- A spec that is read without the shim is left as it is. -/
theorem unwrapSecretEnv_of_plain (hfile : secretEnvFileNames spec.labels = [])
    (hwrapped : isSecretEnvWrapped spec = false) : unwrapSecretEnv parse spec = spec := by
  have hfallback : unwrapSecretEnvFileFallback spec = spec := if_pos hfile
  simp [unwrapSecretEnv, hfallback, hwrapped]

theorem lookup_file_of_names (h : secretEnvFileNames spec.labels ≠ []) :
    (spec.labels.getD []).lookup SECRET_ENV_FILE_LABEL ≠ none := by
  intro hnone
  refine h ?_
  rw [secretEnvFileNames, hnone]
  rfl

theorem lookup_file_fallback (h : secretEnvFileNames spec.labels ≠ []) :
    ((unwrapSecretEnvFileFallback spec).labels.getD []).lookup SECRET_ENV_FILE_LABEL = none := by
  rw [unwrapSecretEnvFileFallback]
  simp [h]

/-- Unwrapping keeps the labels, the command and the arguments of a spec that has neither the shim
nor names of files, and of no other. -/
theorem unwrapSecretEnv_keeps (hlabels : (unwrapSecretEnv parse spec).labels = spec.labels)
    (hcommand : (unwrapSecretEnv parse spec).command = spec.command)
    (hargs : (unwrapSecretEnv parse spec).args = spec.args) :
    secretEnvFileNames spec.labels = [] ∧ isSecretEnvWrapped spec = false := by
  have hfile : secretEnvFileNames spec.labels = [] := by
    by_contra hne
    refine lookup_file_of_names hne ?_
    rw [← hlabels]
    unfold unwrapSecretEnv
    dsimp only
    split
    · exact lookup_file_fallback hne
    · exact Record.lookup_delete_eq_none _ (lookup_file_fallback hne)
  refine ⟨hfile, ?_⟩
  have hfallback : unwrapSecretEnvFileFallback spec = spec := if_pos hfile
  by_contra hwrapped
  rw [Bool.not_eq_false] at hwrapped
  unfold unwrapSecretEnv at hlabels hcommand hargs
  simp only [hfallback, hwrapped, Bool.not_true, Bool.false_eq_true,
    if_false] at hlabels hcommand hargs
  have hlookup : (spec.labels.getD []).lookup SECRET_ENV_ARGV_LABEL = none := by
    rw [← hlabels]
    exact Record.lookup_delete _ _
  -- There is no label, so the arguments have become the command.
  rw [hlookup] at hcommand hargs
  simp only [bakedArgv, bind_eq_bind, bind_none] at hcommand hargs
  rw [← hargs] at hcommand
  rw [isSecretEnvWrapped, hlookup, ← hcommand] at hwrapped
  simp [nonempty] at hwrapped

theorem unwrapSecretEnv_frame : (unwrapSecretEnv parse spec).restartPolicy = spec.restartPolicy ∧
      (unwrapSecretEnv parse spec).updateConfig = spec.updateConfig ∧
      (unwrapSecretEnv parse spec).placement = spec.placement ∧
      (unwrapSecretEnv parse spec).healthcheck = spec.healthcheck := by
  unfold unwrapSecretEnv unwrapSecretEnvFileFallback
  dsimp only
  split_ifs <;> exact ⟨rfl, rfl, rfl, rfl⟩

theorem isSecretEnvWrapped_eq_false : isSecretEnvWrapped spec = false ↔
    (spec.labels.getD []).lookup SECRET_ENV_ARGV_LABEL = none ∧
      ¬ ∃ shell, spec.command = some [shell, SECRET_ENV_SHIM_PATH] := by
  unfold isSecretEnvWrapped
  rw [Bool.or_eq_false_iff]
  refine and_congr (isSome_eq_false_iff.trans isNone_iff_eq_none) ?_
  split
  · rename_i shell path hcommand
    rw [hcommand, beq_eq_false_iff_ne]
    refine not_congr ⟨fun hpath => ⟨shell, by rw [hpath]⟩, fun ⟨shell', h⟩ => ?_⟩
    injection h with h
    injection h with _ h
    injection h
  · rename_i hcommand
    exact iff_of_true rfl fun ⟨shell, h⟩ => hcommand shell _ h

/-- The worker deploys what the router would, exactly for the services with nothing it does not
copy; a payload without a name is deployed by neither. -/
theorem promoteSpecFrom_eq_iff (inspect : Option Value) (image : String) (networks : List String) :
    Worker.promoteSpecFrom inspect image networks = promoteSpecFrom parse inspect image networks ↔
      asStr (get (asObj (get (asObj inspect) "Spec")) "Name") = none ∨ Copied inspect := by
  cases hname : asStr (get (asObj (get (asObj inspect) "Spec")) "Name") with
  | none => simp [Worker.promoteSpecFrom, promoteSpecFrom, specFromInspect, hname]
  | some name =>
    simp only [Worker.promoteSpecFrom, promoteSpecFrom, specFromInspect, hname, map_some,
      Option.some.injEq, reduceCtorEq, false_or]
    generalize hspec : asObj (get (asObj inspect) "Spec") = spec
    generalize htt : asObj (get spec "TaskTemplate") = tt
    generalize hcs : asObj (get tt "ContainerSpec") = cs
    generalize hbase : ServiceSpec.mk name
      ((asStr (get cs "Image")).getD "") _ _ _ _ _ _ _ _ _ _ _ _ _ _ _ _
      _ _ = base
    have hlabels : base.labels = readLabels spec := by rw [← hbase]
    have hcommand : base.command = readStrings cs "Command" := by rw [← hbase]
    have hplain : (secretEnvFileNames base.labels = [] ∧ isSecretEnvWrapped base = false) ↔
        ¬ Shimmed spec cs := by
      rw [isSecretEnvWrapped_eq_false, hlabels, hcommand, Shimmed]
      tauto
    obtain ⟨hrestart, hupdate, hplacement, hhealth⟩ := @unwrapSecretEnv_frame parse base
    constructor
    · intro h
      have hkept := @unwrapSecretEnv_keeps parse base
        ((congrArg ServiceSpec.labels h).symm.trans hlabels.symm)
        ((congrArg ServiceSpec.command h).symm.trans hcommand.symm)
        ((congrArg ServiceSpec.args h).symm.trans (by rw [← hbase]))
      have hplace := readPlacement_eq_iff.1
        ((congrArg ServiceSpec.placement h).trans (hplacement.trans (by rw [← hbase])))
      exact
        { delay := by
            simp only [hspec, htt]
            exact readRestartPolicy_eq_iff.1
              ((congrArg ServiceSpec.restartPolicy h).trans (hrestart.trans (by rw [← hbase])))
          updateConfig := by
            rw [hspec]
            exact (((congrArg ServiceSpec.updateConfig h).trans hupdate).trans
              (by rw [← hbase])).symm
          preferences := by simpa only [hspec, htt] using hplace.1
          maxReplicas := by simpa only [hspec, htt] using hplace.2
          healthcheck := by
            simp only [hspec, htt, hcs]
            exact readHealthcheck_eq_iff.1
              ((congrArg ServiceSpec.healthcheck h).trans (hhealth.trans (by rw [← hbase])))
          shim := by simpa only [hspec, htt, hcs] using hplain.1 hkept }
    · intro h
      have hcopied := hplain.2 (by simpa only [hspec, htt, hcs] using h.shim)
      rw [unwrapSecretEnv_of_plain parse hcopied.1 hcopied.2, ← hbase,
        readRestartPolicy_eq_iff.2 (by simpa only [hspec, htt] using h.delay),
        readPlacement_eq_iff.2 ⟨by simpa only [hspec,
          htt] using h.preferences, by simpa only [hspec, htt] using h.maxReplicas⟩,
        readHealthcheck_eq_iff.2 (by simpa only [hspec, htt, hcs] using h.healthcheck),
        show readUpdateConfig spec = none by simpa only [hspec] using h.updateConfig]

end

end Canary
