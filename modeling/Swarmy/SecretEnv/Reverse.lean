import Swarmy.SecretEnv.Wrap

/-!
# Unwrapping what was wrapped

The spec that is read back from a wrapped one is the spec that was wrapped, but for what wrapping
leaves out: `normalise` says what.  A live spec that looks wrapped again when it has been unwrapped
is never the shim's own, and the results here keep it apart.
-/

namespace Js

open List Option

theorem unique_of_nodup {β : Type} [DecidableEq β] {xs : List β} (h : xs.Nodup) :
    unique xs = xs := by
  unfold unique
  induction xs with
  | nil => rfl
  | cons x xs ih =>
    rw [nodup_cons] at h
    have hfilter : xs.filter (fun y => !y == x) = xs := filter_eq_self.mpr fun y hy => by
      rw [Bool.not_eq_true', beq_eq_false_iff_ne]
      rintro rfl
      exact h.1 hy
    rw [eraseDups_cons, hfilter, ih h.2]

end Js

namespace Swarmy.SecretEnv

open Canary Js

variable {number : List Char → Js.Num} {spec u w : ServiceSpec} {image : Option ImageArgv}

/-! ## Names -/

/-- A name is no empty text and has no comma. -/
theorem isEnvName_ne_empty {n : String} (h : isEnvName n = true) : n ≠ "" := by
  rintro rfl
  exact absurd h (by decide)

theorem comma_not_mem {n : String} (h : isEnvName n = true) : ',' ∉ n.toList := by
  intro hmem
  rw [isEnvName] at h
  split at h
  · contradiction
  · rename_i c cs heq
    rw [heq, List.mem_cons] at hmem
    rw [Bool.and_eq_true, List.all_eq_true] at h
    obtain rfl | hmem := hmem
    · exact absurd h.1 (by decide)
    · exact absurd (h.2 _ hmem) (by decide)

theorem toList_intercalate (sep : String) (ss : List String) :
    (sep.intercalate ss).toList = sep.toList.intercalate (ss.map String.toList) := by
  simp

theorem split_intercalate {ns : List String} (h : ∀ n ∈ ns, isEnvName n = true) (hns : ns ≠ []) :
    (Canary.split (",".intercalate ns)).filter (· ≠ "") = ns := by
  have hsplit : Canary.split (",".intercalate ns) = ns := by
    rw [Canary.split, toList_intercalate]
    rw [show ",".toList = [','] from rfl, List.splitOn_intercalate]
    · rw [List.map_map]
      exact (List.map_congr_left fun n _ => String.ofList_toList).trans (List.map_id _)
    · simpa using fun n hn => comma_not_mem (h n hn)
    · simpa using hns
  rw [hsplit]
  exact List.filter_eq_self.mpr fun n hn => decide_eq_true (isEnvName_ne_empty (h n hn))

/-! ## What unwrapping leaves -/

theorem fileNames_of_lookup {labels : Option Record}
    (h : (labels.getD []).lookup SECRET_ENV_FILE_LABEL = none) :
    secretEnvFileNames labels = [] := by
  rw [secretEnvFileNames, h]
  rfl

theorem fileNames_congr {labels labels' : Option Record}
    (h : (labels.getD []).lookup SECRET_ENV_FILE_LABEL =
      (labels'.getD []).lookup SECRET_ENV_FILE_LABEL) :
    secretEnvFileNames labels = secretEnvFileNames labels' := by
  rw [secretEnvFileNames, h, secretEnvFileNames]

theorem fileNames_fallback (spec : ServiceSpec) :
    secretEnvFileNames (unwrapSecretEnvFileFallback spec).labels = [] := by
  by_cases h : secretEnvFileNames spec.labels = []
  · rw [unwrapSecretEnvFileFallback, if_pos h]
    exact h
  · exact fileNames_of_lookup (lookup_file_fallback h)

/-- What unwrapping makes of a spec with no names of files that the shim has marked. -/
def unmarked (number : List Char → Js.Num) (spec : ServiceSpec) : ServiceSpec :=
  let labels := spec.labels.getD []
  let argv := match bakedArgv (Json.parse number) (labels.lookup SECRET_ENV_ARGV_LABEL) with
    | some argv => argv
    | none => (nonempty (spec.args.getD []), none)
  let env := spec.env.getD []
  let names := (Canary.split ((env.lookup SECRET_ENV_VAR).getD "")).filter (· ≠ "")
  { spec with
    labels := some (labels.delete SECRET_ENV_ARGV_LABEL)
    command := argv.1
    args := argv.2
    env := nonempty (env.delete SECRET_ENV_VAR)
    configs := nonempty (ownConfigs spec)
    secretEnv := if names = [] then spec.secretEnv
      else some (unique (spec.secretEnv.getD [] ++ names)) }

theorem unwrap_eq (spec : ServiceSpec) : unwrap number spec =
    if isSecretEnvWrapped (unwrapSecretEnvFileFallback spec) then
      unmarked number (unwrapSecretEnvFileFallback spec)
    else unwrapSecretEnvFileFallback spec := by
  rw [unwrap, unwrapSecretEnv]
  cases isSecretEnvWrapped (unwrapSecretEnvFileFallback spec) with
  | false => rfl
  | true => rfl

theorem unwrap_of_fileNames (h : secretEnvFileNames spec.labels = []) :
    unwrap number spec = if isSecretEnvWrapped spec then unmarked number spec else spec := by
  rw [unwrap_eq, unwrapSecretEnvFileFallback, if_pos h]

theorem lookup_argv_unmarked (spec : ServiceSpec) :
    ((unmarked number spec).labels.getD []).lookup SECRET_ENV_ARGV_LABEL = none :=
  Record.lookup_delete _ _

theorem lookup_argv_unwrap (spec : ServiceSpec) :
    ((unwrap number spec).labels.getD []).lookup SECRET_ENV_ARGV_LABEL = none := by
  rw [unwrap_eq]
  split
  · exact lookup_argv_unmarked _
  · rename_i h
    exact (isSecretEnvWrapped_eq_false.mp (eq_false_of_ne_true h)).1

theorem fileNames_unmarked (spec : ServiceSpec) :
    secretEnvFileNames (unmarked number spec).labels = secretEnvFileNames spec.labels :=
  fileNames_congr (Record.lookup_delete_of_ne _ (by decide))

theorem fileNames_unwrap (spec : ServiceSpec) :
    secretEnvFileNames (unwrap number spec).labels = [] := by
  rw [unwrap_eq]
  split
  · rw [fileNames_unmarked, fileNames_fallback]
  · exact fileNames_fallback spec

/-! ## Wrapping -/

theorem forM_eq_ok {f : String → Except String Unit} {ns : List String} :
    ns.forM f = .ok () ↔ ∀ n ∈ ns, f n = .ok () := by
  induction ns with
  | nil => exact iff_of_true rfl nofun
  | cons n ns ih =>
    rw [List.forall_mem_cons, ← ih]
    change (f n >>= fun _ => ns.forM f) = _ ↔ _
    cases f n with
    | error e => exact iff_of_false nofun fun h => nomatch h.1
    | ok => exact (and_iff_right rfl).symm

theorem checkName_eq_ok {n : String} : checkName spec n = .ok () ↔
    isEnvName n = true ∧ n ∈ (spec.secrets.getD []).map targetOf := by
  unfold checkName
  split_ifs with hname hmem
  · exact iff_of_false (fun h => by cases h) fun h => by
      rw [h.1] at hname; exact Bool.false_ne_true hname
  · exact iff_of_true rfl ⟨by simpa using hname, hmem⟩
  · exact iff_of_false (fun h => by cases h) fun h => hmem h.2

/-- What can be wrapped, and what it is wrapped as. -/
theorem wrapUnwrapped_eq_ok (h : secretNames u ≠ []) : wrapUnwrapped u image = .ok w ↔
    (∀ n ∈ secretNames u, isEnvName n = true ∧ n ∈ (u.secrets.getD []).map targetOf) ∧
      ∃ argv, originalArgv u image = .ok argv ∧ argv ≠ [] ∧ w = shimmed u argv := by
  rw [wrapUnwrapped, if_neg h]
  have hnames : (∀ n ∈ secretNames u, isEnvName n = true ∧ n ∈ (u.secrets.getD []).map targetOf) ↔
      (secretNames u).forM (checkName u) = .ok () := by
    rw [forM_eq_ok]
    exact forall₂_congr fun n _ => checkName_eq_ok.symm
  rw [hnames]
  cases (secretNames u).forM (checkName u) with
  | error e => exact iff_of_false nofun fun h => nomatch h.1
  | ok =>
    cases originalArgv u image with
    | error e => exact iff_of_false nofun fun ⟨_, _, h, _⟩ => nomatch h
    | ok argv =>
      refine Iff.trans ?_ (and_iff_right rfl).symm
      by_cases hargv : argv = []
      · refine iff_of_false ?_ fun ⟨_, h, hne, _⟩ => hne ((Except.ok.inj h).symm.trans hargv)
        simp [bind, Except.bind, hargv]
      · simp only [bind, Except.bind, if_neg hargv, Except.ok.injEq]
        exact ⟨fun h => ⟨argv, rfl, hargv, h.symm⟩, fun ⟨_, h, _, hw⟩ => by rw [hw, h]⟩

/-! ## The label -/

theorem plain_stringsOrNull (ss : Option (List String)) : Json.plain (stringsOrNull ss) = true := by
  cases ss with
  | none => rfl
  | some ss =>
    rw [stringsOrNull, Json.plain]
    induction ss with
    | nil => rfl
    | cons s ss ih =>
      rw [List.map_cons, Json.plainElems, ih]
      rfl

theorem plain_argv (spec : ServiceSpec) : Json.plain (.obj [("command", stringsOrNull spec.command),
    ("args", stringsOrNull spec.args)]) = true := by
  simp [Json.plain, Json.plainFields, plain_stringsOrNull]

theorem strArr_stringsOrNull (ss : Option (List String)) :
    strArr (some (stringsOrNull ss)) = ss := by
  cases ss with
  | none => rfl
  | some ss =>
    rw [stringsOrNull, strArr]
    induction ss with
    | nil => rfl
    | cons s ss ih =>
      rw [List.map_cons, List.mapM_cons, ih]
      rfl

/-- The label keeps the command and the arguments, but for empty ones. -/
theorem bakedArgv_argvLabel (spec : ServiceSpec) :
    bakedArgv (Json.parse number) (some (argvLabel spec)) =
      some (spec.command >>= nonempty, spec.args >>= nonempty) := by
  have hsound : Json.Sound number _ := Json.sound_of_plain (plain_argv spec)
  rw [bakedArgv, argvLabel, Option.bind_eq_bind, Option.bind_some,
    if_neg (Json.stringify_ne_empty hsound), Json.parse_stringify hsound]
  have hcommand : Value.field (.obj [("command", stringsOrNull spec.command),
      ("args", stringsOrNull spec.args)]) "command" = some (stringsOrNull spec.command) := rfl
  have hargs : Value.field (.obj [("command", stringsOrNull spec.command),
      ("args", stringsOrNull spec.args)]) "args" = some (stringsOrNull spec.args) := rfl
  simp only [Option.bind_eq_bind, Option.bind_some, hcommand, hargs, strArr_stringsOrNull]

/-- Two specs with one label have the same command and arguments. -/
theorem argvLabel_inj {spec spec' : ServiceSpec} (h : argvLabel spec = argvLabel spec') :
    spec.command = spec'.command ∧ spec.args = spec'.args := by
  have hparse := congrArg (Json.parse fun _ => .int 0) h
  rw [argvLabel, argvLabel, Json.parse_stringify (Json.sound_of_plain (plain_argv spec)),
    Json.parse_stringify (Json.sound_of_plain (plain_argv spec'))] at hparse
  have hfields := Value.obj.inj (Option.some.inj hparse)
  have hcommand := (Prod.mk.inj (List.cons.inj hfields).1).2
  have hargs := (Prod.mk.inj (List.cons.inj (List.cons.inj hfields).2).1).2
  rw [← strArr_stringsOrNull spec.command, ← strArr_stringsOrNull spec.args, hcommand, hargs,
    strArr_stringsOrNull, strArr_stringsOrNull]
  exact ⟨rfl, rfl⟩

/-! ## There and back -/

/-- A spec as it comes back: without plain values of its secret names and without the list of them,
each name once, no field there that is empty, labels, and no allowance to fall back. -/
def normalise (spec : ServiceSpec) : ServiceSpec :=
  { spec with
    command := spec.command >>= nonempty
    args := spec.args >>= nonempty
    env := nonempty (((secretNames spec).foldl Record.delete
      (spec.env.getD [])).delete SECRET_ENV_VAR)
    labels := some (spec.labels.getD [])
    configs := nonempty (ownConfigs spec)
    secretEnv := some (secretNames spec)
    secretEnvFileFallback := none }

/-- The spec has none of the marks that unwrapping takes away. -/
structure Unmarked (spec : ServiceSpec) : Prop where
  argv : (spec.labels.getD []).lookup SECRET_ENV_ARGV_LABEL = none
  file : secretEnvFileNames spec.labels = []

theorem unmarked_unwrap (spec : ServiceSpec) : Unmarked (unwrap number spec) :=
  ⟨lookup_argv_unwrap spec, fileNames_unwrap spec⟩

theorem isSecretEnvWrapped_shimmed (spec : ServiceSpec) (argv : List String) :
    isSecretEnvWrapped (shimmed spec argv) = true := by
  rw [isSecretEnvWrapped, shimmed]
  simp only [beq_self_eq_true, Bool.or_true]

theorem nodup_secretNames (spec : ServiceSpec) : (secretNames spec).Nodup := nodup_unique _

theorem ownConfigs_shimmed (spec : ServiceSpec) (argv : List String) :
    ownConfigs (shimmed spec argv) = ownConfigs spec := by
  simp [ownConfigs, shimmed, shimConfig]

theorem unwrap_shimmed (hu : Unmarked u) (hne : secretNames u ≠ [])
    (hnames : ∀ n ∈ secretNames u, isEnvName n = true) (argv : List String) :
    unwrap number (shimmed u argv) = normalise u := by
  have hfile : secretEnvFileNames (shimmed u argv).labels = [] := by
    rw [← hu.file]
    exact fileNames_congr (Record.lookup_set_of_ne _ (by decide) _)
  have hlabels : ((u.labels.getD []).set SECRET_ENV_ARGV_LABEL
      (argvLabel u)).delete SECRET_ENV_ARGV_LABEL =
      u.labels.getD [] := by
    rw [Record.delete_set, Record.delete_of_lookup hu.argv]
  have hsplit : (Canary.split
      (((wrapEnv (u.env.getD []) (secretNames u)).lookup SECRET_ENV_VAR).getD "")).filter
      (· ≠ "") = secretNames u := by
    rw [wrapEnv, Record.lookup_set_self]
    exact split_intercalate hnames hne
  rw [unwrap_of_fileNames hfile, if_pos (isSecretEnvWrapped_shimmed u argv), unmarked,
    ownConfigs_shimmed]
  simp only [shimmed, Option.getD_some, hsplit, if_neg hne, Record.lookup_set_self,
    bakedArgv_argvLabel, hlabels, Option.getD_none, List.nil_append,
    unique_of_nodup (nodup_secretNames u)]
  rw [normalise, wrapEnv, Record.delete_set]

/-! ## Wrapping again -/

theorem getD_nonempty {α : Type} (xs : List α) : (nonempty xs).getD [] = xs := by
  cases xs <;> rfl

theorem nonempty_getD {α : Type} (xs : Option (List α)) :
    nonempty (xs.getD []) = xs >>= nonempty := by
  cases xs <;> rfl

theorem bind_nonempty_eq_self {α : Type} {xs : Option (List α)} :
    xs >>= nonempty = xs ↔ xs ≠ some [] := by
  obtain _ | _ | ⟨x, xs⟩ := xs
  · exact iff_of_true rfl nofun
  · exact iff_of_false nofun fun h => h rfl
  · exact iff_of_true rfl nofun

theorem secretNames_normalise (u : ServiceSpec) : secretNames (normalise u) = secretNames u :=
  unique_of_nodup (nodup_secretNames u)

theorem originalArgv_normalise (u : ServiceSpec) (image : Option ImageArgv) :
    originalArgv (normalise u) image = originalArgv u image := by
  unfold originalArgv normalise
  rcases u.command with _ | _ | ⟨c, cs⟩ <;> rcases image with _ | image <;>
    rcases u.args with _ | _ | ⟨a, as⟩ <;> rfl

theorem ownConfigs_normalise (u : ServiceSpec) : ownConfigs (normalise u) = ownConfigs u := by
  simp [ownConfigs, normalise, getD_nonempty]

/-- What the environment of a wrapped spec has under a key. -/
theorem lookup_wrapEnv (env : Record) (ns : List String) (k : String) : (wrapEnv env ns).lookup k =
      if k = SECRET_ENV_VAR then some (",".intercalate ns) else if k ∈ ns then none
      else env.lookup k := by
  rw [wrapEnv, Record.lookup_set_eq, Record.lookup_foldl_delete]

theorem lookup_env_normalise (u : ServiceSpec) (k : String) : ((normalise u).env.getD []).lookup k =
    if k = SECRET_ENV_VAR then none else if k ∈ secretNames u then none else
      (u.env.getD []).lookup k := by
  rw [normalise]
  simp only [getD_nonempty, Record.lookup_delete_eq, Record.lookup_foldl_delete]

/-- The same spec, up to the order in the environment. -/
structure Same (spec spec' : ServiceSpec) : Prop where
  env : ∀ k, (spec.env.getD []).lookup k = (spec'.env.getD []).lookup k
  isSome : spec.env.isSome = spec'.env.isSome
  rest : { spec with env := none } = { spec' with env := none }

/-- Wrapping what has come back gives the same spec unless the command or the arguments were empty
lists: the label says so the first time only. -/
theorem again_iff (hne : secretNames u ≠ []) (hw : wrapUnwrapped u image = .ok w) :
    (∃ w', wrapUnwrapped (normalise u) image = .ok w' ∧ Same w' w) ↔
      u.command ≠ some [] ∧ u.args ≠ some [] := by
  obtain ⟨hnames, argv, hargv, hargvne, rfl⟩ := (wrapUnwrapped_eq_ok hne).mp hw
  have hagain : ∀ w', wrapUnwrapped (normalise u) image = .ok w' ↔
      w' = shimmed (normalise u) argv := by
    intro w'
    rw [wrapUnwrapped_eq_ok (by rw [secretNames_normalise]; exact hne), originalArgv_normalise,
      secretNames_normalise]
    refine ⟨fun ⟨_, argv', h, _, hw'⟩ => ?_, fun h => ⟨hnames, argv, hargv, hargvne, h⟩⟩
    rw [hw', Except.ok.inj (h.symm.trans hargv)]
  constructor
  · rintro ⟨w', hw', hsame⟩
    obtain rfl := (hagain w').mp hw'
    have hlabel := congrArg (fun spec =>
      (spec.labels.getD []).lookup SECRET_ENV_ARGV_LABEL) hsame.rest
    simp only [shimmed, Option.getD_some, Record.lookup_set_self, Option.some.injEq] at hlabel
    obtain ⟨hcommand, hargs⟩ := argvLabel_inj hlabel
    exact ⟨bind_nonempty_eq_self.mp hcommand, bind_nonempty_eq_self.mp hargs⟩
  · rintro ⟨hcommand, hargs⟩
    have hlabel : argvLabel (normalise u) = argvLabel u := by
      rw [argvLabel, argvLabel, normalise]
      simp only [bind_nonempty_eq_self.mpr hcommand, bind_nonempty_eq_self.mpr hargs]
    refine ⟨_, (hagain _).mpr rfl, fun k => ?_, rfl, ?_⟩
    · change (wrapEnv _ _).lookup k = (wrapEnv _ _).lookup k
      rw [lookup_wrapEnv, lookup_wrapEnv, secretNames_normalise, lookup_env_normalise]
      split_ifs <;> rfl
    · rw [shimmed, shimmed, hlabel, ownConfigs_normalise]
      rfl

/-! ## Changing the set -/

/-- The shim's command. -/
def LooksShimmed (command : Option (List String)) : Prop :=
  ∃ c, command = some [c, SECRET_ENV_SHIM_PATH]

/-- A spec that unwrapping leaves alone but for a command that looks like the shim's. -/
structure Settled (spec : ServiceSpec) : Prop extends Unmarked spec where
  labels : some (spec.labels.getD []) = spec.labels
  env : nonempty (spec.env.getD []) = spec.env
  list : (spec.env.getD []).lookup SECRET_ENV_VAR = none
  configs : nonempty (ownConfigs spec) = spec.configs

theorem isSecretEnvWrapped_of_unmarked (h : Unmarked spec) :
    isSecretEnvWrapped spec = true ↔ LooksShimmed spec.command := by
  rw [← not_iff_not, Bool.not_eq_true, isSecretEnvWrapped_eq_false]
  exact and_iff_right h.argv

theorem unwrap_of_not_looksShimmed (h : Unmarked spec) (hlooks : ¬ LooksShimmed spec.command) :
    unwrap number spec = spec := by
  rw [unwrap_of_fileNames h.file, if_neg fun hwrapped =>
    hlooks ((isSecretEnvWrapped_of_unmarked h).mp hwrapped)]

/-- The arguments of a spec as its command. -/
def shift (spec : ServiceSpec) : ServiceSpec :=
  { spec with command := spec.args >>= nonempty, args := none }

theorem unwrap_of_looksShimmed (h : Settled spec) (hlooks : LooksShimmed spec.command) :
    unwrap number spec = shift spec := by
  rw [unwrap_of_fileNames h.file, if_pos ((isSecretEnvWrapped_of_unmarked h.toUnmarked).mpr hlooks),
    unmarked]
  have hsplit : (Canary.split "").filter (· ≠ "") = [] := by decide
  simp only [h.argv, h.list, Option.getD_none, hsplit, if_true, Record.delete_of_lookup h.argv,
    Record.delete_of_lookup h.list, h.labels, h.env, h.configs]
  rw [shift, ← nonempty_getD]
  rfl

theorem Settled.shift (h : Settled spec) : Settled (shift spec) :=
  ⟨⟨h.argv, h.file⟩, h.labels, h.env, h.list, h.configs⟩

theorem settled_normalise (h : Unmarked u) : Settled (normalise u) where
  argv := h.argv
  file := (fileNames_congr rfl).trans h.file
  labels := rfl
  env := congrArg nonempty (getD_nonempty _)
  list := by rw [lookup_env_normalise, if_pos rfl]
  configs := by rw [ownConfigs_normalise]; rfl

theorem ends_with (a b : String) :
    (a ++ b).toList.getLast? = (b.toList.getLast?).or a.toList.getLast? := by
  rw [String.toList_append, List.getLast?_append]

/-- A value is the path to the file of a desired variable, under the key for it. -/
def Pointer (desired : List SecretVarDesired) (k v : String) : Prop :=
  ∃ d ∈ desired, d.delivery = .file ∧ k = d.key ++ "_FILE" ∧ v = mountPath d.key

variable {desired : List SecretVarDesired} {k v : String}

/-- What planning puts under a key: a pointer to a file, or what was there. -/
theorem lookup_desired {env : Record} (h : (desired.foldl desireEnv env).lookup k = some v) :
    Pointer desired k v ∨
      env.lookup k = some v ∧ ∀ d ∈ desired, k ≠ d.key := by
  induction desired generalizing env with
  | nil => exact .inr ⟨h, nofun⟩
  | cons d desired ih =>
    obtain ⟨d', hd', hpointer⟩ | ⟨henv, hkeys⟩ := ih h
    · exact .inl ⟨d', List.mem_cons_of_mem _ hd', hpointer⟩
    unfold desireEnv at henv
    have hdelete : (env.delete d.key).lookup k = some v →
        env.lookup k = some v ∧ ∀ d' ∈ d :: desired, k ≠ d'.key := by
      rw [Record.lookup_delete_eq]
      split
      · nofun
      · rename_i hk
        exact fun h => ⟨h, List.forall_mem_cons.mpr ⟨hk, hkeys⟩⟩
    cases hdelivery : d.delivery with
    | env =>
      rw [hdelivery] at henv
      exact .inr (hdelete henv)
    | file =>
      rw [hdelivery] at henv
      dsimp only at henv
      rw [Record.lookup_set_eq] at henv
      split at henv
      · rename_i hk
        exact .inl ⟨d, List.mem_cons_self, hdelivery, hk, (Option.some.inj henv).symm⟩
      · exact .inr (hdelete henv)

theorem lookup_dropPointers {ts : List String} {env : Record}
    (h : (ts.foldl dropPointer env).lookup k = some v) : env.lookup k = some v := by
  induction ts generalizing env with
  | nil => exact h
  | cons t ts ih =>
    have hdrop := ih h
    unfold dropPointer at hdrop
    split at hdrop
    · rw [Record.lookup_delete_eq] at hdrop
      split at hdrop
      · contradiction
      · exact hdrop
    · exact hdrop

theorem lookup_applyUnwrapped {managed : List String}
    (h : ((applyUnwrapped spec desired managed).env.getD []).lookup k = some v) :
    Pointer desired k v ∨
      (spec.env.getD []).lookup k = some v ∧ ∀ d ∈ desired, k ≠ d.key := by
  rw [applyUnwrapped] at h
  simp only [getD_nonempty] at h
  exact (lookup_desired h).imp_right fun ⟨henv, hkeys⟩ => ⟨lookup_dropPointers henv, hkeys⟩

theorem list_ne_pointer (key : String) : SECRET_ENV_VAR ≠ key ++ "_FILE" := by
  intro h
  have hlast := congrArg (fun s => s.toList.getLast?) h
  rw [ends_with, show "_FILE".toList.getLast? = some 'E' from rfl, Option.some_or] at hlast
  exact absurd hlast (by decide)

theorem settled_applyUnwrapped (h : Settled spec) (desired : List SecretVarDesired)
    (managed : List String) :
    Settled (applyUnwrapped spec desired managed) where
  argv := h.argv
  file := h.file
  labels := h.labels
  env := congrArg nonempty (getD_nonempty _)
  list := by
    rw [Option.eq_none_iff_forall_ne_some]
    intro v hv
    obtain ⟨d, -, -, hkey, -⟩ | ⟨henv, -⟩ := lookup_applyUnwrapped hv
    · exact list_ne_pointer d.key hkey
    · rw [h.list] at henv
      contradiction
  configs := h.configs

theorem looksShimmed_bind {command : Option (List String)} :
    LooksShimmed (command >>= nonempty) ↔ LooksShimmed command := by
  rcases command with _ | _ | ⟨c, cs⟩
  · exact Iff.rfl
  · exact iff_of_false (fun ⟨_, h⟩ => nomatch h) fun ⟨_, h⟩ => nomatch h
  · exact Iff.rfl

/-- The empty change keeps the names. -/
theorem mem_secretNames_applyUnwrapped (n : String) :
    n ∈ secretNames (applyUnwrapped spec [] []) ↔ n ∈ secretNames spec := by
  rw [secretNames, applyUnwrapped, mem_unique, secretNames, mem_unique]
  simp [getD_nonempty, sorted, unique]

theorem secrets_applyUnwrapped :
    (applyUnwrapped spec [] []).secrets.getD [] = spec.secrets.getD [] := by
  rw [applyUnwrapped]
  simp [getD_nonempty]

theorem shimmed_inj {spec' : ServiceSpec} {argv argv' : List String}
    (h : shimmed spec argv = shimmed spec' argv') : spec.command = spec'.command := by
  have hlabel := congrArg (fun spec => (spec.labels.getD []).lookup SECRET_ENV_ARGV_LABEL) h
  simp only [shimmed, Option.getD_some, Record.lookup_set_self, Option.some.injEq] at hlabel
  exact (argvLabel_inj hlabel).1

/-- Unwrapping a spec whose arguments look like the shim's command once more makes a difference. -/
theorem wrapUnwrapped_shift_ne (hne : secretNames spec ≠ [])
    (hnames : ∀ n ∈ secretNames spec, isEnvName n = true ∧ n ∈ (spec.secrets.getD []).map targetOf)
    (hlooks : LooksShimmed (shift spec).command) (image : Option ImageArgv) :
    wrapUnwrapped (shift spec) image ≠ wrapUnwrapped (shift (shift spec)) image := by
  obtain ⟨c, hc⟩ := hlooks
  have hargv : originalArgv (shift spec) image = .ok [c, SECRET_ENV_SHIM_PATH] := by
    rw [originalArgv.eq_def, hc]
    rfl
  have hleft : wrapUnwrapped (shift spec) image =
      .ok (shimmed (shift spec) [c, SECRET_ENV_SHIM_PATH]) :=
    (wrapUnwrapped_eq_ok (show secretNames (shift spec) ≠ [] from hne)).mpr
      ⟨hnames, _, hargv, List.cons_ne_nil _ _, rfl⟩
  intro h
  rw [hleft, eq_comm, wrapUnwrapped_eq_ok (show secretNames (shift (shift spec)) ≠
    [] from hne)] at h
  obtain ⟨-, argv, -, -, hshimmed⟩ := h
  have hcommands := shimmed_inj hshimmed
  rw [hc] at hcommands
  cases hcommands

/-- Planning on what has come back and wrapping that gives what planning on its unwrapped spec
gives, unless both the command and the arguments look like the shim's command. -/
theorem change_iff (hu : Unmarked u) (hne : secretNames u ≠ [])
    (hw : wrapUnwrapped u image = .ok w) :
    (∀ desired managed, wrapSecretEnv number (applyUnwrapped (normalise u) desired managed) image =
      wrapSecretEnv number (applySecretVars number (normalise u) desired managed) image) ↔
      ¬(LooksShimmed u.command ∧ LooksShimmed u.args) := by
  have hsettled := settled_normalise hu
  by_cases hcommand : LooksShimmed u.command
  swap
  · refine iff_of_true (fun desired managed => ?_) fun h => hcommand h.1
    rw [applySecretVars, unwrap_of_not_looksShimmed hsettled.toUnmarked fun h =>
      hcommand (looksShimmed_bind.mp h)]
  have hcommand' : LooksShimmed (normalise u).command := looksShimmed_bind.mpr hcommand
  -- Both sides wrap the plan with its arguments as the command, one of them after unwrapping it
  -- again.
  have hplan : ∀ desired managed, Settled (applyUnwrapped (normalise u) desired managed) :=
    settled_applyUnwrapped hsettled
  have hleft : ∀ desired managed,
      wrapSecretEnv number (applyUnwrapped (normalise u) desired managed) image =
      wrapUnwrapped (shift (applyUnwrapped (normalise u) desired managed)) image :=
        fun desired managed => by
    rw [wrapSecretEnv, unwrap_of_looksShimmed (hplan desired managed) hcommand']
  have hright : ∀ desired managed, applySecretVars number (normalise u) desired managed =
      shift (applyUnwrapped (normalise u) desired managed) := fun desired managed => by
    rw [applySecretVars, unwrap_of_looksShimmed hsettled hcommand']
    rfl
  have hlooks : ∀ desired managed,
      LooksShimmed (shift (applyUnwrapped (normalise u) desired managed)).command ↔
        LooksShimmed u.args :=
    fun _ _ => looksShimmed_bind.trans looksShimmed_bind
  by_cases hargs : LooksShimmed u.args
  · refine iff_of_false (fun h => ?_) fun h => h ⟨hcommand, hargs⟩
    have heq := h [] []
    rw [hleft, hright, wrapSecretEnv,
      unwrap_of_looksShimmed (hplan [] []).shift ((hlooks [] []).mpr hargs)] at heq
    obtain ⟨hnames, -⟩ := (wrapUnwrapped_eq_ok hne).mp hw
    have hmem : ∀ n, n ∈ secretNames (applyUnwrapped (normalise u) [] []) ↔ n ∈ secretNames u :=
      fun n => by
      rw [mem_secretNames_applyUnwrapped, secretNames_normalise]
    obtain ⟨n, hn⟩ := List.exists_mem_of_ne_nil _ hne
    refine wrapUnwrapped_shift_ne (List.ne_nil_of_mem ((hmem n).mpr hn)) (fun n hn => ?_)
      ((hlooks [] []).mpr hargs) image heq
    obtain ⟨hname, hmount⟩ := hnames n ((hmem n).mp hn)
    refine ⟨hname, ?_⟩
    rw [secrets_applyUnwrapped]
    exact hmount
  · refine iff_of_true (fun desired managed => ?_) fun h => hargs h.2
    rw [hleft, hright, wrapSecretEnv,
      unwrap_of_not_looksShimmed (hplan desired managed).shift.toUnmarked
      fun h => hargs ((hlooks desired managed).mp h)]

/-! ## Plain values -/

/-- Nothing stands under a desired key but a pointer to the file of another one. -/
theorem hidden_applySecretVars {managed : List String} {d : SecretVarDesired} (hd : d ∈ desired)
    (hv : ((applySecretVars number spec desired managed).env.getD []).lookup d.key = some v) :
    Pointer desired d.key v := by
  obtain hpointer | ⟨-, hkeys⟩ := lookup_applyUnwrapped hv
  · exact hpointer
  · exact absurd rfl (hkeys d hd)

theorem lookup_unwrap (hfile : secretEnvFileNames spec.labels = [])
    (h : ((unwrap number spec).env.getD []).lookup k = some v) :
    (spec.env.getD []).lookup k = some v := by
  rw [unwrap_of_fileNames hfile] at h
  split at h
  · rw [unmarked] at h
    simp only [getD_nonempty, Record.lookup_delete_eq] at h
    split at h
    · contradiction
    · exact h
  · exact h

theorem lookup_wrapUnwrapped (hw : wrapUnwrapped u image = .ok w)
    (h : (w.env.getD []).lookup k = some v) :
    k = SECRET_ENV_VAR ∧ v = ",".intercalate (secretNames u) ∨
      k ∉ secretNames u ∧ (u.env.getD []).lookup k = some v := by
  by_cases hne : secretNames u = []
  · rw [wrapUnwrapped, if_pos hne] at hw
    rw [← Except.ok.inj hw] at h
    exact .inr ⟨by rw [hne]; exact List.not_mem_nil, h⟩
  · obtain ⟨-, argv, -, -, rfl⟩ := (wrapUnwrapped_eq_ok hne).mp hw
    change (wrapEnv _ _).lookup k = some v at h
    rw [lookup_wrapEnv] at h
    split_ifs at h with hk hmem
    · exact .inl ⟨hk, (Option.some.inj h).symm⟩
    · exact .inr ⟨hmem, h⟩

/-- Nor after wrapping, but for the list of names under its own key. -/
theorem hidden_wrapped {managed : List String}
    (hw : wrapSecretEnv number (applySecretVars number spec desired managed) image = .ok w)
    {d : SecretVarDesired} (hd : d ∈ desired) (hv : (w.env.getD []).lookup d.key = some v) :
    Pointer desired d.key v ∨ d.key = SECRET_ENV_VAR ∧
      v = ",".intercalate
        (secretNames (unwrap number (applySecretVars number spec desired managed))) := by
  obtain hlist | ⟨-, henv⟩ := lookup_wrapUnwrapped hw hv
  · exact .inr hlist
  · exact .inl (hidden_applySecretVars hd (lookup_unwrap (@fileNames_unwrap number spec) henv))

end Swarmy.SecretEnv
