import Mathlib
import Swarmy.SecretEnv.Reverse
import Swarmy.Shell.Posix

/-!
# The shim

`SECRET_ENV_SHIM_SCRIPT` of `packages/core/src/app-secrets.ts`, as a POSIX shell runs it in the
task's container: each name of the list is set to what its file holds, the shim's own variables and
the list are unset, and the original argv replaces the shell.  `run_shimmed` says what a wrapped
spec comes to, and `afterShim_eq_iff` when that is the environment the app should have.
-/

namespace Swarmy.SecretEnv

open Canary Js Posix List Option

/-! ## The script -/

/-- What can be read in the container, by path. -/
abbrev Files := Bytes → Option Bytes

/-- The variables that the shim sets for itself. -/
def shimVars : List String := ["IFS", "n", "f", "v", "l"]

/-- `''|[0-9]*|*[!A-Za-z0-9_]*`. -/
def invalidName : Bytes → Bool
  | [] => true
  | b :: bs => isDigit b || !(b :: bs).all isWord

/-- `v="$v$l⏎"`. -/
def addLine (σ : Vars) : Vars :=
  σ.assign (bytes "v") (σ.value (bytes "v") ++ σ.value (bytes "l") ++ [newline])

/-- The body of the loop over the names. -/
def exportName (files : Files) (σ : Vars) (n : Bytes) : Except Nat Vars :=
  let σ := σ.assign (bytes "n") n
  if invalidName (σ.value (bytes "n")) then .error 78
  else
    let σ := σ.assign (bytes "f") (bytes "/run/secrets/" ++ σ.value (bytes "n"))
    match files (σ.value (bytes "f")) with
    | none => .error 78
    | some content =>
      let σ := σ.assign (bytes "v") []
      let σ := σ.assign (bytes "l") []
      let σ := whileRead (bytes "l") addLine [] content σ
      let σ := σ.assign (bytes "v") (σ.value (bytes "v") ++ σ.value (bytes "l"))
      .ok (σ.exportAs (σ.value (bytes "n")) (σ.value (bytes "v")))

/-- A comma. -/
def comma : UInt8 := 44

/-- The script, run with the arguments that come after its path. -/
def SECRET_ENV_SHIM_SCRIPT (sh : Shell) (files : Files) (env : Env) (argv : List Bytes) :
    Posix.Outcome :=
  let σ := (sh.start env).assign (bytes "IFS") [comma]
  match (fields comma (σ.value (bytes SECRET_ENV_VAR))).foldlM (exportName files) σ with
  | .error status => .exit status
  | .ok σ =>
    let σ := σ.unset ((shimVars ++ [SECRET_ENV_VAR]).map bytes)
    if argv = [] then .exit 78 else exec argv σ.env

/-- The environment that a record stands for. -/
def environ (env : Record) : Env :=
  fun k => (env.find? fun e => bytes e.1 = k).map fun e => bytes e.2

/-- The task of a spec: the shim when it is the shell on the shim's config that is run. -/
def run (sh : Shell) (files : Files) (spec : ServiceSpec) : Posix.Outcome :=
  let env := environ (spec.env.getD [])
  match spec.command.getD [] ++ spec.args.getD [] with
  | "/bin/sh" :: path :: argv =>
    if path = SECRET_ENV_SHIM_PATH ∧ shimConfig ∈ spec.configs.getD [] then
      SECRET_ENV_SHIM_SCRIPT sh files env (argv.map bytes)
    else .exec (("/bin/sh" :: path :: argv).map bytes) env
  | argv => .exec (argv.map bytes) env

/-! ## One name -/

variable {sh : Shell} {files : Files}

/-- What reading a file leaves in `v` and `l`: all of it but the null bytes.  No other variable is
touched. -/
theorem whileRead_addLine (content : Bytes) {σ : Vars} (hv : σ.value (bytes "v") = []) :
    ∃ (last : Bytes) (σ' : Vars), whileRead (bytes "l") addLine [] content σ = σ'.assign
      (bytes "l") last ∧
      σ'.value (bytes "v") ++ last = content.filter (· ≠ 0) ∧
      ∀ k, k ≠ bytes "v" → k ≠ bytes "l" → σ' k = σ k := by
  have hvl : bytes "v" ≠ bytes "l" := by decide
  let I := fun (read : Bytes) (σ' : Vars) =>
    σ'.value (bytes "v") = read ∧ ∀ k, k ≠ bytes "v" → k ≠ bytes "l" → σ' k = σ k
  have hstep : ∀ read line σ', I read σ' →
      I (read ++ line ++ [newline]) (addLine (σ'.assign (bytes "l") line)) := by
    rintro read line σ' ⟨hread, hframe⟩
    refine ⟨?_, fun k hkv hkl => ?_⟩
    · rw [addLine, Vars.value_assign, Vars.value_assign, Vars.value_assign_of_ne hvl, hread]
    · rw [addLine, Vars.assign_of_ne hkv, Vars.assign_of_ne hkl, hframe k hkv hkl]
  obtain ⟨read, last, σ', hloop, ⟨hread, hframe⟩, hall⟩ :=
    whileRead_rule hstep content [] [] σ ⟨hv, fun _ _ _ => rfl⟩
  exact ⟨last, σ', hloop, by rw [hread, hall]; rfl, hframe⟩

/-- A valid name whose file is there is exported, with what the file holds but for null bytes;
beside it only the shim's own variables change. -/
theorem exportName_eq {n content : Bytes} (hn : invalidName n = false)
    (hfile : files (bytes "/run/secrets/" ++ n) = some content) (σ : Vars) :
    ∃ σ' : Vars, exportName files σ n = .ok (σ'.exportAs n (content.filter (· ≠ 0))) ∧
      ∀ k, k ∉ shimVars.map bytes → σ' k = σ k := by
  generalize hσ₁ : (((σ.assign (bytes "n") n).assign (bytes "f")
    (bytes "/run/secrets/" ++ n)).assign
    (bytes "v") []).assign (bytes "l") [] = σ₁
  have hv : σ₁.value (bytes "v") = [] := by
    rw [← hσ₁, Vars.value_assign_of_ne (by decide), Vars.value_assign]
  obtain ⟨last, σ₂, hloop, hread, hframe⟩ := whileRead_addLine content hv
  have hname : σ₂.value (bytes "n") = n := by
    rw [Vars.value, hframe _ (by decide) (by decide), ← Vars.value, ← hσ₁,
      Vars.value_assign_of_ne (by decide),
      Vars.value_assign_of_ne (by decide), Vars.value_assign_of_ne (by decide), Vars.value_assign]
  refine ⟨(σ₂.assign (bytes "l") last).assign (bytes "v") (content.filter (· ≠ 0)), ?_,
    fun k hk => ?_⟩
  · simp only [exportName, Vars.value_assign, hn, Bool.false_eq_true, if_false, hfile, hσ₁, hloop]
    rw [Vars.value_assign_of_ne (by decide), hread, Vars.value_assign_of_ne (by decide),
      Vars.value_assign_of_ne (by decide), hname]
  · simp only [shimVars, map_cons, map_nil, mem_cons, not_mem_nil, or_false, not_or] at hk
    rw [Vars.assign_of_ne hk.2.2.2.1, Vars.assign_of_ne hk.2.2.2.2,
      hframe k hk.2.2.2.1 hk.2.2.2.2, ← hσ₁,
      Vars.assign_of_ne hk.2.2.2.2, Vars.assign_of_ne hk.2.2.2.1, Vars.assign_of_ne hk.2.2.1,
      Vars.assign_of_ne hk.2.1]

/-! ## All names -/

/-- The bytes of a file that a variable can hold. -/
def held (files : Files) (n : Bytes) : Bytes :=
  ((files (bytes "/run/secrets/" ++ n)).getD []).filter (· ≠ 0)

theorem exportNames_eq {ns : List Bytes} (hns : ∀ n ∈ ns, invalidName n = false)
    (hfiles : ∀ n ∈ ns, (files (bytes "/run/secrets/" ++ n)).isSome) (σ : Vars) :
    ∃ σ' : Vars, ns.foldlM (exportName files) σ = .ok σ' ∧
      ∀ k, k ∉ shimVars.map bytes → σ' k = if k ∈ ns then some ⟨held files k, true⟩ else σ k := by
  induction ns generalizing σ with
  | nil => exact ⟨σ, rfl, fun k _ => (if_neg not_mem_nil).symm⟩
  | cons n ns ih =>
    rw [forall_mem_cons] at hns hfiles
    obtain ⟨content, hcontent⟩ := isSome_iff_exists.mp hfiles.1
    obtain ⟨σ₁, hone, hframe⟩ := exportName_eq hns.1 hcontent σ
    obtain ⟨σ₂, hall, hvars⟩ := ih hns.2 hfiles.2 (σ₁.exportAs n (content.filter (· ≠ 0)))
    refine ⟨σ₂, ?_, fun k hk => (hvars k hk).trans ?_⟩
    · rw [foldlM_cons, hone]
      exact hall
    · by_cases hmem : k ∈ ns
      · rw [if_pos hmem, if_pos (mem_cons_of_mem _ hmem)]
      · rw [if_neg hmem]
        by_cases hkn : k = n
        · rw [hkn, Vars.exportAs_self, if_pos mem_cons_self, held, hcontent, getD_some]
        · rw [Vars.exportAs_of_ne hkn, hframe k hk, if_neg (by simp [hkn, hmem])]

/-- The environment that the shim leaves, for the names it was given. -/
def afterShim (sh : Shell) (files : Files) (env : Env) (ns : List Bytes) : Env := fun k =>
  if k ∈ (shimVars ++ [SECRET_ENV_VAR]).map bytes then none
  else if k ∈ ns then some (held files k)
  else (sh.start env).env k

theorem script_eq {env : Env} {ns argv : List Bytes} (hargv : argv ≠ [])
    (hlist : fields comma ((sh.start env).value (bytes SECRET_ENV_VAR)) = ns)
    (hns : ∀ n ∈ ns, invalidName n = false)
    (hfiles : ∀ n ∈ ns, (files (bytes "/run/secrets/" ++ n)).isSome) :
    SECRET_ENV_SHIM_SCRIPT sh files env argv = exec argv (afterShim sh files env ns) := by
  obtain ⟨σ, hall, hvars⟩ := exportNames_eq hns hfiles ((sh.start env).assign (bytes "IFS") [comma])
  rw [SECRET_ENV_SHIM_SCRIPT, Vars.value_assign_of_ne (by decide), hlist, hall]
  dsimp only
  rw [if_neg hargv]
  congr 1
  funext k
  rw [afterShim]
  by_cases hk : k ∈ (shimVars ++ [SECRET_ENV_VAR]).map bytes
  · rw [if_pos hk]
    exact Vars.env_eq_none (if_pos hk)
  · have hown : k ∉ shimVars.map bytes :=
      fun h => hk (by rw [map_append]; exact mem_append_left _ h)
    have hifs : k ≠ bytes "IFS" := fun h => hown (by rw [h]; exact mem_map_of_mem (by decide))
    rw [if_neg hk]
    by_cases hmem : k ∈ ns
    · rw [if_pos hmem]
      exact Vars.env_of_exported ((if_neg hk).trans ((hvars k hown).trans (if_pos hmem)))
    · rw [if_neg hmem, Vars.env, Vars.env, Vars.unset, if_neg hk, hvars k hown, if_neg hmem,
        Vars.assign_of_ne hifs]

/-! ## Names in bytes -/

theorem encode_word : ∀ n < 128, ((Char.ofNat n).isAlphanum || Char.ofNat n == '_') = true →
    String.utf8EncodeChar (Char.ofNat n) = [UInt8.ofNat n] ∧ isWord (UInt8.ofNat n) = true ∧
      isDigit (UInt8.ofNat n) = (Char.ofNat n).isDigit := by decide

theorem toNat_word {c : Char} (h : (c.isAlphanum || c == '_') = true) : c.toNat < 128 := by
  have hval : c.toNat = c.val.toNat := rfl
  simp only [Char.isAlphanum, Char.isAlpha, Char.isUpper, Char.isLower, Char.isDigit,
    Bool.or_eq_true,
    Bool.and_eq_true, decide_eq_true_eq, beq_iff_eq, GE.ge, UInt32.le_iff_toNat_le] at h
  obtain ((h | h) | h) | rfl := h
  · exact hval ▸ h.2.trans_lt (by decide)
  · exact hval ▸ h.2.trans_lt (by decide)
  · exact hval ▸ h.2.trans_lt (by decide)
  · decide

/-- A character of a name is one byte. -/
theorem encode_of_word {c : Char} (h : (c.isAlphanum || c == '_') = true) :
    ∃ b, String.utf8EncodeChar c = [b] ∧ isWord b = true ∧ isDigit b = c.isDigit := by
  have hencode := encode_word c.toNat (toNat_word h)
  rw [Char.ofNat_toNat] at hencode
  exact ⟨_, hencode h⟩

theorem bytes_of_words {cs : List Char} (h : ∀ c ∈ cs, (c.isAlphanum || c == '_') = true) :
    (cs.flatMap String.utf8EncodeChar).all isWord = true := by
  induction cs with
  | nil => rfl
  | cons c cs ih =>
    rw [forall_mem_cons] at h
    obtain ⟨b, hb, hword, -⟩ := encode_of_word h.1
    rw [flatMap_cons, hb, singleton_append, all_cons, hword, ih h.2]
    rfl

variable {n : String} {spec : ServiceSpec}

/-- The shim takes every name that can be wrapped. -/
theorem invalidName_bytes (h : isEnvName n = true) : invalidName (bytes n) = false := by
  rw [isEnvName] at h
  split at h
  · contradiction
  · rename_i c cs heq
    rw [Bool.and_eq_true, List.all_eq_true] at h
    have hc : (c.isAlphanum || c == '_') = true := by
      have halpha := h.1
      rw [Char.isAlphanum]
      grind
    obtain ⟨b, hb, hword, hdigit⟩ := encode_of_word hc
    have hnotDigit : c.isDigit = false := by
      by_contra hdigit
      rw [Bool.not_eq_false] at hdigit
      have halpha := h.1
      simp only [Char.isAlpha, Char.isUpper, Char.isLower, Char.isDigit, Bool.or_eq_true,
        Bool.and_eq_true,
        decide_eq_true_eq, beq_iff_eq, GE.ge, UInt32.le_iff_toNat_le] at halpha hdigit
      obtain (h | h) | rfl := halpha
      · exact absurd (h.1.trans hdigit.2) (by decide)
      · exact absurd (h.1.trans hdigit.2) (by decide)
      · exact absurd hdigit.2 (by decide)
    rw [bytes, heq, flatMap_cons, hb, singleton_append, invalidName, hdigit, hnotDigit,
      all_cons, hword, bytes_of_words h.2]
    rfl

theorem bytes_ne_nil (h : isEnvName n = true) : bytes n ≠ [] := by
  intro hnil
  have hinvalid := invalidName_bytes h
  rw [hnil] at hinvalid
  cases hinvalid

theorem comma_not_mem_bytes (h : isEnvName n = true) : comma ∉ bytes n := by
  intro hmem
  have hinvalid := invalidName_bytes h
  revert hmem hinvalid
  cases bytes n with
  | nil => nofun
  | cons b bs =>
    intro hmem hinvalid
    rw [invalidName, Bool.or_eq_false_iff, Bool.not_eq_false', List.all_eq_true] at hinvalid
    exact absurd (hinvalid.2 comma hmem) (by decide)

theorem bytes_intercalate (sep : String) (ns : List String) :
    bytes (sep.intercalate ns) = (bytes sep).intercalate (ns.map bytes) := by
  induction ns with
  | nil => rfl
  | cons n ns ih =>
    cases ns with
    | nil => simp
    | cons n' ns =>
      rw [String.intercalate_cons_cons, bytes_append, bytes_append, ih, map_cons, map_cons,
        map_cons, intercalate_cons_cons]

/-- The shim reads the list back as the names in it. -/
theorem fields_list {ns : List String} (h : ∀ n ∈ ns, isEnvName n = true) (hns : ns ≠ []) :
    fields comma (bytes (",".intercalate ns)) = ns.map bytes := by
  rw [bytes_intercalate]
  refine fields_intercalate ?_ ?_ (by simpa using hns)
  · simpa using fun n hn => bytes_ne_nil (h n hn)
  · simpa using fun n hn => comma_not_mem_bytes (h n hn)

/-! ## A wrapped spec -/

theorem environ_bytes (env : Record) (k : String) :
    environ env (bytes k) = (env.lookup k).map bytes := by
  rw [environ]
  induction env with
  | nil => rfl
  | cons e env ih =>
    rw [List.find?_cons, lookup_cons]
    by_cases hk : k = e.1
    · rw [hk, beq_self_eq_true, decide_eq_true rfl]
      rfl
    · rw [beq_false_of_ne hk, decide_eq_false fun h => hk (bytes_injective h).symm, ih]

theorem environ_of_ne (env : Record) {k : Bytes} (h : ∀ s, bytes s ≠ k) : environ env k = none := by
  rw [environ, map_eq_none_iff, List.find?_eq_none]
  exact fun e _ heq => h e.1 (of_decide_eq_true heq)

theorem bytes_mountPath (n : String) : bytes (mountPath n) = bytes "/run/secrets/" ++ bytes n := by
  rw [mountPath, ← bytes_append]
  rfl

/-- What running a wrapped spec comes to. -/
theorem run_shimmed {argv : List String} (hargv : argv ≠ [])
    (hown : sh.own (bytes SECRET_ENV_VAR) = none) (hne : secretNames spec ≠ [])
    (hnames : ∀ n ∈ secretNames spec, isEnvName n = true)
    (hfiles : ∀ n ∈ secretNames spec, (files (bytes (mountPath n))).isSome) :
    run sh files (shimmed spec argv) = exec (argv.map bytes)
      (afterShim sh files (environ (wrapEnv (spec.env.getD []) (secretNames spec)))
        ((secretNames spec).map bytes)) := by
  have hlist : (sh.start (environ (wrapEnv (spec.env.getD []) (secretNames spec)))).value
      (bytes SECRET_ENV_VAR) = bytes (",".intercalate (secretNames spec)) := by
    have hname : isName (bytes SECRET_ENV_VAR) = true := by decide
    rw [Vars.value, Shell.start, environ_bytes, lookup_wrapEnv, if_pos rfl, map_some]
    simp only [hname, Bool.true_or, if_true, hown, getD_none, map_some, getD_some]
  rw [run, shimmed]
  simp only [getD_some, cons_append, nil_append]
  rw [if_pos ⟨trivial, mem_append_right _ mem_cons_self⟩,
    script_eq (by simpa using hargv) ((congrArg _ hlist).trans (fields_list hnames hne))]
  · exact forall_mem_map.mpr fun n hn => invalidName_bytes (hnames n hn)
  · refine forall_mem_map.mpr fun n hn => ?_
    rw [← bytes_mountPath]
    exact hfiles n hn

/-! ## The environment of the app -/

/-- What the app should find: its spec's environment without the list, and each secret under its
name. -/
def appEnv (files : Files) (spec : ServiceSpec) : Env := fun k =>
  if k ∈ (secretNames spec).map bytes then files (bytes "/run/secrets/" ++ k)
  else if k = bytes SECRET_ENV_VAR then none
  else environ (spec.env.getD []) k

/-- The shim's shell has no variable of its own under the names of a spec, and hands on what the
spec's environment has. -/
structure Clear (sh : Shell) (files : Files) (spec : ServiceSpec) : Prop where
  /-- No secret goes by a name that the shim unsets. -/
  names : ∀ n ∈ secretNames spec, n ∉ shimVars ++ [SECRET_ENV_VAR]
  /-- No secret holds a null byte. -/
  content : ∀ n ∈ secretNames spec, ∀ content, files (bytes (mountPath n)) = some content →
    0 ∉ content
  /-- Nor does the environment have such a name, one that the shell drops or a variable that the
  shell gives another value. -/
  env : ∀ k v, (spec.env.getD []).lookup k = some v → k ∉ secretNames spec → k ≠ SECRET_ENV_VAR →
    k ∉ shimVars ∧ (isName (bytes k) || sh.passes (bytes k)) = true ∧
      ∀ x, sh.own (bytes k) = some x → x = bytes v

theorem bytes_mem_map {ns : List String} : bytes n ∈ ns.map bytes ↔ n ∈ ns :=
  mem_map_of_injective bytes_injective

theorem filter_null {bs : Bytes} : bs.filter (· ≠ 0) = bs ↔ 0 ∉ bs := by
  rw [filter_eq_self]
  exact ⟨fun h hmem => absurd rfl (of_decide_eq_true (h 0 hmem)),
    fun h b hb => decide_eq_true fun h0 => h (h0 ▸ hb)⟩

/-- Under a name of the list. -/
theorem afterShim_name {env : Env} (hn : n ∈ secretNames spec)
    (hfile : (files (bytes (mountPath n))).isSome) :
    afterShim sh files env ((secretNames spec).map bytes) (bytes n) = appEnv files spec (bytes n) ↔
      n ∉ shimVars ++ [SECRET_ENV_VAR] ∧
        ∀ content, files (bytes (mountPath n)) = some content → 0 ∉ content := by
  obtain ⟨content, hcontent⟩ := isSome_iff_exists.mp hfile
  simp only [afterShim, appEnv, bytes_mem_map, if_pos hn, held, ← bytes_mountPath, hcontent,
    getD_some]
  by_cases hvar : n ∈ shimVars ++ [SECRET_ENV_VAR]
  · rw [if_pos hvar]
    exact iff_of_false nofun fun h => h.1 hvar
  · rw [if_neg hvar, Option.some.injEq, filter_null]
    exact ⟨fun h => ⟨hvar, fun _ h' => some.inj h' ▸ h⟩, fun h => h.2 content rfl⟩

/-- Under any other key. -/
theorem afterShim_other {k : String} (hk : k ∉ secretNames spec) (hlist : k ≠ SECRET_ENV_VAR) :
    afterShim sh files (environ (wrapEnv (spec.env.getD []) (secretNames spec)))
        ((secretNames spec).map bytes) (bytes k) = appEnv files spec (bytes k) ↔
      ∀ v, (spec.env.getD []).lookup k = some v → k ∉ shimVars ∧
        (isName (bytes k) || sh.passes (bytes k)) = true ∧ ∀ x, sh.own (bytes k) = some x →
        x = bytes v := by
  have hvar : k ∈ shimVars ++ [SECRET_ENV_VAR] ↔ k ∈ shimVars := by
    rw [mem_append, mem_singleton, or_iff_left hlist]
  simp only [afterShim, appEnv, bytes_mem_map, bytes_inj, hvar, if_neg hk, if_neg hlist,
    Shell.start_env,
    environ_bytes, lookup_wrapEnv]
  cases (spec.env.getD []).lookup k with
  | none => exact iff_of_true (ite_self _) fun v hv => (some_ne_none v hv.symm).elim
  | some v =>
    simp only [map_some, bind_some, Option.some.injEq, forall_eq']
    by_cases hshim : k ∈ shimVars
    · rw [if_pos hshim]
      exact iff_of_false (some_ne_none _).symm fun h => h.1 hshim
    rw [if_neg hshim]
    cases hpass : isName (bytes k) || sh.passes (bytes k) with
    | false => exact iff_of_false (some_ne_none _).symm fun h => Bool.false_ne_true h.2.1
    | true =>
      rw [if_pos rfl, Option.some.injEq]
      refine Iff.trans ?_ ((and_iff_right hshim).trans (and_iff_right rfl)).symm
      cases sh.own (bytes k) with
      | none => exact iff_of_true rfl fun x hx => (some_ne_none x hx.symm).elim
      | some x => exact ⟨fun h y hy => some.inj hy ▸ h, fun h => h x rfl⟩

/-- The shim leaves the environment that the app should have exactly when it is clear of the names
that the shim and its shell use. -/
theorem afterShim_eq_iff (hfiles : ∀ n ∈ secretNames spec, (files (bytes (mountPath n))).isSome) :
    afterShim sh files (environ (wrapEnv (spec.env.getD []) (secretNames spec)))
        ((secretNames spec).map bytes) = appEnv files spec ↔ Clear sh files spec := by
  constructor
  · intro h
    have hname := fun n hn => (afterShim_name hn (hfiles n hn)).mp (congrFun h (bytes n))
    exact ⟨fun n hn => (hname n hn).1, fun n hn => (hname n hn).2,
      fun k v hv hk hlist => (afterShim_other hk hlist).mp (congrFun h (bytes k)) v hv⟩
  · intro h
    funext k
    by_cases hk : ∃ s, bytes s = k
    · obtain ⟨s, rfl⟩ := hk
      by_cases hs : s ∈ secretNames spec
      · exact (afterShim_name hs (hfiles s hs)).mpr ⟨h.names s hs, h.content s hs⟩
      by_cases hlist : s = SECRET_ENV_VAR
      · rw [afterShim, if_pos (bytes_mem_map.mpr (by rw [hlist]; decide)), appEnv,
          if_neg (mt bytes_mem_map.mp hs), if_pos (by rw [hlist])]
      · exact (afterShim_other hs hlist).mpr fun v hv => h.env s v hv hs hlist
    · -- No text has these bytes, so neither environment has them for a key.
      have hk : ∀ s, bytes s ≠ k := fun s hs => hk ⟨s, hs⟩
      have hmem : ∀ ns : List String, k ∉ ns.map bytes := fun ns hk' =>
        (mem_map.mp hk').elim fun s hs => hk s hs.2
      rw [afterShim, appEnv, if_neg (hmem _), if_neg (hmem _), if_neg (hmem _), if_neg (hk _).symm,
        Shell.start_env, environ_of_ne _ hk, environ_of_ne _ hk]
      rfl

end Swarmy.SecretEnv
