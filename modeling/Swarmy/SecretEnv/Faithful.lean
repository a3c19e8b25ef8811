import Swarmy.SecretEnv.Shim

/-!
# A faithful shim

What the secret-env shim promises of a spec: that it can be taken away again, that taking it away
and putting it back changes nothing, that no plain value of a secret stays in the spec, and that the
app runs as it would without it, with its secrets in its environment.  `faithful_iff` says for which
specs it keeps all that.
-/

namespace Swarmy.SecretEnv

open Canary Js Posix

section

variable (number : List Char → Js.Num) (sh : Shell) (files : Files) (image : Option ImageArgv)

/-- The spec that an input stands for: what the shim has wrapped stands for its unwrapped spec. -/
def original (spec : ServiceSpec) : ServiceSpec :=
  let live := unwrapSecretEnvFileFallback spec
  if (live.labels.getD []).lookup SECRET_ENV_ARGV_LABEL ≠ none ∨
    live.command = some ["/bin/sh", SECRET_ENV_SHIM_PATH] then unwrap number spec
  else live

/-- What the shim promises of a spec that is wrapped as `w`. -/
structure Faithful (spec w : ServiceSpec) : Prop where
  /-- Unwrapping gives the spec back. -/
  unwraps : unwrap number w = normalise (original number spec)
  /-- Wrapping twice is wrapping once. -/
  again : ∃ w', wrapSecretEnv number w image = .ok w' ∧ Same w' w
  /-- Changing the secrets and wrapping is changing those of the unwrapped spec and wrapping. -/
  change : ∀ desired managed, wrapSecretEnv number
    (applySecretVars number w desired managed) image =
    wrapSecretEnv number (applySecretVars number (unwrap number w) desired managed) image
  /-- No plain value of a desired secret is in a plan: only the path of another one's file. -/
  planned : ∀ desired managed, ∀ d ∈ desired, ∀ v,
    ((applySecretVars number spec desired managed).env.getD []).lookup d.key = some v →
      Pointer desired d.key v
  /-- Nor is it there when the plan has been wrapped: only the list of names is, under its own
  key. -/
  wrapped : ∀ desired managed w',
    wrapSecretEnv number (applySecretVars number spec desired managed) image = .ok w' →
      ∀ d ∈ desired, ∀ v, (w'.env.getD []).lookup d.key = some v →
        Pointer desired d.key v ∨ d.key = SECRET_ENV_VAR ∧
          v = ",".intercalate (secretNames
            (unwrap number (applySecretVars number spec desired managed)))
  /-- Nor in the wrapped spec itself. -/
  bare : ∀ n ∈ secretNames (original number spec), ∀ v, (w.env.getD []).lookup n = some v →
    n = SECRET_ENV_VAR ∧ v = ",".intercalate (secretNames (original number spec))
  /-- The app runs as it would, with the secrets in its environment. -/
  runs : ∃ argv, originalArgv (original number spec) image = .ok argv ∧
    run sh files w = .exec (argv.map bytes) (appEnv files (original number spec))

/-- The specs that the shim keeps its promise of. -/
structure Suits (spec : ServiceSpec) : Prop where
  /-- A command of two words that ends in the shim's path is the shim's own. -/
  recognised : ∀ c, (unwrapSecretEnvFileFallback spec).command = some [c, SECRET_ENV_SHIM_PATH] →
    ((unwrapSecretEnvFileFallback spec).labels.getD []).lookup SECRET_ENV_ARGV_LABEL = none →
      c = "/bin/sh"
  /-- What it wraps does not look wrapped twice over. -/
  once : ¬(LooksShimmed (original number spec).command ∧ LooksShimmed (original number spec).args)
  /-- The command and the arguments are absent rather than empty. -/
  command : (original number spec).command ≠ some []
  args : (original number spec).args ≠ some []
  /-- `exec` does not take the first word of the argv for an option. -/
  operand : ∀ a argv, originalArgv (original number spec) image = .ok (a :: argv) →
    isOperand (bytes a) = true
  clear : Clear sh files (original number spec)

end

variable {number : List Char → Js.Num} {sh : Shell} {files : Files} {image : Option ImageArgv}
  {spec u w : ServiceSpec}

/-! ## The spec that is wrapped -/

theorem original_eq_unwrap (h : ∀ c, (unwrapSecretEnvFileFallback spec).command =
      some [c, SECRET_ENV_SHIM_PATH] →
    ((unwrapSecretEnvFileFallback spec).labels.getD []).lookup SECRET_ENV_ARGV_LABEL = none →
    c = "/bin/sh") :
    original number spec = unwrap number spec := by
  rw [original]
  split
  · rfl
  · rename_i hown
    rw [not_or, not_not] at hown
    have hplain : isSecretEnvWrapped (unwrapSecretEnvFileFallback spec) = false :=
      isSecretEnvWrapped_eq_false.mpr ⟨hown.1, fun ⟨c, hc⟩ => hown.2 (by rw [hc, h c hc hown.1])⟩
    rw [unwrap_eq, hplain]
    rfl

/-- A command of two words that ends in the shim's path, and is not the shim's own, is lost. -/
theorem normalise_unwrap_ne {c : String} (hc : c ≠ "/bin/sh")
    (hcommand : (unwrapSecretEnvFileFallback spec).command = some [c, SECRET_ENV_SHIM_PATH])
    (hlabel : ((unwrapSecretEnvFileFallback spec).labels.getD []).lookup SECRET_ENV_ARGV_LABEL =
      none) :
    normalise (unwrap number spec) ≠ normalise (original number spec) := by
  have hwrapped : isSecretEnvWrapped (unwrapSecretEnvFileFallback spec) = true := by
    by_contra hwrapped
    exact (isSecretEnvWrapped_eq_false.mp (eq_false_of_ne_true hwrapped)).2 ⟨c, hcommand⟩
  have hown : ¬(((unwrapSecretEnvFileFallback spec).labels.getD []).lookup SECRET_ENV_ARGV_LABEL ≠
      none ∨
      (unwrapSecretEnvFileFallback spec).command = some ["/bin/sh", SECRET_ENV_SHIM_PATH]) := by
    rw [hlabel, hcommand]
    simp [hc]
  rw [original, if_neg hown, unwrap_eq, if_pos hwrapped]
  intro h
  have hargs := congrArg ServiceSpec.args h
  have hcommands := congrArg ServiceSpec.command h
  simp only [normalise, unmarked, hlabel, bakedArgv, Option.bind_eq_bind,
    Option.bind_none, hcommand,
    nonempty_getD] at hargs hcommands
  rw [← hargs] at hcommands
  cases hcommands

theorem secretNames_unwrap (h : secretNames (original number spec) ≠ []) :
    secretNames (unwrap number spec) ≠ [] := by
  rw [original] at h
  split at h
  · exact h
  · rw [unwrap_eq]
    split
    · obtain ⟨n, hn⟩ := List.exists_mem_of_ne_nil _ h
      refine List.ne_nil_of_mem (a := n) ?_
      rw [secretNames, mem_unique] at hn ⊢
      rw [unmarked]
      dsimp only
      split
      · exact hn
      · exact mem_unique.mpr (List.mem_append_left _ hn)
    · exact h

/-! ## Running -/

theorem runs_iff {argv : List String} (hargv : originalArgv u image = .ok argv)
    (hargvne : argv ≠ [])
    (hown : sh.own (bytes SECRET_ENV_VAR) = none) (hne : secretNames u ≠ [])
    (hnames : ∀ n ∈ secretNames u, isEnvName n = true)
    (hfiles : ∀ n ∈ secretNames u, (files (bytes (mountPath n))).isSome) :
    (∃ argv', originalArgv u image = .ok argv' ∧
      run sh files (shimmed u argv) = .exec (argv'.map bytes) (appEnv files u)) ↔
      (∀ a argv', originalArgv u image = .ok (a :: argv') → isOperand (bytes a) = true) ∧
        Clear sh files u := by
  obtain _ | ⟨a, argv⟩ := argv
  · contradiction
  rw [run_shimmed hargvne hown hne hnames hfiles, ← afterShim_eq_iff hfiles, hargv, List.map_cons]
  constructor
  · rintro ⟨_, h, hexec⟩
    obtain rfl := Except.ok.inj h
    obtain ⟨hoperand, henv⟩ := exec_eq_iff.mp hexec
    refine ⟨fun a' argv' h' => ?_, henv⟩
    obtain ⟨rfl, -⟩ := List.cons.inj (Except.ok.inj h')
    exact hoperand
  · exact fun ⟨hoperand, henv⟩ => ⟨a :: argv, rfl, exec_eq_iff.mpr ⟨hoperand a argv rfl, henv⟩⟩

/-! ## The promise -/

section

variable (hw : wrapSecretEnv number spec image = .ok w)
    (hne : secretNames (original number spec) ≠ [])
  (hfiles : ∀ n ∈ secretNames (original number spec), (files (bytes (mountPath n))).isSome)
  (hown : sh.own (bytes SECRET_ENV_VAR) = none)

include hw hne

theorem unwrap_wrapped : unwrap number w = normalise (unwrap number spec) := by
  have hne' := secretNames_unwrap hne
  obtain ⟨hnames, argv, -, -, rfl⟩ := (wrapUnwrapped_eq_ok hne').mp hw
  exact unwrap_shimmed (unmarked_unwrap spec) hne' (fun n hn => (hnames n hn).1) argv

theorem recognised_of_unwraps (h : unwrap number w = normalise (original number spec)) {c : String}
    (hcommand : (unwrapSecretEnvFileFallback spec).command = some [c, SECRET_ENV_SHIM_PATH])
    (hlabel : ((unwrapSecretEnvFileFallback spec).labels.getD []).lookup SECRET_ENV_ARGV_LABEL =
      none) :
    c = "/bin/sh" := by
  by_contra hc
  exact normalise_unwrap_ne hc hcommand hlabel ((unwrap_wrapped hw hne).symm.trans h)

/-- The parts of the promise that a spec has to meet a condition for, when it is known what it
stands for. -/
theorem parts_iff (horiginal : original number spec = unwrap number spec) :
    ((∃ w', wrapSecretEnv number w image = .ok w' ∧ Same w' w) ↔
      (original number spec).command ≠ some [] ∧ (original number spec).args ≠ some []) ∧
    ((∀ desired managed, wrapSecretEnv number (applySecretVars number w desired managed) image =
        wrapSecretEnv number (applySecretVars number (unwrap number w) desired managed) image) ↔
      ¬(LooksShimmed (original number spec).command ∧
        LooksShimmed (original number spec).args)) := by
  have hunwrap := unwrap_wrapped hw hne
  rw [horiginal] at hne ⊢
  refine ⟨?_, ?_⟩
  · rw [← again_iff hne hw, wrapSecretEnv, hunwrap]
  · rw [← @change_iff number _ _ _ (unmarked_unwrap spec) hne hw]
    simp only [applySecretVars, hunwrap]

include hfiles hown

theorem runs_wrapped_iff (horiginal : original number spec = unwrap number spec) :
    (∃ argv, originalArgv (original number spec) image = .ok argv ∧
      run sh files w = .exec (argv.map bytes) (appEnv files (original number spec))) ↔
      (∀ a argv, originalArgv (original number spec) image = .ok (a :: argv) →
        isOperand (bytes a) = true) ∧
        Clear sh files (original number spec) := by
  rw [horiginal] at hne hfiles ⊢
  obtain ⟨hnames, argv, hargv, hargvne, rfl⟩ := (wrapUnwrapped_eq_ok hne).mp hw
  exact runs_iff hargv hargvne hown hne (fun n hn => (hnames n hn).1) hfiles

theorem suits_of_faithful (h : Faithful number sh files image spec w) :
    Suits number sh files image spec := by
  have hrecognised := fun c => recognised_of_unwraps hw hne h.unwraps (c := c)
  have horiginal := @original_eq_unwrap number _ hrecognised
  obtain ⟨hagain, hchange⟩ := parts_iff hw hne horiginal
  obtain ⟨hcommand, hargs⟩ := hagain.mp h.again
  obtain ⟨hoperand, hclear⟩ := (runs_wrapped_iff hw hne hfiles hown horiginal).mp h.runs
  exact ⟨hrecognised, hchange.mp h.change, hcommand, hargs, hoperand, hclear⟩

theorem faithful_of_suits (h : Suits number sh files image spec) :
    Faithful number sh files image spec w := by
  have horiginal := @original_eq_unwrap number _ h.recognised
  obtain ⟨hagain, hchange⟩ := parts_iff hw hne horiginal
  refine
    { unwraps := by rw [unwrap_wrapped hw hne, horiginal]
      again := hagain.mpr ⟨h.command, h.args⟩
      change := hchange.mpr h.once
      planned := fun desired managed d hd v hv => hidden_applySecretVars hd hv
      wrapped := fun desired managed w' hw' d hd v hv => hidden_wrapped hw' hd hv
      bare := fun n hn v hv => ?_
      runs := (runs_wrapped_iff hw hne hfiles hown horiginal).mpr ⟨h.operand, h.clear⟩ }
  rw [horiginal] at hn ⊢
  obtain hlist | ⟨hmem, -⟩ := lookup_wrapUnwrapped hw hv
  · exact hlist
  · exact absurd hn hmem

/-- The shim keeps its promise of exactly the specs that suit it. -/
theorem faithful_iff : Faithful number sh files image spec w ↔ Suits number sh files image spec :=
  ⟨suits_of_faithful hw hne hfiles hown, faithful_of_suits hw hne hfiles hown⟩

end

/-! ## Two specs -/

/-- A service with one secret in its environment, and one variable beside it. -/
def webSpec (k v : String) : ServiceSpec where
  name := "shop_web"
  image := "ghcr.io/acme/web:1.2.3"
  mode := none
  env := some [(k, v)]
  command := some ["/app/server"]
  args := some ["--port", "8080"]
  labels := none
  mounts := none
  secrets := some [⟨"shop_web_DB_PASSWORD_v1", some "DB_PASSWORD", none, none, some (.int 0o444)⟩]
  configs := none
  ports := none
  restartPolicy := none
  updateConfig := none
  placement := none
  resources := none
  healthcheck := none
  stopGracePeriodNs := none
  networks := none
  secretEnv := some ["DB_PASSWORD"]
  secretEnvFileFallback := none

/-- A shell that hands on variables alone, and sets none. -/
def strictShell : Shell := ⟨fun _ => none, fun _ => false⟩

/-- Every file holds one line. -/
def oneLine : Files := fun _ => some (bytes "hunter2\n")

section

variable (number : List Char → Js.Num) (k v : String)

theorem original_webSpec : original number (webSpec k v) = webSpec k v := rfl

theorem unwrap_webSpec : unwrap number (webSpec k v) = webSpec k v := rfl

theorem secretNames_webSpec : secretNames (webSpec k v) = ["DB_PASSWORD"] := rfl

theorem wrapSecretEnv_webSpec : wrapSecretEnv number (webSpec k v) none =
    .ok (shimmed (webSpec k v) ["/app/server", "--port", "8080"]) := by
  rw [wrapSecretEnv, unwrap_webSpec,
    wrapUnwrapped_eq_ok (by rw [secretNames_webSpec]; exact List.cons_ne_nil _ _)]
  refine ⟨fun n hn => ?_, _, rfl, List.cons_ne_nil _ _, rfl⟩
  rw [secretNames_webSpec, List.mem_singleton] at hn
  rw [hn]
  exact ⟨by decide, List.mem_cons_self⟩

end

/-- The shim keeps its promise of a service with a variable `LOG`. -/
theorem faithful_log : Faithful (fun _ => .int 0) strictShell oneLine none (webSpec "LOG" "debug")
    (shimmed (webSpec "LOG" "debug") ["/app/server", "--port", "8080"]) := by
  refine (faithful_iff (wrapSecretEnv_webSpec _ "LOG" "debug") (List.cons_ne_nil _ _)
    (fun _ _ => rfl) rfl).mpr ⟨fun c hc _ => ?_, fun h => ?_, nofun, nofun, fun a argv h => ?_,
      ⟨fun n hn => ?_, fun n hn content h => ?_, fun k v hv _ _ => ?_⟩⟩
  · cases hc
  · obtain ⟨⟨c, hc⟩, -⟩ := h
    cases hc
  · obtain rfl := (List.cons.inj (Except.ok.inj h)).1
    decide
  · rw [original_webSpec, secretNames_webSpec, List.mem_singleton] at hn
    rw [hn]
    decide
  · rw [← Option.some.inj h]
    decide
  · change List.lookup k [("LOG", "debug")] = some v at hv
    rw [List.lookup_cons] at hv
    split at hv
    · rename_i hk
      rw [beq_iff_eq.mp hk]
      exact ⟨by decide, by decide, nofun⟩
    · cases hv

/-- A variable `v` is lost. -/
theorem not_alwaysFaithful : ¬ ∀ (number : List Char → Js.Num) (sh : Shell) (files : Files)
    (image : Option ImageArgv) (spec w : ServiceSpec), wrapSecretEnv number spec image = .ok w →
      secretNames (original number spec) ≠ [] →
      (∀ n ∈ secretNames (original number spec), (files (bytes (mountPath n))).isSome) →
      sh.own (bytes SECRET_ENV_VAR) = none → Faithful number sh files image spec w := by
  intro h
  have hfaithful := h (fun _ => .int 0) strictShell oneLine none (webSpec "v" "2") _
    (wrapSecretEnv_webSpec _ "v" "2") (List.cons_ne_nil _ _) (fun _ _ => rfl) rfl
  have hsuits := suits_of_faithful (wrapSecretEnv_webSpec _ "v" "2") (List.cons_ne_nil _ _)
      (fun _ _ => rfl) rfl
    hfaithful
  exact (hsuits.clear.env "v" "2" rfl (by decide) (by decide)).1 (by decide)

end Swarmy.SecretEnv
