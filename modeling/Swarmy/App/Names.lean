import Swarmy.App.Config
import Swarmy.Codec.Lines

/-!
# The names an app's things get

Volumes, stacks and preview hosts, as `desired.ts`, `environments.ts` and
`compile.ts` of the apps service name them.  Every one of these names is a part
and possibly another behind a dash, and a part may hold dashes itself:
`distinctNames_iff` says when two things share a name.
-/

namespace Swarmy.App

open Codec (joined joined_eq_iff)

/-! ## Volumes -/

/-- The synthetic unit swarmy adds for an app with `auth:`. -/
def authUnit : String := "swarmy-auth"

/-- The postgres resource the auth service uses; `none` for a volume of its own. -/
def authDatabase (cfg : AppConfig) : Option String :=
  match cfg.auth with
  | none => none
  | some a =>
    match a.database with
    | some db => some db
    | none =>
      match cfg.resources.filter (·.2 = .postgres) with
      | [r] => some r.1
      | _ => none

/-- The services of an app and their volumes, the auth service among them. -/
def servicesWithVolumes (cfg : AppConfig) : List (String × List (String × String)) :=
  cfg.services.map (fun s => (s.1, s.2.volumes)) ++
    match cfg.auth with
    | none => []
    | some _ =>
      [(authUnit, if (authDatabase cfg).isSome then [] else [("data", "/data")])]

/-- The compose volume a service's volume becomes. -/
def composeVolume (service volume : String) : String := service ++ "-" ++ volume

/-- The Docker volume: compose volumes get the stack's name in front. -/
def volumeName (stack service volume : String) : String :=
  stack ++ "_" ++ composeVolume service volume

/-- One service's name is the other's up to a dash, and its volume's name the rest. -/
def VolumeClash (service volume service' volume' : String) : Prop :=
  Codec.Extends service (some volume) service' (some volume') ∨
    Codec.Extends service' (some volume') service (some volume)

theorem volumeName_eq_iff {stack s v s' v' : String} (hne : (s, v) ≠ (s', v')) :
    volumeName stack s v = volumeName stack s' v' ↔ VolumeClash s v s' v' := by
  have hcompose : volumeName stack s v = volumeName stack s' v' ↔
      joined s (some v) = joined s' (some v') := by
    rw [volumeName, volumeName, ← String.toList_inj, ← String.toList_inj]
    simp [composeVolume, joined]
  rw [hcompose, joined_eq_iff, VolumeClash]
  apply or_iff_right
  rintro ⟨hs, hv⟩
  apply hne
  rw [hs, Option.some.inj hv]

/-! ## Stacks -/

/-- A pull request's preview, or a branch's. -/
inductive Preview where
  | pr (number : Nat)
  | branch (name : String)

/-- What a push deploys. -/
structure Target where
  app : String
  environment : String
  preview : Option Preview

section

variable (toLowerCase : String → String)

def environmentStack (app environment : String) : String :=
  if environment = production then app else app ++ "-" ++ environment

def previewStack (app : String) : Preview → String
  | .branch b => app ++ "-b-" ++ branchSlug toLowerCase b
  | .pr n => app ++ "-pr" ++ toString n

/-- The stack of a target, as `toDesired` names it. -/
def stackName (t : Target) : String :=
  match t.preview with
  | some p => previewStack toLowerCase t.app p
  | none => environmentStack t.app t.environment

/-- What a preview's stack has behind the app's name. -/
def previewStem : Preview → String
  | .branch b => "b-" ++ branchSlug toLowerCase b
  | .pr n => "pr" ++ toString n

/-- What a target's stack has behind the app's name. -/
def stem (t : Target) : Option String :=
  match t.preview with
  | some p => some (previewStem toLowerCase p)
  | none => if t.environment = production then none else some t.environment

theorem stackName_eq (t : Target) :
    stackName toLowerCase t = joined t.app (stem toLowerCase t) := by
  obtain ⟨app, environment, preview⟩ := t
  cases preview with
  | none =>
    simp only [stackName, stem, environmentStack]
    split <;> rfl
  | some p =>
    rw [← String.toList_inj]
    cases p <;> simp [stackName, stem, previewStack, previewStem, joined]

/-- An environment has the name a preview of the app gets behind the app's name. -/
def EnvironmentNamed (t t' : Target) : Prop :=
  t.preview = none ∧ ∃ p, t'.preview = some p ∧ t.environment = previewStem toLowerCase p

/-- Two previews of one app share a name: it is one preview, of two environments, or
two branches of one slug. -/
def PreviewsAlike (t t' : Target) : Prop :=
  (∃ p, t.preview = some p ∧ t'.preview = some p) ∨
    ∃ b b', t.preview = some (.branch b) ∧ t'.preview = some (.branch b') ∧
      branchSlug toLowerCase b = branchSlug toLowerCase b'

/-- Two targets share a stack: those of one app because an environment is named like a
preview, or two previews alike; those of two apps because one app's name is the
other's up to a dash in its stack's name. -/
def StackClash (t t' : Target) : Prop :=
  (t.app = t'.app ∧ (EnvironmentNamed toLowerCase t t' ∨ EnvironmentNamed toLowerCase t' t ∨
      PreviewsAlike toLowerCase t t')) ∨
    Codec.Extends t.app (stem toLowerCase t) t'.app (stem toLowerCase t') ∨
    Codec.Extends t'.app (stem toLowerCase t') t.app (stem toLowerCase t)

end

variable {toLowerCase : String → String}

variable {p : Preview} {cfg : AppConfig} {name : String}

theorem previewStem_eq_iff {p' : Preview} : previewStem toLowerCase p = previewStem toLowerCase p' ↔
      p = p' ∨ ∃ b b', p = .branch b ∧ p' = .branch b' ∧
        branchSlug toLowerCase b = branchSlug toLowerCase b' := by
  have hmixed (n : Nat) (s : String) : "pr" ++ toString n ≠ "b-" ++ s := by
    intro h
    have hl := congrArg String.toList h
    simp at hl
  constructor
  · intro h
    cases p with
    | branch b =>
      cases p' with
      | branch b' =>
        refine .inr ⟨b, b', rfl, rfl, ?_⟩
        have hl := congrArg String.toList h
        simpa [previewStem, String.toList_inj] using hl
      | pr n => exact absurd h.symm (hmixed n _)
    | pr n =>
      cases p' with
      | branch b' => exact absurd h (hmixed n _)
      | pr n' =>
        refine .inl (congrArg _ (Js.toString_injective ?_))
        have hl := congrArg String.toList h
        rw [← String.toList_inj]
        simpa only [previewStem, String.toList_append, List.append_cancel_left_eq] using hl
  · rintro (rfl | ⟨b, b', rfl, rfl, h⟩)
    · rfl
    · rw [previewStem, previewStem, h]

theorem previewStem_ne_production (p : Preview) : previewStem toLowerCase p ≠ production := by
  intro h
  have hl := congrArg String.toList h
  cases p with
  | branch b => simp [previewStem, production] at hl
  | pr n =>
    simp only [previewStem, production, String.toList_append] at hl
    have hdigits : (toString n).toList = ['o', 'd', 'u', 'c', 't', 'i', 'o', 'n'] := by
      simpa using hl
    have ho : 'o' ∈ Nat.toDigits 10 n := by
      rw [← String.toList_ofList (l := Nat.toDigits 10 n), ← Nat.toString_eq_ofList_toDigits,
        hdigits]
      exact List.mem_cons_self
    exact absurd (Nat.isDigit_of_mem_toDigits (by decide) (by decide) ho) (by decide)

theorem stackName_eq_iff {t t' : Target} (hne : t ≠ t') :
    stackName toLowerCase t = stackName toLowerCase t' ↔ StackClash toLowerCase t t' := by
  rw [stackName_eq, stackName_eq, joined_eq_iff, StackClash]
  refine or_congr_left (and_congr_right fun happ => ?_)
  obtain ⟨app, environment, preview⟩ := t
  obtain ⟨app', environment', preview'⟩ := t'
  -- An environment has a preview's stem when it is named so.
  have henv (e : String) (p : Preview) : (if e = production then none else some e) =
      some (previewStem toLowerCase p) ↔ e = previewStem toLowerCase p := by
    split
    case isTrue h =>
      simp only [reduceCtorEq, false_iff, h]
      exact (previewStem_ne_production p).symm
    case isFalse => exact Option.some_inj
  cases preview with
  | none =>
    cases preview' with
    | none =>
      simp only [stem, EnvironmentNamed, PreviewsAlike, reduceCtorEq, false_and, and_false,
        exists_false, or_self, iff_false]
      split <;> split <;> simp_all
    | some p' =>
      simp only [stem, henv]
      simp [EnvironmentNamed, PreviewsAlike]
  | some p =>
    cases preview' with
    | none =>
      simp only [stem, eq_comm (a := some _), henv]
      simp [EnvironmentNamed, PreviewsAlike]
    | some p' =>
      simp only [stem, Option.some_inj, previewStem_eq_iff]
      simp [EnvironmentNamed, PreviewsAlike, eq_comm]

/-! ## Preview hosts -/

section

variable (toLowerCase : String → String)

/-- The host label a preview's first routed service gets. -/
def previewLabel : Preview → String
  | .branch b => branchSlug toLowerCase b
  | .pr n => "pr-" ++ toString n

/-- The services as an environment has them; their domains are its own. -/
def resolveEnvironment (cfg : AppConfig) (environment : String) :
    Option (List (String × ServiceConfig)) :=
  if environment = production then some cfg.services
  else (cfg.environments.lookup environment).map fun e =>
    cfg.services.map fun s => (s.1, { s.2 with domains := e.domains.lookup s.1 })

/-- The domains that make a service web-facing in a preview; production's where the
environment has none. -/
def previewDomains (cfg : AppConfig) (name : String) (s : ServiceConfig) : List String :=
  (s.domains.or ((cfg.services.lookup name).bind (·.domains))).getD []

/-- One host per routed service; the first gets the label alone. -/
def previewHosts (cfg : AppConfig) (label base : String) :
    Bool → List (String × ServiceConfig) → List (String × String)
  | _, [] => []
  | first, (name, s) :: services =>
    if s.port.isNone then previewHosts cfg label base first services
    else if previewDomains cfg name s = [] then previewHosts cfg label base first services
    else (name, (if first then label else label ++ "-" ++ name) ++ "." ++ base) ::
      previewHosts cfg label base false services

/-- The hosts `toDesired` generates for a preview, by service. -/
def desiredHosts (cfg : AppConfig) (environment : String) (p : Preview) (base : String) :
    List (String × String) :=
  previewHosts cfg (previewLabel toLowerCase p) base true
    ((resolveEnvironment cfg environment).getD [])

/-- The services of a preview that get a host, in their order. -/
def routedServices (cfg : AppConfig) (services : List (String × ServiceConfig)) : List String :=
  (services.filter fun s => s.2.port.isSome && !(previewDomains cfg s.1 s.2).isEmpty).map (·.1)

/-- What a service's host has behind the preview's label: nothing for the first. -/
def hostStem (cfg : AppConfig) (environment service : String) : Option String :=
  if (routedServices cfg ((resolveEnvironment cfg environment).getD [])).head? = some service
  then none else some service

/-- Two previews share a host: on one base domain, their labels are equal and so is what
the services add, or one label is the other's up to a dash in its service's host. -/
def HostClash (cfg : AppConfig) (environment : String) (p : Preview) (base service : String)
    (cfg' : AppConfig) (environment' : String) (p' : Preview) (base' service' : String) : Prop :=
  base = base' ∧
    ((previewLabel toLowerCase p = previewLabel toLowerCase p' ∧
        hostStem cfg environment service = hostStem cfg' environment' service') ∨
      Codec.Extends (previewLabel toLowerCase p) (hostStem cfg environment service)
        (previewLabel toLowerCase p') (hostStem cfg' environment' service') ∨
      Codec.Extends (previewLabel toLowerCase p') (hostStem cfg' environment' service')
        (previewLabel toLowerCase p) (hostStem cfg environment service))

end

theorem isSlugChar_digit36 {d : Nat} (h : d < 36) : isSlugChar (digit36 d) = true := by
  revert d
  decide

theorem mem_base36 {fuel n : Nat} {digits : List Char} (hd : ∀ c ∈ digits, isSlugChar c = true) :
    ∀ c ∈ base36 fuel n digits, isSlugChar c = true := by
  induction fuel generalizing n digits with
  | zero => exact hd
  | succ fuel ih =>
    have hcons : ∀ c ∈ digit36 (n % 36) :: digits, isSlugChar c = true := by
      rw [List.forall_mem_cons]
      exact ⟨isSlugChar_digit36 (Nat.mod_lt _ (by decide)), hd⟩
    rw [base36]
    split
    · exact hcons
    · exact ih hcons

theorem mem_dashed {inRun : Bool} {cs : List Char} :
    ∀ c ∈ dashed inRun cs, isSlugChar c = true ∨ c = '-' := by
  induction cs generalizing inRun with
  | nil => simp [dashed]
  | cons c cs ih =>
    rw [dashed]
    split
    case isTrue h =>
      rw [List.forall_mem_cons]
      exact ⟨.inl h, ih⟩
    case isFalse =>
      split
      · exact ih
      · rw [List.forall_mem_cons]
        exact ⟨.inr rfl, ih⟩

theorem mem_trimEndDashes {cs : List Char} {c : Char} (h : c ∈ trimEndDashes cs) : c ∈ cs := by
  rw [trimEndDashes, List.mem_reverse] at h
  exact List.mem_reverse.1 ((List.dropWhile_sublist _).mem h)

theorem mem_slugBase {branch : String} :
    ∀ c ∈ slugBase toLowerCase branch, isSlugChar c = true ∨ c = '-' := fun c h =>
  mem_dashed c ((List.dropWhile_sublist _).mem (mem_trimEndDashes h))

/-- A slug is made of lowercase letters, digits and dashes. -/
theorem mem_branchSlug {branch : String} :
    ∀ c ∈ (branchSlug toLowerCase branch).toList, isSlugChar c = true ∨ c = '-' := by
  intro c h
  rw [branchSlug] at h
  split at h
  case isTrue => exact mem_slugBase c (by simpa using h)
  case isFalse =>
    simp only [String.toList_append, String.toList_ofList, List.mem_append] at h
    rcases h with (h | h) | h
    · exact mem_slugBase c (List.mem_of_mem_take (mem_trimEndDashes h))
    · exact .inr (by simpa using h)
    · have hd := List.mem_of_mem_take h
      rw [toBase36, String.toList_ofList] at hd
      exact .inl (mem_base36 (by simp) c hd)

theorem dot_not_mem_previewLabel (p : Preview) : '.' ∉ (previewLabel toLowerCase p).toList := by
  intro h
  cases p with
  | branch b => rcases mem_branchSlug _ h with h | h <;> revert h <;> decide
  | pr n =>
    simp only [previewLabel, String.toList_append, List.mem_append,
      Nat.toString_eq_ofList_toDigits, String.toList_ofList] at h
    rcases h with h | h
    · revert h
      decide
    · exact absurd (Nat.isDigit_of_mem_toDigits (by decide) (by decide) h) (by decide)

theorem dot_not_mem_of_unitNameRe {s : String} (h : unitNameRe s = true) : '.' ∉ s.toList := by
  intro hdot
  rw [unitNameRe, nameRe] at h
  cases hs : s.toList with
  | nil =>
    rw [hs] at hdot
    cases hdot
  | cons c cs =>
    simp only [hs, Bool.and_eq_true, List.all_eq_true] at h
    rw [hs] at hdot
    rcases List.mem_cons.1 hdot with rfl | hdot
    · exact absurd h.1.1 (by decide)
    · exact absurd (h.1.2 _ hdot) (by decide)

theorem mem_previewHosts {label base host : String} {first : Bool}
    {services : List (String × ServiceConfig)} (hn : (services.map (·.1)).Nodup)
    (h : (name, host) ∈ previewHosts cfg label base first services) :
    name ∈ services.map (·.1) ∧ host = joined label
      (if first = true ∧ (routedServices cfg services).head? = some name then none
        else some name) ++ "." ++ base := by
  induction services generalizing first with
  | nil => simp [previewHosts] at h
  | cons s services ih =>
    obtain ⟨n, s⟩ := s
    rw [List.map_cons, List.nodup_cons] at hn
    rw [previewHosts] at h
    by_cases hport : s.port.isNone = true
    · rw [if_pos hport] at h
      obtain ⟨hmem, hhost⟩ := ih hn.2 h
      refine ⟨List.mem_cons_of_mem _ hmem, ?_⟩
      rw [hhost, routedServices, routedServices, List.filter_cons_of_neg (by simp_all)]
    · rw [if_neg hport] at h
      by_cases hdom : previewDomains cfg n s = []
      · rw [if_pos hdom] at h
        obtain ⟨hmem, hhost⟩ := ih hn.2 h
        refine ⟨List.mem_cons_of_mem _ hmem, ?_⟩
        rw [hhost, routedServices, routedServices, List.filter_cons_of_neg (by simp_all)]
      · rw [if_neg hdom] at h
        have hhead : (routedServices cfg ((n, s) :: services)).head? = some n := by
          rw [routedServices, List.filter_cons_of_pos (by simp_all [Option.isSome_iff_ne_none])]
          rfl
        rcases List.mem_cons.1 h with h | h
        · obtain ⟨rfl, rfl⟩ := Prod.mk.inj h
          refine ⟨List.mem_cons_self, ?_⟩
          cases first <;> simp [hhead, joined]
        · obtain ⟨hmem, hhost⟩ := ih hn.2 h
          have hne : n ≠ name := fun he => hn.1 (he ▸ hmem)
          refine ⟨List.mem_cons_of_mem _ hmem, ?_⟩
          rw [hhost, if_neg (by simp), if_neg (by simp [hhead, hne])]

theorem resolveEnvironment_names (cfg : AppConfig) (environment : String) :
    (((resolveEnvironment cfg environment).getD []).map (·.1)).Sublist
    (cfg.services.map (·.1)) := by
  unfold resolveEnvironment
  split
  · exact List.Sublist.refl _
  · cases cfg.environments.lookup environment with
    | none => exact List.nil_sublist _
    | some e => simp [Function.comp_def]

/-- A service's host in a preview. -/
theorem mem_desiredHosts {environment base host : String}
    (h : (name, host) ∈ desiredHosts toLowerCase cfg environment p base) :
    unitNameRe name = true ∧ host =
      joined (previewLabel toLowerCase p) (hostStem cfg environment name) ++ "." ++ base := by
  have hsub := resolveEnvironment_names cfg environment
  obtain ⟨hmem, hhost⟩ := mem_previewHosts (cfg.services_nodup.sublist hsub) h
  obtain ⟨s, hs, rfl⟩ := List.mem_map.1 (hsub.mem hmem)
  refine ⟨cfg.services_ok s hs, ?_⟩
  rw [hhost, hostStem]
  simp only [true_and]

theorem dot_not_mem_joined {environment : String} (h : unitNameRe name = true) :
    '.' ∉ (joined (previewLabel toLowerCase p) (hostStem cfg environment name)).toList := by
  have hlabel : '.' ∉ (previewLabel toLowerCase p).toList := dot_not_mem_previewLabel p
  have hname := dot_not_mem_of_unitNameRe h
  unfold hostStem
  split
  · exact hlabel
  · simp [joined, hlabel, hname]

theorem host_eq_iff {cfg' : AppConfig} {environment environment' base base' : String}
    {name' host host' : String} {p' : Preview}
    (h : (name, host) ∈ desiredHosts toLowerCase cfg environment p base)
    (h' : (name', host') ∈ desiredHosts toLowerCase cfg' environment' p' base') :
    host = host' ↔ HostClash toLowerCase cfg environment p base name
      cfg' environment' p' base' name' := by
  obtain ⟨hname, rfl⟩ := mem_desiredHosts h
  obtain ⟨hname', rfl⟩ := mem_desiredHosts h'
  rw [Codec.append_dot_inj (dot_not_mem_joined hname) (dot_not_mem_joined hname'), joined_eq_iff,
    HostClash, and_comm]

/-! ## An organisation's names -/

/-- One of an organisation's apps, with the preview domain its repository has for
configs that name none. -/
structure OrgApp where
  config : AppConfig
  previewDomain : Option String

/-- The domain the previews of an app are under. -/
def OrgApp.base (a : OrgApp) : Option String := a.config.baseDomain.or a.previewDomain

/-- The target is one the app can have.  Without a domain there are no previews.  A pull
request may be against an environment's branch; a branch preview is always
production's, and a trial deploy previews any branch. -/
def Target.Of (a : OrgApp) (t : Target) : Prop :=
  t.app = a.config.app ∧
    (t.environment = production ∨ t.environment ∈ a.config.environments.map (·.1)) ∧
    match t.preview with
    | none => True
    | some (.pr n) => a.base.isSome ∧ a.config.previewsEnabled = true ∧ 0 < n
    | some (.branch b) => a.base.isSome ∧ t.environment = production ∧ b ≠ ""

/-- The service has that host in the target's preview. -/
def HasHost (toLowerCase : String → String) (a : OrgApp) (t : Target) (service host : String) :
    Prop :=
  t.Of a ∧ ∃ p base, t.preview = some p ∧ a.base = some base ∧
    (service, host) ∈ desiredHosts toLowerCase a.config t.environment p base

/-- The service has a volume of that name. -/
def HasVolume (cfg : AppConfig) (service volume : String) : Prop :=
  ∃ vs, (service, vs) ∈ servicesWithVolumes cfg ∧ volume ∈ vs.map (·.1)

/-- The previews' hosts clash, for two apps and targets of theirs. -/
def TargetHostClash (toLowerCase : String → String) (a : OrgApp) (t : Target) (service : String)
    (a' : OrgApp) (t' : Target) (service' : String) : Prop :=
  ∃ p p' base base', t.preview = some p ∧ t'.preview = some p' ∧ a.base = some base ∧
    a'.base = some base' ∧ HostClash toLowerCase a.config t.environment p base service
      a'.config t'.environment p' base' service'

/-- Distinct things of the organisation have distinct names: the volumes of an app, the
targets, the services of previews. -/
structure DistinctNames (org : List OrgApp) (toLowerCase : String → String) : Prop where
  volume : ∀ a ∈ org, ∀ s v s' v', HasVolume a.config s v → HasVolume a.config s' v' →
    (s, v) ≠ (s', v') → ∀ stack, volumeName stack s v ≠ volumeName stack s' v'
  stack : ∀ a ∈ org, ∀ a' ∈ org, ∀ t t', t.Of a → t'.Of a' → t ≠ t' →
    stackName toLowerCase t ≠ stackName toLowerCase t'
  host : ∀ a ∈ org, ∀ a' ∈ org, ∀ t t' s s' x x', HasHost toLowerCase a t s x →
    HasHost toLowerCase a' t' s' x' → (t, s) ≠ (t', s') → x ≠ x'

theorem hasHost_ne_iff {a a' : OrgApp} {t t' : Target} {s s' host host' : String}
    (h : HasHost toLowerCase a t s host) (h' : HasHost toLowerCase a' t' s' host') :
    host ≠ host' ↔ ¬ TargetHostClash toLowerCase a t s a' t' s' := by
  obtain ⟨-, p, base, hp, hb, hmem⟩ := h
  obtain ⟨-, p', base', hp', hb', hmem'⟩ := h'
  rw [Ne, host_eq_iff hmem hmem']
  refine not_congr ⟨fun hc => ⟨p, p', base, base', hp, hp', hb, hb', hc⟩, ?_⟩
  rintro ⟨q, q', b, b', hq, hq', hbq, hbq', hc⟩
  obtain rfl := Option.some.inj (hp.symm.trans hq)
  obtain rfl := Option.some.inj (hp'.symm.trans hq')
  obtain rfl := Option.some.inj (hb.symm.trans hbq)
  obtain rfl := Option.some.inj (hb'.symm.trans hbq')
  exact hc

/-- Two volumes of an app, two targets of an organisation and two services of its
previews have distinct names exactly when they do not clash. -/
theorem distinctNames_iff (org : List OrgApp) (toLowerCase : String → String) :
    (∀ a ∈ org, ∀ s v s' v', HasVolume a.config s v → HasVolume a.config s' v' → (s, v) ≠ (s', v') →
      ∀ stack, volumeName stack s v ≠ volumeName stack s' v' ↔ ¬ VolumeClash s v s' v') ∧
    (∀ a ∈ org, ∀ a' ∈ org, ∀ t t', t.Of a → t'.Of a' → t ≠ t' →
      (stackName toLowerCase t ≠ stackName toLowerCase t' ↔ ¬ StackClash toLowerCase t t')) ∧
    ∀ a ∈ org, ∀ a' ∈ org, ∀ t t' s s' x x', HasHost toLowerCase a t s x →
      HasHost toLowerCase a' t' s' x' → (t, s) ≠ (t', s') →
        (x ≠ x' ↔ ¬ TargetHostClash toLowerCase a t s a' t' s') := by
  refine ⟨?_, ?_, ?_⟩
  · intro a _ s v s' v' _ _ hne stack
    exact not_congr (volumeName_eq_iff hne)
  · intro a _ a' _ t t' _ _ hne
    exact not_congr (stackName_eq_iff hne)
  · intro a _ a' _ t t' s s' x x' hx hx' _
    exact hasHost_ne_iff hx hx'

/-- An app whose service `web` keeps a volume `cache-data`, and whose service
`web-cache` keeps one called `data`. -/
def twoCaches : AppConfig where
  app := "shop"
  services := [
    ("web", ⟨some 3000, some ["shop.example.com"], [("cache-data", "/var/cache")]⟩),
    ("web-cache", ⟨none, none, [("data", "/data")]⟩)]
  resources := []
  environments := []
  auth := none
  previewsEnabled := false
  baseDomain := none
  app_ok := by decide
  services_ok := by decide
  services_nodup := by decide
  volumes_ok := by decide
  volumes_nodup := by decide
  environments_ok := by simp
  auth_ok := by simp

/-- The two services of that app share one Docker volume. -/
theorem distinctNames_sharedVolume :
    ¬ ∀ (org : List OrgApp) (toLowerCase : String → String), DistinctNames org toLowerCase := by
  intro h
  refine (h [⟨twoCaches, none⟩] String.toLower).volume ⟨twoCaches, none⟩ List.mem_cons_self
    "web" "cache-data" "web-cache" "data" ⟨[("cache-data", "/var/cache")], ?_, ?_⟩
    ⟨[("data", "/data")], ?_, ?_⟩ ?_ "shop" ?_
  all_goals decide

end Swarmy.App
