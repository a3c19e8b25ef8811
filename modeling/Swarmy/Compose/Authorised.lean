import Swarmy.Compose.Stack

/-!
# What is authorised and what is deployed

The labels the check of a compose deploy looks at, against the labels of the
services it deploys.  The check reads the text as it was submitted, so the two agree
where interpolation has nothing to do and both readers understand every entry:
`PlainLabels`.
-/

namespace Swarmy.Compose

open List Option AList

open Js (Value Fields)
open Swarmy.Abac (Resource resourceEnv normaliseEnv envLabel appEnvLabel production)

/-! ## Records -/

namespace Labels

theorem get_fields (ls : Labels) (k : String) :
    Fields.get ls.fields k = (ls.lookup k).map .str := by
  obtain ⟨es, hes⟩ := ls
  show (es.map fun e => (e.1, Value.str e.2)).lookup k = (es.dlookup k).map .str
  clear hes
  induction es with
  | nil => rfl
  | cons e es ih =>
    obtain ⟨a, b⟩ := e
    by_cases h : k = a
    · subst h
      rw [map_cons, lookup_cons, beq_self_eq_true, dlookup_cons_eq]
      rfl
    · rw [map_cons, lookup_cons, beq_eq_false_iff_ne.mpr h,
        dlookup_cons_ne _ _ h]
      exact ih

theorem lookup_union (a b : Labels) (k : String) :
    (a ∪ b).lookup k = (a.lookup k).or (b.lookup k) := by
  by_cases h : k ∈ a
  · rw [lookup_union_left h]
    obtain ⟨v, hv⟩ := isSome_iff_exists.mp (lookup_isSome.mpr h)
    rw [hv, some_or]
  · rw [lookup_union_right h, lookup_eq_none.mpr h, none_or]

end Labels

/-- The value the last of some records to have a key gives it. -/
def lastLabel (k : String) (ls : List Labels) : Option String :=
  ls.foldl (fun r own => (own.lookup k).or r) none

theorem lookup_assignAll (ls : List Labels) (k : String) :
    (assignAll ls).lookup k = lastLabel k ls := by
  suffices h : ∀ acc : Labels, (ls.foldl (fun merged own => own ∪ merged) acc).lookup k =
      ls.foldl (fun r own => (own.lookup k).or r) (acc.lookup k) from h ∅
  induction ls with
  | nil => exact fun _ => rfl
  | cons l ls ih =>
    intro acc
    rw [foldl_cons, foldl_cons, ih, Labels.lookup_union]

theorem lastLabel_congr {k : String} {α : Type} {f g : α → Labels}
    (h : ∀ a, (f a).lookup k = (g a).lookup k) (as : List α) :
    lastLabel k (as.map f) = lastLabel k (as.map g) := by
  suffices hs : ∀ r, (as.map f).foldl (fun r own => (own.lookup k).or r) r =
      (as.map g).foldl (fun r own => (own.lookup k).or r) r from hs none
  induction as with
  | nil => exact fun _ => rfl
  | cons a as ih =>
    intro r
    rw [map_cons, map_cons, foldl_cons, foldl_cons, h, ih]

/-! ## Both readers -/

/-- No property of the value has the name of the prototype, so that its interpolation
inherits none. -/
def NoPrototype : Value → Prop
  | .obj fields => ∀ f ∈ fields, f.1 ≠ protoKey
  | _ => True

/-- Labels both readers take alike: strings `key=value` without a `$`, or a mapping to
values that are there and have no `$`. -/
def PlainEntries : Value → Prop
  | .arr elems => ∀ e ∈ elems, ∃ s k v, e = .str s ∧ '$' ∉ s.toList ∧ splitEq s = some (k, v) ∧
      k ≠ "" ∧ k ≠ protoKey
  | .obj fields => ∀ f ∈ fields, f.1 ≠ protoKey ∧ f.2 ≠ .null ∧ Plain f.2
  | _ => True

/-- Both label sets of a service are plain. -/
def PlainService (svc : Value) : Prop :=
  NoPrototype svc ∧ (∀ l, svc.field "labels" = some l → PlainEntries l) ∧
    ∀ d, svc.field "deploy" = some d → NoPrototype d ∧
      ∀ l, d.field "labels" = some l → PlainEntries l

/-- Every label of the document is plain. -/
def PlainLabels (doc : Value) : Prop :=
  NoPrototype doc ∧ (∀ svcs, doc.field "services" = some svcs → NoPrototype svcs) ∧
    ∀ svc ∈ servicesOf doc, PlainService svc

section

variable {vars : Variables} {v w : Value}

theorem listOrDictEntries_arr {vs ws : List Value} (h : List.Forall₂ (Interpolates vars) vs ws)
    (hp : PlainEntries (.arr vs)) :
    listOrDictEntries (some (.arr ws)) = labelsOfEntries (some (.arr vs)) := by
  show ws.map _ = vs.filterMap _
  induction h with
  | nil => rfl
  | @cons v w vs ws hvw _ ih =>
    obtain ⟨s, k, t, rfl, hs, hsplit, hk, -⟩ := hp v mem_cons_self
    obtain ⟨t', rfl, ht'⟩ := hvw.str
    obtain rfl := ht' hs
    rw [map_cons, filterMap_cons, ih fun e he => hp e (mem_cons_of_mem _ he)]
    simp only [Value.text, hsplit, getD_some, filter_some]
    rw [if_pos (by simpa using hk)]

theorem listOrDictEntries_obj {fs gs : List (String × Value)}
    (h : List.Forall₂ (fun f g => f.1 = g.1 ∧ Interpolates vars f.2 g.2) fs gs)
    (hp : PlainEntries (.obj fs)) :
    listOrDictEntries (some (.obj gs)) = labelsOfEntries (some (.obj fs)) := by
  show gs.map _ = fs.filterMap _
  induction h with
  | nil => rfl
  | @cons f g fs gs hfg _ ih =>
    obtain ⟨k, v⟩ := f
    obtain ⟨k', w⟩ := g
    obtain ⟨rfl, hvw⟩ := hfg
    obtain ⟨-, hnull, hplain⟩ := hp _ mem_cons_self
    have hw : w = v := hvw.plain hplain
    subst hw
    rw [map_cons, filterMap_cons, ih fun e he => hp e (mem_cons_of_mem _ he)]
    cases w with
    | null => exact absurd rfl hnull
    | _ => rfl

/-- Interpolation leaves the keys as they are. -/
theorem forall_key {fs gs : List (String × Value)} {p : String → Prop}
    (h : List.Forall₂ (fun f g => f.1 = g.1 ∧ Interpolates vars f.2 g.2) fs gs)
    (hp : ∀ f ∈ fs, p f.1) : ∀ g ∈ gs, p g.1 := by
  induction h with
  | nil => simp
  | cons hfg _ ih =>
    intro g hg
    rcases mem_cons.mp hg with rfl | hg
    · exact hfg.1 ▸ hp _ mem_cons_self
    · exact ih (fun f hf => hp f (mem_cons_of_mem _ hf)) g hg

/-- The reader of the deploy finds in a plain value what the check's reader finds. -/
theorem listOrDict_eq (h : Interpolates vars v w) (hp : PlainEntries v) :
    listOrDict (some w) = labelsOf (some v) := by
  have he : listOrDictEntries (some w) = labelsOfEntries (some v) := by
    cases v with
    | arr vs =>
      obtain ⟨ws, rfl, hws⟩ := h.arr
      exact listOrDictEntries_arr hws hp
    | obj fs =>
      obtain ⟨gs, rfl, hgs⟩ := h.obj
      have hkeys : ∀ f ∈ fs, f.1 ≠ protoKey := fun f hf => (hp f hf).1
      rw [assigned_eq_self (forall_key (p := (· ≠ protoKey)) hgs hkeys)]
      exact listOrDictEntries_obj hgs hp
    | str s =>
      obtain ⟨t, rfl, -⟩ := h.str
      rfl
    | null | bool _ | num _ =>
      rw [h.scalar (by simp) (by simp) (by simp)]
      rfl
  rw [listOrDict, labelsOf, he]

theorem listOrDict_labels (h : Interpolates vars v w)
    (hp : ∀ l, v.field "labels" = some l → PlainEntries l) :
    listOrDict (w.field "labels") = labelsOf (v.field "labels") := by
  rcases h.field (by decide : "labels" ≠ protoKey) with ⟨hv, hw⟩ | ⟨x, y, hv, hw, hxy⟩
  · rw [hv, hw]
    rfl
  · rw [hv, hw]
    exact listOrDict_eq hxy (hp x hv)

theorem deployedLabels_eq (stack : String) (h : Interpolates vars v w) (hp : PlainService v) :
    deployedLabels stack w = (ownLabels v).insert stackNamespaceLabel stack := by
  have hdeploy : listOrDict ((w.field "deploy").bind (·.field "labels")) =
      labelsOf ((v.field "deploy").bind (·.field "labels")) := by
    rcases h.field (by decide : "deploy" ≠ protoKey) with ⟨hv, hw⟩ | ⟨x, y, hv, hw, hxy⟩
    · rw [hv, hw]
      rfl
    · rw [hv, hw]
      exact listOrDict_labels hxy (hp.2.2 x hv).2
  rw [deployedLabels, ownLabels, hdeploy, listOrDict_labels h hp.2.1]

/-- Only a mapping interpolates to a mapping. -/
theorem Interpolates.of_obj {gs : List (String × Value)} (h : Interpolates vars v (.obj gs)) :
    ∃ fs gs', v = .obj fs ∧ gs = assigned gs' ∧
      List.Forall₂ (fun f g => f.1 = g.1 ∧ Interpolates vars f.2 g.2) fs gs' := by
  cases v with
  | obj fs =>
    obtain ⟨gs', he, hgs⟩ := h.obj
    cases he
    exact ⟨fs, gs', rfl, rfl, hgs⟩
  | arr vs =>
    obtain ⟨ws, he, -⟩ := h.arr
    cases he
  | str s =>
    obtain ⟨t, he, -⟩ := h.str
    cases he
  | null | bool _ | num _ => cases h.scalar (by simp) (by simp) (by simp)

theorem composeToStack_labels {stack : String} {specs : List ServiceSpec}
    (h : Interpolates vars v w) (hp : PlainLabels v) (hok : composeToStack w stack = .ok specs) :
    specs.map (·.labels) =
      (servicesOf v).map fun svc => (ownLabels svc).insert stackNamespaceLabel stack := by
  unfold composeToStack at hok
  split at hok
  · next g gs hw =>
    obtain ⟨_, -, rfl⟩ := map_ok hok
    rcases h.field (by decide : "services" ≠ protoKey) with ⟨-, hnone⟩ | ⟨x, y, hv, hw', hxy⟩
    · rw [hnone] at hw
      cases hw
    · obtain rfl := some.inj (hw'.symm.trans hw)
      obtain ⟨fs, gs', rfl, hgs, hfs⟩ := hxy.of_obj
      obtain ⟨-, hproto, hp⟩ := hp
      rw [servicesOf, hv] at hp
      rw [servicesOf, hv]
      have hkeys : ∀ f ∈ fs, f.1 ≠ protoKey := hproto _ hv
      rw [assigned_eq_self (forall_key (p := (· ≠ protoKey)) hfs hkeys)] at hgs
      rw [hgs]
      clear hgs
      show (gs'.map _).map _ = (fs.map _).map _
      clear hv hw hw' hok hxy hproto hkeys
      induction hfs with
      | nil => rfl
      | @cons f g fs gs hfg _ ih =>
        rw [map_cons, map_cons, map_cons, map_cons,
          ih fun svc hsvc => hp svc (mem_cons_of_mem _ hsvc)]
        exact congrArg (· :: _) (deployedLabels_eq stack hfg.2 (hp _ mem_cons_self))
  · cases hok

theorem planComposeStack_labels {parseYaml : String → Option Value} {source stack : String}
    {specs : List ServiceSpec} (hok : planComposeStack parseYaml source stack vars = .ok specs)
    (hp : ∀ doc, parseYaml source = some doc → PlainLabels doc) :
    ∃ doc, parseYaml source = some doc ∧ (∃ fs, doc = .obj fs) ∧ specs.map (·.labels) =
      (servicesOf doc).map fun svc => (ownLabels svc).insert stackNamespaceLabel stack := by
  unfold planComposeStack parseComposeDoc at hok
  split at hok
  · next fs hparse =>
    have hstep : (interpolateDoc (.obj fs) vars).bind (composeToStack · stack) = .ok specs := hok
    unfold interpolateDoc interpolateCompose at hstep
    cases hw : walk vars "" (.obj fs) with
    | error e =>
      rw [hw] at hstep
      cases hstep
    | ok r =>
      rw [hw] at hstep
      exact ⟨_, hparse, ⟨fs, rfl⟩,
        composeToStack_labels ⟨"", r.2, hw⟩ (hp _ hparse) hstep⟩
  · cases hok
  · cases hok

end

/-! ## The resource -/

section

variable (toLowerCase : String → String)

theorem isProduction_eq (ls : Labels) : isProduction toLowerCase ls =
    ((normaliseEnv toLowerCase ((ls.lookup envLabel).map .str)).or
      (normaliseEnv toLowerCase ((ls.lookup appEnvLabel).map .str)) == some production) := by
  rw [isProduction, resourceEnv, Labels.get_fields, Labels.get_fields]

/-- The namespace says nothing about the environment. -/
theorem isProduction_insert_namespace (ls : Labels) (stack : String) :
    isProduction toLowerCase (ls.insert stackNamespaceLabel stack) =
      isProduction toLowerCase ls := by
  rw [isProduction_eq, isProduction_eq, lookup_insert_ne (by decide),
    lookup_insert_ne (by decide)]

variable {toLowerCase}
variable (hlower : ∀ s : String, (∀ c ∈ s.toList, c.toNat < 128) → toLowerCase s = s.toLower)

include hlower

theorem isProduction_of_lookup {ls : Labels} (h : ls.lookup envLabel = some production) :
    isProduction toLowerCase ls = true := by
  have htrim : Js.trim production = production := by decide
  have hascii : ∀ c ∈ production.toList, c.toNat < 128 := by
    intro c hc
    have hall : production.toList.all fun c => c.toNat < 128 := by decide
    exact of_decide_eq_true (all_eq_true.mp hall c hc)
  have hlow : toLowerCase production = production :=
    (hlower production hascii).trans (by decide +kernel)
  have hn : normaliseEnv toLowerCase (some (.str production)) = some production := by
    show (if toLowerCase (Js.trim production) = "" then none
      else some ((Abac.envAliases (toLowerCase (Js.trim production))).getD _)) = _
    rw [htrim, hlow]
    rfl
  rw [isProduction_eq, h, map_some, hn, some_or]
  exact beq_self_eq_true _

omit hlower in
/-- One production service makes the union production. -/
theorem lookup_unionLabels_env {ls : List Labels} {own : Labels} (hmem : own ∈ ls)
    (h : isProduction toLowerCase own = true) :
    (unionLabels toLowerCase ls).lookup envLabel = some production := by
  rw [unionLabels, if_pos (any_eq_true.mpr ⟨own, hmem, h⟩), lookup_insert]

omit hlower in
theorem lookup_unionLabels (ls : List Labels) {k : String} (hk : k ≠ envLabel) :
    (unionLabels toLowerCase ls).lookup k = lastLabel k ls := by
  unfold unionLabels
  split
  · rw [lookup_insert_ne hk, lookup_assignAll]
  · rw [lookup_assignAll]

omit hlower in
/-- What the check sees of the live services. -/
theorem lookup_live (inventory : List Labels) (name : String) {k : String} (hk : k ≠ envLabel) :
    ((liveStackLabels toLowerCase inventory name).getD ∅).lookup k =
      lastLabel k (members inventory name) := by
  unfold liveStackLabels
  dsimp only
  split
  · next h =>
    rw [isEmpty_iff.mp h]
    rfl
  · exact lookup_unionLabels _ hk

omit hlower in
/-- The text, with the labels its services have in it. -/
theorem composeLabels_of_parse {parseYaml : String → Option Value} {source : String} {doc : Value}
    (h : parseYaml source = some doc) : composeLabels toLowerCase parseYaml source =
      unionLabels toLowerCase ((servicesOf doc).map ownLabels) := by
  rw [composeLabels, h]

end

/-- A compose deploy whose labels are plain is authorised with what it deploys: on a
stack that it makes production or that has a live production service the check is one
on production, and under every other label the resource has what the last live service
with that label has, else what the last deployed one has. -/
theorem authorised_of_plainLabels (toLowerCase : String → String)
    (hlower : ∀ s : String, (∀ c ∈ s.toList, c.toNat < 128) → toLowerCase s = s.toLower)
    (parseYaml : String → Option Value) (hempty : parseYaml "" = some .null)
    (source name orgId : String) (row : Option String) (vars : Variables) (inventory : List Labels)
    (specs : List ServiceSpec) (hplan : planComposeStack parseYaml source name vars = .ok specs)
    (hplain : ∀ doc, parseYaml source = some doc → PlainLabels doc) :
    let resource := stackResource toLowerCase parseYaml inventory row orgId name (some source)
    ((∃ spec ∈ specs, resourceEnv toLowerCase none (Labels.fields spec.labels) = some production) →
      resourceEnv toLowerCase resource.env resource.labels = some production) ∧
    ((∃ live ∈ members inventory name,
        resourceEnv toLowerCase none (Labels.fields live) = some production) →
      resourceEnv toLowerCase resource.env resource.labels = some production) ∧
    ∀ k, k ≠ envLabel → k ≠ stackNamespaceLabel →
      Fields.get resource.labels k = ((lastLabel k (members inventory name)).or
        (lastLabel k (specs.map (·.labels)))).map .str := by
  obtain ⟨doc, hparse, ⟨fs, hfs⟩, hlabels⟩ := planComposeStack_labels hplan hplain
  have hsource : source ≠ "" := by
    rintro rfl
    rw [hempty, hfs] at hparse
    cases hparse
  set live := (liveStackLabels toLowerCase inventory name).getD ∅ with hlive
  set incoming := unionLabels toLowerCase ((servicesOf doc).map ownLabels) with hincoming
  set labels : Labels := if isProduction toLowerCase incoming then
    (live ∪ incoming).insert envLabel production else live ∪ incoming with hl
  have hres : (stackResource toLowerCase parseYaml inventory row orgId name (some source)).labels =
      Labels.fields labels := by
    rw [hl, hincoming, ← composeLabels_of_parse hparse, stackResource]
    rw [if_neg hsource]
  have henv : (stackResource toLowerCase parseYaml inventory row orgId name (some source)).env =
      none := rfl
  have hprod : labels.lookup envLabel = some production →
      resourceEnv toLowerCase none (Labels.fields labels) = some production := fun h =>
    eq_of_beq (isProduction_of_lookup hlower h)
  dsimp only
  rw [hres, henv]
  refine ⟨?_, ?_, fun k hk hk' => ?_⟩
  · rintro ⟨spec, hspec, hp⟩
    have hmem : spec.labels ∈ specs.map (·.labels) := mem_map_of_mem hspec
    rw [hlabels] at hmem
    obtain ⟨svc, hsvc, heq⟩ := mem_map.mp hmem
    have hown : isProduction toLowerCase (ownLabels svc) = true := by
      rw [← isProduction_insert_namespace toLowerCase _ name, heq]
      exact beq_iff_eq.mpr hp
    have hin : isProduction toLowerCase incoming = true :=
      isProduction_of_lookup hlower (lookup_unionLabels_env (mem_map_of_mem hsvc) hown)
    refine hprod ?_
    rw [hl, if_pos hin, lookup_insert]
  · rintro ⟨own, hown, hp⟩
    have hlookup : live.lookup envLabel = some production := by
      have hne : (members inventory name).isEmpty = false := by
        rw [isEmpty_eq_false_iff]
        exact ne_nil_of_mem hown
      rw [hlive, liveStackLabels, hne, if_neg Bool.false_ne_true, getD_some]
      exact lookup_unionLabels_env hown (beq_iff_eq.mpr hp)
    refine hprod ?_
    rw [hl]
    split
    · exact lookup_insert _
    · rw [Labels.lookup_union, hlookup, some_or]
  · have hlast : lastLabel k (specs.map (·.labels)) =
        lastLabel k ((servicesOf doc).map ownLabels) := by
      rw [hlabels]
      exact lastLabel_congr (fun svc => lookup_insert_ne hk') _
    have hunion : labels.lookup k = (live ∪ incoming).lookup k := by
      rw [hl]
      split
      · exact lookup_insert_ne hk
      · rfl
    rw [Labels.get_fields, hunion, Labels.lookup_union, hlive, lookup_live _ _ hk, hincoming,
      lookup_unionLabels _ hk, hlast]

/-- A compose document of one service with one label. -/
def oneService (key value : String) : Value :=
  .obj [("services", .obj [("web", .obj [("image", .str "nginx"),
    ("labels", .obj [(key, .str value)])])])]

/-- A parser that reads every text but the empty one as this document. -/
def parseAs (doc : Value) (source : String) : Option Value :=
  if source = "" then some .null else some doc

/-- A live service of the stack `shop`. -/
def liveService (key value : String) : Labels :=
  (AList.singleton key value).insert stackNamespaceLabel "shop"

theorem exists_ok {ε α : Type} {x : Except ε α} {p : α → Bool} (h : x.toOption.any p = true) :
    ∃ a, x = .ok a ∧ p a = true := by
  cases x with
  | error e => cases h
  | ok a => exact ⟨a, rfl, h⟩

/-- Is one of the services a production service? -/
def anyProduction (specs : List ServiceSpec) : Bool :=
  specs.any fun spec => isProduction String.toLower spec.labels

theorem exists_production {specs : List ServiceSpec} (h : anyProduction specs = true) :
    ∃ spec ∈ specs,
      resourceEnv String.toLower none (Labels.fields spec.labels) = some production := by
  obtain ⟨spec, hspec, hp⟩ := any_eq_true.mp h
  exact ⟨spec, hspec, eq_of_beq hp⟩

/-- Two services, of which one is a production service. -/
def twoServices : Value :=
  .obj [("services", .obj [
    ("web", .obj [("image", .str "nginx"),
      ("labels", .obj [(envLabel, .str "prod"), ("tier", .str "public")])]),
    ("jobs", .obj [("image", .str "nginx"),
      ("labels", .obj [("tier", .str "internal"), ("team", .str "ops")])])])]

theorem plainLabels_twoServices : PlainLabels twoServices := by
  refine ⟨by simp [twoServices, NoPrototype, protoKey], ?_, ?_⟩
  · intro svcs hsvcs
    obtain rfl := some.inj hsvcs
    simp [NoPrototype, protoKey]
  intro svc hsvc
  rcases mem_pair.mp hsvc with rfl | rfl
  all_goals
    refine ⟨by simp [NoPrototype, protoKey], fun l hl => ?_, fun d hd => by cases hd⟩
    obtain rfl := some.inj hl
    intro f hf
    rcases mem_pair.mp hf with rfl | rfl
  all_goals exact ⟨by decide, by simp, by rw [Plain]; decide⟩

/-- The deploy of both onto a stack with a live service is one on production, with the tier that
is live and the team that is not. -/
theorem authorised_twoServices :
    let resource := stackResource String.toLower (parseAs twoServices)
      [liveService "tier" "restricted"] none "org" "shop" (some "yaml")
    resourceEnv String.toLower resource.env resource.labels = some production ∧
      Fields.get resource.labels "tier" = some (.str "restricted") ∧
      Fields.get resource.labels "team" = some (.str "ops") := by
  have hplan : (planComposeStack (parseAs twoServices) "yaml" "shop" ∅).toOption.any
      (fun specs => anyProduction specs &&
        lastLabel "team" (specs.map (·.labels)) == some "ops") = true := by
    decide +kernel
  obtain ⟨specs, hok, hp⟩ := exists_ok hplan
  obtain ⟨hprod, hteam⟩ := Bool.and_eq_true_iff.mp hp
  have hsource : ∀ doc, parseAs twoServices "yaml" = some doc → PlainLabels doc := by
    intro doc hdoc
    obtain rfl : twoServices = doc := some.inj hdoc
    exact plainLabels_twoServices
  obtain ⟨henv, -, hlabel⟩ := authorised_of_plainLabels String.toLower (fun _ _ => rfl)
    (parseAs twoServices) rfl "yaml" "shop" "org" none ∅ [liveService "tier" "restricted"] specs
    hok hsource
  refine ⟨henv (exists_production hprod), ?_, ?_⟩
  · rw [hlabel "tier" (by decide) (by decide)]
    rfl
  · rw [hlabel "team" (by decide) (by decide), eq_of_beq hteam]
    rfl

/-- A label that a variable makes `production` is deployed and not authorised; and a
deploy that changes another label of a live stack is authorised on the old one. -/
theorem authorised_stale :
    (∃ specs, planComposeStack (parseAs (oneService envLabel "$\x7bENV\x7d")) "yaml" "shop"
        (AList.singleton "ENV" "production") = .ok specs ∧
      (∃ spec ∈ specs,
        resourceEnv String.toLower none (Labels.fields spec.labels) = some production) ∧
      resourceEnv String.toLower none (stackResource String.toLower
        (parseAs (oneService envLabel "$\x7bENV\x7d")) [] none "org" "shop" (some "yaml")).labels ≠
          some production) ∧
    ∃ specs, planComposeStack (parseAs (oneService "tier" "restricted")) "yaml" "shop" ∅ =
        .ok specs ∧
      (∃ spec ∈ specs, spec.labels.lookup "tier" = some "restricted") ∧
      Fields.get (stackResource String.toLower (parseAs (oneService "tier" "restricted"))
        [liveService "tier" "public"] none "org" "shop" (some "yaml")).labels "tier" =
          some (.str "public") := by
  have henv : (planComposeStack (parseAs (oneService envLabel "$\x7bENV\x7d")) "yaml" "shop"
      (AList.singleton "ENV" "production")).toOption.any anyProduction = true := by
    decide +kernel
  have htier : (planComposeStack (parseAs (oneService "tier" "restricted")) "yaml" "shop"
      ∅).toOption.any (fun specs => specs.any fun spec =>
        spec.labels.lookup "tier" == some "restricted") = true := by
    decide +kernel
  constructor
  · obtain ⟨specs, hok, hprod⟩ := exists_ok henv
    exact ⟨specs, hok, exists_production hprod, by decide +kernel⟩
  · obtain ⟨specs, hok, hany⟩ := exists_ok htier
    obtain ⟨spec, hspec, ht⟩ := any_eq_true.mp hany
    exact ⟨specs, hok, ⟨spec, hspec, eq_of_beq ht⟩, rfl⟩

end Swarmy.Compose
