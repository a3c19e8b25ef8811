import Swarmy.Canary.Worker

/-!
# The end of a canary

`promised_of_carefulCanary`: where the live service has nothing that the worker does not copy, the
inventory has the routes the service still has, and no canary is judged between the end of its
window and the grace for its tasks, promoting or rolling back changes the image and the canary's
weights only.
-/

namespace Canary

open Js List Option Function

variable {lib : Lib}

/-! ## Routes without canaries -/

theorem canary_ne_toString (i : Nat) : "canary" ≠ toString i := by
  intro h
  have hdigit : ('c').isDigit = true := by
    refine Nat.isDigit_of_mem_toDigits (b := 10) (n := i) (by decide) (by decide) ?_
    rw [← String.toList_ofList (l := Nat.toDigits 10 i), ← Nat.toString_eq_ofList_toDigits, ← h]
    decide
  exact absurd hdigit (by decide)

theorem canary_ne_of_mem {elems : List Value} {field : String × Value}
    (h : field ∈ elems.mapIdx fun i elem => (toString i, elem)) : field.1 ≠ "canary" := by
  obtain ⟨i, hi, rfl⟩ := mem_mapIdx.1 h
  exact (canary_ne_toString i).symm

theorem canary_stripRoute (r : LabelRoute) : LabelRoute.canary (stripRoute r) = none := by
  cases r with
  | obj fields =>
    refine lookup_eq_none_iff.2 fun field hfield => bne_iff_ne.2 ?_
    exact (of_decide_eq_true (mem_filter.1 hfield).2).symm
  | arr elems =>
    exact lookup_eq_none_iff.2 fun field hfield => bne_iff_ne.2 (canary_ne_of_mem hfield).symm
  | _ => rfl

theorem not_names_stripRoute (r : LabelRoute) (c : String) :
    ¬ LabelRoute.Names (stripRoute r) c := by
  rw [LabelRoute.Names, canary_stripRoute]
  exact nofun

theorem stripRoute_stripRoute (r : LabelRoute) : stripRoute (stripRoute r) = stripRoute r := by
  cases r with
  | obj fields => exact congrArg Value.obj (filter_filter.trans (by simp only [Bool.and_self]))
  | arr elems =>
    exact congrArg Value.obj (filter_eq_self.2 fun field hfield =>
      decide_eq_true (canary_ne_of_mem hfield))
  | _ => rfl

theorem strip_strip (routes : List LabelRoute) :
    stripCanaryFromRoutes (stripCanaryFromRoutes routes) = stripCanaryFromRoutes routes :=
  map_map.trans (map_congr_left fun r _ => stripRoute_stripRoute r)

theorem isObject_stripRoute {r : LabelRoute} (h : isObject r = true) :
    isObject (stripRoute r) = true := by
  cases r with
  | obj | arr => rfl
  | _ => cases h

theorem isObject_of_mem {raw : Option String} {r : LabelRoute} (h : r ∈ parseRoutesLabel lib raw) :
    isObject r = true := by
  unfold parseRoutesLabel at h
  split at h
  · exact (mem_filter.1 h).2
  · cases h

/-- Stripped routes that survive being written are read again. -/
theorem parseRoutesLabel_strip {raw : Option String} {text : String} (hne : text ≠ "")
    (h : lib.parse text = some (.arr (stripCanaryFromRoutes (parseRoutesLabel lib raw)))) :
    parseRoutesLabel lib (some text) = stripCanaryFromRoutes (parseRoutesLabel lib raw) := by
  conv_lhs => unfold parseRoutesLabel
  simp only [bind_some, if_neg hne, h]
  refine filter_eq_self.2 fun r hr => ?_
  obtain ⟨r', hr', rfl⟩ := mem_map.1 hr
  exact isObject_stripRoute (isObject_of_mem hr')

theorem names_of_truthy {r : LabelRoute} {c : String} (h : r.Names c) :
    truthy (LabelRoute.canary r) = true := by
  unfold LabelRoute.Names at h
  cases hcanary : LabelRoute.canary r with
  | none => simp [hcanary] at h
  | some v =>
    rw [hcanary] at h
    cases v with
    | obj fields => rfl
    | _ => cases h

/-! ## The promise -/

namespace State

/-- No live service sends the canary a part of its traffic. -/
def Unnamed (lib : Lib) (s : State) (c : String) : Prop :=
  ∀ name, ∀ r ∈ s.routes lib name, ¬ LabelRoute.Names r c

/-- What a step of a judgement does to the services. -/
def Kept (lib : Lib) (s : State) (j : Judgement) (answer : Answer) : Prop :=
  match j.phase with
  | .deploy inspect =>
    specOf j inspect = promoteSpecFrom lib.parse inspect j.canary.image j.stable.networks ∧
      ∀ spec, specOf j inspect = some spec →
        ∀ name, (s.deploy spec answer).routes lib name = s.routes lib name
  | .restore => ∀ name, stripCanaryFromRoutes ((s.restoreRoutes lib j).routes lib name) =
      stripCanaryFromRoutes (s.routes lib name)
  | .remove => s.Unnamed lib j.canary.name
  | .inspect | .ended => True

/-- A canary that is above its ceiling or has no task running is not promoted; a promotion deploys
what the router would and leaves the routes as they are; taking the canary off the routes changes
nothing else of them; and the canary is removed when no route names it. -/
def Promised (lib : Lib) (s : State) : Step → Prop
  | .change _ _ => True
  | .judge look => ∀ stable params, look.stable = some stable → look.params lib = some params →
      look.decision lib params = .promote → ¬ look.TasksDown ∧
        ∀ ceiling rate, params.rollbackOnErrorRatePct = some ceiling →
        look.errorRatePct = some rate → rate ≤ ceiling
  | .call i answer => ∀ j, s.judgements[i]? = some j → s.Kept lib j answer

def PromisedRun (lib : Lib) (s : State) : List Step → Prop
  | [] => True
  | e :: steps => s.Promised lib e ∧ PromisedRun lib (s.step lib e) steps

/-! ## The condition -/

/-- The inventory has the routes that the service has now, and no other service names the canary. -/
structure Fresh (lib : Lib) (s : State) (j : Judgement) : Prop where
  routes : j.routes lib = s.routes lib j.stable.name
  alone : ∀ name, name ≠ j.stable.name → ∀ r ∈ s.routes lib name, ¬ LabelRoute.Names r j.canary.name

/-- The stripped routes can be written as JSON and read back. -/
def Writable (lib : Lib) (j : Judgement) : Prop :=
  lib.stringify (.arr (stripCanaryFromRoutes (j.routes lib))) ≠ "" ∧
    lib.parse (lib.stringify (.arr (stripCanaryFromRoutes (j.routes lib)))) =
      some (.arr (stripCanaryFromRoutes (j.routes lib)))

/-- The condition on a call. -/
def CarefulCall (lib : Lib) (s : State) (j : Judgement) : Prop :=
  match j.phase with
  | .deploy inspect => (∀ spec, specOf j inspect = some spec →
      parseRoutesLabel lib ((spec.labels.getD []).lookup INGRESS_ROUTES_LABEL) =
        s.routes lib spec.name) ∧
        (specOf j inspect ≠ none → Copied inspect ∧ s.Fresh lib j)
  | .restore => s.Fresh lib j ∧ Writable lib j
  | .inspect | .remove | .ended => True

/-- The condition on a step: nobody gives the routes of a canary that is about to be removed back
to it; a canary with no task running is not judged between the end of its window and the grace; the
service read has nothing that the worker does not copy; and the routes of the inventory and of the
service read are those the services have now, and survive being written as JSON. -/
def Careful (lib : Lib) (s : State) : Step → Prop
  | .change _ service => ∀ j ∈ s.judgements, j.phase = .remove →
      ∀ r ∈ parseRoutesLabel lib (service.bind fun x => x.labels.lookup INGRESS_ROUTES_LABEL),
        ¬ LabelRoute.Names r j.canary.name
  | .judge look => ∀ stable params, look.stable = some stable → look.params lib = some params →
      (look.TasksDown → ¬ (params.durationMin ≤ look.elapsedMin lib params ∧
        look.elapsedMin lib params < DOWN_GRACE_MIN)) ∧
      (look.decision lib params = .rollback → s.Fresh lib ⟨stable, look.canary, .restore⟩)
  | .call i _ => ∀ j, s.judgements[i]? = some j → s.CarefulCall lib j

def CarefulRun (lib : Lib) (s : State) : List Step → Prop
  | [] => True
  | e :: steps => s.Careful lib e ∧ CarefulRun lib (s.step lib e) steps

/-! ## Routes after a call -/

variable {s : State} {j : Judgement} {answer : Answer}

theorem routes_set_self (name : String) (service : Option Service) :
    (s.set name service).routes lib name =
    parseRoutesLabel lib (service.bind fun x => x.labels.lookup INGRESS_ROUTES_LABEL) := by
  show parseRoutesLabel lib ((update s.live name service name).bind _) = _
  rw [update_self]

theorem routes_set_ne {name name' : String} (service : Option Service) (h : name' ≠ name) :
    (s.set name service).routes lib name' = s.routes lib name' := by
  show parseRoutesLabel lib ((update s.live name service name').bind _) = _
  rw [update_of_ne h, routes]

theorem lookup_deployed (shim labels : Record) : List.lookup INGRESS_ROUTES_LABEL
    (shim.filter (fun l => isShimLabel l.1) ++ labels.filter fun l => !isShimLabel l.1) =
      labels.lookup INGRESS_ROUTES_LABEL := by
  have hnot : isShimLabel INGRESS_ROUTES_LABEL = false := by decide
  have hshim : List.lookup INGRESS_ROUTES_LABEL (shim.filter fun l => isShimLabel l.1) = none := by
    refine lookup_eq_none_iff.2 fun l hl => bne_iff_ne.2 ?_
    rintro heq
    rw [heq, (mem_filter.1 hl).2] at hnot
    cases hnot
  rw [lookup_append, hshim, none_or]
  induction labels with
  | nil => rfl
  | cons l labels ih =>
    by_cases heq : INGRESS_ROUTES_LABEL = l.1
    · rw [filter_cons_of_pos (by rw [← heq, hnot]; rfl), lookup_cons, lookup_cons, heq]
      simp
    · have hskip (xs : Record) : List.lookup INGRESS_ROUTES_LABEL (l :: xs) =
          xs.lookup INGRESS_ROUTES_LABEL := by
        rw [lookup_cons, beq_false_of_ne heq]
      rw [hskip, ← ih]
      by_cases hl : isShimLabel l.1 = true
      · rw [filter_cons_of_neg (by simp [hl])]
      · rw [filter_cons_of_pos (by simpa using hl), hskip]

theorem routes_deploy {spec : ServiceSpec}
    (h : parseRoutesLabel lib ((spec.labels.getD []).lookup INGRESS_ROUTES_LABEL) =
      s.routes lib spec.name)
    (name : String) : (s.deploy spec answer).routes lib name = s.routes lib name := by
  by_cases hname : name = spec.name
  · rw [hname, deploy, routes_set_self, bind_some, lookup_deployed, h]
  · exact routes_set_ne _ hname

theorem routes_restore_self (hfresh : s.Fresh lib j) (hwrite : Writable lib j) :
    (s.restoreRoutes lib j).routes lib j.stable.name = stripCanaryFromRoutes
    (s.routes lib j.stable.name) := by
  rw [← hfresh.routes, restoreRoutes, routes_set_self]
  cases hlive : s.live j.stable.name with
  | none =>
    have hnil : j.routes lib = [] := by rw [hfresh.routes, routes, hlive]; rfl
    rw [hnil]
    rfl
  | some x =>
    rw [map_some, bind_some, Record.lookup_set_self]
    exact parseRoutesLabel_strip hwrite.1 hwrite.2

theorem routes_restore_ne {name : String} (h : name ≠ j.stable.name) :
    (s.restoreRoutes lib j).routes lib name = s.routes lib name := routes_set_ne _ h

theorem unnamed_restore (hfresh : s.Fresh lib j) (hwrite : Writable lib j) :
    (s.restoreRoutes lib j).Unnamed lib j.canary.name := by
  intro name r hr
  by_cases hname : name = j.stable.name
  · rw [hname, routes_restore_self hfresh hwrite] at hr
    obtain ⟨r, -, rfl⟩ := mem_map.1 hr
    exact not_names_stripRoute r _
  · rw [routes_restore_ne hname] at hr
    exact hfresh.alone name hname r hr

theorem Unnamed.restore {c : String} (h : s.Unnamed lib c) (hfresh : s.Fresh lib j)
    (hwrite : Writable lib j) :
    (s.restoreRoutes lib j).Unnamed lib c := by
  intro name r hr
  by_cases hname : name = j.stable.name
  · rw [hname, routes_restore_self hfresh hwrite] at hr
    obtain ⟨r, -, rfl⟩ := mem_map.1 hr
    exact not_names_stripRoute r _
  · rw [routes_restore_ne hname] at hr
    exact h name r hr

theorem Unnamed.congr {s' : State} {c : String} (h : s.Unnamed lib c)
    (hroutes : ∀ name, s'.routes lib name = s.routes lib name) : s'.Unnamed lib c := by
  intro name r hr
  rw [hroutes] at hr
  exact h name r hr

/-- Where there is nothing to drop, the canary is on no route. -/
theorem unnamed_of_skip (hfresh : s.Fresh lib j) (h : (j.restore lib).phase = .remove) :
    s.Unnamed lib j.canary.name := by
  intro name r hr hnames
  by_cases hname : name = j.stable.name
  · rw [hname, ← hfresh.routes] at hr
    unfold Judgement.restore at h
    rw [if_pos (any_eq_true.2 ⟨r, hr, names_of_truthy hnames⟩)] at h
    cases h
  · exact hfresh.alone name hname r hr hnames

/-! ## Steps -/

/-- The invariant: a canary that is about to be removed is on no route. -/
def Inv (lib : Lib) (s : State) : Prop :=
  ∀ j ∈ s.judgements, j.phase = .remove → s.Unnamed lib j.canary.name

theorem Inv.put {s' : State} {i : Nat} {j' : Judgement} (h : s.Inv lib)
    (hjudgements : s'.judgements = s.judgements)
    (hkeep : ∀ c, s.Unnamed lib c → s'.Unnamed lib c)
    (hnew : j'.phase = .remove → s'.Unnamed lib j'.canary.name) :
    (s'.put i j').Inv lib := by
  intro j hj hphase
  rcases mem_or_eq_of_mem_set hj with hj | rfl
  · rw [hjudgements] at hj
    exact hkeep _ (h j hj hphase)
  · exact hnew hphase

theorem Unnamed.set {c name : String} {service : Option Service} (h : s.Unnamed lib c)
    (hnew : ∀ r ∈ parseRoutesLabel lib (service.bind fun x => x.labels.lookup INGRESS_ROUTES_LABEL),
      ¬ LabelRoute.Names r c) : (s.set name service).Unnamed lib c := by
  intro name' r hr
  by_cases hname : name' = name
  · rw [hname, routes_set_self] at hr
    exact hnew r hr
  · rw [routes_set_ne _ hname] at hr
    exact h name' r hr

theorem restore_canary (j : Judgement) : (j.restore lib).canary = j.canary := by
  unfold Judgement.restore
  split <;> rfl

theorem call_deploy {i : Nat} {inspect : Option Value} {spec : ServiceSpec}
    (hphase : j.phase = .deploy inspect)
    (hspec : specOf j inspect = some spec) : s.call lib i j answer =
      (if answer.outcome ≠ .failed then s.deploy spec answer else s).put i
        (if answer.outcome = .done then j.restore lib else { j with phase := .ended }) := by
  simp only [State.call, hphase, hspec]

theorem Inv.call {i : Nat} (h : s.Inv lib) (hc : s.CarefulCall lib j) :
    (s.call lib i j answer).Inv lib := by
  cases hphase : j.phase with
  | inspect =>
    simp only [State.call, hphase]
    refine h.put rfl (fun _ hu => hu) fun hremove => ?_
    split at hremove <;> cases hremove
  | deploy inspect =>
    simp only [CarefulCall, hphase] at hc
    cases hspec : specOf j inspect with
    | none =>
      simp only [State.call, hphase, hspec]
      exact h.put rfl (fun _ hu => hu) nofun
    | some spec =>
      rw [call_deploy hphase hspec]
      have hroutes (name : String) :
          (if answer.outcome ≠ .failed then s.deploy spec answer else s).routes lib name =
            s.routes lib name := by
        split
        · exact routes_deploy (hc.1 spec hspec) name
        · rfl
      refine h.put (by split <;> rfl) (fun _ hu => hu.congr hroutes) ?_
      by_cases hdone : answer.outcome = .done
      · rw [if_pos hdone, restore_canary]
        intro hremove
        have hfresh := (hc.2 (by rw [hspec]; exact nofun)).2
        exact (unnamed_of_skip hfresh hremove).congr hroutes
      · rw [if_neg hdone]
        exact nofun
  | restore =>
    simp only [CarefulCall, hphase] at hc
    simp only [State.call, hphase]
    by_cases hfailed : answer.outcome = .failed
    · rw [if_neg (not_not.2 hfailed)]
      refine h.put rfl (fun _ hu => hu) fun hremove => ?_
      rw [hfailed] at hremove
      cases hremove
    · rw [if_pos hfailed]
      exact h.put rfl (fun _ hu => hu.restore hc.1 hc.2) fun _ => unnamed_restore hc.1 hc.2
  | remove =>
    simp only [State.call, hphase]
    refine h.put (by split <;> rfl) (fun c hu => ?_) nofun
    split
    · exact hu.set nofun
    · exact hu
  | ended =>
    simp only [State.call, hphase]
    exact h

theorem Inv.step (e : Step) (h : s.Inv lib) (hc : s.Careful lib e) : (s.step lib e).Inv lib := by
  cases e with
  | change name service => exact fun j hj hphase => (h j hj hphase).set (hc j hj hphase)
  | judge look =>
    show (s.judge lib look).Inv lib
    unfold State.judge
    split
    · rename_i stable params hstable hparams
      have hadd {j : Judgement} (hnew : j.phase = .remove → s.Unnamed lib j.canary.name) :
          Inv lib { s with judgements := s.judgements ++ [j] } := by
        intro j' hj' hphase
        rcases mem_append.1 hj' with hj' | hj'
        · exact h j' hj' hphase
        · rw [mem_singleton.1 hj'] at hphase ⊢
          exact hnew hphase
      split
      · exact h
      · exact hadd nofun
      · rename_i hrollback
        refine hadd fun hphase => ?_
        rw [restore_canary]
        exact unnamed_of_skip ((hc stable params hstable hparams).2 hrollback) hphase
    · exact h
  | call i answer =>
    cases hj : s.judgements[i]? with
    | none => simpa only [State.step, hj] using h
    | some j => simpa only [State.step, hj] using h.call (hc j hj)

theorem inv_start (live : String → Option Service) : (start live).Inv lib := nofun

/-- A judgement promotes no canary that is above its ceiling or down. -/
theorem decision_promote {look : Look} {params : CanaryParams}
    (h : look.decision lib params = .promote) :
    params.durationMin ≤ look.elapsedMin lib params ∧
      (look.TasksDown → look.elapsedMin lib params < DOWN_GRACE_MIN) ∧
      ∀ ceiling rate, params.rollbackOnErrorRatePct = some ceiling → look.errorRatePct = some rate →
        rate ≤ ceiling := by
  unfold Look.decision decideCanary at h
  dsimp only at h
  split_ifs at h with hdown hbreached helapsed
  refine ⟨helapsed, fun htasks => ?_, fun ceiling rate hceiling hrate => ?_⟩
  · simpa [htasks] using hdown
  · simpa [hceiling, hrate] using hbreached

theorem call_kept (h : s.Inv lib) (hj : j ∈ s.judgements) (hc : s.CarefulCall lib j) :
    s.Kept lib j answer := by
  cases hphase : j.phase with
  | inspect | ended => simp only [Kept, hphase]
  | deploy inspect =>
    simp only [CarefulCall, hphase] at hc
    simp only [Kept, hphase]
    refine ⟨(promoteSpecFrom_eq_iff lib.parse inspect _ _).2 ?_,
      fun spec hspec => routes_deploy (hc.1 spec hspec)⟩
    cases hspec : specOf j inspect with
    | none => exact .inl (map_eq_none_iff.1 hspec)
    | some spec => exact .inr (hc.2 (by rw [hspec]; exact nofun)).1
  | restore =>
    simp only [CarefulCall, hphase] at hc
    simp only [Kept, hphase]
    intro name
    by_cases hname : name = j.stable.name
    · rw [hname, routes_restore_self hc.1 hc.2, strip_strip]
    · rw [routes_restore_ne hname]
  | remove =>
    simp only [Kept, hphase]
    exact h j hj hphase

theorem promised_of_inv (e : Step) (h : s.Inv lib) (hc : s.Careful lib e) : s.Promised lib e := by
  cases e with
  | change name service => exact trivial
  | judge look =>
    intro stable params hstable hparams hpromote
    obtain ⟨helapsed, hdown, hrate⟩ := decision_promote hpromote
    exact ⟨fun htasks => (hc stable params hstable hparams).1 htasks ⟨helapsed, hdown htasks⟩,
      hrate⟩
  | call i answer => exact fun j hj => call_kept h (mem_of_getElem? hj) (hc j hj)

theorem promised_run (steps : List Step) (h : s.Inv lib) (hc : s.CarefulRun lib steps) :
    s.PromisedRun lib steps := by
  induction steps generalizing s with
  | nil => exact trivial
  | cons e steps ih => exact ⟨promised_of_inv e h hc.1, ih (h.step e hc.1) hc.2⟩

/-- In careful runs no canary is promoted with its tasks down or too many errors, and every end of
one keeps what the service had. -/
theorem promised_of_carefulCanary (lib : Lib) (live : String → Option Service) (steps : List Step)
    (h : (start live).CarefulRun lib steps) : (start live).PromisedRun lib steps :=
  promised_run steps (inv_start live) h

/-! ## Two promotions -/

/-- The texts of the labels. -/
def paramsText : String :=
  "\x7b\"trafficPct\":10,\"durationMin\":15,\"startedAt\":\"2026-01-01T00:00:00Z\"\x7d"

def routeFields : Fields := [("host", .str "a.example"), ("port", .num (.int 80))]

def splitText : String :=
  "[\x7b\"host\":\"a.example\",\"port\":80,\"canary\":\x7b\"service\":\"web--canary\"\x7d\x7d]"

def stableText : String := "[\x7b\"host\":\"a.example\",\"port\":80\x7d]"

def someLib : Lib where
  parse text :=
    if text = paramsText then some (.obj [("trafficPct", .num (.int 10)),
      ("durationMin", .num (.int 15)),
      ("startedAt", .str "2026-01-01T00:00:00Z")])
    else if text = splitText then
      some (.arr [.obj (routeFields ++ [("canary", .obj [("service", .str "web--canary")])])])
    else if text = stableText then some (.arr [.obj routeFields])
    else none
  stringify
    | .arr [.obj [("host", .str "a.example"), ("port", .num (.int 80))]] => stableText
    | _ => "null"
  number
    | .num (.int n) => some (n : Rat)
    | _ => none
  dateParse text := if text = "2026-01-01T00:00:00Z" then some 1767225600000 else none

/-- An hour after the canary was started, one of its tasks is running. -/
def someLook : Look where
  services := [⟨"web", "web:1", [(INGRESS_ROUTES_LABEL, splitText)], [], some 1, 1⟩]
  canary := ⟨"web--canary", "web:2",
    [(CANARY_OF_LABEL, "web"), (CANARY_PARAMS_LABEL, paramsText)], [], some 1, 1⟩
  rates := none
  now := 1767229200000

/-- The rest of a service with this restart policy. -/
def someRest (image : String) (restart : Fields) : Fields :=
  [("TaskTemplate", .obj [("ContainerSpec", .obj [("Image", .str image)]),
    ("RestartPolicy", .obj restart)])]

def web (restart : Fields) : String → Option Service :=
  update (fun _ => none) "web" (some ⟨[(INGRESS_ROUTES_LABEL, splitText)],
    someRest "web:1" restart⟩)

theorem params_someLook : someLook.params someLib =
    some ⟨10, 15, none, "", "2026-01-01T00:00:00Z"⟩ := by
  decide +kernel

theorem decision_someLook {params : CanaryParams} (h : someLook.params someLib = some params) :
    someLook.decision someLib params = .promote := by
  rw [params_someLook, Option.some.injEq] at h
  rw [← h]
  norm_num [Look.decision, decideCanary, Look.TasksDown, Look.elapsedMin, someLook, someLib]

/-- The judgement of the promotion, at a call. -/
def promotion (phase : Phase) : Judgement :=
  ⟨⟨"web", "web:1", [(INGRESS_ROUTES_LABEL, splitText)], [], some 1, 1⟩, someLook.canary, phase⟩

def webLive (restart : Fields) : Service :=
  ⟨[(INGRESS_ROUTES_LABEL, splitText)], someRest "web:1" restart⟩

theorem stable_someLook : someLook.stable = some (promotion .inspect).stable := by
  simp [Look.stable, someLook, promotion]

theorem step_judge (restart : Fields) : (start (web restart)).step someLib (.judge someLook) =
    ⟨web restart, [promotion .inspect]⟩ := by
  show (start (web restart)).judge someLib someLook = _
  simp only [judge, stable_someLook, params_someLook, decision_someLook params_someLook]
  rfl

def done : Answer := ⟨.done, [], someRest "web:2" []⟩

theorem step_inspect (restart : Fields) :
    step someLib ⟨web restart, [promotion .inspect]⟩ (.call 0 done) =
      ⟨web restart, [promotion (.deploy (some ((webLive restart).inspect "web")))]⟩ := by
  have hlive : web restart "web" = some (webLive restart) := update_self ..
  simp [step, call, put, promotion, done, hlive]

/-- The stable service restarts its tasks after five seconds; the promotion drops the delay. -/
theorem not_promised_delayedWeb :
    ¬ ∀ (lib : Lib) (live : String → Option Service) (steps : List Step),
    (start live).PromisedRun lib steps := by
  intro h
  have hrun := (h someLib (web [("Condition", .str "any"), ("Delay", .num (.int 5000000000))])
    [.judge someLook, .call 0 done, .call 0 done]).2
  rw [step_judge] at hrun
  have hdeploy := hrun.2
  have hsame := (hdeploy.1 _ rfl).1
  rcases (promoteSpecFrom_eq_iff _ _ _ _).1 hsame with hname | hcopied
  · exact absurd hname (by decide)
  · exact absurd hcopied.delay (by decide)

/-- The spec of a promotion that loses nothing. -/
def webSpec : ServiceSpec :=
  ⟨"web", "web:2", none, none, none, none, some [(INGRESS_ROUTES_LABEL, splitText)], none, none,
    none, none, none,
    none, none, none, none, none, none, none, none⟩

theorem specOf_web (phase : Phase) :
    specOf (promotion phase) (some ((webLive []).inspect "web")) = some webSpec := by
  show specOf (promotion .inspect) _ = _
  decide

theorem strip_splitText : stripCanaryFromRoutes
    (parseRoutesLabel someLib (some splitText)) = [.obj routeFields] := by
  rfl

theorem step_deploy : step someLib
    ⟨web [], [promotion (.deploy (some ((webLive []).inspect "web")))]⟩ (.call 0 done) =
    ⟨update (fun _ => none) "web" (some ⟨[(INGRESS_ROUTES_LABEL, splitText)], someRest "web:2" []⟩),
      [promotion .restore]⟩ := by
  have hrestore : (promotion (.deploy (some ((webLive []).inspect "web")))).restore someLib =
      promotion .restore := by
    refine if_pos (any_eq_true.2
      ⟨.obj (routeFields ++ [("canary", .obj [("service", .str "web--canary")])]), ?_, rfl⟩)
    exact mem_singleton_self _
  have hlabels : (done.shim.filter fun l => isShimLabel l.1) ++
      (webSpec.labels.getD []).filter (fun l => !isShimLabel l.1) =
        [(INGRESS_ROUTES_LABEL, splitText)] := by decide
  have hdeploy : deploy ⟨web [],
      [promotion (.deploy (some ((webLive []).inspect "web")))]⟩ webSpec done =
      ⟨update (fun _ => none) "web" (some ⟨[(INGRESS_ROUTES_LABEL, splitText)],
        someRest "web:2" []⟩),
        [promotion (.deploy (some ((webLive []).inspect "web")))]⟩ := by
    rw [deploy, hlabels, set]
    simp only [web, webSpec, update_idem, done]
  have hstep : step someLib ⟨web [], [promotion (.deploy (some ((webLive []).inspect "web")))]⟩
      (.call 0 done) =
      State.call someLib ⟨web [], [promotion (.deploy (some ((webLive []).inspect "web")))]⟩ 0
        (promotion (.deploy (some ((webLive []).inspect "web")))) done := rfl
  rw [hstep, call_deploy rfl (specOf_web _), if_pos (by decide), if_pos (by decide),
    hrestore, hdeploy]
  rfl

theorem fresh_web {live : String → Option Service} {x : Service} {judgements : List Judgement}
    (phase : Phase)
    (hlive : live = update (fun _ => none) "web" (some x))
    (hx : x.labels = [(INGRESS_ROUTES_LABEL, splitText)]) :
    Fresh someLib ⟨live, judgements⟩ (promotion phase) := by
  have hweb : live "web" = some x := by rw [hlive, update_self]
  refine ⟨?_, fun name hname r hr => ?_⟩
  · show _ = parseRoutesLabel someLib ((live "web").bind _)
    rw [hweb, bind_some, hx]
    rfl
  · have hnone : live name = none := by rw [hlive, update_of_ne (show name ≠ "web" from hname)]
    have hnil : routes someLib ⟨live, judgements⟩ name = [] := by
      show parseRoutesLabel someLib ((live name).bind _) = []
      rw [hnone]
      rfl
    rw [hnil] at hr
    cases hr

theorem copied_web : Copied (some ((webLive []).inspect "web")) where
  delay := by decide
  updateConfig := by decide
  preferences := by decide
  maxReplicas := by decide
  healthcheck := by decide
  shim := by
    rintro (hargv | hfile | ⟨shell, hcommand⟩)
    · exact hargv (by decide)
    · exact hfile (by decide)
    · cases hcommand

theorem writable_web : Writable someLib (promotion .restore) := by
  have hstrip : stripCanaryFromRoutes ((promotion .restore).routes someLib) = [.obj routeFields] :=
    strip_splitText
  have hparams : stableText ≠ paramsText := by decide
  have hsplit : stableText ≠ splitText := by decide
  have hwrite : someLib.stringify (.arr [.obj routeFields]) = stableText := rfl
  rw [Writable, hstrip, hwrite]
  exact ⟨by decide, by simp only [someLib, if_neg hparams, if_neg hsplit, if_true]⟩

/-- The canary is promoted, and the routes are the stable service's again. -/
theorem promised_plainWeb : (start (web [])).PromisedRun someLib
    [.judge someLook, .call 0 done, .call 0 done, .call 0 done, .call 0 done] := by
  refine promised_of_carefulCanary _ _ _ ⟨fun stable params _ hparams =>
    ⟨fun hdown => ?_, fun hrollback => ?_⟩, ?_⟩
  · exact absurd hdown (by decide)
  · rw [params_someLook, Option.some.injEq] at hparams
    rw [← hparams, decision_someLook params_someLook] at hrollback
    cases hrollback
  rw [step_judge]
  refine ⟨fun j hj => ?_, ?_⟩
  · cases hj
    trivial
  rw [step_inspect]
  refine ⟨fun j hj => ?_, ?_⟩
  · cases hj
    refine ⟨fun spec hspec => ?_, fun _ => ⟨copied_web, fresh_web _ rfl rfl⟩⟩
    rw [specOf_web, Option.some.injEq] at hspec
    rw [← hspec]
    exact (fresh_web .restore rfl rfl).routes
  rw [step_deploy]
  refine ⟨fun j hj => ?_, ?_⟩
  · cases hj
    exact ⟨fresh_web _ rfl rfl, writable_web⟩
  refine ⟨fun j hj => ?_, trivial⟩
  cases hj
  trivial

end State

end Canary
