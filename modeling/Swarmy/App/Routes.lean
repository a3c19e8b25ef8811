import Swarmy.App.Ops

/-!
# Routes after an apply

Routes are planned for each host and path and written as one set for each service.
`routes_after` says which routes every service has when a run has ended without a
failure, and `routesRight_iff` when these are the desired ones: a service that is
neither rewritten nor removed keeps what it served.
-/

namespace Swarmy.App

open Coop List Option

/-! ## Steps that run -/

section

variable {exec : (op : AppOp) → Cluster → Except String op.Ret × Cluster}
variable {C : AppOp → Cluster → Prop}

/-- The rule for awaiting an operation. -/
theorem throughout_perform {op : AppOp} {w : Cluster} {D : Except String op.Ret → Cluster → Prop}
    (hC : C op w) (h : D (exec op w).1 (exec op w).2) :
    Throughout (S := appSig) exec C D (perform op) w := by
  refine ⟨hC, ?_⟩
  show Throughout (S := appSig) exec C D (Prog.ofExcept (exec op w).1) _
  cases hx : (exec op w).1 with
  | ok a => rw [hx] at h; exact h
  | error e => rw [hx] at h; exact h

end


/-- What is true of a run unless it has failed. -/
def Unfailed (R : Progress → Cluster → Prop) (p : Progress) (w : Cluster) : Prop :=
  p.failed = none → R p w

theorem unfailed_of_failed {R : Progress → Cluster → Prop} {p : Progress} {w : Cluster}
    (h : p.failed.isSome = true) : Unfailed R p w := fun hp => by rw [hp] at h; cases h

section

variable {exec : (op : AppOp) → Cluster → Except String op.Ret × Cluster}
variable {C : AppOp → Cluster → Prop} {R : Progress → Cluster → Prop} {α : Type}
variable {p : Progress} {w : Cluster}

/-- The rule for a step that is taken unless one has failed. -/
theorem attempt_returns {fn : AppProg α} {ok : α → Progress → Progress} (h : p.failed = none →
      Throughout (S := appSig) exec C (fun r w' => ∀ x, r = .ok x → Unfailed R (ok x p) w') fn w) :
    Throughout (S := appSig) exec C (Returns (Unfailed R)) (attempt fn ok p) w := by
  unfold attempt
  split
  · next hp => exact unfailed_of_failed hp
  · next hp =>
      have hnone : p.failed = none := by simpa using hp
      refine ((h hnone).bind (F := fun r w' => ∀ q, r = .ok q → Unfailed R q w') ?_ ?_).handle ?_ ?_
      · exact fun x w' hx q hq => by cases hq; exact hx x rfl
      · exact fun e w' _ q hq => by cases hq
      · exact fun q w' hq => hq q rfl
      · exact fun e w' _ => unfailed_of_failed rfl

/-- The rule for running an action. -/
theorem run_returns {confirmed : List String} {a : PlanAction} {fn : AppProg α}
    {ok : α → Progress → Progress} (hheld : runnable confirmed a = false → Unfailed R p w)
    (h : runnable confirmed a = true → p.failed = none →
      Throughout (S := appSig) exec C
        (fun r w' => ∀ x, r = .ok x → Unfailed R (settled a (ok x p)) w') fn w) :
    Throughout (S := appSig) exec C (Returns (Unfailed R)) (run confirmed a fn ok p) w := by
  unfold run
  split
  · next hr => exact hheld hr
  · next hr =>
      split
      · next hp => exact unfailed_of_failed hp
      · next hp =>
          have hrun : runnable confirmed a = true := by simpa using hr
          refine (attempt_returns (R := fun q w' => Unfailed R (settled a q) w') ?_).andThen
            fun q w' hq => fun hs => hq hs hs
          exact fun hnone => (h hrun hnone).mono fun r w' hx x hr _ => hx x hr

end

/-- The rule for a loop over the actions. -/
theorem fold_returns {exec : (op : AppOp) → Cluster → Except String op.Ret × Cluster}
    {C : AppOp → Cluster → Prop} {ι : Type} {f : ι → Progress → AppProg Progress}
    {R : List ι → Progress → Cluster → Prop} (step : ∀ xs x p w, Unfailed (R xs) p w →
      Throughout (S := appSig) exec C (Returns (Unfailed (R (xs ++ [x])))) (f x p) w) (ys : List ι)
    {p : Progress} {w : Cluster} (h : Unfailed (R []) p w) :
    Throughout (S := appSig) exec C (Returns (Unfailed (R ys))) (Prog.fold f ys p) w :=
  Throughout.fold (J := fun xs => Unfailed (R xs)) step ys h


/-! ## After a failure -/

section

variable {exec : (op : AppOp) → Cluster → Except String op.Ret × Cluster}

/-- Where a step of the run has failed, nothing more is called and the ledger stays. -/
def Idle (exec : (op : AppOp) → Cluster → Except String op.Ret × Cluster)
    (step : Progress → AppProg Progress) : Prop :=
  ∀ p w, p.failed.isSome = true →
    Throughout (S := appSig) exec (fun _ _ => False)
      (Returns fun q w' => q.failed = p.failed ∧ q.ledger = p.ledger ∧ w' = w) (step p) w

theorem idle_ret : Idle exec .ret := fun _ _ _ => ⟨rfl, rfl, rfl⟩

theorem run_idle {confirmed : List String} {a : PlanAction} {α : Type} {fn : AppProg α}
    {ok : α → Progress → Progress} {p : Progress} {w : Cluster} (hp : p.failed.isSome = true) :
    Throughout (S := appSig) exec (fun _ _ => False)
      (Returns fun q w' => q.failed = p.failed ∧ q.ledger = p.ledger ∧ w' = w)
      (run confirmed a fn ok p) w := by
  unfold run
  by_cases hr : runnable confirmed a = false
  · rw [if_pos hr]
    exact ⟨rfl, rfl, rfl⟩
  · rw [if_neg hr, if_pos hp]
    exact ⟨rfl, rfl, rfl⟩

theorem Idle.bind {f g : Progress → AppProg Progress} (hf : Idle exec f) (hg : Idle exec g) :
    Idle exec fun p => (f p).bind g := by
  intro p w hp
  refine (hf p w hp).andThen fun q w' hq => ?_
  obtain ⟨hfailed, hledger, rfl⟩ := hq
  refine (hg q w' (hfailed ▸ hp)).mono fun r w'' hr => ?_
  cases r with
  | ok q' => exact ⟨hr.1.trans hfailed, hr.2.1.trans hledger, hr.2.2⟩
  | error e => exact hr

theorem Idle.fold {ι : Type} {f : ι → Progress → AppProg Progress} (hf : ∀ x, Idle exec (f x))
    (xs : List ι) : Idle exec (Prog.fold f xs) := by
  induction xs with
  | nil => exact idle_ret
  | cons x xs ih => exact (hf x).bind ih

variable {confirmed : List String} {desired : DesiredApp} {plan : Plan}
variable {wire : DesiredService → Wiring}

theorem idle_buildStep (a : PlanAction) : Idle exec (buildStep confirmed a) := by
  intro p w hp
  unfold buildStep
  split
  · exact run_idle hp
  · exact ⟨rfl, rfl, rfl⟩

theorem idle_deployPhase : Idle exec (deployPhase confirmed desired plan wire) := by
  intro p w hp
  show Throughout (S := appSig) _ _ _ (ite _ _ _) _
  rw [hp, Bool.true_or, if_pos rfl]
  exact ⟨rfl, rfl, rfl⟩

theorem foldl_ledger (f : Progress → PlanAction → Progress)
    (hf : ∀ q a, (f q a).ledger = q.ledger ∧ (f q a).failed = q.failed) (acts : List PlanAction)
    (p : Progress) : (acts.foldl f p).ledger = p.ledger ∧ (acts.foldl f p).failed = p.failed := by
  induction acts generalizing p with
  | nil => exact ⟨rfl, rfl⟩
  | cons a acts ih => exact ⟨(ih _).1.trans (hf p a).1, (ih _).2.trans (hf p a).2⟩

theorem foldl_mark (acts : List PlanAction) (o : Outcome) (p : Progress) :
    (acts.foldl (Progress.mark · o) p).ledger = p.ledger ∧
      (acts.foldl (Progress.mark · o) p).failed = p.failed :=
  foldl_ledger _ (fun _ _ => by exact ⟨rfl, rfl⟩) acts p

theorem idle_routeStep (acts : String → List PlanAction) (svc : String) :
    Idle exec (routeStep confirmed desired acts svc) := by
  intro p w hp
  unfold routeStep
  rw [hp, Bool.true_or, if_pos rfl]
  exact ⟨(foldl_mark _ _ p).2, (foldl_mark _ _ p).1, rfl⟩

theorem idle_routePhase : Idle exec (routePhase confirmed desired plan) :=
  fun p w hp => Idle.fold (fun svc => idle_routeStep _ svc) _ p w hp

theorem idle_jobStep (a : PlanAction) : Idle exec (jobStep confirmed a) := by
  intro p w hp
  unfold jobStep
  split
  · exact run_idle hp
  · exact run_idle hp
  · exact run_idle hp
  · exact ⟨rfl, rfl, rfl⟩

theorem idle_removalStep (a : PlanAction) : Idle exec (removalStep confirmed a) := by
  intro p w hp
  unfold removalStep
  split
  · exact run_idle hp
  · exact run_idle hp
  · exact run_idle hp
  · exact ⟨rfl, rfl, rfl⟩

theorem idle_deleteStep (a : PlanAction) : Idle exec (deleteStep confirmed a) := by
  intro p w hp
  unfold deleteStep
  split
  · exact run_idle hp
  · exact ⟨rfl, rfl, rfl⟩

end

/-! ## What the phases do -/

section Phases

variable (confirmed : List String) (desired : DesiredApp) (ledger : AppLedger)
variable (answers : Answers) (wire : DesiredService → Wiring)

/-- The swarm services that the resources created by some actions deploy. -/
def created (xs : List PlanAction) : List String :=
  xs.flatMap fun a =>
    match a.action with
    | .resourceCreate r =>
      if runnable confirmed a then createdMembers desired.stack r else []
    | _ => []

/-- A resource is what its last action made of it. -/
def noteResource (res : String → Option DesiredResource) (a : PlanAction) :
    String → Option DesiredResource :=
  match a.action with
  | .resourceCreate r | .resourceUpdate r =>
    if runnable confirmed a then Function.update res r.name (some r) else res
  | _ => res

/-- The ledger's resources, as they stand before the data deletes. -/
def resourcesNoted (xs : List PlanAction) : String → Option DesiredResource :=
  xs.foldl (noteResource confirmed) fun n => (ledger.resources.lookup n).map (·.resource)

/-- The swarm services that a delete removes, and the ledger's resources after it. -/
def noteDelete (st : List String × (String → Option DesiredResource)) (a : PlanAction) :
    List String × (String → Option DesiredResource) :=
  match a.action with
  | .resourceDelete name type =>
    if runnable confirmed a then
      (st.1 ++ deletedMembers desired.stack name type (st.2 name),
        Function.update st.2 name none)
    else st
  | _ => st

/-- The swarm services that the deletes of a plan remove. -/
def deletes (acts xs : List PlanAction) : List String × (String → Option DesiredResource) :=
  xs.foldl (noteDelete confirmed desired) ([], resourcesNoted confirmed ledger acts)

/-- A ledger's resource by its name, without what only deletes of buckets read. -/
def AppLedger.resource (l : AppLedger) (n : String) : Option DesiredResource :=
  (l.resources.lookup n).map (·.resource)

theorem resource_setResource (l : AppLedger) (r : DesiredResource) (b : Option String) :
    (l.setResource r b).resource = Function.update l.resource r.name (some r) := by
  funext n
  unfold AppLedger.resource AppLedger.setResource
  by_cases hn : n = r.name
  · rw [hn, AList.lookup_insert, Function.update_self]
    rfl
  · rw [AList.lookup_insert_ne hn, Function.update_of_ne hn]

theorem resource_erase (l : AppLedger) (name : String) :
    ({ l with resources := l.resources.erase name } : AppLedger).resource =
      Function.update l.resource name none := by
  funext n
  unfold AppLedger.resource
  by_cases hn : n = name
  · rw [hn, AList.lookup_erase, Function.update_self]
    rfl
  · rw [AList.lookup_erase_ne hn, Function.update_of_ne hn]

@[simp] theorem settled_ledger (a : PlanAction) (p : Progress) :
    (settled a p).ledger = p.ledger := rfl

@[simp] theorem settled_failed (a : PlanAction) (p : Progress) :
    (settled a p).failed = p.failed := rfl

/-! ### Resources -/

/-- After some of the resource actions: what they created is there, and what the ledger
says of routes and services is as before. -/
structure ResourcesDone (cl : Cluster) (xs : List PlanAction) (p : Progress) (w : Cluster) :
    Prop where
  view : ∀ x, w.view x =
    if x ∈ created confirmed desired xs then some (none, []) else cl.view x
  routes : p.ledger.routes = ledger.routes
  resource : p.ledger.resource = resourcesNoted confirmed ledger xs

variable {confirmed desired ledger}

theorem resourcesNoted_append (xs : List PlanAction) (a : PlanAction) :
    resourcesNoted confirmed ledger (xs ++ [a]) =
      noteResource confirmed (resourcesNoted confirmed ledger xs) a := by
  rw [resourcesNoted, foldl_append]
  rfl

theorem created_append (xs ys : List PlanAction) : created confirmed desired (xs ++ ys) =
      created confirmed desired xs ++ created confirmed desired ys := by
  simp [created]

theorem resourceStep_returns {cl : Cluster} (xs : List PlanAction) (a : PlanAction) (p : Progress)
    (w : Cluster) (h : Unfailed (ResourcesDone confirmed desired ledger cl xs) p w) :
    Throughout (S := appSig) (carryOut desired.stack answers) (fun _ _ => True)
      (Returns (Unfailed (ResourcesDone confirmed desired ledger cl (xs ++ [a]))))
      (resourceStep confirmed a p) w := by
  have hsame : (∀ r, a.action ≠ .resourceCreate r ∨ runnable confirmed a = false) →
      (∀ r, a.action ≠ .resourceUpdate r ∨ runnable confirmed a = false) →
      Unfailed (ResourcesDone confirmed desired ledger cl (xs ++ [a])) p w := by
    intro hc hu hp
    have hcreated : created confirmed desired [a] = [] := by
      simp only [created, flatMap_cons, flatMap_nil, append_nil]
      split
      · next r hr => rcases hc r with h | h <;> simp_all
      · rfl
    have hnote : noteResource confirmed (resourcesNoted confirmed ledger xs) a =
        resourcesNoted confirmed ledger xs := by
      unfold noteResource
      split
      · next r hr => rcases hc r with h | h <;> simp_all
      · next r hr => rcases hu r with h | h <;> simp_all
      · rfl
    refine ⟨fun x => ?_, (h hp).routes, ?_⟩
    · rw [created_append, hcreated, append_nil]
      exact (h hp).view x
    · rw [resourcesNoted_append, hnote]
      exact (h hp).resource
  unfold resourceStep
  split
  · next r hr =>
      refine run_returns (fun hf => hsame (fun _ => .inr hf) (fun _ => .inr hf)) fun hrun hp => ?_
      refine throughout_perform trivial fun x _ _ => ⟨fun y => ?_, ?_, ?_⟩
      · rw [created_append]
        have hcreated : created confirmed desired [a] = createdMembers desired.stack r := by
          simp [created, hr, hrun]
        rw [hcreated]
        simp only [carryOut, Cluster.view_provision, (h hp).view y, mem_append]
        by_cases hy : y ∈ createdMembers desired.stack r <;> simp [hy]
      · simpa [Progress.record, ledgerAfter, hr, AppLedger.setResource] using (h hp).routes
      · rw [resourcesNoted_append]
        simp only [settled_ledger, Progress.record, ledgerAfter, hr, noteResource, hrun, if_true]
        refine (resource_setResource p.ledger r x).trans ?_
        rw [(h hp).resource]
  · next r hr =>
      refine run_returns (fun hf => hsame (fun _ => .inr hf) (fun _ => .inr hf)) fun hrun hp => ?_
      refine throughout_perform trivial fun x _ _ => ⟨fun y => ?_, ?_, ?_⟩
      · rw [created_append]
        have hcreated : created confirmed desired [a] = [] := by
          simp [created, hr]
        rw [hcreated, append_nil, carryOut_updateResource]
        exact (h hp).view y
      · simpa [Progress.record, ledgerAfter, hr, AppLedger.setResource] using (h hp).routes
      · rw [resourcesNoted_append]
        simp only [settled_ledger, Progress.record, ledgerAfter, hr, resource_setResource,
          (h hp).resource, noteResource, hrun, if_true]
  · next hc hu =>
      exact hsame (fun r => .inl (hc r)) (fun r => .inl (hu r))

/-! ### Builds and the deploy -/

/-- Nothing has happened to the routes, to the services the app does not want, or to
what the ledger says of routes and resources. -/
structure Steady (desired : DesiredApp) (l : AppLedger) (w₀ : Cluster) (p : Progress)
    (w : Cluster) : Prop where
  routesAt : ∀ x, w.routesAt x = w₀.routesAt x
  view : ∀ n, isDesired desired n = false →
    w.view (svcName desired.stack n) = w₀.view (svcName desired.stack n)
  routes : p.ledger.routes = l.routes
  resource : p.ledger.resource = l.resource

variable {w w' : Cluster} {p : Progress} {plan : Plan}

theorem Steady.of_view {l : AppLedger} {w₀ : Cluster} {p' : Progress} (h : Steady desired l w₀ p w)
    (hview : ∀ x, w'.view x = w.view x) (hroutes : p'.ledger.routes = p.ledger.routes)
    (hresource : p'.ledger.resource = p.ledger.resource) : Steady desired l w₀ p' w' where
  routesAt x := by rw [Cluster.routesAt_eq, hview, ← Cluster.routesAt_eq, h.routesAt]
  view n hn := by rw [hview, h.view n hn]
  routes := hroutes.trans h.routes
  resource := hresource.trans h.resource

variable (desired) in
/-- A step of the run keeps what is true unless it fails. -/
def Keeps (R : Progress → Cluster → Prop) (step : Progress → AppProg Progress) : Prop :=
  ∀ p w, Unfailed R p w →
    Throughout (S := appSig) (carryOut desired.stack answers) (fun _ _ => True)
      (Returns (Unfailed R)) (step p) w

variable {answers} in
theorem Keeps.bind {R : Progress → Cluster → Prop} {f g : Progress → AppProg Progress}
    (hf : Keeps desired answers R f) (hg : Keeps desired answers R g) :
    Keeps desired answers R fun p => (f p).bind g :=
  fun p w h => (hf p w h).andThen hg

variable {answers} in
theorem Keeps.fold {R : Progress → Cluster → Prop} {ι : Type} {f : ι → Progress → AppProg Progress}
    {ys : List ι} (hf : ∀ y ∈ ys, Keeps desired answers R (f y)) :
    Keeps desired answers R (Prog.fold f ys) := by
  induction ys with
  | nil => exact fun p w h => h
  | cons y ys ih =>
    exact (hf y mem_cons_self).bind (ih fun z hz => hf z (mem_cons_of_mem _ hz))

variable {answers} in
/-- What was true of a run before a step is still true if the step does not fail. -/
theorem Idle.past {step : Progress → AppProg Progress}
    (hidle : Idle (carryOut desired.stack answers) step) {K : Prop} {Q : Progress → Cluster → Prop}
    (hK : p.failed = none → K)
    (h : Throughout (S := appSig) (carryOut desired.stack answers) (fun _ _ => True)
      (Returns (Unfailed Q)) (step p) w) :
    Throughout (S := appSig) (carryOut desired.stack answers) (fun _ _ => True)
      (Returns (Unfailed fun q w => K ∧ Q q w)) (step p) w := by
  cases hp : p.failed with
  | none =>
    refine h.mono fun r w' hr => ?_
    cases r with
    | ok q => exact fun hq => ⟨hK hp, hr hq⟩
    | error e => exact hr
  | some e =>
    refine ((hidle p w (by rw [hp]; rfl)).weaken fun _ _ h => h.elim).mono fun r w' hr => ?_
    cases r with
    | ok q => exact fun hq => absurd hq (by rw [hr.1, hp]; simp)
    | error e => exact hr

variable {l : AppLedger} {w₀ : Cluster}

theorem buildStep_keeps (a : PlanAction) :
    Keeps desired answers (Steady desired l w₀) (buildStep confirmed a) := by
  intro p w h
  unfold buildStep
  split
  · exact run_returns (fun _ => h) fun _ hp => throughout_perform trivial fun x _ _ =>
      (h hp).of_view (fun _ => rfl) rfl rfl
  · exact h

theorem releaseStep_keeps (ro : List RolloutService) (r : String × List String) :
    Keeps desired answers (Steady desired l w₀) (releaseStep ro r) := by
  intro p w h
  refine attempt_returns fun hp => throughout_perform trivial fun x _ _ => ?_
  refine (h hp).of_view (fun y => ?_) rfl rfl
  rw [carryOut_runRelease]

/-- Only services of the app are deployed. -/
theorem isDesired_of_mem_compose {names : List String}
    {c : ComposeService} (hc : c ∈ compose (rollout confirmed desired plan p w) names) :
    isDesired desired c.name = true := by
  obtain ⟨x, hx, rfl⟩ := mem_map.mp hc
  obtain ⟨y, hy, hxy⟩ := mem_filterMap.mp hx
  obtain ⟨s, hs, hsy⟩ := mem_filterMap.mp hy
  obtain ⟨i, -, rfl⟩ := map_eq_some_iff.mp hxy
  have hname : y.service.name = s.name := by
    unfold rolloutOf at hsy
    split at hsy
    · exact some.inj hsy ▸ rfl
    · split at hsy
      · obtain ⟨prev, hprev, happlied⟩ := bind_eq_some_iff.mp hsy
        obtain ⟨applied, happ, rfl⟩ := map_eq_some_iff.mp happlied
        exact p.ledger.services_keyed _ _ hprev _ happ
      · exact some.inj hsy ▸ rfl
  exact any_eq_true.mpr ⟨s, hs, by simp [hname]⟩

theorem deployOp_keeps {cs : List ComposeService} (hcs : ∀ c ∈ cs, isDesired desired c.name = true)
    : Keeps desired answers (Steady desired l w₀) (deployOp cs) := by
  intro p w h
  refine attempt_returns fun hp => throughout_perform trivial fun x _ _ => ?_
  refine ⟨fun y => ?_, fun n hn => ?_, (h hp).routes, (h hp).resource⟩
  · exact (w.routesAt_deploy desired.stack cs y).trans ((h hp).routesAt y)
  · refine (w.view_deploy desired.stack cs fun c hc hname => ?_).trans ((h hp).view n hn)
    rw [svcName_injective _ hname, hcs c hc] at hn
    cases hn

theorem attachStep_keeps (a : Attachment) :
    Keeps desired answers (Steady desired l w₀) (attachStep desired a) := by
  intro p w h
  show Throughout (S := appSig) _ _ _ (ite _ _ _) _
  split
  · exact h
  · refine attempt_returns fun hp => throughout_perform trivial fun x _ _ => ?_
    exact (h hp).of_view (fun y => view_attach a w y) rfl rfl

theorem deployStep_keeps {ro : List RolloutService}
    (hro : ∀ names, ∀ c ∈ compose ro names, isDesired desired c.name = true) :
    Keeps desired answers (Steady desired l w₀) (deployStep confirmed desired plan wire ro) := by
  have hscale : ∀ first, Keeps desired answers (Steady desired l w₀)
      (scaleUp (compose ro []) first) := by
    intro first p w h
    unfold scaleUp
    split
    · exact h
    · exact deployOp_keeps answers (hro []) p w h
  intro p w h
  unfold deployStep
  split
  · unfold deploySteps
    refine (Keeps.fold (fun r _ => releaseStep_keeps answers ro r) p w h).andThen fun p w h => ?_
    refine (deployOp_keeps answers (hro _) p w h).andThen fun p w h => ?_
    refine (Keeps.fold (fun a _ => attachStep_keeps answers a) p w h).andThen fun p w h => ?_
    exact (Keeps.fold (fun r _ => releaseStep_keeps answers ro r) p w h).andThen (hscale _)
  · exact unfailed_of_failed rfl

theorem deployed_ledger (ro : List RolloutService) (p : Progress) (a : PlanAction) :
    (deployed ro p a).failed = p.failed ∧
      (deployed ro p a).ledger.routes = p.ledger.routes ∧
      (deployed ro p a).ledger.resource = p.ledger.resource := by
  unfold deployed
  split
  · next hs =>
      split
      · exact ⟨rfl, rfl, rfl⟩
      · simp only [settled_ledger, settled_failed, Progress.record, ledgerAfter, hs]
        exact ⟨trivial, rfl, rfl⟩
  · exact ⟨rfl, rfl, rfl⟩

theorem deployPhase_keeps :
    Keeps desired answers (Steady desired l w₀) (deployPhase confirmed desired plan wire) := by
  intro p w h
  show Throughout (S := appSig) _ _ _ (ite _ _ _) _
  split
  · exact h
  · refine (deployStep_keeps answers wire
      (fun names c hc => isDesired_of_mem_compose hc) p w h).andThen fun q w' hq => ?_
    have hfold : ∀ (acts : List PlanAction) (q : Progress),
        Unfailed (Steady desired l w₀) q w' → Unfailed (Steady desired l w₀)
          (acts.foldl (deployed (rollout confirmed desired plan p w)) q) w' := by
      intro acts
      induction acts with
      | nil => exact fun q hq => hq
      | cons a acts ih =>
        refine fun q hq => ih _ fun hf => ?_
        obtain ⟨hfailed, hroutes, hresource⟩ :=
          deployed_ledger (rollout confirmed desired plan p w) q a
        exact (hq (hfailed ▸ hf)).of_view (fun _ => rfl) hroutes hresource
    exact hfold _ q hq

/-! ### Routes -/

variable (confirmed ledger) in
/-- The route actions of a service can all run. -/
def routesMayRun (plan : Plan) (svc : String) : Bool :=
  (routeActs plan ledger svc).all (runnable confirmed)

/-- The routes on a label are those the app wants of a service. -/
def Written (desired : DesiredApp) (svc : String) (routes : List Route) : Prop :=
  ∃ live, routes = setServiceRoutes live ((desiredRoutes desired svc).map ingressRoute)

/-- The route sets of some services are written. -/
structure RoutesDone (confirmed : List String) (desired : DesiredApp) (ledger l : AppLedger)
    (plan : Plan) (w₀ : Cluster) (svcs : List String) (p : Progress) (w : Cluster) : Prop where
  written : ∀ n ∈ svcs, isDesired desired n = true → routesMayRun confirmed ledger plan n = true →
    Written desired n (w.routesAt (svcName desired.stack n))
  kept : ∀ n, ¬(n ∈ svcs ∧ isDesired desired n = true ∧
      routesMayRun confirmed ledger plan n = true) →
    w.routesAt (svcName desired.stack n) = w₀.routesAt (svcName desired.stack n)
  view : ∀ n, isDesired desired n = false →
    w.view (svcName desired.stack n) = w₀.view (svcName desired.stack n)
  resource : p.ledger.resource = l.resource

/-- The services touched are read off the ledger's routes alone. -/
theorem routeService_congr {l : AppLedger} (h : l.routes = ledger.routes) (a : PlanAction) :
    routeService l a = routeService ledger a := by
  unfold routeService
  rw [h]

theorem RoutesDone.step {svcs : List String} {svc : String} {q : Progress}
    (h : RoutesDone confirmed desired ledger l plan w₀ svcs p w)
    (hview : ∀ n, n ≠ svc ∨ isDesired desired svc = false ∨
      routesMayRun confirmed ledger plan svc = false →
      w'.view (svcName desired.stack n) = w.view (svcName desired.stack n))
    (hwritten : isDesired desired svc = true → routesMayRun confirmed ledger plan svc = true →
      Written desired svc (w'.routesAt (svcName desired.stack svc)))
    (hresource : q.ledger.resource = p.ledger.resource) :
    RoutesDone confirmed desired ledger l plan w₀ (svcs ++ [svc]) q w' where
  written n hn hd hm := by
    by_cases hns : n = svc
    · subst hns
      exact hwritten hd hm
    · rw [Cluster.routesAt_eq, hview n (.inl hns), ← Cluster.routesAt_eq]
      refine h.written n ?_ hd hm
      simpa [hns] using hn
  kept n hn := by
    have hsvc : n ≠ svc ∨ isDesired desired svc = false ∨
        routesMayRun confirmed ledger plan svc = false := by
      by_contra hc
      simp only [not_or, not_not, Bool.not_eq_false] at hc
      obtain ⟨rfl, hd, hm⟩ := hc
      exact hn ⟨by simp, hd, hm⟩
    rw [Cluster.routesAt_eq, hview n hsvc, ← Cluster.routesAt_eq]
    exact h.kept n fun hc => hn ⟨by simp [hc.1], hc.2⟩
  view n hn := by
    rw [hview n ?_, h.view n hn]
    by_cases hns : n = svc
    · exact .inr (.inl (hns ▸ hn))
    · exact .inl hns
  resource := hresource.trans h.resource

theorem recordRoutes_resource {acts : List PlanAction} {led : AppLedger} {svc : String}
    (hacts : ∀ a ∈ acts, routeService led a = some svc) (p : Progress) :
    (acts.foldl (fun q a => q.record a noResult) p).ledger.resource = p.ledger.resource := by
  induction acts generalizing p with
  | nil => rfl
  | cons a acts ih =>
    rw [foldl_cons, ih fun b hb => hacts b (mem_cons_of_mem _ hb)]
    have ha := hacts a mem_cons_self
    unfold routeService at ha
    split at ha
    · next h => simp only [Progress.record, ledgerAfter, h]; rfl
    · next h => simp only [Progress.record, ledgerAfter, h]; rfl
    · next h => simp only [Progress.record, ledgerAfter, h]; rfl
    · cases ha

theorem routeStep_returns (svcs : List String) (svc : String) (p : Progress) (w : Cluster)
    (h : Unfailed (RoutesDone confirmed desired ledger l plan w₀ svcs) p w) :
    Throughout (S := appSig) (carryOut desired.stack answers) (fun _ _ => True)
      (Returns (Unfailed (RoutesDone confirmed desired ledger l plan w₀ (svcs ++ [svc]))))
      (routeStep confirmed desired (routeActs plan ledger) svc p) w := by
  unfold routeStep
  split
  · next hstop =>
      intro hp
      have hnone : p.failed = none := (foldl_mark _ _ p).2 ▸ hp
      have hmay : routesMayRun confirmed ledger plan svc = false := by
        rw [hnone] at hstop
        simpa [routesMayRun] using hstop
      refine (h hnone).step (fun n _ => rfl) (fun _ hm => ?_) ?_
      · rw [hmay] at hm
        cases hm
      · exact congrArg AppLedger.resource (foldl_mark _ _ p).1
  · next hstop =>
      refine (attempt_returns
        (R := RoutesDone confirmed desired ledger l plan w₀ (svcs ++ [svc])) ?_).andThen ?_
      · intro hp
        have hresource := @recordRoutes_resource (routeActs plan ledger svc) ledger svc
          (fun a ha => by simpa using (mem_filter.mp ha).2) p
        by_cases hd : isDesired desired svc = true
        · have hprog : setRoutesOf desired svc =
              perform (.setRoutes svc (desiredRoutes desired svc)) := if_pos hd
          have hmay : routesMayRun confirmed ledger plan svc = true := by
            rw [hp] at hstop
            simpa [routesMayRun] using hstop
          rw [hprog]
          refine @throughout_perform _ _ (.setRoutes svc (desiredRoutes desired svc)) w _ trivial ?_
          intro x hx hq
          obtain ⟨hwritten, hview⟩ := setRoutes_ok hx
          refine (h hp).step (fun n hn => hview _ fun hn' => ?_) (fun _ _ => hwritten) hresource
          rcases hn with hn | hn | hn
          · exact hn (svcName_injective _ hn')
          · rw [hd] at hn
            cases hn
          · rw [hmay] at hn
            cases hn
        · have hprog : setRoutesOf desired svc = .ret () := if_neg hd
          rw [hprog]
          exact fun x _ hq =>
            (h hp).step (fun n _ => rfl) (fun hd' => absurd hd' hd) hresource
      · intro q w' hq hf
        obtain ⟨hledger, hfailed⟩ := foldl_ledger (fun q a => settled a q) (fun _ _ => ⟨rfl, rfl⟩)
          (routeActs plan ledger svc) q
        have := hq (hfailed ▸ hf)
        exact ⟨this.written, this.kept, this.view, hledger ▸ this.resource⟩

/-- The route phase, where the ledger's routes are those the run began with. -/
theorem routePhase_returns (h : p.failed = none → p.ledger.routes = ledger.routes) :
    Throughout (S := appSig) (carryOut desired.stack answers) (fun _ _ => True)
      (Returns (Unfailed (RoutesDone confirmed desired ledger p.ledger plan w
        (touched plan ledger)))) (routePhase confirmed desired plan p) w := by
  cases hp : p.failed with
  | some e =>
    refine ((idle_routePhase p w (by rw [hp]; rfl)).weaken fun _ _ h => h.elim).mono
      fun r w' hr => ?_
    cases r with
    | ok q => exact fun hq => absurd hq (by rw [hr.1, hp]; simp)
    | error e => exact hr
  | none =>
    have hsvc := routeService_congr (h hp)
    have hacts : routeActs plan p.ledger = routeActs plan ledger := by
      funext svc
      simp only [routeActs, hsvc]
    have htouched : touched plan p.ledger = touched plan ledger := by
      rw [touched, touched, funext hsvc]
    rw [routePhase, hacts, htouched]
    refine fold_returns (routeStep_returns answers) (touched plan ledger) fun _ => ?_
    exact ⟨fun n hn => by simp at hn, fun _ _ => rfl, fun _ _ => rfl, rfl⟩

/-! ### Jobs, links and removals -/

/-- The services are as they were, and so is what the ledger says of resources. -/
structure Settled (res : String → Option DesiredResource) (w₀ : Cluster) (p : Progress)
    (w : Cluster) : Prop where
  view : ∀ x, w.view x = w₀.view x
  resource : p.ledger.resource = res

variable {res : String → Option DesiredResource}

theorem jobStep_keeps (a : PlanAction) :
    Keeps desired answers (Settled res w₀) (jobStep confirmed a) := by
  intro p w h
  unfold jobStep
  have hjob : ∀ j, (a.action = .jobCreate j ∨ a.action = .jobUpdate j) →
      Throughout (S := appSig) (carryOut desired.stack answers) (fun _ _ => True)
        (Returns (Unfailed (Settled res w₀)))
        (run confirmed a (perform (.upsertJob j ((p.ledger.jobs.lookup j.name).map (·.jobId))))
          (fun jobId p => p.record a { noResult with jobId := some jobId }) p) w := by
    intro j hj
    refine run_returns (fun _ => h) fun _ hp => ?_
    refine @throughout_perform (carryOut desired.stack answers) (fun _ _ => True)
      (.upsertJob j ((p.ledger.jobs.lookup j.name).map (·.jobId))) w _ trivial ?_
    refine fun x _ _ => ⟨fun y => ?_, ?_⟩
    · rw [Cluster.view, services_upsertJob, ← Cluster.view, (h hp).view]
    · rcases hj with hj | hj <;>
      · simp only [settled_ledger, Progress.record, ledgerAfter, hj]
        exact (h hp).resource
  split
  · next j hj => exact hjob j (.inl hj)
  · next j hj => exact hjob j (.inr hj)
  · next peer hpeer =>
      refine run_returns (fun _ => h) fun _ hp => ?_
      refine @throughout_perform _ _ (.link peer) w _ trivial fun x _ _ => ⟨(h hp).view, ?_⟩
      simp only [settled_ledger, Progress.record, ledgerAfter, hpeer]
      exact (h hp).resource
  · exact h

variable (confirmed) in
/-- One of some actions removes a service, and runs. -/
def removalRuns (xs : List PlanAction) (n : String) : Bool :=
  xs.any fun a => runnable confirmed a && decide (a.action = .serviceRemove n)

/-- A service the app's label is on. -/
def Cluster.isApps (w : Cluster) (stack x : String) : Bool := (w.view x).any (·.1 = some stack)

/-- Some of the removals are done. -/
structure RemovalsDone (confirmed : List String) (stack : String)
    (res : String → Option DesiredResource) (w₀ : Cluster) (xs : List PlanAction) (p : Progress)
    (w : Cluster) : Prop where
  gone : ∀ n, removalRuns confirmed xs n = true → w₀.isApps stack (svcName stack n) = true →
    w.view (svcName stack n) = none
  kept : ∀ n, removalRuns confirmed xs n = false ∨ w₀.isApps stack (svcName stack n) = false →
    w.view (svcName stack n) = w₀.view (svcName stack n)
  resource : p.ledger.resource = res

theorem removalRuns_append (xs : List PlanAction) (a : PlanAction) (n : String) :
    removalRuns confirmed (xs ++ [a]) n = (removalRuns confirmed xs n ||
      (runnable confirmed a && decide (a.action = .serviceRemove n))) := by
  simp [removalRuns]

/-- A step that removes no service. -/
theorem RemovalsDone.skip {xs : List PlanAction} {a : PlanAction} {q : Progress}
    (h : RemovalsDone confirmed desired.stack res w₀ xs p w)
    (ha : ∀ n, runnable confirmed a = false ∨ a.action ≠ .serviceRemove n)
    (hview : ∀ x, w'.view x = w.view x) (hres : q.ledger.resource = p.ledger.resource) :
    RemovalsDone confirmed desired.stack res w₀ (xs ++ [a]) q w' := by
  have hruns : ∀ n, removalRuns confirmed (xs ++ [a]) n = removalRuns confirmed xs n := by
    intro n
    rw [removalRuns_append]
    rcases ha n with ha | ha <;> simp [ha]
  refine ⟨fun n hn hl => ?_, fun n hn => ?_, hres.trans h.resource⟩
  · rw [hview]
    exact h.gone n (hruns n ▸ hn) hl
  · rw [hview]
    exact h.kept n (hruns n ▸ hn)

theorem removalStep_returns (xs : List PlanAction) (a : PlanAction) (p : Progress) (w : Cluster)
    (h : Unfailed (RemovalsDone confirmed desired.stack res w₀ xs) p w) :
    Throughout (S := appSig) (carryOut desired.stack answers) (fun _ _ => True)
      (Returns (Unfailed (RemovalsDone confirmed desired.stack res w₀ (xs ++ [a]))))
      (removalStep confirmed a p) w := by
  have hheld : runnable confirmed a = false →
      Unfailed (RemovalsDone confirmed desired.stack res w₀ (xs ++ [a])) p w :=
    fun hr hp => (h hp).skip (fun _ => .inl hr) (fun _ => rfl) rfl
  unfold removalStep
  split
  · next name hname =>
      refine run_returns hheld fun _ hp => ?_
      unfold removeJobOf
      have hnot : ∀ n, runnable confirmed a = false ∨ a.action ≠ .serviceRemove n := by
        simp [hname]
      have hres : (settled a (p.record a noResult)).ledger.resource = p.ledger.resource := by
        simp only [settled_ledger, Progress.record, ledgerAfter, hname]
        rfl
      split
      · next id hid =>
          refine @throughout_perform _ _ (.removeJob id) w _ trivial fun x _ _ => ?_
          refine (h hp).skip hnot (fun x => ?_) hres
          rw [Cluster.view, services_removeJob, ← Cluster.view]
      · exact fun x _ _ => (h hp).skip hnot (fun x => rfl) hres
  · next peer hpeer =>
      refine run_returns hheld fun _ hp => ?_
      refine @throughout_perform _ _ (.unlink peer) w _ trivial fun x _ _ => ?_
      refine (h hp).skip (by simp [hpeer]) (fun _ => rfl) ?_
      simp only [settled_ledger, Progress.record, ledgerAfter, hpeer]
      rfl
  · next name hname =>
      refine run_returns hheld fun hr hp => ?_
      refine @throughout_perform _ _ (.removeService name) w _ trivial fun x _ _ => ?_
      have hruns : ∀ n, removalRuns confirmed (xs ++ [a]) n =
          (removalRuns confirmed xs n || decide (name = n)) := by
        intro n
        rw [removalRuns_append, hr, hname]
        simp
      have hview := @view_removeService desired.stack answers name w
      refine ⟨fun n hn hl => ?_, fun n hn => ?_, ?_⟩
      · rw [hview]
        split
        · rfl
        · next hc =>
            by_cases hx : removalRuns confirmed xs n = true
            · exact (h hp).gone n hx hl
            · obtain rfl : name = n := by simpa [hruns, hx] using hn
              have hsame := (h hp).kept name (.inl (by simpa using hx))
              rw [Cluster.isApps, ← hsame] at hl
              exact absurd ⟨rfl, hl⟩ hc
      · have hxs : removalRuns confirmed xs n = false ∨
            w₀.isApps desired.stack (svcName desired.stack n) = false := by
          refine hn.imp_left fun hn => ?_
          rw [hruns] at hn
          exact (Bool.or_eq_false_iff.mp hn).1
        have hsame := (h hp).kept n hxs
        rw [hview, if_neg, hsame]
        rintro ⟨hy, hl⟩
        obtain rfl := svcName_injective _ hy
        rcases hn with hn | hn
        · simp [hruns] at hn
        · rw [Cluster.isApps, ← hsame] at hn
          rw [hn] at hl
          cases hl
      · simp only [settled_ledger, Progress.record, ledgerAfter, hname]
        exact (h hp).resource
  · next h₁ h₂ h₃ =>
      exact fun hp => (h hp).skip (fun n => .inr fun hn => h₃ n hn) (fun _ => rfl) rfl

/-! ### Data deletes -/

/-- Some of the deletes are done. -/
structure DeletesDone (confirmed : List String) (desired : DesiredApp) (ledger : AppLedger)
    (acts : List PlanAction) (w₀ : Cluster) (xs : List PlanAction) (p : Progress)
    (w : Cluster) : Prop where
  view : ∀ x, w.view x =
    if x ∈ (deletes confirmed desired ledger acts xs).1 then none else w₀.view x
  resource : p.ledger.resource = (deletes confirmed desired ledger acts xs).2

theorem deletes_append (acts xs : List PlanAction) (a : PlanAction) :
    deletes confirmed desired ledger acts (xs ++ [a]) =
      noteDelete confirmed desired (deletes confirmed desired ledger acts xs) a := by
  rw [deletes, foldl_append]
  rfl

theorem deleteStep_returns {acts : List PlanAction} (xs : List PlanAction) (a : PlanAction)
    (p : Progress) (w : Cluster)
    (h : Unfailed (DeletesDone confirmed desired ledger acts w₀ xs) p w) :
    Throughout (S := appSig) (carryOut desired.stack answers) (fun _ _ => True)
      (Returns (Unfailed (DeletesDone confirmed desired ledger acts w₀ (xs ++ [a]))))
      (deleteStep confirmed a p) w := by
  have hsame : (∀ name type, a.action ≠ .resourceDelete name type ∨ runnable confirmed a = false) →
      Unfailed (DeletesDone confirmed desired ledger acts w₀ (xs ++ [a])) p w := by
    intro ha hp
    have hnote : deletes confirmed desired ledger acts (xs ++ [a]) =
        deletes confirmed desired ledger acts xs := by
      rw [deletes_append]
      unfold noteDelete
      split
      · next name type hd => rcases ha name type with h | h <;> simp_all
      · rfl
    exact ⟨hnote ▸ (h hp).view, hnote ▸ (h hp).resource⟩
  unfold deleteStep
  split
  · next name type hd =>
      refine run_returns (fun hr => hsame fun _ _ => .inr hr) fun hr hp => ?_
      refine @throughout_perform (carryOut desired.stack answers) (fun _ _ => True)
        (.deleteResource name type (p.ledger.resources.lookup name)) w _ trivial ?_
      have hnote : deletes confirmed desired ledger acts (xs ++ [a]) =
          ((deletes confirmed desired ledger acts xs).1 ++ deletedMembers desired.stack name type
              ((deletes confirmed desired ledger acts xs).2 name),
            Function.update (deletes confirmed desired ledger acts xs).2 name none) := by
        rw [deletes_append]
        simp only [noteDelete, hd, hr, if_true]
      refine fun x _ _ => ⟨fun y => ?_, ?_⟩
      · rw [hnote, ← (h hp).resource]
        refine (w.view_removeAll (deletedMembers desired.stack name type
          (p.ledger.resource name)) y).trans ?_
        rw [(h hp).view y]
        by_cases hy : y ∈ deletedMembers desired.stack name type (p.ledger.resource name) <;>
          by_cases hz : y ∈ (deletes confirmed desired ledger acts xs).1 <;> simp [hy, hz]
      · rw [hnote, ← (h hp).resource]
        simp only [settled_ledger, Progress.record, ledgerAfter, hd]
        exact resource_erase _ _
  · next hd => exact hsame fun name type => .inl (hd name type)

/-! ### The whole run -/

variable (confirmed desired ledger)

/-- The swarm services that the run deletes with a resource's data. -/
def deletedServices (plan : Plan) : List String :=
  (deletes confirmed desired ledger plan.actions plan.actions).1

/-- The run writes the service's routes. -/
def rewritten (plan : Plan) (n : String) : Bool :=
  (touched plan ledger).contains n && isDesired desired n && routesMayRun confirmed ledger plan n

/-- The run removes the service: it is still the app's then. -/
def removed (plan : Plan) (cl : Cluster) (n : String) : Bool :=
  removalRuns confirmed plan.actions n &&
    !(created confirmed desired plan.actions).contains (svcName desired.stack n) &&
      cl.isApps desired.stack (svcName desired.stack n)

/-- The run leaves the service's routes alone. -/
structure Leftover (plan : Plan) (cl : Cluster) (n : String) : Prop where
  rewritten : rewritten confirmed desired ledger plan n = false
  removed : removed confirmed desired plan cl n = false
  created : svcName desired.stack n ∉ created confirmed desired plan.actions
  deleted : svcName desired.stack n ∉ deletedServices confirmed desired ledger plan

/-- Which routes the services have after a run. -/
structure RoutesAfter (plan : Plan) (cl w : Cluster) : Prop where
  gone : ∀ n, svcName desired.stack n ∈ deletedServices confirmed desired ledger plan ∨
    removed confirmed desired plan cl n = true → w.routesAt (svcName desired.stack n) = []
  written : ∀ n, rewritten confirmed desired ledger plan n = true →
    svcName desired.stack n ∉ deletedServices confirmed desired ledger plan →
    Written desired n (w.routesAt (svcName desired.stack n))
  reset : ∀ n, svcName desired.stack n ∈ created confirmed desired plan.actions →
    rewritten confirmed desired ledger plan n = false →
    w.routesAt (svcName desired.stack n) = []
  kept : ∀ n, Leftover confirmed desired ledger plan cl n →
    w.routesAt (svcName desired.stack n) = cl.routesAt (svcName desired.stack n)

variable {confirmed desired ledger}

theorem routesAt_congr {x : String} (h : w.view x = w'.view x) : w.routesAt x = w'.routesAt x := by
  rw [Cluster.routesAt_eq, h, ← Cluster.routesAt_eq]

/-- The phases, put together. -/
theorem routesAfter_of_phases
    (hremovals : ∀ n, removalRuns confirmed plan.actions n = true → isDesired desired n = false)
    {cl w₁ w₃ w₄ w₅ : Cluster} {p₁ p₃ p₄ p₅ : Progress}
    (h₁ : ResourcesDone confirmed desired ledger cl plan.actions p₁ w₁)
    (h₃ : Steady desired p₁.ledger w₁ p₃ w₃)
    (h₄ : RoutesDone confirmed desired ledger p₃.ledger plan w₃ (touched plan ledger) p₄ w₄)
    (h₅ : RemovalsDone confirmed desired.stack p₄.ledger.resource w₄ plan.actions p₅ w₅)
    (h₆ : DeletesDone confirmed desired ledger plan.actions w₅ plan.actions p w) :
    RoutesAfter confirmed desired ledger plan cl w := by
  -- An app service that is to be removed is as the resources have left it.
  have hview₄ : ∀ n, isDesired desired n = false →
      w₄.view (svcName desired.stack n) =
        if svcName desired.stack n ∈ created confirmed desired plan.actions then some (none, [])
        else cl.view (svcName desired.stack n) := by
    intro n hn
    rw [h₄.view n hn, h₃.view n hn, h₁.view]
  have hisApps : ∀ n, removalRuns confirmed plan.actions n = true →
      (w₄.isApps desired.stack (svcName desired.stack n) = true ↔
        removed confirmed desired plan cl n = true) := by
    intro n hn
    rw [Cluster.isApps, hview₄ n (hremovals n hn), removed, hn]
    split
    · next hc => simp [hc]
    · next hc => simp [hc, Cluster.isApps]
  have hview₅ : ∀ n, removed confirmed desired plan cl n = false →
      w₅.view (svcName desired.stack n) = w₄.view (svcName desired.stack n) := by
    intro n hn
    refine h₅.kept n ?_
    by_cases hr : removalRuns confirmed plan.actions n = true
    · refine .inr (Bool.eq_false_iff.mpr fun hc => ?_)
      rw [(hisApps n hr).mp hc] at hn
      cases hn
    · exact .inl (by simpa using hr)
  have hview₆ : ∀ n, svcName desired.stack n ∉ deletedServices confirmed desired ledger plan →
      w.view (svcName desired.stack n) = w₅.view (svcName desired.stack n) :=
    fun n hn => (h₆.view _).trans (if_neg hn)
  have hgone₆ : ∀ n, svcName desired.stack n ∈ deletedServices confirmed desired ledger plan →
      w.routesAt (svcName desired.stack n) = [] := by
    intro n hn
    rw [Cluster.routesAt_eq, (h₆.view _).trans (if_pos hn)]
    rfl
  have hdesired : ∀ n, isDesired desired n = true →
      removed confirmed desired plan cl n = false := by
    intro n hn
    refine Bool.eq_false_iff.mpr fun hc => ?_
    simp only [removed, Bool.and_eq_true] at hc
    rw [hremovals n hc.1.1] at hn
    cases hn
  have hroutes₁ : ∀ n, w₃.routesAt (svcName desired.stack n) =
      if svcName desired.stack n ∈ created confirmed desired plan.actions then []
      else cl.routesAt (svcName desired.stack n) := by
    intro n
    rw [h₃.routesAt, Cluster.routesAt_eq, h₁.view]
    split
    · rfl
    · rw [← Cluster.routesAt_eq]
  have hkept₄ : ∀ n, rewritten confirmed desired ledger plan n = false →
      w₄.routesAt (svcName desired.stack n) = w₃.routesAt (svcName desired.stack n) := by
    intro n hn
    refine h₄.kept n fun ⟨ht, hd, hm⟩ => ?_
    rw [rewritten, contains_iff_mem.mpr ht, hd, hm] at hn
    cases hn
  constructor
  case gone =>
    intro n hn
    by_cases hdel : svcName desired.stack n ∈ deletedServices confirmed desired ledger plan
    · exact hgone₆ n hdel
    · have hrem := hn.resolve_left hdel
      have hruns : removalRuns confirmed plan.actions n = true := by
        simp only [removed, Bool.and_eq_true] at hrem
        exact hrem.1.1
      rw [Cluster.routesAt_eq, hview₆ n hdel, h₅.gone n hruns ((hisApps n hruns).mpr hrem)]
      rfl
  case written =>
    intro n hn hdel
    simp only [rewritten, Bool.and_eq_true, contains_iff_mem] at hn
    rw [routesAt_congr (hview₆ n hdel), routesAt_congr (hview₅ n (hdesired n hn.1.2))]
    exact h₄.written n hn.1.1 hn.1.2 hn.2
  case reset =>
    intro n hc hn
    by_cases hdel : svcName desired.stack n ∈ deletedServices confirmed desired ledger plan
    · exact hgone₆ n hdel
    · have hrem : removed confirmed desired plan cl n = false := by
        simp [removed, hc]
      rw [routesAt_congr (hview₆ n hdel), routesAt_congr (hview₅ n hrem), hkept₄ n hn,
        hroutes₁, if_pos hc]
  case kept =>
    intro n hn
    rw [routesAt_congr (hview₆ n hn.deleted), routesAt_congr (hview₅ n hn.removed),
      hkept₄ n hn.rewritten, hroutes₁, if_neg hn.created]

/-- A run without a failure leaves these routes. -/
theorem applyPlan_returns {cl : Cluster}
    (hremovals : ∀ n, removalRuns confirmed plan.actions n = true → isDesired desired n = false) :
    Throughout (S := appSig) (carryOut desired.stack answers) (fun _ _ => True)
      (Returns (Unfailed fun _ w => RoutesAfter confirmed desired ledger plan cl w))
      (applyPlan confirmed desired plan wire ledger) cl := by
  have hstart := foldl_mark (plan.actions.filter fun a => !runnable confirmed a) .held
    { ledger, outcomes := ∅, failed := none, built := ∅ }
  have h₀ : Unfailed (ResourcesDone confirmed desired ledger cl [])
      (start confirmed plan ledger) cl := fun _ =>
    ⟨fun x => by simp [created], by rw [start, hstart.1], by rw [start, hstart.1]; rfl⟩
  refine (fold_returns (resourceStep_returns answers) plan.actions h₀).andThen fun p₁ w₁ h₁ => ?_
  have h₂ : Unfailed (Steady desired p₁.ledger w₁) p₁ w₁ :=
    fun _ => ⟨fun _ => rfl, fun _ _ => rfl, rfl, rfl⟩
  refine ((Idle.fold idle_buildStep _).past h₁
    (Keeps.fold (fun a _ => buildStep_keeps answers a) p₁ w₁ h₂)).andThen fun p₂ w₂ h₂ => ?_
  refine (idle_deployPhase.past (fun hp => (h₂ hp).1)
    (deployPhase_keeps answers wire p₂ w₂ fun hp => (h₂ hp).2)).andThen fun p₃ w₃ h₃ => ?_
  refine (idle_routePhase.past h₃ (routePhase_returns answers fun hp =>
    (h₃ hp).2.routes.trans (h₃ hp).1.routes)).andThen fun p₄ w₄ h₄ => ?_
  have hjobs : Unfailed (Settled p₄.ledger.resource w₄) p₄ w₄ := fun _ => ⟨fun _ => rfl, rfl⟩
  refine ((Idle.fold idle_jobStep _).past h₄
    (Keeps.fold (fun a _ => jobStep_keeps answers a) p₄ w₄ hjobs)).andThen fun p₅ w₅ h₅ => ?_
  have hremove : Unfailed (RemovalsDone confirmed desired.stack p₄.ledger.resource w₄ []) p₅ w₅ :=
    fun hp => ⟨(fun n hn => by simp [removalRuns] at hn), fun n _ => (h₅ hp).2.view _,
      (h₅ hp).2.resource⟩
  refine ((Idle.fold idle_removalStep _).past h₅
    (fold_returns (removalStep_returns answers) plan.actions hremove)).andThen fun p₆ w₆ h₆ => ?_
  have hdelete : Unfailed (DeletesDone confirmed desired ledger plan.actions w₆ []) p₆ w₆ :=
    fun hp => ⟨fun x => by simp [deletes], by
      obtain ⟨⟨⟨⟨hres, hsteady⟩, hroutes⟩, hjobs⟩, hrem⟩ := h₆ hp
      rw [hrem.resource, hroutes.resource, hsteady.resource, hres.resource]
      rfl⟩
  refine ((Idle.fold idle_deleteStep _).past h₆
    (fold_returns (deleteStep_returns answers) plan.actions hdelete)).andThen fun p₇ w₇ h₇ => ?_
  intro hp
  have hfinished := foldl_mark
    (plan.actions.filter fun a => (p₇.outcomes.lookup a.action.id).isNone) .skipped p₇
  obtain ⟨⟨⟨⟨⟨hres, hsteady⟩, hroutes⟩, -⟩, hrem⟩, hdel⟩ := h₇ (hfinished.2 ▸ hp)
  exact routesAfter_of_phases hremovals hres hsteady hroutes hrem hdel

end Phases


/-! ## When the routes are right -/

/-- The host and path of an address as a label has them. -/
def Address.served (a : Address) : String × String :=
  (a.host, if a.path = "/" then "" else a.path)

/-- The host and path a route of a label serves. -/
def Route.served (r : Route) : String × String := (Js.toLowerCase r.host, r.path)

/-- Some routes serve a host and path. -/
def Serves (routes : List Route) (k : String × String) : Prop := k ∈ routes.map Route.served

/-- A route of a label is the one the app wants. -/
structure Route.Carries (ρ : Route) (r : DesiredRoute) : Prop where
  served : ρ.served = r.addr.served
  port : ρ.port = r.port
  stripPrefix : ρ.stripPrefix = r.stripPath
  protection : ρ.protection = r.protection

theorem Address.path_ne_empty (a : Address) : a.path ≠ "" := by
  intro h
  have := a.path_slash
  rw [h] at this
  cases this

theorem Address.served_injective : Function.Injective Address.served := by
  intro a b h
  obtain ⟨hhost, hpath⟩ := Prod.mk.inj h
  refine Address.key_injective ?_
  unfold Address.key
  rw [hhost]
  split at hpath <;> split at hpath
  · next ha hb => rw [if_pos ha, if_pos hb]
  · exact absurd hpath.symm b.path_ne_empty
  · exact absurd hpath a.path_ne_empty
  · next ha hb => rw [if_neg ha, if_neg hb, hpath]

theorem served_ingressRoute (r : DesiredRoute) (access : Bool) :
    Route.served { ingressRoute r with access } = r.addr.served := by
  rw [Route.served, Address.served]
  exact congrArg (·, _) r.addr.host_lower

/-- What is on a label after its routes have been replaced. -/
theorem mem_setServiceRoutes {live : List Route} {rs : List DesiredRoute} {ρ : Route}
    (h : ρ ∈ setServiceRoutes live (rs.map ingressRoute)) :
    ∃ r ∈ rs, ∃ access, ρ = { ingressRoute r with access } := by
  obtain ⟨k, hk, hρ⟩ := mem_filterMap.mp h
  obtain ⟨σ, hσ, rfl⟩ := map_eq_some_iff.mp hρ
  obtain ⟨r, hr, rfl⟩ := mem_map.mp (Js.mapGet_mem hσ).1
  exact ⟨r, hr, _, rfl⟩

/-- A route of the set is on the label, if no other of the set has its address. -/
theorem exists_setServiceRoutes {live : List Route} {rs : List DesiredRoute} {r : DesiredRoute}
    (hr : r ∈ rs) (hrs : (rs.map (·.addr)).Nodup) :
    ∃ ρ ∈ setServiceRoutes live (rs.map ingressRoute), ρ.Carries r := by
  have hnodup : ((rs.map ingressRoute).map Route.key).Nodup := by
    rw [List.map_map]
    have hkey : Route.key ∘ ingressRoute = Address.served ∘ DesiredRoute.addr := rfl
    rw [hkey, ← List.map_map]
    exact hrs.map Address.served_injective
  have hmem := mem_map_of_mem (f := ingressRoute) hr
  refine ⟨{ ingressRoute r with
    access := (Js.mapGet Route.key live (ingressRoute r).key).any (·.access) }, ?_, ?_⟩
  · refine mem_filterMap.mpr ⟨(ingressRoute r).key, ?_, ?_⟩
    · exact Js.mem_unique.mpr (mem_map_of_mem hmem)
    · rw [(Js.mapGet_eq_some hnodup).mpr ⟨hmem, rfl⟩]
      rfl
  · exact ⟨served_ingressRoute r _, rfl, rfl, rfl⟩

section

variable {desired : DesiredApp}

theorem desiredRoutes_nodup (svc : String) : ((desiredRoutes desired svc).map (·.addr)).Nodup := by
  have h : ((desiredRoutes desired svc).map fun r => (r.service, r.addr)).Nodup :=
    desired.routes_nodup.sublist (filter_sublist.map _)
  refine List.Nodup.of_map (f := (svc, ·)) ?_
  rw [List.map_map]
  refine (List.map_congr_left fun r hr => ?_) ▸ h
  have : r.service = svc := by simpa using (mem_filter.mp hr).2
  rw [this]
  rfl

theorem mem_desiredRoutes {svc : String} {r : DesiredRoute} :
    r ∈ desiredRoutes desired svc ↔ r ∈ desired.routes ∧ r.service = svc := by
  simp [desiredRoutes]

theorem Written.serves_iff {svc : String} {routes : List Route} (h : Written desired svc routes)
    {k : String × String} :
    Serves routes k ↔ ∃ r ∈ desired.routes, r.service = svc ∧ r.addr.served = k := by
  obtain ⟨live, rfl⟩ := h
  constructor
  · intro hk
    obtain ⟨ρ, hρ, rfl⟩ := mem_map.mp hk
    obtain ⟨r, hr, access, rfl⟩ := mem_setServiceRoutes hρ
    obtain ⟨hr, hsvc⟩ := mem_desiredRoutes.mp hr
    exact ⟨r, hr, hsvc, (served_ingressRoute r access).symm⟩
  · rintro ⟨r, hr, hsvc, rfl⟩
    obtain ⟨ρ, hρ, hc⟩ := @exists_setServiceRoutes live _ _
      (mem_desiredRoutes.mpr ⟨hr, hsvc⟩) (desiredRoutes_nodup svc)
    exact mem_map.mpr ⟨ρ, hρ, hc.served⟩

theorem Written.carries {svc : String} {routes : List Route} (h : Written desired svc routes)
    {r : DesiredRoute} (hr : r ∈ desired.routes) (hsvc : r.service = svc) :
    ∃ ρ ∈ routes, ρ.Carries r := by
  obtain ⟨live, rfl⟩ := h
  exact exists_setServiceRoutes (mem_desiredRoutes.mpr ⟨hr, hsvc⟩) (desiredRoutes_nodup svc)

end

section

variable (confirmed : List String) (desired : DesiredApp) (ledger : AppLedger) (live : LiveApp)
variable (plan : Plan)

/-- The services the app wants, and those it has. -/
def appNames : List String := desired.services.map (·.name) ++ live.services.map (·.name)

/-- The route of a service needs no action, or its actions are carried out: a service's
route actions run together or not at all. -/
def Delivered (r : DesiredRoute) : Prop :=
  routeActions live r = [] ∨ routesMayRun confirmed ledger plan r.service = true

/-- The routes are as the app wants them. -/
structure RoutesRight (w : Cluster) : Prop where
  right : ∀ r ∈ desired.routes, Delivered confirmed ledger live plan r →
    ∃ ρ ∈ w.routesAt (svcName desired.stack r.service), ρ.Carries r
  dropped : ∀ l ∈ live.routes, l.key ∉ desired.routes.map (·.key) →
    ∀ n ∈ appNames desired live, ¬Serves (w.routesAt (svcName desired.stack n)) l.addr.served
  single : ∀ n ∈ appNames desired live, ∀ n' ∈ appNames desired live, n ≠ n' → ∀ k,
    Serves (w.routesAt (svcName desired.stack n)) k →
      ¬Serves (w.routesAt (svcName desired.stack n')) k

/-- A service whose routes the run has written and that it leaves there. -/
def Rewritten (n : String) : Prop :=
  rewritten confirmed desired ledger plan n = true ∧
    svcName desired.stack n ∉ deletedServices confirmed desired ledger plan

/-- Before the run: what a service that is neither rewritten nor removed serves is in
nobody's way, and a route that needs no action is there as it should be. -/
structure RoutesClear (cl : Cluster) : Prop where
  own : ∀ r ∈ desired.routes, Delivered confirmed ledger live plan r →
    Rewritten confirmed desired ledger plan r.service ∨
      Leftover confirmed desired ledger plan cl r.service ∧
        ∃ ρ ∈ cl.routesAt (svcName desired.stack r.service), ρ.Carries r
  dropped : ∀ l ∈ live.routes, l.key ∉ desired.routes.map (·.key) →
    ∀ n ∈ appNames desired live, Leftover confirmed desired ledger plan cl n →
      ¬Serves (cl.routesAt (svcName desired.stack n)) l.addr.served
  moved : ∀ n ∈ appNames desired live, Leftover confirmed desired ledger plan cl n →
    ∀ r ∈ desired.routes, r.service ≠ n → Rewritten confirmed desired ledger plan r.service →
      ¬Serves (cl.routesAt (svcName desired.stack n)) r.addr.served
  shared : ∀ n ∈ appNames desired live, ∀ n' ∈ appNames desired live, n ≠ n' →
    Leftover confirmed desired ledger plan cl n → Leftover confirmed desired ledger plan cl n' →
      ∀ k, Serves (cl.routesAt (svcName desired.stack n)) k →
        ¬Serves (cl.routesAt (svcName desired.stack n')) k
  twice : ∀ r ∈ desired.routes, ∀ r' ∈ desired.routes, r.service ≠ r'.service →
    Rewritten confirmed desired ledger plan r.service →
      Rewritten confirmed desired ledger plan r'.service → r.addr ≠ r'.addr

variable {confirmed desired ledger live plan}

/-- Who serves a host and path after a run: a service that has just been given it, or
one that was left alone. -/
theorem RoutesAfter.serves_iff {cl w : Cluster} (h : RoutesAfter confirmed desired ledger plan cl w)
    {n : String} {k : String × String} : Serves (w.routesAt (svcName desired.stack n)) k ↔
      (Rewritten confirmed desired ledger plan n ∧
        ∃ r ∈ desired.routes, r.service = n ∧ r.addr.served = k) ∨
      Leftover confirmed desired ledger plan cl n ∧
        Serves (cl.routesAt (svcName desired.stack n)) k := by
  constructor
  · intro hk
    have hempty : w.routesAt (svcName desired.stack n) ≠ [] := by
      intro he
      rw [he] at hk
      cases hk
    have hdel : svcName desired.stack n ∉ deletedServices confirmed desired ledger plan :=
      fun hd => hempty (h.gone n (.inl hd))
    cases hr : rewritten confirmed desired ledger plan n with
    | true => exact .inl ⟨⟨hr, hdel⟩, (h.written n hr hdel).serves_iff.mp hk⟩
    | false =>
      have hleft : Leftover confirmed desired ledger plan cl n :=
        ⟨hr, Bool.eq_false_iff.mpr fun hg => hempty (h.gone n (.inr hg)),
          fun hc => hempty (h.reset n hc hr), hdel⟩
      exact .inr ⟨hleft, h.kept n hleft ▸ hk⟩
  · rintro (⟨hr, hk⟩ | ⟨hleft, hk⟩)
    · exact (h.written n hr.1 hr.2).serves_iff.mpr hk
    · exact (h.kept n hleft).symm ▸ hk

theorem RoutesAfter.carries_iff {cl w : Cluster}
    (h : RoutesAfter confirmed desired ledger plan cl w) {r : DesiredRoute}
    (hr : r ∈ desired.routes) : (∃ ρ ∈ w.routesAt (svcName desired.stack r.service), ρ.Carries r) ↔
      Rewritten confirmed desired ledger plan r.service ∨
      Leftover confirmed desired ledger plan cl r.service ∧
        ∃ ρ ∈ cl.routesAt (svcName desired.stack r.service), ρ.Carries r := by
  constructor
  · rintro ⟨ρ, hρ, hc⟩
    have hserves : Serves (w.routesAt (svcName desired.stack r.service)) ρ.served :=
      mem_map_of_mem hρ
    rcases h.serves_iff.mp hserves with ⟨hw, -⟩ | ⟨hleft, -⟩
    · exact .inl hw
    · exact .inr ⟨hleft, ρ, h.kept _ hleft ▸ hρ, hc⟩
  · rintro (hw | ⟨hleft, ρ, hρ, hc⟩)
    · exact (h.written _ hw.1 hw.2).carries hr rfl
    · exact ⟨ρ, (h.kept _ hleft).symm ▸ hρ, hc⟩

theorem mem_appNames_of_route {r : DesiredRoute} (hr : r ∈ desired.routes) :
    r.service ∈ appNames desired live :=
  mem_append_left _ (desired.routes_service r hr)

theorem RoutesAfter.right_iff {cl w : Cluster} (h : RoutesAfter confirmed desired ledger plan cl w)
    : RoutesRight confirmed desired ledger live plan w ↔
      RoutesClear confirmed desired ledger live plan cl := by
  constructor
  · intro hr
    constructor
    case own => exact fun r hmem hd => (h.carries_iff hmem).mp (hr.right r hmem hd)
    case dropped =>
      exact fun l hl hk n hn hleft hs =>
        hr.dropped l hl hk n hn (h.serves_iff.mpr (.inr ⟨hleft, hs⟩))
    case moved =>
      intro n hn hleft r hmem hne hw hs
      exact hr.single n hn r.service (mem_appNames_of_route hmem) hne.symm r.addr.served
        (h.serves_iff.mpr (.inr ⟨hleft, hs⟩)) (h.serves_iff.mpr (.inl ⟨hw, r, hmem, rfl, rfl⟩))
    case shared =>
      intro n hn n' hn' hne hleft hleft' k hs hs'
      exact hr.single n hn n' hn' hne k (h.serves_iff.mpr (.inr ⟨hleft, hs⟩))
        (h.serves_iff.mpr (.inr ⟨hleft', hs'⟩))
    case twice =>
      intro r hmem r' hmem' hne hw hw' haddr
      exact hr.single r.service (mem_appNames_of_route hmem) r'.service
        (mem_appNames_of_route hmem') hne r.addr.served
        (h.serves_iff.mpr (.inl ⟨hw, r, hmem, rfl, rfl⟩))
        (h.serves_iff.mpr (.inl ⟨hw', r', hmem', rfl, by rw [haddr]⟩))
  · intro hc
    constructor
    case right => exact fun r hmem hd => (h.carries_iff hmem).mpr (hc.own r hmem hd)
    case dropped =>
      intro l hl hk n hn hs
      rcases h.serves_iff.mp hs with ⟨-, r, hmem, -, haddr⟩ | ⟨hleft, hs⟩
      · refine hk (mem_map.mpr ⟨r, hmem, ?_⟩)
        exact congrArg Address.key (Address.served_injective haddr)
      · exact hc.dropped l hl hk n hn hleft hs
    case single =>
      intro n hn n' hn' hne k hs hs'
      rcases h.serves_iff.mp hs with ⟨hw, r, hmem, rfl, rfl⟩ | ⟨hleft, hs⟩ <;>
        rcases h.serves_iff.mp hs' with ⟨hw', r', hmem', rfl, haddr⟩ | ⟨hleft', hs'⟩
      · exact hc.twice r hmem r' hmem' hne hw hw' (Address.served_injective haddr).symm
      · exact hc.moved n' hn' hleft' r hmem hne hw hs'
      · exact hc.moved n hn hleft r' hmem' hne.symm hw' (haddr ▸ hs)
      · exact hc.shared n hn n' hn' hne hleft hleft' k hs hs'

/-- A plan removes no service that the app wants. -/
theorem removalRuns_planApp {opts : PlanOptions} {n : String}
    (h : removalRuns confirmed (planApp desired live opts).actions n = true) :
    isDesired desired n = false := by
  obtain ⟨a, ha, hrun⟩ := any_eq_true.mp h
  simp only [Bool.and_eq_true, decide_eq_true_eq] at hrun
  obtain ⟨b, hb, hba⟩ := mem_planApp.mp ⟨a, ha, hrun.2⟩
  obtain ⟨l, hl, rfl⟩ := mem_map.mp (collected_serviceRemove hb hba)
  cases hba
  simpa [isDesired] using (mem_filter.mp hl).2

/-- What a run that ends without a failure makes of the routes. -/
theorem applyPlan_right_iff (answers : Answers) (wire : DesiredService → Wiring) (cl : Cluster)
    (hremovals : ∀ n, removalRuns confirmed plan.actions n = true → isDesired desired n = false) :
    ∃ p w, finish (S := appSig) (carryOut desired.stack answers)
        (applyPlan confirmed desired plan wire ledger) cl = (.ok p, w) ∧
      (p.failed = none → (RoutesRight confirmed desired ledger live plan w ↔
        RoutesClear confirmed desired ledger live plan cl)) := by
  have hreturns : Throughout (S := appSig) (carryOut desired.stack answers) (fun _ _ => True)
      (Returns (Unfailed fun _ w => RoutesAfter confirmed desired ledger plan cl w))
      (applyPlan confirmed desired plan wire ledger) cl :=
    applyPlan_returns answers wire hremovals
  have hrun := hreturns.finish
  cases hfin : finish (S := appSig) (carryOut desired.stack answers)
      (applyPlan confirmed desired plan wire ledger) cl with
  | mk r w =>
    rw [hfin] at hrun
    cases r with
    | ok p => exact ⟨p, w, rfl, fun hp => (hrun hp).right_iff⟩
    | error e => exact hrun.elim

/-- A run of a plan ends, and if no operation has failed the routes are right exactly
where nothing was in the way before. -/
theorem routesRight_iff (confirmed : List String) (desired : DesiredApp) (ledger : AppLedger)
    (answers : Answers) (wire : DesiredService → Wiring) (opts : PlanOptions) (cl : Cluster) :
    let live := readLiveApp desired.stack cl ledger desired.resources
    let plan := planApp desired live opts
    ∃ p w, finish (S := appSig) (carryOut desired.stack answers)
        (applyPlan confirmed desired plan wire ledger) cl = (.ok p, w) ∧
      (p.failed = none → (RoutesRight confirmed desired ledger live plan w ↔
        RoutesClear confirmed desired ledger live plan cl)) :=
  applyPlan_right_iff answers wire cl fun _ hn => removalRuns_planApp hn

end


/-! ## A route that moves -/

def shopAddress : Address where
  host := "shop.io"
  path := "/"
  host_lower := by decide
  host_slash := by decide
  path_slash := by decide

def shopService (name : String) : DesiredService where
  name := name
  source := .image "img"
  release := none
  replicas := 1
  volumes := []
  sig := "s"

/-- Two services, and one route: to `b`. -/
def shopApp : DesiredApp where
  stack := "shop"
  services := [shopService "a", shopService "b"]
  resources := []
  routes := [⟨shopAddress, "b", 80, false, none, "to-b"⟩]
  jobs := []
  connect := []
  services_nodup := by decide
  resources_nodup := by decide
  jobs_nodup := by decide
  routes_service := by decide
  routes_nodup := by decide

def shopLive (name : String) (routes : List Route) : SwarmService where
  image := "img"
  appStack := some "shop"
  appService := some name
  appSig := some "s"
  appBuild := none
  routes := routes
  replicas := 1
  env := []

/-- Both services run, and `a` has some routes. -/
def shopCluster (routes : List Route) : Cluster where
  services := ((∅ : Record SwarmService).insert "shop_a" (shopLive "a" routes)).insert "shop_b"
    (shopLive "b" [])
  jobs := []

/-- The route was applied to `a`. -/
def shopLedger : AppLedger :=
  emptyLedger.setRoute ⟨shopAddress, "a", 80, false, none, "to-a"⟩

def shopAnswers : Answers := ⟨fun _ => "img", fun _ => "bucket", fun _ => "job"⟩

def noWiring (_ : DesiredService) : Wiring := ⟨[], []⟩

/-- The plan for the two services with a cluster and a ledger. -/
def shopPlan (ledger : AppLedger) (cl : Cluster) : Plan :=
  planApp shopApp (readLiveApp "shop" cl ledger []) ⟨some [], false⟩

def shopRun (ledger : AppLedger) (cl : Cluster) : Except String Progress × Cluster :=
  finish (S := appSig) (carryOut "shop" shopAnswers)
    (applyPlan [] shopApp (shopPlan ledger cl) noWiring ledger) cl

/-- The service that a route has left still serves it. -/
theorem routesRight_moved : ¬∀ (confirmed : List String) (desired : DesiredApp)
    (ledger : AppLedger) (answers : Answers) (wire : DesiredService → Wiring)
    (opts : PlanOptions) (cl : Cluster) (p : Progress) (w : Cluster),
    finish (S := appSig) (carryOut desired.stack answers)
        (applyPlan confirmed desired
          (planApp desired (readLiveApp desired.stack cl ledger desired.resources) opts)
          wire ledger) cl = (.ok p, w) →
      p.failed = none →
        RoutesRight confirmed desired ledger
          (readLiveApp desired.stack cl ledger desired.resources)
          (planApp desired (readLiveApp desired.stack cl ledger desired.resources) opts) w := by
  intro h
  let cl := shopCluster [⟨"shop.io", "", 80, false, none, false⟩]
  have hfailed : (shopRun shopLedger cl).1.toOption.map (·.failed) = some none := by decide
  have ha : ("shop.io", "") ∈ ((shopRun shopLedger cl).2.routesAt "shop_a").map Route.served := by
    decide
  have hb : ("shop.io", "") ∈ ((shopRun shopLedger cl).2.routesAt "shop_b").map Route.served := by
    decide
  have hright := h [] shopApp shopLedger shopAnswers noWiring ⟨some [], false⟩ cl
  cases hrun : shopRun shopLedger cl with
  | mk r w =>
    rw [hrun] at hfailed ha hb
    cases r with
    | error e => cases hfailed
    | ok p =>
      refine (hright p w hrun (some.inj hfailed)).single "a" ?_ "b" ?_ ?_ _ ha hb
      · exact mem_append_left _ (by decide)
      · exact mem_append_left _ (by decide)
      · decide

/-- A route that is new to the app is served by its service alone. -/
theorem routesRight_added : ∃ p w, shopRun emptyLedger (shopCluster []) = (.ok p, w) ∧
    p.failed = none ∧
    RoutesRight [] shopApp emptyLedger (readLiveApp "shop" (shopCluster []) emptyLedger [])
      (shopPlan emptyLedger (shopCluster [])) w := by
  obtain ⟨p, w, hrun, hiff⟩ := routesRight_iff [] shopApp emptyLedger shopAnswers noWiring
    ⟨some [], false⟩ (shopCluster [])
  have hfailed : (shopRun emptyLedger (shopCluster [])).1.toOption.map (·.failed) = some none := by
    decide
  have hshop : shopRun emptyLedger (shopCluster []) = (.ok p, w) := hrun
  have hp : p.failed = none := by
    rw [hshop] at hfailed
    exact some.inj hfailed
  refine ⟨p, w, hshop, hp, (hiff hp).mpr ?_⟩
  have hrewritten : Rewritten [] shopApp emptyLedger (shopPlan emptyLedger (shopCluster [])) "b" :=
    ⟨by decide, by decide⟩
  have hempty : ∀ n k, ¬Serves ((shopCluster []).routesAt n) k := by
    intro n k hk
    have hroutes : (shopCluster []).routesAt n = [] := by
      unfold Cluster.routesAt shopCluster
      by_cases hb : n = "shop_b"
      · rw [hb, AList.lookup_insert]
        rfl
      · rw [AList.lookup_insert_ne hb]
        by_cases ha : n = "shop_a"
        · rw [ha, AList.lookup_insert]
          rfl
        · rw [AList.lookup_insert_ne ha]
          rfl
    rw [hroutes] at hk
    cases hk
  constructor
  case own =>
    intro r hr _
    obtain rfl := mem_singleton.mp hr
    exact .inl hrewritten
  case dropped => exact fun l hl hk n hn _ => hempty _ _
  case moved => exact fun n hn _ r hr _ _ => hempty _ _
  case shared => exact fun n hn n' hn' _ _ _ k _ => hempty _ _
  case twice =>
    intro r hr r' hr' hne
    obtain rfl := mem_singleton.mp hr
    obtain rfl := mem_singleton.mp hr'
    exact absurd rfl hne

end Swarmy.App
