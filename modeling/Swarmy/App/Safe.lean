import Swarmy.App.Ops

/-!
# What every plan keeps to

`planApp` over an arbitrary desired and live app: nothing that holds data goes without
a human, every data loss is in the plan, the actions have ids of their own and stand in
phase order, and a service runs the inputs it asks for, by a build of the plan or
because its image is up to date.
-/

namespace Swarmy.App

/-! ## Ids -/

namespace Action

/-- `KIND_ORDER`. -/
def kindOrder : List String :=
  ["resource.create", "resource.update", "build", "service.deploy", "route.add",
    "route.update", "job.create", "job.update", "link.add", "route.remove", "job.remove",
    "link.remove", "service.remove", "resource.delete"]

/-- What stands before the colon of an id. -/
def kind : Action → String
  | resourceCreate _ => "resource.create"
  | resourceUpdate _ => "resource.update"
  | build _ _ => "build"
  | serviceDeploy _ _ _ => "service.deploy"
  | routeAdd _ => "route.add"
  | routeUpdate _ => "route.update"
  | jobCreate _ => "job.create"
  | jobUpdate _ => "job.update"
  | linkAdd _ => "link.add"
  | routeRemove _ => "route.remove"
  | jobRemove _ => "job.remove"
  | linkRemove _ => "link.remove"
  | serviceRemove _ => "service.remove"
  | resourceDelete _ _ => "resource.delete"

/-- The rank of a kind is its place in the order. -/
theorem kindRank_eq (a : Action) : a.kindRank = kindOrder.idxOf a.kind := by
  cases a <;> rfl

/-- What stands behind the colon of an id. -/
def unit : Action → String
  | resourceCreate r | resourceUpdate r => r.name
  | resourceDelete name _ => name
  | build b _ => b.key
  | serviceDeploy _ _ s => s.name
  | serviceRemove name => name
  | routeAdd r | routeUpdate r => r.key
  | routeRemove addr => addr.key
  | jobCreate j | jobUpdate j => j.name
  | jobRemove name => name
  | linkAdd peer | linkRemove peer => peer

theorem prefix_eq {p k x : String} (h : p = k ++ ":") : p ++ x = k ++ ":" ++ x :=
  congrArg (· ++ x) h

theorem id_eq (a : Action) : a.id = a.kind ++ ":" ++ a.unit := by
  cases a <;> exact prefix_eq rfl

/-- A kind has no colon. -/
theorem kind_colon (a : Action) : ∀ c ∈ a.kind.toList, decide (c ≠ ':') = true := by
  refine List.all_eq_true.mp ?_
  cases a <;> simp only [kind] <;> decide

/-- Actions of one id are of one kind and about one unit. -/
theorem id_inj {a b : Action} (h : a.id = b.id) : a.kindRank = b.kindRank ∧ a.unit = b.unit := by
  have hchars : a.kind.toList ++ ':' :: a.unit.toList = b.kind.toList ++ ':' :: b.unit.toList := by
    have := congrArg String.toList h
    simpa [id_eq, String.toList_append] using this
  have hkind : a.kind = b.kind := by
    have := congrArg (List.takeWhile (· ≠ ':')) hchars
    rw [List.takeWhile_append_of_pos a.kind_colon,
      List.takeWhile_append_of_pos b.kind_colon] at this
    exact String.toList_inj.mp (by simpa using this)
  have hunit : a.unit = b.unit := by
    rw [hkind] at hchars
    exact String.toList_inj.mp (List.cons.inj (List.append_cancel_left hchars)).2
  exact ⟨by rw [kindRank_eq, kindRank_eq, hkind], hunit⟩

end Action

/-- The ids of some actions. -/
def ids (actions : List PlanAction) : List String := actions.map (·.action.id)

theorem ids_append {xs ys : List PlanAction} (hx : (ids xs).Nodup) (hy : (ids ys).Nodup)
    (h : ∀ a ∈ xs, ∀ b ∈ ys,
      a.action.kindRank ≠ b.action.kindRank ∨ a.action.unit ≠ b.action.unit) :
    (ids (xs ++ ys)).Nodup := by
  unfold ids at *
  rw [List.map_append]
  refine hx.append hy ?_
  intro i hi hi'
  obtain ⟨a, ha, rfl⟩ := List.mem_map.mp hi
  obtain ⟨b, hb, hab⟩ := List.mem_map.mp hi'
  obtain ⟨hkind, hunit⟩ := Action.id_inj hab
  rcases h a ha b hb with h | h
  · exact h hkind.symm
  · exact h hunit.symm

/-- One action for each unit. -/
theorem ids_map {α : Type} {f : α → PlanAction} {n : α → String} {xs : List α}
    (hxs : (xs.map n).Nodup) (hunit : ∀ x, (f x).action.unit = n x) : (ids (xs.map f)).Nodup := by
  unfold ids
  rw [List.map_map]
  refine (List.pairwise_map.mpr ?_)
  refine (List.pairwise_map.mp hxs).imp ?_
  intro x y hne hid
  refine hne ?_
  rw [← hunit x, ← hunit y]
  exact (Action.id_inj hid).2

/-- Actions for each unit. -/
theorem ids_flatMap {α : Type} {f : α → List PlanAction} {n : α → String} {xs : List α}
    (hxs : (xs.map n).Nodup) (hf : ∀ x, (ids (f x)).Nodup)
    (hunit : ∀ x, ∀ a ∈ f x, a.action.unit = n x) : (ids (xs.flatMap f)).Nodup := by
  unfold ids at *
  rw [List.map_flatMap, List.nodup_flatMap]
  refine ⟨fun x _ => hf x, (List.pairwise_map.mp hxs).imp ?_⟩
  intro x y hne i hi hi'
  obtain ⟨a, ha, rfl⟩ := List.mem_map.mp hi
  obtain ⟨b, hb, hab⟩ := List.mem_map.mp hi'
  refine hne ?_
  rw [← hunit x a ha, ← hunit y b hb]
  exact (Action.id_inj hab).2.symm

/-- The ids differ and the kinds come from a place on. -/
def Ranked (k : Nat) (xs : List PlanAction) : Prop :=
  (ids xs).Nodup ∧ ∀ a ∈ xs, k ≤ a.action.kindRank

/-- A piece of a plan in front of later ones. -/
theorem Ranked.cons {k m : Nat} {p q : List PlanAction} (h : Ranked m q)
    (hp : (ids p).Nodup) (hk : ∀ a ∈ p, k ≤ a.action.kindRank ∧ a.action.kindRank < m)
    (hkm : k ≤ m) : Ranked k (p ++ q) := by
  constructor
  · refine ids_append hp h.1 ?_
    intro a ha b hb
    have h₁ := (hk a ha).2
    have h₂ := h.2 b hb
    exact .inl (by omega)
  · intro a ha
    rcases List.mem_append.mp ha with ha | ha
    · exact (hk a ha).1
    · exact hkm.trans (h.2 a ha)

section

variable {desired : DesiredApp} {live : LiveApp} {opts : PlanOptions}

/-! ## The kinds of the pieces -/

theorem resourceActions_ids (r : DesiredResource) : (ids (resourceActions live r)).Nodup := by
  unfold resourceActions
  split
  · exact List.nodup_singleton _
  · split
    · have hne : Action.id (.resourceDelete r.name ‹LiveResource›.type) ≠
          Action.id (.resourceCreate r) := fun h => by cases (Action.id_inj h).1
      simpa [ids] using hne
    · split
      · exact List.nodup_nil
      · exact List.nodup_singleton _

theorem deployActions_ids (s : DesiredService) :
    (ids (deployActions desired live opts s)).Nodup := by
  unfold deployActions
  split
  · exact List.nodup_singleton _
  · split
    · exact List.nodup_nil
    · exact List.nodup_singleton _

theorem routeActions_ids (r : DesiredRoute) : (ids (routeActions live r)).Nodup := by
  unfold routeActions
  split
  · exact List.nodup_singleton _
  · split
    · exact List.nodup_singleton _
    · exact List.nodup_nil

theorem jobActions_ids (j : DesiredJob) : (ids (jobActions live j)).Nodup := by
  unfold jobActions
  split
  · exact List.nodup_singleton _
  · split
    · exact List.nodup_singleton _
    · exact List.nodup_nil

variable {b : BuildSource} {s : DesiredService} {a : PlanAction}

/-- Each key has one build. -/
theorem buildSources_key {key : String} (h : (desired.services.findSome? fun s =>
      match s.source with
      | .build b => if b.key = key then some b else none
      | .image _ => none) = some b) : b.key = key := by
  obtain ⟨s, -, hs⟩ := List.exists_of_findSome?_eq_some h
  split at hs
  · split at hs
    · cases hs
      assumption
    · cases hs
  · cases hs

theorem buildSources_nodup : ((buildSources desired).map (·.key)).Nodup := by
  unfold buildSources
  have hkeys := Js.nodup_unique (desired.services.filterMap (·.source.buildKey))
  revert hkeys
  generalize Js.unique (desired.services.filterMap (·.source.buildKey)) = keys
  intro hkeys
  refine List.Sublist.nodup ?_ hkeys
  induction keys with
  | nil => exact .slnil
  | cons k ks ih =>
    rw [List.filterMap_cons]
    split
    · exact (ih hkeys.of_cons).cons _
    · next b hb =>
        rw [List.map_cons, buildSources_key hb]
        exact (ih hkeys.of_cons).cons_cons _

/-- A service built from source has its key among the builds. -/
theorem exists_buildSource (hs : s ∈ desired.services) (hb : s.source = .build b) :
    ∃ b' ∈ buildSources desired, b'.key = b.key ∧
      ∃ s' ∈ desired.services, s'.source = .build b' := by
  have hkey : b.key ∈ Js.unique (desired.services.filterMap (·.source.buildKey)) :=
    Js.mem_unique.mpr (List.mem_filterMap.mpr ⟨s, hs, by rw [hb]; rfl⟩)
  cases hfound : desired.services.findSome? fun s =>
      match s.source with
      | .build b' => if b'.key = b.key then some b' else none
      | .image _ => none with
  | none =>
    have := List.findSome?_eq_none_iff.mp hfound s hs
    simp [hb] at this
  | some b' =>
    refine ⟨b', List.mem_filterMap.mpr ⟨_, hkey, hfound⟩, buildSources_key hfound, ?_⟩
    obtain ⟨s', hs', h⟩ := List.exists_of_findSome?_eq_some hfound
    refine ⟨s', hs', ?_⟩
    split at h
    · next b'' hb'' =>
        split at h
        · cases h
          exact hb''
        · cases h
    · cases h

/-! ## Distinct names -/

/-- Units have names of their own: in a desired app its routes, peers and build inputs
(the rest it has by its type), and in a live app everything. -/
structure Named (desired : DesiredApp) (live : LiveApp) : Prop where
  routes : (desired.routes.map (·.key)).Nodup
  connect : desired.connect.Nodup
  /-- A key is the signature of the inputs. -/
  inputs : ∀ s ∈ desired.services, ∀ s' ∈ desired.services, ∀ b b', s.source = .build b →
    s'.source = .build b' → b.key = b'.key → b = b'
  liveServices : (live.services.map (·.name)).Nodup
  liveResources : (live.resources.map (·.name)).Nodup
  liveRoutes : (live.routes.map (·.key)).Nodup
  liveJobs : (live.jobs.map (·.name)).Nodup
  liveConnect : live.connect.Nodup

/-- What is left of distinct names is distinct. -/
theorem nodup_map_filter {α β : Type} {f : α → β} {p : α → Bool} {xs : List α}
    (h : (xs.map f).Nodup) : ((xs.filter p).map f).Nodup :=
  (List.filter_sublist.map f).nodup h

theorem rank_map {α : Type} {f : α → PlanAction} {xs : List α} {k : Nat}
    (h : ∀ x, (f x).action.kindRank = k) :
    ∀ a ∈ xs.map f, k ≤ a.action.kindRank ∧ a.action.kindRank < k + 1 := by
  intro a ha
  obtain ⟨x, -, rfl⟩ := List.mem_map.mp ha
  have := h x
  omega

/-- The removals. -/
theorem ranked_removals (hn : Named desired live) :
    Ranked 9 (routeRemovals desired live ++ (jobRemovals desired live ++
      (linkRemovals desired live ++ (serviceRemovals desired live ++
        resourceDeletes desired live)))) := by
  have hdeletes : Ranked 13 (resourceDeletes desired live) :=
    ⟨ids_map (nodup_map_filter hn.liveResources) fun _ => rfl,
      fun a ha => (rank_map (k := 13) (fun _ => rfl) a ha).1⟩
  have hservices := hdeletes.cons (k := 12) (p := serviceRemovals desired live)
    (ids_map (nodup_map_filter hn.liveServices) fun _ => rfl) (rank_map fun _ => rfl) (by decide)
  have hlinks := hservices.cons (k := 11) (p := linkRemovals desired live)
    (ids_map (n := id) (nodup_map_filter (by simpa using hn.liveConnect)) fun _ => rfl)
    (rank_map fun _ => rfl) (by decide)
  have hjobs := hlinks.cons (k := 10) (p := jobRemovals desired live)
    (ids_map (nodup_map_filter hn.liveJobs) fun _ => rfl) (rank_map fun _ => rfl) (by decide)
  exact hjobs.cons (k := 9)
    (ids_map (nodup_map_filter hn.liveRoutes) fun _ => rfl) (rank_map fun _ => rfl) (by decide)

/-- What is built, deployed, routed, scheduled and linked, and the removals. -/
theorem ranked_rest (hn : Named desired live) : Ranked 2 (buildActions desired live opts ++
      (desired.services.flatMap (deployActions desired live opts) ++
        (desired.routes.flatMap (routeActions live) ++
          (desired.jobs.flatMap (jobActions live) ++ (linkAdds desired live ++
            (routeRemovals desired live ++ (jobRemovals desired live ++
              (linkRemovals desired live ++ (serviceRemovals desired live ++
                resourceDeletes desired live))))))))) := by
  have hlinks := (ranked_removals hn).cons (k := 8) (p := linkAdds desired live)
    (ids_map (n := id) (nodup_map_filter (by simpa using hn.connect)) fun _ => rfl)
    (rank_map fun _ => rfl) (by decide)
  have hjobs := hlinks.cons (k := 6) (p := desired.jobs.flatMap (jobActions live))
    (ids_flatMap desired.jobs_nodup jobActions_ids fun j a ha => by
      rcases jobActions_kind ha with h | h <;> rw [h] <;> rfl)
    (fun a ha => by
      obtain ⟨j, -, hj⟩ := List.mem_flatMap.mp ha
      rcases jobActions_kind hj with h | h <;> rw [h] <;> simp [Action.kindRank])
    (by decide)
  have hroutes := hjobs.cons (k := 4) (p := desired.routes.flatMap (routeActions live))
    (ids_flatMap hn.routes routeActions_ids fun r a ha => by
      rcases routeActions_kind ha with h | h <;> rw [h] <;> rfl)
    (fun a ha => by
      obtain ⟨r, -, hr⟩ := List.mem_flatMap.mp ha
      rcases routeActions_kind hr with h | h <;> rw [h] <;> simp [Action.kindRank])
    (by decide)
  have hdeploys := hroutes.cons (k := 3)
    (p := desired.services.flatMap (deployActions desired live opts))
    (ids_flatMap desired.services_nodup deployActions_ids fun s a ha => by
      obtain ⟨op, image, h⟩ := deployActions_kind ha
      rw [h]
      rfl)
    (fun a ha => by
      obtain ⟨s, -, hs⟩ := List.mem_flatMap.mp ha
      obtain ⟨op, image, h⟩ := deployActions_kind hs
      rw [h]
      simp [Action.kindRank])
    (by decide)
  exact hdeploys.cons (k := 2)
    (ids_map (nodup_map_filter buildSources_nodup) fun _ => rfl) (rank_map fun _ => rfl) (by decide)

/-- A data delete among the removals is of a resource that is not desired. -/
theorem rest_resourceDelete {b : PlanAction} (hb : b ∈ buildActions desired live opts ++
      (desired.services.flatMap (deployActions desired live opts) ++
        (desired.routes.flatMap (routeActions live) ++
          (desired.jobs.flatMap (jobActions live) ++ (linkAdds desired live ++
            (routeRemovals desired live ++ (jobRemovals desired live ++
              (linkRemovals desired live ++ (serviceRemovals desired live ++
                resourceDeletes desired live))))))))) (hrank : b.action.kindRank = 13) :
    b.action.unit ∉ desired.resources.map (·.name) := by
  simp only [List.mem_append, List.mem_flatMap] at hb
  rcases hb with h | ⟨s, -, h⟩ | ⟨r, -, h⟩ | ⟨j, -, h⟩ | h | h | h | h | h | h
  · obtain ⟨x, -, rfl⟩ := List.mem_map.mp h
    cases hrank
  · obtain ⟨op, image, h⟩ := deployActions_kind h
    rw [h] at hrank
    cases hrank
  · rcases routeActions_kind h with h | h <;> rw [h] at hrank <;> cases hrank
  · rcases jobActions_kind h with h | h <;> rw [h] at hrank <;> cases hrank
  · obtain ⟨x, -, rfl⟩ := List.mem_map.mp h
    cases hrank
  · obtain ⟨x, -, rfl⟩ := List.mem_map.mp h
    cases hrank
  · obtain ⟨x, -, rfl⟩ := List.mem_map.mp h
    cases hrank
  · obtain ⟨x, -, rfl⟩ := List.mem_map.mp h
    cases hrank
  · obtain ⟨x, -, rfl⟩ := List.mem_map.mp h
    cases hrank
  · obtain ⟨l, hl, rfl⟩ := List.mem_map.mp h
    show l.name ∉ _
    simpa using (List.mem_filter.mp hl).2

/-- The collected actions have ids of their own. -/
theorem collected_ids (hn : Named desired live) : (ids (collected desired live opts)).Nodup := by
  unfold collected
  simp only [List.append_assoc]
  refine ids_append ?_ (ranked_rest hn).1 ?_
  · refine ids_flatMap (n := (·.name)) ?_ resourceActions_ids fun r a ha => ?_
    · exact ((List.perm_insertionSort _ _).map _).nodup_iff.mpr desired.resources_nodup
    · rcases resourceActions_kind ha with h | h | ⟨type, h⟩ <;> rw [h] <;> rfl
  · intro a ha b hb
    obtain ⟨r, hr, ha⟩ := List.mem_flatMap.mp ha
    have hle := (ranked_rest hn).2 b hb
    rcases resourceActions_kind ha with h | h | ⟨type, h⟩
    · exact .inl fun he => by rw [← he, h] at hle; exact absurd hle (by simp [Action.kindRank])
    · exact .inl fun he => by rw [← he, h] at hle; exact absurd hle (by simp [Action.kindRank])
    · by_cases hrank : b.action.kindRank = 13
      · refine .inr fun he => rest_resourceDelete hb hrank ?_
        rw [← he, h]
        exact List.mem_map_of_mem (mem_resOrder.mp hr)
      · exact .inl fun he => hrank (by rw [← he, h]; rfl)

/-! ## Where an action comes from -/

/-- What the planner has seen to before it adds an action. -/
def Grounded (desired : DesiredApp) (live : LiveApp) (opts : PlanOptions) (a : PlanAction) : Prop :=
  match a.action with
  | .resourceDelete _ _ => a.gate = .confirm
  | .build b services => a ∈ buildActions desired live opts ∧
      services = (servicesOfKey desired b.key).map (·.name)
  | .serviceDeploy _ _ s => s ∈ desired.services ∧ a ∈ deployActions desired live opts s
  | .serviceRemove _ => a ∈ serviceRemovals desired live
  | _ => True

theorem grounded_of_mem (h : a ∈ collected desired live opts) : Grounded desired live opts a := by
  rcases mem_collected.mp h with
    ⟨r, _, h⟩ | h | ⟨s, hs, h⟩ | ⟨r, _, h⟩ | ⟨j, _, h⟩ | h | h | h | h | h | h
  · unfold resourceActions at h
    split at h
    · rw [List.mem_singleton.mp h]
      trivial
    · split at h
      · rcases List.mem_pair.mp h with rfl | rfl
        · exact rfl
        · trivial
      · split at h
        · cases h
        · rw [List.mem_singleton.mp h]
          trivial
  · have hmem := h
    obtain ⟨b, -, rfl⟩ := List.mem_map.mp h
    exact ⟨hmem, rfl⟩
  · obtain ⟨op, image, ha⟩ := deployActions_kind h
    unfold Grounded
    rw [ha]
    exact ⟨hs, h⟩
  · unfold Grounded
    rcases routeActions_kind h with h | h <;> rw [h] <;> trivial
  · unfold Grounded
    rcases jobActions_kind h with h | h <;> rw [h] <;> trivial
  · obtain ⟨p, -, rfl⟩ := List.mem_map.mp h
    trivial
  · obtain ⟨p, -, rfl⟩ := List.mem_map.mp h
    trivial
  · obtain ⟨p, -, rfl⟩ := List.mem_map.mp h
    trivial
  · obtain ⟨p, -, rfl⟩ := List.mem_map.mp h
    trivial
  · have hmem := h
    obtain ⟨l, -, rfl⟩ := List.mem_map.mp h
    exact hmem
  · obtain ⟨l, -, rfl⟩ := List.mem_map.mp h
    exact rfl

/-- Approval only takes `auto` away. -/
theorem auto_of_withApproval {b : Bool} (h : (withApproval b a).gate = .auto) :
    withApproval b a = a := by
  unfold withApproval at *
  split at h
  · cases h
  · next hc => rw [if_neg hc]

theorem withApproval_confirm {b : Bool} (h : a.gate = .confirm) : withApproval b a = a := by
  unfold withApproval
  rw [if_neg (by simp [h])]

theorem mem_actions : a ∈ (planApp desired live opts).actions ↔
    ∃ c ∈ collected desired live opts, withApproval opts.requireApproval c = a := by
  unfold planApp
  simp only [List.mem_map, mem_sortActions]

/-- What runs on its own was collected so. -/
theorem collected_of_auto (h : a ∈ (planApp desired live opts).actions)
    (hauto : a.gate = .auto) : a ∈ collected desired live opts := by
  obtain ⟨c, hc, rfl⟩ := mem_actions.mp h
  rw [auto_of_withApproval hauto]
  exact hc

theorem mem_actions_of_confirm (h : a ∈ collected desired live opts)
    (hgate : a.gate = .confirm) : a ∈ (planApp desired live opts).actions :=
  mem_actions.mpr ⟨a, h, withApproval_confirm hgate⟩

/-! ## Builds -/

/-- What is deployed from a build is built. -/
theorem mem_building (hs : s ∈ desired.services) (hb : s.source = .build b)
    (h : liveService live s.name = none ∨ rebuilt desired live opts s = true) :
    ∃ b' ∈ building desired live opts, b'.key = b.key := by
  rcases h with h | h
  · obtain ⟨b', hb', hkey, -⟩ := exists_buildSource hs hb
    refine ⟨b', List.mem_filter.mpr ⟨hb', ?_⟩, hkey⟩
    unfold needsBuild
    rw [Bool.or_eq_true]
    refine .inl (List.any_eq_true.mpr ⟨s, ?_, ?_⟩)
    · exact List.mem_filter.mpr ⟨hs, by simp [hb, Source.buildKey, hkey]⟩
    · unfold outdated
      rw [h]
  · unfold rebuilt at h
    rw [hb] at h
    obtain ⟨b', hb', hkey⟩ := List.mem_map.mp (List.contains_iff_mem.mp h)
    exact ⟨b', hb', hkey⟩

/-- A changed path lies under a watched one; swarmy.yaml is config, not input. -/
def Moved (paths watch : List String) : Prop :=
  ∃ c ∈ paths, c ∉ configFiles ∧ ∃ w ∈ watch, w = "." ∨ c = w ∨ Js.startsWith c (w ++ "/") = true

theorem touches_iff {paths watch : List String} :
    touches (paths.filter fun p => !configFiles.contains p) watch = true ↔ Moved paths watch := by
  simp only [touches, Moved, List.any_eq_true, List.mem_filter, Bool.or_eq_true, beq_iff_eq,
    Bool.not_eq_true', or_assoc, and_assoc]
  simp

/-- What is not rebuilt runs what it asks for. -/
theorem current_of_not_rebuilt (hn : Named desired live) (hs : s ∈ desired.services)
    (hb : s.source = .build b) (h : rebuilt desired live opts s = false) :
    ∃ l, liveService live s.name = some l ∧ l.buildKey = some b.key ∧
      ∃ paths, opts.changedPaths = some paths ∧ ¬Moved paths b.watch := by
  obtain ⟨b', hb', hkey, s', hs', hs'b⟩ := exists_buildSource hs hb
  obtain rfl := hn.inputs s' hs' s hs b' b hs'b hb hkey
  have hno : needsBuild desired live opts b' = false := by
    by_contra hyes
    have hmem : b' ∈ building desired live opts :=
      List.mem_filter.mpr ⟨hb', by simpa using hyes⟩
    have hrebuilt : rebuilt desired live opts s = true := by
      unfold rebuilt
      rw [hb]
      exact List.contains_iff_mem.mpr (List.mem_map_of_mem hmem)
    rw [h] at hrebuilt
    cases hrebuilt
  obtain ⟨hservices, hpaths⟩ := Bool.or_eq_false_iff.mp hno
  have hmem : s ∈ servicesOfKey desired b'.key :=
    List.mem_filter.mpr ⟨hs, by simp [hb, Source.buildKey]⟩
  have hcurrent : outdated live b'.key s = false := by
    simpa using List.any_eq_false.mp hservices s hmem
  unfold outdated at hcurrent
  split at hcurrent
  · cases hcurrent
  · next l hl =>
      refine ⟨l, hl, by simpa using hcurrent, ?_⟩
      split at hpaths
      · cases hpaths
      · next paths hp =>
          refine ⟨paths, hp, fun hm => ?_⟩
          rw [touches_iff.mpr hm] at hpaths
          cases hpaths

/-! ## The plan -/

/-- What a plan keeps to. -/
structure Safe (desired : DesiredApp) (live : LiveApp) (opts : PlanOptions) (plan : Plan) :
    Prop where
  /-- Data is deleted by a human only. -/
  deletes_held : ∀ a ∈ plan.actions, a.gate = .auto → ∀ name type,
    a.action ≠ .resourceDelete name type
  /-- So is a service that mounts volumes. -/
  removals_held : ∀ a ∈ plan.actions, a.gate = .auto → ∀ name, a.action = .serviceRemove name →
    ∀ l ∈ live.services, l.name = name → l.volumes = []
  /-- What is deployed keeps its volumes. -/
  volumes_kept : ∀ a ∈ plan.actions, a.gate = .auto → ∀ op image s,
    a.action = .serviceDeploy op image s → ∀ l ∈ live.services, l.name = s.name →
      ∀ v ∈ l.volumes, v ∈ s.volumes
  /-- A resource that is to go or to be of another type has its delete. -/
  deletes_shown : ∀ l ∈ live.resources,
    (∀ r ∈ desired.resources, r.name = l.name → r.type ≠ l.type) →
      ⟨.confirm, .resourceDelete l.name l.type⟩ ∈ plan.actions
  ids_nodup : (ids plan.actions).Nodup
  phases : plan.actions.Pairwise fun a b => a.action.phase ≤ b.action.phase
  blocked : plan.status = .blocked ↔ ∃ a ∈ plan.actions, a.gate = .blocked
  /-- What is deployed from a build is built by the plan. -/
  built : ∀ a ∈ plan.actions, ∀ op key s, a.action = .serviceDeploy op (.fromBuild key) s →
    ∃ a' ∈ plan.actions, ∃ b services, a'.action = .build b services ∧ b.key = key
  /-- A service built from source that no action gives another image than its live one
  runs the inputs it asks for. -/
  current : ∀ s ∈ desired.services, ∀ b, s.source = .build b →
    (∀ a ∈ plan.actions, ∀ op image, a.action = .serviceDeploy op image s →
      ∃ l ∈ live.services, l.name = s.name ∧ image = .image l.image) →
    ∃ l ∈ live.services, l.name = s.name ∧ l.buildKey = some b.key ∧
      ∃ paths, opts.changedPaths = some paths ∧ ¬Moved paths b.watch

theorem plan_deletes_shown (hn : Named desired live) {l : LiveResource} (hl : l ∈ live.resources)
    (h : ∀ r ∈ desired.resources, r.name = l.name → r.type ≠ l.type) :
    ⟨.confirm, .resourceDelete l.name l.type⟩ ∈ (planApp desired live opts).actions := by
  refine mem_actions_of_confirm ?_ rfl
  by_cases hr : ∃ r ∈ desired.resources, r.name = l.name
  · obtain ⟨r, hr, hname⟩ := hr
    have hfound : liveResource live r.name = some l :=
      (Js.mapGet_eq_some hn.liveResources).mpr ⟨hl, hname.symm⟩
    refine mem_collected.mpr (.inl ⟨r, hr, ?_⟩)
    unfold resourceActions
    rw [hfound]
    simp only
    rw [if_pos (h r hr hname).symm, hname]
    exact List.mem_cons_self
  · have hmem : ⟨.confirm, .resourceDelete l.name l.type⟩ ∈ resourceDeletes desired live :=
      List.mem_map.mpr ⟨l, List.mem_filter.mpr ⟨hl, by simpa using hr⟩, rfl⟩
    simp only [mem_collected, hmem, or_true]

theorem plan_ids (hn : Named desired live) : (ids (planApp desired live opts).actions).Nodup := by
  have h : ids (planApp desired live opts).actions =
      ids (sortActions (collected desired live opts)) := by
    unfold planApp ids
    rw [List.map_map]
    exact List.map_congr_left fun a _ => by
      rw [Function.comp_apply, withApproval_action]
  rw [h]
  exact ((List.perm_insertionSort _ _).map _).nodup_iff.mpr (collected_ids hn)

/-- By phase, then by kind. -/
def PlanAction.Before (a b : PlanAction) : Prop :=
  a.action.phase < b.action.phase ∨
    a.action.phase = b.action.phase ∧ a.action.kindRank ≤ b.action.kindRank

instance : IsTrans PlanAction PlanAction.Before :=
  ⟨fun a b c hab hbc => by unfold PlanAction.Before at *; omega⟩

instance : Std.Total PlanAction.Before :=
  ⟨fun a b => by unfold PlanAction.Before; omega⟩

instance : DecidableRel PlanAction.Before :=
  fun a b => by unfold PlanAction.Before; infer_instance

theorem plan_phases : (planApp desired live opts).actions.Pairwise
    fun a b => a.action.phase ≤ b.action.phase := by
  have hsorted : (sortActions (collected desired live opts)).Pairwise PlanAction.Before :=
    List.pairwise_insertionSort PlanAction.Before _
  refine List.pairwise_map.mpr (hsorted.imp ?_)
  intro a b hab
  rw [withApproval_action, withApproval_action]
  unfold PlanAction.Before at hab
  omega

theorem planStatus_blocked {actions : List PlanAction} :
    planStatus actions = .blocked ↔ ∃ a ∈ actions, a.gate = .blocked := by
  have hany : actions.any (·.gate = .blocked) = true ↔ ∃ a ∈ actions, a.gate = .blocked := by
    simp
  unfold planStatus
  rw [← hany]
  cases actions.any (·.gate = .blocked) with
  | true => simp
  | false =>
    simp only [Bool.false_eq_true, if_false, iff_false]
    split
    · exact nofun
    · split
      · exact nofun
      · exact nofun

theorem planApp_status : (planApp desired live opts).status =
    planStatus (planApp desired live opts).actions := by
  unfold planApp
  generalize (sortActions (collected desired live opts)).map (withApproval opts.requireApproval) =
    actions
  rfl

/-- What is deployed of a service, and when without a human. -/
theorem deployActions_spec (h : a ∈ deployActions desired live opts s) :
    (∃ op, a.action = .serviceDeploy op
      (imageFor s (liveService live s.name) (rebuilt desired live opts s)) s) ∧
    (a.gate = .auto → ∀ l, liveService live s.name = some l → ∀ v ∈ l.volumes, v ∈ s.volumes) := by
  unfold deployActions at h
  split at h
  · next hnone =>
      rw [List.mem_singleton.mp h, hnone]
      exact ⟨⟨_, rfl⟩, fun _ l hl => by cases hl⟩
  · next l hl =>
      split at h
      · cases h
      · rw [List.mem_singleton.mp h, hl]
        refine ⟨⟨_, rfl⟩, fun hauto l' hl' v hv => ?_⟩
        cases hl'
        split at hauto
        · next hempty =>
            have := List.filter_eq_nil_iff.mp (List.isEmpty_iff.mp hempty) v hv
            simpa using this
        · cases hauto

theorem imageFor_fromBuild {l : Option LiveService} {r : Bool} {key : String}
    (h : imageFor s l r = .fromBuild key) :
    ∃ b, s.source = .build b ∧ b.key = key ∧ (l = none ∨ r = true) := by
  unfold imageFor at h
  cases hs : s.source with
  | image i =>
    rw [hs] at h
    cases h
  | build b =>
    rw [hs] at h
    refine ⟨b, rfl, ?_⟩
    cases l with
    | none => exact ⟨ImageRef.fromBuild.inj h, .inl rfl⟩
    | some l =>
      cases r with
      | true => exact ⟨ImageRef.fromBuild.inj h, .inr rfl⟩
      | false => cases h

theorem plan_built (ha : a ∈ (planApp desired live opts).actions) {op : DeployOp}
    {key : String} (hact : a.action = .serviceDeploy op (.fromBuild key) s) :
    ∃ a' ∈ (planApp desired live opts).actions, ∃ b services,
      a'.action = .build b services ∧ b.key = key := by
  obtain ⟨c, hc, rfl⟩ := mem_actions.mp ha
  rw [withApproval_action] at hact
  have hg := grounded_of_mem hc
  unfold Grounded at hg
  rw [hact] at hg
  obtain ⟨hs, hmem⟩ := hg
  obtain ⟨⟨op', hact'⟩, -⟩ := deployActions_spec hmem
  obtain ⟨b, hb, hkey, hnew⟩ :=
    imageFor_fromBuild (Action.serviceDeploy.inj (hact'.symm.trans hact)).2.1
  obtain ⟨b', hb', hkey'⟩ := mem_building hs hb hnew
  have hbuild : (⟨.auto, .build b' ((servicesOfKey desired b'.key).map (·.name))⟩ : PlanAction) ∈
      collected desired live opts :=
    mem_collected.mpr (.inr (.inl (List.mem_map_of_mem hb')))
  exact ⟨_, mem_actions.mpr ⟨_, hbuild, rfl⟩, b', _, withApproval_action _ _, hkey'.trans hkey⟩

/-- A service that is not rebuilt is what no action gives another image. -/
theorem rebuilt_of_deployed (hs : s ∈ desired.services) (hb : s.source = .build b)
    (h : ∀ a ∈ (planApp desired live opts).actions, ∀ op image,
      a.action = .serviceDeploy op image s →
        ∃ l ∈ live.services, l.name = s.name ∧ image = .image l.image) :
    rebuilt desired live opts s = false := by
  by_contra hyes
  have hr : rebuilt desired live opts s = true := by simpa using hyes
  have himage : ∀ l, imageFor s l (rebuilt desired live opts s) = .fromBuild b.key := by
    intro l
    unfold imageFor
    rw [hb, hr]
    cases l with
    | none => rfl
    | some l => rfl
  obtain ⟨a, ha⟩ : ∃ a, a ∈ deployActions desired live opts s := by
    unfold deployActions
    split
    · exact ⟨_, List.mem_singleton_self _⟩
    · rw [if_neg (by simp [hr])]
      exact ⟨_, List.mem_singleton_self _⟩
  obtain ⟨⟨op, hact⟩, -⟩ := deployActions_spec ha
  have hmem : withApproval opts.requireApproval a ∈ (planApp desired live opts).actions :=
    mem_actions.mpr ⟨a, mem_collected.mpr (.inr (.inr (.inl ⟨s, hs, ha⟩))), rfl⟩
  obtain ⟨l, -, -, he⟩ := h _ hmem op _ ((withApproval_action _ _).trans hact)
  rw [himage] at he
  cases he

end

/-- Whatever an app should be and is, its plan is safe and complete. -/
theorem planApp_safe (desired : DesiredApp) (live : LiveApp) (opts : PlanOptions)
    (hn : Named desired live) : Safe desired live opts (planApp desired live opts) where
  deletes_held := by
    intro a ha hauto name type hact
    have hg := grounded_of_mem (collected_of_auto ha hauto)
    unfold Grounded at hg
    rw [hact] at hg
    cases hauto.symm.trans hg
  removals_held := by
    intro a ha hauto name hact l hl hname
    have hg := grounded_of_mem (collected_of_auto ha hauto)
    unfold Grounded at hg
    rw [hact] at hg
    obtain ⟨l', hl', rfl⟩ := List.mem_map.mp hg
    have hsame : l' = l :=
      List.inj_on_of_nodup_map hn.liveServices (List.mem_filter.mp hl').1 hl
        ((Action.serviceRemove.inj hact).trans hname.symm)
    subst hsame
    split at hauto
    · next hempty => exact List.isEmpty_iff.mp hempty
    · cases hauto
  volumes_kept := by
    intro a ha hauto op image s hact l hl hname
    have hg := grounded_of_mem (collected_of_auto ha hauto)
    unfold Grounded at hg
    rw [hact] at hg
    exact (deployActions_spec hg.2).2 hauto l
      ((Js.mapGet_eq_some hn.liveServices).mpr ⟨hl, hname⟩)
  deletes_shown := fun l hl h => plan_deletes_shown hn hl h
  ids_nodup := plan_ids hn
  phases := plan_phases
  blocked := by rw [planApp_status, planStatus_blocked]
  built := fun a ha op key s hact => plan_built ha hact
  current := by
    intro s hs b hb h
    obtain ⟨l, hl, hkey, hpaths⟩ := current_of_not_rebuilt hn hs hb (rebuilt_of_deployed hs hb h)
    obtain ⟨hmem, hname⟩ := Js.mapGet_mem hl
    exact ⟨l, hmem, hname, hkey, hpaths⟩

/-! ## A site at the repo root -/

def siteBuild : BuildSource := ⟨"k1", ".", "Dockerfile", ["."]⟩

def siteService (name : String) : DesiredService where
  name := name
  source := .build siteBuild
  release := none
  replicas := 1
  volumes := []
  sig := "s1"

theorem siteHost_lower : Js.toLowerCase "shop.io" = "shop.io" := by decide

theorem siteHost_slash : '/' ∉ "shop.io".toList := by decide

def siteAddress : Address where
  host := "shop.io"
  path := "/auth/"
  host_lower := siteHost_lower
  host_slash := siteHost_slash
  path_slash := rfl

def siteRoute (service : String) : DesiredRoute :=
  ⟨siteAddress, service, 80, false, none, "to-" ++ service⟩

/-- One service, without routes. -/
def siteApp : DesiredApp where
  stack := "shop"
  services := [siteService "web"]
  resources := []
  routes := []
  jobs := []
  connect := []
  services_nodup := List.nodup_singleton _
  resources_nodup := List.nodup_nil
  jobs_nodup := List.nodup_nil
  routes_service := fun _ h => absurd h List.not_mem_nil
  routes_nodup := List.nodup_nil

theorem siteAuth_nodup : ([siteService "auth", siteService "web"].map (·.name)).Nodup := by
  decide

theorem siteAuth_service : ∀ r ∈ [siteRoute "auth", siteRoute "web"],
    r.service ∈ [siteService "auth", siteService "web"].map (·.name) := by decide

theorem siteAuthRoutes_nodup :
    ([siteRoute "auth", siteRoute "web"].map fun r => (r.service, r.addr)).Nodup := by decide

/-- A domain at the path where the sign-in service is. -/
def siteAuthApp : DesiredApp where
  stack := "shop"
  services := [siteService "auth", siteService "web"]
  resources := []
  routes := [siteRoute "auth", siteRoute "web"]
  jobs := []
  connect := []
  services_nodup := siteAuth_nodup
  resources_nodup := List.nodup_nil
  jobs_nodup := List.nodup_nil
  routes_service := siteAuth_service
  routes_nodup := siteAuthRoutes_nodup

/-- The service runs its build. -/
def siteLive : LiveApp where
  services := [⟨"web", "img", some "s1", some "k1", []⟩]
  resources := []
  routes := []
  jobs := []
  connect := []

theorem named_site : Named siteApp siteLive where
  routes := by decide
  connect := by decide
  inputs := by
    intro s hs s' hs' b b' hb hb' _
    cases List.mem_singleton.mp hs
    cases List.mem_singleton.mp hs'
    exact Source.build.inj (hb.symm.trans hb')
  liveServices := by decide
  liveResources := by decide
  liveRoutes := by decide
  liveJobs := by decide
  liveConnect := by decide

/-- A service with a database behind it. -/
def storeApp : DesiredApp where
  stack := "shop"
  services := [siteService "web"]
  resources := [⟨"db", .postgres 16 .single 0 "shop" none, "r2"⟩]
  routes := [siteRoute "web"]
  jobs := []
  connect := []
  services_nodup := List.nodup_singleton _
  resources_nodup := List.nodup_singleton _
  jobs_nodup := List.nodup_nil
  routes_service := by decide
  routes_nodup := List.nodup_singleton _

/-- An older build and an older database, and beside them a service with a volume and a cache that
are not in the config any more. -/
def storeLive : LiveApp where
  services := [⟨"web", "img", some "s0", some "k0", []⟩, ⟨"files", "nginx", none, none, ["data"]⟩]
  resources := [⟨"db", .postgres, some "r1", some ⟨"db", .postgres 15 .single 0 "shop" none, "r1"⟩⟩,
    ⟨"sessions", .cache, some "c1", none⟩]
  routes := []
  jobs := []
  connect := ["billing"]

theorem named_store : Named storeApp storeLive where
  routes := by decide
  connect := by decide
  inputs := by
    intro s hs s' hs' b b' hb hb' _
    cases List.mem_singleton.mp hs
    cases List.mem_singleton.mp hs'
    exact Source.build.inj (hb.symm.trans hb')
  liveServices := by decide
  liveResources := by decide
  liveRoutes := by decide
  liveJobs := by decide
  liveConnect := by decide

/-- The service with the volume and the cache wait for a human. -/
theorem planApp_safe_store : Safe storeApp storeLive ⟨none, false⟩
      (planApp storeApp storeLive ⟨none, false⟩) ∧
    (planApp storeApp storeLive ⟨none, false⟩).actions.map (fun a => (a.gate, a.action.id)) =
      [(.confirm, "resource.update:db"), (.auto, "build:k1"), (.auto, "service.deploy:web"),
        (.auto, "route.add:shop.io/auth/"), (.auto, "link.remove:billing"),
        (.confirm, "service.remove:files"), (.confirm, "resource.delete:sessions")] :=
  ⟨planApp_safe storeApp storeLive ⟨none, false⟩ named_store, by decide⟩

/-- swarmy.yaml is a changed path under a watched one, and two routes at one address make
two actions of one id. -/
theorem not_planApp_safe :
    (¬∀ (desired : DesiredApp) (live : LiveApp) (opts : PlanOptions), Named desired live →
      ∀ s ∈ desired.services, ∀ b, s.source = .build b →
        (∀ a ∈ (planApp desired live opts).actions, ∀ op image,
          a.action = .serviceDeploy op image s →
            ∃ l ∈ live.services, l.name = s.name ∧ image = .image l.image) →
        ∃ l ∈ live.services, l.name = s.name ∧ l.buildKey = some b.key ∧
          ∃ paths, opts.changedPaths = some paths ∧ touches paths b.watch = false) ∧
    ¬∀ (desired : DesiredApp) (live : LiveApp) (opts : PlanOptions),
      (ids (planApp desired live opts).actions).Nodup := by
  constructor
  · intro h
    have hactions :
        (planApp siteApp siteLive ⟨some ["swarmy.yaml"], false⟩).actions = [] := by decide
    obtain ⟨l, -, -, -, paths, hpaths, htouches⟩ := h siteApp siteLive ⟨some ["swarmy.yaml"], false⟩
      named_site (siteService "web") (by decide) siteBuild rfl fun a ha => by
        rw [hactions] at ha
        cases ha
    cases hpaths
    revert htouches
    decide
  · intro h
    have := h siteAuthApp siteLive ⟨none, false⟩
    revert this
    decide

end Swarmy.App
