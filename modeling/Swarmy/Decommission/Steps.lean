import Swarmy.Decommission.Plan

/-!
# The steps of a plan that count

What the steps of a plan do to the managers of the swarm and to the members of the object
store.  The sections for data and for the edge leave both alone, so only a few steps
count: a promotion, the member's replacement, and the target's own leaving.
-/

namespace Swarmy.Decommission

open List Option Bool

/-! ## What a section adds -/

namespace DrainStepKind

/-- The step promotes a manager, or makes one leave. -/
def movesManager : DrainStepKind → Bool
  | .managerPromote | .managerDemote | .swarmLeave => true
  | _ => false

/-- The step adds a member to the object store, or makes one leave. -/
def movesMember : DrainStepKind → Bool
  | .garageAddMember | .garageLeave | .swarmLeave => true
  | _ => false

/-- The step leaves managers and members alone. -/
def Inert (kind : DrainStepKind) : Prop := kind.movesManager = false ∧ kind.movesMember = false

end DrainStepKind

namespace Draft

def steps (d : Draft) : List DrainStep := d.edgeSteps ++ d.dataSteps ++ d.volumeSteps

/-- A later draft has the blockers of an earlier one, and all its further steps are
inert. -/
structure Adds (d d' : Draft) : Prop where
  blockers : d.blockers <+: d'.blockers
  steps : ∀ s ∈ d'.steps, s ∈ d.steps ∨ s.kind.Inert

namespace Adds

variable {d d' d'' : Draft}

theorem refl (d : Draft) : d.Adds d := ⟨prefix_refl _, fun _ hs => .inl hs⟩

theorem trans (h : d.Adds d') (h' : d'.Adds d'') : d.Adds d'' := by
  refine ⟨h.blockers.trans h'.blockers, fun s hs => ?_⟩
  rcases h'.steps s hs with hs | hs
  · exact h.steps s hs
  · exact .inr hs

/-- A section that goes over a list adds what its items add. -/
theorem foldl {α : Type} {f : Draft → α → Draft} (h : ∀ (d : Draft) a, d.Adds (f d a))
    (as : List α) (d : Draft) : d.Adds (as.foldl f d) := by
  induction as generalizing d with
  | nil => exact refl d
  | cons a as ih => exact (h d a).trans (ih (f d a))

/-- What changes neither blockers nor steps adds nothing. -/
theorem of_eq (hb : d'.blockers = d.blockers) (hs : d'.steps = d.steps) : d.Adds d' :=
  ⟨hb ▸ prefix_refl _, fun _ h => .inl (hs ▸ h)⟩

section

variable (h : d.Adds d') {code : BlockerCode} {subject : Option String} {name : String}
  {vols : List String} {s : DrainStep}

include h

theorem block : d.Adds (d'.block code subject) :=
  h.trans ⟨prefix_append _ _, fun _ hs => .inl hs⟩

theorem warn {w : Warning} : d.Adds (d'.warn w) := h.trans (of_eq rfl rfl)

theorem handle : d.Adds (d'.handle name) := h.trans (of_eq rfl rfl)

theorem addStateless : d.Adds (d'.addStateless name) := h.trans (of_eq rfl rfl)

theorem backUp : d.Adds (d'.backUp vols) := h.trans (of_eq rfl rfl)

theorem follow : d.Adds (d'.follow vols) := h.trans (of_eq rfl rfl)

theorem pickedBy {picker : DestinationPicker} : d.Adds (d'.pickedBy picker) :=
  h.trans (of_eq rfl rfl)

theorem countDatabase : d.Adds d'.countDatabase := h.trans (of_eq rfl rfl)

theorem countVolumes {n : Nat} : d.Adds (d'.countVolumes n) := h.trans (of_eq rfl rfl)

theorem count {bytes : Option Nat} {unknown : Nat} : d.Adds (d'.count bytes unknown) := by
  cases bytes with
  | none => exact h.trans (of_eq rfl rfl)
  | some bytes => exact h.trans (of_eq rfl rfl)

theorem dataStep (hs : s.kind.Inert) : d.Adds (d'.dataStep s) := by
  refine h.trans ⟨prefix_refl _, fun t ht => ?_⟩
  simp only [Draft.steps, Draft.dataStep, mem_append, mem_singleton] at ht ⊢
  rcases ht with (ht | ht | rfl) | ht
  · exact .inl (.inl (.inl ht))
  · exact .inl (.inl (.inr ht))
  · exact .inr hs
  · exact .inl (.inr ht)

theorem volumeStep (hs : s.kind.Inert) : d.Adds (d'.volumeStep s) := by
  refine h.trans ⟨prefix_refl _, fun t ht => ?_⟩
  simp only [Draft.steps, Draft.volumeStep, mem_append, mem_singleton] at ht ⊢
  rcases ht with ht | ht | rfl
  · exact .inl (.inl ht)
  · exact .inl (.inr ht)
  · exact .inr hs

theorem edgeStep (hs : s.kind.Inert) : d.Adds (d'.edgeStep s) := by
  refine h.trans ⟨prefix_refl _, fun t ht => ?_⟩
  simp only [Draft.steps, Draft.edgeStep, mem_append, mem_singleton] at ht ⊢
  rcases ht with ((ht | rfl) | ht) | ht
  · exact .inl (.inl (.inl ht))
  · exact .inr hs
  · exact .inl (.inl (.inr ht))
  · exact .inl (.inr ht)

end

end Adds

end Draft

section

variable (lib : Lib) (input : DecommissionInput) (target : DecomNodeInput)

open Draft (Adds)

theorem postgresPrimary_adds (cluster : String) (members : List DecomServiceInput)
    (m : DecomServiceInput) (d : Draft) :
    d.Adds (postgresPrimary lib input target cluster members m d) := by
  have h := (Adds.refl d).countDatabase
  unfold postgresPrimary
  dsimp only
  split
  · exact h.block
  split
  · split
    · exact h.dataStep ⟨rfl, rfl⟩
    · split
      · split
        · split
          · exact h.block
          · exact h.pickedBy.dataStep ⟨rfl, rfl⟩
        · exact h.block
      · exact h.block
  · split
    · exact h.backUp.dataStep ⟨rfl, rfl⟩
    · split
      · exact h.backUp.block
      · exact h.backUp.pickedBy.count.dataStep ⟨rfl, rfl⟩

theorem postgres_adds (d : Draft) : d.Adds (postgres lib input target d) := by
  refine Adds.foldl (fun d entry => Adds.foldl (fun d m => ?_) _ d) _ d
  have h := @Adds.handle _ _ (Adds.refl d) m.name
  unfold postgresMember
  dsimp only
  split
  · exact .refl d
  split
  · exact h.addStateless
  split
  · exact h
  · exact h.trans (postgresPrimary_adds lib input target _ _ m _)

theorem caches_adds (d : Draft) : d.Adds (caches lib input target d) := by
  refine Adds.foldl (fun d s => ?_) _ d
  have h := @Adds.handle _ _ (Adds.refl d) s.name
  unfold cache
  split
  · exact .refl d
  split
  · exact .refl d
  split
  · exact h.addStateless
  split
  · exact h.warn.addStateless
  · exact .refl d

theorem copyVolumes_adds (svcName : String) (localVols : List String) (d : Draft) :
    d.Adds (copyVolumes lib input target svcName localVols d) := by
  have h := (Adds.refl d).countVolumes (n := localVols.length)
  unfold copyVolumes
  dsimp only
  split
  · split
    · exact h.block
    · split
      · exact h.block
      · exact h.pickedBy.volumeStep ⟨rfl, rfl⟩
  · split
    · exact h.backUp.block
    · exact h.backUp.pickedBy.count.volumeStep ⟨rfl, rfl⟩

theorem namedVolumes_adds (svcName : String) (svc : Option DecomServiceInput) (named : List String)
    (d : Draft) : d.Adds (namedVolumes lib input target svcName svc named d) := by
  have h := @Adds.handle _ _ (Adds.refl d) svcName
  unfold namedVolumes
  dsimp only
  split
  · exact h.addStateless
  split
  · exact h.follow.addStateless
  split
  · exact h.follow.warn.addStateless
  · exact h.follow.trans (copyVolumes_adds lib input target _ _ _)

theorem volume_adds (d : Draft) (entry : String × List Mount) :
    d.Adds (volume lib input target d entry) := by
  unfold volume
  dsimp only
  split
  · exact .refl d
  split
  · exact (Adds.refl d).handle
  split
  · exact (Adds.refl d).handle
  have h := Adds.foldl (f := fun d source => d.warn (.folder entry.1 source))
    (fun d _ => (Adds.refl d).warn) (folders entry.2) d
  refine Adds.trans ?_ (namedVolumes_adds lib input target _ _ _ _)
  split
  · exact h.warn
  · exact h

theorem volumes_adds (d : Draft) : d.Adds (volumes lib input target d) := by
  have h := Adds.foldl (volume_adds lib input target) (onTarget input target) d
  unfold volumes
  dsimp only
  split
  · exact h
  · exact h.volumeStep ⟨rfl, rfl⟩

theorem edges_adds (d : Draft) : d.Adds (edges lib input target d) := by
  refine Adds.foldl (fun d label => ?_) _ d
  unfold edge
  split
  · exact .refl d
  split
  · exact (Adds.refl d).edgeStep ⟨rfl, rfl⟩
  split
  · exact (Adds.refl d).block
  split
  · exact ((Adds.refl d).edgeStep ⟨rfl, rfl⟩).warn
  · exact (Adds.refl d).edgeStep ⟨rfl, rfl⟩

theorem garageAdd_adds (d : Draft) : d.Adds (garageAdd lib input target d).2 := by
  unfold garageAdd
  dsimp only
  split
  · split
    · exact (Adds.refl d).block
    · exact .refl d
  · exact .refl d

theorem garage_adds (d : Draft) : d.Adds (garage lib input target d).2.2 := by
  have h := garageAdd_adds lib input target d
  unfold garage
  dsimp only
  split
  · split
    · exact h.block
    · exact h
  · exact .refl d

theorem managerSteps_adds (d : Draft) : d.Adds (managerSteps lib input target d).2 := by
  unfold managerSteps
  dsimp only
  split
  · split
    · split
      · exact (Adds.refl d).block
      · exact .refl d
    · split
      · exact (Adds.refl d).warn
      · exact .refl d
  · exact .refl d

theorem edgeDraft_adds : (garage lib input target (dataDraft lib input target)).2.2.Adds
    (edgeDraft lib input target) :=
  (volumes_adds lib input target _).trans (edges_adds lib input target _)

theorem finalDraft_adds : (managerSteps lib input target (edgeDraft lib input target)).2.Adds
    (finalDraft lib input target) := by
  unfold finalDraft
  dsimp only
  split
  · exact (Adds.refl _).warn
  · exact .refl _

/-- Every step for data or for the edge is inert. -/
theorem inert_of_mem_steps {s : DrainStep} (hs : s ∈ (finalDraft lib input target).steps) :
    s.kind.Inert := by
  have h := (postgres_adds lib input target
      { picker := .new input.services, blockers := firstBlockers input target }).trans
    (caches_adds lib input target _)
  have h := (h.trans (garage_adds lib input target _)).trans (edgeDraft_adds lib input target)
  have h := (h.trans (managerSteps_adds lib input target _)).trans
      (finalDraft_adds lib input target)
  rcases h.steps s hs with hs | hs
  · cases hs
  · exact hs

end

/-! ## Step by step -/

section

variable {α β : Type} {f : β → α → β} {P : β → Prop} {b : β}

/-- What holds after each prefix of some steps. -/
def Throughout (f : β → α → β) (P : β → Prop) (b : β) (steps : List α) : Prop :=
  ∀ done, done <+: steps → P (done.foldl f b)

@[simp] theorem throughout_nil : Throughout f P b [] ↔ P b := by
  unfold Throughout
  simp only [prefix_nil, forall_eq, foldl_nil]

@[simp] theorem throughout_cons {a : α} {steps : List α} :
    Throughout f P b (a :: steps) ↔ P b ∧ Throughout f P (f b a) steps := by
  constructor
  · intro h
    refine ⟨h [] nil_prefix, fun done hdone => ?_⟩
    exact h (a :: done) ((cons_prefix_cons).mpr ⟨rfl, hdone⟩)
  · rintro ⟨hb, h⟩ done hdone
    rcases prefix_cons_iff.mp hdone with rfl | ⟨rest, rfl, hrest⟩
    · exact hb
    · exact h rest hrest

/-- Steps that change nothing do not count. -/
theorem throughout_filter {p : α → Bool} (hf : ∀ b a, p a = false → f b a = b) (steps : List α) :
    Throughout f P b steps ↔ Throughout f P b (steps.filter p) := by
  induction steps generalizing b with
  | nil => rfl
  | cons a steps ih =>
    cases hp : p a with
    | true => rw [filter_cons_of_pos hp, throughout_cons, throughout_cons, ih]
    | false =>
      rw [filter_cons_of_neg (eq_false_iff.mp hp), throughout_cons, hf b a hp, ← ih]
      exact ⟨fun h => h.2, fun h => ⟨h [] nil_prefix, h⟩⟩

theorem foldl_filter_steps {p : α → Bool} (hf : ∀ b a, p a = false → f b a = b)
    (steps : List α) : steps.foldl f b = (steps.filter p).foldl f b := by
  rw [foldl_filter]
  congr 1
  funext b a
  split
  · rfl
  · next hp => exact hf b a (eq_false_iff.mpr hp)

end

/-- The managers after a step. -/
def stepManagers (target : String) (ids : List String) (s : DrainStep) : List String :=
  match s.kind with
  | .managerPromote => (s.destination.map fun d => ids.insert d.nodeId).getD ids
  | .managerDemote | .swarmLeave => ids.erase target
  | _ => ids

/-- The members of the object store after a step. -/
def stepMembers (target : String) (ids : List String) (s : DrainStep) : List String :=
  match s.kind with
  | .garageAddMember => (s.destination.map fun d => ids.insert d.nodeId).getD ids
  | .garageLeave | .swarmLeave => ids.erase target
  | _ => ids

theorem stepManagers_of_not (target : String) (ids : List String) (s : DrainStep)
    (h : s.kind.movesManager = false) : stepManagers target ids s = ids := by
  unfold stepManagers
  cases hk : s.kind <;> rw [hk] at h <;> first | rfl | cases h

theorem stepMembers_of_not (target : String) (ids : List String) (s : DrainStep)
    (h : s.kind.movesMember = false) : stepMembers target ids s = ids := by
  unfold stepMembers
  cases hk : s.kind <;> rw [hk] at h <;> first | rfl | cases h

/-! ## The steps that count -/

section

variable (lib : Lib) (input : DecommissionInput) (target : DecomNodeInput)

def leave : DrainStep := { id := "swarm-leave:" ++ target.nodeId, kind := .swarmLeave }

/-- The steps that promote another server. -/
def promote : List DrainStep := (managerSteps lib input target (edgeDraft lib input target)).1

/-- The steps that give another server the object store. -/
def replace : List DrainStep := (garageAdd lib input target (dataDraft lib input target)).1

/-- The steps of the object store. -/
def handOver : List DrainStep :=
  if isMember target then
    replace lib input target ++ [{ id := "garage-leave:" ++ target.nodeId, kind := .garageLeave }]
  else []

theorem garage_fst : (garage lib input target (dataDraft lib input target)).1 =
    handOver lib input target := by
  unfold garage handOver
  split
  · rfl
  · rfl

theorem planFor_steps : (planFor lib input target).steps =
    backupStep input target (finalDraft lib input target) ++ cordon target ++
      promote lib input target ++ (finalDraft lib input target).edgeSteps ++
      handOver lib input target ++ (finalDraft lib input target).dataSteps ++
      (finalDraft lib input target).volumeSteps ++
      [{ id := "drain:" ++ target.nodeId, kind := .drain }] ++
      (garage lib input target (dataDraft lib input target)).2.1 ++ demote target ++
      [leave target] ++ meshRemove target ++
      [{ id := "forget:" ++ target.nodeId, kind := .forget }] := by
  rw [← garage_fst]
  rfl

variable {lib input target}

variable {s : DrainStep}

theorem inert_of_backupStep {d : Draft} (hs : s ∈ backupStep input target d) : s.kind.Inert := by
  unfold backupStep at hs
  split at hs
  · exact mem_singleton.mp hs ▸ ⟨rfl, rfl⟩
  · cases hs

theorem inert_of_cordon (hs : s ∈ cordon target) : s.kind.Inert := by
  unfold cordon at hs
  split at hs
  · exact mem_singleton.mp hs ▸ ⟨rfl, rfl⟩
  · cases hs

theorem inert_of_resync {d : Draft} (hs : s ∈ (garage lib input target d).2.1) : s.kind.Inert := by
  unfold garage at hs
  split at hs
  · exact mem_singleton.mp hs ▸ ⟨rfl, rfl⟩
  · cases hs

theorem inert_of_meshRemove (hs : s ∈ meshRemove target) : s.kind.Inert := by
  unfold meshRemove at hs
  split at hs
  · exact mem_singleton.mp hs ▸ ⟨rfl, rfl⟩
  · cases hs

/-- A replacement, if there is one, is the only thing that is added. -/
theorem replace_kind (hs : s ∈ replace lib input target) : s.kind = .garageAddMember := by
  unfold replace garageAdd at hs
  dsimp only at hs
  split at hs
  · split at hs
    · cases hs
    · rw [mem_singleton] at hs
      rw [hs]
  · cases hs

theorem promote_kind (hs : s ∈ promote lib input target) : s.kind = .managerPromote := by
  unfold promote managerSteps at hs
  dsimp only at hs
  split at hs
  · split at hs
    · split at hs
      · cases hs
      · rw [mem_singleton] at hs
        rw [hs]
    · split at hs <;> cases hs
  · cases hs

theorem demote_kind (hs : s ∈ demote target) : s.kind = .managerDemote := by
  unfold demote at hs
  split at hs
  · rw [mem_singleton] at hs
    rw [hs]
  · cases hs

theorem handOver_kind (hs : s ∈ handOver lib input target) :
    s.kind.movesManager = false ∧ s.kind.movesMember = true := by
  unfold handOver at hs
  split at hs
  · rcases mem_append.mp hs with hs | hs
    · rw [replace_kind hs]
      exact ⟨rfl, rfl⟩
    · rw [mem_singleton] at hs
      rw [hs]
      exact ⟨rfl, rfl⟩
  · cases hs

theorem filter_kind_none {p : DrainStepKind → Bool} {steps : List DrainStep}
    (h : ∀ s ∈ steps, p s.kind = false) : steps.filter (fun s => p s.kind) = [] :=
  filter_eq_nil_iff.mpr fun s hs => eq_false_iff.mp (h s hs)

theorem filter_kind_all {p : DrainStepKind → Bool} {steps : List DrainStep}
    (h : ∀ s ∈ steps, p s.kind = true) : steps.filter (fun s => p s.kind) = steps :=
  filter_eq_self.mpr h

/-- A filter by kind that forgets inert steps. -/
theorem planFor_filter {p : DrainStepKind → Bool}
    (h : ∀ kind : DrainStepKind, kind.Inert → p kind = false) :
    (planFor lib input target).steps.filter (fun s => p s.kind) =
      (promote lib input target).filter (fun s => p s.kind) ++
        (handOver lib input target).filter (fun s => p s.kind) ++
        (demote target).filter (fun s => p s.kind) ++
        [leave target].filter (fun s => p s.kind) := by
  have hfinal : ∀ s ∈ (finalDraft lib input target).steps, p s.kind = false := fun s hs =>
    h _ (inert_of_mem_steps lib input target hs)
  have hdrain : p .drain = false := h _ ⟨rfl, rfl⟩
  have hforget : p .forget = false := h _ ⟨rfl, rfl⟩
  rw [planFor_steps]
  simp only [filter_append, filter_cons, filter_nil, hdrain, hforget,
    false_eq_true, if_false]
  rw [@filter_kind_none _ (backupStep _ _ _) fun s hs => h _ (inert_of_backupStep hs),
    @filter_kind_none _ (cordon _) fun s hs => h _ (inert_of_cordon hs),
    @filter_kind_none _ (meshRemove _) fun s hs => h _ (inert_of_meshRemove hs),
    @filter_kind_none _ (garage _ _ _ _).2.1 fun s hs => h _ (inert_of_resync hs),
    @filter_kind_none _ (Draft.edgeSteps _) fun s hs =>
      hfinal s (mem_append_left _ (mem_append_left _ hs)),
    @filter_kind_none _ (Draft.dataSteps _) fun s hs =>
      hfinal s (mem_append_left _ (mem_append_right _ hs)),
    @filter_kind_none _ (Draft.volumeSteps _) fun s hs =>
      hfinal s (mem_append_right _ hs)]
  simp only [nil_append, append_nil, append_assoc]

/-- Of the managers' steps, the promotion comes first. -/
theorem planFor_managers : (planFor lib input target).steps.filter (·.kind.movesManager) =
    promote lib input target ++ demote target ++ [leave target] := by
  rw [planFor_filter (p := DrainStepKind.movesManager) fun _ h => h.1,
    filter_kind_all fun s hs => by rw [promote_kind hs]; rfl,
    filter_kind_none fun s hs => (handOver_kind hs).1,
    filter_kind_all fun s hs => by rw [demote_kind hs]; rfl, append_nil]
  rfl

/-- Of the members' steps, the replacement comes first. -/
theorem planFor_members : (planFor lib input target).steps.filter (·.kind.movesMember) =
    handOver lib input target ++ [leave target] := by
  rw [planFor_filter (p := DrainStepKind.movesMember) fun _ h => h.2,
    filter_kind_none fun s hs => by rw [promote_kind hs]; rfl,
    filter_kind_all fun s hs => (handOver_kind hs).2,
    filter_kind_none fun s hs => by rw [demote_kind hs]; rfl, nil_append, append_nil]
  rfl

end

end Swarmy.Decommission
