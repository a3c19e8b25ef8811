import Swarmy.Decommission.Steps
import Mathlib.Data.List.Count

/-!
# A retired server leaves quorum and copies behind

After each prefix of a plan's steps, the managers that are online have a majority, unless
the target is a manager without which they have none and nobody can be promoted; the
planner looks at the parity of the managers, not at how many are online.  The object store
keeps as many members as its copies need.
-/

namespace Swarmy.Decommission

open List Option

section

variable (input : DecommissionInput)

/-! ## Managers, online and offline -/

def managerIds : List String := (managers input).map (·.nodeId)

def memberIds : List String := (garageMembers input).map (·.nodeId)

def isOnline (id : String) : Bool := input.nodes.any fun n => n.nodeId = id && n.online

/-- The managers online are a strict majority, and there is one. -/
structure Majority (ids : List String) : Prop where
  strict : ids.length < 2 * ids.countP (isOnline input)
  some : 0 < ids.countP (isOnline input)

end

section

variable {input : DecommissionInput} {target n : DecomNodeInput} {ids : List String} {id : String}

theorem eq_of_nodeId (hn : n ∈ input.nodes) (ht : target ∈ input.nodes)
    (h : n.nodeId = target.nodeId) : n = target :=
  inj_on_of_nodup_map input.enrolled hn ht h

theorem isOnline_eq (hn : n ∈ input.nodes) : isOnline input n.nodeId = n.online := by
  rw [Bool.eq_iff_iff, isOnline, List.any_eq_true]
  constructor
  · rintro ⟨n', hn', h⟩
    rw [Bool.and_eq_true, decide_eq_true_eq] at h
    exact eq_of_nodeId hn' hn h.1 ▸ h.2
  · intro h
    exact ⟨n, hn, by rw [h, Bool.and_true, decide_eq_true_eq]⟩

theorem mem_managerIds (hn : n ∈ input.nodes) :
    n.nodeId ∈ managerIds input ↔ n.role = some .manager := by
  unfold managerIds managers
  simp only [List.mem_map, List.mem_filter, decide_eq_true_eq]
  constructor
  · rintro ⟨n', ⟨hn', hrole⟩, h⟩
    exact eq_of_nodeId hn' hn h ▸ hrole
  · intro h
    exact ⟨n, ⟨hn, h⟩, rfl⟩

theorem mem_memberIds (hn : n ∈ input.nodes) : n.nodeId ∈ memberIds input ↔ isMember n := by
  unfold memberIds garageMembers
  simp only [List.mem_map, List.mem_filter]
  constructor
  · rintro ⟨n', ⟨hn', hmember⟩, h⟩
    exact eq_of_nodeId hn' hn h ▸ hmember
  · intro h
    exact ⟨n, ⟨hn, h⟩, rfl⟩

theorem nodup_managerIds : (managerIds input).Nodup :=
  (filter_sublist.map _).nodup input.enrolled

theorem nodup_memberIds : (memberIds input).Nodup :=
  (filter_sublist.map _).nodup input.enrolled

namespace Majority

/-- One more manager that is online. -/
theorem insert (h : Majority input ids) (hnot : id ∉ ids) (honline : isOnline input id) :
    Majority input (ids.insert id) := by
  obtain ⟨hstrict, hsome⟩ := h
  rw [insert_of_not_mem hnot]
  constructor
  · rw [length_cons, countP_cons_of_pos honline]
    omega
  · rw [countP_cons_of_pos honline]
    omega

/-- One less that is offline. -/
theorem erase_offline (h : Majority input ids) (hmem : id ∈ ids)
    (hoff : isOnline input id = false) :
    Majority input (ids.erase id) := by
  obtain ⟨hstrict, hsome⟩ := h
  have hlen := length_erase_of_mem hmem
  have hcount : (ids.erase id).countP (isOnline input) = ids.countP (isOnline input) := by
    rw [countP_erase, if_neg, Nat.sub_zero]
    rw [hoff]
    exact fun h => Bool.false_ne_true h.2
  constructor
  · omega
  · omega

/-- One less that is online. -/
theorem erase_online_iff (hmem : id ∈ ids) (hon : isOnline input id) :
    Majority input (ids.erase id) ↔ ids.length + 1 < 2 * ids.countP (isOnline input) := by
  have hpos := length_pos_of_mem hmem
  have hlen := length_erase_of_mem hmem
  have hcount : (ids.erase id).countP (isOnline input) = ids.countP (isOnline input) - 1 := by
    rw [countP_erase, if_pos ⟨hmem, hon⟩]
  constructor
  · rintro ⟨hstrict, -⟩
    omega
  · intro h
    constructor
    · omega
    · omega

end Majority

end

/-! ## What is kept -/

section

variable (lib : Lib) (input : DecommissionInput)

/-- After each prefix of the plan, the managers that remain have a majority online. -/
def KeepsQuorum : Prop :=
  Throughout (stepManagers input.targetNodeId) (Majority input) (managerIds input)
    (planDecommission lib input).steps

/-- The step takes the target out of the object store. -/
def DrainStep.Leaves (s : DrainStep) : Prop := s.kind = .garageLeave ∨ s.kind = .swarmLeave

/-- The object store keeps the members that its copies need, or as many as there were,
and the target leaves after a member has been added. -/
structure KeepsCopies : Prop where
  enough : min (replicationFactor input) (memberIds input).length ≤
    ((planDecommission lib input).steps.foldl (stepMembers input.targetNodeId)
      (memberIds input)).length
  addedFirst : (planDecommission lib input).steps.Pairwise fun s t =>
    s.Leaves → t.kind ≠ .garageAddMember

/-- Whoever may be promoted. -/
def Candidate (n : DecomNodeInput) : Prop :=
  MayHost input.targetNodeId [] (fun n => n.role = some .worker) n

/-- The target is a manager online, without it the others are no majority, and nobody can
be promoted. -/
def LosesMajority : Prop :=
  ∃ target ∈ input.nodes, target.nodeId = input.targetNodeId ∧ target.role = some .manager ∧
    target.online ∧ (managerIds input).length + 1 = 2 * (managerIds input).countP (isOnline input) ∧
      ∀ n ∈ input.nodes, ¬Candidate input n

end

section

variable {lib : Lib} {input : DecommissionInput} {target : DecomNodeInput}

/-! ## The managers -/

theorem candidate_iff (hid : target.nodeId = input.targetNodeId) {n : DecomNodeInput} :
    Candidate input n ↔ MayHost target.nodeId [] (fun n => n.role = some .worker) n := by
  rw [Candidate, hid]

/-- Nobody is promoted, or one who may be. -/
theorem promote_cases (hid : target.nodeId = input.targetNodeId) :
    promote lib input target = [] ∨ ∃ n ∈ input.nodes, Candidate input n ∧
      promote lib input target = [{ id := "manager-promote:" ++ n.nodeId, kind := .managerPromote,
                                    destination := dest n }] := by
  unfold promote managerSteps
  dsimp only
  split
  · split
    · cases hchosen : (Draft.pickRoleHost lib input target (edgeDraft lib input target) []
          fun n => n.role = some .worker).chosen with
      | none => exact Or.inl rfl
      | some n =>
        obtain ⟨hn, hmay⟩ := mayHost_of_chosen hchosen
        exact Or.inr ⟨n, hn, (candidate_iff hid).mpr hmay, rfl⟩
    · split
      · exact Or.inl rfl
      · exact Or.inl rfl
  · exact Or.inl rfl

/-- When the managers that remain are even in number, nobody is promoted only for want of
a candidate. -/
theorem promote_eq_nil (hid : target.nodeId = input.targetNodeId)
    (hrole : target.role = some .manager) (heven : ((managers input).length - 1) % 2 = 0) :
    promote lib input target = [] → ∀ n ∈ input.nodes, ¬Candidate input n := by
  intro hnil
  unfold promote managerSteps at hnil
  rw [if_pos hrole] at hnil
  cases hchosen : (Draft.pickRoleHost lib input target (edgeDraft lib input target) []
      fun n => n.role = some .worker).chosen with
  | none => exact fun n hn hcand => chosen_eq_none.mp hchosen n hn ((candidate_iff hid).mp hcand)
  | some n =>
    rw [hchosen, if_pos (Or.inr ⟨heven, rfl⟩)] at hnil
    cases hnil

/-- The target goes, and once more when it is gone already. -/
theorem throughout_leave {ids : List String} (hnodup : ids.Nodup)
    (hrole : target.role = some .manager) (h : Majority input ids) :
    Throughout (stepManagers target.nodeId) (Majority input) ids (demote target ++ [leave target]) ↔
      Majority input (ids.erase target.nodeId) := by
  have hgone : (ids.erase target.nodeId).erase target.nodeId = ids.erase target.nodeId :=
    erase_of_not_mem hnodup.not_mem_erase
  rw [demote, if_pos hrole, singleton_append, throughout_cons, throughout_cons, throughout_nil]
  simp only [stepManagers, leave, hgone, and_self, h, true_and]

theorem keepsQuorum_iff_of_manager (ht : target ∈ input.nodes)
    (hid : target.nodeId = input.targetNodeId) (hrole : target.role = some .manager)
    (hmaj : Majority input (managerIds input)) :
    Throughout (stepManagers target.nodeId) (Majority input) (managerIds input)
      (promote lib input target ++ demote target ++ [leave target]) ↔ ¬LosesMajority input := by
  have hmem := (mem_managerIds ht).mpr hrole
  have hlen : (managers input).length = (managerIds input).length := (length_map _).symm
  have hlose : LosesMajority input ↔ target.online ∧ (managerIds input).length + 1 =
      2 * (managerIds input).countP (isOnline input) ∧ ∀ n ∈ input.nodes, ¬Candidate input n := by
    constructor
    · rintro ⟨t, ht', hid', -, h⟩
      exact eq_of_nodeId ht' ht (hid'.trans hid.symm) ▸ h
    · intro h
      exact ⟨target, ht, hid, hrole, h⟩
  rw [hlose, append_assoc]
  rcases @promote_cases lib _ _ hid with hnil | ⟨n, hn, hcand, hpromote⟩
  · rw [hnil, nil_append, throughout_leave nodup_managerIds hrole hmaj]
    cases honline : target.online with
    | false =>
      have hoff := (isOnline_eq ht).trans honline
      exact ⟨fun _ h => Bool.false_ne_true h.1, fun _ => hmaj.erase_offline hmem hoff⟩
    | true =>
      rw [Majority.erase_online_iff hmem ((isOnline_eq ht).trans honline)]
      have hstrict := hmaj.strict
      constructor
      · rintro hlt ⟨-, heq, -⟩
        omega
      · intro h
        by_contra hge
        have heq : (managerIds input).length + 1 =
            2 * (managerIds input).countP (isOnline input) := by omega
        exact h ⟨rfl, heq, promote_eq_nil hid hrole (by omega) hnil⟩
  · -- The promoted server is online and is no manager yet.
    have hnot : n.nodeId ∉ managerIds input := by
      rw [mem_managerIds hn, of_decide_eq_true hcand.filter]
      exact nofun
    have hsched := hcand.schedulable
    have honline : isOnline input n.nodeId := by
      rw [isOnline_eq hn]
      exact (Bool.and_eq_true_iff.mp hsched).1
    have hmaj' := hmaj.insert hnot honline
    have hmem' : target.nodeId ∈ (managerIds input).insert n.nodeId :=
      mem_insert_of_mem hmem
    rw [hpromote, singleton_append, throughout_cons]
    have hinsert : stepManagers target.nodeId (managerIds input)
        { id := "manager-promote:" ++ n.nodeId, kind := .managerPromote, destination := dest n } =
        (managerIds input).insert n.nodeId := rfl
    rw [hinsert, throughout_leave nodup_managerIds.insert hrole hmaj']
    refine ⟨fun _ h => h.2.2 n hn hcand, fun _ => ⟨hmaj, ?_⟩⟩
    cases htarget : target.online with
    | false => exact hmaj'.erase_offline hmem' ((isOnline_eq ht).trans htarget)
    | true =>
      rw [Majority.erase_online_iff hmem' ((isOnline_eq ht).trans htarget),
        insert_of_not_mem hnot, length_cons, countP_cons_of_pos honline]
      have := hmaj.strict
      omega

/-- A worker that leaves is no manager. -/
theorem keepsQuorum_of_worker (ht : target ∈ input.nodes) (hrole : target.role ≠ some .manager)
    (hmaj : Majority input (managerIds input)) :
    Throughout (stepManagers target.nodeId) (Majority input) (managerIds input)
      (promote lib input target ++ demote target ++ [leave target]) := by
  have hnot := mt (mem_managerIds ht).mp hrole
  have hpromote : promote lib input target = [] := by
    rw [promote, managerSteps, if_neg hrole]
  rw [hpromote, demote, if_neg hrole, nil_append, nil_append, throughout_cons,
    throughout_nil]
  refine ⟨hmaj, ?_⟩
  show Majority input ((managerIds input).erase target.nodeId)
  rwa [erase_of_not_mem hnot]

/-! ## The members -/

/-- A member is replaced by another server, or its place needs nobody, or the plan is
blocked. -/
theorem replace_cases : (∃ n ∈ input.nodes, ¬isMember n ∧ n.nodeId ≠ target.nodeId ∧
      replace lib input target =
        [{ id := "garage-add-member:" ++ n.nodeId, kind := .garageAddMember,
           destination := dest n }]) ∨
    (replace lib input target = [] ∧ replicationFactor input ≤ (memberIds input).length - 1) ∨
    (replace lib input target = [] ∧
      (garageAdd lib input target (dataDraft lib input target)).2.blockers ≠ []) := by
  have hlen : (garageMembers input).length = (memberIds input).length := (length_map _).symm
  unfold replace garageAdd
  dsimp only
  split
  · cases hchosen : (Draft.pickRoleHost lib input target (dataDraft lib input target)
        ((garageMembers input).map (·.nodeId)) fun _ => true).chosen with
    | none => exact Or.inr (Or.inr ⟨rfl, append_ne_nil_of_right_ne_nil _ (cons_ne_nil _ _)⟩)
    | some n =>
      obtain ⟨hn, hmay⟩ := mayHost_of_chosen hchosen
      have hmember : ¬isMember n := fun h => hmay.allowed ((mem_memberIds hn).mpr h)
      exact Or.inl ⟨n, hn, hmember, hmay.other, rfl⟩
  · next h =>
    rw [not_or, not_lt] at h
    exact Or.inr (Or.inl ⟨rfl, hlen ▸ h.1⟩)

theorem blockers_of_garageAdd (hmember : isMember target)
    (h : (garageAdd lib input target (dataDraft lib input target)).2.blockers ≠ []) :
    (planFor lib input target).runnable = false := by
  have hgarage : (garageAdd lib input target (dataDraft lib input target)).2.Adds
      (garage lib input target (dataDraft lib input target)).2.2 := by
    unfold garage
    rw [if_pos hmember]
    dsimp only
    split
    · exact (Draft.Adds.refl _).block
    · exact .refl _
  have hadds := (hgarage.trans (edgeDraft_adds lib input target)).trans
    ((managerSteps_adds lib input target _).trans (finalDraft_adds lib input target))
  show decide ((finalDraft lib input target).blockers = []) = false
  rw [decide_eq_false_iff_not]
  exact fun hnil => h (prefix_nil.mp (hnil ▸ hadds.blockers))

theorem members_of_runnable (ht : target ∈ input.nodes) (hrun : (planFor lib input target).runnable)
    : min (replicationFactor input) (memberIds input).length ≤
      ((handOver lib input target ++ [leave target]).foldl (stepMembers target.nodeId)
        (memberIds input)).length := by
  cases hmember : isMember target with
  | false =>
    have hnot : target.nodeId ∉ memberIds input := by
      rw [mem_memberIds ht, hmember]
      exact Bool.false_ne_true
    rw [handOver, if_neg (Bool.eq_false_iff.mp hmember), nil_append, foldl_cons,
      foldl_nil]
    show min _ _ ≤ (((memberIds input).erase target.nodeId).length : Int)
    rw [erase_of_not_mem hnot]
    exact min_le_right _ _
  | true =>
    have hmem := (mem_memberIds ht).mpr hmember
    have hgone : ∀ ids : List String, ids.Nodup →
        (ids.erase target.nodeId).erase target.nodeId = ids.erase target.nodeId :=
      fun ids h => erase_of_not_mem h.not_mem_erase
    rw [handOver, if_pos hmember]
    rcases @replace_cases lib input target with
      ⟨n, hn, hnew, -, hreplace⟩ | ⟨hnil, hrf⟩ | ⟨-, hblocked⟩
    · have hnot := mt (mem_memberIds hn).mp hnew
      rw [hreplace]
      show min _ _ ≤ (((((memberIds input).insert n.nodeId).erase target.nodeId).erase
        target.nodeId).length : Int)
      rw [hgone _ nodup_memberIds.insert, length_erase_of_mem (mem_insert_of_mem hmem),
        insert_of_not_mem hnot, length_cons, Nat.add_sub_cancel]
      exact min_le_right _ _
    · rw [hnil]
      show min _ _ ≤ ((((memberIds input).erase target.nodeId).erase target.nodeId).length : Int)
      rw [hgone _ nodup_memberIds, length_erase_of_mem hmem]
      exact (min_le_left _ _).trans (by omega)
    · rw [blockers_of_garageAdd hmember hblocked] at hrun
      cases hrun

theorem addedFirst (steps : List DrainStep)
    (h : steps.filter (·.kind.movesMember) = handOver lib input target ++ [leave target]) :
    steps.Pairwise fun s t => s.Leaves → t.kind ≠ .garageAddMember := by
  have hmoves : ∀ s : DrainStep, s.Leaves → s.kind.movesMember := by
    rintro s (hs | hs)
    · rw [hs]
      rfl
    · rw [hs]
      rfl
  have hfiltered : (steps.filter (·.kind.movesMember)).Pairwise fun s t =>
      s.Leaves → t.kind ≠ .garageAddMember := by
    rw [h, handOver]
    split
    · -- Before the last step that adds nothing has left, and what follows adds nothing.
      rw [append_assoc, pairwise_append]
      refine ⟨?_, ?_, ?_⟩
      · refine pairwise_of_forall_mem_list fun s hs t _ hleaves => ?_
        rcases hleaves with hl | hl <;> rw [replace_kind hs] at hl <;> cases hl
      · simp [leave]
      · intro s hs t _ hleaves
        rcases hleaves with hl | hl <;> rw [replace_kind hs] at hl <;> cases hl
    · exact pairwise_singleton _ _
  rw [pairwise_filter] at hfiltered
  refine hfiltered.imp fun {s t} hst hleaves hadds => ?_
  exact hst (hmoves s hleaves) (by rw [hadds]; rfl) hleaves hadds

/-! ## Both -/

/-- A plan that can run keeps the copies of the object store; and it keeps quorum unless
the target is needed for it and nobody can take its place. -/
theorem planDecommission_keeps_iff (lib : Lib) (input : DecommissionInput)
    (hmaj : Majority input (managerIds input)) (hrun : (planDecommission lib input).runnable) :
    KeepsQuorum lib input ∧ KeepsCopies lib input ↔ ¬LosesMajority input := by
  obtain ⟨target, hfind, hplan⟩ : ∃ target, input.nodes.find? (·.nodeId = input.targetNodeId) =
      some target ∧ planDecommission lib input = planFor lib input target := by
    unfold planDecommission at hrun ⊢
    split at hrun
    · cases hrun
    · next target hfind =>
      split at hrun
      · cases hrun
      · next hswarm => exact ⟨target, hfind, if_neg hswarm⟩
  have ht := mem_of_find?_eq_some hfind
  have hid := List.find?_some hfind
  rw [decide_eq_true_eq] at hid
  rw [hplan] at hrun
  have hcopies : KeepsCopies lib input := by
    constructor
    · rw [hplan, foldl_filter_steps (stepMembers_of_not _), planFor_members, ← hid]
      exact members_of_runnable ht hrun
    · rw [hplan]
      exact addedFirst _ planFor_members
  rw [and_iff_left hcopies, KeepsQuorum, hplan, throughout_filter (stepManagers_of_not _),
    planFor_managers, ← hid]
  by_cases hrole : target.role = some .manager
  · exact keepsQuorum_iff_of_manager ht hid hrole hmaj
  · refine ⟨fun _ => ?_, fun _ => keepsQuorum_of_worker ht hrole hmaj⟩
    rintro ⟨t, ht', hid', hrole', -⟩
    exact hrole (eq_of_nodeId ht' ht (hid'.trans hid.symm) ▸ hrole')

/-- A manager with nothing on it. -/
def bareManager (nodeId : String) (online : Bool) : DecomNodeInput where
  nodeId := nodeId
  hostname := nodeId
  online := online
  swarm := some ⟨nodeId, .manager, .active, if online then .ready else .down, none, []⟩
  hostsController := false
  disk := none
  meshPeer := false

/-- Three managers, of which the first retires and the last is online or not. -/
def threeManagers (online : Bool) : DecommissionInput where
  targetNodeId := "a"
  nodes := [bareManager "a" true, bareManager "b" true, bareManager "c" online]
  services := []
  containers := []
  volumes := []
  lastBackupAt := []
  backupsConfigured := false
  garageReplicationFactor := none
  now := 0
  enrolled := by simp [bareManager]

def asciiLib : Lib := ⟨fun a b => a ≤ b, fun s => s.toNat?.any (0 < ·)⟩

theorem planDecommission_keeps_three :
    KeepsQuorum asciiLib (threeManagers true) ∧ KeepsCopies asciiLib (threeManagers true) := by
  refine (planDecommission_keeps_iff asciiLib (threeManagers true) ⟨by decide, by decide⟩
    (by decide +kernel)).mpr ?_
  rintro ⟨_, -, -, -, -, heq, -⟩
  exact absurd heq (by decide)

/-- With one of three managers offline, another one retires and leaves one of two. -/
theorem not_keepsQuorum : ¬∀ lib input, Majority input (managerIds input) →
    (planDecommission lib input).runnable → KeepsQuorum lib input ∧ KeepsCopies lib input := by
  intro h
  have hkeeps := (h asciiLib (threeManagers false) ⟨by decide, by decide⟩ (by decide +kernel)).1
  have hleft : (planDecommission asciiLib (threeManagers false)).steps.foldl
      (stepManagers "a") (managerIds (threeManagers false)) = ["b", "c"] := by decide +kernel
  have hmaj := (hleft ▸ hkeeps _ (prefix_refl _) : Majority (threeManagers false) ["b", "c"])
  exact absurd hmaj.strict (by decide)

end

end Swarmy.Decommission
