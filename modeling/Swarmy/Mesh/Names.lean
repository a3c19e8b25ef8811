import Swarmy.Mesh.Plan

/-!
# Which names of a plan are shared

A policy is named after its stack and its service, with `-udp` behind the name for UDP and `-1`,
`-2` and so on for further sets of ports, and nothing keeps one such name from being another one's
start.  `nodup_policies_iff` says of which services the policies come to share a name, and
`nodup_resources_iff` of which the resources do.
-/

namespace Swarmy.Mesh

open List Option

/-! ## Services -/

/-- A service and its stack. -/
abbrev Member := PeopleStackIntent × PeopleServiceIntent

/-- The services that somebody may reach, of every stack. -/
def PeopleAccessIntent.members (intent : PeopleAccessIntent) : List Member :=
  (intent.stackList.filter fun st => !st.isClosed).flatMap fun st =>
    (st.services.filter fun s => isIpv4 s.vip && s.ports.length > 0).map (st, ·)

/-- What the policies of a service are named after. -/
def Member.stem (a : Member) : String := a.1.stackId ++ "-" ++ a.2.name

/-- The sets of ports that the stack's rule and each grant for the service open. -/
def Member.opened (a : Member) (proto : Proto) : List (List Nat) :=
  ((if a.1.ruleAccess then [a.2.portsOf proto] else []) ++
    (a.1.grants.filter (·.covers a.2)).map (·.allowed (a.2.portsOf proto))).map portSet

/-- How many different sets of ports are opened. -/
def Member.sets (a : Member) (proto : Proto) : Nat :=
  ((a.opened proto).filter (· ≠ [])).dedup.length

/-- The first set of TCP ports of a service has the name of a further set of another one's, or of
one of its sets of UDP ports. -/
def Member.Takes (a b : Member) : Prop :=
  0 < a.sets .tcp ∧
    ((∃ i, 0 < i ∧ i < b.sets .tcp ∧ a.stem = b.stem ++ "-" ++ toString i) ∨
      (0 < b.sets .udp ∧ a.stem = b.stem ++ "-udp") ∨
        ∃ i, 0 < i ∧ i < b.sets .udp ∧ a.stem = b.stem ++ "-udp" ++ "-" ++ toString i)

/-- The policies of two services have different names: the services are named differently in their
stacks, or share no protocol, and neither takes a name of the other one. -/
def Member.Apart (a b : Member) : Prop :=
  (∀ proto, 0 < a.sets proto → 0 < b.sets proto → a.stem ≠ b.stem) ∧ ¬a.Takes b ∧ ¬b.Takes a

theorem Member.Apart.symm {a b : Member} (h : a.Apart b) : b.Apart a :=
  ⟨fun proto hb ha heq => h.1 proto ha hb heq.symm, h.2.2, h.2.1⟩

/-! ## Texts -/

section

variable {x y : String} {i j : Nat}

/-- What stands behind the last hyphen. -/
theorem append_hyphen_inj {x y s t : List Char} (hs : '-' ∉ s) (ht : '-' ∉ t)
    (h : x ++ '-' :: s = y ++ '-' :: t) : x = y ∧ s = t := by
  obtain ⟨m, rfl, hm⟩ | ⟨m, rfl, hm⟩ := append_eq_append_iff.mp h
  · cases m with
    | nil =>
      rw [nil_append] at hm
      exact ⟨(append_nil x).symm, (cons.inj hm).2⟩
    | cons c m =>
      rw [cons_append] at hm
      exact absurd ((cons.inj hm).2 ▸ mem_append_right m mem_cons_self) hs
  · cases m with
    | nil =>
      rw [nil_append] at hm
      exact ⟨append_nil y, (cons.inj hm).2.symm⟩
    | cons c m =>
      rw [cons_append] at hm
      exact absurd ((cons.inj hm).2 ▸ mem_append_right m mem_cons_self) ht

theorem hyphen_notMem_toString (i : Nat) : '-' ∉ (toString i).toList := by
  rw [Nat.toString_eq_ofList_toDigits, String.toList_ofList]
  intro h
  exact absurd (Nat.isDigit_of_mem_toDigits (by decide) (by decide) h) (by decide)

theorem toString_ne_udp (i : Nat) : (toString i).toList ≠ "udp".toList := by
  rw [Nat.toString_eq_ofList_toDigits, String.toList_ofList]
  intro h
  have hu : 'u' ∈ Nat.toDigits 10 i := h ▸ (by decide)
  exact absurd (Nat.isDigit_of_mem_toDigits (by decide) (by decide) hu) (by decide)

/-- Two texts that end in a number after a hyphen. -/
theorem append_number_inj :
    x ++ ("-" ++ toString i) = y ++ ("-" ++ toString j) ↔ x = y ∧ i = j := by
  refine ⟨fun h => ?_, fun ⟨hx, hi⟩ => by rw [hx, hi]⟩
  have h' := congrArg String.toList h
  simp only [String.toList_append, show "-".toList = ['-'] from rfl, singleton_append] at h'
  obtain ⟨hx, hi⟩ := append_hyphen_inj (hyphen_notMem_toString i) (hyphen_notMem_toString j) h'
  exact ⟨String.toList_inj.mp hx, Js.toString_injective (String.toList_inj.mp hi)⟩

theorem append_number_ne_udp : x ++ ("-" ++ toString i) ≠ y ++ "-udp" := by
  intro h
  have h' := congrArg String.toList h
  simp only [String.toList_append, show "-".toList = ['-'] from rfl, singleton_append,
    show "-udp".toList = '-' :: "udp".toList from rfl] at h'
  exact toString_ne_udp i (append_hyphen_inj (hyphen_notMem_toString i) (by decide) h').2

end

/-! ## Names of policies -/

section

variable {a b : Member} {proto : Proto} {i : Nat}

@[simp] theorem policySuffix_tcp_zero : policySuffix .tcp 0 = "" := rfl

@[simp] theorem policySuffix_udp_zero : policySuffix .udp 0 = "-udp" := rfl

theorem policySuffix_tcp (hi : 0 < i) : policySuffix .tcp i = "-" ++ toString i := by
  simp [policySuffix, hi]

theorem policySuffix_udp (hi : 0 < i) : policySuffix .udp i = "-udp" ++ ("-" ++ toString i) := by
  simp [policySuffix, hi]

/-- Two services have a name in common only where they are named alike, or one takes the other's. -/
theorem alike_or_takes {proto' : Proto} {j : Nat} (hi : i < a.sets proto) (hj : j < b.sets proto')
    (h : a.stem ++ policySuffix proto i = b.stem ++ policySuffix proto' j) :
    (a.stem = b.stem ∧ proto = proto') ∨ a.Takes b ∨ b.Takes a := by
  obtain rfl | hi₀ := Nat.eq_zero_or_pos i <;> obtain rfl | hj₀ := Nat.eq_zero_or_pos j
  · cases proto <;> cases proto'
    · exact .inl ⟨(String.append_left_inj _).mp h, rfl⟩
    · exact .inr (.inl ⟨hi, .inr (.inl ⟨hj, by simpa using h⟩)⟩)
    · exact .inr (.inr ⟨hj, .inr (.inl ⟨hi, by simpa using h.symm⟩)⟩)
    · exact .inl ⟨(String.append_left_inj _).mp h, rfl⟩
  · -- a first set on the left, a further one on the right
    cases proto <;> cases proto'
    · rw [policySuffix_tcp hj₀, policySuffix_tcp_zero, String.append_empty,
        ← String.append_assoc] at h
      exact .inr (.inl ⟨hi, .inl ⟨j, hj₀, hj, h⟩⟩)
    · rw [policySuffix_udp hj₀, policySuffix_tcp_zero, String.append_empty] at h
      rw [← String.append_assoc, ← String.append_assoc] at h
      exact .inr (.inl ⟨hi, .inr (.inr ⟨j, hj₀, hj, h⟩)⟩)
    · rw [policySuffix_tcp hj₀, policySuffix_udp_zero] at h
      exact absurd h.symm append_number_ne_udp
    · rw [policySuffix_udp hj₀, policySuffix_udp_zero, ← String.append_assoc] at h
      exact absurd h.symm append_number_ne_udp
  · cases proto <;> cases proto'
    · rw [policySuffix_tcp hi₀, policySuffix_tcp_zero, String.append_empty,
        ← String.append_assoc] at h
      exact .inr (.inr ⟨hj, .inl ⟨i, hi₀, hi, h.symm⟩⟩)
    · rw [policySuffix_tcp hi₀, policySuffix_udp_zero] at h
      exact absurd h append_number_ne_udp
    · rw [policySuffix_udp hi₀, policySuffix_tcp_zero, String.append_empty] at h
      rw [← String.append_assoc, ← String.append_assoc] at h
      exact .inr (.inr ⟨hj, .inr (.inr ⟨i, hi₀, hi, h.symm⟩)⟩)
    · rw [policySuffix_udp hi₀, policySuffix_udp_zero, ← String.append_assoc] at h
      exact absurd h append_number_ne_udp
  · -- both numbers are the same, and what stands before them is
    cases proto <;> cases proto'
    · rw [policySuffix_tcp hi₀, policySuffix_tcp hj₀] at h
      exact .inl ⟨(append_number_inj.mp h).1, rfl⟩
    · rw [policySuffix_tcp hi₀, policySuffix_udp hj₀, ← @String.append_assoc b.stem] at h
      exact .inr (.inl ⟨by omega, .inr (.inl ⟨by omega, (append_number_inj.mp h).1⟩)⟩)
    · rw [policySuffix_udp hi₀, policySuffix_tcp hj₀, ← @String.append_assoc a.stem] at h
      exact .inr (.inr ⟨by omega, .inr (.inl ⟨by omega, (append_number_inj.mp h).1.symm⟩)⟩)
    · rw [policySuffix_udp hi₀, policySuffix_udp hj₀, ← @String.append_assoc a.stem,
        ← @String.append_assoc b.stem] at h
      exact .inl ⟨(String.append_left_inj _).mp (append_number_inj.mp h).1, rfl⟩

theorem exists_of_takes (h : a.Takes b) :
    ∃ proto i, 0 < a.sets .tcp ∧ i < b.sets proto ∧ a.stem = b.stem ++ policySuffix proto i := by
  obtain ⟨ha, ⟨i, hi, hb, heq⟩ | ⟨hb, heq⟩ | ⟨i, hi, hb, heq⟩⟩ := h
  · exact ⟨.tcp, i, ha, hb, by rw [policySuffix_tcp hi, ← String.append_assoc, heq]⟩
  · exact ⟨.udp, 0, ha, hb, heq⟩
  · exact ⟨.udp, i, ha, hb, by
      rw [policySuffix_udp hi, ← String.append_assoc, ← String.append_assoc, heq]⟩

theorem not_takes_self : ¬a.Takes a := by
  rintro ⟨-, ⟨i, -, -, h⟩ | ⟨-, h⟩ | ⟨i, -, -, h⟩⟩ <;>
  · have hlen := congrArg String.length h
    simp only [String.length_append, show "-".length = 1 from rfl,
      show "-udp".length = 4 from rfl] at hlen
    omega

theorem policySuffix_inj {j : Nat} (h : policySuffix proto i = policySuffix proto j) : i = j := by
  have h' := (String.append_right_inj _).mp h
  obtain rfl | hi := Nat.eq_zero_or_pos i <;> obtain rfl | hj := Nat.eq_zero_or_pos j
  · rfl
  · have hlen := congrArg String.length h'
    rw [if_neg (Nat.lt_irrefl 0), if_pos hj, String.length_append] at hlen
    exact absurd hlen (by rw [show "-".length = 1 from rfl, String.length_empty]; omega)
  · have hlen := congrArg String.length h'
    rw [if_neg (Nat.lt_irrefl 0), if_pos hi, String.length_append] at hlen
    exact absurd hlen (by rw [show "-".length = 1 from rfl, String.length_empty]; omega)
  · rw [if_pos hi, if_pos hj] at h'
    exact Js.toString_injective ((String.append_right_inj _).mp h')

/-- The names of a service's policies. -/
def Member.names (a : Member) (cluster : String) : List String :=
  [Proto.tcp, .udp].flatMap fun proto => (range (a.sets proto)).map fun i =>
    policyName cluster a.1.stackId a.2.name ++ policySuffix proto i

theorem policyName_stem (cluster : String) :
    policyName cluster a.1.stackId a.2.name = "swarmy-" ++ cluster ++ "-" ++ a.stem := by
  simp only [policyName, Member.stem, String.append_assoc]

theorem mem_names {cluster name : String} : name ∈ a.names cluster ↔
    ∃ proto i, i < a.sets proto ∧
      "swarmy-" ++ cluster ++ "-" ++ (a.stem ++ policySuffix proto i) = name := by
  simp only [Member.names, mem_flatMap, List.mem_map, mem_range, policyName_stem,
    String.append_assoc]
  constructor
  · rintro ⟨proto, -, i, hi, rfl⟩
    exact ⟨proto, i, hi, rfl⟩
  · rintro ⟨proto, i, hi, rfl⟩
    exact ⟨proto, by cases proto <;> decide, i, hi, rfl⟩

/-- The policies of two services share no name exactly where the services are apart. -/
theorem disjoint_names_iff {cluster : String} :
    Disjoint (a.names cluster) (b.names cluster) ↔ a.Apart b := by
  have hshared : ∀ {proto proto' : Proto} {i j : Nat}, i < a.sets proto → j < b.sets proto' →
      a.stem ++ policySuffix proto i = b.stem ++ policySuffix proto' j →
        ¬Disjoint (a.names cluster) (b.names cluster) := fun hi hj h hdis =>
    hdis (mem_names.mpr ⟨_, _, hi, rfl⟩) (mem_names.mpr ⟨_, _, hj, by rw [h]⟩)
  constructor
  · intro hdis
    refine ⟨fun proto ha hb heq => hshared ha hb (by rw [heq]) hdis, ?_, ?_⟩
    · intro h
      obtain ⟨proto, i, ha, hb, heq⟩ := exists_of_takes h
      exact hshared ha hb (by simpa using heq) hdis
    · intro h
      obtain ⟨proto, i, hb, ha, heq⟩ := exists_of_takes h
      exact hshared ha hb (by simpa using heq.symm) hdis
  · rintro ⟨hstem, hab, hba⟩ name hname hname'
    obtain ⟨proto, i, hi, rfl⟩ := mem_names.mp hname
    obtain ⟨proto', j, hj, heq⟩ := mem_names.mp hname'
    obtain ⟨hs, rfl⟩ | h | h := alike_or_takes hi hj ((String.append_right_inj _).mp heq).symm
    · exact hstem proto (by omega) (by omega) hs
    · exact hab h
    · exact hba h

/-- The names of one service's policies are distinct. -/
theorem nodup_names {cluster : String} : (a.names cluster).Nodup := by
  rw [Member.names, nodup_flatMap]
  refine ⟨fun proto _ => Nodup.map ?_ nodup_range, ?_⟩
  · intro i j h
    exact policySuffix_inj ((String.append_right_inj _).mp h)
  · rw [pairwise_pair]
    intro name hname hname'
    obtain ⟨i, hi, rfl⟩ := mem_map.mp hname
    obtain ⟨j, hj, heq⟩ := mem_map.mp hname'
    have heq' : a.stem ++ policySuffix .tcp i = a.stem ++ policySuffix .udp j := by
      rw [(String.append_right_inj _).mp heq]
    obtain ⟨-, h⟩ | h | h := alike_or_takes (mem_range.mp hi) (mem_range.mp hj) heq'
    · cases h
    · exact not_takes_self h
    · exact not_takes_self h

end

/-! ## Sets of ports -/

section

variable {cluster : String} {st : PeopleStackIntent} {svc : PeopleServiceIntent} {proto : Proto}

theorem keys_addSource (source : String) (ports : List Nat) (bySet : List (List Nat × List String))
    (h : (bySet.map Prod.fst).Nodup) :
    ((addSource source ports bySet).map Prod.fst).Nodup ∧
      ∀ key, key ∈ (addSource source ports bySet).map Prod.fst ↔
        key ∈ bySet.map Prod.fst ∨ (key = portSet ports ∧ key ≠ []) := by
  unfold addSource
  cases hset : portSet ports with
  | nil => exact ⟨h, fun key => by simp⟩
  | cons q qs =>
    dsimp only
    split
    · next hany =>
      obtain ⟨e, he, hkey⟩ := any_eq_true.mp hany
      have hkeys : (bySet.map fun e => if e.1 = q :: qs then (e.1, e.2 ++ [source]) else e).map
          Prod.fst = bySet.map Prod.fst := by
        rw [List.map_map]
        exact map_congr_left fun e _ => by
          dsimp only [Function.comp]
          split <;> rfl
      rw [hkeys]
      refine ⟨h, fun key => (or_iff_left_of_imp ?_).symm⟩
      rintro ⟨rfl, -⟩
      exact mem_map.mpr ⟨e, he, of_decide_eq_true hkey⟩
    · next hnone =>
      have hnew : q :: qs ∉ bySet.map Prod.fst := fun hmem => by
        obtain ⟨e, he, hkey⟩ := mem_map.mp hmem
        exact hnone (any_eq_true.mpr ⟨e, he, decide_eq_true hkey⟩)
      rw [map_append, map_cons, map_nil]
      refine ⟨h.append (nodup_singleton _) (disjoint_singleton.mpr hnew), fun key => ?_⟩
      rw [mem_append, mem_singleton]
      exact or_congr_right ⟨fun hk => ⟨hk, hk ▸ cons_ne_nil q qs⟩, And.left⟩

/-- A service has as many policies as sets of ports are opened. -/
theorem length_sourceSets (cluster : String) :
    (sourceSets cluster st svc proto).length = Member.sets (st, svc) proto := by
  have hfold : ∀ (gs : List PersonalGrantIntent) (l : List (List Nat × List String)),
      (l.map Prod.fst).Nodup →
      ((gs.foldl (fun bySet g => addSource (grantGroup cluster g.routeId)
        (g.allowed (svc.portsOf proto)) bySet) l).map Prod.fst).Nodup ∧
      ∀ key, key ∈ (gs.foldl (fun bySet g => addSource (grantGroup cluster g.routeId)
        (g.allowed (svc.portsOf proto)) bySet) l).map Prod.fst ↔
          key ∈ l.map Prod.fst ∨
            ∃ g ∈ gs, key = portSet (g.allowed (svc.portsOf proto)) ∧ key ≠ [] := by
    intro gs
    induction gs with
    | nil => exact fun l h => ⟨h, fun key => by simp⟩
    | cons g gs ih =>
      intro l h
      obtain ⟨hnodup, hkeys⟩ := keys_addSource (grantGroup cluster g.routeId)
        (g.allowed (svc.portsOf proto)) _ h
      obtain ⟨hnodup', hkeys'⟩ := ih _ hnodup
      refine ⟨hnodup', fun key => (hkeys' key).trans ?_⟩
      rw [hkeys]
      simp only [mem_cons, exists_eq_or_imp]
      tauto
  have hrule : ((if st.ruleAccess = true then addSource (accessGroup cluster st.stackId)
      (svc.portsOf proto) [] else []).map Prod.fst).Nodup ∧
      ∀ key, key ∈ (if st.ruleAccess = true then addSource (accessGroup cluster st.stackId)
        (svc.portsOf proto) [] else []).map Prod.fst ↔
          st.ruleAccess = true ∧ key = portSet (svc.portsOf proto) ∧ key ≠ [] := by
    split
    · next hr =>
      obtain ⟨hnodup, hkeys⟩ := keys_addSource (accessGroup cluster st.stackId)
        (svc.portsOf proto) [] nodup_nil
      exact ⟨hnodup, fun key => (hkeys key).trans (by simp [hr])⟩
    · next hr => exact ⟨nodup_nil, fun key => by simp [hr]⟩
  obtain ⟨hnodup, hkeys⟩ := hfold (st.sortedGrants.filter (·.covers svc)) _ hrule.1
  rw [← length_map Prod.fst, Member.sets]
  refine ((perm_ext_iff_of_nodup hnodup (nodup_dedup _)).mpr fun key => ?_).length_eq
  refine (hkeys key).trans ?_
  rw [hrule.2, mem_dedup, mem_filter, Member.opened, List.mem_map]
  simp only [PeopleStackIntent.sortedGrants, mem_filter, mem_insertionSort, mem_append,
    decide_eq_true_eq]
  constructor
  · rintro (⟨hr, rfl, hne⟩ | ⟨g, ⟨hg, hc⟩, rfl, hne⟩)
    · exact ⟨⟨_, .inl (by rw [if_pos hr]; exact mem_singleton_self _), rfl⟩, hne⟩
    · exact ⟨⟨_, .inr (mem_map.mpr ⟨g, mem_filter.mpr ⟨hg, hc⟩, rfl⟩), rfl⟩, hne⟩
  · rintro ⟨⟨ports, hports | hports, rfl⟩, hne⟩
    · split at hports
      · next hr =>
        rw [mem_singleton.mp hports] at hne ⊢
        exact .inl ⟨hr, rfl, hne⟩
      · cases hports
    · obtain ⟨g, hg, rfl⟩ := mem_map.mp hports
      exact .inr ⟨g, mem_filter.mp hg, rfl, hne⟩

theorem map_name_planPolicies : (planPolicies cluster st svc proto).map PlannedPolicy.name =
    (range (Member.sets (st, svc) proto)).map fun i =>
      policyName cluster st.stackId svc.name ++ policySuffix proto i := by
  unfold planPolicies
  split
  · next hnone =>
    have hzero : Member.sets (st, svc) proto = 0 := by
      rw [← length_sourceSets cluster, length_eq_zero_iff, eq_nil_iff_forall_not_mem]
      intro e he
      obtain ⟨-, hne, hsrc⟩ := setsOk_sourceSets e he
      obtain ⟨p, hp⟩ := exists_mem_of_ne_nil _ hne
      obtain ⟨s, hs⟩ := exists_mem_of_ne_nil _ hsrc
      have hreach := reaches_sourceSets.mp ⟨e, he, hp, hs⟩
      rw [hnone] at hreach
      exact absurd hreach.1 not_mem_nil
    rw [hzero]
    rfl
  · refine ext_getElem (by simp [length_sourceSets]) fun i h₁ h₂ => ?_
    simp

end

/-! ## The names of a plan -/

section

variable {toLowerCase : String → String} {intent : PeopleAccessIntent}

/-- The services of the stacks of a plan, in its order. -/
theorem perm_members : (intent.openStacks.flatMap fun st => st.resources.map (st, ·)).Perm
    intent.members := by
  have hstacks : intent.openStacks.Perm (intent.stackList.filter fun st => !st.isClosed) :=
    (perm_insertionSort _ _).filter _
  exact hstacks.flatMap fun st _ => (perm_insertionSort _ _).map _

/-- The policies' names are distinct exactly where all services are apart. -/
theorem nodup_policies_iff :
    ((buildPeopleAccessPlan toLowerCase intent).policies.map PlannedPolicy.name).Nodup ↔
      intent.members.Pairwise Member.Apart := by
  have hnames : (intent.openStacks.flatMap (stackPolicies intent.cluster)).map PlannedPolicy.name =
      (intent.openStacks.flatMap fun st => st.resources.map (st, ·)).flatMap fun a =>
        Member.names a intent.cluster := by
    simp only [stackPolicies, map_flatMap, flatMap_assoc, flatMap_map, map_append,
      map_name_planPolicies, Member.names, flatMap_cons, flatMap_nil, append_nil]
  have hperm : ((buildPeopleAccessPlan toLowerCase intent).policies.map PlannedPolicy.name).Perm
      (intent.members.flatMap fun a => Member.names a intent.cluster) := by
    refine ((perm_insertionSort _ _).map _).trans ?_
    rw [hnames]
    exact perm_members.flatMap fun _ _ => .refl _
  rw [hperm.nodup_iff, nodup_flatMap, and_iff_right fun _ _ => nodup_names]
  exact Pairwise.iff fun _ _ => disjoint_names_iff

/-- The resources' names are distinct exactly where those of the services in their stacks are. -/
theorem nodup_resources_iff :
    ((buildPeopleAccessPlan toLowerCase intent).networks.flatMap fun n =>
      n.resources.map fun r => n.name ++ "/" ++ r.name).Nodup ↔
      intent.members.Pairwise fun a b =>
        a.1.stackId ++ "/" ++ a.2.name ≠ b.1.stackId ++ "/" ++ b.2.name := by
  have hkeys : (intent.openStacks.map (planNetwork intent.cluster)).flatMap (fun n =>
      n.resources.map fun r => n.name ++ "/" ++ r.name) =
      (intent.openStacks.flatMap fun st => st.resources.map (st, ·)).map fun a : Member =>
        "swarmy-" ++ intent.cluster ++ "-" ++ (a.1.stackId ++ "/" ++ a.2.name) := by
    simp only [planNetwork, networkName, map_flatMap, flatMap_map, List.map_map, Function.comp_def,
      String.append_assoc]
  have hperm : ((buildPeopleAccessPlan toLowerCase intent).networks.flatMap fun n =>
      n.resources.map fun r => n.name ++ "/" ++ r.name).Perm
      (intent.members.map fun a : Member =>
        "swarmy-" ++ intent.cluster ++ "-" ++ (a.1.stackId ++ "/" ++ a.2.name)) := by
    refine ((perm_insertionSort _ _).flatMap_right _).trans ?_
    rw [hkeys]
    exact perm_members.map _
  rw [hperm.nodup_iff, Nodup, pairwise_map]
  exact Pairwise.iff fun _ _ => not_congr (String.append_right_inj _)

end

end Swarmy.Mesh
