import Mathlib
import Swarmy.AppSecrets.Names

/-!
# Which versions may go

`packages/core/src/app-secrets.ts`: `appSecretsToPrune`.  The versions of each service and
key, newest first; a service that is gone keeps its newest, one that is there keeps all
while it is not settled, and whatever a live spec references is kept.
-/

namespace Swarmy.AppSecrets

open List Option

/-! ## The rule -/

/-- One physical version, as its labels say it. -/
structure AppSecretVersion where
  name : Text
  service : Text
  key : Text
  version : Nat
  createdAt : Rat

structure GcServiceView where
  name : Text
  /-- Physical secret names the live spec references. -/
  secrets : List Text
  /-- No rolling update in flight. -/
  converged : Bool
  /-- Last spec change. -/
  updatedAt : Rat
  gateWindowSec : Option Rat

/-- `${v.service}\u0000${v.key}`. -/
def AppSecretVersion.group (v : AppSecretVersion) : Text := v.service ++ Char.ofNat 0 :: v.key

section

variable (versions : List AppSecretVersion) (services : List GcServiceView) (now graceMs : Rat)

def referenced (name : Text) : Bool := services.any fun s => name ∈ s.secrets

/-- `byService.get(name)`: of two views with one name the last counts. -/
def byService (name : Text) : Option GcServiceView := services.reverse.find? (·.name = name)

/-- The groups of versions, in the order of their first ones. -/
def groups : List (List AppSecretVersion) :=
  (versions.map (·.group)).reverse.dedup.reverse.map fun k => versions.filter (·.group = k)

def newestFirst (list : List AppSecretVersion) : List AppSecretVersion :=
  list.mergeSort fun a b => b.version ≤ a.version

/-- How old a version must be: the health gate's window and a minute, or more. -/
def grace (svc : Option GcServiceView) : Rat :=
  max graceMs (((svc.bind (·.gateWindowSec)).getD 0 + 60) * 1000)

/-- What of one group may go. -/
def pruneGroup (list : List AppSecretVersion) : List Text :=
  let sorted := newestFirst list
  let svc := (sorted.head?.bind fun v => byService services v.service)
  let old := fun (v : AppSecretVersion) => grace graceMs svc ≤ now - v.createdAt
  let goes := fun (v : AppSecretVersion) => !referenced services v.name && old v
  match svc with
  | none => (sorted.tail.filter goes).map (·.name)
  | some s =>
    if !s.converged || now - s.updatedAt < grace graceMs svc then []
    else (sorted.filter goes).map (·.name)

/-- The app-secret versions that may be removed now. -/
def appSecretsToPrune : List Text :=
  ((groups versions).flatMap (pruneGroup services now graceMs)).mergeSort fun a b => a ≤ b

end

/-! ## What may go -/

/-- The names of a swarm's secrets and services are distinct: Docker keeps them so.  The
name of a service has no null character. -/
structure Swarm where
  versions : List AppSecretVersion
  services : List GcServiceView
  secretNames : (versions.map (·.name)).Nodup
  serviceNames : (services.map (·.name)).Nodup
  serviceText : ∀ v ∈ versions, Char.ofNat 0 ∉ v.service

section

variable (services : List GcServiceView) (now graceMs : Rat)

/-- A version that nothing references and that is out of the grace window, of a service
that is settled or gone. -/
structure MayGo (v : AppSecretVersion) : Prop where
  unreferenced : referenced services v.name = false
  old : grace graceMs (byService services v.service) ≤ now - v.createdAt
  settled : ∀ s, byService services v.service = some s →
    s.converged ∧ grace graceMs (some s) ≤ now - s.updatedAt

end

/-- The versions of one service and key. -/
def sameKey (v w : AppSecretVersion) : Prop := w.service = v.service ∧ w.key = v.key

theorem group_eq_iff {v w : AppSecretVersion} (hv : Char.ofNat 0 ∉ v.service)
    (hw : Char.ofNat 0 ∉ w.service) : w.group = v.group ↔ sameKey v w := by
  unfold AppSecretVersion.group sameKey
  constructor
  · intro h
    have htake := congrArg (List.takeWhile (· ≠ Char.ofNat 0)) h
    have hall : ∀ s : Text, Char.ofNat 0 ∉ s → ∀ k,
        (s ++ Char.ofNat 0 :: k).takeWhile (· ≠ Char.ofNat 0) = s := fun s hs k => by
      have hne : ∀ c ∈ s, decide (c ≠ Char.ofNat 0) = true := fun c hc =>
        decide_eq_true fun heq => hs (heq ▸ hc)
      rw [takeWhile_append_of_pos hne, takeWhile_cons_of_neg (by simp), append_nil]
    rw [hall _ hw, hall _ hv] at htake
    rw [htake] at h
    exact ⟨htake, (List.cons.inj (append_cancel_left h)).2⟩
  · rintro ⟨hs, hk⟩
    rw [hs, hk]

section

variable {services : List GcServiceView} {now graceMs : Rat}

theorem mem_newestFirst {list : List AppSecretVersion} {v : AppSecretVersion} :
    v ∈ newestFirst list ↔ v ∈ list := mem_mergeSort

theorem newestFirst_pairwise (list : List AppSecretVersion) :
    (newestFirst list).Pairwise fun a b => b.version ≤ a.version := by
  have h := @pairwise_mergeSort _ (fun a b : AppSecretVersion => decide (b.version ≤ a.version))
    (fun a b c hab hbc => by
      rw [decide_eq_true_eq] at *
      exact hbc.trans hab)
    (fun a b => by
      rw [Bool.or_eq_true, decide_eq_true_eq, decide_eq_true_eq]
      exact le_total _ _) list
  exact h.imp fun {a b} hab => of_decide_eq_true hab

/-- What of a group may go: for a service that is gone, not its first. -/
theorem mem_pruneGroup {list : List AppSecretVersion} {service : Text}
    (hservice : ∀ v ∈ list, v.service = service) {n : Text} :
    n ∈ pruneGroup services now graceMs list ↔ ∃ v ∈ list, v.name = n ∧
      MayGo services now graceMs v ∧
      (byService services service = none → v ∈ (newestFirst list).tail) := by
  have hof : ∀ v ∈ list, byService services v.service = byService services service :=
    fun v hv => by rw [hservice v hv]
  unfold pruneGroup
  cases hsorted : newestFirst list with
  | nil =>
    have hnone : ∀ v, v ∉ list := fun v hv => by
      have := mem_newestFirst.mpr hv
      rw [hsorted] at this
      cases this
    simp only [List.head?_nil, bind_none, tail_nil, filter_nil, map_nil,
      not_mem_nil, false_iff]
    rintro ⟨v, hv, -⟩
    exact hnone v hv
  | cons first rest =>
    have hfirst : first ∈ list := mem_newestFirst.mp (hsorted ▸ mem_cons_self)
    have hmem : ∀ {v}, v ∈ first :: rest ↔ v ∈ list := fun {v} => hsorted ▸ mem_newestFirst
    simp only [List.head?_cons, bind_some, hof first hfirst, tail_cons]
    have hgo : ∀ v ∈ list, (MayGo services now graceMs v ↔
        (!referenced services v.name && decide (grace graceMs (byService services service) ≤
          now - v.createdAt)) ∧ ∀ s, byService services service = some s →
            s.converged ∧ grace graceMs (some s) ≤ now - s.updatedAt) := fun v hv => by
      rw [Bool.and_eq_true, Bool.not_eq_true', decide_eq_true_eq, ← hof v hv]
      exact ⟨fun h => ⟨⟨h.1, h.2⟩, h.3⟩, fun h => ⟨h.1.1, h.1.2, h.2⟩⟩
    cases hsvc : byService services service with
    | none =>
      rw [hsvc] at hgo
      simp only [List.mem_map, List.mem_filter, true_implies]
      constructor
      · rintro ⟨v, ⟨hv, hgoes⟩, rfl⟩
        have hv' := hmem.mp (List.mem_cons_of_mem _ hv)
        exact ⟨v, hv', rfl, (hgo v hv').mpr ⟨hgoes, fun s hs => (some_ne_none s hs.symm).elim⟩, hv⟩
      · rintro ⟨v, hv, rfl, hmay, htail⟩
        exact ⟨v, ⟨htail, ((hgo v hv).mp hmay).1⟩, rfl⟩
    | some s =>
      rw [hsvc] at hgo
      simp only [reduceCtorEq, false_implies, and_true]
      have hsettled : (!s.converged || decide (now - s.updatedAt < grace graceMs (some s))) =
          false ↔
          s.converged ∧ grace graceMs (some s) ≤ now - s.updatedAt := by
        rw [Bool.or_eq_false_iff, Bool.not_eq_false', decide_eq_false_iff_not, not_lt]
      split
      · next hblocked =>
        refine ⟨fun hn => absurd hn not_mem_nil, ?_⟩
        rintro ⟨v, hv, -, hmay⟩
        have := hsettled.mpr (((hgo v hv).mp hmay).2 s rfl)
        rw [this] at hblocked
        cases hblocked
      · next hopen =>
        have hs := hsettled.mp (Bool.eq_false_iff.mpr hopen)
        simp only [List.mem_map, List.mem_filter]
        constructor
        · rintro ⟨v, ⟨hv, hgoes⟩, rfl⟩
          have hv' := hmem.mp hv
          exact ⟨v, hv', rfl, (hgo v hv').mpr ⟨hgoes, fun s' h' => some.inj h' ▸ hs⟩⟩
        · rintro ⟨v, hv, rfl, hmay⟩
          exact ⟨v, ⟨hmem.mpr hv, ((hgo v hv).mp hmay).1⟩, rfl⟩

end

/-! ## Over a swarm -/

namespace Swarm

variable (w : Swarm) (now graceMs : Rat)

/-- The names that may be removed. -/
def pruned : List Text := appSecretsToPrune w.versions w.services now graceMs

def Gone (v : AppSecretVersion) : Prop := ∀ s ∈ w.services, s.name ≠ v.service

/-- Nothing of the service and the key is newer. -/
def Newest (v : AppSecretVersion) : Prop :=
  v ∈ w.versions ∧ ∀ u ∈ w.versions, sameKey v u → u ≠ v → u.version < v.version

/-- The swarm once the names are removed. -/
def remainder : Swarm where
  versions := w.versions.filter (·.name ∉ w.pruned now graceMs)
  services := w.services
  secretNames := w.secretNames.sublist (filter_sublist.map _)
  serviceNames := w.serviceNames
  serviceText := fun v hv => w.serviceText v (mem_of_mem_filter hv)

/-- What must not be removed is not, and removing once is enough. -/
structure PrunesSafely : Prop where
  unreferenced : ∀ n ∈ w.pruned now graceMs, ∀ s ∈ w.services, n ∉ s.secrets
  settled : ∀ v ∈ w.versions, v.name ∈ w.pruned now graceMs → ∀ s ∈ w.services,
    s.name = v.service → s.converged ∧ grace graceMs (some s) ≤ now - s.updatedAt
  old : ∀ v ∈ w.versions, v.name ∈ w.pruned now graceMs →
    grace graceMs (byService w.services v.service) ≤ now - v.createdAt
  newest : ∀ v, w.Newest v → w.Gone v → v.name ∉ w.pruned now graceMs
  /-- Of versions that are newest alike, one is kept. -/
  someKept : ∀ v ∈ w.versions, w.Gone v → ∃ u ∈ w.versions, sameKey v u ∧
    v.version ≤ u.version ∧ u.name ∉ w.pruned now graceMs
  idempotent : (w.remainder now graceMs).pruned now graceMs = []

/-- The group of a version. -/
def groupOf (v : AppSecretVersion) : List AppSecretVersion :=
  w.versions.filter (·.group = v.group)

end Swarm

section

variable {w : Swarm} {now graceMs : Rat} {v u : AppSecretVersion}

theorem eq_of_name (hv : v ∈ w.versions) (hu : u ∈ w.versions) (h : v.name = u.name) : v = u :=
  inj_on_of_nodup_map w.secretNames hv hu h

theorem byService_eq_some {s : GcServiceView} {name : Text} :
    byService w.services name = some s ↔ s ∈ w.services ∧ s.name = name := by
  unfold byService
  constructor
  · intro h
    have hname := List.find?_some h
    rw [decide_eq_true_eq] at hname
    exact ⟨mem_reverse.mp (mem_of_find?_eq_some h), hname⟩
  · rintro ⟨hs, rfl⟩
    obtain ⟨t, ht⟩ : ∃ t, w.services.reverse.find? (·.name = s.name) = some t := by
      rw [← isSome_iff_exists, List.find?_isSome]
      exact ⟨s, mem_reverse.mpr hs, decide_eq_true rfl⟩
    have hmem := mem_reverse.mp (mem_of_find?_eq_some ht)
    have hname := List.find?_some ht
    rw [decide_eq_true_eq] at hname
    rw [ht, inj_on_of_nodup_map w.serviceNames hmem hs hname]

theorem gone_iff : w.Gone v ↔ byService w.services v.service = none := by
  rw [eq_none_iff_forall_ne_some]
  constructor
  · intro h s hs
    obtain ⟨hmem, hname⟩ := byService_eq_some.mp hs
    exact h s hmem hname
  · intro h s hs hname
    exact h s (byService_eq_some.mpr ⟨hs, hname⟩)

theorem mem_groupOf (hv : v ∈ w.versions) : u ∈ w.groupOf v ↔ u ∈ w.versions ∧ sameKey v u := by
  unfold Swarm.groupOf
  rw [mem_filter, decide_eq_true_eq]
  exact and_congr_right fun hu => group_eq_iff (w.serviceText v hv) (w.serviceText u hu)

/-- A name is removed when it is that of a version which may go and which, for a service
that is gone, is not the first of its group. -/
theorem mem_pruned {n : Text} : n ∈ w.pruned now graceMs ↔ ∃ v ∈ w.versions, v.name = n ∧
    MayGo w.services now graceMs v ∧
    (w.Gone v → v ∈ (newestFirst (w.groupOf v)).tail) := by
  unfold Swarm.pruned appSecretsToPrune groups
  rw [mem_mergeSort, mem_flatMap]
  simp only [List.mem_map, List.mem_reverse, List.mem_dedup]
  have hgroup : ∀ v ∈ w.versions, n ∈ pruneGroup w.services now graceMs (w.groupOf v) ↔
      ∃ u ∈ w.groupOf v, u.name = n ∧ MayGo w.services now graceMs u ∧
        (byService w.services v.service = none → u ∈ (newestFirst (w.groupOf v)).tail) :=
    fun v hv => mem_pruneGroup fun u hu => ((mem_groupOf hv).mp hu).2.1
  constructor
  · rintro ⟨_, ⟨_, ⟨v, hv, rfl⟩, rfl⟩, hn⟩
    obtain ⟨u, hu, rfl, hmay, htail⟩ := (hgroup v hv).mp hn
    obtain ⟨hu', hsame⟩ := (mem_groupOf hv).mp hu
    have hgroups : w.groupOf u = w.groupOf v := by
      unfold Swarm.groupOf
      rw [(group_eq_iff (w.serviceText v hv) (w.serviceText u hu')).mpr hsame]
    refine ⟨u, hu', rfl, hmay, fun hgone => ?_⟩
    rw [gone_iff, hsame.1] at hgone
    rw [hgroups]
    exact htail hgone
  · rintro ⟨v, hv, rfl, hmay, htail⟩
    refine ⟨_, ⟨_, ⟨v, hv, rfl⟩, rfl⟩, (hgroup v hv).mpr ⟨v, ?_, rfl, hmay, ?_⟩⟩
    · exact (mem_groupOf hv).mpr ⟨hv, rfl, rfl⟩
    · intro hnone
      exact htail (gone_iff.mpr hnone)

theorem mem_pruned_name (hv : v ∈ w.versions) : v.name ∈ w.pruned now graceMs ↔
    MayGo w.services now graceMs v ∧ (w.Gone v → v ∈ (newestFirst (w.groupOf v)).tail) := by
  rw [mem_pruned]
  constructor
  · rintro ⟨u, hu, hname, h⟩
    rwa [eq_of_name hu hv hname] at h
  · intro h
    exact ⟨v, hv, rfl, h⟩

theorem nodup_versions : w.versions.Nodup := List.Nodup.of_map _ w.secretNames

theorem nodup_newestFirst : (newestFirst (w.groupOf v)).Nodup :=
  (mergeSort_perm _ _).nodup_iff.mpr (nodup_versions.filter _)

/-- The first of a group is as new as any of it and is not in the rest. -/
theorem exists_first (hv : v ∈ w.versions) : ∃ first rest,
    newestFirst (w.groupOf v) = first :: rest ∧ first ∉ rest ∧ first ∈ w.groupOf v ∧
      ∀ u ∈ w.groupOf v, u ∈ rest ∨ u = first := by
  have hmem : v ∈ newestFirst (w.groupOf v) :=
    mem_newestFirst.mpr ((mem_groupOf hv).mpr ⟨hv, rfl, rfl⟩)
  obtain ⟨first, rest, hsorted⟩ := exists_cons_of_ne_nil (ne_nil_of_mem hmem)
  have hnodup := nodup_newestFirst (w := w) (v := v)
  rw [hsorted, nodup_cons] at hnodup
  refine ⟨first, rest, hsorted, hnodup.1, mem_newestFirst.mp (hsorted ▸ mem_cons_self), ?_⟩
  intro u hu
  have := mem_newestFirst.mpr hu
  rw [hsorted, mem_cons] at this
  exact this.symm

/-! ## Safety -/

theorem pair_sublist {α : Type} {l : List α} {a b : α} (ha : a ∈ l) (hb : b ∈ l) (hne : a ≠ b) :
    [a, b].Sublist l ∨ [b, a].Sublist l := by
  induction l with
  | nil => cases ha
  | cons c l ih =>
    rcases mem_cons.mp ha with rfl | ha'
    · have hb' := (mem_cons.mp hb).resolve_left hne.symm
      exact .inl ((singleton_sublist.mpr hb').cons_cons _)
    rcases mem_cons.mp hb with rfl | hb'
    · exact .inr ((singleton_sublist.mpr ha').cons_cons _)
    · exact (ih ha' hb').imp (·.cons _) (·.cons _)

/-- A sort keeps the order of two that it finds in order. -/
theorem pair_sublist_newestFirst {list : List AppSecretVersion} {a b : AppSecretVersion}
    (h : [a, b].Sublist list) (hle : b.version ≤ a.version) :
    [a, b].Sublist (newestFirst list) := by
  refine pair_sublist_mergeSort (fun x y z hxy hyz => ?_) (fun x y => ?_) (decide_eq_true hle) h
  · rw [decide_eq_true_eq] at *
    exact hyz.trans hxy
  · rw [Bool.or_eq_true, decide_eq_true_eq, decide_eq_true_eq]
    exact le_total _ _

theorem not_pair_sublist {α : Type} {rest : List α} {a b : α} (hne : a ≠ b) (hb : b ∉ rest) :
    ¬[a, b].Sublist (b :: rest) := by
  intro h
  cases h with
  | cons _ h => exact hb (h.subset (mem_cons_of_mem _ mem_cons_self))
  | cons_cons _ h => exact hne rfl

theorem prunesSafely_newest (hnewest : w.Newest v) (hgone : w.Gone v) :
    v.name ∉ w.pruned now graceMs := by
  intro hn
  obtain ⟨hv, hnewer⟩ := hnewest
  have htail := ((mem_pruned_name hv).mp hn).2 hgone
  obtain ⟨first, rest, hsorted, hnot, hfirst, -⟩ := exists_first hv
  rw [hsorted, tail_cons] at htail
  obtain ⟨hfirst, hsame⟩ := (mem_groupOf hv).mp hfirst
  have hpair := newestFirst_pairwise (w.groupOf v)
  rw [hsorted] at hpair
  have hle := rel_of_pairwise_cons hpair htail
  have hlt := hnewer first hfirst hsame fun heq => hnot (heq ▸ htail)
  exact absurd hle (not_le.mpr hlt)

theorem prunesSafely_someKept (hv : v ∈ w.versions) (hgone : w.Gone v) :
    ∃ u ∈ w.versions, sameKey v u ∧ v.version ≤ u.version ∧ u.name ∉ w.pruned now graceMs := by
  obtain ⟨first, rest, hsorted, hnot, hfirst, hmem⟩ := exists_first hv
  obtain ⟨hfirst, hsame⟩ := (mem_groupOf hv).mp hfirst
  refine ⟨first, hfirst, hsame, ?_, fun hn => ?_⟩
  · have hpair := newestFirst_pairwise (w.groupOf v)
    rw [hsorted] at hpair
    rcases hmem v ((mem_groupOf hv).mpr ⟨hv, rfl, rfl⟩) with hrest | rfl
    · exact rel_of_pairwise_cons hpair hrest
    · exact le_refl _
  · have hgone' : w.Gone first := by
      rw [gone_iff, hsame.1, ← gone_iff]
      exact hgone
    have htail := ((mem_pruned_name hfirst).mp hn).2 hgone'
    have hgroup : w.groupOf first = w.groupOf v := by
      unfold Swarm.groupOf
      rw [(group_eq_iff (w.serviceText v hv) (w.serviceText first hfirst)).mpr hsame]
    rw [hgroup, hsorted, tail_cons] at htail
    exact hnot htail

/-- What is first in a group stays first when others of it are removed. -/
theorem prunesSafely_idempotent : (w.remainder now graceMs).pruned now graceMs = [] := by
  rw [eq_nil_iff_forall_not_mem]
  intro n hn
  obtain ⟨v, hv', rfl, hmay, htail'⟩ := mem_pruned.mp hn
  obtain ⟨hv, hkept⟩ := mem_filter.mp hv'
  rw [decide_eq_true_eq, mem_pruned_name hv, not_and] at hkept
  obtain ⟨hgone, htail⟩ := Classical.not_imp.mp (hkept hmay)
  have htail' := htail' hgone
  obtain ⟨first, rest, hsorted, hnot, -, hmem⟩ := exists_first hv
  obtain ⟨first', rest', hsorted', hnot', hfirst', -⟩ := exists_first hv'
  rw [hsorted, tail_cons] at htail
  rw [hsorted', tail_cons] at htail'
  have hsub : ((w.remainder now graceMs).groupOf v).Sublist (w.groupOf v) :=
    filter_sublist.filter _
  obtain rfl : v = first :=
    (hmem v ((mem_groupOf hv).mpr ⟨hv, rfl, rfl⟩)).resolve_left htail
  have hne : first' ≠ v := fun heq => hnot' (heq ▸ htail')
  have hrest := (hmem first' (hsub.subset hfirst')).resolve_right hne
  have hpair := newestFirst_pairwise (w.groupOf v)
  have hpair' := newestFirst_pairwise ((w.remainder now graceMs).groupOf v)
  rw [hsorted] at hpair
  rw [hsorted'] at hpair'
  -- The two are of one version, so each sort leaves them as they were.
  have hle := rel_of_pairwise_cons hpair hrest
  have hle' := rel_of_pairwise_cons hpair' htail'
  have hvmem := (mem_groupOf hv').mpr ⟨hv', rfl, rfl⟩
  rcases pair_sublist hfirst' hvmem hne with h | h
  · have h := pair_sublist_newestFirst (h.trans hsub) hle'
    rw [hsorted] at h
    exact not_pair_sublist hne hnot h
  · have h := pair_sublist_newestFirst h hle
    rw [hsorted'] at h
    exact not_pair_sublist hne.symm hnot' h

/-- Pruning removes nothing that must be kept, whatever the swarm. -/
theorem prunesSafely : w.PrunesSafely now graceMs where
  unreferenced := by
    intro n hn s hs hmem
    obtain ⟨v, -, rfl, hmay, -⟩ := mem_pruned.mp hn
    have hno := any_eq_false.mp hmay.unreferenced s hs
    exact hno (decide_eq_true hmem)
  settled := by
    intro v hv hn s hs hname
    exact ((mem_pruned_name hv).mp hn).1.settled s (byService_eq_some.mpr ⟨hs, hname⟩)
  old := fun v hv hn => ((mem_pruned_name hv).mp hn).1.old
  newest := fun v hnewest hgone => prunesSafely_newest hnewest hgone
  someKept := fun v hv hgone => prunesSafely_someKept hv hgone
  idempotent := prunesSafely_idempotent

end

/-! ## A secret is one service's -/

/-- Names tell the versions apart, a live name is one's own, and pruning is safe, exactly
when the two do not clash at one version and what was created for others that clash is
older. -/
theorem appSecrets_iff {a b : Identity} (hne : a ≠ b) (ha : a.Fits) (hb : b.Fits)
    {service key : Text} {created : List Identity}
    (hfits : ∀ c ∈ created, c.Fits ∧ (fullName service key c.version).length ≤ DOCKER_NAME_MAX)
    (w : Swarm) (now graceMs : Rat) :
    (a.name ≠ b.name ∧ FindsOwn service key created ∧ w.PrunesSafely now graceMs) ↔
      ¬(a.version = b.version ∧ Clash a.service a.key b.service b.key) ∧
        ClashesAreOlder service key created := by
  rw [name_ne_iff hne ha hb, findsOwn_iff hfits, and_iff_left prunesSafely]

/-- The key `C` of the service `a_b`. -/
def keyC : Identity := ⟨['a', '_', 'b'], ['C'], 1, by decide⟩

/-- The key `b_C` of the service `a`. -/
def keyBC : Identity := ⟨['a'], ['b', '_', 'C'], 1, by decide⟩

def noSecrets : Swarm := ⟨[], [], nodup_nil, nodup_nil, nofun⟩

/-- Two versions of `C`, of which the service has the second, and one of a service that is gone. -/
def twoVersions : Swarm where
  versions :=
    [⟨keyC.name, keyC.service, keyC.key, 1, 0⟩,
      ⟨"a_b_C_v2".toList, keyC.service, keyC.key, 2, 1000000⟩,
      ⟨"gone_K_v1".toList, "gone".toList, "K".toList, 1, 0⟩]
  services := [⟨keyC.service, ["a_b_C_v2".toList], true, 1000000, none⟩]
  secretNames := by decide
  serviceNames := by decide
  serviceText := by decide

/-- Two variables of one service, and what of its secrets may go. -/
theorem appSecrets_twoVersions :
    ((keyC.name ≠ (⟨['a', '_', 'b'], ['D'], 1, by decide⟩ : Identity).name ∧
        FindsOwn ['a', '_', 'b'] ['C'] [keyC] ∧ twoVersions.PrunesSafely 2000000 600000) ↔
      ¬(1 = 1 ∧ Clash ['a', '_', 'b'] ['C'] ['a', '_', 'b'] ['D']) ∧
        ClashesAreOlder ['a', '_', 'b'] ['C'] [keyC]) ∧
    keyC.name ∈ twoVersions.pruned 2000000 600000 := by
  refine ⟨appSecrets_iff (b := ⟨['a', '_', 'b'], ['D'], 1, by decide⟩) (by decide) (by decide)
    (by decide) (fun c hc => ?_) twoVersions 2000000 600000, ?_⟩
  · rw [mem_singleton.mp hc]
    decide
  · refine (mem_pruned_name (v := ⟨keyC.name, keyC.service, keyC.key, 1, 0⟩) mem_cons_self).mpr
      ⟨⟨by decide, by decide +kernel, fun s hs => ?_⟩, fun hnone => ?_⟩
    · obtain ⟨hmem, -⟩ := byService_eq_some.mp hs
      rw [mem_singleton.mp hmem]
      exact ⟨rfl, by decide +kernel⟩
    · exact absurd (gone_iff.mp hnone) (by decide)

/-- The service `a` finds the secret of `a_b`. -/
theorem not_appSecrets : ¬∀ a b : Identity, a ≠ b → a.Fits → b.Fits →
    ∀ (service key : Text) (created : List Identity),
      (∀ c ∈ created, c.Fits ∧ (fullName service key c.version).length ≤ DOCKER_NAME_MAX) →
      ∀ (w : Swarm) (now graceMs : Rat),
        a.name ≠ b.name ∧ FindsOwn service key created ∧ w.PrunesSafely now graceMs := by
  intro h
  have hfits : ∀ c ∈ [keyC], c.Fits ∧
      (fullName ['a'] ['b', '_', 'C'] c.version).length ≤ DOCKER_NAME_MAX := fun c hc => by
    rw [mem_singleton.mp hc]
    decide
  have hname := (h keyC keyBC (by decide) (by decide) (by decide) ['a'] ['b', '_', 'C'] [keyC]
    hfits noSecrets 0 600000).1
  exact hname (by decide)

end Swarmy.AppSecrets
