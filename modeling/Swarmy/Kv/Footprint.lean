import Swarmy.Kv.Versions

/-!
# swarm-kv: what the cache counts and what the store holds

`footprint` adds up the versions the cache knows of, `KvWorld.stored` the configs
of the organisation in the swarm.  `Lists` relates the two for one key, and where
it holds of every key the two sums agree.
-/

namespace Swarmy.Kv

open AList Nat

variable {ι V : Type}

/-! ## Definitions -/

/-- Is a config with these labels one of the organisation's? -/
def KvLabels.mine (g : KvOrg) (l : KvLabels) : Bool := l.kv = "1" && l.org = g.orgId

/-- The stored payload sizes of the organisation's configs together. -/
def KvWorld.stored (g : KvOrg) (w : KvWorld ι V) : Nat :=
  ((w.configs.entries.filter (·.2.labels.mine g)).map (·.2.dataB64.length)).sum

/-- The store holds a version of the key, of this size. -/
def Holding (g : KvOrg) (w : KvWorld ι V) (k : Key) (s b : Nat) : Prop :=
  Named k s ∧ ∃ c, w.configs.lookup (kvConfigName k s) = some c ∧ c.labels.mine g = true ∧
    c.dataB64.length = b

/-- Every config of the organisation is a version that the instance can see, labelled
with its size. -/
def Tidy (g : KvOrg) (o : KvOptions) (w : KvWorld ι V) : Prop :=
  ∀ name c, w.configs.lookup name = some c → c.labels.mine g = true →
    ∃ k s, name = kvConfigName k s ∧ Named k s ∧ check o.collections k = .ok () ∧
      c.labels.bytes = c.dataB64.length

/-- These are the versions of the key in the store, oldest first. -/
structure Lists (g : KvOrg) (w : KvWorld ι V) (k : Key) (vs : List VersionMeta) : Prop where
  sorted : vs.Pairwise (·.seq < ·.seq)
  mem : ∀ s b, (∃ m ∈ vs, m.seq = s ∧ m.bytes = b) ↔ Holding g w k s b

/-- The versions of a key in some entries. -/
def versionsIn (es : AList fun _ : Key => Entry V) (k : Key) : List VersionMeta :=
  ((es.lookup k).map (·.versions)).getD []

/-- The versions of a key in a listing. -/
def listedIn (listed : List (Key × List VersionMeta)) (k : Key) : List VersionMeta :=
  (listed.lookup k).getD []

/-- The versions above `s` that garbage collection removes from a key: all but the
newest, which it keeps. -/
def laterDrops (g : KvOrg) (o : KvOptions) (w : KvWorld ι V) (k : Key) (s : Nat) :
    List VersionMeta :=
  let later := (listedIn (groupVersions g o w.listing) k).filter (s < ·.seq)
  later.take (later.length - o.keep)

section

variable {g : KvOrg} {o : KvOptions} {w w' : KvWorld ι V} {k : Key}

/-! ## One key -/

theorem versionsIn_insert (es : AList fun _ : Key => Entry V) (k : Key) (e : Entry V) :
    versionsIn (es.insert k e) k = e.versions := by
  rw [versionsIn, lookup_insert, Option.map_some, Option.getD_some]

theorem versionsIn_insert_ne {es : AList fun _ : Key => Entry V} {k k' : Key} (h : k' ≠ k)
    (e : Entry V) : versionsIn (es.insert k e) k' = versionsIn es k' := by
  rw [versionsIn, lookup_insert_ne h, versionsIn]

theorem versionsIn_erase (es : AList fun _ : Key => Entry V) (k : Key) :
    versionsIn (es.erase k) k = [] := by
  rw [versionsIn, lookup_erase, Option.map_none, Option.getD_none]

theorem versionsIn_erase_ne {es : AList fun _ : Key => Entry V} {k k' : Key} (h : k' ≠ k) :
    versionsIn (es.erase k) k' = versionsIn es k' := by
  rw [versionsIn, lookup_erase_ne h, versionsIn]

theorem versionsIn_of_lookup {es : AList fun _ : Key => Entry V} {e : Entry V}
    (h : es.lookup k = some e) : versionsIn es k = e.versions := by
  rw [versionsIn, h, Option.map_some, Option.getD_some]

theorem versionsIn_of_none {es : AList fun _ : Key => Entry V} (h : es.lookup k = none) :
    versionsIn es k = [] := by
  rw [versionsIn, h, Option.map_none, Option.getD_none]

theorem Holding.congr (h : w'.configs = w.configs) {s b : Nat} :
    Holding g w' k s b ↔ Holding g w k s b := by rw [Holding, Holding, h]

theorem Lists.congr {vs : List VersionMeta} (h : Lists g w k vs)
    (hw : ∀ s b, Holding g w' k s b ↔ Holding g w k s b) : Lists g w' k vs :=
  ⟨h.sorted, fun s b => (h.mem s b).trans (hw s b).symm⟩

theorem Lists.holding {vs : List VersionMeta} (h : Lists g w k vs) {m : VersionMeta}
    (hm : m ∈ vs) : Holding g w k m.seq m.bytes := (h.mem _ _).mp ⟨m, hm, rfl, rfl⟩

theorem Lists.named {vs : List VersionMeta} (h : Lists g w k vs) {m : VersionMeta}
    (hm : m ∈ vs) : Named k m.seq := (h.holding hm).1

/-- The numbers and sizes of the versions are determined by the store. -/
theorem Lists.unique {vs vs' : List VersionMeta} (h : Lists g w k vs) (h' : Lists g w k vs') :
    vs.map (fun m => (m.seq, m.bytes)) = vs'.map fun m => (m.seq, m.bytes) := by
  have hnodup : ∀ {us : List VersionMeta}, us.Pairwise (·.seq < ·.seq) →
      (us.map fun m => (m.seq, m.bytes)).Pairwise (·.1 < ·.1) :=
    fun hu => List.pairwise_map.mpr hu
  have hn : ∀ {ps : List (Nat × Nat)}, ps.Pairwise (·.1 < ·.1) → ps.Nodup :=
    fun hp => hp.imp fun hlt he => by rw [he] at hlt; exact lt_irrefl _ hlt
  refine List.Perm.eq_of_pairwise (fun p q _ _ hpq hqp => absurd hqp (lt_asymm hpq))
    (hnodup h.sorted) (hnodup h'.sorted) ?_
  refine (List.perm_ext_iff_of_nodup (hn (hnodup h.sorted)) (hn (hnodup h'.sorted))).mpr ?_
  rintro ⟨s, b⟩
  simp only [List.mem_map, Prod.mk.injEq]
  exact (h.mem s b).trans (h'.mem s b).symm

/-- Sorting the versions in the store puts the oldest first. -/
theorem Lists.insertionSort {us vs : List VersionMeta} (h : Lists g w k vs) (hp : us.Perm vs) :
    Lists g w k (us.insertionSort (·.seq ≤ ·.seq)) := by
  have hperm := (List.perm_insertionSort (fun v v' : VersionMeta => v.seq ≤ v'.seq) us).trans hp
  have hne : (us.insertionSort (·.seq ≤ ·.seq)).Pairwise fun v v' => v.seq ≠ v'.seq :=
    (hperm.pairwise_iff fun hne he => hne he.symm).mpr (h.sorted.imp Nat.ne_of_lt)
  refine ⟨((sorted_insertionSort us).and hne).imp fun h => lt_of_le_of_ne h.1 h.2, ?_⟩
  intro s b
  rw [← h.mem s b]
  exact exists_congr fun m => and_congr_left fun _ => hperm.mem_iff

/-! ## Listings -/

theorem mine_of_listedVersion {c : KvConfigInfo} {m : VersionMeta}
    (h : listedVersion g o c = some (k, m)) : c.labels.mine g = true := by
  obtain ⟨hkv, horg, _⟩ := listedVersion_eq_some h
  simp [KvLabels.mine, hkv, horg]

/-- A config that is listed as a version of a key is that version. -/
theorem Tidy.holding (ht : Tidy g o w) {c : KvConfigInfo} {m : VersionMeta} (hc : c ∈ w.listing)
    (h : listedVersion g o c = some (k, m)) :
    c.name = kvConfigName k m.seq ∧ Holding g w k m.seq m.bytes := by
  obtain ⟨e, he, rfl⟩ := List.mem_map.mp hc
  have he : w.configs.lookup e.1 = some e.2 := mem_lookup_iff.mpr he
  have hmine := mine_of_listedVersion h
  obtain ⟨k', s, hname, hn, _, hbytes⟩ := ht _ _ he hmine
  obtain ⟨_, _, hparse, hb⟩ := listedVersion_eq_some h
  have hks := hn.parse.symm.trans (hname ▸ hparse)
  obtain ⟨rfl, rfl⟩ := Prod.mk.inj (Option.some.inj hks)
  exact ⟨hname, hn, e.2, hname ▸ he, hmine, by rw [hb, ← hbytes]⟩

/-- A version in the store is listed. -/
theorem Tidy.listed (ht : Tidy g o w) {s b : Nat} (h : Holding g w k s b) :
    ∃ c ∈ w.listing, ∃ m, listedVersion g o c = some (k, m) ∧ m.seq = s ∧ m.bytes = b := by
  obtain ⟨hn, c, hc, hmine, rfl⟩ := h
  obtain ⟨k', s', hname, hn', hk, hbytes⟩ := ht _ _ hc hmine
  obtain ⟨rfl, rfl⟩ := kvConfigName_inj hn.collection hn.id hn.pos hn.le hn'.collection hn'.id
    hn'.pos hn'.le hname
  refine ⟨⟨_, c.createdAt, c.labels⟩, List.mem_map.mpr ⟨⟨_, c⟩, mem_lookup_iff.mp hc, rfl⟩,
    ⟨s, c.labels.bytes, c.labels.sha, c.createdAt⟩, ?_, rfl, hbytes⟩
  simp only [KvLabels.mine, Bool.and_eq_true, decide_eq_true_eq] at hmine
  simp only [listedVersion, hmine.1, hmine.2, hn.parse, check_allowed hk, ne_eq, not_true_eq_false,
    or_self, if_false, Bool.false_eq_true]

theorem nodup_listing : (w.listing.map (·.name)).Nodup := by
  have h := w.configs.nodupKeys
  rwa [KvWorld.listing, List.map_map]

/-- No number is listed twice for a key. -/
theorem nodup_group (ht : Tidy g o w) {vs : List VersionMeta}
    (h : (groupVersions g o w.listing).lookup k = some vs) :
    vs.Pairwise fun v v' => v.seq ≠ v'.seq := by
  obtain ⟨k', _, he⟩ := List.mem_map.mp (mem_of_lookup h)
  obtain ⟨rfl, rfl⟩ := Prod.mk.inj he
  have hmine : (w.listing.filterMap (listedVersion g o)).Pairwise
      fun p q => p.1 = q.1 → p.2.seq ≠ q.2.seq := by
    refine List.pairwise_filterMap.mpr ((List.pairwise_map.mp nodup_listing).imp_of_mem ?_)
    rintro c c' hc hc' hne ⟨k, m⟩ hm ⟨k', m'⟩ hm' rfl he
    exact hne (by rw [(ht.holding hc hm).1, (ht.holding hc' hm').1, he])
  refine ((List.perm_insertionSort _ _).pairwise_iff fun hne he => hne he.symm).mpr ?_
  refine List.pairwise_map.mpr ((hmine.filter _).imp_of_mem fun hp hq h => h ?_)
  simp only [List.mem_filter, decide_eq_true_eq] at hp hq
  rw [hp.2, hq.2]

/-- A listing shows the versions in the store. -/
theorem Tidy.lists (ht : Tidy g o w) (k : Key) :
    Lists g w k (listedIn (groupVersions g o w.listing) k) := by
  have hnone : ∀ {s b}, Holding g w k s b →
      ∃ vs, (groupVersions g o w.listing).lookup k = some vs ∧ ∃ m ∈ vs, m.seq = s ∧
        m.bytes = b := by
    intro s b h
    obtain ⟨c, hc, m, hm, hs, hb⟩ := ht.listed h
    obtain ⟨vs, hvs, hmem⟩ := lookup_groupVersions hc hm
    exact ⟨vs, hvs, m, hmem, hs, hb⟩
  cases hl : (groupVersions g o w.listing).lookup k with
  | none =>
    refine ⟨by simp [listedIn, hl], fun s b => ⟨by simp [listedIn, hl], fun h => ?_⟩⟩
    obtain ⟨vs, hvs, _⟩ := hnone h
    rw [hl] at hvs
    cases hvs
  | some vs =>
    rw [listedIn, hl, Option.getD_some]
    have hmem := mem_groupVersions (mem_of_lookup hl)
    refine ⟨?_, fun s b => ⟨?_, fun h => ?_⟩⟩
    · exact (hmem.1.and (nodup_group ht hl)).imp fun h => lt_of_le_of_ne h.1 h.2
    · rintro ⟨m, hm, rfl, rfl⟩
      obtain ⟨c, hc, hlv⟩ := hmem.2 m hm
      exact (ht.holding hc hlv).2
    · obtain ⟨vs', hvs, h⟩ := hnone h
      rw [hl, Option.some.injEq] at hvs
      exact hvs ▸ h

/-- What garbage collection still has to remove, from the middle of its loop. -/
theorem Lists.laterDrops (ht : Tidy g o w) {us drop newest : List VersionMeta} {v : VersionMeta}
    (h : Lists g w k (us ++ v :: (drop ++ newest))) (hlen : newest.length = o.keep) :
    sumBytes (laterDrops g o w k v.seq) = sumBytes drop := by
  have hbytes : ∀ vs : List VersionMeta,
      sumBytes vs = ((vs.map fun m => (m.seq, m.bytes)).map (·.2)).sum := fun vs => by
    rw [sumBytes, List.map_map]
    rfl
  have hfilter : ∀ vs : List VersionMeta, (vs.filter (v.seq < ·.seq)).map (fun m =>
    (m.seq, m.bytes)) =
      (vs.map fun m => (m.seq, m.bytes)).filter (v.seq < ·.1) := fun vs => by
    rw [List.filter_map]
    rfl
  have hlater : (us ++ v :: (drop ++ newest)).filter (v.seq < ·.seq) = drop ++ newest := by
    obtain ⟨_, hcons, hus⟩ := List.pairwise_append.mp h.sorted
    have hvs := (List.pairwise_cons.mp hcons).1
    rw [List.filter_append, List.filter_eq_nil_iff.mpr, List.nil_append, List.filter_cons_of_neg,
      List.filter_eq_self.mpr]
    · exact fun m hm => decide_eq_true (hvs m hm)
    · simp
    · intro m hm
      simp only [decide_eq_true_eq, not_lt]
      exact le_of_lt (hus m hm v List.mem_cons_self)
  have hpairs := congrArg (List.filter (v.seq < ·.1)) ((ht.lists k).unique h)
  rw [← hfilter, ← hfilter, hlater] at hpairs
  have hlength := congrArg List.length hpairs
  rw [List.length_map, List.length_map, List.length_append] at hlength
  rw [Swarmy.Kv.laterDrops, hbytes, hbytes, List.map_take, hpairs, hlength, hlen,
    Nat.add_sub_cancel, ← List.map_take, List.take_left]

/-! ## The sums -/

theorem mem_stored {name : String} {b : Nat} :
    (name, b) ∈ (w.configs.entries.filter (·.2.labels.mine g)).map
      (fun c => (c.1, c.2.dataB64.length)) ↔
    ∃ c, w.configs.lookup name = some c ∧ c.labels.mine g = true ∧ c.dataB64.length = b := by
  simp only [List.mem_map, List.mem_filter, Prod.mk.injEq]
  constructor
  · rintro ⟨c, ⟨hc, hm⟩, rfl, rfl⟩
    exact ⟨c.2, mem_lookup_iff.mpr hc, hm, rfl⟩
  · rintro ⟨c, hc, hm, rfl⟩
    exact ⟨⟨name, c⟩, ⟨mem_lookup_iff.mp hc, hm⟩, rfl, rfl⟩

theorem nodup_stored : ((w.configs.entries.filter (·.2.labels.mine g)).map
    (fun c => (c.1, c.2.dataB64.length))).Nodup := by
  refine List.Nodup.of_map Prod.fst ?_
  rw [List.map_map]
  have hkeys : (w.configs.entries.map Sigma.fst).Nodup := w.configs.nodupKeys
  exact hkeys.sublist (List.filter_sublist.map _)

/-- Where the cache knows the versions of every key, `footprint` is what the store holds. -/
theorem footprint_eq_stored {s : SwarmKv V} (ht : Tidy g o w)
    (h : ∀ k, Lists g w k (versionsIn s.entries k)) : s.footprint = w.stored g := by
  have hlists : ∀ e ∈ s.entries.entries, Lists g w e.1 e.2.versions := fun e he => by
    have := h e.1
    rwa [versionsIn_of_lookup (mem_lookup_iff.mpr he)] at this
  let cached := s.entries.entries.flatMap fun e =>
    e.2.versions.map fun m => (kvConfigName e.1 m.seq, m.bytes)
  have hcached : s.footprint = (cached.map Prod.snd).sum := by
    rw [SwarmKv.footprint, List.map_flatMap, List.flatMap_def, List.sum_flatten, List.map_map]
    simp only [List.map_map, sumBytes]
    rfl
  have hstored : w.stored g = (((w.configs.entries.filter (·.2.labels.mine g)).map
      (fun c => (c.1, c.2.dataB64.length))).map Prod.snd).sum := by
    rw [KvWorld.stored, List.map_map]
    rfl
  rw [hcached, hstored]
  refine List.Perm.sum_eq (.map _ ((List.perm_ext_iff_of_nodup ?_ nodup_stored).mpr ?_))
  · refine List.nodup_flatMap.mpr ⟨fun e he => ?_, ?_⟩
    · refine List.pairwise_map.mpr ((hlists e he).sorted.imp fun hlt heq => ?_)
      exact Nat.ne_of_lt hlt (kvConfigName_seq_inj (Prod.mk.inj heq).1)
    · refine (List.nodupKeys_iff_pairwise.mp s.entries.nodupKeys).imp_of_mem ?_
      rintro e e' he he' hne ⟨name, b⟩ hm hm'
      obtain ⟨m, hm, heq⟩ := List.mem_map.mp hm
      obtain ⟨m', hm', heq'⟩ := List.mem_map.mp hm'
      have hn := (hlists e he).named hm
      have hn' := (hlists e' he').named hm'
      exact hne (kvConfigName_inj hn.collection hn.id hn.pos hn.le hn'.collection hn'.id hn'.pos
        hn'.le (((Prod.mk.inj heq).1).trans (Prod.mk.inj heq').1.symm)).1
  · rintro ⟨name, b⟩
    rw [mem_stored]
    constructor
    · intro hmem
      obtain ⟨e, he, hm⟩ := List.mem_flatMap.mp hmem
      obtain ⟨m, hm, heq⟩ := List.mem_map.mp hm
      obtain ⟨hname, hb⟩ := Prod.mk.inj heq
      exact hname ▸ hb ▸ ((hlists e he).holding hm).2
    · rintro ⟨c, hc, hmine, rfl⟩
      obtain ⟨k, s', rfl, hn, _, _⟩ := ht _ _ hc hmine
      obtain ⟨m, hm, rfl, hb⟩ := ((h k).mem s' _).mpr ⟨hn, c, hc, hmine, rfl⟩
      cases he : s.entries.lookup k with
      | none => rw [versionsIn_of_none he] at hm; cases hm
      | some e =>
        rw [versionsIn_of_lookup he] at hm
        exact List.mem_flatMap.mpr ⟨⟨k, e⟩, mem_lookup_iff.mp he,
          List.mem_map.mpr ⟨m, hm, by rw [hb]⟩⟩

/-! ## Creating and removing -/

/-- The store with one more config. -/
def KvWorld.Created (w w' : KvWorld ι V) (name : String) (c : KvConfig) : Prop :=
  w.configs.lookup name = none ∧ w'.configs = w.configs.insert name c

/-- The store with one config less. -/
def KvWorld.Removed (w w' : KvWorld ι V) (name : String) : Prop :=
  w'.configs = w.configs.erase name

/-- A version is another config than every version of another key. -/
theorem Named.name_ne {k k' : Key} {s s' : Nat} (h : Named k s) (h' : Named k' s') (hne : k' ≠ k) :
    kvConfigName k' s' ≠ kvConfigName k s := fun he =>
  hne (kvConfigName_inj h'.collection h'.id h'.pos h'.le h.collection h.id h.pos h.le he).1

theorem KvWorld.Created.tidy {s : Nat} {c : KvConfig} (h : w.Created w' (kvConfigName k s) c)
    (ht : Tidy g o w) (hn : Named k s) (hk : check o.collections k = .ok ())
    (hb : c.labels.bytes = c.dataB64.length) : Tidy g o w' := by
  intro name d hd hmine
  rw [h.2] at hd
  by_cases he : name = kvConfigName k s
  · subst he
    rw [lookup_insert, Option.some.injEq] at hd
    exact ⟨k, s, rfl, hn, hk, hd ▸ hb⟩
  · rw [lookup_insert_ne he] at hd
    exact ht name d hd hmine

theorem KvWorld.Created.holding_ne {s : Nat} {c : KvConfig}
    (h : w.Created w' (kvConfigName k s) c) (hn : Named k s) {k' : Key} (hne : k' ≠ k)
    (s' b : Nat) : Holding g w' k' s' b ↔ Holding g w k' s' b := by
  refine and_congr_right fun hn' => ?_
  rw [h.2, lookup_insert_ne (hn.name_ne hn' hne)]

/-- The new version comes last. -/
theorem KvWorld.Created.lists {s : Nat} {c : KvConfig} {vs : List VersionMeta} {m : VersionMeta}
    (h : w.Created w' (kvConfigName k s) c) (hn : Named k s) (hmine : c.labels.mine g = true)
    (hvs : Lists g w k vs) (hlt : ∀ v ∈ vs, v.seq < s) (hs : m.seq = s)
    (hb : m.bytes = c.dataB64.length) : Lists g w' k (vs ++ [m]) := by
  refine ⟨List.pairwise_append.mpr ⟨hvs.sorted, by simp, fun v hv v' hv' => ?_⟩, fun s' b => ?_⟩
  · rw [List.mem_singleton.mp hv', hs]
    exact hlt v hv
  · simp only [List.mem_append, List.mem_singleton, or_and_right, exists_or, exists_eq_left]
    rw [hvs.mem s' b]
    by_cases he : s' = s
    · subst he
      have hnot : ¬ Holding g w k s' b := fun hh => by
        obtain ⟨_, d, hd, _⟩ := hh
        rw [h.1] at hd
        cases hd
      simp only [hnot, false_or]
      simp only [Holding, h.2, lookup_insert, Option.some.injEq, exists_eq_left', hn, hmine,
        hs, hb, true_and]
    · have hname : kvConfigName k s' ≠ kvConfigName k s := fun heq => he (kvConfigName_seq_inj heq)
      simp only [Holding, h.2, lookup_insert_ne hname, hs, Ne.symm he, false_and, or_false]

theorem KvWorld.Created.stored {name : String} {c : KvConfig} (h : w.Created w' name c)
    (hmine : c.labels.mine g = true) : w'.stored g = w.stored g + c.dataB64.length := by
  rw [KvWorld.stored, h.2, entries_insert_of_notMem (lookup_eq_none.mp h.1)]
  simp only [List.filter_cons, hmine, if_true, List.map_cons, List.sum_cons]
  rw [add_comm, KvWorld.stored]

theorem KvWorld.Removed.tidy {name : String} (h : w.Removed w' name) (ht : Tidy g o w) :
    Tidy g o w' := by
  intro name' d hd hmine
  rw [h] at hd
  by_cases he : name' = name
  · rw [he, lookup_erase] at hd
    cases hd
  · rw [lookup_erase_ne he] at hd
    exact ht name' d hd hmine

theorem KvWorld.Removed.holding_ne {s : Nat} (h : w.Removed w' (kvConfigName k s)) (hn : Named k s)
    {k' : Key} (hne : k' ≠ k) (s' b : Nat) : Holding g w' k' s' b ↔ Holding g w k' s' b := by
  refine and_congr_right fun hn' => ?_
  rw [h, lookup_erase_ne (hn.name_ne hn' hne)]

/-- The version is gone. -/
theorem KvWorld.Removed.lists {us vs : List VersionMeta} {v : VersionMeta}
    (h : w.Removed w' (kvConfigName k v.seq)) (hvs : Lists g w k (us ++ v :: vs)) :
    Lists g w' k (us ++ vs) := by
  refine ⟨hvs.sorted.sublist (List.Sublist.append_left (List.sublist_cons_self _ _) _),
    fun s b => ?_⟩
  have hsplit : (∃ m ∈ us ++ v :: vs, m.seq = s ∧ m.bytes = b) ↔
      (v.seq = s ∧ v.bytes = b) ∨ ∃ m ∈ us ++ vs, m.seq = s ∧ m.bytes = b := by
    grind
  have hne : ∀ m ∈ us ++ vs, m.seq ≠ v.seq := by
    have hs := hvs.sorted
    rw [List.pairwise_append, List.pairwise_cons] at hs
    intro m hm
    rcases List.mem_append.mp hm with hm | hm
    · exact Nat.ne_of_lt (hs.2.2 m hm v List.mem_cons_self)
    · exact Nat.ne_of_gt (hs.2.1.1 m hm)
  have hold := hsplit.symm.trans (hvs.mem s b)
  by_cases he : s = v.seq
  · subst he
    have hnot : ¬ ∃ m ∈ us ++ vs, m.seq = v.seq ∧ m.bytes = b := fun ⟨m, hm, hs, _⟩ => hne m hm hs
    rw [Holding, h, lookup_erase]
    simp only [hnot, false_iff]
    rintro ⟨_, _, hc, _⟩
    cases hc
  · have hname : kvConfigName k s ≠ kvConfigName k v.seq := fun heq => he (kvConfigName_seq_inj heq)
    rw [Holding, h, lookup_erase_ne hname, ← Holding, ← hold]
    simp [Ne.symm he]

theorem KvWorld.Removed.stored {s b : Nat} (h : w.Removed w' (kvConfigName k s))
    (hh : Holding g w k s b) : w'.stored g + b = w.stored g := by
  obtain ⟨_, c, hc, hmine, rfl⟩ := hh
  have hperm : w.configs.entries.Perm (⟨kvConfigName k s, c⟩ :: w'.configs.entries) := by
    refine (List.perm_ext_iff_of_nodup w.configs.nodupKeys.nodup ?_).mpr ?_
    · refine List.nodup_cons.mpr ⟨fun hmem => ?_, w'.configs.nodupKeys.nodup⟩
      have := mem_lookup_iff.mpr hmem
      rw [h, lookup_erase] at this
      cases this
    · rintro ⟨name, d⟩
      rw [List.mem_cons, ← mem_lookup_iff, ← mem_lookup_iff, h]
      by_cases he : name = kvConfigName k s
      · subst he
        rw [lookup_erase, hc]
        simp [eq_comm]
      · simp [he]
  have hsum := ((hperm.filter (·.2.labels.mine g)).map (·.2.dataB64.length)).sum_eq
  simp only [List.filter_cons, hmine, if_true, List.map_cons, List.sum_cons] at hsum
  rw [KvWorld.stored, KvWorld.stored, hsum, add_comm]

end

end Swarmy.Kv
