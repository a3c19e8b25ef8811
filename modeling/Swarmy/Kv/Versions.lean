import Swarmy.Kv.SwarmKv

/-!
# swarm-kv: what the pure steps of the store compute

Inversion lemmas for the functions of `Swarmy/Kv/SwarmKv.lean` that contain no
call: grouping a listing into versions, merging a listing with local writes, and
planning a write.
-/

namespace Swarmy.Kv

open List Option AList Nat

variable {V : Type}

/-! ## Names -/

/-- A key and a version number the store may use. -/
structure Named (k : Key) (seq : Nat) : Prop where
  collection : collectionRe k.collection = true
  id : idRe k.id = true
  pos : 1 ≤ seq
  le : seq ≤ kvMaxSeq

theorem Named.parse {k : Key} {s : Nat} (h : Named k s) :
    parseKvConfigName (kvConfigName k s) = some (k, s) :=
  parse_kvConfigName h.collection h.id h.pos h.le

/-! ## Sorted versions -/

/-- Versions, oldest first. -/
def Sorted (vs : List VersionMeta) : Prop := vs.Pairwise (·.seq ≤ ·.seq)

theorem sorted_insertionSort (vs : List VersionMeta) :
    Sorted (vs.insertionSort (·.seq ≤ ·.seq)) := by
  exact pairwise_insertionSort _ vs

/-- The last of some sorted versions has the highest number. -/
theorem Sorted.le_getLast? {vs : List VersionMeta} (h : Sorted vs) {m : VersionMeta}
    (hm : vs.getLast? = some m) : ∀ v ∈ vs, v.seq ≤ m.seq := by
  intro v hv
  obtain ⟨ys, rfl⟩ := List.getLast?_eq_some_iff.mp hm
  rcases mem_append.mp hv with hv | hv
  · exact (pairwise_append.mp h).2.2 v hv m (by simp)
  · rw [mem_singleton.mp hv]

theorem Sorted.concat {vs : List VersionMeta} (h : Sorted vs) {m : VersionMeta}
    (hm : ∀ v ∈ vs, v.seq ≤ m.seq) : Sorted (vs ++ [m]) :=
  pairwise_append.mpr ⟨h, by simp, fun v hv m' hm' => by
    rw [mem_singleton.mp hm']; exact hm v hv⟩

/-- Sorting some versions among which the highest is `m` puts its number last. -/
theorem seq_getLast?_insertionSort {vs : List VersionMeta} {m m' : VersionMeta} (hm : m ∈ vs)
    (hle : ∀ v ∈ vs, v.seq ≤ m.seq)
    (hm' : (vs.insertionSort (·.seq ≤ ·.seq)).getLast? = some m') : m'.seq = m.seq := by
  refine le_antisymm (hle m' ?_) ?_
  · exact (mem_insertionSort _).mp (mem_of_getLast? hm')
  · exact (sorted_insertionSort vs).le_getLast? hm' m ((mem_insertionSort _).mpr hm)

/-! ## Listings -/

/-- A listed config that counts is labelled as one of the organisation's, and its
name says which version it is. -/
theorem listedVersion_eq_some {g : KvOrg} {o : KvOptions} {c : KvConfigInfo} {k : Key}
    {m : VersionMeta} (h : listedVersion g o c = some (k, m)) :
    c.labels.kv = "1" ∧ c.labels.org = g.orgId ∧ parseKvConfigName c.name = some (k, m.seq) ∧
      m.bytes = c.labels.bytes := by
  unfold listedVersion at h
  split at h
  · cases h
  · rename_i hl
    rw [not_or, not_not, not_not] at hl
    split at h
    · cases h
    · rename_i k' seq hp
      split at h
      · cases h
      · obtain ⟨rfl, rfl⟩ := Prod.mk.inj (some.inj h)
        exact ⟨hl.1, hl.2, hp, rfl⟩

/-- The groups of a listing are sorted and hold listed versions only. -/
theorem mem_groupVersions {g : KvOrg} {o : KvOptions} {all : List KvConfigInfo} {k : Key}
    {vs : List VersionMeta} (h : (k, vs) ∈ groupVersions g o all) :
    Sorted vs ∧ ∀ m ∈ vs, ∃ c ∈ all, listedVersion g o c = some (k, m) := by
  simp only [groupVersions, List.mem_map] at h
  obtain ⟨k', _, he⟩ := h
  obtain ⟨rfl, rfl⟩ := Prod.mk.inj he
  refine ⟨sorted_insertionSort _, fun m hm => ?_⟩
  rw [List.mem_insertionSort, List.mem_map] at hm
  obtain ⟨⟨k'', m'⟩, hm, rfl⟩ := hm
  obtain ⟨hm, hk⟩ := mem_filter.mp hm
  obtain ⟨c, hc, hlv⟩ := mem_filterMap.mp hm
  simp only [decide_eq_true_eq] at hk
  exact ⟨c, hc, by rw [hlv, hk]⟩

/-- Looking up a tabulated function. -/
theorem lookup_map {β : Type} (f : Key → β) {k : Key} {ks : List Key} (h : k ∈ ks) :
    (ks.map fun k => (k, f k)).lookup k = some (f k) := by
  induction ks with
  | nil => cases h
  | cons k' ks ih =>
    rw [map_cons, lookup_cons]
    by_cases he : k = k'
    · subst he
      simp
    · rw [beq_eq_false_iff_ne.mpr he]
      exact ih ((mem_cons.mp h).resolve_left he)

/-- Every listed version is in the group of its key. -/
theorem lookup_groupVersions {g : KvOrg} {o : KvOptions} {all : List KvConfigInfo} {k : Key}
    {c : KvConfigInfo} {m : VersionMeta} (hc : c ∈ all) (h : listedVersion g o c = some (k, m)) :
    ∃ vs, (groupVersions g o all).lookup k = some vs ∧ m ∈ vs := by
  have hmine : (k, m) ∈ all.filterMap (listedVersion g o) := mem_filterMap.mpr ⟨c, hc, h⟩
  refine ⟨_, lookup_map _ (mem_dedup.mpr (mem_map.mpr ⟨_, hmine, rfl⟩)), ?_⟩
  refine (mem_insertionSort _).mpr (mem_map.mpr ⟨(k, m), ?_, rfl⟩)
  exact mem_filter.mpr ⟨hmine, by simp⟩

theorem mem_of_lookup {k : Key} {L : List (Key × List VersionMeta)} {vs : List VersionMeta}
    (h : L.lookup k = some vs) : (k, vs) ∈ L := by
  obtain ⟨l₁, l₂, rfl, _⟩ := lookup_eq_some_iff.mp h
  simp

/-- The key has been written locally after this generation. -/
def SwarmKv.TouchedAfter (s : SwarmKv V) (startGen : Nat) (k : Key) : Prop :=
  ∃ t, s.touched.lookup k = some t ∧ startGen < t

/-- Merging one key after the other. -/
theorem lookup_foldl_keepTouched {es : AList fun _ : Key => Entry V} {startGen : Nat} {k : Key}
    {ts : List ((_ : Key) × Nat)} (hts : ts.NodupKeys) (next : AList fun _ : Key => Entry V) :
    let merged := (ts.foldl (fun next t =>
      if t.2 ≤ startGen then next
      else match es.lookup t.1 with
        | some cur => next.insert t.1 cur
        | none => next.erase t.1) next).lookup k
    (∃ t, List.dlookup k ts = some t ∧ startGen < t) ∧ merged = es.lookup k ∨
      (¬ ∃ t, List.dlookup k ts = some t ∧ startGen < t) ∧ merged = next.lookup k := by
  induction ts generalizing next with
  | nil => exact .inr ⟨by simp, rfl⟩
  | cons t ts ih =>
    obtain ⟨a, t⟩ := t
    obtain ⟨hnot, hrest⟩ := nodupKeys_cons.mp hts
    have ih := ih hrest
    rw [foldl_cons]
    by_cases hk : k = a
    · subst hk
      have hnone : List.dlookup k ts = none := dlookup_eq_none.mpr hnot
      rw [dlookup_cons_eq]
      obtain ⟨⟨t', ht', _⟩, _⟩ | ⟨_, hmerged⟩ := ih _
      · rw [hnone] at ht'
        cases ht'
      rw [hmerged]
      by_cases ht : t ≤ startGen
      · refine .inr ⟨fun ⟨t', ht', hlt⟩ => ?_, by rw [if_pos ht]⟩
        obtain rfl := some.inj ht'
        exact not_lt.mpr ht hlt
      · refine .inl ⟨⟨t, rfl, Nat.lt_of_not_le ht⟩, ?_⟩
        rw [if_neg ht]
        cases hes : es.lookup k with
        | some cur => exact lookup_insert _
        | none => exact lookup_erase _ _
    · have hsame : (if t ≤ startGen then next
          else match es.lookup a with
            | some cur => next.insert a cur
            | none => next.erase a).lookup k = next.lookup k := by
        split
        · rfl
        · split
          · exact lookup_insert_ne hk
          · exact lookup_erase_ne hk
      rw [dlookup_cons_ne _ _ hk, ← hsame]
      exact ih _

/-- The merged entries are the cached ones for the keys written since the load
began, and the listed ones for all others. -/
theorem lookup_keepTouched (s : SwarmKv V) (startGen : Nat) (next : AList fun _ : Key => Entry V)
    (k : Key) :
    s.TouchedAfter startGen k ∧ (s.keepTouched startGen next).lookup k = s.entries.lookup k ∨
      ¬ s.TouchedAfter startGen k ∧ (s.keepTouched startGen next).lookup k = next.lookup k :=
  lookup_foldl_keepTouched s.touched.nodupKeys next

/-! ## Writes -/

section

variable [KvValue V]

/-- What has been sealed can be opened. -/
theorem openVersion_seal (g : KvOrg) (k : Key) (s : Nat) (v : V) :
    openVersion g k s (Base64.toB64 (g.sealer.sealPlain (stableJson v))) =
      .ok (KvValue.canon v) := by
  simp [openVersion, g.sealer.open_seal, KvValue.parse_stableJson, bind, Except.bind]

/-- A write that is planned has the number after the latest cached one, carries the
sealed value, and fits in the budget once the versions to be pruned are gone. -/
theorem planWrite_eq_some {g : KvOrg} {o : KvOptions} {k : Key} {cur : Option (Entry V)}
    {footprint : Nat} {v : V} {x : Write} (h : planWrite g o k cur footprint v = .ok (some x)) :
    x.json = stableJson v ∧ x.dataB64 = Base64.toB64 (g.sealer.sealPlain (stableJson v)) ∧
      x.seq = ((cur.bind Entry.latest).map (·.seq)).getD 0 + 1 ∧ x.seq ≤ kvMaxSeq ∧
      x.prior = (cur.map (·.versions)).getD [] ∧
      footprint + x.bytes - sumBytes (x.prior.take (x.prior.length + 1 - o.keep)) ≤
        o.maxTotalBytes := by
  unfold planWrite at h
  cases hr : assertNoRunState v with
  | error e => rw [hr] at h; cases h
  | ok =>
    rw [hr] at h
    simp only [bind, Except.bind, pure, Except.pure, throw, throwThe, MonadExceptOf.throw] at h
    split at h
    · cases h
    split at h
    · cases h
    split at h
    · cases h
    split at h
    · cases h
    rename_i _ _ hseq hbudget
    cases h
    exact ⟨rfl, rfl, rfl, Nat.le_of_not_lt hseq, rfl, Nat.le_of_not_lt hbudget⟩

end

end Swarmy.Kv
