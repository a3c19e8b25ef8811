import Swarmy.Kv.Versions

/-!
# swarm-kv: no lost update

The only compare-and-swap the store has is that a config name can be taken once.
Names are freed again, by garbage collection and by `delete`, so what protects a
write is that no version from the one it was built on upwards has been removed
from the swarm when its config is created (`keepsBase`).

The invariant says that every version in the swarm has been created by the store,
that no name has been created with two contents, that the versions created of a
key have no gap, and that every cache entry holds the value of a version that has
been created under the number the entry gives.
-/

namespace Swarmy.Kv

open Coop List Option AList Nat

variable {ι V : Type}

/-! ## The words of the statements -/

/-- A version of the key is in the swarm. -/
def Present (w : KvWorld ι V) (k : Key) (seq : Nat) : Prop :=
  ∃ name c, w.configs.lookup name = some c ∧ parseKvConfigName name = some (k, seq)

/-- A version of the key has been created. -/
def Made (w : KvWorld ι V) (k : Key) (seq : Nat) : Prop :=
  ∃ x ∈ w.created, parseKvConfigName x.1 = some (k, seq)

variable [KvValue V]

/-- The value of the version of the key that is the latest in the swarm. -/
def LatestIs (g : KvOrg) (w : KvWorld ι V) (k : Key) : Option V → Prop
  | none => ∀ s, ¬ Present w k s
  | some v => ∃ s name c, w.configs.lookup name = some c ∧
      parseKvConfigName name = some (k, s) ∧ (∀ s', Present w k s' → s' ≤ s) ∧
      openVersion g k s c.dataB64 = .ok v

/-- The updates an operation makes, each with its function. -/
def KvJob.Updates : KvJob ι V → Key → (Option V → Except KvException (Option V)) → Prop
  | .put _ k v, k', fn => k' = k ∧ fn = fun _ => .ok (some v)
  | .update _ k f, k', fn => k' = k ∧ fn = f
  | .revert _ k _, k', fn => k' = k ∧ ∃ v, fn = fun _ => .ok (some v)
  | .importAll _ docs, k', fn => ∃ v, (k', v) ∈ docs ∧ fn = fun _ => .ok (some v)
  | .get _ _, _, _ | .getVersion _ _ _, _, _ | .delete _ _, _, _ | .refresh _, _, _
  | .background _, _, _ => False

/-- A move of the operation `j` creates nothing, or creates a version above every
version of its key that is there or has been, whose value is the function of an
update applied to the latest value in the swarm. -/
def CreatesOnLatest (g : KvOrg) (j : KvJob ι V) (w w' : KvWorld ι V) : Prop :=
  w'.created = w.created ∨
  ∃ k fn seq v cur, j.Updates k fn ∧
    w'.created = (kvConfigName k seq, Base64.toB64 (g.sealer.sealPlain (stableJson v))) ::
      w.created ∧
    (∀ s, Present w k s ∨ Made w k s → s < seq) ∧
    LatestIs g w k cur ∧ fn cur = .ok (some v)

/-- Does the operation look at the value it updates? -/
def KvJob.looks : KvJob ι V → Bool
  | .update _ _ _ => true
  | _ => false

variable [DecidableEq ι]

/-- When the operation `j` creates a version, no version above the one the write
was built on has been removed from the swarm; nor has that one, if the operation
looked at its value. -/
def keepsBase (g : KvOrg) (o : ι → KvOptions) : Allow (kvSystem (V := V) g o) where
  start _ _ := True
  resume j χ c w := match c with
    | .create _ name _ labels => (∀ e, χ ≠ .reject e) → w.configs.lookup name = none →
        ∀ s, labels.seq ≤ s ∨ (KvJob.looks j ∧ labels.seq ≤ s + 1) →
          Made w ⟨labels.collection, labels.id⟩ s → Present w ⟨labels.collection, labels.id⟩ s
    | _ => True
  env _ _ := True

/-- Along the moves that `A` allows, no update is lost. -/
def NoLostUpdate (g : KvOrg) (o : ι → KvOptions) (A : Allow (kvSystem (V := V) g o)) : Prop :=
  ∀ (w₀ : KvWorld ι V) (c c' : (kvSystem (V := V) g o).Config) n χ j p, w₀.Initial →
    System.Reach A.move ⟨w₀, []⟩ c → c.pool[n]? = some (j, p) → A.move c (.resume n χ) →
    System.step c (.resume n χ) = some c' → CreatesOnLatest g j c.world c'.world

/-! ## The invariant -/

section

omit [DecidableEq ι]

/-- A version with this value has been created. -/
def VersionOf (g : KvOrg) (w : KvWorld ι V) (k : Key) (seq : Nat) (v : V) : Prop :=
  Named k seq ∧ ∃ d, (kvConfigName k seq, d) ∈ w.created ∧ openVersion g k seq d = .ok v

/-- An entry of the cache is sorted, and holds the value of its latest version. -/
structure EntryOk (g : KvOrg) (w : KvWorld ι V) (k : Key) (e : Entry V) : Prop where
  sorted : Sorted e.versions
  latest : ∀ m, e.latest = some m → VersionOf g w k m.seq e.value

/-- All of these entries are. -/
def EntriesOk (g : KvOrg) (w : KvWorld ι V) (es : AList fun _ : Key => Entry V) : Prop :=
  ∀ k e, es.lookup k = some e → EntryOk g w k e

/-- What holds whenever every task is suspended. -/
structure Inv (g : KvOrg) (w : KvWorld ι V) : Prop where
  store : ∀ name c, w.configs.lookup name = some c → (parseKvConfigName name).isSome →
    (name, c.dataB64) ∈ w.created
  made : ∀ x ∈ w.created, ∃ k s, ∃ v : V, Named k s ∧
    x = (kvConfigName k s, Base64.toB64 (g.sealer.sealPlain (stableJson v)))
  functional : ∀ name d d', (name, d) ∈ w.created → (name, d') ∈ w.created → d = d'
  contiguous : ∀ k s, Named k s → Made w k (s + 1) → Made w k s
  entries : ∀ i, EntriesOk g w (w.kv i).entries

/-- More has been created. -/
def Grows (w w' : KvWorld ι V) : Prop := w.created ⊆ w'.created

omit [KvValue V] in
theorem Grows.refl (w : KvWorld ι V) : Grows w w := fun _ h => h

omit [KvValue V] in
theorem Grows.trans (w w' w'' : KvWorld ι V) (h : Grows w w') (h' : Grows w' w'') :
    Grows w w'' := fun _ hx => h' (h hx)

variable {g : KvOrg} {w : KvWorld ι V} {k : Key} {s : Nat}

theorem VersionOf.grows {w' : KvWorld ι V} {v : V}
    (h : VersionOf g w k s v) (hw : Grows w w') : VersionOf g w' k s v :=
  ⟨h.1, h.2.imp fun _ hd => ⟨hw hd.1, hd.2⟩⟩

theorem EntryOk.grows {w' : KvWorld ι V} {e : Entry V}
    (h : EntryOk g w k e) (hw : Grows w w') : EntryOk g w' k e :=
  ⟨h.sorted, fun m hm => (h.latest m hm).grows hw⟩

theorem EntriesOk.grows {w' : KvWorld ι V} {es : AList fun _ : Key => Entry V}
    (h : EntriesOk g w es) (hw : Grows w w') : EntriesOk g w' es :=
  fun k e he => (h k e he).grows hw

theorem EntriesOk.insert {es : AList fun _ : Key => Entry V} {e : Entry V} (h : EntriesOk g w es)
    (he : EntryOk g w k e) :
    EntriesOk g w (es.insert k e) := by
  intro k' e' h'
  by_cases hk : k' = k
  · subst hk
    rw [lookup_insert] at h'
    exact some.inj h' ▸ he
  · rw [lookup_insert_ne hk] at h'
    exact h k' e' h'

theorem EntriesOk.erase {es : AList fun _ : Key => Entry V}
    (h : EntriesOk g w es) (k : Key) : EntriesOk g w (es.erase k) := by
  intro k' e' h'
  by_cases hk : k' = k
  · subst hk
    rw [lookup_erase] at h'
    cases h'
  · rw [lookup_erase_ne hk] at h'
    exact h k' e' h'

theorem KvWorld.Initial.inv (g : KvOrg) (h : w.Initial) : Inv g w where
  store name c hc hp := by rw [h.foreign name c hc] at hp; cases hp
  made x hx := by rw [h.created] at hx; cases hx
  functional name d d' hd _ := by rw [h.created] at hd; cases hd
  contiguous k s _ hs := by
    obtain ⟨x, hx, _⟩ := hs
    rw [h.created] at hx
    cases hx
  entries i k e he := by rw [h.kv i] at he; cases he

/-- A created version has a number the store may use, and the name for it. -/
theorem Inv.named (h : Inv g w) {x : String × String} (hx : x ∈ w.created)
    (hp : parseKvConfigName x.1 = some (k, s)) :
    Named k s ∧ ∃ v : V,
      x = (kvConfigName k s, Base64.toB64 (g.sealer.sealPlain (stableJson v))) := by
  obtain ⟨k', s', v, hn, rfl⟩ := h.made x hx
  obtain ⟨rfl, rfl⟩ := Prod.mk.inj (some.inj (hn.parse.symm.trans hp))
  exact ⟨hn, v, rfl⟩

/-- A version that is there has been created. -/
theorem Inv.made_of_present (h : Inv g w) : Present w k s → Made w k s := fun ⟨name, c, hc, hp⟩ =>
  ⟨(name, c.dataB64), h.store name c hc (by simp [hp]), hp⟩

/-- The versions created of a key have no gap. -/
theorem Inv.made_of_le (h : Inv g w) {t : Nat}
    (hn : Named k s) (hst : s ≤ t) (ht : Made w k t) : Made w k s := by
  have hmax : t ≤ kvMaxSeq := by
    obtain ⟨x, hx, hp⟩ := ht
    exact (h.named hx hp).1.le
  induction t, hst using le_induction with
  | base => exact ht
  | succ t hst ih =>
    exact ih (h.contiguous k t ⟨hn.collection, hn.id, hn.pos.trans hst, by omega⟩ ht) (by omega)

/-- Some value is the latest one. -/
theorem Inv.latestIs (h : Inv g w) (k : Key) : ∃ cur, LatestIs g w k cur := by
  classical
  by_cases hp : ∃ s, Present w k s
  · obtain ⟨s, hs⟩ := hp
    have hle : ∀ t, Present w k t → t ≤ kvMaxSeq := fun t ht => by
      obtain ⟨x, hx, hp⟩ := h.made_of_present ht
      exact (h.named hx hp).1.le
    obtain ⟨name, c, hc, hn⟩ := Nat.findGreatest_spec (P := Present w k) (hle s hs) hs
    obtain ⟨_, v, hv⟩ := h.named (h.store name c hc (by simp [hn])) hn
    obtain ⟨-, hv⟩ := Prod.mk.inj hv
    exact ⟨some (KvValue.canon v), _, name, c, hc, hn,
      fun t ht => le_findGreatest (hle t ht) ht, by rw [hv, openVersion_seal]⟩
  · exact ⟨none, fun s hs => hp ⟨s, hs⟩⟩

end

/-- What a move of the operation `j` does. -/
structure Step (g : KvOrg) (j : KvJob ι V) (w w' : KvWorld ι V) : Prop where
  inv : Inv g w'
  grows : Grows w w'
  creates : CreatesOnLatest g j w w'

section

variable {g : KvOrg} {o : ι → KvOptions} {j : KvJob ι V} {i : ι} {n : Nat}
  {w w₀ : KvWorld ι V} {k : Key}

omit [DecidableEq ι] in
theorem Step.refl (h : Inv g w) : Step g j w w := ⟨h, .refl w, .inl rfl⟩

/-- Updating an instance is a move, when its entries stay right. -/
theorem Step.set {f : SwarmKv V → SwarmKv V} (h : Step g j w₀ w)
    (hf : EntriesOk g w (f (w.kv i)).entries) : Step g j w₀ (w.set i f) where
  inv := {
    store := h.inv.store
    made := h.inv.made
    functional := h.inv.functional
    contiguous := h.inv.contiguous
    entries := fun i' => by
      by_cases hi : i' = i
      · subst hi
        rw [KvWorld.set_kv_self]
        exact hf.grows (.refl w)
      · rw [KvWorld.set_kv_ne _ hi]
        exact (h.inv.entries i').grows (.refl w) }
  __ := h

/-- The judgement for parts of the operation `j`. -/
abbrev Along (g : KvOrg) (o : ι → KvOptions) (j : KvJob ι V) {α : Type}
    (P : α → KvWorld ι V → Prop) (p : KvProg ι V α) (w : KvWorld ι V) : Prop :=
  Keeps kvExec ((keepsBase g o).resume j) (Inv g) Grows (Step g j) P p w

/-- The invariant may be used. -/
theorem along_inv {α : Type} {P : α → KvWorld ι V → Prop} {p : KvProg ι V α}
    (h : Inv g w → Along g o j P p w) : Along g o j P p w :=
  .of_guar fun _ hg => h hg.inv

theorem along_setSelf {f : SwarmKv V → SwarmKv V} {P : Unit → KvWorld ι V → Prop}
    (hf : EntriesOk g w (f (w.kv i)).entries) (hP : P () (w.set i f)) :
    Along g o j P (setSelf i f) w :=
  .modify (fun _ h => h.set hf) (.refl w) hP

/-- A call that only reads the swarm. -/
theorem along_driverList :
    Along g o j (fun L _ => ∀ c ∈ L, ∀ k s, parseKvConfigName c.name = some (k, s) → Named k s)
      (driverList i) w := by
  refine .call Grows.trans fun w₁ hI _ χ r w₂ _ he => ?_
  have hread : w₂ = w₁ ∧ ∀ L, r = .ok L → ∀ c ∈ L, ∀ k s,
      parseKvConfigName c.name = some (k, s) → Named k s := by
    cases χ with
    | ok =>
      obtain ⟨rfl, rfl⟩ := Prod.mk.inj (some.inj he)
      refine ⟨rfl, fun L hL c hc k s hp => ?_⟩
      cases hL
      obtain ⟨e, he, rfl⟩ := mem_map.mp hc
      exact (hI.named (hI.store e.1 e.2 (mem_lookup_iff.mpr he) (by simp [hp])) hp).1
    | reject e | lost e =>
      obtain ⟨rfl, rfl⟩ := Prod.mk.inj (some.inj he)
      exact ⟨rfl, fun L hL => by cases hL⟩
  obtain ⟨rfl, hr⟩ := hread
  exact ⟨.refl hI, .refl _, .ofExcept Grows.refl hr⟩

theorem along_driverRead (name : String) :
    Along g o j (fun d w' => (parseKvConfigName name).isSome → (name, d) ∈ w'.created)
      (driverRead i name) w := by
  refine .call Grows.trans fun w₁ hI _ χ r w₂ _ he => ?_
  have hread : w₂ = w₁ ∧ ∀ d, r = .ok d → (parseKvConfigName name).isSome →
      (name, d) ∈ w₁.created := by
    cases χ with
    | ok =>
      obtain ⟨rfl, rfl⟩ := Prod.mk.inj (some.inj he)
      refine ⟨rfl, fun d hd hn => ?_⟩
      split at hd
      · rename_i c hc
        cases hd
        exact hI.store name c hc hn
      · cases hd
    | reject e | lost e =>
      obtain ⟨rfl, rfl⟩ := Prod.mk.inj (some.inj he)
      exact ⟨rfl, fun L hL => by cases hL⟩
  obtain ⟨rfl, hr⟩ := hread
  exact ⟨.refl hI, .refl _, .ofExcept Grows.refl hr⟩

omit [DecidableEq ι] in
/-- A call that changes no cache and at most removes configs. -/
theorem Step.of_remove {w' : KvWorld ι V} (h : Inv g w)
    (hc : ∀ name c, w'.configs.lookup name = some c → w.configs.lookup name = some c)
    (hm : w'.created = w.created) (he : ∀ i, (w'.kv i).entries = (w.kv i).entries) :
    Step g j w w' where
  inv := {
    store := fun name c h' hp => hm ▸ h.store name c (hc name c h') hp
    made := hm ▸ h.made
    functional := hm ▸ h.functional
    contiguous := by
      have := h.contiguous
      simpa only [Made, hm] using this
    entries := fun i => by
      rw [he i]
      exact (h.entries i).grows fun x hx => hm ▸ hx }
  grows := fun x hx => hm ▸ hx
  creates := .inl hm

theorem along_driverRemove (name : String) :
    Along g o j (fun _ _ => True) (driverRemove i name) w := by
  refine .call Grows.trans fun w₁ hI _ χ r w₂ _ he => ?_
  have hstep : Step g j w₁ w₂ := by
    have he := congrArg Prod.snd (some.inj he)
    by_cases hp : (w₁.configs.lookup name).isSome
    · cases χ with
      | ok | lost e =>
        simp only [answer, dockerRemove, if_pos hp] at he
        subst he
        refine .of_remove hI (fun n c h => ?_) rfl fun _ => rfl
        by_cases hn : n = name
        · subst hn
          rw [lookup_erase] at h
          cases h
        · rwa [lookup_erase_ne hn] at h
      | reject e =>
        obtain rfl : w₁ = w₂ := he
        exact .refl hI
    · cases χ with
      | ok | lost e | reject e =>
        simp only [answer, dockerRemove, if_neg hp] at he
        exact he ▸ .refl hI
  exact ⟨hstep, hstep.grows, .ret Grows.refl trivial⟩

theorem along_pause : Along g o j (fun _ _ => True) (pause i) w := by
  refine .call Grows.trans fun w₁ hI _ χ r w₂ _ he => ?_
  obtain ⟨rfl, rfl⟩ := Prod.mk.inj (some.inj he)
  exact ⟨.refl hI, .refl _, .ret Grows.refl trivial⟩

/-- Groups of listed versions. -/
def ListedOk (L : List (Key × List VersionMeta)) : Prop :=
  ∀ k vs, (k, vs) ∈ L → Sorted vs ∧ ∀ m ∈ vs, Named k m.seq

theorem along_listMine : Along g o j (fun L _ => ListedOk L) (listMine g (o i) i) w := by
  refine .bind Grows.trans along_driverList fun all w' _ hall => .ret Grows.refl ?_
  intro k vs hk
  obtain ⟨hs, hvs⟩ := mem_groupVersions hk
  refine ⟨hs, fun m hm => ?_⟩
  obtain ⟨c, hc, hl⟩ := hvs m hm
  exact hall c hc k m.seq (listedVersion_eq_some hl).2.2.1

theorem along_readVersion {seq : Nat} (hn : Named k seq) :
    Along g o j (fun v w' => VersionOf g w' k seq v) (readVersion g i k seq) w := by
  refine .bind Grows.trans (along_driverRead _) fun d w' _ hd => ?_
  exact .ofExcept Grows.refl fun v hv => ⟨hn, d, hd (by simp [hn.parse]), hv⟩

omit [DecidableEq ι] in
/-- A sorted list of versions whose last one holds this value. -/
theorem EntryOk.of_getLast? {versions : List VersionMeta} {latest : VersionMeta} {v : V}
    (hs : Sorted versions) (hl : versions.getLast? = some latest)
    (hv : VersionOf g w k latest.seq v) : EntryOk g w k ⟨versions, v⟩ := by
  refine ⟨hs, fun m hm => ?_⟩
  obtain rfl := some.inj (hl.symm.trans hm)
  exact hv

theorem along_pull {L : List (Key × List VersionMeta)} (hL : ListedOk L)
    {next : AList fun _ : Key => Entry V} (hnext : EntriesOk g w next) :
    Along g o j (fun next' w' => EntriesOk g w' next') (pull g i next L) w := by
  induction L generalizing next w with
  | nil => exact .ret Grows.refl hnext
  | cons kv L ih =>
    obtain ⟨k, versions⟩ := kv
    have hL' : ListedOk L := fun k vs h => hL k vs (by simp [h])
    obtain ⟨hs, hvs⟩ := hL k versions (by simp)
    refine along_inv fun hI => ?_
    refine .bind Grows.trans (.read Grows.refl (P := fun cur w' =>
      w' = w ∧ cur = (w.kv i).entries.lookup k) ⟨rfl, rfl⟩) ?_
    rintro _ _ - ⟨rfl, rfl⟩
    split
    · exact ih hL' hnext
    · rename_i latest hlatest
      have hn : Named k latest.seq := hvs latest (mem_of_getLast? hlatest)
      have hread : Along g o j (fun next' w' => EntriesOk g w' next')
          ((readVersion g i k latest.seq).bind fun v =>
            pull g i (next.insert k ⟨versions, v⟩) L) _ :=
        .bind Grows.trans (along_readVersion hn) fun v w' hw hv =>
          ih hL' ((hnext.grows hw).insert (.of_getLast? hs hlatest hv))
      split
      · rename_i e m hem
        split
        · rename_i hseq
          obtain ⟨e', he', hm⟩ := bind_eq_some_iff.mp hem
          obtain ⟨m', hm', h⟩ := map_eq_some_iff.mp hm
          obtain ⟨rfl, rfl⟩ := Prod.mk.inj h
          exact ih hL' (hnext.insert (.of_getLast? hs hlatest
            (hseq ▸ (hI.entries i k _ he').latest _ hm')))
        · exact hread
      · exact hread

omit [DecidableEq ι] in
theorem EntriesOk.keepTouched {s : SwarmKv V} {next : AList fun _ : Key => Entry V}
    (hs : EntriesOk g w s.entries) (hn : EntriesOk g w next) (startGen : Nat) :
    EntriesOk g w (s.keepTouched startGen next) := by
  intro k e he
  obtain ⟨_, h⟩ | ⟨_, h⟩ := lookup_keepTouched s startGen next k
  · exact hs k e (h ▸ he)
  · exact hn k e (h ▸ he)

theorem along_doRefresh (startGen : Nat) :
    Along g o j (fun _ _ => True) (doRefresh g (o i) i startGen) w := by
  refine .bind Grows.trans along_listMine fun listed w₁ _ hl => ?_
  refine .bind Grows.trans (along_pull hl fun k e he => by cases he) fun next w₂ _ hn => ?_
  refine along_inv fun hI => along_setSelf (f := fun s => { s with
    entries := s.keepTouched startGen next, touched := ∅, loadedAt := some w₂.now }) ?_ trivial
  exact (hI.entries i).keepTouched hn startGen

/-- Updating an instance whose entries stay as they are. -/
theorem along_setSelf_same {f : SwarmKv V → SwarmKv V} (hf : ∀ s, (f s).entries = s.entries) :
    Along g o j (fun _ _ => True) (setSelf i f) w :=
  along_inv fun hI => along_setSelf (by rw [hf]; exact hI.entries i) trivial

theorem along_load (startGen : Nat) :
    Along g o j (fun _ _ => True) (load g (o i) i startGen) w := by
  refine .handle Grows.trans ?_ ?_
  · exact .bind Grows.trans (along_doRefresh _) fun _ _ _ _ => along_setSelf_same fun _ => rfl
  · exact fun e w₃ _ => .bind Grows.trans (along_setSelf_same fun _ => rfl)
      fun _ _ _ _ => .raise Grows.refl

theorem along_refresh : Along g o j (fun _ _ => True) (refresh g (o i) i n) w := by
  refine .bind Grows.trans (.read Grows.refl (P := fun _ _ => True) trivial) fun b w₁ _ _ => ?_
  split
  · refine .call Grows.trans fun w₂ hI _ χ r w₃ _ he => ?_
    simp only [kvExec] at he
    split at he
    · cases he
    · obtain ⟨rfl, rfl⟩ := Prod.mk.inj (some.inj he)
      exact ⟨.refl hI, .refl _, .ofExcept Grows.refl fun _ _ => trivial⟩
  · refine .bind Grows.trans (.read Grows.refl (P := fun _ _ => True) trivial) fun gen w₂ _ _ => ?_
    exact .bind Grows.trans (along_setSelf_same fun _ => rfl) fun _ _ _ _ => along_load gen

theorem along_ensureFresh : Along g o j (fun _ _ => True) (ensureFresh g (o i) i n) w := by
  refine .bind Grows.trans (.read Grows.refl (P := fun _ _ => True) trivial) fun b w₁ _ _ => ?_
  split
  · exact along_refresh
  · refine along_inv fun hI => .modify (fun _ h => h.set ?_) (.refl _) trivial
    rw [SwarmKv.spawn]
    split <;> exact hI.entries i

theorem along_background : Along g o j (fun _ _ => True) (background g (o i) i n) w := by
  refine .bind Grows.trans (.read Grows.refl (P := fun _ _ => True) trivial) fun b w₁ _ _ => ?_
  split
  · exact .ret Grows.refl trivial
  · refine .bind Grows.trans (along_setSelf_same fun _ => rfl) fun _ _ _ _ => ?_
    exact .handle Grows.trans (along_load _) fun _ _ _ => .ret Grows.refl trivial

theorem along_refreshKey : Along g o j (fun _ _ => True) (refreshKey g (o i) i k) w := by
  refine .bind Grows.trans along_listMine fun listed w₁ _ hl => ?_
  refine .bind Grows.trans (along_setSelf_same fun _ => rfl) fun _ w₂ _ _ => ?_
  split
  · exact along_inv fun hI => along_setSelf ((hI.entries i).erase k) trivial
  · rename_i versions latest h
    obtain ⟨vs, hvs, hm⟩ := bind_eq_some_iff.mp h
    obtain ⟨m, hlast, hm⟩ := map_eq_some_iff.mp hm
    obtain ⟨rfl, rfl⟩ := Prod.mk.inj hm
    obtain ⟨hs, hn⟩ := hl k vs (mem_of_lookup hvs)
    refine .bind Grows.trans (along_readVersion (hn m (mem_of_getLast? hlast))) ?_
    exact fun v w₃ _ hv => along_inv fun hI =>
      along_setSelf ((hI.entries i).insert (.of_getLast? hs hlast hv)) trivial

theorem along_removeQuietly (name : String) :
    Along g o j (fun _ _ => True) (removeQuietly i name) w := by
  refine .bind Grows.trans (along_driverRemove name) fun r w₁ _ _ => ?_
  split
  · exact .ret Grows.refl trivial
  · exact .ret Grows.refl trivial

/-- All that was to be kept is, and nothing appears. -/
theorem along_dropVersions {kept drop : List VersionMeta} :
    Along g o j (fun kept' _ => kept ⊆ kept' ∧ kept' ⊆ kept ++ drop)
      (dropVersions i k kept drop) w := by
  induction drop generalizing kept w with
  | nil => exact .ret Grows.refl ⟨fun _ h => h, by simp⟩
  | cons v drop ih =>
    refine .bind Grows.trans (along_removeQuietly _) fun b w₁ _ _ => ?_
    refine ih.mono fun kept' _ _ h => ?_
    cases b with
    | true => exact ⟨h.1, fun x hx => by have := h.2 hx; simp at this ⊢; tauto⟩
    | false =>
      exact ⟨fun x hx => h.1 (by simp [hx]), fun x hx => by have := h.2 hx; simp at this ⊢; tauto⟩

theorem along_gc : Along g o j (fun _ _ => True) (gc (o i) i k) w := by
  refine along_inv fun hI => ?_
  refine .bind Grows.trans (.read Grows.refl (P := fun e w' =>
    w' = w ∧ e = (w.kv i).entries.lookup k) ⟨rfl, rfl⟩) ?_
  rintro _ _ - ⟨rfl, rfl⟩
  split
  · exact .ret Grows.refl trivial
  · rename_i e he
    split
    · exact .ret Grows.refl trivial
    · have hok := hI.entries i k e he
      refine .bind Grows.trans along_dropVersions fun kept w₁ hw hkept => ?_
      refine along_inv fun hI₁ => along_setSelf
        ((hI₁.entries i).insert ⟨sorted_insertionSort _, ?_⟩)
        trivial
      intro m' hm'
      -- At least one version stays where it is, and the last one is among them.
      have hne : e.versions.drop (e.versions.length - (o i).keep) ≠ [] := by
        have : 1 ≤ (o i).keep := le_max_left _ _
        simp only [ne_eq, drop_eq_nil_iff]
        omega
      obtain ⟨m, hm⟩ := isSome_iff_exists.mp (List.getLast?_isSome.mpr hne)
      have hlast : e.latest = some m := by
        rw [Entry.latest, ← hm, List.getLast?_drop]
        rw [if_neg]
        simpa using hne
      have hseq : m'.seq = m.seq := by
        refine seq_getLast?_insertionSort (hkept.1 (mem_of_getLast? hm)) ?_ hm'
        refine fun v hv => hok.sorted.le_getLast? hlast v ?_
        rcases mem_append.mp (hkept.2 hv) with h | h
        · exact mem_of_mem_drop h
        · exact mem_of_mem_take h
      rw [hseq]
      exact (hok.latest m hlast).grows hw

/-- An operation that takes its turn. -/
theorem along_serial {α : Type} {p : KvProg ι V α} (h : ∀ w, Along g o j (fun _ _ => True) p w) :
    Along g o j (fun _ _ => True) (serial i n p) w := by
  refine .call Grows.trans fun w₁ hI _ χ r w₂ _ he => ?_
  simp only [kvExec] at he
  split at he
  · cases he
  · obtain ⟨rfl, rfl⟩ := Prod.mk.inj (some.inj he)
    have hstep : Step g j w₁ (w₁.set i ({ · with writing := some n })) :=
      (Step.refl hI).set (hI.entries i)
    refine ⟨hstep, hstep.grows, .ensuring Grows.trans (h _) ?_ ?_ fun _ _ _ => trivial⟩
    · exact fun w₀ w' hw => hw.set (hw.inv.entries i)
    · exact fun w' => Grows.refl w'

theorem along_getDoc : Along g o j (fun _ _ => True) (getDoc g (o i) i n k) w := by
  refine .bind Grows.trans (.ofExcept Grows.refl (P := fun _ _ => True) fun _ _ => trivial) ?_
  refine fun _ w₁ _ _ => .bind Grows.trans along_ensureFresh fun _ w₂ _ _ => ?_
  exact .read Grows.refl trivial

/-! ## The create -/

omit [DecidableEq ι] in
theorem VersionOf.made {s : Nat} {v : V} (h : VersionOf g w k s v) : Made w k s := by
  obtain ⟨hn, d, hd, _⟩ := h
  exact ⟨_, hd, hn.parse⟩

omit [DecidableEq ι] [KvValue V] in
/-- An operation that does not look writes a value that is fixed. -/
theorem KvJob.Updates.const {fn : Option V → Except KvException (Option V)}
    (h : j.Updates k fn) (hl : j.looks = false) (x y : Option V) : fn x = fn y := by
  cases j with
  | put => rw [h.2]
  | update => cases hl
  | revert =>
    obtain ⟨v, rfl⟩ := h.2
    rfl
  | importAll =>
    obtain ⟨v, _, rfl⟩ := h
    rfl
  | _ => exact h.elim

/-- What the caller's function is given. -/
def given (cur : Option (Entry V)) : Option V := (cur.bind Entry.latest).bind fun _ =>
  cur.map (·.value)

section

variable {cur : Option (Entry V)} {fn : Option V → Except KvException (Option V)} {v : V}
  {footprint : Nat} {x : Write}

omit [DecidableEq ι] in
/-- Where the name is free and nothing above the base is gone, nothing above the
base has been created. -/
theorem Inv.made_lt {seq : Nat} (h : Inv g w) (hn : Named k seq)
    (hfree : w.configs.lookup (kvConfigName k seq) = none)
    (hbase : ∀ s, seq ≤ s → Made w k s → Present w k s) : ∀ s, Made w k s → s < seq := by
  intro s hs
  by_contra hlt
  obtain ⟨name, c, hc, hp⟩ := hbase seq le_rfl (h.made_of_le hn (Nat.le_of_not_lt hlt) hs)
  obtain ⟨_, _, he⟩ := h.named (h.store name c hc (by simp [hp])) hp
  rw [(Prod.mk.inj he).1, hfree] at hc
  cases hc

omit [DecidableEq ι] in
/-- The entry a write is built on holds the latest value, if that is still there. -/
theorem Inv.latestIs_given {seq : Nat} (h : Inv g w) (hcur : ∀ e, cur = some e → EntryOk g w k e)
    (hseq : seq = ((cur.bind Entry.latest).map (·.seq)).getD 0 + 1)
    (hlt : ∀ s, Made w k s → s < seq) (hbase : ∀ s, seq ≤ s + 1 → Made w k s → Present w k s) :
    LatestIs g w k (given cur) := by
  cases hl : cur.bind Entry.latest with
  | none =>
    simp only [given, hl, bind_none]
    intro s hs
    obtain ⟨x, hx, hp⟩ := h.made_of_present hs
    have hpos := (h.named hx hp).1.pos
    have := hlt s ⟨x, hx, hp⟩
    simp only [hl, map_none, getD_none] at hseq
    omega
  | some m =>
    obtain ⟨e, rfl, hm⟩ := bind_eq_some_iff.mp hl
    have hv := (hcur e rfl).latest m hm
    simp only [hl, map_some, getD_some] at hseq
    obtain ⟨name, c, hc, hp⟩ := hbase m.seq (by omega) hv.made
    have hgiven : given (some e) = some e.value := by
      rw [given, hl, bind_some, map_some]
    rw [hgiven]
    refine ⟨m.seq, name, c, hc, hp, fun s hs => ?_, ?_⟩
    · have := hlt s (h.made_of_present hs)
      omega
    · obtain ⟨_, d, hd, ho⟩ := hv
      have hx := h.store name c hc (by simp [hp])
      obtain ⟨_, _, he⟩ := h.named hx hp
      rw [(Prod.mk.inj he).1] at hx
      rw [h.functional _ _ _ hx hd]
      exact ho

omit [DecidableEq ι] in
/-- The create of a write that nothing has been removed above. -/
theorem Step.of_create {l : KvLabels} (h : Inv g w) (hj : j.Updates k fn)
    (hk : collectionRe k.collection = true ∧ idRe k.id = true)
    (hcur : ∀ e, cur = some e → EntryOk g w k e) (hfn : fn (given cur) = .ok (some v))
    (hx : planWrite g (o i) k cur footprint v = .ok (some x))
    (hfree : w.configs.lookup (kvConfigName k x.seq) = none)
    (hbase : ∀ s, x.seq ≤ s ∨ (j.looks = true ∧ x.seq ≤ s + 1) → Made w k s → Present w k s) :
    Step g j w { w with
      configs := w.configs.insert (kvConfigName k x.seq) ⟨x.dataB64, l, w.now⟩
      created := (kvConfigName k x.seq, x.dataB64) :: w.created } := by
  obtain ⟨_, hdata, hseq, hmax, _, _⟩ := planWrite_eq_some hx
  have hn : Named k x.seq := ⟨hk.1, hk.2, by omega, hmax⟩
  have hlt := h.made_lt hn hfree fun s hs => hbase s (.inl hs)
  have hgrows : Grows w { w with
      configs := w.configs.insert (kvConfigName k x.seq) ⟨x.dataB64, l, w.now⟩
      created := (kvConfigName k x.seq, x.dataB64) :: w.created } :=
    fun _ hy => mem_cons_of_mem _ hy
  refine ⟨⟨?_, ?_, ?_, ?_, fun i => (h.entries i).grows hgrows⟩, hgrows, .inr ?_⟩
  · intro name c hc hp
    by_cases hne : name = kvConfigName k x.seq
    · subst hne
      rw [lookup_insert] at hc
      obtain rfl := some.inj hc
      exact mem_cons_self
    · rw [lookup_insert_ne hne] at hc
      exact mem_cons_of_mem _ (h.store name c hc hp)
  · intro y hy
    rcases mem_cons.mp hy with rfl | hy
    · exact ⟨k, x.seq, v, hn, by rw [hdata]⟩
    · exact h.made y hy
  · intro name d d' hd hd'
    have hnew : ∀ d, (kvConfigName k x.seq, d) ∉ w.created := fun d hd =>
      lt_irrefl _ (hlt x.seq ⟨_, hd, hn.parse⟩)
    rcases mem_cons.mp hd with he | hd <;> rcases mem_cons.mp hd' with he' | hd'
    · rw [(Prod.mk.inj he).2, (Prod.mk.inj he').2]
    · exact absurd ((Prod.mk.inj he).1 ▸ hd') (hnew d')
    · exact absurd ((Prod.mk.inj he').1 ▸ hd) (hnew d)
    · exact h.functional name d d' hd hd'
  · rintro k' s hn' ⟨y, hy, hp⟩
    rcases mem_cons.mp hy with rfl | hy
    · obtain ⟨rfl, hs⟩ := Prod.mk.inj (some.inj (hn.parse.symm.trans hp))
      have hpos := hn'.pos
      cases hl : cur.bind Entry.latest with
      | none =>
        simp only [hl, map_none, getD_none] at hseq
        omega
      | some m =>
        simp only [hl, map_some, getD_some] at hseq
        obtain ⟨e, rfl, hm⟩ := bind_eq_some_iff.mp hl
        obtain rfl : m.seq = s := by omega
        obtain ⟨z, hz, hp⟩ := ((hcur e rfl).latest m hm).made
        exact ⟨z, mem_cons_of_mem _ hz, hp⟩
    · obtain ⟨z, hz, hp⟩ := h.contiguous k' s hn' ⟨y, hy, hp⟩
      exact ⟨z, mem_cons_of_mem _ hz, hp⟩
  · cases hl : j.looks with
    | true =>
      refine ⟨k, fn, x.seq, v, given cur, hj, by rw [hdata], ?_, ?_, hfn⟩
      · exact fun s hs => hlt s (hs.elim h.made_of_present id)
      · exact h.latestIs_given hcur hseq hlt fun s hs => hbase s (.inr ⟨hl, hs⟩)
    | false =>
      obtain ⟨cur', hcur'⟩ := h.latestIs k
      refine ⟨k, fn, x.seq, v, cur', hj, by rw [hdata], ?_, hcur', ?_⟩
      · exact fun s hs => hlt s (hs.elim h.made_of_present id)
      · rw [hj.const hl cur' (given cur), hfn]

end

theorem along_committed {x : Write} {v : V} (hjson : x.json = stableJson v) (hs : Sorted x.prior)
    (hle : ∀ m ∈ x.prior, m.seq ≤ x.seq) (hv : VersionOf g w k x.seq (KvValue.canon v)) :
    Along g o j (fun _ _ => True) (committed (o i) i k x) w := by
  refine .bind Grows.trans (.ofExcept Grows.refl (P := fun value w' =>
    w' = w ∧ value = KvValue.canon v) fun value h => ⟨rfl, ?_⟩) ?_
  · rw [hjson, KvValue.parse_stableJson] at h
    cases h
    rfl
  rintro _ _ - ⟨rfl, rfl⟩
  refine along_inv fun hI => .bind Grows.trans (along_setSelf (P := fun _ _ => True)
    (f := fun s => { s with entries := s.entries.insert k ⟨_, _⟩ })
    ((hI.entries i).insert ⟨hs.concat hle, fun m hm => ?_⟩) trivial) fun _ w₁ _ _ => ?_
  · rw [Entry.latest, List.getLast?_concat] at hm
    obtain rfl := some.inj hm
    exact hv
  refine .bind Grows.trans (along_setSelf_same fun _ => rfl) fun _ w₂ _ _ => ?_
  exact .bind Grows.trans along_gc fun _ w₃ _ _ => .read Grows.refl trivial

variable {fn : Option V → Except KvException (Option V)}

/-- The create that `update` sends. -/
theorem along_driverCreate {cur : Option (Entry V)} {footprint : Nat} {v : V} {x : Write}
    {labels : KvLabels} (hj : j.Updates k fn)
    (hk : collectionRe k.collection = true ∧ idRe k.id = true)
    (hcur : ∀ e, cur = some e → EntryOk g w k e) (hfn : fn (given cur) = .ok (some v))
    (hx : planWrite g (o i) k cur footprint v = .ok (some x))
    (hl : labels.seq = x.seq ∧ (⟨labels.collection, labels.id⟩ : Key) = k) :
    Along g o j (fun r w' => r = .ok () → VersionOf g w' k x.seq (KvValue.canon v))
      (driverCreate i (kvConfigName k x.seq) x.dataB64 labels) w := by
  obtain ⟨_, hdata, hseq, hmax, _, _⟩ := planWrite_eq_some hx
  have hn : Named k x.seq := ⟨hk.1, hk.2, by omega, hmax⟩
  refine .call Grows.trans fun w₁ hI hw χ r w₂ hok he => ?_
  have he : answer χ w₁ (dockerCreate w₁ (kvConfigName k x.seq) x.dataB64 labels) = (r, w₂) :=
    some.inj he
  have hnone : w₂ = w₁ → (∀ u, r ≠ .ok u) → Step g j w₁ w₂ ∧ Grows w₁ w₂ ∧
      Along g o j (fun r w' => r = .ok () → VersionOf g w' k x.seq (KvValue.canon v))
        (.ret r) w₂ := by
    rintro rfl hr
    exact ⟨.refl hI, .refl _, .ret Grows.refl fun h => absurd h (hr ())⟩
  have hdone : (∀ e, χ ≠ .reject e) → w₁.configs.lookup (kvConfigName k x.seq) = none →
      w₂ = { w₁ with
        configs := w₁.configs.insert (kvConfigName k x.seq) ⟨x.dataB64, labels, w₁.now⟩
        created := (kvConfigName k x.seq, x.dataB64) :: w₁.created } →
      Step g j w₁ w₂ ∧ Grows w₁ w₂ ∧
      Along g o j (fun r w' => r = .ok () → VersionOf g w' k x.seq (KvValue.canon v))
        (.ret r) w₂ := by
    rintro hχ hfree rfl
    have hbase := hok hχ hfree
    rw [hl.1, hl.2] at hbase
    have hstep := Step.of_create (l := labels) hI hj hk
      (fun e h => (hcur e h).grows hw) hfn hx hfree hbase
    refine ⟨hstep, hstep.grows, .ret Grows.refl fun _ => ⟨hn, x.dataB64, mem_cons_self, ?_⟩⟩
    rw [hdata, openVersion_seal]
  cases hlk : w₁.configs.lookup (kvConfigName k x.seq) with
  | some c =>
    simp only [dockerCreate, hlk, isSome_some, if_true] at he
    cases χ <;> obtain ⟨rfl, rfl⟩ := Prod.mk.inj he <;> exact hnone rfl (fun _ h => by cases h)
  | none =>
    simp only [dockerCreate, hlk, isSome_none, Bool.false_eq_true, if_false] at he
    cases χ with
    | reject e =>
      obtain ⟨rfl, rfl⟩ := Prod.mk.inj he
      exact hnone rfl fun _ h => by cases h
    | ok | lost e => exact hdone (fun _ h => by cases h) hlk (Prod.mk.inj he).2.symm

theorem along_attempt (hj : j.Updates k fn)
    (hk : collectionRe k.collection = true ∧ idRe k.id = true)
    {onConflict : KvProg ι V (Option (KvDoc V))}
    (hc : ∀ w, Along g o j (fun _ _ => True) onConflict w) :
    Along g o j (fun _ _ => True) (attempt g (o i) i k fn onConflict) w := by
  refine along_inv fun hI => .bind Grows.trans (.read Grows.refl (P := fun cur w' =>
    ∀ e, cur = some e → EntryOk g w' k e) fun e he => hI.entries i k e he) ?_
  refine fun cur w₁ _ hcur₁ => .bind Grows.trans along_pause fun _ w₂ hw₂ _ => ?_
  refine .bind Grows.trans (.ofExcept Grows.refl (P := fun next w' =>
    w₂ = w' ∧ fn (given cur) = .ok next) fun _ h => ⟨rfl, h⟩) ?_
  rintro next _ - ⟨rfl, hfn⟩
  cases next with
  | none => exact .read Grows.refl trivial
  | some v =>
    refine .bind Grows.trans (.read Grows.refl (P := fun _ w' => w₂ = w') rfl) ?_
    rintro footprint _ - rfl
    refine .bind Grows.trans (.ofExcept Grows.refl (P := fun x w' =>
      w₂ = w' ∧ planWrite g (o i) k cur footprint v = .ok x) fun _ h => ⟨rfl, h⟩) ?_
    rintro plan _ - ⟨rfl, hplan⟩
    cases plan with
    | none => exact .read Grows.refl trivial
    | some x =>
      have hcur₂ : ∀ e, cur = some e → EntryOk g w₂ k e := fun e he => (hcur₁ e he).grows hw₂
      obtain ⟨hjson, _, hseq, _, hprior, _⟩ := planWrite_eq_some hplan
      have hsorted : Sorted x.prior ∧ ∀ m ∈ x.prior, m.seq ≤ x.seq := by
        cases cur with
        | none =>
          rw [hprior]
          exact ⟨List.Pairwise.nil, fun m hm => by cases hm⟩
        | some e =>
          rw [hprior]
          refine ⟨(hcur₂ e rfl).sorted, fun m hm => ?_⟩
          obtain ⟨l, hl⟩ := isSome_iff_exists.mp
            (List.getLast?_isSome.mpr (ne_nil_of_mem hm))
          have hle := (hcur₂ e rfl).sorted.le_getLast? hl m hm
          have hlat : ((some e).bind Entry.latest) = some l := hl
          simp only [hlat, map_some, getD_some] at hseq
          omega
      refine .bind Grows.trans
        (along_driverCreate hj hk hcur₂ hfn hplan ⟨rfl, rfl⟩) fun r w₃ _ hr => ?_
      split
      · exact along_committed hjson hsorted.1 hsorted.2 (hr rfl)
      · split
        · exact hc w₃
        · exact .raise Grows.refl

theorem along_tryUpdate (hj : j.Updates k fn)
    (hk : collectionRe k.collection = true ∧ idRe k.id = true) (retries : Nat) :
    Along g o j (fun _ _ => True) (tryUpdate g (o i) i k fn retries) w := by
  induction retries generalizing w with
  | zero => exact along_attempt hj hk fun w => .raise Grows.refl
  | succ retries ih =>
    refine along_attempt hj hk fun w => .bind Grows.trans along_refreshKey fun _ w₁ _ _ => ?_
    exact .bind Grows.trans along_pause fun _ w₂ _ _ => ih

theorem along_update (hj : j.Updates k fn) :
    Along g o j (fun _ _ => True) (update g (o i) i n k fn) w := by
  refine .bind Grows.trans (.ofExcept Grows.refl (P := fun _ _ =>
    check (o i).collections k = .ok ()) fun _ h => h) fun _ w₁ _ hk => ?_
  exact along_serial fun w => .bind Grows.trans along_ensureFresh fun _ w₂ _ _ =>
    along_tryUpdate hj (check_ok hk) _

theorem along_delete : Along g o j (fun _ _ => True) (delete g (o i) i n k) w := by
  refine .bind Grows.trans (.ofExcept Grows.refl (P := fun _ _ => True) fun _ _ => trivial) ?_
  refine fun _ w₁ _ _ => along_serial fun w => ?_
  refine .bind Grows.trans along_ensureFresh fun _ w₂ _ _ => ?_
  refine .bind Grows.trans along_refreshKey fun _ w₃ _ _ => ?_
  refine .bind Grows.trans (.read Grows.refl (P := fun _ _ => True) trivial) fun e w₄ _ _ => ?_
  split
  · exact .ret Grows.refl trivial
  · refine .bind Grows.trans (.forEach Grows.refl Grows.trans fun v _ w' _ =>
      .bind Grows.trans (along_removeQuietly _) fun _ w'' _ _ => .ret Grows.refl trivial) ?_
    refine fun _ w₅ _ _ => along_inv fun hI => .bind Grows.trans
      (along_setSelf (P := fun _ _ => True) ((hI.entries i).erase k) trivial) fun _ w₆ _ _ => ?_
    refine .bind Grows.trans (along_setSelf_same fun _ => rfl) fun _ w₇ _ _ => ?_
    exact .ret Grows.refl trivial

theorem along_getVersion {seq : Nat} :
    Along g o j (fun _ _ => True) (getVersion g (o i) i k seq) w := by
  refine .bind Grows.trans (.ofExcept Grows.refl (P := fun _ _ => True) fun _ _ => trivial) ?_
  refine fun _ w₁ _ _ => .bind Grows.trans (along_driverRead _) fun d w₂ _ _ => ?_
  exact .ofExcept Grows.refl fun _ _ => trivial

theorem along_importAll {docs : List (Key × V)}
    (hj : ∀ k v, (k, v) ∈ docs → j.Updates k fun _ => .ok (some v)) (written : Nat) :
    Along g o j (fun _ _ => True) (importAll g (o i) i n docs written) w := by
  induction docs generalizing written w with
  | nil => exact .ret Grows.refl trivial
  | cons kv docs ih =>
    obtain ⟨k, v⟩ := kv
    have ih := fun w r => ih (w := w) (fun k v h => hj k v (mem_cons_of_mem _ h)) r
    rw [importAll]
    split
    · exact ih w written
    · exact .bind Grows.trans (along_update (hj k v mem_cons_self)) fun _ w₁ _ _ => ih w₁ _

theorem along_body : Along g o j (fun _ _ => True) (kvBody g o n j) w := by
  have hret : ∀ {α : Type} {p : KvProg ι V α} {f : α → KvResult V},
      Along g o j (fun _ _ => True) p w →
      Along g o j (fun _ _ => True) (p.bind fun a => .ret (f a)) w :=
    fun h => .bind Grows.trans h fun _ _ _ _ => .ret Grows.refl trivial
  cases j with
  | get i k => exact hret along_getDoc
  | getVersion i k seq => exact hret along_getVersion
  | put i k v => exact hret (along_update ⟨rfl, rfl⟩)
  | update i k fn => exact hret (along_update ⟨rfl, rfl⟩)
  | delete i k => exact hret along_delete
  | revert i k seq =>
    exact hret (.bind Grows.trans along_getVersion fun v _ _ _ => along_update ⟨rfl, v, rfl⟩)
  | importAll i docs => exact hret (along_importAll (j := .importAll i docs) (fun k v h =>
    ⟨v, h, rfl⟩) 0)
  | refresh i => exact hret along_refresh
  | background i => exact hret along_background

end

/-! ## Two instances -/

/-- Two instances with the default options. -/
def twoInstances : System (KvSig Bool) (KvWorld Bool Nat) KvException (KvResult Nat) :=
  kvSystem plainOrg fun _ => .default

/-- An empty swarm. -/
def emptySwarm : KvWorld Bool Nat := ⟨0, ∅, [], fun _ => .new⟩

theorem emptySwarm_initial : emptySwarm.Initial :=
  ⟨rfl, fun _ _ hc => (by cases hc), fun _ => rfl⟩

/-- Start the operation that gets the number `n`, and answer so many of its calls. -/
def drive (j : KvJob Bool Nat) (n calls : Nat) : List twoInstances.Move :=
  .start j :: List.replicate calls (.resume n .ok)

/-! ## The result -/

/-- The argument for every task. -/
def kvOutline (g : KvOrg) (o : ι → KvOptions) :
    Outline (kvSystem (V := V) g o) (keepsBase g o) where
  inv := Inv g
  rely _ _ := Grows
  guar _ j := Step g j
  post _ _ _ _ := True
  fresh _ _ := True
  rely_refl _ _ := .refl
  rely_trans _ _ := Grows.trans
  guar_inv _ _ _ _ _ h := h.inv
  guar_rely _ _ _ _ _ _ _ _ h := h.grows
  guar_fresh _ _ _ _ _ _ _ _ := trivial
  env_fresh _ _ _ _ _ _ := trivial
  env_inv dt w w' h _ he := by
    obtain rfl := some.inj he
    exact ⟨h.store, h.made, h.functional, h.contiguous, fun i => (h.entries i).grows (.refl w)⟩
  env_rely dt _ _ w w' _ _ he := by
    obtain rfl := some.inj he
    exact .refl w
  body n j w h _ _ _ := (along_body.safe (.refl h)).mono fun _ _ _ hx => ⟨hx.1, trivial⟩

/-- No update is lost in a run in which nothing from the base of a write upwards
is removed before its config is created. -/
theorem noLostUpdate_of_keepsBase (g : KvOrg) (o : ι → KvOptions) :
    NoLostUpdate (V := V) g o (keepsBase g o) := by
  intro w₀ c c' n χ j p hw hr hp hok hs
  have hholds := Outline.holds_of_reach (L := kvOutline g o) (hw.inv g) (fun _ => trivial) hr
  obtain ⟨_, _, hstep, _⟩ := hholds.resume hp hok hs
  exact hstep.creates

/-- Where everything that has been created is there, a write has its base. -/
theorem keepsBase_of_present {g : KvOrg} {o : ι → KvOptions}
    (c : (kvSystem (V := V) g o).Config) (m : (kvSystem (V := V) g o).Move)
    (h : (c.world.created.all fun x => (c.world.configs.lookup x.1).isSome) = true) :
    (keepsBase g o).move c m := by
  cases m with
  | start j => trivial
  | env e => trivial
  | resume n χ =>
    intro j q k _
    cases q with
    | create i name d labels =>
      rintro - - s - ⟨x, hx, hparse⟩
      obtain ⟨cfg, hcfg⟩ := isSome_iff_exists.mp (all_eq_true.mp h x hx)
      exact ⟨x.1, cfg, hcfg, hparse⟩
    | _ => trivial

/-- One instance writes a document which the other, that has listed the swarm before,
creates too; the other is refused, reads the document, and is about to write again. -/
def secondWriter : List twoInstances.Move :=
  drive (.put false siteKey 1) 0 3 ++
    drive (.update true siteKey fun v => .ok (some (v.getD 0 + 10))) 1 3 ++
    .resume 0 .ok :: List.replicate 5 (.resume 1 .ok)

/-- The second writer adds to what the first one wrote. -/
theorem noLostUpdate_secondWriter : ∃ c c' : twoInstances.Config,
    System.Reach (keepsBase plainOrg fun _ => .default).move ⟨emptySwarm, []⟩ c ∧
    System.step c (.resume 1 .ok) = some c' ∧
    c'.world.created.map (·.1) = [kvConfigName siteKey 2, kvConfigName siteKey 1] ∧
    CreatesOnLatest plainOrg (.update true siteKey fun v => .ok (some (v.getD 0 + 10)))
      c.world c'.world := by
  have hrun : ((System.runIf (M := twoInstances)
      (fun c _ => c.world.created.all fun x => (c.world.configs.lookup x.1).isSome)
      ⟨emptySwarm, []⟩ secondWriter).bind fun c => (System.step c (.resume 1 .ok)).map fun c' =>
        (c.world.created.all fun x => (c.world.configs.lookup x.1).isSome,
          c'.world.created.map (·.1))) =
      some (true, [kvConfigName siteKey 2, kvConfigName siteKey 1]) := by decide
  obtain ⟨c, hc, hstep⟩ := bind_eq_some_iff.mp hrun
  obtain ⟨c', hs, heq⟩ := map_eq_some_iff.mp hstep
  simp only [Prod.mk.injEq] at heq
  have hjob : (c.pool.map (·.1))[1]? =
      some (.update true siteKey fun v => .ok (some (v.getD 0 + 10))) := by
    rw [System.jobs_runIf hc]
    rfl
  rw [List.getElem?_map] at hjob
  obtain ⟨⟨j, p⟩, hp, rfl⟩ := map_eq_some_iff.mp hjob
  have hreach := System.reach_of_runIf keepsBase_of_present .refl hc
  exact ⟨c, c', hreach, hs, heq.2, noLostUpdate_of_keepsBase plainOrg (fun _ => .default)
    emptySwarm c c' 1 .ok _ p emptySwarm_initial hreach hp (keepsBase_of_present c _ heq.1) hs⟩

/-! ## A stale writer -/

/-- One instance writes a document; the other writes it four times, which removes
the first two versions; then the first one, whose cache still says version 1,
is about to create version 2 again. -/
def staleWriter : List twoInstances.Move :=
  drive (.put false siteKey 1) 0 4 ++ drive (.put true siteKey 2) 1 5 ++
    drive (.put true siteKey 3) 2 3 ++ drive (.put true siteKey 4) 3 4 ++
    drive (.put true siteKey 5) 4 4 ++
    drive (.update false siteKey fun v => .ok (some (v.getD 0 + 10))) 5 2

/-- Version 2 is created, from version 1, while version 5 is the latest. -/
theorem noLostUpdate_staleWriter :
    ¬ NoLostUpdate plainOrg (fun _ : Bool => .default) (.all (M := twoInstances)) := by
  intro h
  have hrun : ((System.run (M := twoInstances) ⟨emptySwarm, []⟩ staleWriter).bind fun c =>
      (System.step c (.resume 5 .ok)).map fun c' =>
        ((c.world.configs.lookup (kvConfigName siteKey 5)).isSome,
          c'.world.created.length, c'.world.created.head?.map (·.1), c.world.created.length)) =
      some (true, 6, some (kvConfigName siteKey 2), 5) := by decide
  obtain ⟨c, hc, hstep⟩ := bind_eq_some_iff.mp hrun
  obtain ⟨c', hs, heq⟩ := map_eq_some_iff.mp hstep
  simp only [Prod.mk.injEq] at heq
  obtain ⟨hfive, hlen', hhead, hlen⟩ := heq
  have hjobs : c.pool.map (·.1) = staleWriter.flatMap System.Move.started := System.jobs_runIf hc
  have hjob : (c.pool.map (·.1))[5]? =
      some (.update false siteKey fun v => .ok (some (v.getD 0 + 10))) := by
    rw [hjobs]
    rfl
  rw [List.getElem?_map] at hjob
  obtain ⟨⟨j, p⟩, hp, rfl⟩ := map_eq_some_iff.mp hjob
  have hreach := System.reach_of_runIf (fun c m _ => Allow.all_move c m) .refl hc
  rcases h emptySwarm c c' 5 .ok _ p emptySwarm_initial hreach hp (Allow.all_move c _) hs
    with he | hcr
  · rw [he, hlen] at hlen'
    cases hlen'
  · obtain ⟨k, fn, seq, v, cur, hupd, hcons, hlt, -⟩ := hcr
    obtain ⟨rfl, -⟩ := hupd
    rw [hcons] at hhead
    have hseq : seq = 2 := kvConfigName_seq_inj (some.inj hhead)
    obtain ⟨cfg, hcfg⟩ := isSome_iff_exists.mp hfive
    have := hlt 5 (.inl ⟨_, cfg, hcfg, by decide⟩)
    omega

end Swarmy.Kv
