import Swarmy.Coop.Kill
import Swarmy.Kv.Versions

/-!
# swarm-kv: delete

`SwarmKv.delete` removes the versions of a document oldest first and forgets the
document.  It does not look at whether a version has gone: `removeQuietly`
answers that, and only garbage collection asks.  So a delete is final exactly
when every remove it sends takes effect.

The delete runs alone here, against a Docker that answers everything but
`config.remove`, whose answers a function of the name decides; and it may be cut
short at any call.
-/

namespace Swarmy.Kv

open Coop List Option AList

variable {ι V : Type}

/-! ## The words of the statements -/

/-- A version of the key is in the swarm, as one of the organisation's. -/
def Stored (g : KvOrg) (o : KvOptions) (w : KvWorld ι V) (k : Key) (seq : Nat) : Prop :=
  ∃ c ∈ w.listing, ∃ m, listedVersion g o c = some (k, m) ∧ m.seq = seq

/-- The version of the key that a refresh takes for the latest. -/
def seen (g : KvOrg) (o : KvOptions) (w : KvWorld ι V) (k : Key) : Option Nat :=
  ((groupVersions g o w.listing).lookup k).bind fun vs => vs.getLast?.map (·.seq)

/-- The answers to removes, by name; every other call is answered. -/
def removing (ρ : String → KvChoice) : KvCall ι → KvChoice
  | .remove _ name => ρ name
  | _ => .ok

/-- The remove of this name takes effect. -/
def Effective (ρ : String → KvChoice) (name : String) : Prop := ∀ e, ρ name ≠ .reject e

variable [DecidableEq ι]

/-- How calls are answered while the delete runs alone. -/
def removingExec (ρ : String → KvChoice) (c : KvCall ι) (w : KvWorld ι V) :
    Option ((KvSig ι).Ans c × KvWorld ι V) := kvExec (removing ρ c) c w

/-- What the store relies on of the swarm, and an instance with nothing under way. -/
structure StoreOk (g : KvOrg) (o : KvOptions) (i : ι) [KvValue V] (w : KvWorld ι V) : Prop where
  canonical : ∀ c ∈ w.listing, ∀ k m, listedVersion g o c = some (k, m) →
    c.name = kvConfigName k m.seq
  opens : ∀ name c k m, w.configs.lookup name = some c →
    listedVersion g o ⟨name, c.createdAt, c.labels⟩ = some (k, m) →
    ∃ v : V, openVersion g k m.seq c.dataB64 = .ok v
  writing : (w.kv i).writing = none
  loading : (w.kv i).loading = none

variable [KvValue V]

/-- A delete that resolves true leaves no version; and where it is cut short, or
throws, a refresh sees what was the latest version before it or no document. -/
structure DeleteFinal (g : KvOrg) (o : KvOptions) (i : ι) (n : Nat) (ρ : String → KvChoice)
    (k : Key) (w : KvWorld ι V) : Prop where
  completed : ∀ w', outcome (removingExec ρ) (delete g o i n k) w = some (.ok true, w') →
    ∀ s, ¬ Stored g o w' k s
  cutShort : ∀ w', CutAt (removingExec ρ) (delete g o i n k) w w' ∨
      (∃ e, outcome (removingExec ρ) (delete g o i n k) w = some (.error e, w')) →
    seen g o w' k = seen g o w k ∨ seen g o w' k = none

/-! ## Listings -/

section

omit [DecidableEq ι] [KvValue V]

variable {g : KvOrg} {o : KvOptions} {w w' : KvWorld ι V} {k : Key}

theorem mem_listing {c : KvConfigInfo} : c ∈ w.listing ↔
    ∃ d, w.configs.lookup c.name = some d ∧ c = ⟨c.name, d.createdAt, d.labels⟩ := by
  constructor
  · intro h
    obtain ⟨e, he, rfl⟩ := mem_map.mp h
    exact ⟨e.2, mem_lookup_iff.mpr he, rfl⟩
  · rintro ⟨d, hd, he⟩
    exact mem_map.mpr ⟨⟨c.name, d⟩, mem_lookup_iff.mp hd, he.symm⟩

/-- The group of a key has exactly the stored versions. -/
theorem stored_iff_of_lookup {vs : List VersionMeta}
    (h : (groupVersions g o w.listing).lookup k = some vs) (s : Nat) :
    Stored g o w k s ↔ ∃ m ∈ vs, m.seq = s := by
  constructor
  · rintro ⟨c, hc, m, hm, rfl⟩
    obtain ⟨vs', hvs, hmem⟩ := lookup_groupVersions hc hm
    obtain rfl := some.inj (h.symm.trans hvs)
    exact ⟨m, hmem, rfl⟩
  · rintro ⟨m, hm, rfl⟩
    obtain ⟨c, hc, hl⟩ := (mem_groupVersions (mem_of_lookup h)).2 m hm
    exact ⟨c, hc, m, hl, rfl⟩

theorem seen_eq_none (h : ∀ s, ¬ Stored g o w k s) : seen g o w k = none := by
  cases hl : (groupVersions g o w.listing).lookup k with
  | none => rw [seen, hl, bind_none]
  | some vs =>
    have hvs : vs = [] := eq_nil_iff_forall_not_mem.mpr fun m hm =>
      h m.seq ((stored_iff_of_lookup hl m.seq).mpr ⟨m, hm, rfl⟩)
    rw [seen, hl, hvs]
    rfl

theorem seen_eq_some {s : Nat} (h : Stored g o w k s) (hle : ∀ t, Stored g o w k t → t ≤ s) :
    seen g o w k = some s := by
  obtain ⟨c, hc, m, hm, rfl⟩ := h
  obtain ⟨vs, hvs, hmem⟩ := lookup_groupVersions hc hm
  obtain ⟨l, hl⟩ := isSome_iff_exists.mp
    (List.getLast?_isSome.mpr (ne_nil_of_mem hmem))
  have hs := (mem_groupVersions (mem_of_lookup hvs)).1.le_getLast? hl m hmem
  have hls := hle l.seq ((stored_iff_of_lookup hvs _).mpr ⟨l, mem_of_getLast? hl, rfl⟩)
  rw [seen, hvs, bind_some, hl, map_some, Nat.le_antisymm hls hs]

/-- Listings with the same configs are the same. -/
theorem listing_congr (h : w'.configs = w.configs) : w'.listing = w.listing := by
  rw [KvWorld.listing, h, KvWorld.listing]

/-! ## Part of the versions removed -/

/-- The world after the removes of the versions `us` of the key. -/
def After (ρ : String → KvChoice) (w : KvWorld ι V) (k : Key) (us : List VersionMeta)
    (w' : KvWorld ι V) : Prop :=
  ∀ name c, w'.configs.lookup name = some c ↔
    w.configs.lookup name = some c ∧
      ∀ v ∈ us, name = kvConfigName k v.seq → ¬ Effective ρ name

variable {ρ : String → KvChoice}

theorem After.stored {us : List VersionMeta} (h : After ρ w k us w')
    (hcan : ∀ c ∈ w.listing, ∀ k m, listedVersion g o c = some (k, m) →
      c.name = kvConfigName k m.seq) (s : Nat) : Stored g o w' k s ↔ Stored g o w k s ∧
      ∀ v ∈ us, v.seq = s → ¬ Effective ρ (kvConfigName k s) := by
  constructor
  · rintro ⟨c, hc, m, hm, rfl⟩
    obtain ⟨d, hd, he⟩ := mem_listing.mp hc
    obtain ⟨hd, hus⟩ := (h c.name d).mp hd
    have hc : c ∈ w.listing := mem_listing.mpr ⟨d, hd, he⟩
    refine ⟨⟨c, hc, m, hm, rfl⟩, fun v hv hs => ?_⟩
    rw [← hcan c hc k m hm]
    exact hus v hv (by rw [hcan c hc k m hm, hs])
  · rintro ⟨⟨c, hc, m, hm, rfl⟩, hus⟩
    obtain ⟨d, hd, he⟩ := mem_listing.mp hc
    refine ⟨c, mem_listing.mpr ⟨d, (h c.name d).mpr ⟨hd, fun v hv hn => ?_⟩, he⟩, m, hm, rfl⟩
    rw [hcan c hc k m hm] at hn ⊢
    exact hus v hv (kvConfigName_seq_inj hn).symm

/-- While versions are removed oldest first, the latest stays to the end; what a
refresh sees changes only to nothing, if all removes take effect. -/
theorem After.seen {us rest : List VersionMeta} (h : After ρ w k us w')
    (hcan : ∀ c ∈ w.listing, ∀ k m, listedVersion g o c = some (k, m) →
      c.name = kvConfigName k m.seq)
    (hvs : (groupVersions g o w.listing).lookup k = some (us ++ rest))
    (hall : ∀ s, Stored g o w k s → Effective ρ (kvConfigName k s)) :
    seen g o w' k = seen g o w k ∨ seen g o w' k = none := by
  have hstored := stored_iff_of_lookup hvs
  cases hl : (us ++ rest).getLast? with
  | none =>
    refine .inr (seen_eq_none fun s hs => ?_)
    obtain ⟨m, hm, _⟩ := (hstored s).mp ((h.stored hcan s).mp hs).1
    rw [List.getLast?_eq_none_iff.mp hl] at hm
    cases hm
  | some l =>
    have hle : ∀ t, Stored g o w k t → t ≤ l.seq := fun t ht => by
      obtain ⟨m, hm, rfl⟩ := (hstored t).mp ht
      exact (mem_groupVersions (mem_of_lookup hvs)).1.le_getLast? hl m hm
    have hlast : Stored g o w k l.seq := (hstored _).mpr ⟨l, mem_of_getLast? hl, rfl⟩
    by_cases hgone : ∃ v ∈ us, v.seq = l.seq
    · -- The latest has been removed, so everything before it has.
      obtain ⟨v, hv, hvl⟩ := hgone
      refine .inr (seen_eq_none fun s hs => ?_)
      obtain ⟨hs, hus⟩ := (h.stored hcan s).mp hs
      obtain ⟨m, hm, rfl⟩ := (hstored s).mp hs
      rcases mem_append.mp hm with hm | hm
      · exact hus m hm rfl (hall m.seq hs)
      · have hsorted := (mem_groupVersions (mem_of_lookup hvs)).1
        have hvm := (pairwise_append.mp hsorted).2.2 v hv m hm
        have := hle m.seq hs
        exact hus v hv (by omega) (hall m.seq hs)
    · left
      rw [seen_eq_some hlast hle]
      refine seen_eq_some ((h.stored hcan _).mpr ⟨hlast, fun v hv hs => absurd ⟨v, hv, hs⟩ hgone⟩)
        fun t ht => hle t ((h.stored hcan t).mp ht).1

end

/-! ## The run -/

section

variable {g : KvOrg} {o : KvOptions} {i : ι} {n : Nat} {ρ : String → KvChoice} {k : Key}
  {C : KvWorld ι V → Prop} {w₀ w : KvWorld ι V}

omit [DecidableEq ι] in
/-- The versions of a listing can be read. -/
theorem StoreOk.reads (h : StoreOk g o i w₀) {k : Key} {vs : List VersionMeta}
    (hk : (k, vs) ∈ groupVersions g o w₀.listing) {m : VersionMeta} (hm : m ∈ vs) :
    ∃ c v, w₀.configs.lookup (kvConfigName k m.seq) = some c ∧
      openVersion (V := V) g k m.seq c.dataB64 = .ok v := by
  obtain ⟨c, hc, hl⟩ := (mem_groupVersions hk).2 m hm
  obtain ⟨d, hd, he⟩ := mem_listing.mp hc
  obtain ⟨v, hv⟩ := h.opens c.name d k m hd (he ▸ hl)
  exact ⟨d, v, h.canonical c hc k m hl ▸ hd, hv⟩

omit [KvValue V] in
theorem ends_listMine (hC : C w) :
    Ends (removingExec ρ) C (fun x w' => x = .ok (groupVersions g o w.listing) ∧ w' = w)
      (listMine g o i) w :=
  ⟨hC, .ok w.listing, w, rfl, hC, rfl, rfl⟩

theorem ends_readVersion (hC : C w) {s : Nat} {c : KvConfig} {v : V}
    (hc : w.configs.lookup (kvConfigName k s) = some c) (hv : openVersion g k s c.dataB64 = .ok v) :
    Ends (removingExec ρ) C (fun x w' => x = .ok v ∧ w' = w) (readVersion g i k s) w := by
  refine ⟨hC, .ok c.dataB64, w, ?_, hC, ?_⟩
  · simp only [removingExec, removing, kvExec, hc]
  · change Ends (S := KvSig ι) (removingExec ρ) C _ (.ofExcept (openVersion g k s c.dataB64)) w
    rw [hv]
    exact ⟨rfl, rfl⟩

theorem ends_pull (hC : C w) {L : List (Key × List VersionMeta)}
    (hL : ∀ k vs, (k, vs) ∈ L → ∀ m ∈ vs, ∃ c v, w.configs.lookup (kvConfigName k m.seq) = some c ∧
      openVersion (V := V) g k m.seq c.dataB64 = .ok v)
    (next : AList fun _ : Key => Entry V) :
    Ends (removingExec ρ) C (fun x w' => (∃ next', x = .ok next') ∧
      w' = w) (pull g i next L) w := by
  induction L generalizing next with
  | nil => exact ⟨⟨next, rfl⟩, rfl⟩
  | cons kv L ih =>
    obtain ⟨k, versions⟩ := kv
    have ih := ih fun k vs h => hL k vs (mem_cons_of_mem _ h)
    refine Ends.bind (D := fun x w' => (∃ cur, x = .ok cur) ∧ w' = w) ⟨⟨_, rfl⟩, rfl⟩ ?_
      fun e w' h => by obtain ⟨⟨_, h⟩, _⟩ := h; cases h
    rintro cur w ⟨-, rfl⟩
    cases hlast : versions.getLast? with
    | none => exact ih next
    | some latest =>
      obtain ⟨c, v, hc, hv⟩ := hL k versions mem_cons_self latest
        (mem_of_getLast? hlast)
      have hread : Ends (removingExec ρ) C (fun x w' => (∃ next', x = .ok next') ∧ w' = w)
          ((readVersion g i k latest.seq).bind fun v =>
            pull g i (next.insert k ⟨versions, v⟩) L) w :=
        (ends_readVersion hC hc hv).bind (fun v' w' h => h.2 ▸ ih _) fun e w' h => by cases h.1
      dsimp only
      split
      · split
        · exact ih _
        · exact hread
      · exact hread

/-- The load, where every version can be read. -/
theorem ends_ensureFresh (hw : StoreOk g o i w₀) (h : w.configs = w₀.configs)
    (hl : (w.kv i).loading = none) (hC : ∀ w', w'.configs = w₀.configs → C w') :
    Ends (removingExec ρ) C (fun x w' => x = .ok () ∧ w'.configs = w₀.configs)
      (ensureFresh g o i n) w := by
  refine Ends.bind (D := fun x w' => x = .ok (w'.kv i).loadedAt ∧ w' = w) ⟨rfl, rfl⟩ ?_
    fun e w' h => by cases h.1
  rintro _ w ⟨he, rfl⟩
  obtain rfl := Except.ok.inj he
  cases (w.kv i).loadedAt with
  | some t => exact ⟨rfl, h⟩
  | none =>
    change Ends _ _ _ (ite ((w.kv i).loading.isSome = true) _ _) w
    rw [if_neg (by simp [hl])]
    refine (?_ : Ends _ _ _ (load g o i _) (w.set i _))
    refine Ends.handle (D := fun x w' => x = .ok () ∧ w'.configs = w₀.configs) ?_
      (fun _ _ h => h) fun e w' h => by cases h.1
    refine Ends.bind (D := fun x w' => x = .ok () ∧ w'.configs = w₀.configs) ?_
      (fun _ w' h => ⟨rfl, h.2⟩) fun e w' h => by cases h.1
    generalize hw₁ : w.set i _ = w₁
    have h₁ : w₁.configs = w₀.configs := by rw [← hw₁, KvWorld.set_configs, h]
    refine Ends.bind (ends_listMine (hC w₁ h₁)) (fun L w' hL => ?_) fun e w' h => by cases h.1
    obtain ⟨hL, rfl⟩ := hL
    obtain rfl := Except.ok.inj hL
    refine Ends.bind (ends_pull (hC w' h₁) (fun k vs hk m hm => ?_) ∅) (fun next w₂ hn => ?_)
      fun e w' h => by obtain ⟨⟨_, h⟩, _⟩ := h; cases h
    · rw [listing_congr h₁] at hk
      rw [h₁]
      exact hw.reads hk hm
    · obtain ⟨_, rfl⟩ := hn
      exact ⟨rfl, h₁⟩

theorem ends_refreshKey (hw : StoreOk g o i w₀) (h : w.configs = w₀.configs)
    (hC : ∀ w', w'.configs = w₀.configs → C w') :
    Ends (removingExec ρ) C (fun x w' => x = .ok () ∧ w'.configs = w₀.configs ∧
      match (w'.kv i).entries.lookup k with
      | none => ∀ s, ¬ Stored g o w₀ k s
      | some e => (groupVersions g o w₀.listing).lookup k = some e.versions)
      (refreshKey g o i k) w := by
  refine (ends_listMine (hC _ h)).bind (fun L w' hL => ?_) fun e w' h => by cases h.1
  obtain ⟨hL, rfl⟩ := hL
  obtain rfl := Except.ok.inj hL
  simp only [Prog.bind_eq, setSelf, Prog.modify, Prog.bind, Ends, listing_congr h]
  cases hvs : (groupVersions g o w₀.listing).lookup k with
  | none =>
    refine ⟨rfl, h, ?_⟩
    simp only [KvWorld.set_kv_self, lookup_erase]
    rintro s ⟨c, hc, m, hm, rfl⟩
    obtain ⟨vs, hvs', _⟩ := lookup_groupVersions hc hm
    rw [hvs] at hvs'
    cases hvs'
  | some vs =>
    cases hlast : vs.getLast? with
    | none =>
      simp only [bind_some, hlast, map_none]
      refine ⟨rfl, h, ?_⟩
      simp only [KvWorld.set_kv_self, lookup_erase]
      intro s hs
      obtain ⟨m, hm, _⟩ := (stored_iff_of_lookup hvs s).mp hs
      rw [List.getLast?_eq_none_iff.mp hlast] at hm
      cases hm
    | some latest =>
      simp only [bind_some, hlast, map_some]
      obtain ⟨c, v, hc, hv⟩ := hw.reads (mem_of_lookup hvs) (mem_of_getLast? hlast)
      generalize hw₁ : w'.set i _ = w₁
      have h₁ : w₁.configs = w₀.configs := by rw [← hw₁, KvWorld.set_configs, h]
      refine Ends.bind (ends_readVersion (hC w₁ h₁) (h₁ ▸ hc) hv) (fun v' w₂ h₂ => ?_)
        fun e w₂ h => by cases h.1
      obtain ⟨_, rfl⟩ := h₂
      refine ⟨rfl, h₁, ?_⟩
      simp only [KvWorld.set_kv_self, lookup_insert]

omit [KvValue V] in
/-- One remove of the loop. -/
theorem After.remove {us : List VersionMeta} (h : After ρ w₀ k us w) (v : VersionMeta) :
    ∃ r w', removingExec ρ (.remove i (kvConfigName k v.seq)) w = some (r, w') ∧
      After ρ w₀ k (us ++ [v]) w' := by
  have hsame : ¬ Effective ρ (kvConfigName k v.seq) ∨
      w.configs.lookup (kvConfigName k v.seq) = none → After ρ w₀ k (us ++ [v]) w := by
    intro hv name c
    rw [h name c]
    refine and_congr_right fun hc => ⟨fun hus u hu hn => ?_, fun hus u hu => hus u (by simp [hu])⟩
    rcases mem_append.mp hu with hu | hu
    · exact hus u hu hn
    · obtain rfl := mem_singleton.mp hu
      rcases hv with hv | hv
      · exact hn ▸ hv
      · rw [← hn, (h name c).mpr ⟨hc, hus⟩] at hv
        cases hv
  have herase : Effective ρ (kvConfigName k v.seq) → After ρ w₀ k (us ++ [v])
      { w with configs := w.configs.erase (kvConfigName k v.seq) } := by
    intro hv name c
    by_cases hn : name = kvConfigName k v.seq
    · subst hn
      simp only [lookup_erase]
      exact ⟨fun h => (by cases h), fun h => absurd hv (h.2 v (by simp) rfl)⟩
    · simp only [lookup_erase_ne hn]
      rw [h name c]
      refine and_congr_right fun hc =>
        ⟨fun hus u hu hn' => ?_, fun hus u hu => hus u (by simp [hu])⟩
      rcases mem_append.mp hu with hu | hu
      · exact hus u hu hn'
      · obtain rfl := mem_singleton.mp hu
        exact absurd hn' hn
  simp only [removingExec, removing, kvExec, dockerRemove]
  cases hρ : ρ (kvConfigName k v.seq) with
  | reject e => exact ⟨_, _, rfl, hsame (.inl fun h => h e hρ)⟩
  | ok | lost e =>
    cases hl : w.configs.lookup (kvConfigName k v.seq) with
    | none => exact ⟨_, _, rfl, hsame (.inr hl)⟩
    | some c => exact ⟨_, _, rfl, herase fun e' h => by rw [hρ] at h; cases h⟩

omit [KvValue V] in
/-- The loop. -/
theorem ends_removes {us vs : List VersionMeta} (h : After ρ w₀ k us w)
    (hC : ∀ us' vs' w', us ++ vs = us' ++ vs' → After ρ w₀ k us' w' → C w') :
    Ends (removingExec ρ) C (fun x w' => x = .ok () ∧ After ρ w₀ k (us ++ vs) w')
      (Prog.forEach (fun v => do let _ ← removeQuietly i (kvConfigName k v.seq)) vs :
        KvProg ι V Unit) w := by
  induction vs generalizing us w with
  | nil => exact ⟨rfl, by rwa [append_nil]⟩
  | cons v vs ih =>
    obtain ⟨r, w₁, he, h₁⟩ := h.remove (i := i) v
    have hrest := ih h₁ fun us' vs' w' heq => hC us' vs' w' (by simpa using heq)
    refine ⟨hC us (v :: vs) w rfl h, r, w₁, he, hC (us ++ [v]) vs w₁ (by simp) h₁, ?_⟩
    rw [append_cons]
    cases r with
    | ok => exact hrest
    | error e => exact hrest

/-- A delete of a key that may be used, as a whole. -/
theorem ends_delete (hw : StoreOk g o i w₀) (hk : check o.collections k = .ok ())
    (hC : ∀ us vs w', (groupVersions g o w₀.listing).lookup k = some (us ++ vs) →
      After ρ w₀ k us w' → C w') (hsame : ∀ w', w'.configs = w₀.configs → C w') :
    Ends (removingExec ρ) C (fun x w' => (x = .ok false ∧ ∀ s, ¬ Stored g o w₀ k s) ∨
      (x = .ok true ∧ ∃ vs, (groupVersions g o w₀.listing).lookup k = some vs ∧
        After ρ w₀ k vs w')) (delete g o i n k) w₀ := by
  simp only [delete, hk, Prog.ofExcept, Prog.bind_eq, Prog.ret_bind, serial]
  refine ⟨hsame w₀ rfl, (), w₀.set i ({ · with writing := some n }), ?_, hsame _ rfl,
    Ends.ensuring ?_⟩
  · simp only [removingExec, kvExec, hw.writing, isSome_none, Bool.false_eq_true, if_false]
  refine Ends.bind (ends_ensureFresh hw rfl (by rw [KvWorld.set_kv_self]; exact hw.loading) hsame)
    (fun _ w₁ h₁ => ?_) fun e w' h => by cases h.1
  refine Ends.bind (ends_refreshKey hw h₁.2 hsame) (fun _ w₂ h₂ => ?_) fun e w' h => by cases h.1
  obtain ⟨_, h₂, he⟩ := h₂
  change Ends _ _ _ (match (w₂.kv i).entries.lookup k with
    | none => pure false
    | some e => _) w₂
  cases hl : (w₂.kv i).entries.lookup k with
  | none =>
    rw [hl] at he
    exact .inl ⟨rfl, he⟩
  | some e =>
    rw [hl] at he
    have hstart : After ρ w₀ k [] w₂ := fun name c => by simp [h₂]
    refine Ends.bind (ends_removes hstart
      fun us vs w' heq h => hC us vs w' (by rw [he, ← heq]; rfl) h) (fun _ w₃ h₃ => ?_)
      fun e w' h => by cases h.1
    exact .inr ⟨rfl, e.versions, he, h₃.2⟩

/-- A delete is final exactly when every remove of a version takes effect. -/
theorem deleteFinal_iff (hw : StoreOk g o i w₀) (hk : check o.collections k = .ok ()) :
    DeleteFinal g o i n ρ k w₀ ↔
      ∀ s, Stored g o w₀ k s → Effective ρ (kvConfigName k s) := by
  constructor
  · intro h s hs
    obtain ⟨x, w', ho, hD⟩ := (ends_delete (C := fun _ => True) (ρ := ρ) hw hk
      (fun _ _ _ _ _ => trivial) fun _ _ => trivial).outcome
    rcases hD with ⟨_, hnone⟩ | ⟨rfl, vs, hvs, hafter⟩
    · exact absurd hs (hnone s)
    · by_contra heff
      exact h.completed w' ho s ((hafter.stored hw.canonical s).mpr ⟨hs, fun _ _ _ => heff⟩)
  · intro hall
    have hends := ends_delete (n := n) (ρ := ρ)
      (C := fun w' => seen g o w' k = seen g o w₀ k ∨ seen g o w' k = none) hw hk
      (fun us vs w' hvs h => h.seen hw.canonical hvs hall)
      fun w' h => .inl (by rw [seen, listing_congr h, seen])
    obtain ⟨x, w₁, ho, hD⟩ := hends.outcome
    refine ⟨fun w' ho' s hs => ?_, fun w' hcut => ?_⟩
    · obtain ⟨rfl, rfl⟩ := Prod.mk.inj (some.inj (ho.symm.trans ho'))
      rcases hD with ⟨h, _⟩ | ⟨_, vs, hvs, hafter⟩
      · cases h
      · obtain ⟨hs, hus⟩ := (hafter.stored hw.canonical s).mp hs
        obtain ⟨m, hm, rfl⟩ := (stored_iff_of_lookup hvs s).mp hs
        exact hus m hm rfl (hall _ hs)
    · rcases hcut with hcut | ⟨e, ho'⟩
      · exact hends.cutAt hcut
      · obtain ⟨rfl, rfl⟩ := Prod.mk.inj (some.inj (ho.symm.trans ho'))
        rcases hD with ⟨h, _⟩ | ⟨h, _⟩ <;> cases h

end

/-! ## A document with two versions -/

/-- A version of a document, as the store writes it. -/
def siteVersion (seq : Nat) : KvConfig :=
  ⟨Base64.toB64 (plainOrg.sealer.sealPlain (stableJson 7)),
    versionLabels plainOrg siteKey seq (kvFingerprint "7") 4, 0⟩

/-- A swarm with two versions of a document. -/
def twoVersions : KvWorld Bool Nat where
  now := 0
  configs := ((∅ : AList _).insert (kvConfigName siteKey 1) (siteVersion 1)).insert
    (kvConfigName siteKey 2) (siteVersion 2)
  created := []
  kv _ := .new

theorem twoVersions_lookup {name : String} {c : KvConfig}
    (h : twoVersions.configs.lookup name = some c) :
    ∃ s, (s = 1 ∨ s = 2) ∧ name = kvConfigName siteKey s ∧ c = siteVersion s := by
  by_cases h₂ : name = kvConfigName siteKey 2
  · subst h₂
    rw [twoVersions, lookup_insert, Option.some.injEq] at h
    exact ⟨2, .inr rfl, rfl, h.symm⟩
  · rw [twoVersions, lookup_insert_ne h₂] at h
    by_cases h₁ : name = kvConfigName siteKey 1
    · subst h₁
      rw [lookup_insert, Option.some.injEq] at h
      exact ⟨1, .inl rfl, rfl, h.symm⟩
    · rw [lookup_insert_ne h₁] at h
      cases h

theorem twoVersions_ok : StoreOk plainOrg .default false twoVersions := by
  have hlisted : ∀ s, s = 1 ∨ s = 2 → ∀ k m, listedVersion plainOrg .default
      ⟨kvConfigName siteKey s, (siteVersion s).createdAt, (siteVersion s).labels⟩ = some (k, m) →
      k = siteKey ∧ m.seq = s := by
    rintro s hs k m h
    have hp : parseKvConfigName (kvConfigName siteKey s) = some (siteKey, s) := by
      rcases hs with rfl | rfl <;> decide
    have := (listedVersion_eq_some h).2.2.1
    rw [hp, Option.some.injEq, Prod.mk.injEq] at this
    exact ⟨this.1.symm, this.2.symm⟩
  refine ⟨fun c hc k m h => ?_, fun name c k m hc h => ?_, rfl, rfl⟩
  · obtain ⟨d, hd, he⟩ := mem_listing.mp hc
    obtain ⟨s, hs, hn, rfl⟩ := twoVersions_lookup hd
    rw [he, hn] at h
    obtain ⟨rfl, hm⟩ := hlisted s hs k m h
    rw [hn, hm]
  · obtain ⟨s, hs, rfl, rfl⟩ := twoVersions_lookup hc
    exact ⟨7, openVersion_seal plainOrg k m.seq 7⟩

/-- Where every remove takes effect, the delete of a document is final. -/
theorem deleteFinal_twoVersions :
    DeleteFinal plainOrg .default false 0 (fun _ => .ok) siteKey twoVersions :=
  (deleteFinal_iff twoVersions_ok (by decide)).mpr fun _ _ _ h => by cases h

/-- One remove is rejected: the delete resolves true, and the old version is back. -/
theorem deleteFinal_rejected :
    ¬ ∀ ρ, DeleteFinal plainOrg .default false 0 ρ siteKey twoVersions := by
  intro h
  let ρ : String → KvChoice := fun name =>
    if name = kvConfigName siteKey 1 then .reject (.other "rpc error: code = Unavailable") else .ok
  have hrun : (outcome (removingExec ρ) (delete plainOrg .default false 0 siteKey) twoVersions).map
      (fun r => (r.1.toOption, (r.2.listing.filterMap (listedVersion plainOrg .default)).map
        fun v => (v.1, v.2.seq))) = some (some true, [(siteKey, 1)]) := by decide
  obtain ⟨⟨x, w'⟩, ho, heq⟩ := map_eq_some_iff.mp hrun
  simp only [Prod.mk.injEq] at heq
  obtain ⟨hx, hl⟩ := heq
  have hok : x = .ok true := by
    cases x with
    | ok b => exact congrArg Except.ok (some.inj hx)
    | error e => cases hx
  have hmem : (siteKey, 1) ∈ (w'.listing.filterMap (listedVersion plainOrg .default)).map
      fun v => (v.1, v.2.seq) := by rw [hl]; exact mem_singleton_self _
  obtain ⟨⟨k, m⟩, hv, hkm⟩ := mem_map.mp hmem
  obtain ⟨rfl, hm⟩ := Prod.mk.inj hkm
  obtain ⟨c, hc, hlv⟩ := mem_filterMap.mp hv
  exact (h ρ).completed w' (by rw [ho, hok]) 1 ⟨c, hc, m, hlv, hm⟩

end Swarmy.Kv
