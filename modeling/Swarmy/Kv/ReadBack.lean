import Swarmy.Kv.Delete
import Swarmy.Kv.StableJson

/-!
# swarm-kv: what is put is what is read

`put` alone over an arbitrary store and cache, against a Docker that may reject any
call and may lose any answer.  A put that resolves reports a version; the question is
whether that version decodes to the value that was put.  A write is skipped where the
32-bit fingerprint of its text is the one of the version it is compared with, so the
answer is: exactly where no version that the put compares with has the fingerprint
and another value.
-/

namespace Swarmy.Kv

open Coop List Option Bool AList

variable {ι V : Type}

/-! ## The words of the statement -/

/-- Docker says that a name is taken only where it is. -/
def KvChoice.Honest : KvChoice → Prop
  | .ok => True
  | .reject e | .lost e => isNameConflict e = false

variable [DecidableEq ι]

/-- A run alone, with the answers to its calls. -/
def runAlone {α : Type} : KvProg ι V α → List KvChoice → KvWorld ι V →
    Option (Except KvException α × KvWorld ι V)
  | .ret a, _, w => some (.ok a, w)
  | .raise e, _, w => some (.error e, w)
  | .act f k, χs, w => runAlone (k w) χs (f w)
  | .call _ _, [], _ => none
  | .call c k, χ :: χs, w => (kvExec χ c w).bind fun r => runAlone (k r.1) χs r.2

section

variable [KvValue V]

omit [DecidableEq ι] in
/-- The swarm holds the version, and it decodes to the value. -/
def Decodes (g : KvOrg) (w : KvWorld ι V) (k : Key) (seq : Nat) (v : V) : Prop :=
  ∃ c, w.configs.lookup (kvConfigName k seq) = some c ∧ openVersion g k seq c.dataB64 = .ok v

/-- A put that resolves reports a version that decodes to the value, from the cache
and from the swarm. -/
def PutsBack (g : KvOrg) (o : KvOptions) (i : ι) (n : Nat) (k : Key) (v : V)
    (w : KvWorld ι V) : Prop :=
  ∀ χs : List KvChoice, (∀ χ ∈ χs, χ.Honest) → ∀ r w',
    runAlone (put g o i n k v) χs w = some (.ok r, w') →
    ∃ doc, r = some doc ∧ (w'.kv i).docOf k = some doc ∧ doc.value = KvValue.canon v ∧
      Decodes g w' k doc.seq (KvValue.canon v)

end

/-- The latest version of the key in the cache. -/
def cacheLatest (i : ι) (w : KvWorld ι V) (k : Key) : Option VersionMeta :=
  ((w.kv i).entries.lookup k).bind Entry.latest

/-- The latest version of the key in the swarm. -/
def storeLatest (g : KvOrg) (o : KvOptions) (w : KvWorld ι V) (k : Key) : Option VersionMeta :=
  ((groupVersions g o w.listing).lookup k).bind List.getLast?

variable [KvValue V]

/-- An instance with nothing under way: its entries are sorted, the value of each is
that of its latest version, and there are none before the first load. -/
structure AtRest (g : KvOrg) (o : KvOptions) (i : ι) (w : KvWorld ι V) : Prop
    extends StoreOk g o i w where
  sorted : ∀ k e, (w.kv i).entries.lookup k = some e → Sorted e.versions
  cached : ∀ k e m v, (w.kv i).entries.lookup k = some e → e.latest = some m →
    Decodes g w k m.seq v → v = e.value
  unloaded : (w.kv i).loadedAt = none → (w.kv i).entries = ∅
  touched : ∀ k t, (w.kv i).touched.lookup k = some t → t ≤ (w.kv i).gen

/-- The versions a put compares its value with: the latest in the cache, and the
latest in the swarm on the first load and after a lost race. -/
inductive Compared (g : KvOrg) (o : KvOptions) (i : ι) (k : Key) (v : V) (w : KvWorld ι V) :
    VersionMeta → Prop where
  | cached {m : VersionMeta} (hl : (w.kv i).loadedAt ≠ none) (hm : cacheLatest i w k = some m) :
      Compared g o i k v w m
  | loaded {m : VersionMeta} (hl : (w.kv i).loadedAt = none) (hm : storeLatest g o w k = some m) :
      Compared g o i k v w m
  | raced {m : VersionMeta} {x : Write} (hl : (w.kv i).loadedAt ≠ none) (hr : 0 < o.maxRetries)
      (hx : planWrite g o k ((w.kv i).entries.lookup k) (w.kv i).footprint v = .ok (some x))
      (htaken : (w.configs.lookup (kvConfigName k x.seq)).isSome)
      (hm : storeLatest g o w k = some m) : Compared g o i k v w m

/-! ## Every run alone -/

section

omit [KvValue V]

variable {α β : Type} {w : KvWorld ι V}

/-- What holds whenever a run alone returns. -/
def Every (D : α → KvWorld ι V → Prop) : KvProg ι V α → KvWorld ι V → Prop
  | .ret a, w => D a w
  | .raise _, _ => True
  | .act f k, w => Every D (k w) (f w)
  | .call c k, w => ∀ χ : KvChoice, χ.Honest → ∀ r w', kvExec χ c w = some (r, w') →
      Every D (k r) w'

variable {D : α → KvWorld ι V → Prop} {p : KvProg ι V α}

theorem Every.mono {D' : α → KvWorld ι V → Prop} (hD : ∀ a w, D a w → D' a w) (h : Every D p w) :
    Every D' p w := by
  induction p generalizing w with
  | ret a => exact hD a w h
  | raise e => trivial
  | act f k ih => exact ih w h
  | call c k ih => exact fun χ hχ r w' he => ih r (h χ hχ r w' he)

/-- The rule for sequencing. -/
theorem Every.bind {D : β → KvWorld ι V → Prop} {P : α → KvWorld ι V → Prop} {f : α → KvProg ι V β}
    (h : Every P p w) (hf : ∀ a w', P a w' → Every D (f a) w') : Every D (p.bind f) w := by
  induction p generalizing w with
  | ret a => exact hf a w h
  | raise e => trivial
  | act g k ih => exact ih w h
  | call c k ih => exact fun χ hχ r w' he => ih r (h χ hχ r w' he)

/-- The rule for exceptions. -/
theorem Every.handle {f : KvException → KvProg ι V α} (h : Every D p w)
    (hf : ∀ e w', Every D (f e) w') : Every D (p.handle f) w := by
  induction p generalizing w with
  | ret a => exact h
  | raise e => exact hf e w
  | act g k ih => exact ih w h
  | call c k ih => exact fun χ hχ r w' he => ih r (h χ hχ r w' he)

theorem Every.ensuring {fin : KvWorld ι V → KvWorld ι V} (h : Every (fun a w' => D a (fin w')) p w)
    : Every D (p.ensuring fin) w :=
  Every.bind (h.handle fun _ _ => trivial) fun _ _ ha => ha

theorem Every.ofExcept {x : Except KvException α}
    (h : ∀ a, x = .ok a → D a w) : Every D (.ofExcept x) w := by
  cases x with
  | ok a => exact h a rfl
  | error e => trivial

theorem Every.run (h : Every D p w) {χs : List KvChoice} (hχs : ∀ χ ∈ χs, χ.Honest) {a : α}
    {w' : KvWorld ι V} (hrun : runAlone p χs w = some (.ok a, w')) : D a w' := by
  induction p generalizing w χs with
  | ret a =>
    cases hrun
    exact h
  | raise e => cases hrun
  | act f k ih => exact ih w h hχs hrun
  | call c k ih =>
    cases χs with
    | nil => cases hrun
    | cons χ χs =>
      obtain ⟨⟨r, w₁⟩, he, hrest⟩ := bind_eq_some_iff.mp hrun
      exact ih r (h χ (hχs χ mem_cons_self) r w₁ he)
        (fun χ' h' => hχs χ' (mem_cons_of_mem _ h')) hrest

/-- Every call is answered. -/
def allAnswered : String → KvChoice := fun _ => .ok

omit [DecidableEq ι] in
theorem removing_allAnswered (c : KvCall ι) : removing allAnswered c = .ok := by
  cases c <;> rfl

/-- The run in which every call is answered is one of the runs. -/
theorem runAlone_of_outcome {x : Except KvException α} {w' : KvWorld ι V}
    (h : outcome (removingExec allAnswered) p w = some (x, w')) :
    ∃ χs : List KvChoice, (∀ χ ∈ χs, χ.Honest) ∧ runAlone p χs w = some (x, w') := by
  induction p generalizing w with
  | ret a => exact ⟨[], fun _ h => absurd h not_mem_nil, h⟩
  | raise e => exact ⟨[], fun _ h => absurd h not_mem_nil, h⟩
  | act f k ih => exact ih w h
  | call c k ih =>
    obtain ⟨⟨r, w₁⟩, he, hrest⟩ := bind_eq_some_iff.mp h
    obtain ⟨χs, hχs, hrun⟩ := ih r hrest
    have he : kvExec .ok c w = some (r, w₁) := by rw [← removing_allAnswered c]; exact he
    refine ⟨.ok :: χs, fun χ hχ => ?_, ?_⟩
    · rcases mem_cons.mp hχ with rfl | hχ
      · trivial
      · exact hχs χ hχ
    · rw [runAlone, he]
      exact hrun

/-- What every run keeps to holds at the end of the run in which every call is answered. -/
theorem Every.ends {P : α → KvWorld ι V → Prop} {D : Except KvException α → KvWorld ι V → Prop}
    {C : KvWorld ι V → Prop} (h : Every P p w) (he : Ends (removingExec allAnswered) C D p w) :
    Ends (removingExec allAnswered) C (fun x w' => D x w' ∧ ∀ a, x = .ok a → P a w') p w := by
  induction p generalizing w with
  | ret a =>
    refine ⟨he, fun b hb => ?_⟩
    obtain rfl := Except.ok.inj hb
    exact h
  | raise e => exact ⟨he, fun b hb => by cases hb⟩
  | act f k ih => exact ih w h he
  | call c k ih =>
    obtain ⟨hC, r, w₁, hx, hC₁, hk⟩ := he
    refine ⟨hC, r, w₁, hx, hC₁, ih r (h .ok trivial r w₁ ?_) hk⟩
    rw [← removing_allAnswered c]
    exact hx

end

/-! ## What the cache holds after a load -/

section

variable {g : KvOrg} {o : KvOptions} {i : ι} {n : Nat} {k : Key} {v : V} {w w' : KvWorld ι V}

omit [DecidableEq ι] in
theorem Decodes.congr (h : w'.configs = w.configs) {s : Nat} :
    Decodes g w' k s v ↔ Decodes g w k s v := by
  simp only [Decodes, h]

/-- The entry a listing gives for a key. -/
structure Listed (g : KvOrg) (o : KvOptions) (w : KvWorld ι V) (k : Key) (e : Entry V) :
    Prop where
  versions : (groupVersions g o w.listing).lookup k = some e.versions
  value : ∀ m, e.latest = some m → Decodes g w k m.seq e.value

omit [DecidableEq ι] in
theorem Listed.congr (h : w'.configs = w.configs) {e : Entry V} (he : Listed g o w k e) :
    Listed g o w' k e :=
  ⟨by rw [listing_congr h]; exact he.versions, fun m hm => (Decodes.congr h).mpr (he.value m hm)⟩

omit [DecidableEq ι] in
theorem Listed.sorted {e : Entry V} (h : Listed g o w k e) : Sorted e.versions :=
  (mem_groupVersions (mem_of_lookup h.versions)).1

omit [DecidableEq ι] in
theorem Listed.latest {e : Entry V} (h : Listed g o w k e) : e.latest = storeLatest g o w k := by
  rw [storeLatest, h.versions]
  rfl

omit [DecidableEq ι] [KvValue V] in
/-- The groups of a listing have keys of their own. -/
theorem lookup_of_mem {all : List KvConfigInfo} {vs : List VersionMeta}
    (h : (k, vs) ∈ groupVersions g o all) : (groupVersions g o all).lookup k = some vs := by
  obtain ⟨k', hk', he⟩ := mem_map.mp h
  obtain ⟨rfl, rfl⟩ := Prod.mk.inj he
  exact lookup_map _ hk'

omit [KvValue V] in
theorem every_listMine :
    Every (fun L w' => L = groupVersions g o w.listing ∧ w' = w) (listMine g o i) w := by
  intro χ _ r w' he
  cases χ with
  | ok =>
    obtain ⟨rfl, rfl⟩ := Prod.mk.inj (some.inj he)
    exact ⟨rfl, rfl⟩
  | reject e =>
    obtain ⟨rfl, rfl⟩ := Prod.mk.inj (some.inj he)
    trivial
  | lost e =>
    obtain ⟨rfl, rfl⟩ := Prod.mk.inj (some.inj he)
    trivial

theorem every_readVersion {s : Nat} :
    Every (fun v w' => Decodes g w k s v ∧ w' = w) (readVersion g i k s) w := by
  intro χ _ r w' he
  cases χ with
  | ok =>
    obtain ⟨rfl, rfl⟩ := Prod.mk.inj (some.inj he)
    cases hc : w.configs.lookup (kvConfigName k s) with
    | none => trivial
    | some c => exact Every.ofExcept fun v hv => ⟨⟨c, hc, hv⟩, rfl⟩
  | reject e =>
    obtain ⟨rfl, rfl⟩ := Prod.mk.inj (some.inj he)
    trivial
  | lost e =>
    obtain ⟨rfl, rfl⟩ := Prod.mk.inj (some.inj he)
    trivial

/-- Pulling the groups of a listing into an empty cache. -/
theorem every_pull (hempty : (w.kv i).entries = ∅) {L : List (Key × List VersionMeta)}
    (hL : L ⊆ groupVersions g o w.listing) {next : AList fun _ : Key => Entry V}
    (hnext : ∀ k e, next.lookup k = some e → Listed g o w k e) :
    Every (fun next' w' => ((∀ k e, next'.lookup k = some e → Listed g o w k e) ∧
      ∀ k, (next.lookup k).isSome ∨ (∃ vs m, (k, vs) ∈ L ∧ vs.getLast? = some m) →
        (next'.lookup k).isSome) ∧ w' = w) (pull g i next L) w := by
  induction L generalizing next with
  | nil => exact ⟨⟨hnext, fun k h => h.resolve_right fun ⟨_, _, h, _⟩ => absurd h not_mem_nil⟩, rfl⟩
  | cons kvs L ih =>
    obtain ⟨k, versions⟩ := kvs
    have hvs := lookup_of_mem (hL mem_cons_self)
    have hL' : L ⊆ groupVersions g o w.listing := fun _ h => hL (mem_cons_of_mem _ h)
    have hnone : (w.kv i).entries.lookup k = none := by rw [hempty]; rfl
    refine Every.bind (P := fun cur w' => cur = none ∧ w' = w) ⟨hnone, rfl⟩ ?_
    rintro _ w₁ ⟨rfl, rfl⟩
    cases hlast : versions.getLast? with
    | none =>
      refine (ih hL' hnext).mono ?_
      rintro next' w₂ ⟨⟨hlisted, hall⟩, rfl⟩
      refine ⟨⟨hlisted, fun k' h => hall k' (h.imp_right ?_)⟩, rfl⟩
      rintro ⟨vs, m, hmem, hm⟩
      rcases mem_cons.mp hmem with he | hmem
      · obtain ⟨rfl, rfl⟩ := Prod.mk.inj he
        rw [hlast] at hm
        cases hm
      · exact ⟨vs, m, hmem, hm⟩
    | some latest =>
      refine Every.bind every_readVersion ?_
      rintro v w₂ ⟨hv, rfl⟩
      refine (@ih hL' (next.insert k ⟨versions, v⟩) fun k' e he => ?_).mono ?_
      rotate_left
      · rintro next' w₃ ⟨⟨hlisted, hall⟩, rfl⟩
        refine ⟨⟨hlisted, fun k' h => hall k' ?_⟩, rfl⟩
        by_cases hk : k' = k
        · subst hk
          exact .inl (by rw [lookup_insert]; rfl)
        · refine h.imp (fun h => by rw [lookup_insert_ne hk]; exact h) ?_
          rintro ⟨vs, m, hmem, hm⟩
          rcases mem_cons.mp hmem with he | hmem
          · exact absurd (Prod.mk.inj he).1 hk
          · exact ⟨vs, m, hmem, hm⟩
      by_cases hk : k' = k
      · subst hk
        rw [lookup_insert] at he
        obtain rfl := some.inj he
        refine ⟨hvs, fun m hm => ?_⟩
        rw [Entry.latest, hlast] at hm
        obtain rfl := some.inj hm
        exact hv
      · rw [lookup_insert_ne hk] at he
        exact hnext k' e he

/-- What an update works on: the cache as it was, or what the swarm lists. -/
def Fresh (g : KvOrg) (o : KvOptions) (i : ι) (w₀ w : KvWorld ι V) : Prop :=
  w.configs = w₀.configs ∧
    (((w₀.kv i).loadedAt ≠ none ∧ (w.kv i).entries = (w₀.kv i).entries) ∨
      ((w₀.kv i).loadedAt = none ∧
        (∀ k e, (w.kv i).entries.lookup k = some e → Listed g o w₀ k e) ∧
        ∀ k, (storeLatest g o w₀ k).isSome → ((w.kv i).entries.lookup k).isSome))

theorem every_ensureFresh (hw : AtRest g o i w') (hc : w.configs = w'.configs)
    (hi : w.kv i = { w'.kv i with writing := some n }) :
    Every (fun _ w₁ => Fresh g o i w' w₁) (ensureFresh g o i n) w := by
  refine Every.bind (P := fun t w₁ => t = (w'.kv i).loadedAt ∧ w₁ = w)
    ⟨congrArg (·.loadedAt) hi, rfl⟩ ?_
  rintro _ w₁ ⟨rfl, rfl⟩
  cases hl : (w'.kv i).loadedAt with
  | some t =>
    refine ⟨hc, .inl ⟨by simp [hl], ?_⟩⟩
    rw [KvWorld.set_kv_self]
    have hspawn : ∀ (s : SwarmKv V) (t now : Nat), (s.spawn o t now).entries = s.entries := by
      intro s t now
      unfold SwarmKv.spawn
      split <;> rfl
    rw [hspawn, hi]
  | none =>
    change Every _ (ite ((w₁.kv i).loading.isSome = true) _ _) w₁
    have hload : (w₁.kv i).loading = none := by rw [hi]; exact hw.loading
    rw [if_neg (by simp [hload])]
    change Every _ (load g o i _) (w₁.set i _)
    refine Every.handle ?_ fun _ _ => trivial
    generalize hw₂ : w₁.set i _ = w₂
    have hc₂ : w₂.configs = w'.configs := by rw [← hw₂, KvWorld.set_configs, hc]
    have hi₂ : (w₂.kv i).entries = ∅ ∧ (w₂.kv i).touched = (w'.kv i).touched := by
      rw [← hw₂, KvWorld.set_kv_self, hi]
      exact ⟨hw.unloaded hl, rfl⟩
    have hgen : (w₁.kv i).gen = (w'.kv i).gen := by rw [hi]
    refine Every.bind (P := fun _ w₁ => Fresh g o i w' w₁) ?_ fun _ w₃ h₃ => ?_
    · refine Every.bind every_listMine ?_
      rintro L w₃ ⟨rfl, rfl⟩
      refine Every.bind (every_pull hi₂.1 (fun _ h => h) fun k e he => by cases he) ?_
      rintro next w₄ ⟨⟨hnext, hall⟩, rfl⟩
      have hmerge : ∀ k, ((w₄.kv i).keepTouched (w₁.kv i).gen next).lookup k =
          next.lookup k := by
        intro k
        rcases lookup_keepTouched (w₄.kv i) (w₁.kv i).gen next k with ⟨⟨t, ht, hlt⟩, _⟩ | ⟨_, hk⟩
        · rw [hi₂.2] at ht
          exact absurd (hw.touched k t ht) (by omega)
        · exact hk
      refine ⟨hc₂, .inr ⟨hl, fun k e he => ?_, fun k hk => ?_⟩⟩
      · rw [KvWorld.set_kv_self] at he
        exact (hnext k e ((hmerge k).symm.trans he)).congr hc₂.symm
      · rw [KvWorld.set_kv_self]
        rw [hmerge k]
        obtain ⟨m, hm⟩ := isSome_iff_exists.mp hk
        obtain ⟨vs, hvs, hlast⟩ := bind_eq_some_iff.mp hm
        refine hall k (.inr ⟨vs, m, ?_, hlast⟩)
        rw [listing_congr hc₂]
        exact mem_of_lookup hvs
    · obtain ⟨hc₃, hor⟩ := h₃
      have hentries : ((w₃.set i ({ · with
          loading := none, loader := none, loadResult := .ok () })).kv i).entries =
          (w₃.kv i).entries := by rw [KvWorld.set_kv_self]
      exact ⟨hc₃, by rw [← hentries] at hor; exact hor⟩

theorem every_refreshKey : Every (fun _ w' => w'.configs = w.configs ∧
      ∀ e, (w'.kv i).entries.lookup k = some e → Listed g o w k e) (refreshKey g o i k) w := by
  refine Every.bind every_listMine ?_
  rintro L w₁ ⟨rfl, rfl⟩
  simp only [setSelf, Prog.modify, Prog.bind_eq, Prog.bind, Every]
  cases hvs : (groupVersions g o w₁.listing).lookup k with
  | none =>
    refine ⟨rfl, fun e he => ?_⟩
    rw [KvWorld.set_kv_self] at he
    simp only [lookup_erase] at he
    cases he
  | some vs =>
    cases hlast : vs.getLast? with
    | none =>
      simp only [bind_some, hlast, map_none]
      refine ⟨rfl, fun e he => ?_⟩
      rw [KvWorld.set_kv_self] at he
      simp only [lookup_erase] at he
      cases he
    | some latest =>
      simp only [bind_some, hlast, map_some]
      refine Every.bind every_readVersion ?_
      rintro v w₂ ⟨hv, rfl⟩
      refine ⟨rfl, fun e he => ?_⟩
      rw [KvWorld.set_kv_self] at he
      simp only [lookup_insert] at he
      obtain rfl := some.inj he
      refine ⟨hvs, fun m hm => ?_⟩
      rw [Entry.latest, hlast] at hm
      obtain rfl := some.inj hm
      exact (Decodes.congr (w := w₁) rfl).mp hv

end

/-! ## One round -/

section

variable {g : KvOrg} {o : KvOptions} {i : ι} {n : Nat} {k : Key} {v : V} {w w₀ w₁ : KvWorld ι V}

omit [DecidableEq ι] in
/-- A write is skipped where the latest version has the fingerprint of the value. -/
theorem planWrite_none {cur : Option (Entry V)} {footprint : Nat}
    (h : planWrite g o k cur footprint v = .ok none) :
    (cur.bind Entry.latest).map (·.sha) = some (kvFingerprint (stableJson v)) := by
  unfold planWrite at h
  cases hr : assertNoRunState v with
  | error e => rw [hr] at h; cases h
  | ok =>
    rw [hr] at h
    simp only [bind, Except.bind, pure, Except.pure, throw, throwThe, MonadExceptOf.throw] at h
    split at h
    · assumption
    split at h
    · cases h
    split at h
    · cases h
    split at h
    · cases h
    cases h

omit [DecidableEq ι] in
theorem planWrite_skips {cur : Option (Entry V)} {footprint : Nat} {m : VersionMeta}
    (hv : assertNoRunState v = .ok ()) (hm : cur.bind Entry.latest = some m)
    (hsha : m.sha = kvFingerprint (stableJson v)) : planWrite g o k cur footprint v = .ok none := by
  unfold planWrite
  simp only [hv, hm, bind, Except.bind, pure, Except.pure]
  rw [if_pos (by rw [map_some, hsha])]

/-- The put has written or found the value. -/
def Put (g : KvOrg) (i : ι) (k : Key) (v : V) (r : Option (KvDoc V)) (w : KvWorld ι V) : Prop :=
  ∃ doc, r = some doc ∧ (w.kv i).docOf k = some doc ∧ doc.value = KvValue.canon v ∧
    Decodes g w k doc.seq (KvValue.canon v)

omit [DecidableEq ι] in
theorem put_of_entry {e : Entry V} {m : VersionMeta} (he : (w.kv i).entries.lookup k = some e)
    (hm : e.latest = some m) (hval : e.value = KvValue.canon v)
    (hd : Decodes g w k m.seq (KvValue.canon v)) : Put g i k v ((w.kv i).docOf k) w := by
  have hdoc : (w.kv i).docOf k = some ⟨k, m.seq, e.value, m.createdAt⟩ := by
    rw [SwarmKv.docOf, he, bind_some, hm, map_some]
  exact ⟨_, hdoc, hdoc, hval, hd⟩

omit [KvValue V] [DecidableEq ι] in
/-- A remove touches the config of its name only. -/
theorem lookup_answer_remove (χ : KvChoice) {name name' : String} (hne : name' ≠ name) :
    (answer χ w (dockerRemove w name)).2.configs.lookup name' = w.configs.lookup name' ∧
      (answer χ w (dockerRemove w name)).2.kv = w.kv := by
  cases hr : dockerRemove w name with
  | error e => cases χ <;> exact ⟨rfl, rfl⟩
  | ok w' =>
    have herase : w'.configs.lookup name' = w.configs.lookup name' ∧ w'.kv = w.kv := by
      unfold dockerRemove at hr
      split at hr
      · cases hr
        exact ⟨lookup_erase_ne hne, rfl⟩
      · cases hr
    cases χ with
    | reject e => exact ⟨rfl, rfl⟩
    | ok => exact herase
    | lost e => exact herase

omit [KvValue V] in
theorem every_removeQuietly {name name' : String} (hne : name' ≠ name) :
    Every (fun _ w' => w'.configs.lookup name' = w.configs.lookup name' ∧ w'.kv = w.kv)
      (removeQuietly i name) w := by
  refine Every.bind (P := fun _ w' => w'.configs.lookup name' = w.configs.lookup name' ∧
    w'.kv = w.kv) ?_ fun r w' h => ?_
  · intro χ _ r w' he
    obtain ⟨-, rfl⟩ := Prod.mk.inj (some.inj he)
    exact lookup_answer_remove χ hne
  · cases r with
    | ok => exact h
    | error e => exact h

omit [KvValue V] in
theorem every_dropVersions {s : Nat} {kept drop : List VersionMeta} (hs : ∀ m ∈ drop, m.seq ≠ s) :
    Every (fun kept' w' => (kept ⊆ kept' ∧ kept' ⊆ kept ++ drop) ∧
      w'.configs.lookup (kvConfigName k s) = w.configs.lookup (kvConfigName k s) ∧ w'.kv = w.kv)
      (dropVersions i k kept drop) w := by
  induction drop generalizing kept w with
  | nil => exact ⟨⟨fun _ h => h, by simp⟩, rfl, rfl⟩
  | cons m drop ih =>
    have hne : kvConfigName k s ≠ kvConfigName k m.seq := fun h =>
      hs m mem_cons_self (kvConfigName_seq_inj h).symm
    refine Every.bind (every_removeQuietly hne) fun b w₁ h₁ => ?_
    refine Every.mono ?_ (ih (w := w₁) fun m' hm' => hs m' (mem_cons_of_mem _ hm'))
    rintro kept' w₂ ⟨⟨hsub, hsup⟩, hc, hkv⟩
    refine ⟨?_, hc.trans h₁.1, hkv.trans h₁.2⟩
    cases b with
    | true => exact ⟨hsub, fun x hx => by have := hsup hx; simp at this ⊢; tauto⟩
    | false =>
      exact ⟨fun x hx => hsub (by simp [hx]), fun x hx => by have := hsup hx; simp at this ⊢; tauto⟩

/-- Garbage collection keeps the latest version and its value. -/
theorem every_gc {e : Entry V} {m : VersionMeta} {v : V}
    (he : (w.kv i).entries.lookup k = some e) (hs : Sorted e.versions) (hm : e.latest = some m)
    (hbelow : ∀ m' ∈ e.versions.dropLast, m'.seq < m.seq) (hd : Decodes g w k m.seq v) :
    Every (fun _ w' => ∃ e' m', (w'.kv i).entries.lookup k = some e' ∧ e'.latest = some m' ∧
      m'.seq = m.seq ∧ e'.value = e.value ∧ Decodes g w' k m.seq v) (gc o i k) w := by
  have hkeep : 1 ≤ o.keep := Nat.le_max_left _ _
  refine Every.bind (P := fun cur w' => cur = some e ∧ w' = w) ⟨he, rfl⟩ ?_
  rintro _ w₁ ⟨rfl, rfl⟩
  change Every _ (if e.versions.length ≤ o.keep then _ else _) w₁
  split
  · exact ⟨e, m, he, hm, rfl, rfl, hd⟩
  · have hdropped : ∀ m' ∈ e.versions.take (e.versions.length - o.keep), m'.seq ≠ m.seq := by
      intro m' hm'
      refine Nat.ne_of_lt (hbelow m' ?_)
      rw [dropLast_eq_take]
      exact take_subset_take_left _ (by omega) hm'
    refine Every.bind (every_dropVersions hdropped) ?_
    rintro kept w₂ ⟨⟨hsub, hsup⟩, hc, hkv⟩
    have hne : e.versions.drop (e.versions.length - o.keep) ≠ [] := by
      simp only [ne_eq, drop_eq_nil_iff]
      omega
    have hlast : (e.versions.drop (e.versions.length - o.keep)).getLast? = some m := by
      rw [← hm, Entry.latest, List.getLast?_drop, if_neg]
      simpa using hne
    have hmem := hsub (mem_of_getLast? hlast)
    obtain ⟨m', hm'⟩ := isSome_iff_exists.mp (List.getLast?_isSome.mpr
      (ne_nil_of_mem ((mem_insertionSort (·.seq ≤ ·.seq)).mpr hmem)))
    refine ⟨⟨kept.insertionSort (·.seq ≤ ·.seq), e.value⟩, m', ?_, hm', ?_, rfl, ?_⟩
    · change ((w₂.set i _).kv i).entries.lookup k = _
      rw [KvWorld.set_kv_self]
      exact lookup_insert _
    · refine seq_getLast?_insertionSort hmem ?_ hm'
      refine fun x hx => hs.le_getLast? hm x ?_
      rcases mem_append.mp (hsup hx) with h | h
      · exact mem_of_mem_drop h
      · exact mem_of_mem_take h
    · obtain ⟨c, hc', ho⟩ := hd
      exact ⟨c, hc.trans hc', ho⟩

/-- An accepted write. -/
theorem every_committed {x : Write} (hjson : x.json = stableJson v) (hs : Sorted x.prior)
    (hlt : ∀ m ∈ x.prior, m.seq < x.seq) (hd : Decodes g w k x.seq (KvValue.canon v)) :
    Every (Put g i k v) (committed o i k x) w := by
  refine Every.bind (P := fun value w' => value = KvValue.canon v ∧ w' = w) ?_ ?_
  · refine Every.ofExcept fun value h => ⟨?_, rfl⟩
    rw [hjson, KvValue.parse_stableJson] at h
    cases h
    rfl
  rintro _ w₁ ⟨rfl, rfl⟩
  let m : VersionMeta := ⟨x.seq, x.bytes, x.sha, w₁.now⟩
  let e : Entry V := ⟨x.prior ++ [m], KvValue.canon v⟩
  refine Every.bind (P := fun _ w' => w' = w₁.set i fun s =>
    { s with entries := s.entries.insert k e }) rfl ?_
  rintro _ w' rfl
  refine Every.bind (P := fun _ w' => w' = (w₁.set i fun s =>
    { s with entries := s.entries.insert k e }).set i (·.touch k)) rfl ?_
  rintro _ w₂ hw₂
  have he : (w₂.kv i).entries.lookup k = some e := by
    rw [hw₂, KvWorld.set_kv_self, KvWorld.set_kv_self]
    exact lookup_insert _
  have hm : e.latest = some m := List.getLast?_concat
  refine Every.bind (every_gc (e := e) he ?_ hm ?_ ((Decodes.congr ?_).mpr hd)) ?_
  · exact hs.concat fun m' hm' => Nat.le_of_lt (hlt m' hm')
  · rw [dropLast_concat]
    exact hlt
  · rw [hw₂]
    rfl
  · rintro _ w₃ ⟨e', m', he', hm', hseq, hval, hd'⟩
    exact put_of_entry he' hm' hval (hseq ▸ hd')

end

/-! ## The loop -/

section

variable {g : KvOrg} {o : KvOptions} {i : ι} {n : Nat} {k : Key} {v : V} {w w₀ w₁ : KvWorld ι V}

/-- A round may start: whatever it finds with the fingerprint of the value is the value. -/
structure Ready (g : KvOrg) (i : ι) (k : Key) (v : V) (w₀ w : KvWorld ι V) : Prop where
  configs : w.configs = w₀.configs
  sorted : ∀ e, (w.kv i).entries.lookup k = some e → Sorted e.versions
  skips : ∀ e m, (w.kv i).entries.lookup k = some e → e.latest = some m →
    m.sha = kvFingerprint (stableJson v) →
    e.value = KvValue.canon v ∧ Decodes g w₀ k m.seq (KvValue.canon v)

omit [DecidableEq ι] in
/-- What the swarm lists is a start, where the latest version with the fingerprint of
the value is the value. -/
theorem Ready.of_listed (hc : w.configs = w₀.configs)
    (hl : ∀ e, (w.kv i).entries.lookup k = some e → Listed g o w₀ k e)
    (hstore : ∀ m, storeLatest g o w₀ k = some m → m.sha = kvFingerprint (stableJson v) →
      Decodes g w₀ k m.seq (KvValue.canon v)) : Ready g i k v w₀ w := by
  refine ⟨hc, fun e he => (hl e he).sorted, fun e m he hm hsha => ?_⟩
  have hd := hstore m ((hl e he).latest ▸ hm) hsha
  obtain ⟨c, hc, hv⟩ := hd
  obtain ⟨c', hc', hv'⟩ := (hl e he).value m hm
  obtain rfl := some.inj (hc.symm.trans hc')
  exact ⟨Except.ok.inj (hv'.symm.trans hv), c, hc, hv⟩

/-- One round. -/
theorem every_attempt (h : Ready g i k v w₀ w) {onConflict : KvProg ι V (Option (KvDoc V))}
    (hconf : ∀ x, planWrite g o k ((w.kv i).entries.lookup k) (w.kv i).footprint v = .ok (some x) →
      (w₀.configs.lookup (kvConfigName k x.seq)).isSome → Every (Put g i k v) onConflict w) :
    Every (Put g i k v) (attempt g o i k (fun _ => .ok (some v)) onConflict) w := by
  refine Every.bind (P := fun cur w' => cur = (w.kv i).entries.lookup k ∧ w' = w) ⟨rfl, rfl⟩ ?_
  rintro _ w₁ ⟨rfl, rfl⟩
  refine Every.bind (P := fun _ w' => w' = w₁) ?_ ?_
  · intro χ _ r w' he
    obtain ⟨-, rfl⟩ := Prod.mk.inj (some.inj he)
    rfl
  rintro _ w₂ rfl
  refine Every.bind (P := fun f w' => f = (w₂.kv i).footprint ∧ w' = w₂) ⟨rfl, rfl⟩ ?_
  rintro _ w₃ ⟨rfl, rfl⟩
  refine Every.bind (P := fun x w' => planWrite g o k ((w₃.kv i).entries.lookup k)
    (w₃.kv i).footprint v = .ok x ∧ w' = w₃) (Every.ofExcept fun x hx => ⟨hx, rfl⟩) ?_
  rintro x w₄ ⟨hx, rfl⟩
  cases x with
  | none =>
    obtain ⟨m, hm, hsha⟩ := map_eq_some_iff.mp (planWrite_none hx)
    obtain ⟨e, he, hm⟩ := bind_eq_some_iff.mp hm
    obtain ⟨hval, hd⟩ := h.skips e m he hm hsha
    exact put_of_entry he hm hval ((Decodes.congr h.configs).mpr hd)
  | some x =>
    obtain ⟨hjson, hdata, hseq, -, hprior, -⟩ := planWrite_eq_some hx
    have hsorted : Sorted x.prior := by
      rw [hprior]
      cases he : (w₄.kv i).entries.lookup k with
      | none => exact List.Pairwise.nil
      | some e => exact h.sorted e he
    have hlt : ∀ m ∈ x.prior, m.seq < x.seq := by
      intro m hm
      rw [hprior] at hm
      cases he : (w₄.kv i).entries.lookup k with
      | none =>
        rw [he] at hm
        cases hm
      | some e =>
        rw [he] at hm hseq
        obtain ⟨l, hl⟩ := isSome_iff_exists.mp
          (List.getLast?_isSome.mpr (ne_nil_of_mem hm))
        have hle := (h.sorted e he).le_getLast? hl m hm
        have hel : e.latest = some l := hl
        simp only [bind_some, hel, map_some, getD_some] at hseq
        omega
    refine Every.bind (P := fun r w' =>
      (r = .ok () ∧ w'.configs.lookup (kvConfigName k x.seq) =
        some ⟨x.dataB64, versionLabels g k x.seq x.sha x.bytes, w₄.now⟩) ∨
      (∃ e, r = .error e ∧ isNameConflict e = false) ∨
      (∃ e, r = .error e ∧ isNameConflict e = true ∧ w' = w₄ ∧
        (w₄.configs.lookup (kvConfigName k x.seq)).isSome)) ?_ ?_
    · intro χ hχ r w' he
      obtain ⟨rfl, rfl⟩ := Prod.mk.inj (some.inj he)
      cases hname : (w₄.configs.lookup (kvConfigName k x.seq)).isSome with
      | true =>
        simp only [dockerCreate, hname, if_true]
        cases χ with
        | ok => exact .inr (.inr ⟨_, rfl, rfl, rfl, trivial⟩)
        | reject e => exact .inr (.inl ⟨e, rfl, hχ⟩)
        | lost e => exact .inr (.inr ⟨_, rfl, rfl, rfl, trivial⟩)
      | false =>
        simp only [dockerCreate, hname, false_eq_true, if_false]
        cases χ with
        | ok => exact .inl ⟨rfl, lookup_insert _⟩
        | reject e => exact .inr (.inl ⟨e, rfl, hχ⟩)
        | lost e => exact .inr (.inl ⟨e, rfl, hχ⟩)
    · rintro r w₅ (⟨rfl, hcreated⟩ | ⟨e, rfl, hne⟩ | ⟨e, rfl, hce, rfl, htaken⟩)
      · refine every_committed hjson hsorted hlt ⟨_, hcreated, ?_⟩
        rw [hdata]
        exact openVersion_seal g k x.seq v
      · change Every _ (if isNameConflict e = true then _ else _) w₅
        rw [hne]
        trivial
      · change Every _ (if isNameConflict e = true then _ else _) w₅
        rw [hce, if_pos rfl]
        exact hconf x hx (h.configs ▸ htaken)

theorem every_tryUpdate {retries : Nat} (h : Ready g i k v w₀ w)
    (hstore : 0 < retries → ∀ x, planWrite g o k ((w.kv i).entries.lookup k)
      (w.kv i).footprint v = .ok (some x) → (w₀.configs.lookup (kvConfigName k x.seq)).isSome →
      ∀ m, storeLatest g o w₀ k = some m → m.sha = kvFingerprint (stableJson v) →
        Decodes g w₀ k m.seq (KvValue.canon v)) :
    Every (Put g i k v) (tryUpdate g o i k (fun _ => .ok (some v)) retries) w := by
  induction retries generalizing w with
  | zero => exact every_attempt h fun _ _ _ => trivial
  | succ retries ih =>
    refine every_attempt h fun x hx htaken => ?_
    have hlatest := hstore (Nat.succ_pos _) x hx htaken
    refine Every.bind every_refreshKey ?_
    rintro _ w₁ ⟨hc, hl⟩
    have hc₁ : w₁.configs = w₀.configs := hc.trans h.configs
    refine Every.bind (P := fun _ w' => w' = w₁) ?_ ?_
    · intro χ _ r w' he
      obtain ⟨-, rfl⟩ := Prod.mk.inj (some.inj he)
      rfl
    rintro _ w₂ rfl
    exact ih (.of_listed hc₁ (fun e he => (hl e he).congr h.configs.symm) hlatest)
      fun _ _ _ _ => hlatest

/-- Every put keeps to its value, where nothing it compares with has the fingerprint
and another value. -/
theorem every_put (hw : AtRest g o i w) (hall : ∀ m, Compared g o i k v w m →
      m.sha = kvFingerprint (stableJson v) → Decodes g w k m.seq (KvValue.canon v)) :
    Every (Put g i k v) (put g o i n k v) w := by
  refine Every.bind (Every.ofExcept (D := fun _ w' => w' = w) fun _ _ => rfl) ?_
  rintro _ w₁ rfl
  intro χ _ r w' he
  simp only [kvExec, hw.writing, isSome_none, false_eq_true, if_false] at he
  obtain ⟨-, rfl⟩ := Prod.mk.inj (some.inj he)
  refine Every.ensuring ?_
  refine Every.bind (every_ensureFresh hw rfl (KvWorld.set_kv_self _ _ _)) ?_
  rintro _ w₂ ⟨hc, hor⟩
  have hput : Every (Put g i k v) (tryUpdate g o i k (fun _ => .ok (some v)) o.maxRetries) w₂ := by
    rcases hor with ⟨hl, hentries⟩ | ⟨hl, hlisted, -⟩
    · refine every_tryUpdate ⟨hc, fun e he => ?_, fun e m he hm hsha => ?_⟩ ?_
      · exact hw.sorted k e (hentries ▸ he)
      · have he₁ : (w₁.kv i).entries.lookup k = some e := hentries ▸ he
        have hd := hall m (.cached hl (by rw [cacheLatest, he₁]; exact hm)) hsha
        exact ⟨(hw.cached k e m _ he₁ hm hd).symm, hd⟩
      · intro hr x hx htaken m hm
        have hfoot : (w₂.kv i).footprint = (w₁.kv i).footprint := by
          rw [SwarmKv.footprint, hentries, SwarmKv.footprint]
        rw [hentries, hfoot] at hx
        exact hall m (.raced hl hr hx htaken hm)
    · have hlatest := fun m hm => hall m (.loaded hl hm)
      exact every_tryUpdate (.of_listed hc (fun e he => hlisted k e he) hlatest)
        fun _ _ _ _ => hlatest
  refine hput.mono fun r w' h => ?_
  obtain ⟨doc, hr, hdoc, hval, hd⟩ := h
  refine ⟨doc, hr, ?_, hval, hd⟩
  rw [KvWorld.set_kv_self]
  exact hdoc

end

/-! ## Every version compared with is found -/

section

variable {g : KvOrg} {o : KvOptions} {i : ι} {n : Nat} {k : Key} {v : V} {w w₀ w₁ : KvWorld ι V}

/-- The run in which every call is answered ends with the version it has found. -/
abbrev Finds (w₀ : KvWorld ι V) (m : VersionMeta)
    (p : KvProg ι V (Option (KvDoc V))) (w : KvWorld ι V) : Prop :=
  Ends (removingExec allAnswered) (fun _ => True) (fun x w' => ∃ doc, x = .ok (some doc) ∧
    doc.seq = m.seq ∧ w'.configs = w₀.configs) p w

variable {m : VersionMeta}

/-- A round that finds the fingerprint of the value. -/
theorem finds_attempt (hc : w.configs = w₀.configs)
    (hv : assertNoRunState v = .ok ()) (hm : cacheLatest i w k = some m)
    (hsha : m.sha = kvFingerprint (stableJson v)) {onConflict : KvProg ι V (Option (KvDoc V))} :
    Finds w₀ m (attempt g o i k (fun _ => .ok (some v)) onConflict) w := by
  obtain ⟨e, he, hel⟩ := bind_eq_some_iff.mp hm
  refine Ends.bind (D := fun x w' => x = .ok ((w.kv i).entries.lookup k) ∧ w' = w) ⟨rfl, rfl⟩ ?_
    fun _ _ h => by cases h.1
  rintro _ w₁ ⟨hx, rfl⟩
  obtain rfl := Except.ok.inj hx
  refine Ends.bind (D := fun x w' => x = .ok () ∧ w' = w₁) ⟨trivial, (), w₁, rfl, trivial, rfl, rfl⟩
    ?_ fun _ _ h => by cases h.1
  rintro _ w₂ ⟨-, rfl⟩
  refine Ends.bind (D := fun x w' => x = .ok (w₂.kv i).footprint ∧ w' = w₂) ⟨rfl, rfl⟩ ?_
    fun _ _ h => by cases h.1
  rintro _ w₃ ⟨hx, rfl⟩
  obtain rfl := Except.ok.inj hx
  rw [planWrite_skips hv hm hsha]
  refine ⟨⟨k, m.seq, e.value, m.createdAt⟩, ?_, rfl, hc⟩
  change Except.ok ((w₃.kv i).docOf k) = _
  rw [SwarmKv.docOf, he, bind_some, hel, map_some]

theorem finds_tryUpdate (hc : w.configs = w₀.configs) (hv : assertNoRunState v = .ok ())
    (hm : cacheLatest i w k = some m) (hsha : m.sha = kvFingerprint (stableJson v)) (retries : Nat)
    : Finds w₀ m (tryUpdate g o i k (fun _ => .ok (some v)) retries) w := by
  cases retries with
  | zero => exact finds_attempt hc hv hm hsha
  | succ retries => exact finds_attempt hc hv hm hsha

omit [DecidableEq ι] [KvValue V] in
theorem stored_of_storeLatest (hm : storeLatest g o w k = some m) : Stored g o w k m.seq := by
  obtain ⟨vs, hvs, hlast⟩ := bind_eq_some_iff.mp hm
  obtain ⟨c, hc, hl⟩ := (mem_groupVersions (mem_of_lookup hvs)).2 m (mem_of_getLast? hlast)
  exact ⟨c, hc, m, hl, rfl⟩

/-- A round that loses the race to a version with the fingerprint of the value. -/
theorem finds_raced (hw : StoreOk g o i w₀) {x : Write} (hc : w.configs = w₀.configs)
    (hv : assertNoRunState v = .ok ())
    (hx : planWrite g o k ((w.kv i).entries.lookup k) (w.kv i).footprint v = .ok (some x))
    (htaken : (w₀.configs.lookup (kvConfigName k x.seq)).isSome)
    (hm : storeLatest g o w₀ k = some m) (hsha : m.sha = kvFingerprint (stableJson v))
    (retries : Nat) : Finds w₀ m (tryUpdate g o i k (fun _ => .ok (some v)) (retries + 1)) w := by
  refine Ends.bind (D := fun x w' => x = .ok ((w.kv i).entries.lookup k) ∧ w' = w) ⟨rfl, rfl⟩ ?_
    fun _ _ h => by cases h.1
  rintro _ w₁ ⟨h, rfl⟩
  obtain rfl := Except.ok.inj h
  refine Ends.bind (D := fun x w' => x = .ok () ∧ w' = w₁) ⟨trivial, (), w₁, rfl, trivial, rfl, rfl⟩
    ?_ fun _ _ h => by cases h.1
  rintro _ w₂ ⟨-, rfl⟩
  refine Ends.bind (D := fun x w' => x = .ok (w₂.kv i).footprint ∧ w' = w₂) ⟨rfl, rfl⟩ ?_
    fun _ _ h => by cases h.1
  rintro _ w₃ ⟨h, rfl⟩
  obtain rfl := Except.ok.inj h
  refine Ends.bind (D := fun y w' => y = .ok (some x) ∧ w' = w₃) (by rw [hx]; exact ⟨rfl, rfl⟩) ?_
    fun _ _ h => by cases h.1
  rintro _ w₄ ⟨hy, rfl⟩
  obtain rfl := Except.ok.inj hy
  have hname : (w₄.configs.lookup (kvConfigName k x.seq)).isSome = true := by rw [hc]; exact htaken
  obtain ⟨e, hcreate, he⟩ : ∃ e, dockerCreate w₄ (kvConfigName k x.seq) x.dataB64
      (versionLabels g k x.seq x.sha x.bytes) = .error e ∧ isNameConflict e = true :=
    ⟨_, if_pos hname, rfl⟩
  have hexec : removingExec allAnswered (.create i (kvConfigName k x.seq) x.dataB64
      (versionLabels g k x.seq x.sha x.bytes)) w₄ = some (.error e, w₄) := by
    simp only [removingExec, removing, kvExec, hcreate, answer]
    rfl
  refine Ends.bind (D := fun r w' => r = .ok (.error e) ∧ w' = w₄)
    ⟨trivial, _, w₄, hexec, trivial, rfl, rfl⟩ ?_ fun _ _ h => by cases h.1
  rintro r w₅ ⟨hr, rfl⟩
  obtain rfl := Except.ok.inj hr
  change Ends _ _ _ (if isNameConflict e = true then _ else _) w₅
  rw [if_pos he]
  refine Ends.bind (ends_refreshKey hw hc fun _ _ => trivial) ?_ fun _ _ h => by cases h.1
  rintro _ w₆ ⟨-, hc₆, hentry⟩
  have hm₆ : cacheLatest i w₆ k = some m := by
    rw [cacheLatest]
    cases he : (w₆.kv i).entries.lookup k with
    | none =>
      rw [he] at hentry
      exact absurd (stored_of_storeLatest hm) (hentry m.seq)
    | some e =>
      rw [he] at hentry
      rw [storeLatest, hentry] at hm
      exact hm
  refine Ends.bind (D := fun x w' => x = .ok () ∧ w' = w₆) ⟨trivial, (), w₆, rfl, trivial, rfl, rfl⟩
    ?_ fun _ _ h => by cases h.1
  rintro _ w₇ ⟨-, rfl⟩
  exact finds_tryUpdate hc₆ hv hm₆ hsha retries

/-- A version the put compares with, and that has the fingerprint of the value, is found. -/
theorem finds_put (hw : AtRest g o i w) (hk : check o.collections k = .ok ())
    (hv : assertNoRunState v = .ok ()) (h : Compared g o i k v w m)
    (hsha : m.sha = kvFingerprint (stableJson v)) : Finds w m (put g o i n k v) w := by
  simp only [put, update, hk, Prog.ofExcept, Prog.bind_eq, Prog.ret_bind, serial]
  refine ⟨trivial, (), w.set i ({ · with writing := some n }), ?_, trivial, Ends.ensuring ?_⟩
  · simp only [removingExec, kvExec, hw.writing, isSome_none, false_eq_true,
      if_false]
  have hfresh := every_ensureFresh (n := n) hw (w := w.set i ({ · with writing := some n })) rfl
    (KvWorld.set_kv_self _ _ _)
  have hends := ends_ensureFresh (n := n) (ρ := allAnswered) (C := fun _ => True) hw.toStoreOk
    (w := w.set i ({ · with writing := some n })) rfl
    (by rw [KvWorld.set_kv_self]; exact hw.loading) fun _ _ => trivial
  refine Ends.bind (hfresh.ends hends) ?_ fun _ _ h => by cases h.1.1
  rintro _ w₁ ⟨-, h₁⟩
  obtain ⟨hc, hor⟩ := h₁ _ rfl
  cases h with
  | cached hl hm =>
    rcases hor with ⟨-, hentries⟩ | ⟨hl', -⟩
    · exact finds_tryUpdate hc hv (by rw [cacheLatest, hentries]; exact hm) hsha _
    · exact absurd hl' hl
  | loaded hl hm =>
    rcases hor with ⟨hl', -⟩ | ⟨-, hlisted, hall⟩
    · exact absurd hl hl'
    · obtain ⟨e, he⟩ := isSome_iff_exists.mp (hall k (by rw [hm]; rfl))
      refine finds_tryUpdate hc hv ?_ hsha _
      rw [cacheLatest, he, bind_some, (hlisted k e he).latest]
      exact hm
  | raced hl hr hx htaken hm =>
    rcases hor with ⟨-, hentries⟩ | ⟨hl', -⟩
    · obtain ⟨r, hr⟩ := Nat.exists_eq_succ_of_ne_zero (Nat.ne_of_gt hr)
      rw [hr]
      refine finds_raced hw.toStoreOk hc hv ?_ htaken hm hsha r
      rw [hentries, SwarmKv.footprint, hentries]
      exact hx
    · exact absurd hl' hl

end

/-- A put that gives back its value in every run has found no other value. -/
theorem PutsBack.decodes {g : KvOrg} {o : KvOptions} {i : ι} {n : Nat} {k : Key} {v : V}
    {w : KvWorld ι V} (h : PutsBack g o i n k v w) (hw : AtRest g o i w)
    (hk : check o.collections k = .ok ()) (hv : assertNoRunState v = .ok ()) {m : VersionMeta}
    (hm : Compared g o i k v w m) (hsha : m.sha = kvFingerprint (stableJson v)) :
    Decodes g w k m.seq (KvValue.canon v) := by
  obtain ⟨x, w', ho, doc, rfl, hseq, hc⟩ := (finds_put (n := n) hw hk hv hm hsha).outcome
  obtain ⟨χs, hχs, hrun⟩ := runAlone_of_outcome ho
  obtain ⟨doc', hdoc, -, -, hd⟩ := h χs hχs _ w' hrun
  obtain rfl := some.inj hdoc
  rw [← hseq]
  exact (Decodes.congr hc).mp hd

/-- A put gives back its value exactly where no version it compares the value with has
the value's fingerprint and another value. -/
theorem putsBack_iff_compared {g : KvOrg} {o : KvOptions} {i : ι} {n : Nat} {k : Key} {v : V}
    {w : KvWorld ι V} (hw : AtRest g o i w) (hk : check o.collections k = .ok ())
    (hv : assertNoRunState v = .ok ()) : PutsBack g o i n k v w ↔ ∀ m, Compared g o i k v w m →
      m.sha = kvFingerprint (stableJson v) → Decodes g w k m.seq (KvValue.canon v) := by
  constructor
  · intro h m hm hsha
    exact h.decodes hw hk hv hm hsha
  · intro h χs hχs r w' hrun
    exact (every_put hw h).run hχs hrun

/-! ## JSON documents -/

/-- A put gives back a JSON value, with the keys of its objects in order, exactly where no version
it compares the value with has the value's fingerprint and another value. -/
theorem putsBack_iff {R : NumberReader} {g : KvOrg} {o : KvOptions} {i : ι} {n : Nat} {k : Key}
    {v : JsonValue R} {w : KvWorld ι (JsonValue R)} (hw : AtRest g o i w)
    (hk : check o.collections k = .ok ()) (hv : assertNoRunState v = .ok ()) :
    PutsBack g o i n k v w ↔ ∀ m, Compared g o i k v w m →
      m.sha = kvFingerprint (stableJson v) → Decodes g w k m.seq (KvValue.canon v) :=
  putsBack_iff_compared hw hk hv

/-! ## Two numbers of one fingerprint -/

/-- A number, as the store writes it. -/
def siteNumber : KvConfig :=
  ⟨Base64.toB64 (plainOrg.sealer.sealPlain (stableJson (whole 40189))),
    versionLabels plainOrg siteKey 1 (kvFingerprint (stableJson (whole 40189))) 8, 0⟩

/-- An instance with the one version of a document it has written, and its swarm. -/
def oneVersion : KvWorld Bool (JsonValue wholeNumbers) where
  now := 0
  configs := (∅ : AList _).insert (kvConfigName siteKey 1)
    siteNumber
  created := []
  kv _ := { (SwarmKv.new : SwarmKv (JsonValue wholeNumbers)) with
    entries := (∅ : AList _).insert siteKey ⟨[⟨1, 8, kvFingerprint (stableJson (whole 40189)), 0⟩],
      whole 40189⟩
    loadedAt := some 0 }

theorem oneVersion_configs {name : String} {c : KvConfig}
    (h : oneVersion.configs.lookup name = some c) : name = kvConfigName siteKey 1 ∧
      c = siteNumber := by
  by_cases hn : name = kvConfigName siteKey 1
  · subst hn
    rw [oneVersion, lookup_insert] at h
    exact ⟨rfl, (some.inj h).symm⟩
  · rw [oneVersion, lookup_insert_ne hn] at h
    cases h

theorem oneVersion_entries {b : Bool} {k : Key} {e : Entry (JsonValue wholeNumbers)}
    (h : (oneVersion.kv b).entries.lookup k = some e) :
    k = siteKey ∧ e = ⟨[⟨1, 8, kvFingerprint (stableJson (whole 40189)), 0⟩], whole 40189⟩ := by
  by_cases hk : k = siteKey
  · subst hk
    rw [oneVersion, lookup_insert] at h
    exact ⟨rfl, (some.inj h).symm⟩
  · rw [oneVersion, lookup_insert_ne hk] at h
    cases h

theorem open_oneVersion (k : Key) (s : Nat) :
    openVersion plainOrg k s siteNumber.dataB64 = .ok (whole 40189) :=
  openVersion_seal plainOrg k s (whole 40189)

theorem oneVersion_atRest : AtRest plainOrg .default false oneVersion where
  canonical c hc k m h := by
    obtain ⟨d, hd, he⟩ := mem_listing.mp hc
    obtain ⟨hn, -⟩ := oneVersion_configs hd
    have hp := (listedVersion_eq_some h).2.2.1
    have hparse : parseKvConfigName (kvConfigName siteKey 1) = some (siteKey, 1) := by decide
    rw [hn, hparse, Option.some.injEq, Prod.mk.injEq] at hp
    rw [hn, hp.1, hp.2]
  opens name c k m hc _ := by
    obtain ⟨-, rfl⟩ := oneVersion_configs hc
    exact ⟨whole 40189, open_oneVersion k m.seq⟩
  writing := rfl
  loading := rfl
  sorted k e he := by
    obtain ⟨-, rfl⟩ := oneVersion_entries he
    exact pairwise_singleton _ _
  cached k e m v he hm hd := by
    obtain ⟨-, rfl⟩ := oneVersion_entries he
    obtain ⟨c, hc, hv⟩ := hd
    obtain ⟨-, rfl⟩ := oneVersion_configs hc
    exact (Except.ok.inj ((open_oneVersion k m.seq).symm.trans hv)).symm
  unloaded h := by cases h
  touched k t h := by cases h

theorem oneVersion_latest :
    cacheLatest false oneVersion siteKey =
    some ⟨1, 8, kvFingerprint (stableJson (whole 40189)), 0⟩ := by
  rfl

/-- The value that is there is put again. -/
theorem putsBack_same : PutsBack plainOrg .default false 0 siteKey (whole 40189) oneVersion := by
  refine (putsBack_iff oneVersion_atRest (by decide) rfl).mpr fun m hm _ => ?_
  cases hm with
  | cached hl hm =>
    obtain rfl := some.inj (oneVersion_latest.symm.trans hm)
    exact ⟨_, lookup_insert _, open_oneVersion siteKey 1⟩
  | loaded hl hm => cases hl
  | raced hl hr hx htaken hm =>
    cases hx

/-- 40189 and 797186 have one fingerprint: the put of one over the other resolves, and
nothing is written. -/
theorem not_putsBack : ¬ PutsBack plainOrg .default false 0 siteKey (whole 797186) oneVersion := by
  intro h
  have hl : (oneVersion.kv false).loadedAt ≠ none := fun h => by cases h
  have hsha : kvFingerprint (stableJson (whole 40189)) =
      kvFingerprint (stableJson (whole 797186)) := by decide
  obtain ⟨c, hc, hv⟩ := h.decodes oneVersion_atRest (by decide) rfl
    (.cached hl oneVersion_latest) hsha
  obtain ⟨-, rfl⟩ := oneVersion_configs hc
  have hval := (open_oneVersion siteKey 1).symm.trans hv
  cases hval

end Swarmy.Kv
