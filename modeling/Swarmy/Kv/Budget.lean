import Swarmy.Kv.Footprint

/-!
# swarm-kv: the raft budget

One instance is the only writer of an organisation.  Whenever none of its
operations is under way, `footprint` is what the store holds, and that is within
the budget (`WithinBudget`), provided that a rejected create has left nothing,
that a rejected remove of garbage collection is answered for what it is and fits,
and that no remove of a `delete` is rejected without effect (`budgeted`).

A write works on the cache while it has its turn, and a load that is under way
may end in the middle of it.  What protects the write is that the load keeps the
entries of the keys touched since it began (`Guarded`); what protects the load is
that the write touches a key before it changes what the store has of it.
-/

namespace Swarmy.Kv

open Coop List Option Bool AList Nat

variable {V : Type}

/-! ## The words of the statements -/

/-- Writes of the instance, and the loads they start. -/
def KvJob.Writes : KvJob Unit V → Prop
  | .get _ _ | .refresh _ => False
  | .getVersion _ _ _ | .put _ _ _ | .update _ _ _ | .delete _ _ | .revert _ _ _
  | .importAll _ _ | .background _ => True

/-- Is the operation a delete? -/
def KvJob.deletes : KvJob Unit V → Bool
  | .delete _ _ => true
  | _ => false

/-- How a remove of the version `s` of the key, which is in the store, may be
answered to the operation: for a `delete` it takes effect; garbage collection
learns whether it has, and what it has still to remove makes up for a version that
stays. -/
def Accounted (g : KvOrg) (o : KvOptions) (w : KvWorld Unit V) (k : Key) (s : Nat)
    (j : KvJob Unit V) : KvChoice → Prop
  | .ok => True
  | .lost e => j.deletes = true ∨ isNotFound e = true
  | .reject e => j.deletes = false ∧ isNotFound e = false ∧
      w.stored g ≤ o.maxTotalBytes + sumBytes (laterDrops g o w k s)

/-- Nothing is under way, and the cache knows what the store holds, which is within
the budget: a new instance where the store has nothing of the organisation, or one
that has loaded what is there. -/
structure InSync (g : KvOrg) (o : KvOptions) (w : KvWorld Unit V) : Prop where
  tidy : Tidy g o w
  known : ∀ k, Lists g w k (versionsIn (w.kv ()).entries k)
  fits : w.stored g ≤ o.maxTotalBytes
  loading : (w.kv ()).loading = none
  loader : (w.kv ()).loader = none
  spawned : (w.kv ()).spawned = none
  writing : (w.kv ()).writing = none

section

variable [KvValue V]

/-- Creates and removes may be rejected, without effect; every other call is answered. -/
def onlyWriter (g : KvOrg) (o : KvOptions) : Allow (kvSystem (V := V) g fun _ : Unit => o) where
  start j _ := KvJob.Writes j
  resume _ χ c _ := match c with
    | .list _ | .read _ _ => χ = .ok
    | .create _ _ _ _ | .remove _ _ => ∀ e, χ ≠ .lost e
    | _ => True
  env _ _ := True

/-- A create that is rejected has left nothing, and every remove is accounted for. -/
def budgeted (g : KvOrg) (o : KvOptions) : Allow (kvSystem (V := V) g fun _ : Unit => o) where
  start j _ := KvJob.Writes j
  resume j χ c w := match c with
    | .list _ | .read _ _ => χ = .ok
    | .create _ name _ _ => w.configs.lookup name = none → ∀ e, χ ≠ .lost e
    | .remove _ name => ∀ k s b, name = kvConfigName k s → Holding g w k s b →
        Accounted g o w k s j χ
    | _ => True
  env _ _ := True

/-- Every operation has returned or thrown; loads in the background may be under way. -/
def Settled {g : KvOrg} {o : KvOptions} (c : (kvSystem (V := V) g fun _ : Unit => o).Config) :
    Prop :=
  ∀ (n : Nat) (j : KvJob Unit V) (p : KvProg Unit V (KvResult V)),
    c.pool[n]? = some (j, p) → j = .background () ∨ p.ended.isSome

/-- Along the moves that `A` allows, after every operation the footprint is what the
store holds of the organisation, and it is within the budget. -/
def WithinBudget (g : KvOrg) (o : KvOptions) (A : Allow (kvSystem (V := V) g fun _ : Unit => o)) :
    Prop :=
  ∀ (w₀ : KvWorld Unit V) (c : (kvSystem (V := V) g fun _ : Unit => o).Config), InSync g o w₀ →
    System.Reach A.move ⟨w₀, []⟩ c → Settled c →
    (c.world.kv ()).footprint = c.world.stored g ∧ c.world.stored g ≤ o.maxTotalBytes

end

namespace Budget

/-! ## The invariant -/

/-- The cache has the versions of the key right. -/
def Known (g : KvOrg) (w : KvWorld Unit V) (k : Key) : Prop :=
  Lists g w k (versionsIn (w.kv ()).entries k)

/-- A load under way keeps what the cache has of the key. -/
def Guarded (w : KvWorld Unit V) (k : Key) : Prop :=
  ∀ sg, (w.kv ()).loading = some sg → (w.kv ()).TouchedAfter sg k

/-- The store has the same versions of the key. -/
def SameOf (g : KvOrg) (w w' : KvWorld Unit V) (k : Key) : Prop :=
  ∀ s b, Holding g w' k s b ↔ Holding g w k s b

/-- The cache is right, and the store is within the budget. -/
structure Calm (g : KvOrg) (o : KvOptions) (w : KvWorld Unit V) : Prop where
  known : ∀ k, Known g w k
  fits : w.stored g ≤ o.maxTotalBytes

/-- What holds whenever every task is suspended. -/
structure Inv (g : KvOrg) (o : KvOptions) (w : KvWorld Unit V) : Prop where
  tidy : Tidy g o w
  loading : ∀ sg, (w.kv ()).loading = some sg → sg ≤ (w.kv ()).gen
  spawned : ∀ sg, (w.kv ()).spawned = some sg →
    (w.kv ()).loading = some sg ∧ (w.kv ()).loader = none
  idle : (w.kv ()).loading = none → (w.kv ()).loader = none
  calm : (w.kv ()).writing = none → Calm g o w

/-- What the write whose turn it is relies on. -/
structure Turn (g : KvOrg) (w w' : KvWorld Unit V) : Prop where
  configs : w'.configs = w.configs
  known : ∀ k, Known g w k → Known g w' k
  guarded : ∀ k, Guarded w k → Guarded w' k

/-- What the load under way relies on. -/
structure Load (g : KvOrg) (w w' : KvWorld Unit V) : Prop where
  loading : (w'.kv ()).loading = (w.kv ()).loading
  guarded : ∀ k, Guarded w k → Guarded w' k
  same : ∀ k, Guarded w' k ∨ SameOf g w w' k

/-- What task `n` relies on. -/
structure Rely (g : KvOrg) (n : Nat) (w w' : KvWorld Unit V) : Prop where
  turn : (w.kv ()).writing = some n → (w'.kv ()).writing = some n ∧ Turn g w w'
  load : (w.kv ()).loader = some n → (w'.kv ()).loader = some n ∧ Load g w w'
  noTurn : (w.kv ()).writing ≠ some n → (w'.kv ()).writing ≠ some n
  noLoad : (w.kv ()).loader ≠ some n → (w'.kv ()).loader ≠ some n

/-- A move of task `n`; a load in the background never has a turn. -/
structure Step (g : KvOrg) (o : KvOptions) (n : Nat) (j : KvJob Unit V) (w w' : KvWorld Unit V) :
    Prop where
  inv : Inv g o w'
  others : ∀ m, m ≠ n → Rely g m w w'
  noTurn : j = .background () → (w.kv ()).writing ≠ some n → (w'.kv ()).writing ≠ some n

section

variable {g : KvOrg} {o : KvOptions} {n : Nat} {j : KvJob Unit V} {w w' w'' : KvWorld Unit V}

theorem Turn.refl (w : KvWorld Unit V) : Turn g w w := ⟨rfl, fun _ h => h, fun _ h => h⟩

theorem Turn.trans (h : Turn g w w') (h' : Turn g w' w'') : Turn g w w'' :=
  ⟨h'.configs.trans h.configs, fun k hk => h'.known k (h.known k hk),
    fun k hk => h'.guarded k (h.guarded k hk)⟩

theorem Load.refl (w : KvWorld Unit V) : Load g w w :=
  ⟨rfl, fun _ h => h, fun _ => .inr fun _ _ => Iff.rfl⟩

theorem Load.trans (h : Load g w w') (h' : Load g w' w'') : Load g w w'' where
  loading := h'.loading.trans h.loading
  guarded k hk := h'.guarded k (h.guarded k hk)
  same k := by
    rcases h'.same k with h'' | h''
    · exact .inl h''
    rcases h.same k with hg | hs
    · exact .inl (h'.guarded k hg)
    · exact .inr fun s b => (h'' s b).trans (hs s b)

theorem Rely.refl (w : KvWorld Unit V) : Rely g n w w :=
  ⟨fun h => ⟨h, .refl w⟩, fun h => ⟨h, .refl w⟩, fun h => h, fun h => h⟩

theorem Rely.trans (w w' w'' : KvWorld Unit V) (h : Rely g n w w') (h' : Rely g n w' w'') :
    Rely g n w w'' where
  turn hw := by
    obtain ⟨hw', ht⟩ := h.turn hw
    obtain ⟨hw'', ht'⟩ := h'.turn hw'
    exact ⟨hw'', ht.trans ht'⟩
  load hw := by
    obtain ⟨hw', hl⟩ := h.load hw
    obtain ⟨hw'', hl'⟩ := h'.load hw'
    exact ⟨hw'', hl.trans hl'⟩
  noTurn hw := h'.noTurn (h.noTurn hw)
  noLoad hw := h'.noLoad (h.noLoad hw)

theorem Step.refl (h : Inv g o w) : Step g o n j w w := ⟨h, fun _ _ => .refl w, fun _ h => h⟩

theorem Step.trans (h : Step g o n j w w') (h' : Step g o n j w' w'') : Step g o n j w w'' :=
  ⟨h'.inv, fun m hm => (h.others m hm).trans _ _ _ (h'.others m hm),
    fun hj hw => h'.noTurn hj (h.noTurn hj hw)⟩

theorem SameOf.of_configs (h : w'.configs = w.configs) (k : Key) : SameOf g w w' k :=
  fun _ _ => Holding.congr h

theorem stored_congr (h : w'.configs = w.configs) : w'.stored g = w.stored g := by
  rw [KvWorld.stored, h, KvWorld.stored]

theorem Tidy.congr (h : w'.configs = w.configs) (ht : Tidy g o w) : Tidy g o w' := by
  rwa [Tidy, h]

theorem Known.congr {k : Key} (h : Known g w k) (hs : SameOf g w w' k)
    (he : versionsIn (w'.kv ()).entries k = versionsIn (w.kv ()).entries k) : Known g w' k := by
  rw [Known, he]
  exact Lists.congr h hs

theorem Guarded.congr {k : Key} (h : Guarded w k) (hl : (w'.kv ()).loading = (w.kv ()).loading)
    (ht : (w'.kv ()).touched = (w.kv ()).touched) : Guarded w' k := by
  simpa only [Guarded, SwarmKv.TouchedAfter, hl, ht] using h

theorem Calm.of_turn (h : Calm g o w) (ht : Turn g w w') : Calm g o w' :=
  ⟨fun k => ht.known k (h.known k), by rw [stored_congr ht.configs]; exact h.fits⟩

/-- The store and the cache together give the footprint. -/
theorem Calm.footprint (h : Calm g o w) (ht : Tidy g o w) :
    (w.kv ()).footprint = w.stored g := footprint_eq_stored ht h.known

/-! ## What single steps do -/

/-- The fields that say what is under way are the same, and the generation has not
gone back. -/
structure SameTasks (s s' : SwarmKv V) : Prop where
  loading : s'.loading = s.loading
  loader : s'.loader = s.loader
  spawned : s'.spawned = s.spawned
  writing : s'.writing = s.writing
  gen : s.gen ≤ s'.gen

/-- A task has its turn, and a load under way can do with what it has done. -/
theorem Step.of_turn (h : Inv g o w) (hn : (w.kv ()).writing = some n) (ht : Tidy g o w')
    (hs : SameTasks (w.kv ()) (w'.kv ())) (hg : ∀ k, Guarded w k → Guarded w' k)
    (hk : ∀ k, Guarded w' k ∨ SameOf g w w' k) : Step g o n j w w' := by
  refine ⟨⟨ht, fun sg hsg => ?_, fun sg hsg => ?_, fun hl => ?_, fun hw => ?_⟩,
    fun m hm => ⟨fun hw => ?_, fun hl => ?_, fun _ => ?_, fun hl => ?_⟩, fun _ hw => absurd hn hw⟩
  · exact le_trans (h.loading sg (hs.loading ▸ hsg)) hs.gen
  · rw [hs.loading, hs.loader]
    exact h.spawned sg (hs.spawned ▸ hsg)
  · rw [hs.loader]
    exact h.idle (hs.loading ▸ hl)
  · rw [hs.writing, hn] at hw
    cases hw
  · exact absurd (some.inj (hn.symm.trans hw)).symm hm
  · exact ⟨by rw [hs.loader, hl], hs.loading, hg, hk⟩
  · rw [hs.writing, hn]
    exact fun he => hm (some.inj he).symm
  · rwa [hs.loader]

/-- A task takes its turn, or gives it back. -/
theorem Step.of_writing (h : Inv g o w) (hj : j ≠ .background ()) {x : Option Nat}
    (hfree : (w.kv ()).writing = none ∨ (w.kv ()).writing = some n) (hx : x = none ∨ x = some n)
    (hcalm : x = none → Calm g o w) : Step g o n j w (w.set () ({ · with writing := x })) := by
  refine ⟨⟨Tidy.congr rfl h.tidy, ?_, ?_, ?_, fun hw => ?_⟩, fun m hm => ⟨fun hw => ?_, ?_, ?_, ?_⟩,
    fun he => absurd he hj⟩
  · simpa using h.loading
  · simpa using h.spawned
  · simpa using h.idle
  · exact ⟨fun k => ((hcalm hw).known k).congr (.of_configs rfl k) (by simp), (hcalm hw).fits⟩
  · rcases hfree with hf | hf
    · rw [hf] at hw
      cases hw
    · exact absurd (some.inj (hf.symm.trans hw)).symm hm
  · intro hl
    exact ⟨by simpa using hl, by simp, fun k hk => hk.congr (by simp) (by simp),
      fun k => .inr (.of_configs rfl k)⟩
  · rintro - hw
    obtain hx | hx := hx
    · rw [hx] at hw
      cases hw
    · rw [hx] at hw
      exact hm (some.inj hw).symm
  · simp

/-- The task that has its turn begins a load, itself or in the background, where
none is under way. -/
theorem Step.of_begin (h : Inv g o w) (hl : (w.kv ()).loading = none)
    (hw : (w.kv ()).writing = some n) (hc : w'.configs = w.configs)
    (hw' : (w'.kv ()).writing = some n) (hg : (w'.kv ()).gen = (w.kv ()).gen)
    (hl' : (w'.kv ()).loading = some (w.kv ()).gen)
    (hx : (w'.kv ()).loader = none ∧ (w'.kv ()).spawned = some (w.kv ()).gen ∨
      (w'.kv ()).loader = some n ∧ (w'.kv ()).spawned = none) : Step g o n j w w' := by
  refine ⟨⟨Tidy.congr hc h.tidy, fun sg hsg => ?_, fun sg hsg => ?_, fun he => ?_, fun he => ?_⟩,
    fun m hm => ⟨fun he => ?_, fun he => ?_, fun _ he => ?_, fun _ he => ?_⟩,
      fun _ he => absurd hw he⟩
  · rw [hl', Option.some.injEq] at hsg
    omega
  · obtain ⟨hx, hsp⟩ | ⟨_, hsp⟩ := hx
    · exact ⟨by rw [hl', ← hsp, hsg], hx⟩
    · rw [hsp] at hsg
      cases hsg
  · rw [hl'] at he
    cases he
  · rw [hw'] at he
    cases he
  · exact absurd (some.inj (hw.symm.trans he)).symm hm
  · rw [h.idle hl] at he
    cases he
  · exact absurd (some.inj (hw'.symm.trans he)).symm hm
  · obtain ⟨hx, _⟩ | ⟨hx, _⟩ := hx
    · rw [hx] at he
      cases he
    · exact hm (some.inj (hx.symm.trans he)).symm

/-- The task of a load that has begun in the background takes it over. -/
theorem Step.of_background (h : Inv g o w) {sg : Nat} (hs : (w.kv ()).spawned = some sg) :
    Step g o n j w (w.set () ({ · with spawned := none, loader := some n })) := by
  obtain ⟨hl, hlo⟩ := h.spawned sg hs
  refine ⟨⟨Tidy.congr rfl h.tidy, ?_, ?_, fun he => ?_, fun he => ?_⟩,
    fun m hm => ⟨fun he => ?_, fun he => ?_, ?_, fun _ he => ?_⟩, fun _ he => by simpa using he⟩
  · simpa using h.loading
  · simp
  · rw [KvWorld.set_kv_self] at he
    rw [hl] at he
    cases he
  · have hc := h.calm he
    exact ⟨fun k => (hc.known k).congr (.of_configs rfl k) (by simp), hc.fits⟩
  · exact ⟨by simpa using he, rfl, fun k hk => hk.congr (.of_configs rfl k) (by simp),
      fun k hk => hk.congr (by simp) (by simp)⟩
  · rw [hlo] at he
    cases he
  · simp
  · exact hm (some.inj he).symm

/-- A load ends; what the cache had right it still has right. -/
theorem Step.of_end (h : Inv g o w) (hn : (w.kv ()).loader = some n) (hc : w'.configs = w.configs)
    (hk : ∀ k, Known g w k → Known g w' k) (hl : (w'.kv ()).loading = none)
    (hlo : (w'.kv ()).loader = none) (hsp : (w'.kv ()).spawned = (w.kv ()).spawned)
    (hw : (w'.kv ()).writing = (w.kv ()).writing) : Step g o n j w w' := by
  have hguard : ∀ k, Guarded w' k := fun k sg hsg => by
    rw [hl] at hsg
    cases hsg
  refine ⟨⟨Tidy.congr hc h.tidy, fun sg hsg => ?_, fun sg hsg => ?_, fun _ => hlo, fun he => ?_⟩,
    fun m hm => ⟨fun he => ?_, fun he => ?_, fun he => ?_, fun _ => ?_⟩, fun _ he => hw ▸ he⟩
  · rw [hl] at hsg
    cases hsg
  · rw [hsp] at hsg
    rw [(h.spawned sg hsg).2] at hn
    cases hn
  · rw [hw] at he
    have hcalm := h.calm he
    exact ⟨fun k => hk k (hcalm.known k), by rw [stored_congr hc]; exact hcalm.fits⟩
  · exact ⟨by rw [hw, he], hc, hk, fun k _ => hguard k⟩
  · exact absurd (some.inj (hn.symm.trans he)).symm hm
  · rwa [hw]
  · rw [hlo]
    exact fun he => by cases he

end

/-! ## Loads -/

section

variable [KvValue V] {g : KvOrg} {o : KvOptions} {n : Nat} {j : KvJob Unit V} {k : Key}
  {w w' : KvWorld Unit V} {α : Type}

/-- From `w` on, the program does nothing that others see, and returns `P`. -/
abbrev Quiet (g : KvOrg) (o : KvOptions) (n : Nat) (j : KvJob Unit V)
    (P : α → KvWorld Unit V → Prop) (p : KvProg Unit V α) (w : KvWorld Unit V) : Prop :=
  Keeps kvExec ((budgeted g o).resume j) (Inv g o) (Rely g n) (Step g o n j) P p w

/-- From `w` on, the program respects what others rely on, and ends with `P`. -/
abbrev Does (g : KvOrg) (o : KvOptions) (n : Nat) (j : KvJob Unit V)
    (P : Except KvException α → KvWorld Unit V → Prop) (p : KvProg Unit V α)
    (w : KvWorld Unit V) : Prop :=
  Meets kvExec ((budgeted g o).resume j) (Inv g o) (Rely g n) (Step g o n j) P p w

theorem quiet_driverList : Quiet g o n j (fun all w' => all = w'.listing) (driverList ()) w := by
  refine .call Rely.trans fun w₁ hI _ χ r w₂ hok he => ?_
  obtain rfl : χ = .ok := hok
  obtain ⟨rfl, rfl⟩ := Prod.mk.inj (some.inj he)
  exact ⟨.refl hI, .refl _, .ret Rely.refl rfl⟩

theorem quiet_listMine :
    Quiet g o n j (fun L w' => L = groupVersions g o w'.listing) (listMine g o ()) w :=
  .bind Rely.trans quiet_driverList fun _ _ _ h => .ret Rely.refl (by rw [h])

theorem quiet_readVersion {seq : Nat} :
    Quiet g o n j (fun _ _ => True) (readVersion g () k seq) w := by
  refine .bind (P := fun _ _ => True) Rely.trans ?_ fun d w₁ _ _ =>
    .ofExcept Rely.refl fun _ _ => trivial
  refine .call Rely.trans fun w₁ hI _ χ r w₂ hok he => ?_
  obtain rfl : χ = .ok := hok
  obtain ⟨_, rfl⟩ := Prod.mk.inj (some.inj he)
  exact ⟨.refl hI, .refl _, .ofExcept Rely.refl fun _ _ => trivial⟩

theorem quiet_pause : Quiet g o n j (fun _ _ => True) (pause ()) w := by
  refine .call Rely.trans fun w₁ hI _ χ r w₂ _ he => ?_
  obtain ⟨rfl, rfl⟩ := Prod.mk.inj (some.inj he)
  exact ⟨.refl hI, .refl _, .ret Rely.refl trivial⟩

/-- What is pulled has the versions that are listed. -/
theorem quiet_pull {L : List (Key × List VersionMeta)} (hL : (L.map (·.1)).Nodup)
    {next : AList fun _ : Key => Entry V} (hnext : ∀ k ∈ L.map (·.1), versionsIn next k = []) :
    Quiet g o n j (fun next' _ => ∀ k, versionsIn next' k =
      if k ∈ L.map (·.1) then listedIn L k else versionsIn next k) (pull g () next L) w := by
  induction L generalizing next w with
  | nil => exact .ret Rely.refl fun k => by simp
  | cons kv L ih =>
    obtain ⟨k₀, versions⟩ := kv
    rw [map_cons, nodup_cons] at hL
    have hother : ∀ k, k ≠ k₀ → listedIn ((k₀, versions) :: L) k = listedIn L k := fun k hk => by
      rw [listedIn, lookup_cons, beq_eq_false_iff_ne.mpr hk, listedIn]
    have hself : listedIn ((k₀, versions) :: L) k₀ = versions := by simp [listedIn]
    -- The rest of the list does not mention the key again.
    have hrest : ∀ {next' : AList fun _ : Key => Entry V} {w'}, versionsIn next' k₀ = versions →
        (∀ k, k ≠ k₀ → versionsIn next' k = versionsIn next k) →
        Quiet g o n j (fun next' _ => ∀ k, versionsIn next' k =
          if k ∈ ((k₀, versions) :: L).map (·.1) then listedIn ((k₀, versions) :: L) k
          else versionsIn next k) (pull g () next' L) w' := by
      intro next' w' h₀ hne
      have hnone : ∀ k ∈ L.map (·.1), versionsIn next' k = [] := by
        intro k hk
        have hk₀ : k ≠ k₀ := fun he => hL.1 (he ▸ hk)
        rw [hne k hk₀]
        exact hnext k (mem_cons_of_mem _ hk)
      refine (ih hL.2 hnone).mono fun next'' _ _ h k => ?_
      rw [h k]
      by_cases hk : k = k₀
      · subst hk
        rw [if_neg hL.1, if_pos (by simp), h₀, hself]
      · rw [hne k hk, hother k hk]
        exact if_congr (by simp [hk]) rfl rfl
    have hread : ∀ {s w'}, Quiet g o n j (fun next' _ => ∀ k, versionsIn next' k =
          if k ∈ ((k₀, versions) :: L).map (·.1) then listedIn ((k₀, versions) :: L) k
          else versionsIn next k) ((readVersion g () k₀ s).bind fun v =>
            pull g () (next.insert k₀ ⟨versions, v⟩) L) w' := fun {s w'} =>
      .bind Rely.trans quiet_readVersion fun v _ _ _ =>
        hrest (versionsIn_insert _ _ _) fun k hk => versionsIn_insert_ne hk _
    refine .bind (P := fun _ _ => True) Rely.trans (.read Rely.refl trivial) ?_
    intro cur w₁ _ _
    split
    · rename_i hlast
      obtain rfl : versions = [] := List.getLast?_eq_none_iff.mp hlast
      exact hrest (hnext k₀ mem_cons_self) fun _ _ => rfl
    · split
      · split
        · exact hrest (versionsIn_insert _ _ _) fun k hk => versionsIn_insert_ne hk _
        · exact hread
      · exact hread

omit [KvValue V] in
theorem listedIn_of_not_mem {L : List (Key × List VersionMeta)} (h : k ∉ L.map (·.1)) :
    listedIn L k = [] := by
  rw [listedIn, lookup_eq_none_iff.mpr, getD_none]
  rintro ⟨k', vs⟩ hp
  rw [bne_iff_ne]
  rintro rfl
  exact h (mem_map.mpr ⟨_, hp, rfl⟩)

omit [KvValue V] in
theorem nodup_groupVersions {all : List KvConfigInfo} :
    ((groupVersions g o all).map (·.1)).Nodup := by
  rw [groupVersions, List.map_map]
  exact (List.map_id _).symm ▸ List.nodup_dedup ((all.filterMap (listedVersion g o)).map (·.1))

/-- What a load pulls are the versions in the store, except for keys that have been
touched meanwhile. -/
theorem quiet_pullListed (ht : Tidy g o w) (hn : (w.kv ()).loader = some n) :
    Quiet g o n j (fun next w' => ∀ k, Guarded w' k ∨ Lists g w' k (versionsIn next k))
      (pull g () ∅ (groupVersions g o w.listing)) w := by
  refine (quiet_pull nodup_groupVersions fun _ _ => rfl).mono fun next w' hw hnext k => ?_
  refine ((hw.load hn).2.same k).imp_right fun hsame => ?_
  have hk : versionsIn next k = listedIn (groupVersions g o w.listing) k := by
    rw [hnext k]
    split
    · rfl
    · rename_i hk
      rw [listedIn_of_not_mem hk]
      rfl
  exact hk ▸ (ht.lists k).congr hsame

/-- What task `n` knows of the end of its load. -/
structure Loaded (g : KvOrg) (n : Nat) (w w' : KvWorld Unit V) : Prop where
  loader : (w'.kv ()).loader ≠ some n
  turn : (w.kv ()).writing = some n → (w'.kv ()).writing = some n ∧ Turn g w w'
  noTurn : (w.kv ()).writing ≠ some n → (w'.kv ()).writing ≠ some n

omit [KvValue V] in
/-- The last segment of a load. -/
theorem Step.loaded {w₀ : KvWorld Unit V} (h₀ : Step g o n j w₀ w) (hn : (w.kv ()).loader = some n)
    (hc : w'.configs = w.configs) (hk : ∀ k, Known g w k → Known g w' k)
    (hl : (w'.kv ()).loading = none) (hlo : (w'.kv ()).loader = none)
    (hsp : (w'.kv ()).spawned = (w.kv ()).spawned) (hw : (w'.kv ()).writing = (w.kv ()).writing)
    {w₁ : KvWorld Unit V} (hr : Rely g n w₁ w) : Step g o n j w₀ w' ∧ Loaded g n w₁ w' := by
  refine ⟨h₀.trans (.of_end h₀.inv hn hc hk hl hlo hsp hw), by rw [hlo]; simp, fun he => ?_,
    fun he => hw ▸ hr.noTurn he⟩
  obtain ⟨he', ht⟩ := hr.turn he
  refine ⟨hw.trans he', ht.trans ⟨hc, hk, fun k _ sg hsg => ?_⟩⟩
  rw [hl] at hsg
  cases hsg

theorem does_load {sg : Nat} (hl : (w.kv ()).loading = some sg) (hn : (w.kv ()).loader = some n) :
    Does g o n j (fun _ w' => Loaded g n w w') (load g o () sg) w := by
  intro w₀ h₀
  refine Safe.handle (fun _ w₀' w' => Step g o n j w₀' w' ∧ Rely g n w w') ?_ ?_
  · refine Safe.bind (fun _ w₀' w' => ∃ w₁ next, Step g o n j w₀' w₁ ∧ Rely g n w w₁ ∧
      (∀ k, Guarded w₁ k ∨ Lists g w₁ k (versionsIn next k)) ∧
      w' = w₁.set () fun s => { s with
        entries := s.keepTouched sg next, touched := ∅, loadedAt := some w₁.now }) ?_ ?_
    · refine Safe.bind (fun L w₀' w' => Step g o n j w₀' w' ∧ Rely g n w w' ∧
        L = groupVersions g o w'.listing) ((quiet_listMine w₀ h₀).mono ?_) ?_
      · rintro (_ | L) w₀' w' ⟨hs, hr, hL⟩
        · exact ⟨hs, hr⟩
        · exact ⟨hs, hr, hL L rfl⟩
      · rintro _ w₀' w₁ ⟨hs, hr, rfl⟩
        refine Safe.bind (fun next w₀' w' => Step g o n j w₀' w' ∧ Rely g n w w' ∧
          ∀ k, Guarded w' k ∨ Lists g w' k (versionsIn next k))
          ((quiet_pullListed hs.inv.tidy (hr.load hn).1 w₀' hs).mono ?_) ?_
        · rintro (_ | next) w₀'' w' ⟨hs', hr', hnext⟩
          · exact ⟨hs', hr.trans _ _ _ hr'⟩
          · exact ⟨hs', hr.trans _ _ _ hr', hnext next rfl⟩
        · rintro next w₀'' w₂ ⟨hs', hr', hnext⟩
          exact ⟨w₂, next, hs', hr', hnext, rfl⟩
    · rintro - w₀' _ ⟨w₁, next, hs, hr, hnext, rfl⟩
      obtain ⟨hn₁, hl₁⟩ := hr.load hn
      have hl₁ := hl₁.loading.trans hl
      refine hs.loaded hn₁ (by rfl) (fun k hk => ?_) (by rfl) (by rfl) (by rfl) (by rfl) hr
      have hmerged : versionsIn ((w₁.kv ()).keepTouched sg next) k =
          versionsIn (w₁.kv ()).entries k ∨
          ¬ (w₁.kv ()).TouchedAfter sg k ∧
            versionsIn ((w₁.kv ()).keepTouched sg next) k = versionsIn next k := by
        obtain ⟨_, h⟩ | ⟨ht, h⟩ := lookup_keepTouched (w₁.kv ()) sg next k
        · exact .inl (by rw [versionsIn, h, versionsIn])
        · exact .inr ⟨ht, by rw [versionsIn, h, versionsIn]⟩
      obtain h | ⟨ht, h⟩ := hmerged
      · exact hk.congr (.of_configs rfl k) h
      · obtain hg | hlists := hnext k
        · exact absurd (hg sg hl₁) ht
        · rw [← h] at hlists
          exact hlists.congr (SameOf.of_configs rfl k)
  · rintro e w₀' w' ⟨hs, hr⟩
    refine hs.loaded (hr.load hn).1 (by rfl) (fun k hk => ?_) (by rfl) (by rfl) (by rfl) (by rfl) hr
    exact hk.congr (.of_configs rfl k) rfl

end

/-! ## Writes -/

/-- Task `n` has its turn, and is between two changes. -/
structure Mine (g : KvOrg) (o : KvOptions) (n : Nat) (w : KvWorld Unit V) : Prop where
  turn : (w.kv ()).writing = some n
  noLoad : (w.kv ()).loader ≠ some n
  calm : Calm g o w

section

variable [KvValue V] {g : KvOrg} {o : KvOptions} {n : Nat} {j : KvJob Unit V} {k : Key}
  {w w' : KvWorld Unit V} {α : Type}

omit [KvValue V] in
theorem Mine.rely (h : Mine g o n w) (hr : Rely g n w w') : Mine g o n w' := by
  obtain ⟨hw, ht⟩ := hr.turn h.turn
  exact ⟨hw, hr.noLoad h.noLoad, h.calm.of_turn ht⟩

/-- The invariant may be used. -/
theorem does_inv {P : Except KvException α → KvWorld Unit V → Prop} {p : KvProg Unit V α}
    (h : Inv g o w → Does g o n j P p w) : Does g o n j P p w :=
  .of_guar fun _ hg => h hg.inv

theorem does_setSelf {f : SwarmKv V → SwarmKv V}
    {P : Except KvException Unit → KvWorld Unit V → Prop}
    (hs : Step g o n j w (w.set () f)) (hP : P (.ok ()) (w.set () f)) :
    Does g o n j P (setSelf () f) w :=
  .act (fun _ h => h.trans hs) (.ret hP)

theorem does_read {f : KvWorld Unit V → α} {P : Except KvException α → KvWorld Unit V → Prop}
    (hP : P (.ok (f w)) w) : Does g o n j P (.read f) w :=
  .act (fun _ h => h) (.ret hP)

theorem does_ofExcept {x : Except KvException α} {P : Except KvException α → KvWorld Unit V → Prop}
    (hP : P x w) : Does g o n j P (.ofExcept x) w := by
  cases x with
  | ok a => exact .ret hP
  | error e => exact .raise hP

theorem does_refresh (h : Mine g o n w) :
    Does g o n j (fun _ w' => Mine g o n w') (refresh g o () n) w := by
  refine does_inv fun hI => ?_
  refine .bind (P := fun x w' => x = .ok (w.kv ()).loading.isSome ∧
    w' = w) (does_read ⟨rfl, rfl⟩) ?_
    fun e w' h => by cases h.1
  rintro _ w ⟨he, rfl⟩
  obtain rfl := Except.ok.inj he
  split
  · refine .call fun w₁ hI₁ hr χ r w₂ _ he => ?_
    simp only [kvExec] at he
    split at he
    · cases he
    · obtain ⟨rfl, rfl⟩ := Prod.mk.inj (some.inj he)
      exact ⟨.refl hI₁, does_ofExcept (h.rely hr)⟩
  · rename_i hl
    rw [not_eq_true, isSome_eq_false_iff, isNone_iff_eq_none] at hl
    have hsp : (w.kv ()).spawned = none := by
      by_contra hne
      obtain ⟨sg, hsg⟩ := ne_none_iff_exists'.mp hne
      rw [(hI.spawned sg hsg).1] at hl
      cases hl
    refine .bind (P := fun x w' => x = .ok (w.kv ()).gen ∧ w' = w) (does_read ⟨rfl, rfl⟩) ?_
      fun e w' h => by cases h.1
    rintro _ w ⟨he, rfl⟩
    obtain rfl := Except.ok.inj he
    refine .act (fun _ h₀ => h₀.trans (.of_begin hI hl h.turn (by rfl) (by exact h.turn) (by rfl)
      (by rfl) (.inr ⟨by rfl, by exact hsp⟩))) ?_
    refine Meets.mono (fun x w' hw => ?_) (does_load (by rfl) (by rfl))
    obtain ⟨hturn, ht⟩ := hw.turn h.turn
    refine ⟨hturn, hw.loader, Calm.of_turn ?_ ht⟩
    exact ⟨fun k => (h.calm.known k).congr (.of_configs rfl k) rfl, h.calm.fits⟩

theorem does_ensureFresh (h : Mine g o n w) :
    Does g o n j (fun _ w' => Mine g o n w') (ensureFresh g o () n) w := by
  refine does_inv fun hI => ?_
  refine .bind (P := fun x w' => x = .ok (w.kv ()).loadedAt ∧ w' = w) (does_read ⟨rfl, rfl⟩) ?_
    fun e w' h => by cases h.1
  rintro _ w ⟨he, rfl⟩
  obtain rfl := Except.ok.inj he
  cases (w.kv ()).loadedAt with
  | none => exact does_refresh h
  | some loadedAt =>
    by_cases hc : loadedAt + o.refreshMs ≤ w.now ∧ (w.kv ()).loading = none
    · have hsp : ((w.set () (·.spawn o loadedAt w.now)).kv ()) =
          { w.kv () with loading := some (w.kv ()).gen, spawned := some (w.kv ()).gen } := by
        rw [KvWorld.set_kv_self, SwarmKv.spawn, if_pos hc]
      refine .act (fun _ h₀ => h₀.trans (.of_begin hI hc.2 h.turn rfl ?_ ?_ ?_ (.inl ⟨?_, ?_⟩)))
        (.ret ⟨?_, ?_, ⟨fun k => (h.calm.known k).congr (.of_configs rfl k) ?_, h.calm.fits⟩⟩)
      all_goals rw [hsp]
      · exact h.turn
      · exact hI.idle hc.2
      · exact h.turn
      · exact h.noLoad
    · have hsp : w.set () (·.spawn o loadedAt w.now) = w := by
        simp only [KvWorld.set, SwarmKv.spawn, if_neg hc, Function.update_eq_self]
      exact .act (fun _ h₀ => by rwa [hsp]) (.ret (by rwa [hsp]))

omit [KvValue V] in
theorem guarded_touch (h : ∀ sg, (w.kv ()).loading = some sg → sg ≤ (w.kv ()).gen) (k : Key) :
    Guarded (w.set () (·.touch k)) k := by
  intro sg hsg
  refine ⟨(w.kv ()).gen + 1, ?_, lt_succ_of_le (h sg hsg)⟩
  rw [KvWorld.set_kv_self, SwarmKv.touch, lookup_insert]

omit [KvValue V] in
/-- Touching a key takes the guard from none. -/
theorem Guarded.touch (h : ∀ sg, (w.kv ()).loading = some sg → sg ≤ (w.kv ()).gen) {k' : Key}
    (hk' : Guarded w k') (k : Key) : Guarded (w.set () (·.touch k)) k' := by
  by_cases hk : k' = k
  · exact hk ▸ guarded_touch h k
  · intro sg hsg
    obtain ⟨t, ht, hlt⟩ := hk' sg hsg
    refine ⟨t, ?_, hlt⟩
    rw [KvWorld.set_kv_self, SwarmKv.touch, lookup_insert_ne hk, ht]

omit [KvValue V] in
theorem Step.of_touch (h : Inv g o w) (hn : (w.kv ()).writing = some n) (k : Key) :
    Step g o n j w (w.set () (·.touch k)) := by
  refine .of_turn h hn (Tidy.congr rfl h.tidy) ⟨rfl, rfl, rfl, rfl, le_succ _⟩
    (fun k' hk' => hk'.touch h.loading k) fun k' => .inr (.of_configs rfl k')

omit [KvValue V] in
theorem Mine.touch (h : Mine g o n w) (k : Key) : Mine g o n (w.set () (·.touch k)) :=
  ⟨h.turn, h.noLoad, ⟨fun k' => (h.calm.known k').congr (.of_configs rfl k') rfl, h.calm.fits⟩⟩

omit [KvValue V] in
/-- What the cache says of a key is for the task that has its turn to change. -/
theorem Step.of_entries (h : Inv g o w) (hn : (w.kv ()).writing = some n)
    (f : AList (fun _ : Key => Entry V) → AList fun _ : Key => Entry V) :
    Step g o n j w (w.set () fun s => { s with entries := f s.entries }) :=
  .of_turn h hn (Tidy.congr rfl h.tidy) ⟨rfl, rfl, rfl, rfl, le_refl _⟩
    (fun _ hk => hk.congr rfl rfl) fun k => .inr (.of_configs rfl k)

omit [KvValue V] in
theorem Mine.of_entries (hn : (w.kv ()).writing = some n) (hl : (w.kv ()).loader ≠ some n)
    (hothers : ∀ k', k' ≠ k → Known g w k') (hfits : w.stored g ≤ o.maxTotalBytes)
    {f : AList (fun _ : Key => Entry V) → AList fun _ : Key => Entry V}
    (hf : ∀ k', k' ≠ k → versionsIn (f (w.kv ()).entries) k' = versionsIn (w.kv ()).entries k')
    (hk : Lists g w k (versionsIn (f (w.kv ()).entries) k)) :
    Mine g o n (w.set () fun s => { s with entries := f s.entries }) := by
  refine ⟨hn, hl, ⟨fun k' => ?_, hfits⟩⟩
  by_cases he : k' = k
  · subst he
    exact hk.congr (SameOf.of_configs rfl k')
  · exact (hothers k' he).congr (.of_configs rfl k') (hf k' he)

/-- Re-reading a key leaves the cache right, and the key touched. -/
theorem does_refreshKey (h : Mine g o n w) :
    Does g o n j (fun x w' => Mine g o n w' ∧ (x = .ok () → Guarded w' k))
      (refreshKey g o () k) w := by
  refine .bind (P := fun x w' => Rely g n w w' ∧ ∀ L, x = .ok L → L = groupVersions g o w'.listing)
    quiet_listMine ?_ fun e w' hw => ⟨h.rely hw.1, fun he => by cases he⟩
  rintro L w₁ ⟨hr, hL⟩
  have h₁ := h.rely hr
  obtain rfl := hL L rfl
  refine does_inv fun hI => ?_
  have hlists := hI.tidy.lists k
  refine .bind (P := fun x w' => x = .ok () ∧ w' = w₁.set () (·.touch k))
    (does_setSelf (.of_touch hI h₁.turn k) ⟨rfl, rfl⟩) ?_ fun e w' hw => by cases hw.1
  rintro _ w₂ ⟨-, hw₂⟩
  have h₂ : Mine g o n w₂ := hw₂ ▸ h₁.touch k
  have hg₂ : Guarded w₂ k := hw₂ ▸ guarded_touch hI.loading k
  have hlists : Lists g w₂ k (listedIn (groupVersions g o w₁.listing) k) :=
    hlists.congr (hw₂ ▸ SameOf.of_configs rfl k)
  refine does_inv fun hI₂ => ?_
  cases hlk : (groupVersions g o w₁.listing).lookup k with
  | none =>
    rw [listedIn, hlk] at hlists
    refine does_setSelf (.of_entries hI₂ h₂.turn (·.erase k)) ⟨?_, fun _ => hg₂.congr rfl rfl⟩
    refine .of_entries (f := (·.erase k)) h₂.turn h₂.noLoad (fun k' _ => h₂.calm.known k')
      h₂.calm.fits (fun k' hk' => versionsIn_erase_ne hk') ?_
    rw [versionsIn_erase]
    exact hlists
  | some versions =>
    rw [listedIn, hlk, getD_some] at hlists
    cases hlast : versions.getLast? with
    | none =>
      obtain rfl := List.getLast?_eq_none_iff.mp hlast
      refine does_setSelf (.of_entries hI₂ h₂.turn (·.erase k)) ⟨?_, fun _ => hg₂.congr rfl rfl⟩
      refine .of_entries (f := (·.erase k)) h₂.turn h₂.noLoad (fun k' _ => h₂.calm.known k')
        h₂.calm.fits (fun k' hk' => versionsIn_erase_ne hk') ?_
      rw [versionsIn_erase]
      exact hlists
    | some latest =>
      simp only [bind_some, hlast, map_some]
      refine .bind (P := fun _ w' => Rely g n w₂ w')
        (Meets.mono (fun x w' hw => hw.1) quiet_readVersion) ?_
        fun e w' hr => ⟨h₂.rely hr, fun he => by cases he⟩
      intro v w₃ hr
      have h₃ := h₂.rely hr
      have ht := (hr.turn h₂.turn).2
      refine does_inv fun hI₃ => ?_
      refine does_setSelf (.of_entries hI₃ h₃.turn (·.insert k ⟨versions, v⟩))
        ⟨?_, fun _ => (ht.guarded k hg₂).congr rfl rfl⟩
      refine .of_entries (f := (·.insert k ⟨versions, v⟩)) h₃.turn h₃.noLoad
        (fun k' _ => h₃.calm.known k') h₃.calm.fits (fun k' hk' => versionsIn_insert_ne hk' _) ?_
      rw [versionsIn_insert]
      exact hlists.congr (SameOf.of_configs ht.configs k)

end

/-! ## Removing versions -/

/-- Task `n` removes versions of the key: those in `drop` are still to go, and with
them the store is within the budget; the ones before have stayed. -/
structure Dropping (g : KvOrg) (o : KvOptions) (n : Nat) (k : Key)
    (stay drop newest : List VersionMeta) (w : KvWorld Unit V) : Prop where
  turn : (w.kv ()).writing = some n
  noLoad : (w.kv ()).loader ≠ some n
  guarded : Guarded w k
  others : ∀ k', k' ≠ k → Known g w k'
  lists : Lists g w k (stay ++ (drop ++ newest))
  fits : w.stored g ≤ o.maxTotalBytes + sumBytes drop

section

variable {g : KvOrg} {o : KvOptions} {n : Nat} {j : KvJob Unit V} {k : Key}
  {stay drop newest : List VersionMeta} {v : VersionMeta} {w w' : KvWorld Unit V} {e : KvException}

theorem Dropping.rely (h : Dropping g o n k stay drop newest w) (hr : Rely g n w w') :
    Dropping g o n k stay drop newest w' := by
  obtain ⟨hw, ht⟩ := hr.turn h.turn
  exact ⟨hw, hr.noLoad h.noLoad, ht.guarded k h.guarded,
    fun k' hk' => ht.known k' (h.others k' hk'),
    h.lists.congr (SameOf.of_configs ht.configs k), by rw [stored_congr ht.configs]; exact h.fits⟩

/-- A version is removed. -/
theorem Dropping.remove (hI : Inv g o w) (h : Dropping g o n k stay (v :: drop) newest w) :
    let w' := { w with configs := w.configs.erase (kvConfigName k v.seq) }
    Step g o n j w w' ∧ Dropping g o n k stay drop newest w' := by
  intro w'
  have hgone : w.Removed w' (kvConfigName k v.seq) := rfl
  have hv : Holding g w k v.seq v.bytes := h.lists.holding (by simp)
  have hsame : ∀ k', k' ≠ k → SameOf g w w' k' := fun k' hk' => hgone.holding_ne hv.1 hk'
  have hguard : ∀ k', Guarded w k' → Guarded w' k' := fun k' hk' => hk'
  have hstored := hgone.stored hv
  refine ⟨.of_turn hI h.turn (hgone.tidy hI.tidy) ⟨rfl, rfl, rfl, rfl, le_refl _⟩ hguard
    fun k' => ?_, h.turn, h.noLoad, h.guarded, fun k' hk' => ?_, hgone.lists h.lists, ?_⟩
  · by_cases hk' : k' = k
    · exact .inl (hk' ▸ h.guarded)
    · exact .inr (hsame k' hk')
  · exact (h.others k' hk').congr (hsame k' hk') rfl
  · have := h.fits
    simp only [sumBytes, map_cons, sum_cons] at this ⊢
    omega

/-- A version stays, where the rest makes up for it. -/
theorem Dropping.keep (h : Dropping g o n k stay (v :: drop) newest w)
    (hfits : w.stored g ≤ o.maxTotalBytes + sumBytes drop) :
    Dropping g o n k (stay ++ [v]) drop newest w :=
  ⟨h.turn, h.noLoad, h.guarded, h.others, by simpa using h.lists, hfits⟩

variable [KvValue V]

/-- A remove of the next version: it is gone, or garbage collection counts on it. -/
theorem does_removeQuietly (h : Dropping g o n k stay (v :: drop) newest w)
    (hlen : j.deletes = false → newest.length = o.keep) : Does g o n j (fun x w' => ∃ b, x = .ok b ∧
      ((b = true ∨ j.deletes = true) ∧ Dropping g o n k stay drop newest w' ∨
        (b = false ∧ j.deletes = false) ∧ Dropping g o n k (stay ++ [v]) drop newest w'))
      (removeQuietly () (kvConfigName k v.seq)) w := by
  refine .bind (P := fun x w' => ∃ r, x = .ok r ∧
    ((r = .ok () ∨ (∃ e, r = .error e ∧ isNotFound e = true) ∨ j.deletes = true) ∧
        Dropping g o n k stay drop newest w' ∨
      ((∃ e, r = .error e ∧ isNotFound e = false) ∧ j.deletes = false) ∧
        Dropping g o n k (stay ++ [v]) drop newest w')) ?_ ?_
    fun e w' h => by obtain ⟨_, h, _⟩ := h; cases h
  · refine .call fun w₁ hI hr χ r w₂ hok he => ?_
    have h₁ := h.rely hr
    have hv : Holding g w₁ k v.seq v.bytes := h₁.lists.holding (by simp)
    have hok : Accounted g o w₁ k v.seq j χ := hok k v.seq v.bytes rfl hv
    have he : answer χ w₁ (dockerRemove w₁ (kvConfigName k v.seq)) = (r, w₂) := some.inj he
    obtain ⟨hn, c, hc, _⟩ := hv
    rw [dockerRemove, if_pos (by rw [hc]; rfl)] at he
    cases χ with
    | ok =>
      obtain ⟨rfl, rfl⟩ := Prod.mk.inj he
      obtain ⟨hs, hd⟩ := h₁.remove hI
      exact ⟨hs, .ret ⟨_, rfl, .inl ⟨.inl rfl, hd⟩⟩⟩
    | lost e =>
      obtain ⟨rfl, rfl⟩ := Prod.mk.inj he
      obtain ⟨hs, hd⟩ := h₁.remove hI
      exact ⟨hs, .ret ⟨_, rfl, .inl ⟨.inr (hok.symm.imp_left fun he => ⟨e, rfl, he⟩), hd⟩⟩⟩
    | reject e =>
      obtain ⟨rfl, rfl⟩ := Prod.mk.inj he
      obtain ⟨hj, hnot, hfits⟩ := hok
      rw [h₁.lists.laterDrops hI.tidy (hlen hj)] at hfits
      exact ⟨.refl hI, .ret ⟨_, rfl, .inr ⟨⟨⟨e, rfl, hnot⟩, hj⟩, h₁.keep hfits⟩⟩⟩
  · rintro r w₁ ⟨_, hr, h₁⟩
    obtain rfl := Except.ok.inj hr
    cases r with
    | ok =>
      obtain ⟨_, hd⟩ | ⟨⟨⟨_, he, _⟩, _⟩, _⟩ := h₁
      · exact .ret ⟨true, rfl, .inl ⟨.inl rfl, hd⟩⟩
      · cases he
    | error e =>
      obtain ⟨hgone, hd⟩ | ⟨⟨⟨e', he, hnot⟩, hj⟩, hd⟩ := h₁
      · refine .ret ⟨isNotFound e, rfl, .inl ⟨?_, hd⟩⟩
        obtain he | ⟨e', he, hfound⟩ | hj := hgone
        · cases he
        · obtain rfl := Except.error.inj he
          exact .inl hfound
        · exact .inr hj
      · obtain rfl := Except.error.inj he
        exact .ret ⟨isNotFound e, rfl, .inr ⟨⟨hnot, hj⟩, hd⟩⟩

/-- The loop of garbage collection. -/
theorem does_dropVersions (h : Dropping g o n k stay drop newest w) (hj : j.deletes = false)
    (hlen : newest.length = o.keep) :
    Does g o n j (fun x w' => ∃ stay', x = .ok (stay'.reverse ++ newest) ∧
      Dropping g o n k stay' [] newest w')
      (dropVersions () k (stay.reverse ++ newest) drop) w := by
  induction drop generalizing stay w with
  | nil => exact .ret ⟨stay, rfl, h⟩
  | cons v drop ih =>
    refine .bind (does_removeQuietly h fun _ => hlen) ?_
      fun e w' h => by obtain ⟨_, h, _⟩ := h; cases h
    rintro b w₁ ⟨_, hb, h₁⟩
    obtain rfl := Except.ok.inj hb
    obtain ⟨hb | hb, hd⟩ | ⟨⟨rfl, _⟩, hd⟩ := h₁
    · subst hb
      exact ih hd
    · rw [hj] at hb
      cases hb
    · simpa using ih hd

/-- Garbage collection, after a version has been added. -/
theorem does_gc {e : Entry V} (he : (w.kv ()).entries.lookup k = some e) (hj : j.deletes = false)
    (h : Dropping g o n k [] (e.versions.take (e.versions.length - o.keep))
      (e.versions.drop (e.versions.length - o.keep)) w) :
    Does g o n j (fun _ w' => Mine g o n w') (gc o () k) w := by
  refine .bind (P := fun x w' => x = .ok (some e) ∧ w' = w) (does_read ⟨congrArg _ he, rfl⟩) ?_
    fun e w' h => by cases h.1
  rintro _ w ⟨hx, rfl⟩
  obtain rfl := Except.ok.inj hx
  dsimp only
  split
  · rename_i hlen
    rw [Nat.sub_eq_zero_of_le hlen] at h
    refine .ret ⟨h.turn, h.noLoad, ⟨fun k' => ?_, h.fits⟩⟩
    by_cases hk' : k' = k
    · subst hk'
      rw [Known, versionsIn_of_lookup he]
      exact h.lists
    · exact h.others k' hk'
  · refine .bind (does_dropVersions h hj (by rw [length_drop]; omega)) ?_
      fun e w' h => by obtain ⟨_, h, _⟩ := h; cases h
    rintro _ w₁ ⟨stay, hkept, h₁⟩
    obtain rfl := Except.ok.inj hkept
    refine does_inv fun hI₁ => does_setSelf (.of_entries hI₁ h₁.turn (·.insert k ⟨_, e.value⟩)) ?_
    refine .of_entries (f := (·.insert k ⟨_, e.value⟩)) h₁.turn h₁.noLoad h₁.others h₁.fits
      (fun k' hk' => versionsIn_insert_ne hk' _) ?_
    rw [versionsIn_insert]
    exact h₁.lists.insertionSort ((reverse_perm _).append_right _)

/-- A write that the driver has accepted, in the segment in which it has. -/
theorem safe_committed {x : Write} {v : V} {t : Nat} {cr : List (String × String)} (hI : Inv g o w)
    (h : Mine g o n w) (hj : j.deletes = false) (hk : check o.collections k = .ok ())
    (hn : Named k x.seq) (hjson : x.json = stableJson v) (hprior : Lists g w k x.prior)
    (hlt : ∀ m ∈ x.prior, m.seq < x.seq) (hfits : w.stored g + x.bytes -
      sumBytes (x.prior.take (x.prior.length + 1 - o.keep)) ≤ o.maxTotalBytes)
    (hfree : w.configs.lookup (kvConfigName k x.seq) = none) : let w₁ : KvWorld Unit V := { w with
      configs := w.configs.insert (kvConfigName k x.seq)
        ⟨x.dataB64, versionLabels g k x.seq x.sha x.bytes, t⟩
      created := cr }
    Safe kvExec ((budgeted g o).resume j) (Inv g o) (Rely g n) (Step g o n j)
      (fun _ w₀ w' => Step g o n j w₀ w' ∧ Mine g o n w') (committed o () k x) w w₁ := by
  intro w₁
  have hparse : (KvValue.parse x.json).mapError KvException.other = .ok (KvValue.canon v) := by
    rw [hjson, KvValue.parse_stableJson]
    rfl
  simp only [committed, hparse, Prog.ofExcept, Prog.bind_eq, Prog.ret_bind]
  let e : Entry V := ⟨x.prior ++ [⟨x.seq, x.bytes, x.sha, w.now⟩], KvValue.canon v⟩
  let w₂ := w₁.set () fun s => { s with entries := s.entries.insert k e }
  let w₃ := w₂.set () (·.touch k)
  change Safe _ _ _ _ _ _ ((gc o () k).bind fun _ => self () (·.docOf k)) w w₃
  have hcr : w.Created w₃ (kvConfigName k x.seq)
      ⟨x.dataB64, versionLabels g k x.seq x.sha x.bytes, t⟩ := ⟨hfree, rfl⟩
  have hmine : (versionLabels g k x.seq x.sha x.bytes).mine g = true := by
    simp [versionLabels, KvLabels.mine]
  have hsame : ∀ k', k' ≠ k → SameOf g w w₃ k' := fun k' hk' => hcr.holding_ne hn hk'
  have hguard : ∀ k', Guarded w k' → Guarded w₃ k' := fun k' hk' =>
    Guarded.touch (w := w₂) hI.loading (hk'.congr rfl rfl) k
  have hguarded : Guarded w₃ k := guarded_touch (w := w₂) hI.loading k
  have hstep : Step g o n j w w₃ := by
    refine .of_turn hI h.turn (hcr.tidy hI.tidy hn hk rfl)
      ⟨rfl, rfl, rfl, rfl, le_succ _⟩ hguard fun k' => ?_
    by_cases hk' : k' = k
    · exact .inl (hk' ▸ hguarded)
    · exact .inr (hsame k' hk')
  have hdrop : Dropping g o n k [] (e.versions.take (e.versions.length - o.keep))
      (e.versions.drop (e.versions.length - o.keep)) w₃ := by
    have hkeep : 1 ≤ o.keep := le_max_left _ _
    refine ⟨h.turn, h.noLoad, hguarded, fun k' hk' => ?_, ?_, ?_⟩
    · exact (h.calm.known k').congr (hsame k' hk') (versionsIn_insert_ne hk' _)
    · rw [nil_append, take_append_drop]
      exact hcr.lists hn hmine hprior hlt rfl rfl
    · rw [hcr.stored hmine]
      simp only [e, length_append, length_singleton]
      rw [take_append_of_le_length (by omega)]
      change w.stored g + x.bytes ≤ _
      omega
  refine Safe.bind (fun _ w₀ w' => Step g o n j w₀ w' ∧ Mine g o n w')
    ((does_gc (lookup_insert _) hj hdrop w hstep).mono ?_) fun _ _ _ h => h
  rintro (_ | _) w₀ w' h
  · exact h
  · exact h

variable {fn : Option V → Except KvException (Option V)}

theorem does_attempt (h : Mine g o n w) (hj : j.deletes = false)
    (hk : check o.collections k = .ok ()) {onConflict : KvProg Unit V (Option (KvDoc V))}
    (hc : ∀ w, Mine g o n w → Does g o n j (fun _ w' => Mine g o n w') onConflict w) :
    Does g o n j (fun _ w' => Mine g o n w') (attempt g o () k fn onConflict) w := by
  refine .bind (P := fun x w' => x = .ok ((w.kv ()).entries.lookup k) ∧ w' = w)
    (does_read ⟨rfl, rfl⟩) ?_ fun e w' h => by cases h.1
  rintro cur w ⟨hx, rfl⟩
  obtain rfl := Except.ok.inj hx
  have hprior : Lists g w k (versionsIn (w.kv ()).entries k) := h.calm.known k
  generalize hcur : (w.kv ()).entries.lookup k = cur
  rw [versionsIn, hcur] at hprior
  refine .bind (P := fun _ w' => Rely g n w w') (Meets.mono (fun x w' hw => hw.1) quiet_pause) ?_
    fun e w' hr => h.rely hr
  rintro - w₁ hr
  have h₁ := h.rely hr
  replace hprior := hprior.congr (SameOf.of_configs (hr.turn h.turn).2.configs k)
  refine .bind (P := fun _ w' => w' = w₁) (does_ofExcept rfl) ?_ fun e w' hw => hw ▸ h₁
  rintro next w₁ rfl
  cases next with
  | none => exact does_read h₁
  | some v =>
    refine does_inv fun hI₁ => ?_
    refine .bind (P := fun x w' => x = .ok (w₁.stored g) ∧ w' = w₁)
      (does_read ⟨congrArg _ (h₁.calm.footprint hI₁.tidy), rfl⟩) ?_ fun e w' h => by cases h.1
    rintro footprint w₁ ⟨hx, rfl⟩
    obtain rfl := Except.ok.inj hx
    refine .bind (P := fun x w' => planWrite g o k cur (w₁.stored g) v = x ∧ w' = w₁)
      (does_ofExcept ⟨rfl, rfl⟩) ?_ fun e w' hw => hw.2 ▸ h₁
    rintro plan w₁ ⟨hplan, rfl⟩
    cases plan with
    | none => exact does_read h₁
    | some x =>
      obtain ⟨hjson, hdata, hseq, hmax, hx, hfits⟩ := planWrite_eq_some hplan
      rw [← hx] at hprior
      obtain ⟨hcol, hid⟩ := check_ok hk
      have hn : Named k x.seq := ⟨hcol, hid, by omega, hmax⟩
      have hlt : ∀ m ∈ x.prior, m.seq < x.seq := by
        intro m hm
        cases cur with
        | none =>
          rw [hx] at hm
          cases hm
        | some e =>
          have hprior' : x.prior = e.versions := hx
          obtain ⟨l, hl⟩ := isSome_iff_exists.mp
            (List.getLast?_isSome.mpr (ne_nil_of_mem (hprior' ▸ hm)))
          have hle := Sorted.le_getLast? (hprior.sorted.imp le_of_lt) (hprior' ▸ hl) m hm
          have hlat : (some e).bind Entry.latest = some l := hl
          rw [hlat] at hseq
          exact lt_of_le_of_lt hle (hseq ▸ lt_succ_self _)
      intro w₀ h₀
      refine ⟨h₀, fun w₂ hI hr₁ χ r w₃ hok he => ?_⟩
      have h₂ := h₁.rely hr₁
      have hconf := (hr₁.turn h₁.turn).2.configs
      have he : answer χ w₂ (dockerCreate w₂ (kvConfigName k x.seq) x.dataB64
          (versionLabels g k x.seq x.sha x.bytes)) = (r, w₃) := some.inj he
      have hfailed : ∀ e, Safe kvExec ((budgeted g o).resume j) (Inv g o) (Rely g n)
          (Step g o n j) (fun _ w₀ w' => Step g o n j w₀ w' ∧ Mine g o n w')
          (if isNameConflict e then onConflict else throw e) w₂ w₂ := by
        intro e
        split
        · exact hc w₂ h₂ w₂ (.refl hI)
        · exact ⟨.refl hI, h₂⟩
      cases hlk : w₂.configs.lookup (kvConfigName k x.seq) with
      | some c =>
        obtain ⟨e, he⟩ : ∃ e, (Except.error e, w₂) = (r, w₃) := by
          rw [dockerCreate, if_pos (by rw [hlk]; rfl)] at he
          cases χ <;> exact ⟨_, he⟩
        obtain ⟨rfl, rfl⟩ := Prod.mk.inj he
        exact hfailed e
      | none =>
        rw [dockerCreate, if_neg (by rw [hlk]; exact false_ne_true)] at he
        cases χ with
        | reject e =>
          obtain ⟨rfl, rfl⟩ := Prod.mk.inj he
          exact hfailed _
        | lost e => exact absurd rfl (hok hlk e)
        | ok =>
          obtain ⟨rfl, rfl⟩ := Prod.mk.inj he
          exact safe_committed hI h₂ hj hk hn hjson
            (hprior.congr (SameOf.of_configs hconf k)) hlt
            (by rw [stored_congr hconf]; exact hfits) hlk

theorem does_tryUpdate (h : Mine g o n w) (hj : j.deletes = false)
    (hk : check o.collections k = .ok ()) (retries : Nat) :
    Does g o n j (fun _ w' => Mine g o n w') (tryUpdate g o () k fn retries) w := by
  induction retries generalizing w with
  | zero => exact does_attempt h hj hk fun w hw => .raise hw
  | succ retries ih =>
    refine does_attempt h hj hk fun w hw => ?_
    refine .bind (Meets.mono (fun x w' h => h.1) (does_refreshKey hw)) (fun _ w₁ h₁ => ?_)
      fun _ _ h => h
    refine .bind (P := fun _ w' => Mine g o n w')
      (Meets.mono (fun x w' h => h₁.rely h.1) quiet_pause) (fun _ w₂ h₂ => ih h₂) fun _ _ h => h

/-- Task `n` has not its turn, and runs no load. -/
structure Idle (n : Nat) (w : KvWorld Unit V) : Prop where
  noTurn : (w.kv ()).writing ≠ some n
  noLoad : (w.kv ()).loader ≠ some n

omit [KvValue V] in
theorem Idle.rely (h : Idle n w) (hr : Rely g n w w') : Idle n w' :=
  ⟨hr.noTurn h.noTurn, hr.noLoad h.noLoad⟩

/-- A turn in the write chain. -/
theorem does_serial {p : KvProg Unit V α} (h : Idle n w) (hb : j ≠ .background ())
    (hp : ∀ w, Mine g o n w → Does g o n j (fun _ w' => Mine g o n w') p w) :
    Does g o n j (fun _ w' => Idle n w') (serial () n p) w := by
  refine .call fun w₁ hI hr χ r w₂ _ he => ?_
  simp only [kvExec] at he
  split at he
  · cases he
  · rename_i hfree
    rw [not_eq_true, isSome_eq_false_iff, isNone_iff_eq_none] at hfree
    obtain ⟨_, rfl⟩ := Prod.mk.inj (some.inj he)
    have h₁ := h.rely hr
    have hcalm := hI.calm hfree
    refine ⟨.of_writing hI hb (.inl hfree) (.inr rfl) (fun h => by cases h), ?_⟩
    refine .ensuring (hp _
      ⟨by rw [KvWorld.set_kv_self], by rw [KvWorld.set_kv_self]; exact h₁.noLoad,
      ⟨fun k => (hcalm.known k).congr (.of_configs rfl k) rfl, hcalm.fits⟩⟩) ?_ ?_
    · intro x w₀ w' hw' h₀
      exact h₀.trans (.of_writing h₀.inv hb (.inr hw'.turn) (.inl rfl) fun _ => hw'.calm)
    · intro x w' hw'
      exact ⟨by rw [KvWorld.set_kv_self]; simp, by rw [KvWorld.set_kv_self]; exact hw'.noLoad⟩

theorem does_update (h : Idle n w) (hb : j ≠ .background ()) (hj : j.deletes = false) :
    Does g o n j (fun _ w' => Idle n w') (update g o () n k fn) w := by
  refine .bind (P := fun x w' => check o.collections k = x ∧ w' = w) (does_ofExcept ⟨rfl, rfl⟩) ?_
    fun e w' hw => hw.2 ▸ h
  rintro _ w ⟨hk, rfl⟩
  refine does_serial h hb fun w hw => ?_
  exact .bind (does_ensureFresh hw) (fun _ w₁ h₁ => does_tryUpdate h₁ hj hk _) fun _ _ h => h

theorem does_delete (h : Idle n w) (hb : j ≠ .background ()) (hj : j.deletes = true) :
    Does g o n j (fun _ w' => Idle n w') (delete g o () n k) w := by
  refine .bind (P := fun x w' => check o.collections k = x ∧ w' = w) (does_ofExcept ⟨rfl, rfl⟩) ?_
    fun e w' hw => hw.2 ▸ h
  rintro _ w ⟨hk, rfl⟩
  refine does_serial h hb fun w hw => ?_
  refine .bind (does_ensureFresh hw) (fun _ w₁ h₁ => ?_) fun _ _ h => h
  refine .bind (does_refreshKey h₁) (fun _ w₂ h₂ => ?_) fun _ _ h => h.1
  obtain ⟨h₂, hg⟩ := h₂
  refine .bind (P := fun x w' => x = .ok ((w₂.kv ()).entries.lookup k) ∧ w' = w₂)
    (does_read ⟨rfl, rfl⟩) ?_ fun e w' h => by cases h.1
  rintro _ w₂ ⟨hx, rfl⟩
  obtain rfl := Except.ok.inj hx
  cases he : (w₂.kv ()).entries.lookup k with
  | none => exact .ret h₂
  | some e =>
    have hlists : Lists g w₂ k e.versions := versionsIn_of_lookup he ▸ h₂.calm.known k
    have hdrop : Dropping g o n k [] e.versions [] w₂ :=
      ⟨h₂.turn, h₂.noLoad, hg rfl, fun k' _ => h₂.calm.known k', by simpa using hlists,
        le_add_right_of_le h₂.calm.fits⟩
    refine .bind (Meets.forEach (fun vs w' => Dropping g o n k [] vs [] w') ?_ hdrop) ?_
      fun e w' h => by cases h.1
    · intro v vs w₃ h₃
      refine .bind (does_removeQuietly h₃ fun hj' => by rw [hj] at hj'; cases hj') ?_
        fun e w' h => by obtain ⟨_, h, _⟩ := h; cases h
      rintro b w₄ ⟨_, _, ⟨_, h₄⟩ | ⟨⟨_, hj'⟩, _⟩⟩
      · exact .ret ⟨rfl, h₄⟩
      · rw [hj] at hj'
        cases hj'
    · rintro - w₃ ⟨-, h₃⟩
      refine does_inv fun hI₃ => ?_
      refine .bind (P := fun _ w' => Mine g o n w')
        (does_setSelf (.of_entries hI₃ h₃.turn (·.erase k)) ?_) ?_ fun _ _ h => h
      · refine .of_entries (f := (·.erase k)) h₃.turn h₃.noLoad h₃.others h₃.fits
          (fun k' hk' => versionsIn_erase_ne hk') ?_
        rw [versionsIn_erase]
        exact h₃.lists
      · rintro - w₄ h₄
        refine does_inv fun hI₄ => ?_
        refine .bind (P := fun _ w' => Mine g o n w')
          (does_setSelf (.of_touch hI₄ h₄.turn k) (h₄.touch k)) ?_ fun _ _ h => h
        exact fun _ w₅ h₅ => .ret h₅

theorem does_importAll (hb : j ≠ .background ()) (hj : j.deletes = false) (h : Idle n w)
    (docs : List (Key × V)) (written : Nat) :
    Does g o n j (fun _ w' => Idle n w') (importAll g o () n docs written) w := by
  induction docs generalizing written w with
  | nil => exact .ret h
  | cons kv docs ih =>
    rw [importAll]
    split
    · exact ih h written
    · exact .bind (does_update h hb hj) (fun _ w₁ h₁ => ih h₁ _) fun _ _ h => h

theorem does_getVersion {seq : Nat} (h : Idle n w) :
    Does g o n j (fun _ w' => Idle n w') (getVersion g o () k seq) w := by
  refine .bind (P := fun _ w' => w' = w) (does_ofExcept rfl) ?_ fun e w' hw => hw ▸ h
  rintro - w rfl
  exact Meets.mono (fun x w' hw => h.rely hw.1) quiet_readVersion

theorem does_background (h : Idle n w) :
    Does g o n j (fun _ w' => Idle n w') (background g o () n) w := by
  refine does_inv fun hI => ?_
  refine .bind (P := fun x w' => x = .ok (w.kv ()).spawned ∧ w' = w) (does_read ⟨rfl, rfl⟩) ?_
    fun e w' h => by cases h.1
  rintro _ w ⟨hx, rfl⟩
  obtain rfl := Except.ok.inj hx
  cases hs : (w.kv ()).spawned with
  | none => exact .ret h
  | some sg =>
    refine .act (fun _ h₀ => h₀.trans (.of_background hI hs)) fun w₀ h₀ => ?_
    refine Safe.handle (fun _ w₀' w' => Step g o n j w₀' w' ∧ Idle n w') ?_ fun _ _ _ h => h
    have hl : ((w.set () ({ · with spawned := none, loader := some n })).kv ()).loading = some sg :=
      (hI.spawned sg hs).1
    refine (does_load hl rfl w₀ h₀).mono ?_
    rintro (_ | _) w₀' w' ⟨hstep, hl⟩
    · exact ⟨hstep, hl.noTurn h.noTurn, hl.loader⟩
    · exact ⟨hstep, hl.noTurn h.noTurn, hl.loader⟩

theorem does_body (h : Idle n w) (hj : j.Writes) :
    Does g o n j (fun _ w' => Idle n w') (kvBody g (fun _ => o) n j) w := by
  have hret : ∀ {α : Type} {p : KvProg Unit V α} {f : α → KvResult V},
      Does g o n j (fun _ w' => Idle n w') p w →
      Does g o n j (fun _ w' => Idle n w') (p.bind fun a => .ret (f a)) w :=
    fun h => .bind h (fun _ _ h => .ret h) fun _ _ h => h
  have hb : ∀ {j : KvJob Unit V}, (∀ i, j ≠ .background i) → j ≠ .background () := fun h => h ()
  cases j with
  | get i k | refresh i => exact hj.elim
  | getVersion i k seq => exact hret (does_getVersion h)
  | put i k v => exact hret (does_update h (hb nofun) rfl)
  | update i k fn => exact hret (does_update h (hb nofun) rfl)
  | delete i k => exact hret (does_delete h (hb nofun) rfl)
  | revert i k seq =>
    exact hret (.bind (does_getVersion h) (fun v w₁ h₁ => does_update h₁ (hb nofun) rfl)
      fun _ _ h => h)
  | importAll i docs => exact hret (does_importAll (j := .importAll i docs) (hb nofun) rfl h docs 0)
  | background i => exact hret (does_background h)

/-- The argument for every task. -/
def outline (g : KvOrg) (o : KvOptions) :
    Outline (kvSystem (V := V) g fun _ : Unit => o) (budgeted g o) where
  inv := Inv g o
  rely n _ := Rely g n
  guar n j := Step g o n j
  post n _ _ := Idle n
  fresh := Idle
  rely_refl _ _ := .refl
  rely_trans _ _ := Rely.trans
  guar_inv _ _ _ _ _ h := h.inv
  guar_rely _ _ _ _ _ _ hn _ h := h.others _ (Ne.symm hn)
  guar_fresh _ _ _ _ _ hn h hi := hi.rely (h.others _ (Ne.symm hn))
  env_fresh dt n w w' he h := by
    obtain rfl := some.inj he
    exact ⟨h.noTurn, h.noLoad⟩
  env_inv dt w w' h _ he := by
    obtain rfl := some.inj he
    exact ⟨Tidy.congr rfl h.tidy, h.loading, h.spawned, h.idle, fun hw =>
      ⟨fun k => ((h.calm hw).known k).congr (.of_configs rfl k) rfl, (h.calm hw).fits⟩⟩
  env_rely dt n j w w' _ _ he := by
    obtain rfl := some.inj he
    exact ⟨fun h => ⟨h, rfl, fun k hk => hk.congr (.of_configs rfl k) rfl, fun _ hk => hk⟩,
      fun h => ⟨h, rfl, fun _ hk => hk, fun k => .inr (.of_configs rfl k)⟩, fun h => h, fun h => h⟩
  body n j w h hf _ hj := does_body hf hj w (.refl h)

omit [KvValue V] in
theorem inv_of_inSync (h : InSync g o w) : Inv g o w where
  tidy := h.tidy
  loading sg hsg := by rw [h.loading] at hsg; cases hsg
  spawned sg hsg := by rw [h.spawned] at hsg; cases hsg
  idle _ := h.loader
  calm _ := ⟨h.known, h.fits⟩

end

end Budget

/-! ## The result -/

open Budget in
/-- The budget holds in every run in which creates and removes are answered for what
they have done. -/
theorem withinBudget_of_budgeted [KvValue V] (g : KvOrg) (o : KvOptions) :
    WithinBudget (V := V) g o (budgeted g o) := by
  intro w₀ c hw hr hset
  have hidle : ∀ n, Idle n w₀ := fun n =>
    ⟨by rw [hw.writing]; exact nofun, by rw [hw.loader]; exact nofun⟩
  have hholds := Outline.holds_of_reach (L := outline g o) (inv_of_inSync hw) hidle hr
  have hfree : (c.world.kv ()).writing = none := by
    by_contra hne
    obtain ⟨n, hn⟩ := ne_none_iff_exists'.mp hne
    cases hp : c.pool[n]? with
    | none => exact (hholds.fresh n (List.getElem?_eq_none_iff.mp hp)).noTurn hn
    | some jp =>
      obtain ⟨j, p⟩ := jp
      obtain hj | hend := hset n j p hp
      · refine Outline.task_of_reach (L := outline g o)
          (K := fun n j w => j = .background () → (w.kv ()).writing ≠ some n) ?_ ?_
          (inv_of_inSync hw) hidle hr hp hj hn
        · intro n j w w' hbefore hstep hj
          exact hstep.noTurn hj (hbefore.elim (fun h => h.noTurn) fun h => h hj)
        · exact fun n j w w' hK hrely hj => hrely.noTurn (hK hj)
      · obtain ⟨x, hx⟩ := isSome_iff_exists.mp hend
        exact (Outline.ended_of_reach (L := outline g o) (fun n j x w w' h hrely => h.rely hrely)
          (inv_of_inSync hw) hidle hr hp hx).noTurn hn
  have hcalm := hholds.inv.calm hfree
  exact ⟨hcalm.footprint hholds.inv.tidy, hcalm.fits⟩

/-! ## One document -/

/-- One instance with the default options. -/
abbrev oneInstance : System (KvSig Unit) (KvWorld Unit Nat) KvException (KvResult Nat) :=
  kvSystem plainOrg fun _ => .default

/-- An empty swarm and a new instance. -/
def newInstance : KvWorld Unit Nat := ⟨0, ∅, [], fun _ => .new⟩

theorem newInstance_inSync : InSync plainOrg .default newInstance where
  tidy name c hc _ := by cases hc
  known k := ⟨by simp [versionsIn, newInstance, SwarmKv.new], fun s b =>
    ⟨by simp [versionsIn, newInstance, SwarmKv.new], fun ⟨_, _, hc, _⟩ => by cases hc⟩⟩
  fits := zero_le _
  loading := rfl
  loader := rfl
  spawned := rfl
  writing := rfl

/-- What is left of the operations, the footprint, and what the store holds. -/
def accounts (c : oneInstance.Config) : Bool × Nat × Nat :=
  (c.pool.all fun x : KvJob Unit Nat × KvProg Unit Nat (KvResult Nat) => x.2.ended.isSome,
    (c.world.kv ()).footprint, c.world.stored plainOrg)

theorem settled_of_accounts {c : oneInstance.Config} (h : (accounts c).1 = true) :
    Settled (g := plainOrg) (o := .default) c := fun _ _ _ hp =>
  .inr (all_eq_true.mp h _ (mem_of_getElem? hp))

/-- Is the move the start of a write or the answer to a call? -/
def answered : oneInstance.Move → Bool
  | .start (.put _ _ _) | .start (.delete _ _) | .resume _ .ok => true
  | _ => false

theorem budgeted_of_answered (c : oneInstance.Config) {m : oneInstance.Move}
    (h : answered m = true) : (budgeted plainOrg .default).move c m := by
  cases m with
  | start j => cases j <;> first | exact trivial | cases h
  | env e => trivial
  | resume n χ =>
    cases χ with
    | ok =>
      intro j q k _
      cases q with
      | list i | read i name => rfl
      | create i name d labels => exact fun _ e he => by cases he
      | remove i name => exact fun k s b _ _ => trivial
      | turn i n | loaded i | pause i => trivial
    | reject e | lost e => cases h

/-- Is the move one of those, or the rejection of a remove? -/
def refused (c : oneInstance.Config) (m : oneInstance.Move) : Bool :=
  answered m || match m with
    | .resume n (.reject _) => match c.pool[n]? with
      | some (_, .call (.remove _ _) _) => true
      | _ => false
    | _ => false

theorem onlyWriter_of_refused {c : oneInstance.Config} {m : oneInstance.Move}
    (h : refused c m = true) : (onlyWriter plainOrg .default).move c m := by
  cases m with
  | start j => cases j <;> first | exact trivial | cases h
  | env e => trivial
  | resume n χ =>
    intro j q k hp
    cases q with
    | create i name d labels | remove i name =>
      rintro e rfl
      cases h
    | turn i n | loaded i | pause i => trivial
    | list i | read i name =>
      cases χ with
      | ok => rfl
      | lost e => cases h
      | reject e => simp [refused, answered, hp] at h

/-- Write a document and delete it, where the removes are answered like this. -/
def putAndDelete (χ : KvChoice) : List oneInstance.Move :=
  .start (.put () siteKey 1) :: List.replicate 4 (.resume 0 .ok) ++
    .start (.delete () siteKey) :: List.replicate 3 (.resume 1 .ok) ++ [.resume 1 χ]

/-- A document is written and deleted. -/
theorem withinBudget_putAndDelete : ∃ c : oneInstance.Config,
    System.Reach (budgeted plainOrg .default).move ⟨newInstance, []⟩ c ∧ c.pool.length = 2 ∧
      (c.world.kv ()).footprint = c.world.stored plainOrg ∧
      c.world.stored plainOrg ≤ KvOptions.default.maxTotalBytes := by
  have hrun : (System.runIf (M := oneInstance) (fun _ m => answered m) ⟨newInstance, []⟩
      (putAndDelete .ok)).map (fun c => (accounts c, c.pool.length)) = some ((true, 0, 0), 2) := by
    decide
  obtain ⟨c, hc, heq⟩ := map_eq_some_iff.mp hrun
  obtain ⟨hacc, hlen⟩ := Prod.mk.inj heq
  have hreach := System.reach_of_runIf (fun c _ => budgeted_of_answered c) .refl hc
  exact ⟨c, hreach, hlen, withinBudget_of_budgeted plainOrg .default newInstance c
    newInstance_inSync hreach
    (settled_of_accounts (by rw [hacc]))⟩

/-- The remove is rejected: the delete returns all the same, and the version is no
longer counted. -/
theorem withinBudget_uncounted :
    ¬ WithinBudget plainOrg .default (onlyWriter (V := Nat) plainOrg .default) := by
  intro h
  have hrun : (System.runIf refused ⟨newInstance, []⟩
      (putAndDelete (.reject (.other "rpc error: code = Unavailable")))).map accounts =
      some (true, 0, 4) := by decide
  obtain ⟨c, hc, hacc⟩ := map_eq_some_iff.mp hrun
  have hreach := System.reach_of_runIf (fun _ _ => onlyWriter_of_refused) .refl hc
  have := (h newInstance c newInstance_inSync hreach (settled_of_accounts (by rw [hacc]))).1
  simp only [accounts, Prod.mk.injEq] at hacc
  omega


end Swarmy.Kv
