import Swarmy.Cert.Tiered

/-!
# The tiered certificate store: the invariant

What is proved about the store is about runs in which callers and copies keep out
of each other's way (`careful`): two write operations on one key do not overlap; a
copy is written only while its source still holds what was read, a copy to the
local tier only while no write operation on the key is under way or remembered;
and a prefix whose listing on the replica fails has no file there that the local
tier had not.

In such runs a deleted key is gone from the local tier, and from the replica or
remembered (`Inv.gone`); and as long as the replica has always answered, both tiers
hold what the last write operation left (`Inv.healthy`).
-/

namespace Swarmy.Cert

open Coop List Option

/-! ## Histories -/

/-- Has a delete of the key returned that no store of the key has followed? -/
def gone (k : String) : List CertEvent → Bool
  | [] => false
  | .returned (.delete p _) :: log => covers p k || gone k log
  | .began (.store k' _) :: log | .returned (.store k' _) :: log => k' != k && gone k log
  | .began (.delete _ _) :: log => gone k log

/-- Is this the call or the return of a store of the key? -/
def CertEvent.storeOf (k : String) : CertEvent → Bool
  | .began (.store k' _) | .returned (.store k' _) => k' == k
  | .began (.delete _ _) | .returned (.delete _ _) => false

/-- The number of calls and returns of stores of the key. -/
def stores (k : String) (log : List CertEvent) : Nat := log.countP (·.storeOf k)

/-- What the last write operation on the key that has returned left under it, if
there is one. -/
def final (k : String) : List CertEvent → Option (Option (List UInt8))
  | [] => none
  | .returned (.store k' v) :: log => if k' = k then some (some v) else final k log
  | .returned (.delete p _) :: log => if covers p k then some none else final k log
  | .began _ :: log => final k log

theorem stores_append (k : String) (l l' : List CertEvent) :
    stores k (l ++ l') = stores k l + stores k l' := countP_append

/-- A deleted key stays so until it is stored. -/
theorem gone_append {k : String} {l log : List CertEvent} (h : gone k log = true)
    (hs : stores k l = 0) : gone k (l ++ log) = true := by
  induction l with
  | nil => exact h
  | cons e l ih =>
    rw [stores, countP_cons, Nat.add_eq_zero_iff] at hs
    have ih := ih hs.1
    have he : e.storeOf k = false := by
      by_contra hne
      simp [hne] at hs
    cases e with
    | began op | returned op =>
      cases op with
      | store k' v =>
        simp only [CertEvent.storeOf, beq_eq_false_iff_ne] at he
        simp [gone, he, ih]
      | delete p had => simp [gone, ih]

/-! ## Bytes -/

/-- The bytes the local tier holds. -/
def CertWorld.lb (w : CertWorld) (k : String) : Option (List UInt8) := w.loc.bytes k

/-- The bytes the replica holds. -/
def CertWorld.rb (w : CertWorld) (k : String) : Option (List UInt8) := w.rep.bytes k

theorem Tier.bytes_insert (t : Tier) (k : String) (f : CertFile) (k' : String) :
    Tier.bytes (t.insert k f) k' = if k' = k then some f.bytes else t.bytes k' := by
  by_cases h : k' = k
  · subst h
    simp [Tier.bytes]
  · simp [Tier.bytes, h]

theorem Tier.bytes_erase (t : Tier) (k k' : String) :
    Tier.bytes (t.erase k) k' = if k' = k then none else t.bytes k' := by
  by_cases h : k' = k
  · subst h
    simp [Tier.bytes]
  · simp [Tier.bytes, h]

theorem dlookup_filter (f : String → Bool) (k : String)
    (l : List (Sigma fun _ : String => CertFile)) :
    (l.filter fun e => f e.1).dlookup k = if f k then l.dlookup k else none := by
  induction l with
  | nil => simp
  | cons e l ih =>
    obtain ⟨k', c⟩ := e
    by_cases hk : k = k'
    · subst hk
      cases hf : f k <;> simp [hf, ih]
    · have hne : ∀ l, List.dlookup k (⟨k', c⟩ :: l : List (Sigma fun _ : String => CertFile)) =
          l.dlookup k := fun l => dlookup_cons_ne l ⟨k', c⟩ hk
      rw [hne, filter_cons]
      split
      · rw [hne, ih]
      · exact ih

theorem Tier.bytes_keep (t : Tier) (f : String → Bool) (k : String) :
    (t.keep f).bytes k = if f k then t.bytes k else none := by
  rw [Tier.bytes, AList.lookup, Tier.keep, dlookup_filter]
  split <;> rfl

theorem Tier.bytes_ne_none {t : Tier} {k : String} : t.bytes k ≠ none ↔ k ∈ t.keys := by
  rw [Tier.bytes, ne_eq, map_eq_none_iff, AList.lookup_eq_none, not_not, AList.mem_keys]

theorem Tier.mem_keysWith {t : Tier} {f : String → Bool} {k : String} :
    k ∈ t.keysWith f ↔ t.bytes k ≠ none ∧ f k = true := by
  rw [Tier.keysWith, mem_filter, Tier.bytes_ne_none]

/-- What a call that is carried out does to the bytes of the local tier. -/
def locEffect : CertCall → (String → Option (List UInt8)) → String → Option (List UInt8)
  | .localStore k v, f, k' => if k' = k then some v else f k'
  | .localDelete p, f, k' => if covers p k' then none else f k'
  | _, f, k' => f k'

/-- What a call that is carried out does to the bytes of the replica. -/
def repEffect : CertCall → (String → Option (List UInt8)) → String → Option (List UInt8)
  | .replicaStore k v, f, k' => if k' = k then some v else f k'
  | .replicaDelete k, f, k' => if k' = k then none else f k'
  | _, f, k' => f k'

theorem certDo_lb (c : CertCall) (w : CertWorld) (k : String) :
    (certDo c w).2.lb k = locEffect c w.lb k := by
  cases c with
  | localStore k' v => exact Tier.bytes_insert _ _ _ _
  | localDelete p =>
    simp only [certDo, CertWorld.lb, locEffect, Tier.bytes_keep]
    cases covers p k <;> rfl
  | chtimes k' t =>
    simp only [certDo, locEffect]
    cases h : w.loc.lookup k' with
    | none => rfl
    | some f =>
      simp only [CertWorld.lb, Tier.bytes_insert]
      split
      · subst k
        rw [Tier.bytes, h, map_some]
      · rfl
  | _ => rfl

theorem certDo_rb (c : CertCall) (w : CertWorld) (k : String) :
    (certDo c w).2.rb k = repEffect c w.rb k := by
  cases c with
  | replicaStore k' v => exact Tier.bytes_insert _ _ _ _
  | replicaDelete k' => exact Tier.bytes_erase _ _ _
  | chtimes k' t =>
    simp only [certDo, repEffect]
    cases w.loc.lookup k' <;> rfl
  | _ => rfl

/-- The fields of the world that no call changes. -/
structure SameFields (w w' : CertWorld) : Prop where
  running : w'.running = w.running
  log : w'.log = w.log
  pending : w'.pendingDeletes = w.pendingDeletes
  downUntil : w'.downUntil = w.downUntil
  now : w'.now = w.now

theorem certDo_same (c : CertCall) (w : CertWorld) : SameFields w (certDo c w).2 := by
  cases c with
  | chtimes k t =>
    simp only [certDo]
    cases w.loc.lookup k <;> exact ⟨rfl, rfl, rfl, rfl, rfl⟩
  | _ => exact ⟨rfl, rfl, rfl, rfl, rfl⟩

/-- Everything a call can do. -/
theorem certExec_cases {χ : CertChoice} {c : CertCall} {w w' : CertWorld} {r : CertSig.Ans c}
    (h : certExec χ c w = some (r, w')) :
    SameFields w w' ∧ (χ = .ok ∧ r = (certDo c w).1 ∨ χ ≠ .ok ∧ r = certFail c) ∧
      ((w'.lb = w.lb ∧ w'.rb = w.rb ∧ χ = .fail) ∨
        (w'.lb = locEffect c w.lb ∧ w'.rb = repEffect c w.rb ∧ χ ≠ .fail)) := by
  have hs := certDo_same c w
  have hl : (certDo c w).2.lb = locEffect c w.lb := funext (certDo_lb c w)
  have hr : (certDo c w).2.rb = repEffect c w.rb := funext (certDo_rb c w)
  unfold certExec at h
  generalize certDo c w = d at *
  cases χ with
  | ok =>
    obtain ⟨rfl, rfl⟩ := Prod.mk.inj (some.inj h)
    exact ⟨hs, .inl ⟨rfl, rfl⟩, .inr ⟨hl, hr, by simp⟩⟩
  | fail =>
    obtain ⟨rfl, rfl⟩ := Prod.mk.inj (some.inj h)
    exact ⟨⟨rfl, rfl, rfl, rfl, rfl⟩, .inr ⟨by simp, rfl⟩, .inl ⟨rfl, rfl, rfl⟩⟩
  | lost =>
    obtain ⟨rfl, rfl⟩ := Prod.mk.inj (some.inj h)
    exact ⟨hs, .inr ⟨by simp, rfl⟩, .inr ⟨hl, hr, by simp⟩⟩

/-! ## Careful runs -/

/-- Is the operation a delete? -/
def CertOp.deletes : CertOp → Bool
  | .store _ _ => false
  | .delete _ _ => true

/-- No delete that is under way removes the key; nor does a store write it, if `s`. -/
def Free (s : Prop) (w : CertWorld) (k : String) : Prop :=
  ∀ n op, w.running n = some op → (s ∨ op.deletes = true) → op.covers k = false

theorem Free.mono {s s' : Prop} {w : CertWorld} {k : String} (hs : s' → s) (h : Free s w k) :
    Free s' w k :=
  fun n op ho hop => h n op ho (hop.imp hs id)

/-- Every file that the replica has below a prefix being deleted was a local file
too when the delete began. -/
def Listed (w : CertWorld) (p : String) : Prop :=
  ∀ n had, w.running n = some (.delete p had) → ∀ k, under p k = true → w.rb k ≠ none → k ∈ had

/-- There are bytes, and they are `v` if `strict`. -/
def Still (strict : Prop) (b : Option (List UInt8)) (v : List UInt8) : Prop :=
  b ≠ none ∧ (strict → b = some v)

/-- A file of the local tier may be written with what the replica held. -/
def MayCopy (strict : Prop) (w : CertWorld) (k : String) (v : List UInt8) : Prop :=
  Still strict (w.rb k) v ∧ k ∉ w.pendingDeletes ∧ Free strict w k

/-- Runs on keys of `L` in which deletes and copies keep out of each other's way; if
`strict`, so do stores, and the replica always answers. -/
def careful (strict : Prop) (L : String → Prop) : Allow certSystem where
  start j w := match j with
    | .load k => L k
    | .store k _ => L k ∧ Free strict w k
    | .delete p => ∀ k, covers p k = true → Free True w k
    | .sync => True
  resume j χ c w := (strict ∨ c.replica = false → χ = .ok) ∧ match j, c with
    | .sync, .replicaStore k v => Still strict (w.lb k) v
    | .sync, .localStore k v | .load _, .localStore k v => MayCopy strict w k v
    | .delete p, .localDelete _ => w.now < w.downUntil → Listed w p
    | .delete p, .replicaList _ => χ ≠ .ok → Listed w p
    | _, _ => True
  env _ _ := True

/-! ## The invariant -/

/-- What both tiers hold under a key that no write operation is on, if the replica has
always answered. -/
def Settled (w : CertWorld) (k : String) : Prop :=
  match final k w.log with
  | none => w.lb k = w.rb k ∨ w.lb k = none ∨ w.rb k = none
  | some x => w.lb k = x ∧ w.rb k = x

/-- What holds whenever every task is suspended. -/
structure Inv (L : String → Prop) (strict : Prop) (w : CertWorld) : Prop where
  keys : ∀ k, w.lb k ≠ none ∨ w.rb k ≠ none → L k
  shared : ∀ k, w.rb k ≠ none → nodeLocal k = false
  apart : ∀ n m op op', n ≠ m → w.running n = some op → w.running m = some op' →
    (strict ∨ op.deletes = true ∨ op'.deletes = true) →
    ∀ k, op.covers k = true → op'.covers k = false
  storing : ∀ n k v, w.running n = some (.store k v) → gone k w.log = false ∧ L k
  gone : ∀ k, gone k w.log = true → w.lb k = none ∧ (w.rb k = none ∨ k ∈ w.pendingDeletes)
  healthy : strict →
    w.downUntil = 0 ∧ w.pendingDeletes = [] ∧ ∀ k, Free strict w k → Settled w k

/-- What a task in a write operation on the key may rely on. -/
structure Protected (strict : Prop) (k : String) (w w' : CertWorld) : Prop where
  lb : w'.lb k = w.lb k
  absent : w.lb k = none → w.rb k = none → w'.rb k = none
  equal : strict → w.rb k = w.lb k → w'.rb k = w'.lb k
  pending : w.lb k = none → k ∈ w.pendingDeletes → k ∈ w'.pendingDeletes ∨ w'.rb k = none

/-- What task `n` relies on. -/
structure Rely (strict : Prop) (n : Nat) (w w' : CertWorld) : Prop where
  running : w'.running n = w.running n
  log : ∃ l, w'.log = l ++ w.log
  cleared : ∀ k, Cert.gone k w.log = true → w.rb k = none →
    stores k w'.log = stores k w.log → w'.rb k = none
  kept : ∀ op, w.running n = some op → (strict ∨ op.deletes = true) →
    ∀ k, op.covers k = true → Protected strict k w w'
  held : ∀ k v, w.running n = some (.store k v) → w.lb k ≠ none → w'.lb k ≠ none

/-- What a move of task `n` does. -/
structure Step (L : String → Prop) (strict : Prop) (n : Nat) (w w' : CertWorld) : Prop where
  inv : Inv L strict w'
  others : ∀ m, m ≠ n → Rely strict m w w'

theorem Protected.refl (strict : Prop) (k : String) (w : CertWorld) : Protected strict k w w :=
  ⟨rfl, fun _ h => h, fun _ h => h, fun _ h => .inl h⟩

theorem Rely.refl (strict : Prop) (n : Nat) (w : CertWorld) : Rely strict n w w :=
  ⟨rfl, ⟨[], rfl⟩, fun _ _ h _ => h, fun _ _ _ k _ => .refl strict k w, fun _ _ _ h => h⟩

theorem Rely.stores_le {strict : Prop} {n : Nat} {w w' : CertWorld} (h : Rely strict n w w')
    (k : String) :
    stores k w.log ≤ stores k w'.log := by
  obtain ⟨l, hl⟩ := h.log
  rw [hl, stores_append]
  exact Nat.le_add_left _ _

/-- A key that is not stored in between stays deleted. -/
theorem Rely.gone {strict : Prop} {n : Nat} {w w' : CertWorld} (h : Rely strict n w w') {k : String}
    (hk : Cert.gone k w.log = true) (hs : stores k w'.log = stores k w.log) :
    Cert.gone k w'.log = true := by
  obtain ⟨l, hl⟩ := h.log
  rw [hl]
  rw [hl, stores_append] at hs
  exact gone_append hk (by omega)

theorem Rely.trans (strict : Prop) (n : Nat) (w w' w'' : CertWorld) (h : Rely strict n w w')
    (h' : Rely strict n w' w'') : Rely strict n w w'' where
  running := h'.running.trans h.running
  log := by
    obtain ⟨l, hl⟩ := h.log
    obtain ⟨l', hl'⟩ := h'.log
    exact ⟨l' ++ l, by rw [hl', hl, append_assoc]⟩
  cleared k hg hr hs := by
    have h₁ := h.stores_le k
    have h₂ := h'.stores_le k
    exact h'.cleared k (h.gone hg (by omega)) (h.cleared k hg hr (by omega)) (by omega)
  kept op ho hop k hk := by
    have p := h.kept op ho hop k hk
    have p' := h'.kept op (h.running.trans ho) hop k hk
    refine ⟨p'.lb.trans p.lb, fun hl hr => p'.absent (p.lb.trans hl) (p.absent hl hr), ?_, ?_⟩
    · exact fun hs he => p'.equal hs (p.equal hs he)
    · intro hl hp
      rcases p.pending hl hp with hp | hr
      · exact p'.pending (p.lb.trans hl) hp
      · exact .inr (p'.absent (p.lb.trans hl) hr)
  held k v ho hl := h'.held k v (h.running.trans ho) (h.held k v ho hl)

theorem Step.refl {L : String → Prop} {strict : Prop} {n : Nat} {w : CertWorld}
    (h : Inv L strict w) : Step L strict n w w := ⟨h, fun m _ => .refl strict m w⟩

theorem Step.trans {L : String → Prop} {strict : Prop} {n : Nat} {w w' w'' : CertWorld}
    (h : Step L strict n w w') (h' : Step L strict n w' w'') : Step L strict n w w'' :=
  ⟨h'.inv, fun m hm => (h.others m hm).trans strict m _ _ _ (h'.others m hm)⟩

/-! ## What single moves do -/

section

variable {L : String → Prop} {strict : Prop} {n : Nat} {w w' : CertWorld}

/-- A move that changes neither bytes nor histories, and at most remembers. -/
theorem Step.quiet (h : Inv L strict w) (hl : w'.lb = w.lb) (hr : w'.rb = w.rb)
    (hrun : w'.running = w.running) (hlog : w'.log = w.log)
    (hp : w.pendingDeletes ⊆ w'.pendingDeletes)
    (hh : strict → (w.downUntil = 0 → w'.downUntil = 0) ∧ w'.pendingDeletes = w.pendingDeletes) :
    Step L strict n w w' ∧ ∀ m, Rely strict m w w' := by
  have hrely : ∀ m, Rely strict m w w' := fun m => by
    refine ⟨by rw [hrun], ⟨[], hlog⟩, fun k _ h _ => by rw [hr]; exact h, fun op _ _ k _ => ?_,
      fun k _ _ h => by rw [hl]; exact h⟩
    exact ⟨by rw [hl], fun _ h => by rw [hr]; exact h, fun _ h => by rw [hl, hr, h],
      fun _ h => .inl (hp h)⟩
  refine ⟨⟨⟨?_, by rw [hr]; exact h.shared, ?_, ?_, ?_, ?_⟩, fun m _ => hrely m⟩, hrely⟩
  · rw [hl, hr]
    exact h.keys
  · rw [hrun]
    exact h.apart
  · rw [hrun, hlog]
    exact h.storing
  · rw [hl, hr, hlog]
    exact fun k hk => ⟨(h.gone k hk).1, (h.gone k hk).2.imp id fun h => hp h⟩
  · intro hst
    obtain ⟨hd, hpend, hset⟩ := h.healthy hst
    obtain ⟨hd', hp'⟩ := hh hst
    refine ⟨hd' hd, hp'.trans hpend, fun k hk => ?_⟩
    have := hset k (by rw [Free, ← hrun]; exact hk)
    simpa only [Settled, hl, hr, hlog] using this

/-- A remembered delete is forgotten: the replica has seen it, or the key is being
stored. -/
theorem Step.forget (h : Inv L strict w) {k : String} {f : Bool}
    (hk : w.rb k = none ∨ ∃ v, w.running n = some (.store k v)) :
    Step L strict n w { w with pendingDeletes := w.pendingDeletes.filter (· ≠ k), dirty := f } ∧
      (w.rb k = none → ∀ m, Rely strict m w
        { w with pendingDeletes := w.pendingDeletes.filter (· ≠ k), dirty := f }) := by
  have hmem : ∀ k', k' ≠ k → k' ∈ w.pendingDeletes → k' ∈ w.pendingDeletes.filter (· ≠ k) :=
    fun k' hne hk' => mem_filter.mpr ⟨hk', by simpa using hne⟩
  have hrely : ∀ m, (w.rb k = none ∨ m ≠ n) → Rely strict m w
      { w with pendingDeletes := w.pendingDeletes.filter (· ≠ k), dirty := f } := by
    refine fun m hm => ⟨rfl, ⟨[], rfl⟩, fun _ _ h _ => h, fun op ho hop k' hk' =>
      ⟨rfl, fun _ h => h, fun _ h => h, fun _ hp => ?_⟩, fun _ _ _ h => h⟩
    by_cases hne : k' = k
    · subst hne
      rcases hk with hr | ⟨v, hv⟩
      · exact .inr hr
      · rcases hm with hr | hm
        · exact .inr hr
        · rw [h.apart n m _ _ (Ne.symm hm) hv ho (hop.imp id .inr) k'
            (by simp [CertOp.covers])] at hk'
          cases hk'
    · exact .inl (hmem k' hne hp)
  refine ⟨⟨⟨h.keys, h.shared, h.apart, h.storing, fun k' hk' => ?_, fun hst => ?_⟩,
    fun m hm => hrely m (.inr hm)⟩, fun hr m => hrely m (.inl hr)⟩
  · refine ⟨(h.gone k' hk').1, ?_⟩
    by_cases hne : k' = k
    · subst hne
      rcases hk with hr | ⟨v, hv⟩
      · exact .inl hr
      · rw [(h.storing n k' v hv).1] at hk'
        cases hk'
    · exact (h.gone k' hk').2.imp id (hmem k' hne)
  · obtain ⟨hd, hp, hset⟩ := h.healthy hst
    exact ⟨hd, by simp [hp], hset⟩

/-- The replica is given what the local tier holds. -/
theorem Step.copyOut (h : Inv L strict w) (hs : SameFields w w') {k : String} {v : List UInt8}
    (hk : Still strict (w.lb k) v) (hn : nodeLocal k = false) (hl : w'.lb = w.lb)
    (hr : w'.rb = fun k' => if k' = k then some v else w.rb k') :
    Step L strict n w w' ∧ ∀ m, Rely strict m w w' := by
  have hgone : Cert.gone k w.log = true → False := fun hg => hk.1 (h.gone k hg).1
  have hrely : ∀ m, Rely strict m w w' := fun m => by
    refine ⟨by rw [hs.running], ⟨[], hs.log⟩, fun k' hg h' _ => ?_, fun op _ _ k' _ => ?_,
      fun k' _ _ h => by rw [hl]; exact h⟩
    · rw [hr]
      by_cases hne : k' = k
      · exact (hgone (hne ▸ hg)).elim
      · simpa only [if_neg hne] using h'
    · by_cases hne : k' = k
      · subst hne
        exact ⟨by rw [hl], fun hn => absurd hn hk.1,
          fun hst _ => by rw [hl, hr, hk.2 hst]; exact if_pos rfl, fun hn => absurd hn hk.1⟩
      · have hr' : w'.rb k' = w.rb k' := by rw [hr]; exact if_neg hne
        exact ⟨by rw [hl], fun _ h => hr'.trans h, fun _ he => by rw [hr', hl, he],
          fun _ hp => .inl (by rw [hs.pending]; exact hp)⟩
  refine ⟨⟨⟨fun k' hk' => ?_, fun k' hk' => ?_, by rw [hs.running]; exact h.apart,
    by rw [hs.running, hs.log]; exact h.storing, fun k' hk' => ?_, fun hst => ?_⟩,
    fun m _ => hrely m⟩, hrely⟩
  · by_cases hne : k' = k
    · exact h.keys k' (.inl (by rw [hne]; exact hk.1))
    · rw [hl, hr] at hk'
      exact h.keys k' (by simpa only [if_neg hne] using hk')
  · by_cases hne : k' = k
    · exact hne ▸ hn
    · rw [hr] at hk'
      exact h.shared k' (by simpa only [if_neg hne] using hk')
  · rw [hs.log] at hk'
    have hne : k' ≠ k := fun he => hgone (he ▸ hk')
    rw [hl, hr, hs.pending]
    simpa only [if_neg hne] using h.gone k' hk'
  · obtain ⟨hd, hp, hset⟩ := h.healthy hst
    refine ⟨hs.downUntil.trans hd, hs.pending.trans hp, fun k' hk' => ?_⟩
    have hold := hset k' (by rw [Free, ← hs.running]; exact hk')
    unfold Settled at hold ⊢
    rw [hs.log, hl, hr]
    by_cases hne : k' = k
    · subst hne
      simp only [if_true]
      cases hfin : final k' w.log with
      | none => exact .inl (hk.2 hst)
      | some x =>
        rw [hfin] at hold
        exact ⟨hold.1, by rw [← hk.2 hst, hold.1]⟩
    · simpa only [if_neg hne] using hold

/-- The local tier is given what the replica holds. -/
theorem Step.copyIn (h : Inv L strict w) (hs : SameFields w w') {k : String} {v : List UInt8}
    (hk : MayCopy strict w k v) (hl : w'.lb = fun k' => if k' = k then some v else w.lb k')
    (hr : w'.rb = w.rb) : Step L strict n w w' ∧ ∀ m, Rely strict m w w' := by
  obtain ⟨hv, hp, hfree⟩ := hk
  have hgone : Cert.gone k w.log = true → False := fun hg => by
    exact (h.gone k hg).2.elim hv.1 hp
  have hrely : ∀ m, Rely strict m w w' := fun m => by
    refine ⟨by rw [hs.running], ⟨[], hs.log⟩,
      fun k' _ h' _ => by rw [hr]; exact h', fun op ho hop k' hk' => ?_, fun k' _ _ h => ?_⟩
    · have hne : k' ≠ k := fun he => by
        rw [he, hfree m op ho hop] at hk'
        cases hk'
      have hl' : w'.lb k' = w.lb k' := by rw [hl]; exact if_neg hne
      exact ⟨hl', fun _ h => by rw [hr]; exact h, fun _ he => by rw [hr, hl', he],
        fun _ hp => .inl (by rw [hs.pending]; exact hp)⟩
    · rw [hl]
      by_cases hne : k' = k
      · simp [hne]
      · simpa only [if_neg hne] using h
  refine ⟨⟨⟨fun k' hk' => ?_, by rw [hr]; exact h.shared, by rw [hs.running]; exact h.apart,
    by rw [hs.running, hs.log]; exact h.storing, fun k' hk' => ?_, fun hst => ?_⟩,
    fun m _ => hrely m⟩, hrely⟩
  · by_cases hne : k' = k
    · exact h.keys k' (.inr (by rw [hne]; exact hv.1))
    · rw [hl, hr] at hk'
      exact h.keys k' (by simpa only [if_neg hne] using hk')
  · rw [hs.log] at hk'
    have hne : k' ≠ k := fun he => hgone (he ▸ hk')
    rw [hl, hr, hs.pending]
    simpa only [if_neg hne] using h.gone k' hk'
  · obtain ⟨hd, hpend, hset⟩ := h.healthy hst
    refine ⟨hs.downUntil.trans hd, hs.pending.trans hpend, fun k' hk' => ?_⟩
    have hold := hset k' (by rw [Free, ← hs.running]; exact hk')
    unfold Settled at hold ⊢
    rw [hs.log, hl, hr]
    by_cases hne : k' = k
    · subst hne
      simp only [if_true]
      cases hfin : final k' w.log with
      | none => exact .inl (hv.2 hst).symm
      | some x =>
        rw [hfin] at hold
        exact ⟨by rw [← hv.2 hst, hold.2], hold.2⟩
    · simpa only [if_neg hne] using hold

/-- The local half of a write operation of task `n`: only keys of the operation
change, and none of them is a deleted key that comes back. -/
theorem Step.ownLocal (h : Inv L strict w) (hs : SameFields w w')
    {op : CertOp} (ho : w.running n = some op) (hr : w'.rb = w.rb)
    (hl : ∀ k, op.covers k = false → w'.lb k = w.lb k)
    (hk : ∀ k, op.covers k = true → w'.lb k ≠ none → L k ∧ Cert.gone k w.log = false)
    (hheld : ∀ k, op.covers k = true → w'.lb k = none → op.deletes = true) :
    Step L strict n w w' := by
  refine ⟨⟨fun k hk' => ?_, by rw [hr]; exact h.shared, by rw [hs.running]; exact h.apart,
    by rw [hs.running, hs.log]; exact h.storing, fun k hk' => ?_, fun hst => ?_⟩,
    fun m hm => ?_⟩
  · cases hc : op.covers k with
    | false => exact h.keys k (by rwa [hl k hc, hr] at hk')
    | true =>
      rcases hk' with hk' | hk'
      · exact (hk k hc hk').1
      · exact h.keys k (.inr (hr ▸ hk'))
  · rw [hs.log] at hk'
    refine ⟨?_, by rw [hr, hs.pending]; exact (h.gone k hk').2⟩
    cases hc : op.covers k with
    | false => rw [hl k hc]; exact (h.gone k hk').1
    | true =>
      by_contra hne
      rw [(hk k hc hne).2] at hk'
      cases hk'
  · obtain ⟨hd, hpend, hset⟩ := h.healthy hst
    refine ⟨hs.downUntil.trans hd, hs.pending.trans hpend, fun k hk' => ?_⟩
    have hfree : Free strict w k := by rw [Free, ← hs.running]; exact hk'
    have hold := hset k hfree
    unfold Settled at hold ⊢
    rw [hs.log, hl k (hfree n op ho (.inl hst)), hr]
    exact hold
  · refine ⟨by rw [hs.running], ⟨[], hs.log⟩,
      fun k' _ h' _ => by rw [hr]; exact h', fun op' ho' hop k hk' => ?_, fun k v ho' hne hn => ?_⟩
    · have hl' : w'.lb k = w.lb k := hl k (by
        cases hc : op.covers k with
        | false => rfl
        | true =>
          rw [h.apart n m op op' (Ne.symm hm) ho ho' (hop.imp id .inr) k hc] at hk'
          cases hk')
      exact ⟨hl', fun _ h => by rw [hr]; exact h, fun _ he => by rw [hr, hl', he],
        fun _ hp => .inl (by rw [hs.pending]; exact hp)⟩
    · cases hc : op.covers k with
      | false => exact hne ((hl k hc).symm.trans hn)
      | true =>
        have := h.apart n m op _ (Ne.symm hm) ho ho' (.inr (.inl (hheld k hc hn))) k hc
        simp [CertOp.covers] at this

/-- A file of the replica goes: by a write operation on it, or where the replica may
fail. -/
theorem Step.drop (h : Inv L strict w) (hs : SameFields w w')
    {k : String} (hk : ¬ strict ∨ ∃ op, w.running n = some op ∧ op.covers k = true)
    (hl : w'.lb = w.lb) (hr : w'.rb = fun k' => if k' = k then none else w.rb k') :
    Step L strict n w w' ∧ (¬ strict → ∀ m, Rely strict m w w') := by
  have hr' : ∀ k', w.rb k' = none → w'.rb k' = none := fun k' h => by
    rw [hr]
    by_cases hne : k' = k
    · exact if_pos hne
    · exact (if_neg hne).trans h
  have hrely : ∀ m, (¬ strict ∨ m ≠ n) → Rely strict m w w' := fun m hm => by
    refine ⟨by rw [hs.running], ⟨[], hs.log⟩, fun k' _ h' _ => hr' k' h',
      fun op ho hop k' hk' => ?_, fun _ _ _ h => by rw [hl]; exact h⟩
    refine ⟨by rw [hl], fun _ => hr' k', fun hst he => ?_,
      fun _ hp => .inl (by rw [hs.pending]; exact hp)⟩
    rcases hm with hm | hm
    · exact absurd hst hm
    · rcases hk with hk | ⟨op', ho', hk⟩
      · exact absurd hst hk
      · rw [hl, hr, ← he]
        exact if_neg fun hne => by
          rw [hne, h.apart n m op' op (Ne.symm hm) ho' ho (hop.imp id .inr) k hk] at hk'
          cases hk'
  refine ⟨⟨⟨fun k' hk' => ?_, fun k' hk' => h.shared k' fun hn => hk' (hr' k' hn),
    by rw [hs.running]; exact h.apart, by rw [hs.running, hs.log]; exact h.storing,
    fun k' hk' => ?_, fun hst => ?_⟩, fun m hm => hrely m (.inr hm)⟩, fun hf m => hrely m (.inl hf)⟩
  · refine h.keys k' (hk'.imp (fun h => hl ▸ h) fun hne hn => hne (hr' k' hn))
  · rw [hs.log] at hk'
    exact ⟨by rw [hl]; exact (h.gone k' hk').1,
      (h.gone k' hk').2.imp (hr' k') fun h => hs.pending ▸ h⟩
  · obtain ⟨hd, hp, hset⟩ := h.healthy hst
    refine ⟨hs.downUntil.trans hd, hs.pending.trans hp, fun k' hk' => ?_⟩
    have hfree : Free strict w k' := by rw [Free, ← hs.running]; exact hk'
    have hold := hset k' hfree
    have hne : k' ≠ k := fun he => by
      rcases hk with hk | ⟨op, ho, hk⟩
      · exact hk hst
      · rw [← he, hfree n op ho (.inl hst)] at hk
        cases hk
    unfold Settled at hold ⊢
    rw [hs.log, hl, hr]
    simpa only [if_neg hne] using hold

/-- A write operation begins. -/
theorem Step.enter (h : Inv L strict w) {op : CertOp} (hn : w.running n = none)
    (hfree : ∀ k, op.covers k = true → Free (strict ∨ op.deletes = true) w k)
    (hkey : ∀ k v, op = .store k v → L k) :
    Step L strict n w (w.enter n op) := by
  have hrun : ∀ m, m ≠ n → (w.enter n op).running m = w.running m := fun m hm => by
    simp [CertWorld.enter, hm]
  have hself : (w.enter n op).running n = some op := by simp [CertWorld.enter]
  have hgone : ∀ k, Cert.gone k (w.enter n op).log = true → Cert.gone k w.log = true := by
    intro k hk
    cases op with
    | store k' v => exact (Bool.and_eq_true_iff.mp hk).2
    | delete p had => exact hk
  refine ⟨⟨h.keys, h.shared, ?_, ?_, fun k hk => h.gone k (hgone k hk), fun hst => ?_⟩,
    fun m hm => ?_⟩
  · intro a b op₁ op₂ hab h₁ h₂ hop k hk
    by_cases ha : a = n
    · subst ha
      rw [hself] at h₁
      obtain rfl := some.inj h₁
      rw [hrun b (Ne.symm hab)] at h₂
      exact hfree k hk b op₂ h₂ (or_assoc.mpr hop)
    · rw [hrun a ha] at h₁
      by_cases hb : b = n
      · subst hb
        rw [hself] at h₂
        obtain rfl := some.inj h₂
        cases hc : op.covers k with
        | false => rfl
        | true =>
          rw [hfree k hc a op₁ h₁ (or_assoc.mpr (hop.imp id Or.symm))] at hk
          cases hk
      · rw [hrun b hb] at h₂
        exact h.apart a b op₁ op₂ hab h₁ h₂ hop k hk
  · intro m k v hm
    by_cases hmn : m = n
    · subst hmn
      rw [hself] at hm
      obtain rfl := some.inj hm
      exact ⟨by simp [CertWorld.enter, Cert.gone], hkey k v rfl⟩
    · rw [hrun m hmn] at hm
      refine ⟨?_, (h.storing m k v hm).2⟩
      by_contra hg
      have := hgone k (by simpa using hg)
      rw [(h.storing m k v hm).1] at this
      cases this
  · obtain ⟨hd, hp, hset⟩ := h.healthy hst
    refine ⟨hd, hp, fun k hk => hset k fun m op' hm hop => ?_⟩
    by_cases hmn : m = n
    · rw [hmn, hn] at hm
      cases hm
    · exact hk m op' (by rw [hrun m hmn]; exact hm) hop
  · exact ⟨hrun m hm, ⟨[.began op], rfl⟩, fun _ _ h _ => h, fun _ _ _ k _ =>
      ⟨rfl, fun _ h => h, fun _ h => h, fun _ h => .inl h⟩, fun _ _ _ h => h⟩

/-- What a write operation must have done when it returns. -/
def Done (strict : Prop) (w : CertWorld) : CertOp → Prop
  | .store k v => strict → w.lb k = some v ∧ w.rb k = some v
  | .delete p _ => ∀ k, covers p k = true → w.lb k = none ∧ (w.rb k = none ∨ k ∈ w.pendingDeletes)

/-- A write operation returns. -/
theorem Step.leave (h : Inv L strict w) {op : CertOp} (ho : w.running n = some op)
    (hdone : Done strict w op) : Step L strict n w (w.leave n) := by
  have hrun : ∀ m, m ≠ n → (w.leave n).running m = w.running m := fun m hm => by
    simp [CertWorld.leave, hm]
  have hself : (w.leave n).running n = none := by simp [CertWorld.leave]
  have hlog : (w.leave n).log = .returned op :: w.log := by simp [CertWorld.leave, ho]
  have hold : ∀ m op', (w.leave n).running m = some op' → m ≠ n ∧ w.running m = some op' := by
    intro m op' hm
    by_cases hmn : m = n
    · rw [hmn, hself] at hm
      cases hm
    · exact ⟨hmn, hrun m hmn ▸ hm⟩
  refine ⟨⟨h.keys, h.shared, ?_, ?_, fun k hk => ?_, fun hst => ?_⟩, fun m hm => ?_⟩
  · exact fun a b op₁ op₂ hab h₁ h₂ hop =>
      h.apart a b op₁ op₂ hab (hold a _ h₁).2 (hold b _ h₂).2 hop
  · intro m k v hm
    obtain ⟨hmn, hm⟩ := hold m _ hm
    obtain ⟨hg, hL⟩ := h.storing m k v hm
    refine ⟨?_, hL⟩
    rw [hlog]
    cases op with
    | store k' v' => simp [Cert.gone, hg]
    | delete p had =>
      have hc := h.apart m n _ _ hmn hm ho (.inr (.inr rfl)) k (by simp [CertOp.covers])
      simp only [CertOp.covers] at hc
      simp [Cert.gone, hg, hc]
  · rw [hlog] at hk
    cases op with
    | store k' v' => exact h.gone k (Bool.and_eq_true_iff.mp hk).2
    | delete p had =>
      rcases Bool.or_eq_true_iff.mp hk with hk | hk
      · exact hdone k hk
      · exact h.gone k hk
  · obtain ⟨hd, hp, hset⟩ := h.healthy hst
    refine ⟨hd, hp, fun k hk => ?_⟩
    have hfree : op.covers k = false → Free strict w k := fun hc m op' hm hop => by
      by_cases hmn : m = n
      · rw [hmn, ho] at hm
        exact some.inj hm ▸ hc
      · exact hk m op' (by rw [hrun m hmn]; exact hm) hop
    unfold Settled
    rw [hlog]
    cases op with
    | store k' v' =>
      by_cases hkk : k' = k
      · subst hkk
        simp only [final, if_true]
        exact hdone hst
      · simp only [final, if_neg hkk]
        exact hset k (hfree (by simp [CertOp.covers, Ne.symm hkk]))
    | delete p had =>
      cases hc : covers p k with
      | true =>
        simp only [final, hc, if_true]
        exact ⟨(hdone k hc).1, (hdone k hc).2.resolve_right (by simp [hp])⟩
      | false =>
        simp only [final, hc, Bool.false_eq_true, if_false]
        exact hset k (hfree hc)
  · exact ⟨hrun m hm, ⟨[.returned op], hlog⟩, fun _ _ h _ => h, fun _ _ _ k _ =>
      ⟨rfl, fun _ h => h, fun _ h => h, fun _ h => .inl h⟩, fun _ _ _ h => h⟩

end

end Swarmy.Cert
