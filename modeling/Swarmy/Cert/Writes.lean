import Swarmy.Cert.Careful

/-!
# The tiered certificate store: Store and Delete

The two write operations of a careful run, from their call to their return
(`does_store`, `does_delete`), and with them the rely/guarantee argument for the
whole store, `certOutline`.
-/

namespace Swarmy.Cert

open Coop List Option

section

variable {L : String → Prop} {strict : Prop} {n : Nat} {j : CertJob} {w w' : CertWorld}

/-- A part that moves the world along its rely, as any part. -/
theorem Does.of_along {α : Type} {P : α → CertWorld → Prop}
    {Q : Except StorageError α → CertWorld → Prop} {p : CertProg α} (h : Along L strict n j P p w)
    (hQ : ∀ x w', Rely strict n w w' → (∀ a, x = .ok a → P a w') → Q x w') :
    Does L strict n j Q p w :=
  Meets.mono (fun x w' hx => hQ x w' hx.1 hx.2) h

theorem Does.of_along_total {α : Type} {P : α → CertWorld → Prop}
    {Q : Except StorageError α → CertWorld → Prop} {p : CertProg α} (hp : p.Total)
    (h : Along L strict n j P p w) (hQ : ∀ a w', Rely strict n w w' → P a w' → Q (.ok a) w') :
    Does L strict n j Q p w := by
  refine Meets.mono (fun x w' hx => ?_) (Meets.total hp h)
  obtain ⟨⟨a, rfl⟩, hr, ha⟩ := hx
  exact hQ a w' hr (ha a rfl)

theorem does_inv {α : Type} {P : Except StorageError α → CertWorld → Prop} {p : CertProg α}
    (h : Inv L strict w → Does L strict n j P p w) : Does L strict n j P p w :=
  .of_guar fun _ hg => h hg.inv

/-- An atomic step that is a move of its own. -/
theorem does_act {α : Type} {f : CertWorld → CertWorld} {k : CertWorld → CertProg α}
    {P : Except StorageError α → CertWorld → Prop} (h : Inv L strict w → Step L strict n w (f w))
    (hk : Does L strict n j P (k w) (f w)) : Does L strict n j P (.act f k) w :=
  does_inv fun hI => .act (fun _ hg => hg.trans (h hI)) hk

theorem does_modify {α : Type} {f : CertWorld → CertWorld} {k : Unit → CertProg α}
    {P : Except StorageError α → CertWorld → Prop} (h : Inv L strict w → Step L strict n w (f w))
    (hk : Does L strict n j P (k ()) (f w)) : Does L strict n j P (Prog.modify f >>= k) w :=
  does_act h hk

theorem does_read {α β : Type} {f : CertWorld → α} {k : α → CertProg β}
    {P : Except StorageError β → CertWorld → Prop} (hk : Does L strict n j P (k (f w)) w) :
    Does L strict n j P (Prog.read f >>= k) w :=
  .act (fun _ hg => hg) hk

/-- The call of the local tier by which a write operation begins. -/
theorem does_ownLocal {c : CertCall} {op : CertOp} (hc : c.replica = false)
    (hr : ∀ f, repEffect c f = f) (ho : w.running n = some op)
    (hl : ∀ f k, op.covers k = false → locEffect c f k = f k)
    (hk : ∀ w₁, Inv L strict w₁ → Rely strict n w w₁ → ∀ k, op.covers k = true →
      locEffect c w₁.lb k ≠ none → L k ∧ gone k w₁.log = false)
    (hheld : ∀ f k, op.covers k = true → locEffect c f k = none → op.deletes = true) :
    Does L strict n j (fun x w' => ∃ w₁, Rely strict n w w₁ ∧ (careful strict L).resume j .ok c w₁ ∧
        x = .ok (certDo c w₁).1 ∧ w'.lb = locEffect c w₁.lb ∧ w'.rb = w₁.rb ∧ SameFields w₁ w')
      (Prog.perform (S := CertSig) c) w := by
  refine .call fun w₁ hI hR χ r w₂ hok he => ?_
  obtain rfl : χ = .ok := hok.1 (.inr hc)
  obtain ⟨hs, hres, hb⟩ := certExec_cases he
  rcases hb with ⟨_, _, hχ⟩ | ⟨hl', hr', _⟩
  · cases hχ
  rcases hres with ⟨_, rfl⟩ | ⟨hχ, _⟩
  · rw [hr] at hr'
    refine ⟨Step.ownLocal hI hs (hR.running.trans ho) hr' (fun k hk => ?_)
      (fun k hk' hne => ?_) fun k hk' hn => ?_, .ret ⟨w₁, hR, hok, rfl, hl', hr', hs⟩⟩
    · rw [hl']
      exact hl _ k hk
    · exact hk w₁ hI hR k hk' (hl' ▸ hne)
    · exact hheld _ k hk' (hl' ▸ hn)
  · exact absurd rfl hχ

/-! ## Store -/

/-- What the task of a store knows once the local tier has the bytes. -/
def Stored (strict : Prop) (n : Nat) (k : String) (v : List UInt8) (w : CertWorld) : Prop :=
  w.running n = some (.store k v) ∧ Still strict (w.lb k) v

theorem Rely.own {k : String} {v : List UInt8} (hr : Rely strict n w w')
    (ho : w.running n = some (.store k v)) (hs : strict) : Protected strict k w w' :=
  hr.kept _ ho (.inl hs) k (by simp [CertOp.covers])

theorem Stored.rely {k : String} {v : List UInt8} (h : Stored strict n k v w)
    (hr : Rely strict n w w') : Stored strict n k v w' :=
  ⟨hr.running.trans h.1, hr.held k v h.1 h.2.1, fun hs => ((hr.own h.1 hs).lb).trans (h.2.2 hs)⟩

/-- Both tiers have the bytes, if `strict`. -/
def Both (strict : Prop) (n : Nat) (k : String) (v : List UInt8) (w : CertWorld) : Prop :=
  Stored strict n k v w ∧ (strict → w.rb k = some v)

theorem Both.rely {k : String} {v : List UInt8} (h : Both strict n k v w)
    (hr : Rely strict n w w') : Both strict n k v w' := by
  refine ⟨h.1.rely hr, fun hs => ?_⟩
  have he := (hr.own h.1.1 hs).equal hs ((h.2 hs).trans (h.1.2.2 hs).symm)
  exact he.trans ((h.1.rely hr).2.2 hs)

/-- The write-through half of a store. -/
def writeThrough (k : String) (v : List UInt8) : CertProg Unit :=
  replicaUp >>= fun up => if up = true then
    Prog.perform (S := CertSig) (.replicaStore k v) >>= fun r => match r with
      | .error _ => markDown
      | .ok () => markUp >>= fun _ => alignMtime k
  else setDirty

theorem total_alignMtime (k : String) : (alignMtime k).Total := by
  refine .bind (.perform _) fun r => ?_
  split
  · trivial
  · split
    · trivial
    · exact .bind (.perform _) fun _ => trivial

theorem total_writeThrough (k : String) (v : List UInt8) : (writeThrough k v).Total := by
  refine .bind (.read _) fun up => ?_
  split
  · refine .bind (.perform _) fun r => ?_
    split
    · exact .modify _
    · exact .bind (.modify _) fun _ => total_alignMtime k
  · exact .modify _

theorem along_writeThrough {k : String} {v : List UInt8} (hn : nodeLocal k = false)
    (hst : Stored strict n k v w) :
    Along L strict n (.store k v) (fun _ w' => Both strict n k v w') (writeThrough k v) w := by
  refine .bind (Rely.trans strict n) along_replicaUp fun up w₁ hw₁ hup => ?_
  have hst₁ := hst.rely hw₁
  split
  · refine .bind (Rely.trans strict n) (along_copyOut hn fun w' _ hw' _ => (hst₁.rely hw').2)
      fun r w₂ hw₂ hr => ?_
    have hst₂ := hst₁.rely hw₂
    split
    · have hf := hr.2 (by rintro ⟨⟩)
      exact .mono (fun _ w₃ hw₃ _ => Both.rely ⟨hst₂, fun hs => absurd hs hf⟩ hw₃)
        (along_markDown hf)
    · have hb : Both strict n k v w₂ := ⟨hst₂, fun _ => hr.1 rfl⟩
      refine .bind (Rely.trans strict n) along_markUp fun _ w₃ hw₃ _ => ?_
      exact .mono (fun _ w₄ hw₄ _ => (hb.rely hw₃).rely hw₄) (along_alignMtime k)
  · rename_i hne
    obtain ⟨rfl, _, hf⟩ := hup
    have hf := hf (by simpa using hne)
    exact .mono (fun _ w₃ hw₃ _ => Both.rely ⟨hst₁, fun hs => absurd hs hf⟩ hw₃)
      along_setDirty

theorem does_store {k : String} {v : List UInt8} (hL : strict → ∀ k, L k → nodeLocal k = false)
    (hk : L k) (ho : w.running n = some (.store k v)) :
    Does L strict n (.store k v) (fun x w' => x = .ok () ∧ w'.running n = some (.store k v) ∧
      Done strict w' (.store k v)) (store k v) w := by
  refine .bind (does_ownLocal rfl (fun _ => rfl) ho (fun f k' hc => ?_) (fun w₁ hI hR k' hc _ => ?_)
    fun f k' hc hn => ?_) (fun r w' hr => ?_) fun e w' he => ?_
  · simp only [CertOp.covers, beq_eq_false_iff_ne] at hc
    exact if_neg hc
  · simp only [CertOp.covers, beq_iff_eq] at hc
    exact ⟨hc ▸ hk, hc ▸ (hI.storing n k v (hR.running.trans ho)).1⟩
  · simp only [CertOp.covers, beq_iff_eq] at hc
    rw [locEffect, if_pos hc] at hn
    cases hn
  swap
  · obtain ⟨_, _, _, he, _⟩ := he
    cases he
  obtain ⟨w₁, hR, _, hr, hl, hrb, hs⟩ := hr
  have hlk : w'.lb k = some v := by
    rw [hl]
    exact if_pos rfl
  have hst : Stored strict n k v w' :=
    ⟨(congrFun hs.running n).trans (hR.running.trans ho), by simp [hlk], fun _ => hlk⟩
  obtain rfl := Except.ok.inj hr
  simp only [certDo]
  split
  · rename_i hn
    refine .ret ⟨rfl, hst.1, fun hs => ?_⟩
    rw [hL hs k hk] at hn
    cases hn
  · rename_i hn
    refine does_act (fun hI => (Step.forget hI (.inr ⟨v, hst.1⟩)).1) ?_
    refine Does.of_along_total (total_writeThrough k v)
      (along_writeThrough (by simpa using hn) hst) fun _ w'' _ hb => ?_
    obtain ⟨⟨ho', hl'⟩, hb⟩ := hb
    exact ⟨rfl, ho', fun hs => ⟨hl'.2 hs, hb hs⟩⟩

/-! ## Delete -/

theorem nodeLocal_of_covers {p k : String} (hp : nodeLocal p = true) (hc : covers p k = true) :
    nodeLocal k = true := by
  rw [covers, Bool.or_eq_true, beq_iff_eq] at hc
  rcases hc with rfl | hc
  · exact hp
  · rw [under, Bool.or_eq_true, beq_iff_eq] at hc
    rcases hc with rfl | hc
    · exact absurd hp (by decide)
    · rw [nodeLocal, isPrefixOf_iff_prefix] at hp ⊢
      rw [ isPrefixOf_iff_prefix] at hc
      exact hp.trans ((prefix_append p.toList "/".toList).trans
        (by simpa only [String.toList_append] using hc))

/-- What a delete has found out about the keys it removes: they are all below the
path, and they include the local ones and, unless it is a directory, the path
itself. -/
structure Expanded (L : String → Prop) (p : String) (had keys : List String) : Prop where
  covered : ∀ k ∈ keys, covers p k = true
  path : ∀ k, L k → covers p k = true → under p k = true ∨ k ∈ keys
  had : ∀ k ∈ had, k ∈ keys

/-- What the task of a delete relies on while it runs. -/
def Deleting (n : Nat) (p : String) (had : List String) (w : CertWorld) : Prop :=
  w.running n = some (.delete p had)

theorem Deleting.rely {p : String} {had : List String} (h : Deleting n p had w)
    (hr : Rely strict n w w') : Deleting n p had w' := hr.running.trans h

theorem Deleting.protected {p : String} {had : List String} (h : Deleting n p had w)
    (hr : Rely strict n w w') {k : String} (hk : covers p k = true) : Protected strict k w w' :=
  hr.kept _ h (.inr rfl) k hk

/-- Below `p`, the local tier holds the keys `had`. -/
def HadLocally (p : String) (had : List String) (w : CertWorld) : Prop :=
  ∀ k, k ∈ had ↔ w.lb k ≠ none ∧ covers p k = true

theorem HadLocally.rely {p : String} {had : List String} (h : HadLocally p had w)
    (hd : Deleting n p had w) (hr : Rely strict n w w') : HadLocally p had w' := by
  intro k
  rw [h k]
  constructor
  · exact fun hk => ⟨by rw [(hd.protected hr hk.2).lb]; exact hk.1, hk.2⟩
  · exact fun hk => ⟨by rw [← (hd.protected hr hk.2).lb]; exact hk.1, hk.2⟩

/-- The files among the keys. -/
theorem along_terminals {p : String} {had : List String} (hd : Deleting n p had w)
    (hh : HadLocally p had w) (keys : List String) :
    Along L strict n j (fun ks _ => (∀ k ∈ ks, k ∈ keys) ∧ ∀ k ∈ had, k ∈ keys → k ∈ ks)
      (terminalKeys keys) w := by
  induction keys generalizing w with
  | nil => exact .ret (Rely.refl strict n) ⟨by simp, by simp⟩
  | cons k keys ih =>
    refine .bind (Rely.trans strict n) (along_read fun _ => rfl) fun r w₁ hw₁ hr => ?_
    have hd₁ := hd.rely hw₁
    have hh₁ := hh.rely hd hw₁
    refine .bind (Rely.trans strict n) (ih hd₁ hh₁) fun ks _ _ hks => .ret (Rely.refl strict n) ?_
    have hterm : k ∈ had → r.toOption.any (·.isTerminal) = true := fun hk => by
      obtain ⟨hk, _⟩ := (hh₁ k).mp hk
      rcases hr with rfl | ⟨hr, _⟩
      · rw [CertWorld.lb, Tier.bytes, ne_eq, map_eq_none_iff] at hk
        obtain ⟨f, hf⟩ := ne_none_iff_exists'.mp hk
        simp [certDo, hf, Except.toOption]
      · cases hr
    constructor
    · intro k' hk'
      split at hk'
      · rcases mem_cons.mp hk' with rfl | hk'
        · exact mem_cons_self
        · exact mem_cons_of_mem _ (hks.1 k' hk')
      · exact mem_cons_of_mem _ (hks.1 k' hk')
    · intro k' hk' hmem
      rcases mem_cons.mp hmem with rfl | hmem
      · rw [if_pos (hterm hk')]
        exact mem_cons_self
      · split
        · exact mem_cons_of_mem _ (hks.2 k' hk' hmem)
        · exact hks.2 k' hk' hmem

/-- No key of `L` is a directory of another one. -/
def Tree (L : String → Prop) : Prop := ∀ k k', L k → L k' → under k k' = false

theorem lookup_none_iff {k : String} : w.loc.lookup k = none ↔ w.lb k = none :=
  map_eq_none_iff.symm

theorem total_terminalKeys (keys : List String) : (terminalKeys keys).Total := by
  induction keys with
  | nil => trivial
  | cons k keys ih => exact .bind (.perform _) fun _ => .bind ih fun _ => trivial

theorem total_expand (p : String) : (expand p).Total := by
  refine .bind (.perform _) fun r => ?_
  split
  · split
    · trivial
    · refine .bind (.perform _) fun r => ?_
      split
      · exact total_terminalKeys _
      · trivial
  · trivial

theorem total_expandReplica (p : String) (keys : List String) : (expandReplica p keys).Total := by
  refine .bind (.read _) fun up => ?_
  split
  · refine .bind (.perform _) fun r => ?_
    split <;> trivial
  · trivial

theorem along_expand (hT : Tree L) {p : String} {had : List String} (hd : Deleting n p had w)
    (hh : HadLocally p had w) :
    Along L strict n j (fun keys _ => Expanded L p had keys) (expand p) w := by
  refine .bind (Rely.trans strict n) (along_read fun _ => rfl) fun r w₁ hw₁ hr =>
    along_inv fun hI => ?_
  have hd₁ := hd.rely hw₁
  have hh₁ := hh.rely hd hw₁
  have hr : r = (certDo (.localStat p) w₁).1 := hr.resolve_right fun h => by cases h.1
  simp only [certDo] at hr
  cases hp : w₁.loc.lookup p with
  | some f =>
    simp only [hp] at hr
    subst hr
    have hLp : L p := hI.keys p (.inl (by rw [ne_eq, ← lookup_none_iff, hp]; simp))
    have honly : ∀ k, L k → covers p k = true → k = p := fun k hk hc => by
      rw [covers, hT p k hLp hk, Bool.or_false, beq_iff_eq] at hc
      exact hc
    refine .ret (Rely.refl strict n)
      ⟨by simp [covers], fun k hk hc => .inr (by simp [honly k hk hc]),
      fun k hk => ?_⟩
    obtain ⟨hk, hc⟩ := (hh₁ k).mp hk
    simp [honly k (hI.keys k (.inl hk)) hc]
  | none =>
    simp only [hp] at hr
    have hlp : w₁.lb p = none := lookup_none_iff.mp hp
    have hunder : ∀ k, w₁.lb k ≠ none → covers p k = true → under p k = true := by
      intro k hk hc
      rw [covers, Bool.or_eq_true, beq_iff_eq] at hc
      rcases hc with rfl | hc
      · exact absurd hlp hk
      · exact hc
    by_cases hemp : (w₁.loc.keysWith (under p)).isEmpty = true
    · obtain rfl := hr.trans (if_pos hemp)
      refine .ret (Rely.refl strict n) ⟨by simp [covers], fun k _ hc => ?_, fun k hk => ?_⟩
      · rw [covers, Bool.or_eq_true, beq_iff_eq] at hc
        exact hc.symm.imp id (by simp)
      · obtain ⟨hk, hc⟩ := (hh₁ k).mp hk
        have hmem : k ∈ w₁.loc.keysWith (under p) := Tier.mem_keysWith.mpr ⟨hk, hunder k hk hc⟩
        rw [isEmpty_iff.mp hemp] at hmem
        cases hmem
    · obtain rfl := hr.trans (if_neg hemp)
      obtain ⟨k₀, hk₀⟩ := exists_mem_of_ne_nil (w₁.loc.keysWith (under p)) fun h =>
        hemp (isEmpty_iff.mpr h)
      obtain ⟨hlk₀, hu₀⟩ := Tier.mem_keysWith.mp hk₀
      have hLp : ¬ L p := fun hp => by
        rw [hT p k₀ hp (hI.keys k₀ (.inl hlk₀))] at hu₀
        cases hu₀
      refine .bind (Rely.trans strict n) (along_read fun _ => rfl) fun r w₂ hw₂ hr => ?_
      have hr : r = (certDo (.localList p) w₂).1 := hr.resolve_right fun h => by cases h.1
      subst hr
      have hh₂ := hh₁.rely hd₁ hw₂
      refine .mono (fun keys w₃ _ hks => ⟨fun k hk => ?_, fun k hk hc => .inl ?_, fun k hk => ?_⟩)
        (along_terminals (hd₁.rely hw₂) hh₂ _)
      · have := (Tier.mem_keysWith.mp (hks.1 k hk)).2
        simp [covers, this]
      · rw [covers, Bool.or_eq_true, beq_iff_eq] at hc
        exact hc.resolve_left fun he => hLp (he ▸ hk)
      · have hk₂ := (hh₂ k).mp hk
        have hk₁ := (hh₁ k).mp hk
        exact hks.2 k hk (Tier.mem_keysWith.mpr ⟨hk₂.1, hunder k hk₁.1 hk₁.2⟩)

/-- What is known of the keys of a delete whose local half is over, when `rest` is
still to be deleted on the replica. -/
structure Removing (n : Nat) (p : String) (had rest : List String)
    (w : CertWorld) : Prop where
  running : Deleting n p had w
  local' : ∀ k, covers p k = true → w.lb k = none
  replica : ∀ k, covers p k = true → w.rb k = none ∨ k ∈ w.pendingDeletes ∨ k ∈ rest
  covered : ∀ k ∈ rest, covers p k = true

theorem Removing.rely {p : String} {had rest : List String} (h : Removing n p had rest w)
    (hr : Rely strict n w w') : Removing n p had rest w' where
  running := h.running.rely hr
  local' k hk := ((h.running.protected hr hk).lb).trans (h.local' k hk)
  replica k hk := by
    have hp := h.running.protected hr hk
    rcases h.replica k hk with hn | hn | hn
    · exact .inl (hp.absent (h.local' k hk) hn)
    · exact (hp.pending (h.local' k hk) hn).elim (fun h => .inr (.inl h)) .inl
    · exact .inr (.inr hn)
  covered := h.covered

/-- The replica's listing may only fail when it had nothing more to tell. -/
theorem along_expandReplica {p : String} {had keys : List String} (hd : Deleting n p had w)
    (he : Expanded L p had keys) (hl : w.downUntil ≤ w.now ∨ Listed w p)
    (hlb : ∀ k, covers p k = true → w.lb k = none) :
    Along L strict n (.delete p) (fun ks w' => (∀ k ∈ ks, covers p k = true) ∧
      ∀ k, covers p k = true → w'.rb k = none ∨ k ∈ ks) (expandReplica p keys) w := by
  have hkeys : ∀ w', Inv L strict w' → ∀ k, covers p k = true → w'.rb k ≠ none →
      under p k = true ∨ k ∈ keys := fun w' hI k hc hk => he.path k (hI.keys k (.inr hk)) hc
  have hlisted : ∀ w', Inv L strict w' → Listed w' p → Deleting n p had w' →
      ∀ k, covers p k = true → w'.rb k = none ∨ k ∈ keys := by
    intro w' hI hl hd k hc
    by_cases hk : w'.rb k = none
    · exact .inl hk
    · rcases hkeys w' hI k hc hk with hu | hk'
      · exact .inr (he.had k (hl n had hd k hu hk))
      · exact .inr hk'
  refine .bind (Rely.trans strict n) along_replicaUp ?_
  rintro up w₁ hw₁ ⟨rfl, hup, _⟩
  refine along_inv fun hI => ?_
  split
  · refine Keeps.call (Rely.trans strict n) fun w₂ hI₂ hw₂ χ r w₃ hok hex => ?_
    obtain ⟨hs, hr, _⟩ := certExec_cases hex
    obtain ⟨hlb₃, hrb₃⟩ := certExec_reads rfl hex
    obtain ⟨hstep, hrely⟩ := step_of_same (n := n) hI₂ hex hlb₃ hrb₃
    refine ⟨hstep, hrely, ?_⟩
    have hd₂ := hd.rely hw₂
    rcases hr with ⟨_, rfl⟩ | ⟨hχ, rfl⟩
    · refine .ret (Rely.refl strict n) ⟨fun k hk => ?_, fun k hc => ?_⟩
      · rcases mem_append.mp hk with hk | hk
        · exact he.covered k hk
        · simp [covers, (Tier.mem_keysWith.mp hk).2]
      · rw [hrb₃]
        by_cases hk : w₂.rb k = none
        · exact .inl hk
        · right
          rcases hkeys w₂ hI₂ k hc hk with hu | hk'
          · exact mem_append_right _ (Tier.mem_keysWith.mpr ⟨hk, hu⟩)
          · exact mem_append_left _ hk'
    · refine .ret (Rely.refl strict n) ⟨he.covered, fun k hc => ?_⟩
      rw [hrb₃]
      exact hlisted w₂ hI₂ (hok.2 hχ) hd₂ k hc
  · rename_i hne
    refine .ret (Rely.refl strict n) ⟨he.covered, hlisted w₁ hI (hl.resolve_left fun hle => ?_) hd⟩
    rw [hup, decide_eq_true hle] at hne
    exact hne rfl

/-- A key is gone from the replica. -/
theorem Removing.dropped {p k : String} {had rest : List String}
    (h : Removing n p had (k :: rest) w) (hs : SameFields w w') (hl : w'.lb = w.lb)
    (hr : w'.rb = fun k' => if k' = k then none else w.rb k') : Removing n p had rest w' where
  running := (congrFun hs.running n).trans h.running
  local' k' hk' := by rw [hl]; exact h.local' k' hk'
  replica k' hk' := by
    rw [hr, hs.pending]
    by_cases hne : k' = k
    · exact .inl (if_pos hne)
    · have h' := h.replica k' hk'
      simp only [mem_cons, hne, false_or] at h'
      simpa only [hne, if_false] using h'
  covered k' hk' := h.covered k' (mem_cons_of_mem _ hk')

theorem Removing.weaken {p k : String} {had rest : List String} (h : Removing n p had rest w)
    (hk : covers p k = true) : Removing n p had (k :: rest) w where
  running := h.running
  local' := h.local'
  replica k' hk' := (h.replica k' hk').imp id (.imp id (mem_cons_of_mem k))
  covered k' hk' := by
    rcases mem_cons.mp hk' with rfl | hk'
    · exact hk
    · exact h.covered k' hk'

/-- One key is deleted on the replica, or remembered. -/
theorem does_deleteReplica {p k : String} {had rest : List String}
    (h : Removing n p had (k :: rest) w) :
    Does L strict n (.delete p) (fun x w' => x = .ok () ∧ Removing n p had rest w')
      (deleteReplica k) w := by
  have hk := h.covered k mem_cons_self
  have hremember : ∀ w', Removing n p had (k :: rest) w' → ¬ strict →
      Does L strict n (.delete p) (fun x w' => x = .ok () ∧ Removing n p had rest w')
        (remember k) w' := by
    intro w' h' hf
    refine does_act (fun hI => And.left (Step.quiet hI rfl rfl rfl rfl (fun k' hk' => ?_)
      fun hst => absurd hst hf)) (.ret ⟨rfl, h'.running, h'.local', fun k' hk' => ?_,
        fun k' hk' => h'.covered k' (mem_cons_of_mem _ hk')⟩)
    · exact mem_insert_of_mem hk'
    · rcases h'.replica k' hk' with hn | hn | hn
      · exact .inl hn
      · exact .inr (.inl (mem_insert_of_mem hn))
      · rcases mem_cons.mp hn with rfl | hn
        · exact .inr (.inl mem_insert_self)
        · exact .inr (.inr hn)
  have hmarkDown : ∀ w', Removing n p had (k :: rest) w' → ¬ strict →
      Does L strict n (.delete p) (fun x w' => x = .ok () ∧ Removing n p had rest w')
        (markDown >>= fun _ => remember k) w' := by
    intro w' h' hf
    exact does_act (fun hI => And.left (Step.quiet hI rfl rfl rfl rfl (List.Subset.refl _)
      fun hst => absurd hst hf)) (hremember _ ⟨h'.running, h'.local', h'.replica, h'.covered⟩ hf)
  refine does_inv fun hI => .act (fun _ hg => hg) ?_
  simp only [Prog.ret_bind, id_eq]
  split
  · refine .call fun w₁ hI₁ hw₁ χ r w₂ hok hex => ?_
    obtain ⟨hs, hr, hb⟩ := certExec_cases hex
    have hf : χ ≠ .ok → ¬ strict := fun hχ hst => hχ (hok.1 (.inl hst))
    have h₁ := h.rely hw₁
    rcases hb with ⟨hlb, hrb, hχ⟩ | ⟨hlb, hrb, _⟩
    · obtain ⟨hstep, hrely⟩ := step_of_same (n := n) hI₁ hex hlb hrb
      refine ⟨hstep, ?_⟩
      rcases hr with ⟨hχ', _⟩ | ⟨hχ, rfl⟩
      · rw [hχ] at hχ'
        cases hχ'
      · exact hmarkDown w₂ (h₁.rely hrely) (hf hχ)
    · have h₂ := h₁.dropped hs hlb hrb
      refine ⟨(Step.drop hI₁ hs (.inr ⟨_, h₁.running, hk⟩) hlb hrb).1, ?_⟩
      rcases hr with ⟨_, rfl⟩ | ⟨hχ, rfl⟩
      · exact .ret ⟨rfl, h₂⟩
      · exact hmarkDown w₂ (h₂.weaken hk) (hf hχ)
  · rename_i hne
    refine hremember w h fun hst => hne ?_
    simp [(hI.healthy hst).1]

theorem does_removeAll {p : String} {had : List String} (keys : List String)
    (h : Removing n p had keys w) :
    Does L strict n (.delete p) (fun x w' => x = .ok () ∧ Removing n p had [] w')
      (.forEach deleteReplica keys) w := by
  induction keys generalizing w with
  | nil => exact .ret ⟨rfl, h⟩
  | cons k keys ih =>
    exact .bind (does_deleteReplica h) (fun _ _ hx => ih hx.2) fun _ _ hx => by cases hx.1

theorem mem_dedupe {keys : List String} {k : String} : k ∈ dedupe keys ↔ k ∈ keys ∧ k ≠ "" := by
  simp [dedupe]

theorem does_delete (hT : Tree L) {p : String} {had : List String} (hd : Deleting n p had w)
    (hh : HadLocally p had w) :
    Does L strict n (.delete p) (fun x w' => x = .ok () ∧ Deleting n p had w' ∧
      Done strict w' (.delete p had)) (delete p) w := by
  refine .bind (Does.of_along_total (total_expand p) (along_expand hT hd hh) (Q := fun x w' =>
    Rely strict n w w' ∧ ∃ keys, x = .ok keys ∧ Expanded L p had keys)
    fun keys w' hr hx => ⟨hr, keys, rfl, hx⟩) (fun keys w₁ h₁ => ?_) fun _ _ h => by
      obtain ⟨_, _, h, _⟩ := h
      cases h
  obtain ⟨hw₁, _, he, hexp⟩ := h₁
  obtain rfl := Except.ok.inj he
  have hd₁ := hd.rely hw₁
  refine .bind (does_ownLocal rfl (fun _ => rfl) hd₁ (fun f k hc => if_neg ?_)
    (fun w₂ hI₂ hR k hc hne => ?_) fun _ _ _ _ => rfl) (fun r w₃ hr => ?_) fun e w' he => ?_
  · simp only [CertOp.covers] at hc
    simp [hc]
  · exact absurd (if_pos hc) hne
  swap
  · obtain ⟨_, _, _, he, _⟩ := he
    cases he
  obtain ⟨w₂, hw₂, hok, hr, hl, hrb, hs⟩ := hr
  obtain rfl := Except.ok.inj hr
  have hd₃ : Deleting n p had w₃ := (congrFun hs.running n).trans (hd₁.rely hw₂)
  have hlb : ∀ k, covers p k = true → w₃.lb k = none := fun k hc => by
    rw [hl]
    exact if_pos hc
  split
  · rename_i hn
    refine does_inv fun hI => .ret ⟨rfl, hd₃, fun k hc => ?_⟩
    have hrn : w₃.rb k = none := by
      by_contra hne
      have := hI.shared k hne
      rw [nodeLocal_of_covers hn hc] at this
      cases this
    exact ⟨hlb k hc, .inl hrn⟩
  · have hlisted : w₃.downUntil ≤ w₃.now ∨ Listed w₃ p := by
      by_cases hup : w₃.downUntil ≤ w₃.now
      · exact .inl hup
      · right
        rw [hs.downUntil, hs.now] at hup
        intro m had' hm k hu hk
        rw [hs.running] at hm
        rw [hrb] at hk
        exact hok.2 (by omega) m had' hm k hu hk
    refine .bind (Does.of_along_total (total_expandReplica p _)
      (along_expandReplica hd₃ hexp hlisted hlb) (Q := fun x w' => Rely strict n w₃ w' ∧
        ∃ ks, x = .ok ks ∧ (∀ k ∈ ks, covers p k = true) ∧
          ∀ k, covers p k = true → w'.rb k = none ∨ k ∈ ks) fun ks w' hr hx => ⟨hr, ks, rfl, hx⟩)
      (fun ks w₄ h₄ => does_inv fun hI => ?_) fun _ _ h => by
        obtain ⟨_, _, h, _⟩ := h
        cases h
    obtain ⟨hw₄, _, hks, hcov, hmem'⟩ := h₄
    obtain rfl := Except.ok.inj hks
    have hmem : ∀ k, covers p k = true → w₄.rb k = none ∨ k ∈ dedupe ks := fun k hc => by
      by_cases hk : w₄.rb k = none
      · exact .inl hk
      · refine .inr (mem_dedupe.mpr ⟨(hmem' k hc).resolve_left hk, fun he => ?_⟩)
        subst he
        have hL := hI.keys "" (.inr hk)
        have := hT "" "" hL hL
        simp [under] at this
    have hd₄ := hd₃.rely hw₄
    refine .bind (does_removeAll _ ⟨hd₄, fun k hc => ((hd₃.protected hw₄ hc).lb).trans (hlb k hc),
      fun k hc => (hmem k hc).imp id .inr, fun k hk => hcov k (mem_dedupe.mp hk).1⟩) (fun _ w₅ hx =>
        ?_) fun _ _ hx => by cases hx.1
    have h₅ := hx.2
    exact .ret ⟨rfl, h₅.running, fun k hc => ⟨h₅.local' k hc,
      (h₅.replica k hc).imp id fun h => h.resolve_right (by simp)⟩⟩

end

/-! ## The whole store -/

section

variable {L : String → Prop} {strict : Prop} {n : Nat} {w : CertWorld}

/-- Time passes. -/
theorem Step.tick (h : Inv L strict w) (dt : Nat × Nat) :
    Step L strict n w { w with now := w.now + dt.1, replicaNow := w.replicaNow + dt.2 } ∧
      ∀ m, Rely strict m w { w with now := w.now + dt.1, replicaNow := w.replicaNow + dt.2 } :=
  Step.quiet h rfl rfl rfl rfl (List.Subset.refl _) fun _ => ⟨id, rfl⟩

/-- What a completed reconcile has seen to. -/
def CertResult.Seen (w : CertWorld) : CertResult → Prop
  | .synced _ since => Since since w ∧ Cleared since [] w
  | .loaded _ | .done => True

/-- The rely/guarantee argument for the store. -/
def certOutline (hT : Tree L) (hL : strict → ∀ k, L k → nodeLocal k = false) :
    Outline certSystem (careful strict L) where
  inv := Inv L strict
  rely n _ := Rely strict n
  guar n _ := Step L strict n
  post n _ x w := w.running n = none ∧ ∀ a, x = .ok a → a.Seen w
  fresh n w := w.running n = none
  rely_refl n _ := Rely.refl strict n
  rely_trans n _ := Rely.trans strict n
  guar_inv _ _ _ _ _ h := h.inv
  guar_rely _ _ m _ _ _ hne _ h := h.others m (Ne.symm hne)
  guar_fresh _ _ m _ _ hne h hf := (h.others m (Ne.symm hne)).running.trans hf
  env_inv := by
    rintro dt w _ hI - h
    cases h
    exact (Step.tick (n := 0) hI dt).1.inv
  env_fresh := by
    rintro dt m w _ h hf
    cases h
    exact hf
  env_rely := by
    rintro dt m j w _ hI - h
    cases h
    exact (Step.tick (n := 0) hI dt).2 m
  body := by
    intro n j w hI hfresh _ hok
    suffices h : Does L strict n j (fun x w' => w'.running n = none ∧ ∀ a, x = .ok a → a.Seen w')
        (certBody n j) w from h w (Step.refl hI)
    cases j with
    | load k =>
      refine .bind (Does.of_along (along_load k) (Q := fun _ w' => w'.running n = none)
        fun _ w' hr _ => hr.running.trans hfresh) (fun _ _ hn => .ret ⟨hn, fun _ ha => ?_⟩)
        fun _ _ hn => ⟨hn, fun _ ha => by cases ha⟩
      cases ha
      trivial
    | store k v =>
      refine does_modify (fun hI => Step.enter hI hfresh (fun k' hc => ?_) fun k' v' he => ?_) ?_
      · simp only [CertOp.covers, beq_iff_eq] at hc
        subst hc
        exact hok.2.mono fun hs => hs.resolve_right (by simp [CertOp.deletes])
      · cases he
        exact hok.1
      refine .bind (does_store hL hok.1 (by simp [CertWorld.enter])) (fun _ w₁ h₁ => ?_)
        fun _ _ h => by cases h.1
      obtain ⟨_, ho, hdone⟩ := h₁
      refine does_modify (fun hI => Step.leave hI ho hdone)
        (.ret ⟨by simp [CertWorld.leave], fun _ ha => ?_⟩)
      cases ha
      trivial
    | delete p =>
      refine does_modify (fun hI => Step.enter hI hfresh
        (fun k hc => (hok k hc).mono fun _ => trivial) fun k' v' he => ?_) ?_
      · cases he
      have hdel : Deleting n p (w.loc.keysWith (covers p))
          (w.enter n (.delete p (w.loc.keysWith (covers p)))) := by
        simp [Deleting, CertWorld.enter]
      refine .bind (does_delete hT hdel fun k => Tier.mem_keysWith)
        (fun _ w₁ h₁ => ?_) fun _ _ h => by cases h.1
      obtain ⟨_, ho, hdone⟩ := h₁
      refine does_modify (fun hI => Step.leave hI ho hdone)
        (.ret ⟨by simp [CertWorld.leave], fun _ ha => ?_⟩)
      cases ha
      trivial
    | sync =>
      refine does_read ?_
      refine .bind (Does.of_along (along_syncOnce ⟨[], rfl⟩) (Q := fun x w' =>
        w'.running n = none ∧ ∀ a, x = .ok a → Since w.log w' ∧ Cleared w.log [] w')
        fun _ _ hr hx => ⟨hr.running.trans hfresh, fun a ha => ⟨hr.log, hx a ha⟩⟩)
        (fun st w₁ h₁ => ?_) fun _ _ h => ⟨h.1, fun _ ha => by cases ha⟩
      refine .ret ⟨h₁.1, fun _ ha => ?_⟩
      cases ha
      exact h₁.2 _ rfl

/-- What holds when a task has ended still holds after moves of others. -/
theorem certOutline_post (hT : Tree L) (hL : strict → ∀ k, L k → nodeLocal k = false) (n : Nat)
    (j : CertJob) (x : Except StorageError CertResult) (w w' : CertWorld)
    (hx : (certOutline hT hL).post n j x w) (hR : (certOutline hT hL).rely n j w w') :
    (certOutline hT hL).post n j x w' := by
  refine ⟨Rely.running hR ▸ hx.1, fun a ha => ?_⟩
  cases a with
  | synced st since => exact ⟨(hx.2 _ ha).1.rely hR, (hx.2 _ ha).2.rely (hx.2 _ ha).1 hR⟩
  | loaded v => trivial
  | done => trivial

end

end Swarmy.Cert
