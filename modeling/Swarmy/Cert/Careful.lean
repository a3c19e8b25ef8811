import Swarmy.Cert.Invariant

/-!
# The tiered certificate store: careful runs

The rely/guarantee argument for each task of a careful run.  Loads and reconciles
move the world along their own rely, so facts about the past persist in them; a
store and a delete do so except for their own writes, which are argued one by one.
-/

namespace Swarmy.Cert

open Coop

section

variable {L : String → Prop} {strict : Prop} {n : Nat} {j : CertJob} {w : CertWorld}

/-- The judgement for parts of task `n` that move the world along its rely. -/
abbrev Along (L : String → Prop) (strict : Prop) (n : Nat) (j : CertJob) {α : Type}
    (P : α → CertWorld → Prop) (p : CertProg α) (w : CertWorld) : Prop :=
  Keeps certExec ((careful strict L).resume j) (Inv L strict) (Rely strict n)
    (Step L strict n) P p w

/-- The judgement for the other parts. -/
abbrev Does (L : String → Prop) (strict : Prop) (n : Nat) (j : CertJob) {α : Type}
    (P : Except StorageError α → CertWorld → Prop) (p : CertProg α) (w : CertWorld) : Prop :=
  Meets certExec ((careful strict L).resume j) (Inv L strict) (Rely strict n)
    (Step L strict n) P p w

theorem along_inv {α : Type} {P : α → CertWorld → Prop} {p : CertProg α}
    (h : Inv L strict w → Along L strict n j P p w) : Along L strict n j P p w :=
  .of_guar fun _ hg => h hg.inv

/-- An atomic step that is a move of its own. -/
theorem along_modify {f : CertWorld → CertWorld} {P : Unit → CertWorld → Prop}
    (h : Inv L strict w → Step L strict n w (f w) ∧ Rely strict n w (f w)) (hP : P () (f w)) :
    Along L strict n j P (.modify f) w :=
  along_inv fun hI => .modify (fun _ hg => hg.trans (h hI).1) (h hI).2 hP

/-! ## Calls -/

/-- A call that only reads leaves the bytes alone. -/
theorem certExec_reads {χ : CertChoice} {c : CertCall} {w w' : CertWorld} {r : CertSig.Ans c}
    (hc : (certDo c w).2 = w) (h : certExec χ c w = some (r, w')) :
    w'.lb = w.lb ∧ w'.rb = w.rb := by
  have hl : ∀ k, locEffect c w.lb k = w.lb k := fun k => by rw [← certDo_lb, hc]
  have hr : ∀ k, repEffect c w.rb k = w.rb k := fun k => by rw [← certDo_rb, hc]
  obtain ⟨_, _, ⟨h₁, h₂, _⟩ | ⟨h₁, h₂, _⟩⟩ := certExec_cases h
  · exact ⟨h₁, h₂⟩
  · exact ⟨h₁.trans (funext hl), h₂.trans (funext hr)⟩

/-- A call that changes no bytes is a move of its own. -/
theorem step_of_same {χ : CertChoice} {c : CertCall} {w' : CertWorld} {r : CertSig.Ans c}
    (hI : Inv L strict w) (he : certExec χ c w = some (r, w')) (hl : w'.lb = w.lb)
    (hr : w'.rb = w.rb) : Step L strict n w w' ∧ Rely strict n w w' := by
  obtain ⟨hs, _⟩ := certExec_cases he
  obtain ⟨hstep, hrely⟩ := Step.quiet (n := n) hI hl hr hs.running hs.log
    (by rw [hs.pending]; exact List.Subset.refl _) fun _ =>
      ⟨fun h => hs.downUntil.trans h, hs.pending⟩
  exact ⟨hstep, hrely n⟩

/-- A call that only reads: its answer is the right one, or it is one of the replica,
which may fail. -/
theorem along_read {c : CertCall} (hc : ∀ w, (certDo c w).2 = w) :
    Along L strict n j (fun r w' => r = (certDo c w').1 ∨
      c.replica = true ∧ r = certFail c ∧ ¬ strict) (Prog.perform (S := CertSig) c) w := by
  refine .call (Rely.trans strict n) fun w₁ hI _ χ r w₂ hok he => ?_
  obtain ⟨hl, hrb⟩ := certExec_reads (hc w₁) he
  obtain ⟨hstep, hrely⟩ := step_of_same (n := n) hI he hl hrb
  obtain ⟨_, hr, _⟩ := certExec_cases he
  refine ⟨hstep, hrely, .ret (Rely.refl strict n) ?_⟩
  rcases hr with ⟨rfl, rfl⟩ | ⟨hχ, rfl⟩
  · have hw : (certDo c w₁).2 = w₂ := (Prod.mk.inj (Option.some.inj he)).2
    rw [hc] at hw
    exact .inl (by rw [hw])
  · have hrep : c.replica = true := by
      by_contra hne
      exact hχ (hok.1 (.inr (by simpa using hne)))
    exact .inr ⟨hrep, rfl, fun hs => hχ (hok.1 (.inl hs))⟩

/-- A read of the replica answers or says "no such key", unless it may fail. -/
theorem along_replicaStat (k : String) :
    Along L strict n j (fun r _ => ∀ e, r = .error e → replicaMiss e = false → ¬ strict)
      (Prog.perform (S := CertSig) (.replicaStat k)) w := by
  refine .mono (fun r w' _ hr e he hmiss => ?_) (along_read fun _ => rfl)
  rcases hr with hr | ⟨_, _, hf⟩
  · subst he
    simp only [certDo] at hr
    split at hr
    · cases hr
    · cases hr
      cases hmiss
  · exact hf

theorem along_replicaLoad (k : String) :
    Along L strict n j (fun r _ => ∀ e, r = .error e → replicaMiss e = false → ¬ strict)
      (Prog.perform (S := CertSig) (.replicaLoad k)) w := by
  refine .mono (fun r w' _ hr e he hmiss => ?_) (along_read fun _ => rfl)
  rcases hr with hr | ⟨_, _, hf⟩
  · subst he
    simp only [certDo] at hr
    split at hr
    · cases hr
    · cases hr
      cases hmiss
  · exact hf

theorem along_replicaList (p : String) :
    Along L strict n j (fun r _ => ∀ e, r = .error e → ¬ strict)
      (Prog.perform (S := CertSig) (.replicaList p)) w := by
  refine .mono (fun r w' _ hr e he => ?_) (along_read fun _ => rfl)
  rcases hr with hr | ⟨_, _, hf⟩
  · rw [he] at hr
    cases hr
  · exact hf

theorem along_chtimes (k : String) (t : Nat) :
    Along L strict n j (fun _ _ => True) (Prog.perform (S := CertSig) (.chtimes k t)) w := by
  refine .call (Rely.trans strict n) fun w₁ hI _ χ r w₂ hok he => ?_
  obtain ⟨_, _, hb⟩ := certExec_cases he
  have hb : w₂.lb = w₁.lb ∧ w₂.rb = w₁.rb := by
    rcases hb with ⟨h₁, h₂, _⟩ | ⟨h₁, h₂, _⟩ <;> exact ⟨h₁, h₂⟩
  obtain ⟨hstep, hrely⟩ := step_of_same (n := n) hI he hb.1 hb.2
  exact ⟨hstep, hrely, .ret (Rely.refl strict n) trivial⟩

/-- The replica is written with what the local tier holds. -/
theorem along_copyOut {k : String} {v : List UInt8} (hn : nodeLocal k = false)
    (h : ∀ w₁ χ, Rely strict n w w₁ → (careful strict L).resume j χ (.replicaStore k v) w₁ →
      Still strict (w₁.lb k) v) : Along L strict n j (fun r w' => (r = .ok () → w'.rb k = some v) ∧
        (r ≠ .ok () → ¬ strict)) (Prog.perform (S := CertSig) (.replicaStore k v)) w := by
  refine .call (Rely.trans strict n) fun w₁ hI hR χ r w₂ hok he => ?_
  obtain ⟨hs, hr, hb⟩ := certExec_cases he
  have hk := h w₁ χ hR hok
  have hfail : r ≠ .ok () → ¬ strict := fun hne hst => by
    rcases hr with ⟨_, hr⟩ | ⟨hχ, _⟩
    · exact hne hr
    · exact hχ (hok.1 (.inl hst))
  rcases hb with ⟨hl, hr', hχ⟩ | ⟨hl, hr', hχ⟩
  · obtain ⟨hstep, hrely⟩ := step_of_same (n := n) hI he hl hr'
    refine ⟨hstep, hrely, .ret (Rely.refl strict n) ⟨fun hok => ?_, hfail⟩⟩
    rcases hr with ⟨hχ', _⟩ | ⟨_, hr⟩
    · rw [hχ] at hχ'
      cases hχ'
    · rw [hr] at hok
      cases hok
  · obtain ⟨hstep, hrely⟩ := Step.copyOut (n := n) hI hs hk hn hl hr'
    refine ⟨hstep, hrely n, .ret (Rely.refl strict n) ⟨fun _ => ?_, hfail⟩⟩
    rw [hr']
    exact if_pos rfl

/-- The local tier is written with what the replica holds. -/
theorem along_copyIn {k : String} {v : List UInt8}
    (h : ∀ w₁ χ, (careful strict L).resume j χ (.localStore k v) w₁ → MayCopy strict w₁ k v) :
    Along L strict n j (fun _ _ => True) (Prog.perform (S := CertSig) (.localStore k v)) w := by
  refine .call (Rely.trans strict n) fun w₁ hI hR χ r w₂ hok he => ?_
  obtain ⟨hs, _, hb⟩ := certExec_cases he
  obtain rfl : χ = .ok := hok.1 (.inr rfl)
  rcases hb with ⟨_, _, hχ⟩ | ⟨hl, hr', _⟩
  · cases hχ
  · obtain ⟨hstep, hrely⟩ := Step.copyIn (n := n) hI hs (h w₁ _ hok) hl hr'
    exact ⟨hstep, hrely n, .ret (Rely.refl strict n) trivial⟩

/-- Where the replica may fail, any file of it may go. -/
theorem along_replicaDelete (k : String) (hf : ¬ strict) :
    Along L strict n j (fun r w' => (r = .ok () → w'.rb k = none) ∧
        ∀ e, r = .error e → replicaMiss e = false)
      (Prog.perform (S := CertSig) (.replicaDelete k)) w := by
  refine .call (Rely.trans strict n) fun w₁ hI hR χ r w₂ hok he => ?_
  obtain ⟨hs, hr, hb⟩ := certExec_cases he
  have herr : ∀ e, r = .error e → replicaMiss e = false := fun e he => by
    rcases hr with ⟨_, hr⟩ | ⟨_, hr⟩ <;> rw [hr] at he <;> cases he
    rfl
  rcases hb with ⟨hl, hr', hχ⟩ | ⟨hl, hr', hχ⟩
  · obtain ⟨hstep, hrely⟩ := step_of_same (n := n) hI he hl hr'
    refine ⟨hstep, hrely, .ret (Rely.refl strict n) ⟨fun hok => ?_, herr⟩⟩
    rcases hr with ⟨hχ', _⟩ | ⟨_, hr⟩
    · rw [hχ] at hχ'
      cases hχ'
    · rw [hr] at hok
      cases hok
  · obtain ⟨hstep, hrely⟩ := Step.drop (n := n) hI hs (.inl hf) hl hr'
    refine ⟨hstep, hrely hf n, .ret (Rely.refl strict n) ⟨fun _ => ?_, herr⟩⟩
    rw [hr']
    exact if_pos rfl

/-! ## Replica health -/

theorem along_quiet {f : CertWorld → CertWorld} (hl : (f w).lb = w.lb) (hr : (f w).rb = w.rb)
    (hrun : (f w).running = w.running) (hlog : (f w).log = w.log)
    (hp : w.pendingDeletes ⊆ (f w).pendingDeletes) (hh : strict →
      (w.downUntil = 0 → (f w).downUntil = 0) ∧ (f w).pendingDeletes = w.pendingDeletes) :
    Along L strict n j (fun _ w' => w' = f w) (.modify f) w :=
  along_modify (fun hI => by
    obtain ⟨hstep, hrely⟩ := Step.quiet (n := n) hI hl hr hrun hlog hp hh
    exact ⟨hstep, hrely n⟩) rfl

theorem along_markUp : Along L strict n j (fun _ _ => True) markUp w :=
  .mono (fun _ _ _ _ => trivial) (along_quiet rfl rfl rfl rfl (List.Subset.refl _)
    fun _ => ⟨fun _ => rfl, rfl⟩)

theorem along_markDown (hf : ¬ strict) : Along L strict n j (fun _ _ => True) markDown w :=
  .mono (fun _ _ _ _ => trivial) (along_quiet rfl rfl rfl rfl (List.Subset.refl _)
    fun hst => absurd hst hf)

theorem along_setDirty : Along L strict n j (fun _ _ => True) setDirty w :=
  .mono (fun _ _ _ _ => trivial) (along_quiet rfl rfl rfl rfl (List.Subset.refl _)
    fun _ => ⟨id, rfl⟩)

/-- The replica is skipped only where it may fail. -/
theorem along_replicaUp :
    Along L strict n j (fun up w' => w' = w ∧ up = decide (w.downUntil ≤ w.now) ∧
      (up = false → ¬ strict)) replicaUp w := by
  refine along_inv fun hI => .read (Rely.refl strict n) ⟨rfl, rfl, fun hup hst => ?_⟩
  have := (hI.healthy hst).1
  rw [this] at hup
  simp at hup

theorem along_probe : Along L strict n j (fun _ _ => True) probe w := by
  refine .bind (Rely.trans strict n) (along_replicaStat _) fun r w₁ _ hr => ?_
  split
  · exact along_markUp
  · split
    · exact along_markUp
    · rename_i e hmiss
      exact .bind (Rely.trans strict n) (along_markDown (hr e rfl (by simpa using hmiss)))
        fun _ _ _ _ => .raise (Rely.refl strict n)

theorem along_alignMtime (k : String) : Along L strict n j (fun _ _ => True) (alignMtime k) w := by
  refine .bind (Rely.trans strict n) (along_read fun _ => rfl) fun r w₁ _ _ => ?_
  split
  · exact .ret (Rely.refl strict n) trivial
  · split
    · exact .ret (Rely.refl strict n) trivial
    · exact .bind (Rely.trans strict n) (along_chtimes _ _) fun _ _ _ _ =>
        .ret (Rely.refl strict n) trivial

/-! ## Load -/

theorem along_load (k : String) : Along L strict n (.load k) (fun _ _ => True) (load k) w := by
  refine .bind (Rely.trans strict n) (along_read fun _ => rfl) fun r w₁ _ _ => ?_
  split
  · exact .ret (Rely.refl strict n) trivial
  · refine .bind (Rely.trans strict n) along_replicaUp fun up w₂ _ _ => ?_
    split
    · exact .raise (Rely.refl strict n)
    · refine .bind (Rely.trans strict n) (along_replicaLoad k) fun r w₃ _ hr => ?_
      split
      · refine .bind (Rely.trans strict n) along_markUp fun _ w₄ _ _ => ?_
        refine .bind (Rely.trans strict n) (P := fun _ _ => True) ?_ fun _ w₅ _ _ =>
          .ret (Rely.refl strict n) trivial
        refine .bind (Rely.trans strict n) (along_copyIn fun w χ h => h.2) fun r w₅ _ _ => ?_
        split
        · exact along_alignMtime k
        · exact .ret (Rely.refl strict n) trivial
      · split
        · exact .bind (Rely.trans strict n) along_markUp fun _ _ _ _ => .raise (Rely.refl strict n)
        · rename_i re hmiss
          exact .bind (Rely.trans strict n) (along_markDown (hr re rfl (by simpa using hmiss)))
            fun _ _ _ _ => .raise (Rely.refl strict n)

/-! ## The reconcile -/

/-- A key that the history `h` says is deleted, and that has not been stored since,
is not on the replica, unless it is one of `rest`. -/
def Cleared (h : List CertEvent) (rest : List String) (w : CertWorld) : Prop :=
  ∀ k, gone k h = true → stores k w.log = stores k h → w.rb k = none ∨ k ∈ rest

/-- The history has grown since. -/
def Since (h : List CertEvent) (w : CertWorld) : Prop := ∃ l, w.log = l ++ h

theorem Since.rely {h : List CertEvent} {w w' : CertWorld} (hs : Since h w)
    (hr : Rely strict n w w') :
    Since h w' := by
  obtain ⟨l, hl⟩ := hs
  obtain ⟨l', hl'⟩ := hr.log
  exact ⟨l' ++ l, by rw [hl', hl, List.append_assoc]⟩

theorem Since.gone {h : List CertEvent} {k : String} (hs : Since h w) (hg : Cert.gone k h = true)
    (hst : stores k w.log = stores k h) : Cert.gone k w.log = true := by
  obtain ⟨l, hl⟩ := hs
  rw [hl, stores_append] at hst
  rw [hl]
  exact gone_append hg (by omega)

theorem Since.stores_le {h : List CertEvent} (hs : Since h w) (k : String) :
    stores k h ≤ stores k w.log := by
  obtain ⟨l, hl⟩ := hs
  rw [hl, stores_append]
  exact Nat.le_add_left _ _

theorem Cleared.rely {h : List CertEvent} {rest : List String} {w' : CertWorld}
    (hc : Cleared h rest w) (hs : Since h w) (hr : Rely strict n w w') : Cleared h rest w' := by
  intro k hg hst
  have hle := hr.stores_le k
  have hle' := hs.stores_le k
  exact (hc k hg (by omega)).imp
    (fun hn => hr.cleared k (hs.gone hg (by omega)) hn (by omega)) id

/-- Deletes to replay are there only where the replica may fail; the replay clears
them. -/
theorem along_replay {h : List CertEvent} (deletes : List String) (hs : Since h w)
    (hc : Cleared h deletes w) (hd : deletes = [] ∨ ¬ strict) :
    Along L strict n .sync (fun _ w' => Cleared h [] w') (replay deletes) w := by
  induction deletes generalizing w with
  | nil => exact .ret (Rely.refl strict n) hc
  | cons k deletes ih =>
    have hf : ¬ strict := hd.resolve_left (by simp)
    have hforget : ∀ w', Rely strict n w w' → w'.rb k = none →
        Along L strict n .sync (fun _ w' => Cleared h [] w')
          (forget k >>= fun _ => replay deletes) w' := by
      intro w' hw hk
      refine .bind (Rely.trans strict n) (P := fun _ w'' => w''.rb = w'.rb) (along_modify
        (fun hI => ?_) rfl) fun _ w'' hw' hr => ?_
      · obtain ⟨hstep, hrely⟩ := Step.forget (n := n) (f := w'.dirty) hI (.inl hk)
        exact ⟨hstep, hrely hk n⟩
      have hw'' := Rely.trans strict n _ _ _ hw hw'
      refine ih (hs.rely hw'') (fun k' hg hst => ?_) (.inr hf)
      rcases hc.rely hs hw'' k' hg hst with hn | hn
      · exact .inl hn
      · rcases List.mem_cons.mp hn with rfl | hn
        · exact .inl (hr ▸ hk)
        · exact .inr hn
    refine .bind (Rely.trans strict n) (along_replicaDelete k hf) fun r w₁ hw hr => ?_
    split
    · exact hforget w₁ hw (hr.1 rfl)
    · split
      · rename_i e hmiss
        rw [hr.2 e rfl] at hmiss
        cases hmiss
      · exact .bind (Rely.trans strict n) (along_markDown hf) fun _ _ _ _ =>
          .raise (Rely.refl strict n)

theorem along_terminalKeys (keys : List String) :
    Along L strict n j (fun _ _ => True) (terminalKeys keys) w := by
  induction keys generalizing w with
  | nil => exact .ret (Rely.refl strict n) trivial
  | cons k keys ih =>
    exact .bind (Rely.trans strict n) (along_read fun _ => rfl) fun _ _ _ _ =>
      .bind (Rely.trans strict n) ih fun _ _ _ _ => .ret (Rely.refl strict n) trivial

theorem along_localTerminalKeys (p : String) :
    Along L strict n j (fun _ _ => True) (localTerminalKeys p) w := by
  refine .bind (Rely.trans strict n) (along_read fun _ => rfl) fun r w₁ _ _ => ?_
  split
  · exact along_terminalKeys _
  · exact .ret (Rely.refl strict n) trivial

theorem along_localTimes (keys : List String) :
    Along L strict n j (fun ts _ => ∀ e ∈ ts, e.1 ∈ keys) (localTimes keys) w := by
  induction keys generalizing w with
  | nil => exact .ret (Rely.refl strict n) (by simp)
  | cons k keys ih =>
    refine .bind (Rely.trans strict n) (along_read fun _ => rfl) fun r w₁ _ _ => ?_
    split
    · refine .bind (Rely.trans strict n) ih fun ts _ _ hts =>
        .ret (Rely.refl strict n) fun e he => ?_
      rcases List.mem_cons.mp he with rfl | he
      · exact List.mem_cons_self
      · exact List.mem_cons_of_mem _ (hts e he)
    · exact .mono (fun _ _ _ hts e he => List.mem_cons_of_mem _ (hts e he)) ih

theorem along_remoteTimes (keys : List String) :
    Along L strict n j (fun _ _ => True) (remoteTimes keys) w := by
  induction keys generalizing w with
  | nil => exact .ret (Rely.refl strict n) trivial
  | cons k keys ih =>
    refine .bind (Rely.trans strict n) (along_replicaStat k) fun r w₁ _ hr => ?_
    split
    · exact .bind (Rely.trans strict n) ih fun _ _ _ _ => .ret (Rely.refl strict n) trivial
    · split
      · exact ih
      · rename_i e hmiss
        exact .bind (Rely.trans strict n) (along_markDown (hr e rfl (by simpa using hmiss)))
          fun _ _ _ _ => .raise (Rely.refl strict n)

theorem along_push {k : String} (hk : nodeLocal k = false) :
    Along L strict n .sync (fun _ _ => True) (push k) w := by
  refine .bind (Rely.trans strict n) (along_read fun _ => rfl) fun r w₁ _ _ => ?_
  split
  · split
    · exact .ret (Rely.refl strict n) trivial
    · exact .raise (Rely.refl strict n)
  · refine .bind (Rely.trans strict n) (along_copyOut hk fun _ _ _ h => h.2) fun r w₂ _ hr => ?_
    split
    · exact .bind (Rely.trans strict n) (along_markDown (hr.2 (by rintro ⟨⟩))) fun _ _ _ _ =>
        .raise (Rely.refl strict n)
    · exact along_alignMtime k

theorem along_setMtime (k : String) (modified : Nat) :
    Along L strict n j (fun _ _ => True) (setMtime k modified) w := by
  unfold setMtime
  split
  · exact .ret (Rely.refl strict n) trivial
  · exact .bind (Rely.trans strict n) (along_chtimes _ _) fun _ _ _ _ =>
      .ret (Rely.refl strict n) trivial

theorem along_pull (k : String) (modified : Nat) :
    Along L strict n .sync (fun _ _ => True) (pull k modified) w := by
  refine .bind (Rely.trans strict n) (along_replicaLoad k) fun r w₁ _ hr => ?_
  split
  · split
    · exact .ret (Rely.refl strict n) trivial
    · rename_i e hmiss
      exact .bind (Rely.trans strict n) (along_markDown (hr e rfl (by simpa using hmiss)))
        fun _ _ _ _ => .raise (Rely.refl strict n)
  · refine .bind (Rely.trans strict n) (along_read fun _ => rfl) fun _ _ _ _ => ?_
    split
    · exact .bind (Rely.trans strict n) (along_setMtime _ _) fun _ _ _ _ =>
        .ret (Rely.refl strict n) trivial
    · refine .bind (Rely.trans strict n) (along_copyIn fun _ _ h => h.2) fun _ _ _ _ => ?_
      split
      · exact .raise (Rely.refl strict n)
      · exact .bind (Rely.trans strict n) (along_setMtime _ _) fun _ _ _ _ =>
          .ret (Rely.refl strict n) trivial

theorem mem_of_lookup_times {ts : List (String × Nat)} {k : String} {m : Nat}
    (h : ts.lookup k = some m) : (k, m) ∈ ts := by
  obtain ⟨l₁, l₂, rfl, _⟩ := List.lookup_eq_some_iff.mp h
  simp

theorem along_reconcile {locals remotes : List (String × Nat)} {skip : List String}
    (hl : ∀ e ∈ locals, nodeLocal e.1 = false) (all : List String) (st : SyncStats) :
    Along L strict n .sync (fun _ _ => True) (reconcile locals remotes skip all st) w := by
  induction all generalizing st w with
  | nil => exact .ret (Rely.refl strict n) trivial
  | cons k all ih =>
    unfold reconcile
    split
    · rename_i hact
      have hk : nodeLocal k = false := by
        unfold syncAction at hact
        split at hact
        · rename_i hlk _
          exact hl _ (mem_of_lookup_times hlk)
        · cases hact
        · rename_i hlk _
          exact hl _ (mem_of_lookup_times hlk)
        · cases hact
      exact .bind (Rely.trans strict n) (along_push hk) fun _ _ _ _ => ih _
    · split
      · exact ih _
      · exact .bind (Rely.trans strict n) (along_pull k _) fun _ _ _ _ => ih _
    · exact ih _

theorem nodeLocal_of_syncable {k : String} (h : syncable k = true) : nodeLocal k = false := by
  by_contra hne
  simp [syncable, hne] at h

/-- What a completed reconcile has seen to: the deletes that were over when it
began. -/
theorem along_syncOnce {h : List CertEvent} (hs : Since h w) :
    Along L strict n .sync (fun _ w' => Cleared h [] w') syncOnce w := by
  refine .bind (Rely.trans strict n) along_probe fun _ w₁ hw₁ _ => along_inv fun hI => ?_
  have hs₁ := hs.rely hw₁
  refine .bind (Rely.trans strict n) (P := fun deletes w' => w' = w₁ ∧ deletes = w₁.pendingDeletes)
    (.read (Rely.refl strict n) ⟨rfl, rfl⟩) ?_
  rintro deletes w₁ _ ⟨rfl, rfl⟩
  refine .bind (Rely.trans strict n) (along_replay _ hs₁
    (fun k hg hst => (hI.gone k (hs₁.gone hg hst)).2) ?_) fun _ w₂ hw₂ hc => ?_
  · by_cases hst : strict
    · exact .inl (hI.healthy hst).2.1
    · exact .inr hst
  have hs₂ := hs₁.rely hw₂
  refine .mono (fun _ _ hw' _ => hc.rely hs₂ hw') (P := fun _ _ => True) ?_
  refine .bind (Rely.trans strict n) (along_localTerminalKeys "") fun keys _ _ _ => ?_
  refine .bind (Rely.trans strict n) (along_localTimes _) fun locals _ _ hl => ?_
  refine .bind (Rely.trans strict n) (along_replicaList "") fun r _ _ hr => ?_
  split
  · exact .bind (Rely.trans strict n) (along_markDown (hr _ rfl)) fun _ _ _ _ =>
      .raise (Rely.refl strict n)
  · refine .bind (Rely.trans strict n) (along_remoteTimes _) fun remotes _ _ _ => ?_
    refine .bind (Rely.trans strict n) (P := fun _ _ =>
      True) (.read (Rely.refl strict n) trivial) fun skip _ _ _ => ?_
    refine .bind (Rely.trans strict n) (along_reconcile (fun e he =>
      nodeLocal_of_syncable (List.mem_filter.mp (hl e he)).2) _ _) fun _ _ _ _ => ?_
    exact .bind (Rely.trans strict n) (along_quiet rfl rfl rfl rfl (List.Subset.refl _)
      fun _ => ⟨id, rfl⟩) fun _ _ _ _ => .ret (Rely.refl strict n) trivial

end

end Swarmy.Cert
