import Swarmy.Coop.Prog

/-!
# Rely/guarantee reasoning for interleaved programs

`Safe I R G Q p w₀ w` says what a task owes while the rest of its program is `p`:
the current uninterrupted segment began in the world `w₀` and has reached `w`;
whenever the task suspends, the segment is an instance of the guarantee `G`; when
it is resumed, the others have moved the world along the rely `R` to a world in
the invariant `I`; and when it returns or throws, `Q` holds of the result and of
the last segment.

An `Outline` packages, for every job of a system, such an argument about its
program.  `Outline.reach` and `Outline.step` are the two facts a client uses: in
every configuration reached the invariant holds, and every move of a task is an
instance of that task's guarantee.
-/

namespace Coop

open Prog

/-- A side condition on the moves of a run. -/
structure Allow {S : Sig} {W E O : Type} (M : System S W E O) where
  /-- May this job be started now? -/
  start : M.Job → W → Prop
  /-- May this pending call of this job be answered this way now? -/
  resume : M.Job → M.Choice → S.Call → W → Prop
  /-- May the environment move like this now? -/
  env : M.Env → W → Prop

namespace Allow

variable {S : Sig} {W E O : Type} {M : System S W E O}

/-- No side condition. -/
def all : Allow M := ⟨fun _ _ => True, fun _ _ _ _ => True, fun _ _ => True⟩

/-- The side condition, as a condition on the moves of a configuration. -/
def move (A : Allow M) (c : M.Config) : M.Move → Prop
  | .start j => A.start j c.world
  | .resume n χ => ∀ j q k, c.pool[n]? = some (j, .call q k) → A.resume j χ q c.world
  | .env e => A.env e c.world

theorem all_move (c : M.Config) (m : M.Move) : (all (M := M)).move c m := by
  cases m <;> simp [move, all]

end Allow

section Safe

variable {S : Sig} {W E α β X : Type}
  (exec : X → (c : S.Call) → W → Option (S.Ans c × W)) (ok : X → S.Call → W → Prop)
  (I : W → Prop) (R G : W → W → Prop)

/-- The obligations of a task that still has to run `p`. -/
def Safe (Q : Except E α → W → W → Prop) : Prog S W E α → W → W → Prop
  | .ret a, w₀, w => Q (.ok a) w₀ w
  | .raise e, w₀, w => Q (.error e) w₀ w
  | .act f k, w₀, w => Safe Q (k w) w₀ (f w)
  | .call c k, w₀, w => G w₀ w ∧ ∀ w₁, I w₁ → R w w₁ → ∀ χ r w₂, ok χ c w₁ →
      exec χ c w₁ = some (r, w₂) → Safe Q (k r) w₁ w₂

variable {exec ok I R G}
variable {Q Q' : Except E α → W → W → Prop}

variable {p : Prog S W E α} {w w₀ : W}

/-- Weakening the postcondition. -/
theorem Safe.mono (hQ : ∀ x w₀ w, Q x w₀ w → Q' x w₀ w)
    (h : Safe exec ok I R G Q p w₀ w) : Safe exec ok I R G Q' p w₀ w := by
  induction p generalizing w₀ w with
  | ret a => exact hQ _ _ _ h
  | raise e => exact hQ _ _ _ h
  | act f k ih => exact ih w h
  | call c k ih =>
    exact ⟨h.1, fun w₁ hI hR χ r w₂ hok he => ih r (h.2 w₁ hI hR χ r w₂ hok he)⟩

/-- The postcondition of a first half: what the second half needs. -/
def Andthen (Q : Except E β → W → W → Prop) (P : α → W → W → Prop) :
    Except E α → W → W → Prop
  | .ok a, w₀, w => P a w₀ w
  | .error e, w₀, w => Q (.error e) w₀ w

/-- The rule for sequencing. -/
theorem safe_bind {Q : Except E β → W → W → Prop} (p : Prog S W E α) (f : α → Prog S W E β)
    (w₀ w : W) : Safe exec ok I R G Q (p.bind f) w₀ w ↔
      Safe exec ok I R G (Andthen Q fun a => Safe exec ok I R G Q (f a)) p w₀ w := by
  induction p generalizing w₀ w with
  | ret a => exact Iff.rfl
  | raise e => exact Iff.rfl
  | act g k ih => exact ih w w₀ (g w)
  | call c k ih =>
    constructor
    · exact fun h => ⟨h.1, fun w₁ hI hR χ r w₂ hok he =>
        (ih r w₁ w₂).mp (h.2 w₁ hI hR χ r w₂ hok he)⟩
    · exact fun h => ⟨h.1, fun w₁ hI hR χ r w₂ hok he =>
        (ih r w₁ w₂).mpr (h.2 w₁ hI hR χ r w₂ hok he)⟩

/-- Sequencing with an intermediate assertion. -/
theorem Safe.bind {Q : Except E β → W → W → Prop} (P : α → W → W → Prop) {f : α → Prog S W E β}
    (hp : Safe exec ok I R G (Andthen Q P) p w₀ w)
    (hf : ∀ a w₀ w, P a w₀ w → Safe exec ok I R G Q (f a) w₀ w) :
    Safe exec ok I R G Q (p.bind f) w₀ w := by
  refine (safe_bind p f w₀ w).mpr (hp.mono fun x w₀ w hx => ?_)
  cases x with
  | ok a => exact hf a w₀ w hx
  | error e => exact hx

/-- The postcondition of a guarded block: what the handler needs. -/
def Orelse (Q : Except E α → W → W → Prop) (P : E → W → W → Prop) :
    Except E α → W → W → Prop
  | .ok a, w₀, w => Q (.ok a) w₀ w
  | .error e, w₀, w => P e w₀ w

/-- Handling exceptions with an intermediate assertion. -/
theorem Safe.handle (P : E → W → W → Prop) {h : E → Prog S W E α}
    (hp : Safe exec ok I R G (Orelse Q P) p w₀ w)
    (hh : ∀ e w₀ w, P e w₀ w → Safe exec ok I R G Q (h e) w₀ w) :
    Safe exec ok I R G Q (p.handle h) w₀ w := by
  induction p generalizing w₀ w with
  | ret a => exact hp
  | raise e => exact hh e w₀ w hp
  | act f k ih => exact ih w hp
  | call c k ih =>
    exact ⟨hp.1, fun w₁ hI hR χ r w₂ hok he => ih r (hp.2 w₁ hI hR χ r w₂ hok he)⟩

/-- A block with a `finally` of atomic steps. -/
theorem Safe.ensuring {fin : W → W} (hp : Safe exec ok I R G (fun x w₀ w => Q x w₀ (fin w)) p w₀ w)
    : Safe exec ok I R G Q (p.ensuring fin) w₀ w := by
  refine Safe.bind (fun a w₀ w => Q (.ok a) w₀ (fin w)) ?_ fun a w₀ w h => h
  refine Safe.handle (fun e w₀ w => Q (.error e) w₀ (fin w)) ?_ fun e w₀ w h => h
  exact hp.mono fun x w₀ w h => by cases x <;> exact h

variable (exec ok I R G) in
/-- What a task owes from its next suspension on. -/
def Waiting (Q : Except E α → W → W → Prop) (p : Prog S W E α) (w : W) : Prop :=
  match p with
  | .call c k => ∀ w₁, I w₁ → R w w₁ → ∀ χ r w₂, ok χ c w₁ →
      exec χ c w₁ = some (r, w₂) → Safe exec ok I R G Q (k r) w₁ w₂
  | _ => True

/-- Running a segment to its end discharges the guarantee for it. -/
theorem Safe.settle (hQ : ∀ x w₀ w, Q x w₀ w → G w₀ w) (h : Safe exec ok I R G Q p w₀ w) :
    G w₀ (p.settle w).2 ∧ Waiting exec ok I R G Q (p.settle w).1 (p.settle w).2 ∧
      ∀ x, (p.settle w).1.ended = some x → Q x w₀ (p.settle w).2 := by
  induction p generalizing w₀ w with
  | ret a => exact ⟨hQ _ _ _ h, trivial, fun x hx => Option.some.inj hx ▸ h⟩
  | raise e => exact ⟨hQ _ _ _ h, trivial, fun x hx => Option.some.inj hx ▸ h⟩
  | act f k ih => exact ih w h
  | call c k _ => exact ⟨h.1, h.2, fun x hx => by cases hx⟩

/-- A suspended task does not mind a move along its rely. -/
theorem Waiting.rely (hR : ∀ w w' w'', R w w' → R w' w'' → R w w'') {w' : W}
    (h : Waiting exec ok I R G Q p w) (hw : R w w') : Waiting exec ok I R G Q p w' := by
  cases p with
  | call c k => exact fun w₁ hI h₁ => h w₁ hI (hR _ _ _ hw h₁)
  | _ => trivial

end Safe

/-! ## Assertions and facts that persist

`Meets` is the judgement for a part of a task: in any segment that has kept the
guarantee so far it keeps it, and its result and the world then satisfy a
postcondition.  Where the rely is a preorder that the task's own moves follow as
well, facts about the past survive every suspension: `Keeps` is the judgement for
that, and says in addition that the world has moved along the order. -/

section Meets

variable {S : Sig} {W E α β X : Type}
  (exec : X → (c : S.Call) → W → Option (S.Ans c × W)) (ok : X → S.Call → W → Prop)
  (I : W → Prop) (R G : W → W → Prop)

/-- From `w` on, in any segment that has kept the guarantee so far, `p` keeps it,
and ends with `P`. -/
def Meets (P : Except E α → W → Prop) (p : Prog S W E α) (w : W) : Prop :=
  ∀ w₀, G w₀ w → Safe exec ok I R G (fun x w₀' w' => G w₀' w' ∧ P x w') p w₀ w

variable {exec ok I R G}
variable {P P' : Except E α → W → Prop} {w : W}

variable {p : Prog S W E α}

theorem Meets.of_guar (h : ∀ w₀, G w₀ w → Meets exec ok I R G P p w) : Meets exec ok I R G P p w :=
  fun w₀ hg => h w₀ hg w₀ hg

theorem Meets.mono (hP : ∀ x w, P x w → P' x w)
    (h : Meets exec ok I R G P p w) : Meets exec ok I R G P' p w :=
  fun w₀ hg => (h w₀ hg).mono fun _ _ _ hx => ⟨hx.1, hP _ _ hx.2⟩

/-- A program that never throws returns. -/
theorem Meets.total (hp : p.Total) (h : Meets exec ok I R G P p w) :
    Meets exec ok I R G (fun x w => (∃ a, x = .ok a) ∧ P x w) p w := by
  intro w₀ hg
  replace h := h w₀ hg
  clear hg
  induction p generalizing w₀ w with
  | ret a => exact ⟨h.1, ⟨a, rfl⟩, h.2⟩
  | raise e => exact hp.elim
  | act f k ih => exact ih w (hp w) w₀ h
  | call c k ih =>
    exact ⟨h.1, fun w₁ hI hR χ r w₂ hok he => ih r (hp r) w₁ (h.2 w₁ hI hR χ r w₂ hok he)⟩

theorem Meets.ret {a : α} (h : P (.ok a) w) : Meets exec ok I R G P (.ret a : Prog S W E α) w :=
  fun _ hg => ⟨hg, h⟩

theorem Meets.raise {e : E} (h : P (.error e) w) :
    Meets exec ok I R G P (.raise e : Prog S W E α) w :=
  fun _ hg => ⟨hg, h⟩

/-- An atomic step that respects the guarantee. -/
theorem Meets.act {f : W → W} {k : W → Prog S W E α} (hg : ∀ w₀, G w₀ w → G w₀ (f w))
    (h : Meets exec ok I R G P (k w) (f w)) : Meets exec ok I R G P (.act f k) w :=
  fun w₀ h₀ => h w₀ (hg w₀ h₀)

/-- A call: its answer arrives in a world that the others have moved along. -/
theorem Meets.call {c : S.Call} {k : S.Ans c → Prog S W E α}
    (h : ∀ w₁, I w₁ → R w w₁ → ∀ χ r w₂, ok χ c w₁ → exec χ c w₁ = some (r, w₂) →
      G w₁ w₂ ∧ Meets exec ok I R G P (k r) w₂) : Meets exec ok I R G P (.call c k) w := by
  refine fun w₀ h₀ => ⟨h₀, fun w₁ hI hR χ r w₂ hok he => ?_⟩
  obtain ⟨hg, hk⟩ := h w₁ hI hR χ r w₂ hok he
  exact hk w₁ hg

theorem Meets.bind {P' : Except E β → W → Prop} {f : α → Prog S W E β}
    (hp : Meets exec ok I R G P p w) (hf : ∀ a w', P (.ok a) w' → Meets exec ok I R G P' (f a) w')
    (he : ∀ e w', P (.error e) w' → P' (.error e) w') : Meets exec ok I R G P' (p.bind f) w := by
  intro w₀ h₀
  refine Safe.bind (fun a w₀' w' => G w₀' w' ∧ P (.ok a) w') ?_ ?_
  · refine (hp w₀ h₀).mono fun x _ _ hx => ?_
    cases x with
    | ok a => exact hx
    | error e => exact ⟨hx.1, he e _ hx.2⟩
  · rintro a w₀' w' ⟨hg, ha⟩
    exact hf a w' ha w₀' hg

theorem Meets.ensuring {fin : W → W} (hp : Meets exec ok I R G P p w)
    (hg : ∀ x w₀ w', P x w' → G w₀ w' → G w₀ (fin w')) (hP : ∀ x w', P x w' → P' x (fin w')) :
    Meets exec ok I R G P' (p.ensuring fin) w :=
  fun w₀ h₀ => Safe.ensuring ((hp w₀ h₀).mono fun x w₀' w' hx =>
    ⟨hg x w₀' w' hx.2 hx.1, hP x w' hx.2⟩)

/-- A loop over a list that does not throw, with an invariant on what is left of it. -/
theorem Meets.forEach {ι : Type} {f : ι → Prog S W E Unit} (J : List ι → W → Prop)
    (hf : ∀ x xs w', J (x :: xs) w' →
      Meets exec ok I R G (fun r w'' => r = .ok () ∧ J xs w'') (f x) w')
    {xs : List ι} (h : J xs w) :
    Meets exec ok I R G (fun r w' => r = .ok () ∧ J [] w') (Prog.forEach f xs) w := by
  induction xs generalizing w with
  | nil => exact .ret ⟨rfl, h⟩
  | cons x xs ih => exact .bind (hf x xs w h) (fun _ w' hw => ih hw.2) fun e w' hw => by cases hw.1

end Meets

section Keeps

variable {S : Sig} {W E α β X : Type}
  (exec : X → (c : S.Call) → W → Option (S.Ans c × W)) (ok : X → S.Call → W → Prop)
  (I : W → Prop) (R G : W → W → Prop)

/-- From `w` on, `p` keeps the guarantee and moves the world along the order, and
its result satisfies `P`. -/
def Keeps (P : α → W → Prop) (p : Prog S W E α) (w : W) : Prop :=
  Meets exec ok I R G (fun x w' => R w w' ∧ ∀ a, x = .ok a → P a w') p w

variable {exec ok I R G}
variable {P P' : α → W → Prop} {w : W}

variable {p : Prog S W E α}

theorem Keeps.safe (h : Keeps exec ok I R G P p w) {w₀ : W} (hg : G w₀ w) :
    Safe exec ok I R G (fun x w₀' w' => G w₀' w' ∧ ∀ a, x = .ok a → P a w') p w₀ w :=
  (h w₀ hg).mono fun _ _ _ hx => ⟨hx.1, hx.2.2⟩

/-- What the guarantee says of the world may be used. -/
theorem Keeps.of_guar (h : ∀ w₀, G w₀ w → Keeps exec ok I R G P p w) : Keeps exec ok I R G P p w :=
  fun w₀ hg => h w₀ hg w₀ hg

theorem Keeps.mono (hP : ∀ a w', R w w' → P a w' → P' a w')
    (h : Keeps exec ok I R G P p w) : Keeps exec ok I R G P' p w :=
  fun w₀ hg => (h w₀ hg).mono fun _ _ _ hx =>
    ⟨hx.1, hx.2.1, fun a ha => hP a _ hx.2.1 (hx.2.2 a ha)⟩

theorem Keeps.ret (hr : ∀ w, R w w) {a : α} (h : P a w) :
    Keeps exec ok I R G P (.ret a : Prog S W E α) w :=
  fun _ hg => ⟨hg, hr w, fun _ hb => by cases hb; exact h⟩

theorem Keeps.raise (hr : ∀ w, R w w) {e : E} : Keeps exec ok I R G P (.raise e : Prog S W E α) w :=
  fun _ hg => ⟨hg, hr w, fun _ hb => by cases hb⟩

theorem Keeps.ofExcept (hr : ∀ w, R w w) {x : Except E α} (h : ∀ a, x = .ok a → P a w) :
    Keeps exec ok I R G P (.ofExcept x : Prog S W E α) w := by
  cases x with
  | ok a => exact .ret hr (h a rfl)
  | error e => exact .raise hr

theorem Keeps.read (hr : ∀ w, R w w) {f : W → α} (h : P (f w) w) :
    Keeps exec ok I R G P (.read f : Prog S W E α) w :=
  fun _ hg => ⟨hg, hr w, fun _ hb => by cases hb; exact h⟩

theorem Keeps.modify {P : Unit → W → Prop} {f : W → W} (hg : ∀ w₀, G w₀ w → G w₀ (f w))
    (hr : R w (f w)) (h : P () (f w)) : Keeps exec ok I R G P (.modify f : Prog S W E Unit) w :=
  fun w₀ h₀ => ⟨hg w₀ h₀, hr, fun _ _ => h⟩

/-- A call: its answer arrives in a world that the others have moved along. -/
theorem Keeps.call (ht : ∀ w w' w'', R w w' → R w' w'' → R w w'') {c : S.Call}
    {k : S.Ans c → Prog S W E α}
    (h : ∀ w₁, I w₁ → R w w₁ → ∀ χ r w₂, ok χ c w₁ → exec χ c w₁ = some (r, w₂) →
      G w₁ w₂ ∧ R w₁ w₂ ∧ Keeps exec ok I R G P (k r) w₂) :
    Keeps exec ok I R G P (.call c k) w := by
  refine fun w₀ h₀ => ⟨h₀, fun w₁ hI hR χ r w₂ hok he => ?_⟩
  obtain ⟨hg, hr, hk⟩ := h w₁ hI hR χ r w₂ hok he
  exact (hk w₁ hg).mono fun _ _ _ hx => ⟨hx.1, ht _ _ _ hR (ht _ _ _ hr hx.2.1), hx.2.2⟩

theorem Keeps.bind (ht : ∀ w w' w'', R w w' → R w' w'' → R w w'') {P' : β → W → Prop}
    {f : α → Prog S W E β} (hp : Keeps exec ok I R G P p w)
    (hf : ∀ a w', R w w' → P a w' → Keeps exec ok I R G P' (f a) w') :
    Keeps exec ok I R G P' (p.bind f) w := by
  intro w₀ h₀
  refine Safe.bind (fun a w₀' w' => G w₀' w' ∧ R w w' ∧ P a w') ?_ ?_
  · refine (hp w₀ h₀).mono fun x _ _ hx => ?_
    cases x with
    | ok a => exact ⟨hx.1, hx.2.1, hx.2.2 a rfl⟩
    | error e => exact ⟨hx.1, hx.2.1, fun _ hb => by cases hb⟩
  · rintro a w₀' w' ⟨hg, hr, ha⟩
    exact (hf a w' hr ha w₀' hg).mono fun _ _ _ hx => ⟨hx.1, ht _ _ _ hr hx.2.1, hx.2.2⟩

theorem Keeps.handle (ht : ∀ w w' w'', R w w' → R w' w'' → R w w'') {h : E → Prog S W E α}
    (hp : Keeps exec ok I R G P p w) (hh : ∀ e w', R w w' → Keeps exec ok I R G P (h e) w') :
    Keeps exec ok I R G P (p.handle h) w := by
  intro w₀ h₀
  refine Safe.handle (fun _ w₀' w' => G w₀' w' ∧ R w w') ?_ ?_
  · refine (hp w₀ h₀).mono fun x _ _ hx => ?_
    cases x with
    | ok a => exact hx
    | error e => exact ⟨hx.1, hx.2.1⟩
  · rintro e w₀' w' ⟨hg, hr⟩
    exact (hh e w' hr w₀' hg).mono fun _ _ _ hx => ⟨hx.1, ht _ _ _ hr hx.2.1, hx.2.2⟩

theorem Keeps.ensuring (ht : ∀ w w' w'', R w w' → R w' w'' → R w w'')
    {fin : W → W} (hp : Keeps exec ok I R G P p w)
    (hg : ∀ w₀ w', G w₀ w' → G w₀ (fin w')) (hr : ∀ w', R w' (fin w'))
    (hP : ∀ a w', P a w' → P a (fin w')) : Keeps exec ok I R G P (p.ensuring fin) w := by
  refine fun w₀ h₀ => Safe.ensuring ((hp w₀ h₀).mono fun x w₀' w' hx => ?_)
  exact ⟨hg _ _ hx.1, ht _ _ _ hx.2.1 (hr w'), fun a ha => hP a _ (hx.2.2 a ha)⟩

theorem Keeps.forEach (hr : ∀ w, R w w) (ht : ∀ w w' w'', R w w' → R w' w'' → R w w'')
    {ι : Type} {f : ι → Prog S W E Unit} {xs : List ι}
    (hf : ∀ x ∈ xs, ∀ w', R w w' → Keeps exec ok I R G (fun _ _ => True) (f x) w') :
    Keeps exec ok I R G (fun _ _ => True) (Prog.forEach f xs) w := by
  induction xs generalizing w with
  | nil => exact .ret hr trivial
  | cons x xs ih =>
    refine .bind ht (hf x (by simp) w (hr w)) fun _ w' hw _ => ih fun y hy w'' hw' => ?_
    exact hf y (by simp [hy]) w'' (ht _ _ _ hw hw')

end Keeps

/-- A rely/guarantee argument for every task of a system. -/
structure Outline {S : Sig} {W E O : Type} (M : System S W E O) (A : Allow M) where
  /-- What holds at every suspension. -/
  inv : W → Prop
  /-- What a task expects of the moves of everything else. -/
  rely : Nat → M.Job → W → W → Prop
  /-- What a task promises of each of its own moves. -/
  guar : Nat → M.Job → W → W → Prop
  /-- What holds when a task ends. -/
  post : Nat → M.Job → Except E O → W → Prop
  /-- What holds of a number that no task has yet. -/
  fresh : Nat → W → Prop
  rely_refl : ∀ n j w, rely n j w w
  rely_trans : ∀ n j w w' w'', rely n j w w' → rely n j w' w'' → rely n j w w''
  guar_inv : ∀ n j w w', inv w → guar n j w w' → inv w'
  guar_rely : ∀ n j n' j' w w', n ≠ n' → inv w → guar n j w w' → rely n' j' w w'
  guar_fresh : ∀ n j n' w w', n ≠ n' → guar n j w w' → fresh n' w → fresh n' w'
  env_inv : ∀ e w w', inv w → A.env e w → M.env e w = some w' → inv w'
  env_fresh : ∀ e n w w', M.env e w = some w' → fresh n w → fresh n w'
  env_rely : ∀ e n j w w', inv w → A.env e w → M.env e w = some w' → rely n j w w'
  body : ∀ n j w, inv w → fresh n w → M.ready j w = true → A.start j w →
    Safe M.exec (A.resume j) inv (rely n j) (guar n j)
      (fun x w₀ w => guar n j w₀ w ∧ post n j x w) (M.body n j) w w

namespace Outline

variable {S : Sig} {W E O : Type} {M : System S W E O} {A : Allow M} (L : Outline M A)

/-- What task `n` owes from its next suspension on. -/
def Owes (n : Nat) (j : M.Job) (p : Prog S W E O) (w : W) : Prop :=
  Waiting M.exec (A.resume j) L.inv (L.rely n j) (L.guar n j)
    (fun x w₀ w => L.guar n j w₀ w ∧ L.post n j x w) p w

/-- What the argument maintains about a whole configuration. -/
structure Holds (c : M.Config) : Prop where
  inv : L.inv c.world
  pool : ∀ n j p, c.pool[n]? = some (j, p) → L.Owes n j p c.world
  fresh : ∀ n, c.pool.length ≤ n → L.fresh n c.world

variable {L}

variable {c : M.Config} {w : W}

/-- What one allowed move does: it is an instance of the guarantee of the task
that made it, or it is a move of the environment. -/
theorem Holds.step_cases {c' : M.Config} {m : M.Move} (h : L.Holds c) (hok : A.move c m)
    (hs : System.step c m = some c') :
    (∃ n j p, (m = .start j ∨ ∃ χ, m = .resume n χ) ∧ c.pool.length ≤ c'.pool.length ∧
      c'.pool[n]? = some (j, p) ∧ L.guar n j c.world c'.world ∧ L.Owes n j p c'.world ∧
      (∀ x, p.ended = some x → L.post n j x c'.world) ∧
      ∀ n' j' p', n' ≠ n → c'.pool[n']? = some (j', p') → c.pool[n']? = some (j', p')) ∨
    (∃ e, m = .env e ∧ A.env e c.world ∧ M.env e c.world = some c'.world ∧ c'.pool = c.pool) := by
  obtain ⟨j, rfl, hr, rfl⟩ | ⟨n, χ, j, q, k, r, w, rfl, hp, he, rfl⟩ | ⟨e, w, rfl, he, rfl⟩ :=
    System.step_cases hs
  · obtain ⟨hg, hw, hpost⟩ :=
      (L.body c.pool.length j c.world h.inv (h.fresh _ (Nat.le_refl _)) hr hok).settle
      fun _ _ _ h => h.1
    refine .inl ⟨c.pool.length, j, _, .inl rfl,
      by simp, by simp, hg, hw, fun x hx => (hpost x hx).2, ?_⟩
    intro n' j' p' hn hp
    rw [List.getElem?_append] at hp
    split at hp
    · exact hp
    · rw [List.getElem?_eq_none (by simp only [List.length_singleton]; omega)] at hp
      cases hp
  · have hw := h.pool n j _ hp
    obtain ⟨hg, hw', hpost⟩ := (hw c.world h.inv (L.rely_refl n j _) χ r w (hok j q k hp) he).settle
      fun _ _ _ h => h.1
    have hlt : n < c.pool.length := (List.getElem?_eq_some_iff.mp hp).1
    refine .inl ⟨n, j, _, .inr ⟨χ, rfl⟩, by simp, by rw [List.getElem?_set_self hlt], hg, hw',
      fun x hx => (hpost x hx).2, fun n' j' p' hn hp' => ?_⟩
    rwa [List.getElem?_set_ne (Ne.symm hn)] at hp'
  · exact .inr ⟨e, rfl, hok, he, rfl⟩

/-- Every allowed move maintains the argument. -/
theorem Holds.step {c' : M.Config} {m : M.Move} (h : L.Holds c) (hok : A.move c m)
    (hs : System.step c m = some c') : L.Holds c' := by
  obtain ⟨n, j, p, _, hlen, hp, hg, hw, _, hrest⟩ | ⟨e, _, hoke, he, hpool⟩ :=
    h.step_cases hok hs
  · refine ⟨L.guar_inv n j _ _ h.inv hg, fun n' j' p' hp' => ?_, fun n' hn' => ?_⟩
    swap
    · have hlt := (List.getElem?_eq_some_iff.mp hp).1
      exact L.guar_fresh n j n' _ _ (by omega) hg (h.fresh n' (by omega))
    by_cases hn : n' = n
    · subst hn
      rw [hp] at hp'
      obtain ⟨rfl, rfl⟩ := Prod.mk.inj (Option.some.inj hp')
      exact hw
    · exact (h.pool n' j' p' (hrest n' j' p' hn hp')).rely (L.rely_trans n' j')
        (L.guar_rely n j n' j' _ _ (Ne.symm hn) h.inv hg)
  · refine ⟨L.env_inv e _ _ h.inv hoke he, fun n' j' p' hp' => ?_,
      fun n' hn' => L.env_fresh e n' _ _ he (h.fresh n' (hpool ▸ hn'))⟩
    rw [hpool] at hp'
    exact (h.pool n' j' p' hp').rely (L.rely_trans n' j') (L.env_rely e n' j' _ _ h.inv hoke he)

/-- When a task is resumed, the move is an instance of its guarantee; and when the
task ends by it, its postcondition holds. -/
theorem Holds.resume {c' : M.Config} {n : Nat} {χ : M.Choice} {j : M.Job} {p : Prog S W E O}
    (h : L.Holds c) (hp : c.pool[n]? = some (j, p)) (hok : A.move c (.resume n χ))
    (hs : System.step c (.resume n χ) = some c') :
    ∃ p', c'.pool[n]? = some (j, p') ∧ L.guar n j c.world c'.world ∧
      ∀ x, p'.ended = some x → L.post n j x c'.world := by
  obtain ⟨n', j', p', hm, _, hp', hg, _, hpost, _⟩ | ⟨e, hm, _⟩ := h.step_cases hok hs
  · obtain hm | ⟨χ', hm⟩ := hm
    · cases hm
    · obtain ⟨rfl, rfl⟩ := System.Move.resume.inj hm
      have hjobs := congrArg (·[n]?) (System.jobs_step hs)
      simp only [System.Move.started, List.append_nil, List.getElem?_map, hp, hp', Option.map_some,
        Option.some.injEq] at hjobs
      subst hjobs
      exact ⟨p', hp', hg, hpost⟩
  · cases hm

/-- The argument holds in every configuration that allowed moves reach. -/
theorem holds_of_reach (hw : L.inv w) (hf : ∀ n, L.fresh n w)
    (h : System.Reach A.move ⟨w, []⟩ c) : L.Holds c := by
  induction h with
  | refl => exact ⟨hw, fun n j p hp => (by simp at hp), fun n _ => hf n⟩
  | tail m _ hok hs ih => exact ih.step hok hs

/-- The invariant holds in every configuration that allowed moves reach. -/
theorem reach (hw : L.inv w) (hf : ∀ n, L.fresh n w)
    (h : System.Reach A.move ⟨w, []⟩ c) : L.inv c.world := (holds_of_reach hw hf h).inv

/-- A postcondition that others respect holds from the end of its task on. -/
theorem ended_of_reach (hR : ∀ n j x w w', L.post n j x w → L.rely n j w w' → L.post n j x w')
    (hw : L.inv w) (hf : ∀ n, L.fresh n w)
    (h : System.Reach A.move ⟨w, []⟩ c) {n : Nat} {j : M.Job} {p : Prog S W E O}
    {x : Except E O} (hp : c.pool[n]? = some (j, p)) (hx : p.ended = some x) :
    L.post n j x c.world := by
  induction h generalizing n j p with
  | refl => simp at hp
  | tail m hr hok hs ih =>
    have hc := holds_of_reach hw hf hr
    obtain ⟨n', j', p', _, _, hp', hg, _, hpost, hrest⟩ | ⟨e, _, hoke, he, hpool⟩ :=
      hc.step_cases hok hs
    · by_cases hn : n = n'
      · subst hn
        obtain ⟨rfl, rfl⟩ := Prod.mk.inj (Option.some.inj (hp.symm.trans hp'))
        exact hpost x hx
      · exact hR n j x _ _ (ih (hrest n j p hn hp) hx)
          (L.guar_rely n' j' n j _ _ (Ne.symm hn) hc.inv hg)
    · exact hR n j x _ _ (ih (hpool ▸ hp) hx) (L.env_rely e n j _ _ hc.inv hoke he)

/-- A fact about a task that its first move establishes, and that its own moves and
the moves of others keep, holds of every task. -/
theorem task_of_reach {K : Nat → M.Job → W → Prop}
    (hG : ∀ n j w w', L.fresh n w ∨ K n j w → L.guar n j w w' → K n j w')
    (hR : ∀ n j w w', K n j w → L.rely n j w w' → K n j w') (hw : L.inv w) (hf : ∀ n, L.fresh n w)
    (h : System.Reach A.move ⟨w, []⟩ c) {n : Nat} {j : M.Job} {p : Prog S W E O}
    (hp : c.pool[n]? = some (j, p)) : K n j c.world := by
  induction h generalizing n j p with
  | refl => simp at hp
  | tail m hr hok hs ih =>
    rename_i c c'
    have hc := holds_of_reach hw hf hr
    obtain ⟨n', j', p', _, _, hp', hg, _, _, hrest⟩ | ⟨e, _, hoke, he, hpool⟩ :=
      hc.step_cases hok hs
    · by_cases hn : n = n'
      · subst hn
        obtain ⟨rfl, rfl⟩ := Prod.mk.inj (Option.some.inj (hp.symm.trans hp'))
        refine hG n j _ _ ?_ hg
        cases hold : c.pool[n]? with
        | none => exact .inl (hc.fresh n (List.getElem?_eq_none_iff.mp hold))
        | some jp =>
          have hlt := (List.getElem?_eq_some_iff.mp hold).1
          have hjobs := congrArg (·[n]?) (System.jobs_step hs)
          simp only [List.getElem?_map, hp, Option.map_some] at hjobs
          rw [List.getElem?_append_left (by simpa using hlt), List.getElem?_map, hold] at hjobs
          obtain rfl := Option.some.inj hjobs
          exact .inr (ih hold)
      · exact hR n j _ _ (ih (hrest n j p hn hp)) (L.guar_rely n' j' n j _ _ (Ne.symm hn) hc.inv hg)
    · exact hR n j _ _ (ih (hpool ▸ hp)) (L.env_rely e n j _ _ hc.inv hoke he)

end Outline

end Coop
