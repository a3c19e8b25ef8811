import Swarmy.Coop.Prog

/-!
# Scripts, and killing them

A script is a program that runs alone and whose calls are its commands: `after`
carries out `n` of them and leaves the rest of the script and the world, which is
what a kill at the next command boundary leaves behind.  `Throughout` says what
holds before every command and at the end; it is proved along the script and used
at whatever point the script was killed.
-/

namespace Coop

open Prog

section

variable {S : Sig} {W E α β : Type}

/-- The call a program has suspended at. -/
def Prog.pending : Prog S W E α → Option S.Call
  | .call c _ => some c
  | .ret _ | .raise _ | .act _ _ => none

/-- The program changes the world by its calls alone, and every call it may make
satisfies `P`. -/
def Prog.Calls (P : S.Call → Prop) : Prog S W E α → Prop
  | .ret _ | .raise _ => True
  | .act f k => f = id ∧ ∀ w, Calls P (k w)
  | .call c k => P c ∧ ∀ r, Calls P (k r)

variable {p : Prog S W E α} {w : W}

theorem Prog.Calls.bind {P : S.Call → Prop} {f : α → Prog S W E β}
    (hp : p.Calls P) (hf : ∀ a, (f a).Calls P) : (p.bind f).Calls P := by
  induction p with
  | ret a => exact hf a
  | raise e => trivial
  | act g k ih => exact ⟨hp.1, fun w => ih w (hp.2 w)⟩
  | call c k ih => exact ⟨hp.1, fun r => ih r (hp.2 r)⟩

variable (exec : (c : S.Call) → W → S.Ans c × W)

/-- The run after `n` of its calls: what is left of the program, and the world. -/
def after : Prog S W E α → W → Nat → Prog S W E α × W
  | .ret a, w, _ => (.ret a, w)
  | .raise e, w, _ => (.raise e, w)
  | .act f k, w, n => after (k w) (f w) n
  | .call c k, w, 0 => (.call c k, w)
  | .call c k, w, n + 1 => after (k (exec c w).1) (exec c w).2 n

/-- `C` holds before every call and `D` when the program has ended. -/
def Throughout (C : S.Call → W → Prop) (D : Except E α → W → Prop) : Prog S W E α → W → Prop
  | .ret a, w => D (.ok a) w
  | .raise e, w => D (.error e) w
  | .act f k, w => Throughout C D (k w) (f w)
  | .call c k, w => C c w ∧ Throughout C D (k (exec c w).1) (exec c w).2

variable {exec} {C : S.Call → W → Prop} {D : Except E α → W → Prop}

theorem Throughout.mono {D D' : Except E α → W → Prop} (hD : ∀ x w, D x w → D' x w)
    (h : Throughout exec C D p w) : Throughout exec C D' p w := by
  induction p generalizing w with
  | ret a => exact hD _ _ h
  | raise e => exact hD _ _ h
  | act f k ih => exact ih w h
  | call c k ih => exact ⟨h.1, ih _ h.2⟩

theorem Throughout.weaken {C' : S.Call → W → Prop} (hC : ∀ c w, C c w → C' c w)
    {D : Except E α → W → Prop} (h : Throughout exec C D p w) : Throughout exec C' D p w := by
  induction p generalizing w with
  | ret a => exact h
  | raise e => exact h
  | act f k ih => exact ih w h
  | call c k ih => exact ⟨hC _ _ h.1, ih _ h.2⟩

/-- The rule for sequencing. -/
theorem Throughout.bind {D : Except E α → W → Prop} {F : Except E β → W → Prop}
    {f : α → Prog S W E β}
    (h : Throughout exec C D p w) (hok : ∀ a w, D (.ok a) w → Throughout exec C F (f a) w)
    (herr : ∀ e w, D (.error e) w → F (.error e) w) : Throughout exec C F (p.bind f) w := by
  induction p generalizing w with
  | ret a => exact hok a w h
  | raise e => exact herr e w h
  | act g k ih => exact ih w h
  | call c k ih => exact ⟨h.1, ih _ h.2⟩

/-- What every call of the program preserves holds throughout; between its calls
the program leaves the world alone. -/
theorem Throughout.of_calls {P : S.Call → Prop} {J : W → Prop}
    (step : ∀ c w, P c → J w → J (exec c w).2) (hp : p.Calls P) (hw : J w) :
    Throughout exec (fun _ => J) (fun _ => J) p w := by
  induction p generalizing w with
  | ret a => exact hw
  | raise e => exact hw
  | act f k ih =>
    obtain ⟨rfl, hk⟩ := hp
    exact ih w (hk w) hw
  | call c k ih => exact ⟨hw, ih _ (hp.2 _) (step c w hp.1 hw)⟩

variable (exec) in
/-- Where a run has stopped, it is about to make a call or it has ended. -/
theorem after_cases (p : Prog S W E α) (w : W) (n : Nat) :
    (∃ c, (after exec p w n).1.pending = some c) ∨ ∃ x, (after exec p w n).1.ended = some x := by
  induction p generalizing w n with
  | ret a => exact .inr ⟨_, rfl⟩
  | raise e => exact .inr ⟨_, rfl⟩
  | act f k ih => exact ih w (f w) n
  | call c k ih =>
    cases n with
    | zero => exact .inl ⟨c, rfl⟩
    | succ n => exact ih _ _ n

/-- Before the call at which a run is killed. -/
theorem Throughout.pending (h : Throughout exec C D p w) (n : Nat)
    {c : S.Call} (hc : (after exec p w n).1.pending = some c) : C c (after exec p w n).2 := by
  induction p generalizing w n with
  | ret a => cases hc
  | raise e => cases hc
  | act f k ih => exact ih w h n hc
  | call c' k ih =>
    cases n with
    | zero =>
      obtain rfl := Option.some.inj hc
      exact h.1
    | succ n => exact ih _ h.2 n hc

/-- At the end of a run. -/
theorem Throughout.ended (h : Throughout exec C D p w) (n : Nat)
    {x : Except E α} (hx : (after exec p w n).1.ended = some x) : D x (after exec p w n).2 := by
  induction p generalizing w n with
  | ret a =>
    obtain rfl := Option.some.inj hx
    exact h
  | raise e =>
    obtain rfl := Option.some.inj hx
    exact h
  | act f k ih => exact ih w h n hx
  | call c' k ih =>
    cases n with
    | zero => cases hx
    | succ n => exact ih _ h.2 n hx

/-! ## Running to the end -/

variable (exec) in
/-- The run to its end: what the program returned or threw, and the world. -/
def finish : Prog S W E α → W → Except E α × W
  | .ret a, w => (.ok a, w)
  | .raise e, w => (.error e, w)
  | .act f k, w => finish (k w) (f w)
  | .call c k, w => finish (k (exec c w).1) (exec c w).2

theorem Throughout.finish (h : Throughout exec C D p w) :
    D (finish exec p w).1 (finish exec p w).2 := by
  induction p generalizing w with
  | ret a => exact h
  | raise e => exact h
  | act f k ih => exact ih w h
  | call c k ih => exact ih _ h.2

/-- The rule for handling exceptions. -/
theorem Throughout.handle {D' : Except E α → W → Prop} {f : E → Prog S W E α}
    (h : Throughout exec C D p w) (hok : ∀ a w, D (.ok a) w → D' (.ok a) w)
    (herr : ∀ e w, D (.error e) w → Throughout exec C D' (f e) w) :
    Throughout exec C D' (p.handle f) w := by
  induction p generalizing w with
  | ret a => exact hok a w h
  | raise e => exact herr e w h
  | act g k ih => exact ih w h
  | call c k ih => exact ⟨h.1, ih _ h.2⟩

/-- The program returns, and what it returns has the property. -/
def Returns (Q : α → W → Prop) : Except E α → W → Prop
  | .ok a, w => Q a w
  | .error _, _ => False

theorem Throughout.andThen {Q : α → W → Prop} {D' : Except E β → W → Prop} {f : α → Prog S W E β}
    (h : Throughout exec C (Returns Q) p w) (hok : ∀ a w, Q a w → Throughout exec C D' (f a) w) :
    Throughout exec C D' (p.bind f) w :=
  h.bind hok fun _ _ h => h.elim

/-- The rule for a loop with a state: what holds of the elements done is kept. -/
theorem Throughout.fold {ι σ : Type} {f : ι → σ → Prog S W E σ} {J : List ι → σ → W → Prop}
    (step : ∀ xs x s w, J xs s w → Throughout exec C (Returns (J (xs ++ [x]))) (f x s) w)
    (ys : List ι) {xs : List ι} {s : σ} (h : J xs s w) :
    Throughout exec C (Returns (J (xs ++ ys))) (Prog.fold f ys s) w := by
  induction ys generalizing xs s w with
  | nil => simpa [Prog.fold, Throughout, Returns] using h
  | cons y ys ih =>
    rw [List.append_cons]
    exact (step xs y s w h).andThen fun s w h => ih h

end

end Coop

/-!
## Running alone, and being cut short

A program that runs alone, against a fixed way of answering its calls, has one
outcome; and it may be cut short at any of its calls, before the call is carried
out or after that but before its answer has arrived.  `outcome` and `CutAt`
say what these are, and `Ends` is a Hoare logic with a crash condition beside the
postcondition.
-/

namespace Coop

open Prog

section

variable {S : Sig} {W E α β : Type} (exec : (c : S.Call) → W → Option (S.Ans c × W))

/-- How a program ends that runs alone; `none` when it waits for ever. -/
def outcome : Prog S W E α → W → Option (Except E α × W)
  | .ret a, w => some (.ok a, w)
  | .raise e, w => some (.error e, w)
  | .act f k, w => outcome (k w) (f w)
  | .call c k, w => (exec c w).bind fun r => outcome (k r.1) r.2

/-- The worlds in which a run alone may be cut short. -/
def CutAt : Prog S W E α → W → W → Prop
  | .ret _, _, _ | .raise _, _, _ => False
  | .act f k, w, w' => CutAt (k w) (f w) w'
  | .call c k, w, w' => w' = w ∨ ∃ r w₁, exec c w = some (r, w₁) ∧ (w' = w₁ ∨ CutAt (k r) w₁ w')

/-- The run ends, with a result and a world that satisfy `D`, and wherever it is
cut short the world satisfies `C`. -/
def Ends (C : W → Prop) (D : Except E α → W → Prop) : Prog S W E α → W → Prop
  | .ret a, w => D (.ok a) w
  | .raise e, w => D (.error e) w
  | .act f k, w => Ends C D (k w) (f w)
  | .call c k, w => C w ∧ ∃ r w₁, exec c w = some (r, w₁) ∧ C w₁ ∧ Ends C D (k r) w₁

variable {exec} {C : W → Prop} {D D' : Except E α → W → Prop}

variable {p : Prog S W E α} {w : W}

theorem Ends.mono (hD : ∀ x w, D x w → D' x w) (h : Ends exec C D p w) : Ends exec C D' p w := by
  induction p generalizing w with
  | ret a => exact hD _ _ h
  | raise e => exact hD _ _ h
  | act f k ih => exact ih w h
  | call c k ih =>
    obtain ⟨hw, r, w₁, he, h₁, hk⟩ := h
    exact ⟨hw, r, w₁, he, h₁, ih r hk⟩

/-- The rule for sequencing. -/
theorem Ends.bind {D' : Except E β → W → Prop} {f : α → Prog S W E β}
    (h : Ends exec C D p w) (hok : ∀ a w, D (.ok a) w → Ends exec C D' (f a) w)
    (herr : ∀ e w, D (.error e) w → D' (.error e) w) : Ends exec C D' (p.bind f) w := by
  induction p generalizing w with
  | ret a => exact hok a w h
  | raise e => exact herr e w h
  | act g k ih => exact ih w h
  | call c k ih =>
    obtain ⟨hw, r, w₁, he, h₁, hk⟩ := h
    exact ⟨hw, r, w₁, he, h₁, ih r hk⟩

/-- The rule for exceptions. -/
theorem Ends.handle {f : E → Prog S W E α} (h : Ends exec C D p w)
    (hok : ∀ a w, D (.ok a) w → D' (.ok a) w)
    (herr : ∀ e w, D (.error e) w → Ends exec C D' (f e) w) : Ends exec C D' (p.handle f) w := by
  induction p generalizing w with
  | ret a => exact hok a w h
  | raise e => exact herr e w h
  | act g k ih => exact ih w h
  | call c k ih =>
    obtain ⟨hw, r, w₁, he, h₁, hk⟩ := h
    exact ⟨hw, r, w₁, he, h₁, ih r hk⟩

theorem Ends.ensuring {fin : W → W}
    (h : Ends exec C (fun x w => D x (fin w)) p w) : Ends exec C D (p.ensuring fin) w := by
  refine Ends.bind (D := fun x w => (∀ a, x = .ok a → D x (fin w)) ∧ ∀ e, x = .error e → D x w) ?_
    (fun a _ h => h.1 a rfl) fun e _ h => h.2 e rfl
  refine h.handle (fun a w h => ⟨fun _ _ => h, fun _ he => ?_⟩) fun e w h =>
    ⟨fun _ he => ?_, fun _ _ => h⟩
  · cases he
  · cases he

/-- A run that ends has an outcome. -/
theorem Ends.outcome (h : Ends exec C D p w) :
    ∃ x w', outcome exec p w = some (x, w') ∧ D x w' := by
  induction p generalizing w with
  | ret a => exact ⟨_, _, rfl, h⟩
  | raise e => exact ⟨_, _, rfl, h⟩
  | act f k ih => exact ih w h
  | call c k ih =>
    obtain ⟨_, r, w₁, he, _, hk⟩ := h
    obtain ⟨x, w', ho, hD⟩ := ih r hk
    exact ⟨x, w', by rw [Coop.outcome, he]; exact ho, hD⟩

/-- Where a run is cut short, the crash condition holds. -/
theorem Ends.cutAt {w' : W} (h : Ends exec C D p w) (hc : CutAt exec p w w') : C w' := by
  induction p generalizing w with
  | ret a => exact hc.elim
  | raise e => exact hc.elim
  | act f k ih => exact ih w h hc
  | call c k ih =>
    obtain ⟨hw, r, w₁, he, h₁, hk⟩ := h
    rcases hc with rfl | ⟨r', w₁', he', hc⟩
    · exact hw
    · obtain ⟨rfl, rfl⟩ := Prod.mk.inj (Option.some.inj (he.symm.trans he'))
      rcases hc with rfl | hc
      · exact h₁
      · exact ih r hk hc

end

end Coop
