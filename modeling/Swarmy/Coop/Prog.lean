import Mathlib.Algebra.BigOperators.Group.List.Basic
import Mathlib.Algebra.GroupWithZero.Nat
import Mathlib.Data.List.AList
import Mathlib.Data.List.Dedup
import Mathlib.Data.List.Forall2
import Mathlib.Data.List.Sort
import Mathlib.Tactic.Common

/-!
# Programs that suspend at calls

A cooperative program runs without interruption between two *calls*: a call
hands control to the environment, and everything else may run before its answer
arrives.  `Prog S W E α` is the free such program over a signature `S` of calls,
with atomic access to a shared world `W`, exceptions in `E` and results in `α`.
It is what an `async` function of a single-threaded runtime is, and what a
goroutine is at the granularity of its calls into other components.

`Prog.settle` runs a program up to its next suspension; it is the only notion of
execution the operational semantics of `Swarmy/Coop/System.lean` needs.
-/

namespace Coop

open List Option

/-- A signature of calls, each with its type of answers. -/
structure Sig where
  /-- The calls a program may suspend at. -/
  Call : Type
  /-- What a call is answered with. -/
  Ans : Call → Type

/-- Programs over the calls of `S` with atomic steps on the world `W`. -/
inductive Prog (S : Sig) (W E α : Type) : Type where
  | /-- The program has returned. -/
    ret (a : α)
  | /-- The program has thrown. -/
    raise (e : E)
  | /-- Update the world and go on, without a suspension.  Both the update and the
    continuation see the world as it was. -/
    act (f : W → W) (k : W → Prog S W E α)
  | /-- Suspend until the call is answered. -/
    call (c : S.Call) (k : S.Ans c → Prog S W E α)

namespace Prog

variable {S : Sig} {W E α β : Type}

/-- Sequencing. -/
def bind : Prog S W E α → (α → Prog S W E β) → Prog S W E β
  | ret a, f => f a
  | raise e, _ => raise e
  | act g k, f => act g fun w => bind (k w) f
  | call c k, f => call c fun r => bind (k r) f

/-- Handling exceptions. -/
def handle : Prog S W E α → (E → Prog S W E α) → Prog S W E α
  | ret a, _ => ret a
  | raise e, h => h e
  | act g k, h => act g fun w => handle (k w) h
  | call c k, h => call c fun r => handle (k r) h

instance instMonad : Monad (Prog S W E) where
  pure := ret
  bind := bind

instance instMonadExcept : MonadExceptOf E (Prog S W E) where
  throw := raise
  tryCatch := handle

/-- Run `fin` on every way out of `p`: a `finally` block of atomic steps. -/
def ensuring (p : Prog S W E α) (fin : W → W) : Prog S W E α :=
  (p.handle fun e => act fin fun _ => raise e).bind fun a => act fin fun _ => ret a

/-- Read the world. -/
def read (f : W → α) : Prog S W E α := act id fun w => ret (f w)

/-- Update the world. -/
def modify (f : W → W) : Prog S W E Unit := act f fun _ => ret ()

/-- Suspend at a call and return its answer. -/
def perform (c : S.Call) : Prog S W E (S.Ans c) := call c ret

/-- Return or throw. -/
def ofExcept : Except E α → Prog S W E α
  | .ok a => ret a
  | .error e => raise e

/-- For each element in order. -/
def forEach {ι : Type} (f : ι → Prog S W E Unit) : List ι → Prog S W E Unit
  | [] => ret ()
  | x :: xs => bind (f x) fun _ => forEach f xs

/-- For each element in order, with a state. -/
def fold {ι σ : Type} (f : ι → σ → Prog S W E σ) : List ι → σ → Prog S W E σ
  | [], s => ret s
  | x :: xs, s => bind (f x s) (fold f xs)

@[simp] theorem pure_eq (a : α) : (pure a : Prog S W E α) = ret a := rfl

@[simp] theorem bind_eq (p : Prog S W E α) (f : α → Prog S W E β) : p >>= f = bind p f := rfl

@[simp] theorem throw_eq (e : E) : (throw e : Prog S W E α) = raise e := rfl

@[simp] theorem ret_bind (a : α) (f : α → Prog S W E β) : bind (ret a) f = f a := rfl

@[simp] theorem raise_bind (e : E) (f : α → Prog S W E β) :
    bind (raise e : Prog S W E α) f = raise e := rfl

/-- Run a program up to its next suspension. -/
def settle : Prog S W E α → W → Prog S W E α × W
  | act f k, w => settle (k w) (f w)
  | p, w => (p, w)

@[simp] theorem settle_ret (a : α) (w : W) : settle (ret a : Prog S W E α) w = (ret a, w) := rfl

@[simp] theorem settle_raise (e : E) (w : W) :
    settle (raise e : Prog S W E α) w = (raise e, w) := rfl

@[simp] theorem settle_act (f : W → W) (k : W → Prog S W E α) (w : W) :
    settle (act f k) w = settle (k w) (f w) := rfl

@[simp] theorem settle_call (c : S.Call) (k : S.Ans c → Prog S W E α) (w : W) :
    settle (call c k) w = (call c k, w) := rfl

/-- What the program has returned or thrown, if it has. -/
def ended : Prog S W E α → Option (Except E α)
  | ret a => some (.ok a)
  | raise e => some (.error e)
  | act _ _ | call _ _ => none

/-- The program never throws. -/
def Total : Prog S W E α → Prop
  | ret _ => True
  | raise _ => False
  | act _ k => ∀ w, Total (k w)
  | call _ k => ∀ r, Total (k r)

theorem Total.bind {p : Prog S W E α} {f : α → Prog S W E β} (hp : p.Total)
    (hf : ∀ a, (f a).Total) : (p.bind f).Total := by
  induction p with
  | ret a => exact hf a
  | raise e => exact hp.elim
  | act g k ih => exact fun w => ih w (hp w)
  | call c k ih => exact fun r => ih r (hp r)

theorem Total.perform (c : S.Call) : (Prog.perform c : Prog S W E (S.Ans c)).Total :=
  fun _ => trivial

theorem Total.read (f : W → α) : (Prog.read f : Prog S W E α).Total := fun _ => trivial

theorem Total.modify (f : W → W) : (Prog.modify f : Prog S W E Unit).Total := fun _ => trivial

end Prog

end Coop

/-!
## Interleaving cooperative programs

A `System` says how calls are answered and which tasks may be started; its
configurations are a world and a pool of suspended programs.  One step either
starts a task, answers the pending call of one task and runs that task to its
next suspension, or lets the environment move.  Every choice the environment has
is part of the move, so `System.step` is a function and a run is a list of moves:
concrete runs can be evaluated.

`System.Reach` is reachability along moves that satisfy a side condition.
-/

namespace Coop

/-- How calls are answered, which tasks there are, and what else may happen. -/
structure System (S : Sig) (W E O : Type) where
  /-- The jobs a task can be started for. -/
  Job : Type
  /-- How the environment may resolve a call. -/
  Choice : Type
  /-- Moves of the environment. -/
  Env : Type
  /-- The program of a job; it is told the number of its task. -/
  body : Nat → Job → Prog S W E O
  /-- May a task for this job be started now? -/
  ready : Job → W → Bool
  /-- Answer a call, or `none` when this choice is not open now. -/
  exec : Choice → (c : S.Call) → W → Option (S.Ans c × W)
  /-- A move of the environment, or `none` when it is not open now. -/
  env : Env → W → Option W

namespace System

variable {S : Sig} {W E O : Type} (M : System S W E O)

/-- A world and the tasks started so far, finished ones included. -/
structure Config where
  /-- The state shared by all tasks. -/
  world : W
  /-- The tasks, by number, each with what is left of its program. -/
  pool : List (M.Job × Prog S W E O)

/-- One move of a run. -/
inductive Move where
  | /-- Start a task and run it to its first suspension. -/
    start (j : M.Job)
  | /-- Answer the pending call of task `n` and run it to its next suspension. -/
    resume (n : Nat) (χ : M.Choice)
  | /-- The environment moves. -/
    env (e : M.Env)

variable {M}

/-- Take one move, if it is open. -/
def step (c : M.Config) : M.Move → Option M.Config
  | .start j =>
    if M.ready j c.world then
      let (p, w) := (M.body c.pool.length j).settle c.world
      some ⟨w, c.pool ++ [(j, p)]⟩
    else none
  | .resume n χ =>
    match c.pool[n]? with
    | some (j, .call q k) =>
      match M.exec χ q c.world with
      | some (r, w₁) =>
        let (p, w₂) := (k r).settle w₁
        some ⟨w₂, c.pool.set n (j, p)⟩
      | none => none
    | _ => none
  | .env e => (M.env e c.world).map fun w => ⟨w, c.pool⟩

/-- Take a list of moves, as long as each passes a test. -/
def runIf (b : M.Config → M.Move → Bool) (c : M.Config) : List M.Move → Option M.Config
  | [] => some c
  | m :: ms => if b c m then (step c m).bind fun c' => runIf b c' ms else none

/-- Take a list of moves. -/
def run (c : M.Config) (ms : List M.Move) : Option M.Config := runIf (fun _ _ => true) c ms

/-- Reachability along moves allowed by `ok`. -/
inductive Reach (ok : M.Config → M.Move → Prop) (c₀ : M.Config) : M.Config → Prop
  | /-- No move. -/
    refl : Reach ok c₀ c₀
  | /-- One more move. -/
    tail {c c' : M.Config} (m : M.Move) :
      Reach ok c₀ c → ok c m → step c m = some c' → Reach ok c₀ c'

/-- What a run reaches is reachable, when the moves that pass its test are allowed. -/
theorem reach_of_runIf {ok : M.Config → M.Move → Prop} {b : M.Config → M.Move → Bool}
    (hb : ∀ c m, b c m = true → ok c m) {c₀ c c' : M.Config} {ms : List M.Move}
    (hr : Reach ok c₀ c) (h : runIf b c ms = some c') : Reach ok c₀ c' := by
  induction ms generalizing c with
  | nil => exact Option.some.inj h ▸ hr
  | cons m ms ih =>
    rw [runIf] at h
    split at h
    · rename_i hm
      obtain ⟨c₁, hs, hrest⟩ := Option.bind_eq_some_iff.mp h
      exact ih (.tail m hr (hb c m hm) hs) hrest
    · cases h

/-- Everything a step can do. -/
theorem step_cases {c c' : M.Config} {m : M.Move} (h : step c m = some c') :
    (∃ j, m = .start j ∧ M.ready j c.world = true ∧
      c' = ⟨((M.body c.pool.length j).settle c.world).2,
        c.pool ++ [(j, ((M.body c.pool.length j).settle c.world).1)]⟩) ∨
    (∃ n χ j q k r w, m = .resume n χ ∧ c.pool[n]? = some (j, .call q k) ∧
      M.exec χ q c.world = some (r, w) ∧
      c' = ⟨((k r).settle w).2, c.pool.set n (j, ((k r).settle w).1)⟩) ∨
    (∃ e w, m = .env e ∧ M.env e c.world = some w ∧ c' = ⟨w, c.pool⟩) := by
  cases m with
  | start j =>
    simp only [step] at h
    split at h
    · rename_i hr
      exact .inl ⟨j, rfl, hr, (Option.some.inj h).symm⟩
    · cases h
  | resume n χ =>
    simp only [step] at h
    split at h
    · rename_i j q k hp
      split at h
      · rename_i r w he
        exact .inr (.inl ⟨n, χ, j, q, k, r, w, rfl, hp, he, (Option.some.inj h).symm⟩)
      · cases h
    · cases h
  | env e =>
    simp only [step, Option.map_eq_some_iff] at h
    obtain ⟨w, hw, rfl⟩ := h
    exact .inr (.inr ⟨e, w, rfl, hw, rfl⟩)

/-! ## The jobs of a run -/

/-- The job a move starts. -/
def Move.started : M.Move → List M.Job
  | .start j => [j]
  | .resume _ _ | .env _ => []

theorem jobs_step {c c' : M.Config} {m : M.Move} (h : step c m = some c') :
    c'.pool.map (·.1) = c.pool.map (·.1) ++ m.started := by
  obtain ⟨j, rfl, _, rfl⟩ | ⟨n, χ, j, q, k, r, w, rfl, hp, _, rfl⟩ | ⟨e, w, rfl, _, rfl⟩ :=
    step_cases h
  · simp [Move.started]
  · obtain ⟨hn, hj⟩ := List.getElem?_eq_some_iff.mp hp
    rw [List.map_set, Move.started, List.append_nil]
    refine List.ext_getElem (by simp) fun i h₁ h₂ => ?_
    rw [List.getElem_set]
    split
    · subst i
      simp [hj]
    · rfl
  · simp [Move.started]

/-- The tasks of a run are the ones its moves start, in order. -/
theorem jobs_runIf {b : M.Config → M.Move → Bool} {c c' : M.Config} {ms : List M.Move}
    (h : runIf b c ms = some c') :
    c'.pool.map (·.1) = c.pool.map (·.1) ++ ms.flatMap Move.started := by
  induction ms generalizing c with
  | nil =>
    rw [runIf, Option.some.injEq] at h
    simp [h]
  | cons m ms ih =>
    rw [runIf] at h
    split at h
    · obtain ⟨c₁, hs, hr⟩ := Option.bind_eq_some_iff.mp h
      rw [ih hr, jobs_step hs, List.flatMap_cons, List.append_assoc]
    · cases h

end System

end Coop
