import Mathlib.Data.List.Basic
import Mathlib.Logic.Function.Basic
import Mathlib.Tactic.Common

/-!
# A shell's variables

What a script of assignments, `export`, `unset`, `read` and `exec` does under the POSIX shell, over
bytes.  The shell sets some variables itself when it starts, and may drop what the environment has
under a name that no variable can have: `Shell` says which shell it is.  Locales play no part.
-/

namespace Posix

open List Option Function

abbrev Bytes := List UInt8

instance : LawfulBEq Bytes := inferInstance

/-- The bytes of a text. -/
def bytes (s : String) : Bytes := s.toList.flatMap String.utf8EncodeChar

theorem bytes_injective : Function.Injective bytes := by
  intro s t h
  have hbytes : ∀ s : String, (bytes s).toByteArray = s.toByteArray := fun s => by
    conv_rhs => rw [← String.ofList_toList (s := s), String.toByteArray_ofList]
    rfl
  rw [← String.toByteArray_inj, ← hbytes s, ← hbytes t, h]

@[simp] theorem bytes_inj {s t : String} : bytes s = bytes t ↔ s = t := bytes_injective.eq_iff

@[simp] theorem bytes_append (s t : String) : bytes (s ++ t) = bytes s ++ bytes t := by
  rw [bytes, String.toList_append, flatMap_append]
  rfl

/-! ## Variables -/

structure Var where
  value : Bytes
  exported : Bool

/-- The variables that are set. -/
abbrev Vars := Bytes → Option Var

/-- An environment. -/
abbrev Env := Bytes → Option Bytes

namespace Vars

variable (σ : Vars)

/-- `"$k"`. -/
def value (k : Bytes) : Bytes := ((σ k).map (·.value)).getD []

/-- `k=v`. -/
def assign (k v : Bytes) : Vars :=
  update σ k (some ⟨v, ((σ k).map (·.exported)).getD false⟩)

/-- `export k=v`. -/
def exportAs (k v : Bytes) : Vars := update σ k (some ⟨v, true⟩)

/-- `unset k …`. -/
def unset (ks : List Bytes) : Vars := fun k => if k ∈ ks then none else σ k

/-- What a command that is run finds in its environment. -/
def env : Env := fun k => (σ k).bind fun x => if x.exported then some x.value else none

variable {σ} {j k v : Bytes}

@[simp] theorem value_assign : (σ.assign k v).value k = v := by
  simp [value, assign]

theorem assign_of_ne (h : j ≠ k) : σ.assign k v j = σ j := update_of_ne h _ _

@[simp] theorem value_assign_of_ne (h : j ≠ k) : (σ.assign k v).value j = σ.value j := by
  rw [value, assign_of_ne h, value]

theorem exportAs_self : σ.exportAs k v k = some ⟨v, true⟩ := update_self _ _ _

theorem exportAs_of_ne (h : j ≠ k) : σ.exportAs k v j = σ j := update_of_ne h _ _

theorem env_eq_none (h : σ k = none) : σ.env k = none := by
  rw [env, h]
  rfl

theorem env_of_exported (h : σ k = some ⟨v, true⟩) : σ.env k = some v := by
  rw [env, h]
  rfl

end Vars

/-! ## Starting -/

def isUpper (b : UInt8) : Bool := 65 ≤ b && b ≤ 90

def isLower (b : UInt8) : Bool := 97 ≤ b && b ≤ 122

def isDigit (b : UInt8) : Bool := 48 ≤ b && b ≤ 57

/-- `[A-Za-z0-9_]`. -/
def isWord (b : UInt8) : Bool := isUpper b || isLower b || isDigit b || b == 95

/-- What a variable can be called. -/
def isName : Bytes → Bool
  | [] => false
  | b :: bs => !isDigit b && (b :: bs).all isWord

/-- What POSIX leaves to a shell. -/
structure Shell where
  /-- The variables that it sets itself: `PPID`, `OPTIND`, `PWD`. -/
  own : Env
  /-- Whether an entry of the environment is handed on although no variable has such a name. -/
  passes : Bytes → Bool

/-- The variables of a shell that has started: what comes from the environment stays exported. -/
def Shell.start (sh : Shell) (env : Env) : Vars := fun k =>
  match env k with
  | some v => if isName k || sh.passes k then some ⟨(sh.own k).getD v, true⟩ else none
  | none => (sh.own k).map (⟨·, false⟩)

theorem Shell.start_env (sh : Shell) (env : Env) (k : Bytes) : (sh.start env).env k =
      (env k).bind fun v => if isName k || sh.passes k then some ((sh.own k).getD v) else none := by
  unfold Vars.env start
  cases env k with
  | none => cases sh.own k <;> rfl
  | some v => cases isName k || sh.passes k <;> rfl

/-! ## Fields -/

/-- Field splitting at a character that is no white space: what it ends is a field. -/
def fields (delim : UInt8) (v : Bytes) : List Bytes :=
  let fs := v.splitOn delim
  if fs.getLast? = some [] then fs.dropLast else fs

theorem fields_intercalate {delim : UInt8} {ws : List Bytes} (hne : ∀ w ∈ ws, w ≠ [])
    (hdelim : ∀ w ∈ ws, delim ∉ w) (hws : ws ≠ []) :
    fields delim ([delim].intercalate ws) = ws := by
  have hsplit : ([delim].intercalate ws).splitOn delim = ws := splitOn_intercalate delim hdelim hws
  rw [fields, hsplit, if_neg fun hlast => hne [] (mem_of_getLast? hlast) rfl]

/-! ## `while read` -/

def newline : UInt8 := 10

/-- `while IFS= read -r k; do body; done < input`, in the middle of a line.  The last line may lack
its newline: the loop ends on it.  `read` skips null bytes, which no variable can hold. -/
def whileRead (k : Bytes) (body : Vars → Vars) : Bytes → Bytes → Vars → Vars
  | line, [], σ => σ.assign k line
  | line, b :: input, σ =>
    if b = newline then whileRead k body [] input (body (σ.assign k line))
    else if b = 0 then whileRead k body line input σ
    else whileRead k body (line ++ [b]) input σ

/-- The rule of the loop: an invariant of what has been read, which the body keeps. -/
theorem whileRead_rule {k : Bytes} {body : Vars → Vars} {I : Bytes → Vars → Prop}
    (step : ∀ read line σ, I read σ → I (read ++ line ++ [newline]) (body (σ.assign k line)))
    (input : Bytes) : ∀ read line σ, I read σ →
      ∃ read' last σ', whileRead k body line input σ = σ'.assign k last ∧ I read' σ' ∧
        read' ++ last = read ++ line ++ input.filter (· ≠ 0) := by
  induction input with
  | nil => exact fun read line σ h => ⟨read, line, σ, rfl, h, by rw [filter_nil, append_nil]⟩
  | cons b input ih =>
    intro read line σ h
    rw [whileRead]
    by_cases hnewline : b = newline
    · obtain ⟨read', last, σ', hloop, hI, hread⟩ := ih _ [] _ (step read line σ h)
      refine ⟨read', last, σ', (if_pos hnewline).trans hloop, hI, hread.trans ?_⟩
      rw [filter_cons_of_pos (by rw [hnewline]; decide), hnewline]
      simp only [append_assoc, singleton_append]
    · rw [if_neg hnewline]
      by_cases hnull : b = 0
      · obtain ⟨read', last, σ', hloop, hI, hread⟩ := ih read line σ h
        refine ⟨read', last, σ', (if_pos hnull).trans hloop, hI, hread.trans ?_⟩
        rw [filter_cons_of_neg (by simp [hnull])]
      · obtain ⟨read', last, σ', hloop, hI, hread⟩ := ih read (line ++ [b]) σ h
        refine ⟨read', last, σ', (if_neg hnull).trans hloop, hI, hread.trans ?_⟩
        rw [filter_cons_of_pos (by simpa using hnull)]
        simp only [append_assoc, singleton_append]

/-! ## Ending -/

/-- What running a script comes to. -/
inductive Outcome where
  | exit (status : Nat)
  /-- The shell is replaced by a command. -/
  | exec (argv : List Bytes) (env : Env)

/-- A word that a utility without options takes for an operand. -/
def isOperand : Bytes → Bool
  | 45 :: _ :: _ => false
  | _ => true

/-- `exec …`, at the end of a script.  A first word `--` is discarded; another that looks like an
option is a usage error. -/
def exec : List Bytes → Env → Outcome
  | [], _ => .exit 0
  | [45, 45] :: [], _ => .exit 0
  | [45, 45] :: argv, env => .exec argv env
  | w :: argv, env => if isOperand w then .exec (w :: argv) env else .exit 2

theorem exec_eq_iff {w : Bytes} {argv : List Bytes} {env env' : Env} :
    exec (w :: argv) env = .exec (w :: argv) env' ↔ isOperand w = true ∧ env = env' := by
  rw [exec.eq_def]
  split
  · contradiction
  · rename_i heq
    obtain ⟨rfl, rfl⟩ := List.cons.inj heq
    exact ⟨nofun, fun h => by cases h.1⟩
  · rename_i heq
    obtain ⟨rfl, rfl⟩ := List.cons.inj heq
    refine ⟨fun h => ?_, fun h => by cases h.1⟩
    have hlength := congrArg List.length (Outcome.exec.inj h).1
    exact absurd hlength (by simp)
  · rename_i heq
    obtain ⟨rfl, rfl⟩ := List.cons.inj heq
    split
    · rename_i hw
      exact ⟨fun h => ⟨hw, (Outcome.exec.inj h).2⟩, fun h => by rw [h.2]⟩
    · rename_i hw
      exact ⟨nofun, fun h => absurd h.1 hw⟩

end Posix
