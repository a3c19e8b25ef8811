import Swarmy.Js.Value

/-!
# The fragment of Cedar without entities

Expressions over the request's context, and policies whose head is the wildcard.
An expression may err, a policy whose condition errs is skipped, a `forbid` that
is satisfied overrides every `permit`, and nothing is allowed by default.
-/

namespace Cedar

/-- What a policy text can write down. -/
inductive Lit where
  | bool (b : Bool)
  | long (n : Int)
  | string (s : String)
deriving DecidableEq

inductive Value where
  | lit (l : Lit)
  | set (elems : List Value)
  | record (fields : List (String × Value))
  /-- An entity or a value of an extension type, by its text. -/
  | other (text : String)

inductive Expr where
  | context
  | lit (l : Lit)
  | set (ls : List Lit)
  | attr (e : Expr) (name : String)
  | index (e : Expr) (key : String)
  | has (e : Expr) (key : String)
  | eq (a b : Expr)
  | contains (a b : Expr)
  | containsAny (a b : Expr)
  | and (a b : Expr)
  | or (a b : Expr)
  | not (e : Expr)
  | paren (e : Expr)

/-! ## Equality

Sets are compared as sets and records by their attributes. -/

mutual

/-- `v == w`. -/
def Value.same : Value → Value → Bool
  | .lit l, .lit m => l == m
  | .set xs, .set ys =>
    (Value.sames xs).all ys.any && ys.all fun y => (Value.sames xs).any (· y)
  | .record fs, .record gs =>
    (Value.fieldSames fs).all (fun f => (gs.lookup f.1).any f.2) &&
      gs.all fun g => (Value.fieldSames fs).any (·.1 == g.1)
  | .other s, .other t => s == t
  | _, _ => false

def Value.sames : List Value → List (Value → Bool)
  | [] => []
  | v :: vs => v.same :: Value.sames vs

def Value.fieldSames : List (String × Value) → List (String × (Value → Bool))
  | [] => []
  | (k, v) :: fs => (k, v.same) :: Value.fieldSames fs

end

/-! ## Evaluation -/

/-- A Boolean value. -/
abbrev Value.ofBool (b : Bool) : Value := .lit (.bool b)

/-- `v.k`, `v["k"]`. -/
def Value.get : Value → String → Option Value
  | .record fields, k => fields.lookup k
  | _, _ => none

/-- `v has k`. -/
def Value.has : Value → String → Option Bool
  | .record fields, k => some (fields.lookup k).isSome
  | _, _ => none

/-- `v.contains(w)`. -/
def Value.contains : Value → Value → Option Bool
  | .set xs, w => some (xs.any (Value.same w))
  | _, _ => none

/-- `v.containsAny(w)`. -/
def Value.containsAny : Value → Value → Option Bool
  | .set xs, .set ys => some (ys.any fun w => xs.any (Value.same w))
  | _, _ => none

/-- The Boolean an operand of `&&`, `||` and `!` must be. -/
def Value.asBool : Value → Option Bool
  | .lit (.bool b) => some b
  | _ => none

variable (ctx : Value)

/-- The value of an expression; `none` when it errs. -/
@[grind =] def Expr.eval : Expr → Option Value
  | .context => some ctx
  | .lit l => some (.lit l)
  | .set ls => some (.set (ls.map .lit))
  | .attr e k | .index e k => (e.eval).bind (·.get k)
  | .has e k => ((e.eval).bind (·.has k)).map .ofBool
  | .eq a b => (a.eval).bind fun v => (b.eval).map fun w => .ofBool (v.same w)
  | .contains a b => (a.eval).bind fun v => (b.eval).bind fun w => (v.contains w).map .ofBool
  | .containsAny a b =>
    (a.eval).bind fun v => (b.eval).bind fun w => (v.containsAny w).map .ofBool
  | .and a b => ((a.eval).bind Value.asBool).bind fun
      | true => ((b.eval).bind Value.asBool).map .ofBool
      | false => some (.ofBool false)
  | .or a b => ((a.eval).bind Value.asBool).bind fun
      | true => some (.ofBool true)
      | false => ((b.eval).bind Value.asBool).map .ofBool
  | .not e => ((e.eval).bind Value.asBool).map fun b => .ofBool !b
  | .paren e => e.eval

/-- The expression is a Boolean of known value. -/
def Expr.Is (e : Expr) (b : Bool) : Prop := e.eval ctx = some (.ofBool b)

/-- The expression is satisfied: it neither errs nor is false. -/
abbrev Expr.Holds (e : Expr) : Prop := e.Is ctx true

variable {ctx} {a b e : Expr}

theorem Expr.asBool_eval {c : Bool} : (e.eval ctx).bind Value.asBool = some c ↔ e.Is ctx c := by
  unfold Expr.Is
  rcases e.eval ctx with _ | ((_ | _ | _) | _ | _ | _) <;> simp [Value.asBool]

theorem Expr.is_and {c d : Bool} (ha : a.Is ctx c) (hb : c = true → b.Is ctx d) :
    (Expr.and a b).Is ctx (c && d) := by
  rw [← asBool_eval] at ha
  cases c with
  | false => simp [Is, eval, ha]
  | true =>
    have hb := asBool_eval.2 (hb rfl)
    simp [Is, eval, ha, hb]

theorem Expr.holds_and : (Expr.and a b).Holds ctx ↔ a.Holds ctx ∧ b.Holds ctx := by
  refine ⟨fun h => ?_, fun h => is_and h.1 fun _ => h.2⟩
  rw [Holds, Is, eval] at h
  cases ha : (a.eval ctx).bind Value.asBool with
  | none => simp [ha] at h
  | some c =>
    cases c with
    | false => simp [ha] at h
    | true =>
      cases hb : (b.eval ctx).bind Value.asBool with
      | none => simp [ha, hb] at h
      | some d =>
        obtain rfl : d = true := by simpa [ha, hb] using h
        exact ⟨asBool_eval.1 ha, asBool_eval.1 hb⟩

theorem Expr.is_or {c d : Bool} (ha : a.Is ctx c) (hb : b.Is ctx d) :
    (Expr.or a b).Is ctx (c || d) := by
  rw [← asBool_eval] at ha hb
  cases c <;> simp [Is, eval, ha, hb]

theorem Expr.is_not {c : Bool} (h : e.Is ctx c) : (Expr.not e).Is ctx (!c) := by
  rw [← asBool_eval] at h
  simp [Is, eval, h]

@[simp] theorem Expr.is_paren {c : Bool} : (Expr.paren e).Is ctx c ↔ e.Is ctx c := Iff.rfl

theorem Expr.Is.holds_iff {c : Bool} (h : e.Is ctx c) : e.Holds ctx ↔ c = true := by
  unfold Holds Is at *
  rw [h]
  simp

theorem Value.any_same_strs (xs : List String) (s : String) :
    (xs.map fun x => Value.lit (.string x)).any (Value.same (.lit (.string s))) =
      xs.contains s := by
  induction xs with
  | nil => rfl
  | cons x xs ih =>
    rw [List.map_cons, List.any_cons, ih, List.contains_cons, Value.same, Bool.eq_iff_iff]
    simp

theorem Value.contains_strs (xs : List String) (s : String) :
    (Value.set (xs.map fun x => .lit (.string x))).contains (.lit (.string s)) =
      some (xs.contains s) := by
  rw [Value.contains, any_same_strs]

theorem Value.containsAny_strs (xs ys : List String) :
    (Value.set (xs.map fun x => .lit (.string x))).containsAny
      (.set (ys.map fun y => .lit (.string y))) = some (ys.any xs.contains) := by
  rw [Value.containsAny, List.any_map]
  simp only [Function.comp_def, any_same_strs]

/-! ## Policies -/

inductive Effect where
  | permit
  | forbid
deriving DecidableEq

/-- A policy with a wildcard head.  Its condition is the conjunction of `conds`. -/
structure Policy where
  id : String
  effect : Effect
  conds : List Expr

/-- The conjunction of a list of expressions. -/
def Expr.all : List Expr → Expr
  | [] => .lit (.bool true)
  | e :: es => .and e (Expr.all es)

theorem Expr.holds_all {es : List Expr} : (Expr.all es).Holds ctx ↔ ∀ e ∈ es, e.Holds ctx := by
  induction es with
  | nil => simp [Expr.all, Holds, Is, eval]
  | cons e es ih => rw [Expr.all, holds_and, ih, List.forall_mem_cons]

variable (ctx) in
/-- The policy's condition holds; one that errs is not satisfied. -/
def Policy.satisfied (p : Policy) : Bool :=
  (((Expr.all p.conds).eval ctx).bind Value.asBool).getD false

theorem Policy.satisfied_iff {p : Policy} :
    p.satisfied ctx = true ↔ ∀ e ∈ p.conds, e.Holds ctx := by
  rw [← Expr.holds_all, Expr.Holds, ← Expr.asBool_eval, Policy.satisfied]
  rcases ((Expr.all p.conds).eval ctx).bind Value.asBool with _ | (_ | _) <;> simp

/-- A satisfied `forbid` denies, else a satisfied `permit` allows, else the request is denied. -/
def isAuthorized (ps : List Policy) (ctx : Value) : Bool :=
  !(ps.any fun p => p.effect == .forbid && p.satisfied ctx) &&
    ps.any fun p => p.effect == .permit && p.satisfied ctx

/-! ## Concrete syntax -/

/-- The text inside a string literal. -/
def esc (s : String) : String :=
  String.ofList (s.toList.flatMap fun c =>
    if c = '\\' then ['\\', '\\'] else if c = '"' then ['\\', '"'] else [c])

def quote (s : String) : String := "\"" ++ esc s ++ "\""

def Lit.render : Lit → String
  | .bool b => if b then "true" else "false"
  | .long n => toString n
  | .string s => quote s

@[grind =] def Expr.render : Expr → String
  | .context => "context"
  | .lit l => l.render
  | .set ls => "[" ++ ", ".intercalate (ls.map Lit.render) ++ "]"
  | .attr e k => e.render ++ "." ++ k
  | .index e k => e.render ++ "[" ++ quote k ++ "]"
  | .has e k => e.render ++ " has " ++ quote k
  | .eq a b => a.render ++ " == " ++ b.render
  | .contains a b => a.render ++ ".contains(" ++ b.render ++ ")"
  | .containsAny a b => a.render ++ ".containsAny(" ++ b.render ++ ")"
  | .and a b => a.render ++ " && " ++ b.render
  | .or a b => a.render ++ " || " ++ b.render
  | .not e => "!" ++ e.render
  | .paren e => "(" ++ e.render ++ ")"

example : (Expr.not .context).render = "!context" := by simp [Expr.render]

def Effect.render : Effect → String
  | .permit => "permit"
  | .forbid => "forbid"

def Policy.render (p : Policy) : String :=
  "@id(" ++ quote p.id ++ ")\n" ++ p.effect.render ++ "(principal, action, resource)" ++
    (if p.conds.isEmpty then ""
      else " when \x7b\n  " ++ " &&\n  ".intercalate (p.conds.map Expr.render) ++ "\n\x7d") ++ ";"

/-! ## Reading a context

A context is given as JSON.  `null` and numbers that are no 64-bit integer are
refused; an object with one of the reserved keys stands for an entity or an
extension value, or is refused, as `escape` says. -/

def reservedKeys : List String := ["__entity", "__extn", "__expr"]

/-- The object is an escape, no record. -/
def isEscape (fields : Js.Fields) : Bool := fields.any fun f => reservedKeys.contains f.1

/-- A number as a long, when it is one. -/
def readNum : Js.Num → Option Int
  | .int n => if -2 ^ 63 ≤ n ∧ n < 2 ^ 63 then some n else none
  | .other _ => none

theorem readNum_eq_some {x : Js.Num} {n : Int} (h : readNum x = some n) : x = .int n := by
  cases x with
  | int m =>
    rw [readNum] at h
    split at h
    · rw [Option.some.inj h]
    · cases h
  | other text => cases h

variable (escape : Js.Fields → Option String)

mutual

def readValue : Js.Value → Option Value
  | .null => none
  | .bool b => some (.lit (.bool b))
  | .num x => (readNum x).map fun n => .lit (.long n)
  | .str s => some (.lit (.string s))
  | .arr elems => (readElems elems).map .set
  | .obj fields =>
    if isEscape fields then (escape fields).map .other else (readFields fields).map .record

def readElems : List Js.Value → Option (List Value)
  | [] => some []
  | v :: vs => (readValue v).bind fun w => (readElems vs).map (w :: ·)

def readFields : List (String × Js.Value) → Option (List (String × Value))
  | [] => some []
  | (k, v) :: fs => (readValue v).bind fun w => (readFields fs).map ((k, w) :: ·)

end

variable {escape}

theorem readElems_strs (ss : List String) :
    readElems escape (ss.map .str) = some (ss.map fun s => .lit (.string s)) := by
  induction ss with
  | nil => simp [readElems]
  | cons s ss ih => simp [readElems, readValue, ih]

/-- A record is read attribute by attribute. -/
theorem readFields_lookup {fs : Js.Fields} {gs : List (String × Value)}
    (h : readFields escape fs = some gs) (k : String) : (fs.get k = none ∧ gs.lookup k = none) ∨
      ∃ v w, fs.get k = some v ∧ readValue escape v = some w ∧ gs.lookup k = some w := by
  induction fs generalizing gs with
  | nil =>
    obtain rfl : gs = [] := by simpa [readFields] using h.symm
    exact .inl ⟨rfl, rfl⟩
  | cons f fs ih =>
    obtain ⟨k', v⟩ := f
    obtain ⟨w, hw, h⟩ := Option.bind_eq_some_iff.1 h
    obtain ⟨gs', hgs, rfl⟩ := Option.map_eq_some_iff.1 h
    simp only [Js.Fields.get, List.lookup_cons] at ih ⊢
    by_cases hk : k = k'
    · subst hk
      exact .inr ⟨v, w, by simp, hw, by simp⟩
    · have hne : (k == k') = false := by simpa using hk
      simp only [hne]
      exact ih hgs

end Cedar
