import Swarmy.Js.Value

/-!
# Compose variables

`interpolateCompose` of `packages/core/src/compose/interpolate.ts`: `$VAR`,
`${VAR}`, `${VAR:-default}` and the other forms, in every string value of a parsed
compose document, at any depth.  Keys and other scalars are left alone, and so is a
string without a `$`.
-/

namespace Swarmy.Compose

open List Option

open Js (Value Fields)

structure InterpolationError where
  message : String
  /-- Dotted path of the offending value. -/
  path : String
deriving DecidableEq

/-- The variables of a stack. -/
abbrev Variables := AList fun _ : String => String

def isNameStart (c : Char) : Bool := c.isAlpha || c = '_'

def isNameChar (c : Char) : Bool := c.isAlphanum || c = '_'

/-- What stands before the brace that closes `depth` open ones, and what follows it. -/
@[grind =] def matchingBrace : Nat → List Char → Option (List Char × List Char)
  | _, [] => none
  | depth, '$' :: '$' :: cs => (matchingBrace depth cs).map fun p => ('$' :: '$' :: p.1, p.2)
  | depth, c :: cs =>
    if c = '{' then (matchingBrace (depth + 1) cs).map fun p => (c :: p.1, p.2)
    else if c = '}' then
      if depth = 1 then some ([], cs)
      else (matchingBrace (depth - 1) cs).map fun p => (c :: p.1, p.2)
    else (matchingBrace depth cs).map fun p => (c :: p.1, p.2)

/-- The operator of a braced form: its letter, and whether an empty value counts as
unset. -/
structure Op where
  letter : Char
  colon : Bool

/-- What follows the name of a braced form: its operator, if any, and the rest. -/
@[grind =] def splitOp : List Char → Option (Option Op × List Char)
  | [] => some (none, [])
  | ':' :: c :: cs => if c ∈ ['-', '?', '+'] then some (some ⟨c, true⟩, cs) else none
  | c :: cs => if c ∈ ['-', '?', '+'] then some (some ⟨c, false⟩, cs) else none

theorem matchingBrace_length {depth : Nat} {cs : List Char} {p : List Char × List Char}
    (h : matchingBrace depth cs = some p) : p.1.length + p.2.length < cs.length := by
  induction depth, cs using matchingBrace.induct generalizing p with
  | case1 => cases h
  | case2 depth cs ih =>
    obtain ⟨q, hq, rfl⟩ := map_eq_some_iff.mp h
    have := ih hq
    simp only [length_cons]
    omega
  | case3 depth cs hne ih =>
    obtain ⟨q, hq, rfl⟩ := map_eq_some_iff.mp h
    have := ih hq
    simp only [length_cons]
    omega
  | case4 cs hne _ =>
    obtain rfl := some.inj h
    simp
  | case5 depth cs hd hne _ ih =>
    rw [matchingBrace.eq_3 _ _ _ hne, if_neg (by decide), if_pos rfl, if_neg hd] at h
    obtain ⟨q, hq, rfl⟩ := map_eq_some_iff.mp h
    have := ih hq
    simp only [length_cons]
    omega
  | case6 depth c cs hne h₁ h₂ ih =>
    rw [matchingBrace.eq_3 _ _ _ hne, if_neg h₁, if_neg h₂] at h
    obtain ⟨q, hq, rfl⟩ := map_eq_some_iff.mp h
    have := ih hq
    simp only [length_cons]
    omega

theorem splitOp_length {cs : List Char} {op : Option Op} {rest : List Char}
    (h : splitOp cs = some (op, rest)) : rest.length ≤ cs.length := by
  unfold splitOp at h
  split at h
  · cases h
    exact Nat.le_refl _
  · split at h
    · cases h
      simp only [length_cons]
      omega
    · cases h
  · split at h
    · cases h
      simp
    · cases h

/-- The text of an interpolation, and the variables it found unset. -/
abbrev Interpolated := Except InterpolationError (List Char × List String)

section

variable (vars : Variables) (path : String)

def lookup (name : List Char) : List Char × List String :=
  match vars.lookup (.ofList name) with
  | some v => (v.toList, [])
  | none => ([], [.ofList name])

def invalid (input : List Char) (why : String) : InterpolationError :=
  ⟨s!"invalid interpolation format for \"{String.ofList input}\": {why}", path⟩

/-- The error of `${VAR:?message}` and `${VAR?message}`. -/
def required (name : List Char) (nested : Interpolated) : Interpolated :=
  match nested with
  | .error e => .error e
  | .ok (text, _) =>
    .error ⟨s!"required variable {String.ofList name} is missing a value: " ++
      (if text = [] then "not set" else .ofList text), path⟩

/-- The value of a braced form, given what its rest interpolates to. -/
def braced (name : List Char) (op : Option Op) (nested : Interpolated) : Interpolated :=
  let value := vars.lookup (.ofList name)
  match op with
  | none => .ok (lookup vars name)
  | some ⟨letter, colon⟩ =>
    -- With a colon, an empty value is as good as none.
    let value := if colon && value == some "" then none else value
    match letter, value with
    | '-', some v => .ok (v.toList, [])
    | '-', none => nested
    | '?', some v => .ok (v.toList, [])
    | '?', none => required path name nested
    | _, some _ => nested
    | _, none => .ok ([], [])

/-- One interpolated piece, and what follows it. -/
def Interpolated.append (head tail : Interpolated) : Interpolated :=
  match head, tail with
  | .ok (s, us), .ok (t, vs) => .ok (s ++ t, us ++ vs)
  | .error e, _ => .error e
  | .ok _, .error e => .error e

/-- Interpolate what is left of `input`. -/
@[grind =] def interpolateFrom (input : List Char) : List Char → Interpolated
  | [] => .ok ([], [])
  | c :: cs =>
    if c ≠ '$' then Interpolated.append (.ok ([c], [])) (interpolateFrom input cs)
    else match cs with
      | '$' :: cs => Interpolated.append (.ok (['$'], [])) (interpolateFrom input cs)
      | '{' :: cs =>
        match h : matchingBrace 1 cs with
        | none => .error (invalid path input "unclosed \"$\x7b\"")
        | some (body, after) =>
          match h' : splitOp (body.dropWhile isNameChar) with
          | some (op, rest) =>
            if (body.head?).all (fun c => !isNameStart c) then
              .error (invalid path input s!"\"$\x7b{String.ofList body}\x7d\"")
            else
              have _hbody := matchingBrace_length h
              have _hrest := splitOp_length h'
              have _hdrop : (body.dropWhile isNameChar).length ≤ body.length :=
                (dropWhile_sublist _).length_le
              Interpolated.append
                (braced vars path (body.takeWhile isNameChar) op (interpolateFrom rest rest))
                (interpolateFrom input after)
          | none => .error (invalid path input s!"\"$\x7b{String.ofList body}\x7d\"")
      | c :: cs =>
        if isNameStart c then
          have : ((c :: cs).dropWhile isNameChar).length ≤ cs.length + 1 :=
            (dropWhile_sublist _).length_le
          Interpolated.append (.ok (lookup vars ((c :: cs).takeWhile isNameChar)))
            (interpolateFrom input ((c :: cs).dropWhile isNameChar))
        else .error (invalid path input ("\"$\" must be followed by a variable name, " ++
          "\"\x7b\", or \"$\" (use \"$$\" for a literal \"$\")"))
      | [] => .error (invalid path input ("\"$\" must be followed by a variable name, " ++
            "\"\x7b\", or \"$\" (use \"$$\" for a literal \"$\")"))
termination_by cs => cs.length
decreasing_by all_goals simp only [length_cons] at *; omega

/-- Interpolate one string. -/
def interpolateString (input : String) : Interpolated :=
  interpolateFrom vars path input.toList input.toList

end

/-- A string without a `$` is its own interpolation. -/
theorem interpolateFrom_plain (vars : Variables) (path : String) (input : List Char) :
    ∀ {cs : List Char}, '$' ∉ cs → interpolateFrom vars path input cs = .ok (cs, [])
  | [], _ => by unfold interpolateFrom; rfl
  | c :: cs, h => by
    have hc : c ≠ '$' := fun he => h (he ▸ mem_cons_self)
    have hcs := interpolateFrom_plain vars path input
      (fun hm => h (mem_cons_of_mem c hm))
    unfold interpolateFrom
    rw [if_pos hc, hcs]
    rfl

/-! ## Documents -/

/-- An assignment to this property sets the prototype and makes no property. -/
def protoKey : String := "__proto__"

/-- The own properties of an object that began as `{}` and was assigned these. -/
def assigned (fields : Fields) : Fields := fields.filter (·.1 ≠ protoKey)

theorem assigned_eq_self {fields : Fields} (h : ∀ f ∈ fields, f.1 ≠ protoKey) :
    assigned fields = fields :=
  filter_eq_self.mpr fun f hf => decide_eq_true (h f hf)

theorem lookup_assigned (fields : Fields) {k : String} (hk : k ≠ protoKey) :
    (assigned fields).lookup k = fields.lookup k := by
  induction fields with
  | nil => rfl
  | cons f fields ih =>
    obtain ⟨fk, fv⟩ := f
    by_cases hf : fk = protoKey
    · subst hf
      rw [assigned, filter_cons_of_neg (by simp), lookup_cons,
        beq_eq_false_iff_ne.mpr hk]
      exact ih
    · rw [assigned, filter_cons_of_pos (by simpa using hf), lookup_cons,
        lookup_cons, ← ih]
      rfl

mutual

/-- There is no `$` in any string of the value, and no key that names a prototype. -/
def Plain : Value → Prop
  | .str s => '$' ∉ s.toList
  | .arr elems => PlainElems elems
  | .obj fields => PlainFields fields
  | _ => True

def PlainElems : List Value → Prop
  | [] => True
  | v :: vs => Plain v ∧ PlainElems vs

def PlainFields : List (String × Value) → Prop
  | [] => True
  | (k, v) :: fs => k ≠ protoKey ∧ Plain v ∧ PlainFields fs

end

theorem plainFields_key : ∀ {fs : List (String × Value)}, PlainFields fs →
    ∀ f ∈ fs, f.1 ≠ protoKey
  | (k, v) :: fs, h, f, hf => by
    rcases mem_cons.mp hf with rfl | hf
    · exact h.1
    · exact plainFields_key h.2.2 f hf

/-- A value with its strings interpolated, and the unset variables with the paths
where they are used. -/
abbrev Walked (α : Type) := α × List (String × String)

/-- Two parts, one after the other. -/
def Walked.both {α β γ : Type} (f : α → β → γ) (a : Except InterpolationError (Walked α))
    (b : Except InterpolationError (Walked β)) : Except InterpolationError (Walked γ) :=
  match a, b with
  | .ok (x, us), .ok (y, vs) => .ok (f x y, us ++ vs)
  | .error e, _ => .error e
  | .ok _, .error e => .error e

section

variable (vars : Variables)

mutual

def walk (path : String) : Value → Except InterpolationError (Walked Value)
  | .str s => (interpolateString vars path s).map fun r =>
      (.str (.ofList r.1), r.2.map fun u => (u, path))
  | .arr elems => (walkElems path 0 elems).map fun r => (.arr r.1, r.2)
  | .obj fields => (walkFields path fields).map fun r => (.obj (assigned r.1), r.2)
  | v => .ok (v, [])

def walkElems (path : String) (i : Nat) :
    List Value → Except InterpolationError (Walked (List Value))
  | [] => .ok ([], [])
  | v :: vs => Walked.both .cons (walk s!"{path}[{i}]" v) (walkElems path (i + 1) vs)

def walkFields (path : String) :
    List (String × Value) → Except InterpolationError (Walked (List (String × Value)))
  | [] => .ok ([], [])
  | (k, v) :: fs =>
    Walked.both (fun w ws => (k, w) :: ws) (walk (if path = "" then k else s!"{path}.{k}") v)
      (walkFields path fs)

end

/-- The value interpolates to this, at some path. -/
def Interpolates (v w : Value) : Prop := ∃ path us, walk vars path v = .ok (w, us)

variable {vars}

theorem Walked.both_ok {α β γ : Type} {f : α → β → γ} {a : Except InterpolationError (Walked α)}
    {b : Except InterpolationError (Walked β)} {r : Walked γ} (h : Walked.both f a b = .ok r) :
    ∃ x y us vs, a = .ok (x, us) ∧ b = .ok (y, vs) ∧ r = (f x y, us ++ vs) := by
  unfold Walked.both at h
  split at h
  · exact ⟨_, _, _, _, rfl, rfl, (Except.ok.inj h).symm⟩
  · cases h
  · cases h

theorem walkElems_ok {path : String} {i : Nat} {vs : List Value} {r : Walked (List Value)}
    (h : walkElems vars path i vs = .ok r) : List.Forall₂ (Interpolates vars) vs r.1 := by
  induction vs generalizing i r with
  | nil =>
    obtain rfl := Except.ok.inj h
    exact .nil
  | cons v vs ih =>
    obtain ⟨w, ws, us, us', hw, hws, rfl⟩ := Walked.both_ok h
    exact .cons ⟨_, us, hw⟩ (ih hws)

theorem walkFields_ok {path : String} {fs : List (String × Value)}
    {r : Walked (List (String × Value))} (h : walkFields vars path fs = .ok r) :
    List.Forall₂ (fun f g => f.1 = g.1 ∧ Interpolates vars f.2 g.2) fs r.1 := by
  induction fs generalizing r with
  | nil =>
    obtain rfl := Except.ok.inj h
    exact .nil
  | cons f fs ih =>
    obtain ⟨w, ws, us, us', hw, hws, rfl⟩ := Walked.both_ok h
    exact .cons ⟨rfl, _, us, hw⟩ (ih hws)

theorem map_ok {ε α β : Type} {f : α → β} {a : Except ε α} {b : β} (h : a.map f = .ok b) :
    ∃ x, a = .ok x ∧ f x = b := by
  cases a with
  | error e => cases h
  | ok x => exact ⟨x, rfl, Except.ok.inj h⟩

theorem Interpolates.obj {fs : List (String × Value)} {w : Value}
    (h : Interpolates vars (.obj fs) w) : ∃ gs, w = .obj (assigned gs) ∧
      List.Forall₂ (fun f g => f.1 = g.1 ∧ Interpolates vars f.2 g.2) fs gs := by
  obtain ⟨path, us, h⟩ := h
  obtain ⟨r, hr, he⟩ := map_ok h
  cases he
  exact ⟨r.1, rfl, walkFields_ok hr⟩

theorem Interpolates.arr {vs : List Value} {w : Value} (h : Interpolates vars (.arr vs) w) :
    ∃ ws, w = .arr ws ∧ List.Forall₂ (Interpolates vars) vs ws := by
  obtain ⟨path, us, h⟩ := h
  obtain ⟨r, hr, he⟩ := map_ok h
  cases he
  exact ⟨r.1, rfl, walkElems_ok hr⟩

theorem Interpolates.str {s : String} {w : Value} (h : Interpolates vars (.str s) w) :
    ∃ t, w = .str t ∧ ('$' ∉ s.toList → t = s) := by
  obtain ⟨path, us, h⟩ := h
  obtain ⟨r, hr, he⟩ := map_ok h
  cases he
  refine ⟨_, rfl, fun hs => ?_⟩
  rw [interpolateString, interpolateFrom_plain vars path _ hs] at hr
  obtain rfl := Except.ok.inj hr
  exact String.ofList_toList

theorem Interpolates.scalar {v w : Value} (h : Interpolates vars v w) (hs : ∀ s, v ≠ .str s)
    (ha : ∀ vs, v ≠ .arr vs) (ho : ∀ fs, v ≠ .obj fs) : w = v := by
  obtain ⟨path, us, h⟩ := h
  cases v with
  | null | bool _ | num _ => exact (Prod.mk.inj (Except.ok.inj h)).1.symm
  | str s => exact absurd rfl (hs s)
  | arr vs => exact absurd rfl (ha vs)
  | obj fs => exact absurd rfl (ho fs)

/-- A property of an object interpolates to the property of what it interpolates to. -/
theorem Interpolates.field {v w : Value} (h : Interpolates vars v w) {k : String}
    (hk : k ≠ protoKey) : (v.field k = none ∧ w.field k = none) ∨
      ∃ x y, v.field k = some x ∧ w.field k = some y ∧ Interpolates vars x y := by
  cases v with
  | obj fs =>
    obtain ⟨gs, rfl, hgs⟩ := h.obj
    show ((fs.lookup k = none ∧ (assigned gs).lookup k = none) ∨ ∃ x y, fs.lookup k = some x ∧
      (assigned gs).lookup k = some y ∧ Interpolates vars x y)
    rw [lookup_assigned gs hk]
    clear h
    induction hgs with
    | nil => exact .inl ⟨rfl, rfl⟩
    | @cons f g fs gs hfg _ ih =>
      obtain ⟨fk, fv⟩ := f
      obtain ⟨gk, gv⟩ := g
      obtain ⟨rfl, hv⟩ := hfg
      rw [lookup_cons, lookup_cons]
      cases k == fk with
      | true => exact .inr ⟨_, _, rfl, rfl, hv⟩
      | false => exact ih
  | arr vs =>
    obtain ⟨ws, rfl, -⟩ := h.arr
    exact .inl ⟨rfl, rfl⟩
  | str s =>
    obtain ⟨t, rfl, -⟩ := h.str
    exact .inl ⟨rfl, rfl⟩
  | null | bool _ | num _ =>
    rw [h.scalar (by simp) (by simp) (by simp)]
    exact .inl ⟨rfl, rfl⟩

mutual

/-- A value without a `$` is its own interpolation. -/
theorem walk_plain (path : String) : ∀ {v : Value}, Plain v → walk vars path v = .ok (v, [])
  | .str s, h => by
    rw [walk, interpolateString, interpolateFrom_plain vars path _ h]
    show Except.ok (Value.str (String.ofList s.toList), []) = _
    rw [String.ofList_toList]
  | .arr elems, h => by
    rw [walk, walkElems_plain path 0 h]
    rfl
  | .obj fields, h => by
    rw [walk, walkFields_plain path h]
    show Except.ok (Value.obj (assigned fields), []) = _
    rw [assigned_eq_self (plainFields_key h)]
  | .null, _ => by rw [walk] <;> simp
  | .bool _, _ => by rw [walk] <;> simp
  | .num _, _ => by rw [walk] <;> simp

theorem walkElems_plain (path : String) (i : Nat) :
    ∀ {vs : List Value}, PlainElems vs → walkElems vars path i vs = .ok (vs, [])
  | [], _ => by rw [walkElems]
  | v :: vs, h => by
    rw [walkElems, walk_plain _ h.1, walkElems_plain path (i + 1) h.2]
    rfl

theorem walkFields_plain (path : String) :
    ∀ {fs : List (String × Value)}, PlainFields fs → walkFields vars path fs = .ok (fs, [])
  | [], _ => by rw [walkFields]
  | (k, v) :: fs, h => by
    rw [walkFields, walk_plain _ h.2.1, walkFields_plain path h.2.2]
    rfl

end

theorem Interpolates.plain {v w : Value} (h : Interpolates vars v w) (hv : Plain v) : w = v := by
  obtain ⟨path, us, h⟩ := h
  rw [walk_plain path hv] at h
  exact (Prod.mk.inj (Except.ok.inj h)).1.symm

variable (vars)

/-- A variable that is used without a value or a default. -/
structure UnsetVariable where
  path : String
  name : String
deriving DecidableEq

/-- Interpolate every string of a parsed document; one warning for each variable, where
it is first used. -/
def interpolateCompose (doc : Value) : Except InterpolationError (Value × List UnsetVariable) :=
  (walk vars "" doc).map fun r => (r.1, r.2.foldl (fun ws u =>
    if ws.any (·.name = u.1) then ws else ws ++ [⟨u.2, u.1⟩]) [])

end

end Swarmy.Compose
