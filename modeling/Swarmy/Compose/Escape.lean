import Swarmy.Compose.Reads

/-!
# Escaping

`escapeInterpolation` of `packages/core/src/compose/interpolate.ts`: the compose that
swarmy generates itself has every `$` doubled, so that the interpolation of the deploy
gives back the text it was made from.  It does for every document but one with a key
`__proto__`: both walks copy a mapping by assignment, and an assignment to that key makes
no property.
-/

namespace Swarmy.Compose

open Js (Value Fields)

/-! ## What is escaped -/

/-- `v.split('$').join('$$')`. -/
def escapeChars (cs : List Char) : List Char :=
  cs.flatMap fun c => if c = '$' then ['$', '$'] else [c]

@[simp] theorem escapeChars_nil : escapeChars [] = [] := rfl

@[simp] theorem escapeChars_dollar (cs : List Char) :
    escapeChars ('$' :: cs) = '$' :: '$' :: escapeChars cs := rfl

theorem escapeChars_cons {c : Char} (hc : c ≠ '$') (cs : List Char) :
    escapeChars (c :: cs) = c :: escapeChars cs := by
  rw [escapeChars, List.flatMap_cons, if_neg hc]
  rfl

mutual

/-- Every `$` in a string doubled; keys and other scalars as they are. -/
def escapeInterpolation : Value → Value
  | .str s => .str (.ofList (escapeChars s.toList))
  | .arr elems => .arr (escapeElems elems)
  | .obj fields => .obj (assigned (escapeFields fields))
  | v => v

def escapeElems : List Value → List Value
  | [] => []
  | v :: vs => escapeInterpolation v :: escapeElems vs

def escapeFields : List (String × Value) → List (String × Value)
  | [] => []
  | (k, v) :: fs => (k, escapeInterpolation v) :: escapeFields fs

end

mutual

/-- What copying a value by assignment keeps of it. -/
def copied : Value → Value
  | .arr elems => .arr (copiedElems elems)
  | .obj fields => .obj (assigned (copiedFields fields))
  | v => v

def copiedElems : List Value → List Value
  | [] => []
  | v :: vs => copied v :: copiedElems vs

def copiedFields : List (String × Value) → List (String × Value)
  | [] => []
  | (k, v) :: fs => (k, copied v) :: copiedFields fs

end

mutual

/-- No mapping in the value has a key `__proto__`. -/
def NoProto : Value → Prop
  | .arr elems => NoProtoElems elems
  | .obj fields => NoProtoFields fields
  | _ => True

def NoProtoElems : List Value → Prop
  | [] => True
  | v :: vs => NoProto v ∧ NoProtoElems vs

def NoProtoFields : List (String × Value) → Prop
  | [] => True
  | (k, v) :: fs => k ≠ protoKey ∧ NoProto v ∧ NoProtoFields fs

end

/-! ## What interpolating gives back -/

section

variable {vars : Variables}

/-- An escaped text interpolates to what it was. -/
theorem interpolateFrom_escapeChars (path : String) (input cs : List Char) :
    interpolateFrom vars path input (escapeChars cs) = .ok (cs, []) := by
  induction cs with
  | nil => rw [escapeChars_nil, interpolateFrom]
  | cons c cs ih =>
    by_cases hc : c = '$'
    · subst hc
      rw [escapeChars_dollar, interpolateFrom_dollar, ih]
      rfl
    · rw [escapeChars_cons hc, interpolateFrom_char _ _ _ hc, ih]
      rfl

theorem assigned_cons (k : String) (v : Value) (fs : List (String × Value)) :
    assigned ((k, v) :: fs) = if k = protoKey then assigned fs else (k, v) :: assigned fs := by
  rw [assigned, List.filter_cons]
  by_cases hk : k = protoKey
  · simp [assigned]
  · simp [hk, assigned]

theorem assigned_assigned (fs : List (String × Value)) : assigned (assigned fs) = assigned fs :=
  assigned_eq_self fun _ hf => of_decide_eq_true (List.mem_filter.mp hf).2

mutual

/-- An escaped value interpolates to what copying keeps of it, with nothing unset. -/
theorem walk_escape : ∀ (path : String) (v : Value),
    walk vars path (escapeInterpolation v) = .ok (copied v, [])
  | path, .str s => by
    rw [escapeInterpolation, walk, interpolateString, String.toList_ofList,
      interpolateFrom_escapeChars]
    show Except.ok (Value.str (String.ofList s.toList), []) = _
    rw [String.ofList_toList, copied] <;> simp
  | path, .arr elems => by
    rw [escapeInterpolation, walk, walkElems_escape, copied]
    rfl
  | path, .obj fields => by
    rw [escapeInterpolation, walk, walkFields_escape, copied]
    exact congrArg (fun fs => Except.ok (Value.obj fs, [])) (assigned_assigned _)
  | path, .null => by rw [escapeInterpolation, walk, copied] <;> simp
  | path, .bool _ => by rw [escapeInterpolation, walk, copied] <;> simp
  | path, .num _ => by rw [escapeInterpolation, walk, copied] <;> simp

theorem walkElems_escape : ∀ (path : String) (i : Nat) (vs : List Value),
    walkElems vars path i (escapeElems vs) = .ok (copiedElems vs, [])
  | path, i, [] => by rw [escapeElems, walkElems, copiedElems]
  | path, i, v :: vs => by
    rw [escapeElems, walkElems, walk_escape, walkElems_escape path (i + 1) vs, copiedElems]
    rfl

theorem walkFields_escape : ∀ (path : String) (fs : List (String × Value)),
    walkFields vars path (assigned (escapeFields fs)) = .ok (assigned (copiedFields fs), [])
  | path, [] => by rw [escapeFields, copiedFields]; rfl
  | path, (k, v) :: fs => by
    rw [escapeFields, copiedFields, assigned_cons, assigned_cons]
    split
    · exact walkFields_escape path fs
    · rw [walkFields, walk_escape, walkFields_escape path fs]
      rfl

end

mutual

/-- Copying keeps a value as it is when no mapping in it has a key `__proto__`. -/
theorem copied_eq_self_iff : ∀ v : Value, copied v = v ↔ NoProto v
  | .arr elems => by
    rw [copied, NoProto, Value.arr.injEq]
    exact copiedElems_eq_self_iff elems
  | .obj fields => by
    rw [copied, NoProto, Value.obj.injEq]
    exact copiedFields_eq_self_iff fields
  | .str _ => by rw [copied, NoProto] <;> simp
  | .null => by rw [copied, NoProto] <;> simp
  | .bool _ => by rw [copied, NoProto] <;> simp
  | .num _ => by rw [copied, NoProto] <;> simp

theorem copiedElems_eq_self_iff : ∀ vs : List Value, copiedElems vs = vs ↔ NoProtoElems vs
  | [] => by rw [copiedElems, NoProtoElems]; simp
  | v :: vs => by
    rw [copiedElems, NoProtoElems, List.cons.injEq]
    exact and_congr (copied_eq_self_iff v) (copiedElems_eq_self_iff vs)

theorem copiedFields_eq_self_iff : ∀ fs : List (String × Value),
    assigned (copiedFields fs) = fs ↔ NoProtoFields fs
  | [] => by rw [copiedFields, NoProtoFields]; simp [assigned]
  | (k, v) :: fs => by
    rw [copiedFields, NoProtoFields, assigned_cons]
    split
    · next hk =>
      refine iff_of_false (fun h => ?_) fun h => h.1 hk
      -- A key that copying drops is not in what it leaves.
      have hmem : (k, v) ∈ assigned (copiedFields fs) := h ▸ List.mem_cons_self
      exact of_decide_eq_true (List.mem_filter.mp hmem).2 hk
    · next hk =>
      rw [List.cons.injEq, Prod.mk.injEq]
      simp only [true_and]
      rw [copied_eq_self_iff v, copiedFields_eq_self_iff fs]
      exact ⟨fun h => ⟨hk, h⟩, fun h => h.2⟩

end

theorem interpolateCompose_escape (d : Value) :
    interpolateCompose vars (escapeInterpolation d) = .ok (copied d, []) := by
  rw [interpolateCompose, walk_escape]
  rfl

end

/-! ## Escaping undoes interpolation -/

section

variable (vars : Variables)

/-- The escaped document interpolates to the document, without a warning. -/
def Undone (d : Value) : Prop :=
  interpolateCompose vars (escapeInterpolation d) = .ok (d, [])

theorem undone_iff_noProto {d : Value} : Undone vars d ↔ NoProto d := by
  rw [Undone, interpolateCompose_escape, ← copied_eq_self_iff]
  constructor
  · intro h
    exact (Prod.mk.inj (Except.ok.inj h)).1
  · intro h
    rw [h]

/-- What a template ends in: the pieces it is read as, with a `$` for every `$$` and every
value as it is.  The same variables with other values, whatever these hold, leave the
pieces the same. -/
structure Verbatim (path s : String) : Prop where
  read : ∀ out, (∃ us, interpolateString vars path s = .ok (out, us)) ↔
    ∃ ps, Reads vars s.toList ps ∧ out = ps.flatMap (Piece.text vars)
  kept : ∀ ps vars', Reads vars s.toList ps → SameSet vars vars' → Reads vars' s.toList ps

theorem verbatim (path s : String) : Verbatim vars path s where
  read _ := interpolateString_ok_iff
  kept _ _ hps hset := hps.congr hset

/-- Escaping a document is undone, and every template is taken piece by piece, exactly
when no mapping of the document has a key `__proto__`. -/
theorem undone_iff (d : Value) : (Undone vars d ∧ ∀ path s, Verbatim vars path s) ↔ NoProto d := by
  rw [and_iff_left (verbatim vars)]
  exact undone_iff_noProto vars

end

/-- A compose document with a label of the key `__proto__`. -/
def protoDoc : Value := .obj [("services", .obj [("web", .obj [("labels",
  .obj [(protoKey, .str "a"), ("b", .str "c$d")])])])]

theorem not_undone_protoDoc : ¬Undone ∅ protoDoc := by
  rw [undone_iff_noProto]
  simp [protoDoc, NoProto, NoProtoFields]

/-- A nested default with a `$$`, an unset variable in front and a value that looks like a
reference. -/
example : interpolateString (AList.singleton "B" "${A}$$") "" "${A:-$$x${B}}" =
    .ok ("$x${A}$$".toList, []) := by decide +kernel

end Swarmy.Compose
