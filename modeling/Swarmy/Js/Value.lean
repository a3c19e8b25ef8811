import Mathlib.Algebra.BigOperators.Group.List.Basic
import Mathlib.Algebra.GroupWithZero.Nat
import Mathlib.Data.List.AList
import Mathlib.Data.List.Dedup
import Mathlib.Data.List.Forall2
import Mathlib.Data.List.Sort
import Mathlib.Tactic.Common

/-!
# JavaScript values

The values a JSON text or a database column of JSON type holds, with the three
operations programs use on them without looking inside: `String(v)`, `===` and
reading a property.  Two values that were read separately share no object, so
`===` between them holds of equal primitives only.
-/

namespace Js

open List Option

/-- A number, by what `String` prints: an integer in decimal digits, or any other
text (a fraction, an exponent, `Infinity`).  Two numbers are `===` exactly when
they print alike. -/
inductive Num where
  | int (n : Int)
  | other (text : String)
deriving DecidableEq

/-- `String(x)` of a number. -/
def Num.text : Num → String
  | .int n => toString n
  | .other text => text

/-- A value as `JSON.parse` returns it. -/
inductive Value where
  | null
  | bool (b : Bool)
  | num (x : Num)
  | str (s : String)
  | arr (elems : List Value)
  | obj (fields : List (String × Value))

/-- An object's own properties, or a `Record`. -/
abbrev Fields := List (String × Value)

mutual

/-- `String(v)`. -/
def Value.text : Value → String
  | .null => "null"
  | .bool b => if b then "true" else "false"
  | .num x => x.text
  | .str s => s
  | .arr elems => ",".intercalate (Value.elemTexts elems)
  | .obj _ => "[object Object]"

/-- The parts `Array.prototype.join` joins; it prints `null` as nothing. -/
def Value.elemTexts : List Value → List String
  | [] => []
  | .null :: vs => "" :: Value.elemTexts vs
  | v :: vs => v.text :: Value.elemTexts vs

end

/-- Whether `===` can hold of the value and one read separately. -/
def Value.isPrimitive : Value → Bool
  | .arr _ | .obj _ => false
  | _ => true

/-- `a === b`, for values read separately. -/
def Value.same : Value → Value → Bool
  | .null, .null => true
  | .bool a, .bool b => a == b
  | .num a, .num b => a == b
  | .str a, .str b => a == b
  | _, _ => false

theorem Value.same_iff {a b : Value} : a.same b = true ↔ a = b ∧ a.isPrimitive = true := by
  cases a <;> cases b <;> simp [Value.same, Value.isPrimitive]

/-- `o[k]`; `none` is `undefined`. -/
def Fields.get (o : Fields) (k : String) : Option Value := o.lookup k

/-- `v?.[k]` of a value that may be anything: only an object has properties. -/
def Value.field (v : Value) (k : String) : Option Value :=
  match v with
  | .obj fields => Fields.get fields k
  | _ => none

/-! ## Strings -/

/-- `s.length`, in UTF-16 code units. -/
def length (s : String) : Nat := (s.toList.map fun c => if c.toNat < 0x10000 then 1 else 2).sum

/-- White space and line terminators. -/
def isSpace (c : Char) : Bool :=
  c.toNat ∈ [0x09, 0x0A, 0x0B, 0x0C, 0x0D, 0x20, 0xA0, 0x1680, 0x2028, 0x2029, 0x202F, 0x205F,
    0x3000, 0xFEFF] || (0x2000 ≤ c.toNat && c.toNat ≤ 0x200A)

/-- `s.trim()`. -/
def trim (s : String) : String :=
  String.ofList ((s.toList.dropWhile isSpace).reverse.dropWhile isSpace).reverse

/-- `s.startsWith(p)`. -/
def startsWith (s p : String) : Bool := p.toList.isPrefixOf s.toList

/-- `s.toLowerCase()` of a text in ASCII. -/
def toLowerCase (s : String) : String := String.ofList (s.toList.map Char.toLower)

/-- `s.slice(n)`. -/
def slice (s : String) (n : Nat) : String := String.ofList (s.toList.drop n)

/-- Numbers print differently. -/
theorem toString_injective : Function.Injective (toString : Nat → String) := by
  intro a b h
  rw [Nat.toString_eq_ofList_toDigits, Nat.toString_eq_ofList_toDigits, String.ofList_inj] at h
  rw [← Nat.ofDigitChars_ten_toDigits (n := a), h, Nat.ofDigitChars_ten_toDigits]

/-! ## Maps -/

section

variable {α β : Type} [DecidableEq β]

/-- `new Map(xs.map((x) => [key(x), x])).get(k)`: the last entry of a key counts. -/
def mapGet (key : α → β) (xs : List α) (k : β) : Option α := xs.reverse.find? (key · = k)

theorem mapGet_mem {key : α → β} {xs : List α} {k : β} {x : α} (h : mapGet key xs k = some x) :
    x ∈ xs ∧ key x = k := by
  refine ⟨mem_reverse.mp (mem_of_find?_eq_some h), ?_⟩
  simpa using List.find?_some h

theorem mapGet_eq_none {key : α → β} {xs : List α} {k : β} :
    mapGet key xs k = none ↔ ∀ x ∈ xs, key x ≠ k := by
  simp [mapGet, List.find?_eq_none]

/-- Where the keys differ, the entry of a key is the one that has it. -/
theorem mapGet_eq_some {key : α → β} {xs : List α} (hxs : (xs.map key).Nodup) {k : β} {x : α} :
    mapGet key xs k = some x ↔ x ∈ xs ∧ key x = k := by
  refine ⟨mapGet_mem, fun ⟨hx, hk⟩ => ?_⟩
  cases hget : mapGet key xs k with
  | none => exact absurd hk (mapGet_eq_none.mp hget x hx)
  | some y =>
    obtain ⟨hy, hky⟩ := mapGet_mem hget
    exact congrArg some (inj_on_of_nodup_map hxs hy hx (hky.trans hk.symm))

/-- `[...new Set(xs)]`. -/
def unique (xs : List β) : List β := xs.eraseDups

theorem mem_unique {xs : List β} {x : β} : x ∈ unique xs ↔ x ∈ xs := mem_eraseDups

theorem nodup_unique (xs : List β) : (unique xs).Nodup := by
  unfold unique
  induction h : xs.length using Nat.strong_induction_on generalizing xs with
  | h n ih =>
    cases xs with
    | nil => exact nodup_nil
    | cons x xs =>
      rw [eraseDups_cons, nodup_cons]
      refine ⟨fun hmem => ?_, ?_⟩
      · simp at hmem
      · refine ih _ ?_ _ rfl
        rw [← h, length_cons]
        exact Nat.lt_succ_of_le (length_filter_le _ _)

end

end Js

/-!
## Texts

More of what JavaScript does with texts.
-/

namespace Js

/-- `s.endsWith(p)`. -/
def endsWith (s p : String) : Bool := p.toList.isSuffixOf s.toList

/-- `s.split(/\s+/)`. -/
def splitSpaces : List Char → List (List Char)
  | [] => [[]]
  | c :: cs =>
    if isSpace c then if cs.head?.any isSpace then splitSpaces cs else [] :: splitSpaces cs
    else (c :: (splitSpaces cs).headD []) :: (splitSpaces cs).tail

theorem splitSpaces_ne_nil (s : List Char) : splitSpaces s ≠ [] := by
  induction s with
  | nil => exact List.cons_ne_nil _ _
  | cons c cs ih =>
    rw [splitSpaces]
    split
    · split
      · exact ih
      · exact List.cons_ne_nil _ _
    · exact List.cons_ne_nil _ _

/-- A word at the start of a text belongs to its first piece. -/
theorem splitSpaces_word {w : List Char} (hw : ∀ c ∈ w, isSpace c = false) (r : List Char) :
    splitSpaces (w ++ r) = (w ++ (splitSpaces r).headD []) :: (splitSpaces r).tail := by
  induction w with
  | nil =>
    obtain ⟨p, ps, h⟩ := List.exists_cons_of_ne_nil (splitSpaces_ne_nil r)
    rw [List.nil_append, h]
    rfl
  | cons c w ih =>
    obtain ⟨hc, hw⟩ := List.forall_mem_cons.mp hw
    rw [List.cons_append, splitSpaces, if_neg (by rw [hc]; exact Bool.false_ne_true), ih hw]
    rfl

/-- Blanks end the piece before them. -/
theorem splitSpaces_blanks {b r : List Char} (hb : ∀ c ∈ b, isSpace c = true) (hne : b ≠ [])
    (hr : r.head?.any isSpace = false) : splitSpaces (b ++ r) = [] :: splitSpaces r := by
  induction b with
  | nil => exact absurd rfl hne
  | cons c b ih =>
    obtain ⟨hc, hb⟩ := List.forall_mem_cons.mp hb
    rw [List.cons_append, splitSpaces, if_pos hc]
    cases b with
    | nil => rw [List.nil_append, hr, if_neg Bool.false_ne_true]
    | cons c' b =>
      rw [if_pos (by simpa using hb c' List.mem_cons_self)]
      exact ih hb (List.cons_ne_nil _ _)

end Js
