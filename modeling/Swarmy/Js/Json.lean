import Swarmy.Js.Value

/-!
# JSON texts

`JSON.stringify` and `JSON.parse`.  A number is written as `String` prints it, and what number a
text of digits is, is left to a parameter of the reader.  `parse_stringify` reads back every value
that has no number in it and no key twice.

An escape for half of a surrogate pair stands for the replacement character when the other half is
missing.
-/

namespace Js.Json

open List Option Bool

/-! ## Writing -/

/-- The letter after the backslash, for a character that has one. -/
def short (c : Char) : Option Char :=
  if c = '"' then some '"'
  else if c = '\\' then some '\\'
  else if c = '\x08' then some 'b'
  else if c = '\x0c' then some 'f'
  else if c = '\n' then some 'n'
  else if c = '\r' then some 'r'
  else if c = '\t' then some 't'
  else none

/-- One character of a string, in quotes. -/
def escape (c : Char) : List Char :=
  match short c with
  | some e => ['\\', e]
  | none =>
    if c.toNat < 0x20 then
      ['\\', 'u', '0', '0', Nat.digitChar (c.toNat / 16), Nat.digitChar (c.toNat % 16)]
    else [c]

def quote (s : String) : List Char := '"' :: (s.toList.flatMap escape ++ ['"'])

/-- `Infinity` and `NaN` are written as `null`. -/
def numberText : Num → List Char
  | .int n => (toString n).toList
  | .other text => if text ∈ ["Infinity", "-Infinity", "NaN"] then "null".toList else text.toList

mutual

@[grind =] def write : Value → List Char
  | .null => "null".toList
  | .bool b => if b then "true".toList else "false".toList
  | .num x => numberText x
  | .str s => quote s
  | .arr elems => '[' :: (writeElems elems ++ [']'])
  | .obj fields => '\x7b' :: (writeFields fields ++ ['\x7d'])

def writeElems : List Value → List Char
  | [] => []
  | [v] => write v
  | v :: w :: vs => write v ++ ',' :: writeElems (w :: vs)

def writeFields : Fields → List Char
  | [] => []
  | [(k, v)] => quote k ++ ':' :: write v
  | (k, v) :: f :: fs => quote k ++ ':' :: (write v ++ ',' :: writeFields (f :: fs))

end

/-- `JSON.stringify(v)`. -/
def stringify (v : Value) : String := String.ofList (write v)

/-! ## Reading -/

def isBlank (c : Char) : Bool := c = ' ' || c = '\t' || c = '\n' || c = '\r'

def skip (text : List Char) : List Char := text.dropWhile isBlank

def hexDigit (c : Char) : Option Nat :=
  if c.isDigit then some (c.toNat - 48)
  else if 'a' ≤ c ∧ c ≤ 'f' then some (c.toNat - 87)
  else if 'A' ≤ c ∧ c ≤ 'F' then some (c.toNat - 55)
  else none

/-- The code unit of four hex digits. -/
def codeUnit (a b c d : Char) : Option Nat := do
  some (((← hexDigit a) * 16 + (← hexDigit b)) * 256 + (← hexDigit c) * 16 + (← hexDigit d))

/-- The character that `\c` stands for. -/
def unescape (c : Char) : Option Char :=
  if c = '"' then some '"'
  else if c = '\\' then some '\\'
  else if c = '/' then some '/'
  else if c = 'b' then some '\x08'
  else if c = 'f' then some '\x0c'
  else if c = 'n' then some '\n'
  else if c = 'r' then some '\r'
  else if c = 't' then some '\t'
  else none

/-- A code unit, or what a character outside of the first plane is in code units. -/
inductive Part where
  | char (c : Char)
  | unit (n : Nat)

/-- The characters of a text in which some are given by their code units. -/
@[grind =] def chars : List Part → List Char
  | [] => []
  | .char c :: ps => c :: chars ps
  | .unit hi :: .unit lo :: ps =>
    if 0xD800 ≤ hi ∧ hi < 0xDC00 ∧ 0xDC00 ≤ lo ∧ lo < 0xE000 then
      Char.ofNat (0x10000 + (hi - 0xD800) * 0x400 + (lo - 0xDC00)) :: chars ps
    else (if 0xD800 ≤ hi ∧ hi < 0xE000 then '\uFFFD' else Char.ofNat hi) :: chars (.unit lo :: ps)
  | .unit hi :: ps => (if 0xD800 ≤ hi ∧ hi < 0xE000 then '\uFFFD' else Char.ofNat hi) :: chars ps

/-- A string up to its closing quote, and what comes after it. -/
@[grind =] def readString : List Char → Option (List Part × List Char)
  | [] => none
  | '"' :: r => some ([], r)
  | '\\' :: 'u' :: a :: b :: c :: d :: r => do
      let n ← codeUnit a b c d
      let (s, r) ← readString r
      some (.unit n :: s, r)
  | '\\' :: e :: r => do
      let c ← unescape e
      let (s, r) ← readString r
      some (.char c :: s, r)
  | c :: r => do
      if c.toNat < 0x20 ∨ c = '\\' then none
      let (s, r) ← readString r
      some (.char c :: s, r)

/-- `text` without `word` in front. -/
def after (word text : List Char) : Option (List Char) :=
  if word.isPrefixOf text then some (text.drop word.length) else none

/-- Digits, at least one. -/
def digits (text : List Char) : Option (List Char × List Char) :=
  match text.span Char.isDigit with
  | ([], _) => none
  | (ds, r) => some (ds, r)

/-- The text of a number, and what comes after it. -/
def readNumber (text : List Char) : Option (List Char × List Char) := do
  let (sign, r) := match text with
    | '-' :: r => (['-'], r)
    | r => ([], r)
  let (whole, r) ← digits r
  if whole.length > 1 ∧ whole.head? = some '0' then none
  let (fraction, r) ← match r with
    | '.' :: r => (digits r).map fun (ds, r) => ('.' :: ds, r)
    | r => some ([], r)
  let (exponent, r) ← match r with
    | e :: r =>
      if e = 'e' ∨ e = 'E' then
        match r with
        | s :: r =>
          if s = '+' ∨ s = '-' then (digits r).map fun (ds, r) => (e :: s :: ds, r)
          else (digits (s :: r)).map fun (ds, r) => (e :: ds, r)
        | [] => none
      else some ([], e :: r)
    | [] => some ([], [])
  some (sign ++ whole ++ fraction ++ exponent, r)

/-- `o[k] = v`. -/
def set : Fields → String → Value → Fields
  | [], k, v => [(k, v)]
  | (k', v') :: o, k, v => if k' = k then (k, v) :: o else (k', v') :: set o k v

section

-- The number that a text of digits stands for.
variable (number : List Char → Num)

mutual

/-- A value, and what comes after it.  The reader looks at most as deep as `fuel`. -/
@[grind =] def value : Nat → List Char → Option (Value × List Char)
  | 0, _ => none
  | fuel + 1, text =>
    match skip text with
    | [] => none
    | c :: r =>
      if c = '"' then (readString r).map fun (s, r) => (.str (String.ofList (chars s)), r)
      else if c = '[' then
        match skip r with
        | [] => none
        | c :: r =>
          if c = ']' then some (.arr [], r)
          else (elems fuel (c :: r)).map fun (vs, r) => (.arr vs, r)
      else if c = '\x7b' then
        match skip r with
        | [] => none
        | c :: r =>
          if c = '\x7d' then some (.obj [], r)
          else (fields fuel [] (c :: r)).map fun (fs, r) => (.obj fs, r)
      else if c = 'n' then (after "ull".toList r).map fun r => (.null, r)
      else if c = 't' then (after "rue".toList r).map fun r => (.bool true, r)
      else if c = 'f' then (after "alse".toList r).map fun r => (.bool false, r)
      else (readNumber (c :: r)).map fun (x, r) => (.num (number x), r)

/-- The elements up to the closing bracket. -/
def elems : Nat → List Char → Option (List Value × List Char)
  | 0, _ => none
  | fuel + 1, text => do
      let (v, r) ← value fuel text
      match skip r with
      | [] => none
      | c :: r =>
        if c = ',' then (elems fuel r).map fun (vs, r) => (v :: vs, r)
        else if c = ']' then some ([v], r)
        else none

/-- The members up to the closing brace; of two with one key the later counts. -/
def fields : Nat → Fields → List Char → Option (Fields × List Char)
  | 0, _, _ => none
  | fuel + 1, o, text => do
      let (k, r) ← readString (← after ['"'] (skip text))
      let (v, r) ← value fuel (← after [':'] (skip r))
      let o := set o (String.ofList (chars k)) v
      match skip r with
      | [] => none
      | c :: r =>
        if c = ',' then fields fuel o r
        else if c = '\x7d' then some (o, r)
        else none

end

/-- `JSON.parse(text)`, `none` where it throws.  A value takes up two characters for each level of
the reader that it needs, save for the innermost. -/
def parse (text : String) : Option Value :=
  match value number (2 * text.toList.length + 1) text.toList with
  | some (v, r) => if skip r = [] then some v else none
  | none => none

end

/-! ## Strings -/

/-- How the reader sees one character of a string that was written. -/
def part (c : Char) : Part :=
  if short c = none ∧ c.toNat < 0x20 then .unit c.toNat else .char c

theorem unescape_short {c e : Char} (h : short c = some e) : unescape e = some c := by
  unfold short at h
  split_ifs at h <;> obtain rfl := some.inj h <;> subst_vars <;> rfl

theorem codeUnit_control : ∀ n < 0x20,
    codeUnit '0' '0' (Nat.digitChar (n / 16)) (Nat.digitChar (n % 16)) = some n := by decide

theorem readString_short {e c : Char} (h : unescape e = some c) (r : List Char) :
    readString ('\\' :: e :: r) = (readString r).map fun s => (.char c :: s.1, s.2) := by
  have hu : e ≠ 'u' := by
    rintro rfl
    cases h
  rw [readString.eq_4 _ _ fun _ _ _ _ _ he _ => hu he, h]
  cases readString r <;> rfl

theorem readString_control {n : Nat} (h : n < 0x20) (r : List Char) :
    readString ('\\' :: 'u' :: '0' :: '0' :: Nat.digitChar (n / 16) :: Nat.digitChar
      (n % 16) :: r) =
      (readString r).map fun s => (.unit n :: s.1, s.2) := by
  rw [readString, codeUnit_control n h]
  cases readString r <;> rfl

theorem readString_plain {c : Char} (h : ¬ c.toNat < 0x20) (hc : short c = none) (r : List Char) :
    readString (c :: r) = (readString r).map fun s => (.char c :: s.1, s.2) := by
  have hquote : c ≠ '"' := by
    rintro rfl
    cases hc
  have hslash : c ≠ '\\' := by
    rintro rfl
    cases hc
  rw [readString.eq_5 _ _ hquote (fun _ _ _ _ _ he _ => hslash he) fun _ _ he _ => hslash he,
    if_neg (not_or.mpr ⟨h, hslash⟩)]
  cases readString r <;> rfl

theorem readString_escape (c : Char) (r : List Char) :
    readString (escape c ++ r) = (readString r).map fun s => (part c :: s.1, s.2) := by
  cases hshort : short c with
  | some e =>
    have hpart : part c = .char c := if_neg fun h => by rw [h.1] at hshort; cases hshort
    rw [escape, hshort, hpart]
    exact readString_short (unescape_short hshort) r
  | none =>
    by_cases hc : c.toNat < 0x20
    · have hpart : part c = .unit c.toNat := if_pos ⟨hshort, hc⟩
      rw [escape, hshort, hpart]
      simp only [if_pos hc]
      exact readString_control hc r
    · have hpart : part c = .char c := if_neg fun h => hc h.2
      rw [escape, hshort, hpart]
      simp only [if_neg hc]
      exact readString_plain hc hshort r

theorem chars_unit {n : Nat} (h : n < 0x20) (ps : List Part) :
    chars (.unit n :: ps) = Char.ofNat n :: chars ps := by
  have hunit : ¬(0xD800 ≤ n ∧ n < 0xE000) := by omega
  match ps with
  | [] => simp only [chars, if_neg hunit]
  | .char c :: ps => simp only [chars, if_neg hunit]
  | .unit lo :: ps =>
    have hpair : ¬(0xD800 ≤ n ∧ n < 0xDC00 ∧ 0xDC00 ≤ lo ∧ lo < 0xE000) := by omega
    rw [chars, if_neg hpair, if_neg hunit]

theorem chars_part (c : Char) (ps : List Part) : chars (part c :: ps) = c :: chars ps := by
  unfold part
  split
  · rename_i h
    rw [chars_unit h.2, Char.ofNat_toNat]
  · rw [chars]

theorem chars_parts (cs : List Char) : chars (cs.map part) = cs := by
  induction cs with
  | nil => rfl
  | cons c cs ih => rw [map_cons, chars_part, ih]

theorem readString_quoted (cs r : List Char) :
    readString (cs.flatMap escape ++ ['"'] ++ r) = some (cs.map part, r) := by
  induction cs with
  | nil => rfl
  | cons c cs ih =>
    rw [flatMap_cons, append_assoc, append_assoc, readString_escape,
      ← append_assoc, ih]
    rfl

/-! ## Values that are read back -/

mutual

/-- No number in it, and no key twice. -/
def plain : Value → Bool
  | .num _ => false
  | .arr elems => plainElems elems
  | .obj fields => plainFields fields
  | _ => true

def plainElems : List Value → Bool
  | [] => true
  | v :: vs => plain v && plainElems vs

def plainFields : Fields → Bool
  | [] => true
  | (k, v) :: fs => plain v && (fs.all fun f => f.1 ≠ k) && plainFields fs

end

/-- What comes after a number that ends before it. -/
def EndsNumber (r : List Char) : Prop :=
  ∀ c ∈ r.head?, c.isDigit = false ∧ c ≠ '.' ∧ c ≠ 'e' ∧ c ≠ 'E'

/-- A number that is read back from its text. -/
structure SoundNumber (number : List Char → Num) (x : Num) : Prop where
  head : ∃ c r, numberText x = c :: r ∧ (c = '-' ∨ c.isDigit = true)
  read : ∀ r, EndsNumber r → readNumber (numberText x ++ r) = some (numberText x, r)
  number : number (numberText x) = x

mutual

/-- Each number in it is read back, and no key is there twice. -/
def Sound (number : List Char → Num) : Value → Prop
  | .num x => SoundNumber number x
  | .arr elems => SoundElems number elems
  | .obj fields => SoundFields number fields
  | _ => True

def SoundElems (number : List Char → Num) : List Value → Prop
  | [] => True
  | v :: vs => Sound number v ∧ SoundElems number vs

def SoundFields (number : List Char → Num) : Fields → Prop
  | [] => True
  | (k, v) :: fs => Sound number v ∧ (∀ f ∈ fs, f.1 ≠ k) ∧ SoundFields number fs

end

mutual

theorem sound_of_plain {number : List Char → Num} : ∀ {v : Value}, plain v = true → Sound number v
  | .null, _ => by rw [Sound] <;> simp
  | .bool _, _ => by rw [Sound] <;> simp
  | .str _, _ => by rw [Sound] <;> simp
  | .num _, h => by rw [plain] at h; contradiction
  | .arr elems, h => by
    exact soundElems_of_plain (by rwa [plain] at h)
  | .obj fields, h => by
    exact soundFields_of_plain (by rwa [plain] at h)

theorem soundElems_of_plain {number : List Char → Num} : ∀ {vs : List Value}, plainElems vs = true →
    SoundElems number vs
  | [], _ => trivial
  | v :: vs, h => by
    rw [plainElems, and_eq_true] at h
    exact ⟨sound_of_plain h.1, soundElems_of_plain h.2⟩

theorem soundFields_of_plain {number : List Char → Num} : ∀ {fs : Fields}, plainFields fs = true →
    SoundFields number fs
  | [], _ => trivial
  | (k, v) :: fs, h => by
    rw [plainFields, and_eq_true, and_eq_true] at h
    exact ⟨sound_of_plain h.1.1, fun f hf => of_decide_eq_true (all_eq_true.mp h.1.2 f hf),
      soundFields_of_plain h.2⟩

end

theorem skip_of_not_blank {c : Char} (h : isBlank c = false) (r : List Char) :
    skip (c :: r) = c :: r := by
  rw [skip, dropWhile_cons_of_neg (by rw [h]; exact false_ne_true)]

theorem isBlank_of_isDigit {c : Char} (h : c.isDigit = true) : isBlank c = false := by
  rw [isBlank]
  have hne : ∀ d : Char, d.isDigit = false → c ≠ d := fun d hd hc => by rw [hc, hd] at h; cases h
  simp [hne ' ' (by decide), hne '\t' (by decide), hne '\n' (by decide), hne '\r' (by decide)]

theorem endsNumber_cons {c : Char} {r : List Char}
    (h : c.isDigit = false ∧ c ≠ '.' ∧ c ≠ 'e' ∧ c ≠ 'E') :
    EndsNumber (c :: r) := fun x hx => by
  obtain rfl : c = x := by simpa using hx
  exact h

/-- What a value is written as begins with. -/
theorem write_head {number : List Char → Num} {v : Value} (h : Sound number v) :
    ∃ c r, write v = c :: r ∧ isBlank c = false ∧ c ≠ ']' := by
  cases v with
  | null => exact ⟨_, _, rfl, by decide, by decide⟩
  | bool b => cases b <;> exact ⟨_, _, rfl, by decide, by decide⟩
  | num x =>
    obtain ⟨c, r, htext, hc⟩ := h.head
    refine ⟨c, r, htext, ?_, ?_⟩
    · obtain rfl | hc := hc
      · decide
      · exact isBlank_of_isDigit hc
    · rintro rfl
      obtain hc | hc := hc <;> cases hc
  | str s => exact ⟨_, _, by rw [write, quote], by decide, by decide⟩
  | arr elems => exact ⟨_, _, by rw [write], by decide, by decide⟩
  | obj fields => exact ⟨_, _, by rw [write], by decide, by decide⟩

theorem writeElems_head {number : List Char → Num} {v : Value} {vs : List Value}
    (h : Sound number v) :
    ∃ c r, writeElems (v :: vs) = c :: r ∧ isBlank c = false ∧ c ≠ ']' := by
  obtain ⟨c, r, hwrite, hc⟩ := write_head h
  cases vs with
  | nil => exact ⟨c, r, by rw [writeElems, hwrite], hc⟩
  | cons w vs => exact ⟨c, _, by rw [writeElems, hwrite, cons_append], hc⟩

theorem writeFields_head (f : String × Value) (fs : Fields) :
    ∃ r, writeFields (f :: fs) = '"' :: r := by
  cases fs with
  | nil => exact ⟨_, by rw [writeFields, quote, cons_append]⟩
  | cons f' fs => exact ⟨_, by rw [writeFields, quote, cons_append]⟩

theorem set_of_not_mem {o : Fields} {k : String} (h : ∀ f ∈ o, f.1 ≠ k) (v : Value) :
    set o k v = o ++ [(k, v)] := by
  induction o with
  | nil => rfl
  | cons f o ih =>
    rw [set, if_neg (h f mem_cons_self), ih fun f hf => h f (mem_cons_of_mem _ hf),
      cons_append]

section

variable (number : List Char → Num)

/-- The reader takes one element, and what is left decides how it goes on. -/
theorem elems_succ {fuel : Nat} {text r : List Char} {v : Value} {c : Char}
    (h : value number fuel text = some (v, c :: r)) (hc : isBlank c = false) :
    elems number (fuel + 1) text =
      if c = ',' then (elems number fuel r).map fun (vs, r) => (v :: vs, r)
      else if c = ']' then some ([v], r)
      else none := by
  rw [elems, h]
  simp only [bind_eq_bind, bind_some, skip_of_not_blank hc]

theorem fields_succ {fuel : Nat} {o : Fields} {k : String} {text r : List Char}
    {v : Value} {c : Char}
    (h : value number fuel text = some (v, c :: r)) (hc : isBlank c = false) :
    fields number (fuel + 1) o (quote k ++ ':' :: text) =
      if c = ',' then fields number fuel (set o k v) r
      else if c = '\x7d' then some (set o k v, r)
      else none := by
  have hquote : quote k ++ ':' :: text = '"' :: (k.toList.flatMap escape ++
      ['"'] ++ ':' :: text) := by
    rw [quote, cons_append]
  rw [fields, hquote, skip_of_not_blank (by decide)]
  simp only [after, List.isPrefixOf, bind_eq_bind, bind_some, beq_self_eq_true,
    Bool.and_self, if_true, length_singleton, drop_succ_cons, drop_zero,
    readString_quoted, skip_of_not_blank (show isBlank ':' = false by decide), h,
    skip_of_not_blank hc, chars_parts, String.ofList_toList]

/-- What the reader reads back, as deep as `fuel`. -/
structure Reads (fuel : Nat) : Prop where
  value : ∀ v, Sound number v → 2 * (write v).length + 1 ≤ fuel → ∀ r, EndsNumber r →
    value number fuel (write v ++ r) = some (v, r)
  elems : ∀ v vs, SoundElems number (v :: vs) → 2 * (writeElems (v :: vs)).length + 2 ≤ fuel → ∀ r,
    elems number fuel (writeElems (v :: vs) ++ ']' :: r) = some (v :: vs, r)
  fields : ∀ f fs, SoundFields number (f :: fs) → 2 * (writeFields (f :: fs)).length + 2 ≤ fuel →
    ∀ o, (∀ e ∈ o, ∀ f' ∈ f :: fs, e.1 ≠ f'.1) → ∀ r,
      fields number fuel o (writeFields (f :: fs) ++ '\x7d' :: r) = some (o ++ f :: fs, r)

variable {number} {fuel : Nat}

theorem Reads.value_succ (ih : Reads number fuel) (v : Value) (h : Sound number v)
    (hfuel : 2 * (write v).length + 1 ≤ fuel + 1) (r : List Char) (hr : EndsNumber r) :
    Json.value number (fuel + 1) (write v ++ r) = some (v, r) := by
  cases v with
  | null => rfl
  | bool b => cases b <;> rfl
  | num x =>
    obtain ⟨c, text, htext, hc⟩ := h.head
    have hread := h.read r hr
    have hblank : isBlank c = false := by
      obtain rfl | hc := hc
      · decide
      · exact isBlank_of_isDigit hc
    -- A sign or a digit begins no other value.
    have hne : c ≠ '"' ∧ c ≠ '[' ∧ c ≠ '\x7b' ∧ c ≠ 'n' ∧ c ≠ 't' ∧ c ≠ 'f' := by
      refine ⟨?_, ?_, ?_, ?_, ?_, ?_⟩ <;> · rintro rfl; obtain hc | hc := hc <;> cases hc
    rw [htext, cons_append] at hread
    rw [write, htext, cons_append, Json.value, skip_of_not_blank hblank]
    simp only [if_neg hne.1, if_neg hne.2.1, if_neg hne.2.2.1, if_neg hne.2.2.2.1,
      if_neg hne.2.2.2.2.1,
      if_neg hne.2.2.2.2.2, hread, map_some]
    rw [← htext, h.number]
  | str s =>
    rw [write, quote, cons_append, Json.value, skip_of_not_blank (by decide)]
    simp only [if_true, readString_quoted, map_some, chars_parts, String.ofList_toList]
  | arr vs =>
    rw [write, cons_append, Json.value, skip_of_not_blank (by decide)]
    simp only [write, length_cons, length_append, length_nil] at hfuel
    cases vs with
    | nil => rfl
    | cons v vs =>
      obtain ⟨c, rest, hhead, hblank, hc⟩ := @writeElems_head _ _ vs h.1
      have hread := ih.elems v vs h (by omega) r
      rw [hhead, cons_append] at hread
      simp only [hhead, cons_append, append_assoc, skip_of_not_blank hblank, if_neg hc]
      simp [hread]
  | obj fs =>
    rw [write, cons_append, Json.value, skip_of_not_blank (by decide)]
    simp only [write, length_cons, length_append, length_nil] at hfuel
    cases fs with
    | nil => rfl
    | cons f fs =>
      obtain ⟨rest, hhead⟩ := writeFields_head f fs
      have hread := ih.fields f fs h (by omega) [] (by simp) r
      rw [hhead, cons_append] at hread
      simp only [hhead, cons_append, append_assoc]
      rw [skip_of_not_blank (by decide)]
      simp [hread]

theorem Reads.elems_succ (ih : Reads number fuel) (v : Value) (vs : List Value)
    (h : SoundElems number (v :: vs)) (hfuel : 2 * (writeElems (v :: vs)).length + 2 ≤ fuel + 1)
    (r : List Char) :
    Json.elems number (fuel + 1) (writeElems (v :: vs) ++ ']' :: r) = some (v :: vs, r) := by
  have hcomma : ∀ r, EndsNumber (',' :: r) := fun r => endsNumber_cons (by decide)
  have hbracket : ∀ r, EndsNumber (']' :: r) := fun r => endsNumber_cons (by decide)
  cases vs with
  | nil =>
    rw [writeElems] at hfuel ⊢
    rw [Json.elems_succ number (ih.value v h.1 (by omega) _ (hbracket _)) (by decide)]
    rfl
  | cons w vs =>
    rw [writeElems, length_append, length_cons] at hfuel
    rw [writeElems, append_assoc, cons_append,
      Json.elems_succ number (ih.value v h.1 (by omega) _ (hcomma _)) (by decide), if_pos rfl,
      ih.elems w vs h.2 (by omega) r]
    rfl

theorem Reads.fields_succ (ih : Reads number fuel) (f : String × Value) (fs : Fields)
    (h : SoundFields number (f :: fs)) (hfuel : 2 * (writeFields (f :: fs)).length + 2 ≤ fuel + 1)
    (o : Fields) (ho : ∀ e ∈ o, ∀ f' ∈ f :: fs, e.1 ≠ f'.1) (r : List Char) :
    Json.fields number (fuel + 1) o
      (writeFields (f :: fs) ++ '\x7d' :: r) = some (o ++ f :: fs, r) := by
  obtain ⟨k, v⟩ := f
  have hcomma : ∀ r, EndsNumber (',' :: r) := fun r => endsNumber_cons (by decide)
  have hbrace : ∀ r, EndsNumber ('\x7d' :: r) := fun r => endsNumber_cons (by decide)
  have hset := set_of_not_mem (fun e he => ho e he (k, v) mem_cons_self) v
  cases fs with
  | nil =>
    rw [writeFields, length_append, length_cons] at hfuel
    rw [writeFields, append_assoc, cons_append,
      Json.fields_succ number (ih.value v h.1 (by omega) _ (hbrace _)) (by decide), hset]
    rfl
  | cons f fs =>
    rw [writeFields, length_append, length_cons, length_append, length_cons] at hfuel
    rw [writeFields, append_assoc, cons_append, append_assoc, cons_append,
      Json.fields_succ number (ih.value v h.1 (by omega) _ (hcomma _)) (by decide),
        if_pos rfl, hset,
      ih.fields f fs h.2.2 (by omega) _ ?_ r, append_assoc, singleton_append]
    intro e he f' hf'
    obtain he | he := mem_append.mp he
    · exact ho e he f' (mem_cons_of_mem _ hf')
    · obtain rfl := mem_singleton.mp he
      exact fun hk => h.2.1 f' hf' hk.symm

theorem reads (fuel : Nat) : Reads number fuel := by
  induction fuel with
  | zero =>
    refine ⟨fun _ _ h => ?_, fun _ _ _ h => ?_, fun _ _ _ h => ?_⟩
    all_goals exact absurd h (Nat.not_succ_le_zero _)
  | succ fuel ih => exact ⟨ih.value_succ, ih.elems_succ, ih.fields_succ⟩

/-- What was written is read back. -/
theorem parse_stringify {v : Value} (h : Sound number v) : parse number (stringify v) = some v := by
  have hread := (reads _).value v h (le_refl _) [] fun c hc => nomatch hc
  rw [append_nil] at hread
  rw [parse, stringify, String.toList_ofList, hread]
  rfl

end

theorem stringify_ne_empty {number : List Char → Num} {v : Value} (h : Sound number v) :
    stringify v ≠ "" := by
  obtain ⟨c, r, hwrite, -⟩ := write_head h
  rw [stringify, hwrite]
  exact fun hempty => cons_ne_nil c r (String.ofList_eq_empty_iff.mp hempty)

end Js.Json
