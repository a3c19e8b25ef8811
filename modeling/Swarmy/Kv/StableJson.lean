import Mathlib.Data.String.Basic
import Swarmy.Js.Json
import Swarmy.Kv.Codec

/-!
# swarm-kv: documents as JSON

`stableJson` of `packages/core/src/swarm-kv.ts`: `JSON.stringify` with a replacer that puts the
keys of every object in order.  An object keeps the keys that are array indices in front, by their
number, so those come before the rest, which `sort` orders by code units.
-/

namespace Swarmy.Kv

open List hiding set
open Js (Fields Value)
open Js.Json

/-! ## Keys in order -/

/-- The number of a key that is an array index. -/
def arrayIndex (k : String) : Option Nat :=
  let n := Nat.ofDigitChars 10 k.toList 0
  if toString n = k ∧ n < 2 ^ 32 - 1 then some n else none

/-- The order of the keys of an object that were put in by their code units. -/
def keyLe (a b : String) : Bool :=
  match arrayIndex a, arrayIndex b with
  | some m, some n => m ≤ n
  | some _, none => true
  | none, some _ => false
  | none, none => a.toList.flatMap charCodes ≤ b.toList.flatMap charCodes

/-- A number that JSON has a text for. -/
def isFinite : Js.Num → Bool
  | .int _ => true
  | .other text => text ∉ ["Infinity", "-Infinity", "NaN"]

mutual

/-- A value with the keys of its objects in order, and `null` for a number without a text. -/
@[grind =] def canon : Value → Value
  | .num x => if isFinite x then .num x else .null
  | .arr elems => .arr (canonElems elems)
  | .obj fields => .obj ((canonFields fields).insertionSort (keyLe ·.1 ·.1))
  | v => v

def canonElems : List Value → List Value
  | [] => []
  | v :: vs => canon v :: canonElems vs

def canonFields : Fields → Fields
  | [] => []
  | (k, v) :: fs => (k, canon v) :: canonFields fs

end

theorem canonFields_eq_map (fs : Fields) : canonFields fs = fs.map fun f => (f.1, canon f.2) := by
  induction fs with
  | nil => rfl
  | cons f fs ih => rw [canonFields, ih, map_cons]

/-- An object keeps its properties, each with its value in order. -/
theorem canon_obj (fields : Fields) : ∃ fs, canon (.obj fields) = .obj fs ∧
    fs.Perm (fields.map fun f => (f.1, canon f.2)) := by
  refine ⟨(canonFields fields).insertionSort (keyLe ·.1 ·.1), by rw [canon], ?_⟩
  rw [canonFields_eq_map]
  exact perm_insertionSort _ _

/-! ## The values -/

/-- What number a text of digits is: a finite one is read back from the text it is printed as. -/
structure NumberReader where
  number : List Char → Js.Num
  sound : ∀ text x r, readNumber text = some (x, r) → isFinite (number x) = true →
    SoundNumber number (number x)

mutual

/-- No object has a key twice, and its finite numbers are read back. -/
def Valid (R : NumberReader) : Value → Prop
  | .num x => isFinite x = true → SoundNumber R.number x
  | .arr elems => ValidElems R elems
  | .obj fields => (fields.map Prod.fst).Nodup ∧ ValidFields R fields
  | _ => True

def ValidElems (R : NumberReader) : List Value → Prop
  | [] => True
  | v :: vs => Valid R v ∧ ValidElems R vs

def ValidFields (R : NumberReader) : Fields → Prop
  | [] => True
  | f :: fs => Valid R f.2 ∧ ValidFields R fs

end

/-- What `JSON.parse` returns, and what a document may be. -/
def JsonValue (R : NumberReader) : Type := { v : Value // Valid R v }

/-! ## What is written is read -/

variable {R : NumberReader} {number : List Char → Js.Num}

theorem soundFields_iff {fs : Fields} :
    SoundFields number fs ↔ (∀ f ∈ fs, Sound number f.2) ∧ (fs.map Prod.fst).Nodup := by
  induction fs with
  | nil => simp [SoundFields]
  | cons f fs ih =>
    obtain ⟨k, v⟩ := f
    rw [SoundFields, ih, forall_mem_cons, map_cons, nodup_cons]
    have hmem : k ∉ fs.map Prod.fst ↔ ∀ f ∈ fs, f.1 ≠ k :=
      ⟨fun h f hf hfk => h (mem_map.mpr ⟨f, hf, hfk⟩), fun h hk => by
        obtain ⟨f, hf, hfk⟩ := mem_map.mp hk
        exact h f hf hfk⟩
    rw [hmem]
    tauto

mutual

/-- The ordered value is one that the reader reads back. -/
theorem sound_canon : ∀ {v : Value}, Valid R v → Sound R.number (canon v)
  | .null, _ => by rw [canon, Sound] <;> simp
  | .bool _, _ => by rw [canon, Sound] <;> simp
  | .str _, _ => by rw [canon, Sound] <;> simp
  | .num x, h => by
    rw [canon]
    split
    · rename_i hx
      exact h hx
    · rw [Sound] <;> simp
  | .arr elems, h => by
    rw [canon]
    exact soundElems_canon h
  | .obj fields, h => by
    obtain ⟨fs, hcanon, hperm⟩ := canon_obj fields
    rw [hcanon]
    refine soundFields_iff.mpr ⟨fun f hf => ?_, ?_⟩
    · obtain ⟨f', hf', rfl⟩ := mem_map.mp (hperm.mem_iff.mp hf)
      exact soundFields_canon h.2 f' hf'
    · rw [(hperm.map _).nodup_iff, map_map]
      exact h.1

theorem soundElems_canon : ∀ {vs : List Value}, ValidElems R vs →
    SoundElems R.number (canonElems vs)
  | [], _ => trivial
  | _ :: _, h => ⟨sound_canon h.1, soundElems_canon h.2⟩

theorem soundFields_canon : ∀ {fs : Fields}, ValidFields R fs →
    ∀ f ∈ fs, Sound R.number (canon f.2)
  | [], _ => fun _ hf => absurd hf not_mem_nil
  | _ :: _, h => forall_mem_cons.mpr ⟨sound_canon h.1, soundFields_canon h.2⟩

end

/-! ## What is read is a value -/

theorem map_set (o : Fields) (k : String) (v : Value) :
    (set o k v).map Prod.fst = if k ∈ o.map Prod.fst then o.map Prod.fst
      else o.map Prod.fst ++ [k] := by
  induction o with
  | nil => rfl
  | cons f o ih =>
    rw [Js.Json.set]
    split
    · simp [*]
    · rename_i hne
      rw [map_cons, ih]
      by_cases hk : k ∈ o.map Prod.fst <;> simp [hk, Ne.symm hne]

/-- A property that is set is a value, and the keys stay different. -/
theorem valid_set {o : Fields} (ho : Valid R (.obj o)) (k : String) {v : Value} (hv : Valid R v) :
    Valid R (.obj (set o k v)) := by
  refine ⟨?_, ?_⟩
  · rw [map_set]
    split
    · exact ho.1
    · rename_i hk
      exact ho.1.append (nodup_singleton k) (disjoint_singleton.mpr hk)
  · have hall := ho.2
    clear ho
    induction o with
    | nil => exact ⟨hv, trivial⟩
    | cons f o ih =>
      rw [Js.Json.set]
      split
      · exact ⟨hv, hall.2⟩
      · exact ⟨hall.1, ih hall.2⟩

/-- What the reader returns, as deep as `fuel`. -/
structure ReadsValid (R : NumberReader) (fuel : Nat) : Prop where
  value : ∀ text v r, Js.Json.value R.number fuel text = some (v, r) → Valid R v
  elems : ∀ text vs r, Js.Json.elems R.number fuel text = some (vs, r) → ValidElems R vs
  fields : ∀ o, Valid R (.obj o) → ∀ text fs r,
    Js.Json.fields R.number fuel o text = some (fs, r) → Valid R (.obj fs)

theorem ReadsValid.value_succ {fuel : Nat} (ih : ReadsValid R fuel) (text : List Char) (v : Value)
    (r : List Char) (h : Js.Json.value R.number (fuel + 1) text = some (v, r)) : Valid R v := by
  rw [Js.Json.value] at h
  split at h
  · cases h
  rename_i c rest hskip
  split_ifs at h
  · obtain ⟨⟨s, r'⟩, -, he⟩ := Option.map_eq_some_iff.mp h
    obtain ⟨rfl, -⟩ := Prod.mk.inj he
    trivial
  · split at h
    · cases h
    split_ifs at h
    · obtain ⟨rfl, -⟩ := Prod.mk.inj (Option.some.inj h)
      trivial
    · obtain ⟨⟨vs, r'⟩, hvs, he⟩ := Option.map_eq_some_iff.mp h
      obtain ⟨rfl, -⟩ := Prod.mk.inj he
      exact ih.elems _ vs r' hvs
  · split at h
    · cases h
    split_ifs at h
    · obtain ⟨rfl, -⟩ := Prod.mk.inj (Option.some.inj h)
      exact ⟨nodup_nil, trivial⟩
    · obtain ⟨⟨fs, r'⟩, hfs, he⟩ := Option.map_eq_some_iff.mp h
      obtain ⟨rfl, -⟩ := Prod.mk.inj he
      exact ih.fields [] ⟨nodup_nil, trivial⟩ _ fs r' hfs
  · obtain ⟨r', -, he⟩ := Option.map_eq_some_iff.mp h
    obtain ⟨rfl, -⟩ := Prod.mk.inj he
    trivial
  · obtain ⟨r', -, he⟩ := Option.map_eq_some_iff.mp h
    obtain ⟨rfl, -⟩ := Prod.mk.inj he
    trivial
  · obtain ⟨r', -, he⟩ := Option.map_eq_some_iff.mp h
    obtain ⟨rfl, -⟩ := Prod.mk.inj he
    trivial
  · obtain ⟨⟨x, r'⟩, hx, he⟩ := Option.map_eq_some_iff.mp h
    obtain ⟨rfl, -⟩ := Prod.mk.inj he
    exact R.sound _ x r' hx

theorem ReadsValid.elems_succ {fuel : Nat} (ih : ReadsValid R fuel) (text : List Char)
    (vs : List Value) (r : List Char)
    (h : Js.Json.elems R.number (fuel + 1) text = some (vs, r)) : ValidElems R vs := by
  obtain ⟨⟨v, r₁⟩, hv, h⟩ := Option.bind_eq_some_iff.mp (by rw [Js.Json.elems] at h; exact h)
  have hvalid := ih.value text v r₁ hv
  dsimp only at h
  split at h
  · cases h
  split_ifs at h
  · obtain ⟨⟨ws, r₂⟩, hws, he⟩ := Option.map_eq_some_iff.mp h
    obtain ⟨rfl, -⟩ := Prod.mk.inj he
    exact ⟨hvalid, ih.elems _ ws r₂ hws⟩
  · obtain ⟨rfl, -⟩ := Prod.mk.inj (Option.some.inj h)
    exact ⟨hvalid, trivial⟩

theorem ReadsValid.fields_succ {fuel : Nat} (ih : ReadsValid R fuel) (o : Fields)
    (ho : Valid R (.obj o)) (text : List Char) (fs : Fields) (r : List Char)
    (h : Js.Json.fields R.number (fuel + 1) o text = some (fs, r)) : Valid R (.obj fs) := by
  rw [Js.Json.fields] at h
  obtain ⟨t₁, -, h⟩ := Option.bind_eq_some_iff.mp h
  obtain ⟨⟨k, r₁⟩, -, h⟩ := Option.bind_eq_some_iff.mp h
  obtain ⟨t₂, -, h⟩ := Option.bind_eq_some_iff.mp h
  obtain ⟨⟨v, r₂⟩, hv, h⟩ := Option.bind_eq_some_iff.mp h
  have hset := valid_set ho (String.ofList (chars k)) (ih.value _ v r₂ hv)
  dsimp only at h
  split at h
  · cases h
  split_ifs at h
  · exact ih.fields _ hset _ fs r h
  · obtain ⟨rfl, -⟩ := Prod.mk.inj (Option.some.inj h)
    exact hset

theorem readsValid (fuel : Nat) : ReadsValid R fuel := by
  induction fuel with
  | zero =>
    refine ⟨fun _ _ _ h => ?_, fun _ _ _ h => ?_, fun _ _ _ _ _ h => ?_⟩
    · rw [Js.Json.value] at h
      cases h
    · rw [Js.Json.elems] at h
      cases h
    · rw [Js.Json.fields] at h
      cases h
  | succ fuel ih => exact ⟨ih.value_succ, ih.elems_succ, ih.fields_succ⟩

theorem valid_of_parse {s : String} {v : Value} (h : parse R.number s = some v) : Valid R v := by
  rw [parse] at h
  split at h
  · rename_i v' r hv
    split_ifs at h
    obtain rfl := Option.some.inj h
    exact (readsValid _).value _ v' r hv
  · cases h

theorem parse_canon {v : Value} (h : Valid R v) :
    parse R.number (stringify (canon v)) = some (canon v) := parse_stringify (sound_canon h)

/-- The values of documents are those of JSON. -/
instance : KvValue (JsonValue R) where
  keys v :=
    match v.1 with
    | .obj fields => some (fields.map Prod.fst)
    | _ => none
  stableJson v := stringify (canon v.1)
  parse s := ((parse R.number s).pmap Subtype.mk fun _ h => valid_of_parse h).elim
    (.error "Unexpected token in JSON") .ok
  canon v := ⟨canon v.1, valid_of_parse (parse_canon v.2)⟩
  parse_stableJson v := by
    simp only [parse_canon v.2, Option.pmap_some]
    rfl

/-! ## A reader of whole numbers -/

/-- A text of digits as its number, and no number for any other text. -/
def wholeNumber (text : List Char) : Js.Num :=
  if text.all Char.isDigit then .int (Nat.ofDigitChars 10 text 0) else .other "NaN"

theorem head_toDigits {n : Nat} (h : n ≠ 0) : (Nat.toDigits 10 n).head? ≠ some '0' := by
  induction n using Nat.strong_induction_on with
  | h n ih =>
    rw [Nat.toDigits_eq_if (by decide)]
    split
    · rename_i hn
      interval_cases n <;> simp_all [Nat.digitChar]
    · rename_i hn
      rw [head?_append_of_ne_nil _ Nat.toDigits_ne_nil]
      exact ih (n / 10) (by omega) (by omega)

theorem readNumber_digits {ds r : List Char} (hds : ∀ c ∈ ds, c.isDigit = true) (hne : ds ≠ [])
    (hzero : ds.head? = some '0' → ds.length = 1) (hr : EndsNumber r) :
    readNumber (ds ++ r) = some (ds, r) := by
  have hspan : digits (ds ++ r) = some (ds, r) := by
    have hr' : ∀ c ∈ r.head?, c.isDigit = false := fun c hc => (hr c hc).1
    have h : (ds ++ r).span Char.isDigit = (ds, r) := by
      rw [span_eq_takeWhile_dropWhile, takeWhile_append_of_pos hds, dropWhile_append_of_pos hds]
      cases r with
      | nil => simp
      | cons c r => simp [hr' c rfl]
    rw [digits, h]
    cases ds with
    | nil => exact absurd rfl hne
    | cons d ds => rfl
  have hz : ¬(ds.length > 1 ∧ ds.head? = some '0') := fun h => by have := hzero h.2; omega
  obtain ⟨d, ds', rfl⟩ := exists_cons_of_ne_nil hne
  have hd : d ≠ '-' := by
    rintro rfl
    exact absurd (hds _ mem_cons_self) (by decide)
  rw [readNumber]
  case x =>
    intro r' heq
    exact hd (cons.inj heq).1
  simp only [hspan, Option.bind_eq_bind, Option.bind_some, if_neg hz]
  cases r with
  | nil => simp
  | cons c r =>
    obtain ⟨-, hdot, he, hE⟩ := hr c rfl
    simp [he, hE, hdot]

/-- A whole number is read back from its digits. -/
theorem soundNumber_nat (n : Nat) : SoundNumber wholeNumber (.int n) := by
  have htext : numberText (.int n) = Nat.toDigits 10 n := by
    rw [numberText]
    exact String.toList_ofList
  have hds : ∀ c ∈ Nat.toDigits 10 n, c.isDigit = true := fun c hc =>
    Nat.isDigit_of_mem_toDigits (by decide) (by decide) hc
  obtain ⟨d, ds, hcons⟩ := exists_cons_of_ne_nil (Nat.toDigits_ne_nil (n := n) (b := 10))
  refine ⟨⟨d, ds, htext.trans hcons, .inr (hds d (hcons ▸ mem_cons_self))⟩, fun r hr => ?_, ?_⟩
  · rw [htext]
    refine readNumber_digits hds Nat.toDigits_ne_nil (fun hzero => ?_) hr
    obtain rfl : n = 0 := by
      by_contra hn
      exact head_toDigits hn hzero
    rfl
  · rw [htext, wholeNumber, if_pos (all_eq_true.mpr hds), Nat.ofDigitChars_ten_toDigits]

/-- A reader that knows the whole numbers only. -/
def wholeNumbers : NumberReader where
  number := wholeNumber
  sound text x r _ hx := by
    rw [wholeNumber] at hx ⊢
    split
    · exact soundNumber_nat _
    · rename_i h
      rw [if_neg h] at hx
      exact absurd hx (by decide)

/-- A whole number as a document. -/
def whole (n : Nat) : JsonValue wholeNumbers := ⟨.num (.int n), fun _ => soundNumber_nat n⟩

end Swarmy.Kv
