import Mathlib.Order.Interval.Finset.Nat
import Mathlib.Data.Int.Interval
import Mathlib.Tactic.Ring
import Swarmy.Codec.Base64
import Swarmy.Codec.Utf8
import Swarmy.Machine.Run

/-!
# Subjects of Dex users

`dexSubject` of `packages/mesh/src/people.ts`: the subject and the connector out of a user id of
NetBird's embedded Dex, which is the base64 of a protobuf message of two texts.  A length is read
into 32 bits with a sign, so that an offset can go back.
-/

namespace Swarmy.Dex

open Nat

/-! ## The reader -/

/-- A text decoder that throws, and drops a byte order mark. -/
def textDecode (bs : List UInt8) : Option String :=
  (Utf8.decodeFatal bs).map fun cs =>
    String.ofList (if cs.head? = some '\uFEFF' then cs.tail else cs)

/-- A length of at most five bytes: what it is with the 32 bits so far, and what follows. -/
def readLen : Nat → BitVec 32 → List UInt8 → Option (BitVec 32 × List UInt8)
  | _, _, [] => none
  | shift, len, b :: rest =>
    let len := len ||| BitVec.ofNat 32 (b.toNat % 128) <<< shift
    if b.toNat < 128 then some (len, rest)
    else if shift + 7 > 28 then none
    else readLen (shift + 7) len rest

/-- `buf.subarray(i, j)` from an index of the buffer; an end below zero counts from the end. -/
def subarray (buf : List UInt8) (i : Nat) (j : Int) : List UInt8 :=
  let stop := if j < 0 then max (buf.length + j) 0 else min j buf.length
  (buf.drop i).take (stop - i).toNat

/-- A field: its number, its text, and the offset after it. -/
structure Field where
  num : Nat
  text : String
  next : Int

/-- The field at an offset; outside the buffer there is no tag. -/
def readField (buf : List UInt8) (i : Int) : Option Field :=
  if i < 0 then none
  else
    match buf.drop i.toNat with
    | [] => none
    | tag :: rest =>
      let num := tag.toNat / 8
      if tag.toNat % 8 ≠ 2 ∨ num < 1 ∨ num > 2 then none
      else
        match readLen 0 0 rest with
        | none => none
        | some (len, rest) =>
          let j := buf.length - rest.length
          if (j : Int) + len.toInt > buf.length then none
          else (textDecode (subarray buf j (j + len.toInt))).map fun text =>
            ⟨num, text, j + len.toInt⟩

structure Subject where
  sub : String
  connector : String

/-- The texts of the two fields, as far as they were read. -/
structure Fields where
  first : Option String
  second : Option String

def Fields.set (f : Fields) (x : Field) : Fields :=
  if x.num = 1 then { f with first := some x.text } else { f with second := some x.text }

/-- An empty text is no text. -/
def Fields.subject (f : Fields) : Option Subject :=
  match f.first, f.second with
  | some sub, some connector => if sub = "" ∨ connector = "" then none else some ⟨sub, connector⟩
  | _, _ => none

/-- So many rounds of the loop; `none` when it has not ended. -/
def readFields (buf : List UInt8) : Nat → Int → Fields → Option (Option Subject)
  | 0, _, _ => none
  | fuel + 1, i, f =>
    if i < buf.length then
      match readField buf i with
      | none => some none
      | some x => readFields buf fuel x.next (f.set x)
    else some f.subject

/-- The bytes of an id. -/
def bufOf (nbUserId : String) : Option (List UInt8) :=
  Base64.atob (nbUserId.toList.map Base64.fromUrl)

def dexSubject (fuel : Nat) (nbUserId : String) : Option (Option Subject) :=
  match bufOf nbUserId with
  | none => some none
  | some buf => readFields buf fuel 0 ⟨none, none⟩

/-! ## The encoding -/

/-- Seven bits a byte, the low ones first. -/
def varint (n : Nat) : List UInt8 :=
  if n < 128 then [UInt8.ofNat n] else UInt8.ofNat (n % 128 + 128) :: varint (n / 128)
termination_by n
decreasing_by omega

/-- A field of a text. -/
def field (num : Nat) (text : String) : List UInt8 :=
  UInt8.ofNat (num * 8 + 2) :: (varint (Utf8.encode text.toList).length ++ Utf8.encode text.toList)

/-- The message, with its fields in either order. -/
def message (subFirst : Bool) (s : Subject) : List UInt8 :=
  if subFirst then field 1 s.sub ++ field 2 s.connector else field 2 s.connector ++ field 1 s.sub

/-- A user id, padded or not. -/
def userId (subFirst padded : Bool) (s : Subject) : String :=
  String.ofList (Base64.encodeUrl padded (message subFirst s))

/-! ## The loop ends -/

/-- The offset of the next field. -/
def nextOffset (buf : List UInt8) (i : Int) : Option Int :=
  if i < buf.length then (readField buf i).map (·.next) else none

variable {buf : List UInt8} {i : Int} {n : Nat}

theorem readFields_isSome {fuel : Nat} {f : Fields} :
    (readFields buf fuel i f).isSome = true ↔ Walk.place (nextOffset buf) fuel i = none := by
  induction fuel generalizing i f with
  | zero => simp [readFields, Walk.place]
  | succ fuel ih =>
    rw [readFields, Walk.place, nextOffset]
    split
    · cases hfield : readField buf i with
      | none => simp
      | some x => simpa using ih
    · simp

/-- What a field that is read is made of. -/
theorem readField_eq_some {x : Field} (h : readField buf i = some x) :
    ∃ tag rest len rest' text, 0 ≤ i ∧ buf.drop i.toNat = tag :: rest ∧
    readLen 0 0 rest = some (len, rest') ∧
      ((buf.length - rest'.length : Nat) : Int) + len.toInt ≤ buf.length ∧
      textDecode (subarray buf (buf.length - rest'.length)
        ((buf.length - rest'.length : Nat) + len.toInt)) = some text ∧
      x = ⟨tag.toNat / 8, text, (buf.length - rest'.length : Nat) + len.toInt⟩ := by
  simp only [readField] at h
  split at h
  · cases h
  rename_i hi
  split at h
  · cases h
  rename_i tag rest hdrop
  by_cases htag : tag.toNat % 8 ≠ 2 ∨ tag.toNat / 8 < 1 ∨ tag.toNat / 8 > 2
  · rw [if_pos htag] at h
    cases h
  rw [if_neg htag] at h
  split at h
  · cases h
  rename_i len rest' hlen
  split at h
  · cases h
  rename_i hbound
  obtain ⟨text, htext, rfl⟩ := Option.map_eq_some_iff.mp h
  exact ⟨tag, rest, len, rest', text, not_lt.mp hi, hdrop, hlen, not_lt.mp hbound, htext, rfl⟩

/-- An offset is within the buffer, or as far before it as a length can reach. -/
def offsets (buf : List UInt8) : Finset Int :=
  (Finset.range (2 ^ 31 + buf.length + 1)).image fun n : Nat => n - 2 ^ 31

theorem nextOffset_mem (i j : Int) (h : nextOffset buf i = some j) : j ∈ offsets buf := by
  rw [nextOffset] at h
  split at h
  · obtain ⟨x, hx, hj⟩ := Option.map_eq_some_iff.mp h
    obtain ⟨tag, rest, len, rest', text, -, -, -, hbound, -, rfl⟩ := readField_eq_some hx
    have hlow := BitVec.le_toInt len
    simp only at hbound hj
    exact Finset.mem_image.mpr ⟨(j + 2 ^ 31).toNat, Finset.mem_range.mpr (by omega), by omega⟩
  · cases h

/-- The reader comes back to the offset of a field that it has read. -/
def LoopsBack (nbUserId : String) : Prop :=
  ∃ buf, bufOf nbUserId = some buf ∧ ∃ n i, Walk.place (nextOffset buf) n 0 = some i ∧
    Walk.Returns (nextOffset buf) i

theorem dexSubject_returns_iff (nbUserId : String) :
    (∃ fuel, (dexSubject fuel nbUserId).isSome = true) ↔ ¬ LoopsBack nbUserId := by
  rw [LoopsBack]
  cases hbuf : bufOf nbUserId with
  | none =>
    refine iff_of_true ⟨0, by rw [dexSubject, hbuf]; rfl⟩ ?_
    rintro ⟨buf, hsome, -⟩
    cases hsome
  | some buf =>
    have hrun : ∀ fuel, (dexSubject fuel nbUserId).isSome = true ↔
        Walk.place (nextOffset buf) fuel 0 = none :=
      fun fuel => by
        rw [dexSubject, hbuf]
        exact readFields_isSome
    rw [exists_congr hrun, Walk.ends_iff nextOffset_mem]
    constructor
    · rintro h ⟨buf', hsome, n, i, hi, hreturns⟩
      obtain rfl := Option.some.inj hsome
      exact h n i hi hreturns
    · exact fun h n i hi hreturns => h ⟨buf, rfl, n, i, hi, hreturns⟩

/-! ## An encoded subject is read -/

theorem varint_lt (h : n < 128) : varint n = [UInt8.ofNat n] := by
  rw [varint, if_pos h]

theorem varint_ge (h : ¬ n < 128) : varint n = UInt8.ofNat (n % 128 + 128) :: varint (n / 128) := by
  rw [varint, if_neg h]

/-- More bits on top of those below a place. -/
theorem or_shift {acc k : Nat} (hacc : acc < 2 ^ k) (hn : acc + n * 2 ^ k < 2 ^ 32) :
    BitVec.ofNat 32 acc ||| BitVec.ofNat 32 n <<< k = BitVec.ofNat 32 (acc + n * 2 ^ k) := by
  have hpos : 0 < 2 ^ k := Nat.two_pow_pos k
  have hn' : n < 2 ^ 32 := Nat.lt_of_le_of_lt (Nat.le_mul_of_pos_right n hpos) (by omega)
  apply BitVec.eq_of_toNat_eq
  rw [BitVec.toNat_or, BitVec.toNat_shiftLeft, BitVec.toNat_ofNat, BitVec.toNat_ofNat,
    BitVec.toNat_ofNat,
    mod_eq_of_lt (show acc < 2 ^ 32 by omega), mod_eq_of_lt hn', Nat.shiftLeft_eq,
    mod_eq_of_lt (show n * 2 ^ k < 2 ^ 32 by omega), mod_eq_of_lt hn, Nat.or_comm, mul_comm,
    ← Nat.two_pow_add_eq_or_of_lt hacc, add_comm]

/-- A length below 2^31 is read back. -/
theorem readLen_varint {k acc : Nat} (hk : k ≤ 4) (hacc : acc < 2 ^ (7 * k))
    (hn : acc + n * 2 ^ (7 * k) < 2 ^ 31)
    (rest : List UInt8) : readLen (7 * k) (BitVec.ofNat 32 acc) (varint n ++ rest) =
      some (BitVec.ofNat 32 (acc + n * 2 ^ (7 * k)), rest) := by
  induction n using Nat.strongRecOn generalizing k acc with
  | ind n ih =>
    by_cases hlt : n < 128
    · have hbyte : (UInt8.ofNat n).toNat = n := Utf8.toNat_ofNat (by omega)
      rw [varint_lt hlt, List.singleton_append, readLen, hbyte, if_pos hlt, mod_eq_of_lt hlt,
        or_shift hacc (by omega)]
    · have hbyte : (UInt8.ofNat (n % 128 + 128)).toNat = n % 128 + 128 :=
        Utf8.toNat_ofNat (by omega)
      have hlow : (n % 128 + 128) % 128 = n % 128 := by omega
      have hsplit : n = n / 128 * 128 + n % 128 := by omega
      have hpow : 2 ^ (7 * (k + 1)) = 128 * 2 ^ (7 * k) := by rw [mul_add, Nat.pow_add, mul_comm]
      have hsum : acc + n % 128 * 2 ^ (7 * k) + n / 128 * 2 ^ (7 * (k + 1)) =
          acc + n * 2 ^ (7 * k) := by
        conv_rhs => rw [hsplit]
        ring
      have hfits : acc + n % 128 * 2 ^ (7 * k) < 2 ^ (7 * (k + 1)) := by
        have hdigit : n % 128 * 2 ^ (7 * k) ≤ 127 * 2 ^ (7 * k) := mul_le_mul_right _ (by omega)
        omega
      -- A fifth byte is the last, for its place is 2^28.
      have hk' : k + 1 ≤ 4 := by
        by_contra hfour
        obtain rfl : k = 4 := by omega
        omega
      rw [varint_ge hlt, List.cons_append, readLen, hbyte, if_neg (by omega),
        if_neg (by omega), hlow,
        or_shift hacc (by omega)]
      have hih := ih (n / 128) (by omega) hk' hfits (by omega)
      rw [hsum] at hih
      exact hih

/-- What a decoder leaves of a text. -/
def unmarked (text : String) : String :=
  String.ofList (if text.toList.head? = some '\uFEFF' then text.toList.tail else text.toList)

theorem textDecode_encode (text : String) :
    textDecode (Utf8.encode text.toList) = some (unmarked text) := by
  rw [textDecode, Utf8.decodeFatal_encode, Option.map_some]
  rfl

theorem length_field (num : Nat) (text : String) : (field num text).length =
    1 + (varint (Utf8.encode text.toList).length).length + (Utf8.encode text.toList).length := by
  rw [field, List.length_cons, List.length_append]
  omega

theorem subarray_append (pre text post : List UInt8) :
    subarray (pre ++ (text ++ post)) pre.length (pre.length + text.length : Nat) = text := by
  rw [subarray, if_neg (by omega), List.length_append, List.length_append, List.drop_left,
    min_eq_left (by omega)]
  have hlen : (((pre.length + text.length : Nat) : Int) - (pre.length : Int)).toNat =
      text.length := by omega
  rw [hlen, List.take_left]

/-- The field at its offset. -/
theorem readField_field {num : Nat} {text : String} (hnum : num = 1 ∨ num = 2)
    (hlen : (Utf8.encode text.toList).length < 2 ^ 31) (pre post : List UInt8) :
    readField (pre ++ (field num text ++ post)) pre.length =
      some ⟨num, unmarked text, (pre.length + (field num text).length : Nat)⟩ := by
  have htag : (UInt8.ofNat (num * 8 + 2)).toNat = num * 8 + 2 := Utf8.toNat_ofNat (by omega)
  have hread := readLen_varint (k := 0) (n := (Utf8.encode text.toList).length) (zero_le 4)
      (Nat.one_pos)
    (by omega) (Utf8.encode text.toList ++ post)
  simp only [mul_zero, Nat.pow_zero, mul_one, zero_add] at hread
  change readLen 0 0 _ = _ at hread
  have hint : (BitVec.ofNat 32 (Utf8.encode text.toList).length).toInt =
      (Utf8.encode text.toList).length := by
    rw [BitVec.toInt_eq_toNat_of_lt (by rw [BitVec.toNat_ofNat]; omega), BitVec.toNat_ofNat,
      mod_eq_of_lt (by omega)]
  generalize hhead : pre ++ UInt8.ofNat (num * 8 + 2) :: varint (Utf8.encode text.toList).length =
    head
  have hbuf : pre ++ (field num text ++ post) = head ++ (Utf8.encode text.toList ++ post) := by
    rw [← hhead, field]
    simp only [List.cons_append, List.append_assoc]
  have hdrop : (pre ++ (field num text ++ post)).drop pre.length = UInt8.ofNat (num * 8 + 2) ::
      (varint (Utf8.encode text.toList).length ++ (Utf8.encode text.toList ++ post)) := by
    rw [List.drop_left, field, List.cons_append, List.append_assoc]
  have hstart : (head ++ (Utf8.encode text.toList ++ post)).length -
      (Utf8.encode text.toList ++ post).length =
      head.length := by
    rw [List.length_append]
    omega
  have hnext : head.length + (Utf8.encode text.toList).length =
      pre.length + (field num text).length := by
    rw [← hhead, length_field, List.length_append, List.length_cons]
    omega
  have hbound : ¬ ((head.length : Int) + (Utf8.encode text.toList).length >
      (head ++ (Utf8.encode text.toList ++ post)).length) := by
    rw [List.length_append, List.length_append]
    omega
  have hdiv : (num * 8 + 2) / 8 = num := by omega
  have hnum' : ¬ ((num * 8 + 2) % 8 ≠ 2 ∨ num < 1 ∨ num > 2) := by omega
  simp only [readField, if_neg (show ¬ (pre.length : Int) < 0 by omega), Int.toNat_natCast,
    hdrop, htag, hdiv,
    if_neg hnum', hread]
  rw [hbuf, hstart, hint, if_neg hbound, ← Nat.cast_add, subarray_append, textDecode_encode,
    Option.map_some, hnext]

/-- A text that is read as it was: it is not empty, has no mark at its start, and is not too
long. -/
def Readable (text : String) : Prop :=
  text ≠ "" ∧ text.toList.head? ≠ some '\uFEFF' ∧ (Utf8.encode text.toList).length < 2 ^ 31

theorem unmarked_eq_iff (text : String) :
    unmarked text = text ↔ text.toList.head? ≠ some '\uFEFF' := by
  rw [unmarked, ← String.toList_inj, String.toList_ofList]
  split
  · rename_i h
    refine iff_of_false (fun heq => ?_) (not_not_intro h)
    obtain ⟨cs, hcs⟩ := List.head?_eq_some_iff.mp h
    rw [hcs, List.tail_cons] at heq
    exact absurd (congrArg List.length heq) (by simp)
  · rename_i h
    exact iff_of_true rfl h

/-- The two fields of a message of texts that are not too long. -/
theorem readFields_message (subFirst : Bool) {s : Subject}
    (hsub : (Utf8.encode s.sub.toList).length < 2 ^ 31)
    (hcon : (Utf8.encode s.connector.toList).length < 2 ^ 31) :
    readFields (message subFirst s) 3 0 ⟨none, none⟩ =
      some (Fields.subject ⟨some (unmarked s.sub), some (unmarked s.connector)⟩) := by
  have hpos : ∀ num text, 0 < (field num text).length := fun num text => by
    rw [length_field]
    omega
  have hrun : ∀ (n m : Nat) (a b : String), (n = 1 ∨ n = 2) → (m = 1 ∨ m = 2) →
      (Utf8.encode a.toList).length < 2 ^ 31 → (Utf8.encode b.toList).length < 2 ^ 31 → ∀ f,
      readFields (field n a ++ field m b) 3 0 f =
        some ((f.set ⟨n, unmarked a, (field n a).length⟩).set
          ⟨m, unmarked b, ((field n a).length + (field m b).length : Nat)⟩).subject :=
            fun n m a b hn hm ha hb f => by
    have hlen : (field n a ++ field m b).length = (field n a).length + (field m b).length :=
      List.length_append
    have h1 := readField_field hn ha [] (field m b)
    have h2 := readField_field hm hb (field n a) []
    rw [List.nil_append, List.length_nil, zero_add, Nat.cast_zero] at h1
    rw [List.append_nil] at h2
    have hpb := hpos m b
    rw [readFields, if_pos (by omega), h1]
    simp only
    rw [readFields, if_pos (by omega), h2]
    simp only
    rw [readFields, if_neg (by omega)]
  cases subFirst with
  | true => exact hrun 1 2 s.sub s.connector (.inl rfl) (.inr rfl) hsub hcon _
  | false => exact hrun 2 1 s.connector s.sub (.inr rfl) (.inl rfl) hcon hsub _

/-! ## A text that is too long is not read -/

def Short (text : String) : Prop := (Utf8.encode text.toList).length < 2 ^ 31

theorem length_textDecode {bs : List UInt8} {text : String} (h : textDecode bs = some text) :
    (Utf8.encode text.toList).length ≤ bs.length := by
  obtain ⟨cs, hcs, rfl⟩ := Option.map_eq_some_iff.mp h
  have hle := Utf8.length_encode_of_decodeFatal hcs
  rw [String.toList_ofList]
  split
  · cases cs with
    | nil => exact hle
    | cons c cs =>
      rw [Utf8.encode_cons, List.length_append] at hle
      rw [List.tail_cons]
      omega
  · exact hle

/-- A field after which the reader is still in the buffer. -/
theorem readField_short {x : Field} (h : readField buf i = some x) (hx : 0 ≤ x.next) :
    Short x.text := by
  obtain ⟨tag, rest, len, rest', text, -, -, -, hbound, htext, rfl⟩ := readField_eq_some h
  have hle := length_textDecode htext
  have hlen := BitVec.toInt_lt (x := len)
  simp only at hx hbound hle
  rw [subarray, if_neg (by omega), List.length_take, List.length_drop, min_eq_left hbound] at hle
  change (Utf8.encode text.toList).length < 2 ^ 31
  omega

theorem readFields_negative (buf : List UInt8) (fuel : Nat) (f : Fields) (hi : i < 0) :
    readFields buf fuel i f = none ∨ readFields buf fuel i f = some none := by
  cases fuel with
  | zero => exact .inl rfl
  | succ fuel =>
    have hfield : readField buf i = none := by rw [readField, if_pos hi]
    refine .inr ?_
    rw [readFields, if_pos (by omega), hfield]

theorem readFields_short {fuel : Nat} {f : Fields} {s : Subject}
    (h : readFields buf fuel i f = some (some s)) (h1 : ∀ t ∈ f.first, Short t)
    (h2 : ∀ t ∈ f.second, Short t) :
    Short s.sub ∧ Short s.connector := by
  induction fuel generalizing i f with
  | zero => cases h
  | succ fuel ih =>
    rw [readFields] at h
    split at h
    · split at h
      · cases h
      · rename_i x hfield
        by_cases hx : 0 ≤ x.next
        · have hshort := readField_short hfield hx
          refine ih h ?_ ?_
          · rw [Fields.set]
            split
            · exact fun t ht => Option.some.inj ht ▸ hshort
            · exact h1
          · rw [Fields.set]
            split
            · exact h2
            · exact fun t ht => Option.some.inj ht ▸ hshort
        · obtain hnone | hnone := readFields_negative buf fuel (f.set x) (not_le.mp hx)
          · rw [hnone] at h
            cases h
          · rw [hnone] at h
            cases h
    · rw [Fields.subject] at h
      obtain ⟨first, second⟩ := f
      cases first with
      | none => cases h
      | some a =>
        cases second with
        | none => cases h
        | some b =>
          simp only at h
          split at h
          · cases h
          · obtain rfl := Option.some.inj (Option.some.inj h)
            exact ⟨h1 a rfl, h2 b rfl⟩

/-- More rounds do not change what was read. -/
theorem readFields_mono {fuel fuel' : Nat} {f : Fields} {r : Option Subject}
    (h : readFields buf fuel i f = some r) (hle : fuel ≤ fuel') :
    readFields buf fuel' i f = some r := by
  induction fuel generalizing fuel' i f with
  | zero => cases h
  | succ fuel ih =>
    obtain ⟨fuel', rfl⟩ := Nat.exists_eq_add_of_lt hle
    rw [readFields]
    rw [readFields] at h
    split
    · rename_i hi
      rw [if_pos hi] at h
      split
      · rename_i hfield
        rw [hfield] at h
        exact h
      · rename_i x hfield
        rw [hfield] at h
        exact ih h (le_add_right _ _)
    · rename_i hi
      rw [if_neg hi] at h
      exact h

/-! ## The reader as a whole -/

theorem bufOf_userId (subFirst padded : Bool) (s : Subject) :
    bufOf (userId subFirst padded s) = some (message subFirst s) := by
  rw [bufOf, userId, String.toList_ofList]
  exact Base64.atob_encodeUrl padded _

/-- An encoded subject is read back exactly when both of its texts are readable. -/
theorem dexSubject_userId_iff (subFirst padded : Bool) (s : Subject) :
    (∃ fuel, dexSubject fuel (userId subFirst padded s) = some (some s)) ↔
    Readable s.sub ∧ Readable s.connector := by
  have hrun : ∀ fuel, dexSubject fuel (userId subFirst padded s) =
      readFields (message subFirst s) fuel 0 ⟨none, none⟩ := fun fuel => by
        rw [dexSubject, bufOf_userId]
  simp only [hrun]
  constructor
  · rintro ⟨fuel, hfuel⟩
    obtain ⟨hsub, hcon⟩ := readFields_short hfuel (fun t ht => nomatch ht) (fun t ht => nomatch ht)
    have hmax := readFields_mono hfuel (le_max_left fuel 3)
    have hread := readFields_mono (readFields_message subFirst hsub hcon) (le_max_right fuel 3)
    rw [hmax, Fields.subject] at hread
    simp only at hread
    split at hread
    · cases hread
    · rename_i hne
      rw [Option.some.injEq, Option.some.injEq, Subject.mk.injEq] at hread
      obtain ⟨hs, hc⟩ := hread
      rw [← hs, ← hc, not_or] at hne
      exact ⟨⟨hne.1, (unmarked_eq_iff _).mp hs.symm, hsub⟩, hne.2,
        (unmarked_eq_iff _).mp hc.symm, hcon⟩
  · rintro ⟨⟨hs, hs', hsub⟩, hc, hc', hcon⟩
    refine ⟨3, ?_⟩
    rw [readFields_message subFirst hsub hcon, (unmarked_eq_iff _).mpr hs',
      (unmarked_eq_iff _).mpr hc', Fields.subject]
    simp only
    rw [if_neg (not_or.mpr ⟨hs, hc⟩)]

/-- The reader stops on a string exactly when it is not led back to a field that it has read, and
reads an encoded subject exactly when its texts are readable. -/
theorem dexSubject_iff (nbUserId : String) (subFirst padded : Bool) (s : Subject) :
    ((∃ fuel, (dexSubject fuel nbUserId).isSome = true) ↔ ¬ LoopsBack nbUserId) ∧
    ((∃ fuel, dexSubject fuel (userId subFirst padded s) = some (some s)) ↔
      Readable s.sub ∧ Readable s.connector) :=
  ⟨dexSubject_returns_iff nbUserId, dexSubject_userId_iff subFirst padded s⟩

/-- A field whose length is minus six leads back to its own tag, and an empty subject is not
read. -/
theorem dexSubject_runs_on : (¬ ∀ nbUserId, ∃ fuel, (dexSubject fuel nbUserId).isSome = true) ∧
    ¬ ∀ s, ∃ fuel, dexSubject fuel (userId true false s) = some (some s) := by
  constructor
  · intro hall
    have hbuf (buf : List UInt8) : bufOf (.ofList (Base64.encodeUrl false buf)) = some buf := by
      rw [bufOf, String.toList_ofList]
      exact Base64.atob_encodeUrl false _
    -- the text is `Cvr___8P`
    refine (dexSubject_returns_iff _).mp (hall _) ⟨[0x0A, 0xFA, 0xFF, 0xFF, 0xFF, 0x0F], hbuf _, 0,
      0, rfl, 0, ?_⟩
    decide
  · intro hall
    exact ((dexSubject_userId_iff true false ⟨"", ""⟩).mp (hall _)).1.1 rfl

end Swarmy.Dex
