import Mathlib

/-!
# Base64

The standard alphabet with `=` padding, over lists of bytes, and its lenient
decoder: characters outside the alphabet are skipped and `=` ends the input.
`decode_encode` is the round trip; `fromB64_toB64` lifts it to strings through
UTF-8.
-/

namespace Base64

open List Option

/-- The alphabet. -/
def alphabet : List Char :=
  "ABCDEFGHIJKLMNOPQRSTUVWXYZabcdefghijklmnopqrstuvwxyz0123456789+/".toList

/-- The character of a sextet. -/
def digit (n : Nat) : Char := alphabet.getD n '='

/-- The sextet of a character. -/
def value (c : Char) : Option Nat :=
  let i := alphabet.idxOf c
  if i < 64 then some i else none

theorem digit_fin : ∀ m : Fin 64, value (digit m) = some m.val ∧ digit m ≠ '=' := by decide +kernel

theorem value_digit {n : Nat} (h : n < 64) : value (digit n) = some n := (digit_fin ⟨n, h⟩).1

theorem digit_ne_pad {n : Nat} (h : n < 64) : digit n ≠ '=' := (digit_fin ⟨n, h⟩).2

/-- Three bytes become four characters; a short last group is padded. -/
def encode : List UInt8 → List Char
  | a :: b :: c :: r =>
    digit (a.toNat / 4) :: digit (a.toNat % 4 * 16 + b.toNat / 16) ::
      digit (b.toNat % 16 * 4 + c.toNat / 64) :: digit (c.toNat % 64) :: encode r
  | [a, b] =>
    [digit (a.toNat / 4), digit (a.toNat % 4 * 16 + b.toNat / 16),
      digit (b.toNat % 16 * 4), '=']
  | [a] => [digit (a.toNat / 4), digit (a.toNat % 4 * 16), '=', '=']
  | [] => []

/-- Sextets back to bytes; a lone last sextet carries no byte. -/
def pack : List Nat → List UInt8
  | p :: q :: r :: s :: t =>
    UInt8.ofNat (p * 4 + q / 16) :: UInt8.ofNat (q % 16 * 16 + r / 4) ::
      UInt8.ofNat (r % 4 * 64 + s) :: pack t
  | [p, q, r] => [UInt8.ofNat (p * 4 + q / 16), UInt8.ofNat (q % 16 * 16 + r / 4)]
  | [p, q] => [UInt8.ofNat (p * 4 + q / 16)]
  | _ => []

/-- The sextets of a text, up to its padding. -/
def sextets (cs : List Char) : List Nat := (cs.takeWhile (· ≠ '=')).filterMap value

/-- Decode leniently. -/
def decode (cs : List Char) : List UInt8 := pack (sextets cs)

theorem sextets_cons {n : Nat} (h : n < 64) (cs : List Char) :
    sextets (digit n :: cs) = n :: sextets cs := by
  rw [sextets, takeWhile_cons_of_pos (by simpa using digit_ne_pad h),
    filterMap_cons_some (value_digit h), sextets]

@[simp] theorem sextets_pad (cs : List Char) : sextets ('=' :: cs) = [] := rfl

theorem ofNat_eq (b : UInt8) {n : Nat} (h : n = b.toNat) : UInt8.ofNat n = b := by
  rw [h, UInt8.ofNat_toNat]

/-- Decoding undoes encoding. -/
theorem decode_encode : ∀ bs : List UInt8, decode (encode bs) = bs
  | [] => rfl
  | [a] => by
    have ha := a.toNat_lt
    rw [encode, decode, sextets_cons (by omega), sextets_cons (by omega), sextets_pad, pack]
    exact congrArg (· :: []) (ofNat_eq _ (by omega))
  | [a, b] => by
    have ha := a.toNat_lt
    have hb := b.toNat_lt
    rw [encode, decode, sextets_cons (by omega), sextets_cons (by omega),
      sextets_cons (by omega), sextets_pad, pack]
    exact congrArg₂ (fun x y => [x, y]) (ofNat_eq _ (by omega)) (ofNat_eq _ (by omega))
  | a :: b :: c :: r => by
    have ha := a.toNat_lt
    have hb := b.toNat_lt
    have hc := c.toNat_lt
    have ih := decode_encode r
    rw [encode, decode, sextets_cons (by omega), sextets_cons (by omega),
      sextets_cons (by omega), sextets_cons (by omega), pack]
    rw [decode] at ih
    rw [ih, ofNat_eq a (by omega), ofNat_eq b (by omega), ofNat_eq c (by omega)]

/-- The base64 of a text's UTF-8. -/
def toB64 (s : String) : String := String.ofList (encode s.toUTF8.data.toList)

/-- The text of a base64 of UTF-8; bytes that are not UTF-8 read as the
replacement character. -/
def fromB64 (s : String) : String :=
  (String.fromUTF8? ⟨(decode s.toList).toArray⟩).getD "\uFFFD"

/-- What was encoded is what is decoded. -/
@[simp] theorem fromB64_toB64 (s : String) : fromB64 (toB64 s) = s := by
  simp only [fromB64, toB64, String.toList_ofList, decode_encode]
  rw [String.toUTF8_eq_toByteArray, String.fromUTF8?, dif_pos s.isValidUTF8]
  rfl

end Base64

/-!
## Base64 of the web

`atob`, which refuses what is not base64, and the alphabet that may stand in a URL, with or without
padding.  Encoded bytes are read back from either.
-/

namespace Base64

/-- White space of ASCII. -/
def isAsciiSpace (c : Char) : Bool := c.toNat ∈ [0x09, 0x0A, 0x0C, 0x0D, 0x20]

/-- A text of full groups loses one or two `=` at its end. -/
def dropPadding (cs : List Char) : List Char :=
  if cs.length % 4 = 0 then
    match cs.reverse with
    | '=' :: '=' :: r => r.reverse
    | '=' :: r => r.reverse
    | _ => cs
  else cs

/-- `atob(s)`; a text that is not base64 throws. -/
def atob (cs : List Char) : Option (List UInt8) :=
  let cs := dropPadding (cs.filter fun c => !isAsciiSpace c)
  if cs.length % 4 = 1 ∨ ∃ c ∈ cs, value c = none then none else some (pack (cs.filterMap value))

/-- `+` and `/` as they stand in a URL. -/
def toUrl (c : Char) : Char := if c = '+' then '-' else if c = '/' then '_' else c

/-- `-` and `_` as `+` and `/` again. -/
def fromUrl (c : Char) : Char := if c = '-' then '+' else if c = '_' then '/' else c

/-- Base64 for URLs. -/
def encodeUrl (padded : Bool) (bs : List UInt8) : List Char :=
  ((encode bs).filter fun c => padded || c ≠ '=').map toUrl

/-! ## Encoded texts -/

/-- The characters of the alphabet. -/
def IsBody (cs : List Char) : Prop := ∀ c ∈ cs, ∃ n < 64, digit n = c

/-- An encoded text is full groups of four: characters of the alphabet, then at most two `=`. -/
structure Shape (body pad : List Char) : Prop where
  alphabet : IsBody body
  padding : pad = [] ∨ pad = ['='] ∨ pad = ['=', '=']
  length : (body.length + pad.length) % 4 = 0

theorem encode_shape : ∀ bs : List UInt8, ∃ body pad, encode bs = body ++ pad ∧ Shape body pad
  | [] => ⟨[], [], rfl, fun c hc => absurd hc List.not_mem_nil, .inl rfl, rfl⟩
  | [a] => by
    have ha := a.toNat_lt
    refine ⟨[digit (a.toNat / 4), digit (a.toNat % 4 * 16)], ['=', '='], rfl, ?_,
      .inr (.inr rfl), by simp⟩
    exact List.forall_mem_cons.mpr ⟨⟨_, by omega, rfl⟩,
      List.forall_mem_singleton.mpr ⟨_, by omega, rfl⟩⟩
  | [a, b] => by
    have ha := a.toNat_lt
    have hb := b.toNat_lt
    refine ⟨[digit (a.toNat / 4), digit (a.toNat % 4 * 16 + b.toNat / 16),
      digit (b.toNat % 16 * 4)], ['='], rfl,
      ?_, .inr (.inl rfl), by simp⟩
    exact List.forall_mem_cons.mpr ⟨⟨_, by omega, rfl⟩, List.forall_mem_cons.mpr
      ⟨⟨_, by omega, rfl⟩, List.forall_mem_singleton.mpr ⟨_, by omega, rfl⟩⟩⟩
  | a :: b :: c :: r => by
    have ha := a.toNat_lt
    have hb := b.toNat_lt
    have hc := c.toNat_lt
    obtain ⟨body, pad, henc, hbody, hpad, hlen⟩ := encode_shape r
    refine ⟨digit (a.toNat / 4) :: digit (a.toNat % 4 * 16 + b.toNat / 16) ::
      digit (b.toNat % 16 * 4 + c.toNat / 64) :: digit (c.toNat % 64) :: body, pad, ?_,
        ?_, hpad, ?_⟩
    · rw [encode, henc]
      rfl
    · exact List.forall_mem_cons.mpr ⟨⟨_, by omega, rfl⟩,
        List.forall_mem_cons.mpr ⟨⟨_, by omega, rfl⟩,
        List.forall_mem_cons.mpr ⟨⟨_, by omega, rfl⟩,
          List.forall_mem_cons.mpr ⟨⟨_, by omega, rfl⟩, hbody⟩⟩⟩⟩
    · simp only [List.length_cons]
      omega

/-- What no character of the alphabet is. -/
theorem digit_plain {n : Nat} (h : n < 64) :
    isAsciiSpace (digit n) = false ∧ fromUrl (toUrl (digit n)) = digit n :=
  (by decide +kernel : ∀ m : Fin 64, isAsciiSpace (digit m) = false ∧ fromUrl (toUrl
    (digit m)) = digit m) ⟨n, h⟩

namespace Shape

variable {body pad : List Char}

theorem ne_pad (h : Shape body pad) : ∀ c ∈ body, c ≠ '=' := fun c hc => by
  obtain ⟨n, hn, rfl⟩ := h.alphabet c hc
  exact digit_ne_pad hn

theorem pad_eq (h : Shape body pad) : ∀ c ∈ pad, c = '=' := fun c hc => by
  obtain rfl | rfl | rfl := h.padding
  · cases hc
  · exact List.mem_singleton.mp hc
  · simpa using hc

theorem plain (h : Shape body pad) : ∀ c ∈ body ++ pad, isAsciiSpace c = false ∧ fromUrl
    (toUrl c) = c := fun c hc => by
  obtain hc | hc := List.mem_append.mp hc
  · obtain ⟨n, hn, rfl⟩ := h.alphabet c hc
    exact digit_plain hn
  · rw [h.pad_eq c hc]
    decide

theorem getLast_body (h : Shape body pad) (r : List Char) : body.reverse ≠ '=' :: r := fun heq =>
  h.ne_pad '=' (List.mem_reverse.mp (heq ▸ List.mem_cons_self)) rfl

theorem dropPadding_body (h : Shape body pad) : dropPadding body = body := by
  rw [dropPadding]
  split
  · split
    · rename_i heq
      exact absurd heq (h.getLast_body _)
    · rename_i heq
      exact absurd heq (h.getLast_body _)
    · rfl
  · rfl

theorem dropPadding_append (h : Shape body pad) : dropPadding (body ++ pad) = body := by
  obtain hpad | hpad | hpad := h.padding
  · rw [hpad, List.append_nil]
    exact h.dropPadding_body
  · have hlen := h.length
    rw [hpad] at hlen ⊢
    rw [dropPadding, List.length_append, if_pos hlen, List.reverse_append, List.reverse_singleton,
      List.singleton_append]
    split
    · rename_i heq
      exact absurd (List.cons.inj heq).2 (h.getLast_body _)
    · rename_i heq
      rw [← (List.cons.inj heq).2, List.reverse_reverse]
    · rename_i hnot
      exact absurd rfl (hnot _)
  · have hlen := h.length
    rw [hpad] at hlen ⊢
    rw [dropPadding, List.length_append, if_pos hlen, List.reverse_append]
    exact List.reverse_reverse body

theorem atob_body (h : Shape body pad) : ¬ (body.length % 4 = 1 ∨ ∃ c ∈ body, value c = none) := by
  rintro (hlen | ⟨c, hc, hnone⟩)
  · have hmod := h.length
    obtain hpad | hpad | hpad := h.padding <;>
      · rw [hpad] at hmod
        simp only [List.length_nil, List.length_cons] at hmod
        omega
  · obtain ⟨n, hn, rfl⟩ := h.alphabet c hc
    rw [value_digit hn] at hnone
    cases hnone

end Shape

/-- Encoded for a URL, the bytes are in the characters before the padding, if there is any. -/
theorem encodeUrl_shape (padded : Bool) (bs : List UInt8) : ∃ body pad tail, Shape body pad ∧
    (encodeUrl padded bs).map fromUrl = body ++ tail ∧ (tail = pad ∨ tail = []) ∧
    pack (body.filterMap value) = bs := by
  obtain ⟨body, pad, henc, hshape⟩ := encode_shape bs
  have hdecode : pack (body.filterMap value) = bs := by
    have hbody := decode_encode bs
    rw [decode, sextets, henc, List.takeWhile_append_of_pos fun c hc =>
      decide_eq_true (hshape.ne_pad c hc)] at hbody
    have hnil : pad.takeWhile (fun c => decide (c ≠ '=')) = [] := by
      obtain rfl | rfl | rfl := hshape.padding <;> rfl
    rwa [hnil, List.append_nil] at hbody
  have hsub : ∀ cs : List Char, (∀ c ∈ cs, c ∈ body ++ pad) → (cs.map toUrl).map fromUrl = cs :=
    fun cs hcs => by
    rw [List.map_map]
    exact (List.map_congr_left fun c hc => (hshape.plain c (hcs c hc)).2).trans (List.map_id _)
  cases padded with
  | true =>
    refine ⟨body, pad, pad, hshape, ?_, .inl rfl, hdecode⟩
    have hall : (body ++ pad).filter (fun c => true || decide (c ≠ '=')) = body ++ pad :=
      List.filter_eq_self.mpr fun _ _ => rfl
    rw [encodeUrl, henc, hall]
    exact hsub _ fun c hc => hc
  | false =>
    refine ⟨body, pad, [], hshape, ?_, .inr rfl, hdecode⟩
    have hbody : body.filter (fun c => false || decide (c ≠ '=')) = body :=
      List.filter_eq_self.mpr fun c hc => decide_eq_true (hshape.ne_pad c hc)
    have hpad : pad.filter (fun c => false || decide (c ≠ '=')) = [] :=
      List.filter_eq_nil_iff.mpr fun c hc => by simp [hshape.pad_eq c hc]
    rw [encodeUrl, henc, List.filter_append, hbody, hpad, List.append_nil]
    exact hsub _ fun c hc => List.mem_append_left _ hc

/-- What was encoded for a URL, with or without padding, is what `atob` reads. -/
theorem atob_encodeUrl (padded : Bool) (bs : List UInt8) :
    atob ((encodeUrl padded bs).map fromUrl) = some bs := by
  obtain ⟨body, pad, tail, hshape, hmap, htail, hdecode⟩ := encodeUrl_shape padded bs
  have hspace : (body ++ tail).filter (fun c => !isAsciiSpace c) = body ++ tail := by
    refine List.filter_eq_self.mpr fun c hc => ?_
    have hmem : c ∈ body ++ pad := by
      obtain rfl | rfl := htail
      · exact hc
      · exact List.mem_append_left _ (by simpa using hc)
    rw [(hshape.plain c hmem).1]
    rfl
  have hdrop : dropPadding (body ++ tail) = body := by
    obtain rfl | rfl := htail
    · exact hshape.dropPadding_append
    · rw [List.append_nil]
      exact hshape.dropPadding_body
  simp only [atob]
  rw [hmap, hspace, hdrop, if_neg hshape.atob_body, hdecode]

end Base64
