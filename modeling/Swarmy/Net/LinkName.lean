import Mathlib.Tactic.Common
import Mathlib.Data.Nat.ModEq
import Mathlib.Data.Nat.Bitwise

/-!
# Names of link overlays

`fnv64hex` and `linkNetworkName` of `packages/core/src/network-policy.ts`.  Each half of the
hash is a fold that xors a code unit in and multiplies modulo 2^32.  The first multiplier is
odd, so every code unit counts; the second is four times an odd number, so a code unit with
fifteen others behind it does not.
-/

namespace Swarmy.Links

open List Option Nat

/-! ## The hash -/

/-- The UTF-16 code units of a character. -/
def charCodes (c : Char) : List Nat :=
  if c.toNat < 0x10000 then [c.toNat]
  else [0xD800 + (c.toNat - 0x10000) / 0x400, 0xDC00 + (c.toNat - 0x10000) % 0x400]

def codeUnits (s : String) : List Nat := s.toList.flatMap charCodes

/-- `h = Math.imul(h ^ c, m) >>> 0` -/
def mix (m h c : Nat) : Nat := (h ^^^ c) * m % 2 ^ 32

/-- One half of the hash. -/
def half (m init : Nat) (input : List Nat) : Nat := input.foldl (mix m) init

def multiplier₁ : Nat := 0x01000193

def multiplier₂ : Nat := 0x01000193 ^^^ 0x2f

def half₁ (input : List Nat) : Nat := half multiplier₁ 0x811c9dc5 input

def half₂ (input : List Nat) : Nat := half multiplier₂ (0x01000193 ^^^ 0x5bd1e995) input

/-- `h.toString(16).padStart(8, '0')` -/
def hex8 (h : Nat) : String :=
  let ds := Nat.toDigits 16 h
  String.ofList (List.replicate (8 - ds.length) '0' ++ ds)

def fnv64hex (input : List Nat) : String := hex8 (half₁ input) ++ hex8 (half₂ input)

/-- `a <= b` on strings: by code units. -/
def unitsLe : List Nat → List Nat → Bool
  | [], _ => true
  | _ :: _, [] => false
  | x :: xs, y :: ys => x < y || (x == y && unitsLe xs ys)

/-- The two apps of a pair in canonical order. -/
def linkPair (a b : String) : String × String :=
  if unitsLe (codeUnits a) (codeUnits b) then (a, b) else (b, a)

/-- What `linkNetworkName` hashes. -/
def linkInput (orgId a b : String) : List Nat :=
  codeUnits orgId ++ 0 :: (codeUnits (linkPair a b).1 ++ 0 :: codeUnits (linkPair a b).2)

/-- The private overlay of two apps of an organisation. -/
def linkNetworkName (orgId a b : String) : String :=
  "swarmy-link-" ++ fnv64hex (linkInput orgId a b)

/-- Every code unit of the input counts: another one in its place gives another value. -/
def DependsOnAll (f : List Nat → Nat) (input : List Nat) : Prop :=
  ∀ i < input.length, ∃ c < 0x10000, f (input.set i c) ≠ f input

/-! ## What a step keeps -/

theorem xor_modEq {x y c j : Nat} : x ^^^ c ≡ y ^^^ c [MOD 2 ^ j] ↔ x ≡ y [MOD 2 ^ j] := by
  unfold Nat.ModEq
  rw [Nat.xor_mod_two_pow, Nat.xor_mod_two_pow]
  exact Nat.xor_left_inj

theorem xor_modEq' {h x y j : Nat} : h ^^^ x ≡ h ^^^ y [MOD 2 ^ j] ↔ x ≡ y [MOD 2 ^ j] := by
  rw [Nat.xor_comm h x, Nat.xor_comm h y]
  exact xor_modEq

/-- A multiplication with `2 ^ t` times an odd number shifts what is kept by `t` bits. -/
theorem mul_modEq {x y q t j : Nat} (hq : q % 2 = 1) :
    x * (q * 2 ^ t) ≡ y * (q * 2 ^ t) [MOD 2 ^ (j + t)] ↔ x ≡ y [MOD 2 ^ j] := by
  constructor
  · intro h
    rw [← mul_assoc, ← mul_assoc, Nat.pow_add] at h
    have h := Nat.ModEq.mul_right_cancel' (Nat.two_pow_pos t).ne' h
    have hcop : Nat.Coprime 2 q := by rw [Nat.Coprime, Nat.gcd_rec, hq, Nat.gcd_one_left]
    exact Nat.ModEq.cancel_right_of_coprime (Nat.Coprime.pow_left j hcop) h
  · intro h
    rw [← mul_assoc, ← mul_assoc, Nat.pow_add]
    exact (h.mul_right q).mul_right' (2 ^ t)

theorem mod_modEq {x y j : Nat} (hj : j ≤ 32) :
    x % 2 ^ 32 ≡ y % 2 ^ 32 [MOD 2 ^ j] ↔ x ≡ y [MOD 2 ^ j] := by
  unfold Nat.ModEq
  rw [mod_mod_of_dvd _ (Nat.pow_dvd_pow 2 hj), mod_mod_of_dvd _ (Nat.pow_dvd_pow 2 hj)]

section

variable {q t : Nat} (hq : q % 2 = 1)

include hq

theorem mix_modEq {h h' c j : Nat} (hj : j + t ≤ 32) :
    mix (q * 2 ^ t) h c ≡ mix (q * 2 ^ t) h' c [MOD 2 ^ (j + t)] ↔ h ≡ h' [MOD 2 ^ j] := by
  rw [mix, mix, mod_modEq hj, mul_modEq hq, xor_modEq]

theorem mix_modEq' {h c c' j : Nat} (hj : j + t ≤ 32) :
    mix (q * 2 ^ t) h c ≡ mix (q * 2 ^ t) h c' [MOD 2 ^ (j + t)] ↔ c ≡ c' [MOD 2 ^ j] := by
  rw [mix, mix, mod_modEq hj, mul_modEq hq, xor_modEq']

/-- What is known of the value behind some code units. -/
theorem half_modEq (post : List Nat) {h h' j : Nat} (hj : j + t * post.length ≤ 32) :
    half (q * 2 ^ t) h post ≡ half (q * 2 ^ t) h' post [MOD 2 ^ (j + t * post.length)] ↔
      h ≡ h' [MOD 2 ^ j] := by
  induction post generalizing h h' j with
  | nil => exact Iff.rfl
  | cons c post ih =>
    have hlen : j + t * (c :: post).length = (j + t) + t * post.length := by
      rw [length_cons, mul_add_one]
      omega
    rw [hlen] at hj ⊢
    exact (ih hj).trans (mix_modEq hq (by omega))

end

theorem mix_lt (m h c : Nat) : mix m h c < 2 ^ 32 := mod_lt _ (Nat.two_pow_pos 32)

theorem half_lt {m h : Nat} (hh : h < 2 ^ 32) (input : List Nat) : half m h input < 2 ^ 32 := by
  induction input generalizing h with
  | nil => exact hh
  | cons c input ih => exact ih (mix_lt m h c)

theorem half_append (m h : Nat) (pre post : List Nat) :
    half m h (pre ++ post) = half m (half m h pre) post := foldl_append

/-- Two code units in one place give one value exactly where they agree in the bits that are
not shifted out. -/
theorem half_eq_iff {q t : Nat} (hq : q % 2 = 1) (h c c' : Nat) (post : List Nat)
    (hlen : t * (post.length + 1) ≤ 32) :
    half (q * 2 ^ t) h (c :: post) = half (q * 2 ^ t) h (c' :: post) ↔
      c ≡ c' [MOD 2 ^ (32 - t * (post.length + 1))] := by
  have hsplit : 32 = (32 - t * (post.length + 1) + t) + t * post.length := by
    rw [mul_add_one] at hlen ⊢
    omega
  have heq : half (q * 2 ^ t) h (c :: post) = half (q * 2 ^ t) h (c' :: post) ↔
      half (q * 2 ^ t) h (c :: post) ≡ half (q * 2 ^ t) h (c' :: post) [MOD 2 ^ 32] := by
    have hlt : ∀ c, half (q * 2 ^ t) h (c :: post) < 2 ^ 32 := fun c => half_lt (mix_lt _ h c) post
    unfold Nat.ModEq
    rw [mod_eq_of_lt (hlt c), mod_eq_of_lt (hlt c')]
  rw [heq, hsplit]
  refine (half_modEq hq post (by omega)).trans ?_
  rw [← hsplit]
  exact mix_modEq' hq (by rw [mul_add_one] at hlen; omega)

/-! ## How far each half looks -/

theorem set_eq (input : List Nat) {i : Nat} (hi : i < input.length) (c : Nat) :
    input.set i c = input.take i ++ c :: input.drop (i + 1) := by
  rw [set_eq_take_append_cons_drop, if_pos hi]

theorem split_eq (input : List Nat) {i : Nat} (hi : i < input.length) :
    input = input.take i ++ input[i] :: input.drop (i + 1) := by
  rw [getElem_cons_drop, take_append_drop]

/-- A code unit of the other parity. -/
theorem exists_other (c : Nat) {j : Nat} (hj : 0 < j) : ∃ c' < 0x10000, ¬c' ≡ c [MOD 2 ^ j] := by
  refine ⟨(c + 1) % 2, by omega, fun h => ?_⟩
  have h2 : (c + 1) % 2 ≡ c [MOD 2] := h.of_dvd (dvd_pow_self 2 hj.ne')
  unfold Nat.ModEq at h2
  omega

theorem half_depends {q t : Nat} (hq : q % 2 = 1) (h : Nat) (input : List Nat)
    (hlen : t * input.length < 32) : DependsOnAll (half (q * 2 ^ t) h) input := by
  intro i hi
  have hpost : t * ((input.drop (i + 1)).length + 1) < 32 := by
    refine lt_of_le_of_lt (mul_le_mul_left t ?_) hlen
    rw [length_drop]
    omega
  obtain ⟨c, hc, hne⟩ := exists_other input[i] (j := 32 - t * ((input.drop (i + 1)).length + 1))
    (by omega)
  refine ⟨c, hc, fun he => hne ?_⟩
  rw [set_eq input hi, half_append] at he
  have hin : half (q * 2 ^ t) h input = half (q * 2 ^ t) (half (q * 2 ^ t) h (input.take i))
      (input[i] :: input.drop (i + 1)) := by
    rw [← half_append, ← split_eq input hi]
  rw [hin] at he
  exact (half_eq_iff hq _ _ _ _ hpost.le).mp he

/-- Sixteen multiplications with a multiple of four leave nothing of the first code unit. -/
theorem half_blind {q : Nat} (hq : q % 2 = 1) (h c c' : Nat) (post : List Nat)
    (hlen : 15 ≤ post.length) :
    half (q * 2 ^ 2) h (c :: post) = half (q * 2 ^ 2) h (c' :: post) := by
  have hpost : post = post.take 15 ++ post.drop 15 := (take_append_drop 15 post).symm
  have htake : (post.take 15).length = 15 := by rw [length_take]; omega
  rw [hpost, ← cons_append, ← cons_append, half_append, half_append]
  congr 1
  refine (half_eq_iff hq h c c' (post.take 15) (by rw [htake])).mpr ?_
  rw [htake]
  exact modEq_one

theorem multiplier₂_eq : multiplier₂ = 4194415 * 2 ^ 2 := by decide

/-- Each half of the hash depends on every code unit of the input exactly where there are
fifteen of them at most. -/
theorem depends_iff (input : List Nat) :
    DependsOnAll half₁ input ∧ DependsOnAll half₂ input ↔ input.length ≤ 15 := by
  constructor
  · rintro ⟨-, h⟩
    by_contra hlen
    obtain ⟨c, -, hne⟩ := h 0 (by omega)
    refine hne ?_
    cases input with
    | nil => exact absurd (zero_le 15) hlen
    | cons c' post =>
      rw [length_cons] at hlen
      rw [set_cons_zero, half₂, half₂, multiplier₂_eq]
      exact half_blind (by decide) _ _ _ _ (by omega)
  · intro hlen
    constructor
    · have := half_depends (q := 0x01000193) (t := 0) (by decide) 0x811c9dc5 input (by omega)
      exact this
    · have := half_depends (q := 4194415) (t := 2) (by decide) (0x01000193 ^^^ 0x5bd1e995) input
        (by omega)
      exact this

/-! ## What a name says -/

/-- The value of a hexadecimal text. -/
def hexValue (ds : List Char) : Nat :=
  ds.foldl (fun n c => 16 * n + (if c.isDigit then c.toNat - 48 else c.toNat - 87)) 0

theorem hexValue_toDigits (n : Nat) : hexValue (Nat.toDigits 16 n) = n := by
  have hdigit : ∀ d < 16, hexValue [Nat.digitChar d] = d := by decide
  induction n using Nat.strong_induction_on with
  | _ n ih =>
    by_cases hn : n < 16
    · rw [Nat.toDigits_of_lt_base hn, hdigit n hn]
    · have hlast := hdigit (n % 16) (Nat.mod_lt _ (by decide))
      have hinit := ih (n / 16) (by omega)
      rw [Nat.toDigits_of_base_le (by decide) (by omega)]
      simp only [hexValue, foldl_append, foldl_cons, foldl_nil, mul_zero, zero_add] at hlast hinit ⊢
      rw [hinit, hlast]
      omega

theorem hexValue_zeros (k : Nat) (ds : List Char) :
    hexValue (List.replicate k '0' ++ ds) = hexValue ds := by
  induction k with
  | zero => rfl
  | succ k ih => exact ih

theorem hex8_inj {x y : Nat} (h : hex8 x = hex8 y) : x = y := by
  have hlist := congrArg (fun s => hexValue s.toList) h
  simpa only [hex8, String.toList_ofList, hexValue_zeros, hexValue_toDigits] using hlist

theorem length_hex8 {x : Nat} (h : x < 2 ^ 32) : (hex8 x).toList.length = 8 := by
  have hlen : (Nat.toDigits 16 x).length ≤ 8 :=
    (Nat.length_toDigits_le_iff (by decide) (by decide)).mpr h
  simp only [hex8, String.toList_ofList, length_append, length_replicate]
  omega

/-- A name has both halves of the hash. -/
theorem halves_of_linkNetworkName {org a b org' a' b' : String}
    (h : linkNetworkName org a b = linkNetworkName org' a' b') :
    half₁ (linkInput org a b) = half₁ (linkInput org' a' b') ∧
      half₂ (linkInput org a b) = half₂ (linkInput org' a' b') := by
  have hlist := congrArg String.toList h
  simp only [linkNetworkName, fnv64hex, String.toList_append] at hlist
  have hlt₁ (input : List Nat) : half₁ input < 2 ^ 32 := half_lt (by decide) input
  obtain ⟨h₁, h₂⟩ := append_inj (append_cancel_left hlist)
    ((length_hex8 (hlt₁ _)).trans (length_hex8 (hlt₁ _)).symm)
  exact ⟨hex8_inj (String.toList_inj.mp h₁), hex8_inj (String.toList_inj.mp h₂)⟩

end Swarmy.Links
