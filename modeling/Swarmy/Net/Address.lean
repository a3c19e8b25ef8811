import Mathlib.Tactic.Common
import Mathlib.Data.List.AList
import Mathlib.Data.List.Sort
import Mathlib.Data.List.Dedup
import Mathlib.Data.List.Forall2
import Mathlib.Algebra.BigOperators.Group.List.Basic
import Mathlib.Algebra.GroupWithZero.Nat

/-!
# Internet addresses

Addresses of both versions, blocks of them by a prefix of bits, and the texts that spell
an address: dotted bytes, and groups of hexadecimal digits with a `::`, a dotted tail and
a zone.
-/

namespace Net

open Nat

/-! ## Addresses and blocks -/

/-- An address, by its four bytes or its eight groups of sixteen bits. -/
inductive Addr where
  | v4 (bytes : List Nat)
  | v6 (groups : List Nat)

/-- The number with these digits, the first one highest. -/
def ofDigits (base : Nat) (digits : List Nat) : Nat :=
  digits.foldl (fun n d => n * base + d) 0

/-- The addresses that agree with `net` in the first `bits` bits. -/
structure Block where
  net : List Nat
  bits : Nat
deriving DecidableEq

/-- The parts of an address have `w` bits each. -/
def Block.Has (w : Nat) (k : Block) (parts : List Nat) : Prop :=
  ofDigits (2 ^ w) parts / 2 ^ (w * k.net.length - k.bits) =
    ofDigits (2 ^ w) k.net / 2 ^ (w * k.net.length - k.bits)

instance (w : Nat) (k : Block) (parts : List Nat) : Decidable (k.Has w parts) := by
  unfold Block.Has; infer_instance

section

variable {base w x y : Nat} {l m : List Nat}

theorem ofDigits_cons (base x : Nat) (l : List Nat) :
    ofDigits base (x :: l) = x * base ^ l.length + ofDigits base l := by
  have hfold : ∀ n, l.foldl (fun n d => n * base + d) n =
      n * base ^ l.length + ofDigits base l := by
    induction l with
    | nil => simp [ofDigits]
    | cons d l ih =>
      intro n
      have hd : ofDigits base (d :: l) = d * base ^ l.length + ofDigits base l := by
        rw [ofDigits, List.foldl_cons, zero_mul, zero_add, ih]
      rw [List.foldl_cons, ih, hd, List.length_cons, Nat.pow_succ, Nat.add_mul, Nat.mul_assoc,
        Nat.mul_comm base, Nat.add_assoc]
  rw [ofDigits, List.foldl_cons, zero_mul, zero_add, hfold]

theorem ofDigits_lt (hl : ∀ d ∈ l, d < base) : ofDigits base l < base ^ l.length := by
  induction l with
  | nil => simp [ofDigits]
  | cons d l ih =>
    have hd := hl d List.mem_cons_self
    have hrest := ih fun e he => hl e (List.mem_cons_of_mem _ he)
    rw [ofDigits_cons, List.length_cons, Nat.pow_succ, mul_comm (base ^ l.length)]
    calc d * base ^ l.length + ofDigits base l
        < d * base ^ l.length + base ^ l.length := by omega
      _ = (d + 1) * base ^ l.length := by rw [Nat.add_mul, Nat.one_mul]
      _ ≤ base * base ^ l.length := Nat.mul_le_mul_right _ hd

/-- The high part of a number is its first digit's. -/
theorem ofDigits_div (hl : ∀ d ∈ l, d < base) (q : Nat) :
    ofDigits base (x :: l) / (base ^ l.length * q) = x / q := by
  have hlt := ofDigits_lt hl
  rw [← Nat.div_div_eq_div_mul, ofDigits_cons, add_comm,
    add_mul_div_right _ _ (zero_lt_of_lt hlt), Nat.div_eq_of_lt hlt, zero_add]

theorem ofDigits_concat (base : Nat) (l : List Nat) (x : Nat) :
    ofDigits base (l ++ [x]) = ofDigits base l * base + x := by
  simp [ofDigits]

theorem ofDigits_eq_zero (hbase : 0 < base) (h : ofDigits base l = 0) : ∀ d ∈ l, d = 0 := by
  induction l with
  | nil => exact fun d hd => by cases hd
  | cons x l ih =>
    rw [ofDigits_cons] at h
    obtain ⟨hx, hrest⟩ := Nat.add_eq_zero_iff.mp h
    have hpow : base ^ l.length ≠ 0 := (Nat.pow_pos hbase).ne'
    intro d hd
    rcases List.mem_cons.mp hd with rfl | hd
    · exact (Nat.mul_eq_zero.mp hx).resolve_right hpow
    · exact ih hrest d hd

/-- In a block of a few bits, the first part says it all. -/
theorem Block.has_cons {bits : Nat} (hbits : bits ≤ w) (hlen : l.length = m.length)
    (hl : ∀ d ∈ l, d < 2 ^ w) (hm : ∀ d ∈ m, d < 2 ^ w)
    (h : (Block.mk (y :: m) bits).Has w (x :: l)) :
    x / 2 ^ (w - bits) = y / 2 ^ (w - bits) := by
  have hpow : 2 ^ (w * (y :: m).length - bits) = (2 ^ w) ^ m.length * 2 ^ (w - bits) := by
    rw [List.length_cons, Nat.mul_succ, Nat.add_sub_assoc hbits, Nat.pow_add, Nat.pow_mul]
  simp only [Block.Has, hpow] at h
  rw [ofDigits_div hm, ← hlen, ofDigits_div hl] at h
  exact h

end

/-- The version 4 address in two groups. -/
def bytesOf (hi lo : Nat) : List Nat := [hi / 256, hi % 256, lo / 256, lo % 256]

/-- The version 6 addresses that stand for a version 4 address. -/
inductive Carries : List Nat → List Nat → Prop
  | mapped (hi lo : Nat) : Carries [0, 0, 0, 0, 0, 0xffff, hi, lo] (bytesOf hi lo)
  | compatible (hi lo : Nat) : Carries [0, 0, 0, 0, 0, 0, hi, lo] (bytesOf hi lo)
  | nat64 (hi lo : Nat) : Carries [0x64, 0xff9b, 0, 0, 0, 0, hi, lo] (bytesOf hi lo)
  | sixToFour (hi lo : Nat) (rest : List Nat) : Carries (0x2002 :: hi :: lo :: rest) (bytesOf hi lo)

/-! ## Texts -/

def decDigit (c : Char) : Nat := c.toNat - '0'.toNat

def hexDigit (c : Char) : Nat :=
  if c.isDigit then c.toNat - '0'.toNat
  else if c.isUpper then c.toNat - 'A'.toNat + 10 else c.toNat - 'a'.toNat + 10

def isHexDigit (c : Char) : Bool := c.isDigit || ('a' ≤ c && c ≤ 'f') || ('A' ≤ c && c ≤ 'F')

def decValue (w : List Char) : Nat := ofDigits 10 (w.map decDigit)

def hexValue (w : List Char) : Nat := ofDigits 16 (w.map hexDigit)

/-- A byte in decimal. -/
structure IsByteWord (w : List Char) : Prop where
  digits : ∀ c ∈ w, c.isDigit = true
  pos : 0 < w.length
  short : w.length ≤ 3
  noZero : w.head? = some '0' → w.length = 1
  value : decValue w ≤ 255

/-- A group in hexadecimal. -/
structure IsGroupWord (w : List Char) : Prop where
  digits : ∀ c ∈ w, isHexDigit c = true
  pos : 0 < w.length
  short : w.length ≤ 4

/-- Four bytes. -/
structure Quad where
  words : List (List Char)
  length_eq : words.length = 4
  isByte : ∀ w ∈ words, IsByteWord w

namespace Quad

variable (q : Quad)

def text : List Char := ['.'].intercalate q.words

def bytes : List Nat := q.words.map decValue

/-- The two groups a dotted tail stands for. -/
def groups : List Nat :=
  [q.bytes.getD 0 0 * 256 + q.bytes.getD 1 0, q.bytes.getD 2 0 * 256 + q.bytes.getD 3 0]

end Quad

/-- The parts of a text of a version 6 address: the groups before the `::`, those behind it
where there is one, a dotted tail and a zone. -/
structure Text6 where
  head : List (List Char)
  rest : Option (List (List Char))
  quad : Option Quad
  zone : Option (List Char)

namespace Text6

variable (t : Text6)

/-- Groups, and the dotted tail. -/
def join (words : List (List Char)) (quad : Option Quad) : List Char :=
  [':'].intercalate (words ++ quad.toList.map Quad.text)

def text : List Char :=
  (match t.rest with
    | none => join t.head t.quad
    | some rest => join t.head none ++ ':' :: ':' :: join rest t.quad) ++
  match t.zone with
    | none => []
    | some zone => '%' :: zone

def values (words : List (List Char)) (quad : Option Quad) : List Nat :=
  words.map hexValue ++ (quad.map Quad.groups).getD []

/-- How many groups are written. -/
def known : Nat := (values (t.head ++ t.rest.getD []) t.quad).length

def groups : List Nat :=
  match t.rest with
  | none => values t.head t.quad
  | some rest => values t.head none ++ List.replicate (8 - t.known) 0 ++ values rest t.quad

structure Valid : Prop where
  isGroup : ∀ w ∈ t.head ++ t.rest.getD [], IsGroupWord w
  count : t.rest = none → t.known = 8
  countRest : t.rest ≠ none → t.known ≤ 7

end Text6

/-- The text of an address. -/
inductive Spells : List Char → Addr → Prop
  | v4 (q : Quad) : Spells q.text (.v4 q.bytes)
  | v6 (t : Text6) : t.Valid → Spells t.text (.v6 t.groups)

end Net
