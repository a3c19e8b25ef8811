import Mathlib
import Swarmy.Codec.Utf8

/-!
# Numbers of 32 bits in bytes

The most significant byte comes first.  A number is read back wherever in a buffer it stands.
-/

namespace BigEndian

/-- `writeUInt32BE` of a number that fits. -/
def uint32 (n : Nat) : List UInt8 :=
  [UInt8.ofNat (n / 0x1000000), UInt8.ofNat (n / 0x10000 % 0x100), UInt8.ofNat (n / 0x100 % 0x100),
    UInt8.ofNat (n % 0x100)]

/-- `buf.readUInt32BE(o)`; it throws where fewer than four bytes are left. -/
def readUInt32 (buf : List UInt8) (o : Nat) : Option Nat :=
  match buf.drop o with
  | a :: b :: c :: d :: _ =>
    some (((a.toNat * 0x100 + b.toNat) * 0x100 + c.toNat) * 0x100 + d.toNat)
  | _ => none

theorem readUInt32_uint32 {n : Nat} (h : n < 2 ^ 32) {pre : List UInt8} {o : Nat}
    (ho : pre.length = o) (r : List UInt8) :
    readUInt32 (pre ++ (uint32 n ++ r)) o = some n := by
  have hbytes : ∀ m, m < 256 → (UInt8.ofNat m).toNat = m := fun m hm => Utf8.toNat_ofNat hm
  subst ho
  rw [readUInt32, List.drop_left, uint32]
  simp only [List.cons_append]
  rw [hbytes _ (by omega), hbytes _ (Nat.mod_lt _ (by decide)), hbytes _ (Nat.mod_lt _ (by decide)),
    hbytes _ (Nat.mod_lt _ (by decide))]
  apply congrArg some
  omega

end BigEndian
