import Mathlib.Data.Nat.Notation
import Mathlib.Tactic.Common

/-! # Cyclic redundancy checks

A checksum of `w` bits that is shifted to the left: a bit that falls out at the top adds the
polynomial (`bitStep`), a byte enters at the top and is followed by eight steps (`byteStep`).
The steps are linear, so a byte can be looked up in a table of 256 entries (`byteStep_table`). -/

namespace Crc

variable {w : ℕ} (poly : BitVec w)

def bitStep (c : BitVec w) : BitVec w := if c.msb then (c <<< 1) ^^^ poly else c <<< 1

/-- Some steps, one after the other. -/
def bits : ℕ → BitVec w → BitVec w
  | 0, c => c
  | n + 1, c => bits n (bitStep poly c)

def byteStep (c : BitVec w) (b : BitVec 8) : BitVec w := bits poly 8 (c ^^^ (b.setWidth w <<< (w - 8)))

theorem bitStep_xor (x y : BitVec w) : bitStep poly (x ^^^ y) = bitStep poly x ^^^ bitStep poly y := by
  have hshift : (x ^^^ y) <<< 1 = x <<< 1 ^^^ y <<< 1 := BitVec.shiftLeft_xor_distrib x y 1
  unfold bitStep
  rw [BitVec.msb_xor, hshift]
  cases x.msb with
  | false =>
      cases y.msb with
      | false => rfl
      | true => simp [BitVec.xor_assoc]
  | true =>
      cases y.msb with
      | false =>
          simp only [Bool.bne_false, if_true, Bool.false_eq_true, if_false]
          rw [BitVec.xor_assoc, BitVec.xor_comm (y <<< 1) poly, ← BitVec.xor_assoc]
      | true =>
          simp only [bne_self_eq_false, Bool.false_eq_true, if_false, if_true]
          rw [BitVec.xor_assoc, ← BitVec.xor_assoc poly, BitVec.xor_comm poly, BitVec.xor_assoc (y <<< 1),
            BitVec.xor_self, BitVec.xor_zero]

theorem bits_xor : ∀ (n : ℕ) (x y : BitVec w), bits poly n (x ^^^ y) = bits poly n x ^^^ bits poly n y
  | 0, _, _ => rfl
  | n + 1, x, y => by
      rw [bits, bitStep_xor, bits_xor n]
      rfl

/-- Nothing is added while zeros fall out. -/
theorem bits_of_low : ∀ (n : ℕ) {x : BitVec w}, (∀ i < n, x.getMsbD i = false) → bits poly n x = x <<< n
  | 0, x, _ => (BitVec.shiftLeft_zero x).symm
  | n + 1, x, h => by
      have htop : x.msb = false := h 0 (Nat.succ_pos n)
      have hstep : bitStep poly x = x <<< 1 := by
        rw [bitStep, htop]
        rfl
      rw [bits, hstep, bits_of_low n, ← BitVec.shiftLeft_add, Nat.add_comm]
      intro i hi
      rw [BitVec.getMsbD_shiftLeft]
      exact h (i + 1) (Nat.succ_lt_succ hi)

/-- The part of a checksum that stays in it for the next eight steps. -/
theorem split_top (hw : 8 ≤ w) (c : BitVec w) (b : BitVec 8) :
    c ^^^ (b.setWidth w <<< (w - 8)) =
      ((c <<< 8) >>> 8) ^^^ (((c >>> (w - 8)).setWidth 8 ^^^ b).setWidth w <<< (w - 8)) := by
  apply BitVec.eq_of_getLsbD_eq
  intro i hi
  simp only [BitVec.getLsbD_xor, BitVec.getLsbD_shiftLeft, BitVec.getLsbD_ushiftRight, BitVec.getLsbD_setWidth]
  by_cases hlow : i < w - 8
  · simp [hlow, hi, show 8 + i < w by omega, show ¬ 8 + i < 8 by omega]
  · simp [hlow, hi, show ¬ 8 + i < w by omega, show i - (w - 8) < w by omega, show i - (w - 8) < 8 by omega,
      show w - 8 + (i - (w - 8)) = i by omega]

/-- The table has the checksums of the single bytes. -/
theorem byteStep_table (hw : 8 ≤ w) (c : BitVec w) (b : BitVec 8) :
    byteStep poly c b = (c <<< 8) ^^^ byteStep poly 0#w ((c >>> (w - 8)).setWidth 8 ^^^ b) := by
  have hlow : bits poly 8 ((c <<< 8) >>> 8) = c <<< 8 := by
    rw [bits_of_low]
    · apply BitVec.eq_of_getLsbD_eq
      intro i hi
      simp only [BitVec.getLsbD_shiftLeft, BitVec.getLsbD_ushiftRight]
      by_cases h8 : i < 8
      · simp [h8]
      · simp [h8, hi, show 8 + (i - 8) = i by omega]
    · intro i hi
      rw [BitVec.getMsbD_ushiftRight]
      simp [hi]
  have hzero : byteStep poly 0#w ((c >>> (w - 8)).setWidth 8 ^^^ b) =
      bits poly 8 (((c >>> (w - 8)).setWidth 8 ^^^ b).setWidth w <<< (w - 8)) := by
    rw [byteStep, BitVec.zero_xor]
  rw [byteStep, split_top hw, bits_xor, hlow, hzero]

end Crc
