import Mathlib.Tactic.Common

namespace Proteus

-- Java int and long are 32 and 64 bits of two's complement.
abbrev JInt := BitVec 32
abbrev JLong := BitVec 64

namespace Hashing

def hash (value : JLong) (mask : JInt) : JInt :=
  let product := value * 31#64
  (product.setWidth 32 ^^^ (product >>> 32).setWidth 32) &&& mask

def compoundKey (keyPartA keyPartB : JInt) : JLong :=
  (keyPartA.signExtend 64 <<< 32) ||| (keyPartB.signExtend 64 &&& 0xFFFFFFFF#64)

theorem hash_le (value : JLong) (mask : JInt) : (hash value mask).toNat ≤ mask.toNat := by
  simp only [hash,BitVec.toNat_and]
  exact Nat.and_le_right

theorem lower_mask (i : Nat) : (0xFFFFFFFF#64).getLsbD i = decide (i < 32) := by
  have ones : 0xFFFFFFFF#64 = (BitVec.allOnes 32).setWidth 64 := by decide
  rw [ones,BitVec.getLsbD_setWidth,BitVec.getLsbD_allOnes]
  by_cases low : i < 32
  · simp [low,Nat.lt_trans low (by decide : 32 < 64)]
  · simp [low]

theorem compoundKey_bit (a b : JInt) (i : Nat) (inside : i < 64) :
    (compoundKey a b).getLsbD i = if i < 32 then b.getLsbD i else a.getLsbD (i - 32) := by
  simp only [compoundKey,BitVec.getLsbD_or,BitVec.getLsbD_and,BitVec.getLsbD_shiftLeft,
    BitVec.getLsbD_signExtend,lower_mask]
  by_cases low : i < 32
  · simp [low,inside]
  · have upper : i - 32 < 32 := by omega
    simp [low,inside,upper,Nat.lt_trans upper (by decide : 32 < 64)]

-- The two halves of a compound key give the parts back, negative ones included.
theorem compoundKey_upper (a b : JInt) : (compoundKey a b >>> 32).setWidth 32 = a := by
  apply BitVec.eq_of_getLsbD_eq
  intro i below
  have back : 32 + i - 32 = i := by omega
  rw [BitVec.getLsbD_setWidth,BitVec.getLsbD_ushiftRight,compoundKey_bit a b (32 + i) (by omega),back]
  simp [below]

theorem compoundKey_lower (a b : JInt) : (compoundKey a b).setWidth 32 = b := by
  apply BitVec.eq_of_getLsbD_eq
  intro i below
  rw [BitVec.getLsbD_setWidth,compoundKey_bit a b i (by omega)]
  simp [below]

theorem compoundKey_injective (same : compoundKey a b = compoundKey c d) : a = c ∧ b = d := by
  refine ⟨?_,?_⟩
  · rw [← compoundKey_upper a b,same,compoundKey_upper]
  · rw [← compoundKey_lower a b,same,compoundKey_lower]

def partA (key : JLong) : JInt := (key >>> 32).setWidth 32
def partB (key : JLong) : JInt := key.setWidth 32

theorem compoundKey_parts (key : JLong) : compoundKey (partA key) (partB key) = key := by
  apply BitVec.eq_of_getLsbD_eq
  intro i inside
  rw [compoundKey_bit _ _ i inside]
  simp only [partA,partB,BitVec.getLsbD_setWidth,BitVec.getLsbD_ushiftRight]
  split
  · rename_i low; simp [low]
  · rename_i high
    have upper : i - 32 < 32 := by omega
    have back : 32 + (i - 32) = i := by omega
    simp only [upper,back,decide_true,Bool.true_and]

end Hashing
end Proteus
