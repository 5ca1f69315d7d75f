import Mathlib.Data.List.Induction
import Mathlib.Tactic.Common
import Mathlib.Tactic.NormNum

namespace Proteus.ByteBuffer

-- Fixed width, most significant byte first; what does not fit is dropped.
def bigEndian : Nat → Nat → List UInt8
  | 0,_ => []
  | width+1,n => bigEndian width (n / 256) ++ [UInt8.ofNat n]

def ofBigEndian (bytes : List UInt8) : Nat := bytes.foldl (fun n byte => n * 256 + byte.toNat) 0

@[simp] theorem bigEndian_length (width n : Nat) : (bigEndian width n).length = width := by
  induction width generalizing n with
  | zero => rfl
  | succ width ih => simp [bigEndian,ih]

theorem ofBigEndian_snoc (bytes : List UInt8) (byte : UInt8) :
    ofBigEndian (bytes ++ [byte]) = ofBigEndian bytes * 256 + byte.toNat := by
  simp [ofBigEndian,List.foldl_append]

theorem ofBigEndian_bigEndian (width n : Nat) : ofBigEndian (bigEndian width n) = n % 256 ^ width := by
  induction width generalizing n with
  | zero => simp [bigEndian,ofBigEndian,Nat.mod_one]
  | succ width ih =>
    have low : (UInt8.ofNat n).toNat = n % 256 := by simp
    rw [bigEndian,ofBigEndian_snoc,ih,low,Nat.pow_succ,Nat.mul_comm (256 ^ width),Nat.mod_mul]
    omega

theorem ofBigEndian_exact (small : n < 256 ^ width) : ofBigEndian (bigEndian width n) = n := by
  rw [ofBigEndian_bigEndian,Nat.mod_eq_of_lt small]

theorem ofBigEndian_lt (bytes : List UInt8) : ofBigEndian bytes < 256 ^ bytes.length := by
  induction bytes using List.reverseRecOn with
  | nil => simp [ofBigEndian]
  | append_singleton bytes byte ih =>
    have digit := byte.toNat_lt
    rw [ofBigEndian_snoc,List.length_append,List.length_singleton,Nat.pow_succ]
    omega

theorem bigEndian_ofBigEndian (bytes : List UInt8) : bigEndian bytes.length (ofBigEndian bytes) = bytes := by
  induction bytes using List.reverseRecOn with
  | nil => rfl
  | append_singleton bytes byte ih =>
    have digit := byte.toNat_lt
    have quotient : (ofBigEndian bytes * 256 + byte.toNat) / 256 = ofBigEndian bytes := by omega
    have last : UInt8.ofNat (ofBigEndian bytes * 256 + byte.toNat) = byte := by
      apply UInt8.toNat_inj.mp
      rw [UInt8.toNat_ofNat']
      omega
    rw [ofBigEndian_snoc,List.length_append,List.length_singleton,bigEndian,quotient,ih,last]

def overwrite (bytes : List UInt8) (index : Nat) (data : List UInt8) : List UInt8 :=
  bytes.take index ++ data ++ bytes.drop (index + data.length)

theorem overwrite_length (fits : index + data.length ≤ bytes.length) :
    (overwrite bytes index data).length = bytes.length := by
  simp only [overwrite,List.length_append,List.length_take,List.length_drop]
  omega

-- A buffer of fixed capacity: all its bytes, and the two indices that bound
-- what was written and not yet read.
structure Buffer where
  bytes : List UInt8
  readerIndex : Nat
  writerIndex : Nat
  ordered : readerIndex ≤ writerIndex
  within : writerIndex ≤ bytes.length

namespace Buffer

def Inside (b : Buffer) (index length : Int) : Prop :=
  0 ≤ index ∧ 0 ≤ length ∧ index + length ≤ b.bytes.length

instance (b : Buffer) (index length : Int) : Decidable (b.Inside index length) :=
  inferInstanceAs (Decidable (_ ∧ _))

def full (bytes : List UInt8) : Buffer := ⟨bytes,0,bytes.length,Nat.zero_le _,Nat.le_refl _⟩

def blank (bytes : List UInt8) : Buffer := ⟨bytes,0,0,Nat.le_refl _,Nat.zero_le _⟩

def readable (b : Buffer) : List UInt8 := (b.bytes.drop b.readerIndex).take (b.writerIndex - b.readerIndex)

def consumed (b : Buffer) : Buffer := {b with readerIndex := b.writerIndex,ordered := Nat.le_refl _}

def write (b : Buffer) (index : Int) (data : List UInt8) : Option Buffer :=
  if inside : b.Inside index data.length then
    some {b with
      bytes := overwrite b.bytes index.toNat data
      within := by
        obtain ⟨low,_,high⟩ := inside
        rw [overwrite_length (by omega)]
        exact b.within}
  else none

def read (b : Buffer) (index length : Int) : Option (List UInt8) :=
  if b.Inside index length then some ((b.bytes.drop index.toNat).take length.toNat) else none

def setWriter (b : Buffer) (index : Int) : Option Buffer :=
  if valid : (b.readerIndex : Int) ≤ index ∧ index ≤ b.bytes.length then
    some {b with writerIndex := index.toNat,ordered := by omega,within := by omega}
  else none

@[simp] theorem readable_full (bytes : List UInt8) : (full bytes).readable = bytes := by simp [readable,full]

theorem readable_length (b : Buffer) : b.readable.length = b.writerIndex - b.readerIndex := by
  have ordered := b.ordered
  have within := b.within
  simp only [readable,List.length_take,List.length_drop]
  omega

theorem read_throws {b : Buffer} : b.read index length = none ↔ ¬ Inside b index length := by simp [read]

theorem write_throws {b : Buffer} : b.write index data = none ↔ ¬ Inside b index data.length := by simp [write]

theorem read_capacity (got : read b index length = some data) : data.length ≤ b.bytes.length := by
  unfold read at got
  split at got
  · cases got
    rw [List.length_take,List.length_drop]
    omega
  · cases got

theorem write_capacity (wrote : write b index data = some c) : c.bytes.length = b.bytes.length := by
  unfold write at wrote
  split at wrote
  · rename_i inside
    obtain ⟨low,_,high⟩ := inside
    cases wrote
    exact overwrite_length (by omega)
  · cases wrote

theorem setWriter_capacity (moved : setWriter b index = some c) : c.bytes.length = b.bytes.length := by
  unfold setWriter at moved
  split at moved
  · cases moved
    rfl
  · cases moved

-- A write right after a prefix extends it and leaves the rest of the capacity,
-- both indices included.
theorem write_extends {b : Buffer} (data : List UInt8) (parts : b.bytes = before ++ rest) (fits : data.length ≤ rest.length) :
    ∃ c, b.write before.length data = some c ∧ c.bytes = before ++ data ++ rest.drop data.length ∧
      c.readerIndex = b.readerIndex ∧ c.writerIndex = b.writerIndex := by
  have size := congrArg List.length parts
  simp only [List.length_append] at size
  have inside : b.Inside before.length data.length := ⟨by omega,by omega,by omega⟩
  refine ⟨_,dif_pos inside,?_,rfl,rfl⟩
  simp only [overwrite,parts,Int.toNat_natCast]
  rw [List.take_left,← List.drop_drop,List.drop_left]

theorem setWriter_moves {b : Buffer} {index : Nat} (low : b.readerIndex ≤ index) (high : index ≤ b.bytes.length) :
    ∃ c, b.setWriter index = some c ∧ c.bytes = b.bytes ∧ c.readerIndex = b.readerIndex ∧ c.writerIndex = index :=
  ⟨_,dif_pos ⟨by omega,by omega⟩,rfl,rfl,Int.toNat_natCast index⟩

end Buffer
end Proteus.ByteBuffer
