import Proteus.JavaGenerator

namespace Proteus

-- The FNV-1a fold with 32 bits, in exact arithmetic.
namespace Fnv

def offsetBasis : Nat := 2166136261
def prime : Nat := 16777619

def absorb (hash octet : Nat) : Nat := (hash ^^^ octet) * prime % 0x100000000

def fnv1a (octets : List Nat) : Nat := octets.foldl absorb offsetBasis

theorem absorb_exact (hash : JInt) (octet : Nat) (small : octet < 0x100000000) :
    ((hash ^^^ BitVec.ofNat 32 octet) * 16777619#32).toNat = absorb hash.toNat octet := by
  rw [BitVec.toNat_mul,BitVec.toNat_xor,BitVec.toNat_ofNat,Nat.mod_eq_of_lt small]
  rfl

end Fnv

-- A Java char, and a String by its code units.
abbrev JChar := BitVec 16

namespace Hashing

def FNV_32_PRIME : JInt := 0x01000193#32
def FNV_32_SEED : JInt := 0x811c9dc5#32

-- hash(String)
def hashString (value : List JChar) : JInt :=
  value.foldl (fun rv c =>
    let rv := rv ^^^ c.setWidth 32
    rv * FNV_32_PRIME) FNV_32_SEED

end Hashing

namespace AbstractProteusService

-- What reflection finds for the class of a service: the name of its package,
-- and its own name as getName gives it, with the package in front.
structure Class where
  packageName : List JChar
  name : List JChar

def getNamespaceId (c : Class) : JInt := Hashing.hashString c.packageName

def getServiceId (c : Class) : JInt := Hashing.hashString c.name

end AbstractProteusService

namespace FnvHash
open Fnv JavaGenerator Hashing

theorem hashFrom_fnv (hash : JInt) (plain : 0 ∉ word) : (hashFrom hash word).toNat = (word.map UInt8.toNat).foldl absorb hash.toNat := by
  induction word generalizing hash with
  | nil => rfl
  | cons c word ih =>
    obtain ⟨visible,later⟩ := not_or.mp (mt List.mem_cons.mpr plain)
    have small : c.toNat < 0x100000000 := Nat.lt_trans c.toNat_lt (by decide)
    rw [hashFrom,if_neg (Ne.symm visible),ih _ later,List.map_cons,List.foldl_cons,← absorb_exact hash c.toNat small,
      BitVec.xor_comm]
    rfl

theorem Hash_fnv (plain : 0 ∉ word) : (Hash word).toNat = fnv1a (word.map UInt8.toNat) := hashFrom_fnv Seed plain

theorem hashString_fnv (value : List JChar) : (hashString value).toNat = fnv1a (value.map BitVec.toNat) := by
  have folded (rv : JInt) : (value.foldl (fun rv c => (rv ^^^ c.setWidth 32) * FNV_32_PRIME) rv).toNat =
      (value.map BitVec.toNat).foldl absorb rv.toNat := by
    induction value generalizing rv with
    | nil => rfl
    | cons c value ih =>
      have small : c.toNat < 0x100000000 := Nat.lt_trans c.isLt (by decide)
      have widened : c.setWidth 32 = BitVec.ofNat 32 c.toNat := (BitVec.ofNat_toNat 32 c).symm
      rw [List.foldl_cons,ih,List.map_cons,List.foldl_cons,widened,← absorb_exact rv c.toNat small]
      rfl
  exact folded FNV_32_SEED

-- Characters that C++ and Java spell alike: one byte, or one code unit, of the
-- same value.
abbrev Ascii := {code : Nat // 1 ≤ code ∧ code ≤ 127}

def bytes (text : List Ascii) : CString := text.map fun c => UInt8.ofNat c.val

def units (text : List Ascii) : List JChar := text.map fun c => BitVec.ofNat 16 c.val

theorem bytes_codes (text : List Ascii) : (bytes text).map UInt8.toNat = text.map Subtype.val := by
  rw [bytes,List.map_map]
  refine List.map_congr_left fun c _ => ?_
  have high := c.property.2
  exact Nat.mod_eq_of_lt (show c.val < 2 ^ 8 by omega)

theorem units_codes (text : List Ascii) : (units text).map BitVec.toNat = text.map Subtype.val := by
  rw [units,List.map_map]
  refine List.map_congr_left fun c _ => ?_
  have high := c.property.2
  exact Nat.mod_eq_of_lt (show c.val < 2 ^ 16 by omega)

theorem bytes_plain (text : List Ascii) : 0 ∉ bytes text := by
  intro present
  have zero : (0 : UInt8).toNat ∈ (bytes text).map UInt8.toNat := List.mem_map_of_mem present
  rw [bytes_codes] at zero
  obtain ⟨c,_,equal⟩ := List.mem_map.mp zero
  have low := c.property.1
  rw [equal] at low
  exact absurd low (by decide)

theorem bytes_fnv (text : List Ascii) : (Hash (bytes text)).toNat = fnv1a (text.map Subtype.val) := by
  rw [Hash_fnv (bytes_plain text),bytes_codes]

theorem units_fnv (text : List Ascii) : (hashString (units text)).toNat = fnv1a (text.map Subtype.val) := by
  rw [hashString_fnv,units_codes]

theorem units_exact (text : List Ascii) : hashString (units text) = Hash (bytes text) :=
  BitVec.eq_of_toNat_eq ((units_fnv text).trans (bytes_fnv text).symm)

-- A class in the package of a service has the namespace id of the service. Its
-- service id is the hash of its qualified name, not of the service's simple one.
theorem class_ids (package qualified name : List Ascii) (methods : List MethodDescriptor) :
    AbstractProteusService.getNamespaceId ⟨units package,units qualified⟩ = NamespaceId ⟨bytes name,bytes package,methods⟩ ∧
      AbstractProteusService.getServiceId ⟨units package,units qualified⟩ = Hash (bytes qualified) :=
  ⟨units_exact package,units_exact qualified⟩

theorem hashes_agree (text : List Ascii) :
    Hash (bytes text) = hashString (units text) ∧ (Hash (bytes text)).toNat = fnv1a (text.map Subtype.val) :=
  ⟨(units_exact text).symm,bytes_fnv text⟩

end FnvHash
end Proteus
