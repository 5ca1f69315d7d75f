import Proteus.MapTable
import Mathlib.Tactic.Linarith
import Mathlib.Tactic.NormNum

namespace Proteus

theorem int32_exact (low : -2 ^ 31 ≤ x) (high : x < 2 ^ 31) : int32 x = x := by
  unfold int32
  omega

theorem truncate_floor (nonnegative : 0 ≤ x) : truncate x = ⌊x⌋ := if_pos nonnegative

theorem le_truncate (nonnegative : 0 ≤ x) (n : Int) : n ≤ truncate x ↔ (n : ℚ) ≤ x := by
  rw [truncate_floor nonnegative]
  exact Int.le_floor

theorem truncate_le (nonnegative : 0 ≤ x) : (truncate x : ℚ) ≤ x := (le_truncate nonnegative _).mp (le_refl _)

theorem truncate_nonpositive (nonpositive : x ≤ 0) : truncate x ≤ 0 := by
  unfold truncate
  split
  · rename_i nonnegative
    rw [le_antisymm nonpositive nonnegative,Int.floor_zero]
  · exact Int.ceil_le.mpr (by exact_mod_cast nonpositive)

namespace BiInt2ObjectMap
open Probing
variable {V : Type}

def entries (m : BiInt2ObjectMap V) : List (JLong × V) := Probing.entries m.values.size m.slots

-- What a walk of the table and a rehash of it need.
structure Orderly (m : BiInt2ObjectMap V) : Prop where
  power : ∃ p, 3 ≤ p ∧ p ≤ 30 ∧ m.values.size = 2 ^ p
  chained : Chained m.values.size (Table.home m.values.size) m.slots
  counted : m.size = m.entries.length
  room : m.size < m.values.size

-- Every state between calls. Growth keeps `room` by one doubling and compact by
-- rounding; `loaded` bounds the ideal capacity of compact, so that its int cast
-- never wraps.
structure Sound (m : BiInt2ObjectMap V) : Prop where
  power : ∃ p, 3 ≤ p ∧ p ≤ 30 ∧ m.values.size = 2 ^ p
  chained : Chained m.values.size (Table.home m.values.size) m.slots
  counted : m.size = m.entries.length
  room : m.size < m.values.size
  threshold : m.resizeThreshold = truncate (m.values.size * m.loadFactor.ratio)
  loaded : 2 * (m.size : ℚ) ≤ 3 * (m.values.size * m.loadFactor.ratio)

theorem Sound.orderly (sound : Sound m) : Orderly m := ⟨sound.power,sound.chained,sound.counted,sound.room⟩

theorem capacity_bounds (low : 3 ≤ p) (high : p ≤ 30) : 8 ≤ 2 ^ p ∧ 2 ^ p ≤ 2 ^ 30 :=
  ⟨Nat.pow_le_pow_right (by decide : 0 < 2) low,Nat.pow_le_pow_right (by decide : 0 < 2) high⟩

theorem zeros_exact {n : Nat} (nonzero : n ≠ 0) (small : n < 2 ^ 31) :
    (32 - numberOfLeadingZeros n) % 32 = n.log2 + 1 := by
  have upper : n.log2 < 31 := (Nat.log2_lt nonzero).mpr small
  have positive : ¬ (n : Int) < 0 := by omega
  have apart : ¬ (n : Int) = 0 := by omega
  rw [numberOfLeadingZeros,if_neg positive,if_neg apart,Int.toNat_natCast]
  omega

-- The least power of two from there on; it may be the one beyond the largest
-- int, which the shift makes negative.
theorem findNext_exact (value : Int) (low : 8 ≤ value) (high : value < 2 ^ 31) :
    ∃ p, 3 ≤ p ∧ p ≤ 31 ∧ value ≤ (2 ^ p : Nat) ∧ (2 ^ p : Nat) < 2 * value ∧
      findNextPositivePowerOfTwo value = int32 (2 ^ p : Nat) := by
  obtain ⟨n,equal⟩ : ∃ n : Nat, value - 1 = n := ⟨(value - 1).toNat,by omega⟩
  have nonzero : n ≠ 0 := by omega
  have lower : 2 ≤ n.log2 := (Nat.le_log2 nonzero).mpr (by omega)
  have upper : n.log2 < 31 := (Nat.log2_lt nonzero).mpr (by omega)
  have above : n < 2 ^ (n.log2 + 1) := Nat.lt_log2_self
  have least : 2 ^ n.log2 ≤ n := (Nat.le_log2 nonzero).mp (Nat.le_refl _)
  refine ⟨n.log2 + 1,by omega,by omega,by omega,?_,?_⟩
  · rw [Nat.pow_succ]
    omega
  · rw [findNextPositivePowerOfTwo,equal,zeros_exact nonzero (by omega)]
    norm_cast

theorem findNext_small (value : Int) (low : 8 ≤ value) (high : value ≤ 2 ^ 30) :
    ∃ p, 3 ≤ p ∧ p ≤ 30 ∧ value ≤ (2 ^ p : Nat) ∧ (2 ^ p : Nat) < 2 * value ∧
      findNextPositivePowerOfTwo value = (2 ^ p : Nat) := by
  obtain ⟨p,lower,upper,above,least,found⟩ := findNext_exact value low (by omega)
  have short : p ≤ 30 := by
    rcases Nat.lt_or_ge 30 p with beyond | within
    · have last : p = 31 := by omega
      subst p
      omega
    · exact within
  have cap := capacity_bounds lower short
  exact ⟨p,lower,short,above,least,found.trans (int32_exact (by omega) (by omega))⟩

theorem findNext_large (value : Int) (low : 2 ^ 30 < value) (high : value < 2 ^ 31) :
    findNextPositivePowerOfTwo value = -2 ^ 31 := by
  obtain ⟨p,_,upper,above,_,found⟩ := findNext_exact value (by omega) high
  rcases Nat.lt_or_ge 30 p with beyond | within
  · have last : p = 31 := by omega
    rw [found,last]
    decide
  · have cap : 2 ^ p ≤ 2 ^ 30 := Nat.pow_le_pow_right (by decide) within
    omega

theorem doubled_exact (high : p < 30) : int32 (((2 ^ p : Nat) : Int) * 2) = ((2 ^ (p + 1) : Nat) : Int) := by
  have bound : 2 ^ (p + 1) ≤ 2 ^ 30 := Nat.pow_le_pow_right (by decide) high
  rw [Nat.pow_succ] at bound ⊢
  rw [int32_exact (by omega) (by omega)]
  omega

theorem ratio_positive (lf : LoadFactor) : 0 < lf.ratio := by have := lf.low; linarith

theorem product_nonnegative (lf : LoadFactor) (capacity : Nat) : 0 ≤ (capacity : ℚ) * lf.ratio :=
  mul_nonneg (Nat.cast_nonneg _) (ratio_positive lf).le

theorem threshold_le (lf : LoadFactor) (capacity : Nat) : (truncate (capacity * lf.ratio) : ℚ) ≤ capacity * lf.ratio :=
  truncate_le (product_nonnegative lf capacity)

theorem fresh_entries (capacity n : Nat) : Probing.entries n (Table.fresh capacity : Table V).slots = [] := by
  rw [Table.slots_fresh]
  simp [Probing.entries]

theorem make_sound (bound : initialCapacity ≤ 2 ^ 30) (made : make heap initialCapacity ratio = .ok m) :
    Sound (m : BiInt2ObjectMap V) ∧ m.entries = [] := by
  obtain ⟨p,low,high,_,_,found⟩ := findNext_small (max MIN_CAPACITY initialCapacity)
    (by unfold MIN_CAPACITY; omega) (by unfold MIN_CAPACITY; omega)
  have cap := capacity_bounds low high
  unfold make at made
  split at made
  · rename_i valid
    dsimp only at made
    rw [found,if_neg (by omega)] at made
    split at made
    · cases made
      have fits : (Table.fresh (2 ^ p) : Table V).values.size = 2 ^ p := by simp [Table.fresh]
      have nothing := fresh_entries (V := V) (2 ^ p) (2 ^ p)
      refine ⟨⟨⟨p,low,high,fits⟩,?_,?_,?_,?_,?_⟩,?_⟩
      · rw [Int.toNat_natCast,Table.slots_fresh]; exact chained_empty _ _
      · rw [entries,Int.toNat_natCast,fresh_entries]; rfl
      · simp only [Int.toNat_natCast,fits]; omega
      · simp only [Int.toNat_natCast,fits,Int.cast_natCast]
      · simp only [Int.toNat_natCast,fits,Int.cast_zero,mul_zero]
        have positive := ratio_positive ⟨ratio,not_lt.mp (not_or.mp valid).1,not_lt.mp (not_or.mp valid).2⟩
        exact mul_nonneg (by norm_num) (mul_nonneg (Nat.cast_nonneg _) positive.le)
      · rw [entries,Int.toNat_natCast,fresh_entries]
    · cases made
  · cases made

theorem make_empty (bound : initialCapacity ≤ 2 ^ 30) (made : make heap initialCapacity ratio = .ok m) :
    (m : BiInt2ObjectMap V).size = 0 := by
  obtain ⟨sound,nothing⟩ := make_sound bound made
  rw [sound.counted,nothing]
  rfl

theorem make_bound (int : initialCapacity < 2 ^ 31) (made : make heap initialCapacity ratio = .ok m) :
    initialCapacity ≤ 2 ^ 30 := by
  by_contra beyond
  have large : max MIN_CAPACITY initialCapacity = initialCapacity := max_eq_right (by unfold MIN_CAPACITY; omega)
  unfold make at made
  split at made
  · dsimp only at made
    rw [large,findNext_large initialCapacity (by omega) int,if_pos (by norm_num)] at made
    cases made
  · cases made

theorem make_succeeds (bound : initialCapacity ≤ 2 ^ 30) (low : 1 / 10 ≤ ratio) (high : ratio ≤ 9 / 10) :
    ∃ m : BiInt2ObjectMap V, make ⟨true,true⟩ initialCapacity ratio = .ok m := by
  obtain ⟨p,_,_,_,_,found⟩ := findNext_small (max MIN_CAPACITY initialCapacity)
    (by unfold MIN_CAPACITY; omega) (by unfold MIN_CAPACITY; omega)
  have nonnegative : ¬ ((2 ^ p : Nat) : Int) < 0 := not_lt.mpr (Int.natCast_nonneg _)
  unfold make
  rw [dif_pos (not_or.mpr ⟨not_lt.mpr low,not_lt.mpr high⟩)]
  dsimp only
  rw [found,if_neg nonnegative]
  exact ⟨_,rfl⟩

theorem makeDefault_fresh (V : Type) :
    ∃ m : BiInt2ObjectMap V, makeDefault ⟨true,true⟩ = .ok m ∧ m.size = 0 ∧ m.resizeThreshold = 4 := by
  have valid : ¬ (DEFAULT_LOAD_FACTOR < 1 / 10 ∨ DEFAULT_LOAD_FACTOR > 9 / 10) := by decide +kernel
  refine ⟨_,(dif_pos valid).trans rfl,rfl,?_⟩
  change truncate (findNextPositivePowerOfTwo (max MIN_CAPACITY MIN_CAPACITY) * DEFAULT_LOAD_FACTOR) = 4
  decide +kernel

theorem entries_nodup (orderly : Orderly m) : ((entries m).map Prod.fst).Nodup := entries_keys_nodup orderly.chained

structure Rehashed (m : BiInt2ObjectMap V) (capacity : Nat) (next : BiInt2ObjectMap V) : Prop where
  slotted : next.values.size = capacity
  chained : Chained capacity (Table.home capacity) next.slots
  entries : next.entries.Perm m.entries
  counted : next.size = m.size
  factor : next.loadFactor = m.loadFactor
  threshold : next.resizeThreshold = truncate (capacity * m.loadFactor.ratio)

-- Rehashing takes distinct keys and room in the new table, whatever chain the
-- old one has. Where it fails the threshold is already the new one.
theorem rehash_run (heap : Heap) (m : BiInt2ObjectMap V) (nodup : (m.entries.map Prod.fst).Nodup)
    (room : m.entries.length < 2 ^ p) (enough : 2 ^ p ≤ fuel) :
    ∃ ended, rehash fuel heap (2 ^ p : Nat) m = some ended ∧
      (∀ result next, ended = .ok result next → Rehashed m (2 ^ p) next) ∧
      ∀ thrown next, ended = .error thrown next →
        next = {m with resizeThreshold := truncate ((2 ^ p : Nat) * m.loadFactor.ratio)} := by
  have nonnegative : ¬ ((2 ^ p : Nat) : Int) < 0 := not_lt.mpr (Int.natCast_nonneg _)
  unfold rehash
  dsimp only
  rw [if_neg nonnegative,Int.cast_natCast]
  split
  · obtain ⟨temp,moved,fits,chained,kept⟩ := Table.reinsertAll_moves rfl m.toTable nodup room enough
    refine ⟨_,by simp only [Int.toNat_natCast,moved,Option.map_some]; rfl,?_,by intro thrown next equal; cases equal⟩
    intro result next equal
    cases equal
    exact ⟨fits,chained,by rw [BiInt2ObjectMap.entries,fits]; exact kept,rfl,rfl,rfl⟩
  · refine ⟨_,rfl,(by intro result next equal; cases equal),?_⟩
    intro thrown next equal
    cases equal
    rfl

theorem Rehashed.orderly {next : BiInt2ObjectMap V} (rehashed : Rehashed m (2 ^ p) next) (counted : m.size = m.entries.length) (low : 3 ≤ p)
    (high : p ≤ 30) (room : m.size < (2 ^ p : Nat)) : Orderly next := by
  refine ⟨⟨p,low,high,rehashed.slotted⟩,?_,?_,?_⟩
  · rw [rehashed.slotted]; exact rehashed.chained
  · rw [rehashed.counted,counted,rehashed.entries.length_eq]
  · rw [rehashed.counted,rehashed.slotted]; exact room

theorem Rehashed.sound {next : BiInt2ObjectMap V} (rehashed : Rehashed m (2 ^ p) next) (counted : m.size = m.entries.length) (low : 3 ≤ p)
    (high : p ≤ 30) (room : m.size < (2 ^ p : Nat))
    (loaded : 2 * (m.size : ℚ) ≤ 3 * ((2 ^ p : Nat) * m.loadFactor.ratio)) : Sound next := by
  obtain ⟨power,chained,same,small⟩ := rehashed.orderly counted low high room
  refine ⟨power,chained,same,small,?_,?_⟩
  · rw [rehashed.threshold,rehashed.slotted,rehashed.factor]
  · rw [rehashed.counted,rehashed.slotted,rehashed.factor]; exact loaded

end BiInt2ObjectMap
end Proteus
