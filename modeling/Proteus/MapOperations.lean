import Proteus.MapInvariant
import Proteus.MapFuel

namespace Proteus.BiInt2ObjectMap
open Probing Hashing
variable {V : Type} {m : BiInt2ObjectMap V}

-- What no call but compact and a growing put changes.
structure Framed (m next : BiInt2ObjectMap V) : Prop where
  slotted : next.values.size = m.values.size
  factor : next.loadFactor = m.loadFactor
  threshold : next.resizeThreshold = m.resizeThreshold

theorem doubled_room (m : BiInt2ObjectMap V) (fits : m.values.size = 2 ^ p) : m.entries.length < 2 ^ (p + 1) := by
  have length : m.entries.length ≤ m.values.size := entries_length_le m.values.size m.slots
  have positive := Nat.two_pow_pos p
  rw [fits] at length
  rw [Nat.pow_succ]
  omega

theorem increase_run (heap : Heap) (m : BiInt2ObjectMap V) (low : 3 ≤ p) (high : p ≤ 30) (fits : m.values.size = 2 ^ p)
    (nodup : (m.entries.map Prod.fst).Nodup) (enough : 2 ^ 30 ≤ fuel) :
    ∃ ended, increaseCapacity fuel heap m = some ended ∧
      ∀ result next, ended = .ok result next → p < 30 ∧ Rehashed m (2 ^ (p + 1)) next := by
  have cap := capacity_bounds low high
  unfold increaseCapacity
  rw [fits]
  rcases Nat.lt_or_ge p 30 with short | last
  · have doubled := capacity_bounds (p := p + 1) (by omega) (by omega)
    obtain ⟨ended,ran,moved,_⟩ := rehash_run heap m nodup (doubled_room m fits) (doubled.2.trans enough)
    rw [doubled_exact short]
    dsimp only
    rw [if_neg (by omega)]
    exact ⟨ended,ran,fun result next equal => ⟨short,moved result next equal⟩⟩
  · have full : p = 30 := by omega
    subst p
    exact ⟨_,if_pos (by decide),by intro result next equal; cases equal⟩

theorem walk_run (orderly : Orderly m) (a b : JInt) (enough : 2 ^ 30 ≤ fuel) :
    ∃ i, m.probe (m.values.size - 1) (compoundKey a b) fuel (Table.hash (m.values.size - 1) (compoundKey a b)) = some i ∧
      Located m.values.size (Table.home m.values.size) m.slots (compoundKey a b) i ∧
      ∀ w, m.value i = some w ↔ (compoundKey a b,w) ∈ entries m := by
  obtain ⟨p,low,high,fits⟩ := orderly.power
  have cap := capacity_bounds low high
  have counted := orderly.counted
  have room := orderly.room
  obtain ⟨i,found,located⟩ := Table.probe_located fits m.toTable (compoundKey a b)
    (by change (entries m).length < _; omega) (show m.values.size ≤ fuel by omega)
  refine ⟨i,found,located,?_⟩
  have start : Table.home m.values.size (compoundKey a b) < m.values.size := Table.home_lt (by omega) _
  cases held : m.value i with
  | none =>
    have absent := located_absent orderly.chained located start (Table.slots_none.mpr held)
    exact fun w => ⟨fun none => (Option.some_ne_none w none.symm).elim,fun present => absurd present (absent w)⟩
  | some v =>
    have present := located_present orderly.chained located (Table.slots_located located held)
    exact fun w => ⟨fun same => (present w).mpr (Option.some.inj same).symm,
      fun there => congrArg some ((present w).mp there).symm⟩

theorem get_run (orderly : Orderly m) (a b : JInt) (enough : 2 ^ 30 ≤ fuel) :
    ∃ value, get fuel a b m = some value ∧ ∀ w, value = some w ↔ (compoundKey a b,w) ∈ entries m := by
  obtain ⟨i,found,_,holds⟩ := walk_run orderly a b enough
  exact ⟨m.value i,by simp only [get,found,Option.map_some],holds⟩

theorem stored_frame (m : BiInt2ObjectMap V) (i : Nat) (key : JLong) (value : Option V) : Framed m (stored m i key value) := by
  unfold stored
  split <;> exact ⟨by simp,rfl,rfl⟩

theorem stored_slots (located : Located m.values.size home m.slots key i) (v : V) :
    (stored m i key (some v)).slots = Function.update m.slots i (some (key,v)) := by
  unfold stored
  split
  · exact Table.slots_write m.toTable key v located.bound
  · rename_i occupied
    cases held : m.value i with
    | none => simp [held] at occupied
    | some old => exact Table.slots_replace m.toTable v located.bound (Table.slots_located located held)

theorem stored_counted (orderly : Orderly m) (located : Located m.values.size home m.slots key i) (v : V) :
    (stored m i key (some v)).size = ((stored m i key (some v)).entries.length : Int) ∧
      (stored m i key (some v)).size ≤ m.size + 1 := by
  obtain ⟨p,low,high,fits⟩ := orderly.power
  have cap := capacity_bounds low high
  have counted := orderly.counted
  have room := orderly.room
  unfold entries
  rw [(stored_frame m i key (some v)).slotted,stored_slots located v]
  cases held : m.value i with
  | none =>
    have grown := (entries_put m.slots located.bound (Table.slots_none.mpr held) (key,v)).length_eq
    have size : (stored m i key (some v)).size = m.size + 1 := by
      simp only [stored,held,Option.isNone_none,if_true]
      exact int32_exact (by omega) (by omega)
    rw [size,grown,counted]
    exact ⟨rfl,by omega⟩
  | some old =>
    have before := (entries_take m.slots located.bound (Table.slots_located located held)).length_eq
    have after := (entries_take (Function.update m.slots i (some (key,v))) located.bound (Function.update_self ..)).length_eq
    rw [Function.update_idem] at after
    have size : (stored m i key (some v)).size = m.size := by simp [stored,held]
    rw [size,after,counted]
    refine ⟨?_,by omega⟩
    exact congrArg Nat.cast before

theorem stored_chained (orderly : Orderly m) (located : Located m.values.size (Table.home m.values.size) m.slots key i)
    (start : Table.home m.values.size key < m.values.size) (v : V) :
    Chained (stored m i key (some v)).values.size (Table.home (stored m i key (some v)).values.size)
      (stored m i key (some v)).slots := by
  rw [(stored_frame m i key (some v)).slotted,stored_slots located v]
  exact chained_store orderly.chained located start v

theorem stored_members (orderly : Orderly m) (located : Located m.values.size (Table.home m.values.size) m.slots key i)
    (start : Table.home m.values.size key < m.values.size) (v : V) (k : JLong) (w : V) :
    (k,w) ∈ (stored m i key (some v)).entries ↔ k = key ∧ w = v ∨ k ≠ key ∧ (k,w) ∈ entries m := by
  unfold entries
  rw [(stored_frame m i key (some v)).slotted,stored_slots located v]
  exact mem_entries_store orderly.chained located start v

-- What a put that returns has done: stored the value, and left the arrays as
-- they are within the threshold, or doubled them.
structure Put (m : BiInt2ObjectMap V) (key : JLong) (v : V) (old : Option V) (next : BiInt2ObjectMap V) : Prop where
  orderly : Orderly next
  replaced : ∀ w, old = some w ↔ (key,w) ∈ entries m
  members : ∀ k w, (k,w) ∈ entries next ↔ k = key ∧ w = v ∨ k ≠ key ∧ (k,w) ∈ entries m
  factor : next.loadFactor = m.loadFactor
  grown : next.size ≤ m.size + 1
  sized : Framed m next ∧ next.size ≤ m.resizeThreshold ∨
    next.values.size = 2 * m.values.size ∧ next.resizeThreshold = truncate (next.values.size * m.loadFactor.ratio)

theorem put_run (orderly : Orderly m) (tight : m.resizeThreshold < m.values.size) (heap : Heap) (a b : JInt) (v : V)
    (enough : 2 ^ 30 ≤ fuel) :
    ∃ ended, put fuel heap a b (some v) m = some ended ∧ ∀ old next, ended = .ok old next → Put m (compoundKey a b) v old next := by
  obtain ⟨i,found,located,holds⟩ := walk_run orderly a b enough
  obtain ⟨p,low,high,fits⟩ := orderly.power
  have cap := capacity_bounds low high
  have start : Table.home m.values.size (compoundKey a b) < m.values.size := Table.home_lt (by omega) _
  have frame := stored_frame m i (compoundKey a b) (some v)
  have chained := stored_chained orderly located start v
  have members := stored_members orderly located start v
  obtain ⟨counted,grown⟩ := stored_counted orderly located v
  rw [put_stored,found]
  dsimp only
  split
  · obtain ⟨ended,ran,result⟩ := increase_run heap (stored m i (compoundKey a b) (some v)) low high (frame.slotted.trans fits)
      (entries_keys_nodup chained) enough
    refine ⟨_,by rw [ran,Option.map_some],?_⟩
    intro old next equal
    cases ended with
    | error thrown last => cases equal
    | ok _ last =>
      cases equal
      obtain ⟨short,moved⟩ := result _ _ rfl
      have room : m.size + 1 < (2 ^ (p + 1) : Nat) := by
        have before := orderly.room
        rw [Nat.pow_succ]
        omega
      refine ⟨moved.orderly counted (by omega) (by omega) (by omega),holds,?_,moved.factor.trans frame.factor,?_,.inr ⟨?_,?_⟩⟩
      · exact fun k w => moved.entries.mem_iff.trans (members k w)
      · rw [moved.counted]; exact grown
      · rw [moved.slotted,fits,Nat.pow_succ,Nat.mul_comm]
      · rw [moved.threshold,moved.slotted,frame.factor]
  · rename_i within
    refine ⟨_,rfl,?_⟩
    intro old next equal
    cases equal
    have within := not_lt.mp within
    rw [frame.threshold] at within
    refine ⟨⟨⟨p,low,high,frame.slotted.trans fits⟩,chained,counted,?_⟩,holds,members,frame.factor,grown,.inl ⟨frame,within⟩⟩
    rw [frame.slotted]
    omega

theorem Sound.threshold_le (sound : Sound m) : (m.resizeThreshold : ℚ) ≤ m.values.size * m.loadFactor.ratio := by
  rw [sound.threshold]
  exact BiInt2ObjectMap.threshold_le m.loadFactor m.values.size

theorem Sound.capacity_ge (sound : Sound m) : (8 : ℚ) ≤ m.values.size := by
  obtain ⟨p,low,high,fits⟩ := sound.power
  rw [fits]
  exact_mod_cast (capacity_bounds low high).1

theorem Sound.tight (sound : Sound m) : m.resizeThreshold < m.values.size := by
  have below := sound.threshold_le
  have eight := sound.capacity_ge
  have high := m.loadFactor.high
  have strict : (m.resizeThreshold : ℚ) < m.values.size := by nlinarith
  exact_mod_cast strict

theorem put_sound (sound : Sound m) (heap : Heap) (a b : JInt) (v : V) (enough : 2 ^ 30 ≤ fuel) :
    ∃ ended, put fuel heap a b (some v) m = some ended ∧ ∀ old next, ended = .ok old next →
      Sound next ∧ (∀ w, old = some w ↔ (compoundKey a b,w) ∈ entries m) ∧
      ∀ k w, (k,w) ∈ entries next ↔ k = compoundKey a b ∧ w = v ∨ k ≠ compoundKey a b ∧ (k,w) ∈ entries m := by
  obtain ⟨ended,ran,result⟩ := put_run sound.orderly sound.tight heap a b v enough
  refine ⟨ended,ran,?_⟩
  intro old next equal
  obtain ⟨⟨power,chained,counted,room⟩,replaced,members,factor,grown,sized⟩ := result old next equal
  refine ⟨⟨power,chained,counted,room,?_,?_⟩,replaced,members⟩
  · rcases sized with ⟨frame,_⟩ | ⟨_,threshold⟩
    · rw [frame.threshold,frame.slotted,factor]
      exact sound.threshold
    · rw [threshold,factor]
  · rcases sized with ⟨frame,within⟩ | ⟨slotted,_⟩
    · have below := sound.threshold_le
      have size : (next.size : ℚ) ≤ m.resizeThreshold := by exact_mod_cast within
      have product := product_nonnegative m.loadFactor m.values.size
      rw [frame.slotted,factor]
      linarith
    · have before := sound.loaded
      have size : (next.size : ℚ) ≤ m.size + 1 := by exact_mod_cast grown
      have eight := sound.capacity_ge
      have ratio := m.loadFactor.low
      rw [slotted,factor]
      push_cast
      nlinarith

theorem put_roomy (sound : Sound m) (heap : Heap) (a b : JInt) (v : V) (roomy : m.size + 1 ≤ m.resizeThreshold)
    (enough : 2 ^ 30 ≤ fuel) : ∃ old next, put fuel heap a b (some v) m = some (.ok old next) ∧ next.size ≤ m.size + 1 ∧
      next.resizeThreshold = m.resizeThreshold := by
  obtain ⟨i,found,located,_⟩ := walk_run sound.orderly a b enough
  have frame := stored_frame m i (compoundKey a b) (some v)
  obtain ⟨_,grown⟩ := stored_counted sound.orderly located v
  have below : ¬ (stored m i (compoundKey a b) (some v)).size > (stored m i (compoundKey a b) (some v)).resizeThreshold := by
    rw [frame.threshold]
    omega
  rw [put_stored,found]
  dsimp only
  rw [if_neg below]
  exact ⟨_,_,rfl,grown,frame.threshold⟩

theorem remove_run (orderly : Orderly m) (a b : JInt) (enough : 2 ^ 30 ≤ fuel) :
    ∃ value next, remove fuel a b m = some (.ok value next) ∧ Orderly next ∧ Framed m next ∧ next.size ≤ m.size ∧
      (∀ w, value = some w ↔ (compoundKey a b,w) ∈ entries m) ∧
      ∀ k w, (k,w) ∈ entries next ↔ k ≠ compoundKey a b ∧ (k,w) ∈ entries m := by
  obtain ⟨i,found,located,holds⟩ := walk_run orderly a b enough
  obtain ⟨p,low,high,fits⟩ := orderly.power
  have cap := capacity_bounds low high
  have counted := orderly.counted
  have room := orderly.room
  unfold remove
  dsimp only
  rw [found]
  dsimp only
  cases held : m.value i with
  | none =>
    refine ⟨none,m,rfl,orderly,⟨rfl,rfl,rfl⟩,le_refl _,by rw [← held]; exact holds,?_⟩
    intro k w
    refine ⟨fun present => ⟨?_,present⟩,And.right⟩
    rintro rfl
    rw [← holds w,held] at present
    cases present
  | some v =>
    have there := Table.slots_located located held
    obtain ⟨t,ran,size,chained,kept⟩ := Table.compactChain_repairs fits m.toTable rfl orderly.chained
      (by change (entries m).length < _; omega) located.bound there (show m.values.size ≤ fuel by omega)
    have taken := (entries_take m.slots located.bound there).length_eq
    have left := kept.length_eq
    change (entries m).length = _ at taken
    rw [List.length_cons] at taken
    have exact : int32 (m.size - 1) = m.size - 1 := int32_exact (by omega) (by omega)
    refine ⟨some v,{m with toTable := t,size := int32 (m.size - 1)},by rw [ran]; rfl,?_,⟨size,rfl,rfl⟩,?_,
      by rw [← held]; exact holds,?_⟩
    · refine ⟨⟨p,low,high,size.trans fits⟩,by rw [size]; exact chained,?_,?_⟩
      · change int32 (m.size - 1) = ((Probing.entries t.values.size t.slots).length : Int)
        rw [size,exact]
        omega
      · change int32 (m.size - 1) < (t.values.size : Int)
        rw [size,exact]
        omega
    · change int32 (m.size - 1) ≤ m.size
      omega
    · intro k w
      change (k,w) ∈ Probing.entries t.values.size t.slots ↔ _
      rw [size]
      exact kept.mem_iff.trans (mem_entries_clear orderly.chained located.bound there)

theorem remove_sound (sound : Sound m) (a b : JInt) (enough : 2 ^ 30 ≤ fuel) :
    ∃ value next, remove fuel a b m = some (.ok value next) ∧ Sound next ∧
      (∀ w, value = some w ↔ (compoundKey a b,w) ∈ entries m) ∧
      ∀ k w, (k,w) ∈ entries next ↔ k ≠ compoundKey a b ∧ (k,w) ∈ entries m := by
  obtain ⟨value,next,ran,⟨power,chained,counted,room⟩,frame,fewer,holds,members⟩ := remove_run sound.orderly a b enough
  refine ⟨value,next,ran,⟨power,chained,counted,room,?_,?_⟩,holds,members⟩
  · rw [frame.threshold,frame.slotted,frame.factor]
    exact sound.threshold
  · have before := sound.loaded
    have size : (next.size : ℚ) ≤ m.size := by exact_mod_cast fewer
    rw [frame.slotted,frame.factor]
    linarith

theorem rehash_negative (negative : newCapacity < 0) (m : BiInt2ObjectMap V) :
    rehash fuel heap newCapacity m = some (.error (.negativeArraySize newCapacity)
      {m with resizeThreshold := truncate (newCapacity * m.loadFactor.ratio)}) := by
  unfold rehash
  exact if_pos negative

-- The capacity a map of this size is compacted to, before the int cast.
def ideal (m : BiInt2ObjectMap V) : Int := round (m.size * (1 / m.loadFactor.ratio))

def compacted (m : BiInt2ObjectMap V) : Int := findNextPositivePowerOfTwo (max MIN_CAPACITY (int32 m.ideal))

theorem compact_rehash (fuel : Nat) (heap : Heap) (m : BiInt2ObjectMap V) :
    compact fuel heap m = rehash fuel heap m.compacted m := rfl

-- Rounding leaves the ideal capacity within a half of size / loadFactor.
theorem ideal_bounds (m : BiInt2ObjectMap V) : (2 * (m.ideal : ℚ) - 1) * m.loadFactor.ratio ≤ 2 * m.size ∧
    2 * (m.size : ℚ) < (2 * m.ideal + 1) * m.loadFactor.ratio := by
  have positive := ratio_positive m.loadFactor
  have exact : (m.size : ℚ) * (1 / m.loadFactor.ratio) * m.loadFactor.ratio = m.size := by
    rw [mul_assoc,one_div,inv_mul_cancel₀ positive.ne',mul_one]
  have lower : (m.ideal : ℚ) ≤ m.size * (1 / m.loadFactor.ratio) + 1 / 2 := Int.floor_le _
  have upper : (m.size : ℚ) * (1 / m.loadFactor.ratio) + 1 / 2 < m.ideal + 1 := Int.lt_floor_add_one _
  generalize (m.size : ℚ) * (1 / m.loadFactor.ratio) = x at exact lower upper
  constructor
  · nlinarith
  · nlinarith

theorem ideal_le {bound : Int} (below : 2 * (m.size : ℚ) < (2 * bound + 1) * m.loadFactor.ratio) : m.ideal ≤ bound := by
  have positive := ratio_positive m.loadFactor
  have lower := (ideal_bounds m).1
  have strict : (2 * (m.ideal : ℚ) - 1) < 2 * bound + 1 := lt_of_mul_lt_mul_right (lower.trans_lt below) positive.le
  have integral : 2 * m.ideal - 1 < 2 * bound + 1 := by exact_mod_cast strict
  omega

theorem ideal_nonnegative (nonnegative : 0 ≤ m.size) : 0 ≤ m.ideal := by
  have positive := ratio_positive m.loadFactor
  have size : (0 : ℚ) ≤ m.size := by exact_mod_cast nonnegative
  have strict : (0 : ℚ) < 2 * m.ideal + 1 := by
    by_contra below
    nlinarith [(ideal_bounds m).2]
  have integral : 0 < 2 * m.ideal + 1 := by exact_mod_cast strict
  omega

-- An ideal capacity that is an int gives the least power of two from there on,
-- or the negative int beyond the largest one.
theorem compacted_exact (nonnegative : 0 ≤ m.size) (small : m.ideal < 2 ^ 31) :
    m.compacted = -2 ^ 31 ∧ 2 ^ 30 < m.ideal ∨
      ∃ q, 3 ≤ q ∧ q ≤ 30 ∧ m.compacted = (2 ^ q : Nat) ∧ m.ideal ≤ (2 ^ q : Nat) ∧ (2 ^ q : Nat) < 2 * max 8 m.ideal := by
  have lower := ideal_nonnegative nonnegative
  unfold compacted
  rw [int32_exact (by omega) small,show MIN_CAPACITY = 8 from rfl]
  rcases lt_or_ge (2 ^ 30) (max 8 m.ideal) with beyond | within
  · exact .inl ⟨findNext_large _ beyond (by omega),by omega⟩
  · obtain ⟨q,low,high,above,least,found⟩ := findNext_small _ (le_max_left 8 m.ideal) within
    exact .inr ⟨q,low,high,found,(le_max_right _ _).trans above,least⟩

-- A power of two that the ideal capacity does not exceed is one that the least
-- power of two does not exceed.
theorem compacted_le (least : (2 ^ q : Nat) < 2 * max 8 m.ideal) (low : 3 ≤ r) (above : m.ideal ≤ (2 ^ r : Nat)) :
    (2 ^ q : Nat) ≤ 2 ^ r := by
  have minimum : 2 ^ 3 ≤ 2 ^ r := Nat.pow_le_pow_right (by decide) low
  have strict : (2 ^ q : Nat) < 2 ^ (r + 1) := by
    rw [Nat.pow_succ]
    omega
  exact Nat.pow_le_pow_right (by decide) (Nat.lt_succ_iff.mp ((Nat.pow_lt_pow_iff_right (by decide)).mp strict))

-- The rounded ideal capacity leaves room for every entry: below the minimum
-- capacity by the minimum, above it because the load factor is at most 0.9.
theorem ideal_room (size capacity : ℚ) (lf : LoadFactor) (covers : 2 * size < (2 * capacity + 1) * lf.ratio)
    (minimum : 8 ≤ capacity) : size < capacity ∧ 2 * size ≤ 3 * (capacity * lf.ratio) := by
  have high := lf.high
  have positive := ratio_positive lf
  constructor
  · nlinarith
  · nlinarith

theorem covered (q : Nat) (above : m.ideal ≤ (2 ^ q : Nat)) :
    2 * (m.size : ℚ) < (2 * (2 ^ q : Nat) + 1) * m.loadFactor.ratio := by
  have positive := ratio_positive m.loadFactor
  have cast : (m.ideal : ℚ) ≤ (2 ^ q : Nat) := by exact_mod_cast above
  refine (ideal_bounds m).2.trans_le (mul_le_mul_of_nonneg_right ?_ positive.le)
  linarith

theorem Sound.ideal_small (sound : Sound m) : m.ideal < 2 ^ 31 := by
  obtain ⟨p,low,high,fits⟩ := sound.power
  have limit : (m.values.size : ℚ) ≤ 2 ^ 30 := by rw [fits]; exact_mod_cast (capacity_bounds low high).2
  have before := sound.loaded
  have positive := ratio_positive m.loadFactor
  have bounded : m.ideal ≤ 3 * 2 ^ 29 := by
    apply ideal_le
    push_cast
    nlinarith
  omega

theorem compacted_room (low : 3 ≤ q) (high : q ≤ 30) (above : m.ideal ≤ (2 ^ q : Nat)) :
    m.size < (2 ^ q : Nat) ∧ 2 * (m.size : ℚ) ≤ 3 * ((2 ^ q : Nat) * m.loadFactor.ratio) := by
  have minimum : (8 : ℚ) ≤ (2 ^ q : Nat) := by exact_mod_cast (capacity_bounds low high).1
  obtain ⟨room,loaded⟩ := ideal_room m.size (2 ^ q : Nat) m.loadFactor (covered q above) minimum
  exact ⟨by exact_mod_cast room,loaded⟩

-- A compact returns the entries in the least power of two from the ideal
-- capacity on, or throws with the threshold of that power.
theorem compact_run (orderly : Orderly m) (small : m.ideal < 2 ^ 31) (heap : Heap) (enough : 2 ^ 30 ≤ fuel) :
    ∃ ended, compact fuel heap m = some ended ∧
      (∀ result next, ended = .ok result next → ∃ q, 3 ≤ q ∧ q ≤ 30 ∧ m.ideal ≤ (2 ^ q : Nat) ∧
        (2 ^ q : Nat) < 2 * max 8 m.ideal ∧ Rehashed m (2 ^ q) next) ∧
      ∀ thrown next, ended = .error thrown next →
        next = {m with resizeThreshold := truncate (m.compacted * m.loadFactor.ratio)} := by
  have counted := orderly.counted
  rw [compact_rehash]
  rcases compacted_exact (by omega) small with ⟨negative,_⟩ | ⟨q,low,high,found,above,least⟩
  · rw [negative]
    refine ⟨_,rehash_negative (by norm_num) m,(by intro result next equal; cases equal),?_⟩
    intro thrown next equal
    cases equal
    rfl
  · have room := (compacted_room low high above).1
    obtain ⟨ended,ran,moved,failed⟩ := rehash_run (p := q) heap m (entries_nodup orderly) (by omega)
      ((capacity_bounds low high).2.trans enough)
    rw [found,Int.cast_natCast]
    exact ⟨ended,ran,fun result next equal => ⟨q,low,high,above,least,moved result next equal⟩,failed⟩

theorem compact_sound (sound : Sound m) (heap : Heap) (enough : 2 ^ 30 ≤ fuel) :
    ∃ ended, compact fuel heap m = some ended ∧
      ∀ result next, ended = .ok result next → Sound next ∧ next.entries.Perm (entries m) := by
  obtain ⟨ended,ran,moved,_⟩ := compact_run sound.orderly sound.ideal_small heap enough
  refine ⟨ended,ran,?_⟩
  intro result next equal
  obtain ⟨q,low,high,above,_,rehashed⟩ := moved result next equal
  obtain ⟨room,loaded⟩ := compacted_room low high above
  exact ⟨rehashed.sound sound.counted low high room loaded,rehashed.entries⟩

theorem clear_slots (m : BiInt2ObjectMap V) : (clear m).slots = fun _ => none := by
  funext i
  rw [Table.slots_none]
  by_cases bound : i < m.values.size <;> simp [clear,Table.value,Array.getD_eq_getD_getElem?,bound]

theorem clear_run (orderly : Orderly m) : Orderly (clear m) ∧ Framed m (clear m) ∧ (clear m).entries = [] := by
  have size : (clear m).values.size = m.values.size := by simp [clear]
  have nothing := clear_slots m
  have empty : (clear m).entries = [] := by
    unfold entries
    rw [nothing]
    simp [Probing.entries]
  obtain ⟨p,low,high,fits⟩ := orderly.power
  have cap := capacity_bounds low high
  refine ⟨⟨⟨p,low,high,size.trans fits⟩,?_,?_,?_⟩,⟨size,rfl,rfl⟩,empty⟩
  · rw [nothing]; exact chained_empty _ _
  · rw [empty]; rfl
  · rw [size,fits]; change (0 : Int) < _; omega

theorem clear_sound (sound : Sound m) : Sound (clear m) ∧ (clear m).entries = [] := by
  obtain ⟨⟨power,chained,counted,room⟩,frame,empty⟩ := clear_run sound.orderly
  refine ⟨⟨power,chained,counted,room,?_,?_⟩,empty⟩
  · rw [frame.slotted]; exact sound.threshold
  · change 2 * ((0 : Int) : ℚ) ≤ 3 * ((clear m).values.size * m.loadFactor.ratio)
    rw [Int.cast_zero,mul_zero]
    exact mul_nonneg (by norm_num) (product_nonnegative m.loadFactor _)

theorem forEach_entries (m : BiInt2ObjectMap V) : forEach m = m.entries.map Prod.snd := by
  have scan : m.values.toList = (List.range m.values.size).map m.value := by
    apply List.ext_getElem (by simp)
    intro i left right
    have bound : i < m.values.size := by simpa using left
    simp [Table.value,Array.getD_eq_getD_getElem?,bound]
  rw [forEach,scan,List.filterMap_map,entries,Probing.entries,List.map_filterMap]
  congr 1
  funext i
  cases held : m.value i <;> simp [Table.slots,held]

end Proteus.BiInt2ObjectMap
