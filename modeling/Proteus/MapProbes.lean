import Proteus.MapOccupancy

namespace Proteus.Table
open Hashing Probing
variable {V : Type}

theorem probe_short (power : capacity = 2 ^ p) (t : Table V) (key : JLong) (room : (entries capacity t.slots).length < capacity) :
    ∃ i, t.probe (capacity - 1) key ((entries capacity t.slots).length + 1) (hash (capacity - 1) key) = some i := by
  have start := home_lt (show 0 < capacity by omega) key
  obtain ⟨goal,goalBound,empty⟩ := vacant_exists room
  obtain ⟨i,found,_⟩ := search_short t.slots (fun i => decide (t.value i = none ∨ key = t.key i)) start goalBound
    (by simpa using Or.inl (slots_none.mp empty)) (by
      intro j _ walked empty
      exact absurd walked (by simp [slots_none.mp empty]))
  exact ⟨i,(probe_search power t key _ _ start).trans found⟩

-- The scan behind an emptied slot meets every other entry once at most.
theorem compactChain_short (power : capacity = 2 ^ p) (t : Table V) (fits : t.values.size = capacity)
    (chained : Chained capacity (home capacity) t.slots) (room : (entries capacity t.slots).length < capacity)
    (bound : i < capacity) (held : t.slots i = some e) :
    ∃ after, (t.setValue i none).compactChain (capacity - 1) ((entries capacity t.slots).length + 1) i i = some after := by
  have positive : 0 < capacity := Nat.lt_of_le_of_lt (Nat.zero_le _) bound
  have cleared := slots_clear t (i := i) (by rw [fits]; exact bound)
  obtain ⟨vacant,vacantBound,free⟩ := vacant_exists room
  obtain ⟨goal,_,goalBound,stops,short⟩ := search_short t.slots (fun j => (t.slots j).isNone) bound vacantBound
    (by rw [free]; rfl) (by
      intro j _ walked empty
      rw [empty] at walked
      cases walked)
  have empty : t.slots goal = none := Option.isNone_iff_eq_none.mp stops
  have apart : goal ≠ i := by
    rintro rfl
    rw [empty] at held
    cases held
  obtain ⟨after,ran,_⟩ := shift_repairs (home_lt positive) (gap_opened chained) bound bound goalBound
    (by rw [Function.update_of_ne apart]; exact empty) apart apart.symm (Nat.le_succ_of_le short)
  have same := compactChain_shift power (t.setValue i none) (by simpa using fits) ((entries capacity t.slots).length + 1)
    bound bound (slots_none.mp (by rw [cleared]; simp))
  rw [cleared,ran] at same
  obtain ⟨table,compacted,_⟩ := Option.map_eq_some_iff.mp same
  exact ⟨table,compacted⟩

end Proteus.Table

namespace Proteus.BiInt2ObjectMap
open Hashing Execution
variable {V : Type}

-- The size after a put of a value over what get finds.
def sizeAfter (m : BiInt2ObjectMap V) (old : Option V) : Int := if old.isNone then m.size + 1 else m.size

-- Every loop over the slots ends after at most one round more than there are
-- entries, however large the table is; a put that rehashes is left out.
structure Brief (m : BiInt2ObjectMap V) : Prop where
  gets : ∀ a b, ∃ value, get (m.size.toNat + 1) a b m = some value
  removes : ∀ a b, ∃ ended, remove (m.size.toNat + 1) a b m = some ended
  puts : ∀ heap a b v old, get (m.size.toNat + 1) a b m = some old → sizeAfter m old ≤ m.resizeThreshold →
    ∃ ended, put (m.size.toNat + 1) heap a b (some v) m = some ended

theorem stored_sized (orderly : Orderly m) (located : Probing.Located m.values.size (Table.home m.values.size) m.slots key i) (v : V) :
    (stored m i key (some v)).size ≤ sizeAfter m (m.value i) := by
  obtain ⟨_,grown⟩ := stored_counted orderly located v
  unfold sizeAfter
  split
  · exact grown
  · rename_i held
    rw [stored,if_neg held]

theorem brief (orderly : Orderly m) : Brief m := by
  obtain ⟨p,low,high,fits⟩ := orderly.power
  have counted := orderly.counted
  have room := orderly.room
  have rounds : m.size.toNat = (Probing.entries m.values.size m.slots).length := by
    change _ = m.entries.length
    omega
  have free : (Probing.entries m.values.size m.slots).length < m.values.size := by omega
  have walks (a b : JInt) := Table.probe_short fits m.toTable (compoundKey a b) free
  refine ⟨?_,?_,?_⟩
  · intro a b
    obtain ⟨i,found⟩ := walks a b
    exact ⟨m.value i,by rw [rounds]; simp only [get,found,Option.map_some]⟩
  · intro a b
    obtain ⟨i,found⟩ := walks a b
    rw [rounds]
    unfold remove
    dsimp only
    rw [found]
    dsimp only
    cases held : m.value i with
    | none => exact ⟨_,rfl⟩
    | some v =>
      obtain ⟨t,ran⟩ := Table.compactChain_short fits m.toTable rfl orderly.chained free (Table.value_bound held)
        (Table.slots_some held)
      exact ⟨_,by rw [ran]; rfl⟩
  · intro heap a b v old got roomy
    obtain ⟨i,found⟩ := walks a b
    rw [rounds] at got
    simp only [get,found,Option.map_some,Option.some.injEq] at got
    obtain ⟨j,walked,located,_⟩ := walk_run orderly a b (Nat.le_max_right (m.size.toNat + 1) (2 ^ 30))
    rw [← rounds] at found
    cases (Table.probe_more found (Nat.le_max_left (m.size.toNat + 1) (2 ^ 30))).symm.trans walked
    have frame := stored_frame m i (compoundKey a b) (some v)
    have below : (stored m i (compoundKey a b) (some v)).size ≤ (stored m i (compoundKey a b) (some v)).resizeThreshold := by
      rw [← got] at roomy
      rw [frame.threshold]
      exact (stored_sized orderly located v).trans roomy
    rw [put_stored,found]
    dsimp only
    rw [if_neg (not_lt.mpr below)]
    exact ⟨_,rfl⟩

theorem lookups_brief (V : Type) (bound : initialCapacity ≤ 2 ^ 30) (low : 1 / 10 ≤ ratio) (high : ratio ≤ 9 / 10) :
    ∃ start : BiInt2ObjectMap V, make ⟨true,true⟩ initialCapacity ratio = .ok start ∧
      ∀ trace m, Runs Attempt start trace m → (∀ event ∈ trace, event.1.NonNull ∧ PutsReturn event) → Brief m := by
  obtain ⟨start,made⟩ := make_succeeds (V := V) bound low high
  refine ⟨start,made,?_⟩
  intro trace m path admitted
  exact brief (runs_spared (make_spared bound made) path admitted).orderly

theorem lookups_brief_default : ∃ start : BiInt2ObjectMap Nat, make ⟨true,true⟩ MIN_CAPACITY DEFAULT_LOAD_FACTOR = .ok start ∧
    ∀ trace m, Runs Attempt start trace m → (∀ event ∈ trace, event.1.NonNull ∧ PutsReturn event) → Brief m :=
  lookups_brief Nat (by norm_num [MIN_CAPACITY]) (by norm_num [DEFAULT_LOAD_FACTOR]) (by norm_num [DEFAULT_LOAD_FACTOR])

end Proteus.BiInt2ObjectMap
