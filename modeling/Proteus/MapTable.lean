import Proteus.BiInt2ObjectMap
import Proteus.Lib.BackwardShift

namespace Proteus.Table
open Probing
variable {V : Type}

-- The table read as a ring of slots: a stale key under a null value is nothing.
def slots (t : Table V) : Slots JLong V := fun i => (t.value i).map fun v => (t.key i,v)

def home (capacity : Nat) (key : JLong) : Nat := hash (capacity - 1) key

theorem hash_home (capacity : Nat) (key : JLong) : hash (capacity - 1) key = home capacity key := rfl

theorem home_lt (positive : 0 < capacity) (key : JLong) : home capacity key < capacity := by
  have masked := Hashing.hash_le key (BitVec.ofNat 32 (capacity - 1))
  have cut : (BitVec.ofNat 32 (capacity - 1)).toNat ≤ capacity - 1 := by
    rw [BitVec.toNat_ofNat]
    exact Nat.mod_le _ _
  unfold home hash
  omega

theorem advance_next (power : capacity = 2 ^ p) (bound : index < capacity) :
    advance (capacity - 1) index = next capacity index := by
  unfold advance next
  rw [power,Nat.and_two_pow_sub_one_eq_mod,← power]
  split
  · rename_i last; rw [last,Nat.mod_self]
  · rename_i inner; exact Nat.mod_eq_of_lt (by omega)

@[simp] theorem size_setKey (t : Table V) (i : Nat) (k : JLong) : (t.setKey i k).values.size = t.values.size := rfl
@[simp] theorem size_setValue (t : Table V) (i : Nat) (v : Option V) :
    (t.setValue i v).values.size = t.values.size := by simp [setValue]

theorem value_setKey (t : Table V) (i j : Nat) (k : JLong) : (t.setKey i k).value j = t.value j := rfl
theorem key_setValue (t : Table V) (i j : Nat) (v : Option V) : (t.setValue i v).key j = t.key j := rfl

theorem key_setKey (t : Table V) (k : JLong) (bound : i < t.values.size) (j : Nat) :
    (t.setKey i k).key j = if j = i then k else t.key j := by
  have keyBound : i < t.keys.size := t.aligned ▸ bound
  by_cases here : j = i
  · subst j; simp [key,setKey,Array.getD_eq_getD_getElem?,keyBound]
  · simp [key,setKey,Array.getD_eq_getD_getElem?,Array.getElem?_setIfInBounds_ne (Ne.symm here),here]

theorem value_setValue (t : Table V) (v : Option V) (bound : i < t.values.size) (j : Nat) :
    (t.setValue i v).value j = if j = i then v else t.value j := by
  by_cases here : j = i
  · subst j; simp [value,setValue,Array.getD_eq_getD_getElem?,bound]
  · simp [value,setValue,Array.getD_eq_getD_getElem?,Array.getElem?_setIfInBounds_ne (Ne.symm here),here]

theorem slots_write (t : Table V) (k : JLong) (v : V) (bound : i < t.values.size) :
    ((t.setKey i k).setValue i (some v)).slots = Function.update t.slots i (some (k,v)) := by
  funext j
  simp only [slots,key_setValue,value_setValue (t.setKey i k) (some v) bound,key_setKey t k bound,value_setKey]
  by_cases here : j = i
  · subst j; simp
  · simp [here,slots]

theorem slots_replace (t : Table V) (v : V) (bound : i < t.values.size) (held : t.slots i = some (k,old)) :
    (t.setValue i (some v)).slots = Function.update t.slots i (some (k,v)) := by
  funext j
  simp only [slots,key_setValue,value_setValue t (some v) bound]
  by_cases here : j = i
  · subst j
    obtain ⟨_,_,pair⟩ := Option.map_eq_some_iff.mp held
    cases pair
    simp
  · simp [here,slots]

theorem slots_clear (t : Table V) (bound : i < t.values.size) :
    (t.setValue i none).slots = Function.update t.slots i none := by
  funext j
  simp only [slots,key_setValue,value_setValue t none bound]
  by_cases here : j = i
  · subst j; simp
  · simp [here,slots]

theorem value_bound {t : Table V} (held : t.value i = some v) : i < t.values.size := by
  refine Classical.byContradiction fun beyond => ?_
  simp [value,Array.getD_eq_getD_getElem?,beyond] at held

theorem slots_none {t : Table V} : t.slots i = none ↔ t.value i = none := by simp [slots]

theorem slots_some {t : Table V} (held : t.value i = some v) : t.slots i = some (t.key i,v) := by simp [slots,held]

theorem slots_located {t : Table V} {k : JLong} {first : JLong → Nat} (located : Located n first t.slots k i)
    (held : t.value i = some v) : t.slots i = some (k,v) := by
  have there := slots_some held
  have same : t.key i = k := located.ended _ there
  rwa [same] at there

theorem slots_fresh (capacity : Nat) : (fresh capacity : Table V).slots = fun _ => none := by
  funext i
  rw [slots_none]
  by_cases bound : i < capacity <;> simp [fresh,value,Array.getD_eq_getD_getElem?,bound]

-- The loops of the source are walks of the ring.

theorem probe_search (power : capacity = 2 ^ p) (t : Table V) (key : JLong) (fuel index : Nat) (bound : index < capacity) :
    t.probe (capacity - 1) key fuel index =
      search capacity (fun i => decide (t.value i = none ∨ key = t.key i)) fuel index := by
  induction fuel generalizing index with
  | zero => rfl
  | succ fuel ih =>
    unfold probe search
    rw [advance_next power bound,ih _ (next_lt bound)]
    by_cases empty : t.value index = none
    · simp [empty]
    · by_cases found : key = t.key index <;> simp [empty,found]

theorem vacancy_search (power : capacity = 2 ^ p) (t : Table V) (fuel index : Nat) (bound : index < capacity) :
    t.vacancy (capacity - 1) fuel index = search capacity (fun i => decide (t.value i = none)) fuel index := by
  induction fuel generalizing index with
  | zero => rfl
  | succ fuel ih =>
    unfold vacancy search
    rw [advance_next power bound,ih _ (next_lt bound)]
    by_cases empty : t.value index = none <;> simp [empty]

theorem probe_located (power : capacity = 2 ^ p) (t : Table V) (key : JLong)
    (room : (entries capacity t.slots).length < capacity) (enough : capacity ≤ fuel) :
    ∃ i, t.probe (capacity - 1) key fuel (hash (capacity - 1) key) = some i ∧
      Located capacity (home capacity) t.slots key i := by
  have positive : 0 < capacity := by rw [power]; exact Nat.two_pow_pos p
  have start := home_lt positive key
  obtain ⟨goal,goalBound,empty⟩ := vacant_exists room
  obtain ⟨i,found,bound,stops,passed⟩ := search_stops (fun i => decide (t.value i = none ∨ key = t.key i))
    start goalBound (by simpa using Or.inl (slots_none.mp empty)) enough
  refine ⟨i,(probe_search power t key fuel _ start).trans found,bound,?_,?_⟩
  · intro e held
    have stopped : t.value i = none ∨ key = t.key i := by simpa using stops
    obtain ⟨v,value,rfl⟩ := Option.map_eq_some_iff.mp held
    rcases stopped with empty | same
    · rw [empty] at value; cases value
    · exact same.symm
  · intro j below closer
    have walked : ¬ (t.value j = none ∨ key = t.key j) := by simpa using passed j below closer
    obtain ⟨v,value⟩ := Option.ne_none_iff_exists'.mp (not_or.mp walked).1
    exact ⟨_,slots_some value,fun same => (not_or.mp walked).2 same.symm⟩

theorem vacancy_found (power : capacity = 2 ^ p) (t : Table V) (key : JLong)
    (room : (entries capacity t.slots).length < capacity) (enough : capacity ≤ fuel) :
    ∃ i, t.vacancy (capacity - 1) fuel (hash (capacity - 1) key) = some i ∧ i < capacity ∧ t.slots i = none ∧
      ∀ j, j < capacity → distance capacity (home capacity key) j < distance capacity (home capacity key) i →
        t.slots j ≠ none := by
  have positive : 0 < capacity := by rw [power]; exact Nat.two_pow_pos p
  have start := home_lt positive key
  obtain ⟨goal,goalBound,empty⟩ := vacant_exists room
  obtain ⟨i,found,bound,stops,passed⟩ := search_stops (fun i => decide (t.value i = none))
    start goalBound (by simpa using slots_none.mp empty) enough
  refine ⟨i,(vacancy_search power t fuel _ start).trans found,bound,slots_none.mpr (by simpa using stops),?_⟩
  intro j below closer empty
  have walked : ¬ t.value j = none := by simpa using passed j below closer
  exact walked (slots_none.mp empty)

-- The three comparisons of compactChain ask whether the hole lies on the
-- walk from the hash to the entry.
theorem moves_exact (start : h < n) (holeBound : hole < n) (bound : index < n) (apart : hole ≠ index) :
    ((index < h ∧ (h ≤ hole ∨ hole ≤ index)) ∨ (h ≤ hole ∧ hole ≤ index)) ↔
      distance n h hole < distance n h index := by
  unfold distance
  split <;> split <;> omega

theorem compactChain_size (ran : compactChain mask fuel t deleteIndex index = some after) :
    after.values.size = t.values.size := by
  induction fuel generalizing t deleteIndex index with
  | zero => cases ran
  | succ fuel ih =>
    unfold compactChain at ran
    dsimp only at ran
    split at ran
    · cases ran; rfl
    · split at ran
      · simpa using ih ran
      · exact ih ran

theorem compactChain_shift (power : capacity = 2 ^ p) (t : Table V) (fits : t.values.size = capacity) (fuel : Nat)
    (holeBound : deleteIndex < capacity) (bound : index < capacity) (empty : t.value deleteIndex = none) :
    (t.compactChain (capacity - 1) fuel deleteIndex index).map slots =
      shift capacity (home capacity) fuel t.slots deleteIndex index := by
  induction fuel generalizing t deleteIndex index with
  | zero => rfl
  | succ fuel ih =>
    have inside := next_lt bound
    unfold compactChain shift
    rw [advance_next power bound]
    dsimp only
    cases held : t.value (next capacity index) with
    | none => simp [slots_none.mpr held]
    | some v =>
      have apart : deleteIndex ≠ next capacity index := by
        intro same
        rw [← same,empty] at held
        cases held
      have start : home capacity (t.key (next capacity index)) < capacity :=
        home_lt (Nat.lt_of_le_of_lt (Nat.zero_le _) bound) _
      rw [if_neg (by simp),slots_some held]
      dsimp only
      simp only [hash_home,moves_exact start holeBound inside apart]
      have moved : (((t.setKey deleteIndex (t.key (next capacity index))).setValue deleteIndex (some v)).setValue
          (next capacity index) none).slots = move t.slots deleteIndex (next capacity index) (t.key (next capacity index),v) := by
        rw [slots_clear _ (by simpa [fits] using inside),slots_write _ _ _ (by simpa [fits] using holeBound)]
        rfl
      split
      · rw [← moved]
        refine ih _ (by simpa using fits) inside inside ?_
        rw [value_setValue _ _ (by simpa [fits] using inside),if_pos rfl]
      · exact ih t fits holeBound inside empty

-- Emptying an occupied slot of a sound chain and compacting behind it leaves a
-- sound chain of exactly the other entries.
theorem compactChain_repairs (power : capacity = 2 ^ p) (t : Table V) (fits : t.values.size = capacity)
    (chained : Chained capacity (home capacity) t.slots) (room : (entries capacity t.slots).length < capacity)
    (bound : i < capacity) (held : t.slots i = some e) (enough : capacity ≤ fuel) :
    ∃ after, (t.setValue i none).compactChain (capacity - 1) fuel i i = some after ∧ after.values.size = capacity ∧
      Chained capacity (home capacity) after.slots ∧
      (entries capacity after.slots).Perm (entries capacity (Function.update t.slots i none)) := by
  have positive : 0 < capacity := Nat.lt_of_le_of_lt (Nat.zero_le _) bound
  have cleared := slots_clear t (i := i) (by rw [fits]; exact bound)
  obtain ⟨goal,goalBound,empty⟩ := vacant_exists room
  have apart : goal ≠ i := by
    rintro rfl
    rw [empty] at held
    cases held
  have short := distance_lt bound goalBound
  obtain ⟨after,ran,repaired,kept⟩ := shift_repairs (home_lt positive) (gap_opened chained) bound bound goalBound
    (by rw [Function.update_of_ne apart]; exact empty) apart apart.symm (Nat.le_trans (Nat.le_of_lt short) enough)
  have same := compactChain_shift power (t.setValue i none) (by simpa using fits) fuel bound bound
    (slots_none.mp (by rw [cleared]; simp))
  rw [cleared,ran] at same
  obtain ⟨table,compacted,rfl⟩ := Option.map_eq_some_iff.mp same
  exact ⟨table,compacted,by rw [compactChain_size compacted]; simpa using fits,repaired,kept⟩

theorem reinsert_step (power : capacity = 2 ^ p) (old temp : Table V) (fits : temp.values.size = capacity)
    (chained : Chained capacity (home capacity) temp.slots) (room : (entries capacity temp.slots).length < capacity)
    (fresh : ∀ e, old.slots i = some e → ∀ w, (e.1,w) ∉ entries capacity temp.slots) (enough : capacity ≤ fuel) :
    ∃ after, reinsert old (capacity - 1) fuel temp i = some after ∧ after.values.size = capacity ∧
      Chained capacity (home capacity) after.slots ∧
      (entries capacity after.slots).Perm (entries capacity temp.slots ++ (old.slots i).toList) := by
  unfold reinsert
  cases held : old.value i with
  | none => exact ⟨temp,rfl,fits,chained,by simp [slots_none.mpr held]⟩
  | some v =>
    obtain ⟨j,found,bound,empty,passed⟩ := vacancy_found power temp (old.key i) room enough
    have written := slots_write temp (old.key i) v (by rw [fits]; exact bound)
    refine ⟨(temp.setKey j (old.key i)).setValue j (some v),by simp only [found,Option.map_some],by simpa using fits,?_,?_⟩
    · rw [written]
      exact chained_put chained (fresh _ (slots_some held)) passed v
    · rw [written,slots_some held]
      exact (entries_put temp.slots bound empty _).trans (List.perm_append_singleton _ _).symm

-- Rehashing moves every entry, whatever slots the chain had left stale.
theorem reinsertAll_moves (power : capacity = 2 ^ p) (old : Table V)
    (nodup : ((entries old.values.size old.slots).map Prod.fst).Nodup)
    (room : (entries old.values.size old.slots).length < capacity) (enough : capacity ≤ fuel) :
    ∃ after, reinsertAll old capacity fuel = some after ∧ after.values.size = capacity ∧
      Chained capacity (home capacity) after.slots ∧
      (entries capacity after.slots).Perm (entries old.values.size old.slots) := by
  unfold reinsertAll
  generalize old.values.size = n at nodup room ⊢
  induction n with
  | zero =>
    have nothing : entries capacity (fresh capacity : Table V).slots = [] := by
      rw [slots_fresh]
      simp [entries]
    refine ⟨fresh capacity,rfl,by simp [fresh],by rw [slots_fresh]; exact chained_empty _ _,?_⟩
    rw [nothing]
    exact List.Perm.refl []
  | succ n ih =>
    rw [entries_succ] at nodup room
    rw [List.map_append,List.nodup_append] at nodup
    rw [List.length_append] at room
    obtain ⟨temp,ran,fits,chained,moved⟩ := ih nodup.1 (by omega)
    have counted := moved.length_eq
    obtain ⟨after,taken,afterFits,afterChained,afterMoved⟩ := reinsert_step (i := n) power old temp fits chained
      (by omega) (by
        intro e held w present
        have before : (e.1,w) ∈ entries n old.slots := moved.mem_iff.mp present
        refine nodup.2.2 e.1 (List.mem_map.mpr ⟨_,before,rfl⟩) e.1 ?_ rfl
        rw [held]
        simp) enough
    refine ⟨after,?_,afterFits,afterChained,?_⟩
    · rw [List.range_succ,List.foldlM_append,ran]
      simp [taken]
    · rw [entries_succ]
      exact afterMoved.trans (moved.append_right _)

end Proteus.Table
