import Proteus.MapOperations

namespace Proteus

theorem Table.probe_stops {t : Table V} (found : t.probe mask k fuel index = some i) : t.value i = none ∨ k = t.key i := by
  induction fuel generalizing index with
  | zero => cases found
  | succ fuel ih =>
    unfold probe at found
    split at found
    · rename_i empty
      cases found
      exact .inl empty
    · split at found
      · rename_i same
        cases found
        exact .inr same
      · exact ih found

theorem Table.probe_rewritten {t : Table V} (held : t.value i = some w) (same : k = t.key i) (value : Option V)
    (found : t.probe mask k fuel index = some i) : (t.setValue i value).probe mask k fuel index = some i := by
  have bound := value_bound held
  induction fuel generalizing index with
  | zero => cases found
  | succ fuel ih =>
    unfold probe at found ⊢
    rw [value_setValue t value bound,key_setValue]
    by_cases here : index = i
    · subst here
      rw [if_pos rfl,if_pos same,ite_self]
    · rw [if_neg here]
      split
      · rename_i empty
        rw [if_pos empty] at found
        exact found
      · rename_i occupied
        rw [if_neg occupied] at found
        split
        · rename_i equal
          rw [if_pos equal] at found
          exact found
        · rename_i other
          rw [if_neg other] at found
          exact ih found

namespace BiInt2ObjectMap
open Hashing Execution
variable {V : Type} {m : BiInt2ObjectMap V}

-- A call that threw and left nothing behind: the bindings and the three numbers
-- are as they were, and so is the ending of every later call.
structure Unchanged (m next : BiInt2ObjectMap V) : Prop where
  bindings : ∀ heap a b value, Ends heap next (.get a b) (.ok (.value value) next) ↔ Ends heap m (.get a b) (.ok (.value value) m)
  size : next.size = m.size
  capacity : next.capacity = m.capacity
  threshold : next.resizeThreshold = m.resizeThreshold
  later : ∀ heap (call : Call V) ended, Ends heap next call ended ↔ Ends heap m call ended

theorem unchanged_refl (m : BiInt2ObjectMap V) : Unchanged m m :=
  ⟨fun _ _ _ _ => Iff.rfl,rfl,rfl,rfl,fun _ _ _ => Iff.rfl⟩

-- A put stores what is bound already, and the arrays are at the maximum or the
-- threshold is that of the doubled ones; a compact finds the threshold of the
-- power of two that the size asks for.
def Harmless (m : BiInt2ObjectMap V) : Call V → Prop
  | .put a b value => (∃ v fuel, value = some v ∧ get fuel a b m = some (some v)) ∧
      (int32 (m.values.size * 2) < 0 ∨ m.resizeThreshold = truncate (int32 (m.values.size * 2) * m.loadFactor.ratio))
  | .compact => m.resizeThreshold = truncate (m.compacted * m.loadFactor.ratio)
  | _ => True

theorem rehash_throws (threw : rehash fuel heap newCapacity m = some (.error thrown next)) :
    next = {m with resizeThreshold := truncate (newCapacity * m.loadFactor.ratio)} := by
  unfold rehash at threw
  dsimp only at threw
  split at threw
  · cases threw
    rfl
  · split at threw
    · obtain ⟨temp,_,equal⟩ := Option.map_eq_some_iff.mp threw
      cases equal
    · cases threw
      rfl

theorem increase_throws (threw : increaseCapacity fuel heap m = some (.error thrown next)) :
    int32 (m.values.size * 2) < 0 ∧ next = m ∨ ¬ int32 (m.values.size * 2) < 0 ∧
      next = {m with resizeThreshold := truncate (int32 (m.values.size * 2) * m.loadFactor.ratio)} := by
  unfold increaseCapacity at threw
  dsimp only at threw
  split at threw
  · rename_i full
    cases threw
    exact .inl ⟨full,rfl⟩
  · rename_i room
    exact .inr ⟨room,rehash_throws threw⟩

theorem stored_same (held : m.value i = some v) (key : JLong) : stored m i key (some v) = m := by
  have same : m.values.setIfInBounds i (some v) = m.values := by
    refine Array.ext (by simp) fun j left right => ?_
    by_cases here : i = j
    · subst here
      have read : m.values[i] = some v := by
        rw [← held,Table.value,Array.getD_eq_getD_getElem?,Array.getElem?_eq_getElem right,Option.getD_some]
      rw [Array.getElem_setIfInBounds_self,read]
    · rw [Array.getElem_setIfInBounds_ne right here]
  simp [stored,held,Table.setValue,same]

theorem stored_size (m : BiInt2ObjectMap V) (i : Nat) (key : JLong) (value : Option V) :
    (stored m i key value).size = if m.value i = none then int32 (m.size + 1) else m.size := by
  unfold stored
  cases m.value i <;> rfl

-- Where a put threw: at which slot it had stored its value, and what became of
-- the threshold.
theorem put_throws (threw : put fuel heap a b value m = some (.error thrown next)) :
    ∃ i, m.probe (m.values.size - 1) (compoundKey a b) fuel (Table.hash (m.values.size - 1) (compoundKey a b)) = some i ∧
      (int32 (m.values.size * 2) < 0 ∧ next = stored m i (compoundKey a b) value ∨ ¬ int32 (m.values.size * 2) < 0 ∧
        next = {stored m i (compoundKey a b) value with
          resizeThreshold := truncate (int32 (m.values.size * 2) * m.loadFactor.ratio)}) := by
  rw [put_stored] at threw
  split at threw
  · cases threw
  · rename_i i found
    refine ⟨i,found,?_⟩
    split at threw
    · obtain ⟨ended,grown,equal⟩ := Option.map_eq_some_iff.mp threw
      cases ended with
      | ok result last => cases equal
      | error other last =>
        cases equal
        have frame := stored_frame m i (compoundKey a b) value
        simpa only [frame.slotted,frame.factor] using increase_throws grown
    · cases threw

-- Over a key that was bound, what was stored is what get finds.
theorem stored_got {next : BiInt2ObjectMap V} (held : m.value i = some w) (found : m.probe (m.values.size - 1) (compoundKey a b) fuel
      (Table.hash (m.values.size - 1) (compoundKey a b)) = some i)
    (table : next.toTable = (stored m i (compoundKey a b) value).toTable) : get fuel a b next = some value := by
  have written : next.toTable = m.setValue i value := by
    rw [table]
    simp [stored,held]
  have bound := Table.value_bound held
  have same : compoundKey a b = m.key i := by
    rcases Table.probe_stops found with empty | same
    · rw [held] at empty
      cases empty
    · exact same
  unfold get
  dsimp only
  rw [written,Table.size_setValue,Table.probe_rewritten held same value found,Option.map_some,Table.value_setValue _ _ bound,if_pos rfl]

theorem put_unchanged_iff (threw : put fuel heap a b value m = some (.error thrown next)) :
    Unchanged m next ↔ Harmless m (.put a b value) := by
  obtain ⟨i,found,left⟩ := put_throws threw
  have got : get fuel a b m = some (m.value i) := by simp only [get,found,Option.map_some]
  constructor
  · intro unchanged
    have table : next.toTable = (stored m i (compoundKey a b) value).toTable := by
      rcases left with ⟨_,rfl⟩ | ⟨_,rfl⟩ <;> rfl
    have size : (stored m i (compoundKey a b) value).size = m.size := by
      rw [← unchanged.size]
      rcases left with ⟨_,rfl⟩ | ⟨_,rfl⟩ <;> rfl
    cases held : m.value i with
    | none =>
      -- A new key is counted whatever becomes of it.
      rw [stored_size,if_pos held,int32] at size
      omega
    | some w =>
      rw [held] at got
      obtain ⟨other,again⟩ := get_ended ((unchanged.bindings ⟨true,true⟩ a b (some w)).mpr (ended_get got _))
      have same : value = some w := get_unique (stored_got held found table) again
      refine ⟨⟨w,fuel,same,got⟩,?_⟩
      rcases left with ⟨full,_⟩ | ⟨_,rfl⟩
      · exact .inl full
      · exact .inr unchanged.threshold.symm
  · rintro ⟨⟨v,other,rfl,bound⟩,settled⟩
    have held : m.value i = some v := get_unique got bound
    rw [stored_same held] at left
    rcases left with ⟨_,same⟩ | ⟨room,same⟩
    · rw [same]
      exact unchanged_refl m
    · rcases settled with full | settled
      · exact absurd full room
      · rw [same,← settled]
        exact unchanged_refl m

theorem compact_unchanged_iff (threw : compact fuel heap m = some (.error thrown next)) :
    Unchanged m next ↔ Harmless m .compact := by
  rw [compact_rehash] at threw
  have left := rehash_throws threw
  constructor
  · intro unchanged
    have same := unchanged.threshold
    rw [left] at same
    exact same.symm
  · intro settled
    have same : m.resizeThreshold = truncate (m.compacted * m.loadFactor.ratio) := settled
    rw [left,← same]
    exact unchanged_refl m

def Call.Updates : Call V → Prop
  | .put .. => True
  | .compact => True
  | _ => False

-- In any state, what a put or compact that throws leaves behind.
theorem failure_unchanged_iff (call : Call V) (updates : call.Updates) (threw : Ends heap m call (.error thrown next)) :
    Unchanged m next ↔ Harmless m call := by
  obtain ⟨fuel,ran⟩ := threw
  cases call with
  | put a b value =>
    obtain ⟨ended,stored,equal⟩ := Option.map_eq_some_iff.mp ran
    cases ended with
    | ok old last => cases equal
    | error other last =>
      cases equal
      exact put_unchanged_iff stored
  | compact =>
    unfold exec at ran
    obtain ⟨ended,compacted,equal⟩ := Option.map_eq_some_iff.mp ran
    cases ended with
    | ok old last => cases equal
    | error other last =>
      cases equal
      exact compact_unchanged_iff compacted
  | get a b => cases updates
  | remove a b => cases updates
  | computeIfAbsent a b f => cases updates
  | clear => cases updates
  | size => cases updates
  | isEmpty => cases updates
  | forEach => cases updates

theorem first_put_fails : ∃ start next : BiInt2ObjectMap Nat, make ⟨true,true⟩ 8 (1 / 10) = .ok start ∧
    Ends ⟨false,false⟩ start (.put 0 0 (some 7)) (.error .outOfMemory next) ∧ start.size = 0 ∧ next.size = 1 := by
  have ran : ((make ⟨true,true⟩ 8 (1 / 10)).toOption.bind fun start : BiInt2ObjectMap Nat =>
      ((exec 8 ⟨false,false⟩ start (.put 0 0 (some 7))).bind Ended.threw).map fun left =>
        (left.1,start.size,left.2.size)) = some (.outOfMemory,0,1) := by decide +kernel
  obtain ⟨start,built,rest⟩ := Option.bind_eq_some_iff.mp ran
  obtain ⟨⟨thrown,next⟩,threw,sizes⟩ := Option.map_eq_some_iff.mp rest
  obtain ⟨memory,counts⟩ := Prod.mk.inj sizes
  obtain ⟨zero,one⟩ := Prod.mk.inj counts
  have same : thrown = .outOfMemory := memory
  rw [same] at threw
  exact ⟨start,next,toOption_ok built,exec_threw threw,zero,one⟩

theorem failure_unchanged_iff_first : ∃ start next : BiInt2ObjectMap Nat,
    Ends ⟨false,false⟩ start (.put 0 0 (some 7)) (.error .outOfMemory next) ∧
      (Unchanged start next ↔ Harmless start (.put 0 0 (some 7))) := by
  obtain ⟨start,next,_,threw,_⟩ := first_put_fails
  exact ⟨start,next,threw,failure_unchanged_iff (.put 0 0 (some 7)) trivial threw⟩

theorem failed_put_counts : ¬ ∀ (initialCapacity : Int) (heap heap' : Heap) (ratio : ℚ) (start m next : BiInt2ObjectMap Nat)
    (trace : List (Call Nat × Except Thrown (Reply Nat))) (call : Call Nat) (thrown : Thrown), initialCapacity < 2 ^ 31 →
      make heap initialCapacity ratio = .ok start → Runs Attempt start trace m → call.Updates →
      Ends heap' m call (.error thrown next) → Unchanged m next := by
  intro every
  obtain ⟨start,next,made,threw,zero,one⟩ := first_put_fails
  have unchanged := every 8 ⟨true,true⟩ ⟨false,false⟩ (1 / 10) start start next [] (.put 0 0 (some 7)) .outOfMemory
    (by norm_num) made .nil trivial threw
  have size := unchanged.size
  omega

end BiInt2ObjectMap
end Proteus
