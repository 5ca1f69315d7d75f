import Proteus.MapFailures
import Proteus.MapRefinement

namespace Proteus.Table
open Probing
variable {V : Type}

def occupied (t : Table V) : Nat := (entries t.values.size t.slots).length

def marks (value : Option V) : Nat := if value = none then 0 else 1

theorem occupied_le (t : Table V) : t.occupied ≤ t.values.size := entries_length_le _ _

theorem occupied_without (t : Table V) (bound : i < t.values.size) :
    t.occupied = (entries t.values.size (Function.update t.slots i none)).length + marks (t.value i) := by
  unfold occupied marks
  cases held : t.value i with
  | none =>
    have same : Function.update t.slots i none = t.slots := by
      rw [← slots_none.mpr held]
      exact Function.update_eq_self i t.slots
    rw [same]
    rfl
  | some v =>
    rw [(entries_take t.slots bound (slots_some held)).length_eq]
    rfl

theorem occupied_written {t after : Table V} (sizes : after.values.size = t.values.size) (bound : i < t.values.size)
    (others : ∀ j, j ≠ i → after.slots j = t.slots j) :
    after.occupied + marks (t.value i) = t.occupied + marks (after.value i) := by
  have same : Function.update after.slots i none = Function.update t.slots i none := by
    funext j
    by_cases here : j = i
    · subst here
      simp
    · rw [Function.update_of_ne here,Function.update_of_ne here,others j here]
  rw [occupied_without t bound,occupied_without after (sizes ▸ bound),sizes,same]
  omega

theorem occupied_lt (t : Table V) (bound : i < t.values.size) (empty : t.value i = none) : t.occupied < t.values.size := by
  have fewer : (entries t.values.size t.slots).length < (List.range t.values.size).length :=
    List.length_filterMap_lt_length_iff_exists.mpr ⟨i,List.mem_range.mpr bound,slots_none.mpr empty⟩
  rwa [List.length_range] at fewer

theorem setKey_others (t : Table V) (key : JLong) (bound : i < t.values.size) (apart : j ≠ i) :
    (t.setKey i key).slots j = t.slots j := by
  simp only [slots,value_setKey,key_setKey t key bound,if_neg apart]

theorem setValue_others (t : Table V) (value : Option V) (bound : i < t.values.size) (apart : j ≠ i) :
    (t.setValue i value).slots j = t.slots j := by
  simp only [slots,key_setValue,value_setValue t value bound,if_neg apart]

theorem occupied_setKey (t : Table V) (key : JLong) (bound : i < t.values.size) : (t.setKey i key).occupied = t.occupied := by
  have written : (t.setKey i key).occupied + marks (t.value i) = t.occupied + marks ((t.setKey i key).value i) :=
    occupied_written rfl bound fun j apart => setKey_others t key bound apart
  rw [value_setKey] at written
  omega

theorem occupied_setValue (t : Table V) (value : Option V) (bound : i < t.values.size) :
    (t.setValue i value).occupied + marks (t.value i) = t.occupied + marks value := by
  have written := occupied_written (size_setValue t i value) bound fun j apart => setValue_others t value bound apart
  rwa [value_setValue t value bound,if_pos rfl] at written

theorem probe_bound {t : Table V} (start : index ≤ mask) (found : t.probe mask k fuel index = some i) : i ≤ mask := by
  induction fuel generalizing index with
  | zero => cases found
  | succ fuel ih =>
    unfold probe at found
    split at found
    · cases found
      exact start
    · split at found
      · cases found
        exact start
      · exact ih Nat.and_le_right found

theorem vacancy_bound {t : Table V} (start : index ≤ mask) (found : t.vacancy mask fuel index = some i) :
    i ≤ mask ∧ t.value i = none := by
  induction fuel generalizing index with
  | zero => cases found
  | succ fuel ih =>
    unfold vacancy at found
    split at found
    · rename_i empty
      cases found
      exact ⟨start,empty⟩
    · exact ih Nat.and_le_right found

theorem hash_mask (mask : Nat) (key : JLong) : hash mask key ≤ mask := by
  have masked := Hashing.hash_le key (BitVec.ofNat 32 mask)
  rw [BitVec.toNat_ofNat] at masked
  exact masked.trans (Nat.mod_le _ _)

theorem occupied_moved (t : Table V) (key : JLong) (hole : j < t.values.size) (bound : i < t.values.size) (apart : j ≠ i)
    (empty : t.value j = none) : (((t.setKey j key).setValue j (t.value i)).setValue i none).occupied = t.occupied := by
  have moved := occupied_setValue (t.setKey j key) (t.value i) hole
  rw [value_setKey,empty,occupied_setKey t key hole] at moved
  have read : ((t.setKey j key).setValue j (t.value i)).value i = t.value i := by
    rw [value_setValue (t.setKey j key) _ hole,if_neg (Ne.symm apart),value_setKey]
  have left := occupied_setValue ((t.setKey j key).setValue j (t.value i)) none (i := i) (by simpa using bound)
  rw [read] at left
  omega

theorem compactChain_occupied {t : Table V} (inside : mask < t.values.size) (hole : deleteIndex < t.values.size)
    (empty : t.value deleteIndex = none) (ran : compactChain mask fuel t deleteIndex index = some after) :
    after.occupied = t.occupied := by
  induction fuel generalizing t deleteIndex index with
  | zero => cases ran
  | succ fuel ih =>
    unfold compactChain at ran
    dsimp only at ran
    have bound : advance mask index < t.values.size := Nat.lt_of_le_of_lt Nat.and_le_right inside
    split at ran
    · cases ran
      rfl
    · rename_i held
      have apart : deleteIndex ≠ advance mask index := by
        intro same
        rw [same] at empty
        exact held empty
      split at ran
      · rw [ih (by simpa using inside) (by simpa using bound) ?_ ran]
        · exact occupied_moved t _ hole bound apart empty
        · rw [value_setValue _ _ (by simpa using bound),if_pos rfl]
      · exact ih inside hole empty ran

theorem occupied_fresh (capacity : Nat) : (fresh capacity : Table V).occupied = 0 := by
  unfold occupied
  rw [slots_fresh]
  simp [entries]

theorem reinsert_occupied {old temp : Table V} (fits : temp.values.size = mask + 1)
    (ran : reinsert old mask fuel temp i = some after) :
    after.values.size = mask + 1 ∧ after.occupied = temp.occupied + marks (old.value i) := by
  unfold reinsert at ran
  cases held : old.value i with
  | none =>
    simp only [held] at ran
    cases ran
    exact ⟨fits,rfl⟩
  | some v =>
    simp only [held] at ran
    obtain ⟨j,found,rfl⟩ := Option.map_eq_some_iff.mp ran
    obtain ⟨below,empty⟩ := vacancy_bound (hash_mask mask (old.key i)) found
    have bound : j < temp.values.size := by omega
    have written := occupied_setValue (temp.setKey j (old.key i)) (some v) bound
    rw [value_setKey,empty,occupied_setKey temp _ bound] at written
    exact ⟨by simpa using fits,written⟩

theorem reinsertAll_occupied {old after : Table V} (ran : reinsertAll old (mask + 1) fuel = some after) :
    after.values.size = mask + 1 ∧ after.occupied = old.occupied := by
  unfold reinsertAll at ran
  unfold occupied
  generalize old.values.size = n at ran ⊢
  induction n generalizing after with
  | zero =>
    cases ran
    exact ⟨by simp [fresh],occupied_fresh _⟩
  | succ n ih =>
    rw [List.range_succ,List.foldlM_append] at ran
    obtain ⟨temp,before,last⟩ := Option.bind_eq_some_iff.mp ran
    obtain ⟨fits,counted⟩ := ih before
    simp only [List.foldlM_cons,List.foldlM_nil] at last
    obtain ⟨end_,taken,equal⟩ := Option.bind_eq_some_iff.mp last
    cases equal
    obtain ⟨sizes,grown⟩ := reinsert_occupied fits taken
    refine ⟨sizes,?_⟩
    unfold occupied at grown
    rw [grown,counted,entries_succ,List.length_append]
    unfold marks slots
    cases old.value n <;> rfl

end Proteus.Table

namespace Proteus.BiInt2ObjectMap
open Hashing Execution
variable {V : Type} {m : BiInt2ObjectMap V}

def Ended.state : Ended State Value → State
  | .ok _ s => s
  | .error _ s => s

-- The size counts the values, whatever chain the table has, and `nulls` more.
structure Tallied (m : BiInt2ObjectMap V) (nulls : Nat) : Prop where
  positive : 0 < m.values.size
  small : m.values.size < 2 ^ 31
  counted : m.size = m.occupied + nulls

theorem rehash_tallied (sized : newCapacity < 0 ∨ 0 < newCapacity ∧ newCapacity < 2 ^ 31) (tallied : Tallied m nulls)
    (ran : rehash fuel heap newCapacity m = some ended) : Tallied (Ended.state ended) nulls := by
  obtain ⟨positive,small,counted⟩ := tallied
  unfold rehash at ran
  dsimp only at ran
  split at ran
  · cases ran
    exact ⟨positive,small,counted⟩
  · obtain ⟨above,below⟩ : 0 < newCapacity ∧ newCapacity < 2 ^ 31 := by omega
    obtain ⟨mask,equal⟩ : ∃ mask : Nat, newCapacity.toNat = mask + 1 := ⟨newCapacity.toNat - 1,by omega⟩
    split at ran
    · obtain ⟨temp,moved,rfl⟩ := Option.map_eq_some_iff.mp ran
      rw [equal] at moved
      obtain ⟨fits,kept⟩ := Table.reinsertAll_occupied moved
      refine ⟨?_,?_,?_⟩
      · change 0 < temp.values.size
        omega
      · change temp.values.size < 2 ^ 31
        omega
      · rw [← kept] at counted
        exact counted
    · cases ran
      exact ⟨positive,small,counted⟩

theorem increase_tallied (tallied : Tallied m nulls) (ran : increaseCapacity fuel heap m = some ended) :
    Tallied (Ended.state ended) nulls := by
  have positive := tallied.positive
  have small := tallied.small
  unfold increaseCapacity at ran
  dsimp only at ran
  split at ran
  · cases ran
    exact tallied
  · rename_i room
    refine rehash_tallied (.inr ?_) tallied ran
    unfold int32 at room ⊢
    omega

theorem compacted_sized (m : BiInt2ObjectMap V) : m.compacted < 0 ∨ 0 < m.compacted ∧ m.compacted < 2 ^ 31 := by
  have low : 8 ≤ max MIN_CAPACITY (int32 m.ideal) := le_max_left _ _
  have high : max MIN_CAPACITY (int32 m.ideal) < 2 ^ 31 := by
    unfold MIN_CAPACITY int32
    omega
  obtain ⟨p,plow,phigh,_,_,found⟩ := findNext_exact _ low high
  unfold compacted
  rw [found]
  rcases Nat.lt_or_ge p 31 with short | last
  · have cap := capacity_bounds plow (by omega : p ≤ 30)
    rw [int32_exact (by omega) (by omega)]
    exact .inr (by omega)
  · have full : p = 31 := by omega
    rw [full]
    exact .inl (by decide)

-- Put counts a new key, and keeps the count of a bound one, whatever the value is.
theorem stored_tallied (tallied : Tallied m 0) (bound : i < m.values.size) (key : JLong) (value : Option V) :
    Tallied (stored m i key value) (1 - Table.marks value) := by
  have counted := tallied.counted
  have frame := stored_frame m i key value
  refine ⟨?_,?_,?_⟩
  · rw [frame.slotted]
    exact tallied.positive
  · rw [frame.slotted]
    exact tallied.small
  · have one : Table.marks value ≤ 1 := by
      unfold Table.marks
      split <;> omega
    rw [stored_size]
    cases held : m.value i with
    | none =>
      have room := Table.occupied_lt m.toTable bound held
      have small := tallied.small
      have written := Table.occupied_setValue (m.setKey i key) value bound
      have table : (stored m i key value).toTable = (m.setKey i key).setValue i value := by simp [stored,held]
      rw [Table.value_setKey,held,Table.occupied_setKey m.toTable key bound] at written
      rw [table,if_pos rfl,int32_exact (by omega) (by omega)]
      change _ + 0 = _ at written
      omega
    | some w =>
      have written := Table.occupied_setValue m.toTable value bound
      have table : (stored m i key value).toTable = m.setValue i value := by simp [stored,held]
      rw [held] at written
      rw [table,if_neg (Option.some_ne_none w)]
      change _ + 1 = _ at written
      omega

theorem put_cases (ran : put fuel heap a b value m = some ended) : ∃ i, m.probe (m.values.size - 1) (compoundKey a b) fuel
      (Table.hash (m.values.size - 1) (compoundKey a b)) = some i ∧
    (Ended.state ended = stored m i (compoundKey a b) value ∨
      ∃ grown, increaseCapacity fuel heap (stored m i (compoundKey a b) value) = some grown ∧
        Ended.state ended = Ended.state grown) := by
  rw [put_stored] at ran
  split at ran
  · cases ran
  · rename_i i found
    refine ⟨i,found,?_⟩
    split at ran
    · obtain ⟨grown,doubled,rfl⟩ := Option.map_eq_some_iff.mp ran
      refine .inr ⟨grown,doubled,?_⟩
      cases grown <;> rfl
    · cases ran
      exact .inl rfl

theorem put_tallied (tallied : Tallied m 0) (ran : put fuel heap a b value m = some ended) :
    Tallied (Ended.state ended) (1 - Table.marks value) := by
  obtain ⟨i,found,left⟩ := put_cases ran
  have positive := tallied.positive
  have below := Table.probe_bound (Table.hash_mask _ _) found
  have kept := stored_tallied tallied (by omega : i < m.values.size) (compoundKey a b) value
  rcases left with same | ⟨grown,doubled,same⟩
  · rw [same]
    exact kept
  · rw [same]
    exact increase_tallied kept doubled

theorem remove_tallied (tallied : Tallied m 0) (ran : remove fuel a b m = some ended) : Tallied (Ended.state ended) 0 := by
  obtain ⟨positive,small,counted⟩ := tallied
  unfold remove at ran
  dsimp only at ran
  split at ran
  · cases ran
  · rename_i i found
    have below := Table.probe_bound (Table.hash_mask _ _) found
    have bound : i < m.values.size := by omega
    cases held : m.value i with
    | none =>
      simp only [held] at ran
      cases ran
      exact ⟨positive,small,counted⟩
    | some v =>
      simp only [held] at ran
      obtain ⟨t,repaired,rfl⟩ := Option.map_eq_some_iff.mp ran
      have written := Table.occupied_setValue m.toTable none bound
      have hole : (m.setValue i none).value i = none := by rw [Table.value_setValue m.toTable none bound,if_pos rfl]
      have kept := Table.compactChain_occupied (by rw [Table.size_setValue]; omega) (by rw [Table.size_setValue]; exact bound) hole
        repaired
      have sizes := Table.compactChain_size repaired
      rw [Table.size_setValue] at sizes
      rw [held] at written
      change _ + 1 = _ + 0 at written
      refine ⟨?_,?_,?_⟩
      · change 0 < t.values.size
        omega
      · change t.values.size < 2 ^ 31
        omega
      · change int32 (m.size - 1) = t.occupied + ((0 : Nat) : Int)
        have limit := Table.occupied_le m.toTable
        rw [int32_exact (by omega) (by omega)]
        omega

theorem clear_tallied (tallied : Tallied m 0) : Tallied (clear m) 0 := by
  have size : (clear m).values.size = m.values.size := by simp [clear]
  refine ⟨by rw [size]; exact tallied.positive,by rw [size]; exact tallied.small,?_⟩
  unfold Table.occupied
  rw [clear_slots]
  simp [Probing.entries,clear]

theorem bare_state (ended : Ended State Value) : Ended.state (Ended.bare ended) = Ended.state ended := by cases ended <;> rfl

theorem did_tallied (tallied : Tallied m 0) (nonnull : call.NonNull) (did : Did fuel heap m call ended) :
    Tallied (Ended.state ended) 0 := by
  cases did with
  | nothing quiet => exact tallied
  | mapping applied => exact tallied
  | put stores ran =>
    obtain ⟨v,rfl⟩ := stores.nonnull nonnull
    rw [bare_state]
    exact put_tallied tallied ran
  | remove ran =>
    rw [bare_state]
    exact remove_tallied tallied ran
  | clear => exact clear_tallied tallied
  | compact ran =>
    rw [compact_rehash] at ran
    exact rehash_tallied (compacted_sized m) tallied ran

-- However it ends, a put of null is counted and not there.
theorem null_tallied (tallied : Tallied m 0) (did : Did fuel heap m (.put a b none) ended) : Tallied (Ended.state ended) 1 := by
  cases did with
  | nothing quiet => cases quiet
  | put stores ran =>
    cases stores
    rw [bare_state]
    exact put_tallied tallied ran

theorem attempt_did (taken : Attempt m event next) : ∃ fuel heap ended, Did fuel heap m event.1 ended ∧ Ended.state ended = next := by
  cases taken with
  | returned ends =>
    obtain ⟨fuel,ran⟩ := ends
    exact ⟨fuel,_,_,exec_did ran,rfl⟩
  | threw ends =>
    obtain ⟨fuel,ran⟩ := ends
    exact ⟨fuel,_,_,exec_did ran,rfl⟩

theorem occupied_visited (m : BiInt2ObjectMap V) : m.forEach.length = m.occupied := by
  rw [forEach_entries,List.length_map]
  rfl

-- The size is the number of values forEach visits, and isEmpty says whether it
-- visits none.
structure Counts (m : BiInt2ObjectMap V) : Prop where
  size : m.size = m.forEach.length
  empty : m.isEmpty = true ↔ m.forEach = []

theorem Tallied.counts (tallied : Tallied m 0) : Counts m := by
  have counted : m.size = m.forEach.length := by
    rw [occupied_visited]
    exact tallied.counted.trans (add_zero _)
  refine ⟨counted,?_⟩
  rw [isEmpty,decide_eq_true_eq,counted,← List.length_eq_zero_iff]
  omega

def Bound (m next : BiInt2ObjectMap V) (a b : JInt) : Prop :=
  ∀ heap value, Ends heap next (.get a b) (.ok (.value value) next) ↔ Ends heap m (.get a b) (.ok (.value value) m)

-- A null that is put is refused without effect or leaves the other key pairs
-- alone, and the counts are right.
structure Uncorrupted (m : BiInt2ObjectMap V) (event : Call V × Except Thrown (Reply V)) (next : BiInt2ObjectMap V) : Prop where
  null : ∀ a b, event.1 = .put a b none →
    (∃ thrown, event.2 = .error thrown) ∧ Unchanged m next ∨ ∀ x y, (x,y) ≠ (a,b) → Bound m next x y
  counts : Counts next

theorem attempt_tallied {next : BiInt2ObjectMap V} (tallied : Tallied m 0) (nonnull : event.1.NonNull) (taken : Attempt m event next) :
    Tallied next 0 := by
  obtain ⟨fuel,heap,ended,did,rfl⟩ := attempt_did taken
  exact did_tallied tallied nonnull did

theorem attempt_uncorrupted {next : BiInt2ObjectMap V} (tallied : Tallied m 0) (taken : Attempt m event next) :
    Uncorrupted m event next ↔ event.1.NonNull := by
  constructor
  · rintro ⟨_,counts⟩
    obtain ⟨fuel,heap,ended,did,rfl⟩ := attempt_did taken
    obtain ⟨call,result⟩ := event
    cases call with
    | put a b value =>
      rintro rfl
      have size := counts.size
      have counted := (null_tallied tallied did).counted
      rw [occupied_visited] at size
      omega
    | get a b => trivial
    | remove a b => trivial
    | computeIfAbsent a b f => trivial
    | clear => trivial
    | compact => trivial
    | size => trivial
    | isEmpty => trivial
    | forEach => trivial
  · intro nonnull
    refine ⟨?_,(attempt_tallied tallied nonnull taken).counts⟩
    intro a b same
    rw [same] at nonnull
    exact absurd rfl nonnull

theorem make_tallied (int : initialCapacity < 2 ^ 31) (made : make heap initialCapacity ratio = .ok m) : Tallied m 0 := by
  have orderly := (make_sound (make_bound int made) made).1.orderly
  obtain ⟨p,low,high,fits⟩ := orderly.power
  have cap := capacity_bounds low high
  exact ⟨by omega,by omega,orderly.counted.trans (add_zero _).symm⟩

theorem runs_tallied (tallied : Tallied start 0) (path : Runs Attempt start trace m)
    (nonnull : ∀ event ∈ trace, event.1.NonNull) : Tallied m 0 :=
  Runs.kept (Tallied · 0) tallied (fun _ _ _ kept admitted taken => attempt_tallied kept admitted taken) path nonnull

-- Runs however their calls end: nothing is corrupted in exactly those that put
-- no null.
theorem uncorrupted_iff (int : initialCapacity < 2 ^ 31) (made : make heap initialCapacity ratio = .ok (start : BiInt2ObjectMap V)) :
    Counts start ∧ ∀ trace m, Runs (fun m event next => Attempt m event next ∧ Uncorrupted m event next) start trace m ↔
      Runs Attempt start trace m ∧ ∀ event ∈ trace, event.1.NonNull := by
  have tallied := make_tallied int made
  refine ⟨tallied.counts,?_⟩
  intro trace m
  constructor
  · intro path
    induction path with
    | nil => exact ⟨.nil,by simp⟩
    | snoc _ taken ih =>
      obtain ⟨before,nonnull⟩ := ih
      have last := (attempt_uncorrupted (runs_tallied tallied before nonnull) taken.1).mp taken.2
      refine ⟨before.snoc taken.1,?_⟩
      intro event present
      rcases List.mem_append.mp present with earlier | newest
      · exact nonnull event earlier
      · cases List.mem_singleton.mp newest
        exact last
  · rintro ⟨path,nonnull⟩
    induction path with
    | nil => exact .nil
    | @snoc trace m newest next before taken ih =>
      have earlier : ∀ event ∈ trace, event.1.NonNull := fun event present => nonnull event (List.mem_append_left _ present)
      have last := nonnull _ (List.mem_append_right _ (List.mem_singleton.mpr rfl))
      exact (ih earlier).snoc ⟨taken,(attempt_uncorrupted (runs_tallied tallied before earlier) taken).mpr last⟩

theorem uncorrupted_iff_put : ∃ start m : BiInt2ObjectMap Nat, ∃ reply, Attempt start (.put 0 0 (some 7),.ok reply) m ∧ Counts start ∧
    (Runs (fun m event next => Attempt m event next ∧ Uncorrupted m event next) start [(.put 0 0 (some 7),.ok reply)] m ↔
      Runs Attempt start [(.put 0 0 (some 7),.ok reply)] m ∧
        ∀ event ∈ [((.put 0 0 (some 7),.ok reply) : Call Nat × Except Thrown (Reply Nat))], event.1.NonNull) := by
  obtain ⟨start,m,reply,made,ends⟩ := default_put
  obtain ⟨counts,exact⟩ := uncorrupted_iff (by norm_num [MIN_CAPACITY]) made
  exact ⟨start,m,reply,.returned ends,counts,exact _ _⟩

-- Two pairs with one hash: the null put over the first takes the second away.
theorem null_loses_other : ¬ ∀ (initialCapacity : Int) (heap : Heap) (ratio : ℚ) (start m next : BiInt2ObjectMap Nat)
    (trace : List (Call Nat × Except Thrown (Reply Nat))) (event : Call Nat × Except Thrown (Reply Nat)),
      initialCapacity < 2 ^ 31 → make heap initialCapacity ratio = .ok start → Runs Attempt start trace m →
      Attempt m event next → Uncorrupted m event next := by
  intro every
  have ran : ((make ⟨true,true⟩ 8 (9 / 10)).toOption.bind fun start : BiInt2ObjectMap Nat =>
      (perform 8 start [.put 0 0 (some 7),.put 0 8 (some 9)]).bind fun m =>
        ((exec 8 ⟨true,true⟩ m (.put 0 0 none)).bind Ended.returned).map fun last =>
          (m.get 8 0 8,last.2.get 8 0 8)) = some (some (some 9),some none) := by decide +kernel
  obtain ⟨start,built,rest⟩ := Option.bind_eq_some_iff.mp ran
  obtain ⟨m,calls,last⟩ := Option.bind_eq_some_iff.mp rest
  obtain ⟨⟨reply,next⟩,returned,bindings⟩ := Option.map_eq_some_iff.mp last
  obtain ⟨before,after⟩ := Prod.mk.inj bindings
  obtain ⟨replies,_,path⟩ := perform_runs .nil calls
  have uncorrupted := every 8 ⟨true,true⟩ (9 / 10) start m next _ (.put 0 0 none,.ok reply) (by norm_num)
    (toOption_ok built) (runs_attempts path) (.returned (exec_returned returned))
  rcases uncorrupted.null 0 0 rfl with ⟨⟨thrown,threw⟩,_⟩ | others
  · cases threw
  · obtain ⟨fuel,got⟩ := get_ended ((others 0 8 (by decide) ⟨true,true⟩ (some 9)).mpr (ended_get before _))
    cases get_unique got after

end Proteus.BiInt2ObjectMap
