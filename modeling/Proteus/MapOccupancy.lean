import Proteus.MapRefinement

namespace Proteus.BiInt2ObjectMap
open Probing Hashing Execution
variable {V : Type} {m : BiInt2ObjectMap V}

-- No put threw: where computeIfAbsent did, it was its mapping function.
def PutsReturn : Call V × Except Thrown (Reply V) → Prop
  | (_,.ok _) => True
  | (.put ..,.error _) => False
  | (.computeIfAbsent a b f,.error _) => ∃ thrown, f a b = .error thrown
  | (_,.error _) => True

-- How far size and threshold stay below the capacity. A compact that fails may
-- leave the threshold of another capacity; only below a load factor of 1/8 can
-- that be a larger one, and there twice the capacity is no danger.
structure Slack (lf : LoadFactor) (capacity size threshold : ℚ) : Prop where
  wide : 1 ≤ 8 * lf.ratio → 2 * size < (2 * capacity + 1) * lf.ratio ∧ threshold ≤ capacity * lf.ratio
  narrow : size ≤ 2 * (capacity * lf.ratio) ∧ threshold ≤ 2 * (capacity * lf.ratio)
  last : capacity = 2 ^ 30 → 2 * size ≤ 3 * (capacity * lf.ratio) ∧ threshold ≤ capacity * lf.ratio

section Slacks
variable {lf : LoadFactor} {capacity size threshold : ℚ}

variable (lf) in
theorem product_ge (minimum : 8 ≤ capacity) : 8 * lf.ratio ≤ capacity * lf.ratio :=
  mul_le_mul_of_nonneg_right minimum (ratio_positive lf).le

theorem slack_covered (covers : 2 * size < (2 * capacity + 1) * lf.ratio) (below : threshold ≤ capacity * lf.ratio)
    (minimum : 8 ≤ capacity) : Slack lf capacity size threshold := by
  have positive := ratio_positive lf
  have product := product_ge lf minimum
  refine ⟨fun _ => ⟨covers,below⟩,⟨?_,?_⟩,fun _ => ⟨?_,below⟩⟩
  · linarith
  · linarith
  · linarith

theorem Slack.tight (slack : Slack lf capacity size threshold) (minimum : 8 ≤ capacity) : threshold < capacity := by
  have high := lf.high
  rcases le_or_gt 1 (8 * lf.ratio) with wide | narrow
  · have below := (slack.wide wide).2
    nlinarith
  · have below := slack.narrow.2
    nlinarith

theorem Slack.fewer (slack : Slack lf capacity size threshold) (less : after ≤ size) : Slack lf capacity after threshold := by
  obtain ⟨wide,narrow,last⟩ := slack
  refine ⟨fun large => ⟨?_,(wide large).2⟩,⟨less.trans narrow.1,narrow.2⟩,fun full => ⟨?_,(last full).2⟩⟩
  · have covers := (wide large).1
    linarith
  · have loaded := (last full).1
    linarith

theorem Slack.within (slack : Slack lf capacity size threshold) (minimum : 8 ≤ capacity) (within : after ≤ threshold) :
    Slack lf capacity after threshold := by
  have positive := ratio_positive lf
  have product := product_ge lf minimum
  obtain ⟨wide,narrow,last⟩ := slack
  refine ⟨fun large => ⟨?_,(wide large).2⟩,⟨within.trans narrow.2,narrow.2⟩,fun full => ⟨?_,(last full).2⟩⟩
  · have below := (wide large).2
    linarith
  · have below := (last full).2
    linarith

theorem Slack.doubled (slack : Slack lf capacity size threshold) (minimum : 8 ≤ capacity) (grown : after ≤ size + 1)
    (below : raised ≤ 2 * capacity * lf.ratio) : Slack lf (2 * capacity) after raised := by
  have low := lf.low
  have product := product_ge lf minimum
  obtain ⟨wide,narrow,_⟩ := slack
  refine ⟨fun large => ⟨?_,below⟩,⟨?_,?_⟩,fun full => ⟨?_,below⟩⟩
  · have covers := (wide large).1
    linarith
  · have loaded := narrow.1
    linarith
  · linarith
  · -- Half the largest capacity is far more than ten slots.
    have many : 10 * lf.ratio ≤ capacity * lf.ratio := mul_le_mul_of_nonneg_right (by linarith) (ratio_positive lf).le
    have loaded := narrow.1
    linarith

theorem Slack.failed (slack : Slack lf capacity size threshold) (below : left ≤ other * lf.ratio)
    (wide : 1 ≤ 8 * lf.ratio → other ≤ capacity) (narrow : other ≤ 2 * capacity) (last : capacity = 2 ^ 30 → other ≤ capacity) :
    Slack lf capacity size left := by
  have nonnegative := (ratio_positive lf).le
  refine ⟨fun large => ⟨(slack.wide large).1,?_⟩,⟨slack.narrow.1,?_⟩,fun full => ⟨(slack.last full).1,?_⟩⟩
  · exact below.trans (mul_le_mul_of_nonneg_right (wide large) nonnegative)
  · have twice := mul_le_mul_of_nonneg_right narrow nonnegative
    linarith
  · exact below.trans (mul_le_mul_of_nonneg_right (last full) nonnegative)

end Slacks

-- Every state that failing compacts and mapping functions leave, too.
structure Spared (m : BiInt2ObjectMap V) : Prop where
  orderly : Orderly m
  slack : Slack m.loadFactor m.values.size m.size m.resizeThreshold

theorem Orderly.capacity_ge (orderly : Orderly m) : (8 : ℚ) ≤ m.values.size := by
  obtain ⟨p,low,high,fits⟩ := orderly.power
  rw [fits]
  exact_mod_cast (capacity_bounds low high).1

theorem Spared.tight (spared : Spared m) : m.resizeThreshold < m.values.size := by
  exact_mod_cast spared.slack.tight spared.orderly.capacity_ge

theorem Spared.framed {next : BiInt2ObjectMap V} (spared : Spared m) (orderly : Orderly next) (frame : Framed m next)
    (fewer : next.size ≤ m.size) : Spared next := by
  refine ⟨orderly,?_⟩
  rw [frame.factor,frame.slotted,frame.threshold]
  exact spared.slack.fewer (by exact_mod_cast fewer)

theorem put_spared {next : BiInt2ObjectMap V} (spared : Spared m) (stored : Put m key v old next) : Spared next := by
  have minimum := spared.orderly.capacity_ge
  refine ⟨stored.orderly,?_⟩
  rw [stored.factor]
  rcases stored.sized with ⟨frame,within⟩ | ⟨slotted,threshold⟩
  · rw [frame.slotted,frame.threshold]
    exact spared.slack.within minimum (by exact_mod_cast within)
  · have below : (next.resizeThreshold : ℚ) ≤ next.values.size * m.loadFactor.ratio := by
      rw [threshold]
      exact threshold_le m.loadFactor next.values.size
    rw [slotted,Nat.cast_mul,Nat.cast_ofNat] at below ⊢
    exact spared.slack.doubled minimum (by exact_mod_cast stored.grown) below

structure Asked (m : BiInt2ObjectMap V) : Prop where
  small : m.ideal < 2 ^ 31
  wide : 1 ≤ 8 * m.loadFactor.ratio → m.ideal ≤ m.values.size
  narrow : m.ideal ≤ 2 * m.values.size

theorem Spared.asked (spared : Spared m) : Asked m := by
  have positive := ratio_positive m.loadFactor
  obtain ⟨p,low,high,fits⟩ := spared.orderly.power
  have cap := capacity_bounds low high
  obtain ⟨wide,narrow,last⟩ := spared.slack
  have twice : m.ideal ≤ 2 * m.values.size := by
    apply ideal_le
    push_cast
    linarith [narrow.1]
  refine ⟨?_,?_,twice⟩
  · rcases Nat.lt_or_ge p 30 with short | full
    · have half : 2 ^ p ≤ 2 ^ 29 := Nat.pow_le_pow_right (by decide) (by omega)
      omega
    · have largest : (m.values.size : ℚ) = 2 ^ 30 := by
        rw [fits,show p = 30 by omega]
        norm_num
      have loaded := (last largest).1
      have bounded : m.ideal ≤ 3 * 2 ^ 29 := by
        apply ideal_le
        rw [largest] at loaded
        push_cast
        linarith
      omega
  · intro large
    apply ideal_le
    exact_mod_cast (wide large).1

theorem Spared.left {threshold : Int} (spared : Spared m) (slack : Slack m.loadFactor m.values.size m.size threshold) :
    Spared {m with resizeThreshold := threshold} :=
  ⟨⟨spared.orderly.power,spared.orderly.chained,spared.orderly.counted,spared.orderly.room⟩,slack⟩

theorem asked_slack (spared : Spared m) :
    Slack m.loadFactor m.values.size m.size (truncate (m.compacted * m.loadFactor.ratio) : Int) := by
  obtain ⟨small,wide,narrow⟩ := spared.asked
  obtain ⟨p,low,high,fits⟩ := spared.orderly.power
  have counted := spared.orderly.counted
  have cap := capacity_bounds low high
  have positive := ratio_positive m.loadFactor
  rcases compacted_exact (by omega) small with ⟨negative,_⟩ | ⟨q,_,qhigh,found,_,least⟩
  · have below : (truncate (m.compacted * m.loadFactor.ratio) : ℚ) ≤ 0 * m.loadFactor.ratio := by
      rw [negative,zero_mul]
      exact_mod_cast truncate_nonpositive (by push_cast; linarith)
    exact spared.slack.failed below (fun _ => Nat.cast_nonneg _) (by positivity) fun _ => Nat.cast_nonneg _
  · rw [found,Int.cast_natCast]
    refine spared.slack.failed (threshold_le m.loadFactor _) ?_ ?_ ?_
    · intro large
      have below := wide large
      rw [fits] at below ⊢
      exact_mod_cast compacted_le least low below
    · rw [fits] at narrow ⊢
      have below : m.ideal ≤ (2 ^ (p + 1) : Nat) := by
        rw [Nat.pow_succ]
        omega
      have bounded := compacted_le least (Nat.le_succ_of_le low) below
      rw [Nat.pow_succ,Nat.mul_comm] at bounded
      exact_mod_cast bounded
    · intro largest
      rw [largest]
      exact_mod_cast Nat.pow_le_pow_right (by decide) qhigh

theorem rehashed_spared {next : BiInt2ObjectMap V} (spared : Spared m) (low : 3 ≤ q) (high : q ≤ 30)
    (above : m.ideal ≤ (2 ^ q : Nat)) (rehashed : Rehashed m (2 ^ q) next) : Spared next := by
  have minimum : (8 : ℚ) ≤ (2 ^ q : Nat) := by exact_mod_cast (capacity_bounds low high).1
  refine ⟨rehashed.orderly spared.orderly.counted low high (compacted_room low high above).1,?_⟩
  rw [rehashed.factor,rehashed.slotted,rehashed.counted,rehashed.threshold]
  exact slack_covered (covered q above) (threshold_le m.loadFactor _) minimum

-- What a call makes of the map. It may throw; only where a put did may the map
-- be spoilt.
inductive Moved (m : BiInt2ObjectMap V) : BiInt2ObjectMap V → Prop where
  | same : Moved m m
  | put : Put m key v old after → Moved m after
  | fewer : Orderly after → Framed m after → after.size ≤ m.size → Moved m after
  | compacted : 3 ≤ q → q ≤ 30 → m.ideal ≤ (2 ^ q : Nat) → Rehashed m (2 ^ q) after → Moved m after
  | uncompacted : Moved m {m with resizeThreshold := truncate (m.compacted * m.loadFactor.ratio)}

section Moves
variable (orderly : Orderly m) (tight : m.resizeThreshold < m.values.size) (small : m.ideal < 2 ^ 31)
include orderly tight small

theorem did_moved {ended : Ended (BiInt2ObjectMap V) Unit} (nonnull : call.NonNull) (enough : 2 ^ 30 ≤ fuel)
    (did : Did fuel heap m call ended) :
    (∀ next, ended = .ok () next → Moved m next) ∧
      ∀ thrown next, ended = .error thrown next → PutsReturn (call,.error thrown) → Moved m next := by
  cases did with
  | nothing quiet => exact ⟨by rintro _ ⟨⟩; exact .same,by intro _ _ equal; cases equal⟩
  | mapping applied => exact ⟨(by intro _ equal; cases equal),by rintro _ _ ⟨⟩ _; exact .same⟩
  | @put _ a b value done stores ran =>
    obtain ⟨v,rfl⟩ := stores.nonnull nonnull
    obtain ⟨other,same,result⟩ := put_run orderly tight heap a b v enough
    cases ran.symm.trans same
    cases done with
    | ok old last => exact ⟨by rintro _ ⟨⟩; exact .put (result _ _ rfl),by intro _ _ equal; cases equal⟩
    | error thrown last =>
      refine ⟨(by intro _ equal; cases equal),?_⟩
      rintro _ _ _ puts
      cases stores with
      | put => exact puts.elim
      | computed applied =>
        obtain ⟨_,threw⟩ := puts
        rw [applied] at threw
        cases threw
  | @remove a b done ran =>
    obtain ⟨value,last,same,kept,frame,fewer,_⟩ := remove_run orderly a b enough
    cases ran.symm.trans same
    exact ⟨by rintro _ ⟨⟩; exact .fewer kept frame fewer,by intro _ _ equal; cases equal⟩
  | clear =>
    obtain ⟨kept,frame,_⟩ := clear_run orderly
    have counted := orderly.counted
    have fewer : (clear m).size ≤ m.size := by
      change (0 : Int) ≤ m.size
      omega
    exact ⟨by rintro _ ⟨⟩; exact .fewer kept frame fewer,by intro _ _ equal; cases equal⟩
  | compact ran =>
    obtain ⟨other,same,moved,failed⟩ := compact_run orderly small heap enough
    cases ran.symm.trans same
    constructor
    · intro next equal
      obtain ⟨q,low,high,above,_,rehashed⟩ := moved () next equal
      exact .compacted low high above rehashed
    · intro thrown next equal _
      rw [failed thrown next equal]
      exact .uncompacted

theorem attempt_moved {next : BiInt2ObjectMap V} (nonnull : event.1.NonNull) (puts : PutsReturn event)
    (taken : Attempt m event next) : Moved m next := by
  cases taken with
  | returned ends =>
    obtain ⟨fuel,enough,ran⟩ := ends.ample (2 ^ 30)
    exact (did_moved orderly tight small nonnull enough (exec_did ran)).1 next rfl
  | threw ends =>
    obtain ⟨fuel,enough,ran⟩ := ends.ample (2 ^ 30)
    exact (did_moved orderly tight small nonnull enough (exec_did ran)).2 _ next rfl puts

end Moves

theorem attempt_spared {next : BiInt2ObjectMap V} (spared : Spared m) (nonnull : event.1.NonNull) (puts : PutsReturn event)
    (taken : Attempt m event next) : Spared next := by
  cases attempt_moved spared.orderly spared.tight spared.asked.small nonnull puts taken with
  | same => exact spared
  | put stored => exact put_spared spared stored
  | fewer orderly frame fewer => exact spared.framed orderly frame fewer
  | compacted low high above rehashed => exact rehashed_spared spared low high above rehashed
  | uncompacted => exact spared.left (asked_slack spared)

-- The calls of rehash that compact and put make, with the map they make them on.
inductive Rehashes (m : BiInt2ObjectMap V) : BiInt2ObjectMap V → Int → Prop where
  | compact : Rehashes m m m.compacted
  | put : m.probe (m.values.size - 1) (compoundKey a b) fuel (Table.hash (m.values.size - 1) (compoundKey a b)) = some index →
      (stored m index (compoundKey a b) (some v)).size > m.resizeThreshold →
      Rehashes m (stored m index (compoundKey a b) (some v)) (int32 (m.values.size * 2))

-- Fewer entries than slots, before and in every rehash; so every loop finds
-- what ends it within as many rounds as it has slots to look at.
structure Unfilled (m : BiInt2ObjectMap V) : Prop where
  power : ∃ p, 3 ≤ p ∧ m.capacity = 2 ^ p
  occupied : m.forEach.length < m.capacity
  walks : ∀ key, ∃ i, m.probe (m.capacity - 1) key m.capacity (Table.hash (m.capacity - 1) key) = some i
  chains : ∀ i, i < m.capacity → m.value i ≠ none →
    ∃ t, Table.compactChain (m.capacity - 1) m.capacity (m.setValue i none) i i = some t
  rehashes : ∀ old newCapacity, Rehashes m old newCapacity → newCapacity < 0 ∨ ∃ capacity : Nat, newCapacity = capacity ∧
    old.forEach.length < capacity ∧ ∃ t, old.reinsertAll capacity capacity = some t

theorem forEach_length (m : BiInt2ObjectMap V) : m.forEach.length = m.entries.length := by
  rw [forEach_entries,List.length_map]

theorem compact_rehashes (spared : Spared m) : m.compacted < 0 ∨ ∃ capacity : Nat, m.compacted = capacity ∧
    m.forEach.length < capacity ∧ ∃ t, m.reinsertAll capacity capacity = some t := by
  have counted := spared.orderly.counted
  rcases compacted_exact (by omega) spared.asked.small with ⟨negative,_⟩ | ⟨q,low,high,found,above,_⟩
  · rw [negative]
    exact .inl (by norm_num)
  · have fits := (compacted_room low high above).1
    have room : m.entries.length < 2 ^ q := by omega
    obtain ⟨t,ran,_⟩ := Table.reinsertAll_moves rfl m.toTable (entries_nodup spared.orderly) room (Nat.le_refl _)
    exact .inr ⟨2 ^ q,found,by rw [forEach_length]; exact room,t,ran⟩

theorem put_rehashes (spared : Spared m) (found : m.probe (m.values.size - 1) (compoundKey a b) fuel
      (Table.hash (m.values.size - 1) (compoundKey a b)) = some index) :
    int32 (m.values.size * 2) < 0 ∨ ∃ capacity : Nat, int32 (m.values.size * 2) = capacity ∧
      (stored m index (compoundKey a b) (some v)).forEach.length < capacity ∧
      ∃ t, (stored m index (compoundKey a b) (some v)).reinsertAll capacity capacity = some t := by
  obtain ⟨p,low,high,fits⟩ := spared.orderly.power
  have cap := capacity_bounds low high
  obtain ⟨i,walked,located,_⟩ := walk_run spared.orderly a b (Nat.le_max_right fuel (2 ^ 30))
  cases (Table.probe_more found (Nat.le_max_left fuel (2 ^ 30))).symm.trans walked
  have start : Table.home m.values.size (compoundKey a b) < m.values.size := Table.home_lt (by omega) _
  have chained := stored_chained spared.orderly located start v
  rcases Nat.lt_or_ge p 30 with short | last
  · have room := doubled_room (stored m index (compoundKey a b) (some v))
      ((stored_frame m index (compoundKey a b) (some v)).slotted.trans fits)
    obtain ⟨t,ran,_⟩ := Table.reinsertAll_moves rfl (stored m index (compoundKey a b) (some v)).toTable
      (entries_keys_nodup chained) room (Nat.le_refl _)
    exact .inr ⟨2 ^ (p + 1),by rw [fits]; exact doubled_exact short,by rw [forEach_length]; exact room,t,ran⟩
  · have full : p = 30 := by omega
    rw [fits,full]
    exact .inl (by decide)

theorem unfilled (spared : Spared m) : Unfilled m := by
  obtain ⟨p,low,high,fits⟩ := spared.orderly.power
  have cap := capacity_bounds low high
  have counted := spared.orderly.counted
  have room := spared.orderly.room
  have occupied : m.entries.length < m.values.size := by omega
  refine ⟨⟨p,low,fits⟩,by rw [forEach_length]; exact occupied,?_,?_,?_⟩
  · intro key
    obtain ⟨i,found,_⟩ := Table.probe_located fits m.toTable key occupied (Nat.le_refl _)
    exact ⟨i,found⟩
  · intro i bound held
    obtain ⟨v,value⟩ := Option.ne_none_iff_exists'.mp held
    obtain ⟨t,ran,_⟩ := Table.compactChain_repairs fits m.toTable rfl spared.orderly.chained occupied bound
      (Table.slots_some value) (Nat.le_refl _)
    exact ⟨t,ran⟩
  · intro old newCapacity asked
    cases asked with
    | compact => exact compact_rehashes spared
    | put found _ => exact put_rehashes spared found

section Endings
variable (unfilled : Unfilled m) (heap : Heap)
include unfilled

theorem walk_ends (a b : JInt) : ∃ i, m.probe (m.values.size - 1) (compoundKey a b) m.values.size
    (Table.hash (m.values.size - 1) (compoundKey a b)) = some i := unfilled.walks (compoundKey a b)

theorem rehash_ends {old : BiInt2ObjectMap V} (asked : Rehashes m old newCapacity) :
    ∃ fuel ended, rehash fuel heap newCapacity old = some ended := by
  rcases unfilled.rehashes old newCapacity asked with negative | ⟨capacity,rfl,_,t,moved⟩
  · exact ⟨0,_,rehash_negative negative old⟩
  · have nonnegative : ¬ (capacity : Int) < 0 := not_lt.mpr (Int.natCast_nonneg _)
    refine ⟨capacity,?_⟩
    unfold rehash
    dsimp only
    rw [if_neg nonnegative]
    split
    · exact ⟨_,by rw [Int.toNat_natCast,moved,Option.map_some]⟩
    · exact ⟨_,rfl⟩

theorem put_ends (a b : JInt) (v : V) : ∃ fuel ended, put fuel heap a b (some v) m = some ended := by
  obtain ⟨i,found⟩ := walk_ends unfilled a b
  have frame := stored_frame m i (compoundKey a b) (some v)
  by_cases grows : (stored m i (compoundKey a b) (some v)).size > m.resizeThreshold
  · obtain ⟨fuel,ended,ran⟩ := rehash_ends unfilled heap (.put found grows)
    have doubled : ∃ last, increaseCapacity (max m.values.size fuel) heap (stored m i (compoundKey a b) (some v)) = some last := by
      unfold increaseCapacity
      rw [frame.slotted]
      dsimp only
      split
      · exact ⟨_,rfl⟩
      · exact ⟨ended,rehash_more ran (Nat.le_max_right _ _)⟩
    obtain ⟨last,grown⟩ := doubled
    refine ⟨max m.values.size fuel,?_⟩
    rw [put_stored,Table.probe_more found (Nat.le_max_left _ _)]
    dsimp only
    rw [frame.threshold,if_pos grows,grown]
    exact ⟨_,rfl⟩
  · refine ⟨m.values.size,?_⟩
    rw [put_stored,found]
    dsimp only
    rw [frame.threshold,if_neg grows]
    exact ⟨_,rfl⟩

theorem remove_ends (a b : JInt) : ∃ fuel ended, remove fuel a b m = some ended := by
  obtain ⟨i,found⟩ := walk_ends unfilled a b
  refine ⟨m.values.size,?_⟩
  unfold remove
  dsimp only
  rw [found]
  dsimp only
  cases held : m.value i with
  | none => exact ⟨_,rfl⟩
  | some v =>
    have occupied : m.value i ≠ none := by rw [held]; exact Option.some_ne_none v
    obtain ⟨t,repaired⟩ := unfilled.chains i (Table.value_bound held) occupied
    have same : Table.compactChain (m.values.size - 1) m.values.size (m.setValue i none) i i = some t := repaired
    rw [same]
    exact ⟨_,rfl⟩

theorem get_ends (a b : JInt) : ∃ fuel value, get fuel a b m = some value := by
  obtain ⟨i,found⟩ := walk_ends unfilled a b
  exact ⟨m.values.size,m.value i,by simp only [get,found,Option.map_some]⟩

theorem computeIfAbsent_ends (a b : JInt) (f : EntryFunction V) :
    ∃ fuel ended, computeIfAbsent fuel heap a b f m = some ended := by
  obtain ⟨fuel,value,got⟩ := get_ends unfilled a b
  cases value with
  | some v => exact ⟨fuel,_,by simp only [computeIfAbsent,got]; rfl⟩
  | none =>
    cases applied : f a b with
    | error thrown => exact ⟨fuel,_,by simp only [computeIfAbsent,got,applied]; rfl⟩
    | ok result =>
      cases result with
      | none => exact ⟨fuel,_,by simp only [computeIfAbsent,got,applied]; rfl⟩
      | some v =>
        obtain ⟨other,ended,ran⟩ := put_ends unfilled heap a b v
        refine ⟨max fuel other,?_⟩
        simp only [computeIfAbsent,get_more got (Nat.le_max_left fuel other),applied,
          put_more ran (Nat.le_max_right fuel other),Option.map_some]
        exact ⟨_,rfl⟩

theorem call_ends (call : Call V) (nonnull : call.NonNull) : ∃ ended, Ends heap m call ended := by
  cases call with
  | put a b value =>
    obtain ⟨v,rfl⟩ := Option.ne_none_iff_exists'.mp nonnull
    obtain ⟨fuel,ended,ran⟩ := put_ends unfilled heap a b v
    exact ⟨_,fuel,exec_put ran⟩
  | get a b =>
    obtain ⟨fuel,value,got⟩ := get_ends unfilled a b
    exact ⟨_,fuel,exec_get got heap⟩
  | remove a b =>
    obtain ⟨fuel,ended,ran⟩ := remove_ends unfilled a b
    exact ⟨_,fuel,exec_remove ran heap⟩
  | computeIfAbsent a b f =>
    obtain ⟨fuel,ended,ran⟩ := computeIfAbsent_ends unfilled heap a b f
    exact ⟨_,fuel,exec_computed ran⟩
  | compact =>
    obtain ⟨fuel,ended,ran⟩ := rehash_ends unfilled heap .compact
    exact ⟨_,fuel,exec_compact ((compact_rehash fuel heap m).trans ran)⟩
  | clear => exact ⟨_,0,rfl⟩
  | size => exact ⟨_,0,rfl⟩
  | isEmpty => exact ⟨_,0,rfl⟩
  | forEach => exact ⟨_,0,rfl⟩

end Endings

theorem make_spared (bound : initialCapacity ≤ 2 ^ 30) (made : make heap initialCapacity ratio = .ok m) : Spared m := by
  have sound := (make_sound bound made).1
  have minimum := sound.capacity_ge
  refine ⟨sound.orderly,slack_covered ?_ sound.threshold_le minimum⟩
  rw [make_empty bound made,Int.cast_zero,mul_zero]
  exact mul_pos (by linarith) (ratio_positive m.loadFactor)

theorem runs_spared (spared : Spared start) (path : Runs Attempt start trace m)
    (admitted : ∀ event ∈ trace, event.1.NonNull ∧ PutsReturn event) : Spared m :=
  Runs.kept Spared spared (fun _ _ _ kept admitted taken => attempt_spared kept admitted.1 admitted.2 taken) path admitted

-- In every run of calls in which no put throws the map keeps a free slot.
theorem never_fills (V : Type) (bound : initialCapacity ≤ 2 ^ 30) (low : 1 / 10 ≤ ratio) (high : ratio ≤ 9 / 10) :
    ∃ start : BiInt2ObjectMap V, make ⟨true,true⟩ initialCapacity ratio = .ok start ∧
      ∀ trace m, Runs Attempt start trace m → (∀ event ∈ trace, event.1.NonNull ∧ PutsReturn event) →
        Unfilled m ∧ ∀ heap (call : Call V), call.NonNull → ∃ ended, Ends heap m call ended := by
  obtain ⟨start,made⟩ := make_succeeds (V := V) bound low high
  refine ⟨start,made,?_⟩
  intro trace m path admitted
  have spared := runs_spared (make_spared bound made) path admitted
  exact ⟨unfilled spared,call_ends (unfilled spared)⟩

theorem never_fills_tenth : ∃ start : BiInt2ObjectMap Nat, make ⟨true,true⟩ (2 ^ 30) (1 / 10) = .ok start ∧
    ∀ trace m, Runs Attempt start trace m → (∀ event ∈ trace, event.1.NonNull ∧ PutsReturn event) →
      Unfilled m ∧ ∀ heap (call : Call Nat), call.NonNull → ∃ ended, Ends heap m call ended :=
  never_fills Nat (by norm_num) (by norm_num) (by norm_num)

end Proteus.BiInt2ObjectMap
