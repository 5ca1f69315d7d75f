import Proteus.MapRefinement

namespace Proteus

-- From a half on, doubling brings at least one more.
theorem truncate_doubled (half : 1 / 2 ≤ x) : truncate x + 1 ≤ truncate (2 * x) := by
  have below : (truncate x : ℚ) ≤ x := truncate_le (by linarith)
  rw [le_truncate (by linarith)]
  push_cast
  rcases le_or_gt 1 (truncate x) with large | small
  · have one : (1 : ℚ) ≤ truncate x := by exact_mod_cast large
    linarith
  · have zero : (truncate x : ℚ) ≤ 0 := by exact_mod_cast Int.lt_add_one_iff.mp small
    linarith

namespace BiInt2ObjectMap
open Hashing Execution
variable {V : Type} {m : BiInt2ObjectMap V}

structure Loaded (m : BiInt2ObjectMap V) : Prop where
  threshold : m.resizeThreshold = truncate (m.capacity * m.loadFactor.ratio)
  within : m.size ≤ m.resizeThreshold

-- size / loadFactor is past a power of two, by less than a half: rounding takes
-- it back to that power.
def RoundsDown (m : BiInt2ObjectMap V) : Prop :=
  ∃ p : Nat, 3 ≤ p ∧ (2 ^ p : Nat) * m.loadFactor.ratio < m.size ∧ 2 * (m.size : ℚ) < (2 * (2 ^ p : Nat) + 1) * m.loadFactor.ratio

def Meets (m : BiInt2ObjectMap V) (call : Call V) : Prop := call = .compact → ¬ RoundsDown m

theorem rounds_down_iff (above : m.ideal ≤ (2 ^ q : Nat)) (least : (2 ^ q : Nat) < 2 * max 8 m.ideal) (low : 3 ≤ q) :
    (m.size : ℚ) ≤ (2 ^ q : Nat) * m.loadFactor.ratio ↔ ¬ RoundsDown m := by
  have positive := ratio_positive m.loadFactor
  constructor
  · rintro within ⟨p,plow,past,half⟩
    have rounded : m.ideal ≤ (2 ^ p : Nat) := ideal_le (by exact_mod_cast half)
    have power : ((2 ^ q : Nat) : ℚ) ≤ (2 ^ p : Nat) := by exact_mod_cast compacted_le least plow rounded
    have product := mul_le_mul_of_nonneg_right power positive.le
    linarith
  · intro exact
    by_contra past
    exact exact ⟨q,low,not_le.mp past,covered q above⟩

theorem put_loaded {next : BiInt2ObjectMap V} (sound : Sound m) (within : m.size ≤ m.resizeThreshold)
    (stored : Put m key v old next) : next.size ≤ next.resizeThreshold := by
  rcases stored.sized with ⟨frame,below⟩ | ⟨slotted,threshold⟩
  · rw [frame.threshold]
    exact below
  · have eight := sound.capacity_ge
    have low := m.loadFactor.low
    have half : 1 / 2 ≤ (m.values.size : ℚ) * m.loadFactor.ratio := by nlinarith
    have twice := truncate_doubled half
    have grown := stored.grown
    rw [sound.threshold] at within
    rw [threshold,slotted,Nat.cast_mul,Nat.cast_ofNat,mul_assoc]
    omega

theorem compact_loaded (sound : Sound m) (enough : 2 ^ 30 ≤ fuel) (ran : compact fuel heap m = some (.ok () next)) :
    next.size ≤ next.resizeThreshold ↔ ¬ RoundsDown m := by
  obtain ⟨ended,same,moved,_⟩ := compact_run sound.orderly sound.ideal_small heap enough
  obtain ⟨q,low,_,above,least,rehashed⟩ := moved () next (Option.some.inj (same.symm.trans ran))
  rw [rehashed.counted,rehashed.threshold,le_truncate (product_nonnegative m.loadFactor _)]
  exact rounds_down_iff above least low

-- Only a compact that rounds down breaks the bound.
theorem did_loaded {ended : Ended (BiInt2ObjectMap V) Unit} (sound : Sound m) (within : m.size ≤ m.resizeThreshold)
    (nonnull : call.NonNull) (enough : 2 ^ 30 ≤ fuel) (did : Did fuel heap m call ended) :
    ∀ next, ended = .ok () next → (next.size ≤ next.resizeThreshold ↔ Meets m call) := by
  have counted := sound.counted
  cases did with
  | nothing quiet =>
    rintro _ ⟨⟩
    exact iff_of_true within fun same => by subst same; cases quiet
  | mapping applied =>
    intro _ equal
    cases equal
  | @put _ a b value done stores ran =>
    obtain ⟨v,rfl⟩ := stores.nonnull nonnull
    obtain ⟨other,same,result⟩ := put_run sound.orderly sound.tight heap a b v enough
    cases ran.symm.trans same
    cases done with
    | error thrown last =>
      intro _ equal
      cases equal
    | ok old last =>
      rintro _ ⟨⟩
      exact iff_of_true (put_loaded sound within (result _ _ rfl)) fun same => by subst same; cases stores
  | @remove a b done ran =>
    obtain ⟨value,last,same,_,frame,fewer,_⟩ := remove_run sound.orderly a b enough
    cases ran.symm.trans same
    rintro _ ⟨⟩
    refine iff_of_true ?_ fun same => by cases same
    rw [frame.threshold]
    omega
  | clear =>
    rintro _ ⟨⟩
    refine iff_of_true ?_ fun same => by cases same
    change 0 ≤ m.resizeThreshold
    omega
  | compact ran =>
    rintro next rfl
    exact (compact_loaded sound enough ran).trans ⟨fun exact _ => exact,fun meets => meets rfl⟩

theorem step_loaded {event : Call V × Reply V} {next : BiInt2ObjectMap V} (sound : Sound m) (within : m.size ≤ m.resizeThreshold)
    (nonnull : event.1.NonNull) (taken : Step m event next) : next.size ≤ next.resizeThreshold ↔ Meets m event.1 := by
  cases taken with
  | returned ends =>
    obtain ⟨fuel,enough,ran⟩ := ends.ample (2 ^ 30)
    exact did_loaded sound within nonnull enough (exec_did ran) next rfl

structure Kept (m : BiInt2ObjectMap V) : Prop where
  sound : Sound m
  represented : ∃ contents, Represents m contents
  within : m.size ≤ m.resizeThreshold

theorem runs_kept (kept : Kept start) (path : Runs (fun m event next => Step m event next ∧ Meets m event.1) start trace m)
    (nonnull : ∀ event ∈ trace, event.1.NonNull) : Kept m := by
  refine Runs.kept Kept kept ?_ path nonnull
  rintro m event next ⟨sound,⟨contents,represents⟩,within⟩ admitted ⟨taken,meets⟩
  obtain ⟨d,_,after,same⟩ := step_refines sound represents admitted taken
  exact ⟨after,⟨d,same⟩,(step_loaded sound within admitted taken).mpr meets⟩

theorem make_kept (int : initialCapacity < 2 ^ 31) (made : make heap initialCapacity ratio = .ok m) : Kept m := by
  obtain ⟨sound,represents⟩ := made_represents (make_bound int made) made
  refine ⟨sound,⟨_,represents⟩,?_⟩
  rw [make_empty (make_bound int made) made,sound.threshold]
  exact (le_truncate (product_nonnegative m.loadFactor _) 0).mpr (by exact_mod_cast product_nonnegative m.loadFactor m.values.size)

-- Runs keep the bound as long as no compact rounds down, and each next call
-- keeps it exactly when it is none that does.
theorem load_respected_iff (int : initialCapacity < 2 ^ 31) (made : make heap initialCapacity ratio = .ok start)
    (path : Runs (fun m event next => Step m event next ∧ Meets m event.1) start trace (m : BiInt2ObjectMap V))
    (nonnull : ∀ event ∈ trace, event.1.NonNull) :
    Loaded m ∧ ∀ event next, event.1.NonNull → Step m event next → (Loaded next ↔ Meets m event.1) := by
  obtain ⟨sound,⟨contents,represents⟩,within⟩ := runs_kept (make_kept int made) path nonnull
  refine ⟨⟨sound.threshold,within⟩,?_⟩
  intro event next admitted taken
  obtain ⟨_,_,after,_⟩ := step_refines sound represents admitted taken
  have exact := step_loaded sound within admitted taken
  exact ⟨fun loaded => exact.mp loaded.within,fun meets => ⟨after.threshold,exact.mpr meets⟩⟩

theorem load_respected_iff_put : ∃ start m : BiInt2ObjectMap Nat, ∃ reply, Step start (.put 0 0 (some 7),reply) m ∧
    Loaded m ∧ ∀ event next, event.1.NonNull → Step m event next → (Loaded next ↔ Meets m event.1) := by
  obtain ⟨start,m,reply,made,ends⟩ := default_put
  have path : Runs (fun m event next => Step m event next ∧ Meets m event.1) start [(.put 0 0 (some 7),reply)] m :=
    .one ⟨.returned ends,fun same => by cases same⟩
  refine ⟨start,m,reply,.returned ends,load_respected_iff (by norm_num [MIN_CAPACITY]) made path ?_⟩
  intro event listed
  cases List.mem_singleton.mp listed
  exact Option.some_ne_none 7

-- One entry at load factor 0.12: 1 / 0.12 is rounded down to 8 slots, which
-- are not to hold any.
theorem compact_overloads : ¬ ∀ (initialCapacity : Int) (heap : Heap) (ratio : ℚ) (start m : BiInt2ObjectMap Nat)
    (trace : List (Call Nat × Reply Nat)), initialCapacity < 2 ^ 31 → make heap initialCapacity ratio = .ok start →
      Runs Step start trace m → (∀ event ∈ trace, event.1.NonNull) → Loaded m := by
  intro every
  have ran : ((make ⟨true,true⟩ 8 (12 / 100)).toOption.bind fun start =>
      perform 16 start [Call.put 0 0 (some 7),.compact]).map (fun m => (m.size,m.resizeThreshold)) = some (1,0) := by decide +kernel
  obtain ⟨m,reached,sizes⟩ := Option.map_eq_some_iff.mp ran
  obtain ⟨start,built,calls⟩ := Option.bind_eq_some_iff.mp reached
  obtain ⟨replies,asked,path⟩ := perform_runs .nil calls
  have nonnull : ∀ event ∈ replies, event.1.NonNull := by
    intro event present
    have listed : event.1 ∈ [Call.put 0 0 (some 7),.compact] := asked ▸ List.mem_map_of_mem present
    rcases List.mem_pair.mp listed with put | compact
    · rw [put]
      exact Option.some_ne_none 7
    · rw [compact]
      trivial
  have loaded := every 8 ⟨true,true⟩ (12 / 100) start m replies (by norm_num) (toOption_ok built) path nonnull
  obtain ⟨one,zero⟩ := Prod.mk.inj sizes
  have within := loaded.within
  omega

end BiInt2ObjectMap
end Proteus
