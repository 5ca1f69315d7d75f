import Proteus.MapOccupancy

namespace Proteus.BiInt2ObjectMap
open Hashing Execution
variable {V : Type} {m : BiInt2ObjectMap V}

-- compact, with memory for its arrays, returns; every key keeps its value, and
-- the capacity does not rise.
structure Compacted (m after : BiInt2ObjectMap V) : Prop where
  bindings : ∀ heap a b value,
    Ends heap after (.get a b) (.ok (.value value) after) ↔ Ends heap m (.get a b) (.ok (.value value) m)
  capacity : after.capacity ≤ m.capacity

def Compacts (m : BiInt2ObjectMap V) : Prop := ∃ after, Ends ⟨true,true⟩ m .compact (.ok .done after) ∧ Compacted m after

-- With memory for the arrays only a capacity that is no int can fail.
theorem rehash_returns (nonnegative : ¬ newCapacity < 0) (ran : rehash fuel ⟨true,true⟩ newCapacity m = some ended) :
    ∃ after, ended = .ok () after := by
  unfold rehash at ran
  dsimp only at ran
  rw [if_neg nonnegative] at ran
  obtain ⟨temp,_,equal⟩ := Option.map_eq_some_iff.mp ran
  exact ⟨_,equal.symm⟩

theorem put_returns (orderly : Orderly m) (small : m.values.size < 2 ^ 30)
    (ran : put fuel ⟨true,true⟩ a b value m = some ended) : ∃ old after, ended = .ok old after := by
  obtain ⟨p,low,high,fits⟩ := orderly.power
  have short : p < 30 := by
    rw [fits] at small
    exact (Nat.pow_lt_pow_iff_right (by decide)).mp small
  have doubled : ¬ int32 (m.values.size * 2) < 0 := by
    rw [fits,doubled_exact short]
    exact not_lt.mpr (Int.natCast_nonneg _)
  rw [put_stored] at ran
  split at ran
  · cases ran
  · rename_i i _
    split at ran
    · obtain ⟨last,grown,rfl⟩ := Option.map_eq_some_iff.mp ran
      unfold increaseCapacity at grown
      rw [(stored_frame m i (compoundKey a b) value).slotted] at grown
      dsimp only at grown
      rw [if_neg doubled] at grown
      obtain ⟨after,rfl⟩ := rehash_returns doubled grown
      exact ⟨_,_,rfl⟩
    · cases ran
      exact ⟨_,_,rfl⟩

theorem gets_agree {after : BiInt2ObjectMap V} (orderly : Orderly m) (kept : Orderly after)
    (same : after.entries.Perm m.entries) (heap : Heap) (a b : JInt) (value : Option V) :
    Ends heap after (.get a b) (.ok (.value value) after) ↔ Ends heap m (.get a b) (.ok (.value value) m) := by
  obtain ⟨v,before,held⟩ := get_run orderly a b (Nat.le_refl _)
  obtain ⟨w,later,found⟩ := get_run kept a b (Nat.le_refl _)
  have equal : w = v := Option.ext fun x => (found x).trans (same.mem_iff.trans (held x).symm)
  subst w
  constructor
  · intro ends
    obtain ⟨fuel,got⟩ := get_ended ends
    cases get_unique later got
    exact ended_get before heap
  · intro ends
    obtain ⟨fuel,got⟩ := get_ended ends
    cases get_unique before got
    exact ended_get later heap

theorem compacted_within (orderly : Orderly m) (within : m.ideal ≤ m.values.size) :
    ∃ capacity : Nat, m.compacted = capacity ∧ capacity ≤ m.values.size := by
  obtain ⟨p,low,high,fits⟩ := orderly.power
  have cap := capacity_bounds low high
  have counted := orderly.counted
  have bounded : m.ideal < 2 ^ 31 := by omega
  rcases compacted_exact (by omega) bounded with ⟨_,beyond⟩ | ⟨q,_,_,found,_,least⟩
  · omega
  · rw [fits] at within ⊢
    exact ⟨2 ^ q,found,compacted_le least low within⟩

theorem compact_returns (spared : Spared m) (within : m.ideal ≤ m.values.size) :
    ∃ after q, Ends ⟨true,true⟩ m .compact (.ok .done after) ∧ 3 ≤ q ∧ q ≤ 30 ∧ m.ideal ≤ (2 ^ q : Nat) ∧
      (2 ^ q : Nat) < 2 * max 8 m.ideal ∧ Rehashed m (2 ^ q) after := by
  obtain ⟨ended,ran,moved,_⟩ := compact_run spared.orderly spared.asked.small ⟨true,true⟩ (Nat.le_refl _)
  obtain ⟨capacity,found,_⟩ := compacted_within spared.orderly within
  have nonnegative : ¬ m.compacted < 0 := by
    rw [found]
    exact not_lt.mpr (Int.natCast_nonneg _)
  obtain ⟨after,rfl⟩ := rehash_returns nonnegative ((compact_rehash _ _ m).symm.trans ran)
  obtain ⟨q,low,high,above,least,rehashed⟩ := moved () after rfl
  exact ⟨after,q,⟨2 ^ 30,exec_compact ran⟩,low,high,above,least,rehashed⟩

theorem compacts_exact (spared : Spared m) : Compacts m ↔ m.ideal ≤ m.values.size := by
  obtain ⟨p,low,high,fits⟩ := spared.orderly.power
  constructor
  · rintro ⟨after,ends,_,capacity⟩
    obtain ⟨fuel,enough,ran⟩ := ends.ample (2 ^ 30)
    unfold exec at ran
    obtain ⟨done,compacted,reply⟩ := Option.map_eq_some_iff.mp ran
    obtain ⟨ended,same,moved,_⟩ := compact_run spared.orderly spared.asked.small ⟨true,true⟩ enough
    cases compacted.symm.trans same
    cases done with
    | error thrown last => cases reply
    | ok result last =>
      cases reply
      obtain ⟨q,_,_,above,_,rehashed⟩ := moved _ _ rfl
      have below : after.values.size ≤ m.values.size := capacity
      rw [rehashed.slotted] at below
      omega
  · intro within
    obtain ⟨after,q,ends,qlow,qhigh,above,least,rehashed⟩ := compact_returns spared within
    have kept := rehashed.orderly spared.orderly.counted qlow qhigh (compacted_room qlow qhigh above).1
    refine ⟨after,ends,gets_agree spared.orderly kept rehashed.entries,?_⟩
    change after.values.size ≤ m.values.size
    rw [rehashed.slotted,fits]
    exact compacted_le least low (fits ▸ within)

-- There one entry is compacted into 8 slots whose threshold is 0, and doubling
-- them for a second entry leaves fewer than its ideal capacity.
def Wasteful (ratio : ℚ) : Prop := 2 / 17 < ratio ∧ ratio ≤ 4 / 33

-- The ideal capacity stays within the capacity.
structure Economical (m : BiInt2ObjectMap V) : Prop where
  orderly : Orderly m
  fine : ¬ Wasteful m.loadFactor.ratio
  covers : 2 * (m.size : ℚ) < (2 * m.values.size + 1) * m.loadFactor.ratio
  below : (m.resizeThreshold : ℚ) ≤ m.values.size * m.loadFactor.ratio

theorem Economical.spared (economical : Economical m) : Spared m :=
  ⟨economical.orderly,slack_covered economical.covers economical.below economical.orderly.capacity_ge⟩

theorem Economical.within (economical : Economical m) : m.ideal ≤ m.values.size :=
  ideal_le (by exact_mod_cast economical.covers)

theorem Economical.left {threshold : Int} (economical : Economical m)
    (below : (threshold : ℚ) ≤ m.values.size * m.loadFactor.ratio) : Economical {m with resizeThreshold := threshold} :=
  ⟨⟨economical.orderly.power,economical.orderly.chained,economical.orderly.counted,economical.orderly.room⟩,
    economical.fine,economical.covers,below⟩

-- Only eight slots can be too few to double: there the entry that outgrows them
-- is the second.
theorem doubled_covers (lf : LoadFactor) (fine : ¬ Wasteful lf.ratio) (low : 3 ≤ p) {size after : Int}
    (covers : 2 * (size : ℚ) < (2 * (2 ^ p : Nat) + 1) * lf.ratio) (grown : after ≤ size + 1) :
    2 * (after : ℚ) < (2 * (2 * (2 ^ p : Nat)) + 1) * lf.ratio := by
  have tenth := lf.low
  have more : (after : ℚ) ≤ size + 1 := by exact_mod_cast grown
  have roomy : 1 ≤ ((2 ^ p : Nat) : ℚ) * lf.ratio → 2 * (after : ℚ) < (2 * (2 * (2 ^ p : Nat)) + 1) * lf.ratio := by
    intro one
    linarith
  rcases Nat.lt_or_ge 3 p with large | small
  · have sixteen : (16 : ℚ) ≤ (2 ^ p : Nat) := by exact_mod_cast Nat.pow_le_pow_right (by decide : 0 < 2) large
    exact roomy (by nlinarith)
  · have eight : p = 3 := by omega
    subst p
    norm_num at covers roomy ⊢
    rcases lt_trichotomy size 1 with none | one | several
    · have few : (after : ℚ) ≤ 1 := by exact_mod_cast (by omega : after ≤ 1)
      linarith
    · subst size
      have past : 2 / 17 < lf.ratio := by
        push_cast at covers
        linarith
      have beyond : 4 / 33 < lf.ratio := not_le.mp fun within => fine ⟨past,within⟩
      push_cast at more
      linarith
    · have two : (2 : ℚ) ≤ size := by exact_mod_cast several
      exact roomy (by linarith)

theorem put_economical {after : BiInt2ObjectMap V} (economical : Economical m) (stored : Put m key v old after) :
    Economical after := by
  obtain ⟨orderly,fine,covers,below⟩ := economical
  refine ⟨stored.orderly,stored.factor ▸ fine,?_,?_⟩
  · rw [stored.factor]
    rcases stored.sized with ⟨frame,within⟩ | ⟨slotted,_⟩
    · have size : (after.size : ℚ) ≤ m.resizeThreshold := by exact_mod_cast within
      have positive := ratio_positive m.loadFactor
      rw [frame.slotted]
      linarith
    · obtain ⟨p,low,_,fits⟩ := orderly.power
      rw [fits] at covers
      rw [slotted,fits,Nat.cast_mul,Nat.cast_ofNat]
      exact doubled_covers m.loadFactor fine low covers stored.grown
  · rw [stored.factor]
    rcases stored.sized with ⟨frame,_⟩ | ⟨_,threshold⟩
    · rw [frame.threshold,frame.slotted]
      exact below
    · rw [threshold]
      exact threshold_le m.loadFactor after.values.size

theorem moved_economical {after : BiInt2ObjectMap V} (economical : Economical m) (moved : Moved m after) :
    Economical after := by
  cases moved with
  | same => exact economical
  | put stored => exact put_economical economical stored
  | fewer kept frame fewer =>
    obtain ⟨_,fine,covers,below⟩ := economical
    have size : (after.size : ℚ) ≤ m.size := by exact_mod_cast fewer
    refine ⟨kept,frame.factor ▸ fine,?_,?_⟩
    · rw [frame.factor,frame.slotted]
      linarith
    · rw [frame.factor,frame.slotted,frame.threshold]
      exact below
  | @compacted q _ low high above rehashed =>
    have room := (compacted_room low high above).1
    refine ⟨rehashed.orderly economical.orderly.counted low high room,rehashed.factor ▸ economical.fine,?_,?_⟩
    · rw [rehashed.factor,rehashed.slotted,rehashed.counted]
      exact covered q above
    · rw [rehashed.factor,rehashed.slotted,rehashed.threshold]
      exact threshold_le m.loadFactor (2 ^ q)
  | uncompacted =>
    obtain ⟨capacity,found,within⟩ := compacted_within economical.orderly economical.within
    have product : (capacity : ℚ) * m.loadFactor.ratio ≤ m.values.size * m.loadFactor.ratio :=
      mul_le_mul_of_nonneg_right (by exact_mod_cast within) (ratio_positive m.loadFactor).le
    rw [found,Int.cast_natCast]
    exact economical.left ((threshold_le m.loadFactor capacity).trans product)

theorem attempt_economical {after : BiInt2ObjectMap V} (economical : Economical m) (nonnull : event.1.NonNull)
    (puts : PutsReturn event) (taken : Attempt m event after) : Economical after :=
  moved_economical economical
    (attempt_moved economical.orderly economical.spared.tight economical.spared.asked.small nonnull puts taken)

theorem runs_economical (economical : Economical start) (path : Runs Attempt start trace m)
    (admitted : ∀ event ∈ trace, event.1.NonNull ∧ PutsReturn event) : Economical m :=
  Runs.kept Economical economical (fun _ _ _ kept admitted taken => attempt_economical kept admitted.1 admitted.2 taken)
    path admitted

theorem make_factor (made : make heap initialCapacity ratio = .ok m) : (m : BiInt2ObjectMap V).loadFactor.ratio = ratio := by
  unfold make at made
  split at made
  · dsimp only at made
    split at made
    · cases made
    · split at made
      · rw [← Except.ok.inj made]
      · cases made
  · cases made

theorem make_economical (bound : initialCapacity ≤ 2 ^ 30) (made : make heap initialCapacity ratio = .ok m)
    (fine : ¬ Wasteful ratio) : Economical (m : BiInt2ObjectMap V) := by
  have sound := (make_sound bound made).1
  have minimum := sound.capacity_ge
  refine ⟨sound.orderly,by rwa [make_factor made],?_,sound.threshold_le⟩
  rw [make_empty bound made,Int.cast_zero,mul_zero]
  exact mul_pos (by linarith) (ratio_positive m.loadFactor)

theorem Put.added {after : BiInt2ObjectMap V} (stored : Put m key v old after) (orderly : Orderly m)
    (fresh : ∀ w, (key,w) ∉ m.entries) : after.size = m.size + 1 := by
  have before := (entries_nodup orderly).of_map
  have later := (entries_nodup stored.orderly).of_map
  have both : after.entries.Perm ((key,v) :: m.entries) := by
    apply (List.perm_ext_iff_of_nodup later (List.nodup_cons.mpr ⟨fresh v,before⟩)).mpr
    rintro ⟨k,w⟩
    rw [stored.members k w,List.mem_cons,Prod.mk.injEq]
    constructor
    · rintro (here | ⟨_,there⟩)
      · exact .inl here
      · exact .inr there
    · rintro (here | there)
      · exact .inl here
      · refine .inr ⟨?_,there⟩
        rintro rfl
        exact fresh w there
  have length := both.length_eq
  have counted := orderly.counted
  have recounted := stored.orderly.counted
  rw [List.length_cons] at length
  omega

-- At a wasteful load factor one entry is compacted into eight slots, which are
-- not to hold any.
theorem compacted_shut (spared : Spared m) (few : m.size ≤ 1) (wasteful : Wasteful m.loadFactor.ratio) :
    ∃ after, Ends ⟨true,true⟩ m .compact (.ok .done after) ∧ Rehashed m (2 ^ 3) after ∧ after.resizeThreshold ≤ 0 := by
  obtain ⟨past,within⟩ := wasteful
  have entry : (m.size : ℚ) ≤ 1 := by exact_mod_cast few
  have eight : m.ideal ≤ 8 := by
    apply ideal_le
    push_cast
    linarith
  obtain ⟨p,low,high,fits⟩ := spared.orderly.power
  have cap := capacity_bounds low high
  obtain ⟨after,q,ends,qlow,_,_,least,rehashed⟩ := compact_returns spared (by omega)
  have smallest : q = 3 := by
    have strict : 2 ^ q < 2 ^ 4 := by omega
    have below := (Nat.pow_lt_pow_iff_right (by decide)).mp strict
    omega
  subst q
  refine ⟨after,ends,rehashed,?_⟩
  have floor : (after.resizeThreshold : ℚ) ≤ (2 ^ 3 : Nat) * m.loadFactor.ratio := by
    rw [rehashed.threshold]
    exact threshold_le m.loadFactor (2 ^ 3)
  have strict : (after.resizeThreshold : ℚ) < 1 := by
    push_cast at floor
    linarith
  have integral : after.resizeThreshold < 1 := by exact_mod_cast strict
  omega

theorem put_outgrows (spared : Spared m) (small : m.values.size < 2 ^ 30) (shut : m.resizeThreshold ≤ 0) (v : V)
    (fresh : ∀ w, (compoundKey a b,w) ∉ m.entries) :
    ∃ old after, Ends ⟨true,true⟩ m (.put a b (some v)) (.ok (.value old) after) ∧ Put m (compoundKey a b) v old after ∧
      after.size = m.size + 1 ∧ after.values.size = 2 * m.values.size := by
  obtain ⟨ended,ran,result⟩ := put_run spared.orderly spared.tight ⟨true,true⟩ a b v (Nat.le_refl _)
  obtain ⟨old,after,rfl⟩ := put_returns spared.orderly small ran
  have stored := result old after rfl
  have added := stored.added spared.orderly fresh
  have counted := spared.orderly.counted
  refine ⟨old,after,⟨2 ^ 30,exec_put ran⟩,stored,added,?_⟩
  rcases stored.sized with ⟨_,within⟩ | ⟨slotted,_⟩
  · omega
  · exact slotted

theorem refilled (spared : Spared m) (few : m.size ≤ 1) (wasteful : Wasteful m.loadFactor.ratio) (v : V)
    (fresh : ∀ w, (compoundKey a b,w) ∉ m.entries) :
    ∃ trace after, Runs Attempt m trace after ∧ (∀ event ∈ trace, event.1.NonNull ∧ PutsReturn event) ∧
      after.size = m.size + 1 ∧ after.values.size = 16 ∧ after.loadFactor = m.loadFactor ∧
      ∀ k w, (k,w) ∈ after.entries → k = compoundKey a b ∨ (k,w) ∈ m.entries := by
  obtain ⟨middle,compacted,rehashed,shut⟩ := compacted_shut spared few wasteful
  have kept := attempt_spared spared (by trivial) (by trivial) (.returned compacted)
  have slots := rehashed.slotted
  obtain ⟨old,after,put,stored,added,doubled⟩ := put_outgrows kept (by omega) shut v
    (fun w held => fresh w (rehashed.entries.mem_iff.mp held))
  refine ⟨_,after,(Runs.one (.returned compacted)).snoc (.returned put),?_,?_,by omega,
    stored.factor.trans rehashed.factor,?_⟩
  · intro event listed
    rcases List.mem_pair.mp listed with rfl | rfl
    · exact ⟨trivial,trivial⟩
    · exact ⟨Option.some_ne_none v,trivial⟩
  · rw [added,rehashed.counted]
  · intro k w held
    rcases (stored.members k w).mp held with ⟨same,_⟩ | ⟨_,there⟩
    · exact .inl same
    · exact .inr (rehashed.entries.mem_iff.mp there)

-- Two entries in 16 slots, whose ideal capacity is 17.
theorem wasteful_run (bound : initialCapacity ≤ 2 ^ 30)
    (made : make ⟨true,true⟩ initialCapacity ratio = .ok (start : BiInt2ObjectMap V)) (wasteful : Wasteful ratio) (v : V) :
    ∃ trace m, Runs Attempt start trace m ∧ (∀ event ∈ trace, event.1.NonNull ∧ PutsReturn event) ∧ ¬ Compacts m := by
  have spared := make_spared bound made
  have empty := (make_sound bound made).2
  have nothing := make_empty bound made
  rw [← make_factor made] at wasteful
  obtain ⟨trace,one,path,admitted,single,_,factor,keys⟩ := refilled (a := 0) (b := 0) spared (by omega) wasteful v
    (fun w held => by rw [empty] at held; cases held)
  have kept := runs_spared spared path admitted
  obtain ⟨later,two,onward,also,double,slots,same,_⟩ := refilled (a := 0) (b := 1) kept (by omega)
    (by rw [factor]; exact wasteful) v (by
      intro w held
      rcases keys _ _ held with equal | there
      · exact absurd equal (by decide)
      · rw [empty] at there
        cases there)
  have whole : ∀ event ∈ trace ++ later, event.1.NonNull ∧ PutsReturn event := by
    intro event listed
    rcases List.mem_append.mp listed with before | after
    · exact admitted event before
    · exact also event after
  have last := runs_spared spared (path.append onward) whole
  refine ⟨_,two,path.append onward,whole,?_⟩
  intro compacts
  have ideal : two.ideal ≤ (2 ^ 4 : Nat) := by
    have within := (compacts_exact last).mp compacts
    rw [slots] at within
    exact within
  have size : (two.size : ℚ) = 2 := by
    rw [double,single,nothing]
    norm_num
  have covers := covered 4 ideal
  rw [size,same,factor] at covers
  have most := wasteful.2
  push_cast at covers
  linarith

-- At the other load factors, and only there, no compact of any run enlarges the
-- table; the initial capacity does not matter.
theorem compacts_iff (bound : initialCapacity ≤ 2 ^ 30) (low : 1 / 10 ≤ ratio) (high : ratio ≤ 9 / 10) (v : V) :
    (∃ start : BiInt2ObjectMap V, make ⟨true,true⟩ initialCapacity ratio = .ok start ∧
      ∀ trace m, Runs Attempt start trace m → (∀ event ∈ trace, event.1.NonNull ∧ PutsReturn event) → Compacts m) ↔
    ¬ (2 / 17 < ratio ∧ ratio ≤ 4 / 33) := by
  constructor
  · rintro ⟨start,made,every⟩ wasteful
    obtain ⟨trace,m,path,admitted,enlarges⟩ := wasteful_run bound made wasteful v
    exact enlarges (every trace m path admitted)
  · intro fine
    obtain ⟨start,made⟩ := make_succeeds (V := V) bound low high
    refine ⟨start,made,?_⟩
    intro trace m path admitted
    have economical := runs_economical (make_economical bound made fine) path admitted
    exact (compacts_exact economical.spared).mpr economical.within

theorem compacts_iff_default :
    (∃ start : BiInt2ObjectMap Nat, make ⟨true,true⟩ MIN_CAPACITY DEFAULT_LOAD_FACTOR = .ok start ∧
      ∀ trace m, Runs Attempt start trace m → (∀ event ∈ trace, event.1.NonNull ∧ PutsReturn event) → Compacts m) ↔
    ¬ (2 / 17 < DEFAULT_LOAD_FACTOR ∧ DEFAULT_LOAD_FACTOR ≤ 4 / 33) :=
  compacts_iff (by norm_num [MIN_CAPACITY]) (by norm_num [DEFAULT_LOAD_FACTOR]) (by norm_num [DEFAULT_LOAD_FACTOR]) 7

-- At load factor 0.12 two entries are in 16 slots, and compact asks for 32.
theorem compact_enlarges : ¬ ∀ (initialCapacity : Int) (ratio : ℚ) (start m : BiInt2ObjectMap Nat)
    (trace : List (Call Nat × Except Thrown (Reply Nat))), initialCapacity ≤ 2 ^ 30 → 1 / 10 ≤ ratio → ratio ≤ 9 / 10 →
      make ⟨true,true⟩ initialCapacity ratio = .ok start → Runs Attempt start trace m →
      (∀ event ∈ trace, event.1.NonNull ∧ PutsReturn event) → Compacts m := by
  intro every
  have ran : ((make ⟨true,true⟩ 8 (12 / 100)).toOption.bind fun start : BiInt2ObjectMap Nat =>
      (perform 32 start [.put 0 0 (some 7),.compact,.put 0 1 (some 8)]).bind fun m =>
        ((exec 32 ⟨true,true⟩ m .compact).bind Ended.returned).map fun returned =>
          (m.capacity,returned.2.capacity)) = some (16,32) := by decide +kernel
  obtain ⟨start,built,rest⟩ := Option.bind_eq_some_iff.mp ran
  obtain ⟨m,calls,last⟩ := Option.bind_eq_some_iff.mp rest
  obtain ⟨⟨reply,larger⟩,returned,sizes⟩ := Option.map_eq_some_iff.mp last
  obtain ⟨replies,asked,path⟩ := perform_runs .nil calls
  have admitted : ∀ event ∈ replies.map fun event => (event.1,Except.ok event.2),
      event.1.NonNull ∧ PutsReturn (V := Nat) event := by
    intro event listed
    obtain ⟨given,present,rfl⟩ := List.mem_map.mp listed
    have called : given.1 ∈ [Call.put 0 0 (some 7),.compact,.put 0 1 (some 8)] := asked ▸ List.mem_map_of_mem present
    refine ⟨?_,trivial⟩
    simp only [List.mem_cons,List.not_mem_nil,or_false] at called
    rcases called with first | compact | second
    · rw [first]
      exact Option.some_ne_none 7
    · rw [compact]
      trivial
    · rw [second]
      exact Option.some_ne_none 8
  obtain ⟨after,ends,_,within⟩ := every 8 (12 / 100) start m _ (by norm_num) (by norm_num) (by norm_num) (toOption_ok built)
    (runs_attempts path) admitted
  cases ends_unique ends (exec_returned returned)
  obtain ⟨sixteen,more⟩ := Prod.mk.inj sizes
  have enlarged : larger.capacity = 32 := more
  omega

end Proteus.BiInt2ObjectMap
