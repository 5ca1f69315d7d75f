import Proteus.MapRefinement

namespace Proteus.BiInt2ObjectMap
open Hashing Execution
variable {V : Type}

-- A call, or a moment of a computeIfAbsent whose mapping function may call the
-- map again: it finds a value, it applies the function, or the function is done
-- with a value, with null or with an exception.
inductive Moment (V : Type) where
  | called (call : Call V) (reply : Reply V)
  | present (keyPartA keyPartB : JInt) (value : V)
  | applied (keyPartA keyPartB : JInt)
  | computed (value : V)
  | nothing
  | threw

def Moment.NonNull : Moment V → Prop
  | .called call _ => call.NonNull
  | _ => True

-- A map, and the keys of the mapping functions that are running, innermost first.
structure Reentry (M : Type) where
  map : M
  applying : List (JInt × JInt)

-- computeIfAbsent gets, applies and puts; between the last two anything may be
-- called, and only calls that return are steps.
inductive ReentrantStep : Reentry (BiInt2ObjectMap V) → Moment V → Reentry (BiInt2ObjectMap V) → Prop where
  | call : Step m (call,reply) next → ReentrantStep ⟨m,applying⟩ (.called call reply) ⟨next,applying⟩
  | present : get fuel a b m = some (some value) → ReentrantStep ⟨m,applying⟩ (.present a b value) ⟨m,applying⟩
  | apply : get fuel a b m = some none → ReentrantStep ⟨m,applying⟩ (.applied a b) ⟨m,(a,b) :: applying⟩
  | put : put fuel heap a b (some value) m = some (.ok old next) →
      ReentrantStep ⟨m,(a,b) :: applying⟩ (.computed value) ⟨next,applying⟩
  | null : ReentrantStep ⟨m,pair :: applying⟩ .nothing ⟨m,applying⟩
  | threw : ReentrantStep ⟨m,pair :: applying⟩ .threw ⟨m,applying⟩

-- The same of the finite map: what a function leaves behind stays, but for the
-- value of its own key.
inductive FiniteReentrant : Reentry (FiniteMap.Contents V) → Moment V → Reentry (FiniteMap.Contents V) → Prop where
  | call : FiniteMap.Step c (call,reply) d → FiniteReentrant ⟨c,applying⟩ (.called call reply) ⟨d,applying⟩
  | present : c (a,b) = some value → FiniteReentrant ⟨c,applying⟩ (.present a b value) ⟨c,applying⟩
  | apply : c (a,b) = none → FiniteReentrant ⟨c,applying⟩ (.applied a b) ⟨c,(a,b) :: applying⟩
  | put : FiniteReentrant ⟨c,(a,b) :: applying⟩ (.computed value) ⟨Function.update c (a,b) (some value),applying⟩
  | null : FiniteReentrant ⟨c,pair :: applying⟩ .nothing ⟨c,applying⟩
  | threw : FiniteReentrant ⟨c,pair :: applying⟩ .threw ⟨c,applying⟩

structure Mirrored (s : Reentry (BiInt2ObjectMap V)) (a : Reentry (FiniteMap.Contents V)) : Prop where
  sound : Sound s.map
  represents : Represents s.map a.map
  applying : s.applying = a.applying

theorem got_represented {c : FiniteMap.Contents V} (sound : Sound m) (represents : Represents m c)
    (got : get fuel a b m = some value) : value = c (a,b) := by
  obtain ⟨found,ran,holds⟩ := get_run sound.orderly a b (Nat.le_refl _)
  rw [get_unique got ran]
  exact represents_value represents found holds

theorem put_represented {c : FiniteMap.Contents V} {next : BiInt2ObjectMap V} (sound : Sound m) (represents : Represents m c)
    (ran : put fuel heap a b (some v) m = some (.ok old next)) :
    Sound next ∧ Represents next (Function.update c (a,b) (some v)) := by
  obtain ⟨ended,same,result⟩ := put_sound sound heap a b v (Nat.le_max_right fuel (2 ^ 30))
  cases (put_more ran (Nat.le_max_left fuel (2 ^ 30))).symm.trans same
  obtain ⟨kept,_,members⟩ := result _ _ rfl
  exact ⟨kept,represents_store represents members⟩

theorem moment_refines {s next : Reentry (BiInt2ObjectMap V)} {a : Reentry (FiniteMap.Contents V)} (mirrored : Mirrored s a)
    (nonnull : moment.NonNull) (taken : ReentrantStep s moment next) : ∃ b, FiniteReentrant a moment b ∧ Mirrored next b := by
  obtain ⟨c,applying⟩ := a
  obtain ⟨sound,represents,same⟩ := mirrored
  cases taken with
  | @call m call reply next frames ran =>
    cases same
    obtain ⟨d,abstractly,kept,after⟩ := step_refines sound represents (show (call,reply).1.NonNull from nonnull) ran
    exact ⟨_,.call abstractly,kept,after,rfl⟩
  | present got =>
    cases same
    exact ⟨_,.present (got_represented sound represents got).symm,sound,represents,rfl⟩
  | apply got =>
    cases same
    exact ⟨_,.apply (got_represented sound represents got).symm,sound,represents,rfl⟩
  | put ran =>
    cases same
    obtain ⟨kept,after⟩ := put_represented sound represents ran
    exact ⟨_,.put,kept,after,rfl⟩
  | null =>
    cases same
    exact ⟨_,.null,sound,represents,rfl⟩
  | threw =>
    cases same
    exact ⟨_,.threw,sound,represents,rfl⟩

def moments (a b : JInt) (value : Option V) : List (JInt × JInt) → List (Moment V)
  | [] => value.toList.map (.present a b)
  | _ => [.applied a b,value.elim .nothing .computed]

theorem computeIfAbsent_moments {next : BiInt2ObjectMap V} (applying : List (JInt × JInt))
    (ran : computeIfAbsent fuel heap a b f m = some (.ok (value,applied) next)) :
    Runs ReentrantStep ⟨m,applying⟩ (moments a b value applied) ⟨next,applying⟩ := by
  unfold computeIfAbsent at ran
  cases got : get fuel a b m with
  | none =>
    rw [got] at ran
    cases ran
  | some current =>
    rw [got] at ran
    cases current with
    | some v =>
      cases ran
      exact .one (.present got)
    | none =>
      have entered : Runs ReentrantStep ⟨m,applying⟩ [.applied a b] ⟨m,(a,b) :: applying⟩ := .one (.apply got)
      dsimp only at ran
      cases result : f a b with
      | error thrown =>
        rw [result] at ran
        cases ran
      | ok computed =>
        rw [result] at ran
        cases computed with
        | none =>
          cases ran
          exact entered.snoc .null
        | some v =>
          obtain ⟨ended,stored,equal⟩ := Option.map_eq_some_iff.mp ran
          cases ended with
          | error thrown last => cases equal
          | ok old last =>
            cases equal
            exact entered.snoc (.put stored)

-- However deep the mapping functions call back into the map, every run is one of
-- the finite map, no call hangs, and every computeIfAbsent has a next moment.
theorem reentrant_refines (V : Type) (bound : initialCapacity ≤ 2 ^ 30) (low : 1 / 10 ≤ ratio) (high : ratio ≤ 9 / 10) :
    ∃ start : BiInt2ObjectMap V, make ⟨true,true⟩ initialCapacity ratio = .ok start ∧
      ∀ trace s, Runs ReentrantStep ⟨start,[]⟩ trace s → (∀ moment ∈ trace, moment.NonNull) →
        (∃ contents, Runs FiniteReentrant ⟨FiniteMap.empty,[]⟩ trace ⟨contents,s.applying⟩ ∧ Represents s.map contents ∧
          ∀ a b, (∀ value, contents (a,b) = some value → ∃ next, ReentrantStep s (.present a b value) next) ∧
            (contents (a,b) = none → ∃ next, ReentrantStep s (.applied a b) next)) ∧
        ∀ heap (call : Call V), call.NonNull → ∃ ended, Ends heap s.map call ended := by
  obtain ⟨start,made⟩ := make_succeeds (V := V) bound low high
  obtain ⟨sound,represents⟩ := made_represents bound made
  refine ⟨start,made,?_⟩
  intro trace s path nonnull
  have begins : Mirrored ⟨start,[]⟩ (⟨FiniteMap.empty,[]⟩ : Reentry (FiniteMap.Contents V)) := ⟨sound,represents,rfl⟩
  obtain ⟨⟨contents,applying⟩,abstractly,kept,after,same⟩ :
      ∃ a, Runs FiniteReentrant ⟨FiniteMap.empty,[]⟩ trace a ∧ Mirrored s a := by
    refine Runs.simulates Mirrored begins ?_ path nonnull
    intro s a moment next mirrored admitted taken
    exact moment_refines mirrored admitted taken
  obtain ⟨m,frames⟩ := s
  cases same
  refine ⟨⟨contents,abstractly,after,?_⟩,?_⟩
  · intro a b
    obtain ⟨value,got,holds⟩ := get_run kept.orderly a b (Nat.le_refl _)
    have current : value = contents (a,b) := represents_value after value holds
    constructor
    · intro v held
      exact ⟨_,.present (got.trans (congrArg some (current.trans held)))⟩
    · intro absent
      exact ⟨_,.apply (got.trans (congrArg some (current.trans absent)))⟩
  · intro heap call admitted
    obtain ⟨ended,ran,_⟩ := exec_refines kept after heap call admitted (Nat.le_refl _)
    exact ⟨ended,_,ran⟩

theorem reentrant_refines_default : ∃ start : BiInt2ObjectMap Nat, make ⟨true,true⟩ MIN_CAPACITY DEFAULT_LOAD_FACTOR = .ok start ∧
    ∀ trace s, Runs ReentrantStep ⟨start,[]⟩ trace s → (∀ moment ∈ trace, moment.NonNull) →
      (∃ contents, Runs FiniteReentrant ⟨FiniteMap.empty,[]⟩ trace ⟨contents,s.applying⟩ ∧ Represents s.map contents ∧
        ∀ a b, (∀ value, contents (a,b) = some value → ∃ next, ReentrantStep s (.present a b value) next) ∧
          (contents (a,b) = none → ∃ next, ReentrantStep s (.applied a b) next)) ∧
      ∀ heap (call : Call Nat), call.NonNull → ∃ ended, Ends heap s.map call ended :=
  reentrant_refines Nat (by norm_num [MIN_CAPACITY]) (by norm_num [DEFAULT_LOAD_FACTOR]) (by norm_num [DEFAULT_LOAD_FACTOR])

end Proteus.BiInt2ObjectMap
