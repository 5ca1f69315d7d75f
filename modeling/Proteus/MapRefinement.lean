import Proteus.MapOperations
import Proteus.Lib.Execution

namespace Proteus.FiniteMap
open BiInt2ObjectMap
variable {V : Type}

-- What the map is for: at most one value for each pair of ints.
abbrev Contents (V : Type) := JInt × JInt → Option V

def empty : Contents V := fun _ => none

-- The bound pairs, each once, in any order.
def Enumerates (c : Contents V) (pairs : List (JInt × JInt)) : Prop :=
  pairs.Nodup ∧ ∀ pair, pair ∈ pairs ↔ c pair ≠ none

inductive Step : Contents V → Call V × Reply V → Contents V → Prop where
  | put : Step c (.put a b (some v),.value (c (a,b))) (Function.update c (a,b) (some v))
  | get : Step c (.get a b,.value (c (a,b))) c
  | remove : Step c (.remove a b,.value (c (a,b))) (Function.update c (a,b) none)
  | present : c (a,b) = some v → Step c (.computeIfAbsent a b f,.computed (some v) []) c
  | absent : c (a,b) = none → f a b = .ok result →
      Step c (.computeIfAbsent a b f,.computed result [(a,b)]) (Function.update c (a,b) result)
  | clear : Step c (.clear,.done) empty
  | compact : Step c (.compact,.done) c
  | size : Enumerates c pairs → Step c (.size,.count pairs.length) c
  | isEmpty : (b = true ↔ ∀ pair, c pair = none) → Step c (.isEmpty,.flag b) c
  | forEach : Enumerates c pairs → values.map some = pairs.map c → Step c (.forEach,.visited values) c

end Proteus.FiniteMap

namespace Proteus.BiInt2ObjectMap
open Hashing Execution
variable {V : Type}

def Represents (m : BiInt2ObjectMap V) (c : FiniteMap.Contents V) : Prop :=
  ∀ a b v, c (a,b) = some v ↔ (compoundKey a b,v) ∈ m.entries

-- The values a caller stores are not null.
def Call.NonNull : Call V → Prop
  | .put _ _ value => value ≠ none
  | _ => True

theorem Stores.nonnull {call : Call V} (stores : Stores call a b value) (nonnull : call.NonNull) : ∃ v, value = some v := by
  cases stores with
  | put => exact Option.ne_none_iff_exists'.mp nonnull
  | computed applied => exact ⟨_,rfl⟩

theorem represents_value {c : FiniteMap.Contents V} (represents : Represents m c) (value : Option V)
    (holds : ∀ w, value = some w ↔ (compoundKey a b,w) ∈ m.entries) : value = c (a,b) :=
  Option.ext fun w => (holds w).trans (represents a b w).symm

theorem represents_update {c : FiniteMap.Contents V} {next : BiInt2ObjectMap V} (represents : Represents m c)
    (value : Option V) (members : ∀ k w, (k,w) ∈ next.entries ↔
      k = compoundKey a b ∧ value = some w ∨ k ≠ compoundKey a b ∧ (k,w) ∈ m.entries) :
    Represents next (Function.update c (a,b) value) := by
  intro x y w
  rw [members]
  by_cases same : (x,y) = (a,b)
  · cases same
    simp
  · have other : compoundKey x y ≠ compoundKey a b := by
      intro equal
      obtain ⟨left,right⟩ := compoundKey_injective equal
      exact same (by rw [left,right])
    rw [Function.update_of_ne same]
    simp [other,represents x y w]

theorem represents_store {c : FiniteMap.Contents V} {next : BiInt2ObjectMap V} (represents : Represents m c)
    (members : ∀ k w, (k,w) ∈ next.entries ↔ k = compoundKey a b ∧ w = v ∨ k ≠ compoundKey a b ∧ (k,w) ∈ m.entries) :
    Represents next (Function.update c (a,b) (some v)) :=
  represents_update represents _ fun k w => (members k w).trans (by simp [eq_comm])

theorem represents_erase {c : FiniteMap.Contents V} {next : BiInt2ObjectMap V} (represents : Represents m c)
    (members : ∀ k w, (k,w) ∈ next.entries ↔ k ≠ compoundKey a b ∧ (k,w) ∈ m.entries) :
    Represents next (Function.update c (a,b) none) :=
  represents_update represents _ fun k w => (members k w).trans (by simp)

theorem represents_perm {c : FiniteMap.Contents V} {next : BiInt2ObjectMap V} (represents : Represents m c)
    (kept : next.entries.Perm m.entries) : Represents next c :=
  fun a b v => (represents a b v).trans kept.mem_iff.symm

def pairs (m : BiInt2ObjectMap V) : List (JInt × JInt) := m.entries.map fun e => (partA e.1,partB e.1)

theorem pairs_enumerate {c : FiniteMap.Contents V} (sound : Sound m) (represents : Represents m c) :
    FiniteMap.Enumerates c m.pairs := by
  constructor
  · have split : m.pairs = (m.entries.map Prod.fst).map fun k => (partA k,partB k) := by simp [pairs]
    rw [split]
    refine (entries_nodup sound.orderly).map ?_
    intro k k' same
    obtain ⟨left,right⟩ := Prod.mk.inj same
    rw [← compoundKey_parts k,left,right,compoundKey_parts]
  · intro pair
    obtain ⟨a,b⟩ := pair
    rw [Option.ne_none_iff_exists']
    constructor
    · intro present
      obtain ⟨⟨k,v⟩,held,same⟩ := List.mem_map.mp present
      obtain ⟨rfl,rfl⟩ := Prod.mk.inj same
      exact ⟨v,(represents _ _ v).mpr (by rw [compoundKey_parts]; exact held)⟩
    · rintro ⟨v,bound⟩
      exact List.mem_map.mpr ⟨_,(represents a b v).mp bound,by
        rw [show partA (compoundKey a b) = a from compoundKey_upper a b,
          show partB (compoundKey a b) = b from compoundKey_lower a b]⟩

theorem pairs_values {c : FiniteMap.Contents V} (represents : Represents m c) :
    (m.entries.map Prod.snd).map some = m.pairs.map c := by
  rw [pairs,List.map_map,List.map_map]
  refine List.map_congr_left ?_
  rintro ⟨k,v⟩ held
  exact ((represents (partA k) (partB k) v).mpr (by rw [compoundKey_parts]; exact held)).symm

theorem size_pairs (sound : Sound m) : m.size = (m.pairs.length : Int) := sound.counted.trans (by simp [pairs])

theorem isEmpty_exact {c : FiniteMap.Contents V} (sound : Sound m) (represents : Represents m c) :
    m.isEmpty = true ↔ ∀ pair, c pair = none := by
  obtain ⟨_,listed⟩ := pairs_enumerate sound represents
  simp only [isEmpty,size_pairs sound,decide_eq_true_eq]
  constructor
  · intro zero pair
    have nothing : m.pairs = [] := List.length_eq_zero_iff.mp (by omega)
    have absent : pair ∉ m.pairs := by rw [nothing]; simp
    exact Classical.byContradiction fun bound => absent ((listed pair).mpr bound)
  · intro unbound
    have nothing : m.pairs = [] :=
      List.eq_nil_iff_forall_not_mem.mpr fun pair present => (listed pair).mp present (unbound pair)
    rw [nothing]
    rfl

theorem computeIfAbsent_refines {c : FiniteMap.Contents V} (sound : Sound m) (represents : Represents m c) (heap : Heap)
    (a b : JInt) (f : EntryFunction V) (enough : 2 ^ 30 ≤ fuel) :
    ∃ ended, exec fuel heap m (.computeIfAbsent a b f) = some ended ∧ ∀ reply next, ended = .ok reply next →
      Sound next ∧ ∃ d, FiniteMap.Step c (.computeIfAbsent a b f,reply) d ∧ Represents next d := by
  obtain ⟨value,got,holds⟩ := get_run sound.orderly a b enough
  have current := represents_value represents value holds
  cases value with
  | some v =>
    refine ⟨_,by simp only [exec,computeIfAbsent,got,Option.map_some]; rfl,?_⟩
    intro reply next equal
    cases equal
    exact ⟨sound,c,.present current.symm,represents⟩
  | none =>
    cases applied : f a b with
    | error thrown =>
      exact ⟨_,by simp only [exec,computeIfAbsent,got,applied,Option.map_some]; rfl,by intro reply next equal; cases equal⟩
    | ok result =>
      cases result with
      | none =>
        refine ⟨_,by simp only [exec,computeIfAbsent,got,applied,Option.map_some]; rfl,?_⟩
        intro reply next equal
        cases equal
        have unchanged : Function.update c (a,b) none = c := by rw [current]; exact Function.update_eq_self _ _
        exact ⟨sound,_,.absent current.symm applied,by rw [unchanged]; exact represents⟩
      | some v =>
        obtain ⟨ended,ran,after⟩ := put_sound sound heap a b v enough
        refine ⟨_,by simp only [exec,computeIfAbsent,got,applied,ran,Option.map_some]; rfl,?_⟩
        intro reply next equal
        cases ended with
        | error thrown last => cases equal
        | ok old last =>
          cases equal
          obtain ⟨kept,_,members⟩ := after _ _ rfl
          exact ⟨kept,_,.absent current.symm applied,represents_store represents members⟩

-- One call of a sound map, with enough fuel, ends; and where it returns, the
-- finite map takes the same call with the same reply.
theorem exec_refines {c : FiniteMap.Contents V} (sound : Sound m) (represents : Represents m c) (heap : Heap)
    (call : Call V) (nonnull : call.NonNull) (enough : 2 ^ 30 ≤ fuel) :
    ∃ ended, exec fuel heap m call = some ended ∧ ∀ reply next, ended = .ok reply next →
      Sound next ∧ ∃ d, FiniteMap.Step c (call,reply) d ∧ Represents next d := by
  cases call with
  | put a b value =>
    obtain ⟨v,rfl⟩ := Option.ne_none_iff_exists'.mp nonnull
    obtain ⟨ended,ran,result⟩ := put_sound sound heap a b v enough
    refine ⟨_,exec_put ran,?_⟩
    intro reply next equal
    cases ended with
    | error thrown last => cases equal
    | ok old after =>
      cases equal
      obtain ⟨kept,holds,members⟩ := result _ _ rfl
      cases represents_value represents old holds
      exact ⟨kept,_,.put,represents_store represents members⟩
  | get a b =>
    obtain ⟨value,ran,holds⟩ := get_run sound.orderly a b enough
    refine ⟨_,exec_get ran heap,?_⟩
    intro reply next equal
    cases equal
    cases represents_value represents value holds
    exact ⟨sound,c,.get,represents⟩
  | remove a b =>
    obtain ⟨value,after,ran,kept,holds,members⟩ := remove_sound sound a b enough
    refine ⟨_,exec_remove ran heap,?_⟩
    intro reply next equal
    cases equal
    cases represents_value represents value holds
    exact ⟨kept,_,.remove,represents_erase represents members⟩
  | computeIfAbsent a b f => exact computeIfAbsent_refines sound represents heap a b f enough
  | clear =>
    refine ⟨_,rfl,?_⟩
    intro reply next equal
    cases equal
    obtain ⟨kept,nothing⟩ := clear_sound sound
    refine ⟨kept,_,.clear,?_⟩
    intro a b v
    rw [nothing]
    simp [FiniteMap.empty]
  | compact =>
    obtain ⟨ended,ran,result⟩ := compact_sound sound heap enough
    refine ⟨_,exec_compact ran,?_⟩
    intro reply next equal
    cases ended with
    | error thrown last => cases equal
    | ok old after =>
      cases equal
      obtain ⟨kept,same⟩ := result _ _ rfl
      exact ⟨kept,c,.compact,represents_perm represents same⟩
  | size =>
    refine ⟨_,rfl,?_⟩
    intro reply next equal
    cases equal
    rw [size_pairs sound]
    exact ⟨sound,c,.size (pairs_enumerate sound represents),represents⟩
  | isEmpty =>
    refine ⟨_,rfl,?_⟩
    intro reply next equal
    cases equal
    exact ⟨sound,c,.isEmpty (isEmpty_exact sound represents),represents⟩
  | forEach =>
    refine ⟨_,rfl,?_⟩
    intro reply next equal
    cases equal
    rw [forEach_entries]
    exact ⟨sound,c,.forEach (pairs_enumerate sound represents) (pairs_values represents),represents⟩

theorem step_refines {c : FiniteMap.Contents V} (sound : Sound m) (represents : Represents m c)
    (nonnull : event.1.NonNull) (taken : Step m event next) :
    ∃ d, FiniteMap.Step c event d ∧ Sound next ∧ Represents next d := by
  cases taken with
  | @returned heap call reply next ends =>
    obtain ⟨ended,ran,result⟩ := exec_refines sound represents heap call nonnull (Nat.le_refl _)
    cases ends_unique ends ⟨_,ran⟩
    obtain ⟨kept,d,abstractly,after⟩ := result reply next rfl
    exact ⟨d,abstractly,kept,after⟩

theorem made_represents (bound : initialCapacity ≤ 2 ^ 30) (made : make heap initialCapacity ratio = .ok m) :
    Sound m ∧ Represents (m : BiInt2ObjectMap V) FiniteMap.empty := by
  obtain ⟨sound,nothing⟩ := make_sound bound made
  refine ⟨sound,?_⟩
  intro a b v
  rw [nothing]
  simp [FiniteMap.empty]

theorem default_put : ∃ start m : BiInt2ObjectMap Nat, ∃ reply, make ⟨true,true⟩ MIN_CAPACITY DEFAULT_LOAD_FACTOR = .ok start ∧
    Ends ⟨true,true⟩ start (.put 0 0 (some 7)) (.ok reply m) := by
  obtain ⟨start,made,empty,four⟩ := makeDefault_fresh Nat
  have sound := (made_represents (by norm_num [MIN_CAPACITY]) made).1
  obtain ⟨old,m,ran,_⟩ := put_roomy sound ⟨true,true⟩ 0 0 7 (by omega) (Nat.le_refl _)
  exact ⟨start,m,.value old,made,2 ^ 30,exec_put ran⟩

theorem runs_simulate {c : FiniteMap.Contents V} (sound : Sound start) (represents : Represents start c)
    (path : Runs Step start trace m) (nonnull : ∀ event ∈ trace, event.1.NonNull) :
    ∃ d, Runs FiniteMap.Step c trace d ∧ Sound m ∧ Represents m d :=
  Runs.simulates (fun m d => Sound m ∧ Represents m d) ⟨sound,represents⟩
    (fun _ _ _ _ related admitted taken => step_refines related.1 related.2 admitted taken) path nonnull

-- Every run of calls that return is a run of the finite map with the same
-- replies, and in every state it reaches every call has exactly one ending.
theorem runs_refine (V : Type) (bound : initialCapacity ≤ 2 ^ 30) (low : 1 / 10 ≤ ratio) (high : ratio ≤ 9 / 10) :
    ∃ start : BiInt2ObjectMap V, make ⟨true,true⟩ initialCapacity ratio = .ok start ∧
      ∀ trace m, Runs Step start trace m → (∀ event ∈ trace, event.1.NonNull) →
        (∃ contents, Runs FiniteMap.Step FiniteMap.empty trace contents ∧ Represents m contents) ∧
        ∀ heap (call : Call V), call.NonNull →
          ∃ ended, Ends heap m call ended ∧ ∀ other, Ends heap m call other → other = ended := by
  obtain ⟨start,made⟩ := make_succeeds (V := V) bound low high
  obtain ⟨sound,represents⟩ := made_represents bound made
  refine ⟨start,made,?_⟩
  intro trace m path nonnull
  obtain ⟨contents,abstractPath,kept,after⟩ := runs_simulate sound represents path nonnull
  refine ⟨⟨contents,abstractPath,after⟩,?_⟩
  intro heap call admitted
  obtain ⟨ended,ran,_⟩ := exec_refines kept after heap call admitted (Nat.le_refl _)
  exact ⟨ended,⟨_,ran⟩,fun _ other => ends_unique ⟨_,ran⟩ other⟩

theorem runs_refine_tenth : ∃ start : BiInt2ObjectMap Nat, make ⟨true,true⟩ (2 ^ 30) (1 / 10) = .ok start ∧
    ∀ trace m, Runs Step start trace m → (∀ event ∈ trace, event.1.NonNull) →
      (∃ contents, Runs FiniteMap.Step FiniteMap.empty trace contents ∧ Represents m contents) ∧
      ∀ heap (call : Call Nat), call.NonNull →
        ∃ ended, Ends heap m call ended ∧ ∀ other, Ends heap m call other → other = ended :=
  runs_refine Nat (by norm_num) (by norm_num) (by norm_num)

end Proteus.BiInt2ObjectMap
