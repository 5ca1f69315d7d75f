import Mathlib.Logic.Function.Basic
import Mathlib.Data.List.Perm.Basic
import Mathlib.Data.List.Nodup
import Mathlib.Tactic.Common

namespace Proteus.Probing
variable {K V : Type} {n : Nat}

-- Open addressing on a ring of n slots, over any keys, values and home slots.
abbrev Slots (K V : Type) := Nat → Option (K × V)

def next (n index : Nat) : Nat := if index + 1 = n then 0 else index + 1

-- Slots a probe walks over before it stands on `index`, when it starts at `home`.
def distance (n home index : Nat) : Nat := if home ≤ index then index - home else n + index - home

theorem next_lt (bound : index < n) : next n index < n := by
  unfold next
  split <;> omega

theorem distance_self (n home : Nat) : distance n home home = 0 := by simp [distance]

theorem distance_lt (homeBound : home < n) (bound : index < n) : distance n home index < n := by
  unfold distance
  split <;> omega

theorem distance_injective (homeBound : home < n) (left : i < n) (right : j < n)
    (same : distance n home i = distance n home j) : i = j := by
  unfold distance at same
  split at same <;> split at same <;> omega

theorem distance_next (homeBound : home < n) (unwrapped : next n index ≠ home) :
    distance n home (next n index) = distance n home index + 1 := by
  unfold next at *
  split at unwrapped
  · rename_i last
    rw [if_pos last]
    simp only [distance]
    split <;> split <;> omega
  · rename_i inner
    rw [if_neg inner]
    simp only [distance]
    split <;> split <;> omega

-- The step that comes back to the home slot has met every slot.
theorem distance_wrapped (bound : index < n) (wrapped : next n index = home) :
    distance n home index + 1 = n := by
  subst home
  unfold next
  split
  · simp only [distance]; split <;> omega
  · simp only [distance]; split <;> omega

-- Every slot of the ring but the home slot has one before it on the walk.
theorem distance_previous (homeBound : home < n) (bound : index < n) (apart : index ≠ home) :
    ∃ i, i < n ∧ next n i = index ∧ distance n home index = distance n home i + 1 := by
  obtain ⟨i,inside,onward⟩ : ∃ i, i < n ∧ next n i = index := by
    cases index with
    | zero => exact ⟨n - 1,by omega,if_pos (by omega)⟩
    | succ i => exact ⟨i,by omega,if_neg (by omega)⟩
  have walked := distance_next homeBound (onward ▸ apart)
  exact ⟨i,inside,onward,onward ▸ walked⟩

def entries (n : Nat) (slots : Slots K V) : List (K × V) := (List.range n).filterMap slots

theorem mem_entries : e ∈ entries n slots ↔ ∃ i, i < n ∧ slots i = some e := by
  simp [entries,List.mem_filterMap]

theorem entries_congr (same : ∀ i, i < n → slots i = others i) : entries n slots = entries n others := by
  unfold entries
  exact List.filterMap_congr (fun i present => same i (List.mem_range.mp present))

theorem entries_succ (n : Nat) (slots : Slots K V) :
    entries (n + 1) slots = entries n slots ++ (slots n).toList := by
  unfold entries
  rw [List.range_succ,List.filterMap_append]
  cases last : slots n <;> simp [last]

theorem entries_take (slots : Slots K V) (bound : i < n) (occupied : slots i = some e) :
    (entries n slots).Perm (e :: entries n (Function.update slots i none)) := by
  induction n with
  | zero => omega
  | succ n ih =>
    rw [entries_succ,entries_succ]
    by_cases last : i = n
    · subst i
      have earlier : entries n (Function.update slots n none) = entries n slots :=
        entries_congr (fun j below => Function.update_of_ne (Nat.ne_of_lt below) _ _)
      simp only [occupied,earlier,Function.update_self,Option.toList_some,Option.toList_none,List.append_nil]
      exact List.perm_append_singleton e _
    · have earlier := ih (by omega)
      rw [Function.update_of_ne (Ne.symm last)]
      exact earlier.append_right _

theorem entries_put (slots : Slots K V) (bound : i < n) (vacant : slots i = none) (e : K × V) :
    (entries n (Function.update slots i (some e))).Perm (e :: entries n slots) := by
  have taken := entries_take (Function.update slots i (some e)) bound (Function.update_self ..)
  have restored : Function.update slots i none = slots := by rw [← vacant]; exact Function.update_eq_self i slots
  rwa [Function.update_idem,restored] at taken

theorem entries_length_le (n : Nat) (slots : Slots K V) : (entries n slots).length ≤ n := by
  simpa [entries] using List.length_filterMap_le slots (List.range n)

theorem entries_full {slots : Slots K V} (full : ∀ i, i < n → slots i ≠ none) : (entries n slots).length = n := by
  induction n with
  | zero => rfl
  | succ n ih =>
    obtain ⟨e,last⟩ := Option.ne_none_iff_exists'.mp (full n (Nat.lt_succ_self n))
    rw [entries_succ,List.length_append,ih (fun i below => full i (by omega)),last]
    rfl

theorem entries_occupied (n : Nat) (slots : Slots K V) :
    (entries n slots).length = ((List.range n).filter fun i => (slots i).isSome).length := by
  rw [entries,List.length_filterMap_eq_countP,List.countP_eq_length_filter]

theorem vacant_exists {slots : Slots K V} (room : (entries n slots).length < n) : ∃ i, i < n ∧ slots i = none := by
  apply Classical.byContradiction
  intro none
  have full : ∀ i, i < n → slots i ≠ Option.none := fun i below vacant => none ⟨i,below,vacant⟩
  have counted := entries_full full
  omega

theorem entries_room {slots : Slots K V} (bound : i < n) (vacant : slots i = none) : (entries n slots).length < n := by
  have shorter : (entries n slots).length < (List.range n).length :=
    List.length_filterMap_lt_length_iff_exists.mpr ⟨i,List.mem_range.mpr bound,by simp [vacant]⟩
  simpa using shorter

-- The probe loop: walk from `index` to the first slot that stops the walk.
-- None stands for a walk that is still under way when the fuel is spent.
def search (n : Nat) (stop : Nat → Bool) : Nat → Nat → Option Nat
  | 0,_ => none
  | fuel+1,index => if stop index then some index else search n stop fuel (next n index)

-- One stopping slot anywhere on the ring ends the walk, after at most as many
-- tests as there are slots, and at the first stopping slot met.
theorem search_from {stop : Nat → Bool} (homeBound : home < n) (goalBound : goal < n) (goalStops : stop goal = true)
    (fuel index : Nat) (bound : index < n) (ahead : distance n home index ≤ distance n home goal)
    (enough : distance n home goal - distance n home index < fuel)
    (passed : ∀ j, j < n → distance n home j < distance n home index → stop j = false) :
    ∃ r, search n stop fuel index = some r ∧ r < n ∧ stop r = true ∧
      ∀ j, j < n → distance n home j < distance n home r → stop j = false := by
  induction fuel generalizing index with
  | zero => omega
  | succ fuel ih =>
    cases here : stop index with
    | true => exact ⟨index,by simp [search,here],bound,here,passed⟩
    | false =>
      have apart : index ≠ goal := fun same => by rw [same,goalStops] at here; cases here
      have short : distance n home index ≠ distance n home goal :=
        fun same => apart (distance_injective homeBound bound goalBound same)
      have unwrapped : next n index ≠ home := by
        intro wrapped
        have limit := distance_lt homeBound goalBound
        have whole := distance_wrapped bound wrapped
        omega
      have walked := distance_next homeBound unwrapped
      have inside := next_lt bound
      obtain ⟨r,found,facts⟩ := ih (next n index) inside (by omega) (by omega) (by
        intro j below closer
        rcases Nat.lt_or_eq_of_le (Nat.le_of_lt_succ (walked ▸ closer)) with earlier | same
        · exact passed j below earlier
        · rw [distance_injective homeBound below bound same]; exact here)
      exact ⟨r,by simpa [search,here] using found,facts⟩

theorem search_stops (stop : Nat → Bool) (homeBound : home < n) (goalBound : goal < n) (goalStops : stop goal = true)
    (enough : n ≤ fuel) :
    ∃ r, search n stop fuel home = some r ∧ r < n ∧ stop r = true ∧
      ∀ j, j < n → distance n home j < distance n home r → stop j = false := by
  have limit := distance_lt homeBound goalBound
  refine search_from homeBound goalBound goalStops fuel home homeBound ?_ ?_ ?_
  · rw [distance_self]; exact Nat.zero_le _
  · omega
  · intro j _ closer
    rw [distance_self] at closer
    exact absurd closer (Nat.not_lt_zero _)

-- The slots that a walk passes are different ones, so it is no longer than there
-- are entries if it passes none that is free.
theorem walk_short {slots : Slots K V} (homeBound : home < n) (bound : i < n)
    (passed : ∀ j, j < n → distance n home j < distance n home i → slots j ≠ none) :
    distance n home i ≤ (entries n slots).length := by
  have inside := distance_lt homeBound bound
  have reached (k : Nat) (below : k < n) : (if home + k < n then home + k else home + k - n) < n ∧
      distance n home (if home + k < n then home + k else home + k - n) = k := by
    unfold distance
    split <;> constructor <;> first | omega | (split <;> omega)
  have apart : ((List.range (distance n home i)).map fun k => if home + k < n then home + k else home + k - n).Nodup := by
    refine List.Nodup.map_on ?_ List.nodup_range
    intro k first l second same
    have left := (reached k (Nat.lt_trans (List.mem_range.mp first) inside)).2
    have right := (reached l (Nat.lt_trans (List.mem_range.mp second) inside)).2
    rw [← left,← right]
    exact congrArg (distance n home) same
  have occupied : ((List.range (distance n home i)).map fun k => if home + k < n then home + k else home + k - n) ⊆
      (List.range n).filter fun j => (slots j).isSome := by
    intro j listed
    obtain ⟨k,member,rfl⟩ := List.mem_map.mp listed
    obtain ⟨below,exact⟩ := reached k (Nat.lt_trans (List.mem_range.mp member) inside)
    refine List.mem_filter.mpr ⟨List.mem_range.mpr below,?_⟩
    exact Option.isSome_iff_ne_none.mpr (passed _ below (by rw [exact]; exact List.mem_range.mp member))
  have fewer := (List.subperm_of_subset apart occupied).length_le
  rw [List.length_map,List.length_range] at fewer
  rw [entries_occupied]
  exact fewer

-- A search that nothing but occupied slots keeps going.
theorem search_short (slots : Slots K V) (stop : Nat → Bool) (homeBound : home < n) (goalBound : goal < n)
    (goalStops : stop goal = true) (held : ∀ j, j < n → stop j = false → slots j ≠ none) :
    ∃ r, search n stop ((entries n slots).length + 1) home = some r ∧ r < n ∧ stop r = true ∧
      distance n home r ≤ (entries n slots).length := by
  obtain ⟨r,_,bound,stops,passed⟩ := search_stops stop homeBound goalBound goalStops (Nat.le_refl n)
  have short := walk_short homeBound bound fun j below closer => held j below (passed j below closer)
  obtain ⟨found,searched,inside,stopped,before⟩ := search_from homeBound bound stops ((entries n slots).length + 1) home homeBound
    (by rw [distance_self]; exact Nat.zero_le _) (by rw [distance_self]; omega) (by
      intro j _ closer
      rw [distance_self] at closer
      exact absurd closer (Nat.not_lt_zero _))
  exact ⟨found,searched,inside,stopped,walk_short homeBound inside fun j below closer => held j below (before j below closer)⟩

-- The probe invariant: every entry is reached from the home slot of its key
-- through occupied slots, and no key is stored twice.
structure Chained (n : Nat) (home : K → Nat) (slots : Slots K V) : Prop where
  reach : ∀ i j k v, i < n → j < n → slots i = some (k,v) →
    distance n (home k) j < distance n (home k) i → slots j ≠ none
  distinct : ∀ i j k v w, i < n → j < n → slots i = some (k,v) → slots j = some (k,w) → i = j

theorem chained_empty (n : Nat) (home : K → Nat) : Chained n home (fun _ => (none : Option (K × V))) := by
  refine ⟨?_,?_⟩
  · intro _ _ _ _ _ _ occupied; cases occupied
  · intro _ _ _ _ _ _ _ occupied; cases occupied

theorem entries_keys_nodup {home : K → Nat} {slots : Slots K V} (chained : Chained n home slots) :
    ((entries n slots).map Prod.fst).Nodup := by
  have distinct := chained.distinct
  clear chained
  induction n with
  | zero => simp [entries]
  | succ n ih =>
    have earlier := ih (fun i j k v w left right => distinct i j k v w (by omega) (by omega))
    rw [entries_succ,List.map_append]
    cases last : slots n with
    | none => simpa using earlier
    | some e =>
      obtain ⟨k,v⟩ := e
      refine List.nodup_append.mpr ⟨earlier,by simp,?_⟩
      intro a old b new same
      obtain ⟨⟨k',w⟩,present,rfl⟩ := List.mem_map.mp old
      obtain ⟨i,below,occupied⟩ := mem_entries.mp present
      have equal : k' = k := by simpa using same.trans (by simpa using new)
      subst k'
      have here := distinct i n k w v (by omega) (by omega) occupied last
      omega

-- Where the walk for key k ends: all slots before it hold other keys.
structure Located (n : Nat) (home : K → Nat) (slots : Slots K V) (k : K) (i : Nat) : Prop where
  bound : i < n
  ended : ∀ e, slots i = some e → e.1 = k
  passed : ∀ j, j < n → distance n (home k) j < distance n (home k) i → ∃ e, slots j = some e ∧ e.1 ≠ k

theorem located_absent {home : K → Nat} {slots : Slots K V} (chained : Chained n home slots)
    (located : Located n home slots k i) (homeBound : home k < n) (vacant : slots i = none) (v : V) :
    (k,v) ∉ entries n slots := by
  intro present
  obtain ⟨j,below,occupied⟩ := mem_entries.mp present
  rcases Nat.lt_trichotomy (distance n (home k) j) (distance n (home k) i) with closer | same | farther
  · obtain ⟨e,held,other⟩ := located.passed j below closer
    rw [occupied] at held
    cases held
    exact other rfl
  · rw [distance_injective homeBound below located.bound same,vacant] at occupied
    cases occupied
  · exact chained.reach j i k v below located.bound occupied farther vacant

theorem located_present {home : K → Nat} {slots : Slots K V} (chained : Chained n home slots)
    (located : Located n home slots k i) (occupied : slots i = some (k,v)) (w : V) :
    (k,w) ∈ entries n slots ↔ w = v := by
  constructor
  · intro present
    obtain ⟨j,below,held⟩ := mem_entries.mp present
    have here := chained.distinct j i k w v below located.bound held occupied
    subst j
    rw [occupied] at held
    cases held
    rfl
  · rintro rfl
    exact mem_entries.mpr ⟨i,located.bound,occupied⟩

theorem chained_put {home : K → Nat} {slots : Slots K V} (chained : Chained n home slots)
    (fresh : ∀ w, (k,w) ∉ entries n slots)
    (passed : ∀ j, j < n → distance n (home k) j < distance n (home k) i → slots j ≠ none) (v : V) :
    Chained n home (Function.update slots i (some (k,v))) := by
  refine ⟨?_,?_⟩
  · intro a b key w left right held closer
    by_cases there : b = i
    · subst b; simp
    · rw [Function.update_of_ne there]
      by_cases here : a = i
      · subst a
        rw [Function.update_self] at held
        cases held
        exact passed b right closer
      · rw [Function.update_of_ne here] at held
        exact chained.reach a b key w left right held closer
  · intro a b key w x left right held other
    by_cases here : a = i
    · subst a
      rw [Function.update_self] at held
      cases held
      by_cases there : b = i
      · exact there.symm
      · rw [Function.update_of_ne there] at other
        exact absurd (mem_entries.mpr ⟨b,right,other⟩) (fresh x)
    · rw [Function.update_of_ne here] at held
      by_cases there : b = i
      · subst b
        rw [Function.update_self] at other
        cases other
        exact absurd (mem_entries.mpr ⟨a,left,held⟩) (fresh w)
      · rw [Function.update_of_ne there] at other
        exact chained.distinct a b key w x left right held other

theorem chained_replace {home : K → Nat} {slots : Slots K V} (chained : Chained n home slots)
    (occupied : slots i = some (k,old)) (v : V) : Chained n home (Function.update slots i (some (k,v))) := by
  -- The set of occupied slots and the key of each stay as they were.
  have keyed : ∀ a key w, Function.update slots i (some (k,v)) a = some (key,w) → ∃ x, slots a = some (key,x) := by
    intro a key w held
    by_cases here : a = i
    · subst a
      rw [Function.update_self] at held
      cases held
      exact ⟨old,occupied⟩
    · rw [Function.update_of_ne here] at held
      exact ⟨w,held⟩
  refine ⟨?_,?_⟩
  · intro a b key w left right held closer
    obtain ⟨x,before⟩ := keyed a key w held
    by_cases there : b = i
    · subst b; simp
    · rw [Function.update_of_ne there]
      exact chained.reach a b key x left right before closer
  · intro a b key w x left right held other
    obtain ⟨y,before⟩ := keyed a key w held
    obtain ⟨z,after⟩ := keyed b key x other
    exact chained.distinct a b key y z left right before after

theorem chained_store {home : K → Nat} {slots : Slots K V} (chained : Chained n home slots)
    (located : Located n home slots k i) (homeBound : home k < n) (v : V) :
    Chained n home (Function.update slots i (some (k,v))) := by
  cases held : slots i with
  | none =>
    refine chained_put chained (fun w => located_absent chained located homeBound held w) ?_ v
    intro j below closer vacant
    obtain ⟨e,occupied,_⟩ := located.passed j below closer
    rw [vacant] at occupied
    cases occupied
  | some e =>
    obtain ⟨key,old⟩ := e
    cases located.ended _ held
    exact chained_replace chained held v

theorem mem_entries_store {home : K → Nat} {slots : Slots K V} (chained : Chained n home slots)
    (located : Located n home slots k i) (homeBound : home k < n) (v : V) :
    (k',w) ∈ entries n (Function.update slots i (some (k,v))) ↔ k' = k ∧ w = v ∨ k' ≠ k ∧ (k',w) ∈ entries n slots := by
  have stored : Function.update slots i (some (k,v)) i = some (k,v) := by simp
  have after := chained_store chained located homeBound v
  by_cases same : k' = k
  · subst k'
    constructor
    · intro present
      obtain ⟨j,below,held⟩ := mem_entries.mp present
      cases after.distinct j i k w v below located.bound held stored
      rw [stored] at held
      cases held
      exact Or.inl ⟨rfl,rfl⟩
    · rintro (⟨_,rfl⟩ | ⟨other,_⟩)
      · exact mem_entries.mpr ⟨i,located.bound,stored⟩
      · exact absurd rfl other
  · -- A slot that holds another key is not the one written.
    have elsewhere : ∀ j, slots j = some (k',w) → j ≠ i := by
      rintro j held rfl
      exact same (located.ended _ held)
    constructor
    · intro present
      obtain ⟨j,below,held⟩ := mem_entries.mp present
      have apart : j ≠ i := by
        rintro rfl
        rw [stored] at held
        cases held
        exact same rfl
      rw [Function.update_of_ne apart] at held
      exact Or.inr ⟨same,mem_entries.mpr ⟨j,below,held⟩⟩
    · rintro (⟨equal,_⟩ | ⟨_,present⟩)
      · exact absurd equal same
      · obtain ⟨j,below,held⟩ := mem_entries.mp present
        exact mem_entries.mpr ⟨j,below,by rw [Function.update_of_ne (elsewhere j held)]; exact held⟩

theorem mem_entries_clear {home : K → Nat} {slots : Slots K V} (chained : Chained n home slots) (bound : i < n)
    (held : slots i = some (k,v)) :
    (k',w) ∈ entries n (Function.update slots i none) ↔ k' ≠ k ∧ (k',w) ∈ entries n slots := by
  constructor
  · intro present
    obtain ⟨j,below,occupied⟩ := mem_entries.mp present
    have apart : j ≠ i := by
      rintro rfl
      simp at occupied
    rw [Function.update_of_ne apart] at occupied
    refine ⟨?_,mem_entries.mpr ⟨j,below,occupied⟩⟩
    rintro rfl
    exact apart (chained.distinct j i k' w v below bound occupied held)
  · rintro ⟨other,present⟩
    obtain ⟨j,below,occupied⟩ := mem_entries.mp present
    have apart : j ≠ i := by
      rintro rfl
      rw [held] at occupied
      cases occupied
      exact other rfl
    exact mem_entries.mpr ⟨j,below,by rw [Function.update_of_ne apart]; exact occupied⟩

end Proteus.Probing
