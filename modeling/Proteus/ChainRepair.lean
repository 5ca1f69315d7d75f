import Proteus.MapFuel
import Proteus.MapInvariant

namespace Proteus.Table
open Probing
variable {V : Type}

-- The probe walk from `first`, as far as it stands on occupied slots.
inductive Reaches (t : Table V) (first : Nat) : Nat → Prop where
  | here : t.value first ≠ none → Reaches t first first
  | onward : Reaches t first index → t.value (advance (t.values.size - 1) index) ≠ none →
      Reaches t first (advance (t.values.size - 1) index)

-- The probe chain between calls. The keys under null values are arbitrary.
structure ProbeTable (V : Type) extends Table V where
  power : ∃ p, values.size = 2 ^ p
  vacant : ∃ i, i < values.size ∧ toTable.value i = none
  reached : ∀ i, toTable.value i ≠ none → toTable.Reaches (hash (values.size - 1) (toTable.key i)) i
  distinct : ∀ i j, toTable.value i ≠ none → toTable.value j ≠ none → toTable.key i = toTable.key j → i = j

theorem occupied_bound {t : Table V} (occupied : t.value i ≠ none) : i < t.values.size := by
  obtain ⟨v,held⟩ := Option.ne_none_iff_exists'.mp occupied
  exact value_bound held

theorem reaches_met {t : Table V} (power : t.values.size = 2 ^ p) (homeBound : first < t.values.size)
    (reached : t.Reaches first i) :
    i < t.values.size ∧ ∀ j, j < t.values.size →
      distance t.values.size first j ≤ distance t.values.size first i → t.value j ≠ none := by
  induction reached with
  | here occupied =>
    refine ⟨homeBound,?_⟩
    intro j below closer
    have start := distance_self t.values.size first
    have same : j = first := distance_injective homeBound below homeBound (by omega)
    rwa [same]
  | onward reached occupied ih =>
    rename_i index
    obtain ⟨bound,met⟩ := ih
    rw [advance_next power bound] at occupied ⊢
    refine ⟨next_lt bound,?_⟩
    intro j below closer
    by_cases wrapped : next t.values.size index = first
    · have start := distance_self t.values.size first
      have same : j = first := distance_injective homeBound below homeBound (by rw [wrapped] at closer; omega)
      rwa [same,← wrapped]
    · have walked := distance_next homeBound wrapped
      rcases Nat.lt_or_eq_of_le closer with earlier | last
      · exact met j below (by omega)
      · have same : j = next t.values.size index := distance_injective homeBound below (next_lt bound) last
        rwa [same]

theorem reaches_of_met {t : Table V} (power : t.values.size = 2 ^ p) (homeBound : first < t.values.size)
    (steps : Nat) (bound : i < t.values.size) (far : distance t.values.size first i = steps)
    (met : ∀ j, j < t.values.size → distance t.values.size first j ≤ steps → t.value j ≠ none) : t.Reaches first i := by
  induction steps generalizing i with
  | zero =>
    have same : i = first := distance_injective homeBound bound homeBound (by rw [far,distance_self])
    subst i
    exact .here (met first homeBound (by omega))
  | succ steps ih =>
    have apart : i ≠ first := by
      intro same
      rw [same,distance_self] at far
      cases far
    obtain ⟨before,inside,onward,walked⟩ := distance_previous homeBound bound apart
    have earlier := ih inside (by omega) (fun j below closer => met j below (by omega))
    have occupied := met i bound (by omega)
    rw [← onward,← advance_next power inside] at occupied ⊢
    exact .onward earlier occupied

theorem reaches_exact {t : Table V} (power : t.values.size = 2 ^ p) (homeBound : first < t.values.size) :
    t.Reaches first i ↔ i < t.values.size ∧ ∀ j, j < t.values.size →
      distance t.values.size first j ≤ distance t.values.size first i → t.value j ≠ none :=
  ⟨reaches_met power homeBound,fun ⟨bound,met⟩ => reaches_of_met power homeBound _ bound rfl met⟩

theorem ProbeTable.chained (t : ProbeTable V) : Chained t.values.size (home t.values.size) t.slots := by
  obtain ⟨p,power⟩ := t.power
  refine ⟨?_,?_⟩
  · intro i j k v bound below held closer empty
    obtain ⟨_,value,pair⟩ := Option.map_eq_some_iff.mp held
    cases pair
    have start : home t.values.size (t.key i) < t.values.size := home_lt (by omega) _
    have reached := t.reached i (by simp [value])
    exact ((reaches_exact power start).mp reached).2 j below (Nat.le_of_lt closer) (slots_none.mp empty)
  · intro i j k v w bound below left right
    obtain ⟨_,one,pair⟩ := Option.map_eq_some_iff.mp left
    cases pair
    obtain ⟨_,two,pair⟩ := Option.map_eq_some_iff.mp right
    have same : t.key j = t.key i := congrArg Prod.fst pair
    exact t.distinct i j (by simp [one]) (by simp [two]) same.symm

theorem ProbeTable.room (t : ProbeTable V) : (entries t.values.size t.slots).length < t.values.size := by
  obtain ⟨i,bound,empty⟩ := t.vacant
  exact entries_room bound (slots_none.mpr empty)

def ProbeTable.ofChained (t : Table V) (power : ∃ p, t.values.size = 2 ^ p)
    (chained : Chained t.values.size (home t.values.size) t.slots)
    (room : (entries t.values.size t.slots).length < t.values.size) : ProbeTable V where
  toTable := t
  power := power
  vacant := by
    obtain ⟨i,bound,empty⟩ := vacant_exists room
    exact ⟨i,bound,slots_none.mp empty⟩
  reached := by
    intro i occupied
    obtain ⟨p,size⟩ := power
    obtain ⟨v,held⟩ := Option.ne_none_iff_exists'.mp occupied
    have bound := value_bound held
    have start : home t.values.size (t.key i) < t.values.size := home_lt (by omega) _
    refine (reaches_exact size start).mpr ⟨bound,?_⟩
    intro j below closer empty
    rcases Nat.lt_or_eq_of_le closer with earlier | same
    · exact chained.reach i j (t.key i) v bound below (slots_some held) earlier (slots_none.mpr empty)
    · rw [distance_injective start below bound same] at empty
      exact occupied empty
  distinct := by
    intro i j left right same
    obtain ⟨v,one⟩ := Option.ne_none_iff_exists'.mp left
    obtain ⟨w,two⟩ := Option.ne_none_iff_exists'.mp right
    have other := slots_some two
    rw [← same] at other
    exact chained.distinct i j (t.key i) v w (value_bound one) (value_bound two) (slots_some one) other

-- What compactChain(d) leaves after slot d was emptied, whatever the fuel that
-- lets it end.
theorem compactChain_exact (t : ProbeTable V) (held : t.value d = some v) :
    ∃ after : ProbeTable V, after.values.size = t.values.size ∧
      (∀ fuel, t.values.size ≤ fuel →
        (t.setValue d none).compactChain (t.values.size - 1) fuel d d = some after.toTable) ∧
      (entries t.values.size t.slots).Perm ((t.key d,v) :: entries after.values.size after.slots) := by
  obtain ⟨p,power⟩ := t.power
  have bound := value_bound held
  have occupied := slots_some held
  obtain ⟨after,ran,fits,chained,kept⟩ :=
    compactChain_repairs power t.toTable rfl t.chained t.room bound occupied (Nat.le_refl _)
  have taken : (entries t.values.size t.slots).Perm ((t.key d,v) :: entries t.values.size after.slots) :=
    (entries_take t.slots bound occupied).trans (kept.symm.cons _)
  have counted := taken.length_eq
  have before := t.room
  rw [List.length_cons] at counted
  have sound : Chained after.values.size (home after.values.size) after.slots := fits.symm ▸ chained
  have room : (entries after.values.size after.slots).length < after.values.size := by rw [fits]; omega
  refine ⟨.ofChained after ⟨p,fits.trans power⟩ sound room,fits,?_,?_⟩
  · intro fuel enough
    exact compactChain_more ran enough
  · show (entries t.values.size t.slots).Perm ((t.key d,v) :: entries after.values.size after.slots)
    rw [fits]
    exact taken

-- A chain around the end of the array: two keys of slot 7, one of slot 0, and a
-- stale key in slot 2.
def turned : Table Nat :=
  ⟨#[9,8,17,0,0,0,0,1],#[some 90,some 80,none,none,none,none,none,some 10],rfl⟩

theorem turned_reached (i : Nat) (occupied : turned.value i ≠ none) : turned.Reaches (hash 7 (turned.key i)) i := by
  have last : turned.Reaches 7 7 := .here (by decide)
  have first : turned.Reaches 7 0 := .onward last (by decide)
  have second : turned.Reaches 0 1 := .onward (.here (by decide)) (by decide)
  have bound : i < 8 := occupied_bound occupied
  have places : ∀ j, j < 8 → turned.value j ≠ none → j = 0 ∨ j = 1 ∨ j = 7 := by decide
  rcases places i bound occupied with rfl | rfl | rfl
  · exact first
  · exact second
  · exact last

def turnedChain : ProbeTable Nat where
  toTable := turned
  power := ⟨3,rfl⟩
  vacant := ⟨2,by decide⟩
  reached := turned_reached
  distinct := by
    intro i j left right same
    have unlike : ∀ a, a < 8 → ∀ b, b < 8 →
        turned.value a ≠ none → turned.value b ≠ none → turned.key a = turned.key b → a = b := by decide
    exact unlike i (occupied_bound left) j (occupied_bound right) left right same

theorem compactChain_exact_turned : ∃ after : ProbeTable Nat, after.values.size = 8 ∧
    (∀ fuel, 8 ≤ fuel → (turned.setValue 7 none).compactChain 7 fuel 7 7 = some after.toTable) ∧
    (entries 8 turned.slots).Perm ((1,10) :: entries after.values.size after.slots) :=
  compactChain_exact turnedChain (by decide)

example : ((turned.setValue 7 none).compactChain 7 8 7 7).map Table.values =
    some #[some 80,none,none,none,none,none,none,some 90] := by decide

end Proteus.Table
