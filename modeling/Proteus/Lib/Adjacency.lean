import Mathlib.Data.List.Chain
import Mathlib.Tactic.Common

namespace Proteus.Adjacency
variable {α : Type} {a b : α} {s t : List α}

-- b stands right after a, with a at index i.
def At (a b : α) (text : List α) (i : Nat) : Prop := text[i]? = some a ∧ text[i + 1]? = some b

def Apart (a b : α) (text : List α) : Prop := text.IsChain fun x y => ¬ (x = a ∧ y = b)

instance [DecidableEq α] (a b : α) (text : List α) : Decidable (Apart a b text) :=
  inferInstanceAs (Decidable (text.IsChain fun x y => ¬ (x = a ∧ y = b)))

theorem apart_iff : Apart a b s ↔ ∀ i, ¬ At a b s i := by
  rw [Apart,List.isChain_iff_getElem]
  constructor
  · rintro chain i ⟨first,second⟩
    obtain ⟨_,left⟩ := List.getElem?_eq_some_iff.mp first
    obtain ⟨bound,right⟩ := List.getElem?_eq_some_iff.mp second
    exact chain i bound ⟨left,right⟩
  · rintro nowhere i bound ⟨left,right⟩
    apply nowhere i
    exact ⟨List.getElem?_eq_some_iff.mpr ⟨_,left⟩,List.getElem?_eq_some_iff.mpr ⟨bound,right⟩⟩

theorem apart_append : Apart a b (s ++ t) ↔ Apart a b s ∧ Apart a b t ∧ ¬ (s.getLast? = some a ∧ t.head? = some b) := by
  rw [Apart,List.isChain_append]
  constructor
  · rintro ⟨left,right,between⟩
    exact ⟨left,right,fun touch => between a touch.1 b touch.2 ⟨rfl,rfl⟩⟩
  · rintro ⟨left,right,apart⟩
    refine ⟨left,right,?_⟩
    rintro x last y first ⟨rfl,rfl⟩
    exact apart ⟨last,first⟩

theorem Apart.part (apart : Apart a b t) (inner : s <:+: t) : Apart a b s := List.IsChain.infix apart inner

theorem apart_absent (absent : a ∉ s) : Apart a b s := by
  rw [apart_iff]
  rintro i ⟨first,_⟩
  exact absent (List.mem_of_getElem? first)

theorem Apart.after (apart : Apart a b t) (absent : a ∉ s) : Apart a b (s ++ t) :=
  apart_append.mpr ⟨apart_absent absent,apart,fun touch => absent (List.mem_of_getLast? touch.1)⟩

theorem Apart.before (apart : Apart a b s) (absent : b ∉ t) : Apart a b (s ++ t) := by
  refine apart_append.mpr ⟨apart,?_,fun touch => absent (List.mem_of_mem_head? touch.2)⟩
  rw [apart_iff]
  rintro i ⟨_,second⟩
  exact absent (List.mem_of_getElem? second)

-- Two texts without the pair have it in their join at the seam at most.
theorem at_append (left : Apart a b s) (right : Apart a b t) :
    At a b (s ++ t) i ↔ i + 1 = s.length ∧ s.getLast? = some a ∧ t.head? = some b := by
  have seam (index : i + 1 = s.length) : At a b (s ++ t) i ↔ s.getLast? = some a ∧ t.head? = some b := by
    rw [At,List.getElem?_append_left (by omega),List.getElem?_append_right (by omega),List.getLast?_eq_getElem?,
      List.head?_eq_getElem?,index,Nat.sub_self,← index,Nat.add_sub_cancel]
  constructor
  · intro there
    rcases Nat.lt_trichotomy (i + 1) s.length with inside | index | past
    · rw [At,List.getElem?_append_left (by omega),List.getElem?_append_left inside] at there
      exact absurd there (apart_iff.mp left i)
    · exact ⟨index,(seam index).mp there⟩
    · rw [At,List.getElem?_append_right (by omega),List.getElem?_append_right (by omega),
        show i + 1 - s.length = i - s.length + 1 by omega] at there
      exact absurd there (apart_iff.mp right _)
  · rintro ⟨index,touch⟩
    exact (seam index).mpr touch

theorem apart_flatten {pieces : List (List α)} (each : ∀ piece ∈ pieces, Apart a b piece ∧ piece.getLast? ≠ some a) :
    Apart a b pieces.flatten ∧ pieces.flatten.getLast? ≠ some a := by
  induction pieces with
  | nil => exact ⟨List.isChain_nil,by simp⟩
  | cons piece pieces ih =>
    obtain ⟨first,ends⟩ := each piece (List.mem_cons_self ..)
    obtain ⟨rest,last⟩ := ih fun p listed => each p (List.mem_cons_of_mem _ listed)
    rw [List.flatten_cons]
    refine ⟨apart_append.mpr ⟨first,rest,fun touch => ends touch.1⟩,?_⟩
    rw [List.getLast?_append]
    cases tail : pieces.flatten.getLast? with
    | none => simpa using ends
    | some x => rw [tail] at last; simpa using last

end Proteus.Adjacency
