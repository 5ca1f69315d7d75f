import Proteus.Lib.Probing

namespace Proteus.Probing
variable {K V : Type} {n : Nat} {home : K → Nat}

-- Deletion without tombstones: behind an emptied slot the chain is scanned on,
-- and every entry whose probe walks over the hole moves back into it.
def move (slots : Slots K V) (hole index : Nat) (e : K × V) : Slots K V :=
  Function.update (Function.update slots hole (some e)) index none

def shift (n : Nat) (home : K → Nat) : Nat → Slots K V → Nat → Nat → Option (Slots K V)
  | 0,_,_,_ => none
  | fuel+1,slots,hole,index =>
    match slots (next n index) with
    | none => some slots
    | some e =>
      if distance n (home e.1) hole < distance n (home e.1) (next n index) then
        shift n home fuel (move slots hole (next n index) e) (next n index) (next n index)
      else shift n home fuel slots hole (next n index)

-- A chain with a travelling gap: only entries beyond the scan position may
-- still be cut off, and only by the hole.
structure Gap (n : Nat) (home : K → Nat) (slots : Slots K V) (hole index : Nat) : Prop where
  vacant : slots hole = none
  reach : ∀ i j k v, i < n → j < n → slots i = some (k,v) → distance n (home k) j < distance n (home k) i →
    slots j ≠ none ∨ j = hole ∧ distance n hole index < distance n hole i
  distinct : ∀ i j k v w, i < n → j < n → slots i = some (k,v) → slots j = some (k,w) → i = j

theorem distance_step (bound : index < n) (goalBound : goal < n) (apart : index ≠ goal) :
    distance n (next n index) goal + 1 = distance n index goal := by
  unfold next
  split
  · simp only [distance]; split <;> split <;> omega
  · simp only [distance]; split <;> split <;> omega

theorem distance_zero (bound : index < n) (none : distance n index goal = 0) : index = goal := by
  unfold distance at none
  split at none <;> omega

-- A slot between the hole and an entry lies on every probe that walks over
-- the hole to that entry.
theorem distance_between (homeBound : h < n) (holeBound : hole < n) (entryBound : p < n)
    (beyond : distance n h hole < distance n h p) (inside : distance n hole x < distance n hole p) :
    distance n h x < distance n h p := by
  unfold distance at *
  split at beyond <;> split at beyond <;> split at inside <;> split at inside <;> split <;> omega

theorem gap_opened {slots : Slots K V} (chained : Chained n home slots) :
    Gap n home (Function.update slots hole none) hole hole := by
  have before : ∀ i k v, Function.update slots hole none i = some (k,v) → i ≠ hole ∧ slots i = some (k,v) := by
    intro i k v held
    by_cases here : i = hole
    · subst i; simp at held
    · exact ⟨here,by rwa [Function.update_of_ne here] at held⟩
  refine ⟨by simp,?_,?_⟩
  · intro i j k v left right held closer
    obtain ⟨apart,old⟩ := before i k v held
    by_cases there : j = hole
    · refine Or.inr ⟨there,?_⟩
      subst j
      rw [distance_self]
      exact Nat.pos_of_ne_zero (fun none => apart (distance_zero right none).symm)
    · rw [Function.update_of_ne there]
      exact Or.inl (chained.reach i j k v left right old closer)
  · intro i j k v w left right held other
    exact chained.distinct i j k v w left right (before i k v held).2 (before j k w other).2

theorem gap_closed {slots : Slots K V} (homeBound : ∀ k, home k < n) (gap : Gap n home slots hole index)
    (holeBound : hole < n) (bound : index < n) (stopped : slots (next n index) = none) : Chained n home slots := by
  refine ⟨?_,gap.distinct⟩
  intro i j k v left right held closer
  rcases gap.reach i j k v left right held closer with occupied | ⟨rfl,beyond⟩
  · exact occupied
  · -- The scan stopped between the hole and this entry, on the path of the entry.
    have limit := distance_lt holeBound left
    have apart : next n index ≠ j := by
      intro wrapped
      have whole := distance_wrapped bound wrapped
      omega
    have walked := distance_next holeBound apart
    have inside := next_lt bound
    have short : distance n j (next n index) ≠ distance n j i := by
      intro same
      rw [distance_injective holeBound inside left same,held] at stopped
      cases stopped
    have inner : distance n j (next n index) < distance n j i := by omega
    have crossed := distance_between (homeBound k) holeBound left closer inner
    rcases gap.reach i (next n index) k v left inside held crossed with occupied | ⟨same,_⟩
    · exact absurd stopped occupied
    · exact absurd same apart

theorem gap_skips {slots : Slots K V} (gap : Gap n home slots hole index) (holeBound : hole < n) (bound : index < n)
    (held : slots (next n index) = some e)
    (stays : ¬ distance n (home e.1) hole < distance n (home e.1) (next n index)) :
    Gap n home slots hole (next n index) := by
  refine ⟨gap.vacant,?_,gap.distinct⟩
  intro i j k v left right occupied closer
  rcases gap.reach i j k v left right occupied closer with inside | ⟨rfl,beyond⟩
  · exact Or.inl inside
  · refine Or.inr ⟨rfl,?_⟩
    have apart : next n index ≠ j := by
      intro wrapped
      rw [wrapped,gap.vacant] at held
      cases held
    have walked := distance_next holeBound apart
    have short : distance n j (next n index) ≠ distance n j i := by
      intro same
      have here := distance_injective holeBound (next_lt bound) left same
      rw [here,occupied] at held
      cases held
      rw [here] at stays
      exact stays closer
    omega

-- Away from the emptied slot, what the moved table holds was held before, the
-- hole now holding what the emptied slot held.
theorem move_held {slots : Slots K V} (held : slots index = some e) (after : move slots hole index e p = some x) :
    p ≠ index ∧ slots (if p = hole then index else p) = some x := by
  by_cases last : p = index
  · subst p; simp [move] at after
  · refine ⟨last,?_⟩
    rw [move,Function.update_of_ne last] at after
    by_cases here : p = hole
    · subst p
      rw [Function.update_self] at after
      rw [if_pos rfl,held,after]
    · rw [Function.update_of_ne here] at after
      rw [if_neg here,after]

theorem gap_moves {slots : Slots K V} (gap : Gap n home slots hole index) (bound : i < n)
    (held : slots i = some e) (moves : distance n (home e.1) hole < distance n (home e.1) i) :
    Gap n home (move slots hole i e) i i := by
  have filled : ∀ j, j ≠ i → slots j ≠ none ∨ j = hole → move slots hole i e j ≠ none := by
    intro j apart kept
    rw [move,Function.update_of_ne apart]
    by_cases here : j = hole
    · subst j; simp
    · rw [Function.update_of_ne here]
      exact kept.resolve_right here
  refine ⟨by simp [move],?_,?_⟩
  · intro p j k v left right after closer
    obtain ⟨apart,before⟩ := move_held held after
    by_cases there : j = i
    · refine Or.inr ⟨there,?_⟩
      rw [distance_self]
      exact Nat.pos_of_ne_zero (fun none => apart (distance_zero bound none).symm)
    · refine Or.inl (filled j there ?_)
      by_cases here : p = hole
      · subst p
        rw [if_pos rfl,held] at before
        cases before
        -- The moved entry now ends its walk at the hole, short of where it stood.
        rcases gap.reach i j _ _ bound right held (Nat.lt_trans closer moves) with occupied | ⟨same,_⟩
        · exact Or.inl occupied
        · exact Or.inr same
      · rw [if_neg here] at before
        exact (gap.reach p j k v left right before closer).imp id And.left
  · intro p q k v w left right after other
    obtain ⟨apart,before⟩ := move_held held after
    obtain ⟨apart',before'⟩ := move_held held other
    by_cases here : p = hole <;> by_cases there : q = hole
    · rw [here,there]
    · rw [if_pos here] at before
      rw [if_neg there] at before'
      exact absurd (gap.distinct i q k v w bound right before before').symm apart'
    · rw [if_neg here] at before
      rw [if_pos there] at before'
      exact absurd (gap.distinct p i k v w left bound before before') apart
    · rw [if_neg here] at before
      rw [if_neg there] at before'
      exact gap.distinct p q k v w left right before before'

theorem entries_move {slots : Slots K V} (bound : index < n) (holeBound : hole < n) (vacant : slots hole = none)
    (held : slots index = some e) : (entries n (move slots hole index e)).Perm (entries n slots) := by
  have apart : index ≠ hole := fun same => by rw [same,vacant] at held; cases held
  have grown := entries_put slots holeBound vacant e
  have shrunk := entries_take (Function.update slots hole (some e)) bound
    (by rw [Function.update_of_ne apart]; exact held)
  exact (List.Perm.cons_inv (shrunk.symm.trans grown))

-- The scan ends at any slot that was empty all along, within as many tests as
-- the scan has slots before it.
theorem shift_repairs {slots : Slots K V} (homeBound : ∀ k, home k < n) (gap : Gap n home slots hole index)
    (holeBound : hole < n) (bound : index < n) (goalBound : goal < n) (empty : slots goal = none)
    (away : goal ≠ hole) (ahead : index ≠ goal) (enough : distance n index goal ≤ fuel) :
    ∃ after, shift n home fuel slots hole index = some after ∧ Chained n home after ∧
      (entries n after).Perm (entries n slots) := by
  induction fuel generalizing slots hole index with
  | zero => exact absurd (distance_zero bound (Nat.le_zero.mp enough)) ahead
  | succ fuel ih =>
    have inside := next_lt bound
    have walked := distance_step bound goalBound ahead
    unfold shift
    cases held : slots (next n index) with
    | none => exact ⟨slots,rfl,gap_closed homeBound gap holeBound bound held,List.Perm.refl _⟩
    | some e =>
      have short : next n index ≠ goal := fun same => by rw [same,empty] at held; cases held
      simp only
      split
      · rename_i moves
        have stillEmpty : move slots hole (next n index) e goal = none := by
          rw [move,Function.update_of_ne short.symm,Function.update_of_ne away,empty]
        obtain ⟨after,ran,repaired,kept⟩ := ih (gap_moves gap inside held moves) inside inside
          stillEmpty short.symm short (by omega)
        exact ⟨after,ran,repaired,kept.trans (entries_move inside holeBound gap.vacant held)⟩
      · rename_i stays
        exact ih (gap_skips gap holeBound bound held stays) holeBound inside empty away short (by omega)

end Proteus.Probing
