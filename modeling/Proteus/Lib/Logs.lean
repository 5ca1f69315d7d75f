import Mathlib.Data.List.Nodup
import Mathlib.Data.List.Perm.Subperm

namespace Proteus.Logs
variable {A : Type} {entered left : List A} {pending later : A → Prop} {a : A}

theorem filterMap_snoc (f : L → Option A) (trace : List L) (label : L) :
    (trace ++ [label]).filterMap f = trace.filterMap f ++ (f label).toList := by
  rw [List.filterMap_append]
  cases known : f label <;> simp [known]

-- Work that passes from one log to another: everything entered stands in the
-- second log or is still pending, never both, and nothing stands anywhere twice.
structure Handoff (entered left : List A) (pending : A → Prop) : Prop where
  entered_once : entered.Nodup
  left_once : left.Nodup
  exact : ∀ a, a ∈ entered ↔ a ∈ left ∨ pending a
  apart : ∀ a ∈ left, ¬ pending a

theorem Handoff.empty (nothing : ∀ a, ¬ pending a) : Handoff [] [] pending :=
  ⟨List.nodup_nil,List.nodup_nil,fun a => by simp [nothing a],by simp⟩

theorem Handoff.congr (handoff : Handoff entered left pending) (same : ∀ a, later a ↔ pending a) :
    Handoff entered left later := by
  refine ⟨handoff.entered_once,handoff.left_once,?_,?_⟩
  · intro a
    rw [same,handoff.exact]
  · intro a gone waits
    exact handoff.apart a gone ((same a).mp waits)

theorem Handoff.enter (handoff : Handoff entered left pending) (fresh : a ∉ entered)
    (grown : ∀ b, later b ↔ b = a ∨ pending b) : Handoff (entered ++ [a]) left later := by
  refine ⟨?_,handoff.left_once,?_,?_⟩
  · exact List.nodup_append.mpr ⟨handoff.entered_once,List.nodup_singleton _,by
      rintro b listed c one rfl
      exact fresh (List.mem_singleton.mp one ▸ listed)⟩
  · intro b
    rw [List.mem_append,List.mem_singleton,grown,handoff.exact]
    tauto
  · intro b gone waits
    rcases (grown b).mp waits with rfl | before
    · exact fresh ((handoff.exact b).mpr (.inl gone))
    · exact handoff.apart b gone before

theorem Handoff.leave (handoff : Handoff entered left pending) (waits : pending a)
    (shrunk : ∀ b, later b ↔ b ≠ a ∧ pending b) : Handoff entered (left ++ [a]) later := by
  have inside : a ∉ left := fun gone => handoff.apart a gone waits
  refine ⟨handoff.entered_once,?_,?_,?_⟩
  · exact List.nodup_append.mpr ⟨handoff.left_once,List.nodup_singleton _,by
      rintro b listed c one rfl
      exact inside (List.mem_singleton.mp one ▸ listed)⟩
  · intro b
    rw [List.mem_append,List.mem_singleton,shrunk,handoff.exact]
    by_cases equal : b = a
    · subst equal
      simp [waits]
    · simp [equal]
  · intro b gone waits
    obtain ⟨other,before⟩ := (shrunk b).mp waits
    rcases List.mem_append.mp gone with old | new
    · exact handoff.apart b old before
    · exact other (List.mem_singleton.mp new)

theorem Handoff.within (handoff : Handoff entered left pending) : left ⊆ entered :=
  fun a gone => (handoff.exact a).mpr (.inl gone)

theorem Handoff.settled (handoff : Handoff entered left pending) (done : ∀ a, ¬ pending a) :
    entered.Perm left := by
  apply (List.perm_ext_iff_of_nodup handoff.entered_once handoff.left_once).mpr
  intro a
  rw [handoff.exact]
  exact ⟨fun either => either.resolve_right (done a),.inl⟩

-- Of any kind of work, no more leaves than was entered.
theorem Handoff.bounded (handoff : Handoff entered left pending) (p : A → Bool) :
    (left.filter p).length ≤ (entered.filter p).length := by
  apply List.Subperm.length_le
  apply List.subperm_of_subset (handoff.left_once.filter _)
  intro a kept
  obtain ⟨gone,same⟩ := List.mem_filter.mp kept
  exact List.mem_filter.mpr ⟨handoff.within gone,same⟩

theorem keyed_once [DecidableEq K] (key : A → K) (k : K) (distinct : (entered.map key).Nodup) :
    (entered.filter fun a => key a = k).length ≤ 1 := by
  have counted := List.nodup_iff_count_le_one.mp distinct k
  rw [List.count,List.countP_map,List.countP_eq_length_filter] at counted
  exact counted

end Proteus.Logs
