import Mathlib.Tactic.Common

namespace Proteus.Mapping
variable {D E S A B C : Type} {f : A → EStateM E S B} {a : A} {s t : S}

-- Items put through a function one by one, until it throws: what came out, what
-- was thrown, and the state it left.
structure Mapped (E S B : Type) where
  results : List B
  thrown : Option E
  state : S

def mapping (f : A → EStateM E S B) : List A → S → Mapped E S B
  | [],s => ⟨[],none,s⟩
  | a :: items,s =>
    match f a s with
    | .error thrown t => ⟨[],some thrown,t⟩
    | .ok b t =>
      let rest := mapping f items t
      ⟨b :: rest.results,rest.thrown,rest.state⟩

theorem mapping_ok (ran : f a s = .ok b t) (items : List A) : mapping f (a :: items) s =
    ⟨b :: (mapping f items t).results,(mapping f items t).thrown,(mapping f items t).state⟩ := by
  rw [mapping,ran]

theorem mapping_error (ran : f a s = .error thrown t) (items : List A) : mapping f (a :: items) s = ⟨[],some thrown,t⟩ := by
  rw [mapping,ran]

-- A function that throws at none of the items, with what it returns and what
-- becomes of the state.
theorem mapping_all {h : C → A} {g : C → B} (step : S → C → S) (items : List C)
    (each : ∀ c ∈ items, ∀ s, f (h c) s = .ok (g c) (step s c)) (s : S) :
    mapping f (items.map h) s = ⟨items.map g,none,items.foldl step s⟩ := by
  induction items generalizing s with
  | nil => rfl
  | cons c items ih =>
    obtain ⟨first,rest⟩ := List.forall_mem_cons.mp each
    rw [List.map_cons,mapping_ok (first s),ih rest]
    rfl

-- A function that does its step of the state even where it throws: the steps of
-- all items, or of those up to the first it throws at.
theorem mapping_cases {g : A → Except D B} (wrap : D → E) (step : S → A → S)
    (ok : ∀ a b s, g a = .ok b → f a s = .ok b (step s a))
    (error : ∀ a thrown s, g a = .error thrown → f a s = .error (wrap thrown) (step s a)) (items : List A) (s : S) :
    (∃ results, items.map g = results.map .ok ∧ mapping f items s = ⟨results,none,items.foldl step s⟩) ∨
    ∃ front a back thrown results, items = front ++ a :: back ∧ front.map g = results.map .ok ∧ g a = .error thrown ∧
      mapping f items s = ⟨results,some (wrap thrown),(front ++ [a]).foldl step s⟩ := by
  induction items generalizing s with
  | nil => exact .inl ⟨[],rfl,rfl⟩
  | cons a items ih =>
    cases outcome : g a with
    | error thrown =>
      exact .inr ⟨[],a,items,thrown,[],rfl,rfl,outcome,mapping_error (error a thrown s outcome) items⟩
    | ok b =>
      have first := mapping_ok (ok a b s outcome) items
      rcases ih (step s a) with ⟨results,same,rest⟩ | ⟨front,c,back,thrown,results,rfl,same,failed,rest⟩
      · refine .inl ⟨b :: results,by rw [List.map_cons,List.map_cons,same,outcome],?_⟩
        rw [first,rest]
        rfl
      · refine .inr ⟨a :: front,c,back,thrown,b :: results,rfl,by rw [List.map_cons,List.map_cons,same,outcome],failed,?_⟩
        rw [first,rest]
        rfl

end Proteus.Mapping
