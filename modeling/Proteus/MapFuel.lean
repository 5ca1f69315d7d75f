import Proteus.BiInt2ObjectMap
import Proteus.Lib.Execution

-- More fuel never changes how a call ends, so a call has one ending at most.

namespace Proteus.Table
variable {V : Type}

theorem fuel_succ (more : fuel + 1 ≤ fuel') : ∃ left, fuel' = left + 1 ∧ fuel ≤ left := ⟨fuel' - 1,by omega,by omega⟩

theorem probe_more {t : Table V} (found : t.probe mask k fuel index = some i) (more : fuel ≤ fuel') :
    t.probe mask k fuel' index = some i := by
  induction fuel generalizing index fuel' with
  | zero => cases found
  | succ fuel ih =>
    obtain ⟨left,rfl,rest⟩ := fuel_succ more
    unfold probe at found ⊢
    split
    · rename_i empty; rwa [if_pos empty] at found
    · rename_i occupied
      rw [if_neg occupied] at found
      split
      · rename_i same; rwa [if_pos same] at found
      · rename_i other; rw [if_neg other] at found; exact ih found rest

theorem vacancy_more {t : Table V} (found : t.vacancy mask fuel index = some i) (more : fuel ≤ fuel') :
    t.vacancy mask fuel' index = some i := by
  induction fuel generalizing index fuel' with
  | zero => cases found
  | succ fuel ih =>
    obtain ⟨left,rfl,rest⟩ := fuel_succ more
    unfold vacancy at found ⊢
    split
    · rename_i empty; rwa [if_pos empty] at found
    · rename_i occupied; rw [if_neg occupied] at found; exact ih found rest

theorem reinsert_more {old temp : Table V} (ran : reinsert old mask fuel temp i = some after) (more : fuel ≤ fuel') :
    reinsert old mask fuel' temp i = some after := by
  unfold reinsert at ran ⊢
  cases held : old.value i with
  | none => simpa [held] using ran
  | some v =>
    simp only [held] at ran ⊢
    obtain ⟨j,found,written⟩ := Option.map_eq_some_iff.mp ran
    rw [vacancy_more found more]
    exact congrArg some written

theorem reinsertAll_more {old : Table V} (ran : old.reinsertAll capacity fuel = some after) (more : fuel ≤ fuel') :
    old.reinsertAll capacity fuel' = some after := by
  unfold reinsertAll at ran ⊢
  generalize fresh capacity = temp at ran ⊢
  generalize List.range old.values.size = order at ran ⊢
  induction order generalizing temp with
  | nil => exact ran
  | cons i rest ih =>
    rw [List.foldlM_cons] at ran ⊢
    obtain ⟨next,first,later⟩ := Option.bind_eq_some_iff.mp ran
    exact Option.bind_eq_some_iff.mpr ⟨next,reinsert_more first more,ih next later⟩

theorem compactChain_more {t : Table V} (ran : t.compactChain mask fuel deleteIndex index = some after)
    (more : fuel ≤ fuel') : t.compactChain mask fuel' deleteIndex index = some after := by
  induction fuel generalizing t deleteIndex index fuel' with
  | zero => cases ran
  | succ fuel ih =>
    obtain ⟨left,rfl,rest⟩ := fuel_succ more
    unfold compactChain at ran ⊢
    dsimp only at ran ⊢
    split
    · rename_i empty; rwa [if_pos empty] at ran
    · rename_i occupied
      rw [if_neg occupied] at ran
      split
      · rename_i moves; rw [if_pos moves] at ran; exact ih ran rest
      · rename_i stays; rw [if_neg stays] at ran; exact ih ran rest

end Proteus.Table

namespace Proteus.BiInt2ObjectMap
open Execution
variable {V : Type} {m : BiInt2ObjectMap V}

theorem map_more {f g : Option α} {read : α → β} (more : ∀ a, f = some a → g = some a)
    (ran : f.map read = some b) : g.map read = some b := by
  obtain ⟨a,found,rfl⟩ := Option.map_eq_some_iff.mp ran
  rw [more a found,Option.map_some]

theorem rehash_more (ran : rehash fuel heap newCapacity m = some ended) (more : fuel ≤ fuel') :
    rehash fuel' heap newCapacity m = some ended := by
  unfold rehash at ran ⊢
  dsimp only at ran ⊢
  split
  · rename_i negative; rwa [if_pos negative] at ran
  · rename_i positive
    rw [if_neg positive] at ran
    split
    · rename_i enough
      rw [if_pos enough] at ran
      exact map_more (fun _ moved => Table.reinsertAll_more moved more) ran
    · rename_i short; rwa [if_neg short] at ran

theorem increase_more (ran : increaseCapacity fuel heap m = some ended) (more : fuel ≤ fuel') :
    increaseCapacity fuel' heap m = some ended := by
  unfold increaseCapacity at ran ⊢
  dsimp only at ran ⊢
  split
  · rename_i full; rwa [if_pos full] at ran
  · rename_i room; rw [if_neg room] at ran; exact rehash_more ran more

theorem compact_more (ran : compact fuel heap m = some ended) (more : fuel ≤ fuel') :
    compact fuel' heap m = some ended := by
  unfold compact at ran ⊢
  exact rehash_more ran more

theorem get_more (ran : get fuel a b m = some value) (more : fuel ≤ fuel') : get fuel' a b m = some value :=
  map_more (fun _ found => Table.probe_more found more) ran

-- What put has stored before it looks at the threshold.
def stored (m : BiInt2ObjectMap V) (index : Nat) (key : JLong) (value : Option V) : BiInt2ObjectMap V :=
  let m := if (m.value index).isNone then {m with size := int32 (m.size + 1),toTable := m.setKey index key} else m
  {m with toTable := m.setValue index value}

theorem put_stored (fuel : Nat) (heap : Heap) (a b : JInt) (value : Option V) (m : BiInt2ObjectMap V) :
    put fuel heap a b value m =
      match m.probe (m.values.size - 1) (Hashing.compoundKey a b) fuel (Table.hash (m.values.size - 1) (Hashing.compoundKey a b)) with
      | none => none
      | some index =>
        if (stored m index (Hashing.compoundKey a b) value).size > (stored m index (Hashing.compoundKey a b) value).resizeThreshold then
          (increaseCapacity fuel heap (stored m index (Hashing.compoundKey a b) value)).map fun
            | .ok _ next => .ok (m.value index) next
            | .error thrown next => .error thrown next
        else some (.ok (m.value index) (stored m index (Hashing.compoundKey a b) value)) := rfl

theorem put_more (ran : put fuel heap a b value m = some ended) (more : fuel ≤ fuel') :
    put fuel' heap a b value m = some ended := by
  rw [put_stored] at ran ⊢
  cases found : m.probe (m.values.size - 1) (Hashing.compoundKey a b) fuel
      (Table.hash (m.values.size - 1) (Hashing.compoundKey a b)) with
  | none => simp [found] at ran
  | some i =>
    rw [Table.probe_more found more]
    rw [found] at ran
    dsimp only at ran ⊢
    split
    · rename_i grows
      rw [if_pos grows] at ran
      exact map_more (fun _ grown => increase_more grown more) ran
    · rename_i stays; rwa [if_neg stays] at ran

theorem remove_more (ran : remove fuel a b m = some ended) (more : fuel ≤ fuel') : remove fuel' a b m = some ended := by
  unfold remove at ran ⊢
  dsimp only at ran ⊢
  cases found : m.probe (m.values.size - 1) (Hashing.compoundKey a b) fuel
      (Table.hash (m.values.size - 1) (Hashing.compoundKey a b)) with
  | none => simp [found] at ran
  | some i =>
    rw [Table.probe_more found more]
    rw [found] at ran
    dsimp only at ran ⊢
    cases held : m.value i with
    | none => simpa [held] using ran
    | some v =>
      simp only [held] at ran ⊢
      exact map_more (fun _ repaired => Table.compactChain_more repaired more) ran

theorem computeIfAbsent_more (ran : computeIfAbsent fuel heap a b f m = some ended) (more : fuel ≤ fuel') :
    computeIfAbsent fuel' heap a b f m = some ended := by
  unfold computeIfAbsent at ran ⊢
  cases got : get fuel a b m with
  | none => simp [got] at ran
  | some value =>
    rw [get_more got more]
    rw [got] at ran
    cases value with
    | some v => exact ran
    | none =>
      dsimp only at ran ⊢
      cases applied : f a b with
      | error thrown => simpa [applied] using ran
      | ok result =>
        simp only [applied] at ran ⊢
        cases result with
        | none => exact ran
        | some v => exact map_more (fun _ stored => put_more stored more) ran

theorem exec_more (call : Call V) (ran : exec fuel heap m call = some ended) (more : fuel ≤ fuel') :
    exec fuel' heap m call = some ended := by
  cases call with
  | put a b value => exact map_more (fun _ done => put_more done more) ran
  | get a b => exact map_more (fun _ done => get_more done more) ran
  | remove a b => exact map_more (fun _ done => remove_more done more) ran
  | computeIfAbsent a b f => exact map_more (fun _ done => computeIfAbsent_more done more) ran
  | compact =>
    unfold exec at ran ⊢
    exact map_more (fun _ done => compact_more done more) ran
  | clear => exact ran
  | size => exact ran
  | isEmpty => exact ran
  | forEach => exact ran

theorem exec_put (ran : put fuel heap a b value m = some ended) :
    exec fuel heap m (.put a b value) = some (Ended.reply .value ended) := by
  simp only [exec,ran,Option.map_some]

theorem exec_get (got : get fuel a b m = some value) (heap : Heap) :
    exec fuel heap m (.get a b) = some (.ok (.value value) m) := by
  simp only [exec,got,Option.map_some]

theorem exec_remove (ran : remove fuel a b m = some ended) (heap : Heap) :
    exec fuel heap m (.remove a b) = some (Ended.reply .value ended) := by
  simp only [exec,ran,Option.map_some]

theorem exec_computed (ran : computeIfAbsent fuel heap a b f m = some ended) :
    exec fuel heap m (.computeIfAbsent a b f) = some (Ended.reply (fun r => .computed r.1 r.2) ended) := by
  simp only [exec,ran,Option.map_some]

theorem exec_compact (ran : compact fuel heap m = some ended) :
    exec fuel heap m .compact = some (Ended.reply (fun _ => .done) ended) := by
  simp only [exec,ran,Option.map_some]

theorem ends_unique (one : Ends heap m call ended) (two : Ends heap m call other) : other = ended := by
  obtain ⟨left,first⟩ := one
  obtain ⟨right,second⟩ := two
  have both := (exec_more call second (Nat.le_max_left right left)).symm.trans
    (exec_more call first (Nat.le_max_right right left))
  exact Option.some.inj both

theorem get_ended (ends : Ends heap m (.get a b) (.ok (.value value) last)) : ∃ fuel, get fuel a b m = some value := by
  obtain ⟨fuel,ran⟩ := ends
  obtain ⟨found,got,equal⟩ := Option.map_eq_some_iff.mp ran
  cases equal
  exact ⟨fuel,got⟩

theorem ended_get (got : get fuel a b m = some value) (heap : Heap) : Ends heap m (.get a b) (.ok (.value value) m) :=
  ⟨fuel,exec_get got heap⟩

theorem get_unique (one : get fuel a b m = some v) (two : get fuel' a b m = some w) : v = w :=
  Option.some.inj ((get_more one (Nat.le_max_left fuel fuel')).symm.trans (get_more two (Nat.le_max_right fuel fuel')))

theorem Ends.ample (ends : Ends heap m call ended) (bound : Nat) :
    ∃ fuel, bound ≤ fuel ∧ exec fuel heap m call = some ended := by
  obtain ⟨fuel,ran⟩ := ends
  exact ⟨max fuel bound,Nat.le_max_right _ _,exec_more call ran (Nat.le_max_left _ _)⟩

-- What a call puts under its key, if it puts anything.
inductive Stores : Call V → JInt → JInt → Option V → Prop where
  | put : Stores (.put a b value) a b value
  | computed : f a b = .ok (some v) → Stores (.computeIfAbsent a b f) a b (some v)

-- The calls that may leave the map alone.
def Call.Quiet : Call V → Prop
  | .put .. => False
  | .remove .. => False
  | .clear => False
  | .compact => False
  | _ => True

def Ended.bare : Ended State Value → Ended State Unit
  | .ok _ s => .ok () s
  | .error thrown s => .error thrown s

-- Everything a call can do to the map, by the method that does it.
inductive Did (fuel : Nat) (heap : Heap) (m : BiInt2ObjectMap V) : Call V → Ended (BiInt2ObjectMap V) Unit → Prop where
  | nothing : call.Quiet → Did fuel heap m call (.ok () m)
  | mapping : f a b = .error thrown → Did fuel heap m (.computeIfAbsent a b f) (.error thrown m)
  | put : Stores call a b value → put fuel heap a b value m = some done → Did fuel heap m call (Ended.bare done)
  | remove : remove fuel a b m = some done → Did fuel heap m (.remove a b) (Ended.bare done)
  | clear : Did fuel heap m .clear (.ok () m.clear)
  | compact : compact fuel heap m = some done → Did fuel heap m .compact done

theorem reply_bare (read : α → Reply V) (ended : Ended State α) : Ended.bare (Ended.reply read ended) = Ended.bare ended := by
  cases ended <;> rfl

theorem exec_did (ran : exec fuel heap m call = some ended) : Did fuel heap m call (Ended.bare ended) := by
  cases call with
  | put a b value =>
    obtain ⟨done,stored,rfl⟩ := Option.map_eq_some_iff.mp ran
    rw [reply_bare]
    exact .put .put stored
  | get a b =>
    obtain ⟨value,_,rfl⟩ := Option.map_eq_some_iff.mp ran
    exact .nothing trivial
  | remove a b =>
    obtain ⟨done,removed,rfl⟩ := Option.map_eq_some_iff.mp ran
    rw [reply_bare]
    exact .remove removed
  | computeIfAbsent a b f =>
    obtain ⟨done,computed,rfl⟩ := Option.map_eq_some_iff.mp ran
    rw [reply_bare]
    unfold computeIfAbsent at computed
    cases got : get fuel a b m with
    | none => simp [got] at computed
    | some value =>
      rw [got] at computed
      cases value with
      | some v =>
        cases computed
        exact .nothing trivial
      | none =>
        cases applied : f a b with
        | error thrown =>
          simp only [applied] at computed
          cases computed
          exact .mapping applied
        | ok result =>
          simp only [applied] at computed
          cases result with
          | none =>
            cases computed
            exact .nothing trivial
          | some v =>
            obtain ⟨last,stored,rfl⟩ := Option.map_eq_some_iff.mp computed
            have same := Did.put (.computed applied) stored
            cases last <;> exact same
  | clear =>
    cases ran
    exact .clear
  | compact =>
    unfold exec at ran
    obtain ⟨done,compacted,rfl⟩ := Option.map_eq_some_iff.mp ran
    have same := Did.compact compacted
    cases done <;> exact same
  | size => cases ran; exact .nothing trivial
  | isEmpty => cases ran; exact .nothing trivial
  | forEach => cases ran; exact .nothing trivial

theorem toOption_ok {x : Except E A} (found : x.toOption = some a) : x = .ok a := by
  cases x with
  | error e => cases found
  | ok value => cases found; rfl

def Ended.returned : Ended State Value → Option (Value × State)
  | .ok value s => some (value,s)
  | .error _ _ => none

def Ended.threw : Ended State Value → Option (Thrown × State)
  | .ok _ _ => none
  | .error thrown s => some (thrown,s)

theorem exec_returned (ran : (exec fuel heap m call).bind Ended.returned = some (reply,next)) :
    Ends heap m call (.ok reply next) := by
  obtain ⟨ended,ran,taken⟩ := Option.bind_eq_some_iff.mp ran
  cases ended with
  | ok value s => cases taken; exact ⟨fuel,ran⟩
  | error thrown s => cases taken

theorem exec_threw (ran : (exec fuel heap m call).bind Ended.threw = some (thrown,next)) :
    Ends heap m call (.error thrown next) := by
  obtain ⟨ended,ran,taken⟩ := Option.bind_eq_some_iff.mp ran
  cases ended with
  | ok value s => cases taken
  | error other s => cases taken; exact ⟨fuel,ran⟩

-- Calls one after the other, with memory for all of them.
def perform (fuel : Nat) (m : BiInt2ObjectMap V) : List (Call V) → Option (BiInt2ObjectMap V)
  | [] => some m
  | call :: calls =>
    match exec fuel ⟨true,true⟩ m call with
    | some (.ok _ next) => perform fuel next calls
    | _ => none

theorem perform_runs (path : Runs Step start trace m) (ran : perform fuel m calls = some last) :
    ∃ replies, replies.map Prod.fst = calls ∧ Runs Step start (trace ++ replies) last := by
  induction calls generalizing m trace with
  | nil =>
    cases ran
    exact ⟨[],rfl,by rw [List.append_nil]; exact path⟩
  | cons call calls ih =>
    unfold perform at ran
    split at ran
    · rename_i reply next ended
      obtain ⟨replies,asked,later⟩ := ih (path.snoc (.returned ⟨fuel,ended⟩)) ran
      refine ⟨(call,reply) :: replies,congrArg (call :: ·) asked,?_⟩
      rwa [List.append_assoc,List.singleton_append] at later
    · cases ran

theorem runs_attempts (path : Runs Step start trace m) :
    Runs Attempt start (trace.map fun event => (event.1,.ok event.2)) (m : BiInt2ObjectMap V) := by
  induction path with
  | nil => exact .nil
  | snoc _ taken ih =>
    rw [List.map_append]
    cases taken with
    | returned ends => exact ih.snoc (.returned ends)

end Proteus.BiInt2ObjectMap
