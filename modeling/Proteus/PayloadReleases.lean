import Proteus.GeneratedServices

namespace Proteus.RequestHandlingRSocket
open JavaGenerator GeneratedServer Stateful BiInt2ObjectMap Execution
variable {N : Netty} {Thread : Type}

theorem cases_served (d : ServiceDescriptor) (interaction : Interaction) :
    ((PrintServer d).cases interaction).isEmpty = false ↔ ∃ method ∈ d.methods, (clientMethod method).interaction = interaction := by
  constructor
  · intro nonempty
    obtain ⟨c,rest,listed⟩ := List.exists_cons_of_ne_nil (List.isEmpty_eq_false_iff.mp nonempty)
    have first : c ∈ (PrintServer d).cases interaction := by rw [listed]; exact List.mem_cons_self ..
    rw [cases_exact] at first
    obtain ⟨method,grouped,_⟩ := List.mem_map.mp first
    obtain ⟨member,used⟩ := List.mem_filter.mp grouped
    exact ⟨method,member,of_decide_eq_true used⟩
  · rintro ⟨method,member,used⟩
    exact cases_nonempty member used

-- A handler with cases releases its payload once on every path, one without
-- cases never does.
theorem single_released (P : Protobuf N) (d : ServiceDescriptor) (service : Implementation N P.MessageLite) (kind : Single)
    (payload : Payload) : ∃ published t, single P (PrintInterface d) (PrintServer d) service kind payload .entry = .ok published t ∧
      (t.released = 1 ↔ ∃ method ∈ d.methods, (clientMethod method).interaction = kind.interaction) := by
  obtain ⟨published,t,ran,handled⟩ := single_handled P service (PrintInterface d) (PrintServer d) kind payload
  refine ⟨published,t,ran,?_⟩
  rw [← cases_served]
  cases handled with
  | absent empty => exact iff_of_false Nat.zero_ne_one (by rw [empty]; decide)
  | failed nonempty => exact iff_of_true rfl nonempty
  | called _ chosen _ =>
    have listed := List.mem_of_find?_eq_some chosen
    exact iff_of_true rfl (List.isEmpty_eq_false_iff.mpr (List.ne_nil_of_mem listed))

-- What a handler leaves of a payload it was given with one reference: it returns,
-- and has called release once.
def ReleasedOnce (answer : Handling N Message (Published Message)) : Prop :=
  ∃ published u, answer .entry = .ok published u ∧ u.released = 1

theorem errors_unreleased (thrown : Throwable) : ¬ ReleasedOnce (pure (.error thrown) : Handling N Message (Published Message)) := by
  rintro ⟨published,u,returned,once⟩
  cases returned
  cases once

-- Its metadata has both ids, and the service registered last under them has a
-- method of its interaction.
def Served (seen : List ServiceDescriptor) (request : Request) : Prop :=
  10 ≤ request.payload.getMetadata.val.length ∧ ∃ before d later, seen = before ++ d :: later ∧
    pairOf d = (intAt request.payload.getMetadata.val 2,intAt request.payload.getMetadata.val 6) ∧
    (∀ e ∈ later, pairOf e ≠ pairOf d) ∧ ∃ method ∈ d.methods, (clientMethod method).interaction = request.interaction

section Releases
variable {P : Protobuf N} {implementation : ServiceDescriptor → Implementation N P.MessageLite}

theorem deserved_released {answer : Handling N P.MessageLite (Published P.MessageLite)}
    (deserved : Deserved N (generated P implementation) seen request answer) (kind : Single)
    (used : request.interaction = kind.interaction) : ReleasedOnce answer ↔ Served seen request := by
  rw [Deserved] at deserved
  split at deserved
  · rename_i long
    cases current : latest (generated P implementation) seen
        (intAt request.payload.getMetadata.val 2,intAt request.payload.getMetadata.val 6) with
    | none =>
      rw [current] at deserved
      refine iff_of_false (by rw [deserved]; exact errors_unreleased _) ?_
      rintro ⟨_,before,d,later,rfl,paired,_⟩
      obtain ⟨server,found⟩ := latest_member P implementation (before ++ d :: later) (d := d) (by simp)
      rw [paired,current] at found
      cases found
    | some d =>
      rw [current] at deserved
      obtain ⟨published,t,ran,released⟩ := single_released P d (implementation d) kind request.payload
      have answered : answer .entry = .ok published t := by
        rw [deserved]
        dsimp only
        rw [rescued_run,generated_hand P implementation d request kind used,ran]
      have once : ReleasedOnce answer ↔ t.released = 1 := by
        constructor
        · rintro ⟨again,u,returned,once⟩
          rw [answered] at returned
          cases returned
          exact once
        · exact fun once => ⟨published,t,answered,once⟩
      rw [once,released,← used]
      constructor
      · intro method
        obtain ⟨before,later,parts,paired,apart⟩ := (latest_some P implementation).mp current
        exact ⟨long,before,d,later,parts,paired,by rw [paired]; exact apart,method⟩
      · rintro ⟨_,before,server,later,parts,paired,apart,method⟩
        have same := (latest_some P implementation).mpr ⟨before,later,parts,paired,by rw [← paired]; exact apart⟩
        rw [current] at same
        cases same
        exact method
  · rename_i short
    obtain ⟨thrown,rfl⟩ := deserved
    exact iff_of_false (errors_unreleased _) fun served => short served.1

variable [DecidableEq Thread]

-- The router releases nothing itself, so a payload is released exactly where it
-- reaches a handler with cases.
theorem payload_released_iff {T : SwitchTransform N P.MessageLite} (constructed : Constructed (generated P implementation) services m)
    (path : Runs (Step (generated P implementation) T) (⟨m,services,fun _ => .idle⟩ : Router ServiceDescriptor Thread) trace r)
    (listed : .answered t request since seen answer ∈ trace) (kind : Single) (used : request.interaction = kind.interaction) :
    ReleasedOnce answer ↔ Served seen request := by
  obtain ⟨_,answered,_⟩ := run_answers constructed path
  exact deserved_released (answered _ listed).1 kind used

end Releases

theorem payload_released_iff_unary :
    ∃ (m : BiInt2ObjectMap ServiceDescriptor) (r : Router ServiceDescriptor Nat)
        (answer : Handling Heap.netty plain.MessageLite (Published plain.MessageLite)),
      Runs (Step (generated plain quiet) (immediate Heap.netty plain.MessageLite)) ⟨m,[TestService.descriptor],fun _ => .idle⟩
        [.received 0 unaryRequest,.looked 0,
          .answered 0 unaryRequest [TestService.descriptor] [TestService.descriptor] answer] r ∧
      ReleasedOnce answer := by
  obtain ⟨m,constructed,_⟩ := constructs (generated plain quiet) [TestService.descriptor] (by decide)
  obtain ⟨r,path⟩ := request_run (immediate Heap.netty plain.MessageLite) constructed 0 unaryRequest (by decide +kernel)
  have served : Served [TestService.descriptor] unaryRequest :=
    ⟨by decide +kernel,[],TestService.descriptor,[],rfl,by decide +kernel,by simp,TestService.UnaryCall,by decide,by decide⟩
  refine ⟨m,r,_,path,?_⟩
  exact (payload_released_iff constructed path (List.mem_of_getElem? (i := 2) rfl) .requestResponse rfl).mpr served

theorem unknown_service_leaks : ¬ ∀ (services : List ServiceDescriptor) (m : BiInt2ObjectMap ServiceDescriptor)
    (trace : List (Label Heap.netty plain.MessageLite ServiceDescriptor Nat)) (r : Router ServiceDescriptor Nat),
    Constructed (generated plain quiet) services m →
    Runs (Step (generated plain quiet) (immediate Heap.netty plain.MessageLite)) ⟨m,services,fun _ => .idle⟩ trace r →
    ∀ t request since seen answer, .answered t request since seen answer ∈ trace →
      ∀ kind : Single, request.interaction = kind.interaction → ReleasedOnce answer := by
  intro released
  obtain ⟨m,constructed,_⟩ := constructs (generated plain quiet) [TestService.descriptor] (by decide)
  obtain ⟨r,path⟩ := request_run (immediate Heap.netty plain.MessageLite) constructed 0 pourRequest (by decide +kernel)
  have once := released _ m _ r constructed path 0 pourRequest _ _ _ (List.mem_of_getElem? (i := 2) rfl) .requestResponse rfl
  obtain ⟨_,answered,_⟩ := run_answers constructed path
  obtain ⟨deserved,_⟩ := answered _ (List.mem_of_getElem? (i := 2) rfl)
  obtain ⟨_,before,d,later,parts,paired,_⟩ := (deserved_released deserved .requestResponse rfl).mp once
  have member : d ∈ [TestService.descriptor] := by rw [parts]; simp
  cases List.mem_singleton.mp member
  exact absurd paired (by decide +kernel)

end Proteus.RequestHandlingRSocket
