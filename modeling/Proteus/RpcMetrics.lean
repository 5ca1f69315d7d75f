import Proteus.Dispatch
import Proteus.MeteredRuns

namespace Proteus.RpcMetrics
open JavaGenerator GeneratedServer Dispatch Stateful Execution
variable {N : Netty}

-- The counters and the timer that timed registers, by what identifies them.
structure Meter where
  name : CString
  tags : List (CString × CString)
  deriving DecidableEq

inductive Transformer where
  | identity
  | timed (meter : Meter)

def Transformer.meters : Transformer → List Meter
  | .identity => []
  | .timed meter => [meter]

def meter (name : CString) (service : ServiceDescriptor) (method : MethodDescriptor) : Meter :=
  ⟨name,[(literal "namespace",service.package),(literal "service",service.name),(literal "method",LowerMethodName method)]⟩

-- The metric fields as the two constructors of a class leave them, without and
-- with a registry.
def fields (name : CString) (service : ServiceDescriptor) (registry : Bool) : List (CString × Transformer) :=
  service.methods.map fun method =>
    (LowerMethodName method,if registry then .timed (meter name service method) else .identity)

-- transform(field); a field that is not declared would not compile.
def transform (declared : List (CString × Transformer)) (field : CString) : List Meter :=
  (declared.lookup field).elim [] Transformer.meters

-- The meters a subscription to a client's publisher passes through.
def clientMeters (service : ServiceDescriptor) (registry : Bool) (method : ClientMethod) : List Meter :=
  transform (fields (literal "proteus.client") service registry) method.transform

-- The same of what a server's handler returns.
def serverMeters (service : ServiceDescriptor) (registry : Bool) : Published Message → List Meter
  | .error _ => []
  | .service _ => []
  | .serialized source => serverMeters service registry source
  | .transformed field source =>
    serverMeters service registry source ++ transform (fields (literal "proteus.server") service registry) field
  | .flux source => serverMeters service registry source

section Counting
variable {S C T : Type} [DecidableEq S] [DecidableEq C]

open ProteusMetricsSubscriber in
-- Subscriptions to a publisher with these meters, of which `ended` were ended: a
-- meter of the i-th transformer has one subscriber (u,i) for each of them.
structure Observed (meters : List Meter) (own : Meter) (trace : List (Label (S × Nat) C T)) (s : State (S × Nat) C T)
    (ended : Finset S) : Prop where
  path : Runs Step State.timed trace s
  lifted : ∀ u i, (u,i) ∈ trace.filterMap Label.terminated ↔ u ∈ ended ∧ meters[i]? = some own

end Counting

open ProteusMetricsSubscriber in
-- The own meter counts every ended subscription, and each of them once.
structure MeteredOnce (meters : List Meter) (own : Meter) : Prop where
  transformed : meters.count own = 1
  once : ∀ {S C T : Type} [DecidableEq S] [DecidableEq C] (trace : List (Label (S × Nat) C T)) (s : State (S × Nat) C T)
    (ended : Finset S), Observed meters own trace s ended →
      ∀ u, ((trace.filterMap Label.increment).filter fun w => w.subscription.1 = u).length ≤ 1
  total : ∀ {S C T : Type} [DecidableEq S] [DecidableEq C] (trace : List (Label (S × Nat) C T)) (s : State (S × Nat) C T)
    (ended : Finset S), Observed meters own trace s ended → (∀ c, s.threads c = .idle) →
      s.success + s.error + s.cancelled = ended.card

theorem fields_own (name : CString) {service : ServiceDescriptor} (names : (service.methods.map LowerMethodName).Nodup)
    (member : method ∈ service.methods) :
    transform (fields name service true) (LowerMethodName method) = [meter name service method] := by
  have keys : (fields name service true).map Prod.fst = service.methods.map LowerMethodName := by
    rw [fields,List.map_map]
    rfl
  have found : (fields name service true).lookup (LowerMethodName method) = some (.timed (meter name service method)) :=
    lookup_exact (by rw [keys]; exact names) (List.mem_map.mpr ⟨method,member,rfl⟩)
  rw [transform,found]
  rfl

theorem own_index (own : Meter) (i : Nat) : [own][i]? = some own ↔ i = 0 := by cases i <;> simp

open ProteusMetricsSubscriber in
-- Whoever increments an own counter was ended as the one subscriber of its subscription.
theorem increment_first {S C T : Type} [DecidableEq S] [DecidableEq C] {trace : List (Label (S × Nat) C T)}
    {s : State (S × Nat) C T} {ended : Finset S} (observed : Observed [own] own trace s ended) :
    ∀ w ∈ trace.filterMap Label.increment, w.subscription.2 = 0 := by
  intro w incremented
  obtain ⟨_,signal,kind,called⟩ := contributed_won observed.path (.inl incremented)
  have terminated : w.subscription ∈ trace.filterMap Label.terminated :=
    List.mem_filterMap.mpr ⟨_,called,by rw [terminated_called,(ends_status _ _).mp kind]; rfl⟩
  exact (own_index own _).mp ((observed.lifted _ _).mp terminated).2

open ProteusMetricsSubscriber in
theorem metered_once_own (own : Meter) : MeteredOnce [own] own := by
  refine ⟨by simp,?_,?_⟩
  · intro S C T _ _ trace s ended observed u
    have same : (trace.filterMap Label.increment).filter (fun w => w.subscription.1 = u) =
        (trace.filterMap Label.increment).filter fun w => w.subscription = (u,0) := by
      apply List.filter_congr
      intro w incremented
      simp only [Prod.ext_iff,increment_first observed w incremented,and_true]
    rw [same]
    exact incremented_once observed.path (u,0)
  · intro S C T _ _ trace s ended observed idle
    obtain ⟨counted,settled⟩ := settled_total observed.path idle
    have subscribers : (trace.filterMap Label.terminated).toFinset =
        ended.map ⟨fun u => (u,0),fun _ _ equal => (Prod.mk.inj equal).1⟩ := by
      ext ⟨u,i⟩
      rw [List.mem_toFinset,observed.lifted,own_index,Finset.mem_map]
      constructor
      · rintro ⟨present,rfl⟩
        exact ⟨u,present,rfl⟩
      · rintro ⟨v,present,equal⟩
        cases equal
        exact ⟨present,rfl⟩
    rw [counted,settled,subscribers,Finset.card_map]

section Reached
variable (P : Protobuf N) (T : SwitchTransform N P.MessageLite) {descriptor : ServiceDescriptor}
  (service : Implementation N P.MessageLite)

theorem selected_case {i : Interface} {id : JInt} (chosen : select i ((PrintServer descriptor).cases interaction) id = some c) :
    ∃ method ∈ descriptor.methods, (clientMethod method).interaction = interaction ∧ c = caseOf interaction method := by
  have listed := List.mem_of_find?_eq_some chosen
  rw [cases_exact] at listed
  obtain ⟨method,grouped,rfl⟩ := List.mem_map.mp listed
  obtain ⟨member,served⟩ := List.mem_filter.mp grouped
  exact ⟨method,member,of_decide_eq_true served,rfl⟩

def returned (interaction : Interaction) (method : MethodDescriptor) : Except Throwable (Publisher Message) → Published Message
  | .error thrown => .error thrown
  | .ok publisher =>
    match interaction with
    | .fireAndForget => .service publisher
    | .requestChannel =>
      if method.server_streaming then .transformed (LowerMethodName method) (.serialized (.service publisher))
      else .flux (.transformed (LowerMethodName method) (.serialized (.service publisher)))
    | _ => .transformed (LowerMethodName method) (.serialized (.service publisher))

structure Reaches (descriptor : ServiceDescriptor) (service : Implementation N Message) (interaction : Interaction)
    (invocation : Invocation N Message) (published : Published Message) : Prop where
  called : ∃ method ∈ descriptor.methods, (clientMethod method).interaction = interaction ∧
    invocation.lower_method_name = LowerMethodName method ∧ published = returned interaction method (service invocation).returned

theorem single_reached (kind : Single) (payload : Payload) (ran : single P (PrintInterface descriptor) (PrintServer descriptor)
      service kind payload .entry = .ok published s) (reached : invocation ∈ s.invocations) :
    Reaches descriptor service kind.interaction invocation published := by
  obtain ⟨_,_,same,handled⟩ := single_handled P service (PrintInterface descriptor) (PrintServer descriptor) kind payload
  rw [same] at ran
  cases ran
  cases handled with
  | absent empty => cases reached
  | failed nonempty => cases reached
  | called _ chosen _ =>
    obtain ⟨method,member,served,rfl⟩ := selected_case chosen
    cases List.mem_singleton.mp reached
    refine ⟨method,member,served,by cases kind <;> rfl,?_⟩
    cases (service _).returned with
    | error thrown => rfl
    | ok publisher => cases kind <;> rfl

theorem channel_reached (first : Payload) (rest : List Payload) (failure : Option Throwable)
    (ran : requestChannels P T (PrintInterface descriptor) (PrintServer descriptor) service ⟨first :: rest,failure⟩ .entry =
      .ok published s) (reached : invocation ∈ s.invocations) :
    Reaches descriptor service .requestChannel invocation published := by
  cases nonempty : (PrintServer descriptor).request_channel.isEmpty with
  | true =>
    rw [requestChannels,nonempty] at ran
    cases ran
    cases reached
  | false =>
    rw [channel_run P service _ _ T first rest failure nonempty,rescued_run,rescued_run,dispatch_run,read_held _ Nat.one_ne_zero]
      at ran
    cases called : ProteusMetadata.methodId N (first.sliceMetadata N) with
    | error thrown =>
      simp only [called] at ran
      cases ran
      cases reached
    | ok id =>
      simp only [called] at ran
      cases chosen : select (PrintInterface descriptor) (PrintServer descriptor).request_channel id with
      | none =>
        simp only [chosen] at ran
        cases ran
        cases reached
      | some c =>
        obtain ⟨method,member,served,rfl⟩ := selected_case (show select _ ((PrintServer descriptor).cases .requestChannel) id = some c from chosen)
        have kept (invocation : Invocation N P.MessageLite) (n : Nat) :
          (Serving.entry.invoked invocation).reads n = Serving.entry.invoked invocation := reads_held _ Nat.one_ne_zero n
        simp only [chosen,channelBody_run,kept] at ran
        cases result : (service ⟨(caseOf .requestChannel method).lower_method_name,
            .messages (deserialized P (caseOf .requestChannel method).input_type failure (first :: rest)),
            first.sliceMetadata N⟩).returned with
        | error thrown =>
          simp only [result] at ran
          cases ran
          cases List.mem_singleton.mp reached
          exact ⟨method,member,served,rfl,by rw [result]; rfl⟩
        | ok publisher =>
          simp only [result] at ran
          cases ran
          cases List.mem_singleton.mp reached
          refine ⟨method,member,served,rfl,?_⟩
          rw [result]
          change (if !method.server_streaming then _ else _) = if method.server_streaming then _ else _
          cases method.server_streaming <;> rfl

theorem present_reached (interaction : Interaction) (payload first : Payload) (rest : List Payload) (failure : Option Throwable)
    (ran : present P T descriptor service interaction payload ⟨first :: rest,failure⟩ .entry = .ok published s)
    (reached : invocation ∈ s.invocations) : Reaches descriptor service interaction invocation published := by
  cases interaction with
  | fireAndForget => exact single_reached P service .fireAndForget payload ran reached
  | requestResponse => exact single_reached P service .requestResponse payload ran reached
  | requestStream => exact single_reached P service .requestStream payload ran reached
  | requestChannel => exact channel_reached P T service first rest failure ran reached

end Reached

theorem client_meters {descriptor : ServiceDescriptor} (names : (descriptor.methods.map LowerMethodName).Nodup)
    (member : method ∈ descriptor.methods) :
    clientMeters descriptor true (clientMethod method) = [meter (literal "proteus.client") descriptor method] := by
  have field : (clientMethod method).transform = LowerMethodName method := by
    unfold clientMethod
    repeat' split
    all_goals rfl
  rw [clientMeters,field,fields_own _ names member]

-- Only the case of fire and forget leaves its field out.
theorem server_meters {descriptor : ServiceDescriptor} (names : (descriptor.methods.map LowerMethodName).Nodup)
    (member : method ∈ descriptor.methods) (interaction : Interaction) (applied : interaction ≠ .fireAndForget)
    (publisher : Publisher Message) : serverMeters descriptor true (returned interaction method (.ok publisher)) =
      [meter (literal "proteus.server") descriptor method] := by
  have own := fields_own (literal "proteus.server") names member
  cases interaction with
  | fireAndForget => exact absurd rfl applied
  | requestResponse => exact own
  | requestStream => exact own
  | requestChannel =>
    unfold returned
    dsimp only
    split <;> exact own

theorem server_unmetered (descriptor : ServiceDescriptor) (method : MethodDescriptor) (interaction : Interaction)
    (answer : Except Throwable (Publisher Message))
    (unapplied : ¬ (interaction ≠ .fireAndForget ∧ ∃ publisher, answer = .ok publisher)) :
    serverMeters descriptor true (returned interaction method answer) = [] := by
  cases answer with
  | error thrown => rfl
  | ok publisher =>
    cases interaction with
    | fireAndForget => rfl
    | requestResponse => exact absurd ⟨by decide,publisher,rfl⟩ unapplied
    | requestStream => exact absurd ⟨by decide,publisher,rfl⟩ unapplied
    | requestChannel => exact absurd ⟨by decide,publisher,rfl⟩ unapplied

-- A call of a method is metered on its two sides: in what the client returns and
-- in what the server's handler does.
structure Metered (descriptor : ServiceDescriptor) (method : MethodDescriptor) (published : Published Message) : Prop where
  client : MeteredOnce (clientMeters descriptor true (clientMethod method)) (meter (literal "proteus.client") descriptor method)
  server : MeteredOnce (serverMeters descriptor true published) (meter (literal "proteus.server") descriptor method)

theorem metered_iff (P : Protobuf N) (T : SwitchTransform N P.MessageLite) {descriptor : ServiceDescriptor}
    (names : (descriptor.methods.map LowerMethodName).Nodup) (member : method ∈ descriptor.methods)
    (service : Implementation N P.MessageLite) (interaction : Interaction) (payload first : Payload) (rest : List Payload)
    (failure : Option Throwable) (published : Published P.MessageLite) (s : Serving N P.MessageLite)
    (ran : present P T descriptor service interaction payload ⟨first :: rest,failure⟩ .entry = .ok published s)
    (invocation : Invocation N P.MessageLite) (reached : invocation ∈ s.invocations)
    (named : invocation.lower_method_name = LowerMethodName method) :
    Metered descriptor method published ↔
      (clientMethod method).interaction ≠ .fireAndForget ∧ ∃ publisher, (service invocation).returned = .ok publisher := by
  obtain ⟨found,listed,served,called,answered⟩ :=
    (present_reached P T service interaction payload first rest failure ran reached).called
  cases List.inj_on_of_nodup_map names listed member (called.symm.trans named)
  rw [served,answered]
  constructor
  · intro metered
    refine Classical.byContradiction fun unapplied => ?_
    have once := metered.server.transformed
    rw [server_unmetered descriptor method interaction _ unapplied] at once
    cases once
  · rintro ⟨applied,publisher,result⟩
    refine ⟨?_,?_⟩
    · rw [client_meters names member]
      exact metered_once_own _
    · rw [result,server_meters names member interaction applied publisher]
      exact metered_once_own _

def simple : Protobuf Heap.netty := Heap.protobuf (TestService.message "SimpleRequest" 1)

-- A call as its client sends it, and as the implementation is to see it.
def request (method : MethodDescriptor) : Payload :=
  GeneratedClient.sent simple (PrintInterface TestService.descriptor) (PrintClient TestService.descriptor) (clientMethod method)
    GeneratedClient.hello

def invocation (method : MethodDescriptor) : Invocation Heap.netty Bytes :=
  ⟨LowerMethodName method,.message GeneratedClient.hello,(request method).sliceMetadata Heap.netty⟩

theorem request_handled (member : method ∈ TestService.descriptor.methods) (kind : Single)
    (served : (clientMethod method).interaction = kind.interaction) :
    single simple (PrintInterface TestService.descriptor) (PrintServer TestService.descriptor) eager kind (request method) .entry =
      .ok (kind.operators (unaryCase method) (.service ⟨[.item GeneratedClient.hello],none⟩))
        (Serving.entry.invoked (invocation method)).release :=
  single_called simple eager TestService.compiles member kind served (request method)
    (GeneratedClient.header_decodes Heap.netty TestService.compiles.fields member).called rfl .entry Nat.one_ne_zero

theorem metered_iff_unary : Metered TestService.descriptor TestService.UnaryCall
      (Single.requestResponse.operators (unaryCase TestService.UnaryCall) (.service ⟨[.item GeneratedClient.hello],none⟩)) ↔
    (clientMethod TestService.UnaryCall).interaction ≠ .fireAndForget ∧
      ∃ publisher, (eager (invocation TestService.UnaryCall)).returned = .ok publisher :=
  metered_iff simple (immediate Heap.netty Bytes) TestService.compiles.names (by decide) eager .requestResponse
    (request TestService.UnaryCall) (request TestService.UnaryCall) [] none _ _
    (request_handled (by decide) .requestResponse (by decide)) (invocation TestService.UnaryCall) (List.mem_singleton.mpr rfl) rfl

theorem empty_call_unmetered : ¬ ∀ (N : Netty) (P : Protobuf N) (T : SwitchTransform N P.MessageLite)
    (descriptor : ServiceDescriptor), Compiles descriptor → ∀ method ∈ descriptor.methods,
    ∀ (service : Implementation N P.MessageLite) (interaction : Interaction) (payload first : Payload) (rest : List Payload)
      (failure : Option Throwable) (published : Published P.MessageLite) (s : Serving N P.MessageLite),
      present P T descriptor service interaction payload ⟨first :: rest,failure⟩ .entry = .ok published s →
      ∀ invocation ∈ s.invocations, invocation.lower_method_name = LowerMethodName method →
        (∃ publisher, (service invocation).returned = .ok publisher) → Metered descriptor method published := by
  intro every
  have member : TestService.EmptyCall ∈ TestService.descriptor.methods := by decide
  have metered := every Heap.netty simple (immediate Heap.netty Bytes) TestService.descriptor TestService.compiles
    TestService.EmptyCall member eager .fireAndForget (request TestService.EmptyCall) (request TestService.EmptyCall) [] none
    _ _ (request_handled member .fireAndForget (by decide)) (invocation TestService.EmptyCall) (List.mem_singleton.mpr rfl) rfl
    ⟨_,rfl⟩
  have once := metered.server.transformed
  cases once

end Proteus.RpcMetrics
