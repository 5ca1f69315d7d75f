import Proteus.ClientCalls
import Proteus.ServerReferences

namespace Proteus.Dispatch
open JavaGenerator GeneratedClient GeneratedServer Stateful
variable {N : Netty}

-- One handler of a server, presented with a payload, or with the whole stream
-- where the interaction takes one.
def present (P : Protobuf N) (T : SwitchTransform N P.MessageLite) (descriptor : ServiceDescriptor)
    (service : Implementation N P.MessageLite) (interaction : Interaction) (payload : Payload) (payloads : Flux Payload) :
    Handling N P.MessageLite (Published P.MessageLite) :=
  match interaction with
  | .fireAndForget => fireAndForget P (PrintInterface descriptor) (PrintServer descriptor) service payload
  | .requestResponse => requestResponse P (PrintInterface descriptor) (PrintServer descriptor) service payload
  | .requestStream => requestStream P (PrintInterface descriptor) (PrintServer descriptor) service payload
  | .requestChannel => requestChannels P T (PrintInterface descriptor) (PrintServer descriptor) service payloads

-- What the generated Java signature of a method lets a caller pass, with a
-- stream that has a first message and does not fail.
def Typed (P : Protobuf N) (method : MethodDescriptor) : Argument P.MessageLite → Prop
  | .message message => method.client_streaming = false ∧ P.descriptor message = method.input_type
  | .messages messages => method.client_streaming = true ∧ messages.items ≠ [] ∧ messages.failure = none ∧
      ∀ message ∈ messages.items, P.descriptor message = method.input_type

theorem channel_streaming (method : MethodDescriptor) :
    (clientMethod method).interaction = .requestChannel ↔ method.client_streaming = true := by
  unfold clientMethod
  split
  · rename_i streaming
    split <;> simp [streaming]
  · rename_i plain
    split
    · simp [plain]
    · split <;> simp [plain]

theorem single_streaming (method : MethodDescriptor) (plain : method.client_streaming = false) :
    ∃ kind : Single, (clientMethod method).interaction = kind.interaction := by
  cases used : (clientMethod method).interaction with
  | fireAndForget => exact ⟨.fireAndForget,rfl⟩
  | requestResponse => exact ⟨.requestResponse,rfl⟩
  | requestStream => exact ⟨.requestStream,rfl⟩
  | requestChannel => rw [(channel_streaming method).mp used] at plain; cases plain

section Channels
variable (P : Protobuf N) (service : Implementation N P.MessageLite)

theorem deserialized_exact (messages : List P.MessageLite) (typed : ∀ message ∈ messages, P.descriptor message = input_type)
    (failure : Option Throwable) (payloads : List Payload) (wired : payloads.map Payload.data = messages.map P.wire) :
    deserialized P input_type failure payloads = ⟨messages,failure⟩ := by
  induction messages generalizing payloads with
  | nil => rw [List.map_eq_nil_iff.mp wired]; rfl
  | cons message messages ih =>
    cases payloads with
    | nil => cases wired
    | cons payload payloads =>
      obtain ⟨data,later⟩ := List.cons.inj wired
      have parsed := P.parsed message
      rw [typed message (List.mem_cons_self ..)] at parsed
      have rest := ih (fun m present => typed m (List.mem_cons_of_mem _ present)) payloads later
      simp only [deserialized,deserializer,data,parsed,rest]

theorem channel_run (i : Interface) (server : Server) (T : SwitchTransform N P.MessageLite) (payload : Payload)
    (payloads : List Payload) (failure : Option Throwable) (nonempty : server.request_channel.isEmpty = false)
    (s : Serving N P.MessageLite) :
    requestChannels P T i server service ⟨payload :: payloads,failure⟩ s =
      rescued (rescued (dispatch i server.request_channel (channelBody P service ⟨payload :: payloads,failure⟩) payload) .error)
        .error s := by
  rw [requestChannels,nonempty]
  simp only [Bool.false_eq_true,↓reduceIte,T.switched,requestChannel,nonempty]

theorem channel_called {descriptor : ServiceDescriptor} (compiles : Compiles descriptor) (member : method ∈ descriptor.methods)
    (T : SwitchTransform N P.MessageLite) (served : (clientMethod method).interaction = .requestChannel) (payload : Payload)
    (payloads : List Payload) (failure : Option Throwable) (messages : List P.MessageLite)
    (called : ProteusMetadata.methodId N (payload.sliceMetadata N) = .ok (MethodId method))
    (typed : ∀ message ∈ messages, P.descriptor message = method.input_type)
    (wired : (payload :: payloads).map Payload.data = messages.map P.wire) (s : Serving N P.MessageLite) (held : s.refCnt ≠ 0) :
    ∃ published, requestChannels P T (PrintInterface descriptor) (PrintServer descriptor) service ⟨payload :: payloads,failure⟩ s =
      .ok published (s.invoked ⟨LowerMethodName method,.messages ⟨messages,failure⟩,payload.sliceMetadata N⟩) := by
  have nonempty : (PrintServer descriptor).request_channel.isEmpty = false := cases_nonempty member served
  have chosen : select (PrintInterface descriptor) (PrintServer descriptor).request_channel (MethodId method) =
      some (channelCase method) := select_called compiles member served
  have parsed := deserialized_exact P messages typed failure (payload :: payloads) wired
  have kept := reads_held (s.invoked ⟨LowerMethodName method,.messages ⟨messages,failure⟩,payload.sliceMetadata N⟩) held
  have body := channelBody_run P service ⟨payload :: payloads,failure⟩ (channelCase method) (payload.sliceMetadata N) s
  simp only [channelCase,parsed,kept] at body
  rw [channel_run P service _ _ T payload payloads failure nonempty,rescued_run,rescued_run,dispatch_run]
  simp only [called,chosen,read_held s held,channelCase,body]
  cases (service ⟨LowerMethodName method,.messages ⟨messages,failure⟩,payload.sliceMetadata N⟩).returned with
  | error thrown => exact ⟨_,rfl⟩
  | ok result => exact ⟨_,rfl⟩

theorem channel_missed {id : JInt} (i : Interface) (server : Server) (T : SwitchTransform N P.MessageLite) (payload : Payload)
    (payloads : List Payload) (failure : Option Throwable)
    (called : ProteusMetadata.methodId N (payload.sliceMetadata N) = .ok id)
    (missed : select i server.request_channel id = none) (s : Serving N P.MessageLite) (held : s.refCnt ≠ 0) :
    ∃ text t, requestChannels P T i server service ⟨payload :: payloads,failure⟩ s =
      .ok (.error (.unsupportedOperation text)) t ∧ t.invocations = s.invocations := by
  cases nonempty : server.request_channel.isEmpty with
  | true => exact ⟨_,s,by rw [requestChannels,nonempty]; rfl,rfl⟩
  | false =>
    refine ⟨none,s,?_,rfl⟩
    rw [channel_run P service i server T payload payloads failure nonempty,rescued_run,rescued_run,dispatch_run]
    simp only [called,missed,read_held s held]

end Channels

theorem present_single (P : Protobuf N) (T : SwitchTransform N P.MessageLite) (descriptor : ServiceDescriptor)
    (service : Implementation N P.MessageLite) (kind : Single) (payload : Payload) (payloads : Flux Payload) :
    present P T descriptor service kind.interaction payload payloads =
      single P (PrintInterface descriptor) (PrintServer descriptor) service kind payload := by cases kind <;> rfl

theorem present_missed (P : Protobuf N) (T : SwitchTransform N P.MessageLite) {descriptor : ServiceDescriptor}
    (compiles : Compiles descriptor) (ids : (descriptor.methods.map MethodId).Nodup) (member : method ∈ descriptor.methods)
    (service : Implementation N P.MessageLite) (other : Interaction) (apart : other ≠ (clientMethod method).interaction)
    (payload first : Payload) (rest : List Payload)
    (called : ProteusMetadata.methodId N (payload.sliceMetadata N) = .ok (MethodId method))
    (opened : ProteusMetadata.methodId N (first.sliceMetadata N) = .ok (MethodId method)) :
    ∃ text t, present P T descriptor service other payload ⟨first :: rest,none⟩ .entry =
      .ok (.error (.unsupportedOperation text)) t ∧ t.invocations = [] := by
  have missed := select_missed compiles.fields ids member (Ne.symm apart)
  cases other with
  | fireAndForget => exact unary_missed P service _ _ _ _ payload called missed .entry Nat.one_ne_zero
  | requestResponse => exact unary_missed P service _ _ _ _ payload called missed .entry Nat.one_ne_zero
  | requestStream => exact unary_missed P service _ _ _ _ payload called missed .entry Nat.one_ne_zero
  | requestChannel => exact channel_missed P service _ _ T first rest none opened missed .entry Nat.one_ne_zero

-- The handler of the interaction the client uses calls the method, once, with
-- what was sent; every other handler calls nothing.
theorem dispatch_agrees (P : Protobuf N) (T : SwitchTransform N P.MessageLite) {descriptor : ServiceDescriptor}
    (compiles : Compiles descriptor) (ids : (descriptor.methods.map MethodId).Nodup) (member : method ∈ descriptor.methods)
    (service : Implementation N P.MessageLite) (argument : Argument P.MessageLite) (typed : Typed P method argument) (r : Resources N)
    (nothing : N.readable r.metadata = []) :
    ∃ first rest, (request P descriptor method r argument).1 = ⟨first :: rest,none⟩ ∧
      (∃ published t metadata, present P T descriptor service (clientMethod method).interaction first ⟨first :: rest,none⟩ .entry =
          .ok published t ∧ t.invocations = [⟨LowerMethodName method,argument,metadata⟩]) ∧
      ∀ payload ∈ first :: rest, ∀ other, other ≠ (clientMethod method).interaction →
        ∃ text t, present P T descriptor service other payload ⟨first :: rest,none⟩ .entry =
          .ok (.error (.unsupportedOperation text)) t ∧ t.invocations = [] := by
  have exact := request_exact P descriptor method r nothing argument
  have called (message : P.MessageLite) : ProteusMetadata.methodId N
      ((sent P (PrintInterface descriptor) (PrintClient descriptor) (clientMethod method) message).sliceMetadata N) =
        .ok (MethodId method) := (header_decodes N compiles.fields member).called
  cases argument with
  | message message =>
    obtain ⟨plain,input⟩ := typed
    obtain ⟨kind,served⟩ := single_streaming method plain
    have parsed := P.parsed message
    rw [input] at parsed
    refine ⟨_,[],exact,?_,?_⟩
    · rw [served,present_single]
      exact ⟨_,_,_,single_called P service compiles member kind served _ (called message) parsed .entry Nat.one_ne_zero,rfl⟩
    · intro payload listed other apart
      cases List.mem_singleton.mp listed
      exact present_missed P T compiles ids member service other apart _ _ [] (called message) (called message)
  | messages messages =>
    obtain ⟨items,failure⟩ := messages
    obtain ⟨streaming,nonempty,complete,inputs⟩ := typed
    have complete : failure = none := complete
    have served := (channel_streaming method).mpr streaming
    cases complete
    cases items with
    | nil => exact absurd rfl nonempty
    | cons message items =>
      refine ⟨_,_,exact,?_,?_⟩
      · have wired : ((message :: items).map (sent P (PrintInterface descriptor) (PrintClient descriptor)
            (clientMethod method))).map Payload.data = (message :: items).map P.wire := by rw [List.map_map]; rfl
        obtain ⟨published,ran⟩ := channel_called P service compiles member T served _ _ none (message :: items) (called message)
          inputs wired .entry Nat.one_ne_zero
        rw [served]
        exact ⟨published,_,_,ran,rfl⟩
      · intro payload listed other apart
        obtain ⟨sender,_,equal⟩ := List.mem_map.mp (show payload ∈ (message :: items).map _ from listed)
        cases equal
        exact present_missed P T compiles ids member service other apart _ _ _ (called sender) (called message)

theorem dispatch_agrees_bidi : ∃ first rest,
    (request (Heap.protobuf (TestService.message "StreamingOutputCallRequest" 0)) TestService.descriptor
        TestService.FullBidiCall ⟨emptyBuffer,0⟩ (.messages ⟨[hello,hello],none⟩)).1 = ⟨first :: rest,none⟩ ∧
      (∃ published t metadata, present (Heap.protobuf (TestService.message "StreamingOutputCallRequest" 0))
          (immediate Heap.netty Bytes) TestService.descriptor eager .requestChannel first ⟨first :: rest,none⟩ .entry =
            .ok published t ∧
          t.invocations = [⟨LowerMethodName TestService.FullBidiCall,.messages ⟨[hello,hello],none⟩,metadata⟩]) ∧
      ∀ payload ∈ first :: rest, ∀ other, other ≠ (clientMethod TestService.FullBidiCall).interaction →
        ∃ text t, present (Heap.protobuf (TestService.message "StreamingOutputCallRequest" 0)) (immediate Heap.netty Bytes)
          TestService.descriptor eager other payload ⟨first :: rest,none⟩ .entry =
            .ok (.error (.unsupportedOperation text)) t ∧ t.invocations = [] :=
  dispatch_agrees (Heap.protobuf (TestService.message "StreamingOutputCallRequest" 0)) (immediate Heap.netty Bytes)
    TestService.compiles (by decide +kernel) (show TestService.FullBidiCall ∈ TestService.descriptor.methods by decide) eager
    (.messages ⟨[hello,hello],none⟩) ⟨rfl,by simp,rfl,by decide⟩ ⟨emptyBuffer,0⟩ rfl

end Proteus.Dispatch
