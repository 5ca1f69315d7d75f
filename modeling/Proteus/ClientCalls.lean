import Proteus.GeneratedClient

namespace Proteus.GeneratedClient
open ByteBuffer JavaGenerator
variable {N : Netty}

-- What a receiver reads off a metadata frame.
structure Decodes (N : Netty) (frame : Bytes) (namespaceId serviceId methodId : JInt) (metadata : List UInt8) : Prop where
  namespaced : ProteusMetadata.namespaceId N (N.wrappedBuffer frame) = .ok namespaceId
  served : ProteusMetadata.serviceId N (N.wrappedBuffer frame) = .ok serviceId
  called : ProteusMetadata.methodId N (N.wrappedBuffer frame) = .ok methodId
  attached : ∃ part, ProteusMetadata.metadata N (N.wrappedBuffer frame) = .ok part ∧ N.readable part = metadata

-- The generated client of a service, calling one of its methods.
def request (P : Protobuf N) (service : ServiceDescriptor) (method : MethodDescriptor) (r : Resources N)
    (argument : Argument P.MessageLite) : Flux Payload × Resources N :=
  call P (PrintInterface service) (PrintClient service) (clientMethod method) r argument

theorem clientMethod_id (method : MethodDescriptor) : (clientMethod method).method_id_name = MethodIdFieldName method := by
  unfold clientMethod
  split
  · split <;> rfl
  · split
    · rfl
    · split <;> rfl

theorem frame_congr (namespaceId : a = a') (serviceId : b = b') (methodId : c = c') :
    ProteusMetadata.frame a b c data = ProteusMetadata.frame a' b' c' data := by rw [namespaceId,serviceId,methodId]

theorem header_frame {service : ServiceDescriptor} (fields : (service.methods.map MethodIdFieldName).Nodup)
    (member : method ∈ service.methods) :
    (header (PrintInterface service) (PrintClient service) (clientMethod method)).val =
      ProteusMetadata.frame (NamespaceId service) (ServiceId service) (MethodId method) [] := by
  refine frame_congr (congrArg (Option.getD · 0) (namespace_constant service))
    (congrArg (Option.getD · 0) (service_constant service)) ?_
  rw [clientMethod_id,Interface.value,method_constant fields member,Option.getD_some]

theorem header_decodes (N : Netty) {service : ServiceDescriptor} (fields : (service.methods.map MethodIdFieldName).Nodup)
    (member : method ∈ service.methods) :
    Decodes N (header (PrintInterface service) (PrintClient service) (clientMethod method))
      (NamespaceId service) (ServiceId service) (MethodId method) [] := by
  have bytes := (congrArg Buffer.bytes (N.wrapped (header (PrintInterface service) (PrintClient service)
    (clientMethod method)))).trans (header_frame fields member)
  obtain ⟨_,namespaced,served,called,part,cut,contents⟩ :=
    ProteusMetadata.accessors_frame [] (bytes.trans (List.append_nil _).symm) (show 0 < 2 ^ 31 by decide)
  exact ⟨namespaced,served,called,part,cut,by rw [Netty.readable,contents,Buffer.readable_full]⟩

theorem request_exact (P : Protobuf N) (service : ServiceDescriptor) (method : MethodDescriptor) (r : Resources N)
    (nothing : N.readable r.metadata = []) (argument : Argument P.MessageLite) :
    (request P service method r argument).1 = match argument with
      | .message message => ⟨[sent P (PrintInterface service) (PrintClient service) (clientMethod method) message],none⟩
      | .messages messages =>
        ⟨messages.items.map (sent P (PrintInterface service) (PrintClient service) (clientMethod method)),messages.failure⟩ := by
  cases argument with
  | message message =>
    obtain ⟨drained,supplied,_⟩ := supply_exact P (PrintInterface service) (PrintClient service) (clientMethod method)
      message r nothing
    simp only [request,call,supplied]
  | messages messages => exact mapped_exact P _ _ _ messages.failure messages.items r nothing

theorem request_throws (P : Protobuf N) (service : ServiceDescriptor) (method : MethodDescriptor) (r : Resources N)
    (something : (N.readable r.metadata).length ≠ 0) (argument : Argument P.MessageLite) (carries : argument.Carries) :
    ∃ thrown, (request P service method r argument).1 = ⟨[],some thrown⟩ := by
  cases argument with
  | message message =>
    obtain ⟨thrown,failed⟩ := supply_throws P (PrintInterface service) (PrintClient service) (clientMethod method)
      message r something
    exact ⟨thrown,by simp only [request,call,failed]⟩
  | messages messages =>
    obtain ⟨items,failure⟩ := messages
    cases items with
    | nil => exact absurd rfl carries
    | cons message rest =>
      obtain ⟨thrown,failed⟩ := apply_throws P (PrintInterface service) (PrintClient service) (clientMethod method)
        message r something
      exact ⟨thrown,by simp only [request,call,mapped,failed]⟩

-- A call sends the caller's metadata when its first payload carries a frame
-- from which the receiver gets the ids and exactly those bytes.
def SendsMetadata (P : Protobuf N) (service : ServiceDescriptor) (method : MethodDescriptor) (r : Resources N)
    (argument : Argument P.MessageLite) : Prop :=
  ∃ payload rest frame, (request P service method r argument).1 = ⟨payload :: rest,none⟩ ∧ payload.metadata = some frame ∧
    Decodes N frame (NamespaceId service) (ServiceId service) (MethodId method) (N.readable r.metadata)

-- computeLength leaves no room behind the header, so only empty metadata is sent.
theorem metadata_sent_iff (P : Protobuf N) {service : ServiceDescriptor} (fields : (service.methods.map MethodIdFieldName).Nodup)
    (member : method ∈ service.methods) (r : Resources N) (argument : Argument P.MessageLite) (sendable : argument.Sendable) :
    SendsMetadata P service method r argument ↔ (N.readable r.metadata).length = 0 := by
  constructor
  · intro sends
    obtain ⟨payload,rest,frame,equal,_,_⟩ := sends
    refine Classical.byContradiction fun something => ?_
    obtain ⟨thrown,failed⟩ := request_throws P service method r something argument sendable.carries
    rw [failed] at equal
    cases equal
  · intro zero
    have nothing : N.readable r.metadata = [] := List.length_eq_zero_iff.mp zero
    have exact := request_exact P service method r nothing argument
    have decodes := header_decodes N fields member
    rw [SendsMetadata,nothing]
    cases argument with
    | message message => exact ⟨_,[],_,exact,rfl,decodes⟩
    | messages messages =>
      obtain ⟨items,failure⟩ := messages
      obtain ⟨some_,done⟩ := sendable
      cases items with
      | nil => exact absurd rfl some_
      | cons message rest =>
        cases done
        exact ⟨_,_,_,exact,rfl,decodes⟩

def emptyBuffer : Heap.Buf := ⟨.full [],by decide⟩

def hello : Bytes := ⟨[104,105],by decide⟩

theorem metadata_sent_iff_unary :
    SendsMetadata (Heap.protobuf (TestService.message "SimpleRequest" 1)) TestService.descriptor TestService.UnaryCall ⟨emptyBuffer,0⟩
      (.message hello) ↔ (Heap.netty.readable emptyBuffer).length = 0 :=
  metadata_sent_iff (Heap.protobuf (TestService.message "SimpleRequest" 1)) TestService.compiles.fields (by decide)
    ⟨emptyBuffer,0⟩ _ trivial

theorem one_byte_unsent : ¬ SendsMetadata (Heap.protobuf (TestService.message "SimpleRequest" 1)) TestService.descriptor
    TestService.UnaryCall ⟨⟨.full [7],by decide⟩,0⟩ (.message hello) := by
  intro sends
  obtain ⟨payload,rest,frame,equal,_,_⟩ := sends
  obtain ⟨thrown,failed⟩ := request_throws (Heap.protobuf (TestService.message "SimpleRequest" 1)) TestService.descriptor
    TestService.UnaryCall ⟨⟨.full [7],by decide⟩,0⟩ (by decide) (.message hello) trivial
  rw [failed] at equal
  cases equal

-- A channel that carries its header once: the messages in order, the frame on
-- the first payload and on no later one.
def HeaderOnce (P : Protobuf N) (service : ServiceDescriptor) (method : MethodDescriptor) (r : Resources N)
    (messages : List P.MessageLite) : Prop :=
  ∃ first rest frame, (request P service method r (.messages ⟨messages,none⟩)).1 = ⟨first :: rest,none⟩ ∧
    (first :: rest).map Payload.data = messages.map P.wire ∧ first.metadata = some frame ∧
    Decodes N frame (NamespaceId service) (ServiceId service) (MethodId method) [] ∧
    ∀ later ∈ rest, later.metadata = none

theorem header_once_iff (P : Protobuf N) {service : ServiceDescriptor} (fields : (service.methods.map MethodIdFieldName).Nodup)
    (member : method ∈ service.methods) (r : Resources N) (nothing : N.readable r.metadata = [])
    (messages : List P.MessageLite) (nonempty : messages ≠ []) :
    HeaderOnce P service method r messages ↔ messages.length = 1 := by
  have exact := request_exact P service method r nothing (.messages ⟨messages,none⟩)
  cases messages with
  | nil => exact absurd rfl nonempty
  | cons message others =>
    constructor
    · intro once
      obtain ⟨first,rest,frame,equal,_,_,_,bare⟩ := once
      cases others with
      | nil => rfl
      | cons second others =>
        rw [exact] at equal
        cases equal
        exact absurd (bare _ (List.mem_cons_self ..)) (by simp [sent])
    · intro one
      have alone : others = [] := List.length_eq_zero_iff.mp (Nat.succ.inj one)
      cases alone
      exact ⟨_,[],_,exact,rfl,rfl,header_decodes N fields member,by simp⟩

theorem header_once_iff_bidi :
    HeaderOnce (Heap.protobuf (TestService.message "StreamingOutputCallRequest" 0)) TestService.descriptor TestService.FullBidiCall
      ⟨emptyBuffer,0⟩ [hello] ↔ [hello].length = 1 :=
  header_once_iff (Heap.protobuf (TestService.message "StreamingOutputCallRequest" 0)) TestService.compiles.fields (by decide)
    ⟨emptyBuffer,0⟩ rfl [hello] (by simp)

theorem second_header_sent : ¬ HeaderOnce (Heap.protobuf (TestService.message "StreamingOutputCallRequest" 0)) TestService.descriptor
    TestService.FullBidiCall ⟨emptyBuffer,0⟩ [hello,hello] := by
  intro once
  obtain ⟨first,rest,frame,equal,_,_,_,bare⟩ := once
  have exact := request_exact (Heap.protobuf (TestService.message "StreamingOutputCallRequest" 0)) TestService.descriptor
    TestService.FullBidiCall ⟨emptyBuffer,0⟩ rfl (.messages ⟨[hello,hello],none⟩)
  rw [exact] at equal
  cases equal
  exact absurd (bare _ (List.mem_cons_self ..)) (by simp [sent])

end Proteus.GeneratedClient
