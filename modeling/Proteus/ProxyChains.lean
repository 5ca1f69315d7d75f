import Proteus.Dispatch

namespace Proteus.ProxyChains
open ByteBuffer JavaGenerator GeneratedClient GeneratedServer Dispatch
variable {N : Netty}

section Chains
variable (P : Protobuf N) (T : SwitchTransform N P.MessageLite) (descriptor : ServiceDescriptor)
  (carried : Throwable → Throwable)

-- The service methods a server calls for what one subscription sends to it. A
-- failure crosses the connection as `carried` makes it; one before the first
-- payload sends nothing.
def deliver (service : Implementation N P.MessageLite) (interaction : Interaction) (sent : Flux Payload) :
    List (Invocation N P.MessageLite) :=
  match sent.items with
  | [] => []
  | first :: rest =>
    match present P T descriptor service interaction first ⟨first :: rest,sent.failure.map carried⟩ .entry with
    | .ok _ s => s.invocations
    | .error _ s => s.invocations

-- A client connected to a server: a method called, and its publisher subscribed to.
def hop (service : Implementation N P.MessageLite) (method : MethodDescriptor) (argument : Argument P.MessageLite)
    (metadata : N.ByteBuf) : List (Invocation N P.MessageLite) :=
  deliver P T descriptor carried service (clientMethod method).interaction (request P descriptor method ⟨metadata,0⟩ argument).1

-- k servers whose service is the client of the next one, and the implementation
-- behind the last. What a client's method returns is that of `proxies`.
def chain (proxies : Nat → Implementation N P.MessageLite) (implementation : Implementation N P.MessageLite) :
    Nat → MethodDescriptor → Argument P.MessageLite → N.ByteBuf → List (Invocation N P.MessageLite)
  | 0,method,argument,metadata => hop P T descriptor carried implementation method argument metadata
  | k+1,method,argument,metadata =>
    (hop P T descriptor carried (proxies k) method argument metadata).flatMap fun invocation =>
      match descriptor.methods.find? fun m => LowerMethodName m = invocation.lower_method_name with
      | some next => chain proxies implementation k next invocation.argument invocation.metadata
      | none => []

end Chains

def seen (N : Netty) (invocation : Invocation N Message) : CString × Argument Message × List UInt8 :=
  (invocation.lower_method_name,invocation.argument,N.readable invocation.metadata)

-- What the generated Java signature of a method lets a caller pass.
def Accepts (P : Protobuf N) (method : MethodDescriptor) : Argument P.MessageLite → Prop
  | .message message => method.client_streaming = false ∧ P.descriptor message = method.input_type
  | .messages flux => method.client_streaming = true ∧ ∀ message ∈ flux.items, P.descriptor message = method.input_type

def across (carried : Throwable → Throwable) : Argument Message → Argument Message
  | .message message => .message message
  | .messages flux => .messages ⟨flux.items,flux.failure.map carried⟩

section Hops
variable (P : Protobuf N) (T : SwitchTransform N P.MessageLite) {descriptor : ServiceDescriptor}
  (carried : Throwable → Throwable) (service : Implementation N P.MessageLite)

theorem deliver_run (interaction : Interaction) (first : Payload) (rest : List Payload) (failure : Option Throwable)
    (ran : present P T descriptor service interaction first ⟨first :: rest,failure.map carried⟩ .entry = .ok published s) :
    deliver P T descriptor carried service interaction ⟨first :: rest,failure⟩ = s.invocations := by
  unfold deliver
  dsimp only
  rw [ran]

theorem hop_silent (method : MethodDescriptor) (argument : Argument P.MessageLite) (metadata : N.ByteBuf)
    (nothing : (request P descriptor method ⟨metadata,0⟩ argument).1.items = []) :
    hop P T descriptor carried service method argument metadata = [] := by
  unfold hop deliver
  rw [nothing]

theorem request_silent (method : MethodDescriptor) (argument : Argument P.MessageLite) (metadata : N.ByteBuf)
    (unsent : N.readable metadata ≠ [] ∨ ¬ argument.Carries) :
    (request P descriptor method ⟨metadata,0⟩ argument).1.items = [] := by
  by_cases carries : argument.Carries
  · have something : (N.readable metadata).length ≠ 0 := by
      rcases unsent with something | silent
      · exact fun zero => something (List.length_eq_zero_iff.mp zero)
      · exact absurd carries silent
    obtain ⟨thrown,failed⟩ := request_throws P descriptor method ⟨metadata,0⟩ something argument carries
    rw [failed]
  · cases argument with
    | message message => exact absurd trivial carries
    | messages flux =>
      obtain ⟨items,failure⟩ := flux
      have nothing : items = [] := Classical.byContradiction carries
      cases nothing
      rfl

-- The header of the received frame becomes the metadata of the next call.
theorem hop_exact (compiles : Compiles descriptor) (member : method ∈ descriptor.methods) (argument : Argument P.MessageLite)
    (accepts : Accepts P method argument) (carries : argument.Carries) (metadata : N.ByteBuf) (nothing : N.readable metadata = []) :
    ∃ framed, hop P T descriptor carried service method argument metadata =
        [⟨LowerMethodName method,across carried argument,framed⟩] ∧ N.readable framed ≠ [] := by
  have exact := request_exact P descriptor method ⟨metadata,0⟩ nothing argument
  have called (message : P.MessageLite) : ProteusMetadata.methodId N
      ((sent P (PrintInterface descriptor) (PrintClient descriptor) (clientMethod method) message).sliceMetadata N) =
        .ok (MethodId method) := (header_decodes N compiles.fields member).called
  have framed (message : P.MessageLite) : N.readable
      ((sent P (PrintInterface descriptor) (PrintClient descriptor) (clientMethod method) message).sliceMetadata N) ≠ [] := by
    intro empty
    have length := congrArg List.length ((congrArg Buffer.readable (slice_contents N _)).symm.trans empty)
    rw [Buffer.readable_full] at length
    change (ProteusMetadata.frame _ _ _ []).length = 0 at length
    rw [ProteusMetadata.frame_length] at length
    omega
  unfold hop
  cases argument with
  | message message =>
    obtain ⟨plain,input⟩ := accepts
    obtain ⟨kind,served⟩ := single_streaming method plain
    have parsed := P.parsed message
    rw [input] at parsed
    refine ⟨_,?_,framed message⟩
    have ran := single_called P service compiles member kind served _ (called message) parsed .entry Nat.one_ne_zero
    rw [← present_single P T descriptor service kind _
      ⟨[sent P (PrintInterface descriptor) (PrintClient descriptor) (clientMethod method) message],none⟩] at ran
    rw [exact,served]
    exact deliver_run P T carried service kind.interaction _ [] none ran
  | messages flux =>
    obtain ⟨items,failure⟩ := flux
    obtain ⟨streaming,inputs⟩ := accepts
    have served := (channel_streaming method).mpr streaming
    cases items with
    | nil => exact absurd rfl carries
    | cons message items =>
      have wired : ((message :: items).map (sent P (PrintInterface descriptor) (PrintClient descriptor)
          (clientMethod method))).map Payload.data = (message :: items).map P.wire := by rw [List.map_map]; rfl
      obtain ⟨published,ran⟩ := channel_called P service compiles member T served _ _ (failure.map carried) (message :: items)
        (called message) inputs wired .entry Nat.one_ne_zero
      refine ⟨_,?_,framed message⟩
      rw [exact,served]
      exact deliver_run P T carried service .requestChannel _ _ failure ran

end Hops

section Transparency
variable (P : Protobuf N) (T : SwitchTransform N P.MessageLite) {descriptor : ServiceDescriptor}
  (carried : Throwable → Throwable) (proxies : Nat → Implementation N P.MessageLite) (implementation : Implementation N P.MessageLite)

theorem chain_silent (k : Nat) (method : MethodDescriptor) (argument : Argument P.MessageLite) (metadata : N.ByteBuf)
    (unsent : N.readable metadata ≠ [] ∨ ¬ argument.Carries) :
    chain P T descriptor carried proxies implementation k method argument metadata = [] := by
  have nothing : (request P descriptor method ⟨metadata,0⟩ argument).1.items = [] :=
    request_silent P method argument metadata unsent
  cases k with
  | zero => exact hop_silent P T carried implementation method argument metadata nothing
  | succ k =>
    unfold chain
    rw [hop_silent P T carried (proxies k) method argument metadata nothing,List.flatMap_nil]

-- A client in the place of the implementation cannot send what it is given.
theorem chain_succ (compiles : Compiles descriptor) (member : method ∈ descriptor.methods) (argument : Argument P.MessageLite)
    (accepts : Accepts P method argument) (metadata : N.ByteBuf) (k : Nat) :
    chain P T descriptor carried proxies implementation (k + 1) method argument metadata = [] := by
  by_cases sends : N.readable metadata = [] ∧ argument.Carries
  · obtain ⟨framed,hopped,something⟩ :=
      hop_exact P T carried (proxies k) compiles member argument accepts sends.2 metadata sends.1
    unfold chain
    rw [hopped,List.flatMap_singleton]
    split
    · exact chain_silent P T carried proxies implementation k _ _ framed (.inl something)
    · rfl
  · exact chain_silent P T carried proxies implementation (k + 1) method argument metadata (not_and_or.mp sends)

variable (descriptor) in
-- The implementation behind k proxies is called as if it stood alone.
def Transparent (k : Nat) (method : MethodDescriptor) (argument : Argument P.MessageLite) (metadata : N.ByteBuf) : Prop :=
  (chain P T descriptor carried proxies implementation k method argument metadata).map (seen N) =
    (chain P T descriptor carried proxies implementation 0 method argument metadata).map (seen N)

theorem one_opaque (compiles : Compiles descriptor) (member : method ∈ descriptor.methods) (argument : Argument P.MessageLite)
    (accepts : Accepts P method argument) (carries : argument.Carries) (metadata : N.ByteBuf) (nothing : N.readable metadata = [])
    (k : Nat) : ¬ Transparent P T descriptor carried proxies implementation (k + 1) method argument metadata := by
  intro same
  obtain ⟨framed,hopped,_⟩ :=
    hop_exact P T carried implementation compiles member argument accepts carries metadata nothing
  have alone : chain P T descriptor carried proxies implementation 0 method argument metadata =
    [⟨LowerMethodName method,across carried argument,framed⟩] := hopped
  rw [Transparent,chain_succ P T carried proxies implementation compiles member argument accepts metadata k,alone] at same
  cases same

-- Only where a call reaches no implementation at all do proxies change nothing.
theorem transparent_iff (compiles : Compiles descriptor) (member : method ∈ descriptor.methods) (k : Nat)
    (argument : Argument P.MessageLite) (accepts : Accepts P method argument) (metadata : N.ByteBuf) :
    Transparent P T descriptor carried proxies implementation k method argument metadata ↔
      k = 0 ∨ N.readable metadata ≠ [] ∨ ¬ argument.Carries := by
  cases k with
  | zero => exact ⟨fun _ => .inl rfl,fun _ => rfl⟩
  | succ k =>
    constructor
    · intro same
      refine .inr (Classical.byContradiction fun sends => ?_)
      obtain ⟨empty,carries⟩ := not_or.mp sends
      exact one_opaque P T carried proxies implementation compiles member argument accepts (not_not.mp carries) metadata
        (not_not.mp empty) k same
    · rintro (zero | unsent)
      · cases zero
      · rw [Transparent,chain_silent P T carried proxies implementation (k + 1) method argument metadata unsent,
          chain_silent P T carried proxies implementation 0 method argument metadata unsent]

end Transparency

def bidi : Protobuf Heap.netty := Heap.protobuf (TestService.message "StreamingOutputCallRequest" 0)

def silent : Implementation Heap.netty bidi.MessageLite := fun _ => ⟨0,.ok ⟨[],none⟩⟩

theorem bidi_accepts : Accepts bidi TestService.FullBidiCall (.messages ⟨[hello,hello],none⟩) := by
  refine ⟨rfl,?_⟩
  intro message listed
  rfl

theorem transparent_iff_bidi :
    Transparent bidi (immediate Heap.netty bidi.MessageLite) TestService.descriptor id (fun _ => silent) silent 1
        TestService.FullBidiCall (.messages ⟨[hello,hello],none⟩) emptyBuffer ↔
      1 = 0 ∨ Heap.netty.readable emptyBuffer ≠ [] ∨ ¬ Argument.Carries (.messages ⟨[hello,hello],none⟩ : Argument Bytes) :=
  transparent_iff bidi (immediate Heap.netty bidi.MessageLite) id (fun _ => silent) silent TestService.compiles (by decide) 1
    (.messages ⟨[hello,hello],none⟩) bidi_accepts emptyBuffer

-- The client of the one proxy gets a whole frame as metadata.
theorem one_proxy_opaque : ¬ ∀ (N : Netty) (P : Protobuf N) (T : SwitchTransform N P.MessageLite) (descriptor : ServiceDescriptor)
    (carried : Throwable → Throwable) (proxies : Nat → Implementation N P.MessageLite)
    (implementation : Implementation N P.MessageLite), Compiles descriptor → ∀ method ∈ descriptor.methods,
    ∀ (k : Nat) (argument : Argument P.MessageLite) (metadata : N.ByteBuf), Accepts P method argument →
      Transparent P T descriptor carried proxies implementation k method argument metadata := by
  intro every
  have same := every Heap.netty bidi (immediate Heap.netty bidi.MessageLite) TestService.descriptor id (fun _ => silent) silent
    TestService.compiles TestService.FullBidiCall (by decide) 1 (.messages ⟨[hello,hello],none⟩) emptyBuffer bidi_accepts
  exact one_opaque bidi (immediate Heap.netty bidi.MessageLite) id (fun _ => silent) silent TestService.compiles (by decide)
    (.messages ⟨[hello,hello],none⟩) bidi_accepts (List.cons_ne_nil _ _) emptyBuffer rfl 0 same

end Proteus.ProxyChains
