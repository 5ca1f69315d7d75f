import Proteus.RpcMetrics
import Proteus.GeneratedServices
import Proteus.ProxyChains
import Proteus.Lib.Mapping

namespace Proteus.RemoteCalls
open JavaGenerator GeneratedClient GeneratedServer Stateful Mapping ProxyChains Execution
variable {N : Netty} {Message : Type}

-- What the code relies on of RSocket, that it carries failures across, and of
-- Reactor's single(): it holds one item back until its source completes, and
-- cancels the source at a second one.
structure Transport where
  carried : Throwable → Throwable
  noSuchElement : Throwable
  indexOutOfBounds : Throwable
  single : {A : Type} → Flux A → Flux A
  taken : {A : Type} → List A → List A
  empty : ∀ A, single (⟨[],none⟩ : Flux A) = ⟨[],some noSuchElement⟩
  alone : ∀ {A : Type} (item : A), single ⟨[item],none⟩ = ⟨[item],none⟩
  failed : ∀ {A : Type} (items : List A) (thrown : Throwable), items.length ≤ 1 →
    single ⟨items,some thrown⟩ = ⟨[],some thrown⟩
  several : ∀ {A : Type} (item other : A) (items : List A) (failure : Option Throwable),
    single ⟨item :: other :: items,failure⟩ = ⟨[],some indexOutOfBounds⟩
  cancelled : ∀ {A : Type} (items : List A), taken items = items.take 2

def serializer (P : Protobuf N) (message : P.MessageLite) : Building N Payload := do
  let byteBuf ← directBuffer (P.getSerializedSize message)
  try
    let byteBuf ← raise (P.writeTo message byteBuf)
    let byteBuf ← raise (N.writerIndex byteBuf (N.capacity byteBuf))
    pure (ByteBufPayload.createData N byteBuf)
  catch t =>
    release byteBuf
    throw (.runtime t)

def emitted : Signal Message → Option Message
  | .read => none
  | .item message => some message

def published (publisher : Publisher Message) : Flux Message := ⟨publisher.signals.filterMap emitted,publisher.failure⟩

def messages : Published Message → Flux Message
  | .error thrown => ⟨[],some thrown⟩
  | .service publisher => published publisher
  | .serialized source => messages source
  | .transformed _ source => messages source
  | .flux source => messages source

-- The payloads that RSocket gets of what a handler returns. What is not serialized
-- is a Mono<Void>.
def payloads (P : Protobuf N) : Published P.MessageLite → Resources N → Flux Payload × Resources N
  | .error thrown,r => (⟨[],some thrown⟩,r)
  | .service publisher,r => (⟨[],publisher.failure⟩,r)
  | .serialized source,r =>
    let mapped := mapping (serializer P) (messages source).items r
    (⟨mapped.results,mapped.thrown <|> (messages source).failure⟩,mapped.state)
  | .transformed _ source,r => payloads P source r
  | .flux source,r => payloads P source r

-- Nothing comes back of fire and forget.
def Transport.responses (T : Transport) (interaction : Interaction) (answer : Flux Payload) : Flux Payload :=
  match interaction with
  | .fireAndForget => ⟨[],none⟩
  | _ => ⟨answer.items,answer.failure.map T.carried⟩

-- The state is the payloads released so far, in order.
abbrev Receiving := EStateM Throwable (List Payload)

def deserializer (P : Protobuf N) (output_type : Descriptor) (payload : Payload) : Receiving P.MessageLite := do
  try raise (P.parseFrom output_type payload.data)
  catch t => throw (.runtime t)
  finally modify (· ++ [payload])

def taken (T : Transport) (method : ClientMethod) (responses : List Payload) : List Payload :=
  if method.single then T.taken responses else responses

def receive (P : Protobuf N) (T : Transport) (method : ClientMethod) (responses : Flux Payload) :
    Flux P.MessageLite × List Payload :=
  match method.deserializer with
  | none => (⟨[],responses.failure⟩,[])
  | some output_type =>
    let mapped := mapping (deserializer P output_type) (taken T method responses.items) []
    let received : Flux P.MessageLite := ⟨mapped.results,mapped.thrown <|> responses.failure⟩
    (if method.single then T.single received else received,mapped.state)

theorem serializer_run (P : Protobuf N) (message : P.MessageLite) (r : Resources N) : serializer P message r =
    match P.writeTo message (N.directBuffer (P.getSerializedSize message)) >>= fun b => N.writerIndex b (N.capacity b) with
    | .ok data => .ok (ByteBufPayload.createData N data) {r with outstanding := r.outstanding + 1}
    | .error thrown => .error (.runtime thrown) r := by
  have unfolded : serializer P message r = tryCatch (raise (P.writeTo message (N.directBuffer (P.getSerializedSize message))) >>=
      fun b => raise (N.writerIndex b (N.capacity b)) >>= fun b => pure (ByteBufPayload.createData N b))
        (fun t => release (N.directBuffer (P.getSerializedSize message)) >>= fun _ => throw (.runtime t))
          {r with outstanding := r.outstanding + 1} := rfl
  rw [unfolded,caught_run,raise_run]
  cases P.writeTo message (N.directBuffer (P.getSerializedSize message)) >>= fun b => N.writerIndex b (N.capacity b) with
  | error thrown => rfl
  | ok data => rfl

def response (P : Protobuf N) (message : P.MessageLite) : Payload := ⟨P.wire message,none⟩

theorem serializer_exact (P : Protobuf N) (message : P.MessageLite) (r : Resources N) :
    serializer P message r = .ok (response P message) {r with outstanding := r.outstanding + 1} := by
  obtain ⟨data,serialized,wire⟩ := serialize_exact P message r
  rw [serialize_run] at serialized
  rw [serializer_run]
  cases wrote : P.writeTo message (N.directBuffer (P.getSerializedSize message)) >>= fun b => N.writerIndex b (N.capacity b) with
  | error thrown =>
    rw [wrote] at serialized
    cases serialized
  | ok b =>
    rw [wrote] at serialized
    cases serialized
    have bytes : (⟨N.readable data,N.readable_small data⟩ : Bytes) = P.wire message := Subtype.ext wire
    rw [response,← bytes]
    rfl

theorem deserializer_run (P : Protobuf N) (output_type : Descriptor) (payload : Payload) (released : List Payload) :
    deserializer P output_type payload released =
      match P.parseFrom output_type payload.data with
      | .ok message => .ok message (released ++ [payload])
      | .error thrown => .error (.runtime thrown) (released ++ [payload]) := by
  have caught := caught_run (s := released) (raise (P.parseFrom output_type payload.data) : Receiving P.MessageLite)
    fun t => throw (.runtime t)
  change EStateM.map Prod.fst (tryFinally' (tryCatch (raise (P.parseFrom output_type payload.data) : Receiving P.MessageLite)
    fun t => throw (.runtime t)) fun _ => modify (· ++ [payload])) released = _
  simp only [tryFinally',EStateM.map,caught]
  cases P.parseFrom output_type payload.data <;> rfl

-- What the generated signature lets a service method return: messages of its
-- output type, and of a Mono one message or a failure, or neither.
structure Returns (P : Protobuf N) (method : MethodDescriptor) (publisher : Publisher P.MessageLite) : Prop where
  typed : ∀ message ∈ (published publisher).items, P.descriptor message = method.output_type
  mono : method.server_streaming = false →
    (published publisher).items.length ≤ 1 ∧ ((published publisher).items = [] ∨ publisher.failure = none)

def given : Except Throwable (Publisher Message) → Flux Message
  | .ok publisher => published publisher
  | .error thrown => ⟨[],some thrown⟩

-- What a caller on the other side is to get. single() turns an empty Mono into a
-- failure.
def Transport.expected (T : Transport) (method : MethodDescriptor) (given : Flux Message) : Flux Message :=
  match (clientMethod method).interaction with
  | .fireAndForget => ⟨[],none⟩
  | _ =>
    if (clientMethod method).single && given.items.isEmpty && given.failure.isNone then ⟨[],some T.noSuchElement⟩
    else ⟨given.items,given.failure.map T.carried⟩

structure Delivered (P : Protobuf N) (T : Transport) (method : MethodDescriptor) (given : Flux P.MessageLite)
    (answer : Published P.MessageLite) (r : Resources N) : Prop where
  received : (receive P T (clientMethod method) (T.responses (clientMethod method).interaction (payloads P answer r).1)).1 =
    T.expected method given
  released : (receive P T (clientMethod method) (T.responses (clientMethod method).interaction (payloads P answer r).1)).2 =
    (payloads P answer r).1.items
  allocated : (payloads P answer r).2.outstanding = r.outstanding + (payloads P answer r).1.items.length

theorem forgets_output (forgets : (clientMethod method).interaction = .fireAndForget) :
    (clientMethod method).deserializer = none := by
  revert forgets
  unfold clientMethod
  repeat' split
  all_goals simp

theorem reads_output (applied : (clientMethod method).interaction ≠ .fireAndForget) :
    (clientMethod method).deserializer = some method.output_type := by
  revert applied
  unfold clientMethod
  repeat' split
  all_goals simp

theorem single_mono (alone : (clientMethod method).single = true) : method.server_streaming = false := by
  revert alone
  unfold clientMethod
  repeat' split
  all_goals simp_all

section Answers
variable (P : Protobuf N) (T : Transport) {method : MethodDescriptor}

theorem served_payloads {interaction : Interaction} (applied : interaction ≠ .fireAndForget) (publisher : Publisher P.MessageLite)
    (r : Resources N) : payloads P (RpcMetrics.returned interaction method (.ok publisher)) r =
      payloads P (.serialized (.service publisher)) r := by
  cases interaction with
  | fireAndForget => exact absurd rfl applied
  | requestResponse => rfl
  | requestStream => rfl
  | requestChannel =>
    unfold RpcMetrics.returned
    dsimp only
    split <;> rfl

theorem outstanding_all (items : List P.MessageLite) (r : Resources N) :
    (items.foldl (fun r _ => {r with outstanding := r.outstanding + 1}) r).outstanding = r.outstanding + items.length := by
  induction items generalizing r with
  | nil => rfl
  | cons message items ih =>
    rw [List.foldl_cons,ih,List.length_cons]
    dsimp only
    omega

theorem serialized_payloads (publisher : Publisher P.MessageLite) (r : Resources N) :
    (payloads P (.serialized (.service publisher)) r).1 = ⟨(published publisher).items.map (response P),publisher.failure⟩ ∧
      (payloads P (.serialized (.service publisher)) r).2.outstanding = r.outstanding + (published publisher).items.length := by
  have all := mapping_all (h := id) (fun r _ => {r with outstanding := r.outstanding + 1}) (published publisher).items
    (fun message _ r => serializer_exact P message r) r
  rw [List.map_id] at all
  have unfolded : payloads P (.serialized (.service publisher)) r =
    (⟨(mapping (serializer P) (published publisher).items r).results,
      (mapping (serializer P) (published publisher).items r).thrown <|> publisher.failure⟩,
      (mapping (serializer P) (published publisher).items r).state) := rfl
  rw [unfolded,all]
  exact ⟨rfl,outstanding_all P _ r⟩

theorem logged_all (payloads released : List Payload) :
    payloads.foldl (fun released payload => released ++ [payload]) released = released ++ payloads := by
  induction payloads generalizing released with
  | nil => exact (List.append_nil _).symm
  | cons payload payloads ih => rw [List.foldl_cons,ih,List.append_assoc,List.singleton_append]

theorem deserialized_responses (output_type : Descriptor) (items : List P.MessageLite)
    (typed : ∀ message ∈ items, P.descriptor message = output_type) :
    mapping (deserializer P output_type) (items.map (response P)) [] = ⟨items,none,items.map (response P)⟩ := by
  have all := mapping_all (f := deserializer P output_type) (h := response P) (g := id)
    (fun released message => released ++ [response P message]) items (fun message member released => by
      have parsed := P.parsed message
      rw [typed message member] at parsed
      rw [deserializer_run,response,parsed]
      rfl) []
  have logged := logged_all (items.map (response P)) []
  rw [List.foldl_map] at logged
  rw [all,logged,List.map_id,List.nil_append]

theorem single_received (flux : Flux Message) (few : flux.items.length ≤ 1) (whole : flux.items = [] ∨ flux.failure = none) :
    T.single flux = if flux.items.isEmpty && flux.failure.isNone then ⟨[],some T.noSuchElement⟩ else flux := by
  obtain ⟨items,failure⟩ := flux
  cases items with
  | nil =>
    cases failure with
    | none => exact T.empty Message
    | some thrown => exact T.failed [] thrown (Nat.zero_le 1)
  | cons message items =>
    cases items with
    | nil =>
      have complete : failure = none := whole.resolve_left (List.cons_ne_nil _ _)
      cases complete
      exact T.alone message
    | cons other items => simp at few

theorem answer_payloads (applied : (clientMethod method).interaction ≠ .fireAndForget)
    (result : Except Throwable (Publisher P.MessageLite))
    (returns : ∀ publisher, result = .ok publisher → Returns P method publisher) (r : Resources N) : ∃ items failure,
      (∀ message ∈ items, P.descriptor message = method.output_type) ∧
      (method.server_streaming = false → items.length ≤ 1 ∧ (items = [] ∨ failure = none)) ∧ given result = ⟨items,failure⟩ ∧
      (payloads P (RpcMetrics.returned (clientMethod method).interaction method result) r).1 =
        ⟨items.map (response P),failure⟩ ∧
      (payloads P (RpcMetrics.returned (clientMethod method).interaction method result) r).2.outstanding =
        r.outstanding + items.length := by
  cases result with
  | error thrown => exact ⟨[],some thrown,by simp,fun _ => ⟨Nat.zero_le _,.inl rfl⟩,rfl,rfl,rfl⟩
  | ok publisher =>
    obtain ⟨typed,mono⟩ := returns publisher rfl
    obtain ⟨sent,allocated⟩ := serialized_payloads P publisher r
    rw [served_payloads P applied]
    exact ⟨_,_,typed,mono,rfl,sent,allocated⟩

theorem answered_responses (applied : interaction ≠ .fireAndForget) (answer : Flux Payload) :
    T.responses interaction answer = ⟨answer.items,answer.failure.map T.carried⟩ := by
  cases interaction with
  | fireAndForget => exact absurd rfl applied
  | _ => rfl

theorem answered_expected (applied : (clientMethod method).interaction ≠ .fireAndForget) (given : Flux Message) :
    T.expected method given =
      if (clientMethod method).single && given.items.isEmpty && given.failure.isNone then ⟨[],some T.noSuchElement⟩
      else ⟨given.items,given.failure.map T.carried⟩ := by
  unfold Transport.expected
  split
  · rename_i forgets
    exact absurd forgets applied
  · rfl

theorem responses_received (applied : (clientMethod method).interaction ≠ .fireAndForget) (items : List P.MessageLite)
    (typed : ∀ message ∈ items, P.descriptor message = method.output_type)
    (few : method.server_streaming = false → items.length ≤ 1) (failure : Option Throwable) :
    receive P T (clientMethod method) ⟨items.map (response P),failure⟩ =
      (if (clientMethod method).single then T.single ⟨items,failure⟩ else ⟨items,failure⟩,items.map (response P)) := by
  have whole : taken T (clientMethod method) (items.map (response P)) = items.map (response P) := by
    unfold taken
    split
    · rename_i alone
      rw [T.cancelled]
      exact List.take_of_length_le (by rw [List.length_map]; exact Nat.le_succ_of_le (few (single_mono alone)))
    · rfl
  rw [receive,reads_output applied]
  dsimp only
  rw [whole,deserialized_responses P method.output_type items typed]
  rfl

theorem forgotten_delivered (forgets : (clientMethod method).interaction = .fireAndForget)
    (result : Except Throwable (Publisher P.MessageLite)) (r : Resources N) :
    Delivered P T method (given result) (RpcMetrics.returned (clientMethod method).interaction method result) r := by
  have unread := forgets_output forgets
  have bare : (payloads P (RpcMetrics.returned (clientMethod method).interaction method result) r).1.items = [] ∧
      (payloads P (RpcMetrics.returned (clientMethod method).interaction method result) r).2 = r := by
    rw [forgets]
    cases result <;> exact ⟨rfl,rfl⟩
  refine ⟨?_,?_,?_⟩
  · rw [receive,unread,Transport.expected,forgets,Transport.responses]
  · rw [receive,unread,bare.1]
  · rw [bare.1,bare.2]
    rfl

theorem answer_delivered (result : Except Throwable (Publisher P.MessageLite))
    (returns : ∀ publisher, result = .ok publisher → Returns P method publisher) (r : Resources N) :
    Delivered P T method (given result) (RpcMetrics.returned (clientMethod method).interaction method result) r := by
  by_cases forgets : (clientMethod method).interaction = .fireAndForget
  · exact forgotten_delivered P T forgets result r
  · obtain ⟨items,failure,typed,mono,equal,sent,allocated⟩ := answer_payloads P forgets result returns r
    have received := responses_received P T forgets items typed (fun alone => (mono alone).1) (failure.map T.carried)
    refine ⟨?_,?_,?_⟩
    · rw [sent,answered_responses T forgets,received,answered_expected T forgets,equal]
      dsimp only
      cases alone : (clientMethod method).single with
      | false => rfl
      | true =>
        obtain ⟨few,complete⟩ := mono (single_mono alone)
        rw [if_pos rfl,single_received T _ few (complete.imp id fun fine => by rw [fine]; rfl)]
        cases failure <;> rfl
    · rw [sent,answered_responses T forgets,received]
    · rw [sent,allocated,List.length_map]

end Answers

-- A request that a generated client made, once it has crossed the connection.
structure Sent (P : Protobuf N) (T : Transport) (d : ServiceDescriptor) (method : MethodDescriptor)
    (argument : Argument P.MessageLite) (metadata : N.ByteBuf) (request : RequestHandlingRSocket.Request) : Prop where
  interaction : request.interaction = (clientMethod method).interaction
  items : request.payloads.items = (GeneratedClient.request P d method ⟨metadata,0⟩ argument).1.items
  failure : request.payloads.failure = (GeneratedClient.request P d method ⟨metadata,0⟩ argument).1.failure.map T.carried

section Requests
variable (P : Protobuf N) (T : Transport) {d : ServiceDescriptor} {method : MethodDescriptor} {argument : Argument P.MessageLite}
  {metadata : N.ByteBuf} {request : RequestHandlingRSocket.Request}

-- Only a call whose metadata is empty gets as far as the server.
theorem sent_silent (sent : Sent P T d method argument metadata request) : N.readable metadata = [] ∧ argument.Carries := by
  by_contra unsent
  have nothing : (GeneratedClient.request P d method ⟨metadata,0⟩ argument).1.items = [] :=
    request_silent P method argument metadata (not_and_or.mp unsent)
  have items := sent.items
  rw [nothing] at items
  cases items

theorem sent_exact (sent : Sent P T d method argument metadata request) :
    request.payloads = match argument with
      | .message message => ⟨[GeneratedClient.sent P (PrintInterface d) (PrintClient d) (clientMethod method) message],none⟩
      | .messages flux => ⟨flux.items.map (GeneratedClient.sent P (PrintInterface d) (PrintClient d) (clientMethod method)),
          flux.failure.map T.carried⟩ := by
  have exact := request_exact P d method ⟨metadata,0⟩ (sent_silent P T sent).1 argument
  have items := sent.items
  have failure := sent.failure
  rw [exact] at items failure
  cases argument with
  | message message => exact congr (congrArg Flux.mk items) failure
  | messages flux => exact congr (congrArg Flux.mk items) failure

-- The first payload has the header, so the router and the switch find their ids.
theorem sent_header (sent : Sent P T d method argument metadata request) :
    request.payload.metadata = some (header (PrintInterface d) (PrintClient d) (clientMethod method)) := by
  have carries := (sent_silent P T sent).2
  have exact := congrArg Flux.items (sent_exact P T sent)
  cases argument with
  | message message =>
    obtain ⟨first,_⟩ := List.cons.inj exact
    rw [first]
    rfl
  | messages flux =>
    obtain ⟨items,failure⟩ := flux
    cases items with
    | nil => exact absurd rfl carries
    | cons message items =>
      obtain ⟨first,_⟩ := List.cons.inj exact
      rw [first]
      rfl

theorem answered_returned (kind : Single) (method : MethodDescriptor) (result : Except Throwable (Publisher P.MessageLite)) :
    answered kind.operators (unaryCase method) result = RpcMetrics.returned kind.interaction method result := by
  cases result with
  | error thrown => rfl
  | ok publisher => cases kind <;> rfl

variable (implementation : ServiceDescriptor → Implementation N P.MessageLite)

theorem channel_handed (compiles : Compiles d) (member : method ∈ d.methods)
    (served : (clientMethod method).interaction = .requestChannel) (flux : Flux P.MessageLite)
    (called : ProteusMetadata.methodId N (request.payload.sliceMetadata N) = .ok (MethodId method))
    (typed : ∀ message ∈ flux.items, P.descriptor message = method.input_type)
    (wired : request.payloads.items.map Payload.data = flux.items.map P.wire)
    (failure : request.failure = flux.failure.map T.carried) :
    ∃ u, GeneratedServer.requestChannel P (PrintInterface d) (PrintServer d) (implementation d) request.payload
        request.payloads .entry = .ok (RpcMetrics.returned .requestChannel method (implementation d
          ⟨LowerMethodName method,across T.carried (.messages flux),request.payload.sliceMetadata N⟩).returned) u ∧
      u.invocations = [⟨LowerMethodName method,across T.carried (.messages flux),request.payload.sliceMetadata N⟩] := by
  have nonempty : (PrintServer d).request_channel.isEmpty = false := cases_nonempty member served
  have chosen : select (PrintInterface d) (PrintServer d).request_channel (MethodId method) = some (channelCase method) :=
    select_called compiles member served
  have parsed : deserialized P method.input_type request.payloads.failure request.payloads.items =
      ⟨flux.items,flux.failure.map T.carried⟩ :=
    (Dispatch.deserialized_exact P flux.items typed request.payloads.failure request.payloads.items wired).trans
      (congrArg (Flux.mk flux.items) failure)
  have body := channelBody_run P (implementation d) request.payloads (channelCase method) (request.payload.sliceMetadata N) .entry
  simp only [channelCase,parsed] at body
  have kept (invocation : Invocation N P.MessageLite) (n : Nat) :
    (Serving.entry.invoked invocation).reads n = Serving.entry.invoked invocation := reads_held _ Nat.one_ne_zero n
  refine ⟨Serving.entry.invoked _,?_,rfl⟩
  rw [GeneratedServer.requestChannel,nonempty]
  simp only [Bool.false_eq_true,↓reduceIte,across]
  rw [rescued_run,dispatch_run,read_held _ Nat.one_ne_zero]
  simp only [called,chosen,channelCase,body,kept]
  cases (implementation d ⟨LowerMethodName method,.messages ⟨flux.items,flux.failure.map T.carried⟩,
      request.payload.sliceMetadata N⟩).returned with
  | error thrown => rfl
  | ok publisher =>
    unfold RpcMetrics.returned
    rcases Bool.eq_false_or_eq_true method.server_streaming with streaming | streaming <;> simp [streaming]

theorem hand_called (compiles : Compiles d) (member : method ∈ d.methods) (accepts : Accepts P method argument)
    (sent : Sent P T d method argument metadata request) :
    ∃ u, (RequestHandlingRSocket.generated P implementation).hand request d .entry =
        .ok (RpcMetrics.returned (clientMethod method).interaction method (implementation d
          ⟨LowerMethodName method,across T.carried argument,request.payload.sliceMetadata N⟩).returned) u ∧
      u.invocations = [⟨LowerMethodName method,across T.carried argument,request.payload.sliceMetadata N⟩] := by
  have exact := sent_exact P T sent
  have framed := sent_header P T sent
  have called : ProteusMetadata.methodId N (request.payload.sliceMetadata N) = .ok (MethodId method) := by
    rw [Payload.sliceMetadata,Payload.getMetadata,framed]
    exact (header_decodes N compiles.fields member).called
  cases argument with
  | message message =>
    obtain ⟨plain,input⟩ := accepts
    obtain ⟨kind,served⟩ := Dispatch.single_streaming method plain
    have parsed := P.parsed message
    rw [input] at parsed
    have data : request.payload.data = P.wire message := by
      obtain ⟨first,_⟩ := List.cons.inj (congrArg Flux.items exact)
      rw [first]
      rfl
    rw [RequestHandlingRSocket.generated_hand P implementation d request kind (sent.interaction.trans served),
      single_called P (implementation d) compiles member kind served request.payload called (by rw [data]; exact parsed) .entry
        Nat.one_ne_zero,answered_returned,served]
    exact ⟨_,rfl,rfl⟩
  | messages flux =>
    obtain ⟨streaming,inputs⟩ := accepts
    have served := (Dispatch.channel_streaming method).mpr streaming
    have wired : request.payloads.items.map Payload.data = flux.items.map P.wire := by
      rw [exact,List.map_map]
      rfl
    have used : (RequestHandlingRSocket.generated P implementation).hand request d =
        GeneratedServer.requestChannel P (PrintInterface d) (PrintServer d) (implementation d) request.payload
          request.payloads := by
      simp only [RequestHandlingRSocket.ProteusService.hand,sent.interaction,served]
      rfl
    rw [used,served]
    exact channel_handed P T implementation compiles member served flux called inputs wired (congrArg Flux.failure exact)

end Requests

open RequestHandlingRSocket BiInt2ObjectMap in
-- In every run of the router, a call by the generated client of a registered
-- service is one call of its implementation, and the caller gets what that gave,
-- where no other service has the same two hashes.
theorem routed_call [DecidableEq Thread] (P : Protobuf N) (T : Transport) {switch : SwitchTransform N P.MessageLite}
    (implementation : ServiceDescriptor → Implementation N P.MessageLite) {services : List ServiceDescriptor}
    {m : BiInt2ObjectMap ServiceDescriptor} {trace : List (Label N P.MessageLite ServiceDescriptor Thread)}
    {r : Router ServiceDescriptor Thread} {t : Thread} {request : RequestHandlingRSocket.Request}
    {since seen : List ServiceDescriptor} {answer : Handling N P.MessageLite (Published P.MessageLite)} {d : ServiceDescriptor}
    {method : MethodDescriptor} {argument : Argument P.MessageLite} {metadata : N.ByteBuf}
    (constructed : Constructed (generated P implementation) services m)
    (path : Runs (Step (generated P implementation) switch) ⟨m,services,fun _ => .idle⟩ trace r)
    (listed : .answered t request since seen answer ∈ trace) (registered : d ∈ seen)
    (alone : ∀ e ∈ seen, pairOf e = pairOf d → e = d) (compiles : Compiles d) (member : method ∈ d.methods)
    (accepts : Accepts P method argument) (sent : Sent P T d method argument metadata request)
    (returns : ∀ invocation publisher, invocation.lower_method_name = LowerMethodName method →
      (implementation d invocation).returned = .ok publisher → Returns P method publisher) :
    ∃ invocation published u, invocation.lower_method_name = LowerMethodName method ∧
      invocation.argument = across T.carried argument ∧ answer .entry = .ok published u ∧ u.invocations = [invocation] ∧
      ∀ resources, Delivered P T method (given (implementation d invocation).returned) published resources := by
  obtain ⟨_,answered,_⟩ := run_answers constructed path
  obtain ⟨deserved,_⟩ := answered _ listed
  have framed := sent_header P T sent
  have bytes : request.payload.getMetadata.val = ProteusMetadata.frame (NamespaceId d) (ServiceId d) (MethodId method) [] := by
    rw [Payload.getMetadata,framed]
    exact header_frame compiles.fields member
  have long : 10 ≤ request.payload.getMetadata.val.length := by rw [bytes,ProteusMetadata.frame_length]; omega
  obtain ⟨spaced,served,_⟩ := ProteusMetadata.frame_fields [] (bytes.trans (List.append_nil _).symm)
  have current : latest (generated P implementation) seen (NamespaceId d,ServiceId d) = some d := by
    obtain ⟨server,found⟩ := latest_member P implementation seen registered
    obtain ⟨before,later,parts,paired,_⟩ := (latest_some P implementation).mp found
    rw [alone server (by rw [parts]; simp) paired] at found
    exact found
  rw [Deserved,if_pos long,spaced,served,current] at deserved
  obtain ⟨u,handed,invoked⟩ := hand_called P T implementation compiles member accepts sent
  have done := congrFun deserved .entry
  dsimp only at done
  rw [rescued_run,handed] at done
  refine ⟨_,_,u,rfl,rfl,done,invoked,?_⟩
  intro resources
  exact answer_delivered P T _ (fun publisher result => returns _ publisher rfl result) resources

section Greeting
open RequestHandlingRSocket BiInt2ObjectMap

def tagged : Protobuf Heap.netty where
  MessageLite := Descriptor × Bytes
  descriptor := Prod.fst
  wire := Prod.snd
  writeTo := fun message b =>
    if b.val.bytes.length = message.2.val.length then .ok (Heap.blank message.2) else .error (.foreign 1)
  parseFrom := fun output_type bytes => .ok (output_type,bytes)
  written := fun message _ _ size => ⟨Heap.blank message.2,if_pos size,rfl,rfl⟩
  parsed := fun _ => rfl

-- RSocket makes one kind of exception of every failure.
def tcp : Transport where
  carried := fun _ => .foreign 3
  noSuchElement := .foreign 4
  indexOutOfBounds := .foreign 5
  single := fun
    | ⟨[],none⟩ => ⟨[],some (.foreign 4)⟩
    | ⟨[item],none⟩ => ⟨[item],none⟩
    | ⟨_ :: _ :: _,_⟩ => ⟨[],some (.foreign 5)⟩
    | ⟨_,some thrown⟩ => ⟨[],some thrown⟩
  taken := List.take 2
  empty := fun _ => rfl
  alone := fun _ => rfl
  failed := fun items thrown few => by
    rcases items with _ | ⟨_,_ | ⟨_,_⟩⟩
    · rfl
    · rfl
    · simp at few
  several := fun _ _ _ _ => rfl
  cancelled := fun _ => rfl

def greeting : ServiceDescriptor → Implementation Heap.netty tagged.MessageLite :=
  fun _ _ => ⟨0,.ok ⟨[.read,.item (TestService.UnaryCall.output_type,hello)],none⟩⟩

def asked : Argument tagged.MessageLite := .message (TestService.UnaryCall.input_type,hello)

def greetingRequest : RequestHandlingRSocket.Request :=
  ⟨.requestResponse,GeneratedClient.sent tagged (PrintInterface TestService.descriptor) (PrintClient TestService.descriptor)
    (clientMethod TestService.UnaryCall) (TestService.UnaryCall.input_type,hello),[],none⟩

theorem greeting_sent : Sent tagged tcp TestService.descriptor TestService.UnaryCall asked emptyBuffer greetingRequest := by
  have exact := request_exact tagged TestService.descriptor TestService.UnaryCall ⟨emptyBuffer,0⟩ rfl asked
  refine ⟨rfl,?_,?_⟩
  · rw [exact]
    rfl
  · rw [exact]
    rfl

theorem greeting_returns (invocation : Invocation Heap.netty tagged.MessageLite) (publisher : Publisher tagged.MessageLite)
    (returned : (greeting TestService.descriptor invocation).returned = .ok publisher) :
    Returns tagged TestService.UnaryCall publisher := by
  cases returned
  refine ⟨?_,fun _ => ⟨Nat.le_refl 1,.inr rfl⟩⟩
  intro message member
  cases List.mem_singleton.mp member
  rfl

theorem routed_call_unary :
    ∃ (m : BiInt2ObjectMap ServiceDescriptor) (r : Router ServiceDescriptor Nat)
        (answer : Handling Heap.netty tagged.MessageLite (Published tagged.MessageLite)),
      Runs (RequestHandlingRSocket.Step (generated tagged greeting) (immediate Heap.netty tagged.MessageLite))
        ⟨m,[TestService.descriptor],fun _ => .idle⟩
        [.received 0 greetingRequest,.looked 0,
          .answered 0 greetingRequest [TestService.descriptor] [TestService.descriptor] answer] r ∧
      ∃ invocation published u, invocation.lower_method_name = LowerMethodName TestService.UnaryCall ∧
        invocation.argument = across tcp.carried asked ∧ answer .entry = .ok published u ∧ u.invocations = [invocation] ∧
        ∀ resources, Delivered tagged tcp TestService.UnaryCall
          (given (greeting TestService.descriptor invocation).returned) published resources := by
  obtain ⟨m,constructed,_⟩ := constructs (generated tagged greeting) [TestService.descriptor] (by decide)
  have long : 10 ≤ greetingRequest.payload.getMetadata.val.length := by
    change 10 ≤ (ProteusMetadata.frame _ _ _ []).length
    rw [ProteusMetadata.frame_length]
    decide
  obtain ⟨r,path⟩ := request_run (immediate Heap.netty tagged.MessageLite) constructed 0 greetingRequest long
  exact ⟨m,r,_,path,routed_call tagged tcp greeting constructed path (List.mem_of_getElem? (i := 2) rfl)
    (List.mem_singleton_self _) (fun e listed _ => List.mem_singleton.mp listed) TestService.compiles (by decide)
    (show Accepts tagged TestService.UnaryCall asked from ⟨rfl,rfl⟩) greeting_sent
    (fun invocation publisher _ => greeting_returns invocation publisher)⟩

end Greeting

-- What a client can make of a stream of responses: all the payloads it takes are
-- parsed, or those before the first that does not parse.
inductive Received (P : Protobuf N) (T : Transport) (output_type : Descriptor) (method : ClientMethod)
    (responses : Flux Payload) : Flux P.MessageLite × List Payload → Prop where
  | whole : (taken T method responses.items).map (fun payload => P.parseFrom output_type payload.data) = results.map .ok →
      Received P T output_type method responses
        (if method.single then T.single ⟨results,responses.failure⟩ else ⟨results,responses.failure⟩,taken T method responses.items)
  | broken : taken T method responses.items = front ++ last :: back →
      front.map (fun payload => P.parseFrom output_type payload.data) = results.map .ok →
      P.parseFrom output_type last.data = .error thrown →
      Received P T output_type method responses
        (⟨if method.single then [] else results,some (.runtime thrown)⟩,front ++ [last])

theorem receive_cases (P : Protobuf N) (T : Transport) (method : ClientMethod) (output_type : Descriptor)
    (reads : method.deserializer = some output_type) (responses : Flux Payload) :
    Received P T output_type method responses (receive P T method responses) := by
  have unfolded : receive P T method responses =
      (if method.single then T.single ⟨(mapping (deserializer P output_type) (taken T method responses.items) []).results,
          (mapping (deserializer P output_type) (taken T method responses.items) []).thrown <|> responses.failure⟩
        else ⟨(mapping (deserializer P output_type) (taken T method responses.items) []).results,
          (mapping (deserializer P output_type) (taken T method responses.items) []).thrown <|> responses.failure⟩,
        (mapping (deserializer P output_type) (taken T method responses.items) []).state) := by
    rw [receive,reads]
  have outcomes := mapping_cases (f := deserializer P output_type) (g := fun payload => P.parseFrom output_type payload.data)
    .runtime (fun released payload => released ++ [payload])
    (fun payload message released parsed => by rw [deserializer_run,parsed])
    (fun payload thrown released failed => by rw [deserializer_run,failed]) (taken T method responses.items) []
  rw [unfolded]
  rcases outcomes with ⟨results,parsed,ran⟩ | ⟨front,last,back,thrown,results,parts,parsed,failed,ran⟩
  · rw [ran,logged_all,List.nil_append]
    exact .whole parsed
  · rw [ran,logged_all,List.nil_append]
    -- Of two payloads only the first can come before one that does not parse.
    have few : method.single = true → results.length ≤ 1 := by
      intro alone
      have size := congrArg List.length parts
      have same := congrArg List.length parsed
      rw [taken,if_pos alone,T.cancelled,List.length_take,List.length_append,List.length_cons] at size
      rw [List.length_map,List.length_map] at same
      omega
    have stopped : (if method.single then T.single ⟨results,some (.runtime thrown)⟩ else ⟨results,some (.runtime thrown)⟩) =
        (⟨if method.single then [] else results,some (.runtime thrown)⟩ : Flux P.MessageLite) := by
      cases alone : method.single with
      | false => rfl
      | true => exact T.failed results _ (few alone)
    exact stopped ▸ .broken parts parsed failed

def Settled (flux : Flux Message) : Prop := (∃ message, flux = ⟨[message],none⟩) ∨ ∃ thrown, flux = ⟨[],some thrown⟩

theorem single_settled (T : Transport) (flux : Flux Message) : Settled (T.single flux) := by
  rcases flux with ⟨_ | ⟨item,_ | ⟨other,items⟩⟩,_ | thrown⟩
  · exact .inr ⟨_,T.empty Message⟩
  · exact .inr ⟨_,T.failed [] thrown (Nat.zero_le 1)⟩
  · exact .inl ⟨_,T.alone item⟩
  · exact .inr ⟨_,T.failed [item] thrown (Nat.le_refl 1)⟩
  · exact .inr ⟨_,T.several item other items none⟩
  · exact .inr ⟨_,T.several item other items (some thrown)⟩

theorem received_single {P : Protobuf N} {T : Transport} {method : ClientMethod} {responses : Flux Payload}
    {outcome : Flux P.MessageLite × List Payload} (received : Received P T output_type method responses outcome)
    (alone : method.single = true) : Settled outcome.1 ∧ outcome.2.length ≤ 2 := by
  have few : (taken T method responses.items).length ≤ 2 := by
    rw [taken,if_pos alone,T.cancelled,List.length_take]
    exact Nat.min_le_left ..
  cases received with
  | whole parsed =>
    rw [if_pos alone]
    exact ⟨single_settled T _,few⟩
  | broken parts parsed failed =>
    rw [parts,List.length_append,List.length_cons] at few
    rw [if_pos alone]
    refine ⟨.inr ⟨_,rfl⟩,?_⟩
    rw [List.length_append,List.length_singleton]
    omega

-- Whatever a server sends, each payload that a client takes is released once, in
-- order, the one that does not parse among them, and none is taken after it.
theorem responses_released (P : Protobuf N) (T : Transport) (method : ClientMethod) (output_type : Descriptor)
    (reads : method.deserializer = some output_type) (responses : Flux Payload) :
    Received P T output_type method responses (receive P T method responses) ∧
      (method.single = true →
        Settled (receive P T method responses).1 ∧ (receive P T method responses).2.length ≤ 2) := by
  have received := receive_cases P T method output_type reads responses
  exact ⟨received,received_single received⟩

theorem responses_released_stream : Received tagged tcp TestService.StreamingOutputCall.output_type
      (clientMethod TestService.StreamingOutputCall) ⟨[⟨hello,none⟩,⟨.empty,none⟩],some (.foreign 3)⟩
      (receive tagged tcp (clientMethod TestService.StreamingOutputCall) ⟨[⟨hello,none⟩,⟨.empty,none⟩],some (.foreign 3)⟩) ∧
    ((clientMethod TestService.StreamingOutputCall).single = true →
      Settled (receive tagged tcp (clientMethod TestService.StreamingOutputCall)
        ⟨[⟨hello,none⟩,⟨.empty,none⟩],some (.foreign 3)⟩).1 ∧
      (receive tagged tcp (clientMethod TestService.StreamingOutputCall)
        ⟨[⟨hello,none⟩,⟨.empty,none⟩],some (.foreign 3)⟩).2.length ≤ 2) :=
  responses_released tagged tcp (clientMethod TestService.StreamingOutputCall) _ rfl _

end Proteus.RemoteCalls
