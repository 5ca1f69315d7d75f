import Proteus.Runtime
import Proteus.Lib.Stateful

namespace Proteus.GeneratedServer
open JavaGenerator Stateful
variable {N : Netty} {Message : Type}

-- What a publisher does once it runs: it reads the metadata argument of the
-- method that returned it, or emits.
inductive Signal (Message : Type) where
  | read
  | item (message : Message)
  deriving DecidableEq

structure Publisher (Message : Type) where
  signals : List (Signal Message)
  failure : Option Throwable

structure Invocation (N : Netty) (Message : Type) where
  lower_method_name : CString
  argument : Argument Message
  metadata : N.ByteBuf

-- A service method: how often it reads its metadata argument while it is
-- invoked, and what it returns or throws.
structure Invoked (Message : Type) where
  reads : Nat
  returned : Except Throwable (Publisher Message)

abbrev Implementation (N : Netty) (Message : Type) := Invocation N Message → Invoked Message

-- The publisher a handler returns, with the operators applied to it.
inductive Published (Message : Type) where
  | error (thrown : Throwable)
  | service (publisher : Publisher Message)
  | serialized (source : Published Message)
  | transformed (field : CString) (source : Published Message)
  | flux (source : Published Message)

-- The reference count of the handled payload, how often release was called, how
-- often a slice was read at count 0, and the calls of service methods.
structure Serving (N : Netty) (Message : Type) where
  refCnt : Nat
  released : Nat
  faults : Nat
  invocations : List (Invocation N Message)

def Serving.entry : Serving N Message := ⟨1,0,0,[]⟩

def Serving.read (s : Serving N Message) : Serving N Message := if s.refCnt = 0 then {s with faults := s.faults + 1} else s

def Serving.release (s : Serving N Message) : Serving N Message := {s with refCnt := s.refCnt - 1,released := s.released + 1}

def Serving.invoked (s : Serving N Message) (invocation : Invocation N Message) : Serving N Message :=
  {s with invocations := s.invocations ++ [invocation]}

def Serving.reads (s : Serving N Message) : Nat → Serving N Message
  | 0 => s
  | n+1 => (s.read).reads n

-- The publisher runs after the handler has returned it.
def Published.run : Published Message → Serving N Message → Serving N Message
  | .error _,s => s
  | .service publisher,s => publisher.signals.foldl (fun s signal => if signal matches .read then s.read else s) s
  | .serialized source,s => source.run s
  | .transformed _ source,s => source.run s
  | .flux source,s => source.run s

abbrev Handling (N : Netty) (Message : Type) := EStateM Throwable (Serving N Message)

def invoke (service : Implementation N Message) (invocation : Invocation N Message) : Handling N Message (Publisher Message) := do
  let method := service invocation
  modify fun s => (s.invoked invocation).reads method.reads
  raise method.returned

-- The switch on the method id that every handler opens with.
def dispatch (i : Interface) (cases : List Case) (body : Case → N.ByteBuf → Handling N Message (Published Message))
    (payload : Payload) : Handling N Message (Published Message) := do
  let metadata := payload.sliceMetadata N
  modify Serving.read
  let id ← raise (ProteusMetadata.methodId N metadata)
  match select i cases id with
  | some c => body c metadata
  | none => return .error (.unsupportedOperation none)

-- One message is parsed out of the payload and passed on; `operators` is what
-- the handler applies to the result.
def unaryBody (P : Protobuf N) (service : Implementation N P.MessageLite)
    (operators : Case → Published P.MessageLite → Published P.MessageLite) (payload : Payload) (c : Case) (metadata : N.ByteBuf) :
    Handling N P.MessageLite (Published P.MessageLite) := do
  modify Serving.read
  let message ← raise (P.parseFrom c.input_type payload.data)
  let publisher ← invoke service ⟨c.lower_method_name,.message message,metadata⟩
  return operators c (.service publisher)

def unary (P : Protobuf N) (i : Interface) (cases : List Case) (service : Implementation N P.MessageLite) (absent : String)
    (operators : Case → Published P.MessageLite → Published P.MessageLite) (payload : Payload) :
    Handling N P.MessageLite (Published P.MessageLite) :=
  if cases.isEmpty then pure (.error (.unsupportedOperation (some absent)))
  else guarded (dispatch i cases (unaryBody P service operators payload) payload) .error Serving.release

section Handlers
variable (P : Protobuf N) (i : Interface) (server : Server) (service : Implementation N P.MessageLite)

def fireAndForget (payload : Payload) : Handling N P.MessageLite (Published P.MessageLite) :=
  unary P i server.fire_and_forget service "Fire and forget not implemented." (fun _ source => source) payload

def requestResponse (payload : Payload) : Handling N P.MessageLite (Published P.MessageLite) :=
  unary P i server.request_response service "Request-Response not implemented."
    (fun c source => .transformed c.lower_method_name (.serialized source)) payload

def requestStream (payload : Payload) : Handling N P.MessageLite (Published P.MessageLite) :=
  unary P i server.request_stream service "Request-Stream not implemented."
    (fun c source => .transformed c.lower_method_name (.serialized source)) payload

-- The deserializer wraps what the parser throws. It also releases the payload it
-- parsed; the count kept here is only that of a payload with one message.
def deserializer (input_type : Descriptor) (payload : Payload) : Except Throwable P.MessageLite :=
  match P.parseFrom input_type payload.data with
  | .ok message => .ok message
  | .error thrown => .error (.runtime thrown)

def deserialized (input_type : Descriptor) (failure : Option Throwable) : List Payload → Flux P.MessageLite
  | [] => ⟨[],failure⟩
  | payload :: payloads =>
    match deserializer P input_type payload with
    | .error thrown => ⟨[],some thrown⟩
    | .ok message =>
      let rest := deserialized input_type failure payloads
      ⟨message :: rest.items,rest.failure⟩

def channelBody (publisher : Flux Payload) (c : Case) (metadata : N.ByteBuf) :
    Handling N P.MessageLite (Published P.MessageLite) := do
  let messages := deserialized P c.input_type publisher.failure publisher.items
  let result ← invoke service ⟨c.lower_method_name,.messages messages,metadata⟩
  let transformed := .transformed c.lower_method_name (.serialized (.service result))
  return if c.flux then .flux transformed else transformed

-- requestChannel(payload, publisher): no finally here.
def requestChannel (payload : Payload) (publisher : Flux Payload) : Handling N P.MessageLite (Published P.MessageLite) :=
  if server.request_channel.isEmpty then
    pure (.error (.unsupportedOperation (some "Request-Channel not implemented.")))
  else rescued (dispatch i server.request_channel (channelBody P service publisher) payload) .error

end Handlers

-- What the code relies on of SwitchTransform: its function is called once, with
-- the first payload and the whole stream, and an exception becomes a signal.
structure SwitchTransform (N : Netty) (Message : Type) where
  transform : Flux Payload → (Payload → Flux Payload → Handling N Message (Published Message)) →
    Handling N Message (Published Message)
  switched : ∀ payload payloads failure f, transform ⟨payload :: payloads,failure⟩ f =
    rescued (f payload ⟨payload :: payloads,failure⟩) .error

-- A transform that applies its function to the first payload at once.
def immediate (N : Netty) (Message : Type) : SwitchTransform N Message where
  transform := fun payloads f =>
    match payloads.items with
    | [] => pure (.service ⟨[],payloads.failure⟩)
    | payload :: _ => rescued (f payload payloads) .error
  switched := fun _ _ _ _ => rfl

-- requestChannel(payloads)
def requestChannels (P : Protobuf N) (T : SwitchTransform N P.MessageLite) (i : Interface) (server : Server)
    (service : Implementation N P.MessageLite) (payloads : Flux Payload) : Handling N P.MessageLite (Published P.MessageLite) :=
  if server.request_channel.isEmpty then
    pure (.error (.unsupportedOperation (some "Request-Channel not implemented.")))
  else T.transform payloads fun payload publisher => requestChannel P i server service payload publisher

inductive Single where
  | fireAndForget
  | requestResponse
  | requestStream
  deriving DecidableEq

def Single.interaction : Single → Interaction
  | .fireAndForget => .fireAndForget
  | .requestResponse => .requestResponse
  | .requestStream => .requestStream

def single (P : Protobuf N) (i : Interface) (server : Server) (service : Implementation N P.MessageLite) :
    Single → Payload → Handling N P.MessageLite (Published P.MessageLite)
  | .fireAndForget => fireAndForget P i server service
  | .requestResponse => requestResponse P i server service
  | .requestStream => requestStream P i server service

theorem dispatch_run (i : Interface) (cases : List Case) (body : Case → N.ByteBuf → Handling N Message (Published Message))
    (payload : Payload) (s : Serving N Message) : dispatch i cases body payload s =
      match ProteusMetadata.methodId N (payload.sliceMetadata N) with
      | .error thrown => .error thrown s.read
      | .ok id =>
        match select i cases id with
        | some c => body c (payload.sliceMetadata N) s.read
        | none => .ok (.error (.unsupportedOperation none)) s.read := by
  have unfolded : dispatch i cases body payload s = (raise (ProteusMetadata.methodId N (payload.sliceMetadata N)) >>= fun id =>
      match select i cases id with
      | some c => body c (payload.sliceMetadata N)
      | none => pure (.error (.unsupportedOperation none))) s.read := rfl
  rw [unfolded]
  cases ProteusMetadata.methodId N (payload.sliceMetadata N) with
  | error thrown => rfl
  | ok id =>
    change (match select i cases id with
      | some c => body c (payload.sliceMetadata N)
      | none => pure (.error (.unsupportedOperation none))) s.read = match select i cases id with
      | some c => body c (payload.sliceMetadata N) s.read
      | none => .ok (.error (.unsupportedOperation none)) s.read
    cases select i cases id <;> rfl

theorem invoke_run (service : Implementation N Message) (invocation : Invocation N Message) (s : Serving N Message) :
    invoke service invocation s =
      match (service invocation).returned with
      | .ok publisher => .ok publisher ((s.invoked invocation).reads (service invocation).reads)
      | .error thrown => .error thrown ((s.invoked invocation).reads (service invocation).reads) := by
  have unfolded : invoke service invocation s =
    raise (service invocation).returned ((s.invoked invocation).reads (service invocation).reads) := rfl
  rw [unfolded]
  cases (service invocation).returned <;> rfl

section Bodies
variable (P : Protobuf N) (service : Implementation N P.MessageLite)

theorem unaryBody_run (operators : Case → Published P.MessageLite → Published P.MessageLite) (payload : Payload) (c : Case)
    (metadata : N.ByteBuf) (s : Serving N P.MessageLite) : unaryBody P service operators payload c metadata s =
      match P.parseFrom c.input_type payload.data with
      | .error thrown => .error thrown s.read
      | .ok message => (invoke service ⟨c.lower_method_name,.message message,metadata⟩ >>= fun publisher =>
          pure (operators c (.service publisher))) s.read := by
  have unfolded : unaryBody P service operators payload c metadata s = (raise (P.parseFrom c.input_type payload.data) >>=
      fun message => invoke service ⟨c.lower_method_name,.message message,metadata⟩ >>= fun publisher =>
        pure (operators c (.service publisher))) s.read := rfl
  rw [unfolded]
  cases P.parseFrom c.input_type payload.data <;> rfl

theorem channelBody_run (publisher : Flux Payload) (c : Case) (metadata : N.ByteBuf) (s : Serving N P.MessageLite) :
    channelBody P service publisher c metadata s =
      let invocation : Invocation N P.MessageLite :=
        ⟨c.lower_method_name,.messages (deserialized P c.input_type publisher.failure publisher.items),metadata⟩
      match (service invocation).returned with
      | .ok result => .ok
          (if c.flux then .flux (.transformed c.lower_method_name (.serialized (.service result)))
            else .transformed c.lower_method_name (.serialized (.service result)))
          ((s.invoked invocation).reads (service invocation).reads)
      | .error thrown => .error thrown ((s.invoked invocation).reads (service invocation).reads) := by
  dsimp only
  have ran := invoke_run service ⟨c.lower_method_name,.messages (deserialized P c.input_type publisher.failure publisher.items),
    metadata⟩ s
  cases returned : (service ⟨c.lower_method_name,.messages (deserialized P c.input_type publisher.failure publisher.items),
      metadata⟩).returned with
  | error thrown =>
    rw [returned] at ran
    exact bind_error ran
  | ok result =>
    rw [returned] at ran
    exact bind_ok ran

end Bodies

@[simp] theorem read_refCnt (s : Serving N Message) : s.read.refCnt = s.refCnt := by unfold Serving.read; split <;> rfl

theorem read_held (s : Serving N Message) (held : s.refCnt ≠ 0) : s.read = s := if_neg held

theorem read_freed (s : Serving N Message) (freed : s.refCnt = 0) : s.read.faults = s.faults + 1 := by
  rw [Serving.read,if_pos freed]

theorem reads_held (s : Serving N Message) (held : s.refCnt ≠ 0) (n : Nat) : s.reads n = s := by
  induction n with
  | zero => rfl
  | succ n ih => rw [Serving.reads,read_held s held,ih]

-- What the caller of a service method gets back.
def answered (operators : Case → Published Message → Published Message) (c : Case) :
    Except Throwable (Publisher Message) → Published Message
  | .ok publisher => operators c (.service publisher)
  | .error thrown => .error thrown

variable (P : Protobuf N) (service : Implementation N P.MessageLite)

-- Everything a handler of one message can do with a payload it holds.
theorem unary_run (i : Interface) (cases : List Case) (absent : String)
    (operators : Case → Published P.MessageLite → Published P.MessageLite) (payload : Payload)
    (s : Serving N P.MessageLite) (held : s.refCnt ≠ 0) : unary P i cases service absent operators payload s =
      if cases.isEmpty then .ok (.error (.unsupportedOperation (some absent))) s
      else match ProteusMetadata.methodId N (payload.sliceMetadata N) with
      | .error thrown => .ok (.error thrown) s.release
      | .ok id =>
        match select i cases id with
        | none => .ok (.error (.unsupportedOperation none)) s.release
        | some c =>
          match P.parseFrom c.input_type payload.data with
          | .error thrown => .ok (.error thrown) s.release
          | .ok message =>
            let invocation : Invocation N P.MessageLite := ⟨c.lower_method_name,.message message,payload.sliceMetadata N⟩
            .ok (answered operators c (service invocation).returned) (s.invoked invocation).release := by
  unfold unary
  split
  · rfl
  · rw [guarded_run,dispatch_run,read_held s held]
    cases ProteusMetadata.methodId N (payload.sliceMetadata N) with
    | error thrown => rfl
    | ok id =>
      dsimp only
      cases select i cases id with
      | none => rfl
      | some c =>
        dsimp only
        rw [unaryBody_run,read_held s held]
        cases P.parseFrom c.input_type payload.data with
        | error thrown => rfl
        | ok message =>
          dsimp only
          have kept := reads_held (s.invoked ⟨c.lower_method_name,.message message,payload.sliceMetadata N⟩) held
          have ran := invoke_run service ⟨c.lower_method_name,.message message,payload.sliceMetadata N⟩ s
          rw [kept] at ran
          cases returned : (service ⟨c.lower_method_name,.message message,payload.sliceMetadata N⟩).returned with
          | error thrown =>
            rw [returned] at ran
            rw [bind_error ran]
            rfl
          | ok publisher =>
            rw [returned] at ran
            rw [bind_ok ran]
            rfl

def Single.absent : Single → String
  | .fireAndForget => "Fire and forget not implemented."
  | .requestResponse => "Request-Response not implemented."
  | .requestStream => "Request-Stream not implemented."

def Single.operators : Single → Case → Published Message → Published Message
  | .fireAndForget,_,source => source
  | .requestResponse,c,source => .transformed c.lower_method_name (.serialized source)
  | .requestStream,c,source => .transformed c.lower_method_name (.serialized source)

theorem single_unary (i : Interface) (server : Server) (kind : Single) (payload : Payload) :
    single P i server service kind payload =
      unary P i (server.cases kind.interaction) service kind.absent kind.operators payload := by
  cases kind <;> rfl

-- The ways a handler of one message ends with a payload it was given.
inductive Handled (i : Interface) (cases : List Case) (operators : Case → Published P.MessageLite → Published P.MessageLite)
    (payload : Payload) : Published P.MessageLite → Serving N P.MessageLite → Prop where
  | absent : cases.isEmpty = true → Handled i cases operators payload (.error thrown) .entry
  | failed : cases.isEmpty = false → Handled i cases operators payload (.error thrown) (Serving.release .entry)
  | called {id : JInt} : ProteusMetadata.methodId N (payload.sliceMetadata N) = .ok id → select i cases id = some c →
      P.parseFrom c.input_type payload.data = .ok message →
      Handled i cases operators payload
        (answered operators c (service ⟨c.lower_method_name,.message message,payload.sliceMetadata N⟩).returned)
        (Serving.entry.invoked ⟨c.lower_method_name,.message message,payload.sliceMetadata N⟩).release

theorem single_handled (i : Interface) (server : Server) (kind : Single) (payload : Payload) :
    ∃ published t, single P i server service kind payload .entry = .ok published t ∧
      Handled P service i (server.cases kind.interaction) kind.operators payload published t := by
  rw [single_unary,unary_run P service _ _ _ _ _ .entry Nat.one_ne_zero]
  split
  · rename_i empty
    exact ⟨_,_,rfl,.absent empty⟩
  · rename_i nonempty
    have nonempty := Bool.eq_false_iff.mpr nonempty
    cases called : ProteusMetadata.methodId N (payload.sliceMetadata N) with
    | error thrown => exact ⟨_,_,rfl,.failed nonempty⟩
    | ok id =>
      dsimp only
      cases chosen : select i (server.cases kind.interaction) id with
      | none => exact ⟨_,_,rfl,.failed nonempty⟩
      | some c =>
        dsimp only
        cases parsed : P.parseFrom c.input_type payload.data with
        | error thrown => exact ⟨_,_,rfl,.failed nonempty⟩
        | ok message => exact ⟨_,_,rfl,.called called chosen parsed⟩

theorem caseOf_single (kind : Single) (method : MethodDescriptor) : caseOf kind.interaction method = unaryCase method := by
  cases kind <;> rfl

theorem cases_nonempty {descriptor : ServiceDescriptor} (member : method ∈ descriptor.methods)
    (served : (clientMethod method).interaction = interaction) :
    ((PrintServer descriptor).cases interaction).isEmpty = false := by
  rw [cases_exact,List.isEmpty_eq_false_iff]
  intro nothing
  have grouped : method ∈ descriptor.methods.filter fun method => (clientMethod method).interaction = interaction :=
    List.mem_filter.mpr ⟨member,decide_eq_true served⟩
  rw [List.map_eq_nil_iff.mp nothing] at grouped
  cases grouped

theorem single_called {descriptor : ServiceDescriptor} (compiles : Compiles descriptor) (member : method ∈ descriptor.methods)
    (kind : Single) (served : (clientMethod method).interaction = kind.interaction) (payload : Payload)
    (called : ProteusMetadata.methodId N (payload.sliceMetadata N) = .ok (MethodId method))
    (parsed : P.parseFrom method.input_type payload.data = .ok message) (s : Serving N P.MessageLite) (held : s.refCnt ≠ 0) :
    single P (PrintInterface descriptor) (PrintServer descriptor) service kind payload s =
      .ok (answered kind.operators (unaryCase method)
          (service ⟨LowerMethodName method,.message message,payload.sliceMetadata N⟩).returned)
        (s.invoked ⟨LowerMethodName method,.message message,payload.sliceMetadata N⟩).release := by
  have nonempty := cases_nonempty member served
  have chosen := select_called compiles member served
  rw [caseOf_single] at chosen
  have parsed : P.parseFrom (unaryCase method).input_type payload.data = .ok message := parsed
  rw [single_unary,unary_run P service _ _ _ _ _ s held,nonempty]
  simp only [called,chosen,parsed]
  rfl

theorem unary_missed {id : JInt} (i : Interface) (cases : List Case) (absent : String)
    (operators : Case → Published P.MessageLite → Published P.MessageLite) (payload : Payload)
    (called : ProteusMetadata.methodId N (payload.sliceMetadata N) = .ok id) (missed : select i cases id = none)
    (s : Serving N P.MessageLite) (held : s.refCnt ≠ 0) : ∃ text t, unary P i cases service absent operators payload s =
      .ok (.error (.unsupportedOperation text)) t ∧ t.invocations = s.invocations := by
  rw [unary_run P service _ _ _ _ _ s held]
  split
  · exact ⟨_,_,rfl,rfl⟩
  · simp only [called,missed]
    exact ⟨none,s.release,rfl,rfl⟩

end Proteus.GeneratedServer
