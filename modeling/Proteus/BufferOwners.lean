import Proteus.GeneratedClient

namespace Proteus.BufferOwners
open ByteBuffer JavaGenerator Stateful GeneratedClient
variable {N : Netty}

-- A message as generated code sees it: writing it may throw.
structure MessageLite (N : Netty) where
  getSerializedSize : Nat
  writeTo : N.ByteBuf → Except Throwable N.ByteBuf

-- The caller's metadata buffer, the attempts at an allocation so far, and the
-- buffers allocated and not released, by the attempt that allocated them.
structure Pool (N : Netty) where
  metadata : N.ByteBuf
  attempts : Nat
  outstanding : List Nat
  known : ∀ id ∈ outstanding, id < attempts
  distinct : outstanding.Nodup

namespace Pool

def attempted (s : Pool N) : Pool N :=
  ⟨s.metadata,s.attempts + 1,s.outstanding,fun id held => Nat.lt_succ_of_lt (s.known id held),s.distinct⟩

def allocated (s : Pool N) : Pool N :=
  ⟨s.metadata,s.attempts + 1,s.attempts :: s.outstanding,
    fun id held => by
      rcases List.mem_cons.mp held with rfl | earlier
      · exact Nat.lt_succ_self _
      · exact Nat.lt_succ_of_lt (s.known id earlier),
    List.nodup_cons.mpr ⟨fun held => Nat.lt_irrefl _ (s.known _ held),s.distinct⟩⟩

def freed (s : Pool N) (id : Nat) : Pool N :=
  ⟨s.metadata,s.attempts,s.outstanding.erase id,fun other held => s.known other (List.mem_of_mem_erase held),s.distinct.erase id⟩

def read (s : Pool N) (metadata : N.ByteBuf) : Pool N := {s with metadata := metadata}

end Pool

-- What the attempts at an allocation throw, where they do.
abbrev Memory := Nat → Option Throwable

structure Owned (N : Netty) where
  id : Nat
  byteBuf : N.ByteBuf

-- A payload releases the buffers it was created with.
structure OwningPayload (N : Netty) where
  data : Owned N
  metadata : Option (Owned N)

def OwningPayload.buffers (payload : OwningPayload N) : List Nat := payload.data.id :: payload.metadata.toList.map Owned.id

abbrev Allocating (N : Netty) := EStateM Throwable (Pool N)

variable (memory : Memory)

def directBuffer (length : Nat) : Allocating N (Owned N) := do
  let s ← get
  match memory s.attempts with
  | some thrown =>
    set s.attempted
    throw thrown
  | none =>
    set s.allocated
    return ⟨s.attempts,N.directBuffer length⟩

def release (buffer : Owned N) : Allocating N Unit := modify fun s => s.freed buffer.id

def serialize (message : MessageLite N) : Allocating N (Owned N) := do
  let byteBuf ← directBuffer memory message.getSerializedSize
  try
    let written ← raise (message.writeTo byteBuf.byteBuf)
    let written ← raise (N.writerIndex written (N.capacity written))
    pure ⟨byteBuf.id,written⟩
  catch t =>
    release byteBuf
    throw (.runtime t)

def encodeHeader (i : Interface) (client : Client) (method : ClientMethod) : Allocating N (Owned N) := do
  let length := ProteusMetadata.computeLength
  let metadataBuf ← directBuffer memory length.toNat
  let encoded ← raise (ProteusMetadata.encode N metadataBuf.byteBuf (i.value client.namespace_id_name)
    (i.value client.service_id_name) (i.value method.method_id_name) (← get).metadata)
  modify fun s => s.read encoded.metadata
  return ⟨metadataBuf.id,encoded.byteBuf⟩

-- The deferred Supplier of a method without client streaming.
def supply (i : Interface) (client : Client) (method : ClientMethod) (message : MessageLite N) :
    Allocating N (OwningPayload N) := do
  let metadataBuf ← encodeHeader memory i client method
  let data ← serialize memory message
  return ⟨data,some metadataBuf⟩

-- The Function a channel maps its messages with.
def apply (i : Interface) (client : Client) (method : ClientMethod) (once : Bool) (message : MessageLite N) :
    Allocating N (OwningPayload N) := do
  let data ← serialize memory message
  if !once then
    let metadataBuf ← encodeHeader memory i client method
    return ⟨data,some metadataBuf⟩
  else return ⟨data,none⟩

-- The request payload of a generated method.
def build (service : ServiceDescriptor) (method : MethodDescriptor) (once : Bool) (message : MessageLite N) :
    Allocating N (OwningPayload N) :=
  if (clientMethod method).signature.streamed then
    apply memory (PrintInterface service) (PrintClient service) (clientMethod method) once message
  else supply memory (PrintInterface service) (PrintClient service) (clientMethod method) message

theorem directBuffer_run (length : Nat) (s : Pool N) : directBuffer memory length s =
    match memory s.attempts with
    | some thrown => .error thrown s.attempted
    | none => .ok ⟨s.attempts,N.directBuffer length⟩ s.allocated := by
  have unfolded : directBuffer memory length s = (match memory s.attempts with
      | some thrown => (do
        set s.attempted
        throw thrown : Allocating N (Owned N))
      | none => do
        set s.allocated
        return ⟨s.attempts,N.directBuffer length⟩) s := rfl
  rw [unfolded]
  cases memory s.attempts <;> rfl

theorem freed_allocated (s : Pool N) : s.allocated.freed s.attempts = s.attempted := by
  simp [Pool.freed,Pool.allocated,Pool.attempted]

def written (message : MessageLite N) : Except Throwable N.ByteBuf :=
  message.writeTo (N.directBuffer message.getSerializedSize) >>= fun b => N.writerIndex b (N.capacity b)

def Writes (message : MessageLite N) : Prop := ∃ b, message.writeTo (N.directBuffer message.getSerializedSize) = .ok b

-- The writer index may always go to the end of a buffer.
theorem written_iff (message : MessageLite N) : (∃ b, written message = .ok b) ↔ Writes message := by
  unfold written Writes
  cases wrote : message.writeTo (N.directBuffer message.getSerializedSize) with
  | error thrown =>
    constructor
    · rintro ⟨b,equal⟩
      cases equal
    · rintro ⟨b,equal⟩
      cases equal
  | ok b =>
    have within := (N.contents b).within
    have ordered := (N.contents b).ordered
    obtain ⟨c,moved,_⟩ := Buffer.setWriter_moves (b := N.contents b) (Nat.le_trans ordered within) (Nat.le_refl _)
    obtain ⟨ready,done,_⟩ := succeeds ((N.writer_set b (N.capacity b)).trans moved)
    exact ⟨fun _ => ⟨b,rfl⟩,fun _ => ⟨ready,done⟩⟩

theorem serialize_run (message : MessageLite N) (s : Pool N) : serialize memory message s =
    match memory s.attempts with
    | some thrown => .error thrown s.attempted
    | none =>
      match written message with
      | .ok data => .ok ⟨s.attempts,data⟩ s.allocated
      | .error thrown => .error (.runtime thrown) s.attempted := by
  have taken := directBuffer_run memory message.getSerializedSize s
  have unfolded : serialize memory message = directBuffer memory message.getSerializedSize >>= fun byteBuf =>
      tryCatch (raise (message.writeTo byteBuf.byteBuf) >>= fun b => raise (N.writerIndex b (N.capacity b)) >>= fun b =>
        pure ⟨byteBuf.id,b⟩) fun t => release byteBuf >>= fun _ => throw (.runtime t) := rfl
  rw [unfolded]
  cases failed : memory s.attempts with
  | some thrown =>
    rw [failed] at taken
    exact bind_error taken
  | none =>
    rw [failed] at taken
    refine (bind_ok taken).trans ((caught_run _ _).trans ?_)
    have released (t : Throwable) : (release ⟨s.attempts,N.directBuffer message.getSerializedSize⟩ >>= fun _ =>
        throw (.runtime t) : Allocating N (Owned N)) s.allocated = .error (.runtime t) s.attempted :=
      congrArg (EStateM.Result.error (Throwable.runtime t)) (freed_allocated s)
    rw [raise_run]
    unfold written
    dsimp only
    cases message.writeTo (N.directBuffer message.getSerializedSize) >>= fun b => N.writerIndex b (N.capacity b) with
    | error thrown => exact released thrown
    | ok ready => rfl

theorem encodeHeader_run (i : Interface) (client : Client) (method : ClientMethod) (s : Pool N) :
    encodeHeader memory i client method s =
      match memory s.attempts with
      | some thrown => .error thrown s.attempted
      | none =>
        match ProteusMetadata.encode N (N.directBuffer 18) (i.value client.namespace_id_name)
          (i.value client.service_id_name) (i.value method.method_id_name) s.metadata with
        | .ok encoded => .ok ⟨s.attempts,encoded.byteBuf⟩ (s.allocated.read encoded.metadata)
        | .error thrown => .error thrown s.allocated := by
  have taken := directBuffer_run memory 18 s
  have unfolded : encodeHeader memory i client method = directBuffer memory 18 >>= fun metadataBuf => get >>= fun (s : Pool N) =>
      raise (ProteusMetadata.encode N metadataBuf.byteBuf (i.value client.namespace_id_name) (i.value client.service_id_name)
        (i.value method.method_id_name) s.metadata) >>= fun encoded => do
          modify fun s => s.read encoded.metadata
          return ⟨metadataBuf.id,encoded.byteBuf⟩ := rfl
  rw [unfolded]
  cases failed : memory s.attempts with
  | some thrown =>
    rw [failed] at taken
    exact bind_error taken
  | none =>
    rw [failed] at taken
    refine (bind_ok taken).trans ?_
    change (raise (ProteusMetadata.encode N (N.directBuffer 18) (i.value client.namespace_id_name)
      (i.value client.service_id_name) (i.value method.method_id_name) s.metadata) >>= fun encoded => do
        modify fun s => s.read encoded.metadata
        return ⟨s.attempts,encoded.byteBuf⟩ : Allocating N (Owned N)) s.allocated = _
    dsimp only
    cases ProteusMetadata.encode N (N.directBuffer 18) (i.value client.namespace_id_name) (i.value client.service_id_name)
      (i.value method.method_id_name) s.metadata with
    | error thrown => rfl
    | ok encoded => rfl

theorem encodes_iff (a b c : JInt) (metadata : N.ByteBuf) :
    (∃ encoded, ProteusMetadata.encode N (N.directBuffer 18) a b c metadata = .ok encoded) ↔ N.readable metadata = [] := by
  obtain ⟨capacity,reader,_⟩ := fresh_buffer N (show 18 < 2 ^ 31 by decide)
  constructor
  · rintro ⟨encoded,done⟩
    by_contra something
    have some_ := List.length_pos_iff.mpr something
    obtain ⟨thrown,failed⟩ := ProteusMetadata.encode_overflows (N.directBuffer 18) metadata a b c (by omega) (by omega)
    rw [failed] at done
    cases done
  · intro nothing
    obtain ⟨encoded,done,_⟩ := ProteusMetadata.encode_writes (N.directBuffer 18) metadata a b c
      (by rw [nothing,capacity]; decide) (by rw [reader]; exact Nat.zero_le _)
    exact ⟨encoded,done⟩

-- How serialize ends: it never keeps a buffer that it does not return.
inductive Serialized (message : MessageLite N) (s : Pool N) : EStateM.Result Throwable (Pool N) (Owned N) → Prop where
  | exhausted : memory s.attempts ≠ none → Serialized message s (.error thrown s.attempted)
  | failed : memory s.attempts = none → ¬ Writes message → Serialized message s (.error thrown s.attempted)
  | done : memory s.attempts = none → Writes message → Serialized message s (.ok ⟨s.attempts,data⟩ s.allocated)

theorem serialize_cases (message : MessageLite N) (s : Pool N) : Serialized memory message s (serialize memory message s) := by
  have writes := written_iff message
  rw [serialize_run]
  cases failed : memory s.attempts with
  | some thrown => exact .exhausted (by rw [failed]; exact Option.some_ne_none thrown)
  | none =>
    cases wrote : written message with
    | error thrown =>
      refine .failed failed (fun fine => ?_)
      obtain ⟨b,done⟩ := writes.mpr fine
      rw [wrote] at done
      cases done
    | ok data => exact .done failed (writes.mp ⟨data,wrote⟩)

-- How the header lines end; where encode throws, its buffer is left.
inductive Headed (s : Pool N) : EStateM.Result Throwable (Pool N) (Owned N) → Prop where
  | exhausted : memory s.attempts ≠ none → Headed s (.error thrown s.attempted)
  | overflowed : memory s.attempts = none → N.readable s.metadata ≠ [] → Headed s (.error thrown s.allocated)
  | done : memory s.attempts = none → N.readable s.metadata = [] → Headed s (.ok ⟨s.attempts,byteBuf⟩ (s.allocated.read drained))

theorem encodeHeader_cases (i : Interface) (client : Client) (method : ClientMethod) (s : Pool N) :
    Headed memory s (encodeHeader memory i client method s) := by
  have encodes := encodes_iff (i.value client.namespace_id_name) (i.value client.service_id_name)
    (i.value method.method_id_name) s.metadata
  rw [encodeHeader_run]
  cases failed : memory s.attempts with
  | some thrown => exact .exhausted (by rw [failed]; exact Option.some_ne_none thrown)
  | none =>
    cases encoded : ProteusMetadata.encode N (N.directBuffer 18) (i.value client.namespace_id_name)
      (i.value client.service_id_name) (i.value method.method_id_name) s.metadata with
    | error thrown =>
      refine .overflowed failed (fun nothing => ?_)
      obtain ⟨result,done⟩ := encodes.mpr nothing
      rw [encoded] at done
      cases done
    | ok result => exact .done failed (encodes.mp ⟨result,encoded⟩)

-- No buffer is lost: after an exception as many are outstanding as before the
-- payload was started, and otherwise the payload's own on top of those.
def Accounted (before : Pool N) : EStateM.Result Throwable (Pool N) (OwningPayload N) → Prop
  | .error _ after => after.outstanding.length = before.outstanding.length
  | .ok payload after => after.outstanding.Perm (payload.buffers ++ before.outstanding)

-- Nothing fails once a buffer is allocated, but for what serialize cleans up.
def Safe (streamed once : Bool) (message : MessageLite N) (s : Pool N) : Prop :=
  memory s.attempts ≠ none ∨
    if streamed then
      once = true ∨ ¬ Writes message ∨ memory (s.attempts + 1) = none ∧ N.readable s.metadata = []
    else N.readable s.metadata = [] ∧ memory (s.attempts + 1) = none ∧ Writes message

theorem leaked {before after : Pool N} (more : before.outstanding.length < after.outstanding.length) (thrown : Throwable) :
    ¬ Accounted before (.error thrown after) := fun same => Nat.ne_of_gt more same

theorem supply_accounted (i : Interface) (client : Client) (method : ClientMethod) (once : Bool) (message : MessageLite N)
    (s : Pool N) : Accounted s (supply memory i client method message s) ↔ Safe memory false once message s := by
  have unfolded : supply memory i client method message = encodeHeader memory i client method >>= fun metadataBuf =>
      serialize memory message >>= fun data => pure ⟨data,some metadataBuf⟩ := rfl
  have headed := encodeHeader_cases memory i client method s
  rw [unfolded]
  unfold Safe
  rw [if_neg Bool.false_ne_true]
  cases result : encodeHeader memory i client method s with
  | error thrown after =>
    rw [result] at headed
    rw [bind_error result]
    cases headed with
    | exhausted full => exact ⟨fun _ => .inl full,fun _ => rfl⟩
    | overflowed free something =>
      exact ⟨fun kept => absurd kept (leaked (Nat.lt_succ_self _) thrown),
        fun safe => absurd (safe.resolve_left (not_not_intro free)).1 something⟩
  | ok metadataBuf after =>
    rw [result] at headed
    rw [bind_ok result]
    cases headed with
    | @done byteBuf drained free nothing =>
      have serialized := serialize_cases memory message (s.allocated.read drained)
      cases data : serialize memory message (s.allocated.read drained) with
      | error thrown after =>
        rw [data] at serialized
        rw [bind_error data]
        have stuck : after.outstanding = s.allocated.outstanding ∧
            ¬ (memory (s.attempts + 1) = none ∧ Writes message) := by
          cases serialized with
          | exhausted full => exact ⟨rfl,fun fine => full fine.1⟩
          | failed _ unwritable => exact ⟨rfl,fun fine => unwritable fine.2⟩
        refine ⟨fun kept => absurd kept (leaked ?_ thrown),fun safe => absurd (safe.resolve_left (not_not_intro free)).2 stuck.2⟩
        rw [stuck.1]
        exact Nat.lt_succ_self _
      | ok owned after =>
        rw [data] at serialized
        rw [bind_ok data]
        cases serialized with
        | done room writes => exact ⟨fun _ => .inr ⟨nothing,room,writes⟩,fun _ => List.Perm.refl _⟩

theorem apply_accounted (i : Interface) (client : Client) (method : ClientMethod) (once : Bool) (message : MessageLite N)
    (s : Pool N) : Accounted s (apply memory i client method once message s) ↔ Safe memory true once message s := by
  have unfolded : apply memory i client method once message = serialize memory message >>= fun data =>
      if !once then encodeHeader memory i client method >>= fun metadataBuf => pure ⟨data,some metadataBuf⟩
      else pure ⟨data,none⟩ := rfl
  have serialized := serialize_cases memory message s
  rw [unfolded]
  unfold Safe
  rw [if_pos rfl]
  cases data : serialize memory message s with
  | error thrown after =>
    rw [data] at serialized
    rw [bind_error data]
    -- serialize has released what it allocated.
    cases serialized with
    | exhausted full => exact ⟨fun _ => .inl full,fun _ => rfl⟩
    | failed free unwritable => exact ⟨fun _ => .inr (.inr (.inl unwritable)),fun _ => rfl⟩
  | ok owned after =>
    rw [data] at serialized
    rw [bind_ok data]
    cases serialized with
    | @done buffer free writes =>
      cases once with
      | true => exact ⟨fun _ => .inr (.inl rfl),fun _ => List.Perm.refl _⟩
      | false =>
        have headed := encodeHeader_cases memory i client method s.allocated
        change Accounted s ((encodeHeader memory i client method >>= fun metadataBuf => pure ⟨⟨s.attempts,buffer⟩,some metadataBuf⟩)
          s.allocated) ↔ _
        cases header : encodeHeader memory i client method s.allocated with
        | error thrown after =>
          rw [header] at headed
          rw [bind_error header]
          have stuck : s.outstanding.length < after.outstanding.length ∧
              ¬ (memory (s.attempts + 1) = none ∧ N.readable s.metadata = []) := by
            cases headed with
            | exhausted full => exact ⟨Nat.lt_succ_self _,fun fine => full fine.1⟩
            | overflowed _ something => exact ⟨Nat.lt_succ_of_lt (Nat.lt_succ_self _),fun fine => something fine.2⟩
          refine ⟨fun kept => absurd kept (leaked stuck.1 thrown),fun safe => ?_⟩
          rcases safe.resolve_left (not_not_intro free) with set | unwritable | fine
          · exact absurd set Bool.false_ne_true
          · exact absurd writes unwritable
          · exact absurd fine stuck.2
        | ok metadataBuf after =>
          rw [header] at headed
          rw [bind_ok header]
          cases headed with
          | done room nothing => exact ⟨fun _ => .inr (.inr (.inr ⟨room,nothing⟩)),fun _ => List.Perm.swap _ _ _⟩

theorem streamed_exact (method : MethodDescriptor) : (clientMethod method).signature.streamed = method.client_streaming := by
  unfold clientMethod
  repeat' split
  all_goals rfl

-- Only serialize gives back what it allocated, so a payload that fails after its
-- first buffer leaks it.
theorem accounted_iff (memory : Memory) (service : ServiceDescriptor) (method : MethodDescriptor) (once : Bool)
    (message : MessageLite N) (s : Pool N) :
    Accounted s (build memory service method once message s) ↔ Safe memory method.client_streaming once message s := by
  unfold build
  rw [streamed_exact]
  cases method.client_streaming with
  | true => exact apply_accounted memory _ _ _ once message s
  | false => exact supply_accounted memory _ _ _ once message s

def okay : MessageLite Heap.netty where
  getSerializedSize := 2
  writeTo := fun b => if b.val.bytes.length = 2 then .ok (Heap.blank ⟨[79,75],by decide⟩) else .error (.foreign 1)

def oneByte : Pool Heap.netty := ⟨⟨.full [7],by decide⟩,0,[],by simp,List.nodup_nil⟩

theorem one_byte_leaks : ¬ Accounted oneByte
    (build (fun _ => none) TestService.descriptor TestService.UnaryCall false okay oneByte) := by
  intro kept
  have safe := (supply_accounted (fun _ => none) _ _ _ false okay oneByte).mp kept
  rcases safe with full | ⟨nothing,_⟩
  · exact full rfl
  · exact absurd nothing (by decide)

-- The request that GeneratedClient builds is this one, read without its owners.
section Refinement
variable (P : Protobuf N)

def lite (message : P.MessageLite) : MessageLite N := ⟨P.getSerializedSize message,P.writeTo message⟩

def counted (s : Pool N) : Resources N := ⟨s.metadata,s.outstanding.length⟩

def OwningPayload.bytes (payload : OwningPayload N) : Payload :=
  match payload.metadata with
  | some metadata => ByteBufPayload.create N payload.data.byteBuf metadata.byteBuf
  | none => ByteBufPayload.createData N payload.data.byteBuf

theorem serialize_simulates (message : P.MessageLite) : Simulates counted Owned.byteBuf
    (serialize (fun _ => none) (lite P message)) (GeneratedClient.serialize P message) := by
  intro s
  rw [GeneratedClient.serialize_run,serialize_run]
  have same : written (lite P message) =
    P.writeTo message (N.directBuffer (P.getSerializedSize message)) >>= fun b => N.writerIndex b (N.capacity b) := rfl
  rw [← same]
  cases written (lite P message) <;> rfl

theorem encodeHeader_simulates (i : Interface) (client : Client) (method : ClientMethod) : Simulates counted Owned.byteBuf
    (encodeHeader (fun _ => none) i client method) (GeneratedClient.encodeHeader (N := N) i client method) := by
  intro s
  rw [GeneratedClient.encodeHeader_run,encodeHeader_run]
  dsimp only [counted]
  cases ProteusMetadata.encode N (N.directBuffer 18) (i.value client.namespace_id_name) (i.value client.service_id_name)
    (i.value method.method_id_name) s.metadata <;> rfl

theorem supply_simulates (i : Interface) (client : Client) (method : ClientMethod) (message : P.MessageLite) :
    Simulates counted OwningPayload.bytes (supply (fun _ => none) i client method (lite P message))
      (GeneratedClient.supply P i client method message) :=
  (encodeHeader_simulates i client method).bind fun metadataBuf =>
    (serialize_simulates P message).bind fun data => Simulates.pure counted OwningPayload.bytes ⟨data,some metadataBuf⟩

theorem apply_simulates (i : Interface) (client : Client) (method : ClientMethod) (once : Bool) (message : P.MessageLite) :
    Simulates counted (fun payload : OwningPayload N => (payload.bytes,once)) (apply (fun _ => none) i client method once (lite P message))
      (GeneratedClient.apply P i client method once message) := by
  refine (serialize_simulates P message).bind fun data => ?_
  cases once with
  | true => exact Simulates.pure counted (fun payload : OwningPayload N => (payload.bytes,true)) ⟨data,none⟩
  | false =>
    exact (encodeHeader_simulates i client method).bind fun metadataBuf =>
      Simulates.pure counted (fun payload : OwningPayload N => (payload.bytes,false)) ⟨data,some metadataBuf⟩

end Refinement
end Proteus.BufferOwners
