import Proteus.Runtime
import Proteus.Lib.Stateful

namespace Proteus.GeneratedClient
open ByteBuffer JavaGenerator Stateful

-- What building a request changes: the caller's metadata buffer, and the number
-- of buffers allocated and not yet released.
structure Resources (N : Netty) where
  metadata : N.ByteBuf
  outstanding : Nat

abbrev Building (N : Netty) := EStateM Throwable (Resources N)

variable {N : Netty}

def directBuffer (length : Nat) : Building N N.ByteBuf := do
  modify fun r => {r with outstanding := r.outstanding + 1}
  return N.directBuffer length

def release (_ : N.ByteBuf) : Building N Unit := modify fun r => {r with outstanding := r.outstanding - 1}

def serialize (P : Protobuf N) (message : P.MessageLite) : Building N N.ByteBuf := do
  let byteBuf ← directBuffer (P.getSerializedSize message)
  try
    let byteBuf ← raise (P.writeTo message byteBuf)
    raise (N.writerIndex byteBuf (N.capacity byteBuf))
  catch t =>
    release byteBuf
    throw (.runtime t)

-- The header lines, the same in all four kinds of method.
def encodeHeader (i : Interface) (client : Client) (method : ClientMethod) : Building N N.ByteBuf := do
  let length := ProteusMetadata.computeLength
  let metadataBuf ← directBuffer length.toNat
  let encoded ← raise (ProteusMetadata.encode N metadataBuf (i.value client.namespace_id_name)
    (i.value client.service_id_name) (i.value method.method_id_name) (← get).metadata)
  modify fun r => {r with metadata := encoded.metadata}
  return encoded.byteBuf

-- The deferred Supplier of a method without client streaming.
def supply (P : Protobuf N) (i : Interface) (client : Client) (method : ClientMethod) (message : P.MessageLite) :
    Building N Payload := do
  let metadataBuf ← encodeHeader i client method
  let data ← serialize P message
  return ByteBufPayload.create N data metadataBuf

-- The Function a channel maps its messages with; the result comes with its
-- field `once` as the call leaves it.
def apply (P : Protobuf N) (i : Interface) (client : Client) (method : ClientMethod) (once : Bool) (message : P.MessageLite) :
    Building N (Payload × Bool) := do
  let data ← serialize P message
  if !once then
    let metadataBuf ← encodeHeader i client method
    return (ByteBufPayload.create N data metadataBuf,once)
  else return (ByteBufPayload.createData N data,once)

-- Flux.map: what was emitted before an exception stays emitted.
def mapped (f : Bool → Message → Building N (Payload × Bool)) (failure : Option Throwable) (once : Bool) (r : Resources N) :
    List Message → Flux Payload × Resources N
  | [] => (⟨[],failure⟩,r)
  | message :: messages =>
    match f once message r with
    | .error thrown r => (⟨[],some thrown⟩,r)
    | .ok (payload,once) r =>
      let (rest,r) := mapped f failure once r messages
      (⟨payload :: rest.items,rest.failure⟩,r)

-- The payloads a call hands to its RSocket interaction once it is subscribed to.
def call (P : Protobuf N) (i : Interface) (client : Client) (method : ClientMethod) (r : Resources N) :
    Argument P.MessageLite → Flux Payload × Resources N
  | .message message =>
    match supply P i client method message r with
    | .ok payload r => (⟨[payload],none⟩,r)
    | .error thrown r => (⟨[],some thrown⟩,r)
  | .messages messages => mapped (apply P i client method) messages.failure false r messages.items

theorem fresh_buffer (N : Netty) (small : k < 2 ^ 31) : N.capacity (N.directBuffer k) = k ∧
    (N.contents (N.directBuffer k)).readerIndex = 0 ∧ (N.contents (N.directBuffer k)).writerIndex = 0 := by
  obtain ⟨bytes,length,contents⟩ := N.direct k small
  rw [Netty.capacity,contents]
  exact ⟨length,rfl,rfl⟩

theorem readable_whole {b : N.ByteBuf} (reader : (N.contents b).readerIndex = 0)
    (writer : (N.contents b).writerIndex = (N.contents b).bytes.length) : N.readable b = (N.contents b).bytes := by
  rw [Netty.readable,Buffer.readable,reader,writer,List.drop_zero,Nat.sub_zero,List.take_length]

-- serialize releases its buffer on every failure.
theorem serialize_run (P : Protobuf N) (message : P.MessageLite) (r : Resources N) : serialize P message r =
    match P.writeTo message (N.directBuffer (P.getSerializedSize message)) >>= fun b => N.writerIndex b (N.capacity b) with
    | .ok data => .ok data {r with outstanding := r.outstanding + 1}
    | .error thrown => .error (.runtime thrown) r := by
  have unfolded : serialize P message r = tryCatch (raise (P.writeTo message (N.directBuffer (P.getSerializedSize message)) >>=
      fun b => N.writerIndex b (N.capacity b)))
        (fun t => release (N.directBuffer (P.getSerializedSize message)) >>= fun _ => throw (.runtime t))
          {r with outstanding := r.outstanding + 1} := by
    rw [← raise_bind]
    rfl
  rw [unfolded]
  cases P.writeTo message (N.directBuffer (P.getSerializedSize message)) >>= fun b => N.writerIndex b (N.capacity b) with
  | error thrown => rfl
  | ok data => rfl

theorem serialize_exact (P : Protobuf N) (message : P.MessageLite) (r : Resources N) :
    ∃ data, serialize P message r = .ok data {r with outstanding := r.outstanding + 1} ∧
      N.readable data = (P.wire message).val := by
  obtain ⟨capacity,_,writer⟩ := fresh_buffer N (P.wire message).property
  obtain ⟨filled,wrote,bytes,reader⟩ := P.written message _ writer capacity
  have start : N.Written filled (N.contents filled).bytes 0 (N.capacity filled) :=
    ⟨[],by simp,by simp [Netty.capacity],reader⟩
  obtain ⟨last,moved,⟨rest,whole,size,kept⟩,after⟩ := start.writerIndex (Nat.zero_le _)
  have nothing : rest = [] := by
    rw [Netty.capacity] at size
    exact List.length_eq_zero_iff.mp (by omega)
  rw [nothing,List.append_nil] at whole
  have moved : N.writerIndex filled (N.capacity filled) = .ok last := moved
  refine ⟨last,?_,?_⟩
  · rw [serialize_run,Protobuf.getSerializedSize,wrote,ok_bind,moved]
  · rw [readable_whole kept (by rw [after,whole]),whole,bytes]

theorem encodeHeader_run (i : Interface) (client : Client) (method : ClientMethod) (r : Resources N) :
    encodeHeader i client method r =
      match ProteusMetadata.encode N (N.directBuffer 18) (i.value client.namespace_id_name) (i.value client.service_id_name)
        (i.value method.method_id_name) r.metadata with
      | .ok encoded => .ok encoded.byteBuf ⟨encoded.metadata,r.outstanding + 1⟩
      | .error thrown => .error thrown {r with outstanding := r.outstanding + 1} := by
  have unfolded : encodeHeader i client method r = (raise (ProteusMetadata.encode N (N.directBuffer 18)
      (i.value client.namespace_id_name) (i.value client.service_id_name) (i.value method.method_id_name) r.metadata) >>=
        fun encoded => do
          modify fun r => {r with metadata := encoded.metadata}
          return encoded.byteBuf) {r with outstanding := r.outstanding + 1} := rfl
  rw [unfolded]
  cases ProteusMetadata.encode N (N.directBuffer 18) (i.value client.namespace_id_name) (i.value client.service_id_name)
    (i.value method.method_id_name) r.metadata with
  | error thrown => rfl
  | ok encoded => rfl

-- The header has room for a frame without metadata, and for no other.
theorem encodeHeader_exact (i : Interface) (client : Client) (method : ClientMethod) (r : Resources N)
    (nothing : N.readable r.metadata = []) : ∃ header drained,
      encodeHeader i client method r = .ok header ⟨drained,r.outstanding + 1⟩ ∧ N.readable drained = [] ∧
      N.readable header = ProteusMetadata.frame (i.value client.namespace_id_name) (i.value client.service_id_name)
        (i.value method.method_id_name) [] := by
  obtain ⟨capacity,reader,_⟩ := fresh_buffer N (show 18 < 2 ^ 31 by decide)
  obtain ⟨encoded,done,offset,⟨rest,bytes,size,kept⟩,writer,emptied⟩ := ProteusMetadata.encode_writes
    (N.directBuffer 18) r.metadata (i.value client.namespace_id_name) (i.value client.service_id_name)
    (i.value method.method_id_name) (by rw [nothing,capacity]; decide) (by rw [reader]; exact Nat.zero_le _)
  rw [nothing] at bytes size offset
  rw [ProteusMetadata.frame_length,capacity,List.length_nil] at size
  have last : rest = [] := List.length_eq_zero_iff.mp (by omega)
  rw [last,List.append_nil] at bytes
  rw [reader] at kept
  refine ⟨encoded.byteBuf,encoded.metadata,?_,?_,?_⟩
  · rw [encodeHeader_run,done]
  · rw [Netty.readable,emptied,Buffer.readable,Buffer.consumed]
    simp
  · have end_ : (N.contents encoded.byteBuf).writerIndex = (N.contents encoded.byteBuf).bytes.length := by
      rw [bytes,ProteusMetadata.frame_length,List.length_nil]
      rw [offset,List.length_nil] at writer
      omega
    rw [readable_whole kept end_,bytes]

theorem encodeHeader_throws (i : Interface) (client : Client) (method : ClientMethod) (r : Resources N)
    (something : (N.readable r.metadata).length ≠ 0) : ∃ thrown,
      encodeHeader i client method r = .error thrown {r with outstanding := r.outstanding + 1} := by
  obtain ⟨capacity,_,_⟩ := fresh_buffer N (show 18 < 2 ^ 31 by decide)
  obtain ⟨thrown,failed⟩ := ProteusMetadata.encode_overflows (N.directBuffer 18) r.metadata (i.value client.namespace_id_name)
    (i.value client.service_id_name) (i.value method.method_id_name) (by omega) (by omega)
  exact ⟨thrown,by rw [encodeHeader_run,failed]⟩

def header (i : Interface) (client : Client) (method : ClientMethod) : Bytes :=
  ⟨ProteusMetadata.frame (i.value client.namespace_id_name) (i.value client.service_id_name) (i.value method.method_id_name) [],
    by rw [ProteusMetadata.frame_length]; decide⟩

def sent (P : Protobuf N) (i : Interface) (client : Client) (method : ClientMethod) (message : P.MessageLite) : Payload :=
  ⟨P.wire message,some (header i client method)⟩

theorem create_exact (data metadata : N.ByteBuf) (wire frame : Bytes) (first : N.readable data = wire.val)
    (second : N.readable metadata = frame.val) : ByteBufPayload.create N data metadata = ⟨wire,some frame⟩ := by
  have left : (⟨N.readable data,N.readable_small data⟩ : Bytes) = wire := Subtype.ext first
  have right : (⟨N.readable metadata,N.readable_small metadata⟩ : Bytes) = frame := Subtype.ext second
  rw [ByteBufPayload.create,left,right]

section Calls
variable (P : Protobuf N) (i : Interface) (client : Client) (method : ClientMethod)

theorem supply_exact (message : P.MessageLite) (r : Resources N) (nothing : N.readable r.metadata = []) :
    ∃ drained, supply P i client method message r = .ok (sent P i client method message) ⟨drained,r.outstanding + 2⟩ ∧
      N.readable drained = [] := by
  obtain ⟨metadataBuf,drained,encoded,empty,frame⟩ := encodeHeader_exact i client method r nothing
  obtain ⟨data,serialized,wire⟩ := serialize_exact P message ⟨drained,r.outstanding + 1⟩
  refine ⟨drained,?_,empty⟩
  have unfolded : supply P i client method message r = (encodeHeader i client method >>= fun metadataBuf =>
      serialize P message >>= fun data => pure (ByteBufPayload.create N data metadataBuf)) r := rfl
  rw [unfolded,bind_ok encoded,bind_ok serialized,create_exact data metadataBuf _ (header i client method) wire frame]
  rfl

theorem supply_throws (message : P.MessageLite) (r : Resources N) (something : (N.readable r.metadata).length ≠ 0) :
    ∃ thrown, supply P i client method message r = .error thrown {r with outstanding := r.outstanding + 1} := by
  obtain ⟨thrown,failed⟩ := encodeHeader_throws i client method r something
  refine ⟨thrown,?_⟩
  have unfolded : supply P i client method message r = (encodeHeader i client method >>= fun metadataBuf =>
      serialize P message >>= fun data => pure (ByteBufPayload.create N data metadataBuf)) r := rfl
  rw [unfolded,bind_error failed]

-- The field `once` is read and never written.
theorem apply_exact (message : P.MessageLite) (r : Resources N) (nothing : N.readable r.metadata = []) :
    ∃ drained, apply P i client method false message r =
        .ok (sent P i client method message,false) ⟨drained,r.outstanding + 2⟩ ∧ N.readable drained = [] := by
  obtain ⟨data,serialized,wire⟩ := serialize_exact P message r
  obtain ⟨metadataBuf,drained,encoded,empty,frame⟩ :=
    encodeHeader_exact i client method {r with outstanding := r.outstanding + 1} nothing
  refine ⟨drained,?_,empty⟩
  have unfolded : apply P i client method false message r = (serialize P message >>= fun data =>
      encodeHeader i client method >>= fun metadataBuf => pure (ByteBufPayload.create N data metadataBuf,false)) r := rfl
  rw [unfolded,bind_ok serialized,bind_ok encoded,create_exact data metadataBuf _ (header i client method) wire frame]
  rfl

theorem apply_throws (message : P.MessageLite) (r : Resources N) (something : (N.readable r.metadata).length ≠ 0) :
    ∃ thrown, apply P i client method false message r = .error thrown {r with outstanding := r.outstanding + 2} := by
  obtain ⟨data,serialized,_⟩ := serialize_exact P message r
  obtain ⟨thrown,failed⟩ := encodeHeader_throws i client method {r with outstanding := r.outstanding + 1} something
  refine ⟨thrown,?_⟩
  have unfolded : apply P i client method false message r = (serialize P message >>= fun data =>
      encodeHeader i client method >>= fun metadataBuf => pure (ByteBufPayload.create N data metadataBuf,false)) r := rfl
  rw [unfolded,bind_ok serialized,bind_error failed]

theorem mapped_exact (failure : Option Throwable) (messages : List P.MessageLite) (r : Resources N)
    (nothing : N.readable r.metadata = []) : (mapped (apply P i client method) failure false r messages).1 =
      ⟨messages.map (sent P i client method),failure⟩ := by
  induction messages generalizing r with
  | nil => rfl
  | cons message messages ih =>
    obtain ⟨drained,applied,empty⟩ := apply_exact P i client method message r nothing
    simp only [mapped,applied,ih ⟨drained,r.outstanding + 2⟩ empty,List.map_cons]

end Calls
end Proteus.GeneratedClient
