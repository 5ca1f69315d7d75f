import Proteus.JavaGenerator
import Proteus.ProteusMetadata

namespace Proteus
open ByteBuffer JavaGenerator

-- What generated code relies on of protobuf: a message has one wire form, is
-- written whole into a fresh buffer of that size, and parsing undoes writing.
structure Protobuf (N : Netty) where
  MessageLite : Type
  descriptor : MessageLite → Descriptor
  wire : MessageLite → Bytes
  writeTo : MessageLite → N.ByteBuf → Except Throwable N.ByteBuf
  parseFrom : Descriptor → Bytes → Except Throwable MessageLite
  written : ∀ message b, (N.contents b).writerIndex = 0 → N.capacity b = (wire message).val.length →
    ∃ c, writeTo message b = .ok c ∧ (N.contents c).bytes = (wire message).val ∧ (N.contents c).readerIndex = 0
  parsed : ∀ message, parseFrom (descriptor message) (wire message) = .ok message

def Protobuf.getSerializedSize (P : Protobuf N) (message : P.MessageLite) : Nat := (P.wire message).val.length

structure Payload where
  data : Bytes
  metadata : Option Bytes
  deriving DecidableEq

def Payload.getMetadata (payload : Payload) : Bytes := payload.metadata.getD .empty

def Payload.sliceMetadata (N : Netty) (payload : Payload) : N.ByteBuf := N.wrappedBuffer payload.getMetadata

def ByteBufPayload.create (N : Netty) (data metadata : N.ByteBuf) : Payload :=
  ⟨⟨N.readable data,N.readable_small data⟩,some ⟨N.readable metadata,N.readable_small metadata⟩⟩

def ByteBufPayload.createData (N : Netty) (data : N.ByteBuf) : Payload :=
  ⟨⟨N.readable data,N.readable_small data⟩,none⟩

-- A finite publisher: what it emits, and the error it ends with, if any.
structure Flux (Item : Type) where
  items : List Item
  failure : Option Throwable
  deriving DecidableEq

-- The request argument of a service method.
inductive Argument (Message : Type) where
  | message (message : Message)
  | messages (messages : Flux Message)
  deriving DecidableEq

-- One message, or a stream of at least one that does not fail.
def Argument.Sendable : Argument Message → Prop
  | .message _ => True
  | .messages flux => flux.items ≠ [] ∧ flux.failure = none

-- There is a message to send, whatever comes of the stream after it.
def Argument.Carries : Argument Message → Prop
  | .message _ => True
  | .messages flux => flux.items ≠ []

theorem Argument.Sendable.carries {argument : Argument Message} (sendable : argument.Sendable) : argument.Carries := by
  cases argument with
  | message message => trivial
  | messages flux => exact sendable.1

theorem slice_contents (N : Netty) (payload : Payload) :
    N.contents (payload.sliceMetadata N) = .full payload.getMetadata.val := N.wrapped _

theorem slice_capacity (N : Netty) (payload : Payload) :
    N.capacity (payload.sliceMetadata N) = payload.getMetadata.val.length := by
  rw [Netty.capacity,slice_contents,Buffer.full]

namespace Heap

def protobuf (descriptor : Descriptor) : Protobuf netty where
  MessageLite := Bytes
  descriptor := fun _ => descriptor
  wire := id
  writeTo := fun message b =>
    if b.val.bytes.length = message.val.length then .ok (blank message) else .error (.foreign 1)
  parseFrom := fun _ bytes => .ok bytes
  written := fun message _ _ size => ⟨blank message,if_pos size,rfl,rfl⟩
  parsed := fun _ => rfl

end Heap
end Proteus
