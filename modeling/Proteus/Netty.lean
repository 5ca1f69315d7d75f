import Proteus.Hashing
import Proteus.Lib.ByteBuffer

namespace Proteus
open ByteBuffer

inductive Throwable where
  | serviceNotFound (namespaceId serviceId : JInt)
  | unsupportedOperation (message : Option String)
  | runtime (cause : Throwable)
  -- Raised by code that is not part of this repository.
  | foreign (id : Nat)
  deriving DecidableEq

abbrev Bytes := {bytes : List UInt8 // bytes.length < 2 ^ 31}

def Bytes.empty : Bytes := ⟨[],by decide⟩

-- What the code relies on of Netty's buffers: every operation acts on the bytes
-- and the two indices as its documentation says, and throws exactly when its
-- range is not inside [0, capacity). A buffer is its state at one moment, so an
-- operation that changes a buffer returns it.
structure Netty where
  ByteBuf : Type
  contents : ByteBuf → Buffer
  addressable : ∀ b, (contents b).bytes.length < 2 ^ 31
  directBuffer : Nat → ByteBuf
  wrappedBuffer : Bytes → ByteBuf
  getShort : ByteBuf → Int → Except Throwable (BitVec 16)
  getInt : ByteBuf → Int → Except Throwable JInt
  slice : ByteBuf → Int → Int → Except Throwable ByteBuf
  setShort : ByteBuf → Int → Int → Except Throwable ByteBuf
  setInt : ByteBuf → Int → JInt → Except Throwable ByteBuf
  -- The source buffer is given back with its reader index advanced.
  setBytes : ByteBuf → Int → ByteBuf → Except Throwable (ByteBuf × ByteBuf)
  writerIndex : ByteBuf → Int → Except Throwable ByteBuf
  direct : ∀ k, k < 2 ^ 31 → ∃ bytes, bytes.length = k ∧ contents (directBuffer k) = .blank bytes
  wrapped : ∀ bytes, contents (wrappedBuffer bytes) = .full bytes.val
  short_got : ∀ b i, (getShort b i).toOption = ((contents b).read i 2).map fun data => BitVec.ofNat 16 (ofBigEndian data)
  int_got : ∀ b i, (getInt b i).toOption = ((contents b).read i 4).map fun data => BitVec.ofNat 32 (ofBigEndian data)
  sliced : ∀ b i length, (slice b i length).toOption.map contents = ((contents b).read i length).map .full
  short_set : ∀ b i value, (setShort b i value).toOption.map contents =
    (contents b).write i (bigEndian 2 (BitVec.ofInt 16 value).toNat)
  int_set : ∀ b i value, (setInt b i value).toOption.map contents = (contents b).write i (bigEndian 4 value.toNat)
  bytes_set : ∀ b i source, (setBytes b i source).toOption.map (Prod.map contents contents) =
    ((contents b).write i (contents source).readable).map fun c => (c,(contents source).consumed)
  writer_set : ∀ b i, (writerIndex b i).toOption.map contents = (contents b).setWriter i

-- The big-endian int, or short, that starts at a byte.
def intAt (bytes : List UInt8) (i : Nat) : JInt := BitVec.ofNat 32 (ofBigEndian ((bytes.drop i).take 4))

def shortAt (bytes : List UInt8) (i : Nat) : BitVec 16 := BitVec.ofNat 16 (ofBigEndian ((bytes.drop i).take 2))

theorem ok_bind (x : α) (f : α → Except E β) : (Except.ok x >>= f) = f x := rfl

theorem succeeds {result : Except E α} (known : result.toOption.map f = some y) : ∃ x, result = .ok x ∧ f x = y := by
  cases result with
  | error thrown => cases known
  | ok x => exact ⟨x,rfl,Option.some.inj known⟩

theorem returns {result : Except E α} (known : result.toOption = some x) : result = .ok x := by
  cases result with
  | error thrown => cases known
  | ok y => cases known; rfl

theorem throws {result : Except E α} (known : result.toOption = none) : ∃ thrown, result = .error thrown := by
  cases result with
  | error thrown => exact ⟨thrown,rfl⟩
  | ok x => cases known

namespace Netty
variable (N : Netty)

def readable (b : N.ByteBuf) : List UInt8 := (N.contents b).readable

def capacity (b : N.ByteBuf) : Nat := (N.contents b).bytes.length

def readableBytes (b : N.ByteBuf) : Int := (N.readable b).length

theorem readable_small (b : N.ByteBuf) : (N.readable b).length < 2 ^ 31 := by
  have within := (N.contents b).within
  have small := N.addressable b
  rw [readable,Buffer.readable_length]
  omega

-- Bytes written so far from the front of a buffer, with the rest of the capacity.
def Written (b : N.ByteBuf) (front : List UInt8) (reader size : Nat) : Prop :=
  ∃ rest, (N.contents b).bytes = front ++ rest ∧ front.length + rest.length = size ∧
    (N.contents b).readerIndex = reader

variable {N}

theorem written_front (b : N.ByteBuf) : N.Written b [] (N.contents b).readerIndex (N.capacity b) :=
  ⟨(N.contents b).bytes,rfl,by simp [capacity],rfl⟩

theorem Written.extended (written : N.Written b front reader size) (data : List UInt8) (fits : front.length + data.length ≤ size)
    (index : (front.length : Int) = i) : ∃ c, (N.contents b).write i data = some c ∧
      ∀ next, N.contents next = c → N.Written next (front ++ data) reader size := by
  obtain ⟨rest,parts,total,kept⟩ := written
  cases index
  obtain ⟨c,wrote,bytes,same,_⟩ := Buffer.write_extends data parts (by omega)
  refine ⟨c,wrote,?_⟩
  intro next equal
  refine ⟨rest.drop data.length,by rw [equal,bytes],?_,by rw [equal,same,kept]⟩
  rw [List.length_append,List.length_drop]
  omega

theorem Written.setShort (written : N.Written b front reader size) (fits : front.length + 2 ≤ size)
    (index : (front.length : Int) = i) (value : Int) : ∃ next, N.setShort b i value = .ok next ∧
      N.Written next (front ++ bigEndian 2 (BitVec.ofInt 16 value).toNat) reader size := by
  obtain ⟨c,wrote,after⟩ := written.extended (bigEndian 2 (BitVec.ofInt 16 value).toNat) (by simpa) index
  obtain ⟨next,done,equal⟩ := succeeds ((N.short_set b i value).trans wrote)
  exact ⟨next,done,after next equal⟩

theorem Written.setInt (written : N.Written b front reader size) (fits : front.length + 4 ≤ size)
    (index : (front.length : Int) = i) (value : JInt) : ∃ next, N.setInt b i value = .ok next ∧
      N.Written next (front ++ bigEndian 4 value.toNat) reader size := by
  obtain ⟨c,wrote,after⟩ := written.extended (bigEndian 4 value.toNat) (by simpa) index
  obtain ⟨next,done,equal⟩ := succeeds ((N.int_set b i value).trans wrote)
  exact ⟨next,done,after next equal⟩

theorem Written.setBytes (written : N.Written b front reader size) (source : N.ByteBuf)
    (fits : front.length + (N.readable source).length ≤ size) (index : (front.length : Int) = i) :
    ∃ next drained, N.setBytes b i source = .ok (next,drained) ∧
      N.Written next (front ++ N.readable source) reader size ∧
      N.contents drained = (N.contents source).consumed := by
  obtain ⟨c,wrote,after⟩ := written.extended _ fits index
  have known := N.bytes_set b i source
  rw [show (N.contents source).readable = N.readable source from rfl,wrote] at known
  obtain ⟨⟨next,drained⟩,done,equal⟩ := succeeds known
  obtain ⟨left,right⟩ := Prod.mk.inj equal
  exact ⟨next,drained,done,after next left,right⟩

-- The writer index may not fall below the reader index.
theorem Written.writerIndex (written : N.Written b front reader size) (low : reader ≤ front.length) :
    ∃ next, N.writerIndex b front.length = .ok next ∧ N.Written next front reader size ∧
      (N.contents next).writerIndex = front.length := by
  obtain ⟨rest,parts,total,kept⟩ := written
  have high : front.length ≤ (N.contents b).bytes.length := by rw [parts,List.length_append]; omega
  obtain ⟨c,moved,bytes,same,writer⟩ := Buffer.setWriter_moves (b := N.contents b) (by omega) high
  obtain ⟨next,done,equal⟩ := succeeds ((N.writer_set b front.length).trans moved)
  exact ⟨next,done,⟨rest,by rw [equal,bytes,parts],total,by rw [equal,same,kept]⟩,by rw [equal,writer]⟩

theorem getInt_exact {b : N.ByteBuf} {i : Nat} (inside : i + 4 ≤ N.capacity b) :
    N.getInt b i = .ok (intAt (N.contents b).bytes i) := by
  have got : (N.contents b).read i 4 = some (((N.contents b).bytes.drop i).take 4) :=
    if_pos ⟨by omega,by omega,by unfold capacity at inside; omega⟩
  exact returns ((N.int_got b i).trans (congrArg (Option.map _) got))

theorem getShort_exact {b : N.ByteBuf} {i : Nat} (inside : i + 2 ≤ N.capacity b) :
    N.getShort b i = .ok (shortAt (N.contents b).bytes i) := by
  have got : (N.contents b).read i 2 = some (((N.contents b).bytes.drop i).take 2) :=
    if_pos ⟨by omega,by omega,by unfold capacity at inside; omega⟩
  exact returns ((N.short_got b i).trans (congrArg (Option.map _) got))

theorem getInt_throws {b : N.ByteBuf} {i : Nat} (outside : N.capacity b < i + 4) :
    ∃ thrown, N.getInt b i = .error thrown := by
  have nothing : (N.contents b).read i 4 = none :=
    Buffer.read_throws.mpr fun inside => by have high := inside.2.2; unfold capacity at outside; omega
  exact throws ((N.int_got b i).trans (congrArg (Option.map _) nothing))

theorem slice_exact {b : N.ByteBuf} {i : Nat} {length : Int} (low : 0 ≤ length) (high : i + length ≤ N.capacity b) :
    ∃ part, N.slice b i length = .ok part ∧
      N.contents part = .full (((N.contents b).bytes.drop i).take length.toNat) := by
  have got : (N.contents b).read i length = some (((N.contents b).bytes.drop i).take length.toNat) :=
    if_pos ⟨by omega,low,high⟩
  exact succeeds ((N.sliced b i length).trans (congrArg (Option.map _) got))

theorem slice_throws {b : N.ByteBuf} {i : Nat} (length : Int) (outside : ¬ (0 ≤ length ∧ i + length ≤ N.capacity b)) :
    ∃ thrown, N.slice b i length = .error thrown := by
  have nothing : (N.contents b).read i length = none :=
    Buffer.read_throws.mpr fun inside => outside ⟨inside.2.1,inside.2.2⟩
  exact throws (Option.map_eq_none_iff.mp ((N.sliced b i length).trans (congrArg (Option.map _) nothing)))

end Netty

-- Buffers that are nothing but their documented contents.
namespace Heap

abbrev Buf := {b : Buffer // b.bytes.length < 2 ^ 31}

def checked (result : Option α) : Except Throwable α := result.elim (.error (.foreign 0)) .ok

theorem checked_exact (result : Option α) : (checked result).toOption = result := by cases result <;> rfl

def lifted : (result : Option Buffer) → (∀ c, result = some c → c.bytes.length < 2 ^ 31) → Except Throwable Buf
  | none,_ => .error (.foreign 0)
  | some c,small => .ok ⟨c,small c rfl⟩

theorem lifted_exact (result : Option Buffer) (small : ∀ c, result = some c → c.bytes.length < 2 ^ 31) :
    (lifted result small).toOption.map Subtype.val = result := by cases result <;> rfl

def write (b : Buf) (index : Int) (data : List UInt8) : Except Throwable Buf :=
  lifted (b.val.write index data) fun _ wrote => by rw [Buffer.write_capacity wrote]; exact b.property

def allocate (k : Nat) : Buf :=
  if small : k < 2 ^ 31 then ⟨.blank (List.replicate k 0),by simpa [Buffer.blank] using small⟩
  else ⟨.blank [],by simp [Buffer.blank]⟩

def blank (bytes : Bytes) : Buf := ⟨.blank bytes.val,bytes.property⟩

def netty : Netty where
  ByteBuf := Buf
  contents := Subtype.val
  addressable := Subtype.property
  directBuffer := allocate
  wrappedBuffer := fun bytes => ⟨.full bytes.val,bytes.property⟩
  getShort := fun b i => checked ((b.val.read i 2).map fun data => BitVec.ofNat 16 (ofBigEndian data))
  getInt := fun b i => checked ((b.val.read i 4).map fun data => BitVec.ofNat 32 (ofBigEndian data))
  slice := fun b i length => lifted ((b.val.read i length).map .full) fun c equal => by
    obtain ⟨data,got,rfl⟩ := Option.map_eq_some_iff.mp equal
    exact Nat.lt_of_le_of_lt (Buffer.read_capacity got) b.property
  setShort := fun b i value => write b i (bigEndian 2 (BitVec.ofInt 16 value).toNat)
  setInt := fun b i value => write b i (bigEndian 4 value.toNat)
  setBytes := fun b i source => (write b i source.val.readable).map fun c => (c,⟨source.val.consumed,source.property⟩)
  writerIndex := fun b i => lifted (b.val.setWriter i) fun _ moved => by
    rw [Buffer.setWriter_capacity moved]; exact b.property
  direct := fun k small => ⟨List.replicate k 0,by simp,by simp only [allocate,dif_pos small]⟩
  wrapped := fun _ => rfl
  short_got := fun _ _ => checked_exact _
  int_got := fun _ _ => checked_exact _
  sliced := fun _ _ _ => lifted_exact _ _
  short_set := fun _ _ _ => lifted_exact _ _
  int_set := fun _ _ _ => lifted_exact _ _
  bytes_set := fun b i source => by
    have exact := lifted_exact (b.val.write i source.val.readable) fun _ wrote => by
      rw [Buffer.write_capacity wrote]; exact b.property
    change ((write b i source.val.readable).map _).toOption.map _ = _
    rw [← exact]
    cases known : write b i source.val.readable <;> simp only [write] at known <;> rw [known] <;> rfl
  writer_set := fun _ _ => lifted_exact _ _

end Heap
end Proteus
