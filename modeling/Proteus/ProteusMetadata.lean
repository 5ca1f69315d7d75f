import Proteus.Netty

namespace Proteus.ProteusMetadata
open ByteBuffer

def VERSION_SIZE : Int := 2
def NAMESPACE_ID_SIZE : Int := 4
def SERVICE_ID_SIZE : Int := 4
def METHOD_ID_SIZE : Int := 4
def METADATA_LENGTH_SIZE : Int := 4

def computeLength : Int := VERSION_SIZE + NAMESPACE_ID_SIZE + SERVICE_ID_SIZE + METHOD_ID_SIZE + METADATA_LENGTH_SIZE

-- The returned offset, and both buffers as the call leaves them.
structure Encoded (N : Netty) where
  offset : Int
  byteBuf : N.ByteBuf
  metadata : N.ByteBuf

def encode (N : Netty) (byteBuf : N.ByteBuf) (namespaceId serviceId methodId : JInt) (metadata : N.ByteBuf) :
    Except Throwable (Encoded N) := do
  let offset := 0
  let byteBuf ← N.setShort byteBuf offset 1
  let offset := offset + VERSION_SIZE
  let byteBuf ← N.setInt byteBuf offset namespaceId
  let offset := offset + NAMESPACE_ID_SIZE
  let byteBuf ← N.setInt byteBuf offset serviceId
  let offset := offset + SERVICE_ID_SIZE
  let byteBuf ← N.setInt byteBuf offset methodId
  let offset := offset + METHOD_ID_SIZE
  let metadataLength := N.readableBytes metadata
  let byteBuf ← N.setInt byteBuf offset (BitVec.ofInt 32 metadataLength)
  let offset := offset + METADATA_LENGTH_SIZE
  let (byteBuf,metadata) ← N.setBytes byteBuf offset metadata
  -- The bytes just set end inside the capacity, so this sum is an int.
  let offset := offset + metadataLength
  let byteBuf ← N.writerIndex byteBuf offset
  return ⟨offset,byteBuf,metadata⟩

def toUnsignedInt (x : BitVec 16) : JInt := x.signExtend 32 &&& 0x7FFF#32

def version (N : Netty) (byteBuf : N.ByteBuf) : Except Throwable JInt := do
  return toUnsignedInt (← N.getShort byteBuf 0)

def namespaceId (N : Netty) (byteBuf : N.ByteBuf) : Except Throwable JInt :=
  let offset := VERSION_SIZE
  N.getInt byteBuf offset

def serviceId (N : Netty) (byteBuf : N.ByteBuf) : Except Throwable JInt :=
  let offset := VERSION_SIZE + NAMESPACE_ID_SIZE
  N.getInt byteBuf offset

def methodId (N : Netty) (byteBuf : N.ByteBuf) : Except Throwable JInt :=
  let offset := VERSION_SIZE + NAMESPACE_ID_SIZE + SERVICE_ID_SIZE
  N.getInt byteBuf offset

def metadata (N : Netty) (byteBuf : N.ByteBuf) : Except Throwable N.ByteBuf := do
  let offset := VERSION_SIZE + NAMESPACE_ID_SIZE + SERVICE_ID_SIZE + METHOD_ID_SIZE
  let length ← N.getInt byteBuf offset
  let offset := offset + METADATA_LENGTH_SIZE
  N.slice byteBuf offset length.toInt

variable {N : Netty}

def int (value : JInt) : List UInt8 := bigEndian 4 value.toNat

def header (namespaceId serviceId methodId : JInt) : List UInt8 :=
  bigEndian 2 1 ++ int namespaceId ++ int serviceId ++ int methodId

def frame (namespaceId serviceId methodId : JInt) (metadata : List UInt8) : List UInt8 :=
  header namespaceId serviceId methodId ++ int (BitVec.ofNat 32 metadata.length) ++ metadata

@[simp] theorem int_length (value : JInt) : (int value).length = 4 := bigEndian_length _ _

@[simp] theorem header_length (a b c : JInt) : (header a b c).length = 14 := by simp [header]

@[simp] theorem frame_length (a b c : JInt) (data : List UInt8) : (frame a b c data).length = 18 + data.length := by
  simp only [frame,List.length_append,header_length,int_length]

theorem int_exact (value : JInt) : BitVec.ofNat 32 (ofBigEndian (int value)) = value := by
  rw [int,ofBigEndian_exact (show value.toNat < 256 ^ 4 from value.isLt),BitVec.ofNat_toNat,BitVec.setWidth_eq]

theorem int_spelled (bytes : List UInt8) (four : bytes.length = 4) : int (BitVec.ofNat 32 (ofBigEndian bytes)) = bytes := by
  have small := ofBigEndian_lt bytes
  rw [four] at small
  rw [int,BitVec.toNat_ofNat,Nat.mod_eq_of_lt (show _ < 2 ^ 32 from small),← four,bigEndian_ofBigEndian]

theorem header_written (byteBuf metadata : N.ByteBuf) (a b c : JInt) (fits : 18 ≤ N.capacity byteBuf) :
    ∃ written : N.ByteBuf, N.Written written (header a b c ++ int (BitVec.ofNat 32 (N.readable metadata).length))
        (N.contents byteBuf).readerIndex (N.capacity byteBuf) ∧
      encode N byteBuf a b c metadata = (do
        let (last,drained) ← N.setBytes written 18 metadata
        let last ← N.writerIndex last (18 + N.readableBytes metadata)
        return ⟨18 + N.readableBytes metadata,last,drained⟩) := by
  have start := Netty.written_front byteBuf
  obtain ⟨first,versioned,one⟩ := start.setShort (i := 0) (by simpa using Nat.le_trans (by decide) fits) rfl 1
  obtain ⟨second,spaced,two⟩ := one.setInt (i := 2) (by simp; omega) (by simp) a
  obtain ⟨third,served,three⟩ := two.setInt (i := 6) (by simp; omega) (by simp) b
  obtain ⟨fourth,called,four⟩ := three.setInt (i := 10) (by simp; omega) (by simp) c
  obtain ⟨fifth,measured,five⟩ := four.setInt (i := 14) (by simp; omega) (by simp)
    (BitVec.ofInt 32 (N.readableBytes metadata))
  have length : BitVec.ofInt 32 (N.readableBytes metadata) = BitVec.ofNat 32 (N.readable metadata).length :=
    BitVec.ofInt_natCast _ _
  refine ⟨fifth,?_,?_⟩
  · rw [length] at five
    exact five
  · have spaced : N.setInt first (0 + VERSION_SIZE) a = .ok second := spaced
    have served : N.setInt second (0 + VERSION_SIZE + NAMESPACE_ID_SIZE) b = .ok third := served
    have called : N.setInt third (0 + VERSION_SIZE + NAMESPACE_ID_SIZE + SERVICE_ID_SIZE) c = .ok fourth := called
    have measured : N.setInt fourth (0 + VERSION_SIZE + NAMESPACE_ID_SIZE + SERVICE_ID_SIZE + METHOD_ID_SIZE)
      (BitVec.ofInt 32 (N.readableBytes metadata)) = .ok fifth := measured
    simp only [encode,versioned,spaced,served,called,measured,ok_bind]
    rfl

theorem encode_writes (byteBuf metadata : N.ByteBuf) (a b c : JInt)
    (fits : 18 + (N.readable metadata).length ≤ N.capacity byteBuf)
    (low : (N.contents byteBuf).readerIndex ≤ 18 + (N.readable metadata).length) :
    ∃ encoded, encode N byteBuf a b c metadata = .ok encoded ∧
      encoded.offset = 18 + (N.readable metadata).length ∧
      N.Written encoded.byteBuf (frame a b c (N.readable metadata)) (N.contents byteBuf).readerIndex (N.capacity byteBuf) ∧
      ((N.contents encoded.byteBuf).writerIndex : Int) = encoded.offset ∧
      N.contents encoded.metadata = (N.contents metadata).consumed := by
  obtain ⟨written,front,equal⟩ := header_written byteBuf metadata a b c (by omega)
  have before : (header a b c ++ int (BitVec.ofNat 32 (N.readable metadata).length)).length = 18 := by
    rw [List.length_append,header_length,int_length]
  obtain ⟨next,drained,set,extended,emptied⟩ := front.setBytes (i := 18) metadata (by omega) (by omega)
  have whole : N.Written next (frame a b c (N.readable metadata)) _ _ := extended
  obtain ⟨last,moved,kept,writer⟩ := whole.writerIndex (by rw [frame_length]; exact low)
  have total : ((frame a b c (N.readable metadata)).length : Int) = 18 + N.readableBytes metadata := by
    rw [frame_length,Netty.readableBytes]
    omega
  rw [total] at moved
  refine ⟨⟨18 + N.readableBytes metadata,last,drained⟩,?_,rfl,kept,?_,emptied⟩
  · rw [equal,set]
    simp only [ok_bind,moved]
    rfl
  · rw [writer,total]

-- Where the header fits but not the metadata after it, setBytes throws.
theorem encode_overflows (byteBuf metadata : N.ByteBuf) (a b c : JInt) (fits : 18 ≤ N.capacity byteBuf)
    (narrow : N.capacity byteBuf < 18 + (N.readable metadata).length) :
    ∃ thrown, encode N byteBuf a b c metadata = .error thrown := by
  obtain ⟨written,front,equal⟩ := header_written byteBuf metadata a b c fits
  obtain ⟨rest,parts,size,_⟩ := front
  have capacity : (N.contents written).bytes.length = N.capacity byteBuf := by rw [parts,List.length_append,size]
  have outside : ¬ (N.contents written).Inside 18 (N.contents metadata).readable.length := by
    intro inside
    have high := inside.2.2
    have same : (N.contents metadata).readable.length = (N.readable metadata).length := rfl
    omega
  have known := N.bytes_set written 18 metadata
  rw [Buffer.write_throws.mpr outside] at known
  obtain ⟨thrown,failed⟩ := throws (Option.map_eq_none_iff.mp known)
  refine ⟨thrown,?_⟩
  rw [equal,failed]
  rfl

theorem namespaceId_exact {b : N.ByteBuf} (inside : 6 ≤ N.capacity b) :
    namespaceId N b = .ok (intAt (N.contents b).bytes 2) := Netty.getInt_exact (i := 2) inside

theorem serviceId_exact {b : N.ByteBuf} (inside : 10 ≤ N.capacity b) :
    serviceId N b = .ok (intAt (N.contents b).bytes 6) := Netty.getInt_exact (i := 6) inside

theorem methodId_exact {b : N.ByteBuf} (inside : 14 ≤ N.capacity b) :
    methodId N b = .ok (intAt (N.contents b).bytes 10) := Netty.getInt_exact (i := 10) inside

theorem version_exact {b : N.ByteBuf} (inside : 2 ≤ N.capacity b) :
    version N b = .ok (toUnsignedInt (shortAt (N.contents b).bytes 0)) := by
  have got : N.getShort b 0 = .ok (shortAt (N.contents b).bytes 0) := Netty.getShort_exact (i := 0) inside
  simp only [version,got,ok_bind]
  rfl

def declaredLength (bytes : List UInt8) : Int := (intAt bytes 14).toInt

-- The metadata is sliced out exactly where the declared length stays inside.
theorem metadata_exact {b : N.ByteBuf} (header : 18 ≤ N.capacity b) (low : 0 ≤ declaredLength (N.contents b).bytes)
    (high : 18 + declaredLength (N.contents b).bytes ≤ N.capacity b) : ∃ part, metadata N b = .ok part ∧
      N.contents part = .full (((N.contents b).bytes.drop 18).take (declaredLength (N.contents b).bytes).toNat) := by
  have length : N.getInt b 14 = .ok (intAt (N.contents b).bytes 14) := Netty.getInt_exact (i := 14) header
  obtain ⟨part,cut,contents⟩ := Netty.slice_exact (i := 18) low high
  refine ⟨part,?_,contents⟩
  have length : N.getInt b (VERSION_SIZE + NAMESPACE_ID_SIZE + SERVICE_ID_SIZE + METHOD_ID_SIZE) = _ := length
  simp only [metadata,length,ok_bind]
  exact cut

theorem metadata_throws {b : N.ByteBuf} (outside : ¬ (18 ≤ N.capacity b ∧ 0 ≤ declaredLength (N.contents b).bytes ∧
    18 + declaredLength (N.contents b).bytes ≤ N.capacity b)) : ∃ thrown, metadata N b = .error thrown := by
  rcases Nat.lt_or_ge (N.capacity b) 18 with short | header
  · obtain ⟨thrown,failed⟩ := Netty.getInt_throws (b := b) (i := 14) short
    have failed : N.getInt b (VERSION_SIZE + NAMESPACE_ID_SIZE + SERVICE_ID_SIZE + METHOD_ID_SIZE) = _ := failed
    exact ⟨thrown,by simp only [metadata,failed]; rfl⟩
  · have length : N.getInt b 14 = .ok (intAt (N.contents b).bytes 14) := Netty.getInt_exact (i := 14) header
    obtain ⟨thrown,failed⟩ := Netty.slice_throws (b := b) (i := 18) (declaredLength (N.contents b).bytes)
      fun inside => outside ⟨header,inside⟩
    refine ⟨thrown,?_⟩
    have length : N.getInt b (VERSION_SIZE + NAMESPACE_ID_SIZE + SERVICE_ID_SIZE + METHOD_ID_SIZE) = _ := length
    simp only [metadata,length,ok_bind]
    exact failed

theorem intAt_int (before after : List UInt8) (parts : bytes = before ++ int value ++ after) (index : before.length = i) :
    intAt bytes i = value := by
  cases index
  rw [intAt,parts,List.append_assoc,List.drop_left,List.take_left' (int_length value),int_exact]

theorem frame_fields (rest : List UInt8) (bytes : buffer = frame ns service method data ++ rest) :
    intAt buffer 2 = ns ∧ intAt buffer 6 = service ∧ intAt buffer 10 = method ∧
      intAt buffer 14 = BitVec.ofNat 32 data.length := by
  refine ⟨?_,?_,?_,?_⟩
  · exact intAt_int (bigEndian 2 1) (int service ++ int method ++ int (BitVec.ofNat 32 data.length) ++ data ++ rest)
      (by simp [bytes,frame,header]) (bigEndian_length _ _)
  · exact intAt_int (bigEndian 2 1 ++ int ns) (int method ++ int (BitVec.ofNat 32 data.length) ++ data ++ rest)
      (by simp [bytes,frame,header]) (by simp)
  · exact intAt_int (bigEndian 2 1 ++ int ns ++ int service) (int (BitVec.ofNat 32 data.length) ++ data ++ rest)
      (by simp [bytes,frame,header]) (by simp)
  · exact intAt_int (header ns service method) (data ++ rest) (by simp [bytes,frame]) (by simp)

theorem accessors_frame {b : N.ByteBuf} (rest : List UInt8) (bytes : (N.contents b).bytes = frame ns service method data ++ rest)
    (small : data.length < 2 ^ 31) :
    version N b = .ok 1 ∧ namespaceId N b = .ok ns ∧ serviceId N b = .ok service ∧ methodId N b = .ok method ∧
      ∃ part, metadata N b = .ok part ∧ N.contents part = .full data := by
  have long : 18 + data.length ≤ N.capacity b := by
    rw [Netty.capacity,bytes,List.length_append,frame_length]
    omega
  have versioned : shortAt (N.contents b).bytes 0 = 1 := by
    rw [bytes]
    simp [shortAt,frame,header]
    decide
  obtain ⟨spaced,served,called,measured⟩ := frame_fields rest bytes
  have declared : declaredLength (N.contents b).bytes = data.length := by
    have natural : (BitVec.ofNat 32 data.length).toNat = data.length := by
      rw [BitVec.toNat_ofNat,Nat.mod_eq_of_lt (by omega)]
    rw [declaredLength,measured,BitVec.toInt_eq_toNat_of_lt (by omega),natural]
  obtain ⟨part,cut,contents⟩ := metadata_exact (b := b) (by omega) (by omega) (by omega)
  refine ⟨?_,?_,?_,?_,part,cut,?_⟩
  · rw [version_exact (by omega),versioned]
    rfl
  · rw [namespaceId_exact (by omega),spaced]
  · rw [serviceId_exact (by omega),served]
  · rw [methodId_exact (by omega),called]
  · have body : (N.contents b).bytes.drop 18 = data ++ rest := by
      rw [bytes,frame,List.append_assoc,List.drop_left' (by simp)]
    rw [contents,declared,body,Int.toNat_natCast,List.take_left]

theorem int_intAt (bytes : List UInt8) (i : Nat) (inside : i + 4 ≤ bytes.length) : int (intAt bytes i) = (bytes.drop i).take 4 :=
  int_spelled _ (by rw [List.length_take,List.length_drop]; omega)

theorem short_spelled (bytes : List UInt8) (header : 2 ≤ bytes.length) :
    bigEndian 2 (shortAt bytes 0).toNat = bytes.take 2 := by
  have two : (bytes.take 2).length = 2 := by rw [List.length_take]; omega
  have small := ofBigEndian_lt (bytes.take 2)
  have spelled := bigEndian_ofBigEndian (bytes.take 2)
  rw [two] at small spelled
  rw [shortAt,BitVec.toNat_ofNat,List.drop_zero,Nat.mod_eq_of_lt (show _ < 2 ^ 16 from small),spelled]

theorem fields_spelled (bytes : List UInt8) (header : 18 ≤ bytes.length) : bytes =
    bigEndian 2 (shortAt bytes 0).toNat ++ int (intAt bytes 2) ++ int (intAt bytes 6) ++ int (intAt bytes 10) ++
      int (intAt bytes 14) ++ bytes.drop 18 := by
  rw [short_spelled _ (by omega),int_intAt _ _ (by omega),int_intAt _ _ (by omega),int_intAt _ _ (by omega),
    int_intAt _ _ (by omega),← List.take_add,← List.take_add,← List.take_add,← List.take_add,List.take_append_drop]

-- Bytes with version field 1 that end with their declared length are the frame
-- of their own fields.
theorem frame_spelled (bytes : List UInt8) (versioned : shortAt bytes 0 = 1)
    (exact : (bytes.length : Int) = 18 + declaredLength bytes) (header : 18 ≤ bytes.length) :
    bytes = frame (intAt bytes 2) (intAt bytes 6) (intAt bytes 10) (bytes.drop 18) := by
  have spelled := fields_spelled bytes header
  have length : BitVec.ofNat 32 (bytes.drop 18).length = intAt bytes 14 := by
    have natural : ((bytes.drop 18).length : Int) = (intAt bytes 14).toInt := by
      rw [List.length_drop]
      unfold declaredLength at exact
      omega
    rw [← BitVec.ofInt_natCast,natural,BitVec.ofInt_toInt]
  rw [versioned] at spelled
  rw [frame,ProteusMetadata.header,length]
  exact spelled

-- What encode writes reads back as what it was given, whatever the target held;
-- a slice is exactly the declared bytes; and a frame of version 1 without bytes
-- after it is what encoding its fields writes again. A target that was already
-- read past the end of the frame is the one encode refuses.
theorem frame_inverse (N : Netty) :
    (∀ (byteBuf metadata : N.ByteBuf) (ns service method : JInt),
      18 + (N.readable metadata).length ≤ N.capacity byteBuf →
      (N.contents byteBuf).readerIndex ≤ 18 + (N.readable metadata).length →
      ∃ encoded part, encode N byteBuf ns service method metadata = .ok encoded ∧
        encoded.offset = 18 + (N.readable metadata).length ∧
        ((N.contents encoded.byteBuf).writerIndex : Int) = encoded.offset ∧
        version N encoded.byteBuf = .ok 1 ∧ namespaceId N encoded.byteBuf = .ok ns ∧
        serviceId N encoded.byteBuf = .ok service ∧ methodId N encoded.byteBuf = .ok method ∧
        ProteusMetadata.metadata N encoded.byteBuf = .ok part ∧ N.readable part = N.readable metadata) ∧
    (∀ (f : N.ByteBuf) (declared : Int), declared = declaredLength (N.contents f).bytes →
      if 18 ≤ N.capacity f ∧ 0 ≤ declared ∧ 18 + declared ≤ N.capacity f then
        ∃ part, metadata N f = .ok part ∧ N.readable part = ((N.contents f).bytes.drop 18).take declared.toNat
      else ∃ thrown, metadata N f = .error thrown) ∧
    (∀ f : N.ByteBuf, 18 ≤ N.capacity f → shortAt (N.contents f).bytes 0 = 1 →
      (N.capacity f : Int) = 18 + declaredLength (N.contents f).bytes →
      ∃ ns service method part, namespaceId N f = .ok ns ∧ serviceId N f = .ok service ∧ methodId N f = .ok method ∧
        metadata N f = .ok part ∧ ∀ target : N.ByteBuf, N.capacity f ≤ N.capacity target →
          (N.contents target).readerIndex ≤ N.capacity f →
          ∃ encoded, encode N target ns service method part = .ok encoded ∧
            (N.contents encoded.byteBuf).bytes.take (N.capacity f) = (N.contents f).bytes) := by
  refine ⟨?_,?_,?_⟩
  · intro byteBuf metadata ns service method fits low
    obtain ⟨encoded,done,offset,written,writer,_⟩ := encode_writes byteBuf metadata ns service method fits low
    obtain ⟨rest,bytes,_,_⟩ := written
    obtain ⟨versioned,spaced,served,called,part,cut,contents⟩ := accessors_frame rest bytes (N.readable_small metadata)
    exact ⟨encoded,part,done,offset,writer,versioned,spaced,served,called,cut,by
      rw [Netty.readable,contents,Buffer.readable_full]⟩
  · intro f declared equal
    cases equal
    split
    · rename_i inside
      obtain ⟨part,cut,contents⟩ := metadata_exact inside.1 inside.2.1 inside.2.2
      exact ⟨part,cut,by rw [Netty.readable,contents,Buffer.readable_full]⟩
    · rename_i outside
      exact metadata_throws outside
  · intro f header versioned exact
    have spelled := frame_spelled (N.contents f).bytes versioned exact header
    have small : ((N.contents f).bytes.drop 18).length < 2 ^ 31 := by
      have total := N.addressable f
      rw [List.length_drop]
      omega
    obtain ⟨_,spaced,served,called,part,cut,contents⟩ :=
      accessors_frame (b := f) [] (by rw [List.append_nil]; exact spelled) small
    refine ⟨_,_,_,part,spaced,served,called,cut,?_⟩
    intro target fits low
    have readable : N.readable part = (N.contents f).bytes.drop 18 := by
      rw [Netty.readable,contents,Buffer.readable_full]
    have length : 18 + (N.readable part).length = N.capacity f := by
      rw [readable,List.length_drop]
      unfold Netty.capacity at header ⊢
      omega
    obtain ⟨encoded,done,_,written,_⟩ := encode_writes target part _ _ _ (by omega) (by omega)
    obtain ⟨rest,bytes,_,_⟩ := written
    refine ⟨encoded,done,?_⟩
    rw [readable,← spelled] at bytes
    rw [bytes]
    exact List.take_left

theorem frame_inverse_negative : ∃ encoded part,
    encode Heap.netty ⟨.blank (List.replicate 20 7),by decide⟩ (-1) 0x80000000#32 3 ⟨.full [8,9],by decide⟩ = .ok encoded ∧
      encoded.offset = 20 ∧ ((Heap.netty.contents encoded.byteBuf).writerIndex : Int) = encoded.offset ∧
      version Heap.netty encoded.byteBuf = .ok 1 ∧ namespaceId Heap.netty encoded.byteBuf = .ok (-1) ∧
      serviceId Heap.netty encoded.byteBuf = .ok 0x80000000#32 ∧ methodId Heap.netty encoded.byteBuf = .ok 3 ∧
      metadata Heap.netty encoded.byteBuf = .ok part ∧ Heap.netty.readable part = [8,9] :=
  (frame_inverse Heap.netty).1 ⟨.blank (List.replicate 20 7),by decide⟩ ⟨.full [8,9],by decide⟩ _ _ _ (by decide) (by decide)

theorem encode_refuses : ¬ ∀ (N : Netty) (byteBuf metadata : N.ByteBuf) (ns service method : JInt),
    18 + (N.readable metadata).length ≤ N.capacity byteBuf →
    ∃ encoded, encode N byteBuf ns service method metadata = .ok encoded := by
  intro every
  obtain ⟨encoded,done⟩ := every Heap.netty ⟨⟨List.replicate 19 0,19,19,by decide,by decide⟩,by decide⟩
    ⟨.full [],by decide⟩ 1 2 3 (by decide)
  have refused : encode Heap.netty ⟨⟨List.replicate 19 0,19,19,by decide,by decide⟩,by decide⟩ 1 2 3 ⟨.full [],by decide⟩ =
    .error (.foreign 0) := rfl
  rw [refused] at done
  cases done

end Proteus.ProteusMetadata
