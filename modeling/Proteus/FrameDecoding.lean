import Proteus.ProteusMetadata

namespace Proteus.ProteusMetadata
open ByteBuffer
variable {N : Netty}

-- A header and exactly the metadata it declares.
structure WellFormed (f : N.ByteBuf) : Prop where
  declared : 0 ≤ declaredLength (N.contents f).bytes
  exact : (N.capacity f : Int) = 18 + declaredLength (N.contents f).bytes

def versionField (f : N.ByteBuf) : BitVec 16 := shortAt (N.contents f).bytes 0

structure Agree (f g : N.ByteBuf) : Prop where
  versioned : version N f = version N g
  namespaced : namespaceId N f = namespaceId N g
  served : serviceId N f = serviceId N g
  called : methodId N f = methodId N g
  attached : ∃ p q, metadata N f = .ok p ∧ metadata N g = .ok q ∧ N.readable p = N.readable q

structure VersionRead (f : N.ByteBuf) : Prop where
  unsigned : version N f = .ok ((versionField f).setWidth 32)
  alone : version N f = .ok 1 → versionField f = 1

structure Unambiguous (f g : N.ByteBuf) : Prop where
  determined : Agree f g → (N.contents f).bytes = (N.contents g).bytes
  first : VersionRead f
  second : VersionRead g

-- The mask is one bit short of the field.
theorem unsigned_low (x : BitVec 16) : (toUnsignedInt x).toNat = x.toNat % 2 ^ 15 := by
  have mask : (0x7FFF#32).toNat = 2 ^ 15 - 1 := rfl
  have small := x.isLt
  rw [toUnsignedInt,BitVec.toNat_and,mask,Nat.and_two_pow_sub_one_eq_mod,BitVec.toNat_signExtend]
  simp only [BitVec.toNat_setWidth]
  split <;> omega

theorem unsigned_exact (x : BitVec 16) : toUnsignedInt x = x.setWidth 32 ↔ x.toNat < 0x8000 := by
  have small := x.isLt
  have wide : (x.setWidth 32).toNat = x.toNat := by rw [BitVec.toNat_setWidth]; omega
  rw [← BitVec.toNat_inj,unsigned_low,wide]
  omega

namespace WellFormed
variable {f g : N.ByteBuf}

theorem header (formed : WellFormed f) : 18 ≤ N.capacity f := by
  have declared := formed.declared
  have exact := formed.exact
  omega

theorem version (formed : WellFormed f) : version N f = .ok (toUnsignedInt (versionField f)) :=
  version_exact (by have := formed.header; omega)

theorem metadata (formed : WellFormed f) : ∃ p, metadata N f = .ok p ∧ N.readable p = (N.contents f).bytes.drop 18 := by
  have exact := formed.exact
  obtain ⟨p,cut,contents⟩ := metadata_exact formed.header formed.declared (by omega)
  refine ⟨p,cut,?_⟩
  rw [Netty.readable,contents,Buffer.readable_full]
  apply List.take_of_length_le
  unfold Netty.capacity at exact
  rw [List.length_drop]
  omega

theorem lengths (formed : WellFormed f) : ((N.contents f).bytes.drop 18).length = declaredLength (N.contents f).bytes := by
  have exact := formed.exact
  have header := formed.header
  unfold Netty.capacity at exact header
  rw [List.length_drop]
  omega

end WellFormed

section Pairs
variable {f g : N.ByteBuf}

theorem drop_later {bytes other : List UInt8} (rest : bytes.drop 2 = other.drop 2) (past : 2 ≤ i) :
    bytes.drop i = other.drop i := by
  have cut := congrArg (List.drop (i - 2)) rest
  rwa [List.drop_drop,List.drop_drop,show 2 + (i - 2) = i by omega] at cut

theorem field_later {bytes other : List UInt8} (rest : bytes.drop 2 = other.drop 2) (past : 2 ≤ i) :
    intAt bytes i = intAt other i := by
  rw [intAt,drop_later rest past,intAt]

-- The decoder determines everything but the first bit of the version field.
theorem agree_exact (first : WellFormed f) (second : WellFormed g) : Agree f g ↔
    toUnsignedInt (versionField f) = toUnsignedInt (versionField g) ∧
      (N.contents f).bytes.drop 2 = (N.contents g).bytes.drop 2 := by
  obtain ⟨p,firstCut,firstPart⟩ := first.metadata
  obtain ⟨q,secondCut,secondPart⟩ := second.metadata
  have firstHeader := first.header
  have secondHeader := second.header
  have firstSpelled := fields_spelled (N.contents f).bytes firstHeader
  have secondSpelled := fields_spelled (N.contents g).bytes secondHeader
  constructor
  · rintro ⟨versioned,namespaced,served,called,p',q',cut,cut',same⟩
    rw [first.version,second.version] at versioned
    rw [namespaceId_exact (by omega),namespaceId_exact (by omega)] at namespaced
    rw [serviceId_exact (by omega),serviceId_exact (by omega)] at served
    rw [methodId_exact (by omega),methodId_exact (by omega)] at called
    cases firstCut.symm.trans cut
    cases secondCut.symm.trans cut'
    rw [firstPart,secondPart] at same
    have declared : intAt (N.contents f).bytes 14 = intAt (N.contents g).bytes 14 := by
      apply BitVec.eq_of_toInt_eq
      change declaredLength (N.contents f).bytes = declaredLength (N.contents g).bytes
      rw [← first.lengths,← second.lengths,same]
    refine ⟨Except.ok.inj versioned,?_⟩
    rw [firstSpelled,secondSpelled,Except.ok.inj namespaced,Except.ok.inj served,Except.ok.inj called,declared,same]
    simp only [List.append_assoc]
    rw [List.drop_left' (bigEndian_length _ _),List.drop_left' (bigEndian_length _ _)]
  · rintro ⟨versioned,rest⟩
    refine ⟨?_,?_,?_,?_,p,q,firstCut,secondCut,?_⟩
    · rw [first.version,second.version,versioned]
    · rw [namespaceId_exact (by omega),namespaceId_exact (by omega),field_later rest (by omega)]
    · rw [serviceId_exact (by omega),serviceId_exact (by omega),field_later rest (by omega)]
    · rw [methodId_exact (by omega),methodId_exact (by omega),field_later rest (by omega)]
    · rw [firstPart,secondPart,drop_later rest (by omega)]

theorem version_read (formed : WellFormed f) : VersionRead f ↔ (versionField f).toNat < 0x8000 := by
  constructor
  · rintro ⟨unsigned,_⟩
    rw [formed.version] at unsigned
    exact (unsigned_exact _).mp (Except.ok.inj unsigned)
  · intro low
    have exact := (unsigned_exact _).mpr low
    refine ⟨by rw [formed.version,exact],?_⟩
    intro one
    rw [formed.version,exact] at one
    have read := congrArg BitVec.toNat (Except.ok.inj one)
    rw [BitVec.toNat_setWidth] at read
    apply BitVec.eq_of_toNat_eq
    change (versionField f).toNat % 2 ^ 32 = 1 at read
    change (versionField f).toNat = 1
    omega

-- Two frames are told apart, and their versions read, exactly while neither
-- version field reaches 0x8000.
theorem unambiguous_iff (f g : N.ByteBuf) (first : WellFormed f) (second : WellFormed g) :
    Unambiguous f g ↔ (versionField f).toNat < 0x8000 ∧ (versionField g).toNat < 0x8000 := by
  constructor
  · rintro ⟨_,left,right⟩
    exact ⟨(version_read first).mp left,(version_read second).mp right⟩
  · rintro ⟨left,right⟩
    refine ⟨?_,(version_read first).mpr left,(version_read second).mpr right⟩
    intro agree
    obtain ⟨versioned,rest⟩ := (agree_exact first second).mp agree
    rw [(unsigned_exact _).mpr left,(unsigned_exact _).mpr right] at versioned
    have field : versionField f = versionField g := by
      apply BitVec.eq_of_toNat_eq
      have wide := congrArg BitVec.toNat versioned
      rw [BitVec.toNat_setWidth,BitVec.toNat_setWidth] at wide
      omega
    have start : shortAt (N.contents f).bytes 0 = shortAt (N.contents g).bytes 0 := field
    have firstHeader : 18 ≤ (N.contents f).bytes.length := first.header
    have secondHeader : 18 ≤ (N.contents g).bytes.length := second.header
    rw [← List.take_append_drop 2 (N.contents f).bytes,← List.take_append_drop 2 (N.contents g).bytes,
      ← short_spelled _ (by omega),← short_spelled _ (by omega),start,rest]

end Pairs

-- Two calls of one service, with metadata of different lengths.
def firstFrame : Heap.Buf := ⟨.full (frame 5 9 (-7) [1,2]),by simp [Buffer.full]⟩
def secondFrame : Heap.Buf := ⟨.full (frame 5 9 12 [3]),by simp [Buffer.full]⟩

theorem unambiguous_iff_calls : Unambiguous (N := Heap.netty) firstFrame secondFrame ↔
    (versionField (N := Heap.netty) firstFrame).toNat < 0x8000 ∧ (versionField (N := Heap.netty) secondFrame).toNat < 0x8000 :=
  unambiguous_iff (N := Heap.netty) firstFrame secondFrame ⟨by decide,by decide⟩ ⟨by decide,by decide⟩

def versionedFrame (high : UInt8) : Heap.Buf :=
  ⟨.full (high :: 1 :: List.replicate 16 0),by simp [Buffer.full]⟩

theorem high_version_ambiguous :
    ¬ ∀ (N : Netty) (f g : N.ByteBuf), WellFormed f → WellFormed g → Unambiguous f g := by
  intro every
  obtain ⟨determined,_,_⟩ := every Heap.netty (versionedFrame 0x80) (versionedFrame 0)
    ⟨by decide,by decide⟩ ⟨by decide,by decide⟩
  have agree := (agree_exact (N := Heap.netty) (f := versionedFrame 0x80) (g := versionedFrame 0)
    ⟨by decide,by decide⟩ ⟨by decide,by decide⟩).mpr ⟨by decide,rfl⟩
  exact absurd (determined agree) (by decide)

end Proteus.ProteusMetadata
