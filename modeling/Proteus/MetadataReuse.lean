import Proteus.ClientCalls

namespace Proteus.MetadataReuse
open ByteBuffer JavaGenerator GeneratedClient ProteusMetadata
variable {N : Netty}

def encodeAll (N : Netty) (namespaceId serviceId methodId : JInt) : List N.ByteBuf → N.ByteBuf →
    Except Throwable (List N.ByteBuf × N.ByteBuf)
  | [],metadata => .ok ([],metadata)
  | target :: targets,metadata => do
    let encoded ← encode N target namespaceId serviceId methodId metadata
    let (frames,metadata) ← encodeAll N namespaceId serviceId methodId targets encoded.metadata
    return (encoded.byteBuf :: frames,metadata)

-- Every subscription to the publisher of one call builds its request anew, from
-- the buffer that the call closed over.
def subscribe (P : Protobuf N) (service : ServiceDescriptor) (method : MethodDescriptor) (argument : Argument P.MessageLite) :
    Nat → Resources N → List (Flux Payload) × Resources N
  | 0,r => ([],r)
  | k+1,r =>
    let (payloads,r) := request P service method r argument
    let (rest,r) := subscribe P service method argument k r
    (payloads :: rest,r)

structure Undisturbed (N : Netty) (namespaceId serviceId methodId : JInt) (targets : List N.ByteBuf) (metadata : N.ByteBuf) :
    Prop where
  encoded : ∃ frames after, encodeAll N namespaceId serviceId methodId targets metadata = .ok (frames,after) ∧
    (∀ f ∈ frames, ∀ g ∈ frames, N.readable f = N.readable g) ∧
    (N.contents after).readerIndex = (N.contents metadata).readerIndex ∧ N.readable after = N.readable metadata
  resent : ∀ (P : Protobuf N) (service : ServiceDescriptor) (method : MethodDescriptor) (argument : Argument P.MessageLite)
    (outstanding k : Nat), ∀ payloads ∈ (subscribe P service method argument k ⟨metadata,outstanding⟩).1,
      payloads = (request P service method ⟨metadata,outstanding⟩ argument).1

structure Fresh (N : Netty) (length : Nat) (target : N.ByteBuf) : Prop where
  unread : (N.contents target).readerIndex = 0
  fits : 18 + length ≤ N.capacity target

theorem consumed_nothing {b : Buffer} (nothing : b.readable = []) : b.consumed = b := by
  have ordered := b.ordered
  have length := b.readable_length
  rw [nothing,List.length_nil] at length
  have same : b.readerIndex = b.writerIndex := by omega
  cases b
  simp only [Buffer.consumed,Buffer.mk.injEq,true_and,and_true] at same ⊢
  exact same.symm

theorem readable_consumed (b : Buffer) : b.consumed.readable = [] := by simp [Buffer.readable,Buffer.consumed]

theorem encode_frame {length : Nat} {target metadata : N.ByteBuf} (a b c : JInt) (fresh : Fresh N length target)
    (held : (N.readable metadata).length ≤ length) : ∃ encoded, encode N target a b c metadata = .ok encoded ∧
      N.readable encoded.byteBuf = frame a b c (N.readable metadata) ∧
      N.contents encoded.metadata = (N.contents metadata).consumed := by
  have fits := fresh.fits
  obtain ⟨encoded,done,offset,⟨rest,bytes,_,reader⟩,writer,emptied⟩ := encode_writes target metadata a b c (by omega)
    (by rw [fresh.unread]; exact Nat.zero_le _)
  refine ⟨encoded,done,?_,emptied⟩
  have end_ : (N.contents encoded.byteBuf).writerIndex = (frame a b c (N.readable metadata)).length := by
    rw [frame_length]
    omega
  rw [Netty.readable,Buffer.readable,reader,fresh.unread,end_,bytes,List.drop_zero,Nat.sub_zero,List.take_left]

theorem encodeAll_exact (a b c : JInt) (targets : List N.ByteBuf) (metadata : N.ByteBuf) (nothing : N.readable metadata = [])
    (fresh : ∀ target ∈ targets, ∃ length, Fresh N length target) :
    ∃ frames after, encodeAll N a b c targets metadata = .ok (frames,after) ∧
      (∀ f ∈ frames, N.readable f = frame a b c []) ∧ N.contents after = N.contents metadata := by
  induction targets generalizing metadata with
  | nil => exact ⟨[],metadata,rfl,by simp,rfl⟩
  | cons target targets ih =>
    obtain ⟨length,ready⟩ := fresh target (List.mem_cons_self ..)
    have unneeded : (N.readable metadata).length ≤ length := by rw [nothing]; exact Nat.zero_le _
    obtain ⟨encoded,done,written,emptied⟩ := encode_frame a b c ready unneeded
    have kept := emptied.trans (consumed_nothing nothing)
    have empty : N.readable encoded.metadata = [] := by rw [Netty.readable,kept]; exact nothing
    obtain ⟨frames,after,rest,same,last⟩ := ih encoded.metadata empty fun t listed => fresh t (List.mem_cons_of_mem _ listed)
    refine ⟨encoded.byteBuf :: frames,after,?_,?_,last.trans kept⟩
    · simp only [encodeAll,done,ok_bind,rest]
      rfl
    · intro f listed
      rcases List.mem_cons.mp listed with rfl | later
      · rw [written,nothing]
      · exact same f later

theorem mapped_drained (P : Protobuf N) (i : Interface) (client : Client) (method : ClientMethod) (failure : Option Throwable)
    (messages : List P.MessageLite) (r : Resources N) (nothing : N.readable r.metadata = []) :
    N.readable (mapped (apply P i client method) failure false r messages).2.metadata = [] := by
  induction messages generalizing r with
  | nil => exact nothing
  | cons message messages ih =>
    obtain ⟨drained,applied,empty⟩ := apply_exact P i client method message r nothing
    simp only [mapped,applied]
    exact ih ⟨drained,r.outstanding + 2⟩ empty

theorem request_drained (P : Protobuf N) (service : ServiceDescriptor) (method : MethodDescriptor)
    (argument : Argument P.MessageLite) (r : Resources N) (nothing : N.readable r.metadata = []) :
    N.readable (request P service method r argument).2.metadata = [] := by
  cases argument with
  | message message =>
    obtain ⟨drained,supplied,empty⟩ := supply_exact P (PrintInterface service) (PrintClient service) (clientMethod method)
      message r nothing
    simp only [request,call,supplied]
    exact empty
  | messages messages => exact mapped_drained P _ _ _ messages.failure messages.items r nothing

theorem subscribe_same (P : Protobuf N) (service : ServiceDescriptor) (method : MethodDescriptor)
    (argument : Argument P.MessageLite) (k : Nat) (r s : Resources N) (nothing : N.readable r.metadata = [])
    (empty : N.readable s.metadata = []) : ∀ payloads ∈ (subscribe P service method argument k r).1,
      payloads = (request P service method s argument).1 := by
  induction k generalizing r with
  | zero => simp [subscribe]
  | succ k ih =>
    intro payloads listed
    have parts : payloads = (request P service method r argument).1 ∨
        payloads ∈ (subscribe P service method argument k (request P service method r argument).2).1 := List.mem_cons.mp listed
    rcases parts with first | later
    · rw [first,request_exact P service method r nothing,request_exact P service method s empty]
    · exact ih _ (request_drained P service method argument r nothing) payloads later

-- Only empty metadata can be encoded without being used up.
theorem undisturbed_iff (a b c : JInt) (targets : List N.ByteBuf) (metadata : N.ByteBuf) (some_ : targets ≠ [])
    (fresh : ∀ target ∈ targets, Fresh N (N.readable metadata).length target) :
    Undisturbed N a b c targets metadata ↔ N.readable metadata = [] := by
  constructor
  · rintro ⟨⟨frames,after,ran,_,_,kept⟩,_⟩
    cases targets with
    | nil => exact absurd rfl some_
    | cons target targets =>
      obtain ⟨encoded,done,_,emptied⟩ := encode_frame a b c (fresh target (List.mem_cons_self ..)) (Nat.le_refl _)
      have drained : N.readable encoded.metadata = [] := by rw [Netty.readable,emptied,readable_consumed]
      obtain ⟨rest,last,later,_,same⟩ := encodeAll_exact a b c targets encoded.metadata drained
        fun t listed => ⟨_,fresh t (List.mem_cons_of_mem _ listed)⟩
      simp only [encodeAll,done,ok_bind,later] at ran
      cases ran
      rw [← kept,Netty.readable,same]
      exact drained
  · intro nothing
    obtain ⟨frames,after,ran,written,same⟩ := encodeAll_exact a b c targets metadata nothing
      fun t listed => ⟨_,fresh t listed⟩
    refine ⟨⟨frames,after,ran,?_,by rw [same],by rw [Netty.readable,same,Netty.readable]⟩,?_⟩
    · intro f first g second
      rw [written f first,written g second]
    · intro P service method argument outstanding k
      exact subscribe_same P service method argument k ⟨metadata,outstanding⟩ ⟨metadata,outstanding⟩ nothing nothing

def target : Heap.Buf := ⟨.blank (List.replicate 20 0),by simp [Buffer.blank]⟩

def twoBytes : Heap.Buf := ⟨.full [8,9],by simp [Buffer.full]⟩

theorem target_fresh : Fresh Heap.netty (Heap.netty.readable twoBytes).length target := ⟨rfl,by decide⟩

theorem targets_fresh : ∀ t ∈ [target,target], Fresh Heap.netty (Heap.netty.readable twoBytes).length t := by
  intro t listed
  rcases List.mem_cons.mp listed with rfl | later
  · exact target_fresh
  · cases List.mem_singleton.mp later
    exact target_fresh

theorem undisturbed_iff_twice : Undisturbed Heap.netty 1 2 3 [target,target] twoBytes ↔ Heap.netty.readable twoBytes = [] :=
  undisturbed_iff (N := Heap.netty) 1 2 3 [target,target] twoBytes (by simp) targets_fresh

theorem two_bytes_disturbed : ¬ ∀ (N : Netty) (a b c : JInt) (targets : List N.ByteBuf) (metadata : N.ByteBuf), targets ≠ [] →
    (∀ target ∈ targets, Fresh N (N.readable metadata).length target) → Undisturbed N a b c targets metadata := by
  intro every
  obtain ⟨⟨frames,after,ran,same,_⟩,_⟩ := every Heap.netty 1 2 3 [target,target] twoBytes (by simp) targets_fresh
  obtain ⟨first,done,written,emptied⟩ := encode_frame 1 2 3 target_fresh (Nat.le_refl _)
  have drained : Heap.netty.readable first.metadata = [] := by rw [Netty.readable,emptied,readable_consumed]
  obtain ⟨second,again,rewritten,_⟩ := encode_frame 1 2 3 target_fresh
    (by rw [drained]; exact Nat.zero_le _)
  simp only [encodeAll,done,ok_bind,again] at ran
  cases ran
  have equal := congrArg List.length (same first.byteBuf (by simp) second.byteBuf (by simp))
  rw [written,rewritten,drained,frame_length,frame_length] at equal
  exact absurd equal (by decide)

end Proteus.MetadataReuse
