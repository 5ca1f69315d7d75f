import Proteus.ClientCalls
import Proteus.GeneratedServer

namespace Proteus.GeneratedServer
open JavaGenerator
variable {N : Netty} {Message : Type}

def Publisher.reads (publisher : Publisher Message) : Nat := publisher.signals.countP fun signal => signal matches .read

theorem signals_faults (signals : List (Signal Message)) (s : Serving N Message) (freed : s.refCnt = 0) :
    (signals.foldl (fun s signal => if signal matches .read then s.read else s) s).faults =
      s.faults + signals.countP fun signal => signal matches .read := by
  induction signals generalizing s with
  | nil => rfl
  | cons signal signals ih =>
    cases signal with
    | item message => simpa using ih s freed
    | read =>
      have next := ih s.read (by rw [read_refCnt,freed])
      rw [read_freed s freed] at next
      simpa [Nat.add_assoc,Nat.add_comm 1] using next

-- Once the payload is released, every read of the returned publisher is a fault.
theorem run_faults (publisher : Publisher Message) (s : Serving N Message) (freed : s.refCnt = 0) :
    ((Published.service publisher).run s).faults = s.faults + publisher.reads := signals_faults publisher.signals s freed

theorem operators_run (kind : Single) (c : Case) (source : Published Message) (s : Serving N Message) :
    (kind.operators c source).run s = source.run s := by cases kind <;> rfl

theorem reads_zero (publisher : Publisher Message) : publisher.reads = 0 ↔ Signal.read ∉ publisher.signals := by
  rw [Publisher.reads,List.countP_eq_zero]
  constructor
  · intro none present
    exact none .read present rfl
  · intro absent signal present
    cases signal with
    | read => exact absurd present absent
    | item message => simp

-- A handler returns; it faults nowhere itself, and what it returns is an error or
-- the publisher of the method that the frame is for.
theorem single_cases (P : Protobuf N) {descriptor : ServiceDescriptor} (service : Implementation N P.MessageLite)
    (compiles : Compiles descriptor) (kind : Single) (payload : Payload) :
    ∃ published t, single P (PrintInterface descriptor) (PrintServer descriptor) service kind payload .entry = .ok published t ∧
      t.faults = 0 ∧
      ((∃ thrown, published = .error thrown) ∨
        ∃ method ∈ descriptor.methods, ∃ message publisher, (clientMethod method).interaction = kind.interaction ∧
          ProteusMetadata.methodId N (payload.sliceMetadata N) = .ok (MethodId method) ∧
          P.parseFrom method.input_type payload.data = .ok message ∧
          (service ⟨LowerMethodName method,.message message,payload.sliceMetadata N⟩).returned = .ok publisher ∧
          published = kind.operators (unaryCase method) (.service publisher)) := by
  obtain ⟨published,t,ran,handled⟩ := single_handled P service (PrintInterface descriptor) (PrintServer descriptor) kind payload
  cases handled with
  | absent empty => exact ⟨_,_,ran,rfl,.inl ⟨_,rfl⟩⟩
  | failed nonempty => exact ⟨_,_,ran,rfl,.inl ⟨_,rfl⟩⟩
  | called called chosen parsed =>
    obtain ⟨method,member,served,rfl,equal⟩ := select_found compiles.fields chosen
    rw [caseOf_single] at equal
    cases equal
    refine ⟨_,_,ran,rfl,?_⟩
    cases returned : (service ⟨LowerMethodName method,.message _,payload.sliceMetadata N⟩).returned with
    | error thrown =>
      refine .inl ⟨thrown,?_⟩
      rw [show (unaryCase method).lower_method_name = LowerMethodName method from rfl,returned]
      rfl
    | ok publisher =>
      refine .inr ⟨method,member,_,publisher,served,called,parsed,returned,?_⟩
      rw [show (unaryCase method).lower_method_name = LowerMethodName method from rfl,returned]
      rfl

-- A handled payload none of whose slices is read after its last reference went:
-- neither by the handler and the method it calls, nor by the publisher it returns.
def Readable (P : Protobuf N) (descriptor : ServiceDescriptor) (service : Implementation N P.MessageLite) (kind : Single)
    (payload : Payload) : Prop :=
  ∃ published t, single P (PrintInterface descriptor) (PrintServer descriptor) service kind payload .entry = .ok published t ∧
    (published.run t).faults = 0

-- The finally block runs before anyone can subscribe, so exactly the reads that
-- a method leaves to its publisher come too late.
theorem metadata_readable_iff (P : Protobuf N) {descriptor : ServiceDescriptor} (compiles : Compiles descriptor)
    (service : Implementation N P.MessageLite) (kind : Single) (payload : Payload) :
    Readable P descriptor service kind payload ↔
      ∀ method ∈ descriptor.methods, (clientMethod method).interaction = kind.interaction →
        ProteusMetadata.methodId N (payload.sliceMetadata N) = .ok (MethodId method) →
        ∀ message publisher, P.parseFrom method.input_type payload.data = .ok message →
          (service ⟨LowerMethodName method,.message message,payload.sliceMetadata N⟩).returned = .ok publisher →
          Signal.read ∉ publisher.signals := by
  constructor
  · intro readable method member served called message publisher parsed returned
    obtain ⟨published,t,answer,faultless⟩ := readable
    have exact := single_called P service compiles member kind served payload called parsed .entry Nat.one_ne_zero
    rw [answer,returned] at exact
    cases exact
    rw [answered,operators_run,run_faults _ _ rfl] at faultless
    exact (reads_zero publisher).mp (Nat.add_eq_zero_iff.mp faultless).2
  · intro unread
    obtain ⟨published,t,answer,clean,outcome⟩ := single_cases P service compiles kind payload
    refine ⟨published,t,answer,?_⟩
    rcases outcome with ⟨thrown,rfl⟩ | ⟨method,member,message,publisher,served,called,parsed,returned,rfl⟩
    · exact clean
    · have none := unread method member served called message publisher parsed returned
      have released : t.refCnt = 0 := by
        have exact := single_called P service compiles member kind served payload called parsed .entry Nat.one_ne_zero
        rw [answer] at exact
        rw [(EStateM.Result.ok.inj exact).2]
        rfl
      rw [operators_run,run_faults _ _ released,clean,(reads_zero publisher).mpr none]

def unaryPayload : Payload :=
  GeneratedClient.sent (Heap.protobuf (TestService.message "SimpleRequest" 1)) (PrintInterface TestService.descriptor)
    (PrintClient TestService.descriptor) (clientMethod TestService.UnaryCall) GeneratedClient.hello

-- One implementation reads its metadata when it is invoked, the other when the
-- publisher it returned is subscribed to.
def eager : Implementation Heap.netty Bytes := fun _ => ⟨1,.ok ⟨[.item GeneratedClient.hello],none⟩⟩

def deferred : Implementation Heap.netty Bytes := fun _ => ⟨0,.ok ⟨[.read,.item GeneratedClient.hello],none⟩⟩

theorem metadata_readable_iff_eager :
    Readable (Heap.protobuf (TestService.message "SimpleRequest" 1)) TestService.descriptor eager .requestResponse unaryPayload := by
  refine (metadata_readable_iff (Heap.protobuf (TestService.message "SimpleRequest" 1)) TestService.compiles eager
    .requestResponse unaryPayload).mpr ?_
  intro method _ _ _ message publisher _ returned
  cases returned
  intro present
  cases present with
  | tail _ later => cases later

theorem deferred_read_faults : ¬ Readable (Heap.protobuf (TestService.message "SimpleRequest" 1)) TestService.descriptor
    deferred .requestResponse unaryPayload := by
  intro readable
  obtain ⟨published,t,answer,faultless⟩ := readable
  have called : ProteusMetadata.methodId Heap.netty (unaryPayload.sliceMetadata Heap.netty) =
      .ok (MethodId TestService.UnaryCall) :=
    (GeneratedClient.header_decodes Heap.netty TestService.compiles.fields (by decide)).called
  have exact := single_called (Heap.protobuf (TestService.message "SimpleRequest" 1)) deferred TestService.compiles
    (show TestService.UnaryCall ∈ TestService.descriptor.methods by decide) .requestResponse (by decide) unaryPayload called
    rfl .entry Nat.one_ne_zero
  rw [answer] at exact
  obtain ⟨first,second⟩ := EStateM.Result.ok.inj exact
  rw [first,second] at faultless
  cases faultless

end Proteus.GeneratedServer
