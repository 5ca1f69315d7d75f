import Proteus.RouterRuns
import Proteus.ServerReferences

namespace Proteus.RequestHandlingRSocket
open JavaGenerator GeneratedServer Stateful BiInt2ObjectMap Execution
variable {N : Netty} {Thread : Type}

-- The generated servers as registered services, each around its implementation.
def generated (P : Protobuf N) (implementation : ServiceDescriptor → Implementation N P.MessageLite) :
    ProteusService N P.MessageLite ServiceDescriptor where
  getNamespaceId := fun d => (PrintInterface d).value (PrintServer d).namespace_id_name
  getServiceId := fun d => (PrintInterface d).value (PrintServer d).service_id_name
  fireAndForget := fun d => GeneratedServer.fireAndForget P (PrintInterface d) (PrintServer d) (implementation d)
  requestResponse := fun d => GeneratedServer.requestResponse P (PrintInterface d) (PrintServer d) (implementation d)
  requestStream := fun d => GeneratedServer.requestStream P (PrintInterface d) (PrintServer d) (implementation d)
  requestChannel := fun d => GeneratedServer.requestChannel P (PrintInterface d) (PrintServer d) (implementation d)

def pairOf (d : ServiceDescriptor) : JInt × JInt := (NamespaceId d,ServiceId d)

section Generated
variable (P : Protobuf N) (implementation : ServiceDescriptor → Implementation N P.MessageLite)

theorem generated_pair (d : ServiceDescriptor) :
    ((generated P implementation).getNamespaceId d,(generated P implementation).getServiceId d) = pairOf d := by
  have namespaceId := congrArg (Option.getD · 0) (namespace_constant d)
  have serviceId := congrArg (Option.getD · 0) (service_constant d)
  exact congr (congrArg Prod.mk namespaceId) serviceId

theorem generated_hand (d : ServiceDescriptor) (request : Request) (kind : Single)
    (used : request.interaction = kind.interaction) : (generated P implementation).hand request d =
      single P (PrintInterface d) (PrintServer d) (implementation d) kind request.payload := by
  cases kind <;> simp only [ProteusService.hand,used,Single.interaction] <;> rfl

theorem latest_some {pair : JInt × JInt} : latest (generated P implementation) registered pair = some d ↔
    ∃ before later, registered = before ++ d :: later ∧ pairOf d = pair ∧ ∀ e ∈ later, pairOf e ≠ pair := by
  rw [latest,List.find?_eq_some_iff_append]
  simp only [generated_pair,decide_eq_true_eq]
  constructor
  · rintro ⟨same,later,before,parts,apart⟩
    refine ⟨before.reverse,later.reverse,?_,same,?_⟩
    · rw [← List.reverse_reverse registered,parts]
      simp
    · intro e listed equal
      simpa [equal] using apart e (List.mem_reverse.mp listed)
  · rintro ⟨before,later,rfl,same,apart⟩
    refine ⟨same,later.reverse,before.reverse,by simp,?_⟩
    intro e listed
    simpa using apart e (List.mem_reverse.mp listed)

theorem latest_member (registered : List ServiceDescriptor) (member : d ∈ registered) :
    ∃ server, latest (generated P implementation) registered (pairOf d) = some server := by
  apply Option.isSome_iff_exists.mp
  rw [latest,List.find?_isSome]
  exact ⟨d,List.mem_reverse.mpr member,by rw [generated_pair]; exact decide_eq_true rfl⟩

variable {P implementation} [DecidableEq Thread]

-- A request for a registered service goes to the last one registered under the
-- same two hashes: its own server where no other service shares them.
theorem last_registered_serves {T : SwitchTransform N P.MessageLite} (constructed : Constructed (generated P implementation) services m)
    (path : Runs (Step (generated P implementation) T) (⟨m,services,fun _ => .idle⟩ : Router ServiceDescriptor Thread) trace r)
    (listed : .answered t request since seen answer ∈ trace) (member : d ∈ seen)
    (framed : request.payload.getMetadata.val = ProteusMetadata.frame (NamespaceId d) (ServiceId d) method data) :
    ∃ before server later, seen = before ++ server :: later ∧ pairOf server = pairOf d ∧
      (∀ e ∈ later, pairOf e ≠ pairOf d) ∧ answer = rescued ((generated P implementation).hand request server) .error ∧
      ((∀ e ∈ seen, pairOf e = pairOf d → e = d) → server = d) := by
  obtain ⟨_,answered,_⟩ := run_answers constructed path
  obtain ⟨deserved,_⟩ := answered _ listed
  obtain ⟨server,current⟩ := latest_member P implementation seen member
  obtain ⟨before,later,parts,paired,apart⟩ := (latest_some P implementation).mp current
  have long : 10 ≤ request.payload.getMetadata.val.length := by rw [framed,ProteusMetadata.frame_length]; omega
  obtain ⟨spaced,served,_⟩ := ProteusMetadata.frame_fields [] (framed.trans (List.append_nil _).symm)
  refine ⟨before,server,later,parts,paired,apart,?_,?_⟩
  · rw [Deserved,if_pos long,spaced,served] at deserved
    have current : latest (generated P implementation) seen (NamespaceId d,ServiceId d) = some server := current
    rw [current] at deserved
    exact deserved
  · intro alone
    exact alone server (by rw [parts]; simp) paired

end Generated

def plain : Protobuf Heap.netty := Heap.protobuf (TestService.message "SimpleRequest" 1)

def quiet : ServiceDescriptor → Implementation Heap.netty plain.MessageLite := fun _ _ => ⟨0,.ok ⟨[],none⟩⟩

-- A call of unaryCall as its client sends it.
def unaryRequest : Request := ⟨.requestResponse,unaryPayload,[],none⟩

-- Two services of one package whose names have one hash.
def pour : MethodDescriptor := ⟨literal "Pour",literal "io.netifi.testing.liquid.Pour",TestService.message "SimpleRequest" 1,
  TestService.message "SimpleResponse" 1,false,false⟩

def liquid : ServiceDescriptor := ⟨literal "liquid",literal "io.netifi.testing",[pour]⟩
def costarring : ServiceDescriptor := ⟨literal "costarring",literal "io.netifi.testing",[]⟩

theorem last_registered_serves_unary :
    ∃ (m : BiInt2ObjectMap ServiceDescriptor) (r : Router ServiceDescriptor Nat)
        (answer : Handling Heap.netty plain.MessageLite (Published plain.MessageLite)),
      Runs (Step (generated plain quiet) (immediate Heap.netty plain.MessageLite)) ⟨m,[TestService.descriptor,liquid],fun _ => .idle⟩
        [.received 0 unaryRequest,.looked 0,
          .answered 0 unaryRequest [TestService.descriptor,liquid] [TestService.descriptor,liquid] answer] r ∧
      answer = rescued ((generated plain quiet).hand unaryRequest TestService.descriptor) .error := by
  obtain ⟨m,constructed,_⟩ := constructs (generated plain quiet) [TestService.descriptor,liquid] (by decide)
  obtain ⟨r,path⟩ := request_run (immediate Heap.netty plain.MessageLite) constructed 0 unaryRequest (by decide +kernel)
  have framed : unaryRequest.payload.getMetadata.val = ProteusMetadata.frame (NamespaceId TestService.descriptor)
    (ServiceId TestService.descriptor) (MethodId TestService.UnaryCall) [] := by decide +kernel
  have apart : pairOf liquid ≠ pairOf TestService.descriptor := by decide +kernel
  have alone : ∀ e ∈ [TestService.descriptor,liquid], pairOf e = pairOf TestService.descriptor → e = TestService.descriptor := by
    simp [apart]
  obtain ⟨_,server,_,_,_,_,handed,own⟩ := last_registered_serves constructed path (List.mem_of_getElem? (i := 2) rfl)
    (List.mem_cons_self ..) framed
  rw [own alone] at handed
  exact ⟨m,r,_,path,handed⟩

theorem liquid_compiles : Compiles liquid := ⟨by decide,by decide,fun interaction => by cases interaction <;> decide +kernel⟩

def pourFrame : Bytes :=
  ⟨ProteusMetadata.frame (NamespaceId liquid) (ServiceId liquid) (MethodId pour) [],by decide +kernel⟩

def pourRequest : Request := ⟨.requestResponse,⟨.empty,some pourFrame⟩,[],none⟩

theorem later_collision_serves : ¬ ∀ (services : List ServiceDescriptor) (m : BiInt2ObjectMap ServiceDescriptor)
    (trace : List (Label Heap.netty plain.MessageLite ServiceDescriptor Nat)) (r : Router ServiceDescriptor Nat),
    Constructed (generated plain quiet) services m →
    Runs (Step (generated plain quiet) (immediate Heap.netty plain.MessageLite)) ⟨m,services,fun _ => .idle⟩ trace r →
    (r.registered.map fun d => (d.package,d.name)).Nodup →
    ∀ t request since seen answer, .answered t request since seen answer ∈ trace → ∀ d ∈ seen, ∀ method data,
      request.payload.getMetadata.val = ProteusMetadata.frame (NamespaceId d) (ServiceId d) method data →
      answer = rescued ((generated plain quiet).hand request d) .error := by
  intro isolated
  obtain ⟨m,constructed,_⟩ := constructs (generated plain quiet) [liquid,costarring] (by decide)
  obtain ⟨r,path⟩ := request_run (immediate Heap.netty plain.MessageLite) constructed 0 pourRequest (by decide +kernel)
  obtain ⟨_,answered,history⟩ := run_answers constructed path
  have distinct : (r.registered.map fun d => (d.package,d.name)).Nodup := by rw [history]; decide +kernel
  have own := isolated _ m _ r constructed path distinct 0 pourRequest _ _ _ (List.mem_of_getElem? (i := 2) rfl) liquid
    (by simp) _ [] rfl
  have current : latest (generated plain quiet) [liquid,costarring] (intAt pourRequest.payload.getMetadata.val 2,
    intAt pourRequest.payload.getMetadata.val 6) = some costarring := by decide +kernel
  rw [handle_exact,ids_read Heap.netty pourRequest.payload (by decide +kernel)] at own
  dsimp only at own
  rw [current] at own
  -- The server of costarring does not know the method, that of liquid calls it.
  have called : ProteusMetadata.methodId Heap.netty (pourRequest.payload.sliceMetadata Heap.netty) =
    .ok (MethodId pour) := by decide +kernel
  have served := single_called plain (quiet liquid) liquid_compiles (List.mem_singleton_self pour) .requestResponse (by decide)
    pourRequest.payload called rfl .entry Nat.one_ne_zero
  obtain ⟨text,t,missed,_⟩ := unary_missed plain (quiet costarring) (PrintInterface costarring)
    ((PrintServer costarring).cases Single.requestResponse.interaction) Single.requestResponse.absent Single.requestResponse.operators
    pourRequest.payload called (by decide +kernel) .entry Nat.one_ne_zero
  have own := congrFun own .entry
  dsimp only at own
  rw [rescued_run,rescued_run,generated_hand plain quiet liquid pourRequest .requestResponse rfl,served,
    generated_hand plain quiet costarring pourRequest .requestResponse rfl,single_unary,missed] at own
  cases own

end Proteus.RequestHandlingRSocket
