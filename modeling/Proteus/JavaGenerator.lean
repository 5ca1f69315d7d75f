import Proteus.Hashing
import Mathlib.Data.List.Nodup

namespace Proteus.JavaGenerator

-- A std::string is its bytes.
abbrev CString := List UInt8

def literal (text : String) : CString := text.toList.map fun c => UInt8.ofNat c.toNat

-- The part of a protobuf message type that the templates look at.
structure Descriptor where
  full_name : CString
  field_count : Nat
  deriving DecidableEq

structure MethodDescriptor where
  name : CString
  full_name : CString
  input_type : Descriptor
  output_type : Descriptor
  client_streaming : Bool
  server_streaming : Bool
  deriving DecidableEq

-- The package is the one of the service's file.
structure ServiceDescriptor where
  name : CString
  package : CString
  methods : List MethodDescriptor
  deriving DecidableEq

def Prime : JInt := 0x01000193#32
def Seed : JInt := 0x811C9DC5#32

-- The loop reads unsigned bytes up to the first NUL.
def hashFrom (hash : JInt) : CString → JInt
  | [] => hash
  | c :: word => if c = 0 then hash else hashFrom ((BitVec.ofNat 32 c.toNat ^^^ hash) * Prime) word

def Hash (word : CString) : JInt := hashFrom Seed word

def islower (c : UInt8) : Bool := 97 ≤ c && c ≤ 122
def isupper (c : UInt8) : Bool := 65 ≤ c && c ≤ 90
def tolower (c : UInt8) : UInt8 := if isupper c then c + 32 else c
def toupper (c : UInt8) : UInt8 := if islower c then c - 32 else c
def isdigit (c : UInt8) : Bool := 48 ≤ c && c ≤ 57

def underscore : UInt8 := 95

def mixedFrom (after_underscore : Bool) : CString → CString
  | [] => []
  | c :: word =>
    if c = underscore then mixedFrom true word
    else (if after_underscore then toupper c else c) :: mixedFrom false word

-- word[0] of an empty string is its terminating NUL.
def MixedLower (word : CString) : CString := tolower (word.headD 0) :: mixedFrom false word.tail

def ToAllUpperCase : CString → CString
  | [] => []
  | [c] => [toupper c]
  | c :: next :: word =>
    if islower c && isupper next then toupper c :: underscore :: ToAllUpperCase (next :: word)
    else toupper c :: ToAllUpperCase (next :: word)

def LowerMethodName (method : MethodDescriptor) : CString := MixedLower method.name

def MethodIdFieldName (method : MethodDescriptor) : CString := literal "METHOD_" ++ ToAllUpperCase method.name

def MethodId (method : MethodDescriptor) : JInt := Hash method.full_name

def ServiceIdFieldName : CString := literal "SERVICE_ID"

def ServiceId (service : ServiceDescriptor) : JInt := Hash service.name

def NamespaceIdFieldName : CString := literal "NAMESPACE_ID"

def NamespaceId (service : ServiceDescriptor) : JInt := Hash service.package

def ClientClassName (service : ServiceDescriptor) : CString := service.name ++ literal "Client"

def ServerClassName (service : ServiceDescriptor) : CString := service.name ++ literal "Server"

-- The generated interface: its int constants, in order, and its methods.
inductive ReturnType where
  | flux (output_type : Descriptor)
  | mono (output_type : Descriptor)
  | monoVoid
  deriving DecidableEq

structure Signature where
  returns : ReturnType
  lower_method_name : CString
  -- A publisher of input messages, or one message.
  streamed : Bool
  input_type : Descriptor
  deriving DecidableEq

structure Interface where
  service_name : CString
  constants : List (CString × JInt)
  methods : List Signature

def returnType (method : MethodDescriptor) : ReturnType :=
  if method.server_streaming then .flux method.output_type
  else if method.client_streaming then .mono method.output_type
  else if method.output_type.field_count > 0 then .mono method.output_type
  else .monoVoid

def signature (method : MethodDescriptor) : Signature :=
  ⟨returnType method,LowerMethodName method,method.client_streaming,method.input_type⟩

def PrintInterface (service : ServiceDescriptor) : Interface where
  service_name := service.name
  constants := (NamespaceIdFieldName,NamespaceId service) :: (ServiceIdFieldName,ServiceId service) ::
    service.methods.map fun method => (MethodIdFieldName method,MethodId method)
  methods := service.methods.map signature

-- What a reference to one of the interface's constants stands for.
def Interface.constant (i : Interface) (name : CString) : Option JInt := i.constants.lookup name

-- A reference to a name that is no constant would not compile.
def Interface.value (i : Interface) (name : CString) : JInt := (i.constant name).getD 0

inductive Interaction where
  | fireAndForget
  | requestResponse
  | requestStream
  | requestChannel
  deriving DecidableEq

-- A generated client method: the RSocket call it ends in, the parser its result
-- goes through, whether single() follows, and the metric field of its transform.
structure ClientMethod where
  signature : Signature
  method_id_name : CString
  interaction : Interaction
  deserializer : Option Descriptor
  single : Bool
  transform : CString
  deriving DecidableEq

structure Client where
  client_class_name : CString
  service_name : CString
  namespace_id_name : CString
  service_id_name : CString
  methods : List ClientMethod

def clientMethod (method : MethodDescriptor) : ClientMethod :=
  let body (interaction : Interaction) (deserializer : Option Descriptor) (single : Bool) : ClientMethod :=
    ⟨signature method,MethodIdFieldName method,interaction,deserializer,single,LowerMethodName method⟩
  if method.client_streaming then
    if method.server_streaming then body .requestChannel (some method.output_type) false
    else body .requestChannel (some method.output_type) true
  else if method.server_streaming then body .requestStream (some method.output_type) false
  else if method.output_type.field_count > 0 then body .requestResponse (some method.output_type) false
  else body .fireAndForget none false

def PrintClient (service : ServiceDescriptor) : Client where
  client_class_name := ClientClassName service
  service_name := service.name
  namespace_id_name := NamespaceIdFieldName
  service_id_name := ServiceIdFieldName
  methods := service.methods.map clientMethod

-- One case of a generated switch. Only channel cases may end in flux().
structure Case where
  method_id_name : CString
  lower_method_name : CString
  input_type : Descriptor
  flux : Bool
  deriving DecidableEq

structure Server where
  server_class_name : CString
  service_name : CString
  namespace_id_name : CString
  service_id_name : CString
  fire_and_forget : List Case
  request_response : List Case
  request_stream : List Case
  request_channel : List Case

structure Groups where
  fire_and_forget : List MethodDescriptor
  request_response : List MethodDescriptor
  request_stream : List MethodDescriptor
  request_channel : List MethodDescriptor

-- One round of the loop that sorts the methods into the four vectors.
def Groups.push (g : Groups) (method : MethodDescriptor) : Groups :=
  if method.client_streaming then {g with request_channel := g.request_channel ++ [method]}
  else if method.server_streaming then {g with request_stream := g.request_stream ++ [method]}
  else if method.output_type.field_count > 0 then {g with request_response := g.request_response ++ [method]}
  else {g with fire_and_forget := g.fire_and_forget ++ [method]}

def groups (service : ServiceDescriptor) : Groups := service.methods.foldl Groups.push ⟨[],[],[],[]⟩

def unaryCase (method : MethodDescriptor) : Case :=
  ⟨MethodIdFieldName method,LowerMethodName method,method.input_type,false⟩

def channelCase (method : MethodDescriptor) : Case :=
  ⟨MethodIdFieldName method,LowerMethodName method,method.input_type,!method.server_streaming⟩

def PrintServer (service : ServiceDescriptor) : Server where
  server_class_name := ServerClassName service
  service_name := service.name
  namespace_id_name := NamespaceIdFieldName
  service_id_name := ServiceIdFieldName
  fire_and_forget := (groups service).fire_and_forget.map unaryCase
  request_response := (groups service).request_response.map unaryCase
  request_stream := (groups service).request_stream.map unaryCase
  request_channel := (groups service).request_channel.map channelCase

-- The service of test.proto.
namespace TestService

def message (name : String) (fields : Nat) : Descriptor := ⟨literal "io.netifi.testing." ++ literal name,fields⟩

def rpc (name : String) (input_type output_type : Descriptor) (client_streaming server_streaming : Bool) : MethodDescriptor :=
  ⟨literal name,literal "io.netifi.testing.TestService." ++ literal name,input_type,output_type,client_streaming,
    server_streaming⟩

def UnaryCall : MethodDescriptor := rpc "UnaryCall" (message "SimpleRequest" 1) (message "SimpleResponse" 1) false false
def EmptyCall : MethodDescriptor := rpc "EmptyCall" (message "SimpleRequest" 1) (message "EmptyResponse" 0) false false
def StreamingOutputCall : MethodDescriptor :=
  rpc "StreamingOutputCall" (message "StreamingOutputCallRequest" 0) (message "StreamingOutputCallResponse" 0) false true
def StreamingInputCall : MethodDescriptor :=
  rpc "StreamingInputCall" (message "StreamingInputCallRequest" 0) (message "StreamingInputCallResponse" 0) true false
def FullBidiCall : MethodDescriptor :=
  rpc "FullBidiCall" (message "StreamingOutputCallRequest" 0) (message "StreamingOutputCallResponse" 0) true true
def HalfBidiCall : MethodDescriptor :=
  rpc "HalfBidiCall" (message "StreamingOutputCallRequest" 0) (message "StreamingOutputCallResponse" 0) true true

def descriptor : ServiceDescriptor where
  name := literal "TestService"
  package := literal "io.netifi.testing"
  methods := [UnaryCall,EmptyCall,StreamingOutputCall,StreamingInputCall,FullBidiCall,HalfBidiCall]

end TestService

example : (PrintInterface TestService.descriptor).constants = [
    (literal "NAMESPACE_ID",298608432),
    (literal "SERVICE_ID",-1674778812),
    (literal "METHOD_UNARY_CALL",648984984),
    (literal "METHOD_EMPTY_CALL",-185042726),
    (literal "METHOD_STREAMING_OUTPUT_CALL",1489645874),
    (literal "METHOD_STREAMING_INPUT_CALL",806065781),
    (literal "METHOD_FULL_BIDI_CALL",-1115099530),
    (literal "METHOD_HALF_BIDI_CALL",136391454)] := by decide +kernel

-- The same four lists by the interaction they serve.
def Groups.of (g : Groups) : Interaction → List MethodDescriptor
  | .fireAndForget => g.fire_and_forget
  | .requestResponse => g.request_response
  | .requestStream => g.request_stream
  | .requestChannel => g.request_channel

def Server.cases (server : Server) : Interaction → List Case
  | .fireAndForget => server.fire_and_forget
  | .requestResponse => server.request_response
  | .requestStream => server.request_stream
  | .requestChannel => server.request_channel

def caseOf (interaction : Interaction) (method : MethodDescriptor) : Case :=
  match interaction with
  | .requestChannel => channelCase method
  | _ => unaryCase method

theorem push_of (g : Groups) (method : MethodDescriptor) (interaction : Interaction) :
    (g.push method).of interaction =
      g.of interaction ++ if (clientMethod method).interaction = interaction then [method] else [] := by
  unfold Groups.push clientMethod
  split
  · split <;> cases interaction <;> simp [Groups.of]
  · split
    · cases interaction <;> simp [Groups.of]
    · split <;> cases interaction <;> simp [Groups.of]

-- The server sorts every method under the interaction its client uses.
theorem groups_exact (service : ServiceDescriptor) (interaction : Interaction) : (groups service).of interaction =
    service.methods.filter fun method => (clientMethod method).interaction = interaction := by
  have sorted (methods : List MethodDescriptor) (g : Groups) : (methods.foldl Groups.push g).of interaction =
      g.of interaction ++ methods.filter fun method => (clientMethod method).interaction = interaction := by
    induction methods generalizing g with
    | nil => simp
    | cons method rest ih =>
      rw [List.foldl_cons,ih,push_of,List.append_assoc,List.filter_cons]
      by_cases served : (clientMethod method).interaction = interaction <;> simp [served]
  have nothing : (⟨[],[],[],[]⟩ : Groups).of interaction = [] := by cases interaction <;> rfl
  rw [groups,sorted,nothing,List.nil_append]

theorem cases_exact (service : ServiceDescriptor) (interaction : Interaction) : (PrintServer service).cases interaction =
    (service.methods.filter fun method => (clientMethod method).interaction = interaction).map (caseOf interaction) := by
  rw [← groups_exact]
  cases interaction <;> rfl

-- The output compiles: what the generator derives from the method names is as
-- distinct as the names have to be in one Java class, and so are the labels of
-- each switch.
structure Compiles (service : ServiceDescriptor) : Prop where
  fields : (service.methods.map MethodIdFieldName).Nodup
  names : (service.methods.map LowerMethodName).Nodup
  labels : ∀ interaction,
    ((service.methods.filter fun method => (clientMethod method).interaction = interaction).map MethodId).Nodup

theorem TestService.compiles : Compiles TestService.descriptor :=
  ⟨by decide +kernel,by decide +kernel,fun interaction => by cases interaction <;> decide +kernel⟩

theorem lookup_exact [BEq α] [LawfulBEq α] {pairs : List (α × β)} (distinct : (pairs.map Prod.fst).Nodup)
    (present : (key,value) ∈ pairs) : pairs.lookup key = some value := by
  induction pairs with
  | nil => cases present
  | cons pair rest ih =>
    obtain ⟨k,v⟩ := pair
    obtain ⟨fresh,remaining⟩ := List.nodup_cons.mp distinct
    rcases List.mem_cons.mp present with same | later
    · cases same
      simp
    · have other : key ≠ k := by
        rintro rfl
        exact fresh (List.mem_map.mpr ⟨_,later,rfl⟩)
      rw [List.lookup_cons,beq_eq_false_iff_ne.mpr other]
      exact ih remaining later

theorem method_constant {service : ServiceDescriptor} (fields : (service.methods.map MethodIdFieldName).Nodup)
    (member : method ∈ service.methods) :
    (PrintInterface service).constant (MethodIdFieldName method) = some (MethodId method) := by
  have apart (name : CString) (head : name.head? = some 78 ∨ name.head? = some 83) : MethodIdFieldName method ≠ name := by
    intro equal
    have first : name.head? = some 77 := by rw [← equal]; rfl
    rcases head with head | head <;> rw [first] at head <;> exact absurd head (by decide)
  have constants : (PrintInterface service).constants = (NamespaceIdFieldName,NamespaceId service) ::
      (ServiceIdFieldName,ServiceId service) :: service.methods.map fun method => (MethodIdFieldName method,MethodId method) := rfl
  rw [Interface.constant,constants,List.lookup_cons,beq_eq_false_iff_ne.mpr (apart _ (.inl rfl)),
    List.lookup_cons,beq_eq_false_iff_ne.mpr (apart _ (.inr rfl))]
  refine lookup_exact ?_ (List.mem_map.mpr ⟨method,member,rfl⟩)
  rw [List.map_map]
  exact fields

theorem namespace_constant (service : ServiceDescriptor) :
    (PrintInterface service).constant NamespaceIdFieldName = some (NamespaceId service) := rfl

theorem service_constant (service : ServiceDescriptor) :
    (PrintInterface service).constant ServiceIdFieldName = some (ServiceId service) := rfl

def select (i : Interface) (cases : List Case) (id : JInt) : Option Case :=
  cases.find? fun c => i.constant c.method_id_name = some id

theorem select_found {service : ServiceDescriptor} {id : JInt} (fields : (service.methods.map MethodIdFieldName).Nodup)
    (chosen : select (PrintInterface service) ((PrintServer service).cases interaction) id = some c) :
    ∃ method ∈ service.methods, (clientMethod method).interaction = interaction ∧ MethodId method = id ∧
      c = caseOf interaction method := by
  have listed := List.mem_of_find?_eq_some chosen
  have labelled := List.find?_some chosen
  rw [cases_exact] at listed
  obtain ⟨method,grouped,rfl⟩ := List.mem_map.mp listed
  obtain ⟨member,served⟩ := List.mem_filter.mp grouped
  have name : (caseOf interaction method).method_id_name = MethodIdFieldName method := by cases interaction <;> rfl
  rw [name,method_constant fields member] at labelled
  exact ⟨method,member,of_decide_eq_true served,Option.some.inj (of_decide_eq_true labelled),rfl⟩

theorem select_called {service : ServiceDescriptor} (compiles : Compiles service) (member : method ∈ service.methods)
    (served : (clientMethod method).interaction = interaction) :
    select (PrintInterface service) ((PrintServer service).cases interaction) (MethodId method) = some (caseOf interaction method) := by
  have grouped : method ∈ service.methods.filter fun method => (clientMethod method).interaction = interaction :=
    List.mem_filter.mpr ⟨member,decide_eq_true served⟩
  cases chosen : select (PrintInterface service) ((PrintServer service).cases interaction) (MethodId method) with
  | some c =>
    obtain ⟨other,listed,likewise,same,rfl⟩ := select_found compiles.fields chosen
    have together : other ∈ service.methods.filter fun method => (clientMethod method).interaction = interaction :=
      List.mem_filter.mpr ⟨listed,decide_eq_true likewise⟩
    cases List.inj_on_of_nodup_map (compiles.labels interaction) together grouped same
    rfl
  | none =>
    have listed : caseOf interaction method ∈ (PrintServer service).cases interaction := by
      rw [cases_exact]
      exact List.mem_map.mpr ⟨method,grouped,rfl⟩
    have name : (caseOf interaction method).method_id_name = MethodIdFieldName method := by cases interaction <;> rfl
    have missed := List.find?_eq_none.mp chosen _ listed
    rw [name,method_constant compiles.fields member] at missed
    exact absurd (decide_eq_true rfl) missed

theorem select_missed {service : ServiceDescriptor} (fields : (service.methods.map MethodIdFieldName).Nodup)
    (ids : (service.methods.map MethodId).Nodup) (member : method ∈ service.methods)
    (apart : (clientMethod method).interaction ≠ interaction) :
    select (PrintInterface service) ((PrintServer service).cases interaction) (MethodId method) = none := by
  cases chosen : select (PrintInterface service) ((PrintServer service).cases interaction) (MethodId method) with
  | some c =>
    obtain ⟨other,listed,served,same,_⟩ := select_found fields chosen
    cases List.inj_on_of_nodup_map ids listed member same
    exact absurd served apart
  | none => rfl

end Proteus.JavaGenerator
