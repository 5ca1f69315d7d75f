import Proteus.ServerText
import Proteus.Lib.Logs
import Mathlib.Data.List.Infix

namespace Proteus.JavaGenerator

theorem bytes_inj {s t : String} : bytes s = bytes t ↔ s = t := by
  constructor
  · intro same
    have wrapped : s.toUTF8 = t.toUTF8 := ByteArray.ext (Array.toList_inj.mp same)
    exact String.toByteArray_inj.mp wrapped
  · intro same
    rw [same]

def interactions : List Interaction := [.fireAndForget,.requestResponse,.requestStream,.requestChannel]

def Interaction.call : Interaction → String
  | .fireAndForget => "rSocket.fireAndForget"
  | .requestResponse => "rSocket.requestResponse"
  | .requestStream => "rSocket.requestStream"
  | .requestChannel => "rSocket.requestChannel"

def encodeName : String := "io.netifi.proteus.frames.ProteusMetadata.encode"

-- What a reader looks for in the source of a client: the arguments of a header,
-- and the calls of its RSocket.
inductive Mark where
  | header (arguments : List CString)
  | call (interaction : Interaction)
  deriving DecidableEq

def clientMark : Event CString → Option Mark
  | .applied function arguments =>
    if function = bytes encodeName then some (.header arguments)
    else (interactions.find? fun interaction => bytes interaction.call = function).map .call
  | _ => none

-- A request as the source of a client makes it: the references in its header,
-- and the call that takes it.
structure Sending where
  namespace_id : CString
  service_id : CString
  method_id : CString
  interaction : Interaction
  deriving DecidableEq

-- Every header has its call, and every call its header.
def sendings : List Mark → Option (List Sending)
  | [] => some []
  | .header [_,namespace_id,service_id,method_id,_] :: .call interaction :: marks =>
    (sendings marks).map (⟨namespace_id,service_id,method_id,interaction⟩ :: ·)
  | _ => none

def sent (events : List (Event CString)) : Option (List Sending) := sendings (events.filterMap clientMark)

def marked : List String := encodeName :: interactions.map Interaction.call

def Unmarked (function : CString) : Prop := ∀ arguments, clientMark (.applied function arguments) = none

theorem unmarked_of (other : ∀ name ∈ marked, function ≠ bytes name) : Unmarked function := by
  intro arguments
  obtain ⟨first,rest⟩ := List.forall_mem_cons.mp other
  rw [clientMark,if_neg first,Option.map_eq_none_iff,List.find?_eq_none]
  intro interaction listed same
  exact rest _ (List.mem_map_of_mem listed) (of_decide_eq_true same).symm

-- The members that a client calls of classes, the header's encode apart.
def members : List String := [".computeLength",".DEFAULT.directBuffer",".create",".defer",".from",".parser",".identity",".timed",
  ".newInstance"]

theorem member_unmarked {t : String} (listed : t ∈ members) (front : CString) : Unmarked (front ++ bytes t) := by
  have apart : ∀ t ∈ members, ∀ name ∈ marked, ¬ bytes t <:+ bytes name := by decide +kernel
  apply unmarked_of
  intro name member same
  exact apart t listed name member ⟨front,same⟩

theorem undotted_unmarked (undotted : dot ∉ function) : Unmarked function := by
  have dotted : ∀ name ∈ marked, dot ∈ bytes name := by decide +kernel
  apply unmarked_of
  intro name member same
  rw [same] at undotted
  exact undotted (dotted name member)

section Marks
variable (arguments : List CString)

theorem mark_text {t : String} (plain : t ∉ marked) : clientMark (.applied (bytes t) arguments) = none := by
  apply unmarked_of
  intro name member same
  rw [bytes_inj.mp same] at plain
  exact plain member

theorem mark_member (env : Env) (k : Global) {t : String} (listed : t ∈ members) :
    clientMark (.applied (env.vocabulary.dotted k t) arguments) = none := member_unmarked listed _ arguments

theorem mark_encode : clientMark (.applied ((Env.vocabulary Text.clientVars.reverse).dotted .ProteusMetadata ".encode") arguments) =
    some (.header arguments) := by
  have same : (Env.vocabulary Text.clientVars.reverse).dotted .ProteusMetadata ".encode" = bytes encodeName := by decide +kernel
  rw [clientMark,if_pos same]

theorem mark_call (interaction : Interaction) :
    clientMark (.applied (bytes interaction.call) arguments) = some (.call interaction) := by
  have other : bytes interaction.call ≠ bytes encodeName := by cases interaction <;> simp [bytes_inj,Interaction.call,encodeName]
  rw [clientMark,if_neg other]
  cases interaction <;> decide +kernel

theorem mark_line : clientMark (.line arguments) = none := rfl

theorem mark_opened : clientMark (.opened arguments) = none := rfl

theorem mark_closed : clientMark .closed = none := rfl

end Marks

theorem vocabulary_text (env : Env) (t : String) : env.vocabulary.text t = bytes t := rfl

section Stubs
open Text
variable (s : Stub CString) (name : Unmarked s.signed.lower_method_name)

include name in
theorem overload_unmarked : (s.overload (Env.vocabulary clientVars.reverse)).filterMap clientMark = [] := by
  simp only [Stub.overload,List.filterMap_cons,List.filterMap_nil,name _,mark_line,mark_opened,mark_closed]

theorem operators_unmarked (parser : ∀ p ∈ s.parser, Unmarked p) :
    (s.operators (Env.vocabulary clientVars.reverse)).filterMap clientMark = [] := by
  have fixed : (if s.single then [Event.applied (bytes ".single") []] else []).filterMap clientMark = [] := by
    split
    · simp (disch := decide) only [List.filterMap_cons,List.filterMap_nil,mark_text]
    · rfl
  simp only [Stub.operators,List.filterMap_append,vocabulary_text,fixed]
  cases known : s.parser with
  | none => simp (disch := decide) only [List.filterMap_cons,List.filterMap_nil,List.append_nil,mark_text]
  | some p =>
    simp (disch := decide) only [List.filterMap_cons,List.filterMap_nil,List.append_nil,mark_text,parser p known _]

-- In a deferred request and in a channel, the header comes before the call.
theorem requested_marks (from_ : Unmarked s.from_) :
    (s.requested (Env.vocabulary clientVars.reverse)).filterMap clientMark =
      [.header [bytes "metadataBuf",s.namespace_id,s.service_id,s.method_id,bytes "metadata"],.call s.interaction] := by
  have forgotten := fun a => mark_call a .fireAndForget
  have answered := fun a => mark_call a .requestResponse
  have streamed := fun a => mark_call a .requestStream
  have channel := fun a => mark_call a .requestChannel
  simp only [Interaction.call] at forgotten answered streamed channel
  cases used : s.interaction <;>
    simp (disch := decide) only [Stub.requested,used,Stub.deferred,Stub.channel,Stub.encoded,Stub.serialized,Stub.source,
      List.filterMap_cons,List.filterMap_nil,List.cons_append,List.nil_append,vocabulary_text,mark_line,
      mark_opened,mark_closed,mark_member,mark_text,mark_encode,from_ _,forgotten,answered,streamed,channel]

include name in
theorem stub_marks (parser : ∀ p ∈ s.parser, Unmarked p) (from_ : Unmarked s.from_) :
    (s.events (Env.vocabulary clientVars.reverse)).filterMap clientMark =
      [.header [bytes "metadataBuf",s.namespace_id,s.service_id,s.method_id,bytes "metadata"],.call s.interaction] := by
  simp only [Stub.events,Stub.overriding,List.filterMap_append,List.filterMap_cons,List.filterMap_nil,overload_unmarked s name,
    requested_marks s from_,operators_unmarked s parser,name _,mark_line,mark_opened,mark_closed,List.nil_append,List.append_nil]

end Stubs

theorem toupper_dot (same : toupper c = dot) : c = dot := by
  by_cases lower : islower c
  · have upper := toupper_isupper lower
    rw [same] at upper
    exact absurd upper (by decide)
  · rwa [toupper_fixed lower] at same

theorem tolower_dot (same : tolower c = dot) : c = dot := by
  unfold tolower at same
  split at same
  · rename_i upper
    have bounds := (isupper_iff c).mp upper
    have value := congrArg UInt8.toNat same
    rw [UInt8.toNat_add] at value
    simp [dot] at value
    omega
  · exact same

theorem mixedFrom_undotted (undotted : dot ∉ text) (after : Bool) : dot ∉ mixedFrom after text := by
  induction text generalizing after with
  | nil => simp [mixedFrom]
  | cons c text ih =>
    obtain ⟨first,rest⟩ := List.ne_and_not_mem_of_not_mem_cons undotted
    rw [mixedFrom]
    split
    · exact ih rest _
    · intro listed
      rcases List.mem_cons.mp listed with same | later
      · split at same
        · exact first (toupper_dot same.symm).symm
        · exact first same
      · exact ih rest _ later

theorem identifier_undotted (identifier : Identifier name) : dot ∉ name := by
  cases name with
  | nil => exact List.not_mem_nil
  | cons c name =>
    simp only [Identifier,Bool.and_eq_true,List.all_eq_true] at identifier
    intro listed
    rcases List.mem_cons.mp listed with rfl | later
    · exact absurd identifier.1 (by decide)
    · exact absurd (identifier.2 _ later) (by decide)

theorem lower_undotted (identifier : Identifier method.name) : dot ∉ LowerMethodName method := by
  have undotted := identifier_undotted identifier
  unfold LowerMethodName MixedLower
  cases known : method.name with
  | nil => simp [mixedFrom,tolower,isupper,dot]
  | cons c name =>
    rw [known] at undotted
    obtain ⟨first,rest⟩ := List.ne_and_not_mem_of_not_mem_cons undotted
    intro listed
    rcases List.mem_cons.mp listed with same | later
    · exact first (tolower_dot same.symm).symm
    · exact mixedFrom_undotted rest _ later

section Clients
open Text
variable {c : Compilation} {service : ServiceDescriptor}

theorem head_unmarked (version file class_name service_name : CString) :
    (clientHeadEvents (Env.vocabulary clientVars.reverse) version file class_name service_name).filterMap clientMark = [] := by
  have generated : Unmarked ((Env.vocabulary clientVars.reverse).class_ .Generated) := unmarked_of (by decide +kernel)
  simp only [clientHeadEvents,List.filterMap_cons,List.filterMap_nil,generated _,mark_line,mark_opened]

theorem constructor_unmarked (class_name : CString) (undotted : dot ∉ class_name) (registry : List CString) :
    (clientConstructorEvents (Env.vocabulary clientVars.reverse) class_name registry).filterMap clientMark = [] := by
  simp only [clientConstructorEvents,List.filterMap_cons,List.filterMap_nil,undotted_unmarked undotted _,mark_line,mark_opened]

theorem serialize_unmarked : (serializeEvents (Env.vocabulary clientVars.reverse)).filterMap clientMark = [] := by
  simp (disch := decide) only [serializeEvents,List.filterMap_cons,List.filterMap_nil,vocabulary_text,mark_line,mark_opened,
    mark_closed,mark_member,mark_text]

theorem deserializer_unmarked : (deserializerEvents (Env.vocabulary clientVars.reverse)).filterMap clientMark = [] := by
  simp (disch := decide) only [deserializerEvents,List.filterMap_cons,List.filterMap_nil,vocabulary_text,mark_line,mark_opened,
    mark_closed,mark_member,mark_text]

theorem metrics_unmarked (metrics : List (Metric CString)) (package service_name : CString) :
    (metrics.flatMap fun m => m.declared (Env.vocabulary clientVars.reverse)).filterMap clientMark = [] ∧
    (metrics.flatMap fun m => m.identity (Env.vocabulary clientVars.reverse)).filterMap clientMark = [] ∧
    (metrics.flatMap fun m => m.timed (Env.vocabulary clientVars.reverse) "proteus.client" package service_name).filterMap
      clientMark = [] := by
  simp only [List.filterMap_flatMap,List.flatMap_eq_nil_iff]
  refine ⟨fun m _ => ?_,fun m _ => ?_,fun m _ => ?_⟩
  · rfl
  · simp (disch := decide) only [Metric.identity,List.filterMap_cons,List.filterMap_nil,mark_line,mark_member]
  · simp (disch := decide) only [Metric.timed,List.filterMap_cons,List.filterMap_nil,mark_line,mark_member]

theorem sendings_flat (items : List A) (sending : A → Sending) (first last : A → CString) :
    sendings (items.flatMap fun item => [.header [first item,(sending item).namespace_id,(sending item).service_id,
      (sending item).method_id,last item],.call (sending item).interaction]) = some (items.map sending) := by
  induction items with
  | nil => rfl
  | cons item items ih =>
    rw [List.flatMap_cons,List.map_cons]
    simp only [List.cons_append,List.nil_append,sendings,ih,Option.map_some]

-- The request of a method, by the references in the source of its client.
def ClientMethod.sending (client : Client) (m : ClientMethod) : Sending where
  namespace_id := client.service_name ++ bytes "." ++ client.namespace_id_name
  service_id := client.service_name ++ bytes "." ++ client.service_id_name
  method_id := client.service_name ++ bytes "." ++ m.method_id_name
  interaction := m.interaction

theorem parser_unmarked (m : ClientMethod) (client : Client) : ∀ p ∈ (m.stub c client).parser, Unmarked p := by
  intro p present
  obtain ⟨d,_,rfl⟩ := Option.map_eq_some_iff.mp present
  exact member_unmarked (by decide) _

theorem client_marks (spelled : Spelled c service) (disable_version : Bool) (package : CString) :
    sent (packageEvents (packageName c) ++ (JavaGenerator.PrintClient service).events c disable_version package) =
      some (service.methods.map fun method => (clientMethod method).sending (JavaGenerator.PrintClient service)) := by
  have class_name : dot ∉ ClientClassName service := by
    intro listed
    rcases List.mem_append.mp listed with own | suffix
    · exact identifier_undotted spelled.name own
    · exact absurd suffix (by decide)
  have packaged : (packageEvents (packageName c)).filterMap clientMark = [] := by cases packageName c <;> rfl
  have constructors := constructor_unmarked (JavaGenerator.PrintClient service).client_class_name class_name
  have metrics := metrics_unmarked ((JavaGenerator.PrintClient service).methods.map (ClientMethod.metric c)) package
    (JavaGenerator.PrintClient service).service_name
  simp only [List.flatMap_map] at metrics
  obtain ⟨declared,identities,timed⟩ := metrics
  have closed : [Event.closed].filterMap clientMark = [] := rfl
  have stubs : ((JavaGenerator.PrintClient service).methods.flatMap fun m =>
      (m.stub c (JavaGenerator.PrintClient service)).events (Env.vocabulary clientVars.reverse)).filterMap clientMark =
        service.methods.flatMap fun method =>
          [.header [bytes "metadataBuf",((clientMethod method).sending (JavaGenerator.PrintClient service)).namespace_id,
            ((clientMethod method).sending (JavaGenerator.PrintClient service)).service_id,
            ((clientMethod method).sending (JavaGenerator.PrintClient service)).method_id,bytes "metadata"],
            .call ((clientMethod method).sending (JavaGenerator.PrintClient service)).interaction] := by
    rw [List.filterMap_flatMap]
    change (service.methods.map clientMethod).flatMap _ = _
    rw [List.flatMap_map]
    apply List.flatMap_congr
    intro method member
    have name : Unmarked ((clientMethod method).stub c (JavaGenerator.PrintClient service)).signed.lower_method_name := by
      have same : ((clientMethod method).stub c (JavaGenerator.PrintClient service)).signed.lower_method_name =
          LowerMethodName method := by
        unfold clientMethod
        repeat' split
        all_goals rfl
      rw [same]
      exact undotted_unmarked (lower_undotted (spelled.methods method member))
    exact stub_marks _ name (parser_unmarked _ _) (member_unmarked (by decide) _)
  rw [sent,List.filterMap_append,packaged,List.nil_append]
  simp only [Client.events,List.filterMap_append,head_unmarked,constructors,declared,identities,timed,closed,
    serialize_unmarked,deserializer_unmarked,stubs,List.nil_append,List.append_nil]
  exact sendings_flat service.methods (fun method => (clientMethod method).sending (JavaGenerator.PrintClient service))
    (fun _ => bytes "metadataBuf") (fun _ => bytes "metadata")

end Clients
-- The same of a server: its handlers, and the references in the labels of its
-- switches.
inductive ServerMark where
  | handler (interaction : Interaction)
  | label (reference : CString)
  deriving DecidableEq

def serverMark : Event CString → Option ServerMark
  | .opened [first,reference] => if first = bytes "case" then some (.label reference) else none
  | .opened [first,_,_,_,name] =>
    if first = bytes "java.lang.Override" then
      (interactions.find? fun interaction => bytes interaction.spelling = name).map .handler
    else none
  | _ => none

-- A label belongs to the handler that began last.
def labels : Option Interaction → List ServerMark → Option (List (Interaction × CString))
  | _,[] => some []
  | _,.handler interaction :: marks => labels (some interaction) marks
  | some interaction,.label reference :: marks => (labels (some interaction) marks).map ((interaction,reference) :: ·)
  | none,.label _ :: _ => none

def served (events : List (Event CString)) : Option (List (Interaction × CString)) := labels none (events.filterMap serverMark)

theorem labels_handler (before : Option Interaction) (interaction : Interaction) (references : List CString)
    (known : labels (some interaction) marks = some later) :
    labels before (.handler interaction :: (references.map .label ++ marks)) =
      some (references.map (fun reference => (interaction,reference)) ++ later) := by
  rw [labels]
  induction references with
  | nil => exact known
  | cons reference references ih =>
    rw [List.map_cons,List.cons_append,labels,ih]
    rfl

section Servers
open Text
variable {c : Compilation} {service : ServiceDescriptor}

theorem case_marks (interaction : Interaction) (k : CaseWords CString) :
    (k.events (Env.vocabulary serverVars.reverse) interaction).filterMap serverMark = [.label k.label] := by
  have label : serverMark (.opened [bytes "case",k.label]) = some (.label k.label) := by simp [serverMark]
  have body : (k.body (Env.vocabulary serverVars.reverse) interaction).filterMap serverMark = [] := by
    obtain ⟨_,_,_,_,_,flux⟩ := k
    cases interaction <;> cases flux <;> rfl
  have closed : [Event.closed].filterMap serverMark = [] := rfl
  simp only [CaseWords.events,vocabulary_text,List.filterMap_cons,label,List.filterMap_append,body,closed,List.append_nil]

theorem handler_marks (interaction : Interaction) (cases : List (CaseWords CString)) :
    (handlerEvents (Env.vocabulary serverVars.reverse) interaction cases).filterMap serverMark =
      .handler interaction :: cases.map fun k => .label k.label := by
  have head : (handlerHeadEvents (Env.vocabulary serverVars.reverse) interaction).filterMap serverMark = [.handler interaction] := by
    cases interaction <;> decide +kernel
  have listed : (cases.flatMap (CaseWords.events (Env.vocabulary serverVars.reverse) interaction)).filterMap serverMark =
      cases.map fun k => .label k.label := by
    simp only [List.filterMap_flatMap,case_marks,← List.map_eq_flatMap]
  have foot : (switchFootEvents (Env.vocabulary serverVars.reverse) interaction.publisher ++
      handlerEndEvents (Env.vocabulary serverVars.reverse) interaction).filterMap serverMark = [] := by cases interaction <;> rfl
  have first : (switchHeadEvents (Env.vocabulary serverVars.reverse)).filterMap serverMark = [] := rfl
  have closed : [Event.closed].filterMap serverMark = [] := rfl
  rw [handlerEvents,List.filterMap_append,List.filterMap_append,head,closed]
  cases cases with
  | nil => rfl
  | cons k cases =>
    rw [List.isEmpty_cons,if_neg Bool.false_ne_true,List.filterMap_append,List.filterMap_append,first,listed,foot]
    simp

theorem channels_marks (empty : Bool) :
    (channelsEvents (Env.vocabulary serverVars.reverse) empty).filterMap serverMark = [.handler .requestChannel] := by
  cases empty <;> decide +kernel

theorem serverConstructor_unmarked (k : ServerWords CString) :
    (serverConstructorEvents (Env.vocabulary serverVars.reverse) k).filterMap serverMark = [] ∧
    (serverMeteredEvents (Env.vocabulary serverVars.reverse) k).filterMap serverMark = [] := by
  have opened : serverMark (.opened [bytes "public",k.class_name]) = none := by simp [serverMark,bytes_inj]
  have lined (words : List CString) : serverMark (.line words) = none := rfl
  have applied (function : CString) (words : List CString) : serverMark (.applied function words) = none := rfl
  simp only [serverConstructorEvents,serverMeteredEvents,List.filterMap_cons,List.filterMap_nil,vocabulary_text,opened,lined,
    applied,and_self]

-- The cases of a server, by the handler they stand in and their label.
def Server.labelled (server : Server) (interaction : Interaction) : List (Interaction × CString) :=
  (server.cases interaction).map fun k => (interaction,server.service_name ++ bytes "." ++ k.method_id_name)

theorem server_marks (c : Compilation) (server : Server) (disable_version : Bool) (package : CString) (methods : List Signature)
    (line : Option CString) : served (packageEvents line ++ server.events c disable_version package methods) =
      some (interactions.flatMap server.labelled) := by
  have packaged : (packageEvents line).filterMap serverMark = [] := by cases line <;> rfl
  have closed : [Event.closed].filterMap serverMark = [] := rfl
  have head : (serverHeadEvents (Env.vocabulary serverVars.reverse) (server.words c disable_version)).filterMap serverMark = [] := rfl
  have constructors := serverConstructor_unmarked (server.words c disable_version)
  have ids : (serverIdsEvents (Env.vocabulary serverVars.reverse) (server.words c disable_version)).filterMap serverMark = [] := rfl
  have declared : (methods.flatMap fun s => (s.metric (Env.vocabulary serverVars.reverse)).declared
      (Env.vocabulary serverVars.reverse)).filterMap serverMark = [] := by
    simp only [List.filterMap_flatMap,List.flatMap_eq_nil_iff]
    exact fun _ _ => rfl
  have identities : (methods.flatMap fun s => (s.metric (Env.vocabulary serverVars.reverse)).identity
      (Env.vocabulary serverVars.reverse)).filterMap serverMark = [] := by
    simp only [List.filterMap_flatMap,List.flatMap_eq_nil_iff]
    exact fun _ _ => rfl
  have timed : (methods.flatMap fun s => (s.metric (Env.vocabulary serverVars.reverse)).timed (Env.vocabulary serverVars.reverse)
      "proteus.server" package server.service_name).filterMap serverMark = [] := by
    simp only [List.filterMap_flatMap,List.flatMap_eq_nil_iff]
    exact fun _ _ => rfl
  have serializer : (serializerEvents (Env.vocabulary serverVars.reverse)).filterMap serverMark = [] := by decide +kernel
  have deserializer : (deserializerEvents (Env.vocabulary serverVars.reverse)).filterMap serverMark = [] := by decide +kernel
  have handler (interaction : Interaction) : (server.handler c interaction).filterMap serverMark =
      .handler interaction :: ((server.labelled interaction).map Prod.snd).map .label := by
    rw [Server.handler,handler_marks,Server.labelled]
    simp only [List.map_map]
    rfl
  rw [served,List.filterMap_append,packaged,List.nil_append]
  simp only [Server.events,List.filterMap_append,head,declared,constructors,identities,timed,closed,ids,handler,channels_marks,
    serializer,deserializer,List.nil_append,List.append_nil]
  have step (before : Option Interaction) (interaction : Interaction) (marks : List ServerMark)
      (later : List (Interaction × CString)) (known : labels (some interaction) marks = some later) :
      labels before (.handler interaction :: (((server.labelled interaction).map Prod.snd).map .label ++ marks)) =
        some (server.labelled interaction ++ later) := by
    rw [labels_handler before interaction _ known,Server.labelled]
    simp
  have last : labels (some .requestChannel) [.handler .requestChannel] = some [] := rfl
  simp only [interactions,List.flatMap_cons,List.flatMap_nil,List.append_nil,List.append_assoc,List.cons_append]
  exact step _ _ _ _ (step _ _ _ _ (step _ _ _ _ (by rw [step _ _ _ _ last,List.append_nil])))

end Servers
-- The type that a file declares: the name behind its keyword.
def typeName : List CString → Option CString
  | keyword :: name :: words =>
    if keyword = bytes "interface" ∨ keyword = bytes "class" then some name else typeName (name :: words)
  | _ => none

def declaredType (events : List (Event CString)) : Option CString :=
  events.findSome? fun
    | .opened words => typeName words
    | _ => none

-- What a qualified name of a constant stands for, by the source of its interface.
def resolve (interface : List (Event CString)) (reference : CString) : Option JInt :=
  (declaredType interface).bind fun name =>
    if (name ++ bytes ".").isPrefixOf reference then constantOf interface (reference.drop (name ++ bytes ".").length) else none

theorem interface_type (c : Compilation) (disable_version : Bool) (i : Interface) (line : Option CString) :
    declaredType (packageEvents line ++ i.events c disable_version) = some i.service_name := by
  have annotated : ¬ ((Env.vocabulary Text.interfaceVars.reverse).class_ .Generated = bytes "interface" ∨
    (Env.vocabulary Text.interfaceVars.reverse).class_ .Generated = bytes "class") := by decide +kernel
  have head : typeName [(Env.vocabulary Text.interfaceVars.reverse).class_ .Generated,bytes "public",bytes "interface",
      i.service_name] = some i.service_name := by simp [typeName,annotated,bytes_inj]
  cases line <;> simp [declaredType,packageEvents,Interface.events,head]

theorem resolve_qualified (c : Compilation) (disable_version : Bool) (i : Interface) (line : Option CString) (name : CString) :
    resolve (packageEvents line ++ i.events c disable_version) (i.service_name ++ bytes "." ++ name) = i.constant name := by
  have front : (i.service_name ++ bytes ".").isPrefixOf (i.service_name ++ bytes "." ++ name) :=
    List.isPrefixOf_iff_prefix.mpr (List.prefix_append _ _)
  rw [resolve,interface_type,Option.bind_some,if_pos front,List.drop_left,constantOf_exact]

-- The generator ends, and its file has this outline.
def Outlined (P : FilePrinter) (calls : List Call) (events : List (Event CString)) : Prop :=
  ∃ e, emit calls (.start P) = .ok e ∧ outline e.page.output = some events

theorem sending_id (client : Client) (method : MethodDescriptor) : (clientMethod method).sending client =
    ⟨client.service_name ++ bytes "." ++ client.namespace_id_name,client.service_name ++ bytes "." ++ client.service_id_name,
      client.service_name ++ bytes "." ++ MethodIdFieldName method,(clientMethod method).interaction⟩ := by
  unfold clientMethod
  repeat' split
  all_goals rfl

theorem labelled_exact (service : ServiceDescriptor) (interaction : Interaction) : (PrintServer service).labelled interaction =
    (service.methods.filter fun method => (clientMethod method).interaction = interaction).map fun method =>
      (interaction,service.name ++ bytes "." ++ MethodIdFieldName method) := by
  have name (method : MethodDescriptor) : (caseOf interaction method).method_id_name = MethodIdFieldName method := by
    cases interaction <;> rfl
  rw [Server.labelled,cases_exact,List.map_map]
  apply List.map_congr_left
  intro method _
  rw [Function.comp_apply,name]
  rfl

theorem labelled_iff (service : ServiceDescriptor) (pair : Interaction × CString) :
    pair ∈ interactions.flatMap (PrintServer service).labelled ↔ ∃ method ∈ service.methods,
      pair = ((clientMethod method).interaction,service.name ++ bytes "." ++ MethodIdFieldName method) := by
  simp only [List.mem_flatMap,labelled_exact,List.mem_map,List.mem_filter,decide_eq_true_eq]
  constructor
  · rintro ⟨_,_,method,⟨member,rfl⟩,rfl⟩
    exact ⟨method,member,rfl⟩
  · rintro ⟨method,member,rfl⟩
    refine ⟨(clientMethod method).interaction,?_,method,⟨member,rfl⟩,rfl⟩
    cases (clientMethod method).interaction <;> decide

-- Two labels, of one handler or of two, stand for different ids.
theorem labels_apart {service : ServiceDescriptor} (ids : (service.methods.map MethodId).Nodup) {meaning : CString → Option JInt}
    (resolved : ∀ method ∈ service.methods,
      meaning (service.name ++ bytes "." ++ MethodIdFieldName method) = some (MethodId method)) :
    ((interactions.flatMap (PrintServer service).labelled).map fun pair => meaning pair.2).Nodup := by
  have meant (interaction : Interaction) : ((PrintServer service).labelled interaction).map (fun pair => meaning pair.2) =
      ((service.methods.filter fun method => (clientMethod method).interaction = interaction).map MethodId).map some := by
    rw [labelled_exact,List.map_map,List.map_map]
    apply List.map_congr_left
    intro method grouped
    exact resolved method (List.mem_filter.mp grouped).1
  rw [List.map_flatMap,List.nodup_flatMap]
  refine ⟨?_,List.Pairwise.imp ?_ (show interactions.Nodup by decide)⟩
  · intro interaction _
    rw [meant]
    exact ((List.filter_sublist.map MethodId).nodup ids).map (Option.some_injective _)
  · intro first second different
    change List.Disjoint (((PrintServer service).labelled first).map _) (((PrintServer service).labelled second).map _)
    rw [meant,meant]
    intro id here there
    simp only [List.mem_map,List.mem_filter,decide_eq_true_eq] at here there
    obtain ⟨_,⟨method,⟨member,used⟩,rfl⟩,rfl⟩ := here
    obtain ⟨_,⟨other,⟨present,likewise⟩,same⟩,equal⟩ := there
    cases Option.some.inj equal
    cases List.inj_on_of_nodup_map ids present member same
    exact different (used.symm.trans likewise)

theorem filter_alone {A B : Type} [DecidableEq B] (f : A → B) {entries : List A} {a : A} (distinct : (entries.map f).Nodup)
    (member : a ∈ entries) :
    (entries.filter fun b => f b = f a) = [a] := by
  have once := Logs.keyed_once f (f a) distinct
  have kept : a ∈ entries.filter fun b => f b = f a := List.mem_filter.mpr ⟨member,decide_eq_true rfl⟩
  obtain ⟨b,one⟩ := List.length_eq_one_iff.mp (Nat.le_antisymm once (List.length_pos_of_mem kept))
  rw [one] at kept ⊢
  rw [List.mem_singleton.mp kept]

-- The three sources of a service fit: every request that the client's makes has
-- the ids of its method by the interface's, and of all labels in the server's
-- exactly one has that id, in the handler of the same RSocket call.
theorem texts_agree (P : FilePrinter) (c : Compilation) (service : ServiceDescriptor) (spelled : Spelled c service)
    (fields : (service.methods.map MethodIdFieldName).Nodup) (ids : (service.methods.map MethodId).Nodup)
    (disable_version : Bool) : ∃ interface client server sends cases,
      Outlined P (Text.GenerateInterface c disable_version service) interface ∧
      Outlined P (Text.GenerateClient c disable_version service) client ∧
      Outlined P (Text.GenerateServer c disable_version service) server ∧
      sent client = some sends ∧ served server = some cases ∧
      sends.map (fun s => (s.interaction,resolve interface s.namespace_id,resolve interface s.service_id,
          resolve interface s.method_id)) =
        service.methods.map (fun method => ((clientMethod method).interaction,some (NamespaceId service),some (ServiceId service),
          some (MethodId method))) ∧
      ∀ s ∈ sends, (cases.filter fun label => resolve interface label.2 = resolve interface s.method_id) =
        [(s.interaction,s.method_id)] := by
  obtain ⟨i,ranInterface,_,interface⟩ := (Text.interface_tells spelled disable_version).file P
  obtain ⟨k,ranClient,_,client⟩ := (Text.client_tells spelled disable_version).file P
  obtain ⟨s,ranServer,_,server⟩ := (Text.server_tells spelled disable_version).file P
  have qualified (name : CString) : resolve (packageEvents (packageName c) ++
      (PrintInterface service).events c disable_version) (service.name ++ bytes "." ++ name) = (PrintInterface service).constant name :=
    resolve_qualified c disable_version (PrintInterface service) (packageName c) name
  have resolved (method : MethodDescriptor) (member : method ∈ service.methods) :=
    (qualified (MethodIdFieldName method)).trans (method_constant fields member)
  refine ⟨_,_,_,_,_,⟨i,ranInterface,interface⟩,⟨k,ranClient,client⟩,⟨s,ranServer,server⟩,
    client_marks spelled disable_version service.package,server_marks c _ disable_version service.package _ (packageName c),?_,?_⟩
  · rw [List.map_map]
    apply List.map_congr_left
    intro method member
    rw [Function.comp_apply,sending_id]
    exact Prod.ext rfl (Prod.ext (qualified _) (Prod.ext (qualified _) (resolved method member)))
  · intro sending listed
    obtain ⟨method,member,rfl⟩ := List.mem_map.mp listed
    rw [sending_id]
    exact filter_alone (fun label : Interaction × CString => resolve _ label.2) (labels_apart ids resolved)
      ((labelled_iff service _).mpr ⟨method,member,rfl⟩)

theorem texts_agree_test : ∃ interface client server sends cases,
    Outlined Page.filePrinter (Text.GenerateInterface TestService.compilation false TestService.descriptor) interface ∧
    Outlined Page.filePrinter (Text.GenerateClient TestService.compilation false TestService.descriptor) client ∧
    Outlined Page.filePrinter (Text.GenerateServer TestService.compilation false TestService.descriptor) server ∧
    sent client = some sends ∧ served server = some cases ∧
    sends.map (fun s => (s.interaction,resolve interface s.namespace_id,resolve interface s.service_id,
        resolve interface s.method_id)) =
      TestService.descriptor.methods.map (fun method => ((clientMethod method).interaction,
        some (NamespaceId TestService.descriptor),some (ServiceId TestService.descriptor),some (MethodId method))) ∧
    ∀ s ∈ sends, (cases.filter fun label => resolve interface label.2 = resolve interface s.method_id) =
      [(s.interaction,s.method_id)] :=
  texts_agree Page.filePrinter TestService.compilation TestService.descriptor TestService.spelled TestService.compiles.fields
    (by decide +kernel) false

-- The files of the plugin with what is printed into each. The option lite only
-- sets a flavor that no generator looks at.
def Text.Generate (c : Compilation) (options : List (CString × CString)) : List (CString × List Call) :=
  let disable_version := options.any fun option => option.1 = literal "noversion"
  let package_filename := JavaPackageToDir (ServiceJavaPackage c.file)
  c.file.services.flatMap fun service => [
    (package_filename ++ service.name ++ literal ".java",Text.GenerateInterface c disable_version service),
    (package_filename ++ ClientClassName service ++ literal ".java",Text.GenerateClient c disable_version service),
    (package_filename ++ ServerClassName service ++ literal ".java",Text.GenerateServer c disable_version service)]

-- The package that a file is in by its first line.
def declaredPackage (events : List (Event CString)) : CString :=
  match events with
  | .line [keyword,name] :: _ => if keyword = bytes "package" then name else []
  | _ => []

-- Where javac looks for a public type: in one directory for each part of the
-- package's name, and in none for the unnamed package.
def directories (package : CString) : List CString := if package = [] then [] else package.splitOn dot

def sourcePath (events : List (Event CString)) : Option CString :=
  (declaredType events).map fun name =>
    (directories (declaredPackage events)).flatMap (· ++ [separator]) ++ name ++ bytes ".java"

theorem parts_separated (package : CString) : (package.splitOn dot).flatMap (· ++ [separator]) =
    (package.map fun c => if c = dot then separator else c) ++ [separator] := by
  induction package with
  | nil => simp
  | cons c package ih =>
    rw [List.splitOn_cons_eq_if_modifyHead,List.map_cons,List.cons_append,← ih]
    by_cases same : c = dot
    · simp [same]
    · cases parts : package.splitOn dot with
      | nil => exact absurd parts (List.splitOn_ne_nil dot package)
      | cons part parts => simp [same]

theorem directories_exact (package : CString) :
    (directories package).flatMap (· ++ [separator]) = JavaPackageToDir package := by
  cases package with
  | nil => rfl
  | cons c package =>
    rw [directories,if_neg (List.cons_ne_nil c package),parts_separated]
    rfl

theorem package_declared (c : Compilation) (function : CString) (words : List CString) (events : List (Event CString)) :
    declaredPackage (packageEvents (packageName c) ++ .applied function words :: events) = ServiceJavaPackage c.file := by
  unfold packageName
  cases empty : (ServiceJavaPackage c.file).isEmpty with
  | true => exact (List.isEmpty_iff.mp empty).symm
  | false => simp [packageEvents,declaredPackage]

theorem class_path (c : Compilation) (function name : CString) (words rest : List CString) (events : List (Event CString))
    (plain : ¬ (function = bytes "interface" ∨ function = bytes "class")) :
    sourcePath (packageEvents (packageName c) ++ .applied function words ::
      .opened ([function,bytes "public",bytes "final",bytes "class",name] ++ rest) :: events) =
        some (JavaPackageToDir (ServiceJavaPackage c.file) ++ name ++ bytes ".java") := by
  have head : typeName ([function,bytes "public",bytes "final",bytes "class",name] ++ rest) = some name := by
    simp [typeName,plain,bytes_inj]
  have declared : declaredType (packageEvents (packageName c) ++ .applied function words ::
      .opened ([function,bytes "public",bytes "final",bytes "class",name] ++ rest) :: events) = some name := by
    rw [declaredType,List.findSome?_append]
    have line : (packageEvents (packageName c)).findSome? (fun | .opened words => typeName words | _ => none) = none := by
      cases packageName c <;> rfl
    rw [line,Option.none_or,List.findSome?_cons_of_isNone rfl,List.findSome?_cons]
    simp only [head]
  rw [sourcePath,declared,Option.map_some,package_declared,directories_exact]

-- javac finds every file: each has the path of the public type it declares in
-- the package that its own first line names.
theorem files_placed (P : FilePrinter) (c : Compilation) (options : List (CString × CString))
    (spelled : ∀ service ∈ c.file.services, Spelled c service) :
    ∀ file ∈ Text.Generate c options, ∃ events, Outlined P file.2 events ∧ sourcePath events = some file.1 := by
  have java : bytes ".java" = literal ".java" := by decide +kernel
  intro file opened
  obtain ⟨service,listed,rest⟩ := List.mem_flatMap.mp opened
  have spelled := spelled service listed
  simp only [List.mem_cons,List.not_mem_nil,or_false] at rest
  rcases rest with rfl | rfl | rfl
  · obtain ⟨e,ran,_,read⟩ := (Text.interface_tells spelled (options.any fun option => option.1 = literal "noversion")).file P
    refine ⟨_,⟨e,ran,read⟩,?_⟩
    rw [sourcePath,interface_type,Option.map_some,directories_exact,← java]
    exact congrArg (fun package => some (JavaPackageToDir package ++ service.name ++ bytes ".java"))
      (package_declared c _ _ _)
  · obtain ⟨e,ran,_,read⟩ := (Text.client_tells spelled (options.any fun option => option.1 = literal "noversion")).file P
    refine ⟨_,⟨e,ran,read⟩,?_⟩
    have plain : ¬ ((Env.vocabulary Text.clientVars.reverse).class_ .Generated = bytes "interface" ∨
      (Env.vocabulary Text.clientVars.reverse).class_ .Generated = bytes "class") := by decide +kernel
    rw [← java]
    exact class_path c _ (ClientClassName service) _ _ _ plain
  · obtain ⟨e,ran,_,read⟩ := (Text.server_tells spelled (options.any fun option => option.1 = literal "noversion")).file P
    refine ⟨_,⟨e,ran,read⟩,?_⟩
    have plain : ¬ ((Env.vocabulary Text.serverVars.reverse).class_ .Generated = bytes "interface" ∨
      (Env.vocabulary Text.serverVars.reverse).class_ .Generated = bytes "class") := by decide +kernel
    rw [← java]
    exact class_path c _ (ServerClassName service) _ _ _ plain

theorem files_placed_test : ∃ events,
    Outlined Page.filePrinter (Text.GenerateServer TestService.compilation false TestService.descriptor) events ∧
    sourcePath events = some (literal "io/netifi/testing/integration/TestServiceServer.java") := by
  have spelled : ∀ service ∈ TestService.compilation.file.services, Spelled TestService.compilation service := by
    intro service listed
    rw [List.mem_singleton.mp (show service ∈ [TestService.descriptor] from listed)]
    exact TestService.spelled
  have path : JavaPackageToDir (ServiceJavaPackage TestService.compilation.file) ++ ServerClassName TestService.descriptor ++
    literal ".java" = literal "io/netifi/testing/integration/TestServiceServer.java" := by decide +kernel
  rw [← path]
  exact files_placed Page.filePrinter TestService.compilation [(literal "lite",[])] spelled
    (_,Text.GenerateServer TestService.compilation false TestService.descriptor)
    (List.mem_cons_of_mem _ (List.mem_cons_of_mem _ (List.mem_cons_self ..)))

end Proteus.JavaGenerator
