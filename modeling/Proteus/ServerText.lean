import Proteus.ClientText

namespace Proteus.JavaGenerator
open Transducer

namespace Text

-- The entries GenerateServer starts with.
def serverVars : Env := [
  (.Flux,bytes "reactor.core.publisher.Flux"),
  (.Mono,bytes "reactor.core.publisher.Mono"),
  (.from_,bytes "from"),
  (.flux,bytes "flux"),
  (.flatMap,bytes "flatMapMany"),
  (.Function,bytes "java.util.function.Function"),
  (.Supplier,bytes "java.util.function.Supplier"),
  (.BiFunction,bytes "java.util.function.BiFunction"),
  (.Override,bytes "java.lang.Override"),
  (.Publisher,bytes "org.reactivestreams.Publisher"),
  (.Generated,bytes "javax.annotation.Generated"),
  (.RSocket,bytes "io.rsocket.RSocket"),
  (.Payload,bytes "io.rsocket.Payload"),
  (.ByteBufPayload,bytes "io.rsocket.util.ByteBufPayload"),
  (.SwitchTransform,bytes "io.rsocket.internal.SwitchTransform"),
  (.AbstractProteusService,bytes "io.netifi.proteus.AbstractProteusService"),
  (.ProteusMetadata,bytes "io.netifi.proteus.frames.ProteusMetadata"),
  (.ProteusMetrics,bytes "io.netifi.proteus.metrics.ProteusMetrics"),
  (.MeterRegistry,bytes "io.micrometer.core.instrument.MeterRegistry"),
  (.ByteBuf,bytes "io.netty.buffer.ByteBuf"),
  (.ByteBuffer,bytes "java.nio.ByteBuffer"),
  (.ByteBufAllocator,bytes "io.netty.buffer.ByteBufAllocator"),
  (.CodedInputStream,bytes "com.google.protobuf.CodedInputStream"),
  (.CodedOutputStream,bytes "com.google.protobuf.CodedOutputStream"),
  (.MessageLite,bytes "com.google.protobuf.MessageLite"),
  (.Parser,bytes "com.google.protobuf.Parser")]

def serverHead : List Call := [
  .print [
    "@$Generated$(\n",
    "    value = \"by Proteus proto compiler$proteus_version$\",\n",
    "    comments = \"Source: $file_name$\")\n",
    "public final class $server_class_name$ extends $AbstractProteusService$ \x7b\n"],
  .indent,
  .print ["private final $service_name$ service;\n"]]

def serverField (client_streaming server_streaming fields : Bool) : List Call :=
  let typed : List Call := [.print ["private final $Function$<? super $Publisher$<$Payload$>, ? extends ",
    "$Publisher$<$Payload$>> $lower_method_name$;\n"]]
  if server_streaming then typed
  else if client_streaming then typed
  else if fields then typed
  else [.print ["private final $Function$<? super $Publisher$<Void>, ? extends ",
    "$Publisher$<Void>> $lower_method_name$;\n"]]

def serverConstructor : List Call := [
  .print ["\n","public $server_class_name$($service_name$ service) \x7b\n"],
  .indent,
  .print ["this.service = service;\n"]]

def serverIdentity : List Call := [.print ["this.$lower_method_name$ = $Function$.identity();\n"]]

def serverMetered : List Call := [
  .print ["public $server_class_name$($service_name$ service, $MeterRegistry$ registry) \x7b\n"],
  .indent,
  .print ["this.service = service;\n"]]

def serverTimed : List Call := [
  .print ["this.$lower_method_name$ = $ProteusMetrics$.timed(registry, \"proteus.server\", \"namespace\", ",
    "\"$Package$\", \"service\", \"$service_name$\", \"method\", \"$lower_method_name$\");\n"]]

def serverIds : List Call := [
  .print ["@$Override$\n","public int getNamespaceId() \x7b\n"],
  .indent,
  .print ["return $service_name$.$namespace_id_name$;\n"],
  .outdent,
  .plain ["\x7d\n\n"],
  .print ["@$Override$\n","public int getServiceId() \x7b\n"],
  .indent,
  .print ["return $service_name$.$service_id_name$;\n"],
  .outdent,
  .plain ["\x7d\n\n"]]

-- The parts of a handler, as the five of them have them.
def handlerHead (signature : String) : List Call := [.print ["@$Override$\n",signature],.indent]

def handlerAbsent (publisher absent : String) : List Call :=
  [.print ["return ",publisher,".error(new UnsupportedOperationException(\"",absent,"\"));\n"]]

def switchHead : List Call := [
  .print ["try \x7b\n"],
  .indent,
  .print ["$ByteBuf$ metadata = payload.sliceMetadata();\n","switch($ProteusMetadata$.methodId(metadata)) \x7b\n"],
  .indent]

def switchFoot (publisher : String) : List Call := [
  .print ["default: \x7b\n"],
  .indent,
  .print ["return ",publisher,".error(new UnsupportedOperationException());\n"],
  .outdent,
  .plain ["\x7d\n"],
  .outdent,
  .plain ["\x7d\n"],
  .outdent,
  .plain ["\x7d catch (Throwable t) \x7b\n"],
  .indent,
  .print ["return ",publisher,".error(t);\n"],
  .outdent]

def released : List Call := [.plain ["\x7d finally \x7b\n"],.indent,.plain ["payload.release();\n"],.outdent,.plain ["\x7d\n"]]

def unreleased : List Call := [.plain ["\x7d\n"]]

def caseHead : List Call := [.print ["case $service_name$.$method_id_name$: \x7b\n"],.indent]

def caseFoot : List Call := [.outdent,.plain ["\x7d\n"]]

def forgetCase : List Call := caseHead ++ [
  .print ["$CodedInputStream$ is = $CodedInputStream$.newInstance(payload.getData());\n",
    "return service.$lower_method_name$($input_type$.parseFrom(is), metadata);\n"]] ++ caseFoot

def answerCase : List Call := caseHead ++ [
  .print ["$CodedInputStream$ is = $CodedInputStream$.newInstance(payload.getData());\n",
    "return service.$lower_method_name$($input_type$.parseFrom(is), metadata)",
    ".map(serializer).transform($lower_method_name$);\n"]] ++ caseFoot

def channelCaseText (server_streaming : Bool) : List Call := caseHead ++ [
  .print ["$Flux$<$input_type$> messages =\n"],
  .indent,
  .print ["publisher.map(deserializer($input_type$.parser()));\n"],
  .outdent,
  if server_streaming then
    .print ["return service.$lower_method_name$(messages, metadata).map(serializer)",".transform($lower_method_name$);\n"]
  else
    .print ["return service.$lower_method_name$(messages, metadata).map(serializer)",
      ".transform($lower_method_name$).$flux$();\n"]] ++ caseFoot

def caseText (interaction : Interaction) (server_streaming : Bool) : List Call :=
  match interaction with
  | .fireAndForget => forgetCase
  | .requestResponse => answerCase
  | .requestStream => answerCase
  | .requestChannel => channelCaseText server_streaming

def handlerSignature : Interaction → String
  | .fireAndForget => "public $Mono$<Void> fireAndForget($Payload$ payload) \x7b\n"
  | .requestResponse => "public $Mono$<$Payload$> requestResponse($Payload$ payload) \x7b\n"
  | .requestStream => "public $Flux$<$Payload$> requestStream($Payload$ payload) \x7b\n"
  | .requestChannel => "public $Flux$<$Payload$> requestChannel($Payload$ payload, $Flux$<$Payload$> publisher) \x7b\n"

def handlerPublisher : Interaction → String
  | .fireAndForget => "$Mono$"
  | .requestResponse => "$Mono$"
  | .requestStream => "$Flux$"
  | .requestChannel => "$Flux$"

def absentText : Interaction → String
  | .fireAndForget => "Fire and forget not implemented."
  | .requestResponse => "Request-Response not implemented."
  | .requestStream => "Request-Stream not implemented."
  | .requestChannel => "Request-Channel not implemented."

-- The channel's handler alone does not release its payload.
def handlerEnd : Interaction → List Call
  | .requestChannel => unreleased
  | _ => released

def handlerText (interaction : Interaction) (empty : Bool) (cases : List Call) : List Call :=
  handlerHead (handlerSignature interaction) ++
  (if empty then handlerAbsent (handlerPublisher interaction) (absentText interaction)
    else switchHead ++ cases ++ (switchFoot (handlerPublisher interaction) ++ handlerEnd interaction)) ++
  bodyFoot

def channelsHead : List Call :=
  handlerHead "public $Flux$<$Payload$> requestChannel($Publisher$<$Payload$> payloads) \x7b\n"

def switched : List Call := [
  .print ["return new $SwitchTransform$<$Payload$, $Payload$>(payloads, ",
    "new $BiFunction$<$Payload$, $Flux$<$Payload$>, $Publisher$<? extends $Payload$>>() \x7b\n"],
  .indent,
  .print ["@$Override$\n","public $Publisher$<$Payload$> apply($Payload$ payload, $Flux$<$Payload$> publisher) \x7b\n"],
  .indent,
  .print ["return requestChannel(payload, publisher);\n"],
  .outdent,
  .plain ["\x7d\n"],
  .outdent,
  .plain ["\x7d);\n"]]

def channelsText (empty : Bool) : List Call :=
  channelsHead ++ (if empty then handlerAbsent "$Flux$" "Request-Channel not implemented." else switched) ++ bodyFoot

def serializerText : List Call := [
  .print ["private static final $Function$<$MessageLite$, $Payload$> serializer =\n"],
  .indent,
  .print ["new $Function$<$MessageLite$, $Payload$>() \x7b\n"],
  .indent,
  .print ["@$Override$\n","public $Payload$ apply($MessageLite$ message) \x7b\n"],
  .indent,
  .print ["$ByteBuf$ byteBuf = $ByteBufAllocator$.DEFAULT.directBuffer(message.getSerializedSize());\n"],
  .plain ["try \x7b\n"],
  .indent,
  .print [
    "message.writeTo($CodedOutputStream$.newInstance(byteBuf.nioBuffer(0, byteBuf.writableBytes())));\n",
    "byteBuf.writerIndex(byteBuf.capacity());\n",
    "return $ByteBufPayload$.create(byteBuf);\n"],
  .outdent,
  .plain ["\x7d catch (Throwable t) \x7b\n"],
  .indent,
  .plain ["byteBuf.release();\n","throw new RuntimeException(t);\n"],
  .outdent,
  .plain ["\x7d\n"],
  .outdent,
  .plain ["\x7d\n"],
  .outdent,
  .plain ["\x7d;\n\n"],
  .outdent]

section Entries
variable (c : Compilation)

def serverEntries (disable_version : Bool) (service : ServiceDescriptor) : Env := [
  (.service_name,service.name),
  (.namespace_id_name,NamespaceIdFieldName),
  (.service_id_name,ServiceIdFieldName),
  (.file_name,c.file_name),
  (.server_class_name,ServerClassName service),
  (.proteus_version,proteus_version c disable_version)]

-- A case of fireAndForget has no use for an output type.
def caseEntries (interaction : Interaction) (method : MethodDescriptor) : Env :=
  (.input_type,c.ClassName method.input_type) ::
  (match interaction with
    | .fireAndForget => []
    | _ => [(.output_type,c.ClassName method.output_type)]) ++ [
  (.lower_method_name,LowerMethodName method),
  (.method_id_name,MethodIdFieldName method)]

def casesText (interaction : Interaction) (methods : List MethodDescriptor) : List Call :=
  methods.flatMap fun method => assign (caseEntries c interaction method) ++ caseText interaction method.server_streaming

def groupText (interaction : Interaction) (service : ServiceDescriptor) : List Call :=
  handlerText interaction ((groups service).of interaction).isEmpty (casesText c interaction ((groups service).of interaction))

end Entries

def PrintServer (c : Compilation) (disable_version : Bool) (service : ServiceDescriptor) : List Call :=
  assign (serverEntries c disable_version service) ++
  (serverHead ++
  (service.methods.flatMap fun method => assign (nameEntries method) ++
    serverField method.client_streaming method.server_streaming (method.output_type.field_count > 0)) ++
  serverConstructor ++
  (service.methods.flatMap fun method => assign (nameEntries method) ++ serverIdentity) ++
  bodyFoot ++ serverMetered ++
  (service.methods.flatMap fun method => assign (nameEntries method) ++ serverTimed) ++
  bodyFoot ++ serverIds ++
  (groupText c .fireAndForget service ++ groupText c .requestResponse service ++ groupText c .requestStream service ++
  groupText c .requestChannel service ++ channelsText (groups service).request_channel.isEmpty) ++
  (serializerText ++ deserializerText ++ classFoot))

def GenerateServer (c : Compilation) (disable_version : Bool) (service : ServiceDescriptor) : List Call :=
  assign serverVars ++ (package c ++ .set .Package service.package :: PrintServer c disable_version service)

end Text

-- One case of a switch as its source has it.
structure CaseWords (W : Type) where
  label : W
  service : W
  input : W
  parsed : W
  transform : W
  flux : Option W
  deriving DecidableEq

def CaseWords.map (g : W → V) (k : CaseWords W) : CaseWords V :=
  ⟨g k.label,g k.service,g k.input,g k.parsed,g k.transform,k.flux.map g⟩

section Schema
variable (v : Vocabulary W)

def CaseWords.unary (k : CaseWords W) : List (Event W) := [
  .applied (v.text "payload.getData") [],
  .applied (v.dotted .CodedInputStream ".newInstance") [v.text "payload.getData"],
  .line [v.class_ .CodedInputStream,v.text "is",v.dotted .CodedInputStream ".newInstance"],
  .applied k.parsed [v.text "is"],
  .applied k.service [k.parsed,v.text "metadata"]]

def CaseWords.channel (k : CaseWords W) : List (Event W) := [
  .applied k.parsed [],
  .applied (v.text "deserializer") [k.parsed],
  .applied (v.text "publisher.map") [v.text "deserializer"],
  .line [v.class_ .Flux,k.input,v.text "messages",v.text "publisher.map"],
  .applied k.service [v.text "messages",v.text "metadata"]]

-- What becomes of a response.
def CaseWords.responded (k : CaseWords W) : List (Event W) := [
  .applied (v.text ".map") [v.text "serializer"],
  .applied (v.text ".transform") [k.transform]]

def CaseWords.body (interaction : Interaction) (k : CaseWords W) : List (Event W) :=
  match interaction with
  | .fireAndForget => k.unary v ++ [.line [v.text "return",k.service]]
  | .requestChannel => k.channel v ++ k.responded v ++ (k.flux.toList.map fun flux => .applied flux []) ++
      [.line ([v.text "return",k.service,v.text ".map",v.text ".transform"] ++ k.flux.toList)]
  | _ => k.unary v ++ k.responded v ++ [.line [v.text "return",k.service,v.text ".map",v.text ".transform"]]

def CaseWords.events (interaction : Interaction) (k : CaseWords W) : List (Event W) :=
  .opened [v.text "case",k.label] :: (k.body v interaction ++ [.closed])

def Interaction.publisher : Interaction → Global
  | .fireAndForget => .Mono
  | .requestResponse => .Mono
  | .requestStream => .Flux
  | .requestChannel => .Flux

def Interaction.spelling : Interaction → String
  | .fireAndForget => "fireAndForget"
  | .requestResponse => "requestResponse"
  | .requestStream => "requestStream"
  | .requestChannel => "requestChannel"

def handlerHeadEvents (interaction : Interaction) : List (Event W) :=
  let name := v.text interaction.spelling
  let element := if interaction = .fireAndForget then v.text "Void" else v.class_ .Payload
  let publisher := if interaction = .requestChannel then [v.class_ .Flux,v.class_ .Payload,v.text "publisher"] else []
  [.applied name ([v.class_ .Payload,v.text "payload"] ++ publisher),
    .opened [v.class_ .Override,v.text "public",v.class_ interaction.publisher,element,name]]

def refused (publisher : Global) (arguments : List W) : List (Event W) := [
  .applied (v.text "UnsupportedOperationException") arguments,
  .applied (v.dotted publisher ".error") [v.text "new",v.text "UnsupportedOperationException"],
  .line [v.text "return",v.dotted publisher ".error"]]

def switchHeadEvents : List (Event W) := [
  .opened [v.text "try"],
  .applied (v.text "payload.sliceMetadata") [],
  .line [v.class_ .ByteBuf,v.text "metadata",v.text "payload.sliceMetadata"],
  .applied (v.dotted .ProteusMetadata ".methodId") [v.text "metadata"],
  .applied (v.text "switch") [v.dotted .ProteusMetadata ".methodId"],
  .opened [v.text "switch"]]

def switchFootEvents (publisher : Global) : List (Event W) :=
  .opened [v.text "default"] :: refused v publisher [] ++ [
  .closed,
  .closed,
  .closed,
  .applied (v.text "catch") [v.text "Throwable",v.text "t"],
  .opened [v.text "catch"],
  .applied (v.dotted publisher ".error") [v.text "t"],
  .line [v.text "return",v.dotted publisher ".error"],
  .closed]

def handlerEndEvents (interaction : Interaction) : List (Event W) :=
  if interaction = .requestChannel then []
  else [
    .opened [v.text "finally"],
    .applied (v.text "payload.release") [],
    .line [v.text "payload.release"],
    .closed]

def channelsHeadEvents : List (Event W) := [
  .applied (v.text "requestChannel") [v.class_ .Publisher,v.class_ .Payload,v.text "payloads"],
  .opened [v.class_ .Override,v.text "public",v.class_ .Flux,v.class_ .Payload,v.text "requestChannel"]]

-- The type arguments come between the class and its brackets, so it is not
-- taken for a name that is applied.
def switchedEvents : List (Event W) := [
  .opened [v.text "payloads",v.text "new",v.class_ .BiFunction,v.class_ .Payload,v.class_ .Flux,v.class_ .Payload,
    v.class_ .Publisher,v.text "extends",v.class_ .Payload],
  .applied (v.text "apply") [v.class_ .Payload,v.text "payload",v.class_ .Flux,v.class_ .Payload,v.text "publisher"],
  .opened [v.class_ .Override,v.text "public",v.class_ .Publisher,v.class_ .Payload,v.text "apply"],
  .applied (v.text "requestChannel") [v.text "payload",v.text "publisher"],
  .line [v.text "return",v.text "requestChannel"],
  .closed,
  .closed,
  .line [v.text "return",v.text "new",v.class_ .SwitchTransform,v.class_ .Payload,v.class_ .Payload]]

def serializerEvents : List (Event W) := [
  .opened [v.text "private",v.text "static",v.text "final",v.class_ .Function,v.class_ .MessageLite,v.class_ .Payload,
    v.text "serializer",v.text "new",v.class_ .Function,v.class_ .MessageLite,v.class_ .Payload],
  .applied (v.text "apply") [v.class_ .MessageLite,v.text "message"],
  .opened [v.class_ .Override,v.text "public",v.class_ .Payload,v.text "apply"],
  .applied (v.text "message.getSerializedSize") [],
  .applied (v.dotted .ByteBufAllocator ".DEFAULT.directBuffer") [v.text "message.getSerializedSize"],
  .line [v.class_ .ByteBuf,v.text "byteBuf",v.dotted .ByteBufAllocator ".DEFAULT.directBuffer"],
  .opened [v.text "try"],
  .applied (v.text "byteBuf.writableBytes") [],
  .applied (v.text "byteBuf.nioBuffer") [v.text "0",v.text "byteBuf.writableBytes"],
  .applied (v.dotted .CodedOutputStream ".newInstance") [v.text "byteBuf.nioBuffer"],
  .applied (v.text "message.writeTo") [v.dotted .CodedOutputStream ".newInstance"],
  .line [v.text "message.writeTo"],
  .applied (v.text "byteBuf.capacity") [],
  .applied (v.text "byteBuf.writerIndex") [v.text "byteBuf.capacity"],
  .line [v.text "byteBuf.writerIndex"],
  .applied (v.dotted .ByteBufPayload ".create") [v.text "byteBuf"],
  .line [v.text "return",v.dotted .ByteBufPayload ".create"],
  .closed,
  .applied (v.text "catch") [v.text "Throwable",v.text "t"],
  .opened [v.text "catch"],
  .applied (v.text "byteBuf.release") [],
  .line [v.text "byteBuf.release"],
  .applied (v.text "RuntimeException") [v.text "t"],
  .line [v.text "throw",v.text "new",v.text "RuntimeException"],
  .closed,
  .closed,
  .closed,
  .line []]

-- A class that names its service: the version and the file it is from, its name,
-- and the references to the constants of its interface.
structure ServerWords (W : Type) where
  version : W
  file : W
  class_name : W
  service_name : W
  namespace_id : W
  service_id : W

def ServerWords.map (g : W → V) (k : ServerWords W) : ServerWords V :=
  ⟨g k.version,g k.file,g k.class_name,g k.service_name,g k.namespace_id,g k.service_id⟩

def serverHeadEvents (k : ServerWords W) : List (Event W) := [
  .applied (v.class_ .Generated) [v.text "value",k.version,v.text "comments",k.file],
  .opened [v.class_ .Generated,v.text "public",v.text "final",v.text "class",k.class_name,v.text "extends",
    v.class_ .AbstractProteusService],
  .line [v.text "private",v.text "final",k.service_name,v.text "service"]]

def serverConstructorEvents (k : ServerWords W) : List (Event W) := [
  .applied k.class_name [k.service_name,v.text "service"],
  .opened [v.text "public",k.class_name],
  .line [v.text "this.service",v.text "service"]]

def serverMeteredEvents (k : ServerWords W) : List (Event W) := [
  .applied k.class_name [k.service_name,v.text "service",v.class_ .MeterRegistry,v.text "registry"],
  .opened [v.text "public",k.class_name],
  .line [v.text "this.service",v.text "service"]]

def serverIdsEvents (k : ServerWords W) : List (Event W) := [
  .applied (v.text "getNamespaceId") [],
  .opened [v.class_ .Override,v.text "public",v.text "int",v.text "getNamespaceId"],
  .line [v.text "return",k.namespace_id],
  .closed,
  .applied (v.text "getServiceId") [],
  .opened [v.class_ .Override,v.text "public",v.text "int",v.text "getServiceId"],
  .line [v.text "return",k.service_id],
  .closed]

end Schema

section Map
variable (g : W → V) (v : Vocabulary W)

theorem handlerHeadEvents_map (interaction : Interaction) :
    (handlerHeadEvents v interaction).map (Event.map g) = handlerHeadEvents (v.map g) interaction := by
  cases interaction <;> rfl

theorem refused_map (publisher : Global) (arguments : List W) :
    (refused v publisher arguments).map (Event.map g) = refused (v.map g) publisher (arguments.map g) := rfl

theorem switchHeadEvents_map : (switchHeadEvents v).map (Event.map g) = switchHeadEvents (v.map g) := rfl

theorem switchFootEvents_map (publisher : Global) :
    (switchFootEvents v publisher).map (Event.map g) = switchFootEvents (v.map g) publisher := rfl

theorem handlerEndEvents_map (interaction : Interaction) :
    (handlerEndEvents v interaction).map (Event.map g) = handlerEndEvents (v.map g) interaction := by
  cases interaction <;> rfl

theorem channelsHeadEvents_map : (channelsHeadEvents v).map (Event.map g) = channelsHeadEvents (v.map g) := rfl

theorem switchedEvents_map : (switchedEvents v).map (Event.map g) = switchedEvents (v.map g) := rfl

theorem serializerEvents_map : (serializerEvents v).map (Event.map g) = serializerEvents (v.map g) := rfl

theorem serverHeadEvents_map (k : ServerWords W) :
    (serverHeadEvents v k).map (Event.map g) = serverHeadEvents (v.map g) (k.map g) := rfl

theorem serverConstructorEvents_map (k : ServerWords W) :
    (serverConstructorEvents v k).map (Event.map g) = serverConstructorEvents (v.map g) (k.map g) := rfl

theorem serverMeteredEvents_map (k : ServerWords W) :
    (serverMeteredEvents v k).map (Event.map g) = serverMeteredEvents (v.map g) (k.map g) := rfl

theorem serverIdsEvents_map (k : ServerWords W) :
    (serverIdsEvents v k).map (Event.map g) = serverIdsEvents (v.map g) (k.map g) := rfl

end Map

theorem CaseWords.events_map (g : W → V) (v : Vocabulary W) (interaction : Interaction) (k : CaseWords W) :
    (k.events v interaction).map (Event.map g) = (k.map g).events (v.map g) interaction := by
  obtain ⟨label,service,input,parsed,transform,flux⟩ := k
  cases interaction <;> cases flux <;> rfl

-- A case of the abstract server, as its source has it.
def Case.words (c : Compilation) (server : Server) (interaction : Interaction) (k : Case) : CaseWords CString where
  label := server.service_name ++ bytes "." ++ k.method_id_name
  service := bytes "service." ++ k.lower_method_name
  input := c.ClassName k.input_type
  parsed := c.ClassName k.input_type ++ bytes (if interaction = .requestChannel then ".parser" else ".parseFrom")
  transform := k.lower_method_name
  flux := if k.flux then some (bytes ".flux") else none

def Server.words (c : Compilation) (disable_version : Bool) (server : Server) : ServerWords CString where
  version := bytes "by Proteus proto compiler" ++ proteus_version c disable_version
  file := bytes "Source: " ++ c.file_name
  class_name := server.server_class_name
  service_name := server.service_name
  namespace_id := server.service_name ++ bytes "." ++ server.namespace_id_name
  service_id := server.service_name ++ bytes "." ++ server.service_id_name

-- The metric of a method of the service on the server's side.
def Signature.metric (v : Vocabulary CString) (s : Signature) : Metric CString :=
  ⟨s.lower_method_name,bytes "this." ++ s.lower_method_name,if s.returns = .monoVoid then bytes "Void" else v.class_ .Payload⟩

def handlerEvents (v : Vocabulary CString) (interaction : Interaction) (cases : List (CaseWords CString)) :
    List (Event CString) :=
  handlerHeadEvents v interaction ++
  (if cases.isEmpty then refused v interaction.publisher [bytes (Text.absentText interaction)]
    else switchHeadEvents v ++ cases.flatMap (CaseWords.events v interaction) ++
      (switchFootEvents v interaction.publisher ++ handlerEndEvents v interaction)) ++
  [.closed]

def Server.handler (c : Compilation) (server : Server) (interaction : Interaction) : List (Event CString) :=
  handlerEvents (Env.vocabulary Text.serverVars.reverse) interaction
    ((server.cases interaction).map (Case.words c server interaction))

def channelsEvents (v : Vocabulary CString) (empty : Bool) : List (Event CString) :=
  channelsHeadEvents v ++
  (if empty then refused v .Flux [bytes "Request-Channel not implemented."] else switchedEvents v) ++
  [.closed]

-- The outline of a server, with the methods of its service for their metrics.
def Server.events (c : Compilation) (disable_version : Bool) (package : CString) (methods : List Signature) (server : Server) :
    List (Event CString) :=
  let v := Env.vocabulary Text.serverVars.reverse
  let words := server.words c disable_version
  serverHeadEvents v words ++
  methods.flatMap (fun s => (s.metric v).declared v) ++
  serverConstructorEvents v words ++
  methods.flatMap (fun s => (s.metric v).identity v) ++ [.closed] ++
  serverMeteredEvents v words ++
  methods.flatMap (fun s => (s.metric v).timed v "proteus.server" package server.service_name) ++ [.closed] ++
  serverIdsEvents v words ++
  (server.handler c .fireAndForget ++ server.handler c .requestResponse ++ server.handler c .requestStream ++
    server.handler c .requestChannel ++ channelsEvents v server.request_channel.isEmpty) ++
  (serializerEvents v ++ deserializerEvents v ++ [.closed])

namespace Text

def serverNames : List Var := [.proteus_version,.server_class_name,.file_name,.service_id_name,.namespace_id_name,
  .service_name,.Package,.Parser,.MessageLite,.CodedOutputStream,.CodedInputStream,.ByteBufAllocator,.ByteBuffer,.ByteBuf,
  .MeterRegistry,.ProteusMetrics,.ProteusMetadata,.AbstractProteusService,.SwitchTransform,.ByteBufPayload,.Payload,.RSocket,
  .Generated,.Publisher,.Override,.BiFunction,.Supplier,.Function,.flatMap,.flux,.from_,.Mono,.Flux]

def caseNames : Interaction → List Var
  | .fireAndForget => [.method_id_name,.lower_method_name,.input_type]
  | _ => [.method_id_name,.lower_method_name,.output_type,.input_type]

def casePhrase (interaction : Interaction) (server_streaming : Bool) : CaseWords Phrase where
  label := named .service_name ++ fixed "." ++ named .method_id_name
  service := fixed "service." ++ named .lower_method_name
  input := named .input_type
  parsed := named .input_type ++ fixed (if interaction = .requestChannel then ".parser" else ".parseFrom")
  transform := named .lower_method_name
  flux := if interaction = .requestChannel ∧ !server_streaming then some (fixed "." ++ named .flux) else none

def CaseBlock (interaction : Interaction) (server_streaming : Bool) : Prop :=
  Block (caseNames interaction ++ serverNames) (.blank,around 4) (caseText interaction server_streaming)
    ((casePhrase interaction server_streaming).events phrases interaction) (.blank,around 4) 4 4

theorem case_block (interaction : Interaction) (server_streaming : Bool) : CaseBlock interaction server_streaming := by
  have forgotten : CaseBlock .fireAndForget true := ⟨by decide +kernel,rfl⟩
  have answered : CaseBlock .requestResponse true := ⟨by decide +kernel,rfl⟩
  have streamed : CaseBlock .requestStream true := ⟨by decide +kernel,rfl⟩
  have bidi : CaseBlock .requestChannel true := ⟨by decide +kernel,rfl⟩
  have collected : CaseBlock .requestChannel false := ⟨by decide +kernel,rfl⟩
  cases interaction with
  | fireAndForget => cases server_streaming <;> exact forgotten
  | requestResponse => cases server_streaming <;> exact answered
  | requestStream => cases server_streaming <;> exact streamed
  | requestChannel =>
    cases server_streaming with
    | true => exact bidi
    | false => exact collected

def serverWordsPhrase : ServerWords Phrase where
  version := fixed "by Proteus proto compiler" ++ named .proteus_version
  file := fixed "Source: " ++ named .file_name
  class_name := named .server_class_name
  service_name := named .service_name
  namespace_id := named .service_name ++ fixed "." ++ named .namespace_id_name
  service_id := named .service_name ++ fixed "." ++ named .service_id_name

-- The other parts of a server, with the depths they begin and end at.
structure ServerBlocks : Prop where
  head : Block serverNames (.blank,around 0) serverHead (serverHeadEvents phrases serverWordsPhrase) (.blank,around 1) 0 1
  field (client_streaming server_streaming fields : Bool) : Block ([.lower_method_name] ++ serverNames) (.blank,around 1)
    (serverField client_streaming server_streaming fields)
    ((metricPhrase (if server_streaming || client_streaming || fields then named .Payload else fixed "Void")).declared phrases)
    (.blank,around 1) 1 1
  constructor_ : Block serverNames (.blank,around 1) serverConstructor (serverConstructorEvents phrases serverWordsPhrase)
    (.blank,around 2) 1 2
  identity : Block ([.lower_method_name] ++ serverNames) (.blank,around 2) serverIdentity
    ((metricPhrase (fixed "")).identity phrases) (.blank,around 2) 2 2
  metered : Block serverNames (.blank,around 1) serverMetered (serverMeteredEvents phrases serverWordsPhrase)
    (.blank,around 2) 1 2
  timed : Block ([.lower_method_name] ++ serverNames) (.blank,around 2) serverTimed
    ((metricPhrase (fixed "")).timed phrases "proteus.server" (named .Package) (named .service_name)) (.blank,around 2) 2 2
  ids : Block serverNames (.blank,around 1) serverIds (serverIdsEvents phrases serverWordsPhrase) (.blank,around 1) 1 1
  handlerHead (interaction : Interaction) : Block serverNames (.blank,around 1) (handlerHead (handlerSignature interaction))
    (handlerHeadEvents phrases interaction) (.blank,around 2) 1 2
  handlerAbsent (interaction : Interaction) : Block serverNames (.blank,around 2)
    (handlerAbsent (handlerPublisher interaction) (absentText interaction))
    (refused phrases interaction.publisher [fixed (absentText interaction)]) (.blank,around 2) 2 2
  switchHead : Block serverNames (.blank,around 2) switchHead (switchHeadEvents phrases) (.blank,around 4) 2 4
  switchFoot (interaction : Interaction) : Block serverNames (.blank,around 4)
    (switchFoot (handlerPublisher interaction) ++ handlerEnd interaction)
    (switchFootEvents phrases interaction.publisher ++ handlerEndEvents phrases interaction) (.blank,around 2) 4 2
  channelsHead : Block serverNames (.blank,around 1) channelsHead (channelsHeadEvents phrases) (.blank,around 2) 1 2
  switched : Block serverNames (.blank,around 2) switched (switchedEvents phrases) (.blank,around 2) 2 2
  serializer : Block serverNames (.blank,around 1) serializerText (serializerEvents phrases) (.blank,around 1) 1 1
  deserializer : Block serverNames (.blank,around 1) deserializerText (deserializerEvents phrases) (.blank,around 1) 1 1

theorem serverBlocks : ServerBlocks where
  head := ⟨by decide +kernel,rfl⟩
  field client_streaming server_streaming fields := by
    have typed : Block ([.lower_method_name] ++ serverNames) (.blank,around 1) (serverField true true true)
      ((metricPhrase (named .Payload)).declared phrases) (.blank,around 1) 1 1 := ⟨by decide +kernel,rfl⟩
    have void : Block ([.lower_method_name] ++ serverNames) (.blank,around 1) (serverField false false false)
      ((metricPhrase (fixed "Void")).declared phrases) (.blank,around 1) 1 1 := ⟨by decide +kernel,rfl⟩
    cases client_streaming <;> cases server_streaming <;> cases fields <;> assumption
  constructor_ := ⟨by decide +kernel,rfl⟩
  identity := ⟨by decide +kernel,rfl⟩
  metered := ⟨by decide +kernel,rfl⟩
  timed := ⟨by decide +kernel,rfl⟩
  ids := ⟨by decide +kernel,rfl⟩
  handlerHead interaction := by cases interaction <;> exact ⟨by decide +kernel,rfl⟩
  handlerAbsent interaction := by cases interaction <;> exact ⟨by decide +kernel,rfl⟩
  switchHead := ⟨by decide +kernel,rfl⟩
  switchFoot interaction := by cases interaction <;> exact ⟨by decide +kernel,rfl⟩
  channelsHead := ⟨by decide +kernel,rfl⟩
  switched := ⟨by decide +kernel,rfl⟩
  serializer := ⟨by decide +kernel,by decide +kernel⟩
  deserializer := ⟨by decide +kernel,by decide +kernel⟩

example : (emit (assign serverVars ++ .set .service_name (bytes "TestService") ::
      assign (caseEntries TestService.compilation .requestResponse TestService.UnaryCall) ++ caseText .requestResponse false)
        (.start Page.filePrinter)).toOption.map (·.page.output) =
    some (bytes "case TestService.METHOD_UNARY_CALL: \x7b\n" ++
      bytes "  com.google.protobuf.CodedInputStream is = " ++
      bytes "com.google.protobuf.CodedInputStream.newInstance(payload.getData());\n" ++
      bytes "  return service.unaryCall(io.netifi.testing.integration.Test.SimpleRequest.parseFrom(is), metadata)" ++
      bytes ".map(serializer).transform(unaryCall);\n" ++
      bytes "\x7d\n") := by decide +kernel

-- What is known of vars behind the loops' own entries.
def serverKnown (c : Compilation) (disable_version : Bool) (service : ServiceDescriptor) : Env :=
  (serverEntries c disable_version service).reverse ++ (.Package,service.package) :: serverVars.reverse

section Printed
variable {c : Compilation} {service : ServiceDescriptor} (spelled : Spelled c service) (disable_version : Bool)

theorem serverKnown_vocabulary : (serverKnown c disable_version service).vocabulary = Env.vocabulary serverVars.reverse :=
  (vocabulary_append rfl).trans (@vocabulary_append [(.Package,service.package)] _ rfl)

theorem serverPhrases_filled : phrases.map (fill (Env.value (serverKnown c disable_version service))) =
    Env.vocabulary serverVars.reverse := (phrases_filled _).trans (serverKnown_vocabulary disable_version)

theorem serverWords_filled : serverWordsPhrase.map (fill (Env.value (serverKnown c disable_version service))) =
    (JavaGenerator.PrintServer service).words c disable_version := by
  simp only [ServerWords.map,serverWordsPhrase,fill_append,fill_fixed,fill_named]
  rfl

theorem case_filled (value : Var → CString) (interaction : Interaction) (method : MethodDescriptor)
    (input : value .input_type = c.ClassName method.input_type) (name : value .lower_method_name = LowerMethodName method)
    (id : value .method_id_name = MethodIdFieldName method) (service_name : value .service_name = service.name)
    (flux : value .flux = bytes "flux") :
    (casePhrase interaction method.server_streaming).map (fill value) =
      (caseOf interaction method).words c (JavaGenerator.PrintServer service) interaction := by
  have dotted : bytes "." ++ bytes "flux" = bytes ".flux" := by decide +kernel
  cases interaction <;> cases server : method.server_streaming <;>
    simp [CaseWords.map,casePhrase,Case.words,caseOf,unaryCase,channelCase,JavaGenerator.PrintServer,server,input,name,id,
      service_name,flux,dotted]

include spelled

theorem serverKnown_valid : (serverKnown c disable_version service).Valid := by
  have class_name : Var.Fits .server_class_name (ServerClassName service) := class_wordy spelled.name (by decide +kernel)
  exact known_valid spelled disable_version (by decide +kernel) class_name

theorem case_fits (interaction : Interaction) (member : method ∈ service.methods) :
    ∀ entry ∈ caseEntries c interaction method, entry.1.Fits entry.2 := by
  obtain ⟨input,output⟩ := spelled.types method member
  have input_type : Var.Fits .input_type (c.ClassName method.input_type) := input
  have output_type : Var.Fits .output_type (c.ClassName method.output_type) := output
  have rest : ∀ entry ∈ [(Var.lower_method_name,LowerMethodName method),(.method_id_name,MethodIdFieldName method)],
      entry.1.Fits entry.2 := by
    intro entry listed
    simp only [List.mem_cons,List.not_mem_nil,or_false] at listed
    rcases listed with rfl | rfl
    · exact lower_wordy (spelled.methods method member)
    · exact field_wordy (spelled.methods method member)
  cases interaction with
  | fireAndForget => exact List.forall_mem_cons.mpr ⟨input_type,rest⟩
  | requestResponse => exact List.forall_mem_cons.mpr ⟨input_type,List.forall_mem_cons.mpr ⟨output_type,rest⟩⟩
  | requestStream => exact List.forall_mem_cons.mpr ⟨input_type,List.forall_mem_cons.mpr ⟨output_type,rest⟩⟩
  | requestChannel => exact List.forall_mem_cons.mpr ⟨input_type,List.forall_mem_cons.mpr ⟨output_type,rest⟩⟩

theorem case_tells (interaction : Interaction) (member : method ∈ service.methods) : Tells (serverKnown c disable_version service)
    (assign (caseEntries c interaction method) ++ caseText interaction method.server_streaming)
    (((caseOf interaction method).words c (JavaGenerator.PrintServer service) interaction).events
      (Env.vocabulary serverVars.reverse) interaction) 4 4 := by
  have same : Env.names ((caseEntries c interaction method).reverse ++ serverKnown c disable_version service) =
      caseNames interaction ++ serverNames := by
    cases interaction <;> rfl
  have distinct : (Env.names ((caseEntries c interaction method).reverse ++ serverKnown c disable_version service)).Nodup := by
    rw [same]
    cases interaction <;> decide
  have block := case_block interaction method.server_streaming
  rw [CaseBlock,← same] at block
  have told := (serverKnown_valid spelled disable_version).round (case_fits spelled interaction member) distinct block
  have assigned : (Env.names (caseEntries c interaction method).reverse).all Var.assigned := by cases interaction <;> rfl
  rwa [CaseWords.events_map,phrases_filled,vocabulary_append assigned,serverKnown_vocabulary,
    case_filled (Env.value ((caseEntries c interaction method).reverse ++ serverKnown c disable_version service)) interaction method
      (by cases interaction <;> rfl) (by cases interaction <;> rfl) (by cases interaction <;> rfl)
      (by cases interaction <;> rfl) (by cases interaction <;> rfl)] at told

omit spelled in
theorem signature_metric (value : Var → CString) (method : MethodDescriptor) (name : value .lower_method_name = LowerMethodName method)
    (payload : value .Payload = Env.value serverVars.reverse .Payload) :
    (metricPhrase (if method.server_streaming || method.client_streaming || decide (method.output_type.field_count > 0)
      then named .Payload else fixed "Void")).map (fill value) = (signature method).metric (Env.vocabulary serverVars.reverse) := by
  rw [metric_named value name]
  cases client : method.client_streaming <;> cases server : method.server_streaming <;>
    by_cases fields : method.output_type.field_count > 0 <;>
      simp [Signature.metric,signature,returnType,client,server,fields,Env.vocabulary,Global.var,payload]

theorem serverField_tells (member : method ∈ service.methods) : Tells (serverKnown c disable_version service)
    (assign (nameEntries method) ++
      serverField method.client_streaming method.server_streaming (method.output_type.field_count > 0))
    (((signature method).metric (Env.vocabulary serverVars.reverse)).declared (Env.vocabulary serverVars.reverse)) 1 1 := by
  have distinct : (Env.names ((nameEntries method).reverse ++ serverKnown c disable_version service)).Nodup := by
    change ([Var.lower_method_name] ++ serverNames).Nodup
    decide
  have told := (serverKnown_valid spelled disable_version).round (name_fits spelled member) distinct
    (serverBlocks.field method.client_streaming method.server_streaming (method.output_type.field_count > 0))
  rwa [Metric.declared_map,phrases_filled,vocabulary_append rfl,serverKnown_vocabulary,
    signature_metric (Env.value ((nameEntries method).reverse ++ serverKnown c disable_version service)) method rfl rfl] at told

omit spelled in
theorem cases_grouped (interaction : Interaction) : (JavaGenerator.PrintServer service).cases interaction =
    ((groups service).of interaction).map (caseOf interaction) := by
  cases interaction <;> rfl

theorem refused_tells (interaction : Interaction) : Tells (serverKnown c disable_version service)
    (handlerAbsent (handlerPublisher interaction) (absentText interaction))
    (refused (Env.vocabulary serverVars.reverse) interaction.publisher [bytes (absentText interaction)]) 2 2 := by
  have told := (serverKnown_valid spelled disable_version).tells (serverBlocks.handlerAbsent interaction)
  rwa [refused_map,serverPhrases_filled,List.map_singleton,fill_fixed] at told

-- A handler without methods refuses, the others switch over the labels of theirs.
theorem handler_tells (interaction : Interaction) : Tells (serverKnown c disable_version service) (groupText c interaction service)
    ((JavaGenerator.PrintServer service).handler c interaction) 1 1 := by
  have head := (serverKnown_valid spelled disable_version).tells (serverBlocks.handlerHead interaction)
  have foot := (serverKnown_valid spelled disable_version).tells (bodyFoot_block _)
  rw [handlerHeadEvents_map,serverPhrases_filled] at head
  rw [Server.handler,handlerEvents,cases_grouped,groupText,handlerText]
  cases grouped : (groups service).of interaction with
  | nil => exact (head.append (refused_tells spelled disable_version interaction)).append foot
  | cons method methods =>
    have member : ∀ other ∈ method :: methods, other ∈ service.methods := by
      intro other listed
      rw [← grouped,groups_exact] at listed
      exact (List.mem_filter.mp listed).1
    have first := (serverKnown_valid spelled disable_version).tells serverBlocks.switchHead
    have cases_ := Tells.loop fun other (listed : other ∈ method :: methods) =>
      case_tells spelled disable_version interaction (member other listed)
    have last := (serverKnown_valid spelled disable_version).tells (serverBlocks.switchFoot interaction)
    rw [switchHeadEvents_map,serverPhrases_filled] at first
    rw [List.map_append,switchFootEvents_map,handlerEndEvents_map,serverPhrases_filled] at last
    rw [List.map_map,List.flatMap_map]
    exact (head.append ((first.append cases_).append last)).append foot

theorem channels_tells : Tells (serverKnown c disable_version service) (channelsText (groups service).request_channel.isEmpty)
    (channelsEvents (Env.vocabulary serverVars.reverse) (JavaGenerator.PrintServer service).request_channel.isEmpty) 1 1 := by
  have head := (serverKnown_valid spelled disable_version).tells serverBlocks.channelsHead
  have through := (serverKnown_valid spelled disable_version).tells serverBlocks.switched
  have foot := (serverKnown_valid spelled disable_version).tells (bodyFoot_block _)
  rw [channelsHeadEvents_map,serverPhrases_filled] at head
  rw [switchedEvents_map,serverPhrases_filled] at through
  have same : (JavaGenerator.PrintServer service).request_channel.isEmpty = (groups service).request_channel.isEmpty :=
    List.isEmpty_map
  rw [channelsText,channelsEvents,same]
  cases (groups service).request_channel.isEmpty with
  | true => exact (head.append (refused_tells spelled disable_version .requestChannel)).append foot
  | false => exact (head.append through).append foot

theorem serverBody_tells : Tells (serverKnown c disable_version service) (serverHead ++
  (service.methods.flatMap fun method => assign (nameEntries method) ++
    serverField method.client_streaming method.server_streaming (method.output_type.field_count > 0)) ++
  serverConstructor ++
  (service.methods.flatMap fun method => assign (nameEntries method) ++ serverIdentity) ++
  bodyFoot ++ serverMetered ++
  (service.methods.flatMap fun method => assign (nameEntries method) ++ serverTimed) ++
  bodyFoot ++ serverIds ++
  (groupText c .fireAndForget service ++ groupText c .requestResponse service ++ groupText c .requestStream service ++
  groupText c .requestChannel service ++ channelsText (groups service).request_channel.isEmpty) ++
  (serializerText ++ deserializerText ++ classFoot))
    ((JavaGenerator.PrintServer service).events c disable_version service.package (service.methods.map signature)) 0 0 := by
  have known := serverKnown_valid spelled disable_version
  have words : (serverKnown c disable_version service).vocabulary = Env.vocabulary serverVars.reverse :=
    serverKnown_vocabulary disable_version
  have distinct (method : MethodDescriptor) :
      (Env.names ((nameEntries method).reverse ++ serverKnown c disable_version service)).Nodup := by
    change ([Var.lower_method_name] ++ serverNames).Nodup
    decide
  have metric (method : MethodDescriptor) : ((signature method).metric (Env.vocabulary serverVars.reverse)).Named method := ⟨rfl,rfl⟩
  have head := known.tells serverBlocks.head
  have fields := Tells.loop fun method (member : method ∈ service.methods) => serverField_tells spelled disable_version member
  have constructor_ := known.tells serverBlocks.constructor_
  have identities := Tells.loop fun method (member : method ∈ service.methods) =>
    identity_tells known words (distinct method) (name_fits spelled member) (metric method) serverBlocks.identity
  have metered := known.tells serverBlocks.metered
  have timed := Tells.loop fun method (member : method ∈ service.methods) =>
    timed_tells known words (distinct method) (name_fits spelled member) (metric method) serverBlocks.timed rfl rfl
  have ids := known.tells serverBlocks.ids
  have foot := known.tells (bodyFoot_block _)
  have handlers := ((((handler_tells spelled disable_version .fireAndForget).append
    (handler_tells spelled disable_version .requestResponse)).append (handler_tells spelled disable_version .requestStream)).append
    (handler_tells spelled disable_version .requestChannel)).append (channels_tells spelled disable_version)
  have serialize := known.tells serverBlocks.serializer
  have deserialize := known.tells serverBlocks.deserializer
  have last := known.tells (classFoot_block _)
  rw [serverHeadEvents_map,serverPhrases_filled,serverWords_filled] at head
  rw [serverConstructorEvents_map,serverPhrases_filled,serverWords_filled] at constructor_
  rw [serverMeteredEvents_map,serverPhrases_filled,serverWords_filled] at metered
  rw [serverIdsEvents_map,serverPhrases_filled,serverWords_filled] at ids
  rw [serializerEvents_map,serverPhrases_filled] at serialize
  rw [deserializerEvents_map,serverPhrases_filled] at deserialize
  have body := (((((((((head.append fields).append constructor_).append
    identities).append foot).append metered).append timed).append
    foot).append ids).append handlers).append
    ((serialize.append deserialize).append last)
  rw [Server.events]
  simp only [List.flatMap_map]
  exact body

theorem server_tells : Tells [] (GenerateServer c disable_version service)
    (packageEvents (packageName c) ++
      (JavaGenerator.PrintServer service).events c disable_version service.package (service.methods.map signature)) 0 0 := by
  have distinct : (Env.names (serverKnown c disable_version service)).Nodup := by
    change serverNames.Nodup
    decide
  exact Tells.generated spelled distinct (serverBody_tells spelled disable_version)

end Printed

-- The source of a server is complete, and has every case of the abstract server
-- in the handler of its interaction. The metrics are those of the methods that
-- the interface declares.
theorem server_outline (P : FilePrinter) (c : Compilation) (service : ServiceDescriptor) (spelled : Spelled c service)
    (disable_version : Bool) :
    ∃ e, emit (GenerateServer c disable_version service) (.start P) = .ok e ∧ e.page.indent = 0 ∧
      outline e.page.output = some (packageEvents (packageName c) ++
        (JavaGenerator.PrintServer service).events c disable_version service.package (JavaGenerator.PrintInterface service).methods) :=
  (server_tells spelled disable_version).file P

theorem server_outline_test :
    ∃ e, emit (GenerateServer TestService.compilation false TestService.descriptor) (.start Page.filePrinter) = .ok e ∧
      e.page.indent = 0 ∧ outline e.page.output = some (packageEvents (packageName TestService.compilation) ++
        (JavaGenerator.PrintServer TestService.descriptor).events TestService.compilation false TestService.descriptor.package
          (JavaGenerator.PrintInterface TestService.descriptor).methods) :=
  server_outline Page.filePrinter TestService.compilation TestService.descriptor TestService.spelled false

end Text
end Proteus.JavaGenerator
