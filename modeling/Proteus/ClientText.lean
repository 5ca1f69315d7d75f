import Proteus.InterfaceText

namespace Proteus.JavaGenerator
open Transducer

namespace Text

-- The entries GenerateClient starts with.
def clientVars : Env := [
  (.Flux,bytes "reactor.core.publisher.Flux"),
  (.Mono,bytes "reactor.core.publisher.Mono"),
  (.from_,bytes "from"),
  (.Function,bytes "java.util.function.Function"),
  (.Supplier,bytes "java.util.function.Supplier"),
  (.Override,bytes "java.lang.Override"),
  (.Publisher,bytes "org.reactivestreams.Publisher"),
  (.Generated,bytes "javax.annotation.Generated"),
  (.RSocket,bytes "io.rsocket.RSocket"),
  (.Payload,bytes "io.rsocket.Payload"),
  (.ByteBufPayload,bytes "io.rsocket.util.ByteBufPayload"),
  (.ByteBuf,bytes "io.netty.buffer.ByteBuf"),
  (.ByteBufAllocator,bytes "io.netty.buffer.ByteBufAllocator"),
  (.Unpooled,bytes "io.netty.buffer.Unpooled"),
  (.ByteBuffer,bytes "java.nio.ByteBuffer"),
  (.CodedInputStream,bytes "com.google.protobuf.CodedInputStream"),
  (.CodedOutputStream,bytes "com.google.protobuf.CodedOutputStream"),
  (.ProteusMetadata,bytes "io.netifi.proteus.frames.ProteusMetadata"),
  (.ProteusMetrics,bytes "io.netifi.proteus.metrics.ProteusMetrics"),
  (.MeterRegistry,bytes "io.micrometer.core.instrument.MeterRegistry"),
  (.MessageLite,bytes "com.google.protobuf.MessageLite"),
  (.Parser,bytes "com.google.protobuf.Parser")]

def clientHead : List Call := [
  .print [
    "@$Generated$(\n",
    "    value = \"by Proteus proto compiler$proteus_version$\",\n",
    "    comments = \"Source: $file_name$\")\n",
    "public final class $client_class_name$ implements $service_name$ \x7b\n"],
  .indent,
  .print ["private final $RSocket$ rSocket;\n"]]

-- The field of a metric, of one type or the other.
def clientField (client_streaming server_streaming fields : Bool) : List Call :=
  let typed : List Call := [.print ["private final $Function$<? super $Publisher$<$output_type$>, ? extends ",
    "$Publisher$<$output_type$>> $lower_method_name$;\n"]]
  if server_streaming then typed
  else if client_streaming then typed
  else if fields then typed
  else [.print ["private final $Function$<? super $Publisher$<Void>, ? extends ",
    "$Publisher$<Void>> $lower_method_name$;\n"]]

def clientConstructor : List Call := [
  .print ["\n","public $client_class_name$($RSocket$ rSocket) \x7b\n"],
  .indent,
  .print ["this.rSocket = rSocket;\n"]]

def clientIdentity : List Call := [.print ["this.$lower_method_name$ = $Function$.identity();\n"]]

def clientMetered : List Call := [
  .print ["public $client_class_name$($RSocket$ rSocket, $MeterRegistry$ registry) \x7b\n"],
  .indent,
  .print ["this.rSocket = rSocket;\n"]]

def clientTimed : List Call := [
  .print ["this.$lower_method_name$ = $ProteusMetrics$.timed(registry, \"proteus.client\", \"namespace\", ",
    "\"$Package$\", \"service\", \"$service_name$\", \"method\", \"$lower_method_name$\");\n"]]

-- The end of a body, with an empty line.
def bodyFoot : List Call := [.outdent,.plain ["\x7d\n\n"]]

def clientReturns (annotated : List String) (client_streaming server_streaming fields : Bool) : List Call :=
  if server_streaming then [.print (annotated ++ ["public $Flux$<$output_type$> $lower_method_name$"])]
  else if client_streaming then [.print (annotated ++ ["public $Mono$<$output_type$> $lower_method_name$"])]
  else if fields then [.print (annotated ++ ["public $Mono$<$output_type$> $lower_method_name$"])]
  else [.print (annotated ++ ["public $Mono$<Void> $lower_method_name$"])]

def clientOverload (client_streaming : Bool) : List Call :=
  if client_streaming then [
    .print ["($Publisher$<$input_type$> messages) \x7b\n"],
    .indent,
    .print ["return $lower_method_name$(messages, $Unpooled$.EMPTY_BUFFER);\n"]] ++ bodyFoot
  else [
    .print ["($input_type$ message) \x7b\n"],
    .indent,
    .print ["return $lower_method_name$(message, $Unpooled$.EMPTY_BUFFER);\n"]] ++ bodyFoot

def clientChannel (server_streaming : Bool) : List Call := [
  .print ["($Publisher$<$input_type$> messages, $ByteBuf$ metadata) \x7b\n"],
  .indent,
  .print ["return rSocket.requestChannel($Flux$.$from$(messages).map(\n"],
  .indent,
  .print ["new $Function$<$MessageLite$, $Payload$>() \x7b\n"],
  .indent,
  .print ["boolean once;\n\n","@$Override$\n","public $Payload$ apply($MessageLite$ message) \x7b\n"],
  .indent,
  .print ["$ByteBuf$ data = serialize(message);\n","if (!once) \x7b\n"],
  .indent,
  .print [
    "final int length = $ProteusMetadata$.computeLength();\n",
    "final $ByteBuf$ metadataBuf = $ByteBufAllocator$.DEFAULT.directBuffer(length);\n",
    "$ProteusMetadata$.encode(metadataBuf, $service_name$.$namespace_id_name$, ",
    "$service_name$.$service_id_name$, $service_name$.$method_id_name$, metadata);\n",
    "return $ByteBufPayload$.create(data, metadataBuf);\n"],
  .outdent,
  .plain ["\x7d else \x7b\n"],
  .indent,
  .print ["return $ByteBufPayload$.create(data);\n"],
  .outdent,
  .plain ["\x7d\n"],
  .outdent,
  .plain ["\x7d\n"],
  .outdent,
  if server_streaming then
    .print ["\x7d)).map(deserializer($output_type$.parser())).transform($lower_method_name$);\n"]
  else
    .print ["\x7d)).map(deserializer($output_type$.parser())).single().transform($lower_method_name$);\n"],
  .outdent,
  .outdent,
  .plain ["\x7d\n\n"]]

-- The three kinds of methods that send one message.
def clientUnary (publisher element interaction : String) (operators : List String) : List Call := [
  .print ["($input_type$ message, $ByteBuf$ metadata) \x7b\n"],
  .indent,
  .print ["return ",publisher,".defer(new $Supplier$<",publisher,"<",element,">>() \x7b\n"],
  .indent,
  .print ["@$Override$\n","public ",publisher,"<",element,"> get() \x7b\n"],
  .indent,
  .print [
    "final int length = $ProteusMetadata$.computeLength();\n",
    "$ByteBuf$ metadataBuf = $ByteBufAllocator$.DEFAULT.directBuffer(length);\n",
    "$ProteusMetadata$.encode(metadataBuf, $service_name$.$namespace_id_name$, ",
    "$service_name$.$service_id_name$, $service_name$.$method_id_name$, metadata);\n",
    "$ByteBuf$ data = serialize(message);\n",
    "return rSocket.",interaction,"($ByteBufPayload$.create(data, metadataBuf));\n"],
  .outdent,
  .plain ["\x7d\n"],
  .outdent,
  .print ("\x7d)" :: operators ++ [".transform($lower_method_name$);\n"]),
  .outdent,
  .plain ["\x7d\n\n"]]

def clientBody (client_streaming server_streaming fields : Bool) : List Call :=
  if client_streaming then clientChannel server_streaming
  else if server_streaming then
    clientUnary "$Flux$" "$Payload$" "requestStream" [".map(deserializer($output_type$.parser()))"]
  else if fields then
    clientUnary "$Mono$" "$Payload$" "requestResponse" [".map(deserializer($output_type$.parser()))"]
  else clientUnary "$Mono$" "Void" "fireAndForget" []

def clientMethodText (client_streaming server_streaming fields : Bool) : List Call :=
  clientReturns [] client_streaming server_streaming fields ++ clientOverload client_streaming ++
  clientReturns ["@$Override$\n"] client_streaming server_streaming fields ++
  clientBody client_streaming server_streaming fields

def clientSerialize : List Call := [
  .print ["private static $ByteBuf$ serialize(final $MessageLite$ message) \x7b\n"],
  .indent,
  .print ["$ByteBuf$ byteBuf = $ByteBufAllocator$.DEFAULT.directBuffer(message.getSerializedSize());\n"],
  .plain ["try \x7b\n"],
  .indent,
  .print [
    "message.writeTo($CodedOutputStream$.newInstance(byteBuf.nioBuffer(0, byteBuf.writableBytes())));\n",
    "byteBuf.writerIndex(byteBuf.capacity());\n",
    "return byteBuf;\n"],
  .outdent,
  .plain ["\x7d catch (Throwable t) \x7b\n"],
  .indent,
  .plain ["byteBuf.release();\n","throw new RuntimeException(t);\n"],
  .outdent,
  .plain ["\x7d\n"]] ++ bodyFoot

-- The same in a client and in a server.
def deserializerText : List Call := [
  .print ["private static <T> $Function$<$Payload$, T> deserializer(final $Parser$<T> parser) \x7b\n"],
  .indent,
  .print ["return new $Function$<$Payload$, T>() \x7b\n"],
  .indent,
  .print ["@$Override$\n","public T apply($Payload$ payload) \x7b\n"],
  .indent,
  .print ["try \x7b\n"],
  .indent,
  .print ["$CodedInputStream$ is = $CodedInputStream$.newInstance(payload.getData());\n","return parser.parseFrom(is);\n"],
  .outdent,
  .plain ["\x7d catch (Throwable t) \x7b\n"],
  .indent,
  .print ["throw new RuntimeException(t);\n"],
  .outdent,
  .plain ["\x7d finally \x7b\n"],
  .indent,
  .plain ["payload.release();\n"],
  .outdent,
  .plain ["\x7d\n"],
  .outdent,
  .plain ["\x7d\n"],
  .outdent,
  .plain ["\x7d;\n"],
  .outdent,
  .plain ["\x7d\n"]]

def classFoot : List Call := [.outdent,.plain ["\x7d\n"]]

section Entries
variable (c : Compilation)

def clientEntries (disable_version : Bool) (service : ServiceDescriptor) : Env := [
  (.service_name,service.name),
  (.namespace_id_name,NamespaceIdFieldName),
  (.service_id_name,ServiceIdFieldName),
  (.file_name,c.file_name),
  (.client_class_name,ClientClassName service),
  (.proteus_version,proteus_version c disable_version)]

def clientFieldEntries (method : MethodDescriptor) : Env := [
  (.output_type,c.ClassName method.output_type),
  (.lower_method_name,LowerMethodName method)]

def nameEntries (method : MethodDescriptor) : Env := [(.lower_method_name,LowerMethodName method)]

def clientMethodEntries (method : MethodDescriptor) : Env := [
  (.input_type,c.ClassName method.input_type),
  (.output_type,c.ClassName method.output_type),
  (.lower_method_name,LowerMethodName method),
  (.method_id_name,MethodIdFieldName method)]

end Entries

def PrintClient (c : Compilation) (disable_version : Bool) (service : ServiceDescriptor) : List Call :=
  assign (clientEntries c disable_version service) ++
  (clientHead ++
  (service.methods.flatMap fun method => assign (clientFieldEntries c method) ++
    clientField method.client_streaming method.server_streaming (method.output_type.field_count > 0)) ++
  clientConstructor ++
  (service.methods.flatMap fun method => assign (nameEntries method) ++ clientIdentity) ++
  bodyFoot ++ clientMetered ++
  (service.methods.flatMap fun method => assign (nameEntries method) ++ clientTimed) ++
  bodyFoot ++
  (service.methods.flatMap fun method => assign (clientMethodEntries c method) ++
    clientMethodText method.client_streaming method.server_streaming (method.output_type.field_count > 0)) ++
  (clientSerialize ++ deserializerText ++ classFoot))

def GenerateClient (c : Compilation) (disable_version : Bool) (service : ServiceDescriptor) : List Call :=
  assign clientVars ++ (package c ++ .set .Package service.package :: PrintClient c disable_version service)

end Text

-- A generated client method as its source has it.
structure Stub (W : Type) where
  signed : Signed W
  interaction : Interaction
  parser : Option W
  single : Bool
  from_ : W
  namespace_id : W
  service_id : W
  method_id : W
  transform : W
  deriving DecidableEq

def Stub.map (g : W → V) (s : Stub W) : Stub V :=
  ⟨s.signed.map g,s.interaction,s.parser.map g,s.single,g s.from_,g s.namespace_id,g s.service_id,g s.method_id,g s.transform⟩

namespace Stub
variable (v : Vocabulary W) (s : Stub W)

def argument : W := v.text (if s.signed.streamed then "messages" else "message")

def overload : List (Event W) := [
  .applied s.signed.lower_method_name (s.signed.request v),
  .opened (v.text "public" :: (s.signed.result v ++ [s.signed.lower_method_name])),
  .applied s.signed.lower_method_name [s.argument v,v.dotted .Unpooled ".EMPTY_BUFFER"],
  .line [v.text "return",s.signed.lower_method_name],
  .closed]

-- The header of the request; the modifier is what the buffer is declared with.
def encoded (modifier : List W) : List (Event W) := [
  .applied (v.dotted .ProteusMetadata ".computeLength") [],
  .line [v.text "final",v.text "int",v.text "length",v.dotted .ProteusMetadata ".computeLength"],
  .applied (v.dotted .ByteBufAllocator ".DEFAULT.directBuffer") [v.text "length"],
  .line (modifier ++ [v.class_ .ByteBuf,v.text "metadataBuf",v.dotted .ByteBufAllocator ".DEFAULT.directBuffer"]),
  .applied (v.dotted .ProteusMetadata ".encode")
    [v.text "metadataBuf",s.namespace_id,s.service_id,s.method_id,v.text "metadata"],
  .line [v.dotted .ProteusMetadata ".encode"]]

def serialized : List (Event W) := [
  .applied (v.text "serialize") [v.text "message"],
  .line [v.class_ .ByteBuf,v.text "data",v.text "serialize"]]

def source : W :=
  match s.interaction with
  | .fireAndForget => v.dotted .Mono ".defer"
  | .requestResponse => v.dotted .Mono ".defer"
  | .requestStream => v.dotted .Flux ".defer"
  | .requestChannel => v.text "rSocket.requestChannel"

-- A Supplier that builds the request when it is subscribed to.
def deferred (supplied : List W) (request : W) : List (Event W) := [
  .opened ([v.text "new",v.class_ .Supplier] ++ supplied),
  .applied (v.text "get") [],
  .opened ([v.class_ .Override,v.text "public"] ++ supplied ++ [v.text "get"])] ++
  s.encoded v [] ++ serialized v ++ [
  .applied (v.dotted .ByteBufPayload ".create") [v.text "data",v.text "metadataBuf"],
  .applied request [v.dotted .ByteBufPayload ".create"],
  .line [v.text "return",request],
  .closed,
  .closed,
  .applied (s.source v) ([v.text "new",v.class_ .Supplier] ++ supplied)]

-- A Function that serializes the messages, and builds a header while once is false.
def channel : List (Event W) := [
  .applied s.from_ [v.text "messages"],
  .opened [v.text "new",v.class_ .Function,v.class_ .MessageLite,v.class_ .Payload],
  .line [v.text "boolean",v.text "once"],
  .applied (v.text "apply") [v.class_ .MessageLite,v.text "message"],
  .opened [v.class_ .Override,v.text "public",v.class_ .Payload,v.text "apply"]] ++
  serialized v ++ [
  .applied (v.text "if") [v.text "once"],
  .opened [v.text "if"]] ++
  s.encoded v [v.text "final"] ++ [
  .applied (v.dotted .ByteBufPayload ".create") [v.text "data",v.text "metadataBuf"],
  .line [v.text "return",v.dotted .ByteBufPayload ".create"],
  .closed,
  .opened [v.text "else"],
  .applied (v.dotted .ByteBufPayload ".create") [v.text "data"],
  .line [v.text "return",v.dotted .ByteBufPayload ".create"],
  .closed,
  .closed,
  .closed,
  .applied (v.text ".map") [v.text "new",v.class_ .Function,v.class_ .MessageLite,v.class_ .Payload],
  .applied (s.source v) [s.from_,v.text ".map"]]

def requested : List (Event W) :=
  match s.interaction with
  | .fireAndForget => s.deferred v [v.class_ .Mono,v.text "Void"] (v.text "rSocket.fireAndForget")
  | .requestResponse => s.deferred v [v.class_ .Mono,v.class_ .Payload] (v.text "rSocket.requestResponse")
  | .requestStream => s.deferred v [v.class_ .Flux,v.class_ .Payload] (v.text "rSocket.requestStream")
  | .requestChannel => s.channel v

-- What becomes of the response.
def operators : List (Event W) :=
  (match s.parser with
  | some parser => [.applied parser [],.applied (v.text "deserializer") [parser],
      .applied (v.text ".map") [v.text "deserializer"]]
  | none => []) ++
  (if s.single then [.applied (v.text ".single") []] else []) ++
  [.applied (v.text ".transform") [s.transform]]

def chained : List W :=
  (if s.parser.isSome then [v.text ".map"] else []) ++ (if s.single then [v.text ".single"] else []) ++ [v.text ".transform"]

def overriding : List (Event W) := [
  .applied s.signed.lower_method_name (s.signed.request v ++ [v.class_ .ByteBuf,v.text "metadata"]),
  .opened ([v.class_ .Override,v.text "public"] ++ s.signed.result v ++ [s.signed.lower_method_name])] ++
  s.requested v ++ s.operators v ++ [
  .line ([v.text "return",s.source v] ++ s.chained v),
  .closed]

def events : List (Event W) := s.overload v ++ s.overriding v

end Stub

theorem Stub.events_map (g : W → V) (v : Vocabulary W) (s : Stub W) :
    (s.events v).map (Event.map g) = (s.map g).events (v.map g) := by
  obtain ⟨⟨flux,output,name,streamed,input⟩,interaction,parser,single,_,_,_,_,_⟩ := s
  cases streamed <;> cases interaction <;> cases parser <;> cases single <;> rfl

def ClientMethod.stub (c : Compilation) (client : Client) (m : ClientMethod) : Stub CString where
  signed := m.signature.signed c.ClassName
  interaction := m.interaction
  parser := m.deserializer.map fun output_type => c.ClassName output_type ++ bytes ".parser"
  single := m.single
  from_ := Env.value Text.clientVars.reverse .Flux ++ bytes ".from"
  namespace_id := client.service_name ++ bytes "." ++ client.namespace_id_name
  service_id := client.service_name ++ bytes "." ++ client.service_id_name
  method_id := client.service_name ++ bytes "." ++ m.method_id_name
  transform := m.transform

-- The same with holes.
def stubPhrase (client_streaming server_streaming fields : Bool) : Stub Phrase where
  signed := signedPhrase client_streaming server_streaming fields
  interaction :=
    if client_streaming then .requestChannel
    else if server_streaming then .requestStream
    else if fields then .requestResponse
    else .fireAndForget
  parser := if client_streaming || server_streaming || fields then some (named .output_type ++ fixed ".parser") else none
  single := client_streaming && !server_streaming
  from_ := named .Flux ++ fixed "." ++ named .from_
  namespace_id := named .service_name ++ fixed "." ++ named .namespace_id_name
  service_id := named .service_name ++ fixed "." ++ named .service_id_name
  method_id := named .service_name ++ fixed "." ++ named .method_id_name
  transform := named .lower_method_name

-- The events of the parts of a class that do not depend on its methods.
def clientHeadEvents (v : Vocabulary W) (version file class_name service_name : W) : List (Event W) := [
  .applied (v.class_ .Generated) [v.text "value",version,v.text "comments",file],
  .opened [v.class_ .Generated,v.text "public",v.text "final",v.text "class",class_name,v.text "implements",service_name],
  .line [v.text "private",v.text "final",v.class_ .RSocket,v.text "rSocket"]]

def clientConstructorEvents (v : Vocabulary W) (class_name : W) (registry : List W) : List (Event W) := [
  .applied class_name ([v.class_ .RSocket,v.text "rSocket"] ++ registry),
  .opened [v.text "public",class_name],
  .line [v.text "this.rSocket",v.text "rSocket"]]

def serializeEvents (v : Vocabulary W) : List (Event W) := [
  .applied (v.text "serialize") [v.text "final",v.class_ .MessageLite,v.text "message"],
  .opened [v.text "private",v.text "static",v.class_ .ByteBuf,v.text "serialize"],
  .applied (v.text "message.getSerializedSize") [],
  .applied (v.dotted .ByteBufAllocator ".DEFAULT.directBuffer") [v.text "message.getSerializedSize"],
  .line [v.class_ .ByteBuf,v.text "byteBuf",v.dotted .ByteBufAllocator ".DEFAULT.directBuffer"],
  .opened [v.text "try"],
  .applied (v.text "byteBuf.writableBytes") [],
  .applied (v.text "byteBuf.nioBuffer") [v.text "0",v.text "byteBuf.writableBytes"],
  .applied (v.dotted .CodedOutputStream ".newInstance") [v.text "byteBuf.nioBuffer"],
  .applied (v.text "message.writeTo") [v.dotted .CodedOutputStream ".newInstance"],
  .line [v.text "message.writeTo"],
  .applied (v.text "byteBuf.capacity") [],
  .applied (v.text "byteBuf.writerIndex") [v.text "byteBuf.capacity"],
  .line [v.text "byteBuf.writerIndex"],
  .line [v.text "return",v.text "byteBuf"],
  .closed,
  .applied (v.text "catch") [v.text "Throwable",v.text "t"],
  .opened [v.text "catch"],
  .applied (v.text "byteBuf.release") [],
  .line [v.text "byteBuf.release"],
  .applied (v.text "RuntimeException") [v.text "t"],
  .line [v.text "throw",v.text "new",v.text "RuntimeException"],
  .closed,
  .closed]

def deserializerEvents (v : Vocabulary W) : List (Event W) := [
  .applied (v.text "deserializer") [v.text "final",v.class_ .Parser,v.text "T",v.text "parser"],
  .opened [v.text "private",v.text "static",v.text "T",v.class_ .Function,v.class_ .Payload,v.text "T",v.text "deserializer"],
  .opened [v.text "return",v.text "new",v.class_ .Function,v.class_ .Payload,v.text "T"],
  .applied (v.text "apply") [v.class_ .Payload,v.text "payload"],
  .opened [v.class_ .Override,v.text "public",v.text "T",v.text "apply"],
  .opened [v.text "try"],
  .applied (v.text "payload.getData") [],
  .applied (v.dotted .CodedInputStream ".newInstance") [v.text "payload.getData"],
  .line [v.class_ .CodedInputStream,v.text "is",v.dotted .CodedInputStream ".newInstance"],
  .applied (v.text "parser.parseFrom") [v.text "is"],
  .line [v.text "return",v.text "parser.parseFrom"],
  .closed,
  .applied (v.text "catch") [v.text "Throwable",v.text "t"],
  .opened [v.text "catch"],
  .applied (v.text "RuntimeException") [v.text "t"],
  .line [v.text "throw",v.text "new",v.text "RuntimeException"],
  .closed,
  .opened [v.text "finally"],
  .applied (v.text "payload.release") [],
  .line [v.text "payload.release"],
  .closed,
  .closed,
  .closed,
  .line [],
  .closed]

theorem clientHeadEvents_map (g : W → V) (v : Vocabulary W) (version file class_name service_name : W) :
    (clientHeadEvents v version file class_name service_name).map (Event.map g) =
      clientHeadEvents (v.map g) (g version) (g file) (g class_name) (g service_name) := rfl

theorem clientConstructorEvents_map (g : W → V) (v : Vocabulary W) (class_name : W) (registry : List W) :
    (clientConstructorEvents v class_name registry).map (Event.map g) =
      clientConstructorEvents (v.map g) (g class_name) (registry.map g) := by
  simp [clientConstructorEvents,Event.map,Vocabulary.map]

theorem serializeEvents_map (g : W → V) (v : Vocabulary W) :
    (serializeEvents v).map (Event.map g) = serializeEvents (v.map g) := rfl

theorem deserializerEvents_map (g : W → V) (v : Vocabulary W) :
    (deserializerEvents v).map (Event.map g) = deserializerEvents (v.map g) := rfl

-- The field of a method, and what the two constructors assign to it.
structure Metric (W : Type) where
  field : W
  assigned : W
  -- Void where nothing comes back.
  output : W

def Metric.map (g : W → V) (m : Metric W) : Metric V := ⟨g m.field,g m.assigned,g m.output⟩

def Metric.declared (v : Vocabulary W) (m : Metric W) : List (Event W) := [
  .line [v.text "private",v.text "final",v.class_ .Function,v.text "super",v.class_ .Publisher,m.output,v.text "extends",
    v.class_ .Publisher,m.output,m.field]]

def Metric.identity (v : Vocabulary W) (m : Metric W) : List (Event W) := [
  .applied (v.dotted .Function ".identity") [],
  .line [m.assigned,v.dotted .Function ".identity"]]

-- The tags of the metric: of which side, package, service and method it is.
def Metric.timed (v : Vocabulary W) (m : Metric W) (side : String) (Package service_name : W) : List (Event W) := [
  .applied (v.dotted .ProteusMetrics ".timed") [v.text "registry",v.text side,v.text "namespace",Package,
    v.text "service",service_name,v.text "method",m.field],
  .line [m.assigned,v.dotted .ProteusMetrics ".timed"]]

theorem Metric.declared_map (g : W → V) (v : Vocabulary W) (m : Metric W) :
    (m.declared v).map (Event.map g) = (m.map g).declared (v.map g) := rfl

theorem Metric.identity_map (g : W → V) (v : Vocabulary W) (m : Metric W) :
    (m.identity v).map (Event.map g) = (m.map g).identity (v.map g) := rfl

theorem Metric.timed_map (g : W → V) (v : Vocabulary W) (m : Metric W) (side : String) (Package service_name : W) :
    (m.timed v side Package service_name).map (Event.map g) = (m.map g).timed (v.map g) side (g Package) (g service_name) := rfl

structure Metric.Named (m : Metric CString) (method : MethodDescriptor) : Prop where
  field : m.field = LowerMethodName method
  assigned : m.assigned = bytes "this." ++ LowerMethodName method

def ClientMethod.metric (c : Compilation) (m : ClientMethod) : Metric CString :=
  ⟨m.transform,bytes "this." ++ m.transform,(m.signature.signed c.ClassName).output⟩

def metricPhrase (output : Phrase) : Metric Phrase := ⟨named .lower_method_name,fixed "this." ++ named .lower_method_name,output⟩

-- The outline of a client.
def Client.events (c : Compilation) (disable_version : Bool) (package : CString) (client : Client) : List (Event CString) :=
  let v := Env.vocabulary Text.clientVars.reverse
  clientHeadEvents v (bytes "by Proteus proto compiler" ++ proteus_version c disable_version) (bytes "Source: " ++ c.file_name)
    client.client_class_name client.service_name ++
  client.methods.flatMap (fun m => (m.metric c).declared v) ++
  clientConstructorEvents v client.client_class_name [] ++
  client.methods.flatMap (fun m => (m.metric c).identity v) ++ [.closed] ++
  clientConstructorEvents v client.client_class_name [v.class_ .MeterRegistry,v.text "registry"] ++
  client.methods.flatMap (fun m => (m.metric c).timed v "proteus.client" package client.service_name) ++ [.closed] ++
  client.methods.flatMap (fun m => (m.stub c client).events v) ++
  (serializeEvents v ++ deserializerEvents v ++ [.closed])

namespace Text

def clientNames : List Var := [.proteus_version,.client_class_name,.file_name,.service_id_name,.namespace_id_name,
  .service_name,.Package,.Parser,.MessageLite,.MeterRegistry,.ProteusMetrics,.ProteusMetadata,.CodedOutputStream,
  .CodedInputStream,.ByteBuffer,.Unpooled,.ByteBufAllocator,.ByteBuf,.ByteBufPayload,.Payload,.RSocket,.Generated,.Publisher,
  .Override,.Supplier,.Function,.from_,.Mono,.Flux]

def clientMethodNames : List Var := [.method_id_name,.lower_method_name,.output_type,.input_type]

def ClientMethodBlock (client_streaming server_streaming fields : Bool) : Prop :=
  Block (clientMethodNames ++ clientNames) (.blank,around 1) (clientMethodText client_streaming server_streaming fields)
    ((stubPhrase client_streaming server_streaming fields).events phrases) (.blank,around 1) 1 1

-- The number of fields is looked at where nothing streams.
theorem clientMethod_block (client_streaming server_streaming fields : Bool) :
    ClientMethodBlock client_streaming server_streaming fields := by
  have bidi : ClientMethodBlock true true true := ⟨by decide +kernel,by decide +kernel⟩
  have collecting : ClientMethodBlock true false true := ⟨by decide +kernel,by decide +kernel⟩
  have streaming : ClientMethodBlock false true true := ⟨by decide +kernel,by decide +kernel⟩
  have responding : ClientMethodBlock false false true := ⟨by decide +kernel,by decide +kernel⟩
  have forgetting : ClientMethodBlock false false false := ⟨by decide +kernel,by decide +kernel⟩
  cases client_streaming with
  | true =>
    cases server_streaming with
    | true => exact bidi
    | false => exact collecting
  | false =>
    cases server_streaming with
    | true => exact streaming
    | false =>
      cases fields with
      | true => exact responding
      | false => exact forgetting

-- The other parts of a client, with the depths they begin and end at.
structure ClientBlocks : Prop where
  head : Block clientNames (.blank,around 0) clientHead
    (clientHeadEvents phrases (fixed "by Proteus proto compiler" ++ named .proteus_version) (fixed "Source: " ++ named .file_name)
      (named .client_class_name) (named .service_name)) (.blank,around 1) 0 1
  field (client_streaming server_streaming fields : Bool) : Block ([.lower_method_name,.output_type] ++ clientNames)
    (.blank,around 1) (clientField client_streaming server_streaming fields)
    ((metricPhrase (signedPhrase client_streaming server_streaming fields).output).declared phrases) (.blank,around 1) 1 1
  constructor_ : Block clientNames (.blank,around 1) clientConstructor
    (clientConstructorEvents phrases (named .client_class_name) []) (.blank,around 2) 1 2
  identity : Block ([.lower_method_name] ++ clientNames) (.blank,around 2) clientIdentity
    ((metricPhrase (fixed "")).identity phrases) (.blank,around 2) 2 2
  metered : Block clientNames (.blank,around 1) clientMetered
    (clientConstructorEvents phrases (named .client_class_name) [named .MeterRegistry,fixed "registry"]) (.blank,around 2) 1 2
  timed : Block ([.lower_method_name] ++ clientNames) (.blank,around 2) clientTimed
    ((metricPhrase (fixed "")).timed phrases "proteus.client" (named .Package) (named .service_name)) (.blank,around 2) 2 2
  serialize : Block clientNames (.blank,around 1) clientSerialize (serializeEvents phrases) (.blank,around 1) 1 1
  deserializer : Block clientNames (.blank,around 1) deserializerText (deserializerEvents phrases) (.blank,around 1) 1 1

theorem clientBlocks : ClientBlocks where
  head := ⟨by decide +kernel,by decide +kernel⟩
  field client_streaming server_streaming fields := by
    have typed : Block ([.lower_method_name,.output_type] ++ clientNames) (.blank,around 1) (clientField true true true)
      ((metricPhrase (named .output_type)).declared phrases) (.blank,around 1) 1 1 := ⟨by decide +kernel,rfl⟩
    have void : Block ([.lower_method_name,.output_type] ++ clientNames) (.blank,around 1) (clientField false false false)
      ((metricPhrase (fixed "Void")).declared phrases) (.blank,around 1) 1 1 := ⟨by decide +kernel,rfl⟩
    cases client_streaming <;> cases server_streaming <;> cases fields <;> assumption
  constructor_ := ⟨by decide +kernel,rfl⟩
  identity := ⟨by decide +kernel,rfl⟩
  metered := ⟨by decide +kernel,rfl⟩
  timed := ⟨by decide +kernel,rfl⟩
  serialize := ⟨by decide +kernel,by decide +kernel⟩
  deserializer := ⟨by decide +kernel,by decide +kernel⟩

example : (emit (assign clientVars ++ .set .Package (bytes "io.netifi.testing") :: .set .service_name (bytes "TestService") ::
      assign (nameEntries TestService.UnaryCall) ++ clientTimed) (.start Page.filePrinter)).toOption.map (·.page.output) =
    some (bytes "this.unaryCall = io.netifi.proteus.metrics.ProteusMetrics.timed(registry, \"proteus.client\", " ++
      bytes "\"namespace\", \"io.netifi.testing\", \"service\", \"TestService\", \"method\", \"unaryCall\");\n") := by
  decide +kernel

theorem bodyFoot_block (defined : List Var) : Block defined (.blank,around 2) bodyFoot [.closed] (.blank,around 1) 2 1 :=
  ⟨rfl,rfl⟩

theorem classFoot_block (defined : List Var) : Block defined (.blank,around 1) classFoot [.closed] (.blank,around 0) 1 0 :=
  ⟨rfl,rfl⟩

-- What is known of vars behind the loops' own entries.
def clientKnown (c : Compilation) (disable_version : Bool) (service : ServiceDescriptor) : Env :=
  (clientEntries c disable_version service).reverse ++ (.Package,service.package) :: clientVars.reverse

-- A client and a server are known by the same entries, but for their class.
theorem known_valid {c : Compilation} {service : ServiceDescriptor} (spelled : Spelled c service) (disable_version : Bool)
    {table : Env} (classes : ∀ entry ∈ table.reverse, entry.1.Fits entry.2) {x : Var} {class_name : CString}
    (fits : x.Fits class_name) : Env.Valid (List.reverse [(.service_name,service.name),(.namespace_id_name,NamespaceIdFieldName),
      (.service_id_name,ServiceIdFieldName),(.file_name,c.file_name),(x,class_name),
      (.proteus_version,proteus_version c disable_version)] ++ (.Package,service.package) :: table.reverse) := by
  have packaged : Var.Fits .Package service.package := spelled.Package
  apply ((valid_entries classes).cons packaged).assigned
  intro entry listed
  simp only [List.mem_cons,List.not_mem_nil,or_false] at listed
  rcases listed with rfl | rfl | rfl | rfl | rfl | rfl
  · exact identifier_wordy spelled.name
  · exact (by decide +kernel : Wordy NamespaceIdFieldName)
  · exact (by decide +kernel : Wordy ServiceIdFieldName)
  · exact spelled.file_name
  · exact fits
  · exact version_quotable spelled disable_version

-- The two constructors give the field of a method its metric, in a client and in
-- a server alike: `known` is what either knows of vars, and `table` its classes.
section Metrics
variable {known table : Env} {method : MethodDescriptor}

theorem metric_named (value : Var → CString) (name : value .lower_method_name = text) (output : Phrase) :
    (metricPhrase output).map (fill value) = ⟨text,bytes "this." ++ text,fill value output⟩ := by
  simp [metricPhrase,Metric.map,name]

variable (valid : known.Valid) (words : known.vocabulary = table.vocabulary)
  (distinct : (Env.names ((nameEntries method).reverse ++ known)).Nodup)
  (fits : ∀ entry ∈ nameEntries method, entry.1.Fits entry.2) {m : Metric CString} (name : m.Named method)

include valid words distinct fits name

theorem identity_tells (block : Block (.lower_method_name :: known.names) (.blank,around 2) calls
      ((metricPhrase (fixed "")).identity phrases) (.blank,around 2) 2 2) :
    Tells known (assign (nameEntries method) ++ calls) (m.identity table.vocabulary) 2 2 := by
  obtain ⟨field,assigned,output⟩ := m
  cases name.field
  cases name.assigned
  have told := valid.round fits distinct block
  rw [Metric.identity_map,phrases_filled,vocabulary_append rfl,words,
    metric_named (Env.value ((nameEntries method).reverse ++ known)) rfl] at told
  exact told

theorem timed_tells (block : Block (.lower_method_name :: known.names) (.blank,around 2) calls
      ((metricPhrase (fixed "")).timed phrases side (named .Package) (named .service_name)) (.blank,around 2) 2 2)
    (package : known.value .Package = Package) (service : known.value .service_name = service_name) :
    Tells known (assign (nameEntries method) ++ calls) (m.timed table.vocabulary side Package service_name) 2 2 := by
  obtain ⟨field,assigned,output⟩ := m
  cases name.field
  cases name.assigned
  have told := valid.round fits distinct block
  have packaged : fill (Env.value ((nameEntries method).reverse ++ known)) (named .Package) = Package :=
    (fill_named _ _).trans package
  have served : fill (Env.value ((nameEntries method).reverse ++ known)) (named .service_name) = service_name :=
    (fill_named _ _).trans service
  rw [Metric.timed_map,phrases_filled,vocabulary_append rfl,words,packaged,served,
    metric_named (Env.value ((nameEntries method).reverse ++ known)) rfl] at told
  exact told

end Metrics

section Printed
variable {c : Compilation} {service : ServiceDescriptor} (spelled : Spelled c service) (disable_version : Bool)

theorem clientKnown_vocabulary : (clientKnown c disable_version service).vocabulary = Env.vocabulary clientVars.reverse :=
  (vocabulary_append rfl).trans (@vocabulary_append [(.Package,service.package)] _ rfl)

include spelled

theorem clientKnown_valid : (clientKnown c disable_version service).Valid := by
  have class_name : Var.Fits .client_class_name (ClientClassName service) := class_wordy spelled.name (by decide +kernel)
  exact known_valid spelled disable_version (by decide +kernel) class_name

theorem clientField_fits (member : method ∈ service.methods) : ∀ entry ∈ clientFieldEntries c method, entry.1.Fits entry.2 := by
  intro entry listed
  simp only [clientFieldEntries,List.mem_cons,List.not_mem_nil,or_false] at listed
  rcases listed with rfl | rfl
  · exact (spelled.types method member).2
  · exact lower_wordy (spelled.methods method member)

theorem name_fits (member : method ∈ service.methods) : ∀ entry ∈ nameEntries method, entry.1.Fits entry.2 := by
  intro entry listed
  rw [List.mem_singleton.mp listed]
  exact lower_wordy (spelled.methods method member)

theorem clientMethod_fits (member : method ∈ service.methods) : ∀ entry ∈ clientMethodEntries c method, entry.1.Fits entry.2 := by
  obtain ⟨input,output⟩ := spelled.types method member
  intro entry listed
  simp only [clientMethodEntries,List.mem_cons,List.not_mem_nil,or_false] at listed
  rcases listed with rfl | rfl | rfl | rfl
  · exact input
  · exact output
  · exact lower_wordy (spelled.methods method member)
  · exact field_wordy (spelled.methods method member)

omit spelled in
theorem stub_filled (value : Var → CString) (method : MethodDescriptor)
    (input : value .input_type = c.ClassName method.input_type) (output : value .output_type = c.ClassName method.output_type)
    (name : value .lower_method_name = LowerMethodName method) (id : value .method_id_name = MethodIdFieldName method)
    (service_name : value .service_name = service.name) (namespace_id : value .namespace_id_name = NamespaceIdFieldName)
    (service_id : value .service_id_name = ServiceIdFieldName) (flux : value .Flux = Env.value clientVars.reverse .Flux)
    (from_ : value .from_ = bytes "from") :
    (stubPhrase method.client_streaming method.server_streaming (method.output_type.field_count > 0)).map (fill value) =
      (clientMethod method).stub c (JavaGenerator.PrintClient service) := by
  have signed := signed_filled value c.ClassName method input output name
  have dotted : Env.value clientVars.reverse .Flux ++ (bytes "." ++ bytes "from") =
    Env.value clientVars.reverse .Flux ++ bytes ".from" := by decide +kernel
  cases client : method.client_streaming <;> cases server : method.server_streaming <;>
    by_cases fields : method.output_type.field_count > 0 <;>
      simp only [client,server,fields,decide_true,decide_false] at signed <;>
      simp [Stub.map,stubPhrase,ClientMethod.stub,clientMethod,JavaGenerator.PrintClient,client,server,fields,signed,output,name,
        id,service_name,namespace_id,service_id,flux,from_,dotted]

omit spelled in
theorem metric_filled (value : Var → CString) (method : MethodDescriptor)
    (output : value .output_type = c.ClassName method.output_type) (name : value .lower_method_name = LowerMethodName method) :
    (metricPhrase (signedPhrase method.client_streaming method.server_streaming
      (method.output_type.field_count > 0)).output).map (fill value) = (clientMethod method).metric c := by
  cases client : method.client_streaming <;> cases server : method.server_streaming <;>
    by_cases fields : method.output_type.field_count > 0 <;>
      simp [Metric.map,metricPhrase,signedPhrase,ClientMethod.metric,clientMethod,Signature.signed,signature,returnType,client,
        server,fields,output,name]

theorem clientField_tells (member : method ∈ service.methods) : Tells (clientKnown c disable_version service)
    (assign (clientFieldEntries c method) ++
      clientField method.client_streaming method.server_streaming (method.output_type.field_count > 0))
    (((clientMethod method).metric c).declared (Env.vocabulary clientVars.reverse)) 1 1 := by
  have distinct : (Env.names ((clientFieldEntries c method).reverse ++ clientKnown c disable_version service)).Nodup := by
    change ([Var.lower_method_name,.output_type] ++ clientNames).Nodup
    decide
  have told := (clientKnown_valid spelled disable_version).round (clientField_fits spelled member) distinct
    (clientBlocks.field method.client_streaming method.server_streaming (method.output_type.field_count > 0))
  rwa [Metric.declared_map,phrases_filled,vocabulary_append rfl,clientKnown_vocabulary,
    metric_filled (Env.value ((clientFieldEntries c method).reverse ++ clientKnown c disable_version service)) method
      rfl rfl] at told

omit spelled in
theorem clientMethod_transform (method : MethodDescriptor) : (clientMethod method).transform = LowerMethodName method := by
  unfold clientMethod
  split
  · split <;> rfl
  · split
    · rfl
    · split <;> rfl

omit spelled in
theorem clientMetric_named (method : MethodDescriptor) : ((clientMethod method).metric c).Named method :=
  ⟨clientMethod_transform method,congrArg (bytes "this." ++ ·) (clientMethod_transform method)⟩

theorem clientMethod_tells (member : method ∈ service.methods) : Tells (clientKnown c disable_version service)
    (assign (clientMethodEntries c method) ++
      clientMethodText method.client_streaming method.server_streaming (method.output_type.field_count > 0))
    (((clientMethod method).stub c (JavaGenerator.PrintClient service)).events (Env.vocabulary clientVars.reverse)) 1 1 := by
  have distinct : (Env.names ((clientMethodEntries c method).reverse ++ clientKnown c disable_version service)).Nodup := by
    change (clientMethodNames ++ clientNames).Nodup
    decide
  have told := (clientKnown_valid spelled disable_version).round (clientMethod_fits spelled member) distinct
    (clientMethod_block method.client_streaming method.server_streaming (method.output_type.field_count > 0))
  rwa [Stub.events_map,phrases_filled,vocabulary_append rfl,clientKnown_vocabulary,
    stub_filled (Env.value ((clientMethodEntries c method).reverse ++ clientKnown c disable_version service)) method
      rfl rfl rfl rfl rfl rfl rfl rfl rfl] at told

theorem clientBody_tells : Tells (clientKnown c disable_version service) (clientHead ++
  (service.methods.flatMap fun method => assign (clientFieldEntries c method) ++
    clientField method.client_streaming method.server_streaming (method.output_type.field_count > 0)) ++
  clientConstructor ++
  (service.methods.flatMap fun method => assign (nameEntries method) ++ clientIdentity) ++
  bodyFoot ++ clientMetered ++
  (service.methods.flatMap fun method => assign (nameEntries method) ++ clientTimed) ++
  bodyFoot ++
  (service.methods.flatMap fun method => assign (clientMethodEntries c method) ++
    clientMethodText method.client_streaming method.server_streaming (method.output_type.field_count > 0)) ++
  (clientSerialize ++ deserializerText ++ classFoot)) ((JavaGenerator.PrintClient service).events c disable_version service.package) 0 0 := by
  have known := clientKnown_valid spelled disable_version
  have words : (clientKnown c disable_version service).vocabulary = Env.vocabulary clientVars.reverse :=
    clientKnown_vocabulary disable_version
  have distinct (method : MethodDescriptor) :
      (Env.names ((nameEntries method).reverse ++ clientKnown c disable_version service)).Nodup := by
    change ([Var.lower_method_name] ++ clientNames).Nodup
    decide
  have head := known.tells clientBlocks.head
  have fields := Tells.loop fun method (member : method ∈ service.methods) => clientField_tells spelled disable_version member
  have constructor_ := known.tells clientBlocks.constructor_
  have identities := Tells.loop fun method (member : method ∈ service.methods) =>
    identity_tells known words (distinct method) (name_fits spelled member) (clientMetric_named (c := c) method)
      clientBlocks.identity
  have metered := known.tells clientBlocks.metered
  have timed := Tells.loop fun method (member : method ∈ service.methods) =>
    timed_tells known words (distinct method) (name_fits spelled member) (clientMetric_named (c := c) method)
      clientBlocks.timed rfl rfl
  have methods := Tells.loop fun method (member : method ∈ service.methods) => clientMethod_tells spelled disable_version member
  have foot := known.tells (bodyFoot_block _)
  have serialize := known.tells clientBlocks.serialize
  have deserialize := known.tells clientBlocks.deserializer
  have last := known.tells (classFoot_block _)
  have vocabulary : phrases.map (fill (Env.value (clientKnown c disable_version service))) = Env.vocabulary clientVars.reverse :=
    (phrases_filled _).trans (clientKnown_vocabulary disable_version)
  have version : fill (Env.value (clientKnown c disable_version service)) (fixed "by Proteus proto compiler" ++ named .proteus_version) =
    bytes "by Proteus proto compiler" ++ proteus_version c disable_version := by rw [fill_append,fill_fixed,fill_named]; rfl
  have file : fill (Env.value (clientKnown c disable_version service)) (fixed "Source: " ++ named .file_name) =
    bytes "Source: " ++ c.file_name := by rw [fill_append,fill_fixed,fill_named]; rfl
  have class_name : fill (Env.value (clientKnown c disable_version service)) (named .client_class_name) = ClientClassName service :=
    fill_named _ _
  have service_name : fill (Env.value (clientKnown c disable_version service)) (named .service_name) = service.name := fill_named _ _
  have registry : [named .MeterRegistry,fixed "registry"].map (fill (Env.value (clientKnown c disable_version service))) =
    [Env.value clientVars.reverse .MeterRegistry,bytes "registry"] := by
      rw [List.map_cons,List.map_cons,List.map_nil,fill_fixed,fill_named]
      rfl
  rw [clientHeadEvents_map,vocabulary,version,file,class_name,service_name] at head
  rw [clientConstructorEvents_map,vocabulary,class_name] at constructor_
  rw [clientConstructorEvents_map,vocabulary,class_name,registry] at metered
  rw [serializeEvents_map,vocabulary] at serialize
  rw [deserializerEvents_map,vocabulary] at deserialize
  have body := ((((((((head.append fields).append constructor_).append
    identities).append foot).append metered).append timed).append
    foot).append methods).append
    ((serialize.append deserialize).append last)
  rw [Client.events]
  simp only [JavaGenerator.PrintClient,List.flatMap_map]
  exact body

theorem client_tells : Tells [] (GenerateClient c disable_version service)
    (packageEvents (packageName c) ++
      (JavaGenerator.PrintClient service).events c disable_version service.package) 0 0 := by
  have distinct : (Env.names (clientKnown c disable_version service)).Nodup := by
    change clientNames.Nodup
    decide
  exact Tells.generated spelled distinct (clientBody_tells spelled disable_version)

end Printed

-- The source of a client is complete, and has every method of the abstract client:
-- its signature twice, its request, its header, and what becomes of the response.
theorem client_outline (P : FilePrinter) (c : Compilation) (service : ServiceDescriptor) (spelled : Spelled c service)
    (disable_version : Bool) :
    ∃ e, emit (GenerateClient c disable_version service) (.start P) = .ok e ∧ e.page.indent = 0 ∧
      outline e.page.output = some (packageEvents (packageName c) ++
        (JavaGenerator.PrintClient service).events c disable_version service.package) :=
  (client_tells spelled disable_version).file P

theorem client_outline_test :
    ∃ e, emit (GenerateClient TestService.compilation false TestService.descriptor) (.start Page.filePrinter) = .ok e ∧
      e.page.indent = 0 ∧ outline e.page.output = some (packageEvents (packageName TestService.compilation) ++
        (JavaGenerator.PrintClient TestService.descriptor).events TestService.compilation false TestService.descriptor.package) :=
  client_outline Page.filePrinter TestService.compilation TestService.descriptor TestService.spelled false

end Text
end Proteus.JavaGenerator
