import Proteus.GeneratorTexts

namespace Proteus.JavaGenerator
open Transducer

namespace Text

-- The entries GenerateInterface starts with.
def interfaceVars : Env := [
  (.Flux,bytes "reactor.core.publisher.Flux"),
  (.Mono,bytes "reactor.core.publisher.Mono"),
  (.Publisher,bytes "org.reactivestreams.Publisher"),
  (.Generated,bytes "javax.annotation.Generated"),
  (.ByteBuf,bytes "io.netty.buffer.ByteBuf")]

def interfaceHead : List Call := [
  .print [
    "@$Generated$(\n",
    "    value = \"by Proteus proto compiler$proteus_version$\",\n",
    "    comments = \"Source: $file_name$\")\n",
    "public interface $service_name$ \x7b\n"],
  .indent,
  .print ["int $namespace_id_name$ = $namespace_id$;\n"],
  .print ["int $service_id_name$ = $service_id$;\n"]]

def interfaceConstant : List Call := [.print ["int $method_id_name$ = $method_id$;\n"]]

def interfaceReturns (client_streaming server_streaming fields : Bool) : List Call :=
  if server_streaming then [.print ["$Flux$<$output_type$> $lower_method_name$"]]
  else if client_streaming then [.print ["$Mono$<$output_type$> $lower_method_name$"]]
  else if fields then [.print ["$Mono$<$output_type$> $lower_method_name$"]]
  else [.print ["$Mono$<Void> $lower_method_name$"]]

def interfaceParameters (client_streaming : Bool) : List Call :=
  if client_streaming then [.print ["($Publisher$<$input_type$> messages, $ByteBuf$ metadata);\n"]]
  else [.print ["($input_type$ message, $ByteBuf$ metadata);\n"]]

def interfaceFoot : List Call := [.outdent,.plain ["\x7d\n"]]

section Entries
variable (c : Compilation)

def interfaceEntries (disable_version : Bool) (service : ServiceDescriptor) : Env := [
  (.service_name,service.name),
  (.namespace_id_name,NamespaceIdFieldName),
  (.namespace_id,to_string (NamespaceId service)),
  (.service_id_name,ServiceIdFieldName),
  (.service_id,to_string (ServiceId service)),
  (.file_name,c.file_name),
  (.proteus_version,proteus_version c disable_version)]

def constantEntries (method : MethodDescriptor) : Env := [
  (.method_id_name,MethodIdFieldName method),
  (.method_id,to_string (MethodId method))]

def signatureEntries (method : MethodDescriptor) : Env := [
  (.input_type,c.ClassName method.input_type),
  (.output_type,c.ClassName method.output_type),
  (.lower_method_name,LowerMethodName method)]

end Entries

def PrintInterface (c : Compilation) (disable_version : Bool) (service : ServiceDescriptor) : List Call :=
  assign (interfaceEntries c disable_version service) ++
  (.comment (c.serviceLocation service) :: interfaceHead ++
  (service.methods.flatMap fun method => assign (constantEntries method) ++ interfaceConstant) ++
  (service.methods.flatMap fun method => assign (signatureEntries c method) ++
    ([.plain ["\n"],.comment (c.methodLocation method)] ++
    (interfaceReturns method.client_streaming method.server_streaming (method.output_type.field_count > 0) ++
    interfaceParameters method.client_streaming))) ++
  interfaceFoot)

def GenerateInterface (c : Compilation) (disable_version : Bool) (service : ServiceDescriptor) : List Call :=
  assign interfaceVars ++ (package c ++ .set .Package service.package :: PrintInterface c disable_version service)

end Text

-- The outline of an interface.
def Signed.declared (v : Vocabulary W) (s : Signed W) : List (Event W) := [
  .applied s.lower_method_name (s.request v ++ [v.class_ .ByteBuf,v.text "metadata"]),
  .line (s.result v ++ [s.lower_method_name])]

theorem declared_map (g : W → V) (v : Vocabulary W) (s : Signed W) :
    (s.declared v).map (Event.map g) = (s.map g).declared (v.map g) := by
  obtain ⟨flux,output,name,streamed,input⟩ := s
  cases streamed <;> rfl

def Interface.events (c : Compilation) (disable_version : Bool) (i : Interface) : List (Event CString) :=
  let v := Env.vocabulary Text.interfaceVars.reverse
  [.applied (v.class_ .Generated) [bytes "value",bytes "by Proteus proto compiler" ++ proteus_version c disable_version,
      bytes "comments",bytes "Source: " ++ c.file_name],
    .opened [v.class_ .Generated,bytes "public",bytes "interface",i.service_name]] ++
  i.constants.map (fun (name,value) => .line [bytes "int",name,to_string value]) ++
  i.methods.flatMap (fun s => (s.signed c.ClassName).declared v) ++
  [.closed]

-- What a reference to a constant of an interface finds in its source.
def constantOf (events : List (Event CString)) (name : CString) : Option JInt :=
  events.findSome? fun
    | .line [type,declared,value] => if type = bytes "int" ∧ declared = name then readInt value else none
    | _ => none

theorem constantOf_line (name value : CString) (n : JInt) (events : List (Event CString)) :
    constantOf (.line [bytes "int",name,to_string n] :: events) value = if name = value then some n else constantOf events value := by
  unfold constantOf
  rw [List.findSome?_cons]
  by_cases same : name = value <;> simp [same,readInt_to_string]

theorem constantOf_methods (c : Compilation) (signatures : List Signature) (name : CString) :
    constantOf (signatures.flatMap fun s => (s.signed c.ClassName).declared (Env.vocabulary Text.interfaceVars.reverse)) name =
      none := by
  have classes : Env.value Text.interfaceVars.reverse .Flux ≠ bytes "int" ∧
    Env.value Text.interfaceVars.reverse .Mono ≠ bytes "int" := by decide +kernel
  rw [constantOf,List.findSome?_eq_none_iff]
  intro e listed
  obtain ⟨s,_,declared⟩ := List.mem_flatMap.mp listed
  rcases List.mem_cons.mp declared with rfl | rest
  · rfl
  · rw [List.mem_singleton.mp rest]
    have other : Env.value Text.interfaceVars.reverse (if (s.signed c.ClassName).flux then Global.Flux else Global.Mono).var ≠
        bytes "int" := by
      split
      · exact classes.1
      · exact classes.2
    exact if_neg fun both => other both.1

-- The constants of the source are those of the abstract interface.
theorem constantOf_exact (c : Compilation) (disable_version : Bool) (i : Interface) (package : Option CString) (name : CString) :
    constantOf (packageEvents package ++ i.events c disable_version) name = i.constant name := by
  have packaged : constantOf (packageEvents package ++ i.events c disable_version) name = constantOf (i.events c disable_version) name := by
    cases package <;> rfl
  have last : constantOf (i.methods.flatMap (fun s => (s.signed c.ClassName).declared (Env.vocabulary Text.interfaceVars.reverse)) ++
      [.closed]) name = none := by
    rw [constantOf,List.findSome?_append,← constantOf,constantOf_methods]
    rfl
  rw [packaged]
  change constantOf (i.constants.map (fun (name,value) => Event.line [bytes "int",name,to_string value]) ++ _ ++ _) name = _
  rw [List.append_assoc,Interface.constant]
  induction i.constants with
  | nil => exact last
  | cons constant constants ih =>
    obtain ⟨declared,value⟩ := constant
    rw [List.map_cons,List.cons_append,constantOf_line,ih,List.lookup_cons]
    by_cases same : declared = name
    · simp [same]
    · rw [if_neg same,beq_eq_false_iff_ne.mpr (Ne.symm same)]

namespace Text

-- The templates of an interface, read once for all services.
def interfaceNames : List Var := [.proteus_version,.file_name,.service_id,.service_id_name,.namespace_id,.namespace_id_name,
  .service_name,.Package,.ByteBuf,.Generated,.Publisher,.Mono,.Flux]

def interfaceHeadEvents : List (Event Phrase) := [
  .applied (named .Generated) [fixed "value",fixed "by Proteus proto compiler" ++ named .proteus_version,
    fixed "comments",fixed "Source: " ++ named .file_name],
  .opened [named .Generated,fixed "public",fixed "interface",named .service_name],
  .line [fixed "int",named .namespace_id_name,named .namespace_id],
  .line [fixed "int",named .service_id_name,named .service_id]]

theorem interfaceHead_block :
    Block interfaceNames (.blank,around 0) interfaceHead interfaceHeadEvents (.blank,around 1) 0 1 := ⟨by decide +kernel,rfl⟩

theorem interfaceConstant_block : Block ([.method_id,.method_id_name] ++ interfaceNames) (.blank,around 1) interfaceConstant
    [.line [fixed "int",named .method_id_name,named .method_id]] (.blank,around 1) 1 1 := ⟨by decide +kernel,rfl⟩

def signatureNames : List Var := [.lower_method_name,.output_type,.input_type]

theorem interfaceSignature_block (client_streaming server_streaming fields : Bool) :
    Block (signatureNames ++ interfaceNames) (.blank,around 1)
      (interfaceReturns client_streaming server_streaming fields ++ interfaceParameters client_streaming)
      ((signedPhrase client_streaming server_streaming fields).declared phrases) (.blank,around 1) 1 1 := by
  cases client_streaming <;> cases server_streaming <;> cases fields <;> exact ⟨by decide +kernel,rfl⟩

theorem interfaceFoot_block (defined : List Var) :
    Block defined (.blank,around 1) interfaceFoot [.closed] (.blank,around 0) 1 0 := ⟨rfl,rfl⟩

-- What is known of vars behind the loops' own entries.
def interfaceKnown (c : Compilation) (disable_version : Bool) (service : ServiceDescriptor) : Env :=
  (interfaceEntries c disable_version service).reverse ++ (.Package,service.package) :: interfaceVars.reverse

section Printed
variable {c : Compilation} {service : ServiceDescriptor} (spelled : Spelled c service) (disable_version : Bool)
include spelled

theorem interfaceKnown_valid : (interfaceKnown c disable_version service).Valid := by
  have classes : ∀ entry ∈ interfaceVars.reverse, entry.1.Fits entry.2 := by decide +kernel
  have packaged : Var.Fits .Package service.package := spelled.Package
  apply ((valid_entries classes).cons packaged).assigned
  intro entry listed
  simp only [interfaceEntries,List.mem_cons,List.not_mem_nil,or_false] at listed
  rcases listed with rfl | rfl | rfl | rfl | rfl | rfl | rfl
  · exact identifier_wordy spelled.name
  · exact (by decide +kernel : Wordy NamespaceIdFieldName)
  · exact to_string_wordy _
  · exact (by decide +kernel : Wordy ServiceIdFieldName)
  · exact to_string_wordy _
  · exact spelled.file_name
  · exact version_quotable spelled disable_version

theorem interfaceConstant_tells (member : method ∈ service.methods) : Tells (interfaceKnown c disable_version service)
    (assign (constantEntries method) ++ interfaceConstant)
    [.line [bytes "int",MethodIdFieldName method,to_string (MethodId method)]] 1 1 := by
  have fits : ∀ entry ∈ constantEntries method, entry.1.Fits entry.2 := by
    intro entry listed
    simp only [constantEntries,List.mem_cons,List.not_mem_nil,or_false] at listed
    rcases listed with rfl | rfl
    · exact field_wordy (spelled.methods method member)
    · exact to_string_wordy _
  have distinct : (Env.names ((constantEntries method).reverse ++ interfaceKnown c disable_version service)).Nodup := by
    change ([Var.method_id,Var.method_id_name] ++ interfaceNames).Nodup
    decide
  have told := (interfaceKnown_valid spelled disable_version).round fits distinct interfaceConstant_block
  simpa [Event.map,constantEntries,value_cons] using told

theorem signature_fits (member : method ∈ service.methods) : ∀ entry ∈ signatureEntries c method, entry.1.Fits entry.2 := by
  obtain ⟨input,output⟩ := spelled.types method member
  intro entry listed
  simp only [signatureEntries,List.mem_cons,List.not_mem_nil,or_false] at listed
  rcases listed with rfl | rfl | rfl
  · exact input
  · exact output
  · exact lower_wordy (spelled.methods method member)

theorem interfaceMethod_tells (member : method ∈ service.methods) : Tells (interfaceKnown c disable_version service)
    (assign (signatureEntries c method) ++ ([.plain ["\n"],.comment (c.methodLocation method)] ++
      (interfaceReturns method.client_streaming method.server_streaming (method.output_type.field_count > 0) ++
      interfaceParameters method.client_streaming)))
    (((signature method).signed c.ClassName).declared (Env.vocabulary interfaceVars.reverse)) 1 1 := by
  have distinct : (Env.names ((signatureEntries c method).reverse ++ interfaceKnown c disable_version service)).Nodup := by
    change (signatureNames ++ interfaceNames).Nodup
    decide
  have valid := (interfaceKnown_valid spelled disable_version).assigned (signature_fits spelled member)
  have blank : Block (signatureNames ++ interfaceNames) (.blank,around 1) [.plain ["\n"]] [] (.blank,around 1) 1 1 :=
    ⟨by decide +kernel,rfl⟩
  have above := (valid.tells blank).append (Tells.comment (c.methodLocation method))
  have told := above.append (valid.tells (interfaceSignature_block method.client_streaming method.server_streaming
    (method.output_type.field_count > 0)))
  have same : (Env.vocabulary ((signatureEntries c method).reverse ++ interfaceKnown c disable_version service)) =
      Env.vocabulary interfaceVars.reverse :=
    (vocabulary_append rfl).trans ((vocabulary_append rfl).trans (@vocabulary_append [(.Package,service.package)] _ rfl))
  rw [declared_map,phrases_filled,same,signed_filled _ c.ClassName method rfl rfl rfl] at told
  apply Tells.assign distinct
  exact told

theorem interface_tells : Tells [] (GenerateInterface c disable_version service)
    (packageEvents (packageName c) ++ (JavaGenerator.PrintInterface service).events c disable_version) 0 0 := by
  have valid := interfaceKnown_valid spelled disable_version
  have constants := Tells.loop fun method (member : method ∈ service.methods) =>
    interfaceConstant_tells spelled disable_version member
  have methods := Tells.loop fun method (member : method ∈ service.methods) =>
    interfaceMethod_tells spelled disable_version member
  have body := ((((Tells.comment (c.serviceLocation service)).append (valid.tells interfaceHead_block)).append constants).append
    methods).append (valid.tells (interfaceFoot_block _))
  have distinct : (Env.names (interfaceKnown c disable_version service)).Nodup := by
    change interfaceNames.Nodup
    decide
  have told := Tells.generated spelled distinct body
  have head : interfaceHeadEvents.map (Event.map (fill (Env.value (interfaceKnown c disable_version service)))) =
      [.applied (Env.value interfaceVars.reverse .Generated) [bytes "value",
          bytes "by Proteus proto compiler" ++ proteus_version c disable_version,bytes "comments",
          bytes "Source: " ++ c.file_name],
        .opened [Env.value interfaceVars.reverse .Generated,bytes "public",bytes "interface",service.name],
        .line [bytes "int",NamespaceIdFieldName,to_string (NamespaceId service)],
        .line [bytes "int",ServiceIdFieldName,to_string (ServiceId service)]] := by
    simp [interfaceHeadEvents,interfaceKnown,interfaceEntries,interfaceVars,value_cons,Event.map]
  have parts : (JavaGenerator.PrintInterface service).events c disable_version =
      [] ++ interfaceHeadEvents.map (Event.map (fill (Env.value (interfaceKnown c disable_version service)))) ++
        service.methods.flatMap (fun method => [.line [bytes "int",MethodIdFieldName method,to_string (MethodId method)]]) ++
        service.methods.flatMap (fun method =>
          ((signature method).signed c.ClassName).declared (Env.vocabulary interfaceVars.reverse)) ++
        [Event.closed].map (Event.map (fill (Env.value (interfaceKnown c disable_version service)))) := by
    rw [head,← List.map_eq_flatMap]
    simp only [Interface.events,JavaGenerator.PrintInterface,List.map_cons,List.map_map,List.flatMap_map,List.cons_append,
      List.nil_append,List.append_assoc]
    rfl
  rw [parts]
  exact told

end Printed

-- The source of an interface is complete, and declares what the abstract interface
-- does: its signatures, and its constants with the values a Java reader gets.
theorem interface_outline (P : FilePrinter) (c : Compilation) (service : ServiceDescriptor) (spelled : Spelled c service)
    (disable_version : Bool) :
    ∃ e events, emit (GenerateInterface c disable_version service) (.start P) = .ok e ∧ e.page.indent = 0 ∧
      outline e.page.output = some events ∧
      events = packageEvents (packageName c) ++ (JavaGenerator.PrintInterface service).events c disable_version ∧
      ∀ name, constantOf events name = (JavaGenerator.PrintInterface service).constant name := by
  obtain ⟨e,ran,level,read⟩ := (interface_tells spelled disable_version).file P
  exact ⟨e,_,ran,level,read,rfl,constantOf_exact c disable_version _ (packageName c)⟩

theorem interface_outline_test :
    ∃ e events, emit (GenerateInterface TestService.compilation false TestService.descriptor) (.start Page.filePrinter) = .ok e ∧
      e.page.indent = 0 ∧ outline e.page.output = some events ∧
      events = packageEvents (packageName TestService.compilation) ++
        (JavaGenerator.PrintInterface TestService.descriptor).events TestService.compilation false ∧
      ∀ name, constantOf events name = (JavaGenerator.PrintInterface TestService.descriptor).constant name :=
  interface_outline Page.filePrinter TestService.compilation TestService.descriptor TestService.spelled false

end Text
end Proteus.JavaGenerator
