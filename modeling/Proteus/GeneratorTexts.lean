import Proteus.GeneratorInputs
import Proteus.JavaOutline

namespace Proteus.JavaGenerator
open Transducer

namespace Text

def assign (entries : Env) : List Call := entries.map fun (x,value) => .set x value

-- What the three generators print first.
def package (c : Compilation) : List Call :=
  if !(ServiceJavaPackage c.file).isEmpty then
    [.printWith ["package $package_name$;\n\n"] .package_name (ServiceJavaPackage c.file)]
  else []

end Text

-- What is asked of the names and strings that are printed. protoc makes sure of
-- the identifiers, but neither of a java_package nor of quotes in a file's name.
structure Spelled (c : Compilation) (service : ServiceDescriptor) : Prop where
  package_name : ServiceJavaPackage c.file ≠ [] → Wordy (ServiceJavaPackage c.file)
  file_name : Quotable c.file_name
  version : ∀ version ∈ c.PROTEUS_VERSION, Quotable version
  Package : Quotable service.package
  name : Identifier service.name
  methods : ∀ method ∈ service.methods, Identifier method.name
  types : ∀ method ∈ service.methods, Wordy (c.ClassName method.input_type) ∧ Wordy (c.ClassName method.output_type)

-- test.proto as the plugin gets it.
def TestService.compilation : Compilation where
  file := {TestService.file with java_class_name := literal "io.netifi.testing.integration.Test"}
  file_name := literal "test.proto"
  ClassName := fun d => literal "io.netifi.testing.integration.Test." ++ d.full_name.drop 18
  serviceLocation := fun _ => some ⟨literal " A simple service to test the various types of RPCs\n",[]⟩
  methodLocation := fun _ => none
  PROTEUS_VERSION := some (literal "0.2.5")

theorem TestService.spelled : Spelled TestService.compilation TestService.descriptor where
  package_name := fun _ => by decide +kernel
  file_name := by decide +kernel
  version := by
    intro version built
    cases built
    decide +kernel
  Package := by decide +kernel
  name := by decide +kernel
  methods := by decide +kernel
  types := by decide +kernel

theorem quotable_append (first : Quotable a) (second : Quotable b) : Quotable (a ++ b) := by
  simp only [Quotable,List.mem_append] at first second ⊢
  tauto

theorem version_quotable (spelled : Spelled c service) (disable_version : Bool) : Quotable (proteus_version c disable_version) := by
  unfold proteus_version
  split
  · rename_i version known
    split
    · exact quotable_append (quotable_append (by decide +kernel) (spelled.version version known)) (by decide +kernel)
    · decide
  · decide

theorem valid_entries {env : Env} (each : ∀ entry ∈ env, entry.1.Fits entry.2) : env.Valid := by
  induction env with
  | nil => exact fun _ listed => nomatch listed
  | cons entry env ih =>
    obtain ⟨first,rest⟩ := List.forall_mem_cons.mp each
    exact (ih rest).cons first

-- The classes that the templates name by their packages.
inductive Global where
  | Flux | Mono | Function | Supplier | BiFunction | Override | Publisher | Generated | RSocket | Payload | ByteBufPayload
  | SwitchTransform | AbstractProteusService | ProteusMetadata | ProteusMetrics | MeterRegistry | ByteBuf | ByteBufAllocator
  | Unpooled | CodedInputStream | CodedOutputStream | MessageLite | Parser
  deriving DecidableEq

def Global.var : Global → Var
  | .Flux => .Flux | .Mono => .Mono | .Function => .Function | .Supplier => .Supplier | .BiFunction => .BiFunction
  | .Override => .Override | .Publisher => .Publisher | .Generated => .Generated | .RSocket => .RSocket | .Payload => .Payload
  | .ByteBufPayload => .ByteBufPayload | .SwitchTransform => .SwitchTransform
  | .AbstractProteusService => .AbstractProteusService | .ProteusMetadata => .ProteusMetadata
  | .ProteusMetrics => .ProteusMetrics | .MeterRegistry => .MeterRegistry | .ByteBuf => .ByteBuf
  | .ByteBufAllocator => .ByteBufAllocator | .Unpooled => .Unpooled | .CodedInputStream => .CodedInputStream
  | .CodedOutputStream => .CodedOutputStream | .MessageLite => .MessageLite | .Parser => .Parser

-- The words of a text, which a template has with holes in them.
structure Vocabulary (W : Type) where
  text : String → W
  class_ : Global → W
  -- A member of a class.
  dotted : Global → String → W

def Vocabulary.map (g : W → V) (v : Vocabulary W) : Vocabulary V := ⟨fun t => g (v.text t),fun k => g (v.class_ k),fun k t => g (v.dotted k t)⟩

def fixed (text : String) : Phrase := (bytes text).map .letter

def named (x : Var) : Phrase := [.hole x]

def phrases : Vocabulary Phrase := ⟨fixed,fun k => named k.var,fun k t => named k.var ++ fixed t⟩

-- The words that a generator puts in for these, as its vars are.
def Env.vocabulary (env : Env) : Vocabulary CString :=
  ⟨bytes,fun k => env.value k.var,fun k t => env.value k.var ++ bytes t⟩

@[simp] theorem fill_fixed (value : Var → CString) (text : String) : fill value (fixed text) = bytes text := by
  have letters (text : CString) : fill value (text.map .letter) = text := by
    induction text with
    | nil => rfl
    | cons c text ih => exact congrArg (c :: ·) ih
  exact letters _

@[simp] theorem fill_named (value : Var → CString) (x : Var) : fill value (named x) = value x := List.append_nil _

@[simp] theorem fill_append (value : Var → CString) (front back : Phrase) :
    fill value (front ++ back) = fill value front ++ fill value back := List.flatMap_append

theorem phrases_filled (env : Env) : phrases.map (fill env.value) = env.vocabulary := by
  simp [phrases,Env.vocabulary,Vocabulary.map]

-- What is assigned for a service or a method is no class.
def Var.assigned (x : Var) : Bool := x matches .Package | .service_name | .namespace_id_name | .namespace_id
  | .service_id_name | .service_id | .file_name | .proteus_version | .client_class_name | .server_class_name
  | .method_id_name | .method_id | .input_type | .output_type | .lower_method_name

theorem vocabulary_append {own table : Env} (assigned : own.names.all Var.assigned) :
    Env.vocabulary (own ++ table) = table.vocabulary := by
  have same (k : Global) : Env.value (own ++ table) k.var = table.value k.var := by
    induction own with
    | nil => rfl
    | cons entry own ih =>
      rw [Env.names,List.map_cons,List.all_cons,Bool.and_eq_true] at assigned
      have other : k.var ≠ entry.1 := by
        intro same
        rw [← same] at assigned
        cases k <;> exact absurd assigned.1 (by decide)
      exact (value_tail other _ _).trans (ih assigned.2)
  simp only [Env.vocabulary,same]

theorem Tells.assign {entries env : Env} (distinct : (Env.names (entries.reverse ++ env)).Nodup)
    (rest : Tells (entries.reverse ++ env) calls events depth reached) : Tells env (Text.assign entries ++ calls) events depth reached := by
  induction entries generalizing env with
  | nil => exact rest
  | cons entry entries ih =>
    obtain ⟨x,value⟩ := entry
    rw [List.reverse_cons,List.append_assoc] at distinct rest
    have fresh : x ∉ env.names := by
      have parts := distinct
      rw [Env.names,List.map_append] at parts
      exact (List.nodup_cons.mp (List.nodup_append.mp parts).2.1).1
    have later : Tells ((x,value) :: env) (Text.assign entries ++ calls) events depth reached := ih distinct rest
    exact later.set fresh

theorem Env.Valid.assigned {entries env : Env} (valid : env.Valid) (own : ∀ entry ∈ entries, entry.1.Fits entry.2) :
    Env.Valid (entries.reverse ++ env) := by
  induction entries generalizing env with
  | nil => exact valid
  | cons entry entries ih =>
    obtain ⟨first,rest⟩ := List.forall_mem_cons.mp own
    rw [List.reverse_cons,List.append_assoc]
    exact ih (valid.cons first) rest

-- One round of a loop: it assigns some of vars, and prints.
theorem Env.Valid.round {entries env : Env} (valid : env.Valid) (own : ∀ entry ∈ entries, entry.1.Fits entry.2)
    (distinct : (Env.names (entries.reverse ++ env)).Nodup)
    (block : Block (Env.names (entries.reverse ++ env)) (.blank,around depth) calls events (.blank,around reached) depth reached) :
    Tells env (Text.assign entries ++ calls) (events.map (Event.map (fill (Env.value (entries.reverse ++ env))))) depth reached :=
  Tells.assign distinct ((valid.assigned own).tells block)

-- The package line, where there is one.
def packageName (c : Compilation) : Option CString :=
  if (ServiceJavaPackage c.file).isEmpty then none else some (ServiceJavaPackage c.file)

def packageEvents : Option CString → List (Event CString)
  | some name => [.line [bytes "package",name]]
  | none => []

theorem package_tells (spelled : Spelled c service) (env : Env) :
    Tells env (Text.package c) (packageEvents (packageName c)) 0 0 := by
  unfold Text.package packageName
  cases empty : (ServiceJavaPackage c.file).isEmpty with
  | true => exact Tells.nil
  | false =>
    have fits : Var.Fits .package_name (ServiceJavaPackage c.file) :=
      spelled.package_name (List.isEmpty_eq_false_iff.mp empty)
    have pieces : template ["package $package_name$;\n\n"] = .ok ((bytes "package ").map .letter ++
      [.hole .package_name,.letter semicolon,.letter newline,.letter newline]) := by decide +kernel
    have known : readAll (sketchPiece [.package_name]) .blank ((bytes "package ").map .letter ++
        [.hole .package_name,.letter semicolon,.letter newline,.letter newline]) =
      some ([.word (fixed "package"),.word (named .package_name),.symbol semicolon],.blank) := by decide +kernel
    refine ⟨_,Writes.printWith fits pieces known,?_⟩
    have read : readAll event (around 0) [Lexeme.word (fixed "package"),.word (named .package_name),.symbol semicolon] =
      some ([.line [fixed "package",named .package_name]],around 0) := by decide +kernel
    have filled := outline_reads (fill (Env.value [(.package_name,ServiceJavaPackage c.file)])) read
    simpa [Event.map,packageEvents,value_head,Sketch.token] using filled

-- What a generator does before and behind what it prints for its service.
theorem Tells.generated {table entries : Env} (spelled : Spelled c service)
    (distinct : (Env.names (entries.reverse ++ (.Package,service.package) :: table.reverse)).Nodup)
    (body : Tells (entries.reverse ++ (.Package,service.package) :: table.reverse) calls events 0 0) :
    Tells [] (Text.assign table ++ (Text.package c ++ .set .Package service.package :: (Text.assign entries ++ calls)))
      (packageEvents (packageName c) ++ events) 0 0 := by
  have rest : (Env.names ((.Package,service.package) :: table.reverse)).Nodup := by
    rw [Env.names,List.map_append] at distinct
    exact (List.nodup_append.mp distinct).2.1
  obtain ⟨fresh,globals⟩ := List.nodup_cons.mp rest
  have packaged := (package_tells spelled table.reverse).append ((Tells.assign distinct body).set fresh)
  rw [← List.append_nil table.reverse] at packaged globals
  exact Tells.assign globals packaged

-- A method as an interface declares it.
structure Signed (W : Type) where
  flux : Bool
  output : W
  lower_method_name : W
  streamed : Bool
  input : W
  deriving DecidableEq

def Signed.map (g : W → V) (s : Signed W) : Signed V := ⟨s.flux,g s.output,g s.lower_method_name,s.streamed,g s.input⟩

def Signed.result (v : Vocabulary W) (s : Signed W) : List W := [v.class_ (if s.flux then .Flux else .Mono),s.output]

def Signed.request (v : Vocabulary W) (s : Signed W) : List W :=
  if s.streamed then [v.class_ .Publisher,s.input,v.text "messages"] else [s.input,v.text "message"]

def Signature.signed (ClassName : Descriptor → CString) (s : Signature) : Signed CString where
  flux := s.returns matches .flux _
  output := match s.returns with
    | .flux output_type => ClassName output_type
    | .mono output_type => ClassName output_type
    | .monoVoid => bytes "Void"
  lower_method_name := s.lower_method_name
  streamed := s.streamed
  input := ClassName s.input_type

-- The same with holes, by what the templates branch on.
def signedPhrase (client_streaming server_streaming fields : Bool) : Signed Phrase where
  flux := server_streaming
  output := if server_streaming || client_streaming || fields then named .output_type else fixed "Void"
  lower_method_name := named .lower_method_name
  streamed := client_streaming
  input := named .input_type

theorem signed_filled (value : Var → CString) (ClassName : Descriptor → CString) (method : MethodDescriptor)
    (input : value .input_type = ClassName method.input_type) (output : value .output_type = ClassName method.output_type)
    (name : value .lower_method_name = LowerMethodName method) :
    (signedPhrase method.client_streaming method.server_streaming (method.output_type.field_count > 0)).map (fill value) =
      (signature method).signed ClassName := by
  cases client : method.client_streaming <;> cases server : method.server_streaming <;>
    by_cases fields : method.output_type.field_count > 0 <;>
      simp [Signed.map,signedPhrase,Signature.signed,signature,returnType,client,server,fields,input,output,name]

end Proteus.JavaGenerator
