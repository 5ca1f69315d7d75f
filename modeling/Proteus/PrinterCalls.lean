import Proteus.JavaTokens
import Mathlib.Logic.Function.Basic

namespace Proteus.JavaGenerator
open Transducer

-- The names the generators put into their std::map<string, string> vars.
inductive Var where
  | Flux | Mono | from_ | flux | flatMap | Function | Supplier | BiFunction | Override | Publisher | Generated | RSocket
  | Payload | ByteBufPayload | SwitchTransform | AbstractProteusService | ProteusMetadata | ProteusMetrics | MeterRegistry
  | ByteBuf | ByteBuffer | ByteBufAllocator | Unpooled | CodedInputStream | CodedOutputStream | MessageLite | Parser
  | Package | package_name | service_name | namespace_id_name | namespace_id | service_id_name | service_id | file_name
  | proteus_version | client_class_name | server_class_name | method_id_name | method_id | input_type | output_type
  | lower_method_name
  deriving DecidableEq

def Var.spelling : Var → String
  | .Flux => "Flux" | .Mono => "Mono" | .from_ => "from" | .flux => "flux" | .flatMap => "flatMap" | .Function => "Function"
  | .Supplier => "Supplier" | .BiFunction => "BiFunction" | .Override => "Override" | .Publisher => "Publisher"
  | .Generated => "Generated" | .RSocket => "RSocket" | .Payload => "Payload" | .ByteBufPayload => "ByteBufPayload"
  | .SwitchTransform => "SwitchTransform" | .AbstractProteusService => "AbstractProteusService"
  | .ProteusMetadata => "ProteusMetadata" | .ProteusMetrics => "ProteusMetrics" | .MeterRegistry => "MeterRegistry"
  | .ByteBuf => "ByteBuf" | .ByteBuffer => "ByteBuffer" | .ByteBufAllocator => "ByteBufAllocator" | .Unpooled => "Unpooled"
  | .CodedInputStream => "CodedInputStream" | .CodedOutputStream => "CodedOutputStream" | .MessageLite => "MessageLite"
  | .Parser => "Parser" | .Package => "Package" | .package_name => "package_name" | .service_name => "service_name"
  | .namespace_id_name => "namespace_id_name" | .namespace_id => "namespace_id" | .service_id_name => "service_id_name"
  | .service_id => "service_id" | .file_name => "file_name" | .proteus_version => "proteus_version"
  | .client_class_name => "client_class_name" | .server_class_name => "server_class_name" | .method_id_name => "method_id_name"
  | .method_id => "method_id" | .input_type => "input_type" | .output_type => "output_type"
  | .lower_method_name => "lower_method_name"

def Var.all : List Var := [.Flux,.Mono,.from_,.flux,.flatMap,.Function,.Supplier,.BiFunction,.Override,.Publisher,.Generated,
  .RSocket,.Payload,.ByteBufPayload,.SwitchTransform,.AbstractProteusService,.ProteusMetadata,.ProteusMetrics,.MeterRegistry,
  .ByteBuf,.ByteBuffer,.ByteBufAllocator,.Unpooled,.CodedInputStream,.CodedOutputStream,.MessageLite,.Parser,.Package,
  .package_name,.service_name,.namespace_id_name,.namespace_id,.service_id_name,.service_id,.file_name,.proteus_version,
  .client_class_name,.server_class_name,.method_id_name,.method_id,.input_type,.output_type,.lower_method_name]

-- A literal of the source as the compiler stores it.
def bytes (text : String) : CString := text.toUTF8.data.toList

def Var.named (name : CString) : Option Var := Var.all.find? fun x => bytes x.spelling = name

-- What ends the program inside of a printer.
inductive Abort where
  | unclosedVariable
  | undefinedVariable (name : CString)
  | unmatchedOutdent
  deriving DecidableEq

def delimiter : UInt8 := 36

-- A variable's name stands between two delimiters, and two in a row are one byte.
-- The first argument is a name that has begun.
def templateFrom : Option CString → CString → Except Abort (List (Piece UInt8 Var))
  | none,[] => .ok []
  | some _,[] => .error .unclosedVariable
  | none,c :: text =>
    if c = delimiter then templateFrom (some []) text else (templateFrom none text).map (.letter c :: ·)
  | some name,c :: text =>
    if c = delimiter then
      if name.isEmpty then (templateFrom none text).map (.letter delimiter :: ·)
      else match Var.named name with
        | some x => (templateFrom none text).map (.hole x :: ·)
        | none => .error (.undefinedVariable name)
    else templateFrom (some (name ++ [c])) text

-- Adjacent string literals are one text.
def template (text : List String) : Except Abort (List (Piece UInt8 Var)) := templateFrom none (text.flatMap bytes)

abbrev Vars := Var → Option CString

-- A printer indents at a newline of the template, never at one of a value.
def Page.piece (vars : Vars) (p : Page) : Piece UInt8 Var → Except Abort Page
  | .letter c => .ok (if c = newline then {p.WriteRaw [c] with at_start_of_line := true} else p.WriteRaw [c])
  | .hole x =>
    match vars x with
    | some value => .ok (p.WriteRaw value)
    | none => .error (.undefinedVariable (bytes x.spelling))

def Page.Substitute (p : Page) (vars : Vars) (text : List String) : Except Abort Page :=
  template text >>= fun pieces => pieces.foldlM (Page.piece vars) p

def Page.Indent (p : Page) : Page := {p with indent := p.indent + 2}

def Page.Outdent (p : Page) : Except Abort Page :=
  if p.indent = 0 then .error .unmatchedOutdent else .ok {p with indent := p.indent - 2}

-- protobuf's io::Printer with what a whole file uses of it: Print(vars, text) is
-- Substitute, and created is a printer on an empty stream.
structure FilePrinter extends Printer where
  created : State
  Substitute : State → Vars → List String → Except Abort State
  Indent : State → State
  Outdent : State → Except Abort State
  blank : page created = ⟨0,true,[]⟩
  substituted : ∀ p vars text, (Substitute p vars text).map page = (page p).Substitute vars text
  indented : ∀ p, page (Indent p) = (page p).Indent
  outdented : ∀ p, (Outdent p).map page = (page p).Outdent

theorem mapped_ok {x : Except Abort A} {f : A → B} (done : x.map f = .ok b) : ∃ a, x = .ok a ∧ f a = b := by
  cases x with
  | error abort => cases done
  | ok a => exact ⟨a,rfl,Except.ok.inj done⟩

theorem FilePrinter.substitutes (P : FilePrinter) {p : P.State} (printed : (P.page p).Substitute vars text = .ok q) :
    ∃ r, P.Substitute p vars text = .ok r ∧ P.page r = q :=
  mapped_ok ((P.substituted p vars text).trans printed)

theorem FilePrinter.outdents (P : FilePrinter) {p : P.State} (outer : (P.page p).Outdent = .ok q) :
    ∃ r, P.Outdent p = .ok r ∧ P.page r = q :=
  mapped_ok ((P.outdented p).trans outer)

def Page.filePrinter : FilePrinter where
  toPrinter := Page.printer
  created := ⟨0,true,[]⟩
  Substitute := Page.Substitute
  Indent := Page.Indent
  Outdent := Page.Outdent
  blank := rfl
  substituted := fun p vars text => congrFun Except.map_id (Page.Substitute p vars text)
  indented := fun _ => rfl
  outdented := fun p => congrFun Except.map_id (Page.Outdent p)

-- The statements of a generator: an assignment to vars, Print with vars, with one
-- variable of its own or with none, a doc comment, Indent and Outdent.
inductive Call where
  | set (x : Var) (value : CString)
  | print (text : List String)
  | printWith (text : List String) (x : Var) (value : CString)
  | plain (text : List String)
  | comment (location : Option SourceLocation)
  | indent
  | outdent

structure Emission (P : FilePrinter) where
  vars : Vars
  printer : P.State

def Emission.start (P : FilePrinter) : Emission P := ⟨fun _ => none,P.created⟩

def Emission.page (e : Emission P) : Page := P.page e.printer

def Call.run (e : Emission P) : Call → Except Abort (Emission P)
  | .set x value => .ok {e with vars := Function.update e.vars x (some value)}
  | .print text => (P.Substitute e.printer e.vars text).map fun p => {e with printer := p}
  | .printWith text x value =>
    (P.Substitute e.printer (Function.update (fun _ => none) x (some value)) text).map fun p => {e with printer := p}
  | .plain text => (P.Substitute e.printer (fun _ => none) text).map fun p => {e with printer := p}
  | .comment location => .ok {e with printer := WriteServiceDocComment P.toPrinter e.printer location}
  | .indent => .ok {e with printer := P.Indent e.printer}
  | .outdent => (P.Outdent e.printer).map fun p => {e with printer := p}

def emit (calls : List Call) (e : Emission P) : Except Abort (Emission P) := calls.foldlM Call.run e

example : (emit [.set .Flux (literal "F"),.indent,.print ["a$Flux$b$$\n","\nc\n"]]
    (.start Page.filePrinter)).toOption.map (·.page.output) = some (literal "  aFb$\n\n  c\n") := by decide +kernel

theorem emit_append (calls more : List Call) (e : Emission P) : emit (calls ++ more) e = emit calls e >>= emit more :=
  List.foldlM_append

theorem emit_cons (call : Call) (calls : List Call) (e : Emission P) : emit (call :: calls) e = call.run e >>= emit calls := rfl

-- Where a reader of what is printed so far stands. At the start of a line he takes
-- no notice of spaces, so indentation is nothing to him.
structure Stands (p : Page) (tokens : List Token) (mode : Mode) (depth : Nat) : Prop where
  read : Reads javaByte .blank p.output tokens mode
  settled : p.at_start_of_line = true → javaByte mode space = ([],mode)
  indented : p.indent = 2 * depth

theorem newline_settles (mode : Mode) : javaByte (javaByte mode newline).2 space = ([],(javaByte mode newline).2) := by
  cases mode with
  | blank => decide +kernel
  | word text => rfl
  | quoted text => rfl
  | slash => rfl
  | comment => decide +kernel
  | starred => decide +kernel
  | line => decide +kernel
  | broken => rfl

theorem raw_stands (stands : Stands p tokens mode depth) (data : CString) (first : data.head? ≠ some newline) (some_ : data ≠ [])
    (reads : Reads javaByte mode data out after) : Stands (p.WriteRaw data) (tokens ++ out) after depth ∧
      (p.WriteRaw data).at_start_of_line = false := by
  obtain ⟨read,settled,indented⟩ := stands
  have filled : data.isEmpty = false := List.isEmpty_eq_false_iff.mpr some_
  cases start : p.at_start_of_line with
  | false =>
    have raw : p.WriteRaw data = {p with output := p.output ++ data} := p.WriteRaw_inside start data
    rw [raw]
    exact ⟨⟨read.append reads,fun now => absurd (start.symm.trans now) (by decide),indented⟩,start⟩
  | true =>
    have raw : p.WriteRaw data =
        {p with at_start_of_line := false,output := p.output ++ List.replicate p.indent space ++ data} := by
      simp [Page.WriteRaw,filled,start,first]
    rw [raw]
    refine ⟨⟨?_,fun now => absurd (show false = true from now) (by decide),indented⟩,rfl⟩
    have spaced := (read.append (spaces_read mode (settled start) p.indent)).append reads
    rwa [List.append_nil] at spaced

theorem piece_stands {vars : Vars} {piece : Piece UInt8 Var} (stands : Stands p tokens mode depth)
    (known : ∀ x, piece = .hole x → ∃ value, vars x = some value ∧ newline ∉ value)
    (reads : Reads javaByte mode (piece.fill fun x => (vars x).getD []) out after) :
    ∃ q, p.piece vars piece = .ok q ∧ Stands q (tokens ++ out) after depth := by
  cases piece with
  | letter c =>
    change Reads javaByte mode [c] out after at reads
    by_cases line : c = newline
    · subst line
      have raw : p.WriteRaw [newline] = {p with output := p.output ++ [newline]} := by simp [Page.WriteRaw]
      refine ⟨_,rfl,?_⟩
      rw [if_pos rfl,raw]
      refine ⟨stands.read.append reads,fun _ => ?_,stands.indented⟩
      have last : (javaByte mode newline).2 = after := congrArg Prod.snd (show run javaByte mode [newline] = (out,after) from reads)
      rw [← last]
      exact newline_settles mode
    · refine ⟨_,rfl,?_⟩
      rw [if_neg line]
      exact (raw_stands stands [c] (fun same => line (Option.some.inj same)) (List.cons_ne_nil _ _) reads).1
  | hole x =>
    obtain ⟨value,found,plain⟩ := known x rfl
    have found' : p.piece vars (.hole x) = .ok (p.WriteRaw value) := by simp only [Page.piece,found]
    have reads : Reads javaByte mode value out after := by simpa only [Piece.fill,found,Option.getD_some] using reads
    refine ⟨_,found',?_⟩
    by_cases empty : value = []
    · subst empty
      cases reads
      simpa [Page.WriteRaw] using stands
    · exact (raw_stands stands value (fun same => plain (List.mem_of_mem_head? same)) empty reads).1

theorem pieces_stand {vars : Vars} {pieces : List (Piece UInt8 Var)} (stands : Stands p tokens mode depth)
    (known : ∀ x, .hole x ∈ pieces → ∃ value, vars x = some value ∧ newline ∉ value)
    (reads : Reads javaByte mode (fill (fun x => (vars x).getD []) pieces) out after) :
    ∃ q, pieces.foldlM (Page.piece vars) p = .ok q ∧ Stands q (tokens ++ out) after depth := by
  induction pieces generalizing p tokens mode out with
  | nil =>
    cases reads
    exact ⟨p,rfl,by rwa [List.append_nil]⟩
  | cons piece pieces ih =>
    have split : Reads javaByte mode (piece.fill fun x => (vars x).getD [])
      (run javaByte mode (piece.fill fun x => (vars x).getD [])).1 (run javaByte mode (piece.fill fun x => (vars x).getD [])).2 := rfl
    have whole : run javaByte mode (fill (fun x => (vars x).getD []) (piece :: pieces)) = (out,after) := reads
    rw [fill,List.flatMap_cons,run_append] at whole
    obtain ⟨parts,last⟩ := Prod.mk.inj whole
    obtain ⟨q,printed,there⟩ := piece_stands stands (fun x same => known x (by simp [same])) split
    obtain ⟨r,rest,done⟩ := ih there (fun x listed => known x (List.mem_cons_of_mem _ listed)) (Prod.ext rfl last)
    refine ⟨r,?_,?_⟩
    · rw [List.foldlM_cons,printed]
      exact rest
    · rw [← parts,← List.append_assoc]
      exact done

end Proteus.JavaGenerator
