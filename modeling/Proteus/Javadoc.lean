import Proteus.JavaGenerator
import Proteus.Lib.Adjacency
import Mathlib.Data.List.DropRight

namespace Proteus.JavaGenerator
open Adjacency

def newline : UInt8 := 10
def space : UInt8 := 32
def ampersand : UInt8 := 38
def star : UInt8 := 42
def slash : UInt8 := 47
def less : UInt8 := 60
def greater : UInt8 := 62
def atSign : UInt8 := 64
def backslash : UInt8 := 92

-- The pieces between delimiters; an empty piece is none.
def Split (full : CString) (delim : UInt8) : List CString :=
  match full with
  | [] => []
  | c :: p =>
    if c = delim then Split p delim
    else (c :: p.takeWhile (· != delim)) :: Split (p.dropWhile (· != delim)) delim
termination_by full.length
decreasing_by
  · simp
  · exact Nat.lt_succ_of_le (List.dropWhile_suffix _).length_le

-- One round of the loop of EscapeJavadoc; prev is a byte of the input.
def escaped (prev c : UInt8) : CString :=
  if c = star then (if prev = slash then literal "&#42;" else [c])
  else if c = slash then (if prev = star then literal "&#47;" else [c])
  else if c = atSign then literal "&#64;"
  else if c = less then literal "&lt;"
  else if c = greater then literal "&gt;"
  else if c = ampersand then literal "&amp;"
  else if c = backslash then literal "&#92;"
  else [c]

def escapeFrom (prev : UInt8) : CString → CString
  | [] => []
  | c :: input => escaped prev c ++ escapeFrom c input

def EscapeJavadoc (input : CString) : CString := escapeFrom star input

structure SourceLocation where
  leading_comments : CString
  trailing_comments : CString

-- The argument is what GetSourceLocation finds for the descriptor.
def GetCommentsForDescriptor : Option SourceLocation → CString
  | some location => if location.leading_comments.isEmpty then location.trailing_comments else location.leading_comments
  | none => []

def GetDocLines (comments : CString) : List CString :=
  if !comments.isEmpty then (Split (EscapeJavadoc comments) newline).rdropWhile List.isEmpty else []

def GetDocLinesForDescriptor (location : Option SourceLocation) : List CString :=
  GetDocLines (GetCommentsForDescriptor location)

-- What a printer has written and where it stands. Indentation goes before the first
-- byte of a line that is not its newline.
structure Page where
  indent : Nat
  at_start_of_line : Bool
  output : CString
  deriving DecidableEq

def Page.WriteRaw (p : Page) (data : CString) : Page :=
  if data.isEmpty then p
  else if p.at_start_of_line && data.head? != some newline then
    {p with at_start_of_line := false,output := p.output ++ List.replicate p.indent space ++ data}
  else {p with output := p.output ++ data}

-- A Print whose template ends in its only newline; a value stands for itself.
def Page.Print (p : Page) (template : List CString) : Page :=
  {(template.foldl Page.WriteRaw p).WriteRaw [newline] with at_start_of_line := true}

-- protobuf's io::Printer, as far as doc comments use it.
structure Printer where
  State : Type
  page : State → Page
  Print : State → List CString → State
  printed : ∀ p template, page (Print p template) = (page p).Print template

def WriteDocCommentBody (P : Printer) (printer : P.State) (lines : List CString) (surroundWithPreTag : Bool) : P.State :=
  if lines.isEmpty then printer
  else
    let printer := if surroundWithPreTag then P.Print printer [literal " * <pre>"] else printer
    let printer := lines.foldl (fun printer line =>
      if line.head? = some slash then P.Print printer [literal " * ",line] else P.Print printer [literal " *",line]) printer
    if surroundWithPreTag then P.Print printer [literal " * </pre>"] else printer

def WriteDocComment (P : Printer) (printer : P.State) (comments : CString) : P.State :=
  P.Print (WriteDocCommentBody P (P.Print printer [literal "/**"]) (GetDocLines comments) false) [literal " */"]

def WriteServiceDocComment (P : Printer) (printer : P.State) (service : Option SourceLocation) : P.State :=
  P.Print (WriteDocCommentBody P (P.Print printer [literal "/**"]) (GetDocLinesForDescriptor service) true)
    [literal " */"]

def WriteMethodDocComment (P : Printer) (printer : P.State) (method : Option SourceLocation) : P.State :=
  P.Print (WriteDocCommentBody P (P.Print printer [literal "/**"]) (GetDocLinesForDescriptor method) true)
    [literal " */"]

def Clean (text : CString) : Prop := ∀ c ∈ text, c ≠ backslash ∧ c ≠ atSign ∧ c ≠ less ∧ c ≠ greater

theorem escaped_cases (prev c : UInt8) :
    (∃ entity, escaped prev c = ampersand :: entity ++ [59] ∧ ∀ d ∈ entity, d ≠ star ∧ d ≠ slash ∧ d ≠ backslash ∧
      d ≠ atSign ∧ d ≠ less ∧ d ≠ greater) ∨
    (escaped prev c = [c] ∧ (c = slash → prev ≠ star) ∧ c ≠ backslash ∧ c ≠ atSign ∧ c ≠ less ∧ c ≠ greater) := by
  unfold escaped
  split_ifs with isStar afterSlash isSlash afterStar isAt isLess isGreater isAmpersand isBackslash
  · exact .inl ⟨[35,52,50],by decide,by decide +kernel⟩
  · exact .inr ⟨rfl,by subst c; exact ⟨fun same => absurd same (by decide),by decide⟩⟩
  · exact .inl ⟨[35,52,55],by decide,by decide +kernel⟩
  · exact .inr ⟨rfl,fun _ => afterStar,by subst c; decide⟩
  · exact .inl ⟨[35,54,52],by decide,by decide +kernel⟩
  · exact .inl ⟨[108,116],by decide,by decide +kernel⟩
  · exact .inl ⟨[103,116],by decide,by decide +kernel⟩
  · exact .inl ⟨[97,109,112],by decide,by decide +kernel⟩
  · exact .inl ⟨[35,57,50],by decide,by decide +kernel⟩
  · exact .inr ⟨rfl,fun same => absurd same isSlash,isBackslash,isAt,isLess,isGreater⟩

-- A star that is printed is the byte that the next round compares a slash to.
theorem escapeFrom_apart (prev : UInt8) (input : CString) :
    Apart star slash (escapeFrom prev input) ∧ ((escapeFrom prev input).head? = some slash → prev ≠ star) := by
  induction input generalizing prev with
  | nil => exact ⟨List.isChain_nil,by simp [escapeFrom]⟩
  | cons c input ih =>
    obtain ⟨rest,next⟩ := ih c
    rw [escapeFrom]
    rcases escaped_cases prev c with ⟨entity,equal,plain⟩ | ⟨equal,guarded,_⟩
    · rw [equal]
      refine ⟨rest.after ?_,?_⟩
      · intro present
        rcases List.mem_append.mp present with inner | last
        · rcases List.mem_cons.mp inner with first | later
          · exact absurd first (by decide)
          · exact (plain star later).1 rfl
        · exact absurd (List.mem_singleton.mp last) (by decide)
      · intro first
        exact absurd (Option.some.inj first) (by decide)
    · rw [equal]
      refine ⟨apart_append.mpr ⟨List.isChain_singleton _,rest,?_⟩,?_⟩
      · rintro ⟨last,first⟩
        exact next first (Option.some.inj last)
      · intro first
        exact guarded (Option.some.inj first)

theorem escapeFrom_clean (prev : UInt8) (input : CString) : Clean (escapeFrom prev input) := by
  induction input generalizing prev with
  | nil => intro c present; cases present
  | cons c input ih =>
    intro d present
    rcases List.mem_append.mp present with here | later
    · rcases escaped_cases prev c with ⟨entity,equal,plain⟩ | ⟨equal,_,clean⟩
      · rw [equal] at here
        rcases List.mem_append.mp here with inner | last
        · rcases List.mem_cons.mp inner with rfl | held
          · decide
          · exact (plain d held).2.2
        · rw [List.mem_singleton.mp last]
          decide
      · rw [equal] at here
        rw [List.mem_singleton.mp here]
        exact clean
    · exact ih c d later

theorem split_infix (listed : line ∈ Split full delim) : line <:+: full := by
  induction full using Split.induct delim with
  | case1 => simp [Split] at listed
  | case2 p ih =>
    rw [Split,if_pos rfl] at listed
    exact (ih listed).trans (List.suffix_cons _ _).isInfix
  | case3 c p apart ih =>
    rw [Split,if_neg apart] at listed
    rcases List.mem_cons.mp listed with rfl | later
    · exact (List.cons_prefix_cons.mpr ⟨rfl,List.takeWhile_prefix _⟩).isInfix
    · exact (ih later).trans ((List.dropWhile_suffix _).trans (List.suffix_cons _ _)).isInfix

-- The texts of the lines of a body, as they stand behind their indentation.
def prefixed (line : CString) : CString := if line.head? = some slash then literal " * " ++ line else literal " *" ++ line

def docTexts (lines : List CString) : List CString :=
  if lines.isEmpty then [] else literal " * <pre>" :: lines.map prefixed ++ [literal " * </pre>"]

def shown (indent : Nat) (text : CString) : CString := List.replicate indent space ++ text ++ [newline]

namespace Page

def shows (p : Page) (texts : List CString) : Page :=
  {p with at_start_of_line := true,output := p.output ++ (texts.map (shown p.indent)).flatten}

theorem shows_nil (p : Page) (start : p.at_start_of_line = true) : p.shows [] = p := by
  obtain ⟨indent,at_start_of_line,output⟩ := p
  cases start
  simp [shows]

theorem shows_append (p : Page) (texts later : List CString) : (p.shows texts).shows later = p.shows (texts ++ later) := by
  simp [shows]

theorem WriteRaw_inside (p : Page) (inside : p.at_start_of_line = false) (data : CString) :
    p.WriteRaw data = {p with output := p.output ++ data} := by
  unfold WriteRaw
  rw [inside]
  split
  · rename_i empty
    rw [List.isEmpty_iff.mp empty,List.append_nil,← inside]
  · rfl

theorem Print_shown (p : Page) (start : p.at_start_of_line = true) (first : CString) (rest : List CString)
    (visible : first.isEmpty = false ∧ first.head? ≠ some newline) :
    p.Print (first :: rest) = p.shows [(first :: rest).flatten] := by
  have opened : p.WriteRaw first =
      {p with at_start_of_line := false,output := p.output ++ List.replicate p.indent space ++ first} := by
    unfold WriteRaw
    rw [visible.1,start]
    simp [visible.2]
  have written (q : Page) (inside : q.at_start_of_line = false) :
      rest.foldl WriteRaw q = {q with output := q.output ++ rest.flatten} := by
    induction rest generalizing q with
    | nil => simp
    | cons data rest ih =>
      rw [List.foldl_cons,WriteRaw_inside q inside,ih {q with output := q.output ++ data} inside,List.flatten_cons,
        List.append_assoc]
  rw [Print,List.foldl_cons,opened,written _ rfl,WriteRaw_inside _ rfl]
  simp [shows,shown]

end Page

theorem Printer.shown (P : Printer) (printer : P.State) (start : (P.page printer).at_start_of_line = true)
    (first : CString) (rest : List CString) (visible : first.isEmpty = false ∧ first.head? ≠ some newline) :
    P.page (P.Print printer (first :: rest)) = (P.page printer).shows [(first :: rest).flatten] :=
  (P.printed printer _).trans ((P.page printer).Print_shown start first rest visible)

theorem body_shown (P : Printer) (printer : P.State) (start : (P.page printer).at_start_of_line = true) (lines : List CString) :
    P.page (WriteDocCommentBody P printer lines true) = (P.page printer).shows (docTexts lines) := by
  have each (q : P.State) (ready : (P.page q).at_start_of_line = true) : P.page (lines.foldl (fun printer line =>
      if line.head? = some slash then P.Print printer [literal " * ",line] else P.Print printer [literal " *",line]) q) =
        (P.page q).shows (lines.map prefixed) := by
    induction lines generalizing q with
    | nil => exact ((P.page q).shows_nil ready).symm
    | cons line lines ih =>
      rw [List.foldl_cons]
      split
      · rename_i slashed
        have next := P.shown q ready (literal " * ") [line] (by decide)
        rw [ih _ (by rw [next]; rfl),next,Page.shows_append]
        simp [prefixed,slashed]
      · rename_i plain
        have next := P.shown q ready (literal " *") [line] (by decide)
        rw [ih _ (by rw [next]; rfl),next,Page.shows_append]
        simp [prefixed,plain]
  unfold WriteDocCommentBody docTexts
  split
  · exact ((P.page printer).shows_nil start).symm
  · have opened := P.shown printer start (literal " * <pre>") [] (by decide)
    have filled := each (P.Print printer [literal " * <pre>"]) (by rw [opened]; rfl)
    rw [opened,Page.shows_append] at filled
    simp only [if_true]
    rw [P.shown _ (by rw [filled]; rfl) _ _ (by decide),filled,Page.shows_append]
    simp

theorem lines_escaped {comments : CString} (listed : line ∈ GetDocLines comments) : line <:+: EscapeJavadoc comments := by
  unfold GetDocLines at listed
  split at listed
  · exact split_infix ((List.rdropWhile_prefix List.isEmpty _).subset listed)
  · cases listed

theorem shown_apart (indent : Nat) (apart : Apart star slash text) :
    Apart star slash (shown indent text) ∧ (shown indent text).getLast? ≠ some star := by
  refine ⟨(apart.after ?_).before (by decide),?_⟩
  · intro present
    exact absurd (List.eq_of_mem_replicate present) (by decide)
  · rw [shown,List.getLast?_concat]
    decide

theorem prefixed_apart (apart : Apart star slash line) : Apart star slash (prefixed line) := by
  unfold prefixed
  split
  · exact apart_append.mpr ⟨by decide,apart,fun touch => absurd touch.1 (by decide)⟩
  · rename_i plain
    exact apart_append.mpr ⟨by decide,apart,fun touch => plain touch.2⟩

theorem docTexts_apart (each : ∀ line ∈ lines, Apart star slash line) : ∀ text ∈ docTexts lines, Apart star slash text := by
  intro text listed
  unfold docTexts at listed
  split at listed
  · cases listed
  · rcases List.mem_append.mp listed with inner | last
    · rcases List.mem_cons.mp inner with rfl | later
      · decide
      · obtain ⟨line,member,rfl⟩ := List.mem_map.mp later
        exact prefixed_apart (each line member)
    · rw [List.mem_singleton.mp last]
      decide

-- The first line of a block may continue one that is already printed.
def opening (p : Page) : CString :=
  (if p.at_start_of_line then List.replicate p.indent space else []) ++ literal "/**" ++ [newline]

def body (p : Page) (lines : List CString) : CString := opening p ++ ((docTexts lines).map (shown p.indent)).flatten

def block (p : Page) (lines : List CString) : CString := body p lines ++ shown p.indent (literal " */")

-- A doc comment whose only closing marker is the last line's own.
structure Contained (p : Page) (lines : List CString) (written : Page) : Prop where
  printed : written.output = p.output ++ block p lines
  closed : ∀ i, At star slash (block p lines) i ↔ i = (body p lines).length + p.indent + 1
  clean : ∀ line ∈ lines, Clean line

theorem opened_shows (p : Page) (texts : List CString) : ((p.Print [literal "/**"]).shows texts).output =
    p.output ++ (opening p ++ (texts.map (shown p.indent)).flatten) := by
  obtain ⟨indent,at_start_of_line,output⟩ := p
  cases at_start_of_line
  · simp [opening,Page.Print,Page.WriteRaw,Page.shows,literal]
  · have start : (47 : UInt8) ≠ newline := by decide
    simp [opening,Page.Print,Page.WriteRaw,Page.shows,literal,start]

theorem opening_apart (p : Page) : Apart star slash (opening p) ∧ (opening p).getLast? ≠ some star := by
  have opened : Apart star slash (literal "/**") := by decide
  refine ⟨(opened.after ?_).before (by decide),?_⟩
  · split
    · exact fun present => absurd (List.eq_of_mem_replicate present) (by decide)
    · exact List.not_mem_nil
  · rw [opening,List.getLast?_concat]
    decide

theorem body_apart (p : Page) (each : ∀ line ∈ lines, Apart star slash line) :
    Apart star slash (body p lines) ∧ (body p lines).getLast? ≠ some star := by
  change Apart star slash (opening p :: (docTexts lines).map (shown p.indent)).flatten ∧
    (opening p :: (docTexts lines).map (shown p.indent)).flatten.getLast? ≠ some star
  apply apart_flatten
  intro piece listed
  rcases List.mem_cons.mp listed with rfl | later
  · exact opening_apart p
  · obtain ⟨text,member,rfl⟩ := List.mem_map.mp later
    exact shown_apart p.indent (docTexts_apart each text member)

theorem block_closed (p : Page) (each : ∀ line ∈ lines, Apart star slash line) (i : Nat) :
    At star slash (block p lines) i ↔ i = (body p lines).length + p.indent + 1 := by
  obtain ⟨apart,last⟩ := body_apart p each
  have spaces : Apart star slash (List.replicate p.indent space ++ [space,star]) := by
    apply Apart.after (by decide)
    exact fun present => absurd (List.eq_of_mem_replicate present) (by decide)
  have front : Apart star slash (body p lines ++ (List.replicate p.indent space ++ [space,star])) :=
    apart_append.mpr ⟨apart,spaces,fun touch => last touch.1⟩
  have parts : block p lines = (body p lines ++ (List.replicate p.indent space ++ [space,star])) ++ [slash,newline] := by
    have marker : literal " */" = [space,star,slash] := by decide
    rw [block,shown,marker]
    simp
  rw [parts,at_append front (by decide)]
  simp only [List.length_append,List.length_replicate,List.length_cons,List.length_nil,List.getLast?_append]
  constructor
  · rintro ⟨index,_⟩
    omega
  · intro index
    exact ⟨by omega,rfl,rfl⟩

theorem doc_printed (P : Printer) (printer : P.State) (comments : CString) :
    P.page (P.Print (WriteDocCommentBody P (P.Print printer [literal "/**"]) (GetDocLines comments) true) [literal " */"]) =
      (((P.page printer).Print [literal "/**"]).shows (docTexts (GetDocLines comments))).shows [literal " */"] := by
  have opened := P.printed printer [literal "/**"]
  have filled := body_shown P (P.Print printer [literal "/**"]) (by rw [opened]; rfl) (GetDocLines comments)
  rw [P.shown _ (by rw [filled]; rfl) _ _ (by decide),filled,opened]
  rfl

theorem doc_contained (P : Printer) (printer : P.State) (comments : CString) :
    Contained (P.page printer) (GetDocLines comments)
      (P.page (P.Print (WriteDocCommentBody P (P.Print printer [literal "/**"]) (GetDocLines comments) true) [literal " */"])) := by
  refine ⟨?_,?_,?_⟩
  · rw [doc_printed,Page.shows_append,opened_shows]
    simp [block,body]
  · apply block_closed
    intro line listed
    exact (escapeFrom_apart star comments).1.part (lines_escaped listed)
  · intro line listed c present
    exact escapeFrom_clean star comments c ((lines_escaped listed).subset present)

-- Whatever a proto comment holds, it stays inside the comment it is printed as.
theorem comments_contained (P : Printer) (printer : P.State) (location : Option SourceLocation) :
    Contained (P.page printer) (GetDocLinesForDescriptor location) (P.page (WriteServiceDocComment P printer location)) ∧
      Contained (P.page printer) (GetDocLinesForDescriptor location) (P.page (WriteMethodDocComment P printer location)) :=
  ⟨doc_contained P printer _,doc_contained P printer _⟩

-- A printer that is its page.
def Page.printer : Printer := ⟨Page,id,Page.Print,fun _ _ => rfl⟩

-- A comment with markers of its own, and a line that starts with a slash.
theorem comments_contained_markers : Contained ⟨2,true,[]⟩ [literal " a*&#47;b",literal "/c&#64;&#92;"]
    ⟨2,true,literal "  /**\n   * <pre>\n   * a*&#47;b\n   * /c&#64;&#92;\n   * </pre>\n   */\n"⟩ := by
  have lines : GetDocLinesForDescriptor (some ⟨literal " a*/b\n/c@\\",[]⟩) = [literal " a*&#47;b",literal "/c&#64;&#92;"] := by
    decide +kernel
  have written : Page.printer.page (WriteServiceDocComment Page.printer ⟨2,true,[]⟩ (some ⟨literal " a*/b\n/c@\\",[]⟩)) =
      ⟨2,true,literal "  /**\n   * <pre>\n   * a*&#47;b\n   * /c&#64;&#92;\n   * </pre>\n   */\n"⟩ := by decide +kernel
  rw [← lines,← written]
  exact (comments_contained Page.printer ⟨2,true,[]⟩ (some ⟨literal " a*/b\n/c@\\",[]⟩)).1

end Proteus.JavaGenerator
