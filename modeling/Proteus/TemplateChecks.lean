import Proteus.PrinterCalls

namespace Proteus.JavaGenerator
open Transducer

-- A value of one of these variables may be any text without quotes; it is
-- printed inside of string literals only.
def Var.textual (x : Var) : Bool := x = .file_name || x = .proteus_version || x = .Package

def Wordy (value : CString) : Prop := value ≠ [] ∧ ∀ c ∈ value, wordByte c

def Quotable (value : CString) : Prop := quote ∉ value ∧ backslash ∉ value ∧ newline ∉ value

def Var.Fits (x : Var) (value : CString) : Prop := if x.textual then Quotable value else Wordy value

instance (value : CString) : Decidable (Wordy value) := inferInstanceAs (Decidable (_ ∧ _))

instance (value : CString) : Decidable (Quotable value) := inferInstanceAs (Decidable (_ ∧ _))

instance (x : Var) (value : CString) : Decidable (x.Fits value) := inferInstanceAs (Decidable (ite _ _ _))

theorem Wordy.quotable (wordy : Wordy value) : Quotable value := by
  refine ⟨?_,?_,?_⟩ <;> exact fun present => absurd (wordy.2 _ present) (by decide +kernel)

theorem Var.Fits.quotable {x : Var} (fits : x.Fits value) : Quotable value := by
  unfold Var.Fits at fits
  split at fits
  · exact fits
  · exact fits.quotable

-- A token of a template, and where its reader stands.
abbrev Phrase := List (Piece UInt8 Var)

abbrev Sketch := Lexeme Phrase

inductive Place where
  | blank
  | word (pieces : Phrase)
  | quoted (pieces : Phrase)
  deriving DecidableEq

def codeSketch (c : UInt8) : Option (List Sketch × Place) :=
  if wordByte c then some ([],.word [.letter c])
  else if whitespace c then some ([],.blank)
  else if c = quote then some ([],.quoted [])
  else if c = slash ∨ c = backslash ∨ c = apostrophe then none
  else some ([.symbol c],.blank)

def sketchPiece (defined : List Var) : Place → Piece UInt8 Var → Option (List Sketch × Place)
  | .blank,.letter c => codeSketch c
  | .blank,.hole x => if x ∈ defined ∧ !x.textual then some ([],.word [.hole x]) else none
  | .word pieces,.letter c =>
    if wordByte c then some ([],.word (pieces ++ [.letter c])) else (codeSketch c).map fun (out,place) => (.word pieces :: out,place)
  | .word pieces,.hole x => if x ∈ defined ∧ !x.textual then some ([],.word (pieces ++ [.hole x])) else none
  | .quoted pieces,.letter c =>
    if c = quote then some ([.quoted pieces],.blank)
    else if c = newline ∨ c = backslash then none
    else some ([],.quoted (pieces ++ [.letter c]))
  | .quoted pieces,.hole x => if x ∈ defined then some ([],.quoted (pieces ++ [.hole x])) else none

section Meaning
variable (value : Var → CString)

def Sketch.token : Sketch → Token := Lexeme.map (fill value)

def Place.mode : Place → Mode
  | .blank => .blank
  | .word pieces => .word (fill value pieces)
  | .quoted pieces => .quoted (fill value pieces)

end Meaning

theorem word_read (text : CString) (wordy : ∀ c ∈ value, wordByte c) :
    Reads javaByte (.word text) value [] (.word (text ++ value)) := by
  induction value generalizing text with
  | nil => rw [List.append_nil]; rfl
  | cons c value ih =>
    obtain ⟨first,rest⟩ := List.forall_mem_cons.mp wordy
    have one : Reads javaByte (.word text) [c] [] (.word (text ++ [c])) := by simp [Reads,run,javaByte,first]
    have both := one.append (ih (text ++ [c]) rest)
    rwa [List.append_assoc] at both

theorem name_read (wordy : Wordy value) : Reads javaByte .blank value [] (.word value) := by
  obtain ⟨some_,each⟩ := wordy
  cases value with
  | nil => exact absurd rfl some_
  | cons c value =>
    obtain ⟨first,rest⟩ := List.forall_mem_cons.mp each
    have one : Reads javaByte .blank [c] [] (.word [c]) := by simp [Reads,run,javaByte,codeByte,first]
    exact one.append (word_read [c] rest)

theorem quoted_read (text : CString) (quotable : Quotable value) :
    Reads javaByte (.quoted text) value [] (.quoted (text ++ value)) := by
  induction value generalizing text with
  | nil => rw [List.append_nil]; rfl
  | cons c value ih =>
    obtain ⟨noQuote,noEscape,noLine⟩ := quotable
    have first : c ≠ quote ∧ c ≠ newline ∧ c ≠ backslash := by
      refine ⟨?_,?_,?_⟩ <;> rintro rfl <;> simp_all
    have one : Reads javaByte (.quoted text) [c] [] (.quoted (text ++ [c])) := by
      simp [Reads,run,javaByte,first]
    have both := one.append (ih (text ++ [c]) ⟨by simp_all,by simp_all,by simp_all⟩)
    rwa [List.append_assoc] at both

theorem codeSketch_sound (value : Var → CString) (c : UInt8) (known : codeSketch c = some (out,place)) :
    codeByte c = (out.map (Sketch.token value),place.mode value) := by
  unfold codeSketch at known
  unfold codeByte
  split_ifs at known ⊢ with isWord isSpace isQuote isOther isSlash isBroken
  all_goals first
    | (cases known; rfl)
    | simp_all

theorem sketch_sound (value : Var → CString) (defined : List Var) (fits : ∀ x ∈ defined, x.Fits (value x)) :
    Sound javaByte value (sketchPiece defined) (Place.mode value) (Sketch.token value) := by
  have wordy (x : Var) (listed : x ∈ defined ∧ !x.textual) : Wordy (value x) := by
    have fit := fits x listed.1
    unfold Var.Fits at fit
    rwa [if_neg (by simpa using listed.2)] at fit
  have appended (pieces : List (Piece UInt8 Var)) (piece : Piece UInt8 Var) :
    fill value (pieces ++ [piece]) = fill value pieces ++ piece.fill value := by simp [fill]
  intro place piece out after known
  cases place with
  | blank =>
    cases piece with
    | letter c =>
      have same := codeSketch_sound value c known
      simp [Reads,run,Piece.fill,Place.mode,javaByte,same]
    | hole x =>
      rw [sketchPiece] at known
      split at known
      · rename_i listed
        cases known
        have named := name_read (wordy x listed)
        simpa [Piece.fill,Place.mode,fill] using named
      · cases known
  | word pieces =>
    cases piece with
    | letter c =>
      rw [sketchPiece] at known
      split at known
      · rename_i isWord
        cases known
        simp [Reads,run,Piece.fill,Place.mode,javaByte,isWord,appended]
      · rename_i other
        obtain ⟨⟨later,place⟩,found,same⟩ := Option.map_eq_some_iff.mp known
        cases same
        have same := codeSketch_sound value c found
        simp [Reads,run,Piece.fill,Place.mode,javaByte,other,same,Sketch.token,Lexeme.map]
    | hole x =>
      rw [sketchPiece] at known
      split at known
      · rename_i listed
        cases known
        rw [Place.mode,Place.mode,appended]
        exact word_read _ (wordy x listed).2
      · cases known
  | quoted pieces =>
    cases piece with
    | letter c =>
      rw [sketchPiece] at known
      split_ifs at known with isQuote isBroken
      · cases known
        simp [Reads,run,Piece.fill,Place.mode,javaByte,isQuote,Sketch.token,Lexeme.map]
      · cases known
        simp [Reads,run,Piece.fill,Place.mode,javaByte,isQuote,isBroken,appended]
    | hole x =>
      rw [sketchPiece] at known
      split at known
      · rename_i listed
        cases known
        rw [Place.mode,Place.mode,appended]
        exact quoted_read _ (fits x listed).quotable
      · cases known

-- What is known of vars.
abbrev Env := List (Var × CString)

def Env.names (env : Env) : List Var := env.map Prod.fst

def Env.value (env : Env) (x : Var) : CString := (env.lookup x).getD []

def Knows (vars : Vars) (env : Env) : Prop := ∀ x ∈ env.names, vars x = some (env.value x)

def Env.Valid (env : Env) : Prop := ∀ x ∈ env.names, x.Fits (env.value x)

theorem value_head (x : Var) (value : CString) (env : Env) : Env.value ((x,value) :: env) x = value := by
  simp [Env.value]

theorem value_tail (other : y ≠ x) (value : CString) (env : Env) : Env.value ((x,value) :: env) y = env.value y := by
  rw [Env.value,List.lookup_cons,beq_eq_false_iff_ne.mpr other]
  rfl

theorem value_cons (x y : Var) (value : CString) (env : Env) :
    Env.value ((x,value) :: env) y = if y = x then value else env.value y := by
  split
  · rename_i same
    rw [same,value_head]
  · rename_i other
    exact value_tail other value env

theorem Env.Valid.cons {env : Env} {text : CString} (valid : env.Valid) (fits : x.Fits text) : Env.Valid ((x,text) :: env) := by
  intro y listed
  by_cases same : y = x
  · subst same
    rwa [value_head]
  · rw [value_tail same]
    exact valid y ((List.mem_cons.mp listed).resolve_left same)

theorem Knows.set {env : Env} (knows : Knows vars env) (x : Var) (value : CString) :
    Knows (Function.update vars x (some value)) ((x,value) :: env) := by
  intro y listed
  by_cases same : y = x
  · subst same
    rw [Function.update_self,value_head]
  · rw [Function.update_of_ne same,value_tail same]
    exact knows y ((List.mem_cons.mp listed).resolve_left same)

theorem Knows.forget {env : Env} (knows : Knows vars ((x,value) :: env)) (fresh : x ∉ env.names) : Knows vars env := by
  intro y listed
  have other : y ≠ x := by
    rintro rfl
    exact fresh listed
  rw [knows y (List.mem_cons_of_mem _ listed),value_tail other]

-- Calls that assign nothing, read off their templates.
def Call.pieces : Call → Option (List (Piece UInt8 Var))
  | .print text =>
    match template text with
    | .ok pieces => some pieces
    | .error _ => none
  | .plain text =>
    match template text with
    | .ok pieces => if pieces.all fun piece => piece matches .letter _ then some pieces else none
    | .error _ => none
  | Call.indent => some []
  | Call.outdent => some []
  | _ => none

def Call.nested (depth : Nat) : Call → Option Nat
  | Call.indent => some (depth + 1)
  | Call.outdent => if depth = 0 then none else some (depth - 1)
  | _ => some depth

def sketchCall (defined : List Var) (place : Place) (call : Call) : Option (List Sketch × Place) :=
  call.pieces.bind (readAll (sketchPiece defined) place)

theorem holes_defined {pieces : List (Piece UInt8 Var)} (known : readAll (sketchPiece defined) place pieces = some (out,after))
    (x : Var) (listed : .hole x ∈ pieces) : x ∈ defined := by
  induction pieces generalizing place out with
  | nil => cases listed
  | cons piece pieces ih =>
    rw [readAll] at known
    cases first : sketchPiece defined place piece with
    | none => simp [first] at known
    | some result =>
      obtain ⟨before,middle⟩ := result
      rw [first] at known
      obtain ⟨⟨later,last⟩,rest,same⟩ := Option.map_eq_some_iff.mp known
      cases same
      rcases List.mem_cons.mp listed with rfl | later
      · cases place <;> simp only [sketchPiece] at first <;> split at first <;> simp_all
      · exact ih rest later

theorem letters_substitute {pieces : List (Piece UInt8 Var)} (letters : pieces.all fun piece => piece matches .letter _)
    (vars other : Vars) (p : Page) : pieces.foldlM (Page.piece vars) p = pieces.foldlM (Page.piece other) p := by
  induction pieces generalizing p with
  | nil => rfl
  | cons piece pieces ih =>
    rw [List.all_cons,Bool.and_eq_true] at letters
    obtain ⟨first,rest⟩ := letters
    cases piece with
    | letter c => exact ih rest _
    | hole x => cases first

theorem substitute_stands {env : Env} {pieces : List (Piece UInt8 Var)} (valid : env.Valid) (knows : Knows vars env)
    (parsed : template text = .ok pieces) (known : readAll (sketchPiece env.names) place pieces = some (out,after))
    (stands : Stands p tokens (place.mode env.value) depth) :
    ∃ q, p.Substitute vars text = .ok q ∧ Stands q (tokens ++ out.map (Sketch.token env.value)) (after.mode env.value) depth := by
  have defined := holes_defined known
  have reads := (sketch_sound env.value env.names valid).reads known
  have filled : fill (fun x => (vars x).getD []) pieces = fill env.value pieces := by
    apply List.flatMap_congr
    intro piece listed
    cases piece with
    | letter c => rfl
    | hole x => simp only [Piece.fill,knows x (defined x listed),Option.getD_some]
  rw [← filled] at reads
  obtain ⟨q,printed,there⟩ := pieces_stand stands
    (fun x listed => ⟨_,knows x (defined x listed),(valid x (defined x listed)).quotable.2.2⟩) reads
  exact ⟨q,by rw [Page.Substitute,parsed]; exact printed,there⟩

theorem call_stands {env : Env} {call : Call} (valid : env.Valid) {e : Emission P} (knows : Knows e.vars env)
    (known : sketchCall env.names place call = some (out,after)) (nested : call.nested depth = some reached)
    (stands : Stands e.page tokens (place.mode env.value) (outer + depth)) :
    ∃ f, call.run e = .ok f ∧ f.vars = e.vars ∧
      Stands f.page (tokens ++ out.map (Sketch.token env.value)) (after.mode env.value) (outer + reached) := by
  obtain ⟨pieces,written,known⟩ := Option.bind_eq_some_iff.mp known
  cases call with
  | set => cases written
  | printWith => cases written
  | comment => cases written
  | print text =>
    cases nested
    rw [Call.pieces] at written
    cases parsed : template text with
    | error abort => simp [parsed] at written
    | ok parts =>
      simp only [parsed,Option.some.injEq] at written
      subst written
      obtain ⟨_,printed,there⟩ := substitute_stands valid knows parsed known stands
      obtain ⟨q,ran,rfl⟩ := P.substitutes printed
      exact ⟨{e with printer := q},by rw [Call.run,ran]; rfl,rfl,there⟩
  | plain text =>
    cases nested
    rw [Call.pieces] at written
    cases parsed : template text with
    | error abort => simp [parsed] at written
    | ok parts =>
      simp only [parsed,Option.ite_none_right_eq_some,Option.some.injEq] at written
      obtain ⟨letters,rfl⟩ := written
      obtain ⟨_,printed,there⟩ := substitute_stands valid knows parsed known stands
      have same : e.page.Substitute (fun _ => none) text = e.page.Substitute e.vars text := by
        rw [Page.Substitute,Page.Substitute,parsed]
        exact letters_substitute letters _ _ _
      obtain ⟨q,ran,rfl⟩ := P.substitutes (same.trans printed)
      exact ⟨{e with printer := q},by rw [Call.run,ran]; rfl,rfl,there⟩
  | indent =>
    cases nested
    cases written
    cases known
    have deeper : P.page (P.Indent e.printer) = e.page.Indent := P.indented e.printer
    refine ⟨{e with printer := P.Indent e.printer},rfl,rfl,?_⟩
    rw [List.map_nil,List.append_nil,Emission.page,deeper]
    refine ⟨stands.read,stands.settled,?_⟩
    change e.page.indent + 2 = _
    rw [stands.indented]
    omega
  | outdent =>
    cases written
    cases known
    rw [Call.nested] at nested
    split at nested
    · cases nested
    · rename_i inside
      cases nested
      have positive : e.page.indent ≠ 0 := by
        rw [stands.indented]
        omega
      have outer : e.page.Outdent = .ok {e.page with indent := e.page.indent - 2} := if_neg positive
      obtain ⟨q,ran,higher⟩ := P.outdents outer
      refine ⟨{e with printer := q},?_,rfl,?_⟩
      · rw [Call.run,ran]
        rfl
      · rw [List.map_nil,List.append_nil,Emission.page,higher]
        refine ⟨stands.read,stands.settled,?_⟩
        change e.page.indent - 2 = _
        rw [stands.indented]
        omega

theorem calls_stand {env : Env} {calls : List Call} (valid : env.Valid) {e : Emission P} (knows : Knows e.vars env)
    (known : readAll (sketchCall env.names) place calls = some (out,after)) (nested : calls.foldlM Call.nested depth = some reached)
    (stands : Stands e.page tokens (place.mode env.value) (outer + depth)) :
    ∃ f, emit calls e = .ok f ∧ f.vars = e.vars ∧
      Stands f.page (tokens ++ out.map (Sketch.token env.value)) (after.mode env.value) (outer + reached) := by
  induction calls generalizing e place out depth tokens with
  | nil =>
    cases known
    cases nested
    exact ⟨e,rfl,rfl,by rwa [List.map_nil,List.append_nil]⟩
  | cons call calls ih =>
    rw [readAll] at known
    cases first : sketchCall env.names place call with
    | none => simp [first] at known
    | some result =>
      obtain ⟨before,middle⟩ := result
      rw [first] at known
      obtain ⟨⟨later,last⟩,rest,same⟩ := Option.map_eq_some_iff.mp known
      cases same
      rw [List.foldlM_cons] at nested
      obtain ⟨level,entered,nested⟩ := Option.bind_eq_some_iff.mp nested
      obtain ⟨f,ran,kept,there⟩ := call_stands valid knows first entered stands
      obtain ⟨g,done,same,stand⟩ := ih (by rwa [kept]) rest nested there
      refine ⟨g,?_,same.trans kept,?_⟩
      · rw [emit_cons,ran]
        exact done
      · rwa [List.map_append,← List.append_assoc]

theorem WriteRaw_indent (p : Page) (data : CString) : (p.WriteRaw data).indent = p.indent := by
  unfold Page.WriteRaw
  split
  · rfl
  · split <;> rfl

-- What calls do to any printer wherever the reader stands between tokens, with vars
-- as known: they end as well, print the given tokens, and change the nesting.
def Writes (env : Env) (calls : List Call) (out : List Token) (depth reached : Nat) : Prop :=
  ∀ (P : FilePrinter) (e : Emission P) tokens outer, Knows e.vars env → Stands e.page tokens .blank (outer + depth) →
    ∃ f, emit calls e = .ok f ∧ Knows f.vars env ∧ Stands f.page (tokens ++ out) .blank (outer + reached)

namespace Writes
variable {env : Env} {calls more : List Call} {out later : List Token} {depth middle reached : Nat}

theorem nil : Writes env [] [] depth depth := by
  intro P e tokens outer knows stands
  exact ⟨e,rfl,knows,by rwa [List.append_nil]⟩

theorem append (first : Writes env calls out depth middle) (second : Writes env more later middle reached) :
    Writes env (calls ++ more) (out ++ later) depth reached := by
  intro P e tokens outer knows stands
  obtain ⟨f,ran,known,there⟩ := first P e tokens outer knows stands
  obtain ⟨g,done,kept,stand⟩ := second P f _ outer known there
  refine ⟨g,?_,kept,?_⟩
  · rw [emit_append,ran]
    exact done
  · rwa [← List.append_assoc]

theorem set (rest : Writes ((x,value) :: env) calls out depth reached) (fresh : x ∉ env.names) :
    Writes env (.set x value :: calls) out depth reached := by
  intro P e tokens outer knows stands
  obtain ⟨f,ran,known,there⟩ :=
    rest P {e with vars := Function.update e.vars x (some value)} tokens outer (knows.set x value) stands
  exact ⟨f,ran,known.forget fresh,there⟩

theorem printWith {pieces : List (Piece UInt8 Var)} (fits : x.Fits value) (parsed : template text = .ok pieces)
    (known : readAll (sketchPiece [x]) .blank pieces = some (sketches,.blank)) :
    Writes env [.printWith text x value] (sketches.map (Sketch.token (Env.value [(x,value)]))) depth depth := by
  intro P e tokens outer knows stands
  have nothing : Env.Valid [] := fun _ listed => nomatch listed
  have unset : Knows (fun _ => none) [] := fun _ listed => nomatch listed
  have valid : Env.Valid [(x,value)] := nothing.cons fits
  have own : Knows (Function.update (fun _ => none) x (some value)) [(x,value)] := unset.set x value
  obtain ⟨_,printed,there⟩ := substitute_stands valid own parsed known stands
  obtain ⟨q,ran,rfl⟩ := P.substitutes printed
  exact ⟨{e with printer := q},by rw [emit,List.foldlM_cons,Call.run,ran]; rfl,knows,there⟩

-- A doc comment prints no token, and leaves the reader between tokens.
theorem comment (location : Option SourceLocation) : Writes env [.comment location] [] depth depth := by
  intro P e tokens outer knows stands
  refine ⟨{e with printer := WriteServiceDocComment P.toPrinter e.printer location},rfl,knows,?_⟩
  have written := doc_printed P.toPrinter e.printer (GetCommentsForDescriptor location)
  have printed := (doc_contained P.toPrinter e.printer (GetCommentsForDescriptor location)).printed
  rw [List.append_nil]
  refine ⟨?_,fun _ => by decide +kernel,?_⟩
  · have whole := stands.read.append (block_read e.page (GetCommentsForDescriptor location))
    rw [List.append_nil] at whole
    exact (congrArg (fun text => Reads javaByte .blank text tokens .blank) printed).mpr whole
  · have same : (e.page.Print [literal "/**"]).indent = e.page.indent := by
      change ((e.page.WriteRaw (literal "/**")).WriteRaw [newline]).indent = _
      rw [WriteRaw_indent,WriteRaw_indent]
    exact (congrArg Page.indent written).trans (same.trans stands.indented)

-- A whole file: nothing aborts the program, every Indent has its Outdent, and a
-- reader gets the tokens.
theorem file (writes : Writes [] calls out 0 0) (P : FilePrinter) :
    ∃ e, emit calls (.start P) = .ok e ∧ e.page.indent = 0 ∧ javaTokens e.page.output = some out := by
  have begun : Stands (Emission.start P).page [] .blank (0 + 0) := by
    rw [Emission.page,Emission.start,P.blank]
    exact ⟨Reads.nil,fun _ => by decide +kernel,rfl⟩
  obtain ⟨e,ran,_,there⟩ := writes P (.start P) [] 0 (fun _ listed => nomatch listed) begun
  exact ⟨e,ran,there.indented,tokens_exact there.read⟩

end Writes
end Proteus.JavaGenerator
