import Proteus.TemplateChecks

namespace Proteus.JavaGenerator
open Transducer

def openRound : UInt8 := 40
def closeRound : UInt8 := 41
def openCurly : UInt8 := 123
def closeCurly : UInt8 := 125

-- What Java source does, in the order of its text: a statement ends, a name is
-- applied to what stands in round brackets, a block begins and ends. Each comes
-- with its words and string literals; arguments come before what they are for.
inductive Event (W : Type) where
  | line (words : List W)
  | applied (function : W) (words : List W)
  | opened (words : List W)
  | closed
  deriving DecidableEq

def Event.map (g : W → V) : Event W → Event V
  | .line words => .line (words.map g)
  | .applied function words => .applied (g function) (words.map g)
  | .opened words => .opened (words.map g)
  | .closed => .closed

-- A bracket that is open, with what the reader goes on with behind it.
inductive Level (W : Type) where
  | round (function : Option W) (words : List W)
  | curly (words : List W)
  deriving DecidableEq

def Level.map (g : W → V) : Level W → Level V
  | .round function words => .round (function.map g) (words.map g)
  | .curly words => .curly (words.map g)

-- The words read since the innermost bracket or the last statement, and the word
-- that an opening round bracket would apply.
structure Outline (W : Type) where
  outer : List (Level W)
  words : List W
  last : Option W
  deriving DecidableEq

def Outline.map (g : W → V) (s : Outline W) : Outline V := ⟨s.outer.map (Level.map g),s.words.map g,s.last.map g⟩

def Outline.inRound (s : Outline W) : Bool :=
  match s.outer with
  | .round _ _ :: _ => true
  | _ => false

-- A class body in round brackets goes on with the words before it, a block does not.
def event (s : Outline W) : Lexeme W → Option (List (Event W) × Outline W)
  | .word text => some ([],⟨s.outer,s.words ++ [text],some text⟩)
  | .quoted text => some ([],⟨s.outer,s.words ++ [text],none⟩)
  | .symbol c =>
    if c = openRound then some ([],⟨.round s.last s.words :: s.outer,[],none⟩)
    else if c = closeRound then
      match s.outer with
      | .round function words :: outer => some (function.toList.map fun f => .applied f s.words,⟨outer,words,none⟩)
      | _ => none
    else if c = openCurly then some ([.opened s.words],⟨.curly (if s.inRound then s.words else []) :: s.outer,[],none⟩)
    else if c = closeCurly then
      match s.outer,s.words with
      | .curly words :: outer,[] => some ([.closed],⟨outer,words,none⟩)
      | _,_ => none
    else if c = semicolon then if s.inRound then none else some ([.line s.words],⟨s.outer,[],none⟩)
    else some ([],{s with last := none})

def around (depth : Nat) : Outline W := ⟨List.replicate depth (.curly []),[],none⟩

def outline (text : CString) : Option (List (Event CString)) :=
  (javaTokens text).bind fun tokens =>
    match readAll event (around 0) tokens with
    | some (events,s) => if s = around 0 then some events else none
    | none => none

example : outline (literal "int f(A b)\x7breturn g(h(b), \"x\");\x7d") = some [
    .applied (literal "f") [literal "A",literal "b"],
    .opened [literal "int",literal "f"],
    .applied (literal "h") [literal "b"],
    .applied (literal "g") [literal "h",literal "x"],
    .line [literal "return",literal "g"],
    .closed] := by decide +kernel

theorem event_map (g : W → V) (s : Outline W) (token : Lexeme W) (known : event s token = some (events,t)) :
    event (s.map g) (token.map g) = some (events.map (Event.map g),t.map g) := by
  have round : (s.map g).inRound = s.inRound := by
    obtain ⟨outer,words,last⟩ := s
    cases outer with
    | nil => rfl
    | cons level outer => cases level <;> rfl
  cases token with
  | word text =>
    cases known
    simp [event,Lexeme.map,Outline.map]
  | quoted text =>
    cases known
    simp [event,Lexeme.map,Outline.map]
  | symbol c =>
    simp only [event,Lexeme.map,round] at known ⊢
    split_ifs at known ⊢ with opens closes opensCurly isRound closesCurly ends isRound
    · cases known
      rfl
    · obtain ⟨_ | ⟨level,outer⟩,words,last⟩ := s
      · cases known
      · cases level with
        | curly after => cases known
        | round function after =>
          cases known
          cases function <;> rfl
    · cases known
      rfl
    · cases known
      rfl
    · obtain ⟨_ | ⟨level,outer⟩,words,last⟩ := s
      · cases known
      · cases level with
        | round function after => cases known
        | curly after =>
          cases words with
          | nil =>
            cases known
            rfl
          | cons word words => cases known
    · cases known
      rfl
    · cases known
      rfl

theorem outline_reads (g : W → V) (known : readAll event (around depth) tokens = some (events,around reached)) :
    readAll event (around depth) (tokens.map (Lexeme.map g)) = some (events.map (Event.map g),around reached) := by
  have same (n : Nat) : (around n : Outline W).map g = around n := by simp [around,Outline.map,Level.map]
  have mapped := readAll_map (Lexeme.map g) (Event.map g) (Outline.map g) (fun s token _ _ step => event_map g s token step) known
  rwa [same,same] at mapped

-- What calls do wherever the reader stands between two statements: they end as
-- well, and print text with this outline.
def Tells (env : Env) (calls : List Call) (events : List (Event CString)) (depth reached : Nat) : Prop :=
  ∃ tokens, Writes env calls tokens depth reached ∧ readAll event (around depth) tokens = some (events,around reached)

-- A block of calls is checked once, whatever the values of its variables are. It
-- may begin and end in the middle of a word.
def outlineCall (defined : List Var) : Place × Outline Phrase → Call → Option (List (Event Phrase) × (Place × Outline Phrase)) :=
  cascade (sketchCall defined) event

instance : DecidableEq (List (Event Phrase)) := inferInstance

structure Block (defined : List Var) (begins : Place × Outline Phrase) (calls : List Call) (events : List (Event Phrase))
    (ends : Place × Outline Phrase) (depth reached : Nat) : Prop where
  outlined : readAll (outlineCall defined) begins calls = some (events,ends)
  nested : calls.foldlM Call.nested depth = some reached

theorem Env.Valid.tells {env : Env} (valid : env.Valid)
    (block : Block env.names (.blank,around depth) calls events (.blank,around reached) depth reached) :
    Tells env calls (events.map (Event.map (fill env.value))) depth reached := by
  obtain ⟨sketches,sketched,read⟩ := cascade_reads block.outlined
  refine ⟨sketches.map (Sketch.token env.value),?_,outline_reads _ read⟩
  intro P e tokens outer knows stands
  obtain ⟨f,ran,kept,there⟩ := calls_stand valid knows sketched block.nested stands
  exact ⟨f,ran,by rwa [kept],there⟩

namespace Tells
variable {env : Env} {calls more : List Call} {events later : List (Event CString)} {depth middle reached : Nat}

theorem nil : Tells env [] [] depth depth := ⟨[],Writes.nil,rfl⟩

theorem append (first : Tells env calls events depth middle) (second : Tells env more later middle reached) :
    Tells env (calls ++ more) (events ++ later) depth reached := by
  obtain ⟨tokens,written,read⟩ := first
  obtain ⟨others,after,rest⟩ := second
  exact ⟨tokens ++ others,written.append after,readAll_append read rest⟩

theorem set (rest : Tells ((x,value) :: env) calls events depth reached) (fresh : x ∉ env.names) :
    Tells env (.set x value :: calls) events depth reached := by
  obtain ⟨tokens,written,read⟩ := rest
  exact ⟨tokens,written.set fresh,read⟩

theorem comment (location : Option SourceLocation) : Tells env [.comment location] [] depth depth :=
  ⟨[],Writes.comment location,rfl⟩

theorem loop {items : List A} {f : A → List Call} {g : A → List (Event CString)}
    (each : ∀ item ∈ items, Tells env (f item) (g item) depth depth) :
    Tells env (items.flatMap f) (items.flatMap g) depth depth := by
  induction items with
  | nil => exact nil
  | cons item items ih =>
    obtain ⟨first,rest⟩ := List.forall_mem_cons.mp each
    rw [List.flatMap_cons,List.flatMap_cons]
    exact first.append (ih rest)

-- A whole file: nothing aborts the program, every Indent has its Outdent, every
-- bracket its partner, and a reader gets the outline.
theorem file (tells : Tells [] calls events 0 0) (P : FilePrinter) :
    ∃ e, emit calls (.start P) = .ok e ∧ e.page.indent = 0 ∧ outline e.page.output = some events := by
  obtain ⟨tokens,written,read⟩ := tells
  obtain ⟨e,ran,level,tokenized⟩ := written.file P
  refine ⟨e,ran,level,?_⟩
  simp only [outline,tokenized,Option.bind_some,read,if_true]

end Tells
end Proteus.JavaGenerator
