import Proteus.DocLines
import Proteus.Lib.Transducer

namespace Proteus.JavaGenerator
open Transducer Adjacency

def quote : UInt8 := 34
def apostrophe : UInt8 := 39
def minus : UInt8 := 45
def period : UInt8 := 46

inductive Lexeme (W : Type) where
  | word (text : W)
  | quoted (text : W)
  | symbol (c : UInt8)
  deriving DecidableEq

def Lexeme.map (g : W → V) : Lexeme W → Lexeme V
  | .word text => .word (g text)
  | .quoted text => .quoted (g text)
  | .symbol c => .symbol c

abbrev Token := Lexeme CString

-- Where a reader of Java source stands. A backslash may start a Unicode escape
-- anywhere, so it is given up on; so is a character literal.
inductive Mode where
  | blank
  | word (text : CString)
  | quoted (text : CString)
  | slash
  | comment
  | starred
  | line
  | broken
  deriving DecidableEq

-- A qualified name is one word, and a number comes with its sign.
def wordByte (c : UInt8) : Bool := islower c || isupper c || isdigit c || c == underscore || c == period || c == minus

def whitespace (c : UInt8) : Bool := c == space || (9 ≤ c && c ≤ 13)

def codeByte (c : UInt8) : List Token × Mode :=
  if wordByte c then ([],.word [c])
  else if whitespace c then ([],.blank)
  else if c = quote then ([],.quoted [])
  else if c = slash then ([],.slash)
  else if c = backslash ∨ c = apostrophe then ([],.broken)
  else ([.symbol c],.blank)

def javaByte : Mode → UInt8 → List Token × Mode
  | .blank,c => codeByte c
  | .word text,c => if wordByte c then ([],.word (text ++ [c])) else (.word text :: (codeByte c).1,(codeByte c).2)
  | .quoted text,c =>
    if c = quote then ([.quoted text],.blank)
    else if c = newline ∨ c = backslash then ([],.broken)
    else ([],.quoted (text ++ [c]))
  | .slash,c =>
    if c = star then ([],.comment)
    else if c = slash then ([],.line)
    else (.symbol slash :: (codeByte c).1,(codeByte c).2)
  | .comment,c => if c = star then ([],.starred) else if c = backslash then ([],.broken) else ([],.comment)
  | .starred,c =>
    if c = slash then ([],.blank)
    else if c = star then ([],.starred)
    else if c = backslash then ([],.broken)
    else ([],.comment)
  | .line,c => if c = newline then ([],.blank) else if c = backslash then ([],.broken) else ([],.line)
  | .broken,_ => ([],.broken)

-- The tokens of a file that ends outside of words, strings and comments.
def javaTokens (text : CString) : Option (List Token) :=
  match run javaByte .blank text with
  | (tokens,.blank) => some tokens
  | _ => none

example : javaTokens (literal "/* int */ int X = -5; // \"") = none := by decide +kernel

example : javaTokens (literal "/* int */ int a.X = \"/*\";\n") =
    some [.word (literal "int"),.word (literal "a.X"),.symbol 61,.quoted (literal "/*"),.symbol semicolon] := by decide +kernel

theorem tokens_exact (reads : Reads javaByte .blank text tokens .blank) : javaTokens text = some tokens := by
  have ran : run javaByte .blank text = (tokens,.blank) := reads
  rw [javaTokens,ran]

-- Inside of a comment only a star before it makes a slash say something.
def inside (last : Option UInt8) : Mode := if last = some star then .starred else .comment

theorem inside_byte (last : Option UInt8) (c : UInt8) (apart : ¬ (last = some star ∧ c = slash)) (plain : c ≠ backslash) :
    javaByte (inside last) c = ([],inside (some c)) := by
  unfold inside
  by_cases starred : last = some star
  · rw [if_pos starred]
    have other : c ≠ slash := fun same => apart ⟨starred,same⟩
    by_cases again : c = star
    · simp [javaByte,again]
      decide
    · simp [javaByte,other,again,plain]
  · rw [if_neg starred]
    by_cases again : c = star
    · simp [javaByte,again]
    · simp [javaByte,again,plain]

theorem comment_read (last : Option UInt8) (apart : Apart star slash (last.toList ++ text)) (plain : backslash ∉ text) :
    Reads javaByte (inside last) text [] (inside (text.getLast?.or last)) := by
  induction text generalizing last with
  | nil => rfl
  | cons c text ih =>
    have seam := (apart_append.mp apart).2.2
    have step := inside_byte last c (by
      rintro ⟨rfl,rfl⟩
      exact seam ⟨rfl,rfl⟩) (fun same => plain (by simp [same]))
    have rest := ih (some c) (apart.part (List.suffix_append ..).isInfix) (fun later => plain (List.mem_cons_of_mem _ later))
    have one : Reads javaByte (inside last) [c] [] (inside (some c)) := by simp [Reads,run,step]
    have both := one.append rest
    cases text with
    | nil => exact both
    | cons d text =>
      rw [List.getLast?_cons_cons]
      cases known : (d :: text).getLast? with
      | none => simp at known
      | some e => simpa [known] using both

theorem spaces_read (mode : Mode) (idle : javaByte mode space = ([],mode)) (n : Nat) :
    Reads javaByte mode (List.replicate n space) [] mode := by
  apply Reads.idle
  intro c listed
  rw [List.eq_of_mem_replicate listed,idle]

theorem docTexts_plain (each : ∀ line ∈ lines, Clean line) : ∀ text ∈ docTexts lines, backslash ∉ text := by
  intro text listed
  unfold docTexts at listed
  split at listed
  · cases listed
  · rcases List.mem_append.mp listed with inner | last
    · rcases List.mem_cons.mp inner with rfl | later
      · decide
      · obtain ⟨line,member,rfl⟩ := List.mem_map.mp later
        have clean : backslash ∉ line := fun present => (each line member _ present).1 rfl
        unfold prefixed
        split <;> simp [clean] <;> decide
    · rw [List.mem_singleton.mp last]
      decide

-- A doc comment says nothing to a reader of code, whatever it is about.
theorem block_read (p : Page) (comments : CString) :
    Reads javaByte .blank (block p (GetDocLines comments)) [] .blank := by
  have escapedLines : ∀ line ∈ GetDocLines comments, Apart star slash line := fun line listed =>
    (escapeFrom_apart star comments).1.part (lines_escaped listed)
  have clean : ∀ line ∈ GetDocLines comments, Clean line := fun line listed c present =>
    escapeFrom_clean star comments c ((lines_escaped listed).subset present)
  have opened : Reads javaByte .blank (opening p) [] (inside none) := by
    have marker : Reads javaByte .blank (literal "/**" ++ [newline]) [] (inside none) := by decide +kernel
    unfold opening
    split
    · rw [List.append_assoc]
      exact (spaces_read .blank (by decide +kernel) _).append marker
    · exact marker
  obtain ⟨apart,last⟩ := body_apart p escapedLines
  have apart : Apart star slash (((docTexts (GetDocLines comments)).map (shown p.indent)).flatten) :=
    apart.part (List.suffix_append ..).isInfix
  have plain : backslash ∉ ((docTexts (GetDocLines comments)).map (shown p.indent)).flatten := by
    intro present
    obtain ⟨piece,listed,held⟩ := List.mem_flatten.mp present
    obtain ⟨text,member,rfl⟩ := List.mem_map.mp listed
    rcases List.mem_append.mp held with front | last
    · rcases List.mem_append.mp front with spaces | within
      · exact absurd (List.eq_of_mem_replicate spaces) (by decide)
      · exact docTexts_plain clean text member within
    · exact absurd (List.mem_singleton.mp last) (by decide)
  have inner := comment_read none apart plain
  have ended : inside (((docTexts (GetDocLines comments)).map (shown p.indent)).flatten.getLast?.or none) = .comment := by
    unfold inside
    rw [if_neg]
    intro star_
    rw [Option.or_none] at star_
    apply last
    rw [body,List.getLast?_append,star_]
    rfl
  rw [ended] at inner
  have closing : Reads javaByte .comment (shown p.indent (literal " */")) [] .blank := by
    have marker : Reads javaByte .comment (literal " */" ++ [newline]) [] .blank := by decide +kernel
    rw [shown,List.append_assoc]
    exact (spaces_read .comment (by decide +kernel) _).append marker
  exact (opened.append inner).append closing

end Proteus.JavaGenerator
