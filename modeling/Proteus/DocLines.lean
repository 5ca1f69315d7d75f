import Proteus.Splitting

namespace Proteus.JavaGenerator
open Segments

def semicolon : UInt8 := 59

def decimal (digits : CString) : Nat := digits.foldl (fun n d => 10 * n + (d.toNat - 48)) 0

-- What an HTML character reference stands for, by what it has between ampersand
-- and semicolon: a decimal code, or a name.
def reference : CString → Option UInt8
  | 35 :: digits =>
    if digits ≠ [] ∧ digits.all isdigit ∧ decimal digits < 128 then some (UInt8.ofNat (decimal digits)) else none
  | name => [(literal "amp",ampersand),(literal "lt",less),(literal "gt",greater),(literal "quot",34)].lookup name

-- A text as it is read under HTML: known references are replaced, and everything
-- else is itself. The first argument is a reference that has begun.
def decodeFrom : Option CString → CString → CString
  | none,[] => []
  | some name,[] => ampersand :: name
  | none,c :: text => if c = ampersand then decodeFrom (some []) text else c :: decodeFrom none text
  | some name,c :: text =>
    if c = ampersand then ampersand :: name ++ decodeFrom (some []) text
    else if c = semicolon then
      match reference name with
      | some d => d :: decodeFrom none text
      | none => ampersand :: name ++ semicolon :: decodeFrom none text
    else decodeFrom (some (name ++ [c])) text

def decode (text : CString) : CString := decodeFrom none text

example : decode (literal "&#42;/ &lt;a&gt; &nbsp; R&D") = literal "*/ <a> &nbsp; R&D" := by decide +kernel

theorem decode_plain (plain : c ≠ ampersand) (rest : CString) : decode (c :: rest) = c :: decode rest := if_neg plain

theorem decodeFrom_name (plain : ∀ d ∈ name, d ≠ ampersand ∧ d ≠ semicolon) (begun rest : CString) :
    decodeFrom (some begun) (name ++ rest) = decodeFrom (some (begun ++ name)) rest := by
  induction name generalizing begun with
  | nil => rw [List.append_nil,List.nil_append]
  | cons d name ih =>
    obtain ⟨first,later⟩ := List.forall_mem_cons.mp plain
    rw [List.cons_append,decodeFrom,if_neg first.1,if_neg first.2,ih later,List.append_assoc]
    rfl

theorem decode_reference (name : CString) (plain : ∀ d ∈ name, d ≠ ampersand ∧ d ≠ semicolon) (known : reference name = some c) (rest : CString) :
    decode (ampersand :: name ++ [semicolon] ++ rest) = c :: decode rest := by
  have begins : decode (ampersand :: name ++ [semicolon] ++ rest) = decodeFrom (some []) (name ++ ([semicolon] ++ rest)) := by
    rw [List.cons_append,List.cons_append,List.append_assoc,decode,decodeFrom,if_pos rfl]
  rw [begins,decodeFrom_name plain,List.nil_append,List.singleton_append,decodeFrom,if_neg (by decide),if_pos rfl,known]
  rfl

theorem decode_escaped (prev c : UInt8) (rest : CString) : decode (escaped prev c ++ rest) = c :: decode rest := by
  unfold escaped
  split_ifs with isStar afterSlash isSlash afterStar isAt isLess isGreater isAmpersand isBackslash
  · exact decode_reference [35,52,50] (by decide +kernel) (by subst c; decide +kernel) rest
  · exact decode_plain (by subst c; decide) rest
  · exact decode_reference [35,52,55] (by decide +kernel) (by subst c; decide +kernel) rest
  · exact decode_plain (by subst c; decide) rest
  · exact decode_reference [35,54,52] (by decide +kernel) (by subst c; decide +kernel) rest
  · exact decode_reference [108,116] (by decide +kernel) (by subst c; decide +kernel) rest
  · exact decode_reference [103,116] (by decide +kernel) (by subst c; decide +kernel) rest
  · exact decode_reference [97,109,112] (by decide +kernel) (by subst c; decide +kernel) rest
  · exact decode_reference [35,57,50] (by decide +kernel) (by subst c; decide +kernel) rest
  · exact decode_plain isAmpersand rest

theorem decode_escapeFrom (prev : UInt8) (input : CString) : decode (escapeFrom prev input) = input := by
  induction input generalizing prev with
  | nil => rfl
  | cons c input ih => rw [escapeFrom,decode_escaped,ih]

theorem escaped_newline (prev : UInt8) : escaped prev newline = [newline] := by
  unfold escaped
  split_ifs <;> first | rfl | contradiction

theorem newline_kept (apart : c ≠ newline) (prev : UInt8) : newline ∉ escaped prev c := by
  unfold escaped
  split_ifs <;> first | decide | exact fun present => apart (List.mem_singleton.mp present).symm

-- Escaping goes on from line to line; a line's own first byte follows a newline.
def escapeLines (prev : UInt8) : List CString → List CString
  | [] => []
  | line :: lines => escapeFrom prev line :: lines.map (escapeFrom newline)

-- No newline is escaped and none is added, so escaping is done line by line.
theorem escape_lines (prev : UInt8) (input : CString) :
    (escapeFrom prev input).splitOn newline = escapeLines prev (input.splitOn newline) := by
  induction input generalizing prev with
  | nil => rfl
  | cons c input ih =>
    obtain ⟨line,lines,parts⟩ := List.exists_cons_of_ne_nil (List.splitOn_ne_nil newline input)
    rw [escapeFrom,List.splitOn_cons_eq_if_modifyHead]
    by_cases same : c = newline
    · subst c
      rw [if_pos (beq_self_eq_true newline),escaped_newline,List.singleton_append,List.splitOn_cons_eq_if_modifyHead,
        if_pos (beq_self_eq_true newline),ih,parts]
      rfl
    · rw [if_neg (by simpa using same),splitOn_plain (newline_kept same prev),ih,parts]
      rfl

theorem escape_visible (prev : UInt8) (input : CString) : (escapeFrom prev input).isEmpty = input.isEmpty := by
  cases input with
  | nil => rfl
  | cons c input =>
    have decoded := decode_escapeFrom prev (c :: input)
    cases written : escapeFrom prev (c :: input) with
    | nil => rw [written] at decoded; cases decoded
    | cons d text => rfl

theorem GetDocLines_exact (comments : CString) : GetDocLines comments =
    (escapeLines star (comments.splitOn newline)).filter fun line => !line.isEmpty := by
  rw [← escape_lines]
  change _ = segments newline (EscapeJavadoc comments)
  unfold GetDocLines
  split
  · rw [Split_exact]
    -- No piece is empty, so there is none to pop.
    refine List.rdropWhile_eq_self_iff.mpr fun some_ empty => ?_
    have visible := (List.mem_filter.mp (List.getLast_mem some_)).2
    rw [empty] at visible
    cases visible
  · rename_i empty
    have nothing : comments = [] := by simpa using empty
    subst comments
    rfl

def Escapes (line text : CString) : Prop := ∃ prev, line = escapeFrom prev text

theorem decode_whole (whole : List.Forall₂ Escapes lines texts) : lines.map decode = texts := by
  induction whole with
  | nil => rfl
  | cons first _ ih =>
    obtain ⟨prev,rfl⟩ := first
    rw [List.map_cons,decode_escapeFrom,ih]

theorem lines_whole (prev : UInt8) (lines : List CString) :
    List.Forall₂ Escapes (escapeLines prev lines) lines := by
  cases lines with
  | nil => exact .nil
  | cons line lines =>
    refine .cons ⟨prev,rfl⟩ (List.forall₂_map_left_iff.mpr (List.forall₂_same.mpr ?_))
    exact fun later _ => ⟨newline,rfl⟩

-- A comment that can be read back from what is printed of it: every line is made
-- of the whole escapes of one segment, and the newlines stand where they stood.
structure Faithful (comments : CString) : Prop where
  unescaped : decode (EscapeJavadoc comments) = comments
  newlines : ((EscapeJavadoc comments).splitOn newline).map decode = comments.splitOn newline
  whole : List.Forall₂ Escapes (GetDocLines comments) (segments newline comments)
  decoded : (GetDocLines comments).map decode = segments newline comments

theorem doc_lines_faithful : Function.Injective EscapeJavadoc ∧ ∀ comments, Faithful comments := by
  refine ⟨Function.LeftInverse.injective (decode_escapeFrom star),?_⟩
  intro comments
  have lines := lines_whole star (comments.splitOn newline)
  have whole : List.Forall₂ Escapes (GetDocLines comments) (segments newline comments) := by
    rw [GetDocLines_exact]
    refine List.rel_filter ?_ lines
    rintro line text ⟨prev,rfl⟩
    dsimp only
    rw [escape_visible]
  refine ⟨decode_escapeFrom star comments,?_,whole,decode_whole whole⟩
  rw [EscapeJavadoc,escape_lines]
  exact decode_whole lines

end Proteus.JavaGenerator
