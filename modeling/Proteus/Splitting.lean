import Proteus.Javadoc
import Proteus.Lib.Segments

namespace Proteus.JavaGenerator
open Segments

-- SplitStringToIteratorUsing as it walks over memory. Pointers into full.data()
-- are indices; none is a read outside the string, or a loop still running when
-- its fuel is spent.
def readAt (full : CString) (p : Nat) : Option UInt8 := full[p]?

-- string(start, n)
def stringAt (full : CString) (start n : Nat) : Option CString :=
  if start + n ≤ full.length then some ((full.drop start).take n) else none

-- `while (++p != end && *p != c);`
def skipWord (full : CString) (c : UInt8) : Nat → Nat → Option Nat
  | 0,_ => none
  | fuel+1,p =>
    let p := p + 1
    if p = full.length then some p
    else (readAt full p).bind fun b => if b = c then some p else skipWord full c fuel p

-- The branch for a delimiter of one character.
def splitByChar (full : CString) (c : UInt8) : Nat → Nat → Option (List CString)
  | 0,_ => none
  | fuel+1,p =>
    if p = full.length then some []
    else (readAt full p).bind fun b =>
      if b = c then splitByChar full c fuel (p + 1)
      else
        let start := p
        (skipWord full c (fuel + 1) p).bind fun p =>
          (stringAt full start (p - start)).bind fun piece =>
            (splitByChar full c fuel p).map fun pieces => piece :: pieces

-- std::string's searches among the characters of a C string; none is npos.
def find_first_of (full delim : CString) (pos : Nat) : Option Nat :=
  ((full.drop pos).findIdx? fun b => b ∈ delim).map (pos + ·)

def find_first_not_of (full delim : CString) (pos : Nat) : Option Nat :=
  ((full.drop pos).findIdx? fun b => b ∉ delim).map (pos + ·)

-- substr throws from beyond the end; a count of none is npos.
def substr (full : CString) (pos : Nat) (count : Option Nat) : Option CString :=
  if pos ≤ full.length then some (match count with
    | none => full.drop pos
    | some n => (full.drop pos).take n)
  else none

def splitBySearch (full delim : CString) : Nat → Option Nat → Option (List CString)
  | 0,_ => none
  | _+1,none => some []
  | fuel+1,some begin_index =>
    match find_first_of full delim begin_index with
    | none => (substr full begin_index none).map fun piece => [piece]
    | some end_index =>
      (substr full begin_index (some (end_index - begin_index))).bind fun piece =>
        (splitBySearch full delim fuel (find_first_not_of full delim end_index)).map fun pieces => piece :: pieces

-- A C string ends before its first NUL.
def cString (memory : CString) : CString := memory.takeWhile (· != 0)

def SplitStringToIteratorUsing (fuel : Nat) (full delim : CString) : Option (List CString) :=
  if delim.getD 0 0 ≠ 0 ∧ delim.getD 1 0 = 0 then splitByChar full (delim.getD 0 0) fuel 0
  else splitBySearch full (cString delim) fuel (find_first_not_of full (cString delim) 0)

section Branches
variable {c : UInt8} {word rest : CString}

theorem front_apart (before : CString) (a : UInt8) (rest : CString) : before.length ≠ (before ++ a :: rest).length := by
  simp only [List.length_append,List.length_cons]
  omega

theorem readAt_front (before : CString) (a : UInt8) (rest : CString) : readAt (before ++ a :: rest) before.length = some a := by
  simp [readAt]

theorem skipWord_word (plain : c ∉ word) (some_ : word ≠ []) (edge : ∀ a ∈ rest.head?, a = c) (before : CString)
    (enough : word.length ≤ fuel) :
    skipWord (before ++ (word ++ rest)) c fuel before.length = some (before.length + word.length) := by
  induction word generalizing before fuel with
  | nil => exact absurd rfl some_
  | cons a word ih =>
    have moved : before.length + 1 = (before ++ [a]).length := by simp
    have shifted : before ++ (a :: word ++ rest) = (before ++ [a]) ++ (word ++ rest) := by simp
    cases fuel with
    | zero => cases enough
    | succ fuel =>
      unfold skipWord
      dsimp only
      rw [moved,shifted]
      cases word with
      | nil =>
        cases rest with
        | nil => rw [if_pos (by simp)]; simp
        | cons d rest =>
          rw [List.nil_append,if_neg (front_apart _ d rest),readAt_front,Option.bind_some,if_pos (edge d rfl)]
          simp
      | cons b word =>
        have other : b ≠ c := fun same => plain (by simp [same])
        rw [List.cons_append,if_neg (front_apart _ b _),readAt_front,Option.bind_some,if_neg other,← List.cons_append,
          ih (fun present => plain (List.mem_cons_of_mem _ present)) (List.cons_ne_nil _ _) _ (Nat.le_of_succ_le_succ enough)]
        simp only [List.length_append,List.length_cons,List.length_nil]
        congr 1
        omega

theorem stringAt_word (before word rest : CString) :
    stringAt (before ++ (word ++ rest)) before.length (before.length + word.length - before.length) = some word := by
  have fits : before.length + (before.length + word.length - before.length) ≤ (before ++ (word ++ rest)).length := by
    simp only [List.length_append]
    omega
  rw [stringAt,if_pos fits,word_slice]

theorem splitByChar_from (path : Cut c rest) (before : CString) (enough : rest.length < fuel) :
    splitByChar (before ++ rest) c fuel before.length = some (segments c rest) := by
  induction path generalizing before fuel with
  | nil =>
    cases fuel with
    | zero => cases enough
    | succ fuel =>
      unfold splitByChar
      rw [if_pos (by simp)]
      rfl
  | @delimiter rest _ ih =>
    cases fuel with
    | zero => cases enough
    | succ fuel =>
      have moved : before.length + 1 = (before ++ [c]).length := by simp
      have shifted : before ++ c :: rest = (before ++ [c]) ++ rest := by simp
      unfold splitByChar
      rw [if_neg (front_apart before c rest),readAt_front,Option.bind_some,if_pos rfl,moved,shifted,
        ih _ (Nat.lt_of_succ_lt_succ enough),segments_delimiter]
  | @word word rest plain some_ edge _ ih =>
    cases fuel with
    | zero => cases enough
    | succ fuel =>
      obtain ⟨a,others,rfl⟩ := List.exists_cons_of_ne_nil some_
      have other : a ≠ c := fun same => plain (by simp [same])
      have length : (a :: others).length + rest.length < fuel + 1 := by rw [← List.length_append]; exact enough
      have later := ih (before ++ a :: others) (show rest.length < fuel by simp only [List.length_cons] at length; omega)
      rw [List.append_assoc,List.length_append] at later
      unfold splitByChar
      dsimp only
      rw [List.cons_append,if_neg (front_apart before a _),readAt_front,Option.bind_some,if_neg other,← List.cons_append,
        skipWord_word plain some_ edge before (by omega),Option.bind_some,stringAt_word,Option.bind_some,later,
        segments_word plain some_ edge]
      rfl

theorem first_found (before rest delim : CString) :
    find_first_of (before ++ rest) delim before.length = (rest.findIdx? fun b => b ∈ delim).map (before.length + ·) := by
  rw [find_first_of,List.drop_left]

theorem first_missed (before rest delim : CString) :
    find_first_not_of (before ++ rest) delim before.length = (rest.findIdx? fun b => b ∉ delim).map (before.length + ·) := by
  rw [find_first_not_of,List.drop_left]

theorem delimiter_passed (before rest : CString) (c : UInt8) : find_first_not_of (before ++ c :: rest) [c] before.length =
    find_first_not_of (before ++ c :: rest) [c] (before.length + 1) := by
  have moved : before.length + 1 = (before ++ [c]).length := by simp
  have shifted : before ++ c :: rest = (before ++ [c]) ++ rest := by simp
  rw [first_missed,moved,shifted,first_missed,List.findIdx?_cons]
  simp only [List.mem_singleton,not_true,decide_false,List.length_append,List.length_cons,List.length_nil]
  rw [if_neg Bool.false_ne_true,Option.map_map]
  congr 1
  funext i
  simp only [Function.comp]
  omega

theorem word_missed (plain : c ∉ word) : word.findIdx? (fun b => b ∈ [c]) = none := by
  rw [List.findIdx?_eq_none_iff]
  intro b present
  have other : b ≠ c := fun same => plain (same ▸ present)
  simpa using other

theorem splitBySearch_from (path : Cut c rest) (before : CString) (enough : rest.length < fuel) :
    splitBySearch (before ++ rest) [c] fuel (find_first_not_of (before ++ rest) [c] before.length) = some (segments c rest) := by
  induction path generalizing before fuel with
  | nil =>
    cases fuel with
    | zero => cases enough
    | succ fuel =>
      rw [first_missed]
      rfl
  | @delimiter rest _ ih =>
    have moved : before.length + 1 = (before ++ [c]).length := by simp
    have shifted : before ++ c :: rest = (before ++ [c]) ++ rest := by simp
    rw [delimiter_passed,moved,shifted,ih _ (Nat.lt_of_succ_lt enough),segments_delimiter]
  | @word word rest plain some_ edge _ ih =>
    cases fuel with
    | zero => cases enough
    | succ fuel =>
      obtain ⟨a,others,rfl⟩ := List.exists_cons_of_ne_nil some_
      have other : a ≠ c := fun same => plain (by simp [same])
      have start : find_first_not_of (before ++ (a :: others ++ rest)) [c] before.length = some before.length := by
        rw [first_missed,List.cons_append,List.findIdx?_cons,if_pos (by simpa using other)]
        rfl
      rw [start,segments_word plain some_ edge]
      unfold splitBySearch
      rw [first_found,List.findIdx?_append,word_missed plain,Option.none_or]
      cases rest with
      | nil => simp [substr]
      | cons d rest =>
        have delimiter : d = c := edge d rfl
        subst d
        have length : (a :: others).length + (c :: rest).length < fuel + 1 := by rw [← List.length_append]; exact enough
        have later := ih (before ++ a :: others)
          (show (c :: rest).length < fuel by simp only [List.length_cons] at length ⊢; omega)
        rw [List.append_assoc,List.length_append] at later
        have found : ((c :: rest).findIdx? fun b => b ∈ [c]) = some 0 := by simp [List.findIdx?_cons]
        have piece : substr (before ++ (a :: others ++ c :: rest)) before.length
            (some (before.length + (a :: others).length - before.length)) = some (a :: others) := by
          rw [substr,if_pos (by simp),word_slice]
        rw [found]
        simp only [Option.map_some,Nat.zero_add]
        rw [piece,Option.bind_some,later]
        rfl

theorem Split_exact (full : CString) (c : UInt8) : Split full c = segments c full := by
  induction full using Split.induct c with
  | case1 => simp [Split]
  | case2 rest ih => rw [Split,if_pos rfl,ih,segments_delimiter]
  | case3 a rest apart ih =>
    have parts : a :: rest = (a :: rest.takeWhile (· != c)) ++ rest.dropWhile (· != c) := by
      rw [List.cons_append,List.takeWhile_append_dropWhile]
    have plain : c ∉ a :: rest.takeWhile (· != c) :=
      List.not_mem_cons_of_ne_of_not_mem (Ne.symm apart) (takeWhile_plain c rest)
    have word := segments_word plain (List.cons_ne_nil _ _) (dropWhile_edge c rest)
    rw [← parts] at word
    rw [Split,if_neg apart,ih,word]

-- What Split stands for: the walk over memory, once its fuel is enough.
theorem Split_run (full : CString) (nonzero : c ≠ 0) (enough : full.length < fuel) :
    SplitStringToIteratorUsing fuel full [c] = some (Split full c) := by
  rw [Split_exact]
  exact (if_pos ⟨nonzero,rfl⟩).trans (splitByChar_from (cut c full) [] enough)

end Branches

-- Both branches find the maximal runs of other characters, in order; neither
-- reads past the end, and each ends within a round more than there are characters.
theorem branches_agree (full : CString) (c : UInt8) (nonzero : c ≠ 0) :
    ∃ pieces, Listed c full pieces ∧ ∀ fuel, full.length < fuel →
      splitByChar full c fuel 0 = some pieces ∧
      splitBySearch full (cString [c]) fuel (find_first_not_of full (cString [c]) 0) = some pieces ∧
      SplitStringToIteratorUsing fuel full [c] = some pieces := by
  have visible : cString [c] = [c] := by simp [cString,nonzero]
  refine ⟨segments c full,segments_listed c full,?_⟩
  intro fuel enough
  have byChar := splitByChar_from (cut c full) [] enough
  refine ⟨byChar,?_,?_⟩
  · rw [visible]
    exact splitBySearch_from (cut c full) [] enough
  · exact (if_pos ⟨nonzero,rfl⟩).trans byChar

theorem branches_agree_comma : ∃ pieces, Listed 44 [44,97,44,44,0,98] pieces ∧ ∀ fuel, [44,97,44,44,0,98].length < fuel →
    splitByChar [44,97,44,44,0,98] 44 fuel 0 = some pieces ∧
    splitBySearch [44,97,44,44,0,98] (cString [44]) fuel (find_first_not_of [44,97,44,44,0,98] (cString [44]) 0) = some pieces ∧
    SplitStringToIteratorUsing fuel [44,97,44,44,0,98] [44] = some pieces :=
  branches_agree [44,97,44,44,0,98] 44 (by decide)
end Proteus.JavaGenerator
