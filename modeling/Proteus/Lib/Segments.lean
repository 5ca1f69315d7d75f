import Mathlib.Data.List.TakeWhile
import Mathlib.Tactic.Common

namespace Proteus.Segments
variable {α : Type}

-- A text as a reader from its front meets it: delimiters, and words that last
-- to the next delimiter or to the end.
inductive Cut (c : α) : List α → Prop where
  | nil : Cut c []
  | delimiter : Cut c rest → Cut c (c :: rest)
  | word : c ∉ word → word ≠ [] → (∀ a ∈ rest.head?, a = c) → Cut c rest → Cut c (word ++ rest)

variable {c : α} {text word rest : List α}

-- A maximal run of i .. j-1 without delimiters.
structure Run (c : α) (text : List α) (i j : Nat) : Prop where
  nonempty : i < j
  inside : j ≤ text.length
  plain : ∀ k, i ≤ k → k < j → text[k]? ≠ some c
  left : i = 0 ∨ text[i - 1]? = some c
  right : j = text.length ∨ text[j]? = some c

-- The pieces are the maximal runs of the text, in order and each of them once.
def Listed (c : α) (text : List α) (pieces : List (List α)) : Prop :=
  ∃ runs : List (Nat × Nat), runs.Pairwise (fun r s => r.2 < s.1) ∧ (∀ i j, (i,j) ∈ runs ↔ Run c text i j) ∧
    pieces = runs.map fun r => (text.drop r.1).take (r.2 - r.1)

section Word
variable {before : List α}

theorem word_at (plain : c ∉ word) (low : before.length ≤ k) (high : k < before.length + word.length) :
    (before ++ (word ++ rest))[k]? ≠ some c := by
  rw [List.getElem?_append_right low,List.getElem?_append_left (by omega)]
  exact fun present => plain (List.mem_of_getElem? present)

theorem word_end (before word rest : List α) : (before ++ (word ++ rest))[before.length + word.length]? = rest.head? := by
  rw [← List.append_assoc,← List.length_append,List.getElem?_append_right (Nat.le_refl _),Nat.sub_self,List.head?_eq_getElem?]

theorem word_slice (before word rest : List α) :
    ((before ++ (word ++ rest)).drop before.length).take (before.length + word.length - before.length) = word := by
  rw [List.drop_left,Nat.add_sub_cancel_left,List.take_left]

theorem word_run (plain : c ∉ word) (some_ : word ≠ []) (edge : ∀ a ∈ rest.head?, a = c)
    (left : before = [] ∨ before.getLast? = some c) :
    Run c (before ++ (word ++ rest)) before.length (before.length + word.length) := by
  have long := List.length_pos_iff.mpr some_
  refine ⟨by omega,by simp only [List.length_append]; omega,fun k low high => word_at plain low high,?_,?_⟩
  · rcases left with rfl | last
    · exact .inl rfl
    · right
      have positive : before ≠ [] := by rintro rfl; cases last
      have inside := List.length_pos_iff.mpr positive
      rw [List.getElem?_append_left (by omega),← List.getLast?_eq_getElem?,last]
  · rw [word_end]
    cases rest with
    | nil => exact .inl (by simp)
    | cons a rest => exact .inr (congrArg some (edge a rfl))

theorem word_runs (plain : c ∉ word) (some_ : word ≠ []) (edge : ∀ a ∈ rest.head?, a = c)
    (run : Run c (before ++ (word ++ rest)) i j) (low : before.length ≤ i) :
    i = before.length ∧ j = before.length + word.length ∨ before.length + word.length < i := by
  have long := List.length_pos_iff.mpr some_
  have behind := word_end before word rest
  rcases Nat.lt_or_ge i (before.length + word.length) with inner | outer
  · left
    have first : i = before.length := by
      by_contra later
      rcases run.left with zero | delimiter
      · omega
      · exact word_at plain (by omega) (by omega) delimiter
    refine ⟨first,?_⟩
    rcases Nat.lt_trichotomy j (before.length + word.length) with short | same | beyond
    · rcases run.right with whole | delimiter
      · simp only [whole,List.length_append] at short
        omega
      · have nonempty := run.nonempty
        exact absurd delimiter (word_at plain (by omega) short)
    · exact same
    · have reached := run.plain (before.length + word.length) (by omega) beyond
      have inside := run.inside
      cases rest with
      | nil => simp only [List.length_append,List.length_nil] at inside; omega
      | cons a rest => exact absurd (behind.trans (congrArg some (edge a rfl))) reached
  · right
    rcases Nat.lt_or_ge (before.length + word.length) i with beyond | met
    · exact beyond
    · have same : i = before.length + word.length := by omega
      have reached := run.plain i (Nat.le_refl _) run.nonempty
      have inside := run.inside
      have nonempty := run.nonempty
      rw [same] at reached
      cases rest with
      | nil => simp only [List.length_append,List.length_nil] at inside; omega
      | cons a rest => exact absurd (behind.trans (congrArg some (edge a rfl))) reached

end Word

section Splitting
variable [DecidableEq α]

-- The non-empty pieces of a text between its delimiters.
def segments (c : α) (text : List α) : List (List α) := (text.splitOn c).filter fun piece => !piece.isEmpty

theorem takeWhile_plain (c : α) (text : List α) : c ∉ text.takeWhile (· != c) := by
  intro present
  have kept : (c != c) = true := List.mem_takeWhile_imp (p := fun a => a != c) present
  exact absurd rfl (bne_iff_ne.mp kept)

theorem dropWhile_edge (c : α) (text : List α) : ∀ a ∈ (text.dropWhile (· != c)).head?, a = c := by
  intro a first
  have stopped := List.head?_dropWhile_not (· != c) text
  rw [first] at stopped
  simpa using stopped

theorem cut (c : α) (text : List α) : Cut c text := by
  induction length : text.length using Nat.strong_induction_on generalizing text with
  | _ n ih =>
    subst length
    cases text with
    | nil => exact .nil
    | cons a rest =>
      by_cases same : a = c
      · subst a
        exact .delimiter (ih rest.length (Nat.lt_succ_self _) rest rfl)
      · have parts : a :: rest = (a :: rest).takeWhile (· != c) ++ (a :: rest).dropWhile (· != c) :=
          List.takeWhile_append_dropWhile.symm
        have apart : (a != c) = true := bne_iff_ne.mpr same
        have shorter : ((a :: rest).dropWhile (· != c)).length < (a :: rest).length := by
          rw [List.dropWhile_cons,apart]
          exact Nat.lt_succ_of_le (List.dropWhile_suffix _).length_le
        rw [parts]
        refine .word (takeWhile_plain c _) ?_ (dropWhile_edge c _) (ih _ shorter _ rfl)
        rw [List.takeWhile_cons,apart]
        exact List.cons_ne_nil _ _

@[simp] theorem segments_nil (c : α) : segments c [] = [] := rfl

@[simp] theorem segments_delimiter (c : α) (rest : List α) : segments c (c :: rest) = segments c rest := by
  unfold segments
  rw [List.splitOn_cons_eq_if_modifyHead,if_pos (beq_self_eq_true c)]
  rfl

-- Text without delimiter goes to the piece that follows it.
theorem splitOn_plain (plain : c ∉ word) (rest : List α) : (word ++ rest).splitOn c = (rest.splitOn c).modifyHead (word ++ ·) := by
  obtain ⟨piece,pieces,parts⟩ := List.exists_cons_of_ne_nil (List.splitOn_ne_nil c rest)
  induction word with
  | nil => rw [List.nil_append,parts]; rfl
  | cons a word ih =>
    obtain ⟨apart,later⟩ := not_or.mp (mt List.mem_cons.mpr plain)
    have other : ¬ (a == c) = true := fun same => apart (eq_of_beq same).symm
    rw [List.cons_append,List.splitOn_cons_eq_if_modifyHead,if_neg other,ih later,parts]
    rfl

theorem plain_false (plain : c ∉ word) : ∀ a ∈ word, (a == c) = false := by
  intro a present
  exact beq_eq_false_iff_ne.mpr fun same => plain (same ▸ present)

theorem segments_word (plain : c ∉ word) (some_ : word ≠ []) (edge : ∀ a ∈ rest.head?, a = c) :
    segments c (word ++ rest) = word :: segments c rest := by
  cases rest with
  | nil =>
    have single : word.splitOn c = [word] := List.splitOnP_eq_singleton (plain_false plain)
    rw [List.append_nil,segments,single,segments_nil]
    simp [some_]
  | cons a rest =>
    have delimiter : a = c := edge a rfl
    subst a
    have parts : (word ++ c :: rest).splitOn c = word :: rest.splitOn c :=
      List.splitOnP_append_cons_of_forall_mem (plain_false plain) c (beq_self_eq_true c) rest
    rw [segments_delimiter,segments,parts,segments]
    simp [some_]

theorem listed_from (path : Cut c rest) (before : List α)
    (edge : before = [] ∨ before.getLast? = some c ∨ ∀ a ∈ rest.head?, a = c) :
    ∃ runs : List (Nat × Nat), runs.Pairwise (fun r s => r.2 < s.1) ∧
      (∀ i j, (i,j) ∈ runs ↔ Run c (before ++ rest) i j ∧ before.length ≤ i) ∧
      segments c rest = runs.map fun r => ((before ++ rest).drop r.1).take (r.2 - r.1) := by
  induction path generalizing before with
  | nil =>
    refine ⟨[],.nil,?_,rfl⟩
    intro i j
    refine ⟨fun none => absurd none List.not_mem_nil,?_⟩
    rintro ⟨run,low⟩
    have inside := run.inside
    have nonempty := run.nonempty
    rw [List.append_nil] at inside
    omega
  | @delimiter rest _ ih =>
    obtain ⟨runs,ordered,members,pieces⟩ := ih (before ++ [c]) (.inr (.inl List.getLast?_concat))
    rw [List.append_assoc] at members pieces
    refine ⟨runs,ordered,?_,by rw [segments_delimiter]; exact pieces⟩
    intro i j
    rw [members,List.length_append]
    refine ⟨fun ⟨run,low⟩ => ⟨run,Nat.le_of_succ_le low⟩,?_⟩
    rintro ⟨run,low⟩
    refine ⟨run,Nat.lt_of_le_of_ne low ?_⟩
    rintro rfl
    exact run.plain _ (Nat.le_refl _) run.nonempty (by simp)
  | @word word rest plain some_ next _ ih =>
    obtain ⟨runs,ordered,members,pieces⟩ := ih (before ++ word) (.inr (.inr next))
    rw [List.append_assoc] at members pieces
    have left : before = [] ∨ before.getLast? = some c := by
      rcases edge with start | delimiter | first
      · exact .inl start
      · exact .inr delimiter
      · obtain ⟨a,others,rfl⟩ := List.exists_cons_of_ne_nil some_
        exact absurd (first a rfl ▸ List.mem_cons_self) plain
    have later {i j : Nat} (run : Run c (before ++ (word ++ rest)) i j) (beyond : (before ++ word).length ≤ i) :
        before.length + word.length < i := by
      rw [List.length_append] at beyond
      rcases word_runs plain some_ next run (by omega) with ⟨same,_⟩ | strict
      · have long := List.length_pos_iff.mpr some_
        omega
      · exact strict
    refine ⟨(before.length,before.length + word.length) :: runs,List.pairwise_cons.mpr ⟨?_,ordered⟩,?_,?_⟩
    · rintro ⟨i,j⟩ listed
      obtain ⟨run,beyond⟩ := (members i j).mp listed
      exact later run beyond
    · intro i j
      rw [List.mem_cons,members,List.length_append]
      constructor
      · rintro (same | ⟨run,beyond⟩)
        · cases same
          exact ⟨word_run plain some_ next left,Nat.le_refl _⟩
        · exact ⟨run,Nat.le_trans (Nat.le_add_right _ _) beyond⟩
      · rintro ⟨run,low⟩
        rcases word_runs plain some_ next run low with ⟨rfl,rfl⟩ | beyond
        · exact .inl rfl
        · exact .inr ⟨run,Nat.le_of_lt beyond⟩
    · rw [segments_word plain some_ next,pieces,List.map_cons,word_slice]

theorem segments_listed (c : α) (text : List α) : Listed c text (segments c text) := by
  obtain ⟨runs,ordered,members,pieces⟩ := listed_from (cut c text) [] (.inl rfl)
  refine ⟨runs,ordered,?_,pieces⟩
  intro i j
  rw [members]
  exact ⟨And.left,fun run => ⟨run,Nat.zero_le _⟩⟩

end Splitting
end Proteus.Segments
