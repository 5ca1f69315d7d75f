import Proteus.GeneratedFiles
import Proteus.JavaNames
import Proteus.TemplateChecks
import Mathlib.Tactic.IntervalCases

namespace Proteus.JavaGenerator

-- What the generators are given besides a service: its file, what protobuf knows
-- of Java names and of comments, and the version the plugin was built with.
structure Compilation where
  file : FileDescriptor
  file_name : CString
  ClassName : Descriptor → CString
  serviceLocation : ServiceDescriptor → Option SourceLocation
  methodLocation : MethodDescriptor → Option SourceLocation
  PROTEUS_VERSION : Option CString

-- The value that vars["proteus_version"] has once the condition is past.
def proteus_version (c : Compilation) (disable_version : Bool) : CString :=
  match c.PROTEUS_VERSION with
  | some version => if !disable_version then literal " (version " ++ version ++ literal ")" else []
  | none => []

-- std::to_string of an int32_t.
def to_string (n : JInt) : CString :=
  (if n.toInt < 0 then [minus] else []) ++ (Nat.toDigits 10 n.toInt.natAbs).map fun d => UInt8.ofNat d.toNat

-- The value of an int literal of Java, with its sign.
def readInt (text : CString) : Option JInt :=
  let digits := if text.head? = some minus then text.tail else text
  let value : Int := if text.head? = some minus then -(decimal digits : Nat) else (decimal digits : Nat)
  if digits ≠ [] ∧ digits.all isdigit ∧ -0x80000000 ≤ value ∧ value < 0x80000000 then some (BitVec.ofInt 32 value) else none

example : readInt (to_string (-1674778812)) = some (-1674778812) := by decide +kernel

theorem digit_byte {d : Char} (digit : d.isDigit) : ∃ k, k < 10 ∧ d.toNat = 48 + k := by
  have bounds : 48 ≤ d.val.toNat ∧ d.val.toNat ≤ 57 := by simpa [Char.isDigit,Char.le_def,UInt32.le_iff_toNat_le] using digit
  change ∃ k, k < 10 ∧ d.val.toNat = 48 + k
  exact ⟨d.val.toNat - 48,by omega,by omega⟩

theorem digits_decimal (digits : List Char) (each : ∀ d ∈ digits, d.isDigit) (n : Nat) :
    (digits.map fun d => UInt8.ofNat d.toNat).foldl (fun n d => 10 * n + (d.toNat - 48)) n = Nat.ofDigitChars 10 digits n := by
  induction digits generalizing n with
  | nil => simp
  | cons d digits ih =>
    obtain ⟨first,rest⟩ := List.forall_mem_cons.mp each
    obtain ⟨k,small,byte⟩ := digit_byte first
    have value : (UInt8.ofNat d.toNat).toNat = d.toNat := by
      rw [UInt8.toNat_ofNat']
      omega
    rw [List.map_cons,List.foldl_cons,ih rest,Nat.ofDigitChars_cons,value]
    rfl

theorem digits_isdigit (n : Nat) : ∀ c ∈ (Nat.toDigits 10 n).map fun d => UInt8.ofNat d.toNat, isdigit c := by
  intro c listed
  obtain ⟨d,member,rfl⟩ := List.mem_map.mp listed
  obtain ⟨k,small,byte⟩ := digit_byte (Nat.isDigit_of_mem_toDigits (by decide) (by decide) member)
  rw [byte]
  interval_cases k <;> decide

theorem readInt_to_string (n : JInt) : readInt (to_string n) = some n := by
  have digits := digits_isdigit n.toInt.natAbs
  have number : decimal ((Nat.toDigits 10 n.toInt.natAbs).map fun d => UInt8.ofNat d.toNat) = n.toInt.natAbs := by
    rw [decimal,digits_decimal _ (fun d => Nat.isDigit_of_mem_toDigits (by decide) (by decide)),Nat.ofDigitChars_ten_toDigits]
  have some_ : ((Nat.toDigits 10 n.toInt.natAbs).map fun d => UInt8.ofNat d.toNat) ≠ [] := by simp [Nat.toDigits_ne_nil]
  have range : -0x80000000 ≤ n.toInt ∧ n.toInt < 0x80000000 := ⟨BitVec.le_toInt n,BitVec.toInt_lt⟩
  unfold to_string
  generalize (Nat.toDigits 10 n.toInt.natAbs).map (fun d => UInt8.ofNat d.toNat) = text at *
  by_cases negative : n.toInt < 0
  · have value : -(n.toInt.natAbs : Int) = n.toInt := by omega
    rw [if_pos negative]
    simp only [readInt,List.singleton_append,List.head?_cons,if_true,List.tail_cons,number,value]
    rw [if_pos ⟨some_,List.all_eq_true.mpr digits,range⟩,BitVec.ofInt_toInt]
  · have value : (n.toInt.natAbs : Int) = n.toInt := by omega
    have unsigned : text.head? ≠ some minus := fun head =>
      absurd (digits _ (List.mem_of_mem_head? head)) (by decide)
    rw [if_neg negative,List.nil_append]
    simp only [readInt,if_neg unsigned,number,value]
    rw [if_pos ⟨some_,List.all_eq_true.mpr digits,range⟩,BitVec.ofInt_toInt]

theorem to_string_wordy (n : JInt) : Wordy (to_string n) := by
  have digits := digits_isdigit n.toInt.natAbs
  refine ⟨by simp [to_string,Nat.toDigits_ne_nil],?_⟩
  intro c listed
  rcases List.mem_append.mp listed with sign | digit
  · split at sign
    · rw [List.mem_singleton.mp sign]
      decide
    · cases sign
  · simp [wordByte,digits c digit]

theorem toupper_word (word : wordByte c) : wordByte (toupper c) := by
  by_cases lower : islower c
  · simp [wordByte,toupper_isupper lower]
  · rwa [toupper_fixed lower]

theorem tolower_word (word : wordByte c) : wordByte (tolower c) := by
  unfold tolower
  split
  · rename_i upper
    have lower : islower (c + 32) := by
      rw [isupper_iff] at upper
      rw [islower_iff,UInt8.toNat_add]
      simp
      omega
    simp [wordByte,lower]
  · exact word

theorem mixedFrom_word (word : ∀ c ∈ text, wordByte c) (after : Bool) : ∀ c ∈ mixedFrom after text, wordByte c := by
  induction text generalizing after with
  | nil => intro c listed; cases listed
  | cons d text ih =>
    obtain ⟨first,rest⟩ := List.forall_mem_cons.mp word
    intro c listed
    rw [mixedFrom] at listed
    split at listed
    · exact ih rest _ c listed
    · rcases List.mem_cons.mp listed with rfl | later
      · split
        · exact toupper_word first
        · exact first
      · exact ih rest _ c later

theorem upper_word (word : ∀ c ∈ text, wordByte c) : ∀ c ∈ ToAllUpperCase text, wordByte c := by
  induction text using ToAllUpperCase.induct with
  | case1 => intro c listed; cases listed
  | case2 d =>
    intro c listed
    rw [List.mem_singleton.mp listed]
    exact toupper_word (word d (by simp))
  | case3 d e text hump ih =>
    obtain ⟨first,rest⟩ := List.forall_mem_cons.mp word
    intro c listed
    rw [ToAllUpperCase,if_pos hump] at listed
    rcases List.mem_cons.mp listed with rfl | later
    · exact toupper_word first
    · rcases List.mem_cons.mp later with rfl | last
      · decide
      · exact ih rest c last
  | case4 d e text flat ih =>
    obtain ⟨first,rest⟩ := List.forall_mem_cons.mp word
    intro c listed
    rw [ToAllUpperCase,if_neg flat] at listed
    rcases List.mem_cons.mp listed with rfl | later
    · exact toupper_word first
    · exact ih rest c later

theorem identifier_wordy (identifier : Identifier name) : Wordy name := by
  refine ⟨identifier_nonempty identifier,?_⟩
  cases name with
  | nil => cases identifier
  | cons c name =>
    simp only [Identifier,Bool.and_eq_true,List.all_eq_true] at identifier
    have letter (d : UInt8) (some_ : isletter d || isdigit d) : wordByte d := by
      unfold isletter at some_
      unfold wordByte
      simp only [Bool.or_eq_true] at some_ ⊢
      tauto
    intro d listed
    rcases List.mem_cons.mp listed with rfl | later
    · exact letter d (by simp [identifier.1])
    · exact letter d (identifier.2 d later)

theorem lower_wordy (identifier : Identifier method.name) : Wordy (LowerMethodName method) := by
  obtain ⟨some_,each⟩ := identifier_wordy identifier
  refine ⟨List.cons_ne_nil _ _,?_⟩
  intro c listed
  unfold LowerMethodName MixedLower at listed
  cases known : method.name with
  | nil => exact absurd known some_
  | cons d name =>
    rw [known] at listed each
    obtain ⟨first,rest⟩ := List.forall_mem_cons.mp each
    rcases List.mem_cons.mp listed with rfl | later
    · exact tolower_word first
    · exact mixedFrom_word rest _ c later

theorem field_wordy (identifier : Identifier method.name) : Wordy (MethodIdFieldName method) := by
  refine ⟨by simp [MethodIdFieldName,literal],?_⟩
  intro c listed
  rcases List.mem_append.mp listed with fixed | name
  · exact (show ∀ c ∈ literal "METHOD_", wordByte c by decide +kernel) c fixed
  · exact upper_word (identifier_wordy identifier).2 c name

theorem class_wordy (identifier : Identifier name) {suffix : CString} (plain : ∀ c ∈ suffix, wordByte c) : Wordy (name ++ suffix) := by
  obtain ⟨some_,each⟩ := identifier_wordy identifier
  refine ⟨List.append_ne_nil_of_left_ne_nil some_ _,?_⟩
  intro c listed
  rcases List.mem_append.mp listed with own | added
  · exact each c own
  · exact plain c added

end Proteus.JavaGenerator
