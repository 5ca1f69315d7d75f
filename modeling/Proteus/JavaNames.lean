import Proteus.JavaGenerator
import Mathlib.Logic.Relation

namespace Proteus.NormalForms
open Relation
variable {α : Type} {step : α → α → Prop} {f : α → β}

theorem kept_closure (kept : ∀ a b, step a b → f a = f b) (related : EqvGen step a b) : f a = f b := by
  induction related with
  | rel a b taken => exact kept a b taken
  | refl a => rfl
  | symm a b _ ih => exact ih.symm
  | trans a b c _ _ left right => exact left.trans right

-- A normal form that every step keeps, and that steps lead to, identifies
-- exactly what the steps relate.
theorem kernel_exact {normal : α → α} (kept : ∀ a b, step a b → normal a = normal b) (left : EqvGen step a (normal a))
    (right : EqvGen step b (normal b)) : normal a = normal b ↔ EqvGen step a b := by
  constructor
  · intro same
    rw [same] at left
    exact left.trans _ _ _ (right.symm _ _)
  · exact kept_closure kept

end Proteus.NormalForms

namespace Proteus.JavaGenerator
open Relation NormalForms

def capitalize : CString → CString
  | [] => []
  | c :: word => toupper c :: word

-- Two spellings of one lower camel case name: the case of its first letter is
-- free, and so is how a later word is set off.
inductive Respelling : CString → CString → Prop where
  | first : tolower c = tolower d → Respelling (c :: word) (d :: word)
  | underscore : before ≠ [] → Respelling (before ++ underscore :: word) (before ++ capitalize word)

abbrev Respelled := EqvGen Respelling

-- Two spellings of one upper case name: the underscore of a hump is free, and
-- so is the case of a letter that is part of no hump.
inductive Recasing : CString → CString → Prop where
  | hump : islower c → isupper d → Recasing (before ++ c :: d :: word) (before ++ c :: underscore :: d :: word)
  | upper : (∀ b ∈ before.getLast?, ¬ islower b) → (∀ d ∈ word.head?, ¬ isupper d) →
      Recasing (before ++ c :: word) (before ++ toupper c :: word)

abbrev Recased := EqvGen Recasing

theorem islower_iff (c : UInt8) : islower c ↔ 97 ≤ c.toNat ∧ c.toNat ≤ 122 := by simp [islower,UInt8.le_iff_toNat_le]

theorem isupper_iff (c : UInt8) : isupper c ↔ 65 ≤ c.toNat ∧ c.toNat ≤ 90 := by simp [isupper,UInt8.le_iff_toNat_le]

theorem toupper_fixed (other : ¬ islower c) : toupper c = c := if_neg other

theorem toupper_isupper (lower : islower c) : isupper (toupper c) := by
  rw [toupper,if_pos lower,isupper_iff]
  rw [islower_iff] at lower
  rw [UInt8.toNat_sub_of_le c 32 (UInt8.le_iff_toNat_le.mpr (by simp; omega))]
  simp
  omega

theorem upper_not_lower (upper : isupper c) : ¬ islower c := by
  rw [isupper_iff] at upper
  rw [islower_iff]
  omega

theorem toupper_not_lower (c : UInt8) : ¬ islower (toupper c) := by
  by_cases lower : islower c
  · exact upper_not_lower (toupper_isupper lower)
  · rwa [toupper_fixed lower]

theorem toupper_idem (c : UInt8) : toupper (toupper c) = toupper c := toupper_fixed (toupper_not_lower c)

theorem toupper_underscore (c : UInt8) : toupper c = underscore ↔ c = underscore := by
  by_cases lower : islower c
  · have upper := toupper_isupper lower
    constructor
    · intro same
      rw [same] at upper
      exact absurd upper (by decide)
    · rintro rfl
      exact absurd lower (by decide)
  · rw [toupper_fixed lower]

theorem tolower_idem (c : UInt8) : tolower (tolower c) = tolower c := by
  by_cases upper : isupper c
  · have moved : tolower c = c + 32 := if_pos upper
    refine if_neg ?_
    rw [moved,isupper_iff]
    rw [isupper_iff] at upper
    rw [UInt8.toNat_add]
    simp
    omega
  · have fixed : tolower c = c := if_neg upper
    rw [fixed,fixed]

-- The flag of the loop stands for an underscore before the rest of the word.
theorem mixedFrom_capitalize (flag : Bool) (word : CString) : mixedFrom flag (capitalize word) = mixedFrom true word := by
  cases word with
  | nil => rfl
  | cons c word =>
    by_cases under : c = underscore
    · subst c
      have same : toupper underscore = underscore := by decide
      simp only [capitalize,same,mixedFrom,if_true]
    · have apart : toupper c ≠ underscore := fun same => under ((toupper_underscore c).mp same)
      simp only [capitalize,mixedFrom,if_neg under,if_neg apart,toupper_idem,if_true,ite_self]

theorem mixedFrom_spelled (flag : Bool) (before word : CString) :
    mixedFrom flag (before ++ underscore :: word) = mixedFrom flag (before ++ capitalize word) := by
  induction before generalizing flag with
  | nil =>
    rw [List.nil_append,List.nil_append,mixedFrom_capitalize,mixedFrom,if_pos rfl]
  | cons c before ih => simp only [List.cons_append,mixedFrom,ih]

theorem MixedLower_kept (taken : Respelling a b) : MixedLower a = MixedLower b := by
  cases taken with
  | first same => simp only [MixedLower,List.headD_cons,List.tail_cons,same]
  | @underscore before word nonempty =>
    cases before with
    | nil => exact absurd rfl nonempty
    | cons c before =>
      simp only [MixedLower,List.cons_append,List.headD_cons,List.tail_cons,mixedFrom_spelled]

theorem set_off (nonempty : before ≠ []) (word : CString) :
    Respelled (before ++ underscore :: word) (before ++ capitalize word) := .rel _ _ (.underscore nonempty)

-- Over the rest of the word, behind what the loop has already put out.
theorem mixedFrom_reached (word before : CString) (nonempty : before ≠ []) :
    Respelled (before ++ word) (before ++ mixedFrom false word) ∧
      Respelled (before ++ underscore :: word) (before ++ mixedFrom true word) := by
  induction word generalizing before with
  | nil => exact ⟨.refl _,set_off nonempty []⟩
  | cons c word ih =>
    by_cases under : c = underscore
    · subst c
      have rest := (ih before nonempty).2
      have twice := set_off nonempty (underscore :: word)
      simp only [mixedFrom,if_true]
      exact ⟨rest,twice.trans _ _ _ rest⟩
    · have plain := (ih (before ++ [c]) (by simp)).1
      have raised := (ih (before ++ [toupper c]) (by simp)).1
      rw [List.append_assoc,List.append_assoc] at plain raised
      simp only [mixedFrom,if_neg under]
      exact ⟨plain,(set_off nonempty (c :: word)).trans _ _ _ raised⟩

theorem MixedLower_reached (nonempty : word ≠ []) : Respelled word (MixedLower word) := by
  cases word with
  | nil => exact absurd rfl nonempty
  | cons c word =>
    have first : Respelled (c :: mixedFrom false word) (tolower c :: mixedFrom false word) :=
      .rel _ _ (.first (tolower_idem c).symm)
    exact (mixedFrom_reached word [c] (List.cons_ne_nil _ _)).1.trans _ _ _ first

theorem MixedLower_exact (left : a ≠ []) (right : b ≠ []) : MixedLower a = MixedLower b ↔ Respelled a b :=
  kernel_exact (fun _ _ => MixedLower_kept) (MixedLower_reached left) (MixedLower_reached right)

-- What ToAllUpperCase puts between two characters.
def gap (c d : UInt8) : CString := if islower c && isupper d then [underscore] else []

theorem ToAllUpperCase_cons (c d : UInt8) (word : CString) :
    ToAllUpperCase (c :: d :: word) = toupper c :: gap c d ++ ToAllUpperCase (d :: word) := by
  rw [ToAllUpperCase,gap]
  split <;> rfl

theorem gap_humpless (other : ¬ (islower c ∧ isupper d)) : gap c d = [] := by
  apply if_neg
  rwa [Bool.and_eq_true]

-- A word may be exchanged behind another where both begin alike for the hump.
theorem ToAllUpperCase_behind (before : CString) (same : ToAllUpperCase (c :: left) = ToAllUpperCase (d :: right))
    (seam : ∀ b ∈ before.getLast?, gap b c = gap b d) :
    ToAllUpperCase (before ++ c :: left) = ToAllUpperCase (before ++ d :: right) := by
  induction before with
  | nil => exact same
  | cons a before ih =>
    cases before with
    | nil =>
      rw [List.singleton_append,List.singleton_append,ToAllUpperCase_cons,ToAllUpperCase_cons,seam a rfl,same]
    | cons b before =>
      have rest := ih fun e last => seam e (by rw [List.getLast?_cons_cons]; exact last)
      simp only [List.cons_append] at rest ⊢
      rw [ToAllUpperCase_cons,ToAllUpperCase_cons,rest]

theorem ToAllUpperCase_kept (taken : Recasing a b) : ToAllUpperCase a = ToAllUpperCase b := by
  cases taken with
  | @hump c d before word lower upper =>
    apply ToAllUpperCase_behind before ?_ (fun _ _ => rfl)
    have first : gap c d = [underscore] := if_pos (by rw [lower,upper]; rfl)
    have second : gap c underscore = [] := gap_humpless fun both => absurd both.2 (by decide)
    have third : gap underscore d = [] := gap_humpless fun both => absurd both.1 (by decide)
    have same : toupper underscore = underscore := by decide
    rw [ToAllUpperCase_cons,ToAllUpperCase_cons c underscore,ToAllUpperCase_cons underscore d,first,second,third,same]
    rfl
  | @upper before c word behind ahead =>
    apply ToAllUpperCase_behind before
    · cases word with
      | nil => simp only [ToAllUpperCase,toupper_idem]
      | cons d word =>
        rw [ToAllUpperCase_cons,ToAllUpperCase_cons,toupper_idem,gap_humpless fun both => ahead d rfl both.2,
          gap_humpless fun both => toupper_not_lower c both.1]
    · intro b last
      rw [gap_humpless fun both => behind b last both.1,gap_humpless fun both => behind b last both.1]

theorem raised (before : CString) (c : UInt8) (word : CString) (behind : ∀ b ∈ before.getLast?, ¬ islower b)
    (ahead : islower c → ∀ d ∈ word.head?, ¬ isupper d) : Recased (before ++ c :: word) (before ++ toupper c :: word) := by
  by_cases lower : islower c
  · exact .rel _ _ (.upper behind (ahead lower))
  · rw [toupper_fixed lower]
    exact .refl _

theorem ToAllUpperCase_reached (word before : CString) (behind : ∀ b ∈ before.getLast?, ¬ islower b) :
    Recased (before ++ word) (before ++ ToAllUpperCase word) := by
  induction word using ToAllUpperCase.induct generalizing before with
  | case1 => exact .refl _
  | case2 c =>
    apply raised before c [] behind
    intro lower d first
    cases first
  | case3 c d word both ih =>
    obtain ⟨lower,upper⟩ := Bool.and_eq_true_iff.mp both
    have parted : Recased (before ++ c :: d :: word) (before ++ c :: underscore :: d :: word) := .rel _ _ (.hump lower upper)
    have up := raised before c (underscore :: d :: word) behind fun _ e first => by cases first; decide
    have rest := ih (before ++ [toupper c,underscore]) fun b last => by
      rw [List.getLast?_append] at last
      obtain rfl : underscore = b := Option.some.inj last
      decide
    rw [List.append_assoc,List.append_assoc] at rest
    rw [ToAllUpperCase,if_pos both]
    exact parted.trans _ _ _ (up.trans _ _ _ rest)
  | case4 c d word other ih =>
    have up := raised before c (d :: word) behind fun lower e first upper => by
      cases first
      exact other (Bool.and_eq_true_iff.mpr ⟨lower,upper⟩)
    have rest := ih (before ++ [toupper c]) fun b last => by
      rw [List.getLast?_concat] at last
      obtain rfl : toupper c = b := Option.some.inj last
      exact toupper_not_lower c
    rw [List.append_assoc,List.append_assoc] at rest
    rw [ToAllUpperCase,if_neg other]
    exact up.trans _ _ _ rest

theorem ToAllUpperCase_exact (a b : CString) : ToAllUpperCase a = ToAllUpperCase b ↔ Recased a b :=
  kernel_exact (fun _ _ => ToAllUpperCase_kept) (ToAllUpperCase_reached a [] fun _ last => by cases last)
    (ToAllUpperCase_reached b [] fun _ last => by cases last)

-- The keywords and literals of Java 8.
def reserved : List CString := ["abstract","assert","boolean","break","byte","case","catch","char","class","const","continue",
  "default","do","double","else","enum","extends","false","final","finally","float","for","goto","if","implements","import",
  "instanceof","int","interface","long","native","new","null","package","private","protected","public","return","short","static",
  "strictfp","super","switch","synchronized","this","throw","throws","transient","true","try","void","volatile",
  "while"].map literal

-- The fields a template declares before those of the methods.
def clientFields : List CString := [literal "rSocket"]
def serverFields : List CString := ["service","serializer"].map literal

theorem fixed_spelled : ∀ word ∈ reserved ++ clientFields ++ serverFields, MixedLower word = word ∧ word ≠ [] := by
  decide +kernel

def isletter (c : UInt8) : Bool := islower c || isupper c || c == underscore

-- What protobuf accepts as a method name.
def Identifier : CString → Bool
  | [] => false
  | c :: word => isletter c && word.all fun d => isletter d || isdigit d

theorem identifier_nonempty {word : CString} (identifier : Identifier word) : word ≠ [] := by
  rintro rfl
  cases identifier

section Services
variable (service : ServiceDescriptor)

-- The METHOD_ constants clash where one name recases another, the lower names
-- where one respells another, and a lower name is a word of Java or a field of
-- the template where the method's name respells that.
structure NameClashes : Prop where
  constants : (service.methods.map MethodIdFieldName).Nodup ↔
    service.methods.Pairwise fun m n => ¬ Recased m.name n.name
  lowers : (service.methods.map LowerMethodName).Nodup ↔
    service.methods.Pairwise fun m n => ¬ Respelled m.name n.name
  fixed : ∀ m ∈ service.methods, ∀ word ∈ reserved ++ clientFields ++ serverFields,
    LowerMethodName m = word ↔ Respelled m.name word

theorem name_clashes (identifiers : ∀ m ∈ service.methods, Identifier m.name) : NameClashes service := by
  refine ⟨?_,?_,?_⟩
  · rw [List.Nodup,List.pairwise_map]
    apply List.Pairwise.iff
    intro m n
    rw [Ne,MethodIdFieldName,MethodIdFieldName,List.append_cancel_left_eq,ToAllUpperCase_exact]
  · rw [List.Nodup,List.pairwise_map]
    apply List.Pairwise.iff_of_mem
    intro m n first second
    rw [Ne,LowerMethodName,LowerMethodName,
      MixedLower_exact (identifier_nonempty (identifiers m first)) (identifier_nonempty (identifiers n second))]
  · intro m member word listed
    obtain ⟨spelled,nonempty⟩ := fixed_spelled word listed
    have exact := MixedLower_exact (identifier_nonempty (identifiers m member)) nonempty
    rwa [spelled] at exact

end Services

theorem name_clashes_test : NameClashes TestService.descriptor := name_clashes TestService.descriptor (by decide +kernel)

-- Methods whose names are distinct identifiers.
def clashing : ServiceDescriptor where
  name := literal "Clashing"
  package := literal "io.netifi.testing"
  methods := ["GetURL","GetUrl","Get_1","Get1","Class","RSocket","Service","Serializer"].map fun name =>
    TestService.rpc name (TestService.message "SimpleRequest" 1) (TestService.message "SimpleResponse" 1) false false

structure NeverClash (service : ServiceDescriptor) : Prop where
  constants : (service.methods.map MethodIdFieldName).Nodup
  lowers : (service.methods.map LowerMethodName).Nodup
  words : ∀ m ∈ service.methods, LowerMethodName m ∉ reserved
  client : ∀ m ∈ service.methods, LowerMethodName m ∉ clientFields
  server : ∀ m ∈ service.methods, LowerMethodName m ∉ serverFields

-- METHOD_GET_URL and get1 are there twice, and the others are class, rSocket,
-- service and serializer.
theorem distinct_names_clash : (clashing.methods.map MethodDescriptor.name).Nodup ∧
    (∀ m ∈ clashing.methods, Identifier m.name) ∧ ¬ NeverClash clashing ∧
    ¬ (clashing.methods.map MethodIdFieldName).Nodup ∧ ¬ (clashing.methods.map LowerMethodName).Nodup ∧
    (∃ m ∈ clashing.methods, LowerMethodName m ∈ reserved) ∧ (∃ m ∈ clashing.methods, LowerMethodName m ∈ clientFields) ∧
    ∀ field ∈ serverFields, ∃ m ∈ clashing.methods, LowerMethodName m = field := by
  have twice : ¬ (clashing.methods.map MethodIdFieldName).Nodup := by decide +kernel
  exact ⟨by decide +kernel,by decide +kernel,fun never => twice never.constants,twice,by decide +kernel,by decide +kernel,
    by decide +kernel,by decide +kernel⟩

end Proteus.JavaGenerator
