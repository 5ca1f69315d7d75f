import Proteus.JavaGenerator
import Mathlib.Data.List.DropRight
import Mathlib.Data.List.Pairwise

namespace Proteus.JavaGenerator

def dot : UInt8 := 46
def separator : UInt8 := 47

-- A proto file, with what java::ClassName makes of it; protoc rejects two
-- services of one name.
structure FileDescriptor where
  java_class_name : CString
  services : List ServiceDescriptor
  distinct : (services.map ServiceDescriptor.name).Nodup

-- Everything before the last dot.
def ServiceJavaPackage (file : FileDescriptor) : CString := (file.java_class_name.rdropWhile (· != dot)).dropLast

def JavaPackageToDir (package_name : CString) : CString :=
  let package_dir := package_name.map fun c => if c = dot then separator else c
  if !package_dir.isEmpty then package_dir ++ [separator] else package_dir

inductive Generated where
  | interface (i : Interface)
  | client (client : Client)
  | server (server : Server)

-- The files that Generate opens, in order, and what it writes into each.
def Generate (file : FileDescriptor) : List (CString × Generated) :=
  let package_filename := JavaPackageToDir (ServiceJavaPackage file)
  file.services.flatMap fun service => [
    (package_filename ++ service.name ++ literal ".java",.interface (PrintInterface service)),
    (package_filename ++ ClientClassName service ++ literal ".java",.client (PrintClient service)),
    (package_filename ++ ServerClassName service ++ literal ".java",.server (PrintServer service))]

def TestService.file : FileDescriptor where
  java_class_name := literal "io.netifi.testing.Test"
  services := [TestService.descriptor]
  distinct := by decide +kernel

example : (Generate TestService.file).map Prod.fst = [
    literal "io/netifi/testing/TestService.java",
    literal "io/netifi/testing/TestServiceClient.java",
    literal "io/netifi/testing/TestServiceServer.java"] := by decide +kernel

section Suffixes
variable {α : Type} {names : List (List α)} {a b : List α}

def family (a b name : List α) : List (List α) := [name,name ++ a,name ++ b]

theorem append_apart (some_ : a ≠ []) (name : List α) : name ≠ name ++ a := fun same => some_ (List.self_eq_append_right.mp same)

theorem family_disjoint (apart : ∀ s t : List α, s ++ a ≠ t ++ b) (name other : List α) (different : name ≠ other)
    (left : name ≠ other ++ a ∧ name ≠ other ++ b) (right : other ≠ name ++ a ∧ other ≠ name ++ b) :
    List.Disjoint (family a b name) (family a b other) := by
  intro text first second
  simp only [family,List.mem_cons,List.not_mem_nil,or_false] at first second
  rcases first with rfl | rfl | rfl
  · rcases second with same | same | same
    · exact different same
    · exact left.1 same
    · exact left.2 same
  · rcases second with same | same | same
    · exact right.1 same.symm
    · exact different (List.append_cancel_right same)
    · exact apart _ _ same
  · rcases second with same | same | same
    · exact right.2 same.symm
    · exact apart _ _ same.symm
    · exact different (List.append_cancel_right same)

-- Names with two suffixes of their own clash only where a name ends in one.
theorem families_nodup_iff (distinct : names.Nodup) (first : a ≠ []) (second : b ≠ []) (apart : ∀ s t : List α, s ++ a ≠ t ++ b) :
    (names.flatMap (family a b)).Nodup ↔ ∀ name ∈ names, ∀ other ∈ names, name ≠ other ++ a ∧ name ≠ other ++ b := by
  rw [List.nodup_flatMap]
  constructor
  · rintro ⟨_,pairs⟩ name listed other member
    have symmetric : Std.Symm (Function.onFun List.Disjoint (family a b)) := ⟨fun _ _ disjoint text here there => disjoint there here⟩
    have disjoint (different : name ≠ other) : List.Disjoint (family a b name) (family a b other) :=
      pairs.forall listed member different
    constructor
    · rintro rfl
      exact disjoint (append_apart first other).symm (List.mem_cons_self ..) (List.mem_cons_of_mem _ (List.mem_cons_self ..))
    · rintro rfl
      exact disjoint (append_apart second other).symm (List.mem_cons_self ..)
        (List.mem_cons_of_mem _ (List.mem_cons_of_mem _ (List.mem_cons_self ..)))
  · intro free
    refine ⟨fun name _ => ?_,distinct.pairwise_of_forall_ne fun name listed other member different =>
      family_disjoint apart name other different (free name listed other member) (free other member name listed)⟩
    simp [family,append_apart first name,append_apart second name,apart name name]

end Suffixes

-- No name ends in both suffixes: the last letters differ.
theorem suffixes_apart (s t : CString) : s ++ literal "Client" ≠ t ++ literal "Server" := by
  intro same
  have client : (literal "Client").getLast? = some 116 := by decide
  have server : (literal "Server").getLast? = some 114 := by decide
  have last := congrArg List.getLast? same
  rw [List.getLast?_append,List.getLast?_append,client,server,Option.some_or,Option.some_or] at last
  exact absurd last (by decide)

theorem files_exact (file : FileDescriptor) : (Generate file).map Prod.fst =
    ((file.services.map ServiceDescriptor.name).flatMap (family (literal "Client") (literal "Server"))).map fun name =>
      JavaPackageToDir (ServiceJavaPackage file) ++ name ++ literal ".java" := by
  unfold Generate
  rw [List.map_flatMap,List.flatMap_map,List.map_flatMap]
  rfl

-- Files are apart when no service is called what another's client or server is.
theorem files_distinct_iff (file : FileDescriptor) : ((Generate file).map Prod.fst).Nodup ↔
    ∀ service ∈ file.services, ∀ other ∈ file.services,
      service.name ≠ ClientClassName other ∧ service.name ≠ ServerClassName other := by
  have injective : Function.Injective fun name =>
      JavaPackageToDir (ServiceJavaPackage file) ++ name ++ literal ".java" :=
    fun _ _ same => List.append_cancel_left (List.append_cancel_right same)
  rw [files_exact,List.nodup_map_iff injective,
    families_nodup_iff file.distinct (by decide) (by decide) suffixes_apart]
  simp only [List.forall_mem_map]
  rfl

def shadowed : FileDescriptor where
  java_class_name := literal "demo.Demo"
  services := [⟨literal "Foo",literal "demo",[]⟩,⟨literal "FooClient",literal "demo",[]⟩]
  distinct := by decide +kernel

theorem client_file_overwritten : ¬ ((Generate shadowed).map Prod.fst).Nodup := by decide +kernel

end Proteus.JavaGenerator
