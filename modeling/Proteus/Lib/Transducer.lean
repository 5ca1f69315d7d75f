import Mathlib.Tactic.Common

namespace Proteus.Transducer
variable {S A B H : Type} {step : S → A → List B × S} {s t u : S} {text more : List A} {out later : List B}

-- A machine that reads letters one by one, emits, and changes its state.
def run (step : S → A → List B × S) (s : S) : List A → List B × S
  | [] => ([],s)
  | a :: text =>
    let (out,t) := step s a
    let (later,u) := run step t text
    (out ++ later,u)

theorem run_append (s : S) (text more : List A) : run step s (text ++ more) =
    ((run step s text).1 ++ (run step (run step s text).2 more).1,(run step (run step s text).2 more).2) := by
  induction text generalizing s with
  | nil => rfl
  | cons a text ih => simp only [List.cons_append,run,ih,List.append_assoc]

def Reads (step : S → A → List B × S) (s : S) (text : List A) (out : List B) (t : S) : Prop := run step s text = (out,t)

instance [DecidableEq B] [DecidableEq S] (step : S → A → List B × S) (s t : S) (text : List A) (out : List B) :
    Decidable (Reads step s text out t) := inferInstanceAs (Decidable (run step s text = (out,t)))

theorem Reads.nil : Reads step s [] [] s := rfl

theorem Reads.append (first : Reads step s text out t) (second : Reads step t more later u) :
    Reads step s (text ++ more) (out ++ later) u := by
  rw [Reads,run_append,first,second]

-- Letters that say nothing in a state.
theorem Reads.idle (inert : ∀ a ∈ text, step s a = ([],s)) : Reads step s text [] s := by
  induction text with
  | nil => rfl
  | cons a text ih =>
    obtain ⟨first,rest⟩ := List.forall_mem_cons.mp inert
    have one : Reads step s [a] [] s := by simp [Reads,run,first]
    exact one.append (ih rest)

-- A text some of whose parts are not known yet.
inductive Piece (A H : Type) where
  | letter (a : A)
  | hole (h : H)
  deriving DecidableEq

def Piece.fill (value : H → List A) : Piece A H → List A
  | .letter a => [a]
  | .hole h => value h

def fill (value : H → List A) (pieces : List (Piece A H)) : List A := pieces.flatMap (Piece.fill value)

-- A reader of texts with holes; it is run where nothing is known of the holes.
def readAll (read : Q → P → Option (List E × Q)) (q : Q) : List P → Option (List E × Q)
  | [] => some ([],q)
  | piece :: pieces =>
    match read q piece with
    | none => none
    | some (out,r) => (readAll read r pieces).map fun (later,u) => (out ++ later,u)

theorem readAll_append {read : Q → P → Option (List E × Q)} {more : List P} (first : readAll read q pieces = some (told,r))
    (second : readAll read r more = some (after,last)) : readAll read q (pieces ++ more) = some (told ++ after,last) := by
  induction pieces generalizing q told with
  | nil =>
    cases first
    exact second
  | cons piece pieces ih =>
    rw [readAll] at first
    cases known : read q piece with
    | none => simp [known] at first
    | some result =>
      obtain ⟨before,middle⟩ := result
      rw [known] at first
      obtain ⟨⟨rest,_⟩,found,same⟩ := Option.map_eq_some_iff.mp first
      cases same
      rw [List.cons_append,readAll,known]
      simp only [ih found,Option.map_some,List.append_assoc]

-- Readers of the same text in other terms.
theorem readAll_map {read : Q → P → Option (List E × Q)} {other : R → P' → Option (List E' × R)} (f : P → P') (g : E → E')
    (h : Q → R) (natural : ∀ q piece told r, read q piece = some (told,r) → other (h q) (f piece) = some (told.map g,h r))
    (known : readAll read q pieces = some (told,r)) : readAll other (h q) (pieces.map f) = some (told.map g,h r) := by
  induction pieces generalizing q told with
  | nil =>
    cases known
    rfl
  | cons piece pieces ih =>
    rw [readAll] at known
    cases first : read q piece with
    | none => simp [first] at known
    | some result =>
      obtain ⟨before,middle⟩ := result
      rw [first] at known
      obtain ⟨⟨later,last⟩,rest,same⟩ := Option.map_eq_some_iff.mp known
      cases same
      rw [List.map_cons,readAll,natural _ _ _ _ first,List.map_append]
      simp only [ih rest,Option.map_some]

-- One reader behind another.
def cascade (read : Q → P → Option (List E × Q)) (next : R → E → Option (List F × R)) (s : Q × R) (piece : P) :
    Option (List F × (Q × R)) :=
  match read s.1 piece with
  | none => none
  | some (told,q) => (readAll next s.2 told).map fun (out,r) => (out,(q,r))

theorem cascade_reads {read : Q → P → Option (List E × Q)} {next : R → E → Option (List F × R)} {pieces : List P} {told : List F}
    {both done : Q × R} (known : readAll (cascade read next) both pieces = some (told,done)) :
    ∃ between, readAll read both.1 pieces = some (between,done.1) ∧ readAll next both.2 between = some (told,done.2) := by
  induction pieces generalizing both told with
  | nil =>
    cases known
    exact ⟨[],rfl,rfl⟩
  | cons piece pieces ih =>
    rw [readAll,cascade] at known
    cases first : read both.1 piece with
    | none => simp [first] at known
    | some result =>
      obtain ⟨between,q⟩ := result
      simp only [first] at known
      cases behind : readAll next both.2 between with
      | none => simp [behind] at known
      | some result =>
        obtain ⟨before,r⟩ := result
        simp only [behind,Option.map_some] at known
        obtain ⟨⟨later,last⟩,rest,same⟩ := Option.map_eq_some_iff.mp known
        cases same
        obtain ⟨more,ahead,reached⟩ := ih rest
        refine ⟨between ++ more,?_,readAll_append behind reached⟩
        rw [readAll,first]
        simp only [ahead,Option.map_some]

-- What it says of a piece is what the machine does once the hole is filled.
def Sound (step : S → A → List B × S) (value : H → List A) (read : Q → Piece A H → Option (List E × Q)) (meant : Q → S)
    (emits : E → B) : Prop :=
  ∀ q piece out r, read q piece = some (out,r) → Reads step (meant q) (piece.fill value) (out.map emits) (meant r)

theorem Sound.reads {value : H → List A} {read : Q → Piece A H → Option (List E × Q)} {meant : Q → S} {emits : E → B}
    (sound : Sound step value read meant emits) {pieces : List (Piece A H)} (known : readAll read q pieces = some (told,r)) :
    Reads step (meant q) (fill value pieces) (told.map emits) (meant r) := by
  induction pieces generalizing q told with
  | nil =>
    cases known
    rfl
  | cons piece pieces ih =>
    rw [readAll] at known
    cases first : read q piece with
    | none => simp [first] at known
    | some result =>
      obtain ⟨before,middle⟩ := result
      rw [first] at known
      obtain ⟨⟨later,last⟩,rest,same⟩ := Option.map_eq_some_iff.mp known
      cases same
      rw [List.map_append]
      exact (sound _ _ _ _ first).append (ih rest)

end Proteus.Transducer
