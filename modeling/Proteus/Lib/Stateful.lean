namespace Proteus.Stateful
variable {E S : Type}

-- Rules for running computations with exceptions that keep the state.
def raise : Except E A → EStateM E S A
  | .ok result => pure result
  | .error thrown => throw thrown

theorem raise_bind (x : Except E A) (f : A → Except E B) :
    (raise x >>= fun a => raise (f a) : EStateM E S B) = raise (x >>= f) := by cases x <;> rfl

theorem raise_run (x : Except E A) (f : A → Except E B) (g : B → C) :
    (raise x >>= fun a => raise (f a) >>= fun b => pure (g b) : EStateM E S C) s =
      match x >>= f with
      | .ok b => .ok (g b) s
      | .error thrown => .error thrown s := by
  cases x with
  | error thrown => rfl
  | ok a =>
    change (raise (f a) >>= fun b => pure (g b) : EStateM E S C) s = match f a with
      | .ok b => .ok (g b) s
      | .error thrown => .error thrown s
    cases f a <;> rfl

theorem bind_ok {x : EStateM E S A} {f : A → EStateM E S B} (ran : x s = .ok a t) : (x >>= f) s = f a t := by
  simp only [bind,EStateM.bind,ran]

theorem bind_error {x : EStateM E S A} {f : A → EStateM E S B} (failed : x s = .error thrown t) :
    (x >>= f) s = .error thrown t := by
  simp only [bind,EStateM.bind,failed]

-- try .. catch .. finally: an exception becomes a result, and the last block runs
-- on every path.
def guarded (body : EStateM E S A) (handler : E → A) (last : S → S) : EStateM E S A := do
  try body
  catch thrown => pure (handler thrown)
  finally modify last

theorem caught_run (body : EStateM E S A) (handler : E → EStateM E S A) : tryCatch body handler s =
    match body s with
    | .ok a t => .ok a t
    | .error thrown t => handler thrown t := by
  change EStateM.tryCatch body handler s = _
  delta EStateM.tryCatch
  dsimp only
  cases body s <;> rfl

theorem guarded_run (body : EStateM E S A) (handler : E → A) (last : S → S) : guarded body handler last s =
    match body s with
    | .ok a t => .ok a (last t)
    | .error thrown t => .ok (handler thrown) (last t) := by
  have caught := caught_run (s := s) body fun thrown => pure (handler thrown)
  change EStateM.map Prod.fst (tryFinally' (tryCatch body fun thrown => pure (handler thrown)) fun _ => modify last) s = _
  simp only [tryFinally',EStateM.map,caught]
  cases body s <;> rfl

-- try .. catch without a last block.
def rescued (body : EStateM E S A) (handler : E → A) : EStateM E S A := do
  try body
  catch thrown => pure (handler thrown)

theorem rescued_run (body : EStateM E S A) (handler : E → A) : rescued body handler s =
    match body s with
    | .ok a t => .ok a t
    | .error thrown t => .ok (handler thrown) t := caught_run body _

-- y does what x does, on what is left of x's state and results.
def relabelled (f : A → B) (view : S → T) : EStateM.Result E S A → EStateM.Result E T B
  | .ok a s => .ok (f a) (view s)
  | .error thrown s => .error thrown (view s)

def Simulates (view : S → T) (f : A → B) (x : EStateM E S A) (y : EStateM E T B) : Prop :=
  ∀ s, y (view s) = relabelled f view (x s)

theorem Simulates.pure (view : S → T) (f : A → B) (a : A) :
    Simulates view f (Pure.pure a : EStateM E S A) (Pure.pure (f a) : EStateM E T B) := fun _ => rfl

theorem Simulates.bind {view : S → T} {f : A → B} {g : C → D} {x : EStateM E S A} {y : EStateM E T B}
    {k : A → EStateM E S C} {l : B → EStateM E T D} (first : Simulates view f x y) (rest : ∀ a, Simulates view g (k a) (l (f a))) :
    Simulates view g (x >>= k) (y >>= l) := by
  intro s
  have same := first s
  cases ran : x s with
  | ok a t =>
    rw [ran] at same
    rw [bind_ok ran,bind_ok same]
    exact rest a t
  | error thrown t =>
    rw [ran] at same
    rw [bind_error ran,bind_error same]
    rfl

end Proteus.Stateful
