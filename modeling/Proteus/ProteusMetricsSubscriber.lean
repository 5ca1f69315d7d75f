import Proteus.Netty
import Proteus.Lib.Execution

namespace Proteus.ProteusMetricsSubscriber

-- The calls a subscriber takes once it is subscribed, on either side.
inductive Signal (T : Type) where
  | onNext (t : T)
  | onError (t : Throwable)
  | onComplete
  | request (n : JLong)
  | cancel
  deriving DecidableEq

inductive Status where
  | success
  | error
  | cancelled
  deriving DecidableEq

-- The counter that a method increments where its compareAndSet wins.
def Signal.status : Signal T → Option Status
  | .onNext _ => none
  | .onError _ => some .error
  | .onComplete => some .success
  | .request _ => none
  | .cancel => some .cancelled

inductive Receiver where
  | actual
  | s
  deriving DecidableEq

def Signal.receiver : Signal T → Receiver
  | .onNext _ => .actual
  | .onError _ => .actual
  | .onComplete => .actual
  | .request _ => .s
  | .cancel => .s

-- Where a thread stands: in no method, before compareAndSet, before the
-- increment, before the record, or before the last line of a method.
inductive Phase (S T : Type) where
  | idle
  | racing (subscription : S) (signal : Signal T) (status : Status)
  | counting (subscription : S) (signal : Signal T) (status : Status)
  | recording (subscription : S) (signal : Signal T) (status : Status)
  | forwarding (subscription : S) (signal : Signal T)
  deriving DecidableEq

def Signal.entered (signal : Signal T) (subscription : S) : Phase S T :=
  match signal.status with
  | none => .forwarding subscription signal
  | some status => .racing subscription signal status

-- The meters that all subscribers of one timed function share, and of each
-- subscriber its AtomicBoolean and the start that onSubscribe sets.
structure State (S C T : Type) where
  success : Nat
  error : Nat
  cancelled : Nat
  timer : List JLong
  value : S → Bool
  start : S → Option JLong
  threads : C → Phase S T

def State.timed : State S C T := ⟨0,0,0,[],fun _ => false,fun _ => none,fun _ => .idle⟩

def State.counter (s : State S C T) : Status → Nat
  | .success => s.success
  | .error => s.error
  | .cancelled => s.cancelled

def State.increment (s : State S C T) : Status → State S C T
  | .success => {s with success := s.success + 1}
  | .error => {s with error := s.error + 1}
  | .cancelled => {s with cancelled := s.cancelled + 1}

structure Winner (S C : Type) where
  thread : C
  subscription : S
  status : Status
  deriving DecidableEq

inductive Label (S C T : Type) where
  | subscribed (subscription : S) (start : JLong)
  | called (thread : C) (subscription : S) (signal : Signal T)
  | won (winner : Winner S C)
  | lost (thread : C)
  | incremented (winner : Winner S C)
  | recorded (winner : Winner S C) (duration : JLong)
  | forwarded (thread : C) (receiver : Receiver) (subscription : S) (signal : Signal T)

variable {S C T : Type} [DecidableEq S] [DecidableEq C]

def State.goes (s : State S C T) (thread : C) (phase : Phase S T) : State S C T :=
  {s with threads := Function.update s.threads thread phase}

-- The readings of the clock are arbitrary. Forwarding is the last thing a method
-- does, so calls that its receiver makes back come after it.
inductive Step : State S C T → Label S C T → State S C T → Prop where
  | onSubscribe : s.start u = none → Step s (.subscribed u nanoTime) {s with start := Function.update s.start u (some nanoTime)}
  | call : s.threads c = .idle → s.start u = some start → Step s (.called c u signal) (s.goes c (signal.entered u))
  | win : s.threads c = .racing u signal status → s.value u = false →
      Step s (.won ⟨c,u,status⟩) (State.goes {s with value := Function.update s.value u true} c (.counting u signal status))
  | lose : s.threads c = .racing u signal status → s.value u = true → Step s (.lost c) (s.goes c (.forwarding u signal))
  | increment : s.threads c = .counting u signal status →
      Step s (.incremented ⟨c,u,status⟩) ((s.increment status).goes c (.recording u signal status))
  | record : s.threads c = .recording u signal status → s.start u = some start →
      Step s (.recorded ⟨c,u,status⟩ (nanoTime - start))
        (State.goes {s with timer := s.timer ++ [nanoTime - start]} c (.forwarding u signal))
  | forward : s.threads c = .forwarding u signal → Step s (.forwarded c signal.receiver u signal) (s.goes c .idle)

def Label.win : Label S C T → Option (Winner S C)
  | .won winner => some winner
  | _ => none

def Label.increment : Label S C T → Option (Winner S C)
  | .incremented winner => some winner
  | _ => none

def Label.record : Label S C T → Option (Winner S C)
  | .recorded winner _ => some winner
  | _ => none

def Label.call (c : C) : Label S C T → Option (S × Signal T)
  | .called thread u signal => if thread = c then some (u,signal) else none
  | _ => none

def Label.forward (c : C) : Label S C T → Option (Receiver × S × Signal T)
  | .forwarded thread receiver u signal => if thread = c then some (receiver,u,signal) else none
  | _ => none

-- The subscription that a terminal signal or a cancel is for.
def Label.terminated : Label S C T → Option S
  | .called _ u (.onError _) => some u
  | .called _ u .onComplete => some u
  | .called _ u .cancel => some u
  | _ => none

end Proteus.ProteusMetricsSubscriber
