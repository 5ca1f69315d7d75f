import Proteus.ProteusMetricsSubscriber
import Proteus.Lib.Logs
import Mathlib.Data.Finset.Card

namespace Proteus.ProteusMetricsSubscriber
open Execution Logs
variable {S C T : Type}

-- What a call that comes in has to go out as.
def owed (u : S) : Signal T → Receiver × S × Signal T
  | .onNext t => (.actual,u,.onNext t)
  | .onError t => (.actual,u,.onError t)
  | .onComplete => (.actual,u,.onComplete)
  | .request n => (.s,u,.request n)
  | .cancel => (.s,u,.cancel)

-- What a call that wins is to be counted as.
inductive Ends : Signal T → Status → Prop where
  | onError : Ends (.onError t) .error
  | onComplete : Ends .onComplete .success
  | cancel : Ends .cancel .cancelled

theorem terminated_called (c : C) (u : S) (signal : Signal T) :
    (Label.called c u signal).terminated = signal.status.map fun _ => u := by cases signal <;> rfl

theorem owed_received (u : S) (signal : Signal T) : owed u signal = (signal.receiver,u,signal) := by cases signal <;> rfl

theorem ends_status (signal : Signal T) (status : Status) : Ends signal status ↔ signal.status = some status := by
  constructor
  · rintro (_ | _ | _) <;> rfl
  · intro kind
    cases signal <;> cases kind <;> constructor

-- The winner a thread stands for, by what it has still to do.
def Phase.uncounted : Phase S T → Option (S × Status)
  | .counting u _ status => some (u,status)
  | _ => none

def Phase.unrecorded : Phase S T → Option (S × Status)
  | .recording u _ status => some (u,status)
  | _ => none

def Phase.unforwarded : Phase S T → List (Receiver × S × Signal T)
  | .idle => []
  | .racing u signal _ => [owed u signal]
  | .counting u signal _ => [owed u signal]
  | .recording u signal _ => [owed u signal]
  | .forwarding u signal => [owed u signal]

-- The call a thread is metering, and the subscription it races for.
def Phase.metered : Phase S T → Option (S × Signal T × Status)
  | .racing u signal status => some (u,signal,status)
  | .counting u signal status => some (u,signal,status)
  | .recording u signal status => some (u,signal,status)
  | _ => none

def Phase.contends : Phase S T → Option S
  | .racing u _ _ => some u
  | _ => none

def pending (f : Phase S T → Option (S × Status)) (s : State S C T) (w : Winner S C) : Prop :=
  f (s.threads w.thread) = some (w.subscription,w.status)

@[simp] theorem increment_threads (s : State S C T) (status : Status) : (s.increment status).threads = s.threads := by
  cases status <;> rfl

@[simp] theorem increment_value (s : State S C T) (status : Status) : (s.increment status).value = s.value := by
  cases status <;> rfl

@[simp] theorem increment_timer (s : State S C T) (status : Status) : (s.increment status).timer = s.timer := by
  cases status <;> rfl

theorem increment_counter (s : State S C T) (status other : Status) :
    (s.increment status).counter other = s.counter other + if status = other then 1 else 0 := by
  cases status <;> cases other <;> rfl

section Threads
variable [DecidableEq C] {s next : State S C T} {c : C} {p : Phase S T} {f : Phase S T → Option (S × Status)}

theorem pending_moved (moved : next.threads = Function.update s.threads c p) (w : Winner S C) :
    pending f next w ↔ if w.thread = c then f p = some (w.subscription,w.status) else pending f s w := by
  rw [pending,moved]
  by_cases same : w.thread = c
  · rw [if_pos same,same,Function.update_self]
  · rw [if_neg same,Function.update_of_ne same,pending]

theorem pending_same (moved : next.threads = Function.update s.threads c p) (same : f (s.threads c) = f p) (w : Winner S C) :
    pending f next w ↔ pending f s w := by
  rw [pending_moved moved]
  split
  · rename_i there
    rw [pending,there,same]
  · exact Iff.rfl

omit [DecidableEq C] in
theorem winner_apart {w : Winner S C} (apart : w.thread ≠ c) : w ≠ ⟨c,u,status⟩ := fun equal => apart (congrArg Winner.thread equal)

theorem pending_entered (moved : next.threads = Function.update s.threads c p) (before : f (s.threads c) = none)
    (after : f p = some (u,status)) (w : Winner S C) : pending f next w ↔ w = ⟨c,u,status⟩ ∨ pending f s w := by
  obtain ⟨thread,subscription,kind⟩ := w
  rw [pending_moved moved]
  split
  · rename_i there
    cases there
    simp [pending,before,after,eq_comm]
  · rename_i apart
    have other : (⟨thread,subscription,kind⟩ : Winner S C) ≠ ⟨c,u,status⟩ := winner_apart apart
    simp [other]

theorem pending_left (moved : next.threads = Function.update s.threads c p) (before : f (s.threads c) = some (u,status))
    (after : f p = none) (w : Winner S C) : pending f next w ↔ w ≠ ⟨c,u,status⟩ ∧ pending f s w := by
  obtain ⟨thread,subscription,kind⟩ := w
  rw [pending_moved moved]
  split
  · rename_i there
    cases there
    simp [pending,before,after,eq_comm]
  · rename_i apart
    have other : (⟨thread,subscription,kind⟩ : Winner S C) ≠ ⟨c,u,status⟩ := winner_apart apart
    simp [other]

end Threads

theorem entered_uncounted (signal : Signal T) (u : S) : (signal.entered u).uncounted = none := by cases signal <;> rfl

theorem entered_unrecorded (signal : Signal T) (u : S) : (signal.entered u).unrecorded = none := by cases signal <;> rfl

section Ledger
variable {s next : State S C T} {trace : List (Label S C T)} {label : Label S C T}

-- A subscriber's flag is set by its one winner, who still has to increment and
-- then to record.
structure Accounted (trace : List (Label S C T)) (s : State S C T) : Prop where
  flags : ∀ u, s.value u = true ↔ u ∈ (trace.filterMap Label.win).map Winner.subscription
  distinct : ((trace.filterMap Label.win).map Winner.subscription).Nodup
  counting : Handoff (trace.filterMap Label.win) (trace.filterMap Label.increment) (pending Phase.uncounted s)
  recording : Handoff (trace.filterMap Label.increment) (trace.filterMap Label.record) (pending Phase.unrecorded s)

theorem flags_quiet (accounted : Accounted trace s) (win : label.win = none) (kept : next.value = s.value) (u : S) :
    next.value u = true ↔ u ∈ ((trace ++ [label]).filterMap Label.win).map Winner.subscription := by
  rw [filterMap_snoc,win,kept,Option.toList,List.append_nil]
  exact accounted.flags u

theorem distinct_quiet (accounted : Accounted trace s) (win : label.win = none) :
    (((trace ++ [label]).filterMap Label.win).map Winner.subscription).Nodup := by
  rw [filterMap_snoc,win,Option.toList,List.append_nil]
  exact accounted.distinct

theorem accounted_quiet (accounted : Accounted trace s) (win : label.win = none) (increment : label.increment = none)
    (record : label.record = none) (kept : next.value = s.value)
    (counting : ∀ w, pending Phase.uncounted next w ↔ pending Phase.uncounted s w)
    (recording : ∀ w, pending Phase.unrecorded next w ↔ pending Phase.unrecorded s w) : Accounted (trace ++ [label]) next := by
  refine ⟨flags_quiet accounted win kept,distinct_quiet accounted win,?_,?_⟩
  · rw [filterMap_snoc,filterMap_snoc,win,increment]
    simpa using accounted.counting.congr counting
  · rw [filterMap_snoc,filterMap_snoc,increment,record]
    simpa using accounted.recording.congr recording

variable [DecidableEq S] [DecidableEq C]

theorem step_accounted (accounted : Accounted trace s) (taken : Step s label next) : Accounted (trace ++ [label]) next := by
  cases taken with
  | onSubscribe => exact accounted_quiet accounted rfl rfl rfl rfl (fun _ => Iff.rfl) (fun _ => Iff.rfl)
  | call idle =>
    refine accounted_quiet accounted rfl rfl rfl rfl (pending_same rfl ?_) (pending_same rfl ?_)
    · rw [idle,entered_uncounted]; rfl
    · rw [idle,entered_unrecorded]; rfl
  | lose at_ =>
    refine accounted_quiet accounted rfl rfl rfl rfl (pending_same rfl ?_) (pending_same rfl ?_)
    · rw [at_]; rfl
    · rw [at_]; rfl
  | forward at_ =>
    refine accounted_quiet accounted rfl rfl rfl rfl (pending_same rfl ?_) (pending_same rfl ?_)
    · rw [at_]; rfl
    · rw [at_]; rfl
  | @win _ c u status signal at_ unset =>
    obtain ⟨flags,distinct,counting,recording⟩ := accounted
    have first : u ∉ (trace.filterMap Label.win).map Winner.subscription := by
      intro earlier
      rw [(flags u).mpr earlier] at unset
      cases unset
    have fresh : (⟨c,u,status⟩ : Winner S C) ∉ trace.filterMap Label.win := by
      intro earlier
      exact first (List.mem_map_of_mem earlier)
    have wins := filterMap_snoc Label.win trace (.won ⟨c,u,status⟩)
    refine ⟨?_,?_,?_,?_⟩
    · intro v
      rw [wins]
      by_cases same : v = u
      · subst same
        simp [State.goes,Label.win]
      · simpa [State.goes,Label.win,same] using flags v
    · rw [wins,List.map_append,List.nodup_append]
      refine ⟨distinct,List.nodup_singleton _,?_⟩
      rintro v listed _ one rfl
      cases List.mem_singleton.mp one
      exact first listed
    · rw [wins,filterMap_snoc]
      simpa only [Label.win,Label.increment,Option.toList,List.append_nil] using
        counting.enter fresh (pending_entered rfl (by rw [at_]; rfl) rfl)
    · rw [filterMap_snoc,filterMap_snoc]
      simpa only [Label.increment,Label.record,Option.toList,List.append_nil] using recording.congr (pending_same rfl (by rw [at_]; rfl))
  | @increment _ c u status signal at_ =>
    have same : ((s.increment status).goes c (.recording u signal status)).value = s.value := by
      rw [State.goes,increment_value]
    have counting := accounted.counting
    have waits : pending Phase.uncounted s ⟨c,u,status⟩ := by rw [pending,at_]; rfl
    have fresh : (⟨c,u,status⟩ : Winner S C) ∉ trace.filterMap Label.increment := fun gone => counting.apart _ gone waits
    have moved : ((s.increment status).goes c (.recording u signal status)).threads =
      Function.update s.threads c (.recording u signal status) := by rw [State.goes,increment_threads]
    refine ⟨flags_quiet accounted rfl same,distinct_quiet accounted rfl,?_,?_⟩
    · rw [filterMap_snoc,filterMap_snoc]
      simpa only [Label.win,Label.increment,Option.toList,List.append_nil] using counting.leave waits (pending_left moved waits rfl)
    · rw [filterMap_snoc,filterMap_snoc]
      simpa only [Label.increment,Label.record,Option.toList,List.append_nil] using
        accounted.recording.enter fresh (pending_entered moved (by rw [at_]; rfl) rfl)
  | @record start _ c u status nanoTime signal at_ started =>
    have waits : pending Phase.unrecorded s ⟨c,u,status⟩ := by rw [pending,at_]; rfl
    refine ⟨flags_quiet accounted rfl rfl,distinct_quiet accounted rfl,?_,?_⟩
    · rw [filterMap_snoc,filterMap_snoc]
      simpa only [Label.win,Label.increment,Option.toList,List.append_nil] using
        accounted.counting.congr (pending_same rfl (by rw [at_]; rfl))
    · rw [filterMap_snoc,filterMap_snoc]
      simpa only [Label.increment,Label.record,Option.toList,List.append_nil] using accounted.recording.leave waits (pending_left rfl waits rfl)

end Ledger

section Calls
variable {s next : State S C T} {trace : List (Label S C T)} {label : Label S C T}

-- Every metered call was made, and a subscription that was ended is won or
-- still raced for.
structure Asked (trace : List (Label S C T)) (s : State S C T) : Prop where
  metered : ∀ c call, (s.threads c).metered = some call → call.2.1.status = some call.2.2 ∧ .called c call.1 call.2.1 ∈ trace
  won : ∀ w ∈ trace.filterMap Label.win, ∃ signal, signal.status = some w.status ∧ .called w.thread w.subscription signal ∈ trace
  decided : ∀ u ∈ trace.filterMap Label.terminated, s.value u = true ∨ ∃ c, (s.threads c).contends = some u

theorem won_quiet (asked : Asked trace s) (quiet : label.win = none) : ∀ w ∈ (trace ++ [label]).filterMap Label.win,
    ∃ signal, signal.status = some w.status ∧ .called w.thread w.subscription signal ∈ trace ++ [label] := by
  intro w listed
  rw [filterMap_snoc,quiet,Option.toList,List.append_nil] at listed
  obtain ⟨signal,kind,made⟩ := asked.won w listed
  exact ⟨signal,kind,List.mem_append_left _ made⟩

theorem decided_quiet (quiet : label.terminated = none)
    (decided : ∀ u ∈ trace.filterMap Label.terminated, next.value u = true ∨ ∃ c, (next.threads c).contends = some u) :
    ∀ u ∈ (trace ++ [label]).filterMap Label.terminated, next.value u = true ∨ ∃ c, (next.threads c).contends = some u := by
  intro u listed
  rw [filterMap_snoc,quiet,Option.toList,List.append_nil] at listed
  exact decided u listed

variable [DecidableEq C]

theorem metered_moved (asked : Asked trace s) (moved : next.threads = Function.update s.threads c p)
    (new : ∀ call, p.metered = some call → call.2.1.status = some call.2.2 ∧ .called c call.1 call.2.1 ∈ trace ++ [label])
    (d : C) (call : S × Signal T × Status) (at_ : (next.threads d).metered = some call) :
    call.2.1.status = some call.2.2 ∧ .called d call.1 call.2.1 ∈ trace ++ [label] := by
  rw [moved] at at_
  by_cases same : d = c
  · cases same
    rw [Function.update_self] at at_
    exact new call at_
  · rw [Function.update_of_ne same] at at_
    obtain ⟨kind,made⟩ := asked.metered d call at_
    exact ⟨kind,List.mem_append_left _ made⟩

-- A thread leaves a race only when it is decided.
theorem decided_moved (asked : Asked trace s) (moved : next.threads = Function.update s.threads c p)
    (set : ∀ u, s.value u = true → next.value u = true) (leaves : ∀ u, (s.threads c).contends = some u → next.value u = true)
    (listed : u ∈ trace.filterMap Label.terminated) : next.value u = true ∨ ∃ d, (next.threads d).contends = some u := by
  rcases asked.decided u listed with done | ⟨d,races⟩
  · exact .inl (set u done)
  · by_cases same : d = c
    · cases same
      exact .inl (leaves u races)
    · exact .inr ⟨d,by rw [moved,Function.update_of_ne same]; exact races⟩

theorem asked_moved (asked : Asked trace s) (win : label.win = none) (terminated : label.terminated = none)
    (moved : next.threads = Function.update s.threads c p) (set : ∀ u, s.value u = true → next.value u = true)
    (leaves : ∀ u, (s.threads c).contends = some u → next.value u = true)
    (kept : ∀ call, p.metered = some call → (s.threads c).metered = some call) : Asked (trace ++ [label]) next := by
  refine ⟨metered_moved asked moved ?_,won_quiet asked win,decided_quiet terminated fun u listed =>
    decided_moved asked moved set leaves listed⟩
  intro call at_
  obtain ⟨kind,made⟩ := asked.metered c call (kept call at_)
  exact ⟨kind,List.mem_append_left _ made⟩

variable [DecidableEq S]

theorem step_asked (asked : Asked trace s) (taken : Step s label next) : Asked (trace ++ [label]) next := by
  cases taken with
  | onSubscribe =>
    refine ⟨?_,won_quiet asked rfl,decided_quiet rfl asked.decided⟩
    intro c call at_
    obtain ⟨kind,made⟩ := asked.metered c call at_
    exact ⟨kind,List.mem_append_left _ made⟩
  | @call start _ c u signal idle started =>
    refine ⟨metered_moved asked rfl ?_,won_quiet asked rfl,?_⟩
    · intro call at_
      unfold Signal.entered at at_
      cases kind : signal.status <;> rw [kind] at at_ <;> cases at_
      exact ⟨kind,by simp⟩
    · intro v listed
      rw [filterMap_snoc] at listed
      rcases List.mem_append.mp listed with before | now
      · refine decided_moved asked rfl (fun _ set => set) ?_ before
        intro w races
        rw [idle] at races
        cases races
      · cases kind : signal.status with
        | none => simp [terminated_called,kind] at now
        | some status =>
          obtain rfl : v = u := by simpa [terminated_called,kind] using now
          exact .inr ⟨c,by simp [State.goes,Signal.entered,kind,Phase.contends]⟩
  | @lose _ c u signal status at_ taken =>
    refine asked_moved asked rfl rfl rfl (fun _ set => set) ?_ (by simp [Phase.metered])
    intro v races
    rw [at_] at races
    cases races
    exact taken
  | forward at_ => exact asked_moved asked rfl rfl rfl (fun _ set => set) (by simp [at_,Phase.contends]) (by simp [Phase.metered])
  | @win _ c u status signal at_ unset =>
    obtain ⟨kind,made⟩ := asked.metered c (u,signal,status) (by rw [at_]; rfl)
    have own : ∀ v, (s.threads c).contends = some v → Function.update s.value u true v = true := by
      intro v races
      rw [at_] at races
      cases races
      exact Function.update_self ..
    have set : ∀ v, s.value v = true → Function.update s.value u true v = true := by
      intro v set
      by_cases same : v = u
      · rw [same,Function.update_self]
      · rw [Function.update_of_ne same,set]
    refine ⟨metered_moved asked rfl ?_,?_,decided_quiet rfl fun v listed => decided_moved asked rfl set own listed⟩
    · intro call at_
      cases at_
      exact ⟨kind,List.mem_append_left _ made⟩
    · intro w listed
      rw [filterMap_snoc] at listed
      rcases List.mem_append.mp listed with before | now
      · obtain ⟨earlier,same,called⟩ := asked.won w before
        exact ⟨earlier,same,List.mem_append_left _ called⟩
      · cases List.mem_singleton.mp now
        exact ⟨signal,kind,List.mem_append_left _ made⟩
  | increment at_ =>
    refine asked_moved asked rfl rfl (by rw [State.goes,increment_threads]) ?_ (by simp [at_,Phase.contends])
      (by simp [at_,Phase.metered])
    intro v set
    rw [State.goes,increment_value,set]
  | record at_ =>
    exact asked_moved asked rfl rfl rfl (fun _ set => set) (by simp [at_,Phase.contends]) (by simp [Phase.metered])

end Calls

section Meters
variable {s next : State S C T} {trace : List (Label S C T)} {label : Label S C T}

structure Counted (trace : List (Label S C T)) (s : State S C T) : Prop where
  counters : ∀ status, s.counter status = (trace.filterMap Label.increment).countP fun w => w.status = status
  timer : s.timer.length = (trace.filterMap Label.record).length

theorem counted_quiet (counted : Counted trace s) (increment : label.increment = none) (record : label.record = none)
    (counters : next.counter = s.counter) (timer : next.timer = s.timer) : Counted (trace ++ [label]) next := by
  obtain ⟨counts,times⟩ := counted
  refine ⟨?_,?_⟩
  · rw [filterMap_snoc,increment,counters]
    simpa using counts
  · rw [filterMap_snoc,record,timer]
    simpa using times

theorem counted_all (winners : List (Winner S C)) : winners.countP (fun w => w.status = .success) +
    winners.countP (fun w => w.status = .error) + winners.countP (fun w => w.status = .cancelled) = winners.length := by
  induction winners with
  | nil => rfl
  | cons w winners ih =>
    rw [List.length_cons,← ih]
    cases kind : w.status <;> simp [kind] <;> omega

variable [DecidableEq C] [DecidableEq S]

theorem step_counted (counted : Counted trace s) (taken : Step s label next) : Counted (trace ++ [label]) next := by
  cases taken with
  | onSubscribe => exact counted_quiet counted rfl rfl rfl rfl
  | call => exact counted_quiet counted rfl rfl rfl rfl
  | win => exact counted_quiet counted rfl rfl rfl rfl
  | lose => exact counted_quiet counted rfl rfl rfl rfl
  | forward => exact counted_quiet counted rfl rfl rfl rfl
  | @increment _ c u status signal at_ =>
    obtain ⟨counts,times⟩ := counted
    refine ⟨?_,?_⟩
    · intro other
      have same : ((s.increment status).goes c (.recording u signal status)).counter other = (s.increment status).counter other := rfl
      rw [same,increment_counter,filterMap_snoc,List.countP_append,← counts other]
      simp [Label.increment,List.countP_cons]
    · rw [filterMap_snoc,State.goes,increment_timer]
      simpa [Label.record] using times
  | @record start _ c u status nanoTime signal at_ started =>
    obtain ⟨counts,times⟩ := counted
    refine ⟨?_,?_⟩
    · intro other
      have same : (State.goes {s with timer := s.timer ++ [nanoTime - start]} c (.forwarding u signal)).counter other =
        s.counter other := rfl
      rw [same,filterMap_snoc]
      simpa [Label.increment] using counts other
    · rw [filterMap_snoc]
      simp [State.goes,Label.record,times]

end Meters

section Forwards
variable [DecidableEq C] {s next : State S C T} {trace : List (Label S C T)} {label : Label S C T}

-- What a thread was called with, by the receiver it goes to.
def made (trace : List (Label S C T)) (c : C) : List (Receiver × S × Signal T) :=
  (trace.filterMap (Label.call c)).map fun call => owed call.1 call.2

theorem made_snoc (trace : List (Label S C T)) (label : Label S C T) (c : C) : made (trace ++ [label]) c =
    made trace c ++ ((label.call c).map fun call => owed call.1 call.2).toList := by
  rw [made,filterMap_snoc,List.map_append,made]
  cases label.call c <;> rfl

theorem entered_unforwarded (signal : Signal T) (u : S) : (signal.entered u).unforwarded = [owed u signal] := by
  cases signal <;> rfl

-- A thread has forwarded its calls in their order, but for the one under way.
def Forwarding (trace : List (Label S C T)) (s : State S C T) : Prop :=
  ∀ c, made trace c = trace.filterMap (Label.forward c) ++ (s.threads c).unforwarded

theorem forwarding_quiet (forwarding : Forwarding trace s) (call : ∀ d, label.call d = none) (forward : ∀ d, label.forward d = none)
    (moved : next.threads = Function.update s.threads c p) (kept : p.unforwarded = (s.threads c).unforwarded) :
    Forwarding (trace ++ [label]) next := by
  intro d
  rw [made_snoc,filterMap_snoc,call,forward,moved]
  simp only [Option.map_none,Option.toList,List.append_nil]
  by_cases same : d = c
  · rw [same,Function.update_self,kept]
    exact forwarding c
  · rw [Function.update_of_ne same]
    exact forwarding d

variable [DecidableEq S]

theorem step_forwarding (forwarding : Forwarding trace s) (taken : Step s label next) : Forwarding (trace ++ [label]) next := by
  cases taken with
  | onSubscribe =>
    intro c
    rw [made_snoc,filterMap_snoc]
    simpa only [Label.call,Label.forward,Option.map_none,Option.toList,List.append_nil] using forwarding c
  | @call start _ c u signal idle started =>
    intro d
    have before := forwarding d
    rw [made_snoc,filterMap_snoc,before]
    by_cases same : d = c
    · subst same
      have nothing : (s.threads d).unforwarded = [] := by rw [idle]; rfl
      simp [State.goes,nothing,entered_unforwarded,Label.call,Label.forward]
    · simp [State.goes,same,Ne.symm same,Label.call,Label.forward]
  | win at_ => exact forwarding_quiet forwarding (fun _ => rfl) (fun _ => rfl) rfl (by rw [at_]; rfl)
  | lose at_ => exact forwarding_quiet forwarding (fun _ => rfl) (fun _ => rfl) rfl (by rw [at_]; rfl)
  | increment at_ =>
    exact forwarding_quiet forwarding (fun _ => rfl) (fun _ => rfl) (by rw [State.goes,increment_threads]) (by rw [at_]; rfl)
  | record at_ => exact forwarding_quiet forwarding (fun _ => rfl) (fun _ => rfl) rfl (by rw [at_]; rfl)
  | @forward _ c u signal at_ =>
    intro d
    have before := forwarding d
    rw [made_snoc,filterMap_snoc,before]
    by_cases same : d = c
    · cases same
      simp [State.goes,at_,Label.call,Label.forward,Phase.unforwarded,owed_received]
    · simp [State.goes,same,Ne.symm same,Label.call,Label.forward]

end Forwards

section Runs
variable [DecidableEq S] [DecidableEq C] {s : State S C T} {trace : List (Label S C T)}

structure Metered (trace : List (Label S C T)) (s : State S C T) : Prop where
  once : ∀ u, ((trace.filterMap Label.increment).filter fun w => w.subscription = u).length ≤ 1 ∧
    ((trace.filterMap Label.record).filter fun w => w.subscription = u).length ≤ 1
  winner : ∀ w, w ∈ trace.filterMap Label.increment ∨ w ∈ trace.filterMap Label.record → w ∈ trace.filterMap Label.win ∧
    ∃ signal, Ends signal w.status ∧ .called w.thread w.subscription signal ∈ trace
  alone : ∀ u, ((trace.filterMap Label.win).filter fun w => w.subscription = u).length ≤ 1
  counters : ∀ status, s.counter status = (trace.filterMap Label.increment).countP fun w => w.status = status
  timer : s.timer.length = (trace.filterMap Label.record).length
  settled : (∀ c, s.threads c = .idle) → s.success + s.error + s.cancelled = s.timer.length ∧
    s.timer.length = (trace.filterMap Label.terminated).toFinset.card
  forwarded : ∀ c, made trace c = trace.filterMap (Label.forward c) ++ (s.threads c).unforwarded

theorem run_invariants (path : Runs Step State.timed trace s) :
    Accounted trace s ∧ Asked trace s ∧ Counted trace s ∧ Forwarding trace s := by
  refine Runs.invariant (fun trace s => Accounted trace s ∧ Asked trace s ∧ Counted trace s ∧ Forwarding trace s) ?_ ?_ path
  · refine ⟨⟨?_,List.nodup_nil,.empty ?_,.empty ?_⟩,⟨?_,by simp,by simp⟩,⟨?_,rfl⟩,fun _ => rfl⟩
    · simp [State.timed]
    · simp [pending,State.timed,Phase.uncounted]
    · simp [pending,State.timed,Phase.unrecorded]
    · simp [State.timed,Phase.metered]
    · intro status
      cases status <;> rfl
  · rintro trace s label next ⟨accounted,asked,counted,forwarding⟩ taken
    exact ⟨step_accounted accounted taken,step_asked asked taken,step_counted counted taken,step_forwarding forwarding taken⟩

omit [DecidableEq C] in
theorem settled_winners (accounted : Accounted trace s) (asked : Asked trace s) (idle : ∀ c, s.threads c = .idle) :
    (trace.filterMap Label.terminated).toFinset = ((trace.filterMap Label.win).map Winner.subscription).toFinset := by
  ext u
  rw [List.mem_toFinset,List.mem_toFinset,← accounted.flags]
  constructor
  · intro ended
    rcases asked.decided u ended with set | ⟨c,races⟩
    · exact set
    · rw [idle] at races
      cases races
  · intro set
    obtain ⟨w,won,rfl⟩ := List.mem_map.mp ((accounted.flags u).mp set)
    obtain ⟨signal,kind,called⟩ := asked.won w won
    exact List.mem_filterMap.mpr ⟨_,called,by rw [terminated_called,kind]; rfl⟩

theorem incremented_once (path : Runs Step State.timed trace s) (u : S) :
    ((trace.filterMap Label.increment).filter fun w => w.subscription = u).length ≤ 1 := by
  obtain ⟨accounted,_⟩ := run_invariants path
  exact (accounted.counting.bounded fun w => w.subscription = u).trans (keyed_once Winner.subscription u accounted.distinct)

-- Who increments or records has won, after a signal of its own that ends the subscription.
theorem contributed_won (path : Runs Step State.timed trace s)
    (contributed : w ∈ trace.filterMap Label.increment ∨ w ∈ trace.filterMap Label.record) :
    w ∈ trace.filterMap Label.win ∧
      ∃ signal, Ends signal w.status ∧ .called w.thread w.subscription signal ∈ trace := by
  obtain ⟨accounted,asked,_⟩ := run_invariants path
  have won : w ∈ trace.filterMap Label.win := by
    rcases contributed with incremented | recorded
    · exact accounted.counting.within incremented
    · exact accounted.counting.within (accounted.recording.within recorded)
  obtain ⟨signal,kind,called⟩ := asked.won w won
  exact ⟨won,signal,(ends_status signal w.status).mpr kind,called⟩

theorem settled_total (path : Runs Step State.timed trace s) (idle : ∀ c, s.threads c = .idle) :
    s.success + s.error + s.cancelled = s.timer.length ∧
      s.timer.length = (trace.filterMap Label.terminated).toFinset.card := by
  obtain ⟨accounted,asked,counted,_⟩ := run_invariants path
  have incremented := accounted.counting.settled fun w => by simp [pending,idle,Phase.uncounted]
  have recorded := accounted.recording.settled fun w => by simp [pending,idle,Phase.unrecorded]
  have total : s.success + s.error + s.cancelled = (trace.filterMap Label.increment).length := by
    rw [← counted_all,← counted.counters,← counted.counters,← counted.counters]
    rfl
  refine ⟨?_,?_⟩
  · rw [total,counted.timer,recorded.length_eq]
  · rw [settled_winners accounted asked idle,List.toFinset_card_of_nodup accounted.distinct,List.length_map,
      incremented.length_eq,recorded.length_eq,counted.timer]

theorem metered_once (path : Runs Step State.timed trace s) : Metered trace s := by
  obtain ⟨accounted,_,counted,forwarding⟩ := run_invariants path
  refine ⟨?_,fun w => contributed_won path,fun u => keyed_once Winner.subscription u accounted.distinct,counted.counters,
    counted.timer,settled_total path,forwarding⟩
  intro u
  have once := incremented_once path u
  exact ⟨once,(accounted.recording.bounded fun w => w.subscription = u).trans once⟩

end Runs

-- A cancel overtakes a completion that another thread is delivering.
def overtaken : List (Label Nat Nat Nat) :=
  [.subscribed 0 5,.called 1 0 .onComplete,.called 2 0 .cancel,.won ⟨2,0,.cancelled⟩,.lost 1,.forwarded 1 .actual 0 .onComplete,
    .incremented ⟨2,0,.cancelled⟩,.recorded ⟨2,0,.cancelled⟩ (9 - 5),.forwarded 2 .s 0 .cancel]

theorem metered_once_overtaken : ∃ s : State Nat Nat Nat, Metered overtaken s ∧ s.cancelled = 1 ∧ s.timer = [4] := by
  have subscribed : Runs Step (State.timed : State Nat Nat Nat) [.subscribed 0 5] _ := .one (.onSubscribe rfl)
  have completed : Runs Step State.timed (_ ++ [.called 1 0 .onComplete]) _ := subscribed.snoc (.call rfl rfl)
  have cancelled : Runs Step State.timed (_ ++ [.called 2 0 .cancel]) _ := completed.snoc (.call rfl rfl)
  have won : Runs Step State.timed (_ ++ [.won ⟨2,0,.cancelled⟩]) _ := cancelled.snoc (.win rfl rfl)
  have lost : Runs Step State.timed (_ ++ [.lost 1]) _ := won.snoc (.lose rfl rfl)
  have delivered : Runs Step State.timed (_ ++ [.forwarded 1 (Signal.receiver .onComplete) 0 .onComplete]) _ := lost.snoc (.forward rfl)
  have incremented : Runs Step State.timed (_ ++ [.incremented ⟨2,0,.cancelled⟩]) _ := delivered.snoc (.increment rfl)
  have recorded : Runs Step State.timed (_ ++ [.recorded ⟨2,0,.cancelled⟩ (9 - 5)]) _ := incremented.snoc (.record rfl rfl)
  have forwarded : Runs Step State.timed (_ ++ [.forwarded 2 (Signal.receiver .cancel) 0 .cancel]) _ := recorded.snoc (.forward rfl)
  exact ⟨_,metered_once forwarded,rfl,rfl⟩

end Proteus.ProteusMetricsSubscriber
