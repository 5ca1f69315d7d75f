import Proteus.RemoteCalls

namespace Proteus.ChannelPayloads
open JavaGenerator GeneratedServer Stateful Dispatch
variable {N : Netty}

-- What the publisher of a channel method does with its two arguments.
inductive Action where
  | read
  | take
  deriving DecidableEq

-- The payloads of a channel on the server: those still to come, those that the
-- deserializer has released, the messages it made of them, what it threw, and how
-- often the metadata was read at count 0.
structure Channel (P : Protobuf N) where
  coming : List Payload
  released : List Payload
  received : List P.MessageLite
  thrown : Option Throwable
  faults : Nat

def Channel.start (P : Protobuf N) (payloads : List Payload) : Channel P := ⟨payloads,[],[],none,0⟩

section Steps
variable {P : Protobuf N} (input_type : Descriptor)

-- The metadata is a slice of the first payload, and that is the first one released.
def Channel.read (s : Channel P) : Channel P := if s.released.isEmpty then s else {s with faults := s.faults + 1}

def Channel.take (s : Channel P) : Channel P :=
  match s.thrown,s.coming with
  | none,payload :: coming =>
    match RemoteCalls.deserializer P input_type payload s.released with
    | .ok message released => ⟨coming,released,s.received ++ [message],none,s.faults⟩
    | .error thrown released => ⟨coming,released,s.received,some thrown,s.faults⟩
  | _,_ => s

def Channel.step (s : Channel P) : Action → Channel P
  | .read => s.read
  | .take => s.take input_type

def Channel.run (s : Channel P) (actions : List Action) : Channel P := actions.foldl (Channel.step input_type) s

-- Every released payload was parsed, but for the last where the stream broke.
structure Handed (payloads : List Payload) (s : Channel P) : Prop where
  parts : payloads = s.released ++ s.coming
  whole : s.thrown = none → s.released.map (fun payload => P.parseFrom input_type payload.data) = s.received.map .ok
  broken : ∀ thrown, s.thrown = some thrown → ∃ front last cause, s.released = front ++ [last] ∧ thrown = .runtime cause ∧
    front.map (fun payload => P.parseFrom input_type payload.data) = s.received.map .ok ∧
    P.parseFrom input_type last.data = .error cause

theorem start_handed (payloads : List Payload) : Handed input_type payloads (Channel.start P payloads) :=
  ⟨rfl,fun _ => rfl,by intro _ broke; cases broke⟩

theorem take_ok {s : Channel P} (going : s.thrown = none) (next : s.coming = payload :: coming)
    (parsed : P.parseFrom input_type payload.data = .ok message) :
    s.take input_type = ⟨coming,s.released ++ [payload],s.received ++ [message],none,s.faults⟩ := by
  simp only [Channel.take,going,next,RemoteCalls.deserializer_run,parsed]

theorem take_error {s : Channel P} (going : s.thrown = none) (next : s.coming = payload :: coming)
    (failed : P.parseFrom input_type payload.data = .error cause) :
    s.take input_type = ⟨coming,s.released ++ [payload],s.received,some (.runtime cause),s.faults⟩ := by
  simp only [Channel.take,going,next,RemoteCalls.deserializer_run,failed]

theorem take_ended {s : Channel P} (ended : s.thrown ≠ none ∨ s.coming = []) : s.take input_type = s := by
  unfold Channel.take
  split
  · rename_i going next
    rcases ended with broke | nothing
    · exact absurd going broke
    · rw [nothing] at next
      cases next
  · rfl

theorem step_handed {payloads : List Payload} {s : Channel P} (handed : Handed input_type payloads s) (action : Action) :
    Handed input_type payloads (s.step input_type action) := by
  obtain ⟨parts,whole,broken⟩ := handed
  cases action with
  | read =>
    change Handed input_type payloads s.read
    unfold Channel.read
    split
    · exact ⟨parts,whole,broken⟩
    · exact ⟨parts,whole,broken⟩
  | take =>
    change Handed input_type payloads (s.take input_type)
    by_cases ended : s.thrown ≠ none ∨ s.coming = []
    · rw [take_ended input_type ended]
      exact ⟨parts,whole,broken⟩
    · obtain ⟨going,more⟩ := not_or.mp ended
      have going : s.thrown = none := not_not.mp going
      obtain ⟨payload,coming,next⟩ := List.exists_cons_of_ne_nil more
      have parts : payloads = (s.released ++ [payload]) ++ coming := by rw [parts,next,List.append_assoc,List.singleton_append]
      cases outcome : P.parseFrom input_type payload.data with
      | ok message =>
        rw [take_ok input_type going next outcome]
        refine ⟨parts,fun _ => ?_,by intro _ broke; cases broke⟩
        rw [List.map_append,List.map_append,whole going,List.map_singleton,List.map_singleton,outcome]
      | error cause =>
        rw [take_error input_type going next outcome]
        refine ⟨parts,(by intro broke; cases broke),?_⟩
        intro thrown broke
        cases broke
        exact ⟨s.released,payload,cause,rfl,rfl,whole going,outcome⟩

theorem run_handed {payloads : List Payload} {s : Channel P} (handed : Handed input_type payloads s) (actions : List Action) :
    Handed input_type payloads (s.run input_type actions) := by
  induction actions generalizing s with
  | nil => exact handed
  | cons action actions ih => exact ih (step_handed input_type handed action)

theorem read_kept (s : Channel P) : s.read.coming = s.coming ∧ s.read.released = s.released ∧ s.read.thrown = s.thrown := by
  unfold Channel.read
  split <;> exact ⟨rfl,rfl,rfl⟩

theorem thrown_stays {s : Channel P} (broke : s.thrown ≠ none) (actions : List Action) :
    (s.run input_type actions).thrown ≠ none := by
  induction actions generalizing s with
  | nil => exact broke
  | cons action actions ih =>
    refine ih ?_
    cases action with
    | read => exact (read_kept s).2.2 ▸ broke
    | take =>
      change (s.take input_type).thrown ≠ none
      rw [take_ended input_type (.inl broke)]
      exact broke

-- As long as all of them parse, every take that finds a payload releases it.
theorem run_released (s : Channel P) (actions : List Action) (fine : (s.run input_type actions).thrown = none) :
    (s.run input_type actions).released.length = s.released.length + min (actions.count .take) s.coming.length := by
  induction actions generalizing s with
  | nil => rw [List.count_nil,Nat.zero_min]; rfl
  | cons action actions ih =>
    have rest := ih (s.step input_type action) fine
    refine rest.trans ?_
    cases action with
    | read =>
      obtain ⟨coming,released,_⟩ := read_kept s
      change s.read.released.length + min _ s.read.coming.length = _
      rw [coming,released,List.count_cons_of_ne (by decide)]
    | take =>
      change (s.take input_type).released.length + min _ (s.take input_type).coming.length = _
      rw [List.count_cons_self]
      by_cases broke : s.thrown = none
      · cases next : s.coming with
        | nil =>
          rw [take_ended input_type (.inr next),next]
          simp
        | cons payload coming =>
          cases outcome : P.parseFrom input_type payload.data with
          | ok message =>
            rw [take_ok input_type broke next outcome,List.length_append,List.length_singleton,List.length_cons]
            dsimp only
            omega
          | error cause =>
            have stopped : (s.take input_type).thrown ≠ none := by
              rw [take_error input_type broke next outcome]
              exact Option.some_ne_none _
            exact absurd fine (thrown_stays input_type stopped actions)
      · exact absurd fine (thrown_stays input_type broke (.take :: actions))

theorem take_kept (s : Channel P) : (s.take input_type).faults = s.faults ∧
    (s.released ≠ [] → (s.take input_type).released ≠ []) := by
  unfold Channel.take
  split
  · rename_i payload coming _ _
    rw [RemoteCalls.deserializer_run]
    cases P.parseFrom input_type payload.data <;> exact ⟨rfl,fun _ => by simp⟩
  · exact ⟨rfl,id⟩

theorem freed_faults {s : Channel P} (freed : s.released ≠ []) (actions : List Action) :
    (s.run input_type actions).released ≠ [] ∧ (s.run input_type actions).faults = s.faults + actions.count .read := by
  induction actions generalizing s with
  | nil => exact ⟨freed,rfl⟩
  | cons action actions ih =>
    cases action with
    | read =>
      have faulted : s.step input_type .read = {s with faults := s.faults + 1} := by
        rw [Channel.step,Channel.read,if_neg (by simpa using freed)]
      have rest := ih (s := s.step input_type .read) (by rw [faulted]; exact freed)
      refine ⟨rest.1,rest.2.trans ?_⟩
      rw [faulted,List.count_cons_self]
      dsimp only
      omega
    | take =>
      obtain ⟨same,still⟩ := take_kept input_type s
      have rest := ih (s := s.step input_type .take) (still freed)
      refine ⟨rest.1,rest.2.trans ?_⟩
      rw [List.count_cons_of_ne (by decide)]
      exact congrArg (· + _) same

-- The first message taken releases it, whether it parses or not.
theorem held_faults {s : Channel P} (held : s.released = []) (going : s.thrown = none) (next : s.coming = payload :: coming)
    (actions : List Action) : ((s.run input_type actions).released = [] ↔ .take ∉ actions) ∧
      ((s.run input_type actions).faults = s.faults ↔ actions.Pairwise fun a b => ¬ (a = .take ∧ b = .read)) := by
  induction actions with
  | nil => simp [Channel.run,held]
  | cons action actions ih =>
    cases action with
    | read =>
      have same : s.run input_type (.read :: actions) = s.run input_type actions := by
        change (s.step input_type .read).run input_type actions = _
        rw [Channel.step,Channel.read,if_pos (by simp [held])]
      rw [same]
      simpa using ih
    | take =>
      have freed : (s.take input_type).released ≠ [] := by
        cases outcome : P.parseFrom input_type payload.data with
        | ok message => rw [take_ok input_type going next outcome]; simp
        | error cause => rw [take_error input_type going next outcome]; simp
      obtain ⟨still,faults⟩ := freed_faults input_type freed actions
      have faults : (s.run input_type (.take :: actions)).faults = s.faults + actions.count .read :=
        faults.trans (congrArg (· + _) (take_kept input_type s).1)
      refine ⟨⟨fun nothing => absurd nothing still,fun absent => absurd (List.mem_cons_self ..) absent⟩,?_⟩
      rw [faults,Nat.add_eq_left,List.count_eq_zero,List.pairwise_cons]
      constructor
      · intro unread
        refine ⟨fun b member both => unread (both.2 ▸ member),?_⟩
        exact List.pairwise_of_forall_mem_list fun a _ b member both => unread (both.2 ▸ member)
      · intro ordered member
        exact ordered.1 _ member ⟨rfl,rfl⟩

end Steps

section Handlers
variable (P : Protobuf N) (T : SwitchTransform N P.MessageLite) {d : ServiceDescriptor} (service : Implementation N P.MessageLite)

-- The handler of a channel has no finally: it returns with the payload unreleased
-- and unread, whatever the switch and the method do.
theorem channel_kept (first : Payload) (rest : List Payload) (failure : Option Throwable) : ∃ published u,
    requestChannels P T (PrintInterface d) (PrintServer d) service ⟨first :: rest,failure⟩ .entry = .ok published u ∧
      u.refCnt = 1 ∧ u.released = 0 ∧ u.faults = 0 := by
  cases nonempty : (PrintServer d).request_channel.isEmpty with
  | true => exact ⟨_,_,by rw [requestChannels,nonempty]; rfl,rfl,rfl,rfl⟩
  | false =>
    rw [channel_run P service _ _ T first rest failure nonempty,rescued_run,rescued_run,dispatch_run,read_held _ Nat.one_ne_zero]
    cases ProteusMetadata.methodId N (first.sliceMetadata N) with
    | error thrown => exact ⟨_,_,rfl,rfl,rfl,rfl⟩
    | ok id =>
      dsimp only
      cases select (PrintInterface d) (PrintServer d).request_channel id with
      | none => exact ⟨_,_,rfl,rfl,rfl,rfl⟩
      | some c =>
        have kept (invocation : Invocation N P.MessageLite) (n : Nat) :
          (Serving.entry.invoked invocation).reads n = Serving.entry.invoked invocation := reads_held _ Nat.one_ne_zero n
        simp only [channelBody_run,kept]
        cases (service ⟨c.lower_method_name,.messages (deserialized P c.input_type failure (first :: rest)),
            first.sliceMetadata N⟩).returned with
        | error thrown => exact ⟨_,_,rfl,rfl,rfl,rfl⟩
        | ok publisher => exact ⟨_,_,rfl,rfl,rfl,rfl⟩

-- Each payload is released once, in order and as it is taken, and the metadata can
-- be read until the first message is taken and not after.
theorem channel_lifecycle (first : Payload) (rest : List Payload) (failure : Option Throwable) (input_type : Descriptor)
    (actions : List Action) : ∃ published u,
      requestChannels P T (PrintInterface d) (PrintServer d) service ⟨first :: rest,failure⟩ .entry = .ok published u ∧
      u.released = 0 ∧ Handed input_type (first :: rest) ((Channel.start P (first :: rest)).run input_type actions) ∧
      (((Channel.start P (first :: rest)).run input_type actions).thrown = none →
        ((Channel.start P (first :: rest)).run input_type actions).released.length =
          min (actions.count .take) (rest.length + 1)) ∧
      (((Channel.start P (first :: rest)).run input_type actions).released = [] ↔ .take ∉ actions) ∧
      (u.faults + ((Channel.start P (first :: rest)).run input_type actions).faults = 0 ↔
        actions.Pairwise fun a b => ¬ (a = .take ∧ b = .read)) := by
  obtain ⟨published,u,ran,_,unreleased,unread⟩ := channel_kept P T (d := d) service first rest failure
  obtain ⟨untaken,faultless⟩ := held_faults input_type (s := Channel.start P (first :: rest)) rfl rfl rfl actions
  refine ⟨published,u,ran,unreleased,run_handed input_type (start_handed input_type _) actions,?_,untaken,?_⟩
  · intro fine
    exact (run_released input_type _ actions fine).trans (Nat.zero_add _)
  · rw [unread,Nat.zero_add]
    exact faultless

end Handlers

end Proteus.ChannelPayloads
