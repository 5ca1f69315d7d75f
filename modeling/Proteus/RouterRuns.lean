import Proteus.RequestHandlingRSocket
import Proteus.Lib.Logs

namespace Proteus.RequestHandlingRSocket
open JavaGenerator GeneratedServer Stateful BiInt2ObjectMap Execution Logs
variable {N : Netty} {Message Service Thread : Type}

-- What the router is for: the service registered last under a pair of ids.
def latest (I : ProteusService N Message Service) (registered : List Service) (pair : JInt × JInt) : Option Service :=
  registered.reverse.find? fun service => (I.getNamespaceId service,I.getServiceId service) = pair

theorem latest_registered (I : ProteusService N Message Service) (registered : List Service) (service : Service) :
    latest I (registered ++ [service]) =
      Function.update (latest I registered) (I.getNamespaceId service,I.getServiceId service) (some service) := by
  funext pair
  rw [latest,List.reverse_append,List.reverse_singleton,List.singleton_append,List.find?_cons]
  by_cases same : (I.getNamespaceId service,I.getServiceId service) = pair
  · cases same
    simp
  · rw [Function.update_of_ne (Ne.symm same)]
    simp [same,latest]

def Mirrors (I : ProteusService N Message Service) (m : BiInt2ObjectMap Service) (registered : List Service) : Prop :=
  Sound m ∧ Represents m (latest I registered)

theorem registers_mirrors {I : ProteusService N Message Service} (mirrors : Mirrors I m registered)
    (registers : Registers I m service next) : Mirrors I next (registered ++ [service]) := by
  cases registers with
  | put taken =>
    have nonnull : (Call.put (I.getNamespaceId service) (I.getServiceId service) (some service)).NonNull :=
      Option.some_ne_none service
    obtain ⟨d,abstractly,sound,represents⟩ := step_refines mirrors.1 mirrors.2 nonnull taken
    refine ⟨sound,?_⟩
    rw [latest_registered]
    cases abstractly with
    | put => exact represents

theorem Constructed.mirrors {I : ProteusService N Message Service} (constructed : Constructed I services m) :
    Mirrors I m services := by
  induction constructed with
  | empty made =>
    obtain ⟨sound,represents⟩ := made_represents (by unfold MIN_CAPACITY; decide) made
    exact ⟨sound,represents⟩
  | put _ registers ih => exact registers_mirrors ih registers

theorem registers_roomy (I : ProteusService N Message Service) (mirrors : Mirrors I m registered)
    (roomy : m.size + 1 ≤ m.resizeThreshold) (service : Service) :
    ∃ next, Registers I m service next ∧ next.size ≤ m.size + 1 ∧ next.resizeThreshold = m.resizeThreshold := by
  obtain ⟨old,next,ran,grown,kept⟩ := put_roomy mirrors.1 ⟨true,true⟩ (I.getNamespaceId service) (I.getServiceId service)
    service roomy (Nat.le_refl _)
  exact ⟨next,.put (.returned ⟨_,by rw [exec,ran]; rfl⟩),grown,kept⟩

theorem constructs (I : ProteusService N Message Service) (services : List Service) (few : services.length ≤ 4) :
    ∃ m, Constructed I services m ∧ m.size ≤ services.length ∧ m.resizeThreshold = 4 := by
  induction services using List.reverseRecOn with
  | nil =>
    obtain ⟨m,made,size,threshold⟩ := makeDefault_fresh Service
    exact ⟨m,.empty made,size.le,threshold⟩
  | append_singleton services service ih =>
    rw [List.length_append,List.length_singleton] at few ⊢
    obtain ⟨m,constructed,held,threshold⟩ := ih (by omega)
    obtain ⟨next,registers,grown,kept⟩ := registers_roomy I constructed.mirrors (by omega) service
    exact ⟨next,.put constructed registers,by omega,kept.trans threshold⟩

theorem gets_latest {I : ProteusService N Message Service} (mirrors : Mirrors I m registered) (a b : JInt) (found : Option Service) :
    Gets m a b found ↔ found = latest I registered (a,b) := by
  obtain ⟨value,ran,holds⟩ := get_run mirrors.1.orderly a b (Nat.le_refl _)
  have current := represents_value mirrors.2 value holds
  constructor
  · intro got
    obtain ⟨fuel,returned⟩ := got
    have both := (get_more returned (Nat.le_max_left fuel (2 ^ 30))).symm.trans (get_more ran (Nat.le_max_right fuel (2 ^ 30)))
    exact (Option.some.inj both).trans current
  · intro equal
    rw [equal,← current]
    exact ⟨_,ran⟩

-- Between two of its atomic steps a thread is idle, about to enter addService,
-- about to enter getService, or back from it. `since` and `seen` are the
-- registrations made when the request came and when getService answered.
inductive Phase (Service : Type) where
  | idle
  | adding (service : Service)
  | looking (request : Request) (pair : JInt × JInt) (since : List Service)
  | found (request : Request) (found : Option Service) (since seen : List Service)

structure Router (Service Thread : Type) where
  map : BiInt2ObjectMap Service
  registered : List Service
  threads : Thread → Phase Service

inductive Label (N : Netty) (Message Service Thread : Type) where
  | added (thread : Thread) (service : Service)
  | registered (thread : Thread) (service : Service)
  | received (thread : Thread) (request : Request)
  | looked (thread : Thread)
  | answered (thread : Thread) (request : Request) (since seen : List Service)
      (answer : Handling N Message (Published Message))

def Label.registration : Label N Message Service Thread → Option Service
  | .registered _ service => some service
  | _ => none

section Runs
variable [DecidableEq Thread]

def Router.goes (r : Router Service Thread) (thread : Thread) (phase : Phase Service) : Router Service Thread :=
  {r with threads := Function.update r.threads thread phase}

theorem goes_at (r : Router Service Thread) (thread : Thread) (phase : Phase Service) :
    (r.goes thread phase).threads thread = phase := Function.update_self ..

-- addService and getService hold the same monitor, so each is one step; what a
-- handler does before and after getService touches nothing shared. Only
-- registrations that return are steps.
inductive Step (I : ProteusService N Message Service) (T : SwitchTransform N Message) :
    Router Service Thread → Label N Message Service Thread → Router Service Thread → Prop where
  | add : r.threads t = .idle → Step I T r (.added t service) (r.goes t (.adding service))
  | register : r.threads t = .adding service → Registers I r.map service next →
      Step I T r (.registered t service) ⟨next,r.registered ++ [service],(r.goes t .idle).threads⟩
  | receive : r.threads t = .idle → ids N request.payload = .ok pair →
      Step I T r (.received t request) (r.goes t (.looking request pair r.registered))
  | reject : r.threads t = .idle → ids N request.payload = .error thrown →
      Step I T r (.answered t request r.registered r.registered (handle I T (fun _ _ => none) request)) r
  | look : r.threads t = .looking request pair since → Gets r.map pair.1 pair.2 found →
      Step I T r (.looked t) (r.goes t (.found request found since r.registered))
  | answer : r.threads t = .found request found since seen →
      Step I T r (.answered t request since seen (handle I T (fun _ _ => found) request)) (r.goes t .idle)

-- The answer a request deserves when these services are registered.
def Deserved (N : Netty) (I : ProteusService N Message Service) (seen : List Service) (request : Request)
    (answer : Handling N Message (Published Message)) : Prop :=
  if 10 ≤ request.payload.getMetadata.val.length then
    answer = match latest I seen (intAt request.payload.getMetadata.val 2,intAt request.payload.getMetadata.val 6) with
      | some service => rescued (I.hand request service) .error
      | none => pure (.error (.serviceNotFound (intAt request.payload.getMetadata.val 2)
          (intAt request.payload.getMetadata.val 6)))
  else ∃ thrown, answer = pure (.error thrown)

theorem rejected_deserved (I : ProteusService N Message Service) (T : SwitchTransform N Message)
    (failed : ids N request.payload = .error thrown) (seen : List Service) (getService : JInt → JInt → Option Service) :
    Deserved N I seen request (handle I T getService request) := by
  rw [Deserved]
  split
  · rename_i long
    rw [ids_read N request.payload long] at failed
    cases failed
  · exact ⟨thrown,by rw [handle_exact,failed]⟩

theorem looked_deserved (I : ProteusService N Message Service) (T : SwitchTransform N Message)
    (read : ids N request.payload = .ok pair) (current : found = latest I seen pair) :
    Deserved N I seen request (handle I T (fun _ _ => found) request) := by
  rw [Deserved]
  split
  · rename_i long
    have same := (ids_read N request.payload long).symm.trans read
    cases same
    rw [handle_exact,ids_read N request.payload long,current]
    cases latest I seen (intAt request.payload.getMetadata.val 2,intAt request.payload.getMetadata.val 6) <;> rfl
  · rename_i short
    obtain ⟨thrown,failed⟩ := ids_short N request.payload (Nat.lt_of_not_le short)
    rw [failed] at read
    cases read

-- Every state: the map is the latest registrations, and every request under way
-- has the ids of its payload and an answer that was current at its lookup.
structure Consistent (I : ProteusService N Message Service) (services : List Service) (r : Router Service Thread) : Prop where
  mirrors : Mirrors I r.map r.registered
  initial : services <+: r.registered
  looking : ∀ t request pair since, r.threads t = .looking request pair since →
    ids N request.payload = .ok pair ∧ services <+: since ∧ since <+: r.registered
  found : ∀ t request found since seen, r.threads t = .found request found since seen →
    ∃ pair, ids N request.payload = .ok pair ∧ found = latest I seen pair ∧
      services <+: since ∧ since <+: seen ∧ seen <+: r.registered

-- A step that registers nothing only moves one thread on.
theorem goes_consistent {I : ProteusService N Message Service} {r : Router Service Thread} (consistent : Consistent I services r)
    (looking : ∀ request pair since, phase = .looking request pair since →
      ids N request.payload = .ok pair ∧ services <+: since ∧ since <+: r.registered)
    (found : ∀ request found since seen, phase = .found request found since seen →
      ∃ pair, ids N request.payload = .ok pair ∧ found = latest I seen pair ∧
        services <+: since ∧ since <+: seen ∧ seen <+: r.registered) :
    Consistent I services (r.goes t phase) := by
  refine ⟨consistent.mirrors,consistent.initial,?_,?_⟩
  · intro u request pair since at_
    by_cases same : u = t
    · cases same
      exact looking request pair since (by simpa [Router.goes] using at_)
    · exact consistent.looking u request pair since (by simpa [Router.goes,same] using at_)
  · intro u request answer since seen at_
    by_cases same : u = t
    · cases same
      exact found request answer since seen (by simpa [Router.goes] using at_)
    · exact consistent.found u request answer since seen (by simpa [Router.goes,same] using at_)

theorem step_consistent {I : ProteusService N Message Service} {T : SwitchTransform N Message} {r : Router Service Thread}
    (consistent : Consistent I services r) (taken : Step I T r label next) : Consistent I services next := by
  cases taken with
  | add => exact goes_consistent consistent (by simp) (by simp)
  | @register service m _ t _ registers =>
    have idle : Consistent I services (r.goes t .idle) := goes_consistent consistent (by simp) (by simp)
    have grown : r.registered <+: r.registered ++ [service] := List.prefix_append _ _
    refine ⟨registers_mirrors consistent.mirrors registers,consistent.initial.trans grown,?_,?_⟩
    · intro u request pair since at_
      obtain ⟨read,from_,before⟩ := idle.looking u request pair since at_
      exact ⟨read,from_,before.trans grown⟩
    · intro u request answer since seen at_
      obtain ⟨pair,read,current,from_,before,within⟩ := idle.found u request answer since seen at_
      exact ⟨pair,read,current,from_,before,within.trans grown⟩
  | receive _ read =>
    refine goes_consistent consistent ?_ (by simp)
    intro request pair since equal
    cases equal
    exact ⟨read,consistent.initial,List.prefix_refl _⟩
  | reject => exact consistent
  | look at_ got =>
    refine goes_consistent consistent (by simp) ?_
    intro request found since seen equal
    cases equal
    obtain ⟨read,from_,before⟩ := consistent.looking _ _ _ _ at_
    exact ⟨_,read,(gets_latest consistent.mirrors _ _ _).mp got,from_,before,List.prefix_refl _⟩
  | answer => exact goes_consistent consistent (by simp) (by simp)

omit [DecidableEq Thread] in
theorem start_consistent {I : ProteusService N Message Service} (constructed : Constructed I services m) :
    Consistent I services (⟨m,services,fun _ => .idle⟩ : Router Service Thread) :=
  ⟨constructed.mirrors,List.prefix_refl _,by simp,by simp⟩

-- One answered request: what it deserved at a moment between its arrival and its
-- answer, returned and not thrown.
def Answered (I : ProteusService N Message Service) (services registered : List Service) :
    Label N Message Service Thread → Prop
  | .answered _ request since seen answer => Deserved N I seen request answer ∧
      services <+: since ∧ since <+: seen ∧ seen <+: registered ∧ ∀ s, ∃ published u, answer s = .ok published u
  | _ => True

theorem step_answers {I : ProteusService N Message Service} {T : SwitchTransform N Message} {r : Router Service Thread}
    (consistent : Consistent I services r) (taken : Step I T r label next) : Answered I services next.registered label := by
  cases taken with
  | add => trivial
  | register => trivial
  | receive => trivial
  | look => trivial
  | reject _ failed =>
    exact ⟨rejected_deserved I T failed _ _,consistent.initial,List.prefix_refl _,List.prefix_refl _,handle_returns I T _ _⟩
  | answer at_ =>
    obtain ⟨pair,read,current,from_,before,within⟩ := consistent.found _ _ _ _ _ at_
    exact ⟨looked_deserved I T read current,from_,before,within,handle_returns I T _ _⟩

theorem step_registers {I : ProteusService N Message Service} {T : SwitchTransform N Message} {r : Router Service Thread}
    (taken : Step I T r label next) : next.registered = r.registered ++ label.registration.toList := by
  cases taken with
  | register => rfl
  | _ => exact (List.append_nil _).symm

omit [DecidableEq Thread] in
theorem answered_later {I : ProteusService N Message Service} (answered : Answered I services registered label)
    (grown : registered <+: later) : Answered I services later (label : Label N Message Service Thread) := by
  cases label with
  | answered t request since seen answer =>
    obtain ⟨deserved,from_,before,within,returns⟩ := answered
    exact ⟨deserved,from_,before,within.trans grown,returns⟩
  | _ => trivial

theorem run_answers {I : ProteusService N Message Service} {T : SwitchTransform N Message}
    (constructed : Constructed I services m) (path : Runs (Step I T) (⟨m,services,fun _ => .idle⟩ : Router Service Thread) trace r) :
    Consistent I services r ∧ (∀ label ∈ trace, Answered I services r.registered label) ∧
      r.registered = services ++ trace.filterMap Label.registration := by
  refine Runs.invariant (fun trace r => Consistent I services r ∧ (∀ label ∈ trace, Answered I services r.registered label) ∧
    r.registered = services ++ trace.filterMap Label.registration) ?_ ?_ path
  · exact ⟨start_consistent constructed,by simp,(List.append_nil _).symm⟩
  · rintro trace r label next ⟨consistent,answered,history⟩ taken
    have grown := step_registers taken
    refine ⟨step_consistent consistent taken,?_,?_⟩
    · intro earlier listed
      rcases List.mem_append.mp listed with before | now
      · exact answered_later (answered earlier before) (by rw [grown]; exact List.prefix_append _ _)
      · cases List.mem_singleton.mp now
        exact step_answers consistent taken
    · rw [grown,history,filterMap_snoc,List.append_assoc]

-- A request with both ids passes through the router in three steps.
theorem request_run {I : ProteusService N Message Service} (T : SwitchTransform N Message) (constructed : Constructed I services m)
    (t : Thread) (request : Request) (long : 10 ≤ request.payload.getMetadata.val.length) : ∃ r,
    Runs (Step I T) (⟨m,services,fun _ => .idle⟩ : Router Service Thread) [.received t request,.looked t,
      .answered t request services services (handle I T (fun _ _ => latest I services
        (intAt request.payload.getMetadata.val 2,intAt request.payload.getMetadata.val 6)) request)] r := by
  have got := (gets_latest constructed.mirrors (intAt request.payload.getMetadata.val 2)
    (intAt request.payload.getMetadata.val 6) _).mpr rfl
  have received : Runs (Step I T) (⟨m,services,fun _ => .idle⟩ : Router Service Thread) [.received t request] _ :=
    .one (.receive rfl (ids_read N request.payload long))
  have looked := received.snoc (.look (goes_at _ _ _) got)
  exact ⟨_,looked.snoc (.answer (goes_at _ _ _))⟩

end Runs

def other : (JInt × JInt) × Bytes := ((5,10),⟨[3],by decide⟩)

end Proteus.RequestHandlingRSocket
