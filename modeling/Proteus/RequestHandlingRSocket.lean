import Proteus.GeneratedServer
import Proteus.MapRefinement

namespace Proteus.RequestHandlingRSocket
open JavaGenerator GeneratedServer Stateful BiInt2ObjectMap
variable {N : Netty} {Message Service : Type}

-- The interface that registered services implement.
structure ProteusService (N : Netty) (Message Service : Type) where
  getNamespaceId : Service → JInt
  getServiceId : Service → JInt
  fireAndForget : Service → Payload → Handling N Message (Published Message)
  requestResponse : Service → Payload → Handling N Message (Published Message)
  requestStream : Service → Payload → Handling N Message (Published Message)
  requestChannel : Service → Payload → Flux Payload → Handling N Message (Published Message)

-- registeredServices.put(namespaceId, serviceId, service), where it returns.
inductive Registers (I : ProteusService N Message Service) (m : BiInt2ObjectMap Service) (service : Service) :
    BiInt2ObjectMap Service → Prop where
  | put : BiInt2ObjectMap.Step m (.put (I.getNamespaceId service) (I.getServiceId service) (some service),reply) next →
      Registers I m service next

-- The constructor: an empty map, then every service in the order given.
inductive Constructed (I : ProteusService N Message Service) : List Service → BiInt2ObjectMap Service → Prop where
  | empty : makeDefault heap = .ok m → Constructed I [] m
  | put : Constructed I services m → Registers I m service next → Constructed I (services ++ [service]) next

-- getService returns registeredServices.get(namespaceId, serviceId).
def Gets (m : BiInt2ObjectMap Service) (namespaceId serviceId : JInt) (found : Option Service) : Prop :=
  ∃ fuel, m.get fuel namespaceId serviceId = some found

-- The lines all four handlers share, with getService as the monitor answers it.
def route (N : Netty) (getService : JInt → JInt → Option Service) (hand : Service → Handling N Message (Published Message))
    (payload : Payload) : Handling N Message (Published Message) := do
  let metadata := N.wrappedBuffer payload.getMetadata
  let namespaceId ← raise (ProteusMetadata.namespaceId N metadata)
  let serviceId ← raise (ProteusMetadata.serviceId N metadata)
  match getService namespaceId serviceId with
  | none => pure (.error (.serviceNotFound namespaceId serviceId))
  | some service => hand service

section Handlers
variable (I : ProteusService N Message Service) (getService : JInt → JInt → Option Service)

def fireAndForget (payload : Payload) : Handling N Message (Published Message) :=
  rescued (route N getService (fun service => I.fireAndForget service payload) payload) .error

def requestResponse (payload : Payload) : Handling N Message (Published Message) :=
  rescued (route N getService (fun service => I.requestResponse service payload) payload) .error

def requestStream (payload : Payload) : Handling N Message (Published Message) :=
  rescued (route N getService (fun service => I.requestStream service payload) payload) .error

-- No try of its own: the transform catches.
def requestChannel (T : SwitchTransform N Message) (payloads : Flux Payload) : Handling N Message (Published Message) :=
  T.transform payloads fun payload flux => route N getService (fun service => I.requestChannel service payload flux) payload

end Handlers

-- An incoming request; a channel goes on after its first payload.
structure Request where
  interaction : Interaction
  payload : Payload
  later : List Payload
  failure : Option Throwable

def Request.payloads (request : Request) : Flux Payload := ⟨request.payload :: request.later,request.failure⟩

def handle (I : ProteusService N Message Service) (T : SwitchTransform N Message) (getService : JInt → JInt → Option Service)
    (request : Request) : Handling N Message (Published Message) :=
  match request.interaction with
  | .fireAndForget => fireAndForget I getService request.payload
  | .requestResponse => requestResponse I getService request.payload
  | .requestStream => requestStream I getService request.payload
  | .requestChannel => requestChannel I getService T request.payloads

def ProteusService.hand (I : ProteusService N Message Service) (request : Request) (service : Service) :
    Handling N Message (Published Message) :=
  match request.interaction with
  | .fireAndForget => I.fireAndForget service request.payload
  | .requestResponse => I.requestResponse service request.payload
  | .requestStream => I.requestStream service request.payload
  | .requestChannel => I.requestChannel service request.payload request.payloads

def ids (N : Netty) (payload : Payload) : Except Throwable (JInt × JInt) := do
  let metadata := N.wrappedBuffer payload.getMetadata
  let namespaceId ← ProteusMetadata.namespaceId N metadata
  let serviceId ← ProteusMetadata.serviceId N metadata
  return (namespaceId,serviceId)

theorem handle_routes (I : ProteusService N Message Service) (T : SwitchTransform N Message)
    (getService : JInt → JInt → Option Service) (request : Request) : handle I T getService request =
      rescued (route N getService (I.hand request) request.payload) .error := by
  obtain ⟨interaction,payload,later,failure⟩ := request
  cases interaction with
  | fireAndForget => rfl
  | requestResponse => rfl
  | requestStream => rfl
  | requestChannel => exact T.switched payload later failure _

theorem ids_read (N : Netty) (payload : Payload) (long : 10 ≤ payload.getMetadata.val.length) :
    ids N payload = .ok (intAt payload.getMetadata.val 2,intAt payload.getMetadata.val 6) := by
  have capacity : N.capacity (N.wrappedBuffer payload.getMetadata) = payload.getMetadata.val.length := slice_capacity N payload
  have bytes : (N.contents (N.wrappedBuffer payload.getMetadata)).bytes = payload.getMetadata.val := by
    rw [N.wrapped,ByteBuffer.Buffer.full]
  rw [ids,ProteusMetadata.namespaceId_exact (by omega),ProteusMetadata.serviceId_exact (by omega),bytes]
  rfl

theorem ids_short (N : Netty) (payload : Payload) (short : payload.getMetadata.val.length < 10) :
    ∃ thrown, ids N payload = .error thrown := by
  have capacity : N.capacity (N.wrappedBuffer payload.getMetadata) = payload.getMetadata.val.length := slice_capacity N payload
  obtain ⟨thrown,failed⟩ := Netty.getInt_throws (b := N.wrappedBuffer payload.getMetadata) (i := 6) (by omega)
  have failed : ProteusMetadata.serviceId N (N.wrappedBuffer payload.getMetadata) = .error thrown := failed
  cases first : ProteusMetadata.namespaceId N (N.wrappedBuffer payload.getMetadata) with
  | error thrown => exact ⟨thrown,by rw [ids,first]; rfl⟩
  | ok namespaceId => exact ⟨thrown,by rw [ids,first,ok_bind,failed]; rfl⟩

theorem route_exact (getService : JInt → JInt → Option Service) (hand : Service → Handling N Message (Published Message))
    (payload : Payload) (s : Serving N Message) : route N getService hand payload s =
      match ids N payload with
      | .error thrown => .error thrown s
      | .ok pair =>
        match getService pair.1 pair.2 with
        | none => .ok (.error (.serviceNotFound pair.1 pair.2)) s
        | some service => hand service s := by
  rw [route,ids]
  cases ProteusMetadata.namespaceId N (N.wrappedBuffer payload.getMetadata) with
  | error thrown => rfl
  | ok namespaceId =>
    rw [bind_ok (show raise (.ok namespaceId) s = .ok namespaceId s from rfl),ok_bind]
    cases ProteusMetadata.serviceId N (N.wrappedBuffer payload.getMetadata) with
    | error thrown => rfl
    | ok serviceId =>
      rw [bind_ok (show raise (.ok serviceId) s = .ok serviceId s from rfl),ok_bind]
      dsimp only [pure,Except.pure]
      cases getService namespaceId serviceId <;> rfl

-- A handler does one of three things, decided by the ids and the one answer of
-- getService for them.
theorem handle_exact (I : ProteusService N Message Service) (T : SwitchTransform N Message)
    (getService : JInt → JInt → Option Service) (request : Request) : handle I T getService request =
      match ids N request.payload with
      | .error thrown => pure (.error thrown)
      | .ok pair =>
        match getService pair.1 pair.2 with
        | none => pure (.error (.serviceNotFound pair.1 pair.2))
        | some service => rescued (I.hand request service) .error := by
  rw [handle_routes]
  funext s
  rw [rescued_run,route_exact]
  cases ids N request.payload with
  | error thrown => rfl
  | ok pair =>
    dsimp only
    cases getService pair.1 pair.2 with
    | none => rfl
    | some service => exact (rescued_run _ _).symm

-- No handler throws to its caller, whatever the service does.
theorem handle_returns (I : ProteusService N Message Service) (T : SwitchTransform N Message)
    (getService : JInt → JInt → Option Service) (request : Request) (s : Serving N Message) :
    ∃ published t, handle I T getService request s = .ok published t := by
  rw [handle_routes,rescued_run]
  cases route N getService (I.hand request) request.payload s with
  | ok published t => exact ⟨published,t,rfl⟩
  | error thrown t => exact ⟨.error thrown,t,rfl⟩

end Proteus.RequestHandlingRSocket
