import Proteus.Hashing
import Mathlib.Data.Rat.Floor

namespace Proteus

inductive Thrown where
  | illegalArgument (message : String) (loadFactor : ℚ)
  | illegalState (message : String) (size : Int)
  | negativeArraySize (length : Int)
  | outOfMemory
  | mapping (id : Nat)
  deriving DecidableEq

abbrev Ended (State Value : Type) := EStateM.Result Thrown State Value

def int32 (x : Int) : Int := (x + 0x80000000) % 0x100000000 - 0x80000000

-- The (int) cast of a floating value drops its fraction.
def truncate (x : ℚ) : Int := if 0 ≤ x then ⌊x⌋ else ⌈x⌉

-- Math.round: nearest integer, halves up.
def round (x : ℚ) : Int := ⌊x + 1 / 2⌋

def numberOfLeadingZeros (i : Int) : Nat :=
  if i < 0 then 0 else if i = 0 then 32 else 31 - Nat.log2 i.toNat

structure LoadFactor where
  ratio : ℚ
  low : 1 / 10 ≤ ratio
  high : ratio ≤ 9 / 10

structure Table (V : Type) where
  keys : Array JLong
  values : Array (Option V)
  aligned : keys.size = values.size

namespace Table
variable {V : Type}

def fresh (capacity : Nat) : Table V :=
  ⟨Array.replicate capacity 0,Array.replicate capacity none,by simp⟩

def value (t : Table V) (index : Nat) : Option V := t.values.getD index none
def key (t : Table V) (index : Nat) : JLong := t.keys.getD index 0

def setKey (t : Table V) (index : Nat) (key : JLong) : Table V :=
  ⟨t.keys.setIfInBounds index key,t.values,by simpa using t.aligned⟩
def setValue (t : Table V) (index : Nat) (value : Option V) : Table V :=
  ⟨t.keys,t.values.setIfInBounds index value,by simpa using t.aligned⟩

-- `index = ++index & mask`
def advance (mask index : Nat) : Nat := (index + 1) &&& mask

def hash (mask : Nat) (key : JLong) : Nat := (Hashing.hash key (BitVec.ofNat 32 mask)).toNat

-- The loop of put, get and remove: on to a null value or to the key. Fuel
-- counts the tests of the loop condition; none is a loop still running.
def probe (t : Table V) (mask : Nat) (key : JLong) : Nat → Nat → Option Nat
  | 0,_ => none
  | fuel+1,index =>
    if t.value index = none then some index
    else if key = t.key index then some index
    else probe t mask key fuel (advance mask index)

def vacancy (t : Table V) (mask : Nat) : Nat → Nat → Option Nat
  | 0,_ => none
  | fuel+1,newHash => if t.value newHash = none then some newHash else vacancy t mask fuel (advance mask newHash)

-- One round of the outer loop of rehash, for slot i of the old arrays.
def reinsert (old : Table V) (mask fuel : Nat) (temp : Table V) (i : Nat) : Option (Table V) :=
  match old.value i with
  | none => some temp
  | some value =>
    (vacancy temp mask fuel (hash mask (old.key i))).map fun newHash =>
      (temp.setKey newHash (old.key i)).setValue newHash (some value)

def reinsertAll (old : Table V) (newCapacity fuel : Nat) : Option (Table V) :=
  (List.range old.values.size).foldlM (reinsert old (newCapacity - 1) fuel) (fresh newCapacity)

def compactChain (mask : Nat) : Nat → Table V → Nat → Nat → Option (Table V)
  | 0,_,_,_ => none
  | fuel+1,t,deleteIndex,index =>
    let index := advance mask index
    if t.value index = none then some t
    else
      let key := t.key index
      let hash := hash mask key
      if (index < hash ∧ (hash ≤ deleteIndex ∨ deleteIndex ≤ index)) ∨ (hash ≤ deleteIndex ∧ deleteIndex ≤ index) then
        let t := (t.setKey deleteIndex key).setValue deleteIndex (t.value index)
        compactChain mask fuel (t.setValue index none) index index
      else compactChain mask fuel t deleteIndex index

end Table

structure BiInt2ObjectMap (V : Type) extends Table V where
  loadFactor : LoadFactor
  resizeThreshold : Int
  size : Int

structure Heap where
  keys : Bool
  values : Bool

namespace BiInt2ObjectMap
variable {V : Type}

def MIN_CAPACITY : Int := 8

-- 0.55f is this dyadic rational.
def DEFAULT_LOAD_FACTOR : ℚ := 9227469 / 16777216

def findNextPositivePowerOfTwo (value : Int) : Int :=
  int32 (2 ^ ((32 - numberOfLeadingZeros (value - 1)) % 32))

-- BiInt2ObjectMap(initialCapacity, loadFactor)
def make (heap : Heap) (initialCapacity : Int) (loadFactor : ℚ) : Except Thrown (BiInt2ObjectMap V) :=
  if valid : ¬ (loadFactor < 1 / 10 ∨ loadFactor > 9 / 10) then
    let loadFactor : LoadFactor := ⟨loadFactor,not_lt.mp (not_or.mp valid).1,not_lt.mp (not_or.mp valid).2⟩
    let capacity := findNextPositivePowerOfTwo (max MIN_CAPACITY initialCapacity)
    if capacity < 0 then .error (.negativeArraySize capacity)
    else if heap.keys && heap.values then
      .ok {Table.fresh capacity.toNat with
        loadFactor := loadFactor
        resizeThreshold := truncate (capacity * loadFactor.ratio)
        size := 0}
    else .error .outOfMemory
  else .error (.illegalArgument "Load factor must be in the range of 0.1 to 0.9: " loadFactor)

def makeDefault (heap : Heap) : Except Thrown (BiInt2ObjectMap V) := make heap MIN_CAPACITY DEFAULT_LOAD_FACTOR

def capacity (m : BiInt2ObjectMap V) : Nat := m.values.size

def clear (m : BiInt2ObjectMap V) : BiInt2ObjectMap V :=
  {m with values := Array.replicate m.values.size none,aligned := by simpa using m.aligned,size := 0}

def rehash (fuel : Nat) (heap : Heap) (newCapacity : Int) (m : BiInt2ObjectMap V) :
    Option (Ended (BiInt2ObjectMap V) Unit) :=
  -- The threshold is overwritten before anything can fail.
  let m := {m with resizeThreshold := truncate (newCapacity * m.loadFactor.ratio)}
  if newCapacity < 0 then some (.error (.negativeArraySize newCapacity) m)
  else if heap.keys && heap.values then
    (m.toTable.reinsertAll newCapacity.toNat fuel).map fun temp => .ok () {m with toTable := temp}
  else some (.error .outOfMemory m)

def increaseCapacity (fuel : Nat) (heap : Heap) (m : BiInt2ObjectMap V) : Option (Ended (BiInt2ObjectMap V) Unit) :=
  let newCapacity := int32 (m.values.size * 2)
  if newCapacity < 0 then some (.error (.illegalState "Max capacity reached at size=" m.size) m)
  else rehash fuel heap newCapacity m

def compact (fuel : Nat) (heap : Heap) (m : BiInt2ObjectMap V) : Option (Ended (BiInt2ObjectMap V) Unit) :=
  let idealCapacity := int32 (round (m.size * (1 / m.loadFactor.ratio)))
  rehash fuel heap (findNextPositivePowerOfTwo (max MIN_CAPACITY idealCapacity)) m

def put (fuel : Nat) (heap : Heap) (keyPartA keyPartB : JInt) (value : Option V) (m : BiInt2ObjectMap V) :
    Option (Ended (BiInt2ObjectMap V) (Option V)) :=
  let key := Hashing.compoundKey keyPartA keyPartB
  let mask := m.values.size - 1
  match m.probe mask key fuel (Table.hash mask key) with
  | none => none
  | some index =>
    let oldValue := m.value index
    let m := if oldValue.isNone then {m with size := int32 (m.size + 1),toTable := m.setKey index key} else m
    let m := {m with toTable := m.setValue index value}
    if m.size > m.resizeThreshold then
      (increaseCapacity fuel heap m).map fun
        | .ok _ m => .ok oldValue m
        | .error thrown m => .error thrown m
    else some (.ok oldValue m)

def get (fuel : Nat) (keyPartA keyPartB : JInt) (m : BiInt2ObjectMap V) : Option (Option V) :=
  let key := Hashing.compoundKey keyPartA keyPartB
  let mask := m.values.size - 1
  (m.probe mask key fuel (Table.hash mask key)).map m.value

def remove (fuel : Nat) (keyPartA keyPartB : JInt) (m : BiInt2ObjectMap V) :
    Option (Ended (BiInt2ObjectMap V) (Option V)) :=
  let key := Hashing.compoundKey keyPartA keyPartB
  let mask := m.values.size - 1
  match m.probe mask key fuel (Table.hash mask key) with
  | none => none
  | some index =>
    match m.value index with
    | none => some (.ok none m)
    | some value =>
      (Table.compactChain mask fuel (m.setValue index none) index index).map fun t =>
        .ok (some value) {m with toTable := t,size := int32 (m.size - 1)}

-- A mapping function that does not touch the map, but may throw.
abbrev EntryFunction (V : Type) := JInt → JInt → Except Thrown (Option V)

def computeIfAbsent (fuel : Nat) (heap : Heap) (keyPartA keyPartB : JInt) (mappingFunction : EntryFunction V)
    (m : BiInt2ObjectMap V) : Option (Ended (BiInt2ObjectMap V) (Option V × List (JInt × JInt))) :=
  match m.get fuel keyPartA keyPartB with
  | none => none
  | some (some value) => some (.ok (some value,[]) m)
  | some none =>
    match mappingFunction keyPartA keyPartB with
    | .error thrown => some (.error thrown m)
    | .ok none => some (.ok (none,[(keyPartA,keyPartB)]) m)
    | .ok (some value) =>
      (m.put fuel heap keyPartA keyPartB (some value)).map fun
        | .ok _ m => .ok (some value,[(keyPartA,keyPartB)]) m
        | .error thrown m => .error thrown m

def forEach (m : BiInt2ObjectMap V) : List V := m.values.toList.filterMap id

def isEmpty (m : BiInt2ObjectMap V) : Bool := 0 = m.size

inductive Call (V : Type) where
  | put (keyPartA keyPartB : JInt) (value : Option V)
  | get (keyPartA keyPartB : JInt)
  | remove (keyPartA keyPartB : JInt)
  | computeIfAbsent (keyPartA keyPartB : JInt) (mappingFunction : EntryFunction V)
  | clear
  | compact
  | size
  | isEmpty
  | forEach

inductive Reply (V : Type) where
  | value (value : Option V)
  | computed (value : Option V) (applied : List (JInt × JInt))
  | done
  | count (n : Int)
  | flag (b : Bool)
  | visited (values : List V)
  deriving DecidableEq

def Ended.reply (read : Value → Reply V) : Ended State Value → Ended State (Reply V)
  | .ok value s => .ok (read value) s
  | .error thrown s => .error thrown s

def exec (fuel : Nat) (heap : Heap) (m : BiInt2ObjectMap V) : Call V → Option (Ended (BiInt2ObjectMap V) (Reply V))
  | .put a b value => (m.put fuel heap a b value).map (Ended.reply .value)
  | .get a b => (m.get fuel a b).map fun value => .ok (.value value) m
  | .remove a b => (m.remove fuel a b).map (Ended.reply .value)
  | .computeIfAbsent a b f => (m.computeIfAbsent fuel heap a b f).map (Ended.reply fun r => .computed r.1 r.2)
  | .clear => some (.ok .done m.clear)
  | .compact => (m.compact fuel heap).map (Ended.reply fun _ => .done)
  | .size => some (.ok (.count m.size) m)
  | .isEmpty => some (.ok (.flag m.isEmpty) m)
  | .forEach => some (.ok (.visited m.forEach) m)

-- A call ends in `ended` when some amount of fuel sees it end there.
def Ends (heap : Heap) (m : BiInt2ObjectMap V) (call : Call V) (ended : Ended (BiInt2ObjectMap V) (Reply V)) : Prop :=
  ∃ fuel, exec fuel heap m call = some ended

inductive Step (m : BiInt2ObjectMap V) : Call V × Reply V → BiInt2ObjectMap V → Prop where
  | returned : Ends heap m call (.ok reply next) → Step m (call,reply) next

inductive Attempt (m : BiInt2ObjectMap V) : Call V × Except Thrown (Reply V) → BiInt2ObjectMap V → Prop where
  | returned : Ends heap m call (.ok reply next) → Attempt m (call,.ok reply) next
  | threw : Ends heap m call (.error thrown next) → Attempt m (call,.error thrown) next

end BiInt2ObjectMap
end Proteus
