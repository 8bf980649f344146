import DrcNode.Wire.Encode
import Mathlib.Data.List.FinRange

/-!
# The address manager

The addresses of other nodes that a node knows. Each of them is in the index, under its key
`ip:port`. An address that was only heard of is in some of the 1024 new buckets, which are maps,
and one that a connection was made to is in one of the 64 tried buckets, which are lists. All of
these hold pointers to one record for each address, so that the heap of the records is part of the
state. What a call reads from the clock, draws or visits in a map is an argument.

Source: `addrmgr/addrmanager.go` and `addrmgr/knownaddress.go`. The recognition of routable
addresses, their groups and the texts of addresses are a parameter.
-/

namespace DrcNode

open List Function

/-! ### Addresses -/

/-- The text of an address, as bytes. -/
abbrev AddrKey := List UInt8

structure NetAddress where
  timestamp : Int
  services : UInt64
  ip : List UInt8
  port : UInt16

/-- What the address manager takes from elsewhere. `deserializeNetAddress` may ask a resolver. -/
structure AddrEnv where
  prim : Primitives
  isRoutable : NetAddress → Bool
  groupKey : NetAddress → List UInt8
  netAddressKey : List UInt8 → UInt16 → AddrKey
  deserializeNetAddress : AddrKey → Option (List UInt8 × UInt16)

/-- `NetAddressKey`. -/
def AddrEnv.keyOf (env : AddrEnv) (na : NetAddress) : AddrKey := env.netAddressKey na.ip na.port

/-- A second, in nanoseconds. -/
def second : Int := 10 ^ 9

/-- The zero value of `time.Time`. -/
def zeroTime : Int := -62135596800 * second

def triedBucketSize : Nat := 256

def triedBucketCount : Nat := 64

def newBucketSize : Nat := 64

def newBucketCount : Nat := 1024

def triedBucketsPerGroup : Nat := 8

def newBucketsPerGroup : Nat := 64

def newBucketsPerAddress : Int := 8

def numMissingDays : Int := 30

def numRetries : Int := 3

def maxFailures : Int := 10

def minBadDays : Int := 7

def serialisationVersion : Int := 1

structure KnownAddress where
  na : NetAddress
  srcAddr : NetAddress
  attempts : Int := 0
  lastattempt : Int := zeroTime
  lastsuccess : Int := zeroTime
  tried : Bool := false
  refs : Int := 0

namespace KnownAddress

def isBad (ka : KnownAddress) (now : Int) : Bool :=
  if ka.lastattempt > now - 60 * second then false
  -- from the future
  else if ka.na.timestamp > now + 10 * 60 * second then true
  -- over a month old
  else if ka.na.timestamp < now - numMissingDays * 24 * 3600 * second then true
  -- never succeeded
  else if ka.lastsuccess = zeroTime ∧ ka.attempts ≥ numRetries then true
  -- has not succeeded in too long
  else decide (¬ ka.lastsuccess > now - minBadDays * 24 * 3600 * second ∧
    ka.attempts ≥ maxFailures)

/-- The time and the services of an address that is announced again. -/
def seen (ka : KnownAddress) (netAddr : NetAddress) : KnownAddress :=
  if netAddr.timestamp > ka.na.timestamp ∨
      ka.na.services &&& netAddr.services ≠ netAddr.services then
    { ka with na := { ka.na with timestamp := netAddr.timestamp
                                 services := ka.na.services ||| netAddr.services } }
  else ka

end KnownAddress

/-! ### The manager -/

/-- A pointer to a `KnownAddress`. -/
abbrev AddrPtr := Nat

/-- `AddrManager`, with the heap of the known addresses. -/
structure AddrManager where
  key : List UInt8
  addrIndex : Finmap fun _ : AddrKey => AddrPtr
  addrNew : Fin newBucketCount → Finmap fun _ : AddrKey => AddrPtr
  addrTried : Fin triedBucketCount → List AddrPtr
  nTried : Int
  nNew : Int
  heap : AddrPtr → KnownAddress
  allocated : AddrPtr

/-- The panics of the address manager: a nil pointer, and `Int31n` of a number that is not
positive. -/
inductive AddrPanic
  | nilPointer
  | int31n

/-- `binary.LittleEndian.Uint64` of a double hash. -/
def AddrEnv.hash64 (env : AddrEnv) (data : List UInt8) : Nat :=
  ofLeBytes ((Hash.bytes (env.prim.doubleHash data)).take 8)

namespace AddrManager

variable (env : AddrEnv) (a : AddrManager) (bucket : Fin newBucketCount) (k : AddrKey)
  (ka : AddrPtr)

def find (addr : NetAddress) : Option AddrPtr := a.addrIndex.lookup (env.keyOf addr)

def numAddresses : Int := a.nTried + a.nNew

def getNewBucket (netAddr srcAddr : NetAddress) : Fin newBucketCount :=
  let hash64 := env.hash64 (a.key ++ env.groupKey netAddr ++ env.groupKey srcAddr) %
    newBucketsPerGroup
  ⟨env.hash64 (a.key ++ env.groupKey srcAddr ++ leBytes 8 hash64) % newBucketCount,
    Nat.mod_lt _ (by decide)⟩

def getTriedBucket (netAddr : NetAddress) : Fin triedBucketCount :=
  let hash64 := env.hash64 (a.key ++ env.keyOf netAddr) % triedBucketsPerGroup
  ⟨env.hash64 (a.key ++ env.groupKey netAddr ++ leBytes 8 hash64) % triedBucketCount,
    Nat.mod_lt _ (by decide)⟩

/-- A write to the record behind a pointer. -/
def modify (f : KnownAddress → KnownAddress) : AddrManager :=
  { a with heap := update a.heap ka (f (a.heap ka)) }

/-- The entry under a key leaves a new bucket, and is counted out. -/
def eraseNew : AddrManager :=
  { a with addrNew := update a.addrNew bucket ((a.addrNew bucket).erase k) }.modify ka
    fun v => { v with refs := v.refs - 1 }

/-- The entry under a key is put into a new bucket, and is counted in. -/
def putNew : AddrManager :=
  { a with addrNew := update a.addrNew bucket ((a.addrNew bucket).insert k ka) }.modify
    ka fun v => { v with refs := v.refs + 1 }

/-- An address is removed from the index, and from the count of new addresses. -/
def forget : AddrManager :=
  { a with nNew := a.nNew - 1, addrIndex := a.addrIndex.erase k }

/-- An entry is expired: an address that is in no new bucket any more is forgotten. -/
def dropNew : AddrManager :=
  if ((a.eraseNew bucket k ka).heap ka).refs = 0 then (a.eraseNew bucket k ka).forget k
  else a.eraseNew bucket k ka

/-- The older one of two addresses, the second one if none is older. -/
def older (oldest : Option AddrPtr) (v : AddrPtr) : AddrPtr :=
  match oldest with
  | none => v
  | some oldest => if (a.heap v).na.timestamp > (a.heap oldest).na.timestamp then oldest else v

end AddrManager

/-- The entries of a bucket in the order a `range` loop meets them, each with the time. -/
abbrev AddrOrder := List (AddrKey × Int)

namespace AddrManager

/-- The loop of `expireNew`, with the oldest entry that is kept. -/
def expireLoop (bucket : Fin newBucketCount) :
    AddrOrder → AddrManager → Option AddrPtr → AddrManager × Option AddrPtr
  | [], a, oldest => (a, oldest)
  | visit :: order, a, oldest =>
      match (a.addrNew bucket).lookup visit.1 with
      | none => expireLoop bucket order a oldest
      | some v =>
          if (a.heap v).isBad visit.2 then
            expireLoop bucket order (a.dropNew bucket visit.1 v) oldest
          else expireLoop bucket order a (some (a.older oldest v))

variable (env : AddrEnv) (a : AddrManager)

def expireNew (bucket : Fin newBucketCount) (order : AddrOrder) : AddrManager :=
  match (expireLoop bucket order a none).2 with
  | none => (expireLoop bucket order a none).1
  | some oldest =>
      (expireLoop bucket order a none).1.dropNew bucket
        (env.keyOf ((expireLoop bucket order a none).1.heap oldest).na) oldest

/-- The end of `updateAddress`: the address is put into its new bucket. -/
def addToNew (netAddr srcAddr : NetAddress) (ka : AddrPtr) (order : AddrOrder) : AddrManager :=
  let addr := env.keyOf netAddr
  let bucket := a.getNewBucket env netAddr srcAddr
  if addr ∈ a.addrNew bucket then a
  else if (a.addrNew bucket).keys.card > newBucketSize then
    (a.expireNew env bucket order).putNew bucket addr ka
  else a.putNew bucket addr ka

/-- A new record, reached from the index. -/
def allocate (ka : KnownAddress) : AddrManager :=
  { a with heap := update a.heap a.allocated ka
           allocated := a.allocated + 1
           addrIndex := a.addrIndex.insert (env.keyOf ka.na) a.allocated }

/-- `updateAddress`, which `AddAddress` calls. The argument `draw` is what the random source
yields. -/
def updateAddress (netAddr srcAddr : NetAddress) (draw : Nat) (order : AddrOrder) :
    Except AddrPanic AddrManager :=
  if env.isRoutable netAddr then
    match a.find env netAddr with
    | some ka =>
        let a' := a.modify ka fun v => v.seen netAddr
        if (a'.heap ka).tried then .ok a'
        else if (a'.heap ka).refs = newBucketsPerAddress then .ok a'
        else
          let factor := (Int32.ofInt (2 * (a'.heap ka).refs)).toInt
          if factor ≤ 0 then .error .int31n
          else if draw % factor ≠ 0 then .ok a'
          else .ok (a'.addToNew env netAddr srcAddr ka order)
    | none =>
        let a' := a.allocate env { na := netAddr, srcAddr }
        .ok ({ a' with nNew := a'.nNew + 1 }.addToNew env netAddr srcAddr a.allocated order)
  else .ok a

def attempt (addr : NetAddress) (now : Int) : AddrManager :=
  match a.find env addr with
  | none => a
  | some ka => a.modify ka fun v => { v with attempts := v.attempts + 1, lastattempt := now }

def connected (addr : NetAddress) (now : Int) : AddrManager :=
  match a.find env addr with
  | none => a
  | some ka =>
      if now > (a.heap ka).na.timestamp + 20 * 60 * second then
        a.modify ka fun v => { v with na := { v.na with timestamp := now } }
      else a

/-- The older one of two entries of a tried bucket, the first one if none is older. -/
def elder (oldest : Option (AddrPtr × Nat)) (e : AddrPtr × Nat) : AddrPtr × Nat :=
  match oldest with
  | none => e
  | some oldest =>
      if (a.heap oldest.1).na.timestamp > (a.heap e.1).na.timestamp then e else oldest

/-- `pickTried`: the oldest entry of a tried bucket and its position. -/
def pickTried (bucket : Fin triedBucketCount) : Option (AddrPtr × Nat) :=
  (a.addrTried bucket).zipIdx.foldl (fun oldest e => some (a.elder oldest e)) none

end AddrManager

namespace AddrManager

/-- The loop of `Good` over the new buckets, with the first bucket the address was in. -/
def leaveNew (addrKey : AddrKey) (ka : AddrPtr) : List (Fin newBucketCount) → AddrManager →
    Option (Fin newBucketCount) → AddrManager × Option (Fin newBucketCount)
  | [], a, oldBucket => (a, oldBucket)
  | i :: buckets, a, oldBucket =>
      if addrKey ∈ a.addrNew i then
        leaveNew addrKey ka buckets (a.eraseNew i addrKey ka) (oldBucket.or (some i))
      else leaveNew addrKey ka buckets a oldBucket

variable (env : AddrEnv) (a : AddrManager)

/-- An address is put at the end of a tried bucket. -/
def pushTried (bucket : Fin triedBucketCount) (ka : AddrPtr) : AddrManager :=
  { a with addrTried := update a.addrTried bucket (a.addrTried bucket ++ [ka])
           nTried := a.nTried + 1 }.modify ka fun v => { v with tried := true }

/-- The entry `rmka` at a position of a tried bucket is replaced by `ka`. -/
def swapTried (bucket : Fin triedBucketCount) (entry : Nat) (ka rmka : AddrPtr) : AddrManager :=
  ({ a with addrTried := update a.addrTried bucket
              ((a.addrTried bucket).set entry ka) }.modify ka fun v =>
    { v with tried := true }).modify rmka fun v => { v with tried := false }

/-- The end of `Good`: an address goes into its tried bucket, from which another one may go back. -/
def moveToTried (ka : AddrPtr) (oldBucket : Fin newBucketCount) : Except AddrPanic AddrManager :=
  let bucket := a.getTriedBucket env (a.heap ka).na
  if (a.addrTried bucket).length < triedBucketSize then .ok (a.pushTried bucket ka)
  else
    match a.pickTried bucket with
    | none => .error .nilPointer
    | some entry =>
        let rmka := entry.1
        let newBucket := a.getNewBucket env (a.heap rmka).na (a.heap rmka).srcAddr
        let newBucket :=
          if (a.addrNew newBucket).keys.card ≥ newBucketSize then oldBucket else newBucket
        let a' := a.swapTried bucket entry.2 ka rmka
        .ok ({ a' with nNew := a'.nNew + 1 }.putNew newBucket (env.keyOf (a'.heap rmka).na) rmka)

/-- The part of `Good` after the times have been set: the address is moved to the tried ones. -/
def promote (addrKey : AddrKey) (ka : AddrPtr) : Except AddrPanic AddrManager :=
  if (a.heap ka).tried then .ok a
  else
    let left := leaveNew addrKey ka (List.finRange newBucketCount) a none
    let a' := { left.1 with nNew := left.1.nNew - 1 }
    match left.2 with
    | none => .ok a'
    | some oldBucket => a'.moveToTried env ka oldBucket

def good (addr : NetAddress) (now : Int) : Except AddrPanic AddrManager :=
  match a.find env addr with
  | none => .ok a
  | some ka =>
      (a.modify ka fun v => { v with lastsuccess := now, lastattempt := now
                                     attempts := 0 }).promote env (env.keyOf addr) ka

/-- Where `GetAddress` searches: in the tried buckets, or else in the new ones. -/
def searchesTried (coin : Nat) : Bool :=
  decide (0 < a.nTried) && (decide (a.nNew = 0) || decide (coin % 2 = 0))

/-! ### The file of addresses -/

end AddrManager

/-- `serializedKnownAddress`, without the time, which is not read. -/
structure SerializedKnownAddress where
  addr : AddrKey
  src : AddrKey
  attempts : Int
  lastAttempt : Int
  lastSuccess : Int

/-- `serializedAddrManager`. The addresses are pointers, and a file may have a null there. -/
structure SerializedAddrManager where
  version : Int
  key : List UInt8
  addresses : List (Option SerializedKnownAddress)
  newBuckets : Fin newBucketCount → List AddrKey
  triedBuckets : Fin triedBucketCount → List AddrKey

/-- The file of addresses: there is none, it is not readable, or it is one. -/
inductive PeersFile
  | missing
  | malformed
  | decoded (sam : SerializedAddrManager)

/-- The errors of `deserializePeers`. -/
inductive PeersError
  | errorReading
  | unknownVersion (version : Int)
  | netAddress (addr : AddrKey)
  | newBucket (val : AddrKey)
  | triedBucket (val : AddrKey)
  | afterSerialisation

namespace SerializedAddrManager

/-- The entries of the new buckets, in the order of the file. -/
def newEntries (sam : SerializedAddrManager) : List (Fin newBucketCount × AddrKey) :=
  (List.finRange newBucketCount).flatMap fun i => (sam.newBuckets i).map fun val => (i, val)

/-- The entries of the tried buckets, in the order of the file. -/
def triedEntries (sam : SerializedAddrManager) : List (Fin triedBucketCount × AddrKey) :=
  (List.finRange triedBucketCount).flatMap fun i => (sam.triedBuckets i).map fun val => (i, val)

variable {sam : SerializedAddrManager}

theorem mem_newEntries {e : Fin newBucketCount × AddrKey} :
    e ∈ sam.newEntries ↔ e.2 ∈ sam.newBuckets e.1 := by
  obtain ⟨b, k⟩ := e
  simp [newEntries, mem_flatMap, mem_map]

theorem mem_triedEntries {e : Fin triedBucketCount × AddrKey} :
    e ∈ sam.triedEntries ↔ e.2 ∈ sam.triedBuckets e.1 := by
  obtain ⟨t, k⟩ := e
  simp [triedEntries, mem_flatMap, mem_map]

theorem nodup_newEntries (h : ∀ b, (sam.newBuckets b).Nodup) : sam.newEntries.Nodup := by
  rw [newEntries, nodup_flatMap]
  refine ⟨fun b _ => (h b).map fun _ _ heq => (Prod.mk.inj heq).2, ?_⟩
  refine (nodup_finRange newBucketCount).imp fun {b b'} hne => ?_
  intro e he he'
  obtain ⟨k, -, rfl⟩ := mem_map.1 he
  obtain ⟨k', -, heq⟩ := mem_map.1 he'
  exact hne (Prod.mk.inj heq).1.symm

-- there are 1024 buckets, which are not to be gone through
attribute [irreducible] newEntries triedEntries

end SerializedAddrManager

namespace AddrManager

/-- `DeserializeNetAddress`: an address that is read has the current time, in seconds. -/
def deserializeNetAddress (env : AddrEnv) (now : Int) (addr : AddrKey) : Option NetAddress :=
  (env.deserializeNetAddress addr).map fun found =>
    { timestamp := now / second * second, services := 1, ip := found.1, port := found.2 }

/-- The loop of `deserializePeers` over the addresses. -/
def readAddresses (env : AddrEnv) (now : Int) : List (Option SerializedKnownAddress) →
    AddrManager → Except AddrPanic (AddrManager × Option PeersError)
  | [], a => .ok (a, none)
  | none :: _, _ => .error .nilPointer
  | some v :: addresses, a =>
      match deserializeNetAddress env now v.addr with
      | none => .ok (a, some (.netAddress v.addr))
      | some na =>
          match deserializeNetAddress env now v.src with
          | none => .ok (a, some (.netAddress v.src))
          | some srcAddr =>
              readAddresses env now addresses (a.allocate env
                { na, srcAddr, attempts := v.attempts, lastattempt := v.lastAttempt * second
                  lastsuccess := v.lastSuccess * second })

/-- The loop of `deserializePeers` over the new buckets. -/
def readNewBuckets : List (Fin newBucketCount × AddrKey) → AddrManager →
    AddrManager × Option PeersError
  | [], a => (a, none)
  | e :: entries, a =>
      match a.addrIndex.lookup e.2 with
      | none => (a, some (.newBucket e.2))
      | some ka =>
          if (a.heap ka).refs = 0 then
            readNewBuckets entries ({ a with nNew := a.nNew + 1 }.putNew e.1 e.2 ka)
          else readNewBuckets entries (a.putNew e.1 e.2 ka)

/-- The loop of `deserializePeers` over the tried buckets. -/
def readTriedBuckets : List (Fin triedBucketCount × AddrKey) → AddrManager →
    AddrManager × Option PeersError
  | [], a => (a, none)
  | e :: entries, a =>
      match a.addrIndex.lookup e.2 with
      | none => (a, some (.triedBucket e.2))
      | some ka => readTriedBuckets entries (a.pushTried e.1 ka)

/-- An address that fails the sanity check of `deserializePeers`. -/
def Insane (a : AddrManager) (k : AddrKey) : Prop :=
  ∃ v ∈ a.addrIndex.lookup k, (a.heap v).refs = 0 ∧ (a.heap v).tried = false ∨
    (a.heap v).refs > 0 ∧ (a.heap v).tried = true
  deriving Decidable

/-- The part of `deserializePeers` after the addresses. -/
def readBuckets (sam : SerializedAddrManager) (a : AddrManager) : AddrManager × Option PeersError :=
  let new := readNewBuckets sam.newEntries a
  match new.2 with
  | some e => (new.1, some e)
  | none =>
      let tried := readTriedBuckets sam.triedEntries new.1
      match tried.2 with
      | some e => (tried.1, some e)
      | none =>
          if ∃ k ∈ tried.1.addrIndex.keys, tried.1.Insane k then
            (tried.1, some .afterSerialisation)
          else (tried.1, none)

/-- `deserializePeers`: the state it leaves, and its error. -/
def deserializePeers (env : AddrEnv) (now : Int) (a : AddrManager) :
    PeersFile → Except AddrPanic (AddrManager × Option PeersError)
  | .missing => .ok (a, none)
  | .malformed => .ok (a, some .errorReading)
  | .decoded sam =>
      if sam.version ≠ serialisationVersion then .ok (a, some (.unknownVersion sam.version))
      else
        match readAddresses env now sam.addresses { a with key := sam.key } with
        | .error p => .error p
        | .ok read =>
            match read.2 with
            | some e => .ok (read.1, some e)
            | none => .ok (readBuckets sam read.1)

/-- `reset`: a new index, new buckets and a new random key. The counters stay. -/
def reset (key : List UInt8) (a : AddrManager) : AddrManager :=
  { a with addrIndex := ∅, key, addrNew := fun _ => ∅, addrTried := fun _ => [] }

def loadPeers (env : AddrEnv) (now : Int) (key : List UInt8) (a : AddrManager)
    (file : PeersFile) : Except AddrPanic AddrManager :=
  match a.deserializePeers env now file with
  | .error p => .error p
  | .ok loaded =>
      match loaded.2 with
      | none => .ok loaded.1
      | some _ => .ok (loaded.1.reset key)

def new (key : List UInt8) : AddrManager where
  key := key
  addrIndex := ∅
  addrNew := fun _ => ∅
  addrTried := fun _ => []
  nTried := 0
  nNew := 0
  heap := fun _ => { na := ⟨0, 0, [], 0⟩, srcAddr := ⟨0, 0, [], 0⟩ }
  allocated := 0

end AddrManager

/-! ### Runs -/

/-- The calls of the address manager. -/
inductive AddrEvent
  | loadPeers (file : PeersFile) (now : Int) (key : List UInt8)
  | addAddress (addr srcAddr : NetAddress) (draw : Nat) (order : AddrOrder)
  | expireNew (bucket : Fin newBucketCount) (order : AddrOrder)
  | good (addr : NetAddress) (now : Int)
  | attempt (addr : NetAddress) (now : Int)
  | connected (addr : NetAddress) (now : Int)

/-- One call. `AddAddresses` is a sequence of them. -/
def AddrManager.step (env : AddrEnv) (a : AddrManager) : AddrEvent → Except AddrPanic AddrManager
  | .loadPeers file now key => a.loadPeers env now key file
  | .addAddress addr srcAddr draw order => a.updateAddress env addr srcAddr draw order
  | .expireNew bucket order => .ok (a.expireNew env bucket order)
  | .good addr now => a.good env addr now
  | .attempt addr now => .ok (a.attempt env addr now)
  | .connected addr now => .ok (a.connected env addr now)

/-- The order is one in which a `range` loop may visit the bucket. -/
def AddrManager.VisitsNew (a : AddrManager) (bucket : Fin newBucketCount) (order : AddrOrder) :
    Prop :=
  (↑(order.map Prod.fst) : Multiset AddrKey) = (a.addrNew bucket).keys.val
  deriving Decidable

/-- The visits that an event names are possible. -/
def AddrManager.Possible (env : AddrEnv) (a : AddrManager) : AddrEvent → Prop
  | .addAddress addr srcAddr _ order =>
      let bucket := a.getNewBucket env addr srcAddr
      (a.addrNew bucket).keys.card > newBucketSize → a.VisitsNew bucket order
  | .expireNew bucket order => a.VisitsNew bucket order
  | _ => True

instance AddrManager.decidablePossible (env : AddrEnv) (a : AddrManager) (event : AddrEvent) :
    Decidable (a.Possible env event) :=
  match event with
  | .addAddress _ _ _ _ => inferInstanceAs (Decidable (_ > newBucketSize → a.VisitsNew ..))
  | .expireNew _ _ => inferInstanceAs (Decidable (a.VisitsNew ..))
  | .loadPeers .. => isTrue trivial
  | .good .. => isTrue trivial
  | .attempt .. => isTrue trivial
  | .connected .. => isTrue trivial

end DrcNode
