import Datasystem.Master.ExpiredObjectManager

/-! Metadata of objects. Requests work on the entry of their key in the metadata table,
which they hold exclusively, on its row in the object store and on its timer; what they
do under one lock is one function here. Calls to workers and to the store are answered
from outside, so a function takes the answer as an argument. -/

namespace Datasystem.Master

open Common Lib Checked

inductive WriteMode
  | noneL2Cache
  | writeThroughL2Cache
  | writeBackL2Cache
  | noneL2CacheEvict
  | writeBackL2CacheEvict
deriving DecidableEq

inductive ConsistencyType
  | pram
  | causal
deriving DecidableEq

inductive DataFormat
  | binary
  | list
  | hashMap
  | hetero
deriving DecidableEq

inductive ExistenceOpt
  | none
  | nx
deriving DecidableEq

inductive AckState
  | unack
  | ack
deriving DecidableEq

structure ConfigPb where
  writeMode : WriteMode := .noneL2Cache
  dataFormat : DataFormat := .binary
  consistencyType : ConsistencyType := .pram
  isReplica : Bool := false
deriving DecidableEq

/-- A metadata message. Its key is that of the table or row it is stored under. -/
structure ObjectMetaPb where
  dataSize : Nat := 0
  version : Nat := 0
  lifeState : Nat := 0
  config : ConfigPb := {}
  primaryAddress : Bytes := []
  ttlSecond : Nat := 0
  existence : ExistenceOpt := .none
  blobSizes : List Nat := []
deriving DecidableEq

/-- An entry of the metadata table. -/
structure ObjectMeta where
  pb : ObjectMetaPb := {}
  value : Int := 0
  locations : OrderedMap Bytes AckState := .empty

structure ChangedMeta where
  newAddress : Bytes
  newVersion : Nat
  newDataSz : Nat
  newLifeState : Nat
  newBlobSizes : List Nat

/-- How `DoBinaryCacheInvalidationUnlocked` goes: the workers cannot be told, or the store fails
after the entry was changed, with its row written or not. -/
inductive Invalidation
  | notifyFailed (status : Status)
  | storeFailed (status : Status) (rowWritten : Bool)
  | done

namespace ObjectMeta

def isBinary (m : ObjectMeta) : Bool := m.pb.config.dataFormat = .binary

def setMetaInfo (newMeta : ObjectMetaPb) (address : Bytes) (version : Nat) : ObjectMeta :=
  { pb := { newMeta with version := version, primaryAddress := address }
    locations := OrderedMap.empty.insert address .ack }

/-- The local change of `DoBinaryCacheInvalidationUnlocked`. The TTL of the entry is left. -/
def change (prevMeta : ObjectMeta) (c : ChangedMeta) : ObjectMeta :=
  { prevMeta with
    locations := prevMeta.locations.insert c.newAddress .ack
    pb := { prevMeta.pb with
      version := c.newVersion
      lifeState := c.newLifeState
      primaryAddress := c.newAddress
      dataSize := c.newDataSz
      blobSizes := c.newBlobSizes } }

/-- The checks of `CheckBinaryFormatParamMatch` on an entry that is to be overwritten. -/
def checkBinaryFormatParamMatch (prevMeta : ObjectMeta) (newConfig : ConfigPb)
    (nestedKeysCanSet : Bool) : Result Unit := do
  checkFailReturnStatus
    (newConfig.dataFormat = .binary ∧ prevMeta.isBinary ∧
      newConfig.consistencyType = prevMeta.pb.config.consistencyType ∧
      newConfig.writeMode = prevMeta.pb.config.writeMode ∧
      newConfig.isReplica = prevMeta.pb.config.isReplica) .kInvalid
    "Inconsistency in publish or set cache whose key already exists in datasystem"
  checkFailReturnStatus nestedKeysCanSet .kRuntimeError "Nested keys not match"

end ObjectMeta

structure OCMetadataManager where
  metaTable : OrderedMap Bytes ObjectMeta := .empty
  /-- `META_TABLE` of the object store. -/
  rows : OrderedMap Bytes ObjectMetaPb := .empty
  isPersistenceEnabled : Bool := true
  expiredObjectManager : ExpiredObjectManager
  isDeletingObjs : Finset Bytes := ∅

namespace OCMetadataManager

/-- A master that starts with an empty store. -/
def start (hash : Bytes → Nat) : OCMetadataManager where
  expiredObjectManager := ⟨hash, fun _ => {}⟩

def putMeta (m : OCMetadataManager) (objectKey : Bytes) (entry : ObjectMeta) : OCMetadataManager :=
  { m with metaTable := m.metaTable.insert objectKey entry }

def eraseMeta (m : OCMetadataManager) (objectKey : Bytes) : OCMetadataManager :=
  { m with metaTable := m.metaTable.erase objectKey }

/-- `CreateOrUpdateMeta` of the store. -/
def createOrUpdateMeta (m : OCMetadataManager) (objectKey : Bytes) (pb : ObjectMetaPb) :
    OCMetadataManager :=
  if m.isPersistenceEnabled then { m with rows := m.rows.insert objectKey pb } else m

variable {m : OCMetadataManager} {objectKey : Bytes}

@[simp] theorem metaTable_createOrUpdateMeta
    {pb} : (m.createOrUpdateMeta objectKey pb).metaTable = m.metaTable := by
  unfold createOrUpdateMeta
  split <;> rfl

variable (m : OCMetadataManager) (objectKey : Bytes)

/-- `RemoveMeta` of the store. -/
def removeMeta : OCMetadataManager :=
  if m.isPersistenceEnabled then { m with rows := m.rows.erase objectKey } else m

@[simp] theorem metaTable_removeMeta : (m.removeMeta objectKey).metaTable = m.metaTable := by
  unfold removeMeta
  split <;> rfl

def withTimers (timers : ExpiredObjectManager) : OCMetadataManager :=
  { m with expiredObjectManager := timers }

/-- The key of an expired object counts as free. -/
def checkExistenceOpt (now : Nat) (objectKey : Bytes) (entry : ObjectMeta)
    (existence : ExistenceOpt) (firstOne : Bool) : Result Unit :=
  let noL2CacheAndNoCopy :=
    entry.locations.entries.isEmpty && entry.pb.config.writeMode = .noneL2Cache
  if !firstOne && existence = .nx && !noL2CacheAndNoCopy then
    checkFailReturnStatus (m.expiredObjectManager.isExpiredOrDeleting now objectKey)
      .kOcKeyAlreadyExist "object already exist"
  else pure ()

/-- `PersistCreatedMeta`, on an entry that its create has just inserted. -/
def persistCreatedMeta (newMeta : ObjectMetaPb)
    (address : Bytes) (version : Nat) : OCMetadataManager :=
  let metaCache := ObjectMeta.setMetaInfo newMeta address version
  (m.putMeta objectKey metaCache).createOrUpdateMeta objectKey metaCache.pb

/-- `InsertObject` as the last step of a request. -/
def insertTimer (version ttlSecond : Nat) : Result OCMetadataManager := do
  let timers ← m.expiredObjectManager.insertObject objectKey version ttlSecond false
  pure (m.withTimers timers)

def doBinaryCacheInvalidationUnlocked (prevMeta : ObjectMeta) (changed : ChangedMeta) :
    Invalidation → Result Unit × OCMetadataManager
  | .notifyFailed status => (.error status, m)
  | .storeFailed status rowWritten =>
    let entry := prevMeta.change changed
    let m := m.putMeta objectKey entry
    (.error status, if rowWritten then m.createOrUpdateMeta objectKey entry.pb else m)
  | .done =>
    let entry := prevMeta.change changed
    (.ok (), (m.putMeta objectKey entry).createOrUpdateMeta objectKey entry.pb)

/-- The rollback of a failed update: the old value lives on under its old deadline. -/
def rollbackTimer : Option Nat → OCMetadataManager
  | none => m
  | some oldDeadline =>
    m.withTimers (m.expiredObjectManager.restoreExpiryTaskIfAbsent objectKey oldDeadline)

/-- Erases a location from the entry of a key. -/
def eraseLocation (objectKey address : Bytes) : OCMetadataManager :=
  { m with
    metaTable := m.metaTable.modify objectKey fun entry =>
      { entry with locations := entry.locations.erase address } }

variable {m objectKey} in
theorem find?_eraseLocation {address k} : (m.eraseLocation objectKey address).metaTable.find? k =
      if k = objectKey then (m.metaTable.find? objectKey).map fun entry =>
        { entry with locations := entry.locations.erase address }
      else m.metaTable.find? k := by
  rw [eraseLocation, OrderedMap.find?_modify]
  by_cases h : k = objectKey <;> simp [h]

/-- What `Expire` does to the entry. -/
def setTtlSecond (ttlSecond : Nat) : OCMetadataManager :=
  { m with
    metaTable := m.metaTable.modify objectKey fun entry =>
      { entry with pb := { entry.pb with ttlSecond := ttlSecond } } }

end OCMetadataManager

end Datasystem.Master
