import Datasystem.Common.Bytes
import Datasystem.Common.Status
import Datasystem.Lib.CompositeKey
import Datasystem.Lib.OrderedMap

/-! Operations that a master still has to bring to other nodes. They are kept by worker and
object key, several of them merged into one entry, and each entry has a row in the store. -/

namespace Datasystem.Master

open Common Lib Checked OrderedMap

/-- The five flags of the enumeration and their combinations. Even bits are for workers, odd
bits for masters. -/
abbrev NotifyWorkerOpType := BitVec 5

instance lawfulBEq_notifyWorkerOpType : LawfulBEq NotifyWorkerOpType := inferInstance

namespace NotifyWorkerOpType

def primaryCopyInvalid : NotifyWorkerOpType := 0b00001#5
def cacheInvalid : NotifyWorkerOpType := 0b00100#5
def delete : NotifyWorkerOpType := 0b10000#5
def removeMeta : NotifyWorkerOpType := 0b00010#5
def deleteAllCopyMeta : NotifyWorkerOpType := 0b01000#5

/-- The enumerators. -/
def kinds : List NotifyWorkerOpType :=
  [primaryCopyInvalid, cacheInvalid, delete, removeMeta, deleteAllCopyMeta]

/-- `TESTFLAG` -/
def testFlag (lhs rhs : NotifyWorkerOpType) : Bool := lhs &&& rhs = rhs

/-- `SETFLAG` -/
def setFlag (target source : NotifyWorkerOpType) : NotifyWorkerOpType := target ||| source

/-- `CLEARFLAG` -/
def clearFlag (target source : NotifyWorkerOpType) : NotifyWorkerOpType := target &&& ~~~source

def clearNotifyWorkerOp (type : NotifyWorkerOpType) : NotifyWorkerOpType := type &&& 0b01010#5

def clearNotifyMasterOp (type : NotifyWorkerOpType) : NotifyWorkerOpType := type &&& 0b10101#5

end NotifyWorkerOpType

open NotifyWorkerOpType

structure NotifyWorkerOp where
  type : NotifyWorkerOpType
  removeMetaVersion : Int := 0
  removeMetaAzNames : OrderedSet Bytes := .empty
  deleteAllCopyMetaVersion : Int := 0
  deleteAllCopyMetaAzNames : OrderedSet Bytes := .empty
  delObjectVersion : Int := 0
deriving DecidableEq

structure NotifyWorkerOpEntry where
  op : NotifyWorkerOp
  epoch : Nat := 0
deriving DecidableEq

structure AsyncWorkerOpSnapshot where
  objectKey : Bytes
  op : NotifyWorkerOp
  epoch : Nat
deriving DecidableEq

/-- The entry an insertion was prepared for, if there was one, and what is to be written. -/
structure AsyncWorkerOpInsertSnapshot where
  op : NotifyWorkerOp
  expectedEpoch : Nat := 0
  entryExists : Bool := false

inductive AsyncWorkerOpPersistAction
  | add
  | remove
deriving DecidableEq

structure AsyncWorkerOpPersistRequest where
  action : AsyncWorkerOpPersistAction
  workerId : Bytes
  objectKey : Bytes
  op : NotifyWorkerOp
  expectedEpoch : Nat

structure OCNotifyWorkerManager where
  notifyWorkerOpTable : OrderedMap Bytes (OrderedMap Bytes NotifyWorkerOpEntry) := .empty
  notifyWorkerOpEpoch : Nat := 0
  /-- Workers that are not healthy, with whether they are dead. -/
  faultWorkers : OrderedMap Bytes Bool := .empty
  /-- `ASYNC_WORKER_OP_TABLE` of the store. -/
  asyncWorkerOps : OrderedMap Bytes NotifyWorkerOp := .empty
deriving DecidableEq

namespace OCNotifyWorkerManager

/-- The key of a row of `ASYNC_WORKER_OP_TABLE`. -/
def asyncWorkerOpKey (workerAddr objectKey : Bytes) : Bytes :=
  CompositeKey.join underscore workerAddr objectKey

variable (m : OCNotifyWorkerManager) (workerId objectKey : Bytes) (op : NotifyWorkerOp)
  (workerAddr : Bytes)

def isWorkerDead : Bool :=
  (m.faultWorkers.find? workerAddr).getD false

/-- The entry of an object under a worker. -/
def entryOf : Option NotifyWorkerOpEntry :=
  (m.notifyWorkerOpTable.find? workerId).bind (·.find? objectKey)

/-- Puts an entry with the next epoch. -/
def putEntry : OCNotifyWorkerManager :=
  { m with
    notifyWorkerOpTable := m.notifyWorkerOpTable.alter workerId fun objectKeys =>
      (objectKeys.getD .empty).insert objectKey ⟨op, m.notifyWorkerOpEpoch + 1⟩
    notifyWorkerOpEpoch := m.notifyWorkerOpEpoch + 1 }

def eraseEntry : OCNotifyWorkerManager :=
  { m with notifyWorkerOpTable := m.notifyWorkerOpTable.modify workerId (·.erase objectKey) }

/-! ## The store -/

def addAsyncWorkerOp (workerAddr objectKey : Bytes) (op : NotifyWorkerOp) : OCNotifyWorkerManager :=
  { m with asyncWorkerOps := m.asyncWorkerOps.insert (asyncWorkerOpKey workerAddr objectKey) op }

def removeStoredAsyncWorkerOp (workerAddr objectKey : Bytes) : OCNotifyWorkerManager :=
  { m with asyncWorkerOps := m.asyncWorkerOps.erase (asyncWorkerOpKey workerAddr objectKey) }

/-- `ParseNotifyWorkerOpFromL2Cache`: only the data of operations that are there is read. -/
def parseNotifyWorkerOpFromL2Cache : NotifyWorkerOp where
  type := op.type
  removeMetaVersion := if testFlag op.type removeMeta then op.removeMetaVersion else 0
  removeMetaAzNames := if testFlag op.type removeMeta then op.removeMetaAzNames else .empty
  deleteAllCopyMetaVersion :=
    if testFlag op.type deleteAllCopyMeta then op.deleteAllCopyMetaVersion else 0
  deleteAllCopyMetaAzNames :=
    if testFlag op.type deleteAllCopyMeta then op.deleteAllCopyMetaAzNames else .empty
  delObjectVersion := if testFlag op.type delete then op.delObjectVersion else 0

/-! ## Insertion -/

/-- The part of an operation that is for masters. -/
def mergeMasterOp (entry op : NotifyWorkerOp) : NotifyWorkerOp :=
  if clearNotifyWorkerOp op.type = 0 then entry
  else
    let entry := { entry with type := setFlag entry.type (clearNotifyWorkerOp op.type) }
    let entry :=
      if testFlag op.type removeMeta then
        { entry with
          removeMetaVersion := op.removeMetaVersion
          removeMetaAzNames := op.removeMetaAzNames.elements.foldl .insert entry.removeMetaAzNames }
      else entry
    if testFlag op.type deleteAllCopyMeta then
      { entry with
        deleteAllCopyMetaVersion := op.deleteAllCopyMetaVersion
        deleteAllCopyMetaAzNames :=
          op.deleteAllCopyMetaAzNames.elements.foldl .insert entry.deleteAllCopyMetaAzNames }
    else entry

/-- An operation for the worker replaces only a lesser one. -/
def mergeAsyncWorkerOpEntry (entry op : NotifyWorkerOp) : NotifyWorkerOp :=
  let entry := mergeMasterOp entry op
  if clearNotifyMasterOp op.type = 0 then entry
  else
    let entry :=
      if testFlag op.type delete then
        { entry with delObjectVersion := max entry.delObjectVersion op.delObjectVersion }
      else entry
    let currWorkerOp := clearNotifyMasterOp entry.type
    if op.type ≤ currWorkerOp then entry
    else { entry with type := setFlag (clearFlag entry.type currWorkerOp) op.type }

/-- Nothing is prepared for a dead worker. -/
def prepareAsyncWorkerOpInsert : Option AsyncWorkerOpInsertSnapshot :=
  if m.isWorkerDead workerId then none
  else
    match m.entryOf workerId objectKey with
    | none => some { op := op }
    | some entry =>
      some { op := mergeAsyncWorkerOpEntry entry.op op, expectedEpoch := entry.epoch,
             entryExists := true }

/-- Whether the insertion is to be prepared again, and the manager after it. -/
def publishPersistedAsyncWorkerOp
    (snapshot : AsyncWorkerOpInsertSnapshot) : Bool × OCNotifyWorkerManager :=
  if m.isWorkerDead workerId then (false, m.removeStoredAsyncWorkerOp workerId objectKey)
  else if snapshot.entryExists then
    match m.entryOf workerId objectKey with
    | none => (true, m)
    | some entry =>
      if entry.epoch ≠ snapshot.expectedEpoch then (true, m)
      else (false, m.putEntry workerId objectKey snapshot.op)
  else if (m.entryOf workerId objectKey).isSome then (true, m)
  else (false, m.putEntry workerId objectKey snapshot.op)

/-- The first round of the loop. All that changes the table holds the lock of the loop, so there
is no other round: `publish_of_prepare`. -/
def insertAsyncWorkerOpWithPersistence : OCNotifyWorkerManager :=
  match m.prepareAsyncWorkerOpInsert workerId objectKey op with
  | none => m
  | some snapshot =>
    ((m.addAsyncWorkerOp workerId objectKey snapshot.op).publishPersistedAsyncWorkerOp
      workerId objectKey snapshot).2

def insertAsyncWorkerOpWithoutPersistence : OCNotifyWorkerManager :=
  if m.isWorkerDead workerId then m
  else
    match m.entryOf workerId objectKey with
    | none => m.putEntry workerId objectKey op
    | some entry => m.putEntry workerId objectKey (mergeAsyncWorkerOpEntry entry.op op)

def insertAsyncWorkerOp (needPersist : Bool) : OCNotifyWorkerManager :=
  if needPersist then m.insertAsyncWorkerOpWithPersistence workerId objectKey op
  else m.insertAsyncWorkerOpWithoutPersistence workerId objectKey op

/-! ## Removal -/

/-- One request of `CommitAsyncWorkerOpRequests` in the store. -/
def storeRequest (request : AsyncWorkerOpPersistRequest) : OCNotifyWorkerManager :=
  match request.action with
  | .remove => m.removeStoredAsyncWorkerOp request.workerId request.objectKey
  | .add => m.addAsyncWorkerOp request.workerId request.objectKey request.op

/-- One request of `CommitAsyncWorkerOpRequests` in the table, if the entry is still the one it
was made for. -/
def applyRequest (request : AsyncWorkerOpPersistRequest) : OCNotifyWorkerManager :=
  match m.entryOf request.workerId request.objectKey with
  | none => m
  | some entry =>
    if entry.epoch ≠ request.expectedEpoch then m
    else
      match request.action with
      | .remove => m.eraseEntry request.workerId request.objectKey
      | .add => m.putEntry request.workerId request.objectKey request.op

def commitAsyncWorkerOpRequests
    (requests : List AsyncWorkerOpPersistRequest) : OCNotifyWorkerManager :=
  requests.foldl applyRequest (requests.foldl storeRequest m)

/-- The request that clears flags of an entry, if that changes it. -/
def clearRequest (entry : NotifyWorkerOpEntry)
    (flags : NotifyWorkerOpType) : Option AsyncWorkerOpPersistRequest :=
  let afterModify := clearFlag entry.op.type flags
  if afterModify = 0 then some ⟨.remove, workerId, objectKey, { type := 0 }, entry.epoch⟩
  else if entry.op.type ≠ afterModify then
    some ⟨.add, workerId, objectKey, { entry.op with type := afterModify }, entry.epoch⟩
  else none

def removeAsyncWorkerOp (workerId : Bytes) (objectKeys : List Bytes)
    (op : NotifyWorkerOpType) : OCNotifyWorkerManager :=
  m.commitAsyncWorkerOpRequests <| objectKeys.filterMap fun id =>
    (m.entryOf workerId id).bind fun entry => clearRequest workerId id entry op

/-- The request for one snapshot that was brought to the worker. -/
def snapshotRequest (snapshot : AsyncWorkerOpSnapshot) : Option AsyncWorkerOpPersistRequest :=
  (m.entryOf workerAddr snapshot.objectKey).bind fun entry =>
    if entry.epoch ≠ snapshot.epoch ∨ clearNotifyMasterOp snapshot.op.type = 0 then none
    else clearRequest workerAddr snapshot.objectKey entry (clearNotifyMasterOp snapshot.op.type)

def clearAsyncWorkerOpSnapshots (snapshots : List AsyncWorkerOpSnapshot) : OCNotifyWorkerManager :=
  m.commitAsyncWorkerOpRequests (snapshots.filterMap (m.snapshotRequest workerAddr))

/-! ## Recovery -/

/-- One row of `RestoreAsyncWorkerOps`, split at its first underscore. -/
def restoreAsyncWorkerOp (info : Bytes × NotifyWorkerOp) : OCNotifyWorkerManager :=
  match CompositeKey.splitFirst underscore info.1 with
  | none => m
  | some (workerId, objectKey) =>
    let op := parseNotifyWorkerOpFromL2Cache info.2
    let m :=
      if testFlag op.type cacheInvalid then
        m.insertAsyncWorkerOp workerId objectKey { type := cacheInvalid } false
      else m
    let m :=
      if testFlag op.type removeMeta then
        m.insertAsyncWorkerOp workerId objectKey
          { type := removeMeta, removeMetaVersion := op.removeMetaVersion } false
      else m
    if testFlag op.type delete then
      m.insertAsyncWorkerOp workerId objectKey
        { type := delete, delObjectVersion := op.delObjectVersion } false
    else m

/-- `RecoverCacheInvalidAndRemoveMeta` into an empty table over the same store. -/
def recoverCacheInvalidAndRemoveMeta : OCNotifyWorkerManager :=
  m.asyncWorkerOps.entries.foldl restoreAsyncWorkerOp
    { faultWorkers := m.faultWorkers, asyncWorkerOps := m.asyncWorkerOps }

/-! ## What the parts change -/

/-- What `mergeAsyncWorkerOpEntry` does to the flags. -/
def mergeType (type op : NotifyWorkerOpType) : NotifyWorkerOpType :=
  let type := setFlag type (clearNotifyWorkerOp op)
  let currWorkerOp := clearNotifyMasterOp type
  if clearNotifyMasterOp op = 0 ∨ op ≤ currWorkerOp then type
  else setFlag (clearFlag type currWorkerOp) op

theorem type_mergeMasterOp (entry op) :
    (mergeMasterOp entry op).type = setFlag entry.type (clearNotifyWorkerOp op.type) := by
  unfold mergeMasterOp
  split
  · rename_i h
    simp [h, setFlag]
  · split <;> split <;> rfl

theorem type_mergeAsyncWorkerOpEntry (entry op) :
    (mergeAsyncWorkerOpEntry entry op).type = mergeType entry.type op.type := by
  have htype : ∀ entry : NotifyWorkerOp, (if testFlag op.type delete then
      { entry with delObjectVersion := max entry.delObjectVersion op.delObjectVersion }
      else entry).type = entry.type := by
    intro entry
    split <;> rfl
  unfold mergeAsyncWorkerOpEntry mergeType
  rw [← type_mergeMasterOp]
  by_cases hworker : clearNotifyMasterOp op.type = 0
  · simp [hworker]
  · simp only [hworker, if_false, false_or, htype]
    split
    · exact htype _
    · rfl

variable {m : OCNotifyWorkerManager} {w w' k k' : Bytes} {op : NotifyWorkerOp}

theorem entryOf_putEntry : (m.putEntry w k op).entryOf w' k' =
    if w' = w ∧ k' = k then some ⟨op, m.notifyWorkerOpEpoch + 1⟩ else m.entryOf w' k' := by
  simp only [entryOf, putEntry]
  rw [find?_alter]
  by_cases hw : w' = w
  · subst hw
    by_cases hk : k' = k
    · subst hk
      simp [find?_insert]
    · cases m.notifyWorkerOpTable.find? w' <;> simp [find?_insert, hk]
  · simp [hw]

theorem entryOf_eraseEntry : (m.eraseEntry w k).entryOf w' k' =
    if w' = w ∧ k' = k then none else m.entryOf w' k' := by
  simp only [entryOf, eraseEntry]
  rw [find?_modify]
  by_cases hw : w' = w
  · subst hw
    cases m.notifyWorkerOpTable.find? w' <;> by_cases hk : k' = k <;>
      simp [find?_erase, hk]
  · simp [hw]

/-- An insertion is published on its first round. -/
theorem publish_of_prepare {snapshot} (h : m.prepareAsyncWorkerOpInsert w k op = some snapshot) :
    (m.addAsyncWorkerOp w k snapshot.op).publishPersistedAsyncWorkerOp w k snapshot =
      (false, (m.addAsyncWorkerOp w k snapshot.op).putEntry w k snapshot.op) := by
  have hentry : (m.addAsyncWorkerOp w k snapshot.op).entryOf w k = m.entryOf w k := rfl
  have hdead : (m.addAsyncWorkerOp w k snapshot.op).isWorkerDead w = m.isWorkerDead w := rfl
  unfold prepareAsyncWorkerOpInsert at h
  split at h
  · cases h
  · rename_i halive
    cases hfind : m.entryOf w k <;> rw [hfind] at h <;> cases h <;>
      simp [publishPersistedAsyncWorkerOp, hdead, halive, hentry, hfind]

/-- What an insertion leaves under its worker and key. -/
def mergedOp (m : OCNotifyWorkerManager) (workerId objectKey : Bytes) (op : NotifyWorkerOp) :
    NotifyWorkerOp :=
  match m.entryOf workerId objectKey with
  | none => op
  | some entry => mergeAsyncWorkerOpEntry entry.op op

theorem insertAsyncWorkerOpWithPersistence_eq (h : m.isWorkerDead w = false) :
    m.insertAsyncWorkerOpWithPersistence w k op =
      (m.addAsyncWorkerOp w k (m.mergedOp w k op)).putEntry w k (m.mergedOp w k op) := by
  unfold insertAsyncWorkerOpWithPersistence
  cases hprepare : m.prepareAsyncWorkerOpInsert w k op with
  | none =>
    unfold prepareAsyncWorkerOpInsert at hprepare
    rw [h] at hprepare
    cases hfind : m.entryOf w k <;> simp [hfind] at hprepare
  | some snapshot =>
    have hop : snapshot.op = m.mergedOp w k op := by
      unfold prepareAsyncWorkerOpInsert at hprepare
      rw [h] at hprepare
      unfold mergedOp
      cases hfind : m.entryOf w k <;> simp only [hfind] at hprepare <;> cases hprepare <;> rfl
    dsimp only
    rw [publish_of_prepare hprepare, hop]

theorem insertAsyncWorkerOpWithoutPersistence_eq (h : m.isWorkerDead w = false) :
    m.insertAsyncWorkerOpWithoutPersistence w k op = m.putEntry w k (m.mergedOp w k op) := by
  unfold insertAsyncWorkerOpWithoutPersistence mergedOp
  rw [h]
  cases m.entryOf w k <;> rfl

/-- The operations under a worker and a key, with their data. -/
def op? (m : OCNotifyWorkerManager) (w k : Bytes) : Option NotifyWorkerOp :=
  (m.entryOf w k).map NotifyWorkerOpEntry.op

theorem op?_putEntry : (m.putEntry w k op).op? w' k' =
    if w' = w ∧ k' = k then some op else m.op? w' k' := by
  rw [op?, entryOf_putEntry, op?]
  split <;> rfl

theorem op?_eraseEntry : (m.eraseEntry w k).op? w' k' =
    if w' = w ∧ k' = k then none else m.op? w' k' := by
  rw [op?, entryOf_eraseEntry, op?]
  split <;> rfl

/-- An operation merged into what is there, if anything is. -/
def insertedOp (current : Option NotifyWorkerOp) (op : NotifyWorkerOp) : Option NotifyWorkerOp :=
  some (match current with
    | none => op
    | some entry => mergeAsyncWorkerOpEntry entry op)

theorem op?_insertAsyncWorkerOp {needPersist} (halive : m.isWorkerDead w = false) :
    (m.insertAsyncWorkerOp w k op needPersist).op? w' k' =
      if w' = w ∧ k' = k then insertedOp (m.op? w k) op else m.op? w' k' := by
  have hmerged : some (m.mergedOp w k op) = insertedOp (m.op? w k) op := by
    unfold mergedOp insertedOp op?
    cases m.entryOf w k <;> rfl
  rw [← hmerged]
  unfold insertAsyncWorkerOp
  cases needPersist
  · rw [if_neg (by simp), insertAsyncWorkerOpWithoutPersistence_eq halive]
    exact op?_putEntry
  · rw [if_pos rfl, insertAsyncWorkerOpWithPersistence_eq halive]
    exact op?_putEntry

theorem isWorkerDead_insertAsyncWorkerOp {needPersist} (halive : m.isWorkerDead w = false) :
    (m.insertAsyncWorkerOp w k op needPersist).isWorkerDead w' = m.isWorkerDead w' := by
  unfold insertAsyncWorkerOp
  cases needPersist
  · rw [if_neg (by simp), insertAsyncWorkerOpWithoutPersistence_eq halive]
    rfl
  · rw [if_pos rfl, insertAsyncWorkerOpWithPersistence_eq halive]
    rfl

end OCNotifyWorkerManager

end Datasystem.Master
