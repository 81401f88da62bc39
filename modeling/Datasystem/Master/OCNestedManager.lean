import Datasystem.Common.Bytes
import Datasystem.Common.Status
import Datasystem.Lib.CompositeKey
import Datasystem.Lib.OrderedMap

/-! Objects that are nested in others. A master keeps the children of each parent it owns and
counts, for each child it owns, the parents it is nested in; both are written to the store as
they change. -/

namespace Datasystem.Master

open Common Lib Checked

/-- `uint32_t` arithmetic. -/
def uint32 (n : Nat) : Nat := n % 2 ^ 32

/-- References to objects, counted or not. -/
structure ObjectRefInfo where
  isUniqueCnt : Bool := true
  objectKeys : OrderedMap Bytes Nat := .empty
deriving DecidableEq

namespace ObjectRefInfo

variable (info : ObjectRefInfo) (objectKey : Bytes)

def addRef (ref : Nat) : Bool × ObjectRefInfo :=
  match info.objectKeys.find? objectKey with
  | none => (true, { info with objectKeys := info.objectKeys.insert objectKey (uint32 ref) })
  | some count =>
    if info.isUniqueCnt then (false, info)
    else (true, { info with objectKeys := info.objectKeys.insert objectKey (uint32 (count + ref)) })

/-- A count of zero wraps around. -/
def removeRef : Bool × ObjectRefInfo :=
  match info.objectKeys.find? objectKey with
  | none => (false, info)
  | some count =>
    if info.isUniqueCnt ∨ uint32 (count + (2 ^ 32 - 1)) = 0 then
      (true, { info with objectKeys := info.objectKeys.erase objectKey })
    else
      (true, { info with
        objectKeys := info.objectKeys.insert objectKey (uint32 (count + (2 ^ 32 - 1))) })

def removeAllRefs : Bool × ObjectRefInfo :=
  ((info.objectKeys.find? objectKey).isSome,
    { info with objectKeys := info.objectKeys.erase objectKey })

def contains : Bool :=
  (info.objectKeys.find? objectKey).isSome

def getRefCount : Nat :=
  (info.objectKeys.find? objectKey).getD 0

def updateRefCount (count : Nat) : Result ObjectRefInfo :=
  if (info.objectKeys.find? objectKey).isSome ∧ info.isUniqueCnt ∧ 1 < count then
    .error ⟨.kDuplicated, "object key is marked to be unique"⟩
  else pure { info with objectKeys := info.objectKeys.insert objectKey count }

end ObjectRefInfo

structure OCNestedManager where
  dependencyTable : OrderedMap Bytes (OrderedSet Bytes) := .empty
  nestedRef : ObjectRefInfo := { isUniqueCnt := false }
  /-- `NESTED_TABLE` of the store. -/
  relationships : OrderedMap Bytes Bytes := .empty
  /-- `NESTED_COUNT_TABLE` of the store, with the numbers for their decimal texts. -/
  counts : OrderedMap Bytes Nat := .empty
deriving DecidableEq

namespace OCNestedManager

/-- The key of a row of `NESTED_TABLE`. -/
def relationshipKey (parentObjKey childObjKey : Bytes) : Bytes :=
  CompositeKey.join underscore parentObjKey childObjKey

/-! ## The store -/

variable (m : OCNestedManager) (parentObjectKey : Bytes)

def addNestedRelationship (parentObjKey childObjKey : Bytes) : OCNestedManager :=
  { m with relationships :=
      m.relationships.insert (relationshipKey parentObjKey childObjKey) childObjKey }

def removeNestedRelationship (parentObjKey childObjKey : Bytes) : OCNestedManager :=
  { m with relationships := m.relationships.erase (relationshipKey parentObjKey childObjKey) }

def updateNestedRefCount (objKey : Bytes) (count : Nat) : OCNestedManager :=
  { m with counts := m.counts.insert objKey count }

def removeNestedRefCount (objKey : Bytes) : OCNestedManager :=
  { m with counts := m.counts.erase objKey }

/-! ## The operations -/

/-- `IncreaseNestedRefCnt` of a parent. The rows of children it had before are left. -/
def increaseNestedRefCnt (nestedObjectKeys : OrderedSet Bytes) : OCNestedManager :=
  let m := nestedObjectKeys.elements.foldl
    (fun m id => m.addNestedRelationship parentObjectKey id) m
  { m with dependencyTable := m.dependencyTable.insert parentObjectKey nestedObjectKeys }

/-- `IncreaseNestedRefCnt` of a child. -/
def increaseNestedRefCntBy (nestedObjectKey : Bytes) (ref : Nat) : Result Unit × OCNestedManager :=
  let (added, nestedRef) := m.nestedRef.addRef nestedObjectKey ref
  let m := { m with nestedRef := nestedRef }
  if added then
    (.ok (), m.updateNestedRefCount nestedObjectKey (nestedRef.getRefCount nestedObjectKey))
  else (.error ⟨.kDuplicated, "object key is marked to be unique"⟩, m)

/-- `DecreaseNestedRefCnt` of a child. -/
def decreaseNestedRefCnt (nestedObjectKey : Bytes) : Result Unit × OCNestedManager :=
  let (removed, nestedRef) := m.nestedRef.removeRef nestedObjectKey
  let m := { m with nestedRef := nestedRef }
  let count := nestedRef.getRefCount nestedObjectKey
  if removed then
    (.ok (), if count ≠ 0 then m.updateNestedRefCount nestedObjectKey count
      else m.removeNestedRefCount nestedObjectKey)
  else (.error ⟨.kNotFound, "This Object had no dependencies"⟩, m)

/-- One child of `DecreaseNestedRefCnt` of a parent. The row of its count is not touched. -/
def decreaseChild (acc : List Bytes × OCNestedManager) (id : Bytes) :
    List Bytes × OCNestedManager :=
  let (zeroRefIds, m) := acc
  let m := { m with nestedRef := (m.nestedRef.removeRef id).2 }
  (if m.nestedRef.contains id then zeroRefIds else zeroRefIds ++ [id],
    m.removeNestedRelationship parentObjectKey id)

/-- `DecreaseNestedRefCnt` of a parent, with the children that no parent is left of. -/
def decreaseNestedRefCntOf : List Bytes × OCNestedManager :=
  match m.dependencyTable.find? parentObjectKey with
  | none => ([], m)
  | some nested =>
    let (zeroRefIds, m) := nested.elements.foldl (decreaseChild parentObjectKey) ([], m)
    (zeroRefIds, { m with dependencyTable := m.dependencyTable.erase parentObjectKey })

def removeRelationshipData : OCNestedManager :=
  match m.dependencyTable.find? parentObjectKey with
  | none => m
  | some nested =>
    let m := nested.elements.foldl (fun m id => m.removeNestedRelationship parentObjectKey id) m
    { m with dependencyTable := m.dependencyTable.erase parentObjectKey }

def removeMigratedRefCount (key : Bytes) : OCNestedManager :=
  let (removed, nestedRef) := m.nestedRef.removeAllRefs key
  let m := { m with nestedRef := nestedRef }
  if removed then m.removeNestedRefCount key else m

/-- One key of `RemoveNestIdsRef`. The row goes even if some count is left. -/
def removeNestIdRef (id : Bytes) : OCNestedManager :=
  let (removed, nestedRef) := m.nestedRef.removeRef id
  let m := { m with nestedRef := nestedRef }
  if removed then m.removeNestedRefCount id else m

def removeNestIdsRef (nestedKeys : List Bytes) : OCNestedManager :=
  nestedKeys.foldl removeNestIdRef m

/-! ## Recovery -/

/-- One row of `NESTED_TABLE`, split at its last underscore. -/
def recoverRelationship (row : Bytes × Bytes) : Result OCNestedManager :=
  match CompositeKey.splitLast underscore row.1 with
  | none => .error ⟨.kRuntimeError, "Parse key to parentId failed"⟩
  | some (parentId, _) =>
    pure { m with dependencyTable :=
      m.dependencyTable.alter parentId fun nested => (nested.getD .empty).insert row.2 }

/-- One row of `NESTED_COUNT_TABLE`, read as an `int`. -/
def recoverCount (row : Bytes × Nat) : Result OCNestedManager := do
  checkFailReturnStatus (row.2 < 2 ^ 31) .kInvalid "Parse failed with count"
  let nestedRef ← m.nestedRef.updateRefCount row.1 row.2
  pure { m with nestedRef := nestedRef }

/-- `RecoverRelationshipData` into a new manager over the same store. -/
def recoverRelationshipData : Result OCNestedManager := do
  let recovered ← m.relationships.entries.foldlM recoverRelationship
    { relationships := m.relationships, counts := m.counts }
  m.counts.entries.foldlM recoverCount recovered

end OCNestedManager

end Datasystem.Master
