import Datasystem.Common.Bytes
import Datasystem.Common.Status
import Datasystem.Lib.OrderedMap

/-! The timers of objects with a TTL. Keys are spread over shards, each behind its own
lock, and every function here is what happens under one of these locks. A shard keeps
its timers ordered by time and, for each key, an iterator to the key's timer; a pass
that deletes expired objects takes timers out and marks their keys until it is done. -/

namespace Datasystem.Master

open Common Lib Checked

def uint64Max : Nat := 2 ^ 64 - 1

/-- An iterator of `timedObj`: a node of the multimap, with the time it is filed under. -/
structure TimedNode where
  node : Nat
  expireTime : Nat
deriving DecidableEq

structure FailedObjectInfo where
  retryCount : Nat := 0
  expireTime : Nat := 0
deriving DecidableEq

structure ExpiredShard where
  timedObj : List (TimedNode × Bytes) := []
  obj2Timed : OrderedMap Bytes TimedNode := .empty
  failedObjects : OrderedMap Bytes FailedObjectInfo := .empty
  readyExpiredObjects : Finset Bytes := ∅
  /-- Numbers the nodes of `timedObj`. -/
  nextNode : Nat := 0

/-- The time in microseconds at which an object of some version expires. It saturates. -/
def calcExpireTime (version ttlSecond : Nat) : Nat :=
  if uint64Max / 1000000 < ttlSecond then uint64Max
  else if uint64Max - ttlSecond * 1000000 < version then uint64Max
  else version + ttlSecond * 1000000

namespace ExpiredShard

def kBeingDeletedMark : String := "is being deleted, please try again."

/-- Nodes of equal times stay in the order in which they came. -/
def fileNode (timedObj : List (TimedNode × Bytes)) (node : TimedNode) (objectKey : Bytes) :
    List (TimedNode × Bytes) :=
  timedObj.orderedInsert (fun a b => a.1.expireTime < b.1.expireTime) (node, objectKey)

variable (s : ExpiredShard) (objectKey : Bytes)

/-- File a timer and point the key at it. A timer the key has had stays where it is. -/
def fileTimer (expiredTime : Nat) : ExpiredShard :=
  { s with
    timedObj := fileNode s.timedObj ⟨s.nextNode, expiredTime⟩ objectKey
    obj2Timed := s.obj2Timed.insert objectKey ⟨s.nextNode, expiredTime⟩
    nextNode := s.nextNode + 1 }

variable (version ttlSecond : Nat)

def insertObjectUnlock : ExpiredShard :=
  s.fileTimer objectKey (calcExpireTime version ttlSecond)

def removeObjectIfExistUnlock : ExpiredShard :=
  match s.obj2Timed.find? objectKey with
  | none => { s with failedObjects := s.failedObjects.erase objectKey }
  | some node =>
    { s with
      timedObj := s.timedObj.erase (node, objectKey)
      obj2Timed := s.obj2Timed.erase objectKey
      failedObjects := s.failedObjects.erase objectKey }

def checkObjectInAsyncDelete (code : StatusCode) : Result Unit :=
  checkFailReturnStatus (objectKey ∉ s.readyExpiredObjects) code kBeingDeletedMark

def insertObject (acceptZero : Bool) : Result ExpiredShard :=
  if !acceptZero && ttlSecond == 0 then pure s
  else do
    s.checkObjectInAsyncDelete objectKey .kRuntimeError
    pure ((s.removeObjectIfExistUnlock objectKey).insertObjectUnlock objectKey version ttlSecond)

def removeObjectIfExist : Result ExpiredShard := do
  s.checkObjectInAsyncDelete objectKey .kTryAgain
  pure (s.removeObjectIfExistUnlock objectKey)

/-- The deadline of the timer that was removed, none if there was no timer. -/
def removeObjectIfExistAndGetDeadline : Result (Option Nat × ExpiredShard) := do
  s.checkObjectInAsyncDelete objectKey .kTryAgain
  pure ((s.obj2Timed.find? objectKey).map TimedNode.expireTime,
    s.removeObjectIfExistUnlock objectKey)

def restoreExpiryTaskIfAbsent (deadline : Nat) : ExpiredShard :=
  match s.obj2Timed.find? objectKey with
  | none => s.insertObjectUnlock objectKey deadline 0
  | some _ => s

def isExpiredOrDeleting (now : Nat) (objectKey : Bytes) : Bool :=
  match s.obj2Timed.find? objectKey with
  | some node => node.expireTime ≤ now
  | none => objectKey ∈ s.readyExpiredObjects

end ExpiredShard

def kExpiredShardCount : Nat := 64

structure ExpiredObjectManager where
  /-- `std::hash`. -/
  hash : Bytes → Nat
  shards : Fin kExpiredShardCount → ExpiredShard

namespace ExpiredObjectManager

variable (m : ExpiredObjectManager) (objectKey : Bytes)

def getShardIndex : Fin kExpiredShardCount :=
  ⟨m.hash objectKey % kExpiredShardCount, Nat.mod_lt _ (by decide)⟩

def shard : ExpiredShard :=
  m.shards (m.getShardIndex objectKey)

/-- The manager after a section under the lock of one shard. -/
def setShard (s : ExpiredShard) : ExpiredObjectManager :=
  { m with shards := Function.update m.shards (m.getShardIndex objectKey) s }

variable (m : ExpiredObjectManager) (objectKey : Bytes)

def insertObject (version ttlSecond : Nat) (acceptZero : Bool) : Result ExpiredObjectManager := do
  let s ← (m.shard objectKey).insertObject objectKey version ttlSecond acceptZero
  pure (m.setShard objectKey s)

def removeObjectIfExist :
    Result ExpiredObjectManager := do
  let s ← (m.shard objectKey).removeObjectIfExist objectKey
  pure (m.setShard objectKey s)

def removeObjectIfExistAndGetDeadline :
    Result (Option Nat × ExpiredObjectManager) := do
  let (deadline, s) ← (m.shard objectKey).removeObjectIfExistAndGetDeadline objectKey
  pure (deadline, m.setShard objectKey s)

def restoreExpiryTaskIfAbsent (deadline : Nat) :
    ExpiredObjectManager :=
  m.setShard objectKey ((m.shard objectKey).restoreExpiryTaskIfAbsent objectKey deadline)

def isExpiredOrDeleting (now : Nat) (objectKey : Bytes) : Bool :=
  (m.shard objectKey).isExpiredOrDeleting now objectKey

def reloadExpireObjects (objects : List (Bytes × Nat × Nat)) : ExpiredObjectManager :=
  objects.foldl
    (fun m (objectKey, version, ttlSecond) =>
      m.setShard objectKey ((m.shard objectKey).insertObjectUnlock objectKey version ttlSecond)) m

end ExpiredObjectManager

/-! ## The timers of one key -/

/-- All that a shard holds of a key. -/
@[ext] structure KeyTimers where
  timers : Multiset TimedNode
  index : Option TimedNode
  failed : Option FailedObjectInfo
  ready : Prop

namespace KeyTimers

variable (v : KeyTimers) (node : TimedNode)

/-- What is left of a key whose timer was removed. -/
def remove : KeyTimers :=
  { v with
    timers := v.index.elim v.timers v.timers.erase
    index := none
    failed := none }

def file : KeyTimers :=
  { v with timers := node ::ₘ v.timers, index := some node }

end KeyTimers

namespace ExpiredShard

variable {s : ExpiredShard} {objectKey key : Bytes}

def view (s : ExpiredShard) (key : Bytes) : KeyTimers where
  timers := ((s.timedObj.filter fun t => t.2 = key).map Prod.fst : List TimedNode)
  index := s.obj2Timed.find? key
  failed := s.failedObjects.find? key
  ready := key ∈ s.readyExpiredObjects

theorem view_fileTimer (expiredTime : Nat) : (s.fileTimer objectKey expiredTime).view key =
      if key = objectKey then (s.view key).file ⟨s.nextNode, expiredTime⟩ else s.view key := by
  have hfile : (fileNode s.timedObj ⟨s.nextNode, expiredTime⟩ objectKey).Perm _ :=
    List.perm_orderedInsert _ _ _
  have hperm := (hfile.filter fun t : TimedNode × Bytes => t.2 = key).map Prod.fst
  have htimers := Multiset.coe_eq_coe.mpr hperm
  split
  · rename_i hkey
    subst hkey
    ext1
    · exact htimers.trans (by simp [KeyTimers.file, view])
    · simp [view, fileTimer, KeyTimers.file, OrderedMap.find?_insert]
    · rfl
    · rfl
  · rename_i hkey
    ext1
    · exact htimers.trans (by simp [view, Ne.symm hkey])
    · simp [view, fileTimer, OrderedMap.find?_insert, hkey]
    · rfl
    · rfl

theorem timers_erase (timedObj : List (TimedNode × Bytes)) (node : TimedNode) :
    (((timedObj.erase (node, objectKey)).filter fun t => t.2 = key).map Prod.fst :
        Multiset TimedNode) =
      if key = objectKey then
        ((timedObj.filter fun t => t.2 = key).map Prod.fst : Multiset TimedNode).erase node
      else ((timedObj.filter fun t => t.2 = key).map Prod.fst : List TimedNode) := by
  induction timedObj with
  | nil => simp
  | cons t rest ih =>
    obtain ⟨n, k⟩ := t
    rw [List.erase_cons]
    by_cases hhead : (n, k) = (node, objectKey)
    · cases hhead
      by_cases hkey : key = objectKey
      · simp [hkey]
      · simp [hkey, Ne.symm hkey]
    · have hbeq : ((n, k) == (node, objectKey)) = false := by simpa using hhead
      rw [hbeq]
      by_cases hk : k = key
      · subst hk
        by_cases hkey : k = objectKey
        · subst hkey
          have hne : n ≠ node := fun h => hhead (by rw [h])
          simp_all
        · simp_all
      · simp_all

theorem view_removeObjectIfExistUnlock : (s.removeObjectIfExistUnlock objectKey).view key =
      if key = objectKey then (s.view key).remove else s.view key := by
  unfold removeObjectIfExistUnlock
  split
  · rename_i hnone
    by_cases hkey : key = objectKey
    · subst hkey
      simp [view, KeyTimers.remove, hnone, OrderedMap.find?_erase]
    · simp [view, hkey, OrderedMap.find?_erase]
  · rename_i node hsome
    by_cases hkey : key = objectKey
    · subst hkey
      simp [view, KeyTimers.remove, hsome, OrderedMap.find?_erase, timers_erase]
    · simp [view, hkey, OrderedMap.find?_erase, timers_erase]

end ExpiredShard

namespace ExpiredObjectManager

variable {m m' : ExpiredObjectManager} {objectKey key : Bytes}

def view (m : ExpiredObjectManager) (key : Bytes) : KeyTimers := (m.shard key).view key

/-- A section that works on one key leaves all others alone, in its shard or not. -/
theorem view_setShard {s : ExpiredShard} {f : KeyTimers → KeyTimers}
    (h : ∀ key, s.view key = if key = objectKey then f ((m.shard objectKey).view key)
      else (m.shard objectKey).view key) :
    (m.setShard objectKey s).view key = if key = objectKey then f (m.view key) else m.view key := by
  have hshard : (m.setShard objectKey s).shard key =
      if m.getShardIndex key = m.getShardIndex objectKey then s else m.shard key :=
    Function.update_apply m.shards _ s _
  rw [view, hshard]
  split
  · rename_i hsame
    rw [h key, view, shard, shard, hsame]
  · rename_i hother
    have hkey : key ≠ objectKey := fun heq => hother (by rw [heq])
    rw [if_neg hkey, view]

variable {version ttlSecond : Nat}

/-- A timer is set unless the TTL is zero, which may be a reason to leave the old one. -/
theorem view_insertObject {acceptZero : Bool}
    (h : m.insertObject objectKey version ttlSecond acceptZero = .ok m') :
    (acceptZero = false ∧ ttlSecond = 0 ∧ ∀ key, m'.view key = m.view key) ∨
      (acceptZero ∨ 0 < ttlSecond) ∧ ¬(m.view objectKey).ready ∧ ∃ node : TimedNode,
        node.expireTime = calcExpireTime version ttlSecond ∧
        ∀ key, m'.view key =
          if key = objectKey then (m.view key).remove.file node else m.view key := by
  obtain ⟨s, hs, hm⟩ := bind_eq_ok.mp h
  cases pure_eq_ok.mp hm
  unfold ExpiredShard.insertObject at hs
  split at hs
  · cases pure_eq_ok.mp hs
    refine .inl ⟨by simp_all, by simp_all, fun key => ?_⟩
    rw [view_setShard (f := id) (by simp)]
    simp
  · rename_i hset
    obtain ⟨hready, hs⟩ := check_bind_eq_ok.mp hs
    cases pure_eq_ok.mp hs
    have hfree := hready
    refine .inr ⟨?_, hfree, ⟨((m.shard objectKey).removeObjectIfExistUnlock objectKey).nextNode,
      calcExpireTime version ttlSecond⟩, rfl,
      fun key => view_setShard (f := fun v => v.remove.file _) fun key => ?_⟩
    · cases acceptZero with
      | false => exact .inr (by simp at hset; omega)
      | true => exact .inl rfl
    · rw [ExpiredShard.insertObjectUnlock, ExpiredShard.view_fileTimer,
        ExpiredShard.view_removeObjectIfExistUnlock]
      split <;> rfl

theorem ready_of_insertObject {acceptZero} {e}
    (h : m.insertObject objectKey version ttlSecond acceptZero = .error e) :
    (m.view objectKey).ready := by
  by_contra hready
  have hfree : objectKey ∉ (m.shard objectKey).readyExpiredObjects := hready
  rw [insertObject, ExpiredShard.insertObject, ExpiredShard.checkObjectInAsyncDelete,
    check_of hfree] at h
  split at h <;> cases h

theorem view_removeObjectIfExist (h : m.removeObjectIfExist objectKey = .ok m') :
    ¬(m.view objectKey).ready ∧
      ∀ key, m'.view key = if key = objectKey then (m.view key).remove else m.view key := by
  obtain ⟨_, hs, hm⟩ := bind_eq_ok.mp h
  obtain ⟨hready, hs⟩ := check_bind_eq_ok.mp hs
  cases pure_eq_ok.mp hm
  cases pure_eq_ok.mp hs
  have hfree := hready
  exact ⟨hfree, fun key => view_setShard fun key => ExpiredShard.view_removeObjectIfExistUnlock⟩

theorem view_restoreExpiryTaskIfAbsent {deadline : Nat} (h : (m.view objectKey).index = none) :
    ∃ node : TimedNode, node.expireTime = calcExpireTime deadline 0 ∧
      ∀ key, (m.restoreExpiryTaskIfAbsent objectKey deadline).view key =
        if key = objectKey then (m.view key).file node else m.view key := by
  have hindex : (m.shard objectKey).obj2Timed.find? objectKey = none := h
  refine ⟨⟨(m.shard objectKey).nextNode, calcExpireTime deadline 0⟩, rfl,
    fun key => view_setShard (f := fun v => v.file _) fun key => ?_⟩
  rw [ExpiredShard.restoreExpiryTaskIfAbsent, hindex]
  exact ExpiredShard.view_fileTimer _

theorem view_restoreExpiryTaskIfAbsent_of_ne {deadline : Nat} (h : key ≠ objectKey) :
    (m.restoreExpiryTaskIfAbsent objectKey deadline).view key = m.view key := by
  cases hindex : (m.view objectKey).index with
  | none =>
    obtain ⟨_, -, hview⟩ := @view_restoreExpiryTaskIfAbsent m objectKey deadline hindex
    exact (hview key).trans (if_neg h)
  | some node =>
    have hfound : (m.shard objectKey).obj2Timed.find? objectKey = some node := hindex
    rw [restoreExpiryTaskIfAbsent, ExpiredShard.restoreExpiryTaskIfAbsent, hfound]
    exact (view_setShard (f := id) (by simp)).trans (by simp)

end ExpiredObjectManager

end Datasystem.Master
