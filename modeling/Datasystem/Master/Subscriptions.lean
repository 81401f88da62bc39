import Datasystem.Lib.StateMachine
import Datasystem.Master.OCMetadataManager

/-! Subscriptions to objects that do not exist yet. One table has the requests that wait for a
key, the other the keys that a request still waits for. Calls that subscribe, creates that notify
and timeouts change them in separate steps, under the lock of one entry at a time. -/

namespace Datasystem.Master

open Common Lib StateMachine OrderedMap

structure SubscribeMeta where
  /-- The objects that are still waited for. -/
  objects : List Bytes
  address : Bytes
deriving DecidableEq

structure SubscribeCache where
  objKey2ReqId : OrderedMap Bytes (OrderedSet Bytes) := .empty
  request2SubMeta : OrderedMap Bytes SubscribeMeta := .empty

namespace SubscribeCache

variable (c : SubscribeCache) (reqId objectKey : Bytes)

/-- The requests under a key. -/
def reqIdsOf (objectKey : Bytes) : List Bytes :=
  ((c.objKey2ReqId.find? objectKey).getD .empty).elements

/-- One key of `AddSubscribeCache`. -/
def addKey : SubscribeCache :=
  { c with
    objKey2ReqId := c.objKey2ReqId.alter objectKey fun reqIds =>
      (reqIds.getD .empty).insert reqId }

/-- The end of `AddSubscribeCache`. A request that is there already is kept. -/
def emplace (reqId : Bytes) (subMeta : SubscribeMeta) : SubscribeCache :=
  if (c.request2SubMeta.find? reqId).isSome then c
  else { c with request2SubMeta := c.request2SubMeta.insert reqId subMeta }

/-- `UpdateSubscribeCache` takes a key out of a request, and the request out of the table with its
last key. -/
def strike : SubscribeCache :=
  match c.request2SubMeta.find? reqId with
  | none => c
  | some subMeta =>
    let objects := subMeta.objects.filter (· ≠ objectKey)
    if objects.isEmpty then { c with request2SubMeta := c.request2SubMeta.erase reqId }
    else { c with request2SubMeta := c.request2SubMeta.insert reqId { subMeta with objects } }

/-- The end of `UpdateSubscribeCache` on its tables. -/
def eraseKey (objectKey : Bytes) : SubscribeCache :=
  { c with objKey2ReqId := c.objKey2ReqId.erase objectKey }

/-- The start of `RemoveSubscribeCache`. -/
def eraseRequest (reqId : Bytes) : SubscribeCache :=
  { c with request2SubMeta := c.request2SubMeta.erase reqId }

/-- One key of `RemoveSubscribeCache`. -/
def removeKey : SubscribeCache :=
  match c.objKey2ReqId.find? objectKey with
  | none => c
  | some reqIds =>
    let requests := reqIds.erase reqId
    if requests.elements.isEmpty then c.eraseKey objectKey
    else { c with objKey2ReqId := c.objKey2ReqId.insert objectKey requests }

/-! ## What waits for what -/

/-- The request is under the key. -/
def Enters : Prop := reqId ∈ c.reqIdsOf objectKey

/-- The request lists the key. -/
def Lists : Prop :=
  ∃ subMeta, c.request2SubMeta.find? reqId = some subMeta ∧ objectKey ∈ subMeta.objects

instance (c : SubscribeCache) (reqId objectKey : Bytes) : Decidable (c.Enters reqId objectKey) :=
  inferInstanceAs (Decidable (reqId ∈ c.reqIdsOf objectKey))

theorem any_iff_lists :
    (c.request2SubMeta.find? reqId).any (objectKey ∈ ·.objects) ↔ c.Lists reqId objectKey := by
  simp [Lists, Option.any_eq_true]

instance (c : SubscribeCache) (reqId objectKey : Bytes) : Decidable (c.Lists reqId objectKey) :=
  decidable_of_iff _ (c.any_iff_lists reqId objectKey)

variable {c : SubscribeCache} {r r' k k' : Bytes}

theorem enters_iff : c.Enters r k ↔
    ∃ reqIds, c.objKey2ReqId.find? k = some reqIds ∧ r ∈ reqIds := by
  unfold Enters reqIdsOf
  cases c.objKey2ReqId.find? k <;> simp

@[simp] theorem objKey2ReqId_strike : (c.strike r k).objKey2ReqId = c.objKey2ReqId := by
  unfold strike
  split
  · rfl
  · dsimp only
    split <;> rfl

variable {subMeta : SubscribeMeta}

@[simp] theorem objKey2ReqId_emplace : (c.emplace r subMeta).objKey2ReqId = c.objKey2ReqId := by
  unfold emplace
  split <;> rfl

@[simp] theorem request2SubMeta_removeKey :
    (c.removeKey r k).request2SubMeta = c.request2SubMeta := by
  unfold removeKey
  split
  · rfl
  · dsimp only
    split <;> rfl

theorem enters_strike : (c.strike r k).Enters r' k' ↔ c.Enters r' k' := by
  simp [enters_iff]

theorem enters_emplace : (c.emplace r subMeta).Enters r' k' ↔ c.Enters r' k' := by
  simp [enters_iff]

theorem enters_addKey : (c.addKey r k).Enters r' k' ↔ (r' = r ∧ k' = k) ∨ c.Enters r' k' := by
  unfold Enters reqIdsOf addKey
  rw [find?_alter]
  by_cases hk : k' = k
  · subst hk
    simp
  · simp [hk]

theorem enters_eraseKey : (c.eraseKey k).Enters r' k' ↔ k' ≠ k ∧ c.Enters r' k' := by
  unfold Enters reqIdsOf eraseKey
  dsimp only
  rw [find?_erase]
  by_cases hk : k' = k <;> simp [hk]

theorem enters_removeKey : (c.removeKey r k).Enters r' k' ↔
    ¬(r' = r ∧ k' = k) ∧ c.Enters r' k' := by
  unfold removeKey
  cases hfind : c.objKey2ReqId.find? k with
  | none =>
    have hnot : ¬c.Enters r' k := by
      rw [enters_iff, hfind]
      simp
    by_cases hk : k' = k
    · subst hk
      simp [hnot]
    · simp [hk]
  | some reqIds =>
    dsimp only
    split
    · rename_i hempty
      rw [enters_eraseKey]
      by_cases hk : k' = k
      · subst hk
        have hnone : r' ∉ reqIds.erase r := by
          rw [← OrderedSet.mem_elements, List.isEmpty_iff.mp hempty]
          simp
        rw [enters_iff, hfind]
        simpa using hnone
      · simp [hk]
    · rw [enters_iff, enters_iff]
      dsimp only
      rw [find?_insert]
      by_cases hk : k' = k
      · subst hk
        simp [hfind]
      · simp [hk]

theorem find?_emplace (hnone : c.request2SubMeta.find? r = none) :
    (c.emplace r subMeta).request2SubMeta.find? r' =
      if r' = r then some subMeta else c.request2SubMeta.find? r' := by
  rw [emplace, hnone]
  exact (find?_insert _ _ _ _).trans (by congr)

theorem lists_emplace (hnone : c.request2SubMeta.find? r = none) :
    (c.emplace r subMeta).Lists r' k' ↔ (r' = r ∧ k' ∈ subMeta.objects) ∨ c.Lists r' k' := by
  unfold Lists
  rw [find?_emplace hnone]
  by_cases hr : r' = r
  · subst hr
    simp [hnone]
  · simp [hr]

/-- What is left of a request without a key. -/
def struck (k : Bytes) (subMeta : SubscribeMeta) : Option SubscribeMeta :=
  let objects := subMeta.objects.filter (· ≠ k)
  if objects.isEmpty then none else some { subMeta with objects }

theorem find?_strike : (c.strike r k).request2SubMeta.find? r' =
    if r' = r then (c.request2SubMeta.find? r).bind (struck k)
    else c.request2SubMeta.find? r' := by
  unfold strike struck
  cases hfind : c.request2SubMeta.find? r with
  | none =>
    by_cases hr : r' = r
    · subst hr
      simp [hfind]
    · simp [hr]
  | some subMeta =>
    dsimp only
    split
    · rename_i hempty
      rw [find?_erase, Option.bind_some, if_pos hempty]
      congr
    · rename_i hempty
      rw [find?_insert, Option.bind_some, if_neg hempty]
      congr

theorem lists_strike : (c.strike r k).Lists r' k' ↔ ¬(r' = r ∧ k' = k) ∧ c.Lists r' k' := by
  unfold Lists
  rw [find?_strike]
  by_cases hr : r' = r
  · subst hr
    cases hfind : c.request2SubMeta.find? r' with
    | none => simp
    | some subMeta =>
      by_cases hempty : (subMeta.objects.filter (· ≠ k)).isEmpty
      · have hall : ∀ o ∈ subMeta.objects, o = k := by
          simpa using List.isEmpty_iff.mp hempty
        simp only [if_true, Option.bind_some, struck, hempty]
        constructor
        · intro h
          obtain ⟨_, h, -⟩ := h
          cases h
        · intro h
          obtain ⟨hne, _, hsome, hmem⟩ := h
          cases hsome
          exact absurd ⟨trivial, hall k' hmem⟩ hne
      · rw [if_pos rfl, Option.bind_some, struck, if_neg hempty]
        simp [and_comm]
  · simp [hr]

theorem lists_eraseRequest : (c.eraseRequest r).Lists r' k' ↔ r' ≠ r ∧ c.Lists r' k' := by
  unfold Lists eraseRequest
  dsimp only
  rw [find?_erase]
  by_cases hr : r' = r <;> simp [hr]

end SubscribeCache

/-! Subscribing calls, creates and timeouts side by side. A call that subscribes looks at the
metadata once more after it has registered, since the object may have been created in between. -/

namespace Subscriptions

/-- A subscriber that `UpdateSubscribeCache` is to notify, with the request it is for. -/
structure NotifyItem where
  reqId : Bytes
  address : Bytes
deriving DecidableEq

inductive UpdatePhase
  | finding
  /-- The entry of the key is held and these requests are still to be looked up. -/
  | looking (reqIds : List Bytes)
  /-- The key is taken out of the first request next. -/
  | striking (reqId : Bytes) (reqIds : List Bytes)
  | notifying

namespace UpdatePhase

/-- The entry of the key in `objKey2ReqId_` is held. -/
def scans : UpdatePhase → Bool
  | looking _ | striking _ _ => true
  | finding | notifying => false

/-- The requests that wait for the key are still to be taken, or are being taken. -/
def seeks : UpdatePhase → Bool
  | notifying => false
  | finding | looking _ | striking _ _ => true

end UpdatePhase

/-- A call of `UpdateSubscribeCache`. -/
structure SubscribeUpdate where
  objectKey : Bytes
  primaryAddress : Bytes
  toNotify : List NotifyItem := []
  phase : UpdatePhase := .finding

/-- Where a call is, with what its loop still has to go through. -/
inductive Call
  /-- `AddSubscribeCache` -/
  | adding (reqId : Bytes) (subMeta : SubscribeMeta) (objectKeys : List Bytes)
  /-- The second look of `TryToSubscribeCache`. -/
  | rechecking (reqId : Bytes) (objectKeys : List Bytes)
  /-- A create that has inserted the entry. -/
  | creating (objectKey : Bytes)
  /-- `RemoveSubscribeCache` -/
  | removing (reqId : Bytes) (objectKeys : List Bytes)

structure Thread where
  call : Call
  update : Option SubscribeUpdate := none

namespace Thread

variable (t : Thread) (objectKey : Bytes)

def adds (reqId : Bytes) : Bool :=
  match t.call with
  | .adding r _ _ => r = reqId
  | _ => false

def subscribes (reqId : Bytes) : Bool :=
  match t.call with
  | .adding r _ _ | .rechecking r _ => r = reqId
  | _ => false

def rechecks (reqId objectKey : Bytes) : Bool :=
  match t.call with
  | .rechecking r objectKeys => r = reqId ∧ objectKey ∈ objectKeys
  | _ => false

def creates : Bool :=
  match t.call with
  | .creating k => k = objectKey
  | _ => false

def removes (reqId objectKey : Bytes) : Bool :=
  match t.call with
  | .removing r objectKeys => r = reqId ∧ objectKey ∈ objectKeys
  | _ => false

def notifies : Bool :=
  t.update.any fun u => u.objectKey = objectKey ∧ u.toNotify ≠ []

def holds : Bool :=
  t.update.any fun u => u.objectKey = objectKey ∧ u.phase.scans

/-- A call of the request or a create of the key, which takes the requests that wait for it. -/
def seeks (reqId objectKey : Bytes) : Bool :=
  (t.subscribes reqId ∨ t.creates objectKey) ∧
    t.update.any fun u => u.objectKey = objectKey ∧ u.phase.seeks

def informs (item : NotifyItem) (objectKey : Bytes) : Bool :=
  t.update.any fun u => u.objectKey = objectKey ∧ item ∈ u.toNotify

end Thread

structure Notification where
  reqId : Bytes
  address : Bytes
  objectKey : Bytes
deriving DecidableEq

end Subscriptions

open Subscriptions in
/-- A master with its calls under way, and what is known of the past: the calls that have
subscribed, those that have timed out, the primaries that each object has had, and the
notifications that were sent. -/
structure Subscriptions where
  metaTable : OrderedMap Bytes ObjectMeta
  cache : SubscribeCache := {}
  threads : OrderedMap Nat Thread := .empty
  requests : OrderedMap Bytes SubscribeMeta := .empty
  timedOut : List Bytes := []
  primaries : List (Bytes × Bytes)
  notified : List Notification := []

namespace Subscriptions

inductive Action
  /-- `TryToSubscribeCache`, from when its timer is set. -/
  | subscribe (id : Nat) (reqId : Bytes) (subMeta : SubscribeMeta)
  | createMeta (id : Nat) (objectKey : Bytes) (newMeta : ObjectMetaPb) (address : Bytes)
      (version : Nat)
  /-- A create of a key that is there: it changes the entry and notifies no subscriber. -/
  | overwrite (objectKey : Bytes) (changed : ChangedMeta)
  /-- The timer of a request fires. -/
  | timeout (id : Nat) (reqId : Bytes)
  | next (id : Nat)

variable (s : Subscriptions) (id : Nat)

def putThread (t : Thread) : Subscriptions :=
  { s with threads := s.threads.insert id t }

def endThread : Subscriptions :=
  { s with threads := s.threads.erase id }

def held (objectKey : Bytes) : Bool := s.threads.any (·.holds objectKey)

def looked (u : SubscribeUpdate) (reqId : Bytes) (reqIds : List Bytes) (subMeta : SubscribeMeta) :
    SubscribeUpdate :=
  { u with
    toNotify :=
      if subMeta.address ≠ u.primaryAddress then u.toNotify ++ [⟨reqId, subMeta.address⟩]
      else u.toNotify
    phase := .striking reqId reqIds }

/-- `UpdateSubscribeCache`. The call is over when no update is left. -/
def stepUpdate (u : SubscribeUpdate) : Option (Subscriptions × Option SubscribeUpdate) :=
  match u.phase with
  | .finding =>
    if s.held u.objectKey then none
    else if (s.cache.reqIdsOf u.objectKey).isEmpty then some (s, none)
    else some (s, some { u with phase := .looking (s.cache.reqIdsOf u.objectKey) })
  | .looking (reqId :: reqIds) =>
    match s.cache.request2SubMeta.find? reqId with
    | none => some (s, some { u with phase := .looking reqIds })
    | some subMeta => some (s, some (looked u reqId reqIds subMeta))
  | .striking reqId reqIds =>
    some ({ s with cache := s.cache.strike reqId u.objectKey },
      some { u with phase := .looking reqIds })
  | .looking [] =>
    some ({ s with cache := s.cache.eraseKey u.objectKey }, some { u with phase := .notifying })
  | .notifying =>
    match u.toNotify with
    | [] => some (s, none)
    | item :: rest =>
      some ({ s with notified := ⟨item.reqId, item.address, u.objectKey⟩ :: s.notified },
        some { u with toNotify := rest })

def stepCall : Call → Option Subscriptions
  | .adding reqId subMeta (objectKey :: rest) =>
    if s.held objectKey then none
    else some ({ s with cache := s.cache.addKey reqId objectKey }.putThread id
      ⟨.adding reqId subMeta rest, none⟩)
  | .adding reqId subMeta [] =>
    some ({ s with cache := s.cache.emplace reqId subMeta }.putThread id
      ⟨.rechecking reqId subMeta.objects, none⟩)
  | .rechecking reqId (objectKey :: rest) =>
    some (s.putThread id ⟨.rechecking reqId rest,
      (s.metaTable.find? objectKey).map fun entry =>
        { objectKey := objectKey, primaryAddress := entry.pb.primaryAddress }⟩)
  | .removing reqId (objectKey :: rest) =>
    if s.held objectKey then none
    else some ({ s with cache := s.cache.removeKey reqId objectKey }.putThread id
      ⟨.removing reqId rest, none⟩)
  | .rechecking _ [] => some (s.endThread id)
  | .creating _ => some (s.endThread id)
  | .removing _ [] => some (s.endThread id)

def stepThread (t : Thread) : Option Subscriptions :=
  match t.update with
  | some u => (s.stepUpdate u).map fun (s, u) => s.putThread id { t with update := u }
  | none => s.stepCall id t.call

/-- `RemoveSubscribeCache` up to its loop. -/
def timeout (reqId : Bytes) : Subscriptions :=
  let s := { s with timedOut := reqId :: s.timedOut }
  match s.cache.request2SubMeta.find? reqId with
  | none => s
  | some subMeta =>
    { s with cache := s.cache.eraseRequest reqId }.putThread id
      ⟨.removing reqId subMeta.objects, none⟩

def putMeta (objectKey : Bytes) (entry : ObjectMeta) : Subscriptions :=
  { s with
    metaTable := s.metaTable.insert objectKey entry
    primaries := (objectKey, entry.pb.primaryAddress) :: s.primaries }

def step : Action → Option Subscriptions
  | .subscribe id reqId subMeta =>
    if (s.threads.find? id).isNone then
      some ({ s with requests := s.requests.insert reqId subMeta }.putThread id
        ⟨.adding reqId subMeta subMeta.objects, none⟩)
    else none
  | .createMeta id objectKey newMeta address version =>
    if (s.threads.find? id).isNone ∧ (s.metaTable.find? objectKey).isNone then
      some ((s.putMeta objectKey (ObjectMeta.setMetaInfo newMeta address version)).putThread id
        ⟨.creating objectKey, some { objectKey := objectKey, primaryAddress := address }⟩)
    else none
  | .overwrite objectKey changed =>
    (s.metaTable.find? objectKey).map fun entry => s.putMeta objectKey (entry.change changed)
  | .timeout id reqId =>
    if (s.threads.find? id).isNone ∧ (s.requests.find? reqId).isSome then some (s.timeout id reqId)
    else none
  | .next id => (s.threads.find? id).bind (s.stepThread id)

/-- A master before any subscription. -/
def start (metaTable : OrderedMap Bytes ObjectMeta) : Subscriptions where
  metaTable := metaTable
  primaries := metaTable.entries.map fun (objectKey, entry) => (objectKey, entry.pb.primaryAddress)

/-- What an orderly thread does next: it looks up no request that a call is just adding, and a
call that subscribes or creates does not return while another has yet to notify of its keys. -/
def orderlyNext (t : Thread) : Bool :=
  match t.update with
  | some u =>
    match u.phase with
    | .looking (reqId :: _) => ¬s.threads.any (·.adds reqId)
    | _ => true
  | none =>
    match t.call with
    | .rechecking reqId [] => (s.requests.find? reqId).all fun subMeta =>
        subMeta.objects.all fun objectKey => ¬s.threads.any (·.notifies objectKey)
    | .creating objectKey => ¬s.threads.any (·.notifies objectKey)
    | _ => true

/-- Each subscribing call has its own request id, and each thread is orderly. -/
def orderly : Action → Bool
  | .subscribe _ reqId _ => (s.requests.find? reqId).isNone
  | .next id => (s.threads.find? id).all s.orderlyNext
  | _ => true

end Subscriptions

end Datasystem.Master
