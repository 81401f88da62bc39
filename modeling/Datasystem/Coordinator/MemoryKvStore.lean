import Datasystem.Common.Bytes
import Datasystem.Common.Status
import Datasystem.Lib.OrderedMap

/-! The in-memory key-value store of the coordinator. Every mutation takes the next
global revision; a key counts its own versions, from one, since it was created. -/

namespace Datasystem.Coordinator

open Common Lib Checked OrderedMap

/-! ## Data -/

structure ValueEntry where
  value : Bytes
  version : Nat
  createRevision : Nat
  modRevision : Nat
  ttlMs : Int
  ttlGeneration : Nat
deriving DecidableEq

structure KeyValueEntry where
  key : Bytes
  value : Bytes
  version : Nat
  modRevision : Nat
deriving DecidableEq

inductive WatchEventType
  | put
  | delete
  | rewatch
deriving DecidableEq

structure WatchEvent where
  type : WatchEventType
  entry : KeyValueEntry
  revision : Nat
deriving DecidableEq

structure MemoryKvStore where
  data : OrderedMap Bytes ValueEntry := .empty
  revision : Nat := 1

def coordinatorNoVersionCheck : Int := -1

def coordinatorKeyNotExistsVersion : Int := 0

def coordinatorNoModRevisionCheck : Int := 0

def coordinatorNoGlobalRevisionCheck : Int := 0

def ValueEntry.toKeyValue (e : ValueEntry) (key : Bytes) : KeyValueEntry :=
  ⟨key, e.value, e.version, e.modRevision⟩

namespace MemoryKvStore

/-- Keys from `key` up to `rangeEnd`, or `key` alone if there is no end. -/
def inRange (key rangeEnd k : Bytes) : Bool :=
  if rangeEnd = [] then k == key else decide (key ≤ k) && decide (k < rangeEnd)

/-! ## Put -/

structure PutRequest where
  key : Bytes
  value : Bytes
  ttlMs : Int
  expectedVersion : Int
  expectedModRevision : Int := coordinatorNoModRevisionCheck
  expectedGlobalRevision : Int := coordinatorNoGlobalRevisionCheck

structure PutResult where
  version : Nat
  revision : Nat
  ttlGeneration : Nat
  event : WatchEvent
deriving DecidableEq

/-- The incarnation fence. -/
def checkModRevision (old : Option ValueEntry) (expectedModRevision : Int) : Result Unit :=
  if expectedModRevision = coordinatorNoModRevisionCheck then pure ()
  else do
    checkFailReturnStatus (old ≠ none) .kNotFound "key not found for CAS"
    checkFailReturnStatus (∀ e ∈ old, e.modRevision = expectedModRevision) .kDataInconsistency
      "modification revision mismatch"

/-- The version fence. -/
def checkVersion (old : Option ValueEntry) (expectedVersion : Int) : Result Unit :=
  if expectedVersion = coordinatorKeyNotExistsVersion then
    checkFailReturnStatus (old = none) .kDuplicated "key already exists for CAS"
  else if expectedVersion = coordinatorNoVersionCheck then pure ()
  else do
    checkFailReturnStatus (old ≠ none) .kNotFound "key not found for CAS"
    checkFailReturnStatus (∀ e ∈ old, e.version = expectedVersion) .kDataInconsistency
      "version mismatch"

variable (store : MemoryKvStore)

/-- The fences of a put, in the order of the source. -/
def checkPut (req : PutRequest) : Result Unit := do
  checkFailReturnStatus (req.expectedGlobalRevision = coordinatorNoGlobalRevisionCheck ∨
    req.expectedGlobalRevision = store.revision) .kDataInconsistency "global revision mismatch"
  checkModRevision (store.data.find? req.key) req.expectedModRevision
  checkVersion (store.data.find? req.key) req.expectedVersion

/-- The entry after a put at `revision`. -/
def stored (req : PutRequest) (revision : Nat) : Option ValueEntry → ValueEntry
  | some e => { e with
      version := e.version + 1
      value := req.value
      modRevision := revision
      ttlMs := req.ttlMs
      ttlGeneration := e.ttlGeneration + 1 }
  | none => ⟨req.value, 1, revision, revision, req.ttlMs, 1⟩

/-- `Put`: a failed put leaves the store alone. The event is handed to the mutation callback
after the lock is released. -/
def put (store : MemoryKvStore) (req : PutRequest) : Result (PutResult × MemoryKvStore) := do
  checkPut store req
  let newRevision := store.revision + 1
  let entry := stored req newRevision (store.data.find? req.key)
  let event : WatchEvent := ⟨.put, entry.toKeyValue req.key, newRevision⟩
  pure (⟨entry.version, newRevision, entry.ttlGeneration, event⟩,
    ⟨store.data.insert req.key entry, newRevision⟩)

/-! ## Range -/

/-- `Range` without a known revision: the entries of the range and the revision they belong
to. -/
def range (key rangeEnd : Bytes) : List KeyValueEntry × Nat :=
  ((store.data.entries.filter fun e => inRange key rangeEnd e.1).map fun e => e.2.toKeyValue e.1,
    store.revision)

/-! ## Delete -/

structure DeleteRequest where
  key : Bytes
  rangeEnd : Bytes := []
  expectedModRevision : Int := coordinatorNoModRevisionCheck

structure DeleteResult where
  revision : Nat
  deletedEntries : List KeyValueEntry
  events : List WatchEvent
deriving DecidableEq

/-- `Delete`: all keys of the range at one new revision, with an event for each. -/
def delete (store : MemoryKvStore) (req : DeleteRequest) :
    Result (DeleteResult × MemoryKvStore) := do
  checkFailReturnStatus (req.expectedModRevision = coordinatorNoModRevisionCheck ∨
    req.rangeEnd = [])
    .kInvalid "modification revision fence only supports exact-key delete"
  match (store.range req.key req.rangeEnd).1 with
  | [] => pure (⟨store.revision, [], []⟩, store)
  | first :: rest => do
    checkFailReturnStatus (req.expectedModRevision = coordinatorNoModRevisionCheck ∨
      first.modRevision = req.expectedModRevision) .kTryAgain "modification revision mismatch"
    let newRevision := store.revision + 1
    pure (⟨newRevision, first :: rest, (first :: rest).map (⟨.delete, ·, newRevision⟩)⟩,
      ⟨store.data.filterKeys fun k => !inRange req.key req.rangeEnd k, newRevision⟩)

/-- `DeleteIfTtlExpired`: only the incarnation and the generation that the record was made
for. -/
def deleteIfTtlExpired (key : Bytes) (revision ttlGeneration : Nat) :
    Option (WatchEvent × MemoryKvStore) :=
  match store.data.find? key with
  | none => none
  | some e =>
    if e.modRevision ≠ revision then none
    else if e.ttlMs ≤ 0 ∨ e.ttlGeneration ≠ ttlGeneration then none
    else
      let deleteRevision := store.revision + 1
      some (⟨.delete, e.toKeyValue key, deleteRevision⟩, ⟨store.data.erase key, deleteRevision⟩)

/-! ## KeepAlive -/

structure KeepAliveResult where
  ttlMs : Int
  revision : Nat
  ttlGeneration : Nat
deriving DecidableEq

/-- `KeepAlive`: a new TTL generation for the same incarnation. -/
def keepAlive (key : Bytes) (expectedModRevision : Int) :
    Result (KeepAliveResult × MemoryKvStore) :=
  match store.data.find? key with
  | none => .error ⟨.kNotFound, "key has no TTL"⟩
  | some e => do
    checkFailReturnStatus (0 < e.ttlMs) .kNotFound "key has no TTL"
    checkFailReturnStatus (expectedModRevision = coordinatorNoModRevisionCheck ∨
      e.modRevision = expectedModRevision) .kTryAgain "modification revision mismatch"
    let renewed := { e with ttlGeneration := e.ttlGeneration + 1 }
    pure (⟨e.ttlMs, e.modRevision, renewed.ttlGeneration⟩,
      { store with data := store.data.insert key renewed })

/-! ## What the operations do -/

section

variable {store store' : MemoryKvStore}

theorem put_eq_ok {req} {r} : store.put req = .ok (r, store') ↔ store.checkPut req = .ok () ∧
      r = ⟨(stored req (store.revision + 1) (store.data.find? req.key)).version, store.revision + 1,
        (stored req (store.revision + 1) (store.data.find? req.key)).ttlGeneration,
        ⟨.put, (stored req (store.revision + 1) (store.data.find? req.key)).toKeyValue req.key,
          store.revision + 1⟩⟩ ∧
      store' = ⟨store.data.insert req.key (stored req (store.revision + 1)
        (store.data.find? req.key)), store.revision + 1⟩ := by
  simp only [put, bind_eq_ok, pure_eq_ok, Prod.mk.injEq]
  constructor
  · intro h
    obtain ⟨_, hcheck, hr, hs⟩ := h
    exact ⟨hcheck, hr.symm, hs.symm⟩
  · intro h
    exact ⟨(), h.1, h.2.1.symm, h.2.2.symm⟩

theorem checkPut_version {req} (h : store.checkPut req = .ok ()) :
    (req.expectedVersion = coordinatorKeyNotExistsVersion → store.data.find? req.key = none) ∧
      (req.expectedVersion ≠ coordinatorKeyNotExistsVersion →
        req.expectedVersion ≠ coordinatorNoVersionCheck →
          ∃ e, store.data.find? req.key = some e ∧ e.version = req.expectedVersion) := by
  obtain ⟨_, -, h⟩ := bind_eq_ok.mp h
  obtain ⟨_, -, h⟩ := bind_eq_ok.mp h
  unfold checkVersion at h
  constructor
  · intro hnew
    rw [if_pos hnew] at h
    exact check_eq_ok.mp h
  · intro hold hcheck
    rw [if_neg hold, if_neg hcheck] at h
    obtain ⟨hsome, heq⟩ := check_bind_eq_ok.mp h
    obtain ⟨e, he⟩ := Option.ne_none_iff_exists'.mp hsome
    exact ⟨e, he, check_eq_ok.mp heq e he⟩

theorem mem_range {key rangeEnd} {kv} :
    kv ∈ (store.range key rangeEnd).1 ↔ ∃ k e, store.data.find? k = some e ∧
      inRange key rangeEnd k ∧ e.toKeyValue k = kv := by
  simp only [range, List.mem_map, List.mem_filter, Prod.exists, ← mem_entries_iff, and_assoc]

theorem delete_eq_ok {req} {r} (h : store.delete req = .ok (r, store')) :
    (store' = store ∧ r.events = [] ∧ (store.range req.key req.rangeEnd).1 = []) ∨
      (store' = ⟨store.data.filterKeys fun k => !inRange req.key req.rangeEnd k,
          store.revision + 1⟩ ∧
        r.events = (store.range req.key req.rangeEnd).1.map (⟨.delete, ·, store.revision + 1⟩) ∧
        (store.range req.key req.rangeEnd).1 ≠ []) := by
  obtain ⟨_, -, h⟩ := bind_eq_ok.mp h
  split at h
  · rename_i hnone
    cases h
    exact .inl ⟨rfl, rfl, hnone⟩
  · rename_i first rest hsome
    obtain ⟨_, -, h⟩ := bind_eq_ok.mp h
    cases h
    exact .inr ⟨rfl, by rw [hsome], by rw [hsome]; exact List.cons_ne_nil _ _⟩

theorem deleteIfTtlExpired_eq_some {key} {revision ttlGeneration : Nat} {event} :
    store.deleteIfTtlExpired key revision ttlGeneration = some (event, store') ↔
      ∃ e, store.data.find? key = some e ∧ e.modRevision = revision ∧ 0 < e.ttlMs ∧
        e.ttlGeneration = ttlGeneration ∧
        event = ⟨.delete, e.toKeyValue key, store.revision + 1⟩ ∧
        store' = ⟨store.data.erase key, store.revision + 1⟩ := by
  unfold deleteIfTtlExpired
  cases hfind : store.data.find? key with
  | none => simp
  | some e =>
    simp only [Option.some.injEq, exists_eq_left']
    split
    · simp_all
    · split
      · rename_i hrev hbad
        constructor
        · intro h
          cases h
        · intro h
          rcases hbad with hle | hgeneration
          · exact absurd h.2.1 (not_lt.mpr hle)
          · exact absurd h.2.2.1 hgeneration
      · rename_i hrev hgood
        push Not at hrev hgood
        simp only [Option.some.injEq, Prod.mk.injEq]
        constructor
        · intro h
          exact ⟨hrev, hgood.1, hgood.2, h.1.symm, h.2.symm⟩
        · intro h
          exact ⟨h.2.2.2.1.symm, h.2.2.2.2.symm⟩

theorem keepAlive_eq_ok {key} {expected : Int} {r}
    (h : store.keepAlive key expected = .ok (r, store')) :
    ∃ e, store.data.find? key = some e ∧ 0 < e.ttlMs ∧
      r = ⟨e.ttlMs, e.modRevision, e.ttlGeneration + 1⟩ ∧
      store' = { store with
        data := store.data.insert key { e with ttlGeneration := e.ttlGeneration + 1 } } := by
  unfold keepAlive at h
  split at h
  · cases h
  · rename_i e he
    obtain ⟨hpos, h⟩ := check_bind_eq_ok.mp h
    obtain ⟨_, -, h⟩ := bind_eq_ok.mp h
    cases h
    exact ⟨e, he, hpos, rfl, rfl⟩

end

/-! ## Entries over time -/

/-- A later state of the same incarnation: its version tells whether the value is the same. -/
structure Later (e e' : ValueEntry) : Prop where
  created : e.createRevision = e'.createRevision
  version : e.version ≤ e'.version
  value : e.version = e'.version → e.value = e'.value

theorem Later.refl (e) : Later e e := ⟨rfl, le_refl _, fun _ => rfl⟩

theorem Later.trans {e e' e''} (h : Later e e') (h' : Later e' e'') : Later e e'' where
  created := h.created.trans h'.created
  version := le_trans h.version h'.version
  value heq := by
    have hmid : e.version = e'.version := le_antisymm h.version (heq ▸ h'.version)
    exact (h.value hmid).trans (h'.value (hmid ▸ heq))

/-- Revisions grow, and an entry is a later state of what was there or has been created since. -/
structure Advances (s s' : MemoryKvStore) : Prop where
  revision : s.revision ≤ s'.revision
  entry : ∀ key e', s'.data.find? key = some e' →
    (s.revision < e'.createRevision ∧ e'.createRevision ≤ s'.revision ∧ 0 < e'.version) ∨
      ∃ e, s.data.find? key = some e ∧ Later e e'

section

variable {store store' : MemoryKvStore}

theorem Advances.of_find {key} {e'} (hrev : store.revision ≤ store'.revision)
    (hdata : store'.data = store.data.insert key e')
    (he : (store.revision < e'.createRevision ∧ e'.createRevision ≤ store'.revision ∧
        0 < e'.version) ∨
      ∃ e, store.data.find? key = some e ∧ Later e e') : Advances store store' where
  revision := hrev
  entry k e h := by
    rw [hdata, find?_insert] at h
    split at h
    · rename_i hk
      cases h
      rw [hk]
      exact he
    · exact .inr ⟨e, h, Later.refl e⟩

theorem put_advances {req} {r} (h : store.put req = .ok (r, store')) : Advances store store' := by
  obtain ⟨-, -, rfl⟩ := put_eq_ok.mp h
  refine Advances.of_find (Nat.le_succ _) rfl ?_
  cases hfind : store.data.find? req.key with
  | none => exact .inl ⟨Nat.lt_succ_self _, le_refl _, Nat.one_pos⟩
  | some e =>
    refine .inr ⟨e, rfl, rfl, Nat.le_succ _, fun hv => ?_⟩
    exact absurd hv (Nat.ne_of_lt (Nat.lt_succ_self _))

theorem Advances.of_sub (hrev : store.revision ≤ store'.revision)
    (h : ∀ key e, store'.data.find? key = some e → store.data.find? key = some e) :
    Advances store store' where
  revision := hrev
  entry key e he := .inr ⟨e, h key e he, Later.refl e⟩

theorem delete_sub {req} {r}
    (h : store.delete req = .ok (r, store')) : store.revision ≤ store'.revision ∧
      ∀ key e, store'.data.find? key = some e → store.data.find? key = some e := by
  rcases delete_eq_ok h with ⟨rfl, -⟩ | ⟨rfl, -⟩
  · exact ⟨le_refl _, fun _ _ he => he⟩
  · refine ⟨Nat.le_succ _, fun key e he => ?_⟩
    rw [find?_filterKeys] at he
    split at he
    · exact he
    · cases he

theorem delete_advances {req} {r}
    (h : store.delete req = .ok (r, store')) : Advances store store' :=
  .of_sub (delete_sub h).1 (delete_sub h).2

theorem deleteIfTtlExpired_sub {key} {revision generation : Nat} {event}
    (h : store.deleteIfTtlExpired key revision generation = some (event, store')) :
    store.revision ≤ store'.revision ∧
      ∀ k e, store'.data.find? k = some e → k ≠ key ∧ store.data.find? k = some e := by
  obtain ⟨e, -, -, -, -, -, rfl⟩ := deleteIfTtlExpired_eq_some.mp h
  refine ⟨Nat.le_succ _, fun k e he => ?_⟩
  rw [find?_erase] at he
  split at he
  · cases he
  · rename_i hk
    exact ⟨hk, he⟩

end

end MemoryKvStore

end Datasystem.Coordinator
