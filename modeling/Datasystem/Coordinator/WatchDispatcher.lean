import Datasystem.Coordinator.WatchHistory

/-! Watches of the coordinator: the registry, the queue of events that the store hands
over, the fan-out to the channels of the watchers, and the sends. Every step that takes
a lock is a step of its own. -/

namespace Datasystem.Coordinator

open Common Lib MemoryKvStore

def maxPendingEvents : Nat := 10000

def maxWatchEventsPerFanOut : Nat := 4096

def maxWatchEventsPerBatch : Nat := 32

def watchEventBatchMergeThresholdBytes : Nat := 256 * 1024

def watchEventWireOverheadBytes : Nat := 128

def backpressureLimit : Nat := 1024

/-! ## Registry -/

structure WatcherEntry where
  watcherAddr : Bytes
  registrationId : Bytes
  key : Bytes
  rangeEnd : Bytes
deriving DecidableEq

structure WatchRegistry where
  watchers : OrderedMap Nat WatcherEntry := .empty
  nextWatchId : Nat := 1

namespace WatchRegistry

variable (r : WatchRegistry)

/-- A watcher that was registered under this ID before. -/
def registered (registrationId : Bytes) : Option (Nat × WatcherEntry) :=
  if registrationId = [] then none
  else r.watchers.entries.find? fun e => e.2.registrationId = registrationId

/-- `Register`: the watch ID, whether it is new, and the registry. -/
def register (entry : WatcherEntry) : Result (Nat × Bool × WatchRegistry) :=
  match r.registered entry.registrationId with
  | some (watchId, old) => do
    checkFailReturnStatus (old.watcherAddr = entry.watcherAddr) .kInvalid
      "watch registration ID belongs to another watcher"
    checkFailReturnStatus (old.key = entry.key ∧ old.rangeEnd = entry.rangeEnd) .kInvalid
      "watch registration ID belongs to another key range"
    pure (watchId, false, r)
  | none =>
    pure (r.nextWatchId, true,
      ⟨r.watchers.insert r.nextWatchId entry, r.nextWatchId + 1⟩)

/-- `Cancel`. -/
def cancel (watchId : Nat) (watcherAddr : Bytes) : Result WatchRegistry :=
  match r.watchers.find? watchId with
  | none => .error ⟨.kNotFound, "watch not found"⟩
  | some entry => do
    checkFailReturnStatus (watcherAddr = [] ∨ entry.watcherAddr = watcherAddr) .kInvalid
      "watcher address does not match watch ID"
    pure { r with watchers := r.watchers.erase watchId }

/-- `MatchWatchers`: exact watches and range watches of a key. -/
def matchWatchers (key : Bytes) : List Nat :=
  (r.watchers.entries.filter fun e => inRange e.2.key e.2.rangeEnd key).map Prod.fst

end WatchRegistry

/-! ## Channels -/

/-- A batch that is being sent. -/
structure Batch where
  events : List WatchEvent
  needReWatch : Bool
  maxEventRevision : Nat
deriving DecidableEq

/-- What the dispatch thread does with a channel; `closing` is on its way to cancel it. -/
inductive DispatchPhase
  | idle
  | sending (batch : Batch)
  | closing
deriving DecidableEq

structure WatcherChannel where
  queue : List WatchEvent := []
  snapshotRevision : Nat := 0
  needReWatch : Bool := false
  dispatchQueued : Bool := false
  phase : DispatchPhase := .idle
  /-- Revision of the store when the channel was added. -/
  addedAt : Nat
  /-- Key-values returned by the call that set the snapshot revision, unless it skipped them. -/
  initial : Option (List KeyValueEntry) := none
  /-- Events of all successful sends. -/
  delivered : List WatchEvent := []
deriving DecidableEq

/-- `MakeRewatchEvent`. -/
def makeRewatchEvent (revision : Nat) : WatchEvent := ⟨.rewatch, ⟨[], [], 0, 0⟩, revision⟩

inductive NotifyOutcome
  | ok
  | notFound
  | failed
deriving DecidableEq

namespace WatcherChannel

/-- An event for the channel, in the fan-out: past the limit the queue gives way to a rewatch. -/
def offer (event : WatchEvent) (ch : WatcherChannel) : WatcherChannel :=
  if ch.needReWatch then ch
  else if ch.queue.length < backpressureLimit then
    { ch with queue := ch.queue ++ [event], dispatchQueued := true }
  else
    { ch with
      queue := [makeRewatchEvent event.revision]
      needReWatch := true
      dispatchQueued := true }

variable (ch : WatcherChannel)

/-- A channel in `ScheduleAllChannelsForRewatch`. -/
def scheduleRewatch : WatcherChannel :=
  if ch.needReWatch then ch
  else { ch with queue := [makeRewatchEvent 0], needReWatch := true, dispatchQueued := true }

/-- `SetSnapshotRevision`. -/
def setSnapshotRevision (revision : Nat) (initial : Option (List KeyValueEntry))
    (ch : WatcherChannel) : WatcherChannel :=
  { ch with
    snapshotRevision := revision
    initial := initial
    dispatchQueued := ch.dispatchQueued || !ch.queue.isEmpty }

def eventBytes (event : WatchEvent) : Nat :=
  watchEventWireOverheadBytes +
    if event.type = .rewatch then 0 else event.entry.key.length + event.entry.value.length

/-- The loop that fills a batch: it stops behind the event that passes the threshold. -/
def fillBatch : (batchBytes : Nat) → List WatchEvent → List WatchEvent
  | _, [] => []
  | batchBytes, event :: rest =>
    let total := batchBytes + eventBytes event
    if watchEventBatchMergeThresholdBytes < total then [event] else event :: fillBatch total rest

/-- `PrepareChannelEvents`. -/
def prepare : WatcherChannel :=
  match ch.queue with
  | [] => { ch with dispatchQueued := false }
  | front :: _ =>
    if ch.needReWatch then { ch with phase := .sending ⟨[front], true, 0⟩ }
    else if ch.snapshotRevision = 0 then { ch with dispatchQueued := false }
    else
      let queue := ch.queue.dropWhile fun e => e.revision ≤ ch.snapshotRevision
      if queue = [] then { ch with queue := [], dispatchQueued := false }
      else
        let events := fillBatch 0 (queue.take maxWatchEventsPerBatch)
        let maxEventRevision := events.foldl (fun m e => max m e.revision) 0
        { ch with queue := queue, phase := .sending ⟨events, false, maxEventRevision⟩ }

/-- Events that the trim after a send takes off the queue. -/
def trimmed (batch : Batch) : List WatchEvent :=
  ch.queue.takeWhile fun e => e.revision ≤ batch.maxEventRevision

/-- `HandleChannelEvents` behind `DoNotify`. -/
def notified (batch : Batch) : NotifyOutcome → WatcherChannel
  | .ok =>
    if batch.needReWatch then
      { ch with phase := .closing, delivered := ch.delivered ++ batch.events }
    else
      let queue := ch.queue.dropWhile fun e => e.revision ≤ batch.maxEventRevision
      { ch with
        queue := queue
        phase := .idle
        dispatchQueued := ch.dispatchQueued && !queue.isEmpty
        delivered := ch.delivered ++ batch.events }
  | .notFound => { ch with phase := .closing }
  | .failed => { ch with phase := .idle }

end WatcherChannel

/-! ## The system -/

/-- Where the fan-out thread is. -/
inductive FanOut
  | waiting
  | popped (batch : List WatchEvent)
  | rewatching (watchIds : List Nat) (batch : List WatchEvent)
  | matching (batch : List WatchEvent)
  | pushing (event : WatchEvent) (watchIds : List Nat) (rest : List WatchEvent)
deriving DecidableEq

inductive RegistrationPhase
  | addChannel
  | read
  | setSnapshot (revision : Nat) (kvs : List KeyValueEntry)
deriving DecidableEq

/-- A call of `WatchRange` behind its registration. -/
structure Registration where
  watchId : Nat
  key : Bytes
  rangeEnd : Bytes
  skipInitialKvs : Bool
  phase : RegistrationPhase
deriving DecidableEq

structure WatchSystem where
  store : MemoryKvStore := {}
  registry : WatchRegistry := {}
  channels : OrderedMap Nat WatcherChannel := .empty
  /-- Events of each mutation that its caller has still to enqueue. -/
  producers : List (List WatchEvent) := []
  pendingQueue : List WatchEvent := []
  pendingOverflow : Bool := false
  fanOut : FanOut := .waiting
  registrations : List Registration := []
  /-- All events of all mutations. -/
  log : List WatchEvent := []

inductive WatchAction
  | put (req : PutRequest)
  | delete (req : DeleteRequest)
  | expire (key : Bytes) (revision ttlGeneration : Nat)
  | enqueue (producer : Nat)
  | fanOut
  | prepare (watchId : Nat)
  | notified (watchId : Nat) (outcome : NotifyOutcome)
  | watchRange (entry : WatcherEntry) (skipInitialKvs : Bool)
  | registration (call : Nat)
  | cancel (watchId : Nat) (watcherAddr : Bytes)
  | removeChannel (watchId : Nat)

namespace WatchSystem

variable (s : WatchSystem)

/-- A mutation, whose events are handed over once the lock of the store is released. -/
def mutate (store : MemoryKvStore) (events : List WatchEvent) : WatchSystem :=
  { s with store := store, producers := s.producers ++ [events], log := s.log ++ events }

/-- `Enqueue`. -/
def enqueue (event : WatchEvent) : WatchSystem :=
  if maxPendingEvents ≤ s.pendingQueue.length then { s with pendingOverflow := true }
  else { s with pendingQueue := s.pendingQueue ++ [event] }

def modifyChannel (watchId : Nat) (f : WatcherChannel → WatcherChannel) : WatchSystem :=
  { s with channels := s.channels.modify watchId f }

/-- The next step of `FanOutLoop`. -/
def fanOutStep : WatchSystem :=
  match s.fanOut with
  | .waiting =>
    { s with
      pendingQueue := s.pendingQueue.drop maxWatchEventsPerFanOut
      fanOut := .popped (s.pendingQueue.take maxWatchEventsPerFanOut) }
  | .popped batch =>
    if s.pendingOverflow then
      { s with pendingOverflow := false, fanOut := .rewatching s.channels.keys batch }
    else { s with fanOut := .matching batch }
  | .rewatching [] batch => { s with fanOut := .matching batch }
  | .rewatching (watchId :: rest) batch =>
    { s.modifyChannel watchId .scheduleRewatch with fanOut := .rewatching rest batch }
  | .matching [] => { s with fanOut := .waiting }
  | .matching (event :: rest) =>
    { s with fanOut := .pushing event (s.registry.matchWatchers event.entry.key) rest }
  | .pushing _ [] rest => { s with fanOut := .matching rest }
  | .pushing event (watchId :: ids) rest =>
    { s.modifyChannel watchId (.offer event) with fanOut := .pushing event ids rest }

/-- `WatchRange` up to its registration. -/
def watchRange (entry : WatcherEntry) (skipInitialKvs : Bool) : Option WatchSystem :=
  (s.registry.register entry).toOption.map fun (watchId, created, registry) =>
    { s with
      registry := registry
      registrations := s.registrations ++ [⟨watchId, entry.key, entry.rangeEnd, skipInitialKvs,
        if created then .addChannel else .read⟩] }

/-- The next step of a `WatchRange`. -/
def registrationStep (index : Nat) (call : Registration) : WatchSystem :=
  match call.phase with
  | .addChannel =>
    { s with
      channels := s.channels.insert call.watchId { addedAt := s.store.revision }
      registrations := s.registrations.set index { call with phase := .read } }
  | .read =>
    let (kvs, revision) := s.store.range call.key call.rangeEnd
    { s with
      registrations := s.registrations.set index { call with
        phase := .setSnapshot revision (if call.skipInitialKvs then [] else kvs) } }
  | .setSnapshot revision kvs =>
    { s.modifyChannel call.watchId
        (.setSnapshotRevision revision (if call.skipInitialKvs then none else some kvs)) with
      registrations := s.registrations.eraseIdx index }

def step : WatchAction → Option WatchSystem
  | .put req => (s.store.put req).toOption.map fun (r, store) => s.mutate store [r.event]
  | .delete req => (s.store.delete req).toOption.map fun (r, store) => s.mutate store r.events
  | .expire key revision ttlGeneration =>
    (s.store.deleteIfTtlExpired key revision ttlGeneration).map fun (event, store) =>
      s.mutate store [event]
  | .enqueue producer =>
    match s.producers[producer]? with
    | some (event :: rest) =>
      some ({ s with producers := s.producers.set producer rest }.enqueue event)
    | _ => none
  | .fanOut => some s.fanOutStep
  | .prepare watchId =>
    match s.channels.find? watchId with
    | some ch =>
      if ch.phase = .idle ∧ ch.dispatchQueued then some (s.modifyChannel watchId .prepare) else none
    | none => none
  | .notified watchId outcome =>
    match s.channels.find? watchId with
    | some ch =>
      match ch.phase with
      | .sending batch => some (s.modifyChannel watchId (·.notified batch outcome))
      | _ => none
    | none => none
  | .watchRange entry skipInitialKvs => s.watchRange entry skipInitialKvs
  | .registration index => s.registrations[index]?.map (s.registrationStep index)
  | .cancel watchId watcherAddr =>
    (s.registry.cancel watchId watcherAddr).toOption.map fun registry =>
      { s with registry := registry }
  | .removeChannel watchId => some { s with channels := s.channels.erase watchId }

end WatchSystem

end Datasystem.Coordinator
