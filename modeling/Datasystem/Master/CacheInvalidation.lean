import Datasystem.Master.WorkerOpRecovery
import Datasystem.Master.WorkerRemoval

/-! Cache invalidation in the background. A round collects the keys that are pending for a worker,
reads what is to be sent, sends it, removes the acknowledged operations and takes the worker out
of the locations. Each of these holds its own lock, so operations are inserted and objects are
updated between them, and any number of rounds may be under way. -/

namespace Datasystem.Master

open Common Lib Checked StateMachine OCNotifyWorkerManager
  NotifyWorkerOpType
open Option (any_eq_true bind_eq_some_iff ite_none_right_eq_some map_eq_some_iff)
open OrderedMap (empty find?_erase find?_insert insert mem_entries_iff)

structure UpdateObjectInfoPb where
  objectKey : Bytes
  address : Bytes
  lifeState : Nat
  version : Nat

namespace OCMetadataManager

def fillUpdateObjectInfoPb (m : OCMetadataManager) (objectKey : Bytes) :
    Result UpdateObjectInfoPb :=
  match m.metaTable.find? objectKey with
  | none => .error ⟨.kNotFound, "FillUpdateObjectInfoPb failed. objectKey:"⟩
  | some entry =>
    .ok ⟨objectKey, entry.pb.primaryAddress, entry.pb.lifeState, entry.pb.version⟩

/-- A location is not removed on behalf of an older version. -/
def removeMetaLocation (m : OCMetadataManager) (objectKey address : Bytes) (version : Nat) :
    OCMetadataManager :=
  match m.metaTable.find? objectKey with
  | none => m
  | some entry => if version < entry.pb.version then m else m.eraseLocation objectKey address

end OCMetadataManager

namespace OCNotifyWorkerManager

/-- Whether `CACHE_INVALID` is pending for a worker and a key. -/
def pendingCacheInvalid (m : OCNotifyWorkerManager) (workerId objectKey : Bytes) : Bool :=
  (m.op? workerId objectKey).any fun op => testFlag op.type cacheInvalid

/-- `objsNeedCacheInvalid` of `ProcessAsyncNotifyOpImpl`. -/
def objsNeedCacheInvalid (m : OCNotifyWorkerManager) (workerId : Bytes) : List Bytes :=
  (((m.notifyWorkerOpTable.find? workerId).getD .empty).entries.filter fun (_, entry) =>
    testFlag entry.op.type cacheInvalid).map Prod.fst

end OCNotifyWorkerManager

/-- An object of a request, with the version that `objectVersions` has for it. The source reads
that version from a message it has moved from, so it need not be the one that is sent. -/
structure Notice where
  objectKey : Bytes
  version : Nat
  recorded : Nat

/-- How far a call of `SendCacheInvalidToWorker` is. -/
inductive Phase
  /-- These keys are still to be looked at. -/
  | filling (objectKeys : List Bytes)
  /-- There is nothing to send for the key, and its operation is removed next. -/
  | dropping (objectKey : Bytes) (objectKeys : List Bytes)
  | notifying (sentAt : Nat)
  /-- The worker has answered, and the operations are removed next. -/
  | acknowledged (sentAt : Nat)
  /-- `ClearAddressCacheInvalid` still has these to go through. -/
  | clearing (notices : List Notice)

structure Round where
  workerId : Bytes
  notices : List Notice := []
  phase : Phase

namespace Round

/-- What the next key of a round leads to. -/
def fill (round : Round) (objectKey : Bytes) (rest : List Bytes) (recorded : Nat) :
    Result UpdateObjectInfoPb → Round
  | .ok info =>
    if info.address ≠ round.workerId then
      { round with
        notices := round.notices ++ [⟨objectKey, info.version, recorded⟩]
        phase := .filling rest }
    else { round with phase := .dropping objectKey rest }
  | .error _ => { round with phase := .dropping objectKey rest }

/-- A notification for the key is under way, or acknowledged with its operation still there. -/
def awaits (round : Round) (objectKey : Bytes) : Bool :=
  match round.phase with
  | .notifying _ | .acknowledged _ => objectKey ∈ round.notices.map Notice.objectKey
  | _ => false

def drops (round : Round) (objectKey : Bytes) : Bool :=
  match round.phase with
  | .dropping k _ => k = objectKey
  | _ => false

end Round

structure Told where
  workerId : Bytes
  objectKey : Bytes
  version : Nat

/-- A master, its rounds, and what is known of the past: when each operation was last inserted,
and which workers have acknowledged and been cleared since the object was last updated. -/
structure CacheInvalidation where
  metadata : OCMetadataManager
  notifyWorkerManager : OCNotifyWorkerManager
  rounds : OrderedMap Nat Round := .empty
  clock : Nat := 0
  insertedAt : Bytes → Bytes → Nat := fun _ _ => 0
  told : List Told := []

namespace CacheInvalidation

/-- What a round does next. -/
inductive RoundAction
  /-- `FillUpdateObjectInfoPb` of the next key; its message reports `recorded` after the move. -/
  | fill (recorded : Nat)
  | drop
  | send
  | answer (failedIds : List Bytes)
  /-- The worker cannot be reached, or does not answer. -/
  | fail
  | removeOps
  | removeLocation

inductive Action
  | insertAsyncWorkerOp (workerId objectKey : Bytes)
  /-- The entry of an absent key is created. -/
  | createMeta (objectKey : Bytes) (entry : ObjectMeta)
  /-- An entry is overwritten. Workers in `notified` have been told at once; operations that
  `AsyncSendUpdateObject` inserts for other workers are actions of their own. -/
  | updateObject (objectKey : Bytes) (changed : ChangedMeta) (notified : List Bytes)
      (isAsync : Bool)
  /-- An update that fails after it has told some workers. -/
  | failUpdate (objectKey newAddress : Bytes) (notified : List Bytes) (isAsync : Bool)
  | deleteMeta (objectKey : Bytes)
  | startRound (id : Nat) (workerId : Bytes)
  | round (id : Nat) (action : RoundAction)

variable (s : CacheInvalidation)

def putRound (id : Nat) (round : Round) : CacheInvalidation :=
  { s with rounds := s.rounds.insert id round }

def endRound (id : Nat) : CacheInvalidation :=
  { s with rounds := s.rounds.erase id }

def removeOp (workerId : Bytes) (objectKeys : List Bytes) : CacheInvalidation :=
  { s with
    notifyWorkerManager :=
      s.notifyWorkerManager.removeAsyncWorkerOp workerId objectKeys cacheInvalid }

/-- An insertion for a dead worker is none. -/
def insertOp (workerId objectKey : Bytes) : CacheInvalidation :=
  if s.notifyWorkerManager.isWorkerDead workerId then s
  else
    { s with
      notifyWorkerManager :=
        s.notifyWorkerManager.insertAsyncWorkerOp workerId objectKey { type := cacheInvalid } true
      insertedAt := fun w k =>
        if w = workerId ∧ k = objectKey then s.clock else s.insertedAt w k }

/-- `AsyncSendUpdateObject` removes the operation of the worker that updates. The update holds the
entry from then on until its end. -/
def removeSourceOp (objectKey source : Bytes) (isAsync : Bool) : CacheInvalidation :=
  if isAsync then s.removeOp source [objectKey] else s

/-- Puts an entry, after which nobody has been told of its version. -/
def putMeta (s : CacheInvalidation) (objectKey : Bytes) (entry : ObjectMeta) : CacheInvalidation :=
  { s with
    metadata := s.metadata.putMeta objectKey entry
    told := s.told.filter (·.objectKey ≠ objectKey) }

/-- The workers that `SyncSendUpdateObject` has told are no locations any more. -/
def withoutNotified (entry : ObjectMeta) (source : Bytes) (notified : List Bytes) : ObjectMeta :=
  { entry with
    locations := entry.locations.filterKeys fun address =>
      address = source ∨ address ∉ notified }

def updateObject (objectKey : Bytes) (changed : ChangedMeta)
    (notified : List Bytes) (isAsync : Bool) (prevMeta : ObjectMeta) : CacheInvalidation :=
  (s.removeSourceOp objectKey changed.newAddress isAsync).putMeta objectKey
    ((withoutNotified prevMeta changed.newAddress notified).change changed)

def failUpdate (objectKey newAddress : Bytes) (notified : List Bytes)
    (isAsync : Bool) : CacheInvalidation :=
  let s := s.removeSourceOp objectKey newAddress isAsync
  { s with
    metadata :=
      notified.foldl (OCMetadataManager.eraseLocation · objectKey ·)
        (s.metadata.eraseLocation objectKey newAddress) }

def removeLocation (workerId : Bytes) (notice : Notice) : CacheInvalidation :=
  { s with
    metadata := s.metadata.removeMetaLocation notice.objectKey workerId notice.recorded
    told := ⟨workerId, notice.objectKey, notice.version⟩ :: s.told }

/-- `SendCacheInvalidToWorker` -/
def stepRound (id : Nat) (round : Round) : RoundAction → Phase → Option CacheInvalidation
  | .fill recorded, .filling (objectKey :: rest) =>
    some (s.putRound id
      (round.fill objectKey rest recorded (s.metadata.fillUpdateObjectInfoPb objectKey)))
  | .drop, .dropping objectKey rest =>
    some ((s.removeOp round.workerId [objectKey]).putRound id
      { round with phase := .filling rest })
  | .send, .filling [] =>
    if round.notices.isEmpty then some (s.endRound id)
    else some (s.putRound id { round with phase := .notifying s.clock })
  | .answer failedIds, .notifying sentAt =>
    some (s.putRound id
      { round with
        notices := round.notices.filter (·.objectKey ∉ failedIds)
        phase := .acknowledged sentAt })
  | .fail, .filling [] => some (s.endRound id)
  | .fail, .notifying _ => some (s.endRound id)
  | .removeOps, .acknowledged _ =>
    some ((s.removeOp round.workerId (round.notices.map Notice.objectKey)).putRound id
      { round with phase := .clearing round.notices })
  | .removeLocation, .clearing (notice :: rest) =>
    some ((s.removeLocation round.workerId notice).putRound id
      { round with phase := .clearing rest })
  | .removeLocation, .clearing [] => some (s.endRound id)
  | _, _ => none

def act : Action → Option CacheInvalidation
  | .insertAsyncWorkerOp workerId objectKey => some (s.insertOp workerId objectKey)
  | .createMeta objectKey entry =>
    if (s.metadata.metaTable.find? objectKey).isNone then some (s.putMeta objectKey entry)
    else none
  | .updateObject objectKey changed notified isAsync =>
    (s.metadata.metaTable.find? objectKey).map (s.updateObject objectKey changed notified isAsync)
  | .failUpdate objectKey newAddress notified isAsync =>
    if (s.metadata.metaTable.find? objectKey).isSome then
      some (s.failUpdate objectKey newAddress notified isAsync)
    else none
  | .deleteMeta objectKey => some { s with metadata := s.metadata.eraseMeta objectKey }
  | .startRound id workerId =>
    if (s.rounds.find? id).isNone then
      some (s.putRound id
        { workerId := workerId
          phase := .filling (s.notifyWorkerManager.objsNeedCacheInvalid workerId) })
    else none
  | .round id action =>
    (s.rounds.find? id).bind fun round => s.stepRound id round action round.phase

def tick : CacheInvalidation := { s with clock := s.clock + 1 }

def step (a : Action) : Option CacheInvalidation := s.tick.act a

def start (metadata : OCMetadataManager) (notifyWorkerManager : OCNotifyWorkerManager) :
    CacheInvalidation :=
  { metadata, notifyWorkerManager }

def pending (workerId objectKey : Bytes) : Bool :=
  s.notifyWorkerManager.pendingCacheInvalid workerId objectKey

/-! ## What a round relies on -/

def allRounds (p : Round → Bool) : Bool :=
  s.rounds.entries.all fun (_, round) => p round

/-- Nothing is inserted for a worker and a key from when the worker is notified until the operation
is removed; the primary of a key does not change from when a round finds nothing to send until it
removes the operation; and no update fails after it has removed an operation. -/
def undisturbed : Action → Bool
  | .insertAsyncWorkerOp workerId objectKey =>
    s.allRounds fun round => round.workerId ≠ workerId ∨ ¬round.awaits objectKey
  | .createMeta objectKey _ => s.allRounds fun round => ¬round.drops objectKey
  | .updateObject objectKey changed _ _ =>
    s.allRounds fun round => round.drops objectKey → round.workerId = changed.newAddress
  | .failUpdate objectKey newAddress _ isAsync =>
    isAsync → ¬s.pending newAddress objectKey
  | _ => true

/-- A message still has its version after the move. -/
def keepsVersion : Action → Bool
  | .round id (.fill recorded) =>
    (s.rounds.find? id).all fun round =>
      match round.phase with
      | .filling (objectKey :: _) =>
        (s.metadata.metaTable.find? objectKey).all (·.pb.version = recorded)
      | _ => true
  | _ => true

/-! ## What is removed from the pending operations -/

variable {s s' : CacheInvalidation} {w w' k k' : Bytes} {a : Action}

variable {keys : List Bytes} {isAsync : Bool} {id : Nat} {round : Round}

theorem testFlag_mergeType_cacheInvalid : ∀ type, testFlag type cacheInvalid →
    testFlag (mergeType type cacheInvalid) cacheInvalid := by
  decide +kernel

theorem pending_removeOp (h : ¬(w' = w ∧ k' ∈ keys)) :
    (s.removeOp w keys).pending w' k' = s.pending w' k' := by
  unfold pending CacheInvalidation.removeOp pendingCacheInvalid op? removeAsyncWorkerOp
    commitAsyncWorkerOpRequests
  rw [entryOf_foldl_applyRequest_of_ne, entryOf_foldl_storeRequest]
  -- every request is for the worker and one of the keys
  intro request hreq hsame
  obtain ⟨key, hkey, hbind⟩ := List.mem_filterMap.mp hreq
  obtain ⟨entry, -, hclear⟩ := bind_eq_some_iff.mp hbind
  obtain ⟨hworker, hobj, -⟩ := clearRequest_eq_some hclear
  exact h ⟨hsame.1.trans hworker, by rwa [hsame.2, hobj]⟩

theorem pending_insertOp (h : s.pending w' k') : (s.insertOp w k).pending w' k' := by
  unfold insertOp
  split
  · exact h
  · rename_i halive
    unfold pending pendingCacheInvalid at h ⊢
    rw [op?_insertAsyncWorkerOp (by simpa using halive)]
    split
    · rename_i hsame
      obtain ⟨rfl, rfl⟩ := hsame
      -- the operation is merged into an entry that has it already
      cases hop : s.notifyWorkerManager.op? w' k' with
      | none => simp [hop] at h
      | some op =>
        rw [hop] at h
        simpa [insertedOp, type_mergeAsyncWorkerOpEntry] using
            testFlag_mergeType_cacheInvalid op.type h
    · exact h

theorem pending_removeSourceOp (h : ¬(w' = w ∧ k' = k ∧ isAsync)) :
    (s.removeSourceOp k w isAsync).pending w' k' = s.pending w' k' := by
  unfold removeSourceOp
  split
  · rename_i hasync
    exact pending_removeOp (by simpa [hasync] using h)
  · rfl

/-- What a round removes: the operation it drops, or those that have been acknowledged. -/
theorem lost_in_round {action}
    (hstep : s.stepRound id round action round.phase = some s') (hpending : s.pending w k)
    (hlost : ¬s'.pending w k) : s'.metadata = s.metadata ∧ round.workerId = w ∧
      ((∃ rest, round.phase = .dropping k rest) ∨ ∃ sentAt, round.phase = .acknowledged sentAt ∧
          k ∈ round.notices.map Notice.objectKey) := by
  have hremove : ∀ {keys : List Bytes} {round' : Round},
      ¬((s.removeOp round.workerId keys).putRound id round').pending w k →
        round.workerId = w ∧ k ∈ keys := by
    intro keys round' hnot
    by_contra hother
    exact hnot ((pending_removeOp fun h => hother ⟨h.1.symm, h.2⟩).trans hpending)
  unfold stepRound at hstep
  split at hstep
  · cases hstep
    exact absurd hpending hlost
  · cases hstep
    obtain ⟨hworker, hkey⟩ := hremove hlost
    rename_i objectKey rest hphase
    cases List.mem_singleton.mp hkey
    exact ⟨rfl, hworker, .inl ⟨rest, hphase⟩⟩
  · split at hstep <;> cases hstep <;> exact absurd hpending hlost
  · cases hstep
    exact absurd hpending hlost
  · cases hstep
    exact absurd hpending hlost
  · cases hstep
    exact absurd hpending hlost
  · cases hstep
    obtain ⟨hworker, hkey⟩ := hremove hlost
    rename_i sentAt hphase
    exact ⟨rfl, hworker, .inr ⟨sentAt, hphase, hkey⟩⟩
  · cases hstep
    exact absurd hpending hlost
  · cases hstep
    exact absurd hpending hlost
  · cases hstep

theorem lost_cases (hact : s.act a = some s') (hpending : s.pending w k) (hlost : ¬s'.pending w k) :
    (∃ changed notified, a = .updateObject k changed notified true ∧ changed.newAddress = w) ∨
      (∃ notified, a = .failUpdate k w notified true) ∨
      ∃ id round, s.rounds.find? id = some round ∧ s'.metadata = s.metadata ∧
        round.workerId = w ∧ ((∃ rest, round.phase = .dropping k rest) ∨
          ∃ sentAt, round.phase = .acknowledged sentAt ∧
            k ∈ round.notices.map Notice.objectKey) := by
  cases a with
  | insertAsyncWorkerOp =>
    cases hact
    exact absurd (pending_insertOp hpending) hlost
  | createMeta | startRound =>
    obtain ⟨-, hact⟩ := ite_none_right_eq_some.mp hact
    cases hact
    exact absurd hpending hlost
  | updateObject _ changed notified =>
    obtain ⟨prevMeta, -, rfl⟩ := map_eq_some_iff.mp hact
    left
    by_contra hother
    refine hlost ((pending_removeSourceOp ?_).trans hpending)
    rintro ⟨rfl, rfl, rfl⟩
    exact hother ⟨changed, notified, rfl, rfl⟩
  | failUpdate _ _ notified =>
    obtain ⟨-, hact⟩ := ite_none_right_eq_some.mp hact
    cases hact
    right; left
    by_contra hother
    refine hlost ((pending_removeSourceOp ?_).trans hpending)
    rintro ⟨rfl, rfl, rfl⟩
    exact hother ⟨notified, rfl⟩
  | deleteMeta =>
    cases hact
    exact absurd hpending hlost
  | round id =>
    obtain ⟨round, hround, hact⟩ := bind_eq_some_iff.mp hact
    exact .inr (.inr ⟨id, round, hround, lost_in_round hact hpending hlost⟩)

/-! ## The invariant -/

/-- What a round may rely on where it is. -/
def Holds (s : CacheInvalidation) (round : Round) : Prop :=
  match round.phase with
  | .filling _ | .clearing _ => True
  | .dropping objectKey _ => ∀ entry, s.metadata.metaTable.find? objectKey = some entry →
      entry.pb.primaryAddress = round.workerId
  | .notifying sentAt | .acknowledged sentAt =>
    ∀ objectKey ∈ round.notices.map Notice.objectKey,
      s.insertedAt round.workerId objectKey < sentAt

structure Inv (s : CacheInvalidation) : Prop where
  inserted : ∀ w k, s.insertedAt w k ≤ s.clock
  holds : ∀ id round, s.rounds.find? id = some round → s.Holds round

theorem inv_start (metadata) (notifyWorkerManager) : Inv (start metadata notifyWorkerManager) where
  inserted := fun _ _ => Nat.le_refl 0
  holds := fun _ _ h => nomatch h

theorem Inv.tick (h : Inv s) : Inv s.tick :=
  ⟨fun w k => (h.inserted w k).trans (Nat.le_succ _), h.holds⟩

theorem forall_putRound {P : Round → Prop} (h : ∀ id r, s.rounds.find? id = some r → P r)
    (hnew : P round) : ∀ id' r, (s.putRound id round).rounds.find? id' = some r → P r := by
  intro id' r hr
  rw [CacheInvalidation.putRound, find?_insert] at hr
  split at hr
  · cases hr
    exact hnew
  · exact h id' r hr

theorem forall_endRound {P : Round → Prop} (h : ∀ id r, s.rounds.find? id = some r → P r) :
    ∀ id' r, (s.endRound id).rounds.find? id' = some r → P r := by
  intro id' r hr
  rw [CacheInvalidation.endRound, find?_erase] at hr
  split at hr
  · cases hr
  · exact h id' r hr

theorem Inv.putRound (h : Inv s) (hholds : s.Holds round) : Inv (s.putRound id round) :=
  ⟨h.inserted, forall_putRound h.holds hholds⟩

theorem Inv.endRound (h : Inv s) : Inv (s.endRound id) :=
  ⟨h.inserted, forall_endRound h.holds⟩

theorem Inv.removeOp (h : Inv s) : Inv (s.removeOp w keys) := ⟨h.inserted, h.holds⟩

theorem Inv.removeSourceOp (h : Inv s) : Inv (s.removeSourceOp k w isAsync) := by
  unfold CacheInvalidation.removeSourceOp
  split
  · exact h.removeOp
  · exact h

theorem Inv.insertOp (h : Inv s)
    (hnone : ∀ id round, s.rounds.find? id = some round → round.workerId = w → ¬round.awaits k) :
    Inv (s.insertOp w k) := by
  unfold CacheInvalidation.insertOp
  split
  · exact h
  · refine ⟨fun w' k' => ?_, fun id round hround => ?_⟩
    · dsimp only
      split
      · exact Nat.le_refl _
      · exact h.inserted w' k'
    · have hholds := h.holds id round hround
      have hawaits := hnone id round hround
      -- a round that waits for a key keeps the time of its last insertion
      have hkept : ∀ {sentAt : Nat}, (∀ objectKey ∈ round.notices.map Notice.objectKey,
          round.awaits objectKey ∧ s.insertedAt round.workerId objectKey < sentAt) →
          ∀ objectKey ∈ round.notices.map Notice.objectKey,
            (if round.workerId = w ∧ objectKey = k then s.clock
              else s.insertedAt round.workerId objectKey) < sentAt := by
        intro sentAt hbefore objectKey hmem
        obtain ⟨hwaits, hlt⟩ := hbefore objectKey hmem
        rw [if_neg]
        · exact hlt
        · rintro ⟨hworker, rfl⟩
          exact hawaits hworker hwaits
      unfold Holds at hholds ⊢
      split <;> simp_all [Round.awaits]

/-- Entries may go, and locations may be taken out of them. -/
def Shrinks (m m' : OCMetadataManager) : Prop :=
  ∀ k entry', m'.metaTable.find? k = some entry' → ∃ entry, m.metaTable.find? k = some entry ∧
    entry'.pb = entry.pb ∧ ∀ w, entry'.Located w → entry.Located w

theorem Inv.shrink {m} (h : Inv s) (hm : Shrinks s.metadata m) : Inv { s with metadata := m } := by
  refine ⟨h.inserted, fun id round hround => ?_⟩
  have hholds := h.holds id round hround
  unfold Holds at hholds ⊢
  split
  · trivial
  · trivial
  · intro entry' hentries'
    obtain ⟨entry, hentry, hpb, -⟩ := hm _ _ hentries'
    rename_i hphase
    rw [hphase] at hholds
    exact hpb ▸ hholds entry hentry
  all_goals simp_all

variable {m m' : OCMetadataManager}

theorem Shrinks.refl : Shrinks m m := fun _ entry h => ⟨entry, h, rfl, fun _ hw => hw⟩

theorem Shrinks.trans {m''} (h : Shrinks m m') (h' : Shrinks m' m'') : Shrinks m m'' := by
  intro k entry'' hentry''
  obtain ⟨entry', hentries', hpb', hloc'⟩ := h' k entry'' hentry''
  obtain ⟨entry, hentry, hpb, hloc⟩ := h k entry' hentries'
  exact ⟨entry, hentry, hpb'.trans hpb, fun w hw => hloc w (hloc' w hw)⟩

theorem shrinks_eraseLocation : Shrinks m (m.eraseLocation k w) := by
  intro k' entry' hentries'
  rw [OCMetadataManager.find?_eraseLocation] at hentries'
  split at hentries'
  · rename_i heq
    subst heq
    obtain ⟨entry, hentry, rfl⟩ := map_eq_some_iff.mp hentries'
    exact ⟨entry, hentry, rfl, fun w' hw' => (ObjectMeta.located_erase.mp hw').2⟩
  · exact ⟨entry', hentries', rfl, fun _ hw' => hw'⟩

theorem shrinks_removeMetaLocation {version : Nat} :
    Shrinks m (m.removeMetaLocation k w version) := by
  unfold OCMetadataManager.removeMetaLocation
  split
  · exact .refl
  · split
    · exact .refl
    · exact shrinks_eraseLocation

theorem shrinks_eraseMeta : Shrinks m (m.eraseMeta k) := by
  intro k' entry' hentry'
  rw [OCMetadataManager.eraseMeta, find?_erase] at hentry'
  split at hentry'
  · cases hentry'
  · exact ⟨entry', hentry', rfl, fun _ hw' => hw'⟩

theorem shrinks_foldl_eraseLocation {workers : List Bytes} :
    Shrinks m (workers.foldl (OCMetadataManager.eraseLocation · k ·) m) :=
  List.foldlRecOn workers _ (motive := Shrinks m) .refl fun _ h _ _ => h.trans shrinks_eraseLocation

/-- At the version it is removed for, or an older one, the worker is no location. -/
theorem not_located_removeMetaLocation {version : Nat} {entry}
    (hentry : (m.removeMetaLocation k w version).metaTable.find? k = some entry)
    (hversion : entry.pb.version ≤ version) : ¬entry.Located w := by
  unfold OCMetadataManager.removeMetaLocation at hentry
  split at hentry
  · rename_i hnone
    rw [hnone] at hentry
    cases hentry
  · rename_i previous hprevious
    split at hentry
    · cases hprevious.symm.trans hentry
      omega
    · rw [OCMetadataManager.find?_eraseLocation, if_pos rfl, hprevious] at hentry
      cases hentry
      intro hloc
      exact (ObjectMeta.located_erase.mp hloc).1 rfl

/-- An entry is replaced while no round is about to drop its key for another worker. -/
theorem Inv.putMeta {entry} (h : Inv s)
    (hdrops : ∀ id round, s.rounds.find? id = some round → round.drops k →
      round.workerId = entry.pb.primaryAddress) : Inv (s.putMeta k entry) := by
  refine ⟨h.inserted, fun id round hround => ?_⟩
  have hholds := h.holds id round hround
  have hround := hdrops id round hround
  unfold Holds at hholds ⊢
  split
  · trivial
  · trivial
  · rename_i objectKey rest hphase
    intro entry' hentry'
    have hentry' := (find?_insert s.metadata.metaTable k objectKey entry).symm.trans hentry'
    by_cases hkey : objectKey = k
    · cases (if_pos hkey).symm.trans hentry'
      exact (hround (by simp [Round.drops, hphase, hkey])).symm
    · rw [hphase] at hholds
      exact hholds entry' ((if_neg hkey).symm.trans hentry')
  all_goals simp_all [CacheInvalidation.putMeta]

theorem Inv.removeLocation {notice} (h : Inv s) : Inv (s.removeLocation w notice) := by
  have hshrunk := h.shrink (m := s.metadata.removeMetaLocation notice.objectKey w notice.recorded)
    shrinks_removeMetaLocation
  exact ⟨hshrunk.inserted, hshrunk.holds⟩

/-! ## Steps and runs -/

theorem holds_fill {recorded : Nat} {objectKey} {rest} :
    s.Holds (round.fill objectKey rest recorded (s.metadata.fillUpdateObjectInfoPb objectKey)) := by
  unfold OCMetadataManager.fillUpdateObjectInfoPb
  cases hentry : s.metadata.metaTable.find? objectKey with
  | none =>
    intro entry hsome
    cases hentry.symm.trans hsome
  | some entry =>
    simp only [Round.fill]
    split
    · trivial
    · rename_i hsame
      intro entry' hsome
      cases hentry.symm.trans hsome
      exact not_not.mp hsame

theorem Inv.stepRound {action} (h : Inv s)
    (hfresh : ∀ w k, s.insertedAt w k < s.clock) (hround : s.rounds.find? id = some round)
    (hstep : s.stepRound id round action round.phase = some s') : Inv s' := by
  have hholds := h.holds id round hround
  unfold CacheInvalidation.stepRound at hstep
  split at hstep
  · cases hstep
    exact h.putRound holds_fill
  · cases hstep
    exact h.removeOp.putRound trivial
  · split at hstep
    · cases hstep
      exact h.endRound
    · -- the message is sent at the clock, later than every insertion so far
      cases hstep
      exact h.putRound fun objectKey _ => hfresh round.workerId objectKey
  · rename_i failedIds sentAt hphase
    cases hstep
    rw [Holds, hphase] at hholds
    refine h.putRound fun objectKey hmem => ?_
    exact hholds objectKey ((List.filter_sublist.map Notice.objectKey).subset hmem)
  · cases hstep
    exact h.endRound
  · cases hstep
    exact h.endRound
  · cases hstep
    exact h.removeOp.putRound trivial
  · cases hstep
    exact h.removeLocation.putRound trivial
  · cases hstep
    exact h.endRound
  · cases hstep

theorem of_allRounds {p} (h : s.allRounds p) (hround : s.rounds.find? id = some round) : p round :=
  List.all_eq_true.mp h (id, round) (mem_entries_iff.mpr hround)

theorem rounds_removeSourceOp : (s.removeSourceOp k w isAsync).rounds = s.rounds := by
  unfold CacheInvalidation.removeSourceOp
  split <;> rfl

theorem Inv.act (h : Inv s) (hfresh : ∀ w k, s.insertedAt w k < s.clock)
    (hcond : s.undisturbed a) (hact : s.act a = some s') : Inv s' := by
  cases a with
  | insertAsyncWorkerOp workerId objectKey =>
    cases hact
    rw [undisturbed] at hcond
    refine h.insertOp fun id round hround hworker => ?_
    have := of_allRounds hcond hround
    simpa [hworker] using this
  | createMeta objectKey entry =>
    obtain ⟨-, hact⟩ := ite_none_right_eq_some.mp hact
    cases hact
    rw [undisturbed] at hcond
    refine h.putMeta fun id round hround hdrops => ?_
    have := of_allRounds hcond hround
    exact absurd hdrops (by simpa using this)
  | updateObject =>
    obtain ⟨prevMeta, -, rfl⟩ := map_eq_some_iff.mp hact
    rw [undisturbed] at hcond
    refine h.removeSourceOp.putMeta fun id round hround hdrops => ?_
    rw [rounds_removeSourceOp] at hround
    exact of_decide_eq_true (of_allRounds hcond hround) hdrops
  | failUpdate =>
    obtain ⟨-, hact⟩ := ite_none_right_eq_some.mp hact
    cases hact
    exact h.removeSourceOp.shrink (shrinks_eraseLocation.trans shrinks_foldl_eraseLocation)
  | deleteMeta =>
    cases hact
    exact h.shrink shrinks_eraseMeta
  | startRound id workerId =>
    obtain ⟨-, hact⟩ := ite_none_right_eq_some.mp hact
    cases hact
    exact h.putRound trivial
  | round =>
    obtain ⟨round, hround, hact⟩ := bind_eq_some_iff.mp hact
    exact h.stepRound hfresh hround hact

theorem Inv.step (h : Inv s) (hstep : restrict undisturbed step s a = some s') : Inv s' := by
  obtain ⟨hcond, hact⟩ := restrict_eq_some.mp hstep
  exact h.tick.act (fun w k => Nat.lt_succ_of_le (h.inserted w k)) hcond hact

theorem Inv.run {metadata} {notifyWorkerManager}
    (h : Reaches (restrict undisturbed CacheInvalidation.step)
      (start metadata notifyWorkerManager) s) : Inv s :=
  h.invariant (I := Inv) (inv_start metadata notifyWorkerManager) fun _ _ _ hstep h => h.step hstep

/-- What a worker has acknowledged of a key was sent after the last insertion. -/
def acknowledges (s : CacheInvalidation) (round : Round) (w k : Bytes) : Bool :=
  match round.phase with
  | .acknowledged sentAt =>
    round.workerId = w ∧ k ∈ round.notices.map Notice.objectKey ∧ s.insertedAt w k < sentAt
  | _ => false

/-- The operation of a worker and a key may go: the key has no metadata, the worker is its primary,
or it has acknowledged what was sent after the last insertion. -/
def justified (s s' : CacheInvalidation) (w k : Bytes) : Bool :=
  (s'.metadata.metaTable.find? k).all (·.pb.primaryAddress = w) ||
    s.rounds.entries.any fun (_, round) => s.acknowledges round w k

theorem Inv.justified (h : Inv s) (hcond : s.undisturbed a) (hact : s.act a = some s')
    (hpending : s.pending w k) (hlost : ¬s'.pending w k) : s.justified s' w k := by
  obtain ⟨changed, notified, rfl, rfl⟩ | ⟨notified, rfl⟩ |
    ⟨id, round, hround, hmeta, rfl, hphase⟩ := lost_cases hact hpending hlost
  · obtain ⟨prevMeta, -, rfl⟩ := map_eq_some_iff.mp hact
    have hfind : (s.updateObject k changed notified true prevMeta).metadata.metaTable.find? k =
        some ((withoutNotified prevMeta changed.newAddress notified).change changed) := by
      show (insert _ _ _).find? k = _
      rw [find?_insert]
      simp
    simp [CacheInvalidation.justified, hfind, ObjectMeta.change]
  · exact absurd hpending (by simpa [undisturbed] using hcond)
  · have hholds := h.holds id round hround
    rw [CacheInvalidation.justified, Bool.or_eq_true]
    rcases hphase with ⟨rest, hphase⟩ | ⟨sentAt, hphase, hkey⟩
    · rw [Holds, hphase, ← hmeta] at hholds
      left
      cases hentry : s'.metadata.metaTable.find? k with
      | none => rfl
      | some entry => simpa using hholds entry hentry
    · rw [Holds, hphase] at hholds
      right
      refine List.any_eq_true.mpr ⟨(id, round), mem_entries_iff.mpr hround, ?_⟩
      simp only [acknowledges, hphase]
      exact decide_eq_true ⟨trivial, hkey, hholds k hkey⟩

/-! ## What workers have been told -/

/-- What a round takes for the version of a message is the version it sent. -/
def RecordsVersions (round : Round) : Prop :=
  (∀ notice ∈ round.notices, notice.recorded = notice.version) ∧
    ∀ notices, round.phase = .clearing notices →
      ∀ notice ∈ notices, notice.recorded = notice.version

/-- A worker that has acknowledged the present version of an object is no location of it. -/
structure Informed (s : CacheInvalidation) : Prop where
  told : ∀ t ∈ s.told, ∀ entry, s.metadata.metaTable.find? t.objectKey = some entry →
    entry.pb.version = t.version → ¬entry.Located t.workerId
  recorded : ∀ id round, s.rounds.find? id = some round → RecordsVersions round

theorem Informed.putRound (h : Informed s) (hrecorded : RecordsVersions round) :
    Informed (s.putRound id round) :=
  ⟨h.told, forall_putRound h.recorded hrecorded⟩

theorem Informed.endRound (h : Informed s) : Informed (s.endRound id) :=
  ⟨h.told, forall_endRound h.recorded⟩

theorem Informed.removeOp (h : Informed s) : Informed (s.removeOp w keys) := ⟨h.told, h.recorded⟩

theorem Informed.removeSourceOp (h : Informed s) : Informed (s.removeSourceOp k w isAsync) := by
  unfold CacheInvalidation.removeSourceOp
  split
  · exact h.removeOp
  · exact h

theorem Informed.insertOp (h : Informed s) : Informed (s.insertOp w k) := by
  unfold CacheInvalidation.insertOp
  split
  · exact h
  · exact ⟨h.told, h.recorded⟩

theorem Informed.shrink (h : Informed s) (hm : Shrinks s.metadata m) :
    Informed { s with metadata := m } := by
  refine ⟨fun t ht entry' hentries' hversion hloc => ?_, h.recorded⟩
  obtain ⟨entry, hentry, hpb, hlocated⟩ := hm _ _ hentries'
  exact h.told t ht entry hentry (hpb ▸ hversion) (hlocated _ hloc)

theorem Informed.putMeta {entry} (h : Informed s) : Informed (s.putMeta k entry) := by
  refine ⟨fun t ht entry' hentry' => ?_, h.recorded⟩
  obtain ⟨ht, hne⟩ := List.mem_filter.mp ht
  have hentry' := (find?_insert s.metadata.metaTable k t.objectKey entry).symm.trans hentry'
  exact h.told t ht entry' ((if_neg (by simpa using hne)).symm.trans hentry')

theorem Informed.removeLocation {notice} (h : Informed s)
    (hrecorded : notice.recorded = notice.version) :
    Informed (s.removeLocation w notice) := by
  have hshrunk := h.shrink (m := s.metadata.removeMetaLocation notice.objectKey w notice.recorded)
    shrinks_removeMetaLocation
  refine ⟨fun t ht => ?_, h.recorded⟩
  rcases List.mem_cons.mp ht with rfl | ht
  · intro entry hentry hversion
    exact not_located_removeMetaLocation hentry (hversion.trans hrecorded.symm).le
  · exact hshrunk.told t ht

theorem RecordsVersions.fill {recorded : Nat} {objectKey} {rest} (h : RecordsVersions round)
    (hversion : (s.metadata.metaTable.find? objectKey).all (·.pb.version = recorded)) :
    RecordsVersions (round.fill objectKey rest recorded
      (s.metadata.fillUpdateObjectInfoPb objectKey)) := by
  unfold OCMetadataManager.fillUpdateObjectInfoPb
  cases hentry : s.metadata.metaTable.find? objectKey with
  | none => exact ⟨h.1, nofun⟩
  | some entry =>
    rw [hentry] at hversion
    simp only [Round.fill]
    split
    · refine ⟨fun notice hnotice => ?_, nofun⟩
      rcases List.mem_append.mp hnotice with hnotice | hnotice
      · exact h.1 notice hnotice
      · cases List.mem_singleton.mp hnotice
        exact (of_decide_eq_true hversion).symm
    · exact ⟨h.1, nofun⟩

theorem Informed.stepRound {action} (h : Informed s) (hround : s.rounds.find? id = some round)
    (hcond : s.keepsVersion (.round id action))
    (hstep : s.stepRound id round action round.phase = some s') : Informed s' := by
  have hrecorded := h.recorded id round hround
  unfold CacheInvalidation.stepRound at hstep
  split at hstep
  · rename_i hphase
    cases hstep
    exact h.putRound (hrecorded.fill (by simpa [keepsVersion, hround, hphase] using hcond))
  · cases hstep
    exact h.removeOp.putRound ⟨hrecorded.1, nofun⟩
  · split at hstep
    · cases hstep
      exact h.endRound
    · cases hstep
      exact h.putRound ⟨hrecorded.1, nofun⟩
  · cases hstep
    exact h.putRound ⟨fun notice hnotice => hrecorded.1 notice (List.mem_of_mem_filter hnotice),
      nofun⟩
  · cases hstep
    exact h.endRound
  · cases hstep
    exact h.endRound
  · cases hstep
    refine h.removeOp.putRound ⟨hrecorded.1, fun notices hphase => ?_⟩
    cases hphase
    exact hrecorded.1
  · rename_i notice rest hphase
    cases hstep
    -- the location goes only with the version of the notice, which is the one that was told
    obtain ⟨hnotice, hrest⟩ := List.forall_mem_cons.mp (hrecorded.2 _ hphase)
    refine (h.removeLocation hnotice).putRound ⟨hrecorded.1, fun notices hphase => ?_⟩
    cases hphase
    exact hrest
  · cases hstep
    exact h.endRound
  · cases hstep

theorem Informed.act (h : Informed s) (hcond : s.keepsVersion a) (hact : s.act a = some s') :
    Informed s' := by
  cases a with
  | insertAsyncWorkerOp =>
    cases hact
    exact h.insertOp
  | createMeta =>
    obtain ⟨-, hact⟩ := ite_none_right_eq_some.mp hact
    cases hact
    exact h.putMeta
  | updateObject =>
    obtain ⟨prevMeta, -, rfl⟩ := map_eq_some_iff.mp hact
    exact h.removeSourceOp.putMeta
  | failUpdate =>
    obtain ⟨-, hact⟩ := ite_none_right_eq_some.mp hact
    cases hact
    exact h.removeSourceOp.shrink (shrinks_eraseLocation.trans shrinks_foldl_eraseLocation)
  | deleteMeta =>
    cases hact
    exact h.shrink shrinks_eraseMeta
  | startRound =>
    obtain ⟨-, hact⟩ := ite_none_right_eq_some.mp hact
    cases hact
    exact h.putRound ⟨by simp, nofun⟩
  | round =>
    obtain ⟨round, hround, hact⟩ := bind_eq_some_iff.mp hact
    exact h.stepRound hround hcond hact

theorem Informed.run {metadata} {notifyWorkerManager}
    (h : Reaches (restrict keepsVersion CacheInvalidation.step)
      (start metadata notifyWorkerManager) s) : Informed s := by
  refine h.invariant (I := Informed) ⟨by simp [start], nofun⟩ fun s a s' hstep h => ?_
  obtain ⟨hcond, hact⟩ := restrict_eq_some.mp hstep
  have htick : Informed s.tick := ⟨h.told, h.recorded⟩
  exact htick.act hcond hact

/-- In a run of undisturbed actions no pending invalidation is lost. In one whose messages keep
their versions, a worker that has acknowledged the present version of an object is no location of
it. -/
theorem cacheInvalid_not_lost (metadata : OCMetadataManager)
    (notifyWorkerManager : OCNotifyWorkerManager) (s : CacheInvalidation) :
    (Reaches (restrict undisturbed step) (start metadata notifyWorkerManager) s →
      ∀ a s', restrict undisturbed step s a = some s' →
        ∀ w k, s.pending w k → ¬s'.pending w k → s.justified s' w k) ∧
    (Reaches (restrict keepsVersion step) (start metadata notifyWorkerManager) s →
      ∀ t ∈ s.told, ∀ entry, s.metadata.metaTable.find? t.objectKey = some entry →
        entry.pb.version = t.version → ¬entry.Located t.workerId) := by
  refine ⟨fun h a s' hstep w k hpending hlost => ?_, fun h => (Informed.run h).told⟩
  obtain ⟨hcond, hact⟩ := restrict_eq_some.mp hstep
  exact (Inv.run h).tick.justified hcond hact hpending hlost

/-- An object at version 5 with its primary copy on worker 1 and another copy on worker 2, whose
invalidation is pending. -/
def twoWorkers : CacheInvalidation :=
  start ((OCMetadataManager.start fun _ => 0).putMeta [9]
      { pb := { primaryAddress := [1], version := 5 }
        locations := (empty.insert [1] .ack).insert [2] .ack })
    (insertAsyncWorkerOp {} [2] [9] { type := cacheInvalid } true)

/-- A round for worker 2, up to where the acknowledged operation is removed. -/
def acknowledgedRound (recorded : Nat) : List Action :=
  [.startRound 0 [2], .round 0 (.fill recorded), .round 0 .send, .round 0 (.answer [])]

theorem cacheInvalid_not_lost_of_round :
    (∃ s s', Reaches (restrict undisturbed step) twoWorkers s ∧
      restrict undisturbed step s (.round 0 .removeOps) = some s' ∧ s.pending [2] [9] ∧
      ¬s'.pending [2] [9] ∧ s.justified s' [2] [9]) ∧
    ∃ s, Reaches (restrict keepsVersion step) twoWorkers s ∧ ∃ t ∈ s.told, ∃ entry,
      s.metadata.metaTable.find? t.objectKey = some entry ∧ entry.pb.version = t.version ∧
        ¬entry.Located t.workerId := by
  constructor
  · have hrun : (run (restrict undisturbed step) twoWorkers (acknowledgedRound 5)).any fun s =>
        (restrict undisturbed step s (.round 0 .removeOps)).any fun s' =>
          s.pending [2] [9] ∧ ¬s'.pending [2] [9] := by
      decide +kernel
    obtain ⟨s, hs, hnext⟩ := exists_of_run _ hrun
    obtain ⟨s', hstep, hp⟩ := (any_eq_true _ _).mp hnext
    obtain ⟨hpending, hlost⟩ := of_decide_eq_true hp
    have hkept := (cacheInvalid_not_lost _ _ s).1 hs
    exact ⟨s, s', hs, hstep, hpending, hlost, hkept _ _ hstep _ _ hpending hlost⟩
  · have hrun : (run (restrict keepsVersion step) twoWorkers
        (acknowledgedRound 5 ++ [.round 0 .removeOps, .round 0 .removeLocation])).any fun s =>
          s.told.any fun t => (s.metadata.metaTable.find? t.objectKey).any fun entry =>
            entry.pb.version = t.version := by
      decide +kernel
    obtain ⟨s, hs, hp⟩ := exists_of_run _ hrun
    obtain ⟨t, ht, hp⟩ := List.any_eq_true.mp hp
    obtain ⟨entry, hentry, hp⟩ := (any_eq_true _ _).mp hp
    have hversion := of_decide_eq_true hp
    exact ⟨s, hs, t, ht, entry, hentry, hversion,
      (cacheInvalid_not_lost _ _ s).2 hs t ht entry hentry hversion⟩

/-- The operation that an update inserts between a notification and the removal of the
acknowledged operation is removed with it. A version that was lost in the move keeps the worker
among the locations. -/
theorem cacheInvalid_lost_beside_update :
    (∃ s s', Reaches step twoWorkers s ∧ s.step (.round 0 .removeOps) = some s' ∧
      s.pending [2] [9] ∧ ¬s'.pending [2] [9] ∧ ¬s.justified s' [2] [9]) ∧
    ∃ s, Reaches step twoWorkers s ∧ ∃ t ∈ s.told, ∃ entry,
      s.metadata.metaTable.find? t.objectKey = some entry ∧ entry.pb.version = t.version ∧
        entry.Located t.workerId := by
  constructor
  · have hrun : (run step twoWorkers (acknowledgedRound 5 ++
        [.insertAsyncWorkerOp [2] [9], .updateObject [9] ⟨[3], 6, 0, 0, []⟩ [] true])).any fun s =>
          (s.step (.round 0 .removeOps)).any fun s' =>
            s.pending [2] [9] ∧ ¬s'.pending [2] [9] ∧ ¬s.justified s' [2] [9] := by
      decide +kernel
    obtain ⟨s, hs, hnext⟩ := exists_of_run _ hrun
    obtain ⟨s', hstep, hp⟩ := (any_eq_true _ _).mp hnext
    exact ⟨s, s', hs, hstep, of_decide_eq_true hp⟩
  · have hrun : (run step twoWorkers
        (acknowledgedRound 0 ++ [.round 0 .removeOps, .round 0 .removeLocation])).any fun s =>
          s.told.any fun t => (s.metadata.metaTable.find? t.objectKey).any fun entry =>
            entry.pb.version = t.version ∧ entry.Located t.workerId := by
      decide +kernel
    obtain ⟨s, hs, hp⟩ := exists_of_run _ hrun
    obtain ⟨t, ht, hp⟩ := List.any_eq_true.mp hp
    obtain ⟨entry, hentry, hp⟩ := (any_eq_true _ _).mp hp
    exact ⟨s, hs, t, ht, entry, hentry, of_decide_eq_true hp⟩

end CacheInvalidation

end Datasystem.Master
