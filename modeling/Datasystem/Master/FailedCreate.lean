import Datasystem.Master.TtlRecovery

/-! Creates that fail. An entry is inserted before anything is checked, so each failure on the
way has to take it back. The functions here are those of the create paths with every answer
that the store, other nodes and the expiry manager can give. -/

namespace Datasystem.Master

open Common Lib Checked List OrderedMap OCMetadataManager ExpiredObjectManager

/-- The answers to the calls that are made while one object is created. -/
structure CreateAnswers where
  /-- The expiry manager says that the object is being deleted when its timer is removed. -/
  removeBeingDeleted : Bool := false
  /-- The write of the row, which does not happen if it fails. -/
  store : Result Unit := .ok ()
  /-- The row is removed when its write has failed. -/
  rowRemoved : Bool := true
  /-- The nested references are recorded, if there are any. -/
  nested : Result Unit := .ok ()
  /-- The other copies of an object that is overwritten are invalidated. -/
  invalidation : Invalidation := .done
  /-- The expiry manager says that the object is being deleted when its timer is inserted. -/
  insertBeingDeleted : Bool := false

/-- One object of a create request. -/
structure CreateInfo where
  objectKey : Bytes
  newMeta : ObjectMetaPb
  nestedKeysCanSet : Bool := true
  answers : CreateAnswers := {}

namespace Answered

variable (m : OCMetadataManager)

/-- What the store answers to the write of a row, if it is asked at all. -/
def storeAnswer (answers : CreateAnswers) : Result Unit :=
  if m.isPersistenceEnabled then answers.store else .ok ()

/-- `RemoveObjectIfExist`. -/
def removeTimer (objectKey : Bytes) (beingDeleted : Bool) : Result OCMetadataManager :=
  if beingDeleted then .error ⟨.kTryAgain, ExpiredShard.kBeingDeletedMark⟩
  else (m.expiredObjectManager.removeObjectIfExist objectKey).map m.withTimers

/-- `InsertObject`, which does not look at objects without a TTL. -/
def insertTimer (m : OCMetadataManager) (objectKey : Bytes) (version ttlSecond : Nat)
    (beingDeleted : Bool) : Result Unit × OCMetadataManager :=
  if ttlSecond ≠ 0 ∧ beingDeleted then
    (.error ⟨.kRuntimeError, ExpiredShard.kBeingDeletedMark⟩, m)
  else
    match m.insertTimer objectKey version ttlSecond with
    | .error status => (.error status, m)
    | .ok m => (.ok (), m)

/-- `CreateMetaFirstTime`, on the empty entry that was inserted. -/
def createMetaFirstTime (info : CreateInfo) (address : Bytes)
    (version : Nat) : Result Unit × OCMetadataManager :=
  match removeTimer m info.objectKey info.answers.removeBeingDeleted with
  | .error status => (.error status, m.eraseMeta info.objectKey)
  | .ok m =>
    match storeAnswer m info.answers with
    | .error status =>
      let m := if info.answers.rowRemoved then m.removeMeta info.objectKey else m
      (.error status, m.eraseMeta info.objectKey)
    | .ok () => (.ok (), m.persistCreatedMeta info.objectKey info.newMeta address version)

/-- `OverwriteBinaryMeta`, and `UpdateMeta` of a multi-create with no nested keys. -/
def overwriteBinaryMeta (info : CreateInfo) (address : Bytes)
    (version : Nat) (prevMeta : ObjectMeta) : Result Unit × OCMetadataManager :=
  let oldDeadline := (m.expiredObjectManager.view info.objectKey).index.map TimedNode.expireTime
  match removeTimer m info.objectKey info.answers.removeBeingDeleted with
  | .error status => (.error status, m)
  | .ok m =>
    match m.doBinaryCacheInvalidationUnlocked info.objectKey prevMeta
      ⟨address, version, info.newMeta.dataSize, info.newMeta.lifeState, info.newMeta.blobSizes⟩
      info.answers.invalidation with
    | (.error status, m) =>
      (.error status, (m.eraseLocation info.objectKey address).rollbackTimer info.objectKey
        oldDeadline)
    | (.ok (), m) =>
      match info.answers.nested with
      | .error status => (.error status, m.rollbackTimer info.objectKey oldDeadline)
      | .ok () =>
        insertTimer m info.objectKey version info.newMeta.ttlSecond info.answers.insertBeingDeleted

/-- What is checked of an entry that is to be overwritten. -/
def checkOverwrite (now : Nat) (info : CreateInfo) (prevMeta : ObjectMeta) : Result Unit := do
  m.checkExistenceOpt now info.objectKey prevMeta info.newMeta.existence false
  prevMeta.checkBinaryFormatParamMatch info.newMeta.config info.nestedKeysCanSet

/-- `CreateMeta` of one object in binary format. -/
def createMetaForBinaryFormat (now : Nat) (info : CreateInfo)
    (address : Bytes) : Result Unit × OCMetadataManager :=
  match m.metaTable.find? info.objectKey with
  | some prevMeta =>
    match checkOverwrite m now info prevMeta with
    | .error status => (.error status, m)
    | .ok () => overwriteBinaryMeta m info address now prevMeta
  | none =>
    match createMetaFirstTime (m.putMeta info.objectKey {}) info address now with
    | (.error status, m) => (.error status, m)
    | (.ok (), m) =>
      match info.answers.nested with
      | .error status => (.error status, m)
      | .ok () =>
        insertTimer m info.objectKey now info.newMeta.ttlSecond info.answers.insertBeingDeleted

/-- `CreateMeta` as a request. -/
def createMeta (now : Nat) (info : CreateInfo) (address : Bytes) :
    Result Unit × OCMetadataManager :=
  if info.objectKey = [] ∨ address = [] then
    (.error ⟨.kInvalid, "CreateMeta: Cannot CreateMeta with empty objectKey or server address."⟩, m)
  else createMetaForBinaryFormat m now info address

/-! ## Several objects -/

/-- One object of `CreateMultiMeta`, with whether it had no entry. -/
def createMetaOfMulti (now version : Nat) (info : CreateInfo)
    (address : Bytes) : Bool × Result Unit × OCMetadataManager :=
  match m.metaTable.find? info.objectKey with
  | some prevMeta =>
    match checkOverwrite m now info prevMeta with
    | .error status => (false, .error status, m)
    | .ok () =>
      (false, overwriteBinaryMeta m { info with answers := { info.answers with nested := .ok () } }
        address version prevMeta)
  | none =>
    let m := m.putMeta info.objectKey {}
    match storeAnswer m info.answers with
    | .error status => (true, .error status, m)
    | .ok () =>
      (true, insertTimer (m.persistCreatedMeta info.objectKey info.newMeta address version)
        info.objectKey version info.newMeta.ttlSecond info.answers.insertBeingDeleted)

/-- One object of `RollBackMultiMetaWhenCreateFailed`, which is called without a version. -/
def rollBackMeta (address : Bytes) (m : OCMetadataManager) (objKey : Bytes) : OCMetadataManager :=
  match m.metaTable.find? objKey with
  | none => m
  | some entry =>
    if entry.pb.primaryAddress = address ∧ entry.pb.version = 0 then m.eraseMeta objKey else m

/-- What `CreateMultiMetaNtx` keeps while it goes over the objects. -/
structure MultiCreate where
  master : OCMetadataManager
  failedObjectKeys : List Bytes := []
  existingObjectKeys : List Bytes := []
  rollBackIds : List Bytes := []

def createNext (now version : Nat) (address : Bytes) (acc : MultiCreate) (info : CreateInfo) :
    MultiCreate :=
  if info.objectKey = [] then
    { acc with failedObjectKeys := acc.failedObjectKeys ++ [info.objectKey] }
  else
    match createMetaOfMulti acc.master now version info address with
    | (_, .ok (), m) => { acc with master := m }
    | (firstOne, .error status, m) =>
      if status.code = .kOcKeyAlreadyExist ∧ info.newMeta.existence = .nx then
        { acc with
          master := m
          existingObjectKeys := acc.existingObjectKeys ++ [info.objectKey] }
      else
        { acc with
          master := m
          failedObjectKeys := acc.failedObjectKeys ++ [info.objectKey]
          rollBackIds := if firstOne then acc.rollBackIds ++ [info.objectKey] else acc.rollBackIds }

/-- `CreateMultiMetaNtx`, with the keys it reports as failed. -/
def createMultiMetaNtx (now version : Nat) (infos : List CreateInfo)
    (address : Bytes) : Result (List Bytes) × OCMetadataManager :=
  if address = [] then
    (.error ⟨.kInvalid, "CreateMeta: Cannot CreateMeta with server address."⟩, m)
  else
    let acc := infos.foldl (createNext now version address) { master := m }
    (.ok acc.failedObjectKeys, acc.rollBackIds.foldl (rollBackMeta address) acc.master)

/-! ## What a create leaves alone -/

variable {m m' m'' : OCMetadataManager} {objectKey key : Bytes} {now version : Nat}
  {newMeta : ObjectMetaPb} {address : Bytes}

/-- Nothing that is kept under a key has changed. -/
structure Untouched (m m' : OCMetadataManager) (key : Bytes) : Prop where
  entry : m'.metaTable.find? key = m.metaTable.find? key
  row : m'.rows.find? key = m.rows.find? key
  timers : m'.expiredObjectManager.view key = m.expiredObjectManager.view key

theorem Untouched.refl : Untouched m m key := ⟨rfl, rfl, rfl⟩

theorem Untouched.trans (h : Untouched m m' key) (h' : Untouched m' m'' key) :
    Untouched m m'' key :=
  ⟨h'.entry.trans h.entry, h'.row.trans h.row, h'.timers.trans h.timers⟩

section

variable (h : key ≠ objectKey)

include h

theorem untouched_putMeta {entry} : Untouched m (m.putMeta objectKey entry) key :=
  ⟨by rw [putMeta, find?_insert, if_neg h], rfl, rfl⟩

theorem untouched_createOrUpdateMeta {pb} :
    Untouched m (m.createOrUpdateMeta objectKey pb) key := by
  unfold createOrUpdateMeta
  split
  · exact ⟨rfl, by rw [find?_insert, if_neg h], rfl⟩
  · exact .refl

theorem untouched_eraseLocation {address} : Untouched m (m.eraseLocation objectKey address) key :=
  ⟨by rw [eraseLocation, find?_modify, if_neg h], rfl, rfl⟩

theorem untouched_persistCreatedMeta {newMeta} {address} {version : Nat} :
    Untouched m (m.persistCreatedMeta objectKey newMeta address version) key :=
  (untouched_putMeta h).trans (untouched_createOrUpdateMeta h)

theorem untouched_rollbackTimer {oldDeadline} :
    Untouched m (m.rollbackTimer objectKey oldDeadline) key := by
  cases oldDeadline with
  | none => exact .refl
  | some => exact ⟨rfl, rfl, view_restoreExpiryTaskIfAbsent_of_ne h⟩

theorem untouched_doBinaryCacheInvalidationUnlocked {prevMeta} {changed} {invalidation} :
    Untouched m
      (m.doBinaryCacheInvalidationUnlocked objectKey prevMeta changed invalidation).2 key := by
  cases invalidation with
  | notifyFailed => exact .refl
  | storeFailed _ rowWritten =>
    cases rowWritten
    · exact untouched_putMeta h
    · exact (untouched_putMeta h).trans (untouched_createOrUpdateMeta h)
  | done => exact (untouched_putMeta h).trans (untouched_createOrUpdateMeta h)

end

theorem removeTimer_eq_ok {beingDeleted} (h : removeTimer m objectKey beingDeleted = .ok m') :
    ∃ timers, m' = m.withTimers timers ∧ ¬(m.expiredObjectManager.view objectKey).ready ∧
      ∀ key, timers.view key = if key = objectKey then
        (m.expiredObjectManager.view key).remove else m.expiredObjectManager.view key := by
  unfold removeTimer at h
  split at h
  · cases h
  · cases hremove : m.expiredObjectManager.removeObjectIfExist objectKey with
    | error => rw [hremove] at h; cases h
    | ok timers =>
      rw [hremove] at h
      cases h
      obtain ⟨hready, hview⟩ := view_removeObjectIfExist hremove
      exact ⟨timers, rfl, hready, hview⟩

theorem untouched_insertTimer {version ttlSecond : Nat} {beingDeleted} (hne : key ≠ objectKey) :
    Untouched m (insertTimer m objectKey version ttlSecond beingDeleted).2 key := by
  unfold insertTimer
  split
  · exact .refl
  · split
    · exact .refl
    · rename_i m' hinsert
      obtain ⟨_, htimer, hm⟩ := bind_eq_ok.mp hinsert
      cases pure_eq_ok.mp hm
      refine ⟨rfl, rfl, ?_⟩
      rcases view_insertObject htimer with
        ⟨-, -, hview⟩ | ⟨-, -, node, -, hview⟩
      · exact hview key
      · exact (hview key).trans (if_neg hne)

/-! ## One object -/

variable {info : CreateInfo} {status : Status}

/-- No entry, no row and no timer. -/
structure Absent (m : OCMetadataManager) (key : Bytes) : Prop where
  entry : m.metaTable.find? key = none
  row : m.rows.find? key = none
  timers : (m.expiredObjectManager.view key).timers = 0
  index : (m.expiredObjectManager.view key).index = none

theorem Absent.of_untouched (h : Absent m key) (h' : Untouched m m' key) : Absent m' key :=
  ⟨h'.entry.trans h.entry, h'.row.trans h.row, by rw [h'.timers, h.timers],
    by rw [h'.timers, h.index]⟩

theorem Absent.removeTimer {beingDeleted} (h : Absent m key)
    (hremove : removeTimer (m.putMeta key {}) key beingDeleted = .ok m') :
    Absent (m'.eraseMeta key) key ∧ ¬(m'.expiredObjectManager.view key).ready := by
  obtain ⟨timers, rfl, hready, hview⟩ := removeTimer_eq_ok hremove
  have hkey : timers.view key = (m.expiredObjectManager.view key).remove :=
    (hview key).trans (if_pos rfl)
  refine ⟨⟨?_, h.row, ?_, ?_⟩, ?_⟩
  · rw [eraseMeta, find?_erase, if_pos rfl]
  · show (timers.view key).timers = 0
    rw [hkey, KeyTimers.remove, h.index, h.timers]
    rfl
  · show (timers.view key).index = none
    rw [hkey, KeyTimers.remove]
  · show ¬(timers.view key).ready
    rw [hkey]
    exact hready

theorem Absent.removeMeta (h : Absent m key) : Absent (m.removeMeta key) key := by
  unfold OCMetadataManager.removeMeta
  split
  · exact ⟨h.entry, by rw [find?_erase, if_pos rfl], h.timers, h.index⟩
  · exact h

theorem eraseMeta_removeMeta :
    (m.removeMeta key).eraseMeta key = (m.eraseMeta key).removeMeta key := by
  unfold removeMeta eraseMeta
  split <;> rfl

/-- Failures of the first steps take the entry back. -/
theorem absent_createMetaFirstTime (h : Absent m info.objectKey)
    (hfail : createMetaFirstTime (m.putMeta info.objectKey {}) info address version =
      (.error status, m')) : Absent m' info.objectKey := by
  unfold createMetaFirstTime at hfail
  split at hfail
  · cases hfail
    exact ⟨by rw [eraseMeta, find?_erase, if_pos rfl], h.row, h.timers, h.index⟩
  · rename_i timed hremove
    obtain ⟨habsent, -⟩ := h.removeTimer hremove
    split at hfail
    · cases hfail
      split
      · rw [eraseMeta_removeMeta]
        exact habsent.removeMeta
      · exact habsent
    · cases hfail

/-- The expiry manager does not take the timer of an object. -/
def TimerRefused (m : OCMetadataManager) (info : CreateInfo) : Prop :=
  info.newMeta.ttlSecond ≠ 0 ∧ (info.answers.insertBeingDeleted = true ∨
    (m.expiredObjectManager.view info.objectKey).ready)

theorem insertTimer_of_refused (h : TimerRefused m info) (version) :
    ∃ status, insertTimer m info.objectKey version info.newMeta.ttlSecond
        info.answers.insertBeingDeleted = (.error status, m) ∧ status.code = .kRuntimeError := by
  obtain ⟨httl, hdeleted | hready⟩ := h
  · exact ⟨_, if_pos ⟨httl, hdeleted⟩, rfl⟩
  · unfold insertTimer
    split
    · exact ⟨_, rfl, rfl⟩
    · have hrefused : m.insertTimer info.objectKey version info.newMeta.ttlSecond =
          .error ⟨.kRuntimeError, ExpiredShard.kBeingDeletedMark⟩ := by
        have hfree : ¬info.objectKey ∉
            (m.expiredObjectManager.shard info.objectKey).readyExpiredObjects := not_not.mpr hready
        rw [OCMetadataManager.insertTimer, insertObject, ExpiredShard.insertObject,
          ExpiredShard.checkObjectInAsyncDelete, check_of_not hfree]
        simp [httl]
      rw [hrefused]
      exact ⟨_, rfl, rfl⟩

theorem insertTimer_of_not_refused (h : ¬TimerRefused m info) :
    (insertTimer m info.objectKey version info.newMeta.ttlSecond
      info.answers.insertBeingDeleted).1 = .ok () := by
  unfold insertTimer
  rw [if_neg fun hdeleted => h ⟨hdeleted.1, .inl hdeleted.2⟩]
  split
  · rename_i status hinsert
    exfalso
    rw [OCMetadataManager.insertTimer] at hinsert
    cases htimer : m.expiredObjectManager.insertObject info.objectKey version info.newMeta.ttlSecond
        false with
    | error =>
      refine h ⟨fun httl => ?_, .inr (ready_of_insertObject htimer)⟩
      rw [httl] at htimer
      cases htimer
    | ok => rw [htimer] at hinsert; cases hinsert
  · rfl

theorem expiredObjectManager_persistCreatedMeta :
    (m.persistCreatedMeta objectKey newMeta address version).expiredObjectManager =
      m.expiredObjectManager := by
  rw [persistCreatedMeta, createOrUpdateMeta]
  split <;> rfl

/-- A create gets as far as writing its row. -/
structure RowWritten (m : OCMetadataManager) (info : CreateInfo) (address : Bytes) : Prop where
  objectKey : info.objectKey ≠ []
  address : address ≠ []
  timer : info.answers.removeBeingDeleted = false
  free : ¬(m.expiredObjectManager.view info.objectKey).ready
  store : storeAnswer m info.answers = .ok ()

/-- The first steps succeed just if the row is written, and then there is an entry and no delete
under way. -/
theorem createMetaFirstTime_of_written (h : RowWritten m info address) (version) :
    ∃ m', createMetaFirstTime (m.putMeta info.objectKey {}) info address version = (.ok (), m') ∧
      (m'.metaTable.find? info.objectKey).isSome ∧
      ¬(m'.expiredObjectManager.view info.objectKey).ready := by
  have hfree : info.objectKey ∉
    (m.expiredObjectManager.shard info.objectKey).readyExpiredObjects := h.free
  have hremoved :
      ∃ timers, m.expiredObjectManager.removeObjectIfExist info.objectKey = .ok timers := by
    rw [removeObjectIfExist, ExpiredShard.removeObjectIfExist,
      ExpiredShard.checkObjectInAsyncDelete, check_of hfree]
    exact ⟨_, rfl⟩
  obtain ⟨timers, htimers⟩ := hremoved
  have hremove : removeTimer (m.putMeta info.objectKey {}) info.objectKey
      info.answers.removeBeingDeleted =
        .ok ((m.putMeta info.objectKey {}).withTimers timers) := by
    rw [removeTimer, h.timer, if_neg (by simp), putMeta, htimers]
    rfl
  have hstore : storeAnswer ((m.putMeta info.objectKey {}).withTimers timers) info.answers =
    .ok () := h.store
  unfold createMetaFirstTime
  simp only [hremove, hstore]
  refine ⟨_, rfl, ?_, ?_⟩
  · simp [persistCreatedMeta, putMeta, find?_insert]
  · obtain ⟨hready, hview⟩ := view_removeObjectIfExist htimers
    rw [expiredObjectManager_persistCreatedMeta]
    show ¬(timers.view info.objectKey).ready
    rw [hview, if_pos rfl]
    exact hready

theorem rowWritten_of_createMetaFirstTime (hkey : info.objectKey ≠ []) (haddress : address ≠ [])
    (h : createMetaFirstTime (m.putMeta info.objectKey {}) info address version = (.ok (), m')) :
    RowWritten m info address := by
  unfold createMetaFirstTime at h
  split at h
  · cases h
  · rename_i timed hremove
    obtain ⟨timers, rfl, hready, -⟩ := removeTimer_eq_ok hremove
    split at h
    · cases h
    · rename_i hstore
      refine ⟨hkey, haddress, ?_, hready, hstore⟩
      by_contra hdeleted
      rw [removeTimer, if_pos (by simpa using hdeleted)] at hremove
      cases hremove

/-- A create that fails leaves nothing just if it does not fail after its row was written: at the
nested references or at the timer. -/
theorem absent_createMeta_iff (h : Absent m info.objectKey) :
    (∀ status m', createMeta m now info address = (.error status, m') →
        Absent m' info.objectKey) ↔
      (RowWritten m info address → info.answers.nested = .ok () ∧ ¬TimerRefused m info) := by
  constructor
  · intro hclean hwritten
    obtain ⟨m', hfirst, hentry, hfree⟩ := createMetaFirstTime_of_written hwritten now
    -- a failure from here on leaves the entry
    have hstays : ∀ status, createMeta m now info address ≠ (.error status, m') := by
      intro status hfail
      rw [(hclean status m' hfail).entry] at hentry
      cases hentry
    have hcreate : createMeta m now info address = match info.answers.nested with
        | .error status => (.error status, m')
        | .ok () => insertTimer m' info.objectKey now info.newMeta.ttlSecond
          info.answers.insertBeingDeleted := by
      rw [createMeta, if_neg (not_or.mpr ⟨hwritten.objectKey, hwritten.address⟩),
        createMetaForBinaryFormat, h.entry]
      simp only [hfirst]
    cases hnested : info.answers.nested with
    | error status =>
      rw [hnested] at hcreate
      exact absurd hcreate (hstays status)
    | ok =>
      rw [hnested] at hcreate
      refine ⟨rfl, fun hrefused => ?_⟩
      have hlate : TimerRefused m' info :=
        ⟨hrefused.1, .inl (hrefused.2.resolve_right hwritten.free)⟩
      obtain ⟨status, htimer, -⟩ := insertTimer_of_refused hlate now
      exact hstays status (hcreate.trans htimer)
  · intro hok status m' hfail
    unfold createMeta at hfail
    split at hfail
    · cases hfail
      exact h
    · rename_i hnonempty
      obtain ⟨hkey, haddress⟩ := not_or.mp hnonempty
      unfold createMetaForBinaryFormat at hfail
      rw [h.entry] at hfail
      dsimp only at hfail
      split at hfail
      · rename_i first hfirst
        cases hfail
        exact absent_createMetaFirstTime h hfirst
      · rename_i first hfirst
        have hwritten := rowWritten_of_createMetaFirstTime hkey haddress hfirst
        obtain ⟨hnested, hrefused⟩ := hok hwritten
        obtain ⟨_, hsame, -, hfree⟩ := createMetaFirstTime_of_written hwritten now
        cases hfirst.symm.trans hsame
        rw [hnested] at hfail
        dsimp only at hfail
        have hdone := @insertTimer_of_not_refused first now info fun hlate =>
          hrefused ⟨hlate.1, .inl (hlate.2.resolve_right hfree)⟩
        rw [hfail] at hdone
        cases hdone

/-! ## Several objects -/

theorem untouched_overwriteBinaryMeta {prevMeta} (h : key ≠ info.objectKey) :
    Untouched m (overwriteBinaryMeta m info address version prevMeta).2 key := by
  unfold overwriteBinaryMeta
  split
  · exact .refl
  · rename_i timed hremove
    obtain ⟨timers, rfl, -, hview⟩ := removeTimer_eq_ok hremove
    have htimed : Untouched m (m.withTimers timers) key := ⟨rfl, rfl, (hview key).trans (if_neg h)⟩
    split
    · rename_i changed hchanged
      have hinv := hchanged ▸ htimed.trans (untouched_doBinaryCacheInvalidationUnlocked h)
      exact hinv.trans ((untouched_eraseLocation h).trans (untouched_rollbackTimer h))
    · rename_i changed hchanged
      have hinv := hchanged ▸ htimed.trans (untouched_doBinaryCacheInvalidationUnlocked h)
      split
      · exact hinv.trans (untouched_rollbackTimer h)
      · exact hinv.trans (untouched_insertTimer h)

theorem untouched_createMetaOfMulti (h : key ≠ info.objectKey) :
    Untouched m (createMetaOfMulti m now version info address).2.2 key := by
  unfold createMetaOfMulti
  split
  · split
    · exact .refl
    · exact @untouched_overwriteBinaryMeta m key version address
        { info with answers := { info.answers with nested := .ok () } } _ h
  · dsimp only
    split
    · exact untouched_putMeta h
    · exact (untouched_putMeta h).trans
        ((untouched_persistCreatedMeta h).trans (untouched_insertTimer h))

section Persistence

@[simp] theorem isPersistenceEnabled_createOrUpdateMeta {pb} :
    (m.createOrUpdateMeta key pb).isPersistenceEnabled = m.isPersistenceEnabled := by
  unfold createOrUpdateMeta
  split <;> rfl

@[simp] theorem isPersistenceEnabled_rollbackTimer {oldDeadline} :
    (m.rollbackTimer key oldDeadline).isPersistenceEnabled = m.isPersistenceEnabled := by
  cases oldDeadline <;> rfl

@[simp] theorem isPersistenceEnabled_persistCreatedMeta {newMeta} :
    (m.persistCreatedMeta key newMeta address version).isPersistenceEnabled =
      m.isPersistenceEnabled := by
  simp [persistCreatedMeta, putMeta]

@[simp] theorem isPersistenceEnabled_insertTimer {ttlSecond : Nat} {beingDeleted} :
    (insertTimer m key version ttlSecond beingDeleted).2.isPersistenceEnabled =
      m.isPersistenceEnabled := by
  unfold insertTimer
  split
  · rfl
  · split
    · rfl
    · rename_i hinsert
      obtain ⟨_, -, hm⟩ := bind_eq_ok.mp hinsert
      cases pure_eq_ok.mp hm
      rfl

theorem isPersistenceEnabled_doBinaryCacheInvalidationUnlocked {prevMeta} {changed} {invalidation} :
    (m.doBinaryCacheInvalidationUnlocked key prevMeta changed invalidation).2.isPersistenceEnabled
      = m.isPersistenceEnabled := by
  cases invalidation with
  | notifyFailed => rfl
  | storeFailed _ rowWritten =>
    cases rowWritten <;>
      simp [doBinaryCacheInvalidationUnlocked, putMeta]
  | done => simp [doBinaryCacheInvalidationUnlocked, putMeta]

theorem isPersistenceEnabled_overwriteBinaryMeta {prevMeta} :
    (overwriteBinaryMeta m info address version prevMeta).2.isPersistenceEnabled =
      m.isPersistenceEnabled := by
  unfold overwriteBinaryMeta
  split
  · rfl
  · rename_i timed hremove
    obtain ⟨timers, rfl, -⟩ := removeTimer_eq_ok hremove
    have hinv := @isPersistenceEnabled_doBinaryCacheInvalidationUnlocked
      (m.withTimers timers) info.objectKey prevMeta ⟨address, version, info.newMeta.dataSize,
        info.newMeta.lifeState, info.newMeta.blobSizes⟩ info.answers.invalidation
    split
    · rename_i hchange
      rw [hchange] at hinv
      exact isPersistenceEnabled_rollbackTimer.trans hinv
    · rename_i hchange
      rw [hchange] at hinv
      split
      · exact isPersistenceEnabled_rollbackTimer.trans hinv
      · exact isPersistenceEnabled_insertTimer.trans hinv

theorem isPersistenceEnabled_createMetaOfMulti :
    (createMetaOfMulti m now version info address).2.2.isPersistenceEnabled =
      m.isPersistenceEnabled := by
  unfold createMetaOfMulti
  split
  · split
    · rfl
    · exact isPersistenceEnabled_overwriteBinaryMeta
  · dsimp only
    split
    · rfl
    · simp [putMeta]

end Persistence

/-- An error that a request reports as a failure of its object. -/
def isFailure (info : CreateInfo) : Result Unit → Prop
  | .ok () => False
  | .error status => ¬(status.code = .kOcKeyAlreadyExist ∧ info.newMeta.existence = .nx)

/-- An object without an entry fails: the store or the expiry manager refuses it. -/
def FailsFirst (m : OCMetadataManager) (info : CreateInfo) : Prop :=
  isFailure info (storeAnswer m info.answers) ∨
    storeAnswer m info.answers = .ok () ∧ TimerRefused m info

/-- An entry that the rollback of a multi-create does not take back. -/
def Stays (address : Bytes) (m : OCMetadataManager) (key : Bytes) : Prop :=
  ∃ entry, m.metaTable.find? key = some entry ∧
    ¬(entry.pb.primaryAddress = address ∧ entry.pb.version = 0)

/-- What becomes of an object without an entry. -/
structure FirstCreate (m : OCMetadataManager) (info : CreateInfo) (address : Bytes)
    (outcome : Bool × Result Unit × OCMetadataManager) : Prop where
  failure : isFailure info outcome.2.1 ↔ FailsFirst m info
  stays : FailsFirst m info → Stays address outcome.2.2 info.objectKey

theorem firstCreate_createMetaOfMulti (hnone : m.metaTable.find? info.objectKey = none)
    (haddress : address ≠ []) (hversion : 0 < version) :
    FirstCreate m info address (createMetaOfMulti m now version info address) := by
  have hempty : Stays address (m.putMeta info.objectKey {}) info.objectKey := by
    refine ⟨{}, by rw [putMeta, find?_insert, if_pos rfl], fun hsame => ?_⟩
    exact haddress hsame.1.symm
  unfold createMetaOfMulti
  rw [hnone]
  dsimp only
  cases hstore : storeAnswer (m.putMeta info.objectKey {}) info.answers with
  | error status =>
    have hstored : storeAnswer m info.answers = .error status := hstore
    refine ⟨?_, fun _ => hempty⟩
    rw [FailsFirst, hstored]
    exact ⟨.inl, fun h => h.resolve_right nofun⟩
  | ok =>
    have hstored : storeAnswer m info.answers = .ok () := hstore
    have hsame : FailsFirst m info ↔ TimerRefused ((m.putMeta info.objectKey {}).persistCreatedMeta
        info.objectKey info.newMeta address version) info := by
      unfold FailsFirst TimerRefused
      rw [hstored, expiredObjectManager_persistCreatedMeta]
      exact ⟨fun h => (h.resolve_left id).2, fun h => .inr ⟨rfl, h⟩⟩
    by_cases hrefused : TimerRefused ((m.putMeta info.objectKey {}).persistCreatedMeta
        info.objectKey info.newMeta address version) info
    · obtain ⟨status, htimer, hcode⟩ := insertTimer_of_refused hrefused version
      refine ⟨iff_of_true ?_ (hsame.mpr hrefused), fun _ => ?_⟩
      · show isFailure info (insertTimer _ _ _ _ _).1
        rw [htimer]
        intro hexists
        rw [hcode] at hexists
        cases hexists.1
      · show Stays address (insertTimer _ _ _ _ _).2 _
        rw [htimer]
        refine ⟨ObjectMeta.setMetaInfo info.newMeta address version, ?_, fun hzero => ?_⟩
        · simp [persistCreatedMeta, putMeta, find?_insert]
        · exact hversion.ne' hzero.2
    · have hnot := fun hfails => hrefused (hsame.mp hfails)
      refine ⟨iff_of_false ?_ hnot, fun hfails => absurd hfails hnot⟩
      show ¬isFailure info (insertTimer _ _ _ _ _).1
      rw [insertTimer_of_not_refused hrefused]
      exact id

/-- What a step reports of its object and leaves to the rollback. -/
theorem createNext_spec (now version address) (acc : MultiCreate) (hkey : info.objectKey ≠ []) :
    (createNext now version address acc info).master =
        (createMetaOfMulti acc.master now version info address).2.2 ∧
      (∀ key, key ∈ (createNext now version address acc info).failedObjectKeys ↔
        key ∈ acc.failedObjectKeys ∨ key = info.objectKey ∧
          isFailure info (createMetaOfMulti acc.master now version info address).2.1) ∧
      ∀ key ∈ (createNext now version address acc info).rollBackIds,
        key ∈ acc.rollBackIds ∨ key = info.objectKey := by
  unfold createNext
  rw [if_neg hkey]
  split
  · rename_i hcreate
    rw [hcreate]
    exact ⟨rfl, fun key => ⟨.inl, fun h => h.resolve_right fun hfail => hfail.2⟩, fun key => .inl⟩
  · rename_i firstOne status m' hcreate
    rw [hcreate]
    split
    · rename_i hexists
      refine ⟨rfl, fun key => ⟨.inl, fun h => h.resolve_right fun hfail => ?_⟩, fun key => .inl⟩
      exact hfail.2 hexists
    · rename_i hreported
      refine ⟨rfl, fun key => ?_, fun key hmem => ?_⟩
      · simp [isFailure, hreported]
      · dsimp only at hmem
        split at hmem
        · simpa using hmem
        · exact .inl hmem

/-- What holds while a request with distinct keys goes over its objects. -/
structure Progress (m : OCMetadataManager) (address : Bytes) (done : List CreateInfo)
    (acc : MultiCreate) : Prop where
  persistence : acc.master.isPersistenceEnabled = m.isPersistenceEnabled
  untouched : ∀ key, key ∉ done.map CreateInfo.objectKey ∨ key = [] → Untouched m acc.master key
  failed : ∀ key ∈ acc.failedObjectKeys, key = [] ∨ ∃ info ∈ done, info.objectKey = key ∧
    (m.metaTable.find? key = none → FailsFirst m info)
  failing : ∀ info ∈ done, info.objectKey ≠ [] → m.metaTable.find? info.objectKey = none →
    FailsFirst m info →
      info.objectKey ∈ acc.failedObjectKeys ∧ Stays address acc.master info.objectKey
  rollBack : [] ∉ acc.rollBackIds

theorem Untouched.failsFirst (h : Untouched m m' info.objectKey)
    (hpersistence : m'.isPersistenceEnabled = m.isPersistenceEnabled) :
    FailsFirst m' info ↔ FailsFirst m info := by
  unfold FailsFirst TimerRefused storeAnswer
  rw [h.timers, hpersistence]

theorem Progress.failed_cons {done} {acc} {key} (h : Progress m address done acc)
    (hmem : key ∈ acc.failedObjectKeys) : key = [] ∨ ∃ other ∈ info :: done,
      other.objectKey = key ∧ (m.metaTable.find? key = none → FailsFirst m other) := by
  refine (h.failed key hmem).imp_right fun ⟨other, hdone, hother⟩ => ?_
  exact ⟨other, mem_cons_of_mem _ hdone, hother⟩

/-- An object without a key is reported and nothing else. -/
theorem Progress.next_of_empty {done} {acc} (h : Progress m address done acc)
    (hkey : info.objectKey = []) :
    Progress m address (info :: done) (createNext now version address acc info) := by
  have hnext : createNext now version address acc info =
      { acc with failedObjectKeys := acc.failedObjectKeys ++ [info.objectKey] } := if_pos hkey
  rw [hnext]
  refine ⟨h.persistence, fun key hmem => h.untouched key ?_, fun key hmem => ?_,
    fun other hmem hother hnone hfails => ?_, h.rollBack⟩
  · exact hmem.imp_left fun hnot => (ne_and_not_mem_of_not_mem_cons hnot).2
  · rcases mem_append.mp hmem with hmem | hmem
    · exact h.failed_cons hmem
    · exact .inl ((mem_singleton.mp hmem).trans hkey)
  · rcases mem_cons.mp hmem with rfl | hmem
    · exact absurd hkey hother
    · obtain ⟨hfailed, hstays⟩ := h.failing other hmem hother hnone hfails
      exact ⟨mem_append_left _ hfailed, hstays⟩

theorem Progress.next {done} {acc} (h : Progress m address done acc) (haddress : address ≠ [])
    (hversion : 0 < version) (hnew : info.objectKey ∉ done.map CreateInfo.objectKey) :
    Progress m address (info :: done) (createNext now version address acc info) := by
  by_cases hkey : info.objectKey = []
  · exact h.next_of_empty hkey
  · obtain ⟨hmaster, hfailed, hrollBack⟩ := createNext_spec now version address acc hkey
    have huntouched := h.untouched info.objectKey (.inl hnew)
    have hkept : ∀ {key}, key ≠ info.objectKey → Untouched acc.master
        (createNext now version address acc info).master key := by
      intro key hne
      rw [hmaster]
      exact untouched_createMetaOfMulti hne
    have hfirst : m.metaTable.find? info.objectKey = none → FirstCreate acc.master info address
        (createMetaOfMulti acc.master now version info address) := fun hnone =>
      firstCreate_createMetaOfMulti (huntouched.entry.trans hnone) haddress hversion
    -- the keys are distinct, so the step finds of its key what was there before the request
    have hsame := huntouched.failsFirst h.persistence
    refine ⟨?_, fun key hmem => ?_, fun key hmem => ?_, fun other hmem hother hnone hfails => ?_,
      fun hmem => ?_⟩
    · rw [hmaster]
      exact isPersistenceEnabled_createMetaOfMulti.trans h.persistence
    · have hne : key ≠ info.objectKey := by
        rcases hmem with hnot | rfl
        · exact (ne_and_not_mem_of_not_mem_cons hnot).1
        · exact Ne.symm hkey
      refine (h.untouched key ?_).trans (hkept hne)
      exact hmem.imp_left fun hnot => (ne_and_not_mem_of_not_mem_cons hnot).2
    · rcases (hfailed key).mp hmem with hmem | ⟨rfl, hfail⟩
      · exact h.failed_cons hmem
      · exact .inr ⟨info, mem_cons_self, rfl, fun hnone =>
          hsame.mp ((hfirst hnone).failure.mp hfail)⟩
    · rcases mem_cons.mp hmem with rfl | hmem
      · have hcreate := hfirst hnone
        refine ⟨(hfailed _).mpr (.inr ⟨rfl, hcreate.failure.mpr (hsame.mpr hfails)⟩), ?_⟩
        rw [hmaster]
        exact hcreate.stays (hsame.mpr hfails)
      · obtain ⟨hold, entry, hentry, hstays⟩ := h.failing other hmem hother hnone hfails
        have hne : other.objectKey ≠ info.objectKey := fun heq => hnew (heq ▸ mem_map_of_mem hmem)
        exact ⟨(hfailed _).mpr (.inl hold), entry, (hkept hne).entry.trans hentry, hstays⟩
    · exact (hrollBack [] hmem).elim h.rollBack fun heq => hkey heq.symm

theorem Progress.run {infos done : List CreateInfo} {acc : MultiCreate}
    (h : Progress m address done acc) (haddress : address ≠ []) (hversion : 0 < version)
    (hnew : ∀ info ∈ infos, info.objectKey ∉ done.map CreateInfo.objectKey)
    (hnodup : (infos.map CreateInfo.objectKey).Nodup) :
    ∃ done', (∀ info, info ∈ done' ↔ info ∈ infos ∨ info ∈ done) ∧
      Progress m address done' (infos.foldl (createNext now version address) acc) := by
  induction infos generalizing done acc with
  | nil => exact ⟨done, by simp, h⟩
  | cons info rest ih =>
    obtain ⟨hinfo, hrest⟩ := forall_mem_cons.mp hnew
    rw [map_cons, nodup_cons] at hnodup
    have hnext : ∀ other ∈ rest, other.objectKey ∉ (info :: done).map CreateInfo.objectKey := by
      intro other hother hmem
      rcases mem_cons.mp hmem with heq | hmem
      · exact hnodup.1 (heq ▸ mem_map_of_mem hother)
      · exact hrest other hother hmem
    obtain ⟨done', hdone, hrun⟩ := ih (h.next haddress hversion hinfo) hnext hnodup.2
    refine ⟨done', fun other => ?_, hrun⟩
    rw [hdone, mem_cons, mem_cons]
    tauto

theorem untouched_foldl_rollBackMeta {ids : List Bytes} (h : key ∉ ids) :
    Untouched m (ids.foldl (rollBackMeta address) m) key := by
  induction ids generalizing m with
  | nil => exact .refl
  | cons _ _ ih =>
    obtain ⟨hne, hrest⟩ := ne_and_not_mem_of_not_mem_cons h
    refine Untouched.trans ?_ (ih hrest)
    unfold rollBackMeta
    split
    · exact .refl
    · split
      · exact ⟨by rw [eraseMeta, find?_erase, if_neg hne], rfl, rfl⟩
      · exact .refl

theorem Stays.foldl_rollBackMeta {ids : List Bytes} (h : Stays address m key) :
    Stays address (ids.foldl (rollBackMeta address) m) key := by
  induction ids generalizing m with
  | nil => exact h
  | cons objKey _ ih =>
    refine ih ?_
    obtain ⟨entry, hentry, hstays⟩ := h
    unfold rollBackMeta
    split
    · exact ⟨entry, hentry, hstays⟩
    · rename_i found hfound
      split
      · rename_i hmatch
        have hne : key ≠ objKey := by
          rintro rfl
          rw [hentry] at hfound
          cases hfound
          exact hstays hmatch
        exact ⟨entry, by rw [eraseMeta, find?_erase, if_neg hne, hentry], hstays⟩
      · exact ⟨entry, hentry, hstays⟩

/-- A request reports a key as failed: all of them, or the key. -/
def Reported (answer : Result (List Bytes)) (key : Bytes) : Prop :=
  ∀ failedObjectKeys, answer = .ok failedObjectKeys → key ∈ failedObjectKeys

/-- Whatever fails of a multi-create leaves its entry, so nothing is left just if no object without
metadata fails. -/
theorem absent_createMultiMetaNtx_iff {infos : List CreateInfo}
    (hnodup : (infos.map CreateInfo.objectKey).Nodup) (hversion : 0 < version) :
    (∀ key, Absent m key → Reported (createMultiMetaNtx m now version infos address).1 key →
        Absent (createMultiMetaNtx m now version infos address).2 key) ↔
      (address ≠ [] → ∀ info ∈ infos, info.objectKey ≠ [] → Absent m info.objectKey →
        ¬FailsFirst m info) := by
  by_cases haddress : address = []
  · have hrefused : (createMultiMetaNtx m now version infos address).2 = m := by
      rw [createMultiMetaNtx, if_pos haddress]
    rw [hrefused]
    exact iff_of_true (fun _ h _ => h) fun hne => absurd haddress hne
  · obtain ⟨done, hdone, hrun⟩ := @Progress.run m now version address infos [] { master := m }
      ⟨rfl, fun _ _ => .refl, by simp, by simp, by simp⟩ haddress hversion (by simp) hnodup
    unfold createMultiMetaNtx
    rw [if_neg haddress]
    dsimp only
    constructor
    · intro hclean _ info hinfo hkey habsent hfails
      obtain ⟨hreported, hstays⟩ :=
        hrun.failing info ((hdone info).mpr (.inl hinfo)) hkey habsent.entry hfails
      have hafter := hclean info.objectKey habsent fun failed heq => by
        cases heq
        exact hreported
      obtain ⟨entry, hentry, -⟩ := hstays.foldl_rollBackMeta
      rw [hafter.entry] at hentry
      cases hentry
    · intro hnone key habsent hreported
      rcases hrun.failed key (hreported _ rfl) with rfl | ⟨info, hinfo, rfl, hfails⟩
      · exact habsent.of_untouched
          ((hrun.untouched [] (.inr rfl)).trans (untouched_foldl_rollBackMeta hrun.rollBack))
      · by_cases hkey : info.objectKey = []
        · rw [hkey] at habsent ⊢
          exact habsent.of_untouched
            ((hrun.untouched [] (.inr rfl)).trans (untouched_foldl_rollBackMeta hrun.rollBack))
        · have hmem := ((hdone info).mp hinfo).resolve_right not_mem_nil
          exact absurd (hfails habsent.entry) (hnone haddress info hmem hkey habsent)

/-- A create that fails leaves nothing under its key just if it does not fail after its row was
written; a multi-create with distinct keys just if none of its new objects fails. -/
theorem failed_create_leaves_no_trace (m : OCMetadataManager) (now version : Nat)
    (address : Bytes) (hversion : 0 < version) :
    (∀ info, Absent m info.objectKey →
      ((∀ status m', createMeta m now info address = (.error status, m') →
          Absent m' info.objectKey) ↔
        (RowWritten m info address → info.answers.nested = .ok () ∧ ¬TimerRefused m info))) ∧
      ∀ infos, (infos.map CreateInfo.objectKey).Nodup →
        ((∀ key, Absent m key → Reported (createMultiMetaNtx m now version infos address).1 key →
            Absent (createMultiMetaNtx m now version infos address).2 key) ↔
          (address ≠ [] → ∀ info ∈ infos, info.objectKey ≠ [] → Absent m info.objectKey →
            ¬FailsFirst m info)) :=
  ⟨fun _ habsent => absent_createMeta_iff habsent,
    fun _ hnodup => absent_createMultiMetaNtx_iff hnodup hversion⟩

/-- The store refuses the row of a create; a multi-create reports its empty key only. -/
theorem failed_create_leaves_no_trace_of_refused :
    (∃ m', createMeta (.start fun _ => 0) 5
        ⟨[1], {}, true, { store := .error ⟨.kKvstoreError, "put failed"⟩ }⟩ [7] =
          (.error ⟨.kKvstoreError, "put failed"⟩, m') ∧ Absent m' [1]) ∧
    ∃ m', createMultiMetaNtx (.start fun _ => 0) 5 5 [⟨[], {}, true, {}⟩, ⟨[1], {}, true, {}⟩] [7] =
      (.ok [[]], m') ∧ Absent m' [] ∧ (m'.metaTable.find? [1]).isSome := by
  have h := failed_create_leaves_no_trace (.start fun _ => 0) 5 5 [7] (by decide)
  constructor
  · refine ⟨_, rfl, ?_⟩
    refine (h.1 ⟨[1], {}, true, { store := .error ⟨.kKvstoreError, "put failed"⟩ }⟩
      ⟨rfl, rfl, rfl, rfl⟩).mpr (fun hwritten => ?_) _ _ rfl
    cases hwritten.store
  · refine ⟨_, rfl, ?_, rfl⟩
    refine (h.2 [⟨[], {}, true, {}⟩, ⟨[1], {}, true, {}⟩] (by decide)).mpr ?_ []
      ⟨rfl, rfl, rfl, rfl⟩ ?_
    · intro _ info hinfo hkey _ hfails
      simp only [mem_cons, not_mem_nil, or_false] at hinfo
      rcases hinfo with rfl | rfl
      · exact hkey rfl
      · rcases hfails with hstore | hrefused
        · exact hstore
        · exact hrefused.2.1 rfl
    · intro failed hfailed
      cases hfailed
      exact mem_cons_self

/-- A multi-create whose row cannot be written leaves an empty entry, which its rollback does not
recognise. -/
theorem failed_multiCreate_leaves_entry :
    Absent (.start fun _ => 0) [1] ∧ ∃ m', createMultiMetaNtx (.start fun _ => 0) 5 5
        [⟨[1], {}, true, { store := .error ⟨.kKvstoreError, "put failed"⟩ }⟩] [7] =
          (.ok [[1]], m') ∧ (m'.metaTable.find? [1]).isSome :=
  ⟨⟨rfl, rfl, rfl, rfl⟩, _, rfl, rfl⟩

end Answered

end Datasystem.Master
