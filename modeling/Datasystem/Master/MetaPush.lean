import Datasystem.Master.OCMetadataManager
import Datasystem.Master.OCNotifyWorkerManager

/-! Metadata that workers push to a master that has lost it. The first push of an object makes
its entry and the others are merged into it. A push that is older makes its worker drop its
copy, but the version of an entry never changes. -/

namespace Datasystem.Master

open Common Lib Checked List OrderedMap OCNotifyWorkerManager NotifyWorkerOpType

/-- The metadata of an object as a worker pushes it. -/
structure PushedMeta where
  workerAddr : Bytes
  pb : ObjectMetaPb
  isRecovered : Bool := false

/-- The two managers a push works on. -/
structure PushedMaster where
  metadata : OCMetadataManager
  notifyWorkerManager : OCNotifyWorkerManager

namespace PushedMaster

/-- `MergeRecoveredMeta`. The version of the entry stays. -/
def mergeRecoveredMeta (objectMeta : ObjectMeta) (push : PushedMeta) : ObjectMeta :=
  let oldPrimaryAddress := objectMeta.pb.primaryAddress
  let objectMeta :=
    { objectMeta with locations := objectMeta.locations.insert push.workerAddr .ack }
  if !push.isRecovered || push.pb.primaryAddress ≠ push.workerAddr then objectMeta
  else
    let objectMeta :=
      { objectMeta with pb := { objectMeta.pb with primaryAddress := push.workerAddr } }
    if oldPrimaryAddress = [] ∨ oldPrimaryAddress = push.workerAddr then objectMeta
    else { objectMeta with locations := objectMeta.locations.erase oldPrimaryAddress }

/-- The end of `RecoveryMetaFromWorker`, with what the store answers. -/
def storeRecoveredMeta (s : PushedMaster) (objectKey : Bytes) (entry : ObjectMeta) :
    Result Unit → Result Unit × PushedMaster
  | .error status => (.error status, { s with metadata := s.metadata.putMeta objectKey entry })
  | .ok () =>
    (.ok (), { s with
      metadata := (s.metadata.putMeta objectKey entry).createOrUpdateMeta objectKey entry.pb })

def recoveryMetaFromWorker (s : PushedMaster) (objectKey : Bytes) (push : PushedMeta)
    (stored : Result Unit) : Result Unit × PushedMaster :=
  if push.workerAddr = [] then
    (.error ⟨.kInvalid, "Cannot RecoveryMetaFromWorker with empty worker address."⟩, s)
  else
    match s.metadata.metaTable.find? objectKey with
    | some entry =>
      if entry.pb.config.dataFormat ≠ push.pb.config.dataFormat then
        (.error ⟨.kInvalid, "Invalid data format of objectKey"⟩, s)
      else if push.pb.version < entry.pb.version then
        (.ok (), { s with
          notifyWorkerManager := s.notifyWorkerManager.insertAsyncWorkerOp push.workerAddr
            objectKey { type := .cacheInvalid } true })
      else s.storeRecoveredMeta objectKey (mergeRecoveredMeta entry push) stored
    | none =>
      let metaCache : ObjectMeta :=
        { pb := { push.pb with primaryAddress := push.workerAddr }
          locations := OrderedMap.empty.insert push.workerAddr .ack }
      if 0 < push.pb.ttlSecond then
        let metadata := s.metadata.putMeta objectKey metaCache
        match metadata.insertTimer objectKey push.pb.version push.pb.ttlSecond with
        | .error status => (.error status, { s with metadata := metadata })
        | .ok metadata =>
          storeRecoveredMeta { s with metadata := metadata } objectKey metaCache stored
      else s.storeRecoveredMeta objectKey metaCache stored

/-- Pushes of one object in the order in which they are processed. -/
def recoverAll (s : PushedMaster) (objectKey : Bytes) (stored : PushedMeta → Result Unit)
    (pushes : List PushedMeta) : PushedMaster :=
  pushes.foldl (fun s push => (s.recoveryMetaFromWorker objectKey push (stored push)).2) s

variable {s s' : PushedMaster} {objectKey w : Bytes} {push p : PushedMeta}
  {pushes : List PushedMeta} {stored : PushedMeta → Result Unit} {entry : ObjectMeta}

def entryOf (s : PushedMaster) (objectKey : Bytes) : Option ObjectMeta :=
  s.metadata.metaTable.find? objectKey

/-- The state of a worker among the locations of an object. -/
def location? (s : PushedMaster) (objectKey w : Bytes) : Option AckState :=
  (s.entryOf objectKey).bind (·.locations.find? w)

/-- The operations pending for a worker and an object. -/
def op? (s : PushedMaster) (objectKey w : Bytes) : Option NotifyWorkerOp :=
  s.notifyWorkerManager.op? w objectKey

/-! ## One push -/

/-- What becomes of a worker that pushed, in an entry of some version. -/
structure Settled (s s' : PushedMaster) (objectKey : Bytes) (version : Nat) (p : PushedMeta) :
    Prop where
  location : s'.location? objectKey p.workerAddr =
    if p.pb.version = version then some .ack else s.location? objectKey p.workerAddr
  op : s'.op? objectKey p.workerAddr =
    if p.pb.version = version then s.op? objectKey p.workerAddr
    else insertedOp (s.op? objectKey p.workerAddr)
      { type := .cacheInvalid }

/-- What a push leaves alone. -/
structure Leaves (s s' : PushedMaster) (objectKey w : Bytes) : Prop where
  location : s'.location? objectKey w = s.location? objectKey w
  op : s'.op? objectKey w = s.op? objectKey w

/-- An entry of some version and format. -/
def Held (s : PushedMaster) (objectKey : Bytes) (version : Nat) (format : DataFormat) : Prop :=
  ∃ entry, s.entryOf objectKey = some entry ∧ entry.pb.version = version ∧
    entry.pb.config.dataFormat = format

variable {answer : Result Unit} {version : Nat}

theorem entryOf_storeRecoveredMeta :
    (s.storeRecoveredMeta objectKey entry answer).2.entryOf objectKey = some entry := by
  cases answer with
  | error | ok =>
    simp [storeRecoveredMeta, entryOf, OCMetadataManager.putMeta, find?_insert]

theorem notifyWorkerManager_storeRecoveredMeta :
    (s.storeRecoveredMeta objectKey entry answer).2.notifyWorkerManager =
      s.notifyWorkerManager := by
  cases answer <;> rfl

section

variable (haddr : push.workerAddr ≠ []) (hentry : s.entryOf objectKey = some entry)
  (hfor : entry.pb.config.dataFormat = push.pb.config.dataFormat)

include haddr hentry hfor

theorem recoveryMetaFromWorker_older (h : push.pb.version < entry.pb.version) :
    (s.recoveryMetaFromWorker objectKey push answer).2 =
      { s with
        notifyWorkerManager := s.notifyWorkerManager.insertAsyncWorkerOp push.workerAddr
          objectKey { type := .cacheInvalid } true } := by
  unfold entryOf at hentry
  simp [recoveryMetaFromWorker, haddr, hentry, hfor, h]

theorem recoveryMetaFromWorker_same
    (hrecovered : push.isRecovered = false) (h : push.pb.version = entry.pb.version) :
    (s.recoveryMetaFromWorker objectKey push answer).2 = (s.storeRecoveredMeta objectKey
        { entry with locations := entry.locations.insert push.workerAddr .ack } answer).2 := by
  unfold entryOf at hentry
  simp [recoveryMetaFromWorker, haddr, hentry, hfor, h, mergeRecoveredMeta, hrecovered]

end

theorem recoveryMetaFromWorker_first {answer} (haddr : push.workerAddr ≠ [])
    (hentry : s.entryOf objectKey = none) :
    (s.recoveryMetaFromWorker objectKey push answer).2.entryOf objectKey =
        some { pb := { push.pb with primaryAddress := push.workerAddr }
               locations := OrderedMap.empty.insert push.workerAddr .ack } ∧
      (s.recoveryMetaFromWorker objectKey push answer).2.notifyWorkerManager =
        s.notifyWorkerManager := by
  unfold entryOf at hentry
  simp only [recoveryMetaFromWorker, haddr, if_false, hentry]
  split
  · split
    · simp [entryOf, OCMetadataManager.putMeta, find?_insert]
    · exact ⟨entryOf_storeRecoveredMeta, notifyWorkerManager_storeRecoveredMeta⟩
  · exact ⟨entryOf_storeRecoveredMeta, notifyWorkerManager_storeRecoveredMeta⟩

/-- A push that is not newer than the entry it meets. -/
theorem recoveryMetaFromWorker_settles {format} (hheld : s.Held objectKey version format)
    (haddr : push.workerAddr ≠ []) (hfor : push.pb.config.dataFormat = format)
    (hrecovered : push.isRecovered = false) (hle : push.pb.version ≤ version)
    (halive : push.pb.version < version →
      s.notifyWorkerManager.isWorkerDead push.workerAddr = false)
    (hs' : (s.recoveryMetaFromWorker objectKey push answer).2 = s') :
    s'.Held objectKey version format ∧ Settled s s' objectKey version push ∧
      (∀ w, w ≠ push.workerAddr → Leaves s s' objectKey w) ∧
      ∀ w, s'.notifyWorkerManager.isWorkerDead w = s.notifyWorkerManager.isWorkerDead w := by
  obtain ⟨entry, hentry, rfl, rfl⟩ := hheld
  rcases Nat.lt_or_eq_of_le hle with hlt | heq
  · rw [recoveryMetaFromWorker_older haddr hentry hfor.symm hlt] at hs'
    subst hs'
    refine ⟨⟨entry, hentry, rfl, rfl⟩, ⟨?_, ?_⟩, fun w hw => ⟨rfl, ?_⟩, fun w => ?_⟩
    · rw [if_neg hlt.ne]
      rfl
    · rw [if_neg hlt.ne]
      exact (op?_insertAsyncWorkerOp (halive hlt)).trans (if_pos ⟨rfl, rfl⟩)
    · exact (op?_insertAsyncWorkerOp (halive hlt)).trans (if_neg fun heq => hw heq.1)
    · exact isWorkerDead_insertAsyncWorkerOp (halive hlt)
  · rw [recoveryMetaFromWorker_same haddr hentry hfor.symm hrecovered heq] at hs'
    have hentries' := congrArg (PushedMaster.entryOf · objectKey) hs'
    have hnot := congrArg PushedMaster.notifyWorkerManager hs'
    rw [notifyWorkerManager_storeRecoveredMeta] at hnot
    rw [entryOf_storeRecoveredMeta] at hentries'
    refine ⟨⟨_, hentries'.symm, rfl, rfl⟩, ⟨?_, ?_⟩, fun w hw => ⟨?_, ?_⟩, fun w => ?_⟩
    · rw [if_pos heq, location?, ← hentries']
      simp [find?_insert]
    · rw [if_pos heq, op?, op?, hnot]
    · rw [location?, ← hentries', location?, hentry]
      simp [find?_insert, hw]
    · rw [op?, op?, hnot]
    · rw [hnot]

/-! ## All pushes -/

theorem Leaves.trans_settled {s''}
    (h : Leaves s s' objectKey p.workerAddr) (h' : Settled s' s'' objectKey version p) :
    Settled s s'' objectKey version p := by
  refine ⟨?_, ?_⟩
  · rw [h'.location, h.location]
  · rw [h'.op, h.op]

/-- Pushes that are not newer than the entry they meet, one after the other. -/
theorem recoverAll_settles {version : Nat} {format} (hheld : s.Held objectKey version format)
    (hdistinct : (pushes.map PushedMeta.workerAddr).Nodup) (haddr : ∀ p ∈ pushes, p.workerAddr ≠ [])
    (hfor : ∀ p ∈ pushes, p.pb.config.dataFormat = format)
    (hrecovered : ∀ p ∈ pushes, p.isRecovered = false) (hle : ∀ p ∈ pushes, p.pb.version ≤ version)
    (halive : ∀ p ∈ pushes, p.pb.version < version →
      s.notifyWorkerManager.isWorkerDead p.workerAddr = false) :
    (s.recoverAll objectKey stored pushes).Held objectKey version format ∧
      (∀ p ∈ pushes, Settled s (s.recoverAll objectKey stored pushes) objectKey version p) ∧
      ∀ w, w ∉ pushes.map PushedMeta.workerAddr →
        Leaves s (s.recoverAll objectKey stored pushes) objectKey w := by
  induction pushes generalizing s with
  | nil => exact ⟨hheld, by simp, fun _ _ => ⟨rfl, rfl⟩⟩
  | cons push pushes ih =>
    rw [map_cons, nodup_cons] at hdistinct
    rw [forall_mem_cons] at haddr hfor hrecovered hle halive
    obtain ⟨hheld', hpush, hother, hdead⟩ := recoveryMetaFromWorker_settles hheld haddr.1 hfor.1
      hrecovered.1 hle.1 halive.1
      (rfl : (s.recoveryMetaFromWorker objectKey push (stored push)).2 = _)
    obtain ⟨hheld'', hrest, hleaves⟩ := ih hheld' hdistinct.2 haddr.2 hfor.2 hrecovered.2 hle.2
      fun p hp hlt => (hdead p.workerAddr).trans (halive.2 p hp hlt)
    have hne : ∀ p ∈ pushes, p.workerAddr ≠ push.workerAddr := fun p hp heq =>
      hdistinct.1 (heq ▸ mem_map_of_mem hp)
    have hself := hleaves _ hdistinct.1
    refine ⟨hheld'', forall_mem_cons.mpr
      ⟨⟨hself.location.trans hpush.location, hself.op.trans hpush.op⟩,
      fun p hp => (hother _ (hne p hp)).trans_settled (hrest p hp)⟩, fun w hw => ?_⟩
    rw [map_cons, mem_cons, not_or] at hw
    have hfirst := hother w hw.1
    have hlast := hleaves w hw.2
    exact ⟨hlast.location.trans hfirst.location, hlast.op.trans hfirst.op⟩

/-- Pushes from distinct workers, of one data format and not marked as recovered. -/
structure Pushes (s : PushedMaster) (objectKey : Bytes) (format : DataFormat)
    (pushes : List PushedMeta) : Prop where
  distinct : (pushes.map PushedMeta.workerAddr).Nodup
  addressed : ∀ p ∈ pushes, p.workerAddr ≠ []
  formatPushed : ∀ p ∈ pushes, p.pb.config.dataFormat = format
  formatStored : ∀ entry, s.entryOf objectKey = some entry → entry.pb.config.dataFormat = format
  notRecovered : ∀ p ∈ pushes, p.isRecovered = false

/-- The version of the entry that pushes meet: the stored one, or that of the first push. -/
def metVersion (s : PushedMaster) (objectKey : Bytes) (pushes : List PushedMeta) : Nat :=
  match s.entryOf objectKey with
  | some entry => entry.pb.version
  | none => (pushes.head?.map (·.pb.version)).getD 0

/-- No push is newer than the entry it meets, and workers with an older version can be told:
they are no acknowledged location, not dead and have no delete pending. -/
structure NoneNewer (s : PushedMaster) (objectKey : Bytes) (pushes : List PushedMeta) : Prop where
  le : ∀ p ∈ pushes, p.pb.version ≤ s.metVersion objectKey pushes
  notLocated : ∀ p ∈ pushes, p.pb.version < s.metVersion objectKey pushes →
    s.location? objectKey p.workerAddr ≠ some .ack
  alive : ∀ p ∈ pushes, p.pb.version < s.metVersion objectKey pushes →
    s.notifyWorkerManager.isWorkerDead p.workerAddr = false
  noDelete : ∀ p ∈ pushes, p.pb.version < s.metVersion objectKey pushes →
    ∀ op, s.op? objectKey p.workerAddr = some op →
      testFlag op.type .delete = false

variable {format : DataFormat}

theorem recoverAll_met (hpushes : Pushes s objectKey format pushes)
    (hnewest : NoneNewer s objectKey pushes)
    (hsome : (s.entryOf objectKey).isSome ∨ pushes ≠ []) :
    (s.recoverAll objectKey stored pushes).Held objectKey (s.metVersion objectKey pushes) format ∧
      ∀ p ∈ pushes, Settled s (s.recoverAll objectKey stored pushes) objectKey
        (s.metVersion objectKey pushes) p := by
  cases hentry : s.entryOf objectKey with
  | some entry =>
    have hmet : s.metVersion objectKey pushes = entry.pb.version := by simp [metVersion, hentry]
    have hheld : s.Held objectKey (s.metVersion objectKey pushes) format :=
      ⟨entry, hentry, hmet.symm, hpushes.formatStored entry hentry⟩
    obtain ⟨hfinal, hsettled, -⟩ := @recoverAll_settles s objectKey pushes stored _ _ hheld
      hpushes.distinct hpushes.addressed hpushes.formatPushed hpushes.notRecovered hnewest.le
      hnewest.alive
    exact ⟨hfinal, hsettled⟩
  | none =>
    cases pushes with
    | nil => simp [hentry] at hsome
    | cons first rest =>
      have hmet : s.metVersion objectKey (first :: rest) = first.pb.version := by
        simp [metVersion, hentry]
      have hdistinct := hpushes.distinct
      rw [map_cons, nodup_cons] at hdistinct
      obtain ⟨haddr, haddrs⟩ := forall_mem_cons.mp hpushes.addressed
      obtain ⟨hfor, hform⟩ := forall_mem_cons.mp hpushes.formatPushed
      obtain ⟨hfirst, hnot⟩ := @recoveryMetaFromWorker_first s objectKey first (stored first)
        haddr hentry
      -- the first push makes the entry, and the others meet it
      have hheld : (s.recoveryMetaFromWorker objectKey first (stored first)).2.Held objectKey
          (s.metVersion objectKey (first :: rest)) format := ⟨_, hfirst, hmet.symm, hfor⟩
      obtain ⟨hfinal, hsettled, hleaves⟩ := @recoverAll_settles _ objectKey rest stored _ _ hheld
        hdistinct.2 haddrs hform (forall_mem_cons.mp hpushes.notRecovered).2
        (forall_mem_cons.mp hnewest.le).2
        (hnot ▸ (forall_mem_cons.mp hnewest.alive).2)
      refine ⟨hfinal, forall_mem_cons.mpr ⟨?_, fun p hp => ?_⟩⟩
      · obtain ⟨hloc, hop⟩ := hleaves first.workerAddr hdistinct.1
        refine ⟨?_, ?_⟩
        · rw [if_pos hmet.symm]
          refine hloc.trans ?_
          rw [location?, hfirst]
          simp [find?_insert]
        · rw [if_pos hmet.symm]
          refine hop.trans ?_
          rw [op?, op?, hnot]
      · have hne : p.workerAddr ≠ first.workerAddr := fun heq =>
          hdistinct.1 (heq ▸ mem_map_of_mem hp)
        refine Leaves.trans_settled ⟨?_, ?_⟩ (hsettled p hp)
        · rw [location?, hfirst, location?, hentry]
          simp [find?_insert, hne]
        · rw [op?, op?, hnot]

/-- The versions that are stored or pushed. -/
def versions (s : PushedMaster) (objectKey : Bytes) (pushes : List PushedMeta) : Set Nat :=
  { v | (∃ entry, s.entryOf objectKey = some entry ∧ entry.pb.version = v) ∨
    ∃ p ∈ pushes, p.pb.version = v }

theorem metVersion_isGreatest (hnewest : NoneNewer s objectKey pushes)
    (hsome : (s.entryOf objectKey).isSome ∨ pushes ≠ []) :
    IsGreatest (s.versions objectKey pushes) (s.metVersion objectKey pushes) := by
  constructor
  · cases hentry : s.entryOf objectKey with
    | some entry => exact .inl ⟨entry, hentry, by simp [metVersion, hentry]⟩
    | none =>
      cases pushes with
      | nil => simp [hentry] at hsome
      | cons first =>
        exact .inr ⟨first, mem_cons_self, by simp [metVersion, hentry]⟩
  · intro v hv
    rcases hv with ⟨entry, hentry, rfl⟩ | ⟨p, hp, rfl⟩
    · simp [metVersion, hentry]
    · exact hnewest.le p hp

/-- Without a delete pending, an invalidation is pending once it is inserted. -/
theorem cacheInvalid_mergeType : ∀ type, testFlag type .delete = false → testFlag
      (mergeType type .cacheInvalid) .cacheInvalid := by
  decide

theorem cacheInvalid_insertedOp {current}
    (h : ∀ op, current = some op → testFlag op.type .delete = false) :
    ∃ op, insertedOp current { type := .cacheInvalid } = some op ∧
      testFlag op.type .cacheInvalid := by
  cases current with
  | none => exact ⟨_, rfl, by decide⟩
  | some op =>
    refine ⟨_, rfl, ?_⟩
    rw [type_mergeAsyncWorkerOpEntry]
    exact cacheInvalid_mergeType op.type (h op rfl)

/-- If no push is newer than the entry it meets, the entry has the newest version, its workers
are the acknowledged locations among those that pushed, the others are told to drop their copy,
and any other such order gives the same. -/
theorem newest_pushed_version_wins (hpushes : Pushes s objectKey format pushes)
    (hnewest : NoneNewer s objectKey pushes)
    (hsome : (s.entryOf objectKey).isSome ∨ pushes ≠ []) :
    ∃ version, IsGreatest (s.versions objectKey pushes) version ∧
      (s.recoverAll objectKey stored pushes).Held objectKey version format ∧
      (∀ p ∈ pushes, (s.recoverAll objectKey stored pushes).location? objectKey p.workerAddr =
        some .ack ↔ p.pb.version = version) ∧
      (∀ p ∈ pushes, p.pb.version ≠ version → ∃ op,
        (s.recoverAll objectKey stored pushes).op? objectKey p.workerAddr = some op ∧
          testFlag op.type .cacheInvalid) ∧
      ∀ pushes' stored', pushes'.Perm pushes → NoneNewer s objectKey pushes' →
        (s.recoverAll objectKey stored' pushes').Held objectKey version format ∧
        ∀ p ∈ pushes, (s.recoverAll objectKey stored' pushes').location? objectKey p.workerAddr =
            (s.recoverAll objectKey stored pushes).location? objectKey p.workerAddr ∧
          (s.recoverAll objectKey stored' pushes').op? objectKey p.workerAddr =
            (s.recoverAll objectKey stored pushes).op? objectKey p.workerAddr := by
  obtain ⟨hheld, hsettled⟩ := @recoverAll_met s objectKey pushes stored format hpushes hnewest hsome
  have hgreatest := metVersion_isGreatest hnewest hsome
  refine ⟨s.metVersion objectKey pushes, hgreatest, hheld, fun p hp => ?_, fun p hp hne => ?_,
    fun pushes' stored' hperm hnew' => ?_⟩
  · rw [(hsettled p hp).location]
    split
    · simp_all
    · rename_i hne
      have hold := hnewest.notLocated p hp (lt_of_le_of_ne (hnewest.le p hp) hne)
      simp [hold, hne]
  · rw [(hsettled p hp).op, if_neg hne]
    have hlt := lt_of_le_of_ne (hnewest.le p hp) hne
    exact cacheInvalid_insertedOp (hnewest.noDelete p hp hlt)
  · have hpushed' : Pushes s objectKey format pushes' :=
      ⟨(hperm.map _).nodup_iff.mpr hpushes.distinct,
        fun p hp => hpushes.addressed p (hperm.mem_iff.mp hp),
        fun p hp => hpushes.formatPushed p (hperm.mem_iff.mp hp), hpushes.formatStored,
        fun p hp => hpushes.notRecovered p (hperm.mem_iff.mp hp)⟩
    have hsome' : (s.entryOf objectKey).isSome ∨ pushes' ≠ [] :=
      hsome.imp_right fun hne hnil => hne (by simpa [hnil] using hperm.symm)
    have hversions : s.versions objectKey pushes' = s.versions objectKey pushes := by
      simp only [versions, hperm.mem_iff]
    have hmet : s.metVersion objectKey pushes' = s.metVersion objectKey pushes :=
      (metVersion_isGreatest hnew' hsome').unique (hversions ▸ hgreatest)
    obtain ⟨hheld', hset'⟩ :=
      @recoverAll_met s objectKey pushes' stored' format hpushed' hnew' hsome'
    rw [hmet] at hheld' hset'
    refine ⟨hheld', fun p hp => ?_⟩
    have hp' := hset' p (hperm.mem_iff.mpr hp)
    exact ⟨hp'.location.trans (hsettled p hp).location.symm, hp'.op.trans (hsettled p hp).op.symm⟩

/-- A master that has lost everything. -/
def lost : PushedMaster := ⟨.start fun _ => 0, {}⟩

/-- Two workers have version 5 and one has version 3. -/
theorem newest_pushed_version_wins_of_three : ∃ s', lost.recoverAll [9] (fun _ => .ok ())
        [⟨[1], { version := 5 }, false⟩, ⟨[2], { version := 3 }, false⟩,
          ⟨[3], { version := 5 }, false⟩] = s' ∧ s'.Held [9] 5 .binary ∧
      s'.location? [9] [3] = some .ack ∧ s'.location? [9] [2] ≠ some .ack := by
  have hpushes : Pushes lost [9] .binary [⟨[1], { version := 5 }, false⟩,
      ⟨[2], { version := 3 }, false⟩, ⟨[3], { version := 5 }, false⟩] :=
    ⟨by decide, by decide, by decide, fun _ h => (by cases h), by decide⟩
  have hnewest : NoneNewer lost [9] [⟨[1], { version := 5 }, false⟩,
      ⟨[2], { version := 3 }, false⟩, ⟨[3], { version := 5 }, false⟩] :=
    ⟨by decide, by decide, by decide, fun _ _ _ _ h => by cases h⟩
  obtain ⟨version, hgreatest, hheld, hack, -⟩ := @newest_pushed_version_wins lost [9] _
    (fun _ => .ok ()) .binary hpushes hnewest (.inr (by simp))
  have hversion : version = 5 := hgreatest.unique (metVersion_isGreatest hnewest (.inr (by simp)))
  subst hversion
  exact ⟨_, rfl, hheld, (hack ⟨[3], { version := 5 }, false⟩ (by simp)).mpr rfl,
    fun h => absurd ((hack ⟨[2], { version := 3 }, false⟩ (by simp)).mp h) (by decide)⟩

/-- A newer version that is pushed after an older one becomes a location of the older one. -/
theorem newer_pushed_version_lost :
    Pushes lost [9] .binary [⟨[1], { version := 3 }, false⟩, ⟨[2], { version := 5 }, false⟩] ∧
      ∃ s', lost.recoverAll [9] (fun _ => .ok ())
          [⟨[1], { version := 3 }, false⟩, ⟨[2], { version := 5 }, false⟩] = s' ∧
        s'.Held [9] 3 .binary ∧ s'.location? [9] [2] = some .ack := by
  refine ⟨⟨by decide, by decide, by decide, fun _ h => (by cases h), by decide⟩, _, rfl, ?_, ?_⟩
  · exact ⟨_, rfl, rfl, rfl⟩
  · rfl

end PushedMaster

end Datasystem.Master
