import Datasystem.Lib.StateMachine
import Datasystem.Master.OCNotifyWorkerManager

/-! Pending operations after a restart. The rows of the store are the entries of the table at
all times, but not all that is in a row is restored. -/

namespace Datasystem.Master.OCNotifyWorkerManager

open Common Lib StateMachine NotifyWorkerOpType List OrderedMap

inductive Operation
  | insertAsyncWorkerOp (workerId objectKey : Bytes) (op : NotifyWorkerOp)
  | removeAsyncWorkerOp (workerId : Bytes) (objectKeys : List Bytes) (op : NotifyWorkerOpType)
  | clearAsyncWorkerOpSnapshots (workerAddr : Bytes) (snapshots : List AsyncWorkerOpSnapshot)

/-- Insertions are of one of the five operations, for workers with no underscore in their
address. -/
def step (m : OCNotifyWorkerManager) : Operation → Option OCNotifyWorkerManager
  | .insertAsyncWorkerOp workerId objectKey op =>
    if underscore ∉ workerId ∧ op.type ∈ kinds then
      some (m.insertAsyncWorkerOp workerId objectKey op true)
    else none
  | .removeAsyncWorkerOp workerId objectKeys op =>
    some (m.removeAsyncWorkerOp workerId objectKeys op)
  | .clearAsyncWorkerOpSnapshots workerAddr snapshots =>
    some (m.clearAsyncWorkerOpSnapshots workerAddr snapshots)

/-- What is pending for a worker and a key: the operations, and the data of these alone. -/
def pending (m : OCNotifyWorkerManager) (workerId objectKey : Bytes) : Option NotifyWorkerOp :=
  (m.entryOf workerId objectKey).map fun entry => parseNotifyWorkerOpFromL2Cache entry.op

/-- What a restart can restore. -/
def restorable (op : NotifyWorkerOp) : Bool :=
  ¬testFlag op.type primaryCopyInvalid ∧ ¬testFlag op.type deleteAllCopyMeta ∧
    op.removeMetaAzNames = .empty ∧ 0 ≤ op.delObjectVersion

/-! ## Merging keeps one operation for the worker -/

/-- Something is pending, and at most one operation of it is for the worker. -/
def single (type : NotifyWorkerOpType) : Bool :=
  type ≠ 0 ∧ clearNotifyMasterOp type ∈ [0, primaryCopyInvalid, cacheInvalid, delete]

theorem single_of_mem_kinds : ∀ type ∈ kinds, single type := by decide

theorem single_mergeType : ∀ type, single type → ∀ op ∈ kinds, single (mergeType type op) := by
  decide +kernel

theorem single_clearFlag : ∀ type flags, single type → clearFlag type flags ≠ 0 →
    single (clearFlag type flags) := by
  decide +kernel

/-! ## The rows are the entries -/

variable {m m' : OCNotifyWorkerManager} {w w' k k' : Bytes} {op : NotifyWorkerOp}

/-- The row of a worker and a key. -/
def row? (m : OCNotifyWorkerManager) (w k : Bytes) : Option NotifyWorkerOp :=
  m.asyncWorkerOps.find? (asyncWorkerOpKey w k)

structure Stored (m : OCNotifyWorkerManager) : Prop where
  rows : ∀ w k, underscore ∉ w → m.row? w k = m.op? w k
  keys : ∀ key op, m.asyncWorkerOps.find? key = some op →
    ∃ w k, underscore ∉ w ∧ key = asyncWorkerOpKey w k
  plain : ∀ w k op, m.op? w k = some op → underscore ∉ w
  single : ∀ w k op, m.op? w k = some op → single op.type

theorem asyncWorkerOpKey_inj (h : underscore ∉ w) (h' : underscore ∉ w') :
    asyncWorkerOpKey w k = asyncWorkerOpKey w' k' ↔ w = w' ∧ k = k' :=
  CompositeKey.join_inj_first h h'

/-- Entries and rows of one worker change together. -/
theorem Stored.update {touched : Bytes → Prop} (h : Stored m) (hw : underscore ∉ w)
    (hrows : ∀ k, touched k → m'.row? w k = m'.op? w k)
    (hsingle : ∀ k, touched k → ∀ op, m'.op? w k = some op → OCNotifyWorkerManager.single op.type)
    (hop : ∀ w' k', ¬(w' = w ∧ touched k') → m'.op? w' k' = m.op? w' k')
    (hrow : ∀ key, (∀ k, touched k → key ≠ asyncWorkerOpKey w k) →
      m'.asyncWorkerOps.find? key = m.asyncWorkerOps.find? key) : Stored m' := by
  refine ⟨fun w' k' hw' => ?_, fun key op hkey => ?_, fun w' k' op hop' => ?_,
    fun w' k' op hop' => ?_⟩
  · by_cases htouched : w' = w ∧ touched k'
    · obtain ⟨rfl, hk'⟩ := htouched
      exact hrows k' hk'
    · rw [hop w' k' htouched, row?, hrow, ← h.rows w' k' hw', row?]
      intro k hk heq
      obtain ⟨rfl, rfl⟩ := (asyncWorkerOpKey_inj hw' hw).mp heq
      exact htouched ⟨rfl, hk⟩
  · by_cases htouched : ∃ k, touched k ∧ key = asyncWorkerOpKey w k
    · obtain ⟨k, -, heq⟩ := htouched
      exact ⟨w, k, hw, heq⟩
    · refine h.keys key op (hrow key ?_ ▸ hkey)
      exact fun k hk heq => htouched ⟨k, hk, heq⟩
  · by_cases htouched : w' = w ∧ touched k'
    · exact htouched.1 ▸ hw
    · exact h.plain w' k' op (hop w' k' htouched ▸ hop')
  · by_cases htouched : w' = w ∧ touched k'
    · obtain ⟨rfl, hk'⟩ := htouched
      exact hsingle k' hk' op hop'
    · exact h.single w' k' op (hop w' k' htouched ▸ hop')

variable {key : Bytes} {value : Option NotifyWorkerOp} {entry : NotifyWorkerOpEntry}
  {flags : NotifyWorkerOpType}

theorem find?_addAsyncWorkerOp : (m.addAsyncWorkerOp w k op).asyncWorkerOps.find? key =
    if key = asyncWorkerOpKey w k then some op else m.asyncWorkerOps.find? key := by
  rw [addAsyncWorkerOp, find?_insert]
  by_cases hkey : key = asyncWorkerOpKey w k <;> simp [hkey]

theorem stored_insertAsyncWorkerOp (h : Stored m) (halive : m.isWorkerDead w = false)
    (hw : underscore ∉ w) (hkind : op.type ∈ kinds) :
    Stored (m.insertAsyncWorkerOp w k op true) := by
  have hsingle : OCNotifyWorkerManager.single (m.mergedOp w k op).type := by
    unfold mergedOp
    split
    · exact single_of_mem_kinds _ hkind
    · rename_i entry hentry
      rw [type_mergeAsyncWorkerOpEntry]
      exact single_mergeType _ (h.single w k entry.op (by rw [op?, hentry]; rfl)) _ hkind
  rw [insertAsyncWorkerOp, if_pos rfl, insertAsyncWorkerOpWithPersistence_eq halive]
  generalize m.mergedOp w k op = merged at hsingle
  have hself : ((m.addAsyncWorkerOp w k merged).putEntry w k merged).op? w k = some merged := by
    simp [op?_putEntry]
  refine @Stored.update _ _ w (· = k) h hw ?_ ?_ ?_ ?_
  · intro k' hk'
    subst hk'
    rw [hself]
    exact find?_addAsyncWorkerOp.trans (if_pos rfl)
  · intro k' hk' op' hop'
    subst hk'
    rw [hself] at hop'
    cases hop'
    exact hsingle
  · intro w' k' hne
    exact op?_putEntry.trans (if_neg hne)
  · intro key hkey
    exact find?_addAsyncWorkerOp.trans (if_neg (hkey k rfl))

/-! ## Requests -/

/-- What a request leaves of the entry. -/
def result (request : AsyncWorkerOpPersistRequest) : Option NotifyWorkerOp :=
  match request.action with
  | .remove => none
  | .add => some request.op

variable {request : AsyncWorkerOpPersistRequest} {requests : List AsyncWorkerOpPersistRequest}

theorem find?_storeRequest : (m.storeRequest request).asyncWorkerOps.find? key =
    if key = asyncWorkerOpKey request.workerId request.objectKey then
      result request
    else m.asyncWorkerOps.find? key := by
  unfold storeRequest result
  cases request.action
  · exact find?_addAsyncWorkerOp
  · rw [removeStoredAsyncWorkerOp, find?_erase]
    by_cases hkey : key = asyncWorkerOpKey request.workerId request.objectKey <;> simp [hkey]

theorem entryOf_storeRequest : (m.storeRequest request).entryOf w k = m.entryOf w k := by
  unfold storeRequest
  cases request.action <;> rfl

theorem entryOf_foldl_storeRequest : (requests.foldl storeRequest m).entryOf w k = m.entryOf w k :=
  List.foldlRecOn requests storeRequest (motive := (entryOf · w k = m.entryOf w k)) rfl
    fun _ h _ _ => entryOf_storeRequest.trans h

theorem asyncWorkerOps_applyRequest :
    (m.applyRequest request).asyncWorkerOps = m.asyncWorkerOps := by
  unfold applyRequest
  split
  · rfl
  · split
    · rfl
    · cases request.action <;> rfl

theorem asyncWorkerOps_foldl_applyRequest :
    (requests.foldl applyRequest m).asyncWorkerOps = m.asyncWorkerOps :=
  List.foldlRecOn requests applyRequest (motive := (asyncWorkerOps · = m.asyncWorkerOps)) rfl
    fun _ h _ _ => asyncWorkerOps_applyRequest.trans h

theorem find?_foldl_storeRequest_of_ne
    (h : ∀ request ∈ requests, key ≠ asyncWorkerOpKey request.workerId request.objectKey) :
    (requests.foldl storeRequest m).asyncWorkerOps.find? key = m.asyncWorkerOps.find? key :=
  List.foldlRecOn requests storeRequest
    (motive := fun s => s.asyncWorkerOps.find? key = m.asyncWorkerOps.find? key) rfl
    fun _ hm request hreq => find?_storeRequest.trans ((if_neg (h request hreq)).trans hm)

/-- Requests that agree on a key leave its row as they say. -/
theorem find?_foldl_storeRequest
    (hagree : ∀ request ∈ requests, asyncWorkerOpKey request.workerId request.objectKey = key →
      result request = value) (h : m.asyncWorkerOps.find? key = value ∨
      ∃ request ∈ requests, asyncWorkerOpKey request.workerId request.objectKey = key) :
    (requests.foldl storeRequest m).asyncWorkerOps.find? key = value := by
  induction requests generalizing m with
  | nil => simpa using h
  | cons request _ ih =>
    obtain ⟨hreq, hrest⟩ := forall_mem_cons.mp hagree
    refine ih hrest ?_
    rw [find?_storeRequest]
    by_cases hkey : key = asyncWorkerOpKey request.workerId request.objectKey
    · exact .inl ((if_pos hkey).trans (hreq hkey.symm))
    · rw [if_neg hkey]
      simpa [Ne.symm hkey] using h

/-- Where the epoch is the expected one, a request does what it says. -/
theorem op?_applyRequest_of_epoch
    (hentry : m.entryOf request.workerId request.objectKey = some entry)
    (hepoch : entry.epoch = request.expectedEpoch) :
    (m.applyRequest request).op? request.workerId request.objectKey =
      result request := by
  simp only [applyRequest, hentry, hepoch, ne_eq, not_true_eq_false, if_false, result]
  cases request.action
  · simp [op?_putEntry]
  · simp [op?_eraseEntry]

theorem entryOf_applyRequest_of_ne (h : ¬(w = request.workerId ∧ k = request.objectKey)) :
    (m.applyRequest request).entryOf w k = m.entryOf w k := by
  unfold applyRequest
  split
  · rfl
  · split
    · rfl
    · cases request.action
      · exact entryOf_putEntry.trans (if_neg h)
      · exact entryOf_eraseEntry.trans (if_neg h)

theorem entryOf_foldl_applyRequest_of_ne
    (h : ∀ request ∈ requests, ¬(w = request.workerId ∧ k = request.objectKey)) :
    (requests.foldl applyRequest m).entryOf w k = m.entryOf w k :=
  List.foldlRecOn requests applyRequest (motive := (entryOf · w k = m.entryOf w k)) rfl
    fun _ hm request hreq => (entryOf_applyRequest_of_ne (h request hreq)).trans hm

/-- A request that asks for what is there changes nothing, whatever its epoch. -/
theorem op?_applyRequest_of_eq (h : m.op? request.workerId request.objectKey = result request) :
    (m.applyRequest request).op? request.workerId request.objectKey =
      result request := by
  cases hentry : m.entryOf request.workerId request.objectKey with
  | none =>
    rw [applyRequest, hentry]
    exact h
  | some entry =>
    by_cases hepoch : entry.epoch = request.expectedEpoch
    · exact op?_applyRequest_of_epoch hentry hepoch
    · simpa [applyRequest, hentry, hepoch] using h

theorem op?_foldl_applyRequest_of_eq
    (hagree : ∀ request ∈ requests, w = request.workerId ∧ k = request.objectKey →
      result request = value)
    (h : m.op? w k = value) : (requests.foldl applyRequest m).op? w k = value := by
  induction requests generalizing m with
  | nil => exact h
  | cons request _ ih =>
    obtain ⟨hreq, hrest⟩ := forall_mem_cons.mp hagree
    refine ih hrest ?_
    by_cases hkey : w = request.workerId ∧ k = request.objectKey
    · obtain ⟨rfl, rfl⟩ := hkey
      have hvalue := hreq ⟨rfl, rfl⟩
      exact (op?_applyRequest_of_eq (h.trans hvalue.symm)).trans hvalue
    · rw [op?, entryOf_applyRequest_of_ne hkey]
      exact h

/-- Requests that agree on an entry and were made for it leave it as they say. -/
theorem op?_foldl_applyRequest
    (hagree : ∀ request ∈ requests, w = request.workerId ∧ k = request.objectKey →
      result request = value ∧ entry.epoch = request.expectedEpoch)
    (hentry : m.entryOf w k = some entry)
    (hsome : ∃ request ∈ requests, w = request.workerId ∧ k = request.objectKey) :
    (requests.foldl applyRequest m).op? w k = value := by
  induction requests generalizing m with
  | nil => simp at hsome
  | cons request _ ih =>
    obtain ⟨hreq, hrest⟩ := forall_mem_cons.mp hagree
    rw [foldl_cons]
    by_cases hkey : w = request.workerId ∧ k = request.objectKey
    · obtain ⟨rfl, rfl⟩ := hkey
      obtain ⟨hvalue, hepoch⟩ := hreq ⟨rfl, rfl⟩
      exact op?_foldl_applyRequest_of_eq (fun r hr hr' => (hrest r hr hr').1)
        ((op?_applyRequest_of_epoch hentry hepoch).trans hvalue)
    · refine ih hrest ((entryOf_applyRequest_of_ne hkey).trans hentry) ?_
      simpa [hkey] using hsome

/-- A batch for one worker, made from its entries, that agrees on each key. -/
theorem stored_commitAsyncWorkerOpRequests (h : Stored m) (hw : underscore ∉ w)
    (hmade : ∀ request ∈ requests, request.workerId = w ∧ ∃ entry,
      m.entryOf w request.objectKey = some entry ∧ entry.epoch = request.expectedEpoch)
    (hagree : ∀ request ∈ requests, ∀ request' ∈ requests, request.objectKey = request'.objectKey →
        result request = result request')
    (hsingle : ∀ request ∈ requests, ∀ op, result request = some op →
        OCNotifyWorkerManager.single op.type) :
    Stored (m.commitAsyncWorkerOpRequests requests) := by
  have hkey : ∀ request ∈ requests, ∀ k,
      asyncWorkerOpKey request.workerId request.objectKey = asyncWorkerOpKey w k ↔
        request.objectKey = k := by
    intro request hreq k
    rw [(hmade request hreq).1, asyncWorkerOpKey_inj hw hw]
    simp
  have hrow : ∀ request ∈ requests, (m.commitAsyncWorkerOpRequests requests).row? w
      request.objectKey = result request := by
    intro request hreq
    rw [row?, commitAsyncWorkerOpRequests, asyncWorkerOps_foldl_applyRequest]
    refine find?_foldl_storeRequest (fun request' hreq' heq => ?_)
      (.inr ⟨request, hreq, (hkey request hreq _).mpr rfl⟩)
    exact hagree request' hreq' request hreq ((hkey request' hreq' _).mp heq)
  have hop : ∀ request ∈ requests, (m.commitAsyncWorkerOpRequests requests).op? w
      request.objectKey = result request := by
    intro request hreq
    obtain ⟨hworker, entry, hentry, hepoch⟩ := hmade request hreq
    refine op?_foldl_applyRequest (fun request' hreq' heq => ⟨?_, ?_⟩)
      (entryOf_foldl_storeRequest.trans hentry) ⟨request, hreq, hworker.symm, rfl⟩
    · exact hagree request' hreq' request hreq heq.2.symm
    · obtain ⟨-, entry', hentries', hepochs'⟩ := hmade request' hreq'
      rw [← heq.2, hentry] at hentries'
      cases hentries'
      exact hepochs'
  refine @Stored.update _ _ w (fun k => ∃ request ∈ requests, request.objectKey = k) h hw
    ?_ ?_ ?_ ?_
  · intro k hk
    obtain ⟨request, hreq, rfl⟩ := hk
    rw [hrow request hreq, hop request hreq]
  · intro k hk op hvalue
    obtain ⟨request, hreq, rfl⟩ := hk
    rw [hop request hreq] at hvalue
    exact hsingle request hreq op hvalue
  · intro w' k' hne
    rw [op?, op?, commitAsyncWorkerOpRequests, entryOf_foldl_applyRequest_of_ne,
      entryOf_foldl_storeRequest]
    intro request hreq heq
    exact hne ⟨heq.1.trans (hmade request hreq).1, request, hreq, heq.2.symm⟩
  · intro key hne
    rw [commitAsyncWorkerOpRequests, asyncWorkerOps_foldl_applyRequest,
      find?_foldl_storeRequest_of_ne]
    intro request hreq heq
    rw [(hmade request hreq).1] at heq
    exact hne request.objectKey ⟨request, hreq, rfl⟩ heq

/-- What is left of an entry when flags are cleared. -/
def cleared (op : NotifyWorkerOp) (type : NotifyWorkerOpType) : Option NotifyWorkerOp :=
  if type = 0 then none else some { op with type := type }

theorem clearRequest_eq_some (h : clearRequest w k entry flags = some request) :
    request.workerId = w ∧ request.objectKey = k ∧ request.expectedEpoch = entry.epoch ∧
      result request =
        cleared entry.op (clearFlag entry.op.type flags) ∧
      (clearFlag entry.op.type flags = 0 ∨ clearFlag entry.op.type flags ≠ entry.op.type) := by
  unfold clearRequest at h
  dsimp only at h
  split at h
  · rename_i hzero
    cases h
    simp [result, cleared, hzero]
  · rename_i hzero
    split at h
    · rename_i hne
      cases h
      exact ⟨rfl, rfl, rfl, (if_neg hzero).symm, .inr (Ne.symm hne)⟩
    · cases h

/-- A batch that only clears flags, and leaves the same of an entry however often it is cleared. -/
theorem stored_of_clearRequest (h : Stored m) (left : NotifyWorkerOp → Option NotifyWorkerOp)
    (hmade : ∀ request ∈ requests, ∃ id entry flags, m.entryOf w id = some entry ∧
      clearRequest w id entry flags = some request ∧
      cleared entry.op (clearFlag entry.op.type flags) = left entry.op) :
    Stored (m.commitAsyncWorkerOpRequests requests) := by
  have hspec : ∀ request ∈ requests, ∃ entry flags, m.entryOf w request.objectKey = some entry ∧
      request.workerId = w ∧ request.expectedEpoch = entry.epoch ∧
      result request = cleared entry.op (clearFlag entry.op.type flags) ∧
      result request = left entry.op := by
    intro request hreq
    obtain ⟨id, entry, flags, hentry, hclear, hleft⟩ := hmade request hreq
    obtain ⟨hworker, rfl, hepoch, hresult, -⟩ := clearRequest_eq_some hclear
    exact ⟨entry, flags, hentry, hworker, hepoch, hresult, hresult.trans hleft⟩
  cases hnil : requests with
  | nil => exact h
  | cons first =>
    rw [← hnil]
    have hw : underscore ∉ w := by
      obtain ⟨entry, -, hentry, -⟩ := hspec first (hnil ▸ mem_cons_self)
      exact h.plain w first.objectKey entry.op (by rw [op?, hentry]; rfl)
    refine stored_commitAsyncWorkerOpRequests h hw (fun request hreq => ?_)
      (fun request hreq request' hreq' hkey => ?_) fun request hreq op hop => ?_
    · obtain ⟨entry, -, hentry, hworker, hepoch, -⟩ := hspec request hreq
      exact ⟨hworker, entry, hentry, hepoch.symm⟩
    · obtain ⟨entry, -, hentry, -, -, -, hleft⟩ := hspec request hreq
      obtain ⟨entry', -, hentries', -, -, -, hleft'⟩ := hspec request' hreq'
      rw [← hkey, hentry] at hentries'
      cases hentries'
      rw [hleft, hleft']
    · obtain ⟨entry, flags, hentry, -, -, hresult, -⟩ := hspec request hreq
      have hsingle := h.single w request.objectKey entry.op (by rw [op?, hentry]; rfl)
      rw [hresult, cleared] at hop
      split at hop
      · cases hop
      · rename_i hne
        cases hop
        exact single_clearFlag _ _ hsingle hne

theorem stored_removeAsyncWorkerOp {objectKeys}
    (h : Stored m) : Stored (m.removeAsyncWorkerOp w objectKeys flags) := by
  refine stored_of_clearRequest (w := w) h (fun op => cleared op (clearFlag op.type flags))
    fun request hreq => ?_
  obtain ⟨id, -, hid⟩ := mem_filterMap.mp hreq
  obtain ⟨entry, hentry, hclear⟩ := Option.bind_eq_some_iff.mp hid
  exact ⟨id, entry, flags, hentry, hclear, rfl⟩

/-- Clearing any operations for the worker leaves the flags alone or only those for masters. -/
theorem clearFlag_clearNotifyMasterOp : ∀ type flags, single type →
    clearFlag type (clearNotifyMasterOp flags) = type ∨
      clearFlag type (clearNotifyMasterOp flags) = clearNotifyWorkerOp type := by
  decide +kernel

theorem stored_clearAsyncWorkerOpSnapshots {snapshots}
    (h : Stored m) : Stored (m.clearAsyncWorkerOpSnapshots w snapshots) := by
  refine stored_of_clearRequest (w := w) h (fun op => cleared op (clearNotifyWorkerOp op.type))
    fun request hreq => ?_
  obtain ⟨snapshot, -, hsnapshot⟩ := mem_filterMap.mp hreq
  obtain ⟨entry, hentry, hclear⟩ := Option.bind_eq_some_iff.mp hsnapshot
  split at hclear
  · cases hclear
  obtain ⟨-, -, -, -, hchange⟩ := clearRequest_eq_some hclear
  have hsingle := h.single w snapshot.objectKey entry.op (by rw [op?, hentry]; rfl)
  have hne := (of_decide_eq_true hsingle).1
  refine ⟨_, entry, _, hentry, hclear, ?_⟩
  rcases clearFlag_clearNotifyMasterOp entry.op.type snapshot.op.type hsingle with hsame | hmaster
  · rw [hsame] at hchange
    exact absurd hchange (by simpa using hne)
  · rw [hmaster]

theorem faultWorkers_commitAsyncWorkerOpRequests :
    (m.commitAsyncWorkerOpRequests requests).faultWorkers = m.faultWorkers := by
  have hstore : ∀ (m : OCNotifyWorkerManager) request,
      (m.storeRequest request).faultWorkers = m.faultWorkers := by
    intro m request
    unfold storeRequest
    cases request.action <;> rfl
  have happly : ∀ (m : OCNotifyWorkerManager) request,
      (m.applyRequest request).faultWorkers = m.faultWorkers := by
    intro m request
    unfold applyRequest
    split
    · rfl
    · split
      · rfl
      · cases request.action <;> rfl
  refine List.foldlRecOn requests applyRequest (motive := (faultWorkers · = m.faultWorkers)) ?_
    fun _ h request _ => (happly _ request).trans h
  exact List.foldlRecOn requests storeRequest (motive := (faultWorkers · = m.faultWorkers)) rfl
    fun _ h request _ => (hstore _ request).trans h

theorem stored_step {operation} (hstep : m.step operation = some m')
    (h : (∀ w, m.isWorkerDead w = false) ∧ Stored m) :
    (∀ w, m'.isWorkerDead w = false) ∧ Stored m' := by
  obtain ⟨halive, hstored⟩ := h
  cases operation with
  | insertAsyncWorkerOp workerId =>
    obtain ⟨⟨hw, hkind⟩, hinsert⟩ := Option.ite_none_right_eq_some.mp hstep
    cases hinsert
    exact ⟨fun w => (isWorkerDead_insertAsyncWorkerOp (halive workerId)).trans (halive w),
      stored_insertAsyncWorkerOp hstored (halive workerId) hw hkind⟩
  | removeAsyncWorkerOp =>
    cases hstep
    refine ⟨fun w => ?_, stored_removeAsyncWorkerOp hstored⟩
    rw [isWorkerDead, removeAsyncWorkerOp, faultWorkers_commitAsyncWorkerOpRequests]
    exact halive w
  | clearAsyncWorkerOpSnapshots =>
    cases hstep
    refine ⟨fun w => ?_, stored_clearAsyncWorkerOpSnapshots hstored⟩
    rw [isWorkerDead, clearAsyncWorkerOpSnapshots, faultWorkers_commitAsyncWorkerOpRequests]
    exact halive w

theorem stored_run {faultWorkers} (halive : ∀ w, faultWorkers.find? w ≠ some true)
    (h : Reaches step { faultWorkers := faultWorkers } m) :
    (∀ w, m.isWorkerDead w = false) ∧ Stored m := by
  refine h.invariant (I := fun m => (∀ w, m.isWorkerDead w = false) ∧ Stored m) ⟨fun w => ?_, ?_⟩
    fun _ _ _ hstep hm => stored_step hstep hm
  · unfold isWorkerDead
    have hw := halive w
    cases hfind : faultWorkers.find? w with
    | none => rfl
    | some => simpa [hfind] using hw
  · exact ⟨fun _ _ _ => rfl, by simp, by simp [op?, entryOf], by simp [op?, entryOf]⟩

/-! ## Restart -/

/-- What the restart makes of a row. -/
def restoredOp (current : Option NotifyWorkerOp) (row : NotifyWorkerOp) : Option NotifyWorkerOp :=
  let op := parseNotifyWorkerOpFromL2Cache row
  let current :=
    if testFlag op.type cacheInvalid then insertedOp current { type := cacheInvalid } else current
  let current :=
    if testFlag op.type removeMeta then
      insertedOp current { type := removeMeta, removeMetaVersion := op.removeMetaVersion }
    else current
  if testFlag op.type delete then
    insertedOp current { type := delete, delObjectVersion := op.delObjectVersion }
  else current

theorem op?_ite_insertAsyncWorkerOp {c : Bool} (halive : m.isWorkerDead w = false) :
    (if c then m.insertAsyncWorkerOp w k op false else m).op? w' k' =
      if w' = w ∧ k' = k then if c then insertedOp (m.op? w k) op else m.op? w k
      else m.op? w' k' := by
  cases c
  · by_cases hkey : w' = w ∧ k' = k
    · obtain ⟨rfl, rfl⟩ := hkey
      simp
    · simp [hkey]
  · simpa using op?_insertAsyncWorkerOp halive

theorem isWorkerDead_ite_insertAsyncWorkerOp {c : Bool} (halive : m.isWorkerDead w = false) :
    (if c then m.insertAsyncWorkerOp w k op false else m).isWorkerDead w' = m.isWorkerDead w' := by
  cases c
  · rfl
  · rw [if_pos rfl]
    exact isWorkerDead_insertAsyncWorkerOp halive

theorem op?_restoreAsyncWorkerOp {row} (hw : underscore ∉ w) (halive : m.isWorkerDead w = false) :
    (m.restoreAsyncWorkerOp (asyncWorkerOpKey w k, row)).op? w' k' =
        (if w' = w ∧ k' = k then restoredOp (m.op? w k) row else m.op? w' k') ∧
      (m.restoreAsyncWorkerOp (asyncWorkerOpKey w k, row)).isWorkerDead w' = m.isWorkerDead w' := by
  simp only [restoreAsyncWorkerOp, asyncWorkerOpKey, CompositeKey.splitFirst_join hw]
  set m₁ := if testFlag (parseNotifyWorkerOpFromL2Cache row).type cacheInvalid then
    m.insertAsyncWorkerOp w k { type := cacheInvalid } false else m with hm₁
  have hdead₁ : ∀ v, m₁.isWorkerDead v = m.isWorkerDead v := fun v =>
    isWorkerDead_ite_insertAsyncWorkerOp halive
  set m₂ := if testFlag (parseNotifyWorkerOpFromL2Cache row).type removeMeta then
    m₁.insertAsyncWorkerOp w k { type := removeMeta, removeMetaVersion := _ } false
    else m₁ with hm₂
  have hdead₂ : ∀ v, m₂.isWorkerDead v = m.isWorkerDead v := fun v =>
    (isWorkerDead_ite_insertAsyncWorkerOp ((hdead₁ w).trans halive)).trans (hdead₁ v)
  have hw₂ := (hdead₂ w).trans halive
  refine ⟨?_, (isWorkerDead_ite_insertAsyncWorkerOp hw₂).trans (hdead₂ w')⟩
  rw [op?_ite_insertAsyncWorkerOp hw₂, hm₂]
  simp only [op?_ite_insertAsyncWorkerOp ((hdead₁ w).trans halive)]
  rw [hm₁]
  simp only [op?_ite_insertAsyncWorkerOp halive, and_self, if_true]
  split <;> rfl

variable {infos : List (Bytes × NotifyWorkerOp)}

theorem op?_foldl_restoreAsyncWorkerOp_of_ne (halive : ∀ v, m.isWorkerDead v = false)
    (hne : ∀ info ∈ infos, ∃ w' k', underscore ∉ w' ∧ info.1 = asyncWorkerOpKey w' k' ∧
      ¬(w = w' ∧ k = k')) :
    (∀ v, (infos.foldl restoreAsyncWorkerOp m).isWorkerDead v = false) ∧
      (infos.foldl restoreAsyncWorkerOp m).op? w k = m.op? w k := by
  refine List.foldlRecOn infos restoreAsyncWorkerOp
    (motive := fun s => (∀ v, s.isWorkerDead v = false) ∧ s.op? w k = m.op? w k)
    ⟨halive, rfl⟩ fun s hs info hinfo => ?_
  obtain ⟨w', k', hw', hkey, hwk⟩ := hne info hinfo
  obtain ⟨key, row⟩ := info
  obtain rfl : key = asyncWorkerOpKey w' k' := hkey
  constructor
  · intro v
    exact (@op?_restoreAsyncWorkerOp s w' v k' k row hw' (hs.1 w')).2.trans (hs.1 v)
  · rw [(op?_restoreAsyncWorkerOp hw' (hs.1 w')).1, if_neg hwk, hs.2]

theorem op?_foldl_restoreAsyncWorkerOp {row}
    (halive : ∀ v, m.isWorkerDead v = false) (hw : underscore ∉ w)
    (hkeys : ∀ info ∈ infos, ∃ w k, underscore ∉ w ∧ info.1 = asyncWorkerOpKey w k)
    (hnodup : (infos.map Prod.fst).Nodup) (hrow : (asyncWorkerOpKey w k, row) ∈ infos) :
    (infos.foldl restoreAsyncWorkerOp m).op? w k = restoredOp (m.op? w k) row := by
  obtain ⟨before, after, rfl⟩ := append_of_mem hrow
  have hother : ∀ info ∈ before ++ after, ∃ w' k', underscore ∉ w' ∧
      info.1 = asyncWorkerOpKey w' k' ∧ ¬(w = w' ∧ k = k') := by
    intro info hinfo
    obtain ⟨w', k', hw', hkey⟩ := hkeys info (by
      rw [mem_append] at hinfo ⊢
      exact hinfo.imp_right (mem_cons_of_mem _))
    refine ⟨w', k', hw', hkey, fun heq => ?_⟩
    obtain ⟨rfl, rfl⟩ := heq
    rw [map_append, map_cons, nodup_middle, ← map_append, nodup_cons] at hnodup
    exact hnodup.1 (mem_map.mpr ⟨info, hinfo, hkey⟩)
  obtain ⟨hbefore, hafter⟩ := forall_mem_append.mp hother
  obtain ⟨haliveBefore, hopBefore⟩ := op?_foldl_restoreAsyncWorkerOp_of_ne halive hbefore
  have hself := @op?_restoreAsyncWorkerOp _ w w k k row hw (haliveBefore w)
  have hsameDead := fun v =>
    (@op?_restoreAsyncWorkerOp _ w v k k row hw (haliveBefore w)).2.trans (haliveBefore v)
  rw [foldl_append, foldl_cons, (op?_foldl_restoreAsyncWorkerOp_of_ne hsameDead hafter).2,
    hself.1, if_pos ⟨rfl, rfl⟩, hopBefore]

theorem mem_of_restorable : ∀ type, single type → testFlag type primaryCopyInvalid = false →
    testFlag type deleteAllCopyMeta = false →
    type ∈ [removeMeta, cacheInvalid, 0b00110#5, delete, 0b10010#5] := by
  decide

theorem parse_restoredOp {row} (hsingle : single row.type)
    (h : restorable (parseNotifyWorkerOpFromL2Cache row)) :
    (restoredOp none row).map parseNotifyWorkerOpFromL2Cache =
      some (parseNotifyWorkerOpFromL2Cache row) := by
  obtain ⟨hprimary, hall, hnames, hversion⟩ := of_decide_eq_true h
  have htype := mem_of_restorable row.type hsingle (Bool.eq_false_iff.mpr hprimary)
    (Bool.eq_false_iff.mpr hall)
  obtain ⟨type, removeMetaVersion, names, _, _, delObjectVersion⟩ := row
  simp only [mem_cons, not_mem_nil, or_false] at htype
  rcases htype with rfl | rfl | rfl | rfl | rfl <;>
    simp_all [restoredOp, parseNotifyWorkerOpFromL2Cache, insertedOp, mergeAsyncWorkerOpEntry,
      mergeMasterOp, testFlag, setFlag, clearFlag, clearNotifyMasterOp, clearNotifyWorkerOp,
      removeMeta, cacheInvalid, delete, deleteAllCopyMeta]

theorem pending_eq : m.pending w k = (m.op? w k).map parseNotifyWorkerOpFromL2Cache := by
  unfold pending op?
  cases m.entryOf w k <;> rfl

theorem op?_recoverCacheInvalidAndRemoveMeta (hm : ∀ v, m.isWorkerDead v = false)
    (h : Stored m) : m.recoverCacheInvalidAndRemoveMeta.op? w k =
      (m.op? w k).bind (restoredOp none) := by
  have halive : ∀ v, ({ faultWorkers := m.faultWorkers, asyncWorkerOps := m.asyncWorkerOps } :
      OCNotifyWorkerManager).isWorkerDead v = false := hm
  have hkeys : ∀ info ∈ m.asyncWorkerOps.entries, ∃ w k, underscore ∉ w ∧
      info.1 = asyncWorkerOpKey w k := fun info hinfo =>
    h.keys info.1 info.2 (mem_entries_iff.mp hinfo)
  cases hop : m.op? w k with
  | none =>
    refine (op?_foldl_restoreAsyncWorkerOp_of_ne halive fun info hinfo => ?_).2
    obtain ⟨w', k', hw', hkey⟩ := hkeys info hinfo
    refine ⟨w', k', hw', hkey, fun heq => ?_⟩
    obtain ⟨rfl, rfl⟩ := heq
    have hrow := (h.rows w k hw').trans hop
    rw [row?, ← hkey, mem_entries_iff.mp hinfo] at hrow
    cases hrow
  | some row =>
    have hw := h.plain w k row hop
    have hrow : (asyncWorkerOpKey w k, row) ∈ m.asyncWorkerOps.entries :=
      mem_entries_iff.mpr ((h.rows w k hw).trans hop)
    exact op?_foldl_restoreAsyncWorkerOp halive hw hkeys m.asyncWorkerOps.keys_nodup hrow

/-- If what is pending can be restored, a restart has the same operations pending, with the
same versions and zone names. -/
theorem pending_operations_survive_restart {faultWorkers : OrderedMap Bytes Bool}
    (halive : ∀ w, faultWorkers.find? w ≠ some true)
    (h : Reaches step { faultWorkers := faultWorkers } m)
    (hrestorable : ∀ w k op, m.pending w k = some op → restorable op) (w k : Bytes) :
    m.recoverCacheInvalidAndRemoveMeta.pending w k = m.pending w k := by
  obtain ⟨hm, hstored⟩ := stored_run halive h
  have hwk := hrestorable w k
  rw [pending_eq] at hwk ⊢
  rw [pending_eq, op?_recoverCacheInvalidAndRemoveMeta hm hstored]
  cases hop : m.op? w k with
  | none => rfl
  | some row => exact parse_restoredOp (hstored.single w k row hop) (hwk _ (by rw [hop]; rfl))

/-- A removal is pending together with a later delete. -/
theorem pending_operations_survive_restart_of_run : ∃ m, Reaches step {} m ∧
      m.pending [1] [2] =
        some { type := 0b10010#5, removeMetaVersion := 3, delObjectVersion := 5 } ∧
      m.recoverCacheInvalidAndRemoveMeta.pending [1] [2] = m.pending [1] [2] := by
  have hrun : (run step {} [.insertAsyncWorkerOp [1] [2] { type := cacheInvalid },
        .insertAsyncWorkerOp [1] [2] { type := removeMeta, removeMetaVersion := 3 },
        .insertAsyncWorkerOp [1] [2] { type := delete, delObjectVersion := 5 },
        .removeAsyncWorkerOp [1] [[2]] cacheInvalid]).any fun m =>
      m.notifyWorkerOpTable.entries.all (fun worker => worker.2.entries.all
        fun object => restorable (parseNotifyWorkerOpFromL2Cache object.2.op)) ∧
      m.pending [1] [2] =
        some { type := 0b10010#5, removeMetaVersion := 3, delObjectVersion := 5 } := by
    decide +kernel
  obtain ⟨m, hm, hall, hpending⟩ := exists_reaches _ hrun
  refine ⟨m, hm, hpending, pending_operations_survive_restart (by simp) hm ?_ _ _⟩
  intro w k op hop
  obtain ⟨entry, hentry, rfl⟩ := Option.map_eq_some_iff.mp hop
  obtain ⟨objectKeys, hkeys, hentry⟩ := Option.bind_eq_some_iff.mp hentry
  have hworker := all_eq_true.mp hall _ (mem_entries_iff.mpr hkeys)
  exact all_eq_true.mp hworker _ (mem_entries_iff.mpr hentry)

/-- A pending primary copy invalidation is in its row, and is lost. -/
theorem primaryCopyInvalid_lost_at_restart :
    ∃ m, Reaches step {} m ∧ m.pending [1] [2] = some { type := primaryCopyInvalid } ∧
      m.recoverCacheInvalidAndRemoveMeta.pending [1] [2] = none := by
  exact exists_reaches [.insertAsyncWorkerOp [1] [2] { type := primaryCopyInvalid }]
    (by decide +kernel)

end Datasystem.Master.OCNotifyWorkerManager
