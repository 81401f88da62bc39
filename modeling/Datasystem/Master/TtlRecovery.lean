import Datasystem.Master.OCMetadataManager

/-! TTLs over a restart. The TTL in force is that of the timer, which every write of an
object sets anew. A restart only finds the row of the object in the store: `Expire` does
not write it, and an overwrite writes the TTL of the entry and not its own. -/

namespace Datasystem.Master

open Common Lib Checked List OrderedMap ExpiredObjectManager

/-! ## Calls, one at a time -/

structure UpdateMetaReqPb where
  objectKey : Bytes
  address : Bytes
  dataSize : Nat := 0
  lifeState : Nat := 0
  ttlSecond : Nat := 0
  binaryFormatParams : ConfigPb := {}

namespace OCMetadataManager

variable (m : OCMetadataManager) (objectKey : Bytes)

/-- The part that all updates of an entry share, when workers and store answer well. -/
def overwrite (prevMeta : ObjectMeta) (changed : ChangedMeta) (ttlSecond : Nat) :
    Result OCMetadataManager := do
  let (_, timers) ← m.expiredObjectManager.removeObjectIfExistAndGetDeadline objectKey
  let (status, m) :=
    (m.withTimers timers).doBinaryCacheInvalidationUnlocked objectKey prevMeta changed .done
  status
  m.insertTimer objectKey changed.newVersion ttlSecond

/-- `CreateMeta` of one object in binary format. -/
def createMetaForBinaryFormat (now : Nat) (objectKey : Bytes) (newMeta : ObjectMetaPb)
    (address : Bytes) (nestedKeysCanSet : Bool) :
    Result OCMetadataManager :=
  match m.metaTable.find? objectKey with
  | some prevMeta => do
    m.checkExistenceOpt now objectKey prevMeta newMeta.existence false
    prevMeta.checkBinaryFormatParamMatch newMeta.config nestedKeysCanSet
    m.overwrite objectKey prevMeta
      ⟨address, now, newMeta.dataSize, newMeta.lifeState, newMeta.blobSizes⟩ newMeta.ttlSecond
  | none => do
    let timers ← m.expiredObjectManager.removeObjectIfExist objectKey
    ((m.withTimers timers).persistCreatedMeta objectKey newMeta address now).insertTimer
      objectKey now newMeta.ttlSecond

/-- One object of `CreateMultiMeta`, whose version was read when the request came. -/
def createMeta (now version : Nat) (objectKey : Bytes) (newMeta : ObjectMetaPb) (address : Bytes)
    (nestedKeysCanSet : Bool) :
    Result OCMetadataManager :=
  match m.metaTable.find? objectKey with
  | some prevMeta => do
    m.checkExistenceOpt now objectKey prevMeta newMeta.existence false
    prevMeta.checkBinaryFormatParamMatch newMeta.config nestedKeysCanSet
    m.overwrite objectKey prevMeta
      ⟨address, version, newMeta.dataSize, newMeta.lifeState, newMeta.blobSizes⟩ newMeta.ttlSecond
  | none =>
    (m.persistCreatedMeta objectKey newMeta address version).insertTimer objectKey version
      newMeta.ttlSecond

/-- `UpdateMeta`, a request of its own. -/
def updateMeta (now : Nat) (request : UpdateMetaReqPb) (nestedKeysCanSet : Bool) :
    Result OCMetadataManager :=
  match m.metaTable.find? request.objectKey with
  | none => .error ⟨.kNotFound, "does not exist"⟩
  | some objectMeta => do
    if objectMeta.isBinary then
      objectMeta.checkBinaryFormatParamMatch
        { request.binaryFormatParams with isReplica := false } nestedKeysCanSet
    m.overwrite request.objectKey objectMeta
      ⟨request.address, now, request.dataSize, request.lifeState, []⟩ request.ttlSecond

/-- One object of `Expire`. -/
def expire (now : Nat) (objectKey : Bytes) (ttlSecond : Nat) : Result OCMetadataManager :=
  match m.metaTable.find? objectKey with
  | none => .error ⟨.kNotFound, "[Expire] Some object can not be found in metaTable_"⟩
  | some _ => (m.setTtlSecond objectKey ttlSecond).insertTimer objectKey now ttlSecond

/-! ## Restart -/

/-- An entry as `HandleLoadMeta` makes it of a row. -/
def loadEntry (workers : List Bytes) (pb : ObjectMetaPb) : ObjectMeta :=
  { pb := pb
    locations :=
      if pb.primaryAddress ∈ workers ∧ pb.primaryAddress ≠ [] then
        OrderedMap.empty.insert pb.primaryAddress .ack
      else .empty }

/-- `InsertExpireObjects`: the TTL of the row starts again when the row is read. -/
def insertExpireObjects (clock : Bytes → Nat) (rows : OrderedMap Bytes ObjectMetaPb) :
    List (Bytes × Nat × Nat) :=
  (rows.entries.filter fun (_, pb) => 0 < pb.ttlSecond).map fun (objectKey, pb) =>
    (objectKey, clock objectKey, pb.ttlSecond)

/-- A new master that loads the rows of the old one. `clock` is when each row is read. -/
def loadMeta (hash : Bytes → Nat) (workers : List Bytes) (clock : Bytes → Nat)
    (rows : OrderedMap Bytes ObjectMetaPb) : OCMetadataManager where
  metaTable := rows.entries.foldl
    (fun table (objectKey, pb) => table.insert objectKey (loadEntry workers pb)) .empty
  rows := rows
  expiredObjectManager :=
    (⟨hash, fun _ => {}⟩ : ExpiredObjectManager).reloadExpireObjects
      (insertExpireObjects clock rows)

end OCMetadataManager

/-! ## What calls leave in the store -/

inductive Call
  | createMeta (now : Nat) (objectKey : Bytes) (newMeta : ObjectMetaPb) (address : Bytes)
      (nestedKeysCanSet : Bool)
  | createMultiMeta (now version : Nat) (objectKey : Bytes) (newMeta : ObjectMetaPb)
      (address : Bytes) (nestedKeysCanSet : Bool)
  | updateMeta (now : Nat) (request : UpdateMetaReqPb) (nestedKeysCanSet : Bool)
  | expire (now : Nat) (objectKey : Bytes) (ttlSecond : Nat)

namespace Call

def objectKey : Call → Bytes
  | .createMeta _ objectKey _ _ _ => objectKey
  | .createMultiMeta _ _ objectKey _ _ _ => objectKey
  | .updateMeta _ request _ => request.objectKey
  | .expire _ objectKey _ => objectKey

def ttlSecond : Call → Nat
  | .createMeta _ _ newMeta _ _ => newMeta.ttlSecond
  | .createMultiMeta _ _ _ newMeta _ _ => newMeta.ttlSecond
  | .updateMeta _ request _ => request.ttlSecond
  | .expire _ _ ttlSecond => ttlSecond

end Call

namespace OCMetadataManager

def call (m : OCMetadataManager) : Call → Result OCMetadataManager
  | .createMeta now objectKey newMeta address nestedKeysCanSet =>
    m.createMetaForBinaryFormat now objectKey newMeta address nestedKeysCanSet
  | .createMultiMeta now version objectKey newMeta address nestedKeysCanSet =>
    m.createMeta now version objectKey newMeta address nestedKeysCanSet
  | .updateMeta now request nestedKeysCanSet => m.updateMeta now request nestedKeysCanSet
  | .expire now objectKey ttlSecond => m.expire now objectKey ttlSecond

/-- Calls that all succeed. -/
def calls (m : OCMetadataManager) (sequence : List Call) : Result OCMetadataManager :=
  sequence.foldlM call m

/-- The TTL of a call is the one that the row of its object has afterwards: `Expire` leaves the
row, and an update of an object writes the TTL that its entry has. -/
def RecordsTtl (m : OCMetadataManager) : Call → Prop
  | .expire _ objectKey ttlSecond =>
    (m.rows.find? objectKey).map ObjectMetaPb.ttlSecond = some ttlSecond
  | c => ∀ entry, m.metaTable.find? c.objectKey = some entry → entry.pb.ttlSecond = c.ttlSecond

/-- The store after a call: only the row of the call's object is written. -/
structure Stored (m : OCMetadataManager) (objectKey : Bytes) (pb : ObjectMetaPb)
    (m' : OCMetadataManager) : Prop where
  persistence : m'.isPersistenceEnabled = m.isPersistenceEnabled
  rows : m.isPersistenceEnabled → m'.rows = m.rows.insert objectKey pb

variable {m m' : OCMetadataManager} {objectKey : Bytes}

variable {version ttlSecond now : Nat} {nestedKeysCanSet : Bool}

theorem insertTimer_eq_ok (h : m.insertTimer objectKey version ttlSecond = .ok m') :
    ∃ timers, m.expiredObjectManager.insertObject objectKey version ttlSecond false = .ok timers ∧
      m' = m.withTimers timers := by
  obtain ⟨timers, htimers, hm⟩ := bind_eq_ok.mp h
  exact ⟨timers, htimers, (pure_eq_ok.mp hm).symm⟩

theorem stored_createOrUpdateMeta {pb : ObjectMetaPb} {m₁ : OCMetadataManager}
    (hpersistence : m₁.isPersistenceEnabled = m.isPersistenceEnabled) (hrows : m₁.rows = m.rows) :
    Stored m objectKey pb (m₁.createOrUpdateMeta objectKey pb) := by
  unfold createOrUpdateMeta
  constructor
  · split <;> exact hpersistence
  · intro h
    rw [if_pos (hpersistence.trans h), hrows]

theorem stored_insertTimer {pb} {m₁}
    (h : Stored m objectKey pb m₁) (hm : m₁.insertTimer objectKey version ttlSecond = .ok m') :
    Stored m objectKey pb m' := by
  obtain ⟨_, -, rfl⟩ := insertTimer_eq_ok hm
  exact ⟨h.persistence, h.rows⟩

theorem stored_overwrite {prevMeta : ObjectMeta} {changed : ChangedMeta}
    (h : m.overwrite objectKey prevMeta changed ttlSecond = .ok m') :
    Stored m objectKey (prevMeta.change changed).pb m' := by
  obtain ⟨⟨_, timers⟩, -, h⟩ := bind_eq_ok.mp h
  have hstored : Stored m objectKey (prevMeta.change changed).pb
      (((m.withTimers timers).putMeta objectKey (prevMeta.change changed)).createOrUpdateMeta
        objectKey (prevMeta.change changed).pb) := stored_createOrUpdateMeta rfl rfl
  exact stored_insertTimer hstored h

/-- A new object is stored with the TTL of its create, another one with that of its entry. -/
theorem stored_createMetaForBinaryFormat {newMeta : ObjectMetaPb} {address : Bytes}
    (h : m.createMetaForBinaryFormat now objectKey newMeta address nestedKeysCanSet = .ok m') :
    ∃ pb, Stored m objectKey pb m' ∧
      pb.ttlSecond = (m.metaTable.find? objectKey).elim newMeta.ttlSecond (·.pb.ttlSecond) := by
  unfold createMetaForBinaryFormat at h
  split at h
  · rename_i prevMeta hfind
    obtain ⟨_, -, h⟩ := bind_eq_ok.mp h
    obtain ⟨_, -, h⟩ := bind_eq_ok.mp h
    exact ⟨_, stored_overwrite h, by rw [hfind]; rfl⟩
  · rename_i hfind
    obtain ⟨timers, -, h⟩ := bind_eq_ok.mp h
    have hstored : Stored m objectKey (ObjectMeta.setMetaInfo newMeta address now).pb
        ((m.withTimers timers).persistCreatedMeta objectKey newMeta address now) :=
      stored_createOrUpdateMeta rfl rfl
    exact ⟨_, stored_insertTimer hstored h, by rw [hfind]; rfl⟩

theorem stored_createMeta {newMeta : ObjectMetaPb} {address : Bytes}
    (h : m.createMeta now version objectKey newMeta address nestedKeysCanSet = .ok m') :
    ∃ pb, Stored m objectKey pb m' ∧
      pb.ttlSecond = (m.metaTable.find? objectKey).elim newMeta.ttlSecond (·.pb.ttlSecond) := by
  unfold createMeta at h
  split at h
  · rename_i prevMeta hfind
    obtain ⟨_, -, h⟩ := bind_eq_ok.mp h
    obtain ⟨_, -, h⟩ := bind_eq_ok.mp h
    exact ⟨_, stored_overwrite h, by rw [hfind]; rfl⟩
  · rename_i hfind
    have hstored : Stored m objectKey (ObjectMeta.setMetaInfo newMeta address version).pb
        (m.persistCreatedMeta objectKey newMeta address version) :=
      stored_createOrUpdateMeta rfl rfl
    exact ⟨_, stored_insertTimer hstored h, by rw [hfind]; rfl⟩

theorem stored_updateMeta {request} (h : m.updateMeta now request nestedKeysCanSet = .ok m') :
    ∃ pb, Stored m request.objectKey pb m' ∧ pb.ttlSecond =
        (m.metaTable.find? request.objectKey).elim request.ttlSecond (·.pb.ttlSecond) := by
  unfold updateMeta at h
  split at h
  · cases h
  · rename_i objectMeta hfind
    have hoverwrite : ∃ changed,
        m.overwrite request.objectKey objectMeta changed request.ttlSecond = .ok m' := by
      split at h
      · obtain ⟨_, -, h⟩ := bind_eq_ok.mp h
        exact ⟨_, h⟩
      · exact ⟨_, h⟩
    obtain ⟨_, hoverwrite⟩ := hoverwrite
    exact ⟨_, stored_overwrite hoverwrite, by rw [hfind]; rfl⟩

/-- What a call does to the rows, with persistence. -/
structure Recorded (m : OCMetadataManager) (c : Call) (m' : OCMetadataManager) : Prop where
  persistence : m'.isPersistenceEnabled
  other : ∀ key, key ≠ c.objectKey → m'.rows.find? key = m.rows.find? key
  own : m.RecordsTtl c → (m'.rows.find? c.objectKey).map ObjectMetaPb.ttlSecond = some c.ttlSecond

theorem Stored.recorded {c} {pb} (h : Stored m c.objectKey pb m')
    (hpersistence : m.isPersistenceEnabled) (hown : m.RecordsTtl c → pb.ttlSecond = c.ttlSecond) :
    Recorded m c m' where
  persistence := h.persistence.trans hpersistence
  other key hkey := by rw [h.rows hpersistence, find?_insert, if_neg hkey]
  own hrecords := by
    rw [h.rows hpersistence, find?_insert, if_pos rfl, Option.map_some, hown hrecords]

theorem recorded_call {c} (hpersistence : m.isPersistenceEnabled) (h : m.call c = .ok m') :
    Recorded m c m' := by
  -- a create or an update of an entry, which must then have the TTL of the call
  have hkept : ∀ {pb : ObjectMetaPb}, (∀ entry, m.metaTable.find? c.objectKey = some entry →
      entry.pb.ttlSecond = c.ttlSecond) →
      pb.ttlSecond = (m.metaTable.find? c.objectKey).elim c.ttlSecond (·.pb.ttlSecond) →
      pb.ttlSecond = c.ttlSecond := by
    intro pb hentry hpb
    cases hfind : m.metaTable.find? c.objectKey with
    | none => rw [hpb, hfind, Option.elim_none]
    | some entry => rw [hpb, hfind, Option.elim_some, hentry entry hfind]
  cases c with
  | createMeta =>
    obtain ⟨_, hstored, hpb⟩ := stored_createMetaForBinaryFormat h
    exact hstored.recorded hpersistence fun hentry => hkept hentry hpb
  | createMultiMeta =>
    obtain ⟨_, hstored, hpb⟩ := stored_createMeta h
    exact hstored.recorded hpersistence fun hentry => hkept hentry hpb
  | updateMeta =>
    obtain ⟨_, hstored, hpb⟩ := stored_updateMeta h
    exact hstored.recorded hpersistence fun hentry => hkept hentry hpb
  | expire now objectKey ttlSecond =>
    have h : m.expire now objectKey ttlSecond = .ok m' := h
    unfold expire at h
    split at h
    · cases h
    · obtain ⟨_, -, rfl⟩ := insertTimer_eq_ok h
      exact ⟨hpersistence, fun _ _ => rfl, id⟩

theorem rows_calls {sequence} {key} (hpersistence : m.isPersistenceEnabled)
    (h : m.calls sequence = .ok m') (hother : ∀ c ∈ sequence, c.objectKey ≠ key) :
    m'.rows.find? key = m.rows.find? key := by
  induction sequence generalizing m with
  | nil =>
    cases pure_eq_ok.mp h
    rfl
  | cons _ _ ih =>
    obtain ⟨_, hcall, hrest⟩ := bind_eq_ok.mp h
    have hrecorded := recorded_call hpersistence hcall
    obtain ⟨hc, hall⟩ := forall_mem_cons.mp hother
    rw [ih hrecorded.persistence hrest hall, hrecorded.other key (Ne.symm hc)]

end OCMetadataManager

/-! ## What a restart makes of the rows -/

namespace ExpiredObjectManager

variable {m : ExpiredObjectManager} {key : Bytes}

theorem reloadExpireObjects_cons (o) (rest) : m.reloadExpireObjects (o :: rest) =
      (m.setShard o.1 ((m.shard o.1).insertObjectUnlock o.1 o.2.1 o.2.2)).reloadExpireObjects
        rest := rfl

theorem view_insertObjectUnlock (objectKey) (version ttlSecond : Nat) : (m.setShard objectKey
        ((m.shard objectKey).insertObjectUnlock objectKey version ttlSecond)).view key =
      if key = objectKey then
        (m.view key).file ⟨(m.shard objectKey).nextNode, calcExpireTime version ttlSecond⟩
      else m.view key :=
  view_setShard (f := fun v => v.file _) fun _ => ExpiredShard.view_fileTimer _

theorem view_reloadExpireObjects_of_forall_ne {objects}
    (h : ∀ o ∈ objects, o.1 ≠ key) : (m.reloadExpireObjects objects).view key = m.view key := by
  induction objects generalizing m with
  | nil => rfl
  | cons _ _ ih =>
    obtain ⟨ho, hrest⟩ := forall_mem_cons.mp h
    rw [reloadExpireObjects_cons, ih hrest, view_insertObjectUnlock, if_neg (Ne.symm ho)]

theorem view_reloadExpireObjects {objects} {version ttlSecond : Nat}
    (hnodup : (objects.map Prod.fst).Nodup) (h : (key, version, ttlSecond) ∈ objects) :
    ∃ node : TimedNode, node.expireTime = calcExpireTime version ttlSecond ∧
      (m.reloadExpireObjects objects).view key = (m.view key).file node := by
  induction objects generalizing m with
  | nil => cases h
  | cons o rest ih =>
    obtain ⟨hnot, hnodup⟩ := nodup_cons.mp hnodup
    rcases mem_cons.mp h with rfl | h
    · have hrest : ∀ o ∈ rest, o.1 ≠ key := fun o ho heq => hnot (mem_map.mpr ⟨o, ho, heq⟩)
      refine ⟨⟨(m.shard key).nextNode, calcExpireTime version ttlSecond⟩, rfl, ?_⟩
      rw [reloadExpireObjects_cons, view_reloadExpireObjects_of_forall_ne hrest,
        view_insertObjectUnlock, if_pos rfl]
    · have hne : key ≠ o.1 := fun heq => hnot (heq ▸ mem_map_of_mem h)
      obtain ⟨node, htime, hview⟩ := ih hnodup h
      refine ⟨node, htime, ?_⟩
      rw [reloadExpireObjects_cons, hview, view_insertObjectUnlock, if_neg hne]

end ExpiredObjectManager

/-- The timers of a key that has a TTL from some time on, and none if the TTL is zero. -/
def KeyTimers.HasTtl (v : KeyTimers) (since ttlSecond : Nat) : Prop :=
  (v.timers ≠ 0 ↔ 0 < ttlSecond) ∧
    ∀ node ∈ v.timers, node.expireTime = calcExpireTime since ttlSecond

namespace OCMetadataManager

theorem nodup_insertExpireObjects (clock) (rows) :
    ((insertExpireObjects clock rows).map Prod.fst).Nodup := by
  have hsub := (rows.entries.filter_sublist (p := fun e => 0 < e.2.ttlSecond)).map Prod.fst
  rw [insertExpireObjects, map_map]
  exact hsub.nodup rows.keys_nodup

/-- A restart gives each key the TTL of its row. -/
theorem hasTtl_loadMeta {hash} {workers} {clock} {rows} {key} {pb} (h : rows.find? key = some pb) :
    ((loadMeta hash workers clock rows).expiredObjectManager.view key).HasTtl (clock key)
      pb.ttlSecond := by
  have hempty : (⟨hash, fun _ => {}⟩ : ExpiredObjectManager).view key = ⟨0, none, none, False⟩ := by
    simp [view, shard, ExpiredShard.view, OrderedMap.find?, OrderedMap.empty]
  have hmem := mem_entries_iff.mpr h
  by_cases hpos : 0 < pb.ttlSecond
  · have hobj : (key, clock key, pb.ttlSecond) ∈ insertExpireObjects clock rows :=
      mem_map.mpr ⟨(key, pb), mem_filter.mpr ⟨hmem, decide_eq_true hpos⟩, rfl⟩
    obtain ⟨_, htime, hview⟩ := view_reloadExpireObjects
      (m := ⟨hash, fun _ => {}⟩) (nodup_insertExpireObjects clock rows) hobj
    rw [loadMeta, hview, hempty]
    simp [KeyTimers.HasTtl, KeyTimers.file, hpos, htime]
  · have hnone : ∀ o ∈ insertExpireObjects clock rows, o.1 ≠ key := by
      intro o ho heq
      obtain ⟨⟨_, _⟩, hpb, rfl⟩ := mem_map.mp ho
      obtain ⟨hpb, hpos'⟩ := mem_filter.mp hpb
      cases heq
      rw [mem_entries_iff.mp hpb] at h
      cases h
      exact hpos (of_decide_eq_true hpos')
    rw [loadMeta, view_reloadExpireObjects_of_forall_ne hnone, hempty]
    simp [KeyTimers.HasTtl, hpos]

theorem persistence_calls {m m' : OCMetadataManager} {sequence : List Call}
    (hpersistence : m.isPersistenceEnabled) (h : m.calls sequence = .ok m') :
    m'.isPersistenceEnabled := by
  induction sequence generalizing m with
  | nil =>
    cases pure_eq_ok.mp h
    exact hpersistence
  | cons _ _ ih =>
    obtain ⟨_, hcall, hrest⟩ := bind_eq_ok.mp h
    exact ih (recorded_call hpersistence hcall).persistence hrest

/-- **A TTL that the row records survives a restart.** -/
theorem ttl_survives_restart (m₀ : OCMetadataManager) {m : OCMetadataManager}
    (before after : List Call) (c : Call) (hash : Bytes → Nat) (workers : List Bytes)
    (clock : Bytes → Nat) (hpersistence : m₀.isPersistenceEnabled)
    (hcalls : m₀.calls (before ++ c :: after) = .ok m)
    (hlast : ∀ c' ∈ after, c'.objectKey ≠ c.objectKey)
    (hrecords : ∀ m₁, m₀.calls before = .ok m₁ → m₁.RecordsTtl c) :
    ((loadMeta hash workers clock m.rows).expiredObjectManager.view c.objectKey).HasTtl
      (clock c.objectKey) c.ttlSecond := by
  rw [calls, foldlM_append] at hcalls
  obtain ⟨m₁, hbefore, hcalls⟩ := bind_eq_ok.mp hcalls
  obtain ⟨_, hcall, hafter⟩ := bind_eq_ok.mp hcalls
  have hrecorded := recorded_call (persistence_calls hpersistence hbefore) hcall
  have hrow := hrecorded.own (hrecords m₁ hbefore)
  rw [← rows_calls hrecorded.persistence hafter hlast] at hrow
  obtain ⟨_, hpb, httl⟩ := Option.map_eq_some_iff.mp hrow
  rw [← httl]
  exact hasTtl_loadMeta hpb

/-- A create with a TTL, written again by another object's create and by an overwrite that gives
the same TTL. -/
theorem ttl_of_overwrite_survives_restart : ∃ m, (start List.length).calls
        ([.createMeta 5 [1] { ttlSecond := 10 } [7] true] ++
          .createMeta 6 [1] { ttlSecond := 10 } [8] true ::
            [.createMultiMeta 7 7 [2] {} [7] true]) = .ok m ∧
      ((loadMeta List.length [] (fun _ => 20) m.rows).expiredObjectManager.view [1]).HasTtl
        20 10 := by
  refine ⟨_, rfl, ttl_survives_restart (start List.length)
    [.createMeta 5 [1] { ttlSecond := 10 } [7] true] [.createMultiMeta 7 7 [2] {} [7] true]
    (.createMeta 6 [1] { ttlSecond := 10 } [8] true) List.length [] (fun _ => 20) rfl rfl
    (by decide) ?_⟩
  intro m₁ hm₁
  cases hm₁
  intro entry hentry
  cases hentry
  rfl

/-- The TTL of `Expire` is lost by a restart, and the TTL that an overwrite took away is back. -/
theorem ttl_lost_by_restart : ∃ m, (start List.length).calls
        [.createMeta 5 [1] {} [7] true, .expire 6 [1] 10,
          .createMeta 7 [2] { ttlSecond := 30 } [7] true, .createMeta 8 [2] {} [7] true] = .ok m ∧
      ((loadMeta List.length [] (fun _ => 20) m.rows).expiredObjectManager.view [1]).timers = 0 ∧
      ((loadMeta List.length [] (fun _ => 20) m.rows).expiredObjectManager.view [2]).timers ≠
        0 := by
  refine ⟨_, rfl, ?_, ?_⟩
  · decide +kernel
  · decide +kernel

end OCMetadataManager

end Datasystem.Master
