import Datasystem.Master.OCMetadataManager

/-! Workers that are gone. Each of them is taken from the locations of all objects, and an object
whose primary copy was there gets another of its locations as primary, unless the worker is
still reported healthy. -/

namespace Datasystem.Master

open Common Lib Checked List OrderedMap

/-- An order in which the copies of an object are gone through. That of an unordered map can be
any. -/
structure LocationOrder where
  visit : OrderedMap Bytes AckState → List (Bytes × AckState)
  perm : ∀ locations, (visit locations).Perm locations.entries

def LocationOrder.byKey : LocationOrder := ⟨fun locations => locations.entries, fun _ => .refl _⟩

namespace ObjectMeta

def isNoneL2CacheEvict (m : ObjectMeta) : Bool := m.pb.config.writeMode = .noneL2CacheEvict

/-- `ReselectPrimaryCopy`, with the answer about the health of the present primary. -/
def reselectPrimaryCopy (entry : ObjectMeta) (objectKey : Bytes) (excludedAddr : List Bytes)
    (order : LocationOrder) (healthy : Bool) : Result Bytes :=
  if healthy then .error ⟨.kInvalid, "The primary copy is normal. objectKey:" ++ text objectKey⟩
  else
    match (order.visit entry.locations).find? fun addr =>
      addr.1 ≠ entry.pb.primaryAddress ∧ addr.1 ∉ excludedAddr with
    | some addr => .ok addr.1
    | none => .error ⟨.kUnknownError,
        "Failed to select a new primary copy. objectKey:" ++ text objectKey⟩

/-- What `RemoveMetaByWorkerForKey` makes of an entry. -/
def removeWorker (entry : ObjectMeta) (objectKey workerAddr : Bytes) (order : LocationOrder)
    (healthy : Bool) : Option ObjectMeta :=
  let entry := { entry with locations := entry.locations.erase workerAddr }
  if entry.locations.entries.isEmpty && entry.isNoneL2CacheEvict then none
  else if workerAddr = entry.pb.primaryAddress then
    let newPrimaryCopy := (entry.reselectPrimaryCopy objectKey [] order healthy).toOption.getD []
    some { entry with pb := { entry.pb with primaryAddress := newPrimaryCopy } }
  else some entry

end ObjectMeta

/-- What a removal finds: the health of a worker when an object asks for it, and the orders of the
copies of an object, when those to be removed are collected and when a primary is selected. -/
structure RemovalAnswers where
  healthy : Bytes → Bytes → Bool
  affectedOrder : Bytes → LocationOrder := fun _ => .byKey
  reselectOrder : Bytes → Bytes → LocationOrder := fun _ _ => .byKey

namespace OCMetadataManager

variable (m : OCMetadataManager) (answers : RemovalAnswers)

/-- `RemoveMetaByWorkerForKey`. The row is written if the primary changes. -/
def removeMetaByWorkerForKey (objectKey workerAddr : Bytes) : OCMetadataManager :=
  match m.metaTable.find? objectKey with
  | none => m
  | some entry =>
    match entry.removeWorker objectKey workerAddr (answers.reselectOrder objectKey workerAddr)
      (answers.healthy objectKey workerAddr) with
    | none => (m.removeMeta objectKey).eraseMeta objectKey
    | some entry' =>
      let m := m.putMeta objectKey entry'
      if workerAddr = entry.pb.primaryAddress then m.createOrUpdateMeta objectKey entry'.pb else m

/-- `RemoveMetaByWorker` -/
def removeMetaByWorker (workerAddr : Bytes) : OCMetadataManager :=
  let removeObjectKeys := m.metaTable.entries.filter fun (_, entry) =>
    (entry.locations.find? workerAddr).isSome || entry.pb.primaryAddress = workerAddr
  removeObjectKeys.foldl (fun m (objectKey, _) =>
    m.removeMetaByWorkerForKey answers objectKey workerAddr) m

/-- The workers that an entry is to lose. -/
def affectedAddresses (restartedAddresses : List Bytes) (order : LocationOrder)
    (entry : ObjectMeta) : List Bytes :=
  let affectedAddresses :=
    ((order.visit entry.locations).map Prod.fst).filter (· ∈ restartedAddresses)
  let primary := entry.pb.primaryAddress
  if primary ∈ restartedAddresses ∧ primary ∉ affectedAddresses then
    affectedAddresses ++ [primary]
  else affectedAddresses

def removeMetaByWorkers (restartedAddresses : List Bytes) : OCMetadataManager :=
  m.metaTable.entries.foldl (fun m (objectKey, entry) =>
    (affectedAddresses restartedAddresses (answers.affectedOrder objectKey) entry).foldl
      (fun m workerAddr => m.removeMetaByWorkerForKey answers objectKey workerAddr) m) m

end OCMetadataManager

/-! ## One object -/

namespace ObjectMeta

variable {entry entry' : ObjectMeta} {k w w' : Bytes} {order : LocationOrder} {healthy : Bool}

/-- A worker has a copy of the object. -/
def Located (entry : ObjectMeta) (w : Bytes) : Prop := w ∈ entry.locations.keys

instance : Decidable (entry.Located w) := inferInstanceAs (Decidable (w ∈ entry.locations.keys))

theorem located_iff : entry.Located w ↔ (entry.locations.find? w).isSome := by
  rw [Located, mem_keys_iff]

theorem located_erase : Located { entry with locations := entry.locations.erase w } w' ↔
    w' ≠ w ∧ entry.Located w' := by
  rw [located_iff, located_iff]
  rw [find?_erase]
  split <;> simp_all

theorem located_iff_mem_visit (order : LocationOrder) :
    entry.Located w ↔ w ∈ (order.visit entry.locations).map Prod.fst :=
  ((order.perm entry.locations).map Prod.fst).mem_iff.symm

theorem reselectPrimaryCopy_eq_ok {addr}
    (h : entry.reselectPrimaryCopy k [] order healthy = .ok addr) :
    entry.Located addr ∧ addr ≠ entry.pb.primaryAddress := by
  unfold reselectPrimaryCopy at h
  split at h
  · cases h
  · split at h
    · rename_i found hfound
      cases h
      have hne := find?_some hfound
      have hmem := mem_map_of_mem (f := Prod.fst) (mem_of_find?_eq_some hfound)
      exact ⟨(located_iff_mem_visit order).mpr hmem, by simpa using hne⟩
    · cases h

/-- The copy that is gone through first. -/
def firstCopy (order : LocationOrder) (locations : OrderedMap Bytes AckState) : Bytes :=
  (((order.visit locations).map Prod.fst).head?).getD []

/-- Where the primary is no location any more, the first copy takes its place. -/
theorem reselectPrimaryCopy_of_located (k order) (hw : entry.Located w)
    (hprimary : ¬entry.Located entry.pb.primaryAddress) :
    entry.reselectPrimaryCopy k [] order false = .ok (firstCopy order entry.locations) := by
  rw [located_iff_mem_visit order] at hw hprimary
  unfold reselectPrimaryCopy firstCopy
  cases hvisit : order.visit entry.locations with
  | nil =>
    rw [hvisit] at hw
    cases hw
  | cons first rest =>
    rw [hvisit] at hprimary
    have hne : first.1 ≠ entry.pb.primaryAddress := fun heq => hprimary (heq ▸ mem_cons_self)
    simp [hne]

theorem removeWorker_eq_some (h : entry.removeWorker k w order healthy = some entry') :
    (∀ w', entry'.Located w' ↔ w' ≠ w ∧ entry.Located w') ∧ (entry'.pb.primaryAddress = [] ∨
        entry'.pb.primaryAddress ≠ w ∧ (entry'.pb.primaryAddress = entry.pb.primaryAddress ∨
          entry'.Located entry'.pb.primaryAddress)) := by
  unfold removeWorker at h
  dsimp only at h
  split at h
  · cases h
  · split at h
    · rename_i hprimary
      cases h
      refine ⟨fun w' => located_erase, ?_⟩
      cases hselect : reselectPrimaryCopy
          { entry with locations := entry.locations.erase w } k [] order healthy with
      | error status => exact .inl rfl
      | ok addr =>
        obtain ⟨hloc, hne⟩ := reselectPrimaryCopy_eq_ok hselect
        exact .inr ⟨hprimary ▸ hne, .inr hloc⟩
    · rename_i hprimary
      cases h
      exact ⟨fun w' => located_erase, .inr ⟨Ne.symm hprimary, .inl rfl⟩⟩

/-- The primary of an object after a worker is removed that is not its last copy. -/
def primaryAfter (entry : ObjectMeta) (w : Bytes) (order : LocationOrder)
    (healthy : Bool) : Bytes :=
  if w = entry.pb.primaryAddress then
    if healthy then [] else firstCopy order (entry.locations.erase w)
  else entry.pb.primaryAddress

/-- The entry without a copy, and with another primary. -/
def withoutCopy (entry : ObjectMeta) (w primary : Bytes) : ObjectMeta :=
  { entry with
    locations := entry.locations.erase w
    pb := { entry.pb with primaryAddress := primary } }

theorem located_withoutCopy {primary} :
    (entry.withoutCopy w primary).Located w' ↔ w' ≠ w ∧ entry.Located w' :=
  located_erase

theorem removeWorker_of_located (hloc : entry.Located w') (hne : w' ≠ w) (order) (healthy) :
    entry.removeWorker k w order healthy =
      some (entry.withoutCopy w (entry.primaryAfter w order healthy)) := by
  have hleft : Located { entry with locations := entry.locations.erase w } w' :=
    located_erase.mpr ⟨hne, hloc⟩
  have hsome : (entry.locations.erase w).entries.isEmpty = false := by
    rw [isEmpty_eq_false_iff]
    intro hnil
    rw [Located, OrderedMap.keys, hnil] at hleft
    cases hleft
  unfold removeWorker primaryAfter
  dsimp only
  rw [hsome]
  by_cases heq : w = entry.pb.primaryAddress
  · cases healthy with
    | true => simp [heq, reselectPrimaryCopy, Except.toOption, withoutCopy]
    | false =>
      have hgone : ¬Located { entry with locations := entry.locations.erase w }
          entry.pb.primaryAddress := fun hmem => (located_erase.mp hmem).1 heq.symm
      rw [reselectPrimaryCopy_of_located _ _ hleft hgone]
      simp [heq, Except.toOption, withoutCopy]
  · simp [heq, withoutCopy]

/-- Several workers, one after the other. -/
def removeWorkers (entry : ObjectMeta) (objectKey : Bytes) (answers : RemovalAnswers)
    (workers : List Bytes) : Option ObjectMeta :=
  workers.foldlM (fun entry w => entry.removeWorker objectKey w (answers.reselectOrder objectKey w)
    (answers.healthy objectKey w)) entry

variable {workers : List Bytes} {answers : RemovalAnswers}

theorem removeWorkers_cons (h : entry.removeWorkers k answers (w :: workers) = some entry') :
    ∃ next, entry.removeWorker k w (answers.reselectOrder k w) (answers.healthy k w) = some next ∧
      next.removeWorkers k answers workers = some entry' :=
  Option.bind_eq_some_iff.mp h

theorem located_removeWorkers (h : entry.removeWorkers k answers workers = some entry') :
    entry'.Located w ↔ w ∉ workers ∧ entry.Located w := by
  induction workers generalizing entry with
  | nil =>
    cases h
    simp
  | cons _ _ ih =>
    obtain ⟨_, hnext, hrest⟩ := removeWorkers_cons h
    rw [ih hrest, (removeWorker_eq_some hnext).1 w, mem_cons]
    tauto

/-- A worker is a location of the object or its primary. -/
def Involves (entry : ObjectMeta) (w : Bytes) : Prop :=
  entry.Located w ∨ entry.pb.primaryAddress = w

theorem not_involves_removeWorker (h : entry.removeWorker k w order healthy = some entry')
    (hne : w' ≠ []) (hw' : w' = w ∨ ¬entry.Involves w') : ¬entry'.Involves w' := by
  obtain ⟨hloc, hprimary⟩ := removeWorker_eq_some h
  have hnot : ¬entry'.Located w' := fun hmem =>
    hw'.elim ((hloc w').mp hmem).1 fun hinvolves => hinvolves (.inl ((hloc w').mp hmem).2)
  intro hinv
  rcases hinv with hmem | heq
  · exact hnot hmem
  · rw [heq] at hprimary
    rcases hprimary with hnil | ⟨hne', hsame | hmem⟩
    · exact hne hnil
    · exact hw'.elim hne' fun hinvolves => hinvolves (.inr hsame.symm)
    · exact hnot hmem

/-- Removed workers, and those that had nothing of the object, have nothing of it. -/
theorem not_involves_removeWorkers (h : entry.removeWorkers k answers workers = some entry')
    (hne : w ≠ []) (hw : w ∈ workers ∨ ¬entry.Involves w) : ¬entry'.Involves w := by
  induction workers generalizing entry with
  | nil =>
    cases h
    exact hw.resolve_left (by simp)
  | cons v _ ih =>
    obtain ⟨_, hnext, hrest⟩ := removeWorkers_cons h
    refine ih hrest ?_
    by_cases hv : w = v
    · exact .inr (not_involves_removeWorker hnext hne (.inl hv))
    · refine hw.imp (fun hmem => (mem_cons.mp hmem).resolve_left hv) fun hnot => ?_
      exact not_involves_removeWorker hnext hne (.inr hnot)

/-- The primaries that an object loses with the workers, if it always gets another one: the first
copy that is left takes the place of a primary that is removed. -/
def primariesLost (order : Bytes → LocationOrder) (primary : Bytes)
    (locations : OrderedMap Bytes AckState) : List Bytes → List Bytes
  | [] => []
  | w :: rest =>
    let left := locations.erase w
    if w = primary then w :: primariesLost order (firstCopy (order w) left) left rest
    else primariesLost order primary left rest

/-- One worker that is not the last copy, and then the others. -/
theorem removeWorkers_of_located (hloc : entry.Located w') (hne : w' ≠ w)
    (h : (entry.withoutCopy w (entry.primaryAfter w (answers.reselectOrder k w)
      (answers.healthy k w))).removeWorkers k answers workers = some entry') :
    entry.removeWorkers k answers (w :: workers) = some entry' :=
  Option.bind_eq_some_iff.mpr ⟨_, removeWorker_of_located hloc hne _ _, h⟩

/-- A primary that was cleared stays so. -/
theorem cleared_removeWorkers (k answers) (hloc : entry.Located w) (hw : w ∉ workers)
    (hcleared : entry.pb.primaryAddress = []) (hnil : [] ∉ workers) :
    ∃ entry', entry.removeWorkers k answers workers = some entry' ∧
      entry'.pb.primaryAddress = [] := by
  induction workers generalizing entry with
  | nil => exact ⟨entry, rfl, hcleared⟩
  | cons v rest ih =>
    obtain ⟨hne, hrest⟩ := ne_and_not_mem_of_not_mem_cons hw
    obtain ⟨hvnil, hnil⟩ := ne_and_not_mem_of_not_mem_cons hnil
    have hprimary :
        entry.primaryAfter v (answers.reselectOrder k v) (answers.healthy k v) = [] := by
      rw [primaryAfter, hcleared, if_neg (Ne.symm hvnil)]
    obtain ⟨entry', hremove, hentry'⟩ := @ih (entry.withoutCopy v _)
      (located_withoutCopy.mpr ⟨hne, hloc⟩) hrest hprimary hnil
    exact ⟨entry', removeWorkers_of_located hloc hne hremove, hentry'⟩

/-- An object that keeps a location has a primary among its locations in the end just if each of the
primaries that it loses was reported unhealthy. -/
theorem located_primary_removeWorkers_iff (k answers) (hloc : entry.Located w)
    (hw : w ∉ workers) (hnil : [] ∉ workers) (haddress : ¬entry.Located [])
    (hprimary : entry.Located entry.pb.primaryAddress) :
    ∃ entry', entry.removeWorkers k answers workers = some entry' ∧
      (entry'.Located entry'.pb.primaryAddress ↔
        ∀ v ∈ primariesLost (answers.reselectOrder k) entry.pb.primaryAddress
          entry.locations workers,
          answers.healthy k v = false) := by
  induction workers generalizing entry with
  | nil => exact ⟨entry, rfl, by simp [primariesLost, hprimary]⟩
  | cons v rest ih =>
    obtain ⟨hne, hrest⟩ := ne_and_not_mem_of_not_mem_cons hw
    obtain ⟨hvnil, hnil⟩ := ne_and_not_mem_of_not_mem_cons hnil
    have hleft : ∀ primary, (entry.withoutCopy v primary).Located w := fun _ =>
      located_withoutCopy.mpr ⟨hne, hloc⟩
    have hnone : ∀ primary, ¬(entry.withoutCopy v primary).Located [] := fun _ hmem =>
      haddress (located_withoutCopy.mp hmem).2
    -- it is enough to follow the entry that is left, whatever its primary is
    suffices hkept :
        ∃ entry', (entry.withoutCopy v (entry.primaryAfter v (answers.reselectOrder k v)
        (answers.healthy k v))).removeWorkers k answers rest = some entry' ∧
        (entry'.Located entry'.pb.primaryAddress ↔ ∀ u ∈ primariesLost (answers.reselectOrder k)
          entry.pb.primaryAddress entry.locations (v :: rest), answers.healthy k u = false) by
      obtain ⟨entry', hremove, hiff⟩ := hkept
      exact ⟨entry', removeWorkers_of_located hloc hne hremove, hiff⟩
    by_cases heq : v = entry.pb.primaryAddress
    · rw [primaryAfter, if_pos heq, primariesLost, if_pos heq, forall_mem_cons]
      cases hhealthy : answers.healthy k v with
      | true =>
        -- the primary is cleared, and the empty address is no location
        obtain ⟨entry', hremove, hcleared⟩ := cleared_removeWorkers k answers (hleft []) hrest rfl
          hnil
        refine ⟨entry', hremove, ?_⟩
        rw [hcleared]
        constructor
        · intro hmem
          exact absurd ((located_removeWorkers hremove).mp hmem).2 (hnone [])
        · intro hall
          cases hall.1
      | false =>
        have hselected := reselectPrimaryCopy_of_located k (answers.reselectOrder k v)
          (hleft entry.pb.primaryAddress) fun hmem => (located_withoutCopy.mp hmem).1 heq.symm
        obtain ⟨entry', hremove, hiff⟩ := @ih (entry.withoutCopy v _) (hleft _) hrest hnil (hnone _)
          (reselectPrimaryCopy_eq_ok hselected).1
        exact ⟨entry', hremove, hiff.trans (and_iff_right rfl).symm⟩
    · rw [primaryAfter, if_neg heq, primariesLost, if_neg heq]
      exact ih (hleft _) hrest hnil (hnone _)
        (located_withoutCopy.mpr ⟨Ne.symm heq, hprimary⟩)

end ObjectMeta

/-! ## All objects -/

namespace OCMetadataManager

variable {m : OCMetadataManager} {answers : RemovalAnswers} {k k' w : Bytes} {workers : List Bytes}

theorem find?_removeMetaByWorkerForKey :
    (m.removeMetaByWorkerForKey answers k w).metaTable.find? k' =
      if k' = k then (m.metaTable.find? k).bind
        (·.removeWorker k w (answers.reselectOrder k w) (answers.healthy k w))
      else m.metaTable.find? k' := by
  unfold removeMetaByWorkerForKey
  split
  · rename_i hnone
    by_cases hk : k' = k <;> simp [hk, hnone]
  · rename_i entry hentry
    rw [hentry, Option.bind_some]
    split
    · rename_i hremoved
      simp only [hremoved, eraseMeta, metaTable_removeMeta]
      rw [find?_erase]
      by_cases hk : k' = k <;> simp [hk]
    · rename_i entry' hremoved
      have hput : ((m.putMeta k entry').metaTable).find? k' =
          if k' = k then some entry' else m.metaTable.find? k' := by
        rw [putMeta, find?_insert]
        by_cases hk : k' = k <;> simp [hk]
      rw [hremoved, ← hput]
      split <;> simp

theorem find?_foldl_removeMetaByWorkerForKey :
    (workers.foldl (fun m w => m.removeMetaByWorkerForKey answers k w) m).metaTable.find? k' =
      if k' = k then (m.metaTable.find? k).bind (·.removeWorkers k answers workers)
      else m.metaTable.find? k' := by
  induction workers generalizing m with
  | nil =>
    by_cases hk : k' = k
    · simp [hk, ObjectMeta.removeWorkers]
    · simp [hk]
  | cons _ _ ih =>
    rw [foldl_cons, ih, find?_removeMetaByWorkerForKey, find?_removeMetaByWorkerForKey]
    by_cases hk : k' = k
    · rw [if_pos hk, if_pos hk, if_pos rfl, Option.bind_assoc]
      rfl
    · rw [if_neg hk, if_neg hk, if_neg hk]

theorem find?_removeMetaByWorkers : (m.removeMetaByWorkers answers workers).metaTable.find? k =
    (m.metaTable.find? k).bind fun entry => entry.removeWorkers k answers
      (affectedAddresses workers (answers.affectedOrder k) entry) := by
  refine find?_foldl_entries metaTable (fun k entry => entry.removeWorkers k answers
    (affectedAddresses workers (answers.affectedOrder k) entry)) ?_ ?_ rfl k
  · intro m e k hk
    rw [find?_foldl_removeMetaByWorkerForKey, if_neg hk]
  · intro m e he
    rw [find?_foldl_removeMetaByWorkerForKey, if_pos rfl, he]
    rfl

/-- One worker is a loop over the objects that involve it. -/
theorem find?_removeMetaByWorker : (m.removeMetaByWorker answers w).metaTable.find? k =
    (m.metaTable.find? k).bind fun entry => entry.removeWorkers k answers
      (if (entry.locations.find? w).isSome || entry.pb.primaryAddress = w then [w] else []) := by
  unfold removeMetaByWorker
  rw [foldl_filter]
  refine find?_foldl_entries metaTable (fun k entry => entry.removeWorkers k answers
    (if (entry.locations.find? w).isSome || entry.pb.primaryAddress = w then [w] else [])) ?_ ?_
    rfl k
  · intro m (key, entry) k hk
    dsimp only
    split
    · rw [find?_removeMetaByWorkerForKey, if_neg hk]
    · rfl
  · intro m (key, entry) he
    dsimp only at he ⊢
    split
    · rw [find?_removeMetaByWorkerForKey, if_pos rfl, he]
      simp [ObjectMeta.removeWorkers]
    · exact he

/-- Each primary is one of the locations of its object; the empty string is no address. -/
def PrimaryLocated (m : OCMetadataManager) : Prop :=
  ∀ k entry, m.metaTable.find? k = some entry →
    entry.Located entry.pb.primaryAddress ∧ ¬entry.Located []

/-- What is to hold once workers are removed: none of them is a location or a primary, and an
object that has a location has one of them as primary. -/
structure Removed (m : OCMetadataManager) (workers : List Bytes) : Prop where
  gone : ∀ k entry, m.metaTable.find? k = some entry → ∀ w ∈ workers, ¬entry.Involves w
  primary : ∀ k entry, m.metaTable.find? k = some entry → (∃ w, entry.Located w) →
    entry.Located entry.pb.primaryAddress

/-- Where an object keeps a location, the primaries that it loses are reported unhealthy, given the
workers that are taken from each object one after the other. -/
def ReportedUnhealthy (m : OCMetadataManager) (answers : RemovalAnswers) (workers : List Bytes)
    (taken : Bytes → ObjectMeta → List Bytes) : Prop :=
  ∀ k entry, m.metaTable.find? k = some entry → (∃ w, entry.Located w ∧ w ∉ workers) →
    ∀ v ∈ ObjectMeta.primariesLost (answers.reselectOrder k) entry.pb.primaryAddress entry.locations
      (taken k entry), answers.healthy k v = false

/-- A loop that takes from each object the workers among those removed that it involves. -/
theorem removed_iff_of_find? {m' : OCMetadataManager} {taken : Bytes → ObjectMeta → List Bytes}
    (hfind : ∀ k, m'.metaTable.find? k = (m.metaTable.find? k).bind fun entry =>
      entry.removeWorkers k answers (taken k entry))
    (htaken : ∀ k entry w, w ∈ taken k entry ↔ w ∈ workers ∧ entry.Involves w)
    (hnonempty : [] ∉ workers) (hprimary : m.PrimaryLocated) :
    m'.Removed workers ↔ m.ReportedUnhealthy answers workers taken := by
  have hgone : ∀ k entry, m'.metaTable.find? k = some entry → ∀ w ∈ workers, ¬entry.Involves w := by
    intro k entry' hentries' w hw
    rw [hfind] at hentries'
    obtain ⟨entry, -, hremove⟩ := Option.bind_eq_some_iff.mp hentries'
    refine ObjectMeta.not_involves_removeWorkers hremove (fun hnil => hnonempty (hnil ▸ hw)) ?_
    by_cases hinv : entry.Involves w
    · exact .inl ((htaken k entry w).mpr ⟨hw, hinv⟩)
    · exact .inr hinv
  -- what becomes of an object that keeps a location
  have hkept : ∀ {k entry w}, m.metaTable.find? k = some entry → entry.Located w → w ∉ workers →
      ∃ entry', m'.metaTable.find? k = some entry' ∧ entry'.Located w ∧
        (entry'.Located entry'.pb.primaryAddress ↔
          ∀ v ∈ ObjectMeta.primariesLost (answers.reselectOrder k) entry.pb.primaryAddress
            entry.locations (taken k entry), answers.healthy k v = false) := by
    intro k entry w hentry hloc hw
    have hnot : ∀ u, u ∉ workers → u ∉ taken k entry := fun u hu hmem =>
      hu ((htaken k entry u).mp hmem).1
    obtain ⟨hprimaries, haddress⟩ := hprimary k entry hentry
    obtain ⟨entry', hremove, hiff⟩ := ObjectMeta.located_primary_removeWorkers_iff k answers
      hloc (hnot w hw) (hnot [] hnonempty) haddress hprimaries
    refine ⟨entry', by rw [hfind, hentry, Option.bind_some, hremove], ?_, hiff⟩
    exact (ObjectMeta.located_removeWorkers hremove).mpr ⟨hnot w hw, hloc⟩
  constructor
  · intro h k entry hentry hloc
    obtain ⟨w, hloc, hw⟩ := hloc
    obtain ⟨entry', hentries', hloc', hiff⟩ := hkept hentry hloc hw
    exact hiff.mp (h.primary k entry' hentries' ⟨w, hloc'⟩)
  · intro h
    refine ⟨hgone, fun k entry' hentries' hloc => ?_⟩
    obtain ⟨w, hw⟩ := hloc
    have hnot : w ∉ workers := fun hmem => hgone k entry' hentries' w hmem (.inl hw)
    have hbefore := hentries'
    rw [hfind] at hbefore
    obtain ⟨entry, hentry, hremove⟩ := Option.bind_eq_some_iff.mp hbefore
    have hloc := ((ObjectMeta.located_removeWorkers hremove).mp hw).2
    obtain ⟨last, hlast, -, hiff⟩ := hkept hentry hloc hnot
    rw [hentries'] at hlast
    cases hlast
    exact hiff.mpr (h k entry hentry ⟨w, hloc, hnot⟩)

theorem mem_affectedAddresses {order} {entry} : w ∈ affectedAddresses workers order entry ↔
    w ∈ workers ∧ entry.Involves w := by
  have hloc : ∀ v, v ∈ ((order.visit entry.locations).map Prod.fst).filter (· ∈ workers) ↔
      v ∈ workers ∧ entry.Located v := by
    intro v
    rw [mem_filter, ← ObjectMeta.located_iff_mem_visit, decide_eq_true_iff, and_comm]
  unfold affectedAddresses ObjectMeta.Involves
  dsimp only
  split
  · rename_i hprimary
    rw [mem_append, mem_singleton, hloc]
    grind
  · rename_i hprimary
    rw [hloc] at hprimary ⊢
    grind

/-- Objects keep a primary among their copies just if the primaries that they lose beside another
copy are reported unhealthy; for one worker, if it is reported so to each object whose primary it is
and that has another copy. -/
theorem primary_is_remaining_copy (answers : RemovalAnswers) (workers : List Bytes)
    (hnonempty : [] ∉ workers) (hprimary : m.PrimaryLocated) :
    ((m.removeMetaByWorkers answers workers).Removed workers ↔
      m.ReportedUnhealthy answers workers fun k =>
        affectedAddresses workers (answers.affectedOrder k)) ∧
    ∀ w, workers = [w] → ((m.removeMetaByWorker answers w).Removed workers ↔
      ∀ k entry, m.metaTable.find? k = some entry → entry.pb.primaryAddress = w →
        (∃ v, entry.Located v ∧ v ≠ w) → answers.healthy k w = false) := by
  constructor
  · exact removed_iff_of_find? (fun k => find?_removeMetaByWorkers)
      (fun k entry w => mem_affectedAddresses) hnonempty hprimary
  · intro w hworker
    subst hworker
    refine (removed_iff_of_find? (fun k => find?_removeMetaByWorker) ?_ hnonempty hprimary).trans ?_
    · intro k entry v
      rw [ObjectMeta.Involves, ObjectMeta.located_iff]
      grind
    · refine forall₃_congr fun k entry hentry => ?_
      by_cases heq : entry.pb.primaryAddress = w
      · simp [heq, ObjectMeta.primariesLost]
      · have hlost : ObjectMeta.primariesLost (answers.reselectOrder k) entry.pb.primaryAddress
            entry.locations (if (entry.locations.find? w).isSome || entry.pb.primaryAddress = w
              then [w] else []) = [] := by
          split <;> simp [Ne.symm heq, ObjectMeta.primariesLost]
        refine iff_of_true (fun _ v hv => ?_) fun hsame => absurd hsame heq
        rw [hlost] at hv
        cases hv

/-- One object with a primary copy on worker 1 and another copy on worker 2. -/
def twoCopies : OCMetadataManager :=
  (start fun _ => 0).putMeta [9]
    { pb := { primaryAddress := [1] }
      locations := (OrderedMap.empty.insert [1] .ack).insert [2] .ack }

theorem primaryLocated_twoCopies : twoCopies.PrimaryLocated := by
  intro k entry hentry
  rw [twoCopies, putMeta, find?_insert] at hentry
  split at hentry
  · cases hentry
    constructor
    · show _ ∈ _
      decide
    · show _ ∉ _
      decide
  · cases hentry

/-- The primary is reported unhealthy and the other copy takes its place. The other copy goes
without any question for health. -/
theorem primary_is_remaining_copy_of_two :
    ((twoCopies.removeMetaByWorkers { healthy := fun _ _ => false } [[1]]).Removed [[1]] ∧
      ((twoCopies.removeMetaByWorkers { healthy := fun _ _ => false } [[1]]).metaTable.find?
        [9]).map
        (·.pb.primaryAddress) = some [2]) ∧
    (twoCopies.removeMetaByWorker { healthy := fun _ _ => true } [2]).Removed [[2]] := by
  refine ⟨⟨?_, by decide⟩, ?_⟩
  · refine (primary_is_remaining_copy _ [[1]] (by decide) primaryLocated_twoCopies).1.mpr ?_
    intro k entry _ _ v _
    rfl
  · refine ((primary_is_remaining_copy _ [[2]] (by decide) primaryLocated_twoCopies).2 [2] rfl).mpr
      ?_
    intro k entry hentry hprimary
    rw [twoCopies, putMeta, find?_insert] at hentry
    split at hentry
    · cases hentry
      cases hprimary
    · cases hentry

/-- A worker that is removed while it is still reported healthy leaves its objects without a
primary. -/
theorem primary_cleared_beside_copy : twoCopies.PrimaryLocated ∧ ∃ entry,
      (twoCopies.removeMetaByWorker { healthy := fun _ _ => true } [1]).metaTable.find? [9] =
          some entry ∧
        entry.Located [2] ∧ entry.pb.primaryAddress = [] ∧
        ¬entry.Located entry.pb.primaryAddress := by
  refine ⟨primaryLocated_twoCopies, _, rfl, ?_, rfl, ?_⟩
  · show _ ∈ _
    decide
  · show _ ∉ _
    decide

end OCMetadataManager

end Datasystem.Master
