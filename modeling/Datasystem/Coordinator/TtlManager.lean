import Datasystem.Coordinator.MemoryKvStore

/-! The expiry map of the coordinator: at most one record for a key, ordered by the time
at which it is due. A schedule may come late, after a newer one of the same key; it is
then told apart by its revision and TTL generation. -/

namespace Datasystem.Coordinator

open Common Lib

/-- The incarnation of a key and its TTL generation: what a schedule is made for. -/
structure Stamp where
  key : Bytes
  revision : Nat
  ttlGeneration : Nat
deriving DecidableEq

/-- A successful put or renewal of a key: its number among all of them, and its time. -/
structure Touch where
  number : Nat
  time : Nat
deriving DecidableEq

/-- A record of the expiry map. The serial number stands for the iterator that the index keeps,
the touch for the put or renewal that the record was made for. -/
structure TtlScheduleRecord where
  key : Bytes
  revision : Nat
  ttlGeneration : Nat
  expireTime : Int
  serial : Nat
  touch : Touch
deriving DecidableEq

/-- A call of `Schedule` that has not taken the lock yet. -/
structure ScheduleCall where
  key : Bytes
  ttlMs : Int
  revision : Nat
  ttlGeneration : Nat
  touch : Touch
deriving DecidableEq

def TtlScheduleRecord.stamp (r : TtlScheduleRecord) : Stamp := ⟨r.key, r.revision, r.ttlGeneration⟩

def ScheduleCall.stamp (c : ScheduleCall) : Stamp := ⟨c.key, c.revision, c.ttlGeneration⟩

def ValueEntry.stamp (e : ValueEntry) (key : Bytes) : Stamp := ⟨key, e.modRevision, e.ttlGeneration⟩

@[simp] theorem ValueEntry.stamp_key (e : ValueEntry) (key : Bytes) : (e.stamp key).key = key := rfl

@[simp] theorem ScheduleCall.stamp_key (c : ScheduleCall) : c.stamp.key = c.key := rfl

@[simp] theorem TtlScheduleRecord.stamp_key (r : TtlScheduleRecord) : r.stamp.key = r.key := rfl

/-- An earlier revision of the key, or an earlier generation at the same revision. -/
def Stamp.Older (a b : Stamp) : Prop :=
  a.revision < b.revision ∨ (a.revision = b.revision ∧ a.ttlGeneration < b.ttlGeneration)

theorem Stamp.Older.ne {a b : Stamp} (h : a.Older b) : a ≠ b := by
  intro he
  subst he
  rcases h with h | h
  · exact lt_irrefl _ h
  · exact lt_irrefl _ h.2

theorem Stamp.Older.trans {a b c : Stamp} (h : a.Older b) (h' : b.Older c) : a.Older c := by
  unfold Stamp.Older at *
  omega

structure TtlManager where
  expiryMap : List TtlScheduleRecord := []
  expiryIndex : OrderedMap Bytes Nat := .empty
  nextSerial : Nat := 0

namespace TtlManager

def maxExpiredKeysPerCheck : Nat := 1024

/-- Ticks of the steady clock in a millisecond. -/
def ticksPerMs : Nat := 1000000

/-- The time in `ttlMs` from now. The steady clock counts ticks in a signed 64-bit integer, and so
does the sum. -/
def expireTime (now : Nat) (ttlMs : Int) : Int := (now + ttlMs * ticksPerMs).bmod (2 ^ 64)

/-- `emplace` of a multimap: behind all records of the same time. -/
def emplace (record : TtlScheduleRecord) : List TtlScheduleRecord → List TtlScheduleRecord
  | [] => [record]
  | first :: rest =>
    if record.expireTime < first.expireTime then record :: first :: rest
    else first :: emplace record rest

/-- The record that the index has for a key. -/
def existing (m : TtlManager) (key : Bytes) : Option TtlScheduleRecord :=
  (m.expiryIndex.find? key).bind fun serial => m.expiryMap.find? fun r => r.serial = serial

/-- A schedule that is older than the record of its key. -/
def isStale (call : ScheduleCall) (record : TtlScheduleRecord) : Bool :=
  call.revision < record.revision ||
    (call.revision = record.revision && call.ttlGeneration < record.ttlGeneration)

/-- `Schedule` at a time of the clock: the newer record of a key replaces the older one. -/
def schedule (m : TtlManager) (now : Nat) (call : ScheduleCall) : TtlManager :=
  if call.ttlMs ≤ 0 then m
  else if (m.existing call.key).any (isStale call) then m
  else
    let record : TtlScheduleRecord :=
      ⟨call.key, call.revision, call.ttlGeneration, expireTime now call.ttlMs,
        m.nextSerial, call.touch⟩
    let kept := match m.expiryIndex.find? call.key with
      | some serial => m.expiryMap.filter fun r => r.serial ≠ serial
      | none => m.expiryMap
    { expiryMap := emplace record kept
      expiryIndex := m.expiryIndex.insert call.key m.nextSerial
      nextSerial := m.nextSerial + 1 }

/-- Take the first record off the map, and off the index if the index points to it. -/
def pop (m : TtlManager) (record : TtlScheduleRecord) (rest : List TtlScheduleRecord) :
    TtlManager :=
  { m with
    expiryMap := rest
    expiryIndex := if m.expiryIndex.find? record.key = some record.serial
      then m.expiryIndex.erase record.key else m.expiryIndex }

/-- The loop of `CheckExpiration` under the lock: records that are due, at most `fuel` of them. -/
def popExpired (now : Nat) : (fuel : Nat) → TtlManager → List TtlScheduleRecord × TtlManager
  | 0, m => ([], m)
  | fuel + 1, m =>
    match m.expiryMap with
    | [] => ([], m)
    | record :: rest =>
      if record.expireTime ≤ now then
        let (expired, m') := popExpired now fuel (m.pop record rest)
        (record :: expired, m')
      else ([], m)

/-! ## The index -/

/-- Every record of the map is the one the index has for its key. -/
structure Indexed (m : TtlManager) : Prop where
  serials : (m.expiryMap.map TtlScheduleRecord.serial).Nodup
  bound : ∀ r ∈ m.expiryMap, r.serial < m.nextSerial
  indexed : ∀ r ∈ m.expiryMap, m.expiryIndex.find? r.key = some r.serial
  record : ∀ key serial, m.expiryIndex.find? key = some serial →
    ∃ r ∈ m.expiryMap, r.key = key ∧ r.serial = serial

variable (record : TtlScheduleRecord)

theorem emplace_perm (l) : (emplace record l).Perm (record :: l) := by
  induction l with
  | nil => exact .refl _
  | cons first rest ih =>
    unfold emplace
    split
    · exact .refl _
    · exact (ih.cons first).trans (.swap record first rest)

section

variable {m : TtlManager}

theorem Indexed.unique (h : Indexed m) {r r'} (hr : r ∈ m.expiryMap)
    (hr' : r' ∈ m.expiryMap) (hs : r.serial = r'.serial) : r = r' :=
  List.inj_on_of_nodup_map h.serials hr hr' hs

theorem isStale_iff {call} {r} : isStale call r = true ↔ call.stamp.Older r.stamp := by
  simp [isStale, Stamp.Older, ScheduleCall.stamp, TtlScheduleRecord.stamp]

theorem Indexed.existing_eq_some (h : Indexed m) {key} {r} :
    m.existing key = some r ↔ r ∈ m.expiryMap ∧ r.key = key := by
  unfold existing
  rw [Option.bind_eq_some_iff]
  constructor
  · intro hr
    obtain ⟨serial, hindex, hfind⟩ := hr
    have hserial : r.serial = serial := by simpa using List.find?_some hfind
    have hmem := List.mem_of_find?_eq_some hfind
    obtain ⟨_, hr', hkey, hs⟩ := h.record key serial hindex
    rw [h.unique hmem hr' (hserial.trans hs.symm)]
    exact ⟨hr', hkey⟩
  · intro hr
    refine ⟨r.serial, hr.2 ▸ h.indexed r hr.1, ?_⟩
    cases hfind : m.expiryMap.find? fun x => decide (x.serial = r.serial) with
    | none => exact absurd (List.find?_eq_none.mp hfind r hr.1) (by simp)
    | some x =>
      have hx : x.serial = r.serial := by simpa using List.find?_some hfind
      rw [h.unique (List.mem_of_find?_eq_some hfind) hr.1 hx]

/-- The records that a schedule of `key` keeps. -/
def others (m : TtlManager) (key : Bytes) : List TtlScheduleRecord :=
  m.expiryMap.filter fun r => r.key ≠ key

/-- The record that a schedule makes. -/
def recordOf (m : TtlManager) (now : Nat) (call : ScheduleCall) : TtlScheduleRecord :=
  ⟨call.key, call.revision, call.ttlGeneration, expireTime now call.ttlMs, m.nextSerial,
    call.touch⟩

theorem Indexed.kept_eq (h : Indexed m) (key) : (match m.expiryIndex.find? key with
      | some serial => m.expiryMap.filter fun r => r.serial ≠ serial
      | none => m.expiryMap) = m.others key := by
  cases hindex : m.expiryIndex.find? key with
  | none =>
    refine (List.filter_eq_self.mpr fun r hr => ?_).symm
    simp only [ne_eq, decide_not, Bool.not_eq_true', decide_eq_false_iff_not]
    intro hk
    have := h.indexed r hr
    rw [hk, hindex] at this
    cases this
  | some serial =>
    refine List.filter_congr fun r hr => ?_
    obtain ⟨r', hr', hkey, hs⟩ := h.record key serial hindex
    rw [decide_eq_decide, not_iff_not]
    constructor
    · intro he
      rw [h.unique hr hr' (he.trans hs.symm)]
      exact hkey
    · intro he
      have := h.indexed r hr
      rw [he, hindex] at this
      exact (Option.some.inj this).symm

/-- What a schedule does: nothing without a TTL or against a newer record of the key, and
otherwise the new record takes the place of the older ones. -/
theorem Indexed.schedule_cases (h : Indexed m) (now : Nat) (call) :
    (call.ttlMs ≤ 0 ∧ m.schedule now call = m) ∨
      (∃ r ∈ m.expiryMap, r.key = call.key ∧ call.stamp.Older r.stamp ∧ m.schedule now call = m) ∨
      (0 < call.ttlMs ∧ (∀ r ∈ m.expiryMap, r.key = call.key → ¬ call.stamp.Older r.stamp) ∧
        m.schedule now call = ⟨emplace (m.recordOf now call) (m.others call.key),
          m.expiryIndex.insert call.key m.nextSerial, m.nextSerial + 1⟩) := by
  unfold schedule
  split
  · rename_i hle
    exact .inl ⟨hle, rfl⟩
  · rename_i hpos
    split
    · rename_i hstale
      obtain ⟨r, hr, hs⟩ := Option.any_eq_true _ _ |>.mp hstale
      obtain ⟨hmem, hkey⟩ := h.existing_eq_some.mp hr
      exact .inr (.inl ⟨r, hmem, hkey, isStale_iff.mp hs, rfl⟩)
    · rename_i hfresh
      refine .inr (.inr ⟨lt_of_not_ge hpos, fun r hr hkey hold => hfresh ?_, ?_⟩)
      · rw [h.existing_eq_some.mpr ⟨hr, hkey⟩]
        exact isStale_iff.mpr hold
      · rw [h.kept_eq]
        rfl

theorem mem_others {key} {r} : r ∈ m.others key ↔ r ∈ m.expiryMap ∧ r.key ≠ key := by
  simp [others]

theorem others_perm (m : TtlManager) (key : Bytes) :
    m.expiryMap.Perm (m.expiryMap.filter (fun r => r.key = key) ++ m.others key) := by
  have h := List.filter_append_perm (fun r => decide (r.key = key)) m.expiryMap
  simp only [← decide_not] at h
  exact h.symm

theorem Indexed.schedule (h : Indexed m) (now : Nat) (call) : Indexed (m.schedule now call) := by
  rcases h.schedule_cases now call with ⟨-, he⟩ | ⟨_, -, -, -, he⟩ | ⟨-, -, he⟩
  · rw [he]
    exact h
  · rw [he]
    exact h
  · rw [he]
    have hperm := emplace_perm (m.recordOf now call) (m.others call.key)
    constructor
    · refine (hperm.map _).nodup_iff.mpr (List.nodup_cons.mpr ⟨fun hmem => ?_, ?_⟩)
      · obtain ⟨r, hr, hs⟩ := List.mem_map.mp hmem
        exact Nat.ne_of_lt (h.bound r (mem_others.mp hr).1) hs
      · exact h.serials.sublist (List.filter_sublist.map _)
    · intro r hr
      rcases List.mem_cons.mp (hperm.mem_iff.mp hr) with rfl | hr
      · exact Nat.lt_succ_self _
      · exact Nat.lt_succ_of_lt (h.bound r (mem_others.mp hr).1)
    · intro r hr
      rw [OrderedMap.find?_insert]
      rcases List.mem_cons.mp (hperm.mem_iff.mp hr) with rfl | hr
      · exact if_pos rfl
      · rw [if_neg (mem_others.mp hr).2]
        exact h.indexed r (mem_others.mp hr).1
    · intro key serial hindex
      rw [OrderedMap.find?_insert] at hindex
      split at hindex
      · rename_i hkey
        cases hindex
        exact ⟨_, hperm.mem_iff.mpr List.mem_cons_self, hkey.symm, rfl⟩
      · rename_i hkey
        obtain ⟨r, hr, hk, hs⟩ := h.record key serial hindex
        refine ⟨r, hperm.mem_iff.mpr (List.mem_cons_of_mem _ (mem_others.mpr ⟨hr, ?_⟩)), hk, hs⟩
        exact hk ▸ hkey

/-! ## Expiry -/

theorem Indexed.pop (h : Indexed m) {record} {rest}
    (hmap : m.expiryMap = record :: rest) : Indexed (m.pop record rest) := by
  have hsub : ∀ r ∈ rest, r ∈ m.expiryMap := fun r hr => hmap ▸ List.mem_cons_of_mem _ hr
  have hrecord : record ∈ m.expiryMap := hmap ▸ List.mem_cons_self
  have hserial : ((record :: rest).map TtlScheduleRecord.serial).Nodup := hmap ▸ h.serials
  obtain ⟨hnot, hrest⟩ := List.nodup_cons.mp hserial
  -- two records of one key would have one serial
  have hkey : ∀ r ∈ rest, r.key ≠ record.key := by
    intro r hr hk
    have hindex := h.indexed r (hsub r hr)
    rw [hk, h.indexed record hrecord] at hindex
    exact hnot (Option.some.inj hindex ▸ List.mem_map_of_mem hr)
  have hindex : (m.pop record rest).expiryIndex = m.expiryIndex.erase record.key :=
    if_pos (h.indexed record hrecord)
  constructor
  · exact hrest
  · exact fun r hr => h.bound r (hsub r hr)
  · intro r hr
    rw [hindex, OrderedMap.find?_erase, if_neg (hkey r hr)]
    exact h.indexed r (hsub r hr)
  · intro key serial hfind
    rw [hindex, OrderedMap.find?_erase] at hfind
    split at hfind
    · cases hfind
    · rename_i hne
      obtain ⟨r, hr, hk, hs⟩ := h.record key serial hfind
      rw [hmap] at hr
      rcases List.mem_cons.mp hr with rfl | hr
      · exact absurd hk.symm hne
      · exact ⟨r, hr, hk, hs⟩

/-- A round takes due records off the front of the map. -/
theorem Indexed.popExpired (h : Indexed m) (now fuel : Nat) :
    Indexed (TtlManager.popExpired now fuel m).2 ∧
      (TtlManager.popExpired now fuel m).1 ++ (TtlManager.popExpired now fuel m).2.expiryMap =
        m.expiryMap ∧
      ∀ r ∈ (TtlManager.popExpired now fuel m).1, r.expireTime ≤ now := by
  induction fuel generalizing m with
  | zero => exact ⟨h, rfl, fun _ hr => absurd hr List.not_mem_nil⟩
  | succ fuel ih =>
    unfold TtlManager.popExpired
    split
    · exact ⟨h, rfl, fun _ hr => absurd hr List.not_mem_nil⟩
    · rename_i record rest hmap
      split
      · rename_i hdue
        obtain ⟨hindexed, happ, htime⟩ := ih (h.pop hmap)
        refine ⟨hindexed, ?_, List.forall_mem_cons.mpr ⟨hdue, htime⟩⟩
        rw [hmap]
        exact congrArg (record :: ·) happ
      · exact ⟨h, rfl, fun _ hr => absurd hr List.not_mem_nil⟩

end

end TtlManager

end Datasystem.Coordinator
