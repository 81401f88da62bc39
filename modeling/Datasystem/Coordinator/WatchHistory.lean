import Datasystem.Coordinator.MemoryKvStore

/-! The store and the log of its events. A watcher that holds the key-values of its
range at some revision, and has every later event of the range, knows what the range
holds now: in whatever order the events came, and from what the events carry. -/

namespace Datasystem.Coordinator

open Common Lib Checked MemoryKvStore List OrderedMap

/-! ## Mutations -/

/-- A change of the store at one new revision, with an event for every key that changed. -/
structure Mutation (store store' : MemoryKvStore) (new : List WatchEvent) : Prop where
  revision : store'.revision = store.revision + 1
  event : ∀ x ∈ new, x.revision = store'.revision ∧
    ((x.type = .put ∧ ∃ e, store'.data.find? x.entry.key = some e ∧
        e.toKeyValue x.entry.key = x.entry ∧ e.modRevision = store'.revision) ∨
      (x.type = .delete ∧ store'.data.find? x.entry.key = none ∧
        ∃ e, store.data.find? x.entry.key = some e ∧ e.toKeyValue x.entry.key = x.entry))
  other : ∀ k, (∀ x ∈ new, x.entry.key ≠ k) → store'.data.find? k = store.data.find? k

@[simp] theorem toKeyValue_modRevision (e : ValueEntry) (k : Bytes) :
    (e.toKeyValue k).modRevision = e.modRevision := rfl

section

variable {store store' : MemoryKvStore}

theorem put_mutation {req} {r} (h : store.put req = .ok (r, store')) :
    Mutation store store' [r.event] := by
  obtain ⟨-, rfl, rfl⟩ := put_eq_ok.mp h
  have hmodified :
      ∀ old, (stored req (store.revision + 1) old).modRevision = store.revision + 1 := by
    intro old
    cases old <;> rfl
  refine ⟨rfl, fun x hx => ?_, fun k hk => ?_⟩
  · obtain rfl := mem_singleton.mp hx
    refine ⟨rfl, .inl ⟨rfl, _, ?_, rfl, hmodified _⟩⟩
    rw [find?_insert]
    exact if_pos rfl
  · rw [find?_insert, if_neg]
    exact (hk _ mem_cons_self).symm

theorem delete_mutation {req} {r} (h : store.delete req = .ok (r, store')) :
    (store' = store ∧ r.events = []) ∨ Mutation store store' r.events := by
  rcases delete_eq_ok h with ⟨rfl, hnone, -⟩ | ⟨rfl, hevents, -⟩
  · exact .inl ⟨rfl, hnone⟩
  · refine .inr ⟨rfl, fun x hx => ?_, fun k hk => ?_⟩
    · rw [hevents] at hx
      obtain ⟨_, hkv, rfl⟩ := mem_map.mp hx
      obtain ⟨_, e, hfind, hin, rfl⟩ := mem_range.mp hkv
      refine ⟨rfl, .inr ⟨rfl, ?_, e, hfind, rfl⟩⟩
      dsimp only [ValueEntry.toKeyValue]
      rw [find?_filterKeys, hin]
      rfl
    · rw [find?_filterKeys]
      split
      · rfl
      · rename_i hin
        -- a key of the range without an event was not there
        symm
        rw [Option.eq_none_iff_forall_ne_some]
        intro e he
        refine hk ⟨.delete, e.toKeyValue k, store.revision + 1⟩ ?_ rfl
        rw [hevents]
        exact mem_map_of_mem (mem_range.mpr ⟨k, e, he, by simpa using hin, rfl⟩)

theorem deleteIfTtlExpired_mutation {key} {revision generation : Nat} {event}
    (h : store.deleteIfTtlExpired key revision generation = some (event, store')) :
    Mutation store store' [event] := by
  obtain ⟨e, he, -, -, -, rfl, rfl⟩ := deleteIfTtlExpired_eq_some.mp h
  refine ⟨rfl, fun x hx => ?_, fun k hk => ?_⟩
  · obtain rfl := mem_singleton.mp hx
    refine ⟨rfl, .inr ⟨rfl, ?_, e, he, rfl⟩⟩
    dsimp only [ValueEntry.toKeyValue]
    rw [find?_erase, if_pos rfl]
  · rw [find?_erase, if_neg]
    exact (hk _ mem_cons_self).symm

end

/-! ## The log -/

/-- What the log says about the store: the latest event of a key is the put of its entry, or a
delete if there is none. -/
structure Recorded (store : MemoryKvStore) (log : List WatchEvent) : Prop where
  revision : ∀ x ∈ log, x.revision ≤ store.revision
  put : ∀ x ∈ log, x.type = .put → x.entry.modRevision = x.revision
  delete : ∀ x ∈ log, x.type = .delete →
    ∃ p ∈ log, p.type = .put ∧ p.entry = x.entry ∧ p.revision < x.revision
  mutation : ∀ x ∈ log, x.type = .put ∨ x.type = .delete
  stored : ∀ k e, store.data.find? k = some e → ∃ p ∈ log, p.type = .put ∧ p.entry = e.toKeyValue k
  latest : ∀ k e, store.data.find? k = some e → ∀ x ∈ log, x.entry.key = k →
    x.entry.modRevision < e.modRevision ∨ (x.type = .put ∧ x.entry = e.toKeyValue k)
  gone : ∀ k, store.data.find? k = none → ∀ x ∈ log, x.entry.key = k →
    ∃ d ∈ log, d.type = .delete ∧ d.entry.key = k ∧ x.entry.modRevision ≤ d.entry.modRevision

section

variable {store store' : MemoryKvStore} {log new : List WatchEvent}

theorem Recorded.modRevision_le (h : Recorded store log) {k} {e}
    (he : store.data.find? k = some e) : e.modRevision ≤ store.revision := by
  obtain ⟨p, hp, htype, hentry⟩ := h.stored k e he
  have hmodified := h.put p hp htype
  rw [hentry, toKeyValue_modRevision] at hmodified
  exact hmodified ▸ h.revision p hp

theorem Recorded.entry_le (h : Recorded store log) {x} (hx : x ∈ log) :
    x.entry.modRevision ≤ x.revision := by
  rcases h.mutation x hx with hput | hdel
  · exact (h.put x hx hput).le
  · obtain ⟨p, hp, htype, hentry, hlt⟩ := h.delete x hx hdel
    rw [← hentry, h.put p hp htype]
    exact hlt.le

theorem recorded_init : Recorded {} [] where
  revision _ h := absurd h not_mem_nil
  put _ h := absurd h not_mem_nil
  delete _ h := absurd h not_mem_nil
  mutation _ h := absurd h not_mem_nil
  stored _ _ h := nomatch h
  latest _ _ h := nomatch h
  gone _ _ _ h := absurd h not_mem_nil

/-- The entry of a key after a mutation: the new one of its put event, or the old one. -/
theorem Mutation.find_some (hm : Mutation store store' new) {k} {e}
    (he : store'.data.find? k = some e) :
    (∃ x ∈ new, x.type = .put ∧ x.entry = e.toKeyValue k ∧ e.modRevision = store'.revision) ∨
      ((∀ x ∈ new, x.entry.key ≠ k) ∧ store.data.find? k = some e) := by
  by_cases hk : ∃ x ∈ new, x.entry.key = k
  · obtain ⟨x, hx, rfl⟩ := hk
    rcases (hm.event x hx).2 with ⟨htype, e', he', hentry, hmodified⟩ | ⟨-, hnone, -⟩
    · rw [he] at he'
      cases he'
      exact .inl ⟨x, hx, htype, hentry.symm, hmodified⟩
    · rw [he] at hnone
      cases hnone
  · push Not at hk
    exact .inr ⟨hk, by rw [← hm.other k hk]; exact he⟩

theorem Recorded.mutate (h : Recorded store log) (hm : Mutation store store' new) :
    Recorded store' (log ++ new) where
  revision x hx := by
    rcases mem_append.mp hx with hx | hx
    · rw [hm.revision]
      exact Nat.le_succ_of_le (h.revision x hx)
    · exact (hm.event x hx).1.le
  put x hx htype := by
    rcases mem_append.mp hx with hx | hx
    · exact h.put x hx htype
    · obtain ⟨hrev, ⟨-, e, -, hentry, hmodified⟩ | ⟨hdel, -⟩⟩ := hm.event x hx
      · rw [← hentry, toKeyValue_modRevision, hmodified, hrev]
      · rw [htype] at hdel
        cases hdel
  delete x hx htype := by
    rcases mem_append.mp hx with hx | hx
    · obtain ⟨p, hp, hrest⟩ := h.delete x hx htype
      exact ⟨p, mem_append_left _ hp, hrest⟩
    · obtain ⟨hrev, ⟨hput, -⟩ | ⟨-, -, e, he, hentry⟩⟩ := hm.event x hx
      · rw [htype] at hput
        cases hput
      · obtain ⟨p, hp, hptype, hpentry⟩ := h.stored _ e he
        refine ⟨p, mem_append_left _ hp, hptype, hpentry.trans hentry, ?_⟩
        rw [hrev, hm.revision]
        exact Nat.lt_succ_of_le (h.revision p hp)
  mutation x hx := by
    rcases mem_append.mp hx with hx | hx
    · exact h.mutation x hx
    · exact (hm.event x hx).2.imp And.left And.left
  stored k e he := by
    rcases hm.find_some he with ⟨x, hx, htype, hentry, -⟩ | ⟨-, he⟩
    · exact ⟨x, mem_append_right _ hx, htype, hentry⟩
    · obtain ⟨p, hp, hrest⟩ := h.stored k e he
      exact ⟨p, mem_append_left _ hp, hrest⟩
  latest k e he x hx hkey := by
    rcases hm.find_some he with ⟨y, hy, htype, hentry, hmodified⟩ | ⟨hnone, he⟩
    · rcases mem_append.mp hx with hx | hx
      · refine .inl ?_
        rw [hmodified, hm.revision]
        exact Nat.lt_succ_of_le (le_trans (h.entry_le hx) (h.revision x hx))
      · -- the new events of a key say the same
        rcases (hm.event x hx).2 with ⟨hxtype, e', he', hxentry, -⟩ | ⟨-, hgone, -⟩
        · rw [hkey, he] at he'
          cases he'
          exact .inr ⟨hxtype, by rw [← hxentry, hkey]⟩
        · rw [hkey, he] at hgone
          cases hgone
    · rcases mem_append.mp hx with hx | hx
      · exact h.latest k e he x hx hkey
      · exact absurd hkey (hnone x hx)
  gone k hgone x hx hkey := by
    by_cases hk : ∃ d ∈ new, d.entry.key = k
    · obtain ⟨d, hd, rfl⟩ := hk
      rcases (hm.event d hd).2 with ⟨-, e, he, -⟩ | ⟨hdtype, -, e, he, hentry⟩
      · rw [hgone] at he
        cases he
      · refine ⟨d, mem_append_right _ hd, hdtype, rfl, ?_⟩
        rw [← hentry, toKeyValue_modRevision]
        rcases mem_append.mp hx with hx | hx
        · rcases h.latest _ e he x hx hkey with hlt | ⟨-, hxentry⟩
          · exact hlt.le
          · exact (congrArg KeyValueEntry.modRevision hxentry).le
        · rcases (hm.event x hx).2 with ⟨-, e', he', -⟩ | ⟨-, -, e', he', hxentry⟩
          · rw [hkey, hgone] at he'
            cases he'
          · rw [hkey, he] at he'
            cases he'
            exact (congrArg KeyValueEntry.modRevision hxentry).ge
    · push Not at hk
      rw [hm.other k hk] at hgone
      rcases mem_append.mp hx with hx | hx
      · obtain ⟨d, hd, hrest⟩ := h.gone k hgone x hx hkey
        exact ⟨d, mem_append_left _ hd, hrest⟩
      · exact absurd hkey (hk x hx)

end

/-! ## Snapshots -/

/-- The key-values of a range as they were at a revision, seen from a later store: an entry that
has not changed since is among them, and one of them that is gone has an event to show for it. -/
structure Snapshot (store : MemoryKvStore) (log : List WatchEvent) (key rangeEnd : Bytes)
    (revision : Nat) (kvs : List KeyValueEntry) : Prop where
  bound : revision ≤ store.revision
  kept : ∀ k e, inRange key rangeEnd k → store.data.find? k = some e → e.modRevision ≤ revision →
    e.toKeyValue k ∈ kvs
  old : ∀ kv ∈ kvs, kv.modRevision ≤ revision
  source : ∀ kv ∈ kvs, (∃ e, store.data.find? kv.key = some e ∧ e.toKeyValue kv.key = kv) ∨
    ∃ x ∈ log, x.entry.key = kv.key ∧ revision < x.revision ∧
      (x.type = .put ∨ (x.type = .delete ∧ x.entry = kv))

section

variable {store store' : MemoryKvStore} {log new : List WatchEvent} {key rangeEnd : Bytes}
  {revision : Nat} {kvs : List KeyValueEntry}

theorem snapshot_range (h : Recorded store log) (key rangeEnd) :
    Snapshot store log key rangeEnd store.revision (store.range key rangeEnd).1 where
  bound := le_refl _
  kept k e hin he _ := mem_range.mpr ⟨k, e, he, hin, rfl⟩
  old kv hkv := by
    obtain ⟨_, _, he, -, rfl⟩ := mem_range.mp hkv
    exact h.modRevision_le he
  source kv hkv := by
    obtain ⟨_, e, he, -, rfl⟩ := mem_range.mp hkv
    exact .inl ⟨e, he, rfl⟩

theorem Snapshot.mutate (h : Snapshot store log key rangeEnd revision kvs)
    (hm : Mutation store store' new) :
    Snapshot store' (log ++ new) key rangeEnd revision kvs where
  bound := by
    rw [hm.revision]
    exact Nat.le_succ_of_le h.bound
  kept k e hin he hold := by
    rcases hm.find_some he with ⟨-, -, -, -, hmodified⟩ | ⟨-, he⟩
    · have := h.bound
      have := hm.revision
      omega
    · exact h.kept k e hin he hold
  old := h.old
  source kv hkv := by
    rcases h.source kv hkv with ⟨e, he, hentry⟩ | ⟨x, hx, hrest⟩
    · by_cases hk : ∃ x ∈ new, x.entry.key = kv.key
      · obtain ⟨x, hx, hkey⟩ := hk
        obtain ⟨hrev, hcase⟩ := hm.event x hx
        have hlater : revision < x.revision := by
          have := h.bound
          have := hm.revision
          omega
        refine .inr ⟨x, mem_append_right _ hx, hkey, hlater, ?_⟩
        rcases hcase with ⟨htype, -⟩ | ⟨htype, -, e', he', hentries'⟩
        · exact .inl htype
        · rw [hkey, he] at he'
          cases he'
          rw [hkey] at hentries'
          exact .inr ⟨htype, hentries'.symm.trans hentry⟩
      · push Not at hk
        exact .inl ⟨e, by rw [hm.other _ hk]; exact he, hentry⟩
    · exact .inr ⟨x, mem_append_left _ hx, hrest⟩

/-! ## Reconstruction -/

/-- Entries that a watcher has seen for a key: those of its snapshot, and puts that came later. -/
def seenEntries (revision : Nat) (kvs : List KeyValueEntry) (delivered : List WatchEvent)
    (k : Bytes) : List KeyValueEntry :=
  kvs.filter (fun kv => kv.key = k) ++
    (delivered.filter fun x =>
      x.type = .put ∧ x.entry.key = k ∧ revision < x.entry.modRevision).map WatchEvent.entry

/-- What a watcher takes a key to be: the newest entry it has seen, unless it has seen that very
entry deleted. The order of the events does not matter. -/
def reconstruct (revision : Nat) (kvs : List KeyValueEntry) (delivered : List WatchEvent)
    (k : Bytes) : Option KeyValueEntry :=
  ((seenEntries revision kvs delivered k).argmax KeyValueEntry.modRevision).filter fun kv =>
    !delivered.any fun x =>
      x.type = .delete ∧ x.entry.key = k ∧ x.entry.modRevision = kv.modRevision

theorem mem_seenEntries {delivered} {k} {kv} :
    kv ∈ seenEntries revision kvs delivered k ↔ (kv ∈ kvs ∧ kv.key = k) ∨
      ∃ x ∈ delivered, x.type = .put ∧ x.entry = kv ∧ kv.key = k ∧ revision < kv.modRevision := by
  simp only [seenEntries, mem_append, mem_filter, mem_map, decide_eq_true_eq]
  constructor
  · intro h
    rcases h with h | ⟨x, ⟨hx, htype, hkey, hlt⟩, rfl⟩
    · exact .inl h
    · exact .inr ⟨x, hx, htype, rfl, hkey, hlt⟩
  · intro h
    rcases h with h | ⟨x, hx, htype, rfl, hkey, hlt⟩
    · exact .inl h
    · exact .inr ⟨x, ⟨hx, htype, hkey, hlt⟩, rfl⟩

section

variable {delivered : List WatchEvent}

section

variable (hs : Snapshot store log key rangeEnd revision kvs) (h : Recorded store log)

include hs h

theorem Snapshot.seen_le (hreal : ∀ x ∈ delivered, x.type = .put → x ∈ log) {k} {e}
    (hfind : store.data.find? k = some e) {kv} (hkv : kv ∈ seenEntries revision kvs delivered k) :
    kv = e.toKeyValue k ∨ kv.modRevision < e.modRevision := by
  rcases mem_seenEntries.mp hkv with ⟨hmem, rfl⟩ | ⟨x, hx, htype, rfl, hkey, -⟩
  · rcases hs.source kv hmem with ⟨e', he', hentry⟩ | ⟨x, hx, hkey, hlt, hcase⟩
    · rw [hfind] at he'
      cases he'
      exact .inl hentry.symm
    · have hlatest := h.latest _ e hfind x hx hkey
      rcases hcase with htype | ⟨htype, hentry⟩
      · have hold := hs.old kv hmem
        have hmodified := h.put x hx htype
        rcases hlatest with hx' | ⟨-, hentry⟩
        · exact .inr (by omega)
        · rw [hentry, toKeyValue_modRevision] at hmodified
          exact .inr (by omega)
      · rcases hlatest with hx' | ⟨hput, -⟩
        · rw [hentry] at hx'
          exact .inr hx'
        · rw [htype] at hput
          cases hput
  · rcases h.latest k e hfind x (hreal x hx htype) hkey with hlt | ⟨-, hentry⟩
    · exact .inr hlt
    · exact .inl hentry

theorem Snapshot.mem_seen
    (hall : ∀ x ∈ log, inRange key rangeEnd x.entry.key → revision < x.revision → x ∈ delivered)
    {k} (hin : inRange key rangeEnd k) {e} (hfind : store.data.find? k = some e) :
    e.toKeyValue k ∈ seenEntries revision kvs delivered k := by
  by_cases hold : e.modRevision ≤ revision
  · exact mem_seenEntries.mpr (.inl ⟨hs.kept k e hin hfind hold, rfl⟩)
  · obtain ⟨p, hp, htype, hentry⟩ := h.stored k e hfind
    have hrev : p.revision = e.modRevision := by
      rw [← h.put p hp htype, hentry, toKeyValue_modRevision]
    refine mem_seenEntries.mpr (.inr ⟨p, hall p hp ?_ ?_, htype, hentry, rfl, not_le.mp hold⟩)
    · rw [hentry]
      exact hin
    · omega

/-- A newest entry of a key that is gone has been seen deleted. -/
theorem Snapshot.seen_deleted (hreal : ∀ x ∈ delivered, x.type = .put → x ∈ log)
    (hall : ∀ x ∈ log, inRange key rangeEnd x.entry.key → revision < x.revision → x ∈ delivered)
    {k} (hin : inRange key rangeEnd k) (hfind : store.data.find? k = none)
    {kv} (hkv : kv ∈ seenEntries revision kvs delivered k)
    (hmax : ∀ kv' ∈ seenEntries revision kvs delivered k, kv'.modRevision ≤ kv.modRevision) :
    ∃ d ∈ delivered, d.type = .delete ∧ d.entry.key = k ∧ d.entry.modRevision = kv.modRevision := by
  rcases mem_seenEntries.mp hkv with ⟨hmem, rfl⟩ | ⟨x, hx, htype, rfl, hkey, hlt⟩
  · rcases hs.source kv hmem with ⟨e, he, -⟩ | ⟨x, hx, hkey, hlt, hcase⟩
    · rw [hfind] at he
      cases he
    · have hx' : x ∈ delivered := hall x hx (hkey ▸ hin) hlt
      rcases hcase with htype | ⟨htype, hentry⟩
      · -- a later put would have been seen as well
        have hmodified := h.put x hx htype
        have hle :=
          hmax x.entry (mem_seenEntries.mpr (.inr ⟨x, hx', htype, rfl, hkey, hmodified ▸ hlt⟩))
        have hold := hs.old kv hmem
        omega
      · exact ⟨x, hx', htype, hkey, by rw [hentry]⟩
  · obtain ⟨d, hd, hdtype, hdkey, hle⟩ := h.gone k hfind x (hreal x hx htype) hkey
    obtain ⟨p, hp, hptype, hpentry, hprev⟩ := h.delete d hd hdtype
    have hpmod := h.put p hp hptype
    have hpmod' : p.revision = d.entry.modRevision := by rw [← hpmod, hpentry]
    have hpkey : p.entry.key = k := by rw [hpentry, hdkey]
    have hpseen : p.entry ∈ seenEntries revision kvs delivered k :=
      mem_seenEntries.mpr (.inr ⟨p, hall p hp (hpkey ▸ hin) (by omega), hptype, rfl, hpkey,
        by omega⟩)
    have hge := hmax p.entry hpseen
    exact ⟨d, hall d hd (hdkey ▸ hin) (by omega), hdtype, hdkey, by omega⟩

/-- A watcher with a snapshot and all later events of the range knows the range. -/
theorem Snapshot.reconstruct_eq (hreal : ∀ x ∈ delivered, x.type ≠ .rewatch → x ∈ log)
    (hall : ∀ x ∈ log, inRange key rangeEnd x.entry.key → revision < x.revision → x ∈ delivered)
    {k} (hin : inRange key rangeEnd k) :
    reconstruct revision kvs delivered k = (store.data.find? k).map (·.toKeyValue k) := by
  have hput : ∀ x ∈ delivered, x.type = .put → x ∈ log :=
    fun x hx ht => hreal x hx (by rw [ht]; decide)
  unfold reconstruct
  cases hmax : (seenEntries revision kvs delivered k).argmax KeyValueEntry.modRevision with
  | none =>
    have hnil := argmax_eq_none.mp hmax
    cases hfind : store.data.find? k with
    | none => rfl
    | some =>
      have hmem := hs.mem_seen h hall hin hfind
      rw [hnil] at hmem
      exact absurd hmem not_mem_nil
  | some kv =>
    have hmem : kv ∈ seenEntries revision kvs delivered k := argmax_mem hmax
    have hle : ∀ kv' ∈ seenEntries revision kvs delivered k, kv'.modRevision ≤ kv.modRevision :=
      fun kv' hkv' => le_of_mem_argmax hkv' hmax
    cases hfind : store.data.find? k with
    | none =>
      obtain ⟨d, hd, hdel⟩ := hs.seen_deleted h hput hall hin hfind hmem hle
      refine Option.filter_eq_none_iff.mpr fun kv' hkv' => ?_
      cases hkv'
      rw [Bool.not_not_eq, any_eq_true]
      exact ⟨d, hd, decide_eq_true hdel⟩
    | some e =>
      have hself := hle _ (hs.mem_seen h hall hin hfind)
      rcases hs.seen_le h hput hfind hmem with rfl | hlt
      · refine Option.filter_eq_some_iff.mpr ⟨rfl, ?_⟩
        rw [Bool.not_eq_true', any_eq_false]
        intro d hd hbad
        obtain ⟨htype, hkey, hmodified⟩ := of_decide_eq_true hbad
        rcases h.latest k e hfind d (hreal d hd (by rw [htype]; decide)) hkey with hlt | ⟨hput', -⟩
        · exact absurd hmodified hlt.ne
        · rw [htype] at hput'
          cases hput'
      · exact absurd hlt (not_lt.mpr hself)

end

end

end

end Datasystem.Coordinator
