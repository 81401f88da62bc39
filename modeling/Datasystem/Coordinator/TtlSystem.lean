import Datasystem.Coordinator.TtlManager
import Datasystem.Lib.StateMachine

/-! Expiry of keys. A put or a renewal changes the store first and then schedules an
expiry in the manager, under another lock, and the manager calls back into the store
without its own lock. Between them the stamps of the schedules keep the two in line:
whatever the interleaving, the current stamp of a key with a TTL is somewhere on its way
exactly once, and only that one can remove the key. -/

namespace Datasystem.Coordinator

open Common Lib Checked StateMachine OrderedMap TtlScheduleRecord MemoryKvStore
open List (count_append count_eq_zero mem_append mem_append_left mem_append_right mem_cons
  mem_cons_of_mem mem_cons_self mem_map mem_map_of_mem mem_singleton not_mem_nil)

/-- A key that was removed by an expiry check. -/
structure Removal where
  record : TtlScheduleRecord
  ttlMs : Int
  lastTouch : Touch
  time : Nat
deriving DecidableEq

/-- The store, the manager, calls on their way and records whose callback has still to run. -/
structure TtlSystem where
  store : MemoryKvStore := {}
  manager : TtlManager := {}
  now : Nat := 0
  inFlight : List ScheduleCall := []
  popped : List TtlScheduleRecord := []
  /-- How many puts and renewals there were. -/
  touches : Nat := 0
  /-- The latest put or renewal of each key. -/
  lastTouch : Bytes → Touch := fun _ => ⟨0, 0⟩
  removals : List Removal := []

inductive TtlAction
  | tick (elapsed : Nat)
  | put (req : MemoryKvStore.PutRequest)
  | keepAlive (key : Bytes) (expectedModRevision : Int)
  | delete (req : MemoryKvStore.DeleteRequest)
  | schedule (index : Nat)
  | check
  | callback

namespace TtlSystem

variable (s : TtlSystem)

/-- Note a put or renewal of a key, with the call of `Schedule` that may follow it. -/
def touch (store : MemoryKvStore) (key : Bytes) (scheduled : Bool) (ttlMs : Int)
    (revision ttlGeneration : Nat) : TtlSystem :=
  let t : Touch := ⟨s.touches + 1, s.now⟩
  { s with
    store := store
    inFlight := if scheduled then ⟨key, ttlMs, revision, ttlGeneration, t⟩ :: s.inFlight
      else s.inFlight
    touches := s.touches + 1
    lastTouch := Function.update s.lastTouch key t }

def step : TtlAction → Option TtlSystem
  | .tick elapsed => some { s with now := s.now + elapsed }
  | .put req =>
    (s.store.put req).toOption.map fun (r, store) =>
      s.touch store req.key (0 < req.ttlMs) req.ttlMs r.revision r.ttlGeneration
  | .keepAlive key expected =>
    (s.store.keepAlive key expected).toOption.map fun (r, store) =>
      s.touch store key true r.ttlMs r.revision r.ttlGeneration
  | .delete req => (s.store.delete req).toOption.map fun r => { s with store := r.2 }
  | .schedule index =>
    s.inFlight[index]?.map fun call =>
      { s with
        manager := s.manager.schedule s.now call
        inFlight := s.inFlight.eraseIdx index }
  -- one thread checks: it runs the callbacks of a round before it looks again
  | .check =>
    if s.popped = [] then
      let (expired, manager) :=
        TtlManager.popExpired s.now TtlManager.maxExpiredKeysPerCheck s.manager
      some { s with manager := manager, popped := expired }
    else none
  | .callback =>
    match s.popped with
    | [] => none
    | record :: rest =>
      match s.store.deleteIfTtlExpired record.key record.revision record.ttlGeneration with
      | none => some { s with popped := rest }
      | some (_, store) =>
        let ttlMs := (s.store.data.find? record.key).elim 0 ValueEntry.ttlMs
        some { s with
          store := store
          popped := rest
          removals := ⟨record, ttlMs, s.lastTouch record.key, s.now⟩ :: s.removals }

/-- The stamps of all schedules that are on their way. -/
def stamps : List Stamp :=
  s.inFlight.map ScheduleCall.stamp ++
    (s.manager.expiryMap ++ s.popped).map stamp

/-! ## Stamps and entries -/

/-- No stamp is ahead of the entry of its key, and the stamp of an entry with a TTL is there
once. -/
structure Fenced (store : MemoryKvStore) (stamps : List Stamp) : Prop where
  revision : ∀ st ∈ stamps, st.revision ≤ store.revision
  entry : ∀ key e, store.data.find? key = some e → e.modRevision ≤ store.revision
  current : ∀ st ∈ stamps, ∀ e, store.data.find? st.key = some e →
    st.Older (e.stamp st.key) ∨ st = e.stamp st.key
  once : ∀ key e, store.data.find? key = some e → 0 < e.ttlMs → stamps.count (e.stamp key) = 1

section

variable {store store' : MemoryKvStore} {stamps stamps' : List Stamp}

theorem Fenced.drop (h : Fenced store stamps) (dropped) (hperm : stamps.Perm (dropped ++ stamps'))
    (hdead : ∀ st ∈ dropped, ∀ e, store.data.find? st.key = some e → 0 < e.ttlMs → st ≠ e.stamp
      st.key) :
    Fenced store stamps' where
  revision st hst := h.revision st (hperm.mem_iff.mpr (mem_append_right _ hst))
  entry := h.entry
  current st hst := h.current st (hperm.mem_iff.mpr (mem_append_right _ hst))
  once key e he hpos := by
    have hnot : dropped.count (e.stamp key) = 0 := by
      rw [count_eq_zero]
      intro hmem
      exact hdead _ hmem e he hpos rfl
    have honce := h.once key e he hpos
    rw [hperm.count_eq, count_append, hnot, Nat.zero_add] at honce
    exact honce

/-- A new entry with its stamp, later than all stamps of the key. -/
theorem Fenced.insert (h : Fenced store stamps) {key} {e} (hrev : store.revision ≤ store'.revision)
    (he : e.modRevision ≤ store'.revision) (hdata : store'.data = store.data.insert key e)
    (hnew : ∀ st ∈ stamps, st.key = key → st.Older (e.stamp key)) (added)
    (hadded : ∀ st ∈ added, st = e.stamp key) (hlen : 0 < e.ttlMs → added.length = 1) :
    Fenced store' (added ++ stamps) where
  revision st hst := by
    rcases mem_append.mp hst with hst | hst
    · rw [hadded st hst]
      exact he
    · exact le_trans (h.revision st hst) hrev
  entry k e' hfind := by
    rw [hdata, find?_insert] at hfind
    split at hfind
    · cases hfind
      exact he
    · exact le_trans (h.entry k e' hfind) hrev
  current st hst e' hfind := by
    rw [hdata, find?_insert] at hfind
    rcases mem_append.mp hst with hst | hst
    · rw [hadded st hst] at hfind ⊢
      rw [ValueEntry.stamp_key, if_pos rfl] at hfind
      cases hfind
      exact .inr rfl
    · split at hfind
      · rename_i hk
        cases hfind
        exact .inl (hnew st hst hk)
      · exact h.current st hst e' hfind
  once k e' hfind hpos := by
    rw [hdata, find?_insert] at hfind
    rw [count_append]
    split at hfind
    · rename_i hk
      cases hfind
      subst hk
      have hall : added.count (e.stamp k) = added.length :=
        List.count_eq_length.mpr fun st hst => (hadded st hst).symm
      have hnone : stamps.count (e.stamp k) = 0 := by
        rw [count_eq_zero]
        intro hmem
        exact (hnew _ hmem rfl).ne rfl
      rw [hall, hnone, hlen hpos]
    · rename_i hk
      have hnone : added.count (e'.stamp k) = 0 := by
        rw [count_eq_zero]
        intro hmem
        exact hk (congrArg Stamp.key (hadded _ hmem))
      rw [hnone, h.once k e' hfind hpos]

end

/-! ## Times -/

/-- Ticks in the TTL of an entry. -/
def ttlTicks (ttlMs : Int) : Int := ttlMs * TtlManager.ticksPerMs

/-- A removal on the strength of the latest put or renewal of the key, after its whole TTL. -/
structure Removal.Timely (r : Removal) : Prop where
  latest : r.record.touch = r.lastTouch
  elapsed : r.lastTouch.time + ttlTicks r.ttlMs ≤ r.time

/-- A schedule with the stamp of an entry was made for its latest put or renewal. -/
structure Timed (s : TtlSystem) : Prop where
  clock : ∀ key, (s.lastTouch key).time ≤ s.now
  call : ∀ c ∈ s.inFlight, ∀ e, s.store.data.find? c.key = some e → c.stamp = e.stamp c.key →
    c.ttlMs = e.ttlMs ∧ c.touch = s.lastTouch c.key
  record : ∀ r ∈ s.manager.expiryMap ++ s.popped, ∀ e, s.store.data.find? r.key = some e →
    r.stamp = e.stamp r.key →
      r.touch = s.lastTouch r.key ∧ (s.lastTouch r.key).time + ttlTicks e.ttlMs ≤ r.expireTime
  due : ∀ r ∈ s.popped, r.expireTime ≤ s.now
  removal : ∀ r ∈ s.removals, Removal.Timely r

structure WellFormed (s : TtlSystem) : Prop where
  indexed : s.manager.Indexed
  fenced : Fenced s.store s.stamps
  timed : Timed s

/-- The expiry time of a call that gets the lock is one that the clock can show. -/
def expiryFits : TtlAction → Bool
  | .schedule index =>
    s.inFlight[index]?.all fun call => decide (s.now + ttlTicks call.ttlMs < 2 ^ 63)
  | _ => true

theorem wellFormed_init : WellFormed {} where
  indexed := ⟨List.nodup_nil, fun _ hr => absurd hr not_mem_nil,
    fun _ hr => absurd hr not_mem_nil, fun _ _ he => (nomatch he)⟩
  fenced := ⟨fun _ hst => absurd hst not_mem_nil, fun _ _ he => (nomatch he),
    fun _ hst => absurd hst not_mem_nil, fun _ _ he => (nomatch he)⟩
  timed := ⟨fun _ => le_refl _, fun _ hc => absurd hc not_mem_nil,
    fun _ hr => absurd hr not_mem_nil, fun _ hr => absurd hr not_mem_nil,
    fun _ hr => absurd hr not_mem_nil⟩

section

variable {s : TtlSystem}

theorem mem_stamps_of_call {c} (hc : c ∈ s.inFlight) : c.stamp ∈ s.stamps :=
  mem_append_left _ (mem_map_of_mem hc)

theorem mem_stamps_of_record {r} (hr : r ∈ s.manager.expiryMap ++ s.popped) : r.stamp ∈ s.stamps :=
  mem_append_right _ (mem_map_of_mem hr)

variable {store : MemoryKvStore} {key : Bytes} {scheduled : Bool} {ttlMs : Int}
  {call : ScheduleCall}

theorem touch_lastTouch_of_ne {k} {revision generation : Nat} (h : k ≠ key) :
    (s.touch store key scheduled ttlMs revision generation).lastTouch k = s.lastTouch k :=
  Function.update_of_ne h _ _

theorem touch_lastTouch_self {revision generation : Nat} :
    (s.touch store key scheduled ttlMs revision generation).lastTouch key =
      ⟨s.touches + 1, s.now⟩ :=
  Function.update_self _ _ _

theorem WellFormed.tick (h : WellFormed s) (elapsed : Nat) :
    WellFormed { s with now := s.now + elapsed } where
  indexed := h.indexed
  fenced := h.fenced
  timed := { h.timed with
    clock key := le_trans (h.timed.clock key) (Nat.le_add_right _ _)
    due r hr := le_trans (h.timed.due r hr) (by push_cast; omega) }

/-! ## Puts and renewals -/

/-- A put or renewal that gives the key an entry with a stamp later than all that were made for
it. -/
theorem WellFormed.touch (h : WellFormed s) {e} (hrev : s.store.revision ≤ store.revision)
    (he : e.modRevision ≤ store.revision) (hdata : store.data = s.store.data.insert key e)
    (hnew : ∀ st ∈ s.stamps, st.key = key → st.Older (e.stamp key))
    (hscheduled : 0 < e.ttlMs → scheduled = true) :
    WellFormed (s.touch store key scheduled e.ttlMs e.modRevision e.ttlGeneration) where
  indexed := h.indexed
  fenced := by
    let call : ScheduleCall :=
      ⟨key, e.ttlMs, e.modRevision, e.ttlGeneration, ⟨s.touches + 1, s.now⟩⟩
    cases scheduled with
    | false =>
      have hle : ¬ 0 < e.ttlMs := fun hpos => by cases hscheduled hpos
      have := h.fenced.insert hrev he hdata hnew []
        (fun _ hst => absurd hst not_mem_nil) (fun hpos => absurd hpos hle)
      exact this
    | true =>
      have := h.fenced.insert hrev he hdata hnew [call.stamp]
        (fun _ hst => mem_singleton.mp hst) (fun _ => rfl)
      exact this
  timed := by
    -- stamps of the key that were made before are not the one of the new entry
    have hold : ∀ st ∈ s.stamps, ∀ e', store.data.find? st.key = some e' → st = e'.stamp st.key →
        st.key ≠ key ∧ s.store.data.find? st.key = some e' := by
      intro st hst e' hfind hstamp
      rw [hdata, find?_insert] at hfind
      split at hfind
      · rename_i hk
        cases hfind
        rw [hk] at hstamp
        exact absurd hstamp (hnew st hst hk).ne
      · rename_i hk
        exact ⟨hk, hfind⟩
    constructor
    · intro k
      by_cases hk : k = key
      · rw [hk, touch_lastTouch_self]
        exact le_refl _
      · rw [touch_lastTouch_of_ne hk]
        exact h.timed.clock k
    · intro c hc e' hfind hstamp
      have hcase : c ∈ s.inFlight ∨
          c = ⟨key, e.ttlMs, e.modRevision, e.ttlGeneration, ⟨s.touches + 1, s.now⟩⟩ := by
        cases scheduled with
        | false => exact .inl hc
        | true => exact (mem_cons.mp hc).symm
      rcases hcase with hc | rfl
      · obtain ⟨hne, hfind⟩ := hold c.stamp (mem_stamps_of_call hc) e' hfind hstamp
        rw [touch_lastTouch_of_ne (k := c.key) hne]
        exact h.timed.call c hc e' hfind hstamp
      · have hself : e = e' := by
          have hfind' : store.data.find? key = some e' := hfind
          rw [hdata, find?_insert, if_pos rfl] at hfind'
          exact Option.some.inj hfind'
        rw [hself]
        exact ⟨rfl, touch_lastTouch_self.symm⟩
    · intro r hr e' hfind hstamp
      obtain ⟨hne, hfind⟩ := hold r.stamp (mem_stamps_of_record hr) e' hfind hstamp
      rw [touch_lastTouch_of_ne (k := r.key) hne]
      exact h.timed.record r hr e' hfind hstamp
    · exact h.timed.due
    · exact h.timed.removal

theorem WellFormed.put (h : WellFormed s) {req}
    {r} {store} (hput : s.store.put req = .ok (r, store)) :
    WellFormed (s.touch store req.key (0 < req.ttlMs) req.ttlMs r.revision r.ttlGeneration) := by
  obtain ⟨-, rfl, rfl⟩ := put_eq_ok.mp hput
  generalize hentry : stored req (s.store.revision + 1) (s.store.data.find? req.key) = e
  have hfields : e.ttlMs = req.ttlMs ∧ e.modRevision = s.store.revision + 1 := by
    rw [← hentry]
    cases s.store.data.find? req.key with
    | none | some _ => exact ⟨rfl, rfl⟩
  have hnew : ∀ st ∈ s.stamps, st.key = req.key → st.Older (e.stamp req.key) := by
    intro st hst _
    refine .inl ?_
    show st.revision < e.modRevision
    rw [hfields.2]
    exact Nat.lt_succ_of_le (h.fenced.revision st hst)
  have htouch : WellFormed (s.touch ⟨s.store.data.insert req.key e, s.store.revision + 1⟩ req.key
      (0 < req.ttlMs) e.ttlMs e.modRevision e.ttlGeneration) :=
    h.touch (Nat.le_succ _) (le_of_eq hfields.2) rfl hnew fun hpos =>
      decide_eq_true (hfields.1 ▸ hpos)
  rw [hfields.1, hfields.2] at htouch
  exact htouch

theorem WellFormed.keepAlive (h : WellFormed s) {expected : Int} {r}
    (hkeep : s.store.keepAlive key expected = .ok (r, store)) :
    WellFormed (s.touch store key true r.ttlMs r.revision r.ttlGeneration) := by
  obtain ⟨e, he, -, rfl, rfl⟩ := keepAlive_eq_ok hkeep
  refine h.touch (e := { e with ttlGeneration := e.ttlGeneration + 1 }) (le_refl _)
    (h.fenced.entry key e he) rfl (fun st hst hk => ?_) fun _ => rfl
  -- the stamps of the key are at most the one before the renewal
  rcases h.fenced.current st hst e (hk ▸ he) with hold | hcurrent
  · rcases hold with hlt | ⟨heq, hlt⟩
    · exact .inl hlt
    · exact .inr ⟨heq, Nat.lt_succ_of_lt hlt⟩
  · rw [hcurrent]
    exact .inr ⟨rfl, Nat.lt_succ_self _⟩

/-! ## Removals -/

theorem WellFormed.remove (h : WellFormed s) {store} (hrev : s.store.revision ≤ store.revision)
    (hsub : ∀ key e, store.data.find? key = some e → s.store.data.find? key = some e) :
    WellFormed { s with store := store } where
  indexed := h.indexed
  fenced :=
    { revision st hst := le_trans (h.fenced.revision st hst) hrev
      entry key e he := le_trans (h.fenced.entry key e (hsub key e he)) hrev
      current st hst e he := h.fenced.current st hst e (hsub _ e he)
      once key e he := h.fenced.once key e (hsub key e he) }
  timed := { h.timed with
    call c hc e he := h.timed.call c hc e (hsub _ e he)
    record r hr e he := h.timed.record r hr e (hsub _ e he) }

/-- The records of the manager and of the round that runs may be put in any order, and those go
that belong to no entry with a TTL. -/
theorem WellFormed.settle (h : WellFormed s) {manager} {popped} (dropped)
    (hindexed : manager.Indexed)
    (hperm : (s.manager.expiryMap ++ s.popped).Perm (dropped ++ (manager.expiryMap ++ popped)))
    (hdead : ∀ r ∈ dropped, ∀ e, s.store.data.find? r.key = some e → 0 < e.ttlMs → r.stamp ≠ e.stamp
      r.key)
    (hdue : ∀ r ∈ popped, r.expireTime ≤ s.now) :
    WellFormed { s with manager := manager, popped := popped } where
  indexed := hindexed
  fenced := by
    refine h.fenced.drop (dropped.map TtlScheduleRecord.stamp) ?_ ?_
    · have hmap : ((s.manager.expiryMap ++ s.popped).map TtlScheduleRecord.stamp).Perm
          (dropped.map TtlScheduleRecord.stamp ++
            (manager.expiryMap ++ popped).map TtlScheduleRecord.stamp) := by
        rw [← List.map_append]
        exact hperm.map _
      exact (hmap.append_left _).trans (List.perm_append_comm_assoc ..)
    · intro st hst
      obtain ⟨r, hr, rfl⟩ := mem_map.mp hst
      exact hdead r hr
  timed := { h.timed with
    record r hr := h.timed.record r (hperm.mem_iff.mpr (mem_append_right _ hr))
    due := hdue }

theorem WellFormed.check (h : WellFormed s) (hnone : s.popped = []) (fuel : Nat) :
    WellFormed { s with
      manager := (TtlManager.popExpired s.now fuel s.manager).2
      popped := (TtlManager.popExpired s.now fuel s.manager).1 } := by
  obtain ⟨hindexed, happ, hdue⟩ := h.indexed.popExpired s.now fuel
  refine h.settle [] hindexed ?_ (fun _ hr => absurd hr not_mem_nil) hdue
  rw [hnone, List.append_nil, ← happ]
  exact List.perm_append_comm

/-- A callback that finds another stamp in the store, or no TTL. -/
theorem WellFormed.callback_none (h : WellFormed s) {record}
    {rest} (hpop : s.popped = record :: rest)
    (hnone : s.store.deleteIfTtlExpired record.key record.revision record.ttlGeneration = none) :
    WellFormed { s with popped := rest } := by
  refine h.settle [record] h.indexed ?_ ?_ ?_
  · rw [hpop]
    exact List.perm_middle
  · intro r hr e he hpos hstamp
    obtain rfl := mem_singleton.mp hr
    have hsome := deleteIfTtlExpired_eq_some.mpr
      ⟨e, he, (congrArg Stamp.revision hstamp).symm, hpos,
        (congrArg Stamp.ttlGeneration hstamp).symm, rfl, rfl⟩
    cases hnone.symm.trans hsome
  · intro r hr
    exact h.timed.due r (hpop ▸ mem_cons_of_mem _ hr)

theorem WellFormed.callback_some (h : WellFormed s) {record}
    {rest} {event} (hpop : s.popped = record :: rest)
    (hsome : s.store.deleteIfTtlExpired record.key record.revision record.ttlGeneration =
      some (event, store)) :
    WellFormed { s with
      store := store
      popped := rest
      removals := ⟨record, (s.store.data.find? record.key).elim 0 ValueEntry.ttlMs,
        s.lastTouch record.key, s.now⟩ :: s.removals } := by
  obtain ⟨hrev, hsub⟩ := deleteIfTtlExpired_sub hsome
  obtain ⟨e, he, hmodified, -, hgeneration, -, -⟩ := deleteIfTtlExpired_eq_some.mp hsome
  have hmem : record ∈ s.popped := hpop ▸ mem_cons_self
  have hstamp : record.stamp = e.stamp record.key := by
    rw [stamp, ValueEntry.stamp, hmodified, hgeneration]
  obtain ⟨htouch, htime⟩ := h.timed.record record (mem_append_right _ hmem) e he hstamp
  have hremove := h.remove hrev fun k e' he' => (hsub k e' he').2
  have hdropped : WellFormed { s with store := store, popped := rest } := by
    refine hremove.settle [record] h.indexed ?_ ?_ ?_
    · show (s.manager.expiryMap ++ s.popped).Perm _
      rw [hpop]
      exact List.perm_middle
    · intro r hr e' he' _
      obtain rfl := mem_singleton.mp hr
      exact absurd rfl (hsub _ e' he').1
    · exact fun r hr => h.timed.due r (hpop ▸ mem_cons_of_mem _ hr)
  refine ⟨hdropped.indexed, hdropped.fenced, { hdropped.timed with removal := ?_ }⟩
  refine List.forall_mem_cons.mpr ⟨⟨htouch, ?_⟩, h.timed.removal⟩
  rw [he]
  exact le_trans htime (h.timed.due record hmem)

/-! ## Schedules -/

theorem expireTime_eq {now : Nat} (hpos : 0 < ttlMs) (h : now + ttlTicks ttlMs < 2 ^ 63) :
    TtlManager.expireTime now ttlMs = now + ttlTicks ttlMs := by
  unfold TtlManager.expireTime ttlTicks at *
  have hnonneg : 0 ≤ ttlMs * (TtlManager.ticksPerMs : Int) :=
    Int.mul_nonneg hpos.le (Int.natCast_nonneg _)
  refine Int.bmod_eq_of_le ?_ ?_ <;> omega

theorem WellFormed.dropCall (h : WellFormed s) {rest} (hperm : s.inFlight.Perm (call :: rest))
    (hdead : ∀ e, s.store.data.find? call.key = some e → 0 < e.ttlMs →
      call.stamp ≠ e.stamp call.key) : WellFormed { s with inFlight := rest } where
  indexed := h.indexed
  fenced := by
    refine h.fenced.drop [call.stamp] ((hperm.map ScheduleCall.stamp).append_right _) ?_
    intro st hst
    obtain rfl := mem_singleton.mp hst
    exact hdead
  timed := { h.timed with
    call c hc := h.timed.call c (hperm.mem_iff.mpr (mem_cons_of_mem _ hc)) }

/-- The record that a call replaces is not the current one of its key: the current stamp is on
its way only once. -/
theorem WellFormed.replaced_dead (h : WellFormed s) (hcall : call ∈ s.inFlight)
    {r} (hr : r ∈ s.manager.expiryMap) (hkey : r.key = call.key)
    (hnew : ¬ call.stamp.Older r.stamp) {e} (he : s.store.data.find? r.key = some e)
    (hpos : 0 < e.ttlMs) : r.stamp ≠ e.stamp r.key := by
  intro hstamp
  rw [hkey] at he hstamp
  rcases h.fenced.current call.stamp (mem_stamps_of_call hcall) e he with hold | hcurrent
  · rw [ScheduleCall.stamp_key, ← hstamp] at hold
    exact hnew hold
  · have honce := h.fenced.once call.key e he hpos
    have hcalls : 0 < (s.inFlight.map ScheduleCall.stamp).count (e.stamp call.key) :=
      List.count_pos_iff.mpr (hcurrent ▸ mem_map_of_mem hcall)
    have hrecords : 0 < ((s.manager.expiryMap ++ s.popped).map stamp).count (e.stamp call.key) :=
      List.count_pos_iff.mpr (hstamp ▸ mem_map_of_mem (mem_append_left _ hr))
    rw [stamps, count_append] at honce
    omega

/-- A call that makes a record, in place of the older ones of its key. -/
theorem WellFormed.replace (h : WellFormed s) {rest}
    (hperm : s.inFlight.Perm (call :: rest)) (hpos : 0 < call.ttlMs)
    (hfits : s.now + ttlTicks call.ttlMs < 2 ^ 63)
    (hnew : ∀ r ∈ s.manager.expiryMap, r.key = call.key → ¬ call.stamp.Older r.stamp)
    {manager} (hindexed : manager.Indexed)
    (hmap : manager.expiryMap.Perm (s.manager.recordOf s.now call :: s.manager.others call.key)) :
    WellFormed { s with manager := manager, inFlight := rest } where
  indexed := hindexed
  fenced := by
    let mine := s.manager.expiryMap.filter fun r => r.key = call.key
    refine h.fenced.drop (mine.map TtlScheduleRecord.stamp) ?_ ?_
    · -- both sides hold the same four lists
      have hleft : s.stamps.Perm (call.stamp :: rest.map ScheduleCall.stamp ++
          ((mine ++ s.manager.others call.key) ++ s.popped).map TtlScheduleRecord.stamp) :=
        (hperm.map _).append (((s.manager.others_perm call.key).append_right _).map _)
      have hright : ({ s with manager := manager, inFlight := rest } : TtlSystem).stamps.Perm
          (rest.map ScheduleCall.stamp ++ ((s.manager.recordOf s.now call ::
            s.manager.others call.key) ++ s.popped).map TtlScheduleRecord.stamp) :=
        ((hmap.append_right _).map _).append_left _
      refine hleft.trans (List.Perm.trans ?_ (hright.append_left _).symm)
      have hsame : (s.manager.recordOf s.now call).stamp = call.stamp := rfl
      simp only [List.map_append, List.map_cons, hsame, List.perm_iff_count, count_append,
        List.count_cons, List.cons_append]
      intro st
      omega
    · intro st hst e he hlive
      obtain ⟨r, hr, rfl⟩ := mem_map.mp hst
      have hr' := List.mem_filter.mp hr
      have hkey : r.key = call.key := of_decide_eq_true hr'.2
      exact h.replaced_dead (hperm.mem_iff.mpr mem_cons_self) hr'.1 hkey (hnew r hr'.1 hkey) he
        hlive
  timed := { h.timed with
    call c hc := h.timed.call c (hperm.mem_iff.mpr (mem_cons_of_mem _ hc))
    record r hr e he hstamp := by
      rcases mem_append.mp hr with hr | hr
      · rcases mem_cons.mp (hmap.mem_iff.mp hr) with rfl | hr
        · obtain ⟨httl, htouch⟩ := h.timed.call call (hperm.mem_iff.mpr mem_cons_self) e he hstamp
          refine ⟨htouch, ?_⟩
          show _ ≤ TtlManager.expireTime s.now call.ttlMs
          rw [expireTime_eq hpos hfits, httl]
          have := h.timed.clock call.key
          show ((s.lastTouch call.key).time : Int) + _ ≤ _
          omega
        · exact h.timed.record r (mem_append_left _ (TtlManager.mem_others.mp hr).1) e he hstamp
      · exact h.timed.record r (mem_append_right _ hr) e he hstamp }

theorem WellFormed.schedule (h : WellFormed s) {index : Nat}
    (hget : s.inFlight[index]? = some call) (hfits : s.now + ttlTicks call.ttlMs < 2 ^ 63) :
    WellFormed { s with
      manager := s.manager.schedule s.now call
      inFlight := s.inFlight.eraseIdx index } := by
  have hperm : s.inFlight.Perm (call :: s.inFlight.eraseIdx index) := by
    obtain ⟨hlt, rfl⟩ := List.getElem?_eq_some_iff.mp hget
    exact (List.getElem_cons_eraseIdx_perm hlt).symm
  have hcall : call ∈ s.inFlight := hperm.mem_iff.mpr mem_cons_self
  have hindexed := h.indexed.schedule s.now call
  rcases h.indexed.schedule_cases s.now call with ⟨hle, hs⟩ | ⟨r, hr, hkey, hold, hs⟩ |
    ⟨hpos, hnew, hs⟩
  · rw [hs]
    refine h.dropCall hperm fun e he hpos hstamp => ?_
    rw [← (h.timed.call call hcall e he hstamp).1] at hpos
    exact absurd hle (not_le.mpr hpos)
  · rw [hs]
    refine h.dropCall hperm fun e he _ hstamp => ?_
    rw [hstamp] at hold
    have hcurrent := h.fenced.current r.stamp (mem_stamps_of_record (mem_append_left _ hr)) e
    rw [stamp_key, hkey] at hcurrent
    rcases hcurrent he with hr | hr
    · exact (hold.trans hr).ne rfl
    · exact hold.ne hr.symm
  · rw [hs] at hindexed ⊢
    exact h.replace hperm hpos hfits hnew hindexed (TtlManager.emplace_perm _ _)

/-! ## Runs -/

theorem step_wellFormed {s'} (a) (hfits : expiryFits s a) (hstep : s.step a = some s')
    (h : WellFormed s) : WellFormed s' := by
  cases a with
  | tick elapsed =>
    cases hstep
    exact h.tick elapsed
  | put =>
    obtain ⟨⟨_, _⟩, hput, rfl⟩ := toOption_map_eq_some.mp hstep
    exact h.put hput
  | keepAlive =>
    obtain ⟨⟨_, _⟩, hkeep, rfl⟩ := toOption_map_eq_some.mp hstep
    exact h.keepAlive hkeep
  | delete =>
    obtain ⟨⟨_, _⟩, hdel, rfl⟩ := toOption_map_eq_some.mp hstep
    obtain ⟨hrev, hsub⟩ := delete_sub hdel
    exact h.remove hrev hsub
  | schedule index =>
    obtain ⟨call, hget, rfl⟩ := Option.map_eq_some_iff.mp hstep
    refine h.schedule hget ?_
    have hall : s.inFlight[index]?.all fun call => decide (s.now + ttlTicks call.ttlMs < 2 ^ 63) :=
      hfits
    rw [hget] at hall
    exact of_decide_eq_true hall
  | check =>
    dsimp only [step] at hstep
    split at hstep
    · rename_i hnone
      cases hstep
      exact h.check hnone _
    · cases hstep
  | callback =>
    dsimp only [step] at hstep
    split at hstep
    · cases hstep
    · rename_i record rest hpop
      split at hstep
      · rename_i hnone
        cases hstep
        exact h.callback_none hpop hnone
      · rename_i hsome
        cases hstep
        exact h.callback_some hpop hsome

theorem reaches_wellFormed (h : Reaches (restrict expiryFits step) {} s) : WellFormed s := by
  refine h.invariant wellFormed_init fun s s' a hstep hs => ?_
  obtain ⟨hfits, hstep⟩ := restrict_eq_some.mp hstep
  exact step_wellFormed a hfits hstep hs

end

/-- Whatever the interleaving: a key expires for its latest put or renewal only and after its
whole TTL, and a key with a TTL has its record as soon as its calls are through. -/
theorem ttl_safe {s : TtlSystem} (h : Reaches (restrict expiryFits step) {} s) :
    (∀ r ∈ s.removals, r.record.touch = r.lastTouch ∧
      r.lastTouch.time + ttlTicks r.ttlMs ≤ r.time) ∧
    ∀ key e, s.store.data.find? key = some e → 0 < e.ttlMs → (∀ c ∈ s.inFlight, c.key ≠ key) →
      ((s.manager.expiryMap ++ s.popped).map stamp).count (e.stamp key) = 1 := by
  have hwell := reaches_wellFormed h
  refine ⟨fun r hr => ⟨(hwell.timed.removal r hr).latest, (hwell.timed.removal r hr).elapsed⟩, ?_⟩
  intro key e he hpos hquiet
  have hcalls : (s.inFlight.map ScheduleCall.stamp).count (e.stamp key) = 0 := by
    rw [count_eq_zero]
    intro hmem
    obtain ⟨c, hc, hstamp⟩ := mem_map.mp hmem
    exact hquiet c hc (congrArg Stamp.key hstamp)
  have honce := hwell.fenced.once key e he hpos
  rw [stamps, count_append, hcalls, Nat.zero_add] at honce
  exact honce

/-- A key is renewed while its first record is due, expires, and is put again. -/
def renewedRun : List TtlAction :=
  [.put ⟨[1], [7], 10, coordinatorNoVersionCheck, 0, 0⟩, .schedule 0, .tick 10000000,
    .keepAlive [1] 0, .check, .callback, .schedule 0, .tick 10000000, .check, .callback,
    .put ⟨[1], [8], 10, coordinatorNoVersionCheck, 0, 0⟩, .schedule 0]

theorem renewed_expires_once : ∃ s, Reaches (restrict expiryFits step) {} s ∧
    (s.removals.length = 1 ∧ s.inFlight = [] ∧ (s.store.data.find? [1]).isSome) ∧
    (∀ r ∈ s.removals, r.record.touch = r.lastTouch ∧
      r.lastTouch.time + ttlTicks r.ttlMs ≤ r.time) ∧
    ∀ key e, s.store.data.find? key = some e → 0 < e.ttlMs → (∀ c ∈ s.inFlight, c.key ≠ key) →
      ((s.manager.expiryMap ++ s.popped).map TtlScheduleRecord.stamp).count (e.stamp key) = 1 := by
  have hrun : (run (restrict expiryFits step) {} renewedRun).any fun s =>
      decide (s.removals.length = 1 ∧ s.inFlight = [] ∧ (s.store.data.find? [1]).isSome) := by
    decide +kernel
  obtain ⟨s, hs, hp⟩ := exists_reaches renewedRun hrun
  exact ⟨s, hs, hp, ttl_safe hs⟩

/-- The longest TTL a request can ask for: its expiry lies before the put. -/
def longestTtlRun : List TtlAction :=
  [.tick 5000000, .put ⟨[1], [7], 2 ^ 63 - 1, coordinatorNoVersionCheck, 0, 0⟩, .schedule 0, .check,
    .callback]

theorem longest_ttl_expires_at_once : ∃ s, Reaches step {} s ∧
    ∃ r ∈ s.removals, r.time = r.lastTouch.time ∧
      ¬ r.lastTouch.time + ttlTicks r.ttlMs ≤ r.time := by
  exact exists_reaches longestTtlRun (by decide +kernel)

end TtlSystem

end Datasystem.Coordinator
