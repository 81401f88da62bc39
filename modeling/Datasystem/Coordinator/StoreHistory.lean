import Datasystem.Coordinator.WatchHistory

/-! The store over a history of requests. For one key the reported events are a trace
of puts and deletes with growing revisions; the entry of the key, its version and its
revision are read off the end of that trace. -/

namespace Datasystem.Coordinator

open Common Lib Checked MemoryKvStore
open OrderedMap (empty find?_erase find?_filterKeys find?_insert)

/-! ## Histories -/

inductive StoreRequest
  | put (req : PutRequest)
  | range (key rangeEnd : Bytes)
  | delete (req : DeleteRequest)
  | deleteIfTtlExpired (key : Bytes) (revision ttlGeneration : Nat)
  | keepAlive (key : Bytes) (expectedModRevision : Int)

namespace StoreRequest

variable (store : MemoryKvStore) (req : StoreRequest)

/-- The store after a request and the events that were reported. -/
def execute : StoreRequest → MemoryKvStore × List WatchEvent
  | .put req =>
    match store.put req with
    | .ok (r, store') => (store', [r.event])
    | .error _ => (store, [])
  | .range _ _ => (store, [])
  | .delete req =>
    match store.delete req with
    | .ok (r, store') => (store', r.events)
    | .error _ => (store, [])
  | .deleteIfTtlExpired key revision ttlGeneration =>
    match store.deleteIfTtlExpired key revision ttlGeneration with
    | some (event, store') => (store', [event])
    | none => (store, [])
  | .keepAlive key expectedModRevision =>
    match store.keepAlive key expectedModRevision with
    | .ok (_, store') => (store', [])
    | .error _ => (store, [])

/-- The request puts its key. -/
def Writes : Prop :=
  ∃ p r store', req = .put p ∧ store.put p = .ok (r, store')

/-- The request takes some key away. -/
def Removes : Prop :=
  ∃ k, (store.data.find? k).isSome ∧ (req.execute store).1.data.find? k = none

/-- The request is a renewal that is granted. -/
def Renews : Prop :=
  ∃ key expected r store', req = .keepAlive key expected ∧
    store.keepAlive key expected = .ok (r, store')

end StoreRequest

/-- A store and all that it has reported. -/
structure StoreHistory where
  store : MemoryKvStore := {}
  log : List WatchEvent := []

namespace StoreHistory

def step (h : StoreHistory) (req : StoreRequest) : StoreHistory :=
  let next := req.execute h.store
  ⟨next.1, h.log ++ next.2⟩

def run (requests : List StoreRequest) : StoreHistory := requests.foldl step {}

end StoreHistory

/-- What the events say the store holds. -/
def applyEvent (content : OrderedMap Bytes KeyValueEntry) (x : WatchEvent) :
    OrderedMap Bytes KeyValueEntry :=
  match x.type with
  | .put => content.insert x.entry.key x.entry
  | .delete => content.erase x.entry.key
  | .rewatch => content

def replay (events : List WatchEvent) : OrderedMap Bytes KeyValueEntry :=
  events.foldl applyEvent .empty

/-- The events of one key. -/
def eventsOf (k : Bytes) (events : List WatchEvent) : List WatchEvent :=
  events.filter fun x => x.entry.key = k

variable (trace : List WatchEvent) (store : MemoryKvStore) (requests : List StoreRequest)

/-- The puts since the last delete. -/
def putsSinceCreation : Nat :=
  (trace.reverse.takeWhile fun x => x.type = .put).length

/-! ## One key -/

/-- What a request does to one key, with the events of the key. -/
inductive KeyStep (k : Bytes) (revision : Nat) (old : Option ValueEntry) :
    Option ValueEntry → List WatchEvent → Prop
  | kept {new : Option ValueEntry}
      (same : new.map (fun e => (e.toKeyValue k)) = old.map fun e => e.toKeyValue k) :
      KeyStep k revision old new []
  | put {e : ValueEntry} (modRevision : e.modRevision = revision)
      (version : e.version = old.elim 0 ValueEntry.version + 1) :
      KeyStep k revision old (some e) [⟨.put, e.toKeyValue k, revision⟩]
  | delete {e : ValueEntry} (present : old = some e) :
      KeyStep k revision old none [⟨.delete, e.toKeyValue k, revision⟩]

variable {k : Bytes} {x : WatchEvent}

theorem eventsOf_singleton_self (h : x.entry.key = k) : eventsOf k [x] = [x] :=
  List.filter_cons_of_pos (decide_eq_true h)

theorem eventsOf_singleton_of_ne (h : x.entry.key ≠ k) : eventsOf k [x] = [] :=
  List.filter_cons_of_neg (by simpa using h)

section

variable {store : MemoryKvStore}

variable {store' : MemoryKvStore}

theorem keyStep_put {req} {r} (h : store.put req = .ok (r, store')) (k) :
    KeyStep k (store.revision + 1) (store.data.find? k) (store'.data.find? k)
      (eventsOf k [r.event]) := by
  obtain ⟨-, rfl, rfl⟩ := put_eq_ok.mp h
  by_cases hk : req.key = k
  · subst hk
    rw [find?_insert, if_pos rfl, eventsOf_singleton_self]
    · cases store.data.find? req.key with
      | none | some => exact .put rfl rfl
    · rfl
  · rw [eventsOf_singleton_of_ne hk, find?_insert, if_neg (Ne.symm hk)]
    exact .kept rfl

theorem eventsOf_delete (key rangeEnd) (revision : Nat) (k) :
    eventsOf k ((store.range key rangeEnd).1.map (⟨.delete, ·, revision⟩)) =
      if inRange key rangeEnd k then
        ((store.data.find? k).map fun e => ⟨.delete, e.toKeyValue k, revision⟩).toList
      else [] := by
  have hfilter : ((store.data.entries.filter fun e => inRange key rangeEnd e.1).filter
      fun e => e.1 = k) = ((store.data.find? k).map (Prod.mk k)).toList.filter
        fun e => inRange key rangeEnd e.1 := by
    rw [← OrderedMap.filter_key_entries, List.filter_filter, List.filter_filter]
    refine List.filter_congr fun e _ => ?_
    rw [Bool.and_comm]
    congr
  unfold eventsOf range
  rw [List.map_map, List.filter_map]
  refine (congrArg (List.map _) hfilter).trans ?_
  cases store.data.find? k with
  | none => simp
  | some => cases hin : inRange key rangeEnd k <;> simp [hin]

theorem keyStep_delete {req} {r} (h : store.delete req = .ok (r, store')) (k) :
    KeyStep k (store.revision + 1) (store.data.find? k) (store'.data.find? k)
      (eventsOf k r.events) := by
  rcases delete_eq_ok h with ⟨rfl, hnone, -⟩ | ⟨rfl, hevents, -⟩
  · rw [hnone]
    exact .kept rfl
  · rw [hevents, eventsOf_delete, find?_filterKeys]
    cases hin : inRange req.key req.rangeEnd k with
    | false => exact .kept rfl
    | true =>
      cases store.data.find? k with
      | none => exact .kept rfl
      | some => exact .delete rfl

theorem keyStep_deleteIfTtlExpired {key} {revision generation : Nat} {event}
    (h : store.deleteIfTtlExpired key revision generation = some (event, store')) (k) :
    KeyStep k (store.revision + 1) (store.data.find? k) (store'.data.find? k)
      (eventsOf k [event]) := by
  obtain ⟨e, he, -, -, -, rfl, rfl⟩ := deleteIfTtlExpired_eq_some.mp h
  by_cases hk : key = k
  · subst hk
    rw [find?_erase, if_pos rfl, eventsOf_singleton_self]
    · exact .delete he
    · rfl
  · rw [eventsOf_singleton_of_ne hk, find?_erase, if_neg (Ne.symm hk)]
    exact .kept rfl

/-- A renewal shows in nothing that is read or reported. -/
theorem keepAlive_toKeyValue {key} {expected : Int} {r}
    (h : store.keepAlive key expected = .ok (r, store')) (k) :
    (store'.data.find? k).map (·.toKeyValue k) = (store.data.find? k).map (·.toKeyValue k) := by
  obtain ⟨_, he, -, -, rfl⟩ := keepAlive_eq_ok h
  rw [find?_insert]
  split
  · rename_i hk
    rw [hk, he]
    rfl
  · rfl

end

/-! ## One request -/

/-- What a request can do to the store: nothing, a new generation of one key, or a change at
the next revision. -/
inductive Outcome (store : MemoryKvStore) (req : StoreRequest) : Prop
  | idle (same : req.execute store = (store, [])) (unwritten : ¬ req.Writes store)
  | renewed (silent : (req.execute store).2 = [])
      (revision : (req.execute store).1.revision = store.revision)
      (same : ∀ k, ((req.execute store).1.data.find? k).map (·.toKeyValue k) =
        (store.data.find? k).map (·.toKeyValue k))
      (renews : req.Renews store) (unwritten : ¬ req.Writes store)
  | changed (revision : (req.execute store).1.revision = store.revision + 1)
      (effect : req.Writes store ∨ req.Removes store)
      (keys : ∀ k, KeyStep k (store.revision + 1) (store.data.find? k)
        ((req.execute store).1.data.find? k) (eventsOf k (req.execute store).2))

theorem outcome_put (req) : Outcome store (.put req) := by
  cases h : store.put req with
  | error =>
    have hexec : (StoreRequest.put req).execute store = (store, []) := by
      simp only [StoreRequest.execute, h]
    refine .idle hexec ?_
    rintro ⟨_, _, _, heq, hput⟩
    cases heq
    cases h.symm.trans hput
  | ok result =>
    obtain ⟨r, store'⟩ := result
    have hexec : (StoreRequest.put req).execute store = (store', [r.event]) := by
      simp only [StoreRequest.execute, h]
    refine .changed ?_ (.inl ⟨req, r, store', rfl, h⟩) ?_
    · rw [hexec]
      exact (put_mutation h).revision
    · intro k
      rw [hexec]
      exact keyStep_put h k

theorem outcome_delete (req) : Outcome store (.delete req) := by
  have hunwritten : ¬ (StoreRequest.delete req).Writes store := by
    rintro ⟨_, _, _, heq, -⟩
    cases heq
  cases h : store.delete req with
  | error =>
    refine .idle ?_ hunwritten
    simp only [StoreRequest.execute, h]
  | ok result =>
    obtain ⟨r, store'⟩ := result
    have hexec : (StoreRequest.delete req).execute store = (store', r.events) := by
      simp only [StoreRequest.execute, h]
    rcases delete_eq_ok h with ⟨rfl, hnone, -⟩ | ⟨hstore', -, hsome⟩
    · exact .idle (hexec.trans (by rw [hnone])) hunwritten
    · obtain ⟨_, hkv⟩ := List.exists_mem_of_ne_nil _ hsome
      obtain ⟨k, _, hfind, hin, -⟩ := mem_range.mp hkv
      refine .changed ?_ (.inr ⟨k, ?_, ?_⟩) ?_
      · rw [hexec, hstore']
      · rw [hfind]
        rfl
      · rw [hexec, hstore', find?_filterKeys, hin]
        rfl
      · intro k
        rw [hexec]
        exact keyStep_delete h k

theorem outcome_deleteIfTtlExpired (key) (revision ttlGeneration : Nat) :
    Outcome store (.deleteIfTtlExpired key revision ttlGeneration) := by
  have hunwritten :
      ¬ (StoreRequest.deleteIfTtlExpired key revision ttlGeneration).Writes store := by
    rintro ⟨_, _, _, heq, -⟩
    cases heq
  cases h : store.deleteIfTtlExpired key revision ttlGeneration with
  | none =>
    refine .idle ?_ hunwritten
    simp only [StoreRequest.execute, h]
  | some result =>
    obtain ⟨event, store'⟩ := result
    have hexec : (StoreRequest.deleteIfTtlExpired key revision ttlGeneration).execute store =
        (store', [event]) := by
      simp only [StoreRequest.execute, h]
    obtain ⟨_, he, -, -, -, -, hstore'⟩ := deleteIfTtlExpired_eq_some.mp h
    refine .changed ?_ (.inr ⟨key, ?_, ?_⟩) ?_
    · rw [hexec, hstore']
    · rw [he]
      rfl
    · rw [hexec, hstore', find?_erase, if_pos rfl]
    · intro k
      rw [hexec]
      exact keyStep_deleteIfTtlExpired h k

theorem outcome_keepAlive (key) (expected : Int) : Outcome store (.keepAlive key expected) := by
  have hunwritten : ¬ (StoreRequest.keepAlive key expected).Writes store := by
    rintro ⟨_, _, _, heq, -⟩
    cases heq
  cases h : store.keepAlive key expected with
  | error =>
    refine .idle ?_ hunwritten
    simp only [StoreRequest.execute, h]
  | ok result =>
    obtain ⟨r, store'⟩ := result
    have hexec : (StoreRequest.keepAlive key expected).execute store = (store', []) := by
      simp only [StoreRequest.execute, h]
    refine .renewed ?_ ?_ ?_ ⟨key, expected, r, store', rfl, h⟩ hunwritten
    · rw [hexec]
    · obtain ⟨_, -, -, -, rfl⟩ := keepAlive_eq_ok h
      rw [hexec]
    · intro k
      rw [hexec]
      exact keepAlive_toKeyValue h k

theorem outcome (req) : Outcome store req := by
  cases req with
  | put req => exact outcome_put store req
  | range =>
    refine .idle rfl ?_
    rintro ⟨_, _, _, heq, -⟩
    cases heq
  | delete req => exact outcome_delete store req
  | deleteIfTtlExpired key revision generation =>
    exact outcome_deleteIfTtlExpired store key revision generation
  | keepAlive key expected => exact outcome_keepAlive store key expected

/-! ## The trace of a key -/

theorem putsSinceCreation_append_delete (h : x.type = .delete) :
    putsSinceCreation (trace ++ [x]) = 0 := by
  simp [putsSinceCreation, h]

theorem replay_append_singleton (x) : replay (trace ++ [x]) = applyEvent (replay trace) x :=
  List.foldl_concat ..

/-- The events of a key tell its entry. -/
structure KeyTrace (k : Bytes) (revision : Nat) (entry : Option ValueEntry)
    (trace : List WatchEvent) : Prop where
  sorted : trace.Pairwise fun x y => x.revision < y.revision
  bounded : ∀ x ∈ trace, x.revision ≤ revision
  content : (replay trace).find? k = entry.map (·.toKeyValue k)
  version : entry.elim 0 ValueEntry.version = putsSinceCreation trace
  last : ∀ e ∈ entry, ∃ before, trace = before ++ [⟨.put, e.toKeyValue k, e.modRevision⟩]

namespace KeyTrace

variable {k : Bytes} {revision : Nat} {entry entry' : Option ValueEntry} {trace : List WatchEvent}

section

variable (h : KeyTrace k revision entry trace)

include h

theorem kept (same : entry'.map (·.toKeyValue k) = entry.map (·.toKeyValue k)) :
    KeyTrace k revision entry' trace := by
  refine ⟨h.sorted, h.bounded, h.content.trans same.symm, ?_, ?_⟩
  · rw [← h.version]
    cases entry with
    | none =>
      obtain rfl := Option.map_eq_none_iff.mp same
      rfl
    | some =>
      obtain ⟨_, rfl, heq⟩ := Option.map_eq_some_iff.mp same
      exact congrArg KeyValueEntry.version heq
  · intro e' he'
    obtain rfl := Option.mem_def.mp he'
    obtain ⟨e, rfl, heq⟩ := Option.map_eq_some_iff.mp same.symm
    obtain ⟨before, hbefore⟩ := h.last e rfl
    refine ⟨before, ?_⟩
    rw [hbefore, heq,
      show e.modRevision = e'.modRevision from congrArg KeyValueEntry.modRevision heq]

theorem le {revision' : Nat} (hle : revision ≤ revision') : KeyTrace k revision' entry trace :=
  { h with bounded := fun x hx => (h.bounded x hx).trans hle }

theorem sorted_append {x : WatchEvent} (hx : x.revision = revision + 1) :
    (trace ++ [x]).Pairwise fun x y => x.revision < y.revision := by
  refine List.pairwise_append.mpr ⟨h.sorted, List.pairwise_singleton _ _, ?_⟩
  intro y hy z hz
  have hle := h.bounded y hy
  rw [List.mem_singleton.mp hz]
  omega

theorem bounded_append {x}
    (hx : x.revision = revision + 1) : ∀ y ∈ trace ++ [x], y.revision ≤ revision + 1 := by
  intro y hy
  rcases List.mem_append.mp hy with hy | hy
  · exact (h.bounded y hy).trans (Nat.le_succ _)
  · exact (List.mem_singleton.mp hy ▸ hx).le

theorem append {events : List WatchEvent} (hstep : KeyStep k (revision + 1) entry entry' events) :
    KeyTrace k (revision + 1) entry' (trace ++ events) := by
  cases hstep with
  | kept same =>
    rw [List.append_nil]
    exact (h.kept same).le (Nat.le_succ _)
  | @put e modRevision version =>
    refine ⟨h.sorted_append rfl, h.bounded_append rfl, ?_, ?_, ?_⟩
    · rw [replay_append_singleton]
      simp [applyEvent, find?_insert, ValueEntry.toKeyValue]
    · rw [h.version] at version
      simpa [putsSinceCreation] using version
    · intro e' he'
      cases he'
      exact ⟨trace, by rw [modRevision]⟩
  | @delete e present =>
    refine ⟨h.sorted_append rfl, h.bounded_append rfl, ?_, ?_, ?_⟩
    · rw [replay_append_singleton]
      simp [applyEvent, find?_erase, ValueEntry.toKeyValue]
    · rw [putsSinceCreation_append_delete _ rfl]
      rfl
    · intro e' he'
      cases he'

end

end KeyTrace

/-! ## Histories of requests -/

/-- Every key has its trace in the log. -/
def StoreHistory.Traced (h : StoreHistory) : Prop :=
  ∀ k, KeyTrace k h.store.revision (h.store.data.find? k) (eventsOf k h.log)

theorem StoreHistory.Traced.step {h : StoreHistory} (ht : h.Traced) (req) :
    (h.step req).Traced := by
  intro k
  have hlog :
      eventsOf k (h.step req).log = eventsOf k h.log ++ eventsOf k (req.execute h.store).2 :=
    List.filter_append _ _
  rw [hlog]
  cases outcome h.store req with
  | idle same _ =>
    have hstore : (h.step req).store = h.store := congrArg Prod.fst same
    rw [hstore, same]
    exact (List.append_nil _).symm ▸ ht k
  | renewed silent revision same _ _ =>
    rw [silent, show (h.step req).store.revision = h.store.revision from revision]
    exact (List.append_nil _).symm ▸ (ht k).kept (same k)
  | changed revision _ keys =>
    rw [show (h.step req).store.revision = h.store.revision + 1 from revision]
    exact (ht k).append (keys k)

theorem StoreHistory.traced_run : (run requests).Traced := by
  unfold run
  induction requests using List.reverseRecOn with
  | nil =>
    intro k
    exact ⟨.nil, nofun, rfl, rfl, nofun⟩
  | append_singleton _ req ih =>
    rw [List.foldl_concat]
    exact ih.step req

theorem KeyStep.revision_of_mem {revision : Nat} {old new}
    {events} (h : KeyStep k revision old new events) (hx : x ∈ events) : x.revision = revision := by
  cases h with
  | kept _ => cases hx
  | put _ _ | delete _ => rw [List.mem_singleton.mp hx]

theorem mem_eventsOf_self {events} (h : x ∈ events) : x ∈ eventsOf x.entry.key events :=
  List.mem_filter.mpr ⟨h, decide_eq_true rfl⟩

/-- One caller at a time reports in the order of the revisions. -/
theorem StoreHistory.sorted_run :
    (run requests).log.Pairwise fun x y => x.revision ≤ y.revision := by
  induction requests using List.reverseRecOn with
  | nil => exact .nil
  | append_singleton earlier req ih =>
    have hrun : run (earlier ++ [req]) = (run earlier).step req := List.foldl_concat ..
    rw [hrun]
    have htraced := traced_run earlier
    -- the new events share the next revision
    have hnew : ∀ x ∈ (req.execute (run earlier).store).2,
        x.revision = (run earlier).store.revision + 1 := by
      intro x hx
      cases outcome (run earlier).store req with
      | idle same _ =>
        rw [same] at hx
        cases hx
      | renewed silent _ _ _ _ =>
        rw [silent] at hx
        cases hx
      | changed _ _ keys => exact (keys x.entry.key).revision_of_mem (mem_eventsOf_self hx)
    refine List.pairwise_append.mpr ⟨ih, ?_, ?_⟩
    · exact List.pairwise_of_forall_mem_list fun x hx y hy =>
        ((hnew x hx).trans (hnew y hy).symm).le
    · intro x hx y hy
      rw [hnew y hy]
      exact ((htraced _).bounded x (mem_eventsOf_self hx)).trans (Nat.le_succ _)

theorem find?_foldl_applyEvent (k) (events) {content content'}
    (h : content.find? k = content'.find? k) :
    (events.foldl applyEvent content).find? k =
      ((eventsOf k events).foldl applyEvent content').find? k := by
  induction events generalizing content content' with
  | nil => exact h
  | cons x rest ih =>
    by_cases hk : x.entry.key = k
    · have hcons : eventsOf k (x :: rest) = x :: eventsOf k rest :=
        List.filter_cons_of_pos (decide_eq_true hk)
      rw [hcons, List.foldl_cons]
      refine ih ?_
      unfold applyEvent
      cases x.type with
      | put => simp [find?_insert, hk]
      | delete => simp [find?_erase, hk]
      | rewatch => exact h
    · have hcons : eventsOf k (x :: rest) = eventsOf k rest :=
        List.filter_cons_of_neg (by simpa using hk)
      rw [hcons]
      refine ih (Eq.trans ?_ h)
      unfold applyEvent
      cases x.type with
      | put => simp [find?_insert, Ne.symm hk]
      | delete => simp [find?_erase, Ne.symm hk]
      | rewatch => rfl

/-- Two logs of the same events in the order of their revisions agree on every key. -/
theorem KeyTrace.eventsOf_eq {revision : Nat} {entry}
    {log log'} (h : KeyTrace k revision entry (eventsOf k log))
    (hperm : log'.Perm log) (hsorted : log'.Pairwise fun x y => x.revision ≤ y.revision) :
    eventsOf k log' = eventsOf k log := by
  have hperm' : (eventsOf k log').Perm (eventsOf k log) := hperm.filter _
  refine hperm'.eq_of_pairwise ?_ (hsorted.filter _) (h.sorted.imp le_of_lt)
  intro x y hx hy hxy hyx
  -- two events of one key have different revisions
  have hnodup : ((eventsOf k log).map WatchEvent.revision).Nodup :=
    List.pairwise_map.mpr (h.sorted.imp ne_of_lt)
  exact List.inj_on_of_nodup_map hnodup (hperm'.mem_iff.mp hx) hy (le_antisymm hxy hyx)

/-- A request raises the revision by one if it writes or removes a key, and is not seen at all
otherwise, up to the generation of a renewed key. -/
theorem execute_revision (req : StoreRequest) : (req.Writes store ∨ req.Removes store →
        (req.execute store).1.revision = store.revision + 1) ∧
      (¬ (req.Writes store ∨ req.Removes store) →
        (req.execute store).1.revision = store.revision ∧ (req.execute store).2 = [] ∧
          ∀ k, ((req.execute store).1.data.find? k).map (·.toKeyValue k) =
            (store.data.find? k).map (·.toKeyValue k)) ∧
      (¬ (req.Writes store ∨ req.Removes store ∨ req.Renews store) →
        (req.execute store).1 = store) := by
  -- a request that keeps every key-value removes no key
  have hkeeps : (∀ k, ((req.execute store).1.data.find? k).map (·.toKeyValue k) =
      (store.data.find? k).map (·.toKeyValue k)) → ¬ req.Removes store := by
    rintro hsame ⟨k, hsome, hnone⟩
    have hmap := hsame k
    rw [hnone, Option.map_none, eq_comm, Option.map_eq_none_iff] at hmap
    rw [hmap] at hsome
    cases hsome
  cases outcome store req with
  | idle same unwritten =>
    have hremoves := hkeeps fun k => by rw [same]
    refine ⟨fun h => absurd h (not_or.mpr ⟨unwritten, hremoves⟩), fun _ => ?_, fun _ => ?_⟩
    · rw [same]
      exact ⟨rfl, rfl, fun k => rfl⟩
    · rw [same]
  | renewed silent revision same renews unwritten =>
    refine ⟨fun h => absurd h (not_or.mpr ⟨unwritten, hkeeps same⟩),
      fun _ => ⟨revision, silent, same⟩, fun h => absurd (.inr (.inr renews)) h⟩
  | changed revision effect =>
    refine ⟨fun _ => revision, fun h => absurd effect h, fun h => absurd ?_ h⟩
    exact effect.imp_right .inl

/-- After any history: revisions count the mutations, idle requests change nothing, every entry
carries the revision of its last put and the number of puts since it was created, and the
reported events, replayed by revision, give the content. -/
theorem store_invariants : (∀ req : StoreRequest, let h := StoreHistory.run requests
      (req.Writes h.store ∨ req.Removes h.store →
          (h.step req).store.revision = h.store.revision + 1) ∧
        (¬ (req.Writes h.store ∨ req.Removes h.store) →
          (h.step req).store.revision = h.store.revision ∧ (h.step req).log = h.log ∧
            ∀ k, ((h.step req).store.data.find? k).map (·.toKeyValue k) =
              (h.store.data.find? k).map (·.toKeyValue k)) ∧
        (¬ (req.Writes h.store ∨ req.Removes h.store ∨ req.Renews h.store) →
          (h.step req).store = h.store)) ∧
      (∀ k e, (StoreHistory.run requests).store.data.find? k = some e →
        e.modRevision ≤ (StoreHistory.run requests).store.revision ∧
          (∃ before, eventsOf k (StoreHistory.run requests).log =
            before ++ [⟨.put, e.toKeyValue k, e.modRevision⟩]) ∧
          e.version = putsSinceCreation (eventsOf k (StoreHistory.run requests).log)) ∧
      ((StoreHistory.run requests).log.Pairwise fun x y => x.revision ≤ y.revision) ∧
      ∀ log : List WatchEvent, log.Perm (StoreHistory.run requests).log →
        log.Pairwise (fun x y => x.revision ≤ y.revision) → ∀ k, (replay log).find? k =
            ((StoreHistory.run requests).store.data.find? k).map (·.toKeyValue k) := by
  have htraced := StoreHistory.traced_run requests
  refine ⟨fun req => ?_, fun k e he => ?_, StoreHistory.sorted_run requests,
    fun log hperm hsorted k => ?_⟩
  · obtain ⟨hraised, hkeeps, hidle⟩ := execute_revision (StoreHistory.run requests).store req
    refine ⟨hraised, fun h => ?_, hidle⟩
    obtain ⟨hrev, hsilent, hsame⟩ := hkeeps h
    refine ⟨hrev, ?_, hsame⟩
    exact (congrArg _ hsilent).trans (List.append_nil _)
  · obtain ⟨before, hlast⟩ := (htraced k).last e he
    refine ⟨?_, ⟨before, hlast⟩, ?_⟩
    · exact (htraced k).bounded ⟨.put, e.toKeyValue k, e.modRevision⟩ (by simp [hlast])
    · exact (congrArg (Option.elim · 0 ValueEntry.version) he).symm.trans (htraced k).version
  · have hkey := find?_foldl_applyEvent k log (rfl : empty.find? k = empty.find? k)
    rw [(htraced k).eventsOf_eq hperm hsorted] at hkey
    exact hkey.trans (htraced k).content

end Datasystem.Coordinator
