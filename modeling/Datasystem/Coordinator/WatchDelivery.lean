import Datasystem.Coordinator.WatchDispatcher
import Datasystem.Lib.StateMachine

/-! No event is lost on its way to a watcher. The events of a watched range that are
newer than the snapshot are found with the callers, in the pending queue, with the
fan-out thread, in the queue of the channel or with the watcher, or else the watcher is
told to watch again. This needs that a trim takes only what was sent. -/

namespace Datasystem.Coordinator

open Common Lib Checked StateMachine OrderedMap WatcherChannel
  MemoryKvStore
open List (append_nil dropWhile_sublist flatten_cons mem_append mem_append_left mem_append_right
  mem_cons mem_cons_of_mem mem_cons_self mem_map mem_singleton not_mem_nil replicate)

/-! ## Where an event is -/

namespace FanOut

/-- Events that the thread holds. -/
def held : FanOut → List WatchEvent
  | .waiting => []
  | .popped batch => batch
  | .rewatching _ batch => batch
  | .matching batch => batch
  | .pushing event _ rest => event :: rest

/-- Events that the thread has still to offer to a watcher. -/
def awaiting (watchId : Nat) : FanOut → List WatchEvent
  | .pushing event ids rest => if watchId ∈ ids then event :: rest else rest
  | fanOut => fanOut.held

/-- Watchers that the thread has still to tell to watch again. -/
def rewatchIds : FanOut → List Nat
  | .rewatching ids _ => ids
  | _ => []

end FanOut

namespace WatchSystem

variable (s : WatchSystem) (ch : WatcherChannel) (watchId : Nat)

/-- Events on their way to the channel of a watcher. -/
def pipeline : List WatchEvent :=
  s.producers.flatten ++ s.pendingQueue ++ s.fanOut.awaiting watchId

/-- The watcher has been told to watch again, or will be. -/
def Rewatch (ch : WatcherChannel) : Prop :=
  s.pendingOverflow ∨ watchId ∈ s.fanOut.rewatchIds ∨
    (ch.needReWatch ∧ ∃ x ∈ ch.queue, x.type = .rewatch) ∨ ∃ x ∈ ch.delivered, x.type = .rewatch

/-- An event is with the watcher or on its way to it, or the watcher starts again. -/
def Accounted (ch : WatcherChannel) (x : WatchEvent) : Prop :=
  x ∈ ch.delivered ∨ x ∈ s.pipeline watchId ∨ x ∈ ch.queue ∨ s.Rewatch watchId ch

/-! ## Well-formed states -/

/-- What is in the queue, the batch and the hands of a watcher. -/
structure Contents (log : List WatchEvent) (ch : WatcherChannel) : Prop where
  events : ch.needReWatch = false → ∀ x ∈ ch.queue, x ∈ log
  rewatch : ch.needReWatch = true →
    (∀ x ∈ ch.queue, x.type = .rewatch) ∧ ∃ x ∈ ch.queue, x.type = .rewatch
  batch : ∀ b, ch.phase = .sending b → b.needReWatch = false → ∀ x ∈ b.events, x ∈ log
  rewatchBatch : ∀ b, ch.phase = .sending b → b.needReWatch = true →
    (∀ x ∈ b.events, x.type = .rewatch) ∧ ∃ x ∈ b.events, x.type = .rewatch
  delivered : ∀ x ∈ ch.delivered, x.type ≠ .rewatch → x ∈ log

/-- A channel with all it owes to its watcher. -/
structure ChannelOk (s : WatchSystem) (watchId : Nat) (ch : WatcherChannel) : Prop where
  contents : Contents s.log ch
  snapshot : 0 < ch.snapshotRevision → ch.addedAt ≤ ch.snapshotRevision
  accounted : ∀ entry, s.registry.watchers.find? watchId = some entry → ∀ x ∈ s.log,
    inRange entry.key entry.rangeEnd x.entry.key → ch.addedAt < x.revision →
      ch.snapshotRevision < x.revision → s.Accounted watchId ch x
  initial : ∀ entry, s.registry.watchers.find? watchId = some entry → ∀ kvs,
    ch.initial = some kvs →
      Snapshot s.store s.log entry.key entry.rangeEnd ch.snapshotRevision kvs

/-- A call of `WatchRange` under way. -/
structure CallOk (s : WatchSystem) (call : Registration) : Prop where
  id : call.watchId < s.registry.nextWatchId
  scope : ∀ entry, s.registry.watchers.find? call.watchId = some entry →
    entry.key = call.key ∧ entry.rangeEnd = call.rangeEnd
  snapshot : ∀ revision kvs, call.phase = .setSnapshot revision kvs → call.skipInitialKvs = false →
    Snapshot s.store s.log call.key call.rangeEnd revision kvs

structure WellFormed (s : WatchSystem) : Prop where
  recorded : Recorded s.store s.log
  producers : ∀ x ∈ s.producers.flatten, x ∈ s.log
  pending : ∀ x ∈ s.pendingQueue, x ∈ s.log
  held : ∀ x ∈ s.fanOut.held, x ∈ s.log
  watchers : ∀ w entry, s.registry.watchers.find? w = some entry → w < s.registry.nextWatchId
  channelIds : ∀ w ch, s.channels.find? w = some ch → w < s.registry.nextWatchId
  calls : ∀ call ∈ s.registrations, CallOk s call
  channels : ∀ w ch, s.channels.find? w = some ch → ChannelOk s w ch

/-- A trim takes only events that were sent, and a snapshot revision does not go back, neither
behind the one that was set nor behind the revision at which the channel was added. -/
def sound : WatchAction → Bool
  | .notified watchId .ok =>
    (s.channels.find? watchId).all fun ch => match ch.phase with
      | .sending batch => batch.needReWatch || (ch.trimmed batch).all fun x => x ∈ batch.events
      | _ => true
  | .registration index =>
    s.registrations[index]?.all fun call => match call.phase with
      | .setSnapshot revision _ =>
        (s.channels.find? call.watchId).all fun ch =>
          decide (ch.snapshotRevision ≤ revision) && decide (ch.addedAt ≤ revision)
      | _ => true
  | _ => true

theorem wellFormed_init : WellFormed {} where
  recorded := recorded_init
  producers _ h := absurd h not_mem_nil
  pending _ h := absurd h not_mem_nil
  held _ h := absurd h not_mem_nil
  watchers _ _ h := nomatch h
  channelIds _ _ h := nomatch h
  calls _ h := absurd h not_mem_nil
  channels _ _ h := nomatch h

section

variable {s s' : WatchSystem} {watchId : Nat} {ch : WatcherChannel} {x : WatchEvent}

/-- What a channel keeps when only its queue changes, while events move and watchers go. -/
theorem ChannelOk.requeue {ch'} (h : ChannelOk s watchId ch) (hstore : s'.store = s.store)
    (hlog : s'.log = s.log)
    (hregistry : ∀ {entry}, s'.registry.watchers.find? watchId = some entry →
      s.registry.watchers.find? watchId = some entry) (hcontents : Contents s.log ch')
    (hsame : ch'.addedAt = ch.addedAt ∧ ch'.snapshotRevision = ch.snapshotRevision ∧
      ch'.initial = ch.initial)
    (hmove : ∀ entry x, s.registry.watchers.find? watchId = some entry →
      inRange entry.key entry.rangeEnd x.entry.key → ch.snapshotRevision < x.revision →
        s.Accounted watchId ch x → s'.Accounted watchId ch' x) : ChannelOk s' watchId ch' := by
  obtain ⟨hadded, hsnapshot, hinitial⟩ := hsame
  refine ⟨hlog ▸ hcontents, ?_, fun entry hentry x hx hin hold hnew => ?_,
    fun entry hentry kvs hkvs => ?_⟩
  · rw [hsnapshot, hadded]
    exact h.snapshot
  · rw [hadded] at hold
    rw [hsnapshot] at hnew
    exact hmove entry x (hregistry hentry) hin hnew
      (h.accounted entry (hregistry hentry) x (hlog ▸ hx) hin hold hnew)
  · rw [hinitial] at hkvs
    rw [hstore, hlog, hsnapshot]
    exact h.initial entry (hregistry hentry) kvs hkvs

theorem ChannelOk.frame (h : ChannelOk s watchId ch) (hstore : s'.store = s.store)
    (hlog : s'.log = s.log)
    (hregistry : ∀ {entry}, s'.registry.watchers.find? watchId = some entry →
      s.registry.watchers.find? watchId = some entry)
    (hmove : ∀ entry x, s.registry.watchers.find? watchId = some entry →
      inRange entry.key entry.rangeEnd x.entry.key → s.Accounted watchId ch x →
        s'.Accounted watchId ch x) : ChannelOk s' watchId ch :=
  h.requeue hstore hlog hregistry h.contents ⟨rfl, rfl, rfl⟩ fun entry x hentry hin _ =>
    hmove entry x hentry hin

theorem Accounted.move (h : s.Accounted watchId ch x)
    (hpipe : x ∈ s.pipeline watchId → s'.Accounted watchId ch x)
    (hflag : s.pendingOverflow → s'.Rewatch watchId ch)
    (hids : watchId ∈ s.fanOut.rewatchIds → s'.Rewatch watchId ch) :
    s'.Accounted watchId ch x := by
  rcases h with h | h | h | h | h | h
  · exact .inl h
  · exact hpipe h
  · exact .inr (.inr (.inl h))
  · exact .inr (.inr (.inr (hflag h)))
  · exact .inr (.inr (.inr (hids h)))
  · exact .inr (.inr (.inr (.inr (.inr h))))

/-- Events move along while nobody is on the list to be told to watch again. -/
theorem Accounted.pipe (h : s.Accounted watchId ch x) (hnone : s.fanOut.rewatchIds = [])
    (hflag : s'.pendingOverflow = s.pendingOverflow)
    (hpipe : x ∈ s.pipeline watchId → x ∈ s'.pipeline watchId) : s'.Accounted watchId ch x := by
  refine h.move (fun hx => .inr (.inl (hpipe hx))) (fun hf => .inl (hflag ▸ hf)) fun hid => ?_
  rw [hnone] at hid
  exact absurd hid not_mem_nil

variable {call : Registration} {event : WatchEvent} {rest : List WatchEvent} {r : WatchRegistry}
  {entry : WatcherEntry}

theorem CallOk.frame (h : CallOk s call) (hstore : s'.store = s.store)
    (hlog : s'.log = s.log) (hnext : s.registry.nextWatchId ≤ s'.registry.nextWatchId)
    (hregistry : ∀ {entry}, s'.registry.watchers.find? call.watchId = some entry →
      s.registry.watchers.find? call.watchId = some entry) : CallOk s' call where
  id := lt_of_lt_of_le h.id hnext
  scope entry hentry := h.scope entry (hregistry hentry)
  snapshot := by
    rw [hstore, hlog]
    exact h.snapshot

/-! ## Mutations -/

theorem WellFormed.mutate (h : WellFormed s) {store} {events}
    (hm : (store = s.store ∧ events = []) ∨ Mutation s.store store events) :
    WellFormed (s.mutate store events) := by
  have hrecorded : Recorded store (s.log ++ events) := by
    rcases hm with ⟨rfl, rfl⟩ | hm
    · rw [append_nil]
      exact h.recorded
    · exact h.recorded.mutate hm
  have hsnapshot : ∀ {key rangeEnd revision kvs}, Snapshot s.store s.log key rangeEnd revision kvs →
      Snapshot store (s.log ++ events) key rangeEnd revision kvs := by
    intro key rangeEnd revision kvs hs
    rcases hm with ⟨rfl, rfl⟩ | hm
    · rw [append_nil]
      exact hs
    · exact hs.mutate hm
  have hpipe : ∀ w x, x ∈ s.pipeline w ∨ x ∈ events → x ∈ (s.mutate store events).pipeline w := by
    intro w x hx
    simp only [pipeline, WatchSystem.mutate, List.flatten_append, mem_append] at hx ⊢
    simp only [flatten_cons, List.flatten_nil, append_nil]
    tauto
  constructor
  · exact hrecorded
  · intro x hx
    simp only [WatchSystem.mutate, List.flatten_append, mem_append, flatten_cons,
      List.flatten_nil, append_nil] at hx ⊢
    exact hx.imp_left (h.producers x)
  · exact fun x hx => mem_append_left _ (h.pending x hx)
  · exact fun x hx => mem_append_left _ (h.held x hx)
  · exact h.watchers
  · exact h.channelIds
  · intro call hcall
    have hc := h.calls call hcall
    exact ⟨hc.id, hc.scope, fun revision kvs hphase hskip =>
      hsnapshot (hc.snapshot revision kvs hphase hskip)⟩
  · intro w ch hch
    have hok := h.channels w ch hch
    have hc := hok.contents
    refine ⟨⟨?_, hc.rewatch, ?_, hc.rewatchBatch, ?_⟩, hok.snapshot, ?_, ?_⟩
    · exact fun hne x hx => mem_append_left _ (hc.events hne x hx)
    · exact fun b hb hne x hx => mem_append_left _ (hc.batch b hb hne x hx)
    · exact fun x hx hne => mem_append_left _ (hc.delivered x hx hne)
    · intro entry hentry x hx hin hadded hnew
      rcases mem_append.mp hx with hx | hx
      · exact (hok.accounted entry hentry x hx hin hadded hnew).move
          (fun hx => .inr (.inl (hpipe w x (.inl hx)))) .inl fun hid => .inr (.inl hid)
      · exact .inr (.inl (hpipe w x (.inr hx)))
    · exact fun entry hentry kvs hkvs => hsnapshot (hok.initial entry hentry kvs hkvs)

/-! ## Enqueue -/

theorem mem_flatten_set {α : Type} {lists : List (List α)} {i : Nat} {a : α} {rest : List α}
    (hget : lists[i]? = some (a :: rest)) {b : α} :
    b ∈ lists.flatten ↔ b = a ∨ b ∈ (lists.set i rest).flatten := by
  induction lists generalizing i with
  | nil => cases hget
  | cons l lists ih =>
    cases i with
    | zero =>
      cases hget
      simp only [flatten_cons, List.set_cons_zero, mem_append, mem_cons, or_assoc]
    | succ i =>
      simp only [flatten_cons, List.set_cons_succ, mem_append, ih hget]
      tauto

theorem WellFormed.enqueue (h : WellFormed s) {producer : Nat}
    (hget : s.producers[producer]? = some (event :: rest)) :
    WellFormed ({ s with producers := s.producers.set producer rest }.enqueue event) := by
  have hsplit : ∀ x, x ∈ s.producers.flatten ↔
      x = event ∨ x ∈ (s.producers.set producer rest).flatten := fun x => mem_flatten_set hget
  have hevent : event ∈ s.log := h.producers event ((hsplit event).mpr (.inl rfl))
  have hrest : ∀ x ∈ (s.producers.set producer rest).flatten, x ∈ s.log :=
    fun x hx => h.producers x ((hsplit x).mpr (.inr hx))
  unfold WatchSystem.enqueue
  split
  · refine ⟨h.recorded, hrest, h.pending, h.held, h.watchers, h.channelIds, ?_, fun w ch hch => ?_⟩
    · exact fun call hcall => (h.calls call hcall).frame rfl rfl (le_refl _) id
    · refine (h.channels w ch hch).frame rfl rfl id fun entry x _ _ _ => ?_
      exact .inr (.inr (.inr (.inl rfl)))
  · refine ⟨h.recorded, hrest, fun x hx => ?_, h.held, h.watchers, h.channelIds, ?_,
      fun w ch hch => ?_⟩
    · rcases mem_append.mp hx with hx | hx
      · exact h.pending x hx
      · exact mem_singleton.mp hx ▸ hevent
    · exact fun call hcall => (h.calls call hcall).frame rfl rfl (le_refl _) id
    · refine (h.channels w ch hch).frame rfl rfl id fun entry x _ _ haccepted => ?_
      refine haccepted.move (fun hx => .inr (.inl ?_)) .inl fun hid => .inr (.inl hid)
      simp only [pipeline, mem_append, hsplit, mem_singleton] at hx ⊢
      tauto

/-! ## Fan-out -/

/-- Events move and channels change; the store, the registry and the calls stay. -/
theorem WellFormed.move (h : WellFormed s) {channels} {pending} {overflow} {fanOut}
    (hpending : ∀ x ∈ pending, x ∈ s.log) (hheld : ∀ x ∈ fanOut.held, x ∈ s.log)
    (hchannels : ∀ w ch', channels.find? w = some ch' → ∃ ch, s.channels.find? w = some ch ∧
      (ChannelOk s w ch → ChannelOk { s with
        channels := channels, pendingQueue := pending, pendingOverflow := overflow
        fanOut := fanOut } w ch')) :
    WellFormed { s with
      channels := channels, pendingQueue := pending, pendingOverflow := overflow
      fanOut := fanOut } where
  recorded := h.recorded
  producers := h.producers
  pending := hpending
  held := hheld
  watchers := h.watchers
  channelIds w ch' hch' := by
    obtain ⟨ch, hch, -⟩ := hchannels w ch' hch'
    exact h.channelIds w ch hch
  calls call hcall := (h.calls call hcall).frame rfl rfl (le_refl _) id
  channels w ch' hch' := by
    obtain ⟨ch, hch, hok⟩ := hchannels w ch' hch'
    exact hok (h.channels w ch hch)

variable {f : WatcherChannel → WatcherChannel}

theorem find_modify {channels : OrderedMap Nat WatcherChannel} {w w' : Nat} {ch' : WatcherChannel}
    (h : (channels.modify w f).find? w' = some ch') :
    (w' = w ∧ ∃ ch, channels.find? w = some ch ∧ f ch = ch') ∨
      (w' ≠ w ∧ channels.find? w' = some ch') := by
  rw [find?_modify] at h
  split at h
  · rename_i hw
    exact .inl ⟨hw, Option.map_eq_some_iff.mp h⟩
  · rename_i hw
    exact .inr ⟨hw, h⟩

/-- A queue that was replaced by the rewatch. -/
theorem Contents.rewatched {log} (h : Contents log ch) (revision) : Contents log { ch with
      queue := [makeRewatchEvent revision], needReWatch := true, dispatchQueued := true } :=
  ⟨fun hr => (nomatch hr), fun _ => by simp [makeRewatchEvent], h.batch, h.rewatchBatch,
    h.delivered⟩

theorem Contents.offer {log} (h : Contents log ch)
    (hevent : event ∈ log) : Contents log (ch.offer event) := by
  unfold WatcherChannel.offer
  split
  · exact h
  · rename_i hne
    have hne : ch.needReWatch = false := by simpa using hne
    split
    · refine ⟨fun _ x hx => ?_, fun hr => ?_, h.batch, h.rewatchBatch, h.delivered⟩
      · rcases mem_append.mp hx with hx | hx
        · exact h.events hne x hx
        · exact mem_singleton.mp hx ▸ hevent
      · rw [hne] at hr
        cases hr
    · exact h.rewatched _

theorem Contents.scheduleRewatch {log} (h : Contents log ch) : Contents log ch.scheduleRewatch := by
  unfold WatcherChannel.scheduleRewatch
  split
  · exact h
  · exact h.rewatched _

theorem Contents.rewatch_of (h : Contents s.log ch) (hr : ch.needReWatch = true) :
    s'.Rewatch watchId ch :=
  .inr (.inr (.inl ⟨hr, (h.rewatch hr).2⟩))

/-- An event that was offered to a channel, or one that was there. -/
theorem accounted_offer (h : Contents s.log ch)
    (hpipe : x ∈ s.pipeline watchId → x = event ∨ x ∈ s'.pipeline watchId)
    (hflag : s.pendingOverflow → s'.pendingOverflow)
    (hids : watchId ∈ s.fanOut.rewatchIds → watchId ∈ s'.fanOut.rewatchIds)
    (haccounted : s.Accounted watchId ch x) : s'.Accounted watchId (ch.offer event) x := by
  unfold offer
  split
  · rename_i hr
    exact .inr (.inr (.inr (h.rewatch_of hr)))
  · rename_i hne
    split
    · rcases haccounted with hx | hx | hx | hx | hx | ⟨hr, -⟩ | hx
      · exact .inl hx
      · rcases hpipe hx with rfl | hx
        · exact .inr (.inr (.inl (mem_append_right _ mem_cons_self)))
        · exact .inr (.inl hx)
      · exact .inr (.inr (.inl (mem_append_left _ hx)))
      · exact .inr (.inr (.inr (.inl (hflag hx))))
      · exact .inr (.inr (.inr (.inr (.inl (hids hx)))))
      · exact absurd hr hne
      · exact .inr (.inr (.inr (.inr (.inr (.inr hx)))))
    · exact .inr (.inr (.inr (.inr (.inr (.inl ⟨rfl, _, mem_cons_self, rfl⟩)))))

theorem accounted_scheduleRewatch (h : Contents s.log ch) :
    s'.Accounted watchId ch.scheduleRewatch x := by
  refine .inr (.inr (.inr ?_))
  unfold scheduleRewatch
  split
  · rename_i hr
    exact h.rewatch_of hr
  · exact .inr (.inr (.inl ⟨rfl, _, mem_cons_self, rfl⟩))

theorem offer_fields (event : WatchEvent) (ch : WatcherChannel) :
    (ch.offer event).addedAt = ch.addedAt ∧
      (ch.offer event).snapshotRevision = ch.snapshotRevision ∧
      (ch.offer event).initial = ch.initial := by
  unfold offer
  split
  · exact ⟨rfl, rfl, rfl⟩
  · split <;> exact ⟨rfl, rfl, rfl⟩

theorem scheduleRewatch_fields (ch : WatcherChannel) : ch.scheduleRewatch.addedAt = ch.addedAt ∧
      ch.scheduleRewatch.snapshotRevision = ch.snapshotRevision ∧
      ch.scheduleRewatch.initial = ch.initial := by
  unfold scheduleRewatch
  split <;> exact ⟨rfl, rfl, rfl⟩

theorem WellFormed.fanOut (h : WellFormed s) {fanOut} {overflow}
    {pending} (hpending : ∀ x ∈ pending, x ∈ s.log) (hheld : ∀ x ∈ fanOut.held, x ∈ s.log)
    (hmove : ∀ w ch, s.channels.find? w = some ch → ∀ entry x,
      s.registry.watchers.find? w = some entry → inRange entry.key entry.rangeEnd x.entry.key →
        s.Accounted w ch x → Accounted { s with
          fanOut := fanOut, pendingOverflow := overflow, pendingQueue := pending } w ch x) :
    WellFormed { s with fanOut := fanOut, pendingOverflow := overflow, pendingQueue := pending } :=
  h.move hpending hheld fun w ch hch =>
    ⟨ch, hch, fun hok => hok.frame rfl rfl id (hmove w ch hch)⟩

/-- The thread goes on with what it holds, and nobody is on its list. -/
theorem WellFormed.passOn (h : WellFormed s) {held fanOut} (hf : s.fanOut = held)
    (hnone : held.rewatchIds = []) (hheld : ∀ x ∈ fanOut.held, x ∈ held.held)
    (hawait : ∀ w, held.awaiting w = fanOut.awaiting w) :
    WellFormed { s with fanOut := fanOut } := by
  subst hf
  refine h.fanOut h.pending (fun x hx => h.held x (hheld x hx)) fun w ch _ _ x _ _ haccepted => ?_
  refine haccepted.pipe hnone rfl fun hx => ?_
  rw [pipeline, hawait] at hx
  exact hx

theorem WellFormed.rewatchNext (h : WellFormed s) {watchId : Nat} {rest : List Nat}
    {batch : List WatchEvent} (hf : s.fanOut = .rewatching (watchId :: rest) batch) :
    WellFormed { s.modifyChannel watchId .scheduleRewatch with
      fanOut := .rewatching rest batch } := by
  refine h.move h.pending (fun x hx => h.held x (by rw [hf]; exact hx)) ?_
  intro w ch' hch'
  rcases find_modify hch' with ⟨rfl, ch, hch, rfl⟩ | ⟨hne, hch⟩
  · exact ⟨ch, hch, fun hok => hok.requeue rfl rfl id hok.contents.scheduleRewatch
      (scheduleRewatch_fields ch) fun _ _ _ _ _ _ => accounted_scheduleRewatch hok.contents⟩
  · refine ⟨ch', hch, fun hok => hok.frame rfl rfl id fun entry x _ _ haccounted => ?_⟩
    refine haccounted.move (fun hx => .inr (.inl ?_)) .inl fun hid => .inr (.inl ?_)
    · rw [pipeline, hf] at hx
      exact hx
    · rw [hf] at hid
      exact (mem_cons.mp hid).resolve_left hne

/-- A registered watcher of the key is among those that the event is matched with. -/
theorem WellFormed.matchNext (h : WellFormed s) (hf : s.fanOut = .matching (event :: rest)) :
    WellFormed { s with
      fanOut := .pushing event (s.registry.matchWatchers event.entry.key) rest } := by
  refine h.fanOut h.pending (fun x hx => h.held x (by rw [hf]; exact hx)) ?_
  intro w ch hch entry x hentry hin haccepted
  refine haccepted.pipe (by rw [hf]; rfl) rfl fun hx => ?_
  rw [pipeline, hf] at hx
  rcases mem_append.mp hx with hx | hx
  · exact mem_append_left _ hx
  · refine mem_append_right _ ?_
    dsimp only [FanOut.awaiting, FanOut.held] at hx ⊢
    rcases mem_cons.mp hx with rfl | hx
    · rw [if_pos]
      · exact mem_cons_self
      · exact mem_map.mpr ⟨(_, entry), List.mem_filter.mpr ⟨mem_entries_iff.mpr hentry, hin⟩, rfl⟩
    · split
      · exact mem_cons_of_mem _ hx
      · exact hx

theorem WellFormed.pushNext (h : WellFormed s) {watchId : Nat} {ids : List Nat}
    (hf : s.fanOut = .pushing event (watchId :: ids) rest) :
    WellFormed { s.modifyChannel watchId (.offer event) with
      fanOut := .pushing event ids rest } := by
  have hheld : ∀ x ∈ event :: rest, x ∈ s.log := fun x hx => h.held x (by rw [hf]; exact hx)
  have hnone : s.fanOut.rewatchIds = [] := by
    rw [hf]
    rfl
  refine h.move h.pending hheld ?_
  intro w ch' hch'
  rcases find_modify hch' with ⟨rfl, ch, hch, rfl⟩ | ⟨hne, hch⟩
  · refine ⟨ch, hch, fun hok => hok.requeue rfl rfl id
      (hok.contents.offer (hheld event mem_cons_self)) (offer_fields event ch)
      fun _ _ _ _ _ haccounted => accounted_offer hok.contents (fun hx => ?_) id (fun hid => ?_)
        haccounted⟩
    · rw [pipeline, hf] at hx
      rcases mem_append.mp hx with hx | hx
      · exact .inr (mem_append_left _ hx)
      · dsimp only [FanOut.awaiting] at hx
        rw [if_pos mem_cons_self] at hx
        refine (mem_cons.mp hx).imp_right fun hx => mem_append_right _ ?_
        dsimp only [FanOut.awaiting]
        split
        · exact mem_cons_of_mem _ hx
        · exact hx
    · rw [hnone] at hid
      exact absurd hid not_mem_nil
  · refine ⟨ch', hch, fun hok => hok.frame rfl rfl id fun entry x _ _ haccounted => ?_⟩
    refine haccounted.pipe hnone rfl fun hx => ?_
    rw [pipeline, hf] at hx
    simp only [FanOut.awaiting, mem_cons, or_iff_right hne] at hx
    exact hx

theorem WellFormed.fanOutStep (h : WellFormed s) : WellFormed s.fanOutStep := by
  unfold WatchSystem.fanOutStep
  split
  · rename_i hf
    refine h.fanOut (fun x hx => h.pending x (List.mem_of_mem_drop hx))
      (fun x hx => h.pending x (List.mem_of_mem_take hx)) ?_
    intro w ch _ entry x _ _ haccepted
    refine haccepted.pipe (by rw [hf]; rfl) rfl fun hx => ?_
    have hsplit := List.take_append_drop maxWatchEventsPerFanOut s.pendingQueue
    rw [pipeline, hf, ← hsplit] at hx
    simp only [pipeline, FanOut.awaiting, FanOut.held, mem_append, append_nil] at hx ⊢
    tauto
  · rename_i hf
    split
    · -- every channel is on the list
      refine h.fanOut h.pending (fun x hx => h.held x (by rw [hf]; exact hx)) ?_
      intro w ch hch entry x _ _ _
      refine .inr (.inr (.inr (.inr (.inl ?_))))
      exact mem_map.mpr ⟨(w, ch), mem_entries_iff.mpr hch, rfl⟩
    · exact h.passOn hf rfl (fun _ hx => hx) fun _ => rfl
  · rename_i hf
    exact h.passOn hf rfl (fun _ hx => hx) fun _ => rfl
  · rename_i hf
    exact h.rewatchNext hf
  · rename_i hf
    exact h.passOn hf rfl (fun _ hx => hx) fun _ => rfl
  · rename_i hf
    exact h.matchNext hf
  · rename_i hf
    exact h.passOn hf rfl (fun _ hx => mem_cons_of_mem _ hx) fun _ => rfl
  · rename_i hf
    exact h.pushNext hf

/-! ## Sends -/

theorem mem_fillBatch {bytes : Nat} {l} (h : x ∈ fillBatch bytes l) : x ∈ l := by
  induction l generalizing bytes with
  | nil => exact h
  | cons _ _ ih =>
    dsimp only [fillBatch] at h
    split at h
    · exact mem_singleton.mp h ▸ mem_cons_self
    · rcases mem_cons.mp h with rfl | h
      · exact mem_cons_self
      · exact mem_cons_of_mem _ (ih h)

theorem mem_dropWhile_or {p : WatchEvent → Bool} {l : List WatchEvent} (h : x ∈ l) :
    x ∈ l.takeWhile p ∨ x ∈ l.dropWhile p := by
  rw [← List.takeWhile_append_dropWhile (p := p) (l := l)] at h
  exact mem_append.mp h

/-- Only the queue and the phase of a channel change, the watcher may get more, and what leaves the
queue is old or with the watcher. -/
theorem WellFormed.dispatch (h : WellFormed s) (hch : s.channels.find? watchId = some ch)
    (hcontents : Contents s.log (f ch)) (hneed : (f ch).needReWatch = ch.needReWatch)
    (hsame : (f ch).addedAt = ch.addedAt ∧ (f ch).snapshotRevision = ch.snapshotRevision ∧
      (f ch).initial = ch.initial) (hdelivered : ∀ x ∈ ch.delivered, x ∈ (f ch).delivered)
    (hqueue : ∀ x ∈ ch.queue, x ∈ (f ch).queue ∨ x ∈ (f ch).delivered ∨
      x.revision ≤ ch.snapshotRevision) :
    WellFormed (s.modifyChannel watchId f) := by
  refine h.move h.pending h.held fun w ch' hch' => ?_
  rcases find_modify hch' with ⟨rfl, ch₀, hch₀, rfl⟩ | ⟨hne, hch'⟩
  · obtain rfl : ch₀ = ch := Option.some.inj (hch₀.symm.trans hch)
    refine ⟨ch₀, hch, fun hok => hok.requeue rfl rfl id hcontents hsame
      fun _ x _ _ hnew haccepted => ?_⟩
    rcases haccepted with hx | hx | hx | hx | hx | ⟨hr, -⟩ | ⟨y, hy, hr⟩
    · exact .inl (hdelivered x hx)
    · exact .inr (.inl hx)
    · rcases hqueue x hx with hx | hx | hx
      · exact .inr (.inr (.inl hx))
      · exact .inl hx
      · exact absurd hnew (not_lt.mpr hx)
    · exact .inr (.inr (.inr (.inl hx)))
    · exact .inr (.inr (.inr (.inr (.inl hx))))
    · rw [← hneed] at hr
      exact .inr (.inr (.inr (hcontents.rewatch_of hr)))
    · exact .inr (.inr (.inr (.inr (.inr (.inr ⟨y, hdelivered y hy, hr⟩)))))
  · exact ⟨ch', hch', fun hok => hok.frame rfl rfl id fun entry x _ _ haccepted =>
      haccepted.move (fun hx => .inr (.inl hx)) .inl fun hid => .inr (.inl hid)⟩

/-- What a dispatch thread can make of a channel: nothing, a batch with the rewatch, or a batch of
what is left behind the events that the snapshot has. -/
theorem prepare_cases (ch : WatcherChannel) :
    (∃ queued, ch.prepare = { ch with dispatchQueued := queued }) ∨
      (ch.needReWatch = true ∧ ∃ front ∈ ch.queue,
        ch.prepare = { ch with phase := .sending ⟨[front], true, 0⟩ }) ∨
      (ch.needReWatch = false ∧ ∃ phase queued, ch.prepare = { ch with
          queue := ch.queue.dropWhile fun e => e.revision ≤ ch.snapshotRevision
          phase := phase
          dispatchQueued := queued } ∧
        (phase = ch.phase ∨ ∃ events maxRevision, phase = .sending ⟨events, false, maxRevision⟩ ∧
          ∀ x ∈ events, x ∈ ch.queue)) := by
  unfold prepare
  split
  · exact .inl ⟨false, rfl⟩
  · rename_i front rest hq
    split
    · rename_i hr
      refine .inr (.inl ⟨hr, front, ?_, rfl⟩)
      rw [hq]
      exact mem_cons_self
    · rename_i hr
      have hr : ch.needReWatch = false := by simpa using hr
      split
      · exact .inl ⟨false, rfl⟩
      · dsimp only
        split
        · rename_i hnil
          refine .inr (.inr ⟨hr, ch.phase, false, ?_, .inl rfl⟩)
          rw [hnil]
        · refine .inr (.inr ⟨hr, _, ch.dispatchQueued, rfl, .inr ⟨_, _, rfl, fun x hx => ?_⟩⟩)
          exact (dropWhile_sublist _).mem (List.mem_of_mem_take (mem_fillBatch hx))

section

variable (h : WellFormed s) (hch : s.channels.find? watchId = some ch)

include h hch

theorem WellFormed.prepare : WellFormed (s.modifyChannel watchId .prepare) := by
  have hc := (h.channels watchId ch hch).contents
  rcases prepare_cases ch with ⟨queued, he⟩ | ⟨hr, front, hfront, he⟩ |
    ⟨hr, phase, queued, he, hphase⟩
  · refine h.dispatch hch ?_ ?_ (by rw [he]; exact ⟨rfl, rfl, rfl⟩) ?_ ?_ <;> rw [he]
    · exact ⟨hc.events, hc.rewatch, hc.batch, hc.rewatchBatch, hc.delivered⟩
    · exact fun x hx => hx
    · exact fun x hx => .inl hx
  · refine h.dispatch hch ?_ ?_ (by rw [he]; exact ⟨rfl, rfl, rfl⟩) ?_ ?_ <;> rw [he]
    · refine ⟨hc.events, hc.rewatch, fun b hb hne => ?_, fun b hb _ => ?_, hc.delivered⟩
      · cases hb
        cases hne
      · cases hb
        have htype := (hc.rewatch hr).1 front hfront
        exact ⟨fun x hx => mem_singleton.mp hx ▸ htype, front, mem_cons_self, htype⟩
    · exact fun x hx => hx
    · exact fun x hx => .inl hx
  · refine h.dispatch hch ?_ ?_ (by rw [he]; exact ⟨rfl, rfl, rfl⟩) ?_ ?_ <;> rw [he]
    · refine ⟨fun _ x hx => hc.events hr x ((dropWhile_sublist _).mem hx), fun hr' => ?_,
        fun b hb hne x hx => ?_, fun b hb hne => ?_, hc.delivered⟩
      · rw [hr] at hr'
        cases hr'
      · rcases hphase with rfl | ⟨events, maxRevision, rfl, hevents⟩
        · exact hc.batch b hb hne x hx
        · cases hb
          exact hc.events hr x (hevents x hx)
      · rcases hphase with rfl | ⟨events, maxRevision, rfl, hevents⟩
        · exact hc.rewatchBatch b hb hne
        · cases hb
          cases hne
    · exact fun x hx => hx
    · intro x hx
      rcases mem_dropWhile_or (p := fun e => e.revision ≤ ch.snapshotRevision) hx with hold | hx
      · have hle := List.mem_takeWhile_imp hold
        exact .inr (.inr (of_decide_eq_true hle))
      · exact .inl hx

theorem WellFormed.notified_phase {phase} (hphase : ∀ b, phase ≠ .sending b) :
    WellFormed (s.modifyChannel watchId fun ch => { ch with phase := phase }) := by
  have hc := (h.channels watchId ch hch).contents
  refine h.dispatch hch ?_ rfl ⟨rfl, rfl, rfl⟩ (fun x hx => hx) fun x hx => .inl hx
  exact ⟨hc.events, hc.rewatch, fun b hb => absurd hb (hphase b), fun b hb => absurd hb (hphase b),
    hc.delivered⟩

theorem WellFormed.notified_rewatch
    {batch} (hphase : ch.phase = .sending batch) (hr : batch.needReWatch = true) :
    WellFormed (s.modifyChannel watchId (·.notified batch .ok)) := by
  have hc := (h.channels watchId ch hch).contents
  have he : ch.notified batch .ok =
      { ch with phase := .closing, delivered := ch.delivered ++ batch.events } := if_pos hr
  refine h.dispatch hch ?_ ?_ (by rw [he]; exact ⟨rfl, rfl, rfl⟩) ?_ ?_ <;> rw [he]
  · refine ⟨hc.events, hc.rewatch, fun b hb => (nomatch hb), fun b hb => (nomatch hb),
      fun x hx hne => ?_⟩
    rcases mem_append.mp hx with hx | hx
    · exact hc.delivered x hx hne
    · exact absurd ((hc.rewatchBatch batch hphase hr).1 x hx) hne
  · exact fun x hx => mem_append_left _ hx
  · exact fun x hx => .inl hx

/-- A send of events whose trim takes only what was sent: a rewatch that came meanwhile stays. -/
theorem WellFormed.notified_events
    {batch : Batch} (hphase : ch.phase = .sending batch) (hr : batch.needReWatch = false)
    (hsent : ∀ x ∈ ch.trimmed batch, x ∈ batch.events) :
    WellFormed (s.modifyChannel watchId (·.notified batch .ok)) := by
  have hc := (h.channels watchId ch hch).contents
  have hlog := hc.batch batch hphase hr
  have he : ch.notified batch .ok = { ch with
      queue := ch.queue.dropWhile fun e => e.revision ≤ batch.maxEventRevision
      phase := .idle
      dispatchQueued := ch.dispatchQueued &&
        !(ch.queue.dropWhile fun e => e.revision ≤ batch.maxEventRevision).isEmpty
      delivered := ch.delivered ++ batch.events } := if_neg (by rw [hr]; decide)
  refine h.dispatch hch ?_ ?_ (by rw [he]; exact ⟨rfl, rfl, rfl⟩) ?_ ?_ <;> rw [he]
  · refine ⟨fun hne x hx => hc.events hne x ((dropWhile_sublist _).mem hx), fun hr' => ?_,
      fun b hb => (nomatch hb), fun b hb => (nomatch hb), fun x hx hne => ?_⟩
    · obtain ⟨hall, y, hy, hrewatch⟩ := hc.rewatch hr'
      refine ⟨fun x hx => hall x ((dropWhile_sublist _).mem hx), ?_⟩
      rcases mem_dropWhile_or (p := fun e => e.revision ≤ batch.maxEventRevision) hy with hy | hy
      · -- no rewatch is in the log
        rcases h.recorded.mutation y (hlog y (hsent y hy)) with hput | hdel
        · rw [hput] at hrewatch
          cases hrewatch
        · rw [hdel] at hrewatch
          cases hrewatch
      · exact ⟨y, hy, hrewatch⟩
    · rcases mem_append.mp hx with hx | hx
      · exact hc.delivered x hx hne
      · exact hlog x hx
  · exact fun x hx => mem_append_left _ hx
  · intro x hx
    rcases mem_dropWhile_or (p := fun e => e.revision ≤ batch.maxEventRevision) hx with hx | hx
    · exact .inr (.inl (mem_append_right _ (hsent x hx)))
    · exact .inl hx

end

/-! ## Registrations and cancellations -/

theorem WellFormed.recall (h : WellFormed s) {calls}
    (hcalls : ∀ call ∈ calls, CallOk s call) : WellFormed { s with registrations := calls } where
  recorded := h.recorded
  producers := h.producers
  pending := h.pending
  held := h.held
  watchers := h.watchers
  channelIds := h.channelIds
  calls call hcall := (hcalls call hcall).frame rfl rfl (le_refl _) id
  channels w ch hch := (h.channels w ch hch).frame rfl rfl id fun _ _ _ _ haccepted => haccepted

theorem registered_find {registrationId} {old}
    (h : r.registered registrationId = some (watchId, old)) :
    r.watchers.find? watchId = some old := by
  unfold WatchRegistry.registered at h
  split at h
  · cases h
  · exact mem_entries_iff.mp (List.mem_of_find?_eq_some h)

theorem register_cases {r'} {created} (h : r.register entry = .ok (watchId, created, r')) :
    (created = false ∧ r' = r ∧ ∃ old, r.watchers.find? watchId = some old ∧
      old.key = entry.key ∧ old.rangeEnd = entry.rangeEnd) ∨
      (created = true ∧ watchId = r.nextWatchId ∧
        r' = ⟨r.watchers.insert r.nextWatchId entry, r.nextWatchId + 1⟩) := by
  unfold WatchRegistry.register at h
  split at h
  · rename_i id old hold
    obtain ⟨_, -, h⟩ := bind_eq_ok.mp h
    obtain ⟨hscope, h⟩ := check_bind_eq_ok.mp h
    cases h
    exact .inl ⟨rfl, rfl, old, registered_find hold, hscope⟩
  · cases h
    exact .inr ⟨rfl, rfl, rfl⟩

/-- A new watcher gets an ID that no channel and no call has. -/
theorem WellFormed.newWatcher (h : WellFormed s) (entry) : WellFormed { s with registry :=
      ⟨s.registry.watchers.insert s.registry.nextWatchId entry, s.registry.nextWatchId + 1⟩ } := by
  have hold : ∀ {w e}, w < s.registry.nextWatchId →
      (s.registry.watchers.insert s.registry.nextWatchId entry).find? w = some e →
        s.registry.watchers.find? w = some e := by
    intro w e hlt he
    rwa [find?_insert, if_neg hlt.ne] at he
  refine ⟨h.recorded, h.producers, h.pending, h.held, fun w e he => ?_, fun w ch hch => ?_,
    fun call hcall => ?_, fun w ch hch => ?_⟩
  · rw [find?_insert] at he
    split at he
    · rename_i hw
      rw [hw]
      exact Nat.lt_succ_self _
    · exact Nat.lt_succ_of_lt (h.watchers w e he)
  · exact Nat.lt_succ_of_lt (h.channelIds w ch hch)
  · have hc := h.calls call hcall
    exact hc.frame rfl rfl (Nat.le_succ _) fun he => hold hc.id he
  · exact (h.channels w ch hch).frame rfl rfl (fun he => hold (h.channelIds w ch hch) he)
      fun _ _ _ _ haccepted => haccepted

theorem WellFormed.watchRange (h : WellFormed s) {skip}
    (hs : s.watchRange entry skip = some s') : WellFormed s' := by
  obtain ⟨⟨_, _, _⟩, hregister, rfl⟩ := toOption_map_eq_some.mp hs
  rcases register_cases hregister with ⟨rfl, rfl, old, hold, hscope⟩ | ⟨rfl, rfl, rfl⟩
  · refine h.recall fun call hcall => ?_
    rcases mem_append.mp hcall with hcall | hcall
    · exact h.calls call hcall
    · obtain rfl := mem_singleton.mp hcall
      refine ⟨h.watchers _ old hold, fun e he => ?_, fun _ _ hphase => (nomatch hphase)⟩
      obtain rfl := Option.some.inj (hold.symm.trans he)
      exact hscope
  · have hnew := h.newWatcher entry
    refine hnew.recall fun call hcall => ?_
    rcases mem_append.mp hcall with hcall | hcall
    · exact hnew.calls call hcall
    · obtain rfl := mem_singleton.mp hcall
      refine ⟨Nat.lt_succ_self _, fun e he => ?_, fun _ _ hphase => (nomatch hphase)⟩
      rw [find?_insert, if_pos rfl] at he
      cases he
      exact ⟨rfl, rfl⟩

/-- A new channel owes nothing of what is in the log. -/
theorem WellFormed.addChannel (h : WellFormed s) (hid : watchId < s.registry.nextWatchId) :
    WellFormed { s with
      channels := s.channels.insert watchId { addedAt := s.store.revision } } := by
  refine ⟨h.recorded, h.producers, h.pending, h.held, h.watchers, fun w ch hch => ?_,
    fun call hcall => (h.calls call hcall).frame rfl rfl (le_refl _) id,
    fun w ch hch => ?_⟩
  · rw [find?_insert] at hch
    split at hch
    · rename_i hw
      exact hw ▸ hid
    · exact h.channelIds w ch hch
  · rw [find?_insert] at hch
    split at hch
    · cases hch
      refine ⟨⟨fun _ x hx => absurd hx not_mem_nil, fun hr => (nomatch hr),
        fun b hb => (nomatch hb), fun b hb => (nomatch hb), fun x hx => absurd hx not_mem_nil⟩,
        fun hpos => absurd hpos (lt_irrefl _), fun _ _ x hx _ hadded => ?_,
        fun _ _ kvs hkvs => (nomatch hkvs)⟩
      exact absurd (h.recorded.revision x hx) (not_le.mpr hadded)
    · exact (h.channels w ch hch).frame rfl rfl id fun _ _ _ _ haccepted => haccepted

theorem WellFormed.setSnapshot (h : WellFormed s) (hcall : CallOk s call)
    {revision : Nat} {kvs : List KeyValueEntry} (hphase : call.phase = .setSnapshot revision kvs)
    (hsound : ∀ ch, s.channels.find? call.watchId = some ch →
      ch.snapshotRevision ≤ revision ∧ ch.addedAt ≤ revision) :
    WellFormed (s.modifyChannel call.watchId
      (.setSnapshotRevision revision (if call.skipInitialKvs then none else some kvs))) := by
  refine h.move h.pending h.held fun w ch' hch' => ?_
  rcases find_modify hch' with ⟨rfl, ch, hch, rfl⟩ | ⟨hne, hch'⟩
  · refine ⟨ch, hch, fun hok => ?_⟩
    obtain ⟨hle, hadded⟩ := hsound ch hch
    have hc := hok.contents
    refine ⟨⟨hc.events, hc.rewatch, hc.batch, hc.rewatchBatch, hc.delivered⟩, fun _ => hadded,
      fun entry hentry x hx hin hold hnew => ?_, fun entry hentry kvs' hkvs => ?_⟩
    · have haccounted := hok.accounted entry hentry x hx hin hold (lt_of_le_of_lt hle hnew)
      exact haccounted
    · split at hkvs
      · cases hkvs
      · rename_i hskip
        cases hkvs
        obtain ⟨hkey, hend⟩ := hcall.scope entry hentry
        rw [hkey, hend]
        exact hcall.snapshot revision kvs hphase (by simpa using hskip)
  · exact ⟨ch', hch', fun hok => hok.frame rfl rfl id fun _ _ _ _ haccounted => haccounted⟩

theorem WellFormed.registrationStep (h : WellFormed s) {index : Nat}
    (hget : s.registrations[index]? = some call)
    (hsound : ∀ revision kvs, call.phase = .setSnapshot revision kvs → ∀ ch,
      s.channels.find? call.watchId = some ch →
        ch.snapshotRevision ≤ revision ∧ ch.addedAt ≤ revision) :
    WellFormed (s.registrationStep index call) := by
  have hcall := h.calls call (List.mem_of_getElem? hget)
  unfold WatchSystem.registrationStep
  split
  · have hadd := h.addChannel hcall.id
    refine hadd.recall fun c hc => ?_
    rcases List.mem_or_eq_of_mem_set hc with hc | rfl
    · exact hadd.calls c hc
    · exact ⟨hcall.id, hcall.scope, fun _ _ hphase => (nomatch hphase)⟩
  · refine h.recall fun c hc => ?_
    rcases List.mem_or_eq_of_mem_set hc with hc | rfl
    · exact h.calls c hc
    · refine ⟨hcall.id, hcall.scope, fun revision kvs hphase hskip => ?_⟩
      rw [hskip] at hphase
      cases hphase
      exact snapshot_range h.recorded call.key call.rangeEnd
  · rename_i revision kvs hphase
    have hset := h.setSnapshot hcall hphase (hsound revision kvs hphase)
    exact hset.recall fun c hc => hset.calls c (List.mem_of_mem_eraseIdx hc)

theorem cancel_eq_ok {r'} {watcherAddr} (h : r.cancel watchId watcherAddr = .ok r') :
    r' = { r with watchers := r.watchers.erase watchId } := by
  unfold WatchRegistry.cancel at h
  split at h
  · cases h
  · obtain ⟨_, -, h⟩ := bind_eq_ok.mp h
    cases h
    rfl

theorem find_of_erase {ν : Type} {m : OrderedMap Nat ν} {w : Nat} {v : ν}
    (h : (m.erase watchId).find? w = some v) : m.find? w = some v := by
  rw [find?_erase] at h
  split at h
  · cases h
  · exact h

theorem WellFormed.cancel (h : WellFormed s) {registry : WatchRegistry} {watcherAddr : Bytes}
    (hcancel : s.registry.cancel watchId watcherAddr = .ok registry) :
    WellFormed { s with registry := registry } := by
  obtain rfl := cancel_eq_ok hcancel
  exact ⟨h.recorded, h.producers, h.pending, h.held,
    fun w e he => h.watchers w e (find_of_erase he), h.channelIds,
    fun call hcall => (h.calls call hcall).frame rfl rfl (le_refl _) find_of_erase,
    fun w ch hch => (h.channels w ch hch).frame rfl rfl find_of_erase
      fun _ _ _ _ haccepted => haccepted⟩

theorem WellFormed.removeChannel (h : WellFormed s) (watchId : Nat) :
    WellFormed { s with channels := s.channels.erase watchId } :=
  h.move h.pending h.held fun _ ch hch =>
    ⟨ch, find_of_erase hch, fun hok => hok.frame rfl rfl id fun _ _ _ _ haccepted => haccepted⟩

/-! ## Runs -/

theorem step_wellFormed {a} (hsound : sound s a) (hstep : s.step a = some s')
    (h : WellFormed s) : WellFormed s' := by
  cases a with
  | put =>
    obtain ⟨⟨_, _⟩, hput, rfl⟩ := toOption_map_eq_some.mp hstep
    exact h.mutate (.inr (put_mutation hput))
  | delete =>
    obtain ⟨⟨_, _⟩, hdel, rfl⟩ := toOption_map_eq_some.mp hstep
    exact h.mutate (delete_mutation hdel)
  | expire =>
    obtain ⟨⟨_, _⟩, hexpired, rfl⟩ := Option.map_eq_some_iff.mp hstep
    exact h.mutate (.inr (deleteIfTtlExpired_mutation hexpired))
  | enqueue producer =>
    dsimp only [step] at hstep
    split at hstep
    · rename_i hget
      cases hstep
      exact h.enqueue hget
    · cases hstep
  | fanOut =>
    cases hstep
    exact h.fanOutStep
  | prepare watchId =>
    dsimp only [step] at hstep
    split at hstep
    · rename_i hch
      split at hstep
      · cases hstep
        exact h.prepare hch
      · cases hstep
    · cases hstep
  | notified watchId outcome =>
    dsimp only [step] at hstep
    split at hstep
    · rename_i ch hch
      split at hstep
      · rename_i batch hphase
        cases hstep
        cases outcome with
        | ok =>
          dsimp only [sound] at hsound
          rw [hch, Option.all_some, hphase] at hsound
          cases hr : batch.needReWatch with
          | true => exact h.notified_rewatch hch hphase hr
          | false =>
            refine h.notified_events hch hphase hr fun x hx => ?_
            dsimp only at hsound
            rw [hr, Bool.false_or, List.all_eq_true] at hsound
            exact of_decide_eq_true (hsound x hx)
        | notFound | failed => exact h.notified_phase hch fun b => by simp
      · cases hstep
    · cases hstep
  | watchRange => exact h.watchRange hstep
  | registration =>
    obtain ⟨_, hget, rfl⟩ := Option.map_eq_some_iff.mp hstep
    refine h.registrationStep hget fun revision kvs hphase ch hch => ?_
    dsimp only [sound] at hsound
    rw [hget, Option.all_some, hphase] at hsound
    dsimp only at hsound
    rw [hch, Option.all_some, Bool.and_eq_true] at hsound
    exact ⟨of_decide_eq_true hsound.1, of_decide_eq_true hsound.2⟩
  | cancel =>
    obtain ⟨_, hcancel, rfl⟩ := toOption_map_eq_some.mp hstep
    exact h.cancel hcancel
  | removeChannel watchId =>
    cases hstep
    exact h.removeChannel watchId

theorem reaches_wellFormed (h : Reaches (restrict sound step) {} s) : WellFormed s := by
  refine h.invariant wellFormed_init fun s s' a hstep hs => ?_
  obtain ⟨hsound, hstep⟩ := restrict_eq_some.mp hstep
  exact step_wellFormed hsound hstep hs

end

/-- Nothing is on its way to the watcher, and it has not been told to watch again. -/
def Quiet : Prop :=
  s.producers.flatten = [] ∧ s.pendingQueue = [] ∧ s.pendingOverflow = false ∧
    s.fanOut = .waiting ∧ ch.queue = [] ∧ ∀ x ∈ ch.delivered, x.type ≠ .rewatch

theorem Accounted.delivered_of_quiet {s} {watchId : Nat} {ch}
    {x} (h : s.Accounted watchId ch x) (hquiet : Quiet s ch) : x ∈ ch.delivered := by
  obtain ⟨hprocessing, hpending, hflag, hwaiting, hqueue, hno⟩ := hquiet
  rcases h with h | h | h | h | h | ⟨-, y, hy, -⟩ | ⟨y, hy, hr⟩
  · exact h
  · rw [pipeline, hprocessing, hpending, hwaiting] at h
    exact absurd h not_mem_nil
  · rw [hqueue] at h
    exact absurd h not_mem_nil
  · rw [hflag] at h
    cases h
  · rw [hwaiting] at h
    exact absurd h not_mem_nil
  · rw [hqueue] at hy
    exact absurd hy not_mem_nil
  · exact absurd hr (hno y hy)

/-- A registered watcher misses no event of its range that is newer than its snapshot, and knows
the range once all is quiet. -/
theorem watch_loses_nothing {s : WatchSystem} (h : Reaches (restrict sound step) {} s)
    {watchId : Nat} {entry : WatcherEntry} {ch : WatcherChannel}
    (hentry : s.registry.watchers.find? watchId = some entry)
    (hch : s.channels.find? watchId = some ch) (hset : 0 < ch.snapshotRevision) :
    (∀ x ∈ s.log, inRange entry.key entry.rangeEnd x.entry.key → ch.snapshotRevision < x.revision →
      s.Accounted watchId ch x) ∧
    (Quiet s ch → ∀ kvs, ch.initial = some kvs → ∀ k, inRange entry.key entry.rangeEnd k →
      reconstruct ch.snapshotRevision kvs ch.delivered k =
        (s.store.data.find? k).map (·.toKeyValue k)) := by
  have hwell := reaches_wellFormed h
  have hok := hwell.channels watchId ch hch
  have hall : ∀ x ∈ s.log, inRange entry.key entry.rangeEnd x.entry.key →
      ch.snapshotRevision < x.revision → s.Accounted watchId ch x :=
    fun x hx hin hnew => hok.accounted entry hentry x hx hin
      (lt_of_le_of_lt (hok.snapshot hset) hnew) hnew
  refine ⟨hall, fun hquiet kvs hkvs k hin => ?_⟩
  refine (hok.initial entry hentry kvs hkvs).reconstruct_eq hwell.recorded
    (fun x hx hne => hok.contents.delivered x hx hne) (fun x hx hin hnew => ?_) hin
  exact (hall x hx hin hnew).delivered_of_quiet hquiet

instance (watchId : Nat) : Decidable (s.Rewatch watchId ch) := inferInstanceAs (Decidable (_ ∨ _))

instance (watchId : Nat) (x) : Decidable (s.Accounted watchId ch x) :=
  inferInstanceAs (Decidable (_ ∨ _))

instance : Decidable (Quiet s ch) := inferInstanceAs (Decidable (_ ∧ _))

/-- A watch of all one-letter keys, up to its snapshot. -/
def watchAll : List WatchAction :=
  [.watchRange ⟨[1], [], [0], [100]⟩ false, .registration 0, .registration 0, .registration 0]

def putKey (k : Byte) : WatchAction := .put ⟨[k], [7], 0, coordinatorNoVersionCheck, 0, 0⟩

/-- One put that is watched and delivered. -/
def deliveredRun : List WatchAction :=
  watchAll ++ [putKey 3, .enqueue 0] ++ replicate 6 .fanOut ++ [.prepare 1, .notified 1 .ok]

theorem watched_put_arrives : ∃ s entry ch, Reaches (restrict sound step) {} s ∧
    s.registry.watchers.find? 1 = some entry ∧ s.channels.find? 1 = some ch ∧
    0 < ch.snapshotRevision ∧ Quiet s ch ∧ s.log ≠ [] ∧
    (∀ x ∈ s.log, inRange entry.key entry.rangeEnd x.entry.key → ch.snapshotRevision < x.revision →
      s.Accounted 1 ch x) ∧
    (Quiet s ch → ∀ kvs, ch.initial = some kvs → ∀ k, inRange entry.key entry.rangeEnd k →
      reconstruct ch.snapshotRevision kvs ch.delivered k =
        (s.store.data.find? k).map (·.toKeyValue k)) := by
  have hrun : (run (restrict sound step) {} deliveredRun).any fun s =>
      (s.registry.watchers.find? 1).isSome && (s.channels.find? 1).any fun ch =>
        decide (0 < ch.snapshotRevision ∧ Quiet s ch ∧ s.log ≠ []) := by
    decide +kernel
  obtain ⟨s, hs, hp⟩ := exists_of_run deliveredRun hrun
  rw [Bool.and_eq_true] at hp
  obtain ⟨entry, hentry⟩ := Option.isSome_iff_exists.mp hp.1
  obtain ⟨ch, hch, hgood⟩ := Option.any_eq_true _ _ |>.mp hp.2
  obtain ⟨hset, hquiet, hlog⟩ := of_decide_eq_true hgood
  exact ⟨s, entry, ch, hs, hentry, hch, hset, hquiet, hlog, watch_loses_nothing hs hentry hch hset⟩

/-- Thirty-three keys go in one range delete: they share a revision, and a batch has room for
thirty-two. -/
def rangeDeleteRun : List WatchAction :=
  (List.range 33).map (fun k => putKey (Fin.ofNat 256 k)) ++ watchAll ++
    [.delete ⟨[0], [100], 0⟩] ++
    replicate 33 (.enqueue 33) ++ replicate 102 .fanOut ++ [.prepare 1, .notified 1 .ok]

theorem range_delete_loses_event : ∃ s entry ch, Reaches step {} s ∧
    s.registry.watchers.find? 1 = some entry ∧ s.channels.find? 1 = some ch ∧
    0 < ch.snapshotRevision ∧
    ∃ x ∈ s.log, inRange entry.key entry.rangeEnd x.entry.key ∧ ch.snapshotRevision < x.revision ∧
      ¬ s.Accounted 1 ch x := by
  have hrun : (run step {} rangeDeleteRun).any fun s =>
      (s.registry.watchers.find? 1).any fun entry => (s.channels.find? 1).any fun ch =>
        decide (0 < ch.snapshotRevision ∧ ∃ x ∈ s.log,
          inRange entry.key entry.rangeEnd x.entry.key ∧ ch.snapshotRevision < x.revision ∧
            ¬ s.Accounted 1 ch x) := by
    decide +kernel
  obtain ⟨s, hs, hp⟩ := exists_of_run rangeDeleteRun hrun
  obtain ⟨entry, hentry, hp⟩ := Option.any_eq_true _ _ |>.mp hp
  obtain ⟨ch, hch, hbad⟩ := Option.any_eq_true _ _ |>.mp hp
  obtain ⟨hset, hlost⟩ := of_decide_eq_true hbad
  exact ⟨s, entry, ch, hs, hentry, hch, hset, hlost⟩

end WatchSystem

end Datasystem.Coordinator
