import Datasystem.Cluster.TopologyTypes
import Datasystem.Lib.OrderedMap
import Datasystem.Lib.Positions

/-! The membership table of the endpoint view: one state per address, fenced by revisions, and
the list of the ready addresses. A call may fail after it has begun to change the table, so a
call is modelled with the table that it leaves behind. -/

namespace Datasystem.Cluster

open Common Lib List Option

structure MembershipValue where
  timestamp : Int
  lifecycleState : MemberLifecycleState
  hostId : Bytes
  compatibilityVersion : Bytes
deriving DecidableEq

structure MembershipState where
  value : Option MembershipValue := none
  revision : Int := 0
  readyIndex : Nat := 0
deriving DecidableEq

structure MembershipEndpointView where
  snapshotRevision : Int := 0
  memberships : OrderedMap Bytes MembershipState := .empty
  readyCandidateAddresses : List Bytes := []

def maxWriteCandidates : Nat := 20000

def isReady (value : Option MembershipValue) : Bool :=
  value.any fun v => v.lifecycleState = .ready

namespace MembershipEndpointView

variable (view : MembershipEndpointView) (address : Bytes) (revision : Int)

/-- The table after the state of one address has been written. -/
def setState (state : MembershipState) : MembershipEndpointView :=
  { view with memberships := view.memberships.insert address state }

/-- The list of candidates follows the state of `address`: the address is appended, or the last
candidate takes its place. -/
def updateCandidates (state : MembershipState) (ready : Bool) :
    Result Unit × MembershipEndpointView :=
  if isReady state.value = ready then (.ok (), view)
  else if ready then
    (.ok (), { view.setState address
        { state with readyIndex := view.readyCandidateAddresses.length } with
      readyCandidateAddresses := view.readyCandidateAddresses ++ [address] })
  else if state.readyIndex = view.readyCandidateAddresses.length - 1 then
    (.ok (), { view with readyCandidateAddresses := view.readyCandidateAddresses.dropLast })
  else
    match view.readyCandidateAddresses.getLast? with
    | none => (.error ⟨.kRuntimeError, "Membership ready candidate index is inconsistent"⟩, view)
    | some last =>
      match view.memberships.find? last with
      | none => (.error ⟨.kRuntimeError, "Membership ready candidate index is inconsistent"⟩, view)
      | some moved =>
        (.ok (), { view.setState last { moved with readyIndex := state.readyIndex } with
          readyCandidateAddresses :=
            (view.readyCandidateAddresses.set state.readyIndex last).dropLast })

/-- `SetMembershipLocked`: the state of the address is inserted before the candidates are
updated. -/
def setMembershipLocked (value : Option MembershipValue) (revision : Int) :
    Result Unit × MembershipEndpointView :=
  let found := view.memberships.find? address
  if found.any fun state => revision ≤ state.revision then (.ok (), view)
  else if found = none ∧ ¬ view.memberships.entries.length < maxWriteCandidates then
    (.error ⟨.kTryAgain, "Membership candidate view requires a new snapshot"⟩, view)
  else
    let state := found.getD {}
    match (view.setState address state).updateCandidates address state (isReady value) with
    | (.error status, view') => (.error status, view')
    | (.ok _, view') =>
      (.ok (), { view' with memberships := view'.memberships.modify address fun state =>
        { state with value := value, revision := revision } })

/-- The fences of an event, then the change of the table. -/
def commitEvent (value : Option MembershipValue) (revision : Int) :
    Result Unit × MembershipEndpointView :=
  if ¬ 0 < revision then (.error ⟨.kInvalid, "Membership revision must be positive"⟩, view)
  else if revision ≤ view.snapshotRevision then (.ok (), view)
  else view.setMembershipLocked address value revision

def updateMembership (value : MembershipValue) (revision : Int) :
    Result Unit × MembershipEndpointView :=
  view.commitEvent address (some value) revision

/-- A delete leaves a state without a value: until a refresh reaches the revision of the delete,
older puts can still pass the fence of the snapshot. -/
def deleteMembership : Result Unit × MembershipEndpointView :=
  view.commitEvent address none revision

structure MembershipUpdate where
  address : Bytes
  value : Option MembershipValue
  revision : Int

/-- Updates one after the other, up to the first that fails. -/
def setMemberships (view : MembershipEndpointView) :
    List MembershipUpdate → Result Unit × MembershipEndpointView
  | [] => (.ok (), view)
  | update :: rest =>
    match view.setMembershipLocked update.address update.value update.revision with
    | (.error status, view') => (.error status, view')
    | (.ok _, view') => setMemberships view' rest

/-- The states that a refresh keeps, and the members it lists. A record has no compatibility
version. -/
def refreshUpdates (members : List MembershipRecord) (revision : Int) : List MembershipUpdate :=
  ((view.memberships.entries.filter fun e => revision < e.2.revision).map fun e =>
      ⟨e.1, e.2.value, e.2.revision⟩) ++
    members.map fun m => ⟨m.address, some ⟨m.timestamp, m.state, m.hostId, []⟩, revision⟩

/-- `RefreshMemberships`: the new table is built apart and swapped in. -/
def refreshMemberships (members : List MembershipRecord) (revision : Int) :
    Result Unit × MembershipEndpointView :=
  if ¬ 0 < revision then
    (.error ⟨.kInvalid, "Membership snapshot revision must be positive"⟩, view)
  else if revision < view.snapshotRevision then (.ok (), view)
  else
    match setMemberships {} (view.refreshUpdates members revision) with
    | (.error status, _) => (.error status, view)
    | (.ok _, refreshed) =>
      (.ok (), ⟨revision, refreshed.memberships, refreshed.readyCandidateAddresses⟩)

/-- The membership that the view shows for an address. -/
def held : Option MembershipValue :=
  (view.memberships.find? address).bind MembershipState.value

/-- Where the table says that a ready address stands. -/
def readyPosition : Option Nat :=
  (view.memberships.find? address).bind fun state =>
    if isReady state.value then some state.readyIndex else none

/-- The list of candidates and the table agree. -/
def Indexed : Prop :=
  Positions view.readyCandidateAddresses view.readyPosition

/-! ## What an update does -/

/-- What the table says of an address, without the place in the list. -/
def entry : Option (Option MembershipValue × Int) :=
  (view.memberships.find? address).map fun state => (state.value, state.revision)

section

variable {view : MembershipEndpointView} {address : Bytes} {state : MembershipState}

theorem readyPosition_of_find? (h : view.memberships.find? address = some state) :
    view.readyPosition address = if isReady state.value then some state.readyIndex else none := by
  rw [readyPosition, h, bind_some]

theorem readyPosition_congr {view' : MembershipEndpointView} {a : Bytes}
    (h : view'.memberships.find? a = view.memberships.find? a) :
    view'.readyPosition a = view.readyPosition a := by
  rw [readyPosition, h, readyPosition]

end

section

variable {view : MembershipEndpointView} {address : Bytes} {state : MembershipState}

theorem find?_setState_self (view : MembershipEndpointView) (address : Bytes)
    (state : MembershipState) :
    (view.setState address state).memberships.find? address = some state := by
  unfold setState
  rw [OrderedMap.find?_insert, if_pos rfl]

theorem find?_setState_of_ne {a} (h : a ≠ address) :
    (view.setState address state).memberships.find? a = view.memberships.find? a := by
  unfold setState
  rw [OrderedMap.find?_insert, if_neg h]

theorem readyPosition_setState (view : MembershipEndpointView) (address : Bytes)
    (state : MembershipState) (a : Bytes) :
    (view.setState address state).readyPosition a =
      if a = address then (if isReady state.value then some state.readyIndex else none)
      else view.readyPosition a := by
  by_cases h : a = address
  · rw [if_pos h, h]
    exact readyPosition_of_find? (find?_setState_self view address state)
  · rw [if_neg h]
    exact readyPosition_congr (find?_setState_of_ne h)

theorem entry_setState_of_ne {a : Bytes} (h : a ≠ address) :
    (view.setState address state).entry a = view.entry a := by
  rw [entry, find?_setState_of_ne h, entry]

/-- The state that an update starts from is already in the table, or is not ready. -/
theorem Indexed.emplace (h : view.Indexed) (address : Bytes) :
    (view.setState address ((view.memberships.find? address).getD {})).Indexed := by
  refine h.congr fun a => ?_
  rw [readyPosition_setState]
  by_cases ha : a = address
  · rw [if_pos ha, ha]
    cases hfind : view.memberships.find? address with
    | none =>
      rw [readyPosition, hfind]
      rfl
    | some => exact (readyPosition_of_find? hfind).symm
  · rw [if_neg ha]

/-- What a finished update leaves: the new state at the address, and all other states up to
their place in the list. -/
structure Updated (view : MembershipEndpointView) (address : Bytes)
    (value : Option MembershipValue) (revision : Int) (view' : MembershipEndpointView) : Prop where
  indexed : view'.Indexed
  snapshotRevision : view'.snapshotRevision = view.snapshotRevision
  self : view'.entry address = some (value, revision)
  other : ∀ a, a ≠ address → view'.entry a = view.entry a

/-- The table and the list after the candidates were updated and the new value was written. -/
theorem updated_of_positions {view' : MembershipEndpointView} {value : Option MembershipValue}
    {revision : Int} {index : Nat}
    (hindexed : (view'.setState address ⟨value, revision, index⟩).Indexed)
    (hsnapshot : view'.snapshotRevision = view.snapshotRevision)
    (hother : ∀ a, a ≠ address → view'.entry a = view.entry a) :
    Updated view address value revision (view'.setState address ⟨value, revision, index⟩) where
  indexed := hindexed
  snapshotRevision := hsnapshot
  self := by
    rw [entry, find?_setState_self]
    rfl
  other a ha := (entry_setState_of_ne ha).trans (hother a ha)

/-- The candidates can always be updated, and the new value then fits them. -/
theorem updateCandidates_ok (h : view.Indexed)
    (hfind : view.memberships.find? address = some state) (value : Option MembershipValue)
    (revision : Int) :
    ∃ view' index, view.updateCandidates address state (isReady value) = (.ok (), view') ∧
      view'.memberships.find? address = some { state with readyIndex := index } ∧
      Updated view address value revision (view'.setState address ⟨value, revision, index⟩) := by
  have hpos := readyPosition_of_find? hfind
  unfold updateCandidates
  by_cases hsame : isReady state.value = isReady value
  · rw [if_pos hsame]
    refine ⟨view, state.readyIndex, rfl, hfind,
      updated_of_positions (h.congr fun a => ?_) rfl fun _ _ => rfl⟩
    rw [readyPosition_setState]
    by_cases ha : a = address
    · rw [if_pos ha, ha, hpos, hsame]
    · rw [if_neg ha]
  · rw [if_neg hsame]
    cases hready : isReady value with
    | true =>
      have hnone : view.readyPosition address = none := by
        rw [hpos, if_neg (hready ▸ hsame)]
      refine ⟨_, view.readyCandidateAddresses.length, rfl, find?_setState_self _ _ _,
        updated_of_positions (h.append hnone fun a => ?_) rfl fun a ha => entry_setState_of_ne ha⟩
      rw [readyPosition_setState, hready, if_pos rfl]
      by_cases ha : a = address
      · rw [if_pos ha, if_pos ha]
      · rw [if_neg ha, if_neg ha]
        exact readyPosition_congr (find?_setState_of_ne ha)
    | false =>
      have hstate : isReady state.value = true := by
        rw [hready] at hsame
        exact Bool.eq_true_of_not_eq_false hsame
      rw [hstate, if_pos rfl] at hpos
      by_cases hlast : state.readyIndex = view.readyCandidateAddresses.length - 1
      · rw [if_pos hlast]
        refine ⟨_, state.readyIndex, rfl, hfind,
          updated_of_positions (h.removeLast (hlast ▸ hpos) fun a => ?_) rfl fun _ _ => rfl⟩
        rw [readyPosition_setState, hready, if_neg Bool.false_ne_true]
        rfl
      · rw [if_neg hlast]
        have hplace := (h address state.readyIndex).mpr hpos
        -- the list is not empty, so it has a last address, and that address is in the table
        obtain ⟨last, hlast?⟩ : ∃ last, view.readyCandidateAddresses.getLast? = some last := by
          cases hl : view.readyCandidateAddresses.getLast? with
          | none =>
            rw [getLast?_eq_none_iff.mp hl] at hplace
            cases hplace
          | some last => exact ⟨last, rfl⟩
        have hlastAt := (h last _).mp (getLast?_eq_getElem?.symm.trans hlast?)
        obtain ⟨moved, hmoved, hindex⟩ := bind_eq_some_iff.mp hlastAt
        have hmovedReady : isReady moved.value = true := by
          by_contra hnot
          rw [if_neg hnot] at hindex
          cases hindex
        have hne : address ≠ last := by
          intro heq
          rw [← heq, hpos] at hlastAt
          exact hlast (Option.some.inj hlastAt)
        rw [hlast?]
        dsimp only
        rw [hmoved]
        refine ⟨_, state.readyIndex, rfl, (find?_setState_of_ne hne).trans hfind,
          updated_of_positions (h.fill hpos hlast? hlast fun a => ?_) rfl fun a ha => ?_⟩
        · rw [readyPosition_setState, hready, if_neg Bool.false_ne_true]
          by_cases ha : a = address
          · rw [if_pos ha, if_pos ha]
          · rw [if_neg ha, if_neg ha]
            refine (readyPosition_setState view last _ a).trans ?_
            rw [hmovedReady, if_pos rfl]
        · by_cases hl : a = last
          · rw [hl, entry, entry, hmoved]
            rw [find?_setState_self]
            rfl
          · exact entry_setState_of_ne hl

/-- How an update ends. -/
inductive SetOutcome (view : MembershipEndpointView) (address : Bytes)
    (value : Option MembershipValue) (revision : Int) :
    Result Unit × MembershipEndpointView → Prop
  | stale {known : Option MembershipValue} {newer : Int}
      (found : view.entry address = some (known, newer)) (le : revision ≤ newer) :
      SetOutcome view address value revision (.ok (), view)
  | full {status : Status} : SetOutcome view address value revision (.error status, view)
  | set {view' : MembershipEndpointView}
      (fresh : ∀ known older, view.entry address = some (known, older) → older < revision)
      (updated : Updated view address value revision view') :
      SetOutcome view address value revision (.ok (), view')

theorem setOutcome (h : view.Indexed) (address : Bytes) (value : Option MembershipValue)
    (revision : Int) :
    SetOutcome view address value revision (view.setMembershipLocked address value revision) := by
  unfold setMembershipLocked
  dsimp only
  split
  · rename_i hstale
    obtain ⟨state, hfind, hle⟩ := (any_eq_true _ _).mp hstale
    have hentry : view.entry address = some (state.value, state.revision) := by
      rw [entry, hfind]
      rfl
    exact .stale hentry (of_decide_eq_true hle)
  · rename_i hfresh
    split
    · exact .full
    · obtain ⟨view', index, hupdate, hfind, hupdated⟩ := updateCandidates_ok (h.emplace address)
        (find?_setState_self view address _) value revision
      rw [hupdate]
      dsimp only
      have hmodify : { view' with memberships := view'.memberships.modify address fun state =>
          { state with value := value, revision := revision } } =
            view'.setState address ⟨value, revision, index⟩ := by
        unfold setState OrderedMap.modify
        rw [hfind]
      rw [hmodify]
      refine .set ?_ ⟨hupdated.indexed, hupdated.snapshotRevision, hupdated.self, fun a ha =>
        (hupdated.other a ha).trans (entry_setState_of_ne ha)⟩
      intro known older hentry
      obtain ⟨_, hstate, heq⟩ := map_eq_some_iff.mp hentry
      cases heq
      by_contra hnot
      rw [hstate] at hfresh
      exact hfresh (decide_eq_true (not_lt.mp hnot))

theorem entry_empty (a) : ({} : MembershipEndpointView).entry a = none := rfl

theorem indexed_empty : ({} : MembershipEndpointView).Indexed := by
  intro a i
  constructor <;> intro h <;> cases h

/-- Updates that never override each other: the first of an address stands. -/
theorem entry_setMemberships {view'} {updates} (h : view.Indexed)
    (hknown : ∀ u ∈ updates, ∀ known newer, view.entry u.address = some (known, newer) →
      u.revision ≤ newer)
    (hupdates : updates.Pairwise fun u w => u.address = w.address → w.revision ≤ u.revision)
    (hset : view.setMemberships updates = (.ok (), view')) :
    view'.Indexed ∧ ∀ a, view'.entry a =
      (view.entry a).or ((updates.find? (·.address = a)).map fun u => (u.value, u.revision)) := by
  induction updates generalizing view with
  | nil =>
    cases hset
    exact ⟨h, fun a => by simp⟩
  | cons u _ ih =>
    obtain ⟨hfirst, hrest⟩ := pairwise_cons.mp hupdates
    unfold setMemberships at hset
    have hout := setOutcome h u.address u.value u.revision
    generalize view.setMembershipLocked u.address u.value u.revision = result at hset hout
    cases hout with
    | full => cases hset
    | @stale known newer found le =>
      obtain ⟨hindexed, hentry⟩ := ih h (fun w hw => hknown w (mem_cons_of_mem _ hw)) hrest hset
      refine ⟨hindexed, fun a => (hentry a).trans ?_⟩
      by_cases ha : u.address = a
      · rw [← ha, found, some_or, some_or]
      · rw [find?_cons_of_neg (by simpa using ha)]
    | @set view₁ fresh updated =>
      have hnone : view.entry u.address = none := by
        rw [eq_none_iff_forall_ne_some]
        intro e he
        exact (fresh e.1 e.2 he).not_ge (hknown u mem_cons_self e.1 e.2 he)
      obtain ⟨hindexed, hentry⟩ := ih updated.indexed (fun w hw known newer hfound => by
        by_cases ha : w.address = u.address
        · rw [ha, updated.self] at hfound
          cases hfound
          exact hfirst w hw ha.symm
        · rw [updated.other _ ha] at hfound
          exact hknown w (mem_cons_of_mem _ hw) known newer hfound) hrest hset
      refine ⟨hindexed, fun a => (hentry a).trans ?_⟩
      by_cases ha : u.address = a
      · rw [find?_cons_of_pos (by simpa using ha), ← ha, updated.self, hnone, some_or, none_or]
        rfl
      · rw [find?_cons_of_neg (by simpa using ha), updated.other _ (Ne.symm ha)]

theorem find?_kept (view : MembershipEndpointView) (revision : Int) (a : Bytes) :
    (((view.memberships.entries.filter fun e => revision < e.2.revision).map fun e =>
        (⟨e.1, e.2.value, e.2.revision⟩ : MembershipUpdate)).find? (·.address = a)).map
          (fun u => (u.value, u.revision)) =
      (view.entry a).filter fun e => revision < e.2 := by
  have hkey : (view.memberships.entries.filter fun e => revision < e.2.revision).find?
      (fun e => e.1 = a) = (((view.memberships.find? a).map (Prod.mk a)).toList.find? fun e =>
        revision < e.2.revision) := by
    rw [← OrderedMap.filter_key_entries, find?_filter, find?_filter]
    refine congrArg (List.find? · _) (funext fun e => ?_)
    exact decide_eq_decide.mpr (by simp only [decide_eq_true_eq, and_comm])
  rw [find?_map]
  dsimp only [Function.comp_def]
  rw [hkey]
  unfold entry
  cases view.memberships.find? a with
  | none => rfl
  | some state => by_cases hrev : revision < state.revision <;> simp [hrev, Option.filter]

/-- No update of a refresh overrides an earlier one. -/
theorem refreshUpdates_pairwise (view : MembershipEndpointView) (members : List MembershipRecord)
    (revision : Int) :
    (view.refreshUpdates members revision).Pairwise fun u w =>
      u.address = w.address → w.revision ≤ u.revision := by
  refine pairwise_append.mpr ⟨?_, ?_, ?_⟩
  · refine pairwise_map.mpr (List.Pairwise.imp ?_ (view.memberships.sorted.filter _))
    intro e e' hlt heq
    exact absurd heq hlt.ne
  · exact pairwise_map.mpr (pairwise_of_forall fun _ _ _ => le_refl _)
  · intro u hu w hw _
    obtain ⟨_, he, rfl⟩ := mem_map.mp hu
    obtain ⟨_, -, rfl⟩ := mem_map.mp hw
    exact (of_decide_eq_true (mem_filter.mp he).2).le

/-- How a refresh ends. -/
inductive RefreshOutcome (view : MembershipEndpointView) (members : List MembershipRecord)
    (revision : Int) : Result Unit × MembershipEndpointView → Prop
  | failed {status : Status} : RefreshOutcome view members revision (.error status, view)
  | stale (older : revision < view.snapshotRevision) :
      RefreshOutcome view members revision (.ok (), view)
  | refreshed {view' : MembershipEndpointView} (le : view.snapshotRevision ≤ revision)
      (snapshotRevision : view'.snapshotRevision = revision) (indexed : view'.Indexed)
      (entry : ∀ a, view'.entry a = ((view.entry a).filter fun e => revision < e.2).or
        ((members.find? (·.address = a)).map fun m =>
          (some ⟨m.timestamp, m.state, m.hostId, []⟩, revision))) :
      RefreshOutcome view members revision (.ok (), view')

theorem refreshOutcome (view : MembershipEndpointView) (members : List MembershipRecord)
    (revision : Int) :
    RefreshOutcome view members revision (view.refreshMemberships members revision) := by
  unfold refreshMemberships
  split
  · exact .failed
  · split
    · rename_i hlt
      exact .stale hlt
    · rename_i hle
      generalize hset : setMemberships {} (view.refreshUpdates members revision) = result
      obtain ⟨status | _, refreshed⟩ := result
      · exact .failed
      · obtain ⟨hindexed, hentry⟩ := entry_setMemberships indexed_empty nofun
          (view.refreshUpdates_pairwise members revision) hset
        refine .refreshed (not_lt.mp hle) rfl hindexed fun a => (hentry a).trans ?_
        rw [entry_empty, none_or, refreshUpdates, find?_append, map_or,
          find?_kept, List.find?_map, Option.map_map]
        rfl

theorem commitEvent_cases (h : view.Indexed) (address) (value) (revision : Int) :
    (∃ status, view.commitEvent address value revision = (.error status, view)) ∨
      (revision ≤ view.snapshotRevision ∧
        view.commitEvent address value revision = (.ok (), view)) ∨
      (view.snapshotRevision < revision ∧
        SetOutcome view address value revision (view.commitEvent address value revision)) := by
  unfold commitEvent
  split
  · exact .inl ⟨_, rfl⟩
  · split
    · rename_i hle
      exact .inr (.inl ⟨hle, rfl⟩)
    · rename_i hlt
      exact .inr (.inr ⟨not_le.mp hlt, setOutcome h address value revision⟩)

end

end MembershipEndpointView

end Datasystem.Cluster
