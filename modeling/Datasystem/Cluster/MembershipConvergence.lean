import Datasystem.Cluster.MembershipEndpointView

/-! The endpoint view and the store it follows. Events and refreshes arrive in any order, some
of them twice and some never; what the view holds for an address depends only on the newest
refresh and the newest event that were applied. -/

namespace Datasystem.Cluster

open Common Lib MembershipEndpointView

/-! ## The store -/

structure MembershipChange where
  address : Bytes
  value : Option MembershipValue
  revision : Int
deriving DecidableEq

/-- The puts and deletes of memberships. A range delete changes several addresses at one
revision, so only the revisions of one address are apart. -/
structure MembershipHistory where
  changes : List MembershipChange
  positive : ∀ c ∈ changes, 0 < c.revision
  increasing : changes.Pairwise fun c c' => c.address = c'.address → c.revision < c'.revision

namespace MembershipHistory

variable (h : MembershipHistory)

/-- The membership of an address at a revision. -/
def storeAt (revision : Int) (address : Bytes) : Option MembershipValue :=
  (h.changes.filter fun c => c.address = address ∧ c.revision ≤ revision).getLast?.bind
    MembershipChange.value

theorem storeAt_zero (address) : h.storeAt 0 address = none := by
  have hnone : (h.changes.filter fun c => c.address = address ∧ c.revision ≤ 0) = [] := by
    rw [List.filter_eq_nil_iff]
    intro c hc hin
    exact (h.positive c hc).not_ge (of_decide_eq_true hin).2
  rw [storeAt, hnone]
  rfl

theorem exists_put_of_storeAt {revision : Int} {address} {v}
    (hv : h.storeAt revision address = some v) :
    ∃ c ∈ h.changes, c.address = address ∧ c.value = some v := by
  obtain ⟨c, hlast, hvalue⟩ := Option.bind_eq_some_iff.mp hv
  obtain ⟨hc, hin⟩ := List.mem_filter.mp (List.mem_of_getLast? hlast)
  exact ⟨c, hc, (of_decide_eq_true hin).1, hvalue⟩

theorem storeAt_of_mem {c} (hc : c ∈ h.changes) : h.storeAt c.revision c.address = c.value := by
  unfold storeAt
  generalize hl : (h.changes.filter fun c' =>
    c'.address = c.address ∧ c'.revision ≤ c.revision) = changes
  have hmem : c ∈ changes := by
    rw [← hl]
    exact List.mem_filter.mpr ⟨hc, decide_eq_true ⟨rfl, le_refl _⟩⟩
  have hall : ∀ c' ∈ changes, c'.address = c.address ∧ c'.revision ≤ c.revision := by
    intro c' hc'
    rw [← hl] at hc'
    exact of_decide_eq_true (List.mem_filter.mp hc').2
  have hsorted : changes.Pairwise fun c c' => c.address = c'.address →
      c.revision < c'.revision := by
    rw [← hl]
    exact h.increasing.filter _
  -- nothing of the address comes after the change up to its revision
  obtain ⟨_, after, rfl⟩ := List.append_of_mem hmem
  cases after with
  | nil => rw [List.getLast?_concat, Option.bind_some]
  | cons next =>
    obtain ⟨hadd, hle⟩ := hall next (by simp)
    have hlt := (List.pairwise_cons.mp (List.pairwise_append.mp hsorted).2.1).1 next (by simp)
    exact absurd (hlt hadd.symm) (not_lt.mpr hle)

end MembershipHistory

/-! ## Deliveries -/

inductive Delivery
  | update (address : Bytes) (value : MembershipValue) (revision : Int)
  | delete (address : Bytes) (revision : Int)
  | refresh (members : List MembershipRecord) (revision : Int)
deriving DecidableEq

def MembershipValue.toRecord (v : MembershipValue) (address : Bytes) : MembershipRecord :=
  ⟨address, v.lifecycleState, v.timestamp, v.hostId⟩

/-- What a refresh can know of a value. -/
def MembershipValue.withoutVersion (v : MembershipValue) : MembershipValue :=
  { v with compatibilityVersion := [] }

namespace Delivery

/-- An event reports a change of the store; a refresh lists its content at one revision. -/
def Genuine (h : MembershipHistory) : Delivery → Prop
  | .update address value revision => ⟨address, some value, revision⟩ ∈ h.changes
  | .delete address revision => ⟨address, none, revision⟩ ∈ h.changes
  | .refresh members revision => ∀ m : MembershipRecord,
      m ∈ members ↔ ∃ v, h.storeAt revision m.address = some v ∧ v.toRecord m.address = m

def refreshRevision : Delivery → Int
  | .update _ _ _ => 0
  | .delete _ _ => 0
  | .refresh _ revision => revision

def eventRevision (address : Bytes) : Delivery → Int
  | .update a _ revision => if a = address then revision else 0
  | .delete a revision => if a = address then revision else 0
  | .refresh _ _ => 0

end Delivery

def MembershipEndpointView.deliver (view : MembershipEndpointView) :
    Delivery → Result Unit × MembershipEndpointView
  | .update address value revision => view.updateMembership address value revision
  | .delete address revision => view.deleteMembership address revision
  | .refresh members revision => view.refreshMemberships members revision

variable (accepted : List Delivery)

/-- The newest refresh of those accepted; an older one is accepted and ignored. -/
def appliedRefresh : Int :=
  (accepted.map Delivery.refreshRevision).foldl max 0

/-- The newest event of an address of those accepted. -/
def appliedEvent (address : Bytes) : Int :=
  (accepted.map (Delivery.eventRevision address)).foldl max 0

/-- A view and the deliveries that it has accepted. -/
structure Observer where
  view : MembershipEndpointView := {}
  accepted : List Delivery := []

namespace Observer

def step (o : Observer) (d : Delivery) : Observer :=
  match o.view.deliver d with
  | (.ok _, view') => ⟨view', o.accepted ++ [d]⟩
  | (.error _, view') => ⟨view', o.accepted⟩

def run (deliveries : List Delivery) : Observer := deliveries.foldl step {}

end Observer

/-! ## What the view follows -/

/-- What the table should say of an address, from the newest refresh and the newest event. -/
def expectedEntry (h : MembershipHistory) (refreshed observed : Int) (a : Bytes) :
    Option (Option MembershipValue × Int) :=
  if refreshed < observed then some (h.storeAt observed a, observed)
  else (h.storeAt refreshed a).map fun v => (some v.withoutVersion, refreshed)

section

variable {h : MembershipHistory} {refreshed observed : Int} {a : Bytes}

theorem expectedEntry_of_lt (hlt : refreshed < observed) :
    expectedEntry h refreshed observed a = some (h.storeAt observed a, observed) :=
  if_pos hlt

theorem expectedEntry_of_le (hle : observed ≤ refreshed) : expectedEntry h refreshed observed a =
      (h.storeAt refreshed a).map fun v => (some v.withoutVersion, refreshed) :=
  if_neg (not_lt.mpr hle)

theorem revision_of_expectedEntry {known} {revision : Int}
    (he : expectedEntry h refreshed observed a = some (known, revision)) :
    revision = max refreshed observed := by
  rcases lt_or_ge refreshed observed with hlt | hle
  · rw [expectedEntry_of_lt hlt] at he
    cases he
    exact (max_eq_right hlt.le).symm
  · rw [expectedEntry_of_le hle] at he
    obtain ⟨_, -, heq⟩ := Option.map_eq_some_iff.mp he
    cases heq
    exact (max_eq_left hle).symm

/-- An event that is not newer than the snapshot tells nothing. -/
theorem expectedEntry_max_of_le {revision : Int} (hle : revision ≤ refreshed) :
    expectedEntry h refreshed (max observed revision) a = expectedEntry h refreshed observed a := by
  rcases lt_or_ge refreshed observed with hlt | hge
  · rw [max_eq_left (hle.trans hlt.le)]
  · rw [expectedEntry_of_le hge, expectedEntry_of_le (max_le hge hle)]

/-- A refresh keeps the states that are newer and takes all others from its list. -/
theorem expectedEntry_refresh {revision : Int} (hle : refreshed ≤ revision) :
    ((expectedEntry h refreshed observed a).filter fun e => revision < e.2).or
        ((h.storeAt revision a).map fun v => (some v.withoutVersion, revision)) =
      expectedEntry h revision observed a := by
  rcases lt_or_ge revision observed with hlt | hge
  · rw [expectedEntry_of_lt (hle.trans_lt hlt), expectedEntry_of_lt hlt]
    simp [Option.filter, hlt]
  · rw [expectedEntry_of_le hge]
    have hnone :
        ((expectedEntry h refreshed observed a).filter fun e => revision < e.2) = none := by
      rw [Option.filter_eq_none_iff]
      intro e he hnewer
      have hrev := revision_of_expectedEntry he
      have hlt := of_decide_eq_true hnewer
      rw [hrev] at hlt
      exact hlt.not_ge (max_le hle hge)
    rw [hnone, Option.none_or]

end

theorem find?_members {h} {members} {revision : Int}
    (hgenuine : (Delivery.refresh members revision).Genuine h) (a) :
    ((members.find? (·.address = a)).map fun m =>
        (some (⟨m.timestamp, m.state, m.hostId, []⟩ : MembershipValue), revision)) =
      (h.storeAt revision a).map fun v => (some v.withoutVersion, revision) := by
  cases hfind : members.find? (·.address = a) with
  | none =>
    have hnone : h.storeAt revision a = none := by
      rw [Option.eq_none_iff_forall_ne_some]
      intro v hv
      have hmem : v.toRecord a ∈ members := (hgenuine _).mpr ⟨v, hv, rfl⟩
      exact List.find?_eq_none.mp hfind _ hmem (decide_eq_true rfl)
    rw [hnone]
    rfl
  | some m =>
    have ha : m.address = a := by simpa using List.find?_some hfind
    obtain ⟨_, hv, hm⟩ := (hgenuine m).mp (List.mem_of_find?_eq_some hfind)
    rw [← ha, hv, ← hm]
    rfl

/-! ## Steps and runs -/

theorem appliedRefresh_append (d) :
    appliedRefresh (accepted ++ [d]) = max (appliedRefresh accepted) d.refreshRevision := by
  simp [appliedRefresh]

theorem appliedEvent_append (d) (a) :
    appliedEvent (accepted ++ [d]) a = max (appliedEvent accepted a) (d.eventRevision a) := by
  simp [appliedEvent]

theorem foldl_max_le_iff (l : List Int) (n m : Int) :
    l.foldl max n ≤ m ↔ n ≤ m ∧ ∀ x ∈ l, x ≤ m := by
  induction l generalizing n with
  | nil => simp
  | cons _ _ ih => simp [ih, and_assoc]

theorem appliedRefresh_nonneg : 0 ≤ appliedRefresh accepted :=
  ((foldl_max_le_iff _ _ _).mp (le_refl _)).1

theorem appliedEvent_nonneg (a : Bytes) : 0 ≤ appliedEvent accepted a :=
  ((foldl_max_le_iff _ _ _).mp (le_refl _)).1

theorem deliver_error {view view' : MembershipEndpointView} (h : view.Indexed) {d : Delivery}
    {status : Status} (herror : view.deliver d = (.error status, view')) : view' = view := by
  have hevent : ∀ address value revision,
      view.commitEvent address value revision = (.error status, view') → view' = view := by
    intro address value revision hcommit
    rcases commitEvent_cases h address value revision with
      ⟨status', hfail⟩ | ⟨-, hstale⟩ | ⟨-, hout⟩
    · rw [hfail] at hcommit
      cases hcommit
      rfl
    · rw [hstale] at hcommit
      cases hcommit
    · rw [hcommit] at hout
      cases hout
      rfl
  cases d with
  | update address value revision => exact hevent address (some value) revision herror
  | delete address revision => exact hevent address none revision herror
  | refresh members revision =>
    have hout := view.refreshOutcome members revision
    rw [show view.refreshMemberships members revision = (.error status, view') from herror] at hout
    cases hout
    rfl

/-- The table follows the store. -/
structure Observer.Follows (h : MembershipHistory) (o : Observer) : Prop where
  indexed : o.view.Indexed
  snapshotRevision : o.view.snapshotRevision = appliedRefresh o.accepted
  entry : ∀ a, o.view.entry a =
    expectedEntry h (appliedRefresh o.accepted) (appliedEvent o.accepted a) a

namespace Observer.Follows

variable {h : MembershipHistory} {o : Observer}

theorem event (hf : o.Follows h) {address} {value} {revision : Int}
    (hvalue : h.storeAt revision address = value) {d} (href : d.refreshRevision = 0)
    (hself : d.eventRevision address = revision) (hother : ∀ a, a ≠ address → d.eventRevision a = 0)
    {view'} (hok : o.view.commitEvent address value revision = (.ok (), view')) :
    Follows h ⟨view', o.accepted ++ [d]⟩ := by
  have hsame : appliedRefresh (o.accepted ++ [d]) = appliedRefresh o.accepted := by
    rw [appliedRefresh_append, href, max_eq_left (appliedRefresh_nonneg _)]
  have hkeeps : ∀ a, a ≠ address →
      appliedEvent (o.accepted ++ [d]) a = appliedEvent o.accepted a := by
    intro a ha
    rw [appliedEvent_append, hother a ha, max_eq_left (appliedEvent_nonneg _ _)]
  have hraised : appliedEvent (o.accepted ++ [d]) address =
      max (appliedEvent o.accepted address) revision := by
    rw [appliedEvent_append, hself]
  -- it is enough to look at the address of the event
  suffices hentry : view'.Indexed ∧ view'.snapshotRevision = o.view.snapshotRevision ∧
      (∀ a, a ≠ address → view'.entry a = o.view.entry a) ∧ view'.entry address =
        expectedEntry h (appliedRefresh o.accepted)
          (max (appliedEvent o.accepted address) revision) address by
    obtain ⟨hindexed, hsnapshot, hothers, hadd⟩ := hentry
    refine ⟨hindexed, ?_, fun a => ?_⟩
    · exact (hsnapshot.trans hf.snapshotRevision).trans hsame.symm
    · rw [hsame]
      by_cases ha : a = address
      · rw [ha, hraised]
        exact hadd
      · rw [hkeeps a ha, hothers a ha]
        exact hf.entry a
  have hentry := hf.entry address
  rcases commitEvent_cases hf.indexed address value revision with
    ⟨status, herror⟩ | ⟨hle, hstale⟩ | ⟨hlt, hout⟩
  · rw [herror] at hok
    cases hok
  · rw [hstale] at hok
    cases hok
    rw [hf.snapshotRevision] at hle
    exact ⟨hf.indexed, rfl, fun _ _ => rfl, hentry.trans (expectedEntry_max_of_le hle).symm⟩
  · rw [hok] at hout
    rw [hf.snapshotRevision] at hlt
    cases hout with
    | @stale known newer found le =>
      refine ⟨hf.indexed, rfl, fun _ _ => rfl, ?_⟩
      have hnewer := revision_of_expectedEntry (hentry.symm.trans found)
      have hlate : revision ≤ appliedEvent o.accepted address := by omega
      rw [hentry, max_eq_left hlate]
    | set fresh updated =>
      refine ⟨updated.indexed, updated.snapshotRevision, updated.other, ?_⟩
      have holder : appliedEvent o.accepted address ≤ revision := by
        rcases lt_or_ge (appliedRefresh o.accepted) (appliedEvent o.accepted address) with hev | hev
        · exact (fresh _ _ (hentry.trans (expectedEntry_of_lt hev))).le
        · exact hev.trans hlt.le
      rw [updated.self, max_eq_right holder, expectedEntry_of_lt hlt, hvalue]

theorem refresh (hf : o.Follows h) {members} {revision : Int}
    (hgenuine : (Delivery.refresh members revision).Genuine h) {view'}
    (hok : o.view.refreshMemberships members revision = (.ok (), view')) :
    Follows h ⟨view', o.accepted ++ [.refresh members revision]⟩ := by
  have hraised : appliedRefresh (o.accepted ++ [.refresh members revision]) =
      max (appliedRefresh o.accepted) revision :=
    appliedRefresh_append _ _
  have hkeeps : ∀ a, appliedEvent (o.accepted ++ [.refresh members revision]) a =
      appliedEvent o.accepted a := by
    intro a
    rw [appliedEvent_append]
    exact max_eq_left (appliedEvent_nonneg _ _)
  have hout := o.view.refreshOutcome members revision
  rw [hok] at hout
  cases hout with
  | stale older =>
    rw [hf.snapshotRevision] at older
    rw [max_eq_left older.le] at hraised
    refine ⟨hf.indexed, hf.snapshotRevision.trans hraised.symm, fun a => ?_⟩
    dsimp only
    rw [hraised, hkeeps]
    exact hf.entry a
  | refreshed le snapshotRevision indexed entry =>
    rw [hf.snapshotRevision] at le
    rw [max_eq_right le] at hraised
    refine ⟨indexed, snapshotRevision.trans hraised.symm, fun a => ?_⟩
    dsimp only
    rw [hraised, hkeeps, entry a, hf.entry a, find?_members hgenuine]
    exact expectedEntry_refresh le

theorem step (hf : o.Follows h) {d : Delivery} (hd : d.Genuine h) : (o.step d).Follows h := by
  unfold Observer.step
  generalize hresult : o.view.deliver d = result
  obtain ⟨status | _, view'⟩ := result
  · rw [deliver_error hf.indexed hresult]
    exact hf
  · cases d with
    | update | delete =>
      refine hf.event (h.storeAt_of_mem hd) rfl ?_ (fun a ha => ?_) hresult
      · exact if_pos rfl
      · exact if_neg (Ne.symm ha)
    | refresh => exact hf.refresh hd hresult

theorem run {deliveries} (hgenuine : ∀ d ∈ deliveries, d.Genuine h) :
    (Observer.run deliveries).Follows h := by
  unfold Observer.run
  induction deliveries using List.reverseRecOn with
  | nil =>
    refine ⟨indexed_empty, rfl, fun a => ?_⟩
    show none = expectedEntry h 0 0 a
    rw [expectedEntry_of_le (le_refl _), h.storeAt_zero]
    rfl
  | append_singleton _ d ih =>
    rw [List.foldl_concat]
    exact (ih fun d' hd' => hgenuine d' (List.mem_append_left _ hd')).step (hgenuine d (by simp))

theorem held (hf : o.Follows h) (a) :
    o.view.held a = if appliedRefresh o.accepted < appliedEvent o.accepted a then
      h.storeAt (appliedEvent o.accepted a) a
    else (h.storeAt (appliedRefresh o.accepted) a).map MembershipValue.withoutVersion := by
  have hheld : o.view.held a = (o.view.entry a).bind Prod.fst := by
    unfold MembershipEndpointView.held MembershipEndpointView.entry
    cases o.view.memberships.find? a <;> rfl
  rw [hheld, hf.entry]
  split
  · rename_i hlt
    rw [expectedEntry_of_lt hlt, Option.bind_some]
  · rename_i hle
    rw [expectedEntry_of_le (not_lt.mp hle), Option.bind_map]
    cases h.storeAt (appliedRefresh o.accepted) a <;> rfl

end Observer.Follows

theorem mem_candidates_iff {view : MembershipEndpointView} (h : view.Indexed) (i : Nat) (a) :
    view.readyCandidateAddresses[i]? = some a ↔
      ∃ state, view.memberships.find? a = some state ∧ isReady state.value ∧
        state.readyIndex = i := by
  rw [h a i, readyPosition, Option.bind_eq_some_iff]
  refine exists_congr fun state => and_congr_right fun _ => ?_
  rw [Option.ite_none_right_eq_some, Option.some_inj]

/-- What the view holds of an address is the membership of the store at the newest applied
revision, in the form in which that revision was learned; the candidates are the ready
addresses at their places; failures leave the view alone; and the order of the deliveries does
not matter. -/
theorem view_converges (h : MembershipHistory) (deliveries : List Delivery)
    (hgenuine : ∀ d ∈ deliveries, d.Genuine h) :
    let o := Observer.run deliveries
    (∀ a, o.view.held a = if appliedRefresh o.accepted < appliedEvent o.accepted a then
        h.storeAt (appliedEvent o.accepted a) a
      else (h.storeAt (appliedRefresh o.accepted) a).map MembershipValue.withoutVersion) ∧
    (∀ deliveries' : List Delivery, (∀ d ∈ deliveries', d.Genuine h) →
      (∀ d, d ∈ (Observer.run deliveries').accepted ↔ d ∈ o.accepted) →
        ∀ a, (Observer.run deliveries').view.held a = o.view.held a) ∧
    (∀ i a, o.view.readyCandidateAddresses[i]? = some a ↔
      ∃ state, o.view.memberships.find? a = some state ∧ isReady state.value ∧
        state.readyIndex = i) ∧
    ∀ d status view', o.view.deliver d = (.error status, view') → view' = o.view := by
  have hf := Observer.Follows.run hgenuine
  refine ⟨hf.held, fun deliveries' hgenuineRefresh' hsame a => ?_, mem_candidates_iff hf.indexed,
    fun d status view' => deliver_error hf.indexed⟩
  have hf' := Observer.Follows.run hgenuineRefresh'
  -- the newest revisions are those of the same deliveries
  have hnewest : ∀ revision : Delivery → Int,
      ((Observer.run deliveries').accepted.map revision).foldl max 0 =
        ((Observer.run deliveries).accepted.map revision).foldl max 0 := fun revision =>
    eq_of_forall_ge_iff fun n => by simp only [foldl_max_le_iff, List.forall_mem_map, hsame]
  rw [hf.held, hf'.held, appliedRefresh, appliedEvent, hnewest, hnewest]
  rfl

/-! ## Two members with compatibility versions -/

def versionedValue : MembershipValue := ⟨7, .ready, ascii "host", ascii "1.2"⟩

def renewedValue : MembershipValue := { versionedValue with compatibilityVersion := ascii "1.3" }

/-- Two members report, one of them goes and the other one is renewed. -/
def versionedHistory : MembershipHistory where
  changes :=
    [⟨ascii "a", some versionedValue, 1⟩, ⟨ascii "b", some versionedValue, 2⟩,
      ⟨ascii "a", none, 3⟩, ⟨ascii "b", some renewedValue, 4⟩]
  positive := by decide
  increasing := by decide

/-- The list of both members. -/
def versionedRefresh : Delivery :=
  .refresh [versionedValue.toRecord (ascii "a"), versionedValue.toRecord (ascii "b")] 2

theorem genuine_versionedRefresh : versionedRefresh.Genuine versionedHistory := by
  have hfirst : versionedHistory.storeAt 2 (ascii "a") = some versionedValue := by decide +kernel
  have hsecond : versionedHistory.storeAt 2 (ascii "b") = some versionedValue := by decide +kernel
  intro m
  simp only [List.mem_cons, List.not_mem_nil, or_false]
  constructor
  · rintro (rfl | rfl)
    · exact ⟨versionedValue, hfirst, rfl⟩
    · exact ⟨versionedValue, hsecond, rfl⟩
  · rintro ⟨v, hv, hm⟩
    obtain ⟨c, hc, haddress, -⟩ := versionedHistory.exists_put_of_storeAt hv
    have hknown : ∀ c ∈ versionedHistory.changes, c.address = ascii "a" ∨
        c.address = ascii "b" := by
      decide
    rcases hknown c hc with hname | hname
    · rw [← haddress, hname] at hv hm
      obtain rfl := Option.some.inj (hfirst.symm.trans hv)
      exact .inl hm.symm
    · rw [← haddress, hname] at hv hm
      obtain rfl := Option.some.inj (hsecond.symm.trans hv)
      exact .inr hm.symm

/-- The renewal overtakes the delete, and the first event of its member comes last. -/
theorem view_of_versioned :
    let deliveries := [versionedRefresh, .update (ascii "b") renewedValue 4,
      .delete (ascii "a") 3, .update (ascii "b") versionedValue 2]
    (∀ d ∈ deliveries, d.Genuine versionedHistory) ∧
      (Observer.run deliveries).view.held (ascii "a") = none ∧
      (Observer.run deliveries).view.held (ascii "b") = some renewedValue := by
  intro deliveries
  have hgenuine : ∀ d ∈ deliveries, d.Genuine versionedHistory := by
    simp only [deliveries, List.forall_mem_cons]
    refine ⟨genuine_versionedRefresh, ?_, ?_, ?_, nofun⟩ <;>
      simp [Delivery.Genuine, versionedHistory]
  have hheld := (view_converges versionedHistory _ hgenuine).1
  refine ⟨hgenuine, (hheld _).trans ?_, (hheld _).trans ?_⟩
  · decide +kernel
  · decide +kernel

theorem version_lost_by_refresh :
    ∃ (h : MembershipHistory) (deliveries : List Delivery) (a : Bytes),
      (∀ d ∈ deliveries, d.Genuine h) ∧ (Observer.run deliveries).view.held a ≠
          h.storeAt (max (appliedRefresh (Observer.run deliveries).accepted)
            (appliedEvent (Observer.run deliveries).accepted a)) a := by
  refine ⟨versionedHistory, [versionedRefresh], ascii "a", ?_, ?_⟩
  · intro d hd
    rw [List.mem_singleton.mp hd]
    exact genuine_versionedRefresh
  · decide +kernel

end Datasystem.Cluster
