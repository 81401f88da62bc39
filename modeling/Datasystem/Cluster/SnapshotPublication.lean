import Datasystem.Cluster.Handover
import Datasystem.Cluster.TopologySnapshotState
import Datasystem.Lib.StateMachine

/-! Runs of publications. Between two calls of `Clear` the published version does not fall and
has one digest; host ids outlive publications that do not know them; and the tokens that count
as handed over are those completed in the scale-out that has been published ever since. -/

namespace Datasystem.Cluster

open Common HashRingToken Lib Spans Checked StateMachine Sorting List
open TopologySnapshotState (store recordScaleOutHandoffCompletion)

inductive SnapshotAction
  | publish (snapshot : Option EvidencedSnapshot)
  | publishAfterFullRebuild (snapshot : Option EvidencedSnapshot)
  | refreshHostIds (hostIds : OrderedMap Bytes Bytes) (coordinatorId : Bytes)
  | recordScaleOutHandoffCompletion (fence : TopologyExecutionFence)
  | clear

namespace TopologySnapshotState

/-- The state after a call; a failed one leaves it alone. -/
def step (s : TopologySnapshotState) : SnapshotAction → TopologySnapshotState
  | .publish snapshot => (s.publish snapshot).state
  | .publishAfterFullRebuild snapshot =>
    match s.publishAfterFullRebuild snapshot with
    | .ok s' => s'
    | .error _ => s
  | .refreshHostIds hostIds coordinatorId =>
    match s.refreshHostIds hostIds coordinatorId with
    | .ok s' => s'
    | .error _ => s
  | .recordScaleOutHandoffCompletion fence => s.recordScaleOutHandoffCompletion fence
  | .clear => s.clear

def run (actions : List SnapshotAction) : TopologySnapshotState := actions.foldl step {}

end TopologySnapshotState

open TopologySnapshotState

/-! ## What a call does -/

/-- The snapshot that is stored in place of a candidate. -/
structure Retains (previous : Option EvidencedSnapshot) (candidate stored : EvidencedSnapshot) :
    Prop where
  snapshot : stored.snapshot = candidate.snapshot
  digest : stored.canonicalDigest = candidate.canonicalDigest
  /-- Host ids that were known stay so if the candidate does not know them. -/
  hostIds : candidate.hostIdsKnown = false → ∀ c ∈ previous, c.hostIdsKnown = true →
    stored.hostIdsKnown = true ∧ stored.hostIds = retainedHostIds c candidate

theorem create_of_snapshot {s : EvidencedSnapshot} {hostIds : OrderedMap Bytes Bytes} {known : Bool}
    {coordinatorId : Bytes} :
    EvidencedSnapshot.create s.snapshot.state s.authorityRevision s.canonicalDigest hostIds known
      coordinatorId = .ok { s with
        hostIds := hostIds, hostIdsKnown := known, coordinatorId := coordinatorId } := by
  have hcreate : TopologySnapshot.create s.snapshot.state = .ok s.snapshot :=
    TopologySnapshot.create_eq_ok.mpr (validate_eq_ok_iff.mp s.snapshot.valid)
  rw [EvidencedSnapshot.create, dif_pos s.evidence, hcreate]
  rfl

theorem exists_retained (previous) (candidate) :
    ∃ stored, retainLastGoodHostIds previous candidate = .ok stored ∧
      Retains previous candidate stored := by
  cases previous with
  | none => exact ⟨candidate, rfl, rfl, rfl, nofun⟩
  | some c =>
    unfold retainLastGoodHostIds
    dsimp only
    by_cases hgood : candidate.hostIdsKnown ∨ ¬ c.hostIdsKnown
    · rw [if_pos hgood]
      refine ⟨candidate, rfl, rfl, rfl, ?_⟩
      intro hunknown c' hc' hknown
      cases hc'
      simp [hunknown, hknown] at hgood
    · rw [if_neg hgood, create_of_snapshot]
      refine ⟨_, rfl, rfl, rfl, ?_⟩
      intro _ c' hc' hknown
      cases hc'
      exact ⟨hknown, rfl⟩

/-- What a call does to the state. -/
inductive Change (s : TopologySnapshotState) : SnapshotAction → TopologySnapshotState → Prop
  | idle {a : SnapshotAction} (notClear : a ≠ .clear)
      (unrecorded : ∀ fence, a = .recordScaleOutHandoffCompletion fence → s.accepts fence = false) :
      Change s a s
  | published {a : SnapshotAction} {candidate stored : EvidencedSnapshot}
      (sent : a = .publish (some candidate) ∨ a = .publishAfterFullRebuild (some candidate))
      (retains : Retains s.current candidate stored)
      (newer : ∀ c ∈ s.current, c.version < candidate.version) :
      Change s a { s.resetScaleOutHandoffIfBatchChanged stored with current := some stored }
  | repeated {candidate c stored : EvidencedSnapshot} (current : s.current = some c)
      (version : candidate.version = c.version)
      (digest : candidate.canonicalDigest = c.canonicalDigest)
      (retains : Retains s.current candidate stored) :
      Change s (.publish (some candidate)) { s with current := some stored }
  | refreshed {hostIds : OrderedMap Bytes Bytes} {coordinatorId : Bytes} {c : EvidencedSnapshot}
      (current : s.current = some c) :
      Change s (.refreshHostIds hostIds coordinatorId) { s with current := some { c with
        hostIds := hostIds, hostIdsKnown := true, coordinatorId := coordinatorId } }
  | recorded {fence : TopologyExecutionFence} (accepted : s.accepts fence) :
      Change s (.recordScaleOutHandoffCompletion fence) (s.recordScaleOutHandoffCompletion fence)
  | cleared : Change s .clear {}

variable (s : TopologySnapshotState)

theorem store_eq (candidate) : ∃ stored, Retains s.current candidate stored ∧ s.store candidate =
      .ok { s.resetScaleOutHandoffIfBatchChanged stored with current := some stored } := by
  obtain ⟨stored, hretained, hretains⟩ := exists_retained s.current candidate
  refine ⟨stored, hretains, ?_⟩
  rw [store, hretained]
  rfl

theorem change_publish (snapshot) : Change s (.publish snapshot) (s.publish snapshot).state := by
  have hidle : Change s (.publish snapshot) s := .idle nofun nofun
  cases snapshot with
  | none => exact hidle
  | some candidate =>
    obtain ⟨stored, hretains, hstore⟩ := store_eq s candidate
    unfold publish
    dsimp only
    cases hcurrent : s.current with
    | none =>
      rw [hstore]
      exact .published (.inl rfl) hretains (by rw [hcurrent]; nofun)
    | some c =>
      dsimp only
      split
      · rw [hstore]
        refine .published (.inl rfl) hretains ?_
        intro c' hc'
        rw [hcurrent] at hc'
        cases hc'
        omega
      · split
        · exact hidle
        · split
          · exact hidle
          · split
            · rename_i hnotOlder hnotNewer hdigest
              split
              · obtain ⟨stored, hretained, hretains⟩ := exists_retained s.current candidate
                rw [hcurrent] at hretained
                rw [hretained]
                exact .repeated hcurrent (by omega) hdigest hretains
              · exact hidle
            · exact hidle

theorem change_publishAfterFullRebuild (snapshot) :
    Change s (.publishAfterFullRebuild snapshot) (s.step (.publishAfterFullRebuild snapshot)) := by
  have hidle : Change s (.publishAfterFullRebuild snapshot) s := .idle nofun nofun
  unfold step
  dsimp only
  split
  · rename_i s' hok
    cases snapshot with
    | none => cases hok
    | some candidate =>
      obtain ⟨_, hretains, hstore⟩ := store_eq s candidate
      obtain ⟨hnewer, hok⟩ := check_bind_eq_ok.mp hok
      cases hstore.symm.trans hok
      refine .published (.inr rfl) hretains ?_
      intro c hc
      have hall := hnewer
      rw [Option.all_eq_true] at hall
      exact of_decide_eq_true (hall c hc)
  · exact hidle

theorem change_refreshHostIds (hostIds : OrderedMap Bytes Bytes) (coordinatorId) :
    Change s (.refreshHostIds hostIds coordinatorId)
      (s.step (.refreshHostIds hostIds coordinatorId)) := by
  have hidle : Change s (.refreshHostIds hostIds coordinatorId) s := .idle nofun nofun
  unfold step refreshHostIds
  cases hcurrent : s.current with
  | none => exact hidle
  | some c =>
    dsimp only
    split
    · rename_i s' hok
      split at hok
      · cases hok
        exact hidle
      · split at hok
        · cases hok
          exact hidle
        · rw [create_of_snapshot] at hok
          cases hok
          exact .refreshed hcurrent
    · exact hidle

theorem change_step (a) : Change s a (s.step a) := by
  cases a with
  | publish snapshot => exact change_publish s snapshot
  | publishAfterFullRebuild snapshot => exact change_publishAfterFullRebuild s snapshot
  | refreshHostIds hostIds coordinatorId => exact change_refreshHostIds s hostIds coordinatorId
  | recordScaleOutHandoffCompletion fence =>
    show Change s _ (s.recordScaleOutHandoffCompletion fence)
    by_cases haccepts : s.accepts fence
    · exact .recorded haccepts
    · rw [recordScaleOutHandoffCompletion, if_neg haccepts]
      refine .idle nofun fun fence' heq => ?_
      cases heq
      exact Bool.eq_false_of_not_eq_true haccepts
  | clear => exact .cleared

/-! ## Versions and digests -/

/-- A later snapshot has a newer version, or the same version with the same digest. -/
def Advances (c c' : EvidencedSnapshot) : Prop :=
  c.version < c'.version ∨ (c.version = c'.version ∧ c.canonicalDigest = c'.canonicalDigest)

theorem Advances.refl (c) : Advances c c := .inr ⟨rfl, rfl⟩

theorem Advances.trans {c c' c''} (h : Advances c c') (h' : Advances c' c'') : Advances c c'' := by
  rcases h with hlt | ⟨heq, hdigest⟩
  · rcases h' with hlt' | ⟨heq', -⟩
    · exact .inl (hlt.trans hlt')
    · exact .inl (heq' ▸ hlt)
  · rcases h' with hlt' | ⟨heq', hdigest'⟩
    · exact .inl (heq ▸ hlt')
    · exact .inr ⟨heq.trans heq', hdigest.trans hdigest'⟩

theorem Retains.version {previous} {candidate stored}
    (h : Retains previous candidate stored) : stored.version = candidate.version := by
  rw [EvidencedSnapshot.version, h.snapshot, EvidencedSnapshot.version]

section

variable {s s' : TopologySnapshotState} {a : SnapshotAction} {c : EvidencedSnapshot}

theorem Change.advances (h : Change s a s') (hclear : a ≠ .clear) (hc : s.current = some c) :
    ∃ c', s'.current = some c' ∧ Advances c c' := by
  cases h with
  | idle _ _ => exact ⟨c, hc, .refl c⟩
  | @published _ candidate stored _ retains newer =>
    exact ⟨stored, rfl, .inl (retains.version ▸ newer c hc)⟩
  | @repeated candidate c₁ stored current version digest retains =>
    cases hc.symm.trans current
    exact ⟨stored, rfl, .inr ⟨version.symm.trans retains.version.symm,
      digest.symm.trans retains.digest.symm⟩⟩
  | @refreshed _ _ c₁ current =>
    cases hc.symm.trans current
    exact ⟨_, rfl, .inr ⟨rfl, rfl⟩⟩
  | recorded accepted =>
    refine ⟨c, ?_, .refl c⟩
    rw [recordScaleOutHandoffCompletion, if_pos accepted]
    exact hc
  | cleared => exact absurd rfl hclear

theorem foldl_advances {later : List SnapshotAction} (hclear : .clear ∉ later)
    (hc : s.current = some c) :
    ∃ c', (later.foldl step s).current = some c' ∧ Advances c c' := by
  induction later generalizing s c with
  | nil => exact ⟨c, hc, .refl c⟩
  | cons a _ ih =>
    obtain ⟨hne, hrest⟩ := not_or.mp (mt mem_cons.mpr hclear)
    obtain ⟨_, hc₁, hadvances⟩ := (change_step s a).advances (Ne.symm hne) hc
    obtain ⟨c', hc', hadvances'⟩ := ih hrest hc₁
    exact ⟨c', hc', hadvances.trans hadvances'⟩

end

/-! ## Host ids -/

namespace EvidencedSnapshot

variable (s : EvidencedSnapshot)

def HasMember (identity : MemberIdentity) : Prop :=
  ∃ m ∈ s.members, m.identity = identity

/-- The host id that the snapshot gives for an address. -/
def hostId (identity : MemberIdentity) : Option Bytes :=
  s.hostIds.find? identity.address

theorem addresses_apart : s.members.Pairwise fun m m' => m.address ≠ m'.address :=
  s.snapshot.sorted.imp ne_of_lt

theorem findMemberByAddress_of_mem {s : EvidencedSnapshot} {m : Member} (h : m ∈ s.members) :
    s.findMemberByAddress m.address = some m := by
  cases hfind : s.findMemberByAddress m.address with
  | none => exact absurd (decide_eq_true rfl) (find?_eq_none.mp hfind m h)
  | some m' =>
    have hadd : m'.address = m.address := by simpa using find?_some hfind
    rcases pairwise_trichotomy s.addresses_apart (mem_of_find?_eq_some hfind) h with
      heq | hne | hne
    · rw [heq]
    · exact absurd hadd hne
    · exact absurd hadd.symm hne

end EvidencedSnapshot

theorem find?_foldl_retainHostId {previous : EvidencedSnapshot} {members : List Member}
    {address : Bytes} (h : ∀ m ∈ members, address ≠ m.address) (hostIds : OrderedMap Bytes Bytes) :
    (members.foldl (retainHostId previous) hostIds).find? address = hostIds.find? address := by
  induction members generalizing hostIds with
  | nil => rfl
  | cons m _ ih =>
    rw [foldl_cons, ih fun m' hm' => h m' (mem_cons_of_mem _ hm')]
    unfold retainHostId
    split
    · split
      · rw [OrderedMap.find?_insert, if_neg (h m mem_cons_self)]
      · rfl
    · rfl

/-- A member that both snapshots have keeps its host id. -/
theorem find?_retainedHostIds {previous candidate : EvidencedSnapshot} {identity : MemberIdentity}
    {host : Bytes} (hprevious : previous.HasMember identity)
    (hcandidate : candidate.HasMember identity)
    (hhost : previous.hostId identity = some host) :
    (retainedHostIds previous candidate).find? identity.address = some host := by
  obtain ⟨old, hold, hidentity⟩ := hprevious
  obtain ⟨m, hm, rfl⟩ := hcandidate
  have hadd : old.address = m.address := congrArg MemberIdentity.address hidentity
  have hfind := EvidencedSnapshot.findMemberByAddress_of_mem hold
  rw [hadd] at hfind
  -- the members after this one have other addresses
  have hapart := candidate.addresses_apart
  unfold retainedHostIds
  obtain ⟨_, _, hsplit⟩ := append_of_mem hm
  rw [hsplit] at hapart ⊢
  obtain ⟨-, hapart, -⟩ := pairwise_append.mp hapart
  rw [foldl_append, foldl_cons]
  refine (find?_foldl_retainHostId (pairwise_cons.mp hapart).1 _).trans ?_
  unfold retainHostId
  rw [show previous.hostIds.find? m.address = some host from hhost, hfind]
  dsimp only
  rw [if_pos (congrArg MemberIdentity.id hidentity), OrderedMap.find?_insert, if_pos rfl]

/-- A call that brings no host ids to a state; a refresh brings none if it is ignored. -/
def SnapshotAction.BringsNoHostIds (s : TopologySnapshotState) : SnapshotAction → Prop
  | .publish snapshot => ∀ c ∈ snapshot, c.hostIdsKnown = false
  | .publishAfterFullRebuild snapshot => ∀ c ∈ snapshot, c.hostIdsKnown = false
  | .refreshHostIds hostIds coordinatorId => s.step (.refreshHostIds hostIds coordinatorId) = s
  | .recordScaleOutHandoffCompletion _ => True
  | .clear => False

/-- The published snapshot knows the host id of a member. -/
def KnowsHostId (identity : MemberIdentity) (host : Bytes) : Prop :=
  ∃ c, s.current = some c ∧ c.hostIdsKnown = true ∧ c.HasMember identity ∧
    c.hostId identity = some host

section

variable {s s' : TopologySnapshotState} {a : SnapshotAction} {identity : MemberIdentity}
  {host : Bytes}

theorem KnowsHostId.retains {candidate stored} (h : KnowsHostId s identity host)
    (hretains : Retains s.current candidate stored) (hunknown : candidate.hostIdsKnown = false)
    (hmem : stored.HasMember identity) :
    stored.hostIdsKnown = true ∧ stored.hostId identity = some host := by
  obtain ⟨c, hc, hknown, hold, hhost⟩ := h
  obtain ⟨hstored, heq⟩ := hretains.hostIds hunknown c hc hknown
  refine ⟨hstored, ?_⟩
  have hcandidate : candidate.HasMember identity := by
    unfold EvidencedSnapshot.HasMember EvidencedSnapshot.members at hmem ⊢
    rwa [hretains.snapshot] at hmem
  rw [EvidencedSnapshot.hostId, heq]
  exact find?_retainedHostIds hold hcandidate hhost

theorem KnowsHostId.step (h : KnowsHostId s identity host) (ha : a.BringsNoHostIds s)
    (hmem : ∀ c ∈ (s.step a).current, c.HasMember identity) :
    KnowsHostId (s.step a) identity host := by
  have hchange := change_step s a
  generalize hnext : s.step a = s' at hchange hmem ⊢
  cases hchange with
  | idle _ _ => exact h
  | @published _ candidate stored sent retains _ =>
    have hunknown : candidate.hostIdsKnown = false := by
      rcases sent with rfl | rfl <;> exact ha candidate rfl
    obtain ⟨hknown, hhost⟩ := h.retains retains hunknown (hmem stored rfl)
    exact ⟨stored, rfl, hknown, hmem stored rfl, hhost⟩
  | @repeated candidate c stored _ _ _ retains =>
    obtain ⟨hknown, hhost⟩ := h.retains retains (ha candidate rfl) (hmem stored rfl)
    exact ⟨stored, rfl, hknown, hmem stored rfl, hhost⟩
  | refreshed _ =>
    rw [← hnext, ha]
    exact h
  | recorded accepted =>
    rw [recordScaleOutHandoffCompletion, if_pos accepted]
    exact h
  | cleared => exact ha.elim

theorem KnowsHostId.foldl {later : List SnapshotAction} (h : KnowsHostId s identity host)
    (ha : ∀ k (hk : k < later.length),
      later[k].BringsNoHostIds ((later.take k).foldl TopologySnapshotState.step s))
    (hmem : ∀ k ≤ later.length, ∀ c ∈ ((later.take k).foldl TopologySnapshotState.step s).current,
      c.HasMember identity) :
    KnowsHostId (later.foldl TopologySnapshotState.step s) identity host := by
  induction later generalizing s with
  | nil => exact h
  | cons a _ ih =>
    refine ih (h.step (ha 0 (Nat.succ_pos _)) ?_) ?_ ?_
    · intro c hc
      exact hmem 1 (by simp) c (by simpa using hc)
    · intro k hk
      exact ha (k + 1) (Nat.succ_lt_succ hk)
    · intro k hk c hc
      exact hmem (k + 1) (by simpa using hk) c (by simpa using hc)

end

/-! ## Handed-over tokens -/

/-- Where digests come from: the states that are ever published, whose digests differ. -/
structure DigestSource where
  digest : TopologyState → Bytes
  states : Set TopologyState
  distinct : ∀ s ∈ states, ∀ s' ∈ states, digest s = digest s' → s = s'

/-- A snapshot of one of the states, with its digest. -/
structure EvidencedSnapshot.BuiltFrom (source : DigestSource) (s : EvidencedSnapshot) : Prop where
  mem : s.snapshot.state ∈ source.states
  digest : s.canonicalDigest = source.digest s.snapshot.state

/-- A publication sends a snapshot that was built, and a completion has ranges with their ends in
order. -/
def SnapshotAction.WellBuilt (source : DigestSource) : SnapshotAction → Prop
  | .publish snapshot => ∀ c ∈ snapshot, c.BuiltFrom source
  | .publishAfterFullRebuild snapshot => ∀ c ∈ snapshot, c.BuiltFrom source
  | .refreshHostIds _ _ => True
  | .recordScaleOutHandoffCompletion fence => ∀ range ∈ fence.ranges, range.lo ≤ range.hi
  | .clear => True

/-- The call completes a range with the token, for the scale-out that is published. -/
def Completes (epoch : Nat) (token : Token) (s : TopologySnapshotState)
    (a : SnapshotAction) : Prop :=
  ∃ fence, a = .recordScaleOutHandoffCompletion fence ∧ s.accepts fence ∧
    fence.batchEpoch = epoch ∧ Covers fence.ranges token

/-- The scale-out of the epoch is published. -/
def ScalesOut (epoch : Nat) (s : TopologySnapshotState) : Prop :=
  s.activeBatch = some ⟨.scaleOut, epoch⟩

/-- The completion belongs to the published scale-out, and its ranges can be searched. -/
structure HandoffSound (source : DigestSource) (s : TopologySnapshotState) : Prop where
  built : ∀ c ∈ s.current, c.BuiltFrom source
  current : ∀ completed ∈ s.scaleOutHandoffCompletion, ScalesOut completed.batchEpoch s
  ascending : ∀ completed ∈ s.scaleOutHandoffCompletion, Ascending completed.ranges

/-- The completion holds the token, as a set of points. -/
def HandedOver (epoch : Nat) (token : Token) : Prop :=
  ∃ completed, s.scaleOutHandoffCompletion = some completed ∧ completed.batchEpoch = epoch ∧
    Covers completed.ranges token

section

variable {source : DigestSource} {s s' : TopologySnapshotState} {a : SnapshotAction} {epoch : Nat}
  {token : Token}

theorem ScalesOut.pos (h : ScalesOut epoch s) : 0 < epoch := by
  obtain ⟨c, -, hbatch⟩ := Option.bind_eq_some_iff.mp h
  exact (c.snapshot.validTopology.epoch ⟨.scaleOut, epoch⟩ hbatch).1

theorem HandoffSound.isComplete_iff (h : HandoffSound source s) :
    s.isScaleOutHandoffComplete epoch token ↔ HandedOver s epoch token := by
  unfold isScaleOutHandoffComplete HandedOver
  cases hcompleted : s.scaleOutHandoffCompletion with
  | none => simp
  | some completed =>
    have hpos := (h.current completed hcompleted).pos
    simp only [Option.some.injEq, exists_eq_left']
    by_cases hepoch : completed.batchEpoch = epoch
    · rw [if_neg (not_or.mpr ⟨by omega, not_not.mpr hepoch⟩),
        (h.ascending completed hcompleted).covers_iff_find?]
      exact (and_iff_right hepoch).symm
    · rw [if_pos (.inr hepoch)]
      exact ⟨nofun, fun hover => absurd hover.1 hepoch⟩

theorem Retains.builtFrom {previous} {candidate stored}
    (h : Retains previous candidate stored) (hbuilt : candidate.BuiltFrom source) :
    stored.BuiltFrom source where
  mem := h.snapshot ▸ hbuilt.mem
  digest := by rw [h.digest, h.snapshot, hbuilt.digest]

/-- A publication keeps the completion of the batch it shows, and no other. -/
theorem completion_reset {stored} {completed} :
    (s.resetScaleOutHandoffIfBatchChanged stored).scaleOutHandoffCompletion = some completed ↔
      s.scaleOutHandoffCompletion = some completed ∧
        stored.activeBatch = some ⟨.scaleOut, completed.batchEpoch⟩ := by
  unfold resetScaleOutHandoffIfBatchChanged stillCurrent
  cases hbatch : stored.activeBatch with
  | none => simp
  | some batch =>
    cases hcompletion : s.scaleOutHandoffCompletion with
    | none => simp
    | some c =>
      obtain ⟨type, e⟩ := batch
      by_cases hcurrent : type = .scaleOut ∧ c.batchEpoch = e
      · obtain ⟨rfl, rfl⟩ := hcurrent
        simp only [and_self, decide_true, if_true, hcompletion]
        constructor
        · intro h
          cases h
          exact ⟨rfl, rfl⟩
        · exact fun h => h.1
      · simp only [hcurrent, decide_false, Bool.false_eq_true, if_false]
        constructor
        · exact nofun
        · rintro ⟨h, hb⟩
          cases h
          cases hb
          exact absurd ⟨rfl, rfl⟩ hcurrent

/-- The ranges that a completion is merged with. -/
theorem HandoffSound.recorded (h : HandoffSound source s) {fence}
    (haccepts : s.accepts fence) (hranges : ∀ range ∈ fence.ranges, range.lo ≤ range.hi) :
    ∃ ranges, s.recordScaleOutHandoffCompletion fence =
        { s with scaleOutHandoffCompletion := some ⟨fence.batchEpoch, ranges⟩ } ∧
      Ascending ranges ∧
      ∀ token, Covers ranges token ↔
        Covers fence.ranges token ∨ HandedOver s fence.batchEpoch token := by
  have hactive : s.activeBatch = some ⟨.scaleOut, fence.batchEpoch⟩ :=
    (of_decide_eq_true haccepts).2.2.2
  rw [recordScaleOutHandoffCompletion, if_pos haccepts]
  cases hcompletion : s.scaleOutHandoffCompletion with
  | none =>
    obtain ⟨hascending, hcovers⟩ := merge_spec hranges
    refine ⟨_, rfl, by simpa [mergeRanges] using hascending, fun token => ?_⟩
    simp [mergeRanges, hcovers, HandedOver, hcompletion]
  | some previous =>
    have hepoch : previous.batchEpoch = fence.batchEpoch := by
      have hprevious := (h.current previous hcompletion).symm.trans hactive
      exact congrArg ActiveBatch.epoch (Option.some.inj hprevious)
    obtain ⟨hascending, hcovers⟩ := merge_spec (l := fence.ranges ++ previous.ranges) (by
      intro range hrange
      rcases mem_append.mp hrange with hrange | hrange
      · exact hranges range hrange
      · exact (h.ascending previous hcompletion).nonempty range hrange)
    refine ⟨merge (fence.ranges ++ previous.ranges), ?_, hascending, fun token => ?_⟩
    · dsimp only
      rw [if_pos hepoch]
      rfl
    · rw [hcovers, covers_append]
      simp [HandedOver, hcompletion, hepoch]

theorem HandoffSound.step (h : HandoffSound source s) (ha : a.WellBuilt source) :
    HandoffSound source (s.step a) := by
  have hchange := change_step s a
  generalize s.step a = s' at hchange ⊢
  cases hchange with
  | idle _ _ => exact h
  | @published _ candidate stored sent retains _ =>
    have hbuilt : candidate.BuiltFrom source := by
      rcases sent with rfl | rfl <;> exact ha candidate rfl
    refine ⟨?_, ?_, ?_⟩
    · intro c hc
      cases hc
      exact retains.builtFrom hbuilt
    · intro completed hcompleted
      exact (completion_reset.mp hcompleted).2
    · intro completed hcompleted
      exact h.ascending completed (completion_reset.mp hcompleted).1
  | @repeated candidate c stored current _ digest retains =>
    have hbuilt := retains.builtFrom (ha candidate rfl)
    have hold := h.built c current
    have hsame := retains.digest.trans digest
    rw [hold.digest, hbuilt.digest] at hsame
    -- the same digest is the same topology, so that the batch stays
    have hbatch : stored.activeBatch = c.activeBatch := by
      rw [EvidencedSnapshot.activeBatch, source.distinct _ hbuilt.mem _ hold.mem hsame,
        EvidencedSnapshot.activeBatch]
    refine ⟨?_, ?_, h.ascending⟩
    · intro c' hc'
      cases hc'
      exact hbuilt
    · intro completed hcompleted
      have hscales := h.current completed hcompleted
      rw [ScalesOut, TopologySnapshotState.activeBatch, current] at hscales
      exact hbatch.trans hscales
  | @refreshed _ _ c current =>
    refine ⟨?_, ?_, h.ascending⟩
    · intro c' hc'
      cases hc'
      exact ⟨(h.built c current).mem, (h.built c current).digest⟩
    · intro completed hcompleted
      have hscales := h.current completed hcompleted
      rw [ScalesOut, TopologySnapshotState.activeBatch, current] at hscales
      exact hscales
  | @recorded fence accepted =>
    obtain ⟨_, heq, hascending, -⟩ := h.recorded accepted ha
    rw [heq]
    refine ⟨h.built, ?_, ?_⟩
    · intro completed hcompleted
      cases hcompleted
      exact (of_decide_eq_true accepted).2.2.2
    · intro completed hcompleted
      cases hcompleted
      exact hascending
  | cleared => exact ⟨nofun, nofun, nofun⟩

/-- One call: the token counts after it if the scale-out is still published, and the call or an
earlier one completed a range with it. -/
theorem HandoffSound.handedOver_step (h : HandoffSound source s) (ha : a.WellBuilt source) :
    HandedOver (s.step a) epoch token ↔ ScalesOut epoch (s.step a) ∧
      (Completes epoch token s a ∨ HandedOver s epoch token) := by
  have hscales : HandedOver (s.step a) epoch token → ScalesOut epoch (s.step a) := by
    rintro ⟨completed, hcompleted, rfl, -⟩
    exact (h.step ha).current completed hcompleted
  -- unless it completes a range, a call adds no token
  have hnone : (∀ fence, a = .recordScaleOutHandoffCompletion fence → s.accepts fence = false) →
      (HandedOver (s.step a) epoch token ↔ ScalesOut epoch (s.step a) ∧ HandedOver s epoch token) →
      (HandedOver (s.step a) epoch token ↔ ScalesOut epoch (s.step a) ∧
        (Completes epoch token s a ∨ HandedOver s epoch token)) := by
    intro hunrecorded hiff
    have hcompletes : ¬ Completes epoch token s a := by
      rintro ⟨fence, heq, haccepted, -⟩
      rw [hunrecorded fence heq] at haccepted
      cases haccepted
    rw [or_iff_right hcompletes]
    exact hiff
  have hchange := change_step s a
  generalize s.step a = s' at hchange hscales hnone ⊢
  cases hchange with
  | idle _ unrecorded =>
    exact hnone unrecorded ⟨fun hover => ⟨hscales hover, hover⟩, And.right⟩
  | @published _ candidate stored sent retains _ =>
    refine hnone (by rcases sent with rfl | rfl <;> nofun) ⟨fun hover => ⟨hscales hover, ?_⟩, ?_⟩
    · obtain ⟨completed, hcompleted, hepoch, hcovered⟩ := hover
      exact ⟨completed, (completion_reset.mp hcompleted).1, hepoch, hcovered⟩
    · rintro ⟨hbatch, completed, hcompleted, rfl, hcovered⟩
      exact ⟨completed, completion_reset.mpr ⟨hcompleted, hbatch⟩, rfl, hcovered⟩
  | repeated _ _ _ _ | refreshed _ =>
    exact hnone nofun ⟨fun hover => ⟨hscales hover, hover⟩, And.right⟩
  | @recorded fence accepted =>
    obtain ⟨ranges, heq, -, hcovered⟩ := h.recorded accepted ha
    have hactive : s.activeBatch = some ⟨.scaleOut, fence.batchEpoch⟩ :=
      (of_decide_eq_true accepted).2.2.2
    rw [heq] at hscales ⊢
    constructor
    · intro hover
      refine ⟨hscales hover, ?_⟩
      obtain ⟨_, hcompleted, rfl, hcovers⟩ := hover
      cases hcompleted
      rcases (hcovered token).mp hcovers with hfence | hover
      · exact .inl ⟨fence, rfl, accepted, rfl, hfence⟩
      · exact .inr hover
    · rintro ⟨hbatch, hover⟩
      have hepoch : fence.batchEpoch = epoch := by
        exact congrArg ActiveBatch.epoch (Option.some.inj (hactive.symm.trans hbatch))
      refine ⟨⟨fence.batchEpoch, ranges⟩, rfl, hepoch, (hcovered token).mpr ?_⟩
      rcases hover with ⟨fence', heq', -, -, hfence⟩ | hover
      · cases heq'
        exact .inl hfence
      · exact .inr (hepoch ▸ hover)
  | cleared =>
    refine hnone nofun ⟨fun hover => ⟨hscales hover, ?_⟩, ?_⟩
    · obtain ⟨_, hcompleted, -⟩ := hover
      cases hcompleted
    · rintro ⟨hbatch, -⟩
      cases hbatch

end

theorem handoffSound_run {source} {actions}
    (h : ∀ a ∈ actions, a.WellBuilt source) :
    HandoffSound source (TopologySnapshotState.run actions) := by
  unfold TopologySnapshotState.run
  induction actions using List.reverseRecOn with
  | nil => exact ⟨nofun, nofun, nofun⟩
  | append_singleton _ a ih =>
    rw [foldl_concat]
    exact (ih fun b hb => h b (mem_append_left _ hb)).step (h a (by simp))

theorem handedOver_iff {source} {actions} (h : ∀ a ∈ actions, a.WellBuilt source) (epoch : Nat)
    (token) :
    HandedOver (TopologySnapshotState.run actions) epoch token ↔
      HeldSince step {} (Completes epoch token) (ScalesOut epoch) actions := by
  induction actions using List.reverseRecOn with
  | nil =>
    constructor
    · rintro ⟨_, hcompletes, -⟩
      cases hcompletes
    · rintro ⟨_, _, _, heq, -⟩
      simp at heq
  | append_singleton earlier a ih =>
    have hearlier : ∀ b ∈ earlier, b.WellBuilt source := fun b hb => h b (mem_append_left _ hb)
    rw [heldSince_concat, ← ih hearlier]
    unfold TopologySnapshotState.run
    rw [foldl_concat]
    exact (handoffSound_run hearlier).handedOver_step (h a (by simp))

/-- In every run: without a `Clear`, versions do not fall and have one digest; a member that stays
in the published topology keeps its host id through publications that bring none; and a token
counts as handed over exactly if a range with it was completed in the scale-out that has been
published since. -/
theorem publication_sound (source : DigestSource) (actions : List SnapshotAction) :
    (∀ earlier later, actions = earlier ++ later → .clear ∉ later →
      ∀ c, (TopologySnapshotState.run earlier).current = some c →
        ∃ c', (TopologySnapshotState.run actions).current = some c' ∧ c.version ≤ c'.version ∧
          (c.version = c'.version → c.canonicalDigest = c'.canonicalDigest)) ∧
    (∀ earlier later, actions = earlier ++ later →
      (∀ k (hk : k < later.length),
        later[k].BringsNoHostIds (TopologySnapshotState.run (earlier ++ later.take k))) →
      ∀ identity host, KnowsHostId (TopologySnapshotState.run earlier) identity host →
        (∀ k ≤ later.length, ∀ c ∈ (TopologySnapshotState.run (earlier ++ later.take k)).current,
          c.HasMember identity) →
        KnowsHostId (TopologySnapshotState.run actions) identity host) ∧
    ((∀ a ∈ actions, a.WellBuilt source) →
      ∀ epoch token, (TopologySnapshotState.run actions).isScaleOutHandoffComplete epoch token ↔
        HeldSince TopologySnapshotState.step {} (Completes epoch token) (ScalesOut epoch)
          actions) := by
  refine ⟨?_, ?_, ?_⟩
  · rintro earlier later rfl hclear c hc
    obtain ⟨c', hc', hadvances⟩ := foldl_advances hclear hc
    refine ⟨c', ?_, ?_⟩
    · rw [TopologySnapshotState.run, List.foldl_append]
      exact hc'
    · rcases hadvances with hlt | ⟨heq, hdigest⟩
      · exact ⟨hlt.le, fun heq => absurd heq hlt.ne⟩
      · exact ⟨heq.le, fun _ => hdigest⟩
  · rintro earlier later rfl hsilent identity host hknows hmem
    simp only [TopologySnapshotState.run, foldl_append] at hsilent hmem ⊢
    exact hknows.foldl hsilent hmem
  · intro hbuilt epoch token
    rw [(handoffSound_run hbuilt).isComplete_iff, handedOver_iff hbuilt]

/-! ## Sample runs -/

/-- A digest that tells the versions one to nine apart. -/
def versionDigest (state : TopologyState) : Bytes :=
  List.replicate sha256HexSize (Fin.ofNat 256 (48 + state.version))

def joiningPair : TopologySnapshot := pairJoining

def joiningSource : DigestSource where
  digest := versionDigest
  states := {joiningPair.state}
  distinct := by
    rintro s rfl s' rfl _
    rfl

def joiningSnapshot : EvidencedSnapshot :=
  ⟨joiningPair, 1, versionDigest joiningPair.state, .empty, false, [], by decide +kernel⟩

/-- The whole ring, up to its last token. -/
def wholeRingFence : TopologyExecutionFence :=
  ⟨[], .migrate, .scaleOut, 5, .scaleOut, leftIdentity, none, none, none,
    [⟨200, 4294967295⟩, ⟨0, 199⟩]⟩

theorem last_token_handed_over : (TopologySnapshotState.run [.publish (some joiningSnapshot),
      .recordScaleOutHandoffCompletion wholeRingFence]).isScaleOutHandoffComplete 5 4294967295 := by
  have hbuilt : ∀ a ∈ [SnapshotAction.publish (some joiningSnapshot),
      .recordScaleOutHandoffCompletion wholeRingFence], a.WellBuilt joiningSource := by
    refine forall_mem_cons.mpr ⟨?_, forall_mem_singleton.mpr ?_⟩
    · intro c hc
      cases hc
      exact ⟨rfl, rfl⟩
    · show ∀ range ∈ wholeRingFence.ranges, range.lo ≤ range.hi
      decide
  refine ((publication_sound joiningSource _).2.2 hbuilt 5 4294967295).mpr ?_
  refine ⟨[.publish (some joiningSnapshot)], _, [], rfl,
    ⟨wholeRingFence, rfl, rfl, rfl, ?_⟩, fun k _ => ?_⟩
  · exact ⟨⟨200, 4294967295⟩, by decide, by decide⟩
  · rw [take_nil]
    rfl

def pairAt (version : Nat) (h : validateAndCanonicalizeTopologyState
      (pairTopology version none .active .active sampleTokens) =
        .ok (pairTopology version none .active .active sampleTokens)) : TopologySnapshot :=
  snapshotOf _ h

def soleLeft : TopologySnapshot :=
  snapshotOf
    { clusterHasInit := true
      version := 2
      members := [⟨leftIdentity, .active, [100], []⟩] } rfl

def pairKnown : EvidencedSnapshot :=
  ⟨pairAt 1 rfl, 1, versionDigest (pairAt 1 rfl).state,
    OrderedMap.empty.insert rightIdentity.address (ascii "host"), true, [], by decide +kernel⟩

def leftUnknown : EvidencedSnapshot :=
  ⟨soleLeft, 2, versionDigest soleLeft.state, .empty, false, [], by decide +kernel⟩

def pairUnknown : EvidencedSnapshot :=
  ⟨pairAt 3 rfl, 3, versionDigest (pairAt 3 rfl).state, .empty, false, [], by decide +kernel⟩

/-- The right member is gone from one publication and back in the next. -/
theorem host_id_lost_by_absent_member :
    ∃ (earlier later : List SnapshotAction) (identity : MemberIdentity) (host : Bytes),
      (∀ k (hk : k < later.length),
        later[k].BringsNoHostIds (TopologySnapshotState.run (earlier ++ later.take k))) ∧
        KnowsHostId (TopologySnapshotState.run earlier) identity host ∧
        ∃ c, (TopologySnapshotState.run (earlier ++ later)).current = some c ∧
          c.HasMember identity ∧ c.hostId identity ≠ some host := by
  have hrun : (TopologySnapshotState.run [.publish (some pairKnown), .publish (some leftUnknown),
      .publish (some pairUnknown)]).current.any fun c =>
        (c.members.any fun m => m.identity = rightIdentity) ∧
          c.hostId rightIdentity ≠ some (ascii "host") := by decide +kernel
  obtain ⟨c, hc, hlost⟩ := (Option.any_eq_true _ _).mp hrun
  obtain ⟨hmem, hhost⟩ := of_decide_eq_true hlost
  refine ⟨[.publish (some pairKnown)], [.publish (some leftUnknown), .publish (some pairUnknown)],
    rightIdentity, ascii "host", ?_, ?_, c, hc, ?_, hhost⟩
  · intro k hk
    match k with
    | 0 | 1 =>
      intro c hc
      cases hc
      rfl
  · exact ⟨pairKnown, rfl, rfl, ⟨_, mem_cons_of_mem _ mem_cons_self, rfl⟩, rfl⟩
  · obtain ⟨m, hm, hidentity⟩ := any_eq_true.mp hmem
    exact ⟨m, hm, of_decide_eq_true hidentity⟩

end Datasystem.Cluster
