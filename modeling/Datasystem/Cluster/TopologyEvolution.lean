import Datasystem.Cluster.PlannerSpec
import Datasystem.Cluster.TopologyPlanBuilder

/-! The life of a topology, seen from outside: the ways one committed state may
follow another. A step drops members or changes their state, and adds new ones;
it never touches the identity or the tokens of a member that stays. -/

namespace Datasystem.Cluster

open Common HashRingToken Lib.Checked HashAlgorithm TopologyPlanBuilder List Member TopologyState

/-- The id was derived from a membership record at the same address. -/
def Generated (source : MembershipSource) (identity : MemberIdentity) : Prop :=
  ∃ record ∈ source.records, record.address = identity.address ∧
    buildMemberId source.sha256 record = .ok identity.id

/-! ## Restating members -/

/-- Drop the members that `f` maps to `none` and move the others into the state it gives. -/
def restate (f : Member → Option MemberState) (members : List Member) : List Member :=
  members.filterMap fun m => (f m).map m.withState

variable {f : Member → Option MemberState} {members : List Member} {source : MembershipSource}
  {s : TopologyState} {n : Nat}

theorem mem_restate {m'} :
    m' ∈ restate f members ↔ ∃ m ∈ members, ∃ s, f m = some s ∧ m.withState s = m' := by
  simp [restate, mem_filterMap]

theorem map_identity_restate_sublist (f) (members) :
    ((restate f members).map identity).Sublist (members.map identity) := by
  induction members with
  | nil => simp [restate]
  | cons m _ ih =>
    cases hf : f m with
    | none => simpa [restate, hf] using ih.cons _
    | some => simpa [restate, hf] using ih

theorem flatMap_tokens_restate_sublist :
    ((restate f members).flatMap Member.tokens).Sublist (members.flatMap Member.tokens) := by
  induction members with
  | nil => simp [restate]
  | cons m _ ih =>
    cases hf : f m with
    | none =>
      simpa [restate, hf] using ih.trans (sublist_append_right _ _)
    | some => simpa [restate, hf] using ih

theorem map_restate_sublist {β : Type} (g : MemberIdentity → β) :
    ((restate f members).map fun m => g m.identity).Sublist
      (members.map fun m => g m.identity) := by
  have h := (map_identity_restate_sublist f members).map g
  simpa [Function.comp_def] using h

theorem ValidMembers.restate (h : ValidMembers members)
    (f : Member → Option MemberState) : ValidMembers (restate f members) where
  address m' hm' := by
    obtain ⟨m, hm, s, -, rfl⟩ := mem_restate.mp hm'
    exact h.address m hm
  idSize m' hm' := by
    obtain ⟨m, hm, s, -, rfl⟩ := mem_restate.mp hm'
    exact h.idSize m hm
  addresses_nodup := h.addresses_nodup.sublist (map_restate_sublist MemberIdentity.address)
  ids_nodup := h.ids_nodup.sublist (map_restate_sublist MemberIdentity.id)
  tokens_nodup := h.tokens_nodup.sublist flatMap_tokens_restate_sublist

theorem restate_congr {g} (h : ∀ m ∈ members, f m = g m) : restate f members = restate g members :=
  filterMap_congr fun m hm => by rw [h m hm]

theorem restate_some (members : List Member) (f : Member → MemberState) :
    restate (fun m => some (f m)) members = members.map fun m => m.withState (f m) := by
  simp [restate]

theorem restate_filter (members) (p) :
    restate (fun m => if p m then some m.state else none) members = members.filter p := by
  induction members with
  | nil => rfl
  | cons m _ ih =>
    cases hp : p m <;> simpa [restate, hp, withState] using ih

theorem restate_restate (f g) (members) : restate g (restate f members) =
      restate (fun m => (f m).bind fun s => g (m.withState s)) members := by
  simp only [restate, filterMap_filterMap]
  refine filterMap_congr fun m _ => ?_
  cases f m with
  | none => rfl
  | some => rfl

/-! ## Steps -/

/-- ACTIVE members at these addresses start to leave. -/
def retire (moved : List Bytes) (m : Member) : Option MemberState :=
  some (if m.state = .active ∧ m.address ∈ moved then .preLeaving else m.state)

/-- Members at these addresses are forgotten. -/
def forget (gone : List Bytes) (m : Member) : Option MemberState :=
  if m.address ∈ gone then none else some m.state

/-- Members at these addresses are leaving. -/
def leave (selected : List Bytes) (m : Member) : Option MemberState :=
  some (if m.address ∈ selected then .leaving else m.state)

/-- Members at these addresses have failed, and those at the others are forgotten. -/
def fail (failed gone : List Bytes) (m : Member) : Option MemberState :=
  if m.address ∈ gone then none else some (if m.address ∈ failed then .failed else m.state)

variable (m : Member)

/-- Joining members have joined. -/
def activate : Option MemberState :=
  some (if m.state = .joining then .active else m.state)

/-- Members in this state are gone. -/
def discard (state : MemberState) (m : Member) : Option MemberState :=
  if m.state = state then none else some m.state

/-- `s` at the next version, with these members and this batch. -/
def TopologyState.advance (s : TopologyState) (members : List Member)
    (batch : Option ActiveBatch) : TopologyState :=
  { s with version := s.version + 1, members := members, activeBatch := batch }

/-- The batch that a step at state `s` starts: its epoch is the version it is committed at. -/
def TopologyState.freshBatch (s : TopologyState) (type : TopologyChangeType) : ActiveBatch :=
  ⟨type, s.version + 1⟩

/-- The batch of a replanned scale-out, none when no joining member is left. -/
def replannedBatch (s : TopologyState) (members : List Member) : Option ActiveBatch :=
  if ∃ m ∈ members, m.state = .joining then some (s.freshBatch .scaleOut) else none

/-- The committed states that may follow `s`. -/
inductive Evolution (source : MembershipSource) (s : TopologyState) : TopologyState → Prop
  /-- Every member exited. -/
  | shutdown : Evolution source s (s.advance [] none)
  /-- The first owners, placed together. -/
  | bootstrap {placed kept : List Member} (hne : placed ≠ [])
      (hplaced : ∀ m ∈ placed, m.state = .active ∧ m.Placed defaultHashRingTokensPerMember ∧
        Generated source m.identity)
      (hkept : kept.Sublist s.members) (hinit : ∀ m ∈ kept, m.state = .initial)
      (hvalid : ValidMembers (placed ++ kept)) :
      Evolution source s
        { clusterHasInit := true
          version := s.version + 1
          members := placed ++ kept
          activeBatch := none
          tokensPerMember := defaultHashRingTokensPerMember }
  /-- Membership facts; the batch, if any, goes on. -/
  | admission (moved : List Bytes) {added : List Member}
      (hadded : ∀ m ∈ added, m.state = .initial ∧ m.Blank ∧ m.address ≠ [] ∧
        isCanonicalEndpoint m.address ∧ Generated source m.identity)
      (hfresh : Fresh s.addresses (added.map address)) :
      Evolution source s (s.advance (restate (retire moved) s.members ++ added) s.activeBatch)
  /-- INITIAL members whose record is gone; the batch, if any, goes on. -/
  | cleanup {gone : List Bytes}
      (hgone : ∀ m ∈ s.members, m.address ∈ gone → m.state = .initial) :
      Evolution source s (s.advance (restate (forget gone) s.members) s.activeBatch)
  /-- A scale-out starts: selected members get their tokens. -/
  | scaleOutStart {kept joined : List Member} (hstable : s.activeBatch = none)
      (hne : joined ≠ [])
      (hjoined : ∀ m ∈ joined, m.state = .joining ∧ m.Placed s.tokensPerMember ∧
        Generated source m.identity)
      (hkept : kept.Sublist s.members) (hdropped : ∀ m ∈ s.members, m ∉ kept → m.state = .initial)
      (howner : ∃ m ∈ kept, isCommittedMemberState m.state)
      (hvalid : ValidMembers (kept ++ joined)) :
      Evolution source s (s.advance (kept ++ joined) (some (s.freshBatch .scaleOut)))
  /-- A scale-out goes on without some of its members, or ends when none is left. -/
  | scaleOutReplan {gone : List Bytes} (hbatch : ∃ b ∈ s.activeBatch, b.type = .scaleOut)
      (hgone : ∀ m ∈ s.members, m.address ∈ gone → m.state = .initial ∨ m.state = .joining) :
      Evolution source s (s.advance (restate (forget gone) s.members)
        (replannedBatch s (restate (forget gone) s.members)))
  /-- A scale-in starts; somebody stays to take over. -/
  | scaleInStart {selected : List Bytes} (hstable : s.activeBatch = none)
      (hselected : ∀ m ∈ s.members, m.address ∈ selected →
        m.state = .active ∨ m.state = .preLeaving)
      (hsome : ∃ m ∈ s.members, m.address ∈ selected)
      (hstay : ∃ m ∈ s.members, isCommittedMemberState m.state ∧ m.address ∉ selected) :
      Evolution source s
        (s.advance (restate (leave selected) s.members) (some (s.freshBatch .scaleIn)))
  /-- Owners failed: a failure batch starts or is replanned, and preempts any other batch. -/
  | failure {failed gone : List Bytes}
      (hgone : ∀ m ∈ s.members, m.address ∈ gone → m.state = .initial ∨ m.state = .joining)
      (hfailed : ∀ m ∈ s.members, m.address ∈ failed →
        isCommittedMemberState m.state ∨ m.state = .failed)
      (hretained : ∀ m ∈ s.members, m.state = .failed → m.address ∈ failed)
      (hsome : ∃ m ∈ s.members, m.address ∈ failed) :
      Evolution source s
        (s.advance (restate (fail failed gone) s.members) (some (s.freshBatch .failure)))
  | scaleOutFinal (hbatch : ∃ b ∈ s.activeBatch, b.type = .scaleOut) :
      Evolution source s (s.advance (restate activate s.members) none)
  | scaleInFinal (hbatch : ∃ b ∈ s.activeBatch, b.type = .scaleIn) :
      Evolution source s (s.advance (restate (discard .leaving) s.members) none)
  /-- A failure batch ends and what it preempted is resumed. -/
  | failureFinal (hbatch : ∃ b ∈ s.activeBatch, b.type = .failure) {members : List Member}
      {batch : Option ActiveBatch}
      (h : resumeAfterFailure (restate (discard .failed) s.members) (s.version + 1) =
        (members, batch)) :
      Evolution source s (s.advance members batch)

/-! ## The invariant -/

/-- Members in good standing: exactly the INITIAL ones hold no tokens, and every other one
holds `n` tokens of its own. -/
structure Populated (source : MembershipSource) (n : Nat) (members : List Member) : Prop where
  valid : ValidMembers members
  placed : ∀ m ∈ members, m.state ≠ .initial → m.Placed n
  blank : ∀ m ∈ members, m.state = .initial → m.Blank
  generated : ∀ m ∈ members, Generated source m.identity

/-- What holds of every committed state. -/
structure WellFormed (source : MembershipSource) (s : TopologyState) : Prop where
  version : 0 < s.version ∧ s.version ≤ int64Max
  tokensPerMember : 0 < s.tokensPerMember ∧ s.tokensPerMember ≤ maxHashRingTokensPerMember
  epoch : ∀ b, s.activeBatch = some b → 0 < b.epoch ∧ b.epoch ≤ s.version
  populated : Populated source s.tokensPerMember s.members
  batchStates : BatchStates s
  separate : (∃ m ∈ s.members, m.state = .joining) → ∀ m ∈ s.members, m.state ≠ .leaving
  owner : (∃ b ∈ s.activeBatch, b.type = .scaleOut) →
    ∃ m ∈ s.members, isCommittedMemberState m.state

theorem WellFormed.tokens_ne_nil {m} (h : WellFormed source s) (hm : m ∈ s.members)
    (hs : m.state ≠ .initial) : m.tokens ≠ [] :=
  (h.populated.placed m hm hs).tokens_ne_nil h.tokensPerMember.1

theorem WellFormed.validTopology (h : WellFormed source s) : ValidTopology s where
  version := h.version
  tokensPerMember := h.tokensPerMember
  epoch := h.epoch
  batchStates := h.batchStates
  members := h.populated.valid
  committedToken := by
    rintro ⟨m, hm, hc⟩
    exact ⟨m, hm, hc, h.tokens_ne_nil hm (by rintro hs; simp [hs, isCommittedMemberState] at hc)⟩

theorem Populated.nil (source) (n : Nat) : Populated source n [] where
  valid := ⟨by simp, by simp, by simp, by simp, by simp⟩
  placed := by simp
  blank := by simp
  generated := by simp

/-- Restating keeps members in good standing when it neither makes nor unmakes INITIAL ones. -/
theorem Populated.restate (h : Populated source n members)
    (hf : ∀ m ∈ members, ∀ s, f m = some s → (s = .initial ↔ m.state = .initial)) :
    Populated source n (restate f members) where
  valid := h.valid.restate f
  placed m' hm' hs := by
    obtain ⟨m, hm, s, hfm, rfl⟩ := mem_restate.mp hm'
    exact (h.placed m hm (mt (hf m hm s hfm).mpr hs)).withState s
  blank m' hm' hs := by
    obtain ⟨m, hm, s, hfm, rfl⟩ := mem_restate.mp hm'
    exact (h.blank m hm ((hf m hm s hfm).mp hs)).withState s
  generated m' hm' := by
    obtain ⟨m, hm, s, hfm, rfl⟩ := mem_restate.mp hm'
    exact h.generated m hm

theorem Populated.sublist {kept}
    (h : Populated source n members) (hk : kept.Sublist members) : Populated source n kept where
  valid :=
    { address := fun m hm => h.valid.address m (hk.subset hm)
      idSize := fun m hm => h.valid.idSize m (hk.subset hm)
      addresses_nodup := h.valid.addresses_nodup.sublist (hk.map _)
      ids_nodup := h.valid.ids_nodup.sublist (hk.map _)
      tokens_nodup := h.valid.tokens_nodup.sublist (hk.flatMap _) }
  placed m hm := h.placed m (hk.subset hm)
  blank m hm := h.blank m (hk.subset hm)
  generated m hm := h.generated m (hk.subset hm)

theorem Generated.id_length {i} (h : Generated source i) : i.id.length = memberIdSize := by
  obtain ⟨r, -, -, hr⟩ := h
  obtain ⟨_, hlen, hid⟩ := bind_eq_ok.mp hr
  have hlen := check_eq_ok.mp hlen
  rw [← pure_eq_ok.mp hid, length_take]
  omega

/-- Blank members with ids of their own, at new addresses, may be added. -/
theorem Populated.append_blank {added} (h : Populated source n members)
    (hadded : ∀ m ∈ added, m.state = .initial ∧ m.Blank ∧ Generated source m.identity)
    (hcanonical : ∀ m ∈ added, CanonicalAddress m.address)
    (hfresh : Fresh (members.map address) (added.map address)) :
    Populated source n (members ++ added) := by
  have hgenerated : ∀ m ∈ members ++ added, Generated source m.identity := fun m hm =>
    (mem_append.mp hm).elim (h.generated m) fun hm => (hadded m hm).2.2
  have haddresses : ((members ++ added).map address).Nodup := by
    rw [map_append, nodup_append]
    exact ⟨h.valid.addresses_nodup, hfresh.1, fun a ha b hb hab => hfresh.2 b hb (hab ▸ ha)⟩
  have hblank : added.flatMap Member.tokens = [] :=
    flatMap_eq_nil_iff.mpr fun m hm => (hadded m hm).2.1.1
  refine ⟨⟨?_, fun m hm => (hgenerated m hm).id_length, haddresses, ?_, ?_⟩, ?_, ?_, hgenerated⟩
  · intro m hm
    exact (mem_append.mp hm).elim (h.valid.address m) (hcanonical m)
  · -- equal ids come from equal addresses, hence from one member
    have hnodup : (members ++ added).Nodup := haddresses.of_map _
    refine hnodup.map_on fun m hm m' hm' hid => ?_
    obtain ⟨r, hmem, hr, hbuild⟩ := hgenerated m hm
    obtain ⟨r', hmem', hr', hbuilt'⟩ := hgenerated m' hm'
    have ha := source.distinct r hmem r' hmem' _ hbuild (hid ▸ hbuilt')
    exact eq_of_address_eq haddresses hm hm' (by rw [address, ← hr, ha, hr'])
  · rw [flatMap_append, hblank, append_nil]
    exact h.valid.tokens_nodup
  · intro m hm hs
    exact (mem_append.mp hm).elim (fun hm => h.placed m hm hs) fun hm => absurd (hadded m hm).1 hs
  · intro m hm hs
    exact (mem_append.mp hm).elim (fun hm => h.blank m hm hs) fun hm => (hadded m hm).2.1

/-! ## One step keeps the invariant -/

theorem batchStates_none (h : s.activeBatch = none) :
    BatchStates s ↔ ∀ m ∈ s.members, ¬isTransitional m.state := by
  rw [BatchStates, h]

theorem batchStates_some {b} (h : s.activeBatch = some b) :
    BatchStates s ↔ (∀ m ∈ s.members, matchesBatch m.state b.type) ∧
      ∃ m ∈ s.members, m.state = b.type.participant := by
  rw [BatchStates, h]

section

variable {source : MembershipSource} {s : TopologyState}

variable {members : List Member} {m : Member} {st : MemberState} {gone : List Bytes}

section

variable (h : WellFormed source s) (hv : s.version + 1 ≤ int64Max)
  (hp : Populated source s.tokensPerMember members)

include h hv hp

/-- A step that ends without a batch leaves a well-formed state once nobody is in transition. -/
theorem WellFormed.advance_none (hstates : ∀ m ∈ members, ¬isTransitional m.state) :
    WellFormed source (s.advance members none) where
  version := ⟨Nat.succ_pos _, hv⟩
  tokensPerMember := h.tokensPerMember
  epoch := by simp [advance]
  populated := hp
  batchStates := (batchStates_none rfl).mpr hstates
  separate := by
    rintro ⟨m, hm, hs⟩
    exact absurd (by simp [isTransitional, hs]) (hstates m hm)
  owner := by simp [advance]

/-- The same for a step that ends with a batch of an epoch up to the new version. -/
theorem WellFormed.advance_some {b} (hepoch : 0 < b.epoch ∧ b.epoch ≤ s.version + 1)
    (hmatch : ∀ m ∈ members, matchesBatch m.state b.type)
    (hparticipant : ∃ m ∈ members, m.state = b.type.participant)
    (hseparate : (∃ m ∈ members, m.state = .joining) → ∀ m ∈ members, m.state ≠ .leaving)
    (howner : b.type = .scaleOut → ∃ m ∈ members, isCommittedMemberState m.state) :
    WellFormed source (s.advance members (some b)) where
  version := ⟨Nat.succ_pos _, hv⟩
  tokensPerMember := h.tokensPerMember
  epoch := by
    rintro _ ⟨⟩
    exact hepoch
  populated := hp
  batchStates := (batchStates_some rfl).mpr ⟨hmatch, hparticipant⟩
  separate := hseparate
  owner := by
    rintro ⟨_, ⟨⟩, hb⟩
    exact howner hb

/-- A step that keeps the batch and moves members only between states that no batch cares
about, as seen by `hback` and `hforth`. -/
theorem WellFormed.advance_same (hback : ∀ m ∈ members, m.state = .initial ∨ m.state = .preLeaving ∨
      ∃ m₀ ∈ s.members, m₀.state = m.state)
    (hforth : ∀ m ∈ s.members, m.state ≠ .initial → ∃ m' ∈ members,
      m'.state = m.state ∨ m.state = .active ∧ m'.state = .preLeaving) :
    WellFormed source (s.advance members s.activeBatch) := by
  have hstates := h.batchStates
  cases hb : s.activeBatch with
  | none =>
    rw [batchStates_none hb] at hstates
    refine h.advance_none hv hp fun m hm => ?_
    rcases hback m hm with hs | hs | ⟨m₀, hm₀, hs⟩
    · simp [hs, isTransitional]
    · simp [hs, isTransitional]
    · exact hs ▸ hstates m₀ hm₀
  | some b =>
    rw [batchStates_some hb] at hstates
    have hepoch := h.epoch b hb
    refine h.advance_some hv hp ⟨hepoch.1, by omega⟩ (fun m hm => ?_) ?_ ?_ ?_
    · rcases hback m hm with hs | hs | ⟨m₀, hm₀, hs⟩
      · cases ht : b.type <;> simp [hs, matchesBatch]
      · cases ht : b.type <;> simp [hs, matchesBatch]
      · exact hs ▸ hstates.1 m₀ hm₀
    · obtain ⟨m, hm, hs⟩ := hstates.2
      have hparticipant : m.state ≠ .initial ∧ m.state ≠ .active := by
        cases ht : b.type <;> simp [hs, ht, TopologyChangeType.participant]
      obtain ⟨m', hm', hs' | ⟨ha, -⟩⟩ := hforth m hm hparticipant.1
      · exact ⟨m', hm', hs'.trans hs⟩
      · exact absurd ha hparticipant.2
    · rintro ⟨j, hj, hjs⟩ l hl hls
      rcases hback j hj with hs | hs | ⟨j₀, hj₀, hs⟩
      · simp [hs] at hjs
      · simp [hs] at hjs
      · rcases hback l hl with hs' | hs' | ⟨l₀, hl₀, hs'⟩
        · simp [hs'] at hls
        · simp [hs'] at hls
        · exact h.separate ⟨j₀, hj₀, hs.trans hjs⟩ l₀ hl₀ (hs'.trans hls)
    · intro hscale
      obtain ⟨m, hm, hc⟩ := h.owner ⟨b, hb, hscale⟩
      obtain ⟨m', hm', hs'⟩ := hforth m hm (by rintro hs; simp [hs, isCommittedMemberState] at hc)
      refine ⟨m', hm', ?_⟩
      rcases hs' with hs' | ⟨-, hs'⟩
      · rwa [hs']
      · simp [hs', isCommittedMemberState]

end

theorem WellFormed.bootstrap (h : WellFormed source s) {placed kept} (hv : s.version + 1 ≤ int64Max)
    (hplaced : ∀ m ∈ placed, m.state = .active ∧ m.Placed defaultHashRingTokensPerMember ∧
      Generated source m.identity)
    (hkept : kept.Sublist s.members) (hinit : ∀ m ∈ kept, m.state = .initial)
    (hvalid : ValidMembers (placed ++ kept)) :
    WellFormed source
      { clusterHasInit := true
        version := s.version + 1
        members := placed ++ kept
        activeBatch := none
        tokensPerMember := defaultHashRingTokensPerMember } where
  version := ⟨Nat.succ_pos _, hv⟩
  tokensPerMember := by simp [defaultHashRingTokensPerMember, maxHashRingTokensPerMember]
  epoch := by simp
  populated :=
    { valid := hvalid
      placed := fun m hm hs => (mem_append.mp hm).elim (fun hm => (hplaced m hm).2.1)
        fun hm => absurd (hinit m hm) hs
      blank := fun m hm hs => by
        rcases mem_append.mp hm with hm | hm
        · simp [(hplaced m hm).1] at hs
        · exact h.populated.blank m (hkept.subset hm) hs
      generated := fun m hm => (mem_append.mp hm).elim (fun hm => (hplaced m hm).2.2)
        fun hm => h.populated.generated m (hkept.subset hm) }
  batchStates := (batchStates_none rfl).mpr fun m hm => by
    rcases mem_append.mp hm with hm | hm
    · simp [(hplaced m hm).1, isTransitional]
    · simp [hinit m hm, isTransitional]
  separate := by
    rintro ⟨m, hm, hs⟩
    rcases mem_append.mp hm with hm | hm
    · simp [(hplaced m hm).1] at hs
    · simp [hinit m hm] at hs
  owner := by simp

theorem retire_eq_some {moved} (h : retire moved m = some st) :
    st = m.state ∨ m.state = .active ∧ st = .preLeaving := by
  unfold retire at h
  split at h
  · rename_i hm
    exact .inr ⟨hm.1, (Option.some.inj h).symm⟩
  · exact .inl (Option.some.inj h).symm

theorem WellFormed.admission (h : WellFormed source s)
    (moved : List Bytes) {added} (hv : s.version + 1 ≤ int64Max)
    (hadded : ∀ m ∈ added, m.state = .initial ∧ m.Blank ∧ m.address ≠ [] ∧
      isCanonicalEndpoint m.address ∧ Generated source m.identity)
    (hshort : ∀ m ∈ added, m.address.length ≤ maxMemberAddressBytes)
    (hfresh : Fresh s.addresses (added.map address)) :
    WellFormed source (s.advance (restate (retire moved) s.members ++ added) s.activeBatch) := by
  have hretired : Populated source s.tokensPerMember (restate (retire moved) s.members) :=
    h.populated.restate fun m _ st hst => by
      rcases retire_eq_some hst with rfl | ⟨ha, rfl⟩
      · exact Iff.rfl
      · simp [ha]
  refine h.advance_same hv (hretired.append_blank ?_ ?_ ?_) (fun m hm => ?_) fun m hm _ => ?_
  · exact fun m hm => ⟨(hadded m hm).1, (hadded m hm).2.1, (hadded m hm).2.2.2.2⟩
  · exact fun m hm => ⟨(hadded m hm).2.2.1, hshort m hm, (hadded m hm).2.2.2.1⟩
  · refine ⟨hfresh.1, fun a ha hmem => hfresh.2 a ha ?_⟩
    exact (map_restate_sublist MemberIdentity.address).subset hmem
  · rcases mem_append.mp hm with hm | hm
    · obtain ⟨m₀, hm₀, st, hst, rfl⟩ := mem_restate.mp hm
      rcases retire_eq_some hst with rfl | ⟨-, rfl⟩
      · exact .inr (.inr ⟨m₀, hm₀, rfl⟩)
      · exact .inr (.inl rfl)
    · exact .inl (hadded m hm).1
  · refine ⟨_, mem_append_left _ (mem_restate.mpr ⟨m, hm, _, rfl, rfl⟩), ?_⟩
    exact retire_eq_some (show retire moved m = _ from rfl)

theorem forget_eq_some : forget gone m = some st ↔ m.address ∉ gone ∧ m.state = st := by
  by_cases hm : m.address ∈ gone <;> simp [forget, hm]

theorem Populated.forget {n : Nat} (h : Populated source n members) (gone) :
    Populated source n (Cluster.restate (Cluster.forget gone) members) :=
  h.restate fun m _ st hst => by rw [(forget_eq_some.mp hst).2]

theorem mem_restate_forget :
    m ∈ restate (forget gone) members ↔ m ∈ members ∧ m.address ∉ gone := by
  simp only [mem_restate, forget_eq_some]
  constructor
  · rintro ⟨m₀, hm₀, _, ⟨hgone, rfl⟩, rfl⟩
    exact ⟨hm₀, hgone⟩
  · rintro ⟨hm, hgone⟩
    exact ⟨m, hm, m.state, ⟨hgone, rfl⟩, rfl⟩

theorem WellFormed.cleanup (h : WellFormed source s) (hv : s.version + 1 ≤ int64Max)
    (hgone : ∀ m ∈ s.members, m.address ∈ gone → m.state = .initial) :
    WellFormed source (s.advance (restate (forget gone) s.members) s.activeBatch) := by
  refine h.advance_same hv (h.populated.forget gone) (fun m hm => ?_) fun m hm hs => ?_
  · exact .inr (.inr ⟨m, (mem_restate_forget.mp hm).1, rfl⟩)
  · exact ⟨m, mem_restate_forget.mpr ⟨hm, mt (hgone m hm) hs⟩, .inl rfl⟩

theorem WellFormed.scaleOutStart (h : WellFormed source s) {kept joined}
    (hv : s.version + 1 ≤ int64Max) (hstable : s.activeBatch = none) (hne : joined ≠ [])
    (hjoined : ∀ m ∈ joined, m.state = .joining ∧ m.Placed s.tokensPerMember ∧
      Generated source m.identity)
    (hkept : kept.Sublist s.members) (howner : ∃ m ∈ kept, isCommittedMemberState m.state)
    (hvalid : ValidMembers (kept ++ joined)) :
    WellFormed source (s.advance (kept ++ joined) (some (s.freshBatch .scaleOut))) := by
  have hstates := (batchStates_none hstable).mp h.batchStates
  have hkeptState : ∀ m ∈ kept, ¬isTransitional m.state := fun m hm =>
    hstates m (hkept.subset hm)
  have hp : Populated source s.tokensPerMember (kept ++ joined) := by
    have hpk := h.populated.sublist hkept
    refine ⟨hvalid, fun m hm hs => ?_, fun m hm hs => ?_, fun m hm => ?_⟩
    · exact (mem_append.mp hm).elim (fun hm => hpk.placed m hm hs) fun hm => (hjoined m hm).2.1
    · refine (mem_append.mp hm).elim (fun hm => hpk.blank m hm hs) fun hm => ?_
      simp [(hjoined m hm).1] at hs
    · exact (mem_append.mp hm).elim (hpk.generated m) fun hm => (hjoined m hm).2.2
  have hnle : ∀ m ∈ kept ++ joined, m.state ≠ .leaving := by
    intro m hm hs
    rcases mem_append.mp hm with hm | hm
    · exact hkeptState m hm (by simp [hs, isTransitional])
    · simp [(hjoined m hm).1] at hs
  refine h.advance_some hv hp ⟨Nat.succ_pos _, le_refl _⟩ (fun m hm => ?_) ?_
    (fun _ => hnle) fun _ => ?_
  · rcases mem_append.mp hm with hm | hm
    · cases hst : m.state <;> simp_all [isTransitional, matchesBatch, freshBatch]
    · simp [(hjoined m hm).1, matchesBatch, freshBatch]
  · obtain ⟨m, hm⟩ := exists_mem_of_ne_nil _ hne
    exact ⟨m, mem_append_right _ hm, (hjoined m hm).1⟩
  · obtain ⟨m, hm, hc⟩ := howner
    exact ⟨m, mem_append_left _ hm, hc⟩

/-- The states a scale-out allows, once nobody is joining any more. -/
theorem not_transitional_of_scaleOut (h : matchesBatch st .scaleOut)
    (hj : st ≠ .joining) : ¬isTransitional st := by
  cases st <;> simp_all [matchesBatch, isTransitional]

theorem WellFormed.scaleOutReplan (h : WellFormed source s)
    (hv : s.version + 1 ≤ int64Max) (hbatch : ∃ b ∈ s.activeBatch, b.type = .scaleOut)
    (hgone : ∀ m ∈ s.members, m.address ∈ gone → m.state = .initial ∨ m.state = .joining) :
    WellFormed source (s.advance (restate (forget gone) s.members)
      (replannedBatch s (restate (forget gone) s.members))) := by
  obtain ⟨b, hb, htype⟩ := hbatch
  have hmatch := ((batchStates_some hb).mp h.batchStates).1
  rw [htype] at hmatch
  have hp := h.populated.forget gone
  by_cases hj : ∃ m ∈ restate (forget gone) s.members, m.state = .joining
  · rw [replannedBatch, if_pos hj]
    refine h.advance_some hv hp ⟨Nat.succ_pos _, le_refl _⟩ (fun m hm => ?_) hj ?_ fun _ => ?_
    · exact hmatch m (mem_restate_forget.mp hm).1
    · intro _ m hm hs
      have hm' := hmatch m (mem_restate_forget.mp hm).1
      simp [hs, matchesBatch] at hm'
    · obtain ⟨m, hm, hc⟩ := h.owner ⟨b, hb, htype⟩
      refine ⟨m, mem_restate_forget.mpr ⟨hm, fun hg => ?_⟩, hc⟩
      rcases hgone m hm hg with hs | hs <;> simp [hs, isCommittedMemberState] at hc
  · rw [replannedBatch, if_neg hj]
    refine h.advance_none hv hp fun m hm => ?_
    exact not_transitional_of_scaleOut (hmatch m (mem_restate_forget.mp hm).1)
      fun hs => hj ⟨m, hm, hs⟩

theorem WellFormed.scaleInStart (h : WellFormed source s) {selected}
    (hv : s.version + 1 ≤ int64Max) (hstable : s.activeBatch = none)
    (hselected : ∀ m ∈ s.members, m.address ∈ selected →
      m.state = .active ∨ m.state = .preLeaving) (hsome : ∃ m ∈ s.members, m.address ∈ selected) :
    WellFormed source
      (s.advance (restate (leave selected) s.members) (some (s.freshBatch .scaleIn))) := by
  have hstates := (batchStates_none hstable).mp h.batchStates
  have hback : ∀ m ∈ restate (leave selected) s.members,
      m.state = .leaving ∨ ¬isTransitional m.state := by
    intro m hm
    obtain ⟨m₀, hm₀, st, hst, rfl⟩ := mem_restate.mp hm
    unfold leave at hst
    split at hst
    · exact .inl (Option.some.inj hst).symm
    · exact .inr (Option.some.inj hst ▸ hstates m₀ hm₀)
  have hp : Populated source s.tokensPerMember (restate (leave selected) s.members) :=
    h.populated.restate fun m hm st hst => by
      unfold leave at hst
      split at hst
      · rename_i hmem
        obtain rfl := Option.some.inj hst
        rcases hselected m hm hmem with hs | hs <;> simp [hs]
      · rw [Option.some.inj hst]
  refine h.advance_some hv hp ⟨Nat.succ_pos _, le_refl _⟩ (fun m hm => ?_) ?_ ?_ ?_
  · rcases hback m hm with hs | hs
    · simp [hs, matchesBatch, freshBatch]
    · cases hst : m.state <;> simp_all [isTransitional, matchesBatch, freshBatch]
  · obtain ⟨m, hm, hselect⟩ := hsome
    exact ⟨m.withState .leaving, mem_restate.mpr ⟨m, hm, _, by simp [leave, hselect], rfl⟩, rfl⟩
  · rintro ⟨j, hj, hjs⟩
    rcases hback j hj with hs | hs <;> simp [hjs, isTransitional] at hs
  · simp [freshBatch]

theorem fail_eq_some {failed} (h : fail failed gone m = some st) :
    m.address ∉ gone ∧ (m.address ∈ failed ∧ st = .failed ∨ m.address ∉ failed ∧ st = m.state) := by
  unfold fail at h
  split at h
  · cases h
  · rename_i hgone
    split at h <;> rename_i hfailed
    · exact ⟨hgone, .inl ⟨hfailed, (Option.some.inj h).symm⟩⟩
    · exact ⟨hgone, .inr ⟨hfailed, (Option.some.inj h).symm⟩⟩

theorem WellFormed.failure (h : WellFormed source s) {failed} (hv : s.version + 1 ≤ int64Max)
    (hgone : ∀ m ∈ s.members, m.address ∈ gone → m.state = .initial ∨ m.state = .joining)
    (hfailed : ∀ m ∈ s.members, m.address ∈ failed →
      isCommittedMemberState m.state ∨ m.state = .failed)
    (hsome : ∃ m ∈ s.members, m.address ∈ failed) :
    WellFormed source
      (s.advance (restate (fail failed gone) s.members) (some (s.freshBatch .failure))) := by
  have hp : Populated source s.tokensPerMember (restate (fail failed gone) s.members) :=
    h.populated.restate fun m hm st hst => by
      obtain ⟨-, ⟨hf, rfl⟩ | ⟨-, rfl⟩⟩ := fail_eq_some hst
      · rcases hfailed m hm hf with hc | hs
        · cases hst : m.state <;> simp_all [isCommittedMemberState]
        · simp [hs]
      · exact Iff.rfl
  refine h.advance_some hv hp ⟨Nat.succ_pos _, le_refl _⟩ (fun _ _ => rfl) ?_ ?_ ?_
  · obtain ⟨m, hm, hf⟩ := hsome
    refine ⟨m.withState .failed, mem_restate.mpr ⟨m, hm, _, ?_, rfl⟩, rfl⟩
    have hg : m.address ∉ gone := fun hg => by
      rcases hgone m hm hg with hs | hs <;> rcases hfailed m hm hf with hc | hc <;>
        simp [hs, isCommittedMemberState] at hc
    simp [fail, hg, hf]
  · -- a failure batch creates neither joining nor leaving members
    rintro ⟨j, hj, hjs⟩ l hl hls
    obtain ⟨j₀, hj₀, st, hst, rfl⟩ := mem_restate.mp hj
    obtain ⟨l₀, hl₀, st', hst', rfl⟩ := mem_restate.mp hl
    obtain ⟨-, ⟨-, rfl⟩ | ⟨-, rfl⟩⟩ := fail_eq_some hst
    · simp at hjs
    · obtain ⟨-, ⟨-, rfl⟩ | ⟨-, rfl⟩⟩ := fail_eq_some hst'
      · simp at hls
      · exact h.separate ⟨j₀, hj₀, hjs⟩ l₀ hl₀ hls
  · simp [freshBatch]

theorem WellFormed.scaleOutFinal (h : WellFormed source s) (hv : s.version + 1 ≤ int64Max)
    (hbatch : ∃ b ∈ s.activeBatch, b.type = .scaleOut) :
    WellFormed source (s.advance (restate activate s.members) none) := by
  obtain ⟨b, hb, htype⟩ := hbatch
  have hmatch := ((batchStates_some hb).mp h.batchStates).1
  rw [htype] at hmatch
  refine h.advance_none hv (h.populated.restate fun m hm st hst => ?_) fun m hm => ?_
  · unfold activate at hst
    split at hst
    · rename_i hs
      simp [← Option.some.inj hst, hs]
    · rw [Option.some.inj hst]
  · obtain ⟨m₀, hm₀, st, hst, rfl⟩ := mem_restate.mp hm
    unfold activate at hst
    split at hst
    · simp [← Option.some.inj hst, isTransitional]
    · rename_i hs
      rw [withState_state, ← Option.some.inj hst]
      exact not_transitional_of_scaleOut (hmatch m₀ hm₀) hs

theorem discard_eq_some {state} : discard state m = some st ↔ m.state ≠ state ∧ m.state = st := by
  by_cases hm : m.state = state <;> simp [discard, hm]

theorem mem_restate_discard {state} :
    m ∈ restate (discard state) members ↔ m ∈ members ∧ m.state ≠ state := by
  simp only [mem_restate, discard_eq_some]
  constructor
  · rintro ⟨m₀, hm₀, _, ⟨hs, rfl⟩, rfl⟩
    exact ⟨hm₀, hs⟩
  · rintro ⟨hm, hs⟩
    exact ⟨m, hm, m.state, ⟨hs, rfl⟩, rfl⟩

theorem Populated.discard {n : Nat} (h : Populated source n members) (state) :
    Populated source n (Cluster.restate (Cluster.discard state) members) :=
  h.restate fun m _ st hst => by rw [(discard_eq_some.mp hst).2]

theorem WellFormed.scaleInFinal (h : WellFormed source s) (hv : s.version + 1 ≤ int64Max)
    (hbatch : ∃ b ∈ s.activeBatch, b.type = .scaleIn) :
    WellFormed source (s.advance (restate (discard .leaving) s.members) none) := by
  obtain ⟨b, hb, htype⟩ := hbatch
  have hmatch := ((batchStates_some hb).mp h.batchStates).1
  refine h.advance_none hv (h.populated.discard _) fun m hm => ?_
  obtain ⟨hm, hs⟩ := mem_restate_discard.mp hm
  cases hst : m.state <;> simp_all [matchesBatch, isTransitional]

theorem WellFormed.failureFinal (h : WellFormed source s) (hv : s.version + 1 ≤ int64Max) {batch}
    (hresumed : resumeAfterFailure (restate (discard .failed) s.members) (s.version + 1) =
      (members, batch)) :
    WellFormed source (s.advance members batch) := by
  have hp := h.populated.discard .failed
  have hsep : (∃ m ∈ restate (discard .failed) s.members, m.state = .joining) →
      ∀ m ∈ restate (discard .failed) s.members, m.state ≠ .leaving := by
    rintro ⟨j, hj, hjs⟩ l hl
    exact h.separate ⟨j, (mem_restate_discard.mp hj).1, hjs⟩ l (mem_restate_discard.mp hl).1
  unfold resumeAfterFailure at hresumed
  split at hresumed
  · obtain ⟨rfl, rfl⟩ := Prod.mk.inj hresumed
    exact h.advance_none hv (.nil _ _) (by simp)
  · rename_i hcommitted
    split at hresumed
    · rename_i hj
      obtain ⟨rfl, rfl⟩ := Prod.mk.inj hresumed
      refine h.advance_some hv hp ⟨Nat.succ_pos _, le_refl _⟩ (fun m hm => ?_) hj hsep fun _ => ?_
      · have hl := hsep hj m hm
        have hf := (mem_restate_discard.mp hm).2
        simp [matchesBatch, hl, hf]
      · simpa using hcommitted
    · rename_i hj
      split at hresumed
      · rename_i hl
        obtain ⟨rfl, rfl⟩ := Prod.mk.inj hresumed
        refine h.advance_some hv hp ⟨Nat.succ_pos _, le_refl _⟩ (fun m hm => ?_) hl hsep ?_
        · have hnj : m.state ≠ .joining := fun hs => hj ⟨m, hm, hs⟩
          have hf := (mem_restate_discard.mp hm).2
          simp [matchesBatch, hnj, hf]
        · simp
      · rename_i hl
        obtain ⟨rfl, rfl⟩ := Prod.mk.inj hresumed
        refine h.advance_none hv hp fun m hm => ?_
        have hnj : m.state ≠ .joining := fun hs => hj ⟨m, hm, hs⟩
        have hnl : m.state ≠ .leaving := fun hs => hl ⟨m, hm, hs⟩
        have hf := (mem_restate_discard.mp hm).2
        simp [isTransitional, hnj, hnl, hf]

/-- **One step of a topology's life keeps it well formed**, as long as the version fits and no
address is too long for the store. -/
theorem Evolution.wellFormed {s'} (e : Evolution source s s')
    (h : WellFormed source s) (hv : s'.version ≤ int64Max)
    (hshort : ∀ m ∈ s'.members, m.address.length ≤ maxMemberAddressBytes) :
    WellFormed source s' := by
  cases e with
  | shutdown => exact h.advance_none hv (.nil _ _) (by simp)
  | bootstrap _ hplaced hkept hinitial hvalid => exact h.bootstrap hv hplaced hkept hinitial hvalid
  | admission moved hadded hfresh =>
    exact h.admission moved hv hadded (fun m hm => hshort m (mem_append_right _ hm)) hfresh
  | cleanup hgone => exact h.cleanup hv hgone
  | scaleOutStart hstable hne hjoined hkept _ howner hvalid =>
    exact h.scaleOutStart hv hstable hne hjoined hkept howner hvalid
  | scaleOutReplan hbatch hgone => exact h.scaleOutReplan hv hbatch hgone
  | scaleInStart hstable hselected hsome _ => exact h.scaleInStart hv hstable hselected hsome
  | failure hgone hfailed _ hsome => exact h.failure hv hgone hfailed hsome
  | scaleOutFinal hbatch => exact h.scaleOutFinal hv hbatch
  | scaleInFinal hbatch => exact h.scaleInFinal hv hbatch
  | failureFinal _ hresumed => exact h.failureFinal hv hresumed

end

end Datasystem.Cluster
