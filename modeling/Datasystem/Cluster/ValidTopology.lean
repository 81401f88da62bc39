import Datasystem.Cluster.TopologyTypes
import Datasystem.Common.HostPort

/-! Validation of a topology state and the snapshot built from a valid one. A
snapshot keeps its members in address order and two token indexes: the owners
that route today and the owners that will route once the batch is final. -/

namespace Datasystem.Cluster

open Common HashRingToken Lib.Sorting

/-- `std::numeric_limits<int64_t>::max()` -/
def int64Max : Nat := 9223372036854775807

variable (state : MemberState)

def isProspective (batch : Option ActiveBatch) : Bool :=
  match batch with
  | none => false
  | some b =>
    match b.type with
    | .scaleOut => isCommittedMemberState state || state == .joining
    | .scaleIn => isCommittedMemberState state && state != .leaving
    | .failure => false

def matchesBatch (type : TopologyChangeType) : Bool :=
  match type with
  | .scaleOut => state != .leaving && state != .failed
  | .scaleIn => state != .joining && state != .failed
  | .failure => true

def isTransitional : Bool :=
  state == .joining || state == .leaving || state == .failed

/-- The loop over the members of an active batch; returns whether a participant was seen. -/
def validateParticipants (type : TopologyChangeType) (hasParticipant : Bool) :
    List Member → Result Bool
  | [] => pure hasParticipant
  | member :: rest => do
    checkFailReturnStatus (matchesBatch member.state type) .kInvalid
      "member state does not match active batch"
    validateParticipants type
      (hasParticipant
        || (type == .scaleOut && member.state == .joining)
        || (type == .scaleIn && member.state == .leaving)
        || (type == .failure && member.state == .failed)) rest

variable (state : TopologyState)

def validateBatchStates : Result Unit :=
  match state.activeBatch with
  | none =>
    checkFailReturnStatus (∀ member ∈ state.members, ¬isTransitional member.state) .kInvalid
      "stable topology contains transitional member"
  | some batch => do
    let hasParticipant ← validateParticipants batch.type false state.members
    checkFailReturnStatus hasParticipant .kInvalid "active batch has no participant"

def validateAddress (address : Bytes) : Result Unit :=
  checkFailReturnStatus
    (address ≠ [] ∧ address.length ≤ maxMemberAddressBytes ∧ isCanonicalEndpoint address)
    .kInvalid "invalid canonical member address"

/-- Insert a member's tokens into the set of tokens seen so far. -/
def insertTokens (msg : String) (tokens : List Token) : List Token → Result (List Token)
  | [] => pure tokens
  | ringPoint :: rest => do
    checkFailReturnStatus (ringPoint ∉ tokens) .kInvalid msg
    insertTokens msg (ringPoint :: tokens) rest

/-- What the member loop of the validator carries from one member to the next. -/
structure MemberScan where
  previousAddress : Option Bytes := none
  ids : List Bytes := []
  tokens : List Token := []
  hasCommittedMember : Bool := false
  hasCommittedToken : Bool := false

def scanMember (scan : MemberScan) (member : Member) : Result MemberScan := do
  validateAddress member.address
  checkFailReturnStatus (member.identity.id.length = memberIdSize) .kInvalid "invalid member id"
  checkFailReturnStatus (scan.previousAddress ≠ some member.address) .kInvalid
    "duplicate member address"
  checkFailReturnStatus (member.identity.id ∉ scan.ids) .kInvalid "duplicate member id"
  let tokens ← insertTokens "duplicate topology token" scan.tokens member.tokens
  let committed := isCommittedMemberState member.state
  pure
    { previousAddress := some member.address
      ids := member.identity.id :: scan.ids
      tokens := tokens
      hasCommittedMember := scan.hasCommittedMember || committed
      hasCommittedToken := scan.hasCommittedToken || (committed && !member.tokens.isEmpty) }

def scanMembers (scan : MemberScan) : List Member → Result MemberScan
  | [] => pure scan
  | member :: rest => do
    let scan ← scanMember scan member
    scanMembers scan rest

/-- Members in address order, the order every committed state has. -/
def canonicalize : TopologyState :=
  { state with members := sortBy Member.address state.members }

/-- The epoch check, made only while a batch is active. -/
def validateEpoch : Result Unit :=
  match state.activeBatch with
  | none => pure ()
  | some batch =>
    checkFailReturnStatus (0 < batch.epoch ∧ batch.epoch ≤ state.version) .kInvalid
      "invalid active batch epoch"

def validateAndCanonicalizeTopologyState : Result TopologyState := do
  checkFailReturnStatus (0 < state.version ∧ state.version ≤ int64Max) .kInvalid
    "invalid topology version"
  checkFailReturnStatus
    (0 < state.tokensPerMember ∧ state.tokensPerMember ≤ maxHashRingTokensPerMember) .kInvalid
    "invalid topology tokens per member"
  validateEpoch state
  validateBatchStates state
  let scan ← scanMembers {} (canonicalize state).members
  checkFailReturnStatus (scan.hasCommittedMember → scan.hasCommittedToken) .kInvalid
    "committed topology members have no token owner"
  pure (canonicalize state)

/-! ## Snapshot -/

/-- One entry of a token index. -/
abbrev TokenIndexEntry := Token × Member

/-- The tokens of the members that satisfy `p`, in ring order. -/
def tokenIndex (p : Member → Bool) (members : List Member) : List TokenIndexEntry :=
  sortBy Prod.fst ((members.filter p).flatMap fun m => m.tokens.map fun t => (t, m))

/-- A validated topology with its token indexes. -/
structure TopologySnapshot where
  state : TopologyState
  valid : validateAndCanonicalizeTopologyState state = .ok state

namespace TopologySnapshot

variable (snapshot : TopologySnapshot)

def committedTokenOwners : List TokenIndexEntry :=
  tokenIndex (fun m => isCommittedMemberState m.state) snapshot.state.members

def prospectiveTokenOwners : List TokenIndexEntry :=
  tokenIndex (fun m => isProspective m.state snapshot.state.activeBatch) snapshot.state.members

end TopologySnapshot

/-! What the topology validator accepts. `ValidTopology` is the invariant in
declarative form; `validate_eq_ok_iff` says that the validator accepts exactly
these states and returns them in address order. -/

open Lib.Checked MemberScan

/-- An address that the validator and the planner accept. -/
def CanonicalAddress (address : Bytes) : Prop :=
  address ≠ [] ∧ address.length ≤ maxMemberAddressBytes ∧ isCanonicalEndpoint address

/-- Member states agree with the batch, and a batch has a participant. -/
def BatchStates (s : TopologyState) : Prop :=
  match s.activeBatch with
  | none => ∀ m ∈ s.members, ¬isTransitional m.state
  | some b => (∀ m ∈ s.members, matchesBatch m.state b.type) ∧
      ∃ m ∈ s.members, m.state = b.type.participant

/-- Identities, addresses and tokens are pairwise distinct and well formed. -/
structure ValidMembers (members : List Member) : Prop where
  address : ∀ m ∈ members, CanonicalAddress m.address
  idSize : ∀ m ∈ members, m.identity.id.length = memberIdSize
  addresses_nodup : (members.map Member.address).Nodup
  ids_nodup : (members.map fun m => m.identity.id).Nodup
  tokens_nodup : (members.flatMap Member.tokens).Nodup

structure ValidTopology (s : TopologyState) : Prop where
  version : 0 < s.version ∧ s.version ≤ int64Max
  tokensPerMember : 0 < s.tokensPerMember ∧ s.tokensPerMember ≤ maxHashRingTokensPerMember
  epoch : ∀ b, s.activeBatch = some b → 0 < b.epoch ∧ b.epoch ≤ s.version
  batchStates : BatchStates s
  members : ValidMembers s.members
  committedToken : (∃ m ∈ s.members, isCommittedMemberState m.state) →
    ∃ m ∈ s.members, isCommittedMemberState m.state ∧ m.tokens ≠ []

/-! ## The loops of the validator -/

theorem validateParticipants_eq_ok {type} {seen r} {members} :
    validateParticipants type seen members = .ok r ↔ (∀ m ∈ members, matchesBatch m.state type) ∧
        (seen || members.any fun m => m.state = type.participant) = r := by
  induction members generalizing seen with
  | nil => simp [validateParticipants]
  | cons m _ ih =>
    have hstep : (seen || (type == .scaleOut && m.state == .joining)
        || (type == .scaleIn && m.state == .leaving)
        || (type == .failure && m.state == .failed)) =
        (seen || decide (m.state = type.participant)) := by
      cases type <;> cases m.state <;> cases seen <;> rfl
    simp only [validateParticipants, hstep, bind_eq_ok, check_eq_ok]
    simp only [ih, List.forall_mem_cons, List.any_cons, Bool.or_assoc, exists_const, and_assoc]

variable {s : TopologyState} {u : Unit} {r : MemberScan}

theorem validateBatchStates_eq_ok : validateBatchStates s = .ok u ↔ BatchStates s := by
  unfold validateBatchStates BatchStates
  cases s.activeBatch with
  | none => simp
  | some => simp [validateParticipants_eq_ok]

theorem insertTokens_eq_ok {msg} {seen r ts} :
    insertTokens msg seen ts = .ok r ↔ Fresh seen ts ∧ ts.reverse ++ seen = r := by
  induction ts generalizing seen with
  | nil => simp [insertTokens]
  | cons _ _ ih =>
    simp only [insertTokens, bind_eq_ok, check_eq_ok, ih, fresh_cons,
      List.reverse_cons, List.append_assoc, List.singleton_append, exists_const, and_assoc]

theorem validateAddress_eq_ok {address} :
    validateAddress address = .ok u ↔ CanonicalAddress address :=
  check_eq_ok

variable (scan : MemberScan)

/-- What the member loop carries on after a member that passed all checks. -/
def MemberScan.add (m : Member) : MemberScan :=
  { previousAddress := some m.address
    ids := m.identity.id :: scan.ids
    tokens := m.tokens.reverse ++ scan.tokens
    hasCommittedMember := scan.hasCommittedMember || isCommittedMemberState m.state
    hasCommittedToken :=
      scan.hasCommittedToken || (isCommittedMemberState m.state && !m.tokens.isEmpty) }

theorem scanMember_eq_ok {scan} {m} : scanMember scan m = .ok r ↔
      (CanonicalAddress m.address ∧ m.identity.id.length = memberIdSize) ∧
        scan.previousAddress ≠ some m.address ∧ m.identity.id ∉ scan.ids ∧
        Fresh scan.tokens m.tokens ∧ scan.add m = r := by
  simp only [scanMember, bind_eq_ok, check_eq_ok, validateAddress_eq_ok,
    insertTokens_eq_ok, pure_eq_ok, exists_const, and_assoc]
  constructor
  · rintro ⟨ha, hid, hprev, hids, _, hts, rfl, rfl⟩
    exact ⟨ha, hid, hprev, hids, hts, rfl⟩
  · rintro ⟨ha, hid, hprev, hids, hts, rfl⟩
    exact ⟨ha, hid, hprev, hids, _, hts, rfl, rfl⟩

theorem scanMembers_eq_ok {scan} {l} : scanMembers scan l = .ok r ↔
      (∀ m ∈ l, CanonicalAddress m.address ∧ m.identity.id.length = memberIdSize) ∧
        (scan.previousAddress.toList ++ l.map Member.address).IsChain (· ≠ ·) ∧
        Fresh scan.ids (l.map fun m => m.identity.id) ∧
        Fresh scan.tokens (l.flatMap Member.tokens) ∧ l.foldl add scan = r := by
  induction l generalizing scan with
  | nil => cases scan.previousAddress <;> simp [scanMembers]
  | cons m rest ih =>
    have hchain : (scan.previousAddress.toList ++ (m :: rest).map Member.address).IsChain (· ≠ ·) ↔
        scan.previousAddress ≠ some m.address ∧
          ((scan.add m).previousAddress.toList ++ rest.map Member.address).IsChain (· ≠ ·) := by
      cases scan.previousAddress <;> simp [add]
    have hids : Fresh scan.ids ((m :: rest).map fun m => m.identity.id) ↔
        m.identity.id ∉ scan.ids ∧ Fresh (scan.add m).ids (rest.map fun m => m.identity.id) :=
      fresh_cons
    have htok : Fresh scan.tokens ((m :: rest).flatMap Member.tokens) ↔
        Fresh scan.tokens m.tokens ∧ Fresh (scan.add m).tokens (rest.flatMap Member.tokens) :=
      fresh_append
    rw [hchain, hids, htok, List.forall_mem_cons, List.foldl_cons]
    simp only [scanMembers, bind_eq_ok, scanMember_eq_ok, ih]
    constructor
    · rintro ⟨_, ⟨hm, hprev, hid, hts, rfl⟩, hrest, hch, hidsRest, htokensRest, hr⟩
      exact ⟨⟨hm, hrest⟩, ⟨hprev, hch⟩, ⟨hid, hidsRest⟩, ⟨hts, htokensRest⟩, hr⟩
    · rintro ⟨⟨hm, hrest⟩, ⟨hprev, hch⟩, ⟨hid, hidsRest⟩, ⟨hts, htokensRest⟩, hr⟩
      exact ⟨_, ⟨hm, hprev, hid, hts, rfl⟩, hrest, hch, hidsRest, htokensRest, hr⟩

theorem foldl_add_hasCommittedMember (l : List Member) : (l.foldl add scan).hasCommittedMember =
      (scan.hasCommittedMember || l.any fun m => isCommittedMemberState m.state) := by
  induction l generalizing scan with
  | nil => simp
  | cons _ _ ih => rw [List.foldl_cons, ih, List.any_cons, ← Bool.or_assoc]; rfl

theorem foldl_add_hasCommittedToken (l : List Member) : (l.foldl add scan).hasCommittedToken =
      (scan.hasCommittedToken ||
        l.any fun m => isCommittedMemberState m.state && !m.tokens.isEmpty) := by
  induction l generalizing scan with
  | nil => simp
  | cons _ _ ih => rw [List.foldl_cons, ih, List.any_cons, ← Bool.or_assoc]; rfl

/-! ## The invariant as a whole -/

/-- In a list sorted by address, distinct neighbours mean distinct addresses. -/
theorem isChain_ne_iff_nodup {l : List Bytes} (h : l.Pairwise (· ≤ ·)) :
    l.IsChain (· ≠ ·) ↔ l.Nodup := by
  refine ⟨fun hc => ?_, fun hn => hn.isChain⟩
  have hlt : l.IsChain (· < ·) := by
    induction l with
    | nil => exact .nil
    | cons _ _ ih =>
      obtain ⟨ha, hrest⟩ := List.pairwise_cons.mp h
      refine (ih hrest hc.tail).cons fun b hb => ?_
      exact lt_of_le_of_ne (ha b (List.mem_of_mem_head? hb)) (hc.rel_head? hb)
  exact (List.isChain_iff_pairwise.mp hlt).imp ne_of_lt

theorem ValidMembers.of_perm {l l'} (hp : l.Perm l') (h : ValidMembers l) : ValidMembers l' where
  address m hm := h.address m (hp.mem_iff.mpr hm)
  idSize m hm := h.idSize m (hp.mem_iff.mpr hm)
  addresses_nodup := (hp.map _).nodup_iff.mp h.addresses_nodup
  ids_nodup := (hp.map _).nodup_iff.mp h.ids_nodup
  tokens_nodup := (hp.flatMap_right _).nodup_iff.mp h.tokens_nodup

theorem scanMembers_canonical : scanMembers {} (canonicalize s).members = .ok r ↔
      ValidMembers s.members ∧ (canonicalize s).members.foldl add {} = r := by
  have hp : (canonicalize s).members.Perm s.members := sortBy_perm _ _
  have hsort : ((canonicalize s).members.map Member.address).Pairwise (· ≤ ·) :=
    List.pairwise_map.mpr (sortBy_pairwise Member.address s.members)
  have hvalid : ValidMembers s.members ↔ ValidMembers (canonicalize s).members :=
    ⟨.of_perm hp.symm, .of_perm hp⟩
  rw [scanMembers_eq_ok, hvalid, Option.toList_none, List.nil_append, isChain_ne_iff_nodup hsort]
  constructor
  · rintro ⟨hm, ha, hid, ht, hr⟩
    exact ⟨⟨fun m h => (hm m h).1, fun m h => (hm m h).2, ha, fresh_empty.mp hid,
      fresh_empty.mp ht⟩, hr⟩
  · rintro ⟨h, hr⟩
    exact ⟨fun m hm => ⟨h.address m hm, h.idSize m hm⟩, h.addresses_nodup,
      fresh_empty.mpr h.ids_nodup, fresh_empty.mpr h.tokens_nodup, hr⟩

theorem validateEpoch_eq_ok : validateEpoch s = .ok u ↔
      ∀ b, s.activeBatch = some b → 0 < b.epoch ∧ b.epoch ≤ s.version := by
  unfold validateEpoch
  cases s.activeBatch <;> simp

/-- The validator accepts exactly the valid topologies and sorts their members. -/
theorem validate_eq_ok_iff {s'} :
    validateAndCanonicalizeTopologyState s = .ok s' ↔ ValidTopology s ∧ canonicalize s = s' := by
  simp only [validateAndCanonicalizeTopologyState, bind_eq_ok, check_eq_ok,
    validateEpoch_eq_ok, validateBatchStates_eq_ok, scanMembers_canonical, pure_eq_ok,
    exists_const]
  constructor
  · rintro ⟨hv, ht, he, hb, _, ⟨hm, rfl⟩, hc, hs⟩
    refine ⟨⟨hv, ht, he, hb, hm, ?_⟩, hs⟩
    -- a scan that saw a committed member saw a token of one
    simpa [foldl_add_hasCommittedMember, foldl_add_hasCommittedToken, canonicalize] using hc
  · rintro ⟨h, hs⟩
    refine ⟨h.version, h.tokensPerMember, h.epoch, h.batchStates, _, ⟨h.members, rfl⟩, ?_, hs⟩
    simpa [foldl_add_hasCommittedMember, foldl_add_hasCommittedToken, canonicalize] using
      h.committedToken

/-! ## Canonical order -/

@[simp] theorem mem_canonicalize_members {m} :
    m ∈ (canonicalize s).members ↔ m ∈ s.members := mem_sortBy

@[simp] theorem canonicalize_version (s) : (canonicalize s).version = s.version := rfl

@[simp] theorem canonicalize_activeBatch (s) : (canonicalize s).activeBatch = s.activeBatch := rfl

theorem ValidTopology.canonicalize (h : ValidTopology s) : ValidTopology (canonicalize s) where
  version := h.version
  tokensPerMember := h.tokensPerMember
  epoch := h.epoch
  batchStates := by
    have hb := h.batchStates
    unfold BatchStates at hb ⊢
    simpa using hb
  members := h.members.of_perm (sortBy_perm _ _).symm
  committedToken := by simpa using h.committedToken

theorem canonicalize_sorted (h : ValidMembers s.members) :
    (canonicalize s).members.Pairwise fun a b => a.address < b.address :=
  sortBy_strict h.addresses_nodup

theorem canonicalize_of_sorted
    (h : s.members.Pairwise fun a b => a.address < b.address) : canonicalize s = s := by
  have hs : sortBy Member.address s.members = s.members := sortBy_of_strict h
  rw [Cluster.canonicalize, hs]

theorem canonicalize_idem (h : ValidMembers s.members) :
    canonicalize (canonicalize s) = canonicalize s :=
  canonicalize_of_sorted (canonicalize_sorted h)

namespace TopologySnapshot

variable (snapshot : TopologySnapshot)

theorem validTopology : ValidTopology snapshot.state :=
  (validate_eq_ok_iff.mp snapshot.valid).1

theorem sorted :
    snapshot.state.members.Pairwise fun a b => a.address < b.address := by
  obtain ⟨hv, hc⟩ := validate_eq_ok_iff.mp snapshot.valid
  have hs := canonicalize_sorted hv.members
  rwa [hc] at hs

/-- `TopologySnapshot::Create` without the evidence it stores beside the state. -/
def create (state : TopologyState) : Result TopologySnapshot :=
  match h : validateAndCanonicalizeTopologyState state with
  | .error e => .error e
  | .ok canonical => .ok
    { state := canonical
      valid := by
        obtain ⟨hv, rfl⟩ := validate_eq_ok_iff.mp h
        exact validate_eq_ok_iff.mpr ⟨hv.canonicalize, canonicalize_idem hv.members⟩ }

theorem create_eq_ok {state} {snapshot} :
    create state = .ok snapshot ↔ ValidTopology state ∧ canonicalize state = snapshot.state := by
  rw [← validate_eq_ok_iff]
  unfold create
  constructor
  · intro h
    split at h
    · cases h
    · rename_i canonical hvalid
      obtain rfl := Except.ok.inj h
      exact hvalid
  · intro h
    split
    · rename_i hvalid
      simp [hvalid] at h
    · rename_i canonical hvalid
      obtain rfl := Except.ok.inj (hvalid.symm.trans h)
      rfl

end TopologySnapshot

end Datasystem.Cluster
