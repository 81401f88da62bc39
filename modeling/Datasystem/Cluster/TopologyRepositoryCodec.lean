import Datasystem.Cluster.TokenPlacement
import Datasystem.Cluster.ValidTopology
import Datasystem.Common.Protobuf

/-! The stored form of a topology. A stored value is the protobuf message, which
the library serialises and parses; the limits on its encoded size are kept.
Tokens are not stored: they are rebuilt from the seed overrides. -/

namespace Datasystem.Cluster.TopologyRepositoryCodec

open Common HashRingToken Protobuf Lib Checked List
open List (replicate)

def maxValueBytes : Nat := 4 * 1024 * 1024

def maxTopologyMembers : Nat := 10000

def maxTopologyTokens : Nat := 640000

def schemaVersion : Bytes := ascii "2"

/-! ## Messages -/

structure MembershipPb where
  id : Bytes
  state : Nat
  tokenSeedOverrides : List TokenSeedOverride
deriving DecidableEq

structure ChangeBatchPb where
  type : Nat
  epoch : Nat
deriving DecidableEq

structure ClusterTopologyPb where
  clusterHasInit : Bool
  members : OrderedMap Bytes MembershipPb
  version : Nat
  schemaVersion : Bytes
  activeBatch : Option ChangeBatchPb
  tokensPerMember : Nat
deriving DecidableEq

def TokenSeedOverride.byteSize (o : TokenSeedOverride) : Nat :=
  uintField o.tokenIndex + uintField o.tokenSeed

def MembershipPb.byteSize (m : MembershipPb) : Nat :=
  stringField m.id + uintField m.state +
    repeatedField (m.tokenSeedOverrides.map TokenSeedOverride.byteSize)

def ChangeBatchPb.byteSize (b : ChangeBatchPb) : Nat := uintField b.type + uintField b.epoch

def ClusterTopologyPb.byteSize (pb : ClusterTopologyPb) : Nat :=
  boolField pb.clusterHasInit +
    repeatedField (pb.members.entries.map fun (address, m) =>
      lengthDelimited address.length + lengthDelimited m.byteSize) +
    uintField pb.version + stringField pb.schemaVersion +
    (pb.activeBatch.elim 0 fun b => lengthDelimited b.byteSize) + uintField pb.tokensPerMember

/-- `SerializeCanonical`: the value fits the limit. -/
def serializeCanonical (byteSize : Nat) : Result Unit :=
  checkFailReturnStatus (byteSize ≤ maxValueBytes) .kInvalid "repository value exceeds limit"

/-! ## Enumerations -/

def toPbType : TopologyChangeType → Nat
  | .scaleOut => 0
  | .scaleIn => 1
  | .failure => 2

def fromPbType : Nat → Result TopologyChangeType
  | 0 => pure .scaleOut
  | 1 => pure .scaleIn
  | 2 => pure .failure
  | _ => .error ⟨.kInvalid, "invalid topology change type"⟩

def toPbState : MemberState → Nat
  | .initial => 0
  | .joining => 1
  | .active => 2
  | .preLeaving => 3
  | .leaving => 4
  | .failed => 5

def fromPbState : Nat → Result MemberState
  | 0 => pure .initial
  | 1 => pure .joining
  | 2 => pure .active
  | 3 => pure .preLeaving
  | 4 => pure .leaving
  | 5 => pure .failed
  | _ => .error ⟨.kInvalid, "invalid member state"⟩

/-! ## Topology -/

/-- Write the overrides, in ascending token index, over the default seeds. -/
def encodeOverrides (tokensPerMember : Nat) (previousIndex : Option Nat) :
    List TokenSeedOverride → List Nat → Result (List Nat)
  | [], seeds => pure seeds
  | o :: rest, seeds => do
    checkFailReturnStatus
      (o.tokenIndex < tokensPerMember ∧ 0 < o.tokenSeed ∧ o.tokenSeed < maxHashRingTokenSeeds ∧
        ∀ p ∈ previousIndex, p < o.tokenIndex)
      .kInvalid "invalid topology token seed override"
    encodeOverrides tokensPerMember (some o.tokenIndex) rest (seeds.set o.tokenIndex o.tokenSeed)

def encodeTokenSeedOverrides (member : Member) (tokensPerMember : Nat) :
    Result (List TokenSeedOverride) :=
  if member.state = .initial then do
    checkFailReturnStatus (member.tokens = [] ∧ member.tokenSeedOverrides = []) .kInvalid
      "initial topology member has token state"
    pure []
  else do
    checkFailReturnStatus (0 < tokensPerMember ∧ tokensPerMember ≤ maxHashRingTokensPerMember)
      .kInvalid "tokens per member is outside the supported range"
    checkFailReturnStatus (member.tokens.length = tokensPerMember) .kInvalid
      "topology member token count differs from configured count"
    let seeds ← encodeOverrides tokensPerMember none member.tokenSeedOverrides
      (replicate tokensPerMember 0)
    checkFailReturnStatus (makeHashRingTokens member.address seeds = member.tokens) .kInvalid
      "topology member tokens differ from token seed overrides"
    pure member.tokenSeedOverrides

def encodeMembers (tokensPerMember : Nat) :
    List Member → (tokenCount : Nat) → OrderedMap Bytes MembershipPb →
      Result (OrderedMap Bytes MembershipPb)
  | [], _, members => pure members
  | member :: rest, tokenCount, members => do
    let tokenCount := tokenCount + member.tokens.length
    checkFailReturnStatus (tokenCount ≤ maxTopologyTokens) .kInvalid
      "topology token count exceeds limit"
    let overrides ← encodeTokenSeedOverrides member tokensPerMember
    encodeMembers tokensPerMember rest tokenCount
      (members.insert member.address ⟨member.identity.id, toPbState member.state, overrides⟩)

def encodeTopology (state : TopologyState) : Result ClusterTopologyPb := do
  let canonical ← validateAndCanonicalizeTopologyState state
  checkFailReturnStatus
    (0 < canonical.tokensPerMember ∧ canonical.tokensPerMember ≤ maxHashRingTokensPerMember)
    .kInvalid "tokens per member is outside the supported range"
  let members ← encodeMembers canonical.tokensPerMember canonical.members 0 .empty
  let pb : ClusterTopologyPb :=
    { clusterHasInit := canonical.clusterHasInit
      members := members
      version := canonical.version
      schemaVersion := schemaVersion
      activeBatch := canonical.activeBatch.map fun b => ⟨toPbType b.type, b.epoch⟩
      tokensPerMember := canonical.tokensPerMember }
  serializeCanonical pb.byteSize
  pure pb

/-- Read the overrides back into the seed of each token. -/
def decodeSeeds (tokensPerMember : Nat) : List TokenSeedOverride → List Nat → Result (List Nat)
  | [], seeds => pure seeds
  | o :: rest, seeds => do
    checkFailReturnStatus
      (o.tokenIndex < tokensPerMember ∧ 0 < o.tokenSeed ∧ o.tokenSeed < maxHashRingTokenSeeds)
      .kInvalid "invalid topology token seed override"
    checkFailReturnStatus (seeds[o.tokenIndex]? = some 0) .kInvalid
      "duplicate topology token seed override"
    decodeSeeds tokensPerMember rest (seeds.set o.tokenIndex o.tokenSeed)

def decodeMember (tokensPerMember : Nat) (address : Bytes) (pb : MembershipPb) : Result Member := do
  let state ← fromPbState pb.state
  if state = .initial then
    checkFailReturnStatus (pb.tokenSeedOverrides = []) .kInvalid
      "initial topology member has token seed overrides"
    pure ⟨⟨pb.id, address⟩, state, [], []⟩
  else
    let seeds ← decodeSeeds tokensPerMember pb.tokenSeedOverrides (replicate tokensPerMember 0)
    pure ⟨⟨pb.id, address⟩, state, makeHashRingTokens address seeds, overridesOf seeds⟩

def decodeMembers (tokensPerMember : Nat) :
    List (Bytes × MembershipPb) → (tokenCount : Nat) → Result (List Member)
  | [], _ => pure []
  | (address, pb) :: rest, tokenCount => do
    let member ← decodeMember tokensPerMember address pb
    let tokenCount := tokenCount + member.tokens.length
    checkFailReturnStatus (tokenCount ≤ maxTopologyTokens) .kInvalid
      "topology token count exceeds limit"
    let members ← decodeMembers tokensPerMember rest tokenCount
    pure (member :: members)

def decodeActiveBatch : Option ChangeBatchPb → Result (Option ActiveBatch)
  | none => pure none
  | some b => do
    let type ← fromPbType b.type
    pure (some ⟨type, b.epoch⟩)

def decodeTopology (pb : ClusterTopologyPb) : Result TopologyState := do
  checkFailReturnStatus (pb.byteSize ≤ maxValueBytes) .kInvalid "topology value exceeds limit"
  checkFailReturnStatus (pb.schemaVersion = schemaVersion) .kInvalid "invalid topology value"
  checkFailReturnStatus (pb.members.entries.length ≤ maxTopologyMembers) .kInvalid
    "topology member count exceeds limit"
  checkFailReturnStatus (0 < pb.tokensPerMember ∧ pb.tokensPerMember ≤ maxHashRingTokensPerMember)
    .kInvalid "invalid topology tokens per member"
  checkFailReturnStatus (∀ e ∈ pb.members.entries, e.2.state ≤ toPbState .failed) .kInvalid
    "invalid member state"
  checkFailReturnStatus
    ((pb.members.entries.countP fun e => e.2.state ≠ toPbState .initial) ≤
      maxTopologyTokens / pb.tokensPerMember)
    .kInvalid "topology token count exceeds limit"
  let members ← decodeMembers pb.tokensPerMember pb.members.entries 0
  let activeBatch ← decodeActiveBatch pb.activeBatch
  validateAndCanonicalizeTopologyState
    { clusterHasInit := pb.clusterHasInit
      version := pb.version
      members := members
      activeBatch := activeBatch
      tokensPerMember := pb.tokensPerMember }

/-! ## Seeds and overrides -/

/-- The overrides of the tokens from index `k` on. -/
def overridesFrom (k : Nat) (seeds : List Nat) : List TokenSeedOverride :=
  (seeds.zipIdx k).filterMap fun (seed, index) => if seed > 0 then some ⟨index, seed⟩ else none

theorem overridesFrom_cons (k seed : Nat) (seeds) : overridesFrom k (seed :: seeds) =
      (if seed > 0 then [⟨k, seed⟩] else []) ++ overridesFrom (k + 1) seeds := by
  unfold overridesFrom
  split <;> simp_all

theorem overridesFrom_zeros_append (k n : Nat) (seeds) :
    overridesFrom k (replicate n 0 ++ seeds) = overridesFrom (k + n) seeds := by
  induction n generalizing k with
  | zero => simp
  | succ n ih =>
    rw [replicate_succ, cons_append, overridesFrom_cons, ih]
    simp [Nat.add_assoc, Nat.add_comm 1 n]

theorem set_zeros {done} {i n seed : Nat} (hi : done.length ≤ i) (hn : i < done.length + n) :
    (done ++ replicate n 0).set i seed = (done ++ replicate (i - done.length) 0 ++ [seed]) ++
        replicate (done.length + n - (i + 1)) 0 := by
  apply ext_getElem
  · simp
    omega
  · intro j h₁ h₂
    simp only [getElem_set, getElem_append, getElem_replicate, length_append,
      length_replicate, length_singleton, getElem_singleton]
    split <;> split <;> (try split) <;> (try split) <;> first | rfl | omega

variable {tokensPerMember : Nat} {seeds : List Nat}

/-- Overrides that pass the encoder's checks are those of the seeds it rebuilds. -/
theorem encodeOverrides_inv {n : Nat} {previous} {overrides} (done)
    (hn : done.length + n = tokensPerMember)
    (hprev : ∀ k, (∀ p ∈ previous, p < k) → done.length ≤ k)
    (hdone : ∀ s ∈ done, s < maxHashRingTokenSeeds)
    (h : encodeOverrides tokensPerMember previous overrides (done ++ replicate n 0) = .ok seeds) :
    ∃ rest, seeds = done ++ rest ∧ rest.length = n ∧ overrides = overridesFrom done.length rest ∧
      ∀ s ∈ seeds, s < maxHashRingTokenSeeds := by
  induction overrides generalizing previous done n with
  | nil =>
    obtain rfl : done ++ replicate n 0 = seeds := by simpa [encodeOverrides] using h
    refine ⟨replicate n 0, rfl, by simp, ?_, fun s hs => ?_⟩
    · have hzeros := overridesFrom_zeros_append done.length n []
      simpa [overridesFrom] using hzeros.symm
    · rcases mem_append.mp hs with hs | hs
      · exact hdone s hs
      · rw [(mem_replicate.mp hs).2]
        simp [maxHashRingTokenSeeds]
  | cons o overrides ih =>
    obtain ⟨⟨hlt, hpos, hseed, hprev'⟩, hrest⟩ := check_bind_eq_ok.mp h
    have hi := hprev o.tokenIndex hprev'
    rw [set_zeros hi (by omega)] at hrest
    obtain ⟨rest, rfl, hlen, hos, hall⟩ := ih _ (by simp; omega)
      (fun k hk => by simp; have := hk o.tokenIndex rfl; omega)
      (fun s hs => by
        simp only [mem_append, mem_replicate, mem_singleton] at hs
        rcases hs with (hs | hs) | rfl
        · exact hdone s hs
        · omega
        · exact hseed) hrest
    refine ⟨replicate (o.tokenIndex - done.length) 0 ++ o.tokenSeed :: rest, by simp,
      by simp; omega, ?_, hall⟩
    have hindex : done.length + (o.tokenIndex - done.length) = o.tokenIndex := by omega
    rw [overridesFrom_zeros_append, overridesFrom_cons, if_pos hpos, hos, hindex]
    simp only [length_append, length_replicate, length_singleton, singleton_append, hindex]

theorem encodeOverrides_overridesFrom (previous) (done) {rest}
    (hn : done.length + rest.length = tokensPerMember) (hprev : ∀ p ∈ previous, p < done.length)
    (hrest : ∀ s ∈ rest, s < maxHashRingTokenSeeds) :
    encodeOverrides tokensPerMember previous (overridesFrom done.length rest)
      (done ++ replicate rest.length 0) = .ok (done ++ rest) := by
  induction rest generalizing previous done with
  | nil => simp [overridesFrom, encodeOverrides, pure, Except.pure]
  | cons s rest ih =>
    simp only [length_cons] at hn
    have hs := hrest s mem_cons_self
    have hrest' : ∀ x ∈ rest, x < maxHashRingTokenSeeds := fun x hx =>
      hrest x (mem_cons_of_mem _ hx)
    have hstep : ∀ x : Nat, (done ++ [x]).length = done.length + 1 := fun x => by simp
    rw [overridesFrom_cons]
    by_cases hpos : s > 0
    · rw [if_pos hpos, singleton_append, encodeOverrides,
        check_of ⟨by simp only; omega, hpos, hs, hprev⟩, ok_bind]
      have hih := ih (some done.length) (done ++ [s]) (by rw [hstep]; omega) (by simp) hrest'
      simpa [set_append_right, replicate_succ] using hih
    · obtain rfl : s = 0 := by omega
      have hih := ih previous (done ++ [0]) (by rw [hstep]; omega)
        (fun p hp => by rw [hstep]; exact Nat.lt_succ_of_lt (hprev p hp)) hrest'
      simpa [replicate_succ] using hih

/-- The encoder accepts the overrides of every valid list of seeds and rebuilds it. -/
theorem encodeOverrides_eq_ok_iff {overrides} :
    encodeOverrides tokensPerMember none overrides (replicate tokensPerMember 0) = .ok seeds ↔
      seeds.length = tokensPerMember ∧ overrides = overridesOf seeds ∧
        ∀ s ∈ seeds, s < maxHashRingTokenSeeds := by
  constructor
  · intro h
    obtain ⟨_, rfl, hlen, hos, hall⟩ := encodeOverrides_inv [] (Nat.zero_add _)
      (by simp) (by simp) h
    exact ⟨by simpa using hlen, hos, hall⟩
  · rintro ⟨rfl, rfl, hall⟩
    exact encodeOverrides_overridesFrom none [] (by simp) (by simp) hall

theorem decodeSeeds_overridesFrom (done) {rest} (hn : done.length + rest.length = tokensPerMember)
    (hrest : ∀ s ∈ rest, s < maxHashRingTokenSeeds) :
    decodeSeeds tokensPerMember (overridesFrom done.length rest)
      (done ++ replicate rest.length 0) = .ok (done ++ rest) := by
  induction rest generalizing done with
  | nil => simp [overridesFrom, decodeSeeds, pure, Except.pure]
  | cons s rest ih =>
    simp only [length_cons] at hn
    have hs := hrest s mem_cons_self
    have hrest' : ∀ x ∈ rest, x < maxHashRingTokenSeeds := fun x hx =>
      hrest x (mem_cons_of_mem _ hx)
    rw [overridesFrom_cons]
    by_cases hpos : s > 0
    · rw [if_pos hpos, singleton_append, decodeSeeds,
        check_of ⟨by simp only; omega, hpos, hs⟩, ok_bind,
        check_of (by simp), ok_bind]
      have hih := ih (done ++ [s]) (by simp; omega) hrest'
      simpa [set_append_right, replicate_succ] using hih
    · obtain rfl : s = 0 := by omega
      have hih := ih (done ++ [0]) (by simp; omega) hrest'
      simpa [replicate_succ] using hih

theorem decodeSeeds_overridesOf (h : ∀ s ∈ seeds, s < maxHashRingTokenSeeds) :
    decodeSeeds seeds.length (overridesOf seeds) (replicate seeds.length 0) = .ok seeds :=
  decodeSeeds_overridesFrom [] (by simp) h

end Datasystem.Cluster.TopologyRepositoryCodec
