import Datasystem.Cluster.PlannerSpec
import Datasystem.Cluster.TopologyRepositoryCodec

/-! A stored topology reads back as it was written, in address order. -/

namespace Datasystem.Cluster.TopologyRepositoryCodec

open Common HashRingToken Protobuf Lib Checked Sorting List

/-! ## Members -/

/-- What can be stored of a member: no tokens while INITIAL, and otherwise tokens that follow
from the recorded seeds. -/
def Storable (n : Nat) (m : Member) : Prop :=
  if m.state = .initial then m.Blank else m.Placed n

/-- The stored form of a member. -/
def memberPb (m : Member) : MembershipPb :=
  ⟨m.identity.id, toPbState m.state, m.tokenSeedOverrides⟩

variable {m : Member} {n : Nat} {members : List Member} {s : TopologyState}

theorem encodeTokenSeedOverrides_eq_ok (hn : 0 < n ∧ n ≤ maxHashRingTokensPerMember) {overrides} :
    encodeTokenSeedOverrides m n = .ok overrides ↔
      Storable n m ∧ m.tokenSeedOverrides = overrides := by
  unfold encodeTokenSeedOverrides Storable
  split
  · simp only [bind_eq_ok, check_eq_ok, pure_eq_ok, exists_const, Member.Blank]
    constructor
    · rintro ⟨hblank, rfl⟩
      exact ⟨hblank, hblank.2⟩
    · rintro ⟨hblank, rfl⟩
      exact ⟨hblank, hblank.2.symm⟩
  · simp only [bind_eq_ok, check_eq_ok, pure_eq_ok, exists_const, encodeOverrides_eq_ok_iff]
    constructor
    · rintro ⟨-, -, seeds, ⟨hlen, hos, hlt⟩, htok, hresult⟩
      exact ⟨⟨seeds, hlen, hlt, htok.symm, hos⟩, hresult⟩
    · rintro ⟨hplaced, hresult⟩
      obtain ⟨seeds, hlen, hlt, htok, hos⟩ := hplaced
      exact ⟨hn, Member.Placed.length_tokens ⟨seeds, hlen, hlt, htok, hos⟩, seeds,
        ⟨hlen, hos, hlt⟩, htok.symm, hresult⟩

theorem fromPbState_toPbState (state) : fromPbState (toPbState state) = .ok state := by
  cases state <;> rfl

theorem fromPbType_toPbType (type : TopologyChangeType) :
    fromPbType (toPbType type) = .ok type := by
  cases type <;> rfl

theorem decodeMember_memberPb (h : Storable n m) :
    decodeMember n m.address (memberPb m) = .ok m := by
  obtain ⟨⟨_, _⟩, _, _, _⟩ := m
  unfold Storable at h
  unfold decodeMember memberPb
  rw [fromPbState_toPbState, ok_bind]
  split at h
  · rename_i hs
    obtain ⟨htok, hoverrides⟩ := h
    dsimp only at htok hoverrides
    rw [if_pos hs, htok, hoverrides]
    rfl
  · rename_i hs
    obtain ⟨_, rfl, hlt, htok, hoverrides⟩ := h
    dsimp only at htok hoverrides
    rw [if_neg hs, htok, hoverrides, decodeSeeds_overridesOf hlt, ok_bind]
    rfl

/-- How many tokens the members hold together. -/
def tokenCount (members : List Member) : Nat := (members.map fun m => m.tokens.length).sum

@[simp] theorem tokenCount_cons (m) (rest) :
    tokenCount (m :: rest) = m.tokens.length + tokenCount rest := by
  simp [tokenCount]

theorem encodeMembers_eq_ok (hn : 0 < n ∧ n ≤ maxHashRingTokensPerMember)
    {count : Nat} {acc map} (hcount : count ≤ maxTopologyTokens) :
    encodeMembers n members count acc = .ok map ↔
      (∀ m ∈ members, Storable n m) ∧ count + tokenCount members ≤ maxTopologyTokens ∧
        members.foldl (fun map m => map.insert m.address (memberPb m)) acc = map := by
  induction members generalizing count acc with
  | nil => simp [encodeMembers, tokenCount, hcount]
  | cons m rest ih =>
    simp only [encodeMembers, bind_eq_ok, check_eq_ok,
      encodeTokenSeedOverrides_eq_ok hn, exists_const, forall_mem_cons, foldl_cons,
      tokenCount_cons]
    constructor
    · rintro ⟨hle, _, ⟨hm, rfl⟩, hrest⟩
      obtain ⟨hstorable, hsum, rfl⟩ := (ih hle).mp hrest
      exact ⟨⟨hm, hstorable⟩, by omega, rfl⟩
    · rintro ⟨⟨hm, hstorable⟩, hsum, rfl⟩
      have hle : count + m.tokens.length ≤ maxTopologyTokens := by omega
      exact ⟨hle, _, ⟨hm, rfl⟩, (ih hle).mpr ⟨hstorable, by omega, rfl⟩⟩

theorem decodeMembers_map {count : Nat} (h : ∀ m ∈ members, Storable n m)
    (hsum : count + tokenCount members ≤ maxTopologyTokens) :
    decodeMembers n (members.map fun m => (m.address, memberPb m)) count = .ok members := by
  induction members generalizing count with
  | nil => rfl
  | cons m rest ih =>
    obtain ⟨hm, hrest⟩ := forall_mem_cons.mp h
    rw [tokenCount_cons] at hsum
    have hle : count + m.tokens.length ≤ maxTopologyTokens := by omega
    have hlater : decodeMembers n (rest.map fun m => (m.address, memberPb m))
        (count + m.tokens.length) = .ok rest := ih hrest (by omega)
    simp only [map_cons, decodeMembers, decodeMember_memberPb hm, ok_bind, check_of hle, hlater]
    rfl

/-! ## The whole topology -/

/-- What the store accepts of a valid topology: members it can rebuild, within its limits. -/
structure Fits (s : TopologyState) : Prop where
  valid : ValidTopology s
  storable : ∀ m ∈ s.members, Storable s.tokensPerMember m
  tokens : tokenCount s.members ≤ maxTopologyTokens

/-- The stored form of a topology. -/
def topologyPb (s : TopologyState) : ClusterTopologyPb :=
  { clusterHasInit := s.clusterHasInit
    members := s.members.foldl (fun map m => map.insert m.address (memberPb m)) .empty
    version := s.version
    schemaVersion := schemaVersion
    activeBatch := s.activeBatch.map fun b => ⟨toPbType b.type, b.epoch⟩
    tokensPerMember := s.tokensPerMember }

theorem tokenCount_perm {l l'} (h : l.Perm l') : tokenCount l = tokenCount l' := (h.map _).sum_nat

/-- The encoder accepts exactly what fits, and writes it in address order. -/
theorem encodeTopology_eq_ok {pb} : encodeTopology s = .ok pb ↔
      Fits s ∧ (topologyPb (canonicalize s)).byteSize ≤ maxValueBytes ∧
        topologyPb (canonicalize s) = pb := by
  have hperm : (canonicalize s).members.Perm s.members := sortBy_perm _ _
  simp only [encodeTopology, bind_eq_ok, validate_eq_ok_iff, check_eq_ok,
    serializeCanonical, pure_eq_ok, exists_const]
  constructor
  · rintro ⟨_, ⟨hv, rfl⟩, hn, _, hmap, hsize, rfl⟩
    obtain ⟨hstorable, hsum, rfl⟩ := (encodeMembers_eq_ok hn (Nat.zero_le _)).mp hmap
    refine ⟨⟨hv, fun m hm => hstorable m (hperm.mem_iff.mpr hm), ?_⟩, hsize, rfl⟩
    rwa [Nat.zero_add, tokenCount_perm hperm] at hsum
  · rintro ⟨h, hsize, rfl⟩
    refine ⟨_, ⟨h.valid, rfl⟩, h.valid.tokensPerMember, _,
      (encodeMembers_eq_ok h.valid.tokensPerMember (Nat.zero_le _)).mpr
        ⟨fun m hm => h.storable m (hperm.mem_iff.mp hm), ?_, rfl⟩, hsize, rfl⟩
    rw [Nat.zero_add, tokenCount_perm hperm]
    exact h.tokens

theorem Fits.canonicalize (h : Fits s) : Fits (canonicalize s) where
  valid := h.valid.canonicalize
  storable m hm := h.storable m (mem_canonicalize_members.mp hm)
  tokens := by
    have hperm : (Cluster.canonicalize s).members.Perm s.members := sortBy_perm _ _
    rw [tokenCount_perm hperm]
    exact h.tokens

theorem entries_topologyPb (h : s.members.Pairwise fun a b => a.address < b.address) :
    (topologyPb s).members.entries = s.members.map fun m => (m.address, memberPb m) :=
  OrderedMap.entries_foldl_insert memberPb h

theorem decodeActiveBatch_map (batch) :
    decodeActiveBatch (batch.map fun b => ⟨toPbType b.type, b.epoch⟩) = .ok batch := by
  cases batch with
  | none => rfl
  | some => simp [decodeActiveBatch, fromPbType_toPbType, pure, Except.pure]

theorem toPbState_le (state) : toPbState state ≤ toPbState .failed := by
  cases state <;> decide

theorem toPbState_initial {state} : toPbState state = toPbState .initial ↔ state = .initial := by
  cases state <;> decide

theorem countP_mul_le (h : ∀ m ∈ members, Storable n m) :
    (members.countP fun m => m.state ≠ .initial) * n ≤ tokenCount members := by
  induction members with
  | nil => simp
  | cons m rest ih =>
    obtain ⟨hm, hrest⟩ := forall_mem_cons.mp h
    have hle := ih hrest
    rw [tokenCount_cons, countP_cons]
    by_cases hs : m.state = .initial
    · rw [if_neg (by simp [hs]), Nat.add_zero]
      omega
    · rw [Storable, if_neg hs] at hm
      have hlen := hm.length_tokens
      rw [if_pos (by simp [hs]), Nat.succ_mul]
      omega

/-- A stored topology of at most 10000 members reads back in address order. -/
theorem decodeTopology_topologyPb (h : Fits s)
    (hsorted : s.members.Pairwise fun a b => a.address < b.address)
    (hsize : (topologyPb s).byteSize ≤ maxValueBytes)
    (hmembers : s.members.length ≤ maxTopologyMembers) : decodeTopology (topologyPb s) = .ok s := by
  have hentries := entries_topologyPb hsorted
  have hn := h.valid.tokensPerMember
  have hcount : ((topologyPb s).members.entries.countP fun e => e.2.state ≠ toPbState .initial) ≤
      maxTopologyTokens / (topologyPb s).tokensPerMember := by
    rw [hentries, countP_map]
    refine (Nat.le_div_iff_mul_le hn.1).mpr (Nat.le_trans (Nat.le_of_eq ?_)
      (Nat.le_trans (countP_mul_le h.storable) h.tokens))
    congr 1
    refine countP_congr fun m _ => ?_
    simp [memberPb, toPbState_initial]
  have hstate : ∀ e ∈ (topologyPb s).members.entries, e.2.state ≤ toPbState .failed := by
    rw [hentries]
    exact forall_mem_map.mpr fun m _ => toPbState_le m.state
  have hlength : (topologyPb s).members.entries.length ≤ maxTopologyMembers := by
    rwa [hentries, length_map]
  have hdecode : decodeMembers (topologyPb s).tokensPerMember (topologyPb s).members.entries 0 =
      .ok s.members := by
    rw [hentries]
    exact decodeMembers_map h.storable (by rw [Nat.zero_add]; exact h.tokens)
  have hbatch : decodeActiveBatch (topologyPb s).activeBatch = .ok s.activeBatch :=
    decodeActiveBatch_map s.activeBatch
  simp only [decodeTopology, bind_eq_ok, check_eq_ok, exists_const]
  exact ⟨hsize, rfl, hlength, hn, hstate, hcount, s.members, hdecode, s.activeBatch, hbatch,
    validate_eq_ok_iff.mpr ⟨h.valid, canonicalize_of_sorted hsorted⟩⟩

theorem decodeTopology_of_encode {pb} (h : encodeTopology s = .ok pb)
    (hmembers : s.members.length ≤ maxTopologyMembers) :
    decodeTopology pb = .ok (canonicalize s) := by
  obtain ⟨hfits, hsize, rfl⟩ := encodeTopology_eq_ok.mp h
  have hperm : (canonicalize s).members.Perm s.members := sortBy_perm _ _
  exact decodeTopology_topologyPb hfits.canonicalize (canonicalize_sorted hfits.valid.members)
    hsize (hperm.length_eq.trans_le hmembers)

/-- The decoder counts the members. -/
theorem length_members_le_of_decode {s'} {pb} (h : encodeTopology s = .ok pb)
    (hd : decodeTopology pb = .ok s') : s.members.length ≤ maxTopologyMembers := by
  obtain ⟨hfits, -, rfl⟩ := encodeTopology_eq_ok.mp h
  have hperm : (canonicalize s).members.Perm s.members := sortBy_perm _ _
  simp only [decodeTopology, bind_eq_ok, check_eq_ok, exists_const] at hd
  obtain ⟨-, -, hlength, -⟩ := hd
  rwa [entries_topologyPb (canonicalize_sorted hfits.valid.members), length_map,
    hperm.length_eq] at hlength

/-- **What reads back is what was written**, in address order. -/
theorem eq_canonicalize_of_decode {s'} {pb}
    (h : encodeTopology s = .ok pb) (hd : decodeTopology pb = .ok s') : s' = canonicalize s := by
  have hback := decodeTopology_of_encode h (length_members_le_of_decode h hd)
  exact Except.ok.inj (hd.symm.trans hback)

/-- **Round trip.** A topology that can be written reads back in address order, and what was read
is written in the same form again, exactly if it has at most 10000 members. -/
theorem decode_encode_topology {s : TopologyState} {pb : ClusterTopologyPb}
    (h : encodeTopology s = .ok pb) :
    (decodeTopology pb = .ok (canonicalize s) ∧ encodeTopology (canonicalize s) = .ok pb) ↔
      s.members.length ≤ maxTopologyMembers := by
  refine ⟨fun hback => length_members_le_of_decode h hback.1, fun hmembers => ?_⟩
  refine ⟨decodeTopology_of_encode h hmembers, ?_⟩
  obtain ⟨hfits, hsize, rfl⟩ := encodeTopology_eq_ok.mp h
  have hidem : canonicalize (canonicalize s) = canonicalize s :=
    canonicalize_idem hfits.valid.members
  refine encodeTopology_eq_ok.mpr ⟨hfits.canonicalize, ?_, ?_⟩
  · rw [hidem]
    exact hsize
  · rw [hidem]

/-! ## The limit on members

Only the decoder counts members. Members that wait to join have no tokens, so many of them fit. -/

/-- The address of one of many workers, on hosts with 9000 ports of four digits each. -/
def crowdAddress (i : Nat) : Bytes :=
  (if i < 9000 then ascii "10.0.10.111" else ascii "10.0.10.112") ++
    Fin.ofNat 256 ':'.toNat :: decimal (1000 + i % 9000)

def crowdMember (i : Nat) : Member := ⟨⟨bigEndian memberIdSize i, crowdAddress i⟩, .initial, [], []⟩

/-- Workers that wait to join. -/
def crowd (n : Nat) : TopologyState := { version := 1, members := (List.range n).map crowdMember }

theorem mem_crowd : m ∈ (crowd n).members ↔ ∃ i < n, crowdMember i = m := by
  simp [crowd]

theorem length_crowdAddress (i : Nat) : (crowdAddress i).length = 16 := by
  have hport : (decimal (1000 + i % 9000)).length = 4 := length_decimal_four ⟨by omega, by omega⟩
  unfold crowdAddress
  split <;> simp [ascii, hport]

theorem canonicalAddress_crowdAddress (i : Nat) : CanonicalAddress (crowdAddress i) := by
  have hlen := length_crowdAddress i
  refine ⟨?_, ?_, ?_⟩
  · rw [← length_pos_iff, hlen]
    decide
  · rw [hlen]
    decide
  · unfold crowdAddress
    split
    · exact isCanonicalEndpoint_port (by decide) (by decide) ⟨by omega, by omega⟩
    · exact isCanonicalEndpoint_port (by decide) (by decide) ⟨by omega, by omega⟩

theorem crowdAddress_inj {i j : Nat} (hi : i < 18000) (hj : j < 18000)
    (h : crowdAddress i = crowdAddress j) : i = j := by
  have hhosts : ∀ k : Nat, (if k < 9000 then ascii "10.0.10.111" else ascii "10.0.10.112").length =
      11 := by
    intro k
    split <;> rfl
  obtain ⟨hhost, hrest⟩ := append_inj h ((hhosts i).trans (hhosts j).symm)
  have hport := decimal_injective (List.cons.inj hrest).2
  have hne : ascii "10.0.10.111" ≠ ascii "10.0.10.112" := by decide
  split at hhost <;> split at hhost
  · omega
  · exact absurd hhost hne
  · exact absurd hhost.symm hne
  · omega

/-- Members with the ids and the addresses of the first workers of the crowd. -/
structure Workers (n : Nat) (member : Nat → Member) : Prop where
  few : n ≤ 18000
  identity : ∀ i < n, (member i).identity = ⟨bigEndian memberIdSize i, crowdAddress i⟩

theorem Workers.validMembers {member} (h : Workers n member)
    (htokens : (((List.range n).map member).flatMap Member.tokens).Nodup) :
    ValidMembers ((List.range n).map member) where
  address := by
    refine forall_mem_map.mpr fun i hi => ?_
    rw [Member.address, h.identity i (mem_range.mp hi)]
    exact canonicalAddress_crowdAddress i
  idSize := by
    refine forall_mem_map.mpr fun i hi => ?_
    rw [h.identity i (mem_range.mp hi)]
    exact length_bigEndian _ _
  addresses_nodup := by
    rw [map_map]
    refine nodup_range.map_on fun i hi j hj heq => ?_
    rw [mem_range] at hi hj
    have hfew := h.few
    simp only [Function.comp_apply, Member.address, h.identity i hi, h.identity j hj] at heq
    exact crowdAddress_inj (by omega) (by omega) heq
  ids_nodup := by
    rw [map_map]
    refine nodup_range.map_on fun i hi j hj heq => ?_
    rw [mem_range] at hi hj
    have hbound : 18000 < 256 ^ memberIdSize := by decide
    have hfew := h.few
    simp only [Function.comp_apply, h.identity i hi, h.identity j hj] at heq
    exact bigEndian_inj (by omega) (by omega) heq
  tokens_nodup := htokens

theorem validTopology_crowd (hn : n ≤ 18000) : ValidTopology (crowd n) where
  version := ⟨Nat.one_pos, (by decide : 1 ≤ int64Max)⟩
  tokensPerMember := (by decide : 0 < ({} : TopologyState).tokensPerMember ∧
      ({} : TopologyState).tokensPerMember ≤ maxHashRingTokensPerMember)
  epoch b hb := by cases hb
  batchStates := by
    intro m hm
    obtain ⟨_, -, rfl⟩ := mem_crowd.mp hm
    exact Bool.false_ne_true
  members := by
    have hnone : ((List.range n).map crowdMember).flatMap Member.tokens = [] := by
      simp [flatMap_eq_nil_iff, crowdMember]
    exact Workers.validMembers ⟨hn, fun _ _ => rfl⟩ (hnone ▸ nodup_nil)
  committedToken := by
    intro hcommitted
    obtain ⟨_, hm, hstate⟩ := hcommitted
    obtain ⟨_, -, rfl⟩ := mem_crowd.mp hm
    cases hstate

theorem fits_crowd (hn : n ≤ 18000) : Fits (crowd n) where
  valid := validTopology_crowd hn
  storable m hm := by
    obtain ⟨_, -, rfl⟩ := mem_crowd.mp hm
    exact ⟨rfl, rfl⟩
  tokens := by
    have hzero : ∀ k ∈ (crowd n).members.map fun m => m.tokens.length, k = 0 := by
      refine forall_mem_map.mpr fun m hm => ?_
      obtain ⟨_, -, rfl⟩ := mem_crowd.mp hm
      rfl
    rw [tokenCount, sum_eq_zero hzero]
    exact Nat.zero_le _

/-- What the fields of a topology other than its members take. -/
def headSize (s : TopologyState) : Nat :=
  boolField s.clusterHasInit + uintField s.version + stringField schemaVersion +
    ((s.activeBatch.map fun b => (⟨toPbType b.type, b.epoch⟩ : ChangeBatchPb)).elim 0
      fun b => lengthDelimited b.byteSize) + uintField s.tokensPerMember

/-- Members with short addresses take at most 46 bytes each, and their overrides. -/
theorem byteSize_topologyPb_le {overrides : Nat} (hfew : overrides ≤ 1000)
    (hsorted : s.members.Pairwise fun a b => a.address < b.address)
    (haddress : ∀ m ∈ s.members, m.address.length ≤ 16)
    (hid : ∀ m ∈ s.members, m.identity.id.length = memberIdSize)
    (hoverrides : ∀ m ∈ s.members,
      repeatedField (m.tokenSeedOverrides.map TokenSeedOverride.byteSize) ≤ overrides) :
    (topologyPb s).byteSize ≤ s.members.length * (46 + overrides) + headSize s := by
  have hentry : ∀ k ∈ ((topologyPb s).members.entries.map fun e =>
      lengthDelimited e.1.length + lengthDelimited e.2.byteSize), k ≤ 43 + overrides := by
    rw [entries_topologyPb hsorted, map_map]
    refine forall_mem_map.mpr fun m hm => ?_
    have hname : stringField m.identity.id ≤ 16 + 3 :=
      stringField_le (le_of_eq (hid m hm)) (by decide)
    have hstate : uintField (toPbState m.state) ≤ 1 + 1 := by cases m.state <;> decide
    have hmember : (memberPb m).byteSize ≤ 21 + overrides := by
      have hlisted := hoverrides m hm
      show stringField m.identity.id + uintField (toPbState m.state) +
        repeatedField (m.tokenSeedOverrides.map TokenSeedOverride.byteSize) ≤ 21 + overrides
      omega
    have hkey := lengthDelimited_le (haddress m hm) (by decide)
    have hvalue := lengthDelimited_le hmember (by omega)
    dsimp only [Function.comp_apply]
    omega
  have hlength : ((topologyPb s).members.entries.map fun e =>
      lengthDelimited e.1.length + lengthDelimited e.2.byteSize).length = s.members.length := by
    rw [entries_topologyPb hsorted, length_map, length_map]
  obtain ⟨sizes, hsize, hsizes, hcount⟩ : ∃ sizes : List Nat,
      (topologyPb s).byteSize = boolField s.clusterHasInit + repeatedField sizes +
        uintField s.version + stringField schemaVersion +
        ((s.activeBatch.map fun b => (⟨toPbType b.type, b.epoch⟩ : ChangeBatchPb)).elim 0
          fun b => lengthDelimited b.byteSize) + uintField s.tokensPerMember ∧
      (∀ k ∈ sizes, k ≤ 43 + overrides) ∧ sizes.length = s.members.length :=
    ⟨_, rfl, hentry, hlength⟩
  have hmembers := repeatedField_le hsizes (by omega)
  rw [hcount, show 43 + overrides + 3 = 46 + overrides by omega] at hmembers
  rw [hsize, headSize]
  omega

theorem Workers.byteSize_le {member} (h : Workers n member) (hfits : Fits s)
    (hmembers : s.members = (List.range n).map member)
    (hoverrides : ∀ i < n, (member i).tokenSeedOverrides = [])
    (hhead : headSize (canonicalize s) ≤ 100) :
    (topologyPb (canonicalize s)).byteSize ≤ maxValueBytes := by
  have hperm : (canonicalize s).members.Perm s.members := sortBy_perm _ _
  have hmem : ∀ m ∈ (canonicalize s).members, ∃ i < n, member i = m := by
    intro m hm
    rw [hperm.mem_iff, hmembers] at hm
    simpa using hm
  have hsize := byteSize_topologyPb_le (Nat.zero_le 1000)
    (canonicalize_sorted hfits.valid.members) (fun m hm => by
      obtain ⟨i, hi, rfl⟩ := hmem m hm
      rw [Member.address, h.identity i hi]
      exact le_of_eq (length_crowdAddress i))
    hfits.canonicalize.valid.members.idSize (fun m hm => by
      obtain ⟨i, hi, rfl⟩ := hmem m hm
      rw [hoverrides i hi]
      exact le_refl 0)
  rw [hperm.length_eq, hmembers, length_map, length_range] at hsize
  have hlimit : 18000 * 46 + 100 ≤ maxValueBytes := by decide
  have hfew := h.few
  omega

theorem encodeTopology_crowd (hn : n ≤ 18000) :
    encodeTopology (crowd n) = .ok (topologyPb (canonicalize (crowd n))) := by
  have hworkers : Workers n crowdMember := ⟨hn, fun _ _ => rfl⟩
  refine encodeTopology_eq_ok.mpr ⟨fits_crowd hn, ?_, rfl⟩
  exact hworkers.byteSize_le (fits_crowd hn) rfl (fun _ _ => rfl)
    (by decide : headSize { version := 1 } ≤ 100)

/-- Three workers that wait to join. -/
theorem decode_encode_crowd :
    ∃ pb, encodeTopology (crowd 3) = .ok pb ∧ decodeTopology pb = .ok (canonicalize (crowd 3)) ∧
      encodeTopology (canonicalize (crowd 3)) = .ok pb := by
  have hpb := encodeTopology_crowd (n := 3) (by decide)
  exact ⟨_, hpb, (decode_encode_topology hpb).mpr (by decide)⟩

theorem decodeTopology_crowd (hmany : maxTopologyMembers < n) (hn : n ≤ 18000) :
    decodeTopology (topologyPb (canonicalize (crowd n))) =
      .error ⟨.kInvalid, "topology member count exceeds limit"⟩ := by
  have hsorted := canonicalize_sorted (fits_crowd hn).valid.members
  have hperm : (canonicalize (crowd n)).members.Perm (crowd n).members := sortBy_perm _ _
  obtain ⟨-, hsize, -⟩ := encodeTopology_eq_ok.mp (encodeTopology_crowd hn)
  have hlength : ¬(topologyPb (canonicalize (crowd n))).members.entries.length ≤
      maxTopologyMembers := by
    rw [entries_topologyPb hsorted, length_map, hperm.length_eq, crowd, length_map, length_range]
    omega
  have hschema : (topologyPb (canonicalize (crowd n))).schemaVersion = schemaVersion := rfl
  rw [decodeTopology, check_of hsize, ok_bind, check_of hschema, ok_bind, check_of_not hlength]
  rfl

/-- A topology of 10001 members can be written but not be read. -/
theorem crowd_unreadable :
    ∃ s pb, s.members.length = maxTopologyMembers + 1 ∧ encodeTopology s = .ok pb ∧
      decodeTopology pb = .error ⟨.kInvalid, "topology member count exceeds limit"⟩ := by
  have hn : maxTopologyMembers + 1 ≤ 18000 := by decide
  refine ⟨crowd (maxTopologyMembers + 1), _, ?_, encodeTopology_crowd hn,
    decodeTopology_crowd (Nat.lt_succ_self _) hn⟩
  rw [crowd, length_map, length_range]

/-! ## Allocated tokens -/

open HashAlgorithm

/-- The seed recorded for token number `index`, or the default one. -/
def seedAt (overrides : List TokenSeedOverride) (index : Nat) : Nat :=
  (overrides.find? fun o => o.tokenIndex = index).elim 0 TokenSeedOverride.tokenSeed

/-- The member's tokens follow from its recorded seeds, and can be stored and read back. -/
structure Decodable (n : Nat) (m : Member) : Prop where
  length : m.tokens.length = n
  derived : ∀ i < n, m.tokens[i]? =
    some (makeHashRingToken m.address i (seedAt m.tokenSeedOverrides i))
  ascending : m.tokenSeedOverrides.Pairwise fun a b => a.tokenIndex < b.tokenIndex
  overrides : ∀ o ∈ m.tokenSeedOverrides, o.tokenIndex < n ∧ 1 ≤ o.tokenSeed ∧ o.tokenSeed ≤ 9999
  encodes : encodeTokenSeedOverrides m n = .ok m.tokenSeedOverrides
  decodes : decodeMember n m.address (memberPb m) = .ok m

theorem mem_overridesOf {seeds : List Nat} {o} :
    o ∈ overridesOf seeds ↔ seeds[o.tokenIndex]? = some o.tokenSeed ∧ 0 < o.tokenSeed := by
  obtain ⟨i, s⟩ := o
  simp [overridesOf, mem_zipIdx_iff_getElem?]

/-- Recorded seeds have at most four digits, so an override takes at most nine bytes. -/
theorem Storable.repeatedField_le (h : Storable n m) (hn : n ≤ maxHashRingTokensPerMember) :
    repeatedField (m.tokenSeedOverrides.map TokenSeedOverride.byteSize) ≤ n * 9 := by
  unfold Storable at h
  split at h
  · rw [h.2]
    exact Nat.zero_le _
  · obtain ⟨seeds, rfl, hlt, -, hoverrides⟩ := h
    have hsize : ∀ o ∈ overridesOf seeds, TokenSeedOverride.byteSize o ≤ 6 := by
      intro o ho
      obtain ⟨hseed, -⟩ := mem_overridesOf.mp ho
      obtain ⟨hindex, hseed⟩ := List.getElem?_eq_some_iff.mp hseed
      have hless := hlt _ (hseed ▸ getElem_mem hindex)
      have hsmall : uintField o.tokenIndex ≤ 1 + 2 :=
        uintField_le (by decide) (hindex.trans_le (hn.trans (by decide)))
      have hshort : uintField o.tokenSeed ≤ 1 + 2 :=
        uintField_le (by decide) (hless.trans_le (by decide))
      unfold TokenSeedOverride.byteSize
      omega
    have hcount : (overridesOf seeds).length ≤ seeds.length :=
      (length_filterMap_le _ _).trans_eq length_zipIdx
    have hle := Protobuf.repeatedField_le (forall_mem_map.mpr hsize) (by decide)
    rw [length_map] at hle
    rw [hoverrides]
    omega

theorem seedAt_overridesOf {seeds : List Nat} {i s : Nat} (h : seeds[i]? = some s) :
    seedAt (overridesOf seeds) i = s := by
  unfold seedAt
  cases hfind : (overridesOf seeds).find? _ with
  | none =>
    have hnone := find?_eq_none.mp hfind ⟨i, s⟩
    simp [mem_overridesOf, h] at hnone
    exact hnone.symm
  | some o =>
    have hmem := mem_overridesOf.mp (mem_of_find?_eq_some hfind)
    have hindex : o.tokenIndex = i := by simpa using find?_some hfind
    rw [hindex, h] at hmem
    exact (Option.some.inj hmem.1).symm

theorem overridesOf_pairwise (seeds) :
    (overridesOf seeds).Pairwise fun a b => a.tokenIndex < b.tokenIndex := by
  have hindex : seeds.zipIdx.Pairwise fun a b => a.2 < b.2 :=
    pairwise_map.mp (zipIdx_map_snd 0 seeds ▸ pairwise_lt_range')
  refine pairwise_filterMap.mpr (hindex.imp fun hlt => ?_)
  grind

theorem decodable_of_placed (hn : 0 < n ∧ n ≤ maxHashRingTokensPerMember)
    (hs : m.state ≠ .initial) (h : m.Placed n) : Decodable n m := by
  have hstorable : Storable n m := (if_neg hs).mpr h
  refine ⟨h.length_tokens, ?_, ?_, ?_, (encodeTokenSeedOverrides_eq_ok hn).mpr ⟨hstorable, rfl⟩,
    decodeMember_memberPb hstorable⟩ <;> obtain ⟨seeds, rfl, hlt, htok, hos⟩ := h <;> rw [hos]
  · intro i hi
    rw [htok, seedAt_overridesOf (getElem?_eq_getElem hi)]
    simp [makeHashRingTokens, hi]
  · exact overridesOf_pairwise seeds
  · intro o ho
    obtain ⟨hget, hpos⟩ := mem_overridesOf.mp ho
    obtain ⟨hi, heq⟩ := List.getElem?_eq_some_iff.mp hget
    have := hlt _ (heq ▸ getElem_mem hi)
    simp only [maxHashRingTokenSeeds] at this
    omega

/-- **Allocation gives placements that can be decoded**, all tokens on the ring distinct. -/
theorem allocation_decodable : (∀ members n allocated, allocateTokens members n = .ok allocated →
      (members.flatMap (allocatedTokens allocated)).Nodup ∧
      ∀ i ∈ members, ∃ a, allocated.find? i.address = some a ∧
        Decodable n ⟨i, .active, a.tokens, a.tokenSeedOverrides⟩) ∧
    ∀ current joining n plan, planScaleOut current joining n = .ok plan →
      (plan.next.members.flatMap Member.tokens).Nodup ∧
      (∃ added, plan.next.members = current.members ++ added ∧
        ∀ m ∈ added, m.identity ∈ joining ∧ Decodable n m) ∧
      ∀ i ∈ joining, ∃ m ∈ plan.next.members, m.identity = i ∧ m.state = .joining := by
  constructor
  · intro members n allocated h
    obtain ⟨hrange, h⟩ := check_bind_eq_ok.mp h
    obtain ⟨_, hids, h⟩ := bind_eq_ok.mp h
    have hperm := sortBy_perm MemberIdentity.address members
    have hsort := (hperm.map MemberIdentity.address).nodup_iff.mpr
      (validateIdentities_eq_ok.mp hids).addresses_nodup
    refine ⟨(hperm.flatMap_right _).nodup_iff.mp ?_, fun i hi => ?_⟩
    · exact (allocateFrom_fresh hsort h).1
    · obtain ⟨a, ha, hp⟩ := (allocateFrom_spec hsort h).1 i (mem_sortBy.mpr hi)
      exact ⟨a, ha, decodable_of_placed hrange (by simp) hp⟩
  · intro current joining n plan h
    obtain ⟨hv, -, ⟨-, hn⟩, members, hplace, -, -, -, -, rfl⟩ := planScaleOut_eq_ok.mp h
    obtain ⟨added, rfl, hadded, hfresh, hjoined⟩ := placeJoining_spec hplace
    refine ⟨?_, ⟨added, rfl, fun m hm => ?_⟩, fun i hi => hjoined i (mem_sortBy.mpr hi)⟩
    · have hoccupied :
          ∀ t ∈ current.tokens, t ∈ (scaleOutPlacement current joining n).occupied := by
        intro t ht
        unfold scaleOutPlacement TokenPlacement.new
        dsimp only
        split <;> simp [ht]
      rw [flatMap_append, nodup_append]
      exact ⟨(validate_eq_ok.mp hv).2.2.2.1, hfresh.1, fun t ht t' ht' heq =>
        hfresh.2 t' ht' (hoccupied t' (heq ▸ ht))⟩
    · obtain ⟨hs, hp, hmem⟩ := hadded m hm
      exact ⟨mem_sortBy.mp hmem, decodable_of_placed hn (by simp [hs]) hp⟩

def sampleJoiner : MemberIdentity := ⟨replicate memberIdSize 1, ascii "10.0.0.2:31501"⟩

/-- One worker that serves. -/
def sampleServer : TopologyState where
  members := [⟨⟨replicate memberIdSize 0, ascii "10.0.0.1:31501"⟩, .active,
    [makeHashRingToken (ascii "10.0.0.1:31501") 0 0], []⟩]

/-- A second worker can join: its first candidate is free. -/
theorem exists_planScaleOut_sampleServer :
    ∃ plan, planScaleOut sampleServer [sampleJoiner] 1 = .ok plan := by
  obtain ⟨ring, hring, hne⟩ : ∃ ring,
      (scaleOutPlacement sampleServer [sampleJoiner] 1).ring = some ring ∧ ring.isEmpty = false :=
    ⟨BalancedRing.new (collectPlacementOwners sampleServer.members), rfl, by decide +kernel⟩
  have hmem : makeHashRingToken sampleJoiner.address 0 0 ∈ makeHashRingTokenCandidates
      sampleJoiner.address 0 balancedPlacementSeedCandidates :=
    mem_map.mpr ⟨0, mem_range.mpr (by decide), rfl⟩
  have hfree : makeHashRingToken sampleJoiner.address 0 0 ∉
      (scaleOutPlacement sampleServer [sampleJoiner] 1).occupied := by decide +kernel
  obtain ⟨probe, hprobe⟩ := exists_selectBalancedToken_of_mem ring (ringSpace / ring.totalMembers)
    hmem hfree
  obtain ⟨r, hselect⟩ : ∃ r, (scaleOutPlacement sampleServer [sampleJoiner] 1).selectTokens
      sampleJoiner.address 1 = .ok r := by
    unfold TokenPlacement.selectTokens
    rw [hring]
    simp [hne, selectBalancedTokens, hprobe]
  have hnew : findByAddress sampleServer.members sampleJoiner.address = none := by decide +kernel
  have hplace : placeJoining 1 [sampleJoiner] sampleServer.members
      (scaleOutPlacement sampleServer [sampleJoiner] 1) = .ok (sampleServer.members ++
        [⟨sampleJoiner, .joining, r.2.tokens, r.2.overrides⟩]) := by
    simp only [placeJoining, hnew]
    rw [check_of (by decide +kernel), ok_bind, hselect]
    rfl
  -- the tokens of the worker that serves are enough for both rings
  have howners : ∀ includeJoining joined, ∃ owners,
      buildOwners (sampleServer.members ++ joined) includeJoining [] false = .ok owners :=
    fun _ _ => (exists_buildOwners_iff _ _ _ _).mpr ⟨_, mem_cons_self, by decide +revert, by simp⟩
  obtain ⟨_, hfrom⟩ := howners false []
  obtain ⟨_, hto⟩ := howners true [⟨sampleJoiner, .joining, r.2.tokens, r.2.overrides⟩]
  have hids : validateIdentities [sampleJoiner] = .ok () := by decide +kernel
  exact ⟨_, planScaleOut_eq_ok.mpr ⟨by decide +kernel, validateIdentities_eq_ok.mp hids,
    by decide, _, hplace, _, hfrom, _, hto, rfl⟩⟩

theorem allocation_decodable_sampleJoiner :
    ∃ allocated plan, allocateTokens [sampleJoiner] 1 = .ok allocated ∧
      planScaleOut sampleServer [sampleJoiner] 1 = .ok plan ∧
      (∃ a, allocated.find? sampleJoiner.address = some a ∧
        Decodable 1 ⟨sampleJoiner, .active, a.tokens, a.tokenSeedOverrides⟩) ∧
      ∃ m ∈ plan.next.members, m.identity = sampleJoiner ∧ Decodable 1 m := by
  obtain ⟨plan, hplan⟩ := exists_planScaleOut_sampleServer
  have hok : (allocateTokens [sampleJoiner] 1).isOk := by decide +kernel
  cases ha : allocateTokens [sampleJoiner] 1 with
  | error => simp [ha, Except.isOk, Except.toBool] at hok
  | ok allocated =>
    refine ⟨allocated, plan, rfl, hplan, (allocation_decodable.1 _ _ _ ha).2 _ mem_cons_self, ?_⟩
    obtain ⟨-, ⟨added, hnext, hadded⟩, hjoined⟩ := allocation_decodable.2 _ _ _ _ hplan
    obtain ⟨m, hm, hid, -⟩ := hjoined sampleJoiner mem_cons_self
    rw [hnext, mem_append] at hm
    rcases hm with hold | hnew
    · obtain rfl := mem_singleton.mp hold
      exact absurd hid (by decide)
    · exact ⟨m, hnext ▸ mem_append_right _ hnew, hid, (hadded m hnew).2⟩

end Datasystem.Cluster.TopologyRepositoryCodec
