import Datasystem.Cluster.MembershipEndpointView
import Datasystem.Common.HostPort
import Datasystem.Common.Protobuf

/-! The stored form of a membership value: a message, or a text such as `17;ready;host;version`
that was written to ETCD. The bytes before the first `;` tell the two apart. -/

namespace Datasystem.Cluster.MembershipValueCodec

open Common Protobuf Lib Checked List

def maxMembershipValueBytes : Nat := 64 * 1024

def delimiter : Byte := 59

/-- The states that have a number in `StatePb`, and their names in a text. -/
def states : List (MemberLifecycleState × Nat × Bytes) :=
  [(.starting, 1, ascii "start"), (.restarting, 2, ascii "restart"),
    (.recovering, 3, ascii "recover"), (.ready, 4, ascii "ready"),
    (.exiting, 5, ascii "exiting"), (.downgradeRestarting, 6, ascii "d_rst")]

def findState (p : MemberLifecycleState × Nat × Bytes → Bool) (msg : String) :
    Result (MemberLifecycleState × Nat × Bytes) :=
  match states.find? p with
  | some e => .ok e
  | none => .error ⟨.kInvalid, msg⟩

/-! ## Messages -/

/-- `WorkerServiceInfoPb`. -/
structure MembershipValuePb where
  timestamp : Int
  state : Nat
  hostId : Bytes
  compatibilityVersion : Bytes

def writeString (tag : Byte) (s : Bytes) : Bytes := if s = [] then [] else writeDelimited tag s

/-- Fields in the order of their numbers, a negative number as its remainder modulo `2 ^ 64`. -/
def MembershipValuePb.serialize (pb : MembershipValuePb) : Bytes :=
  writeUint 8 (pb.timestamp % 2 ^ 64).toNat ++ writeUint 16 pb.state ++ writeString 26 pb.hostId ++
    writeString 34 pb.compatibilityVersion

def toProtoState (state : MemberLifecycleState) : Result Nat := do
  let e ← findState (·.1 = state) "invalid member lifecycle state"
  pure e.2.1

def fromProtoState (statePb : Nat) : Result MemberLifecycleState := do
  let e ← findState (·.2.1 = statePb) "invalid member lifecycle state"
  pure e.1

variable (value : MembershipValue)

def toMessage : Result MembershipValuePb := do
  let statePb ← toProtoState value.lifecycleState
  pure ⟨value.timestamp, statePb, value.hostId, value.compatibilityVersion⟩

def encode : Result Bytes := do
  let pb ← toMessage value
  checkFailReturnStatus (pb.serialize.length ≤ maxMembershipValueBytes) .kInvalid
    "membership value exceeds limit"
  pure pb.serialize

/-! ## Texts -/

variable (bytes : Bytes)

/-- The bytes before and after the first delimiter. -/
def cut : Bytes × Bytes :=
  (bytes.takeWhile (· ≠ delimiter), (bytes.dropWhile (· ≠ delimiter)).tail)

def isDigit (b : Byte) : Bool := 48 ≤ b.val && b.val ≤ 57

def looksLikeLegacyEtcdValue : Bool :=
  let stamp := (cut bytes).1
  bytes.contains delimiter && !stamp.isEmpty && (stamp == ascii "_" || stamp.all isDigit)

/-- The cast of an `unsigned long`. -/
def toInt64 (n : Nat) : Int := if n < 2 ^ 63 then n else n - 2 ^ 64

/-- `std::stoul` also takes blanks and a sign, but with these nothing looks like a text. -/
def parseLegacyTimestamp : Result Int := do
  if bytes = ascii "_" then pure 0
  else
    checkFailReturnStatus (bytes ≠ [] ∧ bytes.all isDigit ∧ stoi bytes < 2 ^ 64) .kInvalid
      "invalid legacy membership timestamp"
    pure (toInt64 (stoi bytes))

def fromLegacyState (stateBytes : Bytes) : Result MemberLifecycleState := do
  let e ← findState (·.2.2 = stateBytes) "invalid legacy member lifecycle state"
  pure e.1

/-- What follows the third delimiter is the version. A part that is missing is empty. -/
def decodeLegacyEtcdValue : Result MembershipValue := do
  let stamp := cut bytes
  let state := cut stamp.2
  let host := cut state.2
  let timestamp ← parseLegacyTimestamp stamp.1
  let lifecycleState ← fromLegacyState state.1
  pure ⟨timestamp, lifecycleState, host.1, host.2⟩

variable (parse : Bytes → Option MembershipValuePb)

/-- `Decode`, with what protobuf parses from bytes. -/
def decode (bytes : Bytes) : Result MembershipValue := do
  checkFailReturnStatus (bytes.length ≤ maxMembershipValueBytes) .kInvalid
    "membership value exceeds limit"
  if looksLikeLegacyEtcdValue bytes then decodeLegacyEtcdValue bytes
  else
    match parse bytes with
    | none => .error ⟨.kInvalid, "failed to parse membership value proto"⟩
    | some pb =>
      let lifecycleState ← fromProtoState pb.state
      pure ⟨pb.timestamp, lifecycleState, pb.hostId, pb.compatibilityVersion⟩

/-! ## Round trips -/

/-- The text names the state in its second part, and its first part is the time, or `_` for none. -/
def Written (value : MembershipValue) : Prop :=
  (∃ n, (value.lifecycleState, n, (cut (cut bytes).2).1) ∈ states) ∧
    value.timestamp = if (cut bytes).1 = ascii "_" then 0 else (stoi (cut bytes).1 : Int)

/-- A state has one number and a number one state, and no number is zero. -/
theorem fromProtoState_of_toProtoState : ∀ state n, toProtoState state = .ok n →
    n ≠ 0 ∧ fromProtoState n = .ok state := by
  rintro (_ | _ | _ | _ | _ | _ | _ | _) n h <;> cases h <;> decide

/-- A message begins with the tag of its time or its state, and no text begins with either. -/
theorem looksLikeLegacyEtcdValue_serialize (pb : MembershipValuePb) (h : pb.state ≠ 0) :
    looksLikeLegacyEtcdValue pb.serialize = false := by
  have hhead : ∃ rest, pb.serialize = 8 :: rest ∨ pb.serialize = 16 :: rest := by
    unfold MembershipValuePb.serialize writeUint
    rw [if_neg h]
    split
    · exact ⟨_, .inr rfl⟩
    · exact ⟨_, .inl rfl⟩
  obtain ⟨rest, hrest | hrest⟩ := hhead <;>
    simp [looksLikeLegacyEtcdValue, cut, hrest, delimiter, isDigit, ascii]

theorem toInt64_eq_iff {n : Nat} : toInt64 n = n ↔ n < 2 ^ 63 := by
  unfold toInt64
  split <;> omega

/-- The state is always the one that the text names, and the time is if it fits. -/
theorem written_iff_of_decodeLegacyEtcdValue {bytes : Bytes} {value : MembershipValue}
    (h : decodeLegacyEtcdValue bytes = .ok value) :
    Written bytes value ↔ (cut bytes).1 = ascii "_" ∨ stoi (cut bytes).1 < 2 ^ 63 := by
  obtain ⟨timestamp, hstamp, h⟩ := bind_eq_ok.mp h
  obtain ⟨state, hstate, h⟩ := bind_eq_ok.mp h
  obtain rfl := pure_eq_ok.mp h
  have hnamed : ∃ n, (state, n, (cut (cut bytes).2).1) ∈ states := by
    obtain ⟨e, he, hfirst⟩ := bind_eq_ok.mp hstate
    obtain rfl := pure_eq_ok.mp hfirst
    unfold findState at he
    split at he
    · rename_i found hfound
      cases he
      have hname : e.2.2 = (cut (cut bytes).2).1 := by simpa using find?_some hfound
      exact ⟨e.2.1, hname ▸ mem_of_find?_eq_some hfound⟩
    · cases he
  refine (and_iff_right hnamed).trans ?_
  show timestamp = _ ↔ _
  unfold parseLegacyTimestamp at hstamp
  split at hstamp <;> rename_i hnone
  · simp [hnone, ← pure_eq_ok.mp hstamp]
  · obtain ⟨-, hstamp⟩ := check_bind_eq_ok.mp hstamp
    rw [if_neg hnone, ← pure_eq_ok.mp hstamp, toInt64_eq_iff, or_iff_right hnone]

/-- A value that is encoded reads back and is not taken for a text. A text that is accepted is read
as what it says exactly if it has no time or its time is a signed 64-bit number. -/
theorem membership_value_reads_back :
    (∀ value bytes, (∀ pb, toMessage value = .ok pb → parse pb.serialize = some pb) →
      encode value = .ok bytes →
      looksLikeLegacyEtcdValue bytes = false ∧ decode parse bytes = .ok value) ∧
    ∀ bytes value, looksLikeLegacyEtcdValue bytes → decode parse bytes = .ok value →
      (Written bytes value ↔ (cut bytes).1 = ascii "_" ∨ stoi (cut bytes).1 < 2 ^ 63) := by
  constructor
  · intro value bytes hparse hencode
    obtain ⟨pb, hpb, hencode⟩ := bind_eq_ok.mp hencode
    obtain ⟨hlen, hbytes⟩ := check_bind_eq_ok.mp hencode
    obtain rfl := pure_eq_ok.mp hbytes
    have hread := hparse pb hpb
    obtain ⟨n, hstate, hmessage⟩ := bind_eq_ok.mp hpb
    obtain rfl := pure_eq_ok.mp hmessage
    obtain ⟨hne, hback⟩ := fromProtoState_of_toProtoState _ n hstate
    have hlegacy := looksLikeLegacyEtcdValue_serialize
      ⟨value.timestamp, n, value.hostId, value.compatibilityVersion⟩ hne
    refine ⟨hlegacy, ?_⟩
    rw [decode, check_of hlen, ok_bind, hlegacy, if_neg Bool.false_ne_true, hread]
    simp [hback]
  · intro bytes value hlegacy hdecode
    obtain ⟨-, hdecode⟩ := check_bind_eq_ok.mp hdecode
    rw [if_pos hlegacy] at hdecode
    exact written_iff_of_decodeLegacyEtcdValue hdecode

theorem ready_text_reads_back :
    decode (fun _ => some ⟨17, 4, [], []⟩) [8, 17, 16, 4] = .ok ⟨17, .ready, [], []⟩ ∧
      Written (ascii "17;ready;host") ⟨17, .ready, ascii "host", []⟩ := by
  have h := membership_value_reads_back fun _ => some ⟨17, 4, [], []⟩
  constructor
  · exact (h.1 _ _ (fun pb hpb => by cases hpb; rfl) (by decide +kernel)).2
  · exact (h.2 _ _ (by decide +kernel) (by decide +kernel)).mpr (by decide +kernel)

/-- A time that needs the sign bit comes out negative. -/
theorem legacy_timestamp_overflows : decode (fun _ => none) (ascii "9223372036854775808;ready") =
    .ok ⟨-9223372036854775808, .ready, [], []⟩ := by
  decide +kernel

end Datasystem.Cluster.MembershipValueCodec
