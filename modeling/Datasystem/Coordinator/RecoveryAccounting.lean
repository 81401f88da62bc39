import Datasystem.Coordinator.RecoverySystem

/-! Bytes and slots of the recovery manager. The two byte counters always equal what they
count: payloads that are being submitted and payloads that contexts have selected. -/

namespace Datasystem.Coordinator

open Common Cluster TopologyRepositoryCodec Lib Checked StateMachine LockedContext
open OrderedMap (find?_erase find?_insert le_sumBy)
open ClusterRecoveryContext (selectedBytes)

/-! ## Retained payloads -/

namespace LockedContext

variable {w w' : LockedContext}

/-- What a released payload gives back is what the context held. -/
theorem Keeps.bytes (h : w.Keeps w') (hle : w.context.selectedBytes ≤ w.retainedCandidateBytes)
    (hlt : w.retainedCandidateBytes < sizeRange) :
    w'.retainedCandidateBytes + w.context.selectedBytes =
        w.retainedCandidateBytes + w'.context.selectedBytes ∧
      w'.context.selectedBytes ≤ w.context.selectedBytes := by
  cases h.selection with
  | same htopology hdigest hversion hretained =>
    have hbytes : w'.context.selectedBytes = w.context.selectedBytes := by
      rw [selectedBytes, selectedBytes, htopology]
    omega
  | released htopology hretained =>
    have hbytes : w'.context.selectedBytes = 0 := by
      rw [selectedBytes, htopology, Option.elim_none]
    rw [releaseSelectedPayload_retained] at hretained
    cases hselected : w.context.selectedCanonicalTopology with
    | none =>
      have hzero : w.context.selectedBytes = 0 := by
        rw [selectedBytes, hselected, Option.elim_none]
      rw [hselected] at hretained
      dsimp only at hretained
      omega
    | some payload =>
      have hlen : w.context.selectedBytes = payload.length := by
        rw [selectedBytes, hselected, Option.elim_some]
      rw [hselected] at hretained
      dsimp only at hretained
      rw [subSize_of_le (by omega) hlt] at hretained
      omega

theorem retainPayload_bytes {report} (hle : w.context.selectedBytes ≤ w.retainedCandidateBytes)
    (hlt : w.retainedCandidateBytes + report.canonicalTopology.length < sizeRange) :
    (w.retainPayload report).retainedCandidateBytes + w.context.selectedBytes =
        w.retainedCandidateBytes + (w.retainPayload report).context.selectedBytes ∧
      (w.retainPayload report).context.selectedBytes = report.canonicalTopology.length := by
  have hput : (w.putEvidence report false).context.selectedBytes = w.context.selectedBytes := rfl
  obtain ⟨hbytes, -⟩ := (keeps_release (w := w.putEvidence report false)).bytes hle
    (lt_of_le_of_lt (Nat.le_add_right _ _) hlt)
  have hzero : (w.putEvidence report false).releaseSelectedPayload.context.selectedBytes = 0 := rfl
  have hkept : (w.putEvidence report false).retainedCandidateBytes = w.retainedCandidateBytes := rfl
  have hadd : (w.retainPayload report).retainedCandidateBytes =
      (w.putEvidence report false).releaseSelectedPayload.retainedCandidateBytes +
        report.canonicalTopology.length := addSize_of_lt (by omega)
  have hselected : (w.retainPayload report).context.selectedBytes =
      report.canonicalTopology.length := rfl
  omega

end LockedContext

namespace TopologyRecoveryManager

/-- The counter of retained payloads is exact, and evidence is only that of members. -/
structure Retained (m : TopologyRecoveryManager) : Prop where
  exact : m.retainedCandidateBytes = m.contexts.sumBy selectedBytes
  fits : m.retainedCandidateBytes < sizeRange
  members : ∀ clusterName c, m.contexts.find? clusterName = some c →
    ∀ address, (c.reporterEvidence.find? address).isSome → address ∈ c.observedMembers

variable {exempt clears : Prop} {m m' : TopologyRecoveryManager} {clusterName : Bytes}
  {w w' : LockedContext}

theorem Retained.selectedBytes_le (h : Retained m) (hlock : m.lock clusterName = some w) :
    w.context.selectedBytes ≤ w.retainedCandidateBytes ∧ w.retainedCandidateBytes < sizeRange := by
  obtain ⟨hfind, hretained⟩ := lock_eq_some.mp hlock
  rw [hretained]
  exact ⟨h.exact ▸ le_sumBy hfind _, h.fits⟩

/-- Replacing one context by another moves the sum like the counter. -/
theorem Retained.replace (h : Retained m) {c c' : ClusterRecoveryContext} {retained : Nat}
    (hfind : (m.contexts.find? clusterName).elim 0 selectedBytes = c.selectedBytes)
    (hbytes : retained + c.selectedBytes = m.retainedCandidateBytes + c'.selectedBytes)
    (hfits : retained < sizeRange)
    (hmembers : ∀ address, (c'.reporterEvidence.find? address).isSome →
      address ∈ c'.observedMembers)
    (hcontexts : m'.contexts = m.contexts.insert clusterName c')
    (hretained : m'.retainedCandidateBytes = retained) : Retained m' where
  exact := by
    have hsum := OrderedMap.sumBy_insert m.contexts clusterName c' selectedBytes
    have hexact := h.exact
    rw [hretained, hcontexts]
    omega
  fits := hretained ▸ hfits
  members cluster d hd := by
    rw [hcontexts, find?_insert] at hd
    split at hd
    · cases hd
      exact hmembers
    · exact h.members cluster d hd

section

variable
  (hmembers : ∀ address, (w.context.reporterEvidence.find? address).isSome →
    address ∈ w.context.observedMembers)

include hmembers

theorem Retained.evidence_of_keeps (hkeeps : w.Keeps w') (address)
    (haddr : (w'.context.reporterEvidence.find? address).isSome) :
    address ∈ w'.context.observedMembers := by
  rw [hkeeps.observed]
  rcases hkeeps.evidence address haddr with hold | hmem
  · exact hmembers address hold
  · exact hmem

/-- A member that leaves takes its evidence along. -/
theorem Retained.evidence_withoutMember (gone address)
    (haddr : ((w.withoutMember gone).context.reporterEvidence.find? address).isSome) :
    address ∈ (w.withoutMember gone).context.observedMembers := by
  have hfind : (w.withoutMember gone).context.reporterEvidence.find? address =
      (w.context.reporterEvidence.erase gone).find? address := rfl
  rw [hfind, find?_erase] at haddr
  split at haddr
  · cases haddr
  · rename_i hne
    exact Finset.mem_erase.mpr ⟨hne, hmembers address haddr⟩

end

/-- Sections keep the counter exact, and none of them makes it grow. -/
theorem Retained.moves (h : Retained m) (hmoves : Moves exempt clears m m') :
    Retained m' ∧ m'.retainedCandidateBytes ≤ m.retainedCandidateBytes := by
  cases hmoves with
  | stay hcontexts hretained =>
    refine ⟨⟨?_, ?_, ?_⟩, hretained.le⟩
    · rw [hretained, hcontexts, h.exact]
    · rw [hretained]
      exact h.fits
    · rw [hcontexts]
      exact h.members
  | @keep clusterName w w' hlock hkeeps hcontexts hretained hround hnext =>
    obtain ⟨hfind, hw⟩ := lock_eq_some.mp hlock
    obtain ⟨hle, hlt⟩ := h.selectedBytes_le hlock
    obtain ⟨hbytes, hshrinks⟩ := hkeeps.bytes hle hlt
    refine ⟨h.replace (c := w.context) (by rw [hfind]; rfl) (hw ▸ hbytes) (by omega)
      (Retained.evidence_of_keeps (h.members _ _ hfind) hkeeps) hcontexts hretained, by omega⟩
  | @observe clusterName c c' hfind hgrows hcontexts hretained hround hnext =>
    have hbytes : c'.selectedBytes = c.selectedBytes := by
      rw [selectedBytes, selectedBytes, hgrows.topology]
    refine ⟨h.replace (c := c) (by rw [hfind]; rfl) (by omega) h.fits (fun address haddr => ?_)
      hcontexts hretained, hretained.le⟩
    rw [hgrows.evidence] at haddr
    exact hgrows.members (h.members _ _ hfind address haddr)
  | @create clusterName c hfind hgrows hcontexts hretained hround hnext =>
    have hbytes : c.selectedBytes = 0 := by
      rw [selectedBytes, hgrows.topology, Option.elim_none]
    refine ⟨h.replace (c := { generation := 0 }) (by rw [hfind]; rfl) (by rw [hbytes]; rfl) h.fits
      (fun address haddr => ?_) hcontexts hretained, hretained.le⟩
    rw [hgrows.evidence] at haddr
    cases haddr
  | @leave clusterName address w w' hlock hkeeps hmembers hcontexts hretained hround hnext =>
    obtain ⟨hfind, hw⟩ := lock_eq_some.mp hlock
    obtain ⟨hle, hlt⟩ := h.selectedBytes_le hlock
    obtain ⟨hbytes, hshrinks⟩ := hkeeps.bytes hle hlt
    have hkept : (w.withoutMember address).retainedCandidateBytes = w.retainedCandidateBytes := rfl
    refine ⟨h.replace (c := w.context) (by rw [hfind]; rfl) (hw ▸ hbytes) (by omega)
      (Retained.evidence_of_keeps (Retained.evidence_withoutMember (h.members _ _ hfind) address)
        hkeeps)
      hcontexts hretained, ?_⟩
    omega
  | @drop clusterName address w w' hlock hkeeps hreleased hcontexts hretained hround hnext =>
    obtain ⟨hfind, hw⟩ := lock_eq_some.mp hlock
    obtain ⟨hle, hlt⟩ := h.selectedBytes_le hlock
    obtain ⟨hbytes, -⟩ := hkeeps.bytes hle hlt
    have hkept : (w.withoutMember address).retainedCandidateBytes = w.retainedCandidateBytes := rfl
    have hsame : (w.withoutMember address).context.selectedBytes = w.context.selectedBytes := rfl
    have hzero : w'.context.selectedBytes = 0 := by
      rw [selectedBytes, hreleased, Option.elim_none]
    have hsum := OrderedMap.sumBy_erase m.contexts clusterName selectedBytes
    rw [hfind, Option.elim_some, ← h.exact] at hsum
    refine ⟨⟨?_, ?_, fun cluster d hd => ?_⟩, by omega⟩
    · rw [hcontexts]
      omega
    · omega
    · rw [hcontexts, find?_erase] at hd
      split at hd
      · cases hd
      · exact h.members cluster d hd
  | clear hclear hcontexts hretained hnext =>
    refine ⟨⟨?_, ?_, ?_⟩, by omega⟩
    · rw [hcontexts, hretained]
      rfl
    · rw [hretained]
      decide
    · rw [hcontexts]
      intro cluster d hd
      cases hd

theorem Retained.retain (h : Retained m) {report : TopologyRecoveryCandidateReport}
    (hlock : m.lock clusterName = some w) (hkeeps : w.Keeps w')
    (hmem : report.reporterAddress ∈ w'.context.observedMembers)
    (hfits : m.retainedCandidateBytes + report.canonicalTopology.length < sizeRange)
    (hcontexts : m'.contexts = m.contexts.insert clusterName (w'.retainPayload report).context)
    (hretained : m'.retainedCandidateBytes = (w'.retainPayload report).retainedCandidateBytes) :
    Retained m' ∧ m'.retainedCandidateBytes ≤
      m.retainedCandidateBytes + report.canonicalTopology.length := by
  obtain ⟨hfind, hw⟩ := lock_eq_some.mp hlock
  obtain ⟨hle, hlt⟩ := h.selectedBytes_le hlock
  obtain ⟨hbytes, hshrinks⟩ := hkeeps.bytes hle hlt
  have hlt' : w'.retainedCandidateBytes + report.canonicalTopology.length < sizeRange := by omega
  obtain ⟨hadd, hlen⟩ := retainPayload_bytes (by omega) hlt'
  have hevidence :
      ∀ address, ((w'.retainPayload report).context.reporterEvidence.find? address).isSome →
      address ∈ (w'.retainPayload report).context.observedMembers :=
    @Retained.evidence_of_keeps w' (w'.putEvidence report false)
      (Retained.evidence_of_keeps (h.members _ _ hfind) hkeeps) (keeps_putEvidence hmem)
  exact ⟨h.replace (c := w.context) (by rw [hfind]; rfl) (by omega) (by omega) hevidence hcontexts
    hretained, by omega⟩

/-- The loop of `BeginLeaderRound` and `EndLeaderRound` gives back exactly what is retained. -/
theorem foldl_release_eq {l : List ClusterRecoveryContext} {retained : Nat}
    (hle : (l.map selectedBytes).sum ≤ retained) (hlt : retained < sizeRange) :
    l.foldl (fun retained c =>
        (releaseSelectedPayload ⟨c, retained⟩).retainedCandidateBytes) retained =
      retained - (l.map selectedBytes).sum := by
  induction l generalizing retained with
  | nil => rfl
  | cons c rest ih =>
    rw [List.map_cons, List.sum_cons] at hle ⊢
    obtain ⟨hbytes, -⟩ := (keeps_release (w := ⟨c, retained⟩)).bytes (by dsimp only; omega) hlt
    have hzero : (releaseSelectedPayload ⟨c, retained⟩).context.selectedBytes = 0 := rfl
    dsimp only at hbytes
    rw [List.foldl_cons, ih (by omega) (by omega)]
    omega

theorem Retained.releaseAll_eq_zero (h : Retained m) : m.releaseAll = 0 := by
  have hsum : (m.contexts.values.map selectedBytes).sum = m.retainedCandidateBytes := h.exact.symm
  rw [releaseAll, foldl_release_eq hsum.le h.fits, hsum, Nat.sub_self]

end TopologyRecoveryManager

/-! ## Submitted payloads -/

namespace RecoverySystem

open TopologyRecoveryManager

variable {cfg : RecoveryConfig} {exempt clears : Prop} {s s' : RecoverySystem}

def submittedBytes (s : RecoverySystem) : Nat :=
  (s.validations.map fun t => t.validation.payloadBytes).sum

theorem submittedBytes_eq : s.submittedBytes =
    ((s.validations.map ValidationTask.validation).map PayloadValidation.payloadBytes).sum := by
  rw [List.map_map]
  rfl

/-- Both counters are exact, and together they stay within the limit. -/
structure Accounted (cfg : RecoveryConfig) (s : RecoverySystem) : Prop where
  retained : Retained s.manager
  admitted : s.manager.admittedReportBytes = s.submittedBytes
  limit : s.manager.admittedReportBytes + s.manager.retainedCandidateBytes ≤
    cfg.options.maxCandidateMemoryBytes

theorem Accounted.fits (h : Accounted cfg s) :
    s.manager.admittedReportBytes + s.manager.retainedCandidateBytes < sizeRange :=
  lt_of_le_of_lt h.limit cfg.options.maxCandidateMemoryBytes_lt

theorem map_validation_set {l : List ValidationTask} {index : Nat} {v : PayloadValidation}
    {before after : Option (Result Unit)} (hget : l[index]? = some ⟨v, before⟩) :
    (l.set index ⟨v, after⟩).map ValidationTask.validation = l.map ValidationTask.validation := by
  apply List.ext_getElem?
  intro i
  rw [List.map_set, List.getElem?_set]
  split
  · rename_i heq
    subst heq
    rw [List.getElem?_map, hget]
    split
    · rfl
    · rename_i hlen
      exact absurd (List.getElem?_eq_some_iff.mp hget).1 (by simpa using hlen)
  · rfl

theorem sum_map_eraseIdx {α : Type} {l : List α} {index : Nat} {a : α} (f : α → Nat)
    (hget : l[index]? = some a) :
    (l.map f).sum = f a + ((l.eraseIdx index).map f).sum := by
  obtain ⟨hlt, rfl⟩ := List.getElem?_eq_some_iff.mp hget
  have hperm := (List.getElem_cons_eraseIdx_perm hlt).symm
  rw [(hperm.map f).sum_eq, List.map_cons, List.sum_cons]

theorem Accounted.effect (h : Accounted cfg s) (heffect : Effect cfg exempt clears s s') :
    Accounted cfg s' := by
  have hfits := h.fits
  have hlimit := h.limit
  have hadmit := h.admitted
  cases heffect with
  | moves hmoves hadmitted hvalidations hvalidated =>
    obtain ⟨hretained, hle⟩ := h.retained.moves hmoves
    refine ⟨hretained, ?_, by omega⟩
    rw [submittedBytes, hvalidations, hadmitted, h.admitted, submittedBytes]
  | @submit v w hmoves hlock hgeneration hcapacity hadmitted hretained hvalidations hvalidated =>
    rw [addSize_of_lt hfits] at hcapacity
    unfold hasCapacity at hcapacity
    rw [Bool.and_eq_true, decide_eq_true_eq, decide_eq_true_eq] at hcapacity
    have hmax := cfg.options.maxCandidateMemoryBytes_lt
    rw [addSize_of_lt (by omega)] at hadmitted
    refine ⟨(h.retained.moves hmoves).1, ?_, by omega⟩
    rw [submittedBytes, hvalidations, List.map_cons, List.sum_cons, hadmitted, h.admitted,
      submittedBytes, Nat.add_comm]
  | @validate index v result hget hmanager hvalidations hvalidated =>
    refine ⟨hmanager ▸ h.retained, ?_, by rw [hmanager]; exact h.limit⟩
    rw [hmanager, h.admitted, submittedBytes_eq, submittedBytes_eq, hvalidations,
      map_validation_set hget]
  | @finish index v result hget hmanager hadmitted hvalidations hvalidated =>
    have hsum := sum_map_eraseIdx (fun t : ValidationTask => t.validation.payloadBytes) hget
    have hbytes : v.payloadBytes = v.report.canonicalTopology.length := rfl
    have hleft : s'.submittedBytes =
        ((s.validations.eraseIdx index).map fun t => t.validation.payloadBytes).sum := by
      rw [submittedBytes, hvalidations]
    rw [submittedBytes, hsum] at hadmit
    dsimp only at hadmit
    rw [subSize_of_le (by omega) (by omega)] at hadmitted
    rcases hmanager with hmoves | ⟨-, w, w', hlock, -, hkeeps, hmem, heq⟩
    · obtain ⟨hretained, hle⟩ := h.retained.moves hmoves
      exact ⟨hretained, by omega, by omega⟩
    · obtain ⟨hretained, hle⟩ := h.retained.retain hlock hkeeps hmem (by omega)
        (congrArg contexts heq)
        (congrArg TopologyRecoveryManager.retainedCandidateBytes heq)
      exact ⟨hretained, by omega, by omega⟩

theorem accounted_init : Accounted cfg {} where
  retained := ⟨rfl, by decide, fun _ _ h => nomatch h⟩
  admitted := rfl
  limit := Nat.zero_le _

theorem accounted_of_reaches (h : Reaches (step cfg) {} s) : Accounted cfg s :=
  h.invariant accounted_init fun _ _ _ hstep hs =>
    hs.effect (step_effect (lt_of_le_of_lt (Nat.le_add_right _ _) hs.fits) hstep)

/-- In every reachable state the counters equal what they count, their sum is within the limit,
what a section may give back is covered by its counter, the release loops end at zero, and
evidence is only that of observed members. -/
theorem recovery_memory_accounted (cfg : RecoveryConfig) (s : RecoverySystem)
    (h : Reaches (step cfg) {} s) :
    s.manager.retainedCandidateBytes = s.manager.contexts.sumBy selectedBytes ∧
      s.manager.admittedReportBytes =
        (s.validations.map fun t => t.validation.report.canonicalTopology.length).sum ∧
      s.manager.admittedReportBytes + s.manager.retainedCandidateBytes ≤
        cfg.options.maxCandidateMemoryBytes ∧
      (∀ clusterName c, s.manager.contexts.find? clusterName = some c →
        c.selectedBytes ≤ s.manager.retainedCandidateBytes) ∧
      (∀ t ∈ s.validations,
        t.validation.report.canonicalTopology.length ≤ s.manager.admittedReportBytes) ∧
      s.manager.releaseAll = 0 ∧
      ∀ clusterName c, s.manager.contexts.find? clusterName = some c →
        ∀ address, (c.reporterEvidence.find? address).isSome → address ∈ c.observedMembers := by
  have hs := accounted_of_reaches h
  refine ⟨hs.retained.exact, hs.admitted, hs.limit, fun clusterName c hc => ?_, fun t ht => ?_,
    hs.retained.releaseAll_eq_zero, hs.retained.members⟩
  · rw [hs.retained.exact]
    exact le_sumBy hc _
  · rw [hs.admitted]
    exact List.single_le_sum (fun _ _ => Nat.zero_le _) _ (List.mem_map_of_mem ht)

/-- A topology without members. -/
def sampleTopology : ClusterTopologyPb :=
  { clusterHasInit := false
    members := .empty
    version := 1
    schemaVersion := TopologyRepositoryCodec.schemaVersion
    activeBatch := none
    tokensPerMember := 1 }

/-- Its bytes: version, schema version and tokens per member. -/
def sampleValue : Bytes := [24, 1, 34, 1, 50, 48, 1]

/-- The SHA-256 digest of the bytes. -/
def sampleDigest : Bytes :=
  [74, 70, 196, 139, 192, 40, 50, 83, 191, 100, 8, 86, 139, 30, 157, 100, 197, 98, 120, 158, 23,
    139, 114, 15, 39, 185, 135, 145, 181, 16, 170, 215]

/-- A coordinator with room for one cluster. Protobuf and SHA-256 are as they are on the sample. -/
def sampleConfig : RecoveryConfig where
  options := { maxClusters := 1 }
  coordinatorId := [0]
  sha256 := ⟨fun _ => sampleDigest, fun _ => rfl⟩
  wire :=
    { parse := fun value => if value = sampleValue then some sampleTopology else none
      serialize := fun _ => sampleValue }
  fenced := true

def sampleAddress : Bytes := ascii "1.1.1.1:1"

def sampleReport (payload : Bytes) : TopologyRecoveryCandidateReport :=
  ⟨sampleAddress, true, 1, Hasher.hexEncode sampleDigest, payload⟩

/-- The only member of a cluster reports its topology and hands in the payload. -/
def sampleReports : List RecoveryAction :=
  [.beginLeaderRound ⟨1, [0]⟩ 60000, .updateMembership [] sampleAddress .existing,
    .reportCandidate [] 1 [0] (sampleReport []), .continueReport 0 none, .continueReport 0 none,
    .reportCandidate [] 1 [0] (sampleReport sampleValue), .continueReport 0 none,
    .continueReport 0 none, .validate 0 none, .finishValidation 0]

theorem reported_payload_is_counted : ∃ s, Reaches (step sampleConfig) {} s ∧
    s.manager.retainedCandidateBytes = 7 ∧
    s.manager.retainedCandidateBytes = s.manager.contexts.sumBy selectedBytes ∧
    s.manager.admittedReportBytes =
      (s.validations.map fun t => t.validation.report.canonicalTopology.length).sum := by
  have hrun : (run (step sampleConfig) {} sampleReports).any fun s =>
      decide (s.manager.retainedCandidateBytes = 7) := by
    decide +kernel
  obtain ⟨s, hs, hp⟩ := exists_reaches sampleReports hrun
  have haccounted := recovery_memory_accounted sampleConfig s hs
  exact ⟨s, hs, hp, haccounted.1, haccounted.2.1⟩

/-! ## Slots -/

/-- Every context has a member that is currently observed. -/
def Populated (m : TopologyRecoveryManager) : Prop :=
  ∀ clusterName c, m.contexts.find? clusterName = some c → c.observedMembers ≠ ∅

theorem Populated.insert {m m'} {clusterName} {c} (h : Populated m) (hc : c.observedMembers ≠ ∅)
    (hcontexts : m'.contexts = m.contexts.insert clusterName c) : Populated m' := by
  intro cluster d hd
  rw [hcontexts, find?_insert] at hd
  split at hd
  · cases hd
    exact hc
  · exact h cluster d hd

/-- Only an exempt removal leaves a context without members. -/
theorem Populated.moves {m m'} (h : Populated m) (hexempt : ¬exempt)
    (hmoves : Moves exempt clears m m') : Populated m' := by
  cases hmoves with
  | stay hcontexts =>
    intro cluster d hd
    rw [hcontexts] at hd
    exact h cluster d hd
  | keep hlock hkeeps hcontexts =>
    refine h.insert ?_ hcontexts
    rw [hkeeps.observed]
    exact h _ _ (lock_eq_some.mp hlock).1
  | observe _ hgrows hcontexts | create _ hgrows hcontexts =>
    exact h.insert hgrows.nonempty hcontexts
  | leave _ _ hmembers hcontexts =>
    exact h.insert (hmembers.resolve_right hexempt) hcontexts
  | drop _ _ _ hcontexts =>
    intro cluster d hd
    rw [hcontexts, find?_erase] at hd
    split at hd
    · cases hd
    · exact h cluster d hd
  | clear _ hcontexts =>
    intro cluster d hd
    rw [hcontexts] at hd
    cases hd

theorem Populated.effect (h : Populated s.manager) (hexempt : ¬exempt)
    (heffect : Effect cfg exempt clears s s') : Populated s'.manager := by
  cases heffect with
  | moves hmoves | submit hmoves => exact h.moves hexempt hmoves
  | validate _ hmanager => exact hmanager ▸ h
  | finish _ hmanager =>
    rcases hmanager with hmoves | ⟨-, w, w', hlock, -, hkeeps, -, heq⟩
    · exact h.moves hexempt hmoves
    · refine h.insert ?_ (congrArg contexts heq)
      show w'.context.observedMembers ≠ ∅
      rw [hkeeps.observed]
      exact h _ _ (lock_eq_some.mp hlock).1

/-- As long as no installation loses the last member of its cluster, every context of every
reachable state has an observed member, so that a cluster without members holds no slot. -/
theorem contexts_have_members (cfg : RecoveryConfig) (s : RecoverySystem)
    (h : Reaches (restrict leavesMember (step cfg)) {} s) (clusterName : Bytes)
    (c : ClusterRecoveryContext) (hc : s.manager.contexts.find? clusterName = some c) :
    c.observedMembers ≠ ∅ := by
  have hs : Accounted cfg s ∧ Populated s.manager := by
    refine h.invariant (I := fun s => Accounted cfg s ∧ Populated s.manager)
      ⟨accounted_init, fun _ _ hfind => nomatch hfind⟩ fun s s' a hstep hs => ?_
    obtain ⟨hleaves, hstep⟩ := restrict_eq_some.mp hstep
    have heffect := step_effect (lt_of_le_of_lt (Nat.le_add_right _ _) hs.1.fits) hstep
    exact ⟨hs.1.effect heffect, hs.2.effect (by simp [hleaves]) heffect⟩
  exact hs.2 clusterName c hc

/-- The reported topology is selected for installation. -/
def sampleSelection : List RecoveryAction :=
  sampleReports ++ [.scheduleReconcile [] true, .reconcile 0 none, .reconcile 0 none,
    .reconcile 0 none, .reconcile 0 none]

/-- The rest of the run installs it. -/
def sampleInstallation : List RecoveryAction :=
  [.reconcile 0 none, .reconcile 0 none, .reconcile 0 none, .reconcile 0 none]

theorem installed_context_has_member :
    ∃ s, Reaches (restrict leavesMember (step sampleConfig)) {} s ∧
    ∃ c, s.manager.contexts.find? [] = some c ∧ c.state = .ready ∧ c.observedMembers ≠ ∅ := by
  have hrun : (run (restrict leavesMember (step sampleConfig)) {}
      (sampleSelection ++ sampleInstallation)).any fun s =>
        (s.manager.contexts.find? []).any fun c => decide (c.state = .ready) := by
    decide +kernel
  obtain ⟨s, hs, hp⟩ := exists_of_run _ hrun
  obtain ⟨c, hc, hready⟩ := (Option.any_eq_true _ _).mp hp
  exact ⟨s, hs, c, hc, of_decide_eq_true hready, contexts_have_members sampleConfig s hs [] c hc⟩

/-- The last member leaves during the installation: the context stays, is ready, and takes the
only slot, so that another cluster is not admitted. -/
theorem context_outlives_its_members : ∃ s, Reaches (step sampleConfig) {} s ∧ ∃ c,
    s.manager.contexts.find? [] = some c ∧ c.state = .ready ∧ c.observedMembers = ∅ ∧
      s.reconciles.length = 0 ∧
      (s.manager.updateMembership sampleConfig.options s.now (ascii "b") sampleAddress
        .starting).contexts.find? (ascii "b") = none := by
  have hrun : (run (step sampleConfig) {} (sampleSelection ++
      .updateMembership [] sampleAddress .removed :: sampleInstallation)).any fun s =>
        (s.manager.contexts.find? []).any fun c => decide (c.state = .ready ∧
          c.observedMembers = ∅ ∧ s.reconciles.length = 0) &&
          ((s.manager.updateMembership sampleConfig.options s.now (ascii "b") sampleAddress
            .starting).contexts.find? (ascii "b")).isNone := by
    decide +kernel
  obtain ⟨s, hs, hp⟩ := exists_of_run _ hrun
  obtain ⟨c, hc, hstate⟩ := (Option.any_eq_true _ _).mp hp
  obtain ⟨hstate, hnone⟩ := Bool.and_eq_true_iff.mp hstate
  obtain ⟨hready, hempty, hidle⟩ := of_decide_eq_true hstate
  exact ⟨s, hs, c, hc, hready, hempty, hidle, Option.isNone_iff_eq_none.mp hnone⟩

end RecoverySystem

end Datasystem.Coordinator
