import Datasystem.Cluster.TopologyKeyHelper
import Datasystem.Cluster.TopologyRepositoryCodec
import Datasystem.Coordinator.MemoryKvStore

/-! The recovery of topologies after a coordinator took over. The members of a cluster
report which topology they have seen last; the highest one is fetched, checked and
installed, once all members have reported or the deadline of the leader round has passed.

Each function here is one section of the source that runs under the mutex of the manager.
A section works on one context, together with the byte counter that the contexts share. -/

namespace Datasystem.Coordinator

open Common Hasher Cluster Cluster.TopologyRepositoryCodec Lib Checked TopologyKeyHelper

/-! ## Data -/

inductive TopologyRecoveryState
  | recovering
  | installing
  | ready
  | blocked
deriving DecidableEq

inductive MembershipObservation
  | removed
  | keepAlive
  | starting
  | existing
deriving DecidableEq

inductive TopologyRecoveryReportResult
  | accepted
  | coordinatorIdMismatch
  | membershipNotReady
  | staleLeaderTerm
deriving DecidableEq

structure TopologyRecoveryCandidateReport where
  reporterAddress : Bytes
  hasSnapshot : Bool
  topologyVersion : Nat
  canonicalDigest : Bytes
  canonicalTopology : Bytes
deriving DecidableEq

structure TopologyRecoveryReportDecision where
  state : TopologyRecoveryState := .recovering
  result : TopologyRecoveryReportResult := .accepted
  payloadRequired : Bool := false
deriving DecidableEq

structure TopologyCandidateEvidence where
  hasSnapshot : Bool
  topologyVersion : Nat
  canonicalDigest : Bytes
  payloadRequested : Bool
deriving DecidableEq

structure TopologyCandidateSelection where
  highestVersion : Nat := 0
  highestDigest : Bytes := []
  hasSnapshot : Bool := false
  conflictingHighest : Bool := false
deriving DecidableEq

structure TopologyRecoveryRoundIdentity where
  leaderTerm : Nat
  coordinatorId : Bytes
deriving DecidableEq

structure TopologyRecoveryRound where
  identity : TopologyRecoveryRoundIdentity
  hardDeadline : Nat
deriving DecidableEq

abbrev ReporterEvidence := OrderedMap Bytes TopologyCandidateEvidence

structure ClusterRecoveryContext where
  generation : Nat
  state : TopologyRecoveryState := .recovering
  observedMembers : Finset Bytes := ∅
  reporterEvidence : ReporterEvidence := .empty
  selectedCanonicalTopology : Option Bytes := none
  selectedCanonicalDigest : Bytes := []
  selectedVersion : Nat := 0
  fastRecoveryDeadline : Option Nat := none
  discoveryDeadline : Option Nat := none
  payloadValidationPending : Bool := false
  reconcileQueued : Bool := false
  storedAuthorityChecked : Bool := false

/-- The numbers of a `size_t`. -/
def sizeRange : Nat := 2 ^ 64

def addSize (a b : Nat) : Nat := (a + b) % sizeRange

def subSize (a b : Nat) : Nat := (a + sizeRange - b) % sizeRange

/-- Options that the constructor accepts. -/
structure TopologyRecoveryOptions where
  discoveryWindow : Nat := 10000
  maxPendingRecoveryWork : Nat := 10000
  maxClusters : Nat := 1024
  maxMembersPerCluster : Nat := 10000
  maxCandidateMemoryBytes : Nat := 64 * 1024 * 1024
  discoveryWindow_pos : 0 < discoveryWindow := by decide
  maxPendingRecoveryWork_pos : 0 < maxPendingRecoveryWork := by decide
  maxClusters_pos : 0 < maxClusters := by decide
  maxMembersPerCluster_pos : 0 < maxMembersPerCluster := by decide
  maxCandidateMemoryBytes_pos : 0 < maxCandidateMemoryBytes := by decide
  maxCandidateMemoryBytes_lt : maxCandidateMemoryBytes < sizeRange := by decide

/-- Topology messages on the wire: what protobuf reads from bytes and what it writes. -/
structure TopologyWire where
  parse : Bytes → Option ClusterTopologyPb
  serialize : ClusterTopologyPb → Bytes

/-- What a manager is built with. `fenced` says whether the service has bound the fence that
keeps leader rounds from changing during an installation. -/
structure RecoveryConfig where
  options : TopologyRecoveryOptions := {}
  coordinatorId : Bytes
  sha256 : Sha256
  wire : TopologyWire
  fenced : Bool

structure TopologyRecoveryManager where
  stopping : Bool := false
  activeRound : Option TopologyRecoveryRound := none
  contexts : OrderedMap Bytes ClusterRecoveryContext := .empty
  nextContextGeneration : Nat := 1
  pendingRecoveryWork : Nat := 0
  admittedReportBytes : Nat := 0
  retainedCandidateBytes : Nat := 0

def fastRecoveryWindow : Nat := 3000

def sha256HexSize : Nat := 64

def maxTopologyRecoveryPayloadBytes : Nat := 4 * 1024 * 1024

/-! ## Evidence -/

def sameEvidence (evidence : TopologyCandidateEvidence) (report : TopologyRecoveryCandidateReport) :
    Bool :=
  evidence.hasSnapshot == report.hasSnapshot &&
    evidence.topologyVersion == report.topologyVersion &&
    evidence.canonicalDigest == report.canonicalDigest

/-- One turn of the loop of `SelectHighestCandidate`. -/
def considerCandidate (selection : TopologyCandidateSelection)
    (evidence : TopologyCandidateEvidence) :
    TopologyCandidateSelection :=
  if !evidence.hasSnapshot then selection
  else if selection.highestVersion < evidence.topologyVersion then
    { highestVersion := evidence.topologyVersion
      highestDigest := evidence.canonicalDigest
      hasSnapshot := true
      conflictingHighest := false }
  else if evidence.topologyVersion = selection.highestVersion ∧
      evidence.canonicalDigest ≠ selection.highestDigest then
    { selection with hasSnapshot := true, conflictingHighest := true }
  else { selection with hasSnapshot := true }

variable (evidenceByReporter : ReporterEvidence)

def selectHighestCandidate : TopologyCandidateSelection :=
  evidenceByReporter.values.foldl considerCandidate {}

def hasPeerPayloadRequest (reporterAddress : Bytes) (selection : TopologyCandidateSelection) :
    Bool :=
  evidenceByReporter.entries.any fun entry =>
    entry.1 != reporterAddress && entry.2.payloadRequested &&
      entry.2.topologyVersion == selection.highestVersion &&
      entry.2.canonicalDigest == selection.highestDigest

def hasOutstandingPayloadRequest : Bool :=
  evidenceByReporter.values.any TopologyCandidateEvidence.payloadRequested

def hasCapacity (used requested limit : Nat) : Bool :=
  used ≤ limit && requested ≤ limit - used

/-! ## One context under the lock -/

/-- A context that a section works on, with the counter it shares with the other contexts. -/
structure LockedContext where
  context : ClusterRecoveryContext
  retainedCandidateBytes : Nat

def ClusterRecoveryContext.selectedBytes (c : ClusterRecoveryContext) : Nat :=
  c.selectedCanonicalTopology.elim 0 List.length

namespace LockedContext

variable (w : LockedContext)

/-- Change fields of the context. -/
def modify (f : ClusterRecoveryContext → ClusterRecoveryContext) : LockedContext :=
  { w with context := f w.context }

def setState (state : TopologyRecoveryState) : LockedContext :=
  w.modify ({ · with state := state })

def releaseSelectedPayload : LockedContext :=
  { context := { w.context with
      selectedCanonicalTopology := none
      selectedCanonicalDigest := []
      selectedVersion := 0 }
    retainedCandidateBytes :=
      match w.context.selectedCanonicalTopology with
      | none => w.retainedCandidateBytes
      | some payload => subSize w.retainedCandidateBytes payload.length }

def refreshSelection : LockedContext :=
  let selection := selectHighestCandidate w.context.reporterEvidence
  if selection.hasSnapshot && !selection.conflictingHighest &&
      w.context.selectedVersion == selection.highestVersion &&
      w.context.selectedCanonicalDigest == selection.highestDigest then w
  else w.releaseSelectedPayload

def forceReady : LockedContext :=
  ((w.setState .ready).modify ({ · with
    reporterEvidence := .empty
    fastRecoveryDeadline := none
    discoveryDeadline := none })).releaseSelectedPayload

/-- A removed member takes its evidence along. -/
def withoutMember (address : Bytes) : LockedContext :=
  w.modify fun c => { c with
    observedMembers := c.observedMembers.erase address
    reporterEvidence := c.reporterEvidence.erase address }

/-- Whether the evidence of a member has the highest version. -/
def isHighestReporter (address : Bytes) : Bool :=
  (w.context.reporterEvidence.find? address).any fun evidence =>
    evidence.hasSnapshot &&
      evidence.topologyVersion == (selectHighestCandidate w.context.reporterEvidence).highestVersion

/-- Discovery starts again, if there is something to discover from. -/
def resumeDiscovery (deadline : Nat) : LockedContext :=
  (w.setState .recovering).modify fun c =>
    { c with discoveryDeadline := if c.reporterEvidence.entries = [] then none else some deadline }

def clearDeadlineWithoutEvidence : LockedContext :=
  if w.context.reporterEvidence.entries = [] then w.modify ({ · with discoveryDeadline := none })
  else w

/-- The part of a removal after the early return for an installation. -/
def settleRemoval (before w : LockedContext) (address : Bytes) (deadline : Nat) : LockedContext :=
  (if w.context.state = .blocked ∨ before.isHighestReporter address then w.resumeDiscovery deadline
    else w).refreshSelection.clearDeadlineWithoutEvidence

end LockedContext

/-! ## Membership and leader rounds -/

namespace TopologyRecoveryManager

variable (options : TopologyRecoveryOptions) (m : TopologyRecoveryManager)
  (identity : TopologyRecoveryRoundIdentity) (clusterName : Bytes)

def lock : Option LockedContext :=
  (m.contexts.find? clusterName).map (⟨·, m.retainedCandidateBytes⟩)

def unlock (w : LockedContext) : TopologyRecoveryManager :=
  { m with
    contexts := m.contexts.insert clusterName w.context
    retainedCandidateBytes := w.retainedCandidateBytes }

/-- Drop a context, with what is left of its counter. -/
def drop (w : LockedContext) : TopologyRecoveryManager :=
  { m with
    contexts := m.contexts.erase clusterName
    retainedCandidateBytes := w.retainedCandidateBytes }

def isCurrentRound : Bool :=
  m.activeRound.any fun round => round.identity = identity

variable (now : Nat)

def isHardDeadlineReached : Bool :=
  m.activeRound.any fun round => round.hardDeadline ≤ now

def completeRecoveryWork : TopologyRecoveryManager :=
  { m with pendingRecoveryWork := m.pendingRecoveryWork - 1 }

variable (m : TopologyRecoveryManager)

def ensureContext (clusterName : Bytes) (enableFastRecovery : Bool) :
    Result (ClusterRecoveryContext × TopologyRecoveryManager) :=
  match m.contexts.find? clusterName with
  | some context => pure (context, m)
  | none => do
    checkFailReturnStatus (m.contexts.entries.length < options.maxClusters) .kTryAgain
      "topology recovery cluster admission limit reached"
    let candidate : ClusterRecoveryContext :=
      { generation := m.nextContextGeneration
        fastRecoveryDeadline :=
          if enableFastRecovery then some (now + fastRecoveryWindow) else none }
    pure (candidate, { m with
      contexts := m.contexts.insert clusterName candidate
      nextContextGeneration := m.nextContextGeneration + 1 })

variable (c : ClusterRecoveryContext)

def addMember (address : Bytes) : ClusterRecoveryContext :=
  if address ∈ c.observedMembers then c
  else if options.maxMembersPerCluster ≤ c.observedMembers.card then c
  else
    { c with
      observedMembers := insert address c.observedMembers
      discoveryDeadline :=
        if c.state = .recovering ∧ c.reporterEvidence.entries ≠ [] then
          some (now + options.discoveryWindow)
        else c.discoveryDeadline }

/-- What a present member changes in the context of its cluster. -/
def observeMember (address : Bytes) (observation : MembershipObservation) :
    ClusterRecoveryContext :=
  addMember options now
    (if observation = .existing then { c with fastRecoveryDeadline := none } else c) address

def removeMember (clusterName address : Bytes) :
    TopologyRecoveryManager :=
  match m.lock clusterName with
  | none => m
  | some before =>
    let removed := before.withoutMember address
    -- an installation in progress keeps its context, whoever leaves
    if removed.context.state = .installing then m.unlock clusterName removed
    else
      let settled := before.settleRemoval removed address (now + options.discoveryWindow)
      if settled.context.observedMembers = ∅ then
        m.drop clusterName settled.releaseSelectedPayload
      else m.unlock clusterName settled

def updateMembership (clusterName address : Bytes) (observation : MembershipObservation) :
    TopologyRecoveryManager :=
  if m.activeRound = none then m
  else if observation = .removed then m.removeMember options now clusterName address
  else
    match m.ensureContext options now clusterName (observation = .starting) with
    | .error _ => m
    | .ok (context, m) =>
      { m with
        contexts := m.contexts.insert clusterName
          (observeMember options now context address observation) }

/-- What the loop that releases the payload of every context leaves in the counter. -/
def releaseAll : Nat :=
  m.contexts.values.foldl
    (fun retained c => (LockedContext.releaseSelectedPayload ⟨c, retained⟩).retainedCandidateBytes)
    m.retainedCandidateBytes

/-- After the loop the source sets the counter to zero, whatever the loop left. -/
def clearContexts (round : Option TopologyRecoveryRound) : TopologyRecoveryManager :=
  { m with contexts := .empty, retainedCandidateBytes := 0, activeRound := round }

def beginLeaderRound (coordinatorId : Bytes) (now : Nat) (m : TopologyRecoveryManager)
    (identity : TopologyRecoveryRoundIdentity) (nodeDeadTimeout : Int) : TopologyRecoveryManager :=
  if m.stopping ∨ identity.coordinatorId ≠ coordinatorId ∨ nodeDeadTimeout < 0 then m
  else m.clearContexts (some ⟨identity, now + nodeDeadTimeout.toNat⟩)

def endLeaderRound (identity : TopologyRecoveryRoundIdentity) : TopologyRecoveryManager :=
  if m.isCurrentRound identity then m.clearContexts none else m

end TopologyRecoveryManager

/-! ## Reports -/

/-- `DecodeTopology` of bytes. -/
def TopologyWire.decodeTopology (wire : TopologyWire) (value : Bytes) : Result TopologyState := do
  checkFailReturnStatus (value.length ≤ maxValueBytes) .kInvalid "topology value exceeds limit"
  match wire.parse value with
  | none => .error ⟨.kInvalid, "invalid topology value"⟩
  | some pb => TopologyRepositoryCodec.decodeTopology pb

def validateEvidence (clusterName : Bytes) (report : TopologyRecoveryCandidateReport) :
    Result Unit := do
  let _ ← create clusterName
  let _ ← membershipKey report.reporterAddress
  if !report.hasSnapshot then
    checkFailReturnStatus (report.topologyVersion = 0 ∧ report.canonicalDigest = [] ∧
      report.canonicalTopology = []) .kInvalid "NO_SNAPSHOT report contains topology evidence"
  else do
    checkFailReturnStatus (0 < report.topologyVersion) .kInvalid "snapshot topology version is zero"
    checkFailReturnStatus (report.canonicalDigest.length = sha256HexSize ∧
      report.canonicalDigest.all isLowerHex) .kInvalid
        "snapshot digest is not canonical SHA-256 hex"
    checkFailReturnStatus (report.canonicalTopology.length ≤ maxTopologyRecoveryPayloadBytes)
      .kInvalid "candidate topology payload exceeds limit"

def validatePayload (cfg : RecoveryConfig) (report : TopologyRecoveryCandidateReport) :
    Result Unit := do
  let state ← cfg.wire.decodeTopology report.canonicalTopology
  checkFailReturnStatus (state.version = report.topologyVersion) .kInvalid
    "candidate topology version does not match evidence"
  let canonical ← TopologyRepositoryCodec.encodeTopology state
  checkFailReturnStatus (cfg.wire.serialize canonical = report.canonicalTopology) .kInvalid
    "candidate topology payload is not canonical"
  checkFailReturnStatus
    (getSha256Hex cfg.sha256 (cfg.wire.serialize canonical) = report.canonicalDigest) .kInvalid
    "candidate topology digest does not match evidence"

/-- A payload whose validation was submitted to the pool. -/
structure PayloadValidation where
  clusterName : Bytes
  identity : TopologyRecoveryRoundIdentity
  contextGeneration : Nat
  report : TopologyRecoveryCandidateReport
deriving DecidableEq

def PayloadValidation.payloadBytes (v : PayloadValidation) : Nat :=
  v.report.canonicalTopology.length

namespace TopologyRecoveryManager

def shuttingDown : Status := ⟨.kShuttingDown, "topology recovery manager is shutting down"⟩

/-- First section of `ReportCandidate`: the round that the reporter means, or why not. -/
def matchRound (m : TopologyRecoveryManager) (requestLeaderTerm : Nat)
    (requestCoordinatorId : Bytes) :
    Result (TopologyRecoveryReportDecision × Option TopologyRecoveryRoundIdentity) := do
  checkFailReturnStatus (!m.stopping) shuttingDown.code shuttingDown.msg
  match m.activeRound with
  | none => pure ({ result := .coordinatorIdMismatch }, none)
  | some round =>
    if round.identity.coordinatorId ≠ requestCoordinatorId then
      pure ({ result := .coordinatorIdMismatch }, none)
    else if round.identity.leaderTerm ≠ requestLeaderTerm then
      pure ({ result := .staleLeaderTerm }, none)
    else pure ({}, some round.identity)

/-- Second section of `ReportCandidate`: whether the report goes on, and the manager in which a
report has ended fast recovery. -/
def admitReport (options : TopologyRecoveryOptions) (m : TopologyRecoveryManager)
    (clusterName : Bytes) (identity : TopologyRecoveryRoundIdentity)
    (report : TopologyRecoveryCandidateReport) :
    Result (TopologyRecoveryReportDecision × Bool × TopologyRecoveryManager) := do
  checkFailReturnStatus (!m.stopping) shuttingDown.code shuttingDown.msg
  if !m.isCurrentRound identity then pure ({ result := .staleLeaderTerm }, false, m)
  else
    match m.lock clusterName with
    | none => pure ({ result := .membershipNotReady }, false, m)
    | some w =>
      if report.reporterAddress ∉ w.context.observedMembers then do
        checkFailReturnStatus (w.context.observedMembers.card < options.maxMembersPerCluster)
          .kTryAgain "topology recovery member admission limit reached"
        pure ({ state := w.context.state, result := .membershipNotReady }, false, m)
      else
        pure ({ state := w.context.state }, w.context.state != .ready,
          m.unlock clusterName (w.modify ({ · with fastRecoveryDeadline := none })))

end TopologyRecoveryManager

namespace LockedContext

variable (w : LockedContext) (report : TopologyRecoveryCandidateReport)

/-- Whether the reporter's evidence is there as the report has it. -/
def hasEvidence : Bool :=
  (w.context.reporterEvidence.find? report.reporterAddress).any (sameEvidence · report)

/-- Whether the reporter was asked for the payload of the evidence that the report has. -/
def isPayloadRequested : Bool :=
  (w.context.reporterEvidence.find? report.reporterAddress).any fun evidence =>
    sameEvidence evidence report && evidence.payloadRequested

/-- Whether the selected payload is another one than the evidence names. -/
def isPayloadNeeded : Bool :=
  w.context.selectedCanonicalTopology.isNone ||
    w.context.selectedVersion != report.topologyVersion ||
    w.context.selectedCanonicalDigest != report.canonicalDigest

/-- Store the evidence of a report. -/
def putEvidence (payloadRequested : Bool) : LockedContext :=
  w.modify fun c => { c with
    reporterEvidence := c.reporterEvidence.insert report.reporterAddress
      ⟨report.hasSnapshot, report.topologyVersion, report.canonicalDigest, payloadRequested⟩ }

/-- A blocked context recovers again when evidence changes. -/
def unblock : LockedContext :=
  if w.context.state = .blocked then
    (w.setState .recovering).modify ({ · with discoveryDeadline := none })
  else w

/-- Store the evidence of a report; new evidence opens another discovery window. -/
def storeEvidence (deadline : Nat) : LockedContext :=
  let stored := w.putEvidence report (w.isPayloadRequested report)
  if w.context.discoveryDeadline.isNone || !w.hasEvidence report then
    stored.modify ({ · with discoveryDeadline := some deadline })
  else stored

/-- The evidence of a report is stored, and the reporter may be asked for the payload. -/
def recordReport (deadline : Nat) : TopologyRecoveryReportDecision × LockedContext :=
  let stored := w.storeEvidence report deadline
  let selection := selectHighestCandidate stored.context.reporterEvidence
  let refreshed := stored.refreshSelection
  if report.hasSnapshot then
    let requested := refreshed.isPayloadNeeded report &&
      report.topologyVersion == selection.highestVersion &&
      report.canonicalDigest == selection.highestDigest && !selection.conflictingHighest &&
      !hasPeerPayloadRequest refreshed.context.reporterEvidence report.reporterAddress selection
    ({ state := refreshed.context.state
       payloadRequired := requested && !refreshed.context.payloadValidationPending },
      refreshed.putEvidence report requested)
  else ({ state := refreshed.context.state }, refreshed)

/-- The discovery window is over and every member has reported. -/
def isDiscoveryClosed (now : Nat) : Bool :=
  w.context.discoveryDeadline.any (· ≤ now) &&
    w.context.observedMembers.card ≤ w.context.reporterEvidence.entries.length

/-- `UpdateEvidenceLocked`: the decision, whether to reconcile, and the context. -/
def updateEvidence (options : TopologyRecoveryOptions) (now : Nat) (w : LockedContext)
    (report : TopologyRecoveryCandidateReport) (decision : TopologyRecoveryReportDecision) :
    Result (TopologyRecoveryReportDecision × Bool × LockedContext) :=
  if report.reporterAddress ∉ w.context.observedMembers then
    pure ({ decision with result := .membershipNotReady }, false, w)
  else if w.context.state = .ready then
    pure ({ decision with state := w.context.state }, false, w)
  else if w.context.state = .installing then do
    checkFailReturnStatus (w.hasEvidence report) .kTryAgain
      "topology candidate installation is in progress"
    pure ({ decision with state := w.context.state }, false, w)
  else if w.context.state = .blocked ∧ w.hasEvidence report then
    pure ({ decision with state := w.context.state }, false, w)
  else if w.unblock.isDiscoveryClosed now && !w.hasEvidence report then
    pure ({ decision with state := w.unblock.context.state }, true, w.unblock)
  else
    let recorded := w.unblock.recordReport report (now + options.discoveryWindow)
    pure ({ decision with
        state := recorded.1.state
        payloadRequired := recorded.1.payloadRequired },
      true, recorded.2)

/-- A validated payload takes the place of the selected one. -/
def retainPayload : LockedContext :=
  let released := (w.putEvidence report false).releaseSelectedPayload
  { context := { released.context with
      selectedCanonicalTopology := some report.canonicalTopology
      selectedCanonicalDigest := report.canonicalDigest
      selectedVersion := report.topologyVersion }
    retainedCandidateBytes :=
      addSize released.retainedCandidateBytes report.canonicalTopology.length }

/-- What `RecordPayload` does with the context that the payload was admitted for. -/
def acceptPayload : Result LockedContext := do
  checkFailReturnStatus (w.context.state ≠ .installing) .kTryAgain
    "topology candidate installation already started"
  checkFailReturnStatus (report.reporterAddress ∈ w.context.observedMembers ∧
    (w.context.reporterEvidence.find? report.reporterAddress).isSome) .kTryAgain
    "candidate membership disappeared during payload validation"
  checkFailReturnStatus (w.isPayloadRequested report) .kTryAgain
    "candidate evidence changed during payload validation"
  let selection := selectHighestCandidate w.refreshSelection.context.reporterEvidence
  if report.topologyVersion = selection.highestVersion ∧ !selection.conflictingHighest ∧
      selection.highestDigest = report.canonicalDigest then
    pure (w.refreshSelection.retainPayload report)
  else pure w.refreshSelection

/-- What `RejectPayload` does with the context: an invalid payload that is still wanted blocks
it. -/
def denyPayload (validationStatus : Status) : LockedContext :=
  if validationStatus.code ≠ .kInvalid then w
  else if w.context.state ≠ .installing ∧ w.isPayloadRequested report then
    (w.setState .blocked).releaseSelectedPayload
  else w

end LockedContext

namespace TopologyRecoveryManager

variable (options : TopologyRecoveryOptions)

def recordEvidence (now : Nat) (m : TopologyRecoveryManager) (clusterName : Bytes)
    (identity : TopologyRecoveryRoundIdentity) (report : TopologyRecoveryCandidateReport)
    (decision : TopologyRecoveryReportDecision) :
    Result (TopologyRecoveryReportDecision × Bool × TopologyRecoveryManager) := do
  checkFailReturnStatus (!m.stopping) shuttingDown.code shuttingDown.msg
  checkFailReturnStatus (m.isCurrentRound identity) .kTryAgain
    "leader round changed during evidence admission"
  match m.lock clusterName with
  | none => .error ⟨.kTryAgain, "recovery context disappeared"⟩
  | some w =>
    let (decision, schedule, updated) ← w.updateEvidence options now report decision
    pure (decision, schedule, m.unlock clusterName updated)

variable (m : TopologyRecoveryManager)

/-- The checks of `SubmitPayload`: nothing to do while the same payload is being installed, or
the context whose payload is to be validated. -/
def checkPayload (clusterName : Bytes) (identity : TopologyRecoveryRoundIdentity)
    (report : TopologyRecoveryCandidateReport) : Result (Option LockedContext) := do
  checkFailReturnStatus (!m.stopping) shuttingDown.code shuttingDown.msg
  checkFailReturnStatus (m.isCurrentRound identity) .kTryAgain
    "leader round changed before payload admission"
  match m.lock clusterName with
  | none => .error ⟨.kTryAgain, "recovery context disappeared"⟩
  | some w =>
    if w.context.state = .installing then do
      checkFailReturnStatus (w.hasEvidence report ∧
        w.context.selectedCanonicalTopology = some report.canonicalTopology) .kTryAgain
        "topology candidate installation is in progress"
      pure none
    else do
      checkFailReturnStatus (w.isPayloadRequested report) .kInvalid
        "candidate payload was not requested for this evidence"
      checkFailReturnStatus (!w.context.payloadValidationPending) .kTryAgain
        "candidate payload validation is already in progress"
      checkFailReturnStatus (m.pendingRecoveryWork < options.maxPendingRecoveryWork ∧
        hasCapacity (addSize m.admittedReportBytes m.retainedCandidateBytes)
          report.canonicalTopology.length options.maxCandidateMemoryBytes) .kTryAgain
        "topology recovery payload admission limit reached"
      pure (some w)

variable (m : TopologyRecoveryManager)

/-- Reserve the bytes of a payload. -/
def admitPayload (clusterName : Bytes) (w : LockedContext) (payloadBytes : Nat) :
    TopologyRecoveryManager :=
  { m.unlock clusterName (w.modify ({ · with payloadValidationPending := true })) with
    pendingRecoveryWork := m.pendingRecoveryWork + 1
    admittedReportBytes := addSize m.admittedReportBytes payloadBytes }

/-- Give the bytes of a payload back. -/
def completePayload (payloadBytes : Nat) : TopologyRecoveryManager :=
  { m.completeRecoveryWork with
    admittedReportBytes := subSize m.admittedReportBytes payloadBytes }

/-- The locked section of `SubmitPayload`. `refused` is the text of the exception if the pool
does not take the work. -/
def submitPayload (clusterName : Bytes) (identity : TopologyRecoveryRoundIdentity)
    (report : TopologyRecoveryCandidateReport) (refused : Option String) :
    Result (Option PayloadValidation) × TopologyRecoveryManager :=
  match m.checkPayload options clusterName identity report with
  | .error status => (.error status, m)
  | .ok none => (.ok none, m)
  | .ok (some w) =>
    let bytes := report.canonicalTopology.length
    let admitted := m.admitPayload clusterName w bytes
    match refused with
    | none => (.ok (some ⟨clusterName, identity, w.context.generation, report⟩), admitted)
    | some what =>
      (.error ⟨.kTryAgain, "submit candidate validation failed: " ++ what⟩,
        (admitted.completePayload bytes).unlock clusterName
          (w.modify ({ · with payloadValidationPending := false })))

def roundChangedDuringValidation : Status :=
  ⟨.kTryAgain, "leader round changed during payload validation"⟩

variable (v : PayloadValidation)

/-- The context that a payload was admitted for, with its validation no longer pending. -/
def lockAdmitted : Option LockedContext :=
  ((m.lock v.clusterName).filter fun w => w.context.generation = v.contextGeneration).map
    (·.modify ({ · with payloadValidationPending := false }))

/-- `RecordPayload` of a payload that was found valid. -/
def recordPayload : Result Unit × TopologyRecoveryManager :=
  let completed := m.completePayload v.payloadBytes
  if !m.isCurrentRound v.identity then (.error roundChangedDuringValidation, completed)
  else
    match completed.lockAdmitted v with
    | none => (.error ⟨.kTryAgain, "recovery context changed during payload validation"⟩, completed)
    | some w =>
      match w.acceptPayload v.report with
      | .error status => (.error status, completed.unlock v.clusterName w)
      | .ok accepted => (.ok (), completed.unlock v.clusterName accepted)

/-- `RejectPayload` of a payload whose validation failed. -/
def rejectPayload (validationStatus : Status) :
    Result Unit × TopologyRecoveryManager :=
  let completed := m.completePayload v.payloadBytes
  if !m.isCurrentRound v.identity then (.error roundChangedDuringValidation, completed)
  else
    match completed.lockAdmitted v with
    | none => (.error validationStatus, completed)
    | some w =>
      (.error validationStatus,
        completed.unlock v.clusterName (w.denyPayload v.report validationStatus))

end TopologyRecoveryManager

/-! ## Reconciliation -/

/-- The payload that is to be installed. -/
structure SelectedCandidate where
  payload : Bytes
  version : Nat
deriving DecidableEq

/-- Where a run of `MaybeFinalize` stands between two sections. -/
inductive ReconcilePhase
  | start
  | adopt
  | read (contextGeneration : Nat)
  | apply (contextGeneration : Nat) (value : Bytes)
  | restore (contextGeneration : Nat) (status : Status)
  | authorityFailed (status : Status)
  | authorityResolved
  | prepare
  | invoke (selected : SelectedCandidate)
  | install (selected : SelectedCandidate)
  | complete (selected : SelectedCandidate) (status : Result Unit)
  | finish

namespace ClusterRecoveryContext

variable (c : ClusterRecoveryContext)

/-- Recovering, or blocked with the deadline behind it. -/
def isUnresolved (hardDeadlineReached : Bool) : Bool :=
  c.state == .recovering || (c.state == .blocked && hardDeadlineReached)

/-- No payload is on its way. -/
def isPayloadComplete : Bool :=
  !c.payloadValidationPending && !hasOutstandingPayloadRequest c.reporterEvidence

def isEvidenceComplete : Bool :=
  c.observedMembers.card ≤ c.reporterEvidence.entries.length

end ClusterRecoveryContext

namespace TopologyRecoveryManager

/-- A section that needs its round and its context. -/
def withContext (m : TopologyRecoveryManager) (clusterName : Bytes)
    (identity : TopologyRecoveryRoundIdentity) (otherwise : ReconcilePhase)
    (body : LockedContext → ReconcilePhase × LockedContext) :
    ReconcilePhase × TopologyRecoveryManager :=
  if !m.isCurrentRound identity then (otherwise, m)
  else
    match m.lock clusterName with
    | none => (otherwise, m)
    | some w => ((body w).1, m.unlock clusterName (body w).2)

end TopologyRecoveryManager

namespace LockedContext

variable (now : Nat) (hardDeadlineReached : Bool)

/-- First section of `MaybeFinalize`. An open discovery window ends early when nothing is
missing. -/
def startFinalize (w : LockedContext) :
    ReconcilePhase × LockedContext :=
  if !w.context.isUnresolved hardDeadlineReached then (.finish, w)
  else if !hardDeadlineReached && w.context.discoveryDeadline.any (now < ·) then
    if !decide (w.context.observedMembers = ∅) && w.context.isEvidenceComplete &&
        w.context.isPayloadComplete then
      (.adopt, w.modify ({ · with discoveryDeadline := some now }))
    else (.finish, w)
  else (.adopt, w)

/-- First section of `AdoptStoredAuthorityIfPresent`. -/
def adoptStoredAuthority (w : LockedContext) :
    ReconcilePhase × LockedContext :=
  if w.context.storedAuthorityChecked then (.prepare, w)
  else if !w.context.isUnresolved hardDeadlineReached then (.prepare, w)
  else if !hardDeadlineReached && w.context.discoveryDeadline.any (now < ·) then (.prepare, w)
  else if !hardDeadlineReached && !w.context.isPayloadComplete then (.prepare, w)
  else (.read w.context.generation, w.modify ({ · with storedAuthorityChecked := true }))

variable (contextGeneration : Nat)

/-- `RestoreStoredAuthorityCheck`. -/
def restoreStoredAuthorityCheck (w : LockedContext) : LockedContext :=
  if w.context.generation = contextGeneration ∧
      (w.context.state = .recovering ∨ w.context.state = .blocked) then
    w.modify ({ · with storedAuthorityChecked := false })
  else w

/-- `ApplyStoredAuthorityLocked`: a topology in the store ends the recovery. -/
def applyStoredAuthority (decodeStatus : Result TopologyState) (hardDeadlineReached : Bool)
    (w : LockedContext) : ReconcilePhase × LockedContext :=
  if w.context.generation ≠ contextGeneration then (.prepare, w)
  else if !w.context.isUnresolved hardDeadlineReached then (.prepare, w)
  else if !hardDeadlineReached && !w.context.isPayloadComplete then
    (.prepare, w.modify ({ · with storedAuthorityChecked := false }))
  else
    let cleared := w.releaseSelectedPayload.modify ({ · with
      reporterEvidence := .empty
      discoveryDeadline := none })
    (.authorityResolved, cleared.setState (if decodeStatus.toBool then .ready else .blocked))

variable (hardDeadlineReached : Bool) (w : LockedContext)

/-- The store could not be read. -/
def authorityFailed : LockedContext :=
  if hardDeadlineReached then w.forceReady else w.modify ({ · with discoveryDeadline := none })

/-- The store has a topology, but maybe not a valid one. -/
def authorityResolved : LockedContext :=
  if w.context.state = .blocked ∧ hardDeadlineReached then w.forceReady else w

/-- `ResolveCandidateSelectionLocked`: recovery ends here, or the highest candidate is unique. -/
def resolveCandidateSelection : Bool × LockedContext :=
  let selected := selectHighestCandidate w.context.reporterEvidence
  if selected.hasSnapshot && selected.conflictingHighest then
    (true, if hardDeadlineReached then w.forceReady
      else (w.setState .blocked).releaseSelectedPayload)
  else if selected.hasSnapshot then (false, w)
  else if hardDeadlineReached then (true, w.forceReady)
  else if w.context.reporterEvidence.entries ≠ [] then
    (true, ((w.setState .ready).modify ({ · with
      reporterEvidence := .empty
      discoveryDeadline := none })).releaseSelectedPayload)
  else (true, w)

/-- Without the selected payload of the highest candidate there is nothing to install. -/
def beginInstallation : Option SelectedCandidate × LockedContext :=
  let selected := selectHighestCandidate w.context.reporterEvidence
  match w.context.selectedCanonicalTopology with
  | none => (none, if hardDeadlineReached then w.forceReady else w)
  | some payload =>
    if w.context.selectedVersion ≠ selected.highestVersion ∨
        w.context.selectedCanonicalDigest ≠ selected.highestDigest then
      (none, if hardDeadlineReached then w.forceReady else w)
    else
      (some ⟨payload, selected.highestVersion⟩, w.setState .installing)

/-- `PrepareInstallationLocked`. -/
def prepareInstallation (w : LockedContext) :
    Option SelectedCandidate × LockedContext :=
  if !w.context.isUnresolved hardDeadlineReached then (none, w)
  else if !hardDeadlineReached && (!w.context.isEvidenceComplete ||
      !w.context.discoveryDeadline.any (· ≤ now)) then (none, w)
  else if hardDeadlineReached && w.context.payloadValidationPending then (none, w.forceReady)
  else
    match w.resolveCandidateSelection hardDeadlineReached with
    | (true, resolved) => (none, resolved)
    | (false, unique) => unique.beginInstallation hardDeadlineReached

/-- The section of `MaybeFinalize` that prepares the installation. A version of zero is not
installed. -/
def prepareFinalize (w : LockedContext) :
    ReconcilePhase × LockedContext :=
  if !hardDeadlineReached && w.context.state == .recovering &&
      w.context.fastRecoveryDeadline.any (· ≤ now) then (.finish, w.forceReady)
  else if w.context.state == .blocked && hardDeadlineReached then (.finish, w.forceReady)
  else
    match w.prepareInstallation now hardDeadlineReached with
    | (none, prepared) => (.finish, prepared)
    | (some selected, prepared) =>
      (if selected.version = 0 then .finish else .invoke selected, prepared)

/-- `CompleteInstallationLocked` of the context that is being installed. -/
def completeInstallation (version : Nat) (installStatus : Result Unit) (w : LockedContext) :
    LockedContext :=
  if w.context.state ≠ .installing ∨ w.context.selectedVersion ≠ version then w
  else
    match installStatus with
    | .ok () =>
      ((w.setState .ready).modify ({ · with
        reporterEvidence := .empty
        discoveryDeadline := none })).releaseSelectedPayload
    | .error status =>
      if hardDeadlineReached then w.forceReady
      else if status.code = .kInvalid ∨ status.code = .kDuplicated then w.setState .blocked
      else (w.setState .recovering).refreshSelection.modify ({ · with discoveryDeadline := none })

end LockedContext

/-- `InstallSelected`: the topology key must not exist. -/
def installRequest (clusterName canonicalTopology : Bytes) : Result MemoryKvStore.PutRequest := do
  let root ← create clusterName
  pure { key := topologyTable root ++ ascii "/" ++ topologyKey
         value := canonicalTopology
         ttlMs := 0
         expectedVersion := coordinatorKeyNotExistsVersion }

def installSelected (store : MemoryKvStore) (clusterName canonicalTopology : Bytes) :
    Result MemoryKvStore := do
  let request ← installRequest clusterName canonicalTopology
  let (_, store) ← store.put request
  pure store

namespace TopologyRecoveryManager

variable (options : TopologyRecoveryOptions)

/-- Whether a reconciliation may be queued. -/
def canScheduleReconcile (now : Nat) (m : TopologyRecoveryManager) (c : ClusterRecoveryContext) :
    Bool :=
  !m.stopping && c.isUnresolved (m.isHardDeadlineReached now) && !c.reconcileQueued &&
    m.pendingRecoveryWork < options.maxPendingRecoveryWork

/-- `ScheduleReconcile`: the identity of the round that the queued run belongs to. -/
def scheduleReconcile (now : Nat) (m : TopologyRecoveryManager) (clusterName : Bytes)
    (accepted : Bool) :
    Option TopologyRecoveryRoundIdentity × TopologyRecoveryManager :=
  match m.activeRound, m.lock clusterName with
  | some round, some w =>
    if !m.canScheduleReconcile options now w.context then (none, m)
    else if accepted then
      (some round.identity,
        { m.unlock clusterName (w.modify ({ · with reconcileQueued := true })) with
          pendingRecoveryWork := m.pendingRecoveryWork + 1 })
    else (none, m.unlock clusterName (w.modify ({ · with reconcileQueued := false })))
  | _, _ => (none, m)

variable (m : TopologyRecoveryManager)

/-- Last section of `RunReconcile`. -/
def finishReconcile (clusterName : Bytes) (identity : TopologyRecoveryRoundIdentity) :
    TopologyRecoveryManager :=
  (m.withContext clusterName identity .finish fun w =>
    (.finish, w.modify ({ · with reconcileQueued := false }))).2.completeRecoveryWork

end TopologyRecoveryManager

end Datasystem.Coordinator
