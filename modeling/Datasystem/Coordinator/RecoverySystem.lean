import Datasystem.Coordinator.RecoverySections
import Datasystem.Lib.StateMachine

/-! The recovery manager at work: reports of members, validations in the pool and runs of
`MaybeFinalize` proceed one section at a time, in any order, while members come and go,
leader rounds change, time passes and others write to the store. -/

namespace Datasystem.Coordinator

open Common Lib Checked StateMachine LockedContext

/-! ## Work in progress -/

/-- A call of `ReportCandidate`; the decision is there once its second section has passed. -/
structure ReportCall where
  clusterName : Bytes
  identity : TopologyRecoveryRoundIdentity
  report : TopologyRecoveryCandidateReport
  decision : Option TopologyRecoveryReportDecision

/-- A validation in the pool, with the result of `ValidatePayload` once it has run. -/
structure ValidationTask where
  validation : PayloadValidation
  result : Option (Result Unit)

/-- A run of `RunReconcile` in the pool. -/
structure ReconcileTask where
  clusterName : Bytes
  identity : TopologyRecoveryRoundIdentity
  phase : ReconcilePhase

/-! ## History -/

/-- A payload that passed `ValidatePayload`, and the round at that moment. -/
structure ValidatedPayload where
  clusterName : Bytes
  report : TopologyRecoveryCandidateReport
  round : Option TopologyRecoveryRoundIdentity

/-- A candidate that was selected, with the context, the round and the time at that moment. -/
structure Selection where
  clusterName : Bytes
  context : ClusterRecoveryContext
  round : Option TopologyRecoveryRound
  time : Nat
  candidate : SelectedCandidate

/-- A call of the installer, with the round that was current when it was made. -/
structure Invocation where
  clusterName : Bytes
  identity : TopologyRecoveryRoundIdentity
  candidate : SelectedCandidate
  round : Option TopologyRecoveryRoundIdentity

/-- What a call of the installer did to the topology of its cluster. -/
structure Installation where
  invocation : Invocation
  before : Option ValueEntry
  after : Option ValueEntry

structure RecoverySystem where
  manager : TopologyRecoveryManager := {}
  store : MemoryKvStore := {}
  now : Nat := 0
  calls : List ReportCall := []
  validations : List ValidationTask := []
  reconciles : List ReconcileTask := []
  validated : List ValidatedPayload := []
  selections : List Selection := []
  invocations : List Invocation := []
  installations : List Installation := []

inductive RecoveryAction
  | tick (elapsed : Nat)
  | updateMembership (clusterName address : Bytes) (observation : MembershipObservation)
  | beginLeaderRound (identity : TopologyRecoveryRoundIdentity) (nodeDeadTimeout : Int)
  | endLeaderRound (identity : TopologyRecoveryRoundIdentity)
  | reportCandidate (clusterName : Bytes) (requestLeaderTerm : Nat) (requestCoordinatorId : Bytes)
      (report : TopologyRecoveryCandidateReport)
  | continueReport (index : Nat) (refused : Option String)
  | validate (index : Nat) (raised : Option Status)
  | finishValidation (index : Nat)
  | scheduleReconcile (clusterName : Bytes) (accepted : Bool)
  | reconcile (index : Nat) (failure : Option Status)
  | shutdown
  | put (request : MemoryKvStore.PutRequest)
  | delete (request : MemoryKvStore.DeleteRequest)

namespace RecoverySystem

variable (cfg : RecoveryConfig)

variable (s : RecoverySystem) (index : Nat) (t : ReconcileTask)

def currentRound : Option TopologyRecoveryRoundIdentity :=
  s.manager.activeRound.map TopologyRecoveryRound.identity

/-! ## Reports and validations -/

/-- The second or the third section of `ReportCandidate`. -/
def continueReport (call : ReportCall) (refused : Option String) : RecoverySystem :=
  let rest := s.calls.eraseIdx index
  match call.decision with
  | none =>
    match s.manager.admitReport cfg.options call.clusterName call.identity call.report with
    | .ok (decision, true, manager) =>
      { s with
        manager := manager
        calls := s.calls.set index { call with decision := some decision } }
    | .ok (_, false, manager) => { s with manager := manager, calls := rest }
    | .error _ => { s with calls := rest }
  | some decision =>
    if call.report.canonicalTopology = [] then
      match s.manager.recordEvidence cfg.options s.now call.clusterName call.identity call.report
          decision with
      | .ok (_, _, manager) => { s with manager := manager, calls := rest }
      | .error _ => { s with calls := rest }
    else
      match s.manager.submitPayload cfg.options call.clusterName call.identity call.report
        refused with
      | (.ok (some validation), manager) =>
        { s with
          manager := manager
          calls := rest
          validations := ⟨validation, none⟩ :: s.validations }
      | (_, manager) => { s with manager := manager, calls := rest }

/-- `ValidatePayload` runs, outside the lock, or raises. -/
def validate (v : PayloadValidation) (raised : Option Status) : RecoverySystem :=
  match raised with
  | some status => { s with validations := s.validations.set index ⟨v, some (.error status)⟩ }
  | none =>
    let result := validatePayload cfg v.report
    { s with
      validations := s.validations.set index ⟨v, some result⟩
      validated :=
        if result.toBool then ⟨v.clusterName, v.report, s.currentRound⟩ :: s.validated
        else s.validated }

def finishValidation (v : PayloadValidation) : Result Unit → RecoverySystem
  | .ok () =>
    { s with
      manager := (s.manager.recordPayload v).2
      validations := s.validations.eraseIdx index }
  | .error status =>
    { s with
      manager := (s.manager.rejectPayload v status).2
      validations := s.validations.eraseIdx index }

/-! ## Reconciliation -/

def hardDeadlineReached : Bool := s.manager.isHardDeadlineReached s.now

/-- A run goes on in another phase. -/
def proceed (phase : ReconcilePhase) : RecoverySystem :=
  { s with reconciles := s.reconciles.set index { t with phase := phase } }

/-- A section of a run that changes nothing but the context of its cluster. -/
def lockedSection (otherwise : ReconcilePhase)
    (body : LockedContext → ReconcilePhase × LockedContext) : RecoverySystem :=
  let result := s.manager.withContext t.clusterName t.identity otherwise body
  { s with manager := result.2 }.proceed index t result.1

def topologyKeyOf (clusterName : Bytes) : Result Bytes := do
  let request ← installRequest clusterName []
  pure request.key

/-- The topology of a cluster in the store. -/
def topologyEntry (store : MemoryKvStore) (clusterName : Bytes) : Option ValueEntry :=
  match topologyKeyOf clusterName with
  | .error _ => none
  | .ok key => store.data.find? key

/-- The exact read of `AdoptStoredAuthorityIfPresent`, outside the lock. -/
def readAuthority (store : MemoryKvStore) (clusterName : Bytes) (contextGeneration : Nat)
    (failure : Option Status) : ReconcilePhase :=
  match topologyKeyOf clusterName, failure with
  | .error status, _ => .authorityFailed status
  | .ok _, some status => .restore contextGeneration status
  | .ok key, none =>
    match (store.range key []).1 with
    | [] => .prepare
    | [entry] => .apply contextGeneration entry.value
    | _ => .authorityFailed ⟨.kRuntimeError, "exact topology read returned multiple values"⟩

/-- The section that selects a candidate is noted with the context it looked at. -/
def prepare : RecoverySystem :=
  let body := prepareFinalize s.now s.hardDeadlineReached
  let next := s.lockedSection index t .finish body
  match (s.manager.withContext t.clusterName t.identity .finish body).1,
    s.manager.lock t.clusterName with
  | .invoke candidate, some w =>
    { next with
      selections := ⟨t.clusterName, w.context, s.manager.activeRound, s.now, candidate⟩ ::
        s.selections }
  | _, _ => next

/-- The last look at the round before the installer is called. `failure` is a fence that says
no. -/
def invoke (candidate : SelectedCandidate) (failure : Option Status) : RecoverySystem :=
  if failure.isSome || !s.manager.isCurrentRound t.identity then s.proceed index t .finish
  else
    { s.proceed index t (.install candidate) with
      invocations := ⟨t.clusterName, t.identity, candidate, s.currentRound⟩ :: s.invocations }

/-- The installer. `failure` is an exception before its put. -/
def install (candidate : SelectedCandidate) (failure : Option Status) : RecoverySystem :=
  match failure with
  | some status => s.proceed index t (.complete candidate (.error status))
  | none =>
    let (status, store) := match installSelected s.store t.clusterName candidate.payload with
      | .ok store => (.ok (), store)
      | .error status => (.error status, s.store)
    { s.proceed index t (.complete candidate status) with
      store := store
      installations :=
        ⟨⟨t.clusterName, t.identity, candidate, s.currentRound⟩,
          topologyEntry s.store t.clusterName,
          topologyEntry store t.clusterName⟩ :: s.installations }

/-- The next section of a run. -/
def reconcile (failure : Option Status) : RecoverySystem :=
  match t.phase with
  | .start => s.lockedSection index t .finish (·.startFinalize s.now s.hardDeadlineReached)
  | .adopt => s.lockedSection index t .prepare (·.adoptStoredAuthority s.now s.hardDeadlineReached)
  | .read generation =>
    s.proceed index t (readAuthority s.store t.clusterName generation failure)
  | .apply generation value =>
    s.lockedSection index t .prepare
      (·.applyStoredAuthority generation (cfg.wire.decodeTopology value) s.hardDeadlineReached)
  | .restore generation status =>
    s.lockedSection index t (.authorityFailed status) fun w =>
      (.authorityFailed status, w.restoreStoredAuthorityCheck generation)
  | .authorityFailed _ =>
    s.lockedSection index t .finish fun w => (.finish, w.authorityFailed s.hardDeadlineReached)
  | .authorityResolved =>
    s.lockedSection index t .finish fun w => (.finish, w.authorityResolved s.hardDeadlineReached)
  | .prepare => s.prepare index t
  | .invoke candidate => s.invoke index t candidate failure
  | .install candidate => s.install index t candidate failure
  | .complete candidate status =>
    s.lockedSection index t .finish fun w =>
      (.finish, w.completeInstallation s.hardDeadlineReached candidate.version status)
  | .finish =>
    { s with
      manager := s.manager.finishReconcile t.clusterName t.identity
      reconciles := s.reconciles.eraseIdx index }

/-! ## Steps -/

def isInstalling : Bool :=
  match t.phase with
  | .install _ => true
  | _ => false

/-- With a fence, an installer that runs keeps leader rounds from beginning and ending. -/
def roundsFenced : Bool :=
  cfg.fenced && s.reconciles.any isInstalling

def step : RecoveryAction → Option RecoverySystem
  | .tick elapsed => some { s with now := s.now + elapsed }
  | .updateMembership clusterName address observation =>
    some { s with
      manager := s.manager.updateMembership cfg.options s.now clusterName address observation }
  | .beginLeaderRound identity nodeDeadTimeout =>
    if s.roundsFenced cfg then none
    else some { s with
      manager := s.manager.beginLeaderRound cfg.coordinatorId s.now identity nodeDeadTimeout }
  | .endLeaderRound identity =>
    if s.roundsFenced cfg then none
    else some { s with manager := s.manager.endLeaderRound identity }
  | .reportCandidate clusterName leaderTerm coordinatorId report =>
    match s.manager.matchRound leaderTerm coordinatorId, validateEvidence clusterName report with
    | .ok (_, some identity), .ok () =>
      some { s with calls := ⟨clusterName, identity, report, none⟩ :: s.calls }
    | _, _ => none
  | .continueReport index refused =>
    s.calls[index]?.map fun call => s.continueReport cfg index call refused
  | .validate index raised =>
    match s.validations[index]? with
    | some ⟨v, none⟩ => some (s.validate cfg index v raised)
    | _ => none
  | .finishValidation index =>
    match s.validations[index]? with
    | some ⟨v, some result⟩ => some (s.finishValidation index v result)
    | _ => none
  | .scheduleReconcile clusterName accepted =>
    let (identity, manager) := s.manager.scheduleReconcile cfg.options s.now clusterName accepted
    some { s with
      manager := manager
      reconciles := (identity.map (⟨clusterName, ·, .start⟩)).toList ++ s.reconciles }
  | .reconcile index failure =>
    s.reconciles[index]?.map fun t => s.reconcile cfg index t failure
  | .shutdown => some { s with manager := { s.manager with stopping := true } }
  | .put request =>
    (s.store.put request).toOption.map fun r => { s with store := r.2 }
  | .delete request =>
    (s.store.delete request).toOption.map fun r => { s with store := r.2 }

/-! ## What a step does to the manager and to the validations -/

open TopologyRecoveryManager

/-- Not the removal of the last member of a cluster during an installation. -/
def leavesMember : RecoveryAction → Bool
  | .updateMembership clusterName address .removed =>
    (s.manager.contexts.find? clusterName).all fun c =>
      c.state != .installing || decide (c.observedMembers.erase address ≠ ∅)
  | _ => true

/-- Begin or end of a leader round that no fence holds up. -/
def changesRound : RecoveryAction → Bool
  | .beginLeaderRound _ _ => !s.roundsFenced cfg
  | .endLeaderRound _ => !s.roundsFenced cfg
  | _ => false

inductive Effect (exempt clears : Prop) (s s' : RecoverySystem) : Prop
  | moves (hmoves : Moves exempt clears s.manager s'.manager)
      (hadmitted : s'.manager.admittedReportBytes = s.manager.admittedReportBytes)
      (hvalidations : s'.validations = s.validations) (hvalidated : s'.validated = s.validated)
  | submit {v : PayloadValidation} {w : LockedContext}
    (hmoves : Moves exempt clears s.manager s'.manager)
      (hlock : s.manager.lock v.clusterName = some w)
      (hgeneration : w.context.generation = v.contextGeneration)
      (hcapacity : hasCapacity
        (addSize s.manager.admittedReportBytes s.manager.retainedCandidateBytes) v.payloadBytes
        cfg.options.maxCandidateMemoryBytes)
      (hadmitted : s'.manager.admittedReportBytes =
        addSize s.manager.admittedReportBytes v.payloadBytes)
      (hretained : s'.manager.retainedCandidateBytes = s.manager.retainedCandidateBytes)
      (hvalidations : s'.validations = ⟨v, none⟩ :: s.validations)
      (hvalidated : s'.validated = s.validated)
  | validate {index : Nat} {v : PayloadValidation} {result : Result Unit}
      (hget : s.validations[index]? = some ⟨v, none⟩) (hmanager : s'.manager = s.manager)
      (hvalidations : s'.validations = s.validations.set index ⟨v, some result⟩)
      (hvalidated : ((∃ status, result = .error status) ∧ s'.validated = s.validated) ∨
        (validatePayload cfg v.report = .ok () ∧
          s'.validated = ⟨v.clusterName, v.report, s.currentRound⟩ :: s.validated))
  | finish {index : Nat} {v : PayloadValidation} {result : Result Unit}
      (hget : s.validations[index]? = some ⟨v, some result⟩)
      (hmanager : Moves exempt clears s.manager s'.manager ∨ (result = .ok () ∧
        ∃ w w', s.manager.lock v.clusterName = some w ∧
          w.context.generation = v.contextGeneration ∧ w.Keeps w' ∧
          v.report.reporterAddress ∈ w'.context.observedMembers ∧
          s'.manager = (s.manager.completePayload v.payloadBytes).unlock v.clusterName
            (w'.retainPayload v.report)))
      (hadmitted : s'.manager.admittedReportBytes =
        subSize s.manager.admittedReportBytes v.payloadBytes)
      (hvalidations : s'.validations = s.validations.eraseIdx index)
      (hvalidated : s'.validated = s.validated)

section

variable {cfg} {exempt clears : Prop} {s s' : RecoverySystem}

variable {m : TopologyRecoveryManager} {v : PayloadValidation} {index : Nat}

theorem recordPayload_admitted :
    (m.recordPayload v).2.admittedReportBytes = subSize m.admittedReportBytes v.payloadBytes := by
  unfold recordPayload
  dsimp only
  split
  · rfl
  split
  · rfl
  split
  · rfl
  · rfl

theorem rejectPayload_admitted {status} :
    (m.rejectPayload v status).2.admittedReportBytes =
      subSize m.admittedReportBytes v.payloadBytes := by
  unfold rejectPayload
  dsimp only
  split
  · rfl
  split
  · rfl
  · rfl

theorem finishValidation_effect {result} (hget : s.validations[index]? = some ⟨v, some result⟩) :
    Effect cfg exempt clears s (s.finishValidation index v result) := by
  cases result with
  | error => exact .finish hget (.inl rejectPayload_moves) rejectPayload_admitted rfl rfl
  | ok =>
    refine .finish hget ?_ recordPayload_admitted rfl rfl
    rcases recordPayload_cases (m := s.manager) (v := v) rfl with hmoves | hretained
    · exact .inl hmoves
    · obtain ⟨w, w', hlock, hgeneration, -, hkeeps, hmem, heq⟩ := hretained
      exact .inr ⟨rfl, w, w', hlock, hgeneration, hkeeps, hmem, heq⟩

theorem validate_effect {raised} (hget : s.validations[index]? = some ⟨v, none⟩) :
    Effect cfg exempt clears s (s.validate cfg index v raised) := by
  cases raised with
  | some status => exact .validate hget rfl rfl (.inl ⟨⟨status, rfl⟩, rfl⟩)
  | none =>
    refine .validate hget rfl rfl ?_
    unfold RecoverySystem.validate
    cases hresult : validatePayload cfg v.report with
    | error status => exact .inl ⟨⟨status, rfl⟩, rfl⟩
    | ok => exact .inr ⟨rfl, rfl⟩

theorem subSize_addSize {a b : Nat} (ha : a < sizeRange) (hb : b ≤ sizeRange) :
    subSize (addSize a b) b = a := by
  unfold sizeRange at ha hb
  unfold subSize addSize sizeRange
  omega

theorem submitPayload_effect {call : ReportCall} {refused : Option String} {calls : List ReportCall}
    (hadmitted : s.manager.admittedReportBytes < sizeRange) :
    Effect cfg exempt clears s
      (match s.manager.submitPayload cfg.options call.clusterName call.identity call.report
        refused with
      | (.ok (some validation), manager) =>
        { s with
          manager := manager
          calls := calls
          validations := ⟨validation, none⟩ :: s.validations }
      | (_, manager) => { s with manager := manager, calls := calls }) := by
  have hmoves : Moves exempt clears s.manager (s.manager.submitPayload cfg.options
      call.clusterName call.identity call.report refused).2 := submitPayload_moves
  unfold submitPayload at hmoves ⊢
  cases hcheck : s.manager.checkPayload cfg.options call.clusterName call.identity call.report with
  | error => exact .moves (.refl _) rfl rfl rfl
  | ok locked =>
    rw [hcheck] at hmoves
    cases locked with
    | none => exact .moves (.refl _) rfl rfl rfl
    | some w =>
      obtain ⟨hlock, -, hcapacity⟩ := checkPayload_eq_some hcheck
      cases refused with
      | none =>
        exact .submit (v := ⟨call.clusterName, call.identity, w.context.generation, call.report⟩)
          hmoves hlock rfl hcapacity rfl (lock_eq_some.mp hlock).2 rfl rfl
      | some what =>
        have hbytes : call.report.canonicalTopology.length ≤ sizeRange := by
          have hlimit := cfg.options.maxCandidateMemoryBytes_lt
          unfold hasCapacity at hcapacity
          rw [Bool.and_eq_true, decide_eq_true_eq, decide_eq_true_eq] at hcapacity
          omega
        exact .moves hmoves (subSize_addSize hadmitted hbytes) rfl rfl

theorem continueReport_effect {call} {refused}
    (hadmitted : s.manager.admittedReportBytes < sizeRange) :
    Effect cfg exempt clears s (s.continueReport cfg index call refused) := by
  unfold continueReport
  split
  · split
    · rename_i hadmit
      obtain ⟨hmoves, hbytes⟩ := admitReport_moves hadmit
      exact .moves hmoves hbytes rfl rfl
    · rename_i hadmit
      obtain ⟨hmoves, hbytes⟩ := admitReport_moves hadmit
      exact .moves hmoves hbytes rfl rfl
    · exact .moves (.refl _) rfl rfl rfl
  split
  · split
    · rename_i hrecord
      obtain ⟨hmoves, hbytes⟩ := recordEvidence_moves hrecord
      exact .moves hmoves hbytes rfl rfl
    · exact .moves (.refl _) rfl rfl rfl
  · exact submitPayload_effect hadmitted

theorem lockedSection_effect {t} {otherwise} {body}
    (hbody : ∀ w : LockedContext, w.Keeps (body w).2) :
    Effect cfg exempt clears s (s.lockedSection index t otherwise body) :=
  .moves (withContext_moves hbody) withContext_admitted rfl rfl

theorem reconcile_effect {t} {failure} :
    Effect cfg exempt clears s (s.reconcile cfg index t failure) := by
  unfold reconcile
  cases t.phase with
  | start => exact lockedSection_effect fun _ => keeps_startFinalize
  | adopt => exact lockedSection_effect fun _ => keeps_adoptStoredAuthority
  | read => exact .moves (.refl _) rfl rfl rfl
  | apply =>
    exact lockedSection_effect fun _ => keeps_applyStoredAuthority
  | restore =>
    exact lockedSection_effect fun _ => keeps_restoreStoredAuthorityCheck
  | authorityFailed => exact lockedSection_effect fun _ => keeps_authorityFailed
  | authorityResolved => exact lockedSection_effect fun _ => keeps_authorityResolved
  | prepare =>
    have hmoves :
        Moves exempt clears s.manager (s.manager.withContext t.clusterName t.identity .finish
        (prepareFinalize s.now s.hardDeadlineReached)).2 :=
      withContext_moves fun _ => keeps_prepareFinalize
    dsimp only [prepare]
    split
    · exact .moves hmoves withContext_admitted rfl rfl
    · exact .moves hmoves withContext_admitted rfl rfl
  | invoke =>
    dsimp only [invoke]
    split
    · exact .moves (.refl _) rfl rfl rfl
    · exact .moves (.refl _) rfl rfl rfl
  | install =>
    cases failure with
    | some => exact .moves (.refl _) rfl rfl rfl
    | none =>
      dsimp only [install]
      split
      · exact .moves (.refl _) rfl rfl rfl
      · exact .moves (.refl _) rfl rfl rfl
  | complete =>
    exact lockedSection_effect fun _ => keeps_completeInstallation
  | finish => exact .moves finishReconcile_moves withContext_admitted rfl rfl

theorem updateMembership_admitted {options} {now : Nat} {clusterName address} {observation} :
    (m.updateMembership options now clusterName address observation).admittedReportBytes =
      m.admittedReportBytes := by
  unfold updateMembership
  split
  · rfl
  split
  · unfold removeMember
    split
    · rfl
    dsimp only
    split
    · rfl
    split
    · rfl
    · rfl
  split
  · rfl
  · rename_i hensure
    rcases ensureContext_eq_ok hensure with ⟨-, rfl⟩ | ⟨-, _, -, rfl⟩
    · rfl
    · rfl

theorem scheduleReconcile_admitted {options} {now : Nat} {clusterName} {accepted} :
    (m.scheduleReconcile options now clusterName accepted).2.admittedReportBytes =
      m.admittedReportBytes := by
  unfold scheduleReconcile
  split
  · split
    · rfl
    split
    · rfl
    · rfl
  · rfl

theorem step_effect {a} (hadmitted : s.manager.admittedReportBytes < sizeRange)
    (hstep : step cfg s a = some s') :
    Effect cfg (s.leavesMember a = false) (s.changesRound cfg a) s s' := by
  cases a with
  | tick =>
    cases hstep
    exact .moves (.refl _) rfl rfl rfl
  | updateMembership clusterName address observation =>
    cases hstep
    refine .moves (updateMembership_moves ?_) updateMembership_admitted rfl rfl
    intro hremoved c hfind hinstalling hempty
    subst hremoved
    simp [leavesMember, hfind, hinstalling, hempty]
  | beginLeaderRound identity nodeDeadTimeout =>
    dsimp only [step] at hstep
    split at hstep
    · cases hstep
    rename_i hfenced
    cases hstep
    refine .moves (beginLeaderRound_moves (by simpa [changesRound] using hfenced)) ?_ rfl rfl
    dsimp only [beginLeaderRound]
    split
    · rfl
    · rfl
  | endLeaderRound identity =>
    dsimp only [step] at hstep
    split at hstep
    · cases hstep
    rename_i hfenced
    cases hstep
    refine .moves (endLeaderRound_moves (by simpa [changesRound] using hfenced)) ?_ rfl rfl
    dsimp only [endLeaderRound]
    split
    · rfl
    · rfl
  | reportCandidate =>
    dsimp only [step] at hstep
    split at hstep
    · cases hstep
      exact .moves (.refl _) rfl rfl rfl
    · cases hstep
  | continueReport =>
    obtain ⟨_, -, rfl⟩ := Option.map_eq_some_iff.mp hstep
    exact continueReport_effect hadmitted
  | validate index raised =>
    dsimp only [step] at hstep
    split at hstep
    · rename_i hget
      cases hstep
      exact validate_effect hget
    · cases hstep
  | finishValidation index =>
    dsimp only [step] at hstep
    split at hstep
    · rename_i hget
      cases hstep
      exact finishValidation_effect hget
    · cases hstep
  | scheduleReconcile =>
    cases hstep
    exact .moves scheduleReconcile_moves scheduleReconcile_admitted rfl rfl
  | reconcile =>
    obtain ⟨_, -, rfl⟩ := Option.map_eq_some_iff.mp hstep
    exact reconcile_effect
  | shutdown =>
    cases hstep
    exact .moves (.stay rfl rfl rfl rfl) rfl rfl rfl
  | put | delete =>
    obtain ⟨_, -, rfl⟩ := toOption_map_eq_some.mp hstep
    exact .moves (.refl _) rfl rfl rfl

end

end RecoverySystem

end Datasystem.Coordinator
