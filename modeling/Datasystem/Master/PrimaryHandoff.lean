import Datasystem.Lib.StateMachine
import Datasystem.Master.WorkerRemoval

/-! A worker that scales in gives up its primary copies. The master selects another copy for each
object, asks its worker to become primary, and commits what the worker acknowledges. Each of these
holds the entry of one object on its own, so anything may happen to the objects in between. -/

namespace Datasystem.Master

open Common Lib Checked StateMachine

/-- What the topology says of workers. -/
structure TopologyMembership where
  isPreLeaving : Bytes → Result Bool
  isActive : Bytes → Result Bool

structure RemoveMetaRspPb where
  successIds : List Bytes := []
  needDataIds : List Bytes := []
  needWaitIds : List Bytes := []
  failedIds : List Bytes := []

/-- The objects that each worker is to become primary of. -/
abbrev PrimaryChangeMap := OrderedMap Bytes (OrderedSet Bytes)

namespace ObjectMeta

variable (entry : ObjectMeta)

def isWriteBackL2Cache : Bool :=
  entry.pb.config.writeMode = .writeBackL2Cache

def isWriteBackL2CacheEvict : Bool :=
  entry.pb.config.writeMode = .writeBackL2CacheEvict

/-- The only acknowledged copy is at the address. -/
def isPrimaryWithoutCopy (address : Bytes) : Bool :=
  let acknowledged := entry.locations.entries.filter fun location => location.2 = .ack
  acknowledged.all (fun location => location.1 = address) && !acknowledged.isEmpty

/-- The loop of `IsPrimaryCopyWithCopy`. -/
def allCopyIsExitingNode (address : Bytes) (membership : TopologyMembership) :
    List (Bytes × AckState) → Result Bool
  | [] => pure true
  | (location, state) :: rest =>
    if location = address ∨ state ≠ .ack then allCopyIsExitingNode address membership rest
    else do
      let isPreLeaving ← membership.isPreLeaving location
      if isPreLeaving then allCopyIsExitingNode address membership rest else pure false

/-- `IsPrimaryCopyWithCopy` -/
def isPrimaryCopyWithCopy (address : Bytes) (membership : TopologyMembership)
    (order : LocationOrder) : Result Bool :=
  if entry.isPrimaryWithoutCopy address then pure true
  else allCopyIsExitingNode address membership (order.visit entry.locations)

/-- `SelectGiveUpPrimaryCandidate` of a topology operation: the first acknowledged copy on another
worker that is active. -/
def selectGiveUpPrimaryCandidate (address : Bytes) (membership : TopologyMembership) :
    List (Bytes × AckState) → Result (Option Bytes)
  | [] => pure none
  | (location, state) :: rest =>
    if location = address ∨ state ≠ .ack then selectGiveUpPrimaryCandidate address membership rest
    else do
      let candidate ← membership.isActive location
      if candidate then pure (some location)
      else selectGiveUpPrimaryCandidate address membership rest

end ObjectMeta

/-- A request to give up primaries, without the keys that are redirected. -/
structure GiveUpRequest where
  source : Bytes
  keys : List Bytes
  idWithVersion : List (Bytes × Nat)

/-- The version a key is requested with: the first that is listed for it. -/
def GiveUpRequest.version? (request : GiveUpRequest) (objectKey : Bytes) : Option Nat :=
  (request.idWithVersion.find? fun item => item.1 = objectKey).map Prod.snd

/-- How the store answers a commit. -/
structure CommitAnswers where
  createOrUpdateMeta : Result Unit := .ok ()
  removeObjectLocation : Result Unit := .ok ()

namespace OCMetadataManager

/-- The part of a give-up that may change the entry, its response and the candidates. -/
structure GiveUpResult where
  metadata : OCMetadataManager
  response : RemoveMetaRspPb
  candidates : PrimaryChangeMap

variable (m : OCMetadataManager)

/-- `HandleTopologyPrimaryVersionChange` -/
def handleTopologyPrimaryVersionChange (request : GiveUpRequest) (entry : ObjectMeta)
    (objectKey : Bytes) (response : RemoveMetaRspPb) (store : CommitAnswers) :
    Result (Option (OCMetadataManager × RemoveMetaRspPb)) :=
  if request.version? objectKey = some entry.pb.version then pure none
  else if entry.pb.primaryAddress = request.source then
    pure (some (m, { response with failedIds := response.failedIds ++ [objectKey] }))
  else do
    store.removeObjectLocation
    pure (some (m.eraseLocation objectKey request.source,
      { response with successIds := response.successIds ++ [objectKey] }))

def addCandidate (candidates : PrimaryChangeMap) (worker objectKey : Bytes) : PrimaryChangeMap :=
  candidates.alter worker fun ids => (ids.getD .empty).insert objectKey

/-- `ProcessGiveUpPrimaryObject` of a topology operation with versions, which leaves the source
among the locations of what it selects. -/
def processGiveUpPrimaryObject (request : GiveUpRequest) (objectKey : Bytes)
    (response : RemoveMetaRspPb) (candidates : PrimaryChangeMap) (membership : TopologyMembership)
    (store : CommitAnswers) (order : LocationOrder) : Result GiveUpResult :=
  match m.metaTable.find? objectKey with
  | none =>
    pure ⟨m, { response with successIds := response.successIds ++ [objectKey] }, candidates⟩
  | some entry => do
    match ← m.handleTopologyPrimaryVersionChange request entry objectKey response store with
    | some (m, response) => pure ⟨m, response, candidates⟩
    | none =>
      let isPrimaryWithoutCopy ← entry.isPrimaryCopyWithCopy request.source membership order
      let needData := { response with needDataIds := response.needDataIds ++ [objectKey] }
      if isPrimaryWithoutCopy then
        if entry.isWriteBackL2Cache || entry.isWriteBackL2CacheEvict then
          pure ⟨m, { needData with needWaitIds := needData.needWaitIds ++ [objectKey] }, candidates⟩
        else pure ⟨m, needData, candidates⟩
      else
        match ← ObjectMeta.selectGiveUpPrimaryCandidate request.source membership
          (order.visit entry.locations) with
        | some worker => pure ⟨m, response, addCandidate candidates worker objectKey⟩
        | none => pure ⟨m, needData, candidates⟩

/-- `CommitTopologyPrimary`. If the store fails after the row was written, only the row changes. -/
def commitTopologyPrimary (key source target : Bytes) (version : Nat) (store : CommitAnswers) :
    Result Unit × OCMetadataManager :=
  match m.metaTable.find? key with
  | none => (.ok (), m)
  | some entry =>
    if entry.pb.version ≠ version then
      if entry.pb.primaryAddress = source then
        (.error ⟨.kTryAgain, "Object version changed during topology handoff"⟩, m)
      else
        match store.removeObjectLocation with
        | .error status => (.error status, m)
        | .ok () => (.ok (), m.eraseLocation key source)
    else if entry.pb.primaryAddress ≠ source ∧ entry.pb.primaryAddress ≠ target then
      (.error ⟨.kTryAgain, "Primary changed during topology handoff"⟩, m)
    else if entry.locations.find? target ≠ some .ack then
      (.error ⟨.kTryAgain, "Primary location disappeared during topology handoff"⟩, m)
    else if entry.pb.primaryAddress = source then
      let updated := { entry.pb with primaryAddress := target }
      match store.createOrUpdateMeta with
      | .error status => (.error status, m)
      | .ok () =>
        let stored := m.createOrUpdateMeta key updated
        match store.removeObjectLocation with
        | .error status => (.error status, stored)
        | .ok () =>
          (.ok (), (stored.putMeta key { entry with pb := updated }).eraseLocation key source)
    else
      match store.removeObjectLocation with
      | .error status => (.error status, m)
      | .ok () => (.ok (), m.eraseLocation key source)

end OCMetadataManager

/-- Where a call of `GiveUpTopologyPrimary` is. -/
inductive HandoffPhase
  | processing (keys : List Bytes)
  /-- `SendChangePrimaryCopy`, with the workers that are still to be asked. -/
  | sending (targets : List Bytes)
  /-- `ProcessChangePrimaryCopyResults`, with the acknowledged keys that are still to be
  committed. -/
  | committing (target : Bytes) (ids : List Bytes) (targets : List Bytes)
  | finished
  /-- The call has returned an error, and its response is not sent. -/
  | failed (status : Status)

/-- The source was taken out of the locations of an object, which then had this entry. -/
structure SourceRemoval where
  objectKey : Bytes
  entry : Option ObjectMeta

/-- A call under way, with the locations it has removed so far, and whether all workers have
acknowledged only what they were asked for. -/
structure PrimaryHandoff where
  metadata : OCMetadataManager
  response : RemoveMetaRspPb := {}
  candidates : PrimaryChangeMap := .empty
  phase : HandoffPhase
  removals : List SourceRemoval := []
  honest : Bool := true

namespace PrimaryHandoff

inductive Action
  /-- Anybody else changes the metadata. -/
  | environment (metaTable : OrderedMap Bytes ObjectMeta)
  | process (membership : TopologyMembership) (store : CommitAnswers)
      (order : LocationOrder := .byKey)
  /-- The next worker is asked, and answers or fails. -/
  | send (answer : Result (OrderedSet Bytes))
  | commit (store : CommitAnswers)
  | report

variable (request : GiveUpRequest)

/-- The source is a location of an object. -/
def located (m : OCMetadataManager) (source objectKey : Bytes) : Bool :=
  (m.metaTable.find? objectKey).any fun entry => entry.Located source

/-- What a step of the call has removed. -/
def removed (before after : OCMetadataManager) : List SourceRemoval :=
  (before.metaTable.keys.filter fun objectKey =>
    located before request.source objectKey ∧ ¬located after request.source objectKey).map
      fun objectKey => ⟨objectKey, after.metaTable.find? objectKey⟩

variable (s : PrimaryHandoff)

def setMetadata (m : OCMetadataManager) : PrimaryHandoff :=
  { s with metadata := m, removals := s.removals ++ removed request s.metadata m }

def idsOf (candidates : PrimaryChangeMap) (target : Bytes) : OrderedSet Bytes :=
  (candidates.find? target).getD .empty

def process (objectKey : Bytes) (rest : List Bytes) (membership : TopologyMembership)
    (store : CommitAnswers) (order : LocationOrder) : PrimaryHandoff :=
  match s.metadata.processGiveUpPrimaryObject request objectKey s.response s.candidates membership
    store order with
  | .error status => { s with phase := .failed status }
  | .ok result =>
    { s.setMetadata request result.metadata with
      response := result.response
      candidates := result.candidates
      phase := .processing rest }

/-- One acknowledged key of `ProcessChangePrimaryCopyResults`. -/
def commit (target objectKey : Bytes) (rest targets : List Bytes) (store : CommitAnswers) :
    PrimaryHandoff :=
  let s :=
    { s with
      candidates := s.candidates.alter target fun ids => (ids.getD .empty).erase objectKey
      phase := .committing target rest targets }
  match request.version? objectKey with
  | none => { s with response.failedIds := s.response.failedIds ++ [objectKey] }
  | some version =>
    match s.metadata.commitTopologyPrimary objectKey request.source target version store with
    | (.error _, m) =>
      { s.setMetadata request m with
        response := { s.response with failedIds := s.response.failedIds ++ [objectKey] } }
    | (.ok (), m) =>
      { s.setMetadata request m with
        response := { s.response with successIds := s.response.successIds ++ [objectKey] } }

def step : Action → Option PrimaryHandoff
  | .environment metaTable => some { s with metadata := { s.metadata with metaTable := metaTable } }
  | .process membership store order =>
    match s.phase with
    | .processing (objectKey :: rest) =>
      some (s.process request objectKey rest membership store order)
    | .processing [] => some { s with phase := .sending s.candidates.keys }
    | _ => none
  | .send answer =>
    match s.phase with
    | .sending (target :: targets) =>
      match answer with
      | .error _ => some { s with phase := .sending targets }
      | .ok successIds =>
        some { s with
          phase := .committing target successIds.elements targets
          honest :=
            s.honest && successIds.elements.all fun id => id ∈ idsOf s.candidates target }
    | _ => none
  | .commit store =>
    match s.phase with
    | .committing target (objectKey :: rest) targets =>
      some (s.commit request target objectKey rest targets store)
    | .committing target [] targets =>
      some { s with
        candidates :=
          if (idsOf s.candidates target).elements.isEmpty then s.candidates.erase target
          else s.candidates
        phase := .sending targets }
    | _ => none
  | .report =>
    match s.phase with
    | .sending [] =>
      some { s with
        response.failedIds :=
          s.response.failedIds ++ s.candidates.values.flatMap OrderedSet.elements
        candidates := .empty
        phase := .finished }
    | _ => none

def start (metadata : OCMetadataManager) : PrimaryHandoff where
  metadata := metadata
  phase := .processing request.keys

end PrimaryHandoff

end Datasystem.Master
