import Datasystem.Master.PrimaryHandoff

/-! A source is taken out of the locations of an object only beside another primary, and never
for an object that the call reports as failed or as needing its data sent, as long as each key is
requested once and workers acknowledge only what they were asked for. -/

namespace Datasystem.Master.PrimaryHandoff

open Common Lib Checked StateMachine
open OrderedMap (empty find?_alter find?_erase find?_insert)
open List (forall_mem_cons mem_append mem_map mem_singleton nodup_cons nodup_nil)

/-! ## What a step removes -/

variable {request : GiveUpRequest}

/-- When the source is taken out of an object that is still there, the object has another primary,
which at the requested version is an acknowledged location. -/
def Valid (request : GiveUpRequest) (removal : SourceRemoval) : Prop :=
  ∀ entry, removal.entry = some entry → entry.pb.primaryAddress ≠ request.source ∧
    (request.version? removal.objectKey = some entry.pb.version →
      entry.locations.find? entry.pb.primaryAddress = some .ack)

/-- The keys that are reported as failed or as needing their data sent. -/
def withheld (response : RemoveMetaRspPb) : List Bytes := response.failedIds ++ response.needDataIds

variable {m m' : OCMetadataManager} {k k' : Bytes} {store : CommitAnswers}

theorem removed_self : removed request m m = [] := by
  simp [removed]

theorem mem_removed {removal} (h : removal ∈ removed request m m') :
    located m request.source removal.objectKey ∧ ¬located m' request.source removal.objectKey ∧
      removal.entry = m'.metaTable.find? removal.objectKey := by
  obtain ⟨objectKey, hmem, rfl⟩ := mem_map.mp h
  have hloc := of_decide_eq_true (List.mem_filter.mp hmem).2
  exact ⟨hloc.1, hloc.2, rfl⟩

/-- A step that changes one entry removes the source from that one only. -/
theorem objectKey_of_mem_removed {removal} (h : removal ∈ removed request m m')
    (hother : ∀ q, q ≠ k → m'.metaTable.find? q = m.metaTable.find? q) : removal.objectKey = k := by
  obtain ⟨hbefore, hafter, -⟩ := mem_removed h
  by_contra hne
  rw [located, hother _ hne] at hafter
  exact hafter hbefore

variable {response : RemoveMetaRspPb} {candidates : PrimaryChangeMap}
  {membership : TopologyMembership} {order : LocationOrder} {worker : Bytes}
  {result : OCMetadataManager.GiveUpResult}

theorem ne_of_selectGiveUpPrimaryCandidate {locations}
    (h : ObjectMeta.selectGiveUpPrimaryCandidate k membership locations = .ok (some worker)) :
    worker ≠ k := by
  induction locations with
  | nil => cases h
  | cons location rest ih =>
    rw [ObjectMeta.selectGiveUpPrimaryCandidate] at h
    split at h
    · exact ih h
    · rename_i hskip
      obtain ⟨candidate, -, h⟩ := bind_eq_ok.mp h
      split at h
      · cases pure_eq_ok.mp h
        exact fun heq => hskip (.inl heq)
      · exact ih h

/-- What `ProcessGiveUpPrimaryObject` can do to a key: report it, make it a candidate, or take the
source out of an object that has another version and primary. -/
theorem processGiveUpPrimaryObject_cases
    (h : m.processGiveUpPrimaryObject request k response candidates membership store order =
      .ok result) :
    (result.metadata = m ∧ result.candidates = candidates ∧
      ∀ id ∈ withheld result.response, id ∈ withheld response ∨ id = k) ∨
    (∃ worker, worker ≠ request.source ∧ result = ⟨m, response,
      OCMetadataManager.addCandidate candidates worker k⟩) ∨
    ∃ entry, m.metaTable.find? k = some entry ∧
      request.version? k ≠ some entry.pb.version ∧ entry.pb.primaryAddress ≠ request.source ∧
      result.metadata = m.eraseLocation k request.source ∧ result.candidates = candidates ∧
      withheld result.response = withheld response := by
  have hneed : ∀ needWaitIds, ∀ id ∈ withheld { response with
      needDataIds := response.needDataIds ++ [k], needWaitIds := needWaitIds },
      id ∈ withheld response ∨ id = k := by
    intro needWaitIds id hid
    simpa [withheld, or_assoc] using hid
  unfold OCMetadataManager.processGiveUpPrimaryObject at h
  split at h
  · cases pure_eq_ok.mp h
    exact .inl ⟨rfl, rfl, fun id hid => .inl hid⟩
  · rename_i entry hentry
    obtain ⟨hand, hhanded, h⟩ := bind_eq_ok.mp h
    unfold OCMetadataManager.handleTopologyPrimaryVersionChange at hhanded
    split at hhanded
    · cases pure_eq_ok.mp hhanded
      obtain ⟨isPrimaryWithoutCopy, -, h⟩ := bind_eq_ok.mp h
      split at h
      · split at h
        · cases pure_eq_ok.mp h
          exact .inl ⟨rfl, rfl, hneed _⟩
        · cases pure_eq_ok.mp h
          exact .inl ⟨rfl, rfl, hneed _⟩
      · obtain ⟨selected, hselected, h⟩ := bind_eq_ok.mp h
        cases selected with
        | none =>
          cases pure_eq_ok.mp h
          exact .inl ⟨rfl, rfl, hneed _⟩
        | some worker =>
          cases pure_eq_ok.mp h
          exact .inr (.inl ⟨worker, ne_of_selectGiveUpPrimaryCandidate hselected, rfl⟩)
    · rename_i hversion
      split at hhanded
      · cases pure_eq_ok.mp hhanded
        cases pure_eq_ok.mp h
        refine .inl ⟨rfl, rfl, fun id hid => ?_⟩
        simp only [withheld, mem_append, mem_singleton] at hid ⊢
        tauto
      · rename_i hprimary
        obtain ⟨_, -, hhanded⟩ := bind_eq_ok.mp hhanded
        cases pure_eq_ok.mp hhanded
        cases pure_eq_ok.mp h
        exact .inr (.inr ⟨entry, hentry, hversion, hprimary, rfl, rfl, rfl⟩)

variable {source target : Bytes} {rest targets : List Bytes}

theorem find?_eraseLocation_of_ne {q} (hne : q ≠ k) :
    (m.eraseLocation k source).metaTable.find? q = m.metaTable.find? q :=
  OCMetadataManager.find?_eraseLocation.trans (if_neg hne)

theorem eq_of_find?_eraseLocation {entry entry'} (hentry : m.metaTable.find? k = some entry)
    (h : (m.eraseLocation k source).metaTable.find? k = some entry') :
    entry' = { entry with locations := entry.locations.erase source } := by
  rw [OCMetadataManager.find?_eraseLocation, if_pos rfl, hentry] at h
  exact (Option.some.inj h).symm

/-- A commit that fails leaves the entries. One that goes through leaves a key with another
primary than the source. -/
theorem commitTopologyPrimary_spec {version : Nat} {outcome} (hne : target ≠ source)
    (h : m.commitTopologyPrimary k source target version store = (outcome, m')) :
    match outcome with
    | .error _ => m'.metaTable = m.metaTable
    | .ok _ => (∀ q, q ≠ k → m'.metaTable.find? q = m.metaTable.find? q) ∧
      ∀ entry', m'.metaTable.find? k = some entry' → entry'.pb.primaryAddress ≠ source ∧
        (entry'.pb.version = version →
          entry'.locations.find? entry'.pb.primaryAddress = some .ack) := by
  have herase : ∀ {locations : OrderedMap Bytes AckState}, locations.find? target = some .ack →
      (locations.erase source).find? target = some .ack :=
    fun hack => (find?_erase _ _ _).trans ((if_neg hne).trans hack)
  unfold OCMetadataManager.commitTopologyPrimary at h
  split at h
  · rename_i hnone
    cases h
    exact ⟨fun _ _ => rfl, fun entry' hentry' => nomatch hnone.symm.trans hentry'⟩
  · rename_i entry hentry
    split at h
    · rename_i hversion
      split at h
      · cases h
        rfl
      · rename_i hprimary
        split at h <;> cases h
        · rfl
        · refine ⟨fun _ => find?_eraseLocation_of_ne, fun entry' hentry' => ?_⟩
          cases eq_of_find?_eraseLocation hentry hentry'
          exact ⟨hprimary, fun heq => absurd heq hversion⟩
    · split at h
      · cases h
        rfl
      · rename_i hprimary
        split at h
        · cases h
          rfl
        · rename_i hack
          have hack : entry.locations.find? target = some .ack := not_not.mp hack
          split at h
          · split at h
            · cases h
              rfl
            · split at h <;> cases h
              · exact OCMetadataManager.metaTable_createOrUpdateMeta
              · -- the row is written first, then the entry gets its new primary
                refine ⟨fun q hq => ?_, fun entry' hentry' => ?_⟩
                · rw [find?_eraseLocation_of_ne hq, OCMetadataManager.putMeta]
                  rw [find?_insert, if_neg hq, OCMetadataManager.metaTable_createOrUpdateMeta]
                · cases eq_of_find?_eraseLocation ((find?_insert _ _ _ _).trans (if_pos rfl))
                    hentry'
                  exact ⟨hne, fun _ => herase hack⟩
          · rename_i hsource
            split at h <;> cases h
            · rfl
            · refine ⟨fun _ => find?_eraseLocation_of_ne, fun entry' hentry' => ?_⟩
              cases eq_of_find?_eraseLocation hentry hentry'
              refine ⟨hsource, fun _ => ?_⟩
              have htarget : entry.pb.primaryAddress = target := by
                by_contra hother
                exact hprimary ⟨hsource, hother⟩
              show (entry.locations.erase source).find? entry.pb.primaryAddress = _
              rw [htarget]
              exact herase hack

/-! ## Every removal is valid -/

variable {s s' : PrimaryHandoff} {a : Action}

/-- Only other workers than the source are asked. -/
def AsksOthers (request : GiveUpRequest) : HandoffPhase → Prop
  | .sending targets => ∀ target ∈ targets, target ≠ request.source
  | .committing target _ targets =>
    target ≠ request.source ∧ ∀ target ∈ targets, target ≠ request.source
  | .processing _ | .finished | .failed _ => True

structure AllValid (request : GiveUpRequest) (s : PrimaryHandoff) : Prop where
  valid : ∀ removal ∈ s.removals, Valid request removal
  targets : ∀ worker ids, s.candidates.find? worker = some ids → worker ≠ request.source
  phase : AsksOthers request s.phase

theorem removed_of_metaTable_eq (h : m'.metaTable = m.metaTable) : removed request m m' = [] := by
  simp [removed, located, h]

theorem valid_removed (hother : ∀ q, q ≠ k → m'.metaTable.find? q = m.metaTable.find? q)
    (hentry : ∀ entry', m'.metaTable.find? k = some entry' →
      entry'.pb.primaryAddress ≠ request.source ∧ (request.version? k = some entry'.pb.version →
          entry'.locations.find? entry'.pb.primaryAddress = some .ack)) :
    ∀ removal ∈ removed request m m', Valid request removal := by
  intro removal hmem entry' hentry'
  obtain ⟨-, -, heq⟩ := mem_removed hmem
  have hkey := objectKey_of_mem_removed hmem hother
  rw [heq, hkey] at hentry'
  rw [hkey]
  exact hentry entry' hentry'

theorem AllValid.setMetadata (h : AllValid request s)
    (hvalid : ∀ removal ∈ removed request s.metadata m, Valid request removal) :
    ∀ removal ∈ (s.setMetadata request m).removals, Valid request removal := by
  intro removal hmem
  rcases mem_append.mp hmem with hmem | hmem
  · exact h.valid removal hmem
  · exact hvalid removal hmem

theorem AllValid.process (h : AllValid request s) :
    AllValid request (s.process request k rest membership store order) := by
  unfold PrimaryHandoff.process
  split
  · exact ⟨h.valid, h.targets, trivial⟩
  · rename_i result hresult
    rcases processGiveUpPrimaryObject_cases hresult with
      ⟨hmetadata, hcandidate, -⟩ | ⟨worker, hne, rfl⟩ |
      ⟨entry, hentry, hversion, hprimary, hmetadata, hcandidate, -⟩
    · refine ⟨h.setMetadata ?_, ?_, trivial⟩
      · rw [hmetadata, removed_self]
        simp
      · rw [hcandidate]
        exact h.targets
    · refine ⟨h.setMetadata ?_, fun worker' ids hfind => ?_, trivial⟩
      · rw [removed_self]
        simp
      · rw [OCMetadataManager.addCandidate, find?_alter] at hfind
        split at hfind
        · rename_i heq
          exact heq ▸ hne
        · exact h.targets worker' ids hfind
    · refine ⟨h.setMetadata ?_, ?_, trivial⟩
      · rw [hmetadata]
        refine valid_removed (fun _ => find?_eraseLocation_of_ne) fun entry' hentry' => ?_
        cases eq_of_find?_eraseLocation hentry hentry'
        exact ⟨hprimary, fun heq => absurd heq hversion⟩
      · rw [hcandidate]
        exact h.targets

theorem AllValid.commit (h : AllValid request s) {ids}
    (htarget : target ≠ request.source)
    (htargets : ∀ target ∈ targets, target ≠ request.source) :
    AllValid request (s.commit request target k ids targets store) := by
  have hcandidates : ∀ worker ids, (s.candidates.alter target fun ids =>
      (ids.getD .empty).erase k).find? worker = some ids → worker ≠ request.source := by
    intro worker ids hfind
    rw [find?_alter] at hfind
    split at hfind
    · rename_i heq
      exact heq ▸ htarget
    · exact h.targets worker ids hfind
  have hs : AllValid request { s with
      candidates := s.candidates.alter target fun ids => (ids.getD .empty).erase k
      phase := .committing target ids targets } := ⟨h.valid, hcandidates, htarget, htargets⟩
  unfold PrimaryHandoff.commit
  dsimp only
  split
  · exact ⟨h.valid, hcandidates, htarget, htargets⟩
  · rename_i version hversion
    split
    · rename_i status m' hcommit
      refine ⟨hs.setMetadata ?_, hcandidates, htarget, htargets⟩
      rw [removed_of_metaTable_eq (commitTopologyPrimary_spec htarget hcommit)]
      simp
    · rename_i m' hcommit
      obtain ⟨hother, hentry⟩ := commitTopologyPrimary_spec htarget hcommit
      refine ⟨hs.setMetadata (valid_removed hother fun entry' hentry' => ?_), hcandidates,
        htarget, htargets⟩
      refine (hentry entry' hentry').imp_right fun hack heq => hack ?_
      exact Option.some.inj (heq.symm.trans hversion)

theorem AllValid.step (h : AllValid request s) (hstep : s.step request a = some s') :
    AllValid request s' := by
  have hphase := h.phase
  unfold PrimaryHandoff.step at hstep
  split at hstep
  · cases hstep
    exact ⟨h.valid, h.targets, h.phase⟩
  · split at hstep
    · cases hstep
      exact h.process
    · cases hstep
      refine ⟨h.valid, h.targets, fun target hmem => ?_⟩
      obtain ⟨ids, hids⟩ := Option.isSome_iff_exists.mp (OrderedMap.mem_keys_iff.mp hmem)
      exact h.targets target ids hids
    · cases hstep
  · split at hstep
    · rename_i target targets heq
      rw [heq] at hphase
      obtain ⟨htarget, htargets⟩ := forall_mem_cons.mp hphase
      split at hstep
      · cases hstep
        exact ⟨h.valid, h.targets, htargets⟩
      · cases hstep
        exact ⟨h.valid, h.targets, htarget, htargets⟩
    · cases hstep
  · split at hstep
    · rename_i heq
      rw [heq] at hphase
      cases hstep
      exact h.commit hphase.1 hphase.2
    · rename_i heq
      rw [heq] at hphase
      cases hstep
      refine ⟨h.valid, fun worker ids hfind => ?_, hphase.2⟩
      split at hfind
      · rw [find?_erase] at hfind
        split at hfind
        · cases hfind
        · exact h.targets worker ids hfind
      · exact h.targets worker ids hfind
    · cases hstep
  · split at hstep
    · cases hstep
      exact ⟨h.valid, (fun worker ids hfind => nomatch hfind), trivial⟩
    · cases hstep

/-! ## What is reported is not removed -/

/-- The keys that are still to be processed. -/
def HandoffPhase.todo : HandoffPhase → List Bytes
  | .processing keys => keys
  | _ => []

/-- The keys whose source has been removed. -/
def removedKeys (s : PrimaryHandoff) : List Bytes := s.removals.map SourceRemoval.objectKey

/-- Each key is in one place: still to be processed, with one candidate, reported, or removed. -/
structure Placed (s : PrimaryHandoff) : Prop where
  nodup : (HandoffPhase.todo s.phase).Nodup
  todo : ∀ k ∈ HandoffPhase.todo s.phase, k ∉ s.removedKeys ∧ k ∉ withheld s.response ∧
    ∀ worker, k ∉ idsOf s.candidates worker
  candidates : ∀ worker, ∀ k ∈ idsOf s.candidates worker,
    k ∉ s.removedKeys ∧ k ∉ withheld s.response
  sole : ∀ worker worker' k, k ∈ idsOf s.candidates worker → k ∈ idsOf s.candidates worker' →
    worker = worker'
  acknowledged : ∀ target ids targets, s.phase = .committing target ids targets →
    ids.Nodup ∧ ∀ id ∈ ids, id ∈ idsOf s.candidates target
  kept : ∀ k ∈ s.removedKeys, k ∉ withheld s.response

theorem mem_idsOf_addCandidate {worker'} :
    k' ∈ idsOf (OCMetadataManager.addCandidate candidates worker k) worker' ↔
      (worker' = worker ∧ k' = k) ∨ k' ∈ idsOf candidates worker' := by
  unfold idsOf OCMetadataManager.addCandidate
  rw [find?_alter]
  by_cases h : worker' = worker
  · subst h
    simp
  · simp [h]

theorem mem_idsOf_erase {worker'} :
    k' ∈ idsOf (candidates.alter worker fun ids => (ids.getD .empty).erase k) worker' ↔
      ¬(worker' = worker ∧ k' = k) ∧ k' ∈ idsOf candidates worker' := by
  unfold idsOf
  rw [find?_alter]
  by_cases h : worker' = worker
  · subst h
    simp
  · simp [h]

theorem removedKeys_setMetadata_of_eq (h : m.metaTable = s.metadata.metaTable) :
    (s.setMetadata request m).removedKeys = s.removedKeys := by
  simp [removedKeys, setMetadata, removed_of_metaTable_eq h]

theorem mem_removedKeys_setMetadata
    (hother : ∀ q, q ≠ k → m.metaTable.find? q = s.metadata.metaTable.find? q)
    (hmem : k' ∈ (s.setMetadata request m).removedKeys) : k' ∈ s.removedKeys ∨ k' = k := by
  obtain ⟨removal, hremoval, rfl⟩ := mem_map.mp hmem
  rcases mem_append.mp hremoval with hremoval | hremoval
  · exact .inl (List.mem_map_of_mem hremoval)
  · exact .inr (objectKey_of_mem_removed hremoval hother)

/-- One key is reported or removed, and not both. -/
structure Moves (k : Bytes) (s s' : PrimaryHandoff) : Prop where
  removed : ∀ k' ∈ s'.removedKeys, k' ∈ s.removedKeys ∨
    k' = k ∧ withheld s'.response = withheld s.response
  withheld : ∀ k' ∈ withheld s'.response, k' ∈ withheld s.response ∨
    k' = k ∧ s'.removedKeys = s.removedKeys

theorem Moves.free (hmoves : Moves k s s') (hne : k' ≠ k)
    (h : k' ∉ s.removedKeys ∧ k' ∉ PrimaryHandoff.withheld s.response) :
    k' ∉ s'.removedKeys ∧ k' ∉ PrimaryHandoff.withheld s'.response :=
  ⟨fun hin => (hmoves.removed k' hin).elim h.1 fun heq => hne heq.1,
    fun hin => (hmoves.withheld k' hin).elim h.2 fun heq => hne heq.1⟩

theorem Moves.kept (hmoves : Moves k s s') (h : Placed s)
    (hk : k ∉ s.removedKeys ∧ k ∉ PrimaryHandoff.withheld s.response) :
    ∀ k' ∈ s'.removedKeys, k' ∉ PrimaryHandoff.withheld s'.response := by
  intro k' hk' hin
  rcases hmoves.removed k' hk' with hk' | ⟨rfl, heq⟩
  · rcases hmoves.withheld k' hin with hin | ⟨rfl, -⟩
    · exact h.kept k' hk' hin
    · exact hk.1 hk'
  · exact hk.2 (heq ▸ hin)

section

variable (h : Placed s) (hphase : s.phase = .processing (k :: rest))

include h hphase

/-- A key that is processed goes to where it is not yet. -/
theorem Placed.processed (hcandidates : s'.candidates = s.candidates)
    (hphase' : s'.phase = .processing rest) (hmoves : Moves k s s') : Placed s' := by
  have hnodup := h.nodup
  have htodo := h.todo
  rw [hphase] at hnodup htodo
  obtain ⟨hnotIn, hnodup⟩ := nodup_cons.mp hnodup
  obtain ⟨⟨hunremoved, hunwithheld, hunfiled⟩, htodo⟩ := forall_mem_cons.mp htodo
  refine ⟨?_, ?_, ?_, ?_, ?_, hmoves.kept h ⟨hunremoved, hunwithheld⟩⟩
  · rw [hphase']
    exact hnodup
  · rw [hphase', hcandidates]
    intro k' hk'
    obtain ⟨hr, hw, hc⟩ := htodo k' hk'
    obtain ⟨hr, hw⟩ := hmoves.free (fun heq => hnotIn (heq ▸ hk')) ⟨hr, hw⟩
    exact ⟨hr, hw, hc⟩
  · rw [hcandidates]
    intro worker k' hk'
    exact hmoves.free (fun heq => hunfiled worker (heq ▸ hk')) (h.candidates worker k' hk')
  · rw [hcandidates]
    exact h.sole
  · intro target ids targets heq
    rw [hphase'] at heq
    cases heq

theorem Placed.selected (hresponse : s'.response = s.response)
    (hkeys : s'.removedKeys = s.removedKeys)
    (hcandidate : s'.candidates = OCMetadataManager.addCandidate s.candidates worker k)
    (hphase' : s'.phase = .processing rest) : Placed s' := by
  have hnodup := h.nodup
  have htodo := h.todo
  rw [hphase] at hnodup htodo
  obtain ⟨hnotIn, hnodup⟩ := nodup_cons.mp hnodup
  obtain ⟨⟨hunremoved, hunwithheld, hcandidates⟩, htodo⟩ := forall_mem_cons.mp htodo
  refine ⟨?_, ?_, ?_, ?_, ?_, ?_⟩
  · rw [hphase']
    exact hnodup
  · rw [hphase', hkeys, hresponse, hcandidate]
    intro k' hk'
    obtain ⟨hr, hw, hc⟩ := htodo k' hk'
    refine ⟨hr, hw, fun worker' hin => ?_⟩
    rcases mem_idsOf_addCandidate.mp hin with ⟨-, rfl⟩ | hin
    · exact hnotIn hk'
    · exact hc worker' hin
  · rw [hkeys, hresponse, hcandidate]
    intro worker' k' hk'
    rcases mem_idsOf_addCandidate.mp hk' with ⟨-, rfl⟩ | hk'
    · exact ⟨hunremoved, hunwithheld⟩
    · exact h.candidates worker' k' hk'
  · rw [hcandidate]
    intro w₁ w₂ k' h₁ h₂
    rcases mem_idsOf_addCandidate.mp h₁ with ⟨rfl, rfl⟩ | hold₁
    · rcases mem_idsOf_addCandidate.mp h₂ with ⟨rfl, -⟩ | hold₂
      · rfl
      · exact absurd hold₂ (hcandidates w₂)
    · rcases mem_idsOf_addCandidate.mp h₂ with ⟨-, rfl⟩ | hold₂
      · exact absurd hold₁ (hcandidates w₁)
      · exact h.sole w₁ w₂ k' hold₁ hold₂
  · intro target ids targets heq
    rw [hphase'] at heq
    cases heq
  · rw [hkeys, hresponse]
    exact h.kept

theorem Placed.process : Placed (s.process request k rest membership store order) := by
  unfold PrimaryHandoff.process
  split
  · exact ⟨nodup_nil, (fun _ hin => nomatch hin), h.candidates, h.sole,
      (fun _ _ _ heq => nomatch heq), h.kept⟩
  · rename_i result hresult
    rcases processGiveUpPrimaryObject_cases hresult with
      ⟨hmetadata, hcandidates, hwit⟩ | ⟨worker, -, rfl⟩ |
      ⟨entry, -, -, -, hmetadata, hcandidates, hwit⟩
    · have hkeys : (s.setMetadata request result.metadata).removedKeys = s.removedKeys :=
        removedKeys_setMetadata_of_eq (by rw [hmetadata])
      exact h.processed hphase hcandidates rfl ⟨fun k' hk' => .inl (hkeys ▸ hk'),
        fun k' hk' => (hwit k' hk').imp_right fun heq => ⟨heq, hkeys⟩⟩
    · exact h.selected hphase rfl (removedKeys_setMetadata_of_eq rfl) rfl rfl
    · refine h.processed hphase hcandidates rfl ⟨fun k' hk' => ?_, fun k' hk' => .inl (hwit ▸ hk')⟩
      refine (mem_removedKeys_setMetadata (fun q hq => ?_) hk').imp_right fun heq => ⟨heq, hwit⟩
      rw [hmetadata]
      exact find?_eraseLocation_of_ne hq

end

/-- An acknowledged key leaves its worker's set and is reported or removed. -/
theorem Placed.committed (h : Placed s) (hphase : s.phase = .committing target (k :: rest) targets)
    (hcandidates : s'.candidates = s.candidates.alter target fun ids => (ids.getD .empty).erase k)
    (hphase' : s'.phase = .committing target rest targets) (hmoves : Moves k s s') :
    Placed s' := by
  obtain ⟨hnodup, hids⟩ := h.acknowledged target (k :: rest) targets hphase
  obtain ⟨hnotIn, hnodup⟩ := nodup_cons.mp hnodup
  obtain ⟨hk, hids⟩ := forall_mem_cons.mp hids
  -- the key is in no set any more
  have hgone : ∀ {worker k'}, k' ∈ idsOf s'.candidates worker →
      k' ≠ k ∧ k' ∈ idsOf s.candidates worker := by
    intro worker k' hk'
    rw [hcandidates, mem_idsOf_erase] at hk'
    refine ⟨fun heq => hk'.1 ⟨?_, heq⟩, hk'.2⟩
    exact h.sole worker target k' hk'.2 (heq ▸ hk)
  refine ⟨?_, ?_, ?_, ?_, ?_, hmoves.kept h (h.candidates target k hk)⟩
  · rw [hphase']
    exact nodup_nil
  · rw [hphase']
    exact fun _ hin => nomatch hin
  · intro worker k' hk'
    obtain ⟨hne, hk'⟩ := hgone hk'
    exact hmoves.free hne (h.candidates worker k' hk')
  · exact fun w₁ w₂ k' h₁ h₂ => h.sole w₁ w₂ k' (hgone h₁).2 (hgone h₂).2
  · intro target' ids targets' heq
    rw [hphase'] at heq
    cases heq
    refine ⟨hnodup, fun id hid => ?_⟩
    rw [hcandidates, mem_idsOf_erase]
    exact ⟨fun hsame => hnotIn (hsame.2 ▸ hid), hids id hid⟩

theorem mem_withheld_failed {failed}
    (h : k' ∈ withheld { response with failedIds := response.failedIds ++ failed }) :
    k' ∈ withheld response ∨ k' ∈ failed := by
  simp only [withheld, mem_append] at h ⊢
  tauto

theorem Placed.commit (h : Placed s) (hphase : s.phase = .committing target (k :: rest) targets)
    (htarget : target ≠ request.source) :
    Placed (s.commit request target k rest targets store) := by
  unfold PrimaryHandoff.commit
  dsimp only
  split
  · refine h.committed hphase rfl rfl ⟨fun k' hk' => .inl hk', fun k' hk' => ?_⟩
    exact (mem_withheld_failed hk').imp_right fun heq => ⟨mem_singleton.mp heq, rfl⟩
  · split
    · rename_i status m' hcommit
      have hkeys : ({ s with
          candidates := s.candidates.alter target fun ids => (ids.getD .empty).erase k
          phase := .committing target rest targets }.setMetadata request m').removedKeys =
            s.removedKeys :=
              removedKeys_setMetadata_of_eq (commitTopologyPrimary_spec htarget hcommit)
      refine h.committed hphase rfl rfl ⟨fun k' hk' => .inl (hkeys ▸ hk'), fun k' hk' => ?_⟩
      exact (mem_withheld_failed hk').imp_right fun heq => ⟨mem_singleton.mp heq, hkeys⟩
    · rename_i m' hcommit
      refine h.committed hphase rfl rfl ⟨fun k' hk' => ?_, fun k' hk' => .inl hk'⟩
      exact (mem_removedKeys_setMetadata (commitTopologyPrimary_spec htarget hcommit).1
        hk').imp_right
        fun heq => ⟨heq, rfl⟩

theorem honest_of_step (hstep : s.step request a = some s') (h : s'.honest) : s.honest := by
  have hprocess : ∀ {k rest membership store order},
      (s.process request k rest membership store order).honest = s.honest := by
    intro k rest membership store order
    unfold PrimaryHandoff.process
    split <;> rfl
  have hcommit : ∀ {target k rest targets store},
      (s.commit request target k rest targets store).honest = s.honest := by
    intro target k rest targets store
    unfold PrimaryHandoff.commit
    dsimp only
    split
    · rfl
    · split <;> rfl
  unfold PrimaryHandoff.step at hstep
  split at hstep
  · cases hstep
    exact h
  · split at hstep <;> cases hstep
    · exact hprocess ▸ h
    · exact h
  · split at hstep
    · split at hstep <;> cases hstep
      · exact h
      · exact (Bool.and_eq_true_iff.mp h).1
    · cases hstep
  · split at hstep <;> cases hstep
    · exact hcommit ▸ h
    · exact h
  · split at hstep <;> cases hstep
    exact h

theorem mem_idsOf_of_mem_values (h : k ∈ candidates.values.flatMap OrderedSet.elements) :
    ∃ worker, k ∈ idsOf candidates worker := by
  obtain ⟨ids, hids, hk⟩ := List.mem_flatMap.mp h
  obtain ⟨worker, hworker⟩ := OrderedMap.mem_values_iff.mp hids
  refine ⟨worker, ?_⟩
  rw [idsOf, hworker]
  exact OrderedSet.mem_elements.mp hk

theorem Placed.step (h : Placed s) (hvalid : AllValid request s) (hhonest : s'.honest)
    (hstep : s.step request a = some s') : Placed s' := by
  have hphase := hvalid.phase
  unfold PrimaryHandoff.step at hstep
  split at hstep
  · cases hstep
    exact ⟨h.nodup, h.todo, h.candidates, h.sole, h.acknowledged, h.kept⟩
  · split at hstep
    · rename_i objectKey rest heq
      cases hstep
      exact h.process heq
    · cases hstep
      exact ⟨nodup_nil, (fun _ hin => nomatch hin), h.candidates, h.sole,
        (fun _ _ _ heq => nomatch heq), h.kept⟩
    · cases hstep
  · split at hstep
    · split at hstep
      · cases hstep
        exact ⟨nodup_nil, (fun _ hin => nomatch hin), h.candidates, h.sole,
          (fun _ _ _ heq => nomatch heq), h.kept⟩
      · rename_i successIds
        cases hstep
        refine ⟨nodup_nil, (fun _ hin => nomatch hin), h.candidates, h.sole, ?_, h.kept⟩
        intro target' ids targets' heq
        cases heq
        refine ⟨successIds.map.keys_nodup, fun id hid => ?_⟩
        have hasked := List.all_eq_true.mp (Bool.and_eq_true_iff.mp hhonest).2 id hid
        exact of_decide_eq_true hasked
    · cases hstep
  · split at hstep
    · rename_i heq
      rw [heq] at hphase
      cases hstep
      exact h.commit heq hphase.1
    · rename_i target targets heq
      cases hstep
      have hids : ∀ worker k, k ∈ idsOf (if (idsOf s.candidates target).elements.isEmpty then
          s.candidates.erase target else s.candidates) worker → k ∈ idsOf s.candidates worker := by
        intro worker k hk
        split at hk
        · rw [idsOf, find?_erase] at hk
          split at hk
          · simp at hk
          · exact hk
        · exact hk
      exact ⟨nodup_nil, (fun _ hin => nomatch hin),
        fun worker k hk => h.candidates worker k (hids worker k hk),
        fun w₁ w₂ k h₁ h₂ => h.sole w₁ w₂ k (hids w₁ k h₁) (hids w₂ k h₂),
        (fun _ _ _ heq => nomatch heq), h.kept⟩
    · cases hstep
  · split at hstep
    · cases hstep
      refine ⟨nodup_nil, (fun _ hin => nomatch hin), ?_, ?_, (fun _ _ _ heq => nomatch heq), ?_⟩
      · intro worker k hk
        simp [idsOf] at hk
      · intro w₁ w₂ k hk
        simp [idsOf] at hk
      · intro k hk hin
        rcases mem_withheld_failed hin with hin | hin
        · exact h.kept k hk hin
        · obtain ⟨worker, hworker⟩ := mem_idsOf_of_mem_values hin
          exact (h.candidates worker k hworker).1 hk
    · cases hstep

/-! ## Runs -/

structure Inv (request : GiveUpRequest) (s : PrimaryHandoff) : Prop where
  valid : AllValid request s
  placed : request.keys.Nodup → s.honest → Placed s

theorem inv_start {metadata} : Inv request (start request metadata) where
  valid := ⟨(fun _ hin => nomatch hin), (fun _ _ hfind => nomatch hfind), trivial⟩
  placed := by
    intro hnodup _
    refine ⟨hnodup, fun k _ => ?_, ?_, ?_, (fun _ _ _ heq => nomatch heq), fun _ hin => nomatch hin⟩
    · simp [start, removedKeys, withheld, idsOf]
    · simp [start, idsOf]
    · simp [start, idsOf]

theorem Inv.step (h : Inv request s) (hstep : s.step request a = some s') : Inv request s' where
  valid := h.valid.step hstep
  placed := fun hnodup hhonest =>
    (h.placed hnodup (honest_of_step hstep hhonest)).step h.valid hhonest hstep

/-- The source is removed from the locations of an object only when that has another primary, which
is an acknowledged location if the object is at the requested version. If each key is requested
once and workers acknowledge only what they were asked for, then no object that is reported as
failed or as needing its data sent loses its source. -/
theorem handoff_keeps_valid_copy {metadata : OCMetadataManager}
    (h : Reaches (step request) (start request metadata) s) :
    (∀ removal ∈ s.removals, Valid request removal) ∧
      (request.keys.Nodup → s.honest → ∀ removal ∈ s.removals,
        removal.objectKey ∉ s.response.failedIds ∧ removal.objectKey ∉ s.response.needDataIds) := by
  have hinv := h.invariant (I := Inv request) inv_start fun _ _ _ hstep h => h.step hstep
  refine ⟨hinv.valid.valid, fun hnodup hhonest removal hremoval => ?_⟩
  have hkept := (hinv.placed hnodup hhonest).kept _ (List.mem_map_of_mem hremoval)
  simpa [withheld] using hkept

/-- Object 9 at version 5, with its primary copy on worker 1 and copies on workers 2 and 3. -/
def threeCopies : OCMetadataManager :=
  (OCMetadataManager.start fun _ => 0).putMeta [9]
    { pb := { primaryAddress := [1], version := 5 }
      locations := ((empty.insert [1] .ack).insert [2] .ack).insert [3] .ack }

/-- Nobody leaves, and all workers but one are active. -/
def allBut (worker : Bytes) : TopologyMembership where
  isPreLeaving := fun _ => .ok false
  isActive := fun address => .ok (address ≠ worker)

def onlyNine : OrderedSet Bytes := OrderedSet.empty.insert [9]

theorem handoff_keeps_valid_copy_of_one : ∃ s,
    Reaches (step ⟨[1], [[9]], [([9], 5)]⟩) (start ⟨[1], [[9]], [([9], 5)]⟩ threeCopies) s ∧
      ∃ removal ∈ s.removals, Valid ⟨[1], [[9]], [([9], 5)]⟩ removal ∧
        removal.objectKey ∉ s.response.failedIds ∧ removal.objectKey ∉ s.response.needDataIds := by
  have hrun : (run (step ⟨[1], [[9]], [([9], 5)]⟩) (start ⟨[1], [[9]], [([9], 5)]⟩ threeCopies)
      [.process (allBut []) {}, .process (allBut []) {}, .send (.ok onlyNine), .commit {},
        .commit {}, .report]).any fun s => s.honest ∧ s.removedKeys = [[9]] := by
    decide +kernel
  obtain ⟨s, hs, hhonest, hkeys⟩ := exists_reaches _ hrun
  have hmem : [9] ∈ s.removedKeys := by
    rw [hkeys]
    exact List.mem_cons_self
  obtain ⟨removal, hremoval, -⟩ := mem_map.mp hmem
  have hkept := handoff_keeps_valid_copy hs
  exact ⟨s, hs, removal, hremoval, hkept.1 removal hremoval,
    hkept.2 (by decide) hhonest removal hremoval⟩

/-- A key that is requested twice may get two candidates: the first commit removes the source, the
second fails, and the key is reported as failed. -/
theorem reported_key_loses_source : ∃ s, Reaches (step ⟨[1], [[9], [9]], [([9], 5)]⟩)
      (start ⟨[1], [[9], [9]], [([9], 5)]⟩ threeCopies) s ∧
      s.honest ∧ [9] ∈ s.removedKeys ∧ [9] ∈ s.response.failedIds := by
  exact exists_reaches [.process (allBut []) {}, .process (allBut [2]) {}, .process (allBut []) {},
    .send (.ok onlyNine), .commit {}, .commit {}, .send (.ok onlyNine), .commit {}, .commit {},
    .report] (by decide +kernel)

end Datasystem.Master.PrimaryHandoff
