import Datasystem.Coordinator.RecoveryAccounting

/-! Which topology recovery installs. The installer is only called with a payload that was
validated in the current leader round and was the highest candidate when it was selected,
after every member had reported or the deadline had passed. -/

namespace Datasystem.Coordinator

open Common Lib Checked StateMachine List OrderedMap Option LockedContext RecoverySystem

/-! ## The highest candidate -/

/-- The evidence with the highest version, and with one digest for that version. -/
def Highest (evidenceByReporter : ReporterEvidence) (version : Nat) (digest : Bytes) : Prop :=
  (∃ address e, evidenceByReporter.find? address = some e ∧ e.hasSnapshot ∧
    e.topologyVersion = version ∧ e.canonicalDigest = digest) ∧
  ∀ address e, evidenceByReporter.find? address = some e → e.hasSnapshot →
    e.topologyVersion ≤ version ∧ (e.topologyVersion = version → e.canonicalDigest = digest)

/-- What the loop over the evidence has established after some of it. -/
structure SelectedFrom (evidence : List TopologyCandidateEvidence)
    (selection : TopologyCandidateSelection) : Prop where
  bound : ∀ e ∈ evidence, e.hasSnapshot → e.topologyVersion ≤ selection.highestVersion
  unique : selection.conflictingHighest = false → ∀ e ∈ evidence, e.hasSnapshot →
    e.topologyVersion = selection.highestVersion → e.canonicalDigest = selection.highestDigest
  found : 0 < selection.highestVersion → ∃ e ∈ evidence, e.hasSnapshot ∧
    e.topologyVersion = selection.highestVersion ∧ e.canonicalDigest = selection.highestDigest

theorem SelectedFrom.consider {evidence} {selection} (h : SelectedFrom evidence selection) (e) :
    SelectedFrom (evidence ++ [e]) (considerCandidate selection e) := by
  have hold : ∀ P : TopologyCandidateEvidence → Prop, (∀ d ∈ evidence, P d) → P e →
      ∀ d ∈ evidence ++ [e], P d := by
    intro P hevidence he d hd
    rcases mem_append.mp hd with hd | hd
    · exact hevidence d hd
    · exact mem_singleton.mp hd ▸ he
  have hmem : e ∈ evidence ++ [e] := mem_append_right _ mem_cons_self
  have hfound : 0 < selection.highestVersion → ∃ d ∈ evidence ++ [e], d.hasSnapshot ∧
      d.topologyVersion = selection.highestVersion ∧
        d.canonicalDigest = selection.highestDigest := by
    intro hpos
    obtain ⟨d, hd, hrest⟩ := h.found hpos
    exact ⟨d, mem_append_left _ hd, hrest⟩
  unfold considerCandidate
  split
  · rename_i hsnapshot
    have hnone : ¬e.hasSnapshot := by simpa using hsnapshot
    exact ⟨hold _ h.bound fun hs => absurd hs hnone,
      fun hc => hold _ (h.unique hc) fun hs => absurd hs hnone, hfound⟩
  rename_i hsnapshot
  split
  · rename_i hlt
    refine ⟨hold _ (fun d hd hs => (h.bound d hd hs).trans hlt.le) fun _ => le_rfl,
      fun _ => hold _ (fun d hd hs heq => ?_) fun _ _ => rfl,
      fun _ => ⟨e, hmem, by simpa using hsnapshot, rfl, rfl⟩⟩
    -- nothing before has the new version
    exact absurd (h.bound d hd hs) (by dsimp only at heq; omega)
  rename_i hle
  split
  · rename_i hconflict
    exact ⟨hold _ h.bound fun _ => hconflict.1.le, fun hc => (nomatch hc), hfound⟩
  · rename_i hsame
    refine ⟨hold _ h.bound fun _ => Nat.le_of_not_lt hle, fun hc =>
      hold _ (h.unique hc) fun _ heq => ?_, hfound⟩
    by_contra hne
    exact hsame ⟨heq, hne⟩

theorem selectHighestCandidate_spec (evidenceByReporter) :
    SelectedFrom evidenceByReporter.values (selectHighestCandidate evidenceByReporter) := by
  unfold selectHighestCandidate
  induction evidenceByReporter.values using List.reverseRecOn with
  | nil => exact ⟨by simp, by simp, fun h => absurd h (by decide)⟩
  | append_singleton _ e ih =>
    rw [foldl_append, foldl_cons, foldl_nil]
    exact ih.consider e

theorem highest_of_selectHighestCandidate {evidenceByReporter}
    (hconflict : (selectHighestCandidate evidenceByReporter).conflictingHighest = false)
    (hpos : 0 < (selectHighestCandidate evidenceByReporter).highestVersion) :
    Highest evidenceByReporter (selectHighestCandidate evidenceByReporter).highestVersion
      (selectHighestCandidate evidenceByReporter).highestDigest := by
  have h := selectHighestCandidate_spec evidenceByReporter
  constructor
  · obtain ⟨e, he, hrest⟩ := h.found hpos
    obtain ⟨address, hfind⟩ := mem_values_iff.mp he
    exact ⟨address, e, hfind, hrest⟩
  · intro address e hfind hsnapshot
    have he := mem_values_iff.mpr ⟨address, hfind⟩
    exact ⟨h.bound e he hsnapshot, h.unique hconflict e he hsnapshot⟩

/-- Evidence of as many members as there are is evidence of all of them. -/
theorem all_reported {c : ClusterRecoveryContext}
    (hmembers : ∀ address, (c.reporterEvidence.find? address).isSome → address ∈ c.observedMembers)
    (hcomplete : c.isEvidenceComplete) {address : Bytes} (hadd : address ∈ c.observedMembers) :
    (c.reporterEvidence.find? address).isSome := by
  have hsub : c.reporterEvidence.keys.toFinset ⊆ c.observedMembers := by
    intro k hk
    obtain ⟨⟨k', _⟩, he, rfl⟩ := mem_map.mp (List.mem_toFinset.mp hk)
    exact hmembers k' (by rw [mem_entries_iff.mp he]; rfl)
  have hcard : c.observedMembers.card ≤ c.reporterEvidence.keys.toFinset.card := by
    rw [toFinset_card_of_nodup (keys_nodup _), OrderedMap.keys, length_map]
    exact of_decide_eq_true hcomplete
  have heq := Finset.eq_of_subset_of_card_le hsub hcard
  rw [← heq, List.mem_toFinset] at hadd
  obtain ⟨⟨_, _⟩, he, rfl⟩ := mem_map.mp hadd
  rw [mem_entries_iff.mp he]
  rfl

/-! ## Validated and selected payloads -/

namespace RecoverySystem

open TopologyRecoveryManager

variable (validated : List ValidatedPayload) (round : Option TopologyRecoveryRoundIdentity)

/-- The payload of a report was validated in a round. -/
def Validated (clusterName : Bytes) (report : TopologyRecoveryCandidateReport) : Prop :=
  ∃ v ∈ validated, v.clusterName = clusterName ∧ v.round = round ∧ v.report = report

/-- A payload with its version and digest was validated in a round. -/
def Backed (clusterName : Bytes) (version : Nat) (digest payload : Bytes) : Prop :=
  ∃ v ∈ validated, v.clusterName = clusterName ∧ v.round = round ∧
    v.report.topologyVersion = version ∧ v.report.canonicalDigest = digest ∧
    v.report.canonicalTopology = payload

/-- Contexts only hold payloads that were validated in the current round, and a validation that
may still be recorded belongs to it. -/
structure Current (cfg : RecoveryConfig) (s : RecoverySystem) : Prop where
  context : ∀ clusterName c, s.manager.contexts.find? clusterName = some c →
    c.generation < s.manager.nextContextGeneration
  task : ∀ t ∈ s.validations, t.validation.contextGeneration < s.manager.nextContextGeneration
  valid : ∀ v ∈ s.validated, validatePayload cfg v.report = .ok ()
  result : ∀ t ∈ s.validations, t.result = some (.ok ()) → ∀ c,
    s.manager.contexts.find? t.validation.clusterName = some c →
    c.generation = t.validation.contextGeneration →
    Validated s.validated s.currentRound t.validation.clusterName t.validation.report
  selected : ∀ clusterName c, s.manager.contexts.find? clusterName = some c →
    ∀ payload, c.selectedCanonicalTopology = some payload →
    Backed s.validated s.currentRound clusterName c.selectedVersion
      c.selectedCanonicalDigest payload

section

variable {cfg : RecoveryConfig} {exempt clears : Prop} {s s' : RecoverySystem}
  {m m' : TopologyRecoveryManager} {clusterName : Bytes} {c' : ClusterRecoveryContext}

/-- Where the context of a cluster comes from: it is new, or it goes back to one of the same
generation whose selected payload it has kept or lost. -/
inductive Origin (m m' : TopologyRecoveryManager) (clusterName : Bytes)
    (c' : ClusterRecoveryContext) : Prop
  | fresh (hgeneration : c'.generation = m.nextContextGeneration)
      (hnext : m'.nextContextGeneration = m.nextContextGeneration + 1)
      (hselected : c'.selectedCanonicalTopology = none)
  | kept {c : ClusterRecoveryContext} (hfind : m.contexts.find? clusterName = some c)
      (hgeneration : c'.generation = c.generation)
      (hselected : c'.selectedCanonicalTopology = none ∨
        (c'.selectedCanonicalTopology = c.selectedCanonicalTopology ∧
          c'.selectedCanonicalDigest = c.selectedCanonicalDigest ∧
          c'.selectedVersion = c.selectedVersion))

theorem Origin.refl (hfind : m.contexts.find? clusterName = some c') : Origin m m' clusterName c' :=
  .kept hfind rfl (.inr ⟨rfl, rfl, rfl⟩)

theorem Origin.insert {changed} {c} (h : Origin m m' changed c)
    (hcontexts : m'.contexts = m.contexts.insert changed c)
    (hfind : m'.contexts.find? clusterName = some c') : Origin m m' clusterName c' := by
  rw [hcontexts, find?_insert] at hfind
  split at hfind
  · rename_i heq
    cases hfind
    exact heq ▸ h
  · exact .refl hfind

theorem origin_of_moves (hmoves : Moves exempt clears m m')
    (hfind : m'.contexts.find? clusterName = some c') :
    m'.activeRound = m.activeRound ∧ Origin m m' clusterName c' := by
  cases hmoves with
  | stay hcontexts _ hround => exact ⟨hround, .refl (hcontexts ▸ hfind)⟩
  | keep hlock hkeeps hcontexts _ hround | leave hlock hkeeps _ hcontexts _ hround =>
    -- a member that leaves and its evidence say nothing about the payload
    refine ⟨hround, Origin.insert (.kept (lock_eq_some.mp hlock).1 hkeeps.generation ?_)
      hcontexts hfind⟩
    cases hkeeps.selection with
    | same htopology hdigest hversion => exact .inr ⟨htopology, hdigest, hversion⟩
    | released htopology => exact .inl htopology
  | observe hold hgrows hcontexts _ hround =>
    have horigin : Origin m m' _ _ := .kept hold hgrows.generation
      (.inr ⟨hgrows.topology, hgrows.digest, hgrows.version⟩)
    exact ⟨hround, horigin.insert hcontexts hfind⟩
  | create _ hgrows hcontexts _ hround hnext =>
    rw [hcontexts, find?_insert] at hfind
    split at hfind
    · cases hfind
      exact ⟨hround, .fresh hgrows.generation hnext hgrows.topology⟩
    · exact ⟨hround, .refl hfind⟩
  | drop _ _ _ hcontexts _ hround =>
    rw [hcontexts, find?_erase] at hfind
    split at hfind
    · cases hfind
    · exact ⟨hround, .refl hfind⟩
  | clear _ hcontexts =>
    rw [hcontexts] at hfind
    cases hfind

theorem nextContextGeneration_le (hmoves : Moves exempt clears m m') :
    m.nextContextGeneration ≤ m'.nextContextGeneration := by
  cases hmoves with
  | stay _ _ _ hnext | keep _ _ _ _ _ hnext | observe _ _ _ _ _ hnext | leave _ _ _ _ _ _ hnext
  | drop _ _ _ _ _ _ hnext | clear _ _ _ hnext => exact hnext.ge
  | create hold hgrows hcontexts hretained hround hnext => omega

theorem Validated.mono {validated validated'} {round} {report}
    (hsub : validated ⊆ validated') (h : Validated validated round clusterName report) :
    Validated validated' round clusterName report := by
  obtain ⟨v, hv, hrest⟩ := h
  exact ⟨v, hsub hv, hrest⟩

theorem Backed.mono {validated validated'} {round} {version : Nat} {digest payload}
    (hsub : validated ⊆ validated')
    (h : Backed validated round clusterName version digest payload) :
    Backed validated' round clusterName version digest payload := by
  obtain ⟨v, hv, hrest⟩ := h
  exact ⟨v, hsub hv, hrest⟩

/-- The invariant goes on where contexts are new or go back to earlier ones, and select only what
was validated. -/
theorem Current.transfer (h : Current cfg s)
    (hnext : s.manager.nextContextGeneration ≤ s'.manager.nextContextGeneration)
    (hvalidations : ∀ t ∈ s'.validations, t ∈ s.validations ∨ (t.result = none ∧
      t.validation.contextGeneration < s.manager.nextContextGeneration))
    (hvalidated : s'.validated = s.validated)
    (hcontexts : ∀ cluster c', s'.manager.contexts.find? cluster = some c' →
      s'.currentRound = s.currentRound ∧ ((s.manager.nextContextGeneration ≤ c'.generation ∧
        c'.generation < s'.manager.nextContextGeneration) ∨
          ∃ c, s.manager.contexts.find? cluster = some c ∧ c'.generation = c.generation) ∧
      ∀ payload, c'.selectedCanonicalTopology = some payload → Backed s.validated s.currentRound
        cluster c'.selectedVersion c'.selectedCanonicalDigest payload) : Current cfg s' where
  context cluster c' hc := by
    obtain ⟨-, ⟨-, hlt⟩ | ⟨c, hfind, hsame⟩, -⟩ := hcontexts cluster c' hc
    · exact hlt
    · have hlt := h.context _ _ hfind
      omega
  task t ht := by
    rcases hvalidations t ht with hold | ⟨-, hlt⟩
    · exact lt_of_lt_of_le (h.task t hold) hnext
    · exact lt_of_lt_of_le hlt hnext
  valid := hvalidated ▸ h.valid
  result t ht hok c' hc hgeneration := by
    rcases hvalidations t ht with hold | ⟨hnone, -⟩
    · obtain ⟨hround, ⟨hle, -⟩ | ⟨c, hfind, hsame⟩, -⟩ := hcontexts _ c' hc
      · -- the task is older than the context
        have hlt := h.task t hold
        omega
      · rw [hround, hvalidated]
        exact h.result t hold hok _ hfind (hsame ▸ hgeneration)
    · rw [hnone] at hok
      cases hok
  selected cluster c' hc := by
    obtain ⟨hround, -, hselected⟩ := hcontexts cluster c' hc
    rw [hround, hvalidated]
    exact hselected

/-- Moves keep the invariant, whichever validations are known then. -/
theorem Current.moves (h : Current cfg s) (hmoves : Moves exempt clears s.manager s'.manager)
    (hvalidations : ∀ t ∈ s'.validations, t ∈ s.validations ∨ (t.result = none ∧
      t.validation.contextGeneration < s.manager.nextContextGeneration))
    (hvalidated : s'.validated = s.validated) : Current cfg s' := by
  refine h.transfer (nextContextGeneration_le hmoves) hvalidations hvalidated fun cluster c' hc =>
    ?_
  obtain ⟨hround, horigin⟩ := origin_of_moves hmoves hc
  refine ⟨by rw [currentRound, hround, currentRound], ?_⟩
  cases horigin with
  | fresh hgeneration hnext hselected =>
    refine ⟨.inl ⟨hgeneration.ge, by omega⟩, fun payload hpayload => ?_⟩
    rw [hselected] at hpayload
    cases hpayload
  | kept hfind hgeneration hselected =>
    refine ⟨.inr ⟨_, hfind, hgeneration⟩, fun payload hpayload => ?_⟩
    rcases hselected with hnone | ⟨htopology, hdigest, hversion⟩
    · rw [hnone] at hpayload
      cases hpayload
    · rw [hdigest, hversion]
      exact h.selected _ _ hfind payload (htopology ▸ hpayload)

/-- A recorded payload was validated in the current round. -/
theorem Current.retain (h : Current cfg s) {v} {w w'}
    (ht : (⟨v, some (.ok ())⟩ : ValidationTask) ∈ s.validations)
    (hlock : s.manager.lock v.clusterName = some w)
    (hgeneration : w.context.generation = v.contextGeneration) (hkeeps : w.Keeps w')
    (hmanager : s'.manager = (s.manager.completePayload v.payloadBytes).unlock v.clusterName
      (w'.retainPayload v.report)) (hvalidations : ∀ t ∈ s'.validations, t ∈ s.validations)
    (hvalidated : s'.validated = s.validated) : Current cfg s' := by
  have hfind := (lock_eq_some.mp hlock).1
  have hcontexts : s'.manager.contexts =
      s.manager.contexts.insert v.clusterName (w'.retainPayload v.report).context :=
    congrArg TopologyRecoveryManager.contexts hmanager
  have hround : s'.currentRound = s.currentRound :=
    congrArg (fun m => m.activeRound.map TopologyRecoveryRound.identity) hmanager
  obtain ⟨x, hx, hcluster, hxround, hreport⟩ := h.result _ ht rfl _ hfind hgeneration
  refine h.transfer (by rw [hmanager]; rfl) (fun t ht => .inl (hvalidations t ht)) hvalidated
    fun cluster c' hc => ⟨hround, ?_⟩
  rw [hcontexts, find?_insert] at hc
  split at hc
  · rename_i heq
    cases hc
    refine ⟨.inr ⟨_, heq ▸ hfind, hkeeps.generation⟩, fun payload hpayload => ?_⟩
    cases hpayload
    exact ⟨x, hx, hcluster.trans heq.symm, hxround, by rw [hreport]; rfl, by rw [hreport]; rfl,
      by rw [hreport]⟩
  · exact ⟨.inr ⟨c', hc, rfl⟩, h.selected _ _ hc⟩

theorem Current.validate (h : Current cfg s) {index : Nat} {v}
    {result} (hget : s.validations[index]? = some ⟨v, none⟩) (hmanager : s'.manager = s.manager)
    (hvalidations : s'.validations = s.validations.set index ⟨v, some result⟩)
    (hvalidated : ((∃ status, result = .error status) ∧ s'.validated = s.validated) ∨
      (validatePayload cfg v.report = .ok () ∧
        s'.validated = ⟨v.clusterName, v.report, s.currentRound⟩ :: s.validated)) :
    Current cfg s' := by
  have hmem := mem_of_getElem? hget
  have hround : s'.currentRound = s.currentRound := by rw [currentRound, hmanager, currentRound]
  have hsub : s.validated ⊆ s'.validated := by
    rcases hvalidated with ⟨-, hsame⟩ | ⟨-, hcons⟩
    · rw [hsame]
      exact List.Subset.refl _
    · rw [hcons]
      exact subset_cons_self _ _
  have hold : ∀ t ∈ s'.validations, t ∈ s.validations ∨ t = ⟨v, some result⟩ := by
    intro t ht
    rw [hvalidations] at ht
    exact mem_or_eq_of_mem_set ht
  refine ⟨by rw [hmanager]; exact h.context, fun t ht => ?_, fun x hx => ?_,
    fun t ht hok c hc hg => ?_,
    fun cluster c hc payload hpayload => ?_⟩
  · rw [hmanager]
    rcases hold t ht with ht | rfl
    · exact h.task t ht
    · exact h.task ⟨v, none⟩ hmem
  · rcases hvalidated with ⟨-, hsame⟩ | ⟨hvalid, hcons⟩
    · exact h.valid x (hsame ▸ hx)
    · rw [hcons] at hx
      rcases mem_cons.mp hx with rfl | hx
      · exact hvalid
      · exact h.valid x hx
  · rw [hmanager] at hc
    rw [hround]
    rcases hold t ht with ht | rfl
    · exact (h.result t ht hok c hc hg).mono hsub
    · rcases hvalidated with ⟨⟨status, rfl⟩, -⟩ | ⟨-, hcons⟩
      · cases hok
      · exact ⟨_, hcons ▸ mem_cons_self, rfl, rfl, rfl⟩
  · rw [hmanager] at hc
    rw [hround]
    exact (h.selected cluster c hc payload hpayload).mono hsub

theorem Current.effect (h : Current cfg s) (heffect : Effect cfg exempt clears s s') :
    Current cfg s' := by
  cases heffect with
  | moves hmoves _ hvalidations hvalidated =>
    exact h.moves hmoves (fun t ht => .inl (hvalidations ▸ ht)) hvalidated
  | submit hmoves hlock hgeneration _ _ _ hvalidations hvalidated =>
    refine h.moves hmoves (fun t ht => ?_) hvalidated
    rw [hvalidations] at ht
    rcases mem_cons.mp ht with rfl | ht
    · refine .inr ⟨rfl, ?_⟩
      rw [← hgeneration]
      exact h.context _ _ (lock_eq_some.mp hlock).1
    · exact .inl ht
  | validate hget hmanager hvalidations hvalidated =>
    exact h.validate hget hmanager hvalidations hvalidated
  | finish hget hmanager _ hvalidations hvalidated =>
    have hsub : ∀ t ∈ s'.validations, t ∈ s.validations := fun t ht =>
      mem_of_mem_eraseIdx (hvalidations ▸ ht)
    rcases hmanager with hmoves | ⟨rfl, w, w', hlock, hgeneration, hkeeps, -, heq⟩
    · exact h.moves hmoves (fun t ht => .inl (hsub t ht)) hvalidated
    · exact h.retain (mem_of_getElem? hget) hlock hgeneration hkeeps heq hsub hvalidated

end

/-! ## Selection -/

section

variable {w w' : LockedContext} {now : Nat} {reached : Bool} {candidate : SelectedCandidate}

/-- What is installed is the selected payload, if it is that of the highest candidate. -/
theorem prepareInstallation_eq_some (h : w.prepareInstallation now reached = (some candidate, w')) :
    (reached ∨ w.context.isEvidenceComplete) ∧
      (selectHighestCandidate w.context.reporterEvidence).conflictingHighest = false ∧
      w.context.selectedCanonicalTopology = some candidate.payload ∧
      w.context.selectedVersion = candidate.version ∧
      candidate.version = (selectHighestCandidate w.context.reporterEvidence).highestVersion ∧
      w.context.selectedCanonicalDigest =
        (selectHighestCandidate w.context.reporterEvidence).highestDigest := by
  unfold prepareInstallation at h
  split at h
  · cases h
  split at h
  · cases h
  rename_i hwin
  have hcomplete : reached ∨ w.context.isEvidenceComplete := by
    cases reached with
    | true => exact .inl rfl
    | false =>
      rw [Bool.not_false, Bool.true_and, Bool.not_eq_true, Bool.or_eq_false_iff] at hwin
      exact .inr (by simpa using hwin.1)
  split at h
  · cases h
  split at h
  · cases h
  · rename_i unique hresolved
    obtain ⟨rfl, -, hconflict⟩ := resolveCandidateSelection_false hresolved
    unfold beginInstallation at h
    dsimp only at h
    split at h
    · cases h
    rename_i payload hpayload
    split at h
    · cases h
    rename_i hhighest
    push Not at hhighest
    cases h
    exact ⟨hcomplete, hconflict, hpayload, hhighest.1, rfl, hhighest.2⟩

theorem prepareFinalize_eq_invoke (h : (w.prepareFinalize now reached).1 = .invoke candidate) :
    candidate.version ≠ 0 ∧ ∃ w', w.prepareInstallation now reached = (some candidate, w') := by
  unfold prepareFinalize at h
  split at h
  · cases h
  split at h
  · cases h
  split at h
  · cases h
  · rename_i selected prepared hprepare
    split at h
    · cases h
    · rename_i hversion
      cases h
      exact ⟨hversion, prepared, hprepare⟩

end

variable {identity : TopologyRecoveryRoundIdentity}

theorem isCurrentRound_iff {s : RecoverySystem} :
    s.manager.isCurrentRound identity ↔ s.currentRound = some identity := by
  unfold isCurrentRound currentRound
  cases s.manager.activeRound with
  | none => simp
  | some => simp

/-- A selection is sound: it was made in its round, of the highest candidate, after everyone had
reported or the deadline had passed, and its payload was validated in that round. -/
def Sound (identity : TopologyRecoveryRoundIdentity) (selection : Selection) : Prop :=
  ∃ round digest, selection.round = some round ∧ round.identity = identity ∧
    ((∀ address ∈ selection.context.observedMembers,
        (selection.context.reporterEvidence.find? address).isSome) ∨
      round.hardDeadline ≤ selection.time) ∧
    Highest selection.context.reporterEvidence selection.candidate.version digest ∧
    Backed validated (some identity) selection.clusterName selection.candidate.version digest
      selection.candidate.payload

/-- A candidate stems from a sound selection. -/
def Chosen (s : RecoverySystem) (clusterName : Bytes) (identity : TopologyRecoveryRoundIdentity)
    (candidate : SelectedCandidate) : Prop :=
  ∃ selection ∈ s.selections, selection.clusterName = clusterName ∧
    selection.candidate = candidate ∧ Sound s.validated identity selection

/-- The selection that the section notes is sound. -/
theorem sound_of_prepare {cfg : RecoveryConfig} {s : RecoverySystem} {clusterName : Bytes}
    {w : LockedContext} {candidate : SelectedCandidate} (hs : Accounted cfg s)
    (hcurrent : Current cfg s) (hround : s.currentRound = some identity)
    (hlock : s.manager.lock clusterName = some w)
    (hinv : (w.prepareFinalize s.now s.hardDeadlineReached).1 = .invoke candidate) :
    Sound s.validated identity
      ⟨clusterName, w.context, s.manager.activeRound, s.now, candidate⟩ := by
  obtain ⟨hpos, _, hprepare⟩ := prepareFinalize_eq_invoke hinv
  obtain ⟨hcomplete, hconflict, hpayload, hversion, hhighest, hdigest⟩ :=
    prepareInstallation_eq_some hprepare
  have hfind := (lock_eq_some.mp hlock).1
  obtain ⟨round, hactive, hidentity⟩ := map_eq_some_iff.mp hround
  refine ⟨round, w.context.selectedCanonicalDigest, hactive, hidentity, ?_, ?_, ?_⟩
  · rcases hcomplete with hreached | hcomplete
    · refine .inr ?_
      unfold hardDeadlineReached isHardDeadlineReached at hreached
      rw [hactive, any_some, decide_eq_true_eq] at hreached
      exact hreached
    · exact .inl fun address hadd =>
        all_reported (hs.retained.members _ _ hfind) hcomplete hadd
  · rw [hhighest, hdigest]
    exact highest_of_selectHighestCandidate hconflict (hhighest ▸ Nat.pos_of_ne_zero hpos)
  · have hbacked := hcurrent.selected clusterName w.context hfind candidate.payload hpayload
    rw [hround, hversion] at hbacked
    exact hbacked

/-! ## Installation -/

/-- The candidate that a run is about to install, or has installed. -/
def candidateOf : ReconcilePhase → Option SelectedCandidate
  | .invoke candidate => some candidate
  | .install candidate => some candidate
  | .complete candidate _ => some candidate
  | _ => none

/-- A run installs what was chosen in its round. While its installer is at work the call is on
record, and a fence keeps the round. -/
structure TaskOk (cfg : RecoveryConfig) (s : RecoverySystem) (t : ReconcileTask) : Prop where
  chosen : ∀ candidate, candidateOf t.phase = some candidate →
    Chosen s t.clusterName t.identity candidate
  invoked : ∀ candidate, t.phase = .install candidate →
    ⟨t.clusterName, t.identity, candidate, some t.identity⟩ ∈ s.invocations
  fenced : ∀ candidate, t.phase = .install candidate → cfg.fenced →
    s.currentRound = some t.identity

structure InvocationOk (s : RecoverySystem) (i : Invocation) : Prop where
  round : i.round = some i.identity
  chosen : Chosen s i.clusterName i.identity i.candidate

structure InstallationOk (cfg : RecoveryConfig) (s : RecoverySystem) (i : Installation) : Prop where
  kept : i.before.isSome → i.after = i.before
  invoked : { i.invocation with round := some i.invocation.identity } ∈ s.invocations
  fenced : cfg.fenced → i.invocation.round = some i.invocation.identity

structure Tasks (cfg : RecoveryConfig) (s : RecoverySystem) : Prop where
  task : ∀ t ∈ s.reconciles, TaskOk cfg s t
  invocation : ∀ i ∈ s.invocations, InvocationOk s i
  installation : ∀ i ∈ s.installations, InstallationOk cfg s i

section

variable {cfg : RecoveryConfig} {exempt clears : Prop} {s s' : RecoverySystem}

variable {clusterName : Bytes} {candidate : SelectedCandidate} {w : LockedContext}
  {now index : Nat} {reached : Bool} {failure : Option Status} {t : ReconcileTask}
  {a : RecoveryAction}

theorem Chosen.mono {identity} (h : Chosen s clusterName identity candidate)
    (hselections : s.selections ⊆ s'.selections) (hvalidated : s.validated ⊆ s'.validated) :
    Chosen s' clusterName identity candidate := by
  obtain ⟨selection, hmem, hcluster, hcandidate, round, digest, hround, hidentity, hready, hhighest,
    hbacked⟩ := h
  exact ⟨selection, hselections hmem, hcluster, hcandidate, round, digest, hround,
    hidentity, hready,
    hhighest, hbacked.mono hvalidated⟩

/-- Histories only grow, and what is new in them is as it should be. -/
theorem Tasks.extend (h : Tasks cfg s) (hselections : s.selections ⊆ s'.selections)
    (hvalidated : s.validated ⊆ s'.validated) (hinvoked : s.invocations ⊆ s'.invocations)
    (htasks : ∀ t ∈ s'.reconciles, TaskOk cfg s' t ∨ (t ∈ s.reconciles ∧
      (cfg.fenced → isInstalling t → s'.currentRound = s.currentRound)))
    (hnew : ∀ i ∈ s'.invocations, i ∈ s.invocations ∨ InvocationOk s' i)
    (hinstallations : ∀ i ∈ s'.installations, i ∈ s.installations ∨ InstallationOk cfg s' i) :
    Tasks cfg s' where
  task t ht := by
    rcases htasks t ht with hok | ⟨hold, hround⟩
    · exact hok
    · have hok := h.task t hold
      refine ⟨fun candidate hc => (hok.chosen candidate hc).mono hselections hvalidated,
        fun candidate hc => hinvoked (hok.invoked candidate hc), fun candidate hc hfenced => ?_⟩
      rw [hround hfenced (by rw [isInstalling, hc])]
      exact hok.fenced candidate hc hfenced
  invocation i hi := by
    rcases hnew i hi with hold | hok
    · have hok := h.invocation i hold
      exact ⟨hok.round, hok.chosen.mono hselections hvalidated⟩
    · exact hok
  installation i hi := by
    rcases hinstallations i hi with hold | hok
    · have hok := h.installation i hold
      exact ⟨hok.kept, hinvoked hok.invoked, hok.fenced⟩
    · exact hok

theorem validated_subset (heffect : Effect cfg exempt clears s s') :
    s.validated ⊆ s'.validated := by
  cases heffect with
  | moves _ _ _ hvalidated | finish _ _ _ _ hvalidated => exact hvalidated ▸ List.Subset.refl _
  | submit _ _ _ _ _ _ _ hvalidated =>
    exact hvalidated ▸ List.Subset.refl _
  | validate _ _ _ hvalidated =>
    rcases hvalidated with ⟨-, hsame⟩ | ⟨-, hcons⟩
    · exact hsame ▸ List.Subset.refl _
    · exact hcons ▸ subset_cons_self _ _

/-- Rounds change only where the effect says so. -/
theorem currentRound_of_effect (hclears : ¬clears) (heffect : Effect cfg exempt clears s s') :
    s'.currentRound = s.currentRound := by
  have hround : ∀ {m m'}, Moves exempt clears m m' → m'.activeRound = m.activeRound := by
    intro m m' hmoves
    cases hmoves with
    | stay _ _ hround | keep _ _ _ _ hround | observe _ _ _ _ hround | create _ _ _ _ hround
    | leave _ _ _ _ _ hround | drop _ _ _ _ _ hround => exact hround
    | clear h => exact absurd h hclears
  have hactive : s'.manager.activeRound = s.manager.activeRound := by
    cases heffect with
    | moves hmoves => exact hround hmoves
    | submit hmoves =>
      exact hround hmoves
    | validate _ hmanager => rw [hmanager]
    | finish _ hmanager =>
      rcases hmanager with hmoves | ⟨-, w, w', -, -, -, -, heq⟩
      · exact hround hmoves
      · rw [heq]
        rfl
  rw [currentRound, hactive, currentRound]

/-! ### Sections without a candidate -/

theorem candidateOf_startFinalize : candidateOf (w.startFinalize now reached).1 = none := by
  unfold startFinalize
  split
  · rfl
  split
  · split
    · rfl
    · rfl
  · rfl

theorem candidateOf_adoptStoredAuthority :
    candidateOf (w.adoptStoredAuthority now reached).1 = none := by
  unfold adoptStoredAuthority
  split
  · rfl
  split
  · rfl
  split
  · rfl
  split
  · rfl
  · rfl

theorem candidateOf_applyStoredAuthority {generation : Nat} {status} :
    candidateOf (w.applyStoredAuthority generation status reached).1 = none := by
  unfold applyStoredAuthority
  split
  · rfl
  split
  · rfl
  split
  · rfl
  · rfl

theorem candidateOf_readAuthority {store} {generation : Nat} :
    candidateOf (readAuthority store clusterName generation failure) = none := by
  unfold readAuthority
  split
  · rfl
  · rfl
  split
  · rfl
  · rfl
  · rfl

variable {body : LockedContext → ReconcilePhase × LockedContext} {otherwise : ReconcilePhase}

theorem withContext_candidate {m : TopologyRecoveryManager}
    {identity : TopologyRecoveryRoundIdentity} (hother : candidateOf otherwise = none)
    (h : candidateOf (m.withContext clusterName identity otherwise body).1 = some candidate) :
    m.isCurrentRound identity ∧ ∃ w, m.lock clusterName = some w ∧
      candidateOf (body w).1 = some candidate := by
  unfold withContext at h
  split at h
  · rw [hother] at h
    cases h
  rename_i hround
  split at h
  · rw [hother] at h
    cases h
  · rename_i w hlock
    exact ⟨by simpa using hround, w, hlock, h⟩

theorem TaskOk.of_none (h : candidateOf t.phase = none) : TaskOk cfg s t := by
  refine ⟨fun candidate hc => ?_, fun candidate hc => ?_, fun candidate hc => ?_⟩
  · rw [h] at hc
    cases hc
  · rw [hc] at h
    cases h
  · rw [hc] at h
    cases h

theorem Tasks.proceed (h : Tasks cfg s)
    (hreconciles : s'.reconciles = s.reconciles.set index t) (ht : TaskOk cfg s' t)
    (hselections : s.selections ⊆ s'.selections) (hvalidated : s'.validated = s.validated)
    (hinvocations : s'.invocations = s.invocations)
    (hinstallations : ∀ i ∈ s'.installations, i ∈ s.installations ∨ InstallationOk cfg s' i)
    (hround : s'.currentRound = s.currentRound) : Tasks cfg s' := by
  refine h.extend hselections (hvalidated ▸ List.Subset.refl _) (hinvocations ▸ List.Subset.refl _)
    (fun t' ht' => ?_) (fun i hi => .inl (hinvocations ▸ hi)) hinstallations
  rw [hreconciles] at ht'
  rcases mem_or_eq_of_mem_set ht' with hold | rfl
  · exact .inr ⟨hold, fun _ _ => hround⟩
  · exact .inl ht

/-- A section whose result is never a candidate. -/
theorem Tasks.lockedSection (h : Tasks cfg s) (hother : candidateOf otherwise = none)
    (hbody : ∀ w, candidateOf (body w).1 = none)
    (hround : (s.lockedSection index t otherwise body).currentRound = s.currentRound) :
    Tasks cfg (s.lockedSection index t otherwise body) := by
  refine h.proceed rfl (.of_none ?_) (List.Subset.refl _) rfl rfl (fun _ => .inl) hround
  cases hc : candidateOf (s.manager.withContext t.clusterName t.identity otherwise body).1 with
  | none => rfl
  | some =>
    obtain ⟨-, w, -, hw⟩ := withContext_candidate hother hc
    rw [hbody w] at hw
    cases hw

/-! ### Selection, call and put -/

theorem candidateOf_prepareFinalize
    (h : candidateOf (w.prepareFinalize now reached).1 = some candidate) :
    (w.prepareFinalize now reached).1 = .invoke candidate := by
  unfold prepareFinalize at h ⊢
  split at h
  · cases h
  split at h
  · cases h
  split at h
  · cases h
  · rename_i hfast hblocked _ selected prepared hprepare
    rw [if_neg hfast, if_neg hblocked]
    split at h
    · cases h
    · rename_i hversion
      cases h
      exact if_neg hversion

theorem Tasks.prepare (h : Tasks cfg s) (hs : Accounted cfg s) (hcurrent : Current cfg s)
    (hround : (s.prepare index t).currentRound = s.currentRound) :
    Tasks cfg (s.prepare index t) := by
  have hphase : ∀ candidate, candidateOf (s.manager.withContext t.clusterName t.identity .finish
      (prepareFinalize s.now s.hardDeadlineReached)).1 = some candidate →
      ∃ w, s.manager.lock t.clusterName = some w ∧
        (s.manager.withContext t.clusterName t.identity .finish
          (prepareFinalize s.now s.hardDeadlineReached)).1 = .invoke candidate ∧
        Sound s.validated t.identity
          ⟨t.clusterName, w.context, s.manager.activeRound, s.now, candidate⟩ := by
    intro candidate hc
    obtain ⟨hkept, w, hlock, hw⟩ := withContext_candidate rfl hc
    have hinv := candidateOf_prepareFinalize hw
    refine ⟨w, hlock, ?_, sound_of_prepare hs hcurrent (isCurrentRound_iff.mp hkept) hlock hinv⟩
    rw [withContext, hkept, hlock]
    exact hinv
  unfold RecoverySystem.prepare at hround ⊢
  dsimp only at hround ⊢
  split at hround
  · rename_i candidate w hinv hlock
    obtain ⟨_, hlock', -, hsound⟩ := hphase candidate (by rw [hinv]; rfl)
    rw [hlock] at hlock'
    cases hlock'
    refine h.proceed rfl ⟨fun c hc => ?_, fun c hc => ?_, fun c hc => ?_⟩
      (subset_cons_self _ _) rfl rfl (fun _ => .inl) hround
    · rw [hinv] at hc
      cases hc
      exact ⟨_, mem_cons_self, rfl, rfl, hsound⟩
    · rw [hinv] at hc
      cases hc
    · rw [hinv] at hc
      cases hc
  · rename_i hother
    refine h.proceed rfl (.of_none ?_) (List.Subset.refl _) rfl rfl (fun _ => .inl) hround
    cases hc : candidateOf (s.manager.withContext t.clusterName t.identity .finish
        (prepareFinalize s.now s.hardDeadlineReached)).1 with
    | none => rfl
    | some candidate =>
      obtain ⟨w, hlock, hinv, -⟩ := hphase candidate hc
      exact (hother candidate w hinv hlock).elim

theorem Tasks.invoke (h : Tasks cfg s) (hchosen : Chosen s t.clusterName t.identity candidate) :
    Tasks cfg (s.invoke index t candidate failure) := by
  unfold RecoverySystem.invoke
  split
  · exact h.proceed rfl (.of_none rfl) (List.Subset.refl _) rfl rfl (fun _ => .inl) rfl
  rename_i hcheck
  have hround : s.currentRound = some t.identity := by
    rw [Bool.not_eq_true, Bool.or_eq_false_iff, Bool.not_eq_false'] at hcheck
    exact isCurrentRound_iff.mp hcheck.2
  refine h.extend (List.Subset.refl _) (List.Subset.refl _) (subset_cons_self _ _)
    (fun t' ht' => ?_) (fun i hi => ?_) (fun i hi => .inl hi)
  · rcases mem_or_eq_of_mem_set ht' with hold | rfl
    · exact .inr ⟨hold, fun _ _ => rfl⟩
    · refine .inl ⟨fun c hc => ?_, fun c hc => ?_, fun c hc _ => hround⟩
      · cases hc
        exact hchosen
      · cases hc
        rw [hround]
        exact mem_cons_self
  · rcases mem_cons.mp hi with rfl | hold
    · exact .inr ⟨hround, hchosen⟩
    · exact .inl hold

/-- The conditional put of the installer leaves a topology that is there alone. -/
theorem installSelected_keeps {store store'} {payload}
    (h : installSelected store clusterName payload = .ok store') :
    topologyEntry store clusterName = none := by
  obtain ⟨_, hreq, h⟩ := bind_eq_ok.mp h
  obtain ⟨⟨_, _⟩, hput, -⟩ := bind_eq_ok.mp h
  have hnew := (MemoryKvStore.checkPut_version (MemoryKvStore.put_eq_ok.mp hput).1).1
  obtain ⟨root, hroot, hpure⟩ := bind_eq_ok.mp hreq
  cases hpure
  have hkey : topologyKeyOf clusterName = .ok
      (Cluster.TopologyKeyHelper.topologyTable root ++ ascii "/" ++
        Cluster.TopologyKeyHelper.topologyKey) := by
    rw [topologyKeyOf, installRequest, hroot]
    rfl
  rw [topologyEntry, hkey]
  exact hnew rfl

theorem Tasks.install (h : Tasks cfg s) (ht : t ∈ s.reconciles)
    (hphase : t.phase = .install candidate) :
    Tasks cfg (s.install index t candidate failure) := by
  have hok := h.task t ht
  have hchosen := hok.chosen candidate (by rw [hphase]; rfl)
  -- whatever the put says, only the phase and the store differ
  have hdone : ∀ (s' : RecoverySystem) status, s'.selections = s.selections →
      s'.validated = s.validated →
        TaskOk cfg s' { t with phase := .complete candidate status } := by
    intro s' status hselections hvalidated
    refine ⟨fun c hc => ?_, fun c hc => (nomatch hc), fun c hc => (nomatch hc)⟩
    cases hc
    exact hchosen.mono (hselections ▸ List.Subset.refl _) (hvalidated ▸ List.Subset.refl _)
  unfold RecoverySystem.install
  cases failure with
  | some =>
    exact h.proceed rfl (hdone _ _ rfl rfl) (List.Subset.refl _) rfl rfl (fun _ => .inl) rfl
  | none =>
    dsimp only
    split
    · rename_i result hresult
      refine h.proceed rfl (hdone _ _ rfl rfl) (List.Subset.refl _) rfl rfl (fun i hi => ?_) rfl
      rcases mem_cons.mp hi with rfl | hold
      · refine .inr ⟨fun hsome => ?_, hok.invoked candidate hphase, hok.fenced candidate hphase⟩
        rw [installSelected_keeps hresult] at hsome
        cases hsome
      · exact .inl hold
    · refine h.proceed rfl (hdone _ _ rfl rfl) (List.Subset.refl _) rfl rfl (fun i hi => ?_) rfl
      rcases mem_cons.mp hi with rfl | hold
      · exact .inr ⟨fun _ => rfl, hok.invoked candidate hphase, hok.fenced candidate hphase⟩
      · exact .inl hold

theorem Tasks.reconcile (h : Tasks cfg s) (hs : Accounted cfg s) (hcurrent : Current cfg s)
    (ht : t ∈ s.reconciles) :
    Tasks cfg (s.reconcile cfg index t failure) := by
  have hround : (s.reconcile cfg index t failure).currentRound = s.currentRound :=
    currentRound_of_effect id (reconcile_effect : Effect cfg False False _ _)
  unfold RecoverySystem.reconcile at hround ⊢
  cases hphase : t.phase with
  | start =>
    rw [hphase] at hround
    exact h.lockedSection rfl (fun _ => candidateOf_startFinalize) hround
  | adopt =>
    rw [hphase] at hround
    exact h.lockedSection rfl (fun _ => candidateOf_adoptStoredAuthority) hround
  | read =>
    exact h.proceed rfl (.of_none candidateOf_readAuthority) (List.Subset.refl _) rfl rfl
      (fun _ => .inl) rfl
  | apply =>
    rw [hphase] at hround
    exact h.lockedSection rfl (fun _ => candidateOf_applyStoredAuthority) hround
  | restore | authorityFailed | authorityResolved | complete =>
    rw [hphase] at hround
    exact h.lockedSection rfl (fun _ => rfl) hround
  | prepare =>
    rw [hphase] at hround
    exact h.prepare hs hcurrent hround
  | invoke candidate => exact h.invoke ((h.task t ht).chosen candidate (by rw [hphase]; rfl))
  | install => exact h.install ht hphase
  | finish =>
    rw [hphase] at hround
    exact h.extend (List.Subset.refl _) (List.Subset.refl _) (List.Subset.refl _)
      (fun t' ht' => .inr ⟨mem_of_mem_eraseIdx ht', fun _ _ => hround⟩) (fun i hi => .inl hi)
      fun i hi => .inl hi

theorem history_of_step (hstep : step cfg s a = some s')
    (ha : ∀ index failure, a ≠ .reconcile index failure) :
    s'.selections = s.selections ∧ s'.invocations = s.invocations ∧
      s'.installations = s.installations ∧
      ∀ t ∈ s'.reconciles, t ∈ s.reconciles ∨ candidateOf t.phase = none := by
  have hsame : ∀ s' : RecoverySystem, s'.selections = s.selections →
      s'.invocations = s.invocations →
      s'.installations = s.installations → s'.reconciles = s.reconciles →
      s'.selections = s.selections ∧ s'.invocations = s.invocations ∧
        s'.installations = s.installations ∧
        ∀ t ∈ s'.reconciles, t ∈ s.reconciles ∨ candidateOf t.phase = none :=
    fun s' h₁ h₂ h₃ h₄ => ⟨h₁, h₂, h₃, fun t ht => .inl (h₄ ▸ ht)⟩
  cases a with
  | tick | updateMembership | shutdown =>
    cases hstep
    exact hsame _ rfl rfl rfl rfl
  | beginLeaderRound | endLeaderRound =>
    dsimp only [step] at hstep
    split at hstep
    · cases hstep
    · cases hstep
      exact hsame _ rfl rfl rfl rfl
  | reportCandidate =>
    dsimp only [step] at hstep
    split at hstep
    · cases hstep
      exact hsame _ rfl rfl rfl rfl
    · cases hstep
  | continueReport =>
    obtain ⟨_, -, rfl⟩ := map_eq_some_iff.mp hstep
    unfold continueReport
    split
    · split
      · exact hsame _ rfl rfl rfl rfl
      · exact hsame _ rfl rfl rfl rfl
      · exact hsame _ rfl rfl rfl rfl
    split
    · split
      · exact hsame _ rfl rfl rfl rfl
      · exact hsame _ rfl rfl rfl rfl
    · split
      · exact hsame _ rfl rfl rfl rfl
      · exact hsame _ rfl rfl rfl rfl
  | validate _ raised =>
    dsimp only [step] at hstep
    split at hstep
    · cases hstep
      cases raised with
      | none => exact hsame _ rfl rfl rfl rfl
      | some => exact hsame _ rfl rfl rfl rfl
    · cases hstep
  | finishValidation index =>
    dsimp only [step] at hstep
    split at hstep
    · rename_i v result hget
      cases hstep
      cases result with
      | ok => exact hsame _ rfl rfl rfl rfl
      | error => exact hsame _ rfl rfl rfl rfl
    · cases hstep
  | scheduleReconcile =>
    cases hstep
    refine ⟨rfl, rfl, rfl, fun t ht => ?_⟩
    rcases mem_append.mp ht with hnew | hold
    · obtain ⟨_, -, rfl⟩ := map_eq_some_iff.mp (mem_toList.mp hnew)
      exact .inr rfl
    · exact .inl hold
  | reconcile index failure => exact absurd rfl (ha index failure)
  | put | delete =>
    obtain ⟨_, -, rfl⟩ := toOption_map_eq_some.mp hstep
    exact hsame _ rfl rfl rfl rfl

theorem roundsFenced_of_changesRound (h : s.changesRound cfg a) : s.roundsFenced cfg = false := by
  cases a with
  | beginLeaderRound | endLeaderRound => simpa [changesRound] using h
  | _ => cases h

theorem Tasks.step (h : Tasks cfg s) (hs : Accounted cfg s)
    (hcurrent : Current cfg s) (hstep : step cfg s a = some s') : Tasks cfg s' := by
  by_cases ha : ∃ index failure, a = .reconcile index failure
  · obtain ⟨_, _, rfl⟩ := ha
    obtain ⟨_, hget, rfl⟩ := map_eq_some_iff.mp hstep
    exact h.reconcile hs hcurrent (mem_of_getElem? hget)
  push Not at ha
  obtain ⟨hselections, hinvoked, hinstalls, htasks⟩ := history_of_step hstep ha
  have heffect := step_effect (lt_of_le_of_lt (Nat.le_add_right _ _) hs.fits) hstep
  refine h.extend (hselections ▸ List.Subset.refl _) (validated_subset heffect)
    (hinvoked ▸ List.Subset.refl _) (fun t ht => ?_) (fun i hi => .inl (hinvoked ▸ hi))
    (fun i hi => .inl (hinstalls ▸ hi))
  rcases htasks t ht with hold | hnone
  · refine .inr ⟨hold, fun hfenced hinstalled => ?_⟩
    by_cases hclears : s.changesRound cfg a
    · -- the fence does not let the round change now
      have hopen := roundsFenced_of_changesRound hclears
      rw [roundsFenced, hfenced, Bool.true_and, List.any_eq_false] at hopen
      exact absurd hinstalled (hopen t hold)
    · exact currentRound_of_effect hclears heffect
  · exact .inl (.of_none hnone)

/-- In every reachable state: the installer was called only while the round of its run was
current, with a payload that passed `ValidatePayload` in that round and whose version and digest
were the highest over all evidence of the cluster when it was selected, after every observed
member had reported or the deadline of the round had passed. No installation changed a topology
that was there, each belongs to such a call, and with the fence of the service its put was made
in the same round. -/
theorem installs_only_highest_validated (cfg : RecoveryConfig) (s : RecoverySystem)
    (h : Reaches (step cfg) {} s) :
    (∀ i ∈ s.invocations, i.round = some i.identity ∧
      ∃ selection ∈ s.selections, selection.clusterName = i.clusterName ∧
        selection.candidate = i.candidate ∧
        (∃ round, selection.round = some round ∧ round.identity = i.identity ∧
          ((∀ address ∈ selection.context.observedMembers,
              (selection.context.reporterEvidence.find? address).isSome) ∨
            round.hardDeadline ≤ selection.time)) ∧
        ∃ v ∈ s.validated, v.clusterName = i.clusterName ∧ v.round = i.round ∧
          validatePayload cfg v.report = .ok () ∧
          v.report.canonicalTopology = i.candidate.payload ∧
          v.report.topologyVersion = i.candidate.version ∧
          Highest selection.context.reporterEvidence v.report.topologyVersion
            v.report.canonicalDigest) ∧
    ∀ i ∈ s.installations, (i.before.isSome → i.after = i.before) ∧
      { i.invocation with round := some i.invocation.identity } ∈ s.invocations ∧
      (cfg.fenced → i.invocation.round = some i.invocation.identity) := by
  have hs : Accounted cfg s ∧ Current cfg s ∧ Tasks cfg s := by
    refine h.invariant (I := fun s => Accounted cfg s ∧ Current cfg s ∧ Tasks cfg s)
      ⟨accounted_init, ?_, ?_⟩ fun s s' a hstep hs => ?_
    · exact ⟨fun _ _ hc => (nomatch hc), fun _ ht => (nomatch ht), fun _ hv => (nomatch hv),
        fun _ ht => (nomatch ht), fun _ _ hc => (nomatch hc)⟩
    · exact ⟨fun _ ht => (nomatch ht), fun _ hi => (nomatch hi), fun _ hi => (nomatch hi)⟩
    · have heffect := step_effect (lt_of_le_of_lt (Nat.le_add_right _ _) hs.1.fits) hstep
      exact ⟨hs.1.effect heffect, hs.2.1.effect heffect, hs.2.2.step hs.1 hs.2.1 hstep⟩
  obtain ⟨-, hcurrent, htasks⟩ := hs
  refine ⟨fun i hi => ?_, fun i hi => ?_⟩
  · obtain ⟨hround, selection, hmem, hcluster, hcandidate, round, digest, hselected,
      hidentity, hreaches,
      hhighest, v, hv, hvcluster, hvround, hversion, hdigest, hpayload⟩ := htasks.invocation i hi
    refine ⟨hround, selection, hmem, hcluster, hcandidate, ⟨round, hselected, hidentity, hreaches⟩,
      v, hv,
      hvcluster.trans hcluster, hvround.trans hround.symm, hcurrent.valid v hv, ?_, ?_, ?_⟩
    · rw [hpayload, hcandidate]
    · rw [hversion, hcandidate]
    · rw [hversion, hdigest]
      exact hhighest
  · have hok := htasks.installation i hi
    exact ⟨hok.kept, hok.invoked, hok.fenced⟩

/-- A cluster with one member gets its topology back. -/
theorem reported_topology_is_installed : ∃ s, Reaches (step sampleConfig) {} s ∧
    s.invocations.length = 1 ∧ (topologyEntry s.store []).isSome ∧
    (∀ i ∈ s.invocations, i.round = some i.identity) ∧
    ∀ i ∈ s.installations, i.before.isSome → i.after = i.before := by
  have hrun : (run (step sampleConfig) {} (sampleSelection ++ sampleInstallation)).any
      fun s => decide (s.invocations.length = 1 ∧ (topologyEntry s.store []).isSome) := by
    decide +kernel
  obtain ⟨s, hs, hlen, hentry⟩ := exists_reaches _ hrun
  have hsafe := installs_only_highest_validated sampleConfig s hs
  exact ⟨s, hs, hlen, hentry, fun i hi => (hsafe.1 i hi).1, fun i hi => (hsafe.2 i hi).1⟩

end

end RecoverySystem

end Datasystem.Coordinator
