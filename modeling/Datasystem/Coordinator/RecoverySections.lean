import Datasystem.Coordinator.TopologyRecoveryManager

/-! What the sections of the recovery manager can do. Nearly all of them leave the members
of a context alone and keep or release its selected payload; `Keeps` says this of a
context and `Moves` says what a section can make of the table of contexts. -/

namespace Datasystem.Coordinator

open Common Lib Checked LockedContext

/-! ## Byte counters -/

theorem subSize_of_le {a b : Nat} (h : b ≤ a) (ha : a < sizeRange) : subSize a b = a - b := by
  have hsum : a + sizeRange - b = a - b + sizeRange := by omega
  rw [subSize, hsum, Nat.add_mod_right, Nat.mod_eq_of_lt (by omega)]

theorem addSize_of_lt {a b : Nat} (h : a + b < sizeRange) : addSize a b = a + b :=
  Nat.mod_eq_of_lt h

namespace LockedContext

variable {w w' w'' : LockedContext}

/-- The selected payload is the same, or it was released. -/
inductive Selection (w w' : LockedContext) : Prop
  | same (htopology : w'.context.selectedCanonicalTopology = w.context.selectedCanonicalTopology)
      (hdigest : w'.context.selectedCanonicalDigest = w.context.selectedCanonicalDigest)
      (hversion : w'.context.selectedVersion = w.context.selectedVersion)
      (hretained : w'.retainedCandidateBytes = w.retainedCandidateBytes)
  | released (htopology : w'.context.selectedCanonicalTopology = none)
      (hretained : w'.retainedCandidateBytes = w.releaseSelectedPayload.retainedCandidateBytes)

/-- The members stay, evidence is only added for members, and the payload is kept or released. -/
structure Keeps (w w' : LockedContext) : Prop where
  generation : w'.context.generation = w.context.generation
  observed : w'.context.observedMembers = w.context.observedMembers
  evidence : ∀ k, (w'.context.reporterEvidence.find? k).isSome →
    (w.context.reporterEvidence.find? k).isSome ∨ k ∈ w.context.observedMembers
  selection : Selection w w'

theorem releaseSelectedPayload_retained : w.releaseSelectedPayload.retainedCandidateBytes =
      match w.context.selectedCanonicalTopology with
      | none => w.retainedCandidateBytes
      | some payload => subSize w.retainedCandidateBytes payload.length := rfl

theorem Selection.trans (h : Selection w w') (h' : Selection w' w'') : Selection w w'' := by
  cases h with
  | same ht hd hv hr =>
    cases h' with
    | same ht' hd' hv' hr' =>
      exact .same (ht'.trans ht) (hd'.trans hd) (hv'.trans hv) (hr'.trans hr)
    | released ht' hr' =>
      refine .released ht' (hr'.trans ?_)
      rw [releaseSelectedPayload_retained, releaseSelectedPayload_retained, ht, hr]
  | released ht hr =>
    cases h' with
    | same ht' _ _ hr' => exact .released (ht'.trans ht) (hr'.trans hr)
    | released ht' hr' =>
      -- releasing twice gives nothing back the second time
      have htwice :
          w'.releaseSelectedPayload.retainedCandidateBytes = w'.retainedCandidateBytes := by
        rw [releaseSelectedPayload_retained, ht]
      exact .released ht' (hr'.trans (htwice.trans hr))

theorem Keeps.refl (w) : Keeps w w := ⟨rfl, rfl, fun _ h => .inl h, .same rfl rfl rfl rfl⟩

theorem Keeps.trans (h : Keeps w w') (h' : Keeps w' w'') : Keeps w w'' where
  generation := h'.generation.trans h.generation
  observed := h'.observed.trans h.observed
  evidence k hk := by
    rcases h'.evidence k hk with hk | hk
    · exact h.evidence k hk
    · exact .inr (h.observed ▸ hk)
  selection := h.selection.trans h'.selection

variable {f : ClusterRecoveryContext → ClusterRecoveryContext} {deadline : Nat}
  {report : TopologyRecoveryCandidateReport}

/-- What the changes of a context that do not select leave as it is. -/
structure Leaves (c c' : ClusterRecoveryContext) : Prop where
  generation : c'.generation = c.generation
  observed : c'.observedMembers = c.observedMembers
  topology : c'.selectedCanonicalTopology = c.selectedCanonicalTopology
  digest : c'.selectedCanonicalDigest = c.selectedCanonicalDigest
  version : c'.selectedVersion = c.selectedVersion

theorem Keeps.modify (h : Leaves w.context (f w.context))
    (hevidence : ∀ k, ((f w.context).reporterEvidence.find? k).isSome →
      (w.context.reporterEvidence.find? k).isSome ∨ k ∈ w.context.observedMembers) :
    Keeps w (w.modify f) :=
  ⟨h.generation, h.observed, hevidence, .same h.topology h.digest h.version rfl⟩

theorem Keeps.modify_other
    (h : Leaves w.context (f w.context) := by exact ⟨rfl, rfl, rfl, rfl, rfl⟩)
    (hevidence : (f w.context).reporterEvidence = w.context.reporterEvidence := by rfl) :
    Keeps w (w.modify f) :=
  .modify h fun _ hk => .inl (hevidence ▸ hk)

theorem Keeps.modify_clear
    (h : Leaves w.context (f w.context) := by exact ⟨rfl, rfl, rfl, rfl, rfl⟩)
    (hevidence : (f w.context).reporterEvidence = .empty := by rfl) : Keeps w (w.modify f) :=
  .modify h fun _ hk => by rw [hevidence] at hk; cases hk

theorem keeps_setState (state) : Keeps w (w.setState state) := .modify_other

theorem keeps_release : Keeps w w.releaseSelectedPayload :=
  ⟨rfl, rfl, fun _ h => .inl h, .released rfl rfl⟩

theorem keeps_refreshSelection : Keeps w w.refreshSelection := by
  unfold refreshSelection
  dsimp only
  split
  · exact .refl w
  · exact keeps_release

theorem keeps_forceReady : Keeps w w.forceReady :=
  (keeps_setState .ready).trans (.trans .modify_clear keeps_release)

theorem keeps_settleRemoval {before : LockedContext} {address : Bytes} :
    Keeps w (before.settleRemoval w address deadline) := by
  have hresumed : Keeps w (w.resumeDiscovery deadline) := (keeps_setState _).trans .modify_other
  have hclear : ∀ {u : LockedContext}, Keeps w u → Keeps w u.clearDeadlineWithoutEvidence := by
    intro u hu
    unfold clearDeadlineWithoutEvidence
    split
    · exact hu.trans .modify_other
    · exact hu
  apply hclear
  split
  · exact hresumed.trans keeps_refreshSelection
  · exact keeps_refreshSelection

/-! ## Reports -/

theorem keeps_putEvidence {requested}
    (hmembers : report.reporterAddress ∈ w.context.observedMembers) :
    Keeps w (w.putEvidence report requested) := by
  refine .modify ⟨rfl, rfl, rfl, rfl, rfl⟩ fun k hk => ?_
  rw [OrderedMap.find?_insert] at hk
  split at hk
  · rename_i heq
    exact .inr (heq ▸ hmembers)
  · exact .inl hk

theorem keeps_unblock : Keeps w w.unblock := by
  unfold unblock
  split
  · exact (keeps_setState _).trans .modify_other
  · exact .refl w

theorem keeps_storeEvidence (hmembers : report.reporterAddress ∈ w.context.observedMembers) :
    Keeps w (w.storeEvidence report deadline) := by
  unfold storeEvidence
  split
  · exact (keeps_putEvidence hmembers).trans .modify_other
  · exact keeps_putEvidence hmembers

theorem keeps_recordReport (hmembers : report.reporterAddress ∈ w.context.observedMembers) :
    Keeps w (w.recordReport report deadline).2 := by
  have href : Keeps w (w.storeEvidence report deadline).refreshSelection :=
    (keeps_storeEvidence hmembers).trans keeps_refreshSelection
  unfold recordReport
  split
  · exact href.trans (keeps_putEvidence (href.observed ▸ hmembers))
  · exact href

theorem keeps_updateEvidence {options} {now : Nat} {decision decision'} {schedule}
    (h : w.updateEvidence options now report decision = .ok (decision', schedule, w')) :
    Keeps w w' := by
  unfold updateEvidence at h
  split at h
  · cases h
    exact .refl w
  rename_i hmembers
  push Not at hmembers
  split at h
  · cases h
    exact .refl w
  split at h
  · obtain ⟨_, -, h⟩ := bind_eq_ok.mp h
    cases h
    exact .refl w
  split at h
  · cases h
    exact .refl w
  split at h
  · cases h
    exact keeps_unblock
  · cases h
    have hstill : report.reporterAddress ∈ w.unblock.context.observedMembers := by
      rw [keeps_unblock.observed]
      exact hmembers
    exact keeps_unblock.trans (keeps_recordReport hstill)

theorem keeps_denyPayload {status} : Keeps w (w.denyPayload report status) := by
  unfold denyPayload
  split
  · exact .refl w
  split
  · exact (keeps_setState _).trans keeps_release
  · exact .refl w

/-- An accepted payload is new, or the selection stays as it is refreshed. -/
theorem acceptPayload_cases (h : w.acceptPayload report = .ok w') :
    report.reporterAddress ∈ w.context.observedMembers ∧
      (w' = w.refreshSelection ∨ w' = w.refreshSelection.retainPayload report) := by
  obtain ⟨_, -, h⟩ := bind_eq_ok.mp h
  obtain ⟨hmembers, h⟩ := check_bind_eq_ok.mp h
  obtain ⟨_, -, h⟩ := bind_eq_ok.mp h
  refine ⟨hmembers.1, ?_⟩
  dsimp only at h
  split at h
  · cases h
    exact .inr rfl
  · cases h
    exact .inl rfl

end LockedContext

/-! ## Observed members -/

/-- A member was observed: there is one, and nothing else of the context counts. -/
structure ClusterRecoveryContext.Grows (c c' : ClusterRecoveryContext) : Prop where
  generation : c'.generation = c.generation
  members : c.observedMembers ⊆ c'.observedMembers
  nonempty : c'.observedMembers ≠ ∅
  evidence : c'.reporterEvidence = c.reporterEvidence
  topology : c'.selectedCanonicalTopology = c.selectedCanonicalTopology
  digest : c'.selectedCanonicalDigest = c.selectedCanonicalDigest
  version : c'.selectedVersion = c.selectedVersion

namespace TopologyRecoveryManager

theorem addMember_grows {options} {now : Nat} {address}
    (c : ClusterRecoveryContext) : c.Grows (addMember options now c address) := by
  unfold addMember
  split
  · rename_i hmem
    exact ⟨rfl, subset_rfl, Finset.ne_empty_of_mem hmem, rfl, rfl, rfl, rfl⟩
  split
  · rename_i hlimit
    have hcard := lt_of_lt_of_le options.maxMembersPerCluster_pos hlimit
    exact ⟨rfl, subset_rfl, (Finset.card_pos.mp hcard).ne_empty, rfl, rfl, rfl, rfl⟩
  · exact ⟨rfl, Finset.subset_insert _ _, Finset.insert_ne_empty _ _, rfl, rfl, rfl, rfl⟩

end TopologyRecoveryManager

namespace LockedContext

/-! ## Reconciliation -/

variable {w w' w'' : LockedContext} {now : Nat} {reached : Bool}

theorem keeps_startFinalize : Keeps w (w.startFinalize now reached).2 := by
  unfold startFinalize
  split
  · exact .refl w
  split
  · split
    · dsimp only
      exact .modify_other
    · exact .refl w
  · exact .refl w

theorem keeps_adoptStoredAuthority : Keeps w (w.adoptStoredAuthority now reached).2 := by
  unfold adoptStoredAuthority
  split
  · exact .refl w
  split
  · exact .refl w
  split
  · exact .refl w
  split
  · exact .refl w
  · dsimp only
    exact .modify_other

theorem keeps_restoreStoredAuthorityCheck {generation : Nat} :
    Keeps w (w.restoreStoredAuthorityCheck generation) := by
  unfold restoreStoredAuthorityCheck
  split
  · exact .modify_other
  · exact .refl w

theorem keeps_applyStoredAuthority {generation : Nat} {status} :
    Keeps w (w.applyStoredAuthority generation status reached).2 := by
  unfold applyStoredAuthority
  split
  · exact .refl w
  split
  · exact .refl w
  split
  · dsimp only
    exact .modify_other
  · exact (keeps_release.trans .modify_clear).trans (keeps_setState _)

theorem keeps_authorityFailed : Keeps w (w.authorityFailed reached) := by
  unfold authorityFailed
  split
  · exact keeps_forceReady
  · exact .modify_other

theorem keeps_authorityResolved : Keeps w (w.authorityResolved reached) := by
  unfold authorityResolved
  split
  · exact keeps_forceReady
  · exact .refl w

/-- Only a unique highest candidate leaves the selection open, and then nothing has changed. -/
theorem resolveCandidateSelection_false (h : w.resolveCandidateSelection reached = (false, w')) :
    w' = w ∧ (selectHighestCandidate w.context.reporterEvidence).hasSnapshot ∧
      (selectHighestCandidate w.context.reporterEvidence).conflictingHighest = false := by
  unfold resolveCandidateSelection at h
  dsimp only at h
  split at h
  · cases h
  rename_i hcontext
  split at h
  · rename_i hsnapshot
    cases h
    refine ⟨rfl, hsnapshot, ?_⟩
    rw [hsnapshot, Bool.true_and, Bool.not_eq_true] at hcontext
    exact hcontext
  split at h
  · cases h
  split at h
  · cases h
  · cases h

theorem keeps_resolveCandidateSelection : Keeps w (w.resolveCandidateSelection reached).2 := by
  unfold resolveCandidateSelection
  dsimp only
  split
  · split
    · exact keeps_forceReady
    · exact (keeps_setState _).trans keeps_release
  split
  · exact .refl w
  split
  · exact keeps_forceReady
  split
  · exact (keeps_setState _).trans (.trans .modify_clear keeps_release)
  · exact .refl w

theorem keeps_giveUp : Keeps w (if reached then w.forceReady else w) := by
  split
  · exact keeps_forceReady
  · exact .refl w

theorem keeps_beginInstallation : Keeps w (w.beginInstallation reached).2 := by
  unfold beginInstallation
  dsimp only
  split
  · exact keeps_giveUp
  split
  · exact keeps_giveUp
  · exact keeps_setState _

theorem keeps_prepareInstallation : Keeps w (w.prepareInstallation now reached).2 := by
  unfold prepareInstallation
  split
  · exact .refl w
  split
  · exact .refl w
  split
  · exact keeps_forceReady
  have hkeeps : Keeps w (w.resolveCandidateSelection reached).2 := keeps_resolveCandidateSelection
  split
  · rename_i hresolve
    rw [hresolve] at hkeeps
    exact hkeeps
  · rename_i hresolve
    rw [hresolve] at hkeeps
    exact hkeeps.trans keeps_beginInstallation

theorem keeps_prepareFinalize : Keeps w (w.prepareFinalize now reached).2 := by
  unfold prepareFinalize
  split
  · exact keeps_forceReady
  split
  · exact keeps_forceReady
  have hkeeps : Keeps w (w.prepareInstallation now reached).2 := keeps_prepareInstallation
  split
  · rename_i hprepare
    rw [hprepare] at hkeeps
    exact hkeeps
  · rename_i hprepare
    rw [hprepare] at hkeeps
    exact hkeeps

theorem keeps_completeInstallation {version : Nat} {status} :
    Keeps w (w.completeInstallation reached version status) := by
  unfold completeInstallation
  split
  · exact .refl w
  split
  · exact (keeps_setState _).trans (.trans .modify_clear keeps_release)
  split
  · exact keeps_forceReady
  split
  · exact keeps_setState _
  · exact ((keeps_setState _).trans keeps_refreshSelection).trans .modify_other

end LockedContext

/-! ## The table of contexts -/

namespace TopologyRecoveryManager

/-- What a section can make of the contexts, short of accepting a payload. A context whose last
member leaves is dropped, except if `exempt` holds, and rounds only change if `clears` does. -/
inductive Moves (exempt clears : Prop) (m m' : TopologyRecoveryManager) : Prop
  | stay (hcontexts : m'.contexts = m.contexts)
      (hretained : m'.retainedCandidateBytes = m.retainedCandidateBytes)
      (hround : m'.activeRound = m.activeRound)
      (hnext : m'.nextContextGeneration = m.nextContextGeneration)
  | keep {clusterName : Bytes} {w w' : LockedContext} (hlock : m.lock clusterName = some w)
      (hkeeps : w.Keeps w') (hcontexts : m'.contexts = m.contexts.insert clusterName w'.context)
      (hretained : m'.retainedCandidateBytes = w'.retainedCandidateBytes)
      (hround : m'.activeRound = m.activeRound)
      (hnext : m'.nextContextGeneration = m.nextContextGeneration)
  | observe {clusterName : Bytes} {c c' : ClusterRecoveryContext}
      (hfind : m.contexts.find? clusterName = some c) (hgrows : c.Grows c')
      (hcontexts : m'.contexts = m.contexts.insert clusterName c')
      (hretained : m'.retainedCandidateBytes = m.retainedCandidateBytes)
      (hround : m'.activeRound = m.activeRound)
      (hnext : m'.nextContextGeneration = m.nextContextGeneration)
  | create {clusterName : Bytes} {c : ClusterRecoveryContext}
      (hfind : m.contexts.find? clusterName = none)
      (hgrows : ClusterRecoveryContext.Grows { generation := m.nextContextGeneration } c)
      (hcontexts : m'.contexts = m.contexts.insert clusterName c)
      (hretained : m'.retainedCandidateBytes = m.retainedCandidateBytes)
      (hround : m'.activeRound = m.activeRound)
      (hnext : m'.nextContextGeneration = m.nextContextGeneration + 1)
  | leave {clusterName address : Bytes} {w w' : LockedContext} (hlock : m.lock clusterName = some w)
      (hkeeps : (w.withoutMember address).Keeps w')
      (hmembers : w'.context.observedMembers ≠ ∅ ∨ exempt)
      (hcontexts : m'.contexts = m.contexts.insert clusterName w'.context)
      (hretained : m'.retainedCandidateBytes = w'.retainedCandidateBytes)
      (hround : m'.activeRound = m.activeRound)
      (hnext : m'.nextContextGeneration = m.nextContextGeneration)
  | drop {clusterName address : Bytes} {w w' : LockedContext} (hlock : m.lock clusterName = some w)
      (hkeeps : (w.withoutMember address).Keeps w')
      (hreleased : w'.context.selectedCanonicalTopology = none)
      (hcontexts : m'.contexts = m.contexts.erase clusterName)
      (hretained : m'.retainedCandidateBytes = w'.retainedCandidateBytes)
      (hround : m'.activeRound = m.activeRound)
      (hnext : m'.nextContextGeneration = m.nextContextGeneration)
  | clear (hclears : clears) (hcontexts : m'.contexts = .empty)
    (hretained : m'.retainedCandidateBytes = 0)
      (hnext : m'.nextContextGeneration = m.nextContextGeneration)

variable {exempt clears : Prop} {m m' : TopologyRecoveryManager} {clusterName : Bytes}
  {w w' : LockedContext}

theorem lock_eq_some : m.lock clusterName = some w ↔ m.contexts.find? clusterName = some w.context ∧
      w.retainedCandidateBytes = m.retainedCandidateBytes := by
  unfold lock
  constructor
  · intro h
    obtain ⟨_, hc, rfl⟩ := Option.map_eq_some_iff.mp h
    exact ⟨hc, rfl⟩
  · intro h
    rw [h.1, ← h.2]
    rfl

theorem Moves.refl (m) : Moves exempt clears m m := .stay rfl rfl rfl rfl

theorem moves_unlock (hlock : m.lock clusterName = some w) (hkeeps : w.Keeps w') :
    Moves exempt clears m (m.unlock clusterName w') := .keep hlock hkeeps rfl rfl rfl rfl

/-! ## Membership and rounds -/

variable {options : TopologyRecoveryOptions} {now : Nat} {v : PayloadValidation}

theorem removeMember_moves {address : Bytes}
    (hexempt : ∀ c, m.contexts.find? clusterName = some c → c.state = .installing →
      c.observedMembers.erase address = ∅ → exempt) :
    Moves exempt clears m (m.removeMember options now clusterName address) := by
  unfold removeMember
  split
  · exact .refl m
  rename_i w hlock
  dsimp only
  split
  · rename_i hinstalling
    have hmembers : (w.withoutMember address).context.observedMembers ≠ ∅ ∨ exempt := by
      by_cases hempty : w.context.observedMembers.erase address = ∅
      · exact .inr (hexempt _ (lock_eq_some.mp hlock).1 hinstalling hempty)
      · exact .inl hempty
    exact .leave hlock (.refl _) hmembers rfl rfl rfl rfl
  split
  · exact .drop hlock (keeps_settleRemoval.trans keeps_release) rfl rfl rfl
      rfl rfl
  · rename_i hmembers
    exact .leave hlock keeps_settleRemoval (.inl hmembers) rfl rfl rfl rfl

theorem ensureContext_eq_ok {fast} {c}
    (h : m.ensureContext options now clusterName fast = .ok (c, m')) :
    (m.contexts.find? clusterName = some c ∧ m' = m) ∨
      (m.contexts.find? clusterName = none ∧ ∃ deadline,
        c = { generation := m.nextContextGeneration, fastRecoveryDeadline := deadline } ∧
        m' = { m with
          contexts := m.contexts.insert clusterName c
          nextContextGeneration := m.nextContextGeneration + 1 }) := by
  unfold ensureContext at h
  split at h
  · rename_i hfind
    cases h
    exact .inl ⟨hfind, rfl⟩
  · rename_i hfind
    obtain ⟨_, -, h⟩ := bind_eq_ok.mp h
    cases h
    exact .inr ⟨hfind, _, rfl, rfl⟩

theorem updateMembership_moves {address : Bytes} {observation : MembershipObservation}
    (hexempt : observation = .removed → ∀ c, m.contexts.find? clusterName = some c →
      c.state = .installing → c.observedMembers.erase address = ∅ → exempt) :
    Moves exempt clears m (m.updateMembership options now clusterName address observation) := by
  unfold updateMembership
  split
  · exact .refl m
  split
  · rename_i hremove
    exact removeMember_moves (hexempt hremove)
  split
  · exact .refl m
  · rename_i c m' hensure
    have hgrows : c.Grows (observeMember options now c address observation) := by
      unfold observeMember
      split
      · have h : ClusterRecoveryContext.Grows { c with fastRecoveryDeadline := none }
            (addMember options now { c with fastRecoveryDeadline := none } address) :=
          addMember_grows _
        exact ⟨h.generation, h.members, h.nonempty, h.evidence, h.topology, h.digest, h.version⟩
      · exact addMember_grows c
    rcases ensureContext_eq_ok hensure with ⟨hfind, rfl⟩ | ⟨hfind, deadline, hc, rfl⟩
    · exact .observe hfind hgrows rfl rfl rfl rfl
    · refine .create hfind ⟨?_, Finset.empty_subset _, hgrows.nonempty, ?_, ?_, ?_, ?_⟩
        (OrderedMap.insert_insert _ _ _ _) rfl rfl rfl
      · rw [hgrows.generation, hc]
      · rw [hgrows.evidence, hc]
      · rw [hgrows.topology, hc]
      · rw [hgrows.digest, hc]
      · rw [hgrows.version, hc]

theorem beginLeaderRound_moves {coordinatorId} {identity} {timeout : Int} (hclears : clears) :
    Moves exempt clears m (m.beginLeaderRound coordinatorId now identity timeout) := by
  unfold beginLeaderRound
  split
  · exact .refl m
  · exact .clear hclears rfl rfl rfl

theorem endLeaderRound_moves {identity} (hclears : clears) :
    Moves exempt clears m (m.endLeaderRound identity) := by
  unfold endLeaderRound
  split
  · exact .clear hclears rfl rfl rfl
  · exact .refl m

/-! ## Reports -/

variable {options : TopologyRecoveryOptions} {now : Nat} {identity : TopologyRecoveryRoundIdentity}
  {report : TopologyRecoveryCandidateReport} {decision decision' : TopologyRecoveryReportDecision}

theorem admitReport_moves {goesOn}
    (h : m.admitReport options clusterName identity report = .ok (decision, goesOn, m')) :
    Moves exempt clears m m' ∧ m'.admittedReportBytes = m.admittedReportBytes := by
  obtain ⟨_, -, h⟩ := bind_eq_ok.mp h
  split at h
  · cases h
    exact ⟨.refl m, rfl⟩
  split at h
  · cases h
    exact ⟨.refl m, rfl⟩
  rename_i w hlock
  split at h
  · obtain ⟨_, -, h⟩ := bind_eq_ok.mp h
    cases h
    exact ⟨.refl m, rfl⟩
  · cases h
    exact ⟨moves_unlock hlock .modify_other, rfl⟩

theorem recordEvidence_moves {schedule}
    (h : m.recordEvidence options now clusterName identity report decision =
      .ok (decision', schedule, m')) :
    Moves exempt clears m m' ∧ m'.admittedReportBytes = m.admittedReportBytes := by
  obtain ⟨_, -, h⟩ := bind_eq_ok.mp h
  obtain ⟨_, -, h⟩ := bind_eq_ok.mp h
  split at h
  · cases h
  rename_i w hlock
  obtain ⟨⟨_, _, _⟩, hupdate, h⟩ := bind_eq_ok.mp h
  cases h
  exact ⟨moves_unlock hlock (keeps_updateEvidence hupdate), rfl⟩

/-- A payload whose validation is to start was admitted within the limit. -/
theorem checkPayload_eq_some
    (h : m.checkPayload options clusterName identity report = .ok (some w)) :
    m.lock clusterName = some w ∧ m.isCurrentRound identity ∧
      hasCapacity (addSize m.admittedReportBytes m.retainedCandidateBytes)
        report.canonicalTopology.length options.maxCandidateMemoryBytes := by
  obtain ⟨_, -, h⟩ := bind_eq_ok.mp h
  obtain ⟨hround, h⟩ := check_bind_eq_ok.mp h
  split at h
  · cases h
  rename_i w' hlock
  split at h
  · obtain ⟨_, -, h⟩ := bind_eq_ok.mp h
    cases h
  · obtain ⟨_, -, h⟩ := bind_eq_ok.mp h
    obtain ⟨_, -, h⟩ := bind_eq_ok.mp h
    obtain ⟨hcapacity, h⟩ := check_bind_eq_ok.mp h
    cases h
    exact ⟨hlock, hround, hcapacity.2⟩

/-- The contexts after a submission, whatever comes of it. -/
theorem submitPayload_moves {refused} :
    Moves exempt clears m (m.submitPayload options clusterName identity report refused).2 := by
  unfold submitPayload
  split
  · exact .refl m
  · exact .refl m
  rename_i w hcheck
  have hlock := (checkPayload_eq_some hcheck).1
  split
  · exact .keep hlock .modify_other rfl rfl rfl rfl
  · exact .keep hlock .modify_other (OrderedMap.insert_insert _ _ _ _) rfl rfl rfl

theorem lockAdmitted_eq_some (h : m.lockAdmitted v = some w') :
    ∃ w, m.lock v.clusterName = some w ∧ w.context.generation = v.contextGeneration ∧
      w.Keeps w' := by
  obtain ⟨w, hfilter, rfl⟩ := Option.map_eq_some_iff.mp h
  obtain ⟨hlock, hgeneration⟩ := Option.filter_eq_some_iff.mp hfilter
  exact ⟨w, hlock, of_decide_eq_true hgeneration, .modify_other⟩

theorem rejectPayload_moves {status} : Moves exempt clears m (m.rejectPayload v status).2 := by
  unfold rejectPayload
  dsimp only
  split
  · exact .stay rfl rfl rfl rfl
  split
  · exact .stay rfl rfl rfl rfl
  · rename_i w' hadmitted
    obtain ⟨_, hlock, -, hkeeps⟩ := lockAdmitted_eq_some hadmitted
    exact .keep hlock (hkeeps.trans keeps_denyPayload) rfl rfl rfl rfl

/-- A recorded payload is taken over into the context it was admitted for, or the contexts do
not gain one. -/
theorem recordPayload_cases (h : (m.recordPayload v).2 = m') :
    Moves exempt clears m m' ∨ ∃ w w', m.lock v.clusterName = some w ∧
      w.context.generation = v.contextGeneration ∧ m.isCurrentRound v.identity ∧ w.Keeps w' ∧
      v.report.reporterAddress ∈ w'.context.observedMembers ∧
      m' = (m.completePayload v.payloadBytes).unlock v.clusterName (w'.retainPayload v.report) := by
  unfold recordPayload at h
  dsimp only at h
  split at h
  · subst h
    exact .inl (.stay rfl rfl rfl rfl)
  rename_i hround
  split at h
  · subst h
    exact .inl (.stay rfl rfl rfl rfl)
  rename_i admitted hadmitted
  obtain ⟨w, hlock, hgeneration, hkeeps⟩ := lockAdmitted_eq_some hadmitted
  split at h
  · subst h
    exact .inl (.keep hlock hkeeps rfl rfl rfl rfl)
  rename_i accepted haccept
  obtain ⟨hmembers, hcases⟩ := acceptPayload_cases haccept
  have href := hkeeps.trans (keeps_refreshSelection (w := admitted))
  rcases hcases with rfl | rfl
  · subst h
    exact .inl (.keep hlock href rfl rfl rfl rfl)
  · refine .inr ⟨w, admitted.refreshSelection, hlock, hgeneration, by simpa using hround, href,
      ?_, h.symm⟩
    rw [keeps_refreshSelection.observed]
    exact hmembers

/-! ## Reconciliation -/

theorem withContext_moves {otherwise} {body} (hbody : ∀ w : LockedContext, w.Keeps (body w).2) :
    Moves exempt clears m (m.withContext clusterName identity otherwise body).2 := by
  unfold withContext
  split
  · exact .refl m
  split
  · exact .refl m
  · rename_i w hlock
    exact moves_unlock hlock (hbody w)

theorem withContext_admitted {otherwise} {body} :
    (m.withContext clusterName identity otherwise body).2.admittedReportBytes =
      m.admittedReportBytes := by
  unfold withContext
  split
  · rfl
  split
  · rfl
  · rfl

theorem scheduleReconcile_moves {accepted} :
    Moves exempt clears m (m.scheduleReconcile options now clusterName accepted).2 := by
  unfold scheduleReconcile
  split
  · rename_i hlock
    split
    · exact .refl m
    split
    · exact .keep hlock .modify_other rfl rfl rfl rfl
    · exact moves_unlock hlock .modify_other
  · exact .refl m

theorem finishReconcile_moves : Moves exempt clears m (m.finishReconcile clusterName identity) := by
  unfold finishReconcile withContext
  split
  · exact .stay rfl rfl rfl rfl
  split
  · exact .stay rfl rfl rfl rfl
  · rename_i w hlock
    exact .keep hlock .modify_other rfl rfl rfl rfl

end TopologyRecoveryManager

end Datasystem.Coordinator
