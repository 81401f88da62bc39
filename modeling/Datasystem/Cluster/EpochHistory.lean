import Datasystem.Cluster.BatchDerivation
import Datasystem.Cluster.TopologyRoundTrip

/-! The topology key and the controllers that race for it. A compare-and-swap is one
atomic step on the stored value; when it conflicts or its answer is lost, the
controller reads the key once more to learn what became of its candidate. -/

namespace Datasystem.Cluster

open Common Lib.Checked TopologyController TopologyRepositoryCodec

inductive TopologyCasOutcome
  | committed
  | conflict
  | unknown
deriving DecidableEq

structure TopologyCasResult where
  outcome : TopologyCasOutcome
  observed : Option TopologyState := none

namespace TopologyRepository

/-- The checks before the backend is called, with the bytes to write. -/
def prepareSwap (expectedVersion : Nat) (desired : TopologyState) : Result ClusterTopologyPb := do
  checkFailReturnStatus (desired.version = expectedVersion + 1) .kInvalid
    "topology CAS version must advance"
  encodeTopology desired

/-- The process function: the value to write, or nothing on a conflict. An absent key has the
empty value, which is not a topology. -/
def swapProcess (expectedVersion : Nat) (desiredBytes : ClusterTopologyPb)
    (current : Option ClusterTopologyPb) : Option ClusterTopologyPb :=
  match current with
  | none => if expectedVersion = 0 then some desiredBytes else none
  | some bytes =>
    match decodeTopology bytes with
    | .ok observed => if observed.version = expectedVersion then some desiredBytes else none
    | .error _ => none

/-- What the read behind a conflict or a lost answer tells. -/
def readBack (desired : TopologyState) (desiredBytes : ClusterTopologyPb) (swapped : Result Unit)
    (read : Result ClusterTopologyPb) : Result TopologyCasResult :=
  match read, swapped with
  | .ok bytes, _ => do
    let observed ← decodeTopology bytes
    if bytes = desiredBytes then pure ⟨.committed, some observed⟩
    else do
      checkFailReturnStatus (observed.version ≠ desired.version) .kInvalid
        "same topology version has different canonical bytes"
      pure ⟨.conflict, some observed⟩
  | .error _, .error e => .error e
  | .error e, .ok _ => .error e

end TopologyRepository

open TopologyRepository

/-- A swap that still has to be read back. -/
structure PendingSwap where
  desired : TopologyState
  bytes : ClusterTopologyPb
  swapped : Result Unit

/-- The stored topology and the controllers, with the history of what was committed. -/
structure ControlPlane (Controller : Type) where
  /-- The value of the topology key, none while it is absent. -/
  stored : Option ClusterTopologyPb
  /-- The topologies committed so far, as readers decode them, latest first. -/
  history : List TopologyState
  /-- What each controller has read last. -/
  view : Controller → Option TopologyState
  pending : Controller → Option PendingSwap
  /-- Candidates that some controller was told to be committed. -/
  acknowledged : List TopologyState

namespace ControlPlane

variable {Controller : Type} [DecidableEq Controller]

def init : ControlPlane Controller := ⟨none, [], fun _ => none, fun _ => none, []⟩

/-- A candidate a controller may swap in: the first topology, or one built on its last read. -/
inductive Candidate (source : MembershipSource) (view : Option TopologyState) :
    (expectedVersion : Nat) → (desired : TopologyState) → Prop
  /-- `EnsureTopologyAuthority`. -/
  | authority : Candidate source view 0 emptyTopology
  | transition {options latest desired} (hview : view = some latest)
      (h : Transition source options latest desired) :
      Candidate source view latest.version desired

/-- The swap of one candidate. `reached` says whether the backend carried it out, `swapped` is
what it answered. -/
def swap (p : ControlPlane Controller) (c : Controller) (expectedVersion : Nat)
    (desired : TopologyState) (bytes : ClusterTopologyPb) (reached : Bool) (swapped : Result Unit) :
    ControlPlane Controller :=
  let written := if reached then swapProcess expectedVersion bytes p.stored else none
  let answered := written.isSome && swapped.isOk
  { p with
    stored := written.or p.stored
    history := if written.isSome then canonicalize desired :: p.history else p.history
    pending := if answered then p.pending
      else Function.update p.pending c (some ⟨desired, bytes, swapped⟩)
    acknowledged := if answered then desired :: p.acknowledged else p.acknowledged }

/-- One step of the control plane. -/
inductive Step (source : MembershipSource) (p : ControlPlane Controller) :
    ControlPlane Controller → Prop
  | read (c : Controller) {bytes : ClusterTopologyPb} {s : TopologyState}
      (hstored : p.stored = some bytes) (h : decodeTopology bytes = .ok s) :
      Step source p { p with view := Function.update p.view c (some s) }
  | swap (c : Controller) (reached : Bool) (swapped : Result Unit) {expectedVersion : Nat}
      {desired : TopologyState} {bytes : ClusterTopologyPb}
      (hidle : p.pending c = none)
      (hcandidate : Candidate source (p.view c) expectedVersion desired)
      (hprepare : prepareSwap expectedVersion desired = .ok bytes)
      -- the backend answers success only for a swap it carried out
      (hreached : swapped = .ok () → reached) :
      Step source p (p.swap c expectedVersion desired bytes reached swapped)
  | readBack (c : Controller) {pending : PendingSwap} {read : Result ClusterTopologyPb}
      {result : TopologyCasResult} (hpending : p.pending c = some pending)
      (hread : ∀ bytes, read = .ok bytes → p.stored = some bytes)
      (h : readBack pending.desired pending.bytes pending.swapped read = .ok result) :
      Step source p
        { p with
          pending := Function.update p.pending c none
          acknowledged := if result.outcome = .committed then pending.desired :: p.acknowledged
            else p.acknowledged }
  /-- The read fails or shows something else under the same version. -/
  | readBackFailed (c : Controller) {pending : PendingSwap}
    (hpending : p.pending c = some pending) :
      Step source p { p with pending := Function.update p.pending c none }

end ControlPlane

/-! The history of the topology key. Commits form one chain in which the version
counts up, and an epoch names one batch for good. -/

open Lib Checked Sorting HashAlgorithm TopologyPlanBuilder
open List ControlPlane
open TopologyRepository TopologyRepositoryCodec

/-! ## What a commit does to the batch -/

theorem Commit.version {source} {s s'}
    (h : Commit source s s') (hw : WellFormed source s) : s'.version = s.version + 1 := by
  obtain ⟨_, htransition, -, -⟩ := h
  exact (htransition.evolution hw).version

theorem Commit.batch {source} {s s'} (h : Commit source s s') (hw : WellFormed source s) :
    SameBatch s s' ∨ FreshEpoch s'.version s' := by
  have hversion := h.version hw
  obtain ⟨_, htransition, -, -⟩ := h
  rw [hversion]
  rcases (htransition.evolution hw).steady with hsteady | hfresh
  · exact .inl hsteady.of_canonicalize.sameBatch
  · exact .inr hfresh

/-! ## Chains of commits -/

/-- Topologies committed one on top of the other, latest first. -/
inductive Committed (source : MembershipSource) : List TopologyState → Prop
  | nil : Committed source []
  | first : Committed source [emptyTopology]
  | commit {s s' : TopologyState} {older : List TopologyState}
      (h : Committed source (s :: older)) (hc : Commit source s s') :
      Committed source (s' :: s :: older)

section

variable {source : MembershipSource} {history : List TopologyState}

variable {s s' : TopologyState}

theorem Committed.tail (h : Committed source (s :: history)) : Committed source history := by
  cases h with
  | first => exact .nil
  | commit h _ => exact h

theorem Committed.suffix {newer} (h : Committed source (newer ++ history)) :
    Committed source history := by
  induction newer with
  | nil => exact h
  | cons _ _ ih => exact ih h.tail

theorem Committed.reachable_head (h : Committed source (s :: history)) : Reachable source s := by
  generalize hl : s :: history = l at h
  induction h generalizing s history with
  | nil => cases hl
  | first =>
    obtain ⟨rfl, -⟩ := List.cons.inj hl
    exact .refl
  | commit _ hc ih =>
    obtain ⟨rfl, -⟩ := List.cons.inj hl
    exact (ih rfl).tail hc

theorem Committed.reachable (h : Committed source history)
    (hs : s ∈ history) : Reachable source s := by
  induction history with
  | nil => cases hs
  | cons _ _ ih =>
    rcases mem_cons.mp hs with rfl | hs
    · exact h.reachable_head
    · exact ih h.tail hs

theorem Committed.version_head (h : Committed source (s :: history)) :
    s.version = history.length + 1 := by
  generalize hl : s :: history = l at h
  induction h generalizing s history with
  | nil => cases hl
  | first =>
    obtain ⟨rfl, rfl⟩ := List.cons.inj hl
    rfl
  | commit hprev hc ih =>
    obtain ⟨rfl, rfl⟩ := List.cons.inj hl
    rw [hc.version hprev.reachable_head.wellFormed, ih rfl, length_cons]

theorem Committed.version_lt (h : Committed source history)
    (hs : s ∈ history) : s.version ≤ history.length := by
  induction history with
  | nil => cases hs
  | cons _ _ ih =>
    rcases mem_cons.mp hs with rfl | hs
    · exact Nat.le_of_eq h.version_head
    · exact Nat.le_succ_of_le (ih h.tail hs)

theorem Committed.eq_head (h : Committed source (s :: history))
    (hs' : s' ∈ s :: history) (hversion : s'.version = s.version) : s' = s := by
  rcases mem_cons.mp hs' with rfl | hold
  · rfl
  · have hle := h.tail.version_lt hold
    have hhead := h.version_head
    omega

theorem Committed.isChain (h : Committed source history) :
    history.IsChain fun s' s => s'.version = s.version + 1 := by
  induction h with
  | nil => exact .nil
  | first => exact .singleton _
  | commit hprev hc ih =>
    exact isChain_cons_cons.mpr ⟨hc.version hprev.reachable_head.wellFormed, ih⟩

theorem Committed.epoch_le (h : Committed source history) (hs : s ∈ history)
    {b} (hb : s.activeBatch = some b) : b.epoch ≤ s.version :=
  ((h.reachable hs).wellFormed.epoch b hb).2

/-- A batch started by the latest commit has an epoch beyond all earlier ones. -/
theorem Committed.fresh_epoch (h : Committed source (s :: history))
    (hfresh : FreshEpoch s.version s) {b b'} (hb : s.activeBatch = some b)
    (hs' : s' ∈ history) (hb' : s'.activeBatch = some b') :
    b'.epoch < b.epoch := by
  have hepoch := hfresh b hb
  have hle := h.tail.epoch_le hs' hb'
  have hversion := h.tail.version_lt hs'
  have hhead := h.version_head
  omega

/-- Equal epochs mean the same type of batch and the same participants. -/
def EpochNamesBatch (s s' : TopologyState) : Prop :=
  ∀ b ∈ s.activeBatch, ∀ b' ∈ s'.activeBatch, b.epoch = b'.epoch →
    b.type = b'.type ∧ SameParticipants b.type s s'

theorem EpochNamesBatch.symm (h : EpochNamesBatch s s') : EpochNamesBatch s' s := by
  intro b hb b' hb' he
  obtain ⟨ht, hp⟩ := h b' hb' b hb he.symm
  exact ⟨ht.symm, fun i => (ht ▸ hp i).symm⟩

theorem epochNamesBatch_self (s) : EpochNamesBatch s s := by
  intro b hb b' hb' _
  obtain rfl := Option.some.inj (hb.symm.trans hb')
  exact ⟨rfl, fun _ => Iff.rfl⟩

/-- Whatever is named by an epoch of the batch that goes on is named by it afterwards. -/
theorem EpochNamesBatch.of_sameBatch {t} (h : EpochNamesBatch s t)
    (hsame : SameBatch s s') : EpochNamesBatch s' t := by
  intro b hb b' hb' he
  rw [hsame.1] at hb
  obtain ⟨ht, hp⟩ := h b hb b' hb' he
  exact ⟨ht, fun i => (hsame.2 b hb i).symm.trans (hp i)⟩

/-- **An epoch names one batch for good.** -/
theorem Committed.epochNamesBatch (h : Committed source history) :
    ∀ s ∈ history, ∀ s' ∈ history, EpochNamesBatch s s' := by
  induction h with
  | nil => simp
  | first => simpa using epochNamesBatch_self emptyTopology
  | commit hprev hc ih =>
    rename_i s s' older
    -- the new state against an earlier one; the other cases are old, symmetric or trivial
    have hnew : ∀ t ∈ s :: older, EpochNamesBatch s' t := by
      intro t ht
      rcases hc.batch hprev.reachable_head.wellFormed with hsame | hfresh
      · exact (ih s mem_cons_self t ht).of_sameBatch hsame
      · intro b hb b' hb' he
        have hlt := (Committed.commit hprev hc).fresh_epoch hfresh hb ht hb'
        omega
    intro a ha b hb
    rcases mem_cons.mp ha with rfl | hold
    · rcases mem_cons.mp hb with rfl | hbold
      · exact epochNamesBatch_self _
      · exact hnew b hbold
    · rcases mem_cons.mp hb with rfl | hbold
      · exact (hnew a hold).symm
      · exact ih a hold b hbold

end

/-! ## The race for the key -/

section

variable {source : MembershipSource} {Controller : Type} {p p' : ControlPlane Controller}

/-- What holds whatever the controllers do: the key stores the latest of a chain of commits, and
nobody has seen or been told anything else. -/
structure ControlPlane.Consistent (source : MembershipSource) (p : ControlPlane Controller) :
    Prop where
  committed : Committed source p.history
  stored : p.stored = p.history.head?.map topologyPb
  encoded : ∀ s ∈ p.history.head?, encodeTopology s = .ok (topologyPb s)
  view : ∀ c s, p.view c = some s → s ∈ p.history
  pending : ∀ c q, p.pending c = some q → encodeTopology q.desired = .ok q.bytes
  acknowledged : ∀ s ∈ p.acknowledged, canonicalize s ∈ p.history

theorem ControlPlane.consistent_init : (init : ControlPlane Controller).Consistent source where
  committed := .nil
  stored := rfl
  encoded := by simp [init]
  view := by simp [init]
  pending := by simp [init]
  acknowledged := by simp [init]

namespace ControlPlane.Consistent

theorem decode_stored (h : p.Consistent source) {bytes} {s}
    (hstored : p.stored = some bytes) (hs : decodeTopology bytes = .ok s) :
    p.history.head? = some s := by
  rw [h.stored] at hstored
  obtain ⟨latest, hlatest, rfl⟩ := Option.map_eq_some_iff.mp hstored
  have hmem : latest ∈ p.history := mem_of_mem_head? hlatest
  rw [hlatest, eq_canonicalize_of_decode (h.encoded latest hlatest) hs,
    canonicalize_of_sorted (h.committed.reachable hmem).sorted]

end ControlPlane.Consistent

variable {latest desired : TopologyState} {bytes : ClusterTopologyPb}

/-- A swap that writes continues the chain of commits. -/
theorem ControlPlane.Consistent.extend (h : p.Consistent source) {c}
    {expectedVersion : Nat} {written}
    (hcandidate : Candidate source (p.view c) expectedVersion desired)
    (hprepare : prepareSwap expectedVersion desired = .ok bytes)
    (hwritten : swapProcess expectedVersion bytes p.stored = some written) :
    written = bytes ∧ Committed source (canonicalize desired :: p.history) := by
  obtain ⟨_, -, hencode⟩ := bind_eq_ok.mp hprepare
  unfold swapProcess at hwritten
  split at hwritten
  · -- the key is absent, so this is the first topology
    rename_i hstored
    rw [h.stored] at hstored
    have hempty : p.history = [] := by simpa using hstored
    split at hwritten
    · refine ⟨(Option.some.inj hwritten).symm, ?_⟩
      cases hcandidate with
      | authority =>
        rw [hempty]
        exact .first
      | transition hview _ =>
        have hmem := h.view c _ hview
        rw [hempty] at hmem
        cases hmem
    · cases hwritten
  · rename_i current hstored
    split at hwritten
    · rename_i observed hobserved
      split at hwritten
      · rename_i hversion
        refine ⟨(Option.some.inj hwritten).symm, ?_⟩
        have hhead := h.decode_stored hstored hobserved
        obtain ⟨older, hhistory⟩ : ∃ older, p.history = observed :: older := by
          cases hl : p.history with
          | nil => simp [hl] at hhead
          | cons _ older => exact ⟨older, by simpa [hl] using hhead⟩
        have hcommit := h.committed
        rw [hhistory] at hcommit ⊢
        cases hcandidate with
        | authority =>
          have hpos := hcommit.version_head
          omega
        | transition hview htransition =>
          -- the versions agree, so the controller has read the latest topology
          have hmem := h.view c _ hview
          rw [hhistory] at hmem
          obtain rfl := hcommit.eq_head hmem hversion.symm
          obtain ⟨hfits, -, -⟩ := encodeTopology_eq_ok.mp hencode
          exact .commit hcommit (.mk _ htransition hfits.valid.version.2 fun m hm =>
            (hfits.valid.members.address m hm).2.1)
      · cases hwritten
    · cases hwritten

theorem ControlPlane.Consistent.readBack_committed (h : p.Consistent source) {q : PendingSwap}
    (hq : encodeTopology q.desired = .ok q.bytes) {read : Result ClusterTopologyPb}
    (hread : ∀ bytes, read = .ok bytes → p.stored = some bytes) {result : TopologyCasResult}
    (hresult : readBack q.desired q.bytes q.swapped read = .ok result)
    (hcommitted : result.outcome = .committed) : canonicalize q.desired ∈ p.history := by
  cases read with
  | error => cases hswapped : q.swapped <;> simp [readBack, hswapped] at hresult
  | ok bytes =>
    obtain ⟨observed, hobserved, hresult⟩ := bind_eq_ok.mp hresult
    split at hresult
    · rename_i heq
      have hhead := h.decode_stored (hread bytes rfl) hobserved
      rw [heq] at hobserved
      rw [← eq_canonicalize_of_decode hq hobserved]
      exact mem_of_mem_head? hhead
    · obtain ⟨_, -, hresult⟩ := bind_eq_ok.mp hresult
      rw [← pure_eq_ok.mp hresult] at hcommitted
      cases hcommitted

variable [DecidableEq Controller]

theorem ControlPlane.Consistent.swap (h : p.Consistent source) {c} {expectedVersion : Nat} {reached}
    (swapped) (hcandidate : Candidate source (p.view c) expectedVersion desired)
    (hprepare : prepareSwap expectedVersion desired = .ok bytes) :
    (p.swap c expectedVersion desired bytes reached swapped).Consistent source := by
  obtain ⟨_, -, hencode⟩ := bind_eq_ok.mp hprepare
  have hpending : ∀ c' q, Function.update p.pending c (some ⟨desired, bytes, swapped⟩) c' = some q →
      encodeTopology q.desired = .ok q.bytes := by
    intro c' q hq
    by_cases hc : c' = c
    · subst hc
      rw [Function.update_self] at hq
      obtain rfl := Option.some.inj hq
      exact hencode
    · rw [Function.update_of_ne hc] at hq
      exact h.pending c' q hq
  unfold ControlPlane.swap
  cases hwritten : if reached then swapProcess expectedVersion bytes p.stored else none with
  | none =>
    exact
      { committed := h.committed
        stored := h.stored
        encoded := h.encoded
        view := h.view
        pending := hpending
        acknowledged := h.acknowledged }
  | some written =>
    have hwritten : swapProcess expectedVersion bytes p.stored = some written := by
      split at hwritten
      · exact hwritten
      · cases hwritten
    obtain ⟨rfl, hcommitted⟩ := h.extend hcandidate hprepare hwritten
    obtain ⟨hfits, hsize, rfl⟩ := encodeTopology_eq_ok.mp hencode
    have hidem := canonicalize_idem hfits.valid.members
    have hcanonicalize :=
      encodeTopology_eq_ok.mpr ⟨hfits.canonicalize, by rwa [hidem], by rw [hidem]⟩
    refine
      { committed := hcommitted
        stored := rfl
        encoded := fun s hs => Option.some.inj hs ▸ hcanonicalize
        view := fun c' s hs => mem_cons_of_mem _ (h.view c' s hs)
        pending := fun c' q hq => ?_
        acknowledged := fun s hs => ?_ }
    · dsimp only at hq
      split at hq
      · exact h.pending c' q hq
      · exact hpending c' q hq
    · dsimp only at hs
      split at hs
      · rcases mem_cons.mp hs with rfl | hs
        · exact mem_cons_self
        · exact mem_cons_of_mem _ (h.acknowledged s hs)
      · exact mem_cons_of_mem _ (h.acknowledged s hs)

theorem ControlPlane.Step.consistent (hstep : ControlPlane.Step source p p')
    (h : p.Consistent source) : p'.Consistent source := by
  have hcleared : ∀ c c' q, Function.update p.pending c none c' = some q →
      encodeTopology q.desired = .ok q.bytes := by
    intro c c' q hq
    by_cases hc : c' = c
    · subst hc
      rw [Function.update_self] at hq
      cases hq
    · rw [Function.update_of_ne hc] at hq
      exact h.pending c' q hq
  cases hstep with
  | read c hstored hs =>
    refine { h with view := fun c' s' hs' => ?_ }
    by_cases hc : c' = c
    · subst hc
      dsimp only at hs'
      rw [Function.update_self] at hs'
      obtain rfl := Option.some.inj hs'
      exact mem_of_mem_head? (h.decode_stored hstored hs)
    · dsimp only at hs'
      rw [Function.update_of_ne hc] at hs'
      exact h.view c' s' hs'
  | swap _ _ swapped _ hcanonical hprepare =>
    exact h.swap swapped hcanonical hprepare
  | readBack c hpending hread hresult =>
    refine { h with pending := hcleared c, acknowledged := fun s hs => ?_ }
    split at hs
    · rename_i hcommitted
      rcases mem_cons.mp hs with rfl | hs
      · exact h.readBack_committed (h.pending c _ hpending) hread hresult hcommitted
      · exact h.acknowledged s hs
    · exact h.acknowledged s hs
  | readBackFailed c _ => exact { h with pending := hcleared c }

/-- Runs of the control plane from the absent key. -/
def ControlPlane.Run (source : MembershipSource) (p : ControlPlane Controller) : Prop :=
  Relation.ReflTransGen (ControlPlane.Step source) .init p

theorem ControlPlane.Run.consistent (h : p.Run source) : p.Consistent source := by
  induction h with
  | refl => exact consistent_init
  | tail _ hstep ih => exact hstep.consistent ih

theorem WellFormed.fits (h : WellFormed source s)
    (htokens : tokenCount s.members ≤ maxTopologyTokens) : Fits s where
  valid := h.validTopology
  storable m hm := by
    unfold Storable
    split
    · exact h.populated.blank m hm ‹_›
    · exact h.populated.placed m hm ‹_›
  tokens := htokens

/-- A controller that waits for nothing can carry through any commit that fits the store. -/
theorem ControlPlane.Run.commit {c} {s'} (h : p.Run source) (hidle : p.pending c = none)
    (hhead : p.history.head? = some s) (hmembers : s.members.length ≤ maxTopologyMembers)
    (hc : Commit source s s') (htokens : tokenCount s'.members ≤ maxTopologyTokens)
    (hsize : (topologyPb s').byteSize ≤ maxValueBytes) :
    ∃ q : ControlPlane Controller, q.Run source ∧ q.history = s' :: p.history ∧
      q.pending c = none := by
  have hconsistent := h.consistent
  have hreachable := hconsistent.committed.reachable (mem_of_mem_head? hhead)
  have hversion := hc.version hreachable.wellFormed
  obtain ⟨options, htransition, hmax, haddresses⟩ := hc
  rename_i next
  have hstored : p.stored = some (topologyPb s) := by
    rw [hconsistent.stored, hhead, Option.map_some]
  have hdecode : decodeTopology (topologyPb s) = .ok s := by
    obtain ⟨hfits, hfitting, -⟩ := encodeTopology_eq_ok.mp (hconsistent.encoded s hhead)
    rw [canonicalize_of_sorted hreachable.sorted] at hfitting
    exact decodeTopology_topologyPb hfits hreachable.sorted hfitting hmembers
  have hencode : encodeTopology next = .ok (topologyPb (canonicalize next)) := by
    have hperm : (canonicalize next).members.Perm next.members := sortBy_perm _ _
    have hwell := (htransition.evolution hreachable.wellFormed).wellFormed hreachable.wellFormed
      hmax haddresses
    exact encodeTopology_eq_ok.mpr ⟨hwell.fits (tokenCount_perm hperm ▸ htokens), hsize, rfl⟩
  have hprepare : prepareSwap s.version next = .ok (topologyPb (canonicalize next)) :=
    bind_eq_ok.mpr ⟨(), check_of hversion, hencode⟩
  have hread : ControlPlane.Run source { p with view := Function.update p.view c (some s) } :=
    h.tail (.read c hstored hdecode)
  refine ⟨_, hread.tail (.swap c true (.ok ()) hidle
    (.transition (Function.update_self c (some s) p.view) htransition) hprepare fun _ => rfl), ?_⟩
  have hswap : swapProcess s.version (topologyPb (canonicalize next)) p.stored =
      some (topologyPb (canonicalize next)) := by simp [swapProcess, hstored, hdecode]
  simp [ControlPlane.swap, hswap, hidle, Except.isOk, Except.toBool]

/-! ## Batches that are started, replanned or resumed -/

/-- The candidates that start, replan or resume a batch on top of `latest`. -/
inductive StartsBatch (latest : TopologyState) : TopologyState → Prop
  | scaleOutStart {options participants next}
      (h : commitBatchStart options latest participants .scaleOut false = .ok next) :
      StartsBatch latest next
  | scaleInStart {options participants next}
      (h : commitBatchStart options latest participants .scaleIn false = .ok next) :
      StartsBatch latest next
  | scaleOutExhaustion {failedJoining next}
      (h : commitScaleOutExhaustion latest failedJoining = .ok next) : StartsBatch latest next
  | confirmedFailures {maxMembers classification next}
      (h : commitConfirmedFailures maxMembers latest classification = .ok (some next)) :
      StartsBatch latest next
  /-- Members that were joining are gone, so the scale-out or failure is replanned. -/
  | cleanupReplan {classification next}
      (hbatch : ∃ b ∈ latest.activeBatch, b.type = .scaleOut ∨ b.type = .failure)
      (hjoining : classification.removeJoining ≠ [])
      (h : commitUncommittedCleanup latest classification = .ok (some next)) :
      StartsBatch latest next
  | failureFinal {next} (h : buildFailureFinal latest = .ok next) : StartsBatch latest next

theorem buildScaleOutReplan_fresh {failedJoining}
    {plan} (h : buildScaleOutReplan latest failedJoining = .ok plan) :
    FreshEpoch (latest.version + 1) plan.next := by
  obtain ⟨_, -, h⟩ := bind_eq_ok.mp h
  obtain ⟨_, -, h⟩ := bind_eq_ok.mp h
  dsimp only at h
  split at h
  · obtain ⟨built, -, h⟩ := bind_eq_ok.mp h
    rw [← pure_eq_ok.mp h]
    simp [FreshEpoch, advanceEpoch]
  · rw [← pure_eq_ok.mp h]
    simp [FreshEpoch]

theorem buildFailureStartOrReplan_fresh {confirmed}
    {plan} (h : buildFailureStartOrReplan latest confirmed = .ok plan) :
    FreshEpoch (latest.version + 1) plan.next := by
  obtain ⟨_, -, h⟩ := bind_eq_ok.mp h
  obtain ⟨_, -, h⟩ := bind_eq_ok.mp h
  dsimp only at h
  split at h
  · obtain ⟨built, -, h⟩ := bind_eq_ok.mp h
    rw [← pure_eq_ok.mp h]
    simp [FreshEpoch, advanceEpoch]
  · rw [← pure_eq_ok.mp h]
    simp [FreshEpoch, advanceEpoch]

theorem prepareBatchStartState_version (options) (latest) (participants)
    (type : TopologyChangeType) :
    (prepareBatchStartState options latest participants type).version = latest.version := by
  unfold prepareBatchStartState
  split
  · rfl
  · cases type <;> rfl

/-- The batch of such a candidate carries the version it is committed at as its epoch. -/
theorem StartsBatch.fresh {next} (h : StartsBatch latest next) :
    FreshEpoch (latest.version + 1) next := by
  cases h with
  | scaleOutStart h =>
    obtain ⟨plan, hplan, h⟩ := bind_eq_ok.mp h
    obtain rfl := pure_eq_ok.mp h
    obtain ⟨_, -, hplan⟩ := bind_eq_ok.mp hplan
    obtain ⟨_, -, hplan⟩ := bind_eq_ok.mp hplan
    obtain ⟨built, -, hplan⟩ := bind_eq_ok.mp hplan
    obtain ⟨_, -, hplan⟩ := bind_eq_ok.mp hplan
    rw [← pure_eq_ok.mp hplan]
    simp [FreshEpoch, advanceEpoch, prepareBatchStartState_version]
  | scaleInStart h =>
    obtain ⟨plan, hplan, h⟩ := bind_eq_ok.mp h
    obtain rfl := pure_eq_ok.mp h
    obtain ⟨_, -, hplan⟩ := bind_eq_ok.mp hplan
    obtain ⟨_, -, hplan⟩ := bind_eq_ok.mp hplan
    obtain ⟨built, -, hplan⟩ := bind_eq_ok.mp hplan
    rw [← pure_eq_ok.mp hplan]
    simp [FreshEpoch, advanceEpoch, prepareBatchStartState_version]
  | scaleOutExhaustion h =>
    obtain ⟨_, -, h⟩ := bind_eq_ok.mp h
    obtain ⟨plan, hplan, h⟩ := bind_eq_ok.mp h
    rw [← pure_eq_ok.mp h]
    exact buildScaleOutReplan_fresh hplan
  | confirmedFailures h =>
    unfold commitConfirmedFailures at h
    dsimp only at h
    split at h
    · cases h
    · obtain ⟨plan, hplan, h⟩ := bind_eq_ok.mp h
      obtain rfl := Option.some.inj (pure_eq_ok.mp h)
      exact buildFailureStartOrReplan_fresh hplan
  | cleanupReplan hbatch hjoining h =>
    obtain ⟨⟨type, e⟩, hb, htype⟩ := hbatch
    unfold commitUncommittedCleanup at h
    rw [hb, decide_eq_true hjoining] at h
    rcases htype with rfl | rfl
    · obtain ⟨plan, hplan, h⟩ := bind_eq_ok.mp h
      obtain rfl := Option.some.inj (pure_eq_ok.mp h)
      exact buildScaleOutReplan_fresh hplan
    · obtain ⟨plan, hplan, h⟩ := bind_eq_ok.mp h
      obtain rfl := Option.some.inj (pure_eq_ok.mp h)
      exact buildFailureStartOrReplan_fresh hplan
  | failureFinal h =>
    obtain ⟨_, -, h⟩ := bind_eq_ok.mp h
    obtain ⟨_, -, h⟩ := bind_eq_ok.mp h
    rw [← pure_eq_ok.mp h]
    exact fun b hb => resumeAfterFailure_epoch hb

/-- **Epochs are never reused**, whichever controllers race for the key. The version grows by one
with each commit and no epoch is ahead of it; a batch that a commit starts, replans or resumes has
an epoch beyond every earlier one; and two topologies with the same epoch are in the same batch,
with the same participants. -/
theorem epochs_never_reused (h : p.Run source) :
    (p.history.IsChain fun s' s => s'.version = s.version + 1) ∧
      (∀ s ∈ p.history, ∀ b ∈ s.activeBatch, b.epoch ≤ s.version) ∧
      (∀ newer next latest older, p.history = newer ++ canonicalize next :: latest :: older →
        StartsBatch latest next → ∀ b ∈ next.activeBatch,
          ∀ s ∈ latest :: older, ∀ b' ∈ s.activeBatch, b'.epoch < b.epoch) ∧
      ∀ s ∈ p.history, ∀ s' ∈ p.history, ∀ b ∈ s.activeBatch, ∀ b' ∈ s'.activeBatch,
        b.epoch = b'.epoch → b.type = b'.type ∧ ∀ i, i ∈ membersInState s b.type.participant ↔
            i ∈ membersInState s' b'.type.participant := by
  have hcommitted := h.consistent.committed
  refine ⟨hcommitted.isChain, fun s hs b hb => hcommitted.epoch_le hs hb, ?_, ?_⟩
  · intro newer next latest older hhistory hstate b hb s hs b' hb'
    have hsuffix : Committed source (canonicalize next :: latest :: older) :=
      (hhistory ▸ hcommitted).suffix
    have hversion : next.version = latest.version + 1 := by
      have hhead := hsuffix.version_head
      have hprev := hsuffix.tail.version_head
      rw [canonicalize_version, length_cons] at hhead
      omega
    refine hsuffix.fresh_epoch (fun b hb => ?_) hb hs hb'
    rw [canonicalize_version, hversion]
    exact hstate.fresh b hb
  · intro s hs s' hs' b hb b' hb' he
    obtain ⟨ht, hsame⟩ := hcommitted.epochNamesBatch s hs s' hs' b hb b' hb' he
    exact ⟨ht, fun i => ht ▸ hsame i⟩

end

section Pair

variable {version : Nat} {batch : Option ActiveBatch} {l r : MemberState}
  {w : WorkerTokens × WorkerTokens} {p : ControlPlane Bool} {s : TopologyState}

/-- Two workers fit the store. -/
theorem pair_fits (h : WellFormed pairSource (pairTopology version batch l r w)) :
    tokenCount (pairTopology version batch l r w).members ≤ maxTopologyTokens ∧
      (topologyPb (pairTopology version batch l r w)).byteSize ≤
        2 * (46 + 288) +
          headSize { clusterHasInit := true, version := version, activeBatch := batch } := by
  have hlength : ∀ m ∈ (pairTopology version batch l r w).members, m.tokens.length ≤ 32 := by
    intro m hm
    by_cases hs : m.state = .initial
    · rw [(h.populated.blank m hm hs).1]
      exact Nat.zero_le _
    · exact (h.populated.placed m hm hs).length_tokens.le
  have htokens : tokenCount (pairTopology version batch l r w).members ≤ maxTopologyTokens := by
    simp only [pairTopology, forall_mem_cons] at hlength
    obtain ⟨hleft, hright, -⟩ := hlength
    simp only [tokenCount, pairTopology, map_cons, map_nil, sum_cons, sum_nil, maxTopologyTokens]
    omega
  refine ⟨htokens, byteSize_topologyPb_le (by decide) ?_ ?_ h.populated.valid.idSize fun m hm => ?_⟩
  · simpa [pairTopology] using leftAddress_lt
  · have haddress : leftIdentity.address.length ≤ 16 ∧ rightIdentity.address.length ≤ 16 := by
      decide
    simpa [pairTopology] using haddress
  · exact ((h.fits htokens).storable m hm).repeatedField_le h.tokensPerMember.2

/-- The first controller goes on with two workers. -/
theorem commit_pair_run (h : p.Run pairSource) (hidle : p.pending true = none)
    (hhead : p.history.head? = some s) (hmembers : s.members.length ≤ maxTopologyMembers)
    (hc : Commit pairSource s (pairTopology version batch l r w))
    (hsize : headSize { clusterHasInit := true, version := version, activeBatch := batch } ≤ 100) :
    ∃ q : ControlPlane Bool, q.Run pairSource ∧
      q.history = pairTopology version batch l r w :: p.history ∧ q.pending true = none := by
  have hreachable := h.consistent.committed.reachable (mem_of_mem_head? hhead)
  obtain ⟨htokens, hbytes⟩ := pair_fits (hc.wellFormed hreachable.wellFormed)
  have hlimit : 2 * (46 + 288) + 100 ≤ maxValueBytes := by decide
  exact h.commit hidle hhead hmembers hc htokens (by omega)

end Pair

/-- One controller creates the key, admits two workers and lets one of them leave; another one
comes too late. -/
theorem pair_history : ∃ (q : ControlPlane Bool) (w : WorkerTokens × WorkerTokens),
    q.Run pairSource ∧
      q.history = [pairTopology 5 (some ⟨.scaleIn, 5⟩) .active .leaving w,
        pairTopology 4 none .active .preLeaving w, pairTopology 3 none .active .active w,
        initialPair, emptyTopology] ∧
      (q.history.IsChain fun s' s => s'.version = s.version + 1) ∧
      ∀ s ∈ q.history, ∀ b ∈ s.activeBatch, b.epoch ≤ s.version := by
  have hempty : prepareSwap 0 emptyTopology = .ok (topologyPb emptyTopology) := by decide +kernel
  let created := (init : ControlPlane Bool).swap true 0 emptyTopology
    (topologyPb emptyTopology) true (.ok ())
  let raced := created.swap false 0 emptyTopology (topologyPb emptyTopology) true (.ok ())
  have hcreated : created.Run pairSource :=
    .single (.swap true true (.ok ()) rfl .authority hempty fun _ => rfl)
  have hraced : raced.Run pairSource :=
    hcreated.tail (.swap false true (.ok ()) rfl .authority hempty fun _ => rfl)
  have hfirst : raced.history = [emptyTopology] := by decide +kernel
  obtain ⟨w, hpair⟩ := exists_commit_pair
  obtain ⟨_, hrun, hinitial, hidle⟩ := @ControlPlane.Run.commit _ _ _ _ _ true _ hraced rfl
    (by rw [hfirst]; rfl) (by decide) commit_initialPair (by decide) (by decide +kernel)
  obtain ⟨_, hrun, hactive, hidle⟩ := commit_pair_run hrun hidle (by rw [hinitial]; rfl)
    (by decide) hpair (by decide)
  obtain ⟨_, hrun, hexit, hidle⟩ := commit_pair_run hrun hidle (by rw [hactive]; rfl)
    (by simp [pairTopology, maxTopologyMembers]) (commit_exit w) (by decide)
  have hexited := hrun.consistent.committed.reachable (by rw [hexit]; exact mem_cons_self)
  obtain ⟨q, hrun, hleave, -⟩ := commit_pair_run hrun hidle (by rw [hexit]; rfl)
    (by simp [pairTopology, maxTopologyMembers]) (commit_scaleIn hexited.wellFormed) (by decide)
  obtain ⟨hchain, hepoch, -⟩ := epochs_never_reused hrun
  refine ⟨q, w, hrun, ?_, hchain, hepoch⟩
  rw [hleave, hexit, hactive, hinitial, hfirst]

end Datasystem.Cluster
