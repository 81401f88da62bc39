import Datasystem.Cluster.HashAlgorithm

/-! Missing timers of one controller. A committed member whose membership record
has been absent for the whole timeout is reported as failed; members that were
never committed are reported for removal at once. -/

namespace Datasystem.Cluster

open Common Lib Sorting HashAlgorithm

/-- Members found missing, by what has to happen to them. -/
structure FailureClassification where
  removeInitial : List MemberIdentity := []
  removeJoining : List MemberIdentity := []
  confirmedFailure : List MemberIdentity := []
  confirmedMissing : List MemberIdentity := []

structure TopologyFailureClassifier where
  nodeDeadTimeout : Int
  missingSince : OrderedMap Bytes Int
  pausedAt : Option Int

namespace TopologyFailureClassifier

variable (c : TopologyFailureClassifier)

/-- Time during which the backend could not be read does not count as absence. -/
def resume (now : Int) : TopologyFailureClassifier :=
  match c.pausedAt with
  | none => c
  | some pausedAt =>
    { c with missingSince := c.missingSince.mapValues (· + (now - pausedAt)), pausedAt := none }

def collectPresent (present : List Bytes) : List MembershipRecord → Result (List Bytes)
  | [] => pure present
  | record :: rest => do
    checkFailReturnStatus (record.address ≠ [] ∧ record.address ∉ present) .kInvalid
      "membership observation contains an invalid or duplicate address"
    collectPresent (record.address :: present) rest

/-- What the member loop of `Observe` carries. -/
structure Observation where
  missingSince : OrderedMap Bytes Int
  retainedFailed : List MemberIdentity := []
  observed : FailureClassification := {}

def observeMember (timeout now : Int) (present : List Bytes) (o : Observation) (member : Member) :
    Observation :=
  let address := member.address
  if member.state = .failed then
    { o with
      retainedFailed := o.retainedFailed ++ [member.identity]
      missingSince := o.missingSince.erase address }
  else if address ∈ present then
    { o with missingSince := o.missingSince.erase address }
  else if member.state = .initial then
    { o with observed.removeInitial := o.observed.removeInitial ++ [member.identity] }
  else if member.state = .joining then
    { o with observed.removeJoining := o.observed.removeJoining ++ [member.identity] }
  else
    let since := (o.missingSince.find? address).getD now
    let missingSince := o.missingSince.insert address since
    if now - since ≥ timeout then
      { o with
        missingSince := missingSince
        observed.confirmedMissing := o.observed.confirmedMissing ++ [member.identity]
        observed.confirmedFailure := o.observed.confirmedFailure ++ [member.identity] }
    else { o with missingSince := missingSince }

def observe (topology : TopologyState) (memberships : List MembershipRecord) (now : Int) :
    Result (TopologyFailureClassifier × FailureClassification) := do
  checkFailReturnStatus (0 ≤ c.nodeDeadTimeout) .kInvalid "node dead timeout must be non-negative"
  let c := c.resume now
  let present ← collectPresent [] memberships
  let o := topology.members.foldl (observeMember c.nodeDeadTimeout now present)
    { missingSince := c.missingSince }
  let observed :=
    if o.observed.confirmedFailure ≠ [] then
      { o.observed with
        confirmedFailure := sortBy MemberIdentity.address
          (o.observed.confirmedFailure ++ o.retainedFailed) }
    else o.observed
  let missingSince := o.missingSince.filterKeys fun address =>
    (findByAddress topology.members address).isSome
  pure ({ c with missingSince := missingSince }, observed)

def pause (now : Int) : TopologyFailureClassifier :=
  if c.pausedAt = none then { c with pausedAt := some now } else c

def resetMissing (address : Bytes) : TopologyFailureClassifier :=
  { c with missingSince := c.missingSince.erase address }

def reset : TopologyFailureClassifier :=
  { c with missingSince := .empty, pausedAt := none }

def collectSampled (sampled : List Bytes) : List MemberIdentity → Result (List Bytes)
  | [] => pure sampled
  | sample :: rest => do
    checkFailReturnStatus (sample.address ≠ [] ∧ sample.address ∉ sampled) .kInvalid
      "missing-member samples contain an invalid or duplicate address"
    collectSampled (sample.address :: sampled) rest

/-- What the sample loop of `ObserveMissingSamples` carries. -/
structure SampleObservation where
  missingSince : OrderedMap Bytes Int
  confirmedMissing : List MemberIdentity := []

def observeSample (timeout now : Int) (o : SampleObservation) (sample : MemberIdentity) :
    SampleObservation :=
  let since := (o.missingSince.find? sample.address).getD now
  let missingSince := o.missingSince.insert sample.address since
  if now - since ≥ timeout then
    ⟨missingSince, o.confirmedMissing ++ [sample]⟩
  else { o with missingSince := missingSince }

/-- `ObserveMissingSamples`: members whose membership key is absent. Timers of other members are
dropped. -/
def observeMissingSamples (samples : List MemberIdentity) (now : Int) :
    Result (TopologyFailureClassifier × List MemberIdentity) := do
  checkFailReturnStatus (0 ≤ c.nodeDeadTimeout) .kInvalid "node dead timeout must be non-negative"
  let sampled ← collectSampled [] samples
  let c := { c with missingSince := c.missingSince.filterKeys fun address => address ∈ sampled }
  let c := c.resume now
  let o := samples.foldl (observeSample c.nodeDeadTimeout now) { missingSince := c.missingSince }
  pure ({ c with missingSince := o.missingSince }, o.confirmedMissing)

end TopologyFailureClassifier

/-- What a classification may name: only members of the topology, each in a state that fits. -/
structure FailureClassification.Sound (latest : TopologyState) (c : FailureClassification) :
    Prop where
  removeInitial : ∀ i ∈ c.removeInitial, ∃ m ∈ latest.members,
    m.address = i.address ∧ m.state = .initial
  removeJoining : ∀ i ∈ c.removeJoining, ∃ m ∈ latest.members,
    m.address = i.address ∧ m.state = .joining
  confirmedFailure : ∀ i ∈ c.confirmedFailure, ∃ m ∈ latest.members,
    m.address = i.address ∧ (isCommittedMemberState m.state ∨ m.state = .failed)

namespace TopologyFailureClassifier

open Lib.Checked

/-- The loop invariant of `Observe`. -/
structure Observation.Sound (latest : TopologyState) (o : Observation) : Prop where
  observed : o.observed.Sound latest
  retainedFailed : ∀ i ∈ o.retainedFailed, ∃ m ∈ latest.members,
    m.address = i.address ∧ m.state = .failed

theorem forall_mem_concat {α : Type} {p : α → Prop} {l} {a : α} (hl : ∀ x ∈ l, p x)
    (ha : p a) : ∀ x ∈ l ++ [a], p x := by
  simpa [or_imp, forall_and] using ⟨hl, ha⟩

theorem observeMember_sound {latest} {timeout now : Int} {present}
    {o} {m} (hm : m ∈ latest.members) (h : o.Sound latest) :
    (observeMember timeout now present o m).Sound latest := by
  obtain ⟨⟨hi, hj, hc⟩, hr⟩ := h
  unfold observeMember
  simp only
  split
  · rename_i hs
    exact ⟨⟨hi, hj, hc⟩, forall_mem_concat hr ⟨m, hm, rfl, hs⟩⟩
  · split
    · exact ⟨⟨hi, hj, hc⟩, hr⟩
    · split
      · rename_i hs
        exact ⟨⟨forall_mem_concat hi ⟨m, hm, rfl, hs⟩, hj, hc⟩, hr⟩
      · split
        · rename_i hs
          exact ⟨⟨hi, forall_mem_concat hj ⟨m, hm, rfl, hs⟩, hc⟩, hr⟩
        · have hcommitted : isCommittedMemberState m.state = true := by
            cases hstate : m.state <;> simp_all [isCommittedMemberState]
          split
          · exact ⟨⟨hi, hj, forall_mem_concat hc ⟨m, hm, rfl, .inl hcommitted⟩⟩, hr⟩
          · exact ⟨⟨hi, hj, hc⟩, hr⟩

/-- An observation only ever names members of the topology it was made on. -/
theorem observe_sound {c c' : TopologyFailureClassifier} {topology : TopologyState}
    {memberships : List MembershipRecord} {now : Int} {classification : FailureClassification}
    (h : c.observe topology memberships now = .ok (c', classification)) :
    classification.Sound topology := by
  obtain ⟨-, -, h⟩ := bind_eq_ok.mp h
  obtain ⟨present, -, h⟩ := bind_eq_ok.mp h
  obtain ⟨-, hobserve⟩ : _ = c' ∧ _ = classification := by simpa using h
  have hfold : ∀ (l : List Member) (o : Observation), (∀ m ∈ l, m ∈ topology.members) →
      o.Sound topology →
      (l.foldl (observeMember (c.resume now).nodeDeadTimeout now present) o).Sound topology := by
    intro l
    induction l with
    | nil => exact fun o _ ho => ho
    | cons m _ ih =>
      intro o hl ho
      exact ih _ (fun x hx => hl x (List.mem_cons_of_mem _ hx))
        (observeMember_sound (hl m List.mem_cons_self) ho)
  have hsound := hfold topology.members { missingSince := (c.resume now).missingSince }
    (fun _ hm => hm) ⟨⟨by simp, by simp, by simp⟩, by simp⟩
  subst hobserve
  split
  · exact hsound.observed
  · refine ⟨hsound.observed.removeInitial, hsound.observed.removeJoining, fun i hi => ?_⟩
    rcases List.mem_append.mp (mem_sortBy.mp hi) with hi | hi
    · exact hsound.observed.confirmedFailure i hi
    · obtain ⟨m, hm, ha, hs⟩ := hsound.retainedFailed i hi
      exact ⟨m, hm, ha, .inr hs⟩

end TopologyFailureClassifier

end Datasystem.Cluster
