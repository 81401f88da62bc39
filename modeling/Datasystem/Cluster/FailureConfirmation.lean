import Datasystem.Cluster.Handover
import Datasystem.Lib.StateMachine

/-! Histories of the failure classifier. A timer belongs to an address, so it tells how long the
address has been without a membership record; whether it tells so of one member depends on the
member at that address staying the same. -/

namespace Datasystem.Cluster

open Common Lib Checked StateMachine TopologyFailureClassifier OrderedMap
open TopologyFailureClassifier (observeMember pause resetMissing resume)
open List (all_eq_true map_cons mem_append mem_append_left mem_cons mem_map mem_singleton)

/-! ## Calls -/

inductive ClassifierCall
  | observe (topology : TopologySnapshot) (memberships : List MembershipRecord) (now : Int)
  | observeMissingSamples (samples : List MemberIdentity) (now : Int)
  | pause (now : Int)
  | resume (now : Int)
  | resetMissing (address : Bytes)
  | reset

/-- One successful observation: when it was made, without the time spent paused, and who was in
the topology without a membership record. -/
structure Sighting where
  clock : Int
  absent : List MemberIdentity
deriving DecidableEq

/-- A member reported missing, and the observations up to that one. -/
structure Confirmation where
  identity : MemberIdentity
  log : List Sighting

structure ClassifierRun where
  classifier : TopologyFailureClassifier
  paused : Int := 0
  log : List Sighting := []
  confirmations : List Confirmation := []

/-- The members that have not failed and have no membership record. -/
def absentMembers (topology : TopologySnapshot) (memberships : List MembershipRecord) :
    List MemberIdentity :=
  (topology.state.members.filter fun m =>
    m.state ≠ .failed ∧ m.address ∉ memberships.map MembershipRecord.address).map Member.identity

namespace ClassifierRun

variable (r : ClassifierRun)

/-- The pause that ends now. -/
def pausedFor (now : Int) : Int :=
  r.classifier.pausedAt.elim 0 (now - ·)

def resume (r : ClassifierRun) (now : Int) : ClassifierRun :=
  { r with classifier := r.classifier.resume now, paused := r.paused + r.pausedFor now }

/-- A successful observation at `now`. -/
def sight (now : Int) (absent : List MemberIdentity) (classifier : TopologyFailureClassifier)
    (confirmed : List MemberIdentity) : ClassifierRun :=
  let paused := r.paused + r.pausedFor now
  let log := r.log ++ [⟨now - paused, absent⟩]
  ⟨classifier, paused, log, r.confirmations ++ confirmed.map (⟨·, log⟩)⟩

def step : ClassifierCall → Option ClassifierRun
  | .observe topology memberships now =>
    match r.classifier.observe topology.state memberships now with
    | .ok (classifier, classification) =>
      some (r.sight now (absentMembers topology memberships) classifier
        classification.confirmedMissing)
    | .error _ =>
      -- an observation with a bad record fails after the pause has ended
      some (if 0 ≤ r.classifier.nodeDeadTimeout then r.resume now else r)
  | .observeMissingSamples samples now =>
    match r.classifier.observeMissingSamples samples now with
    | .ok (classifier, confirmed) => some (r.sight now samples classifier confirmed)
    | .error _ => some r
  | .pause now => some { r with classifier := r.classifier.pause now }
  | .resume now => some (r.resume now)
  | .resetMissing address => some { r with classifier := r.classifier.resetMissing address }
  | .reset => some { r with classifier := r.classifier.reset }

def start (nodeDeadTimeout : Int) : ClassifierRun :=
  { classifier := ⟨nodeDeadTimeout, .empty, none⟩ }

/-- A member found absent while the timer of its address runs is the one that the last
observation found absent there. -/
def keepsIdentity (identity : MemberIdentity) : Bool :=
  (r.classifier.missingSince.find? identity.address).isNone ∨
    r.log.getLast?.all fun last =>
      last.absent.all fun other => other.address ≠ identity.address ∨ other = identity

def keepsIdentities : ClassifierCall → Bool
  | .observe topology memberships _ => (absentMembers topology memberships).all r.keepsIdentity
  | .observeMissingSamples samples _ => samples.all r.keepsIdentity
  | _ => true

end ClassifierRun

/-! ## Timers and the log -/

/-- The member has been absent in every observation since the one at `clock`. -/
def AbsentSince (log : List Sighting) (identity : MemberIdentity) (clock : Int) : Prop :=
  ∃ before first rest, log = before ++ first :: rest ∧ first.clock = clock ∧
    ∀ o ∈ first :: rest, identity ∈ o.absent

theorem AbsentSince.concat {log} {identity} {clock : Int}
    {o} (h : AbsentSince log identity clock) (ho : identity ∈ o.absent) :
    AbsentSince (log ++ [o]) identity clock := by
  obtain ⟨before, first, rest, rfl, hclock, habsent⟩ := h
  refine ⟨before, first, rest ++ [o], by simp, hclock, ?_⟩
  rw [← List.cons_append]
  intro x hx
  rcases mem_append.mp hx with hx | hx
  · exact habsent x hx
  · exact mem_singleton.mp hx ▸ ho

theorem AbsentSince.last {log} {identity} {clock : Int} (h : AbsentSince log identity clock) :
    ∃ o, log.getLast? = some o ∧ identity ∈ o.absent := by
  obtain ⟨_, first, rest, rfl, -, habsent⟩ := h
  obtain ⟨o, ho⟩ := Option.isSome_iff_exists.mp
    (List.getLast?_isSome.mpr (List.cons_ne_nil first rest))
  refine ⟨o, ?_, habsent o (List.mem_of_getLast? ho)⟩
  rw [List.getLast?_append, ho]
  rfl

/-! ## What an observation does to the timers -/

section

variable {c c' : TopologyFailureClassifier} {now : Int}

theorem find?_resume (c : TopologyFailureClassifier) (now : Int) (address : Bytes) :
    (c.resume now).missingSince.find? address =
      (c.missingSince.find? address).map (· + c.pausedAt.elim 0 (now - ·)) := by
  unfold resume
  cases c.pausedAt with
  | none => simp
  | some pausedAt => exact find?_mapValues ..

/-- The timers and reports of an observation. A timer of a member that is absent goes on, or it
starts now. -/
structure Observes (c : TopologyFailureClassifier) (now : Int) (absent : List MemberIdentity)
    (c' : TopologyFailureClassifier) (confirmed : List MemberIdentity) : Prop where
  nodeDeadTimeout : c'.nodeDeadTimeout = c.nodeDeadTimeout
  timer : ∀ a since, c'.missingSince.find? a = some since → ∃ i ∈ absent, i.address = a ∧
    ((c.resume now).missingSince.find? a = some since ∨ since = now)
  confirmed : ∀ i ∈ confirmed, i ∈ absent ∧ ∃ since,
    ((c.resume now).missingSince.find? i.address = some since ∨ since = now) ∧
      c.nodeDeadTimeout ≤ now - since

theorem getD_cases (timer) (now : Int) : timer = some (timer.getD now) ∨ timer.getD now = now := by
  cases timer with
  | none => exact .inr rfl
  | some => exact .inl rfl

/-- What the member loop has done after some of the members. -/
structure MemberLoop (base : OrderedMap Bytes Int) (timeout now : Int) (present : List Bytes)
    (processed : List Member) (o : Observation) : Prop where
  untouched : ∀ a, (∀ m ∈ processed, m.address ≠ a) → o.missingSince.find? a = base.find? a
  timer : ∀ a since, o.missingSince.find? a = some since → since = (base.find? a).getD now ∧
    ∀ m ∈ processed, m.address = a → m.state ≠ .failed ∧ a ∉ present
  confirmed : ∀ i ∈ o.observed.confirmedMissing, ∃ m ∈ processed, m.identity = i ∧
    m.state ≠ .failed ∧ m.address ∉ present ∧ timeout ≤ now - (base.find? m.address).getD now

theorem MemberLoop.erase {base} {timeout now : Int} {present} {processed} {o}
    (h : MemberLoop base timeout now present processed o) (m) (o')
    (htimeout : o'.missingSince = o.missingSince.erase m.address)
    (hconfirmed : o'.observed.confirmedMissing = o.observed.confirmedMissing) :
    MemberLoop base timeout now present (processed ++ [m]) o' := by
  refine ⟨?_, ?_, ?_⟩
  · intro a ha
    have hne : a ≠ m.address := fun heq => ha m (by simp) heq.symm
    rw [htimeout, find?_erase, if_neg hne]
    exact h.untouched a fun m' hm' => ha m' (mem_append_left _ hm')
  · intro a since hfind
    rw [htimeout, find?_erase] at hfind
    split at hfind
    · cases hfind
    · rename_i hne
      obtain ⟨hsince, hprocessed⟩ := h.timer a since hfind
      refine ⟨hsince, fun m' hm' hadd => ?_⟩
      rcases mem_append.mp hm' with hm' | hm'
      · exact hprocessed m' hm' hadd
      · rw [mem_singleton.mp hm'] at hadd
        exact absurd hadd.symm hne
  · intro i hi
    rw [hconfirmed] at hi
    obtain ⟨m', hm', hrest⟩ := h.confirmed i hi
    exact ⟨m', mem_append_left _ hm', hrest⟩

section

variable {base : OrderedMap Bytes Int} {timeout : Int} {present : List Bytes}
  {processed : List Member} {o : Observation}

/-- A member that is absent and whose timer goes on, starts, or is not looked at. -/
theorem MemberLoop.absent (h : MemberLoop base timeout now present processed o) {m}
    (hfresh : ∀ m' ∈ processed, m'.address ≠ m.address) (hfailed : m.state ≠ .failed)
    (habsent : m.address ∉ present) (o')
    (hother : ∀ a, a ≠ m.address → o'.missingSince.find? a = o.missingSince.find? a)
    (hself : ∀ since, o'.missingSince.find? m.address = some since →
      since = (o.missingSince.find? m.address).getD now)
    (hconfirmed : ∀ i ∈ o'.observed.confirmedMissing, i ∈ o.observed.confirmedMissing ∨
      (i = m.identity ∧ timeout ≤ now - (o.missingSince.find? m.address).getD now)) :
    MemberLoop base timeout now present (processed ++ [m]) o' := by
  have hbase : o.missingSince.find? m.address = base.find? m.address := h.untouched m.address hfresh
  refine ⟨?_, ?_, ?_⟩
  · intro a ha
    rw [hother a fun heq => ha m (by simp) heq.symm]
    exact h.untouched a fun m' hm' => ha m' (mem_append_left _ hm')
  · intro a since hfind
    by_cases heq : a = m.address
    · subst heq
      refine ⟨hbase ▸ hself since hfind, fun m' hm' hadd => ?_⟩
      rcases mem_append.mp hm' with hm' | hm'
      · exact absurd hadd (hfresh m' hm')
      · exact ⟨mem_singleton.mp hm' ▸ hfailed, habsent⟩
    · rw [hother a heq] at hfind
      obtain ⟨hsince, hprocessed⟩ := h.timer a since hfind
      refine ⟨hsince, fun m' hm' hadd => ?_⟩
      rcases mem_append.mp hm' with hm' | hm'
      · exact hprocessed m' hm' hadd
      · rw [mem_singleton.mp hm'] at hadd
        exact absurd hadd.symm heq
  · intro i hi
    rcases hconfirmed i hi with hi | ⟨rfl, hlong⟩
    · obtain ⟨m', hm', hrest⟩ := h.confirmed i hi
      exact ⟨m', mem_append_left _ hm', hrest⟩
    · exact ⟨m, by simp, rfl, hfailed, habsent, hbase ▸ hlong⟩

theorem MemberLoop.observeMember (h : MemberLoop base timeout now present processed o) {m}
    (hfresh : ∀ m' ∈ processed, m'.address ≠ m.address) :
    MemberLoop base timeout now present (processed ++ [m])
      (observeMember timeout now present o m) := by
  unfold TopologyFailureClassifier.observeMember
  dsimp only
  by_cases hfailed : m.state = .failed
  · rw [if_pos hfailed]
    exact h.erase m _ rfl rfl
  rw [if_neg hfailed]
  by_cases hpresent : m.address ∈ present
  · rw [if_pos hpresent]
    exact h.erase m _ rfl rfl
  rw [if_neg hpresent]
  -- a member that was never committed has no timer of its own
  have hkeep : ∀ o', o'.missingSince = o.missingSince →
      o'.observed.confirmedMissing = o.observed.confirmedMissing →
        MemberLoop base timeout now present (processed ++ [m]) o' := by
    intro o' htimeout hconfirmed
    refine h.absent hfresh hfailed hpresent o' (fun a _ => by rw [htimeout]) ?_ ?_
    · intro since hsince
      rw [← htimeout, hsince]
      rfl
    · intro i hi
      exact .inl (hconfirmed ▸ hi)
  by_cases hinitial : m.state = .initial
  · rw [if_pos hinitial]
    exact hkeep _ rfl rfl
  rw [if_neg hinitial]
  by_cases hjoining : m.state = .joining
  · rw [if_pos hjoining]
    exact hkeep _ rfl rfl
  rw [if_neg hjoining]
  have hother : ∀ since a, a ≠ m.address →
      (o.missingSince.insert m.address since).find? a = o.missingSince.find? a := by
    intro since a ha
    rw [find?_insert, if_neg ha]
  have hself :
      ∀ since since', (o.missingSince.insert m.address since).find? m.address = some since' →
      since' = since := by
    intro since since' hfind
    rw [find?_insert, if_pos rfl] at hfind
    exact (Option.some.inj hfind).symm
  split
  · rename_i hlong
    refine h.absent hfresh hfailed hpresent _ (hother _) (hself _) ?_
    intro i hi
    rcases mem_append.mp hi with hi | hi
    · exact .inl hi
    · exact .inr ⟨mem_singleton.mp hi, hlong⟩
  · exact h.absent hfresh hfailed hpresent _ (hother _) (hself _) fun i hi => .inl hi

theorem memberLoop_foldl {members} (hapart : members.Pairwise fun m m' => m.address ≠ m'.address) :
    MemberLoop base timeout now present members (members.foldl (observeMember timeout now present)
        { missingSince := base }) := by
  induction members using List.reverseRecOn with
  | nil =>
    refine ⟨fun _ _ => rfl, fun a since hfind => ⟨?_, nofun⟩, nofun⟩
    rw [show base.find? a = some since from hfind]
    rfl
  | append_singleton _ m ih =>
    obtain ⟨hearlier, -, hapart⟩ := List.pairwise_append.mp hapart
    rw [List.foldl_concat]
    exact (ih hearlier).observeMember fun m' hm' => hapart m' hm' m (by simp)

end

theorem mem_collectPresent {memberships} {present result}
    (h : collectPresent present memberships = .ok result) (a) :
    a ∈ result ↔ a ∈ present ∨ a ∈ memberships.map MembershipRecord.address := by
  induction memberships generalizing present with
  | nil =>
    cases h
    simp
  | cons record rest ih =>
    obtain ⟨_, -, h⟩ := bind_eq_ok.mp h
    rw [ih h, mem_cons, map_cons, mem_cons]
    tauto

theorem observes_observe {topology} {memberships} {classification}
    (h : c.observe topology.state memberships now = .ok (c', classification)) :
    Observes c now (absentMembers topology memberships) c' classification.confirmedMissing := by
  obtain ⟨_, -, h⟩ := bind_eq_ok.mp h
  obtain ⟨present, hpresent, h⟩ := bind_eq_ok.mp h
  generalize ho : topology.state.members.foldl
    (observeMember (c.resume now).nodeDeadTimeout now present)
      { missingSince := (c.resume now).missingSince } = o at h
  have hloop : MemberLoop (c.resume now).missingSince (c.resume now).nodeDeadTimeout now present
      topology.state.members o :=
    ho ▸ memberLoop_foldl (topology.sorted.imp ne_of_lt)
  have habsent : ∀ m ∈ topology.state.members, m.state ≠ .failed → m.address ∉ present →
      m.identity ∈ absentMembers topology memberships := by
    intro m hm hfailed hnot
    refine List.mem_map_of_mem (List.mem_filter.mpr ⟨hm, decide_eq_true ⟨hfailed, fun hin => ?_⟩⟩)
    exact hnot ((mem_collectPresent hpresent m.address).mpr (.inr hin))
  obtain ⟨hc', hclassified⟩ := Prod.mk.inj (Except.ok.inj h)
  have hconfirmed : classification.confirmedMissing = o.observed.confirmedMissing := by
    rw [← hclassified]
    split <;> rfl
  have htime : (c.resume now).nodeDeadTimeout = c.nodeDeadTimeout := by
    unfold resume
    split <;> rfl
  refine ⟨?_, ?_, ?_⟩
  · rw [← hc']
    exact htime
  · intro a since hfind
    rw [← hc', find?_filterKeys] at hfind
    split at hfind
    · rename_i hmembers
      obtain ⟨m, hm⟩ := Option.isSome_iff_exists.mp hmembers
      have hadd : m.address = a := by simpa [HashAlgorithm.findByAddress] using List.find?_some hm
      obtain ⟨hsince, hprocessed⟩ := hloop.timer a since hfind
      have hmem := List.mem_of_find?_eq_some hm
      obtain ⟨hfailed, hnot⟩ := hprocessed m hmem hadd
      refine ⟨m.identity, habsent m hmem hfailed (hadd ▸ hnot), hadd, ?_⟩
      rw [hsince]
      exact getD_cases _ _
    · cases hfind
  · intro i hi
    rw [hconfirmed] at hi
    obtain ⟨m, hm, rfl, hfailed, hnot, hlong⟩ := hloop.confirmed i hi
    refine ⟨habsent m hm hfailed hnot, _, getD_cases _ _, ?_⟩
    rw [← htime]
    exact hlong

/-- A sample is observed as a committed member without a record. -/
def sampledMember (identity : MemberIdentity) : Member := ⟨identity, .active, [], []⟩

theorem foldl_observeSample (timeout now : Int) (samples : List MemberIdentity) (o : Observation)
    (o' : SampleObservation) (htimeout : o.missingSince = o'.missingSince)
    (hconfirmed : o.observed.confirmedMissing = o'.confirmedMissing) :
    let loop := (samples.map sampledMember).foldl (observeMember timeout now []) o
    let loop' := samples.foldl (observeSample timeout now) o'
    loop.missingSince = loop'.missingSince ∧
      loop.observed.confirmedMissing = loop'.confirmedMissing := by
  induction samples generalizing o o' with
  | nil => exact ⟨htimeout, hconfirmed⟩
  | cons i _ ih =>
    refine ih _ _ ?_ ?_
    · simp only [observeMember, observeSample, sampledMember, Member.address, htimeout]
      simp only [reduceCtorEq, if_false, List.not_mem_nil]
      split <;> rfl
    · simp only [observeMember, observeSample, sampledMember, Member.address, htimeout]
      simp only [reduceCtorEq, if_false, List.not_mem_nil]
      split
      · exact congrArg (· ++ [i]) hconfirmed
      · exact hconfirmed

theorem collectSampled_eq_ok {samples} {sampled result}
    (h : collectSampled sampled samples = .ok result) :
    (∀ a, a ∈ result ↔ a ∈ sampled ∨ a ∈ samples.map MemberIdentity.address) ∧
      (samples.Pairwise fun i j => i.address ≠ j.address) ∧
      ∀ i ∈ samples, i.address ∉ sampled := by
  induction samples generalizing sampled with
  | nil =>
    cases h
    simp
  | cons i rest ih =>
    obtain ⟨⟨-, hfresh⟩, h⟩ := check_bind_eq_ok.mp h
    obtain ⟨hmem, hapart, hrest⟩ := ih h
    refine ⟨fun a => ?_, List.pairwise_cons.mpr ⟨fun j hj heq => ?_, hapart⟩, ?_⟩
    · rw [hmem a, mem_cons, map_cons, mem_cons]
      tauto
    · exact hrest j hj (mem_cons.mpr (.inl heq.symm))
    · intro j hj
      rcases mem_cons.mp hj with rfl | hj
      · exact hfresh
      · exact fun hin => hrest j hj (List.mem_cons_of_mem _ hin)

theorem observes_observeMissingSamples {samples confirmed}
    (h : c.observeMissingSamples samples now = .ok (c', confirmed)) :
    Observes c now samples c' confirmed := by
  obtain ⟨_, -, h⟩ := bind_eq_ok.mp h
  obtain ⟨sampled, hsampled, h⟩ := bind_eq_ok.mp h
  obtain ⟨hmem, hapart, -⟩ := collectSampled_eq_ok hsampled
  generalize hkept : ({ c with missingSince := c.missingSince.filterKeys fun address =>
    address ∈ sampled } : TopologyFailureClassifier) = kept at h
  -- a timer that is kept is one of a sample
  have hbase : ∀ a since, (kept.resume now).missingSince.find? a = some since →
      a ∈ sampled ∧ (c.resume now).missingSince.find? a = some since := by
    intro a since hfind
    rw [find?_resume, ← hkept, find?_filterKeys] at hfind
    rw [find?_resume]
    split at hfind
    · rename_i hin
      exact ⟨of_decide_eq_true hin, hfind⟩
    · cases hfind
  have hgoes : ∀ a, ((c.resume now).missingSince.find? a =
      some (((kept.resume now).missingSince.find? a).getD now)) ∨
        ((kept.resume now).missingSince.find? a).getD now = now := by
    intro a
    rcases getD_cases ((kept.resume now).missingSince.find? a) now with hsome | hnow
    · exact .inl (hbase a _ hsome).2
    · exact .inr hnow
  have htime : (kept.resume now).nodeDeadTimeout = c.nodeDeadTimeout := by
    rw [← hkept]
    unfold resume
    split <;> rfl
  have hloop : MemberLoop (kept.resume now).missingSince (kept.resume now).nodeDeadTimeout now []
      (samples.map sampledMember) _ := memberLoop_foldl (List.pairwise_map.mpr hapart)
  obtain ⟨htimeout, hconfirmed⟩ := foldl_observeSample (kept.resume now).nodeDeadTimeout now samples
    { missingSince := (kept.resume now).missingSince }
    { missingSince := (kept.resume now).missingSince } rfl rfl
  obtain ⟨hc', hreported⟩ := Prod.mk.inj (Except.ok.inj h)
  refine ⟨?_, ?_, ?_⟩
  · rw [← hc']
    exact htime
  · intro a since hfind
    rw [← hc'] at hfind
    have hfind := (congrArg (·.find? a) htimeout).trans hfind
    obtain ⟨hsince, -⟩ := hloop.timer a since hfind
    have hin : a ∈ samples.map MemberIdentity.address := by
      by_contra hnot
      have hnone : ∀ m ∈ samples.map sampledMember, m.address ≠ a := by
        intro m hm heq
        obtain ⟨i, hi, rfl⟩ := mem_map.mp hm
        exact hnot (mem_map.mpr ⟨i, hi, heq⟩)
      have hsame := (hloop.untouched a hnone).symm.trans hfind
      rcases (hmem a).mp (hbase a since hsame).1 with hnil | hin
      · cases hnil
      · exact hnot hin
    obtain ⟨i, hi, hadd⟩ := mem_map.mp hin
    refine ⟨i, hi, hadd, ?_⟩
    rw [hsince]
    exact hgoes a
  · intro i hi
    rw [← hreported, ← hconfirmed] at hi
    obtain ⟨_, hm, hidentity, -, -, hlong⟩ := hloop.confirmed i hi
    obtain ⟨j, hj, rfl⟩ := mem_map.mp hm
    obtain rfl : j = i := hidentity
    refine ⟨hj, _, hgoes j.address, ?_⟩
    rw [← htime]
    exact hlong

end

/-! ## Runs -/

namespace ClassifierRun

/-- A timer was started by an observation of the member that has been absent ever since, and every
report is backed by observations over the whole timeout. -/
structure Sound (timeout : Int) (r : ClassifierRun) : Prop where
  nodeDeadTimeout : r.classifier.nodeDeadTimeout = timeout
  timer : ∀ a since, r.classifier.missingSince.find? a = some since →
    ∃ identity, identity.address = a ∧ AbsentSince r.log identity (since - r.paused)
  confirmed : ∀ report ∈ r.confirmations, ∃ since, AbsentSince report.log report.identity since ∧
    ∃ last, report.log.getLast? = some last ∧ timeout ≤ last.clock - since

variable {timeout : Int} {r : ClassifierRun} {now : Int}

theorem sound_start (timeout : Int) : (start timeout).Sound timeout := by
  refine ⟨rfl, fun a since hfind => ?_, nofun⟩
  cases hfind

/-- A call that neither observes nor moves a timer against the clock. -/
theorem Sound.timers (h : r.Sound timeout) {c}
    (htime : c.nodeDeadTimeout = r.classifier.nodeDeadTimeout)
    (htimer : ∀ a since, c.missingSince.find? a = some since →
      r.classifier.missingSince.find? a = some since) :
    Sound timeout { r with classifier := c } where
  nodeDeadTimeout := htime.trans h.nodeDeadTimeout
  timer a since hfind := h.timer a since (htimer a since hfind)
  confirmed := h.confirmed

theorem find?_resume_eq_some {a} {since : Int}
    (h : (r.classifier.resume now).missingSince.find? a = some since) :
    r.classifier.missingSince.find? a = some (since - r.pausedFor now) := by
  rw [find?_resume] at h
  obtain ⟨_, hsince', rfl⟩ := Option.map_eq_some_iff.mp h
  rw [hsince']
  simp [pausedFor]

theorem Sound.resume (h : r.Sound timeout) (now : Int) : (r.resume now).Sound timeout where
  nodeDeadTimeout := by
    rw [← h.nodeDeadTimeout]
    unfold ClassifierRun.resume TopologyFailureClassifier.resume
    split <;> rfl
  timer a since hfind := by
    obtain ⟨identity, hadd, habsent⟩ := h.timer a _ (find?_resume_eq_some hfind)
    refine ⟨identity, hadd, ?_⟩
    have hclock : since - (r.resume now).paused = since - r.pausedFor now - r.paused := by
      simp only [ClassifierRun.resume]
      omega
    rw [hclock]
    exact habsent
  confirmed := h.confirmed

/-- A member that keeps its identity owns the timer of its address. -/
theorem Sound.absentSince (h : r.Sound timeout) {absent}
    {identity} (habsent : identity ∈ absent) (hkeeps : r.keepsIdentity identity)
    {since : Int}
    (hsince : (r.classifier.resume now).missingSince.find? identity.address = some since ∨
      since = now) :
    AbsentSince (r.log ++ [⟨now - (r.paused + r.pausedFor now), absent⟩]) identity
      (since - (r.paused + r.pausedFor now)) := by
  rcases hsince with hgoes | rfl
  · have hfind := find?_resume_eq_some hgoes
    obtain ⟨owner, hadd, howner⟩ := h.timer _ _ hfind
    obtain ⟨last, hlast, hmem⟩ := howner.last
    have hsame : owner = identity := by
      rcases of_decide_eq_true hkeeps with hnone | hall
      · rw [hfind] at hnone
        cases hnone
      · rw [hlast] at hall
        have hother := all_eq_true.mp hall owner hmem
        exact (of_decide_eq_true hother).resolve_left (not_not.mpr hadd)
    rw [show since - (r.paused + r.pausedFor now) = since - r.pausedFor now - r.paused by omega]
    exact (hsame ▸ howner).concat habsent
  · exact ⟨r.log, _, [], rfl, rfl, by simpa using habsent⟩

theorem Sound.sight (h : r.Sound timeout) {absent confirmed}
    {c} (hobserves : Observes r.classifier now absent c confirmed)
    (hkeeps : ∀ identity ∈ absent, r.keepsIdentity identity) :
    (r.sight now absent c confirmed).Sound timeout where
  nodeDeadTimeout := hobserves.nodeDeadTimeout.trans h.nodeDeadTimeout
  timer a since hfind := by
    obtain ⟨identity, hmem, rfl, hsince⟩ := hobserves.timer a since hfind
    exact ⟨identity, rfl, h.absentSince hmem (hkeeps identity hmem) hsince⟩
  confirmed report hreport := by
    rcases mem_append.mp hreport with hreport | hreport
    · exact h.confirmed report hreport
    · obtain ⟨identity, hconfirmed, rfl⟩ := mem_map.mp hreport
      obtain ⟨hmem, since, hsince, hlong⟩ := hobserves.confirmed identity hconfirmed
      refine ⟨_, h.absentSince hmem (hkeeps identity hmem) hsince, _, List.getLast?_concat, ?_⟩
      rw [h.nodeDeadTimeout] at hlong
      dsimp only
      omega

theorem Sound.step (h : r.Sound timeout) {call} {r'}
    (hkeeps : r.keepsIdentities call) (hstep : r.step call = some r') : r'.Sound timeout := by
  cases call with
  | observe topology memberships now =>
    unfold ClassifierRun.step at hstep
    dsimp only at hstep
    split at hstep
    · rename_i c classification hobserve
      cases hstep
      exact h.sight (observes_observe hobserve) (all_eq_true.mp hkeeps)
    · cases hstep
      split
      · exact h.resume now
      · exact h
  | observeMissingSamples samples now =>
    unfold ClassifierRun.step at hstep
    dsimp only at hstep
    split at hstep
    · rename_i c confirmed hobserve
      cases hstep
      exact h.sight (observes_observeMissingSamples hobserve) (all_eq_true.mp hkeeps)
    · cases hstep
      exact h
  | pause =>
    cases hstep
    refine h.timers ?_ ?_
    · unfold pause
      split <;> rfl
    · intro a since hfind
      unfold pause at hfind
      split at hfind <;> exact hfind
  | resume now =>
    cases hstep
    exact h.resume now
  | resetMissing =>
    cases hstep
    refine h.timers rfl fun a since hfind => ?_
    rw [resetMissing, find?_erase] at hfind
    split at hfind
    · cases hfind
    · exact hfind
  | reset =>
    cases hstep
    refine h.timers rfl fun a since hfind => ?_
    cases hfind

end ClassifierRun

/-- As long as no address is taken over while its timer runs, a member is reported missing only
after it was absent in every observation of un-paused time of at least the timeout. -/
theorem confirmed_after_absence {timeout : Int} {r : ClassifierRun}
    (h : Reaches (restrict ClassifierRun.keepsIdentities ClassifierRun.step)
      (ClassifierRun.start timeout) r) :
    ∀ report ∈ r.confirmations, ∃ since, AbsentSince report.log report.identity since ∧
      ∃ last, report.log.getLast? = some last ∧ timeout ≤ last.clock - since := by
  have hsound : r.Sound timeout := h.invariant (ClassifierRun.sound_start timeout) (by
    intro s s' call hstep hs
    obtain ⟨hkeeps, hstep⟩ := restrict_eq_some.mp hstep
    exact hs.step hkeeps hstep)
  exact hsound.confirmed

/-! ## A member that is replaced -/

/-- One committed member at the address of the left worker. -/
def occupant (version : Nat) (identity : MemberIdentity)
    (h : validateAndCanonicalizeTopologyState
      { clusterHasInit := true, version := version, members := [⟨identity, .active, [100], []⟩] } =
        .ok { clusterHasInit := true, version := version,
              members := [⟨identity, .active, [100], []⟩] }) : TopologySnapshot :=
  snapshotOf _ h

def replacement : MemberIdentity := ⟨rightIdentity.id, leftAddress⟩

/-- Twenty seconds of the fifty do not count. -/
theorem left_confirmed_after_pause :
    ∃ r, Reaches (restrict ClassifierRun.keepsIdentities ClassifierRun.step)
        (ClassifierRun.start 30) r ∧
      ∃ report ∈ r.confirmations, report.identity = leftIdentity ∧
        ∃ since, AbsentSince report.log report.identity since ∧
          ∃ last, report.log.getLast? = some last ∧ 30 ≤ last.clock - since := by
  have hrun : (run (restrict ClassifierRun.keepsIdentities ClassifierRun.step)
      (ClassifierRun.start 30)
      [.observe (occupant 1 leftIdentity rfl) [] 0, .pause 10,
        .observe (occupant 1 leftIdentity rfl) [] 30,
        .observe (occupant 1 leftIdentity rfl) [] 50]).any fun r =>
          r.confirmations.any fun report => report.identity = leftIdentity := by decide +kernel
  obtain ⟨r, hreaches, hreport⟩ := exists_of_run _ hrun
  obtain ⟨report, hmem, hidentity⟩ := List.any_eq_true.mp hreport
  exact ⟨r, hreaches, report, hmem, of_decide_eq_true hidentity,
    confirmed_after_absence hreaches report hmem⟩

/-- The successor of a missing member is reported at the first observation of it. -/
theorem replacement_inherits_missing_time :
    ∃ r, Reaches ClassifierRun.step (ClassifierRun.start 30) r ∧
      ∃ report ∈ r.confirmations, ¬ ∃ since, AbsentSince report.log report.identity since ∧
        ∃ last, report.log.getLast? = some last ∧ 30 ≤ last.clock - since := by
  have hrun : (run ClassifierRun.step (ClassifierRun.start 30)
      [.observe (occupant 1 leftIdentity rfl) [] 0,
        .observe (occupant 2 replacement rfl) [] 30]).any fun r =>
          r.confirmations.any fun report => report.identity = replacement ∧
            report.log = [⟨0, [leftIdentity]⟩, ⟨30, [replacement]⟩] := by decide +kernel
  obtain ⟨r, hreaches, hreport⟩ := exists_of_run _ hrun
  obtain ⟨report, hmem, hreported⟩ := List.any_eq_true.mp hreport
  obtain ⟨hidentity, hlog⟩ := of_decide_eq_true hreported
  refine ⟨r, hreaches, report, hmem, ?_⟩
  rw [hidentity, hlog]
  rintro ⟨_, ⟨before, first, _, hsplit, hclock, habsent⟩, _, hlast, hlong⟩
  cases hlast
  have hfirst := habsent first List.mem_cons_self
  rcases before with - | ⟨o, - | ⟨o', before⟩⟩
  · -- the window would start with an observation of the other member
    cases hsplit
    exact absurd hfirst (by decide)
  · cases hsplit
    rw [← hclock] at hlong
    exact absurd hlong (by decide)
  · simp at hsplit

end Datasystem.Cluster
