import Datasystem.Cluster.TopologyRepositoryCodec
import Datasystem.Lib.StateMachine

/-! How a client follows the hash ring. It asks a few workers in each round and publishes a ring
that is not older than its own; an older one only when a second worker reports it, as after the
members were set up anew. Which workers are asked is left open. -/

namespace Datasystem.Client

open Common Lib Cluster TopologyRepositoryCodec OrderedMap StateMachine

structure LowerVersionObservation where
  version : Nat
  digest : Bytes
  round : Nat

/-- A ring that a worker has answered with. -/
structure Report where
  worker : HostPort
  round : Nat
  version : Nat
  ring : ClusterTopologyPb

structure HashRingRefresher where
  lowerVersionObs : OrderedMap Bytes LowerVersionObservation := .empty
  refreshRound : Nat := 0
  currentVersion : Nat := 0
  /-- The ring of the router. -/
  published : Option ClusterTopologyPb := none
  /-- All answers so far, which the program does not keep. -/
  reports : List Report := []

/-- How a call ends: with a status, or with the exception of a callback. -/
inductive Ending
  | returned (result : Result Unit)
  | threw

inductive Fetched
  | failed
  | threw
  | answered (changed : Bool) (newVersion : Nat) (ring : ClusterTopologyPb)

/-- One turn of the loop over the workers: the worker, whether `running_` is off, the answer, and
how the ring is prepared and taken by the hook. -/
structure Probe where
  worker : HostPort
  stopped : Bool
  fetched : Fetched
  update : Ending

variable (ring : ClusterTopologyPb)

def buildRingDigest : Bytes :=
  (ring.members.entries.filter fun e => e.2.state = toPbState .active).flatMap fun e =>
    e.1 ++ ascii ","

/-- What requests are routed by: the members with their states, and their tokens. -/
def routing : OrderedMap Bytes MembershipPb × Nat :=
  (ring.members, ring.tokensPerMember)

namespace HashRingRefresher

variable (r : HashRingRefresher)

def beginRefreshRound : HashRingRefresher :=
  { r with
    refreshRound := r.refreshRound + 1
    lowerVersionObs :=
      ⟨r.lowerVersionObs.entries.filter fun e => ¬e.2.round + 1 < r.refreshRound + 1,
        r.lowerVersionObs.sorted.filter _⟩ }

def publishHashRing (newVersion : Nat) (ring : ClusterTopologyPb) (update : Ending) :
    HashRingRefresher :=
  match update with
  | .returned (.ok ()) => { r with currentVersion := newVersion, published := some ring }
  | _ => r

variable (worker : HostPort)

def recordLowerVersionAndCheckConfirmation (newVersion : Nat) (digest : Bytes) :
    HashRingRefresher × Bool :=
  if r.lowerVersionObs.entries.any fun e =>
      e.1 ≠ worker.toString ∧ e.2.version = newVersion ∧ e.2.digest = digest then (r, true)
  else
    ({ r with lowerVersionObs :=
        r.lowerVersionObs.insert worker.toString ⟨newVersion, digest, r.refreshRound⟩ }, false)

/-- With whether the ring was published or refused, and does not wait for a second worker. -/
def tryPublishEpochReset (newVersion : Nat) (ring : ClusterTopologyPb) (update : Ending) :
    HashRingRefresher × Bool :=
  if buildRingDigest ring = [] then (r, false)
  else
    match r.recordLowerVersionAndCheckConfirmation worker newVersion (buildRingDigest ring) with
    | (r, false) => (r, false)
    | (r, true) =>
      ({ r with lowerVersionObs := .empty }.publishHashRing newVersion ring update, true)

def report (newVersion : Nat) (ring : ClusterTopologyPb) : HashRingRefresher :=
  { r with reports := ⟨worker, r.refreshRound, newVersion, ring⟩ :: r.reports }

def noReachableWorker (reachedWorker : Bool) : Ending :=
  .returned (if reachedWorker then .ok ()
    else .error ⟨.kNotFound, "No reachable worker for hash ring refresh"⟩)

/-- The loop over the workers, with whether one was reached. -/
def probeRound (stopAware : Bool) :
    List Probe → HashRingRefresher → Bool → HashRingRefresher × Ending × Bool
  | [], r, reachedWorker => (r, noReachableWorker reachedWorker, reachedWorker)
  | probe :: rest, r, reachedWorker =>
    if stopAware ∧ probe.stopped then (r, noReachableWorker reachedWorker, reachedWorker)
    else
      match probe.fetched with
      | .failed => probeRound stopAware rest r reachedWorker
      | .threw => (r, .threw, reachedWorker)
      | .answered false _ _ => probeRound stopAware rest r true
      | .answered true newVersion ring =>
        let r := r.report probe.worker newVersion ring
        if newVersion < r.currentVersion then
          match r.tryPublishEpochReset probe.worker newVersion ring probe.update with
          | (r, true) => (r, probe.update, true)
          | (r, false) => probeRound stopAware rest r true
        else (r.publishHashRing newVersion ring probe.update, probe.update, true)

variable (stopAware stopped : Bool)

/-- With whether `running_` is off after the first pass; without candidates the fallback throws. -/
def doRefresh (workers : List Probe) (candidates : Option (List Probe)) :
    HashRingRefresher × Ending :=
  match probeRound stopAware workers r.beginRefreshRound false with
  | (r, .threw, _) => (r, .threw)
  | (r, rc, reachedWorker) =>
    if reachedWorker ∨ stopAware ∧ stopped then (r, rc)
    else
      match candidates with
      | none => (r, .threw)
      | some [] => (r, rc)
      | some candidates =>
        let (r, rc, _) := probeRound stopAware candidates r false
        (r, rc)

def doRefreshSafely (workers : List Probe) (candidates : Option (List Probe)) :
    HashRingRefresher × Result Unit :=
  match r.doRefresh stopAware stopped workers candidates with
  | (r, .returned result) => (r, result)
  | (r, .threw) => (r, .error ⟨.kRuntimeError, "Hash ring refresh callback threw"⟩)

/-! ## What a round publishes -/

variable {r r' : HashRingRefresher}

/-- Each observation is what a worker has answered in this round or the one before. -/
def Observed (r : HashRingRefresher) : Prop :=
  ∀ address o, r.lowerVersionObs.find? address = some o →
    (o.round = r.refreshRound ∨ o.round + 1 = r.refreshRound) ∧
      ∃ a ∈ r.reports, a.worker.toString = address ∧ a.version = o.version ∧
        a.round = o.round ∧ buildRingDigest a.ring = o.digest

/-- Another worker has answered with the version and the active members of `b`, in the same round
or the one before. -/
def Confirmed (r : HashRingRefresher) (b : Report) : Prop :=
  ∃ a ∈ r.reports, a.worker.toString ≠ b.worker.toString ∧ a.version = b.version ∧
    buildRingDigest a.ring = buildRingDigest b.ring ∧ (a.round = b.round ∨ a.round + 1 = b.round)

def Unpublished (r r' : HashRingRefresher) : Prop :=
  r'.currentVersion = r.currentVersion ∧ r'.published = r.published

/-- `b` is published. -/
structure Publishes (r r' : HashRingRefresher) (b : Report) : Prop where
  reported : b ∈ r'.reports
  version : r'.currentVersion = b.version
  ring : r'.published = some b.ring
  confirmed : b.version < r.currentVersion → Confirmed r' b

/-- Answers come in, and at most one of them is published. -/
structure Probed (r r' : HashRingRefresher) : Prop where
  observed : Observed r'
  reports : ∀ a ∈ r.reports, a ∈ r'.reports
  outcome : Unpublished r r' ∨ ∃ b, Publishes r r' b

theorem Observed.refl (h : Observed r) : Probed r r := ⟨h, fun _ ha => ha, .inl ⟨rfl, rfl⟩⟩

theorem Probed.trans {r''} (h : Probed r r') (hun : Unpublished r r') (h' : Probed r' r'') :
    Probed r r'' where
  observed := h'.observed
  reports a ha := h'.reports a (h.reports a ha)
  outcome := by
    refine h'.outcome.imp (fun he => ⟨he.1.trans hun.1, he.2.trans hun.2⟩) ?_
    rintro ⟨b, hb⟩
    exact ⟨b, hb.reported, hb.version, hb.ring, hun.1 ▸ hb.confirmed⟩

theorem observed_beginRefreshRound (h : Observed r) : Observed r.beginRefreshRound := by
  intro address o ho
  obtain ⟨hmem, hround⟩ := List.mem_filter.mp (mem_entries_iff.mpr ho)
  obtain ⟨hr, ha⟩ := h address o (mem_entries_iff.mp hmem)
  refine ⟨?_, ha⟩
  simp only [beginRefreshRound, decide_eq_true_eq] at hround ⊢
  omega

section

variable {b : Report} {update : Ending} (h : Observed r) (hb : b ∈ r.reports)

include h hb

theorem probed_publishHashRing (hconfirmed : b.version < r.currentVersion → Confirmed r b) :
    Probed r (r.publishHashRing b.version b.ring update) := by
  unfold publishHashRing
  split
  · exact ⟨h, fun _ ha => ha, .inr ⟨b, hb, rfl, rfl, hconfirmed⟩⟩
  · exact h.refl

theorem probed_tryPublishEpochReset (hround : b.round = r.refreshRound) {done}
    (heq : r.tryPublishEpochReset b.worker b.version b.ring update = (r', done)) :
    Probed r r' ∧ (done = false → Unpublished r r') := by
  unfold tryPublishEpochReset recordLowerVersionAndCheckConfirmation at heq
  split at heq
  · cases heq
    exact ⟨h.refl, fun _ => ⟨rfl, rfl⟩⟩
  by_cases hany : r.lowerVersionObs.entries.any fun e =>
      e.1 ≠ b.worker.toString ∧ e.2.version = b.version ∧ e.2.digest = buildRingDigest b.ring
  · rw [if_pos hany] at heq
    cases heq
    obtain ⟨⟨address, o⟩, hmem, he⟩ := List.any_eq_true.mp hany
    obtain ⟨hne, hsame⟩ := of_decide_eq_true he
    obtain ⟨hr, a, ha, haddr, hav, har, had⟩ := h address o (mem_entries_iff.mp hmem)
    have hconfirmed : Confirmed r b :=
      ⟨a, ha, haddr ▸ hne, hav.trans hsame.1, had.trans hsame.2, by omega⟩
    have hclear : Observed { r with lowerVersionObs := .empty } := fun _ _ ho => by cases ho
    have hp : Probed r _ := ⟨hclear, fun _ ha => ha, .inl ⟨rfl, rfl⟩⟩
    exact ⟨hp.trans ⟨rfl, rfl⟩ (probed_publishHashRing hclear hb fun _ => hconfirmed), by simp⟩
  · rw [if_neg hany] at heq
    cases heq
    refine ⟨⟨fun address o ho => ?_, fun _ ha => ha, .inl ⟨rfl, rfl⟩⟩, fun _ => ⟨rfl, rfl⟩⟩
    rw [find?_insert] at ho
    split at ho
    · rename_i haddr
      cases ho
      exact ⟨.inl rfl, b, hb, haddr.symm, rfl, hround, rfl⟩
    · exact h address o ho

end

/-- A pass in which no worker was reached has published nothing. -/
theorem probed_probeRound {stopAware} {probes} {reached} (h : Observed r) {out}
    (heq : probeRound stopAware probes r reached = out) :
    Probed r out.1 ∧ (out.2.2 = false → Unpublished r out.1) := by
  subst heq
  induction probes generalizing r reached with
  | nil => exact ⟨h.refl, fun _ => ⟨rfl, rfl⟩⟩
  | cons probe rest ih =>
    unfold probeRound
    split
    · exact ⟨h.refl, fun _ => ⟨rfl, rfl⟩⟩
    split
    · exact ih h
    · exact ⟨h.refl, fun _ => ⟨rfl, rfl⟩⟩
    · exact ih h
    · rename_i newVersion ring _
      have hobserved : Observed (r.report probe.worker newVersion ring) := by
        intro address o ho
        obtain ⟨hr, a, ha, hrest⟩ := h address o ho
        exact ⟨hr, a, List.mem_cons_of_mem _ ha, hrest⟩
      have hreport : Probed r (r.report probe.worker newVersion ring) :=
        ⟨hobserved, fun _ ha => List.mem_cons_of_mem _ ha, .inl ⟨rfl, rfl⟩⟩
      have hb : Report.mk probe.worker r.refreshRound newVersion ring ∈
        (r.report probe.worker newVersion ring).reports := List.mem_cons_self
      dsimp only
      split
      · split <;> rename_i heq <;>
          obtain ⟨hp, hun⟩ := probed_tryPublishEpochReset hobserved hb rfl heq
        · exact ⟨hreport.trans ⟨rfl, rfl⟩ hp, by simp⟩
        · have hun := hun rfl
          obtain ⟨hq, hrest⟩ := ih hp.observed
          refine ⟨(hreport.trans ⟨rfl, rfl⟩ hp).trans hun hq, fun hf => ?_⟩
          exact ⟨(hrest hf).1.trans hun.1, (hrest hf).2.trans hun.2⟩
      · rename_i hle
        exact ⟨hreport.trans ⟨rfl, rfl⟩
          (probed_publishHashRing hobserved hb fun hlt => absurd hlt hle), by simp⟩

theorem probed_doRefresh {stopAware stopped} {workers} {candidates} (h : Observed r) :
    Probed r (r.doRefresh stopAware stopped workers candidates).1 := by
  have hbegin : Probed r r.beginRefreshRound :=
    ⟨observed_beginRefreshRound h, fun _ ha => ha, .inl ⟨rfl, rfl⟩⟩
  unfold doRefresh
  split <;> rename_i heq <;> obtain ⟨hp, hun⟩ := probed_probeRound hbegin.observed heq
  · exact hbegin.trans ⟨rfl, rfl⟩ hp
  have hfirst := hbegin.trans ⟨rfl, rfl⟩ hp
  split
  · exact hfirst
  · rename_i hnot
    split
    · exact hfirst
    · exact hfirst
    · refine hfirst.trans (hun ?_) (probed_probeRound hp.observed rfl).1
      simp_all

end HashRingRefresher

/-- What a round of `DoRefreshSafely` meets. -/
structure Round where
  stopAware : Bool
  stopped : Bool
  workers : List Probe
  candidates : Option (List Probe)

namespace HashRingRefresher

def refresh (r : HashRingRefresher) (round : Round) : Option HashRingRefresher :=
  some (r.doRefreshSafely round.stopAware round.stopped round.workers round.candidates).1

theorem refresh_eq (r : HashRingRefresher) (round : Round) : r.refresh round =
    some (r.doRefresh round.stopAware round.stopped round.workers round.candidates).1 := by
  unfold refresh doRefreshSafely
  split <;> simp_all

theorem observed_of_reaches {r : HashRingRefresher} (h : Reaches refresh {} r) : Observed r := by
  refine h.invariant (fun _ _ ho => by cases ho) fun s s' round hs ho => ?_
  rw [refresh_eq] at hs
  cases hs
  exact (probed_doRefresh ho).observed

/-- The version goes back only to a ring that two workers report with that version and the same
digest, in the same round or one after the other. With the version that it has, a client takes any
ring that a worker reports. -/
theorem version_back_only_confirmed {r r' : HashRingRefresher} {round : Round}
    (h : Reaches refresh {} r) (hr : r.refresh round = some r') :
    (r'.currentVersion < r.currentVersion → ∃ a ∈ r'.reports, ∃ b ∈ r'.reports,
      r'.published = some b.ring ∧ a.worker.toString ≠ b.worker.toString ∧
        (a.version = r'.currentVersion ∧ b.version = r'.currentVersion) ∧
        buildRingDigest a.ring = buildRingDigest b.ring ∧
        (a.round = b.round ∨ a.round + 1 = b.round)) ∧
      (r'.currentVersion = r.currentVersion → r'.published = r.published ∨
        ∃ b ∈ r'.reports, b.version = r'.currentVersion ∧ r'.published = some b.ring) := by
  rw [refresh_eq] at hr
  cases hr
  rcases (probed_doRefresh (observed_of_reaches h)).outcome with hun | ⟨b, hb⟩
  · exact ⟨fun hlt => absurd (hun.1 ▸ hlt) (lt_irrefl _), fun _ => .inl hun.2⟩
  · refine ⟨fun hlt => ?_, fun _ => .inr ⟨b, hb.reported, hb.version.symm, hb.ring⟩⟩
    rw [hb.version] at hlt
    obtain ⟨a, ha, hne, hversion, hdigest, hround⟩ := hb.confirmed hlt
    exact ⟨a, ha, b, hb.reported, hb.ring, hne,
      ⟨hversion.trans hb.version.symm, hb.version.symm⟩, hdigest, hround⟩

/-- A ring of one active worker. -/
def ringOfOne (tokensPerMember : Nat) : ClusterTopologyPb :=
  ⟨true, OrderedMap.empty.insert (ascii "w") ⟨[], toPbState .active, []⟩, 0, [], none,
    tokensPerMember⟩

/-- One worker is asked, and answers. -/
def roundOf (host : String) (version tokensPerMember : Nat) : Round :=
  ⟨true, false, [⟨⟨ascii host, 1, false⟩, false,
    .answered true version (ringOfOne tokensPerMember), .returned (.ok ())⟩], none⟩

theorem version_back_only_confirmed_of_three : ∃ r r', Reaches refresh {} r ∧
    r.refresh (roundOf "b" 3 1) = some r' ∧ r'.currentVersion < r.currentVersion ∧
    ∃ a ∈ r'.reports, ∃ b ∈ r'.reports, r'.published = some b.ring ∧
      a.worker.toString ≠ b.worker.toString ∧ buildRingDigest a.ring = buildRingDigest b.ring := by
  obtain ⟨r, h, hr⟩ : ∃ r, Reaches refresh {} r ∧ (r.refresh (roundOf "b" 3 1)).any fun r' =>
      r'.currentVersion < r.currentVersion :=
    exists_reaches [roundOf "a" 5 1, roundOf "a" 3 1] (by decide +kernel)
  obtain ⟨r', hr', he⟩ := (Option.any_eq_true _ _).mp hr
  have hlt := of_decide_eq_true he
  obtain ⟨a, ha, b, hb, hring, hne, -, hdigest, -⟩ := (version_back_only_confirmed h hr').1 hlt
  exact ⟨r, r', h, hr', hlt, a, ha, b, hb, hring, hne, hdigest⟩

theorem version_back_unconfirmed : (∃ r, Reaches refresh {} r ∧ r.currentVersion = 5 ∧
      (r.refresh (roundOf "a" 5 2)).any fun r' => r'.currentVersion = 5 ∧
        r.published = some (ringOfOne 1) ∧ r'.published = some (ringOfOne 2)) ∧
    ∃ r, Reaches refresh {} r ∧ r.currentVersion = 5 ∧
      (r.refresh (roundOf "b" 3 2)).any fun r' => r'.currentVersion = 3 ∧
        ∀ a ∈ r'.reports, ∀ b ∈ r'.reports, a.worker.toString ≠ b.worker.toString →
          routing a.ring ≠ routing b.ring := by
  constructor
  · exact exists_reaches [roundOf "a" 5 1] (by decide +kernel)
  · exact exists_reaches [roundOf "a" 5 1, roundOf "a" 3 1] (by decide +kernel)

end HashRingRefresher

end Datasystem.Client
