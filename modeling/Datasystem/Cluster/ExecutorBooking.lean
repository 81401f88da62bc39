import Datasystem.Cluster.ExecutorFlights
import Datasystem.Cluster.Handover

/-! Bookkeeping of the executor over whole runs. Every flight holds the token of its
own operation, the Run loop only works on operations without a token, and so no two
threads ever work on the same operation. -/

namespace Datasystem.Cluster

open Common Lib Checked TopologyTaskExecutor TopologyRepository ExecutorSystem
open List OrderedMap Option OperationState
open StateMachine (Reaches)

/-! ## The Run loop and its operations -/

/-- An operation that a tick goes through. -/
structure Waits (w : WorkerSetup) (x : TopologyTaskExecutor) (due : Bytes × TopologyTask) :
    Prop where
  named : w.operation due.2 = due.1
  admissible : Admissible w x due.2
  free : ∀ state, x.operations.find? due.1 = some state →
    state.task = due.2 ∧ state.cancellation = none

/-- The operations that a tick still has to go through. -/
structure DueSound (w : WorkerSetup) (x : TopologyTaskExecutor)
    (rest : List (Bytes × TopologyTask)) : Prop where
  distinct : (rest.map Prod.fst).Nodup
  waits : ∀ due ∈ rest, Waits w x due

/-- A tick found an operation that was ready for its mark. It built the fence from the booked task
and from the published snapshot, and read neither from the backend. -/
def FoundDue (w : WorkerSetup) (now : ExecutorSystem) (operation : Bytes)
    (fence : TopologyExecutionFence) (e : FenceEvidence) : Prop :=
  ∃ s state rest, Past w now s ∧ s.run = .due ((operation, e.task) :: rest) ∧
    s.executor.operations.find? operation = some state ∧ state.task = e.task ∧
    state.progressReady ∧ s.snapshot = some e.topology ∧ e.Shows w fence

/-- The tick then marks the task. -/
def ProgressMark.OfTick (w : WorkerSetup) (now : ExecutorSystem) (m : ProgressMark) : Prop :=
  ∃ s operation e rest answers, Past w now s ∧ FoundDue w s operation m.fence e ∧
    s.run = .progress operation m.fence e .mark rest ∧ m = s.progressMark m.fence none answers

/-- What the next step of the Run loop relies on. -/
def RunStage.Sound (w : WorkerSetup) (now : ExecutorSystem) (x : TopologyTaskExecutor) :
    RunStage → Prop
  | .idle => True
  | .reading batch _ => batch.epoch = x.currentEpoch
  | .submitting batch task _ =>
    batch.epoch = x.currentEpoch ∧ task.epoch = x.currentEpoch ∧ 0 < x.currentEpoch
  | .due rest => DueSound w x rest
  | .gate operation task fence rest | .resubmit operation task fence _ rest =>
    DueSound w x ((operation, task) :: rest) ∧ fence = w.fenceOf task
  | .preserve operation task _ rest => DueSound w x ((operation, task) :: rest)
  | .progress operation fence evidence _ rest =>
    DueSound w x ((operation, evidence.task) :: rest) ∧ fence = w.fenceOf evidence.task ∧
      FoundDue w now operation fence evidence

/-- A call of `MarkTaskScopeFinished` was made for a fence that had just been built again, by a
completion or by a tick; it was for the epoch that the running executor works for, and wrote at most
the task that its fence describes. -/
structure ProgressMark.Justified (w : WorkerSetup) (now : ExecutorSystem) (m : ProgressMark) :
    Prop where
  completion : ∀ token ∈ m.completion, m.OfCompletion w now token
  tick : m.completion = none → m.OfTick w now
  current : m.started → m.fence.batchEpoch = m.currentEpoch
  stored : m.FitsStored

/-- The tables, the flights and the marks of a system. -/
structure FlightsSound (w : WorkerSetup) (now s : ExecutorSystem) : Prop where
  booked : Booked w s.executor
  snapshot : ∀ snapshot ∈ s.snapshot, KeepsMemberIds w.memberId snapshot
  flights : ∀ token f, s.flights.find? token = some f → FlightSound w now s.executor token f
  single : ∀ token token' f f', s.flights.find? token = some f → s.flights.find? token' = some f' →
    f.operation = f'.operation → token = token'
  progress : ∀ m ∈ s.progress, m.Justified w now

structure Sound (w : WorkerSetup) (now s : ExecutorSystem) : Prop extends FlightsSound w now s where
  run : s.run.Sound w now s.executor

section

variable {w : WorkerSetup} {now now' : ExecutorSystem} {x x' : TopologyTaskExecutor} {o : Bytes}

/-! ## Other threads -/

variable {due : Bytes × TopologyTask} {rest : List (Bytes × TopologyTask)} {run : RunStage}
  {s s' : ExecutorSystem} {fence : TopologyExecutionFence} {task : TopologyTask}
  {allowDataDrain : Bool} {operation : Bytes} {token : Nat} {f : Flight} {stage : FlightStage}

theorem FoundDue.later {e} (h : FoundDue w now operation fence e)
    (hnow : Reaches (step w) now now') : FoundDue w now' operation fence e := by
  obtain ⟨s, state, rest, hpast, hfound⟩ := h
  exact ⟨s, state, rest, hpast.later hnow, hfound⟩

theorem RunStage.Sound.later (h : run.Sound w now x) (hnow : Reaches (step w) now now') :
    run.Sound w now' x := by
  cases run with
  | progress => exact ⟨h.1, h.2.1, h.2.2.later hnow⟩
  | _ => exact h

theorem ProgressMark.Justified.later {m : ProgressMark} (h : m.Justified w now)
    (hnow : Reaches (step w) now now') : m.Justified w now' where
  completion token htoken := (h.completion token htoken).later hnow
  tick hnone := by
    obtain ⟨s, operation, e, rest, answers, hpast, hmade⟩ := h.tick hnone
    exact ⟨s, operation, e, rest, answers, hpast.later hnow, hmade⟩
  current := h.current
  stored := h.stored

/-- What the run had gone through, it has gone through later. -/
theorem Sound.later (h : Sound w now s) (hnow : Reaches (step w) now now') : Sound w now' s where
  booked := h.booked
  snapshot := h.snapshot
  flights token f hfind := (h.flights token f hfind).later hnow
  single := h.single
  progress m hm := (h.progress m hm).later hnow
  run := h.run.later hnow

/-- A flight goes on relying on its token and on what its operation holds. -/
theorem FlightSound.keep (h : FlightSound w now x token f) (htokens : x.tokens ≤ x'.tokens)
    (hstage : stage.Sound w now token f.fence)
    (hheld : x'.started → x.started ∧ (x'.operations.find? f.operation).map held =
      (x.operations.find? f.operation).map held) :
    FlightSound w now x' token { f with stage := stage } where
  fresh := Nat.lt_of_lt_of_le h.fresh htokens
  named := h.named
  stage := hstage
  holds := by
    intro hstarted
    obtain ⟨hold, hsame⟩ := hheld hstarted
    obtain ⟨state, hfind, htoken, hfence⟩ := h.holds hold
    obtain ⟨state', hfind', htask, htok, -⟩ := exists_of_held hsame hfind
    exact ⟨state', hfind', htok.trans htoken, htask ▸ hfence⟩

/-- Work on another operation leaves a flight its token. -/
theorem FlightSound.touches (h : FlightSound w now x token f)
    (ht : Touches o x x') (hne : x.started → f.operation ≠ o) : FlightSound w now x' token f := by
  refine h.keep ht.tokens h.stage fun hstarted => ?_
  rw [ht.started] at hstarted
  exact ⟨hstarted, ht.held (hne hstarted)⟩

/-- A tick relies on the epoch and on the operations that it finds. -/
theorem DueSound.imp (h : DueSound w x rest) (hepoch : x'.currentEpoch = x.currentEpoch)
    (hfind : ∀ due ∈ rest, ∀ state', x'.operations.find? due.1 = some state' →
      ∃ state, x.operations.find? due.1 = some state ∧ state.task = state'.task ∧
        state.cancellation = state'.cancellation) : DueSound w x' rest where
  distinct := h.distinct
  waits := by
    intro due hdue
    obtain ⟨hnamed, ⟨hcurrent, hpositive, hexecutor⟩, hfree⟩ := h.waits due hdue
    refine ⟨hnamed, ⟨hcurrent.trans hepoch.symm, hepoch ▸ hpositive, hexecutor⟩,
      fun state' hstate => ?_⟩
    obtain ⟨state, hold, htask, htoken⟩ := hfind due hdue state' hstate
    exact htask ▸ htoken ▸ hfree state hold

theorem DueSound.touches (h : DueSound w x rest) (ht : Touches o x x')
    (hheld : ∀ due ∈ rest, due.1 = o → (x'.operations.find? o).map held =
      (x.operations.find? o).map held) : DueSound w x' rest := by
  refine h.imp ht.currentEpoch fun due hdue state' hfind' => ?_
  have hsame : (x'.operations.find? due.1).map held = (x.operations.find? due.1).map held := by
    by_cases heq : due.1 = o
    · rw [heq]
      exact hheld due hdue heq
    · exact ht.held heq
  obtain ⟨state, hfind, htask, htoken, -⟩ := exists_of_held hsame.symm hfind'
  exact ⟨state, hfind, htask, htoken⟩

theorem DueSound.fly (h : DueSound w x rest) (ht : Touches o x x') (hbooked : Booked w x')
    (hheld : x.started → ∃ state token, x.operations.find? o = some state ∧
      state.cancellation = some token) : DueSound w x' rest := by
  cases hstarted : x'.started with
  | false =>
    -- after a stop nothing is booked, so nothing is in the way of a tick
    refine h.imp ht.currentEpoch fun due hdue state hfind => ?_
    rw [hbooked.stopped hstarted] at hfind
    cases hfind
  | true =>
    refine h.touches ht fun due hdue heq => ?_
    rw [ht.started] at hstarted
    obtain ⟨state, token, hfind, htoken⟩ := hheld hstarted
    have hnone := ((h.waits due hdue).free state (heq ▸ hfind)).2
    rw [htoken] at hnone
    cases hnone

theorem DueSound.tail
    (h : DueSound w x (due :: rest)) (ht : Touches due.1 x x') : DueSound w x' rest := by
  have hrest : DueSound w x rest :=
    ⟨(nodup_cons.mp h.distinct).2, fun other hother => h.waits other (mem_cons_of_mem _ hother)⟩
  refine hrest.touches ht fun other hother heq => ?_
  exact absurd (heq ▸ mem_map_of_mem hother) (nodup_cons.mp h.distinct).1

/-- What the Run loop relies on: the epoch, and the operations of a tick. -/
theorem RunStage.Sound.imp (h : run.Sound w now x) (hepoch : x'.currentEpoch = x.currentEpoch)
    (hdue : ∀ rest, DueSound w x rest → DueSound w x' rest) : run.Sound w now x' := by
  cases run with
  | idle => trivial
  | reading => exact h.trans hepoch.symm
  | submitting =>
    exact ⟨h.1.trans hepoch.symm, h.2.1.trans hepoch.symm, hepoch ▸ h.2.2⟩
  | due rest => exact hdue rest h
  | gate | resubmit | progress => exact ⟨hdue _ h.1, h.2⟩
  | preserve => exact hdue _ h

/-! ## Flights -/

theorem find?_settleFlight (hflights : s'.flights = s.flights) (next) (token' : Nat) :
    (s'.settleFlight token f next).flights.find? token' = if token' = token then
      next.map fun stage => { f with stage := stage } else s.flights.find? token' := by
  cases next with
  | none =>
    show (s'.flights.erase token).find? token' = _
    rw [find?_erase, hflights]
    rfl
  | some stage =>
    show (s'.flights.insert token { f with stage := stage }).find? token' = _
    rw [find?_insert, hflights]
    rfl

theorem FlightSound.current (h : FlightSound w now s.executor token f)
    (hbooked : Booked w s.executor)
    (hstarted : s.executor.started) : f.fence.batchEpoch = s.executor.currentEpoch := by
  obtain ⟨state, hfind, -, hfence⟩ := h.holds hstarted
  rw [hfence, batchEpoch_fenceOf]
  exact (hbooked.entry _ state hfind).current

theorem FlightSound.justified {answers} (h : FlightSound w now s.executor token f)
    (hbooked : Booked w s.executor)
    (hmark : (s.progressMark f.fence (some token) answers).OfCompletion w now token) :
    (s.progressMark f.fence (some token) answers).Justified w now where
  completion t ht := by
    cases ht
    exact hmark
  tick := nofun
  current := h.current hbooked
  stored := fitsStored_progressMark _ _

/-- Whatever leaves the flights what they are and what they rely on. -/
theorem FlightsSound.keep (h : FlightsSound w now s)
    (hsnapshot : s'.snapshot = s.snapshot) (hflights : s'.flights = s.flights)
    (hbooked : Booked w s'.executor)
    (hflight : ∀ t g, FlightSound w now s.executor t g → FlightSound w now s'.executor t g)
    (hprogress : ∀ m ∈ s'.progress, m ∈ s.progress ∨ m.Justified w now) :
    FlightsSound w now s' where
  booked := hbooked
  snapshot := hsnapshot ▸ h.snapshot
  flights t g hg := hflight t g (h.flights t g (hflights ▸ hg))
  single := hflights ▸ h.single
  progress m hm := (hprogress m hm).elim (h.progress m) id

theorem FlightsSound.withRun (h : FlightsSound w now s)
    (hrun : run.Sound w now s.executor) : Sound w now { s with run := run } :=
  ⟨h.keep rfl rfl h.booked (fun _ _ => id) fun _ => .inl, hrun⟩

theorem Sound.fly (h : Sound w now s) (hfind : s.flights.find? token = some f)
    {next : Option FlightStage} (hstep : FlightStep w now token f s s' next) :
    Sound w now (s'.settleFlight token f next) := by
  have hflights := h.flights token f hfind
  refine ⟨⟨hstep.booked h.booked, ?_, ?_, ?_, ?_⟩, ?_⟩
  · show ∀ snapshot ∈ s'.snapshot, _
    rw [hstep.snapshot]
    exact h.snapshot
  · intro token' f' hfind'
    rw [find?_settleFlight hstep.flights] at hfind'
    split at hfind'
    · obtain ⟨stage, rfl, rfl⟩ := map_eq_some_iff.mp hfind'
      subst token'
      exact hflights.keep hstep.touches.tokens (hstep.sound stage rfl) fun hstarted =>
        ⟨hstep.touches.started ▸ hstarted, hstep.held rfl⟩
    · rename_i hne
      refine (h.flights token' f' hfind').touches hstep.touches fun _ heq => hne ?_
      exact h.single token' token f' f hfind' hfind heq
  · intro first second f₁ f₂ hfirst hsecond heq
    -- a flight keeps its operation as long as it lasts
    have hold : ∀ {t : Nat} {g : Flight}, (s'.settleFlight token f next).flights.find? t = some g →
          ∃ g₀, s.flights.find? t = some g₀ ∧ g₀.operation = g.operation := by
      intro t g hg
      rw [find?_settleFlight hstep.flights] at hg
      split at hg
      · rename_i heq
        obtain ⟨stage, -, rfl⟩ := map_eq_some_iff.mp hg
        exact ⟨f, heq ▸ hfind, rfl⟩
      · exact ⟨g, hg, rfl⟩
    obtain ⟨g₁, hg₁, h₁⟩ := hold hfirst
    obtain ⟨g₂, hg₂, h₂⟩ := hold hsecond
    exact h.single first second g₁ g₂ hg₁ hg₂ (h₁.trans (heq.trans h₂.symm))
  · intro m hm
    rcases hstep.progress m hm with hm | ⟨hmark, answers, rfl⟩
    · exact h.progress m hm
    · exact hflights.justified h.booked hmark
  · show s'.run.Sound w now s'.executor
    rw [hstep.run]
    refine h.run.imp hstep.touches.currentEpoch fun rest hdue => ?_
    refine hdue.fly hstep.touches (hstep.booked h.booked) fun hstarted => ?_
    obtain ⟨state, hstate, htoken, -⟩ := hflights.holds hstarted
    exact ⟨state, token, hstate, htoken⟩

/-! ## Launches -/

/-- What a launch of a task makes of the system. -/
inductive Launched (w : WorkerSetup) (task : TopologyTask) (allowDataDrain : Bool)
    (s : ExecutorSystem) : ExecutorSystem × Result Unit → Prop
  | idle {x : TopologyTaskExecutor} {result : Result (Option Nat)} {r : Result Unit}
      (admission : Admission w task allowDataDrain s.executor x result)
      (none : ∀ token, result ≠ .ok (some token)) :
      Launched w task allowDataDrain s ({ s with executor := x }, r)
  | flight {x : TopologyTaskExecutor} {token : Nat}
      (admission : Admission w task allowDataDrain s.executor x (.ok (some token))) :
      Launched w task allowDataDrain s
        ({ s with
            executor := x
            flights := s.flights.insert token
              ⟨w.fenceOf task, w.operation task, allowDataDrain, .validate .readTask⟩ }, .ok ())

theorem launched_launch (allowDataDrain) (htask : Admissible w s.executor task) (answers) :
    Launched w task allowDataDrain s (s.launch w task (w.fenceOf task) allowDataDrain answers) := by
  have hadmission := admission_submitCallback allowDataDrain htask w.options answers.now
    answers.draw answers.enqueue
  unfold launch
  dsimp only
  split
  all_goals
    rename_i heq
    rw [WorkerSetup.operation, heq] at hadmission
  · exact .idle hadmission nofun
  · exact .idle hadmission nofun
  · exact .flight hadmission

theorem FlightSound.owns (h : FlightSound w now x token f) (hstarted : x.started) :
    x.ownsToken f.operation := by
  obtain ⟨state, hfind, htoken, -⟩ := h.holds hstarted
  rw [ownsToken, hfind, any_some, htoken]
  rfl

/-- Only an operation without a token is changed, so no flight is disturbed. -/
theorem FlightSound.ofAdmission {result} (h : FlightSound w now x token f)
    (ha : Admission w task allowDataDrain x x' result) : FlightSound w now x' token f := by
  by_cases howns : x.ownsToken (w.operation task)
  · rw [(ha.owned howns).1]
    exact h
  · refine h.touches ha.touches fun hstarted heq => howns ?_
    exact heq ▸ h.owns hstarted

theorem FlightsSound.launch {launched} (h : FlightsSound w now s)
    (hl : Launched w task allowDataDrain s launched) : FlightsSound w now launched.1 := by
  cases hl with
  | idle ha _ =>
    exact h.keep rfl rfl (ha.booked h.booked) (fun _ _ hflights => hflights.ofAdmission ha) fun _ =>
      .inl
  | @flight x' granted ha =>
    obtain ⟨hstarted, rfl, hfresh, state, hfind, htoken, htask, -⟩ := ha.granted granted rfl
    have hother : ∀ t g, s.flights.find? t = some g → g.operation ≠ w.operation task := by
      intro t g hg heq
      exact (ha.owned (heq ▸ (h.flights t g hg).owns hstarted)).2 _ rfl
    refine ⟨ha.booked h.booked, h.snapshot, fun t g hg => ?_, ?_, h.progress⟩
    · dsimp only at hg
      rw [find?_insert] at hg
      split at hg
      · cases hg
        subst t
        exact ⟨hfresh, rfl, trivial, fun _ => ⟨state, hfind, htoken, htask ▸ rfl⟩⟩
      · exact (h.flights t g hg).ofAdmission ha
    · intro first second f₁ f₂ hfirst hsecond heq
      dsimp only at hfirst hsecond
      rw [find?_insert] at hfirst hsecond
      split at hfirst <;> split at hsecond
      · rename_i hsame hsame'
        exact hsame.trans hsame'.symm
      · cases hfirst
        exact absurd heq.symm (hother second f₂ hsecond)
      · cases hsecond
        exact absurd heq (hother first f₁ hfirst)
      · exact h.single first second f₁ f₂ hfirst hsecond heq

theorem Launched.touches {launched} (hl : Launched w task allowDataDrain s launched) :
    Touches (w.operation task) s.executor launched.1.executor := by
  cases hl with
  | idle ha _ | flight ha => exact ha.touches

/-! ## Steps of the Run loop -/

theorem buildLocalFence_eq_ok {snapshot}
    (hids : ∀ published ∈ snapshot, KeepsMemberIds w.memberId published)
    (h : buildLocalFence w.sha256 w.localAddress task snapshot = .ok fence) :
    fence = w.fenceOf task ∧ task.executorAddress = w.localAddress ∧
      ∀ published ∈ snapshot, FenceEvidence.Shows w fence ⟨task, published⟩ := by
  cases snapshot with
  | none => cases h
  | some published =>
    obtain ⟨rfl, hlocal⟩ := buildExecutionFence_eq_ok (hids published rfl) h
    refine ⟨rfl, hlocal, fun other hother => ?_⟩
    cases hother
    unfold FenceEvidence.Shows
    rw [phase_fenceOf]
    exact h

/-- The Run loop works on an operation that no flight holds. -/
theorem FlightsSound.work (h : FlightsSound w now s)
    (hsnapshot : s'.snapshot = s.snapshot) (hflights : s'.flights = s.flights)
    (hworks : Works w o s.executor s'.executor)
    (hfree : ∀ state, s.executor.operations.find? o = some state → state.cancellation = none)
    (hprogress : ∀ m ∈ s'.progress, m ∈ s.progress ∨ m.Justified w now) :
    FlightsSound w now s' := by
  refine h.keep hsnapshot hflights (hworks.booked h.booked) (fun t g hflight => ?_) hprogress
  refine hflight.touches hworks.touches fun hstarted heq => ?_
  obtain ⟨state, hfind, htoken, -⟩ := hflight.holds hstarted
  have hnone := hfree state (heq ▸ hfind)
  rw [htoken] at hnone
  cases hnone

theorem sound_inspectDue (h : FlightsSound w now s) (hpast : Past w now s)
    (hrun : s.run = .due ((operation, task) :: rest))
    (hdue : DueSound w s.executor ((operation, task) :: rest)) :
    (s.inspectDue w operation task rest).Sound w now s.executor := by
  unfold inspectDue
  split
  · exact hdue.tail (.refl _ _)
  · exact hdue
  · exact hdue.tail (.refl _ _)
  · rename_i state snapshot fence hfind hsnapshot hfence
    obtain ⟨hsame, -, hshows⟩ := buildLocalFence_eq_ok h.snapshot hfence
    split
    · rename_i hready
      have htask := ((hdue.waits _ mem_cons_self).free state hfind).1
      exact ⟨hdue, hsame, s, state, rest, hpast, hrun, hfind, htask, hready, hsnapshot,
        hshows snapshot hsnapshot⟩
    · split
      · exact ⟨hdue, hsame⟩
      · exact ⟨hdue, hsame⟩

/-- A launch without a flight leaves the tick its operation. -/
theorem DueSound.launch {r} (hdue : DueSound w x ((operation, task) :: rest))
    (ha : Admission w task allowDataDrain x x' r) (hnone : ∀ t, r ≠ .ok (some t)) :
    DueSound w x' ((operation, task) :: rest) := by
  obtain ⟨hnamed, hadmission, hfree⟩ := hdue.waits _ mem_cons_self
  dsimp only at hnamed hadmission hfree
  subst hnamed
  have htok : x.ownsToken (w.operation task) = false := by
    rw [ownsToken]
    cases hfind : x.operations.find? (w.operation task) with
    | none => rfl
    | some state =>
      rw [any_some, (hfree state hfind).2]
      rfl
  refine ⟨hdue.distinct, fun due hmem => ?_⟩
  rcases mem_cons.mp hmem with rfl | hmem
  · refine ⟨rfl, hadmission.touches ha.touches, fun state' hfind' => ⟨?_, ?_⟩⟩
    · rcases ha.keeps state' hfind' with htask | ⟨state, hfind, htask⟩
      · exact htask
      · exact htask.trans (hfree state hfind).1
    · have hstill := ha.free hnone htok
      rw [ownsToken, hfind', any_some] at hstill
      exact isNone_iff_eq_none.mp (isSome_eq_false_iff.mp hstill)
  · exact (hdue.tail ha.touches).waits due hmem

theorem Sound.resubmit (h : FlightsSound w now s)
    (hdue : DueSound w s.executor ((operation, task) :: rest)) (answers) :
    Sound w now (match s.launch w task (w.fenceOf task) allowDataDrain answers with
      | (s', .error status) => { s' with run := .preserve operation task status rest }
      | (s', .ok _) => { s' with run := .due rest }) := by
  have hwaits := hdue.waits _ mem_cons_self
  have hl := launched_launch (w := w) (s := s) allowDataDrain hwaits.admissible answers
  have hsound := h.launch hl
  have htouches : Touches operation s.executor _ := hwaits.named ▸ hl.touches
  split
  · rename_i s' status heq
    rw [heq] at hl hsound
    refine hsound.withRun ?_
    cases hl with
    | idle ha hnone => exact hdue.launch ha hnone
  · rename_i s' _ heq
    rw [heq] at hsound htouches
    exact hsound.withRun (hdue.tail htouches)

/-- A step of `CompleteProgress` in a tick, whether it is the last one or not. -/
theorem FlightsSound.tickProgress (h : FlightsSound w now s) (hpast : Past w now s)
    {evidence : FenceEvidence} {stage : ProgressStage}
    (hstage : s.run = .progress operation fence evidence stage rest)
    (hrun : RunStage.Sound w s s.executor (.progress operation fence evidence stage rest))
    {next : Option ProgressStage} (hstep : ProgressStep w fence operation none stage s s' next) :
    FlightsSound w now s' ∧ DueSound w s'.executor rest ∧ ∀ stage', next = some stage' →
      RunStage.Sound w now s'.executor (.progress operation fence evidence stage' rest) := by
  obtain ⟨hdue, hfence, hfound⟩ := hrun
  have hwaits := hdue.waits _ mem_cons_self
  have hcurrent : fence.batchEpoch = s.executor.currentEpoch := by
    rw [hfence, batchEpoch_fenceOf]
    exact hwaits.admissible.current
  refine ⟨?_, hdue.tail hstep.works.touches, ?_⟩
  · refine h.work (o := operation) ?_ ?_ hstep.works (fun state hfind =>
      (hwaits.free state hfind).2)
      ?_
    · rw [hstep.frame]
    · rw [hstep.frame]
    · intro m hm
      refine (hstep.progress m hm).imp_right fun ⟨hmark, answers, hmade⟩ => ?_
      subst hmark hmade
      exact ⟨nofun, fun _ => ⟨s, operation, evidence, rest, answers, hpast, hfound, hstage, rfl⟩,
        fun _ => hcurrent, fitsStored_progressMark _ _⟩
  · intro stage' hnext
    refine ⟨hdue.touches hstep.works.touches fun _ _ _ => hstep.held ?_, hfence,
      hfound.later hpast.2⟩
    rw [hnext]
    rfl

theorem Sound.stepRun (hnow : Sound w s s) (hpast : Past w now s) (answers) :
    Sound w now (s.stepRun w answers) := by
  have h := hnow.later hpast.2
  have hrun := h.run
  unfold ExecutorSystem.stepRun
  cases hstage : s.run with
  | idle => exact h
  | reading batch rest =>
    rw [hstage] at hrun
    have hbatch : batch.epoch = s.executor.currentEpoch := hrun
    cases rest with
    | nil => exact h.withRun trivial
    | cons taskId rest =>
      dsimp only
      split
      · exact h.withRun hbatch
      · rename_i task hread
        have hstored := readAs_of_readTask (callRead_eq_ok hread)
        exact h.withRun ⟨hbatch, hstored.current.trans hbatch, hbatch ▸ hstored.positive⟩
  | submitting batch task rest =>
    rw [hstage] at hrun
    dsimp only
    split
    · exact h.withRun hrun.1
    · rename_i fence hfence
      obtain ⟨rfl, hlocal, -⟩ := buildLocalFence_eq_ok h.snapshot hfence
      obtain ⟨hbatch, htask, hpositive⟩ := hrun
      have hl := launched_launch (w := w) false ⟨htask, hpositive, hlocal⟩ answers
      exact (h.launch hl).withRun (hbatch.trans hl.touches.currentEpoch.symm)
  | due rest =>
    rw [hstage] at hrun
    cases rest with
    | nil => exact h.withRun trivial
    | cons => exact h.withRun (sound_inspectDue h.toFlightsSound hpast hstage hrun)
  | gate =>
    rw [hstage] at hrun
    refine h.withRun ?_
    unfold inspectGate
    split
    · exact hrun.1
    · exact hrun
    · exact hrun.1
  | resubmit =>
    rw [hstage] at hrun
    obtain ⟨hdue, rfl⟩ := hrun
    exact .resubmit h.toFlightsSound hdue answers
  | preserve operation task status rest =>
    rw [hstage] at hrun
    have hdue : DueSound w s.executor ((operation, task) :: rest) := hrun
    -- a due operation has no callback in flight, so its booking may be replaced
    have hwaits := hdue.waits _ mem_cons_self
    have hworks : Works w operation s.executor
        (s.executor.preserveDueOperation w.options operation task status answers.now) :=
      .preserveDueOperation w.options _ answers.now fun state hfind => (hwaits.free state hfind).1
    have hsound : FlightsSound w now { s with
        executor := s.executor.preserveDueOperation w.options operation task status answers.now } :=
      h.toFlightsSound.work rfl rfl hworks (fun state hfind => (hwaits.free state hfind).2)
        fun _ => .inl
    exact hsound.withRun (hdue.tail hworks.touches)
  | progress operation fence evidence stage rest =>
    have hticked := hnow.run
    rw [hstage] at hticked
    have hstep : ProgressStep w fence operation none stage s _ _ :=
      progressStep_stepProgress (.ok ()) answers
    dsimp only
    split
    all_goals
      rename_i heq
      rw [heq] at hstep
      obtain ⟨hsound, hrest, hnext⟩ := h.toFlightsSound.tickProgress hpast hstage hticked hstep
    · exact hsound.withRun (hnext _ rfl)
    · exact hsound.withRun hrest

/-! ## Notifies, ticks, start and stop -/

theorem FlightSound.congr (h : FlightSound w now x token f) (htokens : x'.tokens = x.tokens)
    (hkept : x'.started → x.started ∧ x'.operations = x.operations) :
    FlightSound w now x' token f := by
  refine h.keep htokens.ge h.stage fun hstarted => ?_
  obtain ⟨hold, hoperations⟩ := hkept hstarted
  exact ⟨hold, by rw [hoperations]⟩

theorem Sound.notify (h : Sound w now s) (hidle : s.run = .idle) (notify) :
    Sound w now (s.handleNotify w notify) := by
  unfold handleNotify
  split
  · split
    · exact h
    · split
      · exact h
      · rename_i batch _ _ _ _ _
        have hr := refreshed_refreshNotifyEpoch (x := s.executor) batch.epoch
        unfold acceptNotify
        split
        · rename_i x _ heq
          rw [heq] at hr
          have hbooked : Booked w x := h.booked.refresh hr
          cases hr with
          | draining _ =>
            refine ⟨h.keep rfl rfl hbooked (fun t g hflight => ?_) fun _ => .inl, ?_⟩
            · exact hflight.congr rfl fun hstarted => ⟨hstarted, rfl⟩
            · show s.run.Sound w now _
              rw [hidle]
              trivial
        · rename_i x _ heq
          rw [heq] at hr
          have hbooked : Booked w x := h.booked.refresh hr
          cases hr with
          | current _ =>
            refine ⟨h.keep rfl rfl hbooked (fun t g hflight => ?_) fun _ => .inl, rfl⟩
            exact hflight.congr rfl fun hstarted => ⟨hstarted, rfl⟩
          | cleared hzero =>
            refine ⟨h.keep rfl rfl hbooked (fun t g hflight => ?_) fun _ => .inl, rfl⟩
            -- no token is out, so no flight is left in a running executor
            refine ⟨hflight.fresh, hflight.named, hflight.stage, fun hstarted => ?_⟩
            obtain ⟨state, hfind, htoken, -⟩ := hflight.holds hstarted
            have hpos := h.booked.inFlight_pos hfind htoken
            omega
  · exact h

theorem dueSound_dueOperations (h : Booked w x) (time : Nat) :
    DueSound w x (x.dueOperations time) := by
  unfold dueOperations
  refine ⟨?_, ?_⟩
  · rw [List.map_map]
    exact (x.operations.keys_nodup.sublist (filter_sublist.map Prod.fst))
  · intro due hdue
    obtain ⟨e, he, rfl⟩ := mem_map.mp hdue
    obtain ⟨hmem, hcond⟩ := mem_filter.mp he
    have hfind := mem_entries_iff.mp hmem
    have hentry := h.entry e.1 e.2 hfind
    refine ⟨hentry.named, ⟨hentry.current, hentry.positive, hentry.executor⟩, ?_⟩
    intro state hstate
    cases hfind.symm.trans hstate
    exact ⟨rfl, (of_decide_eq_true hcond).2.2⟩

theorem Sound.stop (h : Sound w now s) :
    Sound w now { s with executor := s.executor.beginStop } := by
  refine ⟨h.keep rfl rfl h.booked.beginStop (fun t g hflight => ?_) fun _ => .inl, ?_⟩
  · exact hflight.congr rfl fun hstarted => ⟨hstarted, rfl⟩
  · exact h.run.imp rfl fun rest hdue =>
      hdue.imp rfl fun _ _ state hfind => ⟨state, hfind, rfl, rfl⟩

theorem Sound.joined (h : Sound w now s) :
    Sound w now { s with executor := s.executor.finishStop } := by
  refine ⟨h.keep rfl rfl booked_finishStop (fun t g hflight => hflight.congr rfl nofun) fun _ =>
    .inl, ?_⟩
  refine h.run.imp rfl fun rest hdue => hdue.imp rfl fun due _ state hfind => ?_
  have hempty : OrderedMap.empty.find? due.1 = some state := hfind
  cases hempty

theorem run_eq_idle (h : (run matches .idle) = true) : run = .idle := by
  cases run <;> first | rfl | cases h

theorem Sound.start (h : Sound w now s) (hs : s.startExecutor w = some s') : Sound w now s' := by
  obtain ⟨hcond, hs⟩ := ite_none_right_eq_some.mp hs
  have hrun := run_eq_idle (Bool.and_eq_true_iff.mp hcond).1
  split at hs
  · rename_i x hx
    cases hs
    refine ⟨⟨h.booked.start hx, h.snapshot, ?_, ?_, h.progress⟩, ?_⟩
    · intro t g hg
      cases hg
    · intro first second f₁ f₂ hfirst
      cases hfirst
    · show s.run.Sound w now x
      rw [hrun]
      trivial
  · cases hs

theorem Sound.step {action} (hnow : Sound w s s) (hreach : Reaches (step w) {} s)
    (hs : s.step w action = some s') : Sound w s' s' := by
  have hpast : Past w s' s := ⟨hreach, .next action .refl hs⟩
  have h := hnow.later hpast.2
  cases action with
  | commit | putTask | removeTask | putMarker | removeMarker | markedBefore =>
    cases hs
    exact ⟨h.keep rfl rfl h.booked (fun _ _ => id) fun _ => .inl, h.run⟩
  | start => exact h.start hs
  | stop =>
    obtain ⟨_, hs⟩ := ite_none_right_eq_some.mp hs
    cases hs
    exact h.stop
  | joined =>
    obtain ⟨_, hs⟩ := ite_none_right_eq_some.mp hs
    cases hs
    exact h.joined
  | publish =>
    obtain ⟨⟨_, hids⟩, hs⟩ := ite_none_right_eq_some.mp hs
    cases hs
    refine ⟨⟨h.booked, ?_, h.flights, h.single, h.progress⟩, h.run⟩
    intro published hpublished
    cases hpublished
    exact hids
  | notify notify =>
    obtain ⟨hidle, hs⟩ := ite_none_right_eq_some.mp hs
    cases hs
    exact h.notify (run_eq_idle hidle) notify
  | tick now =>
    obtain ⟨_, hs⟩ := ite_none_right_eq_some.mp hs
    cases hs
    exact h.withRun (dueSound_dueOperations h.booked now)
  | run answers =>
    have hstep := hnow.stepRun hpast answers
    rwa [Option.some.inj hs] at hstep
  | fly token answers =>
    unfold ExecutorSystem.step at hs
    dsimp only at hs
    split at hs
    · cases hs
    · rename_i f hfind
      cases hs
      have hflight := hnow.flights token f hfind
      exact h.fly hfind (flightStep_stepFlight hflight hpast hfind answers)

theorem sound_of_reaches (h : Reaches (step w) {} s) : Sound w s s := by
  induction h with
  | refl =>
    refine ⟨⟨booked_of_empty rfl rfl rfl rfl, ?_, ?_, ?_, ?_⟩, trivial⟩
    · intro snapshot hsnapshot
      cases hsnapshot
    · intro t g hg
      cases hg
    · intro first second f₁ f₂ hfirst
      cases hfirst
    · intro m hm
      cases hm
  | next a hreach hs ih => exact ih.step hreach hs

/-! ## Main results -/

/-- The weight of an entry is one for each token that is owned. -/
theorem sumBy_inFlight (operations : OrderedMap Bytes OperationState) : operations.sumBy inFlight =
      operations.values.countP fun state => state.cancellation.isSome := by
  unfold OrderedMap.sumBy
  induction operations.values with
  | nil => rfl
  | cons _ _ ih =>
    rw [map_cons, sum_cons, ih, countP_cons, Nat.add_comm]
    rfl

end

/-! The right worker of a pair joins, and the left one hands it a range. -/

/-- A later batch, for which the right worker leaves again. -/
def pairLeavingLater : TopologySnapshot :=
  snapshotOf (pairTopology 7 (some ⟨.scaleIn, 7⟩) .active .leaving sampleTokens) rfl

def pairMemberId (_ : Nat) (address : Bytes) : Bytes :=
  if address = leftAddress then leftIdentity.id else rightIdentity.id

def leftWorker : WorkerSetup := ⟨pairSha256, leftAddress, {}, pairMemberId⟩

/-- The task that hands a range to the right worker, under the id that its content has. -/
def joinTask : TopologyMigrateTask :=
  let task : TopologyMigrateTask :=
    ⟨[], .scaleOut, 5, leftAddress, rightAddress, [⟨leftAddress, ⟨101, 200⟩, false⟩]⟩
  { task with taskId := TopologyTaskMaterializer.buildTaskId pairSha256 (.migrate task) }

/-- The value of a migrate task in the store. -/
def storedMigrate (task : TopologyMigrateTask) : Stored TaskPb :=
  .message (.migrate ⟨task.targetAddress, TopologyRepositoryCodec.encodeRanges task.sourceRanges⟩)

/-- The task is admitted and its callback returns; the completion finds the fence valid. -/
def validatedJoin : List ExecutorAction :=
  [.start, .commit pairJoining, .putTask .migrate joinTask.taskId (storedMigrate joinTask),
    .publish pairJoining, .notify ⟨some ⟨.scaleOut, 5⟩, [joinTask.taskId], .empty⟩, .run {},
    .run {}, .run {}] ++ List.replicate 9 (.fly 0 {})

/-- The completion cannot reach the store with its mark, and a tick makes up for it. -/
def markedLater : List ExecutorAction :=
  [.fly 0 {}] ++ List.replicate 2 (.fly 0 { failure := some ⟨.kTryAgain, ""⟩ }) ++
    [.fly 0 {}, .tick 1000000] ++ List.replicate 3 (.run {})

end Datasystem.Cluster
