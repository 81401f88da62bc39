import Datasystem.Lib.OrderedMap
import Datasystem.Lib.StateMachine

/-! The rate limiter of migrations. A call that wants more tokens than the cap allows raises the cap
while it waits, and waiting gives up the lock, so that other calls run in between. -/

namespace Datasystem.Worker

open Lib OrderedMap StateMachine

def uint64Max : Nat := 2 ^ 64 - 1

/-- A call of `WaitAllow` and its local variables. -/
structure WaitCall where
  requiredSize : Nat
  originalMax : Nat
  needRestore : Bool
  cancellable : Bool
  maxWaitMs : Nat
  waitedMs : Nat := 0
deriving DecidableEq

/-- The limiter with the calls that wait, and what the last call that ended has returned. -/
structure DataLimiter where
  rate : Nat
  tokens : Nat
  maxTokenSize : Nat
  timestamp : Nat
  calls : OrderedMap Nat WaitCall := .empty
  returned : Option Bool := none
deriving DecidableEq

namespace DataLimiter

def create (rate maxTokenSize now : Nat) : DataLimiter :=
  ⟨rate, rate, maxTokenSize, now, .empty, none⟩

variable (s : DataLimiter) (id : Nat) (call : WaitCall) (now : Nat)

def refill : DataLimiter :=
  let elapsed := now - s.timestamp
  let newTokens := if s.rate ≤ uint64Max / max elapsed 1 then s.rate * elapsed else uint64Max
  let sum := (newTokens / 1000 + 1 + s.tokens) % 2 ^ 64
  let tokens := if sum > s.tokens then sum else uint64Max
  { s with tokens := min tokens s.maxTokenSize, timestamp := now }

def waitMilliseconds (requiredSize : Nat) : Nat :=
  if requiredSize ≤ s.tokens then 0
  else if s.rate = 0 then uint64Max
  else (requiredSize - s.tokens) * 1000 % 2 ^ 64 / s.rate + 1

def cancelPollMs : Nat := 10

/-- The call waits for some time, unless it is woken. -/
def wait : DataLimiter :=
  let waitMs := min (s.waitMilliseconds call.requiredSize) (call.maxWaitMs - call.waitedMs)
  let waitMs := if call.cancellable then min waitMs cancelPollMs else waitMs
  { s with calls := s.calls.insert id { call with waitedMs := call.waitedMs + waitMs } }

/-- The call ends and puts back the cap that it has raised. -/
def leave (allowed : Bool) : DataLimiter :=
  { s with
    maxTokenSize := if call.needRestore then call.originalMax else s.maxTokenSize
    tokens := if allowed then s.tokens - call.requiredSize else s.tokens
    calls := s.calls.erase id
    returned := some allowed }

/-- The loop of `WaitAllow`, up to its next wait. -/
def proceed (cancelled : Bool) : DataLimiter :=
  if call.requiredSize ≤ s.tokens then s.leave id call true
  else if call.cancellable ∧ cancelled ∨ call.maxWaitMs ≤ call.waitedMs then s.leave id call false
  else if call.requiredSize ≤ (s.refill now).tokens then (s.refill now).leave id call true
  else (s.refill now).wait id call

def waitAllow (requiredSize : Nat) (cancellable : Bool) (maxWaitMs : Nat) (cancelled : Bool) :
    DataLimiter :=
  let call : WaitCall :=
    ⟨requiredSize, s.maxTokenSize, s.maxTokenSize < requiredSize, cancellable, maxWaitMs, 0⟩
  proceed
    { s with
      maxTokenSize := max s.maxTokenSize requiredSize
      calls := s.calls.insert id call } id call now cancelled

inductive Action
  | waitAllow (id requiredSize : Nat) (cancellable : Bool) (maxWaitMs now : Nat) (cancelled : Bool)
  /-- The wait of a call is over. -/
  | wake (id now : Nat) (cancelled : Bool)
  | updateRate (rate : Nat)
  | estimateWaitMilliseconds (now : Nat)

def step (s : DataLimiter) : Action → Option DataLimiter
  | .waitAllow id requiredSize cancellable maxWaitMs now cancelled =>
    match s.calls.find? id with
    | some _ => none
    | none => some (s.waitAllow id now requiredSize cancellable maxWaitMs cancelled)
  | .wake id now cancelled => (s.calls.find? id).map fun call => s.proceed id call now cancelled
  | .updateRate rate => some { s with rate := rate }
  | .estimateWaitMilliseconds now => some (s.refill now)

/-! ## The cap -/

variable (cap : Nat)

/-- The cap is back when nobody waits, and allows for what the calls wait for. -/
structure Restored : Prop where
  idle : s.calls.entries = [] → s.maxTokenSize = cap
  waiting : ∀ id call, s.calls.find? id = some call → call.requiredSize ≤ s.maxTokenSize

/-- A call for more than the cap does not start while another such call waits. -/
def apart (cap : Nat) (s : DataLimiter) : Action → Bool
  | .waitAllow _ requiredSize _ _ _ _ =>
    requiredSize ≤ cap || s.calls.values.all (·.requiredSize ≤ cap)
  | _ => true

variable {s s' : DataLimiter} {id cap : Nat} {call : WaitCall} {now : Nat} {cancelled : Bool}

/-- The cap, and the calls that wait. Only one of them has raised the cap. -/
structure Inv (cap maxTokenSize : Nat) (calls : OrderedMap Nat WaitCall) : Prop where
  call : ∀ id call, calls.find? id = some call →
    (call.requiredSize ≤ cap ∧ call.needRestore = false) ∨ (cap < call.requiredSize ∧
      call.needRestore ∧ call.originalMax = cap ∧ call.requiredSize = maxTokenSize)
  sole : ∀ id call id' call', calls.find? id = some call → calls.find? id' = some call' →
    call.needRestore → call'.needRestore → id = id'
  idle : maxTokenSize = cap ∨ ∃ id call, calls.find? id = some call ∧ call.needRestore

/-- A call waits on, or it ends and puts back the cap. -/
theorem proceed_cases (hs' : s.proceed id call now cancelled = s') :
    (∃ waited, s'.calls = s.calls.insert id { call with waitedMs := waited } ∧
      s'.maxTokenSize = s.maxTokenSize) ∨
    (s'.calls = s.calls.erase id ∧
      s'.maxTokenSize = if call.needRestore then call.originalMax else s.maxTokenSize) := by
  subst hs'
  unfold proceed
  split
  · exact .inr ⟨rfl, rfl⟩
  split
  · exact .inr ⟨rfl, rfl⟩
  split
  · exact .inr ⟨rfl, rfl⟩
  · exact .inl ⟨_, rfl, rfl⟩

theorem Inv.proceed (h : Inv cap s.maxTokenSize s.calls) (hfind : s.calls.find? id = some call)
    (hs' : s.proceed id call now cancelled = s') : Inv cap s'.maxTokenSize s'.calls := by
  obtain ⟨hcall, hsole, hidle⟩ := h
  have hself := hcall id call hfind
  rcases proceed_cases hs' with ⟨waited, hcalls, hcap⟩ | ⟨hcalls, hcap⟩
  · rw [hcap, hcalls]
    refine ⟨by grind [find?_insert], by grind [find?_insert], hidle.imp_right ?_⟩
    rintro ⟨i, c, hi, hc⟩
    exact ⟨i, by grind [find?_insert]⟩
  · rw [hcap, hcalls]
    refine ⟨by grind [find?_erase], by grind [find?_erase], ?_⟩
    split
    · grind
    · refine hidle.imp_right ?_
      rintro ⟨i, c, hi, hc⟩
      exact ⟨i, c, by grind [find?_erase], hc⟩

theorem Inv.step {a} (h : Inv cap s.maxTokenSize s.calls)
    (hstep : restrict (apart cap) step s a = some s') : Inv cap s'.maxTokenSize s'.calls := by
  obtain ⟨hapart, hstep⟩ := restrict_eq_some.mp hstep
  obtain ⟨hcall, hsole, hidle⟩ := h
  cases a with
  | waitAllow id requiredSize cancellable maxWaitMs now cancelled =>
    dsimp only [DataLimiter.step] at hstep
    split at hstep
    · cases hstep
    · refine Inv.proceed ?_ (by simp [find?_insert]) (Option.some.inj hstep)
      -- a call for more than the cap finds no other one
      have hfree : requiredSize ≤ cap ∨
          ∀ c i, s.calls.find? i = some c → c.requiredSize ≤ cap := by
        simpa [apart, mem_values_iff] using hapart
      have hmax : cap ≤ s.maxTokenSize := by
        rcases hidle with heq | ⟨i, c, hfind, hc⟩
        · exact heq.ge
        · grind
      refine ⟨by grind [find?_insert], by grind [find?_insert], ?_⟩
      by_cases hlt : s.maxTokenSize < requiredSize
      · exact .inr ⟨id, by simp [find?_insert, hlt]⟩
      · rw [max_eq_left (Nat.le_of_not_lt hlt)]
        refine hidle.imp_right ?_
        rintro ⟨i, c, hi, hc⟩
        exact ⟨i, c, by grind [find?_insert], hc⟩
  | wake id now cancelled =>
    obtain ⟨call, hfind, hs'⟩ := Option.map_eq_some_iff.mp hstep
    exact Inv.proceed ⟨hcall, hsole, hidle⟩ hfind hs'
  | updateRate =>
    cases hstep
    exact ⟨hcall, hsole, hidle⟩
  | estimateWaitMilliseconds =>
    cases hstep
    exact ⟨hcall, hsole, hidle⟩

/-- **The cap is restored** and calls never wait for more than it allows, as long as a call for
more than the cap does not start while another one waits. -/
theorem limiter_cap_restored {rate maxTokenSize now : Nat}
    (h : Reaches (restrict (apart maxTokenSize) step) (create rate maxTokenSize now) s) :
    Restored s maxTokenSize := by
  have hinv : Inv maxTokenSize s.maxTokenSize s.calls :=
    h.invariant (I := fun s => Inv maxTokenSize s.maxTokenSize s.calls) ⟨nofun, nofun, .inl rfl⟩
      fun s s' a hstep hinv => hinv.step hstep
  obtain ⟨hcall, hsole, hidle⟩ := hinv
  constructor
  · intro hnil
    rcases hidle with heq | ⟨i, c, hi, -⟩
    · exact heq
    · rw [← mem_entries_iff, hnil] at hi
      cases hi
  · intro id call hfind
    rcases hidle with heq | ⟨i, c, hi, hc⟩
    · grind
    · grind

/-- One call raises the cap, waits and is cancelled, while another one waits for no more than the
cap. -/
theorem limiter_cap_restored_beside : ∃ s, Reaches (restrict (apart 3) step) (create 0 3 0) s ∧
    (s.returned = some false ∧ (s.calls.find? 2).map WaitCall.requiredSize = some 3) ∧
    Restored s 3 := by
  have hrun : ∃ s, Reaches (restrict (apart 3) step) (create 0 3 0) s ∧
      (s.returned = some false ∧ (s.calls.find? 2).map WaitCall.requiredSize = some 3) :=
    exists_reaches [.waitAllow 1 10 true 50 0 false, .waitAllow 2 3 true 50 0 false,
      .wake 1 0 true] (by decide)
  obtain ⟨s, hs, hwaits⟩ := hrun
  exact ⟨s, hs, hwaits, limiter_cap_restored hs⟩

/-- The second of two calls goes on waiting for more than the cap when the first one ends, and
leaves behind what the first one had raised the cap to. -/
theorem limiter_cap_lost :
    (∃ s, Reaches step (create 0 3 0) s ∧ s.maxTokenSize = 3 ∧
      (s.calls.find? 2).map WaitCall.requiredSize = some 20) ∧
    ∃ s, Reaches step (create 0 3 0) s ∧ s.maxTokenSize = 10 ∧ s.calls.entries = [] := by
  constructor
  · exact exists_reaches [.waitAllow 1 10 true 50 0 false, .waitAllow 2 20 true 50 0 false,
      .wake 1 0 true] (by decide)
  · exact exists_reaches [.waitAllow 1 10 true 50 0 false, .waitAllow 2 20 true 50 0 false,
      .wake 1 0 true, .wake 2 0 true] (by decide)

end DataLimiter

end Datasystem.Worker
