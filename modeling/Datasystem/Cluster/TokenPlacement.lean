import Datasystem.Cluster.TopologyTypes
import Datasystem.Lib.OrderedMap

/-! Share bookkeeping of balanced placement. The member of token `T` owns the arc
from the previous token up to `T`; inserting a token splits one arc. The numbers
are 64-bit counters and wrap like them. -/

namespace Datasystem.Cluster

open Common HashRingToken Lib

def ringSpace : Nat := 2 ^ 32

def balancedPlacementMaxRingTokens : Nat := 2000

def addU64 (a b : Nat) : Nat := (a + b) % 2 ^ 64

def subU64 (a b : Nat) : Nat := (a + 2 ^ 64 - b) % 2 ^ 64

structure PlacementOwner where
  token : Token
  memberIndex : Nat
deriving DecidableEq

structure ArcRecord where
  length : Nat
  start : Token
deriving DecidableEq

/-- Largest arc first; ties break on the smaller start token. -/
def arcOrder (left right : ArcRecord) : Bool :=
  if left.length ≠ right.length then left.length > right.length else left.start < right.start

/-- Insert into a set ordered by `arcOrder`. -/
def insertArc (arc : ArcRecord) : List ArcRecord → List ArcRecord
  | [] => [arc]
  | first :: rest =>
    if arcOrder arc first then arc :: first :: rest
    else if arcOrder first arc then first :: insertArc arc rest
    else first :: rest

def eraseArc (arc : ArcRecord) (arcs : List ArcRecord) : List ArcRecord :=
  arcs.filter fun a => arcOrder arc a || arcOrder a arc

structure BalancedRing where
  ring : OrderedMap Token Nat
  memberArcs : List (List ArcRecord)
  memberShares : List Nat
  memberCount : Nat

namespace BalancedRing

variable (r : BalancedRing)

def addArc (member : Nat) (arc : ArcRecord) : BalancedRing :=
  { r with
    memberArcs := r.memberArcs.modify member (insertArc arc)
    memberShares := r.memberShares.modify member (addU64 · arc.length) }

/-- `token` laid out behind `prev`, one turn further when it does not exceed it. -/
def linear (prev token : Token) : Nat :=
  token.val + if token ≤ prev then ringSpace else 0

variable (entries : List (Token × Nat))

/-- Each entry of the ring together with the one before it, cyclically. -/
def withPredecessors : List ((Token × Nat) × (Token × Nat)) :=
  match entries.getLast? with
  | none => []
  | some last => (last :: entries.dropLast).zip entries

def buildArcs : BalancedRing :=
  (withPredecessors r.ring.entries).foldl
    (fun r (prev, entry) =>
      r.addArc entry.2 ⟨subU64 (linear prev.1 entry.1) prev.1.val, prev.1⟩) r

/-- `std::map::emplace`, which keeps an entry that is already there. -/
def emplace (ring : OrderedMap Token Nat) (token : Token) (owner : Nat) : OrderedMap Token Nat :=
  ring.alter token fun old => old.getD owner

def new (owners : List PlacementOwner) : BalancedRing :=
  let ring := owners.foldl (fun ring o => emplace ring o.token o.memberIndex) .empty
  let maxMember := owners.foldl (fun m o => max m o.memberIndex) 0
  let memberCount := if owners.isEmpty then 0 else maxMember + 1
  buildArcs
    { ring := ring
      memberArcs := List.replicate (memberCount + 1) []
      memberShares := List.replicate (memberCount + 1) 0
      memberCount := memberCount }

def isEmpty (r : BalancedRing) : Bool := r.ring.entries.isEmpty

def totalMembers : Nat := r.memberCount + 1

/-- Index of the first largest share. -/
def heaviestMember : Nat :=
  (r.memberShares.zipIdx.foldl
    (fun best (share, index) =>
      match best with
      | some (bestShare, _) => if bestShare < share then some (share, index) else best
      | none => some (share, index)) (none : Option (Nat × Nat))).elim 0 Prod.snd

def takeTarget (member idealShare : Nat) : Token :=
  match (r.memberArcs.getD member []).head? with
  | none => 0
  | some largest =>
    if largest.length ≥ idealShare then largest.start + Fin.ofNat (2 ^ 32) idealShare
    else Fin.ofNat (2 ^ 32) (subU64 (addU64 largest.start.val largest.length) 1)

/-- The entries before and after `token` on the ring, wrapping at both ends. -/
def neighbours (token : Token) :
    Option ((Token × Nat) × (Token × Nat)) :=
  let below := entries.takeWhile fun e => e.1 ≤ token
  let above := entries.dropWhile fun e => e.1 ≤ token
  match below.getLast?.or entries.getLast?, above.head?.or entries.head? with
  | some prev, some next => some (prev, next)
  | _, _ => none

def insert (token : Token) (owner : Nat) : BalancedRing :=
  match neighbours r.ring.entries token with
  | none => addArc { r with ring := emplace r.ring token owner } owner ⟨ringSpace, token⟩
  | some (prev, next) =>
    let nextLin := linear prev.1 next.1
    let tokenLin := linear prev.1 token
    let taken := subU64 tokenLin prev.1.val
    let split := fun arcs =>
      insertArc ⟨subU64 nextLin tokenLin, token⟩
        (eraseArc ⟨subU64 nextLin prev.1.val, prev.1⟩ arcs)
    let r := { r with memberArcs := r.memberArcs.modify next.2 split }
    let r := r.addArc owner ⟨taken, prev.1⟩
    { r with
      memberShares := r.memberShares.modify next.2 (subU64 · taken)
      ring := emplace r.ring token owner }

def admitNewMember : BalancedRing :=
  { r with
    memberArcs := r.memberArcs ++ [[]]
    memberShares := r.memberShares ++ [0]
    memberCount := r.memberCount + 1 }

end BalancedRing

/-! Token selection for new ring members. Every token of a member is the hash of
its address, the token's index and a seed; the seed is the first free one, or
the one that lands nearest to the target of balanced placement. -/

open Checked List

structure TokenProbe where
  token : Token
  seed : Nat
deriving DecidableEq

/-- Tokens selected for one member so far and every token occupied on the ring. -/
structure Selection where
  occupied : List Token
  tokens : List Token := []
  overrides : List TokenSeedOverride := []

def Selection.push (sel : Selection) (index : Nat) (probe : TokenProbe) : Selection :=
  { occupied := probe.token :: sel.occupied
    tokens := sel.tokens ++ [probe.token]
    overrides :=
      if probe.seed > 0 then sel.overrides ++ [⟨index, probe.seed⟩] else sel.overrides }

def cyclicDistance (token target : Token) : Nat := min (token - target).val (target - token).val

/-- The probing loop, with the number of seeds left as fuel. -/
def probeFrom (address : Bytes) (index : Nat) (occupied : List Token) :
    (fuel seed : Nat) → Result TokenProbe
  | 0, _ => .error ⟨.kInvalid, "unique cluster token probe budget exhausted"⟩
  | fuel + 1, seed =>
    let token := makeHashRingToken address index seed
    if token ∉ occupied then .ok ⟨token, seed⟩
    else probeFrom address index occupied fuel (seed + 1)

def probeUniqueToken (address : Bytes) (index startSeed : Nat) (occupied : List Token) :
    Result TokenProbe :=
  probeFrom address index occupied (maxHashRingTokenSeeds - startSeed) startSeed

/-- `remaining` tokens from `index` on. -/
def selectSequentialTokens (address : Bytes) :
    (remaining index : Nat) → Selection → Result Selection
  | 0, _, sel => pure sel
  | remaining + 1, index, sel => do
    let probe ← probeUniqueToken address index 0 sel.occupied
    selectSequentialTokens address remaining (index + 1) (sel.push index probe)

def nearestCandidateDepth : Nat := 4

/-- Insert into the array of the nearest candidates, kept in order of distance. -/
def insertNearest (nearest : List (Nat × Nat)) (distance seed : Nat) : List (Nat × Nat) :=
  if nearest.length < nearestCandidateDepth ∨ ∃ last ∈ nearest.getLast?, distance < last.1 then
    let before := (nearest.reverse.dropWhile fun e => e.1 > distance).reverse
    (before ++ (distance, seed) :: nearest.drop before.length).take nearestCandidateDepth
  else nearest

variable (candidates : List Token)

/-- The few candidates nearest to the target, as distance and seed. -/
def nearestCandidates (target : Token) : List (Nat × Nat) :=
  candidates.zipIdx.foldl
    (fun nearest (token, seed) => insertNearest nearest (cyclicDistance token target) seed) []

/-- One step of the full scan over all candidates. -/
def scanCandidate (target : Token) (occupied : List Token) (best : Option (Nat × TokenProbe))
    (token : Token) (seed : Nat) : Option (Nat × TokenProbe) :=
  if token ∈ occupied then best
  else
    let distance := cyclicDistance token target
    match best with
    | none => some (distance, ⟨token, seed⟩)
    | some (bestDistance, _) =>
      if distance < bestDistance then some (distance, ⟨token, seed⟩) else best

def scanCandidates (target : Token) (occupied : List Token) : Option (Nat × TokenProbe) :=
  candidates.zipIdx.foldl (fun best (token, seed) => scanCandidate target occupied best token seed)
    none

def pickNearestToken (target : Token) (occupied : List Token) : Option TokenProbe :=
  let free := (nearestCandidates candidates target).findSome? fun (_, seed) =>
    match candidates[seed]? with
    | some token => if token ∉ occupied then some (TokenProbe.mk token seed) else none
    | none => none
  free.or ((scanCandidates candidates target occupied).map Prod.snd)

/-- Degrade to `fallback` when nothing was picked. -/
def pickedOr (picked : Option TokenProbe) (fallback : Result TokenProbe) : Result TokenProbe :=
  match picked with
  | some probe => .ok probe
  | none => fallback

/-- The choice made for one token of balanced placement. -/
def selectBalancedToken (ring : BalancedRing) (address : Bytes) (index idealPerToken : Nat)
    (occupied : List Token) : Result TokenProbe :=
  let target := ring.takeTarget ring.heaviestMember idealPerToken
  let candidates := makeHashRingTokenCandidates address index balancedPlacementSeedCandidates
  pickedOr (pickNearestToken candidates target occupied)
    (probeUniqueToken address index balancedPlacementSeedCandidates occupied)

def selectBalancedTokens (address : Bytes) (newMember idealPerToken : Nat) :
    (remaining index : Nat) → BalancedRing → Selection → Result (BalancedRing × Selection)
  | 0, _, ring, sel => pure (ring, sel)
  | remaining + 1, index, ring, sel => do
    let probe ← selectBalancedToken ring address index idealPerToken sel.occupied
    selectBalancedTokens address newMember idealPerToken remaining (index + 1)
      (ring.insert probe.token newMember) (sel.push index probe)

/-- A plan's placement: the occupied tokens, and the ring when the plan is balanced. -/
structure TokenPlacement where
  occupied : List Token
  ring : Option BalancedRing

namespace TokenPlacement

def new (owners : List PlacementOwner) (occupied : List Token) (balanced : Bool) : TokenPlacement :=
  if balanced then ⟨owners.map PlacementOwner.token ++ occupied, some (BalancedRing.new owners)⟩
  else ⟨occupied, none⟩

def selectTokens (placement : TokenPlacement) (address : Bytes) (count : Nat) :
    Result (TokenPlacement × Selection) :=
  if count = 0 then pure (placement, { occupied := placement.occupied })
  else
    match placement.ring with
    | none => do
      let sel ← selectSequentialTokens address count 0 { occupied := placement.occupied }
      pure (⟨sel.occupied, none⟩, sel)
    | some ring =>
      if ring.isEmpty then do
        let sel ← selectSequentialTokens address count 0 { occupied := placement.occupied }
        -- the first member's tokens are registered so later members balance against them
        let ring := sel.tokens.foldl (fun ring token => ring.insert token 0) ring
        pure (⟨sel.occupied, some ring.admitNewMember⟩, sel)
      else do
        let newMember := ring.totalMembers - 1
        let idealPerToken := ringSpace / ring.totalMembers / count
        let (ring, sel) ← selectBalancedTokens address newMember idealPerToken count 0 ring
          { occupied := placement.occupied }
        pure (⟨sel.occupied, some ring.admitNewMember⟩, sel)

end TokenPlacement

/-! ## What is selected -/

/-- The overrides recorded for a member whose token seeds are `seeds`. -/
def overridesOf (seeds : List Nat) : List TokenSeedOverride :=
  seeds.zipIdx.filterMap fun (seed, index) => if seed > 0 then some ⟨index, seed⟩ else none

/-- A probe that a selection step may take for token number `index`. -/
structure TokenProbe.Free (address : Bytes) (index : Nat) (occupied : List Token)
    (probe : TokenProbe) : Prop where
  seed_lt : probe.seed < maxHashRingTokenSeeds
  token : probe.token = makeHashRingToken address index probe.seed
  free : probe.token ∉ occupied

/-- The selection holds the tokens of `seeds`, none of them occupied before. -/
structure Selection.Derived (address : Bytes) (occupied : List Token) (sel : Selection)
    (seeds : List Nat) : Prop where
  seed_lt : ∀ seed ∈ seeds, seed < maxHashRingTokenSeeds
  tokens : sel.tokens = makeHashRingTokens address seeds
  overrides : sel.overrides = overridesOf seeds
  fresh : Fresh occupied sel.tokens
  occupied : sel.occupied = sel.tokens.reverse ++ occupied

theorem Selection.Derived.init (address) (occupied) :
    Selection.Derived address occupied { occupied := occupied } [] where
  seed_lt := by simp
  tokens := rfl
  overrides := rfl
  fresh := fresh_nil _
  occupied := rfl

variable {address : Bytes} {occupied : List Token} {sel : Selection} {seeds : List Nat}
  {probe : TokenProbe} {index seed : Nat} {target : Token}

theorem Selection.Derived.push (h : sel.Derived address occupied seeds)
    (hp : probe.Free address seeds.length sel.occupied) :
    (sel.push seeds.length probe).Derived address occupied (seeds ++ [probe.seed]) where
  seed_lt := by
    simp only [mem_append, mem_singleton]
    rintro seed (hs | rfl)
    · exact h.seed_lt seed hs
    · exact hp.seed_lt
  tokens := by
    simp [Selection.push, h.tokens, hp.token, makeHashRingTokens, zipIdx_append]
  overrides := by
    simp only [Selection.push, h.overrides, overridesOf, zipIdx_append, filterMap_append]
    split <;> simp_all
  fresh := by
    refine fresh_append.mpr ⟨h.fresh, ?_⟩
    rw [← h.occupied]
    simpa [fresh_cons] using hp.free
  occupied := by
    simp [Selection.push, h.occupied]

theorem probeFrom_spec {fuel : Nat} (h : probeFrom address index occupied fuel seed = .ok probe) :
    probe.seed < seed + fuel ∧ probe.token = makeHashRingToken address index probe.seed ∧
      probe.token ∉ occupied := by
  induction fuel generalizing seed with
  | zero => simp [probeFrom] at h
  | succ fuel ih =>
    simp only [probeFrom] at h
    split at h
    · rename_i hfree
      obtain rfl := Except.ok.inj h
      exact ⟨by simp, rfl, hfree⟩
    · obtain ⟨hlt, htok, hfree⟩ := ih h
      exact ⟨by omega, htok, hfree⟩

theorem probeUniqueToken_free {startSeed : Nat} (hs : startSeed ≤ maxHashRingTokenSeeds)
    (h : probeUniqueToken address index startSeed occupied = .ok probe) :
    probe.Free address index occupied := by
  obtain ⟨hlt, htok, hfree⟩ := probeFrom_spec h
  exact ⟨by omega, htok, hfree⟩

/-! ## The nearest free candidate -/

variable {candidates} {token : Token} {nearest : List (Nat × Nat)}

/-- Order of the candidates, as distance and seed. -/
def Nearer (a b : Nat × Nat) : Prop := a.1 < b.1 ∨ a.1 = b.1 ∧ a.2 < b.2

/-- The right answer of a search: the nearest free candidate, that of the smallest seed among
equals, or none if all are occupied. -/
def IsNearest (candidates : List Token) (target : Token) (occupied : List Token) :
    Option TokenProbe → Prop
  | some probe => candidates[probe.seed]? = some probe.token ∧ probe.token ∉ occupied ∧
      ∀ seed token, candidates[seed]? = some token → token ∉ occupied → seed = probe.seed ∨
        Nearer (cyclicDistance probe.token target, probe.seed) (cyclicDistance token target, seed)
  | none => ∀ token ∈ candidates, token ∈ occupied

theorem IsNearest.unique {p q : Option TokenProbe} (hp : IsNearest candidates target occupied p)
    (hq : IsNearest candidates target occupied q) : p = q := by
  rcases p with _ | ⟨_, _⟩ <;> rcases q with _ | ⟨_, _⟩ <;>
    grind [IsNearest, Nearer, mem_of_getElem?]

theorem getElem?_snoc {cs : List Token} {t : Token} {seed : Nat} :
    (cs ++ [t])[seed]? = some token ↔ cs[seed]? = some token ∨ seed = cs.length ∧ t = token := by
  grind

theorem scanCandidates_nearest (candidates) : IsNearest candidates target occupied
      ((scanCandidates candidates target occupied).map Prod.snd) ∧
    ∀ best ∈ scanCandidates candidates target occupied,
      best.1 = cyclicDistance best.2.token target := by
  induction candidates using List.reverseRecOn with
  | nil => simp [scanCandidates, IsNearest]
  | append_singleton cs t ih =>
    have hstep : scanCandidates (cs ++ [t]) target occupied =
        scanCandidate target occupied (scanCandidates cs target occupied) t cs.length := by
      simp [scanCandidates, zipIdx_append]
    rw [hstep]
    generalize scanCandidates cs target occupied = best at ih ⊢
    unfold scanCandidate
    rcases best with _ | ⟨d, p⟩
    · split <;> simp_all [IsNearest, getElem?_snoc] <;> grind [mem_of_getElem?]
    · simp only [Option.map_some, IsNearest, Option.mem_some_iff, forall_eq'] at ih
      split
      · simp only [Option.map_some, IsNearest, getElem?_snoc, Option.mem_some_iff, forall_eq']
        grind
      · split <;> simp only [Option.map_some, IsNearest, getElem?_snoc, Option.mem_some_iff,
          forall_eq'] <;> grind [Nearer]

/-- The kept candidates are in order, and no other candidate comes before any of them. -/
structure NearestKept (target : Token) (candidates : List Token) (nearest : List (Nat × Nat)) :
    Prop where
  sorted : nearest.Pairwise Nearer
  seen : ∀ e ∈ nearest, ∃ token, candidates[e.2]? = some token ∧ e.1 = cyclicDistance token target
  rest : ∀ seed token, candidates[seed]? = some token →
    (cyclicDistance token target, seed) ∈ nearest ∨ nearestCandidateDepth ≤ nearest.length ∧
      ∀ e ∈ nearest, Nearer e (cyclicDistance token target, seed)

theorem NearestKept.take (h : NearestKept target candidates nearest) :
    NearestKept target candidates (nearest.take nearestCandidateDepth) where
  sorted := h.sorted.sublist (take_sublist _ nearest)
  seen e he := h.seen e (mem_of_mem_take he)
  rest seed token hget := by
    have hmem := h.rest seed token hget
    have hordered := h.sorted
    rw [← take_append_drop nearestCandidateDepth nearest] at hmem hordered
    grind

/-- A new seed comes behind a sorted list whose last distance does not exceed its own. -/
theorem nearer_of_getLast? {distance n : Nat} (hsorted : nearest.Pairwise Nearer)
    (hseed : ∀ e ∈ nearest, e.2 < n) (hlast : ∀ last ∈ nearest.getLast?, last.1 ≤ distance) :
    ∀ e ∈ nearest, Nearer e (distance, n) := by
  rcases eq_nil_or_concat' nearest with rfl | ⟨init, last, rfl⟩
  · simp
  · grind [Nearer]

theorem insertNearest_kept (h : NearestKept target candidates nearest) (t : Token) :
    NearestKept target (candidates ++ [t])
      (insertNearest nearest (cyclicDistance t target) candidates.length) := by
  have hseed : ∀ e ∈ nearest, e.2 < candidates.length := fun e he =>
    (List.getElem?_eq_some_iff.mp (h.seen e he).choose_spec.1).1
  obtain ⟨hsorted, hseen, hrest⟩ := h
  unfold insertNearest
  split
  · let p := fun e : Nat × Nat => decide (e.1 > cyclicDistance t target)
    have hsplit : nearest.rdropWhile p ++ nearest.rtakeWhile p = nearest :=
      rdropWhile_append_rtakeWhile
    have hdrop : nearest.drop (nearest.rdropWhile p).length = nearest.rtakeWhile p :=
      (congrArg (drop _) hsplit).symm.trans drop_left
    have hlast : ∀ last ∈ (nearest.rdropWhile p).getLast?, last.1 ≤ cyclicDistance t target := by
      intro last hmem
      obtain ⟨hne, rfl⟩ := mem_getLast?_eq_getLast hmem
      simpa [p] using rdropWhile_last_not p nearest hne
    have hafter : ∀ e ∈ nearest.rtakeWhile p, cyclicDistance t target < e.1 := fun e he => by
      simpa [p] using mem_rtakeWhile_imp he
    show NearestKept _ _
      ((nearest.rdropWhile p ++ _ :: nearest.drop (nearest.rdropWhile p).length).take _)
    rw [hdrop]
    generalize nearest.rdropWhile p = before, nearest.rtakeWhile p = after at *
    subst hsplit
    have hordered := pairwise_append.mp hsorted
    have hbefore := nearer_of_getLast? hordered.1 (fun e he => hseed e (mem_append_left _ he)) hlast
    clear hdrop hlast hseed hsorted
    simp only [mem_append] at hseen hrest
    refine NearestKept.take ⟨?_, fun e he => ?_, fun seed token hget => ?_⟩
    · simp only [pairwise_append, pairwise_cons, forall_mem_cons]
      grind [Nearer]
    · simp only [mem_append, mem_cons, getElem?_snoc] at he ⊢
      grind
    · -- a full list takes the new candidate only if it is nearer than the last one kept
      simp only [mem_append, mem_cons, getElem?_snoc] at hget ⊢
      grind [Nearer, mem_of_getLast?]
  · rename_i hfull
    push Not at hfull
    refine ⟨hsorted, fun e he => ?_, fun seed token hget => ?_⟩
    · grind
    · rcases getElem?_snoc.mp hget with hold | ⟨rfl, rfl⟩
      · exact hrest seed token hold
      · exact .inr ⟨hfull.1, nearer_of_getLast? hsorted hseed hfull.2⟩

theorem nearestCandidates_kept (target) (candidates) :
    NearestKept target candidates (nearestCandidates candidates target) := by
  induction candidates using List.reverseRecOn with
  | nil => exact ⟨.nil, by simp [nearestCandidates], by simp⟩
  | append_singleton cs t ih =>
    have hstep : nearestCandidates (cs ++ [t]) target =
        insertNearest (nearestCandidates cs target) (cyclicDistance t target) cs.length := by
      simp [nearestCandidates, zipIdx_append]
    exact hstep ▸ insertNearest_kept ih t

theorem pickNearestToken_nearest (candidates target occupied) :
    IsNearest candidates target occupied (pickNearestToken candidates target occupied) := by
  have hkept := nearestCandidates_kept target candidates
  unfold pickNearestToken
  cases hfind : (nearestCandidates candidates target).findSome? _ with
  | none => simpa using (scanCandidates_nearest candidates).1
  | some probe =>
    obtain ⟨before, e, after, hnear, hprobe, htaken⟩ := findSome?_eq_some_iff.mp hfind
    rw [hnear] at hkept
    obtain ⟨token, hget, hdistance⟩ := hkept.seen e (by simp)
    simp only [hget, Option.ite_none_right_eq_some, Option.some.injEq] at hprobe
    obtain ⟨hfree, rfl⟩ := hprobe
    refine ⟨hget, hfree, fun seed token' hget' hfree' => hdistance ▸ ?_⟩
    have hbefore : (cyclicDistance token' target, seed) ∉ before := fun hmem => by
      simpa [hget', hfree'] using htaken _ hmem
    have hrest := hkept.rest seed token' hget'
    simp only [mem_append, mem_cons, hbefore, false_or] at hrest
    rcases hrest with (rfl | hmem) | ⟨-, hlt⟩
    · exact .inl rfl
    · exact .inr ((pairwise_cons.mp (pairwise_append.mp hkept.sorted).2.1).1 _ hmem)
    · exact .inr (hlt e (.inr (.inl rfl)))

/-- **The search is exact.** It picks the nearest free candidate just as a scan of all would. -/
theorem pickNearestToken_exact (candidates : List Token) (target : Token) (occupied : List Token) :
    IsNearest candidates target occupied (pickNearestToken candidates target occupied) ∧
      pickNearestToken candidates target occupied =
        (scanCandidates candidates target occupied).map Prod.snd := by
  have hpick := pickNearestToken_nearest candidates target occupied
  exact ⟨hpick, hpick.unique (scanCandidates_nearest candidates).1⟩

theorem getElem?_candidates {n : Nat}
    (h : (makeHashRingTokenCandidates address index n)[seed]? = some token) :
    seed < n ∧ token = makeHashRingToken address index seed := by
  simp only [makeHashRingTokenCandidates, getElem?_map, Option.map_eq_some_iff] at h
  obtain ⟨_, hseed, htok⟩ := h
  obtain ⟨hlt, rfl⟩ := List.getElem?_eq_some_iff.mp hseed
  simp only [length_range, getElem_range] at hlt htok
  exact ⟨hlt, htok.symm⟩

theorem candidates_le_seeds : balancedPlacementSeedCandidates ≤ maxHashRingTokenSeeds := by
  simp [balancedPlacementSeedCandidates, maxHashRingTokenSeeds]

theorem pickedOr_eq_ok {picked} {fallback} : pickedOr picked fallback = .ok probe ↔
      picked = some probe ∨ picked = none ∧ fallback = .ok probe := by
  cases picked <;> simp [pickedOr]

theorem exists_pickNearestToken {candidates occupied : List Token} (target) {token : Token}
    (hm : token ∈ candidates) (hfree : token ∉ occupied) :
    ∃ probe, pickNearestToken candidates target occupied = some probe := by
  have hnearest := pickNearestToken_nearest candidates target occupied
  cases hpick : pickNearestToken candidates target occupied with
  | none =>
    rw [hpick] at hnearest
    exact absurd (hnearest token hm) hfree
  | some probe => exact ⟨probe, rfl⟩

/-- A free candidate is enough for a choice. -/
theorem exists_selectBalancedToken_of_mem (ring) (ideal : Nat) {token : Token}
    (hmem : token ∈ makeHashRingTokenCandidates address index balancedPlacementSeedCandidates)
    (hfree : token ∉ occupied) :
    ∃ probe, selectBalancedToken ring address index ideal occupied = .ok probe := by
  obtain ⟨probe, hprobe⟩ :=
    exists_pickNearestToken (ring.takeTarget ring.heaviestMember ideal) hmem hfree
  refine ⟨probe, ?_⟩
  rw [selectBalancedToken, pickedOr_eq_ok]
  exact .inl hprobe

theorem selectBalancedToken_free {ring} {ideal : Nat}
    (h : selectBalancedToken ring address index ideal occupied = .ok probe) :
    probe.Free address index occupied := by
  rw [selectBalancedToken, pickedOr_eq_ok] at h
  rcases h with hpick | ⟨-, hprobe⟩
  · obtain ⟨hget, hfree, -⟩ : IsNearest _ _ _ (some probe) := hpick ▸ pickNearestToken_nearest ..
    obtain ⟨hlt, htok⟩ := getElem?_candidates hget
    exact ⟨Nat.lt_of_lt_of_le hlt candidates_le_seeds, htok, hfree⟩
  · exact probeUniqueToken_free candidates_le_seeds hprobe

theorem selectSequentialTokens_derived {remaining : Nat} {sel'}
    (hd : sel.Derived address occupied seeds)
    (h : selectSequentialTokens address remaining seeds.length sel = .ok sel') :
    ∃ seeds', seeds'.length = seeds.length + remaining ∧ sel'.Derived address occupied seeds' := by
  induction remaining generalizing sel seeds with
  | zero =>
    obtain rfl : sel = sel' := by simpa [selectSequentialTokens] using h
    exact ⟨seeds, rfl, hd⟩
  | succ remaining ih =>
    obtain ⟨probe, hprobe, hrest⟩ := bind_eq_ok.mp h
    have hfree := probeUniqueToken_free (Nat.zero_le _) hprobe
    obtain ⟨seeds', hlen, hd'⟩ := ih (hd.push hfree) (by simpa using hrest)
    exact ⟨seeds', by simp at hlen; omega, hd'⟩

theorem selectBalancedTokens_derived {newMember ideal remaining : Nat} {ring ring'} {sel'}
    (hd : sel.Derived address occupied seeds)
    (h : selectBalancedTokens address newMember ideal remaining seeds.length ring sel =
      .ok (ring', sel')) :
    ∃ seeds', seeds'.length = seeds.length + remaining ∧ sel'.Derived address occupied seeds' := by
  induction remaining generalizing ring sel seeds with
  | zero =>
    obtain ⟨-, rfl⟩ : ring = ring' ∧ sel = sel' := by simpa [selectBalancedTokens] using h
    exact ⟨seeds, rfl, hd⟩
  | succ remaining ih =>
    obtain ⟨probe, hprobe, hrest⟩ := bind_eq_ok.mp h
    have hfree := selectBalancedToken_free hprobe
    obtain ⟨seeds', hlen, hd'⟩ := ih (hd.push hfree) (by simpa using hrest)
    exact ⟨seeds', by simp at hlen; omega, hd'⟩

/-- **A successful selection** gives `count` tokens derived from the address, all of them new
on the ring, and leaves exactly these added to the occupied ones. -/
theorem TokenPlacement.selectTokens_derived {placement placement' : TokenPlacement} {count : Nat}
    (h : placement.selectTokens address count = .ok (placement', sel)) :
    placement'.occupied = sel.occupied ∧
      ∃ seeds, seeds.length = count ∧ sel.Derived address placement.occupied seeds := by
  have hinit := Selection.Derived.init address placement.occupied
  unfold selectTokens at h
  split at h
  · rename_i hzero
    obtain ⟨rfl, rfl⟩ : placement = placement' ∧ _ = sel := by simpa using h
    exact ⟨rfl, [], hzero.symm, hinit⟩
  · split at h
    · obtain ⟨sel', hselect, hrest⟩ := bind_eq_ok.mp h
      obtain ⟨rfl, rfl⟩ : _ = placement' ∧ sel' = sel := by simpa using hrest
      obtain ⟨seeds, hlen, hd⟩ := selectSequentialTokens_derived hinit hselect
      exact ⟨rfl, seeds, by simpa using hlen, hd⟩
    · split at h
      · obtain ⟨sel', hselect, hrest⟩ := bind_eq_ok.mp h
        obtain ⟨rfl, rfl⟩ : _ = placement' ∧ sel' = sel := by simpa using hrest
        obtain ⟨seeds, hlen, hd⟩ := selectSequentialTokens_derived hinit hselect
        exact ⟨rfl, seeds, by simpa using hlen, hd⟩
      · obtain ⟨⟨_, sel'⟩, hselect, hrest⟩ := bind_eq_ok.mp h
        obtain ⟨rfl, rfl⟩ : _ = placement' ∧ sel' = sel := by simpa using hrest
        obtain ⟨seeds, hlen, hd⟩ := selectBalancedTokens_derived hinit hselect
        exact ⟨rfl, seeds, by simpa using hlen, hd⟩

end Datasystem.Cluster
