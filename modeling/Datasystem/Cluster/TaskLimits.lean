import Datasystem.Cluster.DerivedTasks
import Datasystem.Cluster.TopologyRoundTrip

/-! How many ranges a change has and how many tasks an executor gets. A range ends
at a token of the member that joins, leaves or has failed, so a change has hardly
more ranges than that member has tokens. -/

namespace Datasystem.Cluster.TopologyTaskMaterializer

open Common HashRingToken Lib Checked Sorting Spans Chunks HashAlgorithm TopologyPlanBuilder List
open TopologyRepositoryCodec

/-! ## Tokens of one member -/

theorem length_le_of_tokens {points tokens : List Token} (hn : points.Nodup)
    (h : ∀ t ∈ points, t = maxToken ∨ t ∈ tokens) : points.length ≤ tokens.length + 1 := by
  have hsub : points ⊆ maxToken :: tokens := fun t ht =>
    (h t ht).elim (fun heq => heq ▸ mem_cons_self) (mem_cons_of_mem _)
  simpa using hn.length_le_of_subset hsub

/-- What a ring says about a member is in the member's list of tokens. -/
theorem RingOf.mem_tokens {p} {members} {ring}
    (h : RingOf p members ring) (hn : (members.map Member.address).Nodup) {m}
    (hm : m ∈ members) {t} (ho : (⟨t, m.identity⟩ : TokenOwner) ∈ ring.owners) :
    t ∈ m.tokens := by
  obtain ⟨_, hm', -, ht, hi⟩ := (h.mem_iff _).mp ho
  obtain rfl := eq_of_address_eq hn hm' hm (congrArg MemberIdentity.address hi)
  exact ht

/-- The member of a change whose coming or going moves the tokens. -/
def mover (type : TopologyChangeType) (source target : Member) : Member :=
  if type = .scaleOut then target else source

section

variable {latest : TopologySnapshot} {batch : ActiveBatch} {plan : TopologyPlan}

variable {c : TopologyOwnerChange} {type : TopologyChangeType}

/-- Ranges end at tokens of the member that comes or goes. -/
theorem hi_mem_tokens (hb : latest.state.activeBatch = some batch)
    (h : rebuildPlan latest = .ok plan) (hc : c ∈ plan.ownerChanges)
    {source target} (hmoves : Moves latest.state.members source target c) {r} (hr : r ∈ c.ranges) :
    r.hi = maxToken ∨ r.hi ∈ (mover batch.type source target).tokens := by
  have hn := latest.validTopology.members.addresses_nodup
  -- whoever goes is the source, and the owners are those that stay and some more
  have hlost : ∀ {p q : Member → Bool} {F T : OwnerRing}, RingOf p latest.state.members F →
      RingOf q latest.state.members T → (∀ m, q m → p m) → c ∈ diffOwners F T →
        r.hi = maxToken ∨ r.hi ∈ source.tokens := by
    intro p q F T hF hT hqp hc
    have hsub : ∀ o ∈ T.owners, o ∈ F.owners := by
      intro o ho
      obtain ⟨m, hm, hq, hrest⟩ := (hT.mem_iff o).mp ho
      exact (hF.mem_iff o).mpr ⟨m, hm, hqp m hq, hrest⟩
    rcases hi_of_lost hF.sound hT.sound hsub hc hr with hmax | ⟨i, hi, ho⟩
    · exact .inl hmax
    · rw [hmoves.source_eq] at hi
      obtain rfl := Option.some.inj hi
      exact .inr (RingOf.mem_tokens hF hn hmoves.source_mem ho)
  obtain ⟨type, _⟩ := batch
  cases type with
  | scaleOut =>
    obtain ⟨F, T, hF, hT, rfl⟩ := (rebuildPlan_ordinary hb nofun).mp h
    have hsub : ∀ o ∈ F.owners, o ∈ T.owners := by
      intro o ho
      obtain ⟨m, hm, hp, hrest⟩ := (hF.mem_iff o).mp ho
      exact (hT.mem_iff o).mpr ⟨m, hm, Bool.or_eq_true_iff.mpr (.inl hp), hrest⟩
    rcases hi_of_gained hF.sound hT.sound hsub hc hr with hmax | ho
    · exact .inl hmax
    · rw [hmoves.target_eq] at ho
      exact .inr (RingOf.mem_tokens hT hn hmoves.target_mem ho)
  | scaleIn =>
    obtain ⟨_, _, hF, hT, rfl⟩ := (rebuildPlan_ordinary hb nofun).mp h
    exact hlost hF hT (fun m hm => (Bool.and_eq_true_iff.mp hm).1) hc
  | failure =>
    have h := (rebuildPlan_failure_rings hb).mp h
    split at h
    · obtain ⟨_, _, hF, hT, rfl⟩ := h
      refine hlost hF hT (fun m hm => ?_) (mem_filter.mp hc).1
      simp [counted, eq_of_beq hm, isCommittedMemberState]
    · rw [h] at hc
      cases hc

theorem length_tokens_le (h : Fits latest.state) {m} (hm : m ∈ latest.state.members) :
    m.tokens.length ≤ latest.state.tokensPerMember := by
  have hstorable := h.storable m hm
  unfold Storable at hstorable
  split at hstorable
  · rw [hstorable.1]
    exact Nat.zero_le _
  · exact le_of_eq hstorable.length_tokens

theorem length_ranges_le (hfits : Fits latest.state) (hb : latest.state.activeBatch = some batch)
    (h : rebuildPlan latest = .ok plan) (hc : c ∈ plan.ownerChanges) :
    c.ranges.length ≤ latest.state.tokensPerMember + 1 := by
  obtain ⟨source, target, hmoves, -⟩ := rebuildPlan_moves hb h hc
  have hmem : mover batch.type source target ∈ latest.state.members := by
    unfold mover
    split
    · exact hmoves.target_mem
    · exact hmoves.source_mem
  have hends : ∀ t ∈ c.ranges.map Span.hi,
      t = maxToken ∨ t ∈ (mover batch.type source target).tokens := by
    intro t ht
    obtain ⟨_, hr, rfl⟩ := mem_map.mp ht
    exact hi_mem_tokens hb h hc hmoves hr
  have hcard := length_le_of_tokens hmoves.ascending.hi_nodup hends
  rw [length_map] at hcard
  have htok := length_tokens_le hfits hmem
  omega

/-! ## Changes of one executor -/

/-- The member that works on a change: the target if the source has failed, otherwise the
source. -/
def changeExecutor (type : TopologyChangeType) (c : TopologyOwnerChange) : Bytes :=
  if type = .failure then (changeEnds c).2 else (changeEnds c).1

/-- The other end of the change. -/
def changePeer (type : TopologyChangeType) (c : TopologyOwnerChange) : Bytes :=
  if type = .failure then (changeEnds c).1 else (changeEnds c).2

def changesOf (type : TopologyChangeType) (executor : Bytes) (changes : List TopologyOwnerChange) :
    List TopologyOwnerChange :=
  changes.filter fun c => changeExecutor type c = executor

theorem changeEnds_eq {c'} (he : changeExecutor type c = changeExecutor type c')
    (hp : changePeer type c = changePeer type c') : changeEnds c = changeEnds c' := by
  unfold changeExecutor at he
  unfold changePeer at hp
  split at he
  · rename_i htype
    rw [if_pos htype, if_pos htype] at hp
    exact Prod.ext hp he
  · rename_i htype
    rw [if_neg htype, if_neg htype] at hp
    exact Prod.ext he hp

theorem peers_nodup {changes} (h : Separate changes) (executor) :
    ((changesOf type executor changes).map (changePeer type)).Nodup := by
  have hends := pairwise_map.mp (h.ends.sublist
    ((filter_sublist (p := fun c => changeExecutor type c = executor)).map changeEnds))
  refine pairwise_map.mpr (hends.imp_of_mem fun {c c'} hc hc' hne hpeer => hne ?_)
  have hexec := (mem_filter.mp hc).2
  have hexec' := (mem_filter.mp hc').2
  rw [decide_eq_true_eq] at hexec hexec'
  exact changeEnds_eq (hexec.trans hexec'.symm) hpeer

/-- Changes of one executor are counted by the members among their peers. -/
theorem length_changesOf_le (hb : latest.state.activeBatch = some batch)
    (h : rebuildPlan latest = .ok plan) (executor) {p}
    (hp : ∀ c ∈ plan.ownerChanges, ∃ m ∈ latest.state.members,
      p m ∧ m.address = changePeer batch.type c) :
    (changesOf batch.type executor plan.ownerChanges).length ≤ latest.state.members.countP p := by
  have hnodup : ((changesOf batch.type executor plan.ownerChanges).map
      (changePeer batch.type)).Nodup := peers_nodup (separate_of_rebuildPlan hb h).1 executor
  have hsub : (changesOf batch.type executor plan.ownerChanges).map (changePeer batch.type) ⊆
      (latest.state.members.filter p).map Member.address := by
    intro peer hpeer
    obtain ⟨c, hc, rfl⟩ := mem_map.mp hpeer
    obtain ⟨m, hm, hpm, heq⟩ := hp c (mem_filter.mp hc).1
    exact mem_map.mpr ⟨m, mem_filter.mpr ⟨hm, hpm⟩, heq⟩
  have hlen := hnodup.length_le_of_subset hsub
  rwa [length_map, length_map, ← countP_eq_length_filter] at hlen

/-- In a scale-out and after a failure the peers take part in the batch. -/
theorem length_changesOf_le_participants (hb : latest.state.activeBatch = some batch)
    (htype : batch.type ≠ .scaleIn) (h : rebuildPlan latest = .ok plan) (executor) :
    (changesOf batch.type executor plan.ownerChanges).length ≤
      latest.state.members.countP fun m => m.state = batch.type.participant := by
  refine length_changesOf_le hb h executor fun c hc => ?_
  obtain ⟨source, target, hmoves, hstate⟩ := rebuildPlan_moves hb h hc
  obtain ⟨type, _⟩ := batch
  cases type with
  | scaleOut =>
    refine ⟨target, hmoves.target_mem, ?_, ?_⟩
    · exact decide_eq_true (check_eq_ok.mp hstate).2
    · simp [changePeer, changeEnds, hmoves.target_eq, Member.address]
  | scaleIn => exact absurd rfl htype
  | failure =>
    obtain ⟨_, hs, _⟩ := bind_eq_ok.mp hstate
    refine ⟨source, hmoves.source_mem, ?_, ?_⟩
    · exact decide_eq_true (check_eq_ok.mp hs)
    · simp [changePeer, changeEnds, hmoves.source_eq, Member.address]

/-- Peers hold tokens, so there are no more of them than members with tokens. -/
theorem length_changesOf_le_placed (hb : latest.state.activeBatch = some batch)
    (h : rebuildPlan latest = .ok plan) (executor) :
    (changesOf batch.type executor plan.ownerChanges).length ≤
      latest.state.members.countP fun m => m.state ≠ .initial := by
  by_cases htype : batch.type = .scaleIn
  · refine length_changesOf_le hb h executor fun c hc => ?_
    obtain ⟨_, target, hmoves, hstate⟩ := rebuildPlan_moves hb h hc
    rw [htype] at hstate ⊢
    obtain ⟨-, htarget⟩ := check_eq_ok.mp hstate
    refine ⟨target, hmoves.target_mem, decide_eq_true fun hinitial => ?_, ?_⟩
    · rw [hinitial] at htarget
      cases htarget
    · simp [changePeer, changeEnds, hmoves.target_eq, Member.address]
  · refine le_trans (length_changesOf_le_participants hb htype h executor) ?_
    refine countP_mono_left fun m _ hm => decide_eq_true fun hinitial => ?_
    rw [decide_eq_true_eq, hinitial] at hm
    cases htype' : batch.type <;> rw [htype'] at hm <;> cases hm

/-- A member that leaves has no more changes than ranges, and these end at its tokens. -/
theorem length_changesOf_le_tokens (hfits : Fits latest.state)
    (hb : latest.state.activeBatch = some batch) (htype : batch.type = .scaleIn)
    (h : rebuildPlan latest = .ok plan) (executor) :
    (changesOf batch.type executor plan.ownerChanges).length ≤
      latest.state.tokensPerMember + 1 := by
  set changes := changesOf batch.type executor plan.ownerChanges with hchanges
  have hnodup : (changes.flatMap fun c => c.ranges.map Span.hi).Nodup := by
    obtain ⟨_, _, hF, hT, rfl⟩ := (rebuildPlan_ordinary hb (by simp [htype])).mp h
    exact (his_nodup hF.sound hT.sound).sublist (filter_sublist.flatMap _)
  -- every change has a range
  have hle : changes.length ≤ (changes.flatMap fun c => c.ranges.map Span.hi).length := by
    have hone : ∀ c ∈ changes, 1 ≤ (c.ranges.map Span.hi).length := by
      intro c hc
      obtain ⟨_, _, hmoves, -⟩ := rebuildPlan_moves hb h (mem_filter.mp hc).1
      rw [length_map]
      exact length_pos_iff.mpr hmoves.ranges_ne_nil
    rw [length_flatMap]
    have hsum := length_le_sum_of_one_le (changes.map fun c => (c.ranges.map Span.hi).length)
      (forall_mem_map.mpr hone)
    rwa [length_map] at hsum
  refine le_trans hle ?_
  cases hfirst : changes with
  | nil => exact Nat.zero_le _
  | cons c =>
    have hc : c ∈ changes := by rw [hfirst]; exact mem_cons_self
    obtain ⟨source, target, hmoves, -⟩ := rebuildPlan_moves hb h (mem_filter.mp hc).1
    have hexec : ∀ {c source target}, c ∈ changes → Moves latest.state.members source target c →
        source.address = executor := by
      intro c source target hc hmoves
      have heq := of_decide_eq_true (mem_filter.mp hc).2
      rw [changeExecutor, htype, if_neg (by simp), changeEnds, hmoves.source_eq] at heq
      exact heq
    rw [← hfirst]
    refine le_trans (length_le_of_tokens hnodup fun t ht => ?_)
      (Nat.succ_le_succ (length_tokens_le hfits hmoves.source_mem))
    obtain ⟨_, hc', ht⟩ := mem_flatMap.mp ht
    obtain ⟨_, hr, rfl⟩ := mem_map.mp ht
    have hmem' := (mem_filter.mp hc').1
    obtain ⟨_, _, hmoved', -⟩ := rebuildPlan_moves hb h hmem'
    obtain rfl := eq_of_address_eq latest.validTopology.members.addresses_nodup hmoved'.source_mem
      hmoves.source_mem ((hexec hc' hmoved').trans (hexec hc hmoves).symm)
    have hhi := hi_mem_tokens hb h hmem' hmoved' hr
    rwa [mover, htype, if_neg (by simp)] at hhi

/-! ## Tasks of one executor -/

/-- A task for each piece of the ranges of each change. -/
theorem length_executorTasks (sha256) (batch) (changes) (executor) :
    ((derivedTasks sha256 batch changes).filter
        fun task => task.executorAddress = executor).length =
      ((changesOf batch.type executor changes).map fun c =>
        (chunks maxTopologyTaskRanges (sortRanges c.ranges)).length).sum := by
  have hperm : (derivedTasks sha256 batch changes).Perm _ := sortBy_perm _ _
  have hname : ∀ task, (nameTask sha256 task).executorAddress = task.executorAddress := by
    intro task
    cases task <;> rfl
  have hgroup : (changes.flatMap (appendTaskChunks batch.type batch.epoch)).filter
        (fun task => task.executorAddress = executor) =
      (changesOf batch.type executor changes).flatMap
        (appendTaskChunks batch.type batch.epoch) := by
    refine filter_flatMap_group (fun c _ task htask => ?_) executor
    obtain ⟨_, -, rfl⟩ := mem_map.mp htask
    cases batch.type <;> rfl
  rw [(hperm.filter _).length_eq, filter_map, length_map]
  simp only [Function.comp_def, hname, hgroup, length_flatMap, appendTaskChunks, length_map]

/-- The pieces of a change: one, and a second only if members have as many tokens as a task may
have ranges. -/
theorem length_pieces_mul_le (hfits : Fits latest.state)
    (hb : latest.state.activeBatch = some batch) (h : rebuildPlan latest = .ok plan)
    (hc : c ∈ plan.ownerChanges) :
    (chunks maxTopologyTaskRanges (sortRanges c.ranges)).length * maxTopologyTaskRanges ≤
      latest.state.tokensPerMember + maxTopologyTaskRanges := by
  have hlen : (sortRanges c.ranges).length = c.ranges.length := length_sortBy _ _
  have hpieces := length_chunks_mul_lt maxTopologyTaskRanges_pos (sortRanges c.ranges)
  have hranges := length_ranges_le hfits hb h hc
  omega

theorem sum_le_of_le {l : List TopologyOwnerChange} {f : TopologyOwnerChange → Nat} {k : Nat}
    (h : ∀ c ∈ l, f c ≤ k) : (l.map f).sum ≤ l.length * k := by
  have hsum := sum_le_card_nsmul (l.map f) k (forall_mem_map.mpr h)
  rwa [length_map] at hsum

/-- No executor gets more tasks than a notify may refer to, if no more members take part in a
scale-out or a failure. -/
theorem length_executorTasks_le (sha256) (hfits : Fits latest.state)
    (hb : latest.state.activeBatch = some batch) (h : rebuildPlan latest = .ok plan)
    (hparticipant : batch.type ≠ .scaleIn → (latest.state.members.countP fun m => m.state =
      batch.type.participant) ≤ maxNotifyTaskRefs)
    (executor) :
    ((derivedTasks sha256 batch plan.ownerChanges).filter
      fun task => task.executorAddress = executor).length ≤ maxNotifyTaskRefs := by
  have hpieces : ∀ c ∈ changesOf batch.type executor plan.ownerChanges,
      (chunks maxTopologyTaskRanges (sortRanges c.ranges)).length * maxTopologyTaskRanges ≤
        latest.state.tokensPerMember + maxTopologyTaskRanges :=
    fun c hc => length_pieces_mul_le hfits hb h (mem_filter.mp hc).1
  have hn := hfits.valid.tokensPerMember.2
  rw [length_executorTasks]
  simp only [maxTopologyTaskRanges, maxHashRingTokensPerMember] at hpieces hn ⊢
  rcases Nat.lt_or_eq_of_le hn with hlt | heq
  · -- one task for each change
    refine le_trans (sum_le_of_le (k := 1) fun c hc => ?_) ?_
    · have hle := hpieces c hc
      omega
    rw [Nat.mul_one]
    by_cases htype : batch.type = .scaleIn
    · have hle := length_changesOf_le_tokens hfits hb htype h executor
      exact le_trans hle hlt
    · exact le_trans (length_changesOf_le_participants hb htype h executor) (hparticipant htype)
  · -- at most two, but the limit on all tokens leaves few members
    have hplaced := length_changesOf_le_placed hb h executor
    have htok := le_trans (countP_mul_le hfits.storable) hfits.tokens
    rw [heq, maxTopologyTokens] at htok
    refine le_trans (sum_le_of_le (k := 2) fun c hc => ?_) ?_
    · have hle := hpieces c hc
      omega
    · rw [maxNotifyTaskRefs]
      omega

end

end Datasystem.Cluster.TopologyTaskMaterializer
