import Datasystem.Cluster.OwnerChanges
import Datasystem.Cluster.TopologyEvolution

/-! Rings by the members that count. The planner and the snapshot build their rings
independently; a ring is determined by whose tokens are on it, so two rings agree
wherever the same members count. -/

namespace Datasystem.Cluster

open Common HashRingToken Lib.Sorting Lib.TokenRing HashAlgorithm

/-! ## Rings by what counts -/

/-- The token and its owner count among the members that satisfy `p`. -/
def OwnedIn (p : Member → Bool) (members : List Member) (o : TokenOwner) : Prop :=
  ∃ m ∈ members, p m ∧ o.token ∈ m.tokens ∧ m.identity = o.identity

/-- The ring is made of the tokens of the members that satisfy `p`. -/
structure RingOf (p : Member → Bool) (members : List Member) (ring : OwnerRing) : Prop where
  sound : ring.Sound
  mem_iff : ∀ o, o ∈ ring.owners ↔ OwnedIn p members o

variable {members : List Member} {ring : OwnerRing} {p : Member → Bool}

theorem ringOf_buildOwners (hv : ValidMembers members) {j a} {excluded}
    (h : buildOwners members j excluded a = .ok ring) :
    RingOf (fun m => isEligible j a m.state && m.address ∉ excluded) members ring where
  sound := buildOwners_sound hv.addresses_nodup hv.tokens_nodup h
  mem_iff o := by
    rw [mem_owners h]
    simp only [OwnedIn, mem_eligibleMembers, Bool.and_eq_true, decide_eq_true_eq, and_assoc]

theorem RingOf.congr {q} {members'}
    (h : RingOf p members ring) (heq : ∀ o, OwnedIn p members o ↔ OwnedIn q members' o) :
    RingOf q members' ring :=
  ⟨h.sound, fun o => (h.mem_iff o).trans (heq o)⟩

theorem ownedIn_canonicalize {s} {o} :
    OwnedIn p (canonicalize s).members o ↔ OwnedIn p s.members o := by
  simp [OwnedIn]

/-- Members change their state; those that count afterwards are those that counted before. -/
theorem ownedIn_restate {q} {f} (h : ∀ m ∈ members, p m ↔ ∃ st, f m = some st ∧ q (m.withState st))
    (o) :
    OwnedIn p members o ↔ OwnedIn q (restate f members) o := by
  constructor
  · intro howned
    obtain ⟨m, hm, hp, ht, hi⟩ := howned
    obtain ⟨st, hf, hq⟩ := (h m hm).mp hp
    exact ⟨m.withState st, mem_restate.mpr ⟨m, hm, st, hf, rfl⟩, hq, ht, hi⟩
  · intro howned
    obtain ⟨_, hm', hq, ht, hi⟩ := howned
    obtain ⟨m, hm, st, hf, rfl⟩ := mem_restate.mp hm'
    exact ⟨m, hm, (h m hm).mpr ⟨st, hf, hq⟩, ht, hi⟩

/-! ## Owners on such a ring -/

section

variable {p q : Member → Bool} {members : List Member} {ring F T : OwnerRing}

theorem RingOf.exists_owner (h : RingOf p members ring) (t) :
    ∃ m ∈ members, p m ∧ (findOwner ring t).token ∈ m.tokens ∧ m.identity = ownerAt ring t :=
  (h.mem_iff _).mp (findOwner_owns h.sound t).1

theorem RingOf.ownerAt_token (h : RingOf p members ring) {m} (hm : m ∈ members)
    (hp : p m) {t} (ht : t ∈ m.tokens) : ownerAt ring t = m.identity := by
  have ho : (⟨t, m.identity⟩ : TokenOwner) ∈ ring.owners := (h.mem_iff _).mpr ⟨m, hm, hp, ht, rfl⟩
  rw [ownerAt, findOwner_eq h.sound (owns_self ho)]

/-- Where a ring with more members has another owner, it is one of the additional members. -/
theorem RingOf.gained (hF : RingOf p members F) (hT : RingOf q members T)
    (hpq : ∀ m ∈ members, p m → q m) {t} (hne : ownerAt F t ≠ ownerAt T t) :
    ∃ m ∈ members, q m ∧ ¬p m ∧ m.identity = ownerAt T t := by
  obtain ⟨m, hm, hq, ht, hi⟩ := hT.exists_owner t
  refine ⟨m, hm, hq, fun hp => hne ?_, hi⟩
  have hsub : ∀ o ∈ F.owners, o ∈ T.owners := by
    intro o ho
    obtain ⟨m, hm, hp, hrest⟩ := (hF.mem_iff o).mp ho
    exact (hT.mem_iff o).mpr ⟨m, hm, hpq m hm hp, hrest⟩
  have howner := findOwner_eq_of_subset hT.sound hF.sound hsub
    ((hF.mem_iff _).mpr ⟨m, hm, hp, ht, hi⟩)
  rw [ownerAt, ownerAt, howner]

end

theorem RingOf.unique {ring'}
    (h : RingOf p members ring) (h' : RingOf p members ring') : ring = ring' := by
  have hown : ring.owners = ring'.owners :=
    strict_ext TokenOwner.token h.sound.ordered h'.sound.ordered fun o => by
      rw [h.mem_iff, h'.mem_iff]
  cases ring
  cases ring'
  cases hown
  rfl

/-- A ring is what the planner builds from the members that count. -/
theorem buildOwners_of_ringOf (hv : ValidMembers members) {j a} {excluded}
    (h : RingOf (fun m => isEligible j a m.state && m.address ∉ excluded) members ring) :
    buildOwners members j excluded a = .ok ring := by
  obtain ⟨m, hm, hp, ht, -⟩ := h.exists_owner 0
  obtain ⟨hs, hout⟩ := Bool.and_eq_true_iff.mp hp
  obtain ⟨_, h'⟩ := (exists_buildOwners_iff members j excluded a).mpr
    ⟨m, hm, ⟨hs, of_decide_eq_true hout⟩, List.ne_nil_of_mem ht⟩
  rw [h', (ringOf_buildOwners hv h').unique h]

/-! ## Token indexes -/

theorem mem_tokenIndex {e} :
    e ∈ tokenIndex p members ↔ e.2 ∈ members ∧ p e.2 ∧ e.1 ∈ e.2.tokens := by
  obtain ⟨_, _⟩ := e
  simp [tokenIndex, and_assoc]

/-- Searching an index finds the owner on the ring of the same tokens. -/
theorem RingOf.locateIndexedOwner (h : RingOf p members ring) (t) :
    ∃ m ∈ members, HashAlgorithm.locateIndexedOwner (tokenIndex p members) t = .ok m ∧
      m.identity = ownerAt ring t := by
  obtain ⟨o, ho⟩ := List.exists_mem_of_ne_nil _ ring.nonempty
  obtain ⟨m, hm, hp, ht, -⟩ := (h.mem_iff o).mp ho
  have hentry : (o.token, m) ∈ tokenIndex p members := mem_tokenIndex.mpr ⟨hm, hp, ht⟩
  have hne := List.ne_nil_of_mem hentry
  have hsome : ∃ e, successor? Prod.fst (tokenIndex p members) t = some e := successor?_isSome hne
  obtain ⟨e, he⟩ := hsome
  have howns := successor?_owns (sortBy_pairwise Prod.fst _) he
  have hmap : Owns TokenOwner.token
      ((tokenIndex p members).map fun e => TokenOwner.mk e.1 e.2.identity) t
      ⟨e.1, e.2.identity⟩ :=
    howns.map (f := fun e : TokenIndexEntry => TokenOwner.mk e.1 e.2.identity) fun _ _ => rfl
  have hring : ∀ o, o ∈ (tokenIndex p members).map (fun e => TokenOwner.mk e.1 e.2.identity) ↔
      o ∈ ring.owners := by
    intro o
    rw [h.mem_iff o, List.mem_map]
    constructor
    · rintro ⟨e, he, rfl⟩
      obtain ⟨hm, hp, ht⟩ := mem_tokenIndex.mp he
      exact ⟨e.2, hm, hp, ht, rfl⟩
    · rintro ⟨m, hm, hp, ht, hi⟩
      exact ⟨(o.token, m), mem_tokenIndex.mpr ⟨hm, hp, ht⟩, by rw [hi]⟩
  have howner := findOwner_eq h.sound ((Owns.congr_list hring).mp hmap)
  refine ⟨e.2, (mem_tokenIndex.mp howns.1).1, ?_, ?_⟩
  · rw [HashAlgorithm.locateIndexedOwner, he]
  · rw [ownerAt, howner]

end Datasystem.Cluster
