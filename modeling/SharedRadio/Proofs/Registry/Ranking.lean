import Mathlib.Data.List.Induction
import SharedRadio.Proofs.Registry.Chain

/-!
# The chain as a sorted list

A registry is filled by attachments. This module says what it holds after any list of them, in terms
of that list alone: which priority value a protocol has, which sink a slot holds, and in which order
the chain lists the protocols.

`Precedes` is that order. A smaller priority value goes first, and of two equal values the one that
was given later; both are those of a protocol's first attachment. The order decides between any two
attached protocols, so there is one list only that is in this order, and `Ranking.unique` says that
it is the chain.
-/

namespace SharedRadio.Registry

variable {σ : Type}

/-! ## Attachments -/

/-- A sink that is stored in a protocol's slot, and the priority value that comes with it. -/
structure Attachment (σ : Type) where
  protocol : Protocol
  priority : UInt8
  slot : Slot
  sink : σ

/-- The registry after one more attachment, and whether the slot was empty. -/
def accept (r : Registry σ) (c : Attachment σ) : Bool × Registry σ :=
  r.attach c.protocol c.priority c.slot c.sink

/-- The registry after some attachments. -/
def attachAll (calls : List (Attachment σ)) : Registry σ :=
  calls.foldl (fun r c => (r.accept c).2) .empty

/-- The first attachment of a protocol, in either slot. -/
def first? (calls : List (Attachment σ)) (p : Protocol) : Option (Attachment σ) :=
  calls.find? fun c => c.protocol = p

/-- The last attachment to a protocol's slot. -/
def last? (calls : List (Attachment σ)) (p : Protocol) (slot : Slot) : Option (Attachment σ) :=
  calls.reverse.find? fun c => c.protocol = p ∧ c.slot = slot

/-- The position of a protocol's first attachment. -/
def entry (calls : List (Attachment σ)) (p : Protocol) : Nat :=
  calls.findIdx fun c => c.protocol = p

/-- A protocol was given a smaller priority value than another one, or the same value later. -/
def Precedes (calls : List (Attachment σ)) (p q : Protocol) : Prop :=
  ∃ c d, first? calls p = some c ∧ first? calls q = some d ∧
    (c.priority < d.priority ∨ c.priority = d.priority ∧ entry calls q < entry calls p)

section

variable {calls : List (Attachment σ)} {c : Attachment σ} {p q : Protocol}

@[simp] theorem attachAll_append_singleton (calls : List (Attachment σ)) (c : Attachment σ) :
    attachAll (calls ++ [c]) = ((attachAll calls).accept c).2 := by
  simp [attachAll]

theorem first?_append_singleton (calls : List (Attachment σ)) (c : Attachment σ) (p : Protocol) :
    first? (calls ++ [c]) p =
      (first? calls p).or (if c.protocol = p then some c else none) := by
  simp [first?, List.find?_append, List.find?_singleton]

theorem last?_append_singleton (calls : List (Attachment σ)) (c : Attachment σ) (p : Protocol)
    (slot : Slot) :
    last? (calls ++ [c]) p slot =
      if c.protocol = p ∧ c.slot = slot then some c else last? calls p slot := by
  unfold last?
  rw [List.reverse_append, List.reverse_singleton, List.singleton_append, List.find?_cons]
  split <;> simp_all

theorem last?_append (calls newer : List (Attachment σ)) (p : Protocol) (slot : Slot) :
    last? (calls ++ newer) p slot = (last? newer p slot).or (last? calls p slot) := by
  unfold last?
  rw [List.reverse_append, List.find?_append]

theorem first?_eq_none_iff : first? calls p = none ↔ ∀ c ∈ calls, c.protocol ≠ p := by
  simp [first?]

theorem first?_append_of_eq_some (h : first? calls p = some c) (newer : List (Attachment σ)) :
    first? (calls ++ newer) p = some c := by
  unfold first? at *
  rw [List.find?_append, h, Option.some_or]

/-- A protocol that was attached has its entry among what came before. -/
theorem entry_lt_length_iff : entry calls p < calls.length ↔ (first? calls p).isSome := by
  rw [entry, List.findIdx_lt_length, first?, List.find?_isSome]

theorem entry_append (newer : List (Attachment σ)) (h : (first? calls p).isSome) :
    entry (calls ++ newer) p = entry calls p := by
  have hlt := entry_lt_length_iff.mpr h
  unfold entry at *
  rw [List.findIdx_append, if_pos hlt]

theorem length_le_entry_append (newer : List (Attachment σ)) (h : first? calls p = none) :
    calls.length ≤ entry (calls ++ newer) p := by
  have hge : ¬ entry calls p < calls.length := by simp [entry_lt_length_iff, h]
  unfold entry at *
  rw [List.findIdx_append, if_neg hge]
  exact Nat.le_add_left _ _

/-- What was decided between two protocols is not changed by an attachment. -/
theorem Precedes.append (h : Precedes calls p q) (newer : List (Attachment σ)) :
    Precedes (calls ++ newer) p q := by
  obtain ⟨c, d, hc, hd, hless⟩ := h
  refine ⟨c, d, first?_append_of_eq_some hc newer, first?_append_of_eq_some hd newer, ?_⟩
  have hp : (first? calls p).isSome := Option.isSome_iff_exists.mpr ⟨c, hc⟩
  have hq : (first? calls q).isSome := Option.isSome_iff_exists.mpr ⟨d, hd⟩
  rwa [entry_append newer hp, entry_append newer hq]

theorem Precedes.asymm (h : Precedes calls p q) : ¬ Precedes calls q p := by
  rintro ⟨d', c', hd', hc', hless'⟩
  obtain ⟨c, d, hc, hd, hless⟩ := h
  obtain rfl : c = c' := Option.some.inj (hc.symm.trans hc')
  obtain rfl : d = d' := Option.some.inj (hd.symm.trans hd')
  rw [UInt8.lt_iff_toNat_lt, ← UInt8.toNat_inj] at hless hless'
  omega

end

/-! ## What a registry holds -/

theorem sound_attachAll (calls : List (Attachment σ)) : (attachAll calls).Sound := by
  induction calls using List.reverseRecOn with
  | nil => exact sound_empty
  | append_singleton calls c ih =>
    rw [attachAll_append_singleton]
    exact ih.attach c.protocol c.priority c.slot c.sink

/-- A slot holds the sink of its last attachment. -/
theorem sink?_attachAll (calls : List (Attachment σ)) (p : Protocol) (slot : Slot) :
    (attachAll calls).sink? p slot = (last? calls p slot).map Attachment.sink := by
  induction calls using List.reverseRecOn with
  | nil => exact sink?_empty p slot
  | append_singleton calls c ih =>
    rw [attachAll_append_singleton, accept, sink?_attach, ih, last?_append_singleton]
    by_cases h : c.protocol = p ∧ c.slot = slot
    · obtain ⟨rfl, rfl⟩ := h
      simp
    · rw [if_neg h, if_neg fun h' => h ⟨h'.1.symm, h'.2.symm⟩]

/-- A protocol has the priority value of its first attachment. -/
theorem priority?_attachAll (calls : List (Attachment σ)) (p : Protocol) :
    (attachAll calls).priority? p = (first? calls p).map Attachment.priority := by
  induction calls using List.reverseRecOn with
  | nil => exact priority?_empty p
  | append_singleton calls c ih =>
    have hsink := (sound_attachAll calls).sink?_eq_none (p := p)
    rw [attachAll_append_singleton, accept, priority?_attach, first?_append_singleton]
    cases hfirst : first? calls p with
    | some d =>
      rw [hfirst] at ih
      rw [ih, if_neg ?_]
      · rfl
      · rintro ⟨rfl, -, hnone⟩
        cases hnone.symm.trans ih
    | none =>
      rw [hfirst] at ih
      rw [ih]
      by_cases hc : c.protocol = p
      · subst hc
        rw [if_pos ⟨rfl, hsink ih _, ih⟩]
        simp
      · rw [if_neg fun h => hc h.1.symm]
        simp [hc]

theorem rank_attachAll {calls : List (Attachment σ)} {p : Protocol} {c : Attachment σ}
    (h : first? calls p = some c) : (attachAll calls).rank p = c.priority := by
  rw [rank, priority?_attachAll, h]
  rfl

theorem mem_chain_attachAll {calls : List (Attachment σ)} {p : Protocol} :
    p ∈ (attachAll calls).chain ↔ ∃ c, first? calls p = some c := by
  rw [(sound_attachAll calls).mem_chain_iff, priority?_attachAll, Option.isSome_map,
    Option.isSome_iff_exists]

/-- **The chain is in order.** -/
theorem pairwise_chain_attachAll (calls : List (Attachment σ)) :
    (attachAll calls).chain.Pairwise (Precedes calls) := by
  induction calls using List.reverseRecOn with
  | nil => exact List.Pairwise.nil
  | append_singleton calls c ih =>
    have hsound := sound_attachAll calls
    have hold : (attachAll calls).chain.Pairwise (Precedes (calls ++ [c])) :=
      ih.imp fun h => h.append [c]
    rw [attachAll_append_singleton, accept, hsound.chain_attach]
    split
    · next hnew =>
      have hfirst : first? calls c.protocol = none := by
        simpa [priority?_attachAll] using hnew
      have hc : first? (calls ++ [c]) c.protocol = some c := by
        simp [first?_append_singleton, hfirst]
      have hlast := length_le_entry_append [c] hfirst
      rw [← List.takeWhile_append_dropWhile (p := ((attachAll calls).rank · < c.priority))
        (l := (attachAll calls).chain)] at hold
      refine pairwise_splice hold (fun q hq => ?_) fun q hq => ?_
      · obtain ⟨d, hd⟩ := mem_chain_attachAll.mp (List.takeWhile_subset _ hq)
        have hrank := List.mem_takeWhile_imp hq
        rw [rank_attachAll hd] at hrank
        exact ⟨d, c, first?_append_of_eq_some hd [c], hc, .inl (by simpa using hrank)⟩
      · obtain ⟨d, hd⟩ := mem_chain_attachAll.mp (List.dropWhile_subset _ hq)
        have hrank := le_rank_of_mem_dropWhile hsound.sorted hq
        rw [rank_attachAll hd] at hrank
        have hentry : entry (calls ++ [c]) q < calls.length := by
          rw [entry_append [c] (by simp [hd])]
          exact entry_lt_length_iff.mpr (by simp [hd])
        refine ⟨c, d, hc, first?_append_of_eq_some hd [c], ?_⟩
        rcases UInt8.lt_or_eq_of_le hrank with hless | heq
        · exact .inl hless
        · exact .inr ⟨heq, by omega⟩
    · exact hold

/-! ## The sorted list -/

/-- What a registry holds after some attachments. -/
structure Ranking (calls : List (Attachment σ)) (r : Registry σ) : Prop where
  /-- The links lead from the head through the chain to its end. -/
  path : r.Path r.head r.chain none
  /-- The chain lists the protocols with a sink, each of them once, -/
  nodup : r.chain.Nodup
  mem_iff : ∀ p, p ∈ r.chain ↔ ∃ slot, (r.sink? p slot).isSome
  /-- in their order, -/
  order : r.chain.Pairwise (Precedes calls)
  /-- and is the only list that does so. -/
  unique : ∀ l : List Protocol, l.Nodup → (∀ p, p ∈ l ↔ ∃ slot, (r.sink? p slot).isSome) →
    l.Pairwise (Precedes calls) → l = r.chain
  /-- A protocol has the priority value of its first attachment. -/
  priority : ∀ p, r.priority? p = (first? calls p).map Attachment.priority
  /-- A slot holds the sink of its last attachment. -/
  sink : ∀ p slot, r.sink? p slot = (last? calls p slot).map Attachment.sink
  /-- An attachment found its slot empty if it was the first one to that slot. -/
  fresh_iff : ∀ older c newer, calls = older ++ c :: newer →
    (((attachAll older).accept c).1 = true ↔
      ∀ c' ∈ older, ¬ (c'.protocol = c.protocol ∧ c'.slot = c.slot))
  /-- Of a protocol that was not attached nothing is known. -/
  absent : ∀ p, (∀ c ∈ calls, c.protocol ≠ p) →
    r.priority? p = none ∧ (∀ slot, r.sink? p slot = none) ∧ r.next? p = none

theorem accept_fst_iff {calls : List (Attachment σ)} {c : Attachment σ} :
    ((attachAll calls).accept c).1 = true ↔
      ∀ c' ∈ calls, ¬ (c'.protocol = c.protocol ∧ c'.slot = c.slot) := by
  rw [accept, attach_fst, sink?_attachAll, Option.isNone_map]
  simp [last?]

/-- A protocol without a place in the chain has no successor. -/
theorem next?_eq_none {r : Registry σ} {p : Protocol} (h : r.priority? p = none) :
    r.next? p = none := by
  have hlink : (r.entries.get p).link = none := by simpa [priority?] using h
  rw [next?, hlink]
  rfl

/-- **The priority chain is a sorted list.** Whatever is attached, in whatever order and however
often, the chain lists the protocols that have a sink, each of them once, by ascending priority
value, and of two equal values the one that was given later first. -/
theorem ranking_attachAll (calls : List (Attachment σ)) : Ranking calls (attachAll calls) := by
  have hsound := sound_attachAll calls
  have hmem : ∀ p, p ∈ (attachAll calls).chain ↔
      ∃ slot, ((attachAll calls).sink? p slot).isSome := fun p =>
    (hsound.mem_chain_iff p).trans (hsound.linked_iff p)
  have horder := pairwise_chain_attachAll calls
  refine ⟨hsound.path, hsound.nodup, hmem, horder, ?unique, priority?_attachAll calls,
    sink?_attachAll calls, fun _ _ _ _ => accept_fst_iff, ?absent⟩
  case unique =>
    intro l hnodup hl hpairwise
    refine List.Perm.eq_of_pairwise (fun p q _ _ hpq hqp => absurd hqp hpq.asymm) hpairwise
      horder ?_
    exact (List.perm_ext_iff_of_nodup hnodup hsound.nodup).mpr fun p => (hl p).trans (hmem p).symm
  case absent =>
    intro p hp
    have hnone : (attachAll calls).priority? p = none := by
      rw [priority?_attachAll, first?_eq_none_iff.mpr hp]
      rfl
    exact ⟨hnone, hsound.sink?_eq_none hnone, next?_eq_none hnone⟩

end SharedRadio.Registry
