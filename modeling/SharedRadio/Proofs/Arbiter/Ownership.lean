import SharedRadio.Proofs.Arbiter.Run

/-!
# Ownership and its levels

The arbiter keeps the owner of the transceiver and, in a word of 32 bits, the number of levels at
which it is owned. The history of a run tells the number that is meant: `outstanding` counts the
acquisitions granted to the present owner and not given up. As long as that count fits into a word,
the word is equal to it in every run (`Reached.counted`), however operations are nested.

From this follows mutual exclusion in the form in which the arbiter relies on it: a positive depth
and an owner come and go together, and whoever is the owner has a sink and a place in the chain.
-/

namespace SharedRadio.Arbiter

variable {σ : Type}

/-! ## Counting levels -/

/-- A leg ends with a grant, if it decides about an acquisition: the new owner is told so, or the
operation is over and was not refused. -/
def Progress.isGrant : Progress σ → Bool
  | .notifies n _ => n.event = .active
  | .finished (.settled (.error .denied)) => false
  | .finished (.settled (.error .invalidParameter)) => false
  | .finished _ => true

/-- A leg ends with a fault that its operation has found. -/
def Progress.isError : Progress σ → Bool
  | .finished (.settled (.error _)) => true
  | _ => false

/-- A leg of an operation grants it the transceiver, or one more level. A leg that begins when the
new owner has answered comes after the grant. -/
def grants : Call σ → Cue σ → Progress σ → Bool
  | .acquire _ _, some (.activating _ _, _), _ => false
  | .acquire _ _, _, progress => progress.isGrant
  | _, _, _ => false

/-- A leg gives up a level of an owner: the owner calls for that and is not refused. -/
def surrenders (owner : Option Protocol) : Call σ → Cue σ → Progress σ → Bool
  | .release p, none, progress => owner = some p && !progress.isError
  | _, _, _ => false

namespace Moment

/-- An acquisition is granted at a moment. -/
def grants (m : Moment σ) : Bool := Arbiter.grants m.call m.cue m.leg.progress

/-- A level of ownership is given up at a moment. -/
def surrenders (m : Moment σ) : Bool :=
  Arbiter.surrenders m.before.owner m.call m.cue m.leg.progress

/-- The number of outstanding acquisitions after a moment, given the number before it. -/
def tally (n : Nat) (m : Moment σ) : Nat :=
  if m.after.owner = m.before.owner then
    if m.grants then n + 1 else if m.surrenders then n - 1 else n
  else if m.after.owner = none then 0 else 1

end Moment

/-- The number of acquisitions that were granted to the present owner in the course of its ownership
and that it has not given up, without a bound. -/
def outstanding (past : List (Moment σ)) : Nat := past.foldl Moment.tally 0

@[simp] theorem outstanding_append_singleton (past : List (Moment σ)) (m : Moment σ) :
    outstanding (past ++ [m]) = m.tally (outstanding past) := by
  simp [outstanding]

/-- At no time of a run did an owner have more outstanding acquisitions than a word can count. -/
def Run.Fits (r : Run σ) : Prop := ∀ past, past <+: r.past → outstanding past < UInt32.size

/-- A moment grants at most one acquisition. -/
theorem Moment.tally_le (m : Moment σ) (n : Nat) : m.tally n ≤ n + 1 := by
  unfold tally
  repeat' split
  all_goals omega

theorem outstanding_le_length (past : List (Moment σ)) : outstanding past ≤ past.length := by
  induction past using List.reverseRecOn with
  | nil => rfl
  | append_singleton past m ih =>
    have hm := m.tally_le (outstanding past)
    rw [outstanding_append_singleton, List.length_append, List.length_singleton]
    omega

/-- A move adds at most one moment. -/
theorem Run.length_past_step_le (r : Run σ) (move : Move σ) :
    (r.step move).past.length ≤ r.past.length + 1 := by
  cases move with
  | call c => simp [step, after]
  | answer b => cases hp : r.pending <;> simp [step, after, hp]

theorem Run.length_past_play_le (preemption : Bool) (moves : List (Move σ)) :
    (play preemption moves).past.length ≤ moves.length := by
  unfold play
  induction moves using List.reverseRecOn with
  | nil => rfl
  | append_singleton moves move ih =>
    rw [List.foldl_append, List.length_append, List.length_singleton]
    exact (length_past_step_le _ move).trans (Nat.succ_le_succ ih)

/-- A run of fewer moves than a word can count needs no assumption. -/
theorem Run.fits_play (preemption : Bool) {moves : List (Move σ)} (h : moves.length < UInt32.size) :
    (play preemption moves).Fits := fun past hp =>
  (outstanding_le_length past).trans_lt
    (hp.length_le.trans_lt ((length_past_play_le preemption moves).trans_lt h))

/-! ## The depth is the count -/

/-- What can become of the levels of ownership from one arbiter to another, in a leg that grants a
level or not and that gives one up or not. -/
inductive Shift (a b : Arbiter σ) : Bool → Bool → Prop where
  /-- The owner changes, and the levels start anew. -/
  | passes {granted given : Bool} (changed : b.owner ≠ a.owner)
      (depth : b.depth = if b.owner = none then 0 else 1) : Shift a b granted given
  /-- The owner is granted one more level. -/
  | deepens {given : Bool} (owned : a.owner ≠ none) (same : b.owner = a.owner)
      (depth : b.depth = a.depth + 1) : Shift a b true given
  /-- The owner gives up one of several levels. -/
  | lowers (owned : a.owner ≠ none) (same : b.owner = a.owner) (several : a.depth - 1 ≠ 0)
      (depth : b.depth = a.depth - 1) : Shift a b false true
  /-- Nothing happens to the levels. -/
  | keeps (same : b.owner = a.owner) (depth : b.depth = a.depth ∨ a.owner = none ∧ b.depth = 0) :
      Shift a b false false

/-- A leg that decides about an acquisition grants it by the way in which it ends. -/
theorem grants_of_bids {a : Arbiter σ} {p : Protocol} {sink : σ} {k : Cue σ}
    (bids : Bids a p sink k) (force : Bool) (progress : Progress σ) :
    grants (.acquire p force) k progress = progress.isGrant := by
  cases k with
  | none => rfl
  | some cue =>
    obtain ⟨told, faulted, hw⟩ := bids
    obtain ⟨w, b⟩ := cue
    subst hw
    rfl

@[simp] theorem isGrant_verdict (faulted : Bool) :
    (.finished (.settled (verdict faulted)) : Progress σ).isGrant = true := by
  cases faulted <;> rfl

theorem Deed.shift {a : Arbiter σ} {c : Call σ} {k : Cue σ} {l : Leg σ} (h : Deed a c k l) :
    Shift a l.arbiter (grants c k l.progress) (surrenders a.owner c k l.progress) := by
  cases h with
  | seizes _ new => exact .passes (Ne.symm new) (by simp)
  | nests bids owner =>
    rw [grants_of_bids bids, isGrant_verdict]
    exact .deepens (by simp [owner]) rfl rfl
  | warns bids =>
    rw [grants_of_bids bids]
    exact .keeps rfl (.inl rfl)
  | vacates =>
    by_cases howner : a.owner = none
    · exact .keeps howner.symm (.inr ⟨howner, rfl⟩)
    · exact .passes (Ne.symm howner) rfl
  | yields owner => exact .passes (by simp [owner]) rfl
  | @lowers p records owner several =>
    have hgives : surrenders a.owner (.release p) none
        (.finished (.settled (.ok ())) : Progress σ) = true := by
      simp [surrenders, owner, Progress.isError]
    rw [hgives]
    exact .lowers (by simp [owner]) rfl several rfl
  | @offers c k excluded p sink faulted records walks idle =>
    cases c with
    | release q =>
      have hkeeps : surrenders a.owner (.release q) k
          (.notifies ⟨p, .arbitration, sink, .idle⟩ (.offering excluded p faulted)) = false := by
        cases k <;> simp [surrenders, idle]
      rw [hkeeps]
      exact .keeps rfl (.inl rfl)
    | offer => exact .keeps rfl (.inl rfl)
    | _ => exact walks.elim
  | refuses bid grounds =>
    rcases bid with ⟨p, force, rfl⟩ | ⟨p, rfl⟩
    · rcases grounds with rfl | rfl <;> exact .keeps rfl (.inl rfl)
    · have hkeeps : ∀ fault, surrenders a.owner (.release p) none
          (.finished (.settled (.error fault)) : Progress σ) = false := by
        simp [surrenders, Progress.isError]
      rw [hkeeps]
      exact .keeps rfl (.inl rfl)
  | @ends c k result records acquired released =>
    cases c with
    | acquire p force =>
      obtain ⟨f, b, rfl⟩ := acquired p force rfl
      exact .keeps rfl (.inl rfl)
    | release p =>
      have hkeeps : surrenders a.owner (.release p) k (.finished result : Progress σ) = false := by
        cases k with
        | none => simp [surrenders, released p rfl rfl]
        | some => rfl
      rw [hkeeps]
      exact .keeps rfl (.inl rfl)
    | _ => exact .keeps rfl (.inl rfl)
  | enrols | replaces | aborts | announces | asks | permits => exact .keeps rfl (.inl rfl)

/-- One leg keeps depth and count equal, if the count fits into a word. -/
theorem Moment.tally_eq {m : Moment σ} (h : Shift m.before m.after m.grants m.surrenders) {n : Nat}
    (hdepth : m.before.depth.toNat = n) (howner : m.before.owner = none ↔ n = 0)
    (hfits : m.tally n < UInt32.size) :
    m.after.depth.toNat = m.tally n ∧ (m.after.owner = none ↔ m.tally n = 0) := by
  unfold tally at *
  generalize m.grants = granted at *
  generalize m.surrenders = given at *
  cases h with
  | passes changed depth =>
    rw [if_neg changed, depth]
    split <;> simp [*]
  | deepens owned same depth =>
    simp only [same, if_true] at hfits ⊢
    rw [depth, UInt32.toNat_add, hdepth, UInt32.toNat_one, Nat.mod_eq_of_lt hfits]
    simp [owned]
  | lowers owned same several depth =>
    have hpos : 0 < n := Nat.pos_of_ne_zero fun h => owned (howner.mpr h)
    have hle : (1 : UInt32) ≤ m.before.depth := by
      rw [UInt32.le_iff_toNat_le, hdepth]
      exact hpos
    have hless : (m.before.depth - 1).toNat = n - 1 := by
      rw [UInt32.toNat_sub_of_le _ _ hle, hdepth, UInt32.toNat_one]
    have hstill : n - 1 ≠ 0 := by
      intro h
      exact several (UInt32.toNat_inj.mp (by rw [hless, h]; rfl))
    simp only [same, if_true, if_false, Bool.false_eq_true]
    rw [depth]
    exact ⟨hless, by simp [owned, hstill]⟩
  | keeps same depth =>
    simp only [same, if_true, if_false, Bool.false_eq_true]
    refine ⟨?_, howner⟩
    rcases depth with heq | ⟨hidle, hzero⟩
    · rw [heq, hdepth]
    · rw [hzero, howner.mp hidle]
      rfl

/-- **The depth is the count**, as long as the count fits into a word. -/
theorem Run.Reached.depth_eq {r : Run σ} (h : r.Reached) (hfits : r.Fits) :
    r.arbiter.depth.toNat = outstanding r.past ∧
      (r.arbiter.owner = none ↔ outstanding r.past = 0) := by
  induction h with
  | start preemption => exact ⟨rfl, by simp [Run.start, idle, outstanding]⟩
  | @after r m others h next ih =>
    have hbefore := ih fun past hp => hfits past (hp.trans (List.prefix_append _ _))
    have hafter := hfits _ (List.prefix_refl _)
    have hpast : (r.after m others).past = r.past ++ [m] := rfl
    rw [hpast, outstanding_append_singleton] at hafter ⊢
    rw [← next.before_eq] at hbefore
    have deed := h.sound.deed next
    rw [← next.before_eq] at deed
    exact m.tally_eq deed.shift hbefore.1 hbefore.2 hafter

/-! ## Mutual exclusion -/

/-- **Mutual exclusion.** Whatever is called from wherever, and whatever is answered: as long as no
owner has more outstanding acquisitions than a word can count, a positive depth and an owner come
and go together, and the owner has a sink and a place in the chain, with a priority value of its
own. A run stops after any move, so this holds whenever an operation is over and whenever a sink has
been notified. -/
theorem owned_iff_depth_pos (preemption : Bool) (moves : List (Move σ))
    (hfits : (Run.play preemption moves).Fits) :
    (0 < (Run.play preemption moves).arbiter.depth ↔
        (Run.play preemption moves).arbiter.owner.isSome) ∧
      ∀ p, (Run.play preemption moves).arbiter.owner = some p →
        ((Run.play preemption moves).arbiter.sink? p).isSome ∧
        p ∈ (Run.play preemption moves).arbiter.registry.chain ∧
        ∃ v, (Run.play preemption moves).arbiter.registry.priority? p = some v ∧
          (Run.play preemption moves).arbiter.registry.rank p = v := by
  have reached := Run.reached_play preemption moves
  generalize Run.play preemption moves = r at *
  obtain ⟨hdepth, howner⟩ := reached.depth_eq hfits
  refine ⟨?_, fun p hp => ?_⟩
  · rw [UInt32.lt_iff_toNat_lt, hdepth, Option.isSome_iff_ne_none, ne_eq, howner]
    exact Nat.pos_iff_ne_zero
  · have hsink := reached.sound.owner p hp
    have hlinked := (reached.sound.registry.linked_iff p).mpr ⟨.arbitration, hsink⟩
    obtain ⟨v, hv⟩ := Option.isSome_iff_exists.mp hlinked
    exact ⟨hsink, (reached.sound.registry.mem_chain_iff p).mpr hlinked, v, hv,
      by rw [Registry.rank, hv]; rfl⟩

/-- The owner, told to make room, gives the transceiver up, and the protocol that wants it takes it
as soon as it is offered. The operation that wanted it for that protocol then adds a level. -/
def takenMeanwhile : List (Move Unit) :=
  [.call (.register .arbitration .ant 3 ()), .answer .success,
    .call (.register .arbitration .ble 1 ()), .answer .success,
    .call (.acquire .ant false), .answer .success,
    .call (.acquire .ble false), .call (.release .ant), .answer .success,
    .call (.acquire .ble false), .answer .success, .answer .success, .answer .success]

theorem owned_iff_depth_pos_takenMeanwhile :
    (Run.play true takenMeanwhile).Fits ∧ (Run.play true takenMeanwhile).arbiter.depth = 2 ∧
      (Run.play true takenMeanwhile).arbiter.owner.isSome ∧
      Protocol.ble ∈ (Run.play true takenMeanwhile).arbiter.registry.chain := by
  have hfits : (Run.play true takenMeanwhile).Fits := Run.fits_play true (by decide)
  have hdepth : (Run.play true takenMeanwhile).arbiter.depth = 2 := by rfl
  obtain ⟨hiff, hpresent⟩ := owned_iff_depth_pos true takenMeanwhile hfits
  exact ⟨hfits, hdepth, hiff.mp (by rw [hdepth]; decide), (hpresent .ble rfl).2.1⟩

end SharedRadio.Arbiter
