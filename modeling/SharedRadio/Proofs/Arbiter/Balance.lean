import SharedRadio.Proofs.Arbiter.Delivery
import SharedRadio.Proofs.Arbiter.Ownership

/-!
# The balance of acquisitions and releases

An ownership lasts from the moment at which a protocol becomes the owner to the one at which it is
the owner no longer. Its levels are the one that it began with, the acquisitions that were granted
to its protocol since, less the releases that were accepted since. The arbiter does not keep these
counts. It keeps a depth, which a leg changes by one at a time, and `Tenure.depth_eq` shows by
induction on the run that the depth is the number of levels, as long as that number fits into a
word.

How an ownership ends is read off the cases of `Deed`. A leg that neither grants an acquisition nor
accepts a release, and that does not belong to an abortion, leaves the owner and the depth alone
(`Deed.unchanged`). So only the three of them can end an ownership, and an accepted release ends it
if and only if it gives up the last level.
-/

namespace SharedRadio.Arbiter

variable {σ : Type}

/-! ## Levels -/

/-- The protocol for which an operation takes the transceiver. -/
def Call.taker? : Call σ → Option Protocol
  | .acquire p _ => some p
  | _ => none

/-- The protocol for which an operation gives the transceiver up. -/
def Call.giver? : Call σ → Option Protocol
  | .release p => some p
  | _ => none

namespace Moment

/-- An acquisition for a protocol is granted at a moment. -/
def grantsTo (m : Moment σ) (p : Protocol) : Bool := m.call.taker? = some p && m.grants

/-- A release for a protocol that is the owner is accepted at a moment. -/
def surrendersOf (m : Moment σ) (p : Protocol) : Bool := m.call.giver? = some p && m.surrenders

end Moment

/-- The levels that a protocol holds after some moments of its ownership: the one that it began
with, and what was granted and given up since. -/
def levels (p : Protocol) (within : List (Moment σ)) : Int :=
  1 + (within.countP (·.grantsTo p) : Int) - (within.countP (·.surrendersOf p) : Int)

/-- A protocol became the owner in the course of a history, and has remained so for some moments,
with which the history ends. -/
def Tenure (p : Protocol) (past within : List (Moment σ)) : Prop :=
  ∃ older first, past = older ++ first :: within ∧ first.before.owner ≠ some p ∧
    ∀ m ∈ first :: within, m.after.owner = some p

@[simp] theorem levels_nil (p : Protocol) : levels p ([] : List (Moment σ)) = 1 := rfl

theorem levels_append_singleton (p : Protocol) (within : List (Moment σ)) (m : Moment σ) :
    levels p (within ++ [m]) =
      levels p within + (if m.grantsTo p then 1 else 0) - (if m.surrendersOf p then 1 else 0) := by
  simp only [levels, List.countP_append, List.countP_singleton]
  split <;> split <;> push_cast <;> omega

/-- A moment grants at most one level. -/
theorem levels_le (p : Protocol) (within : List (Moment σ)) :
    levels p within ≤ within.length + 1 := by
  have hle : within.countP (·.grantsTo p) ≤ within.length := List.countP_le_length
  unfold levels
  omega

/-! ## What a leg says about levels -/

namespace Deed

variable {a : Arbiter σ} {c : Call σ} {k : Cue σ} {l : Leg σ}

/-- Whoever is granted an acquisition is the owner then. -/
theorem owner_of_grants (h : Deed a c k l) (hg : grants c k l.progress = true) :
    ∃ p, c.taker? = some p ∧ l.arbiter.owner = some p := by
  cases h with
  | @seizes p => exact ⟨p, rfl, rfl⟩
  | @nests p _ _ _ _ _ _ owner => exact ⟨p, rfl, owner⟩
  | warns bids =>
    rw [grants_of_bids bids] at hg
    cases hg
  | refuses bid grounds =>
    rcases bid with ⟨p, force, rfl⟩ | ⟨p, rfl⟩
    · rcases grounds with rfl | rfl <;> cases hg
    · cases hg
  | @ends c k result records acquired =>
    cases c with
    | acquire p force =>
      obtain ⟨f, b, rfl⟩ := acquired p force rfl
      cases hg
    | _ => cases hg
  | @offers c k _ _ _ _ _ walks =>
    cases c with
    | acquire => exact walks.elim
    | _ => cases hg
  | _ => cases hg

/-- A release that is accepted ends the ownership if it gives up the last level, and lowers the
depth otherwise. -/
theorem of_surrenders (h : Deed a c k l) (hs : surrenders a.owner c k l.progress = true) :
    ∃ p, c.giver? = some p ∧ a.owner = some p ∧
      (a.depth - 1 = 0 ∧ l.arbiter.owner = none ∨
        a.depth - 1 ≠ 0 ∧ l.arbiter.owner = some p ∧ l.arbiter.depth = a.depth - 1) := by
  cases h with
  | @yields p _ _ owner last => exact ⟨p, rfl, owner, .inl ⟨last, rfl⟩⟩
  | @lowers p _ owner several => exact ⟨p, rfl, owner, .inr ⟨several, owner, rfl⟩⟩
  | refuses bid =>
    rcases bid with ⟨p, force, rfl⟩ | ⟨p, rfl⟩
    · cases hs
    · simp [surrenders, Progress.isError] at hs
  | @offers c k _ _ _ _ _ _ idle =>
    cases c with
    | release p => cases k <;> simp [surrenders, idle] at hs
    | _ => cases hs
  | @ends c k _ _ _ released =>
    cases c with
    | release p =>
      cases k with
      | none => simp [surrenders, released p rfl rfl] at hs
      | some => cases hs
    | _ => cases hs
  | _ => cases hs

/-- A leg that neither grants an acquisition nor accepts a release leaves owner and depth alone,
unless it ends all ownership. -/
theorem unchanged (h : Deed a c k l) (hg : grants c k l.progress = false)
    (hs : surrenders a.owner c k l.progress = false) (hc : c = .abort → l.arbiter.owner ≠ none) :
    l.arbiter.owner = a.owner ∧ l.arbiter.depth = a.depth := by
  cases h with
  | seizes bids =>
    rw [grants_of_bids bids] at hg
    cases hg
  | nests bids =>
    rw [grants_of_bids bids, isGrant_verdict] at hg
    cases hg
  | yields owner => simp [surrenders, owner, Progress.isError] at hs
  | lowers owner => simp [surrenders, owner, Progress.isError] at hs
  | vacates => exact absurd rfl (hc rfl)
  | _ => exact ⟨rfl, rfl⟩

end Deed

namespace Moment

variable {m : Moment σ} {p : Protocol}

/-- In the course of an ownership, an acquisition is granted to the owner or to nobody. -/
theorem grants_eq (deed : Deed m.before m.call m.cue m.leg) (hafter : m.after.owner = some p) :
    m.grants = m.grantsTo p := by
  cases hg : m.grants with
  | false => simp [grantsTo, hg]
  | true =>
    obtain ⟨q, hc, hq⟩ := deed.owner_of_grants hg
    obtain rfl : q = p := Option.some.inj (hq.symm.trans hafter)
    simp [grantsTo, hg, hc]

/-- In the course of an ownership, a release is accepted of the owner or of nobody. -/
theorem surrenders_eq (deed : Deed m.before m.call m.cue m.leg)
    (hbefore : m.before.owner = some p) : m.surrenders = m.surrendersOf p := by
  cases hs : m.surrenders with
  | false => simp [surrendersOf, hs]
  | true =>
    obtain ⟨q, hc, hq, -⟩ := deed.of_surrenders hs
    obtain rfl : q = p := Option.some.inj (hq.symm.trans hbefore)
    simp [surrendersOf, hs, hc]

/-- No moment both grants an acquisition and accepts a release. -/
theorem surrendersOf_of_grantsTo (h : m.grantsTo p = true) : m.surrendersOf p = false := by
  cases hc : m.call <;> simp_all [grantsTo, surrendersOf, Call.taker?, Call.giver?]

/-- A moment within an ownership moves the depth as it moves the levels, if these fit into a word.
-/
theorem depth_eq_of_kept (deed : Deed m.before m.call m.cue m.leg)
    (hbefore : m.before.owner = some p) (hafter : m.after.owner = some p) {n n' : Int}
    (hdepth : (m.before.depth.toNat : Int) = n) (hpos : 1 ≤ n)
    (hn : n' = n + (if m.grantsTo p then 1 else 0) - (if m.surrendersOf p then 1 else 0))
    (hfits : n' < UInt32.size) : (m.after.depth.toNat : Int) = n' ∧ 1 ≤ n' := by
  have hshift : Shift m.before m.after (m.grantsTo p) (m.surrendersOf p) := by
    rw [← grants_eq deed hafter, ← surrenders_eq deed hbefore]
    exact deed.shift
  have hsize : UInt32.size = 4294967296 := rfl
  have hexcl := surrendersOf_of_grantsTo (m := m) (p := p)
  generalize m.grantsTo p = granted at *
  generalize m.surrendersOf p = given at *
  cases hshift with
  | passes changed => exact absurd (hafter.trans hbefore.symm) changed
  | deepens owned same depth =>
    rw [hexcl rfl] at hn
    simp only [if_true, if_false, Bool.false_eq_true] at hn
    have hmore : m.after.depth.toNat = m.before.depth.toNat + 1 := by
      rw [depth, UInt32.toNat_add, UInt32.toNat_one, Nat.mod_eq_of_lt (by omega)]
    omega
  | lowers owned same several depth =>
    simp only [if_true, if_false, Bool.false_eq_true] at hn
    have hle : (1 : UInt32) ≤ m.before.depth := by
      rw [UInt32.le_iff_toNat_le, UInt32.toNat_one]
      omega
    have hless : (m.before.depth - 1).toNat = m.before.depth.toNat - 1 := by
      rw [UInt32.toNat_sub_of_le _ _ hle, UInt32.toNat_one]
    have hleft : (m.before.depth - 1).toNat ≠ 0 := fun hzero =>
      several (UInt32.toNat_inj.mp hzero)
    rw [depth]
    omega
  | keeps same depth =>
    simp only [if_false, Bool.false_eq_true] at hn
    rcases depth with heq | ⟨hidle, -⟩
    · rw [heq]
      omega
    · cases hidle.symm.trans hbefore

end Moment

/-! ## The depth counts the levels -/

section

variable {r : Run σ} {m : Moment σ} {others : List (Pending σ)} {p : Protocol}
  {within : List (Moment σ)}

/-- In the course of its ownership, a protocol is the owner. -/
theorem Tenure.owner (ht : Tenure p r.past within) (h : r.Reached) : r.arbiter.owner = some p := by
  obtain ⟨older, first, hpast, -, howned⟩ := ht
  rw [← h.ownerAfter_past, hpast]
  exact ownerAfter_of_forall howned

/-- An ownership has just begun, or it was going on before the last moment. -/
theorem Tenure.last_cases {past : List (Moment σ)} (ht : Tenure p (past ++ [m]) within) :
    within = [] ∧ m.before.owner ≠ some p ∧ m.after.owner = some p ∨
      ∃ within', within = within' ++ [m] ∧ Tenure p past within' ∧ m.after.owner = some p := by
  obtain ⟨older, first, hpast, hnew, howned⟩ := ht
  rcases List.eq_nil_or_concat within with rfl | ⟨within', last, rfl⟩
  · obtain ⟨-, hm⟩ := List.append_inj' hpast rfl
    obtain rfl : m = first := by simpa using hm
    exact .inl ⟨rfl, hnew, howned m (by simp)⟩
  · rw [List.concat_eq_append] at *
    have hsplit : past ++ [m] = (older ++ first :: within') ++ [last] := by simpa using hpast
    obtain ⟨hpast', hm⟩ := List.append_inj' hsplit rfl
    obtain rfl : m = last := by simpa using hm
    refine .inr ⟨within', rfl, ⟨older, first, hpast', hnew, fun m' hm' => howned m' ?_⟩,
      howned m (by simp)⟩
    simp only [List.mem_cons, List.mem_append] at hm' ⊢
    tauto

/-- **The depth is the number of levels**, as long as that number fits into a word. -/
theorem Tenure.depth_eq (ht : Tenure p r.past within) (h : r.Reached)
    (hfits : ∀ part, part <+: within → levels p part < UInt32.size) :
    (r.arbiter.depth.toNat : Int) = levels p within ∧ 1 ≤ levels p within := by
  induction h generalizing within with
  | start =>
    obtain ⟨older, first, hpast, -⟩ := ht
    simp [Run.start] at hpast
  | @after r m others h next ih =>
    have deed := h.sound.deed next
    rcases ht.last_cases with ⟨rfl, hnew, hafter⟩ | ⟨within', rfl, hwithin', hafter⟩
    · have hactive : m.Tells p .arbitration .active :=
        deed.tells_active_iff.mpr ⟨next.before_eq ▸ hnew, hafter⟩
      have hone : (r.after m others).arbiter.depth = 1 := deed.depth_of_active hactive
      simp [hone]
    · obtain ⟨hdepth, hpos⟩ :=
        ih hwithin' fun part hpart => hfits part (hpart.trans (List.prefix_append _ _))
      have hbefore := hwithin'.owner h
      rw [← next.before_eq] at deed hdepth hbefore
      exact m.depth_eq_of_kept deed hbefore hafter hdepth hpos (levels_append_singleton p within' m)
        (hfits _ List.prefix_rfl)

/-! ## How an ownership ends -/

/-- A release that is accepted ends the ownership if it leaves no level, and not before. -/
theorem Tenure.release_iff (ht : Tenure p r.past within) (h : r.Reached)
    (hfits : ∀ part, part <+: within → levels p part < UInt32.size) (next : r.Next m others)
    (hm : m.surrendersOf p = true) : m.after.owner ≠ some p ↔ levels p within - 1 = 0 := by
  obtain ⟨hdepth, hpos⟩ := ht.depth_eq h hfits
  have hlevel : r.arbiter.depth - 1 = 0 ↔ levels p within - 1 = 0 := by
    have hle : (1 : UInt32) ≤ r.arbiter.depth := by
      rw [UInt32.le_iff_toNat_le, UInt32.toNat_one]
      omega
    rw [← UInt32.toNat_inj, UInt32.toNat_sub_of_le _ _ hle, UInt32.toNat_one, UInt32.toNat_zero]
    omega
  have hgiven : m.surrenders = true := by simp_all [Moment.surrendersOf]
  have deed := h.sound.deed next
  rw [← next.before_eq] at deed hlevel
  obtain ⟨q, -, howner, hlast | ⟨hseveral, hkept, -⟩⟩ := deed.of_surrenders hgiven
  · refine iff_of_true ?_ (hlevel.mp hlast.1)
    simp [Moment.after, hlast.2]
  · obtain rfl : q = p := Option.some.inj (howner.symm.trans (next.before_eq ▸ ht.owner h))
    exact iff_of_false (not_not_intro hkept) fun hzero => hseveral (hlevel.mpr hzero)

/-- What else can end an ownership. -/
theorem Tenure.ends_cases (ht : Tenure p r.past within) (h : r.Reached) (next : r.Next m others)
    (hend : m.after.owner ≠ some p) :
    m.surrendersOf p = true ∨ m.call = .abort ∨ ∃ q, q ≠ p ∧ m.grantsTo q = true := by
  have deed := h.sound.deed next
  have howner := ht.owner h
  rw [← next.before_eq] at deed howner
  cases hg : m.grants with
  | true =>
    obtain ⟨q, hc, hq⟩ := deed.owner_of_grants hg
    refine .inr (.inr ⟨q, fun hqp => hend (hqp ▸ hq), ?_⟩)
    rw [← m.grants_eq deed hq, hg]
  | false =>
    cases hs : m.surrenders with
    | true => exact .inl ((m.surrenders_eq deed howner).symm.trans hs)
    | false =>
      by_contra hother
      push Not at hother
      exact hend ((deed.unchanged hg hs fun hc => absurd hc hother.2.1).1.trans howner)

/-- An ownership that is going on, and the ways in which it can end. -/
structure InBalance (r : Run σ) (p : Protocol) (within : List (Moment σ)) : Prop where
  /-- The depth is one, and the acquisitions granted since, less the releases accepted since. -/
  depth_eq : (r.arbiter.depth.toNat : Int) = levels p within
  /-- If a release is accepted next, it ends the ownership exactly if it leaves no level. -/
  release_iff : ∀ m others, r.Next m others → m.surrendersOf p = true →
    (m.after.owner ≠ some p ↔ levels p within - 1 = 0)
  /-- Otherwise only an abortion ends it, or an acquisition that is granted to another protocol. -/
  ends_cases : ∀ m others, r.Next m others → m.after.owner ≠ some p →
    m.surrendersOf p = true ∨ m.call = .abort ∨ ∃ q, q ≠ p ∧ m.grantsTo q = true

end

/-- **Acquisitions and releases balance.** At every time of an ownership the depth is the number of
its levels, as long as that number fits into a word, and a release ends the ownership exactly if it
gives up the last one. Whatever is not a granted acquisition, an accepted release or an abortion
changes neither the depth nor the owner: a registration, a walk along the chain, a change of
preemption, a refusal, or the notification of an owner that has to make room. -/
theorem inBalance_play (preemption : Bool) (moves : List (Move σ)) :
    (∀ p within, Tenure p (Run.play preemption moves).past within →
      (∀ part, part <+: within → levels p part < UInt32.size) →
        InBalance (Run.play preemption moves) p within) ∧
      ∀ m ∈ (Run.play preemption moves).past, m.grants = false → m.surrenders = false →
        m.call ≠ .abort →
          m.after.depth = m.before.depth ∧ m.after.owner = m.before.owner := by
  have h := Run.reached_play preemption moves
  refine ⟨fun p within ht hfits => ?_, fun m hm hg hs hc => ?_⟩
  · exact ⟨(ht.depth_eq h hfits).1, fun _ _ next => ht.release_iff h hfits next,
      fun _ _ next => ht.ends_cases h next⟩
  · exact ((h.deed hm).unchanged hg hs (absurd · hc)).symm

/-- A protocol that took the transceiver while an acquisition made room for it holds two levels when
that acquisition is granted. -/
theorem inBalance_play_takenMeanwhile :
    Tenure .ble (Run.play true takenMeanwhile).past
        ((Run.play true takenMeanwhile).past.drop 10) ∧
      levels .ble ((Run.play true takenMeanwhile).past.drop 10) = 2 ∧
      InBalance (Run.play true takenMeanwhile) .ble
        ((Run.play true takenMeanwhile).past.drop 10) := by
  have htenure : Tenure .ble (Run.play true takenMeanwhile).past
      ((Run.play true takenMeanwhile).past.drop 10) :=
    ⟨(Run.play true takenMeanwhile).past.take 9, (Run.play true takenMeanwhile).past[9], rfl,
      by decide, by decide⟩
  refine ⟨htenure, by decide, (inBalance_play true takenMeanwhile).1 _ _ htenure ?_⟩
  intro part hpart
  have hlength : part.length ≤ 3 := hpart.length_le
  have hle := levels_le .ble part
  have hsize : UInt32.size = 4294967296 := rfl
  omega

end SharedRadio.Arbiter
