import SharedRadio.Proofs.Arbiter.Takeover
import SharedRadio.Proofs.Arbiter.Tour

/-!
# What the operations that wait can still do

An operation that waits will have one more leg when its notification has been answered, and if that
leg notifies somebody in turn, more legs after it. `Pending.effort` counts the legs that an
operation can still have. A walk has one for every protocol that it has not told, and one at its
end. A takeover has two: the new owner is told, and answers.

Every leg makes the effort of its operation less, except one. When another protocol has become the
owner while a takeover waited, there is one more round, and the effort is the same as before. That
takes another operation, so it is not possible if the sink that was told to make room answers
without calling anything: the protocol that was told is the owner at that time
(`owner_eq_of_displacing`).
-/

namespace SharedRadio.Arbiter

variable {σ : Type}

/-- The protocol that an operation has told to make room, if it waits for that. -/
def Waiting.displaced? : Waiting σ → Option Protocol
  | .displacing _ _ told _ => some told
  | _ => none

theorem Waiting.exists_of_displaced? {w : Waiting σ} {told : Protocol}
    (h : w.displaced? = some told) :
    ∃ p sink faulted, w = .displacing p sink told faulted := by
  cases w with
  | displacing => cases h; exact ⟨_, _, _, rfl⟩
  | _ => cases h

@[simp] theorem Cue.displaced?_some (w : Waiting σ) (b : Answer) :
    Cue.displaced? (some (w, b)) = w.displaced? := by
  cases w <;> rfl

/-- The number of legs that an operation can still have, as long as no other protocol becomes the
owner while it displaces one. -/
def Pending.effort (past : List (Moment σ)) (f : Pending σ) : Nat :=
  match f.call.errand? with
  | some e => 1 + (Protocol.count - (notified f.number e.slot e.event past).length)
  | none => if f.waiting.displaced?.isSome then 2 else 1

namespace Pending

variable {past : List (Moment σ)} {f : Pending σ} {m : Moment σ}

theorem effort_of_errand {e : Errand} (he : f.call.errand? = some e) :
    f.effort past =
      1 + (Protocol.count - (notified f.number e.slot e.event past).length) := by
  simp only [effort, he]

theorem effort_pos (f : Pending σ) (past : List (Moment σ)) : 0 < f.effort past := by
  unfold effort
  split
  · omega
  · split <;> omega

theorem effort_le : f.effort past ≤ Protocol.count + 1 := by
  have hcount : 1 ≤ Protocol.count := by decide
  unfold effort
  split
  · omega
  · split <;> omega

/-- The legs of other operations take nothing from it. -/
theorem effort_append_of_ne (hne : f.number ≠ m.number) :
    f.effort (past ++ [m]) = f.effort past := by
  unfold effort
  cases f.call.errand? with
  | none => rfl
  | some e => simp only [notified_append_of_ne hne.symm]

end Pending

/-! ## What a leg says about the next one -/

namespace Deed

variable {a : Arbiter σ} {c : Call σ} {w w' : Waiting σ} {b : Answer} {l : Leg σ}
  {n : Notification σ}

/-- A walk that goes on tells one more protocol of its event. -/
theorem tells_of_errand (h : Deed a c (some (w, b)) l) {e : Errand} (he : c.errand? = some e)
    (hl : l.progress = .notifies n w') : l.Tells n.protocol e.slot e.event := by
  cases h with
  | offers walks =>
    cases hl
    cases c with
    | offer | release => cases he; rfl
    | _ => cases walks
  | announces | asks => cases hl; cases he; rfl
  | seizes | warns => cases he
  | _ => cases hl

/-- Any other operation that goes on is a takeover. It tells the new owner, or another one to make
room. -/
theorem displaced?_of_errand?_eq_none (h : Deed a c (some (w, b)) l) (he : c.errand? = none)
    (hl : l.progress = .notifies n w') :
    ∃ told, w.displaced? = some told ∧ (w'.displaced? = none ∨
      ∃ q, w'.displaced? = some q ∧ a.owner = some q ∧ told ≠ q) := by
  cases h with
  | seizes bids =>
    cases hl
    obtain ⟨told, faulted, rfl⟩ := bids
    exact ⟨told, rfl, .inl rfl⟩
  | warns bids owner _ _ fresh =>
    cases hl
    obtain ⟨told, faulted, rfl⟩ := bids
    exact ⟨told, rfl, .inr ⟨_, rfl, owner, fun hsame => fresh (congrArg some hsame)⟩⟩
  | offers walks =>
    cases c with
    | offer | release => cases he
    | _ => cases walks
  | announces | asks => cases he
  | _ => cases hl

end Deed

namespace Run

variable {r : Run σ} {f : Pending σ} {others : List (Pending σ)} {b : Answer} {m : Moment σ}
  {n : Notification σ} {w : Waiting σ}

/-- A walk tells no more protocols than there are, the one included that it tells now. -/
theorem Reached.notified_lt_count (h : r.Reached) (next : r.Next m others) {e : Errand}
    (he : m.call.errand? = some e) {p : Protocol} (ht : m.Tells p e.slot e.event) :
    (notified m.number e.slot e.event r.past).length < Protocol.count := by
  have hbegun : Begun (r.after m others).past m.number m.call := h.numbered.begun_of_next next
  have hle := ((h.after next).tours hbegun he).length_le
  rw [Run.after, notified_append_of_tells rfl ht, List.length_append] at hle
  exact hle

/-- Another protocol than the one that was told to make room is the owner. -/
def Supplanted (r : Run σ) (w : Waiting σ) : Prop :=
  ∃ told q, w.displaced? = some told ∧ r.arbiter.owner = some q ∧ told ≠ q

/-- The protocol that has just been told to make room is the owner. -/
theorem Reached.not_supplanted (h : r.Reached) (hlast : r.past.getLast? = some m)
    (hl : m.leg.progress = .notifies n w) : ¬ r.Supplanted w := by
  rintro ⟨told, q, hw, howner, hne⟩
  obtain ⟨p, sink, faulted, rfl⟩ := Waiting.exists_of_displaced? hw
  cases h with
  | start => cases hlast
  | after h next =>
    rw [Run.after, List.getLast?_concat] at hlast
    cases hlast
    have deed := h.sound.deed next
    have htold := (deed.owner_of_abort (deed.of_displacing hl).2.1).2
    exact hne (Option.some.inj (htold.symm.trans howner))

/-- **A leg leaves less to do**, unless another protocol has become the owner that is to be
displaced. -/
theorem Reached.effort_lt (h : r.Reached) (waits : r.pending = f :: others)
    (hm : m = ⟨f.number, f.call, some (f.waiting, b), r.arbiter⟩)
    (hl : m.leg.progress = .notifies n w) :
    Pending.effort (r.past ++ [m]) ⟨f.number, f.call, w⟩ < f.effort r.past ∨
      Pending.effort (r.past ++ [m]) ⟨f.number, f.call, w⟩ = f.effort r.past ∧
        r.Supplanted f.waiting := by
  subst hm
  have next : r.Next ⟨f.number, f.call, some (f.waiting, b), r.arbiter⟩ others := .resumes waits b
  have deed := h.sound.deed next
  cases he : f.call.errand? with
  | some e =>
    have ht := deed.tells_of_errand he hl
    have hlt := h.notified_lt_count next he ht
    left
    rw [Pending.effort_of_errand he, Pending.effort_of_errand (f := ⟨f.number, f.call, w⟩) he,
      notified_append_of_tells rfl ht, List.length_append]
    dsimp only [List.length_singleton] at hlt ⊢
    omega
  | none =>
    obtain ⟨told, hw, hnone | ⟨q, hagain, howner, hne⟩⟩ := deed.displaced?_of_errand?_eq_none he hl
    · left
      simp [Pending.effort, he, hw, hnone]
    · right
      exact ⟨by simp [Pending.effort, he, hw, hagain], told, q, hw, howner, hne⟩

/-! ## All operations together -/

/-- The number of legs that the operations that wait can still have. -/
def effort (r : Run σ) : Nat := (r.pending.map (·.effort r.past)).sum

/-- Every operation that waits has a leg to come. -/
theorem length_pending_le (r : Run σ) : r.pending.length ≤ r.effort := by
  unfold effort
  induction r.pending with
  | nil => exact Nat.le_refl 0
  | cons f rest ih =>
    have hpos := f.effort_pos r.past
    simp only [List.length_cons, List.map_cons, List.sum_cons]
    omega

/-- The operations that wait beside the one of a leg have as many legs left as before. -/
theorem Reached.map_effort_others (h : r.Reached) (next : r.Next m others) :
    others.map (·.effort (r.past ++ [m])) = others.map (·.effort r.past) :=
  List.map_congr_left fun _ hf => Pending.effort_append_of_ne (h.numbered.lt_of_next next hf).ne

/-- An operation that begins has one leg at most for every protocol, and one at its end. -/
theorem Reached.effort_call_le (h : r.Reached) (c : Call σ) :
    (r.step (.call c)).effort ≤ r.effort + (Protocol.count + 1) := by
  have hothers := h.map_effort_others (.begins c)
  unfold effort Run.step Run.after
  dsimp only
  split
  · rw [hothers]
    omega
  · next n w hl =>
    rw [List.map_cons, List.sum_cons, hothers, Nat.add_comm]
    exact Nat.add_le_add_left Pending.effort_le _

theorem step_answer (waits : r.pending = f :: others) (b : Answer) :
    r.step (.answer b) = r.after ⟨f.number, f.call, some (f.waiting, b), r.arbiter⟩ others := by
  rw [step, waits]

/-- An answer leaves less to do, unless another protocol has become the owner that is to be
displaced. -/
theorem Reached.effort_answer_lt (h : r.Reached) (waits : r.pending = f :: others) (b : Answer) :
    (r.step (.answer b)).effort < r.effort ∨
      (r.step (.answer b)).effort = r.effort ∧ r.Supplanted f.waiting := by
  have hothers := h.map_effort_others (.resumes waits b)
  rw [step_answer waits]
  unfold effort Run.after
  rw [waits]
  dsimp only
  rw [List.map_cons, List.sum_cons]
  split
  · have hpos := f.effort_pos r.past
    rw [hothers]
    omega
  · next n w hl =>
    rw [List.map_cons, List.sum_cons, hothers]
    refine (h.effort_lt waits rfl hl).imp (fun hlt => ?_) fun ⟨heq, hsupplanted⟩ => ?_
    · exact Nat.add_lt_add_right hlt _
    · exact ⟨congrArg (· + _) heq, hsupplanted⟩

end Run

end SharedRadio.Arbiter
