import SharedRadio.Proofs.Arbiter.Displacement

/-!
# How an acquisition ends the ownership of another protocol

An acquisition that takes the transceiver from its owner has told that owner to make room, and takes
it as soon as the owner has answered. It goes by the protocol, not by the ownership. An owner that
gives the transceiver up while it is told, and takes it again before it answers, is the protocol
that was told; the ownership that it obtained anew is ended without a word.

`Reached.exists_notice` goes back from the takeover to the moment at which the owner was told:
nothing that the operation does lies in between. `Reached.active_since_iff` looks at what others do
in between. The owner at both ends is the same, so it was told that it is active again if and only
if it was not the owner all the time.
-/

namespace SharedRadio.Arbiter

variable {σ : Type}

/-- At a moment an acquisition for one protocol takes the transceiver from another one. -/
structure Moment.Ousts (m : Moment σ) (p q : Protocol) : Prop where
  call : ∃ force, m.call = .acquire p force
  other : q ≠ p
  before : m.before.owner = some q
  after : m.after.owner = some p

/-- An operation has told a protocol to make room within its present ownership: since then the
protocol was not told that it is active. -/
def Warned (k : Nat) (q : Protocol) (past : List (Moment σ)) : Prop :=
  ∃ earlier w since, past = earlier ++ w :: since ∧ w.number = k ∧ w.Tells q .arbitration .abort ∧
    ∀ m ∈ since, ¬ m.Tells q .arbitration .active

/-- An owner from which the transceiver is taken has just answered that it was told to make room. -/
theorem Deed.displaced_of_ousted {a : Arbiter σ} {p q : Protocol} {force : Bool} {k : Cue σ}
    {l : Leg σ} (h : Deed a (.acquire p force) k l) (hbefore : a.owner = some q) (hother : q ≠ p)
    (hafter : l.arbiter.owner = some p) (present : (a.sink? q).isSome) :
    k.displaced? = some q := by
  have hne : a.owner ≠ some p := by simpa [hbefore] using hother
  cases h with
  | seizes _ _ former =>
    rcases former q hbefore with htold | ⟨habsent, -⟩
    · exact htold
    · simp [habsent] at present
  | offers walks => exact walks.elim
  | nests | warns | refuses | ends => exact absurd hafter hne

namespace Run

variable {r : Run σ} {older since newer : List (Moment σ)} {m w : Moment σ} {p q : Protocol}
  {others : List (Pending σ)}

/-! ## From the takeover back to the notification -/

/-- The last thing that an acquisition has done before it takes the transceiver from an owner is to
tell that owner to make room. -/
theorem Reached.exists_notice (h : r.Reached) (next : r.Next m others) (hm : m.Ousts p q) :
    ∃ earlier w since, r.past = earlier ++ w :: since ∧ w.number = m.number ∧
      w.Tells q .arbitration .abort ∧ ∀ m' ∈ since, m'.number ≠ m.number := by
  obtain ⟨⟨force, hcall⟩, hother, hbefore, hafter⟩ := hm
  have deed := h.sound.deed next
  rw [hcall] at deed
  rw [next.before_eq] at hbefore
  have htold : m.cue.displaced? = some q :=
    deed.displaced_of_ousted hbefore hother hafter (h.sound.owner q hbefore)
  cases next with
  | begins c => simp [Cue.displaced?] at htold
  | @resumes f others waits b =>
    obtain ⟨earlier, w, since, n, hpast, hnumber, -, hl, hsince⟩ :=
      h.exists_asked (f := f) (by simp [waits])
    refine ⟨earlier, w, since, hpast, hnumber, ?_, hsince⟩
    -- The way in which the operation waits says whom it has told.
    have hw : ∃ p' sink faulted, f.waiting = .displacing p' sink q faulted := by
      cases hf : f.waiting with
      | displacing p' sink told faulted =>
        obtain rfl : told = q := by simpa [Cue.displaced?, hf] using htold
        exact ⟨p', sink, faulted, rfl⟩
      | _ => simp [Cue.displaced?, hf] at htold
    obtain ⟨p', sink, faulted, hw⟩ := hw
    rw [hw] at hl
    exact ((h.deed (m := w) (by simp [hpast])).of_displacing hl).2.1

/-! ## What others do in between -/

/-- A protocol that owns the transceiver at both ends of a stretch was told in its course that it is
active, if and only if it was not the owner all the time. -/
theorem Reached.active_since_iff (h : r.Reached) (hpast : r.past = older ++ w :: since)
    (hfirst : w.after.owner = some q) (hlast : r.arbiter.owner = some q) :
    (∃ m ∈ since, m.Tells q .arbitration .active) ↔ ∃ m ∈ since, m.after.owner ≠ some q := by
  induction since using List.reverseRecOn generalizing r with
  | nil => simp
  | append_singleton since m ih =>
    have hsplit : r.past = (older ++ w :: since) ++ m :: [] := by simp [hpast]
    obtain ⟨r', others, h', hpast', next⟩ := h.moment hsplit
    have hactive := (h'.sound.deed next).tells_active_iff (p := q)
    have hafter : m.after.owner = some q := by
      rw [← hlast, ← h.ownerAfter_past, hpast, ← List.cons_append, ← List.append_assoc,
        ownerAfter_append_singleton]
    by_cases hbefore : r'.arbiter.owner = some q
    · have hquiet : ¬ m.Tells q .arbitration .active := fun ht => (hactive.mp ht).1 hbefore
      simpa [or_and_right, exists_or, hquiet, hafter] using ih h' hpast' hbefore
    · refine iff_of_true ⟨m, by simp, hactive.mpr ⟨hbefore, hafter⟩⟩ ?_
      by_contra hkept
      push Not at hkept
      refine hbefore ?_
      rw [← h'.ownerAfter_past, hpast']
      refine ownerAfter_of_forall fun m' hm' => ?_
      rcases List.mem_cons.mp hm' with rfl | hm'
      · exact hfirst
      · exact hkept m' (List.mem_append_left _ hm')

/-- Whether an operation has told a protocol within its present ownership depends on the last time
only that it told it anything. -/
theorem warned_iff {k : Nat} (hnumber : w.number = k) (htold : w.Tells q .arbitration .abort)
    (hsince : ∀ m ∈ since, m.number ≠ k) :
    Warned k q (older ++ w :: since) ↔ ¬ ∃ m ∈ since, m.Tells q .arbitration .active := by
  constructor
  · rintro ⟨older', w', since', hpast', hnumber', -, hquiet⟩ ⟨m, hm, hactive⟩
    -- The moment at which it was told cannot lie behind the last moment of the operation.
    rcases List.append_eq_append_iff.mp hpast' with
      ⟨l, hl, hrest⟩ | ⟨l, hl, hrest⟩
    · cases l with
      | nil =>
        obtain ⟨-, rfl⟩ := List.cons.inj (hrest.trans (List.nil_append _))
        exact hquiet m hm hactive
      | cons x l =>
        obtain ⟨-, hrest⟩ := List.cons.inj hrest
        exact hsince w' (by simp [hrest]) hnumber'
    · cases l with
      | nil =>
        obtain ⟨-, rfl⟩ := List.cons.inj (hrest.trans (List.nil_append _))
        exact hquiet m hm hactive
      | cons x l =>
        obtain ⟨-, rfl⟩ := List.cons.inj hrest
        exact hquiet m (by simp [hm]) hactive
  · intro hquiet
    exact ⟨older, w, since, rfl, hnumber, htold, fun m hm hactive => hquiet ⟨m, hm, hactive⟩⟩

/-! ## The end of an ownership -/

/-- What came before a moment at which an acquisition takes the transceiver from an owner. -/
structure Notice (older : List (Moment σ)) (m : Moment σ) (q : Protocol) (earlier : List (Moment σ))
    (w : Moment σ) (since : List (Moment σ)) : Prop where
  split : older = earlier ++ w :: since
  /-- The operation has told the owner to make room, -/
  number : w.number = m.number
  told : w.Tells q .arbitration .abort
  owner : w.after.owner = some q
  /-- and has done nothing since then. -/
  last : ∀ m' ∈ since, m'.number ≠ m.number
  /-- It has not told the owner so within its present ownership if and only if the owner was told
  that it is active since then. -/
  silent_iff : ¬ Warned m.number q older ↔ ∃ m' ∈ since, m'.Tells q .arbitration .active
  /-- This is so if and only if the owner gave the transceiver up, or lost it, since then. -/
  anew_iff : (∃ m' ∈ since, m'.Tells q .arbitration .active) ↔
    ∃ m' ∈ since, m'.after.owner ≠ some q

/-- **An ownership is ended without a word if and only if it was obtained anew while the same
protocol was told.** Every owner from which an acquisition takes the transceiver was told to make
room by it, and answered just now. It was told so in the course of an earlier ownership if it was
not the owner all the time since then, and in the course of the ownership that is ended otherwise.
-/
theorem exists_notice_of_ousts (preemption : Bool) (moves : List (Move σ))
    (hpast : (play preemption moves).past = older ++ m :: newer) (hm : m.Ousts p q) :
    ∃ earlier w since, Notice older m q earlier w since := by
  obtain ⟨r, others, h, rfl, next⟩ := (reached_play preemption moves).moment hpast
  obtain ⟨earlier, w, since, hsplit, hnumber, htold, hlast⟩ := h.exists_notice next hm
  have howner : w.after.owner = some q :=
    ((h.deed (m := w) (by simp [hsplit])).owner_of_abort htold).2
  exact ⟨earlier, w, since, hsplit, hnumber, htold, howner, hlast,
    by rw [hsplit, warned_iff hnumber htold hlast, not_not],
    h.active_since_iff hsplit howner (next.before_eq ▸ hm.before)⟩

end Run

/-- The owner, told to make room, gives the transceiver up, takes it again, and answers. -/
def reacquired : List (Move Unit) :=
  [.call (.register .arbitration .ant 3 ()), .answer .success,
    .call (.register .arbitration .ble 1 ()), .answer .success,
    .call (.acquire .ant false), .answer .success,
    .call (.acquire .ble false), .call (.release .ant), .answer .success, .answer .success,
    .call (.acquire .ant false), .answer .success, .answer .success, .answer .success]

/-- The transceiver is taken from it, and it is not told. -/
theorem exists_notice_of_ousts_reacquired :
    ∃ older m newer, (Run.play true reacquired).past = older ++ m :: newer ∧ m.Ousts .ble .ant ∧
      ¬ Warned m.number .ant older ∧
      ∃ earlier w since, Run.Notice older m .ant earlier w since := by
  have hpast : (Run.play true reacquired).past =
      (Run.play true reacquired).past.take 12 ++
        (Run.play true reacquired).past[12] :: (Run.play true reacquired).past.drop 13 := by
    rfl
  have housts : (Run.play true reacquired).past[12].Ousts .ble .ant :=
    ⟨⟨false, rfl⟩, by decide, rfl, rfl⟩
  refine ⟨_, _, _, hpast, housts, ?_, Run.exists_notice_of_ousts true reacquired hpast housts⟩
  -- It was told to make room at the seventh moment, and that it is active at the eleventh.
  have hsplit : (Run.play true reacquired).past.take 12 =
      (Run.play true reacquired).past.take 6 ++ (Run.play true reacquired).past[6] ::
        ((Run.play true reacquired).past.take 12).drop 7 := by
    rfl
  rw [hsplit, Run.warned_iff (by rfl) (by rfl) (by decide), not_not]
  decide

end SharedRadio.Arbiter
