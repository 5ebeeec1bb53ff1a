import SharedRadio.Proofs.Arbiter.Eviction

/-!
# Whose ownership an abort ends

An abort from outside tells the owner to stop, and ends every ownership when that owner has
answered. It does not look who the owner is by then. The owner that was told may give the
transceiver up before it answers; it is offered to the others then, and one of them may take it.
That one is not told to stop. It is told that it is active, and when the abort goes on it is not the
owner any more.

`Reached.exists_stop` goes back from the end of the abort to its beginning, and
`Reached.dispossession` says which owner was told and which was not: the ownership that is ended
without a word is one that began while the abort was waiting, whether it is another protocol's or
the same protocol's once more.
-/

namespace SharedRadio.Arbiter

variable {σ : Type}

/-- At a moment an abort ends the ownership of a protocol. -/
structure Moment.Dispossesses (m : Moment σ) (q : Protocol) : Prop where
  call : m.call = .abort
  before : m.before.owner = some q
  after : m.after.owner ≠ some q

namespace Deed

variable {a : Arbiter σ} {c : Call σ} {k : Cue σ} {l : Leg σ} {n : Notification σ} {q : Protocol}

/-- An abort that finds an owner with a sink tells it before it ends anything. -/
theorem cue_ne_none_of_dispossessed (h : Deed a .abort k l) (hbefore : a.owner = some q)
    (hafter : l.arbiter.owner ≠ some q) (present : (a.sink? q).isSome) : k ≠ none := by
  intro hk
  cases h with
  | vacates reason => simp [reason hk q hbefore] at present
  | offers walks => exact walks.elim
  | aborts | refuses | ends => exact hafter hbefore

/-- An abort that waits has begun by telling the owner to stop. -/
theorem of_aborting (h : Deed a c k l) (hl : l.progress = .notifies n .aborting) :
    k = none ∧ ∃ p, a.owner = some p ∧ l.Tells p .arbitration .abort ∧ l.arbiter = a := by
  cases h with
  | aborts owner => cases hl; exact ⟨rfl, _, owner, rfl, rfl⟩
  | _ => cases hl

end Deed

namespace Run

variable {r : Run σ} {older newer earlier since : List (Moment σ)} {m w : Moment σ}
  {others : List (Pending σ)} {p q : Protocol}

/-! ## From the end of an abort back to its beginning -/

/-- No moment before the beginning of an operation belongs to it. -/
theorem Reached.number_ne_of_begins (h : r.Reached) (next : r.Next m others) (hk : m.cue = none) :
    ∀ m' ∈ r.past, m'.number ≠ m.number := by
  intro m' hm'
  cases next with
  | begins => exact (h.numbered.moment m' hm').lt.ne
  | resumes => cases hk

/-- An abort that ends an ownership has told an owner to stop, and nothing else: it began with that,
and goes on now. -/
theorem Reached.exists_stop (h : r.Reached) (next : r.Next m others) (hm : m.Dispossesses q) :
    ∃ earlier w since p, r.past = earlier ++ w :: since ∧ w.number = m.number ∧ w.cue = none ∧
      w.Tells p .arbitration .abort ∧ w.before.owner = some p ∧ w.after.owner = some p ∧
      (∀ m' ∈ earlier, m'.number ≠ m.number) ∧ ∀ m' ∈ since, m'.number ≠ m.number := by
  obtain ⟨hcall, hbefore, hafter⟩ := hm
  rw [next.before_eq] at hbefore
  have deed := h.sound.deed next
  rw [hcall] at deed
  have hwaits : m.cue ≠ none :=
    deed.cue_ne_none_of_dispossessed hbefore hafter (h.sound.owner q hbefore)
  cases next with
  | begins => exact absurd rfl hwaits
  | @resumes f others waits b =>
    have hf : f ∈ r.pending := by simp [waits]
    have hstop : f.waiting = .aborting := by
      have hawaits := h.sound.awaits f hf
      rw [show f.call = .abort from hcall] at hawaits
      cases hw : f.waiting with
      | aborting => rfl
      | _ => rw [hw] at hawaits; exact hawaits.elim
    obtain ⟨earlier, w, since, n, hpast, hnumber, -, hl, hsince⟩ := h.exists_asked hf
    obtain ⟨r', others', h', hr', next'⟩ := h.moment hpast
    obtain ⟨hk, p, howner, htold, hsame⟩ := (h'.sound.deed next').of_aborting (hstop ▸ hl)
    have hfirst := h'.number_ne_of_begins next' hk
    rw [hr', hnumber] at hfirst
    rw [← next'.before_eq] at howner
    refine ⟨earlier, w, since, p, hpast, hnumber, hk, htold, howner, ?_, hfirst, hsince⟩
    rw [Moment.after, hsame, ← next'.before_eq]
    exact howner

/-! ## Who was told -/

/-- A protocol that an operation has told nothing was not warned by it. -/
theorem not_warned {k : Nat} {past : List (Moment σ)}
    (h : ∀ m ∈ past, m.number = k → ¬ m.Tells q .arbitration .abort) : ¬ Warned k q past := by
  rintro ⟨earlier, w, since, rfl, hnumber, htold, -⟩
  exact h w (by simp) hnumber htold

/-- What came before a moment at which an abort ends the ownership of `q`. -/
structure Dispossession (older : List (Moment σ)) (m : Moment σ) (q : Protocol)
    (earlier : List (Moment σ)) (w : Moment σ) (since : List (Moment σ)) (p : Protocol) :
    Prop where
  split : older = earlier ++ w :: since
  /-- The abort began by telling its owner `p` to stop, -/
  number : w.number = m.number
  begins : w.cue = none
  told : w.Tells p .arbitration .abort
  owner : w.before.owner = some p
  /-- and has done nothing since then. -/
  last : ∀ m' ∈ since, m'.number ≠ m.number
  /-- Whoever is not `p` was told nothing by it. -/
  stranger : q ≠ p → ∀ m' ∈ older, m'.number = m.number → ¬ m'.Tells q .arbitration .abort
  /-- It has not told `q` to stop within the ownership that it ends if and only if `q` was told that
  it is active since then. -/
  silent_iff : ¬ Warned m.number q older ↔ ∃ m' ∈ since, m'.Tells q .arbitration .active
  /-- This is so if and only if `q` was not the owner all the time since the abort began. -/
  anew_iff : (∃ m' ∈ since, m'.Tells q .arbitration .active) ↔
    ∃ m' ∈ w :: since, m'.after.owner ≠ some q

/-- An ownership that began while an abort was waiting is ended by it without a word, and no other
one is. -/
theorem Reached.dispossession (h : r.Reached) (next : r.Next m others) (hm : m.Dispossesses q) :
    ∃ earlier w since p, Dispossession r.past m q earlier w since p := by
  obtain ⟨earlier, w, since, p, hpast, hnumber, hk, htold, hbefore, hafter, hearlier, hsince⟩ :=
    h.exists_stop next hm
  have howner : r.arbiter.owner = some q := next.before_eq ▸ hm.before
  have hstranger : q ≠ p → ∀ m' ∈ r.past, m'.number = m.number →
      ¬ m'.Tells q .arbitration .abort := by
    intro hother m' hm' hnumber' ht
    rw [hpast, List.mem_append, List.mem_cons] at hm'
    rcases hm' with hm' | rfl | hm'
    · exact hearlier m' hm' hnumber'
    · exact hother (by simpa [hbefore] using ((h.deed (by simp [hpast])).owner_of_abort ht).1.symm)
    · exact hsince m' hm' hnumber'
  by_cases hsame : q = p
  · subst hsame
    refine ⟨earlier, w, since, q, hpast, hnumber, hk, htold, hbefore, hsince, hstranger, ?_, ?_⟩
    · rw [hpast, warned_iff hnumber htold hsince, not_not]
    · rw [h.active_since_iff hpast hafter howner]
      simp [hafter]
  · -- The owner that is found in the end has come by the transceiver since the abort began.
    have hactive : ∃ m' ∈ since, m'.Tells q .arbitration .active := by
      have hi : r.past[earlier.length]? = some w := by simp [hpast]
      have hnot : w.before.owner ≠ some q := by simpa [hbefore] using Ne.symm hsame
      obtain ⟨m', hm', ht⟩ := h.exists_active hi hnot howner
      rw [hpast, List.drop_left, List.mem_cons] at hm'
      refine ⟨m', hm'.resolve_left ?_, ht⟩
      rintro rfl
      simp [Moment.Tells, Leg.Tells] at htold ht
      simp [htold] at ht
    refine ⟨earlier, w, since, p, hpast, hnumber, hk, htold, hbefore, hsince, hstranger, ?_, ?_⟩
    · exact iff_of_true (not_warned (hstranger hsame)) hactive
    · exact iff_of_true hactive ⟨w, by simp, by simpa [hafter] using Ne.symm hsame⟩

/-- **An abort ends an ownership without a word if and only if it began while the abort waited.**
The owner that the abort found was told to stop. The one that it takes the transceiver from is told
so in the course of that ownership, unless the ownership began after the abort: then the protocol
was told that it is active, and of the end of it nothing. -/
theorem exists_dispossession (preemption : Bool) (moves : List (Move σ))
    (hpast : (play preemption moves).past = older ++ m :: newer) (hm : m.Dispossesses q) :
    ∃ earlier w since p, Dispossession older m q earlier w since p := by
  obtain ⟨r, others, h, rfl, next⟩ := (reached_play preemption moves).moment hpast
  exact h.dispossession next hm

end Run

/-- The owner, told to stop, gives the transceiver up; another protocol is offered it and takes it;
then the owner answers. -/
def seizedUnderAbort : List (Move Unit) :=
  [.call (.register .arbitration .ant 3 ()), .answer .success,
    .call (.register .arbitration .ble 1 ()), .answer .success,
    .call (.acquire .ant false), .answer .success,
    .call .abort, .call (.release .ant), .answer .success, .call (.acquire .ble false),
    .answer .success, .answer .success, .answer .success]

/-- The new owner loses the transceiver, and the abort has told it nothing. -/
theorem exists_dispossession_seizedUnderAbort :
    ∃ older m, (Run.play true seizedUnderAbort).past = older ++ [m] ∧ m.Dispossesses .ble ∧
      ¬ Warned m.number .ble older ∧
      ∃ earlier w since p, Run.Dispossession older m .ble earlier w since p := by
  have hpast : (Run.play true seizedUnderAbort).past =
      (Run.play true seizedUnderAbort).past.take 12 ++
        [(Run.play true seizedUnderAbort).past[12]] := rfl
  have hm : (Run.play true seizedUnderAbort).past[12].Dispossesses .ble :=
    ⟨rfl, rfl, by decide⟩
  refine ⟨_, _, hpast, hm, ?_, Run.exists_dispossession true seizedUnderAbort hpast hm⟩
  exact Run.not_warned (by decide)

end SharedRadio.Arbiter
