import SharedRadio.Proofs.Arbiter.Run

/-!
# Notifications and ownership

What the arbiter tells a protocol about its ownership is true when it is told. A leg changes the
owner at most once, and it ends with a notification or with the operation, so it is enough to
compare what a leg tells with the owner before and after it; the comparison goes through the cases
of `Deed`.

`ownerAfter` reads the owner off the history. Ownership does not change between two moments
(`Reached.before_owner_eq`), so a protocol that has become the owner was told so at some moment
(`Reached.exists_active`), and a protocol that is told so for a second time was not the owner at
some moment in between.
-/

namespace SharedRadio.Arbiter

variable {σ : Type}

/-! ## What one leg tells -/

namespace Deed

variable {a : Arbiter σ} {c : Call σ} {k : Cue σ} {l : Leg σ} {p : Protocol}

/-- A protocol is told that it is active if and only if it becomes the owner. -/
theorem tells_active_iff (h : Deed a c k l) :
    l.Tells p .arbitration .active ↔ a.owner ≠ some p ∧ l.arbiter.owner = some p := by
  cases h with
  | @seizes q force k sink faulted records bids new former =>
    constructor
    · intro ht
      obtain rfl : q = p := by simpa [Leg.Tells] using ht
      exact ⟨new, rfl⟩
    · rintro ⟨-, hq⟩
      obtain rfl : q = p := Option.some.inj hq
      rfl
  | vacates | yields => simp [Leg.Tells, vacate]
  | _ => simp [Leg.Tells]

/-- A protocol that is told that it is active owns the transceiver at one level. -/
theorem depth_of_active (h : Deed a c k l) (ht : l.Tells p .arbitration .active) :
    l.arbiter.depth = 1 := by
  cases h with
  | seizes => rfl
  | _ => simp [Leg.Tells] at ht

/-- Only the owner is told to make room. -/
theorem owner_of_abort (h : Deed a c k l) (ht : l.Tells p .arbitration .abort) :
    a.owner = some p ∧ l.arbiter.owner = some p := by
  cases h with
  | @warns _ _ _ _ q _ _ _ bids owner =>
    obtain rfl : q = p := by simpa [Leg.Tells] using ht
    exact ⟨owner, owner⟩
  | @aborts q _ _ owner =>
    obtain rfl : q = p := by simpa [Leg.Tells] using ht
    exact ⟨owner, owner⟩
  | _ => simp [Leg.Tells] at ht

/-- A protocol is told that it has given up the transceiver if and only if it does so itself, and
nobody owns it then. -/
theorem tells_release_iff (h : Deed a c k l) :
    l.Tells p .arbitration .release ↔
      c = .release p ∧ a.owner = some p ∧ l.arbiter.owner = none := by
  cases h with
  | @yields q sink records owner =>
    constructor
    · intro ht
      obtain rfl : q = p := by simpa [Leg.Tells] using ht
      exact ⟨rfl, owner, rfl⟩
    · rintro ⟨hq, -⟩
      obtain rfl : q = p := by simpa using hq
      rfl
  | seizes | vacates => simp [Leg.Tells]
  | _ => simp +contextual [Leg.Tells]

/-- The transceiver is offered only if nobody owns it. -/
theorem owner_of_idle (h : Deed a c k l) (ht : l.Tells p .arbitration .idle) :
    a.owner = none ∧ l.arbiter.owner = none := by
  cases h with
  | offers _ idle => exact ⟨idle, idle⟩
  | _ => simp [Leg.Tells] at ht

end Deed

/-! ## Ownership in the history -/

/-- The owner after some moments. -/
def ownerAfter (past : List (Moment σ)) : Option Protocol :=
  past.getLast?.bind fun m => m.after.owner

@[simp] theorem ownerAfter_nil : ownerAfter ([] : List (Moment σ)) = none := rfl

@[simp] theorem ownerAfter_append_singleton (past : List (Moment σ)) (m : Moment σ) :
    ownerAfter (past ++ [m]) = m.after.owner := by
  simp [ownerAfter]

/-- Whoever was the owner after each of the last moments is the owner after all of them. -/
theorem ownerAfter_of_forall {older within : List (Moment σ)} {first : Moment σ} {p : Protocol}
    (h : ∀ m ∈ first :: within, m.after.owner = some p) :
    ownerAfter (older ++ first :: within) = some p := by
  have hlast : (older ++ first :: within).getLast? =
      some ((first :: within).getLast (List.cons_ne_nil _ _)) := by
    rw [List.getLast?_append_cons, List.getLast?_eq_some_getLast]
  rw [ownerAfter, hlast]
  exact h _ (List.getLast_mem _)

namespace Run

variable {r : Run σ} {older mid newer : List (Moment σ)} {m : Moment σ} {p : Protocol}

theorem Reached.ownerAfter_past (h : r.Reached) : ownerAfter r.past = r.arbiter.owner := by
  cases h with
  | start => rfl
  | after h next => exact ownerAfter_append_singleton _ _

/-- Nothing changes between two moments. -/
theorem Reached.before_owner_eq (h : r.Reached) (hpast : r.past = older ++ m :: newer) :
    m.before.owner = ownerAfter older := by
  obtain ⟨r', others, h', rfl, next⟩ := h.moment hpast
  rw [next.before_eq, h'.ownerAfter_past]

/-- **Whoever has become the owner was told so.** -/
theorem Reached.exists_active (h : r.Reached) {i : Nat} (hi : r.past[i]? = some m)
    (hbefore : m.before.owner ≠ some p) (hafter : r.arbiter.owner = some p) :
    ∃ m' ∈ r.past.drop i, m'.Tells p .arbitration .active := by
  obtain ⟨m', hm', hchange⟩ :=
    h.exists_change (P := fun a => a.owner = some p) hi hbefore hafter
  exact ⟨m', hm', (h.deed (List.mem_of_mem_drop hm')).tells_active_iff.mpr hchange⟩

/-! ## Truthful notifications -/

/-- Every notification that a protocol receives about its ownership is true when it is delivered. -/
structure Truthful (r : Run σ) : Prop where
  /-- The owner changes only within a moment, and not between two of them. -/
  owner_eq : ∀ older m newer, r.past = older ++ m :: newer → m.before.owner = ownerAfter older
  /-- The last moment leaves the present owner. -/
  owner_last : r.arbiter.owner = ownerAfter r.past
  /-- A protocol is told that it is active at the moments at which it becomes the owner, and at no
  other moment. -/
  active_iff : ∀ m ∈ r.past, ∀ p, m.Tells p .arbitration .active ↔
    m.before.owner ≠ some p ∧ m.after.owner = some p
  /-- It owns the transceiver at one level then. -/
  active_depth : ∀ m ∈ r.past, ∀ p, m.Tells p .arbitration .active → m.after.depth = 1
  /-- It is not told twice in the course of one ownership. -/
  active_once : ∀ older m mid m' newer, r.past = older ++ m :: (mid ++ m' :: newer) →
    ∀ p, m.Tells p .arbitration .active → m'.Tells p .arbitration .active →
      ∃ between ∈ mid, between.after.owner ≠ some p
  /-- A protocol that is told to make room is the owner. -/
  abort : ∀ m ∈ r.past, ∀ p, m.Tells p .arbitration .abort →
    m.before.owner = some p ∧ m.after.owner = some p
  /-- A protocol is told that it has given up the transceiver at the moments at which it does so
  itself, and at no other moment. Nobody owns it then. -/
  release_iff : ∀ m ∈ r.past, ∀ p, m.Tells p .arbitration .release ↔
    m.call = .release p ∧ m.before.owner = some p ∧ m.after.owner = none
  /-- Nobody owns the transceiver when it is offered. -/
  idle : ∀ m ∈ r.past, ∀ p, m.Tells p .arbitration .idle →
    m.before.owner = none ∧ m.after.owner = none

/-- A protocol that is told twice that it is active was not the owner at some moment in between. -/
theorem Reached.exists_not_owner_between (h : r.Reached) {m' : Moment σ}
    (hpast : r.past = older ++ m :: (mid ++ m' :: newer)) (hm : m.Tells p .arbitration .active)
    (hm' : m'.Tells p .arbitration .active) : ∃ between ∈ mid, between.after.owner ≠ some p := by
  have hown : m.after.owner = some p :=
    ((h.deed (m := m) (by simp [hpast])).tells_active_iff.mp hm).2
  have hlost : m'.before.owner ≠ some p :=
    ((h.deed (m := m') (by simp [hpast])).tells_active_iff.mp hm').1
  have hsplit : r.past = (older ++ m :: mid) ++ m' :: newer := by simp [hpast]
  have hlast := h.before_owner_eq hsplit
  rcases List.eq_nil_or_concat mid with rfl | ⟨mid', last, rfl⟩
  · rw [ownerAfter_append_singleton] at hlast
    exact absurd (hlast.trans hown) hlost
  · rw [List.concat_eq_append, ← List.cons_append, ← List.append_assoc,
      ownerAfter_append_singleton] at hlast
    exact ⟨last, by simp, hlast ▸ hlost⟩

/-- **Notifications match ownership.** Whatever is called from wherever, and whatever is answered,
every notification is true when it is delivered. -/
theorem truthful_play (preemption : Bool) (moves : List (Move σ)) :
    (play preemption moves).Truthful := by
  have h := reached_play preemption moves
  exact
    { owner_eq := fun _ _ _ hpast => h.before_owner_eq hpast
      owner_last := h.ownerAfter_past.symm
      active_iff := fun _ hm _ => (h.deed hm).tells_active_iff
      active_depth := fun _ hm _ ht => (h.deed hm).depth_of_active ht
      active_once := fun _ _ _ _ _ hpast _ => h.exists_not_owner_between hpast
      abort := fun _ hm _ ht => (h.deed hm).owner_of_abort ht
      release_iff := fun _ hm _ => (h.deed hm).tells_release_iff
      idle := fun _ hm _ ht => (h.deed hm).owner_of_idle ht }

end Run

end SharedRadio.Arbiter
