import SharedRadio.Proofs.Arbiter.Delivery

/-!
# Who may displace whom

An acquisition without force displaces an owner only if preemption is enabled and its protocol has
the strictly higher priority. The arbiter checks this once, when the acquisition begins. What it
does later, when owners that were told to make room have answered, rests on that one check.

The proof relates the two times. `Reached.warned` says that an acquisition that waits for an owner
to make room had told some owner so when it began; the check was made against that owner, and
because priority values never change, the check still holds between these two protocols. So an
acquisition can go beyond its permission in two ways only (`Permitted.excess_iff`): preemption was
disabled in the meantime, or another protocol of no lower priority has become the owner, which it
was told.
-/

namespace SharedRadio.Arbiter

variable {σ : Type}

/-! ## Permission -/

/-- Both protocols are registered, and the first has the strictly higher priority. -/
def Outranks (a : Arbiter σ) (p q : Protocol) : Prop :=
  ∃ v w, a.registry.priority? p = some v ∧ a.registry.priority? q = some w ∧ v < w

/-- A protocol is entitled to displace another one without force. -/
def Entitles (a : Arbiter σ) (p q : Protocol) : Prop := a.preemption = true ∧ a.Outranks p q

/-- A protocol is told to make room, or the transceiver is taken from it. -/
def Moment.Displaces (m : Moment σ) (q : Protocol) : Prop :=
  m.Tells q .arbitration .abort ∨ m.before.owner = some q ∧ m.after.owner ≠ some q

/-- The check that is made when an acquisition without force begins. -/
theorem entitles_of_mayDisplace {a : Arbiter σ} (ha : a.registry.Sound) {p q : Protocol}
    (hp : (a.sink? p).isSome) (hq : (a.sink? q).isSome) (h : a.mayDisplace p q false) :
    a.Entitles p q := by
  obtain ⟨v, hv⟩ := Option.isSome_iff_exists.mp ((ha.linked_iff p).mpr ⟨.arbitration, hp⟩)
  obtain ⟨w, hw⟩ := Option.isSome_iff_exists.mp ((ha.linked_iff q).mpr ⟨.arbitration, hq⟩)
  obtain ⟨enabled, hless⟩ : a.preemption = true ∧ a.registry.rank p < a.registry.rank q := by
    simpa [mayDisplace] using h
  refine ⟨enabled, v, w, hv, hw, ?_⟩
  simpa [Registry.rank, hv, hw] using hless

/-- A protocol of higher priority than one owner lacks the permission to displace another one for
two reasons only. -/
theorem not_entitles_iff {a : Arbiter σ} {p q q₀ : Protocol} (hout : a.Outranks p q₀) :
    ¬ a.Entitles p q ↔ a.preemption = false ∨ q ≠ q₀ ∧ ¬ a.Outranks p q := by
  constructor
  · intro hnot
    rcases Bool.eq_false_or_eq_true a.preemption with henabled | hdisabled
    · exact .inr ⟨fun hsame => hnot ⟨henabled, hsame ▸ hout⟩, fun h => hnot ⟨henabled, h⟩⟩
    · exact .inl hdisabled
  · rintro (hdisabled | ⟨-, hnot⟩) ⟨henabled, h⟩
    · exact Bool.false_ne_true (hdisabled.symm.trans henabled)
    · exact hnot h

namespace Deed

variable {a : Arbiter σ} {c : Call σ} {k : Cue σ} {l : Leg σ} {p q : Protocol} {force : Bool}

/-- A priority once higher stays higher. -/
theorem outranks (h : Deed a c k l) (hpq : a.Outranks p q) : l.arbiter.Outranks p q := by
  obtain ⟨v, w, hv, hw, hless⟩ := hpq
  exact ⟨v, w, h.priority?_eq hv, h.priority?_eq hw, hless⟩

/-- Preemption is disabled by nothing but a call for that. -/
theorem preemption_of_ne (h : Deed a c k l) (hne : c ≠ .setPreemption false)
    (ha : a.preemption = true) : l.arbiter.preemption = true := by
  cases h with
  | @permits enabled =>
    cases enabled with
    | false => exact absurd rfl hne
    | true => rfl
  | _ => exact ha

/-- An acquisition displaces none but the owner, and another protocol than its own. If it does so
at once, it tells the owner and has the permission. -/
theorem displaces (h : Deed a (.acquire p force) k l)
    (hq : l.Tells q .arbitration .abort ∨ a.owner = some q ∧ l.arbiter.owner ≠ some q)
    (present : a.owner = some q → (a.sink? q).isSome) :
    a.owner = some q ∧ q ≠ p ∧ (∃ sink, Bids a p sink k) ∧
      (k = none → l.Tells q .arbitration .abort ∧ a.mayDisplace p q force) := by
  cases h with
  | @warns _ _ _ sink q' _ _ _ bids owner other _ _ permitted =>
    have hsame : q' = q := by
      rcases hq with ht | ⟨ho, hne⟩
      · simpa [Leg.Tells] using ht
      · exact absurd ho hne
    subst hsame
    exact ⟨owner, other, ⟨sink, bids⟩, fun hk => ⟨rfl, permitted hk⟩⟩
  | @seizes _ _ _ sink _ _ bids new former =>
    rcases hq with ht | ⟨ho, hne⟩
    · simp [Leg.Tells] at ht
    · refine ⟨ho, fun hqp => hne (by rw [hqp]), ⟨sink, bids⟩, ?_⟩
      rintro rfl
      rcases former q ho with ht | ⟨habsent, -⟩
      · simp [Cue.displaced?] at ht
      · simp [habsent] at present
        exact absurd ho present
  | nests | refuses | ends =>
    rcases hq with ht | ⟨ho, hne⟩
    · simp [Leg.Tells] at ht
    · exact absurd ho hne
  | offers walks => exact walks.elim

/-- An operation that waits for an owner to make room has just told it so, and it does so for the
first time or after another owner has answered. -/
theorem of_displacing (h : Deed a c k l) {n : Notification σ} {sink : σ} {faulted : Bool}
    (hl : l.progress = .notifies n (.displacing p sink q faulted)) :
    (∃ force, c = .acquire p force) ∧ l.Tells q .arbitration .abort ∧
      (k = none ∨ ∃ told faulted' b, k = some (.displacing p sink told faulted', b)) := by
  cases h with
  | @warns _ force _ _ _ ownerSink _ _ bids =>
    cases hl
    refine ⟨⟨force, rfl⟩, rfl, ?_⟩
    cases k with
    | none => exact .inl rfl
    | some cue =>
      obtain ⟨told, faulted', hw⟩ := bids
      exact .inr ⟨told, faulted', cue.2, by rw [← hw]⟩
  | _ => cases hl

end Deed

namespace Run

variable {r : Run σ}

/-! ## The check and what rests on it -/

/-- An acquisition that waits for an owner to make room has told some owner so when it began. -/
theorem Reached.warned (h : r.Reached) {f : Pending σ} (hf : f ∈ r.pending) {p told : Protocol}
    {sink : σ} {faulted : Bool} (hw : f.waiting = .displacing p sink told faulted) :
    ∃ m₀ q₀, r.past[f.number]? = some m₀ ∧ m₀.Tells q₀ .arbitration .abort := by
  induction h generalizing f told faulted with
  | start => simp [Run.start] at hf
  | @after r m others h next ih =>
    rcases mem_pending_after hf with hf | ⟨n, w, hl, rfl⟩
    · obtain ⟨m₀, q₀, hm₀, ht⟩ := ih (next.others_subset hf) hw
      exact ⟨m₀, q₀, getElem?_append_of_eq_some hm₀ _, ht⟩
    · obtain rfl : w = .displacing p sink told faulted := hw
      obtain ⟨-, htold, hk⟩ := (h.sound.deed next).of_displacing hl
      cases next with
      | begins c => exact ⟨_, told, by simp [Run.after], htold⟩
      | resumes waits b =>
        obtain hk | ⟨told', faulted', b', hk⟩ := hk
        · cases hk
        · obtain ⟨hw', -⟩ := Prod.mk.inj (Option.some.inj hk)
          obtain ⟨m₀, q₀, hm₀, ht⟩ := ih (by simp [waits]) hw'
          exact ⟨m₀, q₀, getElem?_append_of_eq_some hm₀ _, ht⟩

/-- How an acquisition without force comes to displace an owner at a moment: it began at a certain
moment, and was entitled to displace the owner that it found then. -/
structure Permitted (older : List (Moment σ)) (m m₀ : Moment σ) (p q q₀ : Protocol) : Prop where
  /-- The moment at which it began. -/
  began : (older ++ [m])[m.number]? = some m₀
  call : m₀.call = .acquire p false
  cue : m₀.cue = none
  /-- The owner that it found then was told to make room. -/
  warned : m₀.Tells q₀ .arbitration .abort
  entitled : m₀.before.Entitles p q₀
  /-- It goes beyond its permission in two ways, and in no other way. -/
  excess_iff : ¬ m.before.Entitles p q ↔
    m.before.preemption = false ∨ q ≠ q₀ ∧ ¬ m.before.Outranks p q
  /-- If preemption is disabled, somebody has called for that since then. -/
  disabled : m.before.preemption = false →
    ∃ m' ∈ older.drop m.number, m'.call = .setPreemption false
  /-- If another protocol is the owner, it was told so since then. -/
  intruder : q ≠ q₀ → ∃ m' ∈ older.drop m.number, m'.Tells q .arbitration .active

/-- The moment at which an acquisition began, which displaces an owner at the moment that comes
next. -/
theorem Reached.exists_check (h : r.Reached) {m : Moment σ} {others : List (Pending σ)}
    (next : r.Next m others) {p q : Protocol} (hc : m.call = .acquire p false)
    (hq : m.Displaces q) :
    ∃ m₀ q₀, (r.past ++ [m])[m.number]? = some m₀ ∧ m₀.call = .acquire p false ∧ m₀.cue = none ∧
      m₀.Tells q₀ .arbitration .abort ∧ (m.cue = none → m₀ = m ∧ q₀ = q) := by
  have hbegun := h.numbered.begun_of_next next
  have deed := h.sound.deed next
  rw [hc] at deed
  have hq' : m.leg.Tells q .arbitration .abort ∨
      r.arbiter.owner = some q ∧ m.leg.arbiter.owner ≠ some q := next.before_eq ▸ hq
  obtain ⟨-, -, ⟨sink, bids⟩, hfirst⟩ := deed.displaces hq' (h.sound.owner q)
  obtain ⟨a, ha⟩ := hbegun
  cases next with
  | begins c =>
    exact ⟨_, q, by simp, hc, rfl, (hfirst rfl).1, fun _ => ⟨rfl, rfl⟩⟩
  | @resumes f others waits b =>
    obtain ⟨told, faulted, hw⟩ := bids
    obtain ⟨m₀, q₀, hm₀, ht⟩ := h.warned (f := f) (by simp [waits]) hw
    obtain rfl := Option.some.inj (ha.symm.trans (getElem?_append_of_eq_some hm₀ _))
    exact ⟨_, q₀, ha, hc, rfl, ht, by simp⟩

/-- An acquisition without force that tells an owner to make room at once is entitled to that. -/
theorem Reached.entitled (h : r.Reached) {m : Moment σ} (hm : m ∈ r.past) {p q : Protocol}
    (hc : m.call = .acquire p false) (hk : m.cue = none) (ht : m.Tells q .arbitration .abort) :
    m.before.owner = some q ∧ m.before.Entitles p q := by
  obtain ⟨r', others, h', next⟩ := h.exists_run hm
  have deed := h'.sound.deed next
  rw [hc, hk] at deed
  obtain ⟨howner, -, ⟨sink, bids⟩, hchecked⟩ := deed.displaces (.inl ht) (h'.sound.owner q)
  rw [next.before_eq]
  exact ⟨howner, entitles_of_mayDisplace h'.sound.registry (bids.isSome (absurd rfl))
    (h'.sound.owner q howner) (hchecked rfl).2⟩

/-- Somebody has called for it if preemption was disabled. -/
theorem Reached.exists_disabling (h : r.Reached) {i : Nat} {m : Moment σ}
    (hi : r.past[i]? = some m) (hbefore : m.before.preemption = true)
    (hafter : r.arbiter.preemption = false) :
    ∃ m' ∈ r.past.drop i, m'.call = .setPreemption false := by
  obtain ⟨m', hm', henabled, hdisabled⟩ :=
    h.exists_change (P := fun a => a.preemption = false) hi (by simp [hbefore]) hafter
  refine ⟨m', hm', by_contra fun hne => ?_⟩
  have hkept := (h.deed (List.mem_of_mem_drop hm')).preemption_of_ne hne (by simpa using henabled)
  exact Bool.false_ne_true (hdisabled.symm.trans hkept)

/-- **An acquisition without force goes beyond its permission only if the permission is out of
date.** It was entitled to displace the owner that it found when it began. At a moment at which it
displaces an owner without being entitled to, preemption has been disabled since, or another
protocol of no lower priority has become the owner since. -/
theorem permitted_of_displaces (preemption : Bool) (moves : List (Move σ))
    {older newer : List (Moment σ)} {m : Moment σ}
    (hpast : (play preemption moves).past = older ++ m :: newer) {p q : Protocol}
    (hc : m.call = .acquire p false) (hq : m.Displaces q) :
    ∃ m₀ q₀, Permitted older m m₀ p q q₀ := by
  obtain ⟨r, others, h, rfl, next⟩ := (reached_play preemption moves).moment hpast
  obtain ⟨m₀, q₀, began, call, cue, warned, hfirst⟩ := h.exists_check next hc hq
  -- The moment itself ends a run, in which the check is a moment of the past.
  obtain ⟨howner, entitled⟩ :=
    (h.after next).entitled (List.mem_of_getElem? began) call cue warned
  suffices hsince : m.before.Outranks p q₀ ∧
      (m.before.preemption = false →
        ∃ m' ∈ r.past.drop m.number, m'.call = .setPreemption false) ∧
      (q ≠ q₀ → ∃ m' ∈ r.past.drop m.number, m'.Tells q .arbitration .active) by
    obtain ⟨hkept, disabled, intruder⟩ := hsince
    exact ⟨m₀, q₀, began, call, cue, warned, entitled, not_entitles_iff hkept, disabled, intruder⟩
  by_cases hk : m.cue = none
  · obtain ⟨rfl, rfl⟩ := hfirst hk
    exact ⟨entitled.2, fun hdisabled => absurd (hdisabled.symm.trans entitled.1) (by simp),
      absurd rfl⟩
  · have hold : r.past[m.number]? = some m₀ := by
      rcases getElem?_append_singleton began with hold | ⟨-, rfl⟩
      · exact hold
      · exact absurd cue hk
    have deed := h.sound.deed next
    rw [hc] at deed
    obtain ⟨hq_owner, -⟩ := deed.displaces (next.before_eq ▸ hq) (h.sound.owner q)
    rw [next.before_eq]
    exact ⟨h.persists hold Deed.outranks entitled.2, h.exists_disabling hold entitled.1,
      fun hne => h.exists_active hold (by rw [howner]; simpa using Ne.symm hne) hq_owner⟩

end Run

/-- The owner, told to make room, gives the transceiver up, and a protocol of higher priority than
the one that wants it takes it as soon as it is offered. -/
def slippedIn : List (Move Unit) :=
  [.call (.register .arbitration .ant 3 ()), .answer .success,
    .call (.register .arbitration .genFsk 1 ()), .answer .success,
    .call (.register .arbitration .ble 2 ()), .answer .success,
    .call (.acquire .ant false), .answer .success,
    .call (.acquire .ble false), .call (.release .ant), .answer .success,
    .call (.acquire .genFsk false), .answer .success, .answer .success, .answer .success]

/-- It is told to make room in turn, by the protocol of lower priority. -/
theorem permitted_of_displaces_slippedIn :
    ∃ older m newer, (Run.play true slippedIn).past = older ++ m :: newer ∧
      m.call = .acquire .ble false ∧ m.Displaces .genFsk ∧ ¬ m.before.Entitles .ble .genFsk ∧
      ∃ m₀ q₀, Run.Permitted older m m₀ .ble .genFsk q₀ := by
  have hpast : (Run.play true slippedIn).past =
      (Run.play true slippedIn).past.take 14 ++
        (Run.play true slippedIn).past[14] :: (Run.play true slippedIn).past.drop 15 := by
    rfl
  have hcall : (Run.play true slippedIn).past[14].call = .acquire .ble false := rfl
  have hdisplaces : (Run.play true slippedIn).past[14].Displaces .genFsk := .inl rfl
  refine ⟨_, _, _, hpast, hcall, hdisplaces, ?_,
    Run.permitted_of_displaces true slippedIn hpast hcall hdisplaces⟩
  rintro ⟨-, v, w, hv, hw, hless⟩
  cases hv
  cases hw
  exact absurd hless (by decide)

end SharedRadio.Arbiter
