import SharedRadio.Proofs.Arbiter.Addressee

/-!
# The first notification of a slot

The first sink that is put into a slot is told `Event.init`, and no other one is. A registration is
nested in whatever its caller was told, the `Event.init` of the same slot included, so that several
registrations of one slot can be under way at once. The sink is stored before it is told, and the
registry is the only thing that a registration reads. So the question is one about the history:
whether the slot is still `Vacant` there.

`Reached.sink?_eq_none_iff` says that the history and the registry give the same answer, and
`Reached.exists_enrols` finds the registration that has filled a slot. Everything that a slot is
told goes to a sink that was stored (`Reached.isSome_or_enrols`), hence it comes behind the
`Event.init` of that registration. The answer to `Event.init` decides about the result and about
nothing else.
-/

namespace SharedRadio.Arbiter

open Registry

variable {σ : Type}

/-! ## Vacant slots -/

/-- No sink was registered for a protocol's slot. -/
def Vacant (past : List (Moment σ)) (p : Protocol) (slot : Slot) : Prop :=
  ∀ c ∈ attachments past, ¬ (c.protocol = p ∧ c.slot = slot)

/-- A moment puts a sink into a slot for which none was registered before. -/
structure Moment.Enrols (older : List (Moment σ)) (m : Moment σ) (c : Attachment σ) : Prop where
  stores : m.attachment? = some c
  vacant : Vacant older c.protocol c.slot

section

variable {past older newer : List (Moment σ)} {m : Moment σ} {p : Protocol} {slot : Slot}
  {c : Attachment σ}

theorem vacant_iff_last? : Vacant past p slot ↔ last? (attachments past) p slot = none := by
  simp [Vacant, last?]

theorem not_vacant_of_stores (hm : m ∈ past) (hc : m.attachment? = some c) :
    ¬ Vacant past c.protocol c.slot := by
  intro hvacant
  exact hvacant c (List.mem_filterMap.mpr ⟨m, hm, hc⟩) ⟨rfl, rfl⟩

/-- A slot that is vacant was so before. -/
theorem Vacant.of_append (h : Vacant (older ++ newer) p slot) : Vacant older p slot := by
  intro c hc
  refine h c ?_
  rw [attachments_append]
  exact List.mem_append_left _ hc

/-- A slot that is not vacant has been filled for the first time at some moment. -/
theorem exists_enrols_of_not_vacant (h : ¬ Vacant past p slot) :
    ∃ older m newer c, past = older ++ m :: newer ∧ m.Enrols older c ∧ c.protocol = p ∧
      c.slot = slot := by
  induction past using List.reverseRecOn with
  | nil => exact absurd (by simp [Vacant, attachments]) h
  | append_singleton past m ih =>
    by_cases hbefore : Vacant past p slot
    · -- Nothing but the last moment can have filled it.
      have hlast : ∃ c, m.attachment? = some c ∧ c.protocol = p ∧ c.slot = slot := by
        by_contra hnone
        refine h fun c hc hslot => ?_
        rw [attachments_append, attachments_singleton, List.mem_append, Option.mem_toList] at hc
        rcases hc with hold | hnew
        · exact hbefore c hold hslot
        · exact hnone ⟨c, hnew, hslot⟩
      obtain ⟨c, hstores, rfl, rfl⟩ := hlast
      exact ⟨past, m, [], c, rfl, ⟨hstores, hbefore⟩, rfl, rfl⟩
    · obtain ⟨older, m', newer, c, rfl, henrols, hslot⟩ := ih hbefore
      exact ⟨older, m', newer ++ [m], c, by simp, henrols, hslot⟩

theorem Moment.attachment?_eq_some_iff : m.attachment? = some c ↔
    m.cue = none ∧ m.call = .register c.slot c.protocol c.priority c.sink := by
  obtain ⟨number, call, cue, before⟩ := m
  obtain ⟨p, v, slot, sink⟩ := c
  cases cue with
  | some => simp [attachment?]
  | none => cases call with
    | register => simp [attachment?]; tauto
    | _ => simp [attachment?]

end

/-! ## One leg of a registration -/

section

variable {a : Arbiter σ} {p : Protocol} {slot : Slot}

/-- The first sink of a slot is told so. -/
theorem register_of_vacant (h : a.registry.sink? p slot = none) (v : UInt8) (sink : σ) :
    a.register slot p v sink =
      { a with registry := (a.registry.attach p v slot sink).2 }.notify [.registered slot p]
        p slot sink .init (.registering p) := by
  have fresh : (a.registry.attach p v slot sink).1 = true := by rw [attach_fst, h]; rfl
  simp only [register, fresh, if_true]

/-- A later one takes the place of the one before, and nobody is told. -/
theorem register_of_occupied (h : a.registry.sink? p slot ≠ none) (v : UInt8) (sink : σ) :
    a.register slot p v sink =
      { a with registry := (a.registry.attach p v slot sink).2 }.finish [.replaced slot p]
        (.ok ()) := by
  have stale : (a.registry.attach p v slot sink).1 = false := by
    rw [attach_fst]
    simpa [Option.isSome_iff_ne_none] using h
  simp [register, stale]

end

namespace Deed

variable {a : Arbiter σ} {c : Call σ} {k : Cue σ} {l : Leg σ} {n : Notification σ} {w : Waiting σ}
  {p : Protocol} {slot : Slot}

/-- Nothing but a broadcast and the first sink of a slot makes a leg tell `Event.init`. -/
theorem register_of_init (h : Deed a c k l) (hc : c ≠ .broadcast .init)
    (ht : l.Tells p slot .init) :
    k = none ∧ a.registry.sink? p slot = none ∧ ∃ v sink, c = .register slot p v sink := by
  cases h with
  | @enrols slot' q v sink records empty =>
    obtain ⟨rfl, rfl⟩ : q = p ∧ slot' = slot := by simpa [Leg.Tells] using ht
    exact ⟨rfl, empty, v, sink, rfl⟩
  | announces =>
    obtain ⟨-, -, rfl⟩ := by simpa [Leg.Tells] using ht
    exact absurd rfl hc
  | _ => simp [Leg.Tells] at ht

/-- A registration waits for the answer to the `Event.init` of a vacant slot only. -/
theorem vacant_of_registering (h : Deed a c k l) (hl : l.progress = .notifies n (.registering p)) :
    k = none ∧ ∃ slot v sink, c = .register slot p v sink ∧ a.registry.sink? p slot = none := by
  cases h with
  | enrols empty => cases hl; exact ⟨rfl, _, _, _, rfl, empty⟩
  | _ => cases hl

/-- What a slot is told goes to a sink that was stored before, or is stored by the leg itself. The
sink of a protocol that wants the transceiver may have been read long ago. -/
theorem isSome_of_tells (h : Deed a c k l)
    (bidder : ∀ q force, c = .acquire q force → k ≠ none → (a.sink? q).isSome) {event : Event}
    (ht : l.Tells p slot event) :
    (a.registry.sink? p slot).isSome ∨ event = .init ∧ k = none ∧
      a.registry.sink? p slot = none ∧ ∃ v sink, c = .register slot p v sink := by
  have told : ∀ {q other e}, some (q, other, e) = some (p, slot, event) →
      (a.registry.sink? q other).isSome → (a.registry.sink? p slot).isSome := by
    intro q other e heq hsome
    obtain ⟨rfl, rfl, -⟩ := by simpa using heq
    exact hsome
  cases h with
  | @enrols slot' q v sink records empty =>
    obtain ⟨rfl, rfl, rfl⟩ : q = p ∧ slot' = slot ∧ .init = event := by simpa [Leg.Tells] using ht
    exact .inr ⟨rfl, rfl, empty, v, sink, rfl⟩
  | seizes bids => exact .inl (told ht (bids.isSome (bidder _ _ rfl)))
  | warns _ _ _ present => exact .inl (told ht (Option.isSome_of_eq_some present))
  | aborts _ present => exact .inl (told ht (Option.isSome_of_eq_some present))
  | yields _ _ present => exact .inl (told ht (Option.isSome_of_eq_some present))
  | offers _ _ _ present => exact .inl (told ht (Option.isSome_of_eq_some present))
  | announces present => exact .inl (told ht (Option.isSome_of_eq_some present))
  | asks _ present => exact .inl (told ht (Option.isSome_of_eq_some present))
  | _ => simp [Leg.Tells] at ht

end Deed

namespace Run

variable {r : Run σ} {m : Moment σ} {others : List (Pending σ)} {p : Protocol} {slot : Slot}
  {c : Attachment σ} {event : Event}

/-! ## The history and the registry -/

theorem Reached.sink?_eq_none_iff (h : r.Reached) :
    r.arbiter.registry.sink? p slot = none ↔ Vacant r.past p slot := by
  rw [h.registry_eq, sink?_attachAll, Option.map_eq_none_iff, vacant_iff_last?]

/-- A registration that begins at a vacant slot enrols its sink. -/
theorem Reached.enrols_of_register (h : r.Reached) (hk : m.cue = none) {v : UInt8} {sink : σ}
    (hc : m.call = .register slot p v sink) (hempty : r.arbiter.registry.sink? p slot = none) :
    m.Enrols r.past ⟨p, v, slot, sink⟩ :=
  ⟨Moment.attachment?_eq_some_iff.mpr ⟨hk, hc⟩, h.sink?_eq_none_iff.mp hempty⟩

/-- A sink that is enrolled is told so. -/
theorem Reached.leg_of_enrols (h : r.Reached) (next : r.Next m others) (hm : m.Enrols r.past c) :
    m.leg.progress =
      .notifies ⟨c.protocol, c.slot, c.sink, .init⟩ (.registering c.protocol) := by
  obtain ⟨hk, hc⟩ := Moment.attachment?_eq_some_iff.mp hm.stores
  have hempty := h.sink?_eq_none_iff.mpr hm.vacant
  rw [Moment.leg, hk, hc, next.before_eq]
  dsimp only [call]
  rw [register_of_vacant hempty]
  rfl

/-- A sink that takes the place of another one is not. -/
theorem Reached.leg_of_not_vacant (h : r.Reached) (next : r.Next m others)
    (hc : m.attachment? = some c) (hfilled : ¬ Vacant r.past c.protocol c.slot) :
    m.leg.progress = .finished (.settled (.ok ())) := by
  obtain ⟨hk, hc⟩ := Moment.attachment?_eq_some_iff.mp hc
  have hoccupied := mt h.sink?_eq_none_iff.mp hfilled
  rw [Moment.leg, hk, hc, next.before_eq]
  dsimp only [call]
  rw [register_of_occupied hoccupied]
  rfl

/-! ## What a slot is told first -/

/-- The slots that are told `Event.init` are those into which a sink is put for the first time. -/
theorem Reached.tells_init_iff (h : r.Reached) (next : r.Next m others)
    (hquiet : m.call ≠ .broadcast .init) :
    m.Tells p slot .init ↔ ∃ c, m.Enrols r.past c ∧ c.protocol = p ∧ c.slot = slot := by
  constructor
  · intro ht
    obtain ⟨hk, hempty, v, sink, hc⟩ := (h.sound.deed next).register_of_init hquiet ht
    exact ⟨_, h.enrols_of_register hk hc hempty, rfl, rfl⟩
  · rintro ⟨c, hm, rfl, rfl⟩
    rw [Moment.Tells, Leg.Tells, h.leg_of_enrols next hm]
    rfl

/-- What is told to a slot goes to a sink that was stored before, unless it is `Event.init` and goes
to one that is enrolled just now. -/
theorem Reached.filled_or_enrols (h : r.Reached) (next : r.Next m others)
    (ht : m.Tells p slot event) :
    ¬ Vacant r.past p slot ∨
      event = .init ∧ ∃ c, m.Enrols r.past c ∧ c.protocol = p ∧ c.slot = slot := by
  have bidder : ∀ q force, m.call = .acquire q force → m.cue ≠ none →
      (r.arbiter.sink? q).isSome := fun _ _ => h.sound.bidder_of_next next
  rcases (h.sound.deed next).isSome_of_tells bidder ht with
    hsome | ⟨hinit, hk, hempty, v, sink, hc⟩
  · refine .inl fun hvacant => ?_
    simp [h.sink?_eq_none_iff.mpr hvacant] at hsome
  · exact .inr ⟨hinit, _, h.enrols_of_register hk hc hempty, rfl, rfl⟩

/-- A vacant slot has been told nothing. -/
theorem Reached.not_tells_of_vacant (h : r.Reached) (hvacant : Vacant r.past p slot) :
    ∀ m ∈ r.past, ∀ event, ¬ m.Tells p slot event := by
  intro m hm event ht
  obtain ⟨older, newer, hpast⟩ := List.append_of_mem hm
  obtain ⟨r', others, h', rfl, next⟩ := h.moment hpast
  rcases h'.filled_or_enrols next ht with hfilled | ⟨-, c, henrols, rfl, rfl⟩
  · exact hfilled (hpast ▸ hvacant).of_append
  · exact not_vacant_of_stores hm henrols.stores hvacant

/-- A slot that is not vacant was told `Event.init`. -/
theorem Reached.exists_init (h : r.Reached) (hfilled : ¬ Vacant r.past p slot) :
    ∃ m ∈ r.past, m.Tells p slot .init := by
  obtain ⟨older, m, newer, c, hpast, henrols, rfl, rfl⟩ := exists_enrols_of_not_vacant hfilled
  obtain ⟨r', others, h', rfl, next⟩ := h.moment hpast
  refine ⟨m, by simp [hpast], ?_⟩
  rw [Moment.Tells, Leg.Tells, h'.leg_of_enrols next henrols]
  rfl

/-! ## The answer to the first notification -/

/-- What comes of the answer to `Event.init`. -/
structure Welcomed (older : List (Moment σ)) (m : Moment σ) (c : Attachment σ) (b : Answer) :
    Prop where
  /-- The operation had begun by enrolling the sink, and has done nothing since. -/
  begun : ∃ earlier first since, older = earlier ++ first :: since ∧ first.number = m.number ∧
    first.Enrols earlier c ∧ ∀ m' ∈ since, m'.number ≠ m.number
  /-- Its result is the answer. -/
  result : m.leg.progress = .finished (.settled b.result)
  /-- Nothing changes, whatever the answer is. -/
  same : m.after = m.before

theorem Reached.welcomed (h : r.Reached) (next : r.Next m others) {v : UInt8} {sink : σ}
    (hc : m.call = .register slot p v sink) {w : Waiting σ} {b : Answer}
    (hk : m.cue = some (w, b)) : Welcomed r.past m ⟨p, v, slot, sink⟩ b := by
  cases next with
  | begins => cases hk
  | @resumes f others waits b' =>
    have hf : f ∈ r.pending := by simp [waits]
    obtain ⟨number, call, w'⟩ := f
    obtain rfl : call = .register slot p v sink := hc
    obtain ⟨rfl, rfl⟩ : w' = w ∧ b' = b := by simpa using hk
    have hw : w' = .registering p := by
      have hawaits := h.sound.awaits _ hf
      cases w' with
      | registering q => exact congrArg Waiting.registering hawaits
      | _ => exact hawaits.elim
    subst hw
    obtain ⟨earlier, first, since, n, hpast, hnumber, hcall, hl, hsince⟩ := h.exists_asked hf
    obtain ⟨r', others', h', rfl, next'⟩ := h.moment hpast
    obtain ⟨hk', slot', v', sink', hcall', hempty⟩ :=
      (h'.sound.deed next').vacant_of_registering hl
    obtain ⟨rfl, -, rfl, rfl⟩ : slot = slot' ∧ p = p ∧ v = v' ∧ sink = sink' := by
      simpa using hcall.symm.trans hcall'
    exact ⟨⟨_, first, since, hpast, hnumber,
      h'.enrols_of_register hk' hcall hempty, hsince⟩, rfl, rfl⟩

/-! ## Runs in which nobody broadcasts `Event.init` -/

/-- Whatever an operation is, somebody has called it. -/
theorem call_mem_of_mem_past {preemption : Bool} {moves : List (Move σ)}
    (hm : m ∈ (play preemption moves).past) : .call m.call ∈ moves := by
  induction moves using List.reverseRecOn generalizing m with
  | nil => simp [play, start] at hm
  | append_singleton moves move ih =>
    have hr := reached_play preemption moves
    rw [play, List.foldl_append] at hm
    change m ∈ ((play preemption moves).step move).past at hm
    rw [List.mem_append]
    cases move with
    | call c =>
      rcases List.mem_append.mp hm with hm | hm
      · exact .inl (ih hm)
      · rw [List.mem_singleton.mp hm]
        exact .inr (List.mem_singleton_self _)
    | answer b =>
      left
      cases waits : (play preemption moves).pending with
      | nil =>
        simp only [step, waits] at hm
        exact ih hm
      | cons f others =>
        simp only [step, waits] at hm
        rcases List.mem_append.mp hm with hm | hm
        · exact ih hm
        · -- The operation that goes on has begun at a moment of the past.
          obtain ⟨a, ha⟩ := hr.numbered.begun f (by simp [waits])
          have hbegun := ih (List.mem_of_getElem? ha)
          rw [List.mem_singleton.mp hm]
          exact hbegun

/-- How the slots of a run come by their first notification. -/
structure Enrolled (r : Run σ) : Prop where
  /-- A slot is told `Event.init` when a sink is put into it for the first time, at no other moment,
  -/
  init_iff : ∀ older m newer, r.past = older ++ m :: newer → ∀ p slot,
    m.Tells p slot .init ↔ ∃ c, m.Enrols older c ∧ c.protocol = p ∧ c.slot = slot
  /-- before it is told anything else, -/
  first_iff : ∀ older m newer, r.past = older ++ m :: newer → ∀ p slot,
    m.Tells p slot .init ↔
      (∃ event, m.Tells p slot event) ∧ ∀ m' ∈ older, ∀ event, ¬ m'.Tells p slot event
  /-- and not twice. -/
  once : ∀ older m newer, r.past = older ++ m :: newer → ∀ p slot, m.Tells p slot .init →
    ∀ m' ∈ newer, ¬ m'.Tells p slot .init
  /-- That notification goes to the sink that is put there. -/
  enrols : ∀ older m newer, r.past = older ++ m :: newer → ∀ c, m.Enrols older c →
    m.leg.progress = .notifies ⟨c.protocol, c.slot, c.sink, .init⟩ (.registering c.protocol)
  /-- A later registration of the slot succeeds and notifies nobody. -/
  replaces : ∀ older m newer, r.past = older ++ m :: newer → ∀ c, m.attachment? = some c →
    ¬ Vacant older c.protocol c.slot → m.leg.progress = .finished (.settled (.ok ()))
  /-- The answer to the first notification becomes the result, and changes nothing. -/
  welcomed : ∀ older m newer, r.past = older ++ m :: newer → ∀ slot p v sink,
    m.call = .register slot p v sink → ∀ w b, m.cue = some (w, b) →
    Welcomed older m ⟨p, v, slot, sink⟩ b
  /-- So a registration fails if and only if it was the first of its slot and its sink has answered
  with a fault. -/
  fails_iff : ∀ older m newer, r.past = older ++ m :: newer → ∀ slot p v sink,
    m.call = .register slot p v sink →
    (m.leg.progress = .finished (.settled (.error .callback)) ↔
      (∃ earlier first since, older = earlier ++ first :: since ∧ first.number = m.number ∧
        first.Enrols earlier ⟨p, v, slot, sink⟩) ∧
      ∃ w b, m.cue = some (w, b) ∧ b.word ≠ 0)
  /-- There is no other failure of a registration. -/
  settles : ∀ m ∈ r.past, ∀ slot p v sink, m.call = .register slot p v sink → ∀ result,
    m.leg.progress = .finished result →
    result = .settled (.ok ()) ∨ result = .settled (.error .callback)
  /-- What is registered after any moment depends on the registrations alone: not on what any sink
  has answered. -/
  registry : ∀ older m newer, r.past = older ++ m :: newer →
    m.after.registry = attachAll (attachments (older ++ [m]))

theorem Reached.registry_after (h : r.Reached) (next : r.Next m others) :
    m.after.registry = attachAll (attachments (r.past ++ [m])) :=
  (h.after next).registry_eq

/-- The first thing that a slot is told is `Event.init`. -/
theorem Reached.init_first_iff (h : r.Reached) (next : r.Next m others)
    (hquiet : m.call ≠ .broadcast .init) :
    m.Tells p slot .init ↔
      (∃ event, m.Tells p slot event) ∧ ∀ m' ∈ r.past, ∀ event, ¬ m'.Tells p slot event := by
  constructor
  · intro ht
    refine ⟨⟨_, ht⟩, ?_⟩
    obtain ⟨c, henrols, rfl, rfl⟩ := (h.tells_init_iff next hquiet).mp ht
    exact h.not_tells_of_vacant henrols.vacant
  · rintro ⟨⟨event, ht⟩, hnothing⟩
    rcases h.filled_or_enrols next ht with hfilled | ⟨rfl, -⟩
    · obtain ⟨m', hm', hinit⟩ := h.exists_init hfilled
      exact absurd hinit (hnothing m' hm' _)
    · exact ht

/-- How one leg of a registration ends. -/
theorem Reached.registration_cases (h : r.Reached) (next : r.Next m others) {v : UInt8} {sink : σ}
    (hc : m.call = .register slot p v sink) :
    (m.Enrols r.past ⟨p, v, slot, sink⟩ ∧
        m.leg.progress = .notifies ⟨p, slot, sink, .init⟩ (.registering p)) ∨
      (m.cue = none ∧ m.leg.progress = .finished (.settled (.ok ()))) ∨
      ∃ w b, m.cue = some (w, b) ∧ Welcomed r.past m ⟨p, v, slot, sink⟩ b := by
  cases hk : m.cue with
  | some cue => exact .inr (.inr ⟨cue.1, cue.2, rfl, h.welcomed next hc hk⟩)
  | none =>
    have hstores : m.attachment? = some ⟨p, v, slot, sink⟩ :=
      Moment.attachment?_eq_some_iff.mpr ⟨hk, hc⟩
    by_cases hvacant : Vacant r.past p slot
    · exact .inl ⟨⟨hstores, hvacant⟩, h.leg_of_enrols next ⟨hstores, hvacant⟩⟩
    · exact .inr (.inl ⟨rfl, h.leg_of_not_vacant next hstores hvacant⟩)

theorem Reached.registration_fails_iff (h : r.Reached) (next : r.Next m others) {v : UInt8}
    {sink : σ} (hc : m.call = .register slot p v sink) :
    m.leg.progress = .finished (.settled (.error .callback)) ↔
      (∃ earlier first since, r.past = earlier ++ first :: since ∧ first.number = m.number ∧
        first.Enrols earlier ⟨p, v, slot, sink⟩) ∧
      ∃ w b, m.cue = some (w, b) ∧ b.word ≠ 0 := by
  rcases h.registration_cases next hc with ⟨henrols, hl⟩ | ⟨hk, hl⟩ | ⟨w, b, hk, hwelcomed⟩
  · have hk := (Moment.attachment?_eq_some_iff.mp henrols.stores).1
    simp [hl, hk]
  · simp [hl, hk]
  · obtain ⟨earlier, first, since, hpast, hnumber, henrols, -⟩ := hwelcomed.begun
    have hresult : b.result = .error .callback ↔ b.word ≠ 0 := by
      simp [Answer.result, Answer.isSuccess]
    rw [hwelcomed.result, hk]
    constructor
    · intro hfailed
      refine ⟨⟨earlier, first, since, hpast, hnumber, henrols⟩, w, b, rfl, hresult.mp ?_⟩
      simpa using hfailed
    · rintro ⟨-, w', b', hb, hword⟩
      obtain ⟨rfl, rfl⟩ : w = w' ∧ b = b' := by simpa using hb
      rw [hresult.mpr hword]

/-- **A slot is told `Event.init` once, and first.** It goes to the sink of the first registration.
Whatever that sink answers, the sink stays where it is; the answer decides about the result of the
registration alone. -/
theorem enrolled_play (preemption : Bool) (moves : List (Move σ))
    (quiet : .call (.broadcast .init) ∉ moves) : (play preemption moves).Enrolled := by
  have hreached := reached_play preemption moves
  have hquiet : ∀ m ∈ (play preemption moves).past, m.call ≠ .broadcast .init := by
    intro m hm hc
    exact quiet (hc ▸ call_mem_of_mem_past hm)
  have hmem : ∀ {older m newer}, (play preemption moves).past = older ++ m :: newer →
      m ∈ (play preemption moves).past := fun hpast => by simp [hpast]
  refine ⟨?init_iff, ?first_iff, ?once, ?enrols, ?replaces, ?welcomed, ?fails_iff, ?settles,
    ?registry⟩
  case settles =>
    intro m hm slot p v sink hc result hl
    obtain ⟨r, others, h, next⟩ := hreached.exists_run hm
    rcases h.registration_cases next hc with ⟨-, hl'⟩ | ⟨-, hl'⟩ | ⟨w, b, -, hwelcomed⟩
    · cases hl.symm.trans hl'
    · cases hl.symm.trans hl'
      exact .inl rfl
    · cases hl.symm.trans hwelcomed.result
      unfold Answer.result
      split
      · exact .inl rfl
      · exact .inr rfl
  case once =>
    intro older m newer hpast p slot ht m' hm' ht'
    obtain ⟨mid, newest, rfl⟩ := List.append_of_mem hm'
    rw [← List.cons_append, ← List.append_assoc] at hpast
    obtain ⟨r, others, h, hpast', next⟩ := hreached.moment hpast
    have hfirst := ((h.init_first_iff next (hquiet _ (hmem hpast))).mp ht').2
    exact hfirst m (by simp [hpast']) _ ht
  all_goals
    intro older m newer hpast
    obtain ⟨r, others, h, rfl, next⟩ := hreached.moment hpast
  case init_iff => exact fun p slot => h.tells_init_iff next (hquiet m (hmem hpast))
  case first_iff => exact fun p slot => h.init_first_iff next (hquiet m (hmem hpast))
  case enrols => exact fun c => h.leg_of_enrols next
  case replaces => exact fun c => h.leg_of_not_vacant next
  case welcomed => exact fun slot p v sink hc w b => h.welcomed next hc
  case fails_iff => exact fun slot p v sink => h.registration_fails_iff next
  case registry => exact h.registry_after next

end Run

/-- A sink that is told `Event.init` registers other sinks, one of them for its own slot, and
answers with a fault; later the slot is filled once more. -/
def enrolledFromInside : List (Move Nat) :=
  [.call (.register .arbitration .ant 3 0), .call (.register .arbitration .ant 1 1),
    .call (.register .coexistence .ant 2 2), .answer .success, .answer .fault,
    .call (.register .arbitration .ant 5 3)]

/-- The first sink of each slot is told, the first registration fails, and all sinks and the
priority value of the first one stay. -/
theorem enrolled_play_fromInside :
    .call (.broadcast .init) ∉ enrolledFromInside ∧
      (Run.play true enrolledFromInside).Enrolled ∧
      (Run.play true enrolledFromInside).past.map (fun m => m.leg.progress.told?) =
        [some (.ant, .arbitration, .init), none, some (.ant, .coexistence, .init), none, none,
          none] ∧
      (Run.play true enrolledFromInside).past[4].leg.progress =
        .finished (.settled (.error .callback)) ∧
      (Run.play true enrolledFromInside).arbiter.registry.sink? .ant .arbitration = some 3 ∧
      (Run.play true enrolledFromInside).arbiter.registry.sink? .ant .coexistence = some 2 ∧
      (Run.play true enrolledFromInside).arbiter.registry.priority? .ant = some 3 := by
  have quiet : Move.call (.broadcast .init) ∉ enrolledFromInside := by simp [enrolledFromInside]
  exact ⟨quiet, Run.enrolled_play true enrolledFromInside quiet, rfl, rfl, rfl, rfl, rfl⟩

end SharedRadio.Arbiter
