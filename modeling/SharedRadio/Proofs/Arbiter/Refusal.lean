import SharedRadio.Proofs.Arbiter.Displacement

/-!
# What is refused

An acquisition or a release can be refused, at once and on grounds that lie in the arbiter as it is
then; `Refusal` lists them. A refusal has no effect: the operation is over, nobody is told of it,
and the arbiter is left as it was (`Reached.refused`).

Nothing is refused later on. So it is enough to know the verdict of what is not refused, to tell
what an operation comes to (`Reached.decides`).
-/

namespace SharedRadio.Arbiter

variable {σ : Type}

/-! ## Grounds for a refusal -/

/-- The protocol that asks for the transceiver, or wants to give it up. -/
def Call.bidder? : Call σ → Option Protocol
  | .acquire p _ | .release p => some p
  | _ => none

/-- Why the transceiver, or its surrender, is refused to a protocol that asks for it. -/
inductive Refusal (a : Arbiter σ) : Call σ → Fault → Prop where
  /-- The protocol has no sink. -/
  | unknown {c : Call σ} {p : Protocol} (bid : c.bidder? = some p) (absent : a.sink? p = none) :
      Refusal a c .invalidParameter
  /-- Another protocol owns the transceiver, and does not have to make room. -/
  | unentitled {p q : Protocol} (present : (a.sink? p).isSome) (owner : a.owner = some q)
      (other : q ≠ p) (weak : ¬ a.Entitles p q) : Refusal a (.acquire p false) .denied
  /-- Another protocol owns the transceiver. -/
  | stranger {p q : Protocol} (present : (a.sink? p).isSome) (owner : a.owner = some q)
      (other : q ≠ p) : Refusal a (.release p) .denied

section

variable {a : Arbiter σ} {c : Call σ} {p q : Protocol} {force : Bool} {fault : Fault}

theorem refusal_invalidParameter_iff (hc : c.bidder? = some p) :
    Refusal a c .invalidParameter ↔ a.sink? p = none := by
  constructor
  · rintro (⟨bid, absent⟩)
    rwa [Option.some.inj (hc.symm.trans bid)]
  · exact .unknown hc

theorem refusal_acquire_denied_iff :
    Refusal a (.acquire p force) .denied ↔
      (a.sink? p).isSome ∧ force = false ∧ ∃ q, a.owner = some q ∧ q ≠ p ∧ ¬ a.Entitles p q := by
  constructor
  · rintro (_ | ⟨present, owner, other, weak⟩)
    exact ⟨present, rfl, _, owner, other, weak⟩
  · rintro ⟨present, rfl, q, owner, other, weak⟩
    exact .unentitled present owner other weak

theorem refusal_release_denied_iff :
    Refusal a (.release p) .denied ↔ (a.sink? p).isSome ∧ ∃ q, a.owner = some q ∧ q ≠ p := by
  constructor
  · rintro (_ | _ | ⟨present, owner, other⟩)
    exact ⟨present, _, owner, other⟩
  · rintro ⟨present, q, owner, other⟩
    exact .stranger present owner other

/-- The check that is made when an acquisition begins asks for force or for the permission. -/
theorem mayDisplace_iff (ha : a.registry.Sound) (hp : (a.sink? p).isSome)
    (hq : (a.sink? q).isSome) : a.mayDisplace p q force ↔ force = true ∨ a.Entitles p q := by
  cases force with
  | true => simp [mayDisplace]
  | false =>
    refine ⟨fun h => .inr (entitles_of_mayDisplace ha hp hq h), ?_⟩
    rintro (hforce | ⟨enabled, v, w, hv, hw, hless⟩)
    · cases hforce
    · simpa [mayDisplace, enabled, Registry.rank, hv, hw] using hless

/-- What is refused is over at once, and leaves everything as it was. -/
theorem Refusal.call_eq (h : Refusal a c fault) (ha : a.registry.Sound)
    (howner : ∀ q, a.owner = some q → (a.sink? q).isSome) :
    ∃ records, a.call c = a.finish records (.error fault) := by
  cases h with
  | unknown bid absent =>
    refine ⟨[], ?_⟩
    cases c with
    | acquire p' force =>
      obtain rfl := Option.some.inj bid
      simp only [call, acquire, absent]
    | release p' =>
      obtain rfl := Option.some.inj bid
      simp only [call, release, absent]
    | _ => cases bid
  | @unentitled p q present owner other weak =>
    obtain ⟨sink, hsink⟩ := Option.isSome_iff_exists.mp present
    have hrefused : ¬ a.mayDisplace p q false := fun h =>
      weak (((mayDisplace_iff ha present (howner q owner)).mp h).resolve_left nofun)
    exact ⟨_, by simp only [call, acquire, hsink, owner, other, hrefused, if_false]; rfl⟩
  | @stranger p q present owner other =>
    obtain ⟨sink, hsink⟩ := Option.isSome_iff_exists.mp present
    exact ⟨_, by simp only [call, release, hsink, owner, other, if_false]; rfl⟩

end

namespace Run

variable {r : Run σ} {k : Nat} {c : Call σ} {first : Arbiter σ} {fault : Fault}

/-! ## Refusals in a run -/

/-- An operation is over, and has come to a result. -/
def ComesTo (r : Run σ) (k : Nat) (result : Except Fault Unit) : Prop :=
  ∃ m ∈ r.past, m.number = k ∧ m.leg.progress = .finished (.settled result)

/-- An operation was over as soon as it began. It has told nobody, and has left an arbiter as it
was. -/
def LeavesAlone (r : Run σ) (k : Nat) (first : Arbiter σ) : Prop :=
  ∀ m ∈ r.past, m.number = k → m.before = first ∧ m.after = first ∧
    ∃ result, m.leg.progress = .finished result

/-- The arbiter at which an operation began was in order. -/
theorem Reached.sound_of_begun (h : r.Reached) (hk : r.past[k]? = some ⟨k, c, none, first⟩) :
    first.registry.Sound ∧ ∀ q, first.owner = some q → (first.sink? q).isSome := by
  obtain ⟨r', others, h', next⟩ := h.exists_run (List.mem_of_getElem? hk)
  obtain rfl : first = r'.arbiter := next.before_eq
  exact ⟨h'.sound.registry, h'.sound.owner⟩

/-- What is refused comes to nothing but that. -/
theorem Reached.refused (h : r.Reached) (hk : r.past[k]? = some ⟨k, c, none, first⟩)
    (hrefusal : Refusal first c fault) :
    r.LeavesAlone k first ∧ ∀ result, r.ComesTo k result ↔ result = .error fault := by
  obtain ⟨hsound, howner⟩ := h.sound_of_begun hk
  obtain ⟨records, hcall⟩ := hrefusal.call_eq hsound howner
  have hleg : (⟨k, c, none, first⟩ : Moment σ).leg = first.finish records (.error fault) := hcall
  have honly := h.eq_of_finished hk (congrArg Leg.progress hleg)
  constructor
  · intro m hm hnumber
    rw [honly m hm hnumber, Moment.after, hleg]
    exact ⟨rfl, rfl, _, rfl⟩
  · refine fun result => ⟨?_, ?_⟩
    · rintro ⟨m, hm, hnumber, hl⟩
      rw [honly m hm hnumber, hleg] at hl
      cases hl
      rfl
    · rintro rfl
      exact ⟨_, List.mem_of_getElem? hk, rfl, congrArg Leg.progress hleg⟩

/-- An operation is refused on its grounds, or comes to a verdict, by whether somebody faulted. -/
structure Decides (r : Run σ) (k : Nat) (c : Call σ) (first : Arbiter σ) (faulted : Bool) :
    Prop where
  refusal_iff : ∀ fault, fault ≠ .callback →
    (r.ComesTo k (.error fault) ↔ Refusal first c fault)
  refused : r.ComesTo k (.error .invalidParameter) ∨ r.ComesTo k (.error .denied) →
    r.LeavesAlone k first
  waits : (∃ f ∈ r.pending, f.number = k) ∨ ∃ result, r.ComesTo k result
  verdict_eq : ∀ result, r.ComesTo k result → result ≠ .error .invalidParameter →
    result ≠ .error .denied →
      (∀ fault, ¬ Refusal first c fault) ∧ result = verdict faulted

theorem Reached.decides_of_refusal (h : r.Reached)
    (hk : r.past[k]? = some ⟨k, c, none, first⟩) (hrefusal : Refusal first c fault)
    (faulted : Bool) : r.Decides k c first faulted := by
  obtain ⟨hleaves, hresult⟩ := h.refused hk hrefusal
  constructor
  case refusal_iff =>
    intro fault' _
    constructor
    · intro hcomes
      obtain rfl : fault' = fault := Except.error.inj ((hresult _).mp hcomes)
      exact hrefusal
    · exact fun hrefusal' => ((h.refused hk hrefusal').2 _).mpr rfl
  case refused => exact fun _ => hleaves
  case waits => exact .inr ⟨_, (hresult _).mpr rfl⟩
  case verdict_eq =>
    intro result hcomes hvalid hpermitted
    obtain rfl := (hresult _).mp hcomes
    cases hrefusal <;> contradiction

theorem Reached.decides_of_verdict (h : r.Reached)
    (hk : r.past[k]? = some ⟨k, c, none, first⟩) (hnot : ∀ fault, ¬ Refusal first c fault)
    {faulted : Bool} (hverdict : ∀ m ∈ r.past, m.number = k → ∀ result,
      m.leg.progress = .finished result → result = .settled (verdict faulted)) :
    r.Decides k c first faulted := by
  have heq : ∀ result, r.ComesTo k result → result = verdict faulted := by
    rintro result ⟨m, hm, hnumber, hl⟩
    exact Result.settled.inj (hverdict m hm hnumber _ hl)
  have hfault : ∀ fault, fault ≠ .callback → ¬ r.ComesTo k (.error fault) := fun fault hne hcomes =>
    hne (verdict_eq_error_iff.mp (heq _ hcomes).symm).2
  constructor
  case refusal_iff => exact fun fault hne => iff_of_false (hfault fault hne) (hnot fault)
  case refused =>
    exact fun hcomes => (hcomes.elim (hfault _ (by decide)) (hfault _ (by decide))).elim
  case waits =>
    refine (h.pending_or_finished (List.mem_of_getElem? hk)).imp_right ?_
    rintro ⟨m, hm, hnumber, result, hl⟩
    exact ⟨_, m, hm, hnumber, hverdict m hm hnumber result hl ▸ hl⟩
  case verdict_eq => exact fun result hcomes _ _ => ⟨hnot, heq result hcomes⟩

/-- It is enough to know what an operation comes to if it is not refused. -/
theorem Reached.decides (h : r.Reached) (hk : r.past[k]? = some ⟨k, c, none, first⟩)
    {faulted : Bool} (hverdict : (∀ fault, ¬ Refusal first c fault) →
      ∀ m ∈ r.past, m.number = k → ∀ result, m.leg.progress = .finished result →
        result = .settled (verdict faulted)) : r.Decides k c first faulted := by
  by_cases hnot : ∀ fault, ¬ Refusal first c fault
  · exact h.decides_of_verdict hk hnot (hverdict hnot)
  · push Not at hnot
    obtain ⟨fault, hrefusal⟩ := hnot
    exact h.decides_of_refusal hk hrefusal faulted

end Run

end SharedRadio.Arbiter
