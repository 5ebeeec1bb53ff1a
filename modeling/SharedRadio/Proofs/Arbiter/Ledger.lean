import SharedRadio.Proofs.Arbiter.Balance
import SharedRadio.Proofs.Arbiter.Offering
import SharedRadio.Proofs.Arbiter.Refusal

/-!
# The ledger of an acquisition

An acquisition that is not refused tells owners to make room, one after the other, until it is
granted the transceiver. Its `Ledger` lists whom it has told, what they have answered, and the
moments of its grants. Operations nested in it have ledgers of their own.

The invariant is `Pressing`: what an acquisition remembers while it waits is made of the answers in
its ledger. Either one owner has not answered, and nothing was granted, or all of them have, and the
transceiver was granted. `Presses` is all that a leg of an acquisition can do, `Bidding.accords`
what this does to the ledger, and `Reached.reckoned` carries it along a run.
-/

namespace SharedRadio.Arbiter

variable {σ : Type}

/-! ## What the owners answer that have to make room -/

/-- The answer of an owner that was told to make room. -/
def Cue.abortAnswer? : Cue σ → Option Answer
  | some (.displacing _ _ _ _, b) => some b
  | _ => none

/-- What the owners have answered that one operation has told to make room, in order. -/
def abortAnswers (k : Nat) (past : List (Moment σ)) : List Answer :=
  past.filterMap fun m => if m.number = k then m.cue.abortAnswer? else none

/-- The moments at which one operation is granted the transceiver, or one more level of it. -/
def grantings (k : Nat) (past : List (Moment σ)) : List (Moment σ) :=
  past.filter fun m => m.number = k && m.grants

/-- What one operation has told the owners, what they have answered, and what was granted to it. -/
structure Ledger (σ : Type) where
  /-- The owners that were told to make room. -/
  warned : List Protocol
  /-- What they have answered. -/
  answers : List Answer
  /-- The moments of the grants. -/
  grants : List (Moment σ)

/-- The ledger of one operation. -/
def ledger (k : Nat) (past : List (Moment σ)) : Ledger σ :=
  ⟨notified k .arbitration .abort past, abortAnswers k past, grantings k past⟩

section

variable {k : Nat} {past : List (Moment σ)} {m : Moment σ}

theorem abortAnswers_append (hm : m.number = k) :
    abortAnswers k (past ++ [m]) = abortAnswers k past ++ m.cue.abortAnswer?.toList := by
  subst hm
  cases h : m.cue.abortAnswer? <;> simp [abortAnswers, h]

theorem grantings_append (hm : m.number = k) :
    grantings k (past ++ [m]) = grantings k past ++ if m.grants then [m] else [] := by
  subst hm
  cases h : m.grants <;> simp [grantings, h]

theorem ledger_append_of_ne (hm : m.number ≠ k) : ledger k (past ++ [m]) = ledger k past := by
  simp [ledger, abortAnswers, grantings, notified_append_of_ne hm, hm]

/-- Before it has begun, an operation has nothing in its ledger. -/
theorem ledger_eq_nil (hfresh : ∀ m ∈ past, m.number ≠ k) : ledger k past = ⟨[], [], []⟩ := by
  simp only [ledger, notified, abortAnswers, grantings, Ledger.mk.injEq]
  refine ⟨?_, ?_, ?_⟩
  · exact List.filterMap_eq_nil_iff.mpr fun m hm => if_neg (hfresh m hm)
  · exact List.filterMap_eq_nil_iff.mpr fun m hm => if_neg (hfresh m hm)
  · exact List.filter_eq_nil_iff.mpr fun m hm => by simp [hfresh m hm]

end

/-! ## One leg of an acquisition -/

/-- What a leg of an acquisition does that was not refused, when the owners told to make room have
given some answers. -/
inductive Presses (a : Arbiter σ) (p : Protocol) (answers : List Answer) :
    Cue σ → Leg σ → Prop where
  /-- Its protocol becomes the owner and is told so. -/
  | seizes {k : Cue σ} {sink : σ} {records : List Record} (bids : Bids a p sink k) :
      Presses a p answers k
        ⟨{ a with owner := some p, depth := 1 }, records,
          .notifies ⟨p, .arbitration, sink, .active⟩ (.activating p (faultedOf answers))⟩
  /-- Its protocol is the owner and is given one more level. -/
  | nests {k : Cue σ} {sink : σ} {records : List Record} (bids : Bids a p sink k) :
      Presses a p answers k
        ⟨{ a with depth := a.depth + 1 }, records,
          .finished (.settled (verdict (faultedOf answers)))⟩
  /-- An owner is told to make room. -/
  | warns {k : Cue σ} {sink ownerSink : σ} {q : Protocol} {records : List Record}
      (bids : Bids a p sink k) :
      Presses a p answers k
        ⟨a, records, .notifies ⟨q, .arbitration, ownerSink, .abort⟩
          (.displacing p sink q (faultedOf answers))⟩
  /-- The new owner has answered, no matter what. -/
  | concludes {faulted : Bool} {b : Answer} {records : List Record} :
      Presses a p answers (some (.activating p faulted, b))
        ⟨a, records, .finished (.settled (verdict (faultedOf answers)))⟩

/-- How an acquisition stands that waits for an answer, by its ledger. -/
inductive Pressing (l : Ledger σ) : Waiting σ → Prop where
  /-- The owner that was told last has not answered, and nothing was granted. -/
  | warns {p told : Protocol} {sink : σ} (asked : l.warned.length = l.answers.length + 1)
      (ungranted : l.grants = []) : Pressing l (.displacing p sink told (faultedOf l.answers))
  /-- All owners that were told have answered, and the transceiver was granted. -/
  | activates {p : Protocol} (answered : l.answers.length = l.warned.length)
      (granted : ∃ m, l.grants = [m]) : Pressing l (.activating p (faultedOf l.answers))

/-- What an acquisition has come to that is over, by its ledger. -/
structure Pressed (l : Ledger σ) (result : Result) : Prop where
  /-- The result is made of the answers. -/
  outcome : result = .settled (verdict (faultedOf l.answers))
  /-- All owners that were told have answered. -/
  answered : l.answers.length = l.warned.length
  /-- It was granted once. -/
  granted : ∃ m, l.grants = [m]

/-- The end of a leg of an acquisition accords with its ledger. -/
def Progress.Accords (l : Ledger σ) : Progress σ → Prop
  | .finished result => Pressed l result
  | .notifies _ w => Pressing l w

section

variable {a : Arbiter σ} {p q : Protocol} {force : Bool} {answers : List Answer}

theorem presses_displace {k : Cue σ} {sink : σ} (records : List Record)
    (bids : Bids a p sink k) :
    Presses a p answers k (a.displace records p sink q (faultedOf answers)) := by
  unfold displace
  split
  · exact .warns bids
  · exact .seizes bids

/-- An acquisition that is not refused begins with a grant, or tells an owner to make room. -/
theorem presses_acquire (ha : a.registry.Sound)
    (howner : ∀ q, a.owner = some q → (a.sink? q).isSome)
    (hnot : ∀ fault, ¬ Refusal a (.acquire p force) fault) :
    Presses a p [] none (a.acquire p force) := by
  unfold acquire
  split
  · next absent => exact absurd ((refusal_invalidParameter_iff rfl).mpr absent) (hnot _)
  · next sink present =>
    have hp : (a.sink? p).isSome := by simp [present]
    split
    · exact .seizes present
    · next q owner =>
      split
      · exact .nests present
      · next other =>
        split
        · exact presses_displace [.preempts p q] present
        · next hrefused =>
          rw [mayDisplace_iff ha hp (howner q owner), not_or] at hrefused
          exact absurd (refusal_acquire_denied_iff.mpr
            ⟨hp, by simpa using hrefused.1, q, owner, other, hrefused.2⟩) (hnot _)

/-- When an owner that was told to make room has answered, the answer counts. -/
theorem presses_displaced {sink : σ} {told : Protocol} {faulted : Bool} (b : Answer) :
    Presses a p answers (some (.displacing p sink told faulted, b))
      (a.displaced p sink told (faultedOf answers)) := by
  have bids : Bids a p sink (some (.displacing p sink told faulted, b)) := ⟨told, faulted, rfl⟩
  unfold displaced
  split
  · exact .seizes bids
  · split
    · exact .nests bids
    · split
      · exact .seizes bids
      · exact presses_displace _ bids

/-- An acquisition that has waited goes on with one answer more, if an owner has answered that was
told to make room. -/
theorem Pressing.presses {l : Ledger σ} {w : Waiting σ} (h : Pressing l w)
    (hawaits : (Call.acquire p force).Awaits w) (b : Answer) :
    Presses a p (l.answers ++ (Cue.abortAnswer? (some (w, b))).toList) (some (w, b))
      (a.resume w b) := by
  cases h with
  | warns asked ungranted =>
    obtain rfl := hawaits
    rw [resume, or_faultedOf rfl b]
    exact presses_displaced b
  | activates answered granted =>
    obtain rfl := hawaits
    simp only [Cue.abortAnswer?, Option.toList_none, List.append_nil]
    exact .concludes

end

/-! ## The moments of an acquisition -/

/-- A moment of an acquisition that begins, or goes on when it has been answered. -/
structure Bidding (past : List (Moment σ)) (m : Moment σ) (p : Protocol) : Prop where
  presses : Presses m.before p (abortAnswers m.number (past ++ [m])) m.cue m.leg
  /-- All owners that were told to make room have answered. -/
  answered : (abortAnswers m.number (past ++ [m])).length =
    (notified m.number .arbitration .abort past).length
  /-- Nothing was granted before, if the acquisition is still to be decided. -/
  ungranted : (∃ sink, Bids m.before p sink m.cue) → grantings m.number past = []
  /-- Otherwise it was granted. -/
  granted : (∃ faulted b, m.cue = some (.activating p faulted, b)) →
    ∃ m', grantings m.number past = [m']

/-- **A leg of an acquisition keeps the account**: an owner more is to answer, or the transceiver is
granted, or the acquisition is over. -/
theorem Bidding.accords {past : List (Moment σ)} {m : Moment σ} {p : Protocol} {force : Bool}
    (h : Bidding past m p) (hc : m.call = .acquire p force) :
    m.leg.progress.Accords (ledger m.number (past ++ [m])) := by
  obtain ⟨presses, answered, ungranted, granted⟩ := h
  have hgrantings : grantings m.number (past ++ [m]) =
      grantings m.number past ++ if m.grants then [m] else [] := grantings_append rfl
  have hgrants : m.grants = grants (.acquire p force) m.cue m.leg.progress := by
    rw [Moment.grants, hc]
  have hwarned : ∀ q, m.Tells q .arbitration .abort →
      notified m.number .arbitration .abort (past ++ [m]) = _ := fun q ht =>
    notified_append_of_tells rfl ht
  have hquiet : (∀ q, ¬ m.Tells q .arbitration .abort) →
      notified m.number .arbitration .abort (past ++ [m]) = _ := notified_append_of_not_tells
  -- What the leg answers for has been counted, so that only its end matters from here on.
  unfold Moment.Tells at hwarned hquiet
  unfold ledger
  generalize abortAnswers m.number (past ++ [m]) = answers at *
  generalize m.leg = l at *
  generalize m.cue = k at *
  cases presses with
  | seizes bids =>
    rw [grants_of_bids bids] at hgrants
    rw [hgrants, ungranted ⟨_, bids⟩] at hgrantings
    rw [hquiet fun q => by simp [Leg.Tells]]
    exact .activates answered ⟨m, hgrantings⟩
  | nests bids =>
    rw [grants_of_bids bids, isGrant_verdict] at hgrants
    rw [hgrants, ungranted ⟨_, bids⟩] at hgrantings
    rw [hquiet fun q => by simp [Leg.Tells]]
    exact ⟨rfl, answered, m, hgrantings⟩
  | @warns _ _ _ q _ bids =>
    rw [grants_of_bids bids] at hgrants
    rw [hgrants, ungranted ⟨_, bids⟩] at hgrantings
    rw [hwarned q rfl]
    refine .warns ?_ hgrantings
    rw [List.length_append, answered, List.length_singleton]
  | concludes =>
    obtain ⟨m', hm'⟩ := granted ⟨_, _, rfl⟩
    rw [hgrants, hm'] at hgrantings
    rw [hquiet fun q => by simp [Leg.Tells]]
    exact ⟨rfl, answered, m', hgrantings⟩

/-- An acquisition that has waited goes on by its ledger. -/
theorem Pressing.bidding {k : Nat} {past : List (Moment σ)} {w : Waiting σ} {p : Protocol}
    {force : Bool} (h : Pressing (ledger k past) w) (hawaits : (Call.acquire p force).Awaits w)
    (b : Answer) (a : Arbiter σ) : Bidding past ⟨k, .acquire p force, some (w, b), a⟩ p := by
  have hanswers : abortAnswers k (past ++ [⟨k, .acquire p force, some (w, b), a⟩]) =
      abortAnswers k past ++ (Cue.abortAnswer? (some (w, b))).toList :=
    abortAnswers_append rfl
  constructor
  case presses =>
    rw [hanswers]
    exact h.presses hawaits b
  case answered =>
    rw [hanswers, List.length_append]
    cases h with
    | warns asked => exact asked.symm
    | activates answered => exact answered
  case ungranted =>
    rintro ⟨sink, told, faulted, rfl⟩
    cases h with
    | warns _ ungranted => exact ungranted
  case granted =>
    rintro ⟨faulted, b', hcue⟩
    cases hcue
    cases h with
    | activates _ granted => exact granted

namespace Run

variable {r : Run σ} {m : Moment σ} {others : List (Pending σ)} {k : Nat} {p : Protocol}
  {force : Bool} {first : Arbiter σ}

/-! ## Acquisitions in a run -/

/-- An acquisition that is not refused begins with nothing in its ledger. -/
theorem Reached.bidding_of_begins (h : r.Reached)
    (hnot : ∀ fault, ¬ Refusal r.arbiter (.acquire p force) fault) :
    Bidding r.past ⟨r.past.length, .acquire p force, none, r.arbiter⟩ p := by
  have hnil : ledger r.past.length r.past = ⟨[], [], []⟩ :=
    ledger_eq_nil fun m hm => (h.numbered.moment m hm).lt.ne
  obtain ⟨hwarned, hanswers, hgrants⟩ := Ledger.mk.inj hnil
  have hstill : abortAnswers r.past.length
      (r.past ++ [⟨r.past.length, .acquire p force, none, r.arbiter⟩]) = [] := by
    refine (abortAnswers_append ?_).trans ?_
    · rfl
    · rw [hanswers]
      rfl
  constructor
  case presses =>
    rw [hstill]
    exact presses_acquire h.sound.registry h.sound.owner hnot
  case answered =>
    rw [hstill, hwarned]
    rfl
  case ungranted => exact fun _ => hgrants
  case granted => rintro ⟨-, -, ⟨⟩⟩

/-- The moment that comes next in an acquisition that was not refused. -/
theorem Reached.bidding (h : r.Reached) (next : r.Next m others)
    (hk : (r.past ++ [m])[m.number]? = some ⟨m.number, .acquire p force, none, first⟩)
    (hnot : ∀ fault, ¬ Refusal first (.acquire p force) fault)
    (hpressing : ∀ f ∈ r.pending, f.number = m.number →
      Pressing (ledger f.number r.past) f.waiting) :
    m.call = .acquire p force ∧ Bidding r.past m p := by
  have hcall : m.call = .acquire p force :=
    (h.numbered.begun_of_next next).unique ⟨first, hk⟩
  refine ⟨hcall, ?_⟩
  cases next with
  | begins c =>
    obtain rfl : c = .acquire p force := hcall
    obtain rfl : r.arbiter = first := by simpa using hk
    exact h.bidding_of_begins hnot
  | @resumes f others waits b =>
    have hf : f ∈ r.pending := by simp [waits]
    have hcall : f.call = .acquire p force := hcall
    have hawaits := h.sound.awaits f hf
    rw [hcall] at hawaits ⊢
    exact (hpressing f hf rfl).bidding hawaits b r.arbiter

/-- An acquisition stands by its ledger as long as it waits, and when it is over. -/
structure Reckoned (r : Run σ) (k : Nat) : Prop where
  waits : ∀ f ∈ r.pending, f.number = k → Pressing (ledger k r.past) f.waiting
  ended : ∀ m ∈ r.past, m.number = k → ∀ result, m.leg.progress = .finished result →
    Pressed (ledger k r.past) result

/-- A moment of another operation changes nothing about this. -/
theorem Reckoned.keep (hr : r.Reckoned k) (next : r.Next m others) (hne : m.number ≠ k) :
    (r.after m others).Reckoned k := by
  have hledger : ledger k (r.after m others).past = ledger k r.past := ledger_append_of_ne hne
  constructor
  case waits =>
    rw [hledger]
    intro f hf hnumber
    rcases mem_pending_after hf with hf | ⟨n, w, -, rfl⟩
    · exact hr.waits f (next.others_subset hf) hnumber
    · exact absurd hnumber hne
  case ended =>
    rw [hledger]
    intro m' hm' hnumber
    exact hr.ended m' (mem_past_of_number_ne hm' (hnumber ▸ Ne.symm hne)) hnumber

/-- A moment of the acquisition itself is the last one so far, and all that counts. -/
theorem Reached.reckoned_after (h : r.Reached) (next : r.Next m others)
    (haccords : m.leg.progress.Accords (ledger m.number (r.past ++ [m]))) :
    (r.after m others).Reckoned m.number := by
  constructor
  case waits =>
    intro f hf hnumber
    rcases mem_pending_after hf with hf | ⟨n, w, hl, rfl⟩
    · exact absurd hnumber (h.numbered.lt_of_next next hf).ne
    · rwa [hl] at haccords
  case ended =>
    intro m' hm' hnumber result hl
    rcases List.mem_append.mp hm' with hold | hnew
    · exact absurd hnumber.symm (h.number_ne_of_next next hold hl)
    · obtain rfl := List.mem_singleton.mp hnew
      rwa [hl] at haccords

/-- **What an acquisition remembers, and what it comes to, is made of what was answered to it by
owners that had to make room**, if it was not refused. -/
theorem Reached.reckoned (h : r.Reached)
    (hk : r.past[k]? = some ⟨k, .acquire p force, none, first⟩)
    (hnot : ∀ fault, ¬ Refusal first (.acquire p force) fault) : r.Reckoned k := by
  induction h with
  | start => simp [Run.start] at hk
  | @after r m others h next ih =>
    by_cases hm : m.number = k
    · subst hm
      -- Either it waited, with its ledger in order, or it begins now.
      have hpending : ∀ f ∈ r.pending, f.number = m.number →
          Pressing (ledger f.number r.past) f.waiting := by
        intro f hf hnumber
        rcases getElem?_append_singleton hk with hold | ⟨hnew, -⟩
        · exact hnumber ▸ (ih hold).waits f hf hnumber
        · exact absurd (hnumber.trans hnew) (h.numbered.begun f hf).lt.ne
      obtain ⟨hcall, hbidding⟩ := h.bidding next hk hnot hpending
      exact h.reckoned_after next (hbidding.accords hcall)
    · have hold : r.past[k]? = some ⟨k, .acquire p force, none, first⟩ :=
        (getElem?_append_singleton hk).resolve_right fun hnew =>
          hm (congrArg Moment.number hnew.2).symm
      exact (ih hold).keep next hm

end Run

end SharedRadio.Arbiter
