import SharedRadio.Proofs.Arbiter.Tour

/-!
# Which protocols an operation comes by

A cursor that goes along the priority chain comes by every protocol of a stretch of it, also by
those that it does not stop for. `Moment.stretch` is that stretch for one leg: a walk goes on until
it has found somebody to tell, or an owner to whom it yields; and the first sink of a protocol is
linked by a cursor that looks for its place. Neither looks at anything else (`findSome?_stretch`,
`Chained.place_stretch`). `visited` puts together what an operation comes by in all its legs.

While an operation waits, the chain may grow in front of its cursor. Still it comes by no protocol
twice, and by no more than there are: what it has come by stands in the chain in that order
(`Reached.visited_sublist`), because it goes on behind the protocol that it was at. And nothing but
the end of the chain ends a walk that finds nobody. The number of steps that `Registry.walk` and
`Registry.place` are allowed is never used up (`Reached.walk_eq`, `Reached.place_eq`).
-/

namespace SharedRadio

namespace Registry

variable {σ : Type} {r : Registry σ} {visited gap rest : List Protocol} {start : Option Protocol}
  {stop : Protocol → Bool} {p : Protocol}

/-- The part of the chain that a cursor comes by, from a starting point to the first protocol at
which it stops, that one included. -/
def stretch (r : Registry σ) (stop : Protocol → Bool) (start : Option Protocol) : List Protocol :=
  (r.chainFrom start).take ((r.chainFrom start).findIdx stop + 1)

theorem stretch_sublist : (r.stretch stop start).Sublist (r.chainFrom start) :=
  List.take_sublist _ _

theorem length_walk_le (r : Registry σ) (n : Nat) (start : Option Protocol) :
    (r.walk n start).length ≤ n := by
  induction n generalizing start with
  | zero => exact Nat.le_refl 0
  | succ n ih =>
    cases start with
    | none => exact Nat.zero_le _
    | some p => exact Nat.succ_le_succ (ih _)

/-- A cursor ends at the first protocol at which it stops. -/
theorem getLast?_stretch (hsplit : r.chainFrom start = gap ++ p :: rest)
    (hgap : ∀ q ∈ gap, stop q = false) (hp : stop p = true) :
    (r.stretch stop start).getLast? = some p := by
  have hindex : (gap ++ p :: rest).findIdx stop = gap.length := by
    rw [List.findIdx_append, if_neg, List.findIdx_cons, hp, cond_true, Nat.zero_add]
    rw [Nat.not_lt, List.findIdx_eq_length_of_false hgap]
  rw [stretch, hsplit, hindex, List.take_length_add_append]
  simp

/-- A search in a list ends at the first place where something is found. -/
theorem findSome?_take_findIdx {α β : Type} (f : α → Option β) (l : List α) :
    (l.take (l.findIdx (fun x => (f x).isSome) + 1)).findSome? f = l.findSome? f := by
  induction l with
  | nil => rfl
  | cons x l ih =>
    rw [List.findIdx_cons]
    cases hx : f x with
    | some y => simp [hx]
    | none => simpa [hx] using ih

/-- So does the split of a list at the first place where a property fails. -/
theorem takeWhile_take_findIdx {α : Type} (f : α → Bool) (l : List α) :
    (l.take (l.findIdx (fun x => !f x) + 1)).takeWhile f = l.takeWhile f ∧
      ((l.take (l.findIdx (fun x => !f x) + 1)).dropWhile f).head? = (l.dropWhile f).head? := by
  induction l with
  | nil => exact ⟨rfl, rfl⟩
  | cons x l ih =>
    rw [List.findIdx_cons]
    cases hx : f x with
    | true => simpa [hx] using ih
    | false => simp [hx]

/-- To find the next sink, a walk looks at no protocol but those that it comes by. -/
theorem findSome?_stretch (r : Registry σ) (slot : Slot) (passOver start : Option Protocol) :
    (r.stretch (fun p => decide (passOver ≠ some p) && (r.sink? p slot).isSome) start).findSome?
        (fun p => if passOver = some p then none else (r.sink? p slot).map fun sink => (p, sink)) =
      r.firstSink? slot passOver start := by
  have hstop : (fun p => decide (passOver ≠ some p) && (r.sink? p slot).isSome) = fun p =>
      (if passOver = some p then none
        else (r.sink? p slot).map fun sink => (p, sink)).isSome := by
    funext p
    split <;> simp [*]
  rw [stretch, hstop, findSome?_take_findIdx, firstSink?]

/-- To find the place of a newcomer, a registration looks at no protocol but those that it comes by.
-/
theorem Chained.place_stretch (h : r.Chained) (v : UInt8) :
    r.place v Protocol.count none r.head =
      (((r.stretch (fun p => v ≤ r.rank p) r.head).takeWhile (r.rank · < v)).getLast?,
        ((r.stretch (fun p => v ≤ r.rank p) r.head).dropWhile (r.rank · < v)).head?) := by
  have hstop : (fun p => decide (v ≤ r.rank p)) = fun p => !decide (r.rank p < v) := by
    funext p
    rw [← decide_not, decide_eq_decide, UInt8.not_lt]
  obtain ⟨htake, hdrop⟩ := takeWhile_take_findIdx (r.rank · < v) r.chain
  rw [stretch, hstop]
  rw [chain] at htake hdrop
  rw [htake, hdrop, place_eq r v h.path (length_le_count h.nodup), Option.or_none]
  rfl

/-- What a walk meets that goes on behind some protocols is all that the links lead to from there.
-/
theorem Chained.path_chainFrom (h : r.Chained) (hv : visited.Sublist r.chain) :
    r.Path (r.startAfter visited.getLast?) (r.chainFrom (r.startAfter visited.getLast?)) none := by
  obtain ⟨front, hchain, -, hlast⟩ := h.exists_front_of_visited hv
  have hpath := h.path
  rw [hchain] at hpath
  obtain ⟨middle, hfront, hback⟩ := path_append.mp hpath
  suffices hmiddle : middle = r.startAfter visited.getLast? by rwa [← hmiddle] at hback ⊢
  rw [← hlast]
  rcases List.eq_nil_or_concat front with rfl | ⟨init, q, rfl⟩
  · exact hfront.symm
  · rw [List.concat_eq_append] at hfront ⊢
    obtain ⟨_, -, -, hnext⟩ := path_append.mp hfront
    rw [List.getLast?_concat]
    exact hnext.symm

end Registry

namespace Arbiter

variable {σ : Type}

/-! ## The stretch of a leg -/

namespace Moment

/-- The place in the chain from which a leg sets out, if it goes along the chain. -/
def start? (m : Moment σ) : Option (Option Protocol) :=
  match m.call, m.cue with
  | .register slot p _ _, none =>
    if m.before.registry.sink? p slot = none ∧ m.before.registry.priority? p = none then
      some m.before.registry.head
    else none
  | .release p, none =>
    if m.before.owner = none ∧ (m.before.sink? p).isSome then some m.before.registry.head else none
  | .offer _, none | .broadcast _, none | .inactivity _, none
  | .release _, some (.releasing _, _) => some m.before.registry.head
  | _, some (w, _) => w.visited?.map m.before.registry.next?
  | _, none => none

/-- A leg that goes along the chain stops at a protocol: a newcomer is put in front of it, or it is
to be told, or the leg yields to an owner. -/
def stops (m : Moment σ) (p : Protocol) : Bool :=
  match m.call with
  | .register _ _ v _ => v ≤ m.before.registry.rank p
  | c =>
    match c.errand? with
    | some e => e.yields && m.before.owner.isSome ||
        decide (e.passOver ≠ some p) && (m.before.registry.sink? p e.slot).isSome
    | none => false

/-- The part of the chain that a leg comes by. -/
def stretch (m : Moment σ) : List Protocol :=
  m.start?.elim [] (m.before.registry.stretch m.stops)

variable {m : Moment σ} {e : Errand} {w : Waiting σ} {b : Answer} {q : Protocol}

theorem start?_of_opens (hopens : m.Opens) : m.start? = some m.before.registry.head := by
  obtain ⟨number, c, k, a⟩ := m
  unfold Opens at hopens
  dsimp only at hopens
  split at hopens
  case h_4 => exact if_pos hopens
  case h_6 => cases hopens
  all_goals rfl

/-- A leg that answers to a walk sets out behind the protocol that was told last. -/
theorem start?_of_visited (hcue : m.cue = some (w, b)) (hvisited : w.visited? = some q) :
    m.start? = some (m.before.registry.next? q) := by
  obtain ⟨number, c, k, a⟩ := m
  obtain rfl : k = some (w, b) := hcue
  cases w with
  | offering | broadcasting | asking => cases hvisited; cases c <;> rfl
  | _ => cases hvisited

/-- Apart from these, a leg that goes along the chain begins a registration. -/
theorem start?_cases {start : Option Protocol} (hstart : m.start? = some start) :
    (m.cue = none ∧ m.call.errand? = none ∧ start = m.before.registry.head) ∨
      (m.Opens ∧ start = m.before.registry.head) ∨
      ∃ w b q, m.cue = some (w, b) ∧ w.visited? = some q ∧ start = m.before.registry.next? q := by
  obtain ⟨number, c, k, a⟩ := m
  unfold start? at hstart
  dsimp only at hstart
  split at hstart
  case h_1 =>
    split at hstart
    · cases hstart
      exact .inl ⟨rfl, rfl, rfl⟩
    · cases hstart
  case h_2 =>
    split at hstart
    · next hidle =>
      cases hstart
      exact .inr (.inl ⟨hidle, rfl⟩)
    · cases hstart
  case h_7 =>
    obtain ⟨q, hvisited, rfl⟩ := Option.map_eq_some_iff.mp hstart
    exact .inr (.inr ⟨_, _, q, rfl, hvisited, rfl⟩)
  case h_8 => cases hstart
  all_goals
    cases hstart
    exact .inr (.inl ⟨trivial, rfl⟩)

theorem stops_eq_true_iff (he : m.call.errand? = some e) (p : Protocol) :
    m.stops p = true ↔ (e.yields = true ∧ m.before.owner ≠ none) ∨
      m.before.registry.Serves e.slot e.passOver p := by
  unfold stops Registry.Serves
  split
  · next hcall => rw [hcall] at he; cases he
  · rw [he]
    simp [Option.isSome_iff_ne_none]

end Moment

theorem Moment.Opens.exists_errand {m : Moment σ} (h : m.Opens) : ∃ e, m.call.errand? = some e := by
  obtain ⟨number, c, k, a⟩ := m
  cases c with
  | offer | release | broadcast | inactivity => exact ⟨_, rfl⟩
  | _ => cases k <;> cases h

theorem Call.Awaits.exists_errand {c : Call σ} {w : Waiting σ} (h : c.Awaits w) {q : Protocol}
    (hvisited : w.visited? = some q) : ∃ e, c.errand? = some e := by
  cases w with
  | offering | broadcasting | asking =>
    cases c with
    | offer | release | broadcast | inactivity => exact ⟨_, rfl⟩
    | _ => cases h
  | _ => cases hvisited

/-- A walk that yields to owners goes on only if there is none. -/
theorem Deed.owner_eq_none_of_yields {a : Arbiter σ} {c : Call σ} {k : Cue σ} {l : Leg σ}
    (h : Deed a c k l) {e : Errand} (he : c.errand? = some e) (yields : e.yields = true)
    {n : Notification σ} {w : Waiting σ} (hl : l.progress = .notifies n w) {p : Protocol}
    (hvisited : w.visited? = some p) : a.owner = none := by
  cases h with
  | offers _ idle => exact idle
  | announces | asks => cases he; cases yields
  | yields => cases hl; cases hvisited
  | enrols | seizes | warns | aborts => cases he
  | _ => cases hl

/-- The protocols that an operation has come by in the chain, in order. -/
def visited (k : Nat) (past : List (Moment σ)) : List Protocol :=
  past.flatMap fun m => if m.number = k then m.stretch else []

section

variable {k : Nat} {past : List (Moment σ)} {m : Moment σ}

theorem visited_append_of_ne (hne : m.number ≠ k) : visited k (past ++ [m]) = visited k past := by
  simp [visited, hne]

theorem visited_append (hm : m.number = k) :
    visited k (past ++ [m]) = visited k past ++ m.stretch := by
  simp [visited, hm]

end

namespace Run

variable {r : Run σ} {m : Moment σ} {others : List (Pending σ)} {k : Nat} {e : Errand}

/-! ## The invariant -/

/-- What the operations of a run have come by. -/
structure Travelled (r : Run σ) : Prop where
  /-- It stands in the chain in that order. -/
  inOrder : ∀ k, (visited k r.past).Sublist r.arbiter.registry.chain
  /-- A walk that waits is at the protocol that it has told last. -/
  last : ∀ f ∈ r.pending, ∀ e, f.call.errand? = some e →
    (visited f.number r.past).getLast? = f.waiting.visited?

/-- An operation that begins has come by nobody. -/
theorem Reached.visited_eq_nil (h : r.Reached) (hk : r.past.length ≤ k) :
    visited k r.past = [] := by
  refine List.flatMap_eq_nil_iff.mpr fun m hm => if_neg ?_
  rintro rfl
  exact absurd (h.numbered.moment m hm).lt (Nat.not_lt.mpr hk)

/-- A leg sets out behind all that its operation has come by. -/
theorem Travelled.start_eq (ht : r.Travelled) (h : r.Reached) (next : r.Next m others)
    {start : Option Protocol} (hstart : m.start? = some start) :
    start = r.arbiter.registry.startAfter (visited m.number r.past).getLast? := by
  have hcases := m.start?_cases hstart
  cases next with
  | begins c =>
    rw [h.visited_eq_nil le_rfl]
    rcases hcases with ⟨-, -, rfl⟩ | ⟨-, rfl⟩ | ⟨w, b, q, hcue, -⟩
    · rfl
    · rfl
    · cases hcue
  | @resumes f others waits b =>
    have hf : f ∈ r.pending := by simp [waits]
    rcases hcases with ⟨hcue, -⟩ | ⟨hopens, rfl⟩ | ⟨w, b', q, hcue, hvisited, rfl⟩
    · cases hcue
    · obtain ⟨e, he⟩ := hopens.exists_errand
      rw [ht.last f hf e he, hopens.visited?_eq_none rfl]
      rfl
    · cases hcue
      obtain ⟨e, he⟩ := (h.sound.awaits f hf).exists_errand hvisited
      rw [ht.last f hf e he, hvisited]
      rfl

/-- A leg of a walk that goes along the chain is a stride along it. -/
theorem Reached.exists_strides (h : r.Reached) (next : r.Next m others)
    (he : m.call.errand? = some e) {start : Option Protocol} (hstart : m.start? = some start) :
    ∃ answers, Strides m.before m.call e start answers m.leg := by
  rcases m.start?_cases hstart with ⟨-, hnone, -⟩ | ⟨hopens, rfl⟩ | ⟨w, b, q, hcue, hvisited, rfl⟩
  · cases he.symm.trans hnone
  · refine ⟨_, strides_of_opens he hopens fun w b hcue => ?_⟩
    cases next with
    | begins => cases hcue
    | resumes waits => cases hcue; exact h.sound.awaits _ (by simp [waits])
  · cases next with
    | begins => cases hcue
    | @resumes f _ waits =>
      cases hcue
      have hf : f ∈ r.pending := by simp [waits]
      have memory := (h.walks.underway f hf e he).memory
      exact ⟨_, strides_of_visited he rfl (h.sound.awaits f hf) hvisited memory⟩

/-- A walk is at the protocol that it tells. -/
theorem Reached.getLast?_stretch (h : r.Reached) (next : r.Next m others)
    (he : m.call.errand? = some e) {start : Option Protocol} (hstart : m.start? = some start)
    {n : Notification σ} {w : Waiting σ} (hl : m.leg.progress = .notifies n w) :
    ∃ p, w.visited? = some p ∧ m.stretch.getLast? = some p := by
  obtain ⟨answers, strides⟩ := h.exists_strides next he hstart
  have deed := h.sound.deed next
  generalize m.leg = l at hl strides deed
  cases strides with
  | @visits p sink w' _ first visited memory =>
    cases hl
    refine ⟨p, visited, ?_⟩
    obtain ⟨hserves, gap, rest, hsplit, hgap⟩ := Registry.exists_gap_of_firstSink?_eq_some first
    rw [Moment.stretch, hstart]
    refine Registry.getLast?_stretch hsplit (fun q hq => ?_) ?_
    · rw [← Bool.not_eq_true, m.stops_eq_true_iff he, next.before_eq]
      rintro (⟨yields, howned⟩ | hserves)
      · exact howned (deed.owner_eq_none_of_yields he yields rfl visited)
      · exact hgap q hq (next.before_eq ▸ hserves)
    · exact (m.stops_eq_true_iff he p).mpr (.inr hserves)
  | arrives | yields => cases hl

/-- A leg that does not go along the chain, of an operation that is to walk, begins it. -/
theorem Reached.begins_of_start?_eq_none (h : r.Reached) (next : r.Next m others)
    (he : m.call.errand? = some e) (hstart : m.start? = none) {n : Notification σ} {w : Waiting σ}
    (hl : m.leg.progress = .notifies n w) : r.past.length ≤ m.number ∧ w.visited? = none := by
  have hopens : ¬ m.Opens := fun hopens => nomatch hstart.symm.trans (m.start?_of_opens hopens)
  have hawaits : ∀ w b, m.cue = some (w, b) → m.call.Awaits w ∧ w.visited? = none := by
    intro w b hcue
    refine ⟨?_, Option.eq_none_iff_forall_ne_some.mpr fun q hvisited => ?_⟩
    · cases next with
      | begins => cases hcue
      | resumes waits => cases hcue; exact h.sound.awaits _ (by simp [waits])
    · cases hstart.symm.trans (m.start?_of_visited hcue hvisited)
  obtain ⟨p, -, hcue, hleg⟩ := releases_of_not_opens he hawaits hopens
  obtain ⟨-, rfl⟩ := hleg n w hl
  cases next with
  | begins => exact ⟨le_rfl, rfl⟩
  | resumes => cases hcue

theorem Travelled.after (ht : r.Travelled) (h : r.Reached) (next : r.Next m others) :
    (r.after m others).Travelled := by
  have hgrows := (h.sound.deed next).chain_sublist h.sound.registry
  constructor
  case inOrder =>
    intro k
    by_cases hk : m.number = k
    · subst hk
      refine List.Sublist.trans ?_ hgrows
      rw [Run.after, visited_append rfl, Moment.stretch, next.before_eq]
      cases hstart : m.start? with
      | none => simpa using ht.inOrder m.number
      | some start =>
        -- What lies before the cursor is behind all that the operation has come by.
        rw [ht.start_eq h next hstart, Option.elim_some]
        obtain ⟨front, hchain, hfront, -⟩ :=
          h.sound.registry.exists_front_of_visited (ht.inOrder m.number)
        rw [hchain]
        exact hfront.append Registry.stretch_sublist
    · rw [Run.after, visited_append_of_ne hk]
      exact (ht.inOrder k).trans hgrows
  case last =>
    intro f hf e he
    rcases mem_pending_after hf with hf | ⟨n, w, hl, rfl⟩
    · rw [Run.after, visited_append_of_ne (h.numbered.lt_of_next next hf).ne']
      exact ht.last f (next.others_subset hf) e he
    · rw [Run.after, visited_append rfl]
      cases hstart : m.start? with
      | none =>
        obtain ⟨hnew, hnone⟩ := h.begins_of_start?_eq_none next he hstart hl
        rw [h.visited_eq_nil hnew, Moment.stretch, hstart, hnone]
        rfl
      | some start =>
        obtain ⟨p, hvisited, hlast⟩ := h.getLast?_stretch next he hstart hl
        rw [List.getLast?_append, hlast, hvisited]
        rfl

theorem Reached.travelled (h : r.Reached) : r.Travelled := by
  induction h with
  | start => exact ⟨fun k => List.nil_sublist _, by simp [Run.start]⟩
  | after h next ih => exact ih.after h next

/-! ## What an operation comes by -/

/-- **An operation comes by no protocol twice**, and by all of them in the order of the chain. -/
theorem Reached.visited_sublist (h : r.Reached) (k : Nat) :
    (visited k r.past).Sublist r.arbiter.registry.chain :=
  h.travelled.inOrder k

/-- An operation comes by no more protocols than there are. -/
theorem Reached.length_visited_le (h : r.Reached) (k : Nat) :
    (visited k r.past).length ≤ Protocol.count :=
  Registry.length_le_count (h.sound.registry.nodup.sublist (h.visited_sublist k))

/-- More steps would not take a walk any farther. -/
theorem Reached.walk_eq (h : r.Reached) (hm : m ∈ r.past) {start : Option Protocol}
    (hstart : m.start? = some start) {n : Nat} (hn : Protocol.count ≤ n) :
    m.before.registry.walk n start = m.before.registry.chainFrom start := by
  obtain ⟨r', others, h', next⟩ := h.exists_run hm
  rw [h'.travelled.start_eq h' next hstart, next.before_eq]
  have hpath := h'.sound.registry.path_chainFrom (h'.visited_sublist m.number)
  exact hpath.walk_eq (Nat.le_trans (Registry.length_walk_le _ _ _) hn)

/-- More steps would not take a newcomer to another place. -/
theorem Reached.place_eq (h : r.Reached) (v : UInt8) {n : Nat} (hn : Protocol.count ≤ n) :
    r.arbiter.registry.place v n none r.arbiter.registry.head =
      r.arbiter.registry.place v Protocol.count none r.arbiter.registry.head := by
  have hpath := h.sound.registry.path
  have hle := Registry.length_le_count h.sound.registry.nodup
  rw [Registry.place_eq _ v hpath (Nat.le_trans hle hn), Registry.place_eq _ v hpath hle]

end Run

end Arbiter

end SharedRadio
