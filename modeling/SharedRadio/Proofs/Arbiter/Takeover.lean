import Mathlib.Algebra.BigOperators.Group.List.Lemmas
import Mathlib.Algebra.Order.BigOperators.Group.List
import Mathlib.Algebra.Order.Ring.Nat
import SharedRadio.Proofs.Arbiter.Displacement

/-!
# How long a takeover lasts

An acquisition that displaces an owner waits until that owner has answered. If another protocol owns
the transceiver then, it has to make room in turn, and so on. `evicted` lists the protocols that one
operation has told to make room, in order; its length is the number of rounds.

A protocol is told a second time only if it comes back (`Returns`): it gave the transceiver up,
another protocol took it and was told in turn, and when that one has answered the first one is the
owner again. If no protocol comes back, the rounds are at most as many as there are other protocols.
In any case, a protocol is told at most once more than it has become the owner since the operation
began. The invariant that carries this (`Accounted`) says that a protocol that is the owner, but is
not the one told last, has a turn left over.

There is no other bound. Two protocols that give the transceiver up when they are told to make room,
and take it when it is offered, can hand it to each other any number of times
(`exists_many_rounds`).
-/

namespace SharedRadio.Arbiter

variable {σ : Type}

/-! ## Rounds -/

/-- The protocol that is told to make room at a moment. -/
def Moment.evicts? (m : Moment σ) : Option Protocol :=
  match m.leg.progress.told? with
  | some (q, .arbitration, .abort) => some q
  | _ => none

theorem Moment.evicts?_eq_some_iff {m : Moment σ} {q : Protocol} :
    m.evicts? = some q ↔ m.Tells q .arbitration .abort := by
  unfold evicts? Tells Leg.Tells
  split
  · next htold => simp [htold]
  · next hother =>
    simp only [reduceCtorEq, false_iff]
    exact hother q

/-- The protocols that one operation has told to make room, in order. -/
def evicted (k : Nat) (past : List (Moment σ)) : List Protocol :=
  past.filterMap fun m => if m.number = k then m.evicts? else none

/-- How often a protocol has become the owner. -/
def activations (q : Protocol) (past : List (Moment σ)) : Nat :=
  past.countP fun m => m.Tells q .arbitration .active

/-- A protocol comes back while an operation displaces owners: it was told to make room, and it owns
the transceiver when another protocol has answered that was told after it. -/
def Returns (k : Nat) (q : Protocol) (past : List (Moment σ)) : Prop :=
  ∃ older m newer, past = older ++ m :: newer ∧ m.number = k ∧ q ∈ evicted k older ∧
    m.before.owner = some q ∧ ∃ told, m.cue.displaced? = some told ∧ told ≠ q

section

variable {k : Nat} {p q : Protocol} {past : List (Moment σ)} {m : Moment σ}

@[simp] theorem evicted_nil : evicted k ([] : List (Moment σ)) = [] := rfl

@[simp] theorem evicted_append (past newer : List (Moment σ)) :
    evicted k (past ++ newer) = evicted k past ++ evicted k newer :=
  List.filterMap_append

theorem mem_evicted_iff :
    q ∈ evicted k past ↔ ∃ m ∈ past, m.number = k ∧ m.Tells q .arbitration .abort := by
  simp [evicted, ← Moment.evicts?_eq_some_iff]

theorem evicted_singleton_of_tells (hk : m.number = k) (ht : m.Tells q .arbitration .abort) :
    evicted k [m] = [q] := by
  simp [evicted, hk, Moment.evicts?_eq_some_iff.mpr ht]

/-- A moment tells nobody to make room, or somebody on behalf of its own operation. -/
theorem evicted_singleton (k : Nat) (m : Moment σ) :
    evicted k [m] = [] ∨
      ∃ q, evicted k [m] = [q] ∧ m.number = k ∧ m.Tells q .arbitration .abort := by
  by_cases hk : m.number = k
  · cases he : m.evicts? with
    | none => exact .inl (by simp [evicted, he])
    | some q =>
      have ht := Moment.evicts?_eq_some_iff.mp he
      exact .inr ⟨q, evicted_singleton_of_tells hk ht, hk, ht⟩
  · exact .inl (by simp [evicted, hk])

@[simp] theorem activations_append (q : Protocol) (past newer : List (Moment σ)) :
    activations q (past ++ newer) = activations q past + activations q newer :=
  List.countP_append

theorem activations_singleton_of_tells (ht : m.Tells q .arbitration .active) :
    activations q [m] = 1 := by
  simp [activations, ht]

/-- A protocol that was told twice was told at a moment before which it had been told. -/
theorem exists_second (h : 1 < (evicted k past).count q) :
    ∃ older m newer, past = older ++ m :: newer ∧ m.number = k ∧ q ∈ evicted k older ∧
      m.Tells q .arbitration .abort := by
  induction past using List.reverseRecOn with
  | nil => simp at h
  | append_singleton past m ih =>
    by_cases hold : 1 < (evicted k past).count q
    · obtain ⟨older, m', newer, rfl, hrest⟩ := ih hold
      exact ⟨older, m', newer ++ [m], by simp, hrest⟩
    · rw [evicted_append, List.count_append] at h
      rcases evicted_singleton k m with hnone | ⟨q', heq, hk, ht⟩
      · simp [hnone] at h
        omega
      · rw [heq, List.count_singleton] at h
        split at h
        · next hsame =>
          obtain rfl : q' = q := by simpa using hsame
          exact ⟨past, m, [], rfl, hk, List.count_pos_iff.mp (by omega), ht⟩
        · omega

end

/-! ## What a leg says about rounds -/

namespace Deed

variable {a : Arbiter σ} {c : Call σ} {k : Cue σ} {l : Leg σ} {p q told : Protocol} {force : Bool}

/-- Nobody is told to make room twice in a row. -/
theorem fresh_of_abort (h : Deed a c k l) (ht : l.Tells q .arbitration .abort) :
    k = none ∨ ∃ told, k.displaced? = some told ∧ told ≠ q := by
  cases h with
  | @warns p _ _ sink q' _ _ _ bids _ _ _ fresh =>
    obtain rfl : q' = q := by simpa [Leg.Tells] using ht
    cases k with
    | none => exact .inl rfl
    | some cue =>
      obtain ⟨told, faulted, hw⟩ := bids
      obtain ⟨w, b⟩ := cue
      subst hw
      exact .inr ⟨told, rfl, fun hsame => fresh (congrArg some hsame)⟩
  | aborts => exact .inl rfl
  | _ => simp [Leg.Tells] at ht

/-- An owner is told to make room when another one has answered. -/
theorem tells_abort (h : Deed a (.acquire p force) k l) (hk : k.displaced? = some told)
    (owner : a.owner = some q) (hother : told ≠ q) (hp : q ≠ p) (present : (a.sink? q).isSome) :
    l.Tells q .arbitration .abort := by
  cases h with
  | @warns _ _ _ _ q' _ _ _ _ howner =>
    obtain rfl : q' = q := Option.some.inj (howner.symm.trans owner)
    rfl
  | seizes _ _ former =>
    rcases former q owner with hsame | ⟨habsent, -⟩
    · exact absurd (Option.some.inj (hk.symm.trans hsame)) hother
    · simp [habsent] at present
  | nests _ howner => exact absurd (Option.some.inj (owner.symm.trans howner)) hp
  | offers walks => exact walks.elim
  | refuses => simp [Cue.displaced?] at hk
  | ends acquired =>
    obtain ⟨f, b, rfl⟩ := acquired p force rfl
    simp [Cue.displaced?] at hk

end Deed

namespace Run

variable {r : Run σ} {m : Moment σ} {others : List (Pending σ)} {k : Nat} {p q : Protocol}

/-! ## The round that is under way -/

/-- Before it has begun, an operation tells nobody anything. -/
theorem Reached.evicted_eq_nil (h : r.Reached) (hk : r.past.length ≤ k) :
    evicted k r.past = [] := by
  refine List.eq_nil_iff_forall_not_mem.mpr fun q hq => ?_
  obtain ⟨m, hm, rfl, -⟩ := mem_evicted_iff.mp hq
  exact absurd (h.numbered.moment m hm).lt (Nat.not_lt.mpr hk)

/-- An operation that waits for an owner to make room has told that one last. -/
theorem Reached.getLast?_evicted (h : r.Reached) {f : Pending σ} (hf : f ∈ r.pending) {sink : σ}
    {told : Protocol} {faulted : Bool} (hw : f.waiting = .displacing p sink told faulted) :
    (evicted f.number r.past).getLast? = some told := by
  induction h generalizing f with
  | start => simp [Run.start] at hf
  | @after r m others h next ih =>
    change (evicted f.number (r.past ++ [m])).getLast? = some told
    rw [evicted_append]
    rcases mem_pending_after hf with hf | ⟨n, w, hl, rfl⟩
    · have hother : evicted f.number [m] = [] := by
        simp [evicted, (h.numbered.lt_of_next next hf).ne']
      rw [hother, List.append_nil]
      exact ih (next.others_subset hf) hw
    · obtain rfl : w = .displacing p sink told faulted := hw
      have ht := ((h.sound.deed next).of_displacing hl).2.1
      rw [evicted_singleton_of_tells rfl ht]
      simp

/-- A moment that answers for a protocol that was told to make room comes after that. -/
theorem Reached.getLast?_evicted_of_next (h : r.Reached) (next : r.Next m others)
    {told : Protocol} (hk : m.cue.displaced? = some told) :
    (evicted m.number r.past).getLast? = some told ∧ ∃ p force, m.call = .acquire p force := by
  cases next with
  | begins c => simp [Cue.displaced?] at hk
  | @resumes f others waits b =>
    have hf : f ∈ r.pending := by simp [waits]
    have hawaits := h.sound.awaits f hf
    obtain ⟨number, call, w⟩ := f
    cases w with
    | displacing p sink told' faulted =>
      obtain rfl : told' = told := by simpa [Cue.displaced?] using hk
      refine ⟨h.getLast?_evicted hf rfl, ?_⟩
      cases call with
      | acquire p force => exact ⟨p, force, rfl⟩
      | _ => cases hawaits
    | _ => simp [Cue.displaced?] at hk

/-- A protocol is told to make room by an operation that has told nobody yet, or when another one
has answered. -/
theorem Reached.fresh_of_abort (h : r.Reached) (next : r.Next m others)
    (ht : m.Tells q .arbitration .abort) :
    evicted m.number r.past = [] ∨ ∃ told, m.cue.displaced? = some told ∧ told ≠ q := by
  rcases (h.sound.deed next).fresh_of_abort ht with hk | hk
  · cases next with
    | begins c => exact .inl (h.evicted_eq_nil le_rfl)
    | resumes => cases hk
  · exact .inr hk

/-- The protocol that is told to make room was not the last one told by the same operation. -/
theorem Reached.getLast?_evicted_ne (h : r.Reached) (next : r.Next m others)
    (ht : m.Tells q .arbitration .abort) : (evicted m.number r.past).getLast? ≠ some q := by
  rcases h.fresh_of_abort next ht with hnil | ⟨told, hk, hother⟩
  · simp [hnil]
  · rw [(h.getLast?_evicted_of_next next hk).1]
    exact fun hsame => hother (Option.some.inj hsame)

/-- An acquisition does not tell its own protocol to make room. -/
theorem Reached.not_mem_evicted (h : r.Reached) {force : Bool}
    (hk : Begun r.past k (.acquire p force)) : p ∉ evicted k r.past := by
  intro hp
  obtain ⟨m, hm, rfl, ht⟩ := mem_evicted_iff.mp hp
  have hc := (h.numbered.moment m hm).unique hk
  obtain ⟨r', others, h', next⟩ := h.exists_run hm
  have deed := h'.sound.deed next
  rw [hc] at deed
  exact (deed.displaces (.inl ht) (h'.sound.owner p)).2.1 rfl

/-! ## How often a protocol is told -/

/-- **A protocol is told to make room twice by one operation if and only if it comes back.** -/
theorem Reached.one_lt_count_iff (h : r.Reached) :
    1 < (evicted k r.past).count q ↔ Returns k q r.past := by
  constructor
  · intro htwice
    obtain ⟨older, m, newer, hpast, rfl, hmem, ht⟩ := exists_second htwice
    obtain ⟨r', others, h', rfl, next⟩ := h.moment hpast
    refine ⟨r'.past, m, newer, hpast, rfl, hmem, ?_, ?_⟩
    · rw [next.before_eq]
      exact ((h'.sound.deed next).owner_of_abort ht).1
    · rcases h'.fresh_of_abort next ht with hnil | hk
      · simp [hnil] at hmem
      · exact hk
  · rintro ⟨older, m, newer, hpast, rfl, hmem, howner, told, hk, hother⟩
    obtain ⟨r', others, h', rfl, next⟩ := h.moment hpast
    obtain ⟨p, force, hc⟩ := (h'.getLast?_evicted_of_next next hk).2
    rw [next.before_eq] at howner
    have hq : q ≠ p := by
      rintro rfl
      have hbegun := (h'.after next).numbered.moment m (by simp [Run.after])
      rw [hc] at hbegun
      exact (h'.after next).not_mem_evicted hbegun (by simp [Run.after, hmem])
    have deed := h'.sound.deed next
    rw [hc] at deed
    have ht : m.Tells q .arbitration .abort :=
      deed.tells_abort hk howner hother hq (h'.sound.owner q howner)
    have hfirst := List.count_pos_iff.mpr hmem
    have hsplit : r.past = r'.past ++ [m] ++ newer := by simpa using hpast
    rw [hsplit, evicted_append, evicted_append, evicted_singleton_of_tells rfl ht,
      List.count_append, List.count_append, List.count_singleton_self]
    omega

/-- A protocol was told to make room at most once more than it has become the owner since the
operation began. If it is the owner, but not the one told last, it has a turn left over. -/
structure Accounted (r : Run σ) (k : Nat) (q : Protocol) : Prop where
  le : (evicted k r.past).count q ≤ 1 + activations q (r.past.drop k)
  spare : r.arbiter.owner = some q → (evicted k r.past).getLast? ≠ some q →
    (evicted k r.past).count q ≤ activations q (r.past.drop k)

/-- A moment at which the operation has begun keeps the account. -/
theorem Accounted.after (hacc : r.Accounted k q) (h : r.Reached) (next : r.Next m others)
    (hk : k ≤ r.past.length) : (r.after m others).Accounted k q := by
  obtain ⟨hle, hspare⟩ := hacc
  have deed := h.sound.deed next
  have hcount : (evicted k (r.after m others).past).count q =
      (evicted k r.past).count q + (evicted k [m]).count q := by
    rw [Run.after, evicted_append, List.count_append]
  have hactivations : activations q ((r.after m others).past.drop k) =
      activations q (r.past.drop k) + activations q [m] := by
    rw [Run.after, List.drop_append_of_le_length hk, activations_append]
  have hlast : (evicted k (r.after m others).past).getLast? =
      (evicted k [m]).getLast?.or (evicted k r.past).getLast? := by
    rw [Run.after, evicted_append, List.getLast?_append]
  rcases evicted_singleton k m with hnone | ⟨q', heq, rfl, ht⟩
  · -- Nobody is told to make room, but the protocol may become the owner, and is told that.
    rw [hnone, List.count_nil] at hcount
    by_cases hactive : m.Tells q .arbitration .active
    · rw [activations_singleton_of_tells hactive] at hactivations
      exact ⟨by omega, fun _ _ => by omega⟩
    · refine ⟨by omega, fun howner hne => ?_⟩
      have hbefore : r.arbiter.owner = some q := by
        by_contra hbefore
        exact hactive (deed.tells_active_iff.mpr ⟨hbefore, howner⟩)
      have hless := hspare hbefore (by simpa [hlast, hnone] using hne)
      omega
  · obtain ⟨hbefore, hafter⟩ := deed.owner_of_abort ht
    by_cases hsame : q' = q
    · -- The owner uses the turn that it had left over, because it was not the one told last.
      subst hsame
      rw [heq, List.count_singleton_self] at hcount
      have hless := hspare hbefore (h.getLast?_evicted_ne next ht)
      refine ⟨by omega, fun _ hne => absurd ?_ hne⟩
      rw [hlast, heq]
      rfl
    · rw [heq, List.count_singleton, if_neg (by simpa using hsame)] at hcount
      refine ⟨by omega, fun howner _ => ?_⟩
      exact absurd (Option.some.inj (hafter.symm.trans howner)) hsame

theorem Reached.accounted (h : r.Reached) (k : Nat) (q : Protocol) : r.Accounted k q := by
  induction h with
  | start => exact ⟨by simp [Run.start], by simp [Run.start]⟩
  | @after r m others h next ih =>
    rcases lt_or_ge r.past.length k with hlt | hge
    · have hnil := (h.after next).evicted_eq_nil
        (by simpa [Run.after] using Nat.succ_le_of_lt hlt)
      exact ⟨by simp [hnil], by simp [hnil]⟩
    · exact ih.after h next hge

/-- A list that leaves one protocol out, and in which no other stands more than `n` times beside the
first time. -/
theorem length_le_of_count_le {l : List Protocol} {n : Protocol → Nat} (hp : p ∉ l)
    (hle : ∀ q, l.count q ≤ 1 + n q) :
    l.length ≤ Protocol.count - 1 + (Protocol.all.map n).sum := by
  have hfew : l.dedup.length + 1 ≤ Protocol.count :=
    Registry.length_le_count (List.nodup_cons.mpr ⟨mt List.mem_dedup.mp hp, List.nodup_dedup l⟩)
  obtain ⟨told, hperm, hsub⟩ : l.dedup.Subperm Protocol.all :=
    List.subperm_of_subset (List.nodup_dedup l) fun q _ => Protocol.mem_all q
  have hsum : (l.dedup.map n).sum ≤ (Protocol.all.map n).sum :=
    calc (l.dedup.map n).sum = (told.map n).sum := ((hperm.map n).sum_eq).symm
      _ ≤ (Protocol.all.map n).sum := (hsub.map n).sum_le_sum fun _ _ => Nat.zero_le _
  calc l.length = (l.dedup.map l.count).sum := (List.sum_map_count_dedup_eq_length l).symm
    _ ≤ (l.dedup.map fun q => 1 + n q).sum := List.sum_le_sum fun q _ => hle q
    _ = l.dedup.length + (l.dedup.map n).sum := by simp [List.sum_map_add]
    _ ≤ Protocol.count - 1 + (Protocol.all.map n).sum := by omega

/-- The rounds of an acquisition, and what bounds them. -/
structure Takeover (k : Nat) (p : Protocol) (past : List (Moment σ)) : Prop where
  /-- It does not tell its own protocol to make room. -/
  other : p ∉ evicted k past
  /-- It tells a protocol for a second time if and only if that one comes back. -/
  again_iff : ∀ q, 1 < (evicted k past).count q ↔ Returns k q past
  /-- It tells a protocol at most once more than that has become the owner since it began. -/
  count_le : ∀ q, (evicted k past).count q ≤ 1 + activations q (past.drop k)
  /-- If no protocol comes back, it has at most one round for each other protocol. -/
  length_lt : (∀ q, ¬ Returns k q past) → (evicted k past).length < Protocol.count
  /-- In any case, for every further round some protocol has become the owner since it began. -/
  length_le : (evicted k past).length ≤
    Protocol.count - 1 + (Protocol.all.map fun q => activations q (past.drop k)).sum

/-- **A takeover is bounded by the protocols that come back.** An acquisition tells an owner to make
room once, unless that protocol comes back; so a takeover with more rounds than there are other
protocols is one in which a protocol came back. -/
theorem takeover_of_begun (preemption : Bool) (moves : List (Move σ)) {k : Nat} {p : Protocol}
    {force : Bool} (hk : Begun (play preemption moves).past k (.acquire p force)) :
    Takeover k p (play preemption moves).past := by
  have h := reached_play preemption moves
  have hother := h.not_mem_evicted hk
  have hle := fun q => (h.accounted k q).le
  refine ⟨hother, fun q => h.one_lt_count_iff, hle, ?_, length_le_of_count_le hother hle⟩
  intro hnone
  have hnodup : (evicted k (play preemption moves).past).Nodup :=
    List.nodup_iff_count_le_one.mpr fun q =>
      Nat.not_lt.mp fun htwice => hnone q (h.one_lt_count_iff.mp htwice)
  exact Registry.length_le_count (List.nodup_cons.mpr ⟨hother, hnodup⟩)

end Run

/-! ## A takeover without end -/

/-- Two protocols are registered besides the one that wants the transceiver. The first of them owns
it, and is told to make room by an operation with number 8. -/
def contested : List (Move Unit) :=
  [.call (.register .arbitration .ant 3 ()), .answer .success,
    .call (.register .arbitration .genFsk 2 ()), .answer .success,
    .call (.register .arbitration .ble 1 ()), .answer .success,
    .call (.acquire .ant false), .answer .success, .call (.acquire .ble false)]

/-- An owner that was told to make room gives the transceiver up, and another protocol takes it. -/
def handsOver (p q : Protocol) : List (Move Unit) :=
  [.call (.release p), .answer .success, .answer .success, .call (.acquire q false),
    .answer .success, .answer .success]

/-- An owner hands the transceiver over, and has it handed back. -/
def exchange : List (Move Unit) :=
  handsOver .ant .genFsk ++ .answer .success :: handsOver .genFsk .ant

/-- The transceiver is handed to and fro a number of times. -/
def exchanges : Nat → List (Move Unit)
  | 0 => contested
  | n + 1 => exchanges n ++ exchange ++ [.answer .success]

/-- The owner comes back after one exchange, and is told to make room for a second time. -/
theorem takeover_of_begun_exchanged :
    Run.Begun (Run.play true (exchanges 1)).past 8 (.acquire .ble false) ∧
      evicted 8 (Run.play true (exchanges 1)).past = [.ant, .genFsk, .ant] ∧
      Returns 8 .ant (Run.play true (exchanges 1)).past := by
  have hbegun : Run.Begun (Run.play true (exchanges 1)).past 8 (.acquire .ble false) := ⟨_, rfl⟩
  have hevicted : evicted 8 (Run.play true (exchanges 1)).past = [.ant, .genFsk, .ant] := by rfl
  have takeover := Run.takeover_of_begun true (exchanges 1) hbegun
  exact ⟨hbegun, hevicted, (takeover.again_iff .ant).mp (by rw [hevicted]; decide)⟩

/-- The arbiter of the contested transceiver. -/
def contestedArbiter : Arbiter Unit where
  registry := {
    entries := {
      ble := { link := some ⟨1, some .genFsk⟩, arbitration := some () }
      ieee802154 := {}
      genFsk := { link := some ⟨2, some .ant⟩, arbitration := some () }
      ant := { link := some ⟨3, none⟩, arbitration := some () } }
    head := some .ble }
  owner := some .ant
  depth := 1

theorem play_contested :
    (Run.play true contested).arbiter = contestedArbiter ∧
      (Run.play true contested).pending =
        [⟨8, .acquire .ble false, .displacing .ble () .ant false⟩] :=
  ⟨rfl, rfl⟩

/-- When an exchange is over, everything is as before, but both protocols were told to make room. -/
theorem play_exchange {r : Run Unit} (harbiter : r.arbiter = (Run.play true contested).arbiter)
    (hpending : r.pending = (Run.play true contested).pending) :
    ∃ r', (exchange ++ [Move.answer .success]).foldl Run.step r = r' ∧
      r'.arbiter = r.arbiter ∧ r'.pending = r.pending ∧ r.past <+: r'.past ∧
      (evicted 8 r.past).count .ant < (evicted 8 r'.past).count .ant := by
  obtain ⟨arbiter, pending, past⟩ := r
  obtain rfl : arbiter = contestedArbiter := harbiter.trans play_contested.1
  obtain rfl : pending = _ := hpending.trans play_contested.2
  rw [List.foldl_append]
  generalize hr : exchange.foldl Run.step ⟨contestedArbiter,
    [⟨8, .acquire .ble false, .displacing .ble () .ant false⟩], past⟩ = r
  have hgrows : past <+: r.past := by
    rw [← hr]
    exact Run.past_prefix_foldl ⟨_, _, past⟩ exchange
  have harbiter : r.arbiter = contestedArbiter := by
    rw [← hr]
    cbv
  have hpending : r.pending =
      [⟨8, .acquire .ble false, .displacing .ble () .genFsk false⟩] := by
    rw [← hr]
    cbv
  have hstep : r.step (.answer .success) =
      r.after ⟨8, .acquire .ble false, some (.displacing .ble () .genFsk false, .success),
        contestedArbiter⟩ [] := by
    rw [Run.step, hpending, harbiter]
  refine ⟨_, rfl, ?_⟩
  rw [List.foldl_cons, List.foldl_nil, hstep]
  refine ⟨by cbv, by cbv, hgrows.trans (List.prefix_append _ _), ?_⟩
  have hcount : (evicted 8 past).count .ant ≤ (evicted 8 r.past).count .ant :=
    (hgrows.filterMap _).sublist.count_le _
  change _ < (evicted 8 (r.past ++ [_])).count .ant
  rw [evicted_append, List.count_append]
  exact Nat.lt_of_le_of_lt hcount (Nat.lt_add_of_pos_right (by decide))

/-- **There is no bound for the rounds of a takeover**, not even for how often it tells one and the
same protocol. -/
theorem exists_many_rounds (n : Nat) :
    ∃ moves : List (Move Unit), Run.Begun (Run.play true moves).past 8 (.acquire .ble false) ∧
      n < (evicted 8 (Run.play true moves).past).count .ant := by
  suffices h : (Run.play true (exchanges n)).arbiter = (Run.play true contested).arbiter ∧
      (Run.play true (exchanges n)).pending = (Run.play true contested).pending ∧
      (Run.play true contested).past <+: (Run.play true (exchanges n)).past ∧
      n < (evicted 8 (Run.play true (exchanges n)).past).count .ant by
    obtain ⟨-, -, ⟨newer, hnewer⟩, hcount⟩ := h
    have hbegun : Run.Begun (Run.play true contested).past 8 (.acquire .ble false) := ⟨_, rfl⟩
    exact ⟨exchanges n, hnewer ▸ hbegun.append newer, hcount⟩
  induction n with
  | zero => exact ⟨rfl, rfl, List.prefix_rfl, by decide⟩
  | succ n ih =>
    obtain ⟨harbiter, hpending, hpast, hcount⟩ := ih
    obtain ⟨r', hr', harbiter', hpending', hpast', hcount'⟩ := play_exchange harbiter hpending
    have hplay : Run.play true (exchanges (n + 1)) = r' := by
      rw [← hr', exchanges, List.append_assoc, Run.play, List.foldl_append]
      rfl
    rw [hplay]
    exact ⟨harbiter'.trans harbiter, hpending'.trans hpending, hpast.trans hpast', by omega⟩

end SharedRadio.Arbiter
