import Mathlib.Data.List.Nodup
import Mathlib.Data.List.TakeWhile
import SharedRadio.Registry.Lemmas

/-!
# The priority chain of a registry

`Registry.walk` follows the links for a limited number of steps. This module shows that the limit
never cuts a chain short, and what a chain lists.

`Path` says that the links lead from one place to another through a list of protocols. It splits
along `++`, and it only depends on the links of the protocols on it, so a splice in the middle of a
chain leaves both sides of it as they were. `next?_link` and `head_link` say which links a splice
changes; `place_eq` says where it happens, in terms of the list alone. Together they give
`chain_link`: the newcomer stands behind those that strictly outrank it and in front of all others.

`Sound` is the invariant that follows. The chain ends, lists exactly the protocols that have a sink,
each of them once, and does so by ascending rank.
-/

namespace SharedRadio.Registry

variable {σ : Type}

/-! ## Paths along the links -/

/-- The links lead from a start through some protocols, in order, to an end. -/
def Path (r : Registry σ) : Option Protocol → List Protocol → Option Protocol → Prop
  | start, [], stop => start = stop
  | start, p :: l, stop => start = some p ∧ r.Path (r.next? p) l stop

theorem path_append {r : Registry σ} {start stop : Option Protocol} {l l' : List Protocol} :
    r.Path start (l ++ l') stop ↔ ∃ middle, r.Path start l middle ∧ r.Path middle l' stop := by
  induction l generalizing start with
  | nil => simp [Path]
  | cons p l ih => simp [Path, ih, and_assoc]

/-- A path only depends on the links of the protocols on it. -/
theorem Path.congr {r r' : Registry σ} {start stop : Option Protocol} {l : List Protocol}
    (h : ∀ p ∈ l, r'.next? p = r.next? p) (hp : r.Path start l stop) : r'.Path start l stop := by
  induction l generalizing start with
  | nil => exact hp
  | cons p l ih =>
    obtain ⟨hstart, hrest⟩ := hp
    refine ⟨hstart, ih (fun q hq => h q (by simp [hq])) ?_⟩
    rw [h p (by simp)]
    exact hrest

/-- A path to the end of the chain starts at its first protocol. -/
theorem Path.start_eq {r : Registry σ} {start : Option Protocol} {l : List Protocol}
    (hp : r.Path start l none) : start = l.head? := by
  cases l with
  | nil => exact hp
  | cons p l => exact hp.1

/-- A walk that is allowed enough steps meets the whole path. -/
theorem Path.walk_eq {r : Registry σ} {start : Option Protocol} {l : List Protocol} {n : Nat}
    (hp : r.Path start l none) (hn : l.length ≤ n) : r.walk n start = l := by
  induction l generalizing start n with
  | nil =>
    obtain rfl : start = none := hp
    cases n <;> rfl
  | cons p l ih =>
    obtain ⟨rfl, hrest⟩ := hp
    obtain ⟨m, rfl⟩ : ∃ m, n = m + 1 := ⟨n - 1, by simp at hn; omega⟩
    rw [walk, ih hrest (by simpa using hn)]

/-- Protocols that are all different are at most as many as there are protocols. -/
theorem length_le_count {l : List Protocol} (hl : l.Nodup) : l.length ≤ Protocol.count :=
  hl.length_le_of_subset fun p _ => Protocol.mem_all p

/-- A path without repetition from the head to the end of the chain is the chain. -/
theorem Path.chain_eq {r : Registry σ} {l : List Protocol} (hp : r.Path r.head l none)
    (hl : l.Nodup) : r.chain = l :=
  hp.walk_eq (length_le_count hl)

/-! ## What a splice does to the links -/

theorem next?_follow_some (r : Registry σ) (b q : Protocol) (next : Option Protocol) :
    (r.follow (some b) next).next? q =
      if q = b ∧ (r.priority? b).isSome then next else r.next? q := by
  by_cases h : q = b
  · subst h
    cases hl : (r.entries.get q).link <;> simp [next?, follow, priority?, hl]
  · simp [next?, follow, Protocol.Table.get_set, h]

/-- Linking a protocol leads to it from its predecessor, and from it to its successor. -/
theorem next?_link (r : Registry σ) {p : Protocol} (v : UInt8) (q : Protocol)
    {before after : Option Protocol}
    (hplace : r.place v Protocol.count none r.head = (before, after))
    (hbefore : ∀ b, before = some b → b ≠ p ∧ (r.priority? b).isSome) :
    (r.link p v).next? q =
      if before = some q then some p else if q = p then after else r.next? q := by
  unfold link
  rw [hplace]
  dsimp only
  cases before with
  | none => by_cases h : q = p <;> simp [follow, next?, Protocol.Table.get_set, h]
  | some b =>
    obtain ⟨hne, hlinked⟩ := hbefore b rfl
    rw [next?_follow_some]
    by_cases hq : q = b
    · subst hq
      have hstill : (r.entries.get q).link.isSome := by simpa [priority?] using hlinked
      simp [priority?, Protocol.Table.get_set, hne, hstill]
    · have hbq : b ≠ q := Ne.symm hq
      by_cases hp : p = q
      · subst hp
        simp [next?, hq, hbq]
      · simp [next?, Protocol.Table.get_set, hq, hbq, Ne.symm hp]

theorem head_link (r : Registry σ) (p : Protocol) (v : UInt8) {before after : Option Protocol}
    (hplace : r.place v Protocol.count none r.head = (before, after)) :
    (r.link p v).head = if before = none then some p else r.head := by
  unfold link
  rw [hplace]
  cases before <;> simp [follow]

/-- A newcomer's neighbours are the last protocol of those in front that strictly outrank it, and
the first of the remaining ones. -/
theorem place_eq (r : Registry σ) (v : UInt8) {n : Nat} {before start : Option Protocol}
    {l : List Protocol} (hp : r.Path start l none) (hn : l.length ≤ n) :
    r.place v n before start =
      ((l.takeWhile (r.rank · < v)).getLast?.or before, (l.dropWhile (r.rank · < v)).head?) := by
  induction l generalizing start n before with
  | nil =>
    obtain rfl : start = none := hp
    cases n <;> simp [place]
  | cons q l ih =>
    obtain ⟨rfl, hrest⟩ := hp
    obtain ⟨m, rfl⟩ : ∃ m, n = m + 1 := ⟨n - 1, by simp at hn; omega⟩
    rw [place]
    by_cases hv : v ≤ r.rank q
    · have hnot : ¬ r.rank q < v := UInt8.not_lt.mpr hv
      simp [hv, hnot]
    · have hlt : r.rank q < v := UInt8.not_le.mp hv
      rw [if_neg hv, ih hrest (by simpa using hn)]
      simp [hlt, List.getLast?_cons]

/-- **A splice.** A newcomer stands behind those that strictly outrank it and in front of all
others, and the others keep their order. -/
theorem path_link {r : Registry σ} {l : List Protocol} (hpath : r.Path r.head l none)
    (hnodup : l.Nodup) (hlinked : ∀ q ∈ l, (r.priority? q).isSome) {p : Protocol} (hp : p ∉ l)
    (v : UInt8) :
    (r.link p v).Path (r.link p v).head
      (l.takeWhile (r.rank · < v) ++ p :: l.dropWhile (r.rank · < v)) none := by
  have hplace : r.place v Protocol.count none r.head = _ :=
    place_eq r v hpath (length_le_count hnodup)
  have hsplit : l.takeWhile (r.rank · < v) ++ l.dropWhile (r.rank · < v) = l :=
    List.takeWhile_append_dropWhile
  generalize l.takeWhile (r.rank · < v) = front at hplace hsplit ⊢
  generalize l.dropWhile (r.rank · < v) = back at hplace hsplit ⊢
  subst hsplit
  rw [Option.or_none] at hplace
  have hbefore : ∀ b, front.getLast? = some b → b ≠ p ∧ (r.priority? b).isSome := by
    intro b hb
    have hmem : b ∈ front ++ back := List.mem_append_left _ (List.mem_of_getLast? hb)
    exact ⟨fun h => hp (h ▸ hmem), hlinked b hmem⟩
  have hnext := fun q => next?_link r v q hplace hbefore
  have hhead := head_link r p v hplace
  obtain ⟨middle, hfront, hback⟩ := path_append.mp hpath
  -- The newcomer leads to what the front used to lead to.
  have hnew : (r.link p v).Path (some p) (p :: back) none := by
    have hlast : front.getLast? ≠ some p := fun h => (hbefore p h).1 rfl
    refine ⟨rfl, ?_⟩
    rw [hnext p, if_neg hlast, if_pos rfl, ← hback.start_eq]
    refine hback.congr fun q hq => ?_
    have hqp : q ≠ p := fun h => hp (h ▸ List.mem_append_right _ hq)
    have hql : front.getLast? ≠ some q := fun h =>
      (List.nodup_append.mp hnodup).2.2 q (List.mem_of_getLast? h) q hq rfl
    rw [hnext q, if_neg hql, if_neg hqp]
  rcases List.eq_nil_or_concat front with rfl | ⟨init, b, rfl⟩
  · rw [hhead]
    exact hnew
  · rw [List.concat_eq_append] at *
    have hlast : (init ++ [b]).getLast? = some b := List.getLast?_concat
    rw [hlast] at hnext hhead
    obtain ⟨_, hinit, rfl, -⟩ := path_append.mp hfront
    rw [hhead, if_neg (by simp), List.append_assoc]
    refine path_append.mpr ⟨some b, hinit.congr fun q hq => ?_, rfl, ?_⟩
    · have hqp : q ≠ p := fun h => hp (by simp [← h, hq])
      have hqb : q ≠ b :=
        (List.nodup_append.mp (List.nodup_append.mp hnodup).1).2.2 q hq b (by simp)
      rw [hnext q, if_neg (by simpa using hqb.symm), if_neg hqp]
    · rw [hnext b, if_pos rfl]
      exact hnew

/-! ## The invariant -/

/-- The chain ends, lists every linked protocol once, and does so by ascending rank. -/
structure Chained (r : Registry σ) : Prop where
  /-- The links lead through the chain to its end. -/
  path : r.Path r.head r.chain none
  /-- No protocol stands in the chain twice. -/
  nodup : r.chain.Nodup
  /-- The chain lists the protocols that have a place in it. -/
  mem_chain_iff : ∀ p, p ∈ r.chain ↔ (r.priority? p).isSome
  /-- Nobody stands behind a protocol that it strictly outranks. -/
  sorted : r.chain.Pairwise fun p q => r.rank p ≤ r.rank q

/-- A chain that is in order and lists exactly the protocols with a sink. -/
structure Sound (r : Registry σ) : Prop extends Chained r where
  /-- A protocol has a place in the chain exactly if it has a sink. -/
  linked_iff : ∀ p, (r.priority? p).isSome ↔ ∃ slot, (r.sink? p slot).isSome

@[simp] theorem chain_empty : (empty : Registry σ).chain = [] := rfl

theorem sound_empty : (empty : Registry σ).Sound where
  path := rfl
  nodup := List.nodup_nil
  mem_chain_iff p := by simp
  sorted := List.Pairwise.nil
  linked_iff p := by simp

/-- Storing a sink leaves the chain alone. -/
@[simp] theorem chain_store (r : Registry σ) (p : Protocol) (slot : Slot) (sink : σ) :
    (r.store p slot sink).chain = r.chain := by
  have hwalk : ∀ n start, (r.store p slot sink).walk n start = r.walk n start := by
    intro n
    induction n with
    | zero => intro start; rfl
    | succ n ih =>
      intro start
      cases start with
      | none => rfl
      | some q => rw [walk, walk, ih, next?_store]
  exact hwalk _ _

@[simp] theorem rank_store (r : Registry σ) (p q : Protocol) (slot : Slot) (sink : σ) :
    (r.store p slot sink).rank q = r.rank q := by
  simp [rank]

theorem Chained.store {r : Registry σ} (h : r.Chained) (p : Protocol) (slot : Slot) (sink : σ) :
    (r.store p slot sink).Chained where
  path := by
    rw [chain_store, head_store]
    exact h.path.congr fun q _ => next?_store r p q slot sink
  nodup := by rw [chain_store]; exact h.nodup
  mem_chain_iff q := by rw [chain_store, priority?_store]; exact h.mem_chain_iff q
  sorted := by simpa using h.sorted

theorem rank_link (r : Registry σ) (p q : Protocol) (v : UInt8) :
    (r.link p v).rank q = if q = p then v else r.rank q := by
  unfold rank
  rw [priority?_link]
  split <;> rfl

/-- The chain after a protocol was linked, as an insertion into a list. -/
theorem Chained.chain_link {r : Registry σ} (h : r.Chained) {p : Protocol}
    (hp : r.priority? p = none) (v : UInt8) :
    (r.link p v).chain =
      r.chain.takeWhile (r.rank · < v) ++ p :: r.chain.dropWhile (r.rank · < v) := by
  have hnew : p ∉ r.chain := by simp [h.mem_chain_iff, hp]
  refine (path_link h.path h.nodup (fun q hq => (h.mem_chain_iff q).mp hq) hnew v).chain_eq ?_
  rw [List.nodup_middle, List.takeWhile_append_dropWhile]
  exact List.nodup_cons.mpr ⟨hnew, h.nodup⟩

/-- A newcomer can be put between two parts of a list that is in order, if it is in order with both.
-/
theorem pairwise_splice {α : Type} {R : α → α → Prop} {front back : List α} {p : α}
    (h : (front ++ back).Pairwise R) (hfront : ∀ q ∈ front, R q p) (hback : ∀ q ∈ back, R p q) :
    (front ++ p :: back).Pairwise R := by
  obtain ⟨hf, hb, hacross⟩ := List.pairwise_append.mp h
  refine List.pairwise_append.mpr ⟨hf, List.pairwise_cons.mpr ⟨hback, hb⟩, ?_⟩
  intro q hq q' hq'
  rcases List.mem_cons.mp hq' with rfl | hq'
  · exact hfront q hq
  · exact hacross q hq q' hq'

/-- Of a list by ascending rank, the part that is left behind a newcomer ranks no higher than it. -/
theorem le_rank_of_mem_dropWhile {rank : Protocol → UInt8} {v : UInt8} {l : List Protocol}
    (hl : l.Pairwise fun p q => rank p ≤ rank q) {q : Protocol}
    (hq : q ∈ l.dropWhile (rank · < v)) : v ≤ rank q := by
  induction l with
  | nil => simp at hq
  | cons p l ih =>
    obtain ⟨hfirst, hrest⟩ := List.pairwise_cons.mp hl
    by_cases hp : rank p < v
    · rw [List.dropWhile_cons_of_pos (by simpa using hp)] at hq
      exact ih hrest hq
    · rw [List.dropWhile_cons_of_neg (by simpa using hp)] at hq
      have hv : v ≤ rank p := UInt8.not_lt.mp hp
      rcases List.mem_cons.mp hq with rfl | hq
      · exact hv
      · exact UInt8.le_trans hv (hfirst q hq)

theorem Chained.link {r : Registry σ} (h : r.Chained) {p : Protocol} (hp : r.priority? p = none)
    (v : UInt8) : (r.link p v).Chained := by
  have hchain := h.chain_link hp v
  have hnew : p ∉ r.chain := by simp [h.mem_chain_iff, hp]
  have hsplit : r.chain.takeWhile (r.rank · < v) ++ r.chain.dropWhile (r.rank · < v) = r.chain :=
    List.takeWhile_append_dropWhile
  have hrank : ∀ q ∈ r.chain, (r.link p v).rank q = r.rank q := by
    intro q hq
    rw [rank_link, if_neg fun hqp : q = p => hnew (hqp ▸ hq)]
  refine ⟨?path, ?nodup, ?mem, ?sorted⟩
  case path =>
    rw [hchain]
    exact path_link h.path h.nodup (fun q hq => (h.mem_chain_iff q).mp hq) hnew v
  case nodup =>
    rw [hchain, List.nodup_middle, hsplit]
    exact List.nodup_cons.mpr ⟨hnew, h.nodup⟩
  case mem =>
    intro q
    rw [hchain, List.mem_append, List.mem_cons, priority?_link, or_left_comm, ← List.mem_append,
      hsplit, h.mem_chain_iff]
    split <;> simp [*]
  case sorted =>
    have hself : (r.link p v).rank p = v := by rw [rank_link, if_pos rfl]
    have hsorted : r.chain.Pairwise fun q q' => (r.link p v).rank q ≤ (r.link p v).rank q' :=
      h.sorted.imp_of_mem fun hq hq' hle => by rwa [hrank _ hq, hrank _ hq']
    have hfront : ∀ q ∈ r.chain.takeWhile (r.rank · < v), (r.link p v).rank q ≤ v := by
      intro q hq
      rw [hrank q (List.takeWhile_subset _ hq)]
      exact UInt8.le_of_lt (by simpa using List.mem_takeWhile_imp hq)
    have hback : ∀ q ∈ r.chain.dropWhile (r.rank · < v), v ≤ (r.link p v).rank q := by
      intro q hq
      rw [hrank q (List.dropWhile_subset _ hq)]
      exact le_rank_of_mem_dropWhile h.sorted hq
    rw [← hsplit] at hsorted
    rw [hchain]
    exact pairwise_splice hsorted (fun q hq => by rw [hself]; exact hfront q hq)
      fun q hq => by rw [hself]; exact hback q hq

/-- A protocol without a place in the chain has no sink yet. -/
theorem Sound.sink?_eq_none {r : Registry σ} (h : r.Sound) {p : Protocol}
    (hp : r.priority? p = none) (slot : Slot) : r.sink? p slot = none := by
  by_contra hsink
  have hlinked := (h.linked_iff p).mpr ⟨slot, Option.isSome_iff_ne_none.mpr hsink⟩
  simp [hp] at hlinked

/-- The chain after an attachment: a protocol without a place in it is given one. -/
theorem Sound.chain_attach {r : Registry σ} (h : r.Sound) (p : Protocol) (v : UInt8) (slot : Slot)
    (sink : σ) :
    (r.attach p v slot sink).2.chain =
      if r.priority? p = none then
        r.chain.takeWhile (r.rank · < v) ++ p :: r.chain.dropWhile (r.rank · < v)
      else r.chain := by
  unfold Registry.attach
  dsimp only
  by_cases hp : r.priority? p = none
  · have hlink := (h.toChained.store p slot sink).chain_link (p := p) (by simp [hp]) v
    simpa [hp, h.sink?_eq_none hp slot] using hlink
  · simp [hp]

/-- **Attaching keeps the chain in order**, whatever is attached to what. -/
theorem Sound.attach {r : Registry σ} (h : r.Sound) (p : Protocol) (v : UInt8) (slot : Slot)
    (sink : σ) : (r.attach p v slot sink).2.Sound := by
  have hsink := fun q other => sink?_attach r p q v slot other sink
  have hprio := fun q => priority?_attach r p q v slot sink
  refine ⟨?chained, ?linked⟩
  case chained =>
    have hstored := h.toChained.store p slot sink
    unfold Registry.attach
    dsimp only
    split
    · next hfresh => exact hstored.link (by simp_all) v
    · exact hstored
  case linked =>
    intro q
    by_cases hqp : q = p
    · subst hqp
      have hholds : ∃ other, ((r.attach q v slot sink).2.sink? q other).isSome :=
        ⟨slot, by simp [hsink]⟩
      refine iff_of_true ?_ hholds
      rw [hprio]
      -- A protocol that is not linked now was linked before, with the sink it had.
      split
      · rfl
      · next hold =>
        cases hs : r.sink? q slot with
        | none => simp_all [Option.isSome_iff_ne_none]
        | some old => exact (h.linked_iff q).mpr ⟨slot, by simp [hs]⟩
    · simpa [hsink, hprio, hqp] using h.linked_iff q

/-! ## What stays -/

/-- A slot that holds a sink is never emptied again. -/
theorem sink?_isSome_attach {r : Registry σ} {p q : Protocol} {v : UInt8} {slot other : Slot}
    {sink : σ} (h : (r.sink? q other).isSome) :
    ((r.attach p v slot sink).2.sink? q other).isSome := by
  rw [sink?_attach]
  split
  · rfl
  · exact h

/-- A priority value is given once and for all. -/
theorem priority?_attach_of_eq_some {r : Registry σ} {p q : Protocol} {v w : UInt8} {slot : Slot}
    {sink : σ} (h : r.priority? q = some w) :
    (r.attach p v slot sink).2.priority? q = some w := by
  rw [priority?_attach, if_neg ?_]
  · exact h
  · rintro ⟨rfl, -, hnone⟩
    simp [hnone] at h

/-- What the search for a sink along the chain finds. -/
theorem firstSink?_eq_some {r : Registry σ} {slot : Slot} {passOver start : Option Protocol}
    {p : Protocol} {sink : σ} (h : r.firstSink? slot passOver start = some (p, sink)) :
    passOver ≠ some p ∧ r.sink? p slot = some sink := by
  obtain ⟨q, -, hq⟩ := List.exists_of_findSome?_eq_some h
  split at hq
  · cases hq
  · next hpass =>
    obtain ⟨found, hfound, heq⟩ := Option.map_eq_some_iff.mp hq
    cases heq
    exact ⟨hpass, hfound⟩

end SharedRadio.Registry
