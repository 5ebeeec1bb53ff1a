import SharedRadio.Proofs.Registry.Chain

/-!
# Where a walk along the chain goes on

A walk along the priority chain remembers the protocol that it came to last, and goes on behind it.
`mem_chainFrom_iff` says who stands there: exactly those that stand behind all the protocols that
the walk has come to, in the sense of `List.Sublist`. An attachment takes no protocol out of the
chain and changes no order in it (`chain_sublist_attach`), so this remains true of a walk that is
interrupted by attachments.

`Serves` says for which protocols a walk stops. `visit_of_firstSink?_eq_some` says that the next one
of them leaves none of the others behind.
-/

namespace SharedRadio

/-! ## The order of a list without repetition -/

section

variable {α : Type} {front back visited l : List α} {p q : α}

/-- What comes before an element comes before its place. -/
theorem sublist_front_of_append_singleton (hl : (front ++ q :: back).Nodup)
    (h : (visited ++ [q]).Sublist (front ++ q :: back)) : visited.Sublist front := by
  induction front generalizing visited with
  | nil =>
    have hback : q ∉ back := (List.nodup_cons.mp hl).1
    cases visited with
    | nil => exact List.Sublist.refl _
    | cons first rest =>
      cases h with
      | cons _ h => exact absurd (h.subset (by simp)) hback
      | cons_cons _ h => exact absurd (h.subset (by simp)) hback
  | cons x front ih =>
    have hrest := (List.nodup_cons.mp hl).2
    cases visited with
    | nil => exact List.nil_sublist _
    | cons first rest =>
      cases h with
      | cons _ h => exact (ih hrest h).cons x
      | cons_cons _ h => exact (ih hrest h).cons_cons x

/-- What comes after an element comes after its place. -/
theorem mem_back_of_pair_sublist (hl : (front ++ q :: back).Nodup)
    (h : [q, p].Sublist (front ++ q :: back)) : p ∈ back := by
  induction front with
  | nil =>
    cases h with
    | cons _ h => exact h.subset (by simp)
    | cons_cons _ h => exact h.subset (by simp)
  | cons x front ih =>
    obtain ⟨hx, hrest⟩ := List.nodup_cons.mp hl
    cases h with
    | cons _ h => exact ih hrest h
    | cons_cons _ h => exact absurd (by simp) hx

/-- One of two elements comes first. -/
theorem pair_sublist_or (hp : p ∈ l) (hq : q ∈ l) (hne : p ≠ q) :
    [p, q].Sublist l ∨ [q, p].Sublist l := by
  obtain ⟨front, back, rfl⟩ := List.append_of_mem hp
  rcases List.mem_append.mp hq with hfront | hback
  · right
    exact (List.singleton_sublist.mpr hfront).append (List.singleton_sublist.mpr (by simp))
  · left
    have hrest : q ∈ back := (List.mem_cons.mp hback).resolve_left hne.symm
    exact ((List.singleton_sublist.mpr hrest).cons_cons p).trans (List.sublist_append_right _ _)

/-- Not both of two elements come first. -/
theorem not_pair_sublist (hl : l.Nodup) (h : [p, q].Sublist l) : ¬ [q, p].Sublist l := by
  intro h'
  obtain ⟨front, back, rfl⟩ := List.append_of_mem (h.subset (by simp) : p ∈ l)
  have hfront : q ∈ front :=
    List.singleton_sublist.mp (sublist_front_of_append_singleton hl h')
  have hback : q ∈ back := mem_back_of_pair_sublist hl h
  exact (List.nodup_append.mp hl).2.2 q hfront q (by simp [hback]) rfl

/-- What comes first in a list comes first in a part of it. -/
theorem pair_sublist_of_sublist {part : List α} (hl : l.Nodup) (h : [p, q].Sublist l)
    (hpart : part.Sublist l) (hp : p ∈ part) (hq : q ∈ part) : [p, q].Sublist part := by
  have hne : p ≠ q := by simpa using hl.sublist h
  refine (pair_sublist_or hp hq hne).resolve_right fun hreverse => ?_
  exact not_pair_sublist hl h (hreverse.trans hpart)

end

namespace Registry

variable {σ : Type} {r : Registry σ} {visited : List Protocol}

/-! ## Behind the last protocol -/

/-- Where a walk goes on that came to a protocol last, if it has begun. -/
def startAfter (r : Registry σ) : Option Protocol → Option Protocol
  | none => r.head
  | some q => r.next? q

/-- What follows a protocol of the chain is the rest of the chain. -/
theorem Chained.exists_front (h : r.Chained) {q : Protocol} (hq : q ∈ r.chain) :
    ∃ front, r.chain = front ++ q :: r.chainFrom (r.next? q) := by
  obtain ⟨front, back, hchain⟩ := List.append_of_mem hq
  have hpath := h.path
  rw [hchain] at hpath
  obtain ⟨_, -, rfl, hback⟩ := path_append.mp hpath
  have hnodup := h.nodup
  rw [hchain] at hnodup
  have hrest : back.Nodup := (List.nodup_cons.mp (List.nodup_append.mp hnodup).2.1).2
  exact ⟨front, by rw [hchain, chainFrom, hback.walk_eq (length_le_count hrest)]⟩

/-- The protocols visited stand in a front part of the chain, the last one of them at its end, and
the walk goes on with the remaining part. -/
theorem Chained.exists_front_of_visited (h : r.Chained) (hv : visited.Sublist r.chain) :
    ∃ front, r.chain = front ++ r.chainFrom (r.startAfter visited.getLast?) ∧
      visited.Sublist front ∧ front.getLast? = visited.getLast? := by
  rcases List.eq_nil_or_concat visited with rfl | ⟨init, q, rfl⟩
  · exact ⟨[], rfl, List.Sublist.refl _, rfl⟩
  · rw [List.concat_eq_append] at hv ⊢
    obtain ⟨front, hchain⟩ := h.exists_front (hv.subset (by simp : q ∈ init ++ [q]))
    have hnodup := h.nodup
    rw [hchain] at hv hnodup
    have hinit : init.Sublist front := sublist_front_of_append_singleton hnodup hv
    refine ⟨front ++ [q], ?_, hinit.append (List.Sublist.refl _), ?_⟩
    · rw [List.getLast?_concat, List.append_assoc]
      exact hchain
    · rw [List.getLast?_concat, List.getLast?_concat]

/-- **A walk goes on with those that stand behind all the protocols visited.** -/
theorem Chained.mem_chainFrom_iff (h : r.Chained) (hv : visited.Sublist r.chain) (p : Protocol) :
    p ∈ r.chainFrom (r.startAfter visited.getLast?) ↔ (visited ++ [p]).Sublist r.chain := by
  obtain ⟨front, hchain, hfront, hlast⟩ := h.exists_front_of_visited hv
  generalize r.chainFrom (r.startAfter visited.getLast?) = back at hchain ⊢
  constructor
  · intro hp
    rw [hchain]
    exact hfront.append (List.singleton_sublist.mpr hp)
  · intro hp
    have hnodup := h.nodup
    rw [hchain] at hp hnodup
    rcases List.eq_nil_or_concat visited with rfl | ⟨init, q, rfl⟩
    · rw [List.getLast?_nil, List.getLast?_eq_none_iff] at hlast
      subst hlast
      exact List.singleton_sublist.mp hp
    · rw [List.concat_eq_append] at hp hlast
      rw [List.getLast?_concat, List.getLast?_eq_some_iff] at hlast
      obtain ⟨start, rfl⟩ := hlast
      have hpair : [q, p].Sublist (start ++ q :: back) := by
        rw [List.append_assoc, List.append_assoc] at hp
        exact (List.sublist_append_right init _).trans hp
      rw [List.append_assoc] at hnodup
      exact mem_back_of_pair_sublist hnodup hpair

/-! ## For whom a walk stops -/

/-- A protocol has a sink in a slot, and is not the one to pass over. -/
def Serves (r : Registry σ) (slot : Slot) (passOver : Option Protocol) (p : Protocol) : Prop :=
  passOver ≠ some p ∧ (r.sink? p slot).isSome

/-- A search that finds nothing has met nobody for whom to stop. -/
theorem not_serves_of_firstSink?_eq_none {slot : Slot} {passOver start : Option Protocol}
    (h : r.firstSink? slot passOver start = none) {p : Protocol} (hp : p ∈ r.chainFrom start) :
    ¬ r.Serves slot passOver p := by
  rintro ⟨hpass, hsink⟩
  have hnone := List.findSome?_eq_none_iff.mp h p hp
  rw [if_neg hpass, Option.map_eq_none_iff] at hnone
  rw [hnone] at hsink
  cases hsink

/-- A search finds the first protocol for which to stop. -/
theorem exists_gap_of_firstSink?_eq_some {slot : Slot} {passOver start : Option Protocol}
    {p : Protocol} {sink : σ} (h : r.firstSink? slot passOver start = some (p, sink)) :
    r.Serves slot passOver p ∧ ∃ gap rest, r.chainFrom start = gap ++ p :: rest ∧
      ∀ q ∈ gap, ¬ r.Serves slot passOver q := by
  obtain ⟨hpass, hsink⟩ := firstSink?_eq_some h
  refine ⟨⟨hpass, by rw [hsink]; rfl⟩, ?_⟩
  obtain ⟨gap, p', rest, hsplit, hp', hgap⟩ := List.findSome?_eq_some_iff.mp h
  have hsame : p' = p := by
    split at hp'
    · cases hp'
    · obtain ⟨_, -, heq⟩ := Option.map_eq_some_iff.mp hp'
      exact congrArg Prod.fst heq
  refine ⟨gap, rest, hsame ▸ hsplit, fun q hq hserves => ?_⟩
  have hnone := hgap q hq
  rw [if_neg hserves.1, Option.map_eq_none_iff] at hnone
  rw [Serves, hnone] at hserves
  cases hserves.2

/-- A search from a protocol for which to stop finds that one. -/
theorem firstSink?_of_serves {q : Protocol} {l : List Protocol}
    (hpath : r.Path (some q) (q :: l) none) (hlength : (q :: l).length ≤ Protocol.count)
    {slot : Slot} {passOver : Option Protocol} (hq : r.Serves slot passOver q) :
    ∃ sink, r.sink? q slot = some sink ∧
      r.firstSink? slot passOver (some q) = some (q, sink) := by
  obtain ⟨hincluded, hsink⟩ := hq
  obtain ⟨sink, hsink⟩ := Option.isSome_iff_exists.mp hsink
  refine ⟨sink, hsink, ?_⟩
  rw [firstSink?, chainFrom, hpath.walk_eq hlength, List.findSome?_cons, if_neg hincluded, hsink]
  rfl

/-- A search from any other protocol goes on from the next one. -/
theorem firstSink?_of_not_serves {q : Protocol} {l : List Protocol}
    (hpath : r.Path (some q) (q :: l) none) (hlength : (q :: l).length ≤ Protocol.count)
    {slot : Slot} {passOver : Option Protocol} (hq : ¬ r.Serves slot passOver q) :
    r.firstSink? slot passOver (some q) = r.firstSink? slot passOver (r.next? q) := by
  have hnone : (if passOver = some q then none
      else (r.sink? q slot).map fun sink => (q, sink)) = none := by
    split
    · rfl
    · next hincluded => simpa [Serves, hincluded] using hq
  rw [firstSink?, chainFrom, hpath.walk_eq hlength, List.findSome?_cons, hnone, firstSink?,
    chainFrom, hpath.2.walk_eq (Nat.le_of_succ_le hlength)]

/-- **A walk leaves nobody behind.** The protocol that it comes to next stands behind those that it
has come to, and whoever stands behind those and is to be served is that one, or stands behind it
in turn. -/
theorem Chained.visit_of_firstSink?_eq_some (h : r.Chained) (hv : visited.Sublist r.chain)
    {slot : Slot} {passOver : Option Protocol} {p : Protocol} {sink : σ}
    (hfirst : r.firstSink? slot passOver (r.startAfter visited.getLast?) = some (p, sink)) :
    r.Serves slot passOver p ∧ (visited ++ [p]).Sublist r.chain ∧
      ∀ q, r.Serves slot passOver q → (visited ++ [q]).Sublist r.chain →
        q = p ∨ (visited ++ [p] ++ [q]).Sublist r.chain := by
  obtain ⟨hserves, gap, rest, hsplit, hgap⟩ := exists_gap_of_firstSink?_eq_some hfirst
  have hmem : p ∈ r.chainFrom (r.startAfter visited.getLast?) := by simp [hsplit]
  refine ⟨hserves, (h.mem_chainFrom_iff hv p).mp hmem, fun q hq hahead => ?_⟩
  have hq' := (h.mem_chainFrom_iff hv q).mpr hahead
  rw [hsplit] at hq'
  rcases List.mem_append.mp hq' with hskipped | hfound
  · exact absurd hq (hgap q hskipped)
  · rcases List.mem_cons.mp hfound with rfl | hbehind
    · exact .inl rfl
    · right
      obtain ⟨front, hchain, hfront, -⟩ := h.exists_front_of_visited hv
      rw [hchain, hsplit, List.append_assoc]
      have hpair : [p, q].Sublist (p :: rest) := (List.singleton_sublist.mpr hbehind).cons_cons p
      exact hfront.append (hpair.trans (List.sublist_append_right gap _))

/-- A walk that finds nobody has come to all for whom it was to stop. -/
theorem Chained.not_ahead_of_firstSink?_eq_none (h : r.Chained) (hv : visited.Sublist r.chain)
    {slot : Slot} {passOver : Option Protocol}
    (hnone : r.firstSink? slot passOver (r.startAfter visited.getLast?) = none) {q : Protocol}
    (hq : r.Serves slot passOver q) : ¬ (visited ++ [q]).Sublist r.chain := fun hahead =>
  not_serves_of_firstSink?_eq_none hnone ((h.mem_chainFrom_iff hv q).mpr hahead) hq

/-! ## Attachments -/

/-- An attachment takes nobody out of the chain, and changes no order in it. -/
theorem Sound.chain_sublist_attach (h : r.Sound) (p : Protocol) (v : UInt8) (slot : Slot)
    (sink : σ) : r.chain.Sublist (r.attach p v slot sink).2.chain := by
  rw [h.chain_attach]
  split
  · conv_lhs => rw [← List.takeWhile_append_dropWhile (p := (r.rank · < v)) (l := r.chain)]
    exact (List.Sublist.refl _).append (List.sublist_cons_self _ _)
  · exact List.Sublist.refl _

/-- A protocol with a sink has a place in the chain. -/
theorem Sound.mem_chain_of_sink (h : r.Sound) {p : Protocol} {slot : Slot}
    (hp : (r.sink? p slot).isSome) : p ∈ r.chain :=
  (h.mem_chain_iff p).mpr ((h.linked_iff p).mpr ⟨slot, hp⟩)

end Registry

end SharedRadio
