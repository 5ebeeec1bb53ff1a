import Mathlib.Logic.Function.Basic
import SharedRadio.Coexistence.Engine

/-!
# What an action can do

An action of the engine is looked at from outside: where the engine stands before it and after it,
what it comes to, and what is noticed in its course. A `Course` is a relation between these four,
and an action `Follows` a course if it never does anything else. Courses are put together as actions
are, so that `Follows.bind` gets the course of an action from the courses of its steps.
-/

namespace SharedRadio.Coexistence

/-- A state that is looked at from outside: where it stands, and what has been noticed. -/
class Watched (σ : Type) (υ : outParam Type) where
  /-- Where the state stands. -/
  stance : σ → υ
  /-- What has been noticed, in order. -/
  sightings : σ → List Sighting

/-- The ways in which an action can go: where it begins, what it comes to, what is noticed in its
course, and where it ends. -/
abbrev Course (υ ε α : Type) := υ → Except ε α → List Sighting → υ → Prop

variable {σ υ ε α β : Type}

namespace Course

/-- Nothing can go wrong. -/
def does (a : α) (t : List Sighting) (g : υ → υ) : Course υ ε α :=
  fun v x u w => x = .ok a ∧ u = t ∧ w = g v

/-- Nothing is done, and it fails. -/
def fails (e : ε) : Course υ ε α := fun v x t w => x = .error e ∧ t = [] ∧ w = v

/-- One course after the other. -/
inductive andThen (c : Course υ ε α) (d : α → Course υ ε β) : Course υ ε β
  /-- The first one comes to something, and the second goes on with that. -/
  | goesOn {v v' w : υ} {a : α} {x : Except ε β} {t u : List Sighting} (first : c v (.ok a) t v')
      (second : d a v' x u w) : andThen c d v x (t ++ u) w
  /-- The first one fails. -/
  | stops {v w : υ} {e : ε} {t : List Sighting} (first : c v (.error e) t w) :
      andThen c d v (.error e) t w

theorem does_andThen {a : α} {t : List Sighting} {g : υ → υ} {d : α → Course υ ε β} {v w : υ}
    {x : Except ε β} {u : List Sighting} :
    (does a t g).andThen d v x u w ↔ ∃ u', u = t ++ u' ∧ d a (g v) x u' w := by
  constructor
  · rintro (⟨⟨ha, rfl, rfl⟩, second⟩ | ⟨hx, -, -⟩)
    · cases ha
      exact ⟨_, rfl, second⟩
    · cases hx
  · rintro ⟨u', rfl, second⟩
    exact .goesOn ⟨rfl, rfl, rfl⟩ second

theorem andThen.assoc {γ : Type} {c : Course υ ε α} {d : α → Course υ ε β} {f : β → Course υ ε γ}
    {v w : υ} {x : Except ε γ} {t : List Sighting}
    (h : (c.andThen fun a => (d a).andThen f) v x t w) : ((c.andThen d).andThen f) v x t w := by
  cases h with
  | goesOn first rest =>
    cases rest with
    | goesOn second third =>
      rw [← List.append_assoc]
      exact .goesOn (.goesOn first second) third
    | stops second => exact .stops (.goesOn first second)
  | stops first => exact .stops (.stops first)

theorem andThen.mono {c c' : Course υ ε α} {d : α → Course υ ε β} {v w : υ} {x : Except ε β}
    {t : List Sighting} (h : c.andThen d v x t w) (himp : ∀ v x t w, c v x t w → c' v x t w) :
    c'.andThen d v x t w := by
  cases h with
  | goesOn first second => exact .goesOn (himp _ _ _ _ first) second
  | stops first => exact .stops (himp _ _ _ _ first)

/-- A course, with another reading of what it comes to. -/
def map (f : α → β) (c : Course υ ε α) : Course υ ε β :=
  fun v x t w => ∃ y : Except ε α, c v y t w ∧ x = y.map f

end Course

/-! ## Actions that follow a course -/

theorem run_bind (action : ExceptT ε (StateM σ) α) (f : α → ExceptT ε (StateM σ) β) (s : σ) :
    (action >>= f).run s = ExceptT.bindCont f (action.run s).1 (action.run s).2 := rfl

theorem run_bind_of_ok {action : ExceptT ε (StateM σ) α} {f : α → ExceptT ε (StateM σ) β}
    {s s' : σ} {a : α} (h : action.run s = (.ok a, s')) :
    (action >>= f).run s = (f a).run s' := by
  rw [run_bind, h]
  rfl

theorem run_bind_of_error {action : ExceptT ε (StateM σ) α} {f : α → ExceptT ε (StateM σ) β}
    {s s' : σ} {e : ε} (h : action.run s = (.error e, s')) :
    (action >>= f).run s = (.error e, s') := by
  rw [run_bind, h]
  rfl

theorem run_map (f : α → β) (action : ExceptT ε (StateM σ) α) (s : σ) :
    (f <$> action).run s = ((action.run s).1.map f, (action.run s).2) := by
  simp only [Functor.map, ExceptT.map, ExceptT.run, ExceptT.mk, bind, StateT.bind]
  rcases action s with ⟨_ | _, s'⟩ <;> rfl

theorem run_get_bind (f : σ → ExceptT ε (StateM σ) α) (s : σ) :
    (get >>= f).run s = (f s).run s := rfl

theorem run_set_bind (f : PUnit → ExceptT ε (StateM σ) α) (s s' : σ) :
    (set s' >>= f).run s = (f ⟨⟩).run s' := rfl

section Follows

variable [Watched σ υ]

/-- An action that never goes another way than a course says. -/
def Follows (action : ExceptT ε (StateM σ) α) (course : Course υ ε α) : Prop :=
  ∀ s, ∃ t, Watched.sightings (action.run s).2 = Watched.sightings s ++ t ∧
    course (Watched.stance s) (action.run s).1 t (Watched.stance (action.run s).2)

variable {action : ExceptT ε (StateM σ) α} {f : α → ExceptT ε (StateM σ) β}

theorem Follows.mono {c d : Course υ ε α} (h : Follows action c)
    (himp : ∀ v x t w, c v x t w → d v x t w) : Follows action d := by
  intro s
  obtain ⟨t, ht, hc⟩ := h s
  exact ⟨t, ht, himp _ _ _ _ hc⟩

/-- An action that is run when something has been noticed already adds to that. -/
theorem Follows.run_after {c d : Course υ ε α} (h : Follows action c) {s s' : σ}
    {t : List Sighting} (ht : Watched.sightings s' = Watched.sightings s ++ t)
    (himp : ∀ x u w, c (Watched.stance s') x u w → d (Watched.stance s) x (t ++ u) w) :
    ∃ u, Watched.sightings (action.run s').2 = Watched.sightings s ++ u ∧
      d (Watched.stance s) (action.run s').1 u (Watched.stance (action.run s').2) := by
  obtain ⟨u, hu, hc⟩ := h s'
  refine ⟨t ++ u, ?_, himp _ _ _ hc⟩
  rw [hu, ht, List.append_assoc]

theorem follows_pure (a : α) :
    Follows (pure a : ExceptT ε (StateM σ) α) (Course.does a [] id) :=
  fun _ => ⟨[], (List.append_nil _).symm, rfl, rfl, rfl⟩

theorem follows_throw (e : ε) :
    Follows (throw e : ExceptT ε (StateM σ) α) (Course.fails e) :=
  fun _ => ⟨[], (List.append_nil _).symm, rfl, rfl, rfl⟩

theorem follows_modify {g : σ → σ} {t : List Sighting} {g' : υ → υ}
    (hsightings : ∀ s, Watched.sightings (g s) = Watched.sightings s ++ t)
    (hstance : ∀ s, Watched.stance (g s) = g' (Watched.stance s)) :
    Follows (modify g : ExceptT ε (StateM σ) Unit) (Course.does () t g') :=
  fun s => ⟨t, hsightings s, rfl, rfl, hstance s⟩

theorem Follows.bind {c : Course υ ε α} {d : α → Course υ ε β} (h : Follows action c)
    (hf : ∀ a, Follows (f a) (d a)) : Follows (action >>= f) (c.andThen d) := by
  intro s
  obtain ⟨t, ht, hc⟩ := h s
  rw [run_bind]
  generalize action.run s = o at ht hc ⊢
  obtain ⟨e | a, s'⟩ := o
  · exact ⟨t, ht, .stops hc⟩
  · exact (hf a).run_after ht fun _ _ _ hd => .goesOn hc hd

/-- An action that first looks at the state may go on according to what it sees. -/
theorem Follows.get_bind {f : σ → ExceptT ε (StateM σ) α} {c : Course υ ε α}
    (hf : ∀ s, Follows (f s) fun v x t w => v = Watched.stance s → c v x t w) :
    Follows (get >>= f) c := by
  intro s
  rw [run_get_bind]
  obtain ⟨t, ht, hc⟩ := hf s s
  exact ⟨t, ht, hc rfl⟩

theorem Follows.bind_pure {c : Course υ ε α} (h : Follows action c) (f : α → β) :
    Follows (action >>= fun a => pure (f a)) (c.map f) := by
  refine (h.bind fun a => follows_pure (f a)).mono ?_
  rintro v x t w (⟨first, rfl, rfl, rfl⟩ | first)
  · exact ⟨.ok _, by rwa [List.append_nil], rfl⟩
  · exact ⟨.error _, first, rfl⟩

theorem Follows.map {c : Course υ ε α} (h : Follows action c) (f : α → β) :
    Follows (f <$> action) (c.map f) := by
  intro s
  obtain ⟨t, ht, hc⟩ := h s
  rw [run_map]
  exact ⟨t, ht, _, hc, rfl⟩

end Follows

end SharedRadio.Coexistence
