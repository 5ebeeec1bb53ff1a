import Mathlib.Data.List.Infix
import Mathlib.Data.List.TakeWhile
import SharedRadio.Interrupt.Lemmas
import SharedRadio.Interrupt.Routine

/-!
# What a masked section keeps

Masked sections nest, for the same line or for different ones, and the work inside them may switch
any line. `sectionsAll` lists every section that is taken in the course of some routines, each with
the controller at the moment when it is taken; the notes of a section stand together in the notes of
the whole (`notes_infix_of_mem`).

The one thing that could go wrong is that the end of an inner section unmasks the line of an outer
one. It does not, because the inner section finds the line masked and leaves it so. `Quiet` states
this for a list of notes: up to the note that says that the line was enabled by the work itself,
every note finds the line masked. `quiet_run` carries it through routines of any shape, by induction
on the tree, and `guards_sectionsAll` reads off what every section of every run keeps.
-/

namespace SharedRadio

/-! ## Single bits -/

namespace InterruptController

/-- Two controllers have the same enable bits, except perhaps that of one line. -/
def AgreeBeside (line : InterruptLine) (c c' : InterruptController) : Prop :=
  ∀ (i : Fin wordCount) (b : Nat), ¬ (i = line.word ∧ b = line.val % 32) →
    (c'.word i).toNat.testBit b = (c.word i).toNat.testBit b

/-- The bit at a place of a word tells whether a line is enabled, or it is never set. -/
theorem testBit_word_eq {c c' : InterruptController} {i : Fin wordCount} {b : Nat}
    (h : ∀ line : InterruptLine, line.word = i → line.val % 32 = b →
      c'.isEnabled line = c.isEnabled line) :
    (c'.word i).toNat.testBit b = (c.word i).toNat.testBit b := by
  by_cases hb : b < 32
  · have hi : i.val < wordCount := i.isLt
    let line : InterruptLine := ⟨32 * i.val + b, by omega⟩
    have hword : line.word = i := Fin.ext (show (32 * i.val + b) / 32 = i.val by omega)
    have hplace : line.val % 32 = b := show (32 * i.val + b) % 32 = b by omega
    have hline := h line hword hplace
    rwa [isEnabled_eq_testBit, isEnabled_eq_testBit, hword, hplace] at hline
  · have hnone (w : UInt32) : w.toNat.testBit b = false :=
      Nat.testBit_lt_two_pow (w.toNat_lt.trans_le (Nat.pow_le_pow_right (by decide) (by omega)))
    rw [hnone, hnone]

theorem agreeBeside_of_isEnabled {line : InterruptLine} {c c' : InterruptController}
    (h : ∀ other, other ≠ line → c'.isEnabled other = c.isEnabled other) :
    AgreeBeside line c c' := by
  intro i b hplace
  refine testBit_word_eq fun other hword hb => h other ?_
  rintro rfl
  exact hplace ⟨hword.symm, hb.symm⟩

theorem mem_enabledLines {c : InterruptController} {line : InterruptLine} :
    line ∈ c.enabledLines ↔ c.isEnabled line = true := by
  simp [enabledLines, InterruptLine.all]

end InterruptController

namespace Routine

/-! ## Reading notes -/

namespace Note

/-- The lines that were enabled at the moment of a note, if it tells. -/
def on? : Note → Option (List InterruptLine)
  | .enabled _ on | .disabled _ on | .locked _ on | .unlocked _ on => some on
  | .returned _ => none

/-- At the moment of a note a line was masked. -/
def Masks (line : InterruptLine) (note : Note) : Prop := ∀ on ∈ note.on?, line ∉ on

instance (line : InterruptLine) (note : Note) : Decidable (note.Masks line) :=
  inferInstanceAs (Decidable (∀ on ∈ note.on?, line ∉ on))

/-- The work itself enabled a line. -/
def isEnabling (line : InterruptLine) : Note → Bool
  | .enabled other _ => other == line
  | _ => false

/-- A masked section began. -/
def isLocked : Note → Bool
  | .locked .. => true
  | _ => false

end Note

/-- A line that is masked at the beginning stays masked until the work enables it: so the notes
find it, and so it is at the end. -/
structure Quiet (line : InterruptLine) (notes : List Note) (after : InterruptController) :
    Prop where
  /-- Up to the first enabling of the line every note finds it masked. -/
  noted : ∀ note ∈ notes.takeWhile fun note => !note.isEnabling line, note.Masks line
  /-- If it is not enabled at all, it is masked at the end. -/
  masked : (∀ note ∈ notes, note.isEnabling line = false) → after.isEnabled line = false

namespace Quiet

variable {line : InterruptLine} {notes more : List Note} {after last : InterruptController}

/-- One note that finds the line as it is after it. -/
theorem single {note : Note} (hon : note.on? = some after.enabledLines)
    (h : note.isEnabling line = false → after.isEnabled line = false) :
    Quiet line [note] after := by
  constructor
  case noted =>
    intro note' hnote
    cases henabling : note.isEnabling line with
    | true => simp [henabling] at hnote
    | false =>
      have hsame : note' = note := by simpa [henabling] using hnote
      intro on hmem hline
      obtain rfl : after.enabledLines = on := by simpa [hsame, hon] using hmem
      rw [InterruptController.mem_enabledLines, h henabling] at hline
      cases hline
  case masked =>
    intro hnever
    exact h (hnever note (List.mem_singleton_self note))

/-- The second piece of work need only be quiet if the line is still masked when it begins. -/
theorem append (h : Quiet line notes after)
    (h' : after.isEnabled line = false → Quiet line more last) :
    Quiet line (notes ++ more) last := by
  by_cases hnever : ∀ note ∈ notes, note.isEnabling line = false
  · have hmore := h' (h.masked hnever)
    constructor
    case noted =>
      rw [List.takeWhile_append_of_pos fun note hnote => by simp [hnever note hnote]]
      intro note hnote
      rcases List.mem_append.mp hnote with hold | hnew
      · refine h.noted note ?_
        rwa [List.takeWhile_eq_self_iff.mpr fun note hnote => by simp [hnever note hnote]]
      · exact hmore.noted note hnew
    case masked =>
      intro hnone
      exact hmore.masked fun note hnote => hnone note (List.mem_append_right _ hnote)
  · -- The line was enabled in the first piece, and nothing is claimed of what came after.
    obtain ⟨note, hnote, henabling⟩ : ∃ note ∈ notes, note.isEnabling line = true := by
      simpa using hnever
    constructor
    case noted =>
      have hstop : (notes ++ more).takeWhile (fun note => !note.isEnabling line) =
          notes.takeWhile fun note => !note.isEnabling line := by
        rw [List.takeWhile_append, if_neg]
        intro hlength
        have hall := List.takeWhile_eq_self_iff.mp
          ((List.takeWhile_prefix _).eq_of_length hlength) note hnote
        simp [henabling] at hall
      rw [hstop]
      exact h.noted
    case masked =>
      intro hnone
      have hfalse := hnone note (List.mem_append_left _ hnote)
      rw [henabling] at hfalse
      cases hfalse

end Quiet

/-! ## Running routines with a line masked -/

theorem isEnabled_masked {α : Type} (line : InterruptLine)
    (work : InterruptController → α × InterruptController) (c : InterruptController)
    (other : InterruptLine) :
    (c.masked line work).2.isEnabled other =
      (decide (other = line) && c.isEnabled line || (work (c.disable line)).2.isEnabled other) := by
  unfold InterruptController.masked
  cases c.isEnabled line <;> simp

mutual

/-- Whatever a routine does, it leaves a masked line masked unless it enables it itself. -/
theorem quiet_run (line : InterruptLine) (r : Routine) (c : InterruptController)
    (h : c.isEnabled line = false) : Quiet line (run r c).1 (run r c).2 := by
  match r with
  | .enable other =>
    refine .single rfl fun hother => ?_
    have hne : line ≠ other := fun heq => by simp [Note.isEnabling, heq] at hother
    rw [run, InterruptController.isEnabled_enable, decide_eq_false hne, h]
    rfl
  | .disable other =>
    refine .single rfl fun _ => ?_
    rw [run, InterruptController.isEnabled_disable, h, Bool.and_false]
  | .lock other body =>
    have hentered : (c.disable other).isEnabled line = false := by
      rw [InterruptController.isEnabled_disable, h, Bool.and_false]
    have hbegins : Quiet line [.locked other (c.disable other).enabledLines] (c.disable other) :=
      .single rfl fun _ => hentered
    have hbody := hbegins.append fun _ => quiet_runAll line body (c.disable other) hentered
    suffices hends : (runAll body (c.disable other)).2.isEnabled line = false →
        Quiet line [.unlocked other (run (.lock other body) c).2.enabledLines,
          .returned body.length] (run (.lock other body) c).2 from hbody.append hends
    intro hleft
    -- The end of the section enables only its own line, and only if it was enabled before.
    have hafter : (run (.lock other body) c).2.isEnabled line = false := by
      rw [run, isEnabled_masked, hleft, Bool.or_false, Bool.and_eq_false_imp, decide_eq_true_eq]
      rintro rfl
      exact h
    have hunlocked : Quiet line [.unlocked other (run (.lock other body) c).2.enabledLines]
        (run (.lock other body) c).2 := .single rfl fun _ => hafter
    have hreturned : Quiet line [.returned body.length] (run (.lock other body) c).2 := by
      refine ⟨?_, fun _ => hafter⟩
      intro note hnote
      obtain rfl := List.mem_singleton.mp hnote
      exact nofun
    exact hunlocked.append fun _ => hreturned

/-- The same for routines one after the other. -/
theorem quiet_runAll (line : InterruptLine) (rs : List Routine) (c : InterruptController)
    (h : c.isEnabled line = false) : Quiet line (runAll rs c).1 (runAll rs c).2 := by
  match rs with
  | [] => exact ⟨nofun, fun _ => h⟩
  | r :: rest =>
    exact (quiet_run line r c h).append fun hafter => quiet_runAll line rest (run r c).2 hafter

end

/-! ## The sections of a run -/

/-- A masked section, as it is taken in a run. -/
structure Section where
  /-- The line that it masks. -/
  line : InterruptLine
  /-- The work inside it. -/
  body : List Routine
  /-- The controller when it is taken. -/
  before : InterruptController

namespace Section

/-- The controller when the work begins. -/
def entered (s : Section) : InterruptController := s.before.disable s.line

/-- What the work notes. -/
def inner (s : Section) : List Note := (runAll s.body s.entered).1

/-- The controller as the work leaves it. -/
def left (s : Section) : InterruptController := (runAll s.body s.entered).2

/-- All that is noted of the section. -/
def notes (s : Section) : List Note := (run (.lock s.line s.body) s.before).1

/-- The controller when the section has ended. -/
def after (s : Section) : InterruptController := (run (.lock s.line s.body) s.before).2

end Section

mutual

/-- The sections that are taken in the course of a routine. -/
def sections : Routine → InterruptController → List Section
  | .enable _, _ => []
  | .disable _, _ => []
  | .lock line body, c => ⟨line, body, c⟩ :: sectionsAll body (c.disable line)

/-- The sections that are taken in the course of some routines. -/
def sectionsAll : List Routine → InterruptController → List Section
  | [], _ => []
  | r :: rest, c => sections r c ++ sectionsAll rest (run r c).2

end

theorem Section.notes_eq (s : Section) :
    s.notes = .locked s.line s.entered.enabledLines :: s.inner ++
      [.unlocked s.line s.after.enabledLines, .returned s.body.length] := by
  rw [notes, after, run]
  rfl

/-- The note with which a section begins. -/
def Section.beginning (s : Section) : Note := .locked s.line s.entered.enabledLines

mutual

/-- A section begins wherever a note says so, and nowhere else. -/
theorem filter_isLocked_run (r : Routine) (c : InterruptController) :
    (run r c).1.filter Note.isLocked = (sections r c).map Section.beginning := by
  match r with
  | .enable _ | .disable _ => rfl
  | .lock line body =>
    have hbody := filter_isLocked_runAll body (c.disable line)
    have hnotes := Section.notes_eq ⟨line, body, c⟩
    calc (run (.lock line body) c).1.filter Note.isLocked
        = .locked line (c.disable line).enabledLines ::
            (runAll body (c.disable line)).1.filter Note.isLocked := by
          rw [show (run (.lock line body) c).1 = _ from hnotes, List.filter_append]
          exact List.append_nil _
      _ = (sections (.lock line body) c).map Section.beginning := by rw [hbody, sections]; rfl

/-- The same for routines one after the other. -/
theorem filter_isLocked_runAll (rs : List Routine) (c : InterruptController) :
    (runAll rs c).1.filter Note.isLocked = (sectionsAll rs c).map Section.beginning := by
  match rs with
  | [] => rfl
  | r :: rest =>
    have hfirst := filter_isLocked_run r c
    have hrest := filter_isLocked_runAll rest (run r c).2
    calc (runAll (r :: rest) c).1.filter Note.isLocked
        = (run r c).1.filter Note.isLocked ++
            (runAll rest (run r c).2).1.filter Note.isLocked := List.filter_append ..
      _ = (sectionsAll (r :: rest) c).map Section.beginning := by
          rw [hfirst, hrest, sectionsAll, List.map_append]

end

mutual

/-- The notes of a section stand together in the notes of the routine in which it is taken. -/
theorem notes_infix_of_mem_sections {s : Section} (r : Routine) (c : InterruptController)
    (h : s ∈ sections r c) : s.notes <:+: (run r c).1 := by
  match r with
  | .enable _ | .disable _ => cases h
  | .lock line body =>
    rcases List.mem_cons.mp h with rfl | hinner
    · exact List.infix_refl _
    · have hbody := notes_infix_of_mem body (c.disable line) hinner
      have hwhole : (runAll body (c.disable line)).1 <:+: (run (.lock line body) c).1 :=
        ⟨[.locked line (c.disable line).enabledLines], _, (Section.notes_eq ⟨line, body, c⟩).symm⟩
      exact hbody.trans hwhole

/-- The same for routines one after the other. -/
theorem notes_infix_of_mem {s : Section} (rs : List Routine) (c : InterruptController)
    (h : s ∈ sectionsAll rs c) : s.notes <:+: (runAll rs c).1 := by
  match rs with
  | [] => cases h
  | r :: rest =>
    rcases List.mem_append.mp h with hfirst | hrest
    · exact (notes_infix_of_mem_sections r c hfirst).trans (List.prefix_append _ _).isInfix
    · exact (notes_infix_of_mem rest _ hrest).trans (List.suffix_append _ _).isInfix

end

/-! ## What a section keeps -/

/-- What a masked section keeps, whatever the work inside it does. -/
structure Section.Guards (s : Section) : Prop where
  /-- Its notes: it begins, the work goes on, and it ends and hands on a value. -/
  course : s.notes = .locked s.line s.entered.enabledLines :: s.inner ++
    [.unlocked s.line s.after.enabledLines, .returned s.body.length]
  /-- The line is masked when the work begins, -/
  masked : s.entered.isEnabled s.line = false
  /-- and stays so until the work itself enables it. -/
  quiet : Quiet s.line s.inner s.left
  /-- The end of a section inside it does not unmask the line, if the work never enables it. -/
  nested : (∀ note ∈ s.inner, note.isEnabling s.line = false) →
    ∀ inside ∈ sectionsAll s.body s.entered, inside.after.isEnabled s.line = false
  /-- At the end the line is enabled if it was so when the section was taken, or if the work left
  it so. -/
  restored : s.after.isEnabled s.line = true ↔
    s.before.isEnabled s.line = true ∨ s.left.isEnabled s.line = true
  /-- Every other line is then as the work left it. -/
  others : ∀ other, other ≠ s.line → s.after.isEnabled other = s.left.isEnabled other
  /-- Taking the section touches one bit of the controller at most, -/
  taking : InterruptController.AgreeBeside s.line s.before s.entered
  /-- and so does leaving it. -/
  leaving : InterruptController.AgreeBeside s.line s.left s.after

theorem Section.isEnabled_after (s : Section) (other : InterruptLine) :
    s.after.isEnabled other =
      (decide (other = s.line) && s.before.isEnabled s.line || s.left.isEnabled other) := by
  rw [after, run, isEnabled_masked]
  rfl

theorem Section.isEnabled_entered (s : Section) (other : InterruptLine) :
    s.entered.isEnabled other = (decide (other ≠ s.line) && s.before.isEnabled other) :=
  InterruptController.isEnabled_disable _ _ _

/-- Inside a section that never enables its line every other section leaves the line masked. -/
theorem Section.nested_of_quiet {s : Section} (hquiet : Quiet s.line s.inner s.left)
    (hnever : ∀ note ∈ s.inner, note.isEnabling s.line = false) {inside : Section}
    (hinside : inside ∈ sectionsAll s.body s.entered) : inside.after.isEnabled s.line = false := by
  have hnote : Note.unlocked inside.line inside.after.enabledLines ∈ s.inner := by
    refine (notes_infix_of_mem s.body s.entered hinside).subset ?_
    rw [inside.notes_eq]
    simp
  have hmasks := hquiet.noted _ (by
    rwa [List.takeWhile_eq_self_iff.mpr fun note h => by simp [hnever note h]]) _ rfl
  rwa [InterruptController.mem_enabledLines, Bool.not_eq_true] at hmasks

theorem Section.guards (s : Section) : s.Guards := by
  have hmasked : s.entered.isEnabled s.line = false := by
    rw [s.isEnabled_entered]
    simp
  have hquiet : Quiet s.line s.inner s.left := quiet_runAll s.line s.body s.entered hmasked
  have hothers : ∀ other, other ≠ s.line → s.after.isEnabled other = s.left.isEnabled other := by
    intro other hother
    rw [s.isEnabled_after, decide_eq_false hother]
    rfl
  refine ⟨s.notes_eq, hmasked, hquiet, ?nested, ?restored, hothers, ?taking, ?leaving⟩
  case nested => exact fun hnever inside hinside => s.nested_of_quiet hquiet hnever hinside
  case restored => simp [s.isEnabled_after]
  case taking =>
    refine InterruptController.agreeBeside_of_isEnabled fun other hother => ?_
    rw [s.isEnabled_entered, decide_eq_true hother, Bool.true_and]
  case leaving => exact InterruptController.agreeBeside_of_isEnabled hothers

/-- **Masked sections nest.** The sections of any routines, run from any controller, are those whose
beginning is noted. Each of them masks its line until the work inside it enables the line itself,
gives the line back as it found it or as the work left it, and touches no other line. -/
theorem guards_sectionsAll (rs : List Routine) (c : InterruptController) :
    (runAll rs c).1.filter Note.isLocked = (sectionsAll rs c).map Section.beginning ∧
      ∀ s ∈ sectionsAll rs c, s.notes <:+: (runAll rs c).1 ∧ s.Guards :=
  ⟨filter_isLocked_runAll rs c, fun s hs => ⟨notes_infix_of_mem rs c hs, s.guards⟩⟩

/-- An interrupt line. -/
def radioLine : InterruptLine := ⟨5, by decide⟩

/-- Another line, whose enable bit is in the next word. -/
def timerLine : InterruptLine := ⟨37, by decide⟩

/-- The radio's line is masked, inside that section once more, and then the timer's, which is
switched. -/
def twice : List Routine :=
  [.lock radioLine [.lock radioLine [.disable timerLine], .lock timerLine [.enable timerLine]]]

/-- When the inner section for the radio's line ends, the line is still masked; when the outer one
ends, it is enabled as before. -/
theorem guards_sectionsAll_twice :
    ∃ outer ∈ sectionsAll twice (({} : InterruptController).enable radioLine),
      ∃ inner ∈ sectionsAll outer.body outer.entered, inner.line = outer.line ∧
        inner.after.isEnabled outer.line = false ∧ outer.left.isEnabled outer.line = false ∧
        outer.after.isEnabled outer.line = true := by
  obtain ⟨-, hguards⟩ := guards_sectionsAll twice (({} : InterruptController).enable radioLine)
  let outer : Section := ⟨radioLine, [.lock radioLine [.disable timerLine],
    .lock timerLine [.enable timerLine]], ({} : InterruptController).enable radioLine⟩
  let inner : Section := ⟨radioLine, [.disable timerLine], outer.entered⟩
  have houter : outer ∈ sectionsAll twice (({} : InterruptController).enable radioLine) :=
    List.mem_cons_self
  have hinner : inner ∈ sectionsAll outer.body outer.entered := List.mem_cons_self
  have hnever : ∀ note ∈ outer.inner, note.isEnabling outer.line = false := by decide +kernel
  have henabled : outer.before.isEnabled outer.line = true := by decide +kernel
  obtain ⟨-, guards⟩ := hguards outer houter
  exact ⟨outer, houter, inner, hinner, rfl, guards.nested hnever inner hinner,
    guards.quiet.masked hnever, guards.restored.mpr (.inl henabled)⟩

end Routine

end SharedRadio
