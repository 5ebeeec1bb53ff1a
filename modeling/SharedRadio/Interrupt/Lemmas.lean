import SharedRadio.Interrupt.Controller

/-!
# What enabling and disabling does to the lines

`InterruptController.isEnabled` is the view of the controller. The two statements `isEnabled_enable`
and `isEnabled_disable` say what the operations do to it, so that nothing else has to look at words
and bits. Behind them is `InterruptLine.testBit_bit`: a line's enable bit is one bit, and two lines
with the same word have different ones.
-/

namespace SharedRadio

namespace InterruptLine

/-- A line is known by its word and its place in the word. -/
theorem eq_of_word_eq {a b : InterruptLine} (hw : a.word = b.word)
    (hb : a.val % 32 = b.val % 32) : a = b := by
  have h : a.val / 32 = b.val / 32 := congrArg Fin.val hw
  exact Fin.ext (by omega)

/-- A line's enable bit has one bit set, at the line's place in its word. -/
theorem testBit_bit (line : InterruptLine) (i : Nat) :
    line.bit.toNat.testBit i = decide (i = line.val % 32) := by
  have h : line.val % 32 < 32 := Nat.mod_lt _ (by decide)
  have e : (line.val % 32).toUInt32.toNat = line.val % 32 := by
    simp [Nat.mod_eq_of_lt (show line.val % 32 < 4294967296 by omega)]
  unfold bit
  rw [UInt32.toNat_shiftLeft, e, Nat.mod_mod, UInt32.toNat_one, Nat.testBit_mod_two_pow,
    Nat.one_shiftLeft, Nat.testBit_two_pow]
  by_cases hi : i = line.val % 32
  · subst hi; simp [h]
  · simp [hi, Ne.symm hi]

end InterruptLine

namespace InterruptController

@[simp] theorem word_setWord_self (c : InterruptController) (i : Fin wordCount) (w : UInt32) :
    (c.setWord i w).word i = w := by
  simp [word, setWord]

theorem word_setWord_of_ne (c : InterruptController) {i j : Fin wordCount} (h : j ≠ i)
    (w : UInt32) : (c.setWord i w).word j = c.word j := by
  simp [word, setWord, Fin.val_ne_of_ne h.symm]

/-- A line is enabled when the bit at its place is set. -/
theorem isEnabled_eq_testBit (c : InterruptController) (line : InterruptLine) :
    c.isEnabled line = (c.word line.word).toNat.testBit (line.val % 32) := by
  unfold isEnabled
  rw [Bool.eq_iff_iff, bne_iff_ne, ne_eq, ← UInt32.toNat_inj, UInt32.toNat_and]
  constructor
  · intro h
    obtain ⟨i, hi⟩ := Nat.exists_testBit_of_ne_zero h
    rw [Nat.testBit_and, InterruptLine.testBit_bit, Bool.and_eq_true, decide_eq_true_eq] at hi
    exact hi.2 ▸ hi.1
  · intro h hz
    have hi := congrArg (Nat.testBit · (line.val % 32)) hz
    simp [h, InterruptLine.testBit_bit] at hi

/-- Enabling a line enables it and touches no other line. -/
@[simp] theorem isEnabled_enable (c : InterruptController) (line other : InterruptLine) :
    (c.enable line).isEnabled other = (decide (other = line) || c.isEnabled other) := by
  simp only [isEnabled_eq_testBit, enable]
  by_cases hw : other.word = line.word
  · rw [hw, word_setWord_self, UInt32.toNat_or, Nat.testBit_or, InterruptLine.testBit_bit,
      Bool.or_comm]
    congr 1
    rw [decide_eq_decide]
    exact ⟨fun h => InterruptLine.eq_of_word_eq hw h, fun h => h ▸ rfl⟩
  · have hne : other ≠ line := fun h => hw (h ▸ rfl)
    rw [word_setWord_of_ne c hw, decide_eq_false hne, Bool.false_or]

/-- Disabling a line disables it and touches no other line. -/
@[simp] theorem isEnabled_disable (c : InterruptController) (line other : InterruptLine) :
    (c.disable line).isEnabled other = (decide (other ≠ line) && c.isEnabled other) := by
  have hlt : other.val % 32 < 32 := Nat.mod_lt _ (by decide)
  simp only [isEnabled_eq_testBit, disable]
  by_cases hw : other.word = line.word
  · rw [hw, word_setWord_self, UInt32.toNat_and, UInt32.toNat_not, Nat.testBit_and, Bool.and_comm]
    congr 1
    have e : UInt32.size - 1 - line.bit.toNat = 2 ^ 32 - (line.bit.toNat + 1) := by
      unfold UInt32.size
      omega
    rw [e, Nat.testBit_two_pow_sub_succ line.bit.toNat_lt,
      InterruptLine.testBit_bit, decide_eq_true hlt, Bool.true_and, ← decide_not, decide_eq_decide]
    exact ⟨fun h e => h (e ▸ rfl), fun h e => h (InterruptLine.eq_of_word_eq hw e)⟩
  · have hne : other ≠ line := fun h => hw (h ▸ rfl)
    rw [word_setWord_of_ne c hw, decide_eq_true hne, Bool.true_and]

end InterruptController

end SharedRadio
