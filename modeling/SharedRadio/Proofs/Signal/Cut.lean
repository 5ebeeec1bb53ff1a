import Mathlib.Tactic.IntervalCases
import SharedRadio.Proofs.Signal.Receiver

/-!
# A frame that is cut short

When a write of the request line fails, the frame under way is not completed. Whatever is sent next
without a pause is heard as the rest of that frame, as the receiver counts levels. So a release that
follows a cut frame is not read as one: `getLast?_hearAll_cut_frames` says that the last frame taken
is the release frame only if the cut falls between two frames, however long the line is idle
afterwards. The reason is that no end of the release frame is a beginning of it.
-/

namespace SharedRadio

/-- No proper end of the release frame is a beginning of it. -/
theorem Frame.drop_release_ne_take {k : Nat} (hpos : 0 < k) (hlt : k < units) :
    (levels Message.release).drop k ≠ (levels Message.release).take (units - k) := by
  unfold units at hlt ⊢
  interval_cases k <;> decide

namespace Receiver

variable {r : Receiver}

/-- An idle line says nothing, for however long. -/
theorem hearAll_replicate_true (h : r.started = []) (n : Nat) :
    r.hearAll (List.replicate n true) = r := by
  induction n with
  | zero => rfl
  | succ n ih => rw [List.replicate_succ, hearAll_idle h, ih]

theorem hear_low (h : r.started = []) : r.hear false = { r with started := [false] } := by
  simp [hear, h, Frame.units]

/-- Any ten levels that begin with a low one are taken for a frame. -/
theorem hearAll_of_head?_low (h : r.started = []) {levels : List Bool}
    (hlow : levels.head? = some false) (hunits : levels.length = Frame.units) :
    r.hearAll levels = ⟨r.frames ++ [levels], []⟩ := by
  obtain ⟨rest, rfl⟩ := List.head?_eq_some_iff.mp hlow
  have hmore : rest ≠ [] := by
    rintro rfl
    cases hunits
  rw [List.length_cons] at hunits
  show (r.hear false).hearAll rest = _
  rw [hear_low h, hearAll_of_started (by simp) hmore (by simp only [List.length_singleton]; omega)]
  rfl

/-- As long as there are fewer than ten levels, no frame is taken. -/
theorem hearAll_of_few {levels : List Bool} (hbegun : r.started ≠ [])
    (hfew : r.started.length + levels.length < Frame.units) :
    r.hearAll levels = { r with started := r.started ++ levels } := by
  induction levels generalizing r with
  | nil => simp [hearAll]
  | cons level rest ih =>
    simp only [List.length_cons] at hfew
    have hheard : r.hear level = { r with started := r.started ++ [level] } := by
      rw [hear, if_neg fun h => hbegun h.1, if_neg (by omega)]
    show (r.hear level).hearAll rest = _
    rw [hheard, ih (by simp) (by simp only [List.length_append, List.length_singleton]; omega)]
    simp

/-- What is left over of a frame is taken for one more frame at most, which an idle line completes.
-/
theorem frames_hearAll_remainder (h : r.started = []) {rest : List Bool}
    (hfew : rest.length < Frame.units) (n : Nat) :
    (r.hearAll (rest ++ List.replicate n true)).frames = r.frames ∨
      ∃ i m, i < rest.length ∧ (r.hearAll (rest ++ List.replicate n true)).frames =
        r.frames ++ [rest.drop i ++ List.replicate m true] := by
  -- The first low level among the rest begins that frame.
  induction rest with
  | nil =>
    left
    rw [List.nil_append, hearAll_replicate_true h]
  | cons level rest ih =>
    rw [List.length_cons] at hfew
    cases level with
    | true =>
      rw [List.cons_append, hearAll_idle h]
      rcases ih (by omega) with hsame | ⟨i, m, hi, hmore⟩
      · exact .inl hsame
      · exact .inr ⟨i + 1, m, Nat.succ_lt_succ hi, hmore⟩
    | false =>
      rcases Nat.lt_or_ge (rest.length + 1 + n) Frame.units with hlt | hge
      · left
        show ((r.hear false).hearAll (rest ++ List.replicate n true)).frames = _
        rw [hear_low h, hearAll_of_few (by simp)]
        simp only [List.length_singleton, List.length_append, List.length_replicate]
        omega
      · right
        obtain ⟨m, hm⟩ : ∃ m, rest.length + 1 + m = Frame.units := ⟨_, Nat.add_sub_cancel' hfew.le⟩
        obtain ⟨more, rfl⟩ : ∃ more, n = m + more := ⟨n - m, by omega⟩
        refine ⟨0, m, Nat.succ_pos _, ?_⟩
        rw [← List.replicate_append_replicate, ← List.append_assoc, hearAll_append,
          hearAll_of_head?_low h rfl ?_, hearAll_replicate_true rfl]
        · rfl
        · rw [List.length_append, List.length_cons, List.length_replicate, hm]

/-- A frame that is cut is filled up with the beginning of the frame that is sent after it. -/
theorem hearAll_cut_append (h : r.started = []) {cut : List Bool} (hlow : cut.head? = some false)
    (hcut : cut.length < Frame.units) (b : UInt8) (more : List Bool) :
    r.hearAll (cut ++ Frame.levels b ++ more) =
      Receiver.hearAll ⟨r.frames ++ [cut ++ (Frame.levels b).take (Frame.units - cut.length)], []⟩
        ((Frame.levels b).drop (Frame.units - cut.length) ++ more) := by
  have hlevels : cut ++ Frame.levels b ++ more =
      (cut ++ (Frame.levels b).take (Frame.units - cut.length)) ++
        ((Frame.levels b).drop (Frame.units - cut.length) ++ more) := by
    rw [List.append_assoc, List.append_assoc, ← List.append_assoc (List.take _ _),
      List.take_append_drop]
  rw [hlevels, hearAll_append, hearAll_of_head?_low h]
  · rw [List.head?_append, hlow]
    rfl
  · rw [List.length_append, List.length_take, Frame.length_levels]
    omega

/-- Between the beginning of another frame and an idle line, the release frame is not the last one
that is taken. -/
theorem getLast?_hearAll_ne (h : r.started = []) {cut : List Bool} (hlow : cut.head? = some false)
    (hcut : cut.length < Frame.units) (n : Nat) :
    (r.hearAll (cut ++ Frame.levels Message.release ++ List.replicate n true)).frames.getLast? ≠
      some (Frame.levels Message.release) := by
  have hpos : 0 < cut.length := by
    cases cut with
    | nil => cases hlow
    | cons => exact Nat.succ_pos _
  have hrelease : (Frame.levels Message.release).length = Frame.units := rfl
  rw [hearAll_cut_append h hlow hcut]
  intro hlast
  have hfew : ((Frame.levels Message.release).drop (Frame.units - cut.length)).length <
      Frame.units := by
    rw [List.length_drop]
    omega
  rcases frames_hearAll_remainder (r := ⟨_, []⟩) rfl hfew n with hsame | ⟨i, m, hi, hmore⟩
  · -- The last frame is the one that was cut.
    rw [hsame, List.getLast?_concat, Option.some.injEq] at hlast
    refine Frame.drop_release_ne_take hpos hcut ?_
    calc (Frame.levels Message.release).drop cut.length
      _ = (cut ++ (Frame.levels Message.release).take (Frame.units - cut.length)).drop
          cut.length := by rw [hlast]
      _ = (Frame.levels Message.release).take (Frame.units - cut.length) := List.drop_left
  · -- What is left over of the release frame begins one more frame.
    rw [hmore, List.getLast?_concat, Option.some.injEq, List.drop_drop] at hlast
    rw [List.length_drop, hrelease] at hi
    generalize hj : Frame.units - cut.length + i = j at hlast
    have hlength : ((Frame.levels Message.release).drop j).length = Frame.units - j := by
      rw [List.length_drop, hrelease]
    refine Frame.drop_release_ne_take (k := j) (by omega) (by omega) ?_
    calc (Frame.levels Message.release).drop j
      _ = ((Frame.levels Message.release).drop j ++ List.replicate m true).take
          (Frame.units - j) := (List.take_left' hlength).symm
      _ = (Frame.levels Message.release).take (Frame.units - j) := by rw [hlast]

/-- **A release that follows a cut frame is not read as one**, unless nothing of the cut frame was
heard. -/
theorem getLast?_hearAll_cut (h : r.started = []) (b : UInt8) {k : Nat} (hk : k < Frame.units)
    (n : Nat) :
    (r.hearAll ((Frame.levels b).take k ++ Frame.levels Message.release ++
        List.replicate n true)).frames.getLast? = some (Frame.levels Message.release) ↔ k = 0 := by
  cases k with
  | zero =>
    rw [List.take_zero, List.nil_append, hearAll_append, hearAll_levels h,
      hearAll_replicate_true rfl]
    simp
  | succ k =>
    refine iff_of_false (getLast?_hearAll_ne h rfl ?_ n) (Nat.succ_ne_zero k)
    rwa [List.length_take, Frame.length_levels, min_eq_left hk.le]

/-- Of several frames that are cut, those before the cut are taken whole. So a release that follows
is read exactly if the cut falls between two frames. -/
theorem getLast?_hearAll_cut_frames (h : r.started = []) (bytes : List UInt8) {k : Nat}
    (hk : k < Frame.units * bytes.length) (n : Nat) :
    (r.hearAll ((bytes.flatMap Frame.levels).take k ++ Frame.levels Message.release ++
        List.replicate n true)).frames.getLast? = some (Frame.levels Message.release) ↔
      Frame.units ∣ k := by
  induction bytes generalizing r k with
  | nil => cases hk
  | cons b rest ih =>
    rw [List.flatMap_cons]
    rcases Nat.lt_or_ge k Frame.units with hlt | hge
    · rw [List.take_append_of_le_length (by rw [Frame.length_levels]; exact hlt.le),
        getLast?_hearAll_cut h b hlt]
      exact ⟨fun hk => hk ▸ Nat.dvd_zero _, fun hdvd => Nat.eq_zero_of_dvd_of_lt hdvd hlt⟩
    · obtain ⟨j, rfl⟩ := Nat.exists_eq_add_of_le hge
      rw [← Frame.length_levels b, List.take_length_add_append, List.append_assoc,
        List.append_assoc, hearAll_append, hearAll_levels h, ← List.append_assoc,
        ih (r := ⟨_, []⟩) rfl ?_, Frame.length_levels]
      · exact (Nat.dvd_add_right (Nat.dvd_refl _)).symm
      · rw [List.length_cons, Nat.mul_succ] at hk
        omega

end Receiver

end SharedRadio
