import SharedRadio.Clock.Dual
import SharedRadio.Proofs.Coexistence.Watch
import SharedRadio.Proofs.Signal.Cut

/-!
# A request that is cut short

A write of the request line that fails ends the signalling of a request. The engine then sends a
release, at once. `Spells` says what becomes of levels that are to be sent: they are sent whole, or
up to the write that fails, or up to a level that is held for ever. So the levels of a request that
is cut are the beginning of its two frames, and the release frame right after it
(`Performs.driven_of_cut`).

The release is meant to leave the line with a complete release frame. `released_iff_of_cut` says
that a receiver takes it for one only if the cut falls between two frames.
-/

namespace SharedRadio.Coexistence

/-! ## Which writes land -/

/-- Whether a write of the request line landed. -/
def Sighting.landing? : Sighting → Option Bool
  | .wrote _ landed _ => some landed
  | _ => none

/-- Which writes of the request line landed, in order. -/
def landings (t : List Sighting) : List Bool := t.filterMap Sighting.landing?

@[simp] theorem landings_append (t u : List Sighting) :
    landings (t ++ u) = landings t ++ landings u :=
  List.filterMap_append

/-- The writes before the first one that fails can be counted, and those after it can be told. -/
theorem eq_of_replicate_true_append {a b : Nat} {l m : List Bool}
    (h : List.replicate a true ++ false :: l = List.replicate b true ++ false :: m) :
    a = b ∧ l = m := by
  induction a generalizing b with
  | zero =>
    cases b with
    | zero => exact ⟨rfl, (List.cons.inj h).2⟩
    | succ b => cases h
  | succ a ih =>
    cases b with
    | zero => cases h
    | succ b =>
      obtain ⟨rfl, rfl⟩ := ih (List.cons.inj h).2
      exact ⟨rfl, rfl⟩

theorem false_notMem_replicate_true {n : Nat} : false ∉ List.replicate n true :=
  fun h => Bool.noConfusion (List.eq_of_mem_replicate h)

/-- What a halt of the rig is for the engine. -/
def Rig.Halt.lifted : Rig.Halt → Engine.Halt
  | .lineFault => .fault .gpio
  | .endless => .endless

/-- Levels are sent one by one, as far as that goes. -/
inductive Spells (levels : List Bool) : Except Engine.Halt Unit → List Sighting → Prop
  /-- All of them are sent. -/
  | whole {t : List Sighting} (driven : drivenLevels t = levels)
      (landed : landings t = List.replicate levels.length true) : Spells levels (.ok ()) t
  /-- A write fails, and no other follows. -/
  | cut {t : List Sighting} {k : Nat} (hk : k < levels.length)
      (driven : drivenLevels t = levels.take k)
      (landed : landings t = List.replicate k true ++ [false]) :
      Spells levels (.error (.fault .gpio)) t
  /-- A level is held for ever. -/
  | endless {t : List Sighting} {k : Nat} (hk : k ≤ levels.length)
      (driven : drivenLevels t = levels.take k) (landed : landings t = List.replicate k true) :
      Spells levels (.error .endless) t

namespace Spells

variable {levels more : List Bool} {x : Except Engine.Halt Unit} {t u : List Sighting}

/-- Nothing is to be sent, and nothing is sent. -/
theorem silent (driven : drivenLevels t = []) (landed : landings t = []) : Spells [] (.ok ()) t :=
  .whole driven landed

/-- Some levels are sent, and then others. -/
theorem append (h : Spells levels (.ok ()) t) (h' : Spells more x u) :
    Spells (levels ++ more) x (t ++ u) := by
  obtain ⟨driven, landed⟩ := h
  cases h' with
  | whole driven' landed' =>
    refine .whole ?_ ?_
    · rw [drivenLevels_append, driven, driven']
    · rw [landings_append, landed, landed', List.length_append, List.replicate_append_replicate]
  | @cut _ k hk driven' landed' =>
    refine .cut (k := levels.length + k) ?_ ?_ ?_
    · rw [List.length_append]
      omega
    · rw [drivenLevels_append, driven, driven', List.take_length_add_append]
    · rw [landings_append, landed, landed', ← List.append_assoc, List.replicate_append_replicate]
  | @endless _ k hk driven' landed' =>
    refine .endless (k := levels.length + k) ?_ ?_ ?_
    · rw [List.length_append]
      omega
    · rw [drivenLevels_append, driven, driven', List.take_length_add_append]
    · rw [landings_append, landed, landed', List.replicate_append_replicate]

/-- If the first levels cannot be sent, the others are not tried. -/
theorem stops {h : Engine.Halt} (hs : Spells levels (.error h) t) (more : List Bool) :
    Spells (levels ++ more) (.error h) t := by
  cases hs with
  | cut hk driven landed =>
    refine .cut (hk.trans_le (by simp)) ?_ landed
    rw [driven, List.take_append_of_le_length hk.le]
  | endless hk driven landed =>
    refine .endless (hk.trans (by simp)) ?_ landed
    rw [driven, List.take_append_of_le_length hk]

/-- What follows without a write changes nothing. -/
theorem append_silent (h : Spells levels x t) (hdriven : drivenLevels u = [])
    (hlanded : landings u = []) : Spells levels x (t ++ u) := by
  have hd : drivenLevels (t ++ u) = drivenLevels t := by simp [hdriven]
  have hl : landings (t ++ u) = landings t := by simp [hlanded]
  cases h with
  | whole driven landed => exact .whole (hd.trans driven) (hl.trans landed)
  | cut hk driven landed => exact .cut hk (hd.trans driven) (hl.trans landed)
  | endless hk driven landed => exact .endless hk (hd.trans driven) (hl.trans landed)

/-- No write follows one that failed. -/
theorem landings_ne (h : Spells levels x t) (k : Nat) :
    landings t ≠ List.replicate k true ++ false :: List.replicate 10 true := by
  intro heq
  have hfalse : false ∈ landings t := by simp [heq]
  cases h with
  | whole driven landed => exact false_notMem_replicate_true (landed ▸ hfalse)
  | cut hk driven landed => cases (eq_of_replicate_true_append (landed.symm.trans heq)).2
  | endless hk driven landed => exact false_notMem_replicate_true (landed ▸ hfalse)

/-- Levels that are cut, and then a release frame whose ten writes land. -/
theorem driven_of_cut {f : Fault} {y : Except Engine.Halt Unit} {k : Nat}
    (hcut : Spells levels (.error (.fault f)) t)
    (hrelease : Spells (Frame.levels Message.release) y u)
    (hlandings : landings (t ++ u) = List.replicate k true ++ false :: List.replicate 10 true) :
    k < levels.length ∧
      drivenLevels (t ++ u) = levels.take k ++ Frame.levels Message.release := by
  cases hcut with
  | cut hk driven landed =>
    rw [landings_append, landed, List.append_assoc, List.singleton_append] at hlandings
    obtain ⟨rfl, hlands⟩ := eq_of_replicate_true_append hlandings
    refine ⟨hk, ?_⟩
    rw [drivenLevels_append, driven]
    congr 1
    cases hrelease with
    | whole driven landed => exact driven
    | cut hk driven landed =>
      exact absurd (by simp [← hlands, landed]) (false_notMem_replicate_true (n := 10))
    | @endless _ j hj driven landed =>
      have hall : j = 10 := by simpa using congrArg List.length (landed.symm.trans hlands)
      rw [driven, hall]
      rfl

end Spells

theorem Rig.Transmits.spells {levels : List Bool} {v w : Direction → Bool}
    {x : Except Rig.Halt Unit} {t : List Sighting} (h : Rig.Transmits levels v x t w) :
    Spells levels (x.mapError Rig.Halt.lifted) t := by
  induction h with
  | done => exact .silent rfl rfl
  | @held v w level rest x t tick more ih =>
    have hfirst : Spells [level] (.ok ()) [.wrote level true tick] := .whole rfl rfl
    exact hfirst.append ih
  | cut tick => exact .cut (k := 0) (Nat.succ_pos _) rfl rfl
  | @endless v level rest tick =>
    exact .endless (k := 1) (Nat.succ_le_succ (Nat.zero_le _)) rfl rfl

namespace Engine

variable {v w : Stance} {t : List Sighting} {x : Except Halt Unit} {d : Direction}

theorem Sends.spells {byte : UInt8} (h : Sends byte v x t w) : Spells (Frame.levels byte) x t := by
  cases h with
  | ok h | endless h => exact h.spells
  | fault h => exact Spells.append_silent h.spells rfl rfl

theorem Releases.spells (h : Releases v x t w) (henabled : v.enabled = true) :
    Spells (Frame.levels Message.release) x t := by
  cases h with
  | passes disabled => exact Bool.noConfusion (henabled.symm.trans disabled)
  | signals enabled sends =>
    have hsilent : Spells [] (.ok ()) [.disarmed v.monitored] := .silent rfl rfl
    exact hsilent.append sends.spells

/-- The levels of a request. -/
def requestLevels (f : PriorityFlags) (d : Direction) : List Bool :=
  Frame.levels (Message.priority f) ++ Frame.levels (Message.request d)

theorem Pauses.spells (h : Rig.Pauses Halt.endless v x t w) : Spells [] x t := by
  cases h with
  | ends => exact .silent rfl rfl
  | endless => exact .endless (k := 0) le_rfl rfl rfl

theorem Signals.spells (h : Signals d v x t w) : Spells (requestLevels v.flags d) x t := by
  rcases h with ⟨first, rest⟩ | first
  · refine (Sends.spells first).append ?_
    rcases rest with ⟨pause, second⟩ | pause
    · exact (Pauses.spells pause).append (Sends.spells second)
    · exact (Pauses.spells pause).stops _
  · exact (Sends.spells first).stops _

/-- The answer to a request is followed by a release frame, or by nothing. -/
theorem Settles.spells (h : Settles d v x t w) (henabled : v.enabled = true) :
    ∃ levels y, Spells levels y t := by
  cases h with
  | grants | unread => exact ⟨[], .ok (), .silent rfl rfl⟩
  | @refuses _ _ _ u high denies releases =>
    have hsilent : Spells [] (.ok ()) [.sampled d (some high), .logged (Record.denied d).logLine] :=
      .silent rfl rfl
    exact ⟨_, _, hsilent.append (releases.spells henabled)⟩

/-- No write follows one that fails in the course of a request, unless it fails while the request
is signalled. -/
theorem Negotiates.spells (h : Negotiates d v x t w) (henabled : v.enabled = true) :
    (∃ levels y, Spells levels y t) ∨
      ∃ t' u f y, t = t' ++ u ∧ Spells (requestLevels v.flags d) (.error (.fault f)) t' ∧
        Spells (Frame.levels Message.release) y u := by
  rcases h with ⟨first, rest⟩ | first
  · left
    obtain rfl : _ = v := first.stance_eq nofun
    cases first with
    | signalled signals =>
      rcases rest with ⟨pause, settles⟩ | pause
      · obtain rfl := Pauses.stance_eq pause
        obtain ⟨levels, y, spells⟩ := settles.spells henabled
        exact ⟨_, y, signals.spells.append ((Pauses.spells pause).append spells)⟩
      · exact ⟨_, _, signals.spells.append (Pauses.spells pause)⟩
  · cases first with
    | endless signals => exact .inl ⟨_, _, signals.spells⟩
    | released signals releases | releasesForever signals releases =>
      obtain rfl := signals.stance_eq
      exact .inr ⟨_, _, _, _, rfl, signals.spells, releases.spells henabled⟩

/-- **A request that is cut leaves the beginning of its two frames on the line**, and the release
frame right after it. -/
theorem Performs.driven_of_cut {y : Except Halt (Option DenyState)}
    (h : Performs (.request d) v y t w) {k : Nat}
    (hlandings : landings t = List.replicate k true ++ false :: List.replicate 10 true) :
    k < 20 ∧ drivenLevels t = (requestLevels v.flags d).take k ++ Frame.levels Message.release := by
  have hne : landings t ≠ [] := by simp [hlandings]
  obtain ⟨z, requests, -⟩ := h
  cases requests with
  | grants | passes => exact absurd rfl hne
  | @negotiates _ _ _ t u matters enabled turns negotiates =>
    have hsilent : drivenLevels t = [] ∧ landings t = [] := by
      rw [turns]
      split <;> exact ⟨rfl, rfl⟩
    rw [landings_append, hsilent.2, List.nil_append] at hlandings
    rw [drivenLevels_append, hsilent.1, List.nil_append]
    have henabled : ((v.count d .request).turn d).enabled = true :=
      (Stance.turn_enabled _ d).trans enabled
    rcases negotiates.spells henabled with ⟨levels, z, spells⟩ | ⟨t', u', f, z, rfl, cut, release⟩
    · exact absurd hlandings (spells.landings_ne k)
    · rw [Stance.turn_flags] at cut
      exact cut.driven_of_cut release hlandings

/-! ## What a receiver makes of it -/

/-- **The release after a cut is read only if the cut falls between two frames**: of all positions
at which one write of a request can fail while the release goes through, only before the first frame
and between the two a receiver takes the release frame last, however long the line is idle
afterwards. -/
theorem released_iff_of_cut {κ : Type} [Clock κ] (e : Engine κ) (d : Direction) (k : Nat)
    (hcut : landings (e.act (.perform (.request d))).2.1 =
      List.replicate k true ++ false :: List.replicate 10 true)
    {r : Receiver} (hr : r.started = []) (n : Nat) :
    k < 20 ∧
      drivenLevels (e.act (.perform (.request d))).2.1 =
        ([Message.priority e.flags, Message.request d].flatMap Frame.levels).take k ++
          Frame.levels Message.release ∧
      ((r.hearAll (drivenLevels (e.act (.perform (.request d))).2.1 ++
          List.replicate n true)).frames.getLast? = some (Frame.levels Message.release) ↔
        k = 0 ∨ k = 10) := by
  have performs := course_act (follows_perform (.request d)) e
  obtain ⟨hk, hdriven⟩ := Performs.driven_of_cut performs hcut
  have hframes : requestLevels e.stance.flags d =
      [Message.priority e.flags, Message.request d].flatMap Frame.levels := rfl
  rw [hframes] at hdriven
  refine ⟨hk, hdriven, ?_⟩
  rw [hdriven, Receiver.getLast?_hearAll_cut_frames hr _ hk n]
  show 10 ∣ k ↔ _
  omega

/-- An engine whose request line fails at the third write. -/
def flaky : Engine DualClock where
  config := { bitTicks := 1, guardMicros := 1, sampleMicros := 1 }
  enabled := true
  rig := { request := { failing := [2] }, clock := { patience := 2 } }

/-- A request for access to transmit is cut within its first frame. What a receiver reads of the
release is `0x80`, which is no message at all. -/
theorem released_iff_of_cut_flaky :
    landings (flaky.act (.perform (.request .tx))).2.1 =
        List.replicate 2 true ++ false :: List.replicate 10 true ∧
      (({} : Receiver).hearAll (drivenLevels (flaky.act (.perform (.request .tx))).2.1 ++
        List.replicate 20 true)).frames.getLast? ≠ some (Frame.levels Message.release) ∧
      (({} : Receiver).hearAll (drivenLevels (flaky.act (.perform (.request .tx))).2.1 ++
        List.replicate 20 true)).bytes = [0x80] := by
  have hcut : landings (flaky.act (.perform (.request .tx))).2.1 =
      List.replicate 2 true ++ false :: List.replicate 10 true := by decide +kernel
  obtain ⟨-, -, hreads⟩ := released_iff_of_cut flaky .tx 2 hcut (r := {}) rfl 20
  exact ⟨hcut, fun h => absurd (hreads.mp h) (by decide), by decide +kernel⟩

end Engine

end SharedRadio.Coexistence
