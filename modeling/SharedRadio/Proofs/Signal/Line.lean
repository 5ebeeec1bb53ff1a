import SharedRadio.Proofs.Signal.Cut

/-!
# What a line carries

Between two frames the line may idle at its high level for as long as it likes. `Receiver.decoded?`
is what a receiver makes of all it has heard: nothing, if a frame is still under way or has a low
stop bit. `Receiver.decoded?_eq_some_iff` says that a receiver makes out some bytes exactly if the
line carried the frames of these bytes with idle stretches about them. The gaps leave no trace, and
the data bits cannot be taken for a start bit, as the receiver counts levels within a frame.

A level up, a `Command` is what an engine wants to say. The message for a request without a flag is
the one for a release, so `Command.read?` looks one message ahead. Messages of direction begin no
command, and so this is enough: `Command.read?_eq_some_iff`.
-/

namespace SharedRadio

/-! ## Frames with gaps -/

/-- A byte that is sent once the line has idled for some levels. -/
structure Sending where
  /-- The number of high levels before the frame. -/
  idle : Nat
  /-- The byte in the frame. -/
  byte : UInt8
  deriving DecidableEq

namespace Sending

/-- The levels before and in the frame. -/
def levels (s : Sending) : List Bool := List.replicate s.idle true ++ Frame.levels s.byte

end Sending

namespace Frame

/-- The levels of a line that carries some bytes, and idles at the end. -/
def line (sent : List Sending) (tail : Nat) : List Bool :=
  sent.flatMap Sending.levels ++ List.replicate tail true

theorem line_cons (s : Sending) (sent : List Sending) (tail : Nat) :
    line (s :: sent) tail = s.levels ++ line sent tail := by
  rw [line, List.flatMap_cons, List.append_assoc, line]

/-- A line that idles for one more level to begin with carries the same bytes. -/
theorem exists_line_idle (sent : List Sending) (tail : Nat) :
    ∃ sent' tail', line sent' tail' = true :: line sent tail ∧
      sent'.map Sending.byte = sent.map Sending.byte := by
  cases sent with
  | nil => exact ⟨[], tail + 1, List.replicate_succ, rfl⟩
  | cons s sent => exact ⟨⟨s.idle + 1, s.byte⟩ :: sent, tail, rfl, rfl⟩

theorem getLast?_levels (b : UInt8) : (levels b).getLast? = some true :=
  List.getLast?_concat

theorem units_pos : 0 < units := by decide

/-- The data bits of a frame are the bits of its byte. -/
theorem testBit_byte (frame : List Bool) {i : Nat} (hi : i < 8) :
    (byte frame).toNat.testBit i = frame.getD (i + 1) false := by
  unfold byte
  generalize hbits : (fun i : Fin 8 => frame.getD (i + 1) false) = bits
  have hlt : Nat.ofBits bits < UInt8.size := Nat.ofBits_lt_two_pow bits
  rw [UInt8.toNat_ofNat_of_lt' hlt, Nat.testBit_ofBits_lt bits i hi, ← hbits]

/-- Ten levels between a low start bit and a high stop bit are the frame of their byte. -/
theorem levels_byte {frame : List Bool} (hunits : frame.length = units)
    (hlow : frame.head? = some false) (hhigh : frame.getLast? = some true) :
    levels (byte frame) = frame := by
  obtain ⟨front, rfl⟩ := List.getLast?_eq_some_iff.mp hhigh
  rw [List.length_append, List.length_singleton] at hunits
  have hfront : front = false :: dataBits (byte (front ++ [true])) := by
    refine List.ext_getElem ?_ fun i hi hi' => ?_
    · rw [List.length_cons, length_dataBits]
      exact Nat.succ.inj hunits
    · cases i with
      | zero =>
        rw [List.head?_eq_getElem?, List.getElem?_append_left hi, List.getElem?_eq_getElem hi]
          at hlow
        exact Option.some.inj hlow
      | succ i =>
        have hlt : i < 8 := by
          rw [List.length_cons, length_dataBits] at hi'
          exact Nat.lt_of_succ_lt_succ hi'
        simp [dataBits, testBit_byte _ hlt, List.getElem?_append_left hi, hi]
  rw [levels, ← hfront]

end Frame

/-! ## Making out the bytes -/

namespace Receiver

/-- The bytes that were heard, unless a frame is under way or has a low stop bit. -/
def decoded? (r : Receiver) : Option (List UInt8) :=
  if r.started = [] ∧ ∀ frame ∈ r.frames, frame.getLast? = some true then some r.bytes else none

/-- However long the line idles about the frames, they are taken one by one, and nothing is left
over. -/
theorem hearAll_line {r : Receiver} (h : r.started = []) (sent : List Sending) (tail : Nat) :
    r.hearAll (Frame.line sent tail) =
      ⟨r.frames ++ (sent.map Sending.byte).map Frame.levels, []⟩ := by
  induction sent generalizing r with
  | nil =>
    obtain ⟨frames, started⟩ := r
    obtain rfl : started = [] := h
    show Receiver.hearAll ⟨frames, []⟩ (List.replicate tail true) = ⟨frames ++ [], []⟩
    rw [hearAll_replicate_true rfl, List.append_nil]
  | cons s sent ih =>
    rw [Frame.line_cons, Sending.levels, hearAll_append, hearAll_append,
      hearAll_replicate_true h, hearAll_levels h, ih rfl, List.map_cons, List.map_cons,
      List.append_assoc, List.singleton_append]

theorem decoded?_line (sent : List Sending) (tail : Nat) :
    (({} : Receiver).hearAll (Frame.line sent tail)).decoded? = some (sent.map Sending.byte) := by
  rw [hearAll_line rfl, decoded?, if_pos]
  · simp [bytes, Function.comp_def]
  · refine ⟨rfl, fun frame hframe => ?_⟩
    obtain ⟨b, -, rfl⟩ := List.mem_map.mp hframe
    exact Frame.getLast?_levels b

/-- What leaves no frame under way and no low stop bit is frames with gaps. -/
theorem exists_line {r : Receiver} {levels : List Bool} (hfew : r.started.length < Frame.units)
    (hlow : r.started.head? ≠ some true) (hdone : (r.hearAll levels).started = [])
    (hstops : ∀ frame ∈ (r.hearAll levels).frames, frame.getLast? = some true) :
    ∃ sent tail, Frame.line sent tail = r.started ++ levels ∧
      (r.hearAll levels).frames = r.frames ++ (sent.map Sending.byte).map Frame.levels := by
  -- By induction on the levels to come, for whatever frame is under way.
  induction levels generalizing r with
  | nil =>
    have hnone : r.started = [] := hdone
    exact ⟨[], 0, by rw [hnone]; rfl, (List.append_nil _).symm⟩
  | cons level levels ih =>
    have hstep : r.hearAll (level :: levels) = (r.hear level).hearAll levels := rfl
    rw [hstep] at hdone hstops ⊢
    by_cases hidle : r.started = [] ∧ level = true
    · obtain ⟨hnone, rfl⟩ := hidle
      rw [hear_idle hnone] at hdone hstops ⊢
      obtain ⟨sent, tail, hline, hframes⟩ := ih hfew hlow hdone hstops
      obtain ⟨sent', tail', hline', hbytes⟩ := Frame.exists_line_idle sent tail
      refine ⟨sent', tail', ?_, by rw [hbytes, hframes]⟩
      rw [hline', hline, hnone, List.nil_append, List.nil_append]
    have hlow' : (r.started ++ [level]).head? ≠ some true := by
      cases hstarted : r.started with
      | nil => simpa [hstarted] using hidle
      | cons first more => simpa [hstarted] using hlow
    by_cases hlast : r.started.length + 1 = Frame.units
    · -- The frame under way is complete, and its stop bit is among those that were looked at.
      have hheard : r.hear level = ⟨r.frames ++ [r.started ++ [level]], []⟩ := by
        rw [hear, if_neg hidle, if_pos hlast]
      rw [hheard] at hdone hstops ⊢
      obtain ⟨sent, tail, hline, hframes⟩ :=
        ih (r := ⟨_, []⟩) Frame.units_pos (by simp) hdone hstops
      have hframe : Frame.levels (Frame.byte (r.started ++ [level])) = r.started ++ [level] := by
        refine Frame.levels_byte (by simpa using hlast) ?_ (hstops _ (by simp [hframes]))
        cases hfirst : (r.started ++ [level]).head? with
        | none => simp at hfirst
        | some first =>
          cases first with
          | true => exact absurd hfirst hlow'
          | false => rfl
      refine ⟨⟨0, Frame.byte (r.started ++ [level])⟩ :: sent, tail, ?_, ?_⟩
      · rw [Frame.line_cons, hline]
        simp [Sending.levels, hframe]
      · simp [hframes, hframe]
    · have hheard : r.hear level = { r with started := r.started ++ [level] } := by
        rw [hear, if_neg hidle, if_neg hlast]
      rw [hheard] at hdone hstops ⊢
      have hfew' : (r.started ++ [level]).length < Frame.units := by
        rw [List.length_append, List.length_singleton]
        omega
      obtain ⟨sent, tail, hline, hframes⟩ := ih hfew' hlow' hdone hstops
      exact ⟨sent, tail, by rw [hline, List.append_assoc, List.singleton_append], hframes⟩

/-- **The bytes are made out** exactly from the frames that carry them and any idle stretches
before, between and after these. -/
theorem decoded?_eq_some_iff {levels : List Bool} {bytes : List UInt8} :
    (({} : Receiver).hearAll levels).decoded? = some bytes ↔
      ∃ sent tail, Frame.line sent tail = levels ∧ sent.map Sending.byte = bytes := by
  constructor
  · intro hdecoded
    rw [decoded?, Option.ite_none_right_eq_some] at hdecoded
    obtain ⟨⟨hdone, hstops⟩, hbytes⟩ := hdecoded
    obtain ⟨sent, tail, hline, hframes⟩ :=
      exists_line (r := {}) Frame.units_pos (by simp) hdone hstops
    refine ⟨sent, tail, hline, ?_⟩
    rw [← Option.some.inj hbytes, Receiver.bytes, hframes]
    simp [Function.comp_def]
  · rintro ⟨sent, tail, rfl, rfl⟩
    exact decoded?_line sent tail

end Receiver

/-! ## Making out the commands -/

/-- The flags that a message carries, if it carries flags and nothing else. -/
def PriorityFlags.ofMessage? (message : UInt8) : Option PriorityFlags :=
  let f : PriorityFlags := ⟨message.toNat.testBit 0, message.toNat.testBit 2⟩
  if message = Message.priority f then some f else .none

/-- The direction that a message requests. -/
def Direction.ofMessage? (message : UInt8) : Option Direction :=
  if message = Message.request .rx then some .rx
  else if message = Message.request .tx then some .tx
  else none

theorem PriorityFlags.ofMessage?_eq_some_iff {message : UInt8} {f : PriorityFlags} :
    ofMessage? message = some f ↔ message = Message.priority f := by
  rw [ofMessage?, Option.ite_none_right_eq_some, Option.some.injEq]
  constructor
  · rintro ⟨h, rfl⟩
    exact h
  · rintro rfl
    obtain ⟨rx, tx⟩ := f
    cases rx <;> cases tx <;> decide

theorem Direction.ofMessage?_eq_some_iff {message : UInt8} {d : Direction} :
    ofMessage? message = some d ↔ message = Message.request d := by
  constructor
  · rw [ofMessage?]
    split_ifs with hrx htx
    · rintro ⟨⟩
      exact hrx
    · rintro ⟨⟩
      exact htx
    · nofun
  · rintro rfl
    cases d <;> decide

/-- What an engine has to say to the external arbiter. -/
inductive Command where
  /-- All access is released. -/
  | release
  /-- Access is requested, with some priority flags. -/
  | request (flags : PriorityFlags) (d : Direction)
  deriving DecidableEq

namespace Command

/-- The messages of a command. -/
def messages : Command → List UInt8
  | release => [Message.release]
  | request f d => [Message.priority f, Message.request d]

/-- Read messages as commands. A message of flags belongs to a request if a direction comes next;
without a flag it is a release otherwise. -/
def read? : List UInt8 → Option (List Command)
  | [] => some []
  | [message] => if message = Message.release then some [release] else none
  | message :: next :: rest =>
    match PriorityFlags.ofMessage? message, Direction.ofMessage? next with
    | some f, some d => (read? rest).map (request f d :: ·)
    | _, none =>
      if message = Message.release then (read? (next :: rest)).map (release :: ·) else none
    | none, some _ => none

/-- No command begins with a direction. -/
theorem ofMessage?_head (c : Command) (rest : List UInt8) :
    ∃ first more, c.messages ++ rest = first :: more ∧ Direction.ofMessage? first = none := by
  cases c with
  | release => exact ⟨_, rest, rfl, by decide⟩
  | request f d =>
    obtain ⟨rx, tx⟩ := f
    refine ⟨_, Message.request d :: rest, rfl, ?_⟩
    cases rx <;> cases tx <;> decide

/-- What is sent is read. -/
theorem read?_messages (commands : List Command) :
    read? (commands.flatMap messages) = some commands := by
  induction commands with
  | nil => rfl
  | cons c commands ih =>
    rw [List.flatMap_cons]
    cases c with
    | request f d =>
      simp only [messages, List.cons_append, List.nil_append, read?,
        PriorityFlags.ofMessage?_eq_some_iff.mpr rfl, Direction.ofMessage?_eq_some_iff.mpr rfl, ih,
        Option.map_some]
    | release =>
      cases commands with
      | nil => rfl
      | cons next commands =>
        obtain ⟨first, more, hfirst, hnot⟩ := next.ofMessage?_head (commands.flatMap messages)
        rw [List.flatMap_cons, hfirst] at ih ⊢
        simp only [messages, List.cons_append, List.nil_append, read?, hnot, if_pos, ih,
          Option.map_some]

/-- What is read was sent. -/
theorem messages_of_read? {bytes : List UInt8} {commands : List Command}
    (h : read? bytes = some commands) : commands.flatMap messages = bytes := by
  fun_induction read? bytes generalizing commands with
  | case1 =>
    obtain rfl := Option.some.inj h
    rfl
  | case2 =>
    obtain rfl := Option.some.inj h
    rfl
  | case4 message next rest f d hd hf ih =>
    obtain ⟨others, hothers, rfl⟩ := Option.map_eq_some_iff.mp h
    rw [List.flatMap_cons, ih hothers, messages, PriorityFlags.ofMessage?_eq_some_iff.mp hf,
      Direction.ofMessage?_eq_some_iff.mp hd]
    rfl
  | case5 next rest hnot ih =>
    obtain ⟨others, hothers, rfl⟩ := Option.map_eq_some_iff.mp h
    rw [List.flatMap_cons, ih hothers]
    rfl
  | case3 | case6 | case7 => cases h

/-- **Commands are read off the messages** in one way: a list of messages is that of some commands
exactly if these are read. -/
theorem read?_eq_some_iff {bytes : List UInt8} {commands : List Command} :
    read? bytes = some commands ↔ commands.flatMap messages = bytes :=
  ⟨messages_of_read?, fun h => h ▸ read?_messages commands⟩

example : read? [Message.release, Message.release, Message.request .tx, Message.release] =
    some [release, request .none .tx, release] := by decide

end Command

/-! ## From levels to commands -/

/-- **A line tells what is sent over it.** With any gaps before, between and after the frames, a
receiver makes out the bytes, all of them and no others, and it makes them out of nothing but such
frames and gaps. So the levels of two lines are the same only if the bytes are. And the bytes are
those of at most one list of commands, which is read off them. -/
theorem Frame.line_tells (sent : List Sending) (tail : Nat) :
    (({} : Receiver).hearAll (line sent tail)).decoded? = some (sent.map Sending.byte) ∧
      (∀ levels, (({} : Receiver).hearAll levels).decoded? = some (sent.map Sending.byte) →
        ∃ sent' tail', line sent' tail' = levels ∧
          sent'.map Sending.byte = sent.map Sending.byte) ∧
      (∀ sent' tail', line sent' tail' = line sent tail →
        sent'.map Sending.byte = sent.map Sending.byte) ∧
      ∀ commands : List Command, Command.read? (sent.map Sending.byte) = some commands ↔
        commands.flatMap Command.messages = sent.map Sending.byte := by
  have hheard : (({} : Receiver).hearAll (line sent tail)).decoded? =
      some (sent.map Sending.byte) := Receiver.decoded?_eq_some_iff.mpr ⟨sent, tail, rfl, rfl⟩
  refine ⟨hheard, fun levels => Receiver.decoded?_eq_some_iff.mp, fun sent' tail' hsame => ?_,
    fun commands => Command.read?_eq_some_iff⟩
  have hheard' : (({} : Receiver).hearAll (line sent' tail')).decoded? =
      some (sent'.map Sending.byte) := Receiver.decoded?_eq_some_iff.mpr ⟨sent', tail', rfl, rfl⟩
  rw [hsame] at hheard'
  exact Option.some.inj (hheard'.symm.trans hheard)

end SharedRadio
