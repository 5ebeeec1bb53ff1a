import Mathlib.Data.Nat.Bitwise
import SharedRadio.Signal.Frame
import SharedRadio.Signal.Message

/-!
# The other end of the request line

A `Receiver` hears the levels of the line one by one. A high level between two frames is the idle
line. A low level there is a start bit, and it begins a frame of ten levels, which the receiver
takes whole. `Receiver.hearAll_frames` says that it takes the frames that were sent, and is between
two frames again.

The external arbiter goes by the messages alone: `Message.access` is what it takes for the access
that is held after one more message. It knows the messages by their bits only.
-/

namespace SharedRadio

namespace Frame

/-- The byte in the data bits of a frame. -/
def byte (frame : List Bool) : UInt8 :=
  UInt8.ofNat (Nat.ofBits fun i : Fin 8 => frame.getD (i + 1) false)

@[simp] theorem byte_levels (b : UInt8) : byte (levels b) = b := by
  have hbits : (fun i : Fin 8 => (levels b).getD (i + 1) false) =
      fun i : Fin 8 => b.toNat.testBit i := by
    funext i
    simp [levels, dataBits, List.getElem?_append_left]
  rw [byte, hbits, Nat.ofBits_testBit, Nat.mod_eq_of_lt b.toNat_lt, UInt8.ofNat_toNat]

end Frame

/-! ## Taking frames off the line -/

/-- What has been heard of the line. -/
structure Receiver where
  /-- The frames that were taken, in order. -/
  frames : List (List Bool) := []
  /-- The levels of the frame under way; there is none between two frames. -/
  started : List Bool := []
  deriving DecidableEq

namespace Receiver

/-- Hear one more level. -/
def hear (r : Receiver) (level : Bool) : Receiver :=
  if r.started = [] ∧ level = true then r
  else if r.started.length + 1 = Frame.units then ⟨r.frames ++ [r.started ++ [level]], []⟩
  else { r with started := r.started ++ [level] }

/-- Hear some levels, one by one. -/
def hearAll (r : Receiver) (levels : List Bool) : Receiver := levels.foldl hear r

/-- The bytes of the frames that were taken. -/
def bytes (r : Receiver) : List UInt8 := r.frames.map Frame.byte

theorem hearAll_append (r : Receiver) (levels more : List Bool) :
    r.hearAll (levels ++ more) = (r.hearAll levels).hearAll more :=
  List.foldl_append

/-- Between two frames a high level says nothing. -/
theorem hear_idle {r : Receiver} (h : r.started = []) : r.hear true = r := by
  simp [hear, h]

theorem hearAll_idle {r : Receiver} (h : r.started = []) (levels : List Bool) :
    r.hearAll (true :: levels) = r.hearAll levels := by
  show (r.hear true).hearAll levels = _
  rw [hear_idle h]

/-- A frame that has begun is taken when all its levels have been heard. -/
theorem hearAll_of_started {r : Receiver} {levels : List Bool} (hbegun : r.started ≠ [])
    (hmore : levels ≠ []) (hunits : r.started.length + levels.length = Frame.units) :
    r.hearAll levels = ⟨r.frames ++ [r.started ++ levels], []⟩ := by
  -- By induction on the levels to come; only the last one of them completes the frame.
  induction levels generalizing r with
  | nil => exact absurd rfl hmore
  | cons level rest ih =>
    have hnot : ¬ (r.started = [] ∧ level = true) := fun h => hbegun h.1
    cases rest with
    | nil =>
      have hlast : r.started.length + 1 = Frame.units := hunits
      rw [hearAll, List.foldl_cons, List.foldl_nil, hear, if_neg hnot, if_pos hlast]
    | cons next rest =>
      have hfew : r.started.length + 1 ≠ Frame.units := by
        simp only [List.length_cons] at hunits
        omega
      have hheard : r.hear level = { r with started := r.started ++ [level] } := by
        rw [hear, if_neg hnot, if_neg hfew]
      show (r.hear level).hearAll (next :: rest) = _
      rw [hheard, ih (by simp) (by simp)]
      · simp
      · simp only [List.length_append, List.length_cons, List.length_nil] at hunits ⊢
        omega

/-- **A frame is taken whole**, whatever byte it carries. -/
theorem hearAll_levels {r : Receiver} (h : r.started = []) (b : UInt8) :
    r.hearAll (Frame.levels b) = ⟨r.frames ++ [Frame.levels b], []⟩ := by
  have hstart : r.hear false = { r with started := [false] } := by
    simp [hear, h, Frame.units]
  show (r.hear false).hearAll (Frame.dataBits b ++ [true]) = _
  rw [hstart, hearAll_of_started (by simp) (by simp) (by simp [Frame.units])]
  rfl

/-- Frames are taken one after the other, and nothing is left over. -/
theorem hearAll_frames {r : Receiver} (h : r.started = []) (bytes : List UInt8) :
    r.hearAll (bytes.flatMap Frame.levels) = ⟨r.frames ++ bytes.map Frame.levels, []⟩ := by
  induction bytes generalizing r with
  | nil =>
    obtain ⟨frames, started⟩ := r
    obtain rfl : started = [] := h
    simp [hearAll]
  | cons b rest ih =>
    rw [List.flatMap_cons, hearAll_append, hearAll_levels h, ih rfl]
    simp

/-- The bytes of frames are those that were sent. -/
theorem bytes_hearAll_frames {r : Receiver} (h : r.started = []) (bytes : List UInt8) :
    (r.hearAll (bytes.flatMap Frame.levels)).bytes = r.bytes ++ bytes := by
  have hbytes : (bytes.map Frame.levels).map Frame.byte = bytes := by
    simp [List.map_map, Function.comp_def]
  rw [hearAll_frames h, Receiver.bytes, List.map_append, hbytes]
  rfl

end Receiver

/-! ## Going by the messages -/

namespace Message

/-- The access that is held after a message, as far as one can tell from the messages. A message of
type 7 without a priority bit gives any access up, and one of type 0 tells the direction. -/
def access (held : Option Direction) (message : UInt8) : Option Direction :=
  if message >>> 5 = 0b111 then
    if message.toNat.testBit 0 || message.toNat.testBit 2 then held else none
  else if message >>> 5 = 0b000 then
    if message.toNat.testBit 3 then some .rx
    else if message.toNat.testBit 2 then some .tx
    else held
  else held

@[simp] theorem access_release (held : Option Direction) : access held release = none := by
  rfl

@[simp] theorem access_request (held : Option Direction) (d : Direction) :
    access held (request d) = some d := by
  cases d <;> rfl

/-- A request tells its direction, whatever flags go before it. -/
theorem foldl_access_request (held : Option Direction) (f : PriorityFlags) (d : Direction) :
    [priority f, request d].foldl access held = some d := by
  simp

end Message

namespace Receiver

/-- The access that is held, as far as one can tell from what has been heard of the line. -/
def access (r : Receiver) : Option Direction := r.bytes.foldl Message.access none

/-- Frames tell what the messages in them tell. -/
theorem access_hearAll_frames {r : Receiver} (h : r.started = []) (bytes : List UInt8) :
    (r.hearAll (bytes.flatMap Frame.levels)).access = bytes.foldl Message.access r.access := by
  rw [access, bytes_hearAll_frames h, List.foldl_append]
  rfl

end Receiver

end SharedRadio
