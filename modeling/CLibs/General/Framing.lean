import Mathlib.Data.List.Induction

/-!
# Framed streams

A stream cut into frames by looking at its front only. If more input never
changes what was seen at the front, the frames do not depend on the pieces in
which the stream arrives.
-/

set_option autoImplicit false

namespace CLibs.General

/-- What a receiver sees at the front of its input. -/
inductive Front where
  | more
  | invalid
  | frame (size : Nat)

structure Framing (α : Type*) where
  front : List α → Front
  front_nil : front [] = .more
  frame_fits : ∀ {input : List α} {size : Nat}, front input = .frame size →
    0 < size ∧ size ≤ input.length
  frame_append : ∀ {input : List α} {size : Nat} (later : List α), front input = .frame size →
    front (input ++ later) = .frame size
  invalid_append : ∀ {input : List α} (later : List α), front input = .invalid →
    front (input ++ later) = .invalid

namespace Framing

variable {α : Type*} (framing : Framing α)

theorem length_drop_lt {input : List α} {size : Nat} (seen : framing.front input = .frame size) :
    (input.drop size).length < input.length := by
  have fits := framing.frame_fits seen
  rw [List.length_drop]
  omega

/-- The complete frames of an input, and what is left of it; nothing is left of
an input with an invalid front. -/
def scan (input : List α) : List (List α) × Option (List α) :=
  match seen : framing.front input with
  | .more => ([], some input)
  | .invalid => ([], none)
  | .frame size =>
      have := framing.frame_fits seen
      ((input.take size) :: (scan (input.drop size)).1, (scan (input.drop size)).2)
termination_by input.length

theorem scan_more {input : List α} (seen : framing.front input = .more) :
    framing.scan input = ([], some input) := by
  rw [scan]
  split <;> simp_all

theorem scan_invalid {input : List α} (seen : framing.front input = .invalid) :
    framing.scan input = ([], none) := by
  rw [scan]
  split <;> simp_all

theorem scan_frame {input : List α} {size : Nat} (seen : framing.front input = .frame size) :
    framing.scan input =
      (input.take size :: (framing.scan (input.drop size)).1,
        (framing.scan (input.drop size)).2) := by
  conv_lhs => rw [scan]
  split <;> simp_all

theorem induct {motive : List α → Prop}
    (more : ∀ input, framing.front input = .more → motive input)
    (invalid : ∀ input, framing.front input = .invalid → motive input)
    (frame : ∀ input size, framing.front input = .frame size → motive (input.drop size) →
      motive input) (input : List α) : motive input := by
  induction length : input.length using Nat.strongRecOn generalizing input with
  | ind n ih =>
      cases seen : framing.front input with
      | more => exact more input seen
      | invalid => exact invalid input seen
      | frame size =>
          have shorter := framing.length_drop_lt seen
          exact frame input size seen (ih (input.drop size).length (by omega) _ rfl)

/-- The frames and what is left are the input again. -/
theorem scan_flatten {input : List α} {frames : List (List α)} {tail : List α}
    (scan : framing.scan input = (frames, some tail)) : input = frames.flatten ++ tail := by
  induction input using framing.induct generalizing frames with
  | more input seen =>
      rw [framing.scan_more seen] at scan
      cases scan
      rfl
  | invalid input seen =>
      rw [framing.scan_invalid seen] at scan
      cases scan
  | frame input size seen ih =>
      rw [framing.scan_frame seen] at scan
      obtain ⟨rfl, left⟩ := Prod.mk.inj scan
      have rest := ih (Prod.ext rfl left)
      rw [List.flatten_cons, List.append_assoc, ← rest, List.take_append_drop]

/-- The receiver of a stream: the frames so far and the input not yet used up,
until the first invalid front. -/
def feed (state : List (List α) × Option (List α)) (chunk : List α) :
    List (List α) × Option (List α) :=
  match state.2 with
  | none => state
  | some queue =>
      (state.1 ++ (framing.scan (queue ++ chunk)).1, (framing.scan (queue ++ chunk)).2)

/-- Scanning an input with more behind it goes on where the first scan stopped. -/
theorem scan_append (input later : List α) :
    framing.scan (input ++ later) = framing.feed (framing.scan input) later := by
  induction input using framing.induct with
  | more input seen =>
      rw [framing.scan_more seen]
      rfl
  | invalid input seen =>
      rw [framing.scan_invalid seen, framing.scan_invalid (framing.invalid_append later seen)]
      rfl
  | frame input size seen ih =>
      have fits := framing.frame_fits seen
      rw [framing.scan_frame seen, framing.scan_frame (framing.frame_append later seen),
        List.drop_append_of_le_length fits.2, List.take_append_of_le_length fits.2, ih]
      unfold feed
      dsimp only
      split <;> rfl

/-- However the stream is cut into chunks, the receiver ends up with the frames
of the whole stream. -/
theorem feed_chunks (chunks : List (List α)) :
    chunks.foldl framing.feed ([], some []) = framing.scan chunks.flatten := by
  induction chunks using List.reverseRecOn with
  | nil => exact (framing.scan_more framing.front_nil).symm
  | append_singleton chunks chunk ih =>
      rw [List.foldl_append, List.foldl_cons, List.foldl_nil, ih, List.flatten_append,
        List.flatten_singleton, scan_append]

end Framing

end CLibs.General
