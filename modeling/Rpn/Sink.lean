/-!
# Sinks

A sink takes the bytes that a session writes. It may have room for a limited number of
bytes in all; a text that does not fit leaves the bytes that do and then fails, as does
every later text that is not empty. It may also fail to hand its bytes on.

Within one statement that stands for every sink. All that a session learns of a sink is
whether a text was taken and bytes were handed on, and the reason if not. The first text
that the output sink does not take ends the statement, so up to there the sink is like
one with room for just the bytes that it took, whatever it would have done later; and
nothing that the error sink answers has an effect. Over several statements it stands for
the sinks that take nothing more once they have refused a text.

The pieces are kept with the newest first so that writing does not depend on what was
written before. `received` is the view to reason with.
-/

namespace Rpn

structure Sink where
  /-- What was taken at each write, the newest first. -/
  pieces : List (List UInt8) := []
  /-- How many more bytes will be taken, if there is a limit. -/
  room : Option Nat := none
  /-- The reason given when there is no room. -/
  refusal : String := ""
  /-- The reason why bytes cannot be handed on, if they cannot. -/
  flushFailure : Option String := none
deriving DecidableEq

/-- The UTF-8 form of a text. -/
def utf8Bytes (text : String) : List UInt8 := text.toList.flatMap String.utf8EncodeChar

namespace Sink

/-- The bytes taken so far, in order. -/
def received (s : Sink) : List UInt8 := s.pieces.reverse.flatten

/-- The part of some bytes that there is room for. -/
def fitting (s : Sink) (bytes : List UInt8) : List UInt8 :=
  match s.room with
  | none => bytes
  | some n => bytes.take n

/-- Write a text. The second component is the reason of a failure. -/
def write (s : Sink) (text : String) : Sink × Option String :=
  let bytes := utf8Bytes text
  let fitting := s.fitting bytes
  ({ s with
      pieces := fitting :: s.pieces
      room := s.room.map (· - bytes.length) },
    if fitting.length < bytes.length then some s.refusal else none)

/-- The sink as it goes on after its bytes were carried away. -/
def drained (s : Sink) : Sink := { s with pieces := [] }

/-- Bytes come to where the sink puts its own, from another program that writes there. -/
def append (s : Sink) : List UInt8 → Sink
  | [] => s
  | bytes => { s with pieces := bytes :: s.pieces }

@[simp] theorem received_append (s : Sink) (bytes : List UInt8) :
    (s.append bytes).received = s.received ++ bytes := by
  cases bytes <;> simp [received, append]

@[simp] theorem received_write (s : Sink) (text : String) :
    (s.write text).1.received = s.received ++ s.fitting (utf8Bytes text) := by
  simp [received, write]

@[simp] theorem room_write (s : Sink) (text : String) :
    (s.write text).1.room = s.room.map (· - (utf8Bytes text).length) := rfl

@[simp] theorem refusal_write (s : Sink) (text : String) :
    (s.write text).1.refusal = s.refusal := rfl

@[simp] theorem flushFailure_write (s : Sink) (text : String) :
    (s.write text).1.flushFailure = s.flushFailure := rfl

end Sink

end Rpn
