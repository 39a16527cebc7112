/-!
# Sinks

Where a report is written. A sink takes any number of bytes, or only so many: then a text that does
not fit is written as far as it does, and the writing fails.
-/

namespace Findings

structure Sink where
  written : ByteArray := .empty
  /-- How many bytes the sink takes in all; `none` for any number. -/
  capacity : Option Nat := none

namespace Sink

/-- What a failed writing says. -/
def fullMessage : String :=
  "output full"

/-- How many more bytes the sink takes of `wanted`. -/
def room (sink : Sink) (wanted : Nat) : Nat :=
  match sink.capacity with
  | none => wanted
  | some capacity => min wanted (capacity - sink.written.size)

/-- Writes a text as far as it fits. Returns whether all of it did. -/
def write (sink : Sink) (text : String) : Bool × Sink :=
  let bytes := text.toUTF8
  let room := sink.room bytes.size
  (room = bytes.size, { sink with written := sink.written ++ bytes.extract 0 room })

@[simp] theorem write_fst_of_unlimited {sink : Sink} (h : sink.capacity = none) (text : String) :
    (sink.write text).1 = true := by
  simp [write, room, h]

end Sink

end Findings
