/-! # Sinks

A sink takes up what is written to it, as bytes. A sink of limited capacity keeps the part of a
text that fits and refuses the text.
-/

namespace MonkeySyntax

/-- The bytes written so far, and how many there may be; `none` sets no limit. -/
structure Sink where
  written : ByteArray
  capacity : Option Nat

/-- Write a text, and say whether all of it fitted. -/
def Sink.write (text : String) (s : Sink) : Bool × Sink :=
  let bytes := text.toByteArray
  match s.capacity with
  | none => (true, { s with written := s.written ++ bytes })
  | some capacity =>
    let room := capacity - s.written.size
    (bytes.size ≤ room, { s with written := s.written ++ bytes.extract 0 room })

end MonkeySyntax
