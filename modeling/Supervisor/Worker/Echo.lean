import Supervisor.Blank
import Supervisor.Worker.Component

/-!
# Line echo

A component that sends every line back to whom it came from.  The line `quit`, with blanks around
it or without, ends the connection, and what follows it is not answered.
-/

namespace Supervisor.Worker.Echo

open Wire (Bytes)

/-- What every open connection has sent since its last line. -/
abbrev State := Table .stream Bytes

/-- The end of a line. -/
def newline : UInt8 := 0x0a

/-- Whether a byte is an ASCII blank. -/
def isBlankByte (b : UInt8) : Bool :=
  b == 0x20 || b == 0x09 || b == 0x0a || b == 0x0c || b == 0x0d

/-- A line without the blanks around it. -/
def trimLine (line : Bytes) : Bytes :=
  ((line.dropWhile isBlankByte).reverse.dropWhile isBlankByte).reverse

/-- Whether a line asks for the end of the connection. -/
def isQuit (line : Bytes) : Bool :=
  trimLine line = Wire.utf8 "quit"

/-- Answers the complete lines of some bytes.  What is left of the bytes, and the connection with
the answers. -/
def answer (b : Bytes) (c : Connection) : Bytes × Connection :=
  let line := b.takeWhile (· ≠ newline)
  if _h : line.length < b.length then
    let rest := b.drop (line.length + 1)
    if isQuit line then (rest, c.close) else answer rest (c.write (line ++ [newline]))
  else (b, c)
termination_by b.length
decreasing_by
  simp only [List.length_drop]
  omega

/-- The echo protocol. -/
def component : Component State where
  onOpen c t := (.ok (), c, t.insert c.id [])
  onMessage c b t :=
    let (rest, c) := answer ((t.find? c.id).getD [] ++ b) c
    (.ok (), c, t.insert c.id rest)
  onClose c t := t.erase c.id
  onError c _ t := (c, t)

end Supervisor.Worker.Echo
