import Supervisor.Error
import Supervisor.Message
import Supervisor.Wire.Escape

/-!
# Frame payloads

A frame is a payload and a terminating zero byte, and a payload is a prefix byte and its content:

```text
'@'  raw text            a text without zero bytes, not serialized
'!'  serialized value    a serialized form without zero bytes
'0'  escaped value       a serialized form with zeros and backslashes escaped
```

Frames carry no length; a reader splits the byte stream at the zeros.  `pack` picks the form,
`unpack` reads all three.
-/

namespace Supervisor.Wire

/-- Values that can be put on the wire.  A value that is text may skip serialization. -/
class Packable (α : Type) where
  /-- The serialized form. -/
  write : α → Bytes
  /-- Reads the serialized form. -/
  read : Reader α
  /-- The text that stands for the value, if it is text. -/
  asText : α → Option String
  /-- The value that a raw text stands for. -/
  ofText? : String → Option α

instance : Packable Message where
  write := Message.write
  read := Message.read
  asText
    | .text s => some s
    | _ => none
  ofText? s := some (.text s)

instance : Packable Envelope where
  write := Envelope.write
  read := Envelope.read
  asText _ := none
  ofText? _ := none

namespace Payload

/-- Prefix of a raw text. -/
def raw : UInt8 := 0x40

/-- Prefix of a serialized value. -/
def serialized : UInt8 := 0x21

/-- Prefix of an escaped value. -/
def escaped : UInt8 := 0x30

end Payload

variable {α : Type} [Packable α]

/-- The payload of the serialized form: as it is if it has no zero byte, else escaped. -/
def packBytes (b : Bytes) : Bytes :=
  if terminator ∈ b then Payload.escaped :: escape b else Payload.serialized :: b

/-- The payload of a value. -/
def pack (v : α) : Bytes :=
  match Packable.asText v with
  | some s => if terminator ∈ utf8 s then packBytes (Packable.write v) else Payload.raw :: utf8 s
  | none => packBytes (Packable.write v)

/-- A payload with its terminator. -/
def frame (v : α) : Bytes :=
  pack v ++ [terminator]

/-- Reads a serialized value; bytes after it are ignored. -/
def unpackBytes (b : Bytes) : Except Error α :=
  match (Packable.read (α := α)).run b with
  | .ok v => .ok v
  | .error fault => .error (.codec fault)

/-- The value of a payload. -/
def unpack : Bytes → Except Error α
  | [] => .error (.protocol .emptyFrame)
  | mark :: content =>
    if mark = Payload.raw then
      match text? content with
      | none => .error (.protocol .textNotUtf8)
      | some s =>
        match Packable.ofText? s with
        | none => .error (.protocol .textForNonText)
        | some v => .ok v
    else if mark = Payload.serialized then unpackBytes content
    else if mark = Payload.escaped then
      match unescape? content with
      | none => .error (.protocol .badEscape)
      | some b => unpackBytes b
    else .error (.protocol .unknownPrefix)

end Supervisor.Wire
