import Supervisor.Decimal

/-!
# Socket addresses and their text

An address is an IPv4 or IPv6 host with a port.  IPv4 hosts are four decimal octets without
leading zeros.  IPv6 hosts stand in brackets, with a numeric scope after a percent sign; groups
are hexadecimal, the longest run of two or more zero groups is written as a double colon, and an
IPv4-mapped address shows its last two groups as octets.  Readers accept any spelling of the
groups with at most four digits, one double colon anywhere, octets in place of the last two
groups, and leading zeros in scopes and ports.
-/

namespace Supervisor

/-- An IPv4 host. -/
structure HostV4 where
  a : UInt8
  b : UInt8
  c : UInt8
  d : UInt8
deriving DecidableEq, Repr, Inhabited

/-- An IPv6 host: eight groups of sixteen bits. -/
structure HostV6 where
  groups : List UInt16
  eight : groups.length = 8
deriving DecidableEq, Repr

/-- Where a socket listens or connects to. -/
inductive Address where
  | v4 (host : HostV4) (port : UInt16)
  | v6 (host : HostV6) (scope : UInt32) (port : UInt16)
deriving DecidableEq, Repr

namespace Address

def port : Address → UInt16
  | .v4 _ port => port
  | .v6 _ _ port => port

/-- The same host at another port. -/
def withPort (a : Address) (port : UInt16) : Address :=
  match a with
  | .v4 host _ => .v4 host port
  | .v6 host scope _ => .v6 host scope port

/-- Whether this is an IPv4 address. -/
def isV4 : Address → Bool
  | .v4 _ _ => true
  | .v6 _ _ _ => false

end Address

/-! ## Writing -/

/-- A number in lower-case hexadecimal. -/
def hexText (n : Nat) : String :=
  String.ofList (Nat.toDigits 16 n)

/-- Octets joined by points. -/
def HostV4.text (h : HostV4) : String :=
  ".".intercalate ([h.a, h.b, h.c, h.d].map fun octet => toString octet.toNat)

namespace HostV6

/-- Groups joined by colons. -/
def groupsText (gs : List UInt16) : String :=
  ":".intercalate (gs.map fun g => hexText g.toNat)

/-- Number of zero groups at the front. -/
def zeros (gs : List UInt16) : Nat :=
  (gs.takeWhile (· = 0)).length

/-- Where the longest run of zero groups starts and how long it is; of equal runs the first. -/
def longestZeros : List UInt16 → Nat × Nat
  | [] => (0, 0)
  | g :: gs =>
    let (start, length) := longestZeros gs
    let here := zeros (g :: gs)
    if length ≤ here ∧ here ≠ 0 then (0, here) else (start + 1, length)

/-- The IPv4 host inside an IPv4-mapped address. -/
def mapped? (h : HostV6) : Option HostV4 :=
  match h.groups with
  | [0, 0, 0, 0, 0, 0xffff, hi, lo] =>
    some ⟨(hi >>> 8).toUInt8, hi.toUInt8, (lo >>> 8).toUInt8, lo.toUInt8⟩
  | _ => none

def text (h : HostV6) : String :=
  match h.mapped? with
  | some v4 => "::ffff:" ++ v4.text
  | none =>
    let (start, length) := longestZeros h.groups
    if 1 < length then
      groupsText (h.groups.take start) ++ "::" ++ groupsText (h.groups.drop (start + length))
    else groupsText h.groups

end HostV6

/-- The printed form of an address. -/
def Address.text : Address → String
  | .v4 host port => host.text ++ ":" ++ toString port.toNat
  | .v6 host scope port =>
    let scope := if scope = 0 then "" else "%" ++ toString scope.toNat
    "[" ++ host.text ++ scope ++ "]:" ++ toString port.toNat

/-! ## Reading -/

namespace Address

/-- The value of a digit, in decimal or in hexadecimal of either case. -/
def digit? (radix : Nat) (c : Char) : Option Nat :=
  let n :=
    if '0' ≤ c ∧ c ≤ '9' then c.toNat - '0'.toNat
    else if 'a' ≤ c ∧ c ≤ 'f' then c.toNat - 'a'.toNat + 10
    else if 'A' ≤ c ∧ c ≤ 'F' then c.toNat - 'A'.toNat + 10
    else radix
  if n < radix then some n else none

/-- Takes the longest run of digits off the front, if it is not empty, has no more than
`maxDigits` digits and stays below `bound`. -/
def takeNumber (radix maxDigits bound : Nat) (cs : List Char) : Option (Nat × List Char) :=
  let ds := cs.takeWhile fun c => (digit? radix c).isSome
  let n := ds.foldl (fun n d => radix * n + (digit? radix d).getD 0) 0
  if ds ≠ [] ∧ ds.length ≤ maxDigits ∧ n < bound then
    some (n, cs.dropWhile fun c => (digit? radix c).isSome)
  else none

/-- Takes a given character off the front. -/
def takeChar (c : Char) : List Char → Option (List Char)
  | [] => none
  | d :: rest => if d = c then some rest else none

/-- Takes the separator off the front, except in front of the first element. -/
def takeSeparator (c : Char) (first : Bool) (cs : List Char) : Option (List Char) :=
  if first then some cs else takeChar c cs

/-- Takes an octet off the front: one to three digits without a leading zero. -/
def takeOctet (cs : List Char) : Option (UInt8 × List Char) := do
  let (n, rest) ← takeNumber 10 3 256 cs
  if cs.head? = some '0' ∧ 1 < (cs.takeWhile Decimal.isDigit).length then none
  return (n.toUInt8, rest)

/-- Takes an IPv4 host off the front. -/
def takeV4 (cs : List Char) : Option (HostV4 × List Char) := do
  let (a, cs) ← takeOctet cs
  let (b, cs) ← takeOctet (← takeChar '.' cs)
  let (c, cs) ← takeOctet (← takeChar '.' cs)
  let (d, cs) ← takeOctet (← takeChar '.' cs)
  return (⟨a, b, c, d⟩, cs)

/-- The two groups that four octets make up. -/
def groupsOfV4 (h : HostV4) : List UInt16 :=
  [h.a.toUInt16 * 256 + h.b.toUInt16, h.c.toUInt16 * 256 + h.d.toUInt16]

/-- Takes groups off the front, at most `room` of them.  Octets may stand in place of the last two
and end the groups; the flag says that they did. -/
def takeGroups : Nat → Bool → List Char → (List UInt16 × Bool) × List Char
  | 0, _, cs => (([], false), cs)
  | room + 1, first, cs =>
    let octets := if 0 < room then (takeSeparator ':' first cs).bind takeV4 else none
    match octets with
    | some (h, rest) => ((groupsOfV4 h, true), rest)
    | none =>
      match (takeSeparator ':' first cs).bind (takeNumber 16 4 65536) with
      | none => (([], false), cs)
      | some (g, rest) =>
        let ((gs, octets), rest) := takeGroups room false rest
        ((g.toUInt16 :: gs, octets), rest)

/-- The host with the given groups at the front and at the back and zeros between them. -/
def ofEnds? (front back : List UInt16) : Option HostV6 :=
  let gs := front ++ List.replicate (8 - front.length - back.length) 0 ++ back
  if h : gs.length = 8 then some ⟨gs, h⟩ else none

/-- Takes an IPv6 host off the front: eight groups, or fewer around a double colon. -/
def takeV6 (cs : List Char) : Option (HostV6 × List Char) :=
  let ((front, octets), rest) := takeGroups 8 true cs
  if front.length = 8 then (ofEnds? front []).map (·, rest)
  else if octets then none
  else do
    let rest ← takeChar ':' (← takeChar ':' rest)
    let ((back, _), rest) := takeGroups (7 - front.length) true rest
    return (← ofEnds? front back, rest)

/-- Takes a scope off the front, zero if there is none. -/
def takeScope (cs : List Char) : UInt32 × List Char :=
  match (takeChar '%' cs).bind fun rest => takeNumber 10 rest.length UInt32.size rest with
  | some (n, rest) => (n.toUInt32, rest)
  | none => (0, cs)

/-- Takes a colon and a port off the front. -/
def takePort (cs : List Char) : Option (UInt16 × List Char) := do
  let rest ← takeChar ':' cs
  let (n, rest) ← takeNumber 10 rest.length UInt16.size rest
  return (n.toUInt16, rest)

/-- Takes an IPv4 host and a port off the front. -/
def takeSocketV4 (cs : List Char) : Option (Address × List Char) := do
  let (host, rest) ← takeV4 cs
  let (port, rest) ← takePort rest
  return (.v4 host port, rest)

/-- Takes a bracketed IPv6 host and a port off the front. -/
def takeSocketV6 (cs : List Char) : Option (Address × List Char) := do
  let (host, rest) ← takeV6 (← takeChar '[' cs)
  let (scope, rest) := takeScope rest
  let (port, rest) ← takePort (← takeChar ']' rest)
  return (.v6 host scope port, rest)

/-- The address that a text spells. -/
def ofText? (s : String) : Option Address :=
  match (takeSocketV4 s.toList).orElse fun _ => takeSocketV6 s.toList with
  | some (address, []) => some address
  | _ => none

/-- The loopback host with a port that the system picks. -/
def loopback : Address := .v4 ⟨127, 0, 0, 1⟩ 0

end Address

end Supervisor
