/-!
# JSON texts

Reading a JSON text in two passes: `Token.scan` cuts it into tokens, and `Json.ofTokens?` puts the
tokens together with a stack of the containers that are still open, so that nesting costs no
depth.  A string with a lone surrogate in it is well formed but has no text; the reader keeps it
as such, because it is fine in a value that nobody looks at.
-/

namespace Supervisor.Config

/-- The text of a JSON string, none if it holds a lone surrogate. -/
abbrev JsonText := Option String

/-- A JSON value.  Numbers are kept as they are spelled. -/
inductive Json where
  | null
  | bool (b : Bool)
  | number (spelling : List Char)
  | string (text : JsonText)
  | array (items : List Json)
  | object (members : List (JsonText × Json))

/-- The lexical units of JSON. -/
inductive Token where
  | openArray
  | closeArray
  | openObject
  | closeObject
  | colon
  | comma
  | null
  | bool (b : Bool)
  | number (spelling : List Char)
  | string (text : JsonText)

namespace Token

/-- The four blank characters of JSON. -/
def isBlank (c : Char) : Bool :=
  c = ' ' || c = '\t' || c = '\n' || c = '\r'

/-- Whether a character can be part of a number or a word. -/
def isWordChar (c : Char) : Bool :=
  c.isAlphanum || c = '+' || c = '-' || c = '.'

/-! ### Numbers -/

/-- Drops one or more digits. -/
def dropDigits (cs : List Char) : Option (List Char) :=
  if cs.head?.any Char.isDigit then some (cs.dropWhile Char.isDigit) else none

/-- Drops a point and digits, if there is a point. -/
def dropFraction : List Char → Option (List Char)
  | '.' :: cs => dropDigits cs
  | cs => some cs

/-- Drops an exponent, if there is one. -/
def dropExponent : List Char → Option (List Char)
  | e :: cs =>
    if e = 'e' ∨ e = 'E' then
      match cs with
      | '+' :: cs | '-' :: cs => dropDigits cs
      | cs => dropDigits cs
    else some (e :: cs)
  | [] => some []

/-- Drops an integer without leading zeros and without a sign. -/
def dropInteger : List Char → Option (List Char)
  | '0' :: cs => some cs
  | cs => dropDigits cs

/-- Whether a word is spelled as a number. -/
def isNumber (cs : List Char) : Bool :=
  let cs := if cs.head? = some '-' then cs.drop 1 else cs
  ((dropInteger cs).bind dropFraction).bind dropExponent = some []

/-- The token of a word: a constant or a number. -/
def ofWord? (cs : List Char) : Option Token :=
  if cs = "null".toList then some .null
  else if cs = "true".toList then some (.bool true)
  else if cs = "false".toList then some (.bool false)
  else if isNumber cs then some (.number cs)
  else none

/-! ### Strings -/

/-- A string is collected in UTF-16 units where it is escaped and in characters elsewhere. -/
inductive Piece where
  | char (c : Char)
  | unit (n : Nat)

/-- Joins pieces to a text: a high surrogate needs a low one right behind it. -/
def joinPieces : List Piece → Option (List Char)
  | [] => some []
  | .char c :: ps => (joinPieces ps).map (c :: ·)
  | .unit hi :: ps =>
    if 0xdc00 ≤ hi ∧ hi ≤ 0xdfff then none
    else if 0xd800 ≤ hi ∧ hi ≤ 0xdbff then
      match ps with
      | .unit lo :: ps =>
        if 0xdc00 ≤ lo ∧ lo ≤ 0xdfff then
          (joinPieces ps).map
            (Char.ofNat (0x10000 + (hi - 0xd800) * 0x400 + (lo - 0xdc00)) :: ·)
        else none
      | _ => none
    else (joinPieces ps).map (Char.ofNat hi :: ·)

/-- The value of a hexadecimal digit. -/
def hexDigit? (c : Char) : Option Nat :=
  if '0' ≤ c ∧ c ≤ '9' then some (c.toNat - '0'.toNat)
  else if 'a' ≤ c ∧ c ≤ 'f' then some (c.toNat - 'a'.toNat + 10)
  else if 'A' ≤ c ∧ c ≤ 'F' then some (c.toNat - 'A'.toNat + 10)
  else none

/-- The character behind a one-letter escape. -/
def escaped? : Char → Option Char
  | '"' => some '"'
  | '\\' => some '\\'
  | '/' => some '/'
  | 'b' => some '\x08'
  | 'f' => some '\x0c'
  | 'n' => some '\n'
  | 'r' => some '\r'
  | 't' => some '\t'
  | _ => none

/-! ### Scanning -/

/-- Where the scanner stands. -/
inductive Mode where
  | between
  /-- Inside a word; its characters so far, last one first. -/
  | word (cs : List Char)
  /-- Inside a string; its pieces so far, last one first. -/
  | inString (ps : List Piece)
  /-- Behind a backslash. -/
  | escape (ps : List Piece)
  /-- Inside a four-digit escape: digits still to come and the value so far. -/
  | unit (ps : List Piece) (digits value : Nat)

/-- A scanner: the tokens so far, last one first, and the mode. -/
structure Scanner where
  tokens : List Token
  mode : Mode

/-- The token of a punctuation mark. -/
def ofMark? : Char → Option Token
  | '[' => some .openArray
  | ']' => some .closeArray
  | '{' => some .openObject
  | '}' => some .closeObject
  | ':' => some .colon
  | ',' => some .comma
  | _ => none

/-- Takes one character between tokens. -/
def Scanner.start (tokens : List Token) (c : Char) : Option Scanner :=
  if isBlank c then some ⟨tokens, .between⟩
  else if c = '"' then some ⟨tokens, .inString []⟩
  else if isWordChar c then some ⟨tokens, .word [c]⟩
  else (ofMark? c).map fun t => ⟨t :: tokens, .between⟩

/-- Takes one character. -/
def Scanner.step (s : Scanner) (c : Char) : Option Scanner :=
  match s.mode with
  | .between => start s.tokens c
  | .word cs =>
    if isWordChar c then some { s with mode := .word (c :: cs) }
    else (ofWord? cs.reverse).bind fun t => start (t :: s.tokens) c
  | .inString ps =>
    if c = '"' then
      some ⟨.string ((joinPieces ps.reverse).map String.ofList) :: s.tokens, .between⟩
    else if c = '\\' then some { s with mode := .escape ps }
    else if c.toNat < 0x20 then none
    else some { s with mode := .inString (.char c :: ps) }
  | .escape ps =>
    if c = 'u' then some { s with mode := .unit ps 4 0 }
    else (escaped? c).map fun c => { s with mode := .inString (.char c :: ps) }
  | .unit ps digits value =>
    (hexDigit? c).map fun d =>
      let value := 16 * value + d
      if digits ≤ 1 then { s with mode := .inString (.unit value :: ps) }
      else { s with mode := .unit ps (digits - 1) value }

/-- The tokens of a text. -/
def scan (cs : List Char) : Option (List Token) := do
  let s ← cs.foldlM Scanner.step ⟨[], .between⟩
  match s.mode with
  | .between => return s.tokens.reverse
  | .word cs => return (← ofWord? cs.reverse) :: s.tokens |>.reverse
  | _ => none

end Token

namespace Json

/-- A container that is still open, its parts so far in reverse order. -/
inductive Frame where
  | array (items : List Json)
  | object (members : List (JsonText × Json)) (key : JsonText)

/-- What may come next while tokens are put together; the stack holds the open containers. -/
inductive Phase where
  | value (stack : List Frame)
  /-- Behind an opening bracket: a value or the end. -/
  | firstItem (stack : List Frame)
  /-- Behind an opening brace: a key or the end. -/
  | firstKey (stack : List Frame)
  | key (members : List (JsonText × Json)) (stack : List Frame)
  | colon (members : List (JsonText × Json)) (key : JsonText) (stack : List Frame)
  /-- A value is complete. -/
  | complete (v : Json) (stack : List Frame)

/-- Takes a token where a value must start. -/
def Phase.begin (stack : List Frame) : Token → Option Phase
  | .openArray => some (.firstItem stack)
  | .openObject => some (.firstKey stack)
  | .null => some (.complete .null stack)
  | .bool b => some (.complete (.bool b) stack)
  | .number spelling => some (.complete (.number spelling) stack)
  | .string text => some (.complete (.string text) stack)
  | _ => none

/-- Takes one token. -/
def Phase.step (p : Phase) (t : Token) : Option Phase :=
  match p, t with
  | .value stack, t => begin stack t
  | .firstItem stack, .closeArray => some (.complete (.array []) stack)
  | .firstItem stack, t => begin (.array [] :: stack) t
  | .firstKey stack, .closeObject => some (.complete (.object []) stack)
  | .firstKey stack, .string k => some (.colon [] k stack)
  | .key members stack, .string k => some (.colon members k stack)
  | .colon members k stack, .colon => some (.value (.object members k :: stack))
  | .complete v (.array items :: stack), .comma => some (.value (.array (v :: items) :: stack))
  | .complete v (.array items :: stack), .closeArray =>
    some (.complete (.array (v :: items).reverse) stack)
  | .complete v (.object members k :: stack), .comma =>
    some (.key ((k, v) :: members) stack)
  | .complete v (.object members k :: stack), .closeObject =>
    some (.complete (.object ((k, v) :: members).reverse) stack)
  | _, _ => none

/-- The value that a sequence of tokens spells. -/
def ofTokens? (ts : List Token) : Option Json :=
  match ts.foldlM Phase.step (.value []) with
  | some (.complete v []) => some v
  | _ => none

/-- The value that a text spells. -/
def ofText? (s : String) : Option Json :=
  (Token.scan s.toList).bind ofTokens?

/-! ## Looking into values -/

/-- The value as a text. -/
def text? : Json → Option String
  | .string text => text
  | _ => none

/-- The value as a natural number below `2^64`; only plain digits spell one. -/
def word? : Json → Option Nat
  | .number cs =>
    let n := cs.foldl (fun n c => 10 * n + (c.toNat - '0'.toNat)) 0
    if cs.all Char.isDigit ∧ n < UInt64.size then some n else none
  | _ => none

/-- The value as a list of texts. -/
def texts? : Json → Option (List String)
  | .array items => items.mapM text?
  | _ => none

/-- The value as one of a set of names: the name alone, or an object with the name as its only
key and null behind it. -/
def choice? {α : Type} (choices : List (String × α)) : Json → Option α
  | .string (some name) => choices.lookup name
  | .object [(some name, .null)] => choices.lookup name
  | _ => none

/-- The value as a record: the fields that it gives, by name.  An object may have other members
beside the fields but may give no field twice; an array gives the fields in their order and may
stop early. -/
def fields? (names : List String) : Json → Option (List (String × Json))
  | .object members => do
    let members ← members.mapM fun (key, v) => key.map (·, v)
    let given := members.filter fun (key, _) => key ∈ names
    if (given.map Prod.fst).Nodup then some given else none
  | .array items => if items.length ≤ names.length then some (names.zip items) else none
  | _ => none

/-- One field of a record, with the value it takes when it is not given. -/
def field? {α : Type} (given : List (String × Json)) (name : String) (default : α)
    (read : Json → Option α) : Option α :=
  match given.lookup name with
  | none => some default
  | some v => read v

end Json

end Supervisor.Config
