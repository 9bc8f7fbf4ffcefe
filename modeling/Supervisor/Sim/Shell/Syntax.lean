/-!
# Shell scripts

A small part of the shell language: lists, pipelines, loops and choices of simple commands, with
quotes, variables, sums and redirections of the two outputs.  `Token.scan` cuts a script into
tokens and `Command.ofTokens` reads them.

A script that is not of this language reads as something, but nobody says as what.
-/

namespace Supervisor.Sim.Shell

/-- A piece of a word. -/
inductive Piece where
  | text (s : String)
  | variable (name : String)
  /-- The exit code of the last command. -/
  | lastCode
  /-- The pid of the shell. -/
  | ownPid
  /-- The value of an expression. -/
  | sum (expression : List Char)
deriving DecidableEq, Repr

/-- A word, before anything in it is replaced. -/
abbrev Word := List Piece

/-- Where an output can be sent to. -/
inductive Target where
  | output
  | errors
  | closed
  /-- A file that swallows everything. -/
  | nowhere
deriving DecidableEq, Repr

/-- The lexical units of a script. -/
inductive Token where
  | word (w : Word)
  | operator (s : String)
  /-- Sends an output, the errors if so, to a target. -/
  | redirect (ofErrors : Bool) (target : Target)
deriving DecidableEq, Repr

/-! ## Words -/

/-- Whether a character can be in the name of a variable. -/
def isNameChar (c : Char) : Bool :=
  c.isAlphanum || c = '_'

/-- What stands before two closing parentheses, and what stands behind them. -/
def splitClose : List Char → List Char × List Char
  | [] => ([], [])
  | ')' :: ')' :: rest => ([], rest)
  | c :: rest => let (inner, rest) := splitClose rest; (c :: inner, rest)

/-- Reads what follows a dollar sign. -/
def readDollar : List Char → Piece × List Char
  | '$' :: rest => (.ownPid, rest)
  | '?' :: rest => (.lastCode, rest)
  | '(' :: '(' :: rest => let (inner, rest) := splitClose rest; (.sum inner, rest)
  | '{' :: rest =>
    (.variable (String.ofList (rest.takeWhile (· ≠ '}'))), (rest.dropWhile (· ≠ '}')).drop 1)
  | rest =>
    match rest.takeWhile isNameChar with
    | [] => (.text "$", rest)
    | name => (.variable (String.ofList name), rest.dropWhile isNameChar)

/-- Reads up to the closing double quote; `fuel` bounds the characters. -/
def readQuoted : Nat → List Char → Word × List Char
  | 0, rest => ([], rest)
  | _, [] => ([], [])
  | _, '\x22' :: rest => ([], rest)
  | fuel + 1, '\\' :: c :: rest =>
    let (w, rest) := readQuoted fuel rest
    (.text (if c = '\x22' ∨ c = '\\' ∨ c = '$' then c.toString else "\\" ++ c.toString) :: w, rest)
  | fuel + 1, '$' :: rest =>
    let (p, rest) := readDollar rest
    let (w, rest) := readQuoted fuel rest
    (p :: w, rest)
  | fuel + 1, c :: rest =>
    let (w, rest) := readQuoted fuel rest
    (.text c.toString :: w, rest)

/-- Whether a character ends a word. -/
def isBreak (c : Char) : Bool :=
  c.isWhitespace || [';', '&', '|', '(', ')', '<', '>'].contains c

/-- Reads a word; `fuel` bounds the characters. -/
def readWord : Nat → List Char → Word × List Char
  | 0, rest => ([], rest)
  | _, [] => ([], [])
  | fuel + 1, '\x27' :: rest =>
    let (w, after) := readWord fuel ((rest.dropWhile (· ≠ '\x27')).drop 1)
    (.text (String.ofList (rest.takeWhile (· ≠ '\x27'))) :: w, after)
  | fuel + 1, '\x22' :: rest =>
    let (quoted, rest) := readQuoted rest.length rest
    let (w, rest) := readWord fuel rest
    (.text "" :: quoted ++ w, rest)
  | fuel + 1, '\\' :: c :: rest =>
    let (w, rest) := readWord fuel rest
    (.text c.toString :: w, rest)
  | fuel + 1, '$' :: rest =>
    let (p, rest) := readDollar rest
    let (w, rest) := readWord fuel rest
    (p :: w, rest)
  | fuel + 1, c :: rest =>
    if isBreak c then ([], c :: rest)
    else
      let (w, rest) := readWord fuel rest
      (.text c.toString :: w, rest)

/-- Joins texts that stand next to each other. -/
def joinTexts : Word → Word
  | [] => []
  | .text s :: rest =>
    match joinTexts rest with
    | .text t :: rest => .text (s ++ t) :: rest
    | rest => .text s :: rest
  | p :: rest => p :: joinTexts rest

/-! ## Tokens -/

/-- Reads what follows the sign of a redirection. -/
def readTarget : List Char → Target × List Char
  | '&' :: '1' :: rest => (.output, rest)
  | '&' :: '2' :: rest => (.errors, rest)
  | '&' :: '-' :: rest => (.closed, rest)
  | rest => (.nowhere, (rest.dropWhile Char.isWhitespace).dropWhile fun c => !isBreak c)

/-- Cuts a script into tokens; `fuel` bounds their number. -/
def Token.scanUpTo : Nat → List Char → List Token
  | 0, _ | _, [] => []
  | fuel + 1, '#' :: rest => scanUpTo fuel (rest.dropWhile (· ≠ '\n'))
  | fuel + 1, '1' :: '>' :: rest | fuel + 1, '>' :: rest =>
    let (target, rest) := readTarget rest
    .redirect false target :: scanUpTo fuel rest
  | fuel + 1, '2' :: '>' :: rest =>
    let (target, rest) := readTarget rest
    .redirect true target :: scanUpTo fuel rest
  | fuel + 1, '&' :: '&' :: rest => .operator "&&" :: scanUpTo fuel rest
  | fuel + 1, '|' :: '|' :: rest => .operator "||" :: scanUpTo fuel rest
  | fuel + 1, c :: rest =>
    if c = '\n' then .operator ";" :: scanUpTo fuel rest
    else if c.isWhitespace then scanUpTo fuel rest
    else if isBreak c then .operator c.toString :: scanUpTo fuel rest
    else
      let (w, after) := readWord (rest.length + 1) (c :: rest)
      .word (joinTexts w) :: scanUpTo fuel after

/-- Cuts a script into tokens. -/
def Token.scan (script : String) : List Token :=
  scanUpTo script.length script.toList

/-! ## Commands -/

/-- A redirection of one output. -/
structure Redirect where
  ofErrors : Bool
  target : Target
deriving DecidableEq, Repr

/-- A command. -/
inductive Command where
  | nothing
  | simple (words : List Word) (redirects : List Redirect)
  | pipe (left right : Command)
  | sequence (first second : Command)
  /-- The second one only if the first one succeeds. -/
  | both (first second : Command)
  /-- The second one only if the first one fails. -/
  | either (first second : Command)
  | background (c : Command)
  /-- In a shell of its own. -/
  | group (c : Command)
  | loop (condition body : Command)
  | choice (condition yes no : Command)
deriving Repr

/-- Whether a token is this reserved word. -/
def Token.reserved (t : Token) (name : String) : Bool :=
  t = .word [.text name]

/-- Whether a token ends a list of commands. -/
def Token.closes (t : Token) : Bool :=
  t = .operator ")" || ["do", "done", "then", "else", "fi"].any t.reserved

/-- Drops the reserved word that has to come next. -/
def expect (name : String) : List Token → List Token
  | [] => []
  | t :: rest => if t.reserved name then rest else t :: rest

/-- Reads the words and redirections of a simple command. -/
def readSimple : List Token → List Word × List Redirect × List Token
  | .word w :: rest =>
    let (words, redirects, rest) := readSimple rest
    (w :: words, redirects, rest)
  | .redirect ofErrors target :: rest =>
    let (words, redirects, rest) := readSimple rest
    (words, ⟨ofErrors, target⟩ :: redirects, rest)
  | rest => ([], [], rest)

mutual

/-- Reads commands up to a token that ends the list. -/
def readList : Nat → List Token → Command × List Token
  | 0, ts => (.nothing, ts)
  | _, [] => (.nothing, [])
  | fuel + 1, t :: rest =>
    if t = .operator ";" then readList fuel rest
    else if t.closes then (.nothing, t :: rest)
    else
      let (c, rest) := readChain fuel (t :: rest)
      let (c, rest) := match rest with
        | .operator "&" :: rest => (.background c, rest)
        | rest => (c, rest)
      let (d, rest) := readList fuel rest
      (.sequence c d, rest)

/-- Reads pipelines that depend on each other. -/
def readChain : Nat → List Token → Command × List Token
  | 0, ts => (.nothing, ts)
  | fuel + 1, ts =>
    let (c, rest) := readPipeline fuel ts
    readMore fuel c rest

/-- Reads the pipelines that depend on a command. -/
def readMore : Nat → Command → List Token → Command × List Token
  | 0, c, ts => (c, ts)
  | fuel + 1, c, .operator "&&" :: rest =>
    let (d, rest) := readPipeline fuel rest
    readMore fuel (.both c d) rest
  | fuel + 1, c, .operator "||" :: rest =>
    let (d, rest) := readPipeline fuel rest
    readMore fuel (.either c d) rest
  | _, c, ts => (c, ts)

/-- Reads a pipeline. -/
def readPipeline : Nat → List Token → Command × List Token
  | 0, ts => (.nothing, ts)
  | fuel + 1, ts =>
    let (c, rest) := readCommand fuel ts
    match rest with
    | .operator "|" :: rest =>
      let (d, rest) := readPipeline fuel rest
      (.pipe c d, rest)
    | rest => (c, rest)

/-- Reads one command. -/
def readCommand : Nat → List Token → Command × List Token
  | 0, ts => (.nothing, ts)
  | _, [] => (.nothing, [])
  | fuel + 1, .operator "(" :: rest =>
    let (c, rest) := readList fuel rest
    (.group c, rest.drop 1)
  | fuel + 1, t :: rest =>
    if t.reserved "while" then
      let (condition, rest) := readList fuel rest
      let (body, rest) := readList fuel (expect "do" rest)
      (.loop condition body, expect "done" rest)
    else if t.reserved "if" then
      let (condition, rest) := readList fuel rest
      let (yes, rest) := readList fuel (expect "then" rest)
      let (no, rest) := readList fuel (expect "else" rest)
      (.choice condition yes no, expect "fi" rest)
    else
      let (words, redirects, after) := readSimple (t :: rest)
      (.simple words redirects, after)

end

/-- Reads a script; every token costs at most four steps down. -/
def Command.ofTokens (ts : List Token) : Command :=
  (readList (5 * ts.length + 5) ts).1

/-- The command that a script is. -/
def Command.ofScript (script : String) : Command :=
  ofTokens (Token.scan script)

end Supervisor.Sim.Shell
