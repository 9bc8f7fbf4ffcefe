import Supervisor.Backend.Spawn
import Supervisor.Sim.Shell.Syntax

/-!
# Running shell scripts

`run` tells what a script writes to its outputs, when it does so, and how it ends.  Time passes
only where the script sleeps; a command in the background has a time of its own.
-/

namespace Supervisor.Sim.Shell

open Backend (Channel)
open Wire (Bytes)

/-- Where an output goes to. -/
inductive Sink where
  | channel (c : Channel)
  /-- The next command of a pipeline. -/
  | pipe
  | nowhere
  | closed
deriving DecidableEq, Repr

/-- How a shell is left. -/
inductive Exit where
  | exited (code : Nat)
  | killed
deriving DecidableEq, Repr

/-- A shell at work. -/
structure Runner where
  pid : Nat
  bindings : List (String × String)
  output : Sink := .channel .output
  errors : Sink := .channel .errors
  input : Bytes := []
  /-- The exit code of the last command. -/
  code : Nat := 0
  /-- Time since the start. -/
  now : Duration := .zero
  /-- When the last command in the background is through. -/
  busy : Duration := .zero
  /-- What was written, latest first. -/
  written : List (Duration × Sink × Bytes) := []
  exit : Option Exit := none

/-- The later of two times. -/
def later (a b : Duration) : Duration :=
  if a ≤ b then b else a

/-! ## Replacing -/

namespace Runner

/-- The value of a variable, empty if it is not set. -/
def value (s : Runner) (name : String) : String :=
  (s.bindings.lookup name).getD ""

/-- A number or the value of a variable. -/
def operand (s : Runner) : List Char → Int × List Char
  | '-' :: cs => (-((String.ofList (cs.takeWhile isNameChar)).toInt?.getD 0), cs.dropWhile isNameChar)
  | '$' :: cs => ((s.value (String.ofList (cs.takeWhile isNameChar))).toInt?.getD 0,
      cs.dropWhile isNameChar)
  | cs =>
    let name := String.ofList (cs.takeWhile isNameChar)
    (name.toInt?.getD ((s.value name).toInt?.getD 0), cs.dropWhile isNameChar)

/-- Multiplies and divides as long as there is something to multiply or divide by. -/
def factors (s : Runner) : Nat → Int → List Char → Int × List Char
  | fuel + 1, n, '*' :: cs => let (m, cs) := s.operand cs; s.factors fuel (n * m) cs
  | fuel + 1, n, '/' :: cs => let (m, cs) := s.operand cs; s.factors fuel (n.tdiv m) cs
  | fuel + 1, n, '%' :: cs => let (m, cs) := s.operand cs; s.factors fuel (n.tmod m) cs
  | _, n, cs => (n, cs)

/-- Adds and subtracts as long as there is something to add or subtract. -/
def terms (s : Runner) : Nat → Int → List Char → Int
  | fuel + 1, n, '+' :: cs =>
    let (m, cs) := s.operand cs
    let (m, cs) := s.factors fuel m cs
    s.terms fuel (n + m) cs
  | fuel + 1, n, '-' :: cs =>
    let (m, cs) := s.operand cs
    let (m, cs) := s.factors fuel m cs
    s.terms fuel (n - m) cs
  | _, n, _ => n

/-- The value of an expression. -/
def sum (s : Runner) (expression : List Char) : Int :=
  let cs := expression.filter fun c => !c.isWhitespace
  s.terms (cs.length + 1) 0 ('+' :: cs)

/-- The text of a piece. -/
def piece (s : Runner) : Piece → String
  | .text t => t
  | .variable name => s.value name
  | .lastCode => toString s.code
  | .ownPid => toString s.pid
  | .sum expression => toString (s.sum expression)

/-- The text of a word. -/
def expand (s : Runner) (w : Word) : String :=
  String.join (w.map s.piece)

/-! ## Writing -/

/-- Writes to a sink. -/
def put (s : Runner) (sink : Sink) (b : Bytes) : Runner :=
  if sink = .closed then { s with code := 1 }
  else { s with written := (s.now, sink, b) :: s.written, code := 0 }

/-- Complains about a command, in the words of a shell that runs one line. -/
def complain (s : Runner) (text : String) (code : Nat) : Runner :=
  { s.put s.errors (Wire.utf8 ("/bin/sh: 1: " ++ text ++ "\n")) with code }

/-- Sends an output somewhere else. -/
def redirect (s : Runner) (r : Redirect) : Runner :=
  let sink := match r.target with
    | .output => s.output
    | .errors => s.errors
    | .closed => .closed
    | .nowhere => .nowhere
  if r.ofErrors then { s with errors := sink } else { s with output := sink }

end Runner

/-- At most `n` octal digits at the front. -/
def octal (n : Nat) (cs : List Char) : List Char :=
  (cs.take n).takeWhile fun c => '0' ≤ c && c ≤ '7'

/-- The bytes of a text with escapes in it; `fuel` bounds the characters. -/
def unescape : Nat → List Char → Bytes
  | 0, _ | _, [] => []
  | fuel + 1, '\\' :: 'n' :: cs => 10 :: unescape fuel cs
  | fuel + 1, '\\' :: 't' :: cs => 9 :: unescape fuel cs
  | fuel + 1, '\\' :: 'r' :: cs => 13 :: unescape fuel cs
  | fuel + 1, '\\' :: '\\' :: cs => 92 :: unescape fuel cs
  | fuel + 1, c :: cs =>
    let digits := if c = '\\' then octal (if cs.head? = some '0' then 4 else 3) cs else []
    if digits.isEmpty then Wire.utf8 c.toString ++ unescape fuel cs
    else
      (digits.foldl (fun (n : Nat) (d : Char) => 8 * n + (d.toNat - 48)) 0).toUInt8
        :: unescape fuel (cs.drop digits.length)

/-- Puts arguments into the places of a format. -/
def fill : List Char → List String → List Char × List String
  | '%' :: '%' :: cs, args => let (t, args) := fill cs args; ('%' :: t, args)
  | '%' :: 's' :: cs, args | '%' :: 'd' :: cs, args =>
    let (t, rest) := fill cs (args.drop 1)
    ((args.headD "").toList ++ t, rest)
  | c :: cs, args => let (t, args) := fill cs args; (c :: t, args)
  | [], args => ([], args)

/-- Uses a format as long as that takes arguments; `fuel` bounds how often. -/
def format : Nat → List Char → List String → List Char
  | 0, _, _ => []
  | fuel + 1, cs, args =>
    let (t, rest) := fill cs args
    if rest.isEmpty ∨ rest.length = args.length then t else t ++ format fuel cs rest

/-! ## Commands -/

/-- The outcome of a test. -/
def holds : List String → Bool
  | [a, "=", b] => a = b
  | [a, "!=", b] => a ≠ b
  | ["-n", a] | [a] => a ≠ ""
  | ["-z", a] => a = ""
  | ["!", a] => a = ""
  | [a, relation, b] =>
    match a.toInt?, b.toInt? with
    | some a, some b =>
      if relation = "-eq" then a = b
      else if relation = "-ne" then a ≠ b
      else if relation = "-lt" then a < b
      else if relation = "-le" then a ≤ b
      else if relation = "-gt" then b < a
      else relation = "-ge" && b ≤ a
    | _, _ => false
  | _ => false

/-- The duration of a number of seconds, maybe with a fraction. -/
def seconds (text : String) : Duration :=
  let digits (cs : List Char) : Nat := (String.ofList (cs.filter Char.isDigit)).toNat?.getD 0
  let fraction := ((text.toList.dropWhile (· ≠ '.')).drop 1 ++ List.replicate 9 '0').take 9
  ⟨digits (text.toList.takeWhile (· ≠ '.')) * 1000000000 + digits fraction⟩

/-- The programs of the system. -/
def programs : List String :=
  ["sh", "true", "false", "echo", "printf", "sleep", "cat", "wc", "kill", "test"]

/-- The name of a program, given its path. -/
def baseName (path : String) : String :=
  (path.splitOn "/").getLastD path

/-- The program at a path. -/
def programAt? (path : String) : Option String :=
  if path = "/bin/" ++ baseName path ∨ path = "/usr/bin/" ++ baseName path ∨ path = baseName path
  then programs.find? (· = baseName path) else none

/-- Runs a command that is a single word with arguments. -/
def perform (s : Runner) : List String → Runner
  | [] => s
  | name :: args =>
    if name = "echo" then
      let bare := args.head? = some "-n"
      let text := String.intercalate " " (if bare then args.drop 1 else args)
      s.put s.output (unescape text.length text.toList ++ if bare then [] else [10])
    else if name = "printf" then
      let text := format (args.length + 1) (args.headD "").toList (args.drop 1)
      s.put s.output (unescape text.length text)
    else if name = "exit" then
      match args.head? with
      | none => { s with exit := some (.exited s.code) }
      | some a =>
        match a.toNat? with
        | some n => { s with exit := some (.exited (n % 256)) }
        | none =>
          { s.complain ("exit: Illegal number: " ++ a) 2 with exit := some (.exited 2) }
    else if name = "kill" then
      if args.getLast? ≠ some (toString s.pid) then s.complain "kill: No such process" 1
      else if args.head? = some "-0" then { s with code := 0 }
      else { s with exit := some .killed }
    else if name = "sleep" then
      { s with now := s.now + seconds (args.headD ""), code := 0 }
    else if name = "wait" then { s with now := later s.now s.busy, code := 0 }
    else if name = "cat" then s.put s.output s.input
    else if name = "wc" then s.put s.output (Wire.utf8 (toString s.input.length ++ "\n"))
    else if name = "[" ∨ name = "test" then
      { s with code := if holds (args.filter (· ≠ "]")) then 0 else 1 }
    else if name = "true" ∨ name = ":" then { s with code := 0 }
    else if name = "false" then { s with code := 1 }
    else s.complain (name ++ ": not found") 127

/-- What a word assigns, if it does. -/
def assignment? (text : String) : Option (String × String) :=
  match (text.toList.takeWhile isNameChar, text.toList.dropWhile isNameChar) with
  | (c :: name, '=' :: rest) =>
    if c.isDigit then none else some (String.ofList (c :: name), String.ofList rest)
  | _ => none

/-- Runs a simple command.  Redirections of `exec` alone are there to stay. -/
def simple (s : Runner) (words : List String) (redirects : List Redirect) : Runner :=
  let inner := redirects.foldl Runner.redirect s
  match words with
  | ["exec"] => { inner with code := 0 }
  | "exec" :: words =>
    let t := perform inner ((words.take 1).map baseName ++ words.drop 1)
    { t with exit := t.exit.or (some (.exited t.code)) }
  | [] => s
  | first :: rest =>
    match assignment? first, rest with
    | some binding, [] => { s with bindings := binding :: s.bindings, code := 0 }
    | _, _ =>
      { perform inner (baseName first :: rest) with output := s.output, errors := s.errors }

/-- Comes back from a shell of its own: only what was written and how it ended counts. -/
def Runner.back (s inner : Runner) : Runner :=
  let code := match inner.exit with
    | some (.exited code) => code
    | _ => inner.code
  { s with
    written := inner.written, code, busy := inner.busy
    exit := if inner.exit = some .killed then some .killed else none }

/-- Runs a command; `fuel` bounds the depth and the number of turns of a loop. -/
def eval : Nat → Command → Runner → Runner
  | 0, _, s => s
  | fuel + 1, c, s =>
    if s.exit.isSome then s
    else
      match c with
      | .nothing => s
      | .simple words redirects => simple s (words.map s.expand) redirects
      | .sequence a b => eval fuel b (eval fuel a s)
      | .both a b =>
        let s := eval fuel a s
        if s.code = 0 then eval fuel b s else s
      | .either a b =>
        let s := eval fuel a s
        if s.code = 0 then s else eval fuel b s
      | .background c =>
        let inner := eval fuel c s
        { s.back inner with code := 0, busy := later s.busy inner.now }
      | .group c =>
        let inner := eval fuel c s
        { s.back inner with now := inner.now }
      | .pipe a b =>
        let left := eval fuel a { s with output := .pipe, written := [] }
        let (piped, others) := left.written.partition (·.2.1 = .pipe)
        let right := eval fuel b { s with
          input := piped.reverse.flatMap (·.2.2), written := others ++ s.written }
        { s.back right with now := later left.now right.now }
      | .loop condition body =>
        let s := eval fuel condition s
        if s.code = 0 ∧ s.exit.isNone then eval fuel (.loop condition body) (eval fuel body s)
        else { s with code := 0 }
      | .choice condition yes no =>
        let s := eval fuel condition s
        eval fuel (if s.code = 0 then yes else no) s

/-! ## Programs -/

/-- What a program does: its outputs with their times, and when and how it ends. -/
structure Trace where
  writes : List (Duration × Channel × Bytes)
  ending : Duration
  /-- The exit code; none if a signal ended it. -/
  code : Option Int32
deriving DecidableEq, Repr

/-- How deep a script may go and how often a loop may turn. -/
def limit : Nat := 100000

/-- The trace that a shell leaves. -/
def Runner.trace (s : Runner) : Trace where
  writes := (s.written.reverse.filterMap fun (time, sink, b) =>
    match sink with
    | .channel c => some (time, c, b)
    | _ => none).mergeSort fun a b => decide (a.1 ≤ b.1)
  ending := s.now
  code := match s.exit with
    | none => some (Int32.ofNat s.code)
    | some (.exited code) => some (Int32.ofNat code)
    | some .killed => none

/-- Runs a program with arguments and variables bound so, if there is one at the path. -/
def run? (path : String) (args : List String) (bindings : List (String × String)) (pid : Nat) :
    Option Trace :=
  (programAt? path).map fun name =>
    let s : Runner := { pid, bindings }
    match name, args with
    | "sh", "-c" :: script :: _ => (eval limit (.ofScript script) s).trace
    | _, _ => (perform s (name :: args)).trace

end Supervisor.Sim.Shell
