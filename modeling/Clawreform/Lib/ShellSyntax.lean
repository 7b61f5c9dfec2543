import Clawreform.Lib.Text

namespace Clawreform.Lib.ShellSyntax

open Clawreform.Lib.Text

/-- What encloses the character being read. A backquote keeps the text of its
substitution, which the shell reads again once it is closed. -/
inductive Frame where
  | singleQuote
  | doubleQuote
  | comment
  | command
  | subshell
  | arithmetic
  | parameter
  | backquote (text : Str)
  deriving DecidableEq

structure State where
  frames : List Frame
  escaped : Bool
  last : Char
  deriving DecidableEq

def State.initial : State where
  frames := []
  escaped := false
  last := '\n'

/-- Where the shell begins a command: in front of the rest of the text, or at
the head of the text of a backquote substitution. -/
inductive Start where
  | here (rest : Str)
  | substituted (text : Str)
  deriving DecidableEq

def isBlank (c : Char) : Bool := c = ' ' || c = '\t'

def isSeparator (c : Char) : Bool := c = ';' || c = '|' || c = '&' || c = '\n'

def isMeta (c : Char) : Bool :=
  isBlank c || isSeparator c || c = '(' || c = ')' || c = '<' || c = '>'

def State.push (s : State) (f : Frame) (c : Char) : State :=
  { s with frames := f :: s.frames, last := c }

def State.pop (s : State) (c : Char) : State := { s with frames := s.frames.tail, last := c }

def State.pass (s : State) (c : Char) : State := { s with last := c }

def State.escape (s : State) : State := { s with escaped := true }

/-- The substitutions that are alive inside double quotes, arithmetic and
parameter expansions as well as in plain command text. -/
def stepExpansion (s : State) (c : Char) (rest : Str) : State × List Start :=
  if c = '\\' then (s.escape, [])
  else if c = '`' then (s.push (.backquote []) c, [])
  else if c = '(' ∧ s.last = '$' then
    if ['('] <+: rest then (s.push .arithmetic c, []) else (s.push .command c, [.here rest])
  else if c = '{' ∧ s.last = '$' then (s.push .parameter c, [])
  else (s.pass c, [])

def stepCommand (s : State) (c : Char) (rest : Str) : State × List Start :=
  if c = '\'' then (s.push .singleQuote c, [])
  else if c = '"' then (s.push .doubleQuote c, [])
  else if c = '#' ∧ isMeta s.last then (s.push .comment c, [])
  else if c = '(' ∧ s.last ≠ '$' then (s.push .subshell c, [.here rest])
  else if c = ')' then (s.pop c, [])
  else if isSeparator c then
    -- `>&`, `<&` and `>|` are redirections
    if (c = '&' ∧ (s.last = '>' ∨ s.last = '<')) ∨ (c = '|' ∧ s.last = '>') then (s.pass c, [])
    else (s.pass c, [.here rest])
  else stepExpansion s c rest

def stepEscaped (s : State) (c : Char) : State :=
  match s.frames with
  | .backquote text :: fs =>
    let kept := if c = '`' ∨ c = '$' ∨ c = '\\' then [c] else ['\\', c]
    { frames := .backquote (text ++ kept) :: fs, escaped := false, last := 'x' }
  | _ => { s with escaped := false, last := 'x' }

/-- Read one character, with the text after it at hand. -/
def step (s : State) (c : Char) (rest : Str) : State × List Start :=
  if s.escaped then (stepEscaped s c, [])
  else
    match s.frames with
    | .singleQuote :: _ => (if c = '\'' then s.pop c else s.pass c, [])
    | .comment :: _ => if c = '\n' then (s.pop c, [.here rest]) else (s.pass c, [])
    | .backquote text :: fs =>
      if c = '`' then (s.pop c, [.substituted text])
      else if c = '\\' then (s.escape, [])
      else ({ s with frames := .backquote (text ++ [c]) :: fs, last := c }, [])
    | .doubleQuote :: _ => if c = '"' then (s.pop c, []) else stepExpansion s c rest
    | .arithmetic :: _ =>
      if c = ')' then (s.pop c, [])
      else if c = '(' ∧ s.last ≠ '$' then (s.push .arithmetic c, [])
      else stepExpansion s c rest
    | .parameter :: fs =>
      if c = '}' then (s.pop c, [])
      else if c = '"' then (s.push .doubleQuote c, [])
      else if c = '\'' ∧ fs.head? ≠ some .doubleQuote then (s.push .singleQuote c, [])
      else stepExpansion s c rest
    | _ => stepCommand s c rest

def startsFrom (s : State) : Str → List Start
  | [] => []
  | c :: rest => (step s c rest).2 ++ startsFrom (step s c rest).1 rest

def starts (text : Str) : List Start := .here text :: startsFrom .initial text

/-- Split off the word a text begins with: it ends at the first blank or
operator that nothing quotes or encloses. -/
def readWord (s : State) : Str → Str × Str
  | [] => ([], [])
  | c :: rest =>
    if s.frames = [] ∧ s.escaped = false ∧ isMeta c ∧ ¬ (c = '(' ∧ s.last = '$') then
      ([], c :: rest)
    else
      let p := readWord (step s c rest).1 rest
      (c :: p.1, p.2)

inductive Quoting where
  | none
  | single
  | double
  deriving DecidableEq

/-- Quote removal. Expansions stay as they are spelled. -/
def removeQuotes : Quoting → Str → Str
  | _, [] => []
  | .none, '\\' :: c :: s => if c = '\n' then removeQuotes .none s else c :: removeQuotes .none s
  | .none, '\'' :: s => removeQuotes .single s
  | .none, '"' :: s => removeQuotes .double s
  | .none, c :: s => c :: removeQuotes .none s
  | .single, '\'' :: s => removeQuotes .none s
  | .single, c :: s => c :: removeQuotes .single s
  | .double, '"' :: s => removeQuotes .none s
  | .double, '\\' :: c :: s =>
    if c = '$' ∨ c = '`' ∨ c = '"' ∨ c = '\\' then c :: removeQuotes .double s
    else if c = '\n' then removeQuotes .double s
    else '\\' :: c :: removeQuotes .double s
  | .double, c :: s => c :: removeQuotes .double s

def isNameChar (c : Char) : Bool := c.isAlphanum || c = '_'

def isAssignment (word : Str) : Bool :=
  let name := word.takeWhile isNameChar
  !name.isEmpty && !(name.head?.any Char.isDigit) && ['='] <+: word.drop name.length

def isRedirection (rest : Str) : Bool :=
  (rest.dropWhile Char.isDigit).head?.any (fun c => c = '<' || c = '>')

/-- Reserved words that are followed by a command. -/
def leadingWords : List Str :=
  ["!".toList, "\x7b".toList, "if".toList, "then".toList, "else".toList, "elif".toList,
    "while".toList, "until".toList, "do".toList]

/-- Reserved words after which no command name follows. -/
def closingWords : List Str :=
  ["\x7d".toList, "fi".toList, "done".toList, "esac".toList, "for".toList, "case".toList, "in".toList]

/-- The name of the simple command a text begins with, past assignments,
redirections and reserved words. -/
def commandName : Nat → Str → Option Str
  | 0, _ => none
  | fuel + 1, text =>
    let rest := text.dropWhile isBlank
    if isRedirection rest then
      let target := (rest.dropWhile Char.isDigit).dropWhile (fun c => c = '<' || c = '>')
      let target := (target.dropWhile (fun c => c = '&' || c = '|' || c = '-')).dropWhile isBlank
      commandName fuel (readWord .initial target).2
    else
      let p := readWord .initial rest
      if p.1 = [] ∨ ['#'] <+: p.1 ∨ p.1 ∈ closingWords then none
      else if isAssignment p.1 ∨ p.1 ∈ leadingWords then commandName fuel p.2
      else some (removeQuotes .none p.1)

/-- Every command name the shell would run for a text, to a given depth of
backquote substitutions. -/
def namesToDepth : Nat → Str → List Str
  | 0, _ => []
  | depth + 1, text => (starts text).flatMap fun
    | .here rest => (commandName (rest.length + 1) rest).toList
    | .substituted inner => namesToDepth depth inner

def commandNames (text : Str) : List Str := namesToDepth (text.length + 1) text

def baseName (name : Str) : Str := afterLast '/' name

end Clawreform.Lib.ShellSyntax
