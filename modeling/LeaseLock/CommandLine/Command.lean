import LeaseLock.CommandLine.Setting

/-!
# Commands

What the words of a command line ask for. The first word names the command; those behind it belong
to the command, and settings that they leave open are looked up in the environment.

A value may be attached to its setting (`--port=1`, `-p1`, `-p=1`) or stand in the next word, unless
that looks like another setting. It is not read before the words behind it have been looked at: the
next setting, or the end of the words, makes it count. Hence a word that means nothing wins over a
bad value in front of it, but a second setting does not.

What ends the reading without a command is a `Halt`: a wish for help or the version, or a fault of
usage.
-/

namespace LeaseLock

/-- Why the words of a command line are no command. -/
inductive Halt where
  /-- They ask for help. -/
  | help
  /-- They ask for the version. -/
  | version
  /-- They name no command. -/
  | noCommand
  /-- The word names no command. -/
  | unknownCommand (word : String)
  /-- The word means nothing where it stands. -/
  | unknownArgument (word : String)
  /-- The setting lacks its value. -/
  | valueMissing (setting : Setting)
  /-- The value is no value of the setting. -/
  | badValue (setting : Setting) (value : String) (fault : ValueFault)
  /-- A value is attached to a word that takes none. -/
  | surplusValue (word : String)
  /-- The setting is given twice. -/
  | repeated (setting : Setting)
deriving DecidableEq, Repr

/-- The form of a word on the command line. -/
inductive Word where
  /-- Two dashes, behind which no word is a setting. -/
  | escape
  /-- A name behind two dashes, with the value attached by an equals sign. -/
  | long (name : String) (value : Option String)
  /-- A letter behind one dash, with the characters attached to it. -/
  | short (letter : Char) (attached : List Char)
  /-- Anything else. -/
  | plain
deriving DecidableEq, Repr

namespace Word

/-- The name in front of the first equals sign, and the value behind it. -/
def splitLong (cs : List Char) : Word :=
  let name := String.ofList (cs.takeWhile (· ≠ '='))
  match cs.dropWhile (· ≠ '=') with
  | _ :: value => long name (some (String.ofList value))
  | [] => long name none

/-- The form of a word. -/
def ofText (text : String) : Word :=
  match text.toList with
  | ['-', '-'] => escape
  | '-' :: '-' :: cs => splitLong cs
  | '-' :: c :: cs => short c cs
  | _ => plain

/-- The value attached to a letter, if there is one, without an equals sign in front of it. -/
def attachedValue? : List Char → Option String
  | [] => none
  | '=' :: cs => some (String.ofList cs)
  | cs => some (String.ofList cs)

end Word

/-- A command line that has been read up to some word. -/
structure Scan where
  /-- The options so far. -/
  options : ServerOptions := {}
  /-- The settings that have their value. -/
  given : List Setting := []
  /-- The setting whose value stands in a word of its own, with the value once it has been met. -/
  pending : Option (Setting × Option String) := none

namespace Scan

/-- Give a setting its value, which it may have only once. -/
def put (s : Scan) (x : Setting) (value : String) : Except Halt Scan :=
  if x ∈ s.given then .error (.repeated x)
  else
    match x.assign s.options value with
    | .ok options => .ok { s with options, given := x :: s.given }
    | .error fault => .error (.badValue x value fault)

/-- Make the pending value count. -/
def settle (s : Scan) : Except Halt Scan :=
  match s.pending with
  | none => .ok s
  | some (x, none) => .error (.valueMissing x)
  | some (x, some value) => ({ s with pending := none }).put x value

/-- End with a halt, but not before the pending value counts. -/
def halt (s : Scan) (h : Halt) : Except Halt Scan := s.settle.bind fun _ ↦ .error h

/-- Take a setting with the value attached to it, if any. -/
def meet (s : Scan) (x : Setting) (value : Option String) : Except Halt Scan := do
  let s ← s.settle
  match value with
  | some value => s.put x value
  | none => if x.isSwitch then s.put x "true" else return { s with pending := some (x, none) }

/-- Take a word that may be one of the accepted settings. -/
def step (accepted : List Setting) (s : Scan) (word : String) : Except Halt Scan :=
  match Word.ofText word with
  | .escape => .error (.unknownArgument word)
  | .long name value =>
    if name = "help" then
      if value.isSome then .error (.surplusValue word) else s.halt .help
    else
      match accepted.find? fun x ↦ x.long == name with
      | none => .error (.unknownArgument word)
      | some x =>
        if x.isSwitch && value.isSome then .error (.surplusValue word) else s.meet x value
  | .short letter attached =>
    if letter = 'h' then s.halt .help
    else
      match accepted.find? fun x ↦ x.short? == some letter with
      | none => .error (.unknownArgument word)
      | some x => s.meet x (Word.attachedValue? attached)
  | .plain =>
    match s.pending with
    | some (x, none) => .ok { s with pending := some (x, some word) }
    | _ => .error (.unknownArgument word)

/-- Take all words. Behind two dashes there must be none. -/
def run (accepted : List Setting) : Scan → List String → Except Halt Scan
  | s, [] => s.settle
  | s, word :: words =>
    if Word.ofText word = .escape then
      match words with
      | [] => s.settle
      | word :: _ => .error (.unknownArgument word)
    else do
      let s ← s.step accepted word
      s.run accepted words

/-- Look up in the environment what the words left open. -/
def complete (environment : Dict String) (accepted : List Setting) (s : Scan) :
    Except Halt Scan :=
  accepted.foldlM
    (fun s x ↦
      if x ∈ s.given then .ok s
      else
        match environment.get? x.environmentName with
        | some value => s.put x value
        | none => .ok s)
    s

end Scan

/-- What a command line asks for. -/
inductive Command where
  /-- Serve. -/
  | serve (options : ServerOptions)
  /-- Print the version. -/
  | version
deriving DecidableEq, Repr

namespace Command

/-- The names of the commands. -/
def names : List String := ["serve", "version", "help"]

/-- How the words behind the command `help` end: they may name one command. -/
def helpOn : List String → Halt
  | [] => .help
  | [word] => if word ∈ names then .help else .unknownCommand word
  | word :: next :: _ => .unknownCommand (if word ∈ names then next else word)

/-- How a command line ends that names no command in its first word. -/
def refuse (word : String) (words : List String) : Halt :=
  match Word.ofText word with
  | .escape =>
    match words with
    | [] => .noCommand
    | word :: _ => if word ∈ names then .unknownArgument word else .unknownCommand word
  | .long name value =>
    if name = "help" then if value.isSome then .surplusValue word else .help
    else if name = "version" then if value.isSome then .surplusValue word else .version
    else .unknownArgument word
  | .short letter _ =>
    if letter = 'h' then .help else if letter = 'V' then .version else .unknownArgument word
  | .plain => .unknownCommand word

/-- What the words ask for in an environment. -/
def parse (environment : Dict String) : List String → Except Halt Command
  | [] => .error .noCommand
  | word :: words =>
    if word = "serve" then do
      let s ← Scan.run Setting.all {} words
      let s ← s.complete environment Setting.all
      return serve s.options
    else if word = "version" then do
      let _ ← Scan.run [] {} words
      return version
    else if word = "help" then .error (helpOn words)
    else .error (refuse word words)

end Command

end LeaseLock
