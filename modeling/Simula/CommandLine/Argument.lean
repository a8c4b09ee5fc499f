/-!
# Command-line arguments

An argument is a word, an option, or the mark `--` after which all arguments are words. The
options are the same before and after the name of the command, so they are recognised first,
each with its value. An argument that cannot be recognised keeps its place among the others,
because it does not matter behind a request for the version.
-/

namespace Simula.CommandLine

/-- The ways in which a command line can be wrong. -/
inductive Misuse
  | unknownOption (text : String)
  | missingValue (name : String)
  | unexpectedValue (name : String)
  | repeated (name : String)
  | noCommand
  | unknownCommand (name : String)
  | missingEntry
  | unexpectedWord (text : String)
  deriving DecidableEq, Repr

/-- The wording of a misuse. -/
def Misuse.message : Misuse → String
  | unknownOption text => "unknown option " ++ text
  | missingValue name => "option --" ++ name ++ " needs a value"
  | unexpectedValue name => "option --" ++ name ++ " takes no value"
  | repeated name => "option --" ++ name ++ " is given twice"
  | noCommand => "a command is needed: list, dump, hierarchy or check"
  | unknownCommand name => "unknown command " ++ name
  | missingEntry => "the command needs an entry"
  | unexpectedWord text => "unexpected argument " ++ text

/-- One option with its value. -/
inductive Setting
  | library (path : String)
  | package (name : String)
  | caseSensitive
  | verbose
  deriving DecidableEq, Repr

/-- An argument, as recognised. -/
inductive Argument
  | word (text : String)
  | setting (s : Setting)
  /-- A request for the version of the program. -/
  | version
  /-- A word after the mark that ends the options. -/
  | literal (text : String)
  /-- An argument that cannot be recognised. -/
  | wrong (misuse : Misuse)
  deriving DecidableEq, Repr

namespace Argument

/-- The outer form of an argument. -/
inductive Form
  | word
  | endOfOptions
  /-- A long option, with the value that an equals sign attaches to it. -/
  | long (name : String) (value : Option String)
  | short (letters : List Char)
  deriving DecidableEq, Repr

/-- The name and the attached value of a long option. -/
def longForm (text : List Char) : Form :=
  match text.dropWhile (· ≠ '=') with
  | [] => .long (String.ofList text) none
  | _ :: value => .long (String.ofList (text.takeWhile (· ≠ '='))) (some (String.ofList value))

/-- The form of an argument. A single dash is a word. -/
def form (arg : String) : Form :=
  match arg.toList with
  | ['-', '-'] => .endOfOptions
  | '-' :: '-' :: text => longForm text
  | '-' :: c :: letters => .short (c :: letters)
  | _ => .word

/-- Whether a long name is that of an option with a value. -/
def takesValue (name : String) : Bool := name = "library" || name = "package"

/-- An option with its value. The path of a library must not be empty. -/
def valued (name value : String) : Argument :=
  if name = "package" then .setting (.package value)
  else if value = "" then .wrong (.missingValue name)
  else .setting (.library value)

/-- The option without a value that has a long name. -/
def plain? (name : String) : Option Argument :=
  if name = "case-sensitive" then some (.setting .caseSensitive)
  else if name = "verbose" then some (.setting .verbose)
  else if name = "version" then some .version
  else none

/-- An option without a value, to which one may have been attached by mistake. -/
def plain (name : String) (value : Option String) : Argument :=
  match plain? name, value with
  | none, _ => .wrong (.unknownOption ("--" ++ name))
  | some _, some _ => .wrong (.unexpectedValue name)
  | some a, none => a

/-- The option that a single letter stands for. -/
def ofLetter (c : Char) : Argument :=
  if c = 'v' then .setting .verbose
  else if c = 'V' then .version
  else .wrong (.unknownOption (String.ofList ['-', c]))

/-- Recognises all arguments of a command line. -/
def readAll : List String → List Argument
  | [] => []
  | arg :: rest =>
    match form arg with
    | .word => .word arg :: readAll rest
    | .endOfOptions => rest.map .literal
    | .short letters => letters.map ofLetter ++ readAll rest
    | .long name value =>
      if takesValue name then
        match value, rest with
        | some v, rest => valued name v :: readAll rest
        | none, [] => [.wrong (.missingValue name)]
        | none, v :: rest =>
          if form v = .word then valued name v :: readAll rest
          else [.wrong (.missingValue name)]
      else plain name value :: readAll rest

end Argument

end Simula.CommandLine
