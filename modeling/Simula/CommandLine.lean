import Simula.CommandLine.Argument
import Simula.Library.Folder
import Simula.Outline
import Simula.Session

/-!
# The command line

The commands list the attribute files of a library, show the declarations or the class
hierarchy that a file holds, and check a stored module again. The arguments ask for such a
command or for the version of the program; serving the request gives an exit code and two texts,
for output and for diagnostics.
-/

namespace Simula.CommandLine

/-- What to do. -/
inductive Command
  | list
  | dump (entry : String)
  | hierarchy (entry : String)
  | check (entry : String)
  deriving DecidableEq, Repr

/-- A command with the options for it. -/
structure Invocation where
  library : String := "."
  package : Option String := none
  caseRule : CaseRule := .insensitive
  verbosity : Nat := 0
  command : Command
  deriving DecidableEq, Repr

/-- What a command line asks for. -/
inductive Request
  | version
  | invocation (i : Invocation)
  deriving DecidableEq, Repr

/-- What a run leaves behind. -/
structure Outcome where
  code : UInt8 := 0
  output : String := ""
  diagnostics : String := ""
  deriving DecidableEq, Repr

/-- The exit code for a command line that is wrong. -/
def misuseCode : UInt8 := 2

/-- The name and the version of the program. -/
def versionText : String := "simc-cli 0.1.0"

/-- The option in an argument. -/
def Argument.setting? : Argument → Option Setting
  | .setting s => some s
  | _ => none

/-- The word in an argument, before or after the mark that ends the options. -/
def Argument.word? : Argument → Option String
  | .word w | .literal w => some w
  | _ => none

/-- What is wrong with an argument after the name of a command. The version can be asked for
only before it. -/
def Argument.fault? : Argument → Option Misuse
  | .wrong m => some m
  | .version => some (.unknownOption "--version")
  | _ => none

/-- The options given in one place of the command line. -/
structure Choices where
  libraries : List String := []
  packages : List String := []
  caseSensitive : Nat := 0
  verbosity : Nat := 0

namespace Choices

/-- Adds an option. -/
def add (c : Choices) : Setting → Choices
  | .library path => { c with libraries := c.libraries ++ [path] }
  | .package name => { c with packages := c.packages ++ [name] }
  | .caseSensitive => { c with caseSensitive := c.caseSensitive + 1 }
  | .verbose => { c with verbosity := c.verbosity + 1 }

/-- The options among some arguments; only `verbose` can be given more than once. -/
def ofArguments (args : List Argument) : Except Misuse Choices :=
  let c := (args.filterMap Argument.setting?).foldl add {}
  if c.libraries.length > 1 then .error (.repeated "library")
  else if c.packages.length > 1 then .error (.repeated "package")
  else if c.caseSensitive > 1 then .error (.repeated "case-sensitive")
  else .ok c

end Choices

/-- The command of a name with the words after it. -/
def Command.ofWords (name : String) (words : List String) : Except Misuse Command :=
  if name = "list" then
    match words with
    | [] => .ok .list
    | w :: _ => .error (.unexpectedWord w)
  else if name = "dump" then .dump <$> entry words
  else if name = "hierarchy" then .hierarchy <$> entry words
  else if name = "check" then .check <$> entry words
  else .error (.unknownCommand name)
where
  /-- The one word that names an entry. -/
  entry : List String → Except Misuse String
    | [] => .error .missingEntry
    | [e] => .ok e
    | _ :: w :: _ => .error (.unexpectedWord w)

/-- The request of a command line. Options after the command win over those before it. -/
def Request.ofArguments (args : List String) : Except Misuse Request := do
  let args := Argument.readAll args
  let before := args.takeWhile fun a => a.setting?.isSome
  let outer ← Choices.ofArguments before
  match args.drop before.length with
  | .version :: _ => return .version
  | .word name :: after =>
    if let some m := after.findSome? Argument.fault? then throw m
    let inner ← Choices.ofArguments after
    let command ← Command.ofWords name (after.filterMap Argument.word?)
    return .invocation {
      library := (inner.libraries ++ outer.libraries).headD "."
      package := (inner.packages ++ outer.packages).head?
      caseRule := if inner.caseSensitive + outer.caseSensitive > 0 then .sensitive else .insensitive
      verbosity := if inner.verbosity > 0 then inner.verbosity else outer.verbosity
      command }
  | .literal w :: _ => throw (.unexpectedWord w)
  | .wrong m :: _ => throw m
  | _ => throw .noCommand

namespace Invocation

/-- The options of the session that an invocation starts. -/
def options (i : Invocation) : Options :=
  let defaults : Options := { caseRule := i.caseRule }
  match i.package with
  | some p => { defaults with package := p }
  | none => defaults

end Invocation

namespace Outcome

/-- A run that ends with an error. -/
def failure (message : String) : Outcome :=
  { code := 1, diagnostics := "Error: " ++ message ++ "\n" }

/-- A text with every line indented. -/
def indented (text : String) : String :=
  "    " ++ String.intercalate "\n    " (text.splitOn "\n")

/-- A run whose library cannot be opened. -/
def libraryFailure (path : String) (e : Error) : Outcome :=
  failure ("failed to open attribute library " ++ path ++ "\n\nCaused by:\n" ++ indented e.message)

/-- A run whose entry cannot be loaded. -/
def loadFailure (entry : String) (e : Error) : Outcome :=
  failure ("failed to load " ++ entry ++ ": " ++ e.message ++
    if e.requiresRecompile then " (recompile required)" else "")

end Outcome

/-- A new session at work on an empty tree. -/
def start (options : Options) : Compilation :=
  let session : Session := { options }
  ⟨session, session.newTree⟩

/-- Loads an entry of a library in a new session and goes on with it. -/
def withEntry (options : Options) (library : AttributeLibrary) (entry : String)
    (next : LoadedModule → Compilation → Outcome) : Outcome :=
  match Session.load library entry (start options) with
  | .ok m c => next m c
  | .error e _ => .loadFailure entry e

/-- The outlines of a module and of its external declarations. -/
def showModule (m : LoadedModule) (c : Compilation) : Outcome :=
  { output := String.join ((m.externals ++ [m.module]).map (Outline.render c.tree)) }

/-- The super-class edges known after loading. -/
def showHierarchy (_ : LoadedModule) (c : Compilation) : Outcome :=
  { output := String.join (c.session.hierarchy.edges.map fun (sub, sup) =>
      sub.qualifiedName ++ " -> " ++ sup.qualifiedName ++ "\n") }

/-- The findings about a session's modules, each on a line of its own under the entry. -/
def findings (entry : String) (s : Session) : String :=
  String.join (s.diagnostics.entries.toList.map fun d => entry ++ ": " ++ d.display ++ "\n")

/-- Checks a module again in a block of its own. -/
def recheck (entry : String) (m : LoadedModule) (c : Compilation) : Outcome :=
  let again : SessionM Unit := do Session.check (← Session.enclose m)
  match again c with
  | .ok _ c => { output := entry ++ ": ok\n", diagnostics := findings entry c.session }
  | .error e c =>
    let failed := Outcome.failure (entry ++ ": " ++ e.message)
    { failed with diagnostics := findings entry c.session ++ failed.diagnostics }

/-- The entry that a command works on. -/
def Command.entry? : Command → Option String
  | .list => none
  | .dump entry | .hierarchy entry | .check entry => some entry

/-- The entry for lack of which an invocation cannot load what it works on. -/
def Invocation.missing? (i : Invocation) (folder : Folder) : Option String :=
  i.command.entry?.bind fun entry =>
    match Session.load folder.library entry (start i.options) with
    | .error (.missingAttributeFile lacking) _ => some lacking
    | _ => none

/-- Runs a command on an open library. -/
def Invocation.execute (i : Invocation) (folder : Folder) : Outcome :=
  match i.command with
  | .list => { output := String.join (folder.attributeEntries.map (· ++ "\n")) }
  | .dump entry => withEntry i.options folder.library entry showModule
  | .hierarchy entry => withEntry i.options folder.library entry showHierarchy
  | .check entry => withEntry i.options folder.library entry (recheck entry)

/-- Runs an invocation in a working folder. -/
def Invocation.run (i : Invocation) (working : Folder) : Outcome :=
  match working.enter i.library with
  | .ok folder => i.execute folder
  | .error e => .libraryFailure i.library e

/-- The outcome of a request for the version. -/
def Outcome.version : Outcome := { output := versionText ++ "\n" }

/-- Runs a command line in a working folder. -/
def run (working : Folder) (args : List String) : Except Misuse Outcome :=
  (Request.ofArguments args).map fun
    | .version => .version
    | .invocation i => i.run working

end Simula.CommandLine
