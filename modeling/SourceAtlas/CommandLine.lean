import SourceAtlas.FileTree.Update
import SourceAtlas.Report.Directory
import SourceAtlas.Survey

/-!
# The command line

A command makes one diagram and writes it to a file.  Arguments are bytes, since they may
name any file; those that are no paths have to make sense as texts.  The time that the
patterns of a file may take can be set by an option before the command, by one behind it, or
by the environment; what stands further back on the command line wins, and the environment
counts least.
-/

namespace SourceAtlas
namespace CommandLine

/-- The kinds of diagrams. -/
inductive Diagram where
  /-- The tree of a directory, down to a number of levels. -/
  | directory (levels : Option Nat)
  /-- The outlines of source files, all read as one language if it is given. -/
  | code (language : Option String)
  | relation (depth : Nat)
  deriving DecidableEq, Repr, Inhabited

/-- A diagram to be made. -/
structure Request where
  diagram : Diagram
  /-- The file or directory to look at. -/
  path : Bytes
  /-- The file to write. -/
  output : Bytes
  /-- How many milliseconds the patterns of one file may take. -/
  budget : Nat
  deriving DecidableEq, Repr, Inhabited

/-- What a command line asks for. -/
inductive Invocation where
  | version
  | make (request : Request)
  deriving DecidableEq, Repr, Inhabited

inductive Command where
  | directory
  | code
  | relation
  deriving DecidableEq, Repr, Inhabited

namespace Command

def word : Command → String
  | directory => "directory"
  | code => "code"
  | relation => "relation"

def ofWord? (word : Bytes) : Option Command :=
  [directory, code, relation].find? fun command => word = command.word

def ownOption : Command → String
  | directory => "max-depth"
  | code => "language"
  | relation => "depth"

def options (command : Command) : List String :=
  ["path", "output", "format", command.ownOption, "timeout-ms"]

def defaultOutput : Command → String
  | directory => "directory_diagram.txt"
  | code => "code_diagram.txt"
  | relation => "relation_diagram.txt"

end Command

/-- The value of decimal digits with an optional plus sign, if it is at most `limit`. -/
def number? (limit : Nat) (text : Bytes) : Option Nat :=
  let digits := if text.head? = some 0x2B then text.tail else text
  if digits.isEmpty || !digits.all (fun digit => 0x30 ≤ digit && digit ≤ 0x39) then none
  else
    let value := digits.foldl (fun number digit => number * 10 + (digit.toNat - 0x30)) 0
    if value ≤ limit then some value else none

/-- The greatest number of levels or of milliseconds. -/
def maxNumber : Nat := Nat.pow 2 64 - 1

def minus : UInt8 := 0x2D

/-- The name of an option, and the value behind an equals sign. -/
def option? : (argument : Bytes) → Option (Bytes × Option Bytes)
  | first :: second :: body =>
      if first = minus && second = minus then
        match Text.splitAtFirst? [0x3D] body with
        | some (name, value) => some (name, some value)
        | none => some (body, none)
      else none
  | _ => none

/-- Whether an argument cannot be the value of an option: it begins with a minus sign and
goes on. -/
def isOption : (argument : Bytes) → Bool
  | first :: _ :: _ => first = minus
  | _ => false

abbrev Values := List (Bytes × Bytes)

/-- The values of some options, each given at most once.  A double minus ends the
options. -/
def readOptions (options : List String) : (known : Values) → List Bytes → Option Values
  | known, [] => some known
  | known, argument :: rest =>
      if argument = [minus, minus] then
        if rest.isEmpty then some known else none
      else
        match option? argument with
        | none => none
        | some (name, value) =>
            if !options.any (fun option => name = option) || (known.lookup name).isSome then none
            else
              match value, rest with
              | some value, rest => readOptions options ((name, value) :: known) rest
              | none, [] => none
              | none, value :: rest =>
                  if isOption value then none
                  else readOptions options ((name, value) :: known) rest

/-- The value of an option that must not be empty. -/
def filled? (text : Bytes) : Option Bytes :=
  if text = [] then none else some text

/-- The value of an option if it is given, none if it makes no sense. -/
def optional {α : Type} (values : Values) (name : String) (read? : Bytes → Option α) :
    Option (Option α) :=
  match values.lookup (Bytes.ofString name) with
  | none => some none
  | some text => (read? text).map some

def format? (text : Bytes) : Option Unit :=
  if text = "ascii" then some () else none

def diagram? (command : Command) (values : Values) : Option Diagram :=
  match command with
  | .directory => (optional values "max-depth" (number? maxNumber)).map .directory
  | .code => (optional values "language" Bytes.text?).map .code
  | .relation =>
      (optional values "depth" fun text => (number? 3 text).filter (1 ≤ ·)).map fun depth =>
        .relation (depth.getD 1)

/-- The number of milliseconds that counts: the one behind the command, the one before it,
the one of the environment, or the usual one.  The environment is looked at unless both
others are given, and then it must make sense. -/
def budget? (setting? : Option Bytes) (before behind : Option Nat) : Option Nat :=
  match before, behind with
  | some _, some budget => some budget
  | _, _ =>
      match setting? with
      | none => some ((behind.or before).getD ({} : Settings).budget)
      | some text =>
          (number? maxNumber text).map fun budget => (behind.or before).getD budget

def request? (setting? : Option Bytes) (before : Option Nat) (command : Command)
    (arguments : List Bytes) : Option Request := do
  let values ← readOptions command.options [] arguments
  let path ← (← optional values "path" filled?)
  let output ← optional values "output" filled?
  let _ ← optional values "format" format?
  let behind ← optional values "timeout-ms" (number? maxNumber)
  let diagram ← diagram? command values
  let budget ← budget? setting? before behind
  return ⟨diagram, path, output.getD command.defaultOutput, budget⟩

def asksVersion (argument : Bytes) : Bool :=
  argument = "--version" || argument.take 2 = "-V"

/-- What a command line asks for; none if it makes no sense.  The time given so far is
`before`. -/
def readInvocation (setting? : Option Bytes) : (before : Option Nat) → List Bytes →
    Option Invocation
  | _, [] => none
  | before, argument :: rest =>
      if asksVersion argument then some .version
      else
        match Command.ofWord? argument with
        | some command => (request? setting? before command rest).map .make
        | none =>
            match option? argument, before with
            | some (name, value), none =>
                if name ≠ "timeout-ms" then none
                else
                  match value, rest with
                  | some value, rest =>
                      match number? maxNumber value with
                      | some budget => readInvocation setting? (some budget) rest
                      | none => none
                  | none, [] => none
                  | none, value :: rest =>
                      match number? maxNumber value with
                      | some budget => readInvocation setting? (some budget) rest
                      | none => none
            | _, _ => none

/-- What a command line asks for, with a value of the environment variable for the
time. -/
def parse? (setting? : Option Bytes) (arguments : List Bytes) : Option Invocation :=
  readInvocation setting? none arguments

/-- The environment variable for the time. -/
def budgetVariable : String := "CODESKETCH_TIMEOUT_MS"

def versionText : String := "codesketch 0.1.0"

/-- The text of the diagram that is asked for. -/
def Request.render (request : Request) (system : FileSystem) : Except Failure String :=
  let settings : Settings := { budget := request.budget }
  match request.diagram with
  | .directory levels => DirectoryReport.render system levels request.path
  | .code language => do
      let survey ←
        system.surveyOutlines settings (language.map Language.ofTag) request.path
      return CodeReport.render survey
  | .relation depth => do
      let survey ← system.surveyRelations settings depth request.path
      return RelationReport.render depth survey

/-- What is said when the diagram is written. -/
def Request.success (request : Request) : String :=
  let subject :=
    match request.diagram with
    | .relation _ => "Relation diagram"
    | _ => "Diagram"
  "Success: " ++ subject ++ " saved to " ++ request.output.shown

/-- Makes a diagram and writes it. -/
def Request.perform (request : Request) (system : FileSystem) : Except Failure FileSystem := do
  let text ← request.render system
  match system.write request.output text.toUTF8 with
  | .ok changed => return changed
  | .error cause => throw (.unwritable request.output cause)

/-- How a run ends. -/
structure Outcome where
  code : Nat
  printed : String
  /-- The files afterwards. -/
  system : FileSystem
  deriving Inhabited

/-- The end of a run that fails. -/
def failed (failure : Failure) (system : FileSystem) : Outcome :=
  ⟨1, "Error: " ++ failure.message ++ "\n", system⟩

/-- Runs a command line: exit code 0 on success, 1 if no diagram can be made, and 2 for a
command line that makes no sense. -/
def run (setting? : Option Bytes) (arguments : List Bytes) (system : FileSystem) :
    Outcome :=
  match parse? setting? arguments with
  | none => ⟨2, "", system⟩
  | some .version => ⟨0, versionText ++ "\n", system⟩
  | some (.make request) =>
      match request.perform system with
      | .ok changed => ⟨0, request.success ++ "\n", changed⟩
      | .error failure => failed failure system

end CommandLine
end SourceAtlas
