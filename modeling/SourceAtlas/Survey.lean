import SourceAtlas.Failure
import SourceAtlas.Manifest
import SourceAtlas.Report.Code
import SourceAtlas.Report.Relations
import SourceAtlas.Rules
import SourceAtlas.Scan
import SourceAtlas.Text.Decode

/-!
# Surveying files and directories

A survey reads the files that a report is about.  A file that cannot be read or that
takes too long does not stop a survey: it contributes nothing, or a line that says what
went wrong.
-/

namespace SourceAtlas

/-- The settings of a survey. -/
structure Settings where
  /-- How many items of each kind an outline shows. -/
  caps : DisplayCaps := {}
  /-- How many milliseconds the patterns of one file may take. -/
  budget : Nat := 2000
  /-- What a scan leaves out. -/
  limits : ScanLimits := {}
  deriving DecidableEq, Repr, Inhabited

/-- What the rules may spend and show on one file. -/
def Settings.context (settings : Settings) : RuleContext :=
  ⟨.after settings.budget, settings.caps⟩

namespace FileSystem

def readText (system : FileSystem) (path : Bytes) : Except Failure Text :=
  match system.read path with
  | .ok content => .ok (Text.decode content.toList)
  | .error cause => .error (.unreadable path cause)

def fileOutline (system : FileSystem) (context : RuleContext) (language : Language)
    (path : Bytes) : List String :=
  match system.readText path with
  | .ok source => outlineOf context language source
  | .error failure => ["Error parsing file: " ++ failure.message]

/-- The names that a manifest stands for. -/
def manifestDependencies (system : FileSystem) (path : Bytes) : Dependencies :=
  match system.readText path with
  | .ok text => Manifest.dependencies path text
  | .error _ => {}

/-- The names that a file imports, exports and declares. -/
def fileDependencies (system : FileSystem) (context : RuleContext) (language : Language)
    (path : Bytes) : Dependencies :=
  if Manifest.isManifest path then system.manifestDependencies path
  else
    match language.rules?, system.readText path with
    | some rules, .ok source =>
        match rules.dependencies context source with
        | .ok found => found
        | .error _ => {}
    | _, _ => {}

/-- The symbols of a file and their relations. -/
def fileAnalysis (system : FileSystem) (context : RuleContext) (language : Language)
    (path : Bytes) : Analysis :=
  match system.readText path with
  | .ok source =>
      match analysisOf context language source with
      | .ok analysis => analysis
      | .error _ => {}
  | .error _ => {}

/-- A file that was asked for by itself. -/
def singleFile (path : Bytes) : ScannedFile :=
  ⟨path, ((Path.fileName? path).getD path).shown, Language.classifyPath path⟩

/-- The files that a report on a path is about, and whether the path leads to a
directory. -/
def collect (system : FileSystem) (limits : ScanLimits) (mode : ScanMode) (path : Bytes) :
    Except Failure (Bool × List ScannedFile) :=
  if !system.exists? path then .error (.pathNotFound path)
  else if system.isDirectory path then .ok (true, system.scan limits mode path)
  else .ok (false, [singleFile path])

def fileReport (system : FileSystem) (context : RuleContext) (withAnalysis : Bool)
    (file : ScannedFile) : FileReport where
  relative := file.relative
  language := file.language
  dependencies := system.fileDependencies context file.language file.path
  analysis :=
    if withAnalysis then some (system.fileAnalysis context file.language file.path) else none

/-- The survey for a relation report.  Symbols and relations are looked for where the
report shows them: in a file asked for by itself, and from depth 3 on. -/
def surveyRelations (system : FileSystem) (settings : Settings) (depth : Nat)
    (path : Bytes) : Except Failure RelationSurvey := do
  let (isDirectory, files) ← system.collect settings.limits .relation path
  let withAnalysis := !isDirectory || decide (3 ≤ depth)
  return ⟨isDirectory, files.map (system.fileReport settings.context withAnalysis)⟩

/-- The survey for a code report.  A language that is given replaces the one told by the
file names. -/
def surveyOutlines (system : FileSystem) (settings : Settings) (language : Option Language)
    (path : Bytes) : Except Failure OutlineSurvey := do
  let (isDirectory, files) ← system.collect settings.limits .code path
  let report (file : ScannedFile) : OutlineReport :=
    let spoken := language.getD file.language
    ⟨file.relative, spoken, system.fileOutline settings.context spoken file.path⟩
  return ⟨system.displayName path, isDirectory, files.map report⟩

end FileSystem
end SourceAtlas
