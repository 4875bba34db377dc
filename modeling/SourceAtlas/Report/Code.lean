import SourceAtlas.Language
import SourceAtlas.Listing

/-!
# The code report

The outlines of some files, one after another under their names.
-/

namespace SourceAtlas

/-- The outline of one file. -/
structure OutlineReport where
  /-- The path below the directory that was scanned. -/
  relative : String
  language : Language
  lines : List String
  deriving DecidableEq, Repr, Inhabited

/-- The files of a code report. -/
structure OutlineSurvey where
  /-- The name of the directory or file that was asked for. -/
  rootName : String
  /-- Whether the files come from a directory. -/
  rootIsDirectory : Bool
  /-- The outlines in the order of the scan. -/
  files : List OutlineReport
  deriving DecidableEq, Repr, Inhabited

namespace CodeReport

/-- A rule across the page. -/
def rule (mark : Char) : String :=
  String.ofList (List.replicate 50 mark)

/-- The lines for a file of a directory: its name above its outline. -/
def fileLines (report : OutlineReport) : List String :=
  ("\nFile: " ++ report.relative ++ " (" ++ report.language.tag ++ ")") ::
    rule '-' :: report.lines

def lines (survey : OutlineSurvey) : List String :=
  if survey.rootIsDirectory then
    ("Code Diagram for Directory: " ++ survey.rootName) :: rule '=' ::
      survey.files.flatMap fileLines
  else
    ("Code Diagram for File: " ++ survey.rootName) :: rule '=' ::
      survey.files.flatMap (·.lines)

/-- The text of the report. -/
def render (survey : OutlineSurvey) : String :=
  "\n".intercalate (lines survey)

end CodeReport
end SourceAtlas
