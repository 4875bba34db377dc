import SourceAtlas.Dependencies
import SourceAtlas.Language
import SourceAtlas.Relation

/-!
# Reports on single files
-/

namespace SourceAtlas

/-- What is known about one file: the names it takes and gives and, where it was asked
for, its symbols and their relations. -/
structure FileReport where
  /-- The path below the directory that was scanned. -/
  relative : String
  language : Language
  /-- The names imported, exported and declared. -/
  dependencies : Dependencies := {}
  /-- The symbols and relations, if they were asked for. -/
  analysis : Option Analysis := none
  deriving DecidableEq, Repr, Inhabited

end SourceAtlas
