import SourceAtlas.NameSet

/-!
# What a file takes from and gives to other files
-/

namespace SourceAtlas

/-- The names a file imports, exports and declares. -/
structure Dependencies where
  /-- The names taken from elsewhere. -/
  imports : NameSet := .empty
  /-- The names offered to others. -/
  exports : NameSet := .empty
  /-- The names declared in the file. -/
  symbols : NameSet := .empty
  deriving DecidableEq, Repr, Inhabited

/-- Whether nothing is imported, exported or declared. -/
def Dependencies.isEmpty (dependencies : Dependencies) : Bool :=
  dependencies.imports.isEmpty && dependencies.exports.isEmpty &&
    dependencies.symbols.isEmpty

end SourceAtlas
