import SourceAtlas.Language
import SourceAtlas.Rules.CFamily
import SourceAtlas.Rules.CSharp
import SourceAtlas.Rules.Java
import SourceAtlas.Rules.JavaScript
import SourceAtlas.Rules.Python
import SourceAtlas.Rules.Rust

/-!
# The rules of each language
-/

namespace SourceAtlas

def Language.rules? : Language → Option RuleSet
  | .python => some Python.rules
  | .javascript => some (JavaScript.rules .javascript)
  | .typescript => some (JavaScript.rules .typescript)
  | .rust => some Rust.rules
  | .java => some Java.rules
  | .c => some (CFamily.rules .c)
  | .cpp => some (CFamily.rules .cpp)
  | .csharp => some CSharp.rules
  | .other _ | .unknown => none

/-- The outline of a source text.  A language without rules gets a count of lines, and
matching that takes too long becomes a single line that says so. -/
def outlineOf (context : RuleContext) (language : Language) (source : Text) : List String :=
  match language.rules? with
  | none => lineSummary source language.tag
  | some rules =>
      match rules.outline context source with
      | .ok lines => lines
      | .error timeout => ["Error parsing file: " ++ timeout.message]

/-- The symbols and relations of a source text; none for a language without rules. -/
def analysisOf (context : RuleContext) (language : Language) (source : Text) :
    Except Timeout Analysis :=
  match language.rules? with
  | none => .ok {}
  | some rules => rules.relations context source

end SourceAtlas
