import SourceAtlas.Dependencies
import SourceAtlas.Text.Words

/-!
# Lists of required packages
-/

namespace SourceAtlas
namespace Manifest

/-- Every line is a requirement, apart from empty lines and comments. -/
def requirements (text : Text) : Dependencies where
  imports := NameSet.ofList
    (((Text.lines text).map Text.trim).filterMap fun line =>
      if line.isEmpty || line.head? == some '#' then none
      else some ("Requirement:" ++ String.ofList line))

end Manifest
end SourceAtlas
