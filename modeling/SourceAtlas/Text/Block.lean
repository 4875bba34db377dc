import SourceAtlas.Text.Words

/-!
# Bodies of declarations

Where the body of a declaration ends, read off the braces or the indentation of the text
behind its header.  A scan for the end of a body goes at most `maxBodyScan` bytes.
-/

namespace SourceAtlas
namespace Text

/-- How many bytes a body scan walks past its start. -/
def maxBodyScan : Nat := 64 * 1024

/-- Scans for the brace that brings the depth back to zero, counting from the offset
`opening` on and stopping at `limit`.  A closing brace at depth zero ends the scan as
well. -/
def closingBrace? (opening limit : Nat) : (depth offset : Nat) → Text → Option Nat
  | _, _, [] => none
  | depth, offset, c :: rest =>
      let next := offset + c.utf8Size
      if limit ≤ offset then none
      else if offset < opening then closingBrace? opening limit depth next rest
      else if c = '\x7b' then closingBrace? opening limit (depth + 1) next rest
      else if c = '\x7d' then
        if depth ≤ 1 then some offset
        else closingBrace? opening limit (depth - 1) next rest
      else closingBrace? opening limit depth next rest

/-- The offset of the brace that closes the one at `opening`. -/
def matchingBrace? (source : Text) (opening : Nat) : Option Nat :=
  closingBrace? opening (opening + maxBodyScan) 0 0 source

/-- The offset of the first opening brace, at most `window` bytes ahead and before any
semicolon. -/
def openingBrace? (window : Nat) : (offset : Nat) → Text → Option Nat
  | _, [] => none
  | offset, c :: rest =>
      if window < offset || c == ';' then none
      else if c == '\x7b' then some offset
      else openingBrace? window (offset + c.utf8Size) rest

/-- The body in braces of a declaration whose header ends at `start`.  A body that is
never closed runs to the bound of the scan. -/
def braceBody? (source : Text) (start window : Nat) : Option Span := do
  let rest ← dropBytes? source start
  let ahead ← openingBrace? window 0 rest
  let opening := start + ahead
  let closing :=
    (matchingBrace? source opening).getD (floorBoundary source (opening + maxBodyScan))
  some ⟨opening + 1, closing⟩

/-- Whether a line without its indentation counts neither for nor against a body: blank
lines and comments. -/
def isInsignificant (line : Text) : Bool :=
  line.isEmpty || line.head? == some '#'

/-- Extends an indented body line by line.  The body so far stops at `stop`, and the
first of the lines to come begins at `start`.  Lines that begin at `limit` or behind it
are not looked at. -/
def indentedStop (limit indent : Nat) : (stop start : Nat) → List Text → Nat
  | stop, _, [] => stop
  | stop, start, line :: others =>
      let trimmed := trimStart line
      let next := start + byteLength line
      if limit ≤ start then stop
      else if isInsignificant trimmed then
        indentedStop limit indent stop (next + 1) others
      else if byteLength line - byteLength trimmed ≤ indent then stop
      else indentedStop limit indent next (next + 1) others

/-- The body of a declaration whose header ends at `headerEnd`, given by indentation: it
goes on as long as the significant lines are indented deeper than `indent` bytes. -/
def indentedBody (source : Text) (headerEnd indent : Nat) : Span :=
  let limit := min (headerEnd + maxBodyScan) (byteLength source)
  match lines ((dropBytes? source headerEnd).getD []) with
  | [] => ⟨headerEnd, headerEnd⟩
  | first :: others =>
      let stop := headerEnd + byteLength first
      ⟨headerEnd, indentedStop limit indent stop (stop + 1) others⟩

end Text
end SourceAtlas
