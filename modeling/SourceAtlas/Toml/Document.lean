import SourceAtlas.Toml.Scalar

/-!
# TOML documents

A document is a sequence of lines.  A line is empty, or a header that opens a table, or
gives a value to a key of the open table; a comment may stand behind each.
-/

namespace SourceAtlas
namespace Toml

def skipComment : Text → Text
  | '#' :: rest => rest.dropWhile isPrintable
  | text => text

/-- The rest of a text behind the end of a line: blanks, a comment, and a line break or the
end of the text. -/
def lineEnd? (text : Text) : Option Text :=
  match skipComment (skipSpace text) with
  | [] => some []
  | rest => newline? rest

/-- A text without the blanks, line breaks and comments at its beginning. -/
def skipFiller (inComment : Bool) : Text → Text
  | [] => []
  | '\r' :: '\n' :: rest => skipFiller false rest
  | c :: rest =>
      if c == '\n' then skipFiller false rest
      else if isSpace c || (inComment && isPrintable c) then skipFiller inComment rest
      else if c == '#' then skipFiller true rest
      else c :: rest

/-- Adds a node under a key, which has at least one part. -/
def Entries.addKey? (key : List String) (node : Node) (entries : Entries) : Option Entries :=
  key.getLast?.bind fun last => Entries.addDotted? last node key.dropLast entries

mutual

/-- The value at the beginning of a text, with at most `depth` containers inside each
other; `fuel` bounds the number of steps. -/
def readValue : (fuel depth : Nat) → Text → Option (Node × Text)
  | 0, _, _ => none
  | fuel + 1, depth, text =>
      match text with
      | [] => none
      | first :: rest =>
          if first = '"' || first = '\'' then
            (readString text).map fun (found, rest) => (.string (String.ofList found), rest)
          else if first = '[' then
            if depth = 0 then none
            else (readItems fuel (depth - 1) [] rest).map fun (items, rest) =>
              (.array items, rest)
          else if first = '\x7b' then
            if depth = 0 then none
            else
              match skipSpace rest with
              | '\x7d' :: rest => some (.table .inline [], rest)
              | _ => (readPairs fuel (depth - 1) [] rest).map fun (entries, rest) =>
                  (.table .inline entries, rest)
          else readScalar text

/-- The items of an array up to its closing bracket, those read so far in reverse. -/
def readItems : (fuel depth : Nat) → (items : List Node) → Text → Option (List Node × Text)
  | 0, _, _, _ => none
  | fuel + 1, depth, items, text =>
      match skipFiller false text with
      | ']' :: rest => some (items.reverse, rest)
      | found =>
          match readValue fuel depth found with
          | none => none
          | some (item, rest) =>
              match skipFiller false rest with
              | ',' :: rest => readItems fuel depth (item :: items) rest
              | ']' :: rest => some ((item :: items).reverse, rest)
              | _ => none

/-- The pairs of a table in braces up to its closing brace, added to those in
`entries`. -/
def readPairs : (fuel depth : Nat) → (entries : Entries) → Text → Option (Entries × Text)
  | 0, _, _, _ => none
  | fuel + 1, depth, entries, text =>
      match readKey maxNesting text with
      | some (key, '=' :: rest) =>
          match readValue fuel depth (skipSpace rest) with
          | none => none
          | some (node, rest) =>
              match entries.addKey? key node with
              | none => none
              | some entries =>
                  match skipSpace rest with
                  | ',' :: rest => readPairs fuel depth entries rest
                  | '\x7d' :: rest => some (entries, rest)
                  | _ => none
      | _ => none

end

/-- A document read so far: its entries, and the path of the open table. -/
structure Document where
  /-- The entries outside of all headers. -/
  root : Entries
  /-- The path of the table that keys are added to. -/
  openPath : List String
  deriving Inhabited

namespace Document

/-- A header line, whose key is followed by `closing`; `opening?` opens its table. -/
def readHeader (document : Document) (closing : String)
    (opening? : String → Entries → Option Entries) (text : Text) :
    Option (Document × Text) := do
  let (path, rest) ← readKey maxNesting text
  let rest ← skipWord? closing rest
  let rest ← lineEnd? rest
  let last ← path.getLast?
  let root ← Entries.modifyAt? (opening? last) path.dropLast document.root
  return (⟨root, path⟩, rest)

/-- A line that gives a value to a key. -/
def readPair (document : Document) (text : Text) : Option (Document × Text) := do
  let (key, rest) ← readKey maxNesting text
  let rest ← skipWord? "=" rest
  let (node, rest) ← readValue (2 * rest.length + 2) maxNesting (skipSpace rest)
  let rest ← lineEnd? rest
  let root ← Entries.modifyAt? (Entries.addKey? key node) document.openPath document.root
  return ({ document with root := root }, rest)

def readLine (document : Document) (text : Text) : Option (Document × Text) :=
  match skipSpace text with
  | '[' :: '[' :: rest => document.readHeader "]]" Entries.openElement? rest
  | '[' :: rest => document.readHeader "]" Entries.openTable? rest
  | found =>
      match lineEnd? found with
      | some rest => some (document, rest)
      | none => document.readPair found

/-- All lines of a text; every line takes up at least one character. -/
def readLines : (fuel : Nat) → Document → Text → Option Document
  | _, document, [] => some document
  | 0, _, _ => none
  | fuel + 1, document, text =>
      match document.readLine text with
      | none => none
      | some (document, rest) => readLines fuel document rest

end Document

/-- The entries of the document in a text, which may begin with a byte order mark. -/
def parse? (text : Text) : Option Entries :=
  let content :=
    match text with
    | '\ufeff' :: rest => rest
    | _ => text
  (Document.readLines content.length ⟨[], []⟩ content).map (·.root)

end Toml
end SourceAtlas
