import SourceAtlas.Text.Decode
import SourceAtlas.Text.Words

/-!
# Paths

A path is a sequence of bytes with components separated by slashes.  Empty components and
dots between others say nothing and are skipped.  Names and extensions that are looked for in
tables have to be the encoding of a text.
-/

namespace SourceAtlas

def lowerAscii (text : String) : String :=
  String.ofList (text.toList.map Char.toLower)

/-- A part of a path. -/
inductive PathComponent where
  /-- The root of the file system. -/
  | root
  /-- The current directory, at the beginning of a path. -/
  | current
  /-- The directory above. -/
  | parent
  | entry (name : Bytes)
  deriving DecidableEq, Repr, Inhabited

namespace Path

def slash : UInt8 := 0x2F

def dot : UInt8 := 0x2E

/-- The parts of a path between slashes, the empty ones included. -/
def pieces (path : Bytes) : List Bytes :=
  Text.splitWhere (· == slash) path

/-- The component of a piece between slashes, if it says anything. -/
def componentOf? (piece : Bytes) : Option PathComponent :=
  if piece = [] || piece = [dot] then none
  else if piece = [dot, dot] then some .parent
  else some (.entry piece)

/-- Whether a path starts at the root. -/
def isAbsolute (path : Bytes) : Bool :=
  path.head? == some slash

def components (path : Bytes) : List PathComponent :=
  let start :=
    if isAbsolute path then [PathComponent.root]
    else if (pieces path).head? == some [dot] then [.current]
    else []
  start ++ (pieces path).filterMap componentOf?

/-- The name of the file or directory that a path leads to, if its last component gives
one. -/
def fileName? (path : Bytes) : Option Bytes :=
  match (components path).getLast? with
  | some (.entry name) => some name
  | _ => none

/-- The file name of a path as a text; empty if it has none or encodes none. -/
def fileText (path : Bytes) : String :=
  ((fileName? path).bind Bytes.text?).getD ""

/-- What follows the last dot of a file name, unless the dot is its first character. -/
def nameExtension? (name : Bytes) : Option Bytes :=
  match Text.splitAtLast? [dot] name with
  | some (_ :: _, behind) => some behind
  | _ => none

/-- The extension of a path in lower case; empty if it has none or encodes none. -/
def lowerExtension (path : Bytes) : String :=
  lowerAscii ((((fileName? path).bind nameExtension?).bind Bytes.text?).getD "")

/-- The path of an entry of the directory that a path leads to. -/
def join (directory name : Bytes) : Bytes :=
  if directory.getLast? == some slash || directory == [] then directory ++ name
  else directory ++ slash :: name

end Path
end SourceAtlas
