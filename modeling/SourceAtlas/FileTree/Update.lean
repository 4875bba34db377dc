import SourceAtlas.FileTree.Lookup

/-!
# Changing a file system

Writing a file puts its content where a path leads to and leaves everything else as it
is.  The directory has to be there; the file itself may be new.
-/

namespace SourceAtlas
namespace FileSystem

/-- What remains of the way to a file that is written: the directory reached, given by names
from the root, and the pieces still to go. -/
abbrev Placement := List Bytes → List Bytes → Except PathError (List Bytes)

/-- Goes along pieces to the place of a file until a link has to be followed, which is left
to `follow`.  Only the file itself may be missing.  A path that ends in a slash or in dots
names a directory and no file. -/
def placePieces (root : FileTree) (follow : Placement) : Placement
  | _, [] => .error .isDirectory
  | location, piece :: others =>
      match root.at? location with
      | some (.directory entries access) =>
          if piece = [] then placePieces root follow location others
          else if !access.enter then .error .permissionDenied
          else if piece = [Path.dot] then placePieces root follow location others
          else if piece = [Path.dot, Path.dot] then
            placePieces root follow location.dropLast others
          else if !others.isEmpty && others.all (·.isEmpty) then .error .isDirectory
          else
            match entries.lookup piece with
            | none =>
                if !others.isEmpty then .error .notFound
                else if !access.write then .error .permissionDenied
                else .ok (location ++ [piece])
            | some (.file _ held) =>
                if !others.isEmpty then .error .notDirectory
                else if !held.write then .error .permissionDenied
                else .ok (location ++ [piece])
            | some (.link target) =>
                let start := if Path.isAbsolute target then [] else location
                if target = [] then .error .notFound
                else follow start (Path.pieces target ++ others)
            | some (.directory _ _) => placePieces root follow (location ++ [piece]) others
      | some _ => .error .notDirectory
      | none => .error .notFound

/-- Goes along pieces to the place of a file and follows up to `links` links. -/
def place (root : FileTree) : (links : Nat) → Placement
  | 0 => placePieces root fun _ _ => .error .tooManyLinks
  | links + 1 => placePieces root (place root links)

/-- Where the walk along a path begins. -/
def startOf (system : FileSystem) (path : Bytes) : List Bytes :=
  if Path.isAbsolute path then [] else system.current

/-- The place at which a file written to a path is put. -/
def target (system : FileSystem) (path : Bytes) : Except PathError (List Bytes) :=
  if path = [] then .error .notFound
  else place system.root maxLinks (system.startOf path) (Path.pieces path)

def rewrite (system : FileSystem) (location : List Bytes) (content : ByteArray) : FileSystem :=
  { system with
    root := system.root.set location (.rewritten content (system.root.at? location)) }

/-- Writes the content of a file, creating it if it is not there. -/
def write (system : FileSystem) (path : Bytes) (content : ByteArray) :
    Except PathError FileSystem :=
  (system.target path).map fun location => system.rewrite location content

/-- Creates the directories along some pieces that are not there; the pieces `passed` lead
to a directory. -/
def makeDirectories (start : List Bytes) :
    (system : FileSystem) → (passed pieces : List Bytes) → FileSystem
  | system, _, [] => system
  | system, passed, piece :: others =>
      let reached := passed ++ [piece]
      let made :=
        match walk system.root true maxLinks start reached with
        | .ok _ => system
        | .error _ =>
            match walk system.root true maxLinks start passed with
            | .ok parent =>
                { system with root := system.root.set (parent.location ++ [piece]) .empty }
            | .error _ => system
      makeDirectories start made reached others

def namedPieces (path : Bytes) : List Bytes :=
  (Path.pieces path).filter fun piece => !piece.isEmpty && piece != [Path.dot]

/-- Creates a directory at a path, and all directories on the way. -/
def addDirectory (system : FileSystem) (path : Bytes) : FileSystem :=
  makeDirectories (system.startOf path) system [] (namedPieces path)

/-- Creates the directories on the way to a path. -/
def addParents (system : FileSystem) (path : Bytes) : FileSystem :=
  makeDirectories (system.startOf path) system [] (namedPieces path).dropLast

/-- Writes a file at a path, and creates the directories on the way. -/
def addFile (system : FileSystem) (path : Bytes) (content : ByteArray) : FileSystem :=
  let prepared := system.addParents path
  match prepared.write path content with
  | .ok written => written
  | .error _ => prepared

/-- Creates a link at a path, and the directories on the way. -/
def addLink (system : FileSystem) (path target : Bytes) : FileSystem :=
  let prepared := system.addParents path
  let pieces := namedPieces path
  match walk prepared.root true maxLinks (system.startOf path) pieces.dropLast with
  | .ok parent =>
      let name := pieces.getLast?.getD []
      { prepared with root := prepared.root.set (parent.location ++ [name]) (.link target) }
  | .error _ => prepared

def emptyAt (name : Bytes) : FileSystem :=
  { root := .directory [(name, .empty)], current := [name] }

end FileSystem
end SourceAtlas
