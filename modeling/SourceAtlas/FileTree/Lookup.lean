import SourceAtlas.FileTree
import SourceAtlas.Path

/-!
# Looking up paths

A file system is a tree with a current directory.  A path is walked piece by piece from
the root or the current directory, through symbolic links.  A walk follows at most forty
links, and it fails where a piece is missing or would have to be looked up in something
that is no directory or must not be entered.
-/

namespace SourceAtlas

/-- Why a path cannot be used. -/
inductive PathError where
  | notFound
  | permissionDenied
  | notDirectory
  | isDirectory
  | tooManyLinks
  deriving DecidableEq, Repr, Inhabited

def PathError.message : PathError → String
  | notFound => "No such file or directory (os error 2)"
  | permissionDenied => "Permission denied (os error 13)"
  | notDirectory => "Not a directory (os error 20)"
  | isDirectory => "Is a directory (os error 21)"
  | tooManyLinks => "Too many levels of symbolic links (os error 40)"

/-- A tree of files with a current directory. -/
structure FileSystem where
  root : FileTree := .empty
  /-- The names that lead from the root to the current directory. -/
  current : List Bytes := []
  deriving Inhabited

/-- A place that a path leads to. -/
structure Located where
  /-- The names that lead there from the root, free of links. -/
  location : List Bytes
  /-- What stands there. -/
  tree : FileTree
  deriving Inhabited

namespace FileSystem

/-- How many links a walk follows. -/
def maxLinks : Nat := 40

/-- What remains of a walk: the directory reached, given by names from the root, and the
pieces still to walk. -/
abbrev Walk := List Bytes → List Bytes → Except PathError Located

/-- Walks along pieces until a link has to be followed, which is left to `follow`.  A link
at the very end is followed only if `followLast` says so. -/
def walkPieces (root : FileTree) (followLast : Bool) (follow : Walk) : Walk
  | location, [] =>
      match root.at? location with
      | some tree => .ok ⟨location, tree⟩
      | none => .error .notFound
  | location, piece :: others =>
      match root.at? location with
      | some (.directory entries access) =>
          if piece = [] then walkPieces root followLast follow location others
          else if !access.enter then .error .permissionDenied
          else if piece = [Path.dot] then walkPieces root followLast follow location others
          else if piece = [Path.dot, Path.dot] then
            walkPieces root followLast follow location.dropLast others
          else
            match entries.lookup piece with
            | none => .error .notFound
            | some (.link target) =>
                if others.isEmpty && !followLast then
                  .ok ⟨location ++ [piece], .link target⟩
                else
                  let start := if Path.isAbsolute target then [] else location
                  if target = [] then .error .notFound
                  else follow start (Path.pieces target ++ others)
            | some _ => walkPieces root followLast follow (location ++ [piece]) others
      | some _ => .error .notDirectory
      | none => .error .notFound

/-- Walks along pieces and follows up to `links` links. -/
def walk (root : FileTree) (followLast : Bool) : (links : Nat) → Walk
  | 0 => walkPieces root followLast fun _ _ => .error .tooManyLinks
  | links + 1 => walkPieces root followLast (walk root followLast links)

/-- The place that a path leads to. -/
def locate (system : FileSystem) (followLast : Bool) (path : Bytes) :
    Except PathError Located :=
  let start := if Path.isAbsolute path then [] else system.current
  if path = [] then .error .notFound
  else walk system.root followLast maxLinks start (Path.pieces path)

/-- What a path leads to, links followed. -/
def find (system : FileSystem) (path : Bytes) : Except PathError FileTree :=
  (system.locate true path).map (·.tree)

/-- Whether a path leads to anything. -/
def exists? (system : FileSystem) (path : Bytes) : Bool :=
  (system.find path).isOk

def isDirectory (system : FileSystem) (path : Bytes) : Bool :=
  match system.find path with
  | .ok tree => tree.isDirectory
  | .error _ => false

def read (system : FileSystem) (path : Bytes) : Except PathError ByteArray :=
  match system.find path with
  | .ok (.file content access) => if access.read then .ok content else .error .permissionDenied
  | .ok (.directory _ access) => .error (if access.read then .isDirectory else .permissionDenied)
  | .ok (.link _) => .error .notFound
  | .error cause => .error cause

/-- The path from the root to a place. -/
def absolutePath (location : List Bytes) : Bytes :=
  Path.slash :: [Path.slash].intercalate location

/-- The name of what a path leads to once links and dots are resolved; for a path that
leads nowhere, its own last component. -/
def resolvedName (system : FileSystem) (path : Bytes) : Bytes :=
  let resolved :=
    match system.locate true path with
    | .ok found => absolutePath found.location
    | .error _ => path
  (Path.fileName? resolved).getD resolved

/-- The name of what a path leads to, as it is shown. -/
def displayName (system : FileSystem) (path : Bytes) : String :=
  (system.resolvedName path).shown

end FileSystem
end SourceAtlas
