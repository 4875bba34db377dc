import SourceAtlas.Text.Decode

/-!
# Trees of files

A file tree is a file, a symbolic link or a directory of named trees.  Names are bytes.  A
file or directory may refuse to be read, to be written or to be entered.  The entries of a
directory may stand in any order; `FileTree.sorted` puts them in order on every level.
-/

namespace SourceAtlas

/-- What may be done with a file or a directory. -/
structure Access where
  /-- The content of a file may be read, the entries of a directory listed. -/
  read : Bool := true
  /-- The content of a file may be changed, entries added to a directory. -/
  write : Bool := true
  /-- The entries of a directory may be looked up by their names. -/
  enter : Bool := true
  deriving DecidableEq, Repr, Inhabited

/-- Files, symbolic links and directories. -/
inductive FileTree where
  | file (content : ByteArray) (access : Access := {})
  | link (target : Bytes)
  | directory (entries : List (Bytes × FileTree)) (access : Access := {})
  deriving Inhabited

namespace FileTree

/-- The directory without entries. -/
def empty : FileTree := directory []

def isDirectory : FileTree → Bool
  | directory _ _ => true
  | _ => false

/-- The entries of a directory; a file or link has none. -/
def entries : FileTree → List (Bytes × FileTree)
  | directory entries _ => entries
  | _ => []

def child? (tree : FileTree) (name : Bytes) : Option FileTree :=
  tree.entries.lookup name

/-- The tree below a sequence of names. -/
def at? (tree : FileTree) : (location : List Bytes) → Option FileTree
  | [] => some tree
  | name :: others => (tree.child? name).bind (·.at? others)

/-- Puts a tree in the place of the entry of a name, at the end if there is none. -/
def setEntry (name : Bytes) (tree : FileTree) :
    List (Bytes × FileTree) → List (Bytes × FileTree)
  | [] => [(name, tree)]
  | (key, old) :: others =>
      if key = name then (key, tree) :: others else (key, old) :: setEntry name tree others

/-- Puts a tree below a sequence of names, in place of what stands there.  Every name but
the last has to be that of a directory; otherwise nothing changes. -/
def set (tree : FileTree) : (location : List Bytes) → FileTree → FileTree
  | [], replacement => replacement
  | name :: others, replacement =>
      match tree with
      | directory entries access =>
          if others.isEmpty then directory (setEntry name replacement entries) access
          else
            match entries.lookup name with
            | some child =>
                directory (setEntry name (child.set others replacement) entries) access
            | none => tree
      | _ => tree

/-- The file that has some content from now on, in place of what stood there: a file keeps its
access. -/
def rewritten (content : ByteArray) : Option FileTree → FileTree
  | some (file _ access) => file content access
  | _ => file content

mutual

/-- The tree with the entries of every directory in ascending order of their names. -/
def sorted : FileTree → FileTree
  | directory entries access =>
      directory ((sortedEntries entries).mergeSort fun first second => !(second.1 < first.1))
        access
  | file content access => file content access
  | link target => link target

/-- Entries in the given order, each with its tree sorted. -/
def sortedEntries : List (Bytes × FileTree) → List (Bytes × FileTree)
  | [] => []
  | (name, tree) :: others => (name, tree.sorted) :: sortedEntries others

end

end FileTree
end SourceAtlas
