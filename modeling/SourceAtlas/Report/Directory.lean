import SourceAtlas.Failure

/-!
# The directory report

A diagram of a directory with one line per entry.  The entries of a directory stand in
ascending order of their names, and the nesting is shown by the columns in front.  There is
no diagram if a directory whose entries it has to show cannot be listed.
-/

namespace SourceAtlas
namespace DirectoryReport

/-- The mark in front of an entry that others follow. -/
def branch : String := "├── "

/-- The mark in front of the last entry of a directory. -/
def lastBranch : String := "└── "

/-- The column below an entry that others follow. -/
def openColumn : String := "│   "

/-- The column below the last entry of a directory. -/
def closedColumn : String := "    "

mutual

/-- The lines below a tree, behind the columns `stem`; at most `levels` levels are shown
where a limit is given. -/
def treeLines (levels : Option Nat) (stem : String) : FileTree → List String
  | .directory entries _ =>
      if levels = some 0 then [] else entriesLines (levels.map (· - 1)) stem entries
  | .file _ _ => []
  | .link _ => []

/-- The lines for the entries of a directory, each with the lines below it. -/
def entriesLines (levels : Option Nat) (stem : String) : List (Bytes × FileTree) → List String
  | [] => []
  | (name, tree) :: others =>
      let isLast := others.isEmpty
      (stem ++ (if isLast then lastBranch else branch) ++ name.shown) ::
        (treeLines levels (stem ++ if isLast then closedColumn else openColumn) tree ++
          entriesLines levels stem others)

end

def lines (levels : Option Nat) (name : String) (tree : FileTree) : List String :=
  name :: treeLines levels "" tree.sorted

mutual

/-- Whether the directories can be listed whose entries a diagram of a tree shows. -/
def lists (levels : Option Nat) : FileTree → Bool
  | .directory entries access =>
      levels = some 0 ||
        access.read && listsEntries (levels.map (· - 1)) access.enter entries
  | .file _ _ => true
  | .link _ => true

/-- Whether the directories below an entry can be listed, for each of the entries of a
directory.  If this one cannot be entered, none of the directories in it can be listed. -/
def listsEntries (levels : Option Nat) (enter : Bool) : List (Bytes × FileTree) → Bool
  | [] => true
  | (_, tree) :: others =>
      (enter || levels = some 0 || !tree.isDirectory) && lists levels tree &&
        listsEntries levels enter others

end

/-- The diagram of what a path leads to. -/
def render (system : FileSystem) (levels : Option Nat) (path : Bytes) :
    Except Failure String :=
  match system.find path with
  | .error _ => .error (.pathNotFound path)
  | .ok tree =>
      if lists levels tree then
        .ok ("\n".intercalate (lines levels (system.displayName path) tree))
      else .error (.unlistable path .permissionDenied)

end DirectoryReport
end SourceAtlas
