import SourceAtlas.CommandLine

/-!
# The program

The program loads the files that a command line is about, runs the command line on them,
and writes the diagram to its file.  What may not be read is loaded as such.
-/

namespace SourceAtlas
namespace Main

def unreadableFile (size : UInt64) : FileTree :=
  .file ⟨Array.replicate size.toNat 0⟩ { read := false }

/-- The tree at a path.  Links lead to what they resolve to. -/
partial def loadTree (path : String) : IO FileTree := do
  let place := (← IO.currentDir) / path
  let known ← place.symlinkMetadata
  match known.type with
  | .dir =>
      let listed ← try pure (some (← place.readDir)) catch _ => pure none
      match listed with
      | none => return .directory [] { read := false }
      | some found =>
          let entries ← found.toList.mapM fun entry => do
            let below ←
              try pure (some (← loadTree (path ++ "/" ++ entry.fileName))) catch _ => pure none
            return (Bytes.ofString entry.fileName, below)
          -- Entries that cannot be looked at are in a directory that cannot be entered.
          return .directory (entries.map fun (name, below) => (name, below.getD (unreadableFile 0)))
            { enter := entries.all (·.2.isSome) }
  | .symlink =>
      try return .link (← IO.FS.realPath place).toString
      catch _ => return .link []
  | _ =>
      try return .file (← IO.FS.readBinFile place)
      catch _ => return unreadableFile known.byteSize

/-- Puts what a path leads to into the file system, with the directories on the way. -/
def addTree (system : FileSystem) (path : String) (tree : FileTree) : FileSystem :=
  let prepared := system.addParents path
  { prepared with root := prepared.root.set (FileSystem.namedPieces path) tree }

/-- Loads the directories, links and the last entry along the pieces of a path that begins
in the directory `directory`.  A directory at the end is loaded with all it holds if
`whole` says so. -/
partial def loadAlong (whole : Bool) (system : FileSystem) (directory : String) :
    List String → IO FileSystem
  | [] => do
      if whole then return addTree system directory (← loadTree directory) else return system
  | piece :: others => do
      if piece.isEmpty || piece == "." then loadAlong whole system directory others
      else if piece == ".." then
        let names := FileSystem.namedPieces directory
        loadAlong whole system (FileSystem.absolutePath names.dropLast).shown others
      else
        let path := (Path.join directory piece).shown
        let place := (← IO.currentDir) / path
        try
          match (← place.symlinkMetadata).type with
          | .dir => loadAlong whole (system.addDirectory path) path others
          | .symlink =>
              let target := (← IO.FS.realPath place).toString
              loadAlong whole (system.addLink path target) "/" (target.splitOn "/" ++ others)
          | _ => return addTree system path (← loadTree path)
        catch _ => return system

def loadPath (whole : Bool) (system : FileSystem) (path : Bytes) : IO FileSystem := do
  let start := if Path.isAbsolute path then Bytes.ofString "/"
    else FileSystem.absolutePath system.current
  loadAlong whole system start.shown ((Path.pieces path).map Bytes.shown)

/-- Loads the files that a request is about, seen from the current directory. -/
def load (request : CommandLine.Request) : IO FileSystem := do
  let here := (← IO.currentDir).toString
  let system : FileSystem := { current := FileSystem.namedPieces here }
  let system ← loadPath false (system.addDirectory here) request.output
  loadPath true system request.path

def save (request : CommandLine.Request) (system : FileSystem) : IO Unit := do
  match system.find request.output with
  | .ok (.file content _) => IO.FS.writeBinFile request.output.shown content
  | _ => return

/-- Runs a command line and gives the exit code. -/
def run (arguments : List String) : IO UInt32 := do
  let setting? := (← IO.getEnv CommandLine.budgetVariable).map Bytes.ofString
  let arguments := arguments.map Bytes.ofString
  let request? :=
    match CommandLine.parse? setting? arguments with
    | some (.make request) => some request
    | _ => none
  let system ←
    match request? with
    | some request => load request
    | none => pure {}
  let mut outcome := CommandLine.run setting? arguments system
  if let some request := request? then
    if outcome.code = 0 then
      try save request outcome.system
      catch _ =>
        outcome := CommandLine.failed (.unwritable request.output .permissionDenied) system
  IO.print outcome.printed
  return outcome.code.toUInt32

end Main
end SourceAtlas

/-- The program. -/
def main (arguments : List String) : IO UInt32 :=
  SourceAtlas.Main.run arguments
