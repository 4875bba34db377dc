import SourceAtlas.FileTree.Lookup
import SourceAtlas.Language

/-!
# Scanning a directory

A scan walks a directory depth first, the entries of a directory in ascending order of
their names, and collects the files that a report is about.  It enters neither symbolic
links nor excluded directories, and it passes over large files and over what it may not
look at.
-/

namespace SourceAtlas

/-- What a scan leaves out. -/
structure ScanLimits where
  /-- Larger files are passed over. -/
  maxFileSize : Nat := 1024 * 1024
  /-- The names of directories that are not entered. -/
  excludedDirectories : List String :=
    ["node_modules", "venv", ".venv", "env", ".env", ".git", "__pycache__", "dist", "build",
      "target", "bin", "obj"]
  deriving DecidableEq, Repr, Inhabited

/-- Whether directories of a name are not entered. -/
def ScanLimits.excludes (limits : ScanLimits) (name : Bytes) : Bool :=
  name.text?.any limits.excludedDirectories.contains

/-- The two sets of files that reports are about. -/
inductive ScanMode where
  /-- Source files only. -/
  | code
  /-- Source files and the files that describe a project. -/
  | relation
  deriving DecidableEq, Repr, Inhabited

namespace ScanMode

def relationExtensions : List String := [
  "py", "js", "jsx", "ts", "tsx", "html", "css", "scss", "sass", "less", "php", "vue",
  "svelte", "astro",
  "java", "kt", "kts", "swift", "m", "h", "dart", "cs", "fs", "fsx", "vb", "xaml", "cshtml",
  "c", "cpp", "cc", "cxx", "hpp", "rs", "go", "zig", "d", "nim",
  "rb", "erb", "pl", "pm", "sh", "bash", "zsh", "ps1", "lua", "tcl",
  "hs", "elm", "ml", "ex", "exs", "erl", "clj", "cljs",
  "r", "jl", "ipynb",
  "json", "xml", "yaml", "yml", "toml", "ini", "sql", "graphql", "proto"]

/-- The names of project files in a relation report. -/
def projectFileNames : List String := [
  "pom.xml", "build.gradle", "build.sbt", "package.json", "tsconfig.json",
  "webpack.config.js", "rollup.config.js", "next.config.js", "nuxt.config.js",
  "pyproject.toml", "setup.py", "Pipfile", "requirements.txt", "Gemfile", "Rakefile",
  "Cargo.toml", "go.mod", "CMakeLists.txt", "Makefile", ".gitlab-ci.yml", ".travis.yml",
  "appveyor.yml", "azure-pipelines.yml", "Jenkinsfile", "Dockerfile", "docker-compose.yml",
  "docker-compose.yaml", "serverless.yml", "Chart.yaml", "kustomization.yaml"]

/-- The extensions of project files in a relation report. -/
def projectExtensions : List String := [
  "csproj", "fsproj", "vbproj", "sln", "props", "targets", "gradle", "cmake", "make", "mk",
  "tf", "tfvars", "hcl"]

def codeExtensions : List String := [
  "py", "js", "jsx", "mjs", "ts", "tsx", "java", "c", "h", "cpp", "cc", "cxx", "hpp", "rs",
  "cs", "rb", "go"]

/-- Whether a report is about files of a name. -/
def keeps (mode : ScanMode) (path : Bytes) : Bool :=
  let extension := Path.lowerExtension path
  match mode with
  | code => codeExtensions.contains extension
  | relation =>
      relationExtensions.contains extension || projectExtensions.contains extension ||
        projectFileNames.contains (Path.fileText path)

end ScanMode

/-- A file that a scan found. -/
structure ScannedFile where
  path : Bytes
  /-- The path below the directory that was scanned, as it is shown. -/
  relative : String
  language : Language
  deriving DecidableEq, Repr, Inhabited

namespace FileTree

mutual

/-- The relative paths of the files below a tree that a scan collects, each as the list of
its components.  The tree itself is reached along `trail`.  A directory that cannot be listed
shows no files, and one that cannot be entered does not show their sizes. -/
def scan (limits : ScanLimits) (mode : ScanMode) (trail : List Bytes) :
    FileTree → List (List Bytes)
  | file content _ =>
      if content.size ≤ limits.maxFileSize && mode.keeps (trail.getLast?.getD []) then [trail]
      else []
  | link _ => []
  | directory entries access =>
      if access.read && access.enter then scanEntries limits mode trail entries else []

/-- The files below the entries of a directory. -/
def scanEntries (limits : ScanLimits) (mode : ScanMode) (trail : List Bytes) :
    List (Bytes × FileTree) → List (List Bytes)
  | [] => []
  | (name, tree) :: others =>
      (if tree.isDirectory && limits.excludes name then []
        else scan limits mode (trail ++ [name]) tree) ++
        scanEntries limits mode trail others

end

end FileTree

namespace FileSystem

/-- The file found along some components below a directory. -/
def scannedFile (root : Bytes) (trail : List Bytes) : ScannedFile :=
  let path := trail.foldl Path.join root
  ⟨path, "/".intercalate (trail.map Bytes.shown), Language.classifyPath path⟩

/-- The files below a directory that a report is about, in the order of the walk.  A path
that leads to a file gives that file, and one that leads nowhere gives none. -/
def scan (system : FileSystem) (limits : ScanLimits) (mode : ScanMode) (root : Bytes) :
    List ScannedFile :=
  match system.locate false root with
  | .error _ => []
  | .ok found =>
      match found.tree with
      | .file content _ =>
          if content.size ≤ limits.maxFileSize && mode.keeps root then [scannedFile root []]
          else []
      | .directory _ _ =>
          (found.tree.sorted.scan limits mode []).map (scannedFile root)
      | .link _ =>
          match system.find root with
          | .ok (.directory entries access) =>
              ((FileTree.directory entries access).sorted.scan limits mode []).map
                (scannedFile root)
          | _ => []

end FileSystem
end SourceAtlas
