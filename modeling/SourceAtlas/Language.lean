import SourceAtlas.Path

/-!
# Languages

The language of a file is told by its name.  Eight languages have rules of their own;
the others are known by their tags only, so that reports can name them.
-/

namespace SourceAtlas

/-- The language that a file is analyzed as. -/
inductive Language where
  | python
  | javascript
  | typescript
  | rust
  | java
  | c
  | cpp
  | csharp
  /-- A language or file format that is recognized but has no rules. -/
  | other (tag : String)
  | unknown
  deriving DecidableEq, Repr, Inhabited

namespace Language

def tag : Language → String
  | python => "python"
  | javascript => "javascript"
  | typescript => "typescript"
  | rust => "rust"
  | java => "java"
  | c => "c"
  | cpp => "cpp"
  | csharp => "csharp"
  | other tag => tag
  | unknown => "unknown"

def hasRules : Language → Bool
  | other _ | unknown => false
  | _ => true

def withRules : List Language :=
  [python, javascript, typescript, rust, java, c, cpp, csharp]

def ofKnownTag (tag : String) : Language :=
  (withRules.find? (·.tag == tag)).getD (other tag)

/-- File names that tell the language whatever their extension is. -/
def fileNames : List (String × String) := [
  ("BUILD", "bazel"), ("WORKSPACE", "bazel"), ("Makefile", "make"),
  ("CMakeLists.txt", "cmake"), ("package.json", "npm"), ("Cargo.toml", "cargo"),
  ("Gemfile", "bundler"), ("Pipfile", "pipenv"), ("pyproject.toml", "python-project"),
  ("requirements.txt", "pip"), ("pom.xml", "maven"), ("build.gradle", "gradle"),
  ("build.sbt", "sbt"), ("mix.exs", "mix"), ("rebar.config", "rebar"),
  ("composer.json", "composer"), ("go.mod", "go-modules"), ("Dockerfile", "docker"),
  ("docker-compose.yml", "docker-compose"), ("docker-compose.yaml", "docker-compose"),
  ("Jenkinsfile", "jenkins"), (".gitlab-ci.yml", "gitlab-ci"),
  (".travis.yml", "travis-ci"), ("appveyor.yml", "appveyor"),
  ("azure-pipelines.yml", "azure-pipelines"), ("cloudbuild.yaml", "cloud-build"),
  ("serverless.yml", "serverless"), ("Chart.yaml", "helm"),
  ("kustomization.yaml", "kustomize"), ("Vagrantfile", "vagrant"),
  ("Brewfile", "homebrew")]

/-- Extensions in lower case, without the dot. -/
def extensions : List (String × String) := [
  ("py", "python"), ("pyi", "python"), ("pyw", "python"), ("js", "javascript"),
  ("jsx", "javascript"), ("mjs", "javascript"), ("cjs", "javascript"),
  ("ts", "typescript"), ("tsx", "typescript"), ("html", "html"), ("css", "css"),
  ("scss", "scss"), ("sass", "sass"), ("less", "less"), ("php", "php"), ("vue", "vue"),
  ("svelte", "svelte"), ("astro", "astro"), ("cshtml", "razor"), ("razor", "razor"),
  ("jsp", "jsp"), ("aspx", "aspx"), ("java", "java"), ("kt", "kotlin"), ("kts", "kotlin"),
  ("swift", "swift"), ("m", "objective-c"), ("dart", "dart"), ("gradle", "gradle"),
  ("plist", "plist"), ("scala", "scala"), ("groovy", "groovy"), ("clj", "clojure"),
  ("cljs", "clojure"), ("cljc", "clojure"), ("c", "c"), ("h", "c"), ("cpp", "cpp"),
  ("cc", "cpp"), ("cxx", "cpp"), ("hpp", "cpp"), ("hh", "cpp"), ("rs", "rust"),
  ("go", "go"), ("zig", "zig"), ("d", "d"), ("nim", "nim"), ("nims", "nim"),
  ("cs", "csharp"), ("fs", "fsharp"), ("fsx", "fsharp"), ("vb", "vb"),
  ("csproj", "csproj"), ("fsproj", "fsproj"), ("vbproj", "vbproj"),
  ("vcxproj", "vcxproj"), ("sln", "sln"), ("xaml", "xaml"), ("cake", "cake"),
  ("props", "msbuild"), ("targets", "msbuild"), ("proj", "msbuild"), ("rb", "ruby"),
  ("erb", "erb"), ("rake", "ruby"), ("pl", "perl"), ("pm", "perl"), ("sh", "shell"),
  ("bash", "shell"), ("zsh", "shell"), ("fish", "fish"), ("ps1", "powershell"),
  ("psm1", "powershell"), ("lua", "lua"), ("tcl", "tcl"), ("hs", "haskell"),
  ("lhs", "haskell"), ("elm", "elm"), ("ml", "ocaml"), ("mli", "ocaml"), ("ex", "elixir"),
  ("exs", "elixir"), ("erl", "erlang"), ("hrl", "erlang"), ("rkt", "racket"),
  ("scm", "scheme"), ("r", "r"), ("rmd", "rmarkdown"), ("jl", "julia"),
  ("ipynb", "jupyter"), ("stan", "stan"), ("json", "json"), ("xml", "xml"),
  ("yaml", "yaml"), ("yml", "yaml"), ("toml", "toml"), ("ini", "ini"), ("conf", "conf"),
  ("properties", "properties"), ("sql", "sql"), ("graphql", "graphql"),
  ("proto", "protobuf"), ("avsc", "avro"), ("thrift", "thrift"), ("md", "markdown"),
  ("rst", "restructuredtext"), ("tex", "latex"), ("adoc", "asciidoc"), ("v", "verilog"),
  ("sv", "systemverilog"), ("vhd", "vhdl"), ("vhdl", "vhdl"), ("f90", "fortran"),
  ("f95", "fortran"), ("s", "assembly"), ("asm", "assembly"), ("pbxproj", "xcode"),
  ("pro", "qmake"), ("pri", "qmake"), ("cmake", "cmake"), ("make", "make"),
  ("mk", "make"), ("bazel", "bazel"), ("bzl", "bazel"), ("tf", "terraform"),
  ("tfvars", "terraform"), ("hcl", "hcl")]

/-- Other names of the languages with rules. -/
def shortTags : List (String × Language) := [
  ("py", python), ("js", javascript), ("ts", typescript), ("rs", rust), ("c++", cpp),
  ("cs", csharp), ("c#", csharp)]

/-- The language that a user means by a tag.  Blanks around it and the case of ASCII
letters do not matter. -/
def ofTag (tag : String) : Language :=
  let plain := lowerAscii (String.ofList (Text.trim tag.toList))
  match shortTags.lookup plain with
  | some language => language
  | none =>
      if (extensions ++ fileNames).any (·.2 == plain) then ofKnownTag plain else unknown

/-- What follows the last dot of a name, or all of it. -/
def behindLastDot (name : String) : String :=
  match Text.splitAtLast? ['.'] name.toList with
  | some (_, behind) => String.ofList behind
  | none => name

/-- The language of a file name or a bare extension.  An exact file name wins over the
extension. -/
def classify (name : String) : Language :=
  match fileNames.lookup name with
  | some tag => ofKnownTag tag
  | none =>
      match extensions.lookup (lowerAscii (behindLastDot name)) with
      | some tag => ofKnownTag tag
      | none => unknown

def classifyPath (path : Bytes) : Language :=
  match (Path.fileName? path).bind Bytes.text? with
  | some name => classify name
  | none => unknown

end Language
end SourceAtlas
