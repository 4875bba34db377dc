import SourceAtlas.Proofs.RuleTimeouts
import SourceAtlas.Proofs.ScannedFiles
import SourceAtlas.Survey

/-!
# Surveys whose budget has run out

A survey gives every file a budget of its own, and a file that spends it contributes a line
that says so, or nothing.  Other files are not affected: those without rules, which are only
counted, and the manifests, which are read without patterns of a language.
-/

namespace SourceAtlas

theorem Language.isSome_rules? (language : Language) :
    language.rules?.isSome = language.hasRules := by
  cases language <;> rfl

namespace Manifest

/-- A manifest is known by its name or by its extension. -/
theorem listed_of_isManifest {path : Bytes} {name : String}
    (named : (Path.fileName? path).bind Bytes.text? = some name)
    (manifest : isManifest path = true) :
    name ∈ fileNames ∨ ∃ extension : String,
      Path.nameExtension? name = some (Bytes.ofString extension) ∧
        lowerAscii extension ∈ extensions := by
  obtain ⟨file, found, spelled⟩ := Option.bind_eq_some_iff.mp named
  rw [Bytes.text?_eq_some_iff] at spelled
  rw [isManifest, Bool.or_eq_true, List.contains_iff_mem, List.contains_iff_mem, Path.fileText,
    named, Path.lowerExtension, found, spelled, Option.bind_some] at manifest
  refine manifest.imp_right fun listed => ?_
  cases extended : (Path.nameExtension? name).bind Bytes.text? with
  | none =>
      rw [extended] at listed
      exact absurd listed (by decide +kernel)
  | some extension =>
      obtain ⟨bytes, bytesFound, encoded⟩ := Option.bind_eq_some_iff.mp extended
      rw [extended] at listed
      rw [Bytes.text?_eq_some_iff] at encoded
      exact ⟨extension, encoded ▸ bytesFound, listed⟩

theorem behindLastDot_of_nameExtension? {name extension : String}
    (extended : Path.nameExtension? name = some (Bytes.ofString extension)) :
    Language.behindLastDot name = extension := by
  have split := Text.splitAtLast?_encoding (c := '.') (by decide) name.toList
  change Text.splitAtLast? [Path.dot] (Bytes.ofString name) = _ at split
  rw [Path.nameExtension?, split] at extended
  rw [Language.behindLastDot]
  cases divided : Text.splitAtLast? ['.'] name.toList with
  | none => simp [divided] at extended
  | some parts =>
      rw [divided, Option.map_some] at extended
      split at extended
      next first stem behind same =>
        have spelled : Text.encoding parts.2 = Text.encoding extension.toList := by
          rw [(Prod.mk.inj (Option.some.inj same)).2]
          exact Option.some.inj extended
        change String.ofList parts.2 = extension
        rw [Text.encoding_injective spelled, String.ofList_toList]
      next => cases extended

/-- No manifest is a source file of a language with rules. -/
theorem hasRules_of_isManifest {path : Bytes} (manifest : isManifest path = true) :
    (Language.classifyPath path).hasRules = false := by
  have byName : ∀ entry ∈ Language.fileNames,
      (Language.ofKnownTag entry.2).hasRules = false := by
    decide +kernel
  have byManifestName : ∀ name ∈ fileNames, (Language.classify name).hasRules = false := by
    decide +kernel
  have byExtension : ∀ extension ∈ extensions, ∀ entry ∈ Language.extensions,
      entry.1 = extension → (Language.ofKnownTag entry.2).hasRules = false := by
    decide +kernel
  unfold Language.classifyPath
  split
  next name named =>
    rcases listed_of_isManifest named manifest with listed | ⟨extension, extended, listed⟩
    · exact byManifestName name listed
    · simp only [Language.classify, behindLastDot_of_nameExtension? extended]
      split
      next tag found =>
        exact byName (name, tag) (mem_of_lookup found)
      next =>
        split
        next tag found =>
          exact byExtension _ listed _ (mem_of_lookup found) rfl
        next => rfl
  next => rfl

end Manifest

namespace FileSystem

variable {system : FileSystem} {settings : Settings} {path : Bytes}

theorem language_of_mem_scan {limits : ScanLimits} {mode : ScanMode} {file : ScannedFile}
    (member : file ∈ system.scan limits mode path) :
    file.language = Language.classifyPath file.path := by
  have scanned (trails : List (List Bytes)) (member : file ∈ trails.map (scannedFile path)) :
      file.language = Language.classifyPath file.path := by
    obtain ⟨trail, -, rfl⟩ := List.mem_map.mp member
    rfl
  unfold scan at member
  split at member
  · simp at member
  · split at member
    · split at member
      · exact scanned [[]] member
      · simp at member
    · exact scanned _ member
    · split at member
      · exact scanned _ member
      · simp at member

theorem language_of_collect {limits : ScanLimits} {mode : ScanMode} {isDirectory : Bool}
    {files : List ScannedFile} {file : ScannedFile}
    (collected : system.collect limits mode path = .ok (isDirectory, files))
    (member : file ∈ files) :
    file.language = Language.classifyPath file.path := by
  unfold collect at collected
  split at collected
  · cases collected
  · split at collected
    · cases collected
      exact language_of_mem_scan member
    · cases collected
      rw [List.mem_singleton.mp member]
      rfl

/-- The outline of a file whose budget is spent. -/
def spentOutline (system : FileSystem) (budget : Nat) (language : Language) (path : Bytes) :
    List String :=
  match system.readText path with
  | .ok source =>
      if language.hasRules then ["Error parsing file: " ++ Timeout.message ⟨budget⟩]
      else lineSummary source language.tag
  | .error failure => ["Error parsing file: " ++ failure.message]

/-- The report on a file whose budget is spent. -/
def spentReport (system : FileSystem) (caps : DisplayCaps) (withAnalysis : Bool)
    (file : ScannedFile) : FileReport :=
  if Manifest.isManifest file.path then system.fileReport ⟨.unbounded, caps⟩ withAnalysis file
  else ⟨file.relative, file.language, {}, if withAnalysis then some {} else none⟩

section Spent

variable (spent : settings.context.deadline.expired = true)

include spent

theorem fails_of_spent {α : Type} {read : RuleContext → Text → Except Timeout α} {source : Text}
    (reads : AllOrNothing fun deadline => read ⟨deadline, settings.caps⟩ source) :
    read settings.context source = .error ⟨settings.budget⟩ := by
  have ranOut : settings.budget ≤ 0 := by
    simpa [Settings.context, Deadline.expired] using spent
  exact reads.1 settings.budget 0 ranOut

theorem fileOutline_of_spent (language : Language) (path : Bytes) :
    system.fileOutline settings.context language path =
      system.spentOutline settings.budget language path := by
  unfold fileOutline spentOutline
  cases system.readText path with
  | error failure => rfl
  | ok source =>
      rw [← Language.isSome_rules?]
      simp only [outlineOf]
      cases ruled : language.rules? with
      | none => rfl
      | some rules =>
          have failed := fails_of_spent spent
            ((Language.rules_allOrNothing ruled).outline settings.caps source)
          simp only [failed, Option.isSome_some, if_true]

theorem fileDependencies_of_spent (language : Language) {path : Bytes}
    (plain : Manifest.isManifest path = false) :
    system.fileDependencies settings.context language path = {} := by
  simp only [fileDependencies, plain, Bool.false_eq_true, if_false]
  split
  next rules source ruled _ =>
    have failed := fails_of_spent spent
      ((Language.rules_allOrNothing ruled).dependencies settings.caps source)
    rw [failed]
  next => rfl

theorem fileAnalysis_of_spent (language : Language) (path : Bytes) :
    system.fileAnalysis settings.context language path = {} := by
  unfold fileAnalysis
  split
  next source _ =>
    unfold analysisOf
    cases ruled : language.rules? with
    | none => rfl
    | some rules =>
        have failed := fails_of_spent spent
          ((Language.rules_allOrNothing ruled).relations settings.caps source)
        simp only [failed]
  next => rfl

theorem fileReport_of_spent (withAnalysis : Bool) {file : ScannedFile}
    (told : file.language = Language.classifyPath file.path) :
    system.fileReport settings.context withAnalysis file =
      system.spentReport settings.caps withAnalysis file := by
  cases manifest : Manifest.isManifest file.path with
  | true =>
      -- The analysis too: it comes from the rules of the language, and a manifest has none.
      have noRules : file.language.rules? = none := by
        rw [← Option.not_isSome_iff_eq_none, Language.isSome_rules?, told,
          Manifest.hasRules_of_isManifest manifest]
        exact Bool.false_ne_true
      simp only [spentReport, fileReport, fileDependencies, manifest, if_true, fileAnalysis,
        analysisOf, noRules]
  | false =>
      simp only [spentReport, fileReport, fileDependencies_of_spent spent _ manifest, manifest,
        fileAnalysis_of_spent spent, Bool.false_eq_true, if_false]

end Spent

end FileSystem

/-- Timeouts are all or nothing and stay within one file.  A rule set fails on every text once
its budget is spent and on no text before that.  A survey gets over it: the outline of a file
with rules is one line, its names and relations are empty, and the files without rules and the
manifests contribute what they always do.  Resolution fails exactly if it has a symbol to
report. -/
theorem timeouts_stay_within_files :
    (∀ language rules, Language.rules? language = some rules → rules.AllOrNothing) ∧
    (∀ (system : FileSystem) (settings : Settings) (path : Bytes) isDirectory files,
      settings.context.deadline.expired = true →
      system.collect settings.limits .code path = .ok (isDirectory, files) →
      ∀ chosen : Option Language, system.surveyOutlines settings chosen path = .ok
        ⟨system.displayName path, isDirectory, files.map fun file =>
          ⟨file.relative, chosen.getD file.language,
            system.spentOutline settings.budget (chosen.getD file.language) file.path⟩⟩) ∧
    (∀ (system : FileSystem) (settings : Settings) (path : Bytes) isDirectory files,
      settings.context.deadline.expired = true →
      system.collect settings.limits .relation path = .ok (isDirectory, files) →
      ∀ depth, system.surveyRelations settings depth path = .ok
        ⟨isDirectory, files.map
          (system.spentReport settings.caps (!isDirectory || decide (3 ≤ depth)))⟩) ∧
    ∀ (declarations : List Declaration) (source : Text) milliseconds elapsed,
      milliseconds ≤ elapsed → ∃ analysis,
        resolve declarations source .unbounded = .ok analysis ∧
        resolve declarations source (.after milliseconds elapsed) =
          if analysis.table.isEmpty then .ok {} else .error ⟨milliseconds⟩ := by
  refine ⟨fun _ _ => Language.rules_allOrNothing, ?_, ?_, ?_⟩
  · intro system settings path isDirectory files spent collected chosen
    simp only [FileSystem.surveyOutlines, collected, FileSystem.fileOutline_of_spent spent]
    rfl
  · intro system settings path isDirectory files spent collected depth
    have reports : files.map
        (system.fileReport settings.context (!isDirectory || decide (3 ≤ depth))) =
          files.map (system.spentReport settings.caps (!isDirectory || decide (3 ≤ depth))) :=
      List.map_congr_left fun file member => FileSystem.fileReport_of_spent spent _
        (FileSystem.language_of_collect collected member)
    rw [FileSystem.surveyRelations, collected, ← reports]
    rfl
  · intro declarations source milliseconds elapsed spent
    exact ⟨_, resolve_of_lasting declarations source rfl,
      resolve_of_spent declarations source spent⟩

/-- A source file with rules, one without, and a manifest. -/
def threeFiles : List (Bytes × FileTree) :=
  [("a.py", .file "def f(): pass\n".toUTF8), ("b.go", .file "package b\n".toUTF8),
    ("requirements.txt", .file "flask\n".toUTF8)]

def threeFileSystem : FileSystem :=
  { root := .directory [("project", .directory threeFiles)] }

def noTime : Settings :=
  { budget := 0 }

theorem threeFileSystem_scan (mode : ScanMode) :
    threeFileSystem.scan noTime.limits mode "project" =
      ((FileTree.directory threeFiles).scan noTime.limits mode []).map
        (FileSystem.scannedFile "project") := by
  have leads : threeFileSystem.find "project" = .ok (.directory threeFiles) := rfl
  have sorted : (FileTree.directory threeFiles).sorted = .directory threeFiles :=
    FileTree.sorted_of_ascending (by decide +kernel) {}
  rw [FileSystem.scan_of_find leads, sorted]

theorem threeFileSystem_collect_code :
    threeFileSystem.collect noTime.limits .code "project" =
      .ok (true, [⟨"project/a.py", "a.py", .python⟩, ⟨"project/b.go", "b.go", .other "go"⟩]) := by
  have files := threeFileSystem_scan .code
  rw [FileSystem.collect, files]
  decide +kernel

theorem threeFileSystem_collect_relation :
    threeFileSystem.collect noTime.limits .relation "project" =
      .ok (true, [⟨"project/a.py", "a.py", .python⟩, ⟨"project/b.go", "b.go", .other "go"⟩,
        ⟨"project/requirements.txt", "requirements.txt", .other "pip"⟩]) := by
  have files := threeFileSystem_scan .relation
  rw [FileSystem.collect, files]
  decide +kernel

theorem timeouts_threeFiles :
    (CFamily.rules .c).outline ⟨.after 5 7, {}⟩ [] = .error ⟨5⟩ ∧
      noTime.context.deadline.expired = true ∧
      threeFileSystem.surveyOutlines noTime none "project" = .ok ⟨"project", true,
        [⟨"a.py", .python, ["Error parsing file: pattern matching exceeded its 0ms budget"]⟩,
          ⟨"b.go", .other "go", ["", "Language 'go' parsing not fully implemented.",
            "Showing basic file information:", "  └── Lines of code: 2",
            "  └── Non-empty, non-comment lines: 1"]⟩]⟩ ∧
      threeFileSystem.surveyRelations noTime 3 "project" = .ok ⟨true,
        [⟨"a.py", .python, {}, some {}⟩, ⟨"b.go", .other "go", {}, some {}⟩,
          ⟨"requirements.txt", .other "pip", { imports := .ofList ["Requirement:flask"] },
            some {}⟩]⟩ ∧
      resolve [.function "f" 0 none] [] (.after 5 7) = .error ⟨5⟩ := by
  obtain ⟨ruleSets, outlines, relations, resolution⟩ := timeouts_stay_within_files
  refine ⟨((ruleSets .c _ rfl).outline {} []).1 5 7 (by decide), rfl, ?_, ?_, ?_⟩
  · rw [outlines threeFileSystem noTime "project" _ _ rfl threeFileSystem_collect_code none]
    decide +kernel
  · rw [relations threeFileSystem noTime "project" _ _ rfl threeFileSystem_collect_relation 3]
    decide +kernel
  · obtain ⟨analysis, resolved, fails⟩ := resolution [.function "f" 0 none] [] 5 7 (by decide)
    have evaluated : resolve [.function "f" 0 none] [] .unbounded =
        .ok ⟨⟨[⟨"f", .function, none⟩]⟩, {}⟩ := by
      decide +kernel
    rw [evaluated, Except.ok.injEq] at resolved
    rw [fails, ← resolved]
    rfl

end SourceAtlas
