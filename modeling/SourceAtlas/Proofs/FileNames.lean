import SourceAtlas.Proofs.EncodedTexts
import SourceAtlas.Proofs.WordSplitting
import SourceAtlas.Scan

/-!
# File names and their extensions

An entry of a directory has a name that is not empty, holds no slash and is neither dot nor
double dot.  Such a name is a path of one component, a path of such names can be told from
its bytes, and its extension is what follows its last dot.  With this the filter of a scan is
said without any search in a name.
-/

namespace SourceAtlas

/-- The names that an entry of a directory can have. -/
structure IsEntryName (name : Bytes) : Prop where
  notEmpty : name ≠ []
  notDot : name ≠ [Path.dot]
  notDots : name ≠ [Path.dot, Path.dot]
  noSlash : Path.slash ∉ name

instance (name : Bytes) : Decidable (IsEntryName name) :=
  decidable_of_iff
    (name ≠ [] ∧ name ≠ [Path.dot] ∧ name ≠ [Path.dot, Path.dot] ∧ Path.slash ∉ name)
    ⟨fun ⟨notEmpty, notDot, notDots, noSlash⟩ => ⟨notEmpty, notDot, notDots, noSlash⟩,
      fun named => ⟨named.notEmpty, named.notDot, named.notDots, named.noSlash⟩⟩

/-- The name ends in a dot and an extension, which stand behind at least one byte. -/
def HasExtension (name extension : Bytes) : Prop :=
  ∃ stem : Bytes, stem ≠ [] ∧ name = stem ++ Path.dot :: extension ∧ Path.dot ∉ extension

namespace ScanMode

/-- The extensions, in lower case, of the files that a report is about. -/
def extensions : ScanMode → List String
  | code => codeExtensions
  | relation => relationExtensions ++ projectExtensions

/-- The names of files that a report is about whatever their extension. -/
def fileNames : ScanMode → List String
  | code => []
  | relation => projectFileNames

/-- A report is about a file for its extension in lower case or for its name. -/
def Admits (mode : ScanMode) (name : Bytes) : Prop :=
  (∃ extension : String, HasExtension name extension ∧ lowerAscii extension ∈ mode.extensions) ∨
    ∃ text ∈ mode.fileNames, name = Bytes.ofString text

end ScanMode

namespace Text

section Splitting

variable {α : Type} [BEq α] [LawfulBEq α] {c : α}

theorem splitAtFrom?_of_notMem {text : List α} (absent : c ∉ text) (passed : List α) :
    splitAtFrom? [c] passed text = none := by
  induction text generalizing passed with
  | nil => rfl
  | cons first text ih =>
      obtain ⟨differs, absent⟩ : c ≠ first ∧ c ∉ text := by simpa using absent
      simp [splitAtFrom?, List.isPrefixOf, differs, ih absent]

theorem splitAtFrom?_append {front : List α} (absent : c ∉ front) (passed behind : List α) :
    splitAtFrom? [c] passed (front ++ c :: behind) =
      some (passed.reverse ++ front, behind) := by
  induction front generalizing passed with
  | nil => simp [splitAtFrom?, List.isPrefixOf]
  | cons first front ih =>
      obtain ⟨differs, absent⟩ : c ≠ first ∧ c ∉ front := by simpa using absent
      simp [splitAtFrom?, List.isPrefixOf, differs, ih absent]

theorem splitAtLast?_of_notMem {text : List α} (absent : c ∉ text) :
    splitAtLast? [c] text = none := by
  rw [splitAtLast?, splitAtFirst?, List.reverse_singleton,
    splitAtFrom?_of_notMem (by simpa using absent), Option.map_none]

theorem splitAtLast?_append {behind : List α} (absent : c ∉ behind) (front : List α) :
    splitAtLast? [c] (front ++ c :: behind) = some (front, behind) := by
  have reversed : (front ++ c :: behind).reverse = behind.reverse ++ c :: front.reverse := by
    simp
  rw [splitAtLast?, splitAtFirst?, List.reverse_singleton, reversed,
    splitAtFrom?_append (by simpa using absent)]
  simp

omit [BEq α] [LawfulBEq α] in
theorem exists_lastSplit {text : List α} (present : c ∈ text) :
    ∃ before behind, text = before ++ c :: behind ∧ c ∉ behind := by
  obtain ⟨last, front, reversed, absent⟩ :=
    List.eq_append_cons_of_mem (List.mem_reverse.2 present)
  refine ⟨front.reverse, last.reverse, ?_, by simpa using absent⟩
  rw [← List.reverse_reverse text, reversed]
  simp

/-- The last occurrence of a character divides a text so that it is not in the part behind. -/
theorem splitAtLast?_eq_some_iff {text before behind : List α} :
    splitAtLast? [c] text = some (before, behind) ↔
      text = before ++ c :: behind ∧ c ∉ behind := by
  constructor
  · intro split
    by_cases present : c ∈ text
    · obtain ⟨front, last, rfl, absent⟩ := exists_lastSplit present
      rw [splitAtLast?_append absent, Option.some.injEq, Prod.mk.injEq] at split
      obtain ⟨rfl, rfl⟩ := split
      exact ⟨rfl, absent⟩
    · rw [splitAtLast?_of_notMem present] at split
      cases split
  · rintro ⟨rfl, absent⟩
    exact splitAtLast?_append absent before

end Splitting

/-- In the encoding of a text the last byte of an ASCII character is where that stands last. -/
theorem splitAtLast?_encoding {c : Char} (ascii : c.toNat < 0x80) (text : Text) :
    splitAtLast? [UInt8.ofNat c.toNat] (encoding text) =
      (splitAtLast? [c] text).map fun parts => (encoding parts.1, encoding parts.2) := by
  have absentByte {part : Text} (absent : c ∉ part) : UInt8.ofNat c.toNat ∉ encoding part :=
    fun member => absent (mem_of_mem_encoding ascii member)
  by_cases present : c ∈ text
  · obtain ⟨before, behind, rfl, absent⟩ := exists_lastSplit present
    have whole : encoding (before ++ c :: behind) =
        encoding before ++ UInt8.ofNat c.toNat :: encoding behind := by
      rw [encoding, List.flatMap_append, List.flatMap_cons, utf8EncodeChar_ascii ascii]
      rfl
    rw [whole, splitAtLast?_append (absentByte absent), splitAtLast?_append absent,
      Option.map_some]
  · rw [splitAtLast?_of_notMem (absentByte present), splitAtLast?_of_notMem present,
      Option.map_none]

/-- Texts are told apart when they are joined by a character that occurs in none of them. -/
theorem intercalate_inj_of_notMem {separator : String} {c : Char} (single : separator.toList = [c])
    {first second : List String} (firstFree : ∀ text ∈ first, c ∉ text.toList)
    (secondFree : ∀ text ∈ second, c ∉ text.toList) (firstNotEmpty : first ≠ [])
    (secondNotEmpty : second ≠ [])
    (same : separator.intercalate first = separator.intercalate second) : first = second := by
  have pieces {texts : List String} (free : ∀ text ∈ texts, c ∉ text.toList)
      (notEmpty : texts ≠ []) :
      (separator.intercalate texts).toList.splitOn c = texts.map String.toList := by
    rw [String.toList_intercalate, single]
    refine List.splitOn_intercalate c ?_ (by simpa using notEmpty)
    intro text member
    obtain ⟨name, listed, rfl⟩ := List.mem_map.1 member
    exact free name listed
  have texts : first.map String.toList = second.map String.toList := by
    rw [← pieces firstFree firstNotEmpty, ← pieces secondFree secondNotEmpty, same]
  exact List.map_injective_iff.2 (fun _ _ => String.toList_injective) texts

end Text

namespace Path

theorem nameExtension?_eq_some_iff {name extension : Bytes} :
    nameExtension? name = some extension ↔ HasExtension name extension := by
  constructor
  · intro named
    unfold nameExtension? at named
    split at named
    next first stem behind divided =>
      obtain ⟨whole, absent⟩ := Text.splitAtLast?_eq_some_iff.1 divided
      cases named
      exact ⟨first :: stem, List.cons_ne_nil _ _, whole, absent⟩
    next => cases named
  · rintro ⟨stem, notEmpty, whole, absent⟩
    obtain ⟨first, others, rfl⟩ := List.exists_cons_of_ne_nil notEmpty
    rw [nameExtension?, Text.splitAtLast?_eq_some_iff.2 ⟨whole, absent⟩]

/-- The name of an entry is a path that leads to a file of that name. -/
theorem fileName?_of_isEntryName {name : Bytes} (named : IsEntryName name) :
    fileName? name = some name := by
  have single : pieces name = [name] := by
    rw [pieces, Text.splitWhere_eq_splitOnP]
    exact List.splitOnP_eq_singleton fun byte member => by
      simpa using fun same : byte = slash => named.noSlash (same ▸ member)
  have relative : isAbsolute name = false := by
    simp only [isAbsolute, beq_eq_false_iff_ne, ne_eq]
    exact fun first => named.noSlash (List.mem_of_head? first)
  have components : components name = [.entry name] := by
    simp [components, single, relative, componentOf?, named.notEmpty, named.notDot,
      named.notDots]
  rw [fileName?, components, List.getLast?_singleton]

/-- A path with the slash behind which entries are put. -/
def opened (directory : Bytes) : Bytes :=
  if directory.getLast? == some slash || directory == [] then directory
  else directory ++ [slash]

theorem join_eq_opened (directory name : Bytes) :
    join directory name = opened directory ++ name := by
  unfold join opened
  split <;> simp

theorem opened_join {name : Bytes} (named : IsEntryName name) (directory : Bytes) :
    opened (join directory name) = opened directory ++ (name ++ [slash]) := by
  have last : (join directory name).getLast? ≠ some slash := by
    rw [join_eq_opened, List.getLast?_append_of_ne_nil _ named.notEmpty]
    exact fun ends => named.noSlash (List.mem_of_getLast? ends)
  have filled : join directory name ≠ [] := by
    rw [join_eq_opened]
    exact List.append_ne_nil_of_right_ne_nil _ named.notEmpty
  rw [opened, if_neg (by simp [last, filled]), join_eq_opened, List.append_assoc]

theorem foldl_join {trail : List Bytes} (named : ∀ name ∈ trail, IsEntryName name)
    (notEmpty : trail ≠ []) (directory : Bytes) :
    trail.foldl join directory = opened directory ++ [slash].intercalate trail := by
  induction trail generalizing directory with
  | nil => exact absurd rfl notEmpty
  | cons name others ih =>
      obtain ⟨here, later⟩ := List.forall_mem_cons.1 named
      cases others with
      | nil => simp [join_eq_opened]
      | cons next others =>
          rw [List.foldl_cons, ih later (List.cons_ne_nil _ _), opened_join here]
          simp [List.intercalate_cons_cons]

/-- Below a directory, paths of entry names are told apart by their bytes. -/
theorem foldl_join_inj {first second : List Bytes}
    (firstNamed : ∀ name ∈ first, IsEntryName name)
    (secondNamed : ∀ name ∈ second, IsEntryName name) (firstNotEmpty : first ≠ [])
    (secondNotEmpty : second ≠ []) {directory : Bytes}
    (same : first.foldl join directory = second.foldl join directory) : first = second := by
  rw [foldl_join firstNamed firstNotEmpty, foldl_join secondNamed secondNotEmpty,
    List.append_cancel_left_eq] at same
  rw [← List.splitOn_intercalate slash (fun name member => (firstNamed name member).noSlash)
      firstNotEmpty, same,
    List.splitOn_intercalate slash (fun name member => (secondNamed name member).noSlash)
      secondNotEmpty]

/-- Paths of entry names that encode texts are told apart by what is shown for them. -/
theorem shownPath_inj {first second : List Bytes}
    (firstNamed : ∀ name ∈ first, IsEntryName name)
    (secondNamed : ∀ name ∈ second, IsEntryName name) (firstNotEmpty : first ≠ [])
    (secondNotEmpty : second ≠ [])
    (firstEncodes : ∀ name ∈ first, name.text?.isSome = true)
    (secondEncodes : ∀ name ∈ second, name.text?.isSome = true)
    (same : "/".intercalate (first.map Bytes.shown) =
      "/".intercalate (second.map Bytes.shown)) : first = second := by
  have free {names : List Bytes} (named : ∀ name ∈ names, IsEntryName name) :
      ∀ text ∈ names.map Bytes.shown, '/' ∉ text.toList := by
    intro text member slash
    obtain ⟨name, listed, rfl⟩ := List.mem_map.1 member
    exact (named name listed).noSlash (Bytes.mem_of_mem_shown (by decide) slash)
  have shown := Text.intercalate_inj_of_notMem (c := '/') rfl (free firstNamed)
    (free secondNamed) (by simpa using firstNotEmpty) (by simpa using secondNotEmpty) same
  exact Bytes.map_shown_inj firstEncodes secondEncodes shown

end Path

/-- The filter of a scan looks at the extension and the name of a file. -/
theorem ScanMode.keeps_iff_admits (mode : ScanMode) {name : Bytes} (named : IsEntryName name) :
    mode.keeps name = true ↔ mode.Admits name := by
  have found := Path.fileName?_of_isEntryName named
  have kept : mode.keeps name =
      (mode.extensions.contains (Path.lowerExtension name) ||
        mode.fileNames.contains (Path.fileText name)) := by
    cases mode <;> simp [keeps, extensions, fileNames, Bool.or_assoc]
  have noText : "" ∉ mode.fileNames := by
    cases mode <;> decide
  have noExtension : lowerAscii "" ∉ mode.extensions := by
    cases mode <;> decide
  rw [kept, Bool.or_eq_true, List.contains_iff_mem, List.contains_iff_mem, Admits]
  refine or_congr ?_ ?_
  · rw [Path.lowerExtension, found, Option.bind_some]
    simp only [← Path.nameExtension?_eq_some_iff]
    cases Path.nameExtension? name with
    | none => simpa using noExtension
    | some extension =>
        simp only [Option.bind_some, Option.some.injEq, ← Bytes.text?_eq_some_iff]
        cases extension.text? with
        | none => simpa using noExtension
        | some text => simp
  · rw [Path.fileText, found, Option.bind_some]
    simp only [← Bytes.text?_eq_some_iff]
    cases name.text? with
    | none => simpa using noText
    | some text => simp

end SourceAtlas
