import SourceAtlas.Proofs.OrderedTrees
import SourceAtlas.Report.Directory

/-!
# Reading a directory diagram back

The diagram of a directory shows the nesting of its entries by the columns in front of their
names, and a name may look like such a column itself.  Still the diagram can be read back: the
columns of a line are known from the lines before it, so the mark behind them is told from a
column, and what follows the mark is the name.  Two trees with the same diagram therefore show
the same names in the same places, provided that every name fits on a line.  They have the same
names there if the names encode texts; other names may be shown alike.
-/

namespace SourceAtlas

/-- Whether a text can stand on one line. -/
def FitsLine (text : String) : Prop :=
  '\n' ∉ text.toList

instance (text : String) : Decidable (FitsLine text) :=
  inferInstanceAs (Decidable ('\n' ∉ text.toList))

theorem FitsLine.append {first second : String} (firstFits : FitsLine first)
    (secondFits : FitsLine second) : FitsLine (first ++ second) := by
  simp only [FitsLine, String.toList_append, List.mem_append, not_or]
  exact ⟨firstFits, secondFits⟩

namespace Bytes

def newline : UInt8 := 0x0A

/-- Whether bytes encode a text. -/
def Encodes (bytes : Bytes) : Prop :=
  bytes.text?.isSome = true

instance (bytes : Bytes) : Decidable bytes.Encodes :=
  inferInstanceAs (Decidable (bytes.text?.isSome = true))

theorem shown_fitsLine {bytes : Bytes} (fits : newline ∉ bytes) : FitsLine bytes.shown :=
  fun breaks => fits (mem_of_mem_shown (by decide) breaks)

end Bytes

/-- The names of the entries of a directory in order, each with the names below it. -/
inductive NameTree (α : Type) where
  | node (entries : List (α × NameTree α))

namespace FileTree

section Names

variable {α : Type} (reading : Bytes → α)

mutual

/-- The names below a tree, as they are read.  What is not entered has none: files, links and
directories without entries look alike. -/
def names : FileTree → NameTree α
  | directory entries _ => .node (entryNames entries)
  | file _ _ => .node []
  | link _ => .node []

def entryNames : List (Bytes × FileTree) → List (α × NameTree α)
  | [] => []
  | (name, tree) :: others => (reading name, names tree) :: entryNames others

end

theorem names_eq (tree : FileTree) :
    tree.names reading = .node (entryNames reading tree.entries) := by
  cases tree <;> rfl

end Names

/-- Something holds of the name of every entry in the tree. -/
inductive AllNames (holds : Bytes → Prop) : FileTree → Prop where
  | file (content : ByteArray) (access : Access) : AllNames holds (file content access)
  | link (target : Bytes) : AllNames holds (link target)
  | directory (entries : List (Bytes × FileTree)) (access : Access)
      (here : ∀ name ∈ entries.map Prod.fst, holds name)
      (below : ∀ entry ∈ entries, AllNames holds entry.2) :
      AllNames holds (directory entries access)

/-- The name of every entry in the tree fits on a line. -/
def NamesFit : FileTree → Prop :=
  AllNames fun name => Bytes.newline ∉ name

/-- The name of every entry in the tree encodes a text. -/
def NamesEncode : FileTree → Prop :=
  AllNames Bytes.Encodes

theorem AllNames.sorted {holds : Bytes → Prop} {tree : FileTree} (all : tree.AllNames holds) :
    tree.sorted.AllNames holds := by
  induction all with
  | file content access => exact .file content access
  | link target => exact .link target
  | directory entries access here below ih =>
      rw [sorted_directory_eq]
      refine .directory _ _ ?_ ?_
      · intro name member
        obtain ⟨entry, listed, rfl⟩ := List.mem_map.mp member
        obtain ⟨original, known, rfl⟩ := List.mem_map.mp (List.mem_mergeSort.mp listed)
        exact here original.1 (List.mem_map_of_mem known)
      · intro entry member
        obtain ⟨original, known, rfl⟩ := List.mem_map.mp (List.mem_mergeSort.mp member)
        exact ih original known

theorem AllNames.entries {holds : Bytes → Prop} {tree : FileTree} (all : tree.AllNames holds) :
    ∀ entry ∈ tree.entries, holds entry.1 ∧ entry.2.AllNames holds := by
  cases all with
  | file | link => simp [FileTree.entries]
  | directory entries access here below =>
      exact fun entry member => ⟨here entry.1 (List.mem_map_of_mem member), below entry member⟩

-- Both inductions run over the first tree, along with the other one.
mutual

/-- Names that encode texts are the same where they are shown alike. -/
theorem names_of_shownNames (tree other : FileTree) (encode : tree.NamesEncode)
    (otherEncode : other.NamesEncode) (same : tree.names Bytes.shown = other.names Bytes.shown) :
    tree.names id = other.names id := by
  rw [names_eq _ other] at same ⊢
  match tree with
  | .directory entries access =>
      rw [names, NameTree.node.injEq] at same
      rw [names, entryNames_of_shownNames entries other.entries encode.entries
        otherEncode.entries same]
  | .file _ _ | .link _ =>
      rw [names, NameTree.node.injEq] at same
      cases known : other.entries with
      | nil => rfl
      | cons entry others =>
          rw [known] at same
          cases same

theorem entryNames_of_shownNames (entries otherEntries : List (Bytes × FileTree))
    (encode : ∀ entry ∈ entries, entry.1.Encodes ∧ entry.2.NamesEncode)
    (otherEncode : ∀ entry ∈ otherEntries, entry.1.Encodes ∧ entry.2.NamesEncode)
    (same : entryNames Bytes.shown entries = entryNames Bytes.shown otherEntries) :
    entryNames id entries = entryNames id otherEntries := by
  match entries, otherEntries with
  | [], [] => rfl
  | [], _ :: _ => cases same
  | _ :: _, [] => cases same
  | (name, tree) :: others, (otherName, otherTree) :: furtherOthers =>
      obtain ⟨here, later⟩ := List.forall_mem_cons.mp encode
      obtain ⟨otherHere, otherLater⟩ := List.forall_mem_cons.mp otherEncode
      simp only [entryNames, List.cons.injEq, Prod.mk.injEq] at same
      obtain ⟨⟨sameName, sameBelow⟩, sameOthers⟩ := same
      have exactName : name = otherName := Bytes.eq_of_shown_eq here.1 otherHere.1 sameName
      rw [entryNames, entryNames, exactName,
        names_of_shownNames tree otherTree here.2 otherHere.2 sameBelow,
        entryNames_of_shownNames others furtherOthers later otherLater sameOthers]

end

end FileTree

namespace DirectoryReport

/-- The mark in front of an entry. -/
def mark (isLast : Bool) : String :=
  if isLast then lastBranch else branch

/-- The column below an entry. -/
def column (isLast : Bool) : String :=
  if isLast then closedColumn else openColumn

theorem entriesLines_cons (levels : Option Nat) (stem : String) (name : Bytes) (tree : FileTree)
    (others : List (Bytes × FileTree)) :
    entriesLines levels stem ((name, tree) :: others) =
      (stem ++ mark others.isEmpty ++ name.shown) ::
        (treeLines levels (stem ++ column others.isEmpty) tree ++
          entriesLines levels stem others) := by
  rw [entriesLines]
  rfl

theorem treeLines_none (stem : String) (tree : FileTree) :
    treeLines none stem tree = entriesLines none stem tree.entries := by
  cases tree <;> simp [treeLines, FileTree.entries, entriesLines]

/-! ## Lines without a line break -/

theorem mark_fitsLine (isLast : Bool) : FitsLine (mark isLast) := by
  cases isLast <;> simp [FitsLine, mark, lastBranch, branch]

theorem column_fitsLine (isLast : Bool) : FitsLine (column isLast) := by
  cases isLast <;> simp [FitsLine, column, closedColumn, openColumn]

/-- A line shows an entry or stands below one. -/
theorem mem_entriesLines {levels : Option Nat} {stem line : String}
    {entries : List (Bytes × FileTree)} (member : line ∈ entriesLines levels stem entries) :
    ∃ entry ∈ entries, ∃ isLast, line = stem ++ mark isLast ++ entry.1.shown ∨
      line ∈ treeLines levels (stem ++ column isLast) entry.2 := by
  induction entries with
  | nil => simp [entriesLines] at member
  | cons entry others ih =>
      obtain ⟨name, tree⟩ := entry
      rw [entriesLines_cons, List.mem_cons, List.mem_append] at member
      rcases member with shown | below | later
      · exact ⟨_, List.mem_cons_self, _, Or.inl shown⟩
      · exact ⟨_, List.mem_cons_self, _, Or.inr below⟩
      · obtain ⟨entry, known, found⟩ := ih later
        exact ⟨entry, List.mem_cons_of_mem _ known, found⟩

theorem treeLines_fitsLine {tree : FileTree} (fit : tree.NamesFit) (levels : Option Nat)
    {stem : String} (stemFits : FitsLine stem) :
    ∀ line ∈ treeLines levels stem tree, FitsLine line := by
  induction fit generalizing levels stem with
  | file => simp [treeLines]
  | link => simp [treeLines]
  | directory entries access here below ih =>
      intro line member
      rw [treeLines] at member
      split at member
      · simp at member
      · obtain ⟨entry, known, isLast, rfl | lower⟩ := mem_entriesLines member
        · exact (stemFits.append (mark_fitsLine isLast)).append
            (Bytes.shown_fitsLine (here entry.1 (List.mem_map_of_mem known)))
        · exact ih entry known _ (stemFits.append (column_fitsLine isLast)) line lower

/-! ## Reading the columns -/

/-- The first of some lines, if there is one, does not begin with the columns `stem`. -/
def Outside (stem : String) (lines : List String) : Prop :=
  ∀ line ∈ lines.head?, ¬stem.toList <+: line.toList

theorem Outside.append {stem : String} {lines : List String} (outside : Outside stem lines)
    (further : String) : Outside (stem ++ further) lines := by
  intro line first begins
  rw [String.toList_append] at begins
  exact outside line first ((List.prefix_append _ _).trans begins)

theorem entryLine_inj {stem name other : String} {isLast otherIsLast : Bool}
    (same : stem ++ mark isLast ++ name = stem ++ mark otherIsLast ++ other) :
    isLast = otherIsLast ∧ name = other := by
  have texts := congrArg String.toList same
  simp only [String.toList_append, List.append_assoc, List.append_cancel_left_eq] at texts
  cases isLast <;> cases otherIsLast <;>
    simp [mark, lastBranch, branch, String.toList_inj] at texts ⊢ <;> exact texts

theorem not_column_prefix_entryLine (stem name : String) (isLast nextIsLast : Bool) :
    ¬(stem ++ column isLast).toList <+: (stem ++ mark nextIsLast ++ name).toList := by
  simp only [String.toList_append, List.append_assoc, List.prefix_append_right_inj]
  cases isLast <;> cases nextIsLast <;>
    simp [column, closedColumn, openColumn, mark, lastBranch, branch, List.cons_prefix_cons]

/-- The lines behind those below an entry show the next entry or come from further out. -/
theorem outside_column {stem : String} {rest : List String} (outside : Outside stem rest)
    (others : List (Bytes × FileTree)) :
    Outside (stem ++ column others.isEmpty) (entriesLines none stem others ++ rest) := by
  cases others with
  | nil =>
      rw [entriesLines, List.nil_append]
      exact outside.append _
  | cons next others =>
      obtain ⟨name, tree⟩ := next
      intro line first
      rw [entriesLines_cons, List.cons_append, List.head?_cons, Option.mem_some_iff] at first
      rw [← first]
      exact not_column_prefix_entryLine stem name.shown false others.isEmpty

theorem eq_nil_of_outside {stem : String} {rest lines : List String}
    {entries : List (Bytes × FileTree)} (outside : Outside stem rest)
    (same : rest = entriesLines none stem entries ++ lines) : entries = [] := by
  cases entries with
  | nil => rfl
  | cons entry others =>
      obtain ⟨name, tree⟩ := entry
      rw [entriesLines_cons, List.cons_append, String.append_assoc] at same
      have begins := outside (stem ++ (mark others.isEmpty ++ name.shown)) (by rw [same]; rfl)
      rw [String.toList_append] at begins
      exact absurd (List.prefix_append _ _) begins

-- Both inductions run over the first tree.  What follows the lines of a tree is kept general,
-- because the lines below an entry are followed by those of the next entry.
mutual

theorem names_of_treeLines (tree other : FileTree) {stem : String}
    {rest otherRest : List String} (outside : Outside stem rest)
    (otherOutside : Outside stem otherRest)
    (same : treeLines none stem tree ++ rest = treeLines none stem other ++ otherRest) :
    tree.names Bytes.shown = other.names Bytes.shown ∧ rest = otherRest := by
  rw [treeLines_none stem other] at same
  rw [FileTree.names_eq _ other]
  match tree with
  | .directory entries _ =>
      rw [treeLines_none] at same
      obtain ⟨sameNames, sameRest⟩ :=
        entryNames_of_entriesLines entries other.entries outside otherOutside same
      exact ⟨congrArg NameTree.node sameNames, sameRest⟩
  | .file _ _ | .link _ =>
      rw [treeLines, List.nil_append] at same
      have noEntries := eq_nil_of_outside outside same
      rw [noEntries] at same ⊢
      exact ⟨rfl, same⟩

theorem entryNames_of_entriesLines (entries otherEntries : List (Bytes × FileTree))
    {stem : String} {rest otherRest : List String}
    (outside : Outside stem rest) (otherOutside : Outside stem otherRest)
    (same : entriesLines none stem entries ++ rest =
      entriesLines none stem otherEntries ++ otherRest) :
    FileTree.entryNames Bytes.shown entries = FileTree.entryNames Bytes.shown otherEntries ∧
      rest = otherRest := by
  match entries, otherEntries with
  | [], otherEntries =>
      rw [entriesLines, List.nil_append] at same
      have noEntries := eq_nil_of_outside outside same
      rw [noEntries] at same ⊢
      exact ⟨rfl, same⟩
  | entry :: others, [] =>
      rw [entriesLines, List.nil_append] at same
      exact absurd (eq_nil_of_outside otherOutside same.symm) (List.cons_ne_nil _ _)
  | (name, tree) :: others, (otherName, otherTree) :: furtherOthers =>
      rw [entriesLines_cons, entriesLines_cons, List.cons_append, List.cons_append,
        List.append_assoc, List.append_assoc, List.cons.injEq] at same
      obtain ⟨sameLast, sameName⟩ := entryLine_inj same.1
      have sameLines := same.2
      rw [sameLast] at sameLines
      obtain ⟨sameBelow, sameBehind⟩ := names_of_treeLines tree otherTree
        (sameLast ▸ outside_column outside others) (outside_column otherOutside furtherOthers)
        sameLines
      obtain ⟨sameOthers, sameRest⟩ :=
        entryNames_of_entriesLines others furtherOthers outside otherOutside sameBehind
      refine ⟨?_, sameRest⟩
      rw [FileTree.entryNames, FileTree.entryNames, sameName, sameBelow, sameOthers]

end

theorem lines_fitsLine {name : Bytes} {tree : FileTree} (nameFits : Bytes.newline ∉ name)
    (fit : tree.NamesFit) : ∀ line ∈ lines none name.shown tree, FitsLine line := by
  rw [lines, List.forall_mem_cons]
  refine ⟨Bytes.shown_fitsLine nameFits, treeLines_fitsLine (FileTree.AllNames.sorted fit) none ?_⟩
  simp [FitsLine]

theorem lines_of_render {system : FileSystem} {levels : Option Nat} {path : Bytes}
    {tree : FileTree} {text : String} (leads : system.find path = .ok tree)
    (shown : render system levels path = .ok text) :
    "\n".intercalate (lines levels (system.displayName path) tree) = text := by
  simp only [render, leads] at shown
  split at shown
  · exact Except.ok.inj shown
  · cases shown

/-- If the names of two directories and of all entries below them fit on lines, and the full
diagrams of the two are the same text, then the directories are shown under the same name and
with the same names below them, each in the same place.  The names are the same if they encode
texts.  What the names lead to may differ where nothing is entered. -/
theorem diagram_determines_names (first second : FileSystem) (firstPath secondPath : Bytes)
    (firstTree secondTree : FileTree) (text : String)
    (firstLeads : first.find firstPath = .ok firstTree)
    (secondLeads : second.find secondPath = .ok secondTree)
    (firstNamed : Bytes.newline ∉ first.resolvedName firstPath)
    (secondNamed : Bytes.newline ∉ second.resolvedName secondPath)
    (firstFit : firstTree.NamesFit) (secondFit : secondTree.NamesFit)
    (firstShown : render first none firstPath = .ok text)
    (secondShown : render second none secondPath = .ok text) :
    (first.displayName firstPath = second.displayName secondPath ∧
      firstTree.sorted.names Bytes.shown = secondTree.sorted.names Bytes.shown) ∧
    ((first.resolvedName firstPath).Encodes → (second.resolvedName secondPath).Encodes →
      first.resolvedName firstPath = second.resolvedName secondPath) ∧
    (firstTree.NamesEncode → secondTree.NamesEncode →
      firstTree.sorted.names id = secondTree.sorted.names id) := by
  have sameText := (lines_of_render firstLeads firstShown).trans
    (lines_of_render secondLeads secondShown).symm
  have sameLines := Text.intercalate_inj_of_notMem (c := '\n') rfl
    (lines_fitsLine firstNamed firstFit) (lines_fitsLine secondNamed secondFit)
    (List.cons_ne_nil _ _) (List.cons_ne_nil _ _) sameText
  obtain ⟨sameName, sameBelow⟩ := List.cons.inj sameLines
  have nothingBehind : Outside "" [] := by simp [Outside]
  have sameShown := (names_of_treeLines _ _ nothingBehind nothingBehind
    (congrArg (· ++ []) sameBelow)).1
  refine ⟨⟨sameName, sameShown⟩, fun encodes otherEncodes => ?_, fun encode otherEncode => ?_⟩
  · exact Bytes.eq_of_shown_eq encodes otherEncodes sameName
  · exact FileTree.names_of_shownNames _ _ (FileTree.AllNames.sorted encode)
      (FileTree.AllNames.sorted otherEncode) sameShown

/-- Names that look like the columns and marks of a diagram, on `lower` and `upper`. -/
def markedEntries (lower upper : FileTree) : List (Bytes × FileTree) :=
  [("│   b", lower), ("├── x", .directory [("    y", upper)])]

def markedSystem (lower upper : FileTree) : FileSystem :=
  { root := .directory [("pictures", .directory (markedEntries lower upper))] }

def markedText : String :=
  "pictures\n├── │   b\n└── ├── x\n    └──     y"

section Marked

variable (lower upper : FileTree)

theorem markedSystem_find :
    (markedSystem lower upper).find "pictures" = .ok (.directory (markedEntries lower upper)) :=
  rfl

theorem markedSystem_resolvedName :
    (markedSystem lower upper).resolvedName "pictures" = Bytes.ofString "pictures" := by
  have found : (markedSystem lower upper).locate true "pictures" =
      .ok ⟨["pictures"], .directory (markedEntries lower upper)⟩ := rfl
  have named : (Path.fileName? (FileSystem.absolutePath ["pictures"])).getD
      (FileSystem.absolutePath ["pictures"]) = Bytes.ofString "pictures" := by decide +kernel
  rw [FileSystem.resolvedName, found]
  exact named

theorem markedEntries_sorted :
    (FileTree.directory (markedEntries lower upper)).sorted =
      .directory (markedEntries lower.sorted upper.sorted) := by
  have ordered : Bytes.ofString "│   b" < Bytes.ofString "├── x" := by decide +kernel
  have alone : (FileTree.directory [("    y", upper)]).sorted =
      .directory [("    y", upper.sorted)] :=
    FileTree.sorted_of_ascending (List.pairwise_singleton _ _) {}
  rw [FileTree.sorted_of_ascending (by simp [markedEntries, ordered])]
  simp [markedEntries, FileTree.sortedEntry, alone]

variable {lower upper} in
theorem markedEntries_allNames {holds : Bytes → Prop}
    (named : ∀ name ∈ ["│   b", "├── x", "    y"], holds (Bytes.ofString name))
    (lowerNamed : lower.AllNames holds) (upperNamed : upper.AllNames holds) :
    (FileTree.directory (markedEntries lower upper)).AllNames holds := by
  simp only [List.forall_mem_cons] at named
  obtain ⟨first, second, below, -⟩ := named
  have inner : (FileTree.directory [("    y", upper)]).AllNames holds :=
    .directory _ _ (by simpa using below) (by simpa using upperNamed)
  exact .directory _ _ (by simpa [markedEntries] using ⟨first, second⟩)
    (by simpa [markedEntries] using ⟨lowerNamed, inner⟩)

end Marked

theorem diagram_determines_markedNames :
    (FileTree.directory (markedEntries (.file ⟨#[1]⟩) (.link "x"))).NamesFit ∧
      (FileTree.directory (markedEntries .empty (.file ⟨#[]⟩))).NamesFit ∧
      render (markedSystem (.file ⟨#[1]⟩) (.link "x")) none "pictures" = .ok markedText ∧
      render (markedSystem .empty (.file ⟨#[]⟩)) none "pictures" = .ok markedText ∧
      (FileTree.directory (markedEntries (.file ⟨#[1]⟩) (.link "x"))).sorted.names id =
        (FileTree.directory (markedEntries .empty (.file ⟨#[]⟩))).sorted.names id := by
  have fit : ∀ name ∈ ["│   b", "├── x", "    y"], Bytes.newline ∉ Bytes.ofString name := by
    decide +kernel
  have encode : ∀ name ∈ ["│   b", "├── x", "    y"], (Bytes.ofString name).Encodes := by
    decide +kernel
  have rootFits : Bytes.newline ∉ Bytes.ofString "pictures" := by decide +kernel
  have nothing (holds : Bytes → Prop) : FileTree.empty.AllNames holds :=
    .directory [] _ (by simp) (by simp)
  have shown : render (markedSystem (.file ⟨#[1]⟩) (.link "x")) none "pictures" =
      .ok markedText := by
    rw [render, markedSystem_find, FileSystem.displayName, markedSystem_resolvedName]
    dsimp only
    rw [lines, markedEntries_sorted]
    decide +kernel
  have otherShown : render (markedSystem .empty (.file ⟨#[]⟩)) none "pictures" =
      .ok markedText := by
    rw [render, markedSystem_find, FileSystem.displayName, markedSystem_resolvedName]
    dsimp only
    rw [lines, markedEntries_sorted]
    decide +kernel
  have namesFit : (FileTree.directory (markedEntries (.file ⟨#[1]⟩) (.link "x"))).NamesFit :=
    markedEntries_allNames fit (.file ⟨#[1]⟩ {}) (.link "x")
  have otherNamesFit : (FileTree.directory (markedEntries .empty (.file ⟨#[]⟩))).NamesFit :=
    markedEntries_allNames fit (nothing _) (.file ⟨#[]⟩ {})
  refine ⟨namesFit, otherNamesFit, shown, otherShown, ?_⟩
  have determined := diagram_determines_names _ _ "pictures" "pictures" _ _ markedText
    (markedSystem_find _ _) (markedSystem_find _ _)
    (by rwa [markedSystem_resolvedName]) (by rwa [markedSystem_resolvedName])
    namesFit otherNamesFit shown otherShown
  exact determined.2.2 (markedEntries_allNames encode (.file ⟨#[1]⟩ {}) (.link "x"))
    (markedEntries_allNames encode (nothing _) (.file ⟨#[]⟩ {}))

/-- A directory with a single file. -/
def loneEntry (directory name : Bytes) : FileSystem :=
  { root := .directory [(directory, .directory [(name, .file ⟨#[]⟩)])] }

/-- The bytes FF and FE are shown alike, and a directory whose name has a line break in it looks
like one with an entry. -/
theorem diagram_confuses_names :
    (render (loneEntry "r" [0xFF]) none "r" = .ok "r\n└── \uFFFD" ∧
      render (loneEntry "r" [0xFE]) none "r" = .ok "r\n└── \uFFFD" ∧
      (FileTree.directory [([0xFF], .file ⟨#[]⟩)]).sorted.names id ≠
        (FileTree.directory [([0xFE], .file ⟨#[]⟩)]).sorted.names id) ∧
    (render { root := .directory [("a\n└── b", .empty)] } none "a\n└── b" = .ok "a\n└── b" ∧
      render (loneEntry "a" "b") none "a" = .ok "a\n└── b" ∧
      FileTree.empty.sorted.names id ≠
        (FileTree.directory [("b", .file ⟨#[]⟩)]).sorted.names id) := by
  refine ⟨⟨by decide +kernel, by decide +kernel, ?_⟩, by decide +kernel, by decide +kernel, ?_⟩
  · simp [FileTree.sorted, FileTree.sortedEntries, FileTree.names, FileTree.entryNames]
  · simp [FileTree.sorted, FileTree.sortedEntries, FileTree.names, FileTree.entryNames,
      FileTree.empty]

end DirectoryReport
end SourceAtlas
