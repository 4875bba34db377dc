import Mathlib.Order.Bounds.Basic
import SourceAtlas.Proofs.CallableOrder
import SourceAtlas.Proofs.DeclaredNames
import SourceAtlas.Proofs.FirstLeast
import SourceAtlas.Proofs.InnermostScope
import SourceAtlas.Rules.JavaScript

/-!
# Functions where they are captured first

Three patterns capture the functions of a JavaScript text, and they may capture one function more
than once.  The captures are sorted by position and every name is kept where it comes up first, so
of the captures of a name the list holds the first one at the least position.  A variable that holds
a function is listed with the functions only.
-/

namespace SourceAtlas
namespace JavaScript

section FirstByName

variable {seen : List String} {blocks : List FunctionBlock} {name : String}

theorem firstByName_sublist (seen : List String) (blocks : List FunctionBlock) :
    (firstByName seen blocks).Sublist blocks := by
  induction blocks generalizing seen with
  | nil => exact .slnil
  | cons block others ih =>
      unfold firstByName
      split
      · exact (ih seen).cons _
      · exact (ih _).cons_cons _

theorem name_notMem_of_mem_firstByName {block : FunctionBlock}
    (member : block ∈ firstByName seen blocks) : block.name ∉ seen := by
  induction blocks generalizing seen with
  | nil => exact absurd member List.not_mem_nil
  | cons first others ih =>
      unfold firstByName at member
      split at member
      case isTrue => exact ih member
      case isFalse fresh =>
        rcases List.mem_cons.mp member with rfl | later
        · simpa using fresh
        · exact fun known => ih later (List.mem_cons_of_mem _ known)

theorem firstByName_names_nodup (seen : List String) (blocks : List FunctionBlock) :
    ((firstByName seen blocks).map (·.name)).Nodup := by
  induction blocks generalizing seen with
  | nil => exact List.nodup_nil
  | cons block others ih =>
      unfold firstByName
      split
      · exact ih seen
      · rw [List.map_cons, List.nodup_cons]
        refine ⟨fun repeated => ?_, ih _⟩
        obtain ⟨later, member, same⟩ := List.mem_map.mp repeated
        apply name_notMem_of_mem_firstByName member
        rw [same]
        exact List.mem_cons_self

/-- A name that has not come up yet is found where it is found without leaving anything out. -/
theorem find?_firstByName (fresh : name ∉ seen) :
    (firstByName seen blocks).find? (·.name == name) = blocks.find? (·.name == name) := by
  induction blocks generalizing seen with
  | nil => rfl
  | cons block others ih =>
      unfold firstByName
      by_cases same : block.name = name
      · have unseen : seen.contains block.name = false := by simpa [same] using fresh
        rw [unseen]
        simp [same]
      · split
        · rw [ih fresh, List.find?_cons_of_neg (by simpa using same)]
        · have further : name ∉ block.name :: seen := by
            simpa using ⟨Ne.symm same, fresh⟩
          rw [List.find?_cons_of_neg (by simpa using same), ih further,
            List.find?_cons_of_neg (by simpa using same)]

end FirstByName

/-! ## The captures of a text -/

/-- The matches of the patterns for functions, a pattern after the other. -/
def functionCaptures (source : Text) : List Match :=
  functionDeclaration.matchesIn source ++ functionExpression.matchesIn source ++
    arrowFunction.matchesIn source

/-- One block for each capture of a function, a pattern after the other. -/
def capturedBlocks (source : Text) : List FunctionBlock :=
  (functionDeclaration.matchesIn source).map (functionOf source 200) ++
    (functionExpression.matchesIn source).map (functionOf source 200) ++
    (arrowFunction.matchesIn source).map (functionOf source 16)

/-- Whether some pattern captures a function of the name at a position. -/
def CapturesAt (source : Text) (name : String) (position : Nat) : Prop :=
  ∃ found ∈ functionCaptures source, found.name 1 = name ∧ found.start = position

theorem capturesAt_iff_exists_block {source : Text} {name : String} {position : Nat} :
    CapturesAt source name position ↔
      ∃ block ∈ capturedBlocks source, block.name = name ∧ block.position = position := by
  simp only [CapturesAt, functionCaptures, capturedBlocks, List.mem_append, List.mem_map,
    or_and_right, exists_or, exists_exists_and_eq_and]
  rfl

/-- The functions of a text, given its captures. -/
def keptBlocks (source : Text) : List FunctionBlock :=
  firstByName [] ((capturedBlocks source).mergeSort fun first second =>
    first.position ≤ second.position)

theorem find?_keptBlocks (source : Text) (name : String) :
    (keptBlocks source).find? (·.name == name) =
      firstLeast? (·.position) (·.name == name) (capturedBlocks source) := by
  rw [keptBlocks, find?_firstByName List.not_mem_nil]
  exact find?_mergeSort_eq_firstLeast? (fun block : FunctionBlock => block.position) _ _

theorem keptBlocks_pairwise (source : Text) :
    (keptBlocks source).Pairwise fun first second => first.position ≤ second.position :=
  (pairwise_key_mergeSort (fun block : FunctionBlock => block.position) _).sublist
    (firstByName_sublist _ _)

theorem keptBlocks_names_nodup (source : Text) : ((keptBlocks source).map (·.name)).Nodup :=
  firstByName_names_nodup _ _

theorem firstLeast?_of_mem_keptBlocks {source : Text} {block : FunctionBlock}
    (member : block ∈ keptBlocks source) :
    firstLeast? (·.position) (·.name == block.name) (capturedBlocks source) = some block := by
  rw [← find?_keptBlocks]
  have distinct := keptBlocks_names_nodup source
  generalize keptBlocks source = blocks at member distinct
  induction blocks with
  | nil => exact absurd member List.not_mem_nil
  | cons first others ih =>
      rw [List.map_cons, List.nodup_cons] at distinct
      rcases List.mem_cons.mp member with rfl | later
      · exact List.find?_cons_of_pos (beq_self_eq_true _)
      · rw [List.find?_cons_of_neg, ih later distinct.2]
        rw [beq_iff_eq]
        intro same
        exact distinct.1 (same ▸ List.mem_map_of_mem later)

theorem mem_keptBlocks_names_iff {source : Text} {name : String} :
    name ∈ (keptBlocks source).map (·.name) ↔ ∃ position, CapturesAt source name position := by
  simp only [capturesAt_iff_exists_block, List.mem_map]
  constructor
  · rintro ⟨block, member, same⟩
    obtain ⟨captured, -⟩ := mem_and_test_of_firstLeast? (firstLeast?_of_mem_keptBlocks member)
    exact ⟨block.position, block, captured, same, rfl⟩
  · rintro ⟨position, block, captured, rfl, -⟩
    have selects := selects_firstLeast? (·.position) (·.name == block.name) (capturedBlocks source)
    rw [← find?_keptBlocks] at selects
    cases kept : (keptBlocks source).find? (·.name == block.name) with
    | none =>
        rw [kept] at selects
        simpa using selects block captured
    | some first =>
        exact ⟨first, List.mem_of_find?_eq_some kept, by simpa using List.find?_some kept⟩

/-- A kept function stands at the least position at which its name is captured. -/
theorem position_isLeast {source : Text} {block : FunctionBlock}
    (member : block ∈ keptBlocks source) :
    IsLeast {position | CapturesAt source block.name position} block.position := by
  have chosen := firstLeast?_of_mem_keptBlocks member
  constructor
  · obtain ⟨captured, -⟩ := mem_and_test_of_firstLeast? chosen
    exact capturesAt_iff_exists_block.mpr ⟨block, captured, rfl, rfl⟩
  · intro position captures
    obtain ⟨other, captured, same, rfl⟩ := capturesAt_iff_exists_block.mp captures
    have selects := selects_firstLeast? (·.position) (·.name == block.name) (capturedBlocks source)
    rw [chosen] at selects
    exact selects.le_key captured (by simpa using same)

/-! ## The sections of the outline -/

theorem functions_of_lasting {deadline : Deadline} (lasts : deadline.expired = false)
    (source : Text) : functions deadline source = .ok (keptBlocks source) := by
  simp only [functions, Pattern.matchesWithin_of_lasting _ lasts]
  rfl

/-- The names of a text that are assigned at the beginning of a line and name no function. -/
def plainNames (source : Text) : List String :=
  ((variableAssignment.matchesIn source).map (·.name 1)).filter fun name =>
    !(keptBlocks source).any (·.name == name)

theorem variableNames_of_lasting {deadline : Deadline} (lasts : deadline.expired = false)
    (source : Text) :
    variableNames deadline source (keptBlocks source) = .ok (plainNames source) := by
  simp only [variableNames, Pattern.matchesWithin_of_lasting _ lasts]
  rfl

theorem mem_plainNames_iff {source : Text} {name : String} :
    name ∈ plainNames source ↔
      (∃ found ∈ variableAssignment.matchesIn source, found.name 1 = name) ∧
        name ∉ (keptBlocks source).map (·.name) := by
  simp [plainNames, List.mem_filter]

def functionSection (caps : DisplayCaps) (functions : List FunctionBlock) : Section :=
  ⟨"Functions",
    functions.map fun function => "Function: " ++ signature function.name function.parameters,
    some ⟨caps.functions, "functions"⟩⟩

def variableSection (caps : DisplayCaps) (names : List String) : Section :=
  ⟨"Top-level Variables", names.map ("Variable: " ++ ·), some ⟨caps.variableNames, "variables"⟩⟩

/-- The outline ends with the functions and the variables. -/
theorem outline_of_lasting (dialect : Dialect) {context : RuleContext}
    (lasts : context.deadline.expired = false) (source : Text) :
    ∃ front, outline dialect context source =
      .ok (front ++ (functionSection context.caps (keptBlocks source)).lines ++
        (variableSection context.caps (plainNames source)).lines) := by
  have bind_ok {α β : Type} (value : α) (next : α → Except Timeout β) :
      (Except.ok value >>= next) = next value :=
    rfl
  simp only [outline, importLines, classes, functions_of_lasting lasts,
    typescriptOnly_of_lasting lasts, Pattern.matchesWithin_of_lasting _ lasts, bind_ok, pure_bind,
    variableNames_of_lasting lasts]
  have last (imports interfaces classes functions names : Section) :
      [imports, interfaces, classes, functions, names].flatMap Section.lines =
        [imports, interfaces, classes].flatMap Section.lines ++ functions.lines ++ names.lines := by
    simp
  exact ⟨_, congrArg Except.ok (last _ _ _ _ _)⟩

/-- The functions of a text have distinct names and stand in the order of their positions.  Their
names are those that some pattern captures, and each one is listed as its first capture at the least
position shows it.  No variable of the text is named like one of them, and the outline ends with the
two lists. -/
theorem functions_first_captured (dialect : Dialect) (context : RuleContext) (source : Text)
    (lasts : context.deadline.expired = false) :
    ∃ (listed : List FunctionBlock) (names front : List String),
      functions context.deadline source = .ok listed ∧
      variableNames context.deadline source listed = .ok names ∧
      (listed.map (·.name)).Nodup ∧
      (listed.map (·.position)).Pairwise (· ≤ ·) ∧
      (∀ name, name ∈ listed.map (·.name) ↔ ∃ position, CapturesAt source name position) ∧
      (∀ function ∈ listed,
        IsLeast {position | CapturesAt source function.name position} function.position ∧
        firstLeast? (·.position) (·.name == function.name) (capturedBlocks source) =
          some function) ∧
      (∀ name, name ∈ names ↔
        (∃ found ∈ variableAssignment.matchesIn source, found.name 1 = name) ∧
          ∀ position, ¬CapturesAt source name position) ∧
      (∀ function ∈ listed, function.name ∉ names) ∧
      outline dialect context source =
        .ok (front ++ (functionSection context.caps listed).lines ++
          (variableSection context.caps names).lines) := by
  obtain ⟨front, outlined⟩ := outline_of_lasting dialect lasts source
  refine ⟨keptBlocks source, plainNames source, front, functions_of_lasting lasts source,
    variableNames_of_lasting lasts source, keptBlocks_names_nodup source, ?_,
    fun name => mem_keptBlocks_names_iff, ?_, ?_, ?_, outlined⟩
  · exact List.pairwise_map.mpr (keptBlocks_pairwise source)
  · exact fun function member => ⟨position_isLeast member, firstLeast?_of_mem_keptBlocks member⟩
  · intro name
    rw [mem_plainNames_iff, mem_keptBlocks_names_iff, not_exists]
  · intro function member named
    exact (mem_plainNames_iff.mp named).2 (List.mem_map_of_mem member)

/-- A function that is captured twice, an arrow function that is declared again behind it, and a
plain variable. -/
def mixedStyles : Text :=
  "const f = function f(a) {};\nconst g = b => b;\nfunction g(c) {}\nconst LIMIT = 1;\n".toList

theorem keptBlocks_mixedStyles :
    keptBlocks mixedStyles = [⟨"f", "a", 0, some ⟨25, 25⟩⟩, ⟨"g", "b", 28, none⟩] := by
  have captured : capturedBlocks mixedStyles =
      [⟨"f", "a", 10, some ⟨25, 25⟩⟩, ⟨"g", "c", 46, some ⟨61, 61⟩⟩,
        ⟨"f", "a", 0, some ⟨25, 25⟩⟩, ⟨"g", "b", 28, none⟩] := by
    decide +kernel
  have sorted : (capturedBlocks mixedStyles).mergeSort
        (fun first second => first.position ≤ second.position) =
      [⟨"f", "a", 0, some ⟨25, 25⟩⟩, ⟨"f", "a", 10, some ⟨25, 25⟩⟩, ⟨"g", "b", 28, none⟩,
        ⟨"g", "c", 46, some ⟨61, 61⟩⟩] :=
    mergeSort_key_of_perm FunctionBlock.position (captured ▸ by decide) (by decide)
  rw [keptBlocks, sorted]
  rfl

theorem functions_mixedStyles :
    Deadline.unbounded.expired = false ∧
    ∃ (listed : List FunctionBlock) (names : List String),
      functions .unbounded mixedStyles = .ok listed ∧
      (listed.map fun function => (function.name, function.parameters, function.position)) =
        [("f", "a", 0), ("g", "b", 28)] ∧
      (∃ position, CapturesAt mixedStyles "g" position) ∧
      IsLeast {position | CapturesAt mixedStyles "g" position} 28 ∧
      names = ["LIMIT"] ∧ ∀ function ∈ listed, function.name ∉ names := by
  obtain ⟨listed, names, -, read, readNames, -, -, -, least, -, apart, -⟩ :=
    functions_first_captured .javascript {} mixedStyles rfl
  obtain rfl : keptBlocks mixedStyles = listed :=
    Except.ok.inj ((functions_of_lasting rfl mixedStyles).symm.trans read)
  obtain rfl : plainNames mixedStyles = names :=
    Except.ok.inj ((variableNames_of_lasting rfl mixedStyles).symm.trans readNames)
  have named : plainNames mixedStyles = ["LIMIT"] := by
    rw [plainNames, keptBlocks_mixedStyles]
    decide +kernel
  have first := (least ⟨"g", "b", 28, none⟩ (by rw [keptBlocks_mixedStyles]; decide)).1
  refine ⟨rfl, _, _, read, ?_, ⟨28, first.1⟩, first, named, apart⟩
  rw [keptBlocks_mixedStyles]
  rfl

end JavaScript
end SourceAtlas
