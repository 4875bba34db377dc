import Mathlib.Data.List.Nodup
import SourceAtlas.Proofs.DeclaredNames
import SourceAtlas.Proofs.DeclaredRelations

/-!
# Outlines of Python texts list functions under their owners

The outline of a Python text and its analysis look for the class around a function in two
searches of their own: one among the classes, by index, and one among the scopes, by name
and only for declared types.  Both choose the same class, so a function is listed once and
under its owner.
-/

namespace SourceAtlas

/-- Items grouped by distinct keys are still all of the items. -/
theorem flatMap_filter_perm {α κ : Type} [BEq κ] [LawfulBEq κ] (key : α → κ) {keys : List κ}
    (distinct : keys.Nodup) {items : List α} (covered : ∀ item ∈ items, key item ∈ keys) :
    (keys.flatMap fun value => items.filter (key · == value)).Perm items := by
  induction keys generalizing items with
  | nil =>
      have nothing : items = [] := List.eq_nil_iff_forall_not_mem.mpr fun item member => by
        simpa using covered item member
      simp [nothing]
  | cons first keys ih =>
      obtain ⟨fresh, distinctRest⟩ := List.nodup_cons.mp distinct
      let others := items.filter fun item => !(key item == first)
      have later : ∀ value ∈ keys,
          items.filter (key · == value) = others.filter (key · == value) := by
        intro value member
        rw [List.filter_filter]
        apply List.filter_congr
        intro item _
        by_cases same : key item = value
        · have different : value ≠ first := fun equal => fresh (equal ▸ member)
          simp [same, different]
        · simp [same]
      have coveredRest : ∀ item ∈ others, key item ∈ keys := by
        intro item member
        obtain ⟨known, notFirst⟩ := List.mem_filter.mp member
        exact (List.mem_cons.mp (covered item known)).resolve_left (by simpa using notFirst)
      rw [List.flatMap_cons, List.flatMap_congr later]
      exact ((ih distinctRest coveredRest).append_left _).trans (List.filter_append_perm _ items)

namespace Symbol

/-- A description that names an owner is that of a member of this owner. -/
theorem owner_of_describe_method {symbol : Symbol} {owner : String}
    (described : symbol.describe = "method of " ++ owner) : symbol.owner = some owner := by
  obtain ⟨name, kind, holder⟩ := symbol
  cases holder <;> cases kind <;>
    simp [describe, SymbolKind.word, String.ext_iff] at described ⊢
  exact described

theorem eq_of_describe_function {symbol : Symbol} (described : symbol.describe = "function") :
    symbol.owner = none ∧ symbol.kind = .function := by
  obtain ⟨name, kind, holder⟩ := symbol
  cases holder with
  | none => cases kind <;> simp [describe, SymbolKind.word] at described ⊢
  | some owner =>
      -- a description with an owner has a space in it
      have space : ' ' ∈ (describe ⟨name, kind, some owner⟩).toList := by simp [describe]
      rw [described] at space
      exact absurd space (by decide)

end Symbol

theorem SymbolTable.get?_of_describe {table : SymbolTable} {name text : String}
    (described : table.describe name = text) (nonempty : text ≠ "") :
    ∃ symbol, table.get? name = some symbol ∧ symbol.describe = text := by
  rw [SymbolTable.describe] at described
  split at described
  case h_1 symbol found => exact ⟨symbol, found, described⟩
  case h_2 => exact absurd described.symm nonempty

section Functions

variable {declarations : List Declaration} {name : String} {symbol : Symbol}

/-- A name that is classified as a function belongs to no type anywhere. -/
theorem ownerOf?_of_function
    (wellKinded : ∀ declaration ∈ declarations, declaration.WellKinded)
    (found : declaredSymbol? declarations name = some symbol) (free : symbol.owner = none)
    (function : symbol.kind = .function) {callable : Callable}
    (member : callable ∈ declarations.filterMap Declaration.callable?)
    (same : callable.name = name) : ownerOf? declarations callable = none := by
  rw [declaredSymbol?] at found
  split at found
  case h_1 kind typed =>
    obtain ⟨declaration, declared, declares⟩ := List.exists_of_findSome?_eq_some typed
    have isType := isType_of_typeKind? name (wellKinded declaration declared) declares
    rw [← Option.some.inj found] at function
    rw [show kind = .function from function] at isType
    exact absurd isType (by simp [SymbolKind.isType])
  case h_2 =>
    split at found
    case h_1 first chosen =>
      have owned := (mem_and_test_of_firstLeast? chosen).2
      rw [← Option.some.inj found] at free
      simp only [isMemberNamed, Bool.and_eq_true] at owned
      rw [show ownerOf? declarations first = none from free] at owned
      exact absurd owned.2 (by simp)
    case h_2 unowned =>
      have selects := selects_firstLeast? (·.position) (isMemberNamed declarations name)
        (declarations.filterMap Declaration.callable?)
      rw [unowned] at selects
      simpa [isMemberNamed, same] using selects callable member

end Functions

/-- A list of items that a cap does not cut short. -/
theorem itemLines_of_length_le (indent noun : String) {items : List String} {limit : Nat}
    (fits : items.length ≤ limit) :
    itemLines indent items (some ⟨limit, noun⟩) =
      items.map fun item => indent ++ itemMark ++ item := by
  simp [itemLines, Nat.sub_eq_zero_of_le fits, List.take_of_length_le fits]

namespace Python

/-- The callable that a function is declared as. -/
def FunctionBlock.callable (function : FunctionBlock) : Callable :=
  ⟨function.name, .method, function.position, some function.body, none⟩

/-- The scope of a class. -/
def ClassBlock.scope (block : ClassBlock) : Scope :=
  ⟨block.name, block.body⟩

/-- What an outline lists: each class with the functions in its block, and the functions
outside all blocks. -/
structure ClassListing where
  /-- The classes with the functions in their blocks. -/
  blocks : List (ClassBlock × List FunctionBlock)
  /-- The functions outside all blocks. -/
  free : List FunctionBlock

/-- The lines of an outline that is not cut short. -/
def ClassListing.lines (listing : ClassListing) : List String :=
  (listing.blocks.flatMap fun (block, methods) =>
    "" :: classLine block :: methods.map fun method => "  └── Method: " ++ method.signature) ++
  if listing.free.isEmpty then []
  else "" :: "Functions:" :: listing.free.map fun function => "  └── " ++ function.signature

section Blocks

variable (classes : List ClassBlock) (functions : List FunctionBlock)

/-- The innermost class around a position with its index. -/
def innermostClass? (position : Nat) : Option (ClassBlock × Nat) :=
  firstLeast? (·.1.body.length) (·.1.body.contains position) classes.zipIdx

theorem enclosingClass?_eq (position : Nat) :
    enclosingClass? classes position = (innermostClass? classes position).map (·.2) := by
  rw [innermostClass?, ← foldl_keepLeast_eq_firstLeast?, enclosingClass?]
  congr 2
  funext best candidate
  cases best <;> rfl

theorem filterMap_scope?_blockDeclarations :
    (blockDeclarations classes functions).filterMap Declaration.scope? =
      classes.map ClassBlock.scope := by
  have ofClass (block : ClassBlock) :
      (classDeclarations block).filterMap Declaration.scope? = [block.scope] := by
    simp [classDeclarations, Declaration.scope?, ClassBlock.scope, List.filterMap_map,
      Function.comp_def]
  have ofFunctions : (functions.map functionDeclaration).filterMap Declaration.scope? = [] := by
    simp [functionDeclaration, Declaration.function, Declaration.scope?]
  rw [blockDeclarations, List.filterMap_append, ofFunctions, List.append_nil,
    List.filterMap_flatMap]
  simp only [ofClass]
  rw [← List.map_eq_flatMap]

theorem filterMap_callable?_blockDeclarations :
    (blockDeclarations classes functions).filterMap Declaration.callable? =
      functions.map FunctionBlock.callable := by
  have ofClass (block : ClassBlock) :
      (classDeclarations block).filterMap Declaration.callable? = [] := by
    rw [List.filterMap_eq_nil_iff]
    simp only [classDeclarations, List.forall_mem_cons, List.forall_mem_map]
    exact ⟨rfl, fun _ _ => rfl⟩
  have ofClasses : (classes.flatMap classDeclarations).filterMap Declaration.callable? = [] := by
    rw [List.filterMap_flatMap, List.flatMap_eq_nil_iff]
    intro block _
    exact ofClass block
  rw [blockDeclarations, List.filterMap_append, ofClasses, List.nil_append, List.filterMap_map,
    ← List.filterMap_eq_map]
  rfl

/-- The search among the scopes chooses the class that the search by index chooses. -/
theorem firstLeast?_scopes (position : Nat) :
    firstLeast? (·.body.length) (·.body.contains position) (classes.map ClassBlock.scope) =
      (innermostClass? classes position).map (·.1.scope) := by
  have indexed : classes.map ClassBlock.scope = classes.zipIdx.map (·.1.scope) := by
    rw [← Function.comp_def ClassBlock.scope Prod.fst, ← List.map_map, List.zipIdx_map_fst]
  rw [indexed, firstLeast?_map]
  rfl

variable {classes}

theorem declaresType_blockDeclarations {block : ClassBlock} (member : block ∈ classes) :
    declaresType (blockDeclarations classes functions) block.name = true := by
  refine List.any_eq_true.mpr ⟨.type block.name .class (some block.body), ?_, ?_⟩
  · exact List.mem_append_left _ (List.mem_flatMap.mpr ⟨block, member, List.mem_cons_self⟩)
  · simp [Declaration.typeKind?]

theorem mem_of_innermostClass? {position : Nat} {found : ClassBlock × Nat}
    (chosen : innermostClass? classes position = some found) :
    found ∈ classes.zipIdx :=
  (mem_and_test_of_firstLeast? chosen).1

variable (classes)

theorem ownerOf?_callable (function : FunctionBlock) :
    ownerOf? (blockDeclarations classes functions) function.callable =
      (innermostClass? classes function.position).map (·.1.name) := by
  rw [ownerOf?, filterMap_scope?_blockDeclarations]
  simp only [FunctionBlock.callable, Option.none_or, firstLeast?_scopes]
  cases chosen : innermostClass? classes function.position with
  | none => rfl
  | some found =>
      have member : found.1 ∈ classes := List.fst_mem_of_mem_zipIdx (mem_of_innermostClass? chosen)
      simp [ClassBlock.scope, declaresType_blockDeclarations functions member]

/-- Every class with the functions whose innermost class it is, and the functions that no
class is around. -/
def listingOf : ClassListing where
  blocks := classes.zipIdx.map fun (block, index) =>
    (block, functions.filter (enclosingClass? classes ·.position == some index))
  free := functions.filter (enclosingClass? classes ·.position == none)

theorem functionsIn_locate (place : Option Nat) :
    functionsIn (locate classes functions) place =
      functions.filter (enclosingClass? classes ·.position == place) := by
  simp [functionsIn, locate, List.filter_map, Function.comp_def]

theorem listingOf_perm :
    ((listingOf classes functions).blocks.flatMap (·.2) ++
      (listingOf classes functions).free).Perm functions := by
  let places := classes.zipIdx.map (fun (_, index) => some index) ++ [none]
  have distinct : places.Nodup := by
    have indices : (classes.zipIdx.map (·.2)).Nodup := by
      rw [List.zipIdx_map_snd]
      exact List.nodup_range'
    have wrapped := indices.map (fun _ _ => Option.some.inj)
    rw [List.map_map] at wrapped
    refine List.nodup_append.mpr ⟨wrapped, by simp, ?_⟩
    intro place listed other single same
    obtain ⟨found, -, rfl⟩ := List.mem_map.mp listed
    rw [List.mem_singleton.mp single] at same
    exact absurd same (by simp)
  have covered : ∀ function ∈ functions, enclosingClass? classes function.position ∈ places := by
    intro function _
    rw [enclosingClass?_eq]
    cases chosen : innermostClass? classes function.position with
    | none => simp [places]
    | some found =>
        have member := mem_of_innermostClass? chosen
        exact List.mem_append_left _ (List.mem_map.mpr ⟨found, member, rfl⟩)
  have grouped := flatMap_filter_perm (fun function : FunctionBlock =>
    enclosingClass? classes function.position) distinct covered
  simp only [places, List.flatMap_append, List.flatMap_map, List.flatMap_singleton] at grouped
  simp only [listingOf, List.flatMap_map]
  exact grouped

/-- The class that heads a block owns the functions in it. -/
theorem ownerOf?_of_mem_blocks {block : ClassBlock} {methods : List FunctionBlock}
    (listed : (block, methods) ∈ (listingOf classes functions).blocks)
    {function : FunctionBlock} (member : function ∈ methods) :
    ownerOf? (blockDeclarations classes functions) function.callable = some block.name := by
  obtain ⟨⟨heading, index⟩, indexed, same⟩ := List.mem_map.mp listed
  obtain ⟨rfl, rfl⟩ := Prod.mk.inj same
  have placed : enclosingClass? classes function.position = some index := by
    simpa using (List.mem_filter.mp member).2
  rw [enclosingClass?_eq] at placed
  obtain ⟨found, chosen, rfl⟩ := Option.map_eq_some_iff.mp placed
  -- An index stands for one class only.
  have here : heading = found.1 := by
    have known := List.mem_zipIdx_iff_getElem?.mp (mem_of_innermostClass? chosen)
    rw [List.mem_zipIdx_iff_getElem?.mp indexed] at known
    exact Option.some.inj known
  rw [ownerOf?_callable, chosen, Option.map_some, here]

theorem ownerOf?_of_mem_free {function : FunctionBlock}
    (member : function ∈ (listingOf classes functions).free) :
    ownerOf? (blockDeclarations classes functions) function.callable = none := by
  have placed : enclosingClass? classes function.position = none := by
    simpa using (List.mem_filter.mp member).2
  rw [enclosingClass?_eq, Option.map_eq_none_iff] at placed
  rw [ownerOf?_callable, placed, Option.map_none]

variable {functions}

/-- A function stands in a block or outside all blocks. -/
theorem mem_blocks_or_mem_free {function : FunctionBlock} (member : function ∈ functions) :
    (∃ block methods, (block, methods) ∈ (listingOf classes functions).blocks ∧
        function ∈ methods) ∨
      function ∈ (listingOf classes functions).free := by
  have listed := (listingOf_perm classes functions).mem_iff.mpr member
  rcases List.mem_append.mp listed with inside | free
  · obtain ⟨⟨block, methods⟩, known, here⟩ := List.mem_flatMap.mp inside
    exact Or.inl ⟨block, methods, known, here⟩
  · exact Or.inr free

theorem mem_functions_of_mem_blocks {block : ClassBlock} {methods : List FunctionBlock}
    (listed : (block, methods) ∈ (listingOf classes functions).blocks)
    {function : FunctionBlock} (member : function ∈ methods) : function ∈ functions :=
  (listingOf_perm classes functions).mem_iff.mp
    (List.mem_append_left _ (List.mem_flatMap.mpr ⟨_, listed, member⟩))

theorem mem_free_iff {function : FunctionBlock} (member : function ∈ functions) :
    function ∈ (listingOf classes functions).free ↔
      ownerOf? (blockDeclarations classes functions) function.callable = none := by
  constructor
  · exact ownerOf?_of_mem_free classes functions
  · intro unowned
    rcases mem_blocks_or_mem_free classes member with ⟨block, methods, listed, inside⟩ | free
    · rw [ownerOf?_of_mem_blocks classes functions listed inside] at unowned
      exact absurd unowned (by simp)
    · exact free

theorem blockDeclarations_wellKinded (functions : List FunctionBlock) :
    ∀ declaration ∈ blockDeclarations classes functions, declaration.WellKinded :=
  fun declaration declared => (blockDeclarations_methodKinded declaration declared).wellKinded

theorem mem_ownedCallables {function : FunctionBlock} (member : function ∈ functions)
    {owner : Option String} :
    (function.callable, owner) ∈ ownedCallables (blockDeclarations classes functions) ↔
      ownerOf? (blockDeclarations classes functions) function.callable = owner := by
  rw [ownedCallables_eq (blockDeclarations_wellKinded classes functions), List.mem_map]
  constructor
  · rintro ⟨callable, -, same⟩
    obtain ⟨rfl, owned⟩ := Prod.mk.inj same
    exact owned
  · rintro rfl
    refine ⟨function.callable, mem_callablesByPosition.mpr ?_, rfl⟩
    rw [filterMap_callable?_blockDeclarations]
    exact List.mem_map_of_mem member

/-- A name that is classified as a member is listed in a block of its owner. -/
theorem exists_block_of_owner {name owner : String} {symbol : Symbol}
    (found : (classifyNames (blockDeclarations classes functions)).table.get? name =
      some symbol) (owned : symbol.owner = some owner) :
    ∃ block methods, (block, methods) ∈ (listingOf classes functions).blocks ∧
      block.name = owner ∧ ∃ function ∈ methods, function.name = name := by
  obtain ⟨callable, sorted, rfl, holder⟩ :=
    exists_callable_of_member (blockDeclarations_wellKinded classes functions) found owned
  rw [mem_callablesByPosition, filterMap_callable?_blockDeclarations] at sorted
  obtain ⟨function, member, rfl⟩ := List.mem_map.mp sorted
  rcases mem_blocks_or_mem_free classes member with ⟨block, methods, listed, inside⟩ | free
  · rw [ownerOf?_of_mem_blocks classes functions listed inside, Option.some.injEq] at holder
    exact ⟨block, methods, listed, holder, function, inside, rfl⟩
  · rw [ownerOf?_of_mem_free classes functions free] at holder
    exact absurd holder (by simp)

/-- A name that is classified as a function is listed in no block. -/
theorem name_ne_of_function {name : String} {symbol : Symbol}
    (found : (classifyNames (blockDeclarations classes functions)).table.get? name =
      some symbol) (free : symbol.owner = none) (kind : symbol.kind = .function)
    {block : ClassBlock} {methods : List FunctionBlock}
    (listed : (block, methods) ∈ (listingOf classes functions).blocks)
    {function : FunctionBlock} (member : function ∈ methods) : function.name ≠ name := by
  intro same
  have wellKinded := blockDeclarations_wellKinded classes functions
  rw [get?_classifyNames name wellKinded] at found
  have called : function.callable ∈
      (blockDeclarations classes functions).filterMap Declaration.callable? := by
    rw [filterMap_callable?_blockDeclarations]
    exact List.mem_map_of_mem (mem_functions_of_mem_blocks classes listed member)
  have unowned := ownerOf?_of_function wellKinded found free kind called same
  rw [ownerOf?_of_mem_blocks classes functions listed member] at unowned
  exact absurd unowned (by simp)

end Blocks

/-- With a cap that is not below the number of functions, the outline lists every function
under its innermost class. -/
theorem outline_eq_lines {context : RuleContext} {source : Text}
    {classes : List ClassBlock} {functions : List FunctionBlock}
    (read : blocks context.deadline source = .ok (classes, functions))
    (uncapped : functions.length ≤ context.caps.functions) :
    outline context source = .ok (listingOf classes functions).lines := by
  have fits (place : Option Nat) :
      (functions.filter (enclosingClass? classes ·.position == place)).length ≤
        context.caps.functions :=
    Nat.le_trans (List.length_filter_le _ _) uncapped
  have methodLine (signature : String) :
      "  " ++ itemMark ++ ("Method: " ++ signature) = "  └── Method: " ++ signature := by
    rw [← String.append_assoc]
    rfl
  have inBlock (index : Nat) :
      itemLines "  " ((functionsIn (locate classes functions) (some index)).map fun method =>
          "Method: " ++ method.signature) (some ⟨context.caps.functions, "methods"⟩) =
        (functions.filter (enclosingClass? classes ·.position == some index)).map fun method =>
          "  └── Method: " ++ method.signature := by
    rw [functionsIn_locate, itemLines_of_length_le, List.map_map]
    · simp only [Function.comp_def, methodLine]
    · rw [List.length_map]
      exact fits (some index)
  have outside : itemLines "  " ((functionsIn (locate classes functions) none).map
      (·.signature)) (some ⟨context.caps.functions, "functions"⟩) =
        (functions.filter (enclosingClass? classes ·.position == none)).map fun function =>
          "  └── " ++ function.signature := by
    rw [functionsIn_locate, itemLines_of_length_le, List.map_map]
    · rfl
    · rw [List.length_map]
      exact fits none
  simp only [outline, read]
  show Except.ok _ = Except.ok _
  congr 1
  simp only [inBlock, Section.lines, outside, ClassListing.lines, listingOf, List.flatMap_map]
  rw [functionsIn_locate, List.isEmpty_map]
  rfl

/-- Every function that is found in a Python text is listed once, in the block of a class
or outside all blocks.  The class that heads the block is the owner that the analysis finds
for the function, and the functions outside all blocks are those without owner.  So a name
that is described as a method of a class is listed in a block of a class of that name, and
a name that is described as a function is listed in no block. -/
theorem outline_lists_by_owner (context : RuleContext) (source : Text)
    (lasts : context.deadline.expired = false)
    (uncapped : (functionHeader.matchesIn source).length ≤ context.caps.functions) :
    ∃ (listing : ClassListing) (declared : List Declaration) (analysis : Analysis),
      outline context source = .ok listing.lines ∧
      declarations context.deadline source = .ok declared ∧
      relations context source = .ok analysis ∧
      resolve declared source context.deadline = .ok analysis ∧
      listing.blocks.map (·.1) = (classHeader.matchesIn source).map (classOf source) ∧
      (listing.blocks.flatMap (·.2) ++ listing.free).Perm
        ((functionHeader.matchesIn source).map (functionOf source)) ∧
      (∀ block methods, (block, methods) ∈ listing.blocks → ∀ function ∈ methods,
        (function.callable, some block.name) ∈ ownedCallables declared) ∧
      (∀ function ∈ (functionHeader.matchesIn source).map (functionOf source),
        function ∈ listing.free ↔ (function.callable, none) ∈ ownedCallables declared) ∧
      (∀ name owner, analysis.table.describe name = "method of " ++ owner →
        ∃ block methods, (block, methods) ∈ listing.blocks ∧ block.name = owner ∧
          ∃ function ∈ methods, function.name = name) ∧
      ∀ name, analysis.table.describe name = "function" →
        ∀ block methods, (block, methods) ∈ listing.blocks →
          ∀ function ∈ methods, function.name ≠ name := by
  have read := blocks_of_lasting lasts source
  have uncappedBlocks : ((functionHeader.matchesIn source).map
      (functionOf source)).length ≤ context.caps.functions := by
    rwa [List.length_map]
  generalize (classHeader.matchesIn source).map (classOf source) = classes at *
  generalize (functionHeader.matchesIn source).map (functionOf source) = functions at *
  have readDeclarations : declarations context.deadline source =
      .ok (blockDeclarations classes functions) := by
    simp only [declarations, read]
    rfl
  have resolved := resolve_of_lasting (blockDeclarations classes functions) source lasts
  have related : relations context source =
      resolve (blockDeclarations classes functions) source context.deadline := by
    simp only [relations, readDeclarations]
    rfl
  refine ⟨listingOf classes functions, _, _, outline_eq_lines read uncappedBlocks,
    readDeclarations, related.trans resolved, resolved, ?_, listingOf_perm classes functions,
    ?_, ?_, ?_, ?_⟩
  · simp only [listingOf, List.map_map, Function.comp_def]
    exact List.zipIdx_map_fst 0 classes
  · intro block methods listed function member
    rw [mem_ownedCallables classes (mem_functions_of_mem_blocks classes listed member)]
    exact ownerOf?_of_mem_blocks classes functions listed member
  · intro function member
    rw [mem_ownedCallables classes member]
    exact mem_free_iff classes member
  · intro name owner described
    obtain ⟨symbol, found, text⟩ := SymbolTable.get?_of_describe described (by simp)
    exact exists_block_of_owner classes found (Symbol.owner_of_describe_method text)
  · intro name described block methods listed function member
    obtain ⟨symbol, found, text⟩ := SymbolTable.get?_of_describe described (by simp)
    obtain ⟨free, kind⟩ := Symbol.eq_of_describe_function text
    exact name_ne_of_function classes found free kind listed member

/-- Two classes of one name, a class inside a class, and functions that are named like a
class and like a method. -/
def nestedClassText : Text :=
  ("class A:\n    def f(self): pass\n    class B(A):\n        def g(self): pass\n" ++
    "class A:\n    def f(self): pass\ndef B(): pass\ndef f(): pass\n").toList

theorem outline_lists_nestedClassText :
    Deadline.unbounded.expired = false ∧
      (functionHeader.matchesIn nestedClassText).length ≤ ({} : RuleContext).caps.functions ∧
      ∃ (listing : ClassListing) (declared : List Declaration) (analysis : Analysis),
        listing.lines =
          ["", "Class: A", "  └── Method: f(self)",
            "", "Class: B extends A", "  └── Method: g(self)",
            "", "Class: A", "  └── Method: f(self)",
            "", "Functions:", "  └── B()", "  └── f()"] ∧
        resolve declared nestedClassText .unbounded = .ok analysis ∧
        (∀ block methods, (block, methods) ∈ listing.blocks → ∀ function ∈ methods,
          (function.callable, some block.name) ∈ ownedCallables declared) ∧
        analysis.table.describe "g" = "method of B" ∧
        ∃ block methods, (block, methods) ∈ listing.blocks ∧ block.name = "B" ∧
          ∃ function ∈ methods, function.name = "g" := by
  have uncapped : (functionHeader.matchesIn nestedClassText).length ≤
      ({} : RuleContext).caps.functions := by
    decide +kernel
  obtain ⟨listing, declared, analysis, outlined, read, -, resolved, -, -, owned, -, methods, -⟩ :=
    outline_lists_by_owner {} nestedClassText rfl uncapped
  have lines : (outline {} nestedClassText).toOption = some
      ["", "Class: A", "  └── Method: f(self)",
        "", "Class: B extends A", "  └── Method: g(self)",
        "", "Class: A", "  └── Method: f(self)",
        "", "Functions:", "  └── B()", "  └── f()"] := by
    decide +kernel
  have stands : (declarations .unbounded nestedClassText).toOption.map
      (declaredSymbol? · "g") = some (some ⟨"g", .method, some "B"⟩) := by
    decide +kernel
  rw [outlined] at lines
  rw [read] at stands
  have described : analysis.table.describe "g" = "method of B" := by
    have wellKinded : ∀ declaration ∈ declared, declaration.WellKinded := by
      rw [declarations, blocks_of_lasting rfl] at read
      rw [← Except.ok.inj read]
      exact blockDeclarations_wellKinded _ _
    have symbol : declaredSymbol? declared "g" = some ⟨"g", .method, some "B"⟩ :=
      Option.some.inj stands
    rw [resolve_of_lasting _ _ rfl, Except.ok.injEq] at resolved
    rw [← resolved, SymbolTable.describe, get?_classifyNames "g" wellKinded, symbol]
    decide +kernel
  exact ⟨rfl, uncapped, listing, declared, analysis, Option.some.inj lines, resolved, owned,
    described, methods "g" "B" described⟩

end Python
end SourceAtlas
