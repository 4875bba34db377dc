import SourceAtlas.Proofs.Classification
import SourceAtlas.Rules.CFamily
import SourceAtlas.Rules.Python

/-!
# The declared names of a source text

A rule set reads the declared names of a text twice: straight from its patterns into the
set of declared names, and through the resolution of ownership into the symbol table.
Resolution skips a callable that is named like a type, a function whose name some type
owns, and every repetition, but each time the name stands in the table for another
reason.  So both readings give the same names.
-/

namespace SourceAtlas

/-- The name that a declaration introduces. -/
def Declaration.declaredName? : Declaration → Option String
  | type name _ _ => some name
  | callable declared => some declared.name
  | symbol name _ _ => some name
  | _ => none

/-- Types are declared with the kind of a type, and all callables as methods. -/
def Declaration.MethodKinded : Declaration → Prop
  | type _ kind _ => kind.isType = true
  | callable declared => declared.kind = .method
  | _ => True

theorem Declaration.MethodKinded.wellKinded {declaration : Declaration}
    (kinded : declaration.MethodKinded) : declaration.WellKinded := by
  cases declaration with
  | type name kind body => exact kinded
  | callable declared => exact Or.inl kinded
  | scope | base | symbol => trivial

section Table

variable {declarations : List Declaration} {name : String}

theorem declaredName?_of_declaredSymbol? {symbol : Symbol}
    (found : declaredSymbol? declarations name = some symbol) :
    ∃ declaration ∈ declarations, declaration.declaredName? = some name := by
  have ofCallable {callable : Callable}
      (member : callable ∈ declarations.filterMap Declaration.callable?)
      (same : callable.name = name) :
      ∃ declaration ∈ declarations, declaration.declaredName? = some name := by
    obtain ⟨declaration, declared, made⟩ := List.mem_filterMap.mp member
    refine ⟨declaration, declared, ?_⟩
    cases declaration <;> simp [Declaration.callable?] at made
    simp [Declaration.declaredName?, made, same]
  rcases declaredSymbol?_cases found with ⟨declaration, member, kind, declares, -⟩ |
    ⟨callable, member, same, -⟩ | ⟨callable, member, same, -⟩ |
    ⟨declaration, member, kind, declares, -⟩
  · refine ⟨declaration, member, ?_⟩
    cases declaration <;> simp [Declaration.typeKind?] at declares
    simp [Declaration.declaredName?, declares.1]
  · exact ofCallable member same
  · exact ofCallable member same
  · refine ⟨declaration, member, ?_⟩
    cases declaration <;> simp [Declaration.symbolKind?] at declares
    simp [Declaration.declaredName?, declares.1]

/-- If all callables are methods, no declared name is lost. -/
theorem declaredSymbol?_isSome_of_declared
    (kinded : ∀ declaration ∈ declarations, declaration.MethodKinded) {declaration : Declaration}
    (member : declaration ∈ declarations)
    (declares : declaration.declaredName? = some name) :
    (declaredSymbol? declarations name).isSome = true := by
  rw [declaredSymbol?]
  split
  · rfl
  case h_2 noType =>
    split
    · rfl
    · split
      · rfl
      case isFalse noFunction =>
        cases declaration with
        | type declared kind body =>
            have typed := List.findSome?_eq_none_iff.mp noType _ member
            simp_all [Declaration.typeKind?, Declaration.declaredName?]
        | callable declared =>
            have called : declared ∈ declarations.filterMap Declaration.callable? :=
              List.mem_filterMap.mpr ⟨_, member, rfl⟩
            have method : declared.kind = .method := kinded _ member
            refine absurd (List.any_eq_true.mpr ⟨declared, called, ?_⟩) noFunction
            simpa [method, Declaration.declaredName?] using declares
        | symbol declared kind body =>
            rw [Option.isSome_map, List.isSome_findSome?, List.any_eq_true]
            refine ⟨_, member, ?_⟩
            have same : declared = name := by
              simpa [Declaration.declaredName?] using declares
            simp [Declaration.symbolKind?, same]
        | scope | base => simp [Declaration.declaredName?] at declares

/-- If all callables are methods, the table holds exactly the declared names. -/
theorem exists_symbol_iff
    (kinded : ∀ declaration ∈ declarations, declaration.MethodKinded) :
    (∃ symbol ∈ (classifyNames declarations).table.symbols, symbol.name = name) ↔
      ∃ declaration ∈ declarations, declaration.declaredName? = some name := by
  have wellKinded : ∀ declaration ∈ declarations, declaration.WellKinded := by
    intro declaration member
    exact (kinded declaration member).wellKinded
  constructor
  · rintro ⟨symbol, member, same⟩
    have found := (SymbolTable.get?_eq_some_iff
      (classifyNames_names_nodup declarations)).mpr ⟨member, same⟩
    rw [get?_classifyNames name wellKinded] at found
    exact declaredName?_of_declaredSymbol? found
  · rintro ⟨declaration, member, declares⟩
    obtain ⟨symbol, found⟩ := Option.isSome_iff_exists.mp
      (declaredSymbol?_isSome_of_declared kinded member declares)
    rw [← get?_classifyNames name wellKinded] at found
    exact ⟨symbol, SymbolTable.mem_of_get? found, SymbolTable.name_of_get? found⟩

end Table

/-- Two readings of a text succeed, and the names of the symbols in one are the declared
names of the other together with some further names. -/
def SameNames (dependencies : Except Timeout Dependencies)
    (relations : Except Timeout Analysis) (further : List String) : Prop :=
  ∃ known analysis, dependencies = .ok known ∧ relations = .ok analysis ∧
    ∀ name, (∃ symbol ∈ analysis.table.symbols, symbol.name = name) ↔
      name ∈ known.symbols.toList ∨ name ∈ further

theorem Pattern.matchesWithin_of_lasting (pattern : Pattern) {deadline : Deadline}
    (lasts : deadline.expired = false) (text : Text) :
    pattern.matchesWithin deadline text = .ok (pattern.matchesIn text) := by
  simp [Pattern.matchesWithin, Deadline.check_of_lasting lasts, bind, Except.bind, pure,
    Except.pure]

theorem Pattern.firstWithin_of_lasting (pattern : Pattern) {deadline : Deadline}
    (lasts : deadline.expired = false) (text : Text) :
    pattern.firstWithin deadline text = .ok (pattern.firstMatch? text) := by
  simp [Pattern.firstWithin, Deadline.check_of_lasting lasts, bind, Except.bind, pure,
    Except.pure]

/-- What is left to show for a rule set: which names its declarations introduce. -/
theorem sameNames_of_declared (declarations : List Declaration) (source : Text)
    {dependencies : Except Timeout Dependencies} {relations : Except Timeout Analysis}
    {further : List String} {known : Dependencies} {deadline : Deadline}
    (lasts : deadline.expired = false)
    (read : dependencies = .ok known)
    (resolved : relations = resolve declarations source deadline)
    (kinded : ∀ declaration ∈ declarations, declaration.MethodKinded)
    (declared : ∀ name,
      (∃ declaration ∈ declarations, declaration.declaredName? = some name) ↔
        name ∈ known.symbols.toList ∨ name ∈ further) :
    SameNames dependencies relations further := by
  rw [resolve_of_lasting declarations source lasts] at resolved
  refine ⟨known, _, read, resolved, fun name => ?_⟩
  rw [← declared]
  exact exists_symbol_iff kinded

namespace Python

variable {deadline : Deadline}

theorem blocks_of_lasting (lasts : deadline.expired = false) (source : Text) :
    blocks deadline source =
      .ok ((classHeader.matchesIn source).map (classOf source),
        (functionHeader.matchesIn source).map (functionOf source)) := by
  simp [blocks, Pattern.matchesWithin_of_lasting _ lasts, bind, Except.bind, pure, Except.pure]

/-- What the classes and functions of a text declare. -/
def blockDeclarations (classes : List ClassBlock) (functions : List FunctionBlock) :
    List Declaration :=
  classes.flatMap classDeclarations ++ functions.map functionDeclaration

variable {classes : List ClassBlock} {functions : List FunctionBlock}

theorem blockDeclarations_methodKinded :
    ∀ declaration ∈ blockDeclarations classes functions, declaration.MethodKinded := by
  intro declaration member
  simp only [blockDeclarations, List.mem_append, List.mem_flatMap, List.mem_map,
    classDeclarations, List.mem_cons] at member
  rcases member with ⟨block, -, rfl | ⟨base, -, rfl⟩⟩ | ⟨block, -, rfl⟩
  · rfl
  · trivial
  · rfl

theorem blockDeclarations_declared (name : String) :
    (∃ declaration ∈ blockDeclarations classes functions,
        declaration.declaredName? = some name) ↔
      name ∈ classes.map (·.name) ++ functions.map (·.name) := by
  simp only [blockDeclarations, List.mem_append, List.mem_flatMap, List.mem_map,
    classDeclarations, List.mem_cons]
  constructor
  · rintro ⟨declaration, ⟨block, member, rfl | ⟨base, -, rfl⟩⟩ | ⟨block, member, rfl⟩, declares⟩
    · exact Or.inl ⟨block, member, Option.some.inj declares⟩
    · simp [Declaration.declaredName?] at declares
    · exact Or.inr ⟨block, member, Option.some.inj declares⟩
  · rintro (⟨block, member, rfl⟩ | ⟨block, member, rfl⟩)
    · exact ⟨_, Or.inl ⟨block, member, Or.inl rfl⟩, rfl⟩
    · exact ⟨_, Or.inr ⟨block, member, rfl⟩, rfl⟩

theorem sameNames (context : RuleContext) (source : Text)
    (lasts : context.deadline.expired = false) :
    SameNames (dependencies context source) (relations context source) [] := by
  have read := blocks_of_lasting lasts source
  generalize (classHeader.matchesIn source).map (classOf source) = classes at read
  generalize (functionHeader.matchesIn source).map (functionOf source) = functions at read
  apply sameNames_of_declared (blockDeclarations classes functions) source lasts
  · simp only [dependencies, Pattern.matchesWithin_of_lasting _ lasts,
      Pattern.firstWithin_of_lasting _ lasts, read]
    rfl
  · simp only [relations, declarations, read]
    rfl
  · exact blockDeclarations_methodKinded
  · intro name
    rw [blockDeclarations_declared, NameSet.mem_ofList]
    simp

end Python

namespace CFamily

variable {deadline : Deadline}

theorem functions_of_lasting (lasts : deadline.expired = false) (source : Text) :
    functions deadline source =
      .ok ((functionHeader.matchesIn source).filterMap (functionOf? source)) := by
  simp [functions, Pattern.matchesWithin_of_lasting _ lasts, bind, Except.bind, pure,
    Except.pure]

/-- The matches of a pattern that is only looked for in C++. -/
def cppMatches (dialect : Dialect) (pattern : Pattern) (source : Text) : List Match :=
  match dialect with
  | .c => []
  | .cpp => pattern.matchesIn source

theorem cppOnly_of_lasting (dialect : Dialect) (pattern : Pattern)
    (lasts : deadline.expired = false) (source : Text) :
    cppOnly dialect pattern deadline source = .ok (cppMatches dialect pattern source) := by
  cases dialect with
  | c => rfl
  | cpp => exact Pattern.matchesWithin_of_lasting pattern lasts source

/-- What the headers of a text declare. -/
def headerDeclarations (source : Text) (namespaces classes structs : List Match)
    (functions : List FunctionBlock) : List Declaration :=
  namespaces.map (fun found => .symbol (found.name 1) .namespace none) ++
    classes.flatMap (typeDeclarations source .class) ++
    structs.flatMap (typeDeclarations source .struct) ++
    functions.map functionDeclaration

/-- Whether its name is qualified or not, a function is declared as a method under the
last segment of its name. -/
theorem functionDeclaration_eq (function : FunctionBlock) :
    ∃ owner, functionDeclaration function = .callable
      ⟨String.ofList (Text.lastPathSegment function.name), .method, function.position,
        function.body, owner⟩ := by
  rw [functionDeclaration, Text.lastPathSegment]
  have separator : "::".toList = [':', ':'] := rfl
  rw [separator]
  cases Text.splitAtLast? [':', ':'] function.name with
  | none => exact ⟨none, rfl⟩
  | some parts => exact ⟨_, rfl⟩

variable {source : Text} {namespaces classes structs : List Match}
  {functions : List FunctionBlock}

/-- The declarations of a text: namespaces, types, bases and methods. -/
theorem mem_headerDeclarations {declaration : Declaration}
    (member : declaration ∈ headerDeclarations source namespaces classes structs functions) :
    (∃ found ∈ namespaces, declaration = .symbol (found.name 1) .namespace none) ∨
      (∃ found ∈ structs ++ classes, ∃ kind, kind.isType = true ∧
        declaration = .type (found.name 1) kind (found.braceBody? source)) ∨
      (∃ child parent, declaration = .base child parent) ∨
      ∃ function ∈ functions, declaration = functionDeclaration function := by
  simp only [headerDeclarations, List.mem_append, List.mem_flatMap, List.mem_map,
    typeDeclarations, List.mem_cons] at member
  rcases member with ((⟨found, known, rfl⟩ | ⟨found, known, rfl | ⟨base, -, rfl⟩⟩) |
    ⟨found, known, rfl | ⟨base, -, rfl⟩⟩) | ⟨function, known, rfl⟩
  · exact Or.inl ⟨found, known, rfl⟩
  · exact Or.inr (Or.inl ⟨found, List.mem_append_right _ known, .class, rfl, rfl⟩)
  · exact Or.inr (Or.inr (Or.inl ⟨_, _, rfl⟩))
  · exact Or.inr (Or.inl ⟨found, List.mem_append_left _ known, .struct, rfl, rfl⟩)
  · exact Or.inr (Or.inr (Or.inl ⟨_, _, rfl⟩))
  · exact Or.inr (Or.inr (Or.inr ⟨function, known, rfl⟩))

theorem headerDeclarations_methodKinded :
    ∀ declaration ∈ headerDeclarations source namespaces classes structs functions,
      declaration.MethodKinded := by
  intro declaration member
  obtain ⟨found, -, rfl⟩ | ⟨found, -, kind, typed, rfl⟩ | ⟨child, parent, rfl⟩ |
    ⟨function, -, rfl⟩ := mem_headerDeclarations member
  · trivial
  · exact typed
  · trivial
  · obtain ⟨owner, method⟩ := functionDeclaration_eq function
    rw [method]
    rfl

theorem headerDeclarations_declared (name : String) :
    (∃ declaration ∈ headerDeclarations source namespaces classes structs functions,
        declaration.declaredName? = some name) ↔
      name ∈ (structs ++ classes).map (·.name 1) ++
          functions.map (fun function => String.ofList (Text.lastPathSegment function.name)) ∨
        name ∈ namespaces.map (·.name 1) := by
  constructor
  · rintro ⟨declaration, member, declares⟩
    obtain ⟨found, known, rfl⟩ | ⟨found, known, kind, -, rfl⟩ | ⟨child, parent, rfl⟩ |
      ⟨function, known, rfl⟩ := mem_headerDeclarations member
    · exact Or.inr (List.mem_map.mpr ⟨found, known, Option.some.inj declares⟩)
    · exact Or.inl (List.mem_append_left _
        (List.mem_map.mpr ⟨found, known, Option.some.inj declares⟩))
    · simp [Declaration.declaredName?] at declares
    · obtain ⟨owner, method⟩ := functionDeclaration_eq function
      rw [method] at declares
      exact Or.inl (List.mem_append_right _
        (List.mem_map.mpr ⟨function, known, Option.some.inj declares⟩))
  · rintro (declared | declared)
    · rcases List.mem_append.mp declared with typed | called
      · obtain ⟨found, known, rfl⟩ := List.mem_map.mp typed
        rcases List.mem_append.mp known with struct | «class»
        · exact ⟨.type (found.name 1) .struct (found.braceBody? source), by
            simp only [headerDeclarations, List.mem_append, List.mem_flatMap]
            exact Or.inl (Or.inr ⟨found, struct, List.mem_cons_self⟩), rfl⟩
        · exact ⟨.type (found.name 1) .class (found.braceBody? source), by
            simp only [headerDeclarations, List.mem_append, List.mem_flatMap]
            exact Or.inl (Or.inl (Or.inr ⟨found, «class», List.mem_cons_self⟩)), rfl⟩
      · obtain ⟨function, known, rfl⟩ := List.mem_map.mp called
        obtain ⟨owner, method⟩ := functionDeclaration_eq function
        exact ⟨functionDeclaration function,
          List.mem_append_right _ (List.mem_map_of_mem known), by rw [method]; rfl⟩
    · obtain ⟨found, known, rfl⟩ := List.mem_map.mp declared
      exact ⟨.symbol (found.name 1) .namespace none, by
        simp only [headerDeclarations, List.mem_append, List.mem_map]
        exact Or.inl (Or.inl (Or.inl ⟨found, known, rfl⟩)), rfl⟩

theorem sameNames (dialect : Dialect) (context : RuleContext) (source : Text)
    (lasts : context.deadline.expired = false) :
    SameNames (dependencies dialect context source) (relations dialect context source)
      ((cppMatches dialect namespaceHeader source).map (·.name 1)) := by
  apply sameNames_of_declared (headerDeclarations source
    (cppMatches dialect namespaceHeader source) (cppMatches dialect classHeader source)
    (structHeader.matchesIn source)
    ((functionHeader.matchesIn source).filterMap (functionOf? source))) source lasts
  · simp only [dependencies, Pattern.matchesWithin_of_lasting _ lasts,
      cppOnly_of_lasting _ _ lasts, functions_of_lasting lasts]
    rfl
  · simp only [relations, declarations, Pattern.matchesWithin_of_lasting _ lasts,
      cppOnly_of_lasting _ _ lasts, functions_of_lasting lasts]
    rfl
  · exact headerDeclarations_methodKinded
  · intro name
    rw [headerDeclarations_declared, NameSet.mem_ofList]

end CFamily

/-- For every text, the symbols found with their relations have the names that are found
as declared names; in C++ the namespaces come in addition. -/
theorem relations_name_dependencies (context : RuleContext) (source : Text)
    (lasts : context.deadline.expired = false) :
    SameNames (Python.dependencies context source) (Python.relations context source) [] ∧
      SameNames (CFamily.dependencies .c context source)
        (CFamily.relations .c context source) [] ∧
      SameNames (CFamily.dependencies .cpp context source)
        (CFamily.relations .cpp context source)
        ((CFamily.namespaceHeader.matchesIn source).map (·.name 1)) :=
  ⟨Python.sameNames context source lasts, CFamily.sameNames .c context source lasts,
    CFamily.sameNames .cpp context source lasts⟩

/-- A structure with a method that is named like it, a function and a method that share a
name, and a namespace that is named like them. -/
def sharedNameText : Text :=
  "struct A \x7b\nvoid A();\n\x7d;\nvoid A::f() \x7b\x7d\nvoid f();\nnamespace f \x7b\x7d\n".toList

theorem relations_name_sharedNameText :
    Deadline.unbounded.expired = false ∧
      (CFamily.dependencies .cpp {} sharedNameText).toOption.map (·.symbols.toList) =
        some ["A", "f"] ∧
      ∃ analysis, CFamily.relations .cpp {} sharedNameText = .ok analysis ∧
        ∀ name, (∃ symbol ∈ analysis.table.symbols, symbol.name = name) ↔
          name ∈ ["A", "f"] ∨ name ∈ ["f"] := by
  obtain ⟨known, analysis, read, resolved, same⟩ :=
    (relations_name_dependencies {} sharedNameText rfl).2.2
  have symbols : (CFamily.dependencies .cpp {} sharedNameText).toOption.map
      (·.symbols.toList) = some ["A", "f"] := by
    decide +kernel
  have namespaces :
      (CFamily.namespaceHeader.matchesIn sharedNameText).map (·.name 1) = ["f"] := by
    decide +kernel
  rw [namespaces] at same
  refine ⟨rfl, symbols, analysis, resolved, ?_⟩
  rw [read] at symbols
  rw [← Option.some.inj symbols]
  exact same

end SourceAtlas
