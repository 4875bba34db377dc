import SourceAtlas.Proofs.InnermostScope
import SourceAtlas.Proofs.UsedWords

/-!
# Which symbols inherit and own methods

A method is given to an owner only if that is a declared type.  Bases are collected under
names instead, and nothing asks what the name turns out to be: every symbol that is no member
gets the bases of its name.  So only types own methods, but a function inherits if it has the
name of a type that is declared elsewhere and implemented here.
-/

namespace SourceAtlas

/-- Whether a relation is inheritance or ownership. -/
def Relation.isStructural : Relation → Bool
  | inheritsFrom _ | hasMethod _ => true
  | uses _ => false

/-- Whatever inherits or owns methods is a type. -/
def Analysis.OnlyTypesStructured (analysis : Analysis) : Prop :=
  ∀ name relation, relation ∈ analysis.relations.get name → relation.isStructural = true →
    analysis.table.hasType name = true

theorem SymbolTable.hasType_of_mem {table : SymbolTable}
    (distinct : (table.symbols.map (·.name)).Nodup) {symbol : Symbol}
    (known : symbol ∈ table.symbols) : table.hasType symbol.name = symbol.kind.isType := by
  have found : table.get? symbol.name = some symbol :=
    (get?_eq_some_iff distinct).mpr ⟨known, rfl⟩
  rw [hasType, found, Option.any_some]

namespace Classification

section Methods

variable {namesOwned : List String} {known : Classification} {pair : String × String}

theorem mem_add_methods {owned : Callable × Option String}
    (member : pair ∈ (known.add namesOwned owned).methods) :
    pair ∈ known.methods ∨ owned.2 = some pair.1 := by
  obtain ⟨callable, owner⟩ := owned
  by_cases typed : known.table.hasType callable.name = true
  · left
    simpa [add, typed] using member
  · have entered : pair ∈ (known.enter namesOwned callable owner).methods := by
      cases given : callable.body <;> simpa [add, typed, given] using member
    rw [enter_methods, List.mem_append, Option.mem_toList] at entered
    rcases entered with old | new
    · exact Or.inl old
    · right
      cases owner with
      | none => simp [ownedMethod?] at new
      | some owner =>
          rw [ownedMethod?, Option.ite_none_right_eq_some] at new
          rw [← Option.some.inj new.2]

theorem mem_foldl_add_methods {callables : List (Callable × Option String)}
    (member : pair ∈ (callables.foldl (add namesOwned) known).methods) :
    pair ∈ known.methods ∨ ∃ owned ∈ callables, owned.2 = some pair.1 := by
  induction callables generalizing known with
  | nil => exact Or.inl member
  | cons owned callables ih =>
      rcases ih member with before | ⟨later, listed, owns⟩
      · rcases mem_add_methods before with old | owns
        · exact Or.inl old
        · exact Or.inr ⟨owned, List.mem_cons_self, owns⟩
      · exact Or.inr ⟨later, List.mem_cons_of_mem _ listed, owns⟩

end Methods

variable (known : Classification) (declarations : List Declaration) (source : Text)
  (symbol : Symbol)

theorem inheritsFrom_mem_relationsOf_iff (parent : String) :
    .inheritsFrom parent ∈ known.relationsOf declarations source symbol ↔
      .base symbol.name parent ∈ declarations ∧ parent ≠ "object" := by
  have recorded : (∃ declaration ∈ declarations,
      declaration.baseOf? symbol.name = some parent) ↔
        .base symbol.name parent ∈ declarations := by
    constructor
    · rintro ⟨declaration, member, given⟩
      cases declaration with
      | base child declared =>
          rw [Declaration.baseOf?, Option.ite_none_right_eq_some] at given
          obtain ⟨rfl, same⟩ := given
          rwa [← Option.some.inj same]
      | type | scope | callable | symbol => simp [Declaration.baseOf?] at given
    · intro member
      exact ⟨_, member, by simp [Declaration.baseOf?]⟩
  simp [relationsOf, recorded, implicitBases]

theorem hasMethod_mem_relationsOf_iff (method : String) :
    .hasMethod method ∈ known.relationsOf declarations source symbol ↔
      (symbol.name, method) ∈ known.methods := by
  simp [relationsOf]

end Classification

section Resolved

variable {declarations : List Declaration}

theorem hasType_of_mem_methods {owner method : String}
    (member : (owner, method) ∈ (classifyNames declarations).methods) :
    (classifyNames declarations).table.hasType owner = true := by
  have declared : (typeTable declarations).hasType owner = true := by
    rcases Classification.mem_foldl_add_methods member with none | ⟨owned, listed, owns⟩
    · simp at none
    · exact hasType_of_mem_ownedCallables listed owns
  -- The types come first, and later symbols of the same name are not entered.
  rw [classifyNames_table, SymbolTable.hasType, SymbolTable.get?_insertAll_of_contains
    (SymbolTable.contains_of_hasType declared)]
  exact declared

variable (source : Text) {name : String}

theorem hasType_of_hasMethod_mem_get {method : String}
    (related : .hasMethod method ∈ ((foundRelations declarations source).foldl
      (fun map (name, relations) => map.pushAll name relations) ({} : RelationMap)).get name) :
    (classifyNames declarations).table.hasType name = true := by
  obtain ⟨symbol, -, -, rfl, found⟩ :=
    (mem_get_iff_exists_symbol declarations source).mp related
  rw [Classification.hasMethod_mem_relationsOf_iff] at found
  exact hasType_of_mem_methods found

theorem inheritsFrom_mem_get_iff {parent : String} :
    .inheritsFrom parent ∈ ((foundRelations declarations source).foldl
        (fun map (name, relations) => map.pushAll name relations) ({} : RelationMap)).get name ↔
      (.base name parent ∈ declarations ∧ parent ≠ "object") ∧
        ∃ symbol ∈ (classifyNames declarations).table.symbols,
          symbol.name = name ∧ symbol.isMember = false := by
  rw [mem_get_iff_exists_symbol]
  simp only [Classification.inheritsFrom_mem_relationsOf_iff]
  constructor
  · rintro ⟨symbol, known, free, rfl, recorded⟩
    exact ⟨recorded, symbol, known, rfl, free⟩
  · rintro ⟨recorded, symbol, known, rfl, free⟩
    exact ⟨symbol, known, free, rfl, recorded⟩

end Resolved

/-- Only types own methods.  A symbol inherits what is recorded under its name, unless it is a
member, so whatever inherits is a type exactly if bases are recorded for no other symbol. -/
theorem resolve_structures (declarations : List Declaration) (source : Text)
    (deadline : Deadline) (lasts : deadline.expired = false) :
    ∃ analysis, resolve declarations source deadline = .ok analysis ∧
      (∀ name method, .hasMethod method ∈ analysis.relations.get name →
        analysis.table.hasType name = true) ∧
      (∀ name parent, .inheritsFrom parent ∈ analysis.relations.get name ↔
        (.base name parent ∈ declarations ∧ parent ≠ "object") ∧
          ∃ symbol ∈ analysis.table.symbols, symbol.name = name ∧ symbol.isMember = false) ∧
      (analysis.OnlyTypesStructured ↔
        ∀ symbol ∈ analysis.table.symbols, symbol.isMember = false →
          (∃ parent, .base symbol.name parent ∈ declarations ∧ parent ≠ "object") →
            symbol.kind.isType = true) := by
  have distinct := classifyNames_names_nodup declarations
  refine ⟨_, resolve_of_lasting declarations source lasts, fun _ _ => hasType_of_hasMethod_mem_get source,
    fun _ _ => inheritsFrom_mem_get_iff source, ?_, ?_⟩
  · rintro typed symbol known free ⟨parent, recorded⟩
    rw [← SymbolTable.hasType_of_mem distinct known]
    exact typed symbol.name (.inheritsFrom parent)
      ((inheritsFrom_mem_get_iff source).mpr ⟨recorded, symbol, known, rfl, free⟩) rfl
  · intro recordedForTypes name relation related structural
    cases relation with
    | inheritsFrom parent =>
        obtain ⟨recorded, symbol, known, rfl, free⟩ := (inheritsFrom_mem_get_iff source).mp related
        rw [SymbolTable.hasType_of_mem distinct known]
        exact recordedForTypes symbol known free ⟨parent, recorded⟩
    | hasMethod method => exact hasType_of_hasMethod_mem_get source related
    | uses target => cases structural

/-- A class with a base and a method, and a function that is named like no type. -/
def derivedClass : List Declaration :=
  [.type "Circle" .class (some ⟨0, 20⟩), .base "Circle" "Shape", .function "area" 10 none,
    .function "main" 30 none]

theorem resolve_structures_derivedClass :
    Deadline.unbounded.expired = false ∧
      ∃ analysis, resolve derivedClass [] .unbounded = .ok analysis ∧
        .inheritsFrom "Shape" ∈ analysis.relations.get "Circle" ∧
        .hasMethod "area" ∈ analysis.relations.get "Circle" ∧
        analysis.OnlyTypesStructured := by
  obtain ⟨analysis, resolved, -, heirs, typed⟩ :=
    resolve_structures derivedClass [] .unbounded rfl
  have evaluated : resolve derivedClass [] .unbounded = .ok
      ⟨⟨[⟨"Circle", .class, none⟩, ⟨"area", .method, some "Circle"⟩,
          ⟨"main", .function, none⟩]⟩,
        ⟨[("Circle", [.inheritsFrom "Shape", .hasMethod "area"])]⟩⟩ := by
    rw [resolve_of_lasting _ _ rfl, foundRelations, classifyNames, ownedCallables,
      callablesByPosition_of_ascending (by decide)]
    decide +kernel
  rw [evaluated, Except.ok.injEq] at resolved
  subst resolved
  refine ⟨rfl, _, evaluated, by decide +kernel, by decide +kernel, typed.mpr ?_⟩
  simp [derivedClass, Declaration.function, SymbolKind.isType]

/-- A trait is implemented for a type that the text does not declare, and a function has the
name of that type. -/
def implementedNameText : Text :=
  "use shapes::area;\nimpl Shape for area \x7b\x7d\nfn area() \x7b\x7d\n".toList

def implementedName : List Declaration :=
  [.scope "area" ⟨39, 39⟩, .base "area" "trait:Shape", .function "area" 44 (some ⟨52, 52⟩)]

/-- A function inherits from a trait. -/
theorem implemented_function_inherits :
    (Rust.declarations .unbounded implementedNameText).toOption = some implementedName ∧
      ∃ analysis, resolve implementedName implementedNameText .unbounded = .ok analysis ∧
        analysis.table.get? "area" = some ⟨"area", .function, none⟩ ∧
        .inheritsFrom "trait:Shape" ∈ analysis.relations.get "area" ∧
        ¬analysis.OnlyTypesStructured := by
  refine ⟨by decide +kernel, ⟨⟨[⟨"area", .function, none⟩]⟩,
    ⟨[("area", [.inheritsFrom "trait:Shape"])]⟩⟩, by decide +kernel, rfl, by decide +kernel, ?_⟩
  intro typed
  have inherits := typed "area" (.inheritsFrom "trait:Shape") (by decide +kernel) rfl
  exact absurd inherits (by decide +kernel)

end SourceAtlas
