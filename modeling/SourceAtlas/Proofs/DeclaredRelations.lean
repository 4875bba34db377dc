import Mathlib.Data.List.Nodup
import SourceAtlas.Proofs.CallableOrder
import SourceAtlas.Proofs.Classification
import SourceAtlas.Proofs.RelationMap

/-!
# The relations between declared names

While callables are classified, their owners and bodies are collected on the side, under
conditions on the table as it is at that moment.  Here the collected lists are described
by the finished table, and the relations of every symbol are read off the declarations:
`declaredRelations` lists them, and `resolve` finds exactly these.
-/

namespace SourceAtlas

/-- The body that a declaration gives to a type or plain symbol of some name. -/
def Declaration.bodyOf? (name : String) : Declaration → Option Span
  | type declared _ body | symbol declared _ body => if declared = name then body else none
  | _ => none

/-- The body of a name: the first one of a type or plain symbol of that name, or else, for
a name that is no type, that of the first callable by position that has one. -/
def declaredBody? (declarations : List Declaration) (name : String) : Option Span :=
  (declarations.findSome? (Declaration.bodyOf? name)).or
    (if declaresType declarations name then none
    else
      (firstLeast? (·.position)
        (fun callable => callable.name == name && callable.body.isSome)
        (declarations.filterMap Declaration.callable?)).bind (·.body))

/-- Whether a callable belongs to a type, and its name is classified as a member of that
type. -/
def isMethodOf (declarations : List Declaration) (table : SymbolTable) (owner : String)
    (callable : Callable) : Bool :=
  ownerOf? declarations callable == some owner &&
    (table.get? callable.name).any (·.owner == some owner)

/-- The symbols whose names occur in the body of a symbol, in the order of the table.
Members and namespaces are left out, and so is the symbol itself. -/
def usedSymbols (declarations : List Declaration) (source : Text) (table : SymbolTable)
    (symbol : Symbol) : List Symbol :=
  match declaredBody? declarations symbol.name with
  | none => []
  | some body =>
      let limit := if symbol.kind.isType then 2000 else 1000
      let seen := Text.words (Text.boundedSlice source body limit)
      table.symbols.filter fun target =>
        (!target.isMember && target.kind != .namespace) &&
          (target.name != symbol.name && seen.contains target.name.toList)

/-- The relations of a symbol: its bases in the order of their declaration, its methods by
position, and the symbols it uses. -/
def declaredRelations (declarations : List Declaration) (source : Text)
    (table : SymbolTable) (symbol : Symbol) : List Relation :=
  ((declarations.filterMap (Declaration.baseOf? symbol.name)).filter (· != "object")).map
      .inheritsFrom ++
    ((callablesByPosition declarations).filter
      (isMethodOf declarations table symbol.name)).map (fun callable => .hasMethod callable.name) ++
    (usedSymbols declarations source table symbol).map fun target => .uses target.name

namespace SymbolTable

/-- No type of the table belongs to another one. -/
def TypesUnowned (table : SymbolTable) : Prop :=
  ∀ name symbol, table.get? name = some symbol → symbol.kind.isType = true →
    symbol.owner = none

variable {table : SymbolTable} {symbols : List Symbol}

theorem get?_insertAll_of_contains {name : String} (classified : table.contains name = true)
    (symbols : List Symbol) : (table.insertAll symbols).get? name = table.get? name := by
  rw [contains_eq_isSome_get?] at classified
  obtain ⟨symbol, found⟩ := Option.isSome_iff_exists.mp classified
  rw [get?_insertAll, found, Option.some_or]

/-- Symbols that are no types change nothing about which names are types. -/
theorem hasType_insertAll (noTypes : ∀ symbol ∈ symbols, symbol.kind.isType = false)
    (name : String) : (table.insertAll symbols).hasType name = table.hasType name := by
  rw [hasType, hasType, get?_insertAll]
  cases table.get? name with
  | some symbol => rfl
  | none =>
      cases found : symbols.find? (·.name == name) with
      | none => rfl
      | some symbol => simp [noTypes symbol (List.mem_of_find?_eq_some found)]

theorem TypesUnowned.insertAll (unowned : table.TypesUnowned)
    (noTypes : ∀ symbol ∈ symbols, symbol.kind.isType = false) :
    (table.insertAll symbols).TypesUnowned := by
  intro name symbol found typed
  rw [get?_insertAll, Option.or_eq_some_iff] at found
  rcases found with old | ⟨-, new⟩
  · exact unowned name symbol old typed
  · rw [noTypes symbol (List.mem_of_find?_eq_some new)] at typed
    exact absurd typed (by simp)

end SymbolTable

theorem calledSymbol?_isType {namesOwned : List String} {owned : Callable × Option String}
    (noType : owned.1.kind.isType = false) :
    ∀ symbol ∈ (calledSymbol? namesOwned owned).toList, symbol.kind.isType = false := by
  intro symbol entered
  obtain ⟨-, -, same | function⟩ := calledSymbol?_spec (Option.mem_toList.mp entered)
  · rw [same, noType]
  · rw [function]
    rfl

/-- The pair of owner and method that a callable gives, if a table agrees. -/
def ownedMethod? (table : SymbolTable) : Callable × Option String → Option (String × String)
  | (callable, some owner) =>
      if (table.get? callable.name).any (·.owner == some owner) then
        some (owner, callable.name)
      else none
  | (_, none) => none

/-- The body of a callable under its name, unless a table knows the name as a type. -/
def namedBody? (table : SymbolTable) (owned : Callable × Option String) :
    Option (String × Span) :=
  if table.hasType owned.1.name then none
  else owned.1.body.map fun body => (owned.1.name, body)

namespace Classification

variable (namesOwned : List String) (known : Classification)

theorem enter_bodies (callable : Callable) (owner : Option String) :
    (known.enter namesOwned callable owner).bodies = known.bodies := by
  cases owner with
  | some owner =>
      simp only [enter, addMethod]
      split <;> rfl
  | none =>
      simp only [enter]
      split <;> rfl

theorem add_bodies (owned : Callable × Option String) :
    (known.add namesOwned owned).bodies =
      known.bodies ++ (namedBody? known.table owned).toList := by
  obtain ⟨callable, owner⟩ := owned
  simp only [add, namedBody?]
  split
  · simp
  · cases callable.body <;> simp [enter_bodies]

theorem enter_methods (callable : Callable) (owner : Option String) :
    (known.enter namesOwned callable owner).methods =
      known.methods ++
        (ownedMethod? (known.enter namesOwned callable owner).table
          (callable, owner)).toList := by
  cases owner with
  | some owner =>
      simp only [enter, ownedMethod?, addMethod]
      split <;> simp
  | none =>
      simp only [enter, ownedMethod?]
      split <;> simp

theorem add_methods_eq_ite (owned : Callable × Option String) :
    (known.add namesOwned owned).methods =
      known.methods ++
        if known.table.hasType owned.1.name then []
        else (ownedMethod? (known.add namesOwned owned).table owned).toList := by
  obtain ⟨callable, owner⟩ := owned
  have entered := enter_methods namesOwned known callable owner
  by_cases typed : known.table.hasType callable.name = true
  · simp [add, typed]
  · simp only [add, typed]
    cases callable.body <;> exact entered

/-- A callable that is named like a type gives no method: the record under its name has
no owner. -/
theorem add_methods (unowned : known.table.TypesUnowned)
    (owned : Callable × Option String) :
    (known.add namesOwned owned).methods =
      known.methods ++ (ownedMethod? (known.add namesOwned owned).table owned).toList := by
  rw [add_methods_eq_ite]
  split
  case isTrue typed =>
    obtain ⟨callable, owner⟩ := owned
    have passed : known.add namesOwned (callable, owner) = known := by simp [add, typed]
    rw [passed]
    cases owner with
    | none => simp [ownedMethod?]
    | some owner =>
        cases found : known.table.get? callable.name with
        | none => simp [ownedMethod?, found]
        | some symbol =>
            have free : symbol.owner = none :=
              unowned callable.name symbol found (by simpa [SymbolTable.hasType, found] using typed)
            simp [ownedMethod?, found, free]
  case isFalse => rfl

variable {namesOwned known} {callables : List (Callable × Option String)}

theorem foldl_add_bodies (members : ∀ owned ∈ callables, owned.1.kind.isType = false) :
    (callables.foldl (add namesOwned) known).bodies =
      known.bodies ++ callables.filterMap (namedBody? known.table) := by
  induction callables generalizing known with
  | nil => simp
  | cons owned callables ih =>
      have sameTypes : namedBody? (known.add namesOwned owned).table =
          namedBody? known.table := by
        funext other
        rw [namedBody?, namedBody?, add_table,
          SymbolTable.hasType_insertAll (calledSymbol?_isType (members owned List.mem_cons_self))]
      rw [List.foldl_cons, ih fun other later => members other (List.mem_cons_of_mem _ later),
        add_bodies, sameTypes, List.append_assoc]
      cases given : namedBody? known.table owned <;> simp [given]

/-- A name that has been entered with an owner stays as it is, so the finished table
agrees on the method if and only if the present one does. -/
theorem ownedMethod?_insertAll (owned : Callable × Option String) (later : List Symbol) :
    ownedMethod? ((known.add namesOwned owned).table.insertAll later) owned =
      ownedMethod? (known.add namesOwned owned).table owned := by
  obtain ⟨callable, owner⟩ := owned
  cases owner with
  | none => rfl
  | some owner =>
      have classified :
          (known.add namesOwned (callable, some owner)).table.contains callable.name = true := by
        rw [SymbolTable.contains_eq_isSome_get?, add_table, SymbolTable.get?_insertAll]
        simp [calledSymbol?]
      rw [ownedMethod?, ownedMethod?, SymbolTable.get?_insertAll_of_contains classified]

theorem foldl_add_methods (known : Classification)
    (members : ∀ owned ∈ callables, owned.1.kind.isType = false)
    (unowned : known.table.TypesUnowned) (later : List Symbol) :
    (callables.foldl (add namesOwned) known).methods =
      known.methods ++ callables.filterMap
        (ownedMethod? ((callables.foldl (add namesOwned) known).table.insertAll later)) := by
  induction callables generalizing known with
  | nil => simp
  | cons owned callables ih =>
      have noType := members owned List.mem_cons_self
      have stillUnowned : (known.add namesOwned owned).table.TypesUnowned := by
        rw [add_table]
        exact unowned.insertAll (calledSymbol?_isType noType)
      rw [List.foldl_cons,
        ih _ (fun other behind => members other (List.mem_cons_of_mem _ behind)) stillUnowned,
        add_methods namesOwned known unowned, List.append_assoc]
      congr 1
      -- The finished table extends the one right behind this callable.
      have here : ownedMethod? ((callables.foldl (add namesOwned)
            (known.add namesOwned owned)).table.insertAll later) owned =
          ownedMethod? (known.add namesOwned owned).table owned := by
        rw [foldl_add_table, ← SymbolTable.insertAll_append, ownedMethod?_insertAll]
      rw [List.filterMap_cons, here]
      cases ownedMethod? (known.add namesOwned owned).table owned <;> rfl

end Classification

section Classified

variable {declarations : List Declaration}

theorem typeTable_typesUnowned : (typeTable declarations).TypesUnowned := by
  intro name symbol found _
  exact owner_of_mem_typeTable (SymbolTable.mem_of_get? found)

theorem filter_ownedMethod? (table : SymbolTable) (owner : String) (callable : Callable) :
    ((ownedMethod? table (callable, ownerOf? declarations callable)).filter
        (·.1 == owner)).map (·.2) =
      if isMethodOf declarations table owner callable then some callable.name else none := by
  rw [isMethodOf]
  cases ownerOf? declarations callable with
  | none => rfl
  | some holder =>
      rw [ownedMethod?]
      by_cases same : holder = owner
      · subst same
        split <;> simp_all
      · split <;> simp [same]

theorem lookup_filterMap {α : Type} (items : List α) (pair? : α → Option (String × Span))
    (name : String) :
    (items.filterMap pair?).lookup name =
      items.findSome? fun item => (pair? item).bind fun (declared, body) =>
        if name == declared then some body else none := by
  rw [List.lookup_eq_findSome?, ← List.head?_filterMap, List.filterMap_filterMap,
    List.head?_filterMap]

theorem lookup_filterMap_body? (declarations : List Declaration) (name : String) :
    (declarations.filterMap Declaration.body?).lookup name =
      declarations.findSome? (Declaration.bodyOf? name) := by
  rw [lookup_filterMap]
  congr 1
  funext declaration
  cases declaration with
  | type declared kind body | symbol declared kind body =>
      by_cases same : name = declared
      · cases body <;> simp [Declaration.body?, Declaration.bodyOf?, same]
      · cases body <;> simp [Declaration.body?, Declaration.bodyOf?, same, Ne.symm same]
  | scope | base | callable => rfl

theorem findSome?_body_eq_bind_find? (callables : List Callable) (name : String) :
    callables.findSome? (fun callable => if callable.name == name then callable.body else none) =
      (callables.find? fun callable => callable.name == name && callable.body.isSome).bind
        (·.body) := by
  induction callables with
  | nil => rfl
  | cons callable callables ih =>
      rw [List.findSome?_cons, List.find?_cons]
      cases callable.name == name with
      | false => exact ih
      | true =>
          cases given : callable.body with
          | none => exact ih
          | some body => simp [given]

theorem contains_map_ofList (words : List Text) (name : String) :
    (words.map String.ofList).contains name = words.contains name.toList := by
  rw [Bool.eq_iff_iff, List.contains_iff_mem, List.contains_iff_mem, List.mem_map]
  constructor
  · rintro ⟨word, member, rfl⟩
    rwa [String.toList_ofList]
  · intro member
    exact ⟨name.toList, member, String.ofList_toList⟩

theorem foundRelations_names_nodup (declarations : List Declaration) (source : Text) :
    ((foundRelations declarations source).map (·.1)).Nodup := by
  rw [foundRelations, List.map_map]
  exact (classifyNames_names_nodup declarations).sublist (List.filter_sublist.map _)

theorem count_uses_declaredRelations {table : SymbolTable}
    (distinct : (table.symbols.map (·.name)).Nodup) (source : Text) (symbol : Symbol)
    (target : String) :
    (declaredRelations declarations source table symbol).count (.uses target) ≤ 1 := by
  have usedOnce : ((usedSymbols declarations source table symbol).map (·.name)).Nodup := by
    rw [usedSymbols]
    split
    · exact List.nodup_nil
    · exact distinct.sublist (List.filter_sublist.map _)
  have relatedOnce : ((usedSymbols declarations source table symbol).map fun used =>
      Relation.uses used.name).Nodup := by
    have mapped := usedOnce.map fun _ _ => Relation.uses.inj
    rwa [List.map_map] at mapped
  rw [declaredRelations, List.count_append, List.count_append]
  have noBase : (((declarations.filterMap (Declaration.baseOf? symbol.name)).filter
      (· != "object")).map Relation.inheritsFrom).count (.uses target) = 0 := by
    simp [List.count_eq_zero]
  have noMethod : (((callablesByPosition declarations).filter
      (isMethodOf declarations table symbol.name)).map fun callable =>
        Relation.hasMethod callable.name).count (.uses target) = 0 := by
    simp [List.count_eq_zero]
  have atMostOnce := List.nodup_iff_count.mp relatedOnce (Relation.uses target)
  omega

variable (wellKinded : ∀ declaration ∈ declarations, declaration.WellKinded)

include wellKinded

theorem members_of_wellKinded :
    ∀ owned ∈ ownedCallables declarations, owned.1.kind.isType = false := by
  intro owned member
  rw [ownedCallables_eq wellKinded] at member
  obtain ⟨callable, sorted, rfl⟩ := List.mem_map.mp member
  obtain ⟨declaration, declared, made⟩ :=
    List.mem_filterMap.mp (mem_callablesByPosition.mp sorted)
  have kinded := wellKinded declaration declared
  cases declaration <;> simp [Declaration.callable?] at made
  subst made
  rcases kinded with method | property
  · simp [method, SymbolKind.isType]
  · simp [property, SymbolKind.isType]

theorem classifyNames_methods :
    (classifyNames declarations).methods =
      (ownedCallables declarations).filterMap
        (ownedMethod? (classifyNames declarations).table) := by
  exact Classification.foldl_add_methods
    ⟨typeTable declarations, [], declarations.filterMap Declaration.body?⟩
    (members_of_wellKinded wellKinded) typeTable_typesUnowned
    (declarations.filterMap Declaration.plainSymbol?)

theorem classifyNames_bodies :
    (classifyNames declarations).bodies =
      declarations.filterMap Declaration.body? ++
        (ownedCallables declarations).filterMap (namedBody? (typeTable declarations)) := by
  rw [classifyNames, Classification.foldl_add_bodies (members_of_wellKinded wellKinded)]

/-- The methods collected for a type are its callables, as far as the table agrees. -/
theorem methods_of_owner (owner : String) :
    ((classifyNames declarations).methods.filter (·.1 == owner)).map (·.2) =
      ((callablesByPosition declarations).filter
        (isMethodOf declarations (classifyNames declarations).table owner)).map (·.name) := by
  rw [classifyNames_methods wellKinded, ownedCallables_eq wellKinded, List.filterMap_map,
    List.filter_filterMap, List.map_filterMap, ← List.filterMap_eq_filter, List.map_filterMap]
  congr 1
  funext callable
  rw [Function.comp_apply, filter_ownedMethod?, Option.guard]
  split <;> rfl

/-- A body is found under a name only if the callable has that name and no type has. -/
theorem lookup_namedBody? (name : String) (owned : Callable × Option String) :
    ((namedBody? (typeTable declarations) owned).bind fun (declared, body) =>
        if name == declared then some body else none) =
      if !declaresType declarations name && owned.1.name == name then owned.1.body
      else none := by
  rw [namedBody?, hasType_typeTable owned.1.name wellKinded]
  by_cases same : owned.1.name = name
  · rw [same]
    cases declaresType declarations name with
    | true => rfl
    | false => cases owned.1.body <;> simp
  · cases declaresType declarations owned.1.name with
    | true => simp [same]
    | false => cases owned.1.body <;> simp [same, Ne.symm same]

theorem lookup_classifyNames_bodies (name : String) :
    (classifyNames declarations).bodies.lookup name = declaredBody? declarations name := by
  rw [classifyNames_bodies wellKinded, List.lookup_append, lookup_filterMap_body?,
    declaredBody?, lookup_filterMap, ownedCallables_eq wellKinded, List.findSome?_map,
    ← find?_callablesByPosition, ← findSome?_body_eq_bind_find?]
  congr 1
  simp only [Function.comp_def, lookup_namedBody? wellKinded]
  cases declaresType declarations name with
  | false => rfl
  | true => simp

theorem usedNames_eq (source : Text) (symbol : Symbol) :
    (classifyNames declarations).usedNames source symbol =
      (usedSymbols declarations source (classifyNames declarations).table symbol).map
        (·.name) := by
  rw [Classification.usedNames, usedSymbols, lookup_classifyNames_bodies wellKinded]
  cases declaredBody? declarations symbol.name with
  | none => rfl
  | some body =>
      simp only [referableNames, contains_map_ofList, List.filter_map, List.filter_filter,
        SymbolKind.sliceLimit, typeSlice, callableSlice]
      congr 2
      funext target
      exact Bool.and_comm _ _

theorem relationsOf_eq_declaredRelations (source : Text) (symbol : Symbol) :
    (classifyNames declarations).relationsOf declarations source symbol =
      declaredRelations declarations source (classifyNames declarations).table symbol := by
  have explicitBases : (fun base => !implicitBases.contains base) = (· != "object") := by
    funext base
    rw [Bool.eq_iff_iff]
    simp [implicitBases]
  rw [Classification.relationsOf, declaredRelations, methods_of_owner wellKinded,
    usedNames_eq wellKinded, List.map_map, List.map_map, explicitBases]
  rfl

theorem foundRelations_eq (source : Text) :
    foundRelations declarations source =
      ((classifyNames declarations).table.symbols.filter (!·.isMember)).map fun symbol =>
        (symbol.name,
          declaredRelations declarations source (classifyNames declarations).table symbol) := by
  simp only [foundRelations, relationsOf_eq_declaredRelations wellKinded]

theorem exists_callable_of_member {name owner : String} {member : Symbol}
    (found : (classifyNames declarations).table.get? name = some member)
    (owned : member.owner = some owner) :
    ∃ callable ∈ callablesByPosition declarations,
      callable.name = name ∧ ownerOf? declarations callable = some owner := by
  rw [get?_classifyNames name wellKinded] at found
  rcases declaredSymbol?_cases found with ⟨-, -, kind, -, rfl⟩ |
    ⟨callable, member, same, rfl⟩ | ⟨-, -, -, rfl⟩ | ⟨-, -, kind, -, rfl⟩
  · exact absurd owned (by simp)
  · exact ⟨callable, mem_callablesByPosition.mpr member, same, owned⟩
  · exact absurd owned (by simp)
  · exact absurd owned (by simp)

/-- A type has a method exactly if the table lists it as a member of the type. -/
theorem hasMethod_mem_declaredRelations (source : Text) (symbol : Symbol)
    (method : String) :
    .hasMethod method ∈ declaredRelations declarations source
        (classifyNames declarations).table symbol ↔
      ∃ member, (classifyNames declarations).table.get? method = some member ∧
        member.owner = some symbol.name := by
  simp only [declaredRelations, List.mem_append, List.mem_map, List.mem_filter, reduceCtorEq,
    and_false, exists_false, or_false, false_or, Relation.hasMethod.injEq, isMethodOf,
    Bool.and_eq_true, beq_iff_eq, Option.any_eq_true]
  constructor
  · rintro ⟨callable, ⟨-, -, member, found, owned⟩, rfl⟩
    exact ⟨member, found, owned⟩
  · rintro ⟨member, found, owned⟩
    obtain ⟨callable, sorted, rfl, holder⟩ :=
      exists_callable_of_member wellKinded found owned
    exact ⟨callable, ⟨sorted, holder, member, found, owned⟩, rfl⟩

end Classified

/-- The sources of the relations that are found are symbols that are no members, each
once and in the order of the table, and the relations of each are those that the
declarations give to it. -/
theorem resolve_relates (declarations : List Declaration) (source : Text)
    (deadline : Deadline)
    (wellKinded : ∀ declaration ∈ declarations, declaration.WellKinded)
    (lasts : deadline.expired = false) :
    ∃ analysis, resolve declarations source deadline = .ok analysis ∧
      analysis.relations.entries =
        ((analysis.table.symbols.filter (!·.isMember)).map fun symbol =>
          (symbol.name, declaredRelations declarations source analysis.table symbol)).filter
            (!·.2.isEmpty) ∧
      (analysis.relations.entries.map (·.1)).Nodup ∧
      ∀ symbol ∈ analysis.table.symbols, symbol.isMember = false →
        analysis.relations.get symbol.name =
            declaredRelations declarations source analysis.table symbol ∧
          (∀ method, .hasMethod method ∈ analysis.relations.get symbol.name ↔
            ∃ member, analysis.table.get? method = some member ∧
              member.owner = some symbol.name) ∧
          ∀ target, (analysis.relations.get symbol.name).count (.uses target) ≤ 1 := by
  have distinct := foundRelations_names_nodup declarations source
  have entries := RelationMap.foldl_pushAll_entries (foundRelations declarations source) {}
    distinct (by simp)
  rw [List.nil_append] at entries
  refine ⟨_, resolve_of_lasting declarations source lasts, ?_, ?_, ?_⟩
  · rw [entries, foundRelations_eq wellKinded]
  · rw [entries]
    exact distinct.sublist (List.filter_sublist.map _)
  · intro symbol known free
    have listed : (symbol.name, declaredRelations declarations source
        (classifyNames declarations).table symbol) ∈ foundRelations declarations source := by
      rw [foundRelations_eq wellKinded]
      exact List.mem_map.mpr ⟨symbol, List.mem_filter.mpr ⟨known, by simp [free]⟩, rfl⟩
    have relations := RelationMap.getD_lookup_filter distinct listed
    rw [← entries] at relations
    refine ⟨relations, fun method => ?_, fun target => ?_⟩
    · rw [RelationMap.get, relations]
      exact hasMethod_mem_declaredRelations wellKinded source symbol method
    · rw [RelationMap.get, relations]
      exact count_uses_declaredRelations (classifyNames_names_nodup declarations) source symbol
        target

/-- A class with an overloaded method, two bases and a body that mentions all declared
names. -/
def overloadedMethod : List Declaration :=
  [.base "User" "object", .type "User" .class (some ⟨0, 22⟩),
    .function "helper" 30 (some ⟨5, 11⟩), .base "User" "Base", .function "save" 5 none,
    .function "save" 1 none, .symbol "tools" .namespace none]

theorem resolve_overloadedMethod :
    (∀ declaration ∈ overloadedMethod, declaration.WellKinded) ∧
      ∃ analysis,
        resolve overloadedMethod "save helper tools User".toList .unbounded = .ok analysis ∧
        analysis.relations.get "User" =
          [.inheritsFrom "Base", .hasMethod "save", .hasMethod "save", .uses "helper"] := by
  have wellKinded : ∀ declaration ∈ overloadedMethod, declaration.WellKinded := by
    simp [overloadedMethod, Declaration.WellKinded, Declaration.function, SymbolKind.isType]
  have sorted : callablesByPosition overloadedMethod =
      (overloadedMethod.filterMap Declaration.callable?).reverse :=
    callablesByPosition_of_perm (List.reverse_perm _) (by decide)
  obtain ⟨analysis, resolved, -, -, related⟩ := resolve_relates overloadedMethod
    "save helper tools User".toList .unbounded wellKinded rfl
  have table : analysis.table =
      ⟨[⟨"User", .class, none⟩, ⟨"save", .method, some "User"⟩, ⟨"helper", .function, none⟩,
        ⟨"tools", .namespace, none⟩]⟩ := by
    rw [resolve_of_lasting _ _ rfl, Except.ok.injEq] at resolved
    rw [← resolved, classifyNames, ownedCallables, sorted]
    rfl
  refine ⟨wellKinded, analysis, resolved, ?_⟩
  rw [(related ⟨"User", .class, none⟩ (by simp [table]) rfl).1, table,
    declaredRelations, sorted]
  decide +kernel

/-- A class without a body, whose constructor has one. -/
def constructorOnly : List Declaration :=
  [.type "User" .class none, .function "User" 0 (some ⟨0, 6⟩), .function "helper" 10 none]

/-- The body of a callable that is named like a type is not searched, although no other
body stands under that name. -/
theorem constructor_body_not_searched :
    (∀ declaration ∈ constructorOnly, declaration.WellKinded) ∧
      constructorOnly.findSome? (Declaration.bodyOf? "User") = none ∧
      (firstLeast? (·.position) (fun callable => callable.name == "User" && callable.body.isSome)
        (constructorOnly.filterMap Declaration.callable?)).bind (·.body) = some ⟨0, 6⟩ ∧
      (Text.words (Text.boundedSlice "helper".toList ⟨0, 6⟩ 2000)).contains "helper".toList ∧
      ∃ analysis, resolve constructorOnly "helper".toList .unbounded = .ok analysis ∧
        analysis.table.get? "User" = some ⟨"User", .class, none⟩ ∧
        analysis.table.get? "helper" = some ⟨"helper", .function, none⟩ ∧
        .uses "helper" ∉ analysis.relations.get "User" := by
  refine ⟨?_, by decide +kernel, by decide +kernel, by decide +kernel, ?_⟩
  · simp [constructorOnly, Declaration.WellKinded, Declaration.function, SymbolKind.isType]
  · refine ⟨⟨⟨[⟨"User", .class, none⟩, ⟨"helper", .function, none⟩]⟩, {}⟩, ?_, by decide +kernel⟩
    rw [resolve_of_lasting _ _ rfl, foundRelations, classifyNames, ownedCallables,
      callablesByPosition_of_ascending (by decide)]
    decide +kernel

end SourceAtlas
