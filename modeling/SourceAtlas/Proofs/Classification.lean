import Mathlib.Data.List.Basic
import SourceAtlas.Proofs.FirstLeast
import SourceAtlas.Proofs.SymbolTable

/-!
# How declared names are classified

The classification of a file enters types, callables and plain symbols into a table in
three passes that skip names for different reasons.  Here the outcome is described name
by name: `declaredSymbol?` says what a name stands for, from the declarations alone, and
every symbol table that `resolve` produces agrees with it.
-/

namespace SourceAtlas

namespace Declaration

/-- The kind under which a declaration declares a type of some name. -/
def typeKind? (name : String) : Declaration → Option SymbolKind
  | type declared kind _ => if declared = name then some kind else none
  | _ => none

/-- The kind under which a declaration declares a plain symbol of some name. -/
def symbolKind? (name : String) : Declaration → Option SymbolKind
  | symbol declared kind _ => if declared = name then some kind else none
  | _ => none

/-- Types are declared with the kind of a type, and callables as methods or
properties. -/
def WellKinded : Declaration → Prop
  | type _ kind _ => kind.isType = true
  | callable declared => declared.kind = .method ∨ declared.kind = .property
  | _ => True

end Declaration

/-- Whether a type of some name is declared. -/
def declaresType (declarations : List Declaration) (name : String) : Bool :=
  declarations.any fun declaration => (declaration.typeKind? name).isSome

/-- The type that owns a callable: the one that is spelled out, or else that of the first
of the shortest scopes around the callable, and in either case only if a type of that
name is declared. -/
def ownerOf? (declarations : List Declaration) (callable : Callable) : Option String :=
  let innermost := firstLeast? (·.body.length) (·.body.contains callable.position)
    (declarations.filterMap Declaration.scope?)
  (callable.owner.or (innermost.map (·.owner))).filter (declaresType declarations)

/-- Whether a callable has some name and belongs to a type. -/
def isMemberNamed (declarations : List Declaration) (name : String) (callable : Callable) :
    Bool :=
  callable.name == name && (ownerOf? declarations callable).isSome

/-- What a name stands for: a type if one is declared, or else a member if some type owns
a callable of that name, or else a function if there is a method of that name, or else a
plain symbol if one is declared. -/
def declaredSymbol? (declarations : List Declaration) (name : String) : Option Symbol :=
  let callables := declarations.filterMap Declaration.callable?
  match declarations.findSome? (Declaration.typeKind? name) with
  | some kind => some ⟨name, kind, none⟩
  | none =>
      match firstLeast? (·.position) (isMemberNamed declarations name) callables with
      | some member => some ⟨name, member.kind, ownerOf? declarations member⟩
      | none =>
          if callables.any fun callable => callable.name == name && callable.kind == .method then
            some ⟨name, .function, none⟩
          else
            (declarations.findSome? (Declaration.symbolKind? name)).map fun kind =>
              ⟨name, kind, none⟩

/-- How a name comes to stand for a symbol. -/
theorem declaredSymbol?_cases {declarations : List Declaration} {name : String}
    {symbol : Symbol} (found : declaredSymbol? declarations name = some symbol) :
    (∃ declaration ∈ declarations, ∃ kind, declaration.typeKind? name = some kind ∧
        symbol = ⟨name, kind, none⟩) ∨
      (∃ callable ∈ declarations.filterMap Declaration.callable?, callable.name = name ∧
        symbol = ⟨name, callable.kind, ownerOf? declarations callable⟩) ∨
      (∃ callable ∈ declarations.filterMap Declaration.callable?, callable.name = name ∧
        symbol = ⟨name, .function, none⟩) ∨
      ∃ declaration ∈ declarations, ∃ kind, declaration.symbolKind? name = some kind ∧
        symbol = ⟨name, kind, none⟩ := by
  rw [declaredSymbol?] at found
  split at found
  case h_1 kind typed =>
    obtain ⟨declaration, member, declares⟩ := List.exists_of_findSome?_eq_some typed
    exact Or.inl ⟨declaration, member, kind, declares, (Option.some.inj found).symm⟩
  case h_2 =>
    split at found
    case h_1 callable chosen =>
      obtain ⟨member, named⟩ := mem_and_test_of_firstLeast? chosen
      simp only [isMemberNamed, Bool.and_eq_true, beq_iff_eq] at named
      exact Or.inr (Or.inl ⟨callable, member, named.1, (Option.some.inj found).symm⟩)
    case h_2 =>
      split at found
      case isTrue function =>
        obtain ⟨callable, member, named⟩ := List.any_eq_true.mp function
        simp only [Bool.and_eq_true, beq_iff_eq] at named
        exact Or.inr (Or.inr (Or.inl ⟨callable, member, named.1, (Option.some.inj found).symm⟩))
      case isFalse =>
        obtain ⟨kind, plain, made⟩ := Option.map_eq_some_iff.mp found
        obtain ⟨declaration, member, declares⟩ := List.exists_of_findSome?_eq_some plain
        exact Or.inr (Or.inr (Or.inr ⟨declaration, member, kind, declares, made.symm⟩))

section Search

variable {α β : Type} {items : List α}

theorem find?_filterMap_eq_findSome? {entered : α → Option β} {test : β → Bool}
    {wanted : α → Option β}
    (agree : ∀ item ∈ items, (entered item).filter test = wanted item) :
    (items.filterMap entered).find? test = items.findSome? wanted := by
  rw [← List.head?_filter, List.filter_filterMap, List.filterMap_congr agree,
    List.head?_filterMap]

theorem findSome?_ite_eq_map_find? (test : α → Bool) (result : α → β) :
    items.findSome? (fun item => if test item then some (result item) else none) =
      (items.find? test).map result := by
  induction items with
  | nil => rfl
  | cons item items ih =>
      rw [List.findSome?_cons, List.find?_cons]
      cases test item with
      | false => exact ih
      | true => rfl

theorem mem_of_lookup {entries : List (String × β)} {name : String} {value : β}
    (found : entries.lookup name = some value) : (name, value) ∈ entries := by
  obtain ⟨before, after, rfl, -⟩ := List.lookup_eq_some_iff.mp found
  simp

theorem split_behind_front {front added before after : List α} {item : α}
    (split : front ++ added = before ++ item :: after) (notFront : item ∉ front) :
    (∃ between, before = front ++ between) ∧ item ∈ added := by
  rcases List.append_eq_append_iff.mp split with ⟨between, rfl, rest⟩ | ⟨between, rfl, rest⟩
  · exact ⟨⟨between, rfl⟩, by simp [rest]⟩
  · cases between with
    | nil =>
        rw [List.nil_append] at rest
        exact ⟨⟨[], by simp⟩, by simp [← rest]⟩
    | cons first between =>
        -- here the item would still stand in the front
        obtain ⟨rfl, -⟩ := List.cons.inj rest
        exact absurd (by simp) notFront

end Search

section Types

variable (declarations : List Declaration) (name : String)

theorem find?_typeSymbols :
    (declarations.filterMap Declaration.typeSymbol?).find? (·.name == name) =
      (declarations.findSome? (Declaration.typeKind? name)).map fun kind =>
        ⟨name, kind, none⟩ := by
  rw [List.map_findSome?]
  apply find?_filterMap_eq_findSome?
  intro declaration _
  cases declaration with
  | type declared kind body =>
      by_cases same : declared = name <;>
        simp [Declaration.typeSymbol?, Declaration.typeKind?, same]
  | scope | base | callable | symbol => rfl

theorem find?_plainSymbols :
    (declarations.filterMap Declaration.plainSymbol?).find? (·.name == name) =
      (declarations.findSome? (Declaration.symbolKind? name)).map fun kind =>
        ⟨name, kind, none⟩ := by
  rw [List.map_findSome?]
  apply find?_filterMap_eq_findSome?
  intro declaration _
  cases declaration with
  | symbol declared kind body =>
      by_cases same : declared = name <;>
        simp [Declaration.plainSymbol?, Declaration.symbolKind?, same]
  | scope | base | callable | type => rfl

theorem get?_typeTable :
    (typeTable declarations).get? name =
      (declarations.findSome? (Declaration.typeKind? name)).map fun kind =>
        ⟨name, kind, none⟩ := by
  rw [typeTable, SymbolTable.get?_insertAll, SymbolTable.get?_empty, Option.none_or,
    find?_typeSymbols]

theorem isSome_findSome?_typeKind? :
    (declarations.findSome? (Declaration.typeKind? name)).isSome =
      declaresType declarations name := by
  rw [declaresType, List.isSome_findSome?]

variable {declarations}

theorem isType_of_typeKind? {declaration : Declaration} {kind : SymbolKind}
    (wellKinded : declaration.WellKinded) (declares : declaration.typeKind? name = some kind) :
    kind.isType = true := by
  cases declaration with
  | type declared declaredKind body =>
      simp only [Declaration.typeKind?, Option.ite_none_right_eq_some, Option.some.injEq]
        at declares
      rw [← declares.2]
      exact wellKinded
  | scope | base | callable | symbol => simp [Declaration.typeKind?] at declares

theorem declaresType_of_ownerOf? {callable : Callable} {owner : String}
    (owned : ownerOf? declarations callable = some owner) :
    declaresType declarations owner = true := by
  rw [ownerOf?, Option.filter_eq_some_iff] at owned
  exact owned.2

variable (wellKinded : ∀ declaration ∈ declarations, declaration.WellKinded)

include wellKinded

/-- The table of the declared types knows exactly them as types. -/
theorem hasType_typeTable :
    (typeTable declarations).hasType name = declaresType declarations name := by
  rw [SymbolTable.hasType, get?_typeTable, ← isSome_findSome?_typeKind?]
  cases found : declarations.findSome? (Declaration.typeKind? name) with
  | none => rfl
  | some kind =>
      obtain ⟨declaration, member, declares⟩ := List.exists_of_findSome?_eq_some found
      simpa using isType_of_typeKind? name (wellKinded declaration member) declares

theorem ownerAmong_eq_ownerOf? (callable : Callable) :
    callable.ownerAmong (typeTable declarations)
        (declarations.filterMap Declaration.scope?) =
      ownerOf? declarations callable := by
  have sameTypes : (typeTable declarations).hasType = declaresType declarations := by
    funext owner
    exact hasType_typeTable owner wellKinded
  rw [Callable.ownerAmong, ownerOf?, enclosingScope?_eq_firstLeast?, sameTypes]

theorem ownedCallables_eq :
    ownedCallables declarations =
      (callablesByPosition declarations).map fun callable =>
        (callable, ownerOf? declarations callable) := by
  simp only [ownedCallables, ownerAmong_eq_ownerOf? wellKinded]

end Types

/-- The symbol that a callable with its owner stands for, unless it is passed over. -/
def calledSymbol? (namesOwned : List String) : Callable × Option String → Option Symbol
  | (callable, some owner) => some ⟨callable.name, callable.kind, some owner⟩
  | (callable, none) =>
      if callable.kind = .method && !namesOwned.contains callable.name then
        some ⟨callable.name, .function, none⟩
      else none

/-- A callable is entered under its own name and owner or not at all. -/
theorem calledSymbol?_spec {namesOwned : List String} {callable : Callable}
    {owner : Option String} {symbol : Symbol}
    (entered : calledSymbol? namesOwned (callable, owner) = some symbol) :
    symbol.name = callable.name ∧ symbol.owner = owner ∧
      (symbol.kind = callable.kind ∨ symbol.kind = .function) := by
  cases owner with
  | some owner =>
      rw [calledSymbol?, Option.some.injEq] at entered
      rw [← entered]
      exact ⟨rfl, rfl, Or.inl rfl⟩
  | none =>
      rw [calledSymbol?, Option.ite_none_right_eq_some, Option.some.injEq] at entered
      rw [← entered.2]
      exact ⟨rfl, rfl, Or.inr rfl⟩

namespace Classification

@[simp]
theorem addMethod_table (known : Classification) (owner name : String) :
    (known.addMethod owner name).table = known.table := by
  unfold addMethod
  split <;> rfl

theorem enter_table (namesOwned : List String) (known : Classification)
    (callable : Callable) (owner : Option String) :
    (known.enter namesOwned callable owner).table =
      known.table.insertAll (calledSymbol? namesOwned (callable, owner)).toList := by
  cases owner with
  | some owner => simp [enter, calledSymbol?, SymbolTable.insertAll]
  | none =>
      simp only [enter, calledSymbol?]
      split <;> simp [SymbolTable.insertAll]

/-- Passing over a callable that is named like a type makes no difference to the table:
its name is classified already. -/
theorem add_table (namesOwned : List String) (known : Classification)
    (owned : Callable × Option String) :
    (known.add namesOwned owned).table =
      known.table.insertAll (calledSymbol? namesOwned owned).toList := by
  obtain ⟨callable, owner⟩ := owned
  simp only [add]
  split
  case isTrue typed =>
    have classified := SymbolTable.contains_of_hasType typed
    cases entered : calledSymbol? namesOwned (callable, owner) with
    | none => rfl
    | some symbol =>
        rw [← (calledSymbol?_spec entered).1] at classified
        simp [SymbolTable.insertAll, SymbolTable.insert_of_contains classified]
  case isFalse =>
    rw [← enter_table]
    cases callable.body <;> rfl

theorem foldl_add_table (namesOwned : List String)
    (callables : List (Callable × Option String)) (known : Classification) :
    (callables.foldl (add namesOwned) known).table =
      known.table.insertAll (callables.filterMap (calledSymbol? namesOwned)) := by
  induction callables generalizing known with
  | nil => rfl
  | cons owned callables ih =>
      rw [List.foldl_cons, ih, add_table, ← SymbolTable.insertAll_append]
      cases entered : calledSymbol? namesOwned owned <;> simp [entered]

end Classification

/-- The symbols of the callables of some declarations by position. -/
def calledSymbols (declarations : List Declaration) : List Symbol :=
  (ownedCallables declarations).filterMap
    (calledSymbol? (ownedNames (ownedCallables declarations)))

theorem classifyNames_table (declarations : List Declaration) :
    (classifyNames declarations).table =
      (typeTable declarations).insertAll
        (calledSymbols declarations ++ declarations.filterMap Declaration.plainSymbol?) := by
  rw [SymbolTable.insertAll_append, calledSymbols, classifyNames,
    Classification.foldl_add_table]

theorem classifyNames_names_nodup (declarations : List Declaration) :
    ((classifyNames declarations).table.symbols.map (·.name)).Nodup := by
  rw [classifyNames_table, typeTable]
  apply SymbolTable.insertAll_names_nodup
  apply SymbolTable.insertAll_names_nodup
  exact List.nodup_nil

section Callables

variable {name : String} {namesOwned : List String}

theorem filter_calledSymbol?_of_ne {callable : Callable} (other : callable.name ≠ name)
    (owner : Option String) :
    (calledSymbol? namesOwned (callable, owner)).filter (·.name == name) = none := by
  rw [Option.filter_eq_none_iff]
  intro symbol entered
  simpa [(calledSymbol?_spec entered).1] using other

/-- A callable without owner says nothing about a name that some type owns. -/
theorem filter_calledSymbol?_of_claimed (claimed : name ∈ namesOwned) (callable : Callable)
    (owner : Option String) :
    (calledSymbol? namesOwned (callable, owner)).filter (·.name == name) =
      if callable.name == name && owner.isSome then some ⟨name, callable.kind, owner⟩
      else none := by
  by_cases same : callable.name = name
  · subst same
    cases owner <;> simp [calledSymbol?, claimed]
  · rw [filter_calledSymbol?_of_ne same]
    simp [same]

/-- A method of a name that no type owns is a function. -/
theorem filter_calledSymbol?_of_unclaimed (unclaimed : name ∉ namesOwned)
    (callable : Callable) (owner : Option String) (free : callable.name = name → owner = none) :
    (calledSymbol? namesOwned (callable, owner)).filter (·.name == name) =
      if callable.name == name && callable.kind == .method then
        some ⟨name, .function, none⟩
      else none := by
  by_cases same : callable.name = name
  · rw [free same]
    subst same
    by_cases method : callable.kind = .method <;> simp [calledSymbol?, unclaimed, method]
  · rw [filter_calledSymbol?_of_ne same]
    simp [same]

variable {declarations : List Declaration}

theorem mem_callablesByPosition {callable : Callable} :
    callable ∈ callablesByPosition declarations ↔
      callable ∈ declarations.filterMap Declaration.callable? :=
  List.mem_mergeSort

variable (wellKinded : ∀ declaration ∈ declarations, declaration.WellKinded)

include wellKinded

theorem mem_ownedNames :
    name ∈ ownedNames (ownedCallables declarations) ↔
      ∃ callable ∈ callablesByPosition declarations,
        isMemberNamed declarations name callable = true := by
  rw [ownedCallables_eq wellKinded]
  simp only [ownedNames, List.mem_map, List.mem_filter, isMemberNamed, Bool.and_eq_true,
    beq_iff_eq]
  constructor
  · rintro ⟨-, ⟨⟨callable, member, rfl⟩, owned⟩, same⟩
    exact ⟨callable, member, same, owned⟩
  · rintro ⟨callable, member, same, owned⟩
    exact ⟨_, ⟨⟨callable, member, rfl⟩, owned⟩, same⟩

theorem calledSymbols_eq :
    calledSymbols declarations =
      (callablesByPosition declarations).filterMap fun callable =>
        calledSymbol? (ownedNames (ownedCallables declarations))
          (callable, ownerOf? declarations callable) := by
  rw [calledSymbols, ownedCallables_eq wellKinded, List.filterMap_map]
  rfl

variable (name)

/-- Among the callables a name stands for the first member of that name, and for a
function only if there is no such member. -/
theorem find?_calledSymbols :
    (calledSymbols declarations).find? (·.name == name) =
      (((callablesByPosition declarations).find? (isMemberNamed declarations name)).map
          fun member => ⟨name, member.kind, ownerOf? declarations member⟩).or
        (if (callablesByPosition declarations).any fun callable =>
            callable.name == name && callable.kind == .method then
          some ⟨name, .function, none⟩
        else none) := by
  rw [calledSymbols_eq wellKinded]
  by_cases claimed : name ∈ ownedNames (ownedCallables declarations)
  · rw [find?_filterMap_eq_findSome? fun callable _ =>
        filter_calledSymbol?_of_claimed claimed callable (ownerOf? declarations callable),
      findSome?_ite_eq_map_find?]
    obtain ⟨callable, member, named⟩ := (mem_ownedNames wellKinded).mp claimed
    have found : ((callablesByPosition declarations).find?
        (isMemberNamed declarations name)).isSome = true := by
      rw [List.find?_isSome]
      exact ⟨callable, member, named⟩
    obtain ⟨first, firstEq⟩ := Option.isSome_iff_exists.mp found
    unfold isMemberNamed at firstEq ⊢
    rw [firstEq]
    rfl
  · have none_owned : ∀ callable ∈ callablesByPosition declarations,
        isMemberNamed declarations name callable ≠ true := by
      intro callable member named
      exact claimed ((mem_ownedNames wellKinded).mpr ⟨callable, member, named⟩)
    have free : ∀ callable ∈ callablesByPosition declarations, callable.name = name →
        ownerOf? declarations callable = none := by
      intro callable member same
      simpa [isMemberNamed, same] using none_owned callable member
    rw [find?_filterMap_eq_findSome? fun callable member =>
        filter_calledSymbol?_of_unclaimed claimed callable (ownerOf? declarations callable)
          (free callable member),
      findSome?_ite_eq_map_find?, List.find?_eq_none.mpr none_owned, Option.map_none,
      Option.none_or]
    rw [← List.isSome_find?]
    cases (callablesByPosition declarations).find? fun callable =>
      callable.name == name && callable.kind == .method <;> rfl

theorem get?_classifyNames :
    (classifyNames declarations).table.get? name = declaredSymbol? declarations name := by
  have sameCallables : ((callablesByPosition declarations).any fun callable =>
      callable.name == name && callable.kind == .method) =
      (declarations.filterMap Declaration.callable?).any fun callable =>
        callable.name == name && callable.kind == .method := by
    rw [Bool.eq_iff_iff]
    simp only [List.any_eq_true, mem_callablesByPosition]
  rw [classifyNames_table, SymbolTable.get?_insertAll, get?_typeTable, List.find?_append,
    find?_calledSymbols name wellKinded, find?_plainSymbols, find?_callablesByPosition,
    sameCallables, declaredSymbol?]
  cases declarations.findSome? (Declaration.typeKind? name) with
  | some kind => rfl
  | none =>
      cases firstLeast? (fun callable : Callable => callable.position)
          (isMemberNamed declarations name)
          (declarations.filterMap Declaration.callable?) with
      | some member => rfl
      | none =>
          simp only [Option.map_none, Option.none_or]
          split <;> simp

end Callables

section Owners

variable {declarations : List Declaration}

theorem owner_of_mem_typeTable {symbol : Symbol}
    (member : symbol ∈ (typeTable declarations).symbols) : symbol.owner = none := by
  obtain ⟨added, extended, inserted⟩ := SymbolTable.insertAll_symbols_extend {}
    (declarations.filterMap Declaration.typeSymbol?)
  rw [typeTable, extended, List.nil_append] at member
  obtain ⟨declaration, -, entered⟩ := List.mem_filterMap.mp (inserted.subset member)
  cases declaration <;> simp [Declaration.typeSymbol?] at entered
  rw [← entered]

/-- Whatever the declarations are, a callable is owned only by a name that the table of the
types knows as a type. -/
theorem hasType_of_mem_ownedCallables {owned : Callable × Option String} {owner : String}
    (listed : owned ∈ ownedCallables declarations) (owns : owned.2 = some owner) :
    (typeTable declarations).hasType owner = true := by
  obtain ⟨callable, -, rfl⟩ := List.mem_map.mp listed
  exact (Option.filter_eq_some_iff.mp owns).2

variable (wellKinded : ∀ declaration ∈ declarations, declaration.WellKinded)

include wellKinded

theorem declaresType_of_mem_calledSymbols {symbol : Symbol} {owner : String}
    (member : symbol ∈ calledSymbols declarations) (owned : symbol.owner = some owner) :
    declaresType declarations owner = true := by
  rw [calledSymbols_eq wellKinded] at member
  obtain ⟨callable, -, entered⟩ := List.mem_filterMap.mp member
  rw [(calledSymbol?_spec entered).2.1] at owned
  exact declaresType_of_ownerOf? owned

theorem exists_type_of_declaresType {name : String}
    (declared : declaresType declarations name = true) :
    ∃ type ∈ (typeTable declarations).symbols,
      type.name = name ∧ type.kind.isType = true ∧ type.owner = none := by
  rw [← hasType_typeTable name wellKinded] at declared
  cases found : (typeTable declarations).get? name with
  | none => simp [SymbolTable.hasType, found] at declared
  | some type =>
      have member := SymbolTable.mem_of_get? found
      refine ⟨type, member, SymbolTable.name_of_get? found, ?_, owner_of_mem_typeTable member⟩
      simpa [SymbolTable.hasType, found] using declared

/-- A member stands behind the type that owns it. -/
theorem exists_owner_before {before after : List Symbol} {symbol : Symbol} {owner : String}
    (split : (classifyNames declarations).table.symbols = before ++ symbol :: after)
    (owned : symbol.owner = some owner) :
    ∃ type ∈ before, type.name = owner ∧ type.kind.isType = true ∧ type.owner = none := by
  obtain ⟨added, extended, inserted⟩ := SymbolTable.insertAll_symbols_extend
    (typeTable declarations)
    (calledSymbols declarations ++ declarations.filterMap Declaration.plainSymbol?)
  rw [classifyNames_table, extended] at split
  have noType : symbol ∉ (typeTable declarations).symbols := by
    intro member
    rw [owner_of_mem_typeTable member] at owned
    exact absurd owned (by simp)
  obtain ⟨⟨between, rfl⟩, behind⟩ := split_behind_front split noType
  have called : symbol ∈ calledSymbols declarations := by
    refine (List.mem_append.mp (inserted.subset behind)).resolve_right fun plain => ?_
    obtain ⟨declaration, -, made⟩ := List.mem_filterMap.mp plain
    cases declaration <;> simp [Declaration.plainSymbol?] at made
    rw [← made] at owned
    exact absurd owned (by simp)
  obtain ⟨type, member, facts⟩ := exists_type_of_declaresType wellKinded
    (declaresType_of_mem_calledSymbols wellKinded called owned)
  exact ⟨type, List.mem_append_left _ member, facts⟩

end Owners

theorem Deadline.check_of_lasting {deadline : Deadline} (lasts : deadline.expired = false) :
    deadline.check = .ok () := by
  cases deadline with
  | unbounded => rfl
  | after milliseconds elapsed =>
      have left : ¬milliseconds ≤ elapsed := by simpa [Deadline.expired] using lasts
      simp [Deadline.check, left]

/-- The relations of all symbols that are no members, symbol by symbol. -/
def foundRelations (declarations : List Declaration) (source : Text) :
    List (String × List Relation) :=
  let known := classifyNames declarations
  (known.table.symbols.filter (!·.isMember)).map fun symbol =>
    (symbol.name, known.relationsOf declarations source symbol)

theorem resolve_of_lasting (declarations : List Declaration) (source : Text)
    {deadline : Deadline} (lasts : deadline.expired = false) :
    resolve declarations source deadline = .ok
      { table := (classifyNames declarations).table
        relations := (foundRelations declarations source).foldl
          (fun map (name, relations) => map.pushAll name relations) {} } := by
  simp only [resolve, Deadline.check_of_lasting lasts, foundRelations]
  have steps (symbols : List Symbol) :
      symbols.mapM (fun symbol => (do
          (Except.ok () : Except Timeout Unit)
          return (symbol.name,
            (classifyNames declarations).relationsOf declarations source symbol))) =
        (.ok (symbols.map fun symbol => (symbol.name,
          (classifyNames declarations).relationsOf declarations source symbol)) :
            Except Timeout _) :=
    List.mapM_pure
  rw [steps]
  rfl

/-- Whatever is declared, and in whatever order, every name is classified once and as
`declaredSymbol?` says, and every member stands behind a type that owns it. -/
theorem resolve_classifies (declarations : List Declaration) (source : Text)
    (deadline : Deadline)
    (wellKinded : ∀ declaration ∈ declarations, declaration.WellKinded)
    (lasts : deadline.expired = false) :
    ∃ analysis, resolve declarations source deadline = .ok analysis ∧
      (analysis.table.symbols.map (·.name)).Nodup ∧
      (∀ name, analysis.table.get? name = declaredSymbol? declarations name) ∧
      ∀ before symbol after owner,
        analysis.table.symbols = before ++ symbol :: after → symbol.owner = some owner →
          ∃ type ∈ before, type.name = owner ∧ type.kind.isType = true ∧
            type.owner = none := by
  refine ⟨_, resolve_of_lasting declarations source lasts,
    classifyNames_names_nodup declarations, ?_, ?_⟩
  · intro name
    exact get?_classifyNames name wellKinded
  · intro before symbol after owner split owned
    exact exists_owner_before wellKinded split owned

/-- A trait and a structure that both have a method `name`, with a free function `len`
behind a method of that name, and a variable that is named like the trait. -/
def sharedNames : List Declaration :=
  [.type "Named" .trait (some ⟨0, 20⟩), .type "Store" .struct none, .scope "Store" ⟨30, 50⟩,
    .function "name" 40 none, .function "name" 10 none, .function "len" 60 none,
    .function "len" 45 none, .methodOf "Missing" "free" 70 none,
    .symbol "Named" .variable none, .symbol "limit" .variable none]

theorem resolve_sharedNames :
    (∀ declaration ∈ sharedNames, declaration.WellKinded) ∧
      ∃ analysis, resolve sharedNames [] (.after 600000) = .ok analysis ∧
        analysis.table.get? "Named" = some ⟨"Named", .trait, none⟩ ∧
        analysis.table.get? "name" = some ⟨"name", .method, some "Named"⟩ ∧
        analysis.table.get? "len" = some ⟨"len", .method, some "Store"⟩ ∧
        analysis.table.get? "free" = some ⟨"free", .function, none⟩ ∧
        analysis.table.get? "limit" = some ⟨"limit", .variable, none⟩ ∧
        analysis.table.get? "Missing" = none := by
  have wellKinded : ∀ declaration ∈ sharedNames, declaration.WellKinded := by
    simp [sharedNames, Declaration.WellKinded, Declaration.function, Declaration.methodOf,
      SymbolKind.isType]
  obtain ⟨analysis, resolved, -, classified, -⟩ :=
    resolve_classifies sharedNames [] (.after 600000) wellKinded rfl
  refine ⟨wellKinded, analysis, resolved, ?_⟩
  simp only [classified]
  decide +kernel

end SourceAtlas
