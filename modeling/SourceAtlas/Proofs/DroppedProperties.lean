import SourceAtlas.Proofs.CallableOrder
import SourceAtlas.Proofs.StructuralSources

/-!
# Properties outside every scope

A property that no scope holds belongs to no type, so the table does not list it.  Its
body is recorded under its name all the same, and a function or variable of that name is
searched in it if no other body of the name comes first.  Leaving out such a property
changes nothing but the uses of its name, and where a body comes first not even these.
-/

namespace SourceAtlas
namespace Classification

/-- Bodies apart, two classifications are the same. -/
structure Agrees (known other : Classification) : Prop where
  table : known.table = other.table
  methods : known.methods = other.methods

/-- A later body of the name would not be found: the name is a type, whose callables are
passed over, or it has a body. -/
def Settles (known : Classification) (name : String) : Prop :=
  known.table.hasType name = true ∨ (known.bodies.lookup name).isSome = true

variable {known other : Classification} {namesOwned : List String} {name : String}

theorem Agrees.add (agrees : known.Agrees other) (owned : Callable × Option String) :
    (known.add namesOwned owned).Agrees (other.add namesOwned owned) := by
  have table : (known.add namesOwned owned).table = (other.add namesOwned owned).table := by
    rw [add_table, add_table, agrees.table]
  refine ⟨table, ?_⟩
  rw [add_methods_eq_ite, add_methods_eq_ite, table, agrees.table, agrees.methods]

/-- The bodies that are recorded on the way do not depend on those that are there. -/
theorem Agrees.foldl_add (agrees : known.Agrees other)
    (callables : List (Callable × Option String)) :
    (callables.foldl (Classification.add namesOwned) known).Agrees
        (callables.foldl (Classification.add namesOwned) other) ∧
      ∃ added,
        (callables.foldl (Classification.add namesOwned) known).bodies = known.bodies ++ added ∧
        (callables.foldl (Classification.add namesOwned) other).bodies =
          other.bodies ++ added := by
  induction callables generalizing known other with
  | nil => exact ⟨agrees, [], by simp, by simp⟩
  | cons owned callables ih =>
      obtain ⟨agree, added, knownBodies, otherBodies⟩ := ih (agrees.add owned)
      refine ⟨agree, (namedBody? known.table owned).toList ++ added, ?_, ?_⟩
      · rw [List.foldl_cons, knownBodies, add_bodies, List.append_assoc]
      · rw [List.foldl_cons, otherBodies, add_bodies, agrees.table, List.append_assoc]

theorem agrees_add_property {callable : Callable} (property : callable.kind = .property) :
    (known.add namesOwned (callable, none)).Agrees known := by
  have silent : calledSymbol? namesOwned (callable, none) = none := by
    simp [calledSymbol?, property]
  refine ⟨by rw [add_table, silent]; rfl, ?_⟩
  rw [add_methods_eq_ite, ownedMethod?]
  simp

theorem Settles.add (settles : known.Settles name) (owned : Callable × Option String) :
    (known.add namesOwned owned).Settles name := by
  rcases settles with typed | found
  · left
    rw [SymbolTable.hasType, add_table,
      SymbolTable.get?_insertAll_of_contains (SymbolTable.contains_of_hasType typed)]
    exact typed
  · right
    rw [add_bodies, List.lookup_append, Option.isSome_or, found, Bool.true_or]

theorem settles_add {owned : Callable × Option String} (given : owned.1.body.isSome = true) :
    (known.add namesOwned owned).Settles owned.1.name := by
  by_cases typed : known.table.hasType owned.1.name = true
  · exact Settles.add (Or.inl typed) owned
  · right
    obtain ⟨span, body⟩ := Option.isSome_iff_exists.mp given
    have named : namedBody? known.table owned = some (owned.1.name, span) := by
      simp [namedBody?, typed, body]
    rw [add_bodies, named, List.lookup_append, Option.isSome_or]
    simp

theorem Settles.foldl_add (settles : known.Settles name)
    (callables : List (Callable × Option String)) :
    (callables.foldl (Classification.add namesOwned) known).Settles name := by
  induction callables generalizing known with
  | nil => exact settles
  | cons owned callables ih => exact ih (settles.add owned)

theorem settles_foldl_add {callables : List (Callable × Option String)}
    {owned : Callable × Option String} (member : owned ∈ callables)
    (given : owned.1.body.isSome = true) :
    (callables.foldl (Classification.add namesOwned) known).Settles owned.1.name := by
  induction callables generalizing known with
  | nil => cases member
  | cons first callables ih =>
      rcases List.mem_cons.mp member with rfl | later
      · exact (settles_add given).foldl_add callables
      · exact ih later

/-- A body counts only under its own name, and there only if it is the first. -/
theorem lookup_add_bodies {owned : Callable × Option String} {searched : String}
    (unneeded : searched = owned.1.name → owned.1.body = none ∨ known.Settles searched)
    (added : List (String × Span)) :
    ((known.add namesOwned owned).bodies ++ added).lookup searched =
      (known.bodies ++ added).lookup searched := by
  rw [add_bodies, List.lookup_append, List.lookup_append, List.lookup_append]
  by_cases same : searched = owned.1.name
  · rcases unneeded same with bodiless | typed | found
    · simp [namedBody?, bodiless]
    · simp [namedBody?, ← same, typed]
    · obtain ⟨span, held⟩ := Option.isSome_iff_exists.mp found
      rw [held]
      rfl
  · have absent : (namedBody? known.table owned).toList.lookup searched = none := by
      rw [List.lookup_eq_none_iff]
      intro named listed
      rw [Option.mem_toList, namedBody?, Option.ite_none_left_eq_some] at listed
      obtain ⟨span, -, rfl⟩ := Option.map_eq_some_iff.mp listed.2
      simpa using same
    rw [absent, Option.or_none]

theorem relationsOf_of_agrees {declarations : List Declaration} {source : Text} {symbol : Symbol}
    (agrees : known.Agrees other)
    (sameBody : known.bodies.lookup symbol.name = other.bodies.lookup symbol.name) :
    known.relationsOf declarations source symbol =
      other.relationsOf declarations source symbol := by
  rw [relationsOf, relationsOf, usedNames, usedNames, sameBody, agrees.table, agrees.methods]

theorem filter_isStructural_relationsOf {declarations : List Declaration} {source : Text}
    {symbol : Symbol} (agrees : known.Agrees other) :
    (known.relationsOf declarations source symbol).filter Relation.isStructural =
      (other.relationsOf declarations source symbol).filter Relation.isStructural := by
  have noUses (names : List String) :
      (names.map Relation.uses).filter Relation.isStructural = [] := by
    simp [Relation.isStructural]
  simp only [relationsOf, List.filter_append, noUses, agrees.methods]

end Classification

/-- A callable of some name that stands between two parts of the declarations comes too late
with its body: the name is a type or has another body by then. -/
def BodyPrecedes (before after : List Declaration) (name : String) (position : Nat) : Prop :=
  (typeTable (before ++ after)).hasType name = true ∨
    (∃ declaration ∈ before ++ after, (declaration.bodyOf? name).isSome = true) ∨
    ∃ callable : Callable, callable.name = name ∧ callable.body.isSome = true ∧
      (.callable callable ∈ before ∧ callable.position ≤ position ∨
        .callable callable ∈ after ∧ callable.position < position)

theorem Declaration.mem_filterMap_callable? {declarations : List Declaration}
    {callable : Callable} :
    callable ∈ declarations.filterMap Declaration.callable? ↔
      .callable callable ∈ declarations := by
  rw [List.mem_filterMap]
  constructor
  · rintro ⟨declaration, member, made⟩
    cases declaration <;> simp [Declaration.callable?] at made
    rwa [← made]
  · intro member
    exact ⟨_, member, rfl⟩

/-- A callable stands between callables that are the same without it. -/
theorem exists_callablesByPosition_around (before after : List Declaration)
    (callable : Callable) :
    ∃ lower upper,
      callablesByPosition (before ++ after) = lower ++ upper ∧
      callablesByPosition (before ++ .callable callable :: after) = lower ++ callable :: upper ∧
      ∀ other : Callable,
        (.callable other ∈ before ∧ other.position ≤ callable.position ∨
          .callable other ∈ after ∧ other.position < callable.position) → other ∈ lower := by
  obtain ⟨lower, upper, around, below⟩ := exists_mergeSort_around
    (fun callable : Callable => callable.position) callable.position
    (before.filterMap Declaration.callable?) (after.filterMap Declaration.callable?)
  refine ⟨lower, upper, ?_, ?_, ?_⟩
  · rw [callablesByPosition, List.filterMap_append]
    exact around [] (by simp)
  · rw [callablesByPosition, List.filterMap_append]
    exact around [callable] (by simp)
  · intro other place
    apply below
    rwa [Declaration.mem_filterMap_callable?, Declaration.mem_filterMap_callable?]

/-- Whatever gives the name a body first is among what is known when the property comes. -/
theorem settles_of_bodyPrecedes {before after : List Declaration} {name : String}
    {position : Nat} {lower : List (Callable × Option String)}
    (below : ∀ other : Callable,
      (.callable other ∈ before ∧ other.position ≤ position ∨
        .callable other ∈ after ∧ other.position < position) →
      ∃ owned ∈ lower, owned.1 = other)
    (precedes : BodyPrecedes before after name position) (namesOwned : List String) :
    (lower.foldl (Classification.add namesOwned)
      { table := typeTable (before ++ after)
        bodies := (before ++ after).filterMap Declaration.body? }).Settles name := by
  rcases precedes with typed | ⟨declaration, member, given⟩ | ⟨callable, rfl, given, place⟩
  · exact Classification.Settles.foldl_add (Or.inl typed) lower
  · apply Classification.Settles.foldl_add
    right
    rw [lookup_filterMap_body?, List.isSome_findSome?, List.any_eq_true]
    exact ⟨declaration, member, given⟩
  · obtain ⟨owned, listed, rfl⟩ := below callable place
    exact Classification.settles_foldl_add listed given

section Property

variable (before after : List Declaration) (name : String) (position : Nat) (body : Option Span)

theorem sameRest_property :
    (before ++ .member name .property position body :: after).filter (!·.isCallable) =
      (before ++ after).filter (!·.isCallable) := by
  simp [Declaration.member, Declaration.isCallable]

theorem ownerAmong_of_outside {callable : Callable} {scopes : List Scope}
    (free : callable.owner = none)
    (outside : ∀ scope ∈ scopes, scope.body.contains callable.position = false)
    (types : SymbolTable) : callable.ownerAmong types scopes = none := by
  have noScope : scopes.filter (·.body.contains callable.position) = [] :=
    List.filter_eq_nil_iff.mpr fun scope listed => by simp [outside scope listed]
  simp [Callable.ownerAmong, free, enclosingScope?, noScope]

variable {before after position}
  (outside : ∀ scope ∈ (before ++ after).filterMap Declaration.scope?,
    scope.body.contains position = false)

include outside

theorem exists_ownedCallables_around :
    ∃ lower upper,
      ownedCallables (before ++ after) = lower ++ upper ∧
      ownedCallables (before ++ .member name .property position body :: after) =
        lower ++ (⟨name, .property, position, body, none⟩, none) :: upper ∧
      ∀ other : Callable,
        (.callable other ∈ before ∧ other.position ≤ position ∨
          .callable other ∈ after ∧ other.position < position) →
        ∃ owned ∈ lower, owned.1 = other := by
  have rest := sameRest_property before after name position body
  obtain ⟨lower, upper, without, within, below⟩ := exists_callablesByPosition_around before after
    ⟨name, .property, position, body, none⟩
  have free : Callable.ownerAmong ⟨name, .property, position, body, none⟩
      (typeTable (before ++ after)) ((before ++ after).filterMap Declaration.scope?) = none :=
    ownerAmong_of_outside rfl outside _
  refine ⟨lower.map fun callable => (callable, callable.ownerAmong (typeTable (before ++ after))
      ((before ++ after).filterMap Declaration.scope?)),
    upper.map fun callable => (callable, callable.ownerAmong (typeTable (before ++ after))
      ((before ++ after).filterMap Declaration.scope?)), ?_, ?_, ?_⟩
  · rw [ownedCallables, without, List.map_append]
  · rw [ownedCallables, typeTable_eq_of_sameRest rest, scopes_eq_of_sameRest rest,
      Declaration.member, within, List.map_append, List.map_cons, free]
  · intro other place
    exact ⟨_, List.mem_map.mpr ⟨other, below other place, rfl⟩, rfl⟩

/-- Without the property the same names and methods are known, and under other names the same
bodies. -/
theorem classifyNames_without_property :
    (classifyNames (before ++ .member name .property position body :: after)).Agrees
        (classifyNames (before ++ after)) ∧
      ∀ searched,
        (searched = name → body = none ∨ BodyPrecedes before after name position) →
        (classifyNames (before ++ .member name .property position body :: after)).bodies.lookup
            searched =
          (classifyNames (before ++ after)).bodies.lookup searched := by
  have rest := sameRest_property before after name position body
  obtain ⟨lower, upper, without, within, below⟩ := exists_ownedCallables_around name body outside
  have claimed : ownedNames (lower ++ (⟨name, .property, position, body, none⟩, none) :: upper) =
      ownedNames (lower ++ upper) := by
    simp [ownedNames]
  have bodies : (before ++ .member name .property position body :: after).filterMap
      Declaration.body? = (before ++ after).filterMap Declaration.body? :=
    Declaration.filterMap_eq_of_sameRest (fun _ => rfl) rest
  have plain : (before ++ .member name .property position body :: after).filterMap
      Declaration.plainSymbol? = (before ++ after).filterMap Declaration.plainSymbol? :=
    Declaration.filterMap_eq_of_sameRest (fun _ => rfl) rest
  have settled (precedes : BodyPrecedes before after name position) :=
    settles_of_bodyPrecedes below precedes (ownedNames (lower ++ upper))
  simp only [classifyNames, typeTable_eq_of_sameRest rest, bodies, plain, without, within,
    claimed, List.foldl_append, List.foldl_cons]
  -- The two runs are one up to the property, and part there in the bodies only.
  generalize lower.foldl _ _ = known at settled ⊢
  have parted : (known.add (ownedNames (lower ++ upper))
      (⟨name, .property, position, body, none⟩, none)).Agrees known :=
    Classification.agrees_add_property rfl
  obtain ⟨agrees, added, withBodies, withoutBodies⟩ := parted.foldl_add upper
  refine ⟨⟨by rw [agrees.table], agrees.methods⟩, fun searched unneeded => ?_⟩
  rw [withBodies, withoutBodies]
  apply Classification.lookup_add_bodies
  rintro rfl
  exact (unneeded rfl).imp_right settled

end Property

/-- Leaving out a property that no scope holds changes neither the table nor the relations of
other names nor bases and methods of its own name.  It changes nothing at all if it has no
body, if its name is a type or if another body of its name comes first. -/
theorem resolve_without_property (before after : List Declaration) (name : String)
    (position : Nat) (body : Option Span) (source : Text) (deadline : Deadline)
    (outside : ∀ scope ∈ (before ++ after).filterMap Declaration.scope?,
      scope.body.contains position = false)
    (lasts : deadline.expired = false) :
    ∃ full rest,
      resolve (before ++ .member name .property position body :: after) source deadline =
        .ok full ∧
      resolve (before ++ after) source deadline = .ok rest ∧
      full.table = rest.table ∧
      (∀ other, other ≠ name → full.relations.get other = rest.relations.get other) ∧
      (full.relations.get name).filter Relation.isStructural =
        (rest.relations.get name).filter Relation.isStructural ∧
      (body = none ∨ BodyPrecedes before after name position → full = rest) := by
  obtain ⟨agrees, sameBodies⟩ := classifyNames_without_property name body outside
  have sameRest := sameRest_property before after name position body
  have relations (symbol : Symbol)
      (unneeded : symbol.name = name → body = none ∨ BodyPrecedes before after name position) :
      (classifyNames (before ++ .member name .property position body :: after)).relationsOf
          (before ++ .member name .property position body :: after) source symbol =
        (classifyNames (before ++ after)).relationsOf (before ++ after) source symbol := by
    rw [relationsOf_eq_of_sameRest sameRest]
    exact Classification.relationsOf_of_agrees agrees (sameBodies symbol.name unneeded)
  refine ⟨_, _, resolve_of_lasting _ source lasts, resolve_of_lasting _ source lasts,
    agrees.table, fun other different => ?_, ?_, fun unneeded => ?_⟩
  · simp only [get_foundRelations, agrees.table]
    cases found : ((classifyNames (before ++ after)).table.symbols.filter (!·.isMember)).find?
        (·.name == other) with
    | none => rfl
    | some symbol =>
        have named : symbol.name = other := by simpa using List.find?_some found
        exact relations symbol fun same => absurd (named.symm.trans same) different
  · simp only [get_foundRelations, agrees.table]
    cases ((classifyNames (before ++ after)).table.symbols.filter (!·.isMember)).find?
        (·.name == name) with
    | none => rfl
    | some symbol =>
        simp only [Option.elim_some, relationsOf_eq_of_sameRest sameRest]
        exact Classification.filter_isStructural_relationsOf agrees
  · have sameFound : foundRelations (before ++ .member name .property position body :: after)
        source = foundRelations (before ++ after) source := by
      simp only [foundRelations, agrees.table, relations _ fun _ => unneeded]
    rw [agrees.table, sameFound]

/-- A class with a property and, behind it, a property of the same name that no scope holds. -/
def secondSizeBefore : List Declaration :=
  [.type "Store" .class (some ⟨0, 20⟩), .member "size" .property 5 (some ⟨6, 10⟩)]

def secondSizeAfter : List Declaration :=
  [.function "main" 40 (some ⟨0, 6⟩), .function "helper" 60 none]

theorem resolve_without_secondSize :
    (∀ scope ∈ (secondSizeBefore ++ secondSizeAfter).filterMap Declaration.scope?,
        scope.body.contains 30 = false) ∧
      Deadline.unbounded.expired = false ∧
      BodyPrecedes secondSizeBefore secondSizeAfter "size" 30 ∧
      ∃ analysis,
        resolve (secondSizeBefore ++ .member "size" .property 30 (some ⟨0, 6⟩) :: secondSizeAfter)
          "helper".toList .unbounded = .ok analysis ∧
        resolve (secondSizeBefore ++ secondSizeAfter) "helper".toList .unbounded =
          .ok analysis := by
  have outside : ∀ scope ∈ (secondSizeBefore ++ secondSizeAfter).filterMap Declaration.scope?,
      scope.body.contains 30 = false := by
    decide
  have precedes : BodyPrecedes secondSizeBefore secondSizeAfter "size" 30 :=
    Or.inr (Or.inr ⟨⟨"size", .property, 5, some ⟨6, 10⟩, none⟩, rfl, rfl, Or.inl (by decide)⟩)
  obtain ⟨full, rest, fullResolved, restResolved, -, -, -, same⟩ :=
    resolve_without_property secondSizeBefore secondSizeAfter "size" 30 (some ⟨0, 6⟩)
      "helper".toList .unbounded outside rfl
  exact ⟨outside, rfl, precedes, rest, same (Or.inr precedes) ▸ fullResolved, restResolved⟩

/-- A function without body beside another one. -/
def bodilessSize : List Declaration :=
  [.function "size" 10 none, .function "helper" 20 none]

/-- With a property of its name in front the function uses what the body of the property
mentions, although no scope holds the property. -/
theorem dropped_property_lends_body :
    (∀ scope ∈ bodilessSize.filterMap Declaration.scope?, scope.body.contains 0 = false) ∧
      resolve (.member "size" .property 0 (some ⟨0, 6⟩) :: bodilessSize) "helper".toList
          .unbounded =
        .ok ⟨⟨[⟨"size", .function, none⟩, ⟨"helper", .function, none⟩]⟩,
          ⟨[("size", [.uses "helper"])]⟩⟩ ∧
      resolve bodilessSize "helper".toList .unbounded =
        .ok ⟨⟨[⟨"size", .function, none⟩, ⟨"helper", .function, none⟩]⟩, ⟨[]⟩⟩ ∧
      resolve (.member "size" .property 0 (some ⟨0, 6⟩) :: bodilessSize) "helper".toList
          .unbounded ≠
        resolve bodilessSize "helper".toList .unbounded := by
  have full : resolve (.member "size" .property 0 (some ⟨0, 6⟩) :: bodilessSize)
      "helper".toList .unbounded =
        .ok ⟨⟨[⟨"size", .function, none⟩, ⟨"helper", .function, none⟩]⟩,
          ⟨[("size", [.uses "helper"])]⟩⟩ := by
    rw [resolve_of_lasting _ _ rfl, foundRelations, classifyNames, ownedCallables,
      callablesByPosition_of_ascending (by decide)]
    decide +kernel
  have rest : resolve bodilessSize "helper".toList .unbounded =
      .ok ⟨⟨[⟨"size", .function, none⟩, ⟨"helper", .function, none⟩]⟩, ⟨[]⟩⟩ := by
    rw [resolve_of_lasting _ _ rfl, foundRelations, classifyNames, ownedCallables,
      callablesByPosition_of_ascending (by decide)]
    decide +kernel
  refine ⟨by decide, full, rest, ?_⟩
  rw [full, rest]
  simp

end SourceAtlas
