import SourceAtlas.Proofs.ByteOffsets
import SourceAtlas.Proofs.DeclaredRelations
import SourceAtlas.Proofs.WordSplitting

/-!
# Uses and the words of a body

A use is looked for in the first bytes of a body, and the limit may fall inside a word.
The name that is used is therefore a word of the body, or else the beginning of the one
word that the limit divides.
-/

namespace SourceAtlas

namespace Text

/-- Whether a range lies in a text and begins and ends between two characters. -/
def IsAligned (source : Text) (span : Span) : Prop :=
  ∃ before body after, source = before ++ (body ++ after) ∧
    span = ⟨byteLength before, byteLength before + byteLength body⟩

/-- The part of an aligned range that a limit leaves over begins with the range, and it is
all of the range if that is not longer than the limit. -/
theorem IsAligned.slice_eq_append {source : Text} {span : Span} (aligned : IsAligned source span)
    (limit : Nat) :
    ∃ back, slice source span = boundedSlice source span limit ++ back ∧
      (span.length ≤ limit → back = []) := by
  obtain ⟨before, body, after, rfl, rfl⟩ := aligned
  have whole : slice (before ++ (body ++ after))
      ⟨byteLength before, byteLength before + byteLength body⟩ = body := by
    rw [slice_append, takeBytes_append_of_le (Nat.le_refl _),
      takeBytes_of_byteLength_le (Nat.le_refl _)]
  have bounded : boundedSlice (before ++ (body ++ after))
      ⟨byteLength before, byteLength before + byteLength body⟩ limit =
        takeBytes body (min (byteLength body) limit) := by
    rw [boundedSlice_append, Nat.add_sub_cancel_left,
      takeBytes_append_of_le (Nat.min_le_left _ _)]
  obtain ⟨back, split⟩ := takeBytes_prefix body (min (byteLength body) limit)
  rw [whole, bounded]
  refine ⟨back, split.symm, ?_⟩
  intro short
  have fits : byteLength body ≤ limit := by
    simpa [Span.length] using short
  rw [Nat.min_eq_left fits, takeBytes_of_byteLength_le (Nat.le_refl _)] at split
  exact List.append_right_eq_self.mp split

end Text

namespace Declaration

/-- The body that a declaration gives to a name. -/
def givenBody? : Declaration → Option (String × Span)
  | type name _ body | symbol name _ body => body.map fun span => (name, span)
  | callable declared => declared.body.map fun span => (declared.name, span)
  | scope _ _ | base _ _ => none

/-- Whether the body that a declaration gives to a name, if any, is an aligned range of a
text. -/
def Aligned (source : Text) (declaration : Declaration) : Prop :=
  ∀ name span, declaration.givenBody? = some (name, span) → Text.IsAligned source span

end Declaration

theorem mem_foldl_add_bodies {namesOwned : List String}
    {callables : List (Callable × Option String)} {known : Classification}
    {named : String × Span}
    (member : named ∈ (callables.foldl (Classification.add namesOwned) known).bodies) :
    named ∈ known.bodies ∨
      ∃ owned ∈ callables, owned.1.body.map (fun span => (owned.1.name, span)) = some named := by
  induction callables generalizing known with
  | nil => exact Or.inl member
  | cons owned callables ih =>
      rcases ih member with before | ⟨later, listed, given⟩
      · rw [Classification.add_bodies, List.mem_append, Option.mem_toList] at before
        rcases before with old | new
        · exact Or.inl old
        · rw [namedBody?, Option.ite_none_left_eq_some] at new
          exact Or.inr ⟨owned, List.mem_cons_self, new.2⟩
      · exact Or.inr ⟨later, List.mem_cons_of_mem _ listed, given⟩

section Bodies

variable {declarations : List Declaration}

/-- Every body that is searched is given by a declaration. -/
theorem exists_givenBody? {named : String × Span}
    (member : named ∈ (classifyNames declarations).bodies) :
    ∃ declaration ∈ declarations, declaration.givenBody? = some named := by
  rcases mem_foldl_add_bodies member with direct | ⟨owned, listed, given⟩
  · obtain ⟨declaration, declared, made⟩ := List.mem_filterMap.mp direct
    refine ⟨declaration, declared, ?_⟩
    cases declaration with
    | type name kind body | symbol name kind body =>
        cases body with
        | none => simp [Declaration.body?] at made
        | some span => exact made
    | scope | base | callable => simp [Declaration.body?] at made
  · obtain ⟨callable, sorted, rfl⟩ := List.mem_map.mp listed
    obtain ⟨declaration, declared, made⟩ :=
      List.mem_filterMap.mp (mem_callablesByPosition.mp sorted)
    refine ⟨declaration, declared, ?_⟩
    cases declaration <;> simp [Declaration.callable?] at made
    rw [made]
    exact given

theorem isAligned_of_lookup {source : Text}
    (aligned : ∀ declaration ∈ declarations, declaration.Aligned source) {name : String}
    {body : Span} (found : (classifyNames declarations).bodies.lookup name = some body) :
    Text.IsAligned source body := by
  obtain ⟨declaration, declared, given⟩ := exists_givenBody? (mem_of_lookup found)
  exact aligned declaration declared name body given

variable (declarations) (source : Text)

/-- The relations under a name are those of the symbol of that name, unless it is a member. -/
theorem get_foundRelations (name : String) :
    ((foundRelations declarations source).foldl
        (fun map (name, relations) => map.pushAll name relations) ({} : RelationMap)).get name =
      (((classifyNames declarations).table.symbols.filter (!·.isMember)).find?
        (·.name == name)).elim []
          ((classifyNames declarations).relationsOf declarations source) := by
  have distinct := foundRelations_names_nodup declarations source
  have entries := RelationMap.foldl_pushAll_entries (foundRelations declarations source) {}
    distinct (by simp)
  rw [RelationMap.get, entries, List.nil_append]
  cases found : ((classifyNames declarations).table.symbols.filter (!·.isMember)).find?
      (·.name == name) with
  | none =>
      have absent : ((foundRelations declarations source).filter (!·.2.isEmpty)).lookup name =
          none := by
        rw [List.lookup_eq_none_iff]
        intro entry kept
        obtain ⟨symbol, listed, rfl⟩ := List.mem_map.mp (List.mem_filter.mp kept).1
        have different : symbol.name ≠ name := by
          simpa using List.find?_eq_none.mp found symbol listed
        simpa using different.symm
      rw [absent]
      rfl
  | some symbol =>
      have named : symbol.name = name := by simpa using List.find?_some found
      have listed : (name, (classifyNames declarations).relationsOf declarations source symbol) ∈
          foundRelations declarations source :=
        List.mem_map.mpr ⟨symbol, List.mem_of_find?_eq_some found, by rw [named]⟩
      exact RelationMap.getD_lookup_filter distinct listed

theorem mem_get_iff_exists_symbol {name : String} {relation : Relation} :
    relation ∈ ((foundRelations declarations source).foldl
        (fun map (name, relations) => map.pushAll name relations) ({} : RelationMap)).get name ↔
      ∃ symbol ∈ (classifyNames declarations).table.symbols,
        symbol.isMember = false ∧ symbol.name = name ∧
          relation ∈ (classifyNames declarations).relationsOf declarations source symbol := by
  rw [get_foundRelations]
  constructor
  · intro related
    cases found : ((classifyNames declarations).table.symbols.filter (!·.isMember)).find?
        (·.name == name) with
    | none => simp [found] at related
    | some symbol =>
        rw [found, Option.elim_some] at related
        obtain ⟨known, free⟩ := List.mem_filter.mp (List.mem_of_find?_eq_some found)
        exact ⟨symbol, known, by simpa using free, by simpa using List.find?_some found, related⟩
  · rintro ⟨symbol, known, free, rfl, related⟩
    have distinct : (((classifyNames declarations).table.symbols.filter (!·.isMember)).map
        (·.name)).Nodup :=
      (classifyNames_names_nodup declarations).sublist (List.filter_sublist.map _)
    have found : SymbolTable.get? ⟨(classifyNames declarations).table.symbols.filter
        (!·.isMember)⟩ symbol.name = some symbol :=
      (SymbolTable.get?_eq_some_iff distinct).mpr
        ⟨List.mem_filter.mpr ⟨known, by simp [free]⟩, rfl⟩
    rw [SymbolTable.get?] at found
    rwa [found]

theorem exists_symbol_of_mem_get {name : String} {relation : Relation}
    (related : relation ∈ ((foundRelations declarations source).foldl
      (fun map (name, relations) => map.pushAll name relations) ({} : RelationMap)).get name) :
    ∃ symbol ∈ (classifyNames declarations).table.symbols,
      symbol.name = name ∧
        relation ∈ (classifyNames declarations).relationsOf declarations source symbol := by
  obtain ⟨symbol, known, -, found⟩ :=
    (mem_get_iff_exists_symbol declarations source).mp related
  exact ⟨symbol, known, found⟩

/-- A name is used if it is a word of the part of the body that is searched. -/
theorem exists_body_of_uses {symbol : Symbol} {target : String}
    (related : .uses target ∈
      (classifyNames declarations).relationsOf declarations source symbol) :
    ∃ body, (classifyNames declarations).bodies.lookup symbol.name = some body ∧
      target.toList ∈
        Text.words (Text.boundedSlice source body symbol.kind.sliceLimit) := by
  have used : target ∈ (classifyNames declarations).usedNames source symbol := by
    simpa [Classification.relationsOf] using related
  rw [Classification.usedNames] at used
  split at used
  · simp at used
  case h_2 body found =>
    refine ⟨body, found, ?_⟩
    have seen := (List.mem_filter.mp used).2
    rw [contains_map_ofList] at seen
    simp only [Bool.and_eq_true, List.contains_iff_mem] at seen
    exact seen.2

end Bodies

/-- If a symbol uses a name, the name is a word of the searched part of the body of that
symbol.  Then it is a word of the whole body, or the body is longer than what is searched
and the name is all that the limit leaves of the word in which it falls. -/
theorem uses_words_of_body (declarations : List Declaration) (source : Text)
    (deadline : Deadline)
    (aligned : ∀ declaration ∈ declarations, declaration.Aligned source)
    (lasts : deadline.expired = false) :
    ∃ analysis, resolve declarations source deadline = .ok analysis ∧
      ∀ name target, .uses target ∈ analysis.relations.get name →
        ∃ symbol ∈ analysis.table.symbols, symbol.name = name ∧
          ∃ body front back,
            (classifyNames declarations).bodies.lookup name = some body ∧
            (∃ declaration ∈ declarations, declaration.givenBody? = some (name, body)) ∧
            front = Text.boundedSlice source body (if symbol.kind.isType then 2000 else 1000) ∧
            Text.slice source body = front ++ back ∧
            target.toList ∈ Text.words front ∧
            (target.toList ∈ Text.words (Text.slice source body) ∨
              (if symbol.kind.isType then 2000 else 1000) < body.length ∧
                target.toList = Text.trailingWord front ∧ Text.leadingWord back ≠ [] ∧
                target.toList ++ Text.leadingWord back ∈
                  Text.words (Text.slice source body)) := by
  refine ⟨_, resolve_of_lasting declarations source lasts, ?_⟩
  intro name target related
  obtain ⟨symbol, known, rfl, found⟩ := exists_symbol_of_mem_get declarations source related
  obtain ⟨body, given, used⟩ := exists_body_of_uses declarations source found
  obtain ⟨back, split, whole⟩ :=
    (isAligned_of_lookup aligned given).slice_eq_append symbol.kind.sliceLimit
  refine ⟨symbol, known, rfl, body, _, back, given, exists_givenBody? (mem_of_lookup given), rfl,
    split, used, ?_⟩
  rw [split]
  -- A word of the searched part goes on behind it only if it is the last one there.
  rcases Text.mem_words_of_append used with word | ⟨cut, goesOn, divided⟩
  · exact Or.inl word
  · refine Or.inr ⟨?_, cut, goesOn, divided⟩
    have longer : ¬ body.length ≤ symbol.kind.sliceLimit := by
      intro short
      rw [whole short] at goesOn
      exact goesOn rfl
    exact Nat.lt_of_not_le longer

/-- A text whose thousandth byte is inside a word. -/
def dividedText : Text :=
  List.replicate 994 ' ' ++ "helperX".toList

/-- A function whose body ends in a word that begins with the name of another function. -/
def dividedUse : List Declaration :=
  [.function "caller" 0 (some ⟨0, 1001⟩), .function "helper" 1001 none]

theorem dividedUse_aligned : ∀ declaration ∈ dividedUse, declaration.Aligned dividedText := by
  have whole : Text.IsAligned dividedText ⟨0, 1001⟩ := by
    refine ⟨[], dividedText, [], by simp, ?_⟩
    decide +kernel
  simp only [dividedUse, List.forall_mem_cons]
  refine ⟨?_, ?_, by simp⟩
  · intro name span given
    obtain ⟨-, rfl⟩ := Prod.mk.inj (Option.some.inj given)
    exact whole
  · intro name span given
    simp [Declaration.givenBody?, Declaration.function] at given

theorem classifyNames_dividedUse :
    classifyNames dividedUse =
      ⟨⟨[⟨"caller", .function, none⟩, ⟨"helper", .function, none⟩]⟩, [],
        [("caller", ⟨0, 1001⟩)]⟩ := by
  rw [classifyNames, ownedCallables, callablesByPosition_of_ascending (by decide)]
  rfl

theorem foundRelations_dividedUse :
    foundRelations dividedUse dividedText =
      [("caller", [.uses "helper"]), ("helper", [])] := by
  rw [foundRelations, classifyNames_dividedUse]
  decide +kernel

theorem uses_dividedUse {analysis : Analysis}
    (resolved : resolve dividedUse dividedText .unbounded = .ok analysis) :
    .uses "helper" ∈ analysis.relations.get "caller" := by
  rw [resolve_of_lasting _ _ rfl, Except.ok.injEq, foundRelations_dividedUse] at resolved
  rw [← resolved]
  decide +kernel

theorem helper_not_mem_words :
    "helper".toList ∉ Text.words (Text.slice dividedText ⟨0, 1001⟩) := by
  decide +kernel

/-- The limit falls behind `helper` and in front of the last letter of the body. -/
theorem uses_dividedWord :
    (∀ declaration ∈ dividedUse, declaration.Aligned dividedText) ∧
      Deadline.unbounded.expired = false ∧
      ∃ analysis, resolve dividedUse dividedText .unbounded = .ok analysis ∧
        .uses "helper" ∈ analysis.relations.get "caller" ∧
        ∃ front back, Text.slice dividedText ⟨0, 1001⟩ = front ++ back ∧
          "helper".toList = Text.trailingWord front ∧ Text.leadingWord back ≠ [] ∧
          "helper".toList ++ Text.leadingWord back ∈
            Text.words (Text.slice dividedText ⟨0, 1001⟩) := by
  obtain ⟨analysis, resolved, justified⟩ :=
    uses_words_of_body dividedUse dividedText .unbounded dividedUse_aligned rfl
  have used := uses_dividedUse resolved
  obtain ⟨symbol, -, -, body, front, back, given, -, -, split, -, found⟩ :=
    justified "caller" "helper" used
  have same : body = ⟨0, 1001⟩ := by
    rw [classifyNames_dividedUse] at given
    simpa using given.symm
  subst same
  obtain ⟨-, cut, goesOn, divided⟩ := found.resolve_left helper_not_mem_words
  exact ⟨dividedUse_aligned, rfl, analysis, resolved, used, front, back, split, cut, goesOn,
    divided⟩

/-- A use is recorded although the name is no word of the body. -/
theorem used_name_not_word_of_body :
    (∀ declaration ∈ dividedUse, declaration.Aligned dividedText) ∧
      Deadline.unbounded.expired = false ∧
      ∃ analysis, resolve dividedUse dividedText .unbounded = .ok analysis ∧
        .uses "helper" ∈ analysis.relations.get "caller" ∧
        (classifyNames dividedUse).bodies.lookup "caller" = some ⟨0, 1001⟩ ∧
        "helper".toList ∉ Text.words (Text.slice dividedText ⟨0, 1001⟩) := by
  have resolved :=
    resolve_of_lasting dividedUse dividedText (show Deadline.unbounded.expired = false from rfl)
  refine ⟨dividedUse_aligned, rfl, _, resolved, uses_dividedUse resolved, ?_,
    helper_not_mem_words⟩
  rw [classifyNames_dividedUse]
  rfl

end SourceAtlas
