import SourceAtlas.Proofs.InnermostScope

/-!
# Rule sets whose budget has run out

Every reading of a rule set begins with a pattern that is matched under the deadline, so a
budget that is spent fails it at once, whatever the text is.  A budget that lasts makes no
difference to the result.  Resolution alone can pass a deadline by: it looks at the deadline
for every symbol that is no member, so it fails as soon as there is a symbol at all.
-/

namespace SourceAtlas

/-- A run fails if its budget is spent, and under all other deadlines it gives the same
result. -/
def AllOrNothing {α : Type} (run : Deadline → Except Timeout α) : Prop :=
  (∀ milliseconds elapsed, milliseconds ≤ elapsed →
      run (.after milliseconds elapsed) = .error ⟨milliseconds⟩) ∧
    ∃ value, ∀ deadline, deadline.expired = false → run deadline = .ok value

/-- All that a rule set reads, it reads as a whole or not at all. -/
structure RuleSet.AllOrNothing (rules : RuleSet) : Prop where
  outline (caps : DisplayCaps) (source : Text) :
    SourceAtlas.AllOrNothing fun deadline => rules.outline ⟨deadline, caps⟩ source
  dependencies (caps : DisplayCaps) (source : Text) :
    SourceAtlas.AllOrNothing fun deadline => rules.dependencies ⟨deadline, caps⟩ source
  relations (caps : DisplayCaps) (source : Text) :
    SourceAtlas.AllOrNothing fun deadline => rules.relations ⟨deadline, caps⟩ source

theorem AllOrNothing.intro {α : Type} {run : Deadline → Except Timeout α} {value : α}
    (fails : ∀ milliseconds elapsed, milliseconds ≤ elapsed →
      run (.after milliseconds elapsed) = .error ⟨milliseconds⟩)
    (succeeds : ∀ deadline, deadline.expired = false → run deadline = .ok value) :
    AllOrNothing run :=
  ⟨fails, value, succeeds⟩

section Spent

variable {milliseconds elapsed : Nat} (spent : milliseconds ≤ elapsed)

include spent

theorem Deadline.check_of_spent :
    (Deadline.after milliseconds elapsed).check = .error ⟨milliseconds⟩ := by
  rw [Deadline.check, if_pos spent]

theorem Pattern.matchesWithin_of_spent (pattern : Pattern) (text : Text) :
    pattern.matchesWithin (.after milliseconds elapsed) text = .error ⟨milliseconds⟩ := by
  rw [Pattern.matchesWithin, Deadline.check_of_spent spent]
  rfl

theorem Pattern.firstWithin_of_spent (pattern : Pattern) (text : Text) :
    pattern.firstWithin (.after milliseconds elapsed) text = .error ⟨milliseconds⟩ := by
  rw [Pattern.firstWithin, Deadline.check_of_spent spent]
  rfl

end Spent

/-- Resolution comes behind the reading of the declarations, which fails first. -/
theorem AllOrNothing.resolve {read : Deadline → Except Timeout (List Declaration)}
    (reads : AllOrNothing read) (source : Text) :
    AllOrNothing fun deadline =>
      (do SourceAtlas.resolve (← read deadline) source deadline) := by
  obtain ⟨fails, declarations, succeeds⟩ := reads
  apply AllOrNothing.intro
  · intro milliseconds elapsed spent
    simp only [fails milliseconds elapsed spent]
    rfl
  · intro deadline lasts
    simp only [succeeds deadline lasts]
    exact resolve_of_lasting declarations source lasts

namespace Python

theorem rules_allOrNothing : rules.AllOrNothing where
  outline caps source := by
    apply AllOrNothing.intro
    · intro milliseconds elapsed spent
      simp only [rules, outline, blocks, Pattern.matchesWithin_of_spent spent]
      rfl
    · intro deadline lasts
      simp only [rules, outline, blocks_of_lasting lasts]
      rfl
  dependencies caps source := by
    apply AllOrNothing.intro
    · intro milliseconds elapsed spent
      simp only [rules, dependencies, Pattern.matchesWithin_of_spent spent]
      rfl
    · intro deadline lasts
      simp only [rules, dependencies, blocks_of_lasting lasts,
        Pattern.matchesWithin_of_lasting _ lasts, Pattern.firstWithin_of_lasting _ lasts]
      rfl
  relations caps source := by
    apply AllOrNothing.resolve
    apply AllOrNothing.intro
    · intro milliseconds elapsed spent
      simp only [declarations, blocks, Pattern.matchesWithin_of_spent spent]
      rfl
    · intro deadline lasts
      simp only [declarations, blocks_of_lasting lasts]
      rfl

end Python

namespace Rust

theorem rules_allOrNothing : rules.AllOrNothing where
  outline caps source := by
    apply AllOrNothing.intro
    · intro milliseconds elapsed spent
      simp only [rules, outline, Pattern.matchesWithin_of_spent spent]
      rfl
    · intro deadline lasts
      simp only [rules, outline, Pattern.matchesWithin_of_lasting _ lasts]
      rfl
  dependencies caps source := by
    apply AllOrNothing.intro
    · intro milliseconds elapsed spent
      simp only [rules, dependencies, Pattern.matchesWithin_of_spent spent]
      rfl
    · intro deadline lasts
      simp only [rules, dependencies, Pattern.matchesWithin_of_lasting _ lasts]
      rfl
  relations caps source := by
    apply AllOrNothing.resolve
    apply AllOrNothing.intro
    · intro milliseconds elapsed spent
      simp only [declarations, Pattern.matchesWithin_of_spent spent]
      rfl
    · intro deadline lasts
      simp only [declarations, Pattern.matchesWithin_of_lasting _ lasts]
      rfl

end Rust

namespace Java

theorem rules_allOrNothing : rules.AllOrNothing where
  outline caps source := by
    apply AllOrNothing.intro
    · intro milliseconds elapsed spent
      simp only [rules, outline, Pattern.firstWithin_of_spent spent]
      rfl
    · intro deadline lasts
      simp only [rules, outline, methods, Pattern.matchesWithin_of_lasting _ lasts,
        Pattern.firstWithin_of_lasting _ lasts]
      rfl
  dependencies caps source := by
    apply AllOrNothing.intro
    · intro milliseconds elapsed spent
      simp only [rules, dependencies, Pattern.matchesWithin_of_spent spent]
      rfl
    · intro deadline lasts
      simp only [rules, dependencies, methods, Pattern.matchesWithin_of_lasting _ lasts]
      rfl
  relations caps source := by
    apply AllOrNothing.resolve
    apply AllOrNothing.intro
    · intro milliseconds elapsed spent
      simp only [declarations, Pattern.matchesWithin_of_spent spent]
      rfl
    · intro deadline lasts
      simp only [declarations, methods, Pattern.matchesWithin_of_lasting _ lasts]
      rfl

end Java

namespace CSharp

theorem rules_allOrNothing : rules.AllOrNothing where
  outline caps source := by
    apply AllOrNothing.intro
    · intro milliseconds elapsed spent
      simp only [rules, outline, namespace?, Pattern.firstWithin_of_spent spent]
      rfl
    · intro deadline lasts
      simp only [rules, outline, namespace?, types, methods,
        Pattern.matchesWithin_of_lasting _ lasts, Pattern.firstWithin_of_lasting _ lasts]
      rfl
  dependencies caps source := by
    apply AllOrNothing.intro
    · intro milliseconds elapsed spent
      simp only [rules, dependencies, Pattern.matchesWithin_of_spent spent]
      rfl
    · intro deadline lasts
      simp only [rules, dependencies, namespace?, types, methods, properties,
        Pattern.matchesWithin_of_lasting _ lasts, Pattern.firstWithin_of_lasting _ lasts]
      rfl
  relations caps source := by
    apply AllOrNothing.resolve
    apply AllOrNothing.intro
    · intro milliseconds elapsed spent
      simp only [declarations, namespace?, Pattern.firstWithin_of_spent spent]
      rfl
    · intro deadline lasts
      simp only [declarations, namespace?, types, methods, properties,
        Pattern.matchesWithin_of_lasting _ lasts, Pattern.firstWithin_of_lasting _ lasts]
      rfl

end CSharp

namespace JavaScript

theorem rules_allOrNothing (dialect : Dialect) : (rules dialect).AllOrNothing where
  outline caps source := by
    apply AllOrNothing.intro
    · intro milliseconds elapsed spent
      simp only [rules, outline, importLines, Pattern.matchesWithin_of_spent spent]
      rfl
    · intro deadline lasts
      simp only [rules, outline, importLines, typescriptOnly_of_lasting lasts, classes,
        functions, variableNames, Pattern.matchesWithin_of_lasting _ lasts]
      rfl
  dependencies caps source := by
    apply AllOrNothing.intro
    · intro milliseconds elapsed spent
      simp only [rules, dependencies, Pattern.matchesWithin_of_spent spent]
      rfl
    · intro deadline lasts
      simp only [rules, dependencies, Pattern.matchesWithin_of_lasting _ lasts]
      rfl
  relations caps source := by
    apply AllOrNothing.resolve
    apply AllOrNothing.intro
    · intro milliseconds elapsed spent
      simp only [declarations, classes, Pattern.matchesWithin_of_spent spent]
      rfl
    · intro deadline lasts
      simp only [declarations, classes, typescriptOnly_of_lasting lasts, functions,
        variableNames, Pattern.matchesWithin_of_lasting _ lasts]
      rfl

end JavaScript

namespace CFamily

theorem rules_allOrNothing (dialect : Dialect) : (rules dialect).AllOrNothing where
  outline caps source := by
    apply AllOrNothing.intro
    · intro milliseconds elapsed spent
      -- What only C++ has is not looked for in C, so there the structures come first.
      simp only [rules, outline, cppOnly, Pattern.matchesWithin_of_spent spent]
      cases dialect with
      | c => rfl
      | cpp => rfl
    · intro deadline lasts
      simp only [rules, outline, functions_of_lasting lasts, cppOnly_of_lasting _ _ lasts,
        Pattern.matchesWithin_of_lasting _ lasts]
      rfl
  dependencies caps source := by
    apply AllOrNothing.intro
    · intro milliseconds elapsed spent
      simp only [rules, dependencies, Pattern.matchesWithin_of_spent spent]
      rfl
    · intro deadline lasts
      simp only [rules, dependencies, functions_of_lasting lasts,
        cppOnly_of_lasting _ _ lasts, Pattern.matchesWithin_of_lasting _ lasts]
      rfl
  relations caps source := by
    apply AllOrNothing.resolve
    apply AllOrNothing.intro
    · intro milliseconds elapsed spent
      simp only [declarations, cppOnly, Pattern.matchesWithin_of_spent spent]
      cases dialect with
      | c => rfl
      | cpp => rfl
    · intro deadline lasts
      simp only [declarations, functions_of_lasting lasts, cppOnly_of_lasting _ _ lasts,
        Pattern.matchesWithin_of_lasting _ lasts]
      rfl

end CFamily

theorem Language.rules_allOrNothing {language : Language} {rules : RuleSet}
    (ruled : language.rules? = some rules) : rules.AllOrNothing := by
  cases language <;> simp only [Language.rules?, Option.some.injEq, reduceCtorEq] at ruled
  all_goals rw [← ruled]
  case python => exact Python.rules_allOrNothing
  case javascript | typescript => exact JavaScript.rules_allOrNothing _
  case rust => exact Rust.rules_allOrNothing
  case java => exact Java.rules_allOrNothing
  case c | cpp => exact CFamily.rules_allOrNothing _
  case csharp => exact CSharp.rules_allOrNothing

section Resolution

variable {declarations : List Declaration}

/-- A table with a symbol has one that is no member: a member comes with the type that owns
it. -/
theorem exists_isMember_eq_false {symbol : Symbol}
    (known : symbol ∈ (classifyNames declarations).table.symbols) :
    ∃ free ∈ (classifyNames declarations).table.symbols, free.isMember = false := by
  obtain ⟨added, extended, inserted⟩ := SymbolTable.insertAll_symbols_extend
    (typeTable declarations)
    (calledSymbols declarations ++ declarations.filterMap Declaration.plainSymbol?)
  rw [← classifyNames_table] at extended
  cases owned : symbol.owner with
  | none => exact ⟨symbol, known, by rw [Symbol.isMember, owned]; rfl⟩
  | some owner =>
      have typed : ∃ type, type ∈ (typeTable declarations).symbols := by
        rw [extended, List.mem_append] at known
        rcases known with type | behind
        · exact ⟨symbol, type⟩
        rcases List.mem_append.mp (inserted.subset behind) with called | plain
        · obtain ⟨⟨callable, given⟩, listed, entered⟩ := List.mem_filterMap.mp called
          rw [(calledSymbol?_spec entered).2.1] at owned
          have isType := hasType_of_mem_ownedCallables listed owned
          obtain ⟨type, found, -⟩ := (Option.any_eq_true _ _).mp isType
          exact ⟨type, SymbolTable.mem_of_get? found⟩
        · obtain ⟨declaration, -, made⟩ := List.mem_filterMap.mp plain
          cases declaration <;> simp [Declaration.plainSymbol?] at made
          simp [← made] at owned
      obtain ⟨type, declared⟩ := typed
      refine ⟨type, ?_, by rw [Symbol.isMember, owner_of_mem_typeTable declared]; rfl⟩
      rw [extended]
      exact List.mem_append_left _ declared

theorem resolve_of_spent (declarations : List Declaration) (source : Text)
    {milliseconds elapsed : Nat} (spent : milliseconds ≤ elapsed) :
    resolve declarations source (.after milliseconds elapsed) =
      if (classifyNames declarations).table.isEmpty then .ok {} else .error ⟨milliseconds⟩ := by
  simp only [resolve, Deadline.check_of_spent spent]
  cases sources : (classifyNames declarations).table.symbols.filter (!·.isMember) with
  | nil =>
      have empty : (classifyNames declarations).table.symbols = [] := by
        by_contra notEmpty
        obtain ⟨symbol, known⟩ := List.exists_mem_of_ne_nil _ notEmpty
        obtain ⟨free, listed, isFree⟩ := exists_isMember_eq_false known
        exact absurd isFree (by simpa using List.filter_eq_nil_iff.mp sources free listed)
      have table : (classifyNames declarations).table = {} := by
        rw [← empty]
      rw [table]
      rfl
  | cons symbol others =>
      have listed : symbol ∈ (classifyNames declarations).table.symbols :=
        List.mem_of_mem_filter (sources ▸ List.mem_cons_self)
      rw [SymbolTable.isEmpty, List.isEmpty_eq_false_iff.mpr (List.ne_nil_of_mem listed)]
      rfl

end Resolution

end SourceAtlas
