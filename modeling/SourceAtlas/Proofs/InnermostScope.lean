import SourceAtlas.Proofs.BraceBodies
import SourceAtlas.Proofs.DeclaredNames
import SourceAtlas.Rules

/-!
# Callables belong to the innermost block around them

The search for the scope of a callable compares lengths only.  Where any two scopes are
nested, the shortest scope around a position lies within all others around it.  In every
language with braces the scopes are bodies in braces, so there the rule by length gives a
callable to the innermost type or implementation around it.
-/

namespace SourceAtlas

/-- What an answer says about the scopes around a position: there are none, or the one
given lies within all others. -/
def IsInnermost (scopes : List Scope) (position : Nat) : Option Scope → Prop
  | none => ∀ scope ∈ scopes, scope.body.contains position = false
  | some innermost =>
      innermost ∈ scopes ∧ innermost.body.contains position = true ∧
        ∀ scope ∈ scopes, scope.body.contains position = true →
          innermost.body.IsWithin scope.body

theorem selects_enclosingScope? (scopes : List Scope) (position : Nat) :
    Selects (·.body.length) (·.body.contains position) scopes
      (enclosingScope? scopes position) := by
  rw [enclosingScope?_eq_firstLeast?]
  exact selects_firstLeast? _ _ scopes

theorem enclosingScope?_isInnermost {scopes : List Scope}
    (nested : ∀ first ∈ scopes, ∀ second ∈ scopes, first.body.IsNested second.body)
    (position : Nat) : IsInnermost scopes position (enclosingScope? scopes position) := by
  have selects := selects_enclosingScope? scopes position
  cases found : enclosingScope? scopes position with
  | none =>
      rw [found] at selects
      exact selects
  | some innermost =>
      rw [found] at selects
      have shortest := @selects.le_key
      obtain ⟨around, before, after, split, -, -⟩ := selects
      have member : innermost ∈ scopes := by simp [split]
      refine ⟨member, around, ?_⟩
      intro scope known inside
      exact (nested innermost member scope known).isWithin_of_length_le around inside
        (shortest known inside)

/-- Whether the block that a declaration owns callables in, if any, is a body in braces. -/
def Declaration.Braced (source : Text) (declaration : Declaration) : Prop :=
  ∀ scope, declaration.scope? = some scope → Text.IsBraceBody source scope.body

namespace Declaration

variable {source : Text}

@[simp]
theorem braced_base (child parent : String) : (base child parent).Braced source := by
  simp [Braced, scope?]

@[simp]
theorem braced_callable (declared : Callable) : (callable declared).Braced source := by
  simp [Braced, scope?]

@[simp]
theorem braced_symbol (name : String) (kind : SymbolKind) (body : Option Span) :
    (symbol name kind body).Braced source := by
  simp [Braced, scope?]

@[simp]
theorem braced_function (name : String) (position : Nat) (body : Option Span) :
    (function name position body).Braced source :=
  braced_callable _

@[simp]
theorem braced_member (name : String) (kind : SymbolKind) (position : Nat)
    (body : Option Span) : (member name kind position body).Braced source :=
  braced_callable _

theorem braced_scope {owner : String} {body : Span} (found : Text.IsBraceBody source body) :
    (scope owner body).Braced source := by
  intro owned made
  rw [← Option.some.inj made]
  exact found

theorem braced_type (name : String) (kind : SymbolKind) {body : Option Span}
    (found : ∀ span, body = some span → Text.IsBraceBody source span) :
    (type name kind body).Braced source := by
  intro owned made
  cases body with
  | none => simp [scope?] at made
  | some span =>
      rw [← Option.some.inj made]
      exact found span rfl

/-- A type whose body is looked for behind its header. -/
@[simp]
theorem braced_type_braceBody? (name : String) (kind : SymbolKind) (start window : Nat) :
    (type name kind (Text.braceBody? source start window)).Braced source :=
  braced_type name kind fun _ found => ⟨start, window, found⟩

/-- A type whose body opens with the last character of its header. -/
@[simp]
theorem braced_type_match (name : String) (kind : SymbolKind) (found : Match) :
    (type name kind (found.braceBody? source)).Braced source :=
  braced_type_braceBody? name kind _ _

end Declaration

/-- A reading of a text succeeds, and the blocks that own callables are bodies in braces. -/
def ReadsBraced (source : Text) (read : Except Timeout (List Declaration)) : Prop :=
  ∃ declarations, read = .ok declarations ∧
    ∀ declaration ∈ declarations, declaration.Braced source

/-- The matches of a pattern that is only looked for in TypeScript. -/
def JavaScript.typescriptMatches (dialect : JavaScript.Dialect) (pattern : Pattern)
    (source : Text) : List Match :=
  match dialect with
  | .javascript => []
  | .typescript => pattern.matchesIn source

section Languages

variable {deadline : Deadline} (lasts : deadline.expired = false) (source : Text)

include lasts

theorem Rust.declarations_braced :
    ReadsBraced source (Rust.declarations deadline source) := by
  simp only [Rust.declarations, Pattern.matchesWithin_of_lasting _ lasts]
  refine ⟨_, rfl, ?_⟩
  simp only [List.forall_mem_append, List.forall_mem_map, List.mem_flatMap]
  refine ⟨⟨⟨⟨?_, ?_⟩, ?_⟩, ?_⟩, ?_⟩
  · simp [Rust.typeDeclaration]
  · simp [Rust.typeDeclaration]
  · simp
  · rintro declaration ⟨found, -, member⟩
    rw [Rust.implDeclarations, List.mem_append] at member
    rcases member with block | base
    · simp only [Option.mem_toList, Option.map_eq_some_iff] at block
      obtain ⟨body, opened, rfl⟩ := block
      exact Declaration.braced_scope ⟨_, _, opened⟩
    · simp only [Option.mem_toList, Option.map_eq_some_iff] at base
      obtain ⟨name, -, rfl⟩ := base
      simp
  · simp [Rust.functionDeclaration]

theorem Java.declarations_braced :
    ReadsBraced source (Java.declarations deadline source) := by
  simp only [Java.declarations, Java.methods, Pattern.matchesWithin_of_lasting _ lasts]
  refine ⟨_, rfl, ?_⟩
  simp only [List.forall_mem_append, List.forall_mem_map, List.forall_mem_flatMap,
    Java.typeDeclarations, List.forall_mem_cons]
  simp

theorem CFamily.declarations_braced (dialect : CFamily.Dialect) :
    ReadsBraced source (CFamily.declarations dialect deadline source) := by
  simp only [CFamily.declarations, CFamily.functions_of_lasting lasts,
    CFamily.cppOnly_of_lasting _ _ lasts, Pattern.matchesWithin_of_lasting _ lasts]
  refine ⟨_, rfl, ?_⟩
  intro declaration member
  obtain ⟨found, -, rfl⟩ | ⟨found, -, kind, -, rfl⟩ | ⟨child, parent, rfl⟩ |
    ⟨function, -, rfl⟩ := CFamily.mem_headerDeclarations member
  · simp
  · simp
  · simp
  · obtain ⟨owner, method⟩ := CFamily.functionDeclaration_eq function
    simp [method]

theorem CSharp.declarations_braced :
    ReadsBraced source (CSharp.declarations deadline source) := by
  simp only [CSharp.declarations, CSharp.namespace?, CSharp.types, CSharp.methods,
    CSharp.properties, Pattern.matchesWithin_of_lasting _ lasts,
    Pattern.firstWithin_of_lasting _ lasts]
  refine ⟨_, rfl, ?_⟩
  simp only [List.forall_mem_append, List.forall_mem_map, List.forall_mem_flatMap,
    CSharp.typeDeclarations, List.forall_mem_cons]
  refine ⟨⟨⟨?_, ?_⟩, by simp⟩, by simp⟩
  · intro declaration named
    obtain ⟨name, -, rfl⟩ := Option.map_eq_some_iff.mp (Option.mem_toList.mp named)
    simp
  · intro found _
    refine ⟨Declaration.braced_type _ _ fun body opened => ?_, by simp⟩
    rw [CSharp.typeOf, CSharp.bodyAt?, Option.ite_none_right_eq_some] at opened
    exact ⟨_, _, opened.2⟩

theorem JavaScript.typescriptOnly_of_lasting (dialect : JavaScript.Dialect) (pattern : Pattern) :
    JavaScript.typescriptOnly dialect pattern deadline source =
      .ok (JavaScript.typescriptMatches dialect pattern source) := by
  cases dialect with
  | javascript => rfl
  | typescript => exact Pattern.matchesWithin_of_lasting pattern lasts source

theorem JavaScript.declarations_braced (dialect : JavaScript.Dialect) :
    ReadsBraced source (JavaScript.declarations dialect deadline source) := by
  simp only [JavaScript.declarations, JavaScript.classes, JavaScript.functions,
    JavaScript.variableNames, JavaScript.typescriptOnly_of_lasting lasts,
    Pattern.matchesWithin_of_lasting _ lasts]
  refine ⟨_, rfl, ?_⟩
  simp only [List.forall_mem_append, List.forall_mem_map, List.forall_mem_flatMap,
    JavaScript.classDeclarations, JavaScript.interfaceDeclarations, List.forall_mem_cons]
  refine ⟨⟨⟨⟨⟨?_, by simp⟩, by simp [JavaScript.enumDeclaration]⟩, ?_⟩, by simp⟩, by simp⟩
  · intro found _
    exact ⟨by simp [JavaScript.classOf], by simp⟩
  · intro declaration member
    obtain ⟨found, -, made⟩ := List.mem_filterMap.mp member
    rw [JavaScript.methodDeclaration?, Option.ite_none_right_eq_some] at made
    rw [← Option.some.inj made.2]
    simp

end Languages

/-- How the declarations of a language with braces are read. -/
def Language.braceReader? :
    Language → Option (Deadline → Text → Except Timeout (List Declaration))
  | .javascript => some (JavaScript.declarations .javascript)
  | .typescript => some (JavaScript.declarations .typescript)
  | .rust => some Rust.declarations
  | .java => some Java.declarations
  | .c => some (CFamily.declarations .c)
  | .cpp => some (CFamily.declarations .cpp)
  | .csharp => some CSharp.declarations
  | .python | .other _ | .unknown => none

section Reader

variable {language : Language} {reader : Deadline → Text → Except Timeout (List Declaration)}

theorem Language.readsBraced (braces : language.braceReader? = some reader)
    {deadline : Deadline} (lasts : deadline.expired = false) (source : Text) :
    ReadsBraced source (reader deadline source) := by
  cases language <;> simp only [Language.braceReader?, Option.some.injEq, reduceCtorEq] at braces
  case javascript | typescript =>
    rw [← braces]
    exact JavaScript.declarations_braced lasts source _
  case rust =>
    rw [← braces]
    exact Rust.declarations_braced lasts source
  case java =>
    rw [← braces]
    exact Java.declarations_braced lasts source
  case c | cpp =>
    rw [← braces]
    exact CFamily.declarations_braced lasts source _
  case csharp =>
    rw [← braces]
    exact CSharp.declarations_braced lasts source

theorem Language.analysisOf_eq_resolve (braces : language.braceReader? = some reader)
    {context : RuleContext} {source : Text} {declarations : List Declaration}
    (read : reader context.deadline source = .ok declarations) :
    analysisOf context language source = resolve declarations source context.deadline := by
  have resolved : analysisOf context language source =
      (do resolve (← reader context.deadline source) source context.deadline) := by
    cases language <;> simp only [Language.braceReader?, Option.some.injEq, reduceCtorEq] at braces
    all_goals
      rw [← braces]
      rfl
  rw [resolved, read]
  rfl

end Reader

theorem ownedCallables_owner {declarations : List Declaration}
    {owned : Callable × Option String} (member : owned ∈ ownedCallables declarations)
    (unnamed : owned.1.owner = none) :
    owned.2 = ((enclosingScope? (declarations.filterMap Declaration.scope?)
      owned.1.position).map (·.owner)).filter (typeTable declarations).hasType := by
  obtain ⟨callable, -, rfl⟩ := List.mem_map.mp member
  rw [Callable.ownerAmong, unnamed, Option.none_or]

/-- In a text that a scan can reach the end of, any two scopes with bodies in braces are
nested, and the scope that is chosen for a position lies within all others around it.  So
in a language with braces a callable that does not spell out its owner belongs to the
innermost block around it, if the type that owns the block is declared. -/
theorem braceScopes_innermost (source : Text)
    (short : Text.byteLength source ≤ Text.maxBodyScan) :
    (∀ scopes : List Scope, (∀ scope ∈ scopes, Text.IsBraceBody source scope.body) →
      (∀ first ∈ scopes, ∀ second ∈ scopes, first.body.IsNested second.body) ∧
        ∀ position, IsInnermost scopes position (enclosingScope? scopes position)) ∧
      ∀ language reader, Language.braceReader? language = some reader →
        ∀ context : RuleContext, context.deadline.expired = false →
          ∃ declarations, reader context.deadline source = .ok declarations ∧
            analysisOf context language source =
              resolve declarations source context.deadline ∧
            ∀ owned ∈ ownedCallables declarations, owned.1.owner = none →
              ∃ innermost, IsInnermost (declarations.filterMap Declaration.scope?)
                  owned.1.position innermost ∧
                owned.2 =
                  (innermost.map (·.owner)).filter (typeTable declarations).hasType := by
  have nested {scopes : List Scope}
      (braced : ∀ scope ∈ scopes, Text.IsBraceBody source scope.body) :
      ∀ first ∈ scopes, ∀ second ∈ scopes, first.body.IsNested second.body := by
    intro first known second alsoKnown
    exact (braced first known).isNested short (braced second alsoKnown)
  constructor
  · intro scopes braced
    exact ⟨nested braced, enclosingScope?_isInnermost (nested braced)⟩
  · intro language reader braces context lasts
    obtain ⟨declarations, read, braced⟩ := Language.readsBraced braces lasts source
    refine ⟨declarations, read, Language.analysisOf_eq_resolve braces read, ?_⟩
    intro owned member unnamed
    refine ⟨_, enclosingScope?_isInnermost (nested ?_) _, ownedCallables_owner member unnamed⟩
    intro scope found
    obtain ⟨declaration, declared, made⟩ := List.mem_filterMap.mp found
    exact braced declaration declared scope made

/-- Two implementations, one inside the other, and neither is closed. -/
def unclosedText : Text :=
  "struct A;\nimpl A \x7b\nfn f() \x7b\nstruct B;\nimpl B \x7b\nfn g() \x7b\x7d\n".toList

/-- The blocks of the two implementations. -/
def unclosedScopes : List Scope :=
  [⟨"A", ⟨18, 57⟩⟩, ⟨"B", ⟨46, 57⟩⟩]

theorem braceScopes_unclosedText :
    Text.byteLength unclosedText ≤ Text.maxBodyScan ∧
      (∀ scope ∈ unclosedScopes, Text.IsBraceBody unclosedText scope.body) ∧
      IsInnermost unclosedScopes 50 (some ⟨"B", ⟨46, 57⟩⟩) ∧
      Deadline.unbounded.expired = false ∧
      ∃ declarations, Rust.declarations .unbounded unclosedText = .ok declarations ∧
        declarations.filterMap Declaration.scope? = unclosedScopes ∧
        (typeTable declarations).hasType "B" = true ∧
        ∀ owned ∈ ownedCallables declarations, owned.1.owner = none →
          ∃ innermost, IsInnermost unclosedScopes owned.1.position innermost ∧
            owned.2 = (innermost.map (·.owner)).filter (typeTable declarations).hasType := by
  have short : Text.byteLength unclosedText ≤ Text.maxBodyScan := by decide +kernel
  have braced : ∀ scope ∈ unclosedScopes, Text.IsBraceBody unclosedText scope.body := by
    have first : Text.braceBody? unclosedText 17 0 = some ⟨18, 57⟩ := by decide +kernel
    have second : Text.braceBody? unclosedText 40 200 = some ⟨46, 57⟩ := by decide +kernel
    simp only [unclosedScopes, List.forall_mem_cons]
    exact ⟨⟨17, 0, first⟩, ⟨40, 200, second⟩, by simp⟩
  have chosen : enclosingScope? unclosedScopes 50 = some ⟨"B", ⟨46, 57⟩⟩ := by decide +kernel
  have innermost := ((braceScopes_innermost unclosedText short).1 unclosedScopes braced).2 50
  obtain ⟨declarations, read, -, owners⟩ :=
    (braceScopes_innermost unclosedText short).2 .rust Rust.declarations rfl {} rfl
  have scopes : (Rust.declarations .unbounded unclosedText).toOption.map
      (·.filterMap Declaration.scope?) = some unclosedScopes := by decide +kernel
  have typed : (Rust.declarations .unbounded unclosedText).toOption.map
      (fun declarations => (typeTable declarations).hasType "B") = some true := by
    decide +kernel
  rw [read] at scopes typed
  have scopesEq : declarations.filterMap Declaration.scope? = unclosedScopes :=
    Option.some.inj scopes
  rw [chosen] at innermost
  rw [scopesEq] at owners
  exact ⟨short, braced, innermost, rfl, declarations, read, scopesEq, Option.some.inj typed,
    owners⟩

end SourceAtlas
