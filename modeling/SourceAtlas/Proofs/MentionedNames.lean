import SourceAtlas.Proofs.SpacedWords
import SourceAtlas.Proofs.UsedWords
import SourceAtlas.Proofs.WordClasses

/-!
# Names that are mentioned in a body

A declared name is a row of identifier characters, and it is looked for among the words of a body.
The name is such a word where it is mentioned, unless one of its characters divides words or a
number sign stands beside it.  A name that is divided is never found, and its parts are taken for
words.
-/

namespace SourceAtlas

namespace Text

section Words

variable {name text front back : Text}

theorem isWordChar_of_mem_words (member : name ∈ words text) : ∀ c ∈ name, isWordChar c = true := by
  intro c inside
  have whole := (of_mem_splitWhere (List.mem_filter.mp member).1 c inside).2
  simpa using whole

theorem isWordChar_iff_of_identifier {c : Char} (part : isIdentifierChar c = true) :
    isWordChar c = true ↔ dividesWords c = false := by
  rw [isWordChar_iff]
  constructor
  · rintro (⟨-, joins⟩ | sign)
    · exact joins
    · rw [isIdentifierChar_of_isNumberSign sign] at part
      cases part
  · intro joins
    exact .inl ⟨part, joins⟩

theorem isWordChar_of_foreign {c : Char} (foreign : isIdentifierChar c = false) :
    isWordChar c = isNumberSign c := by
  rw [Bool.eq_iff_iff, isWordChar_iff, foreign]
  simp

theorem words_eq_trailingWord (text : Text) :
    words text = words (text.rdropWhile isWordChar) ++
      [trailingWord text].filter (!·.isEmpty) := by
  have whole := words_append text []
  simpa [leadingWord] using whole

theorem words_eq_leadingWord (text : Text) :
    words text = [leadingWord text].filter (!·.isEmpty) ++ words (text.dropWhile isWordChar) := by
  have whole := words_append [] text
  simpa [trailingWord] using whole

theorem isWordChar_of_trailingWord (nothing : trailingWord text = []) :
    ∀ c ∈ text.getLast?, isWordChar c = false := by
  intro c last
  rw [trailingWord, List.rtakeWhile_eq_nil_iff] at nothing
  have notEmpty : text ≠ [] := by
    rintro rfl
    cases last
  rw [List.getLast?_eq_some_getLast notEmpty, Option.mem_some_iff] at last
  rw [← last]
  simpa using nothing notEmpty

theorem isWordChar_of_leadingWord (nothing : leadingWord text = []) :
    ∀ c ∈ text.head?, isWordChar c = false := by
  intro c first
  cases text with
  | nil => cases first
  | cons d text =>
      obtain rfl := Option.mem_some_iff.mp first
      simpa [leadingWord, List.takeWhile_cons] using nothing

/-- The words around and in a text are apart if its neighbours are neither identifier characters nor
number signs. -/
theorem words_of_edges (before : ∀ c ∈ front.getLast?, isIdentifierChar c = false)
    (behind : ∀ c ∈ back.head?, isIdentifierChar c = false)
    (noSignBefore : ∀ c ∈ front.getLast?, isNumberSign c = false)
    (noSignBehind : ∀ c ∈ back.head?, isNumberSign c = false) :
    words (front ++ (name ++ back)) = words front ++ (words name ++ words back) := by
  have left : ∀ c, front.getLast? = some c → isWordChar c = false := fun c last =>
    (isWordChar_of_foreign (before c last)).trans (noSignBefore c last)
  have right : ∀ c, back.head? = some c → isWordChar c = false := fun c first =>
    (isWordChar_of_foreign (behind c first)).trans (noSignBehind c first)
  rw [words_append_of_last left, words_append_of_head right]

variable (notEmpty : name ≠ []) (parts : ∀ c ∈ name, isIdentifierChar c = true)

include parts

theorem not_dividesWords_of_mem_words (member : name ∈ words text) :
    ∀ c ∈ name, dividesWords c = false :=
  fun c inside => (isWordChar_iff_of_identifier (parts c inside)).mp
    (isWordChar_of_mem_words member c inside)

include notEmpty

/-- A name is one word exactly if none of its characters divides words. -/
theorem words_eq_singleton_iff : words name = [name] ↔ ∀ c ∈ name, dividesWords c = false := by
  constructor
  · intro single
    exact not_dividesWords_of_mem_words parts (single ▸ List.mem_singleton_self name)
  · intro undivided
    rw [words_of_forall fun c inside =>
      (isWordChar_iff_of_identifier (parts c inside)).mpr (undivided c inside)]
    simp [notEmpty]

/-- A mention of a name is a word of its own exactly if the name is undivided and no number sign
stands beside it. -/
theorem words_mention_iff (before : ∀ c ∈ front.getLast?, isIdentifierChar c = false)
    (behind : ∀ c ∈ back.head?, isIdentifierChar c = false) :
    words (front ++ (name ++ back)) = words front ++ name :: words back ↔
      (∀ c ∈ name, dividesWords c = false) ∧ (∀ c ∈ front.getLast?, isNumberSign c = false) ∧
        ∀ c ∈ back.head?, isNumberSign c = false := by
  constructor
  · intro found
    have member : name ∈ words (front ++ (name ++ back)) := by
      rw [found]
      exact List.mem_append_right _ List.mem_cons_self
    have undivided := not_dividesWords_of_mem_words parts member
    have joined : ∀ c ∈ name, isWordChar c = true := fun c inside =>
      (isWordChar_iff_of_identifier (parts c inside)).mpr (undivided c inside)
    -- The name is joined with what stands at its two sides to one word, so nothing stands there.
    have single : [trailingWord front ++ (name ++ leadingWord back)].filter (!·.isEmpty) =
        [trailingWord front ++ (name ++ leadingWord back)] := by
      simp [notEmpty]
    have whole := words_append front (name ++ back)
    rw [leadingWord, List.takeWhile_append_of_pos joined, List.dropWhile_append_of_pos joined,
      ← leadingWord, single, found, words_eq_trailingWord front, words_eq_leadingWord back] at whole
    have lengths := congrArg List.length whole
    simp only [List.length_append, List.length_cons, List.length_nil] at lengths
    have left : ([trailingWord front].filter (!·.isEmpty)).length = 0 := by omega
    have right : ([leadingWord back].filter (!·.isEmpty)).length = 0 := by omega
    refine ⟨undivided, ?_, ?_⟩
    · intro c last
      rw [← isWordChar_of_foreign (before c last)]
      exact isWordChar_of_trailingWord (by simpa using left) c last
    · intro c first
      rw [← isWordChar_of_foreign (behind c first)]
      exact isWordChar_of_leadingWord (by simpa using right) c first
  · rintro ⟨undivided, noSignBefore, noSignBehind⟩
    rw [words_of_edges before behind noSignBefore noSignBehind,
      (words_eq_singleton_iff notEmpty parts).mpr undivided, List.singleton_append]

end Words

end Text

section Uses

variable (declarations : List Declaration) (source : Text)

theorem mem_get_iff_of_symbol {symbol : Symbol}
    (known : symbol ∈ (classifyNames declarations).table.symbols) (free : symbol.isMember = false)
    {relation : Relation} :
    relation ∈ ((foundRelations declarations source).foldl
        (fun map (name, relations) => map.pushAll name relations) ({} : RelationMap)).get
          symbol.name ↔
      relation ∈ (classifyNames declarations).relationsOf declarations source symbol := by
  rw [mem_get_iff_exists_symbol]
  constructor
  · rintro ⟨other, listed, -, named, related⟩
    have same : other = symbol :=
      List.inj_on_of_nodup_map (classifyNames_names_nodup declarations) listed known named
    rwa [← same]
  · intro related
    exact ⟨symbol, known, free, rfl, related⟩

theorem uses_mem_relationsOf_iff {symbol : Symbol} {body : Span}
    (found : (classifyNames declarations).bodies.lookup symbol.name = some body)
    {target : String} :
    .uses target ∈ (classifyNames declarations).relationsOf declarations source symbol ↔
      target ∈ referableNames (classifyNames declarations).table ∧ target ≠ symbol.name ∧
        target.toList ∈ Text.words (Text.boundedSlice source body symbol.kind.sliceLimit) := by
  have listed : .uses target ∈
      (classifyNames declarations).relationsOf declarations source symbol ↔
        target ∈ (classifyNames declarations).usedNames source symbol := by
    simp [Classification.relationsOf]
  rw [listed, Classification.usedNames, found]
  simp only [List.mem_filter, contains_map_ofList, Bool.and_eq_true, bne_iff_ne,
    List.contains_iff_mem]

end Uses

/-- A name is one word if none of its characters divides words, and a mention of it is found if
moreover no number sign stands beside it.  The names that are used by a symbol whose body mentions
the name are then the words in front of the name, those of the name and those behind it.  A name
that is divided is used by no symbol. -/
theorem mentions_found_as_words (declarations : List Declaration) (source : Text)
    (deadline : Deadline) (lasts : deadline.expired = false) (name : String)
    (isWord : Text.IsWord name) (front back : Text)
    (before : ∀ c ∈ front.getLast?, Text.isIdentifierChar c = false)
    (behind : ∀ c ∈ back.head?, Text.isIdentifierChar c = false) :
    (Text.words name.toList = [name.toList] ↔
      ∀ c ∈ name.toList, Text.dividesWords c = false) ∧
    (Text.words (front ++ (name.toList ++ back)) =
        Text.words front ++ name.toList :: Text.words back ↔
      (∀ c ∈ name.toList, Text.dividesWords c = false) ∧
        (∀ c ∈ front.getLast?, Text.isNumberSign c = false) ∧
        ∀ c ∈ back.head?, Text.isNumberSign c = false) ∧
    ∃ analysis, resolve declarations source deadline = .ok analysis ∧
      ((∃ c ∈ name.toList, Text.dividesWords c = true) →
        ∀ user, .uses name ∉ analysis.relations.get user) ∧
      ∀ symbol ∈ analysis.table.symbols, symbol.isMember = false →
        ∀ body, (classifyNames declarations).bodies.lookup symbol.name = some body →
          Text.boundedSlice source body (if symbol.kind.isType then 2000 else 1000) =
            front ++ (name.toList ++ back) →
          (∀ c ∈ front.getLast?, Text.isNumberSign c = false) →
          (∀ c ∈ back.head?, Text.isNumberSign c = false) →
          ∀ target, .uses target ∈ analysis.relations.get symbol.name ↔
            target ∈ referableNames analysis.table ∧ target ≠ symbol.name ∧
              (target.toList ∈ Text.words front ∨ target.toList ∈ Text.words name.toList ∨
                target.toList ∈ Text.words back) := by
  refine ⟨Text.words_eq_singleton_iff isWord.1 isWord.solid,
    Text.words_mention_iff isWord.1 isWord.solid before behind, _,
    resolve_of_lasting declarations source lasts, ?_, ?_⟩
  · rintro ⟨c, inside, divides⟩ user related
    obtain ⟨symbol, -, -, found⟩ := exists_symbol_of_mem_get declarations source related
    obtain ⟨body, -, used⟩ := exists_body_of_uses declarations source found
    rw [Text.not_dividesWords_of_mem_words isWord.solid used c inside] at divides
    cases divides
  · intro symbol known free body found mention noSignBefore noSignBehind target
    have searched : Text.boundedSlice source body symbol.kind.sliceLimit =
        front ++ (name.toList ++ back) := mention
    rw [mem_get_iff_of_symbol declarations source known free,
      uses_mem_relationsOf_iff declarations source found, searched,
      Text.words_of_edges before behind noSignBefore noSignBehind, List.mem_append,
      List.mem_append]

/-- A body that calls a function whose name ends with an accented letter. -/
def accentedCall : Text :=
  "\n caf\u00e9()".toList

def accentedNames : List Declaration :=
  [.function "caf" 0 none, .function "caf\u00e9" 4 none, .function "main" 10 (some ⟨0, 9⟩)]

theorem classifyNames_accentedNames :
    classifyNames accentedNames =
      ⟨⟨[⟨"caf", .function, none⟩, ⟨"caf\u00e9", .function, none⟩, ⟨"main", .function, none⟩]⟩, [],
        [("main", ⟨0, 9⟩)]⟩ := by
  rw [classifyNames, ownedCallables, callablesByPosition_of_ascending (by decide)]
  rfl

/-- An accented letter belongs to the word, so the whole name is used and no part of it. -/
theorem mentions_found_in_accentedCall :
    Deadline.unbounded.expired = false ∧ Text.IsWord "caf\u00e9" ∧
      ∃ analysis, resolve accentedNames accentedCall .unbounded = .ok analysis ∧
        ∀ target, .uses target ∈ analysis.relations.get "main" ↔ target = "caf\u00e9" := by
  have isWord : Text.IsWord "caf\u00e9" := by decide +kernel
  have space : Text.isIdentifierChar ' ' = false ∧ Text.isNumberSign ' ' = false := by
    decide +kernel
  have bracket : Text.isIdentifierChar '(' = false ∧ Text.isNumberSign '(' = false := by
    decide +kernel
  obtain ⟨single, -, analysis, resolved, -, used⟩ :=
    mentions_found_as_words accentedNames accentedCall .unbounded rfl "caf\u00e9" isWord
      "\n ".toList "()".toList (by simpa using space.1) (by simpa using bracket.1)
  refine ⟨rfl, isWord, analysis, resolved, ?_⟩
  have table : analysis.table = (classifyNames accentedNames).table := by
    rw [resolve_of_lasting _ _ rfl, Except.ok.injEq] at resolved
    rw [← resolved]
  rw [table, classifyNames_accentedNames] at used
  have found := used ⟨"main", .function, none⟩ (by simp) rfl ⟨0, 9⟩ rfl (by decide +kernel)
    (by simpa using space.2) (by simpa using bracket.2)
  intro target
  have blank : Text.words "\n ".toList = [] := by decide +kernel
  have brackets : Text.words "()".toList = [] := by decide +kernel
  have whole : Text.words "caf\u00e9".toList = ["caf\u00e9".toList] := by
    refine single.mpr fun c inside => ?_
    have joined : "caf\u00e9".toList.all (!Text.dividesWords ·) = true := by decide +kernel
    simpa using List.all_eq_true.mp joined c inside
  rw [found target, blank, brackets, whole, List.mem_singleton, String.toList_inj]
  constructor
  · rintro ⟨-, -, impossible | same | impossible⟩
    · cases impossible
    · exact same
    · cases impossible
  · rintro rfl
    exact ⟨by decide +kernel, by decide, .inr (.inl rfl)⟩

/-- Two functions, the name of one of which is that of the other with an accent behind it as a
character of its own, and a function that calls the accented one. -/
def combinedText : Text :=
  "def cafe():\n pass\ndef cafe\u0301():\n pass\ndef main():\n cafe\u0301()\n".toList

def combinedNames : List Declaration :=
  [.function "cafe" 4 (some ⟨11, 17⟩), .function "cafe\u0301" 22 (some ⟨31, 37⟩),
    .function "main" 42 (some ⟨49, 59⟩)]

theorem classifyNames_combinedNames :
    classifyNames combinedNames =
      ⟨⟨[⟨"cafe", .function, none⟩, ⟨"cafe\u0301", .function, none⟩, ⟨"main", .function, none⟩]⟩,
        [], [("cafe", ⟨11, 17⟩), ("cafe\u0301", ⟨31, 37⟩), ("main", ⟨49, 59⟩)]⟩ := by
  rw [classifyNames, ownedCallables, callablesByPosition_of_ascending (by decide)]
  rfl

/-- The function that is called is not found, and the other one is. -/
theorem combined_name_not_found :
    (Python.declarations .unbounded combinedText).toOption = some combinedNames ∧
      Text.IsWord "cafe\u0301" ∧ Text.words "cafe\u0301".toList = ["cafe".toList] ∧
      Text.boundedSlice combinedText ⟨49, 59⟩ 1000 = "\n cafe\u0301()".toList ∧
      ∃ analysis, resolve combinedNames combinedText .unbounded = .ok analysis ∧
        analysis.relations.get "main" = [.uses "cafe"] := by
  refine ⟨by decide +kernel, by decide +kernel, by decide +kernel, by decide +kernel, _,
    resolve_of_lasting _ _ rfl, ?_⟩
  rw [foundRelations, classifyNames_combinedNames]
  decide +kernel

end SourceAtlas
