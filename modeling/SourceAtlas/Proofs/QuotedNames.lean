import SourceAtlas.Proofs.FromImports

/-!
# Names in quotes

The names in quotes are found by a pattern, whose matches are searched from left to right.  They
are those that one pass over the text finds: behind a quote it gathers a name, which counts if
another quote follows it.
-/

namespace SourceAtlas

open Text

namespace Pattern

variable {pattern : Pattern} {place later : Place} {stretch : Text}

/-- Only a search that begins in front of an offset depends on it. -/
theorem matchesFrom_of_le {resume : Nat} (place : Place) (rest : Text)
    (reached : resume ≤ place.offset) :
    pattern.matchesFrom resume place rest = pattern.matchesFrom 0 place rest := by
  induction rest generalizing place with
  | nil => rw [matchesFrom, matchesFrom, if_neg (by omega), if_neg (by omega)]
  | cons c rest ih =>
      have further : resume ≤ (place.advance c rest).offset :=
        Nat.le_trans reached (Nat.le_add_right _ _)
      rw [matchesFrom, matchesFrom, if_neg (by omega), if_neg (by omega), ih _ further]

/-- A search that goes on behind a stretch of the text passes over the stretch. -/
theorem matchesFrom_of_passes (passes : place.Passes stretch later) :
    pattern.matchesFrom later.offset place place.rest = pattern.matchesFrom 0 later later.rest := by
  induction passes with
  | nothing place => exact matchesFrom_of_le place place.rest (Nat.le_refl _)
  | @next place later c rest stretch ahead passes ih =>
      have before : place.offset < later.offset := by
        have forward := passes.offset_eq
        have := c.utf8Size_pos
        simp only [Place.advance] at forward
        omega
      rw [ahead, matchesFrom, if_pos before]
      exact ih

theorem matchesFrom_of_unmatched {c : Char} {rest : Text} (ahead : place.rest = c :: rest)
    (unmatched : pattern.matchAt? place = none) :
    pattern.matchesFrom 0 place place.rest = pattern.matchesFrom 0 (place.advance c rest) rest := by
  have here : { place with rest := c :: rest } = place := by rw [← ahead]
  rw [ahead, matchesFrom, if_neg (Nat.not_lt_zero _), here]
  simp only [unmatched]

theorem matchesFrom_of_matched {found : Match} (passes : place.Passes stretch later)
    (notEmpty : stretch ≠ []) (matched : pattern.matchAt? place = some found)
    (stops : found.stop = later.offset) :
    pattern.matchesFrom 0 place place.rest = found :: pattern.matchesFrom 0 later later.rest := by
  cases passes with
  | nothing => exact absurd rfl notEmpty
  | @next _ _ c rest stretch ahead passes =>
      have here : { place with rest := c :: rest } = place := by rw [← ahead]
      rw [ahead, matchesFrom, if_neg (Nat.not_lt_zero _), here]
      simp only [matched]
      rw [stops]
      exact congrArg _ (matchesFrom_of_passes passes)

end Pattern

namespace Python

open Pattern

def isQuote (c : Char) : Bool :=
  among "'\"" c

theorem isIdentifierChar_of_isQuote {c : Char} (quote : isQuote c = true) :
    isIdentifierChar c = false := by
  simp [isQuote, among] at quote
  rcases quote with rfl | rfl <;> decide

theorem isQuote_of_isIdentifierChar {c : Char} (part : isIdentifierChar c = true) :
    isQuote c = false := by
  rw [Bool.eq_false_iff]
  intro quote
  rw [isIdentifierChar_of_isQuote quote] at part
  cases part

/-- The names in quotes, read from left to right; behind a quote the part of a name that has been
read since stands in the first argument. -/
def quotedFrom : Option Text → Text → List Text
  | _, [] => []
  | none, c :: rest => if isQuote c then quotedFrom (some []) rest else quotedFrom none rest
  | some name, c :: rest =>
      if isIdentifierChar c then quotedFrom (some (name ++ [c])) rest
      else if isQuote c then
        if name = [] then quotedFrom (some []) rest else name :: quotedFrom none rest
      else quotedFrom none rest

/-- The names in quotes of a text. -/
def quotedNames (text : Text) : List Text :=
  quotedFrom none text

section Search

variable {text name : Text} {opened place later : Place} {quote : Char}

/-- The names that the search finds from a place on. -/
def namesBehind (place : Place) : List Text :=
  (quotedName.matchesFrom 0 place place.rest).map (·.text 1)

theorem quotedName_unmatched
    (refused : ∀ first name last rest, place.rest = first :: (name ++ last :: rest) →
      isQuote first = true → name ≠ [] → (∀ c ∈ name, isIdentifierChar c = true) →
      isQuote last = false) : quotedName.matchAt? place = none := by
  rw [Option.eq_none_iff_forall_not_mem]
  intro found matched
  obtain ⟨_, ⟨_, ⟨first, behind, opens, overFirst, rfl⟩, _,
    ⟨_, ⟨_, ⟨c, middle, part, overPart, rfl⟩, others, ended, parts, overOthers, rfl⟩, rfl⟩,
    last, after, closes, overLast, -⟩, -⟩ := exists_leads_of_matchAt? matched
  have ahead : place.rest = first :: (c :: others ++ last :: after.rest) :=
    overFirst.rest_eq.trans (congrArg _ (overPart.rest_eq.trans (congrArg _
      (overOthers.rest_eq.trans (congrArg _ overLast.rest_eq)))))
  have unclosed := refused first (c :: others) last after.rest ahead opens (List.cons_ne_nil _ _)
    (List.forall_mem_cons.mpr ⟨part, parts⟩)
  exact Bool.false_ne_true (unclosed.symm.trans closes)

theorem namesBehind_of_other {c : Char} {rest : Text} (ahead : place.rest = c :: rest)
    (other : isQuote c = false) : namesBehind place = namesBehind (place.advance c rest) := by
  have unmatched : quotedName.matchAt? place = none := by
    apply quotedName_unmatched
    intro first name last further spelled opens
    obtain ⟨rfl, -⟩ := List.cons.inj (ahead.symm.trans spelled)
    rw [opens] at other
    cases other
  rw [namesBehind, matchesFrom_of_unmatched ahead unmatched]
  rfl

theorem namesBehind_of_passes {stretch : Text} (passes : place.Passes stretch later)
    (others : ∀ c ∈ stretch, isQuote c = false) : namesBehind place = namesBehind later := by
  induction passes with
  | nothing place => rfl
  | next ahead passes ih =>
      obtain ⟨other, following⟩ := List.forall_mem_cons.mp others
      exact (namesBehind_of_other ahead other).trans (ih following)

/-- A quote opens nothing, if the name behind it is empty or ends without a quote. -/
theorem namesBehind_of_unclosed (passes : opened.Passes (quote :: name) place)
    (solid : ∀ c ∈ name, isIdentifierChar c = true)
    (ends : ∀ c ∈ place.rest.head?, isIdentifierChar c = false)
    (unclosed : name = [] ∨ ∀ c ∈ place.rest.head?, isQuote c = false) :
    namesBehind opened = namesBehind place := by
  have ahead := passes.rest_eq
  have unmatched : quotedName.matchAt? opened = none := by
    apply quotedName_unmatched
    intro first word last rest spelled _ notEmpty letters
    rw [Bool.eq_false_iff]
    intro closes
    have same : name ++ place.rest = word ++ last :: rest :=
      (List.cons.inj (ahead.symm.trans spelled)).2
    -- Both names go on as far as there are characters for them.
    obtain rfl : name = word := by
      rw [← takeWhile_append_of_head solid ends, same]
      exact takeWhile_append_of_head letters fun c next => by
        rw [← Option.some.inj next, isIdentifierChar_of_isQuote closes]
    rcases unclosed with nothing | other
    · exact notEmpty nothing
    · rw [List.append_cancel_left same] at other
      rw [other last rfl] at closes
      cases closes
  cases passes with
  | next begins passes =>
      rw [namesBehind, matchesFrom_of_unmatched begins unmatched]
      exact namesBehind_of_passes passes fun c part => isQuote_of_isIdentifierChar (solid c part)

theorem namesBehind_of_closed (inside : opened.IsIn text)
    (passes : opened.Passes (quote :: name) place) (opens : isQuote quote = true)
    (notEmpty : name ≠ []) (solid : ∀ c ∈ name, isIdentifierChar c = true) {last : Char}
    {rest : Text} (ahead : place.rest = last :: rest) (closes : isQuote last = true) :
    namesBehind opened = name :: namesBehind (place.advance last rest) := by
  have whole : opened.Passes (quote :: name ++ [last]) (place.advance last rest) :=
    passes.append (.single ahead)
  cases passes with
  | @next _ _ _ behind _ begins passes =>
      have ends : ∀ c ∈ place.rest.head?, isIdentifierChar c = false := by
        intro c next
        rw [ahead] at next
        rw [← Option.some.inj next, isIdentifierChar_of_isQuote closes]
      have prefersFirst : (one (among "'\"")).Prefers ⟨opened, []⟩
          ⟨opened.advance quote behind, []⟩ :=
        prefers_one begins opens
      have prefersName : identifier.Prefers ⟨opened.advance quote behind, []⟩ ⟨place, []⟩ :=
        prefers_someOf passes notEmpty solid ends
      obtain ⟨taken, index, spelled, prefersTaken⟩ :=
        exists_prefers_group (inside.pass (.single begins)) passes prefersName 1
      have prefersLast : (one (among "'\"")).Prefers ⟨place, [taken]⟩
          ⟨place.advance last rest, [taken]⟩ :=
        prefers_one ahead closes
      have matched : quotedName.matchAt? opened =
          some ⟨opened.offset, (place.advance last rest).offset, [taken]⟩ :=
        matchAt?_of_prefers (prefersFirst.followedBy (prefersTaken.followedBy prefersLast))
      rw [namesBehind, matchesFrom_of_matched whole (by simp) matched rfl, List.map_cons]
      congr 1
      simp [Match.text, Match.capture?, index, spelled]

/-- The search agrees with the single pass, between names and behind a quote. -/
theorem namesBehind_eq_quotedFrom (rest : Text) :
    (∀ place : Place, place.IsIn text → place.rest = rest →
      namesBehind place = quotedFrom none rest) ∧
    ∀ (opened place : Place) (quote : Char) (name : Text), opened.IsIn text →
      opened.Passes (quote :: name) place → isQuote quote = true →
      (∀ c ∈ name, isIdentifierChar c = true) → place.rest = rest →
      namesBehind opened = quotedFrom (some name) rest := by
  induction rest with
  | nil =>
      have nothing (place : Place) (ahead : place.rest = []) : namesBehind place = [] := by
        have unmatched : quotedName.matchAt? { place with rest := [] } = none := by
          apply quotedName_unmatched
          intro first name last further spelled
          cases spelled
        rw [namesBehind, ahead, matchesFrom, if_neg (Nat.not_lt_zero _), unmatched]
        rfl
      refine ⟨fun place _ ahead => nothing place ahead, ?_⟩
      intro opened place quote name _ passes _ solid ahead
      rw [namesBehind_of_unclosed passes solid (by simp [ahead]) (.inr (by simp [ahead])),
        nothing place ahead]
      rfl
  | cons c rest ih =>
      obtain ⟨between, gathering⟩ := ih
      -- A quote opens a name, wherever it stands.
      have opening (place : Place) (inside : place.IsIn text) (ahead : place.rest = c :: rest)
          (quote : isQuote c = true) : namesBehind place = quotedFrom (some []) rest :=
        gathering place _ c [] inside (.single ahead) quote (by simp) rfl
      have passing (place : Place) (inside : place.IsIn text) (ahead : place.rest = c :: rest)
          (other : isQuote c = false) : namesBehind place = quotedFrom none rest :=
        (namesBehind_of_other ahead other).trans
          (between _ (inside.pass (.single ahead)) rfl)
      constructor
      · intro place inside ahead
        rw [quotedFrom]
        split
        case isTrue quote => exact opening place inside ahead quote
        case isFalse other => exact passing place inside ahead (by simpa using other)
      · intro opened place quote name inside passes opens solid ahead
        rw [quotedFrom]
        split
        case isTrue part =>
          apply gathering opened (place.advance c rest) quote (name ++ [c]) inside
            (passes.append (.single ahead)) opens
          · exact List.forall_mem_append.mpr ⟨solid, by simpa using part⟩
          · rfl
        case isFalse foreign =>
          have ends : ∀ d ∈ place.rest.head?, isIdentifierChar d = false := by
            simpa [ahead] using foreign
          split
          case isTrue closes =>
            split
            case isTrue nothing =>
              rw [namesBehind_of_unclosed passes solid ends (.inl nothing)]
              exact opening place (inside.pass passes) ahead closes
            case isFalse notEmpty =>
              rw [namesBehind_of_closed inside passes opens notEmpty solid ahead closes]
              exact congrArg _ (between _ ((inside.pass passes).pass (.single ahead)) rfl)
          case isFalse other =>
            have unclosed : ∀ d ∈ place.rest.head?, isQuote d = false := by
              simpa [ahead] using other
            rw [namesBehind_of_unclosed passes solid ends (.inr unclosed)]
            exact passing place (inside.pass passes) ahead (by simpa using other)

theorem quotedName_matchesIn (text : Text) :
    (quotedName.matchesIn text).map (·.text 1) = quotedNames text :=
  (namesBehind_eq_quotedFrom text).1 _ (Place.isIn_start text) rfl

end Search

end Python
end SourceAtlas
