import Mathlib.Data.List.Forall2
import RunReport.Proofs.Expressions
import RunReport.Query.Glob
/-!
# What a pattern takes

A pattern takes a text when the text can be cut into pieces, one for each character of the pattern:
any piece for `*`, one character for `?`, and the character itself for every other one. The expression
for a pattern reads as one item for each of its characters between the two ends of the text, so what
it is found in is what the pattern takes.
-/

namespace RunReport.Query

/-- What a character of a pattern may take of a text. -/
def TakesPiece (p : Char) (piece : List Char) : Prop :=
  if p = '*' then True else if p = '?' then piece.length = 1 else piece = [p]

/-- The text is cut into pieces, one for each character of the pattern in order. -/
def Globs (pattern text : List Char) : Prop :=
  ∃ pieces : List (List Char), pieces.flatten = text ∧ List.Forall₂ TakesPiece pattern pieces

section Globs

variable {p : Char} {ps text : List Char}

/-- What is no `*` takes one character. -/
theorem takesPiece_single (single : p ≠ '*') {piece : List Char} :
    TakesPiece p piece ↔ ∃ c, piece = [c] ∧ (p = '?' ∨ c = p) := by
  by_cases any : p = '?'
  · simp [TakesPiece, any, List.length_eq_one_iff]
  · simp [TakesPiece, single, any]

theorem globs_nil : Globs [] text ↔ text = [] := by
  constructor
  · rintro ⟨pieces, rfl, taken⟩
    cases taken
    rfl
  · rintro rfl
    exact ⟨[], rfl, .nil⟩

theorem globs_cons : Globs (p :: ps) text ↔
    ∃ piece rest, text = piece ++ rest ∧ TakesPiece p piece ∧ Globs ps rest := by
  constructor
  · rintro ⟨pieces, rfl, taken⟩
    cases taken with
    | cons first later => exact ⟨_, _, List.flatten_cons, first, _, rfl, later⟩
  · rintro ⟨piece, rest, rfl, first, pieces, rfl, later⟩
    exact ⟨piece :: pieces, List.flatten_cons, .cons first later⟩

theorem globs_single (single : p ≠ '*') : Globs (p :: ps) text ↔
    ∃ c rest, text = c :: rest ∧ (p = '?' ∨ c = p) ∧ Globs ps rest := by
  rw [globs_cons]
  constructor
  · rintro ⟨piece, rest, rfl, first, later⟩
    obtain ⟨c, rfl, accepted⟩ := (takesPiece_single single).1 first
    exact ⟨c, rest, rfl, accepted, later⟩
  · rintro ⟨c, rest, rfl, accepted, later⟩
    exact ⟨[c], rest, rfl, (takesPiece_single single).2 ⟨c, rfl, accepted⟩, later⟩

end Globs

/-! ## The expression -/

/-- The item for a character of a pattern. -/
def wildcardItem (c : Char) : Item :=
  if c = '*' then .many (.any true) else if c = '?' then .one (.any true) else .one (.literal c)

theorem escapable_of_operator {c : Char} (h : c ∈ operators) : c ∈ escapable := by
  have all : operators.all fun c => decide (c ∈ escapable) := by decide
  exact of_decide_eq_true (List.all_eq_true.1 all c h)

/-- A character is read back as itself, with a backslash or without one. -/
theorem readItems_escape (lineFeeds : Bool) (done : List Item) (c : Char) (rest : List Char) :
    readItems lineFeeds false done (escape c ++ rest) =
      readItems lineFeeds false (.one (.literal c) :: done) rest := by
  by_cases special : c ∈ escapable
  · simp [escape, special, readItems]
  · have plain : c ∉ operators := fun h => special (escapable_of_operator h)
    have apart : ∀ sign ∈ operators, c ≠ sign := fun sign mem same => plain (same ▸ mem)
    simp [escape, special, readItems, plain, apart '\\' (by decide), apart '^' (by decide),
      apart '$' (by decide), apart '.' (by decide), apart '*' (by decide)]

theorem readItems_wildcard (done : List Item) (c : Char) (rest : List Char) :
    readItems true false done (wildcard c ++ rest) =
      readItems true false (wildcardItem c :: done) rest := by
  by_cases star : c = '*'
  · simp [wildcard, wildcardItem, star, readItems]
  · by_cases single : c = '?'
    · simp [wildcard, wildcardItem, single, readItems]
    · simp only [wildcard, wildcardItem, if_neg star, if_neg single]
      exact readItems_escape true done c rest

theorem readItems_wildcards (done : List Item) (pattern rest : List Char) :
    readItems true false done (pattern.flatMap wildcard ++ rest) =
      readItems true false ((pattern.map wildcardItem).reverse ++ done) rest := by
  induction pattern generalizing done with
  | nil => rfl
  | cons p ps ih =>
    rw [List.flatMap_cons, List.append_assoc, readItems_wildcard, ih, List.map_cons,
      List.reverse_cons, List.append_assoc, List.singleton_append]

/-- The expression for a pattern can be read: an item for each character, between the ends. -/
theorem parse_expression (pattern : List Char) :
    parse (expression pattern) = some (.start :: (pattern.map wildcardItem ++ [.finish])) := by
  have start : parse (expression pattern) =
      readItems true false [.start] (pattern.flatMap wildcard ++ ['$']) := by
    simp [expression, parse, readItems]
  rw [start, readItems_wildcards]
  simp [readItems]

/-- The item for a character takes what the character may take. -/
theorem takes_wildcardItem {c : Char} {before piece after : List Char} :
    (wildcardItem c).Takes before piece after ↔ TakesPiece c piece := by
  rw [wildcardItem, TakesPiece]
  split
  · exact ⟨fun _ => trivial, fun _ => .many (fun _ _ => rfl) before after⟩
  · split
    · rw [List.length_eq_one_iff]
      constructor
      · rintro ⟨⟩
        exact ⟨_, rfl⟩
      · rintro ⟨d, rfl⟩
        exact .one rfl before after
    · constructor
      · rintro (_ | _ | ⟨accepted⟩)
        rw [beq_iff_eq.1 accepted]
      · rintro rfl
        exact .one (by simp [Atom.takes]) before after

/-- The items of a pattern take what the pattern takes, up to the end of the text. -/
theorem takes_wildcards {pattern before piece after : List Char} :
    Regex.Takes (pattern.map wildcardItem ++ [.finish]) before piece after ↔
      after = [] ∧ Globs pattern piece := by
  induction pattern generalizing before piece with
  | nil =>
    rw [globs_nil]
    constructor
    · rintro (_ | ⟨here, ⟨⟩⟩)
      cases here
      exact ⟨rfl, rfl⟩
    · rintro ⟨rfl, rfl⟩
      exact .cons (.finish before) (.nil _ _)
  | cons p ps ih =>
    rw [globs_cons]
    constructor
    · rintro (_ | ⟨here, later⟩)
      obtain ⟨ends, globs⟩ := ih.1 later
      exact ⟨ends, _, _, rfl, takes_wildcardItem.1 here, globs⟩
    · rintro ⟨rfl, first, later, rfl, here, globs⟩
      exact .cons (takes_wildcardItem.2 here) (ih.2 ⟨rfl, globs⟩)

/-- The expression for a pattern is found in the texts that the pattern takes as a whole. -/
theorem finds_iff_globs {pattern text : List Char} :
    Regex.Finds (.start :: (pattern.map wildcardItem ++ [.finish])) text ↔ Globs pattern text := by
  constructor
  · rintro ⟨before, piece, after, rfl, _ | ⟨⟨⟩, later⟩⟩
    obtain ⟨rfl, globs⟩ := takes_wildcards.1 later
    simpa using globs
  · intro globs
    exact ⟨[], text, [], by simp, .cons (.start _) (takes_wildcards.2 ⟨rfl, globs⟩)⟩

/-! ## Matching -/

/-- The engine does not refuse the expression for the pattern. -/
def Engine.Compiles (engine : Engine) (pattern : String) : Prop :=
  (engine.compile (expression (normalize pattern.toList))).isSome = true

instance (engine : Engine) (pattern : String) : Decidable (engine.Compiles pattern) :=
  inferInstanceAs (Decidable (_ = true))

/-- The engine of the program compiles the patterns without too many wildcards. -/
theorem standard_compiles_iff {pattern : String} : Engine.standard.Compiles pattern ↔
    (normalize pattern.toList).countP (fun c => c = '*' || c = '?') ≤ mostPoints := by
  have wide : Item.isWide ∘ wildcardItem = fun c => decide (c = '*') || decide (c = '?') := by
    funext c
    simp only [Function.comp, wildcardItem]
    split
    · simp [Item.isWide, *]
    · split <;> simp [Item.isWide, *]
  simp only [Engine.Compiles, Engine.standard, parse_expression, Option.filter_some, List.countP_cons,
    List.countP_append, List.countP_map, wide]
  simp [Item.isWide]

theorem isMatch_expression {engine : Engine} (standard : engine.Standard) {pattern : List Char}
    {compiled : engine.Compiled} (accepted : engine.compile (expression pattern) = some compiled)
    (text : List Char) : engine.isMatch compiled text = true ↔ Globs pattern text := by
  rw [standard accepted (parse_expression pattern), finds_iff_globs]

/-- With any engine that searches as expressions are meant, a pattern whose expression it compiles
matches a text exactly when, both in normal form, the text can be cut into pieces for the characters
of the pattern. -/
theorem accepts_iff_globs {engine : Engine} (standard : engine.Standard) {pattern : String}
    (compiles : engine.Compiles pattern) (text : String) :
    (Matcher.new engine pattern).accepts text = true ↔
      Globs (normalize pattern.toList) (normalize text.toList) := by
  obtain ⟨compiled, accepted⟩ := Option.isSome_iff_exists.1 compiles
  have searched : (Matcher.new engine pattern).accepts text =
      engine.isMatch compiled (normalize text.toList) := by
    simp only [Matcher.accepts, Matcher.new, accepted, Option.any_some]
  rw [searched, isMatch_expression standard accepted]

/-- A point stands for itself, and a run may hold a line feed. -/
theorem accepts_iff_globs_sample :
    Engine.standard.Standard ∧ Engine.standard.Compiles "x.*?" ∧
      (Matcher.ofPattern "x.*?").accepts "X .\ny_z" = true ∧
      Globs (normalize "x.*?".toList) (normalize "X .\ny_z".toList) ∧
      ¬Globs (normalize "x.*?".toList) (normalize "xyz".toList) := by
  have standard := Engine.standard_isStandard
  have compiles : Engine.standard.Compiles "x.*?" := by decide +kernel
  have matched : (Matcher.ofPattern "x.*?").accepts "X .\ny_z" = true := by decide +kernel
  have other : ¬(Matcher.ofPattern "x.*?").accepts "xyz" = true := by decide +kernel
  exact ⟨standard, compiles, matched, (accepts_iff_globs standard compiles _).1 matched,
    fun taken => other ((accepts_iff_globs standard compiles _).2 taken)⟩

end RunReport.Query
