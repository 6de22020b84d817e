import RunReport.CommandLine.Run
import RunReport.Proofs.Globbing
import RunReport.Proofs.Queries
/-!
# Tags as queries

A text without the words and signs of queries asks for one tag. Nothing of it is cut, its normal
form has no wildcard either, since lower case turns no other character into one, and a pattern
without wildcards takes exactly itself. So a row that counts a plain tag and a query for its label
select the same tests.
-/

namespace RunReport

namespace Text

/-- The table moves no character to a place before the small letters. -/
theorem lowerRuns_above : ∀ run ∈ lowerRuns, ('a'.toNat : Int) ≤ run.first + run.shift := by
  have all : lowerRuns.all (fun run => 'a'.toNat ≤ run.first + run.shift) = true := by
    decide +kernel
  exact fun run mem => of_decide_eq_true (List.all_eq_true.1 all run mem)

/-- What is no number of a character stands for the null character. -/
theorem toNat_ofNat_cases (n : Nat) : (Char.ofNat n).toNat = n ∨ (Char.ofNat n).toNat = 0 := by
  by_cases valid : n.isValidChar
  · exact .inl (congrArg Char.toNat (dif_pos valid))
  · exact .inr (congrArg Char.toNat (dif_neg valid))

/-- A character that stands before the small letters is the lower case of itself at most. -/
theorem eq_of_mem_lower {c sign : Char} (pos : 0 < sign.toNat) (small : sign.toNat < 'a'.toNat)
    (mem : sign ∈ lower c) : c = sign := by
  rw [lower] at mem
  split at mem
  · rename_i image special
    obtain ⟨-, rfl⟩ : c = 'İ' ∧ ['i', '\u0307'] = image := by simpa [lowerSpecial] using special
    have far : ['i', '\u0307'].all ('a'.toNat ≤ ·.toNat) = true := by decide
    exact absurd (of_decide_eq_true (List.all_eq_true.1 far sign mem)) (Nat.not_le.2 small)
  · split at mem
    · rename_i run found
      have covered : run.first ≤ c.toNat := by
        have covers := List.find?_some found
        simp only [LowerRun.covers, Bool.and_eq_true, decide_eq_true_eq] at covers
        exact covers.1.1
      have above := lowerRuns_above run (List.mem_of_find?_eq_some found)
      rw [List.mem_singleton] at mem
      have place := toNat_ofNat_cases (c.toNat + run.shift).toNat
      rw [← mem] at place
      omega
    · exact (List.mem_singleton.1 mem).symm

end Text

namespace Query

variable {tags : List String} {text : List Char}

/-- The words and signs that have a meaning in a query. -/
def signs : List (List Char) :=
  [conjunction, ampersand, exclusion, disjunction, ['*'], ['?']]

/-- The text has none of them. -/
def Literal (text : List Char) : Prop :=
  ∀ sign ∈ signs, ¬sign <:+: text

instance (text : List Char) : Decidable (Literal text) :=
  List.decidableBAll (fun sign => ¬sign <:+: text) signs

/-- Bringing a text in normal form adds no wildcard. -/
theorem mem_of_mem_normalize {sign : Char} (pos : 0 < sign.toNat) (small : sign.toNat < 'a'.toNat)
    (mem : sign ∈ normalize text) : sign ∈ text := by
  obtain ⟨c, kept, inside⟩ := List.mem_flatMap.1 mem
  rw [← Text.eq_of_mem_lower pos small inside]
  exact (List.mem_filter.1 kept).1

/-- A pattern without wildcards takes exactly itself. -/
theorem globs_literal {pattern : List Char} (star : '*' ∉ pattern) (single : '?' ∉ pattern) :
    Globs pattern text ↔ text = pattern := by
  induction pattern generalizing text with
  | nil => exact globs_nil
  | cons p ps ih =>
    rw [List.mem_cons, not_or] at star single
    rw [globs_single (Ne.symm star.1)]
    constructor
    · rintro ⟨c, rest, rfl, any | rfl, later⟩
      · exact absurd any (Ne.symm single.1)
      · rw [(ih star.2 single.2).1 later]
    · rintro rfl
      exact ⟨p, ps, rfl, .inr rfl, (ih star.2 single.2).2 rfl⟩

/-- A text without signs that compiles matches the tags that have its normal form. -/
theorem tagsMatch_literal {query : String} (literal : Literal query.toList)
    (compiles : Engine.standard.Compiles query) :
    tagsMatch tags query = containsTag tags query := by
  have apart : ∀ sign ∈ signs, Text.occurs sign query.toList = false := by
    intro sign mem
    rw [Bool.eq_false_iff, Ne, Text.occurs_iff]
    exact literal sign mem
  have undivided : Undivided query.toList := ⟨apart _ (by decide), apart _ (by decide)⟩
  have star : '*' ∉ normalize query.toList := fun mem => literal ['*'] (by decide)
    ((List.singleton_infix_iff ..).2 (mem_of_mem_normalize (by decide) (by decide) mem))
  have single : '?' ∉ normalize query.toList := fun mem => literal ['?'] (by decide)
    ((List.singleton_infix_iff ..).2 (mem_of_mem_normalize (by decide) (by decide) mem))
  have whole : tagsMatch tags query = matchesPattern tags query.toList := by
    rw [tagsMatch, queryHolds_offering undivided (apart _ (by decide)), apart _ (by decide),
      if_neg Bool.false_ne_true]
  obtain ⟨compiled, accepted⟩ := Option.isSome_iff_exists.1 compiles
  have each : (Matcher.ofPattern query).accepts = fun t =>
      normalize t.toList == normalize query.toList := by
    funext t
    simp only [Matcher.accepts, Matcher.ofPattern, Matcher.new, accepted, Option.any_some]
    rw [Bool.eq_iff_iff, isMatch_expression Engine.standard_isStandard accepted,
      globs_literal star single, beq_iff_eq]
  rw [whole, matchesPattern, Matcher.acceptsAny, String.ofList_toList, each, containsTag]

end Query

namespace Session

/-- A text without the words and signs of queries, whose expression compiles, is a query for the tag
itself, whatever the tags are. So a row that counts the tag gives the same tests of every report as a
query for its label, in a session and from the command line. -/
theorem plain_query_selects_tag (tag : String) (literal : Query.Literal tag.toList)
    (compiles : Query.Engine.standard.Compiles tag) :
    (∀ tags, Query.containsTag tags tag = Query.tagsMatch tags tag) ∧
    ∀ stat : TagStat, stat.row.label = tag → stat.combined = none →
      (rootSuite >>= fun _ => testsOfStat stat .root : Run (List NodeId)) = searchByTag tag ∧
      searchByTag tag = CommandLine.search (some tag) none := by
  have same : ∀ tags, Query.containsTag tags tag = Query.tagsMatch tags tag := by
    intro tags
    exact (Query.tagsMatch_literal literal compiles).symm
  refine ⟨same, ?_⟩
  rintro stat rfl plain
  have conditions : (fun t : Test => t.hasTag stat.row.label) =
      fun t => t.matchesQuery stat.row.label := funext fun t => same t.record.tags
  have wanted : (fun t : Test => CommandLine.isWanted (some stat.row.label) t.matchesQuery &&
      CommandLine.isWanted none t.matchesName) = fun t => t.matchesQuery stat.row.label :=
    funext fun t => Bool.and_true _
  constructor
  · simp only [testsOfStat, plain, conditions]
    rfl
  · rw [CommandLine.search, wanted]
    rfl

/-- Capitals, spaces, underscores and the signs of regular expressions make no difference. -/
theorem plain_query_selects_tag_sample :
    Query.Literal "Bug_[1].(x)+ \\d".toList ∧
    Query.Engine.standard.Compiles "Bug_[1].(x)+ \\d" ∧
    Query.tagsMatch ["smoke", "b ug[1].(X)+\\D"] "Bug_[1].(x)+ \\d" = true ∧
    ¬Query.tagsMatch ["bug1.x", "bug[1].(x)+\\dd"] "Bug_[1].(x)+ \\d" = true := by
  have literal : Query.Literal "Bug_[1].(x)+ \\d".toList := by decide +kernel
  have compiles : Query.Engine.standard.Compiles "Bug_[1].(x)+ \\d" := by decide +kernel
  have same := (plain_query_selects_tag _ literal compiles).1
  refine ⟨literal, compiles, ?_, ?_⟩
  · rw [← same]
    decide +kernel
  · rw [← same]
    decide +kernel

end Session

end RunReport
