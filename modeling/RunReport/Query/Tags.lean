import RunReport.Query.Glob
import RunReport.Text.Cut
/-!
# Tag queries

A query with `AND` or `&` is cut there into queries that must all hold. Without them, `NOT` cuts off
what is excluded from what is required, which may be blank; without that, `OR` cuts the query into
alternatives; and what is left is a pattern that must match a tag. The words are cut wherever they
occur, also inside other words.
-/

namespace RunReport.Query

/-- The tag itself, in normal form. -/
def containsTag (tags : List String) (tag : String) : Bool :=
  let wanted := normalize tag.toList
  tags.any fun t => normalize t.toList == wanted

def conjunction : List Char := "AND".toList

def ampersand : List Char := ['&']

def exclusion : List Char := "NOT".toList

def disjunction : List Char := "OR".toList

def matchesPattern (tags : List String) (pattern : List Char) : Bool :=
  (Matcher.ofPattern (String.ofList pattern)).acceptsAny tags

/-- The queries that must all hold. -/
def conjuncts (query : List Char) : List (List Char) :=
  (Text.cut conjunction query).flatMap (Text.cut ampersand)

theorem length_lt_of_mem_conjuncts {query piece : List Char}
    (found : (Text.occurs conjunction query || Text.occurs ampersand query) = true)
    (h : piece ∈ conjuncts query) : piece.length < query.length := by
  obtain ⟨part, outer, inner⟩ := List.mem_flatMap.1 h
  cases first : Text.cutOnce conjunction query with
  | some r =>
    have shorter := Text.length_lt_of_mem_cut (by decide) (by rw [Text.occurs, first]; rfl) outer
    have within := (Text.infix_of_mem_cut (by decide) inner).length_le
    omega
  | none =>
    rw [Text.cut_of_cutOnce_eq_none first, List.mem_singleton] at outer
    subst outer
    refine Text.length_lt_of_mem_cut (by decide) ?_ inner
    simpa [Text.occurs, first] using found

/-- Whether a query holds. Every cut makes it shorter. -/
def queryHolds (tags : List String) (query : List Char) : Bool :=
  if Text.occurs conjunction query || Text.occurs ampersand query then
    (conjuncts query).attach.all fun ⟨piece, _⟩ => queryHolds tags piece
  else
    match _ : Text.cutOnce exclusion query with
    | some (required, excluded) =>
      (Text.isBlank required || queryHolds tags required)
        && (Text.cut exclusion excluded).attach.all fun ⟨part, _⟩ => !queryHolds tags part
    | none =>
      if Text.occurs disjunction query then
        (Text.cut disjunction query).attach.any fun ⟨part, _⟩ => queryHolds tags part
      else matchesPattern tags query
termination_by query.length
decreasing_by
  · exact length_lt_of_mem_conjuncts ‹_› ‹_›
  · exact (Text.length_of_cutOnce (by decide : exclusion ≠ []) ‹_›).1
  · have within := (Text.infix_of_mem_cut (by decide : exclusion ≠ []) ‹_›).length_le
    have shorter := (Text.length_of_cutOnce (by decide : exclusion ≠ []) ‹_›).2
    omega
  · exact Text.length_lt_of_mem_cut (by decide : disjunction ≠ []) ‹_› ‹_›

def tagsMatch (tags : List String) (query : String) : Bool :=
  queryHolds tags query.toList

end RunReport.Query
