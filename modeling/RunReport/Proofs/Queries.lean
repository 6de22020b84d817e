import RunReport.Proofs.Cutting
import RunReport.Query.Tags
/-!
# What a tag query means

A query is cut three times: into pieces that must all hold, each piece into what is required and
what is excluded, and these into alternatives, of which each is a pattern. A piece of a text has
none of the separators it was cut at, and no separator that the text did not have, so nothing is
left to be cut after that.
-/

namespace RunReport.Query

open Text

variable {tags : List String} {text piece : List Char}

/-- Some alternative of the text is a pattern that matches a tag. -/
def Selects (tags : List String) (text : List Char) : Prop :=
  ∃ part ∈ cut disjunction text, ∃ tag ∈ tags,
    (Matcher.ofPattern (String.ofList part)).accepts tag = true

/-- A piece without exclusions selects a tag; with exclusions it selects one before the first of
them, unless that is blank, and none in any of them. -/
def PieceHolds (tags : List String) (piece : List Char) : Prop :=
  match cut exclusion piece with
  | [] => False
  | [whole] => Selects tags whole
  | required :: excluded =>
    (isBlank required = true ∨ Selects tags required) ∧ ∀ part ∈ excluded, ¬Selects tags part

theorem matchesPattern_iff : matchesPattern tags text = true ↔
    ∃ tag ∈ tags, (Matcher.ofPattern (String.ofList text)).accepts tag = true := by
  rw [matchesPattern, Matcher.acceptsAny, List.any_eq_true]

/-- The text has none of the words that separate pieces. -/
structure Undivided (text : List Char) : Prop where
  conjunction : occurs conjunction text = false
  ampersand : occurs ampersand text = false

theorem Undivided.within (h : Undivided text) (part : piece <:+: text) : Undivided piece :=
  ⟨not_occurs_within part h.conjunction, not_occurs_within part h.ampersand⟩

theorem undivided_of_mem_conjuncts (h : piece ∈ conjuncts text) : Undivided piece := by
  obtain ⟨part, outer, inner⟩ := List.mem_flatMap.1 h
  have none := not_occurs_of_mem_cut (by decide) outer
  exact ⟨not_occurs_within (infix_of_mem_cut (by decide) inner) none,
    not_occurs_of_mem_cut (by decide) inner⟩

theorem conjuncts_of_undivided (h : Undivided text) : conjuncts text = [text] := by
  simp [conjuncts, cut_of_not_occurs h.conjunction, cut_of_not_occurs h.ampersand]

/-! ## One cut at a time -/

theorem queryHolds_divided (found : (occurs conjunction text || occurs ampersand text) = true) :
    queryHolds tags text = (conjuncts text).all (queryHolds tags) := by
  rw [queryHolds, if_pos found]
  simp

theorem queryHolds_excluding (h : Undivided text) {required excluded : List Char}
    (found : cutOnce exclusion text = some (required, excluded)) :
    queryHolds tags text = ((isBlank required || queryHolds tags required) &&
      (cut exclusion excluded).all fun part => !queryHolds tags part) := by
  rw [queryHolds, h.conjunction, h.ampersand, Bool.or_self, if_neg Bool.false_ne_true]
  split
  · rename_i same
    cases found.symm.trans same
    have each : ∀ part (_ : part ∈ cut exclusion excluded),
        (!queryHolds tags part) = !queryHolds tags part := fun _ _ => rfl
    rw [List.all_subtype each, List.unattach_attach]
  · rename_i none
    cases found.symm.trans none

theorem queryHolds_offering (h : Undivided text) (none : occurs exclusion text = false) :
    queryHolds tags text = if occurs disjunction text then
      (cut disjunction text).any (queryHolds tags) else matchesPattern tags text := by
  rw [queryHolds, h.conjunction, h.ampersand, Bool.or_self, if_neg Bool.false_ne_true]
  split
  · rename_i found
    rw [occurs, found] at none
    cases none
  · simp

/-! ## From the inside out -/

/-- Without exclusions a query holds when it selects a tag. -/
theorem queryHolds_iff_selects (h : Undivided text) (none : occurs exclusion text = false) :
    queryHolds tags text = true ↔ Selects tags text := by
  -- An alternative has no separator left and is only a pattern.
  have alternative : ∀ part ∈ cut disjunction text,
      queryHolds tags part = matchesPattern tags part := by
    intro part mem
    have within := infix_of_mem_cut (by decide) mem
    rw [queryHolds_offering (h.within within) (not_occurs_within within none),
      not_occurs_of_mem_cut (by decide) mem, if_neg Bool.false_ne_true]
  have selects : Selects tags text ↔ ∃ part ∈ cut disjunction text,
      queryHolds tags part = true := by
    apply exists_congr
    intro part
    apply and_congr_right
    intro mem
    rw [alternative part mem, matchesPattern_iff]
  rw [selects]
  by_cases offers : occurs disjunction text = true
  · rw [queryHolds_offering h none, if_pos offers, List.any_eq_true]
  · rw [cut_of_not_occurs (Bool.eq_false_iff.2 offers)]
    simp

/-- A piece holds when it selects what it requires and nothing that it excludes. -/
theorem queryHolds_iff_pieceHolds (h : Undivided piece) :
    queryHolds tags piece = true ↔ PieceHolds tags piece := by
  have each : ∀ part ∈ cut exclusion piece, queryHolds tags part = true ↔ Selects tags part := by
    intro part mem
    exact queryHolds_iff_selects (h.within (infix_of_mem_cut (by decide) mem))
      (not_occurs_of_mem_cut (by decide) mem)
  rw [PieceHolds]
  cases found : cutOnce exclusion piece with
  | none =>
    rw [cut_of_cutOnce_eq_none found] at each ⊢
    exact each piece (List.mem_singleton_self piece)
  | some r =>
    obtain ⟨required, excluded⟩ := r
    rw [cut_of_cutOnce_eq_some (by decide) found] at each ⊢
    obtain ⟨part, parts, cutAgain⟩ := List.exists_cons_of_ne_nil (cut_ne_nil exclusion excluded)
    rw [queryHolds_excluding h found, Bool.and_eq_true, Bool.or_eq_true,
      each required (List.mem_cons_self ..), List.all_eq_true]
    simp only [cutAgain] at each ⊢
    apply and_congr_right
    intro _
    apply forall₂_congr
    intro part mem
    rw [← each part (List.mem_cons_of_mem _ mem), Bool.not_eq_true', Bool.not_eq_true]

/-- A query holds exactly when all its pieces do. -/
theorem tagsMatch_iff_pieces (tags : List String) (query : String) :
    tagsMatch tags query = true ↔
      ∀ piece ∈ (cut conjunction query.toList).flatMap (cut ampersand), PieceHolds tags piece := by
  have pieces : tagsMatch tags query = true ↔
      ∀ piece ∈ conjuncts query.toList, queryHolds tags piece = true := by
    rw [tagsMatch]
    by_cases divided : (occurs conjunction query.toList || occurs ampersand query.toList) = true
    · rw [queryHolds_divided divided, List.all_eq_true]
    · rw [Bool.or_eq_true, not_or, Bool.not_eq_true, Bool.not_eq_true] at divided
      rw [conjuncts_of_undivided ⟨divided.1, divided.2⟩]
      simp
  rw [pieces]
  apply forall₂_congr
  intro piece mem
  exact queryHolds_iff_pieceHolds (undivided_of_mem_conjuncts mem)

end RunReport.Query
