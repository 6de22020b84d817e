import Mathlib.Data.List.Infix
import RunReport.Proofs.Naming
import RunReport.Text.Cut
/-!
# Where texts are cut

No piece of a text has the separator that the text was cut at, and none has a separator that the
text has not. The last separator is told by having none after it.
-/

namespace RunReport.Text

variable {sep cs a b p : List Char}

/-- What stands before the first separator has none. -/
theorem not_infix_of_cutOnce (pos : sep ≠ []) (h : cutOnce sep cs = some (a, b)) :
    ¬sep <:+: a := by
  induction cs generalizing a with
  | nil => simp [cutOnce, pos] at h
  | cons c cs ih =>
    have whole := append_of_cutOnce h
    simp only [cutOnce] at h
    split at h
    · cases h
      exact fun inside => pos (List.infix_nil.1 inside)
    · rename_i apart
      obtain ⟨⟨a', b'⟩, later, same⟩ := Option.map_eq_some_iff.1 h
      cases same
      intro inside
      rcases List.infix_cons_iff.1 inside with starts | below
      · apply apart
        rw [whole]
        exact List.isPrefixOf_iff_prefix.2 (starts.trans (List.prefix_append ..))
      · exact ih later below

theorem occurs_of_prefix (h : sep <+: cs) : occurs sep cs = true := by
  cases cs with
  | nil => simp [occurs, cutOnce, List.prefix_nil.1 h]
  | cons c cs => simp [occurs, cutOnce, List.isPrefixOf_iff_prefix.2 h]

theorem occurs_iff : occurs sep cs = true ↔ sep <:+: cs := by
  constructor
  · intro found
    obtain ⟨⟨a, b⟩, cutAt⟩ := Option.isSome_iff_exists.1 found
    rw [append_of_cutOnce cutAt]
    exact ⟨a, b, by simp⟩
  · intro inside
    induction cs with
    | nil => exact occurs_of_prefix (List.prefix_nil.2 (List.infix_nil.1 inside))
    | cons c cs ih =>
      rcases List.infix_cons_iff.1 inside with starts | below
      · exact occurs_of_prefix starts
      · have later := ih below
        rw [occurs, cutOnce]
        split
        · rfl
        · rwa [Option.isSome_map]

/-- No piece has the separator. -/
theorem not_occurs_of_mem_cut (pos : sep ≠ []) (h : p ∈ cut sep cs) : occurs sep p = false := by
  rw [Bool.eq_false_iff, Ne, occurs_iff]
  revert h
  refine cut_induct (P := fun _ ps => p ∈ ps → ¬sep <:+: p) pos ?_ ?_ cs
  · intro cs whole here
    rw [List.mem_singleton.1 here, ← occurs_iff, occurs, whole]
    exact Bool.false_ne_true
  · intro cs a b cutAt later here
    rcases List.mem_cons.1 here with rfl | below
    · exact not_infix_of_cutOnce pos cutAt
    · exact later below

/-- A part of a text has no separator that the text has not. -/
theorem not_occurs_within (h : p <:+: cs) (none : occurs sep cs = false) :
    occurs sep p = false := by
  rw [Bool.eq_false_iff, Ne, occurs_iff] at none ⊢
  exact fun inside => none (inside.trans h)

theorem cut_of_not_occurs (none : occurs sep cs = false) : cut sep cs = [cs] := by
  refine cut_of_cutOnce_eq_none ?_
  simpa [occurs] using none

/-! ## Text that a separator is not in -/

/-- The separator does not begin in the text, whatever follows it. -/
def Avoids (sep cs : List Char) : Prop :=
  ∀ rest, cutOnce sep (cs ++ rest) = (cutOnce sep rest).map fun r => (cs ++ r.1, r.2)

theorem avoids_nil (sep : List Char) : Avoids sep [] := by
  intro rest
  exact Option.map_id'.symm

theorem Avoids.append (ha : Avoids sep a) (hb : Avoids sep b) : Avoids sep (a ++ b) := by
  intro rest
  rw [List.append_assoc, ha, hb, Option.map_map]
  simp only [Function.comp_def, List.append_assoc]

theorem avoids_cons {c : Char} (other : ∀ rest, ¬sep <+: c :: cs ++ rest) (h : Avoids sep cs) :
    Avoids sep (c :: cs) := by
  intro rest
  have apart : sep.isPrefixOf (c :: (cs ++ rest)) = false := by
    rw [Bool.eq_false_iff, Ne, List.isPrefixOf_iff_prefix]
    exact other rest
  rw [List.cons_append, cutOnce, apart, h, if_neg Bool.false_ne_true, Option.map_map]
  rfl

/-- Text without the first character of a separator. -/
theorem avoids_of_not_mem {d : Char} (free : d ∉ cs) : Avoids (d :: sep) cs := by
  induction cs with
  | nil => exact avoids_nil _
  | cons c cs ih =>
    rw [List.mem_cons, not_or] at free
    refine avoids_cons (fun rest found => free.1 ?_) (ih free.2)
    exact (List.cons_prefix_cons.1 found).1

/-- Whether neither the text nor any end of it can be the beginning of a separator. -/
def isFree (sep : List Char) : List Char → Bool
  | [] => true
  | c :: cs => !sep.isPrefixOf (c :: cs) && !(c :: cs).isPrefixOf sep && isFree sep cs

theorem avoids_of_isFree (h : isFree sep cs = true) : Avoids sep cs := by
  induction cs with
  | nil => exact avoids_nil _
  | cons c cs ih =>
    simp only [isFree, Bool.and_eq_true, Bool.not_eq_true', Bool.eq_false_iff, Ne,
      List.isPrefixOf_iff_prefix] at h
    refine avoids_cons (fun rest found => ?_) (ih h.2)
    rcases List.prefix_or_prefix_of_prefix found (List.prefix_append (c :: cs) rest) with left | right
    · exact h.1.1 left
    · exact h.1.2 right

theorem cutOnce_append_sep (pos : sep ≠ []) (h : Avoids sep a) :
    cutOnce sep (a ++ (sep ++ b)) = some (a, b) := by
  obtain ⟨d, ds, rfl⟩ := List.exists_cons_of_ne_nil pos
  have starts : (d :: ds).isPrefixOf (d :: ds ++ b) = true :=
    List.isPrefixOf_iff_prefix.2 (List.prefix_append ..)
  have here : cutOnce (d :: ds) (d :: ds ++ b) = some ([], b) := by
    rw [List.cons_append, cutOnce, ← List.cons_append, if_pos starts, List.drop_left]
  rw [h, here, Option.map_some, List.append_nil]

theorem cutOnce_char {c : Char} (free : c ∉ a) : cutOnce [c] (a ++ ([c] ++ b)) = some (a, b) :=
  cutOnce_append_sep (by simp) (avoids_of_not_mem free)

/-- Text that a separator is not in only makes the first piece longer. -/
theorem cut_append (pos : sep ≠ []) (h : Avoids sep a) (cs : List Char) :
    ∃ first more, cut sep cs = first :: more ∧ cut sep (a ++ cs) = (a ++ first) :: more := by
  cases found : cutOnce sep cs with
  | none =>
    refine ⟨cs, [], cut_of_cutOnce_eq_none found, cut_of_cutOnce_eq_none ?_⟩
    rw [h, found, Option.map_none]
  | some r =>
    refine ⟨r.1, cut sep r.2, cut_of_cutOnce_eq_some pos found, cut_of_cutOnce_eq_some pos ?_⟩
    rw [h, found, Option.map_some]

theorem cut_sep (pos : sep ≠ []) (cs : List Char) : cut sep (sep ++ cs) = [] :: cut sep cs :=
  cut_of_cutOnce_eq_some pos (cutOnce_append_sep (a := []) pos (avoids_nil sep))

/-! ## The last separator -/

theorem append_of_cutLast {c : Char} (h : cutLast c cs = some (a, b)) :
    cs = a ++ c :: b ∧ c ∉ b := by
  obtain ⟨⟨b', a'⟩, found, same⟩ := Option.map_eq_some_iff.1 h
  cases same
  constructor
  · rw [← List.reverse_inj, append_of_cutOnce found]
    simp
  · intro inside
    apply not_infix_of_cutOnce (by simp) found
    exact (List.singleton_infix_iff c b').2 (List.mem_reverse.1 inside)

theorem cutLast_append {c : Char} (h : c ∉ b) : cutLast c (a ++ c :: b) = some (a, b) := by
  have found : occurs [c] (a ++ c :: b).reverse = true := by
    rw [occurs_iff, List.singleton_infix_iff]
    simp
  obtain ⟨⟨b', a'⟩, cutAt⟩ := Option.isSome_iff_exists.1 found
  have last : cutLast c (a ++ c :: b) = some (a'.reverse, b'.reverse) := by
    rw [cutLast, cutAt]
    rfl
  obtain ⟨whole, free⟩ := append_of_cutLast last
  obtain ⟨rfl, rfl⟩ := divide_at_last h free whole
  exact last

end RunReport.Text
