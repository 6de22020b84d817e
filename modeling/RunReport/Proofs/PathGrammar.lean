import Mathlib.Data.List.Forall2
import RunReport.Proofs.Links
/-!
# The grammar of paths

A path is cut at its dashes, what comes first is passed over, and the pieces name steps up to the
first that names none. A piece names a step by a letter and the digits of its place, counted from
one; before the digits it may have a plus sign, which a plain segment has not.
-/

namespace RunReport

variable {cs : List Char} {n : Nat}

/-! ## Places -/

/-- One or more digits, of a number that fits 64 bits. -/
structure Numeral (cs : List Char) (n : Nat) : Prop where
  nonempty : cs ≠ []
  digits : ∀ c ∈ cs, c.isDigit = true
  value : Nat.ofDigitChars 10 cs 0 = n
  fits : n < 0x10000000000000000

/-- The number that digits and nothing else stand for. -/
def numeral? (cs : List Char) : Option Nat :=
  match Json.digits cs with
  | ([], _) => none
  | (values, []) =>
    let n := Json.digitsValue values
    if n ≤ Json.maxU64 then some n else none
  | (_, _) => none

theorem ordinal?_plus (cs : List Char) : ordinal? ('+' :: cs) = numeral? cs := rfl

theorem ordinal?_other (other : cs.head? ≠ some '+') : ordinal? cs = numeral? cs := by
  rw [ordinal?]
  · rfl
  · rintro rest rfl
    exact other rfl

/-- Digits are read as far as they go. -/
theorem digits_inv {values : List Nat} {rest : List Char} (h : Json.digits cs = (values, rest)) :
    ∃ ds, cs = ds ++ rest ∧ (∀ c ∈ ds, c.isDigit = true) ∧
      values = ds.map (·.toNat - '0'.toNat) := by
  induction cs generalizing values with
  | nil =>
    cases h
    exact ⟨[], rfl, by simp, rfl⟩
  | cons c cs ih =>
    by_cases digit : c.isDigit = true
    · simp only [Json.digits, Json.digit?, if_pos digit] at h
      cases h
      obtain ⟨ds, split, decimal, values⟩ := ih rfl
      refine ⟨c :: ds, congrArg (c :: ·) split, ?_, congrArg (_ :: ·) values⟩
      exact List.forall_mem_cons.2 ⟨digit, decimal⟩
    · simp only [Json.digits, Json.digit?, if_neg digit] at h
      cases h
      exact ⟨[], rfl, by simp, rfl⟩

theorem numeral?_eq_some : numeral? cs = some n ↔ Numeral cs n := by
  constructor
  · intro h
    rw [numeral?] at h
    split at h
    · cases h
    · rename_i values some found
      obtain ⟨ds, split, decimal, rfl⟩ := digits_inv found
      rw [List.append_nil] at split
      subst split
      simp only [digitsValue_decimal, Option.ite_none_right_eq_some, Option.some_inj] at h
      obtain ⟨fits, rfl⟩ := h
      refine ⟨?_, decimal, rfl, Nat.lt_succ_of_le fits⟩
      rintro rfl
      exact some rfl
    · cases h
  · intro h
    have fits : n ≤ Json.maxU64 := Nat.le_of_lt_succ h.fits
    rw [numeral?, digits_decimal h.digits]
    split
    · rename_i none
      exact absurd (List.map_eq_nil_iff.1 (congrArg Prod.fst none)) h.nonempty
    · rename_i found
      cases found
      simp only [digitsValue_decimal, h.value]
      exact if_pos fits
    · rename_i rest found
      cases found
      exact absurd rfl rest

/-- A place is digits, perhaps after a plus sign. -/
theorem ordinal?_eq_some :
    ordinal? cs = some n ↔ Numeral cs n ∨ ∃ ds, cs = '+' :: ds ∧ Numeral ds n := by
  by_cases sign : cs.head? = some '+'
  · obtain ⟨ds, rfl⟩ := List.head?_eq_some_iff.1 sign
    rw [ordinal?_plus, numeral?_eq_some]
    constructor
    · intro numeral
      exact .inr ⟨ds, rfl, numeral⟩
    · rintro (numeral | ⟨ds', same, numeral⟩)
      · exact absurd (numeral.digits '+' List.mem_cons_self) (by decide)
      · cases same
        exact numeral
  · rw [ordinal?_other sign, numeral?_eq_some]
    refine (or_iff_left ?_).symm
    rintro ⟨ds, rfl, -⟩
    exact sign rfl

/-! ## Segments -/

namespace Segment

/-- The letter of its kind and the digits of its place, counted from one. -/
def Plain (s : Segment) (p : List Char) : Prop :=
  ∃ ds, p = s.branch.letter :: ds ∧ Numeral ds (s.index + 1)

/-- Plain, but for a plus sign after the letter. -/
def Signed (s : Segment) (p : List Char) : Prop :=
  ∃ ds, p = s.branch.letter :: '+' :: ds ∧ Numeral ds (s.index + 1)

def Spelled (s : Segment) (p : List Char) : Prop :=
  s.Plain p ∨ s.Signed p

theorem ofLetter?_eq_some {c : Char} {b : Branch} : Branch.ofLetter? c = some b ↔ c = b.letter := by
  constructor
  · intro h
    unfold Branch.ofLetter? at h
    split at h <;> cases h <;> rfl
  · rintro rfl
    cases b <;> rfl

theorem spelled_iff {s : Segment} {p : List Char} :
    s.Spelled p ↔ ∃ ds, p = s.branch.letter :: ds ∧ ordinal? ds = some (s.index + 1) := by
  constructor
  · rintro (⟨ds, rfl, numeral⟩ | ⟨ds, rfl, numeral⟩)
    · exact ⟨ds, rfl, ordinal?_eq_some.2 (.inl numeral)⟩
    · exact ⟨'+' :: ds, rfl, ordinal?_eq_some.2 (.inr ⟨ds, rfl, numeral⟩)⟩
  · rintro ⟨ds, rfl, place⟩
    rcases ordinal?_eq_some.1 place with numeral | ⟨rest, rfl, numeral⟩
    · exact .inl ⟨ds, rfl, numeral⟩
    · exact .inr ⟨rest, rfl, numeral⟩

/-- A piece is read as the segment it spells. -/
theorem parse?_eq_some {s : Segment} {p : List Char} : parse? p = some s ↔ s.Spelled p := by
  rw [spelled_iff]
  constructor
  · intro h
    cases p with
    | nil => cases h
    | cons c cs =>
      simp only [parse?, Option.bind_eq_bind, Option.bind_eq_some_iff] at h
      obtain ⟨b, letter, place, number, h⟩ := h
      cases place with
      | zero => cases h
      | succ i =>
        cases h
        rw [ofLetter?_eq_some.1 letter]
        exact ⟨cs, rfl, number⟩
  · rintro ⟨ds, rfl, number⟩
    simp only [parse?, ofLetter?_eq_some.2 rfl, number]
    rfl

end Segment

/-! ## Paths -/

namespace Text

/-- Pieces put together at their separators are the text they were cut from. -/
theorem intercalate_cut {sep : List Char} (pos : sep ≠ []) (cs : List Char) :
    sep.intercalate (cut sep cs) = cs := by
  refine cut_induct (P := fun cs ps => sep.intercalate ps = cs) pos ?_ ?_ cs
  · intro cs _
    exact List.intercalate_singleton
  · intro cs a b found later
    rw [List.intercalate_cons_of_ne_nil (cut_ne_nil sep b), later, append_of_cutOnce found,
      List.append_assoc]

/-- The pieces between the occurrences of a character are the only ones without it. -/
theorem cut_eq_iff {c : Char} {pieces : List (List Char)} :
    cut [c] cs = pieces ↔ pieces ≠ [] ∧ [c].intercalate pieces = cs ∧ ∀ p ∈ pieces, c ∉ p := by
  constructor
  · rintro rfl
    refine ⟨cut_ne_nil [c] cs, intercalate_cut (by simp) cs, fun p mem inside => ?_⟩
    have none := not_occurs_of_mem_cut (by simp) mem
    rw [occurs_iff.2 ((List.singleton_infix_iff c p).2 inside)] at none
    cases none
  · rintro ⟨nonempty, rfl, free⟩
    obtain ⟨p, ps, rfl⟩ := List.exists_cons_of_ne_nil nonempty
    exact cut_intercalate (by simp) fun q mem => avoids_of_not_mem (free q mem)

end Text

/-- The steps that a path names, for a way to spell segments: it is cut at its dashes, the first
piece is passed over, and the others count up to the first that is no segment. -/
def StepsIn (spelled : Segment → List Char → Prop) (path : String) (steps : List Segment) : Prop :=
  ∃ first taken left, ['-'].intercalate (first :: (taken ++ left)) = path.toList ∧
    (∀ p ∈ first :: (taken ++ left), '-' ∉ p) ∧ List.Forall₂ spelled steps taken ∧
    ∀ p, left.head? = some p → ∀ s, ¬spelled s p

theorem takeSegments_split (pieces : List (List Char)) :
    ∃ taken left, pieces = taken ++ left ∧
      List.Forall₂ Segment.Spelled (takeSegments pieces) taken ∧
      ∀ p, left.head? = some p → ∀ s, ¬Segment.Spelled s p := by
  induction pieces with
  | nil => exact ⟨[], [], rfl, .nil, by simp⟩
  | cons p ps ih =>
    cases read : Segment.parse? p with
    | none =>
      refine ⟨[], p :: ps, rfl, by simp [takeSegments, read], ?_⟩
      rintro _ ⟨⟩ s spelled
      rw [Segment.parse?_eq_some.2 spelled] at read
      cases read
    | some s =>
      obtain ⟨taken, left, rfl, each, stop⟩ := ih
      refine ⟨p :: taken, left, rfl, ?_, stop⟩
      simp only [takeSegments, read]
      exact .cons (Segment.parse?_eq_some.1 read) each

theorem takeSegments_append {steps : List Segment} {taken left : List (List Char)}
    (each : List.Forall₂ Segment.Spelled steps taken)
    (stop : ∀ p, left.head? = some p → ∀ s, ¬Segment.Spelled s p) :
    takeSegments (taken ++ left) = steps := by
  induction each with
  | nil =>
    cases left with
    | nil => rfl
    | cons p ps =>
      have none : Segment.parse? p = none :=
        Option.eq_none_iff_forall_ne_some.2 fun s read =>
          stop p rfl s (Segment.parse?_eq_some.1 read)
      simp only [List.nil_append, takeSegments, none]
  | cons spelled _ ih =>
    simp only [List.cons_append, takeSegments, Segment.parse?_eq_some.2 spelled, ih]

theorem cut_path {path : String} {first : List Char} {pieces : List (List Char)}
    (whole : ['-'].intercalate (first :: pieces) = path.toList)
    (free : ∀ p ∈ first :: pieces, '-' ∉ p) :
    (Text.cut ['-'] path.toList).drop 1 = pieces := by
  rw [Text.cut_eq_iff.2 ⟨List.cons_ne_nil _ _, whole, free⟩]
  rfl

/-- A text names just the steps that its pieces spell, with or without a plus sign in them. -/
theorem parsePath_eq_iff (path : String) (steps : List Segment) :
    parsePath path = steps ↔ StepsIn Segment.Spelled path steps := by
  constructor
  · rintro rfl
    obtain ⟨first, pieces, split⟩ := List.exists_cons_of_ne_nil (Text.cut_ne_nil ['-'] path.toList)
    obtain ⟨-, whole, free⟩ := Text.cut_eq_iff.1 split
    obtain ⟨taken, left, rfl, each, stop⟩ := takeSegments_split pieces
    refine ⟨first, taken, left, whole, free, ?_, stop⟩
    rw [parsePath, cut_path whole free]
    exact each
  · rintro ⟨first, taken, left, whole, free, each, stop⟩
    rw [parsePath, cut_path whole free]
    exact takeSegments_append each stop

/-- A plus sign is no digit, and still the piece counts. -/
theorem signed_segment_counts : ¬StepsIn Segment.Plain "s1-t+1" (parsePath "s1-t+1") := by
  rintro ⟨first, taken, left, whole, free, each, -⟩
  have pieces : taken ++ left = ["t+1".toList] := (cut_path whole free).symm
  have steps : parsePath "s1-t+1" = [⟨.test, 0⟩] := by decide
  rw [steps] at each
  obtain ⟨p, others, ⟨ds, rfl, numeral⟩, -, rfl⟩ := List.forall₂_cons_left_iff.1 each
  have digits : ds = ['+', '1'] := (List.cons.inj (List.cons.inj pieces).1).2
  exact absurd (numeral.digits '+' (by simp [digits])) (by decide)

end RunReport
