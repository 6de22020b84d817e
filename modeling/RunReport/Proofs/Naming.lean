import RunReport.Proofs.Numerals
import RunReport.Route
/-!
# Ids tell nodes apart

No two ids have the same text. A dash ends each part of a route and stands in none of them, so the
last dash of a text divides the last step from the rest; the text of a message begins unlike any
route. A step is read back from its text if its place can be written in 64 bits.
-/

namespace RunReport

theorem divide_at_last {c : Char} {a a' b b' : List Char} (hb : c ∉ b) (hb' : c ∉ b')
    (h : a ++ c :: b = a' ++ c :: b') : a = a' ∧ b = b' := by
  have longer : ∀ {x y u v : List Char}, c ∉ u → c :: u = y ++ c :: v → x ++ y = x ∧ u = v := by
    intro x y u v hu hy
    cases y with
    | nil =>
      cases hy
      exact ⟨List.append_nil x, rfl⟩
    | cons d rest =>
      simp only [List.cons_append, List.cons.injEq] at hy
      exact absurd (by rw [hy.2]; simp) hu
  rcases List.append_eq_append_iff.1 h with ⟨y, rfl, hy⟩ | ⟨y, rfl, hy⟩
  · obtain ⟨ha, hu⟩ := longer (x := a) hb hy
    exact ⟨ha.symm, hu⟩
  · obtain ⟨ha, hu⟩ := longer (x := a') hb' hy
    exact ⟨ha, hu.symm⟩

theorem toString_nat_injective {n m : Nat} (h : toString n = toString m) : n = m := by
  have digits : Nat.toDigits 10 n = Nat.toDigits 10 m := by
    rw [← Nat.toList_repr, ← Nat.toList_repr]
    exact congrArg String.toList h
  rw [← Nat.ofDigitChars_ten_toDigits (n := n), digits, Nat.ofDigitChars_ten_toDigits]

namespace Segment

theorem toList_text (s : Segment) :
    s.text.toList = s.branch.letter :: (toString (s.index + 1)).toList := by
  simp [text]

theorem text_injective {s s' : Segment} (h : s.text = s'.text) : s = s' := by
  obtain ⟨b, i⟩ := s
  obtain ⟨b', i'⟩ := s'
  have chars := congrArg String.toList h
  simp only [toList_text, List.cons.injEq] at chars
  obtain ⟨letter, digits⟩ := chars
  have index := toString_nat_injective (String.toList_inj.1 digits)
  have branch : b = b' := by
    cases b <;> cases b' <;> first | rfl | (simp [Branch.letter] at letter)
  rw [branch, Nat.succ.inj index]

theorem dash_not_mem_text (s : Segment) : '-' ∉ s.text.toList := by
  rw [toList_text]
  intro h
  rcases List.mem_cons.1 h with letter | digit
  · cases hb : s.branch <;> simp [hb, Branch.letter] at letter
  · exact not_mem_natural (by decide) (s.index + 1) digit

end Segment

namespace Route

theorem toList_text_child (owner : Route) (step : Segment) :
    (Route.child owner step).text.toList = owner.text.toList ++ '-' :: step.text.toList := by
  simp [text]

theorem text_head (r : Route) : ∃ rest, r.text.toList = 's' :: rest := by
  induction r with
  | root => exact ⟨['1'], rfl⟩
  | child owner step ih =>
    obtain ⟨rest, h⟩ := ih
    exact ⟨rest ++ '-' :: step.text.toList, by rw [toList_text_child, h]; rfl⟩

theorem text_child_ne_root (owner : Route) (step : Segment) :
    (Route.child owner step).text ≠ Route.root.text := by
  intro h
  have chars := congrArg String.toList h
  rw [toList_text_child] at chars
  have dash : '-' ∈ Route.root.text.toList := by rw [← chars]; simp
  revert dash
  decide

theorem text_injective {r r' : Route} (h : r.text = r'.text) : r = r' := by
  induction r generalizing r' with
  | root =>
    cases r' with
    | root => rfl
    | child owner step => exact absurd h.symm (text_child_ne_root owner step)
  | child owner step ih =>
    cases r' with
    | root => exact absurd h (text_child_ne_root owner step)
    | child owner' step' =>
      have chars := congrArg String.toList h
      rw [toList_text_child, toList_text_child] at chars
      obtain ⟨ho, hs⟩ := divide_at_last step.dash_not_mem_text step'.dash_not_mem_text chars
      rw [ih (String.toList_inj.1 ho), Segment.text_injective (String.toList_inj.1 hs)]

end Route

namespace NodeId

theorem text_branch_ne_message (r : Route) (n : Nat) : (branch r).text ≠ (message n).text := by
  intro h
  obtain ⟨rest, hr⟩ := r.text_head
  have chars := congrArg String.toList h
  simp [text, hr, messageStart] at chars

/-- An id is known by its text. -/
theorem text_injective {id id' : NodeId} (h : id.text = id'.text) : id = id' := by
  cases id with
  | branch r =>
    cases id' with
    | branch r' => rw [Route.text_injective h]
    | message n => exact absurd h (text_branch_ne_message r n)
  | message n =>
    cases id' with
    | branch r => exact absurd h.symm (text_branch_ne_message r n)
    | message n' =>
      have chars := congrArg String.toList h
      simp only [text, String.toList_append, List.append_cancel_left_eq] at chars
      rw [toString_nat_injective (String.toList_inj.1 chars)]

end NodeId

/-! ## Reading steps back -/

theorem cut_plain {c : Char} {cs : List Char} (h : c ∉ cs) : Text.cut [c] cs = [cs] := by
  simp only [Text.cut]
  induction cs with
  | nil => rfl
  | cons d cs ih =>
    have other : c ≠ d := fun hd => h (by simp [hd])
    have apart : [c].isPrefixOf (d :: cs) = false := by simp [List.isPrefixOf, other]
    rw [Text.cutFrom, if_neg (by simp [apart]), ih fun hc => h (by simp [hc])]
    rfl

theorem consPiece_append (c : Char) {ps : List (List Char)} (h : ps ≠ []) (qs : List (List Char)) :
    Text.consPiece c (ps ++ qs) = Text.consPiece c ps ++ qs := by
  cases ps with
  | nil => exact absurd rfl h
  | cons p ps => rfl

/-- What follows the last separator is the last piece. -/
theorem cut_append {c : Char} (a : List Char) {b : List Char} (h : c ∉ b) :
    Text.cut [c] (a ++ c :: b) = Text.cut [c] a ++ [b] := by
  induction a with
  | nil =>
    have rest := cut_plain h
    simp only [Text.cut] at rest
    simp [Text.cut, Text.cutFrom, List.isPrefixOf, rest]
  | cons d a ih =>
    have nonempty := Text.cut_ne_nil [c] a
    simp only [Text.cut, List.cons_append, Text.cutFrom, List.length_cons, List.length_nil,
      Nat.zero_add, Nat.sub_self] at ih nonempty ⊢
    have same : [c].isPrefixOf (d :: (a ++ c :: b)) = [c].isPrefixOf (d :: a) := by
      simp [List.isPrefixOf]
    rw [same, ih]
    split
    · rfl
    · exact consPiece_append d nonempty _

/-- Digits are read up to what is no digit. -/
theorem digits_append {cs rest : List Char} (h : ∀ c ∈ cs, c.isDigit = true)
    (stops : ∀ c, rest.head? = some c → c.isDigit = false) :
    Json.digits (cs ++ rest) = (cs.map (·.toNat - '0'.toNat), rest) := by
  induction cs with
  | nil =>
    cases rest with
    | nil => rfl
    | cons c rest => simp [Json.digits, Json.digit?, stops c rfl]
  | cons c cs ih =>
    have first : Json.digit? c = some (c.toNat - '0'.toNat) := by
      simp only [Json.digit?, h c (by simp), if_true]
    simp only [List.cons_append, Json.digits, first, ih fun d hd => h d (by simp [hd]),
      List.map_cons]

theorem digits_decimal {cs : List Char} (h : ∀ c ∈ cs, c.isDigit = true) :
    Json.digits cs = (cs.map (·.toNat - '0'.toNat), []) := by
  have all : Json.digits (cs ++ []) = (cs.map (·.toNat - '0'.toNat), []) :=
    digits_append h (by simp)
  rwa [List.append_nil] at all

theorem digitsValue_decimal (cs : List Char) :
    Json.digitsValue (cs.map (·.toNat - '0'.toNat)) = Nat.ofDigitChars 10 cs 0 := by
  simp only [Json.digitsValue, Nat.ofDigitChars, List.foldl_map, Nat.mul_comm]

/-- A number that fits is read back from its digits. -/
theorem ordinal?_toString {n : Nat} (fits : n ≤ Json.maxU64) :
    ordinal? (toString n).toList = some n := by
  have chars : (toString n).toList = Nat.toDigits 10 n := by simp
  have decimal : ∀ c ∈ Nat.toDigits 10 n, c.isDigit = true := fun c hc =>
    Nat.isDigit_of_mem_toDigits (by decide) (by decide) hc
  rw [chars]
  have value := digitsValue_decimal (Nat.toDigits 10 n)
  rw [Nat.ofDigitChars_ten_toDigits] at value
  have all := digits_decimal decimal
  cases hd : Nat.toDigits 10 n with
  | nil => exact absurd hd Nat.toDigits_ne_nil
  | cons c cs =>
    have unsigned : c ≠ '+' := by
      rintro rfl
      exact absurd (decimal '+' (by simp [hd])) (by decide)
    rw [hd] at all value
    simp only [List.map_cons] at all value
    have fits' := fits
    rw [← value] at fits'
    simpa [ordinal?, unsigned, all] using And.intro fits' value

/-- Its place can be written in 64 bits. -/
def Segment.Countable (s : Segment) : Prop :=
  s.index < Json.maxU64

theorem Segment.parse?_text {s : Segment} (h : s.Countable) :
    Segment.parse? s.text.toList = some s := by
  have letter : Branch.ofLetter? s.branch.letter = some s.branch := by cases s.branch <;> rfl
  have number : ordinal? (toString (s.index + 1)).toList = some (s.index + 1) := ordinal?_toString h
  rw [toList_text]
  simp only [parse?, letter, number]
  rfl

theorem takeSegments_text {steps : List Segment} (h : ∀ step ∈ steps, step.Countable) :
    takeSegments (steps.map (·.text.toList)) = steps := by
  induction steps with
  | nil => rfl
  | cons step rest ih =>
    simp only [List.map_cons, takeSegments, Segment.parse?_text (h step (by simp)),
      ih fun s hs => h s (by simp [hs])]

end RunReport
