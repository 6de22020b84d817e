import Mathlib.Tactic.IntervalCases
import RunReport.Json.Record
import RunReport.Proofs.Naming
/-!
# Reading back what was written

A document is what a JSON text says, whatever it is asked for: every value with its fields in order,
numbers as they are spelled. A value that was written, compactly or over several lines, is read back
as the document it spells, character by character.
-/

namespace RunReport

namespace Json

/-! ## Documents -/

/-- A JSON value. Numbers stand for themselves, so that no two spellings are mixed up. -/
inductive Document where
  | null
  | bool (b : Bool)
  | number (t : NumberText)
  | str (s : String)
  | arr (items : List Document)
  | obj (fields : List (String × Document))

/-- The members of an object, after its opening brace. -/
def fieldsFrom {α : Type} (value : Reader α) : (fuel : Nat) → (isFirst : Bool) →
    Reader (List (String × α))
  | 0, _ => malformed
  | fuel + 1, isFirst => do
    if ← moreMembers isFirst then
      let key ← stringRest
      colon
      let a ← value
      let rest ← fieldsFrom value fuel false
      return (key, a) :: rest
    else return []

namespace Document

/-- Every level takes a character, so the length of the text is enough `fuel`. -/
def reader : (fuel : Nat) → Reader Document
  | 0 => malformed
  | fuel + 1 => do
    match ← next with
    | some 'n' => literal "null".toList; return .null
    | some 't' => literal "true".toList; return .bool true
    | some 'f' => literal "false".toList; return .bool false
    | some '"' => drop1; .str <$> stringRest
    | some '[' => drop1; .arr <$> itemsFrom (reader fuel) (fuel + 1) true
    | some '\x7b' => drop1; .obj <$> fieldsFrom (reader fuel) (fuel + 1) true
    | some c => if c = '-' || c.isDigit then .number <$> numberText else malformed
    | none => malformed

/-- What the text says, if it is JSON. -/
def read (text : String) : Except ReadError Document :=
  Json.read (reader (text.toList.length + 1)) text

end Document

/-- The digits of a number. -/
def decimals (n : Nat) : List Nat :=
  (Nat.toDigits 10 n).map (·.toNat - '0'.toNat)

mutual

/-- The document that a value spells. -/
def Value.document : Value → Document
  | .null => .null
  | .bool b => .bool b
  | .int n => .number ⟨n < 0, decimals n.natAbs, none, none⟩
  | .tenths n => .number ⟨false, decimals (n / 10), some (decimals (n % 10)), none⟩
  | .str s => .str s
  | .arr items => .arr (documentItems items)
  | .obj fields => .obj (documentFields fields)

def documentItems : List Value → List Document
  | [] => []
  | v :: vs => v.document :: documentItems vs

def documentFields : List (String × Value) → List (String × Document)
  | [] => []
  | (k, v) :: fs => (k, v.document) :: documentFields fs

end

/-! ## Steps of a reader -/

section Steps

variable {α β : Type} {r : Reader α} {cs rest : List Char} {a : α}

theorem bind_reads (k : α → Reader β) (h : r cs = .ok (a, rest)) : (r >>= k) cs = k a rest := by
  simp only [bind, StateT.bind, h, Except.bind]

theorem map_reads (f : α → β) (h : r cs = .ok (a, rest)) : (f <$> r) cs = .ok (f a, rest) := by
  simp only [Functor.map, StateT.map, bind, h, Except.bind, pure, Except.pure]

/-- Blanks are passed over. -/
theorem next_reads {gap : List Char} (blank : gap.all isBlank = true) {c : Char}
    (visible : isBlank c = false) (cs : List Char) :
    next (gap ++ c :: cs) = .ok (some c, c :: cs) := by
  have kept : (gap ++ c :: cs).dropWhile isBlank = c :: cs := by
    rw [List.dropWhile_append_of_pos (List.all_eq_true.1 blank)]
    exact List.dropWhile_cons_of_neg (by simp [visible])
  have seen : next (gap ++ c :: cs) =
      .ok (((gap ++ c :: cs).dropWhile isBlank).head?, (gap ++ c :: cs).dropWhile isBlank) := rfl
  rw [seen, kept]
  rfl

theorem no_gap : ([] : List Char).all isBlank = true := rfl

theorem next_here {c : Char} (visible : isBlank c = false) (cs : List Char) :
    next (c :: cs) = .ok (some c, c :: cs) :=
  next_reads no_gap visible cs

theorem literal_reads (text rest : List Char) : literal text (text ++ rest) = .ok ((), rest) := by
  have begins : text.isPrefixOf (text ++ rest) = true :=
    List.isPrefixOf_iff_prefix.2 (List.prefix_append text rest)
  simp only [literal, begins, if_true, List.drop_left]

end Steps

/-! ## Strings -/

/-- The characters between the quotes of a written string. -/
def inQuotes (s : String) : List Char :=
  s.toList.flatMap fun c => (escapeChar c).toList

theorem toList_showString (s : String) : (showString s).toList = '"' :: inQuotes s ++ ['"'] := by
  simp [showString, inQuotes, String.toList_append, String.toList_join, List.flatMap_map]

theorem stringBody_control {n : Nat} (control : n < 0x20) (cs : List Char) :
    stringBody .plain (("\\u00" ++ hexByte n).toList ++ cs) =
      consChar (Char.ofNat n) (stringBody .plain cs) := by
  interval_cases n <;> rfl

/-- Needs no escape in a string. -/
def needsNoEscape (c : Char) : Bool :=
  c != '"' && c != '\\' && 0x20 ≤ c.toNat

/-- Characters that need no escape stand for themselves. -/
theorem stringBody_plain {p : List Char} (plain : p.all needsNoEscape = true) (cs : List Char) :
    stringBody .plain (p ++ cs) = p.foldr consChar (stringBody .plain cs) := by
  induction p with
  | nil => rfl
  | cons c p ih =>
    rw [List.all_cons, Bool.and_eq_true] at plain
    have first := plain.1
    simp only [needsNoEscape, Bool.and_eq_true, bne_iff_ne, decide_eq_true_eq] at first
    obtain ⟨⟨quote, backslash⟩, visible⟩ := first
    have control : ¬c.toNat < 0x20 := Nat.not_lt.2 visible
    rw [List.foldr_cons, ← ih plain.2]
    simp only [List.cons_append, stringBody, quote, backslash, control, if_false]

/-- One written character is read back as itself. -/
theorem stringBody_escapeChar (c : Char) (cs : List Char) :
    stringBody .plain ((escapeChar c).toList ++ cs) = consChar c (stringBody .plain cs) := by
  by_cases special : c = '"' ∨ c = '\\' ∨ c = '\n' ∨ c = '\r' ∨ c = '\t' ∨ c = '\x08' ∨ c = '\x0c'
  · rcases special with rfl | rfl | rfl | rfl | rfl | rfl | rfl <;> rfl
  · simp only [not_or] at special
    obtain ⟨quote, backslash, h₃, h₄, h₅, h₆, h₇⟩ := special
    simp only [escapeChar, quote, backslash, h₃, h₄, h₅, h₆, h₇, if_false]
    by_cases control : c.toNat < 0x20
    · rw [if_pos control, stringBody_control control, Char.ofNat_toNat]
    · rw [if_neg control, String.toList_singleton]
      refine stringBody_plain (p := [c]) ?_ cs
      simpa [needsNoEscape, quote, backslash] using Nat.not_lt.1 control

theorem stringBody_written (cs rest : List Char) :
    stringBody .plain (cs.flatMap (fun c => (escapeChar c).toList) ++ '"' :: rest) =
      .ok (cs, rest) := by
  induction cs with
  | nil => rfl
  | cons c cs ih =>
    rw [List.flatMap_cons, List.append_assoc, stringBody_escapeChar, ih]
    rfl

/-- A written string is read back, whatever its characters. -/
theorem stringRest_written (s : String) (rest : List Char) :
    stringRest (inQuotes s ++ '"' :: rest) = .ok (s, rest) := by
  rw [stringRest, inQuotes, bind_reads _ (stringBody_written s.toList rest), String.ofList_toList]
  rfl

/-! ## Numbers -/

/-- What follows does not go on with a number. -/
def Stops (cs : List Char) : Prop :=
  ∀ c, cs.head? = some c → c.isDigit = false ∧ c ≠ '.' ∧ c ≠ 'e' ∧ c ≠ 'E'

theorem stops_nil : Stops [] := by
  rintro c ⟨⟩

theorem stops_cons {c : Char} (other : c.isDigit = false ∧ c ≠ '.' ∧ c ≠ 'e' ∧ c ≠ 'E')
    (cs : List Char) : Stops (c :: cs) := by
  rintro _ ⟨⟩
  exact other

theorem Stops.not_digit {cs : List Char} (h : Stops cs) :
    ∀ c, cs.head? = some c → c.isDigit = false :=
  fun c hc => (h c hc).1

theorem decimals_ne_nil (n : Nat) : decimals n ≠ [] := by
  simp [decimals, Nat.toDigits_ne_nil]

/-- A number above zero does not begin with a zero. -/
theorem head_decimals {n : Nat} (pos : 0 < n) : (decimals n).head? ≠ some 0 := by
  induction n using Nat.strongRecOn with
  | ind n ih =>
    by_cases small : n < 10
    · have one : decimals n = [n] := by
        rw [decimals, Nat.toDigits_of_lt_base small, List.map_singleton]
        exact congrArg ([·]) (Nat.toNat_digitChar_sub_48_of_lt_ten small)
      rw [one]
      exact fun zero => Nat.ne_of_gt pos (Option.some.inj zero)
    · have longer : decimals n = decimals (n / 10) ++ [(n % 10).digitChar.toNat - '0'.toNat] := by
        rw [decimals, Nat.toDigits_of_base_le (by decide) (Nat.le_of_not_lt small),
          List.map_append]
        rfl
      have before := ih (n / 10) (by omega) (by omega)
      obtain ⟨d, ds, first⟩ := List.exists_cons_of_ne_nil (decimals_ne_nil (n / 10))
      rw [longer, first]
      rwa [first] at before

/-- A number of several digits has no leading zero. -/
theorem leading_decimals {n d e : Nat} {ds : List Nat} (h : decimals n = d :: e :: ds) :
    d ≠ 0 := by
  rintro rfl
  cases n with
  | zero => cases h
  | succ n => exact head_decimals (Nat.succ_pos n) (by rw [h]; rfl)

theorem digits_natural (n : Nat) {rest : List Char}
    (stops : ∀ c, rest.head? = some c → c.isDigit = false) :
    digits ((toString n).toList ++ rest) = (decimals n, rest) := by
  have text : (toString n).toList = Nat.toDigits 10 n := by simp
  rw [text]
  exact digits_append (fun c mem => Nat.isDigit_of_mem_toDigits (by decide) (by decide) mem) stops

theorem someDigits_natural (n : Nat) {rest : List Char}
    (stops : ∀ c, rest.head? = some c → c.isDigit = false) :
    someDigits ((toString n).toList ++ rest) = .ok (decimals n, rest) := by
  rw [someDigits, digits_natural n stops]
  split
  · rename_i none
    exact absurd (congrArg Prod.fst none) (decimals_ne_nil n)
  · rename_i same
    rw [same]

theorem wholePart_natural (n : Nat) {rest : List Char}
    (stops : ∀ c, rest.head? = some c → c.isDigit = false) :
    wholePart ((toString n).toList ++ rest) = .ok (decimals n, rest) := by
  rw [wholePart, digits_natural n stops]
  split
  · rename_i none
    exact absurd (congrArg Prod.fst none) (decimals_ne_nil n)
  · rename_i zero
    exact absurd rfl (leading_decimals (congrArg Prod.fst zero))
  · rename_i same
    rw [same]

theorem head_natural (n : Nat) (rest : List Char) :
    ∃ c cs, (toString n).toList ++ rest = c :: cs ∧ c.isDigit = true := by
  have text : (toString n).toList = Nat.toDigits 10 n := by simp
  have decimal : ∀ c ∈ (toString n).toList, c.isDigit = true := by
    rw [text]
    exact fun c mem => Nat.isDigit_of_mem_toDigits (by decide) (by decide) mem
  cases chars : (toString n).toList with
  | nil => exact absurd (text.symm.trans chars) Nat.toDigits_ne_nil
  | cons c cs => exact ⟨c, cs ++ rest, rfl, decimal c (by rw [chars]; exact List.mem_cons_self)⟩

theorem numberSign_other {cs : List Char} (other : cs.head? ≠ some '-') :
    numberSign cs = .ok (false, cs) := by
  rw [numberSign]
  rintro _ rfl
  exact other rfl

theorem fractionPart_other {cs : List Char} (other : cs.head? ≠ some '.') :
    fractionPart cs = .ok (none, cs) := by
  rw [fractionPart]
  rintro _ rfl
  exact other rfl

theorem exponentDigits_other {cs : List Char} (plus : cs.head? ≠ some '+')
    (minus : cs.head? ≠ some '-') : exponentDigits cs = ((true, ·) <$> someDigits) cs := by
  rw [exponentDigits]
  · rintro _ rfl
    exact plus rfl
  · rintro _ rfl
    exact minus rfl

theorem exponentPart_other {cs : List Char} (small : cs.head? ≠ some 'e')
    (capital : cs.head? ≠ some 'E') : exponentPart cs = .ok (none, cs) := by
  rw [exponentPart]
  · rintro _ rfl
    exact small rfl
  · rintro _ rfl
    exact capital rfl

theorem numberSign_natural (n : Nat) (rest : List Char) :
    numberSign ((toString n).toList ++ rest) = .ok (false, (toString n).toList ++ rest) := by
  obtain ⟨c, cs, text, digit⟩ := head_natural n rest
  rw [text]
  refine numberSign_other fun sign => ?_
  cases sign
  cases digit

theorem fractionPart_stops {cs : List Char} (stops : Stops cs) :
    fractionPart cs = .ok (none, cs) :=
  fractionPart_other fun point => (stops _ point).2.1 rfl

theorem exponentPart_stops {cs : List Char} (stops : Stops cs) :
    exponentPart cs = .ok (none, cs) :=
  exponentPart_other (fun small => (stops _ small).2.2.1 rfl)
    fun capital => (stops _ capital).2.2.2 rfl

theorem numberText_natural (n : Nat) {rest : List Char} (stops : Stops rest) :
    numberText ((toString n).toList ++ rest) = .ok (⟨false, decimals n, none, none⟩, rest) := by
  rw [numberText, bind_reads _ (numberSign_natural n rest),
    bind_reads _ (wholePart_natural n stops.not_digit), bind_reads _ (fractionPart_stops stops),
    bind_reads _ (exponentPart_stops stops)]
  rfl

theorem numberText_negative (n : Nat) {rest : List Char} (stops : Stops rest) :
    numberText ('-' :: (toString n).toList ++ rest) =
      .ok (⟨true, decimals n, none, none⟩, rest) := by
  have sign : numberSign ('-' :: (toString n).toList ++ rest) =
      .ok (true, (toString n).toList ++ rest) := rfl
  rw [numberText, bind_reads _ sign, bind_reads _ (wholePart_natural n stops.not_digit),
    bind_reads _ (fractionPart_stops stops), bind_reads _ (exponentPart_stops stops)]
  rfl

theorem toList_negSucc (n : Nat) :
    (toString (Int.negSucc n)).toList = '-' :: (toString (n + 1)).toList := by
  change ("-" ++ toString (n + 1)).toList = _
  rw [String.toList_append]
  rfl

theorem begins_integer (n : Int) :
    ∃ c cs, (toString n).toList = c :: cs ∧ (c = '-' ∨ c.isDigit = true) := by
  cases n with
  | ofNat n =>
    obtain ⟨c, cs, begins, digit⟩ := head_natural n []
    rw [List.append_nil] at begins
    exact ⟨c, cs, begins, .inr digit⟩
  | negSucc n => exact ⟨_, _, toList_negSucc n, .inl rfl⟩

theorem numberText_integer (n : Int) {rest : List Char} (stops : Stops rest) :
    numberText ((toString n).toList ++ rest) =
      .ok (⟨n < 0, decimals n.natAbs, none, none⟩, rest) := by
  cases n with
  | ofNat n =>
    have sign : decide (Int.ofNat n < 0) = false := by simp
    rw [sign]
    exact numberText_natural n stops
  | negSucc n =>
    have sign : decide (Int.negSucc n < 0) = true := by simp
    rw [sign, toList_negSucc]
    exact numberText_negative (n + 1) stops

theorem numberText_tenths (n : Nat) {rest : List Char} (stops : Stops rest) :
    numberText ((showTenths n).toList ++ rest) =
      .ok (⟨false, decimals (n / 10), some (decimals (n % 10)), none⟩, rest) := by
  have text : (showTenths n).toList ++ rest =
      (toString (n / 10)).toList ++ ('.' :: ((toString (n % 10)).toList ++ rest)) := by
    change (toString (n / 10) ++ "." ++ toString (n % 10)).toList ++ rest = _
    simp [String.toList_append]
  have point : ∀ c, ('.' :: ((toString (n % 10)).toList ++ rest)).head? = some c →
      c.isDigit = false := by
    rintro _ ⟨⟩
    rfl
  have fraction : fractionPart ('.' :: ((toString (n % 10)).toList ++ rest)) =
      .ok (some (decimals (n % 10)), rest) :=
    map_reads some (someDigits_natural (n % 10) stops.not_digit)
  rw [text, numberText, bind_reads _ (numberSign_natural _ _),
    bind_reads _ (wholePart_natural _ point), bind_reads _ fraction,
    bind_reads _ (exponentPart_stops stops)]
  rfl

/-! ## Lists and objects -/

section Members

variable {α : Type} {r : Reader α} {a : α} {gap last : List Char}

/-- After blanks and before anything that does not go on with a number, `r` reads `a` from the text;
and the text begins like a value. -/
structure Spells (r : Reader α) (text : List Char) (a : α) : Prop where
  opens : ∃ c cs, text = c :: cs ∧ isBlank c = false ∧ c ≠ ']'
  reads : ∀ gap rest, gap.all isBlank = true → Stops rest →
    r (gap ++ (text ++ rest)) = .ok (a, rest)

theorem Spells.here {text : List Char} (h : Spells r text a) {rest : List Char}
    (stops : Stops rest) : r (text ++ rest) = .ok (a, rest) :=
  h.reads [] rest no_gap stops

theorem stops_of_blank {rest : List Char} (blank : gap.all isBlank = true) (stops : Stops rest) :
    Stops (gap ++ rest) := by
  cases gap with
  | nil => exact stops
  | cons c gap =>
    have first : isBlank c = true := List.all_eq_true.1 blank c List.mem_cons_self
    simp only [isBlank, Bool.or_eq_true, beq_iff_eq] at first
    refine stops_cons ?_ (gap ++ rest)
    rcases first with ((rfl | rfl) | rfl) | rfl <;> decide

/-- Parts after the first, each after a comma and a gap. -/
def commaBefore (gap : List Char) (texts : List (List Char)) : List Char :=
  texts.flatMap fun text => ',' :: (gap ++ text)

/-- Parts between commas, with a gap before each and another gap after the last. -/
def enclosed (gap last : List Char) : List (List Char) → List Char
  | [] => []
  | text :: texts => gap ++ text ++ commaBefore gap texts ++ last

theorem stops_commaBefore (gap : List Char) {c : Char}
    (ends : c.isDigit = false ∧ c ≠ '.' ∧ c ≠ 'e' ∧ c ≠ 'E') (blank : last.all isBlank = true)
    (texts : List (List Char)) (rest : List Char) :
    Stops (commaBefore gap texts ++ (last ++ c :: rest)) := by
  cases texts with
  | nil =>
    change Stops (last ++ c :: rest)
    exact stops_of_blank blank (stops_cons ends rest)
  | cons t ts => exact stops_cons (by decide) _

theorem moreItems_close (blank : gap.all isBlank = true) (isFirst : Bool) (rest : List Char) :
    moreItems isFirst (gap ++ ']' :: rest) = .ok (false, ']' :: rest) := by
  rw [moreItems, bind_reads _ (next_reads blank (by decide) rest)]
  rfl

section Opens

variable {text : List Char} (opens : ∃ c cs, text = c :: cs ∧ isBlank c = false ∧ c ≠ ']')

include opens

/-- The first item follows the bracket. -/
theorem moreItems_first (blank : gap.all isBlank = true) (rest : List Char) :
    moreItems true (gap ++ (text ++ rest)) = .ok (true, text ++ rest) := by
  obtain ⟨c, cs, rfl, visible, other⟩ := opens
  rw [List.cons_append, moreItems, bind_reads _ (next_reads blank visible (cs ++ rest))]
  simp only [if_true]
  rfl

theorem moreItems_comma (blank' : last.all isBlank = true) (blank : gap.all isBlank = true)
    (rest : List Char) :
    moreItems false (last ++ ',' :: (gap ++ (text ++ rest))) = .ok (true, text ++ rest) := by
  obtain ⟨c, cs, rfl, visible, other⟩ := opens
  have dropped : drop1 (',' :: (gap ++ (c :: cs ++ rest))) = .ok ((), gap ++ c :: (cs ++ rest)) :=
    rfl
  rw [moreItems, bind_reads _ (next_reads blank' (by decide) _)]
  refine (bind_reads _ dropped).trans ?_
  rw [bind_reads _ (next_reads blank visible (cs ++ rest))]
  simp only
  rfl

end Opens

theorem itemsFrom_rest (blank : gap.all isBlank = true) (blank' : last.all isBlank = true)
    {texts : List (List Char)} {as : List α} (each : List.Forall₂ (Spells r) texts as) {fuel : Nat}
    (enough : texts.length < fuel) (rest : List Char) :
    itemsFrom r fuel false (commaBefore gap texts ++ (last ++ ']' :: rest)) = .ok (as, rest) := by
  induction each generalizing fuel with
  | nil =>
    obtain ⟨fuel, rfl⟩ := Nat.exists_eq_add_one_of_ne_zero (Nat.ne_of_gt enough)
    rw [itemsFrom]
    exact bind_reads _ (moreItems_close blank' false rest)
  | @cons text a texts as first _ ih =>
    obtain ⟨fuel, rfl⟩ := Nat.exists_eq_add_one_of_ne_zero (Nat.ne_of_gt (Nat.zero_lt_of_lt enough))
    have stops := stops_commaBefore gap (c := ']') (by decide) blank' texts rest
    have whole : commaBefore gap (text :: texts) ++ (last ++ ']' :: rest) =
        ',' :: (gap ++ (text ++ (commaBefore gap texts ++ (last ++ ']' :: rest)))) := by
      simp [commaBefore]
    have comma := moreItems_comma first.opens no_gap blank
      (commaBefore gap texts ++ (last ++ ']' :: rest))
    rw [List.nil_append] at comma
    rw [whole, itemsFrom, bind_reads _ comma, if_pos rfl, bind_reads _ (first.here stops),
      bind_reads _ (ih (Nat.lt_of_succ_lt_succ enough))]
    rfl

/-- A list is read from what stands after its opening bracket. -/
theorem itemsFrom_written (blank : gap.all isBlank = true) (blank' : last.all isBlank = true)
    {texts : List (List Char)} {as : List α} (each : List.Forall₂ (Spells r) texts as) {fuel : Nat}
    (enough : texts.length < fuel) (rest : List Char) :
    itemsFrom r fuel true (enclosed gap last texts ++ ']' :: rest) = .ok (as, rest) := by
  obtain ⟨fuel, rfl⟩ := Nat.exists_eq_add_one_of_ne_zero (Nat.ne_of_gt (Nat.zero_lt_of_lt enough))
  cases each with
  | nil =>
    rw [itemsFrom]
    exact bind_reads _ (moreItems_close no_gap true rest)
  | @cons text a texts as first others =>
    have stops := stops_commaBefore gap (c := ']') (by decide) blank' texts rest
    have fewer := Nat.lt_of_succ_lt_succ enough
    have whole : enclosed gap last (text :: texts) ++ ']' :: rest =
        gap ++ (text ++ (commaBefore gap texts ++ (last ++ ']' :: rest))) := by
      simp [enclosed]
    rw [whole, itemsFrom, bind_reads _ (moreItems_first first.opens blank _), if_pos rfl,
      bind_reads _ (first.here stops),
      bind_reads _ (itemsFrom_rest blank blank' others fewer _)]
    rfl

/-- A member of an object is spelled as its name and, after a gap, its value. -/
def Member (r : Reader α) (text : List Char) (f : String × α) : Prop :=
  ∃ gap value, gap.all isBlank = true ∧ text = (showString f.1).toList ++ ':' :: (gap ++ value) ∧
    Spells r value f.2

/-- After the quote that opens the name, a member is read up to where it ends. -/
theorem member_reads {β : Type} {name : String} {value : List Char} (h : Spells r value a)
    (blank : gap.all isBlank = true) {rest : List Char} (stops : Stops rest)
    (k : String → α → Reader β) :
    (do
      let key ← stringRest
      colon
      let a ← r
      k key a : Reader β)
      (inQuotes name ++ '"' :: ':' :: (gap ++ (value ++ rest))) = k name a rest := by
  have sign : colon (':' :: (gap ++ (value ++ rest))) = .ok ((), gap ++ (value ++ rest)) := by
    rw [colon, bind_reads _ (next_here (by decide) _)]
    rfl
  rw [bind_reads _ (stringRest_written name _), bind_reads _ sign,
    bind_reads _ (h.reads gap rest blank stops)]

theorem moreMembers_close (blank : gap.all isBlank = true) (isFirst : Bool) (rest : List Char) :
    moreMembers isFirst (gap ++ '\x7d' :: rest) = .ok (false, rest) := by
  rw [moreMembers, bind_reads _ (next_reads blank (by decide) rest)]
  rfl

theorem moreMembers_first (blank : gap.all isBlank = true) (rest : List Char) :
    moreMembers true (gap ++ '"' :: rest) = .ok (true, rest) := by
  rw [moreMembers, bind_reads _ (next_reads blank (by decide) rest)]
  rfl

theorem moreMembers_comma (blank : gap.all isBlank = true) (rest : List Char) :
    moreMembers false (',' :: (gap ++ '"' :: rest)) = .ok (true, rest) := by
  have dropped : drop1 (',' :: (gap ++ '"' :: rest)) = .ok ((), gap ++ '"' :: rest) := rfl
  rw [moreMembers, bind_reads _ (next_here (by decide) _)]
  exact (bind_reads _ dropped).trans (bind_reads _ (next_reads blank (by decide) rest))

theorem fieldsFrom_rest (blank : gap.all isBlank = true) (blank' : last.all isBlank = true)
    {texts : List (List Char)} {fs : List (String × α)} (each : List.Forall₂ (Member r) texts fs)
    {fuel : Nat} (enough : texts.length < fuel) (rest : List Char) :
    fieldsFrom r fuel false (commaBefore gap texts ++ (last ++ '\x7d' :: rest)) =
      .ok (fs, rest) := by
  induction each generalizing fuel with
  | nil =>
    obtain ⟨fuel, rfl⟩ := Nat.exists_eq_add_one_of_ne_zero (Nat.ne_of_gt enough)
    rw [fieldsFrom]
    exact bind_reads _ (moreMembers_close blank' false rest)
  | @cons text f texts fs first _ ih =>
    obtain ⟨fuel, rfl⟩ := Nat.exists_eq_add_one_of_ne_zero (Nat.ne_of_gt (Nat.zero_lt_of_lt enough))
    obtain ⟨inner, value, blankInner, rfl, spelled⟩ := first
    have stops := stops_commaBefore gap (c := '\x7d') (by decide) blank' texts rest
    have whole : commaBefore gap (((showString f.1).toList ++ ':' :: (inner ++ value)) :: texts) ++
          (last ++ '\x7d' :: rest) =
        ',' :: (gap ++ '"' :: (inQuotes f.1 ++ '"' :: ':' ::
          (inner ++ (value ++ (commaBefore gap texts ++ (last ++ '\x7d' :: rest)))))) := by
      simp [commaBefore, toList_showString]
    rw [whole, fieldsFrom, bind_reads _ (moreMembers_comma blank _), if_pos rfl,
      member_reads spelled blankInner stops, bind_reads _ (ih (Nat.lt_of_succ_lt_succ enough))]
    rfl

/-- An object is read from what stands after its opening brace. -/
theorem fieldsFrom_written (blank : gap.all isBlank = true) (blank' : last.all isBlank = true)
    {texts : List (List Char)} {fs : List (String × α)} (each : List.Forall₂ (Member r) texts fs)
    {fuel : Nat} (enough : texts.length < fuel) (rest : List Char) :
    fieldsFrom r fuel true (enclosed gap last texts ++ '\x7d' :: rest) = .ok (fs, rest) := by
  obtain ⟨fuel, rfl⟩ := Nat.exists_eq_add_one_of_ne_zero (Nat.ne_of_gt (Nat.zero_lt_of_lt enough))
  cases each with
  | nil =>
    rw [fieldsFrom]
    exact bind_reads _ (moreMembers_close no_gap true rest)
  | @cons text f texts fs first others =>
    obtain ⟨inner, value, blankInner, rfl, spelled⟩ := first
    have stops := stops_commaBefore gap (c := '\x7d') (by decide) blank' texts rest
    have fewer := Nat.lt_of_succ_lt_succ enough
    have whole :
        enclosed gap last (((showString f.1).toList ++ ':' :: (inner ++ value)) :: texts) ++
          '\x7d' :: rest =
        gap ++ '"' :: (inQuotes f.1 ++ '"' :: ':' ::
          (inner ++ (value ++ (commaBefore gap texts ++ (last ++ '\x7d' :: rest))))) := by
      simp [enclosed, toList_showString]
    rw [whole, fieldsFrom, bind_reads _ (moreMembers_first blank _), if_pos rfl,
      member_reads spelled blankInner stops,
      bind_reads _ (fieldsFrom_rest blank blank' others fewer _)]
    rfl

end Members

/-! ## Values -/

theorem length_le_commas {gap text : List Char} {texts : List (List Char)} (mem : text ∈ texts) :
    text.length ≤ (commaBefore gap texts).length := by
  obtain ⟨before, after, rfl⟩ := List.append_of_mem mem
  simp only [commaBefore, List.flatMap_append, List.flatMap_cons, List.length_append,
    List.length_cons]
  omega

theorem length_commas (gap : List Char) (texts : List (List Char)) :
    texts.length ≤ (commaBefore gap texts).length := by
  induction texts with
  | nil => exact Nat.zero_le _
  | cons text texts ih =>
    simp only [commaBefore, List.flatMap_cons, List.length_append, List.length_cons] at ih ⊢
    omega

/-- Where a text between brackets fits, so do its parts, and there are not too many of them. -/
theorem room_for_parts {gap last : List Char} {texts : List (List Char)} {opening closing : Char}
    {fuel : Nat} (enough : (opening :: enclosed gap last texts ++ [closing]).length < fuel + 1) :
    texts.length ≤ fuel ∧ ∀ text ∈ texts, text.length < fuel := by
  rw [List.length_append, List.length_cons, List.length_singleton] at enough
  cases texts with
  | nil => exact ⟨Nat.zero_le _, nofun⟩
  | cons text texts =>
    simp only [enclosed, List.length_append] at enough
    have count := length_commas gap texts
    refine ⟨by simp only [List.length_cons]; omega, fun other mem => ?_⟩
    rcases List.mem_cons.1 mem with rfl | later
    · omega
    · have within : other.length ≤ (commaBefore gap texts).length := length_le_commas later
      omega

namespace Document

section Begins

variable {c : Char} (first : c = '-' ∨ c.isDigit = true)

include first

/-- The first character of a number opens nothing else. -/
theorem ne_of_begins {d : Char} (other : d.isDigit = false) (sign : d ≠ '-') : c ≠ d := by
  rintro rfl
  rcases first with rfl | digit
  · exact sign rfl
  · rw [digit] at other
    cases other

theorem visible_of_begins : isBlank c = false := by
  have space : c ≠ ' ' := ne_of_begins first rfl (by decide)
  have feed : c ≠ '\n' := ne_of_begins first rfl (by decide)
  have tab : c ≠ '\t' := ne_of_begins first rfl (by decide)
  have back : c ≠ '\r' := ne_of_begins first rfl (by decide)
  simp [isBlank, space, feed, tab, back]

theorem opens_number : (c = '-' || c.isDigit) = true ∧ c ≠ 'n' ∧ c ≠ 't' ∧ c ≠ 'f' ∧ c ≠ '"' ∧
    c ≠ '[' ∧ c ≠ '\x7b' :=
  ⟨by simpa using first, ne_of_begins first rfl (by decide), ne_of_begins first rfl (by decide),
    ne_of_begins first rfl (by decide), ne_of_begins first rfl (by decide),
    ne_of_begins first rfl (by decide), ne_of_begins first rfl (by decide)⟩

theorem reader_number (fuel : Nat) (cs : List Char) :
    reader (fuel + 1) (c :: cs) = (.number <$> numberText) (c :: cs) := by
  obtain ⟨number, n, t, f, quote, bracket, brace⟩ := opens_number first
  rw [reader, bind_reads _ (next_here (visible_of_begins first) cs)]
  simp only [number, if_true]

end Begins

variable {fuel : Nat}

/-- Blanks before a document do not count. -/
theorem spells_of_here {text : List Char} {c : Char} {cs : List Char} {d : Document}
    (begins : text = c :: cs) (visible : isBlank c = false) (other : c ≠ ']')
    (reads : ∀ rest, Stops rest → reader (fuel + 1) (text ++ rest) = .ok (d, rest)) :
    Spells (reader (fuel + 1)) text d := by
  refine ⟨⟨c, cs, begins, visible, other⟩, fun gap rest blank stops => ?_⟩
  have passed : reader (fuel + 1) (gap ++ (text ++ rest)) = reader (fuel + 1) (text ++ rest) := by
    rw [begins, reader, List.cons_append, bind_reads _ (next_reads blank visible (cs ++ rest)),
      bind_reads _ (next_here visible (cs ++ rest))]
  rw [passed]
  exact reads rest stops

theorem spells_number {text : List Char} {t : NumberText}
    (begins : ∃ c cs, text = c :: cs ∧ (c = '-' ∨ c.isDigit = true))
    (spelled : ∀ rest, Stops rest → numberText (text ++ rest) = .ok (t, rest)) :
    Spells (reader (fuel + 1)) text (.number t) := by
  obtain ⟨c, cs, rfl, first⟩ := begins
  refine spells_of_here rfl (visible_of_begins first) (ne_of_begins first rfl (by decide)) ?_
  intro rest stops
  rw [List.cons_append, reader_number first]
  exact map_reads _ (spelled rest stops)

theorem spells_integer (n : Int) : Spells (reader (fuel + 1)) (toString n).toList
    (.number ⟨n < 0, decimals n.natAbs, none, none⟩) :=
  spells_number (begins_integer n) fun _ stops => numberText_integer n stops

theorem spells_tenths (n : Nat) : Spells (reader (fuel + 1)) (showTenths n).toList
    (.number ⟨false, decimals (n / 10), some (decimals (n % 10)), none⟩) := by
  obtain ⟨c, cs, text, digit⟩ := head_natural (n / 10) ('.' :: (toString (n % 10)).toList)
  refine spells_number ⟨c, cs, ?_, .inr digit⟩ fun rest stops => numberText_tenths n stops
  rw [← text]
  change (toString (n / 10) ++ "." ++ toString (n % 10)).toList = _
  simp [String.toList_append]

theorem spells_string (s : String) : Spells (reader (fuel + 1)) (showString s).toList (.str s) := by
  rw [toList_showString]
  refine spells_of_here rfl (by decide) (by decide) fun rest _ => ?_
  have text : '"' :: inQuotes s ++ ['"'] ++ rest = '"' :: (inQuotes s ++ '"' :: rest) := by simp
  have dropped : drop1 ('"' :: (inQuotes s ++ '"' :: rest)) =
      .ok ((), inQuotes s ++ '"' :: rest) := rfl
  rw [text, reader, bind_reads _ (next_here (by decide) _)]
  exact (bind_reads _ dropped).trans (map_reads _ (stringRest_written s rest))

section Parts

variable {gap last : List Char} (blank : gap.all isBlank = true) (blank' : last.all isBlank = true)
  {texts : List (List Char)}

include blank blank'

/-- A list is spelled by its items between brackets. -/
theorem spells_list {items : List Document}
    (each : List.Forall₂ (Spells (reader fuel)) texts items) (enough : texts.length ≤ fuel) :
    Spells (reader (fuel + 1)) ('[' :: enclosed gap last texts ++ [']']) (.arr items) := by
  refine spells_of_here rfl (by decide) (by decide) fun rest _ => ?_
  have whole : '[' :: enclosed gap last texts ++ [']'] ++ rest =
      '[' :: (enclosed gap last texts ++ ']' :: rest) := by simp
  have dropped : drop1 ('[' :: (enclosed gap last texts ++ ']' :: rest)) =
      .ok ((), enclosed gap last texts ++ ']' :: rest) := rfl
  rw [whole, reader, bind_reads _ (next_here (by decide) _)]
  exact (bind_reads _ dropped).trans
    (map_reads _ (itemsFrom_written blank blank' each (Nat.lt_succ_of_le enough) rest))

/-- An object is spelled by its members between braces. -/
theorem spells_object {fields : List (String × Document)}
    (each : List.Forall₂ (Member (reader fuel)) texts fields) (enough : texts.length ≤ fuel) :
    Spells (reader (fuel + 1)) ('\x7b' :: enclosed gap last texts ++ ['\x7d']) (.obj fields) := by
  refine spells_of_here rfl (by decide) (by decide) fun rest _ => ?_
  have whole : '\x7b' :: enclosed gap last texts ++ ['\x7d'] ++ rest =
      '\x7b' :: (enclosed gap last texts ++ '\x7d' :: rest) := by simp
  have dropped : drop1 ('\x7b' :: (enclosed gap last texts ++ '\x7d' :: rest)) =
      .ok ((), enclosed gap last texts ++ '\x7d' :: rest) := rfl
  rw [whole, reader, bind_reads _ (next_here (by decide) _)]
  exact (bind_reads _ dropped).trans
    (map_reads _ (fieldsFrom_written blank blank' each (Nat.lt_succ_of_le enough) rest))

end Parts

/-- A word that stands for a value. -/
theorem spells_word {d : Document} {c : Char} {cs : List Char} (visible : isBlank c = false)
    (other : c ≠ ']') (reads : ∀ rest,
      reader (fuel + 1) (c :: cs ++ rest) =
        (literal (c :: cs) >>= fun _ => pure d) (c :: cs ++ rest)) :
    Spells (reader (fuel + 1)) (c :: cs) d := by
  refine spells_of_here rfl visible other fun rest _ => ?_
  rw [reads]
  exact bind_reads _ (literal_reads (c :: cs) rest)

theorem spells_null : Spells (reader (fuel + 1)) "null".toList .null := by
  refine spells_word (by decide) (by decide) fun rest => ?_
  rw [reader, List.cons_append, bind_reads _ (next_here (by decide) _)]
  rfl

theorem spells_bool (b : Bool) :
    Spells (reader (fuel + 1)) (if b then "true" else "false").toList (.bool b) := by
  cases b with
  | true => exact spells_word (by decide) (by decide) fun _ => rfl
  | false => exact spells_word (by decide) (by decide) fun _ => rfl

end Document

theorem toList_parts (sep : String) (t : String) (ts : List String) :
    (("," ++ sep).intercalate (t :: ts)).toList =
      t.toList ++ commaBefore sep.toList (ts.map String.toList) := by
  induction ts generalizing t with
  | nil => simp [commaBefore]
  | cons u us ih =>
    rw [String.intercalate_cons_cons, String.toList_append, String.toList_append, ih,
      String.toList_append]
    simp [commaBefore]

/-! ## Compact values -/

theorem toList_compactParts (parts : List String) :
    (",".intercalate parts).toList = enclosed [] [] (parts.map String.toList) := by
  cases parts with
  | nil => rfl
  | cons t ts =>
    have parts := toList_parts "" t ts
    rw [String.append_empty] at parts
    rw [parts, List.map_cons, enclosed, List.append_nil, List.nil_append]
    rfl

theorem toList_compactMember (k : String) (v : Value) :
    (showString k ++ ":" ++ v.compact).toList =
      (showString k).toList ++ ':' :: ([] ++ v.compact.toList) := by
  simp [String.toList_append]

mutual

/-- A compact value is read back as the document it spells. -/
theorem spells_compact : ∀ (v : Value) {fuel : Nat}, v.compact.toList.length < fuel →
    Spells (Document.reader fuel) v.compact.toList v.document
  | .null, fuel + 1, _ => by
    rw [Value.compact, Value.document]
    exact Document.spells_null
  | .bool b, fuel + 1, _ => by
    rw [Value.compact, Value.document]
    exact Document.spells_bool b
  | .int n, fuel + 1, _ => by
    rw [Value.compact, Value.document]
    exact Document.spells_integer n
  | .tenths n, fuel + 1, _ => by
    rw [Value.compact, Value.document]
    exact Document.spells_tenths n
  | .str s, fuel + 1, _ => by
    rw [Value.compact, Value.document]
    exact Document.spells_string s
  | .arr items, fuel + 1, enough => by
    have text : (Value.arr items).compact.toList =
        '[' :: enclosed [] [] ((compactItems items).map String.toList) ++ [']'] := by
      rw [← toList_compactParts]
      simp [Value.compact, String.toList_append]
    rw [text] at enough ⊢
    obtain ⟨count, shorter⟩ := room_for_parts enough
    exact Document.spells_list no_gap no_gap (spells_compactItems items shorter) count
  | .obj fields, fuel + 1, enough => by
    have text : (Value.obj fields).compact.toList =
        '\x7b' :: enclosed [] [] ((compactFields fields).map String.toList) ++ ['\x7d'] := by
      rw [← toList_compactParts]
      simp [Value.compact, String.toList_append]
    rw [text] at enough ⊢
    obtain ⟨count, shorter⟩ := room_for_parts enough
    exact Document.spells_object no_gap no_gap (member_compactFields fields shorter) count

theorem spells_compactItems : ∀ (vs : List Value) {fuel : Nat},
    (∀ text ∈ (compactItems vs).map String.toList, text.length < fuel) →
    List.Forall₂ (Spells (Document.reader fuel)) ((compactItems vs).map String.toList)
      (documentItems vs)
  | [], _, _ => .nil
  | v :: vs, _, enough =>
    .cons (spells_compact v (enough _ List.mem_cons_self))
      (spells_compactItems vs fun t mem => enough t (List.mem_cons_of_mem _ mem))

theorem member_compactFields : ∀ (fs : List (String × Value)) {fuel : Nat},
    (∀ text ∈ (compactFields fs).map String.toList, text.length < fuel) →
    List.Forall₂ (Member (Document.reader fuel)) ((compactFields fs).map String.toList)
      (documentFields fs)
  | [], _, _ => .nil
  | (k, v) :: fs, fuel, enough => by
    have shorter : v.compact.toList.length < fuel := by
      have whole := enough _ List.mem_cons_self
      rw [toList_compactMember, List.length_append, List.length_cons] at whole
      simp only [List.nil_append] at whole
      omega
    refine .cons ⟨[], _, no_gap, toList_compactMember k v, spells_compact v shorter⟩ ?_
    exact member_compactFields fs fun t mem => enough t (List.mem_cons_of_mem _ mem)

end

/-! ## Values over several lines -/

/-- A line break, and the beginning of a line at some level. -/
def lineBreak (level : Nat) : List Char :=
  '\n' :: (Text.times level "  ").toList

theorem blank_lineBreak (level : Nat) : (lineBreak level).all isBlank = true := by
  have spaces : (Text.times level "  ").toList.all isBlank = true := by
    rw [Text.times, String.toList_join, List.all_flatMap]
    refine List.all_eq_true.2 fun part mem => ?_
    rw [List.eq_of_mem_replicate mem]
    rfl
  rw [lineBreak, List.all_cons, spaces]
  rfl

theorem toList_block (opening closing : String) (level : Nat) (parts : List String) :
    (block opening closing level parts).toList =
      opening.toList ++ (enclosed (lineBreak (level + 1)) (lineBreak level)
        (parts.map String.toList) ++ closing.toList) := by
  cases parts with
  | nil => simp [block, enclosed]
  | cons t ts =>
    have inner : ("\n" ++ Text.times (level + 1) "  ").toList = lineBreak (level + 1) := by
      rw [String.toList_append]
      rfl
    have outer : lineBreak level = "\n".toList ++ (Text.times level "  ").toList := rfl
    simp only [block, List.isEmpty_cons, Bool.false_eq_true, if_false, String.toList_append,
      toList_parts, inner, outer, enclosed, List.map_cons, List.append_assoc]

theorem toList_prettyMember (k : String) (v : Value) (level : Nat) :
    (showString k ++ ": " ++ v.pretty level).toList =
      (showString k).toList ++ ':' :: ([' '] ++ (v.pretty level).toList) := by
  simp [String.toList_append]

mutual

/-- A value over several lines is read back as the document it spells. -/
theorem spells_pretty : ∀ (v : Value) (level : Nat) {fuel : Nat},
    (v.pretty level).toList.length < fuel →
    Spells (Document.reader fuel) (v.pretty level).toList v.document
  | .null, _, fuel + 1, _ => by
    rw [Value.pretty, Value.document]
    exact Document.spells_null
  | .bool b, _, fuel + 1, _ => by
    rw [Value.pretty, Value.document]
    exact Document.spells_bool b
  | .int n, _, fuel + 1, _ => by
    rw [Value.pretty, Value.document]
    exact Document.spells_integer n
  | .tenths n, _, fuel + 1, _ => by
    rw [Value.pretty, Value.document]
    exact Document.spells_tenths n
  | .str s, _, fuel + 1, _ => by
    rw [Value.pretty, Value.document]
    exact Document.spells_string s
  | .arr items, level, fuel + 1, enough => by
    have text : ((Value.arr items).pretty level).toList =
        '[' :: enclosed (lineBreak (level + 1)) (lineBreak level)
          ((prettyItems (level + 1) items).map String.toList) ++ [']'] := by
      rw [Value.pretty, toList_block]
      rfl
    rw [text] at enough ⊢
    obtain ⟨count, shorter⟩ := room_for_parts enough
    exact Document.spells_list (blank_lineBreak _) (blank_lineBreak _)
      (spells_prettyItems items _ shorter) count
  | .obj fields, level, fuel + 1, enough => by
    have text : ((Value.obj fields).pretty level).toList =
        '\x7b' :: enclosed (lineBreak (level + 1)) (lineBreak level)
          ((prettyFields (level + 1) fields).map String.toList) ++ ['\x7d'] := by
      rw [Value.pretty, toList_block]
      rfl
    rw [text] at enough ⊢
    obtain ⟨count, shorter⟩ := room_for_parts enough
    exact Document.spells_object (blank_lineBreak _) (blank_lineBreak _)
      (member_prettyFields fields _ shorter) count

theorem spells_prettyItems : ∀ (vs : List Value) (level : Nat) {fuel : Nat},
    (∀ text ∈ (prettyItems level vs).map String.toList, text.length < fuel) →
    List.Forall₂ (Spells (Document.reader fuel)) ((prettyItems level vs).map String.toList)
      (documentItems vs)
  | [], _, _, _ => .nil
  | v :: vs, level, _, enough =>
    .cons (spells_pretty v level (enough _ List.mem_cons_self))
      (spells_prettyItems vs level fun t mem => enough t (List.mem_cons_of_mem _ mem))

theorem member_prettyFields : ∀ (fs : List (String × Value)) (level : Nat) {fuel : Nat},
    (∀ text ∈ (prettyFields level fs).map String.toList, text.length < fuel) →
    List.Forall₂ (Member (Document.reader fuel)) ((prettyFields level fs).map String.toList)
      (documentFields fs)
  | [], _, _, _ => .nil
  | (k, v) :: fs, level, fuel, enough => by
    have shorter : (v.pretty level).toList.length < fuel := by
      have whole := enough _ List.mem_cons_self
      rw [toList_prettyMember, List.length_append, List.length_cons, List.length_append] at whole
      omega
    refine .cons ⟨[' '], _, rfl, toList_prettyMember k v level, spells_pretty v level shorter⟩ ?_
    exact member_prettyFields fs level fun t mem => enough t (List.mem_cons_of_mem _ mem)

end

/-- Reading a text that spells a document gives it. -/
theorem Document.read_of_spells {text : String} {d : Document}
    (h : Spells (reader (text.toList.length + 1)) text.toList d) : read text = .ok d := by
  have all := h.here stops_nil
  rw [List.append_nil] at all
  have ends : next [] = .ok (none, []) := rfl
  rw [read, Json.read, whole, bind_reads _ all, bind_reads _ ends]
  rfl

/-- Reading a compact value gives the document it spells. -/
theorem read_compact (v : Value) : Document.read v.compact = .ok v.document :=
  Document.read_of_spells (spells_compact v (Nat.lt_succ_self _))

end Json

end RunReport
