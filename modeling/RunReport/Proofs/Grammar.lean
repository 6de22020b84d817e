import RunReport.Proofs.Spelling
/-!
# The grammar of JSON

The texts of numbers, strings and values, production by production, as the standard has them and
without the readers. A value says of itself whether there is an object in it. The readers of numbers
and strings take every text of the grammar up to its end, whatever it comes to.
-/

namespace RunReport.Json

/-- What may stand between tokens. -/
def Gap (cs : List Char) : Prop :=
  ∀ c ∈ cs, c = ' ' ∨ c = '\t' ∨ c = '\n' ∨ c = '\r'

/-! ## Productions -/

def IsDigits (cs : List Char) : Prop :=
  cs ≠ [] ∧ ∀ c ∈ cs, c.isDigit = true

/-- A whole part has no leading zero. -/
inductive IsWhole : List Char → Prop
  | zero : IsWhole ['0']
  | digits {c : Char} {cs : List Char} (first : c ≠ '0') (h : IsDigits (c :: cs)) :
    IsWhole (c :: cs)

inductive IsFraction : List Char → Prop
  | absent : IsFraction []
  | point {ds : List Char} (h : IsDigits ds) : IsFraction ('.' :: ds)

inductive IsExponent : List Char → Prop
  | absent : IsExponent []
  | mark {e : Char} {sign ds : List Char} (mark : e = 'e' ∨ e = 'E')
    (signed : sign = [] ∨ sign = ['+'] ∨ sign = ['-']) (h : IsDigits ds) :
    IsExponent (e :: (sign ++ ds))

inductive IsNumber : List Char → Prop
  | mk {sign whole fraction exponent : List Char} (signed : sign = [] ∨ sign = ['-'])
    (h : IsWhole whole) (h' : IsFraction fraction) (h'' : IsExponent exponent) :
    IsNumber (sign ++ (whole ++ (fraction ++ exponent)))

/-- The letter after a backslash, and the character that the two of them stand for. -/
def letterEscapes : List (Char × Char) :=
  [('"', '"'), ('\\', '\\'), ('/', '/'), ('b', '\x08'), ('f', '\x0c'), ('n', '\n'), ('r', '\r'),
    ('t', '\t')]

inductive HexDigit : Char → Nat → Prop
  | small {d : Nat} (h : d < 16) : HexDigit (Nat.digitChar d) d
  | capital {d : Nat} (h : d < 16) : HexDigit (Nat.digitChar d).toUpper d

/-- Four hexadecimal digits and their value. -/
inductive CodeUnit : List Char → Nat → Prop
  | mk {c₀ c₁ c₂ c₃ : Char} {d₀ d₁ d₂ d₃ : Nat} (h₀ : HexDigit c₀ d₀) (h₁ : HexDigit c₁ d₁)
    (h₂ : HexDigit c₂ d₂) (h₃ : HexDigit c₃ d₃) :
    CodeUnit [c₀, c₁, c₂, c₃] (((d₀ * 16 + d₁) * 16 + d₂) * 16 + d₃)

/-- What may stand between the quotes of a string. A surrogate need not have its other half. -/
inductive IsQuoted : List Char → Prop
  | nothing : IsQuoted []
  | plain {c : Char} {cs : List Char} (h : needsNoEscape c = true) (rest : IsQuoted cs) :
    IsQuoted (c :: cs)
  | letter {e c : Char} {cs : List Char} (h : (e, c) ∈ letterEscapes) (rest : IsQuoted cs) :
    IsQuoted ('\\' :: e :: cs)
  | unit {u cs : List Char} {n : Nat} (h : CodeUnit u n) (rest : IsQuoted cs) :
    IsQuoted ('\\' :: 'u' :: (u ++ cs))

/-- What may stand between the quotes for some characters. -/
inductive Quotes : List Char → List Char → Prop
  | nothing : Quotes [] []
  | plain {c : Char} {cs text : List Char} (h : needsNoEscape c = true) (rest : Quotes cs text) :
    Quotes (c :: cs) (c :: text)
  | letter {e c : Char} {cs text : List Char} (h : (e, c) ∈ letterEscapes)
    (rest : Quotes cs text) : Quotes (c :: cs) ('\\' :: e :: text)
  | unit {u text cs : List Char} {c : Char} (h : CodeUnit u c.toNat) (rest : Quotes cs text) :
    Quotes (c :: cs) ('\\' :: 'u' :: (u ++ text))
  | pair {u v text cs : List Char} {high low : Nat} {c : Char} (h : CodeUnit u high)
    (h' : CodeUnit v low) (isHigh : 0xd800 ≤ high ∧ high ≤ 0xdbff)
    (isLow : 0xdc00 ≤ low ∧ low ≤ 0xdfff)
    (value : c.toNat = 0x10000 + (high - 0xd800) * 0x400 + (low - 0xdc00))
    (rest : Quotes cs text) :
    Quotes (c :: cs) ('\\' :: 'u' :: (u ++ '\\' :: 'u' :: (v ++ text)))

mutual

/-- The text of a value, and whether there is an object in it. -/
inductive IsValue : Bool → List Char → Prop
  | word {w : String} (h : w = "null" ∨ w = "true" ∨ w = "false") : IsValue false w.toList
  | number {text : List Char} (h : IsNumber text) : IsValue false text
  | string {body : List Char} (h : IsQuoted body) : IsValue false ('"' :: (body ++ ['"']))
  | emptyList {gap : List Char} (h : Gap gap) : IsValue false ('[' :: (gap ++ [']']))
  | list {b : Bool} {text : List Char} (h : IsItems b text) : IsValue b ('[' :: (text ++ [']']))
  | emptyObject {gap : List Char} (h : Gap gap) : IsValue true ('\x7b' :: (gap ++ ['\x7d']))
  | object {text : List Char} (h : IsMembers text) : IsValue true ('\x7b' :: (text ++ ['\x7d']))

/-- The items of a list, between commas. -/
inductive IsItems : Bool → List Char → Prop
  | one {b : Bool} {before text after : List Char} (gap : Gap before) (h : IsValue b text)
    (gap' : Gap after) : IsItems b (before ++ (text ++ after))
  | more {b b' : Bool} {before text after texts : List Char} (gap : Gap before)
    (h : IsValue b text) (gap' : Gap after) (rest : IsItems b' texts) :
    IsItems (b || b') (before ++ (text ++ (after ++ ',' :: texts)))

/-- The members of an object, between commas. -/
inductive IsMembers : List Char → Prop
  | one {b : Bool} {text : List Char} (h : IsMember b text) : IsMembers text
  | more {b : Bool} {text texts : List Char} (h : IsMember b text) (rest : IsMembers texts) :
    IsMembers (text ++ ',' :: texts)

/-- A key and its value. -/
inductive IsMember : Bool → List Char → Prop
  | mk {b : Bool} {before key after before' text after' : List Char} (gap : Gap before)
    (h : IsQuoted key) (gap' : Gap after) (front : Gap before') (h' : IsValue b text)
    (back : Gap after') :
    IsMember b (before ++ '"' :: (key ++ '"' :: (after ++ ':' :: (before' ++ (text ++ after')))))

end

/-- Such a text with gaps around it. -/
inductive Padded (P : List Char → Prop) : List Char → Prop
  | mk {before text after : List Char} (gap : Gap before) (h : P text) (gap' : Gap after) :
    Padded P (before ++ (text ++ after))

theorem Gap.none : Gap [] := nofun

theorem Gap.blank {gap : List Char} (h : Gap gap) : gap.all isBlank = true := by
  refine List.all_eq_true.2 fun c mem => ?_
  rcases h c mem with rfl | rfl | rfl | rfl <;> rfl

/-! ## Numbers -/

section Numbers

variable {text rest : List Char}

theorem IsDigits.head (h : IsDigits text) (rest : List Char) :
    ∃ c cs, text ++ rest = c :: cs ∧ c.isDigit = true := by
  obtain ⟨some, decimal⟩ := h
  obtain ⟨c, cs, rfl⟩ := List.exists_cons_of_ne_nil some
  exact ⟨c, cs ++ rest, rfl, decimal c List.mem_cons_self⟩

theorem IsWhole.head (h : IsWhole text) (rest : List Char) :
    ∃ c cs, text ++ rest = c :: cs ∧ c.isDigit = true := by
  cases h with
  | zero => exact ⟨'0', rest, rfl, rfl⟩
  | digits first h => exact h.head rest

theorem someDigits_reads (h : IsDigits text) : ∃ ds, ∀ rest,
    (∀ c, rest.head? = some c → c.isDigit = false) →
      someDigits (text ++ rest) = .ok (ds, rest) := by
  obtain ⟨nonempty, decimal⟩ := h
  refine ⟨text.map (·.toNat - '0'.toNat), fun rest stops => ?_⟩
  obtain ⟨c, cs, rfl⟩ := List.exists_cons_of_ne_nil nonempty
  rw [someDigits, digits_append decimal stops]
  rfl

theorem wholePart_reads (h : IsWhole text) : ∃ ds, ∀ rest,
    (∀ c, rest.head? = some c → c.isDigit = false) →
      wholePart (text ++ rest) = .ok (ds, rest) := by
  cases h with
  | zero =>
    have decimal : ∀ c ∈ ['0'], c.isDigit = true := List.forall_mem_singleton.2 rfl
    refine ⟨[0], fun rest stops => ?_⟩
    rw [wholePart, digits_append decimal stops]
    rfl
  | @digits c cs first h =>
    refine ⟨(c :: cs).map (·.toNat - '0'.toNat), fun rest stops => ?_⟩
    rw [wholePart, digits_append h.2 stops]
    split
    · rename_i none
      cases none
    · rename_i zero
      have value : c.toNat - '0'.toNat = 0 := (List.cons.inj (congrArg Prod.fst zero)).1
      have digit := h.2 c List.mem_cons_self
      have least : '0'.toNat ≤ c.toNat := by
        simp only [Char.isDigit, Bool.and_eq_true, decide_eq_true_eq] at digit
        exact digit.1
      exact absurd (Char.toNat_inj.1 (by omega)) first
    · rename_i same
      rw [same]

theorem fractionPart_reads (h : IsFraction text) : ∃ f, ∀ rest,
    (∀ c, rest.head? = some c → c.isDigit = false ∧ c ≠ '.') →
      fractionPart (text ++ rest) = .ok (f, rest) := by
  cases h with
  | absent => exact ⟨none, fun rest stops => fractionPart_other fun point => (stops _ point).2 rfl⟩
  | point h =>
    obtain ⟨ds, reads⟩ := someDigits_reads h
    exact ⟨some ds, fun rest stops => map_reads some (reads rest fun c hc => (stops c hc).1)⟩

theorem exponentDigits_reads {sign ds : List Char}
    (signed : sign = [] ∨ sign = ['+'] ∨ sign = ['-']) (h : IsDigits ds) : ∃ e, ∀ rest,
      (∀ c, rest.head? = some c → c.isDigit = false) →
        exponentDigits (sign ++ ds ++ rest) = .ok (e, rest) := by
  obtain ⟨values, reads⟩ := someDigits_reads h
  rcases signed with rfl | rfl | rfl
  · refine ⟨(true, values), fun rest stops => ?_⟩
    obtain ⟨c, cs, begins, digit⟩ := h.head rest
    rw [List.nil_append, exponentDigits_other]
    · exact map_reads _ (reads rest stops)
    · rw [begins]
      rintro ⟨⟩
      cases digit
    · rw [begins]
      rintro ⟨⟩
      cases digit
  · exact ⟨(true, values), fun rest stops => map_reads _ (reads rest stops)⟩
  · exact ⟨(false, values), fun rest stops => map_reads _ (reads rest stops)⟩

theorem exponentPart_reads (h : IsExponent text) : ∃ e, ∀ rest, Stops rest →
    exponentPart (text ++ rest) = .ok (e, rest) := by
  cases h with
  | absent => exact ⟨none, fun rest stops => exponentPart_stops stops⟩
  | mark mark signed h =>
    obtain ⟨e, reads⟩ := exponentDigits_reads signed h
    refine ⟨some e, fun rest stops => ?_⟩
    rcases mark with rfl | rfl
    · exact map_reads some (reads rest stops.not_digit)
    · exact map_reads some (reads rest stops.not_digit)

/-- An exponent, or what follows the number, goes on with no digit and no point. -/
theorem IsExponent.stops (h : IsExponent text) (stops : Stops rest) :
    ∀ c, (text ++ rest).head? = some c → c.isDigit = false ∧ c ≠ '.' := by
  cases h with
  | absent => exact fun c hc => ⟨(stops c hc).1, (stops c hc).2.1⟩
  | mark mark signed h =>
    rintro _ ⟨⟩
    rcases mark with rfl | rfl <;> decide

/-- A fraction goes on with no digit either. -/
theorem IsFraction.stops (h : IsFraction text)
    (stops : ∀ c, rest.head? = some c → c.isDigit = false ∧ c ≠ '.') :
    ∀ c, (text ++ rest).head? = some c → c.isDigit = false := by
  cases h with
  | absent => exact fun c hc => (stops c hc).1
  | point h =>
    rintro _ ⟨⟩
    rfl

/-- A number begins with its sign or a digit. -/
theorem IsNumber.begins (h : IsNumber text) :
    ∃ c cs, text = c :: cs ∧ (c = '-' ∨ c.isDigit = true) := by
  cases h with
  | mk signed h h' h'' =>
    rcases signed with rfl | rfl
    · obtain ⟨c, cs, begins, digit⟩ := h.head _
      exact ⟨c, cs, begins, .inr digit⟩
    · exact ⟨'-', _, rfl, .inl rfl⟩

/-- The parts of a number are read up to its end. -/
theorem numberText_reads (h : IsNumber text) : ∃ t, ∀ rest, Stops rest →
    numberText (text ++ rest) = .ok (t, rest) := by
  cases h with
  | @mk sign whole fraction exponent signed h h' h'' =>
    obtain ⟨w, wholeReads⟩ := wholePart_reads h
    obtain ⟨f, fractionReads⟩ := fractionPart_reads h'
    obtain ⟨e, exponentReads⟩ := exponentPart_reads h''
    have signReads : ∃ negative, ∀ rest,
        numberSign (sign ++ (whole ++ rest)) = .ok (negative, whole ++ rest) := by
      rcases signed with rfl | rfl
      · refine ⟨false, fun rest => numberSign_other fun minus => ?_⟩
        obtain ⟨c, cs, begins, digit⟩ := h.head rest
        rw [List.nil_append, begins] at minus
        cases minus
        cases digit
      · exact ⟨true, fun rest => rfl⟩
    obtain ⟨negative, signReads⟩ := signReads
    refine ⟨⟨negative, w, f, e⟩, fun rest stops => ?_⟩
    have afterFraction := h''.stops stops
    simp only [List.append_assoc]
    rw [numberText, bind_reads _ (signReads _),
      bind_reads _ (wholeReads _ (h'.stops afterFraction)),
      bind_reads _ (fractionReads _ afterFraction), bind_reads _ (exponentReads rest stops)]
    rfl

end Numbers

/-! ## Strings -/

theorem hexDigit?_eq_some {c : Char} {d : Nat} (h : HexDigit c d) : hexDigit? c = some d := by
  cases h with
  | small h => interval_cases d <;> rfl
  | capital h => interval_cases d <;> rfl

/-- What a code unit leads to. -/
def goOn (done : Option (Sum Char Nat)) (rest : List Char) :
    Except ReadError (List Char × List Char) :=
  match done with
  | none => .error .malformed
  | some (.inl c) => consChar c (stringBody .plain rest)
  | some (.inr high) => stringBody (.paired high) rest

theorem stringBody_unit {u : List Char} {n : Nat} (h : CodeUnit u n) (rest : List Char) :
    stringBody .plain ('\\' :: 'u' :: (u ++ rest)) = goOn (unitDone n none) rest := by
  cases h with
  | mk h₀ h₁ h₂ h₃ =>
    simp [stringBody, hexDigit?_eq_some h₀, hexDigit?_eq_some h₁, hexDigit?_eq_some h₂,
      hexDigit?_eq_some h₃]
    rfl

theorem stringBody_second {u : List Char} {n : Nat} (h : CodeUnit u n) (high : Nat)
    (rest : List Char) :
    stringBody (.paired high) ('\\' :: 'u' :: (u ++ rest)) =
      goOn (unitDone n (some high)) rest := by
  cases h with
  | mk h₀ h₁ h₂ h₃ =>
    simp [stringBody, hexDigit?_eq_some h₀, hexDigit?_eq_some h₁, hexDigit?_eq_some h₂,
      hexDigit?_eq_some h₃]
    rfl

theorem shortEscape?_of_mem {e c : Char} (h : (e, c) ∈ letterEscapes) :
    e ≠ 'u' ∧ shortEscape? e = some c := by
  simp only [letterEscapes, List.mem_cons, Prod.mk.injEq, List.not_mem_nil, or_false] at h
  rcases h with ⟨rfl, rfl⟩ | ⟨rfl, rfl⟩ | ⟨rfl, rfl⟩ | ⟨rfl, rfl⟩ | ⟨rfl, rfl⟩ | ⟨rfl, rfl⟩ |
    ⟨rfl, rfl⟩ | ⟨rfl, rfl⟩ <;> exact ⟨by decide, rfl⟩

theorem stringBody_letter {e c : Char} (h : (e, c) ∈ letterEscapes) (rest : List Char) :
    stringBody .plain ('\\' :: e :: rest) = consChar c (stringBody .plain rest) := by
  obtain ⟨other, stands⟩ := shortEscape?_of_mem h
  simp [stringBody, other, stands]

theorem stringBody_one {c : Char} (h : needsNoEscape c = true) (rest : List Char) :
    stringBody .plain (c :: rest) = consChar c (stringBody .plain rest) :=
  stringBody_plain (p := [c]) (by simpa using h) rest

/-- Characters are read back, whichever of their spellings were chosen. -/
theorem Quotes.reads {cs text : List Char} (h : Quotes cs text) (rest : List Char) :
    stringBody .plain (text ++ '"' :: rest) = .ok (cs, rest) := by
  induction h with
  | nothing => rfl
  | plain h _ ih =>
    rw [List.cons_append, stringBody_one h, ih]
    rfl
  | letter h _ ih =>
    rw [List.cons_append, List.cons_append, stringBody_letter h, ih]
    rfl
  | @unit u text cs c h _ ih =>
    -- No character is a surrogate.
    have scalar : c.toNat < 0xd800 ∨ 0xdfff < c.toNat := by
      rcases c.valid with low | high
      · exact .inl low
      · exact .inr high.1
    have done : unitDone c.toNat none = some (.inl c) := by
      rw [unitDone, if_neg (by simp; omega), if_neg (by simp; omega), Char.ofNat_toNat]
    rw [List.cons_append, List.cons_append, List.append_assoc, stringBody_unit h, done, goOn, ih]
    rfl
  | @pair u v text cs high low c h h' isHigh isLow value _ ih =>
    have first : unitDone high none = some (.inr high) := by
      rw [unitDone, if_neg (by simp; omega), if_pos (by simp; omega)]
    have second : unitDone low (some high) = some (.inl c) := by
      rw [unitDone, if_pos (by simp; omega), ← value, Char.ofNat_toNat]
    have whole : '\\' :: 'u' :: (u ++ '\\' :: 'u' :: (v ++ text)) ++ '"' :: rest =
        '\\' :: 'u' :: (u ++ '\\' :: 'u' :: (v ++ (text ++ '"' :: rest))) := by simp
    rw [whole, stringBody_unit h, first, goOn, stringBody_second h', second, goOn, ih]
    rfl

/-- After a high surrogate nothing but a second code unit goes on. -/
theorem stringBody_unpaired {c : Char} (other : c ≠ '\\') (high : Nat) (rest : List Char) :
    stringBody (.paired high) (c :: rest) = .error .malformed := by
  rw [stringBody, if_neg other]

/-- Whatever stands between the quotes, reading it ends with the closing quote or fails. -/
theorem IsQuoted.reads {text : List Char} (h : IsQuoted text) :
    (∃ o : Except ReadError (List Char), ∀ rest,
      stringBody .plain (text ++ '"' :: rest) = o.map (·, rest)) ∧
    ∀ high, ∃ o : Except ReadError (List Char), ∀ rest,
      stringBody (.paired high) (text ++ '"' :: rest) = o.map (·, rest) := by
  induction h with
  | nothing =>
    exact ⟨⟨.ok [], fun rest => rfl⟩, fun high => ⟨.error .malformed, fun rest => rfl⟩⟩
  | @plain c cs h _ ih =>
    obtain ⟨⟨o, reads⟩, -⟩ := ih
    have other : c ≠ '\\' := by
      rintro rfl
      cases h
    refine ⟨⟨o.map (c :: ·), fun rest => ?_⟩, fun high => ⟨.error .malformed, fun rest => ?_⟩⟩
    · rw [List.cons_append, stringBody_one h, reads]
      cases o <;> rfl
    · exact stringBody_unpaired other high _
  | @letter e c cs h _ ih =>
    obtain ⟨⟨o, reads⟩, -⟩ := ih
    refine ⟨⟨o.map (c :: ·), fun rest => ?_⟩, fun high => ⟨.error .malformed, fun rest => ?_⟩⟩
    · rw [List.cons_append, List.cons_append, stringBody_letter h, reads]
      cases o <;> rfl
    · simp [stringBody, (shortEscape?_of_mem h).1]
      rfl
  | @unit u cs n h _ ih =>
    obtain ⟨⟨o, reads⟩, paired⟩ := ih
    -- A code unit is a character, wants a second one or fails.
    have goes : ∀ done, ∃ o : Except ReadError (List Char), ∀ rest,
        goOn done (cs ++ '"' :: rest) = o.map (·, rest) := by
      rintro (_ | c | high)
      · exact ⟨.error .malformed, fun rest => rfl⟩
      · refine ⟨o.map (c :: ·), fun rest => ?_⟩
        rw [goOn, reads]
        cases o <;> rfl
      · exact paired high
    have whole : ∀ rest, '\\' :: 'u' :: (u ++ cs) ++ '"' :: rest =
        '\\' :: 'u' :: (u ++ (cs ++ '"' :: rest)) := fun rest => by simp
    simp only [whole, stringBody_unit h, stringBody_second h]
    exact ⟨goes _, fun high => goes _⟩

/-! ## Lists -/

section Lists

variable {α : Type} {r : Reader α} {o : Except ReadError α} {text rest : List Char}

/-- After blanks and before anything that does not go on with a number, `r` comes to `o`, at the end
of the text if that is no failure; and the text begins like a value. -/
structure Reads (r : Reader α) (text : List Char) (o : Except ReadError α) : Prop where
  opens : ∃ c cs, text = c :: cs ∧ isBlank c = false ∧ c ≠ ']'
  reads : ∀ gap rest, gap.all isBlank = true → Stops rest →
    r (gap ++ (text ++ rest)) = o.map (·, rest)

/-- What stands before an item: a comma, unless it is the first one. -/
def entry (isFirst : Bool) (lead : List Char) : List Char :=
  if isFirst then [] else lead ++ [',']

theorem moreItems_entry (isFirst : Bool) {lead gap : List Char} (blank : lead.all isBlank = true)
    (blank' : gap.all isBlank = true) (h : Reads r text o) (rest : List Char) :
    moreItems isFirst (entry isFirst lead ++ (gap ++ (text ++ rest))) =
      .ok (true, text ++ rest) := by
  cases isFirst with
  | true => exact moreItems_first h.opens blank' rest
  | false =>
    have whole : entry false lead ++ (gap ++ (text ++ rest)) =
        lead ++ ',' :: (gap ++ (text ++ rest)) := by simp [entry]
    rw [whole]
    exact moreItems_comma h.opens blank blank' rest

/-- One item is read, and then the others. -/
theorem itemsFrom_entry (isFirst : Bool) {lead gap : List Char} (blank : lead.all isBlank = true)
    (blank' : gap.all isBlank = true) (h : Reads r text o) (stops : Stops rest) (fuel : Nat) :
    itemsFrom r (fuel + 1) isFirst (entry isFirst lead ++ (gap ++ (text ++ rest))) =
      o >>= fun a => (itemsFrom r fuel false rest).map fun p => (a :: p.1, p.2) := by
  have read := h.reads [] rest no_gap stops
  rw [itemsFrom, bind_reads _ (moreItems_entry isFirst blank blank' h rest), if_pos rfl]
  rw [List.nil_append] at read
  cases o with
  | error e => simp only [bind, StateT.bind, read]; rfl
  | ok a =>
    rw [bind_reads _ read]
    simp only [bind, StateT.bind, Except.bind]
    cases itemsFrom r fuel false rest <;> rfl

theorem itemsFrom_close {gap : List Char} (blank : gap.all isBlank = true) (isFirst : Bool)
    (fuel : Nat) (rest : List Char) :
    itemsFrom r (fuel + 1) isFirst (gap ++ ']' :: rest) = .ok ([], rest) := by
  rw [itemsFrom]
  exact bind_reads _ (moreItems_close blank isFirst rest)

/-- What follows an item goes on with no number. -/
theorem stops_after {after : List Char} (gap : Gap after) {c : Char} (ends : c = ',' ∨ c = ']')
    (rest : List Char) : Stops (after ++ c :: rest) := by
  refine stops_of_blank gap.blank (stops_cons ?_ rest)
  rcases ends with rfl | rfl <;> decide

section Items

variable {before after lead : List Char} (gap : Gap before) (h : Reads r text o) (gap' : Gap after)
  (isFirst : Bool) (blank : lead.all isBlank = true)

include gap h gap' blank

/-- The last item, with the bracket after it. -/
theorem itemsFrom_one {fuel : Nat} (room : (before ++ (text ++ after)).length < fuel)
    (rest : List Char) :
    itemsFrom r fuel isFirst (entry isFirst lead ++ (before ++ (text ++ after) ++ ']' :: rest)) =
      (o.map ([·])).map (·, rest) := by
  obtain ⟨c, cs, begins, -⟩ := h.opens
  have two : fuel ≠ 0 ∧ fuel - 1 ≠ 0 := by
    rw [begins] at room
    simp only [List.length_append, List.length_cons] at room
    omega
  obtain ⟨fuel, rfl⟩ := Nat.exists_eq_add_one_of_ne_zero two.1
  obtain ⟨fuel, rfl⟩ := Nat.exists_eq_add_one_of_ne_zero two.2
  simp only [List.append_assoc]
  rw [itemsFrom_entry isFirst blank gap.blank h (stops_after gap' (.inr rfl) rest),
    itemsFrom_close gap'.blank]
  cases o <;> rfl

/-- An item with others after it. -/
theorem itemsFrom_more {fuel : Nat} {os : Except ReadError (List α)} {texts : List Char}
    (room : (before ++ (text ++ (after ++ ',' :: texts))).length < fuel)
    (later : ∀ {fuel : Nat}, texts.length < fuel →
      itemsFrom r fuel false (entry false after ++ (texts ++ ']' :: rest)) = os.map (·, rest)) :
    itemsFrom r fuel isFirst
        (entry isFirst lead ++ (before ++ (text ++ (after ++ ',' :: texts)) ++ ']' :: rest)) =
      (o >>= fun a => os.map (a :: ·)).map (·, rest) := by
  obtain ⟨fuel, rfl⟩ := Nat.exists_eq_add_one_of_ne_zero (Nat.ne_zero_of_lt room)
  have fewer : texts.length < fuel := by
    simp only [List.length_append, List.length_cons] at room
    omega
  have later := later fewer
  simp only [entry, Bool.false_eq_true, if_false, List.append_assoc, List.singleton_append]
    at later
  simp only [List.append_assoc, List.cons_append]
  rw [itemsFrom_entry isFirst blank gap.blank h (stops_after gap' (.inl rfl) _), later]
  cases o with
  | error e => rfl
  | ok a => cases os <;> rfl

end Items

end Lists

end RunReport.Json
