import Mathlib.Data.List.Forall2
import RunReport.Proofs.Embedding
import RunReport.Proofs.Spelling
/-!
# Scraping the embedded statistics

Breaking up the end tags puts a backslash before some of the slashes of a JSON text. Outside of a
string, and after a backslash in one, no JSON text has the bracket of an end tag; inside of a string
an escaped slash stands for a slash. So whatever is read from a JSON text is read from the text with
its end tags broken up too, and the statistics of a page come back as they were written.
-/

namespace RunReport

namespace Render.Html

open Json (Reader)

/-! ## What follows a broken text -/

theorem broken_other {c : Char} (other : c ≠ '<') (cs : List Char) :
    broken (c :: cs) = c :: broken cs :=
  broken_cons fun tag => other (List.cons_prefix_cons.1 tag).1.symm

/-- A text begins with the same character after its end tags are broken up. -/
theorem broken_begins (c : Char) (cs : List Char) : ∃ ds, broken (c :: cs) = c :: ds := by
  by_cases tag : plainEndTag <+: c :: cs
  · obtain ⟨rest, split⟩ := tag
    rw [← split, broken_plain]
    obtain rfl : '<' = c := (List.cons.inj split).1
    exact ⟨_, rfl⟩
  · exact ⟨_, broken_cons tag⟩

theorem head?_broken (cs : List Char) : (broken cs).head? = cs.head? := by
  cases cs with
  | nil => rfl
  | cons c cs =>
    obtain ⟨ds, begins⟩ := broken_begins c cs
    rw [begins]
    rfl

theorem broken_append {a : List Char} (free : '<' ∉ a) (b : List Char) :
    broken (a ++ b) = a ++ broken b := by
  induction a with
  | nil => rfl
  | cons c a ih =>
    rw [List.mem_cons, not_or] at free
    rw [List.cons_append, broken_other (Ne.symm free.1), ih free.2]
    rfl

/-! ## Readers -/

section Readers

variable {α β : Type} {r r' : Reader α} {k k' : α → Reader β}

/-- Whatever `r` reads from a text, `r'` reads from the text with its end tags broken up. -/
def Follows (r r' : Reader α) : Prop :=
  ∀ cs a rest, r cs = .ok (a, rest) → r' (broken cs) = .ok (a, broken rest)

/-- The same of the texts that begin so. -/
def FollowsAt (o : Option Char) (r r' : Reader α) : Prop :=
  ∀ cs, cs.head? = o → ∀ a rest, r cs = .ok (a, rest) → r' (broken cs) = .ok (a, broken rest)

theorem Follows.at (h : Follows r r') (o : Option Char) : FollowsAt o r r' :=
  fun cs _ => h cs

theorem follows_pure (a : α) : Follows (pure a) (pure a) := by
  rintro cs _ _ ⟨⟩
  rfl

theorem follows_malformed (r : Reader α) : Follows Json.malformed r := by
  rintro cs a rest ⟨⟩

theorem bind_inv {cs rest : List Char} {b : β} (h : (r >>= k) cs = .ok (b, rest)) :
    ∃ a mid, r cs = .ok (a, mid) ∧ k a mid = .ok (b, rest) := by
  simp only [bind, StateT.bind] at h
  cases first : r cs with
  | error e => simp [first, Except.bind] at h
  | ok p => exact ⟨p.1, p.2, rfl, by simpa [first, Except.bind] using h⟩

theorem follows_bind (first : Follows r r') (later : ∀ a, Follows (k a) (k' a)) :
    Follows (r >>= k) (r' >>= k') := by
  intro cs b rest h
  obtain ⟨a, mid, before, after⟩ := bind_inv h
  rw [Json.bind_reads _ (first cs a mid before)]
  exact later a mid b rest after

theorem follows_map (f : α → β) (h : Follows r r') : Follows (f <$> r) (f <$> r') := by
  rw [map_eq_pure_bind, map_eq_pure_bind]
  exact follows_bind h fun a => follows_pure (f a)

theorem next_eq (cs : List Char) :
    Json.next cs = .ok ((cs.dropWhile Json.isBlank).head?, cs.dropWhile Json.isBlank) :=
  rfl

theorem dropWhile_broken (cs : List Char) :
    (broken cs).dropWhile Json.isBlank = broken (cs.dropWhile Json.isBlank) := by
  induction cs with
  | nil => rfl
  | cons c cs ih =>
    cases blank : Json.isBlank c with
    | true =>
      have other : c ≠ '<' := by
        rintro rfl
        cases blank
      rw [broken_other other, List.dropWhile_cons_of_pos blank, List.dropWhile_cons_of_pos blank,
        ih]
    | false =>
      have visible : ¬Json.isBlank c = true := by simp [blank]
      obtain ⟨ds, begins⟩ := broken_begins c cs
      rw [List.dropWhile_cons_of_neg visible, begins, List.dropWhile_cons_of_neg visible]

/-- What comes next is the same in both texts. -/
theorem follows_next {k k' : Option Char → Reader β} (h : ∀ o, FollowsAt o (k o) (k' o)) :
    Follows (Json.next >>= k) (Json.next >>= k') := by
  intro cs b rest run
  rw [Json.bind_reads _ (next_eq cs)] at run
  rw [Json.bind_reads _ (next_eq (broken cs)), dropWhile_broken, head?_broken]
  exact h _ _ rfl b rest run

/-- A character that is no bracket stands before the same text. -/
theorem followsAt_drop {c : Char} (other : c ≠ '<') (h : Follows r r') :
    FollowsAt (some c) (Json.drop1 >>= fun _ => r) (Json.drop1 >>= fun _ => r') := by
  intro cs head a rest run
  cases cs with
  | nil => cases head
  | cons d cs =>
    obtain rfl : d = c := Option.some.inj head
    rw [broken_other other]
    exact h cs a rest run

theorem follows_literal {word : List Char} (free : '<' ∉ word) :
    Follows (Json.literal word) (Json.literal word) := by
  intro cs a rest run
  simp only [Json.literal] at run
  split at run
  · rename_i begins
    cases run
    obtain ⟨rest, rfl⟩ := List.isPrefixOf_iff_prefix.1 begins
    rw [broken_append free, Json.literal_reads, List.drop_left]
  · cases run

/-! ## Numbers -/

theorem digits_broken {cs ds rest} (h : Json.digits cs = (ds, rest)) :
    Json.digits (broken cs) = (ds, broken rest) := by
  induction cs generalizing ds with
  | nil =>
    cases h
    rfl
  | cons c cs ih =>
    cases digit : Json.digit? c with
    | none =>
      simp only [Json.digits, digit] at h
      cases h
      obtain ⟨ds, begins⟩ := broken_begins c cs
      simp only [begins, Json.digits, digit]
    | some d =>
      have other : c ≠ '<' := by
        rintro rfl
        cases digit
      simp only [Json.digits, digit] at h
      cases h
      simp only [broken_other other, Json.digits, digit, ih rfl]

theorem follows_someDigits : Follows Json.someDigits Json.someDigits := by
  intro cs a rest run
  simp only [Json.someDigits] at run
  split at run
  · cases run
  · rename_i ds rest' some found
    cases run
    simp only [Json.someDigits, digits_broken found]

theorem follows_wholePart : Follows Json.wholePart Json.wholePart := by
  intro cs a rest run
  simp only [Json.wholePart] at run
  split at run
  · cases run
  · cases run
  · rename_i ds rest' some unpadded found
    cases run
    simp only [Json.wholePart, digits_broken found]

theorem follows_of_at (h : ∀ o, FollowsAt o r r') : Follows r r' :=
  fun cs => h cs.head? cs rfl

/-- Of the texts that begin so, `r` reads what `s` reads. -/
theorem followsAt_congr {s : Reader α} {o : Option Char} (same : ∀ cs, cs.head? = o → r cs = s cs)
    (h : Follows s s) : FollowsAt o r r := by
  intro cs head a rest run
  rw [same cs head] at run
  rw [same _ ((head?_broken cs).trans head)]
  exact h cs a rest run

/-- After its first character, `r` reads what `s` reads. -/
theorem followsAt_cons {s : Reader α} {c : Char} (other : c ≠ '<')
    (same : ∀ cs, r (c :: cs) = s cs) (h : Follows s s) : FollowsAt (some c) r r := by
  intro cs head a rest run
  obtain ⟨cs, rfl⟩ := List.head?_eq_some_iff.1 head
  rw [same] at run
  rw [broken_other other, same]
  exact h cs a rest run

theorem follows_numberSign : Follows Json.numberSign Json.numberSign := by
  refine follows_of_at fun o => ?_
  by_cases sign : o = some '-'
  · subst sign
    exact followsAt_cons (by decide) (fun _ => rfl) (follows_pure true)
  · refine followsAt_congr (s := pure false) (fun cs head => ?_) (follows_pure false)
    exact Json.numberSign_other (head ▸ sign)

theorem follows_fractionPart : Follows Json.fractionPart Json.fractionPart := by
  refine follows_of_at fun o => ?_
  by_cases point : o = some '.'
  · subst point
    exact followsAt_cons (by decide) (fun _ => rfl) (follows_map some follows_someDigits)
  · refine followsAt_congr (s := pure none) (fun cs head => ?_) (follows_pure none)
    exact Json.fractionPart_other (head ▸ point)

theorem follows_exponentDigits : Follows Json.exponentDigits Json.exponentDigits := by
  refine follows_of_at fun o => ?_
  by_cases plus : o = some '+'
  · subst plus
    exact followsAt_cons (by decide) (fun _ => rfl) (follows_map (true, ·) follows_someDigits)
  · by_cases minus : o = some '-'
    · subst minus
      exact followsAt_cons (by decide) (fun _ => rfl) (follows_map (false, ·) follows_someDigits)
    · refine followsAt_congr (fun cs head => ?_) (follows_map (true, ·) follows_someDigits)
      exact Json.exponentDigits_other (head ▸ plus) (head ▸ minus)

theorem follows_exponentPart : Follows Json.exponentPart Json.exponentPart := by
  refine follows_of_at fun o => ?_
  by_cases small : o = some 'e'
  · subst small
    exact followsAt_cons (by decide) (fun _ => rfl) (follows_map some follows_exponentDigits)
  · by_cases capital : o = some 'E'
    · subst capital
      exact followsAt_cons (by decide) (fun _ => rfl) (follows_map some follows_exponentDigits)
    · refine followsAt_congr (s := pure none) (fun cs head => ?_) (follows_pure none)
      exact Json.exponentPart_other (head ▸ small) (head ▸ capital)

theorem follows_numberText : Follows Json.numberText Json.numberText :=
  follows_bind follows_numberSign fun _ => follows_bind follows_wholePart fun _ =>
    follows_bind follows_fractionPart fun _ => follows_bind follows_exponentPart fun _ =>
      follows_pure _

/-! ## Strings -/

theorem consChar_inv {c : Char} {x : Except Json.ReadError (List Char × List Char)} {text rest}
    (h : Json.consChar c x = .ok (text, rest)) : ∃ t, text = c :: t ∧ x = .ok (t, rest) := by
  cases x with
  | error e => cases h
  | ok p =>
    cases h
    exact ⟨p.1, rfl, rfl⟩

/-- After a backslash no string goes on with a bracket. -/
theorem plain_of_bracket {state : Json.StringState} {cs text rest}
    (h : Json.stringBody state ('<' :: cs) = .ok (text, rest)) : state = .plain := by
  cases state with
  | plain => rfl
  | escaped => cases h
  | unit value left high => cases h
  | paired high => cases h
  | pairedEscape high => cases h

/-- An end tag and what it is broken up into are read as the same characters. -/
theorem stringBody_endTag (cs : List Char) :
    Json.stringBody .plain (plainEndTag ++ cs) =
        plainEndTag.foldr Json.consChar (Json.stringBody .plain cs) ∧
      Json.stringBody .plain ("<\\/script>".toList ++ cs) =
        plainEndTag.foldr Json.consChar (Json.stringBody .plain cs) := by
  refine ⟨Json.stringBody_plain (by decide) cs, ?_⟩
  have bracket := Json.stringBody_plain (p := ['<']) (by decide)
    ('\\' :: '/' :: ("script>".toList ++ cs))
  have slash : Json.stringBody .plain ('\\' :: '/' :: ("script>".toList ++ cs)) =
      Json.consChar '/' (Json.stringBody .plain ("script>".toList ++ cs)) := rfl
  rw [slash, Json.stringBody_plain (by decide)] at bracket
  exact bracket

theorem foldr_consChar_inv {p text rest : List Char}
    {x : Except Json.ReadError (List Char × List Char)}
    (h : p.foldr Json.consChar x = .ok (text, rest)) : ∃ t, text = p ++ t ∧ x = .ok (t, rest) := by
  induction p generalizing text with
  | nil => exact ⟨text, rfl, h⟩
  | cons c p ih =>
    obtain ⟨t, rfl, others⟩ := consChar_inv h
    obtain ⟨u, rfl, found⟩ := ih others
    exact ⟨u, rfl, found⟩

open Json (stringBody) in
/-- A character other than the bracket of an end tag is read as before, in whatever state. -/
theorem stringBody_step {cs : List Char}
    (later : ∀ state {text rest}, stringBody state cs = .ok (text, rest) →
      stringBody state (broken cs) = .ok (text, broken rest))
    (state : Json.StringState) (c : Char) {text rest}
    (run : stringBody state (c :: cs) = .ok (text, rest)) :
    stringBody state (c :: broken cs) = .ok (text, broken rest) := by
  have put : ∀ d, Json.consChar d (stringBody .plain cs) = .ok (text, rest) →
      Json.consChar d (stringBody .plain (broken cs)) = .ok (text, broken rest) := by
    intro d h
    obtain ⟨t, rfl, found⟩ := consChar_inv h
    rw [later .plain found]
    rfl
  cases state with
  | plain =>
    simp only [stringBody] at run ⊢
    by_cases quote : c = '"'
    · rw [if_pos quote] at run ⊢
      cases run
      rfl
    · rw [if_neg quote] at run ⊢
      by_cases backslash : c = '\\'
      · rw [if_pos backslash] at run ⊢
        exact later .escaped run
      · rw [if_neg backslash] at run ⊢
        by_cases control : c.toNat < 0x20
        · rw [if_pos control] at run
          cases run
        · rw [if_neg control] at run ⊢
          exact put c run
  | escaped =>
    simp only [stringBody] at run ⊢
    by_cases unit : c = 'u'
    · rw [if_pos unit] at run ⊢
      exact later _ run
    · rw [if_neg unit] at run ⊢
      cases short : Json.shortEscape? c with
      | none => simp [short] at run
      | some d =>
        rw [short] at run
        exact put d run
  | unit value left high =>
    simp only [stringBody] at run ⊢
    cases digit : Json.hexDigit? c with
    | none => simp [digit] at run
    | some d =>
      rw [digit] at run
      simp only at run ⊢
      by_cases more : 1 < left
      · rw [if_pos more] at run ⊢
        exact later _ run
      · rw [if_neg more] at run ⊢
        cases done : Json.unitDone (value * 16 + d) high with
        | none => simp [done] at run
        | some e =>
          rw [done] at run
          cases e with
          | inl e => exact put e run
          | inr h => exact later _ run
  | paired high =>
    simp only [stringBody] at run ⊢
    by_cases backslash : c = '\\'
    · rw [if_pos backslash] at run ⊢
      exact later _ run
    · simp [backslash] at run
  | pairedEscape high =>
    simp only [stringBody] at run ⊢
    by_cases unit : c = 'u'
    · rw [if_pos unit] at run ⊢
      exact later _ run
    · simp [unit] at run

/-- A string is read with its end tags broken up as it was, in whatever state the reader is. -/
theorem stringBody_broken (state : Json.StringState) (cs : List Char) :
    ∀ {text rest}, Json.stringBody state cs = .ok (text, rest) →
      Json.stringBody state (broken cs) = .ok (text, broken rest) := by
  induction hn : cs.length using Nat.strongRecOn generalizing state cs with
  | ind n ih =>
    intro text rest run
    cases cs with
    | nil => cases state <;> cases run
    | cons c cs =>
      by_cases closing : plainEndTag <+: c :: cs
      · obtain ⟨more, split⟩ := closing
        have shorter : more.length < n := by
          rw [← hn, ← split, List.length_append]
          exact Nat.lt_add_of_pos_left (by decide)
        -- Only between two characters a string goes on with a bracket.
        have bracket : '<' = c := (List.cons.inj split).1
        subst bracket
        obtain rfl := plain_of_bracket run
        rw [← split, (stringBody_endTag more).1] at run
        obtain ⟨t, rfl, later⟩ := foldr_consChar_inv run
        rw [← split, broken_plain, (stringBody_endTag _).2, ih _ shorter .plain more rfl later]
        rfl
      · have shorter : cs.length < n := by
          rw [← hn]
          exact Nat.lt_succ_self _
        rw [broken_cons closing]
        exact stringBody_step (fun state => ih _ shorter state cs rfl) state c run

theorem follows_stringRest : Follows Json.stringRest Json.stringRest :=
  follows_bind (fun cs _ _ => stringBody_broken .plain cs) fun _ => follows_pure _

/-! ## Values -/

theorem follows_moreItems (isFirst : Bool) :
    Follows (Json.moreItems isFirst) (Json.moreItems isFirst) := by
  refine follows_next fun o => ?_
  split
  · exact (follows_pure false).at _
  · split
    · exact (follows_pure true).at _
    · split
      · rename_i comma
        refine followsAt_drop (by rw [comma]; decide) (follows_next fun o => ?_)
        split
        · exact (follows_malformed _).at _
        · exact (follows_pure true).at _
        · exact (follows_malformed _).at _
      · exact (follows_malformed _).at _
  · exact (follows_malformed _).at _

theorem follows_moreMembers (isFirst : Bool) :
    Follows (Json.moreMembers isFirst) (Json.moreMembers isFirst) := by
  refine follows_next fun o => ?_
  split
  · exact followsAt_drop (by decide) (follows_pure false)
  · split
    · split
      · rename_i quote
        exact followsAt_drop (by rw [quote]; decide) (follows_pure true)
      · exact (follows_malformed _).at _
    · split
      · rename_i comma
        refine followsAt_drop (by rw [comma]; decide) (follows_next fun o => ?_)
        split
        · exact followsAt_drop (by decide) (follows_pure true)
        · exact (follows_malformed _).at _
      · exact (follows_malformed _).at _
  · exact (follows_malformed _).at _

theorem follows_colon : Follows Json.colon Json.colon := by
  refine follows_next fun o => ?_
  split
  · exact followsAt_drop (by decide) (follows_pure ())
  · exact (follows_malformed _).at _

/-- No item follows where the closing bracket is next. -/
theorem head_of_moreItems {isFirst : Bool} {cs rest : List Char}
    (h : Json.moreItems isFirst cs = .ok (false, rest)) : rest.head? = some ']' := by
  obtain ⟨o, mid, run, after⟩ := bind_inv h
  rw [next_eq] at run
  cases run
  generalize found : (cs.dropWhile Json.isBlank).head? = o at after
  split at after
  · cases after
    exact found
  · split at after
    · cases after
    · split at after
      · obtain ⟨_, _, -, last⟩ := bind_inv after
        obtain ⟨p, mid, -, last⟩ := bind_inv last
        split at last <;> cases last
      · cases after
  · cases after

theorem follows_itemsFrom (item : Follows r r') {fuel fuel' : Nat} (more : fuel ≤ fuel')
    (isFirst : Bool) :
    Follows (Json.itemsFrom r fuel isFirst) (Json.itemsFrom r' fuel' isFirst) := by
  induction fuel generalizing fuel' isFirst with
  | zero => exact follows_malformed _
  | succ fuel ih =>
    obtain ⟨fuel', rfl⟩ := Nat.exists_eq_add_one_of_ne_zero (Nat.ne_of_gt (Nat.zero_lt_of_lt more))
    intro cs as rest run
    rw [Json.itemsFrom] at run ⊢
    obtain ⟨goesOn, mid, before, after⟩ := bind_inv run
    rw [Json.bind_reads _ (follows_moreItems isFirst cs goesOn mid before)]
    cases goesOn with
    | false =>
      have bracket := head_of_moreItems before
      exact followsAt_drop (by decide) (follows_pure []) mid bracket as rest after
    | true =>
      refine follows_bind item (fun a => ?_) mid as rest after
      exact follows_bind (ih (Nat.le_of_succ_le_succ more) false) fun _ => follows_pure _

theorem follows_fieldsFrom (value : Follows r r') {fuel fuel' : Nat} (more : fuel ≤ fuel')
    (isFirst : Bool) :
    Follows (Json.fieldsFrom r fuel isFirst) (Json.fieldsFrom r' fuel' isFirst) := by
  induction fuel generalizing fuel' isFirst with
  | zero => exact follows_malformed _
  | succ fuel ih =>
    obtain ⟨fuel', rfl⟩ := Nat.exists_eq_add_one_of_ne_zero (Nat.ne_of_gt (Nat.zero_lt_of_lt more))
    refine follows_bind (follows_moreMembers isFirst) fun goesOn => ?_
    cases goesOn with
    | false => exact follows_pure []
    | true =>
      refine follows_bind follows_stringRest fun key => follows_bind follows_colon fun _ => ?_
      refine follows_bind value fun a => ?_
      exact follows_bind (ih (Nat.le_of_succ_le_succ more) false) fun _ => follows_pure _

/-- A document is read again from the text with its end tags broken up. -/
theorem follows_document {fuel fuel' : Nat} (more : fuel ≤ fuel') :
    Follows (Json.Document.reader fuel) (Json.Document.reader fuel') := by
  induction fuel generalizing fuel' with
  | zero => exact follows_malformed _
  | succ fuel ih =>
    obtain ⟨fuel', rfl⟩ := Nat.exists_eq_add_one_of_ne_zero (Nat.ne_of_gt (Nat.zero_lt_of_lt more))
    have below := ih (Nat.le_of_succ_le_succ more)
    refine follows_next fun o => ?_
    split
    · exact (follows_bind (follows_literal (by decide)) fun _ => follows_pure _).at _
    · exact (follows_bind (follows_literal (by decide)) fun _ => follows_pure _).at _
    · exact (follows_bind (follows_literal (by decide)) fun _ => follows_pure _).at _
    · exact followsAt_drop (by decide) (follows_map _ follows_stringRest)
    · exact followsAt_drop (by decide) (follows_map _ (follows_itemsFrom below more true))
    · exact followsAt_drop (by decide) (follows_map _ (follows_fieldsFrom below more true))
    · split
      · exact (follows_map _ follows_numberText).at _
      · exact (follows_malformed _).at _
    · exact (follows_malformed _).at _

end Readers

/-! ## Texts -/

theorem length_le_broken (cs : List Char) : cs.length ≤ (broken cs).length := by
  induction hn : cs.length using Nat.strongRecOn generalizing cs with
  | ind n ih =>
    cases cs with
    | nil => exact hn ▸ Nat.zero_le _
    | cons c cs =>
      by_cases closing : plainEndTag <+: c :: cs
      · obtain ⟨more, split⟩ := closing
        have sizes := congrArg List.length split
        rw [List.length_append, hn] at sizes
        have size : plainEndTag.length = 9 := by decide
        have shorter := ih more.length (by omega) more rfl
        rw [← split, broken_plain, List.length_append]
        have longer : ("<\\/script>".toList).length = 10 := by decide
        omega
      · rw [broken_cons closing, ← hn, List.length_cons, List.length_cons]
        rw [List.length_cons] at hn
        exact Nat.succ_le_succ (ih cs.length (by omega) cs rfl)

/-- Whatever a JSON text says, it says after its end tags are broken up. -/
theorem read_escapeScript {text : String} {d : Json.Document}
    (h : Json.Document.read text = .ok d) : Json.Document.read (escapeScript text) = .ok d := by
  have longer : text.toList.length + 1 ≤ (escapeScript text).toList.length + 1 := by
    rw [toList_escapeScript]
    exact Nat.succ_le_succ (length_le_broken text.toList)
  have follows : Follows (Json.whole (Json.Document.reader (text.toList.length + 1)))
      (Json.whole (Json.Document.reader ((escapeScript text).toList.length + 1))) := by
    refine follows_bind (follows_document longer) fun a => follows_next fun o => ?_
    split
    · exact (follows_pure a).at _
    · exact (follows_malformed _).at _
  rw [Json.Document.read, Json.read] at h ⊢
  cases run : Json.whole (Json.Document.reader (text.toList.length + 1)) text.toList with
  | error e =>
    rw [run] at h
    cases h
  | ok p =>
    rw [run] at h
    cases h
    rw [toList_escapeScript] at follows ⊢
    rw [follows _ _ _ run]
    rfl

end Render.Html

/-! ## Statistics -/

namespace Json

/-- The only field of that name. -/
def Document.field? (name : String) : Document → Option Document
  | .obj fields =>
    match fields.filter (·.1 == name) with
    | [f] => some f.2
    | _ => none
  | _ => none

/-- The string in that field. -/
def Document.text? (name : String) (d : Document) : Option String :=
  match d.field? name with
  | some (.str s) => some s
  | _ => none

/-- The list in that field. -/
def Document.list? (name : String) (d : Document) : Option (List Document) :=
  match d.field? name with
  | some (.arr items) => some items
  | _ => none

theorem documentItems_map {α : Type} (f : α → Value) (as : List α) :
    documentItems (as.map f) = as.map fun a => (f a).document := by
  induction as with
  | nil => rfl
  | cons a as ih => rw [List.map_cons, documentItems, ih, List.map_cons]

end Json

open Json (Document)

/-- The label of a row stands in its field. -/
def TotalStat.ScrapedFrom (d : Document) (t : TotalStat) : Prop :=
  d.text? "label" = some t.row.label

/-- Title and address of a link stand in their fields. -/
def Link.ScrapedFrom (d : Document) (l : Link) : Prop :=
  d.text? "title" = some l.title ∧ d.text? "url" = some l.url

/-- The texts of a row of the tag table stand in their fields. -/
structure TagStat.ScrapedFrom (d : Document) (t : TagStat) : Prop where
  label : d.text? "label" = some t.row.label
  doc : d.text? "doc" = some t.doc
  links : ∃ ds, d.list? "links" = some ds ∧ List.Forall₂ Link.ScrapedFrom ds t.links
  combined : d.text? "combined" = t.combined
  info : d.text? "info" = t.info

/-- The texts of a row of the suite table stand in their fields. -/
structure SuiteStat.ScrapedFrom (d : Document) (s : SuiteStat) : Prop where
  label : d.text? "label" = some s.row.label
  id : d.text? "id" = s.id
  name : d.text? "name" = some s.name

/-- Every text of the statistics stands in its field, character by character. -/
structure Statistics.ScrapedFrom (d : Document) (s : Statistics) : Prop where
  total : ∃ ds, d.list? "total" = some ds ∧ List.Forall₂ TotalStat.ScrapedFrom ds s.total
  tag : ∃ ds, d.list? "tag" = some ds ∧ List.Forall₂ TagStat.ScrapedFrom ds s.tag
  suite : ∃ ds, d.list? "suite" = some ds ∧ List.Forall₂ SuiteStat.ScrapedFrom ds s.suite

namespace Render.Data

open Json (documentItems_map)

theorem forall₂_rows {α : Type} {P : Document → α → Prop} {f : α → Json.Value}
    (h : ∀ a, P (f a).document a) (as : List α) :
    List.Forall₂ P (Json.documentItems (as.map f)) as := by
  rw [documentItems_map, List.forall₂_map_left_iff]
  exact List.forall₂_same.2 fun a _ => h a

theorem totalStat_scraped (t : TotalStat) : t.ScrapedFrom (totalStat t).document := rfl

theorem link_scraped (l : Link) : l.ScrapedFrom (link l).document := ⟨rfl, rfl⟩

theorem tagStat_scraped (t : TagStat) : t.ScrapedFrom (tagStat t).document where
  label := rfl
  doc := rfl
  links := ⟨_, rfl, forall₂_rows link_scraped t.links⟩
  combined := by
    obtain ⟨row, doc, links, combined, info⟩ := t
    cases combined <;> rfl
  info := by
    obtain ⟨row, doc, links, combined, info⟩ := t
    cases info <;> rfl

theorem suiteStat_scraped (s : SuiteStat) : s.ScrapedFrom (suiteStat s).document where
  label := rfl
  id := by
    obtain ⟨row, id, name⟩ := s
    cases id <;> rfl
  name := rfl

theorem statistics_scraped (s : Statistics) : s.ScrapedFrom (statistics s).document where
  total := ⟨_, rfl, forall₂_rows totalStat_scraped s.total⟩
  tag := ⟨_, rfl, forall₂_rows tagStat_scraped s.tag⟩
  suite := ⟨_, rfl, forall₂_rows suiteStat_scraped s.suite⟩

end Render.Data

namespace Render.Html

/-- The statistics in a page say what they say where they are written plainly, and every text of the
tables is found in them as it is. -/
theorem scriptText_scraped_unchanged (s : Statistics) :
    ∃ d, Document.read (scriptText s) = .ok d ∧
      Document.read (Data.statistics s).compact = .ok d ∧ s.ScrapedFrom d := by
  have written := Json.read_compact (Data.statistics s)
  exact ⟨_, read_escapeScript written, written, Data.statistics_scraped s⟩

end Render.Html

end RunReport
