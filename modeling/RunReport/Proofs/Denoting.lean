import Mathlib.Data.List.TakeWhile
import RunReport.Proofs.Grammar
import RunReport.Raw
import RunReport.Session.Read
/-!
# Compact values and the texts that denote them

A compact value without floating point has many texts: gaps may stand between the tokens, and the
characters of a string may be escaped in several ways. Each of them is read back as that value. A
text with an object in it denotes no compact value, wherever the object stands.
-/

namespace RunReport.Raw

open Json

/-! ## Reading one value -/

section Values

variable {list map : Reader Raw} {o : Except ReadError Raw} {text : List Char}

/-- Blanks before a value do not count. -/
theorem reads_of_here {c : Char} {cs : List Char} (visible : isBlank c = false) (other : c ≠ ']')
    (reads : ∀ rest, Stops rest → valueWith list map (c :: cs ++ rest) = o.map (·, rest)) :
    Reads (valueWith list map) (c :: cs) o := by
  refine ⟨⟨c, cs, rfl, visible, other⟩, fun gap rest blank stops => ?_⟩
  rw [← reads rest stops, List.cons_append, valueWith, bind_reads _ (next_reads blank visible _),
    bind_reads _ (next_here visible _)]

theorem reads_null : Reads (valueWith list map) "null".toList (.ok .null) := by
  refine reads_of_here (by decide) (by decide) fun rest _ => ?_
  rw [valueWith, List.cons_append, bind_reads _ (next_here (by decide) _)]
  exact bind_reads _ (literal_reads "null".toList rest)

theorem reads_bool (b : Bool) : Reads (valueWith list map) (toString b).toList (.ok (.bool b)) := by
  cases b with
  | true =>
    refine reads_of_here (by decide) (by decide) fun rest _ => ?_
    rw [valueWith, List.cons_append, bind_reads _ (next_here (by decide) _)]
    exact bind_reads _ (literal_reads "true".toList rest)
  | false =>
    refine reads_of_here (by decide) (by decide) fun rest _ => ?_
    rw [valueWith, List.cons_append, bind_reads _ (next_here (by decide) _)]
    exact bind_reads _ (literal_reads "false".toList rest)

theorem reads_string {body : List Char} {o : Except ReadError (List Char)}
    (h : ∀ rest, stringBody .plain (body ++ '"' :: rest) = o.map (·, rest)) :
    Reads (valueWith list map) ('"' :: (body ++ ['"']))
      (o.map fun cs => .str (String.ofList cs)) := by
  refine reads_of_here (by decide) (by decide) fun rest _ => ?_
  have whole : '"' :: (body ++ ['"']) ++ rest = '"' :: (body ++ '"' :: rest) := by simp
  have dropped : drop1 ('"' :: (body ++ '"' :: rest)) = .ok ((), body ++ '"' :: rest) := rfl
  rw [whole, valueWith, bind_reads _ (next_here (by decide) _)]
  refine (bind_reads _ dropped).trans ?_
  simp only [stringRest, bind, StateT.bind, h rest]
  cases o <;> rfl

/-- A number comes to what its parts come to. -/
theorem reads_number {parsed : NumberText}
    (begins : ∃ c cs, text = c :: cs ∧ (c = '-' ∨ c.isDigit = true))
    (parts : ∀ rest, Stops rest → numberText (text ++ rest) = .ok (parsed, rest)) :
    Reads (valueWith list map) text
      (match parsed.number with | some n => .ok (ofNumber n) | none => .error .malformed) := by
  obtain ⟨c, cs, rfl, first⟩ := begins
  have visible := Document.visible_of_begins first
  refine reads_of_here visible (Document.ne_of_begins first rfl (by decide)) fun rest stops => ?_
  obtain ⟨number, n, t, f, quote, bracket, brace⟩ := Document.opens_number first
  have read := parts rest stops
  rw [List.cons_append] at read ⊢
  rw [valueWith, bind_reads _ (next_here visible _)]
  simp only [number, if_true, Json.number, bind, StateT.bind, read, Except.bind]
  cases parsed.number <;> rfl

theorem digitsValue_decimals (n : Nat) : digitsValue (decimals n) = n := by
  rw [decimals, digitsValue_decimal, Nat.ofDigitChars_ten_toDigits]

/-- Integers of 64 bits do not become floating point. -/
theorem number_integer {n : Int} (low : -0x8000000000000000 ≤ n) (high : n ≤ 0x7fffffffffffffff) :
    NumberText.number ⟨n < 0, decimals n.natAbs, none, none⟩ = some (.int n) := by
  simp only [NumberText.number, digitsValue_decimals, maxU64, maxI64]
  by_cases negative : n < 0
  · rw [if_neg (by omega), if_neg (by simpa using negative), if_neg (by omega), if_pos (by omega)]
    congr 2
    omega
  · rw [if_neg (by omega), if_pos (by simpa using negative)]
    congr 2
    omega

theorem reads_integer {n : Int} (low : -0x8000000000000000 ≤ n) (high : n ≤ 0x7fffffffffffffff) :
    Reads (valueWith list map) (toString n).toList (.ok (.int n)) := by
  have fits : ofNumber (.int n) = .int n := by
    rw [ofNumber, if_pos]
    simp only [fitsI64, Bool.and_eq_true, decide_eq_true_eq]
    omega
  have reads := @reads_number list map _ _ (begins_integer n) fun _ stops =>
    numberText_integer n stops
  rw [number_integer low high] at reads
  simpa only [fits] using reads

/-- A list is read one level deeper, from what stands after its bracket. -/
theorem reads_list {depth : Nat} {inner : List Char} {o : Except ReadError (List Raw)}
    (h : ∀ rest, items (reader depth) (inner ++ ']' :: rest) = o.map (·, rest)) :
    Reads (reader (depth + 1)) ('[' :: (inner ++ [']'])) (o.map .list) := by
  refine reads_of_here (by decide) (by decide) fun rest _ => ?_
  have whole : '[' :: (inner ++ [']']) ++ rest = '[' :: (inner ++ ']' :: rest) := by simp
  have dropped : drop1 ('[' :: (inner ++ ']' :: rest)) = .ok ((), inner ++ ']' :: rest) := rfl
  rw [whole, valueWith, bind_reads _ (next_here (by decide) _)]
  refine (bind_reads _ dropped).trans ?_
  simp only [Functor.map, StateT.map, bind, h rest]
  cases o <;> rfl

/-- Where no level is left a list is malformed. -/
theorem reads_list_zero (inner : List Char) :
    Reads (reader 0) ('[' :: (inner ++ [']'])) (.error .malformed) :=
  reads_of_here (by decide) (by decide) fun _ _ => rfl

/-- An object is refused at its brace. -/
theorem reads_object (depth : Nat) (inner : List Char) :
    ∃ e, Reads (reader depth) ('\x7b' :: (inner ++ ['\x7d'])) (.error e) := by
  cases depth with
  | zero => exact ⟨_, reads_of_here (by decide) (by decide) fun _ _ => rfl⟩
  | succ depth => exact ⟨_, reads_of_here (by decide) (by decide) fun _ _ => rfl⟩

end Values

/-- The items of a list have fuel for each of their characters. -/
theorem room_for_items (text rest : List Char) :
    text.length < (text ++ ']' :: rest).length + 1 := by
  rw [List.length_append]
  omega

theorem reader_eq (depth : Nat) : ∃ list map, reader depth = valueWith list map := by
  cases depth with
  | zero => exact ⟨_, _, rfl⟩
  | succ depth => exact ⟨_, _, rfl⟩

/-! ## Texts of a value -/

mutual

/-- The texts that denote a value which is built from null, booleans, integers of 64 bits, strings
and lists. -/
inductive Denotes : List Char → Raw → Prop
  | null : Denotes "null".toList .null
  | bool (b : Bool) : Denotes (toString b).toList (.bool b)
  | int {n : Int} (low : -0x8000000000000000 ≤ n) (high : n ≤ 0x7fffffffffffffff) :
    Denotes (toString n).toList (.int n)
  | str {s : String} {body : List Char} (h : Quotes s.toList body) :
    Denotes ('"' :: (body ++ ['"'])) (.str s)
  | empty {gap : List Char} (h : Gap gap) : Denotes ('[' :: (gap ++ [']'])) (.list [])
  | list {text : List Char} {items : List Raw} (h : DenoteItems text items) :
    Denotes ('[' :: (text ++ [']'])) (.list items)

/-- The items of a list, between commas. -/
inductive DenoteItems : List Char → List Raw → Prop
  | one {before text after : List Char} {r : Raw} (gap : Gap before) (h : Denotes text r)
    (gap' : Gap after) : DenoteItems (before ++ (text ++ after)) [r]
  | more {before text after texts : List Char} {r : Raw} {rs : List Raw} (gap : Gap before)
    (h : Denotes text r) (gap' : Gap after) (rest : DenoteItems texts rs) :
    DenoteItems (before ++ (text ++ (after ++ ',' :: texts))) (r :: rs)

end

mutual

/-- Every text of a value is read back as that value, where enough levels are left. -/
theorem Denotes.reads : ∀ {text : List Char} {r : Raw}, Denotes text r → ∀ {depth : Nat},
    r.depth ≤ depth → Reads (reader depth) text (.ok r)
  | _, _, .null, depth, _ => by
    obtain ⟨list, map, eq⟩ := reader_eq depth
    exact eq ▸ reads_null
  | _, _, .bool b, depth, _ => by
    obtain ⟨list, map, eq⟩ := reader_eq depth
    exact eq ▸ reads_bool b
  | _, _, .int low high, depth, _ => by
    obtain ⟨list, map, eq⟩ := reader_eq depth
    exact eq ▸ reads_integer low high
  | _, _, .str (s := s) h, depth, _ => by
    obtain ⟨list, map, eq⟩ := reader_eq depth
    have reads := @reads_string list map _ (.ok s.toList) h.reads
    rw [eq]
    simpa only [Except.map, String.ofList_toList] using reads
  | _, _, .empty h, depth + 1, _ => by
    refine reads_list (o := .ok []) fun rest => ?_
    exact itemsFrom_close h.blank true _ rest
  | _, _, @Denotes.list text items h, depth + 1, enough => by
    have inner : depthOfItems items ≤ depth := Nat.le_of_succ_le_succ enough
    refine reads_list (o := .ok items) fun rest => ?_
    exact h.reads inner (room_for_items text rest) true no_gap rest

theorem DenoteItems.reads : ∀ {text : List Char} {rs : List Raw}, DenoteItems text rs →
    ∀ {depth : Nat}, depthOfItems rs ≤ depth → ∀ {fuel : Nat}, text.length < fuel →
    ∀ (isFirst : Bool) {lead : List Char}, lead.all isBlank = true → ∀ rest,
      itemsFrom (reader depth) fuel isFirst (entry isFirst lead ++ (text ++ ']' :: rest)) =
        .ok (rs, rest)
  | _, _, .one gap h gap', _, enough, _, room, isFirst, _, blank, rest =>
    itemsFrom_one gap (h.reads (Nat.le_trans (Nat.le_max_left _ _) enough)) gap' isFirst blank room
      rest
  | _, _, @DenoteItems.more _ _ _ _ r rs gap h gap' others, depth, enough, _, room, isFirst, _,
      blank, rest => by
    have here : r.depth ≤ depth := Nat.le_trans (Nat.le_max_left _ _) enough
    have later : depthOfItems rs ≤ depth := Nat.le_trans (Nat.le_max_right _ _) enough
    exact @itemsFrom_more _ _ _ _ _ _ _ _ gap (h.reads here) gap' isFirst blank _ (.ok rs) _ room
      fun fewer => others.reads later fewer false gap'.blank rest

end

/-! ## Texts with objects -/

/-- A word is a value of its own. -/
theorem reads_word {w : String} (h : w = "null" ∨ w = "true" ∨ w = "false")
    (list map : Reader Raw) : ∃ r, Reads (valueWith list map) w.toList (.ok r) := by
  rcases h with rfl | rfl | rfl
  · exact ⟨_, reads_null⟩
  · exact ⟨_, reads_bool true⟩
  · exact ⟨_, reads_bool false⟩

mutual

/-- Reading a value ends where its text ends or fails, and it fails if there is an object in it. -/
theorem reads_value : ∀ {b : Bool} {text : List Char}, IsValue b text → ∀ depth : Nat,
    ∃ o, Reads (reader depth) text o ∧ (b = true → ∃ e, o = .error e)
  | _, _, .word h, depth => by
    obtain ⟨list, map, eq⟩ := reader_eq depth
    obtain ⟨r, reads⟩ := reads_word h list map
    exact ⟨_, eq ▸ reads, nofun⟩
  | _, _, .number h, depth => by
    obtain ⟨list, map, eq⟩ := reader_eq depth
    obtain ⟨t, parts⟩ := numberText_reads h
    exact ⟨_, eq ▸ reads_number h.begins parts, nofun⟩
  | _, _, .string h, depth => by
    obtain ⟨list, map, eq⟩ := reader_eq depth
    obtain ⟨⟨o, body⟩, -⟩ := h.reads
    exact ⟨_, eq ▸ reads_string body, nofun⟩
  | _, _, .emptyList h, 0 => ⟨_, reads_list_zero _, nofun⟩
  | _, _, .emptyList h, depth + 1 =>
    ⟨_, reads_list (o := .ok []) fun rest => itemsFrom_close h.blank true _ rest, nofun⟩
  | _, _, .list h, 0 => ⟨_, reads_list_zero _, fun _ => ⟨_, rfl⟩⟩
  | _, _, @IsValue.list _ text h, depth + 1 => by
    obtain ⟨o, reads, fails⟩ := reads_valueItems h depth
    refine ⟨o.map .list, reads_list fun rest => ?_, fun object => ?_⟩
    · exact reads (room_for_items text rest) true no_gap rest
    · obtain ⟨e, rfl⟩ := fails object
      exact ⟨e, rfl⟩
  | _, _, .emptyObject h, depth => by
    obtain ⟨e, reads⟩ := reads_object depth _
    exact ⟨_, reads, fun _ => ⟨e, rfl⟩⟩
  | _, _, .object h, depth => by
    obtain ⟨e, reads⟩ := reads_object depth _
    exact ⟨_, reads, fun _ => ⟨e, rfl⟩⟩

theorem reads_valueItems : ∀ {b : Bool} {text : List Char}, IsItems b text → ∀ depth : Nat,
    ∃ o : Except ReadError (List Raw),
      (∀ {fuel : Nat}, text.length < fuel →
        ∀ (isFirst : Bool) {lead : List Char}, lead.all isBlank = true → ∀ rest,
          itemsFrom (reader depth) fuel isFirst (entry isFirst lead ++ (text ++ ']' :: rest)) =
            o.map (·, rest)) ∧
      (b = true → ∃ e, o = .error e)
  | _, _, .one gap h gap', depth => by
    obtain ⟨o, reads, fails⟩ := reads_value h depth
    refine ⟨o.map ([·]), fun room isFirst lead blank rest => ?_, fun object => ?_⟩
    · exact itemsFrom_one gap reads gap' isFirst blank room rest
    · obtain ⟨e, rfl⟩ := fails object
      exact ⟨e, rfl⟩
  | _, _, .more gap h gap' others, depth => by
    obtain ⟨o, reads, fails⟩ := reads_value h depth
    obtain ⟨os, later, failsLater⟩ := reads_valueItems others depth
    refine ⟨o >>= fun a => os.map (a :: ·), fun room isFirst lead blank rest => ?_,
      fun object => ?_⟩
    · exact itemsFrom_more gap reads gap' isFirst blank room fun fewer =>
        later fewer false gap'.blank rest
    · cases o with
      | error e => exact ⟨e, rfl⟩
      | ok a =>
        rcases Bool.or_eq_true_iff.1 object with here | there
        · obtain ⟨e, failed⟩ := fails here
          cases failed
        · obtain ⟨e, rfl⟩ := failsLater there
          exact ⟨e, rfl⟩

end

/-! ## Whole texts -/

/-- Gaps around a value do not count. -/
theorem read_padded {P : List Char → Prop} {text : String} (padded : Padded P text.toList) :
    ∃ t, P t ∧ ∀ o, Reads (reader nestingLimit) t o → read text = o := by
  rw [read, Json.read]
  generalize text.toList = cs at padded
  cases padded with
  | @mk before t after gap h gap' =>
    refine ⟨t, h, fun o reads => ?_⟩
    have stops : Stops after := by
      simpa using stops_of_blank gap'.blank stops_nil
    have reads := reads.reads before after gap.blank stops
    have ends : next after = .ok (none, []) := by
      have nothing : after.dropWhile isBlank = [] :=
        List.dropWhile_eq_nil_iff.2 (List.all_eq_true.1 gap'.blank)
      have seen : next after = .ok ((after.dropWhile isBlank).head?, after.dropWhile isBlank) := rfl
      rw [seen, nothing]
      rfl
    cases o with
    | error e =>
      simp only [whole, bind, StateT.bind, reads]
      rfl
    | ok r =>
      rw [whole, bind_reads _ reads, bind_reads _ ends]
      rfl

/-! ## Compact texts -/

mutual

/-- The document of a value that is built from null, booleans, integers of 64 bits, strings and
lists. -/
def value? : Raw → Option Value
  | .null => some .null
  | .bool b => some (.bool b)
  | .int n =>
    if -0x8000000000000000 ≤ n ∧ n ≤ 0x7fffffffffffffff then some (.int n) else none
  | .float _ => none
  | .str s => some (.str s)
  | .list items => (valuesOf? items).map .arr

def valuesOf? : List Raw → Option (List Value)
  | [] => some []
  | r :: rs => do return (← r.value?) :: (← valuesOf? rs)

end

theorem quotes_escapeChar (c : Char) {cs text : List Char} (rest : Quotes cs text) :
    Quotes (c :: cs) ((escapeChar c).toList ++ text) := by
  by_cases special : c = '"' ∨ c = '\\' ∨ c = '\n' ∨ c = '\r' ∨ c = '\t' ∨ c = '\x08' ∨ c = '\x0c'
  · rcases special with rfl | rfl | rfl | rfl | rfl | rfl | rfl <;>
      exact .letter (by decide) rest
  · simp only [not_or] at special
    obtain ⟨quote, backslash, h₃, h₄, h₅, h₆, h₇⟩ := special
    simp only [escapeChar, quote, backslash, h₃, h₄, h₅, h₆, h₇, if_false]
    by_cases control : c.toNat < 0x20
    · have unit : CodeUnit ['0', '0', Nat.digitChar (c.toNat / 16), Nat.digitChar (c.toNat % 16)]
          c.toNat := by
        have digits := CodeUnit.mk (.small (d := 0) (by omega)) (.small (d := 0) (by omega))
          (.small (d := c.toNat / 16) (by omega)) (.small (d := c.toNat % 16) (by omega))
        have value : ((0 * 16 + 0) * 16 + c.toNat / 16) * 16 + c.toNat % 16 = c.toNat := by omega
        rw [value] at digits
        exact digits
      rw [if_pos control]
      have escape : ("\\u00" ++ hexByte c.toNat).toList ++ text = '\\' :: 'u' ::
          (['0', '0', Nat.digitChar (c.toNat / 16), Nat.digitChar (c.toNat % 16)] ++ text) := by
        simp [hexByte, String.toList_append]
      rw [escape]
      exact .unit unit rest
    · rw [if_neg control, String.toList_singleton]
      refine .plain ?_ rest
      simpa [needsNoEscape, quote, backslash] using Nat.not_lt.1 control

theorem quotes_inQuotes (s : String) : Quotes s.toList (inQuotes s) := by
  rw [inQuotes]
  induction s.toList with
  | nil => exact .nothing
  | cons c cs ih => exact quotes_escapeChar c ih

theorem valuesOf?_cons {r : Raw} {rs : List Raw} {vs : List Value}
    (h : valuesOf? (r :: rs) = some vs) :
    ∃ w ws, r.value? = some w ∧ valuesOf? rs = some ws ∧ vs = w :: ws := by
  simp only [valuesOf?, Option.bind_eq_bind, Option.bind_eq_some_iff, Option.pure_def,
    Option.some_inj] at h
  obtain ⟨w, first, ws, others, rfl⟩ := h
  exact ⟨w, ws, first, others, rfl⟩

theorem toList_compactList (vs : List Value) : (Value.arr vs).compact.toList =
    '[' :: (enclosed [] [] ((compactItems vs).map String.toList) ++ [']']) := by
  rw [← toList_compactParts]
  simp [Value.compact, String.toList_append]

mutual

/-- The compact text of a value denotes it. -/
theorem denotes_compact : ∀ {r : Raw} {v : Value}, r.value? = some v → Denotes v.compact.toList r
  | .null, _, h => by
    cases h
    exact .null
  | .bool b, _, h => by
    cases h
    cases b
    · exact .bool false
    · exact .bool true
  | .int n, v, h => by
    rw [value?, Option.ite_none_right_eq_some] at h
    obtain ⟨fits, same⟩ := h
    cases same
    exact .int fits.1 fits.2
  | .float _, _, h => by cases h
  | .str s, _, h => by
    cases h
    rw [Value.compact, toList_showString]
    exact .str (quotes_inQuotes s)
  | .list items, v, h => by
    obtain ⟨vs, found, rfl⟩ := Option.map_eq_some_iff.1 h
    rw [toList_compactList]
    cases items with
    | nil =>
      cases found
      exact .empty .none
    | cons r rs => exact .list (denoteItems_compact (List.cons_ne_nil r rs) found)

theorem denoteItems_compact : ∀ {rs : List Raw} {vs : List Value}, rs ≠ [] →
    valuesOf? rs = some vs →
      DenoteItems (enclosed [] [] ((compactItems vs).map String.toList)) rs
  | [], _, nonempty, _ => absurd rfl nonempty
  | [r], _, _, h => by
    obtain ⟨w, ws, first, others, rfl⟩ := valuesOf?_cons h
    cases others
    have item := DenoteItems.one .none (denotes_compact first) .none
    simpa [enclosed, commaBefore, compactItems] using item
  | r :: r' :: rs, _, _, h => by
    obtain ⟨w, ws, first, others, rfl⟩ := valuesOf?_cons h
    have later := denoteItems_compact (List.cons_ne_nil r' rs) others
    obtain ⟨w', ws', -, -, rfl⟩ := valuesOf?_cons others
    have item := DenoteItems.more .none (denotes_compact first) .none later
    simpa [enclosed, commaBefore, compactItems] using item

end

/-- Every value that is built from null, booleans, integers of 64 bits, strings and lists up to 127
levels deep is read back from its compact text, and from every other text that denotes it, with gaps
between the tokens and the characters escaped in whichever way. No text with an object in it is
read. -/
theorem compact_values_read_back :
    (∀ (r : Raw) (v : Value), r.value? = some v → r.depth ≤ 127 → read v.compact = .ok r) ∧
    (∀ (r : Raw) (text : String), Padded (Denotes · r) text.toList → r.depth ≤ 127 →
      read text = .ok r) ∧
    ∀ text : String, Padded (IsValue true) text.toList → ∃ e, read text = .error e := by
  have spaced : ∀ (r : Raw) (text : String), Padded (Denotes · r) text.toList → r.depth ≤ 127 →
      read text = .ok r := by
    intro r text padded shallow
    obtain ⟨t, denotes, reads⟩ := read_padded padded
    exact reads _ (denotes.reads shallow)
  refine ⟨fun r v written shallow => ?_, spaced, fun text padded => ?_⟩
  · refine spaced r v.compact ?_ shallow
    simpa using Padded.mk (P := (Denotes · _)) .none (denotes_compact written) .none
  · obtain ⟨t, value, reads⟩ := read_padded padded
    obtain ⟨o, outcome, fails⟩ := reads_value value nestingLimit
    obtain ⟨e, rfl⟩ := fails rfl
    exact ⟨e, reads _ outcome⟩

/-- The least integer and an escaped string are read back, with gaps and without; an object in a
list is refused. -/
theorem compact_values_read_back_sample :
    read (Value.arr [.int (-0x8000000000000000), .str "\"\n", .arr []]).compact =
      .ok (.list [.int (-0x8000000000000000), .str "\"\n", .list []]) ∧
    read "[ 1 , \"\\u0041\" ]\n" = .ok (.list [.int 1, .str "A"]) ∧
    ∃ e, read "[null, \x7b\x7d]" = .error e := by
  obtain ⟨compact, spaced, refused⟩ := compact_values_read_back
  have small : Gap [' '] := by simp [Gap]
  refine ⟨compact _ _ rfl (by decide), ?_, refused _ ?_⟩
  · have unit : CodeUnit ['0', '0', '4', '1'] 'A'.toNat :=
      .mk (.small (d := 0) (by decide)) (.small (d := 0) (by decide)) (.small (d := 4) (by decide))
        (.small (d := 1) (by decide))
    have one : Denotes ['1'] (.int 1) := .int (n := 1) (by decide) (by decide)
    have letter : Denotes ('"' :: (['\\', 'u', '0', '0', '4', '1'] ++ ['"'])) (.str "A") :=
      .str (.unit unit .nothing)
    have items : DenoteItems _ [.int 1, .str "A"] := .more small one small (.one small letter small)
    have list : Denotes _ (.list [.int 1, .str "A"]) := .list items
    have line : Gap ['\n'] := by simp [Gap]
    exact spaced _ _ (.mk (P := (Denotes · _)) .none list line) (by decide)
  · have null : IsValue false "null".toList := .word (.inl rfl)
    have object : IsValue true ['\x7b', '\x7d'] := .emptyObject .none
    have items : IsItems (false || true) _ := .more .none null .none (.one small object .none)
    have list : IsValue true _ := .list items
    exact .mk .none list .none

end RunReport.Raw
