import RunReport.Proofs.Naming
import RunReport.Proofs.Numerals
import RunReport.Render.Html
/-!
# The end of the embedded statistics

A parser ends a script at the first `</script`, in letters of either case. Of the texts in the
statistics only `</script>` is broken up before they are written into the page, so another spelling
that stands in one of them ends the script, and nothing else does.
-/

namespace RunReport

/-! ## Replacing -/

namespace Text

/-- The text with every `old` replaced, as characters. -/
theorem toList_replace (old new s : String) :
    (replace old new s).toList = new.toList.intercalate (cut old.toList s.toList) := by
  rw [replace, String.toList_intercalate, List.map_map]
  congr 1
  exact List.map_id'' (fun cs => String.toList_ofList) _

/-- An occurrence at the beginning is replaced, and the rest stands for itself. -/
theorem intercalate_cut_append (new : List Char) (c : Char) (sep rest : List Char) :
    new.intercalate (cut (c :: sep) (c :: sep ++ rest)) =
      new ++ new.intercalate (cut (c :: sep) rest) := by
  have found : (c :: sep).isPrefixOf (c :: (sep ++ rest)) = true :=
    List.isPrefixOf_iff_prefix.2 ⟨rest, rfl⟩
  have pieces : cut (c :: sep) (c :: sep ++ rest) = [] :: cut (c :: sep) rest := by
    simp only [cut, List.cons_append, cutFrom, found, if_true]
    rw [cutFrom_eq_drop]
    simp
  rw [pieces, List.intercalate_cons_of_ne_nil (Text.cut_ne_nil (c :: sep) rest)]
  rfl

theorem intercalate_cut_cons (new : List Char) {c : Char} {sep cs : List Char}
    (other : ¬sep <+: c :: cs) :
    new.intercalate (cut sep (c :: cs)) = c :: new.intercalate (cut sep cs) := by
  have apart : sep.isPrefixOf (c :: cs) = false := by
    rw [Bool.eq_false_iff, Ne, List.isPrefixOf_iff_prefix]
    exact other
  simp only [cut, cutFrom, apart]
  cases cutFrom sep 0 cs with
  | nil => simp [consPiece]
  | cons p ps => exact List.intercalate_cons_cons_left

end Text

/-! ## Letters -/

theorem isUpper_iff {c : Char} : c.isUpper = true ↔ 'A'.val ≤ c.val ∧ c.val ≤ 'Z'.val :=
  decide_eq_true_iff

theorem toLower_of_not_isUpper {c : Char} (h : c.isUpper = false) : c.toLower = c :=
  dif_neg (of_decide_eq_false h)

theorem isLower_toLower {c : Char} (h : c.isUpper = true) : c.toLower.isLower = true := by
  have upper := isUpper_iff.1 h
  have value : c.toLower.val = c.val + 32 := congrArg Char.val (dif_pos upper)
  have low : 65 ≤ c.val.toNat := UInt32.le_iff_toNat_le.1 upper.1
  have high : c.val.toNat ≤ 90 := UInt32.le_iff_toNat_le.1 upper.2
  change (decide ('a'.val ≤ c.toLower.val) && decide (c.toLower.val ≤ 'z'.val)) = true
  simp only [value, Bool.and_eq_true, decide_eq_true_eq, UInt32.le_iff_toNat_le,
    UInt32.toNat_add]
  change 97 ≤ (c.val.toNat + 32) % 2 ^ 32 ∧ (c.val.toNat + 32) % 2 ^ 32 ≤ 122
  omega

/-- What is no letter is the small form of itself alone. -/
theorem eq_of_toLower_eq {c d : Char} (h : c.toLower = d) (plain : d.isLower = false) : c = d := by
  cases upper : c.isUpper with
  | false => rw [← h, toLower_of_not_isUpper upper]
  | true =>
    have letter := isLower_toLower upper
    rw [h, plain] at letter
    cases letter

namespace Render.Html

/-! ## End tags -/

def endTag : List Char := "</script".toList

/-- The one spelling that is broken up. -/
def plainEndTag : List Char := "</script>".toList

/-- Somewhere in the text a parser finds the end of the script. -/
def EndsScript (cs : List Char) : Prop :=
  endTag <:+: cs.map Char.toLower

instance (cs : List Char) : Decidable (EndsScript cs) :=
  inferInstanceAs (Decidable (_ <:+: _))

/-- Begins with an end tag in another spelling. -/
def OpensOddly (cs : List Char) : Prop :=
  endTag <+: cs.map Char.toLower ∧ ¬plainEndTag <+: cs

/-- Somewhere in the text stands an end tag in another spelling. -/
def HasOddEndTag (cs : List Char) : Prop :=
  ∃ rest, rest <:+ cs ∧ OpensOddly rest

theorem endsScript_cons (c : Char) (cs : List Char) :
    EndsScript (c :: cs) ↔ endTag <+: (c :: cs).map Char.toLower ∨ EndsScript cs :=
  List.infix_cons_iff

theorem hasOddEndTag_cons (c : Char) (cs : List Char) :
    HasOddEndTag (c :: cs) ↔ OpensOddly (c :: cs) ∨ HasOddEndTag cs := by
  simp only [HasOddEndTag, List.suffix_cons_iff]
  constructor
  · rintro ⟨rest, rfl | suffix, odd⟩
    · exact .inl odd
    · exact .inr ⟨rest, suffix, odd⟩
  · rintro (odd | ⟨rest, suffix, odd⟩)
    · exact ⟨_, .inl rfl, odd⟩
    · exact ⟨rest, .inr suffix, odd⟩

theorem not_hasOddEndTag_nil : ¬HasOddEndTag [] := by
  rintro ⟨rest, suffix, begins, -⟩
  rw [List.suffix_nil.1 suffix] at begins
  exact absurd begins (by decide)

/-- An end tag begins with a bracket. -/
theorem head_of_endTag {c : Char} {cs : List Char} (h : endTag <+: (c :: cs).map Char.toLower) :
    c = '<' :=
  eq_of_toLower_eq (List.cons_prefix_cons.1 h).1.symm (by decide)

theorem hasOddEndTag_cons_other {c : Char} (other : c ≠ '<') (cs : List Char) :
    HasOddEndTag (c :: cs) ↔ HasOddEndTag cs := by
  rw [hasOddEndTag_cons]
  exact or_iff_right fun odd => other (head_of_endTag odd.1)

theorem endsScript_cons_other {c : Char} (other : c ≠ '<') (cs : List Char) :
    EndsScript (c :: cs) ↔ EndsScript cs := by
  rw [endsScript_cons]
  exact or_iff_right fun begins => other (head_of_endTag begins)

/-! ## Breaking up end tags -/

/-- The text with its plain end tags broken up. -/
def broken (cs : List Char) : List Char :=
  "<\\/script>".toList.intercalate (Text.cut plainEndTag cs)

theorem toList_escapeScript (s : String) : (escapeScript s).toList = broken s.toList :=
  Text.toList_replace ..

theorem broken_plain (rest : List Char) :
    broken (plainEndTag ++ rest) = "<\\/script>".toList ++ broken rest :=
  Text.intercalate_cut_append _ '<' "/script>".toList rest

theorem broken_cons {c : Char} {cs : List Char} (other : ¬plainEndTag <+: c :: cs) :
    broken (c :: cs) = c :: broken cs :=
  Text.intercalate_cut_cons _ other

/-- Where no bracket begins a tag, the text still begins with the same letters. -/
theorem prefix_broken {tail : List Char} (plain : '<' ∉ tail) (cs : List Char) :
    tail <+: (broken cs).map Char.toLower ↔ tail <+: cs.map Char.toLower := by
  induction tail generalizing cs with
  | nil => simp
  | cons x tail ih =>
    have bracket : x ≠ '<' := fun same => plain (by simp [same])
    cases cs with
    | nil => rfl
    | cons c cs =>
      by_cases closing : plainEndTag <+: c :: cs
      · obtain ⟨rest, split⟩ := closing
        have neither : ∀ ys : List Char, ¬x :: tail <+: ('<' :: ys).map Char.toLower :=
          fun ys h => bracket (List.cons_prefix_cons.1 h).1
        rw [← split, broken_plain]
        exact iff_of_false (neither _) (neither _)
      · rw [broken_cons closing, List.map_cons, List.map_cons, List.cons_prefix_cons,
          List.cons_prefix_cons, ih fun mem => plain (by simp [mem])]

/-- What ends the script after the plain end tags are broken up is an end tag in another spelling. -/
theorem endsScript_broken (cs : List Char) : EndsScript (broken cs) ↔ HasOddEndTag cs := by
  induction hn : cs.length using Nat.strongRecOn generalizing cs with
  | ind n ih =>
    cases cs with
    | nil => exact iff_of_false (by decide) not_hasOddEndTag_nil
    | cons c cs =>
      by_cases closing : plainEndTag <+: c :: cs
      · obtain ⟨rest, split⟩ := closing
        have shorter : rest.length < n := by
          have sizes := congrArg List.length split
          rw [List.length_append, hn] at sizes
          have size : 0 < plainEndTag.length := by decide
          omega
        -- Neither the tag nor what it becomes counts, and no tag begins inside of them.
        have inside : ∀ ys, (EndsScript ("\\/script>".toList ++ ys) ↔ EndsScript ys) ∧
            (HasOddEndTag ("/script>".toList ++ ys) ↔ HasOddEndTag ys) := by
          intro ys
          simp [endsScript_cons_other, hasOddEndTag_cons_other]
        rw [← split, broken_plain]
        change EndsScript ('<' :: ("\\/script>".toList ++ broken rest)) ↔
          HasOddEndTag ('<' :: ("/script>".toList ++ rest))
        rw [endsScript_cons, hasOddEndTag_cons, (inside _).1, (inside _).2, ih _ shorter rest rfl]
        refine or_congr_left (iff_of_false ?_ ?_)
        · intro begins
          exact absurd (List.cons_prefix_cons.1 (List.cons_prefix_cons.1 begins).2).1 (by decide)
        · exact fun odd => odd.2 ⟨rest, rfl⟩
      · have shorter : cs.length < n := by
          rw [← hn]
          exact Nat.lt_succ_self _
        have same : endTag <+: (c :: broken cs).map Char.toLower ↔ OpensOddly (c :: cs) := by
          rw [OpensOddly, and_iff_left closing, List.map_cons, List.map_cons]
          exact List.cons_prefix_cons.trans
            ((and_congr_right fun _ => prefix_broken (by decide) cs).trans
              List.cons_prefix_cons.symm)
        rw [broken_cons closing, endsScript_cons, hasOddEndTag_cons, ih _ shorter cs rfl, same]

/-! ## Pieces of a text -/

theorem hasOddEndTag_skip {a : List Char} (free : '<' ∉ a) (b : List Char) :
    HasOddEndTag (a ++ b) ↔ HasOddEndTag b := by
  induction a with
  | nil => rfl
  | cons c a ih =>
    rw [List.mem_cons, not_or] at free
    rw [List.cons_append, hasOddEndTag_cons_other (Ne.symm free.1), ih free.2]

theorem not_hasOddEndTag {a : List Char} (free : '<' ∉ a) : ¬HasOddEndTag a := by
  rw [← List.append_nil a, hasOddEndTag_skip free]
  exact not_hasOddEndTag_nil

/-- A beginning does not reach past a character that is not in it. -/
theorem prefix_append_apart {p a b : List Char} (apart : ∀ c, b.head? = some c → c ∉ p) :
    p <+: a ++ b ↔ p <+: a := by
  induction a generalizing p with
  | nil =>
    cases p with
    | nil => simp
    | cons x p =>
      refine iff_of_false (fun h => ?_) (by simp)
      obtain ⟨rest, split⟩ := h
      refine apart x ?_ List.mem_cons_self
      rw [List.nil_append] at split
      rw [← split]
      rfl
  | cons c a ih =>
    cases p with
    | nil => simp
    | cons x p =>
      rw [List.cons_append, List.cons_prefix_cons, List.cons_prefix_cons,
        ih fun d hd mem => apart d hd (by simp [mem])]

/-- A character that is in no end tag, so that none reaches past it. -/
def Parts (c : Char) : Prop :=
  c.toLower ∉ endTag ∧ c ∉ plainEndTag

instance (c : Char) : Decidable (Parts c) :=
  inferInstanceAs (Decidable (_ ∧ _))

theorem Parts.ne_bracket {c : Char} (parts : Parts c) : c ≠ '<' := by
  rintro rfl
  exact parts.2 (by decide)

theorem hasOddEndTag_append {c : Char} (parts : Parts c) (a b : List Char) :
    HasOddEndTag (a ++ c :: b) ↔ HasOddEndTag a ∨ HasOddEndTag b := by
  induction a with
  | nil =>
    rw [List.nil_append, hasOddEndTag_cons_other parts.ne_bracket]
    exact (or_iff_right not_hasOddEndTag_nil).symm
  | cons d a ih =>
    have same : OpensOddly (d :: a ++ c :: b) ↔ OpensOddly (d :: a) := by
      rw [OpensOddly, OpensOddly, List.map_append, List.map_cons, prefix_append_apart,
        prefix_append_apart]
      · rintro _ ⟨⟩
        exact parts.2
      · rintro _ ⟨⟩
        exact parts.1
    rw [hasOddEndTag_cons, or_assoc, ← ih, ← same]
    exact hasOddEndTag_cons d _

/-! ## Written strings -/

/-- A character is written as itself, or it is in no end tag and begins with a backslash. -/
theorem escapeChar_cases (c : Char) :
    (Json.escapeChar c).toList = [c] ∨
      Parts c ∧ ∃ rest, (Json.escapeChar c).toList = '\\' :: rest ∧ '<' ∉ rest := by
  by_cases special : c = '"' ∨ c = '\\' ∨ c = '\n' ∨ c = '\r' ∨ c = '\t' ∨ c = '\x08' ∨ c = '\x0c'
  · right
    rcases special with rfl | rfl | rfl | rfl | rfl | rfl | rfl
    all_goals exact ⟨by decide, _, rfl, by decide⟩
  · simp only [not_or] at special
    obtain ⟨h₁, h₂, h₃, h₄, h₅, h₆, h₇⟩ := special
    simp only [Json.escapeChar, h₁, h₂, h₃, h₄, h₅, h₆, h₇, if_false]
    by_cases control : c.toNat < 0x20
    · right
      have small : c.isUpper = false := by
        rw [Bool.eq_false_iff, Ne, isUpper_iff]
        intro upper
        have low : 65 ≤ c.toNat := UInt32.le_iff_toNat_le.1 upper.1
        omega
      have free : ∀ k < 0x20, '<' ∉ 'u' :: '0' :: '0' :: (Json.hexByte k).toList := by decide
      have far : ∀ d ∈ plainEndTag, 0x20 ≤ d.toNat := by
        have all : plainEndTag.all (0x20 ≤ ·.toNat) = true := by decide
        exact fun d mem => of_decide_eq_true (List.all_eq_true.1 all d mem)
      have apart : c ∉ plainEndTag := fun mem => absurd (far c mem) (by omega)
      rw [if_pos control, String.toList_append]
      refine ⟨⟨?_, apart⟩, _, rfl, free _ control⟩
      rw [toLower_of_not_isUpper small]
      exact fun mem => apart (List.mem_append_left ['>'] mem)
    · left
      rw [if_neg control, String.toList_singleton]

/-- The characters between the quotes of a written string. -/
def escaped (cs : List Char) : List Char :=
  cs.flatMap fun c => (Json.escapeChar c).toList

/-- What a text begins with, if no character of it is written otherwise, so does the written one. -/
theorem prefix_escaped (f : Char → Char) {p : List Char} (slash : f '\\' ∉ p)
    (apart : ∀ c, Parts c → f c ∉ p) (cs : List Char) :
    p <+: (escaped cs).map f ↔ p <+: cs.map f := by
  induction p generalizing cs with
  | nil => simp
  | cons x p ih =>
    cases cs with
    | nil => rfl
    | cons c cs =>
      have written : escaped (c :: cs) = (Json.escapeChar c).toList ++ escaped cs :=
        List.flatMap_cons
      rcases escapeChar_cases c with plain | ⟨parts, rest, special, -⟩
      · rw [written, plain, List.singleton_append, List.map_cons, List.map_cons,
          List.cons_prefix_cons, List.cons_prefix_cons,
          ih (fun mem => slash (by simp [mem])) fun d hd mem => apart d hd (by simp [mem])]
      · rw [written, special, List.cons_append, List.map_cons, List.map_cons,
          List.cons_prefix_cons, List.cons_prefix_cons]
        refine iff_of_false (fun h => slash ?_) fun h => apart c parts ?_
        · rw [← h.1]
          exact List.mem_cons_self
        · rw [← h.1]
          exact List.mem_cons_self

theorem opensOddly_escaped (cs : List Char) : OpensOddly (escaped cs) ↔ OpensOddly cs := by
  have plain := prefix_escaped id (p := plainEndTag) (by decide) (fun c parts => parts.2) cs
  rw [List.map_id, List.map_id] at plain
  rw [OpensOddly, OpensOddly, plain,
    prefix_escaped Char.toLower (by decide) fun c parts => parts.1]

theorem hasOddEndTag_escaped (cs : List Char) : HasOddEndTag (escaped cs) ↔ HasOddEndTag cs := by
  induction cs with
  | nil => rfl
  | cons c cs ih =>
    have written : escaped (c :: cs) = (Json.escapeChar c).toList ++ escaped cs :=
      List.flatMap_cons
    rcases escapeChar_cases c with plain | ⟨parts, rest, special, free⟩
    · have same := opensOddly_escaped (c :: cs)
      rw [written, plain, List.singleton_append] at same ⊢
      rw [hasOddEndTag_cons, hasOddEndTag_cons, same, ih]
    · have free' : '<' ∉ '\\' :: rest := by simp [free]
      rw [written, special, hasOddEndTag_skip free', ih, hasOddEndTag_cons_other parts.ne_bracket]

theorem hasOddEndTag_showString (s : String) :
    HasOddEndTag (Json.showString s).toList ↔ HasOddEndTag s.toList := by
  have text : (Json.showString s).toList = '"' :: (escaped s.toList ++ '"' :: []) := by
    simp [Json.showString, String.toList_append, String.toList_join, escaped, List.flatMap_map]
  rw [text, hasOddEndTag_cons_other (by decide), hasOddEndTag_append (by decide),
    hasOddEndTag_escaped]
  exact or_iff_left not_hasOddEndTag_nil

end Render.Html

/-! ## Values -/

namespace Json

mutual

/-- The strings of a value and the names of its fields. -/
def Value.texts : Value → List String
  | .str s => [s]
  | .arr items => textsOfItems items
  | .obj fields => textsOfFields fields
  | _ => []

def textsOfItems : List Value → List String
  | [] => []
  | v :: vs => v.texts ++ textsOfItems vs

def textsOfFields : List (String × Value) → List String
  | [] => []
  | (k, v) :: fs => k :: v.texts ++ textsOfFields fs

end

end Json

namespace Render.Html

/-- One of the texts has an end tag in another spelling. -/
def SomeOdd (texts : List String) : Prop :=
  ∃ t ∈ texts, HasOddEndTag t.toList

theorem someOdd_append (ts us : List String) : SomeOdd (ts ++ us) ↔ SomeOdd ts ∨ SomeOdd us := by
  simp only [SomeOdd, List.mem_append, or_and_right, exists_or]

theorem someOdd_cons (t : String) (ts : List String) :
    SomeOdd (t :: ts) ↔ HasOddEndTag t.toList ∨ SomeOdd ts := by
  simp [SomeOdd]

theorem not_someOdd_nil : ¬SomeOdd [] := by
  simp [SomeOdd]

theorem hasOddEndTag_intercalate (parts : List String) :
    HasOddEndTag (",".intercalate parts).toList ↔ SomeOdd parts := by
  induction parts with
  | nil => exact iff_of_false not_hasOddEndTag_nil not_someOdd_nil
  | cons p ps ih =>
    cases ps with
    | nil =>
      rw [String.intercalate_singleton, someOdd_cons]
      exact (or_iff_left not_someOdd_nil).symm
    | cons q qs =>
      have text : (",".intercalate (p :: q :: qs)).toList =
          p.toList ++ ',' :: (",".intercalate (q :: qs)).toList := by
        rw [String.intercalate_cons_cons, String.toList_append, String.toList_append,
          List.append_assoc]
        rfl
      rw [text, hasOddEndTag_append (by decide), ih, someOdd_cons p]

mutual

/-- An end tag in a written value stands in one of its strings. -/
theorem hasOddEndTag_compact : ∀ v : Json.Value, HasOddEndTag v.compact.toList ↔ SomeOdd v.texts
  | .null => iff_of_false (not_hasOddEndTag (by decide)) not_someOdd_nil
  | .bool b => iff_of_false (not_hasOddEndTag (by cases b <;> decide)) not_someOdd_nil
  | .int n =>
    iff_of_false (not_hasOddEndTag (not_mem_integer (by decide) (by decide) n)) not_someOdd_nil
  | .tenths n =>
    iff_of_false (not_hasOddEndTag (not_mem_showTenths (by decide) (by decide) n)) not_someOdd_nil
  | .str s => by
    rw [Json.Value.compact, hasOddEndTag_showString, Json.Value.texts, someOdd_cons]
    exact (or_iff_left not_someOdd_nil).symm
  | .arr items => by
    have text : (Json.Value.arr items).compact.toList =
        '[' :: ((",".intercalate (Json.compactItems items)).toList ++ ']' :: []) := by
      simp [Json.Value.compact, String.toList_append]
    rw [text, hasOddEndTag_cons_other (by decide), hasOddEndTag_append (by decide),
      hasOddEndTag_intercalate, someOdd_compactItems items]
    exact or_iff_left not_hasOddEndTag_nil
  | .obj fields => by
    have text : (Json.Value.obj fields).compact.toList =
        '\x7b' :: ((",".intercalate (Json.compactFields fields)).toList ++ '\x7d' :: []) := by
      simp [Json.Value.compact, String.toList_append]
    rw [text, hasOddEndTag_cons_other (by decide), hasOddEndTag_append (by decide),
      hasOddEndTag_intercalate, someOdd_compactFields fields]
    exact or_iff_left not_hasOddEndTag_nil

theorem someOdd_compactItems :
    ∀ items, SomeOdd (Json.compactItems items) ↔ SomeOdd (Json.textsOfItems items)
  | [] => .rfl
  | v :: vs => by
    rw [Json.compactItems, Json.textsOfItems, someOdd_cons, someOdd_append,
      hasOddEndTag_compact v, someOdd_compactItems vs]

theorem someOdd_compactFields :
    ∀ fields, SomeOdd (Json.compactFields fields) ↔ SomeOdd (Json.textsOfFields fields)
  | [] => .rfl
  | (k, v) :: fs => by
    have text : (Json.showString k ++ ":" ++ v.compact).toList =
        (Json.showString k).toList ++ ':' :: v.compact.toList := by
      simp [String.toList_append]
    rw [Json.compactFields, Json.textsOfFields, someOdd_cons, text,
      hasOddEndTag_append (by decide), hasOddEndTag_showString, hasOddEndTag_compact v,
      someOdd_compactFields fs, List.cons_append, someOdd_cons, someOdd_append, or_assoc]

end

end Render.Html

/-! ## Statistics -/

/-- The texts of a row of the tag table. -/
def TagStat.texts (t : TagStat) : List String :=
  [t.row.label, t.doc] ++ t.links.flatMap (fun l => [l.title, l.url]) ++ t.combined.toList
    ++ t.info.toList

/-- The texts of a row of the suite table. -/
def SuiteStat.texts (s : SuiteStat) : List String :=
  s.row.label :: (s.id.toList ++ [s.name])

/-- Every text of the report that stands in the tables. -/
def Statistics.texts (s : Statistics) : List String :=
  s.total.map (·.row.label) ++ s.tag.flatMap TagStat.texts ++ s.suite.flatMap SuiteStat.texts

namespace Render.Html

/-- A text without a bracket has no end tag. -/
theorem someOdd_cons_free {t : String} (free : '<' ∉ t.toList) (ts : List String) :
    SomeOdd (t :: ts) ↔ SomeOdd ts := by
  rw [someOdd_cons]
  exact or_iff_right (not_hasOddEndTag free)

theorem someOdd_flatMap {α : Type} (f : α → List String) (as : List α) :
    SomeOdd (as.flatMap f) ↔ ∃ a ∈ as, SomeOdd (f a) := by
  simp only [SomeOdd, List.mem_flatMap]
  constructor
  · rintro ⟨t, ⟨a, ha, ht⟩, odd⟩
    exact ⟨a, ha, t, ht, odd⟩
  · rintro ⟨a, ha, t, ht, odd⟩
    exact ⟨t, ⟨a, ha, ht⟩, odd⟩

theorem textsOfFields_append (fs gs : List (String × Json.Value)) :
    Json.textsOfFields (fs ++ gs) = Json.textsOfFields fs ++ Json.textsOfFields gs := by
  induction fs with
  | nil => rfl
  | cons f fs ih => simp only [List.cons_append, Json.textsOfFields, ih, List.append_assoc]

theorem textsOfItems_map {α : Type} (f : α → Json.Value) (as : List α) :
    Json.textsOfItems (as.map f) = as.flatMap fun a => (f a).texts := by
  induction as with
  | nil => rfl
  | cons a as ih => simp only [List.map_cons, Json.textsOfItems, List.flatMap_cons, ih]

theorem texts_ofOption (t : Option String) : (Json.Value.ofOption t).texts = t.toList := by
  cases t <;> rfl

theorem someOdd_rowFields (r : StatisticRow) :
    SomeOdd (Json.textsOfFields (Data.rowFields r)) ↔ HasOddEndTag r.label.toList := by
  simp (disch := decide) only [Data.rowFields, Json.textsOfFields, Json.Value.texts,
    List.cons_append, List.nil_append, someOdd_cons_free, someOdd_cons r.label, not_someOdd_nil,
    or_false]

theorem someOdd_totalStat (t : TotalStat) :
    SomeOdd (Data.totalStat t).texts ↔ HasOddEndTag t.row.label.toList := by
  have kind : '<' ∉ (Data.totalKind t.kind).toList := by
    cases t.kind <;> decide
  simp (disch := first | exact kind | decide) only [Data.totalStat, Json.Value.texts,
    Json.textsOfFields, List.cons_append, List.nil_append, someOdd_cons_free, someOdd_rowFields]

theorem someOdd_link (l : Link) : SomeOdd (Data.link l).texts ↔ SomeOdd [l.title, l.url] := by
  simp (disch := decide) only [Data.link, Json.Value.texts, Json.textsOfFields, List.cons_append,
    List.nil_append, someOdd_cons_free, someOdd_cons]

theorem someOdd_tagStat (t : TagStat) : SomeOdd (Data.tagStat t).texts ↔ SomeOdd t.texts := by
  simp (disch := decide) only [Data.tagStat, Data.tagFields, Json.Value.texts,
    textsOfFields_append, someOdd_append, someOdd_rowFields, Json.textsOfFields, List.cons_append,
    List.nil_append, List.append_nil, someOdd_cons_free, someOdd_cons, textsOfItems_map,
    texts_ofOption, someOdd_flatMap, someOdd_link, TagStat.texts, not_someOdd_nil, or_false,
    or_assoc]

theorem someOdd_suiteStat (s : SuiteStat) :
    SomeOdd (Data.suiteStat s).texts ↔ SomeOdd s.texts := by
  simp (disch := decide) only [Data.suiteStat, Data.suiteStatFields, Json.Value.texts,
    textsOfFields_append, someOdd_append, someOdd_rowFields, Json.textsOfFields, List.cons_append,
    List.nil_append, someOdd_cons_free, someOdd_cons, texts_ofOption, SuiteStat.texts,
    not_someOdd_nil, or_false]

/-- Of what the statistics are written with, only the texts of the report can have an end tag. -/
theorem someOdd_statistics (s : Statistics) :
    SomeOdd (Data.statistics s).texts ↔ SomeOdd s.texts := by
  have labels : SomeOdd (s.total.map (·.row.label)) ↔
      ∃ t ∈ s.total, HasOddEndTag t.row.label.toList := by
    constructor
    · rintro ⟨_, mem, odd⟩
      obtain ⟨t, ht, rfl⟩ := List.mem_map.1 mem
      exact ⟨t, ht, odd⟩
    · rintro ⟨t, ht, odd⟩
      exact ⟨_, List.mem_map.2 ⟨t, ht, rfl⟩, odd⟩
  simp (disch := decide) only [Data.statistics, Json.Value.texts, Json.textsOfFields,
    List.cons_append, List.append_nil, someOdd_cons_free, someOdd_append, textsOfItems_map,
    someOdd_flatMap, someOdd_totalStat, someOdd_tagStat, someOdd_suiteStat, Statistics.texts,
    labels, or_assoc]

theorem endsScript_scriptText (s : Statistics) :
    EndsScript (scriptText s).toList ↔ SomeOdd (Data.statistics s).texts := by
  rw [scriptText, toList_escapeScript, endsScript_broken, hasOddEndTag_compact]

/-- The script ends early exactly when a text of the statistics has an end tag in a spelling other
than `</script>`. -/
theorem script_ends_iff_odd_end_tag (s : Statistics) :
    EndsScript (scriptText s).toList ↔ ∃ t ∈ s.texts, HasOddEndTag t.toList := by
  rw [endsScript_scriptText]
  exact someOdd_statistics s

/-- A tag whose name is an end tag in capitals. -/
def capitalStatistics : Statistics :=
  let row : StatisticRow := ⟨"</SCRIPT>", ⟨1, 0, 0⟩, 1, ⟨1000, 0, 0⟩, ⟨1000, 0, 0⟩⟩
  ⟨[], [⟨row, "", [], none, none⟩], []⟩

/-- Its name ends the script. -/
theorem capitals_end_script : EndsScript (scriptText capitalStatistics).toList := by
  rw [endsScript_scriptText, someOdd_statistics]
  exact ⟨"</SCRIPT>", by decide, _, List.suffix_refl _, by decide, by decide⟩

end Render.Html

end RunReport
