import Mathlib.Data.List.Forall2
import RunReport.Proofs.Cutting
import RunReport.Render.Html
/-!
# The markup of a page

Tags and attributes are made of a few characters. A page has them from its fixed parts only: escaped
text has none, and neither have numbers, durations and the names of outcomes. So two pages with as many
rows and with outlines of the same shape have the same markup up to the embedded statistics, and these
begin at the first script element.
-/

namespace RunReport

/-! ## Shapes -/

/-- A suite without its texts: the suites below it and the number of its tests. -/
inductive Shape where
  | suite (below : List Shape) (tests : Nat)

mutual

def Outline.shape : Outline → Shape
  | .suite _ _ _ _ below tests => .suite (Outline.shapes below) tests.length

def Outline.shapes : List Outline → List Shape
  | [] => []
  | o :: os => o.shape :: Outline.shapes os

end

theorem Outline.shapes_eq_map (os : List Outline) : Outline.shapes os = os.map Outline.shape := by
  induction os with
  | nil => rfl
  | cons o os ih => rw [Outline.shapes, ih, List.map_cons]

namespace Render.Html

/-! ## Marks -/

/-- Opens or closes a tag, or the value of an attribute. -/
def isMark (c : Char) : Bool :=
  c == '<' || c == '>' || c == '"' || c == '\''

def marks (text : String) : List Char :=
  text.toList.filter isMark

/-! ## The first script element -/

def scriptStart : List Char :=
  "<script".toList

/-- What stands before the first script element. -/
def beforeScript? (page : String) : Option String :=
  (Text.cutOnce scriptStart page.toList).map fun r => String.ofList r.1

/-- No script element begins in the text, whatever follows it. -/
def Clear (cs : List Char) : Prop :=
  ∀ rest, Text.cutOnce scriptStart (cs ++ rest) =
    (Text.cutOnce scriptStart rest).map fun r => (cs ++ r.1, r.2)

theorem Clear.append {a b : List Char} (ha : Clear a) (hb : Clear b) : Clear (a ++ b) :=
  Text.Avoids.append ha hb

theorem clear_of_not_mem {cs : List Char} (h : '<' ∉ cs) : Clear cs := by
  have avoids : Text.Avoids ('<' :: scriptStart.tail) cs := Text.avoids_of_not_mem h
  exact avoids

/-! ## Texts with the same markup -/

/-- Two texts without a script element that have the same marks. -/
structure Like (a b : String) : Prop where
  left : Clear a.toList
  right : Clear b.toList
  marks : marks a = marks b

theorem Like.append {a b c d : String} (h : Like a b) (h' : Like c d) : Like (a ++ c) (b ++ d) where
  left := by
    rw [String.toList_append]
    exact h.left.append h'.left
  right := by
    rw [String.toList_append]
    exact h.right.append h'.right
  marks := by
    have own := h.marks
    have other := h'.marks
    simp only [Html.marks] at own other ⊢
    rw [String.toList_append, String.toList_append, List.filter_append, List.filter_append, own, other]

/-- A fixed text, given by its characters. -/
theorem like_same {cs : List Char} (h : Text.isFree scriptStart cs = true) :
    Like (String.ofList cs) (String.ofList cs) := by
  have clear : Clear (String.ofList cs).toList := by
    rw [String.toList_ofList]
    exact Text.avoids_of_isFree h
  exact ⟨clear, clear, rfl⟩

theorem like_join {as bs : List String} (h : List.Forall₂ Like as bs) :
    Like (String.join as) (String.join bs) := by
  induction h with
  | nil => exact like_same (by decide)
  | cons first _ ih =>
    rw [String.join_cons, String.join_cons]
    exact first.append ih

/-- The text has no marks. -/
def Unmarked (text : String) : Prop :=
  ∀ c ∈ text.toList, isMark c = false

instance (text : String) : Decidable (Unmarked text) :=
  List.decidableBAll (isMark · = false) text.toList

theorem Unmarked.like {a b : String} (ha : Unmarked a) (hb : Unmarked b) : Like a b where
  left := clear_of_not_mem fun mem => Bool.noConfusion (ha _ mem)
  right := clear_of_not_mem fun mem => Bool.noConfusion (hb _ mem)
  marks := by
    have none : ∀ {text : String}, Unmarked text → marks text = [] := fun h =>
      List.filter_eq_nil_iff.2 fun c mem => Bool.eq_false_iff.1 (h c mem)
    rw [none ha, none hb]

theorem Unmarked.append {a b : String} (ha : Unmarked a) (hb : Unmarked b) : Unmarked (a ++ b) := by
  intro c mem
  rw [String.toList_append] at mem
  exact (List.mem_append.1 mem).elim (ha c) (hb c)

theorem unmarked_escapeChar (c : Char) : Unmarked (escapeChar c) := by
  unfold escapeChar
  split
  · decide
  · decide
  · decide
  · decide
  · decide
  · next opening closing double single =>
    intro d mem
    rw [String.toList_singleton, List.mem_singleton] at mem
    rw [mem, isMark, beq_false_of_ne opening, beq_false_of_ne closing, beq_false_of_ne double,
      beq_false_of_ne single]
    rfl

theorem unmarked_escape (text : String) : Unmarked (escape text) := by
  intro c mem
  rw [escape, String.toList_join, List.flatMap_map] at mem
  obtain ⟨d, -, hd⟩ := List.mem_flatMap.1 mem
  exact unmarked_escapeChar d c hd

theorem eq_of_isMark {c : Char} (h : isMark c = true) : c = '<' ∨ c = '>' ∨ c = '"' ∨ c = '\'' := by
  simpa [isMark, or_assoc] using h

/-- A mark is no character that numbers are written with. -/
theorem isMark_apart {c : Char} (h : isMark c = true) :
    c.isDigit = false ∧ c ≠ '.' ∧ c ≠ ':' := by
  rcases eq_of_isMark h with rfl | rfl | rfl | rfl <;> decide

theorem unmarked_of {text : String} (h : ∀ c : Char, isMark c = true → c ∉ text.toList) :
    Unmarked text := by
  intro c mem
  cases mark : isMark c with
  | false => rfl
  | true => exact absurd mem (h c mark)

theorem unmarked_natural (n : Nat) : Unmarked (toString n) :=
  unmarked_of fun _ mark => not_mem_natural (isMark_apart mark).1 n

theorem unmarked_percent (tenths : Nat) : Unmarked (percent tenths) := by
  refine Unmarked.append (unmarked_of fun c mark => ?_) (by decide)
  exact not_mem_showTenths (isMark_apart mark).1 (isMark_apart mark).2.1 tenths

theorem unmarked_elapsedTime (t : Times) : Unmarked t.elapsedTime :=
  unmarked_of fun _ mark =>
    not_mem_elapsedTime (isMark_apart mark).1 (isMark_apart mark).2.2 (isMark_apart mark).2.1 t

theorem unmarked_statusClass (s : Status) : Unmarked (statusClass s) := by
  cases s <;> decide

theorem unmarked_status (s : Status) : Unmarked s.text := by
  cases s <;> decide

/-! ## Parts of a page -/

theorem like_escape (a b : String) : Like (escape a) (escape b) :=
  (unmarked_escape a).like (unmarked_escape b)

theorem like_natural (m n : Nat) : Like (toString m) (toString n) :=
  (unmarked_natural m).like (unmarked_natural n)

theorem like_percent (m n : Nat) : Like (percent m) (percent n) :=
  (unmarked_percent m).like (unmarked_percent n)

theorem like_bar {name : String} (same : Like name name) (m n : Nat) :
    Like (bar name m) (bar name n) := by
  refine .append (.append (.append (.append ?_ same) ?_) (like_percent m n)) ?_
  all_goals exact like_same (by decide)

theorem like_tableRow (row row' : StatisticRow) (info info' : String) :
    Like (tableRow row info) (tableRow row' info') := by
  unfold tableRow
  repeat' with_reducible refine Like.append ?_ ?_
  all_goals
    first
    | with_reducible exact like_escape _ _
    | with_reducible exact like_natural _ _
    | with_reducible exact like_percent _ _
    | with_reducible exact like_bar (like_same (by decide)) _ _
    | exact like_same (by decide)

theorem like_table {title : String} {rows rows' : List (StatisticRow × String)}
    (length : rows.length = rows'.length) : Like (table title rows) (table title rows') := by
  have each : List.Forall₂ Like (rows.map fun r => tableRow r.1 r.2)
      (rows'.map fun r => tableRow r.1 r.2) := by
    rw [List.forall₂_map_left_iff, List.forall₂_map_right_iff]
    exact List.forall₂_iff_zip.2 ⟨length, fun _ => like_tableRow ..⟩
  have empty : rows.isEmpty = rows'.isEmpty := by
    rw [Bool.eq_iff_iff, List.isEmpty_iff_length_eq_zero, List.isEmpty_iff_length_eq_zero, length]
  refine .append (.append (.append ?_ (like_escape ..)) ?_) ?_
  · exact like_same (by decide)
  · exact like_same (by decide)
  · rw [empty]
    split
    · exact like_same (by decide)
    · refine .append (.append (.append ?_ ?_) (like_join each)) ?_
      all_goals exact like_same (by decide)

theorem like_badge (s s' : Status) : Like (badge s) (badge s') := by
  have name := (unmarked_statusClass s).like (unmarked_statusClass s')
  have text := (unmarked_status s).like (unmarked_status s')
  refine .append (.append (.append (.append ?_ name) ?_) text) ?_
  all_goals exact like_same (by decide)

theorem like_elapsed (t t' : Times) : Like (elapsed t) (elapsed t') := by
  have time := (unmarked_elapsedTime t).like (unmarked_elapsedTime t')
  refine .append (.append ?_ time) ?_
  all_goals exact like_same (by decide)

theorem like_testItem (t t' : TestEntry) : Like (testItem t) (testItem t') := by
  refine .append (.append (.append (.append (.append (.append ?_ (like_escape ..)) ?_)
    (like_badge ..)) (like_escape ..)) (like_elapsed ..)) ?_
  all_goals exact like_same (by decide)

theorem like_testItems {ts ts' : List TestEntry} (length : ts.length = ts'.length) :
    Like (String.join (ts.map testItem)) (String.join (ts'.map testItem)) := by
  refine like_join ?_
  rw [List.forall₂_map_left_iff, List.forall₂_map_right_iff]
  exact List.forall₂_iff_zip.2 ⟨length, fun _ => like_testItem ..⟩

/-- Lists with the same shape are both empty or both not. -/
theorem isEmpty_of_shapes {os os' : List Outline} (same : Outline.shapes os = Outline.shapes os') :
    os.isEmpty = os'.isEmpty := by
  cases os <;> cases os' <;> first | rfl | cases same

mutual

/-- The items of suites of the same shape have the same markup. -/
theorem like_suiteItem : ∀ (o o' : Outline), o.shape = o'.shape → Like (suiteItem o) (suiteItem o')
  | .suite id s doc message below tests, .suite id' s' doc' message' below' tests', same => by
    simp only [Outline.shape, Shape.suite.injEq] at same
    have empty : tests.isEmpty = tests'.isEmpty := by
      rw [Bool.eq_iff_iff, List.isEmpty_iff_length_eq_zero, List.isEmpty_iff_length_eq_zero, same.2]
    unfold suiteItem
    refine .append (.append (.append (.append (.append (.append (.append ?_ (like_escape ..)) ?_)
      (like_badge ..)) (like_escape ..)) (like_elapsed ..)) ?_) ?_
    · exact like_same (by decide)
    · exact like_same (by decide)
    · rw [isEmpty_of_shapes same.1, empty]
      split
      · exact like_same (by decide)
      · refine .append (.append (.append ?_ (like_suiteItems below below' same.1))
          (like_testItems same.2)) ?_
        · exact like_same (by decide)
        · exact like_same (by decide)
    · exact like_same (by decide)

theorem like_suiteItems : ∀ os os' : List Outline, Outline.shapes os = Outline.shapes os' →
    Like (suiteItems os) (suiteItems os')
  | [], [], _ => like_same (by decide)
  | o :: os, o' :: os', same => by
    simp only [Outline.shapes, List.cons.injEq] at same
    unfold suiteItems
    exact (like_suiteItem o o' same.1).append (like_suiteItems os os' same.2)

end

/-! ## Whole pages -/

set_option maxRecDepth 2000 in
theorem like_headLines : ∀ line ∈ headLines, Like line line := by
  unfold headLines
  repeat' refine List.forall_mem_cons.2 ⟨like_same (by decide), ?_⟩
  exact List.forall_mem_nil _

theorem like_head : Like head head := by
  refine like_join (List.forall₂_same.2 fun text mem => ?_)
  obtain ⟨line, hline, rfl⟩ := List.mem_map.1 mem
  exact (like_headLines line hline).append (like_same (by decide))

/-- Pages with as many rows in each table and outlines of the same shape. -/
structure Page.Alike (p q : Page) : Prop where
  total : p.statistics.total.length = q.statistics.total.length
  tag : p.statistics.tag.length + p.combined.length = q.statistics.tag.length + q.combined.length
  suite : p.statistics.suite.length = q.statistics.suite.length
  outline : Outline.shapes p.outline = Outline.shapes q.outline

/-- No text of a report adds to the markup. -/
theorem Page.Alike.like {p q : Page} (h : p.Alike q) : Like (markup p) (markup q) := by
  have total : (p.statistics.total.map fun s => (s.row, "")).length =
      (q.statistics.total.map fun s => (s.row, "")).length := by
    rw [List.length_map, List.length_map, h.total]
  have tag : ((p.statistics.tag ++ p.combined).map fun s => (s.row, s.shownInfo)).length =
      ((q.statistics.tag ++ q.combined).map fun s => (s.row, s.shownInfo)).length := by
    rw [List.length_map, List.length_map, List.length_append, List.length_append, h.tag]
  have suite : (p.statistics.suite.map fun s => (s.row, "")).length =
      (q.statistics.suite.map fun s => (s.row, "")).length := by
    rw [List.length_map, List.length_map, h.suite]
  unfold markup
  repeat' with_reducible refine Like.append ?_ ?_
  all_goals
    first
    | with_reducible exact like_escape _ _
    | with_reducible exact like_table total
    | with_reducible exact like_table tag
    | with_reducible exact like_table suite
    | with_reducible exact like_suiteItems _ _ h.outline
    | with_reducible exact like_head
    | exact like_same (by decide)

/-- What stands before the statistics is the markup. -/
theorem beforeScript?_page {p : Page} (clear : Clear (markup p).toList) :
    beforeScript? (page p) = some (markup p) := by
  have element : "<script type=\"application/json\" id=\"statistics\">".toList =
      scriptStart ++ " type=\"application/json\" id=\"statistics\">".toList := by
    decide
  rw [beforeScript?, page, String.toList_append, String.toList_append, String.toList_append, element]
  simp only [List.append_assoc]
  rw [Text.cutOnce_append_sep (by decide) clear, Option.map_some, String.ofList_toList]

end Render.Html

end RunReport
