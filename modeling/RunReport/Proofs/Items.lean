import RunReport.Proofs.Gathering
/-!
# The items of a page

A page shows its outline as nested lists, an item for each suite and test. Each item begins with its
id, tells by its class whether it is a test, and has a badge with the status. The items can be read
off the page by looking for their beginnings alone, since no text of the report adds to the markup.
-/

namespace RunReport

/-- What is shown of a suite or test: the text of its id, whether it is shown as a test, and its
status. -/
structure ShownItem where
  id : String
  isTest : Bool
  status : Status
  deriving DecidableEq

def OutlineItem.shown (item : OutlineItem) : ShownItem :=
  ⟨item.id.text, item.isTest, item.status⟩

namespace Render.Html

/-! ## Reading items -/

def itemStart : List Char :=
  "<li id=\"".toList

/-- The status whose badge comes first. -/
def badge? (cs : List Char) : Option Status :=
  [Status.pass, .fail, .notRun].find? fun s => (badge s).toList.isPrefixOf cs

/-- What an item shows, read from after its beginning: the id, the rest of the tag, the badge. -/
def readItem? (cs : List Char) : Option ShownItem := do
  let (id, rest) ← Text.cutOnce ['"'] cs
  let (kind, rest) ← Text.cutOnce ['>'] rest
  let status ← badge? rest
  return ⟨String.ofList id, kind = " class=\"test\"".toList, status⟩

/-- All items in a text, in the order of their beginnings. -/
def itemsIn? (cs : List Char) : Option (List ShownItem) :=
  ((Text.cut itemStart cs).drop 1).mapM readItem?

/-- The text adds these items to whatever follows it. -/
def Shows (cs : List Char) (items : List ShownItem) : Prop :=
  ∀ rest, itemsIn? (cs ++ rest) = (itemsIn? rest).map (items ++ ·)

theorem Shows.append {a b : List Char} {items items' : List ShownItem} (ha : Shows a items)
    (hb : Shows b items') : Shows (a ++ b) (items ++ items') := by
  intro rest
  rw [List.append_assoc, ha, hb, Option.map_map]
  simp only [Function.comp_def, List.append_assoc]

theorem shows_of_avoids {cs : List Char} (h : Text.Avoids itemStart cs) : Shows cs [] := by
  intro rest
  obtain ⟨first, more, whole, longer⟩ := Text.cut_append (by decide) h rest
  rw [itemsIn?, itemsIn?, whole, longer]
  exact Option.map_id'.symm

/-- An item, when it can be told from its beginning and no other one begins in it. -/
theorem shows_item {body : List Char} {item : ShownItem} (free : Text.Avoids itemStart body)
    (reads : ∀ rest, readItem? (body ++ rest) = some item) : Shows (itemStart ++ body) [item] := by
  intro rest
  obtain ⟨first, more, whole, longer⟩ := Text.cut_append (by decide) free rest
  rw [itemsIn?, itemsIn?, List.append_assoc, Text.cut_sep (by decide), whole, longer,
    List.drop_succ_cons, List.drop_zero, List.drop_succ_cons, List.drop_zero, List.mapM_cons, reads]
  cases more.mapM readItem? <;> rfl

/-- No item begins where no tag does. -/
theorem avoids_of_no_tag {cs : List Char} (h : '<' ∉ cs) : Text.Avoids itemStart cs := by
  have avoids : Text.Avoids ('<' :: itemStart.tail) cs := Text.avoids_of_not_mem h
  exact avoids

/-- No item begins in the text. -/
def Itemless (text : String) : Prop :=
  Text.Avoids itemStart text.toList

theorem Itemless.append {a b : String} (ha : Itemless a) (hb : Itemless b) : Itemless (a ++ b) := by
  rw [Itemless, String.toList_append]
  exact Text.Avoids.append ha hb

/-- A fixed text, given by its characters. -/
theorem itemless_fixed {cs : List Char} (h : Text.isFree itemStart cs = true) :
    Itemless (String.ofList cs) := by
  rw [Itemless, String.toList_ofList]
  exact Text.avoids_of_isFree h

theorem itemless_of_unmarked {text : String} (h : Unmarked text) : Itemless text :=
  avoids_of_no_tag fun mem => Bool.noConfusion (h _ mem)

/-! ## Ids -/

theorem escapeChar_plain {c : Char} (plain : c ∉ ['&', '<', '>', '"', '\'']) :
    escapeChar c = String.singleton c := by
  simp only [List.mem_cons, List.not_mem_nil, or_false, not_or] at plain
  obtain ⟨amp, less, greater, quote, apostrophe⟩ := plain
  unfold escapeChar
  split
  · exact absurd rfl amp
  · exact absurd rfl less
  · exact absurd rfl greater
  · exact absurd rfl quote
  · exact absurd rfl apostrophe
  · rfl

theorem escape_plain {text : String}
    (plain : ∀ c ∈ text.toList, c ∉ ['&', '<', '>', '"', '\'']) : escape text = text := by
  have same : text.toList.map escapeChar = text.toList.map String.singleton :=
    List.map_congr_left fun c mem => escapeChar_plain (plain c mem)
  rw [escape, same, ← String.toList_inj, String.toList_join, List.flatMap_map]
  simp only [String.toList_singleton, List.flatMap_singleton']

section Ids

variable {c : Char} (digit : c.isDigit = false) (letter : c.isAlpha = false) (dash : c ≠ '-')

include digit letter in
theorem not_mem_segment (step : Segment) : c ∉ step.text.toList := by
  rw [Segment.text, String.toList_append, List.mem_append, not_or]
  refine ⟨fun mem => ?_, not_mem_natural digit _⟩
  rw [String.toList_singleton, List.mem_singleton] at mem
  subst mem
  cases hb : step.branch <;> rw [hb] at letter <;> cases letter

include digit letter dash in
theorem not_mem_route (r : Route) : c ∉ r.text.toList := by
  induction r with
  | root =>
    intro mem
    have first : c = 's' ∨ c = '1' := by simpa [Route.text] using mem
    rcases first with rfl | rfl
    · cases letter
    · cases digit
  | child owner step ih =>
    rw [Route.text, String.toList_append, String.toList_append, List.mem_append, List.mem_append,
      not_or, not_or]
    exact ⟨⟨ih, by simpa using dash⟩, not_mem_segment digit letter step⟩

include digit letter dash in
/-- Ids are written with letters, digits and dashes. -/
theorem not_mem_id (id : NodeId) : c ∉ id.text.toList := by
  cases id with
  | branch r => exact not_mem_route digit letter dash r
  | message n =>
    rw [NodeId.text, String.toList_append, List.mem_append, not_or]
    refine ⟨fun mem => ?_, not_mem_natural digit n⟩
    have known : NodeId.messageStart.toList.all (fun c => c.isAlpha || c == '-') = true := by decide
    have one := List.all_eq_true.1 known c mem
    rw [letter, Bool.false_or, beq_iff_eq] at one
    exact dash one

end Ids

/-- An id is written in a page as it is. -/
theorem escape_id (id : NodeId) : escape id.text = id.text := by
  refine escape_plain fun c mem special => ?_
  have other : c.isDigit = false ∧ c.isAlpha = false ∧ c ≠ '-' := by
    simp only [List.mem_cons, List.not_mem_nil, or_false] at special
    rcases special with rfl | rfl | rfl | rfl | rfl <;> decide
  exact not_mem_id other.1 other.2.1 other.2.2 id mem

/-! ## Items of an outline -/

theorem itemless_badge (s : Status) : Itemless (badge s) := by
  refine Text.avoids_of_isFree ?_
  cases s <;> decide

theorem status_of_badge {s s' : Status} {rest : List Char}
    (h : (badge s').toList <+: (badge s).toList ++ rest) : s' = s := by
  -- Both badges begin the same text, and no badge begins with another one.
  rcases List.prefix_or_prefix_of_prefix h (List.prefix_append ..) with left | right
  · cases s <;> cases s' <;> first | rfl | exact absurd left (by decide)
  · cases s <;> cases s' <;> first | rfl | exact absurd right (by decide)

theorem badge?_badge (s : Status) (rest : List Char) :
    badge? ((badge s).toList ++ rest) = some s := by
  have only : ∀ s', (badge s').toList.isPrefixOf ((badge s).toList ++ rest) = decide (s' = s) := by
    intro s'
    rw [Bool.eq_iff_iff, List.isPrefixOf_iff_prefix, decide_eq_true_iff]
    exact ⟨status_of_badge, fun same => same ▸ List.prefix_append ..⟩
  simp only [badge?, only]
  cases s <;> rfl

/-- The rest of the tag of an item after its id. -/
def itemKind (isTest : Bool) : List Char :=
  if isTest then " class=\"test\"".toList else []

/-- The beginning of an item is read back, whatever comes after the badge. -/
theorem readItem?_written (id : NodeId) (isTest : Bool) (s : Status) (rest : List Char) :
    readItem? (id.text.toList ++ (['"'] ++ (itemKind isTest ++ (['>'] ++
      ((badge s).toList ++ rest))))) = some ⟨id.text, isTest, s⟩ := by
  have quote : '"' ∉ id.text.toList := not_mem_id (by decide) (by decide) (by decide) id
  have greater : '>' ∉ itemKind isTest := by cases isTest <;> decide
  have kind : decide (itemKind isTest = " class=\"test\"".toList) = isTest := by
    cases isTest <;> decide
  simp only [readItem?, Text.cutOnce_char quote, Text.cutOnce_char greater, badge?_badge, bind,
    Option.bind_some, kind, String.ofList_toList, pure]

theorem shows_opening (id : NodeId) (isTest : Bool) (s : Status) :
    Shows (itemStart ++ (id.text.toList ++ (['"'] ++ (itemKind isTest ++ (['>'] ++
      (badge s).toList))))) [⟨id.text, isTest, s⟩] := by
  refine shows_item ?_ fun rest => ?_
  · have inId : '<' ∉ id.text.toList := not_mem_id (by decide) (by decide) (by decide) id
    have inKind : '<' ∉ itemKind isTest := by cases isTest <;> decide
    have tag : '<' ∉ id.text.toList ++ (['"'] ++ (itemKind isTest ++ ['>'])) := by
      simp [inId, inKind]
    have whole := (avoids_of_no_tag tag).append (itemless_badge s)
    simpa only [List.append_assoc] using whole
  · simp only [List.append_assoc]
    exact readItem?_written id isTest s rest

theorem shows_test (id : NodeId) (s : Status) :
    Shows ("<li id=\"" ++ escape id.text ++ "\" class=\"test\">" ++ badge s).toList
      [⟨id.text, true, s⟩] := by
  have tag : "\" class=\"test\">".toList = ['"'] ++ (itemKind true ++ ['>']) := by decide
  have start : "<li id=\"".toList = itemStart := rfl
  have opening := shows_opening id true s
  simp only [String.toList_append, escape_id, tag, start, List.append_assoc]
  exact opening

theorem shows_suite (id : NodeId) (s : Status) :
    Shows ("<li id=\"" ++ escape id.text ++ "\">" ++ badge s).toList
      [⟨id.text, false, s⟩] := by
  have tag : "\">".toList = ['"'] ++ (itemKind false ++ ['>']) := by decide
  have start : "<li id=\"".toList = itemStart := rfl
  have opening := shows_opening id false s
  simp only [String.toList_append, escape_id, tag, start, List.append_assoc]
  exact opening

section Texts

variable {a b : String} {items items' : List ShownItem}

theorem Shows.join (ha : Shows a.toList items) (hb : Shows b.toList items') :
    Shows (a ++ b).toList (items ++ items') := by
  rw [String.toList_append]
  exact ha.append hb

/-- Text without items after text with some. -/
theorem Shows.then (ha : Shows a.toList items) (hb : Itemless b) :
    Shows (a ++ b).toList items := by
  rw [← List.append_nil items]
  exact ha.join (shows_of_avoids hb)

/-- Text without items before text with some. -/
theorem Shows.after (hb : Shows b.toList items) (ha : Itemless a) :
    Shows (a ++ b).toList items :=
  (shows_of_avoids ha).join hb

end Texts

theorem itemless_escape (text : String) : Itemless (escape text) :=
  itemless_of_unmarked (unmarked_escape text)

theorem itemless_elapsed (t : Times) : Itemless (elapsed t) := by
  refine .append (.append ?_ (itemless_of_unmarked (unmarked_elapsedTime t))) ?_
  all_goals exact itemless_fixed (by decide)

theorem shows_testItem (t : TestEntry) : Shows (testItem t).toList [t.item.shown] := by
  have opening := shows_test t.id t.test.status
  exact ((opening.then (itemless_escape _)).then (itemless_elapsed _)).then
    (itemless_fixed (by decide))

theorem shows_testItems (ts : List TestEntry) : Shows (String.join (ts.map testItem)).toList
    ((ts.map TestEntry.item).map OutlineItem.shown) := by
  induction ts with
  | nil => exact shows_of_avoids (Text.avoids_nil itemStart)
  | cons t ts ih =>
    rw [List.map_cons, String.join_cons]
    exact (shows_testItem t).join ih

mutual

/-- The items of a suite stand in the text of its item in the order of the outline. -/
theorem shows_suiteItem : ∀ o : Outline, Shows (suiteItem o).toList (o.items.map OutlineItem.shown)
  | .suite id s doc message below tests => by
    have stop : Itemless "</li>\n" := itemless_fixed (by decide)
    have listOpens : Itemless "\n<ul>\n" := itemless_fixed (by decide)
    have listEnds : Itemless "</ul>\n" := itemless_fixed (by decide)
    have own := ((shows_suite id s.status).then (itemless_escape s.record.name)).then
      (itemless_elapsed s.record.times)
    have inside : Shows (if below.isEmpty && tests.isEmpty then ""
        else "\n<ul>\n" ++ suiteItems below ++ String.join (tests.map testItem) ++ "</ul>\n").toList
        ((Outline.itemsOf below ++ tests.map TestEntry.item).map OutlineItem.shown) := by
      split
      · next empty =>
        rw [Bool.and_eq_true, List.isEmpty_iff, List.isEmpty_iff] at empty
        rw [empty.1, empty.2]
        exact shows_of_avoids (Text.avoids_nil itemStart)
      · rw [List.map_append]
        exact ((((shows_suiteItems below).after listOpens).join (shows_testItems tests)).then
          listEnds)
    exact (own.join inside).then stop

theorem shows_suiteItems : ∀ os : List Outline,
    Shows (suiteItems os).toList ((Outline.itemsOf os).map OutlineItem.shown)
  | [] => shows_of_avoids (Text.avoids_nil itemStart)
  | o :: os => by
    rw [suiteItems, Outline.itemsOf, List.map_append]
    exact (shows_suiteItem o).join (shows_suiteItems os)

end

/-! ## Whole pages -/

end Render.Html

end RunReport
