import RunReport.Proofs.Headlines
import RunReport.Proofs.Items
import RunReport.Proofs.Scraping
/-!
# Outlines agree

The page, the console text and the data of a report each have an outline of its suites and tests.
Read back from what was written, all three say the same of the same suites and tests in the same
order: a suite before what it contains, and the tests in the order in which they are listed.
-/

namespace RunReport

namespace Render.Data

open Json (Document)

/-! ## Reading data -/

def status? (name : String) : Option Status :=
  [Status.pass, .fail, .notRun].find? fun s => s.name = name

/-- What the data of a suite or test say of it. -/
def readItem? (isTest : Bool) (d : Document) : Option ShownItem := do
  let id ← d.text? "id"
  let name ← d.text? "status"
  let status ← status? name
  return ⟨id, isTest, status⟩

mutual

/-- A suite, then those in its list of suites with all that they contain, then its tests. -/
def suiteItems? : Document → Option (List ShownItem)
  | .obj fields => do
    let own ← readItem? false (.obj fields)
    let below ← belowItems? fields
    let tests ← (Document.obj fields).list? "tests"
    let entries ← tests.mapM (readItem? true)
    return own :: (below ++ entries)
  | _ => none

/-- What is in the list of suites among the fields. -/
def belowItems? : List (String × Document) → Option (List ShownItem)
  | [] => none
  | (name, .arr ds) :: fields =>
    if name = "suites" then suitesItems? ds else belowItems? fields
  | _ :: fields => belowItems? fields

def suitesItems? : List Document → Option (List ShownItem)
  | [] => some []
  | d :: ds => do
    let first ← suiteItems? d
    let rest ← suitesItems? ds
    return first ++ rest

end

theorem status?_name (s : Status) : status? s.name = some s := by
  cases s <;> rfl

/-- Id and status stand in their fields. -/
theorem readItem?_fields {isTest : Bool} {d : Document} {id : String} {s : Status}
    (idField : d.text? "id" = some id) (statusField : d.text? "status" = some s.name) :
    readItem? isTest d = some ⟨id, isTest, s⟩ := by
  simp only [readItem?, idField, statusField, status?_name, bind, Option.bind_some, pure]

theorem readItem?_test (t : TestEntry) : readItem? true (test t).document = some t.item.shown :=
  readItem?_fields rfl rfl

theorem entries_read (ts : List TestEntry) :
    (Json.documentItems (ts.map test)).mapM (readItem? true) =
      some ((ts.map TestEntry.item).map OutlineItem.shown) := by
  rw [Json.documentItems_map]
  induction ts with
  | nil => rfl
  | cons t ts ih => simp [List.mapM_cons, readItem?_test, ih]

mutual

/-- The data of a suite say of it and of all below it what the outline says. -/
theorem suiteItems?_suite : ∀ o : Outline,
    suiteItems? (suite o).document = some (o.items.map OutlineItem.shown)
  | .suite id s doc message below tests => by
    have own : readItem? false (suite (.suite id s doc message below tests)).document =
        some ⟨id.text, false, s.status⟩ := readItem?_fields rfl rfl
    obtain ⟨fields, object, inside⟩ : ∃ fields,
        (suite (.suite id s doc message below tests)).document = .obj fields ∧
          belowItems? fields = suitesItems? (Json.documentItems (suites below)) := ⟨_, rfl, rfl⟩
    have listed : (suite (.suite id s doc message below tests)).document.list? "tests" =
        some (Json.documentItems (tests.map test)) := rfl
    rw [object] at own listed ⊢
    simp only [suiteItems?, own, inside, listed, suitesItems?_suites below, entries_read tests,
      bind, Option.bind_some, pure, Outline.items, List.map_cons, List.map_append]
    rfl

theorem suitesItems?_suites : ∀ os : List Outline,
    suitesItems? (Json.documentItems (suites os)) =
      some ((Outline.itemsOf os).map OutlineItem.shown)
  | [] => rfl
  | o :: os => by
    rw [suites, Json.documentItems, suitesItems?, suiteItems?_suite o, suitesItems?_suites os,
      Outline.itemsOf, List.map_append]
    rfl

end

end Render.Data

namespace Session

open Effects

variable {s s' : Session}

/-! ## Whole reports -/

/-- The report can be rendered, as a page, as text or as data. -/
def Renders (s : Session) : Prop :=
  (∃ combined text t, (pageReport combined).run s = (.ok text, t)) ∨
  (∃ o combined text t, (consoleReport o combined).run s = (.ok text, t)) ∨
  ∃ pretty combined text t, (dataReport pretty combined).run s = (.ok text, t)

theorem Renders.told (h : s.Consistent) (renders : s.Renders) : ∃ os, Told s.source os := by
  rcases renders with ⟨_, _, _, run⟩ | ⟨_, _, _, _, run⟩ | ⟨_, _, _, _, run⟩
  · obtain ⟨page, -, told⟩ := pageReport_told h run
    exact ⟨_, told⟩
  · obtain ⟨view, -, -, told⟩ := consoleReport_told h run
    exact ⟨_, told⟩
  · obtain ⟨content, o, -, -, told⟩ := dataReport_told h run
    exact ⟨_, told⟩

end Session

end RunReport
