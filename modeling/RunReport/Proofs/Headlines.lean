import RunReport.Proofs.Gathering
/-!
# The headlines of a console report

A console report has a line for each suite and test: a status, a name and, for a suite, how many
tests passed, for a test, how long it took. Lines with documentation or messages may follow. The
headlines are told from all other lines by the spans that they are made of.
-/

namespace RunReport

/-- What a line of a console report says of a suite or test. -/
structure Headline where
  isTest : Bool
  name : String
  status : Status
  deriving DecidableEq

def OutlineItem.headline (item : OutlineItem) : Headline :=
  ⟨item.isTest, item.name, item.status⟩

namespace Render.Console

/-! ## Reading lines -/

/-- The complete lines of a text; the spans in front belong to the first of them. -/
def linesFrom : (front : List Span) → List Span → List (List Span)
  | _, [] => []
  | front, span :: spans =>
    if span = plain "\n" then front :: linesFrom [] spans else linesFrom (front ++ [span]) spans

def status? (span : Span) : Option Status :=
  [Status.pass, .fail, .notRun].find? fun s => span = statusSpan s

/-- After the indentation a suite has its status, a blank, its name, a blank and its counts, and a
test has its status, its name between blanks and its time. -/
def headline? : List Span → Option Headline
  | [_, status, _, name, _, _] => (status? status).map fun s => ⟨false, name.text, s⟩
  | [_, status, name, _] =>
    (status? status).map fun s => ⟨true, String.ofList (name.text.toList.drop 1).dropLast, s⟩
  | _ => none

/-- The headlines among the lines of a text. -/
def headlines (spans : List Span) : List Headline :=
  (linesFrom [] spans).filterMap headline?

/-! ## Spans inside a line -/

/-- No span ends a line. -/
def Inline (spans : List Span) : Prop :=
  plain "\n" ∉ spans

section Inline

variable {text : String} {spans spans' : List Span}

theorem inline_nil : Inline [] := by
  simp [Inline]

theorem Inline.append (h : Inline spans) (h' : Inline spans') : Inline (spans ++ spans') := by
  rw [Inline, List.mem_append, not_or]
  exact ⟨h, h'⟩

theorem Inline.cons {span : Span} (other : span ≠ plain "\n") (h : Inline spans) :
    Inline (span :: spans) := by
  rw [Inline, List.mem_cons, not_or]
  exact ⟨other.symm, h⟩

theorem Inline.styled {style : Style} (h : Inline spans) :
    Inline (Render.styled style text :: spans) :=
  .cons (by simp [Render.styled, plain]) h

theorem Inline.status {s : Status} (h : Inline spans) : Inline (statusSpan s :: spans) :=
  .cons (by cases s <;> simp [statusSpan, Render.styled, plain]) h

/-- A span with another character than a line feed. -/
theorem Inline.plain {c : Char} (mem : c ∈ text.toList) (other : c ≠ '\n') (h : Inline spans) :
    Inline (Render.plain text :: spans) := by
  refine .cons (fun same => other ?_) h
  have same : text = "\n" := congrArg Span.text same
  rw [same] at mem
  simpa using mem

theorem blank_of_mem_indent {depth : Nat} {c : Char} (mem : c ∈ (Render.indent depth).toList) :
    c = ' ' := by
  rw [Render.indent, Text.times, String.toList_join] at mem
  obtain ⟨unit, copies, mem⟩ := List.mem_flatMap.1 mem
  rw [(List.mem_replicate.1 copies).2] at mem
  simpa using mem

theorem Inline.indent {depth : Nat} (h : Inline spans) :
    Inline (Render.plain (Render.indent depth) :: spans) := by
  refine .cons (fun same => ?_) h
  have same : Render.indent depth = "\n" := congrArg Span.text same
  have feed : '\n' ∈ (Render.indent depth).toList := by
    rw [same]
    decide
  cases blank_of_mem_indent feed

/-- A span with a blank in the first part of its text. -/
theorem Inline.spaced {more : String} (blank : ' ' ∈ text.toList) (h : Inline spans) :
    Inline (Render.plain (text ++ more) :: spans) := by
  refine .plain (c := ' ') ?_ (by decide) h
  rw [String.toList_append]
  exact List.mem_append_left _ blank

end Inline

/-! ## Texts and their headlines -/

/-- The spans add these headlines to whatever follows them. -/
def Heads (spans : List Span) (heads : List Headline) : Prop :=
  ∀ rest, headlines (spans ++ rest) = heads ++ headlines rest

section Heads

variable {spans spans' : List Span} {heads heads' : List Headline}

theorem heads_nil : Heads [] [] :=
  fun _ => rfl

theorem Heads.append (h : Heads spans heads) (h' : Heads spans' heads') :
    Heads (spans ++ spans') (heads ++ heads') := by
  intro rest
  rw [List.append_assoc, h, h', List.append_assoc]

/-- Lines without headlines after others. -/
theorem Heads.then (h : Heads spans heads) (h' : Heads spans' []) :
    Heads (spans ++ spans') heads := by
  rw [← List.append_nil heads]
  exact h.append h'

/-- Lines without headlines before others. -/
theorem Heads.after (h' : Heads spans' heads) (h : Heads spans []) :
    Heads (spans ++ spans') heads :=
  h.append h'

theorem linesFrom_line (inside : Inline spans) (front rest : List Span) :
    linesFrom front (line spans ++ rest) = (front ++ spans) :: linesFrom [] rest := by
  induction spans generalizing front with
  | nil => simp [line, linesFrom]
  | cons span spans ih =>
    rw [Inline, List.mem_cons, not_or] at inside
    have later := ih inside.2 (front ++ [span])
    rw [List.append_assoc, List.singleton_append] at later
    rw [← later]
    exact if_neg (Ne.symm inside.1)

/-- A line has a headline or none. -/
theorem heads_line (inside : Inline spans) : Heads (line spans) (headline? spans).toList := by
  intro rest
  rw [headlines, linesFrom_line inside, List.nil_append, List.filterMap_cons, headlines]
  cases headline? spans <;> rfl

theorem heads_flatMap {α : Type} {f : α → List Span} {g : α → List Headline} {as : List α}
    (each : ∀ a ∈ as, Heads (f a) (g a)) : Heads (as.flatMap f) (as.flatMap g) := by
  induction as with
  | nil => exact heads_nil
  | cons a as ih =>
    exact (each a (by simp)).append (ih fun a' mem => each a' (by simp [mem]))

/-- Lines without headlines, one part after the other. -/
theorem heads_none {α : Type} {f : α → List Span} {as : List α} (each : ∀ a ∈ as, Heads (f a) []) :
    Heads (as.flatMap f) [] := by
  have whole := heads_flatMap (g := fun _ => []) each
  rwa [List.flatMap_eq_nil_iff.2 fun _ _ => rfl] at whole

theorem heads_ite {c : Prop} [Decidable c] (h : Heads spans heads) (h' : Heads spans' heads) :
    Heads (if c then spans else spans') heads := by
  split
  · exact h
  · exact h'

end Heads

/-! ## Suites and tests -/

theorem status?_statusSpan (s : Status) : status? (statusSpan s) = some s := by
  cases s <;> decide

theorem heads_docLine (doc : String) (depth : Nat) : Heads (docLine doc depth) [] :=
  heads_ite heads_nil (heads_line (.indent (.styled inline_nil)))

theorem heads_messageLines (message : String) (depth : Nat) :
    Heads (messageLines message depth) [] :=
  heads_none fun _ _ => heads_line (.indent (.styled (.spaced (by decide) inline_nil)))

theorem headline?_test (indentation time : Span) (name : String) (s : Status) :
    headline? [indentation, statusSpan s, plain (" " ++ name ++ " "), time] =
      some ⟨true, name, s⟩ := by
  have inner : ((" " ++ name ++ " ").toList.drop 1).dropLast = name.toList := by
    simp [String.toList_append]
  simp only [headline?, status?_statusSpan, Option.map_some, plain, inner, String.ofList_toList]

theorem headline?_suite (indentation blank blank' counts : Span) (name : String) (s : Status) :
    headline? [indentation, statusSpan s, blank, bold name, blank', counts] =
      some ⟨false, name, s⟩ := by
  simp only [headline?, status?_statusSpan, Option.map_some, bold, styled]

/-- The line of a test is the only one with a headline among those about it. -/
theorem heads_testLine (t : TestEntry) (depth : Nat) :
    Heads (testLine t depth) [t.item.headline] := by
  have own : Inline [plain (indent depth), statusSpan t.test.status,
      plain (" " ++ t.test.record.name ++ " "), dimmed t.test.record.times.elapsedTime] := by
    rw [String.append_assoc]
    exact .indent (.status (.spaced (by decide) (.styled inline_nil)))
  have first := heads_line own
  rw [headline?_test] at first
  exact first.then (heads_ite (heads_messageLines _ _) heads_nil)

mutual

/-- The headlines of a suite come in the order of the outline. -/
theorem heads_suiteLines (verbose : Bool) : ∀ (depth : Nat) (o : Outline),
    Heads (suiteLines verbose depth o) (o.items.map OutlineItem.headline)
  | depth, .suite id suite doc message below tests => by
    have own : Inline [plain (indent depth), statusSpan suite.status, plain " ",
        bold suite.record.name, plain " ",
        dimmed s!"({suite.record.counts.passed}/{suite.record.counts.total} passed)"] :=
      .indent (.status (.cons (by decide) (.styled (.cons (by decide) (.styled inline_nil)))))
    have first := heads_line own
    rw [headline?_suite] at first
    have documented : Heads (if verbose then docLine doc (depth + 1) else []) [] :=
      heads_ite (heads_docLine _ _) heads_nil
    have entries : Heads (tests.flatMap (testLine · (depth + 1)))
        ((tests.map TestEntry.item).map OutlineItem.headline) := by
      rw [List.map_map, List.map_eq_flatMap]
      exact heads_flatMap fun t _ => heads_testLine t (depth + 1)
    have whole := ((first.then documented).append
      (heads_outlineLines verbose (depth + 1) below)).append entries
    rw [List.append_assoc (some _).toList, ← List.map_append] at whole
    exact whole

theorem heads_outlineLines (verbose : Bool) : ∀ (depth : Nat) (os : List Outline),
    Heads (outlineLines verbose depth os) ((Outline.itemsOf os).map OutlineItem.headline)
  | _, [] => heads_nil
  | depth, o :: os => by
    rw [outlineLines, Outline.itemsOf, List.map_append]
    exact (heads_suiteLines verbose depth o).append (heads_outlineLines verbose depth os)

end

/-! ## Whole reports -/

end Render.Console

end RunReport
