import RunReport.Proofs.Cutting
import RunReport.Proofs.Embedding
import RunReport.Render.Console
/-!
# Colors only add escape sequences

A styled span stands between two escape sequences. Where the text of no span has an escape
character, these sequences are all there are, so without them a painted text is the plain one.
-/

namespace RunReport.Render

/-! ## Escape sequences -/

/-- What every escape sequence begins with. -/
def escapeStart : List Char := "\x1b[".toList

/-- What follows an escape sequence in a piece of text that begins inside one. -/
def afterEscape (piece : List Char) : List Char :=
  match Text.cutOnce ['m'] piece with
  | some (_, rest) => rest
  | none => escapeStart ++ piece

/-- The characters that are no part of an escape sequence. -/
def visible (cs : List Char) : List Char :=
  match Text.cut escapeStart cs with
  | [] => []
  | first :: later => first ++ later.flatMap afterEscape

/-- The text without escape sequences, each from `ESC[` to the next `m`. -/
def withoutEscapes (text : String) : String :=
  String.ofList (visible text.toList)

/-- No text has an escape character. -/
def Unescaped (texts : List String) : Prop :=
  ∀ text ∈ texts, '\x1b' ∉ text.toList

/-- A cut at the beginnings of the sequences finds none of them in text without escape characters. -/
theorem cut_escapeStart_append {a : List Char} (free : '\x1b' ∉ a) (b : List Char) :
    ∃ first later, Text.cut escapeStart b = first :: later ∧
      Text.cut escapeStart (a ++ b) = (a ++ first) :: later := by
  have avoids : Text.Avoids escapeStart a := Text.avoids_of_not_mem free
  exact Text.cut_append (by decide) avoids b

theorem visible_append {a : List Char} (free : '\x1b' ∉ a) (b : List Char) :
    visible (a ++ b) = a ++ visible b := by
  obtain ⟨first, later, whole, longer⟩ := cut_escapeStart_append free b
  simp only [visible, whole, longer, List.append_assoc]

/-- An escape sequence is not seen. -/
theorem visible_sequence {codes : List Char} (free : '\x1b' ∉ codes) (inside : 'm' ∉ codes)
    (b : List Char) : visible (escapeStart ++ (codes ++ 'm' :: b)) = visible b := by
  have free : '\x1b' ∉ codes ++ ['m'] := by simpa using free
  obtain ⟨first, later, whole, longer⟩ := cut_escapeStart_append free b
  simp only [List.append_assoc, List.singleton_append] at longer
  have rest : afterEscape (codes ++ 'm' :: first) = first := by
    have cut : Text.cutOnce ['m'] (codes ++ 'm' :: first) = some (codes, first) :=
      Text.cutOnce_char inside
    rw [afterEscape, cut]
  rw [visible, Text.cut_sep (by decide), longer]
  simp only [visible, whole, List.flatMap_cons, rest, List.nil_append]

theorem toList_opening (style : Style) :
    style.opening.toList = escapeStart ++ (style.codes.toList ++ ['m']) := by
  simp only [Style.opening, String.toList_append, escapeStart, List.append_assoc]
  rfl

theorem visible_opening (style : Style) (b : List Char) :
    visible (style.opening.toList ++ b) = visible b := by
  have free : '\x1b' ∉ style.codes.toList := by cases style <;> decide
  have inside : 'm' ∉ style.codes.toList := by cases style <;> decide
  simpa [toList_opening] using visible_sequence free inside b

theorem visible_reset (b : List Char) : visible (reset.toList ++ b) = visible b := by
  have free : '\x1b' ∉ ['0'] := by decide
  exact visible_sequence free (by decide) b

/-- Nothing ends all styles inside a text without escape sequences. -/
theorem replace_reset {text : String} (free : '\x1b' ∉ text.toList) (new : String) :
    Text.replace reset new text = text := by
  have none : Text.occurs reset.toList text.toList = false := by
    rw [Bool.eq_false_iff, Ne, Text.occurs_iff]
    exact fun inside => free (inside.subset (by decide))
  apply String.toList_injective
  rw [Text.toList_replace, Text.cut_of_not_occurs none]
  simp

/-- No span has an escape character in its text. -/
def Clean (spans : List Span) : Prop :=
  ∀ span ∈ spans, '\x1b' ∉ span.text.toList

theorem visible_paint {spans : List Span} (clean : Clean spans) :
    visible (paint true spans).toList = (paint false spans).toList := by
  induction spans with
  | nil => rfl
  | cons span spans ih =>
    obtain ⟨here, clean⟩ := List.forall_mem_cons.1 clean
    have cons : ∀ colors, (paint colors (span :: spans)).toList =
        (span.paint colors).toList ++ (paint colors spans).toList := by
      intro colors
      simp [paint]
    have own : ∀ b, visible ((span.paint true).toList ++ b) =
        (span.paint false).toList ++ visible b := by
      intro b
      cases style : span.style with
      | none => simpa only [Span.paint, style] using visible_append here b
      | some style' =>
        simp only [Span.paint, style, if_true, if_false, Bool.false_eq_true, replace_reset here,
          String.toList_append, List.append_assoc, visible_opening, visible_append here,
          visible_reset]
    rw [cons, cons, own, ih clean]

/-- Without its escape sequences a painted text is the plain one. -/
theorem withoutEscapes_paint {spans : List Span} (clean : Clean spans) :
    withoutEscapes (paint true spans) = paint false spans := by
  rw [withoutEscapes, visible_paint clean, String.ofList_toList]

example : paint true [styled .boldRed "b", plain "c"] = "\x1b[1;31mb\x1b[0mc" ∧
    withoutEscapes "\x1b[1;31mb\x1b[0mc" = "bc" := by decide

/-! ## Clean spans -/

section Clean

variable {xs ys : List Span} {x : Span} {α : Type}

@[simp] theorem clean_nil : Clean [] :=
  fun span h => by cases h

@[simp] theorem clean_cons : Clean (x :: ys) ↔ '\x1b' ∉ x.text.toList ∧ Clean ys :=
  List.forall_mem_cons

@[simp] theorem clean_append : Clean (xs ++ ys) ↔ Clean xs ∧ Clean ys :=
  List.forall_mem_append

@[simp] theorem clean_line : Clean (line xs) ↔ Clean xs := by
  simp [line, plain]

@[simp] theorem clean_flatMap {as : List α} {f : α → List Span} :
    Clean (as.flatMap f) ↔ ∀ a ∈ as, Clean (f a) := by
  simp only [Clean, List.mem_flatMap]
  exact ⟨fun h a ha span hs => h span ⟨a, ha, hs⟩, fun h span ⟨a, ha, hs⟩ => h a ha span hs⟩

@[simp] theorem plain_text (text : String) : (plain text).text = text :=
  rfl

@[simp] theorem styled_text (style : Style) (text : String) : (styled style text).text = text :=
  rfl

end Clean

/-! ## Text without escape characters -/

section Unescaped

variable {t : String} {ts us : List String} {α : Type}

@[simp] theorem unescaped_nil : Unescaped [] :=
  fun text h => by cases h

@[simp] theorem unescaped_cons : Unescaped (t :: ts) ↔ '\x1b' ∉ t.toList ∧ Unescaped ts :=
  List.forall_mem_cons

@[simp] theorem unescaped_append : Unescaped (ts ++ us) ↔ Unescaped ts ∧ Unescaped us :=
  List.forall_mem_append

@[simp] theorem unescaped_flatMap {as : List α} {f : α → List String} :
    Unescaped (as.flatMap f) ↔ ∀ a ∈ as, Unescaped (f a) := by
  simp only [Unescaped, List.mem_flatMap]
  exact ⟨fun h a ha text ht => h text ⟨a, ha, ht⟩, fun h text ⟨a, ha, ht⟩ => h a ha text ht⟩

theorem unescaped_toList {t : Option String} :
    Unescaped t.toList ↔ ∀ text, t = some text → '\x1b' ∉ text.toList := by
  cases t <;> simp

@[simp] theorem toString_text (text : String) : toString text = text :=
  rfl

@[simp] theorem escape_not_mem_digits (n : Nat) : '\x1b' ∉ Nat.toDigits 10 n := by
  simpa using not_mem_natural (c := '\x1b') (by decide) n

@[simp] theorem escape_not_mem_padZero (width n : Nat) : '\x1b' ∉ (Text.padZero width n).toList :=
  not_mem_padZero (by decide) width n

@[simp] theorem escape_mem_padRight (width : Nat) (text : String) :
    '\x1b' ∈ (Text.padRight width text).toList ↔ '\x1b' ∈ text.toList := by
  simp [Text.padRight]

@[simp] theorem escape_mem_padLeft (width : Nat) (text : String) :
    '\x1b' ∈ (Text.padLeft width text).toList ↔ '\x1b' ∈ text.toList := by
  simp [Text.padLeft]

theorem escape_not_mem_times (n : Nat) (h : '\x1b' ∉ t.toList) :
    '\x1b' ∉ (Text.times n t).toList := by
  simp [Text.times, h]

@[simp] theorem escape_not_mem_indent (depth : Nat) : '\x1b' ∉ (indent depth).toList :=
  escape_not_mem_times depth (by decide)

@[simp] theorem escape_not_mem_elapsedTime (t : Times) : '\x1b' ∉ t.elapsedTime.toList :=
  not_mem_elapsedTime (by decide) (by decide) (by decide) t

@[simp] theorem escape_not_mem_showTenths (n : Nat) : '\x1b' ∉ (Json.showTenths n).toList :=
  not_mem_showTenths (by decide) (by decide) n

theorem escape_not_mem_instant (t : Instant) : '\x1b' ∉ t.showTime.toList := by
  simp [Instant.showTime, Instant.clock]

theorem escape_not_mem_showDate (t : Instant) : '\x1b' ∉ t.showDate.toList := by
  simp only [Instant.showDate, Calendar.showYear]
  split
  · simp
  · split <;> simp

@[simp] theorem escape_not_mem_showTime (t : Option Instant) :
    '\x1b' ∉ (Times.showTime t).toList := by
  cases t with
  | none => decide
  | some t => exact escape_not_mem_instant t

@[simp] theorem escape_not_mem_showDateTime (t : Option Instant) :
    '\x1b' ∉ (Times.showDateTime t).toList := by
  cases t with
  | none => decide
  | some t =>
    change '\x1b' ∉ (t.showDate ++ " " ++ t.showTime).toList
    simp [escape_not_mem_showDate, escape_not_mem_instant]

@[simp] theorem escape_not_mem_id (id : NodeId) : '\x1b' ∉ id.text.toList := by
  cases id with
  | message n => simp [NodeId.text, NodeId.messageStart]
  | branch r =>
    rw [NodeId.text]
    induction r with
    | root => decide
    | child owner step ih =>
      obtain ⟨branch, index⟩ := step
      cases branch <;> simp [Route.text, ih, Segment.text, Branch.letter]

theorem escape_not_mem_intercalate {sep : String} (free : '\x1b' ∉ sep.toList) (h : Unescaped ts) :
    '\x1b' ∉ (sep.intercalate ts).toList := by
  induction ts with
  | nil => simp
  | cons t ts ih =>
    rw [unescaped_cons] at h
    cases ts with
    | nil => simpa using h.1
    | cons u us =>
      have rest := ih h.2
      simp only [String.toList_intercalate, List.map_cons] at rest ⊢
      simp only [List.intercalate_cons_cons, List.mem_append, not_or]
      exact ⟨⟨h.1, free⟩, rest⟩

end Unescaped

end RunReport.Render
