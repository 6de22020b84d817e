import RunReport.Query.Regex
/-!
# What an expression takes

An expression takes a piece of a text when the piece can be cut into parts, one for each item: nothing
at the ends of the text, one character, or a run of characters. It is found in a text when it takes
some piece of it, wherever the piece begins and ends. The search goes through the items from the last
one, and keeps for each place of the text whether what it has gone through may begin there.
-/

namespace RunReport.Query

/-- What an item takes: the piece between what stands before it and after it. -/
inductive Item.Takes : Item → (before piece after : List Char) → Prop where
  | start (after : List Char) : Takes .start [] [] after
  | finish (before : List Char) : Takes .finish before [] []
  | one {a : Atom} {c : Char} (accepted : a.takes c = true) (before after : List Char) :
      Takes (.one a) before [c] after
  | many {a : Atom} {run : List Char} (accepted : ∀ c ∈ run, a.takes c = true)
      (before after : List Char) : Takes (.many a) before run after

/-- Each item takes a part of the piece, in order. -/
inductive Regex.Takes : Regex → (before piece after : List Char) → Prop where
  | nil (before after : List Char) : Takes [] before [] after
  | cons {item : Item} {items : Regex} {before first later after : List Char}
      (here : item.Takes before first (later ++ after))
      (rest : Takes items (before ++ first) later after) :
      Takes (item :: items) before (first ++ later) after

/-- The expression takes some piece of the text. -/
def Regex.Finds (r : Regex) (text : List Char) : Prop :=
  ∃ before piece after, text = before ++ piece ++ after ∧ r.Takes before piece after

/-- The expression takes a piece that begins between the two. -/
def Regex.Begins (r : Regex) (before rest : List Char) : Prop :=
  ∃ piece after, rest = piece ++ after ∧ r.Takes before piece after

section Begins

variable {r : Regex} {a : Atom} {before rest : List Char}

theorem begins_nil : Regex.Begins [] before rest :=
  ⟨[], rest, rfl, .nil before rest⟩

theorem begins_cons {item : Item} : Regex.Begins (item :: r) before rest ↔
    ∃ first rest', rest = first ++ rest' ∧ item.Takes before first rest' ∧
      r.Begins (before ++ first) rest' := by
  constructor
  · rintro ⟨piece, after, rfl, taken⟩
    cases taken with
    | cons here later => exact ⟨_, _, List.append_assoc .., here, _, after, rfl, later⟩
  · rintro ⟨first, _, rfl, here, later, after, rfl, taken⟩
    exact ⟨first ++ later, after, (List.append_assoc ..).symm, .cons here taken⟩

theorem begins_start : Regex.Begins (.start :: r) before rest ↔ before = [] ∧ r.Begins before rest := by
  rw [begins_cons]
  constructor
  · rintro ⟨_, _, rfl, ⟨⟩, later⟩
    exact ⟨rfl, later⟩
  · rintro ⟨rfl, later⟩
    exact ⟨[], rest, rfl, .start rest, later⟩

theorem begins_finish : Regex.Begins (.finish :: r) before rest ↔ rest = [] ∧ r.Begins before rest := by
  rw [begins_cons]
  constructor
  · rintro ⟨_, _, rfl, ⟨⟩, later⟩
    exact ⟨rfl, by simpa using later⟩
  · rintro ⟨rfl, later⟩
    exact ⟨[], [], rfl, .finish before, by simpa using later⟩

theorem begins_one : Regex.Begins (.one a :: r) before rest ↔
    ∃ c rest', rest = c :: rest' ∧ a.takes c = true ∧ r.Begins (before ++ [c]) rest' := by
  rw [begins_cons]
  constructor
  · rintro ⟨_, rest', rfl, ⟨⟩, later⟩
    exact ⟨_, rest', rfl, ‹_›, later⟩
  · rintro ⟨c, rest', rfl, accepted, later⟩
    exact ⟨[c], rest', rfl, .one accepted before rest', later⟩

theorem begins_many : Regex.Begins (.many a :: r) before rest ↔
    ∃ run rest', rest = run ++ rest' ∧ (∀ c ∈ run, a.takes c = true) ∧
      r.Begins (before ++ run) rest' := by
  rw [begins_cons]
  constructor
  · rintro ⟨run, rest', rfl, ⟨⟩, later⟩
    exact ⟨run, rest', rfl, ‹_›, later⟩
  · rintro ⟨run, rest', rfl, accepted, later⟩
    exact ⟨run, rest', rfl, .many accepted before rest', later⟩

end Begins

/-! ## Flags for the places -/

/-- There is a flag for each place from here to the end of the text, and it says whether `P` holds of
what stands before the place and after it. -/
def Flagged (P : List Char → List Char → Prop) : (before rest : List Char) → List Bool → Prop
  | before, [], flags => ∃ flag, flags = [flag] ∧ (flag = true ↔ P before [])
  | before, c :: cs, flags =>
    ∃ flag later, flags = flag :: later ∧ (flag = true ↔ P before (c :: cs)) ∧
      Flagged P (before ++ [c]) cs later

section Flagged

variable {P Q : List Char → List Char → Prop} {before rest : List Char} {flags : List Bool}

/-- The first flag is that of the place itself. -/
theorem Flagged.head (h : Flagged P before rest flags) :
    ∃ flag later, flags = flag :: later ∧ (flag = true ↔ P before rest) := by
  cases rest with
  | nil =>
    obtain ⟨flag, rfl, here⟩ := h
    exact ⟨flag, [], rfl, here⟩
  | cons c cs =>
    obtain ⟨flag, later, rfl, here, -⟩ := h
    exact ⟨flag, later, rfl, here⟩

theorem Flagged.congr (h : Flagged P before rest flags) (same : ∀ b t, P b t ↔ Q b t) :
    Flagged Q before rest flags := by
  induction rest generalizing before flags with
  | nil =>
    obtain ⟨flag, rfl, here⟩ := h
    exact ⟨flag, rfl, here.trans (same before [])⟩
  | cons c cs ih =>
    obtain ⟨flag, later, rfl, here, below⟩ := h
    exact ⟨flag, later, rfl, here.trans (same before _), ih below⟩

theorem flagged_always (always : ∀ b t, P b t) :
    Flagged P before rest (true :: rest.map fun _ => true) := by
  induction rest generalizing before with
  | nil => exact ⟨true, rfl, by simp [always]⟩
  | cons c cs ih => exact ⟨true, _, rfl, by simp [always], ih⟩

/-- No later place is the first one. -/
theorem Flagged.notFirst (h : Flagged P before rest flags) (later : before ≠ []) :
    Flagged (fun b t => b = [] ∧ P b t) before rest (flags.map fun _ => false) := by
  induction rest generalizing before flags with
  | nil =>
    obtain ⟨flag, rfl, -⟩ := h
    exact ⟨false, rfl, by simp [later]⟩
  | cons c cs ih =>
    obtain ⟨flag, others, rfl, -, below⟩ := h
    exact ⟨false, _, rfl, by simp [later], ih below (by simp)⟩

theorem Flagged.first (h : Flagged P [] rest flags) :
    Flagged (fun b t => b = [] ∧ P b t) [] rest (firstFlag flags) := by
  cases rest with
  | nil =>
    obtain ⟨flag, rfl, here⟩ := h
    exact ⟨flag, rfl, by simpa using here⟩
  | cons c cs =>
    obtain ⟨flag, later, rfl, here, below⟩ := h
    exact ⟨flag, _, rfl, by simpa using here, below.notFirst (by simp)⟩

theorem Flagged.last (h : Flagged P before rest flags) :
    Flagged (fun b t => t = [] ∧ P b t) before rest (lastFlag flags) := by
  induction rest generalizing before flags with
  | nil =>
    obtain ⟨flag, rfl, here⟩ := h
    exact ⟨flag, rfl, by simpa using here⟩
  | cons c cs ih =>
    obtain ⟨flag, later, rfl, -, below⟩ := h
    obtain ⟨next, others, rfl, -⟩ := below.head
    exact ⟨false, _, rfl, by simp, ih below⟩

theorem Flagged.step (h : Flagged P before rest flags) (accepts : Char → Bool) :
    Flagged (fun b t => ∃ c t', t = c :: t' ∧ accepts c = true ∧ P (b ++ [c]) t') before rest
      (stepFlags accepts rest flags) := by
  induction rest generalizing before flags with
  | nil => exact ⟨false, rfl, by simp⟩
  | cons c cs ih =>
    obtain ⟨flag, later, rfl, -, below⟩ := h
    obtain ⟨next, others, rfl, there⟩ := below.head
    refine ⟨accepts c && next, _, rfl, ?_, ih below⟩
    rw [Bool.and_eq_true, there]
    constructor
    · rintro ⟨accepted, holds⟩
      exact ⟨c, cs, rfl, accepted, holds⟩
    · rintro ⟨_, _, ⟨⟩, accepted, holds⟩
      exact ⟨accepted, holds⟩

theorem Flagged.run (h : Flagged P before rest flags) (accepts : Char → Bool) :
    Flagged (fun b t => ∃ run t', t = run ++ t' ∧ (∀ c ∈ run, accepts c = true) ∧ P (b ++ run) t')
      before rest (runFlags accepts rest flags) := by
  induction rest generalizing before flags with
  | nil =>
    obtain ⟨flag, rfl, here⟩ := h
    refine ⟨flag, rfl, here.trans ⟨fun holds => ⟨[], [], rfl, by simp, by simpa using holds⟩, ?_⟩⟩
    rintro ⟨run, t', none, -, holds⟩
    obtain ⟨rfl, rfl⟩ := List.append_eq_nil_iff.1 none.symm
    simpa using holds
  | cons c cs ih =>
    obtain ⟨flag, later, rfl, here, below⟩ := h
    have tail := ih below
    obtain ⟨next, others, shape, there⟩ := tail.head
    refine ⟨flag || (accepts c && next), runFlags accepts cs later, ?_, ?_, tail⟩
    · simp [runFlags, shape]
    · -- A run is empty, or it begins with the next character.
      rw [Bool.or_eq_true, Bool.and_eq_true, here, there]
      constructor
      · rintro (holds | ⟨accepted, run, t', rfl, all, holds⟩)
        · exact ⟨[], c :: cs, rfl, by simp, by simpa using holds⟩
        · exact ⟨c :: run, t', rfl, List.forall_mem_cons.2 ⟨accepted, all⟩, by simpa using holds⟩
      · rintro ⟨run, t', same, all, holds⟩
        cases run with
        | nil =>
          rw [List.nil_append] at same
          subst same
          exact .inl (by simpa using holds)
        | cons d ds =>
          obtain ⟨rfl, rfl⟩ := List.cons.inj same
          obtain ⟨accepted, all⟩ := List.forall_mem_cons.1 all
          exact .inr ⟨accepted, ds, t', rfl, all, by simpa using holds⟩

/-- Some flag is set exactly when `P` holds at some place. -/
theorem Flagged.any (h : Flagged P before rest flags) :
    flags.any id = true ↔ ∃ passed left, rest = passed ++ left ∧ P (before ++ passed) left := by
  induction rest generalizing before flags with
  | nil =>
    obtain ⟨flag, rfl, here⟩ := h
    simp only [List.any_cons, List.any_nil, Bool.or_false, id, here, List.nil_eq_append_iff]
    constructor
    · exact fun holds => ⟨[], [], ⟨rfl, rfl⟩, by simpa using holds⟩
    · rintro ⟨_, _, ⟨rfl, rfl⟩, holds⟩
      simpa using holds
  | cons c cs ih =>
    obtain ⟨flag, later, rfl, here, below⟩ := h
    rw [List.any_cons, Bool.or_eq_true, id, here, ih below]
    constructor
    · rintro (holds | ⟨passed, left, rfl, holds⟩)
      · exact ⟨[], c :: cs, rfl, by simpa using holds⟩
      · exact ⟨c :: passed, left, rfl, by simpa using holds⟩
    · rintro ⟨passed, left, same, holds⟩
      cases passed with
      | nil =>
        rw [List.nil_append] at same
        subst same
        exact .inl (by simpa using holds)
      | cons d ds =>
        obtain ⟨rfl, rfl⟩ := List.cons.inj same
        exact .inr ⟨ds, left, rfl, by simpa using holds⟩

end Flagged

/-- The flags say at which places the expression may begin. -/
theorem flagged_flags (text : List Char) (r : Regex) :
    Flagged r.Begins [] text (r.flags text) := by
  induction r with
  | nil => exact flagged_always fun _ _ => begins_nil
  | cons item items ih =>
    cases item with
    | start => exact ih.first.congr fun _ _ => begins_start.symm
    | finish => exact ih.last.congr fun _ _ => begins_finish.symm
    | one a => exact (ih.step a.takes).congr fun _ _ => begins_one.symm
    | many a => exact (ih.run a.takes).congr fun _ _ => begins_many.symm

theorem search_iff_finds (r : Regex) (text : List Char) : r.search text = true ↔ r.Finds text := by
  rw [Regex.search, (flagged_flags text r).any]
  constructor
  · rintro ⟨before, _, rfl, piece, after, rfl, taken⟩
    exact ⟨before, piece, after, (List.append_assoc ..).symm, taken⟩
  · rintro ⟨before, piece, after, rfl, taken⟩
    exact ⟨before, piece ++ after, List.append_assoc .., piece, after, rfl, taken⟩

/-! ## Engines -/

namespace Engine

/-- The engine searches as expressions are meant: it finds what it has made of one that can be read
here in the texts in which the expression is found. -/
def Standard (engine : Engine) : Prop :=
  ∀ ⦃source compiled⦄, engine.compile source = some compiled → ∀ ⦃regex⦄, parse source = some regex →
    ∀ text, engine.isMatch compiled text = true ↔ regex.Finds text

theorem standard_isStandard : Engine.standard.Standard := by
  intro source compiled accepted regex read text
  have same : compiled = regex := by
    obtain ⟨kept, -⟩ := Option.filter_eq_some_iff.1 accepted
    exact Option.some.inj (kept.symm.trans read)
  subst same
  exact search_iff_finds compiled text

end Engine

end RunReport.Query
