/-!
# Cutting text

Texts are cut at a separator from left to right; pieces keep everything but the separators, so
`n` cuts give `n + 1` pieces. Also here: lines, replacement and padding.
-/

namespace RunReport.Text

/-- Put `c` in front of the first piece. -/
def consPiece (c : Char) : List (List Char) → List (List Char)
  | [] => [[c]]
  | p :: ps => (c :: p) :: ps

/-- `cutFrom sep skip cs` cuts `cs` after dropping its first `skip` characters. -/
def cutFrom (sep : List Char) : Nat → List Char → List (List Char)
  | _, [] => [[]]
  | skip + 1, _ :: cs => cutFrom sep skip cs
  | 0, c :: cs =>
    if sep.isPrefixOf (c :: cs) then [] :: cutFrom sep (sep.length - 1) cs
    else consPiece c (cutFrom sep 0 cs)

/-- Pieces between the leftmost non-overlapping occurrences of `sep`. -/
def cut (sep : List Char) (cs : List Char) : List (List Char) :=
  cutFrom sep 0 cs

/-- What stands before and after the first `sep`. -/
def cutOnce (sep : List Char) : List Char → Option (List Char × List Char)
  | [] => if sep.isEmpty then some ([], []) else none
  | c :: cs =>
    if sep.isPrefixOf (c :: cs) then some ([], (c :: cs).drop sep.length)
    else (cutOnce sep cs).map fun r => (c :: r.1, r.2)

/-- What stands before and after the last `c`. -/
def cutLast (c : Char) (cs : List Char) : Option (List Char × List Char) :=
  (cutOnce [c] cs.reverse).map fun r => (r.2.reverse, r.1.reverse)

def occurs (sep : List Char) (cs : List Char) : Bool :=
  (cutOnce sep cs).isSome

def replace (old new : String) (s : String) : String :=
  new.intercalate ((cut old.toList s.toList).map String.ofList)

/-- The text after `start`, if it begins so. -/
def after? (start cs : List Char) : Option (List Char) :=
  if start.isPrefixOf cs then some (cs.drop start.length) else none

def stripReturn (cs : List Char) : List Char :=
  match cs.reverse with
  | '\r' :: r => r.reverse
  | _ => cs

/-- Lines end at a line feed, which may follow a carriage return; a text that ends in a line feed
has no further empty line. -/
def lines (cs : List Char) : List (List Char) :=
  match (cut ['\n'] cs).reverse with
  | [] => []
  | last :: before =>
    (before.reverse.map stripReturn) ++ (if last.isEmpty then [] else [last])

def padRight (width : Nat) (s : String) : String :=
  s ++ String.ofList (List.replicate (width - s.length) ' ')

def padLeft (width : Nat) (s : String) : String :=
  String.ofList (List.replicate (width - s.length) ' ') ++ s

/-- A number with at least `width` digits. -/
def padZero (width : Nat) (n : Nat) : String :=
  let digits := toString n
  String.ofList (List.replicate (width - digits.length) '0') ++ digits

def times (n : Nat) (s : String) : String :=
  String.join (List.replicate n s)

/-! ## Pieces -/

section Pieces

variable {sep cs a b p : List Char}

theorem cutFrom_eq_drop (sep : List Char) (skip : Nat) (cs : List Char) :
    cutFrom sep skip cs = cutFrom sep 0 (cs.drop skip) := by
  induction skip generalizing cs with
  | zero => rfl
  | succ skip ih =>
    cases cs with
    | nil => rfl
    | cons c cs => simp only [cutFrom, List.drop_succ_cons, ih]

theorem cut_ne_nil (sep cs : List Char) : cut sep cs ≠ [] := by
  cases cs with
  | nil => simp [cut, cutFrom]
  | cons d cs =>
    simp only [cut, cutFrom]
    split
    · simp
    · cases cutFrom sep 0 cs <;> simp [consPiece]

theorem append_of_cutOnce (h : cutOnce sep cs = some (a, b)) : cs = a ++ (sep ++ b) := by
  induction cs generalizing a b with
  | nil =>
    simp only [cutOnce] at h
    split at h
    · rename_i empty
      cases h
      simp [List.isEmpty_iff.1 empty]
    · cases h
  | cons c cs ih =>
    simp only [cutOnce] at h
    split at h
    · rename_i found
      cases h
      obtain ⟨rest, whole⟩ := List.isPrefixOf_iff_prefix.1 found
      simp [← whole]
    · obtain ⟨⟨a', b'⟩, later, same⟩ := Option.map_eq_some_iff.1 h
      cases same
      rw [List.cons_append, ← ih later]

theorem length_of_cutOnce (pos : sep ≠ []) (h : cutOnce sep cs = some (a, b)) :
    a.length < cs.length ∧ b.length < cs.length := by
  have size := congrArg List.length (append_of_cutOnce h)
  have nonempty := List.length_pos_iff.2 pos
  simp only [List.length_append] at size
  omega

/-- A text without the separator is one piece. -/
theorem cut_of_cutOnce_eq_none (h : cutOnce sep cs = none) : cut sep cs = [cs] := by
  induction cs with
  | nil => rfl
  | cons c cs ih =>
    simp only [cutOnce] at h
    split at h
    · cases h
    · rename_i apart
      rw [cut, cutFrom, if_neg apart, ← cut, ih (Option.map_eq_none_iff.1 h)]
      rfl

/-- The first separator ends the first piece. -/
theorem cut_of_cutOnce_eq_some (pos : sep ≠ []) (h : cutOnce sep cs = some (a, b)) :
    cut sep cs = a :: cut sep b := by
  induction cs generalizing a with
  | nil => simp [cutOnce, pos] at h
  | cons c cs ih =>
    simp only [cutOnce] at h
    split at h
    · rename_i found
      cases h
      obtain ⟨d, ds, rfl⟩ := List.exists_cons_of_ne_nil pos
      rw [cut, cutFrom, if_pos found, cutFrom_eq_drop]
      rfl
    · rename_i apart
      obtain ⟨⟨a', b'⟩, later, same⟩ := Option.map_eq_some_iff.1 h
      cases same
      rw [cut, cutFrom, if_neg apart, ← cut, ih later]
      rfl

/-- The pieces of a text, one separator after the other. -/
theorem cut_induct {P : List Char → List (List Char) → Prop} (pos : sep ≠ [])
    (last : ∀ cs, cutOnce sep cs = none → P cs [cs])
    (first : ∀ cs a b, cutOnce sep cs = some (a, b) → P b (cut sep b) → P cs (a :: cut sep b))
    (cs : List Char) : P cs (cut sep cs) := by
  cases h : cutOnce sep cs with
  | none =>
    rw [cut_of_cutOnce_eq_none h]
    exact last cs h
  | some r =>
    obtain ⟨a, b⟩ := r
    have shorter := (length_of_cutOnce pos h).2
    rw [cut_of_cutOnce_eq_some pos h]
    exact first cs a b h (cut_induct pos last first b)
termination_by cs.length

theorem infix_of_mem_cut (pos : sep ≠ []) (h : p ∈ cut sep cs) : p <:+: cs := by
  revert h
  refine cut_induct (P := fun cs ps => p ∈ ps → p <:+: cs) pos ?_ ?_ cs
  · intro cs _ here
    obtain rfl := List.mem_singleton.1 here
    exact List.infix_refl p
  · intro cs a b found later here
    rw [append_of_cutOnce found]
    rcases List.mem_cons.1 here with rfl | below
    · exact (List.prefix_append ..).isInfix
    · have rest : b <:+ a ++ (sep ++ b) :=
        (List.suffix_append sep b).trans (List.suffix_append a _)
      exact (later below).trans rest.isInfix

/-- Where there is a separator every piece is shorter than the text. -/
theorem length_lt_of_mem_cut (pos : sep ≠ []) (found : occurs sep cs = true) (h : p ∈ cut sep cs) :
    p.length < cs.length := by
  obtain ⟨⟨a, b⟩, cutAt⟩ := Option.isSome_iff_exists.1 found
  have shorter := length_of_cutOnce pos cutAt
  rw [cut_of_cutOnce_eq_some pos cutAt] at h
  rcases List.mem_cons.1 h with rfl | below
  · exact shorter.1
  · have within := (infix_of_mem_cut pos below).length_le
    omega

end Pieces

end RunReport.Text
