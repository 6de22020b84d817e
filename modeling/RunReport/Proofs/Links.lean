import RunReport.Proofs.Cutting
import RunReport.Statistics.Table
/-!
# Links that are read back

Three colons divide one link from the next and a single one divides a title from its address, while
addresses have colons of their own. A division can still begin nowhere but after a link, if no address
has three colons in a row, begins with two or ends with one.
-/

namespace RunReport

namespace Text

variable {sep cs p : List Char} {ps : List (List Char)}

/-- Text without a separator cannot begin one either when its last character is in none. -/
theorem avoids_of_last {d : Char} (none : ¬sep <:+: cs ++ [d]) (last : d ∉ sep) :
    Avoids sep (cs ++ [d]) := by
  have apart : ∀ {a : List Char}, ¬sep <:+: a ++ [d] → ∀ rest, ¬sep <+: a ++ [d] ++ rest := by
    intro a none rest found
    rcases List.prefix_or_prefix_of_prefix found (List.prefix_append (a ++ [d]) rest) with
      within | beyond
    · exact none within.isInfix
    · exact last (beyond.subset (by simp))
  induction cs with
  | nil => exact avoids_cons (apart (a := []) none) (avoids_nil sep)
  | cons c cs ih =>
    refine avoids_cons (apart (a := c :: cs) none) (ih fun inside => none ?_)
    exact inside.trans (List.suffix_cons c (cs ++ [d])).isInfix

/-- Pieces that cannot begin a separator are what their text is cut into. -/
theorem cut_intercalate (pos : sep ≠ []) (free : ∀ q ∈ p :: ps, Avoids sep q) :
    cut sep (sep.intercalate (p :: ps)) = p :: ps := by
  induction ps generalizing p with
  | nil =>
    have none : cutOnce sep [] = none := by simp [cutOnce, pos]
    have whole := free p List.mem_cons_self []
    rw [none, Option.map_none, List.append_nil] at whole
    rw [List.intercalate_singleton]
    exact cut_of_cutOnce_eq_none whole
  | cons q qs ih =>
    rw [List.forall_mem_cons] at free
    rw [List.intercalate_cons_cons, List.append_assoc,
      cut_of_cutOnce_eq_some pos (cutOnce_append_sep pos free.1), ih free.2]

end Text

/-- A link as it is written. -/
def Link.text (l : Link) : String :=
  l.title ++ ":" ++ l.url

/-- The colons of a link cannot be taken for those between links. -/
structure Link.Legible (l : Link) : Prop where
  title : ':' ∉ l.title.toList
  nonempty : l.url ≠ ""
  within : ¬":::".toList <:+: l.url.toList
  begins : ¬"::".toList <+: l.url.toList
  ends : ¬":".toList <:+ l.url.toList

variable {l : Link}

theorem Link.toList_text (l : Link) : l.text.toList = l.title.toList ++ (':' :: l.url.toList) := by
  rw [text, String.toList_append, String.toList_append, List.append_assoc]
  rfl

namespace Link.Legible

theorem url_eq (h : l.Legible) : ∃ cs d, l.url.toList = cs ++ [d] ∧ d ≠ ':' := by
  have nonempty : l.url.toList ≠ [] := fun empty => h.nonempty (String.toList_eq_nil_iff.1 empty)
  refine ⟨_, _, (List.dropLast_append_getLast nonempty).symm, fun colon => h.ends ?_⟩
  refine ⟨l.url.toList.dropLast, ?_⟩
  have last := List.dropLast_append_getLast nonempty
  rwa [colon] at last

/-- No division begins in a link, whatever stands after it. -/
theorem avoids (h : l.Legible) : Text.Avoids ":::".toList l.text.toList := by
  obtain ⟨cs, d, url, other⟩ := h.url_eq
  have address : Text.Avoids ":::".toList l.url.toList := by
    have within := h.within
    rw [url] at within ⊢
    exact Text.avoids_of_last within (by simpa using other)
  rw [Link.toList_text]
  refine (Text.avoids_of_not_mem h.title).append (Text.avoids_cons (fun rest found => ?_) address)
  -- The colon after the title would need two more, and the address does not begin so.
  have two : "::".toList <+: l.url.toList ++ rest := (List.cons_prefix_cons.1 found).2
  have begins := h.begins
  rw [url] at two begins
  rcases List.prefix_or_prefix_of_prefix two (List.prefix_append (cs ++ [d]) rest) with
    within | beyond
  · exact begins within
  · have colon : d ∈ "::".toList := beyond.subset (by simp)
    exact other (by simpa using colon)

theorem parseLink_text (h : l.Legible) : Statistics.parseLink l.text.toList = l := by
  rw [Link.toList_text, Statistics.parseLink]
  have first := Text.cutOnce_char (b := l.url.toList) h.title
  rw [List.singleton_append] at first
  simp only [first, String.ofList_toList]

end Link.Legible

namespace Statistics

/-- Links that are written one after the other are read back, with all colons of their addresses. -/
theorem parseLinks_intercalate {links : List Link} (legible : ∀ l ∈ links, l.Legible) :
    parseLinks (some (":::".intercalate (links.map Link.text))) = links := by
  cases links with
  | nil => rfl
  | cons l ls =>
    have free : ∀ q ∈ (l :: ls).map (·.text.toList), Text.Avoids ":::".toList q := by
      intro q mem
      obtain ⟨m, hm, rfl⟩ := List.mem_map.1 mem
      exact (legible m hm).avoids
    have chars : (":::".intercalate ((l :: ls).map Link.text)).toList =
        ":::".toList.intercalate ((l :: ls).map (·.text.toList)) := by
      rw [String.toList_intercalate, List.map_map]
      rfl
    have pieces : Text.cut ":::".toList (":::".intercalate ((l :: ls).map Link.text)).toList =
        (l :: ls).map (·.text.toList) := by
      rw [chars]
      exact Text.cut_intercalate (by decide) free
    have written : (":::".intercalate ((l :: ls).map Link.text)).isEmpty = false := by
      rw [Bool.eq_false_iff, Ne, String.isEmpty_iff]
      intro empty
      rw [empty] at pieces
      have first : [] = l.text.toList := (List.cons.inj pieces).1
      rw [Link.toList_text] at first
      exact List.append_ne_nil_of_right_ne_nil _ (List.cons_ne_nil _ _) first.symm
    rw [parseLinks, written, if_neg Bool.false_ne_true, pieces, List.map_map]
    calc (l :: ls).map (parseLink ∘ (·.text.toList))
        = (l :: ls).map id := List.map_congr_left fun m hm => (legible m hm).parseLink_text
      _ = l :: ls := List.map_id _

/-- One title is empty, and one address begins with a colon and has two more in a row. -/
def sampleLinks : List Link :=
  [⟨"docs", "http://example.com:80/a::b"⟩, ⟨"", ":c::d"⟩]

theorem parseLinks_intercalate_sample : (∀ l ∈ sampleLinks, l.Legible) ∧
    parseLinks (some "docs:http://example.com:80/a::b:::::c::d") = sampleLinks := by
  have legible : ∀ l ∈ sampleLinks, l.Legible := by
    simp only [sampleLinks, List.forall_mem_cons]
    exact ⟨⟨by decide, by decide, by decide, by decide, by decide⟩,
      ⟨by decide, by decide, by decide, by decide, by decide⟩, by simp⟩
  have written : ":::".intercalate (sampleLinks.map Link.text) =
      "docs:http://example.com:80/a::b:::::c::d" := by decide
  exact ⟨legible, written ▸ parseLinks_intercalate legible⟩

end Statistics

end RunReport
