import RunReport.Proofs.Source
/-!
# Walking down a path

What a path leads to, as far as the files that are there tell. A walk ends with the ids it has met,
with a record that cannot be read, or at a node whose keywords stand in a file that is missing. With
more files a walk that has ended ends in the same way, and one that waits goes on from where it is.
-/

namespace RunReport

inductive Walk where
  | done (result : Except Error (List NodeId))
  /-- The step from `node` needs a file. -/
  | waits (file : String) (node : Route) (step : Segment) (rest : List Segment) (met : List NodeId)

namespace Source

/-- The file to wait for before the children of a node can be read. -/
def missing? (src : Source) (p : Plain) : Option String :=
  p.splitFile?.filter fun file => (src.files file).isNone

/-- Walks down from the node at a route; `met` are the ids on the way, newest first. -/
def walk (src : Source) : List Segment → List NodeId → Route → Plain → Walk
  | [], met, _, _ => .done (.ok met.reverse)
  | step :: rest, met, r, p =>
    match src.missing? p with
    | some file => .waits file r step rest met
    | none =>
      match src.child? p step with
      | .error e => .done (.error e)
      | .ok none => .done (.ok met.reverse)
      | .ok (some c) => src.walk rest (.branch (.child r step) :: met) (.child r step) c

/-- The split files on the way: those of the nodes that a step is taken from. -/
def filesOn (src : Source) : List Segment → Plain → List String
  | [], _ => []
  | step :: rest, p =>
    p.splitFile?.toList ++
      match src.child? p step with
      | .ok (some c) => src.filesOn rest c
      | _ => []

variable {src src' : Source} {p : Plain}

theorem missing?_eq_some {file : String} :
    src.missing? p = some file ↔ p.splitFile? = some file ∧ src.files file = none := by
  simp [missing?, Option.filter_eq_some_iff]

theorem missing?_eq_none :
    src.missing? p = none ↔ ∀ file, p.splitFile? = some file → ∃ payload, src.files file = some payload := by
  simp only [missing?, Option.filter_eq_none_iff, Option.isNone_iff_eq_none,
    ← Option.isSome_iff_exists, Option.isSome_iff_ne_none]

theorem Within.missing? (h : src.Within src') (ready : src.missing? p = none) :
    src'.missing? p = none := by
  rw [missing?_eq_none] at ready ⊢
  intro file hf
  obtain ⟨payload, hp⟩ := ready file hf
  exact ⟨payload, h.files file payload hp⟩

theorem splitFile?_of_items? {kind : NodeKind} (h : src.items? p kind = none)
    (h' : src'.items? p kind ≠ none) : ∃ file, p.splitFile? = some file ∧ src.files file = none := by
  have split : ∀ (t : TableRef) (k : KeywordSource), src.keywordItems? t k = none →
      ∃ file, k = .split file ∧ src.files file = none := by
    intro t k hk
    cases k with
    | inline items => cases hk
    | split file => exact ⟨file, rfl, Option.map_eq_none_iff.1 hk⟩
  cases p <;> cases kind <;> simp only [items?, reduceCtorEq, ne_eq, not_true_eq_false] at h h'
  all_goals
    obtain ⟨file, hk, hf⟩ := split _ _ h
    exact ⟨file, by simp [Plain.splitFile?, Plain.keywordSource?, Plain.fileOf?, hk], hf⟩

/-- Where no file is missing more files change nothing. -/
theorem Within.items?_eq (h : src.Within src') (ready : src.missing? p = none) (kind : NodeKind) :
    src'.items? p kind = src.items? p kind := by
  cases hi : src.items? p kind with
  | some x => exact h.items? hi
  | none =>
    by_cases hi' : src'.items? p kind = none
    · exact hi'
    · obtain ⟨file, hf, hn⟩ := splitFile?_of_items? hi hi'
      obtain ⟨payload, hp⟩ := missing?_eq_none.1 ready file hf
      rw [hn] at hp
      cases hp

/-- What there is to see of the keywords of a node once they are in place. -/
def sight? (src : Source) (r : Route) : Option Node.Sight :=
  match src.node? r with
  | .ok (some p) => some ⟨true, src.keywordCount? p⟩
  | _ => none

theorem Within.sight? (h : src.Within src') {r : Route} (hp : src.node? r = .ok (some p))
    (ready : src.missing? p = none) : src'.sight? r = src.sight? r := by
  simp only [Source.sight?, hp, h.node? hp, Source.keywordCount?, h.items?_eq ready]

theorem Within.child? (h : src.Within src') (has : src.Has p.table) (ready : src.missing? p = none)
    (step : Segment) : src'.child? p step = src.child? p step := by
  have records : src'.record? p step = src.record? p step := by
    simp only [Source.record?, h.items?_eq ready]
  simp only [Source.child?, records]
  cases hr : src.record? p step with
  | none => rfl
  | some x => simp only [h.readChild has (record?_has has hr)]

section Walk

variable {steps : List Segment} {met : List NodeId} {r : Route}

/-- A walk that has ended ends in the same way when there are more files. -/
theorem Within.walk_done (h : src.Within src') (has : src.Has p.table)
    {result : Except Error (List NodeId)} (hw : src.walk steps met r p = .done result) :
    src'.walk steps met r p = .done result := by
  induction steps generalizing met r p with
  | nil => exact hw
  | cons step rest ih =>
    simp only [walk] at hw ⊢
    cases hm : src.missing? p with
    | some file =>
      rw [hm] at hw
      cases hw
    | none =>
      rw [hm] at hw
      rw [h.missing? hm, h.child? has hm]
      cases hc : src.child? p step with
      | error e => simpa only [hc] using hw
      | ok found =>
        cases found with
        | none => simpa only [hc] using hw
        | some c =>
          rw [hc] at hw
          exact ih (child?_has has hc) hw

/-- A walk that waits stands at a node whose file is missing, and goes on from there. -/
theorem walk_waits (hp : src.node? r = .ok (some p)) {file : String} {node : Route} {step : Segment}
    {rest : List Segment} {met' : List NodeId}
    (hw : src.walk steps met r p = .waits file node step rest met') :
    ∃ q, src.node? node = .ok (some q) ∧ src.missing? q = some file ∧
      ∀ src', src.Within src' → src'.walk steps met r p = src'.walk (step :: rest) met' node q := by
  induction steps generalizing met r p with
  | nil => cases hw
  | cons first others ih =>
    simp only [walk] at hw
    cases hm : src.missing? p with
    | some f =>
      rw [hm] at hw
      cases hw
      exact ⟨p, hp, hm, fun _ _ => rfl⟩
    | none =>
      rw [hm] at hw
      cases hc : src.child? p first with
      | error e => rw [hc] at hw; cases hw
      | ok found =>
        cases found with
        | none => rw [hc] at hw; cases hw
        | some c =>
          rw [hc] at hw
          obtain ⟨q, hq, hf, resume⟩ := ih ((node?_child_of hp).trans hc) hw
          refine ⟨q, hq, hf, fun src' h => ?_⟩
          rw [← resume src' h]
          conv => lhs; rw [walk, h.missing? hm, h.child? (node?_has hp) hm, hc]

/-- A walk ends exactly when every file on its way is there. -/
theorem walk_done_iff (h : src.Within src') (has : src.Has p.table) :
    (∃ result, src.walk steps met r p = .done result) ↔
      ∀ file ∈ src'.filesOn steps p, ∃ payload, src.files file = some payload := by
  induction steps generalizing met r p with
  | nil => simp [walk, filesOn]
  | cons step rest ih =>
    simp only [walk, filesOn, List.mem_append, Option.mem_toList]
    cases hm : src.missing? p with
    | some file =>
      obtain ⟨hf, hn⟩ := missing?_eq_some.1 hm
      constructor
      · rintro ⟨result, hw⟩
        cases hw
      · intro all
        obtain ⟨payload, hp⟩ := all file (.inl hf)
        rw [hn] at hp
        cases hp
    | none =>
      have own := missing?_eq_none.1 hm
      simp only [h.child? has hm]
      cases hc : src.child? p step with
      | error e => simpa using own
      | ok found =>
        cases found with
        | none => simpa using own
        | some c =>
          rw [ih (child?_has has hc)]
          constructor
          · rintro below file (hf | hf)
            · exact own file hf
            · exact below file hf
          · intro all file hf
            exact all file (.inr hf)

end Walk

end Source

end RunReport
