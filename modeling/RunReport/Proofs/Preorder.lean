import RunReport.Proofs.Filtering
/-!
# Suites and tests in the order of an outline

An outline of a suite is the suite itself, then the suites right below it, each with all that it
contains, then its own tests. It is read here from the report itself, as the ways that lead down
from the suite. No way comes after one that begins with it, and the ways that end in a test are those
to all tests, in the order in which these are listed.
-/

namespace RunReport

/-- What an outline says of a suite or test. -/
structure OutlineItem where
  id : NodeId
  isTest : Bool
  name : String
  status : Status
  deriving DecidableEq

/-- A failed teardown above counts for the status. -/
def Plain.item? (r : Route) : Plain → Option OutlineItem
  | .suite record _ aboveFailed _ =>
    some ⟨.branch r, false, record.name, effectiveStatus record.status aboveFailed⟩
  | .test record _ aboveFailed _ =>
    some ⟨.branch r, true, record.name, effectiveStatus record.status aboveFailed⟩
  | .keyword .. => none

namespace Source

variable {src : Source} {r : Route} {step : Segment} {steps : List Segment} {depth : Nat}
  {item : OutlineItem} {t : Title}

/-! ## Suites and tests -/

/-- What is said of the suite or test at a route, if there is one. -/
def item? (src : Source) (r : Route) : Option OutlineItem :=
  match src.node? r with
  | .ok (some p) => p.item? r
  | _ => none

theorem item?_eq_some :
    src.item? r = some item ↔ ∃ p, src.node? r = .ok (some p) ∧ p.item? r = some item := by
  rw [item?]
  constructor
  · intro h
    split at h
    · rename_i p there
      exact ⟨p, there, h⟩
    · cases h
  · rintro ⟨p, there, same⟩
    rw [there]
    exact same

/-- An item says whether the node is a test or a suite. -/
theorem title?_of_item? (h : src.item? r = some item) :
    ∃ t, src.title? (if item.isTest then .test else .suite) r = some t := by
  obtain ⟨p, there, same⟩ := item?_eq_some.1 h
  cases p <;> cases same <;> exact ⟨_, title?_eq_some.2 ⟨_, there, rfl, rfl⟩⟩

theorem contains_of_item? (h : (src.item? r).isSome) : src.Contains r := by
  obtain ⟨item, found⟩ := Option.isSome_iff_exists.1 h
  obtain ⟨t, there⟩ := title?_of_item? found
  exact contains_of_title? there

/-- The ways from a suite down to itself and to the suites and tests below it, as deep as this: a
suite before what it contains, and the suites right below it before its own tests. -/
def outlineBelow (src : Source) : (depth : Nat) → Route → List (List Segment)
  | 0, _ => []
  | depth + 1, r =>
    [] :: ((src.places .suite r).flatMap
        (fun step => (src.outlineBelow depth (.child r step)).map (step :: ·)) ++
      (src.places .test r).map fun step => [step])

/-- Beyond the places below a node there is nothing. -/
theorem node?_of_no_place {p : Plain} (there : src.node? r = .ok (some p))
    (beyond : step ∉ src.places step.branch r) : src.node? (.child r step) = .ok none := by
  rw [node?_child_of there, child?, record?]
  cases hi : src.items? p step.branch.kind with
  | none => rfl
  | some x =>
    obtain ⟨items, table⟩ := x
    have outside : items.length ≤ step.index := by
      refine Nat.le_of_not_lt fun inside => beyond ?_
      rw [places, below_of_items? there hi, List.length_map, List.length_range]
      exact List.mem_map.2 ⟨step.index, List.mem_range.2 inside, rfl⟩
    simp only [List.getElem?_eq_none outside, Option.map_none]

/-- No suites and tests are below a test. -/
theorem legibleFrom_test (test : src.title? .test r = some t) :
    src.LegibleFrom [.suite, .test] r := by
  obtain ⟨p, there, kind, -⟩ := title?_eq_some.1 test
  intro steps kinds
  cases steps with
  | nil => exact ⟨_, there⟩
  | cons step rest =>
    have nothing : src.items? p step.branch.kind = none := by
      have named := kinds step (by simp)
      obtain ⟨b, i⟩ := step
      cases p with
      | suite => cases kind
      | keyword => cases kind
      | test =>
        cases b with
        | keyword => simp at named
        | _ => rfl
    have beyond : src.node? (.child r step) = .ok none := by
      rw [node?_child_of there, child?, record?, nothing]
    exact ⟨none, node?_append_none beyond rest⟩

/-- If there is something to say at every place that an outline lists, all suites and tests below
can be read. -/
theorem legibleFrom_of_items (suite : src.title? .suite r = some t)
    (deep : src.levels r + 1 < depth)
    (all : ∀ steps ∈ src.outlineBelow depth r, (src.item? (r.append steps)).isSome) :
    src.LegibleFrom [.suite, .test] r := by
  induction depth generalizing r t with
  | zero => omega
  | succ depth ih =>
    obtain ⟨p, there, -⟩ := title?_eq_some.1 suite
    intro steps kinds
    cases steps with
    | nil => exact ⟨_, there⟩
    | cons step rest =>
      suffices legible : step ∈ src.places step.branch r →
          src.LegibleFrom [.suite, .test] (.child r step) by
        by_cases place : step ∈ src.places step.branch r
        · exact legible place rest fun step' mem => kinds step' (by simp [mem])
        · exact ⟨none, node?_append_none (node?_of_no_place there place) rest⟩
      intro place
      have named := kinds step (by simp)
      obtain ⟨b, i⟩ := step
      cases b with
      | suite =>
        have all' : ∀ rest ∈ src.outlineBelow depth (.child r ⟨.suite, i⟩),
            (src.item? ((Route.child r ⟨.suite, i⟩).append rest)).isSome := fun rest mem =>
          all (⟨.suite, i⟩ :: rest) (List.mem_cons_of_mem _ (List.mem_append_left _
            (List.mem_flatMap.2 ⟨_, place, List.mem_map_of_mem mem⟩)))
        -- The suite itself is the first that is listed from there.
        obtain ⟨depth', rfl⟩ := Nat.exists_eq_add_one_of_ne_zero (show depth ≠ 0 by omega)
        have contains := contains_of_item? (all' [] (List.mem_cons_self ..))
        obtain ⟨t', there'⟩ := title?_of_contains contains
        have less := levels_child contains
        exact ih there' (by omega) all'
      | test =>
        have here := all [⟨.test, i⟩] (List.mem_cons_of_mem _ (List.mem_append_right _
          (List.mem_map_of_mem place)))
        obtain ⟨t', there'⟩ := title?_of_contains (contains_of_item? here)
        exact legibleFrom_test there'
      | keyword => simp at named

theorem levels_root (src : Source) (h : src.Contains .root) :
    src.levels .root < src.suite.depth := by
  obtain ⟨p, there⟩ := h
  rw [levels, there]
  exact readSuite_levels (node?_root there)

theorem LegibleFrom.legible {bs : List Branch} (h : src.LegibleFrom bs .root) :
    src.Legible bs := by
  intro r kinds
  rw [← r.append_steps]
  exact h r.steps kinds

/-! ## The outline of a report -/

/-- What there is to say of a report, in order. -/
def outlineItems (src : Source) : List OutlineItem :=
  (src.outlineBelow (src.suite.depth + 1) .root).filterMap fun steps =>
    src.item? (Route.root.append steps)

end Source

end RunReport
