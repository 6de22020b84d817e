import Mathlib.Data.List.Nodup
import RunReport.Proofs.Reaching
import RunReport.Proofs.Sparing
/-!
# Searches as filters

All tests below a suite are listed depth first, those of the suites below before its own. A search by
a condition gives the tests of that listing that satisfy it, and a search by the names of suites gives
those that stand in a suite with such a name. A walk over suites and tests changes no test, so that it
does not matter when a condition is looked at.
-/

namespace RunReport

/-- Suites come before tests, and of the same kind the one at the smaller place. -/
def Segment.Before (a b : Segment) : Prop :=
  a.branch = .suite ∧ b.branch = .test ∨ a.branch = b.branch ∧ a.index < b.index

theorem Segment.before_irrefl (a : Segment) : ¬a.Before a := by
  rintro (⟨suite, test⟩ | ⟨-, less⟩)
  · rw [suite] at test
    cases test
  · omega

theorem Route.append_injective (r : Route) : Function.Injective r.append := by
  intro steps steps' same
  have both := congrArg Route.steps same
  rw [steps_append, steps_append] at both
  exact List.append_cancel_left both

namespace Source

variable {src : Source} {r : Route} {b : Branch} {bs : List Branch} {step : Segment} {t : Title}
  {engine : Query.Engine} {steps : List Segment} {depth : Nat}

/-! ## Where all can be read -/

/-- Every node that is reached from a node through nodes of these kinds only can be read. -/
def LegibleFrom (src : Source) (bs : List Branch) (r : Route) : Prop :=
  ∀ steps : List Segment, (∀ step ∈ steps, step.branch ∈ bs) →
    ∃ found, src.node? (r.append steps) = .ok found

theorem LegibleFrom.child (h : src.LegibleFrom bs r) (kind : step.branch ∈ bs) :
    src.LegibleFrom bs (.child r step) := by
  intro steps kinds
  refine h (step :: steps) fun step' mem => ?_
  rcases List.mem_cons.1 mem with rfl | mem
  · exact kind
  · exact kinds step' mem

theorem Whole.legibleFrom (h : src.Whole) (bs : List Branch) (r : Route) :
    src.LegibleFrom bs r := by
  intro steps _
  obtain ⟨found, there, -⟩ := h (r.append steps)
  exact ⟨found, there⟩

/-- The steps to the nodes of one kind right below a node. -/
def places (src : Source) (b : Branch) (r : Route) : List Segment :=
  (List.range (src.below b r).length).map fun i => ⟨b, i⟩

theorem below_eq_places (src : Source) (b : Branch) (r : Route) :
    src.below b r = (src.places b r).map (.child r) := by
  rw [places, below]
  split
  · split
    · simp
    · rfl
  · rfl

theorem branch_of_mem_places (mem : step ∈ src.places b r) : step.branch = b := by
  obtain ⟨i, -, rfl⟩ := List.mem_map.1 mem
  rfl

theorem places_ascend (src : Source) (b : Branch) (r : Route) :
    (src.places b r).Pairwise fun a a' => a.branch = a'.branch ∧ a.index < a'.index :=
  List.pairwise_map.2 (List.pairwise_lt_range.imp fun less => ⟨rfl, less⟩)

theorem mem_places (h : src.Contains (.child r step)) : step ∈ src.places step.branch r := by
  obtain ⟨b, i⟩ := step
  have mem := mem_below h
  rw [below_eq_places] at mem
  obtain ⟨step, mem, same⟩ := List.mem_map.1 mem
  cases same
  exact mem

theorem LegibleFrom.child? (h : src.LegibleFrom bs r) (kind : b ∈ bs) {p : Plain}
    (node : src.node? r = .ok (some p)) {items : List Raw} {table : TableRef}
    (hi : src.items? p b.kind = some (items, table)) {i : Nat} (inside : i < items.length) :
    ∃ c, src.child? p ⟨b, i⟩ = .ok (some c) := by
  obtain ⟨found, read⟩ := h [⟨b, i⟩] (by simpa using kind)
  have read : src.node? (.child r ⟨b, i⟩) = .ok found := read
  rw [node?_child_of node] at read
  cases found with
  | none => exact absurd read (Session.child?_ne_none hi inside)
  | some c => exact ⟨c, read⟩

/-- What has a place below a node is there, if it can be read. -/
theorem LegibleFrom.title? (h : src.LegibleFrom bs r) (kind : b ∈ bs)
    (mem : step ∈ src.places b r) : ∃ t, src.title? b (.child r step) = some t := by
  have listed : Route.child r step ∈ src.below b r := by
    rw [below_eq_places]
    exact List.mem_map_of_mem mem
  rw [below] at listed
  split at listed
  · rename_i p node
    split at listed
    · rename_i items table hi
      obtain ⟨i, inside, eq⟩ := List.mem_map.1 listed
      cases eq
      obtain ⟨c, read⟩ := h.child? kind node hi (List.mem_range.1 inside)
      exact title?_of_contains ⟨c, (node?_child_of node).trans read⟩
    · cases listed
  · cases listed

/-! ## All tests below a suite -/

/-- The ways from a suite down to the tests below it, as deep as this: those through the suites right
below it, then those to its own tests. -/
def testsBelow (src : Source) : (depth : Nat) → Route → List (List Segment)
  | 0, _ => []
  | depth + 1, r =>
    (src.places .suite r).flatMap
      (fun step => (src.testsBelow depth (.child r step)).map (step :: ·)) ++
    (src.places .test r).map fun step => [step]

/-- Ways down through the suites right below a suite, in order within each of them, and then those to
its own tests come in order. -/
theorem below_ordered (src : Source) {ways : Segment → List (List Segment)}
    (each : ∀ step, (ways step).Pairwise (List.Lex Segment.Before)) :
    ((src.places .suite r).flatMap (fun step => (ways step).map (step :: ·)) ++
      (src.places .test r).map fun step => [step]).Pairwise (List.Lex Segment.Before) := by
  rw [List.pairwise_append, List.pairwise_flatMap]
  refine ⟨⟨fun step _ => ?_, ?_⟩, ?_, ?_⟩
  · exact List.pairwise_map.2 ((each step).imp fun less => .cons less)
  · refine (src.places_ascend .suite r).imp fun ascend steps mem steps' mem' => ?_
    obtain ⟨rest, -, rfl⟩ := List.mem_map.1 mem
    obtain ⟨rest', -, rfl⟩ := List.mem_map.1 mem'
    exact .rel (.inr ascend)
  · exact List.pairwise_map.2 ((src.places_ascend .test r).imp fun ascend => .rel (.inr ascend))
  · intro steps mem steps' mem'
    obtain ⟨step, suite, mem⟩ := List.mem_flatMap.1 mem
    obtain ⟨rest, -, rfl⟩ := List.mem_map.1 mem
    obtain ⟨step', test, rfl⟩ := List.mem_map.1 mem'
    exact .rel (.inl ⟨branch_of_mem_places suite, branch_of_mem_places test⟩)

/-- They come in order, and so none comes twice. -/
theorem testsBelow_ordered (src : Source) (depth : Nat) (r : Route) :
    (src.testsBelow depth r).Pairwise (List.Lex Segment.Before) := by
  induction depth generalizing r with
  | zero => exact .nil
  | succ depth ih => exact src.below_ordered fun step => ih (.child r step)

theorem testsBelow_nodup (src : Source) (depth : Nat) (r : Route) :
    (src.testsBelow depth r).Nodup := by
  refine List.Pairwise.imp ?_ (src.testsBelow_ordered depth r)
  rintro steps _ less rfl
  exact List.lex_irrefl Segment.before_irrefl steps less

/-- On the way to a test are suites. -/
theorem title?_on_way {step : Segment} {rest : List Segment}
    (h : src.title? .test ((Route.child r step).append rest) = some t) :
    rest = [] ∧ step.branch = .test ∨ step.branch = .suite := by
  rcases List.eq_nil_or_concat rest with rfl | ⟨init, last, rfl⟩
  · exact .inl ⟨rfl, (title?_child (by decide) h).1⟩
  · have whole : (Route.child r step).append (init ++ [last]) =
        .child ((Route.child r step).append init) last := by
      simp [Route.append]
    rw [List.concat_eq_append, whole] at h
    obtain ⟨-, above, suite, -⟩ := title?_child (by decide) h
    refine .inr (branch_of_title? suite step ?_)
    simp [Route.steps_append, Route.steps]

/-- The tests below a suite are listed, and nothing else, if suites and tests can all be read. -/
theorem mem_testsBelow (legible : src.LegibleFrom [.suite, .test] r)
    (suite : src.title? .suite r = some t) (deep : src.levels r < depth) :
    steps ∈ src.testsBelow depth r ↔ ∃ test, src.title? .test (r.append steps) = some test := by
  induction depth generalizing r t steps with
  | zero => omega
  | succ depth ih =>
    have below : ∀ {step}, step ∈ src.places .suite r → ∀ {rest},
        rest ∈ src.testsBelow depth (.child r step) ↔
          ∃ test, src.title? .test ((Route.child r step).append rest) = some test := by
      intro step mem rest
      have kind := branch_of_mem_places mem
      obtain ⟨t', there⟩ := legible.title? (by simp) mem
      obtain ⟨b, i⟩ := step
      cases kind
      have less := levels_child (contains_of_title? there)
      exact ih (legible.child (by simp)) there (by omega)
    rw [testsBelow, List.mem_append, List.mem_flatMap, List.mem_map]
    constructor
    · rintro (⟨step, mem, inside⟩ | ⟨step, mem, rfl⟩)
      · obtain ⟨rest, found, rfl⟩ := List.mem_map.1 inside
        exact (below mem).1 found
      · exact legible.title? (by simp) mem
    · rintro ⟨test, there⟩
      cases steps with
      | nil => cases title?_unique suite there
      | cons step rest =>
        have there' : src.title? .test ((Route.child r step).append rest) = some test := there
        have contains : src.Contains (.child r step) := (contains_of_title? there').of_append
        have place := mem_places contains
        rcases title?_on_way there' with ⟨rfl, kind⟩ | kind
        · rw [kind] at place
          exact .inr ⟨step, place, rfl⟩
        · rw [kind] at place
          exact .inl ⟨step, place, List.mem_map_of_mem ((below place).2 ⟨test, there'⟩)⟩

/-- Looking deeper than suites nest finds nothing more. -/
theorem testsBelow_enough {depth' : Nat} (legible : src.LegibleFrom [.suite, .test] r)
    (deep : src.levels r < depth) (deep' : src.levels r < depth') :
    src.testsBelow depth r = src.testsBelow depth' r := by
  induction depth generalizing r depth' with
  | zero => omega
  | succ depth ih =>
    obtain ⟨depth', rfl⟩ := Nat.exists_eq_add_one_of_ne_zero (Nat.ne_zero_of_lt deep')
    rw [testsBelow, testsBelow]
    congr 1
    refine List.flatMap_congr fun step mem => ?_
    have kind := branch_of_mem_places mem
    obtain ⟨t, there⟩ := legible.title? (by simp) mem
    obtain ⟨b, i⟩ := step
    cases kind
    have less := levels_child (contains_of_title? there)
    have deeper : src.levels (.child r ⟨.suite, i⟩) < depth' := by omega
    rw [ih (legible.child (by simp)) (by omega) deeper]

/-! ## Tests of suites with certain names -/

/-- The name or the full name of the suite is accepted. -/
def accepts (src : Source) (m : Query.Matcher engine) (r : Route) : Bool :=
  (src.title? .suite r).any fun t => m.accepts t.own || m.accepts t.full

/-- On a way down, one of the suites above its end has a name that is accepted; the suite where the
way begins counts, and what is above it does not. -/
def encloses (src : Source) (m : Query.Matcher engine) (r : Route) (steps : List Segment) : Bool :=
  (List.range steps.length).any fun k => src.accepts m (r.append (steps.take k))

theorem encloses_cons (src : Source) (m : Query.Matcher engine) (r : Route) (step : Segment)
    (rest : List Segment) : src.encloses m r (step :: rest) =
      (src.accepts m r || src.encloses m (.child r step) rest) := by
  rw [encloses, List.length_cons, List.range_succ_eq_map, List.any_cons, List.any_map]
  rfl

/-- The ways to the tests of the suites whose names are accepted: all tests below the first such
suite on each way. -/
def matchingBelow (src : Source) (m : Query.Matcher engine) :
    (depth : Nat) → Route → List (List Segment)
  | 0, _ => []
  | depth + 1, r =>
    if src.accepts m r then src.testsBelow (src.suite.depth + 1) r
    else (src.places .suite r).flatMap fun step =>
      (src.matchingBelow m depth (.child r step)).map (step :: ·)

theorem ne_nil_of_mem_testsBelow (mem : steps ∈ src.testsBelow depth r) :
    ∃ step rest, steps = step :: rest := by
  cases depth with
  | zero => cases mem
  | succ depth =>
    rw [testsBelow, List.mem_append, List.mem_flatMap, List.mem_map] at mem
    rcases mem with ⟨step, -, inside⟩ | ⟨step, -, rfl⟩
    · obtain ⟨rest, -, rfl⟩ := List.mem_map.1 inside
      exact ⟨step, rest, rfl⟩
    · exact ⟨step, [], rfl⟩

/-- Those are the tests that stand in a suite with such a name. -/
theorem matchingBelow_eq_filter (m : Query.Matcher engine) (legible : src.LegibleFrom [.suite, .test] r)
    (deep : src.levels r < depth) :
    src.matchingBelow m depth r = (src.testsBelow depth r).filter (src.encloses m r) := by
  induction depth generalizing r with
  | zero => omega
  | succ depth ih =>
    rw [matchingBelow]
    split
    · -- Every test below stands in this suite.
      rename_i accepted
      rw [testsBelow_enough legible deep (src.levels_lt r), List.filter_eq_self.2]
      intro steps mem
      obtain ⟨step, rest, rfl⟩ := ne_nil_of_mem_testsBelow mem
      rw [encloses_cons, accepted, Bool.true_or]
    · rename_i other
      have here : src.accepts m r = false := Bool.not_eq_true _ ▸ other
      have own : ((src.places .test r).map fun step => [step]).filter (src.encloses m r) = [] := by
        rw [List.filter_eq_nil_iff]
        intro steps mem
        obtain ⟨step, -, rfl⟩ := List.mem_map.1 mem
        rw [encloses_cons, here]
        simp [encloses]
      rw [testsBelow, List.filter_append, own, List.append_nil, List.filter_flatMap]
      refine List.flatMap_congr fun step mem => ?_
      have kind := branch_of_mem_places mem
      obtain ⟨t, there⟩ := legible.title? (by simp) mem
      obtain ⟨b, i⟩ := step
      cases kind
      have less := levels_child (contains_of_title? there)
      rw [ih (legible.child (by simp)) (by omega), List.filter_map]
      congr 2
      funext rest
      rw [Function.comp, encloses_cons, here, Bool.false_or]

end Source

namespace Session

open Effects

variable {s s' : Session} {r : Route} {t : Title} {α : Type} {engine : Query.Engine}

/-! ## Searching by a condition -/

variable {p : Test → Bool} {ids : List NodeId}

/-- A condition on tests that are there holds of the same ones later. -/
theorem Spares.filter_isMatch (h : s.Spares s') (p : Test → Bool)
    (tests : ∀ id ∈ ids, (s.test? id).isSome) :
    ids.filter (s.isMatch p) = ids.filter (s'.isMatch p) := by
  refine List.filter_congr fun id mem => ?_
  obtain ⟨test, there⟩ := Option.isSome_iff_exists.1 (tests id mem)
  simp only [isMatch, there, h.test? there]

/-- The second search goes along with the first one, which finds all tests, and leaves out those that
do not satisfy the condition. -/
def Selects (p : Test → Bool) (x y : Run (List NodeId)) : Prop :=
  ∀ s ids s', x.run s = (.ok ids, s') → y.run s = (.ok (ids.filter (s'.isMatch p)), s') ∧
    ∀ id ∈ ids, (s'.test? id).isSome

theorem selects_flatMapRun {f g : Route → Run (List NodeId)} (each : ∀ r, Selects p (f r) (g r))
    (spares : ∀ r, Sparing (f r)) (rs : List Route) :
    Selects p (flatMapRun f rs) (flatMapRun g rs) := by
  induction rs with
  | nil =>
    rintro s ids s' ⟨⟩
    exact ⟨rfl, nofun⟩
  | cons r rs ih =>
    intro s ids s' run
    obtain ⟨first, s₁, run₁, run⟩ := run_bind_eq_ok.1 run
    obtain ⟨rest, s₂, run₂, run⟩ := run_bind_eq_ok.1 run
    cases run
    obtain ⟨kept, tests⟩ := each r s first s₁ run₁
    obtain ⟨kept', tests'⟩ := ih s₁ rest s' run₂
    have along : s₁.Spares s' := by
      have along := sparing_flatMapRun spares rs s₁
      rwa [run₂] at along
    constructor
    · rw [flatMapRun, run_bind_ok kept, run_bind_ok kept', along.filter_isMatch p tests,
        ← List.filter_append]
      rfl
    · intro id mem
      rcases List.mem_append.1 mem with mem | mem
      · obtain ⟨test, there⟩ := Option.isSome_iff_exists.1 (tests id mem)
        rw [along.test? there]
        rfl
      · exact tests' id mem

theorem isMatch_true (s : Session) (id : NodeId) :
    s.isMatch (fun _ => true) id = (s.test? id).isSome := by
  rw [isMatch]
  cases s.test? id <;> rfl

theorem selects_searchFrom (p : Test → Bool) (depth : Nat) (r : Route) :
    Selects p (searchFrom (fun _ => true) depth r) (searchFrom p depth r) := by
  induction depth generalizing r with
  | zero =>
    rintro s ids s' ⟨⟩
    exact ⟨rfl, nofun⟩
  | succ depth ih =>
    intro s ids s' run
    obtain ⟨suites, s₁, run₁, run⟩ := run_bind_eq_ok.1 run
    obtain ⟨below, s₂, run₂, run⟩ := run_bind_eq_ok.1 run
    obtain ⟨own, s₃, run₃, run⟩ := run_bind_eq_ok.1 run
    cases run
    obtain ⟨kept, tests⟩ := selects_flatMapRun ih (sparing_searchFrom _ depth) suites s₁ below s₂ run₂
    have along : s₂.Spares s' := by
      have along := sparing_childList (.inr rfl) r s₂
      rwa [show (childList r .test).run s₂ = _ from run₃] at along
    constructor
    · rw [searchFrom, run_bind_ok run₁, run_bind_ok kept, run_bind_ok run₃, run_bind, run_get,
        along.filter_isMatch p tests, List.filter_append, List.filter_filter]
      have same : ∀ id ∈ own, (s'.isMatch p id && s'.isMatch (fun _ => true) id) = s'.isMatch p id := by
        intro id _
        simp only [isMatch]
        cases s'.test? id <;> simp
      rw [List.filter_congr same]
      rfl
    · intro id mem
      rcases List.mem_append.1 mem with mem | mem
      · obtain ⟨test, there⟩ := Option.isSome_iff_exists.1 (tests id mem)
        rw [along.test? there]
        rfl
      · rw [← isMatch_true]
        exact (List.mem_filter.1 mem).2

/-! ## Listing all tests -/

/-- The ids at the ends of ways down from a node. -/
def idsBelow (r : Route) (ways : List (List Segment)) : List NodeId :=
  ways.map fun steps => .branch (r.append steps)

theorem idsBelow_flatMap (r : Route) (places : List Segment)
    (f : Segment → List (List Segment)) :
    idsBelow r (places.flatMap fun step => (f step).map (step :: ·)) =
      places.flatMap fun step => idsBelow (.child r step) (f step) := by
  simp only [idsBelow, List.map_flatMap, List.map_map]
  rfl

theorem childList_places {b : Branch} {bs : List Branch} (h : s.Consistent)
    (legible : s.source.LegibleFrom bs r) (kind : b ∈ bs)
    (there : s.source.title? .suite r = some t) (registered : (s.branch? r).isSome) :
    ∃ s', s.Obtains (childList r b.kind) (((s.source.places b r).map (.child r)).map .branch) s' ∧
      ∀ q ∈ (s.source.places b r).map (.child r), (s'.branch? q).isSome := by
  rw [← Source.below_eq_places]
  exact childList_obtains_of h there registered fun _ _ _ node hi _ inside =>
    legible.child? kind node hi inside

theorem flatMapRun_obtains {src : Source} {f : Route → Run (List α)} {g : Route → List α}
    {rs : List Route} (each : ∀ {s : Session}, s.Consistent → s.source = src → ∀ q ∈ rs,
      (s.branch? q).isSome → ∃ s', s.Obtains (f q) (g q) s')
    (h : s.Consistent) (source : s.source = src) (registered : ∀ q ∈ rs, (s.branch? q).isSome) :
    ∃ s', s.Obtains (flatMapRun f rs) (rs.flatMap g) s' := by
  induction rs generalizing s with
  | nil => exact ⟨s, obtains_pure h []⟩
  | cons q rs ih =>
    obtain ⟨s₁, first⟩ := each h source q (by simp) (registered q (by simp))
    obtain ⟨s₂, later⟩ := ih (fun h source q mem => each h source q (by simp [mem]))
      first.consistent (first.explores.source.trans source)
      fun q mem => first.isSome (registered q (by simp [mem]))
    exact ⟨s₂, first.bind (later.bind (obtains_pure later.consistent _))⟩

/-- Going on in each of the suites right below a suite. -/
theorem suites_obtain {f : Route → Run (List NodeId)} {g : Route → List (List Segment)}
    (h : s.Consistent) (legible : s.source.LegibleFrom [.suite, .test] r)
    (there : s.source.title? .suite r = some t) (registered : (s.branch? r).isSome)
    (each : ∀ {u : Session} {q : Route} {t : Title}, u.Consistent → u.source = s.source →
      u.source.LegibleFrom [.suite, .test] q → u.source.title? .suite q = some t →
      (u.branch? q).isSome → ∃ u', u.Obtains (f q) (idsBelow q (g q)) u') :
    ∃ s₁ s₂, s.Obtains (suitesOf r) ((s.source.places .suite r).map (.child r)) s₁ ∧
      s₁.Obtains (flatMapRun f ((s.source.places .suite r).map (.child r)))
        (idsBelow r ((s.source.places .suite r).flatMap fun step =>
          (g (.child r step)).map (step :: ·))) s₂ := by
  obtain ⟨s₁, listed, made⟩ := childList_places (b := .suite) h legible (by simp) there registered
  have source := listed.explores.source
  have below : ∀ {u : Session}, u.Consistent → u.source = s.source →
      ∀ q ∈ (s.source.places .suite r).map (.child r), (u.branch? q).isSome →
      ∃ u', u.Obtains (f q) (idsBelow q (g q)) u' := by
    intro u hu same q mem registered
    obtain ⟨step, place, rfl⟩ := List.mem_map.1 mem
    have suite := Source.branch_of_mem_places place
    obtain ⟨t', there'⟩ := legible.title? (by simp) place
    rw [← same] at legible there'
    exact each hu same (legible.child (by simp [suite])) there' registered
  obtain ⟨s₂, found⟩ := flatMapRun_obtains below listed.consistent source made
  refine ⟨s₁, s₂, listed.bind ?_, ?_⟩
  · rw [routes_branches]
    exact obtains_pure listed.consistent _
  · rw [idsBelow_flatMap]
    rwa [List.flatMap_map] at found

/-- All tests below a suite are listed. -/
theorem searchFrom_obtains (depth : Nat) (h : s.Consistent)
    (legible : s.source.LegibleFrom [.suite, .test] r)
    (there : s.source.title? .suite r = some t) (registered : (s.branch? r).isSome) :
    ∃ s', s.Obtains (searchFrom (fun _ => true) depth r)
      (idsBelow r (s.source.testsBelow depth r)) s' := by
  induction depth generalizing s r t with
  | zero => exact ⟨s, obtains_pure h []⟩
  | succ depth ih =>
    obtain ⟨s₁, s₂, listed, found⟩ := suites_obtain (g := s.source.testsBelow depth) h legible there
      registered fun hu same legible there registered => same ▸ ih hu legible there registered
    have source : s₂.source = s.source :=
      found.explores.source.trans listed.explores.source
    rw [← source] at legible there
    obtain ⟨s₃, own, made⟩ := childList_places (b := .test) found.consistent legible (by simp) there
      (found.isSome (listed.isSome registered))
    refine ⟨s₃, listed.bind (found.bind (own.bind ((obtains_get own.consistent).bind ?_)))⟩
    -- What was listed as a test is one.
    have tests : ((s₂.source.places .test r).map (.child r)).map NodeId.branch =
        (((s₂.source.places .test r).map (.child r)).map NodeId.branch).filter
          (s₃.isMatch fun _ => true) := by
      refine (List.filter_eq_self.2 fun id mem => ?_).symm
      obtain ⟨q, below, rfl⟩ := List.mem_map.1 mem
      have titled := test?_title own.consistent (made q below)
      obtain ⟨step, place, rfl⟩ := List.mem_map.1 below
      obtain ⟨t', there'⟩ := legible.title? (by simp) place
      rw [own.explores.source, there'] at titled
      rw [isMatch_true, ← Option.isSome_map, titled]
      rfl
    have whole : idsBelow r (s.source.testsBelow (depth + 1) r) =
        idsBelow r ((s.source.places .suite r).flatMap fun step =>
          (s.source.testsBelow depth (.child r step)).map (step :: ·)) ++
        ((s₂.source.places .test r).map (.child r)).map NodeId.branch := by
      rw [Source.testsBelow, idsBelow, List.map_append, source]
      simp only [List.map_map]
      rfl
    rw [whole, ← tests]
    exact obtains_pure own.consistent _

/-! ## Listing the tests of certain suites -/

theorem suiteMatches_eq (h : s.Consistent) (registered : (s.branch? r).isSome)
    (m : Query.Matcher engine) : suiteMatches m (s.suite? r) = s.source.accepts m r := by
  rw [Source.accepts, ← suite?_title h registered]
  cases s.suite? r with
  | none => rfl
  | some su =>
    simp only [suiteMatches, Query.Matcher.acceptsAny, List.any_cons, List.any_nil, Bool.or_false]
    exact Bool.or_comm ..

theorem inMatchingFrom_obtains (m : Query.Matcher engine) (depth : Nat) (h : s.Consistent)
    (legible : s.source.LegibleFrom [.suite, .test] r)
    (there : s.source.title? .suite r = some t) (registered : (s.branch? r).isSome) :
    ∃ s', s.Obtains (inMatchingFrom m depth r) (idsBelow r (s.source.matchingBelow m depth r)) s' := by
  induction depth generalizing s r t with
  | zero => exact ⟨s, obtains_pure h []⟩
  | succ depth ih =>
    rw [inMatchingFrom, Source.matchingBelow, ← suiteMatches_eq h registered]
    by_cases accepted : suiteMatches m (s.suite? r) = true
    · obtain ⟨s', listed⟩ := searchFrom_obtains s.suiteDepth h legible there registered
      refine ⟨s', (obtains_get h).bind ?_⟩
      rw [if_pos accepted, if_pos accepted]
      exact (obtains_get h).bind listed
    · obtain ⟨s₁, s₂, listed, found⟩ := suites_obtain (g := s.source.matchingBelow m depth) h legible
        there registered fun hu same legible there registered => same ▸ ih hu legible there registered
      refine ⟨s₂, (obtains_get h).bind ?_⟩
      rw [if_neg accepted, if_neg accepted]
      exact listed.bind found

/-- In a session of a report, take a suite below which all suites and tests can be read. All tests
below it are listed, each once, in the order of the ways that lead down to them: those in a suite
right below it before its own tests, and otherwise the one at the smaller place first. A search by a
condition gives the tests of the listing that satisfy it. A search by a pattern gives the tests of the
listing that stand in a suite, this one or one below it, whose name or full name the pattern
accepts. -/
theorem searches_filter_listing (h : s.Reachable) (suite : (s.suite? r).isSome)
    (legible : s.source.LegibleFrom [.suite, .test] r) :
    ∃ ways s₁, (allTests r).run s = (.ok (idsBelow r ways), s₁) ∧
      (∀ steps, steps ∈ ways ↔ ∃ test, s.source.title? .test (r.append steps) = some test) ∧
      (idsBelow r ways).Nodup ∧ ways.Pairwise (List.Lex Segment.Before) ∧
      (∀ id ∈ idsBelow r ways, (s₁.test? id).isSome) ∧
      (∀ p, (searchTests p r).run s = (.ok ((idsBelow r ways).filter (s₁.isMatch p)), s₁)) ∧
      ∀ pattern, ∃ s₂, (testsInSuites pattern r).run s =
        (.ok (idsBelow r (ways.filter (s.source.encloses (.ofPattern pattern) r))), s₂) := by
  have consistent := h.consistent
  have registered : (s.branch? r).isSome := by
    rw [suite?] at suite
    split at suite
    · rename_i found
      rw [found]
      rfl
    · cases suite
  have titled := suite?_title consistent registered
  obtain ⟨su, found⟩ := Option.isSome_iff_exists.1 suite
  rw [found] at titled
  have there := titled.symm
  have deep : s.source.levels r < s.suiteDepth := s.source.levels_lt r
  obtain ⟨s₁, listed⟩ := searchFrom_obtains s.suiteDepth consistent legible there registered
  have selects : ∀ p, _ := fun p => selects_searchFrom p s.suiteDepth r s _ s₁ listed.run
  refine ⟨s.source.testsBelow s.suiteDepth r, s₁, ((obtains_get consistent).bind listed).run,
    fun steps => Source.mem_testsBelow legible there deep, ?_, s.source.testsBelow_ordered _ r,
    (selects fun _ => true).2, fun p => (run_bind_ok (run_get s)).trans (selects p).1, ?_⟩
  · refine List.Nodup.map ?_ (s.source.testsBelow_nodup s.suiteDepth r)
    exact fun _ _ same => r.append_injective (NodeId.branch.inj same)
  · intro pattern
    obtain ⟨s₂, found⟩ := inMatchingFrom_obtains (.ofPattern pattern) s.suiteDepth consistent legible
      there registered
    rw [Source.matchingBelow_eq_filter _ legible deep] at found
    exact ⟨s₂, ((obtains_get consistent).bind found).run⟩

/-! ## A sample -/

/-- A root suite with a test and a suite that has a test and another suite with a test. -/
def nestedTests : String :=
  "\x7b\"version\":2,\"generatedMillis\":0,\"baseMillis\":0,
    \"strings\":[\"*\",\"*Root\",\"*A\",\"*B\",\"*x\",\"*y\",\"*z\"],\"suite\":[1,0,0,0,[],[1,0,1],
    [[2,0,0,0,[],[1,0,1],[[3,0,0,0,[],[1,0,1],[],[[4,0,1,0,[],[1,0,1],[]]],[],[1,1,1,1]]],
    [[5,0,1,0,[],[1,0,1],[]]],[],[2,2,2,2]]],
    [[6,0,1,0,[],[1,0,1],[]]],[],[3,3,3,3]],\"stats\":[]\x7d"

/-- The ids of the tests `Root.A.B.x`, `Root.A.y` and `Root.z`. -/
def nestedIds : List NodeId :=
  idsBelow .root [[⟨.suite, 0⟩, ⟨.suite, 0⟩, ⟨.test, 0⟩], [⟨.suite, 0⟩, ⟨.test, 0⟩], [⟨.test, 0⟩]]

set_option maxRecDepth 2000 in
/-- All three tests are found, those of the suite `A` by its name, and every condition selects from
the three. -/
theorem searches_filter_listing_sample : ∃ s s₁ s₂ : Session, s.Reachable ∧
    (s.suite? .root).isSome ∧ s.source.LegibleFrom [.suite, .test] .root ∧
    (allTests .root).run s = (.ok nestedIds, s₁) ∧ nestedIds.Nodup ∧
    (∀ p, (searchTests p .root).run s = (.ok (nestedIds.filter (s₁.isMatch p)), s₁)) ∧
    (testsInSuites "a" .root).run s = (.ok (nestedIds.take 2), s₂) := by
  have opens : opensTo (fun s₀ =>
      let s := ((play [(sampleFiles, .report .suite)]).run s₀).2
      (s.suite? .root).isSome && s.source.isWhole 4 && s.gives (allTests .root) nestedIds &&
        s.gives (testsInSuites "a" .root) (nestedIds.take 2)) nestedTests = true :=
    opensTo_ofList (by decide +kernel)
  obtain ⟨s₀, opened, checked⟩ := opensTo_iff.1 opens
  generalize reached : ((play [(sampleFiles, .report .suite)]).run s₀).2 = s at checked
  simp only [Bool.and_eq_true] at checked
  obtain ⟨⟨⟨suite, isWhole⟩, lists⟩, named⟩ := checked
  have reachable : s.Reachable :=
    ⟨nestedTests, s₀, _, opened, by simp [Step.keepsReport], reached.symm⟩
  have legible := (Source.whole_of_isWhole isWhole).legibleFrom [.suite, .test] .root
  obtain ⟨ways, s₁, run, -, nodup, -, -, selects, -⟩ :=
    searches_filter_listing reachable suite legible
  obtain ⟨s₁', run'⟩ := gives_iff.1 lists
  obtain ⟨s₂, found⟩ := gives_iff.1 named
  have same : idsBelow .root ways = nestedIds :=
    Except.ok.inj (Prod.mk.inj (run.symm.trans run')).1
  rw [same] at run nodup selects
  exact ⟨s, s₁, s₂, reachable, suite, legible, run, nodup, selects, found⟩

end Session

end RunReport
