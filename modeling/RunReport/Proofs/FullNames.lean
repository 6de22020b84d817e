import RunReport.Proofs.Lineage
import RunReport.Proofs.Nesting
import RunReport.Session.Names
/-!
# Full names

The full name of a suite or test is that of the suite above it, a dot and its own name, so the names
of all the suites above it lead to it. A search for a full name visits every suite. A descent enters
the first suite whose name leads on and never turns back: it comes to the suite that the search
finds unless, somewhere on the way there, a suite that comes earlier leads to the name as well.
-/

namespace RunReport

namespace Session

theorem isNameStart_iff {candidate name : String} : isNameStart candidate name = true ↔
    name = candidate ∨ ∃ rest, name = candidate ++ "." ++ rest := by
  rw [isNameStart, Bool.or_eq_true, beq_iff_eq, Text.after?]
  apply or_congr_right
  constructor
  · intro h
    split at h
    · rename_i rest found
      obtain ⟨begins, dropped⟩ := Option.ite_none_right_eq_some.1 found
      obtain ⟨tail, whole⟩ := List.isPrefixOf_iff_prefix.1 begins
      rw [← whole, List.drop_left] at dropped
      cases Option.some.inj dropped
      exact ⟨String.ofList rest, String.toList_inj.1 (by simp [← whole])⟩
    · cases h
  · rintro ⟨rest, rfl⟩
    simp

/-- A name above leads wherever a name below it leads, and further up. -/
theorem isNameStart_above {above own name : String}
    (h : isNameStart (above ++ "." ++ own) name = true) :
    isNameStart above name = true ∧ name ≠ above := by
  obtain ⟨rest, rfl⟩ : ∃ rest, name = above ++ "." ++ rest := by
    rcases isNameStart_iff.1 h with rfl | ⟨rest, rfl⟩
    · exact ⟨own, rfl⟩
    · exact ⟨own ++ "." ++ rest, by simp only [String.append_assoc]⟩
  constructor
  · exact isNameStart_iff.2 (.inr ⟨rest, rfl⟩)
  · intro same
    have sizes := congrArg String.length same
    simp only [String.length_append, show ".".length = 1 from rfl] at sizes
    omega

end Session

/-- The routes from the root down to a node. -/
def Route.line (r : Route) : List Route :=
  r.owners ++ [r]

theorem Route.line_injective {r q : Route} (h : r.line = q.line) : r = q :=
  List.singleton_inj.1 (List.append_inj' h rfl).2

/-- The name of a node by itself, and the one it has among all nodes. -/
structure Title where
  own : String
  full : String

def Plain.title : Plain → Title
  | .suite r name _ _ => ⟨r.name, name⟩
  | .test r name _ _ => ⟨r.name, name⟩
  | .keyword r path _ => ⟨r.name, path⟩

theorem Branch.kind_injective {b b' : Branch} (h : b.kind = b'.kind) : b = b' := by
  cases b <;> cases b' <;> first | rfl | cases h

namespace Source

variable {src : Source} {r q owner : Route} {step : Segment} {b : Branch} {t : Title} {i : Nat}

/-! ## The names of nodes -/

/-- The names of the node at a route, if it is of this kind. -/
def title? (src : Source) (b : Branch) (r : Route) : Option Title :=
  match src.node? r with
  | .ok (some p) => if p.kind = b.kind then some p.title else none
  | _ => none

theorem title?_eq_some : src.title? b r = some t ↔
    ∃ p, src.node? r = .ok (some p) ∧ p.kind = b.kind ∧ p.title = t := by
  rw [title?]
  constructor
  · intro h
    split at h
    · rename_i p there
      obtain ⟨kind, same⟩ := Option.ite_none_right_eq_some.1 h
      exact ⟨p, there, kind, Option.some.inj same⟩
    · cases h
  · rintro ⟨p, there, kind, rfl⟩
    simp only [there, if_pos kind]

theorem contains_of_title? (h : src.title? b r = some t) : src.Contains r := by
  obtain ⟨p, there, -⟩ := title?_eq_some.1 h
  exact ⟨p, there⟩

/-- Suites and tests stand in suites and are named after them. -/
theorem node?_named {p : Plain} (there : src.node? (.child owner step) = .ok (some p)) :
    p.kind = step.branch.kind ∧ (step.branch ≠ .keyword → ∃ above,
      src.title? .suite owner = some above ∧ p.title.full = above.full ++ "." ++ p.title.own) := by
  obtain ⟨upper, node, child⟩ := node?_child there
  obtain ⟨raw, t, found, read⟩ := child?_eq_some.1 child
  obtain ⟨items, hi, -⟩ := record?_eq_some.1 found
  have suite : step.branch ≠ .keyword → ∃ above, src.title? .suite owner = some above ∧
      ∀ own, upper.nameBelow own = above.full ++ "." ++ own := by
    intro other
    cases upper with
    | suite record name failed t' =>
      exact ⟨⟨record.name, name⟩, title?_eq_some.2 ⟨_, node, rfl, rfl⟩, fun own => rfl⟩
    | test => cases hb : step.branch <;> simp_all [items?, Branch.kind]
    | keyword => cases hb : step.branch <;> simp_all [items?, Branch.kind]
  rw [readChild] at read
  split at read
  · rename_i hb
    obtain ⟨record, failed, -, -, rfl⟩ := readSuite_below.1 read
    refine ⟨by rw [hb]; rfl, fun other => ?_⟩
    obtain ⟨above, there, named⟩ := suite other
    exact ⟨above, there, named _⟩
  · rename_i hb
    obtain ⟨record, failed, -, -, rfl⟩ := readTest_eq_ok.1 read
    refine ⟨by rw [hb]; rfl, fun other => ?_⟩
    obtain ⟨above, there, named⟩ := suite other
    exact ⟨above, there, named _⟩
  · rename_i hb
    obtain ⟨record, -, rfl⟩ := readKeyword_eq_ok.1 read
    exact ⟨by rw [hb]; rfl, fun other => absurd hb other⟩

theorem title?_child (named : b ≠ .keyword) (h : src.title? b (.child owner step) = some t) :
    step.branch = b ∧ ∃ above, src.title? .suite owner = some above ∧
      t.full = above.full ++ "." ++ t.own := by
  obtain ⟨p, there, kind, rfl⟩ := title?_eq_some.1 h
  obtain ⟨kind', above⟩ := node?_named there
  have same : step.branch = b := Branch.kind_injective (kind'.symm.trans kind)
  exact ⟨same, above (by rw [same]; exact named)⟩

/-- A node is of the kind that its route says. -/
theorem title?_of_contains (h : src.Contains (.child r ⟨b, i⟩)) :
    ∃ t, src.title? b (.child r ⟨b, i⟩) = some t := by
  obtain ⟨p, there⟩ := h
  obtain ⟨kind, -⟩ := node?_named there
  exact ⟨p.title, title?_eq_some.2 ⟨p, there, kind, rfl⟩⟩

theorem title?_root : src.title? b .root = some t → b = .suite := by
  intro h
  obtain ⟨p, there, kind, -⟩ := title?_eq_some.1 h
  have read := node?_root there
  simp only [readSuite] at read
  cases record : src.readIn .main (src.coding.suite src.suite) with
  | error e => rw [record] at read; cases read
  | ok record' =>
    rw [record] at read
    cases read
    exact Branch.kind_injective kind.symm

/-- A node of one kind is none of another. -/
theorem title?_unique {b' : Branch} {t' : Title} (h : src.title? b r = some t)
    (h' : src.title? b' r = some t') : b = b' := by
  obtain ⟨p, there, kind, -⟩ := title?_eq_some.1 h
  obtain ⟨p', there', kind', -⟩ := title?_eq_some.1 h'
  cases there.symm.trans there'
  exact Branch.kind_injective (kind.symm.trans kind')

/-- Above a suite are suites. -/
theorem branch_of_title? (h : src.title? .suite r = some t) :
    ∀ step ∈ r.steps, step.branch = .suite := by
  induction r generalizing t with
  | root => simp [Route.steps]
  | child owner step ih =>
    obtain ⟨suite, above, there, -⟩ := title?_child (by decide) h
    intro step' mem
    rcases List.mem_append.1 mem with before | last
    · exact ih there step' before
    · rw [List.mem_singleton.1 last]
      exact suite

/-! ## What is below a node -/

/-- The suites, tests or keywords right below a node. -/
def below (src : Source) (b : Branch) (r : Route) : List Route :=
  match src.node? r with
  | .ok (some p) =>
    match src.items? p b.kind with
    | some (items, _) => (List.range items.length).map fun i => .child r ⟨b, i⟩
    | none => []
  | _ => []

theorem below_of_items? {p : Plain} (there : src.node? r = .ok (some p)) {items : List Raw}
    {table : TableRef} (hi : src.items? p b.kind = some (items, table)) :
    src.below b r = (List.range items.length).map fun i => .child r ⟨b, i⟩ := by
  simp only [below, there, hi]

theorem eq_child_of_mem_below (h : q ∈ src.below b r) : ∃ i, q = .child r ⟨b, i⟩ := by
  rw [below] at h
  split at h
  · split at h
    · obtain ⟨i, -, rfl⟩ := List.mem_map.1 h
      exact ⟨i, rfl⟩
    · cases h
  · cases h

/-- A node stands below its owner, after those with smaller places. -/
theorem below_split (h : src.Contains (.child r ⟨b, i⟩)) : ∃ later, src.below b r =
    ((List.range i).map fun j => .child r ⟨b, j⟩) ++ .child r ⟨b, i⟩ :: later := by
  obtain ⟨p, there⟩ := h
  obtain ⟨above, upper, child⟩ := node?_child there
  obtain ⟨raw, table, found, -⟩ := child?_eq_some.1 child
  obtain ⟨items, hi, place⟩ := record?_eq_some.1 found
  obtain ⟨inside, -⟩ := List.getElem?_eq_some_iff.1 place
  obtain ⟨more, size⟩ := Nat.exists_eq_add_of_lt inside
  have count : items.length = i + (more + 1) := size
  rw [below_of_items? upper hi, count, List.range_add, List.range_succ_eq_map]
  simp

theorem mem_below (h : src.Contains (.child r ⟨b, i⟩)) : .child r ⟨b, i⟩ ∈ src.below b r := by
  obtain ⟨later, split⟩ := below_split h
  simp [split]

/-! ## Names that lead on -/

/-- The full name of the node, if it is of this kind, satisfies a condition. -/
def isTitled (src : Source) (b : Branch) (p : String → Bool) (r : Route) : Bool :=
  (src.title? b r).any fun t => p t.full

/-- The full name of the node is the name. -/
def isNamed (src : Source) (b : Branch) (name : String) (r : Route) : Bool :=
  src.isTitled b (· == name) r

/-- The full name of the suite is the name or one that can stand above it. -/
def leads (src : Source) (name : String) (r : Route) : Bool :=
  src.isTitled .suite (Session.isNameStart · name) r

variable {name : String}

theorem isTitled_iff {p : String → Bool} :
    src.isTitled b p r = true ↔ ∃ t, src.title? b r = some t ∧ p t.full = true :=
  Option.any_eq_true ..

theorem isNamed_iff :
    src.isNamed b name r = true ↔ ∃ t, src.title? b r = some t ∧ t.full = name := by
  rw [isNamed, isTitled_iff]
  simp only [beq_iff_eq]

theorem leads_of_isNamed (h : src.isNamed .suite name r = true) : src.leads name r = true := by
  obtain ⟨t, there, rfl⟩ := isNamed_iff.1 h
  exact isTitled_iff.2 ⟨t, there, Session.isNameStart_iff.2 (.inl rfl)⟩

/-- Above a suite that leads to a name is another one, which does not have the name yet. -/
theorem leads_owner (h : src.leads name (.child owner step) = true) :
    step.branch = .suite ∧ src.leads name owner = true ∧ src.isNamed .suite name owner = false := by
  obtain ⟨t, there, start⟩ := isTitled_iff.1 h
  obtain ⟨suite, above, thereAbove, full⟩ := title?_child (by decide) there
  rw [full] at start
  obtain ⟨startAbove, different⟩ := Session.isNameStart_above start
  refine ⟨suite, isTitled_iff.2 ⟨above, thereAbove, startAbove⟩, ?_⟩
  rw [isNamed, isTitled, thereAbove]
  exact beq_false_of_ne (Ne.symm different)

theorem leads_append {steps : List Segment} (h : src.leads name (r.append steps) = true) :
    src.leads name r = true := by
  induction steps generalizing r with
  | nil => exact h
  | cons step rest ih => exact (leads_owner (ih (r := .child r step) h)).2.1

theorem leads_root (h : src.leads name r = true) : src.leads name .root = true := by
  rw [← r.append_steps] at h
  exact leads_append h

theorem contains_of_leads (h : src.leads name r = true) : src.Contains r := by
  obtain ⟨t, there, -⟩ := isTitled_iff.1 h
  exact contains_of_title? there

/-! ## From a suite down to one with a name -/

/-- How deep the records of the suites below nest. -/
def levels (src : Source) (r : Route) : Nat :=
  match src.node? r with
  | .ok (some p) => p.suiteLevels
  | _ => 0

theorem levels_child (h : src.Contains (.child r ⟨.suite, i⟩)) :
    src.levels (.child r ⟨.suite, i⟩) < src.levels r := by
  obtain ⟨p, there⟩ := h
  obtain ⟨above, upper, child⟩ := node?_child there
  simp only [levels, there, upper]
  exact child?_levels child

/-- Suites nest no deeper than the records of the report. -/
theorem levels_lt (src : Source) (r : Route) : src.levels r < src.suite.depth + 1 := by
  rw [levels]
  split
  · rename_i p there
    exact Nat.lt_succ_of_le (node?_levels there)
  · exact Nat.succ_pos _

variable {depth : Nat}

/-- A walk with enough levels comes down to a suite that leads to the name, each time into a suite
that leads to it from one that does not have the name. -/
theorem towards {P : Nat → Route → Prop} (aim : src.leads name q = true)
    (here : ∀ depth, P (depth + 1) q)
    (down : ∀ depth r i rest, q = (Route.child r ⟨.suite, i⟩).append rest →
      src.leads name (.child r ⟨.suite, i⟩) = true → src.isNamed .suite name r = false →
      P depth (.child r ⟨.suite, i⟩) → P (depth + 1) r)
    {steps : List Segment} (whole : q = r.append steps) (deep : src.levels r < depth) :
    P depth r := by
  induction steps generalizing r depth with
  | nil =>
    obtain ⟨depth, rfl⟩ := Nat.exists_eq_add_one_of_ne_zero (Nat.ne_zero_of_lt deep)
    cases whole
    exact here depth
  | cons step rest ih =>
    obtain ⟨depth, rfl⟩ := Nat.exists_eq_add_one_of_ne_zero (Nat.ne_zero_of_lt deep)
    have whole' : q = (Route.child r step).append rest := whole
    have onward : src.leads name (.child r step) = true := by
      rw [whole'] at aim
      exact leads_append aim
    obtain ⟨b, i⟩ := step
    obtain ⟨rfl, -, other⟩ := leads_owner onward
    have less := levels_child (contains_of_leads onward)
    exact down depth r i rest whole' onward other (ih whole' (by omega))

/-- All of it from the root. -/
theorem towards_root {P : Nat → Route → Prop} (aim : src.leads name q = true)
    (here : ∀ depth, P (depth + 1) q)
    (down : ∀ depth r i rest, q = (Route.child r ⟨.suite, i⟩).append rest →
      src.leads name (.child r ⟨.suite, i⟩) = true → src.isNamed .suite name r = false →
      P depth (.child r ⟨.suite, i⟩) → P (depth + 1) r) :
    P (src.suite.depth + 1) .root :=
  towards aim here down q.append_steps.symm (src.levels_lt .root)

/-! ## Searching -/

/-- The first suite with the name, among a suite and those below it. -/
def findNamed (src : Source) (name : String) : (depth : Nat) → Route → Option Route
  | 0, _ => none
  | depth + 1, r =>
    if src.isNamed .suite name r then some r
    else (src.below .suite r).findSome? (src.findNamed name depth)

/-- The first suite of the report with the name. -/
def named? (src : Source) (name : String) : Option Route :=
  src.findNamed name (src.suite.depth + 1) .root

theorem findNamed_sound (h : src.findNamed name depth r = some q) :
    src.isNamed .suite name q = true ∧ ∃ steps, q = r.append steps := by
  induction depth generalizing r with
  | zero => cases h
  | succ depth ih =>
    rw [findNamed] at h
    split at h
    · rename_i named
      cases h
      exact ⟨named, [], rfl⟩
    · obtain ⟨next, mem, found⟩ := List.exists_of_findSome?_eq_some h
      obtain ⟨named, steps, rfl⟩ := ih found
      obtain ⟨i, rfl⟩ := eq_child_of_mem_below mem
      exact ⟨named, ⟨.suite, i⟩ :: steps, rfl⟩

theorem named?_sound (h : src.named? name = some r) : src.isNamed .suite name r = true :=
  (findNamed_sound h).1

/-- Nothing is found below a suite that does not lead to the name. -/
theorem findNamed_eq_none (h : src.leads name r = false) : src.findNamed name depth r = none := by
  cases found : src.findNamed name depth r with
  | none => rfl
  | some q =>
    obtain ⟨named, steps, rfl⟩ := findNamed_sound found
    rw [leads_append (leads_of_isNamed named)] at h
    cases h

/-- A suite with the name is not missed. -/
theorem named?_complete (named : src.isNamed .suite name r = true) : (src.named? name).isSome := by
  apply towards_root (P := fun depth r => (src.findNamed name depth r).isSome)
    (leads_of_isNamed named)
  · intro depth
    rw [findNamed, if_pos named]
    rfl
  · intro depth r i rest _ onward other found
    rw [findNamed, if_neg (by simp [other]), List.findSome?_isSome_iff]
    exact ⟨_, mem_below (contains_of_leads onward), found⟩

/-! ## Descending -/

/-- Where a descent from a suite ends. -/
def descend (src : Source) (name : String) : (depth : Nat) → Route → Route
  | 0, r => r
  | depth + 1, r =>
    if src.isNamed .suite name r then r
    else
      match (src.below .suite r).find? (src.leads name) with
      | some next => src.descend name depth next
      | none => r

/-- Where a descent from the root ends. -/
def goal (src : Source) (name : String) : Route :=
  src.descend name (src.suite.depth + 1) .root

/-- The suites on the way there, unless not even the root leads to the name. -/
def wayTo (src : Source) (name : String) : List Route :=
  if src.leads name .root then (src.goal name).line else []

/-- On the way to a suite there is one that comes after another that leads to the name. -/
def isHidden (src : Source) (name : String) : Route → Bool
  | .root => false
  | .child owner step => src.isHidden name owner ||
    (List.range step.index).any fun i => src.leads name (.child owner ⟨.suite, i⟩)

theorem isHidden_child : src.isHidden name (.child r ⟨.suite, i⟩) = false ↔
    src.isHidden name r = false ∧ ∀ j < i, src.leads name (.child r ⟨.suite, j⟩) = false := by
  simp [isHidden]

theorem isHidden_append {steps : List Segment} (h : src.isHidden name (r.append steps) = false) :
    src.isHidden name r = false := by
  induction steps generalizing r with
  | nil => exact h
  | cons step rest ih => exact (Bool.or_eq_false_iff.1 (ih (r := .child r step) h)).1

/-- A descent enters the first suite that leads on. -/
theorem find?_below {next : Route} (h : (src.below .suite r).find? (src.leads name) = some next) :
    ∃ i, next = .child r ⟨.suite, i⟩ ∧ src.leads name next = true ∧
      ∀ j < i, src.leads name (.child r ⟨.suite, j⟩) = false := by
  rw [below] at h
  split at h
  · split at h
    · rw [List.find?_map, Option.map_eq_some_iff] at h
      obtain ⟨i, found, rfl⟩ := h
      obtain ⟨onward, -, earlier⟩ := List.find?_range_eq_some.1 found
      exact ⟨i, rfl, onward, fun j less => by simpa using earlier j less⟩
    · cases h
  · cases h

/-- A descent goes only where names lead on, and past nothing that does. -/
theorem descend_stays (onward : src.leads name r = true) (clear : src.isHidden name r = false) :
    src.leads name (src.descend name depth r) = true ∧
      src.isHidden name (src.descend name depth r) = false := by
  induction depth generalizing r with
  | zero => exact ⟨onward, clear⟩
  | succ depth ih =>
    rw [descend]
    split
    · exact ⟨onward, clear⟩
    · split
      · rename_i next found
        obtain ⟨i, rfl, further, earlier⟩ := find?_below found
        exact ih further (isHidden_child.2 ⟨clear, earlier⟩)
      · exact ⟨onward, clear⟩

theorem goal_stays (h : src.leads name .root = true) :
    src.leads name (src.goal name) = true ∧ src.isHidden name (src.goal name) = false :=
  descend_stays h rfl

/-- A suite with the name that is not hidden is found either way. -/
theorem reached_of_not_hidden (named : src.isNamed .suite name r = true)
    (clear : src.isHidden name r = false) :
    src.named? name = some r ∧ src.goal name = r := by
  apply towards_root (P := fun depth a =>
    src.findNamed name depth a = some r ∧ src.descend name depth a = r) (leads_of_isNamed named)
  · intro depth
    rw [findNamed, descend, if_pos named, if_pos named]
    exact ⟨rfl, rfl⟩
  · rintro depth a i rest rfl onward other ⟨found, reached⟩
    -- What comes earlier does not lead to the name: the search finds nothing there, and the
    -- descent does not enter it.
    obtain ⟨-, earlier⟩ := isHidden_child.1 (isHidden_append clear)
    obtain ⟨later, split⟩ := below_split (contains_of_leads onward)
    constructor
    · rw [findNamed, if_neg (by simp [other]), List.findSome?_eq_some_iff]
      refine ⟨_, _, later, split, found, ?_⟩
      intro q mem
      obtain ⟨j, less, rfl⟩ := List.mem_map.1 mem
      exact findNamed_eq_none (earlier j (List.mem_range.1 less))
    · have first : (src.below .suite a).find? (src.leads name) = some (.child a ⟨.suite, i⟩) := by
        rw [List.find?_eq_some_iff_append]
        exact ⟨onward, _, later, split, by simpa using earlier⟩
      rw [descend, if_neg (by simp [other]), first]
      exact reached

theorem wayTo_of_leads (h : src.leads name .root = true) : src.wayTo name = (src.goal name).line :=
  if_pos h

/-- Where the way leads to, the descent ends. -/
theorem goal_of_wayTo (h : src.wayTo name = r.line) :
    src.leads name .root = true ∧ src.goal name = r := by
  rw [wayTo] at h
  split at h
  · rename_i onward
    exact ⟨onward, Route.line_injective h⟩
  · simp [Route.line] at h

/-- The way ends at a suite with the name exactly when the one that is found is not hidden. -/
theorem wayTo_reaches_iff (found : src.named? name = some r) :
    (∃ q, src.wayTo name = q.line ∧ src.isNamed .suite name q = true) ↔
      src.isHidden name r = false := by
  constructor
  · rintro ⟨q, way, named⟩
    obtain ⟨onward, rfl⟩ := goal_of_wayTo way
    obtain ⟨-, clear⟩ := goal_stays onward
    obtain ⟨found', -⟩ := reached_of_not_hidden named clear
    rw [Option.some.inj (found.symm.trans found')]
    exact clear
  · intro clear
    have named := named?_sound found
    obtain ⟨-, reached⟩ := reached_of_not_hidden named clear
    exact ⟨r, by rw [wayTo_of_leads (leads_root (leads_of_isNamed named)), reached], named⟩

/-! ## Reports that can be read -/

/-- Every node that is reached through nodes of these kinds only can be read. -/
def Legible (src : Source) (bs : List Branch) : Prop :=
  ∀ r : Route, (∀ step ∈ r.steps, step.branch ∈ bs) → ∃ found, src.node? r = .ok found

/-- There is a root suite. -/
theorem Legible.root {bs : List Branch} (legible : src.Legible bs) :
    ∃ t, src.title? .suite .root = some t := by
  obtain ⟨found, there⟩ := legible .root (by simp [Route.steps])
  rw [node?] at there
  cases read : src.readIn .main (src.coding.suite src.suite) with
  | error e =>
    simp only [readSuite, read] at there
    cases there
  | ok record =>
    have node : src.node? .root = .ok (some (.suite record record.name false .main)) := by
      rw [node?, readSuite, read]
      rfl
    exact ⟨_, title?_eq_some.2 ⟨_, node, rfl, rfl⟩⟩

end Source

end RunReport
