import RunReport.Proofs.Addressing
import RunReport.Proofs.Reaching
/-!
# Keyword paths

The path of a keyword is the full name of the suite or test it belongs to, followed by the places of
the keywords down to it. Where no two suites or tests have the same full name, and none has a dot in
its own name or a number for it, a descent by the path comes to that suite or test and to no other:
below a suite only one name leads on, and no name leads on where the places begin. What is left of
the path are the places, and the id that they make leads to the keyword.
-/

namespace RunReport

/-! ## Places after a name -/

/-- A name followed by places. -/
def dottedPath (name : String) (places : List Nat) : String :=
  places.foldl (fun path i => path ++ "." ++ toString i) name

/-- The steps to a keyword, from one keyword to the next. -/
def keywordSegments (places : List Nat) : List Segment :=
  places.map fun i => ⟨.keyword, i⟩

theorem toList_dottedPath (name : String) (places : List Nat) :
    (dottedPath name places).toList =
      name.toList ++ places.flatMap fun i => '.' :: (toString i).toList := by
  induction places generalizing name with
  | nil => simp [dottedPath]
  | cons i places ih =>
    have next : dottedPath name (i :: places) = dottedPath (name ++ "." ++ toString i) places := rfl
    rw [next, ih]
    simp

/-- Places are read back, one between each two dots. -/
theorem cut_places {first : List Char} (undotted : '.' ∉ first) (places : List Nat) :
    Text.cut ['.'] (first ++ places.flatMap fun i => '.' :: (toString i).toList) =
      first :: places.map fun i => (toString i).toList := by
  induction places using List.reverseRecOn with
  | nil => simpa using cut_plain undotted
  | append_singleton places i ih =>
    rw [List.flatMap_append, List.flatMap_singleton, ← List.append_assoc,
      cut_append _ (not_mem_natural (by decide) i), ih]
    simp

theorem keywordSteps_places {places : List Nat} (fit : ∀ i ∈ places, i ≤ Json.maxU64) :
    Session.keywordSteps (places.map fun i => (toString i).toList) = keywordSegments places := by
  induction places with
  | nil => rfl
  | cons i places ih =>
    have first := ordinal?_toString (fit i (by simp))
    simp only [List.map_cons, Session.keywordSteps, first, ih fun j mem => fit j (by simp [mem])]
    rfl

theorem Route.text_append (r : Route) (steps : List Segment) :
    (r.append steps).text = steps.foldl (fun above step => above ++ "-" ++ step.text) r.text := by
  induction steps generalizing r with
  | nil => rfl
  | cons step rest ih => exact ih (.child r step)

/-- What follows the dot after the name are the places. -/
theorem cut_after_dot (places : List Nat) :
    (Text.cut ['.'] ((places.flatMap fun i => '.' :: (toString i).toList).dropWhile
      (· == '.'))).filter (!·.isEmpty) = places.map fun i => (toString i).toList := by
  cases places with
  | nil => rfl
  | cons i places =>
    have undotted : '.' ∉ (toString i).toList := not_mem_natural (by decide) i
    have nonempty : ∀ j : Nat, (toString j).toList ≠ [] := by
      intro j
      rw [show (toString j).toList = Nat.toDigits 10 j by simp]
      exact Nat.toDigits_ne_nil
    obtain ⟨c, cs, digits⟩ := List.exists_cons_of_ne_nil (nonempty i)
    have other : c ≠ '.' := by
      rintro rfl
      rw [digits] at undotted
      exact undotted List.mem_cons_self
    have dropped : ((i :: places).flatMap fun i => '.' :: (toString i).toList).dropWhile (· == '.') =
        (toString i).toList ++ places.flatMap fun i => '.' :: (toString i).toList := by
      rw [List.flatMap_cons, digits]
      simp [other]
    rw [dropped, cut_places undotted, List.filter_eq_self.2]
    · rfl
    · intro piece mem
      obtain ⟨j, -, rfl⟩ : ∃ j ∈ i :: places, (toString j).toList = piece := List.mem_map.1 mem
      simp

/-- The places after the name of a suite or test make the id of the keyword. -/
theorem keywordId_dottedPath (owner : Route) (name : String) {places : List Nat}
    (fit : ∀ i ∈ places, i ≤ Json.maxU64) :
    Session.keywordId (.branch owner) name (dottedPath name places) =
      (owner.append (keywordSegments places)).text := by
  have rest : Text.after? name.toList (dottedPath name places).toList =
      some (places.flatMap fun i => '.' :: (toString i).toList) := by
    rw [toList_dottedPath, Text.after?, if_pos (by simp), List.drop_left]
  rw [Route.text_append, Session.keywordId, rest]
  simp only [Option.getD_some, cut_after_dot, keywordSteps_places fit]
  rfl

theorem isNameStart_dottedPath (name : String) (places : List Nat) :
    Session.isNameStart name (dottedPath name places) = true := by
  induction places generalizing name with
  | nil => exact Session.isNameStart_iff.2 (.inl rfl)
  | cons i places ih => exact (Session.isNameStart_above (ih (name ++ "." ++ toString i))).1

/-- A text of one or more digits. -/
def isNumeral (text : String) : Bool :=
  !text.isEmpty && text.toList.all Char.isDigit

theorem isNumeral_toString (n : Nat) : isNumeral (toString n) = true := by
  have digits : (toString n).toList = Nat.toDigits 10 n := by simp
  rw [isNumeral, digits, Bool.and_eq_true, List.all_eq_true]
  constructor
  · rw [Bool.not_eq_true', ← Bool.not_eq_true, String.isEmpty_iff]
    intro empty
    rw [empty] at digits
    exact Nat.toDigits_ne_nil digits.symm
  · intro c mem
    exact Nat.isDigit_of_mem_toDigits (by decide) (by decide) mem

namespace Source

variable {src lib : Source} {r owner : Route} {step : Segment} {t u : Title} {places : List Nat}
  {path : String} {depth i : Nat}

/-! ## Suites and tests by their names -/

/-- The names of a suite or test. -/
def heading? (src : Source) (r : Route) : Option Title :=
  (src.title? .suite r).or (src.title? .test r)

theorem heading?_eq_some : src.heading? r = some t ↔
    ∃ b : Branch, b ≠ .keyword ∧ src.title? b r = some t := by
  rw [heading?, Option.or_eq_some_iff]
  constructor
  · rintro (suite | ⟨-, test⟩)
    · exact ⟨.suite, by decide, suite⟩
    · exact ⟨.test, by decide, test⟩
  · rintro ⟨b, named, there⟩
    cases b with
    | suite => exact .inl there
    | test =>
      refine .inr ⟨?_, there⟩
      cases suite : src.title? .suite r with
      | none => rfl
      | some t' => cases title?_unique suite there
    | keyword => exact absurd rfl named

/-- No two suites or tests have the same full name, and none has a dot in its own name or a number
for it. -/
structure Unambiguous (src : Source) : Prop where
  distinct : ∀ r r' t t', src.heading? r = some t → src.heading? r' = some t' →
    t.full = t'.full → r = r'
  undotted : ∀ r t, src.heading? r = some t → '.' ∉ t.own.toList
  wordy : ∀ r t, src.heading? r = some t → isNumeral t.own = false

theorem heading?_child (h : src.heading? (.child owner step) = some t) :
    ∃ above, src.title? .suite owner = some above ∧ t.full = above.full ++ "." ++ t.own := by
  obtain ⟨b, named, there⟩ := heading?_eq_some.1 h
  exact (title?_child named there).2

/-- Of two siblings only one leads to a path. -/
theorem Unambiguous.sibling (h : src.Unambiguous) {step' : Segment} {t' : Title}
    (there : src.heading? (.child owner step) = some t)
    (there' : src.heading? (.child owner step') = some t')
    (start : Session.isNameStart t.full path = true)
    (start' : Session.isNameStart t'.full path = true) : step = step' := by
  obtain ⟨above, suite, full⟩ := heading?_child there
  obtain ⟨above', suite', full'⟩ := heading?_child there'
  cases suite.symm.trans suite'
  rw [full] at start
  rw [full'] at start'
  have own := Session.eq_of_isNameStart (h.undotted _ _ there) (h.undotted _ _ there') start start'
  have same := h.distinct _ _ _ _ there there' (by rw [full, full', own])
  cases same
  rfl

/-- No name leads on where the places begin. -/
theorem Unambiguous.places_begin (h : src.Unambiguous) (suite : src.title? .suite owner = some u)
    (there : src.heading? (.child owner step) = some t) :
    Session.isNameStart t.full (dottedPath u.full (i :: places)) = false := by
  rw [← Bool.not_eq_true]
  intro start
  obtain ⟨above, suite', full⟩ := heading?_child there
  cases suite.symm.trans suite'
  rw [full] at start
  have place : Session.isNameStart (u.full ++ "." ++ toString i) (dottedPath u.full (i :: places)) =
      true := isNameStart_dottedPath ..
  have own := Session.eq_of_isNameStart (h.undotted _ _ there) (not_mem_natural (by decide) i) start
    place
  have numeral := h.wordy _ _ there
  rw [own, isNumeral_toString] at numeral
  cases numeral

/-! ## Checking names -/

/-- All suites and tests of the report. -/
def headed (src : Source) : List Route :=
  src.suites ++ src.suites.flatMap (src.below .test)

theorem mem_headed (h : src.heading? r = some t) : r ∈ src.headed := by
  obtain ⟨b, named, there⟩ := heading?_eq_some.1 h
  rw [headed, List.mem_append, List.mem_flatMap]
  cases b with
  | suite => exact .inl (mem_suites there)
  | test =>
    cases r with
    | root => cases title?_root there
    | child owner step =>
      obtain ⟨b, i⟩ := step
      obtain ⟨rfl, above, suite, -⟩ := title?_child named there
      exact .inr ⟨owner, mem_suites suite, mem_below (contains_of_title? there)⟩
  | keyword => exact absurd rfl named

/-- Whether names tell the suites and tests apart. -/
def isUnambiguous (src : Source) : Bool :=
  src.headed.all fun r => (src.heading? r).all fun t =>
    !t.own.toList.contains '.' && !isNumeral t.own &&
      src.headed.all fun r' => r' == r || (src.heading? r').all (·.full != t.full)

theorem unambiguous_of_isUnambiguous (h : src.isUnambiguous = true) : src.Unambiguous := by
  have each : ∀ r t, src.heading? r = some t →
      ('.' ∉ t.own.toList ∧ isNumeral t.own = false) ∧
        ∀ r' ∈ src.headed, r' = r ∨ ∀ t', src.heading? r' = some t' → t'.full ≠ t.full := by
    intro r t there
    have here := List.all_eq_true.1 h r (mem_headed there)
    simpa [there, Option.all_eq_true] using here
  constructor
  · intro r r' t t' there there' same
    rcases (each r t there).2 r' (mem_headed there') with equal | other
    · exact equal.symm
    · exact absurd same.symm (other t' there')
  · exact fun r t there => (each r t there).1.1
  · exact fun r t there => (each r t there).1.2

/-! ## Where a path leads -/

/-- Where a descent by a path ends: at the first test whose name leads to it, or at the last
suite. -/
def ownerIn (src : Source) (path : String) : (depth : Nat) → Route → Route
  | 0, r => r
  | depth + 1, r =>
    match (src.below .test r).find? (src.isTitled .test (Session.isNameStart · path)) with
    | some test => test
    | none =>
      match (src.below .suite r).find? (src.leads path) with
      | some next => src.ownerIn path depth next
      | none => r

theorem find?_below_eq_none {b : Branch} (named : b ≠ .keyword)
    (unled : ∀ step t, src.heading? (.child r step) = some t →
      Session.isNameStart t.full path = true → step.branch ≠ b) :
    (src.below b r).find? (src.isTitled b (Session.isNameStart · path)) = none := by
  rw [List.find?_eq_none]
  intro q mem titled
  obtain ⟨j, rfl⟩ := eq_child_of_mem_below mem
  obtain ⟨t, there, start⟩ := isTitled_iff.1 titled
  exact unled _ t (heading?_eq_some.2 ⟨b, named, there⟩) start rfl

theorem Unambiguous.find?_below (h : src.Unambiguous) {b : Branch} (named : b ≠ .keyword)
    (titled : src.isTitled b (Session.isNameStart · path) (.child r ⟨b, i⟩) = true) :
    (src.below b r).find? (src.isTitled b (Session.isNameStart · path)) =
      some (.child r ⟨b, i⟩) := by
  obtain ⟨t, there, start⟩ := isTitled_iff.1 titled
  obtain ⟨q, found⟩ : ∃ q, (src.below b r).find? (src.isTitled b (Session.isNameStart · path)) =
      some q := by
    rw [← Option.isSome_iff_exists, List.find?_isSome]
    exact ⟨_, mem_below (contains_of_title? there), titled⟩
  obtain ⟨j, rfl⟩ := eq_child_of_mem_below (List.mem_of_find?_eq_some found)
  obtain ⟨t', there', start'⟩ := isTitled_iff.1 (List.find?_some found)
  rw [found, h.sibling (heading?_eq_some.2 ⟨b, named, there'⟩)
    (heading?_eq_some.2 ⟨b, named, there⟩) start' start]

/-- Where a suite leads on the descent enters it: no test leads on, and no other suite. -/
theorem Unambiguous.ownerIn_down (h : src.Unambiguous)
    (onward : src.leads path (.child r ⟨.suite, i⟩) = true) :
    src.ownerIn path (depth + 1) r = src.ownerIn path depth (.child r ⟨.suite, i⟩) := by
  obtain ⟨t, there, start⟩ := isTitled_iff.1 onward
  have heading : src.heading? (.child r ⟨.suite, i⟩) = some t :=
    heading?_eq_some.2 ⟨.suite, by decide, there⟩
  have noTest : (src.below .test r).find? (src.isTitled .test (Session.isNameStart · path)) = none :=
    find?_below_eq_none (by decide) fun step t' heading' start' => by
      rw [← h.sibling heading heading' start start']
      exact fun same => by cases same
  have first : (src.below .suite r).find? (src.leads path) = some (.child r ⟨.suite, i⟩) :=
    h.find?_below (by decide) onward
  rw [ownerIn, noTest, first]

/-- The descent ends at the suite or test that the keyword belongs to. -/
theorem Unambiguous.ownerIn_dottedPath (h : src.Unambiguous) (there : src.heading? owner = some u)
    (below : places ≠ []) :
    src.ownerIn (dottedPath u.full places) (src.suite.depth + 1) .root = owner ∧
      src.leads (dottedPath u.full places) .root = true := by
  obtain ⟨i, places, rfl⟩ := List.exists_cons_of_ne_nil below
  have start := isNameStart_dottedPath u.full (i :: places)
  obtain ⟨b, named, title⟩ := heading?_eq_some.1 there
  cases b with
  | keyword => exact absurd rfl named
  | suite =>
    have aim : src.leads (dottedPath u.full (i :: places)) owner = true :=
      isTitled_iff.2 ⟨u, title, start⟩
    refine ⟨?_, leads_root aim⟩
    apply towards_root (P := fun depth r => src.ownerIn _ depth r = owner) aim
    · intro depth
      have nothing : ∀ b : Branch, b ≠ .keyword → (src.below b owner).find?
          (src.isTitled b (Session.isNameStart · (dottedPath u.full (i :: places)))) = none := by
        intro b named
        refine find?_below_eq_none named fun step t there' start' => ?_
        rw [h.places_begin title there'] at start'
        cases start'
      have noSuite : (src.below .suite owner).find? (src.leads (dottedPath u.full (i :: places))) =
          none := nothing .suite (by decide)
      rw [ownerIn, nothing .test (by decide), noSuite]
    · intro depth r j rest _ onward _ reached
      rw [h.ownerIn_down onward, reached]
  | test =>
    cases owner with
    | root => cases title?_root title
    | child a step =>
      obtain ⟨b, j⟩ := step
      obtain ⟨rfl, above, suite, full⟩ := title?_child (by decide) title
      have aim : src.leads (dottedPath u.full (i :: places)) a = true := by
        refine isTitled_iff.2 ⟨above, suite, ?_⟩
        rw [full] at start ⊢
        exact (Session.isNameStart_above start).1
      refine ⟨?_, leads_root aim⟩
      apply towards_root (P := fun depth r => src.ownerIn _ depth r = _) aim
      · intro depth
        rw [ownerIn, h.find?_below (by decide) (isTitled_iff.2 ⟨u, title, start⟩)]
      · intro depth r j rest _ onward _ reached
        rw [h.ownerIn_down onward, reached]

/-- A keyword belongs to a suite or test, and its path tells the places down from there. -/
theorem title?_keyword (h : src.title? .keyword r = some t) : ∃ owner u places,
    src.heading? owner = some u ∧ places ≠ [] ∧ r = owner.append (keywordSegments places) ∧
      t.full = dottedPath u.full places := by
  induction r generalizing t with
  | root => cases title?_root h
  | child above step ih =>
    obtain ⟨p, there, kind, rfl⟩ := title?_eq_some.1 h
    obtain ⟨upper, node, child⟩ := node?_child there
    obtain ⟨raw, table, -, read⟩ := child?_eq_some.1 child
    have branch : step.branch = .keyword :=
      Branch.kind_injective ((node?_named there).1.symm.trans kind)
    obtain ⟨b, i⟩ := step
    cases branch
    obtain ⟨record, -, rfl⟩ := readKeyword_eq_ok.1 read
    -- Right below a suite or test the path begins; below a keyword it goes on.
    have begins : ∀ b : Branch, b ≠ .keyword → upper.kind = b.kind →
        upper.title.full = upper.pathBase → ∃ owner u places, src.heading? owner = some u ∧
        places ≠ [] ∧ Route.child above ⟨.keyword, i⟩ = owner.append (keywordSegments places) ∧
        s!"{upper.pathBase}.{i}" = dottedPath u.full places := by
      intro b named upperKind full
      refine ⟨above, upper.title, [i], heading?_eq_some.2 ⟨b, named, ?_⟩, by simp, rfl, ?_⟩
      · exact title?_eq_some.2 ⟨upper, node, upperKind, rfl⟩
      · rw [full]
        rfl
    cases hu : upper with
    | suite => rw [hu] at begins; exact begins .suite (by decide) rfl rfl
    | test => rw [hu] at begins; exact begins .test (by decide) rfl rfl
    | keyword =>
      obtain ⟨owner, u, places, heading, -, rfl, full⟩ :=
        ih (title?_eq_some.2 ⟨upper, node, by rw [hu]; rfl, rfl⟩)
      refine ⟨owner, u, places ++ [i], heading, by simp, ?_, ?_⟩
      · simp [keywordSegments, Route.append]
      · rw [hu] at full
        have longer : dottedPath u.full (places ++ [i]) =
            dottedPath u.full places ++ "." ++ toString i := List.foldl_append
        rw [longer, ← full]
        rfl

/-! ## Suites and tests need no split files -/

theorem Within.child?_named (h : src.Within lib) {p : Plain} (has : src.Has p.table)
    (named : step.branch ≠ .keyword) : lib.child? p step = src.child? p step := by
  have items : lib.items? p step.branch.kind = src.items? p step.branch.kind := by
    obtain ⟨b, i⟩ := step
    cases b with
    | keyword => exact absurd rfl named
    | suite => cases p <;> rfl
    | test => cases p <;> rfl
  have records : lib.record? p step = src.record? p step := by
    simp only [Source.record?, items]
  simp only [Source.child?, records]
  cases hr : src.record? p step with
  | none => rfl
  | some x => simp only [h.readChild has (record?_has has hr)]

theorem Within.node?_named (h : src.Within lib) (named : ∀ step ∈ r.steps, step.branch ≠ .keyword) :
    lib.node? r = src.node? r := by
  induction r with
  | root =>
    have read : lib.readSuite none src.suite .main = src.readSuite none src.suite .main :=
      h.readSuite (fun _ none => by cases none) trivial
    rw [Source.node?, Source.node?, h.suite, read]
  | child owner step ih =>
    have above := ih fun step' mem => named step' (List.mem_append_left _ mem)
    cases there : src.node? owner with
    | error e =>
      rw [there] at above
      simp only [Source.node?, above, there, bind, Except.bind]
    | ok found =>
      rw [there] at above
      cases found with
      | none =>
        simp only [Source.node?, above, there, bind, Except.bind]
      | some p =>
        rw [node?_child_of there, node?_child_of above]
        exact h.child?_named (node?_has there) (named step (by simp [Route.steps]))

theorem branch_of_heading? (h : src.heading? r = some t) :
    ∀ step ∈ r.steps, step.branch ≠ .keyword := by
  obtain ⟨b, named, there⟩ := heading?_eq_some.1 h
  cases r with
  | root => simp [Route.steps]
  | child owner step =>
    obtain ⟨rfl, above, suite, -⟩ := title?_child named there
    intro step' mem
    rcases List.mem_append.1 mem with before | last
    · rw [branch_of_title? suite step' before]
      decide
    · rw [List.mem_singleton.1 last]
      exact named

theorem Within.heading? (h : src.Within lib) (t : Title) :
    lib.heading? r = some t ↔ src.heading? r = some t := by
  have same : (∀ step ∈ r.steps, step.branch ≠ .keyword) → lib.heading? r = src.heading? r := by
    intro named
    simp only [Source.heading?, title?, h.node?_named named]
  constructor
  · intro there
    rw [← same (branch_of_heading? there)]
    exact there
  · intro there
    rw [same (branch_of_heading? there)]
    exact there

theorem Unambiguous.within (h : lib.Unambiguous) (le : src.Within lib) : src.Unambiguous where
  distinct r r' t t' there there' :=
    h.distinct r r' t t' ((le.heading? t).2 there) ((le.heading? t').2 there')
  undotted r t there := h.undotted r t ((le.heading? t).2 there)
  wordy r t there := h.wordy r t ((le.heading? t).2 there)

theorem Whole.legible_within (h : lib.Whole) (le : src.Within lib) :
    src.Legible [.suite, .test] := by
  intro r kinds
  rw [← le.node?_named]
  · exact h.legible [.suite, .test] r kinds
  · intro step mem same
    have kind := kinds step mem
    rw [same] at kind
    revert kind
    decide

end Source

namespace Session

open Effects

variable {s : Session} {lib : Source} {r owner : Route} {t u : Title} {places : List Nat}
  {bs : List Branch}

/-! ## Going down by a path -/

/-- A descent by a path comes to where the path leads. -/
theorem ownerFrom_obtains (path : String) (depth : Nat) (h : s.Consistent)
    (legible : s.source.Legible bs) (suites : .suite ∈ bs) (tests : .test ∈ bs)
    (there : s.source.title? .suite r = some t) (registered : (s.branch? r).isSome) :
    ∃ s', s.Obtains (ownerFrom path depth r) (.branch (s.source.ownerIn path depth r)) s' ∧
      (s'.branch? (s.source.ownerIn path depth r)).isSome := by
  induction depth generalizing s r t with
  | zero => exact ⟨s, obtains_pure h _, registered⟩
  | succ depth ih =>
    obtain ⟨s₁, listed, found, made⟩ := testsOf_obtains (p := (isNameStart · path)) h legible suites
      tests there registered
    rw [ownerFrom, Source.ownerIn]
    cases test : (s.source.below .test r).find?
        (s.source.isTitled .test (isNameStart · path)) with
    | some q =>
      refine ⟨s₁, listed.bind ((obtains_get listed.consistent).bind ?_),
        made q (List.mem_of_find?_eq_some test)⟩
      rw [found, test]
      exact obtains_pure listed.consistent _
    | none =>
      have source := listed.explores.source
      rw [← source] at legible there
      obtain ⟨s₂, listed₂, made₂⟩ := suitesOf_obtains listed.consistent legible suites there
        (listed.isSome registered)
      have source₂ := listed₂.explores.source.trans source
      rw [source] at listed₂ made₂
      have same : ∀ q ∈ s.source.below .suite r, s₂.leadsTo path q = s.source.leads path q := by
        intro q mem
        rw [leadsTo_eq listed₂.consistent (made₂ q mem), source₂]
      simp only [← List.find?_congr same]
      cases next : (s.source.below .suite r).find? (s₂.leadsTo path) with
      | none =>
        refine ⟨s₂, listed.bind ((obtains_get listed.consistent).bind ?_),
          listed₂.isSome (listed.isSome registered)⟩
        rw [found, test]
        refine listed₂.bind ((obtains_get listed₂.consistent).bind ?_)
        rw [next]
        exact obtains_pure listed₂.consistent _
      | some q =>
        have mem := List.mem_of_find?_eq_some next
        have registered₂ := made₂ q mem
        rw [source, ← source₂] at legible
        rw [← source₂] at mem
        obtain ⟨y, there₂⟩ := title?_of_mem listed₂.consistent mem registered₂
        -- Listing has made the suite that is entered, so the descent goes on from it.
        obtain ⟨s₃, descended, reached⟩ := ih listed₂.consistent legible there₂ registered₂
        rw [source₂] at descended reached
        refine ⟨s₃, listed.bind ((obtains_get listed.consistent).bind ?_), reached⟩
        rw [found, test]
        refine listed₂.bind ((obtains_get listed₂.consistent).bind ?_)
        rw [next]
        exact descended

theorem pathBase_of_heading? (h : s.Consistent) (registered : (s.branch? r).isSome)
    (there : s.source.heading? r = some t) :
    ((s.branch? r).map Node.pathBase).getD "" = t.full := by
  obtain ⟨n, hn⟩ := Option.isSome_iff_exists.1 registered
  obtain ⟨p, plain, node, -⟩ := h.plain hn
  obtain ⟨b, -, title⟩ := Source.heading?_eq_some.1 there
  obtain ⟨p', node', -, rfl⟩ := Source.title?_eq_some.1 title
  cases node.symm.trans node'
  rw [hn, Option.map_some, Option.getD_some, pathBase_of_plain plain]
  cases p <;> rfl

/-- Looking for a keyword by its path comes to resolving its id. -/
theorem pathToKeyword_run (h : s.Consistent) (legible : s.source.Legible [.suite, .test])
    (clear : s.source.Unambiguous) (there : s.source.heading? owner = some u)
    (below : places ≠ []) (fit : ∀ i ∈ places, i ≤ Json.maxU64) (sink : Sink) :
    ∃ s', s'.Consistent ∧ s.Explores s' ∧ (s'.node? .root).isSome ∧
      (pathToKeyword (dottedPath u.full places) sink).run s =
        (liftM (resolvePath (owner.append (keywordSegments places)).text sink) : Run Unit).run
          s' := by
  obtain ⟨s₁, begun, registered⟩ := rootSuite_obtains h legible
  have source := begun.explores.source
  obtain ⟨reaches, onward⟩ := clear.ownerIn_dottedPath there below
  have leads : s₁.leadsTo (dottedPath u.full places) .root = true := by
    rw [leadsTo_eq begun.consistent registered, source]
    exact onward
  obtain ⟨root, isRoot⟩ := legible.root
  rw [← source] at legible isRoot
  obtain ⟨s₂, descended, reached⟩ := ownerFrom_obtains (dottedPath u.full places)
    s₁.suiteDepth begun.consistent legible (by simp) (by simp) isRoot registered
  have ended : s₁.source.ownerIn (dottedPath u.full places) s₁.suiteDepth .root = owner := by
    rw [suiteDepth, show s₁.suite = s.suite from congrArg Source.suite source, source]
    exact reaches
  rw [ended] at descended reached
  have explores := begun.explores.trans descended.explores
  have name : ((s₂.node? (.branch owner)).map Node.pathBase).getD "" = u.full :=
    pathBase_of_heading? descended.consistent reached (by rw [explores.source]; exact there)
  refine ⟨s₂, descended.consistent, explores, descended.isSome registered, ?_⟩
  rw [pathToKeyword, run_bind_ok begun.run, run_bind_ok (run_get s₁), if_pos leads,
    run_bind_ok descended.run, run_bind_ok (run_get s₂)]
  simp only [name, keywordId_dottedPath owner u.full fit]

/-- Looking for a keyword by its path makes what it passes and sets out on the way to the keyword;
nobody else is answered. -/
theorem keywordPath_step (h : s.Consistent) (legible : s.source.Legible [.suite, .test])
    (clear : s.source.Unambiguous) (there : s.source.heading? owner = some u)
    (below : places ≠ []) (fit : ∀ i ∈ places, i ≤ Json.maxU64) (label : String) (files : Files) :
    ∃ s', (step files (.report (.keywordPath (dottedPath u.full places) label))).run s =
        ((.done, s'.fired), s') ∧
      s'.Tracks (s.waiting ++ [.request (owner.append (keywordSegments places)).text label]) ∧
      s'.fired = (s.waiting ++
        [Task.request (owner.append (keywordSegments places)).text label]).flatMap
          fun t => (s'.source.fate t).events := by
  obtain ⟨s₁, consistent, explores, root, run⟩ := pathToKeyword_run h.silent legible clear there
    below fit (.callback label)
  obtain ⟨s₂, ran, tracks, -, fired⟩ := resolvePath_sets_out explores rfl consistent root
    (owner.append (keywordSegments places)).text label files
  rw [run_state, ran] at run
  refine ⟨s₂, step_run ?_, tracks, fired⟩
  rw [stepAnswer_report h.silent, answer_run, reportAnswer, run_bind_ok run]
  rfl

/-- Where nothing is missing, the id of a node resolves to the ids down to it once the files on the
way are there, and to nothing before. -/
theorem resolution_text (h : s.Consistent) (root : (s.node? .root).isSome) (whole : lib.Whole)
    (within : s.source.Within lib) (there : lib.Contains r)
    (countable : ∀ step ∈ r.steps, step.Countable) (label : String) :
    (s.Supplied lib r.text →
      (s.source.fate (.request r.text label)).events = [.resolved label (.ok r.chain)]) ∧
    (¬s.Supplied lib r.text → (s.source.fate (.request r.text label)).events = []) := by
  obtain ⟨p, hp⟩ := whole.root
  obtain ⟨ends, stays⟩ := resolution_done h root r.text within
  constructor
  · intro supplied
    obtain ⟨result, done⟩ := (ends p hp).2 (supplied p hp)
    obtain ⟨taken, longest, reached⟩ := Source.resolution_whole whole r.text
    cases reached.symm.trans (stays result done)
    rw [Route.parsePath_text countable] at longest
    rw [longest.whole (by rw [Route.append_steps]; exact there), Route.append_steps] at done
    rw [Source.fate, done]
    rfl
  · intro missing
    cases hw : s.source.resolution r.text with
    | done result =>
      refine absurd (fun q hq => ?_) missing
      cases hp.symm.trans hq
      exact (ends p hp).1 ⟨result, hw⟩
    | waits => rw [Source.fate, hw]; rfl

/-- In a report whose split files all exist and whose records can all be read, in which no two
suites or tests have the same full name and none has a dot in its own name or a number for it; for
every keyword, and whatever requests, announcements and servings come later: the path of the keyword
calls back once, with the ids from the root down to the keyword, as soon as the files on the way
have come, and not before. -/
theorem keyword_path_resolves_to_keyword (h : s.Reachable) (whole : lib.Whole)
    (within : s.source.Within lib) (clear : lib.Unambiguous)
    (there : lib.title? .keyword r = some t) (countable : ∀ step ∈ r.steps, step.Countable)
    (label : String) (files : Files) (later : List (Files × Turn)) :
    ∃ events s₁ answers s₂,
      (step files (.report (.keywordPath t.full label))).run s = ((.done, events), s₁) ∧
      (turns later).run s₁ = (answers, s₂) ∧
      (s₂.source.Within lib → ∃ called,
        (events ++ answers.flatMap (·.2)).Perm (called ++
          (s.waiting ++ later.filterMap (·.2.task?)).flatMap
            fun t => (s₂.source.fate t).events) ∧
        (s₂.Supplied lib r.text → called = [.resolved label (.ok ((r.owners ++ [r]).map .branch))]) ∧
        (¬s₂.Supplied lib r.text → called = [])) := by
  obtain ⟨owner, u, places, heading, below, rfl, full⟩ := Source.title?_keyword there
  have fit : ∀ i ∈ places, i ≤ Json.maxU64 := by
    intro i mem
    refine Nat.le_of_lt (countable ⟨.keyword, i⟩ ?_)
    rw [Route.steps_append]
    exact List.mem_append_right _ (List.mem_map_of_mem mem)
  rw [full]
  obtain ⟨s₁, run, tracks, fired⟩ := keywordPath_step h.consistent (whole.legible_within within)
    (clear.within within) ((within.heading? u).1 heading) below fit label files
  obtain ⟨after, -, answered, -⟩ := turns_track tracks later
  refine ⟨s₁.fired, s₁, ((turns later).run s₁).1, ((turns later).run s₁).2, run, rfl,
    fun within₂ => ⟨_, ?_, resolution_text after.consistent after.root whole within₂
      (Source.contains_of_title? there) countable label⟩⟩
  rw [← fired] at answered
  refine List.perm_append_comm.trans (answered.trans ?_)
  simp only [List.flatMap_append, List.flatMap_cons, List.flatMap_nil, List.append_nil,
    List.append_assoc]
  exact List.perm_append_comm_assoc ..

/-- A suite below the root with a test, whose keywords are in a file. -/
def filedReport : String :=
  "\x7b\"version\":2,\"generatedMillis\":0,\"baseMillis\":0,
    \"strings\":[\"*\",\"*Root\",\"*A\",\"*t\"],\"suite\":[1,0,0,0,[],[1,0,1],
    [[2,0,0,0,[],[1,0,1],[],[[3,0,0,0,[],[1,0,1],1]],[],[0,0,0,0]]],[],[],[0,0,0,0]],
    \"stats\":[]\x7d"

/-- The keyword of the test: `s1-s1-t1-k1`. -/
def filedKeyword : Route :=
  .child (.child (.child .root ⟨.suite, 0⟩) ⟨.test, 0⟩) ⟨.keyword, 0⟩

/-- The path of that keyword is looked for, and then the file comes. -/
def filedRun : List (Files × Step) :=
  (sampleFiles, .report (.keywordPath "Root.A.t.0" "filed")) ::
    deepTurns.map fun t => (t.1, t.2.step)

theorem filedRun_keeps : ∀ m ∈ filedRun, m.2.keepsReport = true := by
  simp [filedRun, deepTurns, Turn.step, Move.step, Step.keepsReport]

theorem filedRun_end {s₁ s₂ : Session} {a : Answer × List Event}
    {answers : List (Answer × List Event)}
    (ran : (step sampleFiles (.report (.keywordPath "Root.A.t.0" "filed"))).run s = (a, s₁))
    (turned : (turns deepTurns).run s₁ = (answers, s₂)) : ((play filedRun).run s).2 = s₂ := by
  rw [turns] at turned
  simp only [filedRun, play, state_bind, ran, turned]
  rfl

set_option maxRecDepth 2000 in
theorem keyword_path_resolves_to_keyword_sample : ∃ (s : Session) (lib : Source) (t : Title),
    s.Reachable ∧ lib.Whole ∧ s.source.Within lib ∧ lib.Unambiguous ∧
    lib.title? .keyword filedKeyword = some t ∧ t.full = "Root.A.t.0" ∧
    ∃ events s₁ answers s₂,
      (step sampleFiles (.report (.keywordPath t.full "filed"))).run s = ((.done, events), s₁) ∧
      (turns deepTurns).run s₁ = (answers, s₂) ∧ s₂.source.Within lib ∧
      s₂.Supplied lib filedKeyword.text ∧
      .resolved "filed" (.ok ((filedKeyword.owners ++ [filedKeyword]).map .branch)) ∈
        events ++ answers.flatMap (·.2) := by
  have opens : opensTo (fun s => ((play filedRun).run s).2.source.isWhole 5 &&
      ((play filedRun).run s).2.source.isUnambiguous &&
      (((play filedRun).run s).2.source.title? .keyword filedKeyword).any
        fun t => t.full == "Root.A.t.0") filedReport = true :=
    opensTo_ofList (by decide +kernel)
  obtain ⟨s, opened, checked⟩ := opensTo_iff.1 opens
  simp only [Bool.and_eq_true, Option.any_eq_true] at checked
  obtain ⟨⟨isWhole, isUnambiguous⟩, t, there, full⟩ := checked
  have full := eq_of_beq full
  have reachable : s.Reachable := ⟨filedReport, s, [], opened, by simp, rfl⟩
  have whole := Source.whole_of_isWhole isWhole
  have clear := Source.unambiguous_of_isUnambiguous isUnambiguous
  have within : s.source.Within ((play filedRun).run s).2.source :=
    ((says_play s.source filedRun_keeps).proceeds s reachable.consistent).2.source
  have countable : ∀ step ∈ filedKeyword.steps, step.Countable := by
    simp [filedKeyword, Route.steps, Segment.Countable, Json.maxU64]
  obtain ⟨events, s₁, answers, s₂, ran, turned, resolves⟩ := keyword_path_resolves_to_keyword
    reachable whole within clear there countable "filed" sampleFiles deepTurns
  have ended : ((play filedRun).run s).2 = s₂ := filedRun_end (by rw [← full]; exact ran) turned
  rw [ended] at whole clear there within resolves
  have supplied : s₂.Supplied s₂.source filedKeyword.text := by
    intro p hp
    have start : [NodeId.root].reverse = Route.root.chain := rfl
    obtain ⟨taken, -, walked⟩ := Source.walk_whole whole (parsePath filedKeyword.text) hp start
    exact (Source.walk_done_iff (.refl _) (Source.node?_has hp)).1 ⟨_, walked⟩
  obtain ⟨called, fired, once, -⟩ := resolves (.refl _)
  refine ⟨s, _, t, reachable, whole, within, clear, there, full, events, s₁, answers, _, ran,
    turned, .refl _, supplied, ?_⟩
  rw [fired.mem_iff, once supplied]
  exact List.mem_cons_self

end Session

end RunReport
