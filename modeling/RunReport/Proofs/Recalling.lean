import RunReport.Proofs.Dormancy
/-!
# Searching and describing after the report is dropped

A search that meets a suite or a test that was not made fails, and one that meets none finds what it
would have found before. A node that was made can be described; only whether its teardown failed may
not be known any more.
-/

namespace RunReport.Session

open Effects

variable {s t u : Session} {r : Route} {kind : NodeKind} {i : Nat} {id : NodeId}
  {engine : Query.Engine}

/-! ## Searches -/

/-- Below the suite something is needed that was not made. All suites are needed, and the tests of
the suites that are wanted and of the suites below them; `inside` says that one above is wanted. -/
inductive Gap (s : Session) (wanted : Route → Bool) : (inside : Bool) → Route → Prop
  | suite {b : Bool} {r : Route} {i : Nat} (inside : i < s.size r .suite)
    (empty : s.slot? r .suite i = none) : Gap s wanted b r
  | test {b : Bool} {r : Route} {i : Nat} (needed : (b || wanted r) = true)
    (inside : i < s.size r .test) (empty : s.slot? r .test i = none) : Gap s wanted b r
  | under {b : Bool} {r r' : Route} {i : Nat} (made : s.slot? r .suite i = some (.branch r'))
    (gap : Gap s wanted (b || wanted r) r') : Gap s wanted b r

/-- Below a suite that is wanted everything is needed. -/
theorem Gap.of_wanted {wanted : Route → Bool} (here : wanted r = true) :
    s.Gap wanted false r ↔ s.Gap wanted true r := by
  constructor
  · intro gap
    cases gap with
    | suite inside empty => exact .suite inside empty
    | test needed inside empty => exact .test rfl inside empty
    | under made gap =>
      rw [here] at gap
      exact .under made gap
  · intro gap
    cases gap with
    | suite inside empty => exact .suite inside empty
    | test needed inside empty => exact .test here inside empty
    | under made gap =>
      refine .under made ?_
      rw [here]
      exact gap

/-- What a walk comes to: it fails only if there is a gap, and then because the session is closed. -/
def Concludes {α : Type} (gap : Prop) (Q : α → Prop) : Except Error α → Prop
  | .ok a => Q a
  | .error e => e = .sessionClosed ∧ gap

theorem yields_walk (h : s.Dormant) (r : Route) (other : kind ≠ .message) :
    s.Yields (childList r kind)
      (Concludes (∃ i, i < s.size r kind ∧ s.slot? r kind i = none) fun ids =>
        (∀ i < s.size r kind, s.slot? r kind i ≠ none) ∧
          ∀ id, id ∈ ids ↔ ∃ i, s.slot? r kind i = some id) := by
  refine (yields_childList s r kind).mono fun v hv => ?_
  cases v with
  | ok ids =>
    obtain ⟨rfl, made⟩ := offeredAll_ok hv.symm
    exact ⟨fun i inside => Option.isSome_iff_ne_none.1 (made i inside), fun id => h.mem_madeOf⟩
  | error e =>
    obtain ⟨i, inside, empty, rfl⟩ := offeredAt_error hv.symm
    exact ⟨refusal_of_ne other, i, inside, empty⟩

theorem mem_routes {ids : List NodeId} : r ∈ routes ids ↔ NodeId.branch r ∈ ids := by
  rw [routes, List.mem_filterMap]
  constructor
  · rintro ⟨id, mem, eq⟩
    cases id with
    | message number => cases eq
    | branch r' =>
      cases eq
      exact mem
  · intro mem
    exact ⟨_, mem, rfl⟩

/-- Whatever is looked for, the suites are gone through or one of them is a gap. -/
theorem yields_suitesOf (h : s.Dormant) (wanted : Route → Bool) (b : Bool) (r : Route) :
    s.Yields (suitesOf r) (Concludes (s.Gap wanted b r) fun rs =>
      (∀ i < s.size r .suite, s.slot? r .suite i ≠ none) ∧
        ∀ r', r' ∈ rs ↔ ∃ i, s.slot? r .suite i = some (.branch r')) := by
  refine yields_bind (yields_walk h r (by simp)) (fun e failed => ?_) fun ids listed => ?_
  · obtain ⟨closed, i, inside, empty⟩ := failed
    exact ⟨closed, .suite inside empty⟩
  · obtain ⟨made, mem⟩ := listed
    exact yields_pure ⟨made, fun r' => mem_routes.trans (mem (.branch r'))⟩

theorem yields_flatMapRun {α : Type} {f : Route → Run (List α)} {gap : Route → Prop}
    {Q : α → Prop} {rs : List Route}
    (hf : ∀ r ∈ rs, s.Yields (f r) (Concludes (gap r) fun as => ¬gap r ∧ ∀ a ∈ as, Q a)) :
    s.Yields (flatMapRun f rs) (Concludes (∃ r ∈ rs, gap r) fun as =>
      (∀ r ∈ rs, ¬gap r) ∧ ∀ a ∈ as, Q a) := by
  induction rs with
  | nil => exact yields_pure ⟨by simp, by simp⟩
  | cons r rs ih =>
    refine yields_bind (hf r (by simp)) (fun e ⟨closed, gap⟩ => ⟨closed, r, by simp, gap⟩)
      fun first ⟨whole, good⟩ => ?_
    refine yields_bind (ih fun r' mem => hf r' (by simp [mem]))
      (fun e ⟨closed, r', mem, gap⟩ => ⟨closed, r', by simp [mem], gap⟩)
      fun rest ⟨others, good'⟩ => yields_pure ⟨?_, ?_⟩
    · exact List.forall_mem_cons.2 ⟨whole, others⟩
    · exact List.forall_mem_append.2 ⟨good, good'⟩

theorem Orderly.deeper (h : s.Orderly) {depth : Nat} {r' : Route} (enough : s.levels r < depth + 1)
    (made : ∃ i, s.slot? r .suite i = some (.branch r')) : s.levels r' < depth := by
  obtain ⟨i, hi⟩ := made
  have smaller := h.nested r i r' hi
  omega

/-- A walk over all tests fails exactly if one of them, or a suite on the way, was not made. -/
theorem yields_searchFrom (h : s.Dormant) (wanted : Route → Bool) (p : Test → Bool) {depth : Nat}
    {r : Route} (enough : s.levels r < depth) :
    s.Yields (searchFrom p depth r) (Concludes (s.Gap wanted true r) fun ids =>
      ¬s.Gap wanted true r ∧ ∀ id ∈ ids, (s.node? id).isSome) := by
  induction depth generalizing r with
  | zero => exact absurd enough (Nat.not_lt_zero _)
  | succ depth ih =>
    -- Each suite below nests less deep, so the levels that are left are enough for it.
    refine yields_bind (yields_suitesOf h _ _ r) (fun _ failed => failed) fun rs listed => ?_
    obtain ⟨suites, mem⟩ := listed
    refine yields_bind (yields_flatMapRun fun r' hr => ih (h.deeper enough ((mem r').1 hr)))
      (fun e ⟨closed, r', hr, gap⟩ => ?_) fun below ⟨whole, registered⟩ => ?_
    · obtain ⟨i, hi⟩ := (mem r').1 hr
      exact ⟨closed, .under hi gap⟩
    refine yields_bind (yields_walk h r (by simp))
      (fun _ ⟨closed, _, inside, empty⟩ => ⟨closed, .test rfl inside empty⟩)
      fun own ⟨tests, mem'⟩ => yields_get fun t _ _ => yields_pure ⟨?_, ?_⟩
    · intro gap
      cases gap with
      | suite inside empty => exact suites _ inside empty
      | test needed inside empty => exact tests _ inside empty
      | under made gap => exact whole _ ((mem _).2 ⟨_, made⟩) gap
    · refine List.forall_mem_append.2 ⟨registered, fun id hid => ?_⟩
      obtain ⟨i, hi⟩ := (mem' id).1 (List.mem_filter.1 hid).1
      exact h.filled r .test i id hi

theorem Mirrors.suiteDepth (h : s.Mirrors t) : t.suiteDepth = s.suiteDepth := by
  have suite : t.suite = s.suite := congrArg Source.suite h.source
  rw [Session.suiteDepth, Session.suiteDepth, suite]

theorem yields_searchTests (h : s.Dormant) (wanted : Route → Bool) (p : Test → Bool) (r : Route) :
    s.Yields (searchTests p r) (Concludes (s.Gap wanted true r) fun ids =>
      ¬s.Gap wanted true r ∧ ∀ id ∈ ids, (s.node? id).isSome) := by
  refine yields_get fun t _ mirrors => ?_
  rw [mirrors.suiteDepth]
  exact yields_searchFrom h wanted p (h.shallow r)

/-- Whether a suite has a name that is looked for. -/
def accepts (s : Session) (m : Query.Matcher engine) (r : Route) : Bool :=
  suiteMatches m (s.suite? r)

/-- The names of a suite are in its record. -/
theorem accepts_eq (s : Session) (m : Query.Matcher engine) (r : Route) : s.accepts m r =
    match (s.node? (.branch r)).bind Node.plain? with
    | some (.suite record fullName _ _) => m.acceptsAny [fullName, record.name]
    | _ => false := by
  rw [accepts, Session.suite?, branch?]
  cases s.node? (.branch r) with
  | none => rfl
  | some n => cases n <;> rfl

theorem Mirrors.accepts (h : s.Mirrors t) (m : Query.Matcher engine) (r : Route) :
    t.accepts m r = s.accepts m r := by
  rw [accepts_eq, accepts_eq, h.plain?]

theorem yields_inMatchingFrom (h : s.Dormant) (m : Query.Matcher engine) {depth : Nat} {r : Route}
    (enough : s.levels r < depth) :
    s.Yields (inMatchingFrom m depth r) (Concludes (s.Gap (s.accepts m) false r) fun ids =>
      ¬s.Gap (s.accepts m) false r ∧ ∀ id ∈ ids, (s.node? id).isSome) := by
  induction depth generalizing r with
  | zero => exact absurd enough (Nat.not_lt_zero _)
  | succ depth ih =>
    refine yields_get fun t _ mirrors => ?_
    have here : suiteMatches m (t.suite? r) = s.accepts m r := mirrors.accepts m r
    rw [here]
    split
    · next matched =>
      rw [Gap.of_wanted matched]
      exact yields_searchTests h _ _ r
    next other =>
    rw [Bool.not_eq_true] at other
    refine yields_bind (yields_suitesOf h _ _ r) (fun _ failed => failed) fun rs listed => ?_
    obtain ⟨suites, mem⟩ := listed
    refine (yields_flatMapRun fun r' hr => ih (h.deeper enough ((mem r').1 hr))).mono fun v hv => ?_
    cases v with
    | error e =>
      obtain ⟨closed, r', hr, gap⟩ := hv
      obtain ⟨i, hi⟩ := (mem r').1 hr
      refine ⟨closed, .under hi ?_⟩
      rw [other]
      exact gap
    | ok ids =>
      refine ⟨fun gap => ?_, hv.2⟩
      cases gap with
      | suite inside empty => exact suites _ inside empty
      | test needed inside empty =>
        rw [other] at needed
        cases needed
      | under made gap =>
        rw [other] at gap
        exact hv.1 _ ((mem _).2 ⟨_, made⟩) gap

theorem yields_testsInSuites (h : s.Dormant) (pattern : String) (r : Route) :
    s.Yields (testsInSuites pattern r)
      (Concludes (s.Gap (s.accepts (.ofPattern pattern)) false r) fun ids =>
        ¬s.Gap (s.accepts (.ofPattern pattern)) false r ∧ ∀ id ∈ ids, (s.node? id).isSome) := by
  refine yields_get fun t _ mirrors => ?_
  rw [mirrors.suiteDepth]
  exact yields_inMatchingFrom h _ (h.shallow r)

/-- A suite that is looked for is found, or all suites are gone through. -/
theorem yields_findFirst {f : Route → Run (Option Route)} {gap : Route → Prop} {Q : Route → Prop}
    {rs : List Route} (hf : ∀ r ∈ rs, s.Yields (f r) (Concludes (gap r) fun found =>
      (found = none → ¬gap r) ∧ ∀ r', found = some r' → Q r')) :
    s.Yields (findFirst f rs) (Concludes (∃ r ∈ rs, gap r) fun found =>
      (found = none → ∀ r ∈ rs, ¬gap r) ∧ ∀ r', found = some r' → Q r') := by
  induction rs with
  | nil => exact yields_pure ⟨by simp, nofun⟩
  | cons r rs ih =>
    refine yields_bind (hf r (by simp)) (fun e ⟨closed, gap⟩ => ⟨closed, r, by simp, gap⟩)
      fun found ⟨whole, good⟩ => ?_
    cases found with
    | some r' => exact yields_pure ⟨nofun, good⟩
    | none =>
      refine (ih fun r' mem => hf r' (by simp [mem])).mono fun v hv => ?_
      cases v with
      | error e =>
        obtain ⟨closed, r', mem, gap⟩ := hv
        exact ⟨closed, r', by simp [mem], gap⟩
      | ok found =>
        exact ⟨fun gone => List.forall_mem_cons.2 ⟨whole rfl, hv.1 gone⟩, hv.2⟩

theorem yields_findSuiteFrom (h : s.Dormant) (name : String) {depth : Nat} {r : Route}
    (enough : s.levels r < depth) :
    s.Yields (findSuiteFrom name depth r) (Concludes (s.Gap (fun _ => false) false r) fun found =>
      (found = none → ¬s.Gap (fun _ => false) false r) ∧
        ∀ r', found = some r' → (s.node? (.branch r')).isSome) := by
  induction depth generalizing r with
  | zero => exact absurd enough (Nat.not_lt_zero _)
  | succ depth ih =>
    refine yields_get fun t _ mirrors => ?_
    split
    · next named =>
      refine yields_pure ⟨fun eq => (by cases eq), fun r' eq => ?_⟩
      cases eq
      rw [← mirrors.isSome]
      simp only [hasFullName, Session.suite?, branch?] at named
      cases there : t.node? (.branch r) with
      | some n => rfl
      | none => simp [there] at named
    refine yields_bind (yields_suitesOf h _ _ r) (fun _ failed => failed) fun rs listed => ?_
    obtain ⟨suites, mem⟩ := listed
    refine (yields_findFirst fun r' hr => ih (h.deeper enough ((mem r').1 hr))).mono fun v hv => ?_
    cases v with
    | error e =>
      obtain ⟨closed, r', hr, gap⟩ := hv
      obtain ⟨i, hi⟩ := (mem r').1 hr
      exact ⟨closed, .under hi gap⟩
    | ok found =>
      refine ⟨fun gone gap => ?_, hv.2⟩
      cases gap with
      | suite inside empty => exact suites _ inside empty
      | test needed inside empty => cases needed
      | under made gap => exact hv.1 gone _ ((mem _).2 ⟨_, made⟩) gap

theorem yields_findSuite (h : s.Dormant) (name : String) (r : Route) :
    s.Yields (findSuite name r) (Concludes (s.Gap (fun _ => false) false r) fun found =>
      (found = none → ¬s.Gap (fun _ => false) false r) ∧
        ∀ r', found = some r' → (s.node? (.branch r')).isSome) := by
  refine yields_get fun t _ mirrors => ?_
  rw [mirrors.suiteDepth]
  exact yields_findSuiteFrom h name (h.shallow r)

/-! ## Descriptions -/

/-- The node that is described. -/
def Description.node : Description → NodeId
  | .suite v => v.id
  | .test v => v.id
  | .keyword v => v.id
  | .message v => v.id

/-- The last keyword was not made. -/
def Lastless (s : Session) (r : Route) : Prop :=
  ∃ n, s.size r .keyword = n + 1 ∧ s.slot? r .keyword n = none

/-- Whether a teardown failed depends on the last keyword, which was not made. -/
def Untold (s : Session) (r : Route) : Prop :=
  s.Lastless r ∧ ∃ record name table,
    (s.node? (.branch r)).bind Node.plain? = some (.suite record name false table)

theorem yields_lastKeyword (s : Session) (r : Route) :
    s.Yields (lastKeyword r) (Concludes (s.Lastless r) fun _ => ¬s.Lastless r) := by
  refine yields_bind (yields_length s r .keyword) (fun e h => by cases h) fun n h => ?_
  obtain rfl := Except.ok.inj h
  cases length : s.size r .keyword with
  | zero =>
    refine yields_pure ?_
    rintro ⟨n, eq, -⟩
    omega
  | succ n =>
    refine (yields_childAt s r .keyword n).mono fun v hv => ?_
    cases v with
    | ok found =>
      obtain ⟨slot, made⟩ := offered_ok hv.symm
      rintro ⟨n', eq, empty⟩
      obtain rfl : n = n' := by omega
      have made := made (by omega)
      rw [← slot, empty] at made
      cases made
    | error e =>
      obtain ⟨-, empty, rfl⟩ := offered_error hv.symm
      exact ⟨refusal_of_ne (by simp), n, length, empty⟩

theorem yields_hasTeardownFailure (s : Session) (r : Route) :
    s.Yields (hasTeardownFailure r) (Concludes (s.Untold r) fun _ => ¬s.Untold r) := by
  refine yields_get fun t _ mirrors => ?_
  have same := mirrors.plain? (.branch r)
  split
  · next su hn =>
    rw [show t.node? (.branch r) = some (.suite su) from hn] at same
    simp only [Option.bind_some, Node.plain?] at same
    split
    · next above =>
      refine yields_pure ?_
      rintro ⟨-, record, name, table, plain⟩
      rw [plain, above] at same
      cases same
    · next above =>
      rw [Bool.not_eq_true] at above
      rw [above] at same
      refine yields_bind (yields_lastKeyword s r)
        (fun e failed => ⟨failed.1, failed.2, _, _, _, same.symm⟩) fun found last => ?_
      cases found with
      | none => exact yields_pure fun untold => last untold.1
      | some id => exact yields_get fun _ _ _ => yields_pure fun untold => last untold.1
  · next other =>
    refine yields_pure ?_
    rintro ⟨-, record, name, table, plain⟩
    rw [plain] at same
    obtain ⟨n, hn, hp⟩ := Option.bind_eq_some_iff.1 same
    cases n with
    | suite su => exact other su hn
    | _ => cases hp

/-- A description of the node, from what was made. -/
structure Description.Recalls (s : Session) (id : NodeId) (d : Description) : Prop where
  node : d.node = id
  failure : ∀ r v, id = .branch r → d = .suite v →
    Concludes (s.Untold r) (fun _ => ¬s.Untold r) v.teardownFailure

theorem yields_slotText (s : Session) (ref : TableRef) (slot : Option Raw) :
    s.Yields (slotText ref slot) fun _ => True := by
  intro t dormant mirrors
  obtain ⟨u, run, dormant', mirrors'⟩ := dormant.withTable ref (Lookup.steady_lookup slot)
  have state : ((slotText ref slot).run t).2 = u := by
    rw [slotText, run_bind, run]
    cases t.source.readIn ref (StringTable.lookup slot) <;> rfl
  rw [state]
  exact ⟨trivial, dormant', mirrors.trans mirrors'⟩

/-- A text that is remembered changes nothing of what was made. -/
theorem yields_readOnce (s : Session) (id : NodeId) (part : TextPart) {read : Run String}
    (h : s.Yields read fun _ => True) : s.Yields (readOnce id part read) fun _ => True := by
  refine yields_get fun t _ _ => ?_
  cases t.text? id part with
  | some text => exact yields_pure trivial
  | none =>
    refine yields_bind h (fun _ _ => trivial) fun text _ => ?_
    have keep : s.Yields (modify (keepText id part text)) fun v => ∃ a, v = .ok a ∧ True :=
      fun u dormant mirrors => ⟨⟨_, rfl, trivial⟩, dormant.keepText id part text,
        mirrors.trans (mirrors_keepText u id part text)⟩
    exact yields_after keep fun _ _ => yields_get fun _ _ _ => yields_pure trivial

theorem yields_doc (s : Session) (id : NodeId) : s.Yields (doc id) fun _ => True := by
  refine yields_get fun t _ _ => ?_
  split
  · exact yields_readOnce s id .doc (yields_slotText s _ _)
  · exact yields_pure trivial

theorem yields_statusMessage (s : Session) (id : NodeId) :
    s.Yields (statusMessage id) fun _ => True := by
  refine yields_get fun t _ _ => ?_
  split
  · refine yields_readOnce s id .message ?_
    exact yields_bind (yields_readOnce s id .own (yields_slotText s _ _)) (fun _ _ => trivial)
      fun _ _ => yields_pure trivial
  · exact yields_pure trivial

/-- Whatever a part of a description comes to, the description goes on. -/
theorem yields_part {α β : Type} {x : Run α} {f : Except Error α → Run β} {P : Except Error α → Prop}
    {Q : Except Error β → Prop} (hx : s.Yields x P) (hf : ∀ v, P v → s.Yields (f v) Q) :
    s.Yields (attempt x >>= f) Q :=
  yields_after (yields_attempt hx) hf

theorem yields_describeNode (s : Session) (id : NodeId) (n : Node) :
    s.Yields (describeNode id n) fun v => ∃ d, v = .ok d ∧ d.Recalls s id := by
  cases n with
  | suite su =>
    refine yields_part (yields_doc s _) fun doc _ => ?_
    refine yields_part (yields_statusMessage s _) fun text _ => ?_
    refine yields_part (P := fun v => ∀ r, id = .branch r →
      Concludes (s.Untold r) (fun _ => ¬s.Untold r) v) ?_ fun failed good => ?_
    · cases id with
      | message number => exact yields_pure fun r eq => by cases eq
      | branch r =>
        refine (yields_hasTeardownFailure s r).mono fun v hv r' eq => ?_
        cases eq
        exact hv
    · refine yields_get fun t _ _ => yields_pure ?_
      exact ⟨_, rfl, rfl, fun r v eq same => by cases same; exact good r eq⟩
  | test test =>
    refine yields_part (yields_doc s _) fun doc _ => ?_
    refine yields_part (yields_statusMessage s _) fun text _ => yields_pure ?_
    exact ⟨_, rfl, rfl, fun r v _ same => by cases same⟩
  | keyword k =>
    refine yields_part (yields_doc s _) fun doc _ => yields_pure ?_
    exact ⟨_, rfl, rfl, fun r v _ same => by cases same⟩
  | message m =>
    refine yields_get fun t _ _ => yields_pure ?_
    exact ⟨_, rfl, rfl, fun r v _ same => by cases same⟩

/-- A node that was made can be described. -/
theorem yields_describe (s : Session) (id : NodeId) :
    s.Yields (describe id) fun v => ∃ found, v = .ok found ∧ found.isSome = (s.node? id).isSome ∧
      ∀ d, found = some d → d.Recalls s id := by
  refine yields_get fun t _ mirrors => ?_
  rw [← mirrors.isSome]
  cases t.node? id with
  | none => exact yields_pure ⟨none, rfl, rfl, fun d eq => by cases eq⟩
  | some n =>
    refine yields_after (yields_describeNode s id n) fun d recalls => yields_pure ?_
    exact ⟨some d, rfl, rfl, fun d' eq => by cases eq; exact recalls⟩

/-! ## Dumps -/

/-- Nothing is loaded. -/
theorem yields_loadIf (s : Session) (files : Option Files) (id : NodeId) :
    s.Yields (loadIf files id) (· = .ok none) := by
  cases files with
  | none => exact yields_pure rfl
  | some files =>
    refine yields_of_run fun t dormant _ => ⟨t, ?_, dormant, .refl t⟩
    simp only [loadIf, loadChildren, run_bind, run_get, dormant.closed]
    rfl

/-- Everything in the dump was made. -/
def Dump.Recalls (s : Session) (d : Dump) : Prop :=
  ∀ e, d.Shows e → (s.node? e.node).isSome

theorem yields_dumpEach {dump : NodeId → Run (List Dump)}
    (hd : ∀ id, s.Yields (dump id) fun v => ∃ ds, v = .ok ds ∧ ∀ d ∈ ds, d.Recalls s)
    (ids : List NodeId) :
    s.Yields (dumpEach dump ids) fun v => ∃ ds, v = .ok ds ∧ ∀ d ∈ ds, d.Recalls s := by
  induction ids with
  | nil => exact yields_pure ⟨[], rfl, by simp⟩
  | cons id ids ih =>
    refine yields_after (hd id) fun first good => yields_after ih fun rest good' => ?_
    exact yields_pure ⟨_, rfl, List.forall_mem_append.2 ⟨good, good'⟩⟩

theorem yields_dumpBelow {dump : NodeId → Run (List Dump)}
    (hd : ∀ id, s.Yields (dump id) fun v => ∃ ds, v = .ok ds ∧ ∀ d ∈ ds, d.Recalls s) (id : NodeId) :
    s.Yields (dumpBelow dump id) fun v => ∃ found, v = .ok found ∧
      ∀ ds, found = .ok (some ds) → ∀ d ∈ ds, d.Recalls s := by
  have children : s.Yields (children id) fun _ => True := by
    cases id with
    | message number => exact yields_get fun _ _ _ => yields_pure trivial
    | branch r => exact (yields_children s r).mono fun _ _ => trivial
  refine yields_part children fun found _ => ?_
  split
  · exact yields_pure ⟨_, rfl, fun ds eq => by cases eq⟩
  · exact yields_pure ⟨_, rfl, fun ds eq => by cases eq⟩
  · refine yields_after (yields_dumpEach hd _) fun ds good => yields_pure ?_
    exact ⟨_, rfl, fun ds' eq => by cases eq; exact good⟩

theorem yields_dumpFrom (s : Session) (files : Option Files) (depth : Nat) (id : NodeId) :
    s.Yields (dumpFrom files depth id) fun v => ∃ ds, v = .ok ds ∧ ∀ d ∈ ds, d.Recalls s := by
  induction depth generalizing id with
  | zero => exact yields_pure ⟨[], rfl, by simp⟩
  | succ depth ih =>
    refine yields_after (yields_describe s id) fun found ⟨made, recalls⟩ => ?_
    have registered : ∀ d, found = some d → (s.node? d.node).isSome := by
      intro d there
      rw [(recalls d there).node, ← made, there]
      rfl
    split
    · exact yields_pure ⟨[], rfl, by simp⟩
    · refine yields_pure ⟨_, rfl, List.forall_mem_singleton.2 fun e shows => ?_⟩
      cases shows
      exact registered _ rfl
    · refine yields_bind (yields_loadIf s files id) (fun e eq => by cases eq) fun load _ => ?_
      refine yields_after (yields_dumpBelow ih id) fun found good => ?_
      refine yields_pure ⟨_, rfl, List.forall_mem_singleton.2 fun e shows => ?_⟩
      cases shows with
      | here => exact registered _ rfl
      | under mem shown => exact good _ rfl _ mem e shown

end RunReport.Session
