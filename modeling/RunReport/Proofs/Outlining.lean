import RunReport.Proofs.Circularity
import RunReport.Proofs.Markup
import RunReport.Proofs.Showing
/-!
# Pages of a session

The outline of a page has the shape of the records of the suites, whatever the strings of the report
say, and each table has as many rows as the statistics. So the markup of a page is decided by the raw
suite and the numbers of rows.
-/

namespace RunReport

open Lookup

/-! ## Records of suites -/

/-- The values in a slot that holds a list. -/
def Raw.slotList (i : Nat) : Raw → List Raw
  | .list items =>
    match items[i]? with
    | some (.list values) => values
    | _ => []
  | _ => []

theorem slotList_of_get {r : Raw} {el : Element} {context context' : String} {i : Nat} {slot : Raw}
    {values : List Raw} (element : r.element context = .ok el) (got : el.get i = .ok slot)
    (list : slot.asList context' = .ok values) : r.slotList i = values := by
  cases r with
  | list items =>
    cases element
    simp only [Element.get] at got
    cases hi : items[i]? with
    | none => rw [hi] at got; cases got
    | some slot' =>
      rw [hi] at got
      cases got
      cases slot with
      | list values' => cases list; simp only [Raw.slotList, hi]
      | _ => cases list
  | _ => cases element

theorem of_bind_eq_ok {α β : Type} {x : Except Error α} {f : α → Except Error β} {b : β}
    (h : (x >>= f) = .ok b) : ∃ a, x = .ok a ∧ f a = .ok b := by
  cases x with
  | error e => cases h
  | ok a => exact ⟨a, rfl, h⟩

theorem slotList_of_element {r : Raw} {el el' : Element} {context : String} {i : Nat}
    (element : r.element context = .ok el) (inner : el.element i = .ok el') :
    r.slotList i = el'.items := by
  obtain ⟨slot, got, inner⟩ := of_bind_eq_ok inner
  cases list : slot.asList el.context with
  | error e => simp [Raw.element, list, Except.map] at inner
  | ok values =>
    simp only [Raw.element, list, Except.map, Except.ok.injEq] at inner
    rw [← inner]
    exact slotList_of_get element got list

theorem Lookup.Ensures.bind {α β : Type} {P : α → Prop} {Q : β → Prop} {x : Lookup α}
    {f : α → Lookup β} (hx : Ensures x P) (hf : ∀ a, P a → Ensures (f a) Q) :
    Ensures (x >>= f) Q := by
  intro t b t' run
  obtain ⟨a, u, first, run⟩ := Effects.run_bind_eq_ok.1 run
  exact hf a (hx t a u first) u b t' run

namespace Coding

variable {c : Coding}

/-- No string reference is a text. -/
theorem metadataOf_refers (r : Raw) : Ensures (metadataOf r) fun _ =>
    ∃ items, r.asList "suite metadata" = .ok items ∧ ∀ text rest, items ≠ .str text :: rest := by
  refine .lift fun items list => ?_
  split
  · refine .bind (P := fun _ => ∀ text rest, items ≠ .str text :: rest) ?_ fun _ refers => ?_
    · cases items with
      | nil => exact fun _ _ _ _ _ _ h => by cases h
      | cons first rest =>
        cases first with
        | str text =>
          refine .bind (P := fun _ => False) ?_ fun _ none => none.elim
          refine .bind (P := fun _ => False) ?_ fun _ none => none.elim
          exact .lift fun n number => by cases number
        | _ => exact fun _ _ _ _ _ _ h => by cases h
    · exact ensures_pure ⟨items, list, refers⟩
  · intro t b t' run
    cases run

/-- The first value of a status is its code. -/
theorem statusPart_code {el : Element} {part : Status × Times × Option Raw}
    (h : c.statusPart el = .ok part) :
    ∃ code rest, el.items = code :: rest ∧ c.version.status code = .ok part.1 := by
  obtain ⟨code, got, h⟩ := of_bind_eq_ok h
  obtain ⟨status, coded, h⟩ := of_bind_eq_ok h
  obtain ⟨_, -, h⟩ := of_bind_eq_ok h
  obtain ⟨start, -, h⟩ := of_bind_eq_ok h
  obtain ⟨elapsed, -, h⟩ := of_bind_eq_ok h
  split at h
  · cases h
    simp only [Element.get] at got
    cases items : el.items with
    | nil => rw [items] at got; cases got
    | cons first rest => rw [items] at got; cases got; exact ⟨code, rest, rfl, coded⟩
  · cases h

/-- What the record of a suite says of the suites and tests below, and of the version that it is
written in. -/
theorem suite_slots (r : Raw) : Ensures (c.suite r) fun record =>
    record.suites = r.slotList c.version.suiteSlots.suites ∧
      record.tests = r.slotList c.version.suiteSlots.tests ∧
      (∀ text rest, r.slotList c.version.suiteSlots.metadata ≠ .str text :: rest) ∧
      ∃ code rest, r.slotList c.version.suiteSlots.status = code :: rest ∧
        c.version.status code = .ok record.status := by
  refine .lift fun el element => .after fun _ => .after fun _ => .after fun _ => ?_
  dsimp only
  cases c.version.suiteSlots.relativeSource
  case' none => refine .after fun _ => ?_
  case' some => refine .after fun _ => ?_
  -- With or without a relative source, the other slots are read alike.
  all_goals
    refine .lift fun metadata gotMetadata => .bind (metadataOf_refers metadata) fun _ listed => ?_
    refine .lift fun status gotStatus => .lift fun part hpart => ?_
    refine .after fun _ => .after fun _ => ?_
    refine .lift fun suites gotSuites => .lift fun suites' listSuites => ?_
    refine .lift fun tests gotTests => .lift fun tests' listTests => ?_
    refine .after fun _ => .after fun _ => ensures_pure ?_
    obtain ⟨items, listMetadata, refers⟩ := listed
    refine ⟨(slotList_of_get element gotSuites listSuites).symm,
      (slotList_of_get element gotTests listTests).symm, ?_, ?_⟩
    · rwa [slotList_of_get element gotMetadata listMetadata]
    · rw [slotList_of_element element gotStatus]
      exact statusPart_code hpart

theorem lettered_code {code : Raw} {status : Status}
    (h : Version.lettered.status code = .ok status) : ∃ text, code = .str text := by
  cases code with
  | str text => exact ⟨text, rfl⟩
  | _ => cases h

/-- Where one version has the letter of an outcome the other has a string reference. -/
theorem suite_apart {c c' : Coding} (lettered : c.version = .lettered)
    (indexed : c'.version = .indexed) {r : Raw} {entries entries' : List String}
    {record record' : SuiteRecord} (h : read entries (c.suite r) = .ok record)
    (h' : read entries' (c'.suite r) = .ok record') : False := by
  obtain ⟨-, -, -, code, rest, list, status⟩ := (suite_slots r).read h
  obtain ⟨-, -, refers, -⟩ := (suite_slots r).read h'
  rw [lettered] at list status
  rw [indexed] at refers
  obtain ⟨text, rfl⟩ := lettered_code status
  exact refers text rest list

/-- A suite can be read in one version only. -/
theorem suite_version {c c' : Coding} {r : Raw} {entries entries' : List String}
    {record record' : SuiteRecord} (h : read entries (c.suite r) = .ok record)
    (h' : read entries' (c'.suite r) = .ok record') : c.version = c'.version := by
  cases hv : c.version with
  | lettered =>
    cases hv' : c'.version with
    | lettered => rfl
    | indexed => exact (suite_apart hv hv' h h').elim
  | indexed =>
    cases hv' : c'.version with
    | lettered => exact (suite_apart hv' hv h' h).elim
    | indexed => rfl

end Coding

/-- The shape of a suite by its record, down to some depth. -/
def Raw.shapes (v : Version) : (depth : Nat) → Raw → List Shape
  | 0, _ => []
  | depth + 1, r =>
    [.suite ((r.slotList v.suiteSlots.suites).flatMap (Raw.shapes v depth))
      (r.slotList v.suiteSlots.tests).length]

namespace Session

open Effects

variable {s s' : Session} {r : Route} {raw : Raw}

/-! ## What is below a suite -/

/-- The suite at the route is registered, and below it are those that the record lists. -/
structure ReadFrom (s : Session) (r : Route) (raw : Raw) : Prop where
  registered : (s.branch? r).isSome
  record : ∃ record name failed t,
    s.source.node? r = .ok (some (.suite record name failed t)) ∧
    record.suites = raw.slotList s.coding.version.suiteSlots.suites ∧
    record.tests = raw.slotList s.coding.version.suiteSlots.tests

theorem Explores.coding (e : s.Explores s') : s'.coding = s.coding :=
  congrArg Source.coding e.source

theorem ReadFrom.later (h : s.ReadFrom r raw) (e : s.Explores s') : s'.ReadFrom r raw where
  registered := e.extends.isSome h.registered
  record := by
    rw [e.source, e.coding]
    exact h.record

/-- A registered suite that was read from the record. -/
theorem readFrom_of_readIn (registered : (s.branch? r).isSome)
    {record : SuiteRecord} {name : String} {failed : Bool} {t : TableRef}
    (there : s.source.node? r = .ok (some (.suite record name failed t)))
    (read : s.source.readIn t (s.coding.suite raw) = .ok record) : s.ReadFrom r raw := by
  obtain ⟨suites, tests, -⟩ := (Coding.suite_slots raw).read read
  exact ⟨registered, record, name, failed, t, there, suites, tests⟩

theorem ReadFrom.suite? (h : s.ReadFrom r raw) (consistent : s.Consistent) :
    ∃ su : Suite, s.branch? r = some (.suite su) := by
  obtain ⟨n, hn⟩ := Option.isSome_iff_exists.1 h.registered
  obtain ⟨record, name, failed, t, hp, -⟩ := h.record
  obtain ⟨q, plain, hq, -⟩ := consistent.plain hn
  cases hp.symm.trans hq
  cases n with
  | suite su => exact ⟨su, hn⟩
  | test => cases plain
  | keyword => cases plain
  | message => cases plain

/-- Listing what is below a suite gives all of it. -/
theorem ReadFrom.childList (h : s.ReadFrom r raw) (consistent : s.Consistent) {b : Branch}
    {p : Plain} (there : s.source.node? r = .ok (some p)) {items : List Raw} {t : TableRef}
    (hi : s.source.items? p b.kind = some (items, t)) {ids : List NodeId}
    (run : (childList r b.kind).run s = (.ok ids, s')) :
    s'.Consistent ∧ s.Explores s' ∧ ids = childIds r b (List.range items.length) ∧
      ∀ id ∈ ids, (s'.node? id).isSome := by
  obtain ⟨su, hsu⟩ := h.suite? consistent
  have listed : (s.list? r b.kind).isSome := by
    rw [list?_of_branch s hsu]
    cases b <;> rfl
  obtain ⟨t', result, run', lists⟩ := childList_lists consistent there hi listed
  cases run.symm.trans run'
  obtain ⟨all, registered⟩ := lists.all ids rfl
  exact ⟨lists.consistent, lists.explores, all, registered⟩

theorem routes_childIds (r : Route) (b : Branch) (is : List Nat) :
    routes (childIds r b is) = is.map fun i => .child r ⟨b, i⟩ := by
  rw [routes, childIds, List.filterMap_map]
  exact congrFun List.filterMap_eq_map is

/-- A suite below another one is read from the record in its place. -/
theorem readFrom_child (consistent : s.Consistent) {record : SuiteRecord} {name : String}
    {failed : Bool} {t : TableRef}
    (above : s.source.node? r = .ok (some (.suite record name failed t))) {i : Nat}
    (registered : (s.branch? (.child r ⟨.suite, i⟩)).isSome)
    (place : record.suites[i]? = some raw) : s.ReadFrom (.child r ⟨.suite, i⟩) raw := by
  obtain ⟨n, hn⟩ := Option.isSome_iff_exists.1 registered
  obtain ⟨q, -, there, -⟩ := consistent.plain hn
  have child := there
  rw [Source.node?_child_of above] at child
  obtain ⟨raw', t', found, read⟩ := Source.child?_eq_some.1 child
  obtain ⟨items, hi, place'⟩ := Source.record?_eq_some.1 found
  cases hi
  cases place.symm.trans place'
  obtain ⟨record', failed', read', -, rfl⟩ := Source.readSuite_below.1 read
  exact readFrom_of_readIn registered there read'

/-- The suites below a suite are read from the records in its slot. -/
theorem ReadFrom.suitesOf (h : s.ReadFrom r raw) (consistent : s.Consistent) {rs : List Route}
    (run : (suitesOf r).run s = (.ok rs, s')) : s'.Consistent ∧ s.Explores s' ∧
      List.Forall₂ s'.ReadFrom rs (raw.slotList s.coding.version.suiteSlots.suites) := by
  obtain ⟨record, name, failed, t, there, suites, -⟩ := h.record
  obtain ⟨ids, u, listed, last⟩ := run_bind_eq_ok.1 run
  cases last
  obtain ⟨consistent', e, rfl, registered⟩ := h.childList (b := .suite) consistent there rfl listed
  refine ⟨consistent', e, ?_⟩
  rw [← suites, routes_childIds, List.forall₂_iff_get]
  refine ⟨by simp, fun i inside inside' => ?_⟩
  simp only [List.get_eq_getElem, List.getElem_map, List.getElem_range]
  refine readFrom_child consistent' (e.source ▸ there) ?_ (List.getElem?_eq_getElem inside')
  exact registered _ (List.mem_map.2 ⟨i, List.mem_range.2 inside', rfl⟩)

/-- The tests of a suite are as many as the records in its slot. -/
theorem ReadFrom.testsOf (h : s.ReadFrom r raw) (consistent : s.Consistent) {ids : List NodeId}
    (run : (testsOf r).run s = (.ok ids, s')) : s'.Consistent ∧ s.Explores s' ∧
      ids.length = (raw.slotList s.coding.version.suiteSlots.tests).length ∧
      ∀ id ∈ ids, (s'.test? id).isSome := by
  obtain ⟨record, name, failed, t, there, -, tests⟩ := h.record
  obtain ⟨consistent', e, rfl, registered⟩ := h.childList (b := .test) consistent there rfl run
  refine ⟨consistent', e, by simp [childIds, tests], fun id mem => ?_⟩
  obtain ⟨n, hn⟩ := Option.isSome_iff_exists.1 (registered id mem)
  obtain ⟨i, -, rfl⟩ := List.mem_map.1 mem
  obtain ⟨q, plain, hq, -⟩ := consistent'.plain hn
  rw [Source.node?_child_of (e.source ▸ there)] at hq
  obtain ⟨raw', t', -, read⟩ := Source.child?_eq_some.1 hq
  obtain ⟨record', failed', -, -, rfl⟩ := Source.readTest_eq_ok.1 read
  cases n with
  | test test => simp only [test?, hn]; rfl
  | suite => cases plain
  | keyword => cases plain
  | message => cases plain

/-! ## Outlines -/

theorem testEntry_run {id : NodeId} {test : Test} (h : s.test? id = some test) :
    (testEntry (fun _ => false) id).run s = (.ok [⟨id, test, ""⟩], s) := by
  simp only [testEntry, run_bind, run_get, h]
  rfl

/-- Every test has one entry. -/
theorem entries_length {ids : List NodeId} (tests : ∀ id ∈ ids, (s.test? id).isSome)
    {entries : List TestEntry}
    (run : (flatRun (testEntry fun _ => false) ids).run s = (.ok entries, s')) :
    s' = s ∧ entries.length = ids.length := by
  have each : ∃ lists, (mapRun (testEntry fun _ => false) ids).run s = (.ok lists, s) ∧
      lists.flatten.length = ids.length := by
    clear run
    induction ids with
    | nil => exact ⟨[], rfl, rfl⟩
    | cons id ids ih =>
      rw [List.forall_mem_cons] at tests
      obtain ⟨test, found⟩ := Option.isSome_iff_exists.1 tests.1
      obtain ⟨lists, run, length⟩ := ih tests.2
      refine ⟨[⟨id, test, ""⟩] :: lists, ?_, by simp [length]⟩
      rw [mapRun, run_bind_ok (testEntry_run found), run_bind_ok run]
      rfl
  obtain ⟨lists, run', length⟩ := each
  rw [flatRun, run_bind_ok run'] at run
  cases run
  exact ⟨rfl, length⟩

/-- What a walk over suites gathers has the shapes of their records. -/
theorem shapes_flatRun {v : Version} {f : Route → Run (List Outline)}
    (keeps : ∀ r, Keeps Explores (f r)) {shapes : Raw → List Shape}
    (each : ∀ {s s' : Session} {r raw os}, s.Consistent → s.coding.version = v →
      s.ReadFrom r raw → (f r).run s = (.ok os, s') → Outline.shapes os = shapes raw)
    {rs : List Route} {raws : List Raw} (consistent : s.Consistent) (version : s.coding.version = v)
    (all : List.Forall₂ s.ReadFrom rs raws) {os : List Outline}
    (run : (flatRun f rs).run s = (.ok os, s')) : Outline.shapes os = raws.flatMap shapes := by
  obtain ⟨lists, u, mapped, last⟩ := run_bind_eq_ok.1 run
  cases last
  clear run
  induction rs generalizing s raws lists with
  | nil =>
    cases all
    cases mapped
    rfl
  | cons r rs ih =>
    obtain _ | ⟨first, later⟩ := all
    obtain ⟨os, t, runFirst, mapped⟩ := run_bind_eq_ok.1 mapped
    obtain ⟨rest, u, runLater, mapped⟩ := run_bind_eq_ok.1 mapped
    cases mapped
    have kept := keeps r s consistent
    rw [runFirst] at kept
    have own := each consistent version first runFirst
    have others := ih kept.1 (kept.2.coding ▸ version) (later.imp fun _ _ h => h.later kept.2) rest
      runLater
    rw [Outline.shapes_eq_map] at own others ⊢
    rw [List.flatten_cons, List.map_append, own, others, List.flatMap_cons]

/-- The outline of a page has the shape of the records. -/
theorem pageOutline_shapes (depth : Nat) {os : List Outline} {v : Version}
    (consistent : s.Consistent) (version : s.coding.version = v) (h : s.ReadFrom r raw)
    (run : (pageOutline depth r).run s = (.ok os, s')) :
    Outline.shapes os = raw.shapes v depth := by
  induction depth generalizing s s' r raw os with
  | zero =>
    cases run
    rfl
  | succ depth ih =>
    obtain ⟨su, hsu⟩ := h.suite? consistent
    obtain ⟨_, _, got, run⟩ := run_bind_eq_ok.1 run
    cases got
    simp only [suite?, hsu] at run
    obtain ⟨rs, s₁, runSuites, run⟩ := run_bind_eq_ok.1 run
    obtain ⟨ids, s₂, runTests, run⟩ := run_bind_eq_ok.1 run
    obtain ⟨entries, s₃, runEntries, run⟩ := run_bind_eq_ok.1 run
    obtain ⟨below, s₄, runBelow, run⟩ := run_bind_eq_ok.1 run
    cases run
    obtain ⟨consistent₁, e₁, suites⟩ := h.suitesOf consistent runSuites
    obtain ⟨consistent₂, e₂, count, tests⟩ := (h.later e₁).testsOf consistent₁ runTests
    obtain ⟨rfl, length⟩ := entries_length tests runEntries
    have version₂ : s₃.coding.version = v := by rw [e₂.coding, e₁.coding, version]
    have shapes := shapes_flatRun (keeps_pageOutline depth) ih consistent₂ version₂
      (suites.imp fun _ _ h => h.later e₂) runBelow
    rw [e₁.coding, version] at count
    simp only [Outline.shapes, Outline.shape, Raw.shapes, shapes, length, count, version]

/-! ## Pages -/

/-- Making the root suite leaves the raw statistics alone. -/
theorem stats_rootSuite (s : Session) : (rootSuite.run s).2.stats = s.stats := by
  simp only [rootSuite, decodeSuiteAt, checkOpen, exists?, run_bind, run_get]
  cases s.isOpen with
  | false => rfl
  | true =>
    simp only [Bool.not_true, Bool.false_eq_true, if_false, run_pure]
    split
    · rfl
    · simp only [run_bind, run_get]
      have table : ((withTable .main (s.coding.suite s.suite)).run s).2.stats = s.stats := rfl
      rcases read : (withTable .main (s.coding.suite s.suite)).run s with ⟨_ | record, t⟩
      · rwa [read] at table
      · rwa [read] at table

/-- The root suite is read from the raw suite. -/
theorem rootSuite_readFrom (consistent : s.Consistent) {id : NodeId}
    (run : rootSuite.run s = (.ok id, s')) : s'.Consistent ∧ s.Explores s' ∧
      s'.ReadFrom .root s.suite ∧
      ∃ record, s.source.readIn .main (s.coding.suite s.suite) = .ok record := by
  obtain ⟨t, run', consistent', e, made⟩ := rootSuite_run consistent
  cases read : s.source.readSuite none s.suite .main with
  | error err =>
    rw [read] at run'
    cases run.symm.trans run'
  | ok p =>
    rw [read] at run'
    cases run.symm.trans run'
    obtain ⟨n, hn, -⟩ := made p read
    obtain ⟨record, hrecord, rest⟩ := of_bind_eq_ok read
    cases rest
    have there : s'.source.node? .root = .ok (some (.suite record record.name false .main)) := by
      rw [e.source, Source.node?, Source.some_map_eq_ok]
      exact read
    refine ⟨consistent', e, ?_, record, hrecord⟩
    refine readFrom_of_readIn (Option.isSome_of_eq_some hn) there ?_
    rw [e.source, e.coding]
    exact hrecord

/-- What a page is made of. -/
theorem pageReport_parts {combined : List TagStat} {text : String}
    (run : (pageReport combined).run s = (.ok text, s')) :
    ∃ (page : Render.Html.Page) (id : NodeId) (s₁ s₂ : Session), text = Render.Html.page page ∧
      page.combined = combined ∧ rootSuite.run s = (.ok id, s₁) ∧
      statistics.run s₁ = (.ok page.statistics, s₂) ∧
      (pageOutline s₂.suiteDepth .root).run s₂ = (.ok page.outline, s') := by
  obtain ⟨root, s₁, runRoot, run⟩ := run_bind_eq_ok.1 run
  obtain ⟨st, s₂, runTables, run⟩ := run_bind_eq_ok.1 run
  obtain ⟨_, _, got, run⟩ := run_bind_eq_ok.1 run
  cases got
  obtain ⟨os, s₃, runOutline, run⟩ := run_bind_eq_ok.1 run
  obtain ⟨_, _, got, run⟩ := run_bind_eq_ok.1 run
  cases got
  rw [run_pure, Prod.mk.injEq, Except.ok.injEq] at run
  obtain ⟨rfl, rfl⟩ := run
  exact ⟨_, root, s₁, s₂, rfl, rfl, runRoot, runTables, runOutline⟩

/-- Statistics are read from the raw ones. -/
theorem statistics_run {st : Statistics} (run : statistics.run s = (.ok st, s')) :
    s' = s ∧ Statistics.ofRaw s.stats = .ok st := by
  obtain ⟨_, _, got, tables⟩ := run_bind_eq_ok.1 run
  cases got
  rw [run_except] at tables
  cases read : Statistics.ofRaw s.stats with
  | error err => rw [read] at tables; cases tables
  | ok st' =>
    rw [read] at tables
    cases tables
    exact ⟨rfl, rfl⟩

/-- A page shows the statistics as they are, and an outline with the shape of the raw suite. -/
theorem pageReport_page (consistent : s.Consistent) {combined : List TagStat} {text : String}
    (run : (pageReport combined).run s = (.ok text, s')) :
    ∃ page : Render.Html.Page, text = Render.Html.page page ∧ page.combined = combined ∧
      Statistics.ofRaw s.stats = .ok page.statistics ∧
      Outline.shapes page.outline = s.suite.shapes s.coding.version (s.suite.depth + 1) ∧
      ∃ record, s.source.readIn .main (s.coding.suite s.suite) = .ok record := by
  obtain ⟨page, id, s₁, s₂, rfl, rfl, runRoot, runTables, runOutline⟩ := pageReport_parts run
  obtain ⟨consistent₁, e, root, readable⟩ := rootSuite_readFrom consistent runRoot
  have stats : s₁.stats = s.stats := by
    have spared := stats_rootSuite s
    rwa [runRoot] at spared
  have suite : s₁.suite = s.suite := congrArg Source.suite e.source
  obtain ⟨rfl, read⟩ := statistics_run runTables
  have version := congrArg Coding.version e.coding
  have shapes := pageOutline_shapes _ consistent₁ version root runOutline
  refine ⟨page, rfl, rfl, stats ▸ read, ?_, readable⟩
  rw [← suite]
  exact shapes.trans (by rw [suite, suiteDepth, suite])

end Session

/-! ## Two reports -/

/-- A row without its label. -/
def StatisticRow.figures (row : StatisticRow) :
    PerOutcome Nat × Nat × PerOutcome Nat × PerOutcome Nat :=
  (row.counts, row.total, row.percents, row.widths)

/-- The same tables but for labels, infos, docs, links and ids. -/
structure Statistics.SameFigures (a b : Statistics) : Prop where
  total : a.total.map (·.row.figures) = b.total.map (·.row.figures)
  tag : a.tag.map (·.row.figures) = b.tag.map (·.row.figures)
  suite : a.suite.map (·.row.figures) = b.suite.map (·.row.figures)

namespace Session

open Render.Html

/-- The markup of a page up to the embedded statistics does not depend on any text of the report. -/
theorem page_markup_ignores_text {s s' : Session} (h : s.Reachable) (h' : s'.Reachable)
    (suite : s.suite = s'.suite) {st st' : Statistics} (tables : Statistics.ofRaw s.stats = .ok st)
    (tables' : Statistics.ofRaw s'.stats = .ok st') (same : st.SameFigures st')
    {combined combined' : List TagStat}
    (rows : combined.map (·.row.figures) = combined'.map (·.row.figures)) {t t' : Session}
    {text text' : String} (run : (pageReport combined).run s = (.ok text, t))
    (run' : (pageReport combined').run s' = (.ok text', t')) :
    ∃ before before', beforeScript? text = some before ∧ beforeScript? text' = some before' ∧
      marks before = marks before' := by
  obtain ⟨page, rfl, rfl, read, shapes, record, readable⟩ := pageReport_page h.consistent run
  obtain ⟨page', rfl, rfl, read', shapes', record', readable'⟩ := pageReport_page h'.consistent run'
  cases read.symm.trans tables
  cases read'.symm.trans tables'
  have version : s.coding.version = s'.coding.version := by
    rw [← suite] at readable'
    exact Coding.suite_version readable readable'
  have alike : page.Alike page' := by
    refine ⟨?_, ?_, ?_, ?_⟩
    · simpa using congrArg List.length same.total
    · have tag := congrArg List.length same.tag
      have added := congrArg List.length rows
      simp only [List.length_map] at tag added
      rw [tag, added]
    · simpa using congrArg List.length same.suite
    · rw [shapes, shapes', suite, version]
  have like := alike.like
  exact ⟨markup page, markup page', beforeScript?_page like.left, beforeScript?_page like.right,
    like.marks⟩

/-! ## A sample -/

/-- A suite with one test. -/
def plainSuite : Raw :=
  .list [.int 1, .int 0, .int 0, .int 0, .list [], .list [.int 1, .int 0, .int 1], .list [],
    .list [.list [.int 2, .int 0, .int 0, .int 0, .list [], .list [.int 1, .int 0, .int 1],
      .list []]],
    .list [], .list [.int 1, .int 1, .int 0, .int 0]]

/-- A report on the suite, with the names of the suite and of a row. -/
def namedReport (name label : String) : String :=
  "\x7b\"version\":2,\"generatedMillis\":0,\"baseMillis\":0,\"strings\":[\"*\",\"*" ++ name ++
    "\",\"*t\"],\"suite\":[1,0,0,0,[],[1,0,1],[],[[2,0,0,0,[],[1,0,1],[]]],[],[1,1,0,0]]," ++
    "\"stats\":[[[\"" ++ label ++ "\",0,0]],[],[]]\x7d"

def emptyFigures : PerOutcome Nat × Nat × PerOutcome Nat × PerOutcome Nat :=
  (⟨0, 0, 0⟩, 0, ⟨0, 0, 0⟩, ⟨0, 0, 0⟩)

/-- Whether the report is on the suite and has one row, without tests. -/
def isPlain (s : Session) : Bool :=
  s.suite.same plainSuite && (match Statistics.ofRaw s.stats with
    | .ok st => st.total.map (·.row.figures) == [emptyFigures] && st.tag.isEmpty && st.suite.isEmpty
    | .error _ => false) && (match ((pageReport []).run s).1 with
    | .ok _ => true
    | .error _ => false)

theorem isPlain_spec {s : Session} (h : s.isPlain = true) : s.suite = plainSuite ∧
    (∃ st, Statistics.ofRaw s.stats = .ok st ∧ st.total.map (·.row.figures) = [emptyFigures] ∧
      st.tag = [] ∧ st.suite = []) ∧
    ∃ text t, (pageReport []).run s = (.ok text, t) := by
  simp only [isPlain, Bool.and_eq_true] at h
  obtain ⟨⟨suite, tables⟩, renders⟩ := h
  refine ⟨Raw.eq_of_same _ _ suite, ?_, ?_⟩
  · cases read : Statistics.ofRaw s.stats with
    | error e => rw [read] at tables; cases tables
    | ok st =>
      simp only [read, Bool.and_eq_true, beq_iff_eq, List.isEmpty_iff] at tables
      exact ⟨st, rfl, tables.1.1, tables.1.2, tables.2⟩
  · rcases run : (pageReport []).run s with ⟨_ | text, t⟩
    · rw [run] at renders
      cases renders
    · exact ⟨text, t, rfl⟩

theorem page_markup_ignores_text_sample : ∃ s s' t t' : Session, ∃ text text' before before',
    open? (namedReport "Root" "All Tests") = .ok s ∧
    open? (namedReport "<b title='x'>Root</b>" "<i>") = .ok s' ∧
    (pageReport []).run s = (.ok text, t) ∧ (pageReport []).run s' = (.ok text', t') ∧
    beforeScript? text = some before ∧ beforeScript? text' = some before' ∧
    marks before = marks before' := by
  have opens : opensTo isPlain (namedReport "Root" "All Tests") = true := by decide +kernel
  have opens' : opensTo isPlain (namedReport "<b title='x'>Root</b>" "<i>") = true := by
    decide +kernel
  obtain ⟨s, opened, plain⟩ := opensTo_iff.1 opens
  obtain ⟨s', opened', plain'⟩ := opensTo_iff.1 opens'
  obtain ⟨suite, ⟨st, tables, total, tag, suites⟩, text, t, run⟩ := isPlain_spec plain
  obtain ⟨suite', ⟨st', tables', total', tag', suites'⟩, text', t', run'⟩ := isPlain_spec plain'
  have reachable : s.Reachable := ⟨_, s, [], opened, by simp, rfl⟩
  have reachable' : s'.Reachable := ⟨_, s', [], opened', by simp, rfl⟩
  have same : st.SameFigures st' :=
    ⟨total.trans total'.symm, by rw [tag, tag'], by rw [suites, suites']⟩
  obtain ⟨before, before', start, start', agree⟩ := page_markup_ignores_text reachable reachable'
    (suite.trans suite'.symm) tables tables' same rfl run run'
  exact ⟨s, s', t, t', text, text', before, before', opened, opened', run, run', start, start',
    agree⟩

end Session

end RunReport
