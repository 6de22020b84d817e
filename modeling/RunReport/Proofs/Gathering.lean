import RunReport.Proofs.Outlining
import RunReport.Proofs.Counting
import RunReport.Proofs.Preorder
/-!
# Gathering outlines

Three walks gather an outline, for a page, for the console and as data. They list what is below a
suite at different moments and read different texts on the way, but whichever of them ends without a
failure has gone through all suites and tests in the same order.
-/

namespace RunReport

def TestEntry.item (t : TestEntry) : OutlineItem :=
  ⟨t.id, true, t.test.record.name, t.test.status⟩

mutual

/-- A suite, then the suites below it with all that they contain, then its tests. -/
def Outline.items : Outline → List OutlineItem
  | .suite id s _ _ below tests =>
    ⟨id, false, s.record.name, s.status⟩ :: (Outline.itemsOf below ++ tests.map TestEntry.item)

def Outline.itemsOf : List Outline → List OutlineItem
  | [] => []
  | o :: os => o.items ++ Outline.itemsOf os

end

theorem Outline.itemsOf_eq_flatMap (os : List Outline) :
    Outline.itemsOf os = os.flatMap Outline.items := by
  induction os with
  | nil => rfl
  | cons o os ih => rw [itemsOf, ih, List.flatMap_cons]

namespace Source

/-- What is said at each place that an outline of a suite lists. -/
def said (src : Source) (depth : Nat) (r : Route) : List (Option OutlineItem) :=
  (src.outlineBelow depth r).map fun steps => src.item? (r.append steps)

/-- First the suite itself, then the suites right below it with all they contain, then its tests. -/
theorem said_succ (src : Source) (depth : Nat) (r : Route) :
    src.said (depth + 1) r = src.item? r ::
      ((src.below .suite r).flatMap (src.said depth) ++ (src.below .test r).map src.item?) := by
  rw [said, outlineBelow, List.map_cons, List.map_append, List.map_flatMap, below_eq_places,
    below_eq_places, List.flatMap_map]
  simp only [List.map_map]
  rfl

/-- A message is no item. -/
def itemOf? (src : Source) : NodeId → Option OutlineItem
  | .branch r => src.item? r
  | .message _ => none

end Source

namespace Session

open Effects

variable {s s' s₁ s₂ s₃ : Session} {r : Route} {t : Title} {α β γ : Type}

/-! ## Runs that succeed -/

theorem Keeps.of_run {R : Session → Session → Prop} {x : Run α} {a : α} (h : s.Consistent)
    (keeps : Keeps R x) (run : x.run s = (.ok a, s')) : s'.Consistent ∧ R s s' := by
  have kept := keeps s h
  rwa [run] at kept

/-- If each part of a walk is seen to give what is expected at nodes that are registered, the whole
walk gives all of it in order. -/
theorem flatRun_gathers {src : Source} {f : α → Run (List β)} (key : α → NodeId)
    (view : β → List γ) {g : α → List γ} {as : List α} (keeps : ∀ a, Keeps Explores (f a))
    (each : ∀ a ∈ as, ∀ {u u' : Session} {bs : List β}, u.Consistent → u.source = src →
      (u.node? (key a)).isSome → (f a).run u = (.ok bs, u') → bs.flatMap view = g a)
    (h : s.Consistent) (source : s.source = src) (registered : ∀ a ∈ as, (s.node? (key a)).isSome)
    {bs : List β} (run : (flatRun f as).run s = (.ok bs, s')) :
    bs.flatMap view = as.flatMap g := by
  obtain ⟨lists, u, mapped, last⟩ := run_bind_eq_ok.1 run
  cases last
  clear run
  -- On the elements: what is registered stays so while the earlier ones are gone through.
  induction as generalizing s lists with
  | nil =>
    cases mapped
    rfl
  | cons a as ih =>
    obtain ⟨own, t, runFirst, mapped⟩ := run_bind_eq_ok.1 mapped
    obtain ⟨rest, u, runLater, mapped⟩ := run_bind_eq_ok.1 mapped
    cases mapped
    obtain ⟨ht, e⟩ := Keeps.of_run h (keeps a) runFirst
    have first := each a (by simp) h source (registered a (by simp)) runFirst
    have later := ih (fun a' mem => each a' (by simp [mem])) ht (e.source.trans source)
      (fun a' mem => e.extends.isSome (registered a' (by simp [mem]))) rest runLater
    rw [List.flatten_cons, List.flatMap_append, first, later, List.flatMap_cons]

/-! ## What is registered -/

theorem item?_of_suite? (h : s.Consistent) {su : Suite} (there : s.suite? r = some su) :
    s.source.item? r = some ⟨.branch r, false, su.record.name, su.status⟩ := by
  rw [suite?] at there
  split at there
  · rename_i su' found
    cases there
    obtain ⟨p, plain, node, -⟩ := h.plain found
    cases plain
    exact Source.item?_eq_some.2 ⟨_, node, rfl⟩
  · cases there

theorem item?_of_test? (h : s.Consistent) {test : Test}
    (there : s.test? (.branch r) = some test) :
    s.source.item? r = some ⟨.branch r, true, test.record.name, test.status⟩ :=
  Source.item?_eq_some.2 ⟨_, node?_of_test? h there, rfl⟩

/-- Listing what is right below a suite gives all of it and registers it. -/
theorem childList_below (h : s.Consistent) (b : Branch)
    (there : s.source.title? .suite r = some t) (registered : (s.branch? r).isSome)
    {ids : List NodeId} (run : (childList r b.kind).run s = (.ok ids, s')) :
    s'.Consistent ∧ s.Explores s' ∧ ids = (s.source.below b r).map .branch ∧
      ∀ q ∈ s.source.below b r, (s'.branch? q).isSome := by
  obtain ⟨p, items, table, node, hi, listed⟩ := listed_suite h b there registered
  obtain ⟨u, result, run', lists⟩ := childList_lists h node hi listed
  cases run.symm.trans run'
  obtain ⟨rfl, made⟩ := lists.all ids rfl
  rw [childIds_below node hi] at made ⊢
  exact ⟨lists.consistent, lists.explores, rfl,
    fun q mem => made (.branch q) (List.mem_map_of_mem mem)⟩

/-- What is registered right below a suite is of the kind that it is listed as. -/
theorem title?_of_below (h : s.Consistent) {src : Source} (source : s.source = src) {b : Branch}
    {q : Route} (below : q ∈ src.below b r) (registered : (s.branch? q).isSome) :
    ∃ t, src.title? b q = some t := by
  obtain ⟨n, hn⟩ := Option.isSome_iff_exists.1 registered
  obtain ⟨p, -, node, -⟩ := h.plain hn
  obtain ⟨i, rfl⟩ := Source.eq_child_of_mem_below below
  exact Source.title?_of_contains ⟨p, source ▸ node⟩

/-! ## Tests of a suite -/

theorem testEntry_gathers {wanted : Test → Bool} {src : Source} (h : s.Consistent)
    (source : s.source = src) (test : src.title? .test r = some t)
    (registered : (s.branch? r).isSome) {entries : List TestEntry}
    (run : (testEntry wanted (.branch r)).run s = (.ok entries, s')) :
    entries.flatMap (fun entry => [some entry.item]) = [src.item? r] := by
  have titled := test?_title h registered
  rw [source, test] at titled
  obtain ⟨found, there, -⟩ := Option.map_eq_some_iff.1 titled
  obtain ⟨_, _, got, run⟩ := run_bind_eq_ok.1 run
  cases got
  simp only [there] at run
  have given : ∃ message, entries = [⟨.branch r, found, message⟩] := by
    split at run
    · obtain ⟨message, u, -, run⟩ := run_bind_eq_ok.1 run
      cases run
      exact ⟨message, rfl⟩
    · obtain ⟨message, u, -, run⟩ := run_bind_eq_ok.1 run
      cases run
      exact ⟨message, rfl⟩
  obtain ⟨message, rfl⟩ := given
  rw [← source, item?_of_test? h there]
  rfl

/-- The entries of the tests of a suite say what the report says of them. -/
theorem tests_gather {wanted : Test → Bool} (h : s.Consistent)
    (there : s.source.title? .suite r = some t) (registered : (s.branch? r).isSome)
    {ids : List NodeId} (listed : (testsOf r).run s = (.ok ids, s₁)) {entries : List TestEntry}
    (run : (flatRun (testEntry wanted) ids).run s₁ = (.ok entries, s₂)) :
    s₂.Consistent ∧ s.Explores s₂ ∧
      (entries.map TestEntry.item).map some = (s.source.below .test r).map s.source.item? := by
  obtain ⟨h₁, e₁, rfl, made⟩ := childList_below h .test there registered listed
  obtain ⟨h₂, e₂⟩ := Keeps.of_run h₁ (keeps_flatRun (keeps_testEntry wanted) _) run
  refine ⟨h₂, e₁.trans e₂, ?_⟩
  have gathered := flatRun_gathers id (fun entry : TestEntry => [some entry.item])
    (g := fun id => [s.source.itemOf? id]) (keeps_testEntry wanted) ?_ h₁ e₁.source ?_ run
  · rw [List.flatMap_map, ← List.map_eq_flatMap, ← List.map_eq_flatMap] at gathered
    rw [List.map_map]
    exact gathered
  · intro id mem u u' bs hu source registered run
    obtain ⟨q, below, rfl⟩ := List.mem_map.1 mem
    obtain ⟨t', test⟩ := title?_of_below h₁ e₁.source below (made q below)
    exact testEntry_gathers hu source test registered run
  · intro id mem
    obtain ⟨q, below, rfl⟩ := List.mem_map.1 mem
    exact made q below

/-! ## Walks over suites -/

/-- What an outline says, place by place. -/
def saidBy (os : List Outline) : List (Option OutlineItem) :=
  os.flatMap fun o => o.items.map some

theorem saidBy_eq_map (os : List Outline) : saidBy os = (Outline.itemsOf os).map some := by
  rw [saidBy, Outline.itemsOf_eq_flatMap, List.map_flatMap]

/-- Whenever the walk succeeds from a suite, it has gathered all that an outline lists. -/
def Gathers (f : Route → Run (List Outline)) (depth : Nat) : Prop :=
  ∀ ⦃s s' : Session⦄ ⦃r : Route⦄ ⦃t : Title⦄ ⦃os : List Outline⦄, s.Consistent →
    s.source.title? .suite r = some t → (s.branch? r).isSome →
    (f r).run s = (.ok os, s') → saidBy os = s.source.said depth r

variable {f : Route → Run (List Outline)} {depth : Nat} {os : List Outline}

theorem suitesOf_below (h : s.Consistent) (there : s.source.title? .suite r = some t)
    (registered : (s.branch? r).isSome) {rs : List Route}
    (run : (suitesOf r).run s = (.ok rs, s')) :
    s'.Consistent ∧ s.Explores s' ∧ rs = s.source.below .suite r ∧
      ∀ q ∈ rs, (s'.branch? q).isSome := by
  obtain ⟨ids, u, listed, last⟩ := run_bind_eq_ok.1 run
  cases last
  obtain ⟨h', e, rfl, made⟩ := childList_below h .suite there registered listed
  rw [routes_branches]
  exact ⟨h', e, rfl, made⟩

/-- Going on in the suites that were listed, at once or later. -/
theorem Gathers.suites (gathers : Gathers f depth) (keeps : ∀ q, Keeps Explores (f q))
    (h : s.Consistent) (there : s.source.title? .suite r = some t)
    (registered : (s.branch? r).isSome) {rs : List Route}
    (listed : (suitesOf r).run s = (.ok rs, s₁)) (h₂ : s₂.Consistent) (e : s₁.Explores s₂)
    (run : (flatRun f rs).run s₂ = (.ok os, s₃)) :
    saidBy os = (s.source.below .suite r).flatMap (s.source.said depth) := by
  obtain ⟨h₁, e₁, rfl, made⟩ := suitesOf_below h there registered listed
  refine flatRun_gathers .branch (fun o => o.items.map some) keeps ?_ h₂
    (e.source.trans e₁.source) (fun q mem => e.extends.isSome (made q mem)) run
  intro q mem u u' bs hu source registered run
  obtain ⟨t', suite⟩ := title?_of_below h₁ e₁.source mem (made q mem)
  rw [← source] at suite ⊢
  exact gathers hu suite registered run

/-- The outline of a suite, from that of the suites below it and the entries of its tests. -/
theorem said_of_parts (h : s.Consistent) {su : Suite} (there : s.suite? r = some su)
    {doc message : String} {below : List Outline} {entries : List TestEntry}
    (suites : saidBy below = (s.source.below .suite r).flatMap (s.source.said depth))
    (tests : (entries.map TestEntry.item).map some =
      (s.source.below .test r).map s.source.item?) :
    saidBy [.suite (.branch r) su doc message below entries] = s.source.said (depth + 1) r := by
  rw [saidBy_eq_map] at suites ⊢
  rw [Source.said_succ, item?_of_suite? h there, ← suites, ← tests, Outline.itemsOf,
    Outline.itemsOf, List.append_nil, Outline.items, List.map_cons, List.map_append]

theorem suite?_of_title (h : s.Consistent) (there : s.source.title? .suite r = some t)
    (registered : (s.branch? r).isSome) : ∃ su, s.suite? r = some su := by
  have titled := suite?_title h registered
  rw [there] at titled
  obtain ⟨su, found, -⟩ := Option.map_eq_some_iff.1 titled
  exact ⟨su, found⟩

theorem pageOutline_gathers (depth : Nat) : Gathers (pageOutline depth) depth := by
  induction depth with
  | zero =>
    intro s s' r t os h there registered run
    cases run
    rfl
  | succ depth ih =>
    intro s s' r t os h there registered run
    obtain ⟨su, found⟩ := suite?_of_title h there registered
    obtain ⟨_, _, got, run⟩ := run_bind_eq_ok.1 run
    cases got
    simp only [found] at run
    obtain ⟨rs, s₁, listed, run⟩ := run_bind_eq_ok.1 run
    obtain ⟨ids, s₂, runTests, run⟩ := run_bind_eq_ok.1 run
    obtain ⟨entries, s₃, runEntries, run⟩ := run_bind_eq_ok.1 run
    obtain ⟨below, s₄, runBelow, run⟩ := run_bind_eq_ok.1 run
    cases run
    -- The suites are listed here before the tests are read, and gone through after that.
    obtain ⟨h₁, e₁, -⟩ := suitesOf_below h there registered listed
    rw [← e₁.source] at there
    obtain ⟨h₃, e₃, tests⟩ := tests_gather h₁ there (e₁.extends.isSome registered) runTests
      runEntries
    rw [e₁.source] at there tests
    exact said_of_parts h found
      (ih.suites (keeps_pageOutline depth) h there registered listed h₃ e₃ runBelow) tests

/-- Both walks that read a text first then go through the suites before they list the tests. -/
theorem suitesFirst_gathers {wanted : Test → Bool} {su : Suite} {doc message : String}
    (gathers : Gathers f depth) (keeps : ∀ q, Keeps Explores (f q)) (h : s.Consistent)
    (there : s.source.title? .suite r = some t) (registered : (s.branch? r).isSome)
    (found : s.suite? r = some su) (h₁ : s₁.Consistent) (e₁ : s.Explores s₁)
    (run : (do
      let below ← flatRun f (← suitesOf r)
      let tests ← flatRun (testEntry wanted) (← testsOf r)
      return [.suite (.branch r) su doc message below tests] : Run (List Outline)).run s₁ =
        (.ok os, s')) :
    saidBy os = s.source.said (depth + 1) r := by
  obtain ⟨rs, s₂, listed, run⟩ := run_bind_eq_ok.1 run
  obtain ⟨below, s₃, runBelow, run⟩ := run_bind_eq_ok.1 run
  obtain ⟨ids, s₄, runTests, run⟩ := run_bind_eq_ok.1 run
  obtain ⟨entries, s₅, runEntries, run⟩ := run_bind_eq_ok.1 run
  cases run
  have registered₁ : (s₁.branch? r).isSome := e₁.extends.isSome registered
  have there₁ := there
  rw [← e₁.source] at there₁
  obtain ⟨h₂, e₂, -⟩ := suitesOf_below h₁ there₁ registered₁ listed
  obtain ⟨h₃, e₃⟩ := Keeps.of_run h₂ (keeps_flatRun keeps rs) runBelow
  have suites := gathers.suites keeps h₁ there₁ registered₁ listed h₂ (.refl s₂) runBelow
  have source : s₃.source = s.source := (e₂.trans e₃).source.trans e₁.source
  rw [← source] at there
  obtain ⟨-, -, tests⟩ := tests_gather h₃ there ((e₂.trans e₃).extends.isSome registered₁) runTests
    runEntries
  rw [e₁.source] at suites
  rw [source] at tests
  exact said_of_parts h found suites tests

theorem textOutline_gathers (withDoc : Bool) (depth : Nat) :
    Gathers (textOutline withDoc depth) depth := by
  induction depth with
  | zero =>
    intro s s' r t os h there registered run
    cases run
    rfl
  | succ depth ih =>
    intro s s' r t os h there registered run
    obtain ⟨su, found⟩ := suite?_of_title h there registered
    obtain ⟨_, _, got, run⟩ := run_bind_eq_ok.1 run
    cases got
    simp only [found] at run
    split at run
    · obtain ⟨doc, u, read, run⟩ := run_bind_eq_ok.1 run
      obtain ⟨hu, e⟩ := Keeps.of_run h (keeps_doc _) read
      exact suitesFirst_gathers ih (keeps_textOutline withDoc depth) h there registered found hu e
        run
    · obtain ⟨doc, u, read, run⟩ := run_bind_eq_ok.1 run
      cases read
      exact suitesFirst_gathers ih (keeps_textOutline withDoc depth) h there registered found h
        (.refl s) run

theorem dataOutline_gathers (depth : Nat) : Gathers (dataOutline depth) depth := by
  induction depth with
  | zero =>
    intro s s' r t os h there registered run
    cases run
    rfl
  | succ depth ih =>
    intro s s' r t os h there registered run
    obtain ⟨su, found⟩ := suite?_of_title h there registered
    obtain ⟨_, _, got, run⟩ := run_bind_eq_ok.1 run
    cases got
    simp only [found] at run
    obtain ⟨message, u, read, run⟩ := run_bind_eq_ok.1 run
    obtain ⟨hu, e⟩ := Keeps.of_run h (keeps_statusMessage _) read
    exact suitesFirst_gathers ih (keeps_dataOutline depth) h there registered found hu e run

/-! ## Whole reports -/

/-- The outline says all that there is to say of a report, in order. -/
structure Told (src : Source) (os : List Outline) : Prop where
  titled : ∃ t, src.title? .suite .root = some t
  said : saidBy os = src.said (src.suite.depth + 1) .root

theorem Told.items {src : Source} (told : Told src os) :
    Outline.itemsOf os = src.outlineItems := by
  have said := congrArg (List.filterMap id) told.said
  rw [saidBy_eq_map, Source.said, List.filterMap_map, List.filterMap_map] at said
  rwa [Function.id_comp, List.filterMap_some] at said

/-- An outline that was gathered shows that all suites and tests can be read. -/
theorem Told.legible {src : Source} (told : Told src os) :
    src.LegibleFrom [.suite, .test] .root := by
  obtain ⟨t, root⟩ := told.titled
  have deep := src.levels_root (Source.contains_of_title? root)
  refine Source.legibleFrom_of_items root (Nat.succ_lt_succ deep) fun steps mem => ?_
  have said : src.item? (Route.root.append steps) ∈ src.said (src.suite.depth + 1) .root :=
    List.mem_map_of_mem mem
  rw [← told.said, saidBy_eq_map] at said
  obtain ⟨item, -, same⟩ := List.mem_map.1 said
  exact Option.isSome_of_eq_some same.symm

theorem rootSuite_titled (h : s.Consistent) {id : NodeId} (run : rootSuite.run s = (.ok id, s')) :
    s'.Consistent ∧ s.Explores s' ∧ (s'.branch? .root).isSome ∧
      ∃ t, s.source.title? .suite .root = some t := by
  obtain ⟨h', e, root, -⟩ := rootSuite_readFrom h run
  obtain ⟨record, name, failed, table, there, -⟩ := root.record
  rw [e.source] at there
  exact ⟨h', e, root.registered, _, Source.title?_eq_some.2 ⟨_, there, rfl, rfl⟩⟩

/-- A walk from the root suite, once this is made. -/
theorem Gathers.told (gathers : Gathers f s₁.suiteDepth) (h : s.Consistent) {id : NodeId}
    (made : rootSuite.run s = (.ok id, s₁)) (h₂ : s₂.Consistent) (e : s₁.Explores s₂)
    (run : (f .root).run s₂ = (.ok os, s')) : Told s.source os := by
  obtain ⟨h₁, e₁, registered, t, there⟩ := rootSuite_titled h made
  have source : s₂.source = s.source := e.source.trans e₁.source
  refine ⟨⟨t, there⟩, ?_⟩
  rw [← source] at there
  have suite : s₁.suite = s.source.suite := congrArg Source.suite e₁.source
  have still : (s₂.branch? .root).isSome := e.extends.isSome registered
  rw [gathers h₂ there still run, source, suiteDepth, suite]

theorem pageReport_told (h : s.Consistent) {combined : List TagStat} {text : String}
    (run : (pageReport combined).run s = (.ok text, s')) :
    ∃ page : Render.Html.Page, text = Render.Html.page page ∧ Told s.source page.outline := by
  obtain ⟨page, id, s₁, s₂, rfl, -, runRoot, runTables, runOutline⟩ := pageReport_parts run
  obtain ⟨h₁, -⟩ := rootSuite_titled h runRoot
  obtain ⟨rfl, -⟩ := statistics_run runTables
  exact ⟨page, rfl, (pageOutline_gathers _).told h runRoot h₁ (.refl _) runOutline⟩

theorem reportView_told (h : s.Consistent) {withDoc : Bool} {combined : List TagStat}
    {found : Option Render.ReportView}
    (run : (reportView withDoc combined).run s = (.ok found, s')) :
    ∃ view, found = some view ∧ Told s.source view.outline := by
  obtain ⟨id, s₁, runRoot, run⟩ := run_bind_eq_ok.1 run
  obtain ⟨_, _, got, run⟩ := run_bind_eq_ok.1 run
  cases got
  obtain ⟨os, s₂, runOutline, run⟩ := run_bind_eq_ok.1 run
  obtain ⟨st, s₃, runTables, run⟩ := run_bind_eq_ok.1 run
  obtain ⟨errors, s₄, runErrors, run⟩ := run_bind_eq_ok.1 run
  obtain ⟨_, _, got, run⟩ := run_bind_eq_ok.1 run
  cases got
  obtain ⟨h₁, e₁, registered, t, there⟩ := rootSuite_titled h runRoot
  have told := (textOutline_gathers withDoc _).told h runRoot h₁ (.refl _) runOutline
  -- The root suite is still there at the end.
  obtain ⟨h₂, e₂⟩ := Keeps.of_run h₁ (keeps_textOutline _ _ _) runOutline
  obtain ⟨h₃, e₃⟩ := Keeps.of_run h₂ keeps_statistics runTables
  obtain ⟨h₄, e₄⟩ := Keeps.of_run h₃ keeps_errorList runErrors
  have e := e₂.trans (e₃.trans e₄)
  rw [← (e₁.trans e).source] at there
  have still : (s₄.branch? .root).isSome := e.extends.isSome registered
  obtain ⟨root, found⟩ := suite?_of_title h₄ there still
  simp only [found] at run
  rw [run_pure, Prod.mk.injEq, Except.ok.injEq] at run
  exact ⟨_, run.1.symm, told⟩

theorem consoleReport_told (h : s.Consistent) {o : Render.ConsoleOptions}
    {combined : List TagStat} {text : String}
    (run : (consoleReport o combined).run s = (.ok text, s')) :
    ∃ view, (reportView o.verbose combined).run s = (.ok (some view), s') ∧
      text = Render.paint o.colors (Render.Console.report o view) ∧ Told s.source view.outline := by
  obtain ⟨found, s₁, runView, run⟩ := run_bind_eq_ok.1 run
  obtain ⟨view, rfl, told⟩ := reportView_told h runView
  cases run
  exact ⟨view, runView, rfl, told⟩

theorem dataOutline_length {r : Route} (run : (dataOutline depth r).run s = (.ok os, s')) :
    os.length ≤ 1 := by
  cases depth with
  | zero =>
    cases run
    exact Nat.zero_le 1
  | succ depth =>
    obtain ⟨_, _, got, run⟩ := run_bind_eq_ok.1 run
    cases got
    split at run
    · cases run
      exact Nat.zero_le 1
    · obtain ⟨message, s₁, -, run⟩ := run_bind_eq_ok.1 run
      obtain ⟨rs, s₂, -, run⟩ := run_bind_eq_ok.1 run
      obtain ⟨below, s₃, -, run⟩ := run_bind_eq_ok.1 run
      obtain ⟨ids, s₄, -, run⟩ := run_bind_eq_ok.1 run
      obtain ⟨entries, s₅, -, run⟩ := run_bind_eq_ok.1 run
      cases run
      exact Nat.le_refl 1

theorem dataReport_told (h : s.Consistent) {pretty : Bool} {combined : List TagStat}
    {text : String} (run : (dataReport pretty combined).run s = (.ok text, s')) :
    ∃ (content : Render.Data.ReportContent) (o : Outline),
      text = (Render.Data.report content).text pretty ∧ content.outline = [o] ∧
      Told s.source [o] := by
  obtain ⟨errors, s₀, runErrors, run⟩ := run_bind_eq_ok.1 run
  obtain ⟨id, s₁, runRoot, run⟩ := run_bind_eq_ok.1 run
  obtain ⟨_, _, got, run⟩ := run_bind_eq_ok.1 run
  cases got
  obtain ⟨os, s₂, runOutline, run⟩ := run_bind_eq_ok.1 run
  obtain ⟨st, s₃, runTables, run⟩ := run_bind_eq_ok.1 run
  obtain ⟨_, _, got, run⟩ := run_bind_eq_ok.1 run
  cases got
  rw [run_pure, Prod.mk.injEq, Except.ok.injEq] at run
  obtain ⟨rfl, rfl⟩ := run
  obtain ⟨h₀, e₀⟩ := Keeps.of_run h keeps_errorList runErrors
  obtain ⟨h₁, -⟩ := rootSuite_titled h₀ runRoot
  have told := (dataOutline_gathers _).told h₀ runRoot h₁ (.refl _) runOutline
  rw [e₀.source] at told
  -- There is a root suite to tell of, so the data have an outline.
  have nonempty : os ≠ [] := by
    rintro rfl
    have said := told.said
    rw [Source.said_succ] at said
    exact List.cons_ne_nil _ _ said.symm
  obtain ⟨o, rfl⟩ := List.length_eq_one_iff.1
    (Nat.le_antisymm (dataOutline_length runOutline) (List.length_pos_iff.2 nonempty))
  exact ⟨_, o, rfl, rfl, told⟩

end Session

end RunReport
