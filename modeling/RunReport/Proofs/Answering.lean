import RunReport.Proofs.Listing
/-!
# What answers tell

Every suite, test and keyword that an answer shows or names is the one that the source has at that
route.
-/

namespace RunReport.Session

open Effects

variable {lib : Source}

/-- Everything an answer shows of suites, tests and keywords is what the source says. -/
def Answer.Agrees (src : Source) : Answer → Prop
  | .peek k => k.Agrees src
  | .peeks ks => ∀ k ∈ ks, k.Agrees src
  | .description d => d.Agrees src
  | .descriptions ds => ∀ d ∈ ds, d.Agrees src
  | .dump t => t.Agrees src
  | .id found => found.In src
  | .ids found => ∀ x ∈ found, x.In src
  | .combined _ tests => ∀ x ∈ tests, x.In src
  | _ => True

theorem tells_peekAnswer (id : Option NodeId) : Tells lib (peekAnswer id) (Answer.Agrees lib) := by
  refine ⟨(keeps_peekAnswer id).extends, ?_⟩
  intro s h within a ha
  simp only [peekAnswer, run_bind, run_get] at ha within
  cases hk : id.bind s.peek? with
  | none => rw [hk] at ha; cases ha; trivial
  | some k =>
    rw [hk] at ha within
    cases ha
    obtain ⟨i, -, hi⟩ := Option.bind_eq_some_iff.1 hk
    exact (peek_agrees h hi).within within

theorem tells_describeAll (ids : List NodeId) :
    Tells lib (describeAll ids) fun ds => ∀ d ∈ ds, d.Agrees lib := by
  induction ids with
  | nil => exact tells_pure fun d hd => by cases hd
  | cons id ids ih =>
    refine tells_bind (tells_describe id) fun first => tells_bind ih fun later => tells_pure ?_
    intro hlater hfirst d hd
    rcases List.mem_append.1 hd with hd | hd
    · exact hfirst d (Option.mem_toList.1 hd)
    · exact hlater d hd

/-- Peeks at nodes that are there. -/
theorem tells_peeks (ids : List NodeId) :
    Tells lib (do return .peeks (ids.filterMap (← get).peek?) : Run Answer) (Answer.Agrees lib) := by
  refine ⟨keeps_bind keeps_get fun _ => keeps_pure _, ?_⟩
  intro s h within a ha
  cases ha
  intro k hk
  obtain ⟨id, -, hid⟩ := List.mem_filterMap.1 hk
  exact (peek_agrees h hid).within within

theorem tells_searchAnswer (r : Route) (query : SuiteQuery) :
    Tells lib (searchAnswer r query) (Answer.Agrees lib) := by
  cases query with
  | all => exact tells_map (tells_searchTests _ r) fun _ => id
  | critical => exact tells_map (tells_searchTests _ r) fun _ => id
  | tag => exact tells_map (tells_searchTests _ r) fun _ => id
  | tagQuery => exact tells_map (tells_searchTests _ r) fun _ => id
  | name => exact tells_map (tells_searchTests _ r) fun _ => id
  | suites pattern => exact tells_map (tells_testsInSuites pattern r) fun _ => id
  | findSuite name =>
    refine tells_bind (tells_findSuite name r) fun found => ?_
    cases found with
    | none => exact tells_pure fun _ => trivial
    | some x => exact tells_pure fun h => h x rfl

theorem tells_nodeAnswer (files : Files) (id : NodeId) (step : NodeStep) :
    Tells lib (nodeAnswer files id step) (Answer.Agrees lib) := by
  cases step with
  | peek => exact tells_peekAnswer _
  | describe =>
    refine tells_bind (tells_describe id) fun found => ?_
    cases found with
    | none => exact tells_pure fun _ => trivial
    | some d => exact tells_pure fun h => h d rfl
  | dump load =>
    refine tells_bind (tells_dump _ id) fun found => ?_
    cases found with
    | nil => exact tells_pure fun _ => trivial
    | cons t ts => exact tells_pure fun h => h t (by simp)
  | child kind index =>
    cases hb : branchOf? kind with
    | none =>
      simp only [nodeAnswer, hb]
      exact tells_pure trivial
    | some branch =>
      simp only [nodeAnswer, hb]
      exact tells_after (keeps_child id _).extends tells_peekAnswer
  | children =>
    refine tells_after (keeps_children id).extends fun found => ?_
    cases found with
    | none => exact tells_pure trivial
    | some ids => exact tells_peeks ids
  | list kind =>
    refine tells_bind (tells_typedList id kind) fun found => ?_
    cases found with
    | none => exact tells_pure fun _ => trivial
    | some ids => exact tells_pure fun h => h ids rfl
  | message index =>
    refine tells_after (keeps_message id index).extends fun found => ?_
    cases found with
    | none => exact tells_pure trivial
    | some m =>
      refine tells_bind (tells_describe m) fun found => ?_
      cases found with
      | none => exact tells_pure fun _ => trivial
      | some d => exact tells_pure fun h => h d rfl
  | parent => exact tells_after keeps_get fun _ => tells_peekAnswer _
  | loaded => exact tells_after keeps_get fun _ => tells_pure trivial
  | whenReady label =>
    exact tells_after (proceeds_whenReady id _).keeps fun _ => tells_pure trivial
  | hold name =>
    refine tells_after ?_ fun _ => tells_pure trivial
    exact (proceeds_peripheral fun s => ⟨s.loader.requests, s.loader.queue, s.futures, s.labels,
      (name, id) :: s.held.filter (·.1 != name), s.fired, rfl⟩).keeps
  | same other =>
    refine tells_after keeps_get fun s => ?_
    split
    · split
      · split
        · exact tells_pure trivial
        · exact tells_pure trivial
      · exact tells_pure trivial
    · exact tells_pure trivial
  | search query =>
    cases id with
    | message number => exact tells_pure trivial
    | branch r =>
      refine tells_after keeps_get fun s => ?_
      cases s.suite? r with
      | none => exact tells_pure trivial
      | some suite => exact tells_searchAnswer r query

theorem tells_pop (files : Files) : Tells lib (reportAnswer files .pop) (Answer.Agrees lib) := by
  have run : ∀ s : Session, ∃ a, (reportAnswer files .pop).run s =
      (.ok a, { s with loader := s.loader.pop.2 }) ∧ a.Agrees lib := by
    intro s
    simp only [reportAnswer, run_bind, run_get]
    cases s.loader.pop with
    | mk file loader => cases file <;> exact ⟨_, rfl, trivial⟩
  constructor
  · intro s h
    obtain ⟨a, run, -⟩ := run s
    rw [run]
    exact consistent_pop h
  · intro s _ _ b hb
    obtain ⟨a, run, agrees⟩ := run s
    rw [run] at hb
    cases hb
    exact agrees

theorem tells_reportAnswer (files : Files) {step : ReportStep} (kept : step ≠ .drop) :
    Tells lib (reportAnswer files step) (Answer.Agrees lib) := by
  cases step with
  | version => exact tells_after keeps_get fun _ => tells_pure trivial
  | suite => exact tells_after keeps_rootSuite.extends fun _ => tells_peekAnswer _
  | generated => exact tells_after keeps_get fun _ => tells_pure trivial
  | errors =>
    refine tells_after keeps_errorList.extends fun ids => ?_
    exact tells_bind (tells_describeAll ids) fun _ => tells_pure id
  | statistics => exact tells_map keeps_statistics.extends.tells fun _ _ => trivial
  | find path => exact tells_after keeps_get fun _ => tells_peekAnswer _
  | resolve path label =>
    refine tells_after (keeps_bind keeps_rootSuite.extends fun _ => ?_) fun _ => tells_pure trivial
    exact (proceeds_resolvePath path _).keeps
  | resolvePath path label =>
    exact tells_after (proceeds_resolvePath path _).keeps fun _ => tells_pure trivial
  | keywordPath path label =>
    exact tells_after (keeps_pathToKeyword path _) fun _ => tells_pure trivial
  | resolveFuture path label =>
    refine tells_after (keeps_resolveFuture path) fun n => ?_
    exact tells_after (proceeds_remember label n).keeps fun _ => tells_pure trivial
  | fileFuture file label =>
    refine tells_after (proceeds_fileFuture file).keeps fun n => ?_
    exact tells_after (proceeds_remember label n).keeps fun _ => tells_pure trivial
  | pathToSuite name => exact tells_map (tells_pathToSuite name) fun _ => id
  | pathToTest name => exact tells_map (tells_pathToTest name) fun _ => id
  | announce file payload =>
    refine tells_after (keeps_except _) fun p => ?_
    exact tells_after (proceeds_announce file p).keeps fun _ => tells_pure trivial
  | pump =>
    refine tells_after (proceeds_pumpFiles files).keeps fun served => ?_
    cases served with
    | ok n => exact tells_pure trivial
    | error e => exact ⟨keeps_throw e, fun _ _ _ _ ha => (by cases ha)⟩
  | pop => exact tells_pop files
  | counters => exact tells_after keeps_get fun _ => tells_pure trivial
  | fileState file => exact tells_after keeps_get fun _ => tells_pure trivial
  | tagSearch query => exact tells_map (tells_searchByTag query) fun _ => id
  | statSearch index =>
    refine tells_after keeps_statistics.extends fun stats => ?_
    cases stats.tag[index]? with
    | none => exact tells_pure fun x hx => by cases hx
    | some stat =>
      refine tells_after keeps_rootSuite.extends fun _ => ?_
      exact tells_map (tells_testsOfStat stat _) fun _ => id
  | combined query name =>
    refine tells_after (keeps_combinedStat query name).extends fun stat => ?_
    exact tells_bind (tells_testsOfStat stat _) fun _ => tells_pure id
  | render request => exact tells_map (keeps_renderText request).extends.tells fun _ _ => trivial
  | drop => exact absurd rfl kept

end RunReport.Session
