import RunReport.Proofs.Serving
/-!
# What a node shows of itself

The facts about a suite, test or keyword are read from the source at once, along its route; those
that a session shows are read off a description or a peek. A description that agrees with a source
agrees with every source that has more files.
-/

namespace RunReport

structure SuiteFacts where
  id : NodeId
  /-- Name, source, metadata, times and test counts. -/
  record : SuiteRecord
  fullName : String
  status : Status
  doc : Except Error String
  message : Except Error String
  teardownFailure : Except Error Bool
  isRoot : Bool
  keywords : Nat
  tests : Nat
  suites : Nat

structure TestFacts where
  id : NodeId
  /-- Name, timeout, criticality, tags and times. -/
  record : TestRecord
  fullName : String
  status : Status
  doc : Except Error String
  message : Except Error String
  splitFile : Option String

structure KeywordFacts where
  id : NodeId
  /-- Type, name, timeout, arguments, status and times. -/
  record : KeywordRecord
  path : String
  doc : Except Error String
  splitFile : Option String
  messages : Nat

inductive Facts where
  | suite (f : SuiteFacts)
  | test (f : TestFacts)
  | keyword (f : KeywordFacts)

namespace Plain

def name : Plain → String
  | .suite r _ _ _ => r.name
  | .test r _ _ _ => r.name
  | .keyword r _ _ => r.name

def status : Plain → Status
  | .suite r _ aboveFailed _ => effectiveStatus r.status aboveFailed
  | .test r _ aboveFailed _ => effectiveStatus r.status aboveFailed
  | .keyword r _ _ => r.status

/-- The node at a route in a few words. -/
def peek (r : Route) (p : Plain) : Session.Peek :=
  ⟨p.kind, .branch r, p.name, some p.status⟩

end Plain

namespace Source

/-- What the source says about the node at a route. -/
def facts (src : Source) (r : Route) (p : Plain) : Facts :=
  match p with
  | .suite record fullName aboveFailed table => .suite
    { id := .branch r, record, fullName, status := p.status
      doc := src.slotText table record.doc
      message := src.message table record.message aboveFailed
      teardownFailure := src.teardownFailure p
      isRoot := r == .root
      keywords := record.keywords.length, tests := record.tests.length
      suites := record.suites.length }
  | .test record fullName aboveFailed table => .test
    { id := .branch r, record, fullName, status := p.status
      doc := src.slotText table record.doc
      message := src.message table record.message aboveFailed
      splitFile := p.splitFile? }
  | .keyword record path table => .keyword
    { id := .branch r, record, path, doc := src.slotText table record.doc
      splitFile := p.splitFile?, messages := record.messages.length }

variable {src src' : Source}

theorem Within.facts (h : src.Within src') {r : Route} {p : Plain} (has : src.Has p.table) :
    src'.facts r p = src.facts r p := by
  cases p with
  | suite record fullName aboveFailed table =>
    simp only [Source.facts, Source.message, h.slotText (t := table) has, h.teardownFailure has]
  | test record fullName aboveFailed table =>
    simp only [Source.facts, Source.message, h.slotText (t := table) has]
  | keyword record path table =>
    simp only [Source.facts, h.slotText (t := table) has]

end Source

namespace Session

open Effects

/-! ## Descriptions and peeks -/

namespace Description

/-- What a description says about a suite, test or keyword. -/
def facts? : Description → Option Facts
  | .suite v => some (.suite
    { id := v.id, record := v.suite.record, fullName := v.suite.fullName, status := v.suite.status
      doc := v.doc, message := v.message, teardownFailure := v.teardownFailure, isRoot := v.isRoot
      keywords := v.suite.keywords.made.length, tests := v.suite.tests.made.length
      suites := v.suite.suites.made.length })
  | .test v => some (.test
    { id := v.id, record := v.test.record, fullName := v.test.fullName, status := v.test.status
      doc := v.doc, message := v.message, splitFile := v.test.keywords.splitFile })
  | .keyword v => some (.keyword
    { id := v.id, record := v.keyword.record, path := v.keyword.path, doc := v.doc
      splitFile := v.keyword.keywords.splitFile, messages := v.keyword.messages.made.length })
  | .message _ => none

/-- Number of keywords below, if they are loaded. -/
def keywordCount? : Description → Option Nat
  | .suite v => some v.suite.keywords.made.length
  | .test v => v.test.keywords.list.map (·.made.length)
  | .keyword v => v.keyword.keywords.list.map (·.made.length)
  | .message _ => none

/-- What is said about a suite, test or keyword is what the source says at its route. -/
def Agrees (src : Source) (d : Description) : Prop :=
  ∀ facts, d.facts? = some facts → ∃ r p, src.node? r = .ok (some p) ∧ facts = src.facts r p ∧
    ∀ n, d.keywordCount? = some n → src.keywordCount? p = some n

theorem Agrees.within {src src' : Source} {d : Description} (h : d.Agrees src)
    (le : src.Within src') : d.Agrees src' := by
  intro facts hd
  obtain ⟨r, p, hp, rfl, count⟩ := h facts hd
  refine ⟨r, p, le.node? hp, ?_, fun n hn => le.keywordCount? (count n hn)⟩
  exact (le.facts (Source.node?_has hp)).symm

end Description

/-- A peek that is not of a message tells what the source says at its route. -/
def Peek.Agrees (src : Source) (k : Peek) : Prop :=
  k.kind = .message ∨ ∃ r p, src.node? r = .ok (some p) ∧ k = p.peek r

theorem Peek.Agrees.within {src src' : Source} {k : Peek} (h : k.Agrees src)
    (le : src.Within src') : k.Agrees src' := by
  rcases h with message | ⟨r, p, hp, hk⟩
  · exact .inl message
  · exact .inr ⟨r, p, le.node? hp, hk⟩

variable {s s' : Session}

theorem peek_of_plain {n : Node} {p : Plain} (h : n.plain? = some p) (r : Route) :
    Peek.of (.branch r) n = p.peek r := by
  cases n <;> cases h <;> rfl

theorem peek_agrees (h : s.Consistent) {id : NodeId} {k : Peek} (hk : s.peek? id = some k) :
    k.Agrees s.source := by
  obtain ⟨n, hn, rfl⟩ := Option.map_eq_some_iff.1 hk
  cases id with
  | message number =>
    obtain ⟨m, rfl⟩ := h.logged number n hn
    exact .inl rfl
  | branch r =>
    obtain ⟨p, hplain, hp, -⟩ := h.plain hn
    exact .inr ⟨r, p, hp, peek_of_plain hplain r⟩

/-! ## Describing -/

theorem describe_suite (h : s.Consistent) {r : Route} {su : Suite}
    (hn : s.branch? r = some (.suite su)) :
    ∃ s', (describeNode (.branch r) (.suite su)).run s = (.ok (.suite
      { id := .branch r, suite := su, doc := s.source.slotText su.table su.record.doc
        message := s.source.message su.table su.record.message su.aboveFailed
        teardownFailure := s.source.teardownFailure
          (.suite su.record su.fullName su.aboveFailed su.table)
        isRoot := r == .root }), s') := by
  obtain ⟨s₁, run₁, refreshes₁⟩ := doc_run h hn rfl
  have hn₁ : s₁.branch? r = some (.suite su) := (refreshes₁.node? _).trans hn
  obtain ⟨s₂, run₂, refreshes₂⟩ := statusMessage_run refreshes₁.consistent hn₁ rfl rfl
  have hn₂ : s₂.branch? r = some (.suite su) := (refreshes₂.node? _).trans hn₁
  obtain ⟨s₃, run₃, consistent₃, explores₃, -⟩ :=
    hasTeardownFailure_run refreshes₂.consistent hn₂ rfl
  rw [refreshes₂.explores.source, refreshes₁.explores.source] at run₃
  rw [refreshes₁.explores.source] at run₂
  have isRoot : (s₃.owner? (.branch r)).isNone = (r == .root) := by
    cases r with
    | root => rfl
    | child owner step => simp [owner?, Route.owner?, isAlive, consistent₃.isOpen]
  refine ⟨s₃, ?_⟩
  simp only [describeNode, run_bind, attempt_run, run₁, run₂, run₃, run_get, isRoot]
  rfl

theorem describe_test (h : s.Consistent) {r : Route} {t : Test}
    (hn : s.branch? r = some (.test t)) :
    ∃ s', (describeNode (.branch r) (.test t)).run s = (.ok (.test
      { id := .branch r, test := t, doc := s.source.slotText t.table t.record.doc
        message := s.source.message t.table t.record.message t.aboveFailed }), s') := by
  obtain ⟨s₁, run₁, refreshes₁⟩ := doc_run h hn rfl
  have hn₁ : s₁.branch? r = some (.test t) := (refreshes₁.node? _).trans hn
  obtain ⟨s₂, run₂, -⟩ := statusMessage_run refreshes₁.consistent hn₁ rfl rfl
  rw [refreshes₁.explores.source] at run₂
  refine ⟨s₂, ?_⟩
  simp only [describeNode, run_bind, attempt_run, run₁, run₂]
  rfl

theorem describe_keyword (h : s.Consistent) {r : Route} {k : Keyword}
    (hn : s.branch? r = some (.keyword k)) :
    ∃ s', (describeNode (.branch r) (.keyword k)).run s = (.ok (.keyword
      { id := .branch r, keyword := k, doc := s.source.slotText k.table k.record.doc }), s') := by
  obtain ⟨s₁, run₁, -⟩ := doc_run h hn rfl
  refine ⟨s₁, ?_⟩
  simp only [describeNode, run_bind, attempt_run, run₁]
  rfl

/-- The parts of a description are read one after the other; whatever else is made on the way, each
of them gives what the source says. -/
theorem describeNode_run (h : s.Consistent) {r : Route} {n : Node} {p : Plain}
    (hn : s.branch? r = some n) (hf : n.Follows s.source p) :
    ∃ s' d, (describeNode (.branch r) n).run s = (.ok d, s') ∧
      d.facts? = some (s.source.facts r p) ∧
      d.keywordCount? = (n.list? .keyword).map (·.made.length) := by
  have plain := hf.plain
  have splitFile := hf.splitFile
  cases n with
  | message m => cases plain
  | suite su =>
    cases plain
    obtain ⟨s', run⟩ := describe_suite h hn
    refine ⟨s', _, run, ?_, rfl⟩
    have keywords := hf.count .keyword rfl
    have tests := hf.count .test rfl
    have suites := hf.count .suite rfl
    simp only [Source.items?, Option.map_some, Option.some.injEq] at keywords tests suites
    simp only [Description.facts?, Source.facts, keywords, tests, suites]
    rfl
  | test t =>
    cases plain
    obtain ⟨s', run⟩ := describe_test h hn
    refine ⟨s', _, run, ?_, rfl⟩
    simp only [Description.facts?, Source.facts, ← splitFile]
    rfl
  | keyword k =>
    cases plain
    obtain ⟨s', run⟩ := describe_keyword h hn
    refine ⟨s', _, run, ?_, rfl⟩
    have messages := hf.count .message rfl
    simp only [Source.items?, Option.map_some, Option.some.injEq] at messages
    simp only [Description.facts?, Source.facts, messages, ← splitFile]
    rfl

theorem describe_agrees (h : s.Consistent) (id : NodeId) {d : Description}
    (hd : ((describe id).run s).1 = .ok (some d)) : d.Agrees s.source := by
  simp only [describe, run_bind, run_get] at hd
  cases hn : s.node? id with
  | none => rw [hn] at hd; cases hd
  | some n =>
    rw [hn] at hd
    cases id with
    | message number =>
      obtain ⟨m, rfl⟩ := h.logged number n hn
      cases hd
      intro facts hfacts
      cases hfacts
    | branch r =>
      obtain ⟨p, hp, hf⟩ := h.follows r n hn
      obtain ⟨s', d', run, facts, count⟩ := describeNode_run h hn hf
      simp only [run_bind, run] at hd
      cases hd
      intro facts' hfacts
      rw [facts] at hfacts
      cases hfacts
      refine ⟨r, p, hp, rfl, ?_⟩
      intro k hk
      rw [count] at hk
      obtain ⟨l, hl, rfl⟩ := Option.map_eq_some_iff.1 hk
      exact hf.count _ hl

end Session

end RunReport
