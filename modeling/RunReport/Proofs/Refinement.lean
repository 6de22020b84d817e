import RunReport.Proofs.Runs
/-!
# Reading lazily is reading at once

Whatever a session was asked, in whichever order and whatever failed, every suite, test and keyword
it showed is the one that the source has at that route; and asking for the root or for a child gives
exactly what the source has there.
-/

namespace RunReport.Session

open Effects

/-- The answer about a node that was read at once. -/
def Answer.ofRead (r : Route) : Except Error (Option Plain) → Answer
  | .ok (some p) => .peek (p.peek r)
  | .ok none => .nothing
  | .error e => .failed e

variable {s : Session}

theorem peekAnswer_run {r : Route} {n : Node} {p : Plain} (hn : s.branch? r = some n)
    (hp : n.plain? = some p) : (peekAnswer (some (.branch r))).run s = (.ok (.peek (p.peek r)), s) := by
  have peek : s.peek? (.branch r) = some (p.peek r) := by
    rw [peek?, show s.node? (.branch r) = some n from hn, ← peek_of_plain hp]
    rfl
  simp only [peekAnswer, run_bind, run_get, Option.bind_some, peek]
  rfl

/-- Asking for the root gives the root suite of the source, or why it cannot be read. -/
theorem step_suite (h : s.Consistent) (files : Files) :
    ((step files (.report .suite)).run s).1.1 = .ofRead .root (s.source.node? .root) := by
  obtain ⟨s', run, -, -, registered⟩ := rootSuite_run h.silent
  have source : ({ s with fired := [] } : Session).source = s.source := rfl
  rw [step_answer, stepAnswer_report h.silent, answer_run]
  simp only [reportAnswer, run_bind, run, source] at registered ⊢
  have node : s.source.node? .root = some <$> s.source.readSuite none s.suite .main := rfl
  rw [node]
  cases hread : s.source.readSuite none s.suite .main with
  | error e => rfl
  | ok p =>
    obtain ⟨n, hn, hp⟩ := registered p hread
    simp only [Except.map, NodeId.root, peekAnswer_run hn hp]
    rfl

/-- Asking for a child gives what the source has there. -/
theorem step_child (h : s.Consistent) (files : Files) {target : Target} {r : Route} {n : Node}
    {p : Plain} (ht : s.target? target = some (.branch r)) (hn : s.branch? r = some n)
    (hf : n.Follows s.source p) (hp : s.source.node? r = .ok (some p))
    (ready : n.missingFile? = none) (seg : Segment) :
    ((step files (.node target (.child seg.branch.kind seg.index))).run s).1.1 =
      .ofRead (.child r seg) (s.source.child? p seg) := by
  have ht' : ({ s with fired := [] } : Session).target? target = some (.branch r) := by
    cases target <;> exact ht
  have source : ({ s with fired := [] } : Session).source = s.source := rfl
  have branch : branchOf? seg.branch.kind = some seg.branch := by cases seg.branch <;> rfl
  obtain ⟨s', result, run, finds⟩ := child_run h.silent (n := n) hn hf hp ready seg
  rw [step_answer, stepAnswer_node ht', answer_run]
  simp only [nodeAnswer, branch, run_bind, run, finds.result, source]
  cases hc : s.source.child? p seg with
  | error e => rfl
  | ok found =>
    cases found with
    | none => rfl
    | some q =>
      obtain ⟨m, hm, hq⟩ := finds.registered q hc
      simp only [Except.map, Option.map_some, peekAnswer_run hm hq]
      rfl

/-- In every run before the report is dropped, with the files of any library that has the payloads
that came first: what was shown of a suite, test or keyword is what the library says at its route,
and what was named is in the library; so is every node that was made; and a child that is asked for
is the one the library has. -/
theorem lazy_reads_agree_with_source {text : String} {s₀ : Session} (opened : open? text = .ok s₀)
    {run : List (Files × Step)} (kept : ∀ m ∈ run, m.2.keepsReport = true) {lib : Source}
    (within : ((play run).run s₀).2.source.Within lib) :
    (∀ a ∈ ((play run).run s₀).1, a.1.Agrees lib) ∧
    (∀ r n, ((play run).run s₀).2.branch? r = some n → ∃ p, lib.node? r = .ok (some p) ∧
      n.plain? = some p ∧ ∀ kind l, n.list? kind = some l →
        (lib.items? p kind).map (·.1.length) = some l.made.length) ∧
    (∀ files, ((step files (.report .suite)).run ((play run).run s₀).2).1.1 =
      .ofRead .root (lib.node? .root)) ∧
    (∀ files target r n seg, ((play run).run s₀).2.target? target = some (.branch r) →
      ((play run).run s₀).2.branch? r = some n → n.missingFile? = none →
      ((step files (.node target (.child seg.branch.kind seg.index))).run
        ((play run).run s₀).2).1.1 = .ofRead (.child r seg) (lib.node? (.child r seg))) := by
  have told := says_play lib kept
  obtain ⟨consistent, -⟩ := told.proceeds s₀ (consistent_open opened)
  refine ⟨told.result s₀ (consistent_open opened) within, ?_, ?_, ?_⟩
  · intro r n hn
    obtain ⟨p, hp, hf⟩ := consistent.follows r n hn
    exact ⟨p, within.node? hp, hf.plain, fun kind l hl => (hf.within within).count kind hl⟩
  · intro files
    have root : lib.node? .root = ((play run).run s₀).2.source.node? .root := by
      have read : lib.readSuite none lib.suite .main = _ :=
        within.readSuite (fun _ hp => by cases hp) trivial
      rw [Source.node?, Source.node?, read, within.suite]
    rw [step_suite consistent, root]
  · intro files target r n seg ht hn ready
    obtain ⟨p, hp, hf⟩ := consistent.follows r n hn
    rw [step_child consistent files ht hn hf hp ready, Source.node?_child_of (within.node? hp),
      within.child? (Source.node?_has hp) (missing?_of_ready hf ready)]

theorem lazy_reads_agree_with_source_sample : ∃ s₀, open? sampleReport = .ok s₀ ∧
    (∀ m ∈ sampleRun, m.2.keepsReport = true) ∧
    (∀ a ∈ ((play sampleRun).run s₀).1, a.1.Agrees ((play sampleRun).run s₀).2.source) ∧
    ∃ n p, ((play sampleRun).run s₀).2.branch? (.child .root ⟨.keyword, 0⟩) = some n ∧
      ((play sampleRun).run s₀).2.source.node? (.child .root ⟨.keyword, 0⟩) = .ok (some p) ∧
      n.plain? = some p := by
  obtain ⟨s₀, opened, -, keyword⟩ := sample_opens
  obtain ⟨agree, made, -⟩ := lazy_reads_agree_with_source opened sampleRun_keeps (.refl _)
  obtain ⟨n, hn⟩ := Option.isSome_iff_exists.1 keyword
  obtain ⟨p, hp, plain, -⟩ := made _ n hn
  exact ⟨s₀, opened, sampleRun_keeps, agree, n, p, hn, hp, plain⟩

end RunReport.Session
