import RunReport.Proofs.Lineage
import RunReport.Proofs.Viewing
/-!
# Which suite is the root

A suite takes itself for the root if it cannot reach the suite above it. While the report is there
every suite but the root can. After the report is dropped a suite is there only as long as it, or
something above it, is held: whoever holds a suite without any that is above it is told that it is
the root.
-/

namespace RunReport.Session

open Effects

variable {s s' : Session} {r : Route}

/-! ## What is above a node -/

/-- Every node below the root is in its slot of the node above, and nothing that is numbered as a
message has a route. -/
structure Placed (s : Session) : Prop where
  slotted : ∀ owner step, (s.node? (.branch (.child owner step))).isSome →
    s.slot? owner step.branch.kind step.index = some (.branch (.child owner step))
  messages : ∀ number, (s.node? (.message number)).bind Node.plain? = none

theorem Consistent.placed (h : s.Consistent) : s.Placed where
  slotted := by
    intro owner step there
    obtain ⟨l, hl, slot⟩ := h.owned owner step there
    rw [slot?, hl]
    exact slot
  messages := by
    intro number
    cases hn : s.node? (.message number) with
    | none => rfl
    | some n =>
      obtain ⟨m, rfl⟩ := h.logged number n hn
      rfl

theorem Remains.placed (h : s.Remains s') (placed : s.Placed) : s'.Placed where
  slotted := by
    intro owner step there
    rw [h.slots]
    exact placed.slotted owner step (h.isSome _ ▸ there)
  messages number := (plain?_eq_of_map (h.nodes _)).trans (placed.messages number)

theorem Placed.step (placed : s.Placed) (h : s.Standing) (files : Files) (st : Step) :
    ((step files st).run s).2.Placed := by
  rcases h with h | h
  · rcases h.step_cases files st with consistent | ⟨-, remains⟩
    · exact consistent.placed
    · exact remains.placed placed
  · exact (step_remains h files st).2.1.placed placed

theorem Placed.play (placed : s.Placed) (h : s.Standing) (run : List (Files × Step)) :
    ((play run).run s).2.Placed := by
  induction run generalizing s with
  | nil => exact placed
  | cons m rest ih => exact ih (placed.step h m.1 m.2) (h.step m.1 m.2)

theorem Placed.owner (h : s.Placed) {owner : Route} {step : Segment}
    (there : (s.node? (.branch (.child owner step))).isSome) :
    (s.node? (.branch owner)).isSome := by
  obtain ⟨l, hl, -⟩ := Option.bind_eq_some_iff.1 (h.slotted owner step there)
  obtain ⟨n, hn, -⟩ := (list?_eq_some s).1 hl
  exact Option.isSome_iff_exists.2 ⟨n, hn⟩

/-- What holds a node is the node itself or a node above it. -/
theorem Placed.reaches_iff (h : s.Placed) (there : (s.node? (.branch r)).isSome) (held : NodeId) :
    s.reaches held r = true ↔ held ∈ r.chain := by
  induction r with
  | root => simp [reaches, Route.chain, Route.owners, NodeId.root]
  | child owner step ih =>
    have slot : ((s.list? owner step.branch.kind).bind (·.made.slot? step.index)).isSome := by
      have slotted := h.slotted owner step there
      rw [slot?] at slotted
      rw [slotted]
      rfl
    rw [reaches, slot, Bool.true_and, Bool.or_eq_true, beq_iff_eq, ih (h.owner there),
      Route.chain_child, List.mem_append, List.mem_singleton, or_comm]

/-- Nothing above is there any more. -/
def Orphaned (s : Session) (r : Route) : Prop :=
  s.isOpen = false ∧ ∀ h ∈ s.held, h.2 ∉ r.owners.map NodeId.branch

theorem Placed.owner?_isNone (h : s.Placed) (there : (s.node? (.branch r)).isSome) :
    (s.owner? (.branch r)).isNone = true ↔ r = .root ∨ s.Orphaned r := by
  cases r with
  | root => simp [owner?, Route.owner?]
  | child owner step =>
    have above : (Route.child owner step).owners.map NodeId.branch = owner.chain := rfl
    have gone : s.owner? (.branch (.child owner step)) = none ↔ s.isAlive owner = false := by
      rw [owner?, Route.owner?, Option.filter_eq_none_iff]
      simp
    rw [Option.isNone_iff_eq_none, gone, Orphaned, above, isAlive, Bool.or_eq_false_iff,
      List.any_eq_false]
    simp only [h.reaches_iff (h.owner there), reduceCtorEq, false_or]

/-! ## Describing a suite -/

/-- What is held, and what was made, stays the same. -/
structure Clings (s s' : Session) : Prop where
  held : s'.held = s.held
  slots : ∀ r kind i, s'.slot? r kind i = s.slot? r kind i

instance : Idle Clings where
  refl _ := ⟨rfl, fun _ _ _ => rfl⟩
  trans h h' := ⟨h'.held.trans h.held, fun r kind i => (h'.slots r kind i).trans (h.slots r kind i)⟩
  table s ref t := by
    obtain ⟨strings, splitStrings, eq⟩ := setTable_frame (s := s) ref t
    rw [eq]
    exact ⟨rfl, fun _ _ _ => rfl⟩
  text _ _ _ _ := ⟨rfl, fun _ _ _ => rfl⟩
  list s owner kind f slots := by
    refine ⟨rfl, fun r kind' i => ?_⟩
    rw [slot?, slot?, list?_update]
    split
    · next same =>
      rw [same.1, same.2]
      cases s.list? owner kind with
      | none => rfl
      | some l => simp only [Option.map_some, Option.bind_some, LazyList.slot?, slots]
    · rfl

theorem Clings.reaches (h : s.Clings s') (held : NodeId) (r : Route) :
    s'.reaches held r = s.reaches held r := by
  induction r with
  | root => rfl
  | child owner step ih =>
    have slot := h.slots owner step.branch.kind step.index
    rw [slot?, slot?] at slot
    rw [Session.reaches, Session.reaches, slot, ih]

theorem Clings.owner? (h : s.Clings s') (same : s'.isOpen = s.isOpen) (r : Route) :
    s'.owner? (.branch r) = s.owner? (.branch r) := by
  have alive : s'.isAlive = s.isAlive := by
    funext r
    simp only [isAlive, same, h.held, h.reaches]
  rw [Session.owner?, Session.owner?, alive]

/-- A suite of a closed session tells what it can still reach. -/
theorem describe_closed (closed : s.isOpen = false) (r : Route) (su : Suite) :
    ∃ v s', (describeNode (.branch r) (.suite su)).run s = (.ok (.suite v), s') ∧
      v.id = .branch r ∧ v.suite = su ∧ v.isRoot = (s.owner? (.branch r)).isNone := by
  have docs : Rests Clings (Session.doc (.branch r)) := rests_doc _
  have texts : Rests Clings (statusMessage (.branch r)) := rests_statusMessage _
  have failures : Rests Clings (hasTeardownFailure r) := rests_hasTeardownFailure r
  obtain ⟨doc, s₁, run₁⟩ : ∃ doc s₁, (Session.doc (.branch r)).run s = (doc, s₁) := ⟨_, _, rfl⟩
  obtain ⟨message, s₂, run₂⟩ : ∃ message s₂, (statusMessage (.branch r)).run s₁ = (message, s₂) :=
    ⟨_, _, rfl⟩
  obtain ⟨failure, s₃, run₃⟩ : ∃ failure s₃, (hasTeardownFailure r).run s₂ = (failure, s₃) :=
    ⟨_, _, rfl⟩
  obtain ⟨closed₁, clings₁⟩ := run₁ ▸ docs s closed
  obtain ⟨closed₂, clings₂⟩ := run₂ ▸ texts s₁ closed₁
  obtain ⟨closed₃, clings₃⟩ := run₃ ▸ failures s₂ closed₂
  have clings : s.Clings s₃ := Course.trans (Course.trans clings₁ clings₂) clings₃
  have above := clings.owner? (closed₃.trans closed.symm) r
  -- Nothing that cannot be read ends the description, and the suite above is looked for last.
  refine ⟨⟨.branch r, su, doc, message, failure, (s₃.owner? (.branch r)).isNone⟩, s₃, ?_, rfl, rfl,
    by rw [above]⟩
  simp only [describeNode, run_bind, attempt_run, run₁, run₂, run₃, run_get]
  rfl

/-- While the report is there a suite tells that it is the root exactly if it is. -/
theorem describe_standing (h : s.Standing) (placed : s.Placed) {su : Suite}
    (hn : s.node? (.branch r) = some (.suite su)) :
    ∃ v s', (describeNode (.branch r) (.suite su)).run s = (.ok (.suite v), s') ∧
      v.id = .branch r ∧ v.suite = su ∧ (v.isRoot = true ↔ r = .root ∨ s.Orphaned r) := by
  rcases h with h | h
  · obtain ⟨s', run⟩ := describe_suite h hn
    refine ⟨_, s', run, rfl, rfl, ?_⟩
    have there : ¬s.Orphaned r := fun orphaned => by cases h.isOpen.symm.trans orphaned.1
    simp [there]
  · obtain ⟨v, s', run, id, suite, isRoot⟩ := describe_closed h.closed r su
    refine ⟨v, s', run, id, suite, ?_⟩
    rw [isRoot]
    exact placed.owner?_isNone (by rw [hn]; rfl)

/-- Whoever asks a node to describe itself is answered its description. -/
theorem describe_answered {target : Target} {id : NodeId} {n : Node} {d : Description}
    (found : s.target? target = some id) (hn : s.node? id = some n)
    (described : (describeNode id n).run { s with fired := [] } = (.ok d, s')) (files : Files) :
    ((step files (.node target .describe)).run s).1.1 = .description d := by
  have target : ({ s with fired := [] } : Session).target? target = some id := found
  have node : ({ s with fired := [] } : Session).node? id = some n := hn
  rw [step_answer, stepAnswer_node target, answer_run]
  simp only [nodeAnswer, describe, run_bind, run_get, node, described, run_pure]

/-- A suite of any session tells that it is the root exactly if its id is `s1`, or if the report has
been dropped and nothing above the suite is held. -/
theorem suite_isRoot_iff {text : String} {s₀ : Session} (opened : open? text = .ok s₀)
    (run : List (Files × Step)) {s : Session} (reached : ((play run).run s₀).2 = s)
    {target : Target} {id : NodeId} (found : s.target? target = some id) {su : Suite}
    (hn : s.node? id = some (.suite su)) (files : Files) :
    ∃ r v, id = .branch r ∧
      ((step files (.node target .describe)).run s).1.1 = .description (.suite v) ∧
      v.id = id ∧ v.suite = su ∧ (v.isRoot = true ↔ id.text = "s1" ∨ s.Orphaned r) := by
  have consistent := consistent_open opened
  have standing : s.Standing := reached ▸ Standing.play (.inl consistent) run
  have placed : s.Placed := reached ▸ consistent.placed.play (.inl consistent) run
  cases id with
  | message number =>
    have plain := placed.messages number
    rw [hn] at plain
    cases plain
  | branch r =>
    have silent : ({ s with fired := [] } : Session).Placed := ⟨placed.slotted, placed.messages⟩
    obtain ⟨v, s', described, id, suite, isRoot⟩ := describe_standing standing.silent silent hn
    have root : (NodeId.branch r).text = "s1" ↔ r = .root := by
      constructor
      · exact fun named => @Route.text_injective r .root named
      · rintro rfl
        rfl
    exact ⟨r, v, rfl, describe_answered found hn described files, id, suite,
      isRoot.trans (or_congr_left root.symm)⟩

/-- A root suite with one suite below it. -/
def nestedReport : String :=
  "\x7b\"version\":2,\"generatedMillis\":0,\"baseMillis\":0,\"strings\":[\"*\",\"*Root\",\"*A\"],
    \"suite\":[1,0,0,0,[],[1,0,1],[[2,0,0,0,[],[1,0,1],[],[],[],[0,0,0,0]]],[],[],[0,0,0,0]],
    \"stats\":[]\x7d"

/-- Both suites are shown, the one below is held, and the report is dropped. -/
def orphaningRun : List (Files × Step) :=
  [(sampleFiles, .report .suite), (sampleFiles, .node (.id "s1") (.child .suite 0)),
    (sampleFiles, .node (.id "s1-s1") (.hold "below")), (sampleFiles, .report .drop)]

/-- The same, with the root held as well. -/
def sparingRun : List (Files × Step) :=
  (sampleFiles, .report .suite) :: (sampleFiles, .node (.id "s1") (.hold "root")) ::
    orphaningRun.tail

set_option maxRecDepth 2000 in
/-- With the root held, the suite below it knows that it is not the root. -/
theorem suite_isRoot_iff_sample : ∃ (s₀ s : Session) (v : SuiteView),
    open? nestedReport = .ok s₀ ∧ ((play sparingRun).run s₀).2 = s ∧ s.isOpen = false ∧
    s.reply sampleFiles "below" .describe = .description (.suite v) ∧ v.isRoot = false := by
  have opens : opensTo (fun s₀ =>
      let s := ((play sparingRun).run s₀).2
      !s.isOpen && s.held.lookup "below" == some (.branch (.child .root ⟨.suite, 0⟩)) &&
        s.held.contains ("root", .root) && (s.suite? (.child .root ⟨.suite, 0⟩)).isSome)
      nestedReport = true :=
    opensTo_ofList (by decide +kernel)
  obtain ⟨s₀, opened, checked⟩ := opensTo_iff.1 opens
  obtain ⟨s, reached⟩ : ∃ s, ((play sparingRun).run s₀).2 = s := ⟨_, rfl⟩
  simp only [reached, Bool.and_eq_true, Bool.not_eq_true', beq_iff_eq, List.contains_eq_mem,
    decide_eq_true_eq, Option.isSome_iff_exists, suite?] at checked
  obtain ⟨⟨⟨closed, below⟩, root⟩, su, suite⟩ := checked
  split at suite
  · rename_i su' hn
    have found : s.target? (.held "below") = some _ := below
    obtain ⟨r, v, same, described, -, -, isRoot⟩ :=
      suite_isRoot_iff opened sparingRun reached found hn sampleFiles
    cases same
    refine ⟨s₀, s, v, opened, reached, closed, described, ?_⟩
    rw [← Bool.not_eq_true, isRoot]
    rintro (named | ⟨-, unheld⟩)
    · exact absurd named (by decide)
    · exact unheld _ root (by decide)
  · cases suite

set_option maxRecDepth 2000 in
/-- A suite that is held alone after the report is dropped takes itself for the root. -/
theorem orphaned_suite_isRoot : ∃ (s₀ : Session) (v : SuiteView), open? nestedReport = .ok s₀ ∧
    ((play orphaningRun).run s₀).2.reply sampleFiles "below" .describe = .description (.suite v) ∧
    ¬(v.isRoot = true ↔ v.id.text = "s1") := by
  have opens : opensTo (fun s₀ =>
      let s := ((play orphaningRun).run s₀).2
      !s.isOpen && s.held.lookup "below" == some (.branch (.child .root ⟨.suite, 0⟩)) &&
        (s.owner? (.branch (.child .root ⟨.suite, 0⟩))).isNone &&
        (s.suite? (.child .root ⟨.suite, 0⟩)).isSome)
      nestedReport = true :=
    opensTo_ofList (by decide +kernel)
  obtain ⟨s₀, opened, checked⟩ := opensTo_iff.1 opens
  obtain ⟨s, reached⟩ : ∃ s, ((play orphaningRun).run s₀).2 = s := ⟨_, rfl⟩
  simp only [reached, Bool.and_eq_true, Bool.not_eq_true', beq_iff_eq,
    Option.isSome_iff_exists, suite?] at checked
  obtain ⟨⟨⟨closed, below⟩, alone⟩, su, suite⟩ := checked
  split at suite
  · rename_i su' hn
    have found : s.target? (.held "below") = some _ := below
    obtain ⟨v, s', described, id, -, isRoot⟩ :=
      describe_closed (s := { s with fired := [] }) closed (.child .root ⟨.suite, 0⟩) su'
    refine ⟨s₀, v, opened, ?_, fun agrees => ?_⟩
    · rw [reached]
      exact describe_answered found hn described sampleFiles
    · have named := agrees.1 (isRoot.trans alone)
      rw [id] at named
      exact absurd named (by decide)
  · cases suite

end RunReport.Session
