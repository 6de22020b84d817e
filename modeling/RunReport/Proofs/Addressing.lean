import RunReport.Proofs.Naming
import RunReport.Proofs.Turns
/-!
# Paths as addresses

A path leads as far down the tree as it names nodes that are there. Where every split file is there
and every record can be read, resolving a path gives the ids down to the last of these nodes, and
makes them; and the id of a node, taken as a path, leads to that node.
-/

namespace RunReport

namespace Route

theorem cut_text (r : Route) :
    Text.cut ['-'] r.text.toList = Route.root.text.toList :: r.steps.map (·.text.toList) := by
  induction r with
  | root => exact cut_plain (by decide)
  | child owner step ih =>
    rw [toList_text_child, cut_append _ step.dash_not_mem_text, ih]
    simp [steps]

/-- The text of a route names its steps. -/
theorem parsePath_text {r : Route} (h : ∀ step ∈ r.steps, step.Countable) :
    parsePath r.text = r.steps := by
  rw [parsePath, cut_text]
  exact takeSegments_text h

theorem text_eq_foldl (r : Route) :
    r.text = r.steps.foldl (fun above step => above ++ "-" ++ step.text) "s1" := by
  induction r with
  | root => rfl
  | child owner step ih => rw [text, steps, List.foldl_append, ← ih]; rfl

/-- The ids down to a node: the root, and then each the one before it and one more segment. -/
theorem chain_text (r : Route) : r.chain.map NodeId.text =
    r.steps.scanl (fun above step => above ++ "-" ++ step.text) "s1" := by
  induction r with
  | root => rfl
  | child owner step ih =>
    rw [chain_child, List.map_append, ih, steps, List.scanl_append, ← text_eq_foldl,
      List.scanl_singleton]
    rfl

theorem steps_append (r : Route) (steps : List Segment) :
    (r.append steps).steps = r.steps ++ steps := by
  induction steps generalizing r with
  | nil => exact (List.append_nil _).symm
  | cons step rest ih =>
    have below := ih (.child r step)
    rw [Route.steps, List.append_assoc] at below
    exact below

end Route

namespace Source

variable {src lib : Source}

/-- Every record can be read, and no split file is missing. -/
def Whole (src : Source) : Prop :=
  ∀ r, ∃ found, src.node? r = .ok found ∧ ∀ p, found = some p → src.missing? p = none

/-- As many of the steps from a node as lead to nodes that are there. -/
structure Longest (src : Source) (r : Route) (steps taken : List Segment) : Prop where
  leads : taken <+: steps
  contains : src.Contains (r.append taken)
  maximal : ∀ other, other <+: steps → src.Contains (r.append other) →
    other.length ≤ taken.length

/-- A step that leads nowhere ends the way. -/
theorem longest_nil {r : Route} (here : src.Contains r) {step : Segment} {rest : List Segment}
    (none : ¬ src.Contains (.child r step)) : src.Longest r (step :: rest) [] where
  leads := List.nil_prefix
  contains := here
  maximal := by
    intro other isPrefix there
    cases other with
    | nil => exact Nat.le_refl _
    | cons first others =>
      obtain ⟨rfl, -⟩ := List.cons_prefix_cons.1 isPrefix
      exact absurd (Contains.of_append (r := .child r first) there) none

theorem Longest.cons {r : Route} {step : Segment} {rest taken : List Segment}
    (h : src.Longest (.child r step) rest taken) :
    src.Longest r (step :: rest) (step :: taken) where
  leads := List.cons_prefix_cons.2 ⟨rfl, h.leads⟩
  contains := h.contains
  maximal := by
    intro other isPrefix there
    cases other with
    | nil => simp
    | cons first others =>
      obtain ⟨rfl, below⟩ := List.cons_prefix_cons.1 isPrefix
      exact Nat.succ_le_succ (h.maximal others below there)

/-- Where nothing is missing a walk ends at the last node that is there. -/
theorem walk_whole (whole : src.Whole) (steps : List Segment) {met : List NodeId} {r : Route}
    {p : Plain} (hp : src.node? r = .ok (some p)) (start : met.reverse = r.chain) :
    ∃ taken, src.Longest r steps taken ∧
      src.walk steps met r p = .done (.ok (r.append taken).chain) := by
  induction steps generalizing met r p with
  | nil =>
    refine ⟨[], ⟨ List.nil_prefix, ⟨p, hp⟩, ?_⟩, ?_⟩
    · intro other isPrefix _
      simp [List.prefix_nil.1 isPrefix]
    · rw [walk, start]
      rfl
  | cons step rest ih =>
    obtain ⟨found, hfound, ready⟩ := whole r
    cases hp.symm.trans hfound
    obtain ⟨child, hchild, -⟩ := whole (.child r step)
    rw [node?_child_of hp] at hchild
    simp only [walk, ready p rfl, hchild]
    cases child with
    | none =>
      refine ⟨[], longest_nil ⟨p, hp⟩ ?_, by rw [start]; rfl⟩
      rintro ⟨c, hc⟩
      rw [node?_child_of hp, hchild] at hc
      cases hc
    | some c =>
      have start' : (.branch (.child r step) :: met).reverse = (Route.child r step).chain := by
        rw [List.reverse_cons, start, Route.chain_child]
      obtain ⟨taken, longest, walked⟩ := ih ((node?_child_of hp).trans hchild) start'
      exact ⟨step :: taken, longest.cons, walked⟩

/-- A path whose steps all lead on is taken to its end. -/
theorem Longest.whole {r : Route} {steps taken : List Segment} (h : src.Longest r steps taken)
    (all : src.Contains (r.append steps)) : taken = steps :=
  h.leads.eq_of_length_le (h.maximal steps (List.prefix_refl _) all)

/-- Where nothing is missing there is a root suite. -/
theorem Whole.root (whole : src.Whole) : ∃ p, src.node? .root = .ok (some p) := by
  obtain ⟨found, hfound, -⟩ := whole .root
  cases hr : src.readSuite none src.suite .main with
  | error e => rw [node?, hr] at hfound; cases hfound
  | ok p => exact ⟨p, by rw [node?, hr]; rfl⟩

theorem resolution_whole (whole : src.Whole) (path : String) :
    ∃ taken, src.Longest .root (parsePath path) taken ∧
      src.resolution path = .done (.ok (Route.root.append taken).chain) := by
  obtain ⟨p, hp⟩ := whole.root
  simp only [resolution, hp]
  exact walk_whole whole _ hp rfl

theorem Within.root (h : src.Within lib) {p : Plain} (hp : lib.node? .root = .ok (some p)) :
    src.readSuite none src.suite .main = .ok p := by
  rw [← h.readSuite (fun _ ha => by cases ha) (t := .main) trivial, ← h.suite]
  exact node?_root hp

/-! ## Checking that nothing is missing -/

/-- Whether a node and everything below it can be read, if it is not deeper than this. -/
def readable (src : Source) : Nat → Plain → Bool
  | 0, _ => false
  | depth + 1, p => (src.missing? p).isNone && [Branch.suite, .test, .keyword].all fun b =>
    match src.items? p b.kind with
    | none => true
    | some (items, _) => (List.range items.length).all fun i =>
      match src.child? p ⟨b, i⟩ with
      | .ok (some c) => src.readable depth c
      | .ok none => true
      | .error _ => false

def isWhole (src : Source) (depth : Nat) : Bool :=
  match src.node? .root with
  | .ok (some p) => src.readable depth p
  | _ => false

theorem node?_append_none {r : Route} (h : src.node? r = .ok none) (steps : List Segment) :
    src.node? (r.append steps) = .ok none := by
  induction steps generalizing r with
  | nil => exact h
  | cons step rest ih =>
    refine ih (r := .child r step) ?_
    rw [node?, h]
    rfl

/-- A step from a readable node leads to a readable node, or nowhere. -/
theorem readable_child {depth : Nat} {p : Plain} (h : src.readable (depth + 1) p = true)
    (step : Segment) : src.child? p step = .ok none ∨
      ∃ c, src.child? p step = .ok (some c) ∧ src.readable depth c = true := by
  cases hi : src.items? p step.branch.kind with
  | none => exact .inl (by simp only [child?, record?, hi])
  | some x =>
    obtain ⟨items, t⟩ := x
    by_cases inside : step.index < items.length
    · simp only [readable, Bool.and_eq_true, List.all_eq_true] at h
      have here := h.2 step.branch (by cases step.branch <;> simp)
      simp only [hi, List.all_eq_true, List.mem_range] at here
      have read := here step.index inside
      rw [show (⟨step.branch, step.index⟩ : Segment) = step from rfl] at read
      cases hc : src.child? p step with
      | error e => rw [hc] at read; cases read
      | ok found =>
        cases found with
        | none => exact .inl rfl
        | some c =>
          rw [hc] at read
          exact .inr ⟨c, rfl, read⟩
    · refine .inl ?_
      simp only [child?, record?, hi, List.getElem?_eq_none (Nat.le_of_not_lt inside)]
      rfl

theorem readable_below {depth : Nat} {r : Route} {p : Plain} (hp : src.node? r = .ok (some p))
    (h : src.readable depth p = true) (steps : List Segment) :
    ∃ found, src.node? (r.append steps) = .ok found ∧
      ∀ q, found = some q → src.missing? q = none := by
  induction steps generalizing depth r p with
  | nil =>
    cases depth with
    | zero => cases h
    | succ depth =>
      simp only [readable, Bool.and_eq_true, Option.isNone_iff_eq_none] at h
      refine ⟨some p, hp, ?_⟩
      rintro q ⟨⟩
      exact h.1
  | cons step rest ih =>
    cases depth with
    | zero => cases h
    | succ depth =>
      rcases readable_child h step with none | ⟨c, hc, below⟩
      · exact ⟨.none, node?_append_none (r := .child r step) ((node?_child_of hp).trans none) rest,
          fun _ hq => by cases hq⟩
      · exact ih (r := .child r step) ((node?_child_of hp).trans hc) below

theorem whole_of_isWhole {depth : Nat} (h : src.isWhole depth = true) : src.Whole := by
  intro r
  simp only [isWhole] at h
  split at h
  · rename_i p hp
    rw [← r.append_steps]
    exact readable_below hp h r.steps
  · cases h

end Source

namespace Session

open Effects

variable {s : Session} {lib : Source}

/-- The files on the way of a path have come. -/
def Supplied (s : Session) (lib : Source) (path : String) : Prop :=
  ∀ p, lib.node? .root = .ok (some p) → ∀ file ∈ lib.filesOn (parsePath path) p,
    ∃ payload, s.source.files file = some payload

/-- Those who wait already, as tasks. -/
def waiting (s : Session) : List Task :=
  s.loader.parked.map fun x => .parked x.1 x.2

/-- What a request has met in the end is registered. -/
theorem resolvePath_arrives (h : s.Consistent) (root : (s.node? .root).isSome) (path : String)
    (sink : Sink) : ((resolvePath path sink).run s).2.Arrived path := by
  obtain ⟨n, hn⟩ := Option.isSome_iff_exists.1 root
  obtain ⟨p, hp, hf⟩ := h.follows .root n hn
  have goes := resolveFrom_goes h hn hf hp sink (parsePath path) [.root]
  have run : (resolvePath path sink).run s =
      (resolveFrom sink (parsePath path) [.root] .root).run s := by
    simp only [resolvePath, state_bind, StateT.run_get, pure, h.isOpen, root, Bool.true_and,
      if_true]
  rw [run]
  intro ids done id hid
  rw [show ((resolveFrom sink (parsePath path) [.root] .root).run s).2.source = s.source
    from goes.source] at done
  simp only [Source.resolution, hp] at done
  rcases resolveFrom_makes h hn hf hp sink done id hid with met | made
  · cases List.mem_singleton.1 met
    exact goes.extension.isSome root
  · exact made

/-- Who sets out on a path after more has been read joins those who wait; nobody else is
answered. -/
theorem resolvePath_sets_out {s₁ : Session} (explores : s.Explores s₁) (silent : s.fired = [])
    (h : s₁.Consistent) (root : (s₁.node? .root).isSome) (path label : String) (files : Files) :
    ∃ s', (resolvePath path (.callback label)).run s₁ = ((), s') ∧
      s'.Tracks (s.waiting ++ [.request path label]) ∧ s'.Arrived path ∧
      s'.fired = (s.waiting ++ [Task.request path label]).flatMap
        fun t => (s'.source.fate t).events := by
  have goes := resolvePath_goes h root path label
  obtain ⟨s₂, run₂, advances⟩ := request_advances (h.tracks root) (explores.fired.trans silent) path
    label files
  have same : s₂ = ((resolvePath path (.callback label)).run s₁).2 := by
    rw [stepAnswer_report h, answer_run] at run₂
    exact (congrArg Prod.snd run₂).symm
  subst same
  refine ⟨((resolvePath path (.callback label)).run s₁).2, rfl, ?_,
    resolvePath_arrives h root path (.callback label), ?_⟩
  · rw [waiting, ← explores.loader]
    exact advances.tracks
  · obtain ⟨-, idle⟩ := Source.still_waiting fun x hx => h.parked_missing hx
    rw [goes.fired, goes.source, explores.fired, silent, waiting, ← explores.loader,
      List.flatMap_append, List.flatMap_map, idle]
    simp

/-- Resolving a path makes the root suite and sets out from there; nobody else is answered. -/
theorem resolve_run (h : s.Consistent) (silent : s.fired = []) {p : Plain}
    (root : s.source.readSuite none s.suite .main = .ok p) (path label : String) (files : Files) :
    ∃ s', (stepAnswer files (.report (.resolve path label))).run s = (.done, s') ∧
      s'.Tracks (s.waiting ++ [.request path label]) ∧ s'.Arrived path ∧
      s'.fired = (s.waiting ++ [Task.request path label]).flatMap
        fun t => (s'.source.fate t).events := by
  obtain ⟨s₁, made, consistent, explores, registered⟩ := rootSuite_run h
  obtain ⟨n, hn, -⟩ := registered p root
  have isRoot : (s₁.node? .root).isSome := by
    rw [show s₁.node? .root = some n from hn]
    rfl
  obtain ⟨s₂, run, rest⟩ := resolvePath_sets_out explores silent consistent isRoot path label files
  rw [root] at made
  have ran : (resolve path (.callback label)).run s = (.ok (), s₂) := by
    rw [resolve, run_bind_ok made, run_state, run]
  refine ⟨s₂, ?_, rest⟩
  rw [stepAnswer_report h, answer_run, reportAnswer, run_bind_ok ran]
  rfl

theorem resolve_step (h : s.Consistent) {p : Plain}
    (root : s.source.readSuite none s.suite .main = .ok p) (path label : String) (files : Files) :
    ∃ s', (step files (.report (.resolve path label))).run s = ((.done, s'.fired), s') ∧
      s'.Tracks (s.waiting ++ [.request path label]) ∧ s'.Arrived path ∧
      s'.fired = (s.waiting ++ [Task.request path label]).flatMap
        fun t => (s'.source.fate t).events := by
  obtain ⟨s', run, rest⟩ := resolve_run h.silent rfl root path label files
  exact ⟨s', step_run run, rest⟩

/-- Resolving a path in a report whose split files all exist and whose records can all be read, with
whatever requests, announcements and servings come after it until the files on its way are there:
the callback runs once, with the ids of the nodes that the longest part of the path leads to, and
these are registered. The id of a suite, test or keyword leads to it, past the nodes above it. -/
theorem path_resolves_to_longest_prefix (h : s.Reachable) (whole : lib.Whole)
    (within : s.source.Within lib) (path label : String) (files : Files)
    (later : List (Files × Turn)) :
    ∃ events s₁ answers s₂,
      (step files (.report (.resolve path label))).run s = ((.done, events), s₁) ∧
      (turns later).run s₁ = (answers, s₂) ∧
      (s₂.source.Within lib → s₂.Supplied lib path → ∃ taken ids,
        lib.Longest .root (parsePath path) taken ∧
        (events ++ answers.flatMap (·.2)).Perm (.resolved label (.ok ids) ::
          (s.waiting ++ later.filterMap (·.2.task?)).flatMap
            fun t => (s₂.source.fate t).events) ∧
        ids.map NodeId.text =
          taken.scanl (fun above step => above ++ "-" ++ step.text) "s1" ∧
        (∀ id ∈ ids, (s₂.node? id).isSome) ∧
        ∀ r : Route, r.text = path → (∀ step ∈ r.steps, step.Countable) → lib.Contains r →
          ids = (r.owners ++ [r]).map .branch) := by
  obtain ⟨p, hp⟩ := whole.root
  obtain ⟨s₁, run, tracks, arrived, fired⟩ :=
    resolve_step h.consistent (within.root hp) path label files
  obtain ⟨after, -, answered, arrives⟩ := turns_track tracks later
  refine ⟨s₁.fired, s₁, ((turns later).run s₁).1, ((turns later).run s₁).2, run, rfl,
    fun within₂ supplied => ?_⟩
  obtain ⟨result, done⟩ :=
    ((resolution_done after.consistent after.root path within₂).1 p hp).2 (supplied p hp)
  obtain ⟨taken, longest, reached⟩ := Source.resolution_whole whole path
  have same := (resolution_done after.consistent after.root path within₂).2 result done
  cases reached.symm.trans same
  refine ⟨taken, (Route.root.append taken).chain, longest, ?_, ?_, ?_, ?_⟩
  · have ended : (((turns later).run s₁).2.source.fate (.request path label)).events =
        [.resolved label (.ok (Route.root.append taken).chain)] := by
      rw [Source.fate, done]
      rfl
    rw [← fired] at answered
    refine List.perm_append_comm.trans (answered.trans ?_)
    simp only [List.flatMap_append, List.flatMap_cons, List.flatMap_nil, List.append_nil, ended,
      List.append_assoc]
    exact List.perm_middle
  · rw [Route.chain_text, Route.steps_append]
    rfl
  · exact arrives path label (by simp) arrived _ done
  · rintro r rfl countable there
    rw [Route.parsePath_text countable] at longest
    rw [longest.whole (by rw [Route.append_steps]; exact there), Route.append_steps]
    rfl

/-- The file of the sample comes. -/
def deepTurns : List (Files × Turn) :=
  [(sampleFiles, .move (.announce "log-1.json" deepText))]

/-- The path of that route is resolved, and then the file comes. -/
def deepRun : List (Files × Step) :=
  (sampleFiles, .report (.resolve "s1-k1-k1" "deep")) :: deepTurns.map fun t => (t.1, t.2.step)

theorem deepRun_keeps : ∀ m ∈ deepRun, m.2.keepsReport = true := by
  simp [deepRun, deepTurns, Turn.step, Move.step, Step.keepsReport]

theorem deepRun_end {s₁ s₂ : Session} {a : Answer × List Event}
    {answers : List (Answer × List Event)}
    (ran : (step sampleFiles (.report (.resolve "s1-k1-k1" "deep"))).run s = (a, s₁))
    (turned : (turns deepTurns).run s₁ = (answers, s₂)) : ((play deepRun).run s).2 = s₂ := by
  rw [turns] at turned
  simp only [deepRun, play, state_bind, ran, turned]
  rfl

theorem path_resolves_to_longest_prefix_sample : ∃ (s : Session) (lib : Source), s.Reachable ∧
    lib.Whole ∧ s.source.Within lib ∧ lib.Contains deepRoute ∧
    ∃ events s₁ answers s₂,
      (step sampleFiles (.report (.resolve "s1-k1-k1" "deep"))).run s = ((.done, events), s₁) ∧
      (turns deepTurns).run s₁ = (answers, s₂) ∧ s₂.source.Within lib ∧
      s₂.Supplied lib "s1-k1-k1" ∧ (s₂.branch? deepRoute).isSome ∧
      .resolved "deep" (.ok [.root, .branch (.child .root ⟨.keyword, 0⟩), .branch deepRoute]) ∈
        events ++ answers.flatMap (·.2) := by
  have opens : opensTo (fun s₀ =>
      ((play deepRun).run ((play sampleRun).run s₀).2).2.source.isWhole 4 &&
      match ((play deepRun).run ((play sampleRun).run s₀).2).2.source.node? deepRoute with
      | .ok found => found.isSome
      | .error _ => false) sampleReport = true := by
    decide +kernel
  obtain ⟨s₀, opened, checked⟩ := opensTo_iff.1 opens
  have reachable := sample_reachable opened
  generalize ((play sampleRun).run s₀).2 = s at reachable checked
  obtain ⟨isWhole, found⟩ := Bool.and_eq_true_iff.1 checked
  have whole := Source.whole_of_isWhole isWhole
  have there : ((play deepRun).run s).2.source.Contains deepRoute := by
    cases hr : ((play deepRun).run s).2.source.node? deepRoute with
    | error e => rw [hr] at found; cases found
    | ok node =>
      rw [hr] at found
      obtain ⟨p, hp⟩ := Option.isSome_iff_exists.1 found
      exact ⟨p, by rw [hr, hp]⟩
  have within : s.source.Within ((play deepRun).run s).2.source :=
    ((says_play s.source deepRun_keeps).proceeds s reachable.consistent).2.source
  obtain ⟨events, s₁, answers, s₂, ran, turned, resolves⟩ := path_resolves_to_longest_prefix
    reachable whole within "s1-k1-k1" "deep" sampleFiles deepTurns
  rw [deepRun_end ran turned] at whole there within resolves
  have supplied : s₂.Supplied s₂.source "s1-k1-k1" := by
    intro p hp
    have start : [NodeId.root].reverse = Route.root.chain := rfl
    obtain ⟨taken, -, walked⟩ := Source.walk_whole whole (parsePath "s1-k1-k1") hp start
    exact (Source.walk_done_iff (.refl _) (Source.node?_has hp)).1 ⟨_, walked⟩
  obtain ⟨taken, ids, -, fired, -, registered, self⟩ := resolves (.refl _) supplied
  have countable : ∀ step ∈ deepRoute.steps, step.Countable := by
    simp [deepRoute, Route.steps, Segment.Countable, Json.maxU64]
  have chain := self deepRoute (by decide +kernel) countable there
  refine ⟨s, _, reachable, whole, within, there, events, s₁, answers, _, ran, turned, .refl _,
    supplied, registered _ (by simp [chain]), ?_⟩
  rw [fired.mem_iff, chain]
  exact List.mem_cons_self

end Session

end RunReport
