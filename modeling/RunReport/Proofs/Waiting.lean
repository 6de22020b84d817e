import RunReport.Proofs.Reading
import RunReport.Proofs.Walking
import RunReport.Session.Resolve
/-!
# Waiting for files and going on

A step of a resolution puts the keywords of a node in place if its file is there, and otherwise
leaves a waiter with the file. So a resolution ends with what the walk over the source says, or waits
where the walk waits.
-/

namespace RunReport.Session

open Effects

/-- A session in which nodes may have been made and lists put in place, and nothing else happened. -/
structure Unfolds (s s' : Session) : Prop where
  source : s'.source = s.source
  nodes : ∀ id n, s.node? id = some n → ∃ n', s'.node? id = some n' ∧ n'.plain? = n.plain?
  loader : s'.loader = s.loader
  futures : s'.futures = s.futures
  labels : s'.labels = s.labels
  held : s'.held = s.held
  fired : s'.fired = s.fired

variable {s s' s'' : Session}

theorem Explores.unfolds (h : s.Explores s') : s.Unfolds s' :=
  ⟨h.source, h.extends.nodes, h.loader, h.futures, h.labels, h.held, h.fired⟩

theorem Unfolds.extends (h : s.Unfolds s') : s.Extends s' :=
  ⟨h.source ▸ .refl _, h.nodes⟩

theorem Unfolds.refl (s : Session) : s.Unfolds s :=
  (Explores.refl s).unfolds

theorem Unfolds.trans (h : s.Unfolds s') (h' : s'.Unfolds s'') : s.Unfolds s'' :=
  ⟨h'.source.trans h.source, (h.extends.trans h'.extends).nodes, h'.loader.trans h.loader,
    h'.futures.trans h.futures, h'.labels.trans h.labels, h'.held.trans h.held,
    h'.fired.trans h.fired⟩

/-! ## Putting keywords in place -/

section Install

variable {r : Route} {n : Node} {file : String} {payload : SplitPayload}

theorem node?_install (id : NodeId) : (install r file payload s).node? id =
    if id = .branch r then (s.node? id).map (·.install payload.keywords (.split file))
    else s.node? id :=
  node?_updateNode s ..

theorem isSome_install (id : NodeId) :
    ((install r file payload s).node? id).isSome = (s.node? id).isSome := by
  rw [node?_install]
  split <;> simp

theorem branch?_install (hn : s.branch? r = some n) : (install r file payload s).branch? r =
    some (n.install payload.keywords (.split file)) := by
  rw [branch?, node?_install, if_pos rfl, show s.node? (.branch r) = some n from hn]
  rfl

theorem list?_install (hn : s.branch? r = some n) (hf : n.splitFile? = some file) (owner : Route)
    (kind : NodeKind) : (install r file payload s).list? owner kind =
      if owner = r ∧ kind = .keyword then
        some ((s.list? r .keyword).getD (.ofItems payload.keywords (.split file)))
      else s.list? owner kind := by
  by_cases ho : owner = r
  · subst ho
    rw [list?_of_branch _ (branch?_install hn), list?_of_branch _ hn, list?_of_branch _ hn]
    by_cases hk : kind = .keyword
    · subst hk
      rw [if_pos ⟨rfl, rfl⟩]
      exact Node.list?_install _ _ _ (Node.keywords?_isSome_of_splitFile? hf)
    · rw [if_neg fun h => hk h.2]
      exact Node.list?_install_other _ _ _ hk
  · rw [if_neg fun h => ho h.1]
    simp only [list?, branch?, node?_install, NodeId.branch.injEq, if_neg ho]

theorem unfolds_install : s.Unfolds (install r file payload s) := by
  refine ⟨rfl, ?_, rfl, rfl, rfl, rfl, rfl⟩
  intro id n hn
  rw [node?_install, hn]
  split
  · exact ⟨_, rfl, Node.plain?_install ..⟩
  · exact ⟨n, rfl, rfl⟩

theorem Consistent.install (h : s.Consistent) (hn : s.branch? r = some n)
    (hf : n.splitFile? = some file) (hp : s.source.files file = some payload) :
    (install r file payload s).Consistent where
  isOpen := h.isOpen
  tables := h.tables
  texts _ _ _ kept := unfolds_install.extends.texts h.toFaithful kept
  unique := (keys_updateNode s ..).symm ▸ h.unique
  follows := by
    intro r' n' hn'
    rw [branch?, node?_install] at hn'
    by_cases hr : NodeId.branch r' = .branch r
    · cases hr
      rw [if_pos rfl, show s.node? (.branch r) = some n from hn] at hn'
      cases hn'
      obtain ⟨p, hread, follows⟩ := h.follows r n hn
      exact ⟨p, hread, follows.install hf hp⟩
    · rw [if_neg hr] at hn'
      exact h.follows r' n' hn'
  filled := by
    intro owner kind l i id hl hi
    rw [isSome_install]
    rw [list?_install hn hf] at hl
    by_cases here : owner = r ∧ kind = .keyword
    · rw [if_pos here] at hl
      obtain ⟨rfl, rfl⟩ := here
      cases old : s.list? owner .keyword with
      | some l' =>
        rw [old] at hl
        cases hl
        exact h.filled owner .keyword _ i id old hi
      | none =>
        rw [old] at hl
        cases hl
        cases (LazyList.slot?_ofLength i _).symm.trans hi
    · rw [if_neg here] at hl
      exact h.filled owner kind l i id hl hi
  counted number := by
    rw [isSome_install]
    exact h.counted number
  logged := by
    intro number n' hn'
    rw [node?_install, if_neg (by simp)] at hn'
    exact h.logged number n' hn'
  recorded := by
    intro owner l i id hl hi
    rw [list?_install hn hf, if_neg (by simp)] at hl
    obtain ⟨raw, record, hraw, read, hm⟩ := h.recorded owner l i id hl hi
    refine ⟨raw, record, hraw, read, ?_⟩
    obtain ⟨number, rfl⟩ := (h.filled owner .message l i id hl hi).1
    rw [node?_install, if_neg (by simp)]
    exact hm
  errors := h.errors
  failures i id hi := ⟨(h.failures i id hi).1, by rw [isSome_install]; exact (h.failures i id hi).2⟩
  distinct := h.distinct
  waiting := by
    intro file' ws hs node next hw
    obtain ⟨n', hn', hf'⟩ := h.waiting file' ws hs node next hw
    rw [branch?, node?_install, show s.node? (.branch node) = some n' from hn']
    split
    · exact ⟨_, rfl, (Node.splitFile?_install ..).trans hf'⟩
    · exact ⟨n', rfl, hf'⟩
  owned := by
    intro owner step hs
    rw [branch?, isSome_install] at hs
    obtain ⟨l, hl, hi⟩ := h.owned owner step hs
    rw [list?_install hn hf]
    by_cases here : owner = r ∧ step.branch.kind = .keyword
    · rw [if_pos here]
      obtain ⟨rfl, hk⟩ := here
      rw [hk] at hl
      exact ⟨l, by rw [hl]; rfl, hi⟩
    · rw [if_neg here]
      exact ⟨l, hl, hi⟩

end Install

/-! ## Waiting -/

/-- A session with one more waiter. -/
def park (file : String) (w : Waiter) (s : Session) : Session :=
  { s with loader := (s.loader.ensure file w).2 }

theorem source_park (file : String) (w : Waiter) : (park file w s).source = s.source := by
  simp only [source, park, Loader.payload?_ensure]

theorem extends_park (file : String) (w : Waiter) : s.Extends (park file w s) :=
  ⟨source_park (s := s) file w ▸ .refl _, fun _ n hn => ⟨n, hn, rfl⟩⟩

/-- A waiter for the keywords of a node waits for the file of that node. -/
theorem Consistent.park (h : s.Consistent) {file : String} {w : Waiter}
    (hw : ∀ node next, w = .children node next →
      ∃ n, s.branch? node = some n ∧ n.splitFile? = some file) :
    (park file w s).Consistent where
  isOpen := h.isOpen
  tables ref := by
    rw [source_park]
    exact h.tables ref
  texts _ _ _ kept := (extends_park file w).texts h.toFaithful kept
  unique := h.unique
  follows := by
    rw [source_park]
    exact h.follows
  filled := h.filled
  counted := h.counted
  logged := h.logged
  recorded := by
    intro owner l i id hl hi
    rw [Recorded, source_park]
    exact h.recorded owner l i id hl hi
  errors := h.errors
  failures := h.failures
  distinct := Loader.nodup_ensure h.distinct file w
  waiting := by
    intro file' ws hs node next hmem
    simp only [Session.park, Loader.state?_ensure] at hs
    cases old : s.loader.state? file with
    | none =>
      rw [old] at hs
      by_cases hfile : file' = file
      · subst hfile
        rw [if_pos rfl] at hs
        cases hs
        simp only [List.mem_singleton] at hmem
        exact hw node next hmem.symm
      · simp only [if_neg hfile] at hs
        exact h.waiting file' ws hs node next hmem
    | some state =>
      rw [old] at hs
      cases state with
      | loaded p => exact h.waiting file' ws hs node next hmem
      | pending ws' =>
        by_cases hfile : file' = file
        · subst hfile
          simp only [if_true] at hs
          cases hs
          rcases List.mem_append.1 hmem with old' | new
          · exact h.waiting file' ws' old node next old'
          · simp only [List.mem_singleton] at new
            exact hw node next new.symm
        · simp only [if_neg hfile] at hs
          exact h.waiting file' ws hs node next hmem
  owned := h.owned

theorem source_files (file : String) : s.source.files file = s.loader.payload? file := rfl

/-- A node that needs no file is one whose file is there. -/
theorem missing?_of_ready {src : Source} {n : Node} {p : Plain} (hf : n.Follows src p)
    (ready : n.missingFile? = none) : src.missing? p = none := by
  rw [Source.missing?_eq_none]
  intro file hfile
  cases hl : n.list? .keyword with
  | none =>
    rw [Node.missingFile?_eq_some.2 ⟨hl, hf.splitFile.trans hfile⟩] at ready
    cases ready
  | some l =>
    obtain ⟨items, t, hi, -⟩ := hf.listed .keyword l hl
    rw [src.items?_split hfile] at hi
    obtain ⟨payload, hp, -⟩ := Option.map_eq_some_iff.1 hi
    exact ⟨payload, hp⟩

/-- Where no file is missing there is a list of keywords, if only an empty one. -/
theorem listed_of_ready {src : Source} {n : Node} {p : Plain} (hf : n.Follows src p)
    (ready : n.missingFile? = none) : (n.list? .keyword).isSome := by
  cases hl : n.list? .keyword with
  | some l => rfl
  | none =>
    rcases hf.unlisted .keyword hl with ⟨-, split⟩ | none
    · obtain ⟨file, hfile⟩ := Option.isSome_iff_exists.1 split
      have missing := Node.missingFile?_eq_some.2 ⟨hl, hf.splitFile.trans hfile⟩
      rw [ready] at missing
      cases missing
    · -- Every suite, test and keyword has keywords once all files are there.
      have full := none { src with files := fun _ => some ⟨[], []⟩ }
      cases p with
      | suite record name failed t => cases full
      | test record name failed t =>
        cases hk : record.keywords <;> simp [Source.items?, Source.keywordItems?, hk] at full
      | keyword record path t =>
        cases hk : record.keywords <;> simp [Source.items?, Source.keywordItems?, hk] at full

theorem keywordCount?_of_ready {src : Source} {n : Node} {p : Plain} (hf : n.Follows src p)
    (ready : n.missingFile? = none) :
    (n.list? .keyword).map (·.made.length) = src.keywordCount? p := by
  obtain ⟨l, hl⟩ := Option.isSome_iff_exists.1 (listed_of_ready hf ready)
  rw [hl]
  exact (hf.count .keyword hl).symm

/-- Whoever looks at a node that needs no file sees all its keywords. -/
theorem sight_of_ready {r : Route} {src : Source} {n : Node} {p : Plain} (hf : n.Follows src p)
    (hp : src.node? r = .ok (some p)) (ready : n.missingFile? = none) :
    some n.sight = src.sight? r := by
  have loaded := Node.isLoaded_of_list? (listed_of_ready hf ready)
  simp only [Source.sight?, hp, Node.sight, loaded, keywordCount?_of_ready hf ready]

theorem ready_run_loaded {r : Route} {n : Node} (hn : s.branch? r = some n)
    (hm : n.missingFile? = none) (next : Continuation) :
    (ready (.branch r) next).run s = (true, s) := by
  simp only [ready, StateT.run_bind, StateT.run_get, hn, Option.bind_some, pure_bind, hm]
  rfl

theorem ready_run_absent {r : Route} {n : Node} {file : String} (hn : s.branch? r = some n)
    (hm : n.missingFile? = some file) (hp : s.loader.payload? file = none) (next : Continuation) :
    (ready (.branch r) next).run s = (false, park file (.children r next) s) := by
  simp only [ready, StateT.run_bind, StateT.run_get, hn, Option.bind_some, pure_bind, hm, park]
  have fst := Loader.ensure_fst s.loader file (.children r next)
  cases hl : s.loader.ensure file (.children r next) with
  | mk payload loader =>
    rw [hl, hp] at fst
    cases fst
    rfl

theorem ready_run_arrived {r : Route} {n : Node} {file : String} {payload : SplitPayload}
    (hn : s.branch? r = some n) (hm : n.missingFile? = some file)
    (hp : s.loader.payload? file = some payload) (next : Continuation) :
    (ready (.branch r) next).run s = (true, Session.install r file payload s) := by
  simp only [ready, StateT.run_bind, StateT.run_get, hn, Option.bind_some, pure_bind, hm]
  rw [Loader.ensure_loaded hp]
  rfl

/-- When the file of a node is missing, `next` waits for it. -/
theorem ready_waits {r : Route} {n : Node} {p : Plain} {file : String}
    (hn : s.branch? r = some n) (hf : n.Follows s.source p)
    (missing : s.source.missing? p = some file) (next : Continuation) :
    (ready (.branch r) next).run s = (false, park file (.children r next) s) ∧
      n.splitFile? = some file := by
  obtain ⟨split, absent⟩ := Source.missing?_eq_some.1 missing
  have hfile : n.splitFile? = some file := hf.splitFile.trans split
  cases hm : n.missingFile? with
  | none =>
    rw [missing?_of_ready hf hm] at missing
    cases missing
  | some file' =>
    cases (Node.missingFile?_eq_some.1 hm).2.symm.trans hfile
    exact ⟨ready_run_absent hn hm absent next, hfile⟩

/-- When no file is missing, the keywords of a node can be read. -/
theorem ready_proceeds (h : s.Consistent) {r : Route} {n : Node} {p : Plain}
    (hn : s.branch? r = some n) (hf : n.Follows s.source p)
    (there : s.source.missing? p = none) (next : Continuation) :
    ∃ s' n', (ready (.branch r) next).run s = (true, s') ∧ s'.Consistent ∧
      s.Unfolds s' ∧ s'.branch? r = some n' ∧ n'.Follows s'.source p ∧ n'.missingFile? = none := by
  cases hm : n.missingFile? with
  | none => exact ⟨s, n, ready_run_loaded hn hm next, h, .refl s, hn, hf, hm⟩
  | some file =>
    obtain ⟨-, hfile⟩ := Node.missingFile?_eq_some.1 hm
    obtain ⟨payload, hp⟩ := Source.missing?_eq_none.1 there file (hf.splitFile.symm.trans hfile)
    exact ⟨_, _, ready_run_arrived hn hm hp next, h.install hn hfile hp, unfolds_install,
      branch?_install hn, hf.install hfile hp, Node.missingFile?_install hfile ..⟩

/-- The child that a step leads to, below a node whose keywords can be read. -/
theorem child_run (h : s.Consistent) {r : Route} {n : Node} {p : Plain}
    (hn : s.branch? r = some n) (hf : n.Follows s.source p)
    (hp : s.source.node? r = .ok (some p)) (ready : n.missingFile? = none) (step : Segment) :
    ∃ s' result, (child (.branch r) step).run s = (result, s') ∧
      s.Finds s' (.branch (.child r step)) (s.source.child? p step) result := by
  have hl := list?_of_branch s hn step.branch.kind
  simp only [child, run_bind, run_get, hl]
  cases hlist : n.list? step.branch.kind with
  | none =>
    have none : s.source.child? p step = .ok none := by
      simp only [Source.child?, Source.record?, hf.items?_eq_none ready hlist]
    rw [none]
    exact ⟨s, _, rfl, h, .refl s, rfl, fun _ hq => (by cases hq)⟩
  | some l =>
    obtain ⟨s', result, run, finds, -⟩ := childAt_finds h hn hf hp hlist step.index
    exact ⟨s', result, run, finds⟩

/-- A resolution ends or waits as the walk over the source does, and makes the nodes it meets. -/
theorem resolveFrom_run (h : s.Consistent) {r : Route} {n : Node} {p : Plain}
    (hn : s.branch? r = some n) (hf : n.Follows s.source p)
    (hp : s.source.node? r = .ok (some p)) (sink : Sink) (steps : List Segment)
    (met : List NodeId) :
    ∃ s', s'.Consistent ∧ s.Unfolds s' ∧
      match s.source.walk steps met r p with
      | .done result =>
        (resolveFrom sink steps met (.branch r)).run s = (deliver sink result).run s' ∧
        ∀ ids, result = .ok ids → ∀ id ∈ ids, id ∈ met ∨ (s'.node? id).isSome
      | .waits file node step rest met' =>
        (resolveFrom sink steps met (.branch r)).run s =
          ((), park file (.children node (.resolve step rest met' sink)) s') ∧
        ∃ n', s'.branch? node = some n' ∧ n'.splitFile? = some file := by
  have before : ∀ (met : List NodeId) (s' : Session) ids,
      (.ok met.reverse : Except Error (List NodeId)) = .ok ids → ∀ id ∈ ids,
        id ∈ met ∨ (s'.node? id).isSome := by
    rintro met s' ids ⟨⟩ id hid
    exact .inl (List.mem_reverse.1 hid)
  induction steps generalizing s r n p met with
  | nil => exact ⟨s, h, .refl s, rfl, before met s⟩
  | cons step rest ih =>
    simp only [Source.walk, resolveFrom, state_bind]
    cases hm : s.source.missing? p with
    | some file =>
      obtain ⟨run, hfile⟩ := ready_waits hn hf hm (.resolve step rest met sink)
      rw [run]
      exact ⟨s, h, .refl s, rfl, n, hn, hfile⟩
    | none =>
      obtain ⟨s₁, n₁, run₁, consistent₁, unfolds₁, hn₁, hf₁, ready₁⟩ :=
        ready_proceeds h hn hf hm (.resolve step rest met sink)
      have hp₁ : s₁.source.node? r = .ok (some p) := unfolds₁.source ▸ hp
      obtain ⟨s₂, result, run₂, finds⟩ := child_run consistent₁ hn₁ hf₁ hp₁ ready₁ step
      have unfolds₂ := unfolds₁.trans finds.explores.unfolds
      rw [unfolds₁.source] at finds
      have run₂' : StateT.run (child (.branch r) step).run s₁ =
          ((s.source.child? p step).map (Option.map fun _ => .branch (.child r step)), s₂) := by
        rw [← finds.result]
        exact run₂
      simp only [run₁, if_true, state_bind, run₂']
      cases hc : s.source.child? p step with
      | error e => exact ⟨s₂, finds.consistent, unfolds₂, rfl, fun _ hids => by cases hids⟩
      | ok found =>
        cases found with
        | none => exact ⟨s₂, finds.consistent, unfolds₂, rfl, before met s₂⟩
        | some c =>
          obtain ⟨m, hm, hplain⟩ := finds.registered c hc
          obtain ⟨c', hc', hf'⟩ := finds.consistent.follows _ m hm
          cases hf'.plain.symm.trans hplain
          obtain ⟨s₃, consistent₃, unfolds₃, run₃⟩ :=
            ih finds.consistent hm hf' hc' (.branch (.child r step) :: met)
          rw [unfolds₂.source] at run₃
          refine ⟨s₃, consistent₃, unfolds₂.trans unfolds₃, ?_⟩
          simp only [Except.map, Option.map_some]
          cases hw : s.source.walk rest (.branch (.child r step) :: met) (.child r step) c with
          | waits => simpa only [hw] using run₃
          | done result =>
            simp only [hw] at run₃ ⊢
            refine ⟨run₃.1, fun ids hids id hid => ?_⟩
            rcases run₃.2 ids hids id hid with old | made
            · rcases List.mem_cons.1 old with rfl | old
              · exact .inr (unfolds₃.extends.isSome (by simp [hm]))
              · exact .inl old
            · exact .inr made

end RunReport.Session
