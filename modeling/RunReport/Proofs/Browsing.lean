import RunReport.Disk.Tree
import RunReport.Proofs.Addressing
import RunReport.Proofs.Granting
import RunReport.Proofs.Requests
import RunReport.Session.Preload
/-!
# Reading a path from a directory

A path that is read with the split files of a directory has an answer: the ids on it, each of which
finds its node, unless a file cannot be served or a record cannot be read. Whoever waits on the way
waits for a file that stands in the queue, so that serving the queue leaves nobody waiting.
-/

namespace RunReport

/-! ## Ids in a path -/

theorem Segment.countable_of_parse? {cs : List Char} {s : Segment}
    (h : Segment.parse? cs = some s) : s.Countable := by
  cases cs with
  | nil => cases h
  | cons c cs =>
    simp only [Segment.parse?] at h
    obtain ⟨branch, -, h⟩ := Option.bind_eq_some_iff.1 h
    obtain ⟨n, hn, h⟩ := Option.bind_eq_some_iff.1 h
    cases n with
    | zero => cases h
    | succ n =>
      cases h
      simp only [ordinal?] at hn
      split at hn
      · cases hn
      · split at hn
        · rename_i fits
          rw [Option.some_inj.1 hn] at fits
          exact fits
        · cases hn
      · cases hn

/-- The places in a path can be written in 64 bits. -/
theorem countable_parsePath (path : String) : ∀ step ∈ parsePath path, step.Countable := by
  have taken : ∀ pieces, ∀ step ∈ takeSegments pieces, step.Countable := by
    intro pieces
    induction pieces with
    | nil => intro step hs; cases hs
    | cons piece pieces ih =>
      intro step hs
      simp only [takeSegments] at hs
      cases parsed : Segment.parse? piece with
      | none => rw [parsed] at hs; cases hs
      | some first =>
        rw [parsed] at hs
        rcases List.mem_cons.1 hs with rfl | later
        · exact Segment.countable_of_parse? parsed
        · exact ih step later
  exact taken _

/-- An id is read back from its text. -/
theorem NodeId.ofText?_branch {r : Route} (h : ∀ step ∈ r.steps, step.Countable) :
    NodeId.ofText? (NodeId.branch r).text = some (.branch r) := by
  have start : ∃ rest, r.text.toList = 's' :: rest := by
    induction r with
    | root => exact ⟨['1'], rfl⟩
    | child owner step ih =>
      obtain ⟨rest, eq⟩ := ih fun s hs => h s (by simp [Route.steps, hs])
      exact ⟨_, by rw [Route.toList_text_child, eq]; rfl⟩
  have branch : NodeId.messageNumber? r.text.toList = none := by
    obtain ⟨rest, eq⟩ := start
    rw [eq]
    rfl
  simp only [NodeId.ofText?, NodeId.text, branch, Route.parsePath_text h, Route.append_steps,
    beq_self_eq_true, if_true]

theorem Route.steps_of_mem_chain {r : Route} {id : NodeId} (h : id ∈ r.chain) :
    ∃ above : Route, id = .branch above ∧ above.steps <+: r.steps := by
  induction r with
  | root => exact ⟨.root, List.mem_singleton.1 h, List.prefix_refl _⟩
  | child owner step ih =>
    rw [Route.chain_child, List.mem_append, List.mem_singleton] at h
    rcases h with above | rfl
    · obtain ⟨a, rfl, leads⟩ := ih above
      exact ⟨a, rfl, leads.trans (List.prefix_append _ _)⟩
    · exact ⟨_, rfl, List.prefix_refl _⟩

/-- A walk gives the ids down to where it ends. -/
theorem Source.walk_chain {src : Source} {steps : List Segment} {met ids : List NodeId} {r : Route}
    {p : Plain} (start : met.reverse = r.chain) (hw : src.walk steps met r p = .done (.ok ids)) :
    ∃ taken, taken <+: steps ∧ ids = (r.append taken).chain := by
  induction steps generalizing met r p with
  | nil =>
    cases hw
    exact ⟨[], List.prefix_refl _, start⟩
  | cons step rest ih =>
    simp only [walk] at hw
    cases hm : src.missing? p with
    | some file => rw [hm] at hw; cases hw
    | none =>
      rw [hm] at hw
      cases hc : src.child? p step with
      | error e => rw [hc] at hw; cases hw
      | ok found =>
        rw [hc] at hw
        cases found with
        | none =>
          cases hw
          exact ⟨[], List.nil_prefix, start⟩
        | some c =>
          obtain ⟨taken, leads, eq⟩ := ih (by rw [List.reverse_cons, start, Route.chain_child]) hw
          exact ⟨step :: taken, List.cons_prefix_cons.2 ⟨rfl, leads⟩, eq⟩

/-- The ids on a path are those of nodes one below the other, and are found by their texts. -/
theorem Source.resolution_chain {src : Source} {path : String} {ids : List NodeId} {p : Plain}
    (hp : src.node? .root = .ok (some p)) (done : src.resolution path = .done (.ok ids)) :
    ids ≠ [] ∧ ∀ id ∈ ids, NodeId.ofText? id.text = some id := by
  simp only [resolution, hp] at done
  obtain ⟨taken, leads, rfl⟩ := walk_chain (r := .root) rfl done
  constructor
  · simp [Route.chain]
  · intro id hid
    obtain ⟨above, rfl, isPrefix⟩ := Route.steps_of_mem_chain hid
    refine NodeId.ofText?_branch fun step hs => countable_parsePath path step (leads.mem ?_)
    have inside := isPrefix.mem hs
    rwa [Route.steps_append] at inside

namespace Session

open Effects

variable {s s' : Session} {files : Files} {path : String}

/-! ## Serving a path -/

/-- Setting out on a path lets no more files be asked for than it has steps. -/
theorem resolvePath_bound (h : s.Consistent) (root : (s.node? .root).isSome) (path : String)
    (sink : Sink) : ((resolvePath path sink).run s).2.requestBound ≤
      s.requestBound + (parsePath path).length := by
  obtain ⟨s', -, unfolds, ⟨p, hp⟩, run⟩ := resolvePath_run h root path sink
  have same : s'.requestBound = s.requestBound := by
    rw [requestBound_eq, requestBound_eq, unfolds.loader]
  cases hw : s.source.resolution path with
  | done result =>
    rw [hw] at run
    have delivered : ((deliver sink result).run s').2.loader = s'.loader := by
      cases sink <;> rfl
    rw [run, requestBound_eq, delivered, ← requestBound_eq, same]
    exact Nat.le_add_right _ _
  | waits file node step rest met =>
    rw [hw] at run
    simp only [Source.resolution, hp] at hw
    have shorter := Source.walk_shortens hw
    have asked := Loader.bound_ensure s'.loader file
      (.children node (.resolve step rest met sink))
    rw [run.2]
    rw [requestBound_eq] at same ⊢
    simp only [stepsLeft] at asked
    simp only [park]
    omega

/-- While the requests are served, what was promised for the path is kept, and what it has met is
there. -/
theorem Feeds.arrives {k n : Nat} (fed : Feeds files k s s') (h : s.Consistent)
    (owes : s.Owes n (.chain path)) (arrived : s.Arrived path) :
    s'.Owes n (.chain path) ∧ s'.Arrived path := by
  induction fed with
  | nothing s => exact ⟨owes, arrived⟩
  | @file k s s' name text loader payload popped read decoded rest ih =>
    have taken := (consistent_pop h).1
    obtain ⟨queue, eq⟩ := pop_frame s.loader
    rw [popped] at taken eq
    cases eq
    have owes' : ({ s with loader := { s.loader with queue } } : Session).Owes n (.chain path) :=
      owes.frame rfl rfl fun _ _ => Iff.rfl
    have arrived' : ({ s with loader := { s.loader with queue } } : Session).Arrived path := arrived
    refine ih (proceeds_announce name payload _ taken).1 (owes'.announce taken name payload) ?_
    refine arrived'.announce taken name payload owes.offers fun file node step rest met waits => ?_
    refine ⟨.future n, ((owes.awaited _).2 ?_).1⟩
    have waits : s.source.resolution path = .waits file node step rest met := waits
    simp only [Source.awaiting?, waits]
    rfl

/-- When nobody waits, a path has its result. -/
theorem Owes.settled {n : Nat} (owes : s.Owes n (.chain path)) (nobody : s.loader.parked = []) :
    ∃ result, s.source.resolution path = .done result ∧
      s.futures[n]? = some ⟨path, some (result.map .chain)⟩ := by
  cases hw : s.source.resolution path with
  | done result =>
    refine ⟨result, rfl, owes.future.trans ?_⟩
    simp only [Source.settled?, hw]
    rfl
  | waits file node step rest met =>
    have waiting := ((owes.awaited (file, .children node (.resolve step rest met (.future n)))).2
      (by simp only [Source.awaiting?, hw]; rfl)).1
    rw [nobody] at waiting
    cases waiting

/-- A future for a path sets out from the root suite, if that can be read. -/
theorem resolveFuture_sets_out (h : s.Consistent) (promising : s.Promising) (path : String) :
    match s.source.readSuite none s.suite .main with
    | .error e => ∃ t, (resolveFuture path).run s = (.error e, t) ∧ s.Explores t
    | .ok _ => ∃ t, (resolveFuture path).run s = (.ok s.futures.length, t) ∧ t.Consistent ∧
      t.Owes s.futures.length (.chain path) ∧ t.Arrived path ∧
      t.requestBound ≤ s.requestBound + (parsePath path).length := by
  obtain ⟨s₁, consistent, explores, run⟩ := resolveFuture_run h path
  cases root : s.source.readSuite none s.suite .main with
  | error e =>
    rw [root] at run
    exact ⟨s₁, run, explores⟩
  | ok p =>
    rw [root] at run
    obtain ⟨isRoot, t, resolved, run⟩ := run
    have promised := consistent.promise path
    have along := (proceeds_resolvePath path (.future s.futures.length) _ promised).1
    have arrives := resolvePath_arrives promised isRoot path (.future s.futures.length)
    have bound := resolvePath_bound promised isRoot path (.future s.futures.length)
    rw [resolved] at along arrives bound
    have same : (promise path s₁).requestBound = s.requestBound := by
      rw [requestBound_eq, requestBound_eq]
      exact congrArg _ explores.loader
    rw [same] at bound
    rw [← explores.futures] at resolved
    obtain ⟨offers, source, futures, parked, labels⟩ :=
      resolveFuture_grows consistent isRoot path resolved
    obtain ⟨-, owes, -⟩ := ((honours_unfolds explores.unfolds) promising).1.grow (w := .chain path)
      offers source futures parked fun x hx => .inl (labels ▸ hx)
    rw [explores.futures] at owes
    exact ⟨t, run, along, owes, arrives, bound⟩

/-! ## Browsing -/

variable {disk : Disk Id} {dir : Path}

theorem inSession_run {α : Type} (x : Run α) (s : Session) :
    (inSession x : Browse Id α).run s = ((x.run s).1.mapError .record, (x.run s).2) := by
  simp only [inSession, run_bind, run_get]
  rcases x.run s with ⟨_ | a, t⟩ <;> rfl

/-- What is made of the outcome of serving. -/
theorem served_run (dir : Path) (x : Except Error Nat × Session) (s : Session) :
    (do
      let (served, t) ← (liftM (m := Id) x : Browse Id (Except Error Nat × Session))
      set t
      match served with
      | .ok _ => return ()
      | .error e => throw (.splitFile dir e) : Browse Id Unit).run s =
      match x with
      | (.ok _, t) => (.ok (), t)
      | (.error e, t) => (.error (.splitFile dir e), t) := by
  rcases x with ⟨_ | k, t⟩ <;> rfl

theorem serve_run (disk : Disk Id) (dir : Path) (s : Session) :
    (serve disk dir).run s =
      match (pumpFiles (readSplit disk dir)).run s with
      | (.ok _, t) => (.ok (), t)
      | (.error e, t) => (.error (.splitFile dir e), t) :=
  served_run dir _ s

theorem browse_run (disk : Disk Id) (dir : Path) (path : String) (s : Session) :
    (browse disk dir path).run s =
      match (resolveFuture path).run s with
      | (.error e, t) => (.error (.record e), t)
      | (.ok n, t) =>
        match (pumpFiles (readSplit disk dir)).run t with
        | (.error e, u) => (.error (.splitFile dir e), u)
        | (.ok _, u) =>
          (match u.futures[n]?.bind (·.settled) with
          | some (.ok (.chain ids)) => .ok ids
          | some (.error e) => .error (.record e)
          | _ => .error (.neverArrived path), u) := by
  simp only [browse, run_bind, inSession_run, serve_run, run_get]
  rcases (resolveFuture path).run s with ⟨_ | n, t⟩
  · rfl
  · simp only [Except.mapError]
    rcases (pumpFiles (readSplit disk dir)).run t with ⟨_ | k, u⟩
    · rfl
    · simp only
      generalize u.futures[n]?.bind (·.settled) = settled
      rcases settled with _ | _ | _ | _ <;> rfl

theorem browseNode_run (disk : Disk Id) (dir : Path) (path : String) (s : Session) :
    (browseNode disk dir path).run s =
      match (browse disk dir path).run s with
      | (.error e, t) => (.error e, t)
      | (.ok ids, t) =>
        match ids.getLast?.filter fun id => (t.node? id).isSome with
        | some id => (.ok (ids, id), t)
        | none => (.error (.noNode path), t) := by
  simp only [browseNode, run_bind, run_get]
  rcases (browse disk dir path).run s with ⟨_ | ids, t⟩
  · rfl
  · simp only
    cases ids.getLast?.filter fun id => (t.node? id).isSome <;> rfl

/-- Reading a path from a directory in a session that has asked for no file. The root suite is read
and the requests are served, no more of them than the path has steps. In the end there are the ids on
the path, each of which is found, and the last one leads to a node; or a file cannot be served, or a
record cannot be read. Never is a file left that did not arrive, and never is a node missing. -/
theorem browse_answers (h : s.Reachable) (fresh : s.loader = .empty) (disk : Disk Id) (dir : Path)
    (path : String) :
    ∃ result k u s', (browse disk dir path).run s = (result, s') ∧
      Feeds (readSplit disk dir) k ((resolveFuture path).run s).2 u ∧
      k ≤ (parsePath path).length ∧
      match result with
      | .ok ids => u = s' ∧ s'.loader.queue = [] ∧ s'.loader.parked = [] ∧
        s'.source.resolution path = .done (.ok ids) ∧ ids ≠ [] ∧
        (∀ id ∈ ids, s'.loaded? id.text = some id) ∧
        ∃ last, ids.getLast? = some last ∧
          (browseNode disk dir path).run s = (.ok (ids, last), s')
      | .error (.splitFile d e) => d = dir ∧ Chokes (readSplit disk dir) e u s' ∧
        (browseNode disk dir path).run s = (.error (.splitFile dir e), s')
      | .error (.record e) => u = s' ∧ s'.loader.queue = [] ∧ s'.loader.parked = [] ∧
        (s'.source.node? .root = .error e ∨ s'.source.resolution path = .done (.error e)) ∧
        (browseNode disk dir path).run s = (.error (.record e), s')
      | .error _ => False := by
  have node := browseNode_run disk dir path s
  have browsed := browse_run disk dir path s
  have out := resolveFuture_sets_out h.consistent h.promising path
  have asked : s.requestBound = 0 := by
    rw [requestBound_eq, fresh]
    rfl
  cases root : s.source.readSuite none s.suite .main with
  | error e =>
    rw [root] at out
    obtain ⟨t, run, explores⟩ := out
    rw [run] at browsed ⊢
    rw [browsed] at node
    have unread : t.source.node? .root = .error e := by
      rw [explores.source]
      simp only [Source.node?]
      exact congrArg (some <$> ·) root
    exact ⟨_, 0, t, t, browsed, .nothing t, Nat.zero_le _, rfl, by rw [explores.loader, fresh]; rfl,
      by rw [explores.loader, fresh]; rfl, .inl unread, node⟩
  | ok p =>
    rw [root] at out
    obtain ⟨t, run, consistent, owes, arrived, bound⟩ := out
    have queued : t.loader.Queued [] := by
      have demands := (roams_resolveFuture (R := Demands []) path s h.consistent).2
      rw [run] at demands
      exact demands (fresh ▸ Loader.queued_empty)
    have pumped := pumpFiles_feeds consistent (readSplit disk dir)
    rw [run] at browsed ⊢
    rcases served : (pumpFiles (readSplit disk dir)).run t with ⟨e | k, s'⟩
    · simp only [served] at browsed pumped
      obtain ⟨k, u, fed, less, chokes⟩ := pumped
      rw [browsed] at node
      exact ⟨_, k, u, s', browsed, fed, by omega, rfl, chokes, node⟩
    · simp only [served] at browsed pumped
      obtain ⟨fed, consistent', -, most⟩ := pumped
      obtain ⟨-, idle, nobody, -⟩ := pumpFiles_settles consistent queued served
      obtain ⟨owes', arrived'⟩ := fed.arrives consistent owes arrived
      obtain ⟨result, done, future⟩ := owes'.settled nobody
      obtain ⟨p', hp'⟩ := owes'.offers
      rw [future, Option.bind_some] at browsed
      cases result with
      | error e =>
        rw [show (browse disk dir path).run s = (.error (.record e), s') from browsed] at node
        exact ⟨_, k, s', s', browsed, fed, by omega, rfl, idle, nobody, .inr done, node⟩
      | ok ids =>
        obtain ⟨nonempty, read⟩ := Source.resolution_chain hp' done
        have last := List.getLast?_eq_some_getLast nonempty
        have there := arrived' ids done _ (List.getLast_mem nonempty)
        rw [show (browse disk dir path).run s = (.ok ids, s') from browsed] at node
        simp only [last, Option.filter_some, there, if_true] at node
        refine ⟨_, k, s', s', browsed, fed, by omega, rfl, idle, nobody, done, nonempty, ?_,
          _, last, node⟩
        intro id hid
        have found := arrived' ids done id hid
        simp [loaded?, read id hid, consistent'.isOpen, found]

/-- A directory with one split file, which holds a keyword. -/
def sampleTree : FileTree :=
  .ofFiles [] [(⟨"log-1.json"⟩, some deepText)]

/-- The keyword in the file is read. -/
theorem browse_answers_sample : ∃ s s' : Session, s.Reachable ∧ s.loader = .empty ∧
    ∃ ids k, (browse sampleTree.disk ⟨"."⟩ "s1-k1-k1").run s = (.ok ids, s') ∧ ids.length = 3 ∧
      Feeds (readSplit sampleTree.disk ⟨"."⟩) k ((resolveFuture "s1-k1-k1").run s).2 s' ∧
      s'.loader.queue = [] ∧ s'.loader.parked = [] ∧
      ∀ id ∈ ids, s'.loaded? id.text = some id := by
  have opens : opensTo (fun s =>
      ((browse sampleTree.disk ⟨"."⟩ "s1-k1-k1").run s).1.toOption.map List.length == some 3)
        sampleReport = true := by
    decide +kernel
  obtain ⟨s, opened, checked⟩ := opensTo_iff.1 opens
  have reachable : s.Reachable := ⟨sampleReport, s, [], opened, by simp, rfl⟩
  have fresh := (fresh_open opened).1
  obtain ⟨result, k, u, s', run, fed, -, outcome⟩ :=
    browse_answers reachable fresh sampleTree.disk ⟨"."⟩ "s1-k1-k1"
  rw [run] at checked
  cases result with
  | error e => cases checked
  | ok ids =>
    obtain ⟨rfl, idle, nobody, -, -, found, -⟩ := outcome
    have three : ids.length = 3 := Option.some_inj.1 (eq_of_beq checked)
    exact ⟨s, u, reachable, fresh, ids, k, run, three, fed, idle, nobody, found⟩

end Session

end RunReport
