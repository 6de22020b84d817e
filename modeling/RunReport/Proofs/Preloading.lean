import RunReport.Proofs.Browsing
import RunReport.Proofs.Children
/-!
# Loading all keywords below a node

Whoever asks for the keywords of a node finds them in place or leaves a waiter that puts them there.
So when a request has been made for a node and all requests have been served, its keywords are in
place; and when a worklist of nodes has been worked off, so are those of all keywords below them.
-/

namespace RunReport.Session

open Effects

variable {s s' s'' : Session} {files : Files} {r : Route} {id : NodeId}

/-! ## Lists that are there -/

/-- No list of children goes away. -/
def Retains (s s' : Session) : Prop :=
  ∀ r kind, (s.list? r kind).isSome → (s'.list? r kind).isSome

theorem retains_of_list? (h : s'.list? = s.list?) : s.Retains s' := by
  intro r kind listed
  rw [h]
  exact listed

instance : Tame Retains where
  refl s := retains_of_list? rfl
  trans h h' r kind listed := h' r kind (h r kind listed)
  explores h _ _ listed := h.listed listed
  install hn hf payload r kind listed := by
    rw [list?_install hn hf]
    split
    · rfl
    · exact listed
  park _ _ := retains_of_list? rfl
  arrive _ _ := retains_of_list? rfl
  aside _ _ _ _ _ := retains_of_list? rfl

instance : Taking Retains where
  pop _ := retains_of_list? rfl

/-- The keywords of a node are there, or somebody waits to put them in place. -/
def Attends (s : Session) (r : Route) : Prop :=
  (s.list? r .keyword).isSome ∨ ∃ file next, (file, .children r next) ∈ s.loader.parked

/-- Whoever asks for keywords that are not there waits to put them in place. -/
theorem whenReady_attends (h : s.Consistent) (hr : (s.branch? r).isSome) (next : Continuation) :
    ((whenReady (.branch r) next).run s).2.Attends r := by
  obtain ⟨n, hn⟩ := Option.isSome_iff_exists.1 hr
  obtain ⟨p, -, hf⟩ := h.follows r n hn
  have kept := (tame_whenReady (R := Retains) (.branch r) next s h).2
  cases hm : n.missingFile? with
  | none =>
    refine .inl (kept r .keyword ?_)
    rw [list?_of_branch s hn]
    exact listed_of_ready hf hm
  | some file =>
    have split := (Node.missingFile?_eq_some.1 hm).2
    cases there : s.loader.payload? file with
    | none =>
      have run : ((whenReady (.branch r) next).run s).2 = park file (.children r next) s := by
        simp only [whenReady, state_bind, ready_run_absent hn hm there]
        rfl
      rw [run]
      refine .inr ⟨file, next, ?_⟩
      rw [park, (Loader.parked_ensure there _).mem_iff]
      simp
    | some payload =>
      have run : ((whenReady (.branch r) next).run s).2 =
          ((runNext (.branch r) next).run (install r file payload s)).2 := by
        simp only [whenReady, state_bind, ready_run_arrived hn hm there]
        rfl
      rw [run]
      refine .inl ((tame_runNext (R := Retains) _ next _ (h.install hn split there)).2 r .keyword ?_)
      rw [list?_install hn split, if_pos ⟨rfl, rfl⟩]
      rfl

/-- Those who waited for the file of a node have put its keywords in place. -/
theorem runWaiters_install (h : s.Consistent) {file : String} {payload : SplitPayload}
    {ws : List Waiter} (a : s.Awaits file payload ws) {next : Continuation}
    (mem : .children r next ∈ ws) :
    (((runWaiters file payload ws).run s).2.list? r .keyword).isSome := by
  induction ws generalizing s with
  | nil => cases mem
  | cons w ws ih =>
    have first := runWaiter_goes h a.head
    rcases List.mem_cons.1 mem with rfl | mem
    · obtain ⟨n, hn, split⟩ := a.head.nodes (List.mem_singleton_self _)
      have installed := h.install hn split a.come
      have placed : ((install r file payload s).list? r .keyword).isSome := by
        rw [list?_install hn split, if_pos ⟨rfl, rfl⟩]
        rfl
      have own := (tame_runNext (R := Retains) (.branch r) next _ installed).2 r .keyword placed
      exact tame_runWaiters (R := Retains) first.consistent (a.tail h) r .keyword own
    · exact ih first.consistent (a.tail h) mem

theorem Attends.announce (a : s.Attends r) (h : s.Consistent) (file : String)
    (payload : SplitPayload) : ((announce file payload).run s).2.Attends r := by
  rcases a with listed | ⟨name, next, waits⟩
  · exact .inl ((tame_announce (R := Retains) h file payload) r .keyword listed)
  obtain ⟨s', run, -, -, files, parked, -⟩ := announce_fates h file payload
  have absent : s.source.files name = none := h.parked_missing waits
  cases there : s'.source.files name with
  | none =>
    -- The file it waits for has not come.
    rw [run]
    refine .inr ⟨name, next, parked.mem_iff.2 (List.mem_filterMap.2 ⟨_, waits, ?_⟩)⟩
    simp only [Source.fate, there, Outcome.waiting?]
  | some p =>
    have same : name = file := by
      by_contra other
      rw [files, absent, if_neg other] at there
      cases there
    subst same
    obtain ⟨ws, hs, mem⟩ := (Loader.mem_parked h.distinct).1 waits
    have new : s.loader.payload? name = none := absent
    have waiters : (s.loader.announce name payload).1 = ws := by
      simp only [Loader.announce, hs]
    rw [announce_run_new new]
    exact .inl (runWaiters_install (h.arrive new payload) (h.awaits new payload) (waiters ▸ mem))

theorem Feeds.attends {k : Nat} (fed : Feeds files k s s') (h : s.Consistent)
    (a : s.Attends r) : s'.Attends r := by
  induction fed with
  | nothing s => exact a
  | @file k s s' name text loader payload popped read decoded rest ih =>
    have taken := (consistent_pop h).1
    obtain ⟨queue, eq⟩ := pop_frame s.loader
    rw [popped] at taken eq
    cases eq
    have waits : ({ s with loader := { s.loader with queue } } : Session).Attends r := a
    exact ih (proceeds_announce name payload _ taken).1 (waits.announce taken name payload)

/-! ## One node after the other -/

/-- Nothing is asked for and nobody waits. -/
structure Served (s : Session) : Prop where
  queue : s.loader.queue = []
  parked : s.loader.parked = []
  pendingFiles : s.loader.pendingFiles = []

/-- The keywords among the children that were found, last first. -/
def onward : Option (List NodeId) → List NodeId
  | none => []
  | some ids => (ids.filter isKeyword).reverse

/-- One node has been seen to: its split file was asked for, the requests were served, and its
children were found. -/
def Visits (files : Files) (id : NodeId) (s : Session) (found : Option (List NodeId))
    (s' : Session) : Prop :=
  ∃ k t, (pumpFiles files).run ((whenReady id .nothing).run s).2 = (.ok k, t) ∧
    (children id).run t = (.ok found, s')

section Rounds

variable {disk : Disk Id} {dir : Path} {found : Option (List NodeId)}

theorem whenReady_inSession (s : Session) (id : NodeId) :
    (inSession (liftM (whenReady id .nothing)) : Browse Id Unit).run s =
      (.ok (), ((whenReady id .nothing).run s).2) := by
  rw [inSession_run, run_state]
  rfl

/-- When the first node of the worklist has been seen to, its keywords come next. -/
theorem Visits.round (v : Visits (readSplit disk dir) id s found s') (pending : List NodeId)
    (fuel : Nat) : (preloadFrom disk dir (fuel + 1) (id :: pending)).run s =
      (preloadFrom disk dir fuel (onward found ++ pending)).run s' := by
  obtain ⟨k, t, pumped, listed⟩ := v
  have serves := serve_run disk dir ((whenReady id .nothing).run s).2
  rw [pumped] at serves
  have lists := inSession_run (children id) t
  rw [listed] at lists
  rw [preloadFrom, run_bind_ok (whenReady_inSession s id), run_bind_ok serves, run_bind_ok lists]
  cases found <;> rfl

/-- A round of the worklist sees to its first node, or fails. -/
theorem preloadFrom_visits (disk : Disk Id) (dir : Path) (s : Session) (id : NodeId)
    (pending : List NodeId) :
    (∃ found t, Visits (readSplit disk dir) id s found t ∧ ∀ fuel,
      (preloadFrom disk dir (fuel + 1) (id :: pending)).run s =
        (preloadFrom disk dir fuel (onward found ++ pending)).run t) ∨
    ∃ e t, (∀ fuel, (preloadFrom disk dir (fuel + 1) (id :: pending)).run s = (.error e, t)) ∧
      ((∃ cause, e = .splitFile dir cause) ∨
        ∃ cause k u, e = .record cause ∧ (children id).run u = (.error cause, t) ∧
          (pumpFiles (readSplit disk dir)).run ((whenReady id .nothing).run s).2 = (.ok k, u)) := by
  have begins := whenReady_inSession s id
  have serves := serve_run disk dir ((whenReady id .nothing).run s).2
  rcases pumped : (pumpFiles (readSplit disk dir)).run ((whenReady id .nothing).run s).2 with
    ⟨e | k, t⟩
  · rw [pumped] at serves
    refine .inr ⟨.splitFile dir e, t, fun fuel => ?_, .inl ⟨e, rfl⟩⟩
    rw [preloadFrom, run_bind_ok begins, run_bind_error serves]
  · rcases listed : (children id).run t with ⟨e | found, u⟩
    · rw [pumped] at serves
      have lists := inSession_run (children id) t
      rw [listed] at lists
      refine .inr ⟨.record e, u, fun fuel => ?_, .inr ⟨e, k, t, rfl, listed, rfl⟩⟩
      rw [preloadFrom, run_bind_ok begins, run_bind_ok serves, run_bind_error lists]
    · have visits : Visits (readSplit disk dir) id s found u := ⟨k, t, pumped, listed⟩
      exact .inl ⟨found, u, visits, visits.round pending⟩

/-- Seeing to a node keeps what the session has. -/
theorem Visits.goes_on (v : Visits files id s found s') (h : s.Consistent) :
    s'.Consistent ∧ s.Extends s' ∧ s.Retains s' := by
  obtain ⟨k, t, pumped, listed⟩ := v
  obtain ⟨h₁, e₁⟩ := proceeds_whenReady id .nothing s h
  have kept₁ := (tame_whenReady (R := Retains) id .nothing s h).2
  have along₂ := proceeds_pumpFiles files _ h₁
  have kept₂ := (follows_pumpFiles (R := Retains) files _ h₁).2
  rw [pumped] at along₂ kept₂
  have along₃ := keeps_children id t along₂.1
  rw [listed] at along₃
  exact ⟨along₃.1, (e₁.trans along₂.2).trans along₃.2.extends,
    Course.trans (Course.trans kept₁ kept₂) (Looking.explores along₃.2)⟩

/-- When every file that is asked for stands in the queue, nobody is left waiting. -/
theorem Visits.settles (v : Visits files id s found s') (h : s.Consistent)
    (queued : s.loader.Queued []) : s'.loader.Queued [] ∧ s'.Served := by
  obtain ⟨k, t, pumped, listed⟩ := v
  obtain ⟨h₁, demands⟩ := tame_whenReady (R := Demands []) id .nothing s h
  obtain ⟨queued', idle, nobody, nothing⟩ := pumpFiles_settles h₁ (demands queued) pumped
  have h₂ := (proceeds_pumpFiles files _ h₁).1
  rw [pumped] at h₂
  have same := (keeps_children id t h₂).2.loader
  rw [listed] at same
  exact ⟨same ▸ queued', same ▸ idle, same ▸ nobody, same ▸ nothing⟩

/-- When every file that is asked for stands in the queue, serving them puts the keywords of the node
in place: otherwise somebody would still wait. -/
theorem listed_of_served (h : s.Consistent) (hr : (s.branch? r).isSome)
    (queued : s.loader.Queued []) {k : Nat} {t : Session}
    (pumped : (pumpFiles files).run ((whenReady (.branch r) .nothing).run s).2 = (.ok k, t)) :
    (t.list? r .keyword).isSome := by
  obtain ⟨h₁, demands⟩ := tame_whenReady (R := Demands []) (.branch r) .nothing s h
  have fed := pumpFiles_feeds h₁ files
  rw [pumped] at fed
  obtain ⟨-, -, nobody, -⟩ := pumpFiles_settles h₁ (demands queued) pumped
  rcases fed.1.attends h₁ (whenReady_attends h hr .nothing) with there | ⟨file, next, waits⟩
  · exact there
  · rw [nobody] at waits
    cases waits

/-- What was found below a suite, test or keyword are its keywords, all of them if every file that is
asked for stands in the queue. -/
theorem Visits.spreads (v : Visits files (.branch r) s found s') (h : s.Consistent)
    (hr : (s.branch? r).isSome) :
    ∃ (t : Session) (p : Plain), t.source = s'.source ∧ s'.source.node? r = .ok (some p) ∧
      t.Explores s' ∧ t.Spreads s' r p found ∧ (s.loader.Queued [] → found.isSome) := by
  obtain ⟨k, t, pumped, listed⟩ := v
  obtain ⟨h₁, e₁⟩ := proceeds_whenReady (.branch r) .nothing s h
  have along := proceeds_pumpFiles files _ h₁
  rw [pumped] at along
  obtain ⟨n, hn⟩ := Option.isSome_iff_exists.1 ((e₁.trans along.2).isSome hr)
  obtain ⟨p, hp, hf⟩ := along.1.follows r n hn
  obtain ⟨-, e, spreads⟩ := children_spread along.1 hn hf hp listed
  refine ⟨t, p, e.source.symm, e.source ▸ hp, e, spreads, fun queued => ?_⟩
  cases found with
  | some ids => rfl
  | none =>
    have there := listed_of_served h hr queued pumped
    rw [show t.list? r .keyword = none from spreads] at there
    cases there

/-- What was found is registered. -/
theorem Visits.registers (v : Visits files id s found s') (h : s.Consistent)
    (hid : (s.node? id).isSome) : ∀ id' ∈ onward found, (s'.node? id').isSome := by
  cases id with
  | message number =>
    obtain ⟨k, t, -, listed⟩ := v
    simp only [children, run_bind, run_get] at listed
    cases listed
    intro id' mem
    cases mem
  | branch r =>
    obtain ⟨t, p, -, -, -, spreads, -⟩ := v.spreads h hid
    cases found with
    | none => intro id' mem; cases mem
    | some ids =>
      obtain ⟨-, items, table, -, -, registered⟩ := spreads
      exact fun id' mem => registered id' (List.mem_reverse.1 mem)

/-- Every keyword of the node comes next. -/
theorem Visits.unfolds (v : Visits files (.branch r) s found s') (h : s.Consistent)
    (hr : (s.branch? r).isSome) (queued : s.loader.Queued []) :
    ∃ p items t, s'.source.node? r = .ok (some p) ∧ s'.source.items? p .keyword = some (items, t) ∧
      (s'.list? r .keyword).isSome ∧
      ∀ i, i < items.length → .branch (.child r ⟨.keyword, i⟩) ∈ onward found := by
  obtain ⟨t, p, source, hp, explores, spreads, all⟩ := v.spreads h hr
  cases found with
  | none => cases all queued
  | some ids =>
    obtain ⟨listed, items, table, hi, eq, -⟩ := spreads
    refine ⟨p, items, table, hp, source ▸ hi, explores.listed listed, fun i inside => ?_⟩
    rw [onward, List.mem_reverse, eq]
    exact List.mem_map.2 ⟨i, List.mem_range.2 inside, rfl⟩

end Rounds

/-! ## What has been loaded -/

/-- The keywords of the node are in place, and so are those of all keywords below it. -/
inductive Whole (s : Session) : Route → Prop
  | node {r : Route} {p : Plain} {items : List Raw} {t : TableRef}
    (hp : s.source.node? r = .ok (some p)) (hi : s.source.items? p .keyword = some (items, t))
    (listed : (s.list? r .keyword).isSome)
    (below : ∀ i, i < items.length → Whole s (.child r ⟨.keyword, i⟩)) : Whole s r

theorem Whole.listed (w : s.Whole r) : (s.list? r .keyword).isSome := by
  cases w with
  | node hp hi listed below => exact listed

/-- Below a node that is whole there is no more to load, whatever files there are besides. -/
theorem Whole.reaches (w : s.Whole r) {lib : Source} (le : s.source.Within lib)
    {steps : List Segment} (keywords : ∀ step ∈ steps, step.branch = .keyword)
    (there : lib.Contains (r.append steps)) : s.Whole (r.append steps) := by
  induction steps generalizing r with
  | nil => exact w
  | cons step rest ih =>
    obtain ⟨c, hc⟩ := Source.Contains.of_append (r := .child r step) there
    obtain ⟨branch, i⟩ := step
    cases keywords ⟨branch, i⟩ (by simp)
    cases w with
    | node hp hi listed below =>
      rw [Source.node?_child_of (le.node? hp)] at hc
      obtain ⟨raw, t', record, -⟩ := Source.child?_eq_some.1 hc
      obtain ⟨items, hi', inside⟩ := Source.record?_eq_some.1 record
      cases (le.items? hi).symm.trans hi'
      exact ih (below i (List.getElem?_eq_some_iff.1 inside).1)
        (fun step hs => keywords step (by simp [hs])) there

/-- A node that is whole is loaded. -/
theorem Whole.isLoaded (w : s.Whole r) (h : s.Consistent) :
    ∃ n p, s.branch? r = some n ∧ s.source.node? r = .ok (some p) ∧ n.Follows s.source p ∧
      n.isLoaded = true := by
  obtain ⟨l, hl⟩ := Option.isSome_iff_exists.1 w.listed
  obtain ⟨n, p, -, -, hn, hl, hf, hp, -⟩ := h.list hl
  refine ⟨n, p, hn, hp, hf, ?_⟩
  cases n with
  | suite su => rfl
  | test t => exact Option.isSome_of_eq_some hl
  | keyword k => exact Option.isSome_of_eq_some hl
  | message m => rfl

/-- When the worklist has been worked off, everything on it is whole. -/
theorem preloadFrom_whole {disk : Disk Id} {dir : Path} {fuel : Nat} {pending : List NodeId}
    (h : s.Consistent) (queued : s.loader.Queued [])
    (registered : ∀ id ∈ pending, (s.node? id).isSome)
    (run : (preloadFrom disk dir fuel pending).run s = (.ok (), s')) :
    s'.Consistent ∧ s.Extends s' ∧ s.Retains s' ∧ s'.loader.Queued [] ∧
      (s.Served ∨ pending ≠ [] → s'.Served) ∧ ∀ r, .branch r ∈ pending → s'.Whole r := by
  have done : ∀ {t : Session}, t.Consistent → t.loader.Queued [] → t = s' →
      s'.Consistent ∧ t.Extends s' ∧ t.Retains s' ∧ s'.loader.Queued [] ∧
        (t.Served ∨ ([] : List NodeId) ≠ [] → s'.Served) ∧
        ∀ r, .branch r ∈ ([] : List NodeId) → s'.Whole r := by
    rintro t h queued rfl
    exact ⟨h, .refl t, Course.refl t, queued, fun idle => idle.resolve_right (by simp),
      fun r hr => (by cases hr)⟩
  induction fuel generalizing s pending with
  | zero =>
    cases pending with
    | nil => exact done h queued (congrArg Prod.snd run)
    | cons id pending => cases run
  | succ fuel ih =>
    cases pending with
    | nil => exact done h queued (congrArg Prod.snd run)
    | cons id pending =>
      rcases preloadFrom_visits disk dir s id pending with
        ⟨found, t, visits, later⟩ | ⟨e, t, failed, -⟩
      · obtain ⟨h₁, e₁, kept₁⟩ := visits.goes_on h
        obtain ⟨queued₁, idle₁⟩ := visits.settles h queued
        have known : ∀ id' ∈ onward found ++ pending, (t.node? id').isSome := by
          intro id' hid
          rcases List.mem_append.1 hid with new | old
          · exact visits.registers h (registered id (by simp)) id' new
          · exact e₁.isSome (registered id' (by simp [old]))
        rw [later] at run
        obtain ⟨h₂, e₂, kept₂, queued₂, idle₂, whole⟩ := ih h₁ queued₁ known run
        refine ⟨h₂, e₁.trans e₂, Course.trans kept₁ kept₂, queued₂, fun _ => idle₂ (.inl idle₁), ?_⟩
        intro r hr
        rcases List.mem_cons.1 hr with rfl | old
        · obtain ⟨p, items, t', hp, hi, listed, below⟩ :=
            visits.unfolds h (registered _ (by simp)) queued
          refine .node (e₂.source.node? hp) (e₂.source.items? hi) (kept₂ r .keyword listed) ?_
          exact fun i inside => whole _ (List.mem_append_left _ (below i inside))
        · exact whole r (List.mem_append_right _ old)
      · rw [failed] at run
        cases run

/-! ## Sessions in which every request was served -/

section Attended

variable {disk : Disk Id} {dir : Path}

/-- Working off a list keeps the requests in the queue, unless a file cannot be served. -/
theorem preloadFrom_queued {fuel : Nat} {pending : List NodeId}
    {result : Except BrowseError Unit} (h : s.Consistent) (queued : s.loader.Queued [])
    (run : (preloadFrom disk dir fuel pending).run s = (result, s'))
    (served : ∀ e, result ≠ .error (.splitFile dir e)) :
    s'.Consistent ∧ s'.loader.Queued [] := by
  induction fuel generalizing s pending with
  | zero => cases pending <;> cases run <;> exact ⟨h, queued⟩
  | succ fuel ih =>
    cases pending with
    | nil => cases run; exact ⟨h, queued⟩
    | cons id pending =>
      rcases preloadFrom_visits disk dir s id pending with
        ⟨found, t, visits, later⟩ | ⟨e, t, failed, why⟩
      · rw [later] at run
        exact ih (visits.goes_on h).1 (visits.settles h queued).1 run
      · rw [failed] at run
        cases run
        rcases why with ⟨cause, rfl⟩ | ⟨cause, k, u, -, listed, pumped⟩
        · exact absurd rfl (served cause)
        · obtain ⟨h₁, demands⟩ := tame_whenReady (R := Demands []) id .nothing s h
          obtain ⟨queued', -⟩ := pumpFiles_settles h₁ (demands queued) pumped
          have h₂ := (proceeds_pumpFiles (readSplit disk dir) _ h₁).1
          rw [pumped] at h₂
          have along := keeps_children id u h₂
          rw [listed] at along
          exact ⟨along.1, along.2.loader ▸ queued'⟩

/-- Sessions in which no request was taken from the queue and not served: a report that has been
opened, and whatever is asked of it, in steps, by pumping, by reading paths and by loading keywords,
as long as none of these comes upon a file that cannot be served. -/
inductive Attended : Session → Prop
  | opened {text : String} {s : Session} (opened : open? text = .ok s) : Attended s
  | step {s : Session} (files : Files) {st : Step} (before : Attended s)
    (kept : st.keepsReport = true) (leaves : st.takes = false) : Attended ((step files st).run s).2
  | pumped {s s' : Session} {files : Files} {k : Nat} (before : Attended s)
    (run : (pumpFiles files).run s = (.ok k, s')) : Attended s'
  | browsed {s s' : Session} {disk : Disk Id} {dir : Path} {path : String}
    {result : Except BrowseError (List NodeId)} (before : Attended s)
    (run : (browse disk dir path).run s = (result, s'))
    (served : ∀ e, result ≠ .error (.splitFile dir e)) : Attended s'
  | preloaded {s s' : Session} {disk : Disk Id} {dir : Path} {fuel : Nat} {pending : List NodeId}
    {result : Except BrowseError Unit} (before : Attended s)
    (run : (preloadFrom disk dir fuel pending).run s = (result, s'))
    (served : ∀ e, result ≠ .error (.splitFile dir e)) : Attended s'

theorem Attended.queued (a : s.Attended) : s.Consistent ∧ s.loader.Queued [] := by
  induction a with
  | opened opened => exact ⟨consistent_open opened, (fresh_open opened).1 ▸ Loader.queued_empty⟩
  | step files before kept leaves ih =>
    obtain ⟨h, queued⟩ := ih
    have along := follows_step (R := Demands []) files kept (roams_promise files)
      (fun takes => by rw [leaves] at takes; cases takes)
      (fun takes => by rw [leaves] at takes; cases takes) _ h
    exact ⟨along.1, along.2 queued⟩
  | @pumped s s' files k before run ih =>
    have along := proceeds_pumpFiles files s ih.1
    rw [run] at along
    exact ⟨along.1, (pumpFiles_settles ih.1 ih.2 run).1⟩
  | @browsed s s' disk dir path result before run served ih =>
    obtain ⟨h, queued⟩ := ih
    have whole := browse_run disk dir path s
    rw [run] at whole
    obtain ⟨h₁, demands⟩ := roams_resolveFuture (R := Demands []) path s h
    rcases resolved : (resolveFuture path).run s with ⟨e | n, t⟩ <;>
      rw [resolved] at whole h₁ demands
    · cases whole
      exact ⟨h₁, demands queued⟩
    · simp only at whole
      rcases pumped : (pumpFiles (readSplit disk dir)).run t with ⟨e | k, u⟩ <;>
        rw [pumped] at whole
      · cases whole
        exact absurd rfl (served e)
      · cases whole
        have along := proceeds_pumpFiles (readSplit disk dir) t h₁
        rw [pumped] at along
        exact ⟨along.1, (pumpFiles_settles h₁ (demands queued) pumped).1⟩
  | preloaded before run served ih => exact preloadFrom_queued ih.1 ih.2 run served

end Attended

/-- Whether the keyword of the sample is registered, and can be loaded in five rounds with the one
in its file. -/
def sampleLoads (s : Session) : Bool :=
  (s.node? (.branch (.child .root ⟨.keyword, 0⟩))).isSome &&
    let loaded := (preloadFrom sampleTree.disk ⟨"."⟩ 5 [.branch (.child .root ⟨.keyword, 0⟩)]).run s
    loaded.1.toBool && (loaded.2.branch? deepRoute).isSome

/-- The keyword of the sample and the one in its file are loaded in five rounds. -/
theorem sample_loads : ∃ s s' : Session, s.Attended ∧
    (s.node? (.branch (.child .root ⟨.keyword, 0⟩))).isSome ∧
    (preloadFrom sampleTree.disk ⟨"."⟩ 5 [.branch (.child .root ⟨.keyword, 0⟩)]).run s =
      (.ok (), s') ∧
    (s'.branch? deepRoute).isSome := by
  have opens : opensTo (fun s₀ =>
      ((browse sampleTree.disk ⟨"."⟩ "s1-k1").run s₀).1.toBool && sampleLoads
        ((browse sampleTree.disk ⟨"."⟩ "s1-k1").run s₀).2) sampleReport = true := by
    decide +kernel
  obtain ⟨s₀, opened, checked⟩ := opensTo_iff.1 opens
  rcases read : (browse sampleTree.disk ⟨"."⟩ "s1-k1").run s₀ with ⟨e | ids, s⟩
  · rw [read] at checked
    cases checked
  · rw [read] at checked
    have attended : s.Attended := .browsed (.opened opened) read fun e he => by cases he
    have loads : sampleLoads s = true := checked
    simp only [sampleLoads, Bool.and_eq_true] at loads
    obtain ⟨registered, ends, deep⟩ := loads
    rcases loaded : (preloadFrom sampleTree.disk ⟨"."⟩ 5
      [.branch (.child .root ⟨.keyword, 0⟩)]).run s with ⟨e | done, s'⟩
    · rw [loaded] at ends
      cases ends
    · rw [loaded] at deep
      exact ⟨s, s', attended, registered, loaded, deep⟩

end RunReport.Session
