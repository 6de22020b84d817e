import RunReport.Proofs.Circularity
import RunReport.Proofs.Directories
import RunReport.Proofs.Preloading
/-!
# Whether loading keywords ends

A report with every file of a directory is the same report after some of the files have been served.
The keywords below a node are those that it has there. So working off a list of nodes ends when no
split file stands below itself, and cannot succeed otherwise.
-/

namespace RunReport.Session

open Effects

variable {s s' : Session} {files : Files} {id : NodeId} {r : Route}

/-! ## Everything that can be read -/

/-- The content of a split file that can be read. -/
def readable? (files : Files) (file : String) : Option SplitPayload :=
  match files file with
  | .ok text => (SplitPayload.read text).toOption
  | .error _ => none

/-- The report with the files it has and with those that can be read. -/
def library (files : Files) (s : Session) : Source :=
  { s.source with files := fun file => (s.source.files file).or (readable? files file) }

theorem within_library (files : Files) (s : Session) : s.source.Within (s.library files) :=
  ⟨rfl, rfl, rfl, fun file p hp => by simp only [library, hp, Option.some_or]⟩

theorem library_of_source (h : s'.source = s.source) : s'.library files = s.library files := by
  simp only [library, h]

theorem library_announce (h : s.Consistent) {file text : String} {payload : SplitPayload}
    (read : files file = .ok text) (decoded : SplitPayload.read text = .ok payload) :
    ((announce file payload).run s).2.library files = s.library files := by
  obtain ⟨s', run, -, extension, arrived, -⟩ := announce_fates h file payload
  rw [run]
  simp only [library, extension.source.coding, extension.source.suite, extension.source.strings]
  congr 1
  funext name
  rw [arrived, Option.or_assoc]
  by_cases here : name = file
  · simp [here, readable?, read, decoded, Except.toOption]
  · rw [if_neg here, Option.none_or]

theorem Feeds.library {n : Nat} (fed : Feeds files n s s') (h : s.Consistent) :
    s'.library files = s.library files := by
  induction fed with
  | nothing s => rfl
  | @file n s s' name text loader payload popped read decoded rest ih =>
    have taken := (consistent_pop h).1
    obtain ⟨queue, eq⟩ := pop_frame s.loader
    rw [popped] at taken eq
    cases eq
    rw [ih (proceeds_announce name payload _ taken).1, library_announce taken read decoded]
    rfl

theorem whenReady_source (s : Session) (id : NodeId) :
    ((whenReady id .nothing).run s).2.source = s.source := by
  obtain ⟨ready, t, fired, asked, run, -⟩ := @whenReady_asked s id .nothing (by simp)
  rw [run]
  change t.source = s.source
  cases asked with
  | found => rfl
  | installed hn hf hp => rfl
  | waits missing => exact source_park _ _

theorem library_pumped (h : s.Consistent) {k : Nat} {t : Session}
    (pumped : (pumpFiles files).run ((whenReady id .nothing).run s).2 = (.ok k, t)) :
    t.Consistent ∧ s.Extends t ∧ t.library files = s.library files := by
  obtain ⟨h₁, e₁⟩ := proceeds_whenReady id .nothing s h
  have along := proceeds_pumpFiles files _ h₁
  have fed := pumpFiles_feeds h₁ files
  rw [pumped] at along fed
  refine ⟨along.1, e₁.trans along.2, ?_⟩
  rw [fed.1.library h₁, library_of_source (whenReady_source s id)]

theorem Visits.library {found : Option (List NodeId)} (v : Visits files id s found s')
    (h : s.Consistent) : s'.library files = s.library files := by
  obtain ⟨k, t, pumped, listed⟩ := v
  obtain ⟨h₁, -, lib⟩ := library_pumped h pumped
  have e := (keeps_children id t h₁).2.source
  rw [listed] at e
  rw [library_of_source e, lib]

/-! ## Ends -/

section Ends

variable {disk : Disk Id} {dir : Path} {pending : List NodeId} {lib : Source}

/-- Working off the list ends, with a result that more rounds would not change. -/
def Finishes (disk : Disk Id) (dir : Path) (pending : List NodeId) (s : Session) : Prop :=
  ∃ n result s', (∀ id, result ≠ .error (.endless id)) ∧
    ∀ fuel, n ≤ fuel → (preloadFrom disk dir fuel pending).run s = (result, s')

theorem finishes_nil (s : Session) : Finishes disk dir [] s :=
  ⟨0, .ok (), s, fun _ h => (by cases h), fun fuel _ => by cases fuel <;> rfl⟩

/-- Working off the list ends if it does after the first node. -/
theorem finishes_cons (later : ∀ found t, Visits (readSplit disk dir) id s found t →
    Finishes disk dir (onward found ++ pending) t) : Finishes disk dir (id :: pending) s := by
  rcases preloadFrom_visits disk dir s id pending with
    ⟨found, t, visits, run⟩ | ⟨e, t, failed, why⟩
  · obtain ⟨n, result, s', ends, same⟩ := later found t visits
    refine ⟨n + 1, result, s', ends, fun fuel enough => ?_⟩
    obtain ⟨fuel, rfl⟩ : ∃ less, fuel = less + 1 := ⟨fuel - 1, by omega⟩
    rw [run, same fuel (by omega)]
  · refine ⟨1, .error e, t, fun id h => ?_, fun fuel enough => ?_⟩
    · rcases why with ⟨cause, rfl⟩ | ⟨cause, k, u, rfl, -⟩ <;> cases h
    · obtain ⟨fuel, rfl⟩ : ∃ less, fuel = less + 1 := ⟨fuel - 1, by omega⟩
      exact failed fuel

/-- A node can stand on any list: working it off ends if it does without the node. -/
def Ends (disk : Disk Id) (dir : Path) (lib : Source) (id : NodeId) : Prop :=
  ∀ (s : Session) (pending : List NodeId), s.Consistent → s.library (readSplit disk dir) = lib →
    (s.node? id).isSome →
    (∀ t : Session, t.Consistent → s.Extends t → t.library (readSplit disk dir) = lib →
      Finishes disk dir pending t) →
    Finishes disk dir (id :: pending) s

theorem finishes_append {ids : List NodeId} (each : ∀ id ∈ ids, Ends disk dir lib id)
    (h : s.Consistent) (hlib : s.library (readSplit disk dir) = lib)
    (registered : ∀ id ∈ ids, (s.node? id).isSome)
    (rest : ∀ t : Session, t.Consistent → s.Extends t → t.library (readSplit disk dir) = lib →
      Finishes disk dir pending t) : Finishes disk dir (ids ++ pending) s := by
  induction ids generalizing s with
  | nil => exact rest s h (.refl s) hlib
  | cons id ids ih =>
    refine each id (by simp) s (ids ++ pending) h hlib (registered id (by simp)) fun t ht e hlib' => ?_
    refine ih (fun id' mem => each id' (by simp [mem])) ht hlib' (fun id' mem => ?_)
      fun u hu e' => rest u hu (e.trans e')
    exact e.isSome (registered id' (by simp [mem]))

/-- A node ends if all that is found below it does. -/
theorem ends_of_onward (below : ∀ s found t, s.Consistent → s.library (readSplit disk dir) = lib →
    (s.node? id).isSome → Visits (readSplit disk dir) id s found t →
    ∀ id' ∈ onward found, Ends disk dir lib id') : Ends disk dir lib id := by
  intro s pending h hlib registered rest
  refine finishes_cons fun found t visits => ?_
  obtain ⟨ht, e, -⟩ := visits.goes_on h
  have hlib' := (visits.library h).trans hlib
  exact finishes_append (below s found t h hlib registered visits) ht hlib'
    (visits.registers h registered) fun u hu e' => rest u hu (e.trans e')

theorem ends_of_acc {p : Plain} (acc : Acc lib.KeywordOf p) (hp : lib.node? r = .ok (some p)) :
    Ends disk dir lib (.branch r) := by
  induction acc generalizing r with
  | intro p acc ih =>
    refine ends_of_onward fun s found t h hlib registered visits id' mem => ?_
    have le : t.source.Within lib := by
      rw [← hlib, ← visits.library h]
      exact within_library _ t
    obtain ⟨u, q, source, hq, explores, spreads, -⟩ := visits.spreads h registered
    cases hp.symm.trans (le.node? hq)
    cases found with
    | none => cases mem
    | some ids =>
      obtain ⟨-, items, table, hi, eq, known⟩ := spreads
      rw [onward, List.mem_reverse] at mem
      obtain ⟨n, hn⟩ := Option.isSome_iff_exists.1 (known id' mem)
      rw [eq] at mem
      obtain ⟨i, -, rfl⟩ := List.mem_map.1 mem
      obtain ⟨c, hc, -⟩ := (visits.goes_on h).1.follows _ n hn
      have there := le.node? hc
      rw [Source.node?_child_of hp] at there
      exact ih c ⟨i, there⟩ (le.node? hc)

theorem ends_message (number : Nat) : Ends disk dir lib (.message number) := by
  refine ends_of_onward fun s found t h _ _ visits id' mem => ?_
  obtain ⟨k, u, -, listed⟩ := visits
  simp only [children, run_bind, run_get] at listed
  cases listed
  cases mem

/-! ## Never ends well -/

/-- Below a node that is whole there is an end. -/
theorem Whole.acc {p : Plain} (w : s.Whole r) (le : s.source.Within lib)
    (hp : lib.node? r = .ok (some p)) : Acc lib.KeywordOf p := by
  induction w generalizing p with
  | node own hi listed below ih =>
    cases hp.symm.trans (le.node? own)
    refine .intro _ fun c isChild => ?_
    obtain ⟨i, hc⟩ := isChild
    obtain ⟨raw, table, record, -⟩ := Source.child?_eq_some.1 hc
    obtain ⟨items, hi', inside⟩ := Source.record?_eq_some.1 record
    cases (le.items? hi).symm.trans hi'
    exact ih i (List.getElem?_eq_some_iff.1 inside).1 ((Source.node?_child_of hp).trans hc)

theorem preloadFrom_library {fuel : Nat} {pending : List NodeId} (h : s.Consistent)
    (run : (preloadFrom disk dir fuel pending).run s = (.ok (), s')) :
    s'.library (readSplit disk dir) = s.library (readSplit disk dir) := by
  induction fuel generalizing s pending with
  | zero =>
    cases pending with
    | nil => cases run; rfl
    | cons id pending => cases run
  | succ fuel ih =>
    cases pending with
    | nil => cases run; rfl
    | cons id pending =>
      rcases preloadFrom_visits disk dir s id pending with
        ⟨found, t, visits, later⟩ | ⟨e, t, failed, -⟩
      · rw [later] at run
        rw [ih (visits.goes_on h).1 run, visits.library h]
      · rw [failed] at run
        cases run

/-- With all the files that can be read, a split file stands below itself somewhere below the node. -/
def Circles (files : Files) (s : Session) (id : NodeId) : Prop :=
  ∃ r p, id = .branch r ∧ (s.library files).node? r = .ok (some p) ∧ (s.library files).Circular p

/-- The files that a node can name are those that are loaded and those with a number. -/
theorem library_named {names : List String}
    (finite : ∀ index text, files (s.coding.splitFileName index) = .ok text →
      s.coding.splitFileName index ∈ names) {p q : Plain} {file : String}
    (hp : (s.library files).node? r = .ok (some p))
    (reach : Relation.ReflTransGen (s.library files).KeywordOf q p)
    (split : q.splitFile? = some file) (there : ((s.library files).files file).isSome) :
    file ∈ s.loader.names ++ names := by
  have numbered : ∃ index, file = s.coding.splitFileName index := by
    rcases reach.cases_head with rfl | ⟨m, ⟨i, below⟩, -⟩
    · exact Source.node?_splitFile hp split
    · exact Source.child?_splitFile below split
  rw [List.mem_append]
  cases loaded : s.loader.payload? file with
  | some payload => exact .inl (Loader.mem_names (Loader.state?_ne_none loaded))
  | none =>
    have readable : (readable? files file).isSome := by
      have same : (s.library files).files file =
          (s.loader.payload? file).or (readable? files file) := rfl
      rwa [same, loaded, Option.none_or] at there
    obtain ⟨index, rfl⟩ := numbered
    cases read : files (s.coding.splitFileName index) with
    | error e => simp [readable?, read] at readable
    | ok text => exact .inr (finite index text read)

/-- Whether loading the keywords below a node ends, when finitely many split files can be read. It
does unless a split file stands below itself: however many rounds it is given from some number on, the
result is the same. Otherwise it never succeeds, however many rounds it is given. -/
theorem preload_ends_unless_circular (attended : s.Attended) (disk : Disk Id) (dir : Path)
    {names : List String}
    (finite : ∀ index text, readSplit disk dir (s.coding.splitFileName index) = .ok text →
      s.coding.splitFileName index ∈ names)
    (registered : (s.node? id).isSome) :
    (¬ s.Circles (readSplit disk dir) id → ∃ n result s', (∀ id', result ≠ .error (.endless id')) ∧
      ∀ fuel, n ≤ fuel → (preloadFrom disk dir fuel [id]).run s = (result, s')) ∧
    (s.Circles (readSplit disk dir) id → ∀ fuel s',
      (preloadFrom disk dir fuel [id]).run s ≠ (.ok (), s')) := by
  obtain ⟨h, queued⟩ := attended.queued
  constructor
  · intro straight
    have ends : Ends disk dir (s.library (readSplit disk dir)) id := by
      cases id with
      | message number => exact ends_message number
      | branch r =>
        obtain ⟨n, hn⟩ := Option.isSome_iff_exists.1 registered
        obtain ⟨p, hp, -⟩ := h.follows r n hn
        have hp' := (within_library (readSplit disk dir) s).node? hp
        refine ends_of_acc (Source.acc_of_files (fun circular => ?_) fun q file reach split there =>
          library_named finite hp' reach split there) hp'
        exact straight ⟨r, p, rfl, hp', circular⟩
    exact ends s [] h rfl registered fun t _ _ _ => finishes_nil t
  · rintro ⟨r, p, rfl, hp, circular⟩ fuel s' run
    have known : ∀ id' ∈ [NodeId.branch r], (s.node? id').isSome := fun id' mem =>
      List.mem_singleton.1 mem ▸ registered
    obtain ⟨-, -, -, -, -, whole⟩ := preloadFrom_whole h queued known run
    have le : s'.source.Within (s.library (readSplit disk dir)) :=
      preloadFrom_library h run ▸ within_library (readSplit disk dir) s'
    exact circular.not_acc ((whole r (by simp)).acc le hp)

/-- The keyword of the sample is loaded in five rounds, so no file is below itself, and with more
rounds loading ends as well. -/
theorem preload_ends_unless_circular_sample : ∃ s : Session, s.Attended ∧
    (s.node? (.branch (.child .root ⟨.keyword, 0⟩))).isSome ∧
    ¬ s.Circles (readSplit sampleTree.disk ⟨"."⟩) (.branch (.child .root ⟨.keyword, 0⟩)) ∧
    ∃ n result s', (∀ id', result ≠ .error (.endless id')) ∧ ∀ fuel, n ≤ fuel →
      (preloadFrom sampleTree.disk ⟨"."⟩ fuel [.branch (.child .root ⟨.keyword, 0⟩)]).run s =
        (result, s') := by
  obtain ⟨s, s', attended, registered, loaded, -⟩ := sample_loads
  obtain ⟨names, finite⟩ := splitFiles_finite sampleTree ⟨"."⟩ s.coding
  obtain ⟨ends, never⟩ :=
    preload_ends_unless_circular attended sampleTree.disk ⟨"."⟩ finite registered
  have straight : ¬ s.Circles (readSplit sampleTree.disk ⟨"."⟩)
      (.branch (.child .root ⟨.keyword, 0⟩)) := fun circles => never circles 5 s' loaded
  exact ⟨s, attended, registered, straight, ends straight⟩

end Ends

/-! ## A file that refers to itself -/

/-- Asking for the keywords of a node asks for its file at most. -/
theorem whenReady_loader {n : Node} (hn : s.branch? r = some n) :
    ((whenReady (.branch r) .nothing).run s).2.loader =
      match n.missingFile? with
      | none => s.loader
      | some file => (s.loader.ensure file (.children r .nothing)).2 := by
  cases hm : n.missingFile? with
  | none =>
    simp only [whenReady, state_bind, ready_run_loaded hn hm]
    rfl
  | some file =>
    cases there : s.loader.payload? file with
    | none =>
      simp only [whenReady, state_bind, ready_run_absent hn hm there]
      rfl
    | some payload =>
      simp only [whenReady, state_bind, ready_run_arrived hn hm there]
      rw [Loader.ensure_loaded there]
      rfl

/-- A single file is served if it can be read. -/
theorem pump_serves (h : s.Consistent) (served : s.Served) {n : Node} (hn : s.branch? r = some n)
    {file : String} (split : n.splitFile? = some file)
    (there : ((s.library files).files file).isSome) :
    ∃ k t, (pumpFiles files).run ((whenReady (.branch r) .nothing).run s).2 = (.ok k, t) := by
  have h₁ := (proceeds_whenReady (.branch r) .nothing s h).1
  have loader := whenReady_loader hn
  have fed := pumpFiles_feeds h₁ files
  generalize ((whenReady (.branch r) .nothing).run s).2 = s₁ at h₁ loader fed
  rcases run : (pumpFiles files).run s₁ with ⟨e | k, t⟩
  · exfalso
    rw [run] at fed
    obtain ⟨k, u, fed, less, name, rest, popped, -, cannot⟩ := fed
    have idle : s.loader.bound = 0 := by
      simp [Loader.bound, served.queue, served.parked, stepsOf]
    rw [requestBound_eq, loader] at less
    cases hm : n.missingFile? with
    | none =>
      rw [hm] at less
      simp only at less
      omega
    | some file' =>
      cases (Node.missingFile?_eq_some.1 hm).2.symm.trans split
      have asked : s₁.loader = (s.loader.ensure file (.children r .nothing)).2 := by
        rw [loader, hm]
      have bound := Loader.bound_ensure s.loader file (.children r .nothing)
      rw [← loader, asked] at less
      simp only [stepsLeft] at bound
      obtain rfl : k = 0 := by omega
      cases fed
      have queue := Loader.queue_ensure s.loader file (.children r .nothing)
      rw [← asked, served.queue, List.nil_append] at queue
      cases known : s.loader.state? file with
      | some state => simp [Loader.pop, queue, known] at popped
      | none =>
        simp only [Loader.pop, queue, known] at popped
        cases popped
        have readable : (readable? files file).isSome := by
          have same : (s.library files).files file =
              (s.loader.payload? file).or (readable? files file) := rfl
          rwa [same, Loader.payload?_of_unknown known, Option.none_or] at there
        rcases cannot with unreadable | ⟨text, read, garbled⟩
        · simp [readable?, unreadable] at readable
        · simp [readable?, read, garbled, Except.toOption] at readable
  · exact ⟨k, t, rfl⟩

/-- A list without records has no children. -/
theorem childList_empty (h : s.Consistent) {kind : NodeKind} {l : ChildList}
    (hl : s.list? r kind = some l) (empty : l.made.length = 0) :
    ∃ s', (childList r kind).run s = (.ok [], s') := by
  have none : ((gathered r kind).run s).1 = .ok [] := by
    rw [gathered, Place.gather_run, view_made (list?_measure hl),
      show l.made.measure.length = l.made.length from rfl, empty]
    rfl
  obtain ⟨t, run, -⟩ := childList_gathers h r kind
  exact ⟨t, by rw [run, none]⟩

/-- All keywords of a keyword without messages are found if they can be read. -/
theorem children_found (h : s.Consistent) {record : KeywordRecord} {path : String} {t : TableRef}
    (hr : (s.branch? r).isSome) (hp : s.source.node? r = .ok (some (.keyword record path t)))
    (listed : (s.list? r .keyword).isSome) (silent : record.messages = []) {items : List Raw}
    {table : TableRef} (hi : s.source.keywordItems? t record.keywords = some (items, table))
    (readable : ∀ i ∈ List.range items.length, ∃ c,
      s.source.child? (.keyword record path t) ⟨.keyword, i⟩ = .ok (some c)) :
    ∃ s', (children (.branch r)).run s =
      (.ok (some (childIds r .keyword (List.range items.length))), s') := by
  obtain ⟨n, hn⟩ := Option.isSome_iff_exists.1 hr
  obtain ⟨q, hq, hf⟩ := h.follows r n hn
  cases hp.symm.trans hq
  have plain := hf.plain
  have hn' : s.node? (.branch r) = some n := hn
  obtain ⟨l, hl⟩ := Option.isSome_iff_exists.1 listed
  obtain ⟨s₁, result, run, lists⟩ := childList_lists (b := .keyword) h hp hi listed
  obtain ⟨ids, rfl⟩ := lists.found readable
  obtain ⟨rfl, -⟩ := lists.all ids rfl
  cases n with
  | suite su => cases plain
  | test test => cases plain
  | message m => cases plain
  | keyword k =>
    have messages : (s₁.list? r .message).isSome :=
      lists.explores.listed (by rw [list?_of_branch s hn]; rfl)
    obtain ⟨l', hl'⟩ := Option.isSome_iff_exists.1 messages
    obtain ⟨-, q', none, table', -, -, -, hq', hi', reads⟩ := lists.consistent.list hl'
    rw [lists.explores.source] at hq' hi'
    cases hp.symm.trans hq'
    simp only [Source.items?, silent] at hi'
    cases hi'
    obtain ⟨s₂, run₂⟩ := childList_empty lists.consistent hl' reads.length
    refine ⟨s₂, ?_⟩
    have keywords : (childList r .keyword).run s =
        (.ok (childIds r .keyword (List.range items.length)), s₁) := run
    have typed : (typedList (.branch r) .keyword).run s =
        (.ok (some (childIds r .keyword (List.range items.length))), s₁) := by
      simp only [typedList, run_bind, run_get, hl, keywords]
      rfl
    simp only [children, run_bind, run_get, hn', typed, run₂, List.append_nil]
    rfl

section Endless

variable {disk : Disk Id} {dir : Path} {lib : Source} {file : String} {p : Plain}

/-- Below a keyword that leads to a file that repeats itself there is one more. -/
theorem visits_again (h : s.Consistent) (queued : s.loader.Queued []) (served : s.Served)
    (again : (s.library files).repeats file = true) (hr : (s.branch? r).isSome)
    (hp : (s.library files).node? r = .ok (some p)) (leads : p.leadsTo file = true) :
    ∃ c t, Visits files (.branch r) s (some [.branch (.child r ⟨.keyword, 0⟩)]) t ∧
      (s.library files).node? (.child r ⟨.keyword, 0⟩) = .ok (some c) ∧ c.leadsTo file = true := by
  obtain ⟨n, hn⟩ := Option.isSome_iff_exists.1 hr
  obtain ⟨q, hq, hf⟩ := h.follows r n hn
  cases hp.symm.trans ((within_library files s).node? hq)
  have split : p.splitFile? = some file := Plain.splitFile?_of_leadsTo leads
  obtain ⟨k, t, pumped⟩ :=
    pump_serves h served hn (hf.splitFile.trans split) (Source.isSome_of_repeats again)
  obtain ⟨ht, e, lib⟩ := library_pumped h pumped
  have le : t.source.Within (s.library files) := lib ▸ within_library files t
  have own : t.source.node? r = .ok (some p) := e.source.node? hq
  have listed := listed_of_served h hr queued pumped
  have there : (t.source.files file).isSome := by
    obtain ⟨l, hl⟩ := Option.isSome_iff_exists.1 listed
    obtain ⟨-, q, items, table, -, -, -, hq', hi, -⟩ := ht.list hl
    cases own.symm.trans hq'
    rw [t.source.items?_split split] at hi
    obtain ⟨payload, here, -⟩ := Option.map_eq_some_iff.1 hi
    rw [here]
    rfl
  obtain ⟨raw, c, hi, hc, leads'⟩ := Source.child?_of_repeats (le.repeats there again) leads
  have hc' : t.source.node? (.child r ⟨.keyword, 0⟩) = .ok (some c) := by
    rw [Source.node?_child_of own, hc]
  obtain ⟨record, path, table, rfl, -, silent⟩ := Plain.leadsTo_iff.1 leads
  obtain ⟨u, found⟩ := children_found ht (e.isSome hr) own listed silent hi fun i inside => by
    obtain rfl : i = 0 := by simpa using inside
    exact ⟨c, hc⟩
  exact ⟨c, u, ⟨k, t, pumped, found⟩, le.node? hc', leads'⟩

/-- However many rounds are given, they do not suffice for a keyword that leads to a file that
repeats itself. -/
theorem endless_of_repeats (h : s.Consistent) (queued : s.loader.Queued []) (served : s.Served)
    (again : (s.library (readSplit disk dir)).repeats file = true) (hr : (s.branch? r).isSome)
    (hp : (s.library (readSplit disk dir)).node? r = .ok (some p)) (leads : p.leadsTo file = true)
    (fuel : Nat) :
    ∃ id s', (preloadFrom disk dir fuel [.branch r]).run s = (.error (.endless id), s') := by
  induction fuel generalizing s r p with
  | zero => exact ⟨_, _, rfl⟩
  | succ fuel ih =>
    obtain ⟨c, t, visits, hc, leads'⟩ := visits_again h queued served again hr hp leads
    obtain ⟨queued', served'⟩ := visits.settles h queued
    have lib := visits.library h
    have known := visits.registers h hr (.branch (.child r ⟨.keyword, 0⟩)) (by simp [onward, isKeyword])
    rw [visits.round]
    exact ih (visits.goes_on h).1 queued' served' (lib ▸ again) known (lib ▸ hc) leads'

/-- A split file with one keyword, whose own keywords are in the same file. -/
def selfText : String :=
  "\x7b\"keywords\":[[0,0,0,0,0,[1,0,1],1,[]]],\"strings\":[\"*deep\"]\x7d"

/-- A directory with that split file. -/
def selfTree : FileTree :=
  .ofFiles [] [(⟨"log-1.json"⟩, some selfText)]

/-- Whether nothing is asked for, and the keyword of the sample leads to the file that repeats itself. -/
def sampleRepeats (s : Session) : Bool :=
  let lib := s.library (readSplit selfTree.disk ⟨"."⟩)
  s.loader.queue.isEmpty && s.loader.parked.isEmpty && s.loader.pendingFiles.isEmpty &&
    (s.branch? (.child .root ⟨.keyword, 0⟩)).isSome && lib.repeats "log-1.json" &&
    match lib.node? (.child .root ⟨.keyword, 0⟩) with
    | .ok (some p) => p.leadsTo "log-1.json"
    | _ => false

/-- The keyword of the sample, found in a directory with that file, cannot be loaded: whatever the
number of rounds, there are more keywords. -/
theorem preload_never_ends : ∃ s₀ s : Session, open? sampleReport = .ok s₀ ∧
    ((browse selfTree.disk ⟨"."⟩ "s1-k1").run s₀).2 = s ∧ s.Attended ∧
    (s.node? (.branch (.child .root ⟨.keyword, 0⟩))).isSome ∧
    ∀ fuel, ∃ id s', (preloadFrom selfTree.disk ⟨"."⟩ fuel
      [.branch (.child .root ⟨.keyword, 0⟩)]).run s = (.error (.endless id), s') := by
  have opens : opensTo (fun s₀ =>
      ((browse selfTree.disk ⟨"."⟩ "s1-k1").run s₀).1.toBool && sampleRepeats
        ((browse selfTree.disk ⟨"."⟩ "s1-k1").run s₀).2) sampleReport = true := by
    decide +kernel
  obtain ⟨s₀, opened, checked⟩ := opensTo_iff.1 opens
  rcases read : (browse selfTree.disk ⟨"."⟩ "s1-k1").run s₀ with ⟨e | ids, s⟩
  · rw [read] at checked
    cases checked
  · rw [read] at checked
    have attended : s.Attended := .browsed (.opened opened) read fun e he => by cases he
    obtain ⟨h, queued⟩ := attended.queued
    have circles : sampleRepeats s = true := checked
    simp only [sampleRepeats, Bool.and_eq_true, List.isEmpty_iff] at circles
    obtain ⟨⟨⟨⟨⟨queue, parked⟩, pendingFiles⟩, registered⟩, again⟩, leads⟩ := circles
    split at leads
    next p hp =>
      refine ⟨s₀, s, opened, by rw [read], attended, registered, fun fuel => ?_⟩
      exact endless_of_repeats h queued ⟨queue, parked, pendingFiles⟩ again registered hp leads fuel
    next => cases leads

end Endless

end RunReport.Session
