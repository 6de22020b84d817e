import RunReport.Proofs.Likeness
import RunReport.Proofs.Teardown
/-!
# Splitting is transparent

A report may keep the keywords of a test or keyword in its record or in a split file with a string
table of its own. Once the file has been loaded, in whichever way, a session shows the same in both
cases: the file that is named at the node apart, and the numbers that messages get.
-/

namespace RunReport

namespace Facts

/-- What is shown of a node, the name of its split file apart. -/
def bare : Facts → Facts
  | .suite f => .suite { f with record := f.record.bare }
  | .test f => .test { f with record := f.record.bare, splitFile := none }
  | .keyword f => .keyword { f with record := f.record.bare, splitFile := none }

def splitFile? : Facts → Option String
  | .suite _ => none
  | .test f => f.splitFile
  | .keyword f => f.splitFile

end Facts

namespace Source

/-- The message of a keyword at a place. -/
def loggedAt (src : Source) (r : Route) (p : Plain) (i : Nat) : Except Error (Option Message) :=
  match src.items? p .message with
  | none => .ok none
  | some (items, t) =>
    match items[i]? with
    | none => .ok none
    | some raw =>
      (src.readIn t (src.coding.message raw)).map fun record => some ⟨record, some r⟩

variable {src src' : Source}

theorem Within.loggedAt (h : src.Within src') {p : Plain} (has : src.Has p.table) (r : Route)
    (i : Nat) : src'.loggedAt r p i = src.loggedAt r p i := by
  cases p with
  | keyword a path t => simp only [Source.loggedAt, Source.items?, h.coding, h.readIn (t := t) has]
  | suite => rfl
  | test => rfl

end Source

/-! ## What alike reports say of a node -/

variable {lib lib' : Source} {moved : Route → Prop} {r : Route} {p p' : Plain}

theorem SameText.slotText {t t' : TableRef} {u v : Option Raw}
    (h : SameText (lib.entries t) (lib'.entries t') u v) :
    lib.slotText t u = lib'.slotText t' v :=
  (Lookup.concur_bind h.lookup fun _ _ same => Lookup.concur_pure (congrArg _ same)).read.eq

theorem BodyLike.fileOf? {t t' : TableRef} {k k' : KeywordSource}
    (h : BodyLike lib lib' moved r t t' k k') : moved r ∨ Plain.fileOf? k = Plain.fileOf? k' := by
  cases k <;> cases k'
  · exact .inr rfl
  · exact .inl h.1
  · exact h.elim
  · exact .inr (congrArg some h)

namespace PlainLike

theorem facts (splits : lib.Splits lib' moved) (h : PlainLike lib lib' moved r p p') :
    (lib.facts r p).bare = (lib'.facts r p').bare := by
  have teardown := splits.teardownFailure h
  cases p with
  | suite a name failed t =>
    cases p' with
    | suite a' name' failed' t' =>
      obtain ⟨like, rfl, rfl⟩ := h
      have status : a.status = a'.status := (congrArg SuiteRecord.status like.bare :)
      simp only [Source.facts, Facts.bare, Source.message, Plain.status, teardown, like.bare,
        like.doc.slotText, like.message.slotText, status, like.suites.length_eq,
        like.tests.length_eq, like.keywords.length_eq]
    | _ => exact h.elim
  | test a name failed t =>
    cases p' with
    | test a' name' failed' t' =>
      obtain ⟨like, rfl, rfl⟩ := h
      have status : a.status = a'.status := (congrArg TestRecord.status like.bare :)
      simp only [Source.facts, Facts.bare, Source.message, Plain.status, like.bare,
        like.doc.slotText, like.message.slotText, status]
    | _ => exact h.elim
  | keyword a path t =>
    cases p' with
    | keyword a' path' t' =>
      obtain ⟨like, rfl⟩ := h
      simp only [Source.facts, Facts.bare, like.bare, like.doc.slotText, like.messages.length_eq]
    | _ => exact h.elim

theorem splitFile? (h : PlainLike lib lib' moved r p p') :
    moved r ∨ (lib.facts r p).splitFile? = (lib'.facts r p').splitFile? := by
  cases p with
  | suite =>
    cases p' with
    | suite => exact .inr rfl
    | _ => exact h.elim
  | test =>
    cases p' with
    | test => exact h.1.keywords.fileOf?
    | _ => exact h.elim
  | keyword =>
    cases p' with
    | keyword => exact h.1.keywords.fileOf?
    | _ => exact h.elim

theorem keywordCount? (splits : lib.Splits lib' moved) (hp : lib.node? r = .ok (some p))
    (h : PlainLike lib lib' moved r p p') : lib.keywordCount? p = lib'.keywordCount? p' := by
  have items := h.items splits hp .keyword
  simp only [Source.keywordCount?]
  change Option.Rel _ (lib.items? p .keyword) (lib'.items? p' .keyword) at items
  cases hx : lib.items? p .keyword <;> cases hy : lib'.items? p' .keyword <;>
    rw [hx, hy] at items <;> cases items
  case some.some.some both => exact congrArg some both.length_eq

theorem loggedAt (splits : lib.Splits lib' moved) (h : PlainLike lib lib' moved r p p') (i : Nat) :
    lib.loggedAt r p i = lib'.loggedAt r p' i := by
  cases p with
  | keyword a path t =>
    cases p' with
    | keyword a' path' t' =>
      have messages := h.1.messages i
      simp only [Source.loggedAt, Source.items?, splits.coding]
      cases hx : a.messages[i]? <;> cases hy : a'.messages[i]? <;> rw [hx, hy] at messages <;>
        cases messages
      case some.some.some both =>
        have read := (message_concurs both).read.eq
        simp only [Source.readIn, read]
    | _ => exact h.elim
  | suite => cases p' <;> first | rfl | exact h.elim
  | test => cases p' <;> first | rfl | exact h.elim

end PlainLike

theorem Source.Splits.contains (h : lib.Splits lib' moved) (r : Route) :
    lib.Contains r ↔ lib'.Contains r := by
  have both := h.node? r
  simp only [Source.Contains]
  cases hx : lib.node? r <;> cases hy : lib'.node? r <;> rw [hx, hy] at both
  case error.error => simp
  case ok.ok => cases both <;> simp
  all_goals exact both.elim

/-! ## What sessions show of a node -/

namespace Session

open Effects

/-- The message of a keyword at a place, whatever its number is. -/
def messageShown (r : Route) (i : Nat) : Run (Option Message) := do
  match ← messageAt (.branch r) i with
  | none => return none
  | some id =>
    match (← get).node? id with
    | some (.message m) => return some m
    | _ => return none

/-- The node has been made and its children can be read. -/
def Unfolded (s : Session) (r : Route) : Prop :=
  ∃ n, s.branch? r = some n ∧ n.missingFile? = none

/-- Two sessions show the same at a route: all facts about the node, but perhaps not the name of its
split file, its messages and, where both can read them, its children. -/
structure ShowsAlike (s s' : Session) (r : Route) (moved : Prop) : Prop where
  described : ∃ d d' t t' facts facts', (describe (.branch r)).run s = (.ok (some d), t) ∧
    (describe (.branch r)).run s' = (.ok (some d'), t') ∧
    d.facts? = some facts ∧ d'.facts? = some facts' ∧ facts.bare = facts'.bare ∧
    (moved ∨ facts.splitFile? = facts'.splitFile?) ∧
    (s.Unfolded r → s'.Unfolded r → d.keywordCount? = d'.keywordCount?)
  children : s.Unfolded r → s'.Unfolded r → ∀ step,
    ((child (.branch r) step).run s).1 = ((child (.branch r) step).run s').1
  messages : ∀ i, ((messageShown r i).run s).1 = ((messageShown r i).run s').1

variable {s s' : Session} {n n' : Node}

theorem messageShown_run (h : s.Consistent) (hn : s.branch? r = some n) (hf : n.Follows s.source p)
    (i : Nat) : ((messageShown r i).run s).1 = s.source.loggedAt r p i := by
  have list := list?_of_branch s hn .message
  cases hl : n.list? .message with
  | none =>
    have items : s.source.items? p .message = none := by
      rcases hf.unlisted .message hl with ⟨absurd, -⟩ | none
      · cases absurd
      · exact none _
    simp only [messageShown, messageAt, run_bind, run_get, list, hl, Source.loggedAt, items]
    rfl
  | some l =>
    obtain ⟨items, t, hi, reads⟩ := hf.listed .message l hl
    obtain ⟨s₁, result, run, -, -, logs⟩ := messageAt_finds h (list.trans hl) i
    simp only [messageShown, messageAt, run_bind, run_get, list, hl, childAt, run,
      Source.loggedAt, hi]
    rw [reads.items, reads.table] at logs
    cases hraw : items[i]? with
    | none =>
      simp only [hraw] at logs ⊢
      rw [show result = .ok none from logs]
      rfl
    | some raw =>
      simp only [hraw] at logs ⊢
      cases hread : s.source.readIn t (s.source.coding.message raw) with
      | error e =>
        rw [hread] at logs
        rw [show result = .error e from logs]
        rfl
      | ok record =>
        rw [hread] at logs
        obtain ⟨number, rfl, made, -⟩ := logs
        simp only [run_bind, run_get, made]
        rfl

theorem keywordCount?_of_unfolded (hf : n.Follows s.source p) (ready : n.missingFile? = none)
    (within : s.source.Within lib) :
    (n.list? .keyword).map (·.made.length) = lib.keywordCount? p := by
  rw [Source.keywordCount?, within.items?_eq (missing?_of_ready hf ready)]
  exact keywordCount?_of_ready hf ready

theorem child_result (h : s.Consistent) (hn : s.branch? r = some n) (hf : n.Follows s.source p)
    (hp : s.source.node? r = .ok (some p)) (ready : n.missingFile? = none)
    (within : s.source.Within lib) (step : Segment) :
    ((child (.branch r) step).run s).1 =
      (lib.child? p step).map (Option.map fun _ => .branch (.child r step)) := by
  obtain ⟨s₁, result, run, finds⟩ := child_run h hn hf hp ready step
  rw [run, finds.result, within.child? (Source.node?_has hp) (missing?_of_ready hf ready)]

/-- Sessions of alike reports show the same at every route that both have been at. -/
theorem showsAlike (splits : lib.Splits lib' moved) (h : s.Consistent) (h' : s'.Consistent)
    (within : s.source.Within lib) (within' : s'.source.Within lib')
    (hn : s.branch? r = some n) (hn' : s'.branch? r = some n') : s.ShowsAlike s' r (moved r) := by
  obtain ⟨p, hp, hf⟩ := h.follows r n hn
  obtain ⟨p', hp', hf'⟩ := h'.follows r n' hn'
  have alike : PlainLike lib lib' moved r p p' := by
    have both := splits.node? r
    rw [within.node? hp, within'.node? hp'] at both
    cases both
    assumption
  have ready : ∀ {t : Session} {m : Node}, t.branch? r = some m → t.Unfolded r →
      m.missingFile? = none := by
    rintro t m hm ⟨m', hm', ready⟩
    cases hm.symm.trans hm'
    exact ready
  obtain ⟨t, d, run, facts, count⟩ := describeNode_run h hn hf
  obtain ⟨t', d', run', facts', count'⟩ := describeNode_run h' hn' hf'
  rw [← within.facts (Source.node?_has hp)] at facts
  rw [← within'.facts (Source.node?_has hp')] at facts'
  refine ⟨⟨d, d', t, t', _, _, describe_run hn run, describe_run hn' run', facts, facts',
    alike.facts splits, alike.splitFile?, ?_⟩, ?_, ?_⟩
  · intro unfolded unfolded'
    rw [count, count', keywordCount?_of_unfolded hf (ready hn unfolded) within,
      keywordCount?_of_unfolded hf' (ready hn' unfolded') within']
    exact alike.keywordCount? splits (within.node? hp)
  · intro unfolded unfolded' step
    rw [child_result h hn hf hp (ready hn unfolded) within,
      child_result h' hn' hf' hp' (ready hn' unfolded') within']
    refine ((splits.child? (within.node? hp) alike step).map ?_).eq
    rintro _ _ (_ | _) <;> rfl
  · intro i
    rw [messageShown_run h hn hf, messageShown_run h' hn' hf',
      ← within.loggedAt (Source.node?_has hp), ← within'.loggedAt (Source.node?_has hp')]
    exact alike.loggedAt splits i

/-- Both sessions find the root suite, or fail to read it for the same reason. -/
theorem rootSuite_alike (splits : lib.Splits lib' moved) (h : s.Consistent) (h' : s'.Consistent)
    (within : s.source.Within lib) (within' : s'.source.Within lib') :
    (rootSuite.run s).1 = (rootSuite.run s').1 := by
  have result : ∀ {t : Session} {src : Source}, t.Consistent → t.source.Within src →
      (rootSuite.run t).1 = (src.readSuite none src.suite .main).map fun _ => NodeId.root := by
    intro t src ht within
    obtain ⟨t', run, -⟩ := rootSuite_run ht
    rw [run, within.readSuite (fun _ hp => by cases hp) (t := .main) trivial, within.suite]
    rfl
  rw [result h within, result h' within']
  exact ((splits.readSuite splits.suite .none).map fun _ _ _ => rfl).eq

/-- A node whose file has been loaded can be unfolded at once. -/
theorem whenReady_loaded (h : s.Consistent) (hn : s.branch? r = some n) {file : String}
    {payload : SplitPayload} (hf : n.splitFile? = some file)
    (loaded : s.source.files file = some payload) (label : String) :
    ∃ t, (whenReady (.branch r) (.notify label)).run s = ((), t) ∧ t.Consistent ∧
      t.source = s.source ∧ t.fired = s.fired ++ [.ready label (.branch r) (s.source.sight? r)] ∧
      t.Unfolded r := by
  obtain ⟨p, hp, follows⟩ := h.follows r n hn
  have there : s.source.missing? p = none := by
    rw [Source.missing?_eq_none]
    intro file' hfile
    cases hf.symm.trans (follows.splitFile.trans hfile)
    exact ⟨payload, loaded⟩
  obtain ⟨t, m, run, consistent, unfolds, hm, -, ready⟩ := ready_proceeds h hn follows there
    (.notify label)
  have goes := unfolds.goes (call_goes consistent hm ready label)
  rw [unfolds.source] at goes
  refine ⟨((call (.branch r) label).run t).2, ?_, goes.consistent, goes.source, goes.fired, m, hm,
    ready⟩
  simp only [whenReady, state_bind, run, runNext, if_true]
  rfl

/-- Two reports that say the same, one of which keeps the keywords of some tests and keywords in
files; any session of each, whatever was asked for and served. The reports have the same nodes, both
sessions find the same root, and they show the same at every node that both have come to: of its
fields only the name of the file differs, at the nodes whose keywords were moved, and the children
are the same where both can be read. They can be read once the file is there: who asks for them is
called at once. -/
theorem splitting_is_transparent (splits : lib.Splits lib' moved) (h : s.Reachable)
    (h' : s'.Reachable) (within : s.source.Within lib) (within' : s'.source.Within lib') :
    (∀ r, lib.Contains r ↔ lib'.Contains r) ∧
    (rootSuite.run s).1 = (rootSuite.run s').1 ∧
    (∀ r, (s.branch? r).isSome → (s'.branch? r).isSome → s.ShowsAlike s' r (moved r)) ∧
    ∀ r n file payload, s'.branch? r = some n → n.splitFile? = some file →
      s'.source.files file = some payload → ∀ label, ∃ t,
        (whenReady (.branch r) (.notify label)).run s' = ((), t) ∧
        t.fired = s'.fired ++ [.ready label (.branch r) (s'.source.sight? r)] ∧ t.Unfolded r ∧
        ((s.branch? r).isSome → s.ShowsAlike t r (moved r)) := by
  have consistent := h.consistent
  have consistent' := h'.consistent
  refine ⟨splits.contains, rootSuite_alike splits consistent consistent' within within', ?_, ?_⟩
  · intro r hr hr'
    obtain ⟨n, hn⟩ := Option.isSome_iff_exists.1 hr
    obtain ⟨n', hn'⟩ := Option.isSome_iff_exists.1 hr'
    exact showsAlike splits consistent consistent' within within' hn hn'
  · intro r n' file payload hn' hf loaded label
    obtain ⟨t, run, after, source, fired, unfolded⟩ :=
      whenReady_loaded consistent' hn' hf loaded label
    refine ⟨t, run, fired, unfolded, fun hr => ?_⟩
    obtain ⟨n, hn⟩ := Option.isSome_iff_exists.1 hr
    obtain ⟨m, hm, -⟩ := unfolded
    exact showsAlike splits consistent after within (source ▸ within') hn hm

/-! ## A sample -/

/-- A suite with one test; what stands in the slot for the keywords of the test is left open. -/
def splittable (body : String) : String :=
  "\x7b\"version\":2,\"generatedMillis\":0,\"baseMillis\":0," ++
  "\"strings\":[\"*\",\"*Root\",\"*k\",\"*said\"]," ++
    "\"suite\":[1,0,0,0,[],[1,0,1],[],[[2,0,1,0,[],[1,0,1]," ++ body ++
    "]],[],[1,1,1,1]],\"stats\":[]\x7d"

/-- A keyword that has documentation and logged a message. -/
def keywordText : String := "[[0,2,0,3,0,[1,0,1],[],[[0,2,3,0]]]]"

/-- The same with other references, for another table. -/
def splitText : String :=
  "\x7b\"keywords\":[[0,1,0,2,0,[1,0,1],[],[[0,2,2,0]]]],\"strings\":[\"*\",\"*k\",\"*said\"]\x7d"

def mainStrings : List String := ["*", "*Root", "*k", "*said"]

def fileStrings : List String := ["*", "*k", "*said"]

/-- The keyword, with the references to its name and to what it said. -/
def keywordWith (name said : Int) : Raw :=
  .list [.int 0, .int name, .int 0, .int said, .int 0, .list [.int 1, .int 0, .int 1], .list [],
    .list [.list [.int 0, .int 2, .int said, .int 0]]]

def suiteWith (body : Raw) : Raw :=
  .list [.int 1, .int 0, .int 0, .int 0, .list [], .list [.int 1, .int 0, .int 1], .list [],
    .list [.list [.int 2, .int 0, .int 1, .int 0, .list [], .list [.int 1, .int 0, .int 1], body]],
    .list [], .list [.int 1, .int 1, .int 1, .int 1]]

/-- The route `s1-t1`. -/
def splitTest : Route :=
  .child .root ⟨.test, 0⟩

def splitKeyword : Route :=
  .child splitTest ⟨.keyword, 0⟩

theorem keywordWith_like {lib lib' : Source} {t t' : TableRef} (main : lib.entries t = mainStrings)
    (file : lib'.entries t' = fileStrings) :
    Like lib lib' moved r (.record .keyword) t t' (keywordWith 2 3) (keywordWith 1 2) := by
  have denotes : ∀ {n m : Int},
      SameText mainStrings fileStrings (some (.int n)) (some (.int m)) →
      Like lib lib' moved r .text t t' (.int n) (.int m) := by
    intro n m same
    exact .text (main ▸ file ▸ same)
  have name : Like lib lib' moved r .text t t' (.int 2) (.int 1) := denotes rfl
  have said : Like lib lib' moved r .text t t' (.int 3) (.int 2) := denotes rfl
  have empty : Like lib lib' moved r .text t t' (.int 0) (.int 0) := denotes rfl
  have number : ∀ {part : Part} {n : Int}, part ≠ .text →
      Like lib lib' moved r part t t' (.int n) (.int n) :=
    fun text => .plain text fun _ _ => by simp
  have status : Like lib lib' moved r .status t t' (.list [.int 1, .int 0, .int 1])
      (.list [.int 1, .int 0, .int 1]) := by
    refine .list rfl rfl fun i u v hu hv => ?_
    rcases i with _ | _ | _ | i
    all_goals cases hu
    all_goals cases hv; exact number (by simp [Part.slot])
  have message : Like lib lib' moved r .message t t' (.list [.int 0, .int 2, .int 3, .int 0])
      (.list [.int 0, .int 2, .int 2, .int 0]) := by
    refine .list rfl rfl fun i u v hu hv => ?_
    rcases i with _ | _ | _ | _ | i
    all_goals cases hu
    all_goals cases hv
    · exact number (by simp [Part.slot])
    · exact number (by simp [Part.slot])
    · exact said
    · exact empty
  refine .list rfl rfl fun i u v hu hv => ?_
  rcases i with _ | _ | _ | _ | _ | _ | _ | _ | i
  all_goals cases hu
  all_goals cases hv
  · exact number (by simp [Part.slot])
  · exact name
  · exact empty
  · exact said
  · exact empty
  · exact status
  · exact .list rfl rfl fun _ _ _ hu _ => by cases hu
  · refine .list rfl rfl fun j u v hu hv => ?_
    rcases j with _ | j
    all_goals cases hu
    cases hv
    exact message

/-- The sample with its keyword in the record, whatever its files are. -/
def inlineSource (files : String → Option SplitPayload) : Source :=
  ⟨⟨.indexed, 0, none⟩, suiteWith (.list [keywordWith 2 3]), mainStrings, files⟩

def splitSource (files : String → Option SplitPayload) : Source :=
  { inlineSource files with suite := suiteWith (.int 1) }

/-- With the keyword in the first file, the one report is the other one split. -/
theorem sample_splits {files : String → Option SplitPayload}
    (file : files "log-1.json" = some ⟨[keywordWith 1 2], fileStrings⟩) :
    (inlineSource files).Splits (splitSource files) (· = splitTest) := by
  have name : (inlineSource files).coding.splitFileName 1 = "log-1.json" :=
    show (⟨.indexed, 0, none⟩ : Coding).splitFileName 1 = "log-1.json" by decide
  have strings : (splitSource files).entries (.split "log-1.json") = fileStrings := by
    simp only [Source.entries, splitSource, inlineSource, file, Option.map_some, Option.getD_some]
  rw [← name] at file strings
  refine .of_suite rfl (Like.replaceAt [7, 0, 6] (b := .int 1) rfl rfl rfl ?_)
  refine .moved rfl file (.list rfl rfl fun i u v hu hv => ?_)
  rcases i with _ | i
  all_goals cases hu
  cases hv
  exact keywordWith_like rfl strings

variable {s : Session}

/-- Whether a session is one of the sample, with this root record and its keyword made. -/
def isSample (suite : Raw) (s : Session) : Bool :=
  s.coding.version = .indexed && s.coding.baseMillis = 0 && s.coding.splitLogBase = none &&
    s.suite.same suite && s.strings.entries = mainStrings && (s.branch? splitKeyword).isSome

theorem isSample_spec {suite : Raw} (h : isSample suite s = true) :
    s.source.coding = ⟨.indexed, 0, none⟩ ∧ s.source.suite = suite ∧
      s.source.strings = mainStrings ∧
      (s.branch? splitKeyword).isSome := by
  simp only [isSample, Bool.and_eq_true, decide_eq_true_eq] at h
  obtain ⟨⟨⟨⟨⟨version, base⟩, log⟩, same⟩, strings⟩, made⟩ := h
  refine ⟨?_, Raw.eq_of_same _ _ same, strings, made⟩
  rw [← version, ← base, ← log]
  rfl

def holdsSplitFile (s : Session) : Bool :=
  match s.source.files "log-1.json" with
  | some payload => Raw.sameAll payload.keywords [keywordWith 1 2] && payload.strings = fileStrings
  | none => false

theorem holdsSplitFile_spec (h : s.holdsSplitFile = true) :
    s.source.files "log-1.json" = some ⟨[keywordWith 1 2], fileStrings⟩ := by
  rw [holdsSplitFile] at h
  cases hf : s.source.files "log-1.json" with
  | none => rw [hf] at h; cases h
  | some payload =>
    simp only [hf, Bool.and_eq_true, decide_eq_true_eq] at h
    rw [← Raw.eq_of_sameAll _ _ h.1, ← h.2]

def inlineRun : List (Files × Step) :=
  [(sampleFiles, .report (.resolve "s1-t1-k1" "inline"))]

def splitRun : List (Files × Step) :=
  [(sampleFiles, .report (.resolve "s1-t1-k1" "split")),
    (sampleFiles, .report (.announce "log-1.json" splitText))]

/-- The keyword is reached in the record of the test in one report, and in the file in the other. -/
theorem splitting_is_transparent_sample : ∃ (files : String → Option SplitPayload) (s s' : Session),
    (inlineSource files).Splits (splitSource files) (· = splitTest) ∧ s.Reachable ∧ s'.Reachable ∧
    s.source.Within (inlineSource files) ∧ s'.source.Within (splitSource files) ∧
    s'.source.files "log-1.json" = some ⟨[keywordWith 1 2], fileStrings⟩ ∧
    s.ShowsAlike s' splitKeyword False := by
  have opens : opensTo (fun s₀ => isSample (suiteWith (.list [keywordWith 2 3]))
        ((play inlineRun).run s₀).2 && ((play inlineRun).run s₀).2.loader.files.isEmpty)
      (splittable keywordText) = true := by
    decide +kernel
  have opens' : opensTo (fun s₀ => isSample (suiteWith (.int 1)) ((play splitRun).run s₀).2 &&
      ((play splitRun).run s₀).2.holdsSplitFile) (splittable "1") = true := by
    decide +kernel
  obtain ⟨s₀, opened, shown⟩ := opensTo_iff.1 opens
  obtain ⟨s₀', opened', shown'⟩ := opensTo_iff.1 opens'
  have reachable : ((play inlineRun).run s₀).2.Reachable :=
    ⟨_, s₀, inlineRun, opened, by simp [inlineRun, Step.keepsReport], rfl⟩
  have reachable' : ((play splitRun).run s₀').2.Reachable :=
    ⟨_, s₀', splitRun, opened', by simp [splitRun, Step.keepsReport], rfl⟩
  generalize ((play inlineRun).run s₀).2 = s at reachable shown
  generalize ((play splitRun).run s₀').2 = s' at reachable' shown'
  obtain ⟨sample, noFiles⟩ := Bool.and_eq_true_iff.1 shown
  obtain ⟨sample', holds⟩ := Bool.and_eq_true_iff.1 shown'
  obtain ⟨coding, suite, strings, made⟩ := isSample_spec sample
  obtain ⟨coding', suite', strings', made'⟩ := isSample_spec sample'
  have file := holdsSplitFile_spec holds
  have splits := sample_splits file
  have within : s.source.Within (inlineSource s'.source.files) := by
    refine ⟨coding.symm, suite.symm, strings.symm, fun f payload hf => ?_⟩
    rw [source_files, Loader.payload?, Loader.state?, List.isEmpty_iff.1 noFiles] at hf
    cases hf
  have within' : s'.source.Within (splitSource s'.source.files) :=
    ⟨coding'.symm, suite'.symm, strings'.symm, fun _ _ hf => hf⟩
  obtain ⟨-, -, alike, -⟩ := splitting_is_transparent splits reachable reachable' within within'
  refine ⟨_, s, s', splits, reachable, reachable', within, within', file, ?_⟩
  simpa [splitKeyword, splitTest] using alike splitKeyword made made'

end Session

end RunReport
