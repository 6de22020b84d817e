import RunReport.Proofs.Likeness
import RunReport.Proofs.Rereading
import RunReport.Session.Dump
/-!
# The two versions agree

What a session shows of its nodes is everything but the raw records they are made from. If all nodes
of a suite record of the first version can be made, then so can those of its translation, and both
trees show the same.
-/

namespace RunReport

open Effects

/-! ## What is shown -/

/-- The list without the records that its nodes are made from. -/
def ChildList.bare (l : ChildList) : ChildList :=
  { l with items := [] }

def Keywords.bare (k : Keywords) : Keywords :=
  { k with list := k.list.map ChildList.bare }

def Suite.bare (su : Suite) : Suite :=
  { su with record := su.record.bare
            suites := su.suites.bare
            tests := su.tests.bare
            keywords := su.keywords.bare }

def Test.bare (t : Test) : Test :=
  { t with record := t.record.bare, keywords := t.keywords.bare }

def Keyword.bare (k : Keyword) : Keyword :=
  { k with record := k.record.bare, keywords := k.keywords.bare, messages := k.messages.bare }

theorem Keywords.bare_translate (k : Keywords) : k.translate.bare = k.bare := by
  rcases k with ⟨file, _ | l⟩ <;> rfl

namespace Session

namespace Description

/-- Everything a description shows; what is left out are raw records. -/
def bare : Description → Description
  | .suite v => .suite { v with suite := v.suite.bare }
  | .test v => .test { v with test := v.test.bare }
  | .keyword v => .keyword { v with keyword := v.keyword.bare }
  | .message v => .message v

def translate : Description → Description
  | .suite v => .suite { v with suite := v.suite.translate }
  | .test v => .test { v with test := v.test.translate }
  | .keyword v => .keyword { v with keyword := v.keyword.translate }
  | .message v => .message v

/-- Whether what has to be made for the description could be made; texts are read as they are. -/
def isComplete : Description → Bool
  | .suite v => v.teardownFailure.isOk
  | _ => true

theorem bare_translate (d : Description) : d.translate.bare = d.bare := by
  cases d with
  | suite v => rfl
  | test v => simp only [translate, bare, Test.translate, Test.bare, Keywords.bare_translate]; rfl
  | keyword v =>
    simp only [translate, bare, Keyword.translate, Keyword.bare, Keywords.bare_translate]
    rfl
  | message v => rfl

theorem isComplete_translate (d : Description) : d.translate.isComplete = d.isComplete := by
  cases d <;> rfl

end Description

mutual

/-- Whether every node at and below a place could be made. -/
def Dump.isComplete : Dump → Bool
  | .message _ => true
  | .node d load children => d.isComplete && load.isNone && readCompletely children

def readCompletely : Except Error (Option (List Dump)) → Bool
  | .ok (some ds) => allComplete ds
  | _ => false

def allComplete : List Dump → Bool
  | [] => true
  | d :: ds => d.isComplete && allComplete ds

end

/-- Trees of the same form that show the same at every node. -/
inductive Dump.Alike : Dump → Dump → Prop
  | message (d : Description) : Alike (.message d) (.message d)
  | node {d d' : Description} {ds ds' : List Dump} (here : d.bare = d'.bare)
    (below : List.Forall₂ Alike ds ds') :
    Alike (.node d none (.ok (some ds))) (.node d' none (.ok (some ds')))

theorem allComplete_append (ds ds' : List Dump) :
    allComplete (ds ++ ds') = (allComplete ds && allComplete ds') := by
  induction ds with
  | nil => rfl
  | cons d ds ih => rw [List.cons_append, allComplete, allComplete, ih, Bool.and_assoc]

theorem readCompletely_iff {r : Except Error (Option (List Dump))} :
    readCompletely r = true ↔ ∃ ds, r = .ok (some ds) ∧ allComplete ds = true := by
  rcases r with e | _ | ds <;> simp [readCompletely]

/-! ## Showing in step -/

section Showing

variable {s t : Session}

theorem reaches_translate (held : NodeId) (r : Route) :
    s.translate.reaches held r = s.reaches held r := by
  induction r with
  | root => rfl
  | child owner step ih =>
    simp only [reaches, list?_translate, ih]
    cases s.list? owner step.branch.kind <;> rfl

theorem owner?_translate (node : NodeId) : s.translate.owner? node = s.owner? node := by
  have alive : s.translate.isAlive = s.isAlive := by
    funext r
    simp only [isAlive, reaches_translate]
    rfl
  cases node with
  | branch r => simp only [owner?, alive]
  | message number =>
    simp only [owner?, alive, node?_translate]
    rcases s.node? (.message number) with _ | n
    · rfl
    · cases n <;> rfl

/-- A computation that goes the same way in both versions, also when it fails. -/
def Agrees {α : Type} (x : Run α) : Prop :=
  ∀ s : Session, (x.run s).2.coding = s.coding ∧
    x.run s.translate = ((x.run s).1, (x.run s).2.translate)

section Agrees

variable {α β : Type}

theorem agrees_pure (a : α) : Agrees (pure a) :=
  fun _ => ⟨rfl, rfl⟩

theorem agrees_bind {x : Run α} {f : α → Run β} (hx : Agrees x) (hf : ∀ a, Agrees (f a)) :
    Agrees (x >>= f) := by
  intro s
  obtain ⟨coding, same⟩ := hx s
  rw [run_bind, run_bind, same]
  rcases run : x.run s with ⟨e | a, t⟩ <;> rw [run] at coding
  · exact ⟨coding, rfl⟩
  · obtain ⟨coding', same'⟩ := hf a t
    exact ⟨coding'.trans coding, same'⟩

/-- What is looked at is the same in both versions. -/
theorem agrees_get {f : Session → Run α} (same : ∀ s : Session, f s.translate = f s)
    (hf : ∀ s, Agrees (f s)) : Agrees (get >>= f) := by
  intro s
  rw [run_bind_ok (run_get s), run_bind_ok (run_get s.translate), same]
  exact hf s s

theorem agrees_withTable (ref : TableRef) (x : Lookup α) : Agrees (withTable ref x) := by
  intro s
  rw [withTable_eq, withTable_eq, tableOf_translate]
  exact ⟨coding_setTable ref _ s, congrArg (Prod.mk _) (translate_setTable ref _ s).symm⟩

theorem agrees_slotText (ref : TableRef) (slot : Option Raw) : Agrees (slotText ref slot) :=
  agrees_bind (agrees_withTable ref _) fun _ => agrees_pure _

theorem agrees_readOnce (node : NodeId) (part : TextPart) {read : Run String} (h : Agrees read) :
    Agrees (readOnce node part read) := by
  refine agrees_get (fun _ => rfl) fun s => ?_
  split
  · exact agrees_pure _
  · exact agrees_bind h fun text => agrees_bind (fun _ => ⟨rfl, rfl⟩) fun _ =>
      agrees_get (fun _ => rfl) fun _ => agrees_pure _

theorem agrees_doc (node : NodeId) : Agrees (doc node) := by
  refine agrees_get (fun s => ?_) fun s => ?_
  · have same : (s.translate.node? node).bind Node.doc? = (s.node? node).bind Node.doc? := by
      rw [node?_translate]
      rcases s.node? node with _ | n
      · rfl
      · cases n <;> rfl
    simp only [same]
  · split
    · exact agrees_readOnce _ _ (agrees_slotText _ _)
    · exact agrees_pure _

theorem agrees_statusMessage (node : NodeId) : Agrees (statusMessage node) := by
  refine agrees_get (fun s => ?_) fun s => ?_
  · have same : (s.translate.node? node).bind Node.message? = (s.node? node).bind Node.message? := by
      rw [node?_translate]
      rcases s.node? node with _ | n
      · rfl
      · cases n <;> rfl
    simp only [same]
  · split
    · exact agrees_readOnce _ _ (agrees_bind (agrees_readOnce _ _ (agrees_slotText _ _)) fun _ =>
        agrees_pure _)
    · exact agrees_pure _

theorem Agrees.gives_attempt {x : Run α} (h : Agrees x) : Gives id (attempt x) (attempt x) := by
  intro s a t lettered run
  obtain ⟨coding, same⟩ := h s
  rw [attempt_run] at run ⊢
  cases run
  exact ⟨(congrArg Coding.version coding).trans lettered, by rw [same]; rfl⟩

end Agrees

/-- What could be made in one version can be made in the other. -/
theorem gives_attempt_ok {α : Type} {x y : Run α} (h : Gives id x y)
    (lettered : s.coding.version = .lettered) {a : α}
    (run : (attempt x).run s = (.ok (.ok a), t)) :
    t.coding.version = .lettered ∧ (attempt y).run s.translate = (.ok (.ok a), t.translate) := by
  rw [attempt_run] at run ⊢
  rcases hx : x.run s with ⟨r, s'⟩
  rw [hx] at run
  cases run
  obtain ⟨lettered', hy⟩ := h s a s' lettered hx
  exact ⟨lettered', by rw [hy]; rfl⟩

theorem gives_describe_test (node : NodeId) (test : Test) :
    Gives Description.translate (describeNode node (.test test))
      (describeNode node (.test test.translate)) := by
  refine transports_bind (agrees_doc node).gives_attempt fun doc => ?_
  refine transports_bind (agrees_statusMessage node).gives_attempt fun message => ?_
  exact transports_pure rfl

theorem gives_describe_keyword (node : NodeId) (k : Keyword) :
    Gives Description.translate (describeNode node (.keyword k))
      (describeNode node (.keyword k.translate)) := by
  refine transports_bind (agrees_doc node).gives_attempt fun doc => ?_
  exact transports_pure rfl

theorem gives_describe_message (node : NodeId) (m : Message) :
    Gives Description.translate (describeNode node (.message m))
      (describeNode node (.message m)) := by
  refine gives_get fun s _ => transports_pure ?_
  rw [owner?_translate]
  rfl

theorem gives_failureAt (node : NodeId) :
    Gives id (match node with
      | .branch r => hasTeardownFailure r
      | .message _ => pure false) (match node with
      | .branch r => hasTeardownFailure r
      | .message _ => pure false) := by
  cases node with
  | branch r => exact gives_hasTeardownFailure r
  | message number => exact transports_pure rfl

/-- A suite is described by making its last keyword, which may fail. -/
theorem describe_suite_translate {node : NodeId} {su : Suite} {d : Description}
    (lettered : s.coding.version = .lettered)
    (run : (describeNode node (.suite su)).run s = (.ok d, t)) (complete : d.isComplete = true) :
    t.coding.version = .lettered ∧
      (describeNode node (.suite su.translate)).run s.translate =
        (.ok d.translate, t.translate) := by
  obtain ⟨doc, s₁, runDoc, run⟩ := run_bind_eq_ok.1 run
  obtain ⟨message, s₂, runMessage, run⟩ := run_bind_eq_ok.1 run
  obtain ⟨failure, s₃, runFailure, run⟩ := run_bind_eq_ok.1 run
  cases run
  -- After a failure the two sessions might have made different nodes.
  obtain ⟨failed, rfl⟩ : ∃ failed, failure = .ok failed := by
    cases failure with
    | error e => cases complete
    | ok failed => exact ⟨failed, rfl⟩
  obtain ⟨lettered₁, runDoc⟩ := (agrees_doc node).gives_attempt s doc s₁ lettered runDoc
  obtain ⟨lettered₂, runMessage⟩ :=
    (agrees_statusMessage node).gives_attempt s₁ message s₂ lettered₁ runMessage
  obtain ⟨lettered₃, runFailure⟩ := gives_attempt_ok (gives_failureAt node) lettered₂ runFailure
  refine ⟨lettered₃, ?_⟩
  refine (run_bind_ok runDoc).trans ((run_bind_ok runMessage).trans ?_)
  refine (run_bind_ok runFailure).trans ?_
  rw [run_bind, run_get]
  simp only [owner?_translate]
  rfl

theorem describe_translate {node : NodeId} {d : Option Description}
    (lettered : s.coding.version = .lettered) (run : (describe node).run s = (.ok d, t))
    (complete : ∀ e, d = some e → e.isComplete = true) :
    t.coding.version = .lettered ∧
      (describe node).run s.translate = (.ok (d.map Description.translate), t.translate) := by
  simp only [describe, run_bind, run_get, node?_translate] at run ⊢
  rcases hn : s.node? node with _ | n
  · rw [hn] at run
    cases run
    exact ⟨lettered, rfl⟩
  · rw [hn] at run
    obtain ⟨e, s', runNode, run⟩ := run_bind_eq_ok.1 run
    cases run
    have described : t.coding.version = .lettered ∧
        (describeNode node n.translate).run s.translate = (.ok e.translate, t.translate) := by
      cases n with
      | suite su => exact describe_suite_translate lettered runNode (complete e rfl)
      | test test => exact gives_describe_test node test s e t lettered runNode
      | keyword k => exact gives_describe_keyword node k s e t lettered runNode
      | message m => exact gives_describe_message node m s e t lettered runNode
    obtain ⟨lettered', runNode'⟩ := described
    exact ⟨lettered', run_bind_ok runNode'⟩

/-- What a session of the first version shows completely, its translation shows completely and
alike. -/
def Carries (x : Run (List Dump)) : Prop :=
  ∀ s ds t, s.coding.version = .lettered → x.run s = (.ok ds, t) → allComplete ds = true →
    t.coding.version = .lettered ∧ ∃ ds', x.run s.translate = (.ok ds', t.translate) ∧
      allComplete ds' = true ∧ List.Forall₂ Dump.Alike ds ds'

variable {dump : NodeId → Run (List Dump)}

theorem carries_dumpEach (h : ∀ node, Carries (dump node)) (nodes : List NodeId) :
    Carries (dumpEach dump nodes) := by
  induction nodes with
  | nil =>
    rintro s _ _ lettered ⟨⟩ -
    exact ⟨lettered, [], rfl, rfl, .nil⟩
  | cons node nodes ih =>
    intro s ds t lettered run complete
    obtain ⟨first, s₁, runFirst, run⟩ := run_bind_eq_ok.1 run
    obtain ⟨rest, s₂, runRest, run⟩ := run_bind_eq_ok.1 run
    cases run
    rw [allComplete_append, Bool.and_eq_true] at complete
    obtain ⟨lettered₁, first', runFirst', complete₁, alike₁⟩ :=
      h node s first s₁ lettered runFirst complete.1
    obtain ⟨lettered₂, rest', runRest', complete₂, alike₂⟩ :=
      ih s₁ rest t lettered₁ runRest complete.2
    refine ⟨lettered₂, first' ++ rest', ?_, ?_, List.rel_append alike₁ alike₂⟩
    · exact (run_bind_ok runFirst').trans (run_bind_ok runRest')
    · rw [allComplete_append, complete₁, complete₂]
      rfl

theorem dumpBelow_translate (h : ∀ node, Carries (dump node)) {node : NodeId}
    {r : Except Error (Option (List Dump))} (lettered : s.coding.version = .lettered)
    (run : (dumpBelow dump node).run s = (.ok r, t)) (complete : readCompletely r = true) :
    t.coding.version = .lettered ∧ ∃ ds ds', r = .ok (some ds) ∧
      (dumpBelow dump node).run s.translate = (.ok (.ok (some ds')), t.translate) ∧
      allComplete ds' = true ∧ List.Forall₂ Dump.Alike ds ds' := by
  obtain ⟨ds, rfl, complete⟩ := readCompletely_iff.1 complete
  obtain ⟨found, s₁, runFound, run⟩ := run_bind_eq_ok.1 run
  -- Only children that could be listed are shown.
  rcases found with e | _ | nodes
  · cases run
  · cases run
  obtain ⟨each, s₂, runEach, run⟩ := run_bind_eq_ok.1 run
  cases run
  obtain ⟨lettered₁, runFound'⟩ := gives_attempt_ok (gives_children node) lettered runFound
  obtain ⟨lettered₂, ds', runEach', complete', alike⟩ :=
    carries_dumpEach h nodes s₁ ds t lettered₁ runEach complete
  refine ⟨lettered₂, ds, ds', rfl, ?_, complete', alike⟩
  exact (run_bind_ok runFound').trans (run_bind_ok runEach')

/-- What is dumped of a node that is not a message. -/
theorem dumpFrom_node {depth : Nat} {node : NodeId} {d : Description} {ds : List Dump}
    {s' : Session} (described : (describe node).run s = (.ok (some d), s'))
    (branch : ∀ v, d ≠ .message v) :
    (dumpFrom none (depth + 1) node).run s = (.ok ds, t) ↔
      ∃ r, (dumpBelow (dumpFrom none depth) node).run s' = (.ok r, t) ∧ ds = [.node d none r] := by
  have rest : (dumpFrom none (depth + 1) node).run s =
      (do return [.node d none (← dumpBelow (dumpFrom none depth) node)] :
        Run (List Dump)).run s' := by
    refine (run_bind_ok described).trans ?_
    cases d with
    | message v => exact absurd rfl (branch v)
    | _ => rfl
  rw [rest, run_bind_eq_ok]
  constructor
  · rintro ⟨r, _, run, ⟨⟩⟩
    exact ⟨r, run, rfl⟩
  · rintro ⟨r, run, rfl⟩
    exact ⟨r, t, run, rfl⟩

theorem carries_dumpFrom (depth : Nat) (node : NodeId) : Carries (dumpFrom none depth node) := by
  induction depth generalizing node with
  | zero =>
    rintro s _ _ lettered ⟨⟩ -
    exact ⟨lettered, [], rfl, rfl, .nil⟩
  | succ depth ih =>
    intro s ds t lettered run complete
    obtain ⟨d, s₁, described, rest⟩ := run_bind_eq_ok.1 run
    rcases d with _ | d
    · cases rest
      obtain ⟨lettered₁, described'⟩ := describe_translate lettered described (by simp)
      exact ⟨lettered₁, [], run_bind_ok described', rfl, .nil⟩
    by_cases message : ∃ v, d = .message v
    · obtain ⟨v, rfl⟩ := message
      cases rest
      obtain ⟨lettered₁, described'⟩ := describe_translate lettered described (by rintro _ ⟨⟩; rfl)
      exact ⟨lettered₁, _, run_bind_ok described', rfl, .cons (.message _) .nil⟩
    have branch : ∀ v, d ≠ .message v := fun v hd => message ⟨v, hd⟩
    have branch' : ∀ v, d.translate ≠ .message v := by
      intro v hd
      cases d with
      | message w => exact branch w rfl
      | _ => cases hd
    -- That the whole is complete is known at the end only; it tells that the description was.
    obtain ⟨r, below, rfl⟩ := (dumpFrom_node described branch).1 run
    simp only [allComplete, Dump.isComplete, Bool.and_eq_true, Option.isNone_none, and_true]
      at complete
    obtain ⟨lettered₁, described'⟩ :=
      describe_translate lettered described (by rintro _ ⟨⟩; exact complete.1)
    obtain ⟨lettered₂, ds, ds', rfl, below', complete', alike⟩ :=
      dumpBelow_translate ih lettered₁ below complete.2
    refine ⟨lettered₂, _, (dumpFrom_node described' branch').2 ⟨_, below', rfl⟩, ?_, ?_⟩
    · simp only [allComplete, Dump.isComplete, readCompletely, d.isComplete_translate, complete.1,
        complete']
      rfl
    · exact .cons (.node d.bare_translate.symm alike) .nil

end Showing

/-- The tree of a suite record as far down as `depth`, each node made when it is come to. -/
def tree (coding : Coding) (strings : List String) (suite : Raw) (depth : Nat) :
    Except Error (List Dump) :=
  ((do dumpFrom none depth (← rootSuite) : Run (List Dump)).run
    { start coding strings with suite }).1

/-- If every node of a suite record of the first version can be made, to whatever depth, then so can
every node of its translation, and the two trees show the same at every node. Documentations and
messages agree even where there is no such text. -/
theorem versions_agree (baseMillis : Int) (splitLogBase : Option String) (strings : List String)
    (suite : Raw) (depth : Nat) {ds : List Dump}
    (read : tree ⟨.lettered, baseMillis, splitLogBase⟩ strings suite depth = .ok ds)
    (complete : allComplete ds = true) :
    ∃ ds', tree ⟨.indexed, baseMillis, splitLogBase⟩ strings
        (suite.translate (.record .suite)) depth = .ok ds' ∧
      allComplete ds' = true ∧ List.Forall₂ Dump.Alike ds ds' := by
  rw [tree] at read
  obtain ⟨s, run⟩ : ∃ s, (do dumpFrom none depth (← rootSuite) : Run (List Dump)).run
      { start ⟨.lettered, baseMillis, splitLogBase⟩ strings with suite } = (.ok ds, s) :=
    ⟨_, Prod.ext read rfl⟩
  obtain ⟨root, s₁, made, dumped⟩ := run_bind_eq_ok.1 run
  obtain ⟨lettered, made'⟩ := gives_rootSuite _ root s₁ rfl made
  obtain ⟨-, ds', dumped', complete', alike⟩ :=
    carries_dumpFrom depth root s₁ ds s lettered dumped complete
  exact ⟨ds', congrArg Prod.fst ((run_bind_ok made').trans dumped'), complete', alike⟩

/-! ### A sample -/

/-- A suite whose teardown failed, with a suite and a test below it. -/
def letteredSuite : Raw :=
  .list [.int 0, .int 1, .int 3, .list [], .list [.str "P", .int 0, .int 1],
    .list [.list [.int 0, .int 2, .int 0, .list [], .list [.str "N", .null, .int 0],
      .list [], .list [], .list [], .list [.int 0, .int 0, .int 0, .int 0]]],
    .list [.list [.int 2, .int 0, .str "Y", .int 3, .list [], .list [.str "P", .int 0, .int 1],
      .list [.list [.str "forloop", .int 2, .int 0, .int 0, .int 0,
        .list [.str "P", .int 0, .int 1], .list [],
        .list [.list [.int 0, .str "H", .int 3, .int 0]]]]]],
    .list [.list [.str "teardown", .int 2, .int 0, .int 0, .int 0,
      .list [.str "F", .int 0, .int 1], .list [], .list []]],
    .list [.int 1, .int 1, .int 1, .int 1]]

def numberedSuite : Raw :=
  .list [.int 1, .int 0, .null, .int 3, .list [], .list [.int 1, .int 0, .int 1],
    .list [.list [.int 2, .int 0, .null, .int 0, .list [], .list [.int 2, .null, .int 0],
      .list [], .list [], .list [], .list [.int 0, .int 0, .int 0, .int 0]]],
    .list [.list [.int 2, .int 0, .int 1, .int 3, .list [], .list [.int 1, .int 0, .int 1],
      .list [.list [.int 3, .int 2, .int 0, .int 0, .int 0,
        .list [.int 1, .int 0, .int 1], .list [],
        .list [.list [.int 0, .int 2, .int 3, .int 0]]]]]],
    .list [.list [.int 2, .int 2, .int 0, .int 0, .int 0,
      .list [.int 0, .int 0, .int 1], .list [], .list []]],
    .list [.int 1, .int 1, .int 1, .int 1]]

def suiteStrings : List String := ["*", "*Root", "*Part", "*said"]

/-- Whether there is a tree and all of it could be read. -/
def isWhole : Except Error (List Dump) → Bool
  | .ok ds => !ds.isEmpty && allComplete ds
  | .error _ => false

theorem isWhole_iff {r : Except Error (List Dump)} :
    isWhole r = true ↔ ∃ ds, r = .ok ds ∧ ds ≠ [] ∧ allComplete ds = true := by
  rcases r with e | ds <;> simp [isWhole]

theorem versions_agree_sample : ∃ ds ds',
    tree ⟨.lettered, 0, none⟩ suiteStrings letteredSuite 5 = .ok ds ∧ ds ≠ [] ∧
    allComplete ds = true ∧ tree ⟨.indexed, 0, none⟩ suiteStrings numberedSuite 5 = .ok ds' ∧
    allComplete ds' = true ∧ List.Forall₂ Dump.Alike ds ds' := by
  have whole : isWhole (tree ⟨.lettered, 0, none⟩ suiteStrings letteredSuite 5) = true := by
    decide +kernel
  have numbered : letteredSuite.translate (.record .suite) = numberedSuite := by
    rfl
  obtain ⟨ds, read, some, complete⟩ := isWhole_iff.1 whole
  obtain ⟨ds', read', complete', alike⟩ :=
    versions_agree 0 none suiteStrings letteredSuite 5 read complete
  exact ⟨ds, ds', read, some, complete, numbered ▸ read', complete', alike⟩

end Session

end RunReport
