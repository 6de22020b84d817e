import RunReport.Proofs.Decoding
import RunReport.Proofs.Sparing
import RunReport.Proofs.Upholding
import RunReport.Session.Views
/-!
# Console texts with and without colors

What is gathered from a session for the console comes from its string tables, its statistics and the
nodes made of them. So if none of these texts has an escape character, colors only add escape
sequences to what is written.
-/

namespace RunReport

open Effects Render

/-! ## Nodes -/

def Node.texts : Node → List String
  | .suite s => s.texts
  | .test t => t.texts
  | .keyword k => k.texts
  | .message m => m.texts

theorem Node.texts_updateList (f : ChildList → ChildList) (n : Node) (kind : NodeKind) :
    (n.updateList f kind).texts = n.texts := by
  cases n <;> cases kind <;> rfl

theorem splitFile_ofSource (source : KeywordSource) (table : TableRef) :
    (Keywords.ofSource source table).splitFile = Plain.fileOf? source := by
  cases source <;> rfl

namespace Session

/-- No text of the report has an escape character. -/
structure Unescaped (s : Session) : Prop where
  nodes : ∀ id n, s.node? id = some n → Render.Unescaped n.texts
  tables : ∀ ref, (s.tableOf ref).Unescaped
  statistics : ∀ st, Statistics.ofRaw s.stats = .ok st → Render.Unescaped st.texts
  splitLog : Render.Unescaped s.coding.splitLogBase.toList
  kept : ∀ id part text, s.text? id part = some text → '\x1b' ∉ text.toList

variable {s : Session}

theorem unescaped_setTable (h : s.Unescaped) (ref : TableRef) {t : StringTable}
    (ht : t.Unescaped) : (setTable ref t s).Unescaped := by
  have tables : ∀ ref', ((setTable ref t s).tableOf ref').Unescaped := by
    intro ref'
    rcases tableOf_setTable (s := s) ref ref' t with same | ⟨-, new⟩
    · rw [same]
      exact h.tables ref'
    · rw [new]
      exact ht
  obtain ⟨strings, splitStrings, eq⟩ := setTable_frame (s := s) ref t
  rw [eq] at tables ⊢
  exact ⟨h.nodes, tables, h.statistics, h.splitLog, h.kept⟩

theorem unescaped_update (h : s.Unescaped) (owner : Route) (kind : NodeKind)
    (f : LazyList NodeId → LazyList NodeId) : ((made owner kind).update f s).Unescaped := by
  refine ⟨fun id n hn => ?_, h.tables, h.statistics, h.splitLog, h.kept⟩
  rw [node?_update] at hn
  split at hn
  · obtain ⟨n', there, rfl⟩ := Option.map_eq_some_iff.1 hn
    rw [Node.texts_updateList]
    exact h.nodes id n' there
  · exact h.nodes id n hn

theorem unescaped_insertNode (h : s.Unescaped) (id : NodeId) {n : Node}
    (hn : Render.Unescaped n.texts) : (insertNode id n s).Unescaped := by
  refine ⟨fun id' n' hn' => ?_, h.tables, h.statistics, h.splitLog, h.kept⟩
  rw [node?_insertNode] at hn'
  rcases Option.or_eq_some_iff.1 hn' with there | ⟨-, new⟩
  · exact h.nodes id' n' there
  · split at new
    · cases new
      exact hn
    · cases new

theorem unescaped_keepText (h : s.Unescaped) (id : NodeId) (part : TextPart) {text : String}
    (free : '\x1b' ∉ text.toList) : (keepText id part text s).Unescaped := by
  refine ⟨h.nodes, h.tables, h.statistics, h.splitLog, fun id' part' text' kept => ?_⟩
  rw [text?_keepText] at kept
  rcases Option.or_eq_some_iff.1 kept with there | ⟨-, new⟩
  · exact h.kept id' part' text' there
  · split at new
    · cases new
      exact free
    · cases new

/-- A report whose strings, statistics and name of split files have no escape character is opened
without one. -/
theorem unescaped_ofPayload {p : Payload} (opened : ofPayload p = .ok s)
    (strings : (StringTable.ofEntries p.strings).Unescaped)
    (statistics : ∀ st, Statistics.ofRaw p.stats = .ok st → Render.Unescaped st.texts)
    (splitLog : Render.Unescaped p.splitLogBase.toList) : s.Unescaped := by
  simp only [ofPayload] at opened
  cases listed : p.errors.asList "errors" with
  | error e =>
    rw [listed] at opened
    cases opened
  | ok errors =>
    rw [listed] at opened
    cases opened
    refine ⟨fun id n hn => (by cases hn), fun ref => ?_, statistics, splitLog,
      fun id part text kept => (by cases kept)⟩
    cases ref with
    | main => exact strings
    | split file => exact ⟨fun id text h => (by cases h), fun id entry text h => by cases h⟩

/-- A computation after which no text of the report has an escape character, as before. -/
abbrev Reads {α : Type} (x : Run α) (P : α → Prop) : Prop :=
  Upholds Unescaped x P

theorem reads_withTable {α : Type} {P : α → Prop} (ref : TableRef) {x : Lookup α}
    (hx : Upholds StringTable.Unescaped x P) : Reads (withTable ref x) P := by
  intro s hs
  obtain ⟨kept, returned⟩ := hx (s.tableOf ref) (hs.tables ref)
  exact ⟨unescaped_setTable hs ref kept, returned⟩

theorem reads_slotText (ref : TableRef) (slot : Option Raw) :
    Reads (slotText ref slot) fun text => '\x1b' ∉ text.toList :=
  upholds_bind (reads_withTable ref (upholds_lookup slot)) fun _ free => upholds_pure free

theorem reads_insert (id : NodeId) {n : Node} (hn : Render.Unescaped n.texts) :
    Reads (modify (insertNode id n) : Run Unit) fun _ => True :=
  upholds_modify fun _ hs => unescaped_insertNode hs id hn

theorem reads_checkOpen : Reads checkOpen fun _ => True := by
  refine upholds_bind upholds_get fun s _ => ?_
  split
  · exact upholds_throw _
  · exact upholds_pure trivial

theorem reads_exists? (id : NodeId) : Reads (exists? id) fun _ => True :=
  upholds_bind upholds_get fun _ _ => upholds_pure trivial

/-! ## Making nodes -/

theorem reads_decodeKeyword (owner : Route) (r : Raw) (table : TableRef) (i : Nat) :
    Reads (decodeKeyword owner r table i) fun _ => True := by
  refine upholds_bind reads_checkOpen fun _ _ => upholds_bind (reads_exists? _) fun there _ => ?_
  split
  · exact upholds_pure trivial
  · refine upholds_bind upholds_get fun s hs => ?_
    refine upholds_bind (reads_withTable table (Coding.upholds_keyword r hs.splitLog)) fun k hk => ?_
    refine upholds_bind (reads_insert _ ?_) fun _ _ => upholds_pure trivial
    rw [Node.texts, Keyword.texts, splitFile_ofSource]
    exact hk

theorem reads_decodeMessage (owner : Option Route) (r : Raw) (table : TableRef) :
    Reads (decodeMessage owner r table) fun _ => True := by
  refine upholds_bind upholds_get fun s _ => ?_
  refine upholds_bind (reads_withTable table (Coding.upholds_message r)) fun record hrecord => ?_
  refine upholds_bind reads_checkOpen fun _ _ => upholds_bind upholds_get fun t _ => ?_
  refine upholds_bind (upholds_modify fun u hu => ?_) fun _ _ => upholds_pure trivial
  have counted : { u with messageCount := t.messageCount + 1 }.Unescaped :=
    ⟨hu.nodes, hu.tables, hu.statistics, hu.splitLog, hu.kept⟩
  exact unescaped_insertNode counted _ hrecord

theorem reads_createWith {decode : Route → Raw → TableRef → Nat → Run NodeId}
    (hd : ∀ owner r table i, Reads (decode owner r table i) fun _ => True) (owner : Route)
    (kind : NodeKind) (i : Nat) : Reads (createWith decode owner kind i) fun _ => True := by
  refine upholds_bind upholds_get fun s _ => ?_
  split
  · exact upholds_throw _
  · split
    · exact upholds_throw _
    · exact hd _ _ _ _

theorem reads_hasTeardownFailure (r : Route) : Reads (hasTeardownFailure r) fun _ => True := by
  refine upholds_bind upholds_get fun s _ => ?_
  split
  · split
    · exact upholds_pure trivial
    · have last : Reads (lastKeyword r) fun _ => True :=
        upholds_last (fun f _ hs => unescaped_update hs r .keyword f)
          (reads_createWith reads_decodeKeyword r .keyword)
      refine upholds_bind last fun found _ => ?_
      split
      · exact upholds_bind upholds_get fun _ _ => upholds_pure trivial
      · exact upholds_pure trivial
  · exact upholds_pure trivial

theorem unescaped_fullNameBelow {above : Option Node} {name : String}
    (ha : ∀ n, above = some n → Render.Unescaped n.texts) (hn : '\x1b' ∉ name.toList) :
    '\x1b' ∉ (fullNameBelow above name).toList := by
  unfold fullNameBelow
  split
  · next su =>
    have fullName : '\x1b' ∉ su.fullName.toList := ha _ rfl _ (by simp [Node.texts, Suite.texts])
    simp [fullName, hn]
  · exact hn

theorem reads_decodeSuiteAt (owner : Option Route) (r : Raw) (table : TableRef) (i : Nat) :
    Reads (decodeSuiteAt owner r table i) fun _ => True := by
  refine upholds_bind reads_checkOpen fun _ _ => upholds_bind (reads_exists? _) fun there _ => ?_
  split
  · exact upholds_pure trivial
  · refine upholds_bind upholds_get fun s _ => ?_
    refine upholds_bind (reads_withTable table (Coding.upholds_suite r)) fun record hrecord => ?_
    have texts : ∀ t : Session, t.Unescaped →
        Render.Unescaped ([fullNameBelow (owner.bind t.branch?) record.name] ++ record.texts) := by
      intro t ht
      refine unescaped_cons.2 ⟨unescaped_fullNameBelow (fun n above => ?_) ?_, hrecord⟩
      · obtain ⟨o, -, there⟩ := Option.bind_eq_some_iff.1 above
        exact ht.nodes (.branch o) n there
      · exact hrecord _ (by simp [SuiteRecord.texts])
    cases owner with
    | none =>
      refine upholds_bind (upholds_pure (P := fun _ => True) trivial) fun _ _ => ?_
      refine upholds_bind upholds_get fun t ht => ?_
      exact upholds_bind (reads_insert _ (texts t ht)) fun _ _ => upholds_pure trivial
    | some o =>
      refine upholds_bind (reads_hasTeardownFailure o) fun _ _ => ?_
      refine upholds_bind upholds_get fun t ht => ?_
      exact upholds_bind (reads_insert _ (texts t ht)) fun _ _ => upholds_pure trivial

theorem reads_decodeTest (owner : Route) (r : Raw) (table : TableRef) (i : Nat) :
    Reads (decodeTest owner r table i) fun _ => True := by
  refine upholds_bind reads_checkOpen fun _ _ => upholds_bind (reads_exists? _) fun there _ => ?_
  split
  · exact upholds_pure trivial
  · refine upholds_bind upholds_get fun s hs => ?_
    refine upholds_bind (reads_withTable table (Coding.upholds_test r hs.splitLog)) fun t ht => ?_
    refine upholds_bind (reads_hasTeardownFailure owner) fun aboveFailed _ => ?_
    refine upholds_bind upholds_get fun u hu => ?_
    refine upholds_bind (reads_insert _ ?_) fun _ _ => upholds_pure trivial
    have name : '\x1b' ∉ t.name.toList := ht _ (by simp [TestRecord.texts])
    have fullName := unescaped_fullNameBelow (fun n above => hu.nodes (.branch owner) n above) name
    rw [Node.texts, Test.texts, splitFile_ofSource, List.append_assoc]
    exact unescaped_cons.2 ⟨fullName, ht⟩

theorem reads_childList (owner : Route) (kind : NodeKind) :
    Reads (childList owner kind) fun _ => True := by
  have decode : ∀ owner r table i, Reads (decodeChild kind owner r table i) fun _ => True := by
    intro owner r table i
    cases kind with
    | suite => exact reads_decodeSuiteAt (some owner) r table i
    | test => exact reads_decodeTest owner r table i
    | keyword => exact reads_decodeKeyword owner r table i
    | message => exact reads_decodeMessage (some owner) r table
  exact upholds_items (fun f _ hs => unescaped_update hs owner kind f)
    (reads_createWith decode owner kind)

theorem reads_typedList (id : NodeId) (kind : NodeKind) :
    Reads (typedList id kind) fun _ => True := by
  cases id with
  | message number => exact upholds_pure trivial
  | branch r =>
    refine upholds_bind upholds_get fun s _ => ?_
    split
    · exact upholds_pure trivial
    · exact upholds_bind (reads_childList r kind) fun _ _ => upholds_pure trivial

theorem reads_rootSuite : Reads rootSuite fun _ => True :=
  upholds_bind upholds_get fun _ _ => reads_decodeSuiteAt _ _ _ _

theorem reads_errorList : Reads errorList fun _ => True := by
  refine upholds_items
    (fun f s hs => ⟨hs.nodes, hs.tables, hs.statistics, hs.splitLog, hs.kept⟩) fun i => ?_
  refine upholds_bind upholds_get fun s _ => ?_
  split
  · exact upholds_throw _
  · exact reads_decodeMessage _ _ _

/-! ## What is gathered -/

/-- What is remembered is what was read, and that is free of escape characters. -/
theorem reads_readOnce (id : NodeId) (part : TextPart) {read : Run String}
    (h : Reads read fun text => '\x1b' ∉ text.toList) :
    Reads (readOnce id part read) fun text => '\x1b' ∉ text.toList := by
  refine upholds_bind upholds_get fun s hs => ?_
  cases kept : s.text? id part with
  | some text => exact upholds_pure (hs.kept id part text kept)
  | none =>
    refine upholds_bind h fun text free => ?_
    refine upholds_bind (upholds_modify fun t ht => unescaped_keepText ht id part free) fun _ _ => ?_
    refine upholds_bind upholds_get fun t ht => upholds_pure ?_
    cases found : t.text? id part with
    | none => exact free
    | some old => exact ht.kept id part old found

theorem reads_doc {id : NodeId} : Reads (doc id) fun text => '\x1b' ∉ text.toList := by
  refine upholds_bind upholds_get fun s _ => ?_
  split
  · exact reads_readOnce id .doc (reads_slotText _ _)
  · exact upholds_pure (by decide)

theorem unescaped_effectiveMessage {own : String} (h : '\x1b' ∉ own.toList) (aboveFailed : Bool) :
    '\x1b' ∉ (effectiveMessage own aboveFailed).toList := by
  rw [effectiveMessage]
  split
  · exact h
  · split
    · decide
    · simp [h, alsoAboveFailedText]

theorem reads_statusMessage (id : NodeId) :
    Reads (statusMessage id) fun text => '\x1b' ∉ text.toList := by
  refine upholds_bind upholds_get fun s _ => ?_
  split
  · refine reads_readOnce id .message ?_
    exact upholds_bind (reads_readOnce id .own (reads_slotText _ _)) fun _ free =>
      upholds_pure (unescaped_effectiveMessage free _)
  · exact upholds_pure (by decide)

theorem reads_statistics : Reads statistics fun st => Render.Unescaped st.texts :=
  upholds_bind upholds_get fun _ hs => upholds_except hs.statistics

theorem reads_flatRun {α β : Type} {f : α → Run (List β)} {P : β → Prop}
    (hf : ∀ a, Reads (f a) fun bs => ∀ b ∈ bs, P b) (as : List α) :
    Reads (flatRun f as) fun bs => ∀ b ∈ bs, P b := by
  have each : Reads (mapRun f as) fun bss => ∀ bs ∈ bss, ∀ b ∈ bs, P b := by
    induction as with
    | nil => exact upholds_pure fun bs h => by cases h
    | cons a as ih =>
      refine upholds_bind (hf a) fun first hfirst => upholds_bind ih fun rest hrest => upholds_pure ?_
      exact List.forall_mem_cons.2 ⟨hfirst, hrest⟩
  refine upholds_bind each fun bss h => upholds_pure fun b mem => ?_
  obtain ⟨bs, hbs, hb⟩ := List.mem_flatten.1 mem
  exact h bs hbs b hb

/-- Text that is read if it is wanted. -/
theorem reads_wanted {β : Type} {Q : β → Prop} {wanted : Prop} [Decidable wanted] {x : Run String}
    (hx : Reads x fun text => '\x1b' ∉ text.toList) {f : String → Run β}
    (hf : ∀ text, '\x1b' ∉ text.toList → Reads (f text) Q) :
    Reads (if wanted then x >>= f else pure "" >>= f) Q := by
  split
  · exact upholds_bind hx hf
  · exact upholds_bind (upholds_pure (P := fun text => '\x1b' ∉ text.toList) (by decide)) hf

theorem reads_testEntry (wanted : Test → Bool) (id : NodeId) :
    Reads (testEntry wanted id) fun es => ∀ e ∈ es, Render.Unescaped e.texts := by
  refine upholds_bind upholds_get fun s hs => ?_
  cases found : s.test? id with
  | none => exact upholds_pure (List.forall_mem_nil _)
  | some test =>
    have texts := hs.nodes id _ (test?_eq_some.1 found)
    refine reads_wanted (reads_statusMessage id) fun message free => upholds_pure ?_
    exact List.forall_mem_singleton.2 (unescaped_cons.2 ⟨free, texts⟩)

theorem unescaped_outlines {os : List Outline} :
    Render.Unescaped (textsOfOutlines os) ↔ ∀ o ∈ os, Render.Unescaped o.texts := by
  induction os with
  | nil => simp [textsOfOutlines]
  | cons o os ih => rw [textsOfOutlines, unescaped_append, ih, List.forall_mem_cons]

theorem suite?_eq_some {s : Session} {r : Route} {suite : Suite} :
    s.suite? r = some suite ↔ s.branch? r = some (.suite suite) := by
  rw [suite?]
  split
  · next found =>
    rw [found]
    simp
  · next other =>
    constructor
    · intro h; cases h
    · intro h; exact absurd h (other suite)

theorem reads_textOutline (withDoc : Bool) (depth : Nat) (r : Route) :
    Reads (textOutline withDoc depth r) fun os => ∀ o ∈ os, Render.Unescaped o.texts := by
  induction depth generalizing r with
  | zero => exact upholds_pure (List.forall_mem_nil _)
  | succ depth ih =>
    refine upholds_bind upholds_get fun s hs => ?_
    cases found : s.suite? r with
    | none => exact upholds_pure (List.forall_mem_nil _)
    | some suite =>
      have texts := hs.nodes _ _ (suite?_eq_some.1 found)
      have suites : Reads (suitesOf r) fun _ => True :=
        upholds_bind (reads_childList r .suite) fun _ _ => upholds_pure trivial
      refine reads_wanted reads_doc fun doc hdoc => upholds_bind suites fun rs _ => ?_
      refine upholds_bind (reads_flatRun ih rs) fun below hbelow => ?_
      refine upholds_bind (reads_childList r .test) fun ids _ => ?_
      refine upholds_bind (reads_flatRun (reads_testEntry _) ids) fun tests htests => upholds_pure ?_
      refine List.forall_mem_singleton.2 ?_
      rw [Outline.texts, unescaped_append, unescaped_append, unescaped_append, unescaped_outlines,
        unescaped_flatMap]
      exact ⟨⟨⟨by simpa using hdoc, texts⟩, hbelow⟩, htests⟩

theorem unescaped_trees {ts : List KeywordTree} :
    Render.Unescaped (textsOfTrees ts) ↔ ∀ t ∈ ts, Render.Unescaped t.texts := by
  induction ts with
  | nil => simp [textsOfTrees]
  | cons t ts ih => rw [textsOfTrees, unescaped_append, ih, List.forall_mem_cons]

theorem unescaped_keyword {k : Keyword} {doc : String} {below : Option (List KeywordTree)}
    {messages : List Message} (texts : Render.Unescaped k.texts) (documented : '\x1b' ∉ doc.toList)
    (further : ∀ trees, below = some trees → ∀ t ∈ trees, Render.Unescaped t.texts)
    (logged : ∀ m ∈ messages, Render.Unescaped m.texts) :
    Render.Unescaped (KeywordTree.keyword k doc below messages).texts := by
  have own : Render.Unescaped ([doc] ++ k.texts) := unescaped_cons.2 ⟨documented, texts⟩
  cases below with
  | none =>
    simp only [KeywordTree.texts, unescaped_append, unescaped_flatMap]
    exact ⟨⟨unescaped_append.1 own, unescaped_nil⟩, logged⟩
  | some trees =>
    simp only [KeywordTree.texts, unescaped_append, unescaped_trees, unescaped_flatMap]
    exact ⟨⟨unescaped_append.1 own, further trees rfl⟩, logged⟩

theorem unescaped_messages {s : Session} (h : s.Unescaped) (ids : List NodeId) :
    ∀ m ∈ s.messages ids, Render.Unescaped m.texts := by
  intro m mem
  obtain ⟨id, -, found⟩ := List.mem_filterMap.1 mem
  split at found
  · next there =>
    cases found
    exact h.nodes id _ there
  · cases found

theorem reads_keywordTree (withDoc : Bool) (depth : Nat) (id : NodeId) :
    Reads (keywordTree withDoc depth id) fun ts => ∀ t ∈ ts, Render.Unescaped t.texts := by
  induction depth generalizing id with
  | zero => exact upholds_pure (List.forall_mem_nil _)
  | succ depth ih =>
    refine upholds_bind upholds_get fun s hs => ?_
    split
    · next r k there =>
      have texts : Render.Unescaped k.texts := hs.nodes _ _ there
      refine reads_wanted reads_doc fun doc hdoc => ?_
      refine upholds_bind (reads_typedList _ _) fun found _ => ?_
      split
      · refine upholds_bind (upholds_pure (P := (· = none)) rfl) fun below nothing => ?_
        refine upholds_bind (reads_childList r .message) fun ids _ => ?_
        refine upholds_bind upholds_get fun t ht => upholds_pure (List.forall_mem_singleton.2 ?_)
        refine unescaped_keyword texts hdoc (fun trees h => ?_) (unescaped_messages ht ids)
        rw [nothing] at h
        cases h
      · next ids =>
        have further : Reads (some <$> flatRun (keywordTree withDoc depth) ids) fun below =>
            ∀ trees, below = some trees → ∀ t ∈ trees, Render.Unescaped t.texts := by
          refine upholds_map (reads_flatRun ih ids) fun ts hts => ?_
          rintro _ ⟨⟩
          exact hts
        refine upholds_bind further fun below hbelow => ?_
        refine upholds_bind (reads_childList r .message) fun ids _ => ?_
        refine upholds_bind upholds_get fun t ht => upholds_pure (List.forall_mem_singleton.2 ?_)
        exact unescaped_keyword texts hdoc hbelow (unescaped_messages ht ids)
    · exact upholds_pure (List.forall_mem_nil _)

theorem reads_keywordTrees (verbose : Bool) (ids : List NodeId) :
    Reads (keywordTrees verbose ids) fun ts => Render.Unescaped (textsOfTrees ts) := by
  refine upholds_bind upholds_get fun s _ => ?_
  exact (reads_flatRun (reads_keywordTree verbose _) ids).imp fun _ => unescaped_trees.2

theorem reads_nodeView (o : ConsoleOptions) (id : NodeId) {n : Node} (hn : Render.Unescaped n.texts) :
    Reads (nodeView o id n) fun v => ∀ view, v = some view → Render.Unescaped view.texts := by
  unfold nodeView
  split
  · next r suite =>
    refine upholds_bind reads_doc fun doc hdoc => ?_
    refine upholds_bind (reads_statusMessage _) fun message hmessage => ?_
    refine upholds_bind (reads_childList r .keyword) fun ids _ => ?_
    refine upholds_bind (reads_keywordTrees _ ids) fun keywords hkeywords => ?_
    refine upholds_bind upholds_get fun t _ => ?_
    refine upholds_bind (reads_textOutline _ _ r) fun outline houtline => upholds_pure ?_
    rintro _ ⟨⟩
    have own : Render.Unescaped [doc, message] := by simpa using ⟨hdoc, hmessage⟩
    simp only [NodeView.texts, unescaped_append]
    exact ⟨⟨⟨own, hn⟩, hkeywords⟩, unescaped_outlines.2 houtline⟩
  · next r test =>
    refine upholds_bind reads_doc fun doc hdoc => ?_
    refine upholds_bind (reads_statusMessage _) fun message hmessage => ?_
    have own : Render.Unescaped [doc, message] := by simpa using ⟨hdoc, hmessage⟩
    refine upholds_bind (reads_typedList _ _) fun found _ => ?_
    split
    · refine upholds_pure ?_
      rintro _ ⟨⟩
      simp only [NodeView.texts, unescaped_append]
      exact ⟨⟨own, hn⟩, unescaped_nil⟩
    · next ids =>
      refine upholds_bind (reads_keywordTrees _ ids) fun keywords hkeywords => upholds_pure ?_
      rintro _ ⟨⟩
      simp only [NodeView.texts, unescaped_append]
      exact ⟨⟨own, hn⟩, hkeywords⟩
  · refine upholds_bind (reads_keywordTrees _ _) fun trees htrees => upholds_pure ?_
    rintro _ ⟨⟩
    exact htrees
  · refine upholds_pure ?_
    rintro _ ⟨⟩
    exact hn
  · refine upholds_pure ?_
    rintro _ ⟨⟩

/-! ## What is written -/

/-- The spans of a report. -/
def reportSpans (o : ConsoleOptions) (combined : List TagStat) : Run (List Span) := do
  match ← reportView o.verbose combined with
  | none => return []
  | some view => return Console.report o view

/-- The spans of a node below its path. -/
def nodeSpans (o : ConsoleOptions) (chain : List String) (id : NodeId) : Run (List Span) := do
  match (← get).node? id with
  | none => return []
  | some n =>
    match ← nodeView o id n with
    | none => return []
    | some v => return Console.node o chain v

theorem consoleReport_eq (o : ConsoleOptions) (colors : Bool) (combined : List TagStat) :
    consoleReport { o with colors } combined = paint colors <$> reportSpans o combined := by
  simp only [consoleReport, reportSpans, map_bind]
  refine bind_congr fun view => ?_
  cases view with
  | none => rw [map_pure]; rfl
  | some view => rw [map_pure]; rfl

theorem consoleNode_eq (o : ConsoleOptions) (colors : Bool) (chain : List String) (id : NodeId) :
    consoleNode { o with colors } chain id = paint colors <$> nodeSpans o chain id := by
  simp only [consoleNode, nodeSpans, map_bind]
  refine bind_congr fun s => ?_
  cases s.node? id with
  | none => rw [map_pure]; rfl
  | some n =>
    have view : nodeView { o with colors } id n = nodeView o id n := rfl
    simp only [map_bind, view, Console.node_colors]
    refine bind_congr fun v => ?_
    cases v with
    | none => rw [map_pure]; rfl
    | some v => rw [map_pure]

theorem consoleTests_eq (o : ConsoleOptions) (title : String) (ids : List NodeId) :
    consoleTests o title ids = paint o.colors <$> Console.tests title <$> testEntries ids := by
  simp only [consoleTests, map_eq_pure_bind, bind_assoc, pure_bind]

theorem consoleErrors_eq (o : ConsoleOptions) (ids : List NodeId) : consoleErrors o ids =
    paint o.colors <$> (fun s : Session => Console.errors (s.messages ids)) <$> get := by
  simp only [consoleErrors, map_eq_pure_bind, bind_assoc, pure_bind]

theorem reads_reportView (withDoc : Bool) {combined : List TagStat}
    (h : Render.Unescaped (combined.map (·.row.label))) :
    Reads (reportView withDoc combined) fun v =>
      ∀ view, v = some view → Render.Unescaped view.texts := by
  refine upholds_bind reads_rootSuite fun _ _ => upholds_bind upholds_get fun s _ => ?_
  refine upholds_bind (reads_textOutline _ _ _) fun outline houtline => ?_
  refine upholds_bind reads_statistics fun statistics hstatistics => ?_
  refine upholds_bind reads_errorList fun errors _ => upholds_bind upholds_get fun t ht => ?_
  refine upholds_pure fun view given => ?_
  obtain ⟨root, found, rfl⟩ := Option.map_eq_some_iff.1 given
  simp only [ReportView.texts, unescaped_append]
  have root := ht.nodes _ _ (suite?_eq_some.1 found)
  exact ⟨⟨⟨root, unescaped_outlines.2 houtline⟩, hstatistics⟩, h⟩

theorem clean_reportSpans (o : ConsoleOptions) {combined : List TagStat}
    (h : Render.Unescaped (combined.map (·.row.label))) : Reads (reportSpans o combined) Clean := by
  refine upholds_bind (reads_reportView o.verbose h) fun v hv => ?_
  split
  · exact upholds_pure clean_nil
  · next view => exact upholds_pure (Console.clean_report o (hv view rfl))

/-- Writing a report keeps the session without escape characters. -/
theorem reads_consoleReport (o : ConsoleOptions) {combined : List TagStat}
    (h : Render.Unescaped (combined.map (·.row.label))) :
    Reads (consoleReport o combined) fun _ => True := by
  rw [consoleReport_eq]
  exact upholds_map (clean_reportSpans o h) fun _ _ => trivial

theorem clean_nodeSpans (o : ConsoleOptions) {chain : List String} (h : Render.Unescaped chain)
    (id : NodeId) : Reads (nodeSpans o chain id) Clean := by
  refine upholds_bind upholds_get fun s hs => ?_
  split
  · exact upholds_pure clean_nil
  · next n found =>
    refine upholds_bind (reads_nodeView o id (hs.nodes id n found)) fun v hv => ?_
    split
    · exact upholds_pure clean_nil
    · next view => exact upholds_pure (Console.clean_node o h (hv view rfl))

/-- Painted spans without the escape sequences are plain ones. -/
theorem withoutEscapes_painted {x : Run (List Span)} (hx : Reads x Clean) {s : Session}
    (hs : s.Unescaped) :
    (withoutEscapes <$> (paint true <$> x)).run s = (paint false <$> x).run s := by
  simp only [run_map]
  obtain ⟨-, clean⟩ := hx s hs
  cases result : (x.run s).1 with
  | error e => rfl
  | ok spans =>
    have plain := withoutEscapes_paint (clean spans result)
    simp only [Except.map, plain]

/-- Colors only add escape sequences: if no text of the report has an escape character, nor what is
given along with it, then the report, lists of tests and of errors, and every node read the same with
colors and without, but for the escape sequences. -/
theorem colors_only_add_escapes {s : Session} (hs : s.Unescaped) (o : ConsoleOptions) :
    (∀ combined : List TagStat, Render.Unescaped (combined.map (·.row.label)) →
      (withoutEscapes <$> consoleReport { o with colors := true } combined).run s =
        (consoleReport { o with colors := false } combined).run s) ∧
    (∀ title ids, '\x1b' ∉ title.toList →
      (withoutEscapes <$> consoleTests { o with colors := true } title ids).run s =
        (consoleTests { o with colors := false } title ids).run s) ∧
    (∀ ids, (withoutEscapes <$> consoleErrors { o with colors := true } ids).run s =
        (consoleErrors { o with colors := false } ids).run s) ∧
    ∀ chain id, Render.Unescaped chain →
      (withoutEscapes <$> consoleNode { o with colors := true } chain id).run s =
        (consoleNode { o with colors := false } chain id).run s := by
  refine ⟨fun combined h => ?_, fun title ids h => ?_, fun ids => ?_, fun chain id h => ?_⟩
  · simp only [consoleReport_eq]
    exact withoutEscapes_painted (clean_reportSpans o h) hs
  · have spans : Reads (Console.tests title <$> testEntries ids) Clean :=
      upholds_map (reads_flatRun (reads_testEntry _) ids) fun found texts =>
        Console.clean_tests h texts
    simp only [consoleTests_eq]
    exact withoutEscapes_painted spans hs
  · have spans : Reads ((fun t : Session => Console.errors (t.messages ids)) <$> get) Clean :=
      upholds_map upholds_get fun t ht => Console.clean_errors (unescaped_messages ht ids)
    simp only [consoleErrors_eq]
    exact withoutEscapes_painted spans hs
  · simp only [consoleNode_eq]
    exact withoutEscapes_painted (clean_nodeSpans o h id) hs

/-- A suite with a failed test that has run one keyword, and an execution error. -/
def plainPayload : Payload :=
  { Payload.blank with
    version := .indexed
    strings := ["*", "*Root", "*t", "*k", "*oops"]
    suite := .list [.int 1, .int 0, .null, .int 0, .list [], .list [.int 0, .null, .int 0], .list [],
      .list [.list [.int 2, .int 0, .int 1, .int 0, .list [.int 3],
        .list [.int 0, .null, .int 0, .int 4],
        .list [.list [.int 0, .int 3, .int 0, .int 0, .int 0, .list [.int 0, .null, .int 0],
          .list [], .list [.list [.int 0, .int 5, .int 4]]]]]],
      .list [], .list [.int 1, .int 0, .int 1, .int 0]]
    stats := .list [.list [], .list [], .list []]
    errors := .list [.list [.int 0, .int 4, .int 4]] }

theorem plainPayload_strings : (StringTable.ofEntries plainPayload.strings).Unescaped := by
  refine ⟨fun id text h => (by cases h), fun id entry text there means => ?_⟩
  match id, there with
  | 0, there | 1, there | 2, there | 3, there | 4, there => cases there; cases means; decide
  | id + 5, there => cases there

/-- The report itself, and its test among others, as an error, and with what it has run. -/
def plainTexts (colors : Bool) : List (Run String) :=
  let o : ConsoleOptions := ⟨colors, true, .trace⟩
  let test : NodeId := .branch (.child .root ⟨.test, 0⟩)
  [consoleReport o [], consoleTests o "Found" [test], consoleErrors o [.message 1],
    consoleNode o ["s1", "s1-t1"] test]

theorem colors_only_add_escapes_sample : ∃ s t : Session, ofPayload plainPayload = .ok s ∧
    ((consoleReport ⟨false, true, .trace⟩ []).run s).2 = t ∧ s.Unescaped ∧ t.Unescaped ∧
    (∀ x ∈ (plainTexts true).zip (plainTexts false), (withoutEscapes <$> x.1).run t = x.2.run t) ∧
    ∀ x ∈ (plainTexts true).zip (plainTexts false),
      (x.1.run t).1.toOption ≠ (x.2.run t).1.toOption := by
  have base : Render.Unescaped plainPayload.splitLogBase.toList := unescaped_nil
  have stats : ∀ st, Statistics.ofRaw plainPayload.stats = .ok st → Render.Unescaped st.texts := by
    rintro st ⟨⟩
    exact unescaped_nil
  have fresh := unescaped_ofPayload rfl plainPayload_strings stats base
  have reads : Reads (consoleReport ⟨false, true, .trace⟩ []) fun _ => True :=
    reads_consoleReport _ unescaped_nil
  have shown := (reads _ fresh).1
  refine ⟨_, _, rfl, rfl, fresh, shown, ?_, by decide +kernel⟩
  obtain ⟨report, tests, errors, node⟩ := colors_only_add_escapes shown ⟨true, true, .trace⟩
  simp only [plainTexts, List.zip_cons_cons, List.zip_nil_right, List.forall_mem_cons]
  refine ⟨report [] unescaped_nil, tests _ _ (by decide), errors _, node _ _ ?_, by simp⟩
  simp

end Session

end RunReport
