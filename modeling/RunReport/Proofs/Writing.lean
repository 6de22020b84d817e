import RunReport.Proofs.Painting
/-!
# What console texts are made of

Everything that is written for a console is text of the report, a number, a time or fixed. So where no
text of the report has an escape character, no span that is written has one.
-/

namespace RunReport

/-! ## The texts that are shown -/

def SuiteRecord.texts (r : SuiteRecord) : List String :=
  [r.name, r.source] ++ r.metadata.flatMap fun e => [e.1, e.2]

def TestRecord.texts (r : TestRecord) : List String :=
  [r.name] ++ r.timeout.toList ++ r.tags

def KeywordRecord.texts (r : KeywordRecord) : List String :=
  [r.name, r.arguments]

def MessageRecord.texts (r : MessageRecord) : List String :=
  [r.text] ++ r.link.toList

def Suite.texts (s : Suite) : List String :=
  [s.fullName] ++ s.record.texts

def Test.texts (t : Test) : List String :=
  [t.fullName] ++ t.record.texts ++ t.keywords.splitFile.toList

def Keyword.texts (k : Keyword) : List String :=
  k.record.texts ++ k.keywords.splitFile.toList

def Message.texts (m : Message) : List String :=
  m.record.texts

def TestEntry.texts (t : TestEntry) : List String :=
  [t.message] ++ t.test.texts

mutual

def Outline.texts : Outline → List String
  | .suite _ suite doc message below tests =>
    [doc, message] ++ suite.texts ++ textsOfOutlines below ++ tests.flatMap TestEntry.texts

def textsOfOutlines : List Outline → List String
  | [] => []
  | o :: os => o.texts ++ textsOfOutlines os

end

mutual

def KeywordTree.texts : KeywordTree → List String
  | .keyword k doc below messages =>
    [doc] ++ k.texts
      ++ (match below with
          | some trees => textsOfTrees trees
          | none => [])
      ++ messages.flatMap Message.texts

def textsOfTrees : List KeywordTree → List String
  | [] => []
  | t :: ts => t.texts ++ textsOfTrees ts

end

namespace Render

/-- The texts of a whole report. -/
def ReportView.texts (v : ReportView) : List String :=
  v.root.texts ++ textsOfOutlines v.outline ++ v.statistics.texts ++ v.combined.map (·.row.label)

def NodeView.texts : NodeView → List String
  | .suite s d m keywords outline =>
    [d, m] ++ s.texts ++ textsOfTrees keywords ++ textsOfOutlines outline
  | .test t d m keywords => [d, m] ++ t.texts ++ textsOfTrees (keywords.getD [])
  | .keyword trees => textsOfTrees trees
  | .message m => m.texts

namespace Console

theorem clean_statusSpan (s : Status) : '\x1b' ∉ (statusSpan s).text.toList := by
  cases s <;> decide

@[simp] theorem levelSpan_text (text : String) (l : Level) : (levelSpan text l).text = text := by
  cases l <;> rfl

theorem clean_level (l : Level) : '\x1b' ∉ l.text.toList := by
  cases l <;> decide

theorem clean_type (t : KeywordType) : '\x1b' ∉ t.text.toList := by
  cases t <;> decide

theorem clean_docLine {doc : String} (h : '\x1b' ∉ doc.toList) (depth : Nat) :
    Clean (docLine doc depth) := by
  rw [docLine]
  split <;> simp [h]

theorem mem_of_mem_stripReturn {c : Char} {cs : List Char} (h : c ∈ Text.stripReturn cs) :
    c ∈ cs := by
  rw [Text.stripReturn] at h
  split at h
  · next before reversed =>
    have whole := congrArg List.reverse reversed
    rw [List.reverse_reverse, List.reverse_cons] at whole
    rw [whole]
    exact List.mem_append_left _ h
  · exact h

/-- A line has no character that the text has not. -/
theorem mem_of_mem_lines {c : Char} {cs l : List Char} (hl : l ∈ Text.lines cs) (h : c ∈ l) :
    c ∈ cs := by
  have piece : ∀ p ∈ Text.cut ['\n'] cs, c ∈ p → c ∈ cs := fun p hp hc =>
    (Text.infix_of_mem_cut (by simp) hp).subset hc
  simp only [Text.lines] at hl
  split at hl
  · cases hl
  · next last before reversed =>
    have pieces : Text.cut ['\n'] cs = before.reverse ++ [last] := by
      rw [← List.reverse_cons, ← reversed, List.reverse_reverse]
    rw [pieces] at piece
    rcases List.mem_append.1 hl with mem | mem
    · obtain ⟨p, hp, rfl⟩ := List.mem_map.1 mem
      exact piece p (List.mem_append_left _ hp) (mem_of_mem_stripReturn h)
    · split at mem
      · cases mem
      · rw [List.mem_singleton] at mem
        exact piece last (by simp) (mem ▸ h)

theorem clean_messageLines {message : String} (h : '\x1b' ∉ message.toList) (depth : Nat) :
    Clean (messageLines message depth) := by
  rw [messageLines, clean_flatMap]
  intro l mem
  have part : '\x1b' ∉ l := fun inside => h (mem_of_mem_lines (List.mem_filter.1 mem).1 inside)
  simp [dimmed, part]

theorem clean_unloadedLine {file : Option String} (h : Unescaped file.toList) (depth : Nat) :
    Clean (unloadedLine file depth) := by
  cases file with
  | none => simp [unloadedLine, dimmed]
  | some file => simpa [unloadedLine, dimmed] using h

theorem clean_testLine {t : TestEntry} (h : Unescaped t.texts) (depth : Nat) :
    Clean (testLine t depth) := by
  have name : '\x1b' ∉ t.test.record.name.toList :=
    h _ (by simp [TestEntry.texts, Test.texts, TestRecord.texts])
  have message : '\x1b' ∉ t.message.toList := h _ (by simp [TestEntry.texts])
  rw [testLine, clean_append]
  refine ⟨by simp [clean_statusSpan, name, dimmed], ?_⟩
  split
  · exact clean_messageLines message _
  · exact clean_nil

mutual

theorem clean_suiteLines (verbose : Bool) (depth : Nat) :
    ∀ o : Outline, Unescaped o.texts → Clean (suiteLines verbose depth o)
  | .suite _ suite doc _ below tests, h => by
    rw [Outline.texts, unescaped_append, unescaped_append, unescaped_append] at h
    obtain ⟨⟨⟨own, named⟩, further⟩, entries⟩ := h
    have name : '\x1b' ∉ suite.record.name.toList :=
      named _ (by simp [Suite.texts, SuiteRecord.texts])
    rw [suiteLines, clean_append, clean_append, clean_append, clean_line]
    refine ⟨⟨⟨by simp [clean_statusSpan, name, bold, dimmed], ?_⟩, ?_⟩, ?_⟩
    · split
      · exact clean_docLine (own _ (by simp)) _
      · exact clean_nil
    · exact clean_outlineLines verbose (depth + 1) below further
    · exact clean_flatMap.2 fun t ht => clean_testLine (unescaped_flatMap.1 entries t ht) _

theorem clean_outlineLines (verbose : Bool) (depth : Nat) :
    ∀ os : List Outline, Unescaped (textsOfOutlines os) → Clean (outlineLines verbose depth os)
  | [], _ => clean_nil
  | o :: os, h => by
    rw [textsOfOutlines, unescaped_append] at h
    rw [outlineLines, clean_append]
    exact ⟨clean_suiteLines verbose depth o h.1, clean_outlineLines verbose depth os h.2⟩

end

theorem clean_messageLine (o : ConsoleOptions) (depth : Nat) {m : Message} (h : Unescaped m.texts) :
    Clean (messageLine o depth m) := by
  have text : '\x1b' ∉ m.record.text.toList := h _ (by simp [Message.texts, MessageRecord.texts])
  rw [messageLine]
  split
  · exact clean_nil
  · simp [dimmed, clean_level, text]

/-- The lines of a keyword, if those of the keywords below it are clean. -/
theorem clean_keyword (o : ConsoleOptions) (depth : Nat) {k : Keyword} {doc : String}
    {below : Option (List KeywordTree)} {messages : List Message} (named : Unescaped k.texts)
    (documented : '\x1b' ∉ doc.toList)
    (further : ∀ trees, below = some trees → Clean (keywordTrees o (depth + 1) trees))
    (logged : ∀ m ∈ messages, Unescaped m.texts) :
    Clean (keywordLines o depth (.keyword k doc below messages)) := by
  have name : '\x1b' ∉ k.record.name.toList := named _ (by simp [Keyword.texts, KeywordRecord.texts])
  have arguments : '\x1b' ∉ k.record.arguments.toList :=
    named _ (by simp [Keyword.texts, KeywordRecord.texts])
  have file : Unescaped k.keywords.splitFile.toList := fun t ht =>
    named t (List.mem_append_right _ ht)
  have verbose : Clean (if o.verbose then docLine doc (depth + 1) else []) := by
    split
    · exact clean_docLine documented _
    · exact clean_nil
  have log : Clean (messages.flatMap (messageLine o (depth + 1))) :=
    clean_flatMap.2 fun m hm => clean_messageLine o _ (logged m hm)
  cases below with
  | some trees =>
    rw [keywordLines, clean_append, clean_append, clean_append, clean_line]
    refine ⟨⟨⟨?_, verbose⟩, further trees rfl⟩, log⟩
    simp [clean_statusSpan, clean_type, name, arguments, dimmed]
  | none =>
    rw [keywordLines, clean_append, clean_append, clean_append, clean_line]
    refine ⟨⟨⟨?_, verbose⟩, clean_unloadedLine file _⟩, log⟩
    simp [clean_statusSpan, clean_type, name, arguments, dimmed]

mutual

theorem clean_keywordLines (o : ConsoleOptions) (depth : Nat) :
    ∀ t : KeywordTree, Unescaped t.texts → Clean (keywordLines o depth t)
  | .keyword k doc (some trees) messages, h => by
    simp only [KeywordTree.texts, unescaped_append, unescaped_flatMap] at h
    obtain ⟨⟨⟨own, named⟩, further⟩, logged⟩ := h
    have below := clean_keywordTrees o (depth + 1) trees further
    exact clean_keyword o depth named (own _ (by simp))
      (fun _ same => by cases same; exact below) logged
  | .keyword k doc none messages, h => by
    simp only [KeywordTree.texts, unescaped_append, unescaped_flatMap] at h
    obtain ⟨⟨⟨own, named⟩, -⟩, logged⟩ := h
    exact clean_keyword o depth named (own _ (by simp)) (fun _ none => by cases none) logged

theorem clean_keywordTrees (o : ConsoleOptions) (depth : Nat) :
    ∀ ts : List KeywordTree, Unescaped (textsOfTrees ts) → Clean (keywordTrees o depth ts)
  | [], _ => clean_nil
  | t :: ts, h => by
    rw [textsOfTrees, unescaped_append] at h
    rw [keywordTrees, clean_append]
    exact ⟨clean_keywordLines o depth t h.1, clean_keywordTrees o depth ts h.2⟩

end

theorem clean_bar (row : StatisticRow) : Clean (bar row) := by
  have full : ∀ n, '\x1b' ∉ (Text.times n "█").toList := fun n => escape_not_mem_times n (by decide)
  have empty : ∀ n, '\x1b' ∉ (Text.times n "░").toList := fun n => escape_not_mem_times n (by decide)
  simp [bar, full, empty]

theorem clean_rowLine (width : Nat) {row : StatisticRow} (h : '\x1b' ∉ row.label.toList) :
    Clean (rowLine width row) := by
  simp [rowLine, clean_bar, number, h]

theorem clean_table {title : String} {rows : List StatisticRow} (ht : '\x1b' ∉ title.toList)
    (h : Unescaped (rows.map (·.label))) : Clean (table title rows) := by
  rw [table, clean_append, clean_append]
  refine ⟨⟨by simp [bold, ht], clean_flatMap.2 fun row hr => ?_⟩, by simp⟩
  exact clean_rowLine _ (h _ (List.mem_map_of_mem hr))

theorem mem_tagRows {tags : List TagStat} {row : StatisticRow} (h : row ∈ tagRows tags) :
    ∃ t ∈ tags, t.row = row := by
  obtain ⟨t, mem, same⟩ := List.mem_map.1 h
  refine ⟨t, ?_, same⟩
  rcases List.mem_append.1 mem with plain | noted
  · exact (List.mem_filter.1 plain).1
  · exact (List.mem_filter.1 noted).1

/-- The rows of the tables have their labels from the report, or are combined ones. -/
theorem unescaped_labels {s : Statistics} {combined : List TagStat} (h : Unescaped s.texts)
    (hc : Unescaped (combined.map (·.row.label))) :
    Unescaped ((s.total.map (·.row)).map (·.label)) ∧
    Unescaped ((tagRows (s.tag ++ combined)).map (·.label)) ∧
    Unescaped ((s.suite.map (·.row)).map (·.label)) := by
  rw [Statistics.texts, unescaped_append, unescaped_append, unescaped_flatMap, unescaped_flatMap] at h
  obtain ⟨⟨total, tags⟩, suites⟩ := h
  refine ⟨by rwa [List.map_map], ?_, ?_⟩
  · intro label mem
    obtain ⟨row, hr, rfl⟩ := List.mem_map.1 mem
    obtain ⟨t, ht, rfl⟩ := mem_tagRows hr
    rcases List.mem_append.1 ht with own | made
    · exact tags t own _ (by simp [TagStat.texts])
    · exact hc _ (List.mem_map.2 ⟨t, made, rfl⟩)
  · intro label mem
    rw [List.map_map] at mem
    obtain ⟨stat, hs, rfl⟩ := List.mem_map.1 mem
    exact suites stat hs _ (by simp [SuiteStat.texts])

theorem clean_report (o : ConsoleOptions) {v : ReportView} (h : Unescaped v.texts) :
    Clean (report o v) := by
  rw [ReportView.texts, unescaped_append, unescaped_append, unescaped_append] at h
  obtain ⟨⟨⟨root, outline⟩, rows⟩, combined⟩ := h
  have name : '\x1b' ∉ v.root.record.name.toList := root _ (by simp [Suite.texts, SuiteRecord.texts])
  have source : '\x1b' ∉
      (if v.root.record.source.isEmpty then "N/A" else v.root.record.source).toList := by
    split
    · decide
    · exact root _ (by simp [Suite.texts, SuiteRecord.texts])
  obtain ⟨total, tags, suites⟩ := unescaped_labels rows combined
  simp only [report, clean_append, clean_line]
  generalize (if v.root.record.source.isEmpty then "N/A" else v.root.record.source) = shown
    at source ⊢
  refine ⟨⟨⟨⟨⟨⟨⟨⟨⟨⟨⟨clean_nil, ?_⟩, ?_⟩, ?_⟩, clean_nil⟩, ?_⟩, ?_⟩, clean_nil⟩, ?_⟩, ?_⟩, ?_⟩, ?_⟩
  · simp [bold, name]
  · simp [source]
  · simp [clean_statusSpan]
  · simp [bold]
  · exact clean_outlineLines o.verbose 1 v.outline outline
  · exact clean_table (by decide) total
  · split
    · exact clean_nil
    · exact clean_table (by decide) tags
  · exact clean_table (by decide) suites
  · split <;> simp

theorem clean_foundTest {t : TestEntry} (h : Unescaped t.texts) : Clean (foundTest t) := by
  have fullName : '\x1b' ∉ t.test.fullName.toList := h _ (by simp [TestEntry.texts, Test.texts])
  have message : '\x1b' ∉ t.message.toList := h _ (by simp [TestEntry.texts])
  have tags : '\x1b' ∉ (", ".intercalate t.test.record.tags).toList :=
    escape_not_mem_intercalate (by decide) fun tag ht =>
      h tag (by simp [TestEntry.texts, Test.texts, TestRecord.texts, ht])
  rw [foundTest, clean_append, clean_append]
  refine ⟨⟨by simp [clean_statusSpan, fullName, dimmed], ?_⟩, ?_⟩
  · split <;> simp [-String.toList_intercalate, tags]
  · split <;> simp [message]

theorem clean_tests {title : String} (ht : '\x1b' ∉ title.toList) {found : List TestEntry}
    (h : ∀ t ∈ found, Unescaped t.texts) : Clean (tests title found) := by
  rw [tests, clean_append]
  exact ⟨by simp [bold, ht], clean_flatMap.2 fun t mem => clean_foundTest (h t mem)⟩

theorem clean_errorLine {m : Message} (h : Unescaped m.texts) : Clean (errorLine m) := by
  have text : '\x1b' ∉ m.record.text.toList := h _ (by simp [Message.texts, MessageRecord.texts])
  rw [errorLine, clean_line, clean_append]
  refine ⟨by simp [dimmed, clean_level, text], ?_⟩
  cases link : m.record.link with
  | none => exact clean_nil
  | some l =>
    have here : '\x1b' ∉ l.toList := h _ (by simp [Message.texts, MessageRecord.texts, link])
    simp [dimmed, here]

theorem clean_errors {found : List Message} (h : ∀ m ∈ found, Unescaped m.texts) :
    Clean (errors found) := by
  rw [errors, clean_append]
  exact ⟨by simp [bold], clean_flatMap.2 fun m mem => clean_errorLine (h m mem)⟩

theorem clean_nodeBody (o : ConsoleOptions) {v : NodeView} (h : Unescaped v.texts) :
    Clean (nodeBody o v) := by
  cases v with
  | suite suite doc message keywords outline =>
    rw [NodeView.texts, unescaped_append, unescaped_append, unescaped_append] at h
    obtain ⟨⟨⟨own, named⟩, trees⟩, outlines⟩ := h
    have fullName : '\x1b' ∉ suite.fullName.toList := named _ (by simp [Suite.texts])
    have metadata : ∀ e ∈ suite.record.metadata, Unescaped [e.1, e.2] :=
      unescaped_flatMap.1 (unescaped_append.1 (unescaped_append.1 named).2).2
    simp only [nodeBody, clean_append, clean_line]
    refine ⟨⟨⟨⟨⟨?_, ?_⟩, ?_⟩, ?_⟩, ?_⟩, ?_⟩
    · simp [clean_statusSpan, fullName, dimmed]
    · exact clean_docLine (own _ (by simp)) _
    · refine clean_flatMap.2 fun e he => ?_
      have entry := metadata e he
      simp only [unescaped_cons] at entry
      simp [entry.1, entry.2.1]
    · exact clean_messageLines (own _ (by simp)) _
    · exact clean_keywordTrees o 1 keywords trees
    · exact clean_outlineLines o.verbose 1 outline outlines
  | test test doc message keywords =>
    rw [NodeView.texts, unescaped_append, unescaped_append] at h
    obtain ⟨⟨own, named⟩, trees⟩ := h
    have fullName : '\x1b' ∉ test.fullName.toList := named _ (by simp [Test.texts])
    have tags : '\x1b' ∉ (", ".intercalate test.record.tags).toList :=
      escape_not_mem_intercalate (by decide) fun tag ht =>
        named tag (by simp [Test.texts, TestRecord.texts, ht])
    have file : Unescaped test.keywords.splitFile.toList := fun t ht =>
      named t (List.mem_append_right _ ht)
    simp only [nodeBody, clean_append, clean_line]
    refine ⟨⟨⟨⟨⟨⟨?_, ?_⟩, ?_⟩, ?_⟩, ?_⟩, ?_⟩, ?_⟩
    · simp [clean_statusSpan, fullName, dimmed]
    · exact clean_docLine (own _ (by simp)) _
    · split <;> simp [-String.toList_intercalate, tags]
    · split
      · next timeout limited =>
        have limit : '\x1b' ∉ timeout.toList :=
          named _ (by simp [Test.texts, TestRecord.texts, limited])
        simp [limit]
      · exact clean_nil
    · cases test.record.critical <;> simp
    · exact clean_messageLines (own _ (by simp)) _
    · cases keywords with
      | some found => exact clean_keywordTrees o 1 found trees
      | none => exact clean_unloadedLine file _
  | keyword trees => exact clean_keywordTrees o 0 trees h
  | message m => exact clean_messageLine o 0 h

theorem clean_node (o : ConsoleOptions) {chain : List String} (hc : Unescaped chain) {v : NodeView}
    (h : Unescaped v.texts) : Clean (node o chain v) := by
  have path : '\x1b' ∉ (" > ".intercalate chain).toList := escape_not_mem_intercalate (by decide) hc
  rw [node, clean_append]
  exact ⟨by simp [-String.toList_intercalate, bold, path], clean_nodeBody o h⟩

/-! ## Colors decide nothing else -/

mutual

theorem keywordLines_colors (o : ConsoleOptions) (colors : Bool) (depth : Nat) :
    ∀ t : KeywordTree, keywordLines { o with colors } depth t = keywordLines o depth t
  | .keyword k doc (some trees) messages => by
    rw [keywordLines, keywordLines, keywordTrees_colors o colors (depth + 1) trees]
    rfl
  | .keyword k doc none messages => by
    rw [keywordLines, keywordLines]
    rfl

theorem keywordTrees_colors (o : ConsoleOptions) (colors : Bool) (depth : Nat) :
    ∀ ts : List KeywordTree, keywordTrees { o with colors } depth ts = keywordTrees o depth ts
  | [] => by rw [keywordTrees, keywordTrees]
  | t :: ts => by
    rw [keywordTrees, keywordTrees, keywordLines_colors o colors depth t,
      keywordTrees_colors o colors depth ts]

end

theorem node_colors (o : ConsoleOptions) (colors : Bool) (chain : List String) (v : NodeView) :
    node { o with colors } chain v = node o chain v := by
  cases v with
  | suite s doc message keywords outline => simp only [node, nodeBody, keywordTrees_colors]
  | test t doc message keywords => simp only [node, nodeBody, keywordTrees_colors]
  | keyword trees => simp only [node, nodeBody, keywordTrees_colors]
  | message m => rfl

end Console

end Render

end RunReport
