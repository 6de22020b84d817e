import RunReport.Proofs.Numerals
import RunReport.Proofs.Preloading
import RunReport.Session.Views
/-!
# What a loaded node shows

The rendering of a test or keyword tells of keywords that are not loaded, and its data leaves out the
children of such a node. Once all keywords below the node have been loaded there is neither: nothing
is missing in what is gathered from the session, and so nothing in what is written of it.
-/

namespace RunReport

/-- Nowhere in the tree are keywords missing. -/
inductive KeywordTree.Complete : KeywordTree → Prop
  | keyword {k : Keyword} {doc : String} {below : List KeywordTree} {messages : List Message}
    (complete : ∀ tree ∈ below, Complete tree) : Complete (.keyword k doc (some below) messages)

/-- Nowhere in the summary are children missing. -/
inductive Summary.Complete : Summary → Prop
  | node {id : NodeId} {n : Node} {children : List Summary}
    (complete : ∀ child ∈ children, Complete child) : Complete (.node id n (some children))

namespace Render

/-! ## Text -/

/-- No dimmed text has the letter `k` in it, as the line about missing keywords does. -/
def Unremarked (spans : List Span) : Prop :=
  ∀ span ∈ spans, span.style = some .dimmed → 'k' ∉ span.text.toList

section Unremarked

variable {xs ys : List Span}

theorem unremarked_nil : Unremarked [] :=
  fun span h => by cases h

theorem Unremarked.append (hx : Unremarked xs) (hy : Unremarked ys) : Unremarked (xs ++ ys) :=
  fun span h => (List.mem_append.1 h).elim (hx span) (hy span)

theorem Unremarked.cons {x : Span} (hx : x.style = some .dimmed → 'k' ∉ x.text.toList)
    (hy : Unremarked ys) : Unremarked (x :: ys) :=
  fun span h => (List.mem_cons.1 h).elim (fun e => e ▸ hx) (hy span)

theorem Unremarked.line (hx : Unremarked xs) : Unremarked (line xs) :=
  hx.append (.cons (fun h => by cases h) unremarked_nil)

theorem Unremarked.flatMap {α : Type} {as : List α} {f : α → List Span}
    (h : ∀ a ∈ as, Unremarked (f a)) : Unremarked (as.flatMap f) := by
  intro span hs
  obtain ⟨a, ha, hs⟩ := List.mem_flatMap.1 hs
  exact h a ha span hs

/-- Text in another style says nothing. -/
theorem Unremarked.other {x : Span} (hx : x.style ≠ some .dimmed) (hy : Unremarked ys) :
    Unremarked (x :: ys) :=
  .cons (fun h => absurd h hx) hy

theorem Unremarked.ite {c : Prop} [Decidable c] (hx : Unremarked xs) (hy : Unremarked ys) :
    Unremarked (if c then xs else ys) := by
  split
  · exact hx
  · exact hy

/-- What is not remarked has no line about missing keywords. -/
theorem Unremarked.not_mem (h : Unremarked xs) (file : String) :
    Console.dimmed ("keywords not loaded (" ++ file ++ ")") ∉ xs := by
  intro mem
  refine h _ mem rfl ?_
  simp [Console.dimmed, styled, String.toList_append]

end Unremarked

theorem showTime_digits (t : Option Instant) : 'k' ∉ (Times.showTime t).toList := by
  cases t with
  | none => decide
  | some t =>
    have padded : ∀ width n, 'k' ∉ (Text.padZero width n).toList := not_mem_padZero (by decide)
    simp [Times.showTime, Instant.showTime, Instant.clock, String.toList_append, padded]

theorem type_capitals (t : KeywordType) : 'k' ∉ t.text.toList := by
  cases t <;> decide

theorem level_capitals (l : Level) : 'k' ∉ l.text.toList := by
  cases l <;> decide

namespace Console

theorem statusSpan_style (s : Status) : (statusSpan s).style ≠ some .dimmed := by
  cases s <;> simp [statusSpan, styled]

theorem unremarked_docLine (doc : String) (depth : Nat) : Unremarked (docLine doc depth) :=
  .ite unremarked_nil (.line (.other (by simp [plain]) (.other (by simp [styled]) unremarked_nil)))

theorem unremarked_messageLines (message : String) (depth : Nat) :
    Unremarked (messageLines message depth) := by
  refine .flatMap fun l _ => .line (.other (by simp [plain]) (.cons (fun _ => ?_) ?_))
  · decide
  · exact .other (by simp [plain]) unremarked_nil

theorem unremarked_messageLine (o : ConsoleOptions) (depth : Nat) (m : Message) :
    Unremarked (messageLine o depth m) := by
  refine .ite unremarked_nil (.line ?_)
  refine .other (by simp [plain]) (.cons (fun _ => showTime_digits _) ?_)
  refine .other (by simp [plain]) (.cons (fun _ => ?_) (.other (by simp [plain]) unremarked_nil))
  have text : ∀ (text : String) (l : Level), (levelSpan text l).text = text := fun _ l => by
    cases l <;> rfl
  rw [text]
  exact level_capitals m.record.level

theorem unremarked_keywordTrees {o : ConsoleOptions} {depth : Nat} {trees : List KeywordTree}
    (h : ∀ tree ∈ trees, Unremarked (keywordLines o depth tree)) :
    Unremarked (keywordTrees o depth trees) := by
  induction trees with
  | nil => exact unremarked_nil
  | cons tree trees ih =>
    exact (h tree (by simp)).append (ih fun tree' mem => h tree' (by simp [mem]))

theorem unremarked_keywordLines (o : ConsoleOptions) {tree : KeywordTree} (h : tree.Complete)
    (depth : Nat) : Unremarked (keywordLines o depth tree) := by
  induction h generalizing depth with
  | @keyword k doc below messages complete ih =>
    rw [keywordLines]
    refine .append (.append (.append (.line ?_) (.ite (unremarked_docLine _ _) unremarked_nil)) ?_) ?_
    · refine .other (by simp [plain]) (.other (statusSpan_style _) (.other (by simp [plain]) ?_))
      refine .cons (fun _ => type_capitals _) (.other (by simp [plain]) ?_)
      exact .cons (fun _ => not_mem_elapsedTime (by decide) (by decide) (by decide) _) unremarked_nil
    · exact unremarked_keywordTrees fun tree mem => ih tree mem _
    · exact .flatMap fun m _ => unremarked_messageLine o _ m

end Console

/-- Nowhere in what is shown of a test or keyword are keywords missing. -/
inductive NodeView.Complete : NodeView → Prop
  | test {t : Test} {doc message : String} {keywords : List KeywordTree}
    (complete : ∀ tree ∈ keywords, tree.Complete) : Complete (.test t doc message (some keywords))
  | keyword {trees : List KeywordTree} (complete : ∀ tree ∈ trees, tree.Complete) :
    Complete (.keyword trees)

theorem Console.unremarked_node (o : ConsoleOptions) (chain : List String) {v : NodeView}
    (h : v.Complete) : Unremarked (Console.node o chain v) := by
  refine .append (.line (.other (by simp [bold, styled]) (.other (by simp [plain]) unremarked_nil))) ?_
  cases h with
  | keyword complete =>
    exact unremarked_keywordTrees fun tree mem => unremarked_keywordLines o (complete tree mem) 0
  | @test t doc message keywords complete =>
    refine .append (.append (.append (.append (.append (.append (.line ?_)
      (unremarked_docLine _ _)) (.ite unremarked_nil ?_)) ?_) ?_) (unremarked_messageLines _ _)) ?_
    · refine .other (statusSpan_style _) (.other (by simp [plain]) ?_)
      exact .cons (fun _ => not_mem_elapsedTime (by decide) (by decide) (by decide) _) unremarked_nil
    · exact .line (.other (by simp [plain]) unremarked_nil)
    · split
      · exact .line (.other (by simp [plain]) unremarked_nil)
      · exact unremarked_nil
    · exact .line (.other (by simp [plain]) unremarked_nil)
    · exact unremarked_keywordTrees fun tree mem => unremarked_keywordLines o (complete tree mem) 1

/-! ## Data -/

/-- Every node in the data has its children. -/
inductive Data.ListsChildren : Json.Value → Prop
  | node {fields : List (String × Json.Value)} {items : List Json.Value}
    (here : fields.lookup "children" = some (.arr items))
    (below : ∀ item ∈ items, ListsChildren item) : ListsChildren (.obj fields)

theorem Data.summaries_eq_map (trees : List Summary) : summaries trees = trees.map summary := by
  induction trees with
  | nil => rfl
  | cons tree trees ih => rw [summaries, ih, List.map_cons]

theorem Data.summary_listsChildren {tree : Summary} (h : tree.Complete) :
    ListsChildren (summary tree) := by
  induction h with
  | @node id n children complete ih =>
    rw [summary]
    refine @ListsChildren.node _ (summaries children) ?_ fun item mem => ?_
    · cases n.status? <;> cases n.times? <;> rfl
    · rw [summaries_eq_map] at mem
      obtain ⟨child, there, rfl⟩ := List.mem_map.1 mem
      exact ih child there

end Render

namespace Session

open Effects

variable {s s' : Session} {id : NodeId}

/-! ## Reading a node that is whole -/

/-- Wherever reading has led to from a session, the result satisfies `Q`. -/
def Shows (s : Session) {α : Type} (x : Run α) (Q : α → Prop) : Prop :=
  ∀ t : Session, t.Consistent → s.Explores t → ∀ a t', x.run t = (.ok a, t') →
    t'.Consistent ∧ s.Explores t' ∧ Q a

section Shows

variable {α β : Type}

theorem shows_pure {a : α} {Q : α → Prop} (h : Q a) : s.Shows (pure a) Q := by
  rintro t ht e b t' ⟨⟩
  exact ⟨ht, e, h⟩

theorem Keeps.shows {x : Run α} (h : Keeps Explores x) : s.Shows x fun _ => True := by
  intro t ht e a t' run
  have kept := h t ht
  rw [run] at kept
  exact ⟨kept.1, e.trans kept.2, trivial⟩

theorem shows_bind {x : Run α} {f : α → Run β} {P : α → Prop} {Q : β → Prop} (hx : s.Shows x P)
    (hf : ∀ a, P a → s.Shows (f a) Q) : s.Shows (x >>= f) Q := by
  intro t ht e b t' run
  obtain ⟨a, u, first, rest⟩ := run_bind_eq_ok.1 run
  obtain ⟨hu, eu, ha⟩ := hx t ht e a u first
  exact hf a ha u hu eu b t' rest

theorem shows_after {x : Run α} {f : α → Run β} {Q : β → Prop} (hx : Keeps Explores x)
    (hf : ∀ a, s.Shows (f a) Q) : s.Shows (x >>= f) Q :=
  shows_bind hx.shows fun a _ => hf a

theorem shows_get : s.Shows get fun t => t.Consistent ∧ s.Explores t := by
  rintro t ht e a t' ⟨⟩
  exact ⟨ht, e, ht, e⟩

theorem shows_flatRun {f : α → Run (List β)} {P : α → Prop} {Q : β → Prop}
    (hf : ∀ a, P a → s.Shows (f a) fun bs => ∀ b ∈ bs, Q b) {as : List α} (all : ∀ a ∈ as, P a) :
    s.Shows (flatRun f as) fun bs => ∀ b ∈ bs, Q b := by
  have each : s.Shows (mapRun f as) fun bss => ∀ bs ∈ bss, ∀ b ∈ bs, Q b := by
    induction as with
    | nil => exact shows_pure fun bs h => by cases h
    | cons a as ih =>
      refine shows_bind (hf a (all a (by simp))) fun first hfirst => ?_
      refine shows_bind (ih fun a' mem => all a' (by simp [mem])) fun rest hrest => shows_pure ?_
      intro bs mem
      rcases List.mem_cons.1 mem with rfl | mem
      · exact hfirst
      · exact hrest bs mem
  refine shows_bind each fun bss h => shows_pure fun b mem => ?_
  obtain ⟨bs, hbs, hb⟩ := List.mem_flatten.1 mem
  exact h bs hbs b hb

end Shows

/-- A message, or a test or keyword below which all keywords have been loaded. -/
inductive Lit (s : Session) : NodeId → Prop
  | message (number : Nat) : Lit s (.message number)
  | branch {r : Route} {p : Plain} (hp : s.source.node? r = .ok (some p)) (small : p.kind ≠ .suite)
    (whole : s.Whole r) : Lit s (.branch r)

theorem shows_keywords {r : Route} (whole : s.Whole r) :
    s.Shows (childList r .keyword) fun ids => ∀ id ∈ ids, s.Lit id := by
  intro t ht e ids t' run
  cases whole with
  | @node _ p items table hp hi listed below =>
    have hp' : t.source.node? r = .ok (some p) := e.source ▸ hp
    have hi' : t.source.items? p .keyword = some (items, table) := e.source ▸ hi
    obtain ⟨u, result, run', lists⟩ := childList_lists (b := .keyword) ht hp' hi' (e.listed listed)
    cases run.symm.trans run'
    obtain ⟨rfl, registered⟩ := lists.all ids rfl
    have e' := e.trans lists.explores
    refine ⟨lists.consistent, e', fun id mem => ?_⟩
    obtain ⟨n, hn⟩ := Option.isSome_iff_exists.1 (registered id mem)
    obtain ⟨i, inside, rfl⟩ := List.mem_map.1 mem
    obtain ⟨c, hc, -⟩ := lists.consistent.follows _ n hn
    rw [e'.source] at hc
    refine .branch hc ?_ (below i (List.mem_range.1 inside))
    rw [Source.node?_child_of hp] at hc
    obtain ⟨raw, table', -, read⟩ := Source.child?_eq_some.1 hc
    obtain ⟨record, -, rfl⟩ := Source.readKeyword_eq_ok.1 read
    simp [Plain.kind]

theorem shows_typedList {r : Route} (whole : s.Whole r) :
    s.Shows (typedList (.branch r) .keyword) fun found =>
      ∃ ids, found = some ids ∧ ∀ id ∈ ids, s.Lit id := by
  refine shows_bind shows_get fun t here => ?_
  obtain ⟨l, hl⟩ := Option.isSome_iff_exists.1 (here.2.listed whole.listed)
  rw [hl]
  exact shows_bind (shows_keywords whole) fun ids lit => shows_pure ⟨ids, rfl, lit⟩

theorem shows_messages (r : Route) : s.Shows (childList r .message) fun ids => ∀ id ∈ ids, s.Lit id := by
  intro t ht e ids t' run
  have kept := keeps_childList r .message t ht
  rw [run] at kept
  refine ⟨kept.1, e.trans kept.2, fun id mem => ?_⟩
  obtain ⟨i, number, rfl⟩ := childList_placed ht run id mem
  exact .message number

/-- A node that was found before is no suite if the source has none there. -/
theorem Lit.cases (lit : s.Lit id) {t : Session} (ht : t.Consistent) (e : s.Explores t) {n : Node}
    (hn : t.node? id = some n) :
    (∃ number m, id = .message number ∧ n = .message m) ∨
    ∃ r, id = .branch r ∧ s.Whole r ∧ ((∃ test, n = .test test) ∨ ∃ k, n = .keyword k) := by
  cases lit with
  | message number =>
    obtain ⟨m, rfl⟩ := ht.logged number n hn
    exact .inl ⟨number, m, rfl, rfl⟩
  | @branch r p hp small whole =>
    obtain ⟨q, hq, hf⟩ := ht.follows r n hn
    rw [e.source] at hq
    cases hp.symm.trans hq
    have plain := hf.plain
    refine .inr ⟨r, rfl, whole, ?_⟩
    cases n with
    | suite su => cases plain; exact absurd rfl small
    | test test => exact .inl ⟨test, rfl⟩
    | keyword k => exact .inr ⟨k, rfl⟩
    | message m => cases plain

theorem shows_children (lit : s.Lit id) :
    s.Shows (children id) fun found => ∃ ids, found = some ids ∧ ∀ id ∈ ids, s.Lit id := by
  have nothing : s.Shows (pure (some []) : Run (Option (List NodeId))) fun found =>
      ∃ ids, found = some ids ∧ ∀ id ∈ ids, s.Lit id :=
    shows_pure ⟨[], rfl, fun id mem => by cases mem⟩
  refine shows_bind shows_get fun t here => ?_
  obtain ⟨ht, e⟩ := here
  cases hn : t.node? id with
  | none => cases id <;> exact nothing
  | some n =>
    rcases lit.cases ht e hn with ⟨number, m, rfl, rfl⟩ | ⟨r, rfl, whole, ⟨test, rfl⟩ | ⟨k, rfl⟩⟩
    · exact nothing
    · exact shows_typedList whole
    · refine shows_bind (shows_typedList whole) fun found hfound => ?_
      obtain ⟨keywords, rfl, lit⟩ := hfound
      refine shows_bind (shows_messages r) fun messages hmessages => shows_pure ⟨_, rfl, ?_⟩
      intro id mem
      exact (List.mem_append.1 mem).elim (lit id) (hmessages id)

/-! ## What is gathered -/

theorem shows_summaryFrom (depth : Nat) (lit : s.Lit id) :
    s.Shows (summaryFrom depth id) fun trees => ∀ tree ∈ trees, tree.Complete := by
  induction depth generalizing id with
  | zero => exact shows_pure fun tree mem => by cases mem
  | succ depth ih =>
    refine shows_after keeps_get fun t => ?_
    cases t.node? id with
    | none => exact shows_pure fun tree mem => by cases mem
    | some n =>
      refine shows_bind (shows_children lit) fun found hfound => ?_
      obtain ⟨ids, rfl, all⟩ := hfound
      refine shows_bind (P := fun below => ∃ trees, below = some trees ∧
        ∀ tree ∈ trees, tree.Complete) ?_ fun below hbelow => ?_
      · exact shows_bind (shows_flatRun (fun id lit => ih lit) all) fun trees complete =>
          shows_pure ⟨trees, rfl, complete⟩
      · obtain ⟨trees, rfl, complete⟩ := hbelow
        refine shows_after keeps_get fun u => ?_
        cases u.node? id with
        | none => exact shows_pure fun tree mem => by cases mem
        | some n =>
          refine shows_pure fun tree mem => ?_
          cases List.mem_singleton.1 mem
          exact .node complete

/-- What is gathered of a keyword after its documentation. -/
theorem shows_gathered {r : Route} (whole : s.Whole r) (k : Keyword) (doc : String)
    {f : NodeId → Run (List KeywordTree)}
    (hf : ∀ id, s.Lit id → s.Shows (f id) fun trees => ∀ tree ∈ trees, tree.Complete) :
    s.Shows (do
      let below ← match ← typedList (.branch r) .keyword with
        | none => pure none
        | some ids => some <$> flatRun f ids
      let messages ← childList r .message
      return [.keyword k doc below ((← get).messages messages)] : Run (List KeywordTree))
      fun trees => ∀ tree ∈ trees, tree.Complete := by
  refine shows_bind (shows_typedList whole) fun found hfound => ?_
  obtain ⟨ids, rfl, all⟩ := hfound
  refine shows_bind (P := fun below => ∃ trees, below = some trees ∧
    ∀ tree ∈ trees, tree.Complete) ?_ fun below hbelow => ?_
  · exact shows_bind (shows_flatRun hf all) fun trees complete => shows_pure ⟨trees, rfl, complete⟩
  · obtain ⟨trees, rfl, complete⟩ := hbelow
    refine shows_after (keeps_childList r _) fun ids => shows_after keeps_get fun u =>
      shows_pure fun tree mem => ?_
    cases List.mem_singleton.1 mem
    exact .keyword complete

theorem shows_keywordTree (withDoc : Bool) (depth : Nat) (lit : s.Lit id) :
    s.Shows (keywordTree withDoc depth id) fun trees => ∀ tree ∈ trees, tree.Complete := by
  induction depth generalizing id with
  | zero => exact shows_pure fun tree mem => by cases mem
  | succ depth ih =>
    have nothing : s.Shows (pure [] : Run (List KeywordTree)) fun trees =>
        ∀ tree ∈ trees, tree.Complete := shows_pure fun tree mem => by cases mem
    refine shows_bind shows_get fun t here => ?_
    obtain ⟨ht, e⟩ := here
    cases hn : t.node? id with
    | none => cases id <;> exact nothing
    | some n =>
      rcases lit.cases ht e hn with ⟨number, m, rfl, rfl⟩ | ⟨r, rfl, whole, ⟨test, rfl⟩ | ⟨k, rfl⟩⟩
      · exact nothing
      · exact nothing
      · have gathers := fun doc => shows_gathered whole k doc fun _ lit => ih lit
        cases withDoc with
        | true => exact shows_after (keeps_doc _) gathers
        | false => exact gathers ""

theorem shows_keywordTrees (verbose : Bool) {ids : List NodeId} (all : ∀ id ∈ ids, s.Lit id) :
    s.Shows (keywordTrees verbose ids) fun trees => ∀ tree ∈ trees, tree.Complete :=
  shows_after keeps_get fun _ => shows_flatRun (fun _ lit => shows_keywordTree verbose _ lit) all

/-- What is shown of a test or keyword below which all keywords have been loaded. -/
theorem shows_nodeView (o : Render.ConsoleOptions) {r : Route} {n : Node} (lit : s.Lit (.branch r))
    (whole : s.Whole r) (small : n.kind = .test ∨ n.kind = .keyword) :
    s.Shows (nodeView o (.branch r) n) fun v => ∃ view, v = some view ∧ view.Complete := by
  cases n with
  | suite su => rcases small with h | h <;> cases h
  | message m => rcases small with h | h <;> cases h
  | test t =>
    refine shows_after (keeps_doc _) fun doc => shows_after (keeps_statusMessage _) fun message => ?_
    refine shows_bind (shows_typedList whole) fun found hfound => ?_
    obtain ⟨ids, rfl, all⟩ := hfound
    exact shows_bind (shows_keywordTrees _ all) fun trees complete =>
      shows_pure ⟨_, rfl, .test complete⟩
  | keyword k =>
    have one : ∀ id ∈ [NodeId.branch r], s.Lit id := fun id mem => List.mem_singleton.1 mem ▸ lit
    exact shows_bind (shows_keywordTrees _ one) fun trees complete =>
      shows_pure ⟨_, rfl, .keyword complete⟩

/-- The text about a test or keyword below which all keywords have been loaded has no line about
missing keywords. -/
theorem consoleNode_unremarked (h : s.Consistent) {r : Route} {n : Node} (hn : s.branch? r = some n)
    (lit : s.Lit (.branch r)) (whole : s.Whole r) (small : n.kind = .test ∨ n.kind = .keyword)
    {o : Render.ConsoleOptions} {chain : List String} {text : String}
    (run : (consoleNode o chain (.branch r)).run s = (.ok text, s')) :
    ∃ view, (nodeView o (.branch r) n).run s = (.ok (some view), s') ∧
      text = Render.paint o.colors (Render.Console.node o chain view) ∧
      Render.Unremarked (Render.Console.node o chain view) := by
  have hn' : s.node? (.branch r) = some n := hn
  simp only [consoleNode, run_bind (x := get), run_get, hn'] at run
  obtain ⟨found, t, viewed, done⟩ := run_bind_eq_ok.1 run
  obtain ⟨-, -, view, rfl, complete⟩ := shows_nodeView o lit whole small s h (.refl s) found t viewed
  cases done
  exact ⟨view, viewed, rfl, Render.Console.unremarked_node o chain complete⟩

/-- A node that is registered is summed up. -/
theorem shows_node (registered : (s.node? id).isSome) (below : Option (List Summary)) :
    s.Shows (do
      match (← get).node? id with
      | none => return []
      | some n => return [.node id n below] : Run (List Summary)) fun trees =>
        ∃ tree, trees = [tree] := by
  refine shows_bind shows_get fun t here => ?_
  obtain ⟨n, hn⟩ := Option.isSome_iff_exists.1 (here.2.extends.isSome registered)
  rw [hn]
  exact shows_pure ⟨_, rfl⟩

theorem shows_summary (depth : Nat) (registered : (s.node? id).isSome) :
    s.Shows (summaryFrom (depth + 1) id) fun trees => ∃ tree, trees = [tree] := by
  refine shows_bind shows_get fun t here => ?_
  obtain ⟨n, hn⟩ := Option.isSome_iff_exists.1 (here.2.extends.isSome registered)
  rw [hn]
  refine shows_after (keeps_children id) fun found => ?_
  cases found with
  | none => exact shows_after (keeps_pure _) (shows_node registered)
  | some ids =>
    exact shows_after (keeps_map _ (keeps_flatRun (keeps_summaryFrom depth) ids))
      (shows_node registered)

/-- The data of a test or keyword below which all keywords have been loaded have children at every
node. -/
theorem dataNode_listsChildren (h : s.Consistent) (registered : (s.node? id).isSome)
    (lit : s.Lit id) {pretty : Bool} {chain : List String} {text : String}
    (run : (dataNode pretty chain id).run s = (.ok text, s')) :
    ∃ tree, (summaryFrom s.depthBound id).run s = (.ok [tree], s') ∧
      text = (Render.Data.node chain [tree]).text pretty ∧
      Render.Data.ListsChildren (Render.Data.summary tree) := by
  simp only [dataNode, run_bind (x := get), run_get] at run
  obtain ⟨trees, t, gathered, done⟩ := run_bind_eq_ok.1 run
  cases done
  obtain ⟨-, -, complete⟩ := shows_summaryFrom _ lit s h (.refl s) trees s' gathered
  obtain ⟨depth, deep⟩ := Nat.exists_eq_succ_of_ne_zero (n := s.depthBound) (by simp [depthBound])
  have gathered' := gathered
  rw [deep] at gathered'
  obtain ⟨-, -, tree, rfl⟩ := shows_summary depth registered s h (.refl s) trees s' gathered'
  exact ⟨tree, gathered, rfl, Render.Data.summary_listsChildren (complete tree (by simp))⟩

/-! ## After loading -/

/-- A session in which every request was served, and a node of it. When all keywords below the node
have been loaded without a failure, from whichever directory, nothing is asked for and nobody waits
any longer. Every keyword that is reached from the node through keywords is registered and has its
keywords in place, and so has the node; no other files could bring further ones. So the text about a
test or keyword has no line about missing keywords, and its data have children at every node. -/
theorem preload_loads_all (attended : s.Attended) {disk : Disk Id} {dir : Path} {fuel : Nat}
    (registered : (s.node? id).isSome)
    (run : (preloadFrom disk dir fuel [id]).run s = (.ok (), s')) :
    s'.loader.queue = [] ∧ s'.loader.pendingFiles = [] ∧ s'.loader.parked = [] ∧
    ∀ r, id = .branch r →
      (∀ (lib : Source) (steps : List Segment), s'.source.Within lib →
        (∀ step ∈ steps, step.branch = .keyword) → lib.Contains (r.append steps) →
        ∃ n, s'.branch? (r.append steps) = some n ∧ n.isLoaded = true) ∧
      ∃ n, s'.branch? r = some n ∧ (n.kind = .test ∨ n.kind = .keyword →
        (∀ o chain text t, (consoleNode o chain (.branch r)).run s' = (.ok text, t) →
          ∃ view, (nodeView o (.branch r) n).run s' = (.ok (some view), t) ∧
            text = Render.paint o.colors (Render.Console.node o chain view) ∧
            ∀ file, Render.Console.dimmed ("keywords not loaded (" ++ file ++ ")") ∉
              Render.Console.node o chain view) ∧
        ∀ pretty chain text t, (dataNode pretty chain (.branch r)).run s' = (.ok text, t) →
          ∃ tree, (summaryFrom s'.depthBound (.branch r)).run s' = (.ok [tree], t) ∧
            text = (Render.Data.node chain [tree]).text pretty ∧
            Render.Data.ListsChildren (Render.Data.summary tree)) := by
  obtain ⟨h, queued⟩ := attended.queued
  have known : ∀ id' ∈ [id], (s.node? id').isSome := fun id' mem =>
    List.mem_singleton.1 mem ▸ registered
  obtain ⟨h', e, -, -, served, all⟩ := preloadFrom_whole h queued known run
  obtain ⟨idle, nobody, nothing⟩ := served (.inr (by simp))
  refine ⟨idle, nothing, nobody, ?_⟩
  rintro r rfl
  have whole := all r (by simp)
  obtain ⟨n, p, hn, hp, hf, -⟩ := whole.isLoaded h'
  refine ⟨fun lib steps le keywords there => ?_, n, hn, fun small => ?_⟩
  · obtain ⟨n', -, hn', -, -, loaded⟩ := (whole.reaches le keywords there).isLoaded h'
    exact ⟨n', hn', loaded⟩
  · have lit : s'.Lit (.branch r) := by
      refine .branch hp ?_ whole
      have plain := hf.plain
      cases n with
      | suite su => rcases small with same | same <;> cases same
      | test t => cases plain; simp [Plain.kind]
      | keyword k => cases plain; simp [Plain.kind]
      | message m => cases plain
    refine ⟨fun o chain text t shown => ?_, fun pretty chain text t shown => ?_⟩
    · obtain ⟨view, viewed, eq, unremarked⟩ := consoleNode_unremarked h' hn lit whole small shown
      exact ⟨view, viewed, eq, unremarked.not_mem⟩
    · exact dataNode_listsChildren h' (e.isSome registered) lit shown

/-- The keyword of the sample and the one in its file are loaded. -/
theorem preload_loads_all_sample : ∃ s s' : Session, s.Attended ∧
    (s.node? (.branch (.child .root ⟨.keyword, 0⟩))).isSome ∧
    (preloadFrom sampleTree.disk ⟨"."⟩ 5 [.branch (.child .root ⟨.keyword, 0⟩)]).run s =
      (.ok (), s') ∧
    s'.loader.queue = [] ∧ s'.loader.pendingFiles = [] ∧
    ∃ n, s'.branch? deepRoute = some n ∧ n.isLoaded = true := by
  obtain ⟨s, s', attended, registered, loaded, deep⟩ := sample_loads
  obtain ⟨idle, nothing, -, below⟩ := preload_loads_all attended registered loaded
  obtain ⟨n, hn⟩ := Option.isSome_iff_exists.1 deep
  have h' := (Attended.preloaded attended loaded fun e he => by cases he).queued.1
  obtain ⟨p, hp, -⟩ := h'.follows _ n hn
  exact ⟨s, s', attended, registered, loaded, idle, nothing,
    (below _ rfl).1 s'.source [⟨.keyword, 0⟩] (.refl _) (by simp) ⟨p, hp⟩⟩

end Session

end RunReport
