import RunReport.Proofs.Reading
import RunReport.Proofs.Translation
/-!
# Reading a translated report

A session that reads a suite record of the first version and one that reads its translation make the
same nodes in step: from each session there is a translated one, and what the first makes the second
makes too, ending in the translated session again.
-/

namespace RunReport

open Effects

/-! ## Translated sessions -/

/-- What the children of a kind are. -/
def NodeKind.part : NodeKind → Part
  | .suite => .record .suite
  | .test => .record .test
  | .keyword => .record .keyword
  | .message => .message

def ChildList.translate (part : Part) (l : ChildList) : ChildList :=
  { l with items := translateAll part l.items }

def Keywords.translate (k : Keywords) : Keywords :=
  { k with list := k.list.map (·.translate (.record .keyword)) }

def Suite.translate (su : Suite) : Suite :=
  { su with record := su.record.translate
            suites := su.suites.translate (.record .suite)
            tests := su.tests.translate (.record .test)
            keywords := su.keywords.translate (.record .keyword) }

def Test.translate (t : Test) : Test :=
  { t with record := t.record.translate, keywords := t.keywords.translate }

def Keyword.translate (k : Keyword) : Keyword :=
  { k with record := k.record.translate
           keywords := k.keywords.translate
           messages := k.messages.translate .message }

/-- The node with the records of its children translated. -/
def Node.translate : Node → Node
  | .suite su => .suite su.translate
  | .test t => .test t.translate
  | .keyword k => .keyword k.translate
  | .message m => .message m

namespace Node

theorem list?_translate (n : Node) (kind : NodeKind) :
    n.translate.list? kind = (n.list? kind).map (·.translate kind.part) := by
  cases n <;> cases kind <;> rfl

theorem updateList_translate (f : LazyList NodeId → LazyList NodeId) (n : Node) (kind : NodeKind) :
    (n.updateList (fun l => { l with made := f l.made }) kind).translate =
      n.translate.updateList (fun l => { l with made := f l.made }) kind := by
  have keywords : ∀ k : Keywords,
      Keywords.translate { k with list := k.list.map fun l => { l with made := f l.made } } =
        { k.translate with list := k.translate.list.map fun l => { l with made := f l.made } } := by
    rintro ⟨file, _ | l⟩ <;> rfl
  cases n <;> cases kind <;>
    first | rfl | simp only [updateList, translate, Test.translate, Keyword.translate, keywords]

end Node

theorem ChildList.translate_ofItems (part : Part) (us : List Raw) (table : TableRef) :
    (ChildList.ofItems us table).translate part = .ofItems (translateAll part us) table := by
  simp only [ChildList.ofItems, ChildList.translate, translateAll, List.length_map]

theorem Keywords.translate_ofSource (k : KeywordSource) (table : TableRef) :
    (Keywords.ofSource k table).translate = .ofSource k.translate table := by
  cases k with
  | inline us =>
    simp only [ofSource, translate, KeywordSource.translate, Option.map_some,
      ChildList.translate_ofItems]
  | split file => rfl

namespace Session

/-- The session of the translated suite, with the nodes made so far. -/
def translate (s : Session) : Session :=
  { s with coding := s.coding.indexed
           suite := s.suite.translate (.record .suite)
           nodes := s.nodes.map fun x => (x.1, x.2.translate) }

variable {s : Session}

theorem node?_translate (id : NodeId) : s.translate.node? id = (s.node? id).map Node.translate := by
  simp only [node?, translate]
  induction s.nodes with
  | nil => rfl
  | cons x rest ih =>
    obtain ⟨i, n⟩ := x
    simp only [List.map_cons, List.lookup_cons]
    cases id == i with
    | true => rfl
    | false => exact ih

theorem branch?_translate (r : Route) : s.translate.branch? r = (s.branch? r).map Node.translate :=
  node?_translate _

theorem list?_translate (owner : Route) (kind : NodeKind) :
    s.translate.list? owner kind = (s.list? owner kind).map (·.translate kind.part) := by
  simp only [list?, branch?_translate]
  cases s.branch? owner with
  | none => rfl
  | some n => exact n.list?_translate kind

theorem translate_insertNode (id : NodeId) (n : Node) (s : Session) :
    (insertNode id n s).translate = insertNode id n.translate s.translate := by
  simp [insertNode, translate]

theorem translate_updateNode {id : NodeId} {f f' : Node → Node}
    (h : ∀ n, (f n).translate = f' n.translate) (s : Session) :
    (updateNode id f s).translate = updateNode id f' s.translate := by
  have nodes : ∀ ns : List (NodeId × Node), (updateIn id f ns).map (fun x => (x.1, x.2.translate)) =
      updateIn id f' (ns.map fun x => (x.1, x.2.translate)) := by
    intro ns
    induction ns with
    | nil => rfl
    | cons x rest ih =>
      simp only [updateIn, List.map_cons]
      split <;> simp only [List.map_cons, h, ih]
  simp only [updateNode, translate, nodes]

theorem view_translate (owner : Route) (kind : NodeKind) :
    (made owner kind).view s.translate = (made owner kind).view s := by
  simp only [made, list?_translate]
  cases s.list? owner kind <;> rfl

theorem update_translate (owner : Route) (kind : NodeKind) (f : LazyList NodeId → LazyList NodeId)
    (s : Session) :
    ((made owner kind).update f s).translate = (made owner kind).update f s.translate :=
  translate_updateNode (fun n => n.updateList_translate f kind) s

theorem translate_setTable (ref : TableRef) (t : StringTable) (s : Session) :
    (s.setTable ref t).translate = s.translate.setTable ref t := by
  cases ref <;> rfl

/-! ## Reading in step -/

/-- What a session of the first version finds, its translation finds too. -/
abbrev Gives {α β : Type} (f : α → β) (x : Run α) (y : Run β) : Prop :=
  Transports (fun s => s.coding.version = .lettered) translate f x y

theorem gives_get {α β : Type} {f : α → β} {k l : Session → Run _}
    (h : ∀ s : Session, s.coding.version = .lettered → Gives f (k s) (l s.translate)) :
    Gives f (get >>= k) (get >>= l) := by
  intro s a t lettered run
  exact h s lettered s a t lettered run

theorem gives_modify {m m' : Session → Session}
    (h : ∀ s, (m s).coding = s.coding ∧ (m s).translate = m' s.translate) :
    Gives id (modify m) (modify m') := by
  rintro s _ _ lettered ⟨⟩
  obtain ⟨coding, same⟩ := h s
  refine ⟨(congrArg Coding.version coding).trans lettered, ?_⟩
  rw [run_modify, ← same, id_eq]

theorem withTable_eq {α : Type} (ref : TableRef) (x : Lookup α) (s : Session) :
    (withTable ref x).run s =
      ((x.run (s.tableOf ref)).1, s.setTable ref (x.run (s.tableOf ref)).2) := rfl

theorem coding_setTable (ref : TableRef) (t : StringTable) (s : Session) :
    (s.setTable ref t).coding = s.coding := by
  cases ref <;> rfl

theorem tableOf_translate (ref : TableRef) (s : Session) :
    s.translate.tableOf ref = s.tableOf ref := by
  cases ref <;> rfl

theorem gives_withTable {α β : Type} {f : α → β} (ref : TableRef) {x : Lookup α} {y : Lookup β}
    (h : Lookup.Gives f x y) : Gives f (withTable ref x) (withTable ref y) := by
  intro s a t lettered run
  rw [withTable_eq] at run ⊢
  rcases hx : x.run (s.tableOf ref) with ⟨r, table⟩
  rw [hx] at run
  cases run
  obtain ⟨-, hy⟩ := h _ a table trivial hx
  rw [tableOf_translate, show y.run (s.tableOf ref) = _ from hy]
  refine ⟨(congrArg Coding.version (coding_setTable ref table s)).trans lettered, ?_⟩
  exact congrArg (Prod.mk _) (translate_setTable ref table s).symm

theorem gives_checkOpen : Gives id checkOpen checkOpen := by
  refine gives_get fun s _ => ?_
  rw [show s.translate.isOpen = s.isOpen from rfl]
  split
  · exact transports_throw
  · exact transports_pure rfl

theorem gives_exists? (node : NodeId) : Gives id (exists? node) (exists? node) := by
  refine gives_get fun s _ => transports_pure ?_
  rw [node?_translate]
  cases s.node? node <;> rfl

/-- A node is registered and its id given. -/
theorem gives_register {node : NodeId} {n n' : Node} (same : n' = n.translate) :
    Gives id (do modify (insertNode node n); return node)
      (do modify (insertNode node n'); return node) := by
  refine transports_bind (gives_modify fun s => ?_) fun _ => transports_pure rfl
  rw [same]
  exact ⟨rfl, translate_insertNode node n s⟩

theorem pathBase_translate (n : Node) : n.translate.pathBase = n.pathBase := by
  cases n <;> rfl

/-- What is made only if it is not there yet. -/
theorem gives_unlessMade {node : NodeId} {x y : Run NodeId} (h : Gives id x y) :
    Gives id (do checkOpen; if ← exists? node then return node else x)
      (do checkOpen; if ← exists? node then return node else y) := by
  refine transports_bind gives_checkOpen fun _ => ?_
  refine transports_bind (gives_exists? _) fun found => ?_
  rw [id_eq]
  split
  · exact transports_pure rfl
  · exact h

theorem gives_decodeKeyword (owner : Route) (u : Raw) (table : TableRef) (i : Nat) :
    Gives id (decodeKeyword owner u table i)
      (decodeKeyword owner (u.translate (.record .keyword)) table i) := by
  refine gives_unlessMade (gives_get fun s lettered => ?_)
  refine transports_bind (gives_withTable table (Coding.keyword_gives lettered u)) fun record => ?_
  refine gives_register ?_
  have base : ((s.translate.branch? owner).map Node.pathBase).getD "" =
      ((s.branch? owner).map Node.pathBase).getD "" := by
    rw [branch?_translate]
    cases s.branch? owner with
    | none => rfl
    | some n => exact pathBase_translate n
  simp only [base, Node.translate, Keyword.translate, Keywords.translate_ofSource,
    ChildList.translate_ofItems]
  rfl

theorem gives_decodeMessage (owner : Option Route) (u : Raw) (table : TableRef) :
    Gives id (decodeMessage owner u table) (decodeMessage owner (u.translate .message) table) := by
  refine gives_get fun s lettered => ?_
  refine transports_bind (gives_withTable table (Coding.message_gives lettered u)) fun record => ?_
  refine transports_bind gives_checkOpen fun _ => ?_
  refine gives_get fun t _ => ?_
  refine transports_bind (gives_modify fun s => ?_) fun _ => transports_pure rfl
  exact ⟨rfl, translate_insertNode _ _ { s with messageCount := t.messageCount + 1 }⟩

section Lists

variable {owner : Route} {kind : NodeKind} {create : Nat → Run NodeId}

theorem gives_length : Gives id ((made owner kind).length : Run Nat) (made owner kind).length := by
  refine transports_bind (gives_modify fun s => ⟨rfl, update_translate owner kind _ s⟩) fun _ => ?_
  refine gives_get fun s _ => transports_pure ?_
  rw [view_translate]
  rfl

theorem gives_item (h : ∀ i, Gives id (create i) (create i)) (i : Nat) :
    Gives id ((made owner kind).get create i) ((made owner kind).get create i) := by
  refine transports_bind gives_length fun n => ?_
  rw [id_eq]
  split
  · refine gives_get fun s _ => ?_
    rw [view_translate]
    split
    · exact transports_pure rfl
    · refine transports_bind (h i) fun a => ?_
      refine transports_bind (gives_modify fun s => ⟨rfl, update_translate owner kind _ s⟩)
        fun _ => ?_
      refine gives_get fun t _ => transports_pure ?_
      rw [view_translate]
      rfl
  · exact transports_pure rfl

theorem gives_gather (h : ∀ i, Gives id (create i) (create i)) :
    Gives id ((made owner kind).gather create) ((made owner kind).gather create) := by
  refine transports_bind gives_length fun n => ?_
  rw [id_eq]
  induction List.range n with
  | nil => exact transports_pure rfl
  | cons i is ih =>
    refine transports_bind (gives_item h i) fun item => ?_
    exact transports_bind ih fun rest => transports_pure rfl

theorem gives_items (h : ∀ i, Gives id (create i) (create i)) :
    Gives id ((made owner kind).items create) ((made owner kind).items create) := by
  refine gives_get fun s _ => ?_
  rw [view_translate]
  split
  · exact transports_pure rfl
  · refine transports_bind (gives_gather h) fun items => ?_
    refine transports_bind (gives_modify fun s => ⟨rfl, update_translate owner kind _ s⟩)
      fun _ => ?_
    refine gives_get fun t _ => transports_pure ?_
    rw [view_translate]
    rfl

theorem gives_last (h : ∀ i, Gives id (create i) (create i)) :
    Gives id ((made owner kind).last create) ((made owner kind).last create) := by
  refine transports_bind gives_length fun n => ?_
  rw [id_eq]
  cases n with
  | zero => exact transports_pure rfl
  | succ n => exact gives_item h n

theorem gives_createWith {decode : Route → Raw → TableRef → Nat → Run NodeId}
    (h : ∀ u table i, Gives id (decode owner u table i)
      (decode owner (u.translate kind.part) table i))
    (i : Nat) : Gives id (createWith decode owner kind i) (createWith decode owner kind i) := by
  refine gives_get fun s _ => ?_
  rw [list?_translate]
  cases s.list? owner kind with
  | none => exact transports_throw
  | some l =>
    simp only [Option.map_some, ChildList.translate, translateAll, List.getElem?_map]
    cases l.items[i]? with
    | none => exact transports_throw
    | some u => exact h u l.table i

end Lists

theorem gives_lastKeyword (owner : Route) : Gives id (lastKeyword owner) (lastKeyword owner) :=
  gives_last (gives_createWith fun u table i => gives_decodeKeyword owner u table i)

theorem isFailedTeardown_translate (n : Option Node) :
    isFailedTeardown (n.map Node.translate) = isFailedTeardown n := by
  rcases n with _ | n
  · rfl
  · cases n <;> rfl

theorem gives_hasTeardownFailure (r : Route) :
    Gives id (hasTeardownFailure r) (hasTeardownFailure r) := by
  refine gives_get fun s _ => ?_
  rw [branch?_translate]
  rcases s.branch? r with _ | n
  · exact transports_pure rfl
  · cases n with
    | suite su =>
      simp only [Option.map_some, Node.translate, Suite.translate]
      split
      · exact transports_pure rfl
      · refine transports_bind (gives_lastKeyword r) fun last => ?_
        rcases last with _ | last
        · exact transports_pure rfl
        · refine gives_get fun t _ => transports_pure ?_
          rw [node?_translate, isFailedTeardown_translate]
          rfl
    | _ => exact transports_pure rfl

theorem fullNameBelow_translate (above : Option Node) (name : String) :
    fullNameBelow (above.map Node.translate) name = fullNameBelow above name := by
  rcases above with _ | n
  · rfl
  · cases n <;> rfl

theorem gives_decodeSuiteAt (owner : Option Route) (u : Raw) (table : TableRef) (i : Nat) :
    Gives id (decodeSuiteAt owner u table i)
      (decodeSuiteAt owner (u.translate (.record .suite)) table i) := by
  refine gives_unlessMade (gives_get fun s lettered => ?_)
  refine transports_bind (gives_withTable table (Coding.suite_gives lettered u)) fun record => ?_
  cases owner with
  | none =>
    refine transports_bind (f := id) (transports_pure rfl) fun aboveFailed => ?_
    refine gives_get fun t _ => gives_register ?_
    simp only [Node.translate, Suite.translate, ChildList.translate_ofItems]
    rfl
  | some o =>
    refine transports_bind (gives_hasTeardownFailure o) fun aboveFailed => ?_
    refine gives_get fun t _ => gives_register ?_
    simp only [Option.bind_some, branch?_translate, fullNameBelow_translate, Node.translate,
      Suite.translate, ChildList.translate_ofItems]
    rfl

theorem gives_decodeTest (owner : Route) (u : Raw) (table : TableRef) (i : Nat) :
    Gives id (decodeTest owner u table i)
      (decodeTest owner (u.translate (.record .test)) table i) := by
  refine gives_unlessMade (gives_get fun s lettered => ?_)
  refine transports_bind (gives_withTable table (Coding.test_gives lettered u)) fun record => ?_
  refine transports_bind (gives_hasTeardownFailure owner) fun aboveFailed => ?_
  refine gives_get fun t _ => gives_register ?_
  simp only [branch?_translate, fullNameBelow_translate, Node.translate, Test.translate,
    Keywords.translate_ofSource]
  rfl

theorem gives_decodeChild (kind : NodeKind) (owner : Route) (u : Raw) (table : TableRef) (i : Nat) :
    Gives id (decodeChild kind owner u table i)
      (decodeChild kind owner (u.translate kind.part) table i) := by
  cases kind with
  | suite => exact gives_decodeSuiteAt (some owner) u table i
  | test => exact gives_decodeTest owner u table i
  | keyword => exact gives_decodeKeyword owner u table i
  | message => exact gives_decodeMessage (some owner) u table

theorem gives_childList (owner : Route) (kind : NodeKind) :
    Gives id (childList owner kind) (childList owner kind) :=
  gives_items (gives_createWith (gives_decodeChild kind owner))

theorem gives_typedList (node : NodeId) (kind : NodeKind) :
    Gives id (typedList node kind) (typedList node kind) := by
  cases node with
  | message number => exact transports_pure rfl
  | branch r =>
    refine gives_get fun s _ => ?_
    rw [list?_translate]
    cases s.list? r kind with
    | none => exact transports_pure rfl
    | some l => exact transports_bind (gives_childList r kind) fun ids => transports_pure rfl

theorem gives_children (node : NodeId) : Gives id (children node) (children node) := by
  refine gives_get fun s _ => ?_
  rw [node?_translate]
  cases node with
  | message number => exact transports_pure rfl
  | branch r =>
    rcases s.node? (.branch r) with _ | n
    · exact transports_pure rfl
    · cases n with
      | suite su =>
        refine transports_bind (gives_childList r .keyword) fun keywords => ?_
        refine transports_bind (gives_childList r .test) fun tests => ?_
        exact transports_bind (gives_childList r .suite) fun suites => transports_pure rfl
      | test t => exact gives_typedList _ _
      | keyword k =>
        refine transports_bind (gives_typedList _ _) fun keywords => ?_
        rcases keywords with _ | keywords
        · exact transports_pure rfl
        · exact transports_bind (gives_childList r .message) fun messages => transports_pure rfl
      | message m => exact transports_pure rfl

theorem gives_rootSuite : Gives id rootSuite rootSuite :=
  gives_get fun s _ => gives_decodeSuiteAt none s.suite .main 0

end Session

end RunReport
