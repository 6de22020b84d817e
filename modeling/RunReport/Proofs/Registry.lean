import RunReport.Proofs.Caching
import RunReport.Proofs.Loading
import RunReport.Proofs.Source
import RunReport.Session.Basic
/-!
# The parts of a session

What reading and changing the parts of a session does to its other parts: the nodes by their ids, the
lists of children, the string tables and the states of the split files.
-/

namespace RunReport

/-! ## Nodes -/

namespace Node

/-- The node apart from what was made of its children; a message has no place in the tree. -/
def plain? : Node → Option Plain
  | .suite s => some (.suite s.record s.fullName s.aboveFailed s.table)
  | .test t => some (.test t.record t.fullName t.aboveFailed t.table)
  | .keyword k => some (.keyword k.record k.path k.table)
  | .message _ => none

def splitFile? (n : Node) : Option String :=
  n.keywords?.bind (·.splitFile)

theorem doc?_of_plain {n : Node} {p : Plain} (h : n.plain? = some p) :
    n.doc? = some (p.table, p.doc) := by
  cases n <;> cases h <;> rfl

theorem message?_of_plain {n : Node} {p : Plain} (h : n.plain? = some p) :
    n.message? = p.message?.map fun m => (p.table, m.1, m.2) := by
  cases n <;> cases h <;> rfl

/-- A message has no documentation. -/
theorem doc?_of_message {n : Node} (h : n.plain? = none) : n.doc? = none := by
  cases n <;> first | rfl | cases h

theorem plain_of_message? {n : Node} {m : TableRef × Option Raw × Bool} (h : n.message? = some m) :
    ∃ p slot aboveFailed, n.plain? = some p ∧ p.message? = some (slot, aboveFailed) := by
  cases n with
  | suite s => exact ⟨_, _, _, rfl, rfl⟩
  | test t => exact ⟨_, _, _, rfl, rfl⟩
  | keyword k => cases h
  | message m => cases h

theorem plain?_updateList (f : ChildList → ChildList) (n : Node) (kind : NodeKind) :
    (n.updateList f kind).plain? = n.plain? := by
  cases n <;> cases kind <;> rfl

theorem splitFile?_updateList (f : ChildList → ChildList) (n : Node) (kind : NodeKind) :
    (n.updateList f kind).splitFile? = n.splitFile? := by
  cases n <;> cases kind <;> rfl

theorem list?_updateList (f : ChildList → ChildList) (n : Node) (kind : NodeKind) :
    (n.updateList f kind).list? kind = (n.list? kind).map f := by
  cases n <;> cases kind <;> rfl

theorem list?_updateList_other (f : ChildList → ChildList) (n : Node) {kind kind' : NodeKind}
    (h : kind' ≠ kind) : (n.updateList f kind).list? kind' = n.list? kind' := by
  cases n <;> cases kind <;> cases kind' <;> first | rfl | exact absurd rfl h

/-- Changing nothing in a list changes nothing. -/
theorem updateList_same {f : ChildList → ChildList} {n : Node} {kind : NodeKind}
    (same : ∀ l, n.list? kind = some l → f l = l) : n.updateList f kind = n := by
  have loaded : ∀ k : Keywords, (∀ l, k.list = some l → f l = l) →
      { k with list := k.list.map f } = k := by
    rintro ⟨splitFile, _ | l⟩ same
    · rfl
    · rw [Option.map_some, same l rfl]
  cases n with
  | suite s => cases kind <;> first | rfl | rw [updateList, same _ rfl]
  | test t =>
    cases kind with
    | keyword => exact congrArg (fun ks => test { t with keywords := ks }) (loaded _ same)
    | _ => rfl
  | keyword k =>
    cases kind with
    | keyword => exact congrArg (fun ks => keyword { k with keywords := ks }) (loaded _ same)
    | message => rw [updateList, same _ rfl]
    | _ => rfl
  | message m => rfl

variable (items : List Raw) (table : TableRef) (n : Node)

theorem plain?_install : (n.install items table).plain? = n.plain? := by
  cases n <;> rfl

theorem splitFile?_install : (n.install items table).splitFile? = n.splitFile? := by
  cases n <;> rfl

theorem list?_install_other {kind : NodeKind} (h : kind ≠ .keyword) :
    (n.install items table).list? kind = n.list? kind := by
  cases n <;> cases kind <;> first | rfl | exact absurd rfl h

theorem list?_install (h : n.keywords?.isSome) :
    (n.install items table).list? .keyword =
      some ((n.list? .keyword).getD (.ofItems items table)) := by
  cases n with
  | suite s => cases h
  | test t => rfl
  | keyword k => rfl
  | message m => cases h

end Node

/-! ## Sessions -/

namespace Session

variable (s : Session)

/-- The report a session is about, with the files that have arrived. -/
def source : Source :=
  ⟨s.coding, s.suite, s.strings.entries, s.loader.payload?⟩

theorem node?_insertNode (id id' : NodeId) (n : Node) :
    (insertNode id n s).node? id' = (s.node? id').or (if id' = id then some n else none) := by
  simp only [node?, insertNode]
  induction s.nodes with
  | nil =>
    by_cases h : id' = id
    · simp [h]
    · simp [h, List.lookup_cons, beq_eq_false_iff_ne.2 h]
  | cons entry rest ih =>
    obtain ⟨i, m⟩ := entry
    by_cases h : id' = i
    · simp [h]
    · simpa only [List.cons_append, List.lookup_cons, beq_eq_false_iff_ne.2 h] using ih

theorem node?_updateNode (id id' : NodeId) (f : Node → Node) :
    (updateNode id f s).node? id' = if id' = id then (s.node? id').map f else s.node? id' := by
  simp only [node?, updateNode]
  induction s.nodes with
  | nil => simp [updateIn]
  | cons entry rest ih =>
    obtain ⟨i, m⟩ := entry
    by_cases hi : i = id
    · subst hi
      by_cases h : id' = i
      · simp [updateIn, h]
      · simp [updateIn, h, List.lookup_cons, beq_eq_false_iff_ne.2 h]
    · by_cases h : id' = i
      · subst h
        simp [updateIn, hi]
      · simpa only [updateIn, if_neg hi, List.lookup_cons, beq_eq_false_iff_ne.2 h] using ih

theorem keys_updateNode (id : NodeId) (f : Node → Node) :
    (updateNode id f s).nodes.map Prod.fst = s.nodes.map Prod.fst := by
  simp only [updateNode]
  induction s.nodes with
  | nil => rfl
  | cons entry rest ih =>
    obtain ⟨i, m⟩ := entry
    by_cases hi : i = id
    · simp [updateIn, hi]
    · simp [updateIn, hi, ih]

theorem mem_keys_iff (id : NodeId) : id ∈ s.nodes.map Prod.fst ↔ (s.node? id).isSome := by
  simp only [node?]
  induction s.nodes with
  | nil => simp
  | cons entry rest ih =>
    obtain ⟨i, m⟩ := entry
    by_cases h : id = i
    · simp [h]
    · simp only [List.map_cons, List.mem_cons, h, false_or, List.lookup_cons,
        beq_eq_false_iff_ne.2 h, ih]

theorem list?_eq_some {owner : Route} {kind : NodeKind} {l : ChildList} :
    s.list? owner kind = some l ↔ ∃ n, s.branch? owner = some n ∧ n.list? kind = some l := by
  simp [list?, Option.bind_eq_some_iff]

theorem list?_of_branch {owner : Route} {n : Node} (h : s.branch? owner = some n)
    (kind : NodeKind) : s.list? owner kind = n.list? kind := by
  simp [list?, h]

/-- Changing a list changes no other list. -/
theorem list?_update (owner owner' : Route) (kind kind' : NodeKind)
    (f : LazyList NodeId → LazyList NodeId) :
    ((made owner kind).update f s).list? owner' kind' =
      if owner' = owner ∧ kind' = kind then
        (s.list? owner kind).map fun l => { l with made := f l.made }
      else s.list? owner' kind' := by
  simp only [made, list?, branch?, node?_updateNode, NodeId.branch.injEq]
  by_cases ho : owner' = owner
  · subst ho
    by_cases hk : kind' = kind
    · subst hk
      cases s.node? (.branch owner') <;> simp [Node.list?_updateList]
    · cases s.node? (.branch owner') <;> simp [hk, Node.list?_updateList_other]
  · simp [ho]

theorem node?_update (owner : Route) (kind : NodeKind) (f : LazyList NodeId → LazyList NodeId)
    (id : NodeId) :
    ((made owner kind).update f s).node? id =
      if id = .branch owner then
        (s.node? id).map fun n => n.updateList (fun l => { l with made := f l.made }) kind
      else s.node? id :=
  node?_updateNode s ..

theorem tableOf_setTable (ref ref' : TableRef) (t : StringTable) :
    (setTable ref t s).tableOf ref' = s.tableOf ref' ∨
      ref' = ref ∧ (setTable ref t s).tableOf ref' = t := by
  cases ref with
  | main =>
    cases ref' with
    | main => exact .inr ⟨rfl, rfl⟩
    | split file => exact .inl rfl
  | split file =>
    cases ref' with
    | main => exact .inl rfl
    | split file' =>
      simp only [setTable, tableOf]
      by_cases h : file' = file
      · subst h
        induction s.splitStrings with
        | nil => exact .inl rfl
        | cons entry rest ih =>
          obtain ⟨name, table⟩ := entry
          by_cases hf : name = file'
          · exact .inr ⟨rfl, by simp [hf]⟩
          · have hb : (file' == name) = false := beq_eq_false_iff_ne.2 (Ne.symm hf)
            simpa [hf, List.lookup_cons, hb] using ih
      · refine .inl ?_
        induction s.splitStrings with
        | nil => rfl
        | cons entry rest ih =>
          obtain ⟨name, table⟩ := entry
          by_cases hf : name = file
          · subst hf
            simpa [List.lookup_cons, beq_eq_false_iff_ne.2 h] using ih
          · by_cases hn : file' = name
            · subst hn
              simp [hf]
            · simpa [hf, List.lookup_cons, beq_eq_false_iff_ne.2 hn] using ih

/-- The first text that is kept stays. -/
theorem text?_keepText (id id' : NodeId) (part part' : TextPart) (text : String) :
    (keepText id part text s).text? id' part' =
      (s.text? id' part').or (if id' = id ∧ part' = part then some text else none) := by
  simp only [text?, keepText, List.lookup_append]
  congr 1
  by_cases same : id' = id ∧ part' = part
  · obtain ⟨rfl, rfl⟩ := same
    simp
  · have other : ((id', part') == (id, part)) = false := by
      simpa using same
    rw [if_neg same, List.lookup_cons, other]
    rfl

theorem setTable_frame (ref : TableRef) (t : StringTable) :
    ∃ strings splitStrings, setTable ref t s = { s with strings, splitStrings } := by
  cases ref with
  | main => exact ⟨t, s.splitStrings, rfl⟩
  | split file => exact ⟨s.strings, _, rfl⟩

end Session

end RunReport
