import Mathlib.Logic.Relation
import RunReport.Proofs.Source
import RunReport.Session.Read
/-!
# Split files below themselves

A split file may hold keywords whose own keywords stand in a split file, which may be the same one
again. Then the tree below them has no end. In a source with finitely many files nothing else can make
the tree endless: a file is opened once on each way down, and inside of a file the records get smaller.
-/

namespace RunReport

/-! ## Records within records -/

theorem depth_le_depthOfItems {r : Raw} {rs : List Raw} (h : r ∈ rs) : r.depth ≤ depthOfItems rs := by
  induction rs with
  | nil => cases h
  | cons first rest ih =>
    rw [depthOfItems]
    rcases List.mem_cons.1 h with rfl | later
    · exact Nat.le_max_left ..
    · exact Nat.le_trans (ih later) (Nat.le_max_right ..)

namespace Lookup

open Effects

variable {α β : Type} {Q : β → Prop}

/-- Whatever table it is looked up in, a result satisfies `Q`. -/
def Ensures (x : Lookup β) (Q : β → Prop) : Prop :=
  ∀ t b t', x.run t = (.ok b, t') → Q b

theorem ensures_pure {b : β} (h : Q b) : Ensures (pure b) Q := by
  rintro t b' t' ⟨⟩
  exact h

theorem Ensures.after {x : Lookup α} {f : α → Lookup β} (hf : ∀ a, Ensures (f a) Q) :
    Ensures (x >>= f) Q := by
  intro t b t' run
  obtain ⟨a, u, -, run⟩ := run_bind_eq_ok.1 run
  exact hf a u b t' run

theorem Ensures.lift {x : Except Error α} {f : α → Lookup β}
    (hf : ∀ a, x = .ok a → Ensures (f a) Q) : Ensures (liftM x >>= f) Q := by
  intro t b t' run
  obtain ⟨a, u, first, run⟩ := run_bind_eq_ok.1 run
  exact hf a (congrArg Prod.fst first) u b t' run

theorem Ensures.read {x : Lookup β} (h : Ensures x Q) {entries : List String} {b : β}
    (hb : read entries x = .ok b) : Q b :=
  h _ b _ (Prod.ext hb rfl)

end Lookup

namespace Coding

open Lookup

variable {c : Coding}

/-- The keywords stand in a slot of the record. -/
def Slots (c : Coding) (r : Raw) (keywords : KeywordSource) : Prop :=
  ∃ items slot, r = .list items ∧ slot ∈ items ∧ c.keywordSource slot = .ok keywords

theorem mem_of_get {r : Raw} {el : Element} {context : String} {i : Nat} {slot : Raw}
    (element : r.element context = .ok el) (got : el.get i = .ok slot) :
    ∃ items, r = .list items ∧ slot ∈ items := by
  cases r with
  | list items =>
    cases element
    refine ⟨items, rfl, ?_⟩
    simp only [Element.get] at got
    cases hi : items[i]? with
    | none => rw [hi] at got; cases got
    | some slot' => rw [hi] at got; cases got; exact List.mem_of_getElem? hi
  | _ => cases element

theorem slots_of_get {r : Raw} {el : Element} {context : String} {i : Nat} {slot : Raw}
    {keywords : KeywordSource} (element : r.element context = .ok el) (got : el.get i = .ok slot)
    (source : c.keywordSource slot = .ok keywords) : c.Slots r keywords := by
  obtain ⟨items, rfl, mem⟩ := mem_of_get element got
  exact ⟨items, slot, rfl, mem, source⟩

theorem keyword_slots (r : Raw) :
    Ensures (c.keyword r) fun record => c.Slots r record.keywords := by
  refine .lift fun el element => .after fun _ => .after fun _ => .after fun _ => .after fun _ => ?_
  refine .after fun _ => .after fun _ => .after fun _ => .after fun _ => ?_
  refine .lift fun slot got => .lift fun keywords source => ?_
  have done : ∀ record : KeywordRecord, record.keywords = keywords → c.Slots r record.keywords :=
    fun record same => same ▸ slots_of_get element got source
  split
  · exact .after fun _ => ensures_pure (done _ rfl)
  · exact .after fun _ => ensures_pure (done _ rfl)

theorem test_slots (r : Raw) : Ensures (c.test r) fun record => c.Slots r record.keywords := by
  refine .lift fun el element => .after fun _ => .after fun _ => .after fun _ => .after fun _ => ?_
  refine .after fun _ => .after fun _ => .after fun _ => .after fun _ => .after fun _ => ?_
  refine .lift fun slot got => .lift fun keywords source => ?_
  exact ensures_pure (slots_of_get element got source)

/-- Keywords stand in the slot itself, or in a file that is named by a number. -/
theorem keywordSource_eq_ok {slot : Raw} {keywords : KeywordSource}
    (h : c.keywordSource slot = .ok keywords) :
    (∃ items, keywords = .inline items ∧ depthOfItems items ≤ slot.depth) ∨
      ∃ index, keywords = .split (c.splitFileName index) := by
  have split : ∀ {slot : Raw}, (do
      let index ← slot.asInt "split index"
      if c.version.hasSplitFiles then return .split (c.splitFileName index)
      else throw (.deferredUnsupported c.version.number index)) = (.ok keywords : Except Error _) →
      ∃ index, keywords = .split (c.splitFileName index) := by
    intro slot h
    cases hi : slot.asInt "split index" with
    | error e => rw [hi] at h; cases h
    | ok index =>
      rw [hi] at h
      simp only [bind, Except.bind] at h
      cases hv : c.version.hasSplitFiles with
      | false => rw [hv] at h; cases h
      | true => rw [hv] at h; cases h; exact ⟨index, rfl⟩
  cases slot with
  | null => cases h; exact .inl ⟨[], rfl, Nat.le_refl _⟩
  | list items => cases h; exact .inl ⟨items, rfl, Nat.le_succ _⟩
  | bool b => cases h
  | str s => cases h
  | int n => exact .inr (split h)
  | float x => exact .inr (split h)

end Coding

namespace Plain

/-- How deep the records nest that stand in the same document below the node. -/
def depthWithin : Plain → Nat
  | .suite r _ _ _ => depthOfItems r.keywords
  | .test r _ _ _ => within r.keywords
  | .keyword r _ _ => within r.keywords
where
  within : KeywordSource → Nat
    | .inline items => depthOfItems items
    | .split _ => 0

/-- A keyword without messages that has its keywords in the split file. -/
def leadsTo (file : String) : Plain → Bool
  | .keyword record _ _ => fileOf? record.keywords == some file && record.messages.isEmpty
  | _ => false

theorem leadsTo_iff {file : String} {p : Plain} : p.leadsTo file = true ↔
    ∃ record path t, p = .keyword record path t ∧ record.keywords = .split file ∧
      record.messages = [] := by
  cases p with
  | suite r name failed t => simp [leadsTo]
  | test r name failed t => simp [leadsTo]
  | keyword r path t =>
    cases hk : r.keywords with
    | inline items => simp [leadsTo, fileOf?, hk]
    | split file' => simp [leadsTo, fileOf?, hk]

theorem splitFile?_of_leadsTo {file : String} {p : Plain} (leads : p.leadsTo file = true) :
    p.splitFile? = some file := by
  obtain ⟨record, path, t, rfl, source, -⟩ := leadsTo_iff.1 leads
  simp only [Plain.splitFile?, keywordSource?, Option.bind_some, source, fileOf?]

end Plain

namespace Source

open Relation

variable {src : Source} {p q c : Plain}

/-- The first node is a keyword of the second one. -/
def KeywordOf (src : Source) (c p : Plain) : Prop :=
  ∃ i, src.child? p ⟨.keyword, i⟩ = .ok (some c)

/-- Below the node there is a split file below itself. -/
def Circular (src : Source) (p : Plain) : Prop :=
  ∃ q q' file, ReflTransGen src.KeywordOf q p ∧ TransGen src.KeywordOf q' q ∧
    q.splitFile? = some file ∧ q'.splitFile? = some file

theorem keywordOf_iff : src.KeywordOf c p ↔ ∃ items t, ∃ i : Nat, ∃ raw record,
    src.items? p .keyword = some (items, t) ∧ items[i]? = some raw ∧
    src.readIn t (src.coding.keyword raw) = .ok record ∧
    c = .keyword record s!"{p.pathBase}.{i}" t := by
  constructor
  · rintro ⟨i, h⟩
    obtain ⟨raw, t, found, read⟩ := child?_eq_some.1 h
    obtain ⟨items, hi, there⟩ := record?_eq_some.1 found
    obtain ⟨record, read', rfl⟩ := readKeyword_eq_ok.1 read
    exact ⟨items, t, i, raw, record, hi, there, read', rfl⟩
  · rintro ⟨items, t, i, raw, record, hi, there, read, rfl⟩
    refine ⟨i, child?_eq_some.2 ⟨raw, t, record?_eq_some.2 ⟨items, hi, there⟩, ?_⟩⟩
    exact readKeyword_eq_ok.2 ⟨record, read, rfl⟩

/-- Inside of a document the records get smaller. -/
theorem KeywordOf.depthWithin_lt (h : src.KeywordOf c p) (inside : p.splitFile? = none) :
    c.depthWithin < p.depthWithin := by
  obtain ⟨items, t, i, raw, record, hi, there, read, rfl⟩ := keywordOf_iff.1 h
  have own : p.depthWithin = depthOfItems items := by
    have source : ∀ (k : KeywordSource) (t' : TableRef), Plain.fileOf? k = none →
        src.keywordItems? t' k = some (items, t) → Plain.depthWithin.within k = depthOfItems items := by
      intro k t' hk hi
      cases k with
      | inline items' => cases hi; rfl
      | split file => cases hk
    cases p with
    | suite r name failed t' => cases hi; rfl
    | test r name failed t' => exact source r.keywords t' inside hi
    | keyword r path t' => exact source r.keywords t' inside hi
  obtain ⟨slots, slot, rfl, mem, source⟩ := (Coding.keyword_slots raw).read read
  have smaller : Plain.depthWithin.within record.keywords ≤ slot.depth := by
    rcases Coding.keywordSource_eq_ok source with ⟨items', eq, le⟩ | ⟨index, eq⟩
    · rw [eq]
      exact le
    · rw [eq]
      exact Nat.zero_le _
  have within := depth_le_depthOfItems mem
  have outer := depth_le_depthOfItems (List.mem_of_getElem? there)
  rw [Raw.depth] at outer
  rw [own]
  change Plain.depthWithin.within record.keywords < _
  omega

/-- A split file that a node names is named by a number. -/
theorem child?_splitFile {above : Plain} {step : Segment} {file : String}
    (h : src.child? above step = .ok (some p)) (split : p.splitFile? = some file) :
    ∃ index, file = src.coding.splitFileName index := by
  have numbered : ∀ {raw : Raw} {k : KeywordSource}, src.coding.Slots raw k →
      Plain.fileOf? k = some file → ∃ index, file = src.coding.splitFileName index := by
    rintro raw k ⟨slots, slot, -, -, source⟩ hk
    rcases Coding.keywordSource_eq_ok source with ⟨items, rfl, -⟩ | ⟨index, rfl⟩
    · cases hk
    · cases hk
      exact ⟨index, rfl⟩
  obtain ⟨raw, t, -, read⟩ := child?_eq_some.1 h
  rw [readChild] at read
  split at read
  · obtain ⟨record, failed, -, -, rfl⟩ := readSuite_below.1 read
    cases split
  · obtain ⟨record, failed, own, -, rfl⟩ := readTest_eq_ok.1 read
    exact numbered ((Coding.test_slots raw).read own) split
  · obtain ⟨record, own, rfl⟩ := readKeyword_eq_ok.1 read
    exact numbered ((Coding.keyword_slots raw).read own) split

theorem node?_splitFile {r : Route} {file : String} (h : src.node? r = .ok (some p))
    (split : p.splitFile? = some file) : ∃ index, file = src.coding.splitFileName index := by
  cases r with
  | root =>
    have root := node?_root h
    simp only [readSuite] at root
    cases hr : src.readIn .main (src.coding.suite src.suite) with
    | error e => rw [hr] at root; cases root
    | ok record => rw [hr] at root; cases root; cases split
  | child owner step =>
    obtain ⟨above, -, hc⟩ := node?_child h
    exact child?_splitFile hc split

/-! ## What is not circular ends -/

theorem Circular.below (h : src.Circular c) (below : src.KeywordOf c p) : src.Circular p := by
  obtain ⟨q, q', file, reach, again, hq, hq'⟩ := h
  exact ⟨q, q', file, reach.tail below, again, hq, hq'⟩

/-- With each split file that is opened on the way down there is one file less to open. -/
theorem acc_of_files {files : List String} (straight : ¬ src.Circular p)
    (named : ∀ q file, ReflTransGen src.KeywordOf q p → q.splitFile? = some file →
      (src.files file).isSome → file ∈ files) : Acc src.KeywordOf p := by
  obtain ⟨n, hn⟩ : ∃ n, n = files.length := ⟨_, rfl⟩
  induction n using Nat.strongRecOn generalizing files p with
  | ind n opens =>
    obtain ⟨d, hd⟩ : ∃ d, d = p.depthWithin := ⟨_, rfl⟩
    induction d using Nat.strongRecOn generalizing p with
    | ind d shrinks =>
      refine .intro p fun c below => ?_
      have straight' : ¬ src.Circular c := fun h => straight (h.below below)
      have named' : ∀ q file, ReflTransGen src.KeywordOf q c → q.splitFile? = some file →
          (src.files file).isSome → file ∈ files :=
        fun q file reach => named q file (reach.tail below)
      cases split : p.splitFile? with
      | none => exact shrinks c.depthWithin (hd ▸ below.depthWithin_lt split) straight' named' rfl
      | some file =>
        have there : (src.files file).isSome := by
          obtain ⟨items, t, i, raw, record, hi, -⟩ := keywordOf_iff.1 below
          rw [src.items?_split split] at hi
          obtain ⟨payload, hp, -⟩ := Option.map_eq_some_iff.1 hi
          rw [hp]
          rfl
        have mem := named p file .refl split there
        have fewer : (files.erase file).length < n := by
          rw [hn, List.length_erase_of_mem mem]
          have := List.length_pos_of_mem mem
          omega
        refine opens _ fewer straight' (fun q file' reach hq hfile => ?_) rfl
        have other : file' ≠ file := by
          rintro rfl
          exact straight ⟨p, q, file', .refl, .tail' reach below, split, hq⟩
        exact (List.mem_erase_of_ne other).2 (named' q file' reach hq hfile)

/-! ## What is circular has no end -/

/-- Nodes with the same keyword records have the same keywords, but for their paths. -/
theorem KeywordOf.twin (below : src.KeywordOf c p)
    (same : src.items? p .keyword = src.items? q .keyword) :
    ∃ c', src.KeywordOf c' q ∧ src.items? c .keyword = src.items? c' .keyword := by
  obtain ⟨items, t, i, raw, record, hi, there, read, rfl⟩ := keywordOf_iff.1 below
  exact ⟨_, keywordOf_iff.2 ⟨items, t, i, raw, record, same ▸ hi, there, read, rfl⟩, rfl⟩

/-- A node that comes again below itself comes again below each of its keywords on the way. -/
theorem not_acc_of_twin (acc : Acc src.KeywordOf p) (again : TransGen src.KeywordOf c p) :
    src.items? c .keyword ≠ src.items? p .keyword := by
  induction acc generalizing c with
  | intro p acc ih =>
    intro same
    cases again with
    | single below =>
      obtain ⟨c', below', same'⟩ := below.twin same.symm
      exact ih c below (.single below') same'.symm
    | @tail m _ reach below =>
      obtain ⟨m', below', same'⟩ := below.twin same.symm
      exact ih m below (.trans (.single below') reach) same'.symm

theorem acc_of_reach (acc : Acc src.KeywordOf p) (reach : ReflTransGen src.KeywordOf q p) :
    Acc src.KeywordOf q := by
  induction reach with
  | refl => exact acc
  | tail reach below ih => exact ih (acc.inv below)

/-- Where a split file stands below itself there is no end. -/
theorem Circular.not_acc (h : src.Circular p) : ¬ Acc src.KeywordOf p := by
  rintro acc
  obtain ⟨q, q', file, reach, again, hq, hq'⟩ := h
  refine not_acc_of_twin (acc_of_reach acc reach) again ?_
  rw [src.items?_split hq, src.items?_split hq']

/-! ## A file that refers to itself -/

/-- The only record of the split file is a keyword that has its keywords in the same file. -/
def repeats (src : Source) (file : String) : Bool :=
  match src.files file with
  | some ⟨[raw], _⟩ =>
    match src.readIn (.split file) (src.coding.keyword raw) with
    | .ok record => (Plain.keyword record "" (.split file)).leadsTo file
    | .error _ => false
  | _ => false

theorem repeats_iff {file : String} : src.repeats file = true ↔
    ∃ raw strings record, src.files file = some ⟨[raw], strings⟩ ∧
      src.readIn (.split file) (src.coding.keyword raw) = .ok record ∧
      ∀ path t, (Plain.keyword record path t).leadsTo file = true := by
  constructor
  · intro h
    rw [repeats] at h
    split at h
    next raw strings hf =>
      cases read : src.readIn (.split file) (src.coding.keyword raw) with
      | error e => rw [read] at h; cases h
      | ok record => rw [read] at h; exact ⟨raw, strings, record, hf, read, fun _ _ => h⟩
    next => cases h
  · rintro ⟨raw, strings, record, hf, read, leads⟩
    simp only [repeats, hf, read]
    exact leads _ _

theorem isSome_of_repeats {file : String} (again : src.repeats file = true) :
    (src.files file).isSome := by
  obtain ⟨raw, strings, record, hf, -⟩ := repeats_iff.1 again
  rw [hf]
  rfl

theorem Within.repeats {src' : Source} {file : String} (le : src.Within src')
    (there : (src.files file).isSome) (again : src'.repeats file = true) :
    src.repeats file = true := by
  obtain ⟨raw, strings, record, hf, read, leads⟩ := repeats_iff.1 again
  obtain ⟨payload, hp⟩ := Option.isSome_iff_exists.1 there
  cases (le.files file payload hp).symm.trans hf
  rw [le.coding, le.readIn (t := .split file) ⟨_, hp⟩] at read
  exact repeats_iff.2 ⟨raw, strings, record, hp, read, leads⟩

/-- A keyword that leads to such a file has one keyword, which leads there again. -/
theorem child?_of_repeats {file : String} (again : src.repeats file = true)
    (leads : p.leadsTo file = true) :
    ∃ raw c, src.items? p .keyword = some ([raw], .split file) ∧
      src.child? p ⟨.keyword, 0⟩ = .ok (some c) ∧ c.leadsTo file = true := by
  obtain ⟨raw, strings, record, hf, read, leads'⟩ := repeats_iff.1 again
  have items : src.items? p .keyword = some ([raw], .split file) := by
    rw [src.items?_split (Plain.splitFile?_of_leadsTo leads), hf]
    rfl
  refine ⟨raw, .keyword record s!"{p.pathBase}.{0}" (.split file), items, ?_, leads' _ _⟩
  exact child?_eq_some.2 ⟨raw, .split file, record?_eq_some.2 ⟨[raw], items, rfl⟩,
    readKeyword_eq_ok.2 ⟨record, read, rfl⟩⟩

end Source

end RunReport
