import Mathlib.Data.List.TakeWhile
import RunReport.Config.Load
import RunReport.Disk.Tree
import RunReport.Proofs.Directories
/-!
# Chains of configurations

A configuration takes what it does not set from its base, and the base from its own. Over a whole
chain this means: a single setting comes from the nearest file that has it, a directory of split files
stays relative to the file that names it, and the tags of all files are kept, the farthest first,
but for those whose query a nearer file has too. On a tree of files every chain without a circle is
read to its end.
-/

namespace RunReport

namespace Config

theorem home_of_read {home : Option Path} {text : String} {c : Config}
    (h : read home text = .ok c) : c.home = home := by
  cases parsed : Json.read reader text with
  | error e =>
    rw [read, parsed] at h
    cases h
  | ok own =>
    rw [read, parsed] at h
    cases h
    rfl

/-! ## Merging -/

/-- Whether a tag with this query is set. -/
def hasTag (c : Config) (pattern : String) : Bool :=
  c.combinedTags.any (·.pattern == pattern)

theorem combinedTags_merge (own base : Config) : (own.merge base).combinedTags =
    base.combinedTags.filter (fun tag => !own.hasTag tag.pattern) ++ own.combinedTags :=
  rfl

/-- A merged configuration has the tags of both. -/
theorem hasTag_merge (own base : Config) (pattern : String) :
    (own.merge base).hasTag pattern = (own.hasTag pattern || base.hasTag pattern) := by
  rw [Bool.eq_iff_iff]
  simp only [hasTag, combinedTags_merge, List.any_append, List.any_filter, Bool.or_eq_true,
    List.any_eq_true, Bool.and_eq_true, beq_iff_eq, Bool.not_eq_true', List.any_eq_false]
  constructor
  · rintro (⟨tag, mem, -, same⟩ | own)
    · exact .inr ⟨tag, mem, same⟩
    · exact .inl own
  · rintro (own | ⟨tag, mem, rfl⟩)
    · exact .inr own
    · by_cases set : ∃ t ∈ own.combinedTags, t.pattern = tag.pattern
      · exact .inr set
      · exact .inl ⟨tag, mem, fun t ht same => set ⟨t, ht, same⟩, rfl⟩

/-- It does not matter which of three configurations are merged first. -/
theorem merge_assoc (c₀ c₁ c₂ : Config) : c₀.merge (c₁.merge c₂) = (c₀.merge c₁).merge c₂ := by
  have tags : (c₀.merge (c₁.merge c₂)).combinedTags = ((c₀.merge c₁).merge c₂).combinedTags := by
    simp only [combinedTags_merge, List.filter_append, List.filter_filter, hasTag_merge,
      Bool.not_or, List.append_assoc]
  have home : (c₀.merge (c₁.merge c₂)).home = ((c₀.merge c₁).merge c₂).home := by
    cases nearest : c₀.splitDir <;> simp [merge, nearest]
  simp only [merge, mk.injEq, Option.or_assoc, true_and]
  exact ⟨tags, home⟩

/-! ## Closed forms -/

/-- A setting that is taken from the base when it is missing comes from the nearest configuration. -/
theorem mergeAll_setting {α : Type} (setting : Config → Option α)
    (merged : ∀ own base, setting (own.merge base) = (setting own).or (setting base))
    (unset : setting empty = none) (cs : List Config) :
    setting (mergeAll cs) = cs.findSome? setting := by
  induction cs using mergeAll.induct with
  | case1 => exact unset
  | case2 c =>
    rw [mergeAll, List.findSome?_singleton]
  | case3 c base rest ih =>
    rw [mergeAll, merged, ih]
    cases own : setting c <;> simp only [List.findSome?_cons, own, Option.none_or, Option.some_or]

/-- The tags of a chain: from the farthest file to the nearest, each with those of its own whose
query no nearer file has. -/
def chainTags (cs : List Config) : List CombinedTag :=
  cs.zipIdx.reverse.flatMap fun (c, i) =>
    c.combinedTags.filter fun tag => (cs.take i).all (!·.hasTag tag.pattern)

theorem chainTags_cons (c : Config) (cs : List Config) : chainTags (c :: cs) =
    (chainTags cs).filter (fun tag => !c.hasTag tag.pattern) ++ c.combinedTags := by
  have nearest : c.combinedTags.filter (fun _ => true) = c.combinedTags :=
    List.filter_eq_self.2 fun _ _ => rfl
  simp only [chainTags, List.zipIdx_cons', List.reverse_cons, List.flatMap_append,
    List.flatMap_cons, List.flatMap_nil, List.append_nil, List.take_zero, List.all_nil, nearest,
    ← List.map_reverse, List.flatMap_map, List.filter_flatMap, List.filter_filter,
    List.append_cancel_right_eq]
  rfl

theorem combinedTags_mergeAll (cs : List Config) : (mergeAll cs).combinedTags = chainTags cs := by
  induction cs using mergeAll.induct with
  | case1 => rfl
  | case2 c =>
    rw [chainTags_cons]
    rfl
  | case3 c base rest ih => rw [mergeAll, combinedTags_merge, ih, chainTags_cons c]

/-! ## Chains on a tree of files -/

/-- The configuration without its base. -/
def detached (c : Config) : Config :=
  { c with base := none }

theorem detached_eq {c : Config} (base : c.base = none) : c.detached = c := by
  rw [detached, ← base]

/-- The file at `path` holds the configuration. -/
def Holds (t : FileTree) (path : Path) (c : Config) : Prop :=
  ∃ text, t.read path = some text ∧ read path.parent? text = .ok c

/-- The files from `path` on, each with the next one as its base. -/
inductive Chain (t : FileTree) : Path → List (Path × Config) → Prop
  | last {path : Path} {c : Config} (holds : Holds t path c) (base : c.base = none) :
    Chain t path [(path, c)]
  | next {path : Path} {c : Config} {reference : String} {files : List (Path × Config)}
    (holds : Holds t path c) (base : c.base = some reference)
    (bases : Chain t (basePath path reference) files) : Chain t path ((path, c) :: files)

variable {t : FileTree} {path : Path} {c : Config} {files : List (Path × Config)}

/-- Without effects the second part takes what the first one gives. -/
theorem liftM_id_bind {ε α β : Type} (x : Id α) (f : α → ExceptT ε Id β) :
    ((liftM x : ExceptT ε Id α) >>= f) = f x.run :=
  rfl

theorem Holds.readFile (h : Holds t path c) : readFile t.disk path = pure c := by
  obtain ⟨text, there, parsed⟩ := h
  have look : (t.disk.read path).run = some text := there
  refine (liftM_id_bind (t.disk.read path) _).trans ?_
  simp only [look, parsed]

theorem chainFrom_succ {fuel : Nat} {visited : List String} (holds : Holds t path c)
    (fresh : (t.disk.identity path).run ∉ visited) :
    chainFrom t.disk (fuel + 1) visited path =
      match c.base with
      | none => pure [c]
      | some reference =>
        if (t.disk.isThere (basePath path reference)).run = true then do
          let visited := (t.disk.identity path).run :: visited
          let bases ← chainFrom t.disk fuel visited (basePath path reference)
          return c.detached :: bases
        else throw (.baseNotFound (basePath path reference) path) := by
  have new : visited.contains (t.disk.identity path).run = false := by
    rw [List.contains_eq_mem]
    exact decide_eq_false fresh
  change (if visited.contains (t.disk.identity path).run = true then throw (.circular path)
    else Config.readFile t.disk path >>= _) = _
  rw [new, if_neg Bool.false_ne_true, holds.readFile, pure_bind]
  cases c.base with
  | none => rfl
  | some reference => exact liftM_id_bind (t.disk.isThere (basePath path reference)) _

theorem Holds.found (h : Holds t path c) : ∃ l, t.find? path = some l ∧ l ∈ t.entries.map (·.1) := by
  obtain ⟨text, there, -⟩ := h
  obtain ⟨l, found, file⟩ := Option.bind_eq_some_iff.1 there
  exact ⟨l, found, FileTree.file?_mem file⟩

theorem Holds.isThere (h : Holds t path c) : (t.disk.isThere path).run = true := by
  obtain ⟨l, found, -⟩ := h.found
  exact Option.isSome_of_eq_some found

theorem Chain.holds (h : Chain t path files) : ∀ f ∈ files, Holds t f.1 f.2 := by
  induction h with
  | last holds base => simpa using holds
  | next holds base bases ih => exact List.forall_mem_cons.2 ⟨holds, ih⟩

theorem Chain.isThere (h : Chain t path files) : (t.disk.isThere path).run = true := by
  cases h with
  | last holds base => exact holds.isThere
  | next holds base bases => exact holds.isThere

/-- What tells the file at the path apart. -/
def identityOf (t : FileTree) (f : Path × Config) : String :=
  (t.disk.identity f.1).run

/-- A chain without a repetition is no longer than the tree has entries. -/
theorem Chain.length_le (h : Chain t path files) (distinct : (files.map (identityOf t)).Nodup) :
    files.length ≤ t.entries.length := by
  have listed : files.map (identityOf t) ⊆ t.entries.map fun e => "/" ++ "/".intercalate e.1 := by
    rintro _ mem
    obtain ⟨f, hf, rfl⟩ := List.mem_map.1 mem
    obtain ⟨l, found, there⟩ := (h.holds f hf).found
    obtain ⟨entry, he, rfl⟩ := List.mem_map.1 there
    exact List.mem_map.2 ⟨entry, he, by simp only [identityOf, FileTree.disk, found]; rfl⟩
  simpa using distinct.length_le_of_subset listed

/-- A chain is read to its end, whatever other files have been visited. -/
theorem Chain.chainFrom (h : Chain t path files) {fuel : Nat} {visited : List String}
    (enough : files.length ≤ fuel) (distinct : (files.map (identityOf t)).Nodup)
    (fresh : ∀ f ∈ files, identityOf t f ∉ visited) :
    chainFrom t.disk fuel visited path = pure (files.map (·.2.detached)) := by
  induction h generalizing fuel visited with
  | @last path c holds base =>
    obtain ⟨fuel, rfl⟩ := Nat.exists_eq_add_of_le' enough
    rw [List.length_singleton, chainFrom_succ holds (fresh _ List.mem_cons_self), base,
      List.map_singleton, detached_eq base]
  | @next path c reference files holds base bases ih =>
    obtain ⟨fuel, rfl⟩ := Nat.exists_eq_add_of_le' (Nat.le_of_add_left_le enough)
    rw [List.map_cons, List.nodup_cons] at distinct
    have later : ∀ f ∈ files, identityOf t f ∉ identityOf t (path, c) :: visited := by
      intro f hf mem
      rcases List.mem_cons.1 mem with same | mem
      · exact distinct.1 (same ▸ List.mem_map_of_mem hf)
      · exact fresh f (List.mem_cons_of_mem _ hf) mem
    rw [chainFrom_succ holds (fresh _ List.mem_cons_self), base]
    simp only [bases.isThere, if_true]
    change (Config.chainFrom _ _ (identityOf t (path, c) :: visited) _ >>= _) = _
    rw [ih (Nat.le_of_succ_le_succ enough) distinct.2 later]
    rfl

theorem Chain.chain (h : Chain t path files) (distinct : (files.map (identityOf t)).Nodup) :
    Config.chain t.disk path = pure (files.map (·.2.detached)) :=
  h.chainFrom (Nat.le_succ_of_le (h.length_le distinct)) distinct fun _ _ => List.not_mem_nil

/-! ## The root -/

/-- Idle parts lead nowhere else. -/
theorem walk_idle {parts : List String} (idle : ∀ part ∈ parts, Path.isIdle part = true)
    {l l' : Location} (walked : t.walk l parts = some l') : l' = l := by
  induction parts with
  | nil => cases walked; rfl
  | cons part parts ih =>
    rw [List.forall_mem_cons] at idle
    simp only [FileTree.walk, idle.1, if_true] at walked
    split at walked
    · cases walked
    · exact ih idle.2 walked

theorem isIdle_of_dropIdle {parts : List String} (h : Path.dropIdle parts = []) :
    ∀ part ∈ parts, Path.isIdle part = true := by
  rw [Path.dropIdle, List.reverse_eq_nil_iff, List.dropWhile_eq_nil_iff] at h
  exact fun part mem => h part (List.mem_reverse.2 mem)

/-- A path that is not absolute begins with something else than a slash. -/
theorem parts_relative {path : Path} {first : String} {rest : List String}
    (parts : path.parts = first :: rest) (relative : path.isAbsolute = false)
    (named : path.text.isEmpty = false) : first.isEmpty = false := by
  cases text : path.text.toList with
  | nil =>
    simp [String.toList_eq_nil_iff] at text
    simp [text] at named
  | cons c cs =>
    have other : '/' ≠ c := by
      rintro rfl
      simp [Path.isAbsolute, text] at relative
    obtain ⟨piece, pieces, tail⟩ := List.exists_cons_of_ne_nil (Text.cut_ne_nil ['/'] cs)
    have cut : Text.cut ['/'] (c :: cs) = (c :: piece) :: pieces := by
      simp only [Text.cut] at tail ⊢
      simp [Text.cutFrom, List.isPrefixOf, other, tail, Text.consPiece]
    rw [Path.parts, text, cut, List.map_cons] at parts
    cases parts
    simp

/-- A path with nothing above it leads to the root, if anywhere. -/
theorem find?_of_parent? {l : Location} (top : path.parent? = none) (found : t.find? path = some l) :
    l = [] := by
  obtain ⟨first, rest, parts⟩ : ∃ first rest, path.parts = first :: rest :=
    List.exists_cons_of_ne_nil (by simp [Path.parts, Text.cut_ne_nil])
  simp only [Path.parent?, parts] at top
  split at top
  · next idle =>
    split at top
    · next empty =>
      have leads : ∀ part ∈ first :: rest, Path.isIdle part = true :=
        List.forall_mem_cons.2 ⟨by simp [Path.isIdle, empty], isIdle_of_dropIdle idle⟩
      simp only [FileTree.find?, parts] at found
      split at found
      · cases found
      · next named =>
        have start := walk_idle leads found
        cases absolute : path.isAbsolute with
        | true => rw [start, FileTree.start, if_pos absolute]
        | false =>
          rw [parts_relative parts absolute (Bool.eq_false_iff.2 named)] at empty
          cases empty
    · cases top
  · split at top <;> cases top

theorem Holds.parent?_isSome (h : Holds t path c) (root : t.file? [] = none) :
    path.parent?.isSome := by
  obtain ⟨text, there, -⟩ := h
  obtain ⟨l, found, file⟩ := Option.bind_eq_some_iff.1 there
  cases top : path.parent? with
  | some above => rfl
  | none =>
    rw [find?_of_parent? top found, root] at file
    cases file

/-! ## Loading -/

/-- Where the configuration of the reports in `dir` is looked for. -/
def start? (t : FileTree) (dir : Path) : Option String → Option Path
  | some name => some (dir.join name)
  | none => (find? t.disk dir).run

theorem Chain.load {dir : Path} {custom : Option String} (named : start? t dir custom = some path)
    (h : Chain t path files) (distinct : (files.map (identityOf t)).Nodup) :
    load t.disk dir custom = pure (mergeAll (files.map (·.2.detached))) := by
  have merged : (do return mergeAll (← Config.chain t.disk path)) =
      (pure (mergeAll (files.map (·.2.detached))) : ExceptT ConfigError Id Config) := by
    rw [h.chain distinct]
    rfl
  cases custom with
  | some name =>
    cases named
    change (if (t.disk.isThere (dir.join name)).run = true then _ else _) = _
    rw [h.isThere, if_pos rfl, ← merged]
  | none =>
    have first : find? t.disk dir = (some path : Option Path) := named
    change (match find? t.disk dir with
      | some path => do return mergeAll (← Config.chain t.disk path)
      | none => pure empty : ExceptT ConfigError Id Config) = _
    rw [first]
    exact merged

/-- A setting of a chain comes from the nearest file that has it. -/
theorem mergeAll_chain_setting {α : Type} (setting : Config → Option α)
    (merged : ∀ own base, setting (own.merge base) = (setting own).or (setting base))
    (unset : setting empty = none) (kept : ∀ c, setting c.detached = setting c)
    (files : List (Path × Config)) :
    setting (mergeAll (files.map (·.2.detached))) = files.findSome? (setting ·.2) := by
  rw [mergeAll_setting setting merged unset, List.findSome?_map]
  simp only [Function.comp_def, kept]

theorem findSome?_congr {α β : Type} {f g : α → Option β} {xs : List α} (h : ∀ x ∈ xs, f x = g x) :
    xs.findSome? f = xs.findSome? g := by
  induction xs with
  | nil => rfl
  | cons x xs ih =>
    rw [List.forall_mem_cons] at h
    rw [List.findSome?_cons, List.findSome?_cons, h.1, ih h.2]

/-- The directory of the split files, if the configuration sets it. -/
def splitPath? (reportDir : Path) (c : Config) : Option Path :=
  c.splitDir.map fun dir => (c.home.getD reportDir).join dir

theorem splitDirFor_eq (reportDir : Path) (c : Config) :
    c.splitDirFor reportDir = (c.splitPath? reportDir).getD reportDir := by
  cases set : c.splitDir <;> simp [splitDirFor, splitPath?, set]

/-- The directory that is merged is relative to what its own configuration says. -/
theorem splitPath?_merge (reportDir : Path) (own base : Config) :
    (own.merge base).splitPath? reportDir =
      (own.splitPath? reportDir).or (base.splitPath? reportDir) := by
  cases set : own.splitDir <;> simp [splitPath?, merge, set]

theorem Chain.splitDirFor (h : Chain t path files) (reportDir : Path) :
    (mergeAll (files.map (·.2.detached))).splitDirFor reportDir =
      (files.findSome? fun f => f.2.splitDir.map fun dir =>
        (f.1.parent?.getD reportDir).join dir).getD reportDir := by
  have own : ∀ f ∈ files, (f.2.splitDir.map fun dir => (f.1.parent?.getD reportDir).join dir) =
      f.2.splitPath? reportDir := by
    intro f hf
    obtain ⟨text, -, parsed⟩ := h.holds f hf
    rw [splitPath?, home_of_read parsed]
  rw [findSome?_congr own, splitDirFor_eq, mergeAll_chain_setting (splitPath? reportDir)
    (splitPath?_merge reportDir) rfl (fun _ => rfl)]

theorem chainTags_detached (files : List (Path × Config)) :
    chainTags (files.map (·.2.detached)) = chainTags (files.map (·.2)) := by
  induction files with
  | nil => rfl
  | cons f files ih =>
    rw [List.map_cons, List.map_cons, chainTags_cons, chainTags_cons, ih]
    rfl

/-- Loading the configuration at `path` takes each setting from the nearest file of its chain that has
it, the split files from next to the very file that names them, and the tags of all files, the farthest
first. A file always has a directory that it is in, unless the root is one. -/
theorem load_merges_chain {dir : Path} {custom : Option String}
    (named : start? t dir custom = some path) (chain : Chain t path files)
    (distinct : (files.map (identityOf t)).Nodup) :
    (∃ c, (load t.disk dir custom).run.run = .ok c ∧
      c.minLevel = files.findSome? (·.2.minLevel) ∧
      c.colors = files.findSome? (·.2.colors) ∧
      (∀ reportDir, c.splitDirFor reportDir =
        (files.findSome? fun f => f.2.splitDir.map fun dir =>
          (f.1.parent?.getD reportDir).join dir).getD reportDir) ∧
      c.combinedTags = chainTags (files.map (·.2))) ∧
    (t.file? [] = none → ∀ f ∈ files, f.1.parent?.isSome) ∧
    ∀ c₀ c₁ c₂ : Config, c₀.merge (c₁.merge c₂) = (c₀.merge c₁).merge c₂ := by
  refine ⟨⟨mergeAll (files.map (·.2.detached)), ?_, ?_, ?_, chain.splitDirFor, ?_⟩, ?_, merge_assoc⟩
  · rw [chain.load named distinct]
    rfl
  · exact mergeAll_chain_setting (·.minLevel) (fun _ _ => rfl) rfl (fun _ => rfl) files
  · exact mergeAll_chain_setting (·.colors) (fun _ _ => rfl) rfl (fun _ => rfl) files
  · rw [combinedTags_mergeAll, chainTags_detached]
  · intro root f hf
    exact (chain.holds f hf).parent?_isSome root

deriving instance DecidableEq for Config

theorem holds_of_toOption (text : String) (there : t.read path = some text)
    (parsed : (read path.parent? text).toOption = some c) : Holds t path c := by
  refine ⟨text, there, ?_⟩
  cases outcome : read path.parent? text with
  | error e => rw [outcome] at parsed; cases parsed
  | ok c' => rw [outcome] at parsed; cases parsed; rfl

/-- The configuration of the reports in a directory. -/
def nearText : String :=
  "\x7b\"extends\":\"../base\",\"colors\":false,"
    ++ "\"combinedTags\":[\x7b\"pattern\":\"x\",\"name\":\"near\"\x7d]\x7d"

/-- The configuration that it extends, in the directory above. -/
def farText : String :=
  "\x7b\"minLevel\":\"DEBUG\",\"colors\":true,\"splitDir\":\"s\","
    ++ "\"combinedTags\":[\x7b\"pattern\":\"x\"\x7d,\x7b\"pattern\":\"y\"\x7d]\x7d"

def extendingTree : FileTree :=
  ⟨["w"], [(["w", "a", fileName], some nearText), (["w", "base.json"], some farText)]⟩

def extendingFiles : List (Path × Config) :=
  [(⟨"a/.logviewrc.json"⟩,
      ⟨some "../base", none, some false, none, [⟨"x", some "near"⟩], some ⟨"a"⟩⟩),
    (⟨"a/../base.json"⟩,
      ⟨none, some .debug, some true, some "s", [⟨"x", none⟩, ⟨"y", none⟩], some ⟨"a/.."⟩⟩)]

theorem extendingFiles_chain : Chain extendingTree ⟨"a/.logviewrc.json"⟩ extendingFiles := by
  have next : basePath ⟨"a/.logviewrc.json"⟩ "../base" = ⟨"a/../base.json"⟩ := by decide +kernel
  refine .next ?_ (rfl : _ = some "../base") ?_
  · exact holds_of_toOption nearText (by decide +kernel) (by decide +kernel)
  · rw [next]
    exact .last (holds_of_toOption farText (by decide +kernel) (by decide +kernel)) rfl

theorem load_merges_chain_sample : ∃ c, (load extendingTree.disk ⟨"a"⟩ none).run.run = .ok c ∧
    c.minLevel = some .debug ∧ c.colors = some false ∧ c.splitDirFor ⟨"r"⟩ = ⟨"a/../s"⟩ ∧
    c.combinedTags = [⟨"y", none⟩, ⟨"x", some "near"⟩] := by
  have named : start? extendingTree ⟨"a"⟩ none = some ⟨"a/.logviewrc.json"⟩ := by decide +kernel
  have distinct : (extendingFiles.map (identityOf extendingTree)).Nodup := by decide +kernel
  obtain ⟨⟨c, loads, level, colors, splits, tags⟩, -⟩ :=
    load_merges_chain named extendingFiles_chain distinct
  refine ⟨c, loads, level, colors, ?_, tags.trans (by decide +kernel)⟩
  exact (splits ⟨"r"⟩).trans (by decide +kernel)

end Config

end RunReport
