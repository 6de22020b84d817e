import Mathlib.Data.List.Nodup
import Mathlib.Logic.Relation
import RunReport.Proofs.Effects
import RunReport.Proofs.Inheriting
/-!
# Following bases to their end

From a file on, each configuration leads to its base, until one has none, or something is in the way:
nothing is there, the file has been read before, or it has no configuration. What is found where the
way ends decides how a chain ends, and nothing else does. On a disk with finitely many files every way
has an end, and on the way no file is read twice.
-/

namespace RunReport

namespace Disk

/-- No more files can be read than the disk can tell apart. -/
def Finite (d : Disk Id) : Prop :=
  ∃ ids : List String, ids.length ≤ d.capacity ∧
    ∀ path text, (d.read path).run = some text → (d.identity path).run ∈ ids

/-- The same disk, with a note of every path that is read. -/
def noting (d : Disk Id) : Disk (StateM (List Path)) where
  isThere path := pure (d.isThere path).run
  read path := do
    modify (· ++ [path])
    return (d.read path).run
  identity path := pure (d.identity path).run
  capacity := d.capacity

end Disk

/-- Only the files of a tree can be read. -/
theorem FileTree.finite_disk (t : FileTree) : t.disk.Finite := by
  refine ⟨t.entries.map fun e => "/" ++ "/".intercalate e.1, ?_, fun path text read => ?_⟩
  · rw [List.length_map]
    exact Nat.le_refl _
  · obtain ⟨l, found, file⟩ := Option.bind_eq_some_iff.1 read
    obtain ⟨entry, there, rfl⟩ := List.mem_map.1 (FileTree.file?_mem file)
    exact List.mem_map.2 ⟨entry, there, by simp only [FileTree.disk, found]; rfl⟩

namespace Config

/-! ## What is found -/

/-- What a file holds: a configuration, or why it has none. -/
def held (d : Disk Id) (path : Path) : Except ConfigError Config :=
  match (d.read path).run with
  | none => .error (.unreadable path)
  | some text => (read path.parent? text).mapError (.malformed path)

/-- What tells the files apart. -/
def identities (d : Disk Id) (files : List (Path × Config)) : List String :=
  files.map fun f => (d.identity f.1).run

/-- Something is there. The file that a chain starts from is not looked for before it is read. -/
def Reached (d : Disk Id) (files : List (Path × Config)) (path : Path) : Prop :=
  files = [] ∨ (d.isThere path).run = true

/-- What is found at `path` after the files before it were read, the last of which names it. -/
inductive Finds (d : Disk Id) (files : List (Path × Config)) (path : Path) :
    Except ConfigError Config → Prop
  | gone {referrer : Path} {c : Config} (named : files.getLast? = some (referrer, c))
    (gone : (d.isThere path).run = false) : Finds d files path (.error (.baseNotFound path referrer))
  | known (reached : Reached d files path) (known : (d.identity path).run ∈ identities d files) :
    Finds d files path (.error (.circular path))
  | new (reached : Reached d files path) (new : (d.identity path).run ∉ identities d files) :
    Finds d files path (held d path)

/-- The files that have been read, and the path that the last of them leads to. -/
abbrev Stage := List (Path × Config) × Path

/-- From a file with a configuration that has a base to the path of the base. -/
inductive Goes (d : Disk Id) : Stage → Stage → Prop
  | base {files : List (Path × Config)} {path : Path} {c : Config} {reference : String}
    (found : Finds d files path (.ok c)) (base : c.base = some reference) :
    Goes d (files, path) (files ++ [(path, c)], basePath path reference)

/-- Following bases from `start` leads to `path` after the files were read. -/
def Leads (d : Disk Id) (start : Path) (files : List (Path × Config)) (path : Path) : Prop :=
  Relation.ReflTransGen (Goes d) ([], start) (files, path)

/-- What a chain gives where nothing more is to follow. -/
inductive Gives (files : List (Path × Config)) :
    Except ConfigError Config → Except ConfigError (List Config) → Prop
  | error {e : ConfigError} : Gives files (.error e) (.error e)
  | last {c : Config} (base : c.base = none) :
    Gives files (.ok c) (.ok (files.map (·.2.detached) ++ [c]))

variable {d : Disk Id} {start path path' : Path} {files files' : List (Path × Config)}
  {f f' : Except ConfigError Config} {s s' s'' : Stage}

theorem not_reached {referrer : Path} {c : Config} (named : files.getLast? = some (referrer, c))
    (gone : (d.isThere path).run = false) : ¬Reached d files path := by
  rintro (rfl | there)
  · cases named
  · rw [gone] at there
    cases there

/-- There is one thing to be found. -/
theorem Finds.unique (h : Finds d files path f) (h' : Finds d files path f') : f = f' := by
  cases h with
  | gone named gone =>
    cases h' with
    | gone named' => cases named.symm.trans named'; rfl
    | known reached => exact absurd reached (not_reached named gone)
    | new reached => exact absurd reached (not_reached named gone)
  | known reached known =>
    cases h' with
    | gone named gone => exact absurd reached (not_reached named gone)
    | known => rfl
    | new _ new => exact absurd known new
  | new reached new =>
    cases h' with
    | gone named gone => exact absurd reached (not_reached named gone)
    | known _ known => exact absurd known new
    | new => rfl

theorem Goes.unique (h : Goes d s s') (h' : Goes d s s'') : s' = s'' := by
  obtain ⟨found, base⟩ := h
  obtain ⟨found', base'⟩ := h'
  cases found.unique found'
  cases base.symm.trans base'
  rfl

/-! ## One file -/

/-- Reading a file notes its path, whatever it holds. -/
theorem readFile_noting (path : Path) (noted : List Path) :
    (readFile d.noting path).run.run noted = (held d path, noted ++ [path]) := by
  have looked : (liftM (d.noting.read path) : ExceptT ConfigError (StateM (List Path)) _).run noted =
      (.ok (d.read path).run, noted ++ [path]) := rfl
  refine (Effects.run_bind_ok looked).trans ?_
  unfold held
  cases (d.read path).run with
  | none => rfl
  | some text => cases parsed : read path.parent? text <;> simp only [parsed] <;> rfl

theorem readFile_eq_held (path : Path) :
    readFile d path = (liftM (held d path) : ExceptT ConfigError Id Config) := by
  refine (liftM_id_bind (d.read path) _).trans ?_
  unfold held
  cases (d.read path).run with
  | none => rfl
  | some text => cases parsed : read path.parent? text <;> simp only [parsed] <;> rfl

/-- What one file of a chain comes to: a known one is not read; any other is, and the rest of the chain
follows if it holds a configuration that has a base. -/
theorem chainFrom_noting (fuel : Nat) (visited : List String) (path : Path) (noted : List Path) :
    (chainFrom d.noting (fuel + 1) visited path).run.run noted =
      if visited.contains (d.identity path).run = true then (.error (.circular path), noted)
      else match held d path with
        | .error e => (.error e, noted ++ [path])
        | .ok c =>
          match c.base with
          | none => (.ok [c], noted ++ [path])
          | some reference =>
            if (d.isThere (basePath path reference)).run = true then
              let bases := (chainFrom d.noting fuel ((d.identity path).run :: visited)
                (basePath path reference)).run.run (noted ++ [path])
              (bases.1.map (c.detached :: ·), bases.2)
            else (.error (.baseNotFound (basePath path reference) path), noted ++ [path]) := by
  refine (Effects.run_bind_ok (Effects.run_state (d.noting.identity path) noted)).trans ?_
  change (if visited.contains (d.identity path).run = true then throw (.circular path)
    else readFile d.noting path >>= _ : ExceptT ConfigError (StateM (List Path)) _).run.run noted = _
  split
  · rfl
  · cases holds : held d path with
    | error e => exact Effects.run_bind_error ((readFile_noting path noted).trans (by rw [holds]))
    | ok c =>
      refine (Effects.run_bind_ok ((readFile_noting path noted).trans (by rw [holds]))).trans ?_
      simp only
      cases c.base with
      | none => rfl
      | some reference =>
        refine (Effects.run_bind_ok
          (Effects.run_state (d.noting.isThere (basePath path reference)) _)).trans ?_
        change (if (d.isThere (basePath path reference)).run = true then
          chainFrom d.noting fuel _ (basePath path reference) >>= _ else throw _ :
            ExceptT ConfigError (StateM (List Path)) _).run.run _ = _
        split
        · next there =>
          exact (Effects.run_map (c.detached :: ·) (chainFrom d.noting fuel
            ((d.identity path).run :: visited) (basePath path reference)) _).trans (if_pos there).symm
        · next gone => exact (if_neg gone).symm

/-- Nothing else changes when the paths are noted. -/
theorem chainFrom_eq_noting (fuel : Nat) (visited : List String) (path : Path) (noted : List Path) :
    (chainFrom d fuel visited path).run.run =
      ((chainFrom d.noting fuel visited path).run.run noted).1 := by
  induction fuel generalizing visited path noted with
  | zero => rfl
  | succ fuel ih =>
    rw [chainFrom_noting]
    change (if visited.contains (d.identity path).run = true then throw (.circular path)
      else readFile d path >>= _ : ExceptT ConfigError Id _).run.run = _
    split
    · rfl
    · rw [readFile_eq_held]
      cases held d path with
      | error e => rfl
      | ok c =>
        change (match c.base with
          | none => pure [c]
          | some reference => do
            if ← d.isThere (basePath path reference) then _ else _ :
              ExceptT ConfigError Id _).run.run = _
        cases base : c.base with
        | none => simp only [base]; rfl
        | some reference =>
          simp only [base]
          change (if (d.isThere (basePath path reference)).run = true then
            (c.detached :: ·) <$> chainFrom d fuel _ (basePath path reference) else throw _ :
              ExceptT ConfigError Id _).run.run = _
          split
          · rw [ExceptT.run_map, ← ih]
            rfl
          · rfl

/-! ## The way -/

theorem nodup_snoc {file : String} {ids : List String} (h : ids.Nodup) (new : file ∉ ids) :
    (ids ++ [file]).Nodup := by
  rw [← List.concat_eq_append]
  exact List.Nodup.concat new h

theorem reverse_identities_snoc (files : List (Path × Config)) (f : Path × Config) :
    (identities d (files ++ [f])).reverse =
      (d.identity f.1).run :: (identities d files).reverse := by
  simp [identities]

/-- The files differ, and each holds its configuration. -/
structure Distinct (d : Disk Id) (files : List (Path × Config)) : Prop where
  nodup : (identities d files).Nodup
  holds : ∀ f ∈ files, held d f.1 = .ok f.2

theorem Distinct.snoc {c : Config} (h : Distinct d files)
    (new : (d.identity path).run ∉ identities d files) (holds : held d path = .ok c) :
    Distinct d (files ++ [(path, c)]) where
  nodup := by
    rw [identities, List.map_append]
    exact nodup_snoc h.nodup new
  holds := List.forall_mem_append.2 ⟨h.holds, by simpa using holds⟩

theorem text_of_held {c : Config} (h : held d path = .ok c) :
    ∃ text, (d.read path).run = some text := by
  cases there : (d.read path).run with
  | none => rw [held, there] at h; cases h
  | some text => exact ⟨text, rfl⟩

/-- There are no more of them than the disk can tell apart. -/
theorem Distinct.length_le (h : Distinct d files) (finite : d.Finite) :
    files.length ≤ d.capacity := by
  obtain ⟨ids, short, all⟩ := finite
  have listed : identities d files ⊆ ids := by
    intro id mem
    obtain ⟨f, hf, rfl⟩ := List.mem_map.1 mem
    obtain ⟨text, there⟩ := text_of_held (h.holds f hf)
    exact all f.1 text there
  calc files.length = (identities d files).length := by rw [identities, List.length_map]
    _ ≤ ids.length := h.nodup.length_le_of_subset listed
    _ ≤ d.capacity := short

/-- Where the way from a stage ends decides what is given. What was read until then is noted, each file
once, and no limit on the length of chains matters that is above the capacity of the disk. -/
structure Outcome (d : Disk Id) (s : Stage) (outcome : Except ConfigError (List Config))
    (reads : List Path) : Prop where
  runs : ∀ fuel, d.capacity < fuel + s.1.length →
    (chainFrom d.noting fuel (identities d s.1).reverse s.2).run.run (s.1.map (·.1)) =
      (outcome, reads)
  once : (reads.map fun p => (d.identity p).run).Nodup
  ends : ∃ s' : Stage, ∃ f, Relation.ReflTransGen (Goes d) s s' ∧ Finds d s'.1 s'.2 f ∧
    Gives s'.1 f (outcome.map (s.1.map (·.2.detached) ++ ·))

section Stage

variable {c : Config} {e : ConfigError} {reference : String} {reads : List Path}
  {outcome : Except ConfigError (List Config)} (finite : d.Finite) (distinct : Distinct d files)
  (reached : Reached d files path)

include finite distinct in
/-- There always is a limit left for one file more. -/
theorem Distinct.further {fuel : Nat} (above : d.capacity < fuel + files.length) :
    ∃ n, fuel = n + 1 := by
  have room := distinct.length_le finite
  exact Nat.exists_eq_add_of_le' (by omega)

include finite distinct reached

theorem Outcome.known (known : (d.identity path).run ∈ identities d files) :
    Outcome d (files, path) (.error (.circular path)) (files.map (·.1)) where
  runs fuel above := by
    obtain ⟨n, rfl⟩ := distinct.further finite above
    rw [chainFrom_noting, if_pos (by simpa using known)]
  once := by
    rw [List.map_map]
    exact distinct.nodup
  ends := ⟨(files, path), _, .refl, .known reached known, .error⟩

variable (new : (d.identity path).run ∉ identities d files)

include new

theorem Outcome.failed (holds : held d path = .error e) :
    Outcome d (files, path) (.error e) (files.map (·.1) ++ [path]) where
  runs fuel above := by
    obtain ⟨n, rfl⟩ := distinct.further finite above
    rw [chainFrom_noting, if_neg (by simpa using new), holds]
  once := by
    rw [List.map_append, List.map_map]
    exact nodup_snoc distinct.nodup new
  ends := ⟨(files, path), _, .refl, holds ▸ .new reached new, .error⟩

theorem Outcome.last (holds : held d path = .ok c) (base : c.base = none) :
    Outcome d (files, path) (.ok [c]) (files.map (·.1) ++ [path]) where
  runs fuel above := by
    obtain ⟨n, rfl⟩ := distinct.further finite above
    rw [chainFrom_noting, if_neg (by simpa using new)]
    simp only [holds, base]
  once := by
    rw [List.map_append, List.map_map]
    exact nodup_snoc distinct.nodup new
  ends := ⟨(files, path), _, .refl, holds ▸ .new reached new, .last base⟩

theorem Outcome.gone (holds : held d path = .ok c) (base : c.base = some reference)
    (gone : (d.isThere (basePath path reference)).run = false) :
    Outcome d (files, path) (.error (.baseNotFound (basePath path reference) path))
      (files.map (·.1) ++ [path]) where
  runs fuel above := by
    obtain ⟨n, rfl⟩ := distinct.further finite above
    rw [chainFrom_noting, if_neg (by simpa using new)]
    simp only [holds, base, gone, Bool.false_eq_true, if_false]
  once := by
    rw [List.map_append, List.map_map]
    exact nodup_snoc distinct.nodup new
  ends := ⟨_, _, .single (.base (holds ▸ .new reached new) base),
    .gone (List.getLast?_concat ..) gone, .error⟩

/-- A base that is there decides for the file that has it. -/
theorem Outcome.next (holds : held d path = .ok c) (base : c.base = some reference)
    (there : (d.isThere (basePath path reference)).run = true)
    (next : Outcome d (files ++ [(path, c)], basePath path reference) outcome reads) :
    Outcome d (files, path) (outcome.map (c.detached :: ·)) reads where
  runs fuel above := by
    obtain ⟨n, rfl⟩ := distinct.further finite above
    have bases := next.runs n (by
      simp only [List.length_append, List.length_singleton] at above ⊢
      omega)
    simp only [reverse_identities_snoc, List.map_append, List.map_singleton] at bases
    rw [chainFrom_noting, if_neg (by simpa using new)]
    simp only [holds, base, there, if_true, bases]
  once := next.once
  ends := by
    obtain ⟨s, f, leads, found, gives⟩ := next.ends
    refine ⟨s, f, .head (.base (holds ▸ .new reached new) base) leads, found, ?_⟩
    cases outcome <;> simpa [Except.map] using gives

end Stage

/-- Every way ends: each step reads another file. -/
theorem exists_outcome (finite : d.Finite) (room : Nat) (enough : d.capacity < room + files.length)
    (distinct : Distinct d files) (reached : Reached d files path) :
    ∃ outcome reads, Outcome d (files, path) outcome reads := by
  induction room generalizing files path with
  | zero =>
    have := distinct.length_le finite
    omega
  | succ room ih =>
    by_cases known : (d.identity path).run ∈ identities d files
    · exact ⟨_, _, .known finite distinct reached known⟩
    cases holds : held d path with
    | error e => exact ⟨_, _, .failed finite distinct reached known holds⟩
    | ok c =>
      cases base : c.base with
      | none => exact ⟨_, _, .last finite distinct reached known holds base⟩
      | some reference =>
        cases there : (d.isThere (basePath path reference)).run with
        | false => exact ⟨_, _, .gone finite distinct reached known holds base there⟩
        | true =>
          have enough : d.capacity < room + (files ++ [(path, c)]).length := by
            rw [List.length_append, List.length_singleton]
            omega
          obtain ⟨outcome, reads, next⟩ := ih enough (distinct.snoc known holds) (.inr there)
          exact ⟨_, _, .next finite distinct reached known holds base there next⟩

/-! ## The end -/

/-- Nothing follows where a chain ends. -/
theorem Gives.stops {outcome : Except ConfigError (List Config)} (gives : Gives files f outcome)
    (found : Finds d files path f) (s : Stage) : ¬Goes d (files, path) s := by
  rintro ⟨found', base'⟩
  cases found.unique found'
  cases gives with
  | last base => cases base.symm.trans base'

theorem Gives.unique {outcome outcome' : Except ConfigError (List Config)}
    (gives : Gives files f outcome) (gives' : Gives files f outcome') : outcome = outcome' := by
  cases gives <;> cases gives' <;> rfl

/-- The ways from one stage that end have one end. -/
theorem end_unique {s t t' : Stage} {outcome outcome' : Except ConfigError (List Config)}
    (leads : Relation.ReflTransGen (Goes d) s t) (found : Finds d t.1 t.2 f)
    (gives : Gives t.1 f outcome) (leads' : Relation.ReflTransGen (Goes d) s t')
    (found' : Finds d t'.1 t'.2 f') (gives' : Gives t'.1 f' outcome') : t = t' := by
  have right : Relator.RightUnique (Goes d) := fun _ _ _ => Goes.unique
  rcases Relation.ReflTransGen.total_of_right_unique right leads leads' with on | on
  · rcases Relation.ReflTransGen.cases_head on with same | ⟨u, goes, -⟩
    · exact same
    · exact absurd goes (gives.stops found u)
  · rcases Relation.ReflTransGen.cases_head on with same | ⟨u, goes, -⟩
    · exact same.symm
    · exact absurd goes (gives'.stops found' u)

section Outcome

variable {outcome outcome' : Except ConfigError (List Config)} {reads : List Path}

theorem Outcome.leads (o : Outcome d ([], start) outcome reads) :
    ∃ files path f, Leads d start files path ∧ Finds d files path f ∧ Gives files f outcome := by
  obtain ⟨⟨files, path⟩, f, leads, found, gives⟩ := o.ends
  have gives : Gives files f outcome := by cases outcome <;> exact gives
  exact ⟨files, path, f, leads, found, gives⟩

/-- What the bases give where they end is what the chain comes to. -/
theorem Outcome.eq_of_leads (o : Outcome d ([], start) outcome reads)
    (leads : Leads d start files path) (found : Finds d files path f)
    (gives : Gives files f outcome') : outcome = outcome' := by
  obtain ⟨files', path', f', leads', found', gives'⟩ := o.leads
  have same : (files', path') = (files, path) :=
    end_unique leads' found' gives' leads found gives
  cases same
  cases found.unique found'
  exact gives'.unique gives

end Outcome

/-- A file without a configuration cannot be read or is malformed. -/
theorem held_error {e : ConfigError} (h : held d path = .error e) :
    e = .unreadable path ∨ ∃ cause, e = .malformed path cause := by
  unfold held at h
  split at h
  · cases h
    exact .inl rfl
  · next text _ =>
    cases parsed : read path.parent? text with
    | error cause =>
      rw [parsed] at h
      cases h
      exact .inr ⟨cause, rfl⟩
    | ok c =>
      rw [parsed] at h
      cases h

/-- A circle is found just where the file has been read. -/
theorem finds_circular {at' : Path} : Finds d files path (.error (.circular at')) ↔
    path = at' ∧ Reached d files path ∧ (d.identity path).run ∈ identities d files := by
  constructor
  · generalize what : Except.error (ConfigError.circular at') = f
    rintro (⟨named, gone⟩ | ⟨reached, known⟩ | ⟨reached, new⟩)
    · cases what
    · cases what
      exact ⟨rfl, reached, known⟩
    · rcases held_error what.symm with ⟨⟨⟩⟩ | ⟨_, ⟨⟩⟩
  · rintro ⟨rfl, reached, known⟩
    exact .known reached known

theorem not_finds_endless {at' : Path} : ¬Finds d files path (.error (.endless at')) := by
  generalize what : Except.error (ConfigError.endless at') = f
  rintro (⟨named, gone⟩ | ⟨reached, known⟩ | ⟨reached, new⟩)
  · cases what
  · cases what
  · rcases held_error what.symm with ⟨⟨⟩⟩ | ⟨_, ⟨⟩⟩

theorem Outcome.eq_error_iff {outcome : Except ConfigError (List Config)} {reads : List Path}
    (o : Outcome d ([], start) outcome reads) (e : ConfigError) : outcome = .error e ↔
      ∃ files path, Leads d start files path ∧ Finds d files path (.error e) := by
  constructor
  · rintro rfl
    obtain ⟨files, path, f, leads, found, gives⟩ := o.leads
    cases gives
    exact ⟨files, path, leads, found⟩
  · rintro ⟨files, path, leads, found⟩
    exact o.eq_of_leads leads found .error

theorem Outcome.eq_ok_iff {outcome : Except ConfigError (List Config)} {reads : List Path}
    (o : Outcome d ([], start) outcome reads) (configs : List Config) : outcome = .ok configs ↔
      ∃ files path c, Leads d start files path ∧ Finds d files path (.ok c) ∧ c.base = none ∧
        configs = files.map (·.2.detached) ++ [c] := by
  constructor
  · rintro rfl
    obtain ⟨files, path, f, leads, found, gives⟩ := o.leads
    cases gives with
    | last base => exact ⟨files, path, _, leads, found, base, rfl⟩
  · rintro ⟨files, path, c, leads, found, base, rfl⟩
    exact o.eq_of_leads leads found (.last base)

/-- On a disk with finitely many files a chain always has an outcome, which no limit above the capacity
of the disk changes, and no file is read twice for it. It is refused for a circle just if the bases lead
from the start to a file that has been read, before one that is missing, unreadable or malformed; for
one of these just if they lead to it; and without any of this it is a chain of all that was read. -/
theorem extends_ends (finite : d.Finite) (start : Path) :
    ∃ outcome reads,
      (∀ fuel, d.capacity < fuel →
        (chainFrom d.noting fuel [] start).run.run [] = (outcome, reads)) ∧
      (chain d start).run.run = outcome ∧
      (reads.map fun path => (d.identity path).run).Nodup ∧
      (∀ path, outcome = .error (.circular path) ↔ ∃ files, Leads d start files path ∧
        Reached d files path ∧ (d.identity path).run ∈ identities d files) ∧
      (∀ e, outcome = .error e ↔
        ∃ files path, Leads d start files path ∧ Finds d files path (.error e)) ∧
      (∀ path, outcome ≠ .error (.endless path)) ∧
      ∀ configs, outcome = .ok configs ↔ ∃ files path c, Leads d start files path ∧
        Finds d files path (.ok c) ∧ c.base = none ∧
        configs = files.map (·.2.detached) ++ [c] := by
  have distinct : Distinct d [] := ⟨.nil, by rintro _ ⟨⟩⟩
  have enough : d.capacity < d.capacity + 1 + ([] : List (Path × Config)).length := by simp
  have reached : Reached d [] start := .inl rfl
  obtain ⟨outcome, reads, o⟩ := exists_outcome finite (d.capacity + 1) enough distinct reached
  refine ⟨outcome, reads, o.runs, ?_, o.once, fun path => ?_, o.eq_error_iff, fun path endless => ?_,
    o.eq_ok_iff⟩
  · rw [chain, chainFrom_eq_noting _ _ _ []]
    exact congrArg Prod.fst (o.runs _ (by simp))
  · rw [o.eq_error_iff]
    constructor
    · rintro ⟨files, path', leads, found⟩
      obtain ⟨rfl, reached, known⟩ := finds_circular.1 found
      exact ⟨files, leads, reached, known⟩
    · rintro ⟨files, leads, reached, known⟩
      exact ⟨files, path, leads, .known reached known⟩
  · obtain ⟨files, path', -, found⟩ := (o.eq_error_iff _).1 endless
    exact not_finds_endless found

theorem held_of_toOption {c : Config} (h : (held d path).toOption = some c) : held d path = .ok c := by
  cases holds : held d path with
  | error e => rw [holds] at h; cases h
  | ok c' => rw [holds] at h; cases h; rfl

/-- Two files that extend each other, one of them by a roundabout path. -/
def circularTree : FileTree :=
  ⟨["w"], [(["w", "a.json"], some "\x7b\"extends\":\"b\"\x7d"),
    (["w", "b.json"], some "\x7b\"extends\":\"./a.json\",\"colors\":true\x7d")]⟩

def circularFiles : List (Path × Config) :=
  [(⟨"a.json"⟩, ⟨some "b", none, none, none, [], some ⟨""⟩⟩),
    (⟨"b.json"⟩, ⟨some "./a.json", none, some true, none, [], some ⟨""⟩⟩)]

theorem circularTree_leads : Leads circularTree.disk ⟨"a.json"⟩ circularFiles ⟨"./a.json"⟩ := by
  have near : Goes circularTree.disk ([], ⟨"a.json"⟩) (circularFiles.take 1, ⟨"b.json"⟩) := by
    have holds : held circularTree.disk ⟨"a.json"⟩ = .ok ⟨some "b", none, none, none, [], some ⟨""⟩⟩ :=
      held_of_toOption (by decide +kernel)
    have next : basePath ⟨"a.json"⟩ "b" = ⟨"b.json"⟩ := by decide +kernel
    exact next ▸ .base (holds ▸ .new (.inl rfl) (by decide +kernel)) rfl
  have far : Goes circularTree.disk (circularFiles.take 1, ⟨"b.json"⟩)
      (circularFiles, ⟨"./a.json"⟩) := by
    have holds : held circularTree.disk ⟨"b.json"⟩ =
        .ok ⟨some "./a.json", none, some true, none, [], some ⟨""⟩⟩ :=
      held_of_toOption (by decide +kernel)
    have next : basePath ⟨"b.json"⟩ "./a.json" = ⟨"./a.json"⟩ := by decide +kernel
    exact next ▸ .base (holds ▸ .new (.inr (by decide +kernel)) (by decide +kernel)) rfl
  exact .tail (.single near) far

theorem extends_ends_sample : circularTree.disk.Finite ∧
    (chain circularTree.disk ⟨"a.json"⟩).run.run = .error (.circular ⟨"./a.json"⟩) := by
  have finite := circularTree.finite_disk
  obtain ⟨outcome, reads, -, chained, -, circular, -⟩ := extends_ends finite ⟨"a.json"⟩
  have refused := (circular ⟨"./a.json"⟩).2
    ⟨circularFiles, circularTree_leads, .inr (by decide +kernel), by decide +kernel⟩
  exact ⟨finite, chained.trans refused⟩

end Config

end RunReport
