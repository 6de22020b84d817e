import RunReport.Loader
/-!
# What a loader knows

The state of each file after a request or an announcement, and who waits for which file. No file has
two states, a request adds one waiter, and an announcement takes away those of its file.
-/

namespace RunReport

namespace Loader

variable {W : Type}

/-! ## Which files are there -/

/-- The content of a file that has arrived. -/
def payload? (l : Loader W) (file : String) : Option SplitPayload :=
  match l.state? file with
  | some (.loaded p) => some p
  | _ => none

theorem payload?_of_unknown {l : Loader W} {file : String} (h : l.state? file = none) :
    l.payload? file = none := by
  rw [payload?, h]

theorem payload?_of_pending {l : Loader W} {file : String} {ws : List W}
    (h : l.state? file = some (.pending ws)) : l.payload? file = none := by
  rw [payload?, h]

theorem state?_ne_none {l : Loader W} {file : String} {p : SplitPayload}
    (h : l.payload? file = some p) : l.state? file ≠ none := by
  intro unknown
  rw [payload?_of_unknown unknown] at h
  cases h

theorem lookup_setState (file : String) (state : FileState W) (fs : List (String × FileState W))
    (name : String) :
    (setState file state fs).lookup name = if name = file then some state else fs.lookup name := by
  induction fs with
  | nil =>
    by_cases h : name = file
    · simp [setState, h]
    · simp [setState, h, List.lookup_cons, beq_eq_false_iff_ne.2 h]
  | cons f rest ih =>
    obtain ⟨other, old⟩ := f
    by_cases ho : other = file
    · subst ho
      by_cases h : name = other
      · simp [setState, h]
      · simp [setState, h, List.lookup_cons, beq_eq_false_iff_ne.2 h]
    · by_cases h : name = other
      · subst h
        simp [setState, ho]
      · simp only [setState, if_neg ho, List.lookup_cons, beq_eq_false_iff_ne.2 h, ih]

theorem state?_ensure (l : Loader W) (file : String) (w : W) (name : String) :
    (l.ensure file w).2.state? name =
      match l.state? file with
      | some (.loaded _) => l.state? name
      | some (.pending ws) => if name = file then some (.pending (ws ++ [w])) else l.state? name
      | none => if name = file then some (.pending [w]) else l.state? name := by
  simp only [ensure]
  cases h : l.state? file with
  | none => exact lookup_setState ..
  | some state =>
    cases state with
    | loaded p => rfl
    | pending ws => exact lookup_setState ..

theorem ensure_fst (l : Loader W) (file : String) (w : W) : (l.ensure file w).1 = l.payload? file := by
  simp only [ensure, payload?]
  cases l.state? file with
  | none => rfl
  | some state => cases state <;> rfl

theorem ensure_loaded {l : Loader W} {file : String} {p : SplitPayload}
    (h : l.payload? file = some p) (w : W) : l.ensure file w = (some p, l) := by
  simp only [payload?] at h
  split at h
  · rename_i hs
    cases h
    simp only [ensure, hs]
  · cases h

/-- Asking for a file brings none. -/
theorem payload?_ensure (l : Loader W) (file : String) (w : W) :
    (l.ensure file w).2.payload? = l.payload? := by
  funext name
  simp only [payload?, state?_ensure]
  cases h : l.state? file with
  | none =>
    by_cases hn : name = file
    · subst hn; simp [h]
    · simp [hn]
  | some state =>
    cases state with
    | loaded p => rfl
    | pending ws =>
      by_cases hn : name = file
      · subst hn; simp [h]
      · simp [hn]

theorem state?_announce (l : Loader W) (file : String) (p : SplitPayload) (name : String) :
    (l.announce file p).2.state? name =
      if name = file then some (.loaded ((l.payload? file).getD p)) else l.state? name := by
  simp only [announce, payload?]
  cases h : l.state? file with
  | none => exact lookup_setState ..
  | some state =>
    cases state with
    | loaded q =>
      by_cases hn : name = file
      · subst hn; simp [h]
      · simp [hn]
    | pending ws => exact lookup_setState ..

theorem payload?_announce (l : Loader W) (file : String) (p : SplitPayload) (name : String) :
    (l.announce file p).2.payload? name =
      if name = file then some ((l.payload? file).getD p) else l.payload? name := by
  rw [payload?, state?_announce]
  by_cases hn : name = file
  · simp [hn]
  · simp [hn, payload?]

theorem isLoaded_iff (l : Loader W) (file : String) :
    l.isLoaded file = (l.payload? file).isSome := by
  simp only [isLoaded, payload?]
  cases l.state? file with
  | none => rfl
  | some state => cases state <;> rfl

/-! ## Requests -/

/-- A request is made for a file nobody has asked for. -/
theorem queue_ensure (l : Loader W) (file : String) (w : W) :
    (l.ensure file w).2.queue = l.queue ++ match l.state? file with
      | none => [file]
      | some _ => [] := by
  simp only [ensure]
  cases l.state? file with
  | none => rfl
  | some state => cases state <;> simp

theorem length_queue_ensure (l : Loader W) (file : String) (w : W) :
    (l.ensure file w).2.queue.length ≤ l.queue.length + 1 := by
  rw [queue_ensure]
  cases l.state? file <;> simp

theorem requests_ensure (l : Loader W) (file : String) (w : W) :
    (l.ensure file w).2.requests = l.requests + match l.state? file with
      | none => 1
      | some _ => 0 := by
  simp only [ensure]
  cases l.state? file with
  | none => rfl
  | some state => cases state <;> rfl

theorem queue_announce (l : Loader W) (file : String) (p : SplitPayload) :
    (l.announce file p).2.queue = l.queue := by
  simp only [announce]
  cases l.state? file with
  | none => rfl
  | some state => cases state <;> rfl

theorem requests_announce (l : Loader W) (file : String) (p : SplitPayload) :
    (l.announce file p).2.requests = l.requests := by
  simp only [announce]
  cases l.state? file with
  | none => rfl
  | some state => cases state <;> rfl

/-! ## Who waits -/

/-- Every waiter with the file it waits for. -/
def parked (l : Loader W) : List (String × W) :=
  l.files.flatMap fun f => (waitersOf f.2).map (f.1, ·)

theorem waiters_eq_parked (l : Loader W) : l.waiters = l.parked.map Prod.snd := by
  simp [waiters, parked, List.map_flatMap, Function.comp_def]

def names (l : Loader W) : List String :=
  l.files.map Prod.fst

theorem keys_setState (file : String) (state : FileState W) (fs : List (String × FileState W)) :
    (setState file state fs).map Prod.fst =
      if file ∈ fs.map Prod.fst then fs.map Prod.fst else fs.map Prod.fst ++ [file] := by
  induction fs with
  | nil => rfl
  | cons f rest ih =>
    obtain ⟨name, old⟩ := f
    by_cases h : name = file
    · subst h
      simp [setState]
    · simp only [setState, if_neg h, List.map_cons, ih, List.mem_cons, Ne.symm h, false_or]
      split <;> rfl

theorem nodup_setState (file : String) (state : FileState W) {fs : List (String × FileState W)}
    (h : (fs.map Prod.fst).Nodup) : ((setState file state fs).map Prod.fst).Nodup := by
  rw [keys_setState]
  split
  · exact h
  · rename_i new
    refine List.nodup_append.2 ⟨h, by simp, ?_⟩
    intro a ha b hb hab
    simp only [List.mem_singleton] at hb
    exact new (hb ▸ hab ▸ ha)

theorem mem_names {l : Loader W} {file : String} (h : l.state? file ≠ none) : file ∈ l.names := by
  obtain ⟨state, hs⟩ := Option.ne_none_iff_exists'.1 h
  obtain ⟨before, after, split, -⟩ := List.lookup_eq_some_iff.1 hs
  simp [names, split]

theorem nodup_ensure {l : Loader W} (h : l.names.Nodup) (file : String) (w : W) :
    (l.ensure file w).2.names.Nodup := by
  simp only [ensure, names]
  cases l.state? file with
  | none => exact nodup_setState file _ h
  | some state =>
    cases state with
    | loaded p => exact h
    | pending ws => exact nodup_setState file _ h

theorem nodup_announce {l : Loader W} (h : l.names.Nodup) (file : String) (p : SplitPayload) :
    (l.announce file p).2.names.Nodup := by
  simp only [announce, names]
  cases l.state? file with
  | none => exact nodup_setState file _ h
  | some state =>
    cases state with
    | loaded p => exact h
    | pending ws => exact nodup_setState file _ h

/-- The waiters of one file stand for themselves in the list of all. -/
theorem parked_setState (file : String) (state : FileState W) (fs : List (String × FileState W)) :
    List.Perm
      ((setState file state fs).flatMap (fun f => (waitersOf f.2).map (f.1, ·)) ++
        (((fs.lookup file).map waitersOf).getD []).map (file, ·))
      (fs.flatMap (fun f => (waitersOf f.2).map (f.1, ·)) ++ (waitersOf state).map (file, ·)) := by
  induction fs with
  | nil => simp [setState]
  | cons f rest ih =>
    obtain ⟨name, old⟩ := f
    by_cases hn : name = file
    · subst hn
      simp only [setState, if_true, List.flatMap_cons, List.lookup_cons, beq_self_eq_true,
        Option.map_some, Option.getD_some]
      refine List.perm_append_comm.trans ?_
      rw [List.append_assoc]
      exact List.perm_append_comm.append_left _
    · simp only [setState, if_neg hn, List.flatMap_cons, List.lookup_cons,
        beq_eq_false_iff_ne.2 (Ne.symm hn), List.append_assoc]
      exact ih.append_left _

/-- Somebody who asks for a file that is not there waits for it. -/
theorem parked_ensure {l : Loader W} {file : String} (h : l.payload? file = none) (w : W) :
    List.Perm (l.ensure file w).2.parked (l.parked ++ [(file, w)]) := by
  simp only [payload?, ensure, parked] at h ⊢
  cases hs : l.state? file with
  | none =>
    have perm := parked_setState file (.pending [w]) l.files
    rw [show l.files.lookup file = none from hs] at perm
    simpa [waitersOf] using perm
  | some state =>
    cases state with
    | loaded p => rw [hs] at h; cases h
    | pending ws =>
      have perm := parked_setState file (.pending (ws ++ [w])) l.files
      rw [show l.files.lookup file = some (.pending ws) from hs] at perm
      simp only [waitersOf, List.map_append, List.map_cons, List.map_nil, Option.map_some,
        Option.getD_some] at perm
      refine (List.perm_append_right_iff (ws.map (file, ·))).1 (perm.trans ?_)
      rw [List.append_assoc]
      exact List.perm_append_comm.append_left _

/-- An announcement releases those who wait for its file and nobody else. -/
theorem parked_announce (l : Loader W) (file : String) (p : SplitPayload) :
    List.Perm ((l.announce file p).2.parked ++ (l.announce file p).1.map (file, ·)) l.parked := by
  simp only [announce, parked]
  cases hs : l.state? file with
  | none =>
    have perm := parked_setState file (.loaded p) l.files
    rw [show l.files.lookup file = none from hs] at perm
    simpa [waitersOf] using perm
  | some state =>
    cases state with
    | loaded q => simp
    | pending ws =>
      have perm := parked_setState file (.loaded p) l.files
      rw [show l.files.lookup file = some (.pending ws) from hs] at perm
      simpa [waitersOf] using perm

/-- Those who wait for one file, in the order they came. -/
def waitersFor (l : Loader W) (file : String) : List W :=
  ((l.state? file).map waitersOf).getD []

theorem waitersFor_ensure {l : Loader W} {file : String} (h : l.payload? file = none) (w : W)
    (name : String) : (l.ensure file w).2.waitersFor name =
      if name = file then l.waitersFor file ++ [w] else l.waitersFor name := by
  simp only [waitersFor, state?_ensure, payload?] at h ⊢
  cases hs : l.state? file with
  | none => by_cases hn : name = file <;> simp [hn, waitersOf]
  | some state =>
    cases state with
    | loaded p => rw [hs] at h; cases h
    | pending ws => by_cases hn : name = file <;> simp [hn, waitersOf]

theorem announce_releases {l : Loader W} {file : String} (h : l.payload? file = none)
    (p : SplitPayload) : (l.announce file p).1 = l.waitersFor file := by
  simp only [announce, waitersFor, payload?] at h ⊢
  cases hs : l.state? file with
  | none => rfl
  | some state =>
    cases state with
    | loaded q => rw [hs] at h; cases h
    | pending ws => rfl

theorem waitersFor_announce (l : Loader W) {file name : String} (h : name ≠ file)
    (p : SplitPayload) : (l.announce file p).2.waitersFor name = l.waitersFor name := by
  rw [waitersFor, state?_announce, if_neg h, waitersFor]

theorem announce_loaded {l : Loader W} {file : String} {q : SplitPayload}
    (h : l.payload? file = some q) (p : SplitPayload) : l.announce file p = ([], l) := by
  simp only [payload?] at h
  split at h
  · rename_i hs
    simp only [announce, hs]
  · cases h

theorem mem_waitersOf {state : FileState W} {w : W} :
    w ∈ waitersOf state ↔ ∃ ws, state = .pending ws ∧ w ∈ ws := by
  cases state <;> simp [waitersOf]

theorem mem_parked {l : Loader W} (h : l.names.Nodup) {file : String} {w : W} :
    (file, w) ∈ l.parked ↔ ∃ ws, l.state? file = some (.pending ws) ∧ w ∈ ws := by
  obtain ⟨files, requests, queue⟩ := l
  simp only [parked, state?, names] at h ⊢
  induction files with
  | nil => simp
  | cons f rest ih =>
    obtain ⟨name, state⟩ := f
    simp only [List.map_cons, List.nodup_cons] at h
    simp only [List.flatMap_cons, List.mem_append, List.mem_map, Prod.mk.injEq]
    by_cases hn : file = name
    · subst hn
      have nowhere : (file, w) ∉ rest.flatMap fun f => (waitersOf f.2).map (f.1, ·) := by
        simp only [List.mem_flatMap, List.mem_map, Prod.mk.injEq]
        rintro ⟨f, hf, -, -, hname, -⟩
        exact h.1 (List.mem_map.2 ⟨f, hf, hname⟩)
      simp [nowhere, mem_waitersOf]
    · rw [List.lookup_cons, beq_eq_false_iff_ne.2 hn, ← ih h.2]
      constructor
      · rintro (⟨-, -, hname, -⟩ | below)
        · exact absurd hname.symm hn
        · exact below
      · exact .inr

end Loader

end RunReport
