import RunReport.Proofs.Tickets
/-!
# Calls

An announcement or a request that has begun owes the file to some who asked before it ends. What it
owes has been given in turn, or stands on the agenda in front of the task that ends the call. Each
call ends once.
-/

namespace RunReport.Loader

variable {l l' : Ledger} {t : Task} {new rest : List Task}

/-- Before the call ends, `numbers` get their file in this order. -/
def Due (e : Happening) (numbers : List Nat) (post : List Happening) (agenda : List Task) : Prop :=
  (∃ mid tail, post = mid ++ e :: tail ∧ (runners mid).filter (· ∈ numbers) = numbers) ∨
    ∃ first t last, agenda = first ++ t :: last ∧ t.end? = some e ∧
      ((runs post ++ wakes first).map (·.1.number)).filter (· ∈ numbers) = numbers

theorem Due.step {e : Happening} {numbers : List Nat} {post es : List Happening}
    {others : List (Ticket × String × SplitPayload)} (due : Due e numbers post (t :: rest))
    (step : Delivers l t new l' es others) (apart : ∀ r ∈ others, r.1.number ∉ numbers) :
    Due e numbers (post ++ es) (new ++ rest) := by
  rcases due with ⟨mid, tail, rfl, order⟩ | ⟨first, d, last, agenda, ends, order⟩
  · exact .inl ⟨mid, tail ++ es, by simp, order⟩
  · cases first with
    | nil =>
      -- The next task ends the call, and nobody stands in front of it any more.
      obtain ⟨rfl, rfl⟩ := List.cons.inj agenda
      obtain ⟨rfl, rfl⟩ := step.ends e ends
      exact .inl ⟨post, [], by simp, by simpa using order⟩
    | cons u first =>
      obtain ⟨rfl, rfl⟩ := List.cons.inj agenda
      refine .inr ⟨new ++ first, d, last, by simp, ends, ?_⟩
      -- What the step delivers takes the place of its task; the others are not counted.
      have same : runs (post ++ es) ++ wakes (new ++ first) =
          runs post ++ (wakes [t] ++ others) ++ wakes first := by
        rw [← step.delivers]
        simp only [List.filterMap_append, List.append_assoc]
      have nobody : (others.map (·.1.number)).filter (· ∈ numbers) = [] := by
        rw [List.filter_eq_nil_iff]
        intro n hn
        obtain ⟨r, hr, rfl⟩ := List.mem_map.1 hn
        simpa using apart r hr
      rw [wakes_cons] at order
      rw [same]
      simp only [List.map_append, List.filter_append, nobody, List.nil_append, List.append_assoc]
        at order ⊢
      exact order

/-- What a call that begins owes before it ends. -/
inductive Owes (pre : List Happening) : Happening → Happening → List Nat → Prop where
  /-- The first announcement serves all who have asked. -/
  | arrival {file p} (absent : (announcements pre).lookup file = none) :
      Owes pre (.announced file p) (.finished file) (askersOf file pre)
  /-- A request for a file that is there serves the one who asks. -/
  | request {k file p} (there : (announcements pre).lookup file = some p) :
      Owes pre (.asked k file) (.returned k.number) [k.number]

def Punctual (agenda : List Task) (l : Ledger) : Prop :=
  ∀ pre e post d numbers, l.history = pre ++ e :: post → Owes pre e d numbers →
    Due d numbers post agenda

theorem split_append {α : Type} {xs ys pre post : List α} {x : α}
    (h : xs ++ ys = pre ++ x :: post) :
    (∃ mid, xs = pre ++ x :: mid ∧ post = mid ++ ys) ∨
      ∃ mid, pre = xs ++ mid ∧ ys = mid ++ x :: post := by
  rcases List.append_eq_append_iff.1 h with ⟨mid, rfl, hys⟩ | ⟨mid, rfl, hpost⟩
  · exact .inr ⟨mid, rfl, hys⟩
  · cases mid with
    | nil => exact .inr ⟨[], by simp, by simpa using hpost.symm⟩
    | cons y mid =>
      obtain ⟨rfl, rfl⟩ := List.cons.inj hpost
      exact .inl ⟨mid, rfl, rfl⟩

theorem head_of_split {α : Type} {x y : α} {xs mid post : List α} (h : x :: xs = mid ++ y :: post)
    (not_later : y ∉ xs) : mid = [] ∧ x = y ∧ xs = post := by
  cases mid with
  | nil =>
    obtain ⟨rfl, rfl⟩ := List.cons.inj h
    exact ⟨rfl, rfl, rfl⟩
  | cons z mid =>
    obtain ⟨rfl, rfl⟩ := List.cons.inj h
    simp at not_later

/-- What is owed is owed to those whose file is there. -/
theorem Accounted.owed_loaded {agenda : List Task} (h : Accounted agenda l)
    {pre post : List Happening} {e d : Happening} {numbers : List Nat}
    (history : l.history = pre ++ e :: post) (owes : Owes pre e d numbers) {n : Nat}
    (hn : n ∈ numbers) :
    ∃ file p, n ∈ askersOf file l.history ∧ l.loader.payload? file = some p := by
  cases owes with
  | @arrival file p absent =>
    refine ⟨file, p, ?_, ?_⟩
    · rw [history]
      simp only [List.filterMap_append]
      exact List.mem_append_left _ hn
    · rw [h.loaded, history]
      simp [List.lookup_append, absent]
  | @request k file p there =>
    refine ⟨file, p, ?_, ?_⟩
    · rw [history, List.mem_singleton.1 hn]
      exact mem_askersOf.2 ⟨k, by simp, rfl⟩
    · rw [h.loaded, history]
      simp [List.lookup_append, there]

/-- Others who get a file in a step are owed nothing by a call that has begun. -/
theorem Accounted.apart {agenda : List Task} (h : Accounted agenda l)
    {pre post es : List Happening} {e d : Happening} {numbers : List Nat}
    {others : List (Ticket × String × SplitPayload)}
    (history : l.history = pre ++ e :: post) (owes : Owes pre e d numbers)
    (step : Delivers l t new l' es others) : ∀ r ∈ others, r.1.number ∉ numbers := by
  intro r hr hn
  obtain ⟨file, p, asked, there⟩ := h.owed_loaded history owes hn
  rcases step.others r hr with new | ⟨absent, waits⟩
  · have := h.asker_lt asked
    omega
  · have number : r.1.number ∈ (l.loader.waitersFor r.2.1).map (·.number) :=
      List.mem_map.2 ⟨_, waits, rfl⟩
    rw [h.waiting r.2.1 absent] at number
    rw [h.file_unique asked number, absent] at there
    cases there

/-- An announcement that is the first of its file has all who asked for it on the agenda. -/
theorem Acts.first_announcement (acts : Acts l t new l') {agenda : List Task}
    (h : Accounted agenda l) {mid post : List Happening} {file : String} {p : SplitPayload}
    (history : l'.history = l.history ++ (mid ++ .announced file p :: post))
    (absent : (announcements (l.history ++ mid)).lookup file = none) :
    Due (.finished file) (askersOf file (l.history ++ mid)) post (new ++ rest) := by
  cases acts with
  | arrives free missing =>
    obtain ⟨rfl, same, rfl⟩ := head_of_split (List.append_cancel_left history) (by simp)
    cases same
    rw [List.append_nil]
    refine .inr ⟨(l.loader.waitersFor file).map (.wake · file p), .finish file, rest, ?_, rfl, ?_⟩
    · simp
    · rw [wakes_waiters, ← h.waiting file missing, List.filter_eq_self.2]
      · simp
      · intro n hn
        simpa using hn
  | again free there =>
    obtain ⟨rfl, same, rfl⟩ := head_of_split (List.append_cancel_left history) (by simp)
    cases same
    rw [List.append_nil, ← h.loaded, there] at absent
    cases absent
  | _ => simp [List.cons_eq_append_iff] at history

/-- Who asks for a file that is there is the next to get it. -/
theorem Acts.request_at_once (acts : Acts l t new l') {agenda : List Task} (h : Accounted agenda l)
    {mid post : List Happening} {k : Ticket} {file : String} {p : SplitPayload}
    (history : l'.history = l.history ++ (mid ++ .asked k file :: post))
    (there : (announcements (l.history ++ mid)).lookup file = some p) :
    Due (.returned k.number) [k.number] post (new ++ rest) := by
  cases acts with
  | requests free number unknown =>
    obtain ⟨rfl, same, rfl⟩ := head_of_split (List.append_cancel_left history) (by simp)
    cases same
    rw [List.append_nil, ← h.loaded, payload?_of_unknown unknown] at there
    cases there
  | joins free number pending =>
    obtain ⟨rfl, same, rfl⟩ := head_of_split (List.append_cancel_left history) (by simp)
    cases same
    rw [List.append_nil, ← h.loaded, payload?_of_pending pending] at there
    cases there
  | @hasIt _ _ _ q free number loaded =>
    obtain ⟨rfl, same, rfl⟩ := head_of_split (List.append_cancel_left history) (by simp)
    cases same
    exact .inr ⟨[.wake k file q], .giveBack k.number, rest, rfl, rfl, by simp⟩
  | _ => simp [List.cons_eq_append_iff] at history

theorem Punctual.step (acts : Acts l t new l') (h : Accounted (t :: rest) l)
    (punctual : Punctual (t :: rest) l) : Punctual (new ++ rest) l' := by
  intro pre e post d numbers history owes
  obtain ⟨es, others, step⟩ := acts.delivers
  rcases split_append (step.history.symm.trans history) with ⟨mid, hpre, rfl⟩ | ⟨mid, rfl, hes⟩
  · exact (punctual pre e mid d numbers hpre owes).step step (h.apart hpre owes step)
  · rw [hes] at step
    cases owes with
    | arrival absent => exact acts.first_announcement h step.history absent
    | request there => exact acts.request_at_once h step.history there

/-- The call that ends so has begun. -/
def Begun (l : Ledger) : Happening → Prop
  | .returned number => number < l.issued
  | .finished file => l.loader.payload? file ≠ none
  | _ => True

theorem Acts.begun (acts : Acts l t new l') {e : Happening} (h : Begun l e) : Begun l' e := by
  cases e with
  | returned n =>
    have lt : n < l.issued := h
    have le : l.issued ≤ l'.issued := by
      cases acts with
      | requests | joins | hasIt => exact Nat.le_succ _
      | _ => exact Nat.le_refl _
    exact Nat.lt_of_lt_of_le lt le
  | finished file =>
    obtain ⟨p, there⟩ := Option.ne_none_iff_exists'.1 h
    exact Option.ne_none_iff_exists'.2 ⟨p, acts.keeps_payload there⟩
  | _ => trivial

/-- The ends to come after a step are those before it and that of a call that begins with it. -/
theorem Acts.endings (acts : Acts l t new l') (rest : List Task) :
    ∃ fresh, ends l'.history ++ endings (new ++ rest) =
        ends l.history ++ fresh ++ endings (t :: rest) ∧
      fresh.Nodup ∧ ∀ e ∈ fresh, ¬ Begun l e ∧ Begun l' e := by
  cases acts with
  | nothing free next =>
    refine ⟨[], ?_, by simp, by simp⟩
    rw [free.endings_cons, next.endings_append, List.append_nil]
  | takes free next =>
    refine ⟨[], ?_, by simp, by simp⟩
    rw [free.endings_cons, next.endings_append]
    simp [List.filterMap_cons]
  | @requests _ _ k free number unknown =>
    refine ⟨[.returned k.number], ?_, by simp, by simp [Begun, number]⟩
    rw [free.endings_cons]
    simp [List.filterMap_cons]
  | @joins _ _ k _ free number pending =>
    refine ⟨[.returned k.number], ?_, by simp, by simp [Begun, number]⟩
    rw [free.endings_cons]
    simp [List.filterMap_cons]
  | @hasIt _ _ k _ free number there =>
    refine ⟨[.returned k.number], ?_, by simp, by simp [Begun, number]⟩
    rw [free.endings_cons]
    simp [List.filterMap_cons]
  | @arrives _ file p free absent =>
    refine ⟨[.finished file], ?_, by simp, by simp [Begun, absent, payload?_announce]⟩
    rw [free.endings_cons]
    simp only [List.filterMap_append, endings_waiters]
    simp [List.filterMap_cons]
  | again free there =>
    refine ⟨[], ?_, by simp, by simp⟩
    rw [free.endings_cons]
    simp [List.filterMap_cons]
  | hands next =>
    refine ⟨[], ?_, by simp, by simp⟩
    rw [next.endings_append]
    simp [List.filterMap_cons]
  | givesBack => exact ⟨[], by simp, by simp, by simp⟩
  | finishes => exact ⟨[], by simp, by simp, by simp⟩

/-- No call ends twice. -/
structure EndsOnce (agenda : List Task) (l : Ledger) : Prop where
  once : (ends l.history ++ endings agenda).Nodup
  begun : ∀ e ∈ ends l.history ++ endings agenda, Begun l e

theorem EndsOnce.step (acts : Acts l t new l') (h : EndsOnce (t :: rest) l) :
    EndsOnce (new ++ rest) l' := by
  obtain ⟨fresh, same, nodup, begins⟩ := acts.endings rest
  have perm : List.Perm (ends l.history ++ fresh ++ endings (t :: rest))
      (fresh ++ (ends l.history ++ endings (t :: rest))) := by
    rw [← List.append_assoc]
    exact List.perm_append_comm.append_right _
  constructor
  · rw [same, perm.nodup_iff, List.nodup_append]
    refine ⟨nodup, h.once, ?_⟩
    rintro e he _ old rfl
    exact (begins e he).1 (h.begun e old)
  · intro e he
    rw [same, perm.mem_iff, List.mem_append] at he
    rcases he with fresh | old
    · exact (begins e fresh).2
    · exact acts.begun (h.begun e old)

end RunReport.Loader
