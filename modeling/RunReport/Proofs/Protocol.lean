import RunReport.Proofs.Calls
/-!
# The loader's promises

A file is requested when somebody asks for it before it is announced, and only then. With what holds
of tickets and calls, that is what a host can rely on after every run, when nothing is left to do.
-/

namespace RunReport.Loader

variable {l l' : Ledger} {t : Task} {new rest : List Task}

/-! ## Requests -/

/-- A file is requested when somebody asks for it before it is announced, and only then. -/
structure Requested (l : Ledger) : Prop where
  once : (pushes l.history).Nodup
  counted : l.loader.requests = (pushes l.history).length
  queued : pushes l.history = pops l.history ++ l.loader.queue
  known : ∀ file, l.loader.state? file = none ↔ firstContact? file l.history = none
  pushed : ∀ file, file ∈ pushes l.history ↔ firstContact? file l.history = some true

/-- A step without a request: whoever asks does so for a file that is known. -/
theorem Requested.unasked (h : Requested l) {es : List Happening}
    (history : l'.history = l.history ++ es) (pushes_es : pushes es = []) (pops_es : pops es = [])
    (requests : l'.loader.requests = l.loader.requests) (queue : l'.loader.queue = l.loader.queue)
    (known : ∀ file, l'.loader.state? file = none ↔
      l.loader.state? file = none ∧ firstContact? file es = none)
    (late : ∀ file, firstContact? file es = some true → l.loader.state? file ≠ none) :
    Requested l' := by
  have pushes_same : pushes l'.history = pushes l.history := by
    simp only [history, List.filterMap_append, pushes_es, List.append_nil]
  have pops_same : pops l'.history = pops l.history := by
    simp only [history, List.filterMap_append, pops_es, List.append_nil]
  have contact (file : String) : firstContact? file l'.history =
      (firstContact? file l.history).or (firstContact? file es) := by
    rw [history, firstContact?, List.findSome?_append]
  refine ⟨?_, ?_, ?_, ?_, ?_⟩
  · rw [pushes_same]
    exact h.once
  · rw [pushes_same, requests]
    exact h.counted
  · rw [pushes_same, pops_same, queue]
    exact h.queued
  · intro file
    rw [known, contact, h.known, Option.or_eq_none_iff]
  · intro file
    rw [pushes_same, contact, h.pushed]
    cases before : firstContact? file l.history with
    | some b => rfl
    | none =>
      simp only [Option.none_or, reduceCtorEq, false_iff]
      exact fun asks => late file asks ((h.known file).2 before)

/-- The first to ask for a file requests it. -/
theorem Requested.first_request (h : Requested l) {file : String} {k : Ticket}
    (unknown : l.loader.state? file = none) :
    Requested ⟨(l.loader.ensure file k).2, l.issued + 1,
      l.history ++ [.asked k file, .pushed file, .returned k.number]⟩ := by
  have new : firstContact? file l.history = none := (h.known file).1 unknown
  have unpushed : file ∉ pushes l.history := by
    rw [h.pushed, new]
    simp
  have pushes' : pushes (l.history ++ [.asked k file, .pushed file, .returned k.number]) =
      pushes l.history ++ [file] := by
    simp [List.filterMap_cons]
  have contact' (name : String) :
      firstContact? name (l.history ++ [.asked k file, .pushed file, .returned k.number]) =
        (firstContact? name l.history).or (if file = name then some true else none) := by
    rw [firstContact?, List.findSome?_append]
    by_cases hn : file = name <;> simp [hn, List.findSome?_cons]
  refine ⟨?_, ?_, ?_, ?_, ?_⟩
  · rw [pushes', List.nodup_append]
    refine ⟨h.once, by simp, ?_⟩
    rintro name old _ hn rfl
    exact unpushed (List.mem_singleton.1 hn ▸ old)
  · rw [requests_ensure, unknown, pushes', List.length_append, h.counted]
    rfl
  · rw [queue_ensure, unknown, pushes', h.queued]
    simp [List.filterMap_cons]
  · intro name
    rw [contact', state?_ensure, unknown]
    by_cases hn : name = file
    · simp [hn]
    · simp [hn, Ne.symm hn, h.known]
  · intro name
    rw [contact', pushes', List.mem_append, List.mem_singleton, h.pushed]
    by_cases hn : name = file
    · simp [hn, new]
    · simp [hn, Ne.symm hn]

theorem Requested.step (acts : Acts l t new l') (h : Requested l) : Requested l' := by
  cases acts with
  | nothing => exact h
  | @takes _ _ file queue free next hq =>
    refine ⟨?_, ?_, ?_, ?_, ?_⟩
    · simpa [List.filterMap_cons] using h.once
    · simpa [List.filterMap_cons] using h.counted
    · have queued := h.queued
      rw [hq] at queued
      simpa [List.filterMap_cons] using queued
    · intro name
      refine (h.known name).trans ?_
      simp [List.findSome?_append]
    · intro name
      simpa [List.filterMap_cons, List.findSome?_append] using h.pushed name
  | requests free number unknown => exact h.first_request unknown
  | @joins _ file k ks free number pending =>
    refine h.unasked rfl rfl rfl ?_ ?_ ?_ ?_
    · simp [requests_ensure, pending]
    · simp [queue_ensure, pending]
    · intro name
      by_cases hn : name = file
      · simp [state?_ensure, pending, hn]
      · simp [state?_ensure, pending, hn, Ne.symm hn]
    · intro name asks
      by_cases hn : name = file
      · simp [hn, pending]
      · simp [Ne.symm hn] at asks
  | @hasIt _ file k p free number there =>
    refine h.unasked rfl rfl rfl rfl rfl ?_ ?_
    · intro name
      by_cases hn : name = file
      · simp [hn, state?_ne_none there]
      · simp [Ne.symm hn]
    · intro name asks
      by_cases hn : name = file
      · simp [hn, state?_ne_none there]
      · simp [Ne.symm hn] at asks
  | @arrives _ file p free absent =>
    refine h.unasked rfl rfl rfl (requests_announce ..) (queue_announce ..) ?_ ?_
    · intro name
      by_cases hn : name = file
      · simp [state?_announce, hn]
      · simp [state?_announce, hn, Ne.symm hn]
    · intro name asks
      by_cases hn : name = file
      · simp [hn] at asks
      · simp [Ne.symm hn] at asks
  | @again _ file p q free there =>
    refine h.unasked rfl rfl rfl rfl rfl ?_ ?_
    · intro name
      by_cases hn : name = file
      · simp [hn, state?_ne_none there]
      · simp [Ne.symm hn]
    · intro name asks
      by_cases hn : name = file
      · simp [hn] at asks
      · simp [Ne.symm hn] at asks
  | hands | givesBack | finishes =>
    exact h.unasked rfl rfl rfl rfl rfl (fun name => by simp) (fun name contact => by simp at contact)

/-! ## What is written down -/

/-- Who asks in a task, and for which file. -/
def Host.askedIn (h : Host) : Task → List (Ticket × String)
  | .command (.ensure file label andThen) => [(⟨h.issued, .callback label andThen⟩, file)]
  | .command (.future file _) => [(⟨h.issued, .future h.futures.length⟩, file)]
  | _ => []

def Task.announced : Task → List (String × SplitPayload)
  | .announce file p => [(file, p)]
  | _ => []

/-- The request that is taken in a task. -/
def Host.poppedIn (h : Host) : Task → List String
  | .command .pop => h.loader.queue.take 1
  | .serve _ _ => h.loader.queue.take 1
  | _ => []

/-- What a task writes down of those who ask, of files that come, of those who get them, and of
requests that are taken. -/
structure Writes (h : Host) (t : Task) (h' : Host) (new : List Happening) : Prop where
  history : h'.history = h.history ++ new
  asked : asks new = h.askedIn t
  announced : announcements new = t.announced
  ran : runs new = t.wake?.toList
  popped : pops new = h.poppedIn t

theorem ask_writes (h : Host) (file : String) (waiter : HostWaiter) :
    ∃ new, (h.ask file waiter).2.history = h.history ++ new ∧
      asks new = [(⟨h.issued, waiter⟩, file)] ∧ announcements new = [] ∧ runs new = [] ∧
      pops new = [] := by
  have queue := queue_ensure h.loader file ⟨h.issued, waiter⟩
  simp only [Host.ask, queue]
  split
  · exact ⟨_, rfl, rfl, rfl, rfl, rfl⟩
  · refine ⟨_, rfl, ?_⟩
    cases h.loader.state? file with
    | none => simp [List.filterMap_cons]
    | some state => simp [List.filterMap_cons]

theorem pop_writes (h : Host) : ∃ new, h.pop.2.history = h.history ++ new ∧ asks new = [] ∧
    announcements new = [] ∧ runs new = [] ∧ pops new = h.loader.queue.take 1 := by
  refine ⟨_, rfl, ?_⟩
  cases queue : h.loader.queue with
  | nil => simp
  | cons file rest => simp [List.filterMap_cons]

/-- Every command that asks or announces is in the history, and so is everybody who gets a file. -/
theorem act_writes (h : Host) (t : Task) : ∃ new, Writes h t (h.act t).2 new := by
  have nothing {h' : Host} (same : h'.history = h.history) (asked : h.askedIn t = [])
      (announced : t.announced = []) (ran : t.wake? = none) (popped : h.poppedIn t = []) :
      ∃ new, Writes h t h' new :=
    ⟨[], by simp [same], by simp [asked], by simp [announced], by rw [ran]; rfl, by simp [popped]⟩
  cases t with
  | command c =>
    cases c with
    | ensure file label andThen =>
      obtain ⟨new, history, asked, announced, ran, popped⟩ := ask_writes h file _
      exact ⟨new, history, asked, announced, ran, popped⟩
    | future file label =>
      obtain ⟨new, history, asked, announced, ran, popped⟩ := ask_writes (h.promise label) file _
      exact ⟨new, history, asked, announced, ran, popped⟩
    | announce file text =>
      simp only [Host.act, Host.perform]
      cases SplitPayload.read text <;> exact nothing rfl rfl rfl rfl rfl
    | state file => exact nothing rfl rfl rfl rfl rfl
    | pop =>
      obtain ⟨new, history, asked, announced, ran, popped⟩ := pop_writes h
      exact ⟨new, history, asked, announced, ran, popped⟩
    | serve dir => exact nothing rfl rfl rfl rfl rfl
    | poll label =>
      simp only [Host.act, Host.perform, Host.poll]
      split
      · exact nothing rfl rfl rfl rfl rfl
      · split <;> exact nothing rfl rfl rfl rfl rfl
  | wake k file p =>
    obtain ⟨number, waiter⟩ := k
    cases waiter <;> exact ⟨[.ran _ file p], rfl, rfl, rfl, rfl, rfl⟩
  | giveBack number => exact ⟨[.returned number], rfl, rfl, rfl, rfl, rfl⟩
  | announce file p =>
    simp only [Host.act, Host.announce]
    split <;> exact ⟨[.announced file p], rfl, rfl, rfl, rfl, rfl⟩
  | finish file => exact ⟨[.finished file], rfl, rfl, rfl, rfl, rfl⟩
  | serve dir served =>
    obtain ⟨new, history, asked, announced, ran, popped⟩ := pop_writes h
    have writes {h' : Host} (same : h'.history = h.pop.2.history) :
        Writes h (.serve dir served) h' new :=
      ⟨same.trans history, asked, announced, ran, popped⟩
    refine ⟨new, ?_⟩
    simp only [Host.act, Host.serve]
    split
    · rename_i h' taken
      exact writes (by rw [taken]; rfl)
    · rename_i file h' taken
      split
      · exact writes (by rw [taken]; rfl)
      · split
        · exact writes (by rw [taken]; rfl)
        · exact writes (by rw [taken])

/-! ## Runs -/

structure InOrder (agenda : List Task) (l : Ledger) : Prop where
  accounted : Accounted agenda l
  punctual : Punctual agenda l
  endsOnce : EndsOnce agenda l
  requested : Requested l

theorem InOrder.step (rest : List Task) (acts : Acts l t new l') (h : InOrder (t :: rest) l) :
    InOrder (new ++ rest) l' :=
  ⟨h.accounted.step acts, h.punctual.step acts h.accounted, h.endsOnce.step acts,
    h.requested.step acts⟩

theorem inOrder_start : InOrder [] Host.start.toLedger where
  accounted := ⟨List.nodup_nil, rfl, fun _ => rfl, .refl _, by simp [Host.start], fun _ _ => rfl⟩
  punctual := by
    intro pre e post d numbers history
    simp [Host.start] at history
  endsOnce := ⟨List.nodup_nil, by simp [Host.start]⟩
  requested := ⟨List.nodup_nil, rfl, rfl, fun _ => ⟨fun _ => rfl, fun _ => rfl⟩, by simp [Host.start]⟩

/-- Nothing left to do: every call has ended. -/
theorem Due.settled {e : Happening} {numbers : List Nat} {post : List Happening}
    (due : Due e numbers post []) :
    ∃ mid tail, post = mid ++ e :: tail ∧ (runners mid).filter (· ∈ numbers) = numbers := by
  rcases due with done | ⟨first, d, last, agenda, -⟩
  · exact done
  · simp at agenda

theorem InOrder.command (h : InOrder [] l) (c : Command) : InOrder [.command c] l := by
  obtain ⟨⟨distinct, numbers, loaded, kept, delivered, waiting⟩, punctual, ⟨once, begun⟩, requested⟩ :=
    h
  refine ⟨⟨distinct, numbers, loaded, kept, delivered, waiting⟩, ?_, ⟨once, begun⟩, requested⟩
  intro pre e post d numbers history owes
  exact .inl (punctual pre e post d numbers history owes).settled

theorem InOrder.obey {h : Host} (inOrder : InOrder [] h.toLedger) (cs : List Command) :
    InOrder [] (cs.foldl Host.obey h).toLedger := by
  induction cs generalizing h with
  | nil => exact inOrder
  | cons c cs ih => exact ih (run_keeps InOrder.step _ _ (inOrder.command c))

/-- When nothing is left to do, the runs are those of the tickets whose files have arrived. -/
theorem Accounted.runs_perm (h : Accounted [] l) :
    (runs l.history).Perm ((asks l.history).filterMap fun a =>
      ((announcements l.history).lookup a.2).map fun p => (a.1, a.2, p)) := by
  have kept := h.kept.filterMap fun w =>
    ((announcements l.history).lookup w.1).map fun p => (w.2, w.1, p)
  have ran : ∀ r ∈ runs l.history, ((announcements l.history).lookup r.2.1).map
      (fun p => (r.1, r.2.1, p)) = some r := by
    intro r hr
    rw [← h.loaded, h.delivered r (by simpa using hr)]
    rfl
  have wait : ∀ w ∈ l.loader.parked, ((announcements l.history).lookup w.1).map
      (fun p => (w.2, w.1, p)) = none := by
    rintro ⟨file, k⟩ hw
    obtain ⟨ks, pending, -⟩ := (mem_parked h.distinct).1 hw
    rw [← h.loaded, payload?_of_pending pending]
    rfl
  simp only [holders, List.filterMap_nil, List.append_nil, List.filterMap_append,
    List.filterMap_map, Function.comp_def] at kept
  rw [List.filterMap_eq_nil_iff.2 wait, List.append_nil, List.filterMap_congr ran,
    List.filterMap_some] at kept
  exact kept

/-- Whatever a host does, run after run: every file is requested once if it is asked for before it
comes, and not otherwise; every ticket runs once if its file comes, with the content that came first,
and not otherwise; those who asked before run in turn before the announcement ends, and those who
ask later run before they get the word back; and a file that is there stays what it is. -/
theorem loader_protocol_safe (cs : List Command) :
    let h := cs.foldl Host.obey .start
    ((pushes h.history).Nodup ∧ h.loader.requests = (pushes h.history).length ∧
      pushes h.history = pops h.history ++ h.loader.queue ∧
      ∀ file, file ∈ pushes h.history ↔ firstContact? file h.history = some true) ∧
    (((asks h.history).map (·.1.number)).Nodup ∧
      (runs h.history).Perm ((asks h.history).filterMap fun a =>
        ((announcements h.history).lookup a.2).map fun p => (a.1, a.2, p))) ∧
    ((ends h.history).Nodup ∧
      (∀ pre file p post, h.history = pre ++ .announced file p :: post →
        (announcements pre).lookup file = none →
        ∃ mid tail, post = mid ++ .finished file :: tail ∧
          (runners mid).filter (· ∈ askersOf file pre) = askersOf file pre) ∧
      (∀ pre k file post, h.history = pre ++ .asked k file :: post →
        (announcements pre).lookup file ≠ none →
        ∃ mid tail, post = mid ++ .returned k.number :: tail ∧ k.number ∈ runners mid)) ∧
    ((∀ file, h.loader.payload? file = (announcements h.history).lookup file) ∧
      ∀ (h' : Host) file p, h'.loader.payload? file = some p →
        (∀ t, (h'.act t).2.loader.payload? file = some p) ∧
        ∀ agenda, (h'.run agenda).loader.payload? file = some p) := by
  intro h
  have inOrder : InOrder [] h.toLedger := inOrder_start.obey cs
  obtain ⟨accounted, punctual, endsOnce, requested⟩ := inOrder
  refine ⟨⟨requested.once, requested.counted, requested.queued, requested.pushed⟩, ⟨?_, ?_⟩,
    ⟨?_, ?_, ?_⟩, accounted.loaded, ?_⟩
  · rw [accounted.numbers]
    exact List.nodup_range
  · exact accounted.runs_perm
  · simpa using endsOnce.once
  · intro pre file p post history absent
    exact (punctual pre _ post _ _ history (.arrival absent)).settled
  · intro pre k file post history announced
    obtain ⟨p, there⟩ := Option.ne_none_iff_exists'.1 announced
    obtain ⟨mid, tail, rfl, served⟩ := (punctual pre _ post _ _ history (.request there)).settled
    refine ⟨mid, tail, rfl, ?_⟩
    have mem : k.number ∈ (runners mid).filter (· ∈ [k.number]) := by
      rw [served]
      exact List.mem_singleton_self _
    exact (List.mem_filter.1 mem).1
  · intro h' file p there
    constructor
    · intro t
      exact (act_acts h' t).keeps_payload there
    · intro agenda
      exact run_keeps (P := fun _ l => l.loader.payload? file = some p)
        (fun _ acts there => acts.keeps_payload there) agenda h' there

set_option maxRecDepth 2000 in
/-- The first who gets a file asks for it again and for another one. Both files come twice, and
somebody asks for the second one afterwards. -/
theorem loader_protocol_safe_sample :
    let one := "\x7b\"keywords\":[],\"strings\":[\"*1\"]\x7d"
    let two := "\x7b\"keywords\":[],\"strings\":[\"*2\"]\x7d"
    let h := [.ensure "a.js" "0" [.ensure "a.js" "2" [], .ensure "b.js" "3" []],
      .ensure "a.js" "1" [], .announce "a.js" one, .announce "a.js" two,
      .serve [("a.js", two), ("b.js", two)], .announce "b.js" one, .ensure "b.js" "4" []].foldl
        Host.obey Host.start
    pushes h.history = ["a.js", "b.js"] ∧ h.loader.requests = 2 ∧
      (asks h.history).map (fun a => (a.1.number, a.2)) =
        [(0, "a.js"), (1, "a.js"), (2, "a.js"), (3, "b.js"), (4, "b.js")] ∧
      (runs h.history).map (fun r => (r.1.number, r.2.1, r.2.2.strings)) =
        [(0, "a.js", ["*1"]), (2, "a.js", ["*1"]), (1, "a.js", ["*1"]), (3, "b.js", ["*2"]),
          (4, "b.js", ["*2"])] ∧
      ∀ agenda, ((h.run agenda).loader.payload? "b.js").map (·.strings) = some ["*2"] := by
  intro one two h
  have pushed : pushes h.history = ["a.js", "b.js"] := by decide +kernel
  have there : (h.loader.payload? "b.js").map (·.strings) = some ["*2"] := by decide +kernel
  refine ⟨pushed, ?_, by decide +kernel, by decide +kernel, fun agenda => ?_⟩
  · obtain ⟨⟨-, counted, -, -⟩, -⟩ := loader_protocol_safe [.ensure "a.js" "0" [.ensure "a.js" "2" [],
      .ensure "b.js" "3" []], .ensure "a.js" "1" [], .announce "a.js" one, .announce "a.js" two,
      .serve [("a.js", two), ("b.js", two)], .announce "b.js" one, .ensure "b.js" "4" []]
    exact counted.trans (congrArg List.length pushed)
  · obtain ⟨p, loaded, strings⟩ := Option.map_eq_some_iff.1 there
    obtain ⟨-, -, -, -, stays⟩ := loader_protocol_safe []
    rw [(stays h "b.js" p loaded).2 agenda, Option.map_some, strings]

end RunReport.Loader
