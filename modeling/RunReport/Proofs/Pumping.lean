import RunReport.Proofs.Tickets
/-!
# Serving the queue

A host that serves requests from a directory takes them one by one. Each file is read and announced,
and those who wait for it have it in turn, with all that follows, before the next request is taken;
what they ask for meanwhile stands at the end of the queue. A file that cannot be read ends it. That
request for the file is gone and nothing else has changed: whoever waits for the file still waits in
the same order, and gets it when it is announced after all.

Those who get a file may take requests themselves, and what they take is not served. A queue may also
name a file twice, if its requests have not come from the loader.
-/

namespace RunReport.Loader

variable {l l' l'' : Ledger} {t : Task} {tasks : List Task} {file f : String} {p : SplitPayload}
  {h h' : Host}

/-! ## Tasks one after another -/

@[simp] theorem run_nil (h : Host) : h.run [] = h := by
  rw [Host.run]

theorem run_cons (t : Task) (rest : List Task) (h : Host) :
    h.run (t :: rest) = (h.act t).2.run ((h.act t).1 ++ rest) := by
  rw [Host.run]

theorem run_append (first rest : List Task) (h : Host) :
    h.run (first ++ rest) = (h.run first).run rest := by
  fun_induction Host.run first h with
  | case1 h => rfl
  | case2 h t first ih => rw [List.cons_append, run_cons, ← List.append_assoc, ih]

/-- A task with all that follows from it. -/
theorem run_single (t : Task) (h : Host) : h.run [t] = (h.act t).2.run (h.act t).1 := by
  rw [run_cons, List.append_nil]

/-- What is left to do in the end is no more than there was to do. -/
theorem weight_run (agenda : List Task) (h : Host) :
    (h.run agenda).weight ≤ agendaWeight agenda + h.weight := by
  fun_induction Host.run agenda h with
  | case1 h => simp
  | case2 h t rest ih =>
    have := weight_act t h
    simp only [agendaWeight_append, agendaWeight_cons] at ih ⊢
    omega

/-! ## Announcing -/

/-- Gives a file to one who waits for it, with all that follows. -/
def Host.hand (file : String) (p : SplitPayload) (h : Host) (k : Ticket) : Host :=
  h.run [.wake k file p]

/-- Announces a file and gives it to those who wait for it, in the order they asked. -/
def Host.deliver (file : String) (p : SplitPayload) (h : Host) : Host :=
  if h.loader.isLoaded file then (h.note [.announced file p]).answer .done
  else
    let arrived := { h with loader := (h.loader.announce file p).2 }.note [.announced file p]
    (((h.loader.waitersFor file).foldl (hand file p) arrived).note [.finished file]).answer .done

theorem run_wakes (file : String) (p : SplitPayload) (ks : List Ticket) (h : Host) :
    h.run (ks.map (.wake · file p)) = ks.foldl (Host.hand file p) h := by
  induction ks generalizing h with
  | nil => rw [List.map_nil, run_nil, List.foldl_nil]
  | cons k ks ih =>
    rw [List.map_cons, List.foldl_cons, ← List.singleton_append, run_append, ih]
    rfl

theorem run_announce (file : String) (p : SplitPayload) (h : Host) :
    h.run [.announce file p] = h.deliver file p := by
  rw [run_single]
  simp only [Host.act, Host.announce, Host.deliver]
  cases there : h.loader.payload? file with
  | some q =>
    simp only [isLoaded_iff, there, announce_loaded there, Option.isSome_some, if_true, run_nil]
  | none =>
    simp only [isLoaded_iff, there, announce_releases there, Option.isSome_none]
    rw [if_neg Bool.false_ne_true, if_neg Bool.false_ne_true, run_append, run_wakes, run_single]
    simp only [Host.act, run_nil]

theorem obey_announce {text : String} (reads : SplitPayload.read text = .ok p) (file : String)
    (h : Host) : h.obey (.announce file text) = h.deliver file p := by
  rw [Host.obey, run_single]
  simp only [Host.act, Host.perform, reads, run_announce]

/-! ## Between two moments -/

/-- What happens to a ledger in the course of time. Requests are taken from the front of the queue
and made at its end; those who wait for a file that does not come go on waiting, and those who ask
for it wait behind them. -/
structure Since (l l' : Ledger) (new : List Happening) : Prop where
  history : l'.history = l.history ++ new
  queue : l.loader.queue ++ pushes new = pops new ++ l'.loader.queue
  loaded : ∀ file p, l.loader.payload? file = some p → l'.loader.payload? file = some p
  waiting : ∀ file, l'.loader.payload? file = none → ∃ later,
    l'.loader.waitersFor file = l.loader.waitersFor file ++ later ∧
      later.map (·.number) = askersOf file new

theorem Since.refl (l : Ledger) : Since l l [] :=
  ⟨by simp, by simp, fun _ _ there => there, fun _ _ => ⟨[], by simp, rfl⟩⟩

theorem Since.trans {new new' : List Happening} (first : Since l l' new)
    (second : Since l' l'' new') : Since l l'' (new ++ new') := by
  refine ⟨?_, ?_, fun file p there => second.loaded file p (first.loaded file p there), ?_⟩
  · rw [second.history, first.history, List.append_assoc]
  · simp only [List.filterMap_append]
    rw [← List.append_assoc, first.queue, List.append_assoc, second.queue, List.append_assoc]
  · intro file absent''
    have absent' : l'.loader.payload? file = none := by
      cases there : l'.loader.payload? file with
      | none => rfl
      | some p => rw [second.loaded file p there] at absent''; cases absent''
    obtain ⟨later, waits, asked⟩ := first.waiting file absent'
    obtain ⟨later', waits', asked'⟩ := second.waiting file absent''
    refine ⟨later ++ later', ?_, ?_⟩
    · rw [waits', waits, List.append_assoc]
    · simp only [List.map_append, List.filterMap_append, asked, asked']

/-- A step that leaves the loader alone. -/
theorem Since.unmoved {new : List Happening} (pushes_new : pushes new = []) (pops_new : pops new = [])
    (asked : ∀ file, l.loader.payload? file = none → askersOf file new = []) (issued : Nat) :
    Since l ⟨l.loader, issued, l.history ++ new⟩ new := by
  refine ⟨rfl, ?_, fun _ _ there => there, fun file absent => ⟨[], ?_, ?_⟩⟩
  · rw [pushes_new, pops_new, List.append_nil, List.nil_append]
  · rw [List.append_nil]
  · rw [asked file absent, List.map_nil]

/-- Somebody who asks for a file that is not there waits behind those who do already. -/
theorem waits_behind {k : Ticket} (missing : l.loader.payload? f = none) (es : List Happening)
    (asked : ∀ name, askersOf name es = if name = f then [k.number] else []) (name : String) :
    ∃ later, (l.loader.ensure f k).2.waitersFor name = l.loader.waitersFor name ++ later ∧
      later.map (·.number) = askersOf name es := by
  rw [waitersFor_ensure missing]
  by_cases hn : name = f
  · subst hn
    exact ⟨[k], by simp, by simp [asked]⟩
  · exact ⟨[], by simp [hn], by simp [asked, hn]⟩

theorem Acts.since (acts : Acts l t tasks l') : ∃ new, Since l l' new := by
  have loaded (file : String) (p : SplitPayload) (there : l.loader.payload? file = some p) :=
    acts.keeps_payload there
  cases acts with
  | nothing => exact ⟨[], .refl l⟩
  | takes free next queue =>
    exact ⟨_, rfl, by simp [queue], loaded, fun _ _ => ⟨[], by simp [waitersFor, state?], rfl⟩⟩
  | @requests _ f k free number unknown =>
    refine ⟨_, rfl, by simp [queue_ensure, unknown, List.filterMap_cons], loaded, fun name _ => ?_⟩
    refine waits_behind (payload?_of_unknown unknown) _ (fun name => ?_) name
    by_cases hn : f = name <;> simp [List.filterMap_cons, hn, eq_comm]
  | @joins _ f k ks free number pending =>
    refine ⟨_, rfl, by simp [queue_ensure, pending, List.filterMap_cons], loaded, fun name _ => ?_⟩
    refine waits_behind (payload?_of_pending pending) _ (fun name => ?_) name
    by_cases hn : f = name <;> simp [List.filterMap_cons, hn, eq_comm]
  | @hasIt _ f k p free number there =>
    refine ⟨_, .unmoved rfl rfl (fun name absent => ?_) _⟩
    have hn : f ≠ name := by
      rintro rfl
      rw [there] at absent
      cases absent
    simp [hn]
  | @arrives _ f p free absent =>
    refine ⟨_, rfl, by simp [queue_announce, List.filterMap_cons], loaded, fun name missing =>
      ⟨[], ?_, by simp⟩⟩
    have hn : name ≠ f := by
      rintro rfl
      simp [payload?_announce] at missing
    rw [waitersFor_announce l.loader hn, List.append_nil]
  | again => exact ⟨_, .unmoved rfl rfl (fun _ _ => rfl) _⟩
  | hands => exact ⟨_, .unmoved rfl rfl (fun _ _ => rfl) _⟩
  | givesBack => exact ⟨_, .unmoved rfl rfl (fun _ _ => rfl) _⟩
  | finishes => exact ⟨_, .unmoved rfl rfl (fun _ _ => rfl) _⟩

theorem run_since (agenda : List Task) (h : Host) :
    ∃ new, Since h.toLedger (h.run agenda).toLedger new :=
  run_keeps (P := fun _ l => ∃ new, Since h.toLedger l new)
    (fun _ acts ⟨_, before⟩ => acts.since.imp' _ fun _ after => before.trans after)
    agenda h ⟨[], .refl _⟩

/-! ## Orderly requests -/

/-- No request stands in the queue twice, and none for a file nobody has asked for. -/
structure Tidy (l : Loader Ticket) : Prop where
  once : l.queue.Nodup
  asked : ∀ file ∈ l.queue, l.state? file ≠ none

theorem Acts.tidy (acts : Acts l t tasks l') (tidy : l.loader.Tidy) : l'.loader.Tidy := by
  cases acts with
  | takes free next queue =>
    have once := tidy.once
    have asked := tidy.asked
    rw [queue] at once asked
    exact ⟨once.of_cons, fun file hf => asked file (List.mem_cons_of_mem _ hf)⟩
  | @requests _ f k free number unknown =>
    have new : f ∉ l.loader.queue := fun hf => tidy.asked f hf unknown
    refine ⟨?_, fun file hf => ?_⟩
    · rw [queue_ensure, unknown]
      exact List.nodup_append.2 ⟨tidy.once, by simp, by
        rintro _ hf _ hg rfl
        exact new (List.mem_singleton.1 hg ▸ hf)⟩
    · rw [state?_ensure, unknown]
      rw [queue_ensure, unknown, List.mem_append, List.mem_singleton] at hf
      by_cases same : file = f
      · simp [same]
      · simpa [same] using tidy.asked file (hf.resolve_right same)
  | @joins _ f k ks free number pending =>
    refine ⟨by simpa [queue_ensure, pending] using tidy.once, fun file hf => ?_⟩
    rw [queue_ensure, pending, List.append_nil] at hf
    rw [state?_ensure, pending]
    by_cases same : file = f
    · simp [same]
    · simpa [same] using tidy.asked file hf
  | @arrives _ f p free absent =>
    refine ⟨by simpa [queue_announce] using tidy.once, fun file hf => ?_⟩
    rw [queue_announce] at hf
    rw [state?_announce]
    by_cases same : file = f
    · simp [same]
    · simpa [same] using tidy.asked file hf
  | _ => exact tidy

theorem run_tidy (agenda : List Task) (tidy : h.loader.Tidy) : (h.run agenda).loader.Tidy :=
  run_keeps (P := fun _ l => l.loader.Tidy) (fun _ acts tidy => acts.tidy tidy) agenda h tidy

theorem tidy_start : Host.start.loader.Tidy :=
  ⟨List.nodup_nil, by simp [Host.start, empty]⟩

mutual

/-- Whether the command, or a callback of it, takes requests from the queue. -/
def Command.takes : Command → Bool
  | .ensure _ _ andThen => takesAny andThen
  | .pop => true
  | .serve _ => true
  | _ => false

def takesAny : List Command → Bool
  | [] => false
  | c :: cs => c.takes || takesAny cs

end

theorem takesAny_eq (cs : List Command) : takesAny cs = cs.any Command.takes := by
  induction cs with
  | nil => rfl
  | cons c cs ih => rw [takesAny, List.any_cons, ih]

def Ticket.takes (k : Ticket) : Bool :=
  match k.waiter with
  | .callback _ andThen => takesAny andThen
  | .future _ => false

def Task.takes : Task → Bool
  | .command c => c.takes
  | .wake k _ _ => k.takes
  | .serve _ _ => true
  | _ => false

/-- Nobody who waits takes requests from the queue when the file comes. -/
def Host.Modest (h : Host) : Prop :=
  ∀ w ∈ h.loader.parked, w.2.takes = false

/-- The host is still modest, nothing that follows takes a request, and none has been taken. -/
structure TakesNothing (h : Host) (tasks : List Task) (h' : Host) : Prop where
  tasks : ∀ t ∈ tasks, t.takes = false
  modest : h'.Modest
  pops : pops h'.history = pops h.history

theorem pops_pushed (files : List String) : Loader.pops (files.map .pushed) = [] := by
  simp [List.filterMap_map, Function.comp_def]

theorem ask_takesNothing (modest : h.Modest) (file : String) (waiter : HostWaiter)
    (takes : Ticket.takes ⟨h.issued, waiter⟩ = false) :
    TakesNothing h (h.ask file waiter).1 (h.ask file waiter).2 := by
  have fst := ensure_fst h.loader file ⟨h.issued, waiter⟩
  simp only [Host.ask]
  cases missing : h.loader.payload? file with
  | some p =>
    rw [ensure_loaded missing]
    exact ⟨by simp [Task.takes, takes], modest, by simp [Host.note]⟩
  | none =>
    rw [missing] at fst
    simp only [fst]
    refine ⟨by simp, ?_, ?_⟩
    · intro w hw
      have either := (parked_ensure missing ⟨h.issued, waiter⟩).mem_iff.1 hw
      rcases List.mem_append.1 either with old | new
      · exact modest w old
      · rw [List.mem_singleton.1 new]
        exact takes
    · simp only [Host.note, Host.answer, List.filterMap_append, List.filterMap_cons,
        Happening.popped?, pops_pushed, List.filterMap_nil, List.append_nil]

theorem announce_takesNothing (modest : h.Modest) (file : String) (p : SplitPayload) :
    TakesNothing h (h.announce file p).1 (h.announce file p).2 := by
  have perm := parked_announce h.loader file p
  have stays : ∀ w ∈ (h.loader.announce file p).2.parked, w.2.takes = false :=
    fun w hw => modest w (perm.mem_iff.1 (List.mem_append_left _ hw))
  simp only [Host.announce]
  split
  · exact ⟨by simp, stays, by simp [Host.note, Host.answer]⟩
  · refine ⟨?_, stays, by simp [Host.note]⟩
    intro t ht
    rcases List.mem_append.1 ht with wakes | ends
    · obtain ⟨k, hk, rfl⟩ := List.mem_map.1 wakes
      exact modest (file, k) (perm.mem_iff.1 (List.mem_append_right _ (List.mem_map_of_mem hk)))
    · rw [List.mem_singleton.1 ends]
      rfl

theorem perform_takesNothing (modest : h.Modest) {c : Command} (takes : c.takes = false) :
    TakesNothing h (h.perform c).1 (h.perform c).2 := by
  cases c with
  | ensure file label andThen =>
    rw [Command.takes] at takes
    exact ask_takesNothing modest file _ takes
  | future file label =>
    obtain ⟨tasks, modest, pops⟩ :=
      ask_takesNothing (h := h.promise label) modest file (.future h.futures.length) rfl
    exact ⟨tasks, modest, pops⟩
  | announce file text =>
    simp only [Host.perform]
    cases SplitPayload.read text with
    | error e => exact ⟨by simp, modest, rfl⟩
    | ok p => exact ⟨by simp [Task.takes], modest, rfl⟩
  | state file => exact ⟨by simp [Host.perform], modest, rfl⟩
  | poll label =>
    simp only [Host.perform, Host.poll]
    split
    · exact ⟨by simp, modest, rfl⟩
    · split <;> exact ⟨by simp, modest, rfl⟩
  | pop => simp [Command.takes] at takes
  | serve dir => simp [Command.takes] at takes

theorem act_takesNothing (modest : h.Modest) (takes : t.takes = false) :
    TakesNothing h (h.act t).1 (h.act t).2 := by
  cases t with
  | command c => exact perform_takesNothing modest takes
  | wake k file p =>
    obtain ⟨number, waiter⟩ := k
    cases waiter with
    | callback label andThen =>
      refine ⟨?_, modest, by simp [Host.act, Host.wake, Host.note]⟩
      simp only [Task.takes, Ticket.takes, takesAny_eq, List.any_eq_false] at takes
      simpa [Host.act, Host.wake, Task.takes] using takes
    | future n => exact ⟨by simp [Host.act, Host.wake], modest, by simp [Host.act, Host.wake, Host.note]⟩
  | giveBack number => exact ⟨by simp [Host.act], modest, by simp [Host.act, Host.note, Host.answer]⟩
  | announce file p => exact announce_takesNothing modest file p
  | finish file => exact ⟨by simp [Host.act], modest, by simp [Host.act, Host.note, Host.answer]⟩
  | serve dir served => simp [Task.takes] at takes

theorem run_takesNothing (agenda : List Task) (modest : h.Modest)
    (takes : ∀ t ∈ agenda, t.takes = false) : TakesNothing h [] (h.run agenda) := by
  fun_induction Host.run agenda h with
  | case1 h => exact ⟨by simp, modest, rfl⟩
  | case2 h t rest ih =>
    have step := act_takesNothing modest (takes t List.mem_cons_self)
    have later := ih step.modest fun u hu => (List.mem_append.1 hu).elim (step.tasks u)
      fun hu => takes u (List.mem_cons_of_mem _ hu)
    exact ⟨later.tasks, later.modest, later.pops.trans step.pops⟩

/-! ## Serving -/

/-- The content of a file of the directory. -/
def readFrom (dir : List (String × String)) (file : String) : Except Error SplitPayload :=
  match dir.lookup file with
  | none => .error .unreadable
  | some text => SplitPayload.read text

/-- The requests that are taken from the queue when a file is delivered: by those who get it, and by
those who get others because of that. -/
def Host.takenFor (file : String) (p : SplitPayload) (h : Host) : List String :=
  pops ((h.deliver file p).history.drop h.history.length)

/-- The files are taken from the queue in turn. Each is read from the directory and delivered before
the next is taken; the others are what is taken from the queue meanwhile. -/
inductive Serves (dir : List (String × String)) :
    Host → (files others : List String) → Host → Prop where
  | nothing (h : Host) : Serves dir h [] [] h
  | next {h h' : Host} {file files others p} (taken : h.pop.1 = some file)
      (reads : readFrom dir file = .ok p)
      (later : Serves dir (h.pop.2.deliver file p) files others h') :
      Serves dir h (file :: files) (h.pop.2.takenFor file p ++ others) h'

/-- Two lists are merged into one. -/
structure Merges (first second merged : List String) : Prop where
  left : first.Sublist merged
  right : second.Sublist merged
  together : merged.Perm (first ++ second)

theorem Merges.eq_left {first merged : List String} (h : Merges first [] merged) : merged = first :=
  (h.left.eq_of_length (by simpa using h.together.length_eq.symm)).symm

/-- One more at the end of the first list. -/
theorem Merges.snoc {first second merged : List String} (h : Merges first second merged)
    (last : String) : Merges (first ++ [last]) second (merged ++ [last]) := by
  refine ⟨h.left.append (.refl _), h.right.trans (List.sublist_append_left ..), ?_⟩
  refine (h.together.append_right [last]).trans ?_
  rw [List.append_assoc, List.append_assoc]
  exact List.perm_append_comm.append_left first

theorem pop_nil (idle : h.loader.queue = []) : h.pop = (none, h) := by
  simp [Host.pop, Loader.pop, idle, Host.note]

theorem pop_cons {rest : List String} (queue : h.loader.queue = f :: rest) :
    h.pop = (some f, { h with loader := { h.loader with queue := rest } }.note [.popped f]) := by
  simp [Host.pop, Loader.pop, queue]

theorem run_serve_nil (idle : h.loader.queue = []) (dir : List (String × String)) (n : Nat) :
    h.run [.serve dir n] = h.answer (.served n) := by
  rw [run_single]
  simp only [Host.act, Host.serve, pop_nil idle, run_nil]

theorem run_serve_error {rest : List String} (queue : h.loader.queue = f :: rest)
    {dir : List (String × String)} {e : Error} (refused : readFrom dir f = .error e) (n : Nat) :
    h.run [.serve dir n] = h.pop.2.answer (.failed e) := by
  rw [run_single]
  cases there : dir.lookup f with
  | none =>
    simp only [readFrom, there] at refused
    cases refused
    simp only [Host.act, Host.serve, pop_cons queue, there, run_nil]
  | some text =>
    simp only [readFrom, there] at refused
    simp only [Host.act, Host.serve, pop_cons queue, there, refused, run_nil]

theorem run_serve_ok {rest : List String} (queue : h.loader.queue = f :: rest)
    {dir : List (String × String)} (reads : readFrom dir f = .ok p) (n : Nat) :
    h.run [.serve dir n] = (h.pop.2.deliver f p).run [.serve dir (n + 1)] := by
  rw [run_single]
  cases there : dir.lookup f with
  | none =>
    simp only [readFrom, there] at reads
    cases reads
  | some text =>
    simp only [readFrom, there] at reads
    simp only [Host.act, Host.serve, pop_cons queue, there, reads]
    rw [← List.singleton_append, run_append, run_announce]

theorem weight_deliver (h : Host) (file : String) (p : SplitPayload) :
    (h.deliver file p).weight ≤ h.weight + 2 := by
  have := weight_run [.announce file p] h
  rw [run_announce] at this
  simp only [agendaWeight_cons, agendaWeight_nil, Task.weight] at this
  omega

/-- Requests are served until none is left or a file cannot be read. -/
theorem run_serves (dir : List (String × String)) (n : Nat) (h : Host) :
    ∃ files others h₁, Serves dir h files others h₁ ∧
      ((h₁.loader.queue = [] ∧ h.run [.serve dir n] = h₁.answer (.served (n + files.length))) ∨
        ∃ f rest e, h₁.loader.queue = f :: rest ∧ readFrom dir f = .error e ∧
          h.run [.serve dir n] = h₁.pop.2.answer (.failed e)) := by
  -- A request is worth more than the announcement that takes its place.
  induction weight : h.weight using Nat.strongRecOn generalizing h n with
  | ind w ih =>
    subst weight
    cases queue : h.loader.queue with
    | nil => exact ⟨[], [], h, .nothing h, .inl ⟨queue, run_serve_nil queue dir n⟩⟩
    | cons f rest =>
      cases reads : readFrom dir f with
      | error e =>
        exact ⟨[], [], h, .nothing h,
          .inr ⟨f, rest, e, queue, reads, run_serve_error queue reads n⟩⟩
      | ok p =>
        have taken : h.pop.1 = some f := by rw [pop_cons queue]
        have less : (h.pop.2.deliver f p).weight < h.weight := by
          have popped := weight_pop h
          have delivered := weight_deliver h.pop.2 f p
          rw [taken] at popped
          simp only [Option.toList_some, List.length_singleton] at popped
          omega
        obtain ⟨files, others, h₁, serves, ends⟩ := ih _ less (n + 1) (h.pop.2.deliver f p) rfl
        refine ⟨f :: files, _, h₁, .next taken reads serves, ?_⟩
        rw [run_serve_ok queue reads]
        simpa only [List.length_cons, Nat.add_assoc, Nat.add_comm 1] using ends

theorem deliver_since (file : String) (p : SplitPayload) (h : Host) :
    ∃ new, Since h.toLedger (h.deliver file p).toLedger new := by
  rw [← run_announce]
  exact run_since _ h

theorem deliver_loaded (file : String) (p : SplitPayload) (h : Host) :
    (h.deliver file p).loader.isLoaded file := by
  have there : (h.announce file p).2.loader.payload? file =
      some ((h.loader.payload? file).getD p) := by
    simp only [Host.announce]
    split <;> exact (payload?_announce ..).trans (if_pos rfl)
  obtain ⟨new, since⟩ := run_since (h.announce file p).1 (h.announce file p).2
  rw [← run_announce, run_single, isLoaded_iff]
  exact Option.isSome_iff_exists.2 ⟨_, since.loaded _ _ there⟩

theorem deliver_takesNothing (modest : h.Modest) (file : String) (p : SplitPayload) :
    TakesNothing h [] (h.deliver file p) := by
  rw [← run_announce]
  exact run_takesNothing _ modest (by simp [Task.takes])

/-- What happens when a file is delivered, with the requests that are taken. -/
theorem takenFor_since (file : String) (p : SplitPayload) (h : Host) :
    ∃ new, Since h.toLedger (h.deliver file p).toLedger new ∧ h.takenFor file p = pops new := by
  obtain ⟨new, since⟩ := deliver_since file p h
  refine ⟨new, since, ?_⟩
  rw [Host.takenFor, since.history, List.drop_left]

theorem takenFor_modest (modest : h.Modest) (file : String) (p : SplitPayload) :
    h.takenFor file p = [] := by
  obtain ⟨new, since, taken⟩ := takenFor_since file p h
  have same := (deliver_takesNothing modest file p).pops
  simp only [since.history, List.filterMap_append] at same
  rw [taken]
  exact List.append_right_eq_self.1 same

theorem pop_since (taken : h.pop.1 = some f) :
    Since h.toLedger h.pop.2.toLedger [.popped f] ∧ (h.Modest → h.pop.2.Modest) ∧
      (h.loader.Tidy → h.pop.2.loader.Tidy) := by
  have acts := pop_acts h (free_commands [.pop]) free_nil
  cases queue : h.loader.queue with
  | nil =>
    rw [pop_nil queue] at taken
    cases taken
  | cons g rest =>
    rw [pop_cons queue] at taken acts ⊢
    cases taken
    exact ⟨⟨rfl, by simp [Host.note, queue], fun _ _ there => there,
      fun _ _ => ⟨[], by simp [Host.note, waitersFor, state?], rfl⟩⟩, fun modest => modest, acts.tidy⟩

/-- What has been served is there, and the requests that were taken are those of the files and the
others. -/
theorem Serves.since {dir : List (String × String)} {files others : List String}
    (serves : Serves dir h files others h') :
    ∃ new, Since h.toLedger h'.toLedger new ∧ (∀ file ∈ files, h'.loader.isLoaded file) ∧
      Merges files others (pops new) := by
  induction serves with
  | nothing h => exact ⟨[], .refl _, by simp, .refl _, .refl _, .refl _⟩
  | @next h h' file files others p taken reads later ih =>
    obtain ⟨popped, -, -⟩ := pop_since taken
    obtain ⟨new₁, delivered, meanwhile⟩ := takenFor_since file p h.pop.2
    obtain ⟨new₂, served, loaded, merges⟩ := ih
    have pops_new : pops ([.popped file] ++ new₁ ++ new₂) = file :: (pops new₁ ++ pops new₂) := by
      simp
    refine ⟨_, (popped.trans delivered).trans served, ?_, ?_⟩
    · intro g hg
      rcases List.mem_cons.1 hg with rfl | hg
      · have there := deliver_loaded g p h.pop.2
        rw [isLoaded_iff] at there ⊢
        obtain ⟨q, there⟩ := Option.isSome_iff_exists.1 there
        exact Option.isSome_iff_exists.2 ⟨q, served.loaded _ _ there⟩
      · exact loaded g hg
    · rw [pops_new, meanwhile]
      refine ⟨?_, ?_, ?_⟩
      · exact (merges.left.trans (List.sublist_append_right _ _)).cons_cons file
      · exact ((List.Sublist.refl _).append merges.right).cons file
      · exact .cons file ((merges.together.append_left _).trans (List.perm_append_comm_assoc ..))

theorem Serves.modest {dir : List (String × String)} {files others : List String}
    (serves : Serves dir h files others h') (modest : h.Modest) : others = [] := by
  induction serves with
  | nothing h => rfl
  | @next h h' file files others p taken reads later ih =>
    have popped := (pop_since taken).2.1 modest
    rw [takenFor_modest popped, ih (deliver_takesNothing popped file p).modest, List.append_nil]

theorem Serves.tidy {dir : List (String × String)} {files others : List String}
    (serves : Serves dir h files others h') (tidy : h.loader.Tidy) : h'.loader.Tidy := by
  induction serves with
  | nothing h => exact tidy
  | next taken reads later ih =>
    refine ih ?_
    rw [← run_announce]
    exact run_tidy _ ((pop_since taken).2.2 tidy)

/-- A host that serves the queue from a directory takes its requests one by one, and each file that
it takes is there afterwards and has been given to those who waited for it. It ends when the queue is
empty, and then all requests that were made have been served, or taken by somebody who got a file. Or
it ends at a file that cannot be read, and then that request for the file is gone; it was the only one
if the requests have come from the loader. Whatever else was not taken is still queued in order. Those
who waited for the file have not got it and stand as they stood before; whatever is done next, as long
as the file has not come, they are the first to get it when it is announced, in the order they
asked. -/
theorem serving_loses_no_work (h : Host) (dir : List (String × String)) :
    let h' := h.obey (.serve dir)
    ∃ files others h₁ new, Serves dir h files others h₁ ∧ Since h.toLedger h'.toLedger new ∧
      (∀ file ∈ files, h'.loader.isLoaded file) ∧ (h.Modest → others = []) ∧
      ((h' = h₁.answer (.served files.length) ∧ h'.loader.queue = [] ∧
          Merges files others (h.loader.queue ++ pushes new)) ∨
        ∃ f rest e, readFrom dir f = .error e ∧ h₁.loader.queue = f :: rest ∧
          h' = ({ h₁ with loader := { h₁.loader with queue := rest } }.note [.popped f]).answer
            (.failed e) ∧
          (h.loader.Tidy → f ∉ h'.loader.queue) ∧
          Merges (files ++ [f]) others (pops new) ∧
          h.loader.queue ++ pushes new = pops new ++ h'.loader.queue ∧
          ∀ agenda text p, SplitPayload.read text = .ok p →
            (h'.run agenda).loader.payload? f = none →
            h₁.loader.waitersFor f <+: (h'.run agenda).loader.waitersFor f ∧
              (h'.run agenda).obey (.announce f text) = (h'.run agenda).deliver f p) := by
  intro h'
  have runs : h' = h.run [.serve dir 0] := by
    simp only [h', Host.obey, run_single, Host.act, Host.perform]
  obtain ⟨files, others, h₁, serves, ends⟩ := run_serves dir 0 h
  obtain ⟨new, since, loaded, merges⟩ := serves.since
  rcases ends with ⟨idle, done⟩ | ⟨f, rest, e, queue, refused, failed⟩
  · rw [← runs, Nat.zero_add] at done
    have ledger : h'.toLedger = h₁.toLedger := by rw [done]; rfl
    refine ⟨files, others, h₁, new, serves, ledger ▸ since, ?_, serves.modest, .inl ⟨done, ?_, ?_⟩⟩
    · rw [ledger]
      exact loaded
    · rw [ledger]
      exact idle
    · rw [since.queue, idle, List.append_nil]
      exact merges
  · rw [← runs, pop_cons queue] at failed
    have taken : h₁.pop.1 = some f := by rw [pop_cons queue]
    have popped := (pop_since taken).1
    rw [pop_cons queue] at popped
    have since' : Since h.toLedger h'.toLedger (new ++ [.popped f]) := by
      rw [failed]
      exact since.trans popped
    have pops_new : pops (new ++ [.popped f]) = pops new ++ [f] := by simp
    have left : h'.loader.queue = rest := by rw [failed]; rfl
    refine ⟨files, others, h₁, _, serves, since', ?_, serves.modest,
      .inr ⟨f, rest, e, refused, queue, failed, ?_, ?_, since'.queue, ?_⟩⟩
    · rw [failed]
      exact loaded
    · intro tidy
      have once := (serves.tidy tidy).once
      rw [queue] at once
      rw [left]
      exact (List.nodup_cons.1 once).1
    · rw [pops_new]
      exact merges.snoc f
    · intro agenda text p reads absent
      obtain ⟨later, since''⟩ := run_since agenda h'
      obtain ⟨more, waits, -⟩ := since''.waiting f absent
      refine ⟨⟨more, ?_⟩, obey_announce reads f _⟩
      rw [waits, failed]
      rfl

set_option maxRecDepth 2000 in
theorem serving_loses_no_work_sample :
    let text := "\x7b\"keywords\":[],\"strings\":[\"*\"]\x7d"
    let dir := [("a.js", text), ("c.js", text)]
    let h := Host.start.run
      [.command (.ensure "a.js" "1" [.ensure "b.js" "2" [], .ensure "c.js" "3" []]),
        .command (.ensure "b.js" "4" [])]
    let h' := h.obey (.serve dir)
    h.loader.Tidy ∧ h.Modest ∧ h'.loader.queue = ["c.js"] ∧
      (h'.loader.waitersFor "b.js").map (·.number) = [1, 2] ∧
      ∃ files h₁ f, Serves dir h files [] h₁ ∧ files ++ [f] = ["a.js", "b.js"] ∧
        f ∉ h'.loader.queue ∧
        ∃ p, SplitPayload.read text = .ok p ∧
          ∀ agenda, (h'.run agenda).loader.payload? f = none →
            (h'.run agenda).obey (.announce f text) = (h'.run agenda).deliver f p := by
  intro text dir h h'
  have tidy : h.loader.Tidy := run_tidy _ tidy_start
  have modest : h.Modest := by
    change ∀ w ∈ h.loader.parked, w.2.takes = false
    decide +kernel
  have queue : h'.loader.queue = ["c.js"] := by decide +kernel
  have waiting : (h'.loader.waitersFor "b.js").map (·.number) = [1, 2] := by decide +kernel
  have legible : ((SplitPayload.read text).toOption.map (·.strings)) = some ["*"] := by
    decide +kernel
  refine ⟨tidy, modest, queue, waiting, ?_⟩
  obtain ⟨files, others, h₁, new, serves, since, -, none, ⟨-, idle, -⟩ | failed⟩ :=
    serving_loses_no_work h dir
  · change h'.loader.queue = [] at idle
    rw [queue] at idle
    cases idle
  · obtain ⟨f, rest, e, -, -, -, gone, merges, -, later⟩ := failed
    obtain rfl : others = [] := none modest
    refine ⟨files, h₁, f, serves, ?_, gone tidy, ?_⟩
    · have before : pops h.history = [] := by decide +kernel
      have after : pops h'.history = ["a.js", "b.js"] := by decide +kernel
      have all : pops h'.history = pops h.history ++ pops new := by
        simp only [h', since.history, List.filterMap_append]
      rw [after, before, List.nil_append] at all
      rw [← merges.eq_left, ← all]
    · cases reads : SplitPayload.read text with
      | error e =>
        rw [reads] at legible
        cases legible
      | ok p => exact ⟨p, rfl, fun agenda absent => (later agenda _ _ reads absent).2⟩

def Reply.isUnreadable : Reply → Bool
  | .failed .unreadable => true
  | _ => false

def Reply.served? : Reply → Option Nat
  | .served n => some n
  | _ => none

set_option maxRecDepth 2000 in
/-- Where a file is queued twice, it is still queued when serving it has failed. And when somebody who
gets a file takes a request, that one is neither queued nor served any more, whether serving fails at a
later file or not. -/
theorem serving_may_lose_requests :
    let text := "\x7b\"keywords\":[],\"strings\":[\"*\"]\x7d"
    let doubled : Host :=
      { Host.start with loader := { Loader.empty with queue := ["x.js", "x.js"] } }
    let greedy := Host.start.run [.command (.ensure "a.js" "1" [.pop]),
      .command (.ensure "b.js" "2" []), .command (.ensure "c.js" "3" [])]
    let h₁ := doubled.obey (.serve [])
    let h₂ := greedy.obey (.serve [("a.js", text)])
    let h₃ := greedy.obey (.serve [("a.js", text), ("c.js", text)])
    (h₁.reply.isUnreadable ∧ pops h₁.history = ["x.js"] ∧ "x.js" ∈ h₁.loader.queue) ∧
      (greedy.loader.queue = ["a.js", "b.js", "c.js"] ∧
        greedy.loader.parked.map (·.1) = ["a.js", "b.js", "c.js"]) ∧
      (h₂.reply.isUnreadable ∧ pops h₂.history = ["a.js", "b.js", "c.js"] ∧
        h₂.loader.queue = [] ∧ h₂.loader.parked.map (·.1) = ["b.js", "c.js"]) ∧
      h₃.reply.served? = some 2 ∧ h₃.loader.queue = [] ∧
        h₃.loader.parked.map (·.1) = ["b.js"] := by
  intro text doubled greedy h₁ h₂ h₃
  refine ⟨?_, ?_, ?_, ?_⟩ <;> decide +kernel

end RunReport.Loader
