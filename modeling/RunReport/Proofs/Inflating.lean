import Mathlib.Data.Finset.Card
import Mathlib.Data.Finset.Filter
import RunReport.Proofs.Lookup
/-!
# How often entries are inflated

A table counts the entries that it inflates and keeps the texts that it finds. A compressed entry
that holds text is inflated by its first lookup alone. One whose bytes are not UTF-8 has no text to
keep, so every lookup of it inflates it again. What a lookup answers never depends on the lookups
before it.
-/

namespace RunReport.StringTable

open Effects

/-- What a caller may ask of a table: the text at a place, or what a slot of a record stands for. -/
inductive Query where
  | text (id : Nat)
  | slot (slot : Option Raw)

namespace Query

def ask : Query → Lookup SlotText
  | .text id => return .value (← StringTable.text id)
  | .slot s => lookup s

/-- The place that is looked up. A slot that is no reference does not come to a lookup. -/
def place? : Query → Option Nat
  | .text id => some id
  | .slot none => none
  | .slot (some r) =>
    match r.asInt "string reference" with
    | .error _ => none
    | .ok n => if n < 0 then none else some n.toNat

/-- A query looks up its place, or its answer is settled without the table. -/
theorem ask_cases (q : Query) :
    (∃ id, q.place? = some id ∧ q.ask = (do return .value (← StringTable.text id))) ∨
    (q.place? = none ∧ ∃ answer : Except Error SlotText, q.ask = liftM answer) := by
  rcases q with id | _ | r
  · exact .inl ⟨id, rfl, rfl⟩
  · exact .inr ⟨rfl, .ok .undefined, rfl⟩
  · by_cases null : r = .null
    · subst null
      exact .inr ⟨rfl, .ok .null, rfl⟩
    · have resolves : lookup (some r) =
          liftM (r.asInt "string reference") >>= fun n =>
            if n < 0 then throw (.shape "string reference" (.negativeId n))
            else do return .value (← StringTable.text n.toNat) := by
        cases r with
        | null => exact absurd rfl null
        | _ => rfl
      simp only [place?, ask, resolves]
      cases r.asInt "string reference" with
      | error e => exact .inr ⟨rfl, .error e, rfl⟩
      | ok n =>
        by_cases negative : n < 0
        · refine .inr ⟨if_pos negative, .error (.shape "string reference" (.negativeId n)), ?_⟩
          exact if_pos negative
        · refine .inl ⟨n.toNat, if_neg negative, ?_⟩
          exact if_neg negative

end Query

/-- The answers to some queries in turn. A query that fails is followed by the next one. -/
def askAll : List Query → StateM StringTable (List (Except Error SlotText))
  | [] => return []
  | q :: queries => do
    let answer ← q.ask.run
    return answer :: (← askAll queries)

/-- The entries that some queries look up, one occurrence for each lookup. -/
def lookedUp (size : Nat) (queries : List Query) : List Nat :=
  (queries.filterMap Query.place?).filter (· < size)

/-- The bytes that an entry inflates to, if it is compressed and nothing is wrong with it. -/
def inflated? (entry : String) : Option ByteArray :=
  match entry.toList with
  | [] => none
  | '*' :: _ => none
  | _ => (Codec.Base64.decode (Text.trim entry.toList)).bind Codec.uncompress

/-- The entry inflates to text. -/
def Legible (entries : List String) (id : Nat) : Bool :=
  (entries[id]?.bind inflated?).any fun out => (String.fromUTF8? out).isSome

/-- The entry inflates to bytes that are not UTF-8. -/
def Garbled (entries : List String) (id : Nat) : Bool :=
  (entries[id]?.bind inflated?).any fun out => (String.fromUTF8? out).isNone

theorem bytes_toOption (id : Nat) (entry : String) :
    (bytes id entry).toOption =
      (Codec.Base64.decode (Text.trim entry.toList)).bind Codec.uncompress := by
  simp only [bytes]
  cases Codec.Base64.decode (Text.trim entry.toList) with
  | none => rfl
  | some compressed =>
    simp only [Option.bind_some]
    cases Codec.uncompress compressed <;> rfl

/-- An entry that is not inflated leaves the table alone. -/
theorem decode_untouched {entry : String} (h : inflated? entry = none) (id : Nat)
    (t : StringTable) : ((decode id entry).run t).2 = t := by
  simp only [inflated?] at h
  simp only [decode]
  split
  · rfl
  · rfl
  · have fails : (bytes id entry).toOption = none := by
      rw [bytes_toOption]
      simp_all
    cases hb : bytes id entry with
    | ok out =>
      rw [hb] at fails
      cases fails
    | error e => simp only [extract, hb, run_bind, run_except]

/-- An entry that is inflated counts, whether or not its bytes are text. -/
theorem decode_inflates {entry : String} {out : ByteArray} (h : inflated? entry = some out)
    (id : Nat) (t : StringTable) :
    (decode id entry).run t =
      ((String.fromUTF8? out).elim (.error (.utf8 id)) .ok,
        { t with decompressions := t.decompressions + 1 }) := by
  simp only [inflated?] at h
  simp only [decode]
  split
  · simp_all
  · simp_all
  · have found : (bytes id entry).toOption = some out := by
      rw [bytes_toOption]
      simp_all
    cases hb : bytes id entry with
    | error e =>
      rw [hb] at found
      cases found
    | ok out' =>
      rw [hb] at found
      cases found
      simp only [extract, hb, run_bind, run_except, run_modify]
      cases String.fromUTF8? out <;> rfl

variable {entries : List String} {places : List Nat} {id : Nat} {t : StringTable}

theorem textIn_eq {entry : String} (here : entries[id]? = some entry) :
    textIn entries id = entryText id entry := by
  simp only [textIn, here]

theorem textIn_of_legible (h : Legible entries id) : ∃ s, textIn entries id = .ok s := by
  obtain ⟨out, inflates, readable⟩ := (Option.any_eq_true _ _).1 h
  obtain ⟨entry, here, inflates⟩ := Option.bind_eq_some_iff.1 inflates
  obtain ⟨s, readable⟩ := Option.isSome_iff_exists.1 readable
  refine ⟨s, ?_⟩
  rw [textIn_eq here, entryText, decode_inflates inflates, readable]
  rfl

theorem textIn_of_garbled (h : Garbled entries id) : textIn entries id = .error (.utf8 id) := by
  obtain ⟨out, inflates, unreadable⟩ := (Option.any_eq_true _ _).1 h
  obtain ⟨entry, here, inflates⟩ := Option.bind_eq_some_iff.1 inflates
  rw [textIn_eq here, entryText, decode_inflates inflates, Option.isNone_iff_eq_none.1 unreadable]
  rfl

theorem decode_count {entry : String} (here : entries[id]? = some entry) :
    ((decode id entry).run t).2.decompressions =
      t.decompressions + (Legible entries id).toNat + (Garbled entries id).toNat := by
  simp only [Legible, Garbled, here, Option.bind_some]
  cases inflates : inflated? entry with
  | none => simp [decode_untouched inflates]
  | some out =>
    rw [decode_inflates inflates]
    cases readable : String.fromUTF8? out <;> simp [readable]

/-- A lookup of a text that is kept changes nothing. -/
theorem text_known {s : String} (inside : id < t.entries.length)
    (known : t.decoded.lookup id = some s) : ((text id).run t).2 = t := by
  simp only [text, run_bind, run_get, List.getElem?_eq_getElem inside, known, run_pure]

/-- A lookup of a text that is not kept finds out what the entry meant, and keeps it. -/
theorem text_unknown {entry : String} (here : t.entries[id]? = some entry)
    (unknown : t.decoded.lookup id = none) :
    (text id).run t =
      match (decode id entry).run t with
      | (.ok s, t') => (.ok s, { t' with decoded := (id, s) :: t'.decoded })
      | (.error e, t') => (.error e, t') := by
  simp only [text, run_bind, run_get, here, unknown, run_modify, run_pure]
  rcases (decode id entry).run t with ⟨_ | s, t'⟩ <;> rfl

/-- After a lookup the table keeps what it kept before and the text that was found. -/
theorem text_keeps (sound : t.Sound) (inside : id < t.entries.length) (i : Nat) (s : String) :
    ((text id).run t).2.decoded.lookup i = some s ↔
      t.decoded.lookup i = some s ∨ (i = id ∧ textIn t.entries id = .ok s) := by
  have here := List.getElem?_eq_getElem inside
  cases hd : t.decoded.lookup id with
  | some u =>
    obtain ⟨entry, there, meant⟩ := sound id u hd
    rw [text_known inside hd, textIn_eq there, meant]
    constructor
    · exact .inl
    · rintro (old | ⟨rfl, same⟩)
      · exact old
      · cases same
        exact hd
  | none =>
    obtain ⟨result, -, decoded⟩ := decode_run id t.entries[id] t
    rw [text_unknown here hd, textIn_eq here]
    rcases hrun : (decode id t.entries[id]).run t with ⟨_ | u, t'⟩
    · simp only [hrun] at result decoded
      simp [← result, decoded]
    · simp only [hrun] at result decoded
      simp only [← result, decoded, List.lookup_cons, Except.ok.injEq]
      by_cases hi : i = id
      · subst hi
        simp [hd]
      · simp [beq_eq_false_iff_ne.2 hi, hi]

/-- A lookup inflates its entry when it keeps no text of it, and then only a compressed one. -/
theorem text_count (sound : t.Sound) (inside : id < t.entries.length) :
    ((text id).run t).2.decompressions =
      t.decompressions +
        (if (t.decoded.lookup id).isNone ∧ Legible t.entries id then 1 else 0) +
        (Garbled t.entries id).toNat := by
  have here := List.getElem?_eq_getElem inside
  cases hd : t.decoded.lookup id with
  | some s =>
    have clear : Garbled t.entries id = false := by
      by_contra garbled
      obtain ⟨entry, there, meant⟩ := sound id s hd
      rw [← textIn_eq there, textIn_of_garbled (by simpa using garbled)] at meant
      cases meant
    rw [text_known inside hd]
    simp [clear]
  | none =>
    have counted := decode_count here (t := t)
    rw [text_unknown here hd]
    rcases hrun : (decode id t.entries[id]).run t with ⟨_ | s, t'⟩ <;>
    · rw [hrun] at counted
      cases h : Legible t.entries id <;> simp_all

/-- What a table knows after lookups of its entries: the texts of those that have one, and how often
it had to inflate. -/
structure Tallied (entries : List String) (places : List Nat) (t : StringTable) : Prop where
  same : t.entries = entries
  sound : t.Sound
  kept : ∀ id s, t.decoded.lookup id = some s ↔ id ∈ places ∧ textIn entries id = .ok s
  count : t.decompressions =
    (places.toFinset.filter fun id => Legible entries id).card + places.countP (Garbled entries)

theorem tallied_ofEntries (entries : List String) : Tallied entries [] (ofEntries entries) := by
  constructor
  · rfl
  · exact sound_ofEntries entries
  · simp [ofEntries]
  · rfl

/-- One more place counts among the legible ones if it is new and legible. -/
theorem card_legible_append :
    ((places ++ [id]).toFinset.filter fun i => Legible entries i).card =
      (places.toFinset.filter fun i => Legible entries i).card +
        (if id ∉ places ∧ Legible entries id then 1 else 0) := by
  have more : (places ++ [id]).toFinset = insert id places.toFinset := by
    ext i
    simp
  rw [more, Finset.filter_insert]
  by_cases legible : Legible entries id
  · by_cases old : id ∈ places
    · simp [legible, old]
    · simp [legible, old]
  · simp [legible]

theorem Tallied.text (tallied : Tallied entries places t) (inside : id < entries.length) :
    Tallied entries (places ++ [id]) ((text id).run t).2 := by
  obtain ⟨same, sound, kept, count⟩ := tallied
  subst same
  constructor
  · exact (text_run id t sound).2.2
  · exact (text_run id t sound).2.1
  · intro i s
    rw [text_keeps sound inside, kept, List.mem_append, List.mem_singleton]
    constructor
    · rintro (⟨before, meant⟩ | ⟨rfl, meant⟩)
      · exact ⟨.inl before, meant⟩
      · exact ⟨.inr rfl, meant⟩
    · rintro ⟨before | rfl, meant⟩
      · exact .inl ⟨before, meant⟩
      · exact .inr ⟨rfl, meant⟩
  · -- A legible entry has a text, so it is kept exactly if it was looked up before.
    have new : ((t.decoded.lookup id).isNone ∧ Legible t.entries id) ↔
        (id ∉ places ∧ Legible t.entries id) := by
      refine and_congr_left fun legible => ?_
      obtain ⟨s, meant⟩ := textIn_of_legible legible
      constructor
      · intro unknown before
        rw [(kept id s).2 ⟨before, meant⟩] at unknown
        cases unknown
      · intro unasked
        by_contra known
        obtain ⟨u, known⟩ := Option.ne_none_iff_exists'.1 (mt Option.isNone_iff_eq_none.2 known)
        exact unasked ((kept id u).1 known).1
    have once : (Garbled t.entries id).toNat = if Garbled t.entries id then 1 else 0 := by
      cases Garbled t.entries id <;> rfl
    rw [text_count sound inside, count, card_legible_append, List.countP_append,
      List.countP_singleton]
    simp only [new, once]
    omega

/-- Beyond the table a lookup has nothing to inflate. -/
theorem text_outside (outside : t.entries.length ≤ id) : ((text id).run t).2 = t := by
  simp only [text, run_bind, run_get, List.getElem?_eq_none outside, run_pure]

theorem lookedUp_cons (size : Nat) (q : Query) (queries : List Query) :
    lookedUp size (q :: queries) = lookedUp size [q] ++ lookedUp size queries := by
  rw [← List.singleton_append, lookedUp, List.filterMap_append, List.filter_append]
  rfl

theorem Tallied.ask (tallied : Tallied entries places t) (q : Query) :
    Tallied entries (places ++ lookedUp entries.length [q]) (q.ask.run t).2 := by
  rcases q.ask_cases with ⟨id, place, asks⟩ | ⟨place, answer, asks⟩
  · have after : (q.ask.run t).2 = ((StringTable.text id).run t).2 := by
      rw [asks, run_bind]
      rcases (StringTable.text id).run t with ⟨_ | s, t'⟩ <;> rfl
    rw [after]
    by_cases inside : id < entries.length
    · simpa [lookedUp, place, inside] using tallied.text inside
    · rw [text_outside (by rw [tallied.same]; omega)]
      simpa [lookedUp, place, inside] using tallied
  · rw [asks, run_except]
    simpa [lookedUp, place] using tallied

theorem Tallied.askAll (tallied : Tallied entries places t) (queries : List Query) :
    Tallied entries (places ++ lookedUp entries.length queries) ((askAll queries).run t).2 := by
  induction queries generalizing places t with
  | nil =>
    rw [lookedUp, List.filterMap_nil, List.filter_nil, List.append_nil]
    exact tallied
  | cons q queries ih =>
    rw [lookedUp_cons, ← List.append_assoc]
    exact ih (tallied.ask q)

theorem steady_ask (q : Query) : Lookup.Steady q.ask := by
  cases q with
  | text id => exact Lookup.steady_bind (Lookup.steady_text id) fun _ => Lookup.steady_pure _
  | slot s => exact Lookup.steady_lookup s

theorem askAll_answers (sound : t.Sound) (queries : List Query) :
    ((askAll queries).run t).1 = queries.map fun q => q.ask.read t.entries := by
  induction queries generalizing t with
  | nil => rfl
  | cons q queries ih =>
    obtain ⟨answer, sound', same⟩ := steady_ask q t sound
    have rest := ih sound'
    rw [same] at rest
    rw [List.map_cons, ← answer, ← rest]
    rfl

theorem read_ask {q : Query} (place : q.place? = some id) :
    q.ask.read entries = (textIn entries id).map .value := by
  rcases q.ask_cases with ⟨i, here, asks⟩ | ⟨nowhere, -⟩
  · rw [place] at here
    cases here
    have result := (text_run id _ (sound_ofEntries entries)).1
    rw [asks, Lookup.read, run_bind]
    rcases h : (StringTable.text id).run (ofEntries entries) with ⟨_ | s, t'⟩ <;>
    · rw [h] at result
      rw [← show _ = textIn entries id from result]
      rfl
  · rw [place] at nowhere
    cases nowhere

/-- Entries that are legible are not garbled. -/
theorem legible_add_garbled_le (entries : List String) (places : Finset Nat) :
    (places.filter fun id => Legible entries id).card +
      (places.filter fun id => Garbled entries id).card ≤ places.card := by
  rw [← Finset.card_filter_add_card_filter_not (s := places) (fun id => Legible entries id)]
  refine Nat.add_le_add_left (Finset.card_le_card fun id h => ?_) _
  rw [Finset.mem_filter] at h ⊢
  refine ⟨h.1, fun legible => ?_⟩
  obtain ⟨s, meant⟩ := textIn_of_legible legible
  rw [textIn_of_garbled h.2] at meant
  cases meant

/-- Whatever is asked of a table, every lookup of an entry answers what that entry says by itself,
and the entries inflated are the legible ones that were looked up, once each, and the garbled ones,
once for each lookup. So no entry is inflated twice unless a garbled one is looked up again. -/
theorem inflations_of_queries (entries : List String) (queries : List Query) :
    let answers := ((askAll queries).run (ofEntries entries)).1
    let t := ((askAll queries).run (ofEntries entries)).2
    let places := lookedUp entries.length queries
    answers = queries.map (fun q => q.ask.read entries) ∧
    (∀ (i id : Nat), queries[i]?.bind Query.place? = some id →
      answers[i]? = some ((textIn entries id).map SlotText.value)) ∧
    t.decompressions =
      (places.toFinset.filter fun id => Legible entries id).card +
        (places.filter (Garbled entries)).length ∧
    ((places.filter (Garbled entries)).Nodup → t.decompressions ≤ places.toFinset.card) := by
  intro answers t places
  have answered : answers = queries.map fun q => q.ask.read entries :=
    askAll_answers (sound_ofEntries entries) queries
  have counted : t.decompressions =
      (places.toFinset.filter fun id => Legible entries id).card +
        (places.filter (Garbled entries)).length := by
    rw [← List.countP_eq_length_filter]
    exact ((tallied_ofEntries entries).askAll queries).count
  refine ⟨answered, ?_, counted, ?_⟩
  · intro i id asked
    obtain ⟨q, here, place⟩ := Option.bind_eq_some_iff.1 asked
    rw [answered, List.getElem?_map, here, Option.map_some, read_ask place]
  · intro once
    have distinct := List.toFinset_card_of_nodup once
    rw [List.toFinset_filter] at distinct
    have bound := legible_add_garbled_le entries places.toFinset
    omega

/-- A compressed text is asked for three times in two ways, between lookups of the other entry. -/
theorem repeated_text_inflated_once :
    let queries : List Query := [.text 1, .slot (some (.int 1)), .text 0, .slot none, .text 1]
    ((lookedUp 2 queries).filter (Garbled ["*", "eNorzk3MySmmLQEASKop9Q=="])).Nodup ∧
    ((askAll queries).run (ofEntries ["*", "eNorzk3MySmmLQEASKop9Q=="])).2.decompressions ≤
      (lookedUp 2 queries).toFinset.card := by
  intro queries
  have once : ((lookedUp 2 queries).filter (Garbled ["*", "eNorzk3MySmmLQEASKop9Q=="])).Nodup := by
    decide +kernel
  exact ⟨once, (inflations_of_queries ["*", "eNorzk3MySmmLQEASKop9Q=="] queries).2.2.2 once⟩

/-- The bytes of this entry are not UTF-8, and asking for them twice inflates them twice. -/
theorem garbled_entry_inflates_again :
    ¬((askAll [.text 0, .text 0]).run (ofEntries ["eNr7/w8AAv4B/g=="])).2.decompressions ≤
      (lookedUp 1 [.text 0, .text 0]).toFinset.card := by
  decide +kernel

end RunReport.StringTable
