import Mathlib.Tactic.FinCases
import RunReport.Proofs.Effects
import RunReport.Proofs.Layout
import RunReport.Record
/-!
# From letters to numbers

Every record of the first version has a translation to the second: codes are written as numbers, and
the slots of a suite go to other places, with nothing for the relative source. What can be read from
a record can be read from its translation, with the same result; only the records of the children
are translated in turn.
-/

namespace RunReport

open Effects

/-! ## The translation -/

namespace Code

/-- The number for each code that is written in letters. -/
def numbers : Code → List (String × Int)
  | .status => [("P", 1), ("F", 0), ("N", 2)]
  | .keywordType => [("kw", 0), ("setup", 1), ("teardown", 2), ("forloop", 3), ("foritem", 4)]
  | .critical => [("Y", 1), ("N", 0)]
  | .level => [("T", 0), ("D", 1), ("I", 2), ("H", 2), ("W", 3), ("E", 4), ("F", 5)]

def translate (c : Code) (u : Raw) : Raw :=
  match u with
  | .str letters => (c.numbers.lookup letters).elim u .int
  | _ => u

end Code

/-- The slots of a record in the order of the second version. -/
def Part.arrange : Part → List Raw → List Raw
  | .record .suite, source :: name :: rest => name :: source :: .null :: rest
  | _, items => items

mutual

/-- Translates a value from the first version to the second. -/
def Raw.translate : Part → Raw → Raw
  | .code c, u => c.translate u
  | part, .list items =>
    if part.hasSlots then .list (part.arrange (translateFrom part 0 items)) else .list items
  | _, u => u

/-- Translates the slots from the `i`th on. -/
def translateFrom (part : Part) : Nat → List Raw → List Raw
  | _, [] => []
  | i, u :: us => u.translate (part.slot .lettered i) :: translateFrom part (i + 1) us

end

/-- Translates records of one part. -/
def translateAll (part : Part) (us : List Raw) : List Raw :=
  us.map (Raw.translate part)

/-- What refers to nothing and what refers to a text is written alike in both versions. -/
theorem Raw.translate_leaf {part : Part} (leaf : part.hasSlots = false) (code : ∀ c, part ≠ .code c)
    (u : Raw) : u.translate part = u := by
  cases part
  case code c => exact absurd rfl (code c)
  case plain => cases u <;> simp [Raw.translate, Part.hasSlots]
  case text => cases u <;> simp [Raw.translate, Part.hasSlots]
  all_goals cases leaf

theorem Raw.translate_code (c : Code) (u : Raw) : u.translate (.code c) = c.translate u := by
  cases u <;> simp [Raw.translate]

theorem Raw.translate_text (u : Raw) : u.translate .text = u :=
  translate_leaf rfl (by simp) u

theorem Raw.translate_plain (u : Raw) : u.translate .plain = u :=
  translate_leaf rfl (by simp) u

theorem getElem?_translateFrom (part : Part) (k i : Nat) (us : List Raw) :
    (translateFrom part k us)[i]? = us[i]?.map (Raw.translate (part.slot .lettered (k + i))) := by
  induction us generalizing k i with
  | nil => simp [translateFrom]
  | cons u us ih =>
    cases i with
    | zero => simp [translateFrom]
    | succ i =>
      simp only [translateFrom, List.getElem?_cons_succ, ih]
      rw [show k + 1 + i = k + (i + 1) by omega]

/-- Where all slots are alike. -/
theorem translateFrom_same {part q : Part} (h : ∀ i, part.slot .lettered i = q) (k : Nat)
    (us : List Raw) : translateFrom part k us = translateAll q us := by
  induction us generalizing k with
  | nil => rfl
  | cons u us ih => rw [translateFrom, h, ih, translateAll, translateAll, List.map_cons]

theorem translateAll_text (us : List Raw) : translateAll .text us = us := by
  rw [translateAll, List.map_congr_left fun u _ => u.translate_text, List.map_id']

/-! ## Results that carry over -/

/-- If the first succeeds then so does the second, with the result that belongs to it. -/
def Gives {α β : Type} (f : α → β) (x : Except Error α) (y : Except Error β) : Prop :=
  ∀ a, x = .ok a → y = .ok (f a)

namespace Gives

variable {α β γ δ : Type} {f : α → β} {h : γ → δ} {x : Except Error α} {y : Except Error β}

theorem refl (x : Except Error α) : Gives id x x :=
  fun _ hx => hx

theorem bind (hx : Gives f x y) {k : α → Except Error γ} {l : β → Except Error δ}
    (hk : ∀ a, Gives h (k a) (l (f a))) : Gives h (x >>= k) (y >>= l) := by
  intro c hc
  cases hx' : x with
  | error e => rw [hx'] at hc; cases hc
  | ok a =>
    rw [hx'] at hc
    rw [hx a hx']
    exact hk a c hc

theorem map (hx : Gives f x y) {k : α → γ} {l : β → δ} (hk : ∀ a, l (f a) = h (k a)) :
    Gives h (x.map k) (y.map l) := by
  intro c hc
  cases hx' : x with
  | error e => rw [hx'] at hc; cases hc
  | ok a =>
    rw [hx'] at hc
    cases hc
    rw [hx a hx']
    exact congrArg Except.ok (hk a)

end Gives

/-- The same of computations, from states that satisfy `I`; states are carried over by `g`. -/
def Transports {σ τ α β : Type} (I : σ → Prop) (g : σ → τ) (f : α → β)
    (x : ExceptT Error (StateM σ) α) (y : ExceptT Error (StateM τ) β) : Prop :=
  ∀ s a s', I s → x.run s = (.ok a, s') → I s' ∧ y.run (g s) = (.ok (f a), g s')

section Transports

variable {σ τ α β γ δ : Type} {I : σ → Prop} {g : σ → τ} {f : α → β} {h : γ → δ}

theorem transports_pure {a : α} {b : β} (hab : b = f a) : Transports I g f (pure a) (pure b) := by
  rintro s _ _ hs ⟨⟩
  exact ⟨hs, by rw [hab]; rfl⟩

theorem transports_except {x : Except Error α} {y : Except Error β} (hx : Gives f x y) :
    Transports I g f (liftM x) (liftM y) := by
  intro s a s' hs run
  rw [run_except] at run ⊢
  cases run
  exact ⟨hs, by rw [hx a rfl]⟩

theorem transports_throw {e : Error} {y : ExceptT Error (StateM τ) β} :
    Transports I g f (throw e) y := by
  intro s a s' _ run
  cases run

theorem transports_bind {x : ExceptT Error (StateM σ) α} {y : ExceptT Error (StateM τ) β}
    {k : α → ExceptT Error (StateM σ) γ} {l : β → ExceptT Error (StateM τ) δ}
    (hx : Transports I g f x y) (hk : ∀ a, Transports I g h (k a) (l (f a))) :
    Transports I g h (x >>= k) (y >>= l) := by
  intro s c s' hs run
  obtain ⟨a, t, hrun, run⟩ := run_bind_eq_ok.1 run
  obtain ⟨ht, hy⟩ := hx s a t hs hrun
  obtain ⟨hs', hl⟩ := hk a t c s' ht run
  exact ⟨hs', by rw [run_bind_ok hy]; exact hl⟩

end Transports

/-! ## Codes -/

/-- The same reading in the second version. -/
def Coding.indexed (c : Coding) : Coding :=
  { c with version := .indexed }

theorem decodeLetters_str {α : Type} (what : String) (table : List (String × α)) (letters : String) :
    decodeLetters what table (.str letters) =
      match table.lookup letters with
      | some a => .ok a
      | none => .error (.unknownCode what letters) := rfl

/-- A code that is found in its table is found again by its number. -/
theorem decodeLetters_gives {α : Type} {what : String} {table : List (String × α)} (c : Code)
    (decode : Raw → Except Error α)
    (numbered : ∀ p ∈ table, ∃ n, c.numbers.lookup p.1 = some n ∧ decode (.int n) = .ok p.2)
    (u : Raw) : Gives id (decodeLetters what table u) (decode (u.translate (.code c))) := by
  intro a ha
  rw [Raw.translate_code]
  cases u with
  | str letters =>
    rw [decodeLetters_str] at ha
    cases hl : table.lookup letters with
    | none => rw [hl] at ha; cases ha
    | some b =>
      rw [hl] at ha
      cases ha
      obtain ⟨before, after, rfl, -⟩ := List.lookup_eq_some_iff.1 hl
      obtain ⟨n, hn, hd⟩ := numbered (letters, a) (by simp)
      simp only [Code.translate, hn]
      exact hd
  | _ => cases ha

theorem status_gives (u : Raw) :
    Gives id (Version.lettered.status u)
      (Version.indexed.status (u.translate (.code .status))) := by
  refine decodeLetters_gives .status Version.indexed.status (fun p hp => ?_) u
  fin_cases hp <;> exact ⟨_, rfl, rfl⟩

theorem keywordType_gives (u : Raw) :
    Gives id (Version.lettered.keywordType u)
      (Version.indexed.keywordType (u.translate (.code .keywordType))) := by
  refine decodeLetters_gives .keywordType Version.indexed.keywordType (fun p hp => ?_) u
  fin_cases hp <;> exact ⟨_, rfl, rfl⟩

theorem critical_gives (u : Raw) :
    Gives id (Version.lettered.critical u)
      (Version.indexed.critical (u.translate (.code .critical))) := by
  refine decodeLetters_gives .critical Version.indexed.critical (fun p hp => ?_) u
  fin_cases hp <;> exact ⟨_, rfl, rfl⟩

theorem level_gives (u : Raw) :
    Gives id (Version.lettered.level u) (Version.indexed.level (u.translate (.code .level))) := by
  refine decodeLetters_gives .level Version.indexed.level (fun p hp => ?_) u
  fin_cases hp <;> exact ⟨_, rfl, rfl⟩

/-! ## Slots -/

theorem Raw.translate_list {part : Part} (slots : part.hasSlots = true) (us : List Raw) :
    Raw.translate part (.list us) = .list (part.arrange (translateFrom part 0 us)) := by
  cases part <;> simp [Raw.translate, Part.hasSlots] at slots ⊢

theorem Raw.translate_scalar {part : Part} (slots : part.hasSlots = true) {u : Raw}
    (scalar : ∀ us, u ≠ .list us) : u.translate part = u := by
  cases u with
  | list us => exact absurd rfl (scalar us)
  | _ => cases part <;> simp [Raw.translate, Part.hasSlots] at slots ⊢

theorem Raw.translate_texts (u : Raw) : u.translate .texts = u := by
  cases u with
  | list us =>
    rw [translate_list rfl, translateFrom_same fun _ => rfl, translateAll_text]
    rfl
  | _ => exact translate_scalar rfl (by simp)

/-- Only the slots of suites change places. -/
theorem Part.arrange_eq {part : Part} (h : part ≠ .record .suite) (us : List Raw) :
    part.arrange us = us := by
  cases part with
  | record b =>
    cases b with
    | suite => exact absurd rfl h
    | _ => rfl
  | _ => rfl

def Element.translate (part : Part) (el : Element) : Element :=
  { el with items := part.arrange (translateFrom part 0 el.items) }

section Slots

variable {part : Part} {context : String} {i : Nat}

theorem asList_gives (slots : part.hasSlots = true) (u : Raw) :
    Gives (fun us => part.arrange (translateFrom part 0 us)) (u.asList context)
      ((u.translate part).asList context) := by
  intro us hu
  cases u with
  | list vs =>
    cases hu
    rw [Raw.translate_list slots]
    rfl
  | _ => cases hu

theorem element_gives (slots : part.hasSlots = true) (u : Raw) :
    Gives (Element.translate part) (u.element context) ((u.translate part).element context) :=
  (asList_gives slots u).map fun _ => rfl

/-- A list of records of one part. -/
theorem records_give {q : Part} (slots : part.hasSlots = true) (fixed : part ≠ .record .suite)
    (same : ∀ i, part.slot .lettered i = q) (u : Raw) :
    Gives (translateAll q) (u.asList context) ((u.translate part).asList context) := by
  intro us hu
  have given := asList_gives slots u us hu
  simpa only [Part.arrange_eq fixed, translateFrom_same same] using given

theorem opt_translate (fixed : part ≠ .record .suite) (el : Element) (i : Nat) :
    (el.translate part).opt i = (el.opt i).map (Raw.translate (part.slot .lettered i)) := by
  rw [Element.opt, Element.opt, Element.translate, Part.arrange_eq fixed, getElem?_translateFrom,
    Nat.zero_add]

theorem Element.get_gives {el el' : Element} {j : Nat} {f : Raw → Raw}
    (h : el'.opt j = (el.opt i).map f) : Gives f (el.get i) (el'.get j) := by
  intro u hu
  simp only [Element.get, Element.opt] at hu h ⊢
  rw [h]
  cases hi : el.items[i]? with
  | none => rw [hi] at hu; cases hu
  | some v =>
    rw [hi] at hu
    cases hu
    rfl

theorem get_gives (fixed : part ≠ .record .suite) (el : Element) (i : Nat) :
    Gives (Raw.translate (part.slot .lettered i)) (el.get i) ((el.translate part).get i) :=
  Element.get_gives (opt_translate fixed el i)

/-- A slot that is written alike in both versions. -/
theorem getLeaf_gives (fixed : part ≠ .record .suite)
    (leaf : (part.slot .lettered i).hasSlots = false)
    (code : ∀ c, part.slot .lettered i ≠ .code c) (el : Element) :
    Gives id (el.get i) ((el.translate part).get i) := by
  intro u hu
  rw [get_gives fixed el i u hu, Raw.translate_leaf leaf code]
  rfl

theorem opt_text (fixed : part ≠ .record .suite) (h : part.slot .lettered i = .text)
    (el : Element) : (el.translate part).opt i = el.opt i := by
  rw [opt_translate fixed, h]
  cases el.opt i with
  | none => rfl
  | some u => exact congrArg some u.translate_text

end Slots

/-! ## Records -/

def KeywordSource.translate : KeywordSource → KeywordSource
  | .inline us => .inline (translateAll (.record .keyword) us)
  | .split file => .split file

def SuiteRecord.translate (a : SuiteRecord) : SuiteRecord :=
  { a with suites := translateAll (.record .suite) a.suites
           tests := translateAll (.record .test) a.tests
           keywords := translateAll (.record .keyword) a.keywords }

def TestRecord.translate (a : TestRecord) : TestRecord :=
  { a with keywords := a.keywords.translate }

def KeywordRecord.translate (a : KeywordRecord) : KeywordRecord :=
  { a with keywords := a.keywords.translate, messages := translateAll .message a.messages }

/-- What is found on the way to a result stays found. -/
abbrev Lookup.Gives {α β : Type} (f : α → β) (x : Lookup α) (y : Lookup β) : Prop :=
  Transports (fun _ => True) id f x y

theorem Lookup.gives_refl {α : Type} (x : Lookup α) : Lookup.Gives id x x :=
  fun _ _ _ _ run => ⟨trivial, run⟩

namespace Coding

variable {c : Coding}

theorem statusPart_gives (lettered : c.version = .lettered) (el : Element) :
    Gives id (c.statusPart el) (c.indexed.statusPart (el.translate .status)) := by
  have message : (el.translate .status).opt 3 = el.opt 3 := opt_text (by simp) rfl el
  simp only [statusPart, Element.int, lettered, message]
  refine (get_gives (by simp) el 0).bind fun code => (status_gives code).bind fun status => ?_
  refine (getLeaf_gives (by simp) rfl (by simp [Part.slot]) el).bind fun start => ?_
  refine (Gives.refl _).bind fun start => ?_
  refine Gives.bind (f := id) ?_ fun elapsed => .refl _
  exact (getLeaf_gives (by simp) rfl (by simp [Part.slot]) el).bind fun elapsed => .refl _

theorem keywordSource_gives (lettered : c.version = .lettered) (u : Raw) :
    Gives KeywordSource.translate (c.keywordSource u)
      (c.indexed.keywordSource (u.translate .body)) := by
  intro k hk
  cases u with
  | list us =>
    cases hk
    rw [Raw.translate_list rfl, Part.arrange_eq (by simp), translateFrom_same fun _ => rfl]
    rfl
  | null =>
    cases hk
    rfl
  | bool b => cases hk
  | str s => cases hk
  | int n =>
    simp only [keywordSource, lettered] at hk
    cases hk
  | float x =>
    simp only [keywordSource, lettered] at hk
    cases hx : Raw.asInt "split index" (.float x) with
    | error e => rw [hx] at hk; cases hk
    | ok n => rw [hx] at hk; cases hk

theorem message_gives (lettered : c.version = .lettered) (u : Raw) :
    Lookup.Gives id (c.message u) (c.indexed.message (u.translate .message)) := by
  refine transports_bind (transports_except (element_gives rfl u)) fun el => ?_
  have text : (el.translate .message).opt 2 = el.opt 2 := opt_text (by simp) rfl el
  have link : (el.translate .message).opt 3 = el.opt 3 := opt_text (by simp) rfl el
  simp only [Element.int, lettered, text, link]
  refine transports_bind (f := id) (transports_except ?_) fun offset => ?_
  · exact (getLeaf_gives (by simp) rfl (by simp [Part.slot]) el).bind fun _ => .refl _
  refine transports_bind (transports_except (get_gives (by simp) el 1)) fun code => ?_
  refine transports_bind (transports_except (level_gives code)) fun level => ?_
  exact Lookup.gives_refl _

theorem keyword_gives (lettered : c.version = .lettered) (u : Raw) :
    Lookup.Gives KeywordRecord.translate (c.keyword u)
      (c.indexed.keyword (u.translate (.record .keyword))) := by
  refine transports_bind (transports_except (element_gives rfl u)) fun el => ?_
  have timeout : (el.translate (.record .keyword)).opt 2 = el.opt 2 := opt_text (by simp) rfl el
  have doc : (el.translate (.record .keyword)).opt 3 = el.opt 3 := opt_text (by simp) rfl el
  have arguments : (el.translate (.record .keyword)).opt 4 = el.opt 4 := opt_text (by simp) rfl el
  simp only [Element.element, lettered, timeout, doc, arguments]
  refine transports_bind (transports_except (get_gives (by simp) el 0)) fun code => ?_
  refine transports_bind (transports_except (keywordType_gives code)) fun type => ?_
  refine transports_bind (transports_except (getLeaf_gives (by simp) rfl (by simp [Part.slot]) el))
    fun name => ?_
  refine transports_bind (Lookup.gives_refl _) fun name => ?_
  refine transports_bind (Lookup.gives_refl _) fun timeout => ?_
  refine transports_bind (Lookup.gives_refl _) fun arguments => ?_
  refine transports_bind (transports_except ((get_gives (by simp) el 5).bind fun u =>
    element_gives rfl u)) fun status => ?_
  refine transports_bind (transports_except (statusPart_gives lettered status)) ?_
  rintro ⟨status, times, -⟩
  refine transports_bind (transports_except (get_gives (by simp) el 6)) fun body => ?_
  refine transports_bind (transports_except (keywordSource_gives lettered body)) fun keywords => ?_
  have messages : (el.translate (.record .keyword)).opt 7 =
      (el.opt 7).map (Raw.translate .messages) := opt_translate (by simp) el 7
  rw [messages]
  cases el.opt 7 with
  | none =>
    exact transports_bind (f := translateAll .message) (transports_pure rfl) fun _ =>
      transports_pure rfl
  | some slot =>
    refine transports_bind (transports_except (records_give rfl (by simp) (fun _ => rfl) slot))
      fun _ => ?_
    exact transports_pure rfl

theorem test_gives (lettered : c.version = .lettered) (u : Raw) :
    Lookup.Gives TestRecord.translate (c.test u)
      (c.indexed.test (u.translate (.record .test))) := by
  refine transports_bind (transports_except (element_gives rfl u)) fun el => ?_
  have timeout : (el.translate (.record .test)).opt 1 = el.opt 1 := opt_text (by simp) rfl el
  have doc : (el.translate (.record .test)).opt 3 = el.opt 3 := opt_text (by simp) rfl el
  simp only [Element.element, Element.list, lettered, timeout, doc]
  refine transports_bind (transports_except (getLeaf_gives (by simp) rfl (by simp [Part.slot]) el))
    fun name => ?_
  refine transports_bind (Lookup.gives_refl _) fun name => ?_
  refine transports_bind (Lookup.gives_refl _) fun timeout => ?_
  refine transports_bind (transports_except (get_gives (by simp) el 2)) fun code => ?_
  refine transports_bind (transports_except (critical_gives code)) fun critical => ?_
  refine transports_bind (transports_except ((get_gives (by simp) el 4).bind fun tags =>
    records_give rfl (by simp [Part.slot]) (fun _ => rfl) tags)) fun tags => ?_
  rw [translateAll_text]
  refine transports_bind (Lookup.gives_refl _) fun tags => ?_
  refine transports_bind (transports_except ((get_gives (by simp) el 5).bind fun u =>
    element_gives rfl u)) fun status => ?_
  refine transports_bind (transports_except (statusPart_gives lettered status)) ?_
  rintro ⟨status, times, -⟩
  refine transports_bind (transports_except (get_gives (by simp) el 6)) fun body => ?_
  refine transports_bind (transports_except (keywordSource_gives lettered body)) fun keywords => ?_
  exact transports_pure rfl

/-- The slots of a suite after the first two move on by one. -/
theorem suite_opt (context : String) (source name : Raw) (rest : List Raw) (i : Nat) :
    ((Element.mk context (source :: name :: rest)).translate (.record .suite)).opt (i + 3) =
      ((Element.mk context (source :: name :: rest)).opt (i + 2)).map
        (Raw.translate (Part.slot .lettered (.record .suite) (i + 2))) := by
  simp only [Element.opt, Element.translate, translateFrom, Part.arrange, List.getElem?_cons_succ,
    getElem?_translateFrom]
  rw [show 0 + 1 + 1 + i = i + 2 by omega]

theorem suite_gives (lettered : c.version = .lettered) (u : Raw) :
    Lookup.Gives SuiteRecord.translate (c.suite u)
      (c.indexed.suite (u.translate (.record .suite))) := by
  refine transports_bind (transports_except (element_gives rfl u)) ?_
  rintro ⟨context, _ | ⟨source, _ | ⟨name, rest⟩⟩⟩
  -- A record without a name cannot be read.
  · intro s a s' _ run
    simp only [lettered] at run
    cases run
  · intro s a s' _ run
    simp only [lettered] at run
    cases run
  have moves := suite_opt context source name rest
  have nameSlot : (Element.translate (.record .suite) ⟨context, source :: name :: rest⟩).opt 0 =
      ((Element.mk context (source :: name :: rest)).opt 1).map id :=
    congrArg some name.translate_text
  have sourceSlot : (Element.translate (.record .suite) ⟨context, source :: name :: rest⟩).opt 1 =
      (Element.mk context (source :: name :: rest)).opt 0 := congrArg some source.translate_text
  have relativeSlot : (Element.translate (.record .suite) ⟨context, source :: name :: rest⟩).opt 2 =
      some .null := rfl
  have docSlot : (Element.translate (.record .suite) ⟨context, source :: name :: rest⟩).opt 3 =
      (Element.mk context (source :: name :: rest)).opt 2 := by
    rw [moves 0]
    cases (Element.mk context (source :: name :: rest)).opt 2 with
    | none => rfl
    | some u => exact congrArg some u.translate_text
  have same : (Element.translate (.record .suite) ⟨context, source :: name :: rest⟩).context =
      (Element.mk context (source :: name :: rest)).context := rfl
  generalize Element.translate (.record .suite) ⟨context, source :: name :: rest⟩ = el' at *
  generalize Element.mk context (source :: name :: rest) = el at *
  simp only [lettered, indexed, Version.suiteSlots, sourceSlot, relativeSlot, docSlot,
    Element.element, same]
  refine transports_bind (transports_except (Element.get_gives nameSlot)) fun name => ?_
  refine transports_bind (Lookup.gives_refl _) fun name => ?_
  refine transports_bind (Lookup.gives_refl _) fun source => ?_
  simp only [show StringTable.lookup (some .null) = pure .null from rfl, pure_bind]
  refine transports_bind (transports_except (Element.get_gives (moves 1))) fun metadata => ?_
  rw [show metadata.translate (Part.slot .lettered (.record .suite) (1 + 2)) = metadata from
    metadata.translate_texts]
  refine transports_bind (Lookup.gives_refl _) fun metadata => ?_
  refine transports_bind (transports_except ((Element.get_gives (moves 2)).bind fun u =>
    element_gives rfl u)) fun status => ?_
  refine transports_bind (transports_except (statusPart_gives lettered status)) ?_
  rintro ⟨status, times, message⟩
  refine transports_bind (f := id)
    (transports_except ((Element.get_gives (moves 6)).bind fun u => ?_)) fun stats => ?_
  · rw [show u.translate (Part.slot .lettered (.record .suite) (6 + 2)) = u from u.translate_plain]
    exact .refl _
  refine transports_bind (Lookup.gives_refl _) fun counts => ?_
  refine transports_bind (transports_except (Element.get_gives (moves 3))) fun suites => ?_
  refine transports_bind (transports_except (records_give rfl (by decide) (fun _ => rfl) suites))
    fun suites => ?_
  refine transports_bind (transports_except (Element.get_gives (moves 4))) fun tests => ?_
  refine transports_bind (transports_except (records_give rfl (by decide) (fun _ => rfl) tests))
    fun tests => ?_
  refine transports_bind (transports_except (Element.get_gives (moves 5))) fun keywords => ?_
  refine transports_bind (transports_except (records_give rfl (by decide) (fun _ => rfl) keywords))
    fun keywords => ?_
  exact transports_pure rfl

end Coding

end RunReport
