import RunReport.Proofs.Circularity
import RunReport.Proofs.Writing
/-!
# Texts that are looked up

A computation may keep an invariant of its state and return nothing but what satisfies a condition,
and so do computations put together from such ones. Here the state is a string table: where it has no
text with an escape character, the records that are read have none.
-/

namespace RunReport

/-! ## What a computation returns -/

namespace Effects

variable {ε σ α β : Type} {I : σ → Prop} {P : α → Prop} {Q : β → Prop}

/-- From a state that satisfies `I` the computation leads to one that does, whether it fails or not,
and what it returns satisfies `P`. -/
def Upholds (I : σ → Prop) (x : ExceptT ε (StateM σ) α) (P : α → Prop) : Prop :=
  ∀ s, I s → I (x.run s).2 ∧ ∀ a, (x.run s).1 = .ok a → P a

theorem upholds_pure {a : α} (h : P a) : Upholds I (pure a : ExceptT ε (StateM σ) α) P := by
  refine fun _ hs => ⟨hs, ?_⟩
  rintro _ ⟨⟩
  exact h

theorem upholds_throw (e : ε) : Upholds I (throw e : ExceptT ε (StateM σ) α) P := by
  refine fun _ hs => ⟨hs, ?_⟩
  rintro _ ⟨⟩

theorem upholds_get : Upholds I (get : ExceptT ε (StateM σ) σ) I := by
  refine fun _ hs => ⟨hs, ?_⟩
  rintro _ ⟨⟩
  exact hs

theorem upholds_except {x : Except ε α} (h : ∀ a, x = .ok a → P a) :
    Upholds I (liftM x : ExceptT ε (StateM σ) α) P :=
  fun _ hs => ⟨hs, h⟩

theorem upholds_modify {f : σ → σ} (h : ∀ s, I s → I (f s)) :
    Upholds I (modify f : ExceptT ε (StateM σ) PUnit) fun _ => True :=
  fun s hs => ⟨h s hs, fun _ _ => trivial⟩

theorem upholds_bind {x : ExceptT ε (StateM σ) α} {f : α → ExceptT ε (StateM σ) β}
    (hx : Upholds I x P) (hf : ∀ a, P a → Upholds I (f a) Q) : Upholds I (x >>= f) Q := by
  intro s hs
  obtain ⟨kept, returned⟩ := hx s hs
  rw [run_bind]
  rcases hrun : x.run s with ⟨e | a, t⟩ <;> rw [hrun] at kept returned
  · refine ⟨kept, ?_⟩
    rintro _ ⟨⟩
  · exact hf a (returned a rfl) t kept

theorem Upholds.imp {x : ExceptT ε (StateM σ) α} {R : α → Prop} (hx : Upholds I x P)
    (h : ∀ a, P a → R a) : Upholds I x R :=
  fun s hs => ⟨(hx s hs).1, fun a ha => h a ((hx s hs).2 a ha)⟩

/-- Whatever is read of a result that is not looked at. -/
theorem upholds_any (x : Except ε α) :
    Upholds I (liftM x : ExceptT ε (StateM σ) α) fun _ => True :=
  upholds_except fun _ _ => trivial

theorem upholds_map {x : ExceptT ε (StateM σ) α} {f : α → β} (hx : Upholds I x P)
    (h : ∀ a, P a → Q (f a)) : Upholds I (f <$> x) Q :=
  upholds_bind hx fun a ha => upholds_pure (h a ha)

section Place

variable {p : Place σ α} (hp : ∀ f s, I s → I (p.update f s))
  {create : Nat → ExceptT ε (StateM σ) α} (hc : ∀ i, Upholds I (create i) fun _ => True)

include hp

theorem upholds_length : Upholds I (p.length : ExceptT ε (StateM σ) Nat) fun _ => True :=
  upholds_bind (upholds_modify (hp _)) fun _ _ => upholds_bind upholds_get fun _ _ =>
    upholds_pure trivial

include hc

theorem upholds_item (i : Nat) : Upholds I (p.get create i) fun _ => True := by
  refine upholds_bind (upholds_length hp) fun n _ => ?_
  split
  · refine upholds_bind upholds_get fun _ _ => ?_
    split
    · exact upholds_pure trivial
    · refine upholds_bind (hc i) fun a _ => upholds_bind (upholds_modify (hp _)) fun _ _ => ?_
      exact upholds_bind upholds_get fun _ _ => upholds_pure trivial
  · exact upholds_pure trivial

theorem upholds_gather : Upholds I (p.gather create) fun _ => True := by
  have each : ∀ is, Upholds I (p.itemsAt create is) fun _ => True := by
    intro is
    induction is with
    | nil => exact upholds_pure trivial
    | cons i is ih =>
      exact upholds_bind (upholds_item hp hc i) fun _ _ => upholds_bind ih fun _ _ =>
        upholds_pure trivial
  exact upholds_bind (upholds_length hp) fun n _ => each _

theorem upholds_items : Upholds I (p.items create) fun _ => True := by
  refine upholds_bind upholds_get fun _ _ => ?_
  split
  · exact upholds_pure trivial
  · refine upholds_bind (upholds_gather hp hc) fun items _ => ?_
    refine upholds_bind (upholds_modify (hp _)) fun _ _ => ?_
    exact upholds_bind upholds_get fun _ _ => upholds_pure trivial

theorem upholds_last : Upholds I (p.last create) fun _ => True := by
  refine upholds_bind (upholds_length hp) fun n _ => ?_
  cases n with
  | zero => exact upholds_pure trivial
  | succ n => exact upholds_item hp hc n

end Place

end Effects

open Effects Render

/-! ## Strings -/

/-- No text that the table keeps, or that an entry of it stands for, has an escape character. -/
structure StringTable.Unescaped (t : StringTable) : Prop where
  decoded : ∀ id text, t.decoded.lookup id = some text → '\x1b' ∉ text.toList
  entries : ∀ id entry text, t.entries[id]? = some entry → entryText id entry = .ok text →
    '\x1b' ∉ text.toList

section Lookups

theorem upholds_text (id : Nat) :
    Upholds StringTable.Unescaped (StringTable.text id) fun text => '\x1b' ∉ text.toList := by
  intro t ht
  simp only [StringTable.text, run_bind, run_get]
  cases there : t.entries[id]? with
  | none =>
    refine ⟨ht, ?_⟩
    rintro _ ⟨⟩
    decide
  | some entry =>
    cases kept : t.decoded.lookup id with
    | some text =>
      refine ⟨ht, ?_⟩
      rintro _ ⟨⟩
      exact ht.decoded id text kept
    | none =>
      obtain ⟨result, entries, decoded⟩ := StringTable.decode_run id entry t
      simp only [run_bind, run_modify, run_pure]
      rcases hrun : (StringTable.decode id entry).run t with ⟨e | text, t'⟩ <;>
        simp only [hrun] at result entries decoded
      · refine ⟨⟨?_, ?_⟩, ?_⟩
        · rw [decoded]
          exact ht.decoded
        · rw [entries]
          exact ht.entries
        · rintro _ ⟨⟩
      · have free := ht.entries id entry text there result.symm
        refine ⟨⟨fun id' text' found => ?_, ?_⟩, ?_⟩
        · simp only [decoded, List.lookup_cons] at found
          split at found
          · cases found
            exact free
          · exact ht.decoded id' text' found
        · simp only [entries]
          exact ht.entries
        · rintro _ ⟨⟩
          exact free

theorem upholds_lookup (slot : Option Raw) :
    Upholds StringTable.Unescaped (StringTable.lookup slot) fun t => '\x1b' ∉ t.orEmpty.toList := by
  simp only [StringTable.lookup]
  split
  · exact upholds_pure (by decide)
  · exact upholds_pure (by decide)
  · refine upholds_bind (upholds_any _) fun n _ => ?_
    split
    · exact upholds_throw _
    · exact upholds_bind (upholds_text _) fun text free => upholds_pure free

theorem unescaped_nonEmpty? {t : SlotText} (h : '\x1b' ∉ t.orEmpty.toList) :
    Unescaped t.nonEmpty?.toList := by
  cases t with
  | undefined => exact unescaped_nil
  | null => exact unescaped_nil
  | value text =>
    rw [unescaped_toList]
    intro text' found
    obtain ⟨same, -⟩ := Option.filter_eq_some_iff.1 found
    cases same
    exact h

theorem upholds_stringOf (r : Raw) :
    Upholds StringTable.Unescaped (Coding.stringOf r) fun text => '\x1b' ∉ text.toList :=
  upholds_bind (upholds_lookup _) fun _ free => upholds_pure free

theorem upholds_stringsOf (rs : List Raw) :
    Upholds StringTable.Unescaped (Coding.stringsOf rs) Unescaped := by
  induction rs with
  | nil => exact upholds_pure unescaped_nil
  | cons r rs ih =>
    exact upholds_bind (upholds_stringOf r) fun _ first => upholds_bind ih fun _ rest =>
      upholds_pure (unescaped_cons.2 ⟨first, rest⟩)

theorem unescaped_pairsOf (texts : List String) (h : Unescaped texts) :
    Unescaped ((Coding.pairsOf texts).flatMap fun e => [e.1, e.2]) := by
  fun_induction Coding.pairsOf texts with
  | case1 key value rest ih =>
    rw [unescaped_cons, unescaped_cons] at h
    rw [List.flatMap_cons, unescaped_append, unescaped_cons, unescaped_cons]
    exact ⟨⟨h.1, h.2.1, unescaped_nil⟩, ih h.2.2⟩
  | case2 => exact unescaped_nil

theorem upholds_metadataOf (r : Raw) : Upholds StringTable.Unescaped (Coding.metadataOf r)
    fun entries => Unescaped (entries.flatMap fun e => [e.1, e.2]) := by
  refine upholds_bind (upholds_any _) fun items _ => ?_
  split
  · exact upholds_bind (upholds_stringsOf _) fun texts free =>
      upholds_pure (unescaped_pairsOf texts free)
  · exact upholds_throw _

end Lookups

/-! ## Records -/

namespace Coding

variable {c : Coding}

theorem unescaped_splitFileName (h : Unescaped c.splitLogBase.toList) (index : Int) :
    '\x1b' ∉ (c.splitFileName index).toList := by
  have base : '\x1b' ∉ (c.splitLogBase.getD "log").toList := by
    cases named : c.splitLogBase with
    | none => decide
    | some base => exact unescaped_toList.1 h base named
  have number : '\x1b' ∉ index.repr.toList := not_mem_integer (by decide) (by decide) index
  simp [splitFileName, base, number]

theorem unescaped_keywordSource (h : Unescaped c.splitLogBase.toList) {slot : Raw}
    {source : KeywordSource} (read : c.keywordSource slot = .ok source) :
    Unescaped (Plain.fileOf? source).toList := by
  rcases keywordSource_eq_ok read with ⟨items, rfl, -⟩ | ⟨index, rfl⟩
  · exact unescaped_nil
  · exact unescaped_cons.2 ⟨unescaped_splitFileName h index, unescaped_nil⟩

variable (r : Raw)

theorem upholds_suite : Upholds StringTable.Unescaped (c.suite r) fun record =>
    Unescaped record.texts := by
  refine upholds_bind (upholds_any _) fun el _ => ?_
  refine upholds_bind (upholds_any _) fun _ _ => ?_
  refine upholds_bind (upholds_stringOf _) fun name hname => ?_
  refine upholds_bind (upholds_lookup _) fun source hsource => ?_
  dsimp only
  cases c.version.suiteSlots.relativeSource
  case' none => refine upholds_bind (upholds_pure (P := fun _ => True) trivial) fun _ _ => ?_
  case' some => refine upholds_bind (upholds_lookup _) fun _ _ => ?_
  -- With or without a relative source, the other slots are read alike.
  all_goals
    refine upholds_bind (upholds_any _) fun _ _ => ?_
    refine upholds_bind (upholds_metadataOf _) fun metadata hmetadata => ?_
    refine upholds_bind (upholds_any _) fun _ _ => upholds_bind (upholds_any _) fun _ _ => ?_
    refine upholds_bind (upholds_any _) fun _ _ => upholds_bind (upholds_any _) fun _ _ => ?_
    refine upholds_bind (upholds_any _) fun _ _ => upholds_bind (upholds_any _) fun _ _ => ?_
    refine upholds_bind (upholds_any _) fun _ _ => upholds_bind (upholds_any _) fun _ _ => ?_
    refine upholds_bind (upholds_any _) fun _ _ => upholds_bind (upholds_any _) fun _ _ => ?_
    refine upholds_pure (unescaped_append.2 ⟨?_, hmetadata⟩)
    exact unescaped_cons.2 ⟨hname, unescaped_cons.2 ⟨hsource, unescaped_nil⟩⟩

theorem upholds_message : Upholds StringTable.Unescaped (c.message r) fun record =>
    Unescaped record.texts := by
  refine upholds_bind (upholds_any _) fun _ _ => upholds_bind (upholds_any _) fun _ _ => ?_
  refine upholds_bind (upholds_any _) fun _ _ => upholds_bind (upholds_any _) fun _ _ => ?_
  refine upholds_bind (upholds_lookup _) fun text htext => ?_
  refine upholds_bind (upholds_lookup _) fun link hlink => upholds_pure ?_
  exact unescaped_append.2 ⟨unescaped_cons.2 ⟨htext, unescaped_nil⟩, unescaped_nonEmpty? hlink⟩

variable (h : Unescaped c.splitLogBase.toList)

include h

theorem upholds_test : Upholds StringTable.Unescaped (c.test r) fun record =>
    Unescaped (record.texts ++ (Plain.fileOf? record.keywords).toList) := by
  refine upholds_bind (upholds_any _) fun el _ => upholds_bind (upholds_any _) fun _ _ => ?_
  refine upholds_bind (upholds_stringOf _) fun name hname => ?_
  refine upholds_bind (upholds_lookup _) fun timeout htimeout => ?_
  refine upholds_bind (upholds_any _) fun _ _ => upholds_bind (upholds_any _) fun _ _ => ?_
  refine upholds_bind (upholds_any _) fun _ _ => ?_
  refine upholds_bind (upholds_stringsOf _) fun tags htags => ?_
  refine upholds_bind (upholds_any _) fun _ _ => upholds_bind (upholds_any _) fun _ _ => ?_
  refine upholds_bind (upholds_any _) fun slot _ => ?_
  refine upholds_bind (upholds_except fun _ read => unescaped_keywordSource h read) fun k hk => ?_
  refine upholds_pure (unescaped_append.2 ⟨unescaped_append.2 ⟨?_, htags⟩, hk⟩)
  exact unescaped_append.2 ⟨unescaped_cons.2 ⟨hname, unescaped_nil⟩, unescaped_nonEmpty? htimeout⟩

theorem upholds_keyword : Upholds StringTable.Unescaped (c.keyword r) fun record =>
    Unescaped (record.texts ++ (Plain.fileOf? record.keywords).toList) := by
  refine upholds_bind (upholds_any _) fun el _ => upholds_bind (upholds_any _) fun _ _ => ?_
  refine upholds_bind (upholds_any _) fun _ _ => upholds_bind (upholds_any _) fun _ _ => ?_
  refine upholds_bind (upholds_stringOf _) fun name hname => ?_
  refine upholds_bind (upholds_lookup _) fun _ _ => ?_
  refine upholds_bind (upholds_lookup _) fun arguments harguments => ?_
  refine upholds_bind (upholds_any _) fun _ _ => upholds_bind (upholds_any _) fun _ _ => ?_
  refine upholds_bind (upholds_any _) fun slot _ => ?_
  refine upholds_bind (upholds_except fun _ read => unescaped_keywordSource h read) fun k hk => ?_
  have texts : Unescaped ([name, arguments.orEmpty] ++ (Plain.fileOf? k).toList) :=
    unescaped_append.2
      ⟨unescaped_cons.2 ⟨hname, unescaped_cons.2 ⟨harguments, unescaped_nil⟩⟩, hk⟩
  dsimp only
  split
  · exact upholds_bind (upholds_any _) fun _ _ => upholds_pure texts
  · exact upholds_bind (upholds_pure (P := fun _ => True) trivial) fun _ _ => upholds_pure texts

end Coding

end RunReport
