import Bindizr.Patterns
import Bindizr.Validation

/-! # What a policy covers

`bindizr-service/src/policy_pattern`: beside its pattern a policy names the record types it covers,
as a list that is normalised when the policy is written (`normalizeTypes`) and split again at each
match (`typesMatch`).  A list is all types or some of them (`TypeList`), and what is stored is read
back as what was entered: a policy covers a write exactly when its pattern, as entered, covers the
owner and its list, as entered, the type (`policy_covers_iff`).  A write of every type at a name is
covered by a policy for all types only, also when the list names each of them. -/

namespace Bindizr

/-- One type of a list: a type that is there already is not added again. -/
def pushType (types : List Text) (part : Text) : Except ServiceError (List Text) := do
  let recordType ← (RecordType.fromStr (trim part)).mapError (ServiceError.mk .invalidInput)
  pure (if types.contains recordType.asStr then types else types ++ [recordType.asStr])

def normalizeTypes (value : Option Text) : Except ServiceError Text :=
  match value.map trim with
  | none | some [] => .ok ['*']
  | some raw =>
      if raw = ['*'] then .ok ['*']
      else do
        let types ← (split ',' raw).foldlM pushType []
        pure (join [','] types)

/-! ### Lists of types -/

/-- What a list of types covers: all of them, or those it names. -/
inductive TypeList where
  | all
  | some (types : List RecordType)

/-- The writes that a list covers; no type means every type at the name. -/
def TypeList.Matches : TypeList → Option RecordType → Prop
  | .all, _ => True
  | .some _, none => False
  | .some types, .some t => t ∈ types

/-- What the text of a list denotes; white space around it and around its items is ignored. -/
inductive DenotesTypes : Option Text → TypeList → Prop
  | absent : DenotesTypes none .all
  | empty {v : Text} : trim v = [] → DenotesTypes (some v) .all
  | star {v : Text} : trim v = ['*'] → DenotesTypes (some v) .all
  | types {v : Text} {types : List RecordType} : trim v ∉ [[], ['*']] →
      (split ',' (trim v)).Forall₂ (fun part t => RecordType.fromStr (trim part) = .ok t) types →
      DenotesTypes (some v) (.some types)

def TypeList.text : TypeList → Text
  | .all => ['*']
  | .some types => join [','] (types.map RecordType.asStr)

theorem fromStr_asStr (t : RecordType) : RecordType.fromStr t.asStr = .ok t :=
  Fallible.mapError_eq_ok.1 (parseRecordType_asStr t)

theorem isAsciiUppercase_of_mem_asStr {t : RecordType} {c : Char} (h : c ∈ t.asStr) : isAsciiUppercase c = true := by
  have : t.asStr.all isAsciiUppercase = true := by cases t <;> decide
  exact List.all_eq_true.1 this c h

theorem asStr_ne_nil (t : RecordType) : t.asStr ≠ [] := by cases t <;> decide

theorem trim_asStr (t : RecordType) : trim t.asStr = t.asStr := by cases t <;> decide

/-- What one more item makes of a list of types without repetition. -/
theorem pushType_eq_ok {ts : List RecordType} {part : Text} {types : List Text}
    (h : pushType (ts.map RecordType.asStr) part = .ok types) :
    ∃ t, RecordType.fromStr (trim part) = .ok t ∧
      types = (if t ∈ ts then ts else ts ++ [t]).map RecordType.asStr := by
  obtain ⟨t, ht, h⟩ := Fallible.bind_eq_ok.1 h
  cases h
  refine ⟨t, Fallible.mapError_eq_ok.1 ht, ?_⟩
  have : (ts.map RecordType.asStr).contains t.asStr = true ↔ t ∈ ts := by
    rw [List.contains_iff_mem, List.mem_map_of_injective RecordType.asStr_injective]
  by_cases hmem : t ∈ ts
  · rw [if_pos (this.2 hmem), if_pos hmem]
  · rw [if_neg (fun e => hmem (this.1 e)), if_neg hmem]
    simp

theorem foldlM_pushType {parts : List Text} {ts : List RecordType} {types : List Text} (hnodup : ts.Nodup)
    (h : parts.foldlM pushType (ts.map RecordType.asStr) = .ok types) :
    ∃ us us' : List RecordType, parts.Forall₂ (fun part t => RecordType.fromStr (trim part) = .ok t) us ∧
      types = us'.map RecordType.asStr ∧ us'.Nodup ∧ ts <+: us' ∧ ∀ t, t ∈ us' ↔ t ∈ ts ∨ t ∈ us := by
  induction parts generalizing ts with
  | nil =>
      cases h
      exact ⟨[], ts, .nil, rfl, hnodup, List.prefix_rfl, by simp⟩
  | cons part parts ih =>
      rw [List.foldlM_cons] at h
      obtain ⟨types', hpush, h⟩ := Fallible.bind_eq_ok.1 h
      obtain ⟨t, ht, rfl⟩ := pushType_eq_ok hpush
      have hnodup' : (if t ∈ ts then ts else ts ++ [t]).Nodup := by
        split
        · exact hnodup
        · rename_i hmem
          exact List.nodup_append.2 ⟨hnodup, by simp, fun x hx y hy e => by
            rw [List.mem_singleton] at hy
            exact hmem (hy ▸ e ▸ hx)⟩
      obtain ⟨us, us', hforall, htypes, hus', hpre, hmem⟩ := ih hnodup' h
      refine ⟨t :: us, us', .cons ht hforall, htypes, hus', ?_, fun u => ?_⟩
      · split at hpre
        · exact hpre
        · exact (List.prefix_append ..).trans hpre
      · rw [hmem, List.mem_cons]
        split
        · rename_i htmem
          exact ⟨fun h => h.imp id .inr, fun h => h.elim .inl fun h => h.elim (fun e => .inl (e ▸ htmem)) .inr⟩
        · simp only [List.mem_append, List.mem_singleton]
          tauto

/-! ### Stored lists -/

theorem mem_join_asStr {types : List RecordType} {c : Char} (h : c ∈ join [','] (types.map RecordType.asStr)) :
    c = ',' ∨ isAsciiUppercase c = true := by
  rcases mem_join h with h | ⟨l, hl, hc⟩
  · exact .inl (List.mem_singleton.1 h)
  · obtain ⟨t, _, rfl⟩ := List.mem_map.1 hl
    exact .inr (isAsciiUppercase_of_mem_asStr hc)

theorem join_asStr_ne {types : List RecordType} (hne : types ≠ []) :
    join [','] (types.map RecordType.asStr) ≠ [] ∧ join [','] (types.map RecordType.asStr) ≠ ['*'] := by
  constructor
  · intro e
    obtain ⟨t, ts, rfl⟩ := List.exists_cons_of_ne_nil hne
    cases ts with
    | nil => exact asStr_ne_nil t (by simpa [join] using e)
    | cons u us => simp [join, List.intercalate_cons_cons] at e
  · intro e
    have hmem : '*' ∈ join [','] (types.map RecordType.asStr) := by simp [e]
    rcases mem_join_asStr hmem with h | h
    · cases h
    · exact absurd h (by decide)

theorem split_join_asStr {types : List RecordType} (hne : types ≠ []) :
    split ',' (join [','] (types.map RecordType.asStr)) = types.map RecordType.asStr := by
  refine List.splitOn_intercalate ',' (fun l hl hcomma => ?_) (by simpa using hne)
  obtain ⟨t, _, rfl⟩ := List.mem_map.1 hl
  exact absurd (isAsciiUppercase_of_mem_asStr hcomma) (by decide)

theorem trim_join_asStr (types : List RecordType) :
    trim (join [','] (types.map RecordType.asStr)) = join [','] (types.map RecordType.asStr) := by
  refine trim_eq_self fun c hc => ?_
  rcases mem_join_asStr hc with rfl | hc
  · rfl
  · simp only [isAsciiUppercase, Bool.and_eq_true, decide_eq_true_eq] at hc
    simp only [isWhitespace]
    simp at hc ⊢
    omega

theorem typesMatch_text {m : TypeList} (hne : m ≠ .some []) (t : Option RecordType) :
    typesMatch m.text t = true ↔ m.Matches t := by
  cases m with
  | all => simp [typesMatch, TypeList.text, TypeList.Matches]
  | some types =>
      have hne' : types ≠ [] := fun e => hne (e ▸ rfl)
      unfold typesMatch TypeList.text
      rw [if_neg (join_asStr_ne hne').2]
      cases t with
      | none => simp [TypeList.Matches]
      | some t =>
          simp only [split_join_asStr hne', TypeList.Matches, List.any_map, List.any_eq_true, Function.comp_apply, beq_iff_eq]
          constructor
          · rintro ⟨u, hu, e⟩
            exact RecordType.asStr_injective e ▸ hu
          · exact fun h => ⟨t, h, rfl⟩

theorem foldlM_pushType_asStr (ts us : List RecordType) (h : (ts ++ us).Nodup) :
    (us.map RecordType.asStr).foldlM pushType (ts.map RecordType.asStr) = .ok ((ts ++ us).map RecordType.asStr) := by
  induction us generalizing ts with
  | nil => simp; rfl
  | cons u us ih =>
      have hu : u ∉ ts := fun hmem =>
        List.disjoint_of_nodup_append h hmem (List.mem_cons_self ..)
      have hpush : pushType (ts.map RecordType.asStr) u.asStr = .ok ((ts ++ [u]).map RecordType.asStr) := by
        unfold pushType
        rw [trim_asStr, fromStr_asStr]
        change Except.ok (if _ then _ else _) = _
        rw [if_neg]
        · simp
        · rw [List.contains_iff_mem, List.mem_map_of_injective RecordType.asStr_injective]
          exact hu
      rw [List.map_cons, List.foldlM_cons, hpush, Fallible.ok_bind, ih _ (by simpa using h)]
      simp

theorem normalizeTypes_join_asStr {types : List RecordType} (hnodup : types.Nodup) (hne : types ≠ []) :
    normalizeTypes (some (join [','] (types.map RecordType.asStr))) = .ok (join [','] (types.map RecordType.asStr)) := by
  have hout := join_asStr_ne hne
  simp only [normalizeTypes, Option.map_some, trim_join_asStr]
  split
  · rename_i e
    cases e
  · rename_i e
    exact absurd (Option.some.inj e) hout.1
  · rename_i raw _ e
    rw [Option.some.injEq] at e
    subst e
    have hagain : (types.map RecordType.asStr).foldlM pushType [] = .ok (types.map RecordType.asStr) :=
      foldlM_pushType_asStr [] types hnodup
    rw [if_neg hout.2, split_join_asStr hne, hagain]
    rfl

theorem normalizeTypes_eq_ok {value : Option Text} {types : Text} (h : normalizeTypes value = .ok types) :
    ∃ m m' : TypeList, DenotesTypes value m ∧ types = m'.text ∧ m' ≠ .some [] ∧ (∀ t, m'.Matches t ↔ m.Matches t) ∧
      normalizeTypes (some types) = .ok types := by
  unfold normalizeTypes at h
  cases value with
  | none =>
      cases h
      exact ⟨.all, .all, .absent, rfl, by simp, fun _ => Iff.rfl, rfl⟩
  | some v =>
      rw [Option.map_some] at h
      split at h
      · rename_i e
        cases e
      · rename_i e
        cases h
        exact ⟨.all, .all, .empty (Option.some.inj e), rfl, by simp, fun _ => Iff.rfl, rfl⟩
      · rename_i raw hne e
        rw [Option.some.injEq] at e
        subst e
        split at h
        · rename_i hstar
          cases h
          exact ⟨.all, .all, .star hstar, rfl, by simp, fun _ => Iff.rfl, rfl⟩
        · rename_i hstar
          obtain ⟨names, hnames, h⟩ := Fallible.bind_eq_ok.1 h
          cases h
          obtain ⟨us, us', hforall, rfl, hnodup, -, hmem⟩ := foldlM_pushType List.nodup_nil hnames
          simp only [List.not_mem_nil, false_or] at hmem
          have hus : us ≠ [] := by
            rintro rfl
            rw [List.forall₂_nil_right_iff] at hforall
            exact List.splitOn_ne_nil ',' _ hforall
          obtain ⟨u, hu⟩ := List.exists_mem_of_ne_nil _ hus
          have hus' : us' ≠ [] := List.ne_nil_of_mem ((hmem u).2 hu)
          refine ⟨.some us, .some us', .types (by simpa using ⟨hne, hstar⟩) hforall, rfl, by simpa using hus', fun t => ?_,
            normalizeTypes_join_asStr hnodup hus'⟩
          cases t with
          | none => exact Iff.rfl
          | some t => exact hmem t

theorem DenotesTypes.unique {value : Option Text} {m m' : TypeList} (h : DenotesTypes value m) (h' : DenotesTypes value m') :
    m = m' := by
  cases h with
  | absent =>
      cases h'
      rfl
  | empty h => cases h' <;> simp_all
  | star h => cases h' <;> simp_all
  | types hne hforall =>
      cases h' with
      | empty h' => simp [h'] at hne
      | star h' => simp [h'] at hne
      | types _ hforall' =>
          congr 1
          have : Relator.RightUnique fun (part : Text) t => RecordType.fromStr (trim part) = .ok t := by
            intro part t u ht hu
            rw [ht] at hu
            exact Except.ok.inj hu
          exact this.forall₂ hforall hforall'

/-- **Policies.**  A policy entered with a pattern and a list of types covers a write exactly when the form that the
pattern denotes covers the owner, and what the list denotes covers the type; and normalising what was stored changes
nothing. -/
theorem policy_covers_iff {patternValue typesValue : Option Text} {p : ZonePolicy} {form : Pattern} {list : TypeList}
    (hpattern : normalizePattern patternValue = .ok p.recordNamePattern)
    (htypes : normalizeTypes typesValue = .ok p.recordTypes) (hform : Denotes patternValue form)
    (hlist : DenotesTypes typesValue list) :
    (∀ w, p.covers w = true ↔ form.Matches w.relativeName ∧ list.Matches w.recordType) ∧
      normalizePattern (some p.recordNamePattern) = .ok p.recordNamePattern ∧
      normalizeTypes (some p.recordTypes) = .ok p.recordTypes := by
  obtain ⟨form', hform', e⟩ := normalizePattern_eq_ok hpattern
  obtain ⟨list', stored, hlist', e', hne, hmatches, hagain⟩ := normalizeTypes_eq_ok htypes
  rw [← hform.unique hform'] at e
  rw [← hlist.unique hlist'] at hmatches
  refine ⟨fun w => ?_, e ▸ normalizePattern_text form, hagain⟩
  rw [ZonePolicy.covers, Bool.and_eq_true, e, e', patternMatchesName_text, typesMatch_text hne, hmatches]

theorem policy_covers_iff_dev : ∃ (p : ZonePolicy) (name : PatternName), name.labels = [lit "dev"] ∧
    p.recordTypes = lit "A,TXT" ∧ normalizeTypes (some (lit " a , txt ,A ")) = .ok p.recordTypes ∧
    (∀ w, p.covers w = true ↔ (Pattern.under name).Matches w.relativeName ∧
      (TypeList.some [.a, .txt, .a]).Matches w.recordType) := by
  let name : PatternName := ⟨[lit "dev"], by decide +kernel, by decide, by decide⟩
  have hpattern : normalizePattern (some (lit "*.Dev")) = .ok (lit "*.dev") := by decide +kernel
  have htypes : normalizeTypes (some (lit " a , txt ,A ")) = .ok (lit "A,TXT") := by decide +kernel
  have hform : Denotes (some (lit "*.Dev")) (.under name) :=
    @Denotes.under _ (lit "Dev") name false (by decide +kernel) (by decide +kernel)
  have hlist : DenotesTypes (some (lit " a , txt ,A ")) (.some [.a, .txt, .a]) := by
    refine .types (by decide) ?_
    have e : split ',' (trim (lit " a , txt ,A ")) = [lit "a ", lit " txt ", lit "A"] := by decide +kernel
    rw [e]
    exact .cons (by decide +kernel) (.cons (by decide +kernel) (.cons (by decide +kernel) .nil))
  exact ⟨⟨1, 7, lit "*.dev", lit "A,TXT"⟩, name, rfl, rfl, htypes,
    (policy_covers_iff (p := ⟨1, 7, lit "*.dev", lit "A,TXT"⟩) hpattern htypes hform hlist).1⟩

end Bindizr
