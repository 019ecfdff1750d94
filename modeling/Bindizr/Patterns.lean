import Bindizr.Authorization
import Bindizr.OwnerForms

/-! # Policy patterns

`bindizr-service/src/policy_pattern`: a policy names the owners it covers by a pattern, which is
normalised when the policy is written (`normalizePattern`) and decoded again at each match
(`patternMatchesName`).  A pattern is one of four forms over decoded labels (`Pattern`).  What is
stored is the one text of the form a pattern denotes, and matching the text is matching the form
(`pattern_meaning`): no label of a pattern holds a `*`, and an `@` or a dot in a label is escaped,
so that the text of one form never reads as another. -/

namespace Bindizr

def parseRelativeName (name : Text) : Except ServiceError (List Text) := do
  let (labels, rooted) ← (decodeNameLabels name).mapError fun e =>
    (⟨.invalidInput, lit "record name pattern " ++ e.message⟩ : ServiceError)
  if rooted || labels.any (·.contains '*') then
    .error ⟨.invalidInput, lit "invalid record name pattern '" ++ name ++
      lit "': use '*', '@', '*.<name>' or an exact relative name"⟩
  else pure labels

def normalizePattern (value : Option Text) : Except ServiceError Text :=
  match value.map trim with
  | none | some [] => .ok ['*']
  | some raw =>
      if raw = ['*'] ∨ raw = ['@'] then .ok raw
      else do
        let namePart := (stripPrefix ['*', '.'] raw).getD raw
        let canonical := joinLabels (← parseRelativeName namePart)
        pure (match stripPrefix ['*', '.'] raw with
          | some _ => ['*', '.'] ++ canonical
          | none => canonical)

/-! ### Forms -/

/-- The labels of a pattern's name. -/
structure PatternName where
  labels : List Text
  isOwner : IsOwner labels
  ne_nil : labels ≠ []
  noStar : ∀ l ∈ labels, '*' ∉ l

/-- What a pattern covers: any owner, the apex, a name and all under it, or one name. -/
inductive Pattern where
  | any
  | apex
  | under (name : PatternName)
  | exact (name : PatternName)

/-- The owners that a pattern covers. -/
def Pattern.Matches : Pattern → OwnerName → Prop
  | .any, _ => True
  | .apex, o => o.labels = []
  | .under name, o => name.labels <:+ o.labels
  | .exact name, o => o.labels = name.labels

/-- The form that a pattern's text denotes; white space around it is ignored. -/
inductive Denotes : Option Text → Pattern → Prop
  | absent : Denotes none .any
  | empty {p : Text} : trim p = [] → Denotes (some p) .any
  | star {p : Text} : trim p = ['*'] → Denotes (some p) .any
  | apex {p : Text} : trim p = ['@'] → Denotes (some p) .apex
  | under {p n : Text} {name : PatternName} {absolute : Bool} : trim p = '*' :: '.' :: n →
      decodeNameLabels n = .ok (name.labels, absolute) → Denotes (some p) (.under name)
  | exact {p : Text} {name : PatternName} {absolute : Bool} : trim p ∉ [[], ['*'], ['@']] →
      (∀ n, trim p ≠ '*' :: '.' :: n) → decodeNameLabels (trim p) = .ok (name.labels, absolute) →
      Denotes (some p) (.exact name)

def Pattern.text : Pattern → Text
  | .any => ['*']
  | .apex => ['@']
  | .under name => ['*', '.'] ++ joinLabels name.labels
  | .exact name => joinLabels name.labels

/-! ### The text of a name -/

theorem stripPrefix_eq_some {p t s : Text} : stripPrefix p t = some s ↔ t = p ++ s := by
  induction p generalizing t with
  | nil => simp [stripPrefix, eq_comm]
  | cons c p ih =>
      cases t with
      | nil => simp [stripPrefix]
      | cons d t =>
          rw [stripPrefix]
          split
          · rename_i h
            simp [h, ih]
          · rename_i h
            simp [Ne.symm h]

theorem parseRelativeName_eq_ok {t : Text} {ls : List Text} : parseRelativeName t = .ok ls ↔
    decodeNameLabels t = .ok (ls, false) ∧ ∀ l ∈ ls, '*' ∉ l := by
  unfold parseRelativeName
  simp only [Fallible.bind_eq_ok, Fallible.mapError_eq_ok, Prod.exists]
  constructor
  · rintro ⟨labels, rooted, hd, h⟩
    split at h
    · cases h
    · rename_i hstar
      cases h
      simp only [Bool.or_eq_true, not_or, Bool.not_eq_true, List.any_eq_false, List.contains_iff_mem] at hstar
      exact ⟨by rw [hd, hstar.1], hstar.2⟩
  · rintro ⟨hd, hstar⟩
    refine ⟨ls, false, hd, ?_⟩
    rw [if_neg]
    · rfl
    · simpa using hstar

namespace PatternName

variable (name : PatternName)

theorem star_not_mem : '*' ∉ joinLabels name.labels := by
  intro h
  rcases mem_joinLabels h with h | h | ⟨l, hl, h⟩
  · cases h
  · cases h
  · exact name.noStar l hl h

theorem joinLabels_ne_nil : joinLabels name.labels ≠ [] := fun h =>
  name.ne_nil ((OwnerName.joinLabels_eq_nil name.isOwner.1).1 h)

theorem not_isWhitespace {c : Char} (hc : c ∈ joinLabels name.labels) : isWhitespace c = false := by
  rcases mem_joinLabels hc with rfl | rfl | ⟨l, hl, hcl⟩
  · rfl
  · rfl
  · exact (OwnerName.not_isWhitespace_of_mem_ownerLabel (name.isOwner.1 l hl) hcl).1

theorem decodeNameLabels_text : decodeNameLabels (joinLabels name.labels) = .ok (name.labels, false) := by
  rw [(decodeNameLabels_joinLabels name.ne_nil name.isOwner.1).1, if_pos name.isOwner.2]

theorem fromRow_text : OwnerName.fromRow (joinLabels name.labels) = name.labels := by
  rw [OwnerName.fromRow, if_neg name.joinLabels_ne_nil, name.decodeNameLabels_text]

theorem parseRelativeName_text : parseRelativeName (joinLabels name.labels) = .ok name.labels :=
  parseRelativeName_eq_ok.2 ⟨name.decodeNameLabels_text, name.noStar⟩

theorem text_ne_at : joinLabels name.labels ≠ ['@'] := joinLabels_ne_at name.ne_nil name.isOwner.1

theorem stripPrefix_text : stripPrefix ['*', '.'] (joinLabels name.labels) = none := by
  cases h : stripPrefix ['*', '.'] (joinLabels name.labels) with
  | none => rfl
  | some s =>
      rw [stripPrefix_eq_some] at h
      exact absurd (by simp [h]) name.star_not_mem

end PatternName

/-! ### Stored patterns -/

/-- An accepted pattern is stored as the text of the form it denotes. -/
theorem normalizePattern_eq_ok {value : Option Text} {pattern : Text} (h : normalizePattern value = .ok pattern) :
    ∃ m, Denotes value m ∧ pattern = m.text := by
  unfold normalizePattern at h
  cases value with
  | none =>
      cases h
      exact ⟨.any, .absent, rfl⟩
  | some p =>
      rw [Option.map_some] at h
      split at h
      · rename_i e
        cases e
      · rename_i e
        cases h
        exact ⟨.any, .empty (Option.some.inj e), rfl⟩
      · rename_i raw hne e
        rw [Option.some.injEq] at e
        subst e
        split at h
        · rename_i hraw
          cases h
          rcases hraw with hraw | hraw
          · exact ⟨.any, .star hraw, hraw⟩
          · exact ⟨.apex, .apex hraw, hraw⟩
        · rename_i hraw
          obtain ⟨ls, hls, h⟩ := Fallible.bind_eq_ok.1 h
          cases h
          obtain ⟨hd, hstar⟩ := parseRelativeName_eq_ok.1 hls
          let name : PatternName := ⟨ls, decodeNameLabels_valid hd, decodeNameLabels_ne_nil hd, hstar⟩
          cases hs : stripPrefix ['*', '.'] (trim p) with
          | some n =>
              rw [hs] at hd
              exact ⟨.under name, .under (stripPrefix_eq_some.1 hs) hd, rfl⟩
          | none =>
              rw [hs] at hd
              refine ⟨.exact name, .exact ?_ (fun n e => ?_) hd, rfl⟩
              · simp only [List.mem_cons, List.not_mem_nil, or_false, not_or]
                exact ⟨fun e => hne (by rw [e]), not_or.1 hraw⟩
              · rw [(stripPrefix_eq_some (p := ['*', '.'])).2 e] at hs
                cases hs

theorem PatternName.eq_of_decode {name name' : PatternName} {t : Text} {a a' : Bool}
    (h : decodeNameLabels t = .ok (name.labels, a)) (h' : decodeNameLabels t = .ok (name'.labels, a')) : name = name' := by
  rw [h] at h'
  cases name
  cases name'
  simpa using (Prod.ext_iff.1 (Except.ok.inj h')).1

theorem Denotes.unique {value : Option Text} {m m' : Pattern} (h : Denotes value m) (h' : Denotes value m') : m = m' := by
  cases h with
  | absent =>
      cases h'
      rfl
  | empty h => cases h' <;> simp_all
  | star h => cases h' <;> simp_all
  | apex h => cases h' <;> simp_all
  | under h hd =>
      cases h' with
      | empty h' => simp [h] at h'
      | star h' => simp [h] at h'
      | apex h' => simp [h] at h'
      | under h' hd' =>
          rw [h, List.cons.injEq, List.cons.injEq] at h'
          rw [← h'.2.2] at hd'
          rw [PatternName.eq_of_decode hd hd']
      | exact _ h' _ => exact absurd h (h' _)
  | exact hne h hd =>
      cases h' with
      | empty h' => simp [h'] at hne
      | star h' => simp [h'] at hne
      | apex h' => simp [h'] at hne
      | under h' _ => exact absurd h' (h _)
      | exact _ _ hd' => rw [PatternName.eq_of_decode hd hd']

/-- Matching the text of a form is matching the form. -/
theorem patternMatchesName_text (m : Pattern) (o : OwnerName) : patternMatchesName m.text o = true ↔ m.Matches o := by
  cases m with
  | any => simp [patternMatchesName, Pattern.text, Pattern.Matches]
  | apex => simp [patternMatchesName, Pattern.text, Pattern.Matches, OwnerName.isApex]
  | under name =>
      have hstar : ['*', '.'] ++ joinLabels name.labels ≠ ['*'] := by simp
      have hat : ['*', '.'] ++ joinLabels name.labels ≠ ['@'] := by simp
      rw [patternMatchesName, Pattern.text, if_neg hstar, if_neg hat, stripPrefix_eq_some.2 rfl]
      simp only [name.fromRow_text, Pattern.Matches, isLabelSuffix_iff]
  | exact name =>
      have hstar : joinLabels name.labels ≠ ['*'] := fun e => name.star_not_mem (by simp [e])
      rw [patternMatchesName, Pattern.text, if_neg hstar, if_neg name.text_ne_at, name.stripPrefix_text]
      simp [name.fromRow_text, Pattern.Matches]

theorem normalizePattern_text (m : Pattern) : normalizePattern (some m.text) = .ok m.text := by
  cases m with
  | any => rfl
  | apex => rfl
  | under name =>
      have htrim : trim (['*', '.'] ++ joinLabels name.labels) = '*' :: '.' :: joinLabels name.labels := by
        refine trim_eq_self fun c hc => ?_
        simp only [List.cons_append, List.nil_append, List.mem_cons] at hc
        rcases hc with rfl | rfl | hc
        · rfl
        · rfl
        · exact name.not_isWhitespace hc
      have hstrip : stripPrefix ['*', '.'] ('*' :: '.' :: joinLabels name.labels) = some (joinLabels name.labels) :=
        stripPrefix_eq_some.2 rfl
      simp only [normalizePattern, Pattern.text, Option.map_some, htrim, hstrip, Option.getD_some,
        name.parseRelativeName_text, Fallible.ok_bind]
      rw [if_neg (by simp)]
      rfl
  | exact name =>
      have htrim : trim (joinLabels name.labels) = joinLabels name.labels :=
        trim_eq_self fun c hc => name.not_isWhitespace hc
      have hraw : ¬ (joinLabels name.labels = ['*'] ∨ joinLabels name.labels = ['@']) := by
        rintro (e | e)
        · exact name.star_not_mem (by simp [e])
        · exact name.text_ne_at e
      simp only [normalizePattern, Pattern.text, Option.map_some, htrim]
      split
      · rename_i e
        cases e
      · rename_i e
        exact absurd (Option.some.inj e) name.joinLabels_ne_nil
      · rename_i raw hne e
        rw [Option.some.injEq] at e
        subst e
        simp only [if_neg hraw, name.stripPrefix_text, Option.getD_none, name.parseRelativeName_text, Fallible.ok_bind]
        rfl

/-- **Patterns.**  An accepted pattern denotes one form, covers exactly the owners the form covers, is stored as
a text that is stored as it is, and shares that text with every accepted pattern of the same form and labels. -/
theorem pattern_meaning {value : Option Text} {pattern : Text} (h : normalizePattern value = .ok pattern) :
    (∃ m, Denotes value m) ∧
    (∀ m, Denotes value m → ∀ o, patternMatchesName pattern o = true ↔ m.Matches o) ∧
    normalizePattern (some pattern) = .ok pattern ∧
    ∀ value' pattern' m, normalizePattern value' = .ok pattern' → Denotes value m → Denotes value' m →
      pattern = pattern' := by
  obtain ⟨m, hm, rfl⟩ := normalizePattern_eq_ok h
  refine ⟨⟨m, hm⟩, fun m' hm' o => ?_, normalizePattern_text m, fun value' pattern' m' h' hm' hm'' => ?_⟩
  · rw [← hm.unique hm', patternMatchesName_text]
  · obtain ⟨m₁, hm₁, rfl⟩ := normalizePattern_eq_ok h'
    rw [hm.unique hm', hm₁.unique hm'']

theorem pattern_meaning_dev : ∃ (name : PatternName) (o : OwnerName), name.labels = [lit "dev"] ∧
    o.labels = [lit "a", lit "dev"] ∧ normalizePattern (some (lit " *.D\\101v ")) = .ok (lit "*.dev") ∧
    Denotes (some (lit " *.D\\101v ")) (.under name) ∧ patternMatchesName (lit "*.dev") o = true ∧
    normalizePattern (some (lit "*.dev")) = .ok (lit "*.dev") := by
  let name : PatternName := ⟨[lit "dev"], by decide +kernel, by decide, by decide⟩
  let o : OwnerName := ⟨[lit "a", lit "dev"], by decide +kernel⟩
  have hnorm : normalizePattern (some (lit " *.D\\101v ")) = .ok (lit "*.dev") := by decide +kernel
  have hdenotes : Denotes (some (lit " *.D\\101v ")) (.under name) :=
    @Denotes.under _ (lit "D\\101v") name false (by decide +kernel) (by decide +kernel)
  obtain ⟨-, hmatch, hagain, -⟩ := pattern_meaning hnorm
  exact ⟨name, o, rfl, rfl, hnorm, hdenotes, (hmatch _ hdenotes o).2 ⟨[lit "a"], rfl⟩, hagain⟩

end Bindizr
