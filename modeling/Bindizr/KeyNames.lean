import Bindizr.Prerequisites
import Bindizr.OwnerForms

/-! # TSIG key names

`bindizr-service/src/tsig_key`: a key is stored under the escaped lowercase labels its name
denotes (`normalizeKeyName`), and looked up by the presentation form of the wire name, with the
dots at its end trimmed as text (`wireKeyName`).  A dot that ends the last label is trimmed too,
so that a key is found under its own name exactly when its last label does not end in one; no
key is ever found under the name of another (`keyName_found_iff`). -/

namespace Bindizr

open Rfc1035 (Name)

def normalizeKeyName (value : Text) : Except ServiceError Text :=
  (toLookupName value).mapError fun e => ⟨.invalidInput, lit "TSIG key name " ++ e.message⟩

/-- The name that `find_by_wire_name` looks up. -/
def wireKeyName (name : Text) : Text := toAsciiLowercase (trimEndMatches '.' (trim name))

/-- A name that was accepted for a key, with the labels it denotes. -/
structure KeyName where
  text : Text
  stored : Text
  labels : List Text
  absolute : Bool
  accepted : normalizeKeyName text = .ok stored
  denotes : decodeNameLabels (trim text) = .ok (labels, absolute)

/-- A wire name spells a key's labels, in any case. -/
def KeyName.IsSpelling (k : KeyName) (n : Name) : Prop := n.lower.labels = wireLabels k.labels

/-- The last label of a key's name ends in a dot. -/
def KeyName.endsInDot (k : KeyName) : Bool := k.labels.getLast?.any fun l => l.getLast? == some '.'

/-! ### Keys -/

theorem trimEndMatches_toAsciiLowercase (t : Text) :
    toAsciiLowercase (trimEndMatches '.' t) = trimEndMatches '.' (toAsciiLowercase t) := by
  induction t using List.reverseRecOn with
  | nil => rfl
  | append_singleton t c ih =>
      rw [toAsciiLowercase_append]
      simp only [trimEndMatches, toAsciiLowercase, List.map_singleton] at ih ⊢
      rw [List.rdropWhile_concat, List.rdropWhile_concat]
      have hc : (lowerChar c == '.') = (c == '.') := by
        rw [Bool.eq_iff_iff, beq_iff_eq, beq_iff_eq, lowerChar_eq_iff rfl rfl]
      rw [hc]
      split
      · exact ih
      · simp

namespace KeyName

variable (k : KeyName)

theorem isOwnerLabel : ∀ l ∈ k.labels, IsOwnerLabel l := (decodeNameLabels_valid k.denotes).1

theorem labels_ne_nil : k.labels ≠ [] := decodeNameLabels_ne_nil k.denotes

theorem stored_eq : k.stored = joinLabels k.labels := by
  obtain ⟨labels, absolute, hd, e⟩ := toLookupName_eq_ok (Fallible.mapError_eq_ok.1 k.accepted)
  rw [k.denotes, Except.ok.injEq, Prod.mk.injEq] at hd
  rw [e, hd.1]

variable {k}

theorem wireKeyName_of_isSpelling {n : Name} (h : k.IsSpelling n) :
    ∃ v, presentationName n = .ok v ∧ wireKeyName v = trimEndMatches '.' (joinLabels k.labels ++ ['.']) := by
  obtain ⟨ks, hks, hlower⟩ := exists_wireLabels_of_lower h
  refine ⟨_, presentationName_of_labels hks, ?_⟩
  have htrim : trim (joinLabels ks ++ ['.']) = joinLabels ks ++ ['.'] := by
    refine trim_eq_self fun c hc => ?_
    rw [List.mem_append, List.mem_singleton] at hc
    rcases hc with hc | rfl
    · rcases mem_joinLabels hc with rfl | rfl | ⟨l, hl, hcl⟩
      · rfl
      · rfl
      · rw [← not_isWhitespace_lowerChar]
        have hlabel := k.isOwnerLabel (toAsciiLowercase l) (by rw [← hlower]; exact List.mem_map_of_mem hl)
        exact (OwnerName.not_isWhitespace_of_mem_ownerLabel hlabel (List.mem_map_of_mem hcl)).1
    · rfl
  rw [wireKeyName, htrim, trimEndMatches_toAsciiLowercase, toAsciiLowercase_append, ← joinLabels_map_lowercase, hlower]
  rfl

/-- The dots at the end of a key's wire name are the root's alone, unless the last label ends in one. -/
theorem trimEndMatches_labels : trimEndMatches '.' (joinLabels k.labels ++ ['.']) = joinLabels k.labels ∧
    k.endsInDot = false ∨ joinLabels k.labels = trimEndMatches '.' (joinLabels k.labels ++ ['.']) ++ ['.'] ∧
      k.endsInDot = true := by
  have hlast := List.getLast?_eq_some_getLast k.labels_ne_nil
  have hne : k.labels.getLast k.labels_ne_nil ≠ [] :=
    (classifyOwnerLabel_eq_ok.1 (k.isOwnerLabel _ (List.getLast_mem _)).1).1
  rw [← List.dropLast_append_getLast hne] at hlast
  obtain ⟨p, e⟩ := joinLabels_getLast hlast
  have hdot : k.endsInDot = ((k.labels.getLast k.labels_ne_nil).getLast hne == '.') := by
    simp [endsInDot, hlast]
  rw [hdot]
  generalize (k.labels.getLast k.labels_ne_nil).getLast hne = c at e
  rw [trimEndMatches, List.rdropWhile_concat_pos _ _ _ (by rfl), e]
  by_cases hc : c = '.'
  · subst hc
    refine .inr ⟨?_, rfl⟩
    rw [if_pos (by decide), List.append_cons, List.rdropWhile_concat_pos _ _ _ (by rfl),
      List.rdropWhile_concat_neg _ _ _ (by decide)]
  · refine .inl ⟨?_, by simpa using hc⟩
    split
    · rw [List.append_cons, List.rdropWhile_concat_neg _ _ _ (by simpa using hc)]
    · rw [List.rdropWhile_concat_neg _ _ _ (by simpa using hc)]

end KeyName

/-- **Keys on the wire.**  A key is looked up under its own name by every wire spelling of its labels exactly when
its last label does not end in a dot.  Keys with different labels are stored under different names, and no
key is looked up by a spelling of another. -/
theorem keyName_found_iff (k : KeyName) :
    (∀ n, k.IsSpelling n → ((∃ v, presentationName n = .ok v ∧ wireKeyName v = k.stored) ↔ k.endsInDot = false)) ∧
    ∀ k' : KeyName, k.labels ≠ k'.labels → k.stored ≠ k'.stored ∧
      ∀ n v, k'.IsSpelling n → presentationName n = .ok v → wireKeyName v ≠ k.stored := by
  have hmap : ∀ x : KeyName, x.labels.map toAsciiLowercase = x.labels := fun x =>
    (List.map_congr_left fun l hl => (x.isOwnerLabel l hl).2).trans (List.map_id _)
  have hdecode : ∀ x : KeyName, decodeLabels (joinLabels x.labels) = .ok x.labels := fun x => by
    rw [(decodeLabels_joinLabels x.labels_ne_nil).1, hmap]
  have hinj : ∀ k' : KeyName, joinLabels k.labels = joinLabels k'.labels → k.labels = k'.labels := fun k' e => by
    have h := hdecode k
    rw [e, hdecode] at h
    exact (Except.ok.inj h).symm
  refine ⟨fun n hn => ?_, fun k' hne => ⟨?_, fun n v hn hv e => ?_⟩⟩
  · obtain ⟨v, hv, hlookup⟩ := KeyName.wireKeyName_of_isSpelling hn
    simp only [hv, Except.ok.injEq, exists_eq_left', hlookup, k.stored_eq]
    rcases k.trimEndMatches_labels with ⟨h, hdot⟩ | ⟨h, hdot⟩
    · exact iff_of_true h hdot
    · refine iff_of_false (fun e => ?_) (by simp [hdot])
      rw [e] at h
      exact absurd (congrArg List.length h) (by simp)
  · rw [k.stored_eq, k'.stored_eq]
    exact fun e => hne (hinj k' e)
  · obtain ⟨v', hv', hlookup⟩ := KeyName.wireKeyName_of_isSpelling hn
    rw [hv', Except.ok.injEq] at hv
    rw [← hv, hlookup, k.stored_eq] at e
    rcases k'.trimEndMatches_labels with ⟨h, -⟩ | ⟨h, -⟩
    · exact hne (hinj k' (e.symm.trans h))
    · -- the other key's name would be this one with an empty label after it
      have hd := hdecode k'
      rw [h, e, decodeLabels, decodeLabelsFrom_append (hdecode k)] at hd
      have hnil : decodeLabels [] = .ok [[]] := rfl
      rw [hnil] at hd
      have hmem : [] ∈ k'.labels := by rw [← Except.ok.inj hd]; simp
      exact (classifyOwnerLabel_eq_ok.1 (k'.isOwnerLabel [] hmem).1).1 rfl

/-- The key `k\.` has the label `k.`, and is looked up as `k\`. -/
theorem keyName_dot_unfound : ∃ (k : KeyName) (n : Name) (v : Text), k.text = lit "k\\." ∧ k.IsSpelling n ∧
    presentationName n = .ok v ∧ wireKeyName v ≠ k.stored :=
  ⟨⟨lit "k\\.", lit "k\\.", [lit "k."], false, by decide +kernel, by decide +kernel⟩,
    ⟨[asBytes (lit "K.")], by decide⟩, lit "K\\..", rfl, by unfold KeyName.IsSpelling; decide, by decide +kernel,
    by decide +kernel⟩

theorem keyName_found_iff_update : ∃ (k k' : KeyName) (n : Name), k.text = lit "Update.Key." ∧ k'.text = lit "update\\.key" ∧
    k.IsSpelling n ∧ (∃ v, presentationName n = .ok v ∧ wireKeyName v = k.stored) ∧
    ∀ n' v, k'.IsSpelling n' → presentationName n' = .ok v → wireKeyName v ≠ k.stored := by
  let n : Name := ⟨[asBytes (lit "UPDATE"), asBytes (lit "key")], by decide⟩
  have hn : n.lower.labels = wireLabels [lit "update", lit "key"] := by decide
  let k : KeyName := ⟨lit "Update.Key.", lit "update.key", [lit "update", lit "key"], true, by decide +kernel,
    by decide +kernel⟩
  let k' : KeyName := ⟨lit "update\\.key", lit "update\\.key", [lit "update.key"], false, by decide +kernel,
    by decide +kernel⟩
  obtain ⟨hfound, hother⟩ := keyName_found_iff k
  exact ⟨k, k', n, rfl, rfl, hn, (hfound n hn).2 (by decide +kernel), (hother k' (by decide +kernel)).2⟩

end Bindizr
