import Bindizr.KeyNames
import Bindizr.Patterns

/-! # Column widths

`bindizr-db/src/schema.rs`: PostgreSQL and MySQL keep names in columns of fixed width, counted in
characters.  The parsers bound the octets of the decoded labels, the columns the escaped text, in
which a character may take two.  A wire name has at most 254 octets besides the root's zero, so
its escaped text has at most 506 characters: owners and patterns fit the 512 of their columns.
The column of a key's name has 255 (`columns_fit_iff`). -/

namespace Bindizr

open OwnerName

/-- The width of `records.name`, `zone_changes.record_name` and the policies' `record_name_pattern`. -/
def nameColumnWidth : ℕ := 512

def keyNameColumnWidth : ℕ := 255

/-- The characters of some labels that are written with an escape. -/
def escapes (labels : List Text) : ℕ := labels.flatten.countP (· ∈ escapedInLabel)

/-! ### The length of a name's text -/

@[simp] theorem escapes_cons (l : Text) (ls : List Text) :
    escapes (l :: ls) = l.countP (· ∈ escapedInLabel) + escapes ls := by
  simp [escapes]

theorem length_escapeLabel (l : Text) : (escapeLabel l).length = l.length + l.countP (· ∈ escapedInLabel) := by
  induction l with
  | nil => rfl
  | cons c l ih =>
      rw [escapeLabel_cons, List.length_append, List.length_cons, ih]
      by_cases h : c ∈ escapedInLabel
      · rw [if_pos h, List.countP_cons_of_pos (by simpa using h), List.length_cons, List.length_singleton]
        omega
      · rw [if_neg h, List.countP_cons_of_neg (by simpa using h), List.length_singleton]
        omega

theorem length_joinLabels {labels : List Text} (hne : labels ≠ []) :
    (joinLabels labels).length + 1 = labels.flatten.length + escapes labels + labels.length := by
  induction labels with
  | nil => exact absurd rfl hne
  | cons l ls ih =>
      rw [escapes_cons, List.flatten_cons, List.length_append, List.length_cons]
      cases ls with
      | nil => simp [length_escapeLabel, escapes]
      | cons m ls =>
          have := ih (by simp)
          rw [joinLabels_cons_cons, List.length_append, List.length_cons, this, length_escapeLabel]
          omega

theorem length_flatten_le_wireLen (labels : List Text) :
    labels.flatten.length + labels.length + 1 ≤ wireLen labels := by
  rw [wireLen]
  induction labels with
  | nil => simp
  | cons l ls ih =>
      have := length_le_byteLen l
      rw [List.flatten_cons, List.length_append, List.length_cons, List.map_cons, List.sum_cons]
      omega

theorem length_joinLabels_le {labels : List Text} (h : wireLen labels ≤ 255) : (joinLabels labels).length ≤ 506 := by
  cases labels with
  | nil => simp [joinLabels, join]
  | cons l ls =>
      have hlen := length_joinLabels (List.cons_ne_nil l ls)
      have hwire := length_flatten_le_wireLen (l :: ls)
      have hescapes : escapes (l :: ls) ≤ (l :: ls).flatten.length := List.countP_le_length
      have hpos : 0 < (l :: ls).length := by simp
      omega

theorem Pattern.length_text (m : Pattern) : m.text.length ≤ nameColumnWidth := by
  unfold nameColumnWidth
  cases m with
  | any => decide
  | apex => decide
  | under name =>
      have := length_joinLabels_le name.isOwner.2
      simp only [text, List.length_append, List.length_cons, List.length_nil]
      omega
  | exact name =>
      have := length_joinLabels_le name.isOwner.2
      simp only [text]
      omega

theorem OwnerName.length_toStored (o : OwnerName) : o.toStored.length ≤ nameColumnWidth := by
  have := length_joinLabels_le o.isOwner.2
  unfold toStored nameColumnWidth
  split
  · simp
  · omega

/-- **Column widths.**  Every accepted owner and every accepted pattern fits its column.  An accepted key name fits
its column exactly when its characters, those written with an escape counted twice, and the dots between its
labels are at most 255. -/
theorem columns_fit_iff (k : KeyName) :
    (∀ input zone o, parseInZone input zone = .ok o ∨ parseAbsoluteInZone input zone = .ok o →
      o.toStored.length ≤ nameColumnWidth) ∧
    (∀ value pattern, normalizePattern value = .ok pattern → pattern.length ≤ nameColumnWidth) ∧
    (k.stored.length ≤ keyNameColumnWidth ↔
      k.labels.flatten.length + escapes k.labels + (k.labels.length - 1) ≤ 255) := by
  refine ⟨fun _ _ o _ => o.length_toStored, fun value pattern h => ?_, ?_⟩
  · obtain ⟨m, -, rfl⟩ := normalizePattern_eq_ok h
    exact m.length_text
  · have hlen := length_joinLabels k.labels_ne_nil
    have hpos := List.length_pos_iff.2 k.labels_ne_nil
    rw [k.stored_eq, keyNameColumnWidth]
    omega

theorem columns_fit_dev : ∃ (zone : ZoneName) (o : OwnerName) (k : KeyName),
    parseInZone (lit "_dmarc.a\\.b") zone = .ok o ∧ o.toStored.length ≤ 512 ∧
    normalizePattern (some (lit "*.dev")) = .ok (lit "*.dev") ∧ (lit "*.dev").length ≤ 512 ∧
    k.text = lit "Update\\.Key." ∧ k.stored.length ≤ 255 := by
  let zone : ZoneName := ⟨lit "example.com", by decide +kernel⟩
  let o : OwnerName := ⟨[lit "_dmarc", lit "a.b"], by decide +kernel⟩
  let k : KeyName := ⟨lit "Update\\.Key.", lit "update\\.key", [lit "update.key"], true, by decide +kernel,
    by decide +kernel⟩
  have hparse : parseInZone (lit "_dmarc.a\\.b") zone = .ok o := by decide +kernel
  have hnorm : normalizePattern (some (lit "*.dev")) = .ok (lit "*.dev") := by decide +kernel
  obtain ⟨howner, hpattern, hkey⟩ := columns_fit_iff k
  exact ⟨zone, o, k, hparse, howner _ zone o (.inl hparse), hnorm, hpattern _ _ hnorm, rfl,
    hkey.2 (by decide +kernel)⟩

/-- A key name of three labels: 63, 63 and one parentheses. -/
def longKeyName : KeyName :=
  let labels : List Text := [List.replicate 63 '(', List.replicate 63 '(', ['(']]
  ⟨joinLabels labels, joinLabels labels, labels, false, by decide +kernel, by decide +kernel⟩

/-- Its 131 octets on the wire are 256 characters of text. -/
theorem columns_key_too_long : wireLen longKeyName.labels = 131 ∧ longKeyName.stored.length = 256 ∧
    keyNameColumnWidth < longKeyName.stored.length := by
  decide +kernel

end Bindizr
