import Bindizr.Text
import Bindizr.Fallible

/-! # Owner names and zone names

`bindizr-core/src/dns/name`: a zone name (`ZoneName`) is a lowercase text of LDH labels, an
owner name (`OwnerName`) the decoded labels of a record's owner relative to its zone.  Both
carry the checks their parsers make as fields, so no value of the types breaks them.

The parsers work on presentation form, where a character may be written `\X` or, as an
octet, `\DDD`; `decodeLabels` resolves the escapes and `escapeLabel` puts back those a label
needs.  The two are inverse on labels (`decodeLabels_joinLabels`), so that a row's stored
text denotes the owner it was written from (`OwnerName.fromRow_toStored`), and the absolute
form of an owner parses back to it exactly when it fits the 255 octets of a wire name
(`OwnerName.parseAbsoluteInZone_toFqdn`). -/

namespace Bindizr

def maxDnsLabelLen : ℕ := 63

def maxDomainLen : ℕ := 253

/-- Why a name could not be parsed. -/
inductive ParseNameError where
  | empty
  | whitespace
  | tooLong
  | emptyLabel
  | labelTooLong
  | labelCharset (underscoreAllowed : Bool)
  | labelHyphen
  | danglingEscape
  | invalidEscape
  | nonUtf8Label
  | outsideZone
  deriving DecidableEq, Repr

def ParseNameError.message : ParseNameError → Text
  | .empty => lit "must not be empty"
  | .whitespace => lit "must not contain whitespace or control characters"
  | .tooLong => lit "must be 253 bytes or fewer"
  | .emptyLabel => lit "must not contain empty labels"
  | .labelTooLong => lit "labels must be 63 bytes or fewer"
  | .labelCharset true =>
      lit "labels must contain only ASCII letters, digits, hyphens, or underscores"
  | .labelCharset false => lit "labels must contain only ASCII letters, digits, or hyphens"
  | .labelHyphen => lit "labels must not start or end with hyphens"
  | .danglingEscape => lit "ends with an incomplete escape"
  | .invalidEscape => lit "contains an invalid escape"
  | .nonUtf8Label => lit "contains a label that is not valid UTF-8"
  | .outsideZone => lit "is outside the zone"

/-! ### Labels -/

/-- A character an LDH label may hold. -/
def isLdh (allowUnderscore : Bool) (c : Char) : Bool :=
  isAsciiAlphanumeric c || c == '-' || (allowUnderscore && c == '_')

def classifyDomainLabel (label : Text) (allowUnderscore : Bool) : Except ParseNameError Unit :=
  if label = [] then .error .emptyLabel
  else if maxDnsLabelLen < byteLen label then .error .labelTooLong
  else if !label.all (isLdh allowUnderscore) then .error (.labelCharset allowUnderscore)
  else if label.head? = some '-' ∨ label.getLast? = some '-' then .error .labelHyphen
  else .ok ()

def validateDomainLabel (label field : Text) (allowUnderscore : Bool) : Except Text Unit :=
  (classifyDomainLabel label allowUnderscore).mapError fun e => field ++ lit " " ++ e.message

def classifyOwnerLabel (label : Text) : Except ParseNameError Unit :=
  if label = [] then .error .emptyLabel
  else if maxDnsLabelLen < byteLen label then .error .labelTooLong
  else if hasWhitespaceOrControl label then .error .whitespace
  else .ok ()

/-- The octets a list of labels takes on the wire, the root's zero included. -/
def wireLen (labels : List Text) : ℕ := (labels.map fun l => byteLen l + 1).sum + 1

def classifyWireLen (owner zone : List Text) : Except ParseNameError Unit :=
  if maxDomainLen + 2 < wireLen (owner ++ zone) then .error .tooLong else .ok ()

def finishLabel (label : List UInt8) : Except ParseNameError Text :=
  match fromUtf8 label with
  | some t => .ok (toAsciiLowercase t)
  | none => .error .nonUtf8Label

/-- The loop of `decode_labels`, with the octets of the label read so far. -/
def decodeLabelsFrom : Text → List UInt8 → Except ParseNameError (List Text)
  | [], label => do
      let l ← finishLabel label
      pure [l]
  | c :: cs, label =>
      if c = '.' then do
        let l ← finishLabel label
        let ls ← decodeLabelsFrom cs []
        pure (l :: ls)
      else if c = '\\' then
        match cs with
        | [] => .error .danglingEscape
        | d :: cs =>
            if isAsciiDigit d then
              match cs with
              | d₂ :: d₃ :: cs =>
                  if isAsciiDigit d₂ && isAsciiDigit d₃ &&
                      decide (100 * digitValue d + 10 * digitValue d₂ + digitValue d₃ ≤ 255) then
                    decodeLabelsFrom cs (label ++
                      [UInt8.ofNat (100 * digitValue d + 10 * digitValue d₂ + digitValue d₃)])
                  else .error .invalidEscape
              | _ => .error .invalidEscape
            else decodeLabelsFrom cs (label ++ String.utf8EncodeChar d)
      else decodeLabelsFrom cs (label ++ String.utf8EncodeChar c)

def decodeLabels (name : Text) : Except ParseNameError (List Text) := decodeLabelsFrom name []

/-- `decode_name_labels`: the labels, and whether the name ended at the root. -/
def decodeNameLabels (name : Text) : Except ParseNameError (List Text × Bool) := do
  let decoded ← decodeLabels name
  let absolute := decide (1 < decoded.length) && decide (decoded.getLast? = some [])
  let labels := if absolute then decoded.dropLast else decoded
  labels.forM classifyOwnerLabel
  classifyWireLen labels []
  pure (labels, absolute)

def escapedInLabel : Text := ['.', '\\', '@', ';', '(', ')', '"', '$']

def escapeLabel (label : Text) : Text :=
  label.flatMap fun c => if c ∈ escapedInLabel then ['\\', c] else [c]

def joinLabels (labels : List Text) : Text := join ['.'] (labels.map escapeLabel)

def isLabelSuffix (name suffix : List Text) : Bool :=
  decide (suffix.length ≤ name.length) && name.drop (name.length - suffix.length) == suffix

def stripZoneSuffix (name zone : List Text) : Option (List Text) :=
  if isLabelSuffix name zone then some (name.take (name.length - zone.length)) else none

theorem isLabelSuffix_iff {name suffix : List Text} : isLabelSuffix name suffix = true ↔ suffix <:+ name := by
  rw [isLabelSuffix, Bool.and_eq_true, decide_eq_true_eq, beq_iff_eq, List.suffix_iff_eq_drop, eq_comm]
  refine ⟨fun h => h.2, fun h => ⟨?_, h⟩⟩
  have hlen := congrArg List.length h
  rw [List.length_drop] at hlen
  omega

def toLookupName (value : Text) : Except ParseNameError Text :=
  let trimmed := trim value
  if trimEndMatches '.' trimmed = [] then .error .empty
  else if hasWhitespaceOrControl trimmed then .error .whitespace
  else do
    let (labels, _) ← decodeNameLabels trimmed
    pure (joinLabels labels)

theorem toLookupName_eq_ok {value name : Text} (h : toLookupName value = .ok name) :
    ∃ labels absolute, decodeNameLabels (trim value) = .ok (labels, absolute) ∧ name = joinLabels labels := by
  unfold toLookupName at h
  simp only at h
  split at h
  · cases h
  split at h
  · cases h
  obtain ⟨⟨labels, absolute⟩, hd, h⟩ := Fallible.bind_eq_ok.1 h
  cases h
  exact ⟨labels, absolute, hd, rfl⟩

def toFqdnLowercase (value : Text) : Text :=
  toAsciiLowercase (trimEndMatches '.' (trim value)) ++ ['.']

def toFqdn (value : Text) : Text := trimEndMatches '.' value ++ ['.']

/-! ### Decoding inverts rendering -/

theorem decodeLabelsFrom_dot (cs : Text) (label : List UInt8) :
    decodeLabelsFrom ('.' :: cs) label = (do
      let l ← finishLabel label
      let ls ← decodeLabelsFrom cs []
      pure (l :: ls)) := by
  rw [decodeLabelsFrom.eq_def]
  simp

theorem decodeLabelsFrom_escape {d : Char} (h : isAsciiDigit d = false) (cs : Text)
    (label : List UInt8) :
    decodeLabelsFrom ('\\' :: d :: cs) label =
      decodeLabelsFrom cs (label ++ String.utf8EncodeChar d) := by
  rw [decodeLabelsFrom.eq_def]
  simp [h]

theorem decodeLabelsFrom_plain {c : Char} (h1 : c ≠ '.') (h2 : c ≠ '\\') (cs : Text)
    (label : List UInt8) :
    decodeLabelsFrom (c :: cs) label = decodeLabelsFrom cs (label ++ String.utf8EncodeChar c) := by
  rw [decodeLabelsFrom.eq_def]
  simp [h1, h2]

theorem isAsciiDigit_eq_false_of_escaped {c : Char} (h : c ∈ escapedInLabel) :
    isAsciiDigit c = false := by
  simp only [escapedInLabel, List.mem_cons, List.not_mem_nil, or_false] at h
  rcases h with rfl | rfl | rfl | rfl | rfl | rfl | rfl | rfl <;> rfl

@[simp] theorem escapeLabel_nil : escapeLabel [] = [] := rfl

theorem escapeLabel_cons (c : Char) (l : Text) :
    escapeLabel (c :: l) = (if c ∈ escapedInLabel then ['\\', c] else [c]) ++ escapeLabel l := by
  simp [escapeLabel]

theorem mem_escapeLabel {c : Char} {l : Text} (h : c ∈ escapeLabel l) : c = '\\' ∨ c ∈ l := by
  simp only [escapeLabel, List.mem_flatMap] at h
  obtain ⟨d, hd, hc⟩ := h
  split at hc
  · simp only [List.mem_cons, List.not_mem_nil, or_false] at hc
    rcases hc with rfl | rfl
    · exact .inl rfl
    · exact .inr hd
  · simp only [List.mem_cons, List.not_mem_nil, or_false] at hc
    exact .inr (hc ▸ hd)

/-- Reading an escaped label adds exactly its octets to the label being read. -/
theorem decodeLabelsFrom_escapeLabel (label rest : Text) (acc : List UInt8) :
    decodeLabelsFrom (escapeLabel label ++ rest) acc =
      decodeLabelsFrom rest (acc ++ asBytes label) := by
  induction label generalizing acc with
  | nil => simp
  | cons c label ih =>
      rw [escapeLabel_cons]
      by_cases h : c ∈ escapedInLabel
      · have hd := isAsciiDigit_eq_false_of_escaped h
        rw [if_pos h]
        simp only [List.cons_append, List.nil_append]
        rw [decodeLabelsFrom_escape hd, ih]
        simp
      · have h1 : c ≠ '.' := fun e => h (by simp [e, escapedInLabel])
        have h2 : c ≠ '\\' := fun e => h (by simp [e, escapedInLabel])
        rw [if_neg h]
        simp only [List.cons_append, List.nil_append]
        rw [decodeLabelsFrom_plain h1 h2, ih]
        simp

theorem finishLabel_asBytes (l : Text) : finishLabel (asBytes l) = .ok (toAsciiLowercase l) := by
  simp [finishLabel, fromUtf8_asBytes]

@[simp] theorem joinLabels_singleton (l : Text) : joinLabels [l] = escapeLabel l := by
  simp [joinLabels, join]

theorem joinLabels_cons_cons (l m : Text) (ls : List Text) :
    joinLabels (l :: m :: ls) = escapeLabel l ++ '.' :: joinLabels (m :: ls) := by
  simp [joinLabels, join, List.intercalate]

theorem joinLabels_append {ls ms : List Text} (hl : ls ≠ []) (hm : ms ≠ []) :
    joinLabels (ls ++ ms) = joinLabels ls ++ '.' :: joinLabels ms := by
  induction ls with
  | nil => exact absurd rfl hl
  | cons l ls ih =>
      cases ls with
      | nil =>
          obtain ⟨m, ms, rfl⟩ := List.exists_cons_of_ne_nil hm
          simpa using joinLabels_cons_cons l m ms
      | cons l' ls =>
          have := ih (by simp)
          rw [joinLabels_cons_cons, List.cons_append, List.cons_append, joinLabels_cons_cons]
          simpa using this

theorem mem_joinLabels {c : Char} {ls : List Text} (h : c ∈ joinLabels ls) :
    c = '.' ∨ c = '\\' ∨ ∃ l ∈ ls, c ∈ l := by
  induction ls with
  | nil => simp [joinLabels, join] at h
  | cons l ls ih =>
      cases ls with
      | nil =>
          rw [joinLabels_singleton] at h
          rcases mem_escapeLabel h with h | h
          · exact .inr (.inl h)
          · exact .inr (.inr ⟨l, by simp, h⟩)
      | cons m ls =>
          rw [joinLabels_cons_cons, List.mem_append, List.mem_cons] at h
          rcases h with h | h | h
          · rcases mem_escapeLabel h with h | h
            · exact .inr (.inl h)
            · exact .inr (.inr ⟨l, by simp, h⟩)
          · exact .inl h
          · rcases ih h with h | h | ⟨l', hl', h⟩
            · exact .inl h
            · exact .inr (.inl h)
            · exact .inr (.inr ⟨l', by simp [hl'], h⟩)

/-- Decoding inverts rendering, up to case; a final dot adds the root's empty label. -/
theorem decodeLabels_joinLabels {ls : List Text} (hne : ls ≠ []) :
    decodeLabels (joinLabels ls) = .ok (ls.map toAsciiLowercase) ∧
      decodeLabels (joinLabels ls ++ ['.']) = .ok (ls.map toAsciiLowercase ++ [[]]) := by
  have e : finishLabel [] = .ok [] := finishLabel_asBytes []
  unfold decodeLabels
  induction ls with
  | nil => exact absurd rfl hne
  | cons l ls ih =>
      have hl := finishLabel_asBytes l
      cases ls with
      | nil =>
          have h1 := decodeLabelsFrom_escapeLabel l [] []
          rw [List.append_nil, List.nil_append] at h1
          rw [joinLabels_singleton, h1, decodeLabelsFrom_escapeLabel, List.nil_append,
            decodeLabelsFrom_dot]
          simp [decodeLabelsFrom, hl, e, pure, Except.pure]
      | cons m ls =>
          obtain ⟨h1, h2⟩ := ih (by simp)
          rw [joinLabels_cons_cons, List.append_assoc, decodeLabelsFrom_escapeLabel,
            decodeLabelsFrom_escapeLabel, List.nil_append, List.cons_append, decodeLabelsFrom_dot,
            decodeLabelsFrom_dot]
          simp [hl, h1, h2, pure, Except.pure]

/-! ### What decoding accepts -/

/-- What every owner label satisfies: the checks of `classifyOwnerLabel`, and lower case. -/
def IsOwnerLabel (l : Text) : Prop := classifyOwnerLabel l = .ok () ∧ toAsciiLowercase l = l

instance (l : Text) : Decidable (IsOwnerLabel l) := inferInstanceAs (Decidable (_ ∧ _))

theorem finishLabel_lowercase {b : List UInt8} {l : Text} (h : finishLabel b = .ok l) :
    toAsciiLowercase l = l := by
  unfold finishLabel at h
  split at h
  · cases h
    simp
  · cases h

theorem decodeLabelsFrom_lowercase {cs : Text} {label : List UInt8} {ls : List Text}
    (h : decodeLabelsFrom cs label = .ok ls) : ∀ l ∈ ls, toAsciiLowercase l = l := by
  fun_induction decodeLabelsFrom cs label generalizing ls with
  | case1 label =>
      obtain ⟨l, hl, h⟩ := Fallible.bind_eq_ok.1 h
      cases h
      simpa using finishLabel_lowercase hl
  | case2 label cs ih =>
      obtain ⟨l, hl, h⟩ := Fallible.bind_eq_ok.1 h
      obtain ⟨ls', hls, h⟩ := Fallible.bind_eq_ok.1 h
      cases h
      simpa using ⟨finishLabel_lowercase hl, ih hls⟩
  | case3 => cases h
  | case4 _ _ _ _ _ _ _ _ ih => exact ih h
  | case5 => cases h
  | case6 => cases h
  | case7 _ _ _ _ _ ih => exact ih h
  | case8 _ _ _ _ _ ih => exact ih h

theorem classifyOwnerLabel_eq_ok {l : Text} :
    classifyOwnerLabel l = .ok () ↔
      l ≠ [] ∧ byteLen l ≤ maxDnsLabelLen ∧ hasWhitespaceOrControl l = false := by
  unfold classifyOwnerLabel
  split
  · simp_all
  · split
    · simp_all
    · split <;> simp_all

theorem classifyWireLen_eq_ok {owner zone : List Text} :
    classifyWireLen owner zone = .ok () ↔ wireLen (owner ++ zone) ≤ 255 := by
  unfold classifyWireLen maxDomainLen
  split <;> simp <;> omega

theorem decodeNameLabels_valid {name : Text} {labels : List Text} {absolute : Bool}
    (h : decodeNameLabels name = .ok (labels, absolute)) :
    (∀ l ∈ labels, IsOwnerLabel l) ∧ wireLen labels ≤ 255 := by
  unfold decodeNameLabels at h
  obtain ⟨decoded, hd, h⟩ := Fallible.bind_eq_ok.1 h
  obtain ⟨_, hc, h⟩ := Fallible.bind_eq_ok.1 h
  obtain ⟨_, hw, h⟩ := Fallible.bind_eq_ok.1 h
  cases h
  refine ⟨fun l hl => ⟨Fallible.forM_eq_ok.1 hc l hl, ?_⟩, ?_⟩
  · apply decodeLabelsFrom_lowercase hd
    split at hl
    · exact List.mem_of_mem_dropLast hl
    · exact hl
  · rw [classifyWireLen_eq_ok, List.append_nil] at hw
    exact hw

theorem decodeNameLabels_joinLabels {ls : List Text} (hne : ls ≠ []) (h : ∀ l ∈ ls, IsOwnerLabel l) :
    decodeNameLabels (joinLabels ls) =
        (if wireLen ls ≤ 255 then .ok (ls, false) else .error .tooLong) ∧
      decodeNameLabels (joinLabels ls ++ ['.']) =
        (if wireLen ls ≤ 255 then .ok (ls, true) else .error .tooLong) := by
  have hmap : ls.map toAsciiLowercase = ls := by
    conv_rhs => rw [← List.map_id ls]
    exact List.map_congr_left fun l hl => (h l hl).2
  obtain ⟨h1, h2⟩ := decodeLabels_joinLabels hne
  rw [hmap] at h1 h2
  have hlast : ls.getLast? ≠ some [] := by
    intro e
    have := (classifyOwnerLabel_eq_ok.1 (h [] (List.mem_of_getLast? e)).1).1
    exact this rfl
  have hc : ls.forM classifyOwnerLabel = .ok () := Fallible.forM_eq_ok.2 fun l hl => (h l hl).1
  have hlen : 0 < ls.length := List.length_pos_iff.2 hne
  have hw : classifyWireLen ls [] = if wireLen ls ≤ 255 then .ok () else .error .tooLong := by
    unfold classifyWireLen maxDomainLen
    rw [List.append_nil]
    split <;> split <;> first | rfl | omega
  constructor
  · simp only [decodeNameLabels, h1, Fallible.ok_bind, hlast, decide_false, Bool.and_false,
      Bool.false_eq_true, if_false, hc, hw]
    split <;> rfl
  · have hl2 : decide (1 < (ls ++ [([] : Text)]).length) = true := by simpa using hlen
    simp only [decodeNameLabels, h2, Fallible.ok_bind, hl2, List.getLast?_append, List.dropLast_concat,
      List.getLast?_singleton, Option.some_or, decide_true, Bool.and_true, if_true, hc, hw]
    split <;> rfl

/-! ### Zone names -/

/-- What `ZoneName::parse` leaves: at most 253 octets, every label LDH and lower case. -/
def IsZoneText (t : Text) : Prop :=
  byteLen t ≤ maxDomainLen ∧
    ∀ l ∈ split '.' t, classifyDomainLabel l false = .ok () ∧ toAsciiLowercase l = l

instance (t : Text) : Decidable (IsZoneText t) := inferInstanceAs (Decidable (_ ∧ _))

theorem classifyDomainLabel_eq_ok {l : Text} {u : Bool} :
    classifyDomainLabel l u = .ok () ↔
      l ≠ [] ∧ byteLen l ≤ maxDnsLabelLen ∧ (∀ c ∈ l, isLdh u c = true) ∧
        l.head? ≠ some '-' ∧ l.getLast? ≠ some '-' := by
  unfold classifyDomainLabel
  split
  · simp_all
  · split
    · simp_all
    · split
      · simp_all
      · split
        · simp_all
          tauto
        · simp_all

theorem toNat_of_isLdh {u : Bool} {c : Char} (h : isLdh u c = true) : (48 ≤ c.toNat ∧ c.toNat ≤ 57) ∨
    (65 ≤ c.toNat ∧ c.toNat ≤ 90) ∨ (97 ≤ c.toNat ∧ c.toNat ≤ 122) ∨ c.toNat = 45 ∨ c.toNat = 95 := by
  simp only [isLdh, isAsciiAlphanumeric, isAsciiDigit, isAsciiUppercase, isAsciiLowercase,
    Bool.or_eq_true, Bool.and_eq_true, decide_eq_true_eq, beq_iff_eq] at h
  rcases h with (((h | h) | h) | rfl) | ⟨_, rfl⟩
  · exact .inl h
  · exact .inr (.inl h)
  · exact .inr (.inr (.inl h))
  · exact .inr (.inr (.inr (.inl rfl)))
  · exact .inr (.inr (.inr (.inr rfl)))

/-- LDH characters are none of the characters the parsers treat specially. -/
theorem isLdh_cases {u : Bool} {c : Char} (h : isLdh u c = true) :
    isWhitespace c = false ∧ isAsciiControl c = false ∧ c.toNat < 128 ∧ c ∉ escapedInLabel ∧
      33 ≤ c.toNat ∧ c.toNat ≤ 126 := by
  have hn := toNat_of_isLdh h
  refine ⟨?_, ?_, by omega, ?_, by omega, by omega⟩
  · simp only [isWhitespace, Bool.or_eq_false_iff, Bool.and_eq_false_iff, decide_eq_false_iff_not,
      beq_eq_false_iff_ne]
    omega
  · simp only [isAsciiControl, Bool.or_eq_false_iff, decide_eq_false_iff_not, beq_eq_false_iff_ne]
    omega
  · intro hm
    simp only [escapedInLabel, List.mem_cons, List.not_mem_nil, or_false] at hm
    rcases hm with rfl | rfl | rfl | rfl | rfl | rfl | rfl | rfl <;>
      simp only [Char.reduceToNat] at hn <;> omega

theorem isLdh_lowerChar {u : Bool} {c : Char} (h : isLdh u c = true) : isLdh u (lowerChar c) = true := by
  rcases lowerChar_cases c with ⟨_, e⟩ | ⟨_, e⟩
  · rw [e, h]
  · simp [isLdh, isAsciiAlphanumeric, e]

theorem classifyDomainLabel_toAsciiLowercase {l : Text} {u : Bool} (h : classifyDomainLabel l u = .ok ()) :
    classifyDomainLabel (toAsciiLowercase l) u = .ok () := by
  rw [classifyDomainLabel_eq_ok] at h ⊢
  obtain ⟨h1, h2, h3, h4, h5⟩ := h
  refine ⟨by simpa using h1, by simpa using h2, ?_, ?_, ?_⟩
  · intro c hc
    obtain ⟨d, hd, rfl⟩ := List.mem_map.1 hc
    exact isLdh_lowerChar (h3 d hd)
  · rw [toAsciiLowercase, List.head?_map]
    intro e
    obtain ⟨c, hc, e⟩ := Option.map_eq_some_iff.1 e
    rw [lowerChar_eq_iff rfl rfl] at e
    exact h4 (e ▸ hc)
  · rw [toAsciiLowercase, List.getLast?_map]
    intro e
    obtain ⟨c, hc, e⟩ := Option.map_eq_some_iff.1 e
    rw [lowerChar_eq_iff rfl rfl] at e
    exact h5 (e ▸ hc)

theorem split_toAsciiLowercase (t : Text) :
    split '.' (toAsciiLowercase t) = (split '.' t).map toAsciiLowercase := by
  have e : ∀ c, (lowerChar c == '.') = (c == '.') := by
    intro c
    rw [Bool.eq_iff_iff, beq_iff_eq, beq_iff_eq, lowerChar_eq_iff rfl rfl]
  unfold split toAsciiLowercase List.splitOn
  induction t with
  | nil => simp
  | cons c t ih =>
      rw [List.map_cons, List.splitOnP_cons_eq_if_modifyHead, List.splitOnP_cons_eq_if_modifyHead, ih, e]
      split
      · rfl
      · cases List.splitOnP (fun x => x == '.') t <;> simp

theorem isZoneText_toAsciiLowercase {t : Text} (hlen : byteLen t ≤ maxDomainLen)
    (h : (split '.' t).forM (classifyDomainLabel · false) = .ok ()) :
    IsZoneText (toAsciiLowercase t) := by
  refine ⟨by simpa using hlen, ?_⟩
  rw [split_toAsciiLowercase]
  intro l hl
  obtain ⟨m, hm, rfl⟩ := List.mem_map.1 hl
  exact ⟨classifyDomainLabel_toAsciiLowercase (Fallible.forM_eq_ok.1 h m hm), by simp⟩

/-- A zone's name as rows store it: lowercase, no trailing dot, LDH labels. -/
structure ZoneName where
  text : Text
  isZoneText : IsZoneText text

instance : DecidableEq ZoneName := fun a b =>
  decidable_of_iff (a.text = b.text) (by cases a; cases b; simp)

theorem ZoneName.text_injective : Function.Injective ZoneName.text := fun a b h => by
  cases a
  cases b
  simpa using h

def ZoneName.parse (value : Text) : Except ParseNameError ZoneName :=
  if trim value = [] then .error .empty
  else if hasWhitespaceOrControl (trim value) then .error .whitespace
  else if stripOneSuffix '.' (trim value) = [] then .error .empty
  else if hlen : maxDomainLen < byteLen (stripOneSuffix '.' (trim value)) then .error .tooLong
  else
    match h : (split '.' (stripOneSuffix '.' (trim value))).forM (classifyDomainLabel · false) with
    | .error e => .error e
    | .ok () => .ok ⟨toAsciiLowercase (stripOneSuffix '.' (trim value)),
        isZoneText_toAsciiLowercase (Nat.le_of_not_lt hlen) h⟩

def ZoneName.labels (z : ZoneName) : List Text := split '.' z.text

def ZoneName.toFqdn (z : ZoneName) : Text := Bindizr.toFqdn z.text

theorem isOwnerLabel_of_ldh {l : Text} {u : Bool} (h : classifyDomainLabel l u = .ok ())
    (hl : toAsciiLowercase l = l) : IsOwnerLabel l := by
  obtain ⟨h1, h2, h3, -⟩ := classifyDomainLabel_eq_ok.1 h
  refine ⟨classifyOwnerLabel_eq_ok.2 ⟨h1, h2, ?_⟩, hl⟩
  rw [hasWhitespaceOrControl, List.any_eq_false]
  intro c hc
  obtain ⟨hw, hcc, -⟩ := isLdh_cases (h3 c hc)
  simp [hw, hcc]

theorem ZoneName.isOwnerLabel (z : ZoneName) : ∀ l ∈ z.labels, IsOwnerLabel l :=
  fun l hl => isOwnerLabel_of_ldh (z.isZoneText.2 l hl).1 (z.isZoneText.2 l hl).2

theorem ZoneName.labels_ne_nil (z : ZoneName) : z.labels ≠ [] := by
  simp [ZoneName.labels, split, List.splitOn]

theorem escapeLabel_eq_self {l : Text} (h : ∀ c ∈ l, c ∉ escapedInLabel) : escapeLabel l = l := by
  induction l with
  | nil => rfl
  | cons c l ih =>
      rw [escapeLabel_cons, if_neg (h c (by simp)), ih fun d hd => h d (by simp [hd])]
      rfl

theorem joinLabels_split {t : Text} {u : Bool} (h : ∀ l ∈ split '.' t, classifyDomainLabel l u = .ok ()) :
    joinLabels (split '.' t) = t := by
  have hmap : (split '.' t).map escapeLabel = split '.' t := by
    conv_rhs => rw [← List.map_id (split '.' t)]
    refine List.map_congr_left fun l hl => escapeLabel_eq_self fun c hc => ?_
    exact (isLdh_cases ((classifyDomainLabel_eq_ok.1 (h l hl)).2.2.1 c hc)).2.2.2.1
  rw [joinLabels, hmap]
  exact List.intercalate_splitOn '.'

theorem ZoneName.joinLabels_labels (z : ZoneName) : joinLabels z.labels = z.text :=
  joinLabels_split fun l hl => (z.isZoneText.2 l hl).1

theorem trimEndMatches_eq_self_of_labels {t : Text} {u : Bool}
    (h : ∀ l ∈ split '.' t, classifyDomainLabel l u = .ok ()) : trimEndMatches '.' t = t :=
  trimEndMatches_eq_self fun hnil => (classifyDomainLabel_eq_ok.1 (h [] hnil)).1 rfl

theorem isLdh_of_labels {t : Text} {u : Bool} (h : ∀ l ∈ split '.' t, classifyDomainLabel l u = .ok ())
    {c : Char} (hc : c ∈ t) : c = '.' ∨ isLdh u c = true :=
  (mem_split hc).imp id fun ⟨l, hl, hcl⟩ => (classifyDomainLabel_eq_ok.1 (h l hl)).2.2.1 c hcl

theorem ZoneName.toFqdn_eq (z : ZoneName) : z.toFqdn = z.text ++ ['.'] := by
  rw [ZoneName.toFqdn, Bindizr.toFqdn,
    trimEndMatches_eq_self_of_labels fun l hl => (z.isZoneText.2 l hl).1]

theorem ZoneName.text_ne_nil (z : ZoneName) : z.text ≠ [] := by
  intro h
  have := (z.isZoneText.2 [] (by simp [h, split, List.splitOn])).1
  exact (classifyDomainLabel_eq_ok.1 this).1 rfl

theorem ZoneName.getLast?_text (z : ZoneName) : z.text.getLast? ≠ some '.' := fun h =>
  (classifyDomainLabel_eq_ok.1 (z.isZoneText.2 [] (nil_mem_split h)).1).1 rfl

theorem ZoneName.not_mem_text (z : ZoneName) {c : Char} (hdot : c ≠ '.') (hldh : isLdh false c = false) :
    c ∉ z.text := by
  intro hc
  rcases isLdh_of_labels (fun l hl => (z.isZoneText.2 l hl).1) hc with h | h
  · exact hdot h
  · simp [hldh] at h

theorem ZoneName.hasWhitespaceOrControl_text (z : ZoneName) : hasWhitespaceOrControl z.text = false := by
  rw [hasWhitespaceOrControl, List.any_eq_false]
  intro c hc
  rcases isLdh_of_labels (fun l hl => (z.isZoneText.2 l hl).1) hc with rfl | h
  · decide
  · obtain ⟨hw, hcc, -⟩ := isLdh_cases h
    simp [hw, hcc]

theorem ZoneName.trim_text (z : ZoneName) : trim z.text = z.text :=
  trim_eq_self_of_hasWhitespaceOrControl z.hasWhitespaceOrControl_text

theorem ZoneName.toAsciiLowercase_text (z : ZoneName) : toAsciiLowercase z.text = z.text := by
  refine toAsciiLowercase_eq_self fun c hc => ?_
  rcases mem_split (c := '.') hc with rfl | ⟨l, hl, hcl⟩
  · rfl
  · exact List.map_inj_left.1 ((z.isZoneText.2 l hl).2.trans (List.map_id l).symm) c hcl

theorem ZoneName.parse_text (z : ZoneName) : ZoneName.parse z.text = .ok z := by
  have hstrip : stripOneSuffix '.' z.text = z.text := by rw [stripOneSuffix, if_neg z.getLast?_text]
  have hforM : (split '.' z.text).forM (classifyDomainLabel · false) = .ok () :=
    Fallible.forM_eq_ok.2 fun l hl => (z.isZoneText.2 l hl).1
  unfold ZoneName.parse
  simp only [z.trim_text, z.hasWhitespaceOrControl_text, hstrip, if_neg z.text_ne_nil, Bool.false_eq_true,
    if_false]
  rw [dif_neg (Nat.not_lt.2 z.isZoneText.1)]
  split
  · rename_i e he
    rw [z.trim_text, hstrip, hforM] at he
    cases he
  · simp [z.toAsciiLowercase_text]

/-! ### Owner names -/

/-- What the constructors of an owner name leave: owner labels that fit a wire name. -/
def IsOwner (labels : List Text) : Prop := (∀ l ∈ labels, IsOwnerLabel l) ∧ wireLen labels ≤ 255

instance (labels : List Text) : Decidable (IsOwner labels) := inferInstanceAs (Decidable (_ ∧ _))

/-- A record's owner name as its decoded labels, relative to its zone; the apex is the empty
label list. -/
@[ext]
structure OwnerName where
  labels : List Text
  isOwner : IsOwner labels

instance : DecidableEq OwnerName := fun a b =>
  decidable_of_iff (a.labels = b.labels) (by cases a; cases b; simp)

namespace OwnerName

theorem ext_labels {a b : OwnerName} (h : a.labels = b.labels) : a = b := by
  cases a
  cases b
  simp_all

def apex : OwnerName := ⟨[], by simp [IsOwner, wireLen]⟩

def isApex (o : OwnerName) : Bool := o.labels.isEmpty

def parseInZoneLabels (input : Text) (zone : ZoneName) : Except ParseNameError (List Text) :=
  let trimmed := trim input
  if trimEndMatches '.' trimmed = [] then .error .empty
  else if trimmed = ['@'] then .ok []
  else do
    let (labels, absolute) ← decodeNameLabels trimmed
    match stripZoneSuffix labels zone.labels with
    | some owner => .ok owner
    | none =>
        if absolute then .error .outsideZone
        else do
          classifyWireLen labels zone.labels
          pure labels

def parseAbsoluteInZoneLabels (input : Text) (zone : ZoneName) : Except ParseNameError (List Text) :=
  let trimmed := trim input
  if trimmed = ['@'] then .ok []
  else do
    let (labels, _) ← decodeNameLabels trimmed
    match stripZoneSuffix labels zone.labels with
    | some owner => .ok owner
    | none => .error .outsideZone

theorem wireLen_take_le (n : ℕ) (labels : List Text) : wireLen (labels.take n) ≤ wireLen labels := by
  have h : (labels.map fun l => byteLen l + 1).sum =
      ((labels.take n).map fun l => byteLen l + 1).sum +
        ((labels.drop n).map fun l => byteLen l + 1).sum := by
    rw [← List.sum_append, ← List.map_append, List.take_append_drop]
  unfold wireLen
  omega

theorem stripZoneSuffix_isOwner {labels zone owner : List Text} (h : IsOwner labels)
    (hs : stripZoneSuffix labels zone = some owner) : IsOwner owner := by
  unfold stripZoneSuffix at hs
  split at hs
  · cases hs
    exact ⟨fun l hl => h.1 l (List.mem_of_mem_take hl), (wireLen_take_le _ _).trans h.2⟩
  · cases hs

theorem isOwner_nil : IsOwner [] := by simp [IsOwner, wireLen]

theorem parseInZoneLabels_isOwner {input : Text} {zone : ZoneName} {labels : List Text}
    (h : parseInZoneLabels input zone = .ok labels) : IsOwner labels := by
  unfold parseInZoneLabels at h
  simp only at h
  split at h
  · cases h
  split at h
  · cases h
    exact isOwner_nil
  obtain ⟨⟨ls, absolute⟩, hd, h⟩ := Fallible.bind_eq_ok.1 h
  have hv := decodeNameLabels_valid hd
  simp only at h
  split at h
  next owner hs =>
    cases h
    exact stripZoneSuffix_isOwner hv hs
  · split at h
    · cases h
    · obtain ⟨_, _, h⟩ := Fallible.bind_eq_ok.1 h
      cases h
      exact hv

theorem parseAbsoluteInZoneLabels_isOwner {input : Text} {zone : ZoneName} {labels : List Text}
    (h : parseAbsoluteInZoneLabels input zone = .ok labels) : IsOwner labels := by
  unfold parseAbsoluteInZoneLabels at h
  simp only at h
  split at h
  · cases h
    exact isOwner_nil
  obtain ⟨⟨ls, absolute⟩, hd, h⟩ := Fallible.bind_eq_ok.1 h
  have hv := decodeNameLabels_valid hd
  simp only at h
  split at h
  next owner hs =>
    cases h
    exact stripZoneSuffix_isOwner hv hs
  · cases h

def parseInZone (input : Text) (zone : ZoneName) : Except ParseNameError OwnerName :=
  match h : parseInZoneLabels input zone with
  | .ok labels => .ok ⟨labels, parseInZoneLabels_isOwner h⟩
  | .error e => .error e

def parseAbsoluteInZone (input : Text) (zone : ZoneName) : Except ParseNameError OwnerName :=
  match h : parseAbsoluteInZoneLabels input zone with
  | .ok labels => .ok ⟨labels, parseAbsoluteInZoneLabels_isOwner h⟩
  | .error e => .error e

/-- The labels `OwnerName::from_row` reads from a row's column. -/
def fromRow (value : Text) : List Text :=
  if value = [] then []
  else
    match decodeNameLabels value with
    | .ok (labels, _) => labels
    | .error _ => [toAsciiLowercase value]

def toStored (o : OwnerName) : Text := if o.isApex then [] else joinLabels o.labels

def toFqdn (o : OwnerName) (zone : ZoneName) : Text :=
  if o.isApex then zone.toFqdn else joinLabels o.labels ++ ['.'] ++ zone.toFqdn

/-- `Display` of an owner name. -/
def display (o : OwnerName) : Text := if o.isApex then ['@'] else joinLabels o.labels

theorem isApex_iff {o : OwnerName} : o.isApex = true ↔ o.labels = [] := by simp [isApex]

theorem joinLabels_eq_nil {ls : List Text} (h : ∀ l ∈ ls, IsOwnerLabel l) :
    joinLabels ls = [] ↔ ls = [] := by
  constructor
  · intro e
    by_contra hne
    obtain ⟨l, ls, rfl⟩ := List.exists_cons_of_ne_nil hne
    have hl : l ≠ [] := (classifyOwnerLabel_eq_ok.1 (h l (by simp)).1).1
    obtain ⟨c, l, rfl⟩ := List.exists_cons_of_ne_nil hl
    cases ls with
    | nil =>
        rw [joinLabels_singleton, escapeLabel_cons] at e
        split at e <;> simp at e
    | cons m ls =>
        rw [joinLabels_cons_cons] at e
        simp at e
  · rintro rfl
    rfl

theorem fromRow_toStored (o : OwnerName) : fromRow o.toStored = o.labels := by
  unfold fromRow toStored
  by_cases ha : o.labels = []
  · simp [isApex, ha]
  · have hj : joinLabels o.labels ≠ [] := fun e => ha ((joinLabels_eq_nil o.isOwner.1).1 e)
    have hd := (decodeNameLabels_joinLabels ha o.isOwner.1).1
    rw [if_pos o.isOwner.2] at hd
    simp [isApex, ha, hj, hd]

/-- An owner qualified with its zone, as one list of labels. -/
def absoluteLabels (o : OwnerName) (zone : ZoneName) : List Text := o.labels ++ zone.labels

theorem absoluteLabels_isOwnerLabel (o : OwnerName) (zone : ZoneName) :
    ∀ l ∈ o.absoluteLabels zone, IsOwnerLabel l := by
  intro l hl
  rcases List.mem_append.1 hl with h | h
  · exact o.isOwner.1 l h
  · exact zone.isOwnerLabel l h

theorem absoluteLabels_ne_nil (o : OwnerName) (zone : ZoneName) : o.absoluteLabels zone ≠ [] := by
  simp [absoluteLabels, zone.labels_ne_nil]

theorem toFqdn_eq (o : OwnerName) (zone : ZoneName) :
    o.toFqdn zone = joinLabels (o.absoluteLabels zone) ++ ['.'] := by
  unfold toFqdn absoluteLabels
  by_cases ha : o.labels = []
  · simp [isApex, ha, zone.toFqdn_eq, zone.joinLabels_labels]
  · rw [joinLabels_append ha zone.labels_ne_nil]
    simp [isApex, ha, zone.toFqdn_eq, zone.joinLabels_labels]

theorem not_isWhitespace_of_mem_ownerLabel {l : Text} (h : IsOwnerLabel l) {c : Char} (hc : c ∈ l) :
    isWhitespace c = false ∧ isAsciiControl c = false := by
  have hw := (classifyOwnerLabel_eq_ok.1 h.1).2.2
  rw [hasWhitespaceOrControl, List.any_eq_false] at hw
  have := hw c hc
  simp only [Bool.or_eq_true, not_or, Bool.not_eq_true] at this
  exact ⟨this.2, this.1⟩

theorem trim_joinLabels_dot {ls : List Text} (h : ∀ l ∈ ls, IsOwnerLabel l) :
    trim (joinLabels ls ++ ['.']) = joinLabels ls ++ ['.'] := by
  apply trim_eq_self
  intro c hc
  rw [List.mem_append, List.mem_singleton] at hc
  rcases hc with hc | rfl
  · rcases mem_joinLabels hc with rfl | rfl | ⟨l, hl, hc⟩
    · rfl
    · rfl
    · exact (not_isWhitespace_of_mem_ownerLabel (h l hl) hc).1
  · rfl

theorem stripZoneSuffix_append (ls zone : List Text) : stripZoneSuffix (ls ++ zone) zone = some ls := by
  simp [stripZoneSuffix, isLabelSuffix]

theorem parseAbsoluteInZone_eq_ok {input : Text} {zone : ZoneName} {o : OwnerName} :
    parseAbsoluteInZone input zone = .ok o ↔ parseAbsoluteInZoneLabels input zone = .ok o.labels := by
  unfold parseAbsoluteInZone
  split
  next labels h =>
    constructor
    · intro e
      cases e
      exact h
    · intro e
      rw [h, Except.ok.injEq] at e
      exact congrArg _ (ext_labels e)
  next e h =>
    simp [h]

/-- **Absolute form and back.**  The absolute form of an owner parses back to it under its zone
exactly when the qualified name fits the 255 octets of a wire name. -/
theorem parseAbsoluteInZone_toFqdn (o : OwnerName) (zone : ZoneName) :
    parseAbsoluteInZone (o.toFqdn zone) zone = .ok o ↔ wireLen (o.absoluteLabels zone) ≤ 255 := by
  rw [parseAbsoluteInZone_eq_ok, toFqdn_eq]
  unfold parseAbsoluteInZoneLabels
  have hne : joinLabels (o.absoluteLabels zone) ++ ['.'] ≠ ['@'] := by
    intro e
    have := congrArg List.getLast? e
    simp at this
  have hd := (decodeNameLabels_joinLabels (o.absoluteLabels_ne_nil zone)
    (o.absoluteLabels_isOwnerLabel zone)).2
  simp only [trim_joinLabels_dot (o.absoluteLabels_isOwnerLabel zone), hne, if_false, hd]
  by_cases hw : wireLen (o.absoluteLabels zone) ≤ 255
  · simp only [hw, if_true, Fallible.ok_bind]
    rw [absoluteLabels, stripZoneSuffix_append]
    simp
  · simp [hw]

end OwnerName

/-! ### Names within their zone -/

/-- An owner within the zone makes a name of at most 255 octets. -/
def OwnerName.Fits (o : OwnerName) (zone : ZoneName) : Prop := wireLen (o.absoluteLabels zone) ≤ 255

instance (o : OwnerName) (zone : ZoneName) : Decidable (o.Fits zone) := Nat.decLe _ _

theorem wireLen_split (t : Text) : wireLen (split '.' t) = byteLen t + 2 := by
  induction t with
  | nil => rfl
  | cons c t ih =>
      obtain ⟨l, ls, hls⟩ := List.exists_cons_of_ne_nil (List.splitOn_ne_nil '.' t)
      rw [split, hls] at ih
      rw [split, List.splitOn_cons_eq_if_modifyHead, hls]
      by_cases hc : c = '.'
      · subst hc
        simp only [wireLen, byteLen, List.map_cons, List.sum_cons] at ih ⊢
        simp only [BEq.rfl, if_true, List.map_nil, List.map_cons, List.sum_cons, List.sum_nil]
        have : Char.utf8Size '.' = 1 := rfl
        omega
      · simp only [wireLen, byteLen, List.map_cons, List.sum_cons] at ih ⊢
        simp only [beq_iff_eq, hc, if_false, List.modifyHead_cons, List.map_cons, List.sum_cons]
        omega

theorem ZoneName.wireLen_labels (zone : ZoneName) : wireLen zone.labels ≤ 255 := by
  have h := zone.isZoneText.1
  rw [ZoneName.labels, wireLen_split]
  unfold maxDomainLen at h
  omega

theorem OwnerName.apex_fits (zone : ZoneName) : OwnerName.apex.Fits zone := zone.wireLen_labels

theorem stripZoneSuffix_eq_some {labels zone owner : List Text} (h : stripZoneSuffix labels zone = some owner) :
    labels = owner ++ zone := by
  unfold stripZoneSuffix isLabelSuffix at h
  split at h
  · rename_i hs
    cases h
    simp only [Bool.and_eq_true, decide_eq_true_eq, beq_iff_eq] at hs
    have h := List.take_append_drop (labels.length - zone.length) labels
    rw [hs.2] at h
    exact h.symm
  · cases h

theorem OwnerName.fits_of_parseInZone {input : Text} {zone : ZoneName} {o : OwnerName}
    (h : OwnerName.parseInZone input zone = .ok o) : o.Fits zone := by
  unfold OwnerName.parseInZone at h
  split at h
  · rename_i labels hl
    cases h
    unfold OwnerName.parseInZoneLabels at hl
    simp only at hl
    split at hl
    · cases hl
    split at hl
    · cases hl
      exact OwnerName.apex_fits zone
    obtain ⟨⟨ls, absolute⟩, hd, hl⟩ := Fallible.bind_eq_ok.1 hl
    simp only at hl
    split at hl
    · rename_i owner hs
      cases hl
      have := (decodeNameLabels_valid hd).2
      rwa [stripZoneSuffix_eq_some hs] at this
    · split at hl
      · cases hl
      · obtain ⟨_, hw, hl⟩ := Fallible.bind_eq_ok.1 hl
        cases hl
        exact classifyWireLen_eq_ok.1 hw
  · cases h

theorem OwnerName.fits_of_parseAbsoluteInZone {input : Text} {zone : ZoneName} {o : OwnerName}
    (h : OwnerName.parseAbsoluteInZone input zone = .ok o) : o.Fits zone := by
  have hl := OwnerName.parseAbsoluteInZone_eq_ok.1 h
  unfold OwnerName.parseAbsoluteInZoneLabels at hl
  simp only at hl
  split at hl
  · unfold OwnerName.Fits OwnerName.absoluteLabels
    rw [← Except.ok.inj hl]
    exact zone.wireLen_labels
  obtain ⟨⟨ls, absolute⟩, hd, hl⟩ := Fallible.bind_eq_ok.1 hl
  simp only at hl
  split at hl
  · rename_i owner hs
    have hv := (decodeNameLabels_valid hd).2
    rw [stripZoneSuffix_eq_some hs, Except.ok.inj hl] at hv
    exact hv
  · cases hl

end Bindizr
