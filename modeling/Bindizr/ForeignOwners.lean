import Bindizr.KeyNames
import Bindizr.MasterFile
import Bindizr.ImportModes

/-! # The owners of imported records

A zone file denotes absolute owners, and `parse_zone_file` passes them on as the reader displays
them, in lower case and without the dot of the root; `parse_in_zone` then reads a text without
that dot as a name relative to the zone.  The labels it decodes are those of the owner
(`decodeLabels_labelsText`), so an owner in the zone is kept.  One outside it is stored under the
zone, unless the text or its length makes it unreadable (`Unreadable`), and that is the exact
condition under which a file keeps its owners (`import_owners`). -/

namespace Bindizr

open Rfc1035 (Name OctetText LabelText LabelsText Displays isPlain isPrintable)

/-! ### Reading what is displayed -/

theorem utf8EncodeChar_lowerChar {c : Char} (h : c.toNat < 128) :
    String.utf8EncodeChar (lowerChar c) = [lowerOctet (UInt8.ofNat c.toNat)] := by
  rw [← map_lowerOctet_utf8EncodeChar, utf8EncodeChar_of_lt h, List.map_singleton]

theorem lowerOctet_lowerOctet (b : UInt8) : lowerOctet (lowerOctet b) = lowerOctet b := by
  unfold lowerOctet
  split
  · rename_i hb
    rw [if_neg]
    rw [UInt8.toNat_add, show (32 : UInt8).toNat = 32 from rfl]
    omega
  · rfl

theorem isAsciiDigit_lowerChar (c : Char) : isAsciiDigit (lowerChar c) = isAsciiDigit c := by
  rcases lowerChar_cases c with ⟨_, h⟩ | ⟨hc, h⟩
  · rw [h]
  · simp only [isAsciiUppercase, isAsciiLowercase, Bool.and_eq_true, decide_eq_true_eq] at hc h
    have h9 : '9'.toNat = 57 := rfl
    have hA : 'A'.toNat = 65 := rfl
    have ha : 'a'.toNat = 97 := rfl
    simp only [isAsciiDigit, h9]
    rw [decide_eq_false (p := (lowerChar c).toNat ≤ 57) (by omega), decide_eq_false (p := c.toNat ≤ 57) (by omega),
      Bool.and_false, Bool.and_false]

theorem lowerChar_of_isAsciiDigit {c : Char} (h : isAsciiDigit c = true) : lowerChar c = c := by
  refine lowerChar_eq_self ?_
  simp only [isAsciiDigit, Bool.and_eq_true, decide_eq_true_eq] at h
  have h9 : '9'.toNat = 57 := rfl
  have hA : 'A'.toNat = 65 := rfl
  simp only [isAsciiUppercase, Bool.and_eq_false_iff, decide_eq_false_iff_not]
  omega

theorem isPlain_eq {c : Char} (h : isPlain c = true) :
    isPrintable c = true ∧ c ≠ ' ' ∧ c ≠ '.' ∧ c ≠ '\\' := by
  simpa [isPlain, and_assoc] using h

theorem decodeLabelsFrom_octetText {b : UInt8} {s : Text} (h : OctetText b s) (t : Text) (acc : List UInt8) :
    ∃ b', lowerOctet b' = lowerOctet b ∧
      decodeLabelsFrom (toAsciiLowercase s ++ t) acc = decodeLabelsFrom t (acc ++ [b']) := by
  cases h with
  | @plain c h =>
      obtain ⟨hprint, -, hdot, hslash⟩ := isPlain_eq h
      refine ⟨lowerOctet (UInt8.ofNat c.toNat), lowerOctet_lowerOctet _, ?_⟩
      show decodeLabelsFrom (lowerChar c :: t) acc = _
      rw [decodeLabelsFrom_plain ((lowerChar_eq_iff rfl rfl).not.2 hdot) ((lowerChar_eq_iff rfl rfl).not.2 hslash),
        utf8EncodeChar_lowerChar (Rfc1035.toNat_lt_of_isPrintable hprint)]
  | @escaped c hprint hdigit =>
      refine ⟨lowerOctet (UInt8.ofNat c.toNat), lowerOctet_lowerOctet _, ?_⟩
      show decodeLabelsFrom ('\\' :: lowerChar c :: t) acc = _
      rw [decodeLabelsFrom_escape ((isAsciiDigit_lowerChar c).trans hdigit),
        utf8EncodeChar_lowerChar (Rfc1035.toNat_lt_of_isPrintable hprint)]
  | @decimal d₁ d₂ d₃ h₁ h₂ h₃ hle =>
      refine ⟨_, rfl, ?_⟩
      show decodeLabelsFrom ('\\' :: lowerChar d₁ :: lowerChar d₂ :: lowerChar d₃ :: t) acc = _
      rw [lowerChar_of_isAsciiDigit h₁, lowerChar_of_isAsciiDigit h₂, lowerChar_of_isAsciiDigit h₃,
        decodeLabelsFrom_octet h₁, if_pos (by simp [h₂, h₃, hle])]

theorem decodeLabelsFrom_labelText {l : List UInt8} {s : Text} (h : LabelText l s) (t : Text) (acc : List UInt8) :
    ∃ l', l'.map lowerOctet = l.map lowerOctet ∧
      decodeLabelsFrom (toAsciiLowercase s ++ t) acc = decodeLabelsFrom t (acc ++ l') := by
  induction h generalizing acc with
  | nil => exact ⟨[], rfl, by simp [toAsciiLowercase]⟩
  | @cons b l s u octet rest ih =>
      obtain ⟨b', hb, e⟩ := decodeLabelsFrom_octetText octet (toAsciiLowercase u ++ t) acc
      obtain ⟨l', hl, e'⟩ := ih (acc ++ [b'])
      refine ⟨b' :: l', by simp [hb, hl], ?_⟩
      rw [toAsciiLowercase_append, List.append_assoc, e, e', List.append_assoc, List.singleton_append]

theorem finishLabel_iff {l l' : List UInt8} (h : l'.map lowerOctet = l.map lowerOctet) {k : Text} :
    finishLabel l' = .ok k ↔ l.map lowerOctet = asBytes k := by
  constructor
  · intro hk
    unfold finishLabel at hk
    split at hk
    · rename_i t ht
      cases hk
      rw [asBytes_toAsciiLowercase, asBytes_of_fromUtf8 ht, h]
    · cases hk
  · intro hk
    obtain ⟨s, rfl, rfl⟩ := exists_asBytes_of_lower (h.trans hk)
    exact finishLabel_asBytes s

theorem decodeLabels_labelsText {ls : List (List UInt8)} {t : Text} (h : LabelsText ls t) {ks : List Text} :
    decodeLabels (toAsciiLowercase t) = .ok ks ↔ ls.map (·.map lowerOctet) = wireLabels ks := by
  unfold decodeLabels
  induction h generalizing ks with
  | @single l t label =>
      obtain ⟨l', hl, e⟩ := decodeLabelsFrom_labelText label [] []
      rw [List.append_nil, List.nil_append] at e
      rw [e, decodeLabelsFrom, Fallible.bind_eq_ok]
      constructor
      · rintro ⟨k, hk, hks⟩
        cases hks
        simp [wireLabels, (finishLabel_iff hl).1 hk]
      · intro hks
        obtain ⟨k, rfl⟩ : ∃ k, ks = [k] := List.length_eq_one_iff.1 (by simpa [wireLabels] using
          (congrArg List.length hks).symm)
        exact ⟨k, (finishLabel_iff hl).2 (by simpa [wireLabels] using hks), rfl⟩
  | @cons l ls s t label rest ih =>
      obtain ⟨l', hl, e⟩ := decodeLabelsFrom_labelText label ('.' :: toAsciiLowercase t) []
      rw [toAsciiLowercase_append, show toAsciiLowercase ('.' :: t) = '.' :: toAsciiLowercase t from rfl, e,
        List.nil_append, decodeLabelsFrom_dot, Fallible.bind_eq_ok]
      constructor
      · rintro ⟨k, hk, h⟩
        obtain ⟨ks', hks, h⟩ := Fallible.bind_eq_ok.1 h
        cases h
        rw [List.map_cons, (finishLabel_iff hl).1 hk, ih.1 hks]
        rfl
      · intro hks
        cases ks with
        | nil => cases hks
        | cons k ks =>
            rw [wireLabels, List.map_cons, List.map_cons, List.cons.injEq] at hks
            exact ⟨k, (finishLabel_iff hl).2 hks.1, Fallible.bind_eq_ok.2 ⟨ks, ih.2 hks.2, rfl⟩⟩

/-! ### White space at the end -/

theorem isWhitespace_of_isPrintable {c : Char} (h : isPrintable c = true) : isWhitespace c = true ↔ c = ' ' := by
  simp only [isPrintable, Bool.and_eq_true, decide_eq_true_eq] at h
  have hspace : c = ' ' ↔ c.toNat = 32 := ⟨fun e => e ▸ rfl, fun e => Char.ext (UInt32.toNat_inj.1 e)⟩
  simp only [hspace, isWhitespace, Bool.or_eq_true, Bool.and_eq_true, decide_eq_true_eq, beq_iff_eq]
  omega

theorem isPrintable_of_isAsciiDigit {c : Char} (h : isAsciiDigit c = true) : isPrintable c = true := by
  simp only [isAsciiDigit, isPrintable, Bool.and_eq_true, decide_eq_true_eq] at h ⊢
  have h0 : '0'.toNat = 48 := rfl
  have h9 : '9'.toNat = 57 := rfl
  omega

theorem isPrintable_of_octetText {b : UInt8} {s : Text} (h : OctetText b s) : ∀ c ∈ s, isPrintable c = true := by
  cases h with
  | plain h => simpa using (isPlain_eq h).1
  | escaped hprint hdigit => simpa using ⟨rfl, hprint⟩
  | decimal h₁ h₂ h₃ _ => simpa using ⟨rfl, isPrintable_of_isAsciiDigit h₁, isPrintable_of_isAsciiDigit h₂,
      isPrintable_of_isAsciiDigit h₃⟩

theorem isPrintable_of_labelText {l : List UInt8} {s : Text} (h : LabelText l s) : ∀ c ∈ s, isPrintable c = true := by
  induction h with
  | nil => simp
  | cons octet rest ih => exact List.forall_mem_append.2 ⟨isPrintable_of_octetText octet, ih⟩

theorem isPrintable_of_labelsText {ls : List (List UInt8)} {t : Text} (h : LabelsText ls t) :
    ∀ c ∈ t, isPrintable c = true := by
  induction h with
  | single label => exact isPrintable_of_labelText label
  | cons label rest ih =>
      exact List.forall_mem_append.2 ⟨isPrintable_of_labelText label, List.forall_mem_cons.2 ⟨rfl, ih⟩⟩

theorem head_labelText {l : List UInt8} {s : Text} (h : LabelText l s) {c : Char} (hc : s.head? = some c) : c ≠ ' ' := by
  cases h with
  | nil => cases hc
  | cons octet rest =>
      cases octet with
      | plain h =>
          cases hc
          exact (isPlain_eq h).2.1
      | escaped => cases hc; decide
      | decimal => cases hc; decide

theorem head_labelsText {ls : List (List UInt8)} {t : Text} (h : LabelsText ls t) {c : Char} (hc : t.head? = some c) :
    c ≠ ' ' := by
  cases h with
  | single label => exact head_labelText label hc
  | @cons l ls s t label rest =>
      cases s with
      | nil => cases hc; decide
      | cons d s => exact head_labelText label hc

/-- A label text that ends in white space escapes it, and without it the escape is left open. -/
theorem labelText_cut {l : List UInt8} {s : Text} (h : LabelText l s) {u : Text} (hs : s = u ++ [' '])
    (acc : List UInt8) : (∃ v, u = v ++ ['\\']) ∧ 32 ∈ l ∧ ∃ e, decodeLabelsFrom (toAsciiLowercase u) acc = .error e := by
  induction h generalizing u acc with
  | nil => simp at hs
  | @cons b l s t octet rest ih =>
      rcases List.eq_nil_or_concat t with rfl | ⟨t, c, rfl⟩
      · rw [List.append_nil] at hs
        cases octet with
        | plain h =>
            obtain ⟨-, hc⟩ := List.append_inj' (show [] ++ [_] = u ++ [' '] from hs) rfl
            cases hc
            exact absurd rfl (isPlain_eq h).2.1
        | @escaped c =>
            obtain ⟨rfl, hc⟩ := List.append_inj' (show ['\\'] ++ [c] = u ++ [' '] from hs) rfl
            cases hc
            exact ⟨⟨[], rfl⟩, List.mem_cons_self, _, rfl⟩
        | @decimal d₁ d₂ d₃ h₁ h₂ h₃ =>
            obtain ⟨-, hc⟩ := List.append_inj' (show ['\\', d₁, d₂] ++ [d₃] = u ++ [' '] from hs) rfl
            cases hc
            cases h₃
      · rw [List.concat_eq_append, ← List.append_assoc] at hs
        obtain ⟨rfl, hc⟩ := List.append_inj' hs rfl
        cases hc
        obtain ⟨b', -, e⟩ := decodeLabelsFrom_octetText octet (toAsciiLowercase t) acc
        obtain ⟨⟨v, rfl⟩, hmem, herr⟩ := ih (List.concat_eq_append) (acc ++ [b'])
        refine ⟨⟨s ++ v, by simp⟩, List.mem_cons_of_mem _ hmem, ?_⟩
        rwa [toAsciiLowercase_append, e]

theorem labelsText_cut {ls : List (List UInt8)} {t : Text} (h : LabelsText ls t) {u : Text} (ht : t = u ++ [' ']) :
    (∃ v, u = v ++ ['\\']) ∧ (∃ l ∈ ls, 32 ∈ l) ∧ ∃ e, decodeLabels (toAsciiLowercase u) = .error e := by
  induction h generalizing u with
  | @single l t label =>
      obtain ⟨hv, hmem, herr⟩ := labelText_cut label ht []
      exact ⟨hv, ⟨l, by simp, hmem⟩, herr⟩
  | @cons l ls s t label rest ih =>
      rcases List.eq_nil_or_concat t with rfl | ⟨t, c, rfl⟩
      · obtain ⟨-, hc⟩ := List.append_inj' ht rfl
        cases hc
      · rw [List.concat_eq_append, ← List.cons_append, ← List.append_assoc] at ht
        obtain ⟨rfl, hc⟩ := List.append_inj' ht rfl
        cases hc
        obtain ⟨⟨v, rfl⟩, ⟨k, hk, hmem⟩, e, herr⟩ := ih List.concat_eq_append
        refine ⟨⟨s ++ '.' :: v, by simp⟩, ⟨k, List.mem_cons_of_mem _ hk, hmem⟩, ?_⟩
        obtain ⟨l', -, hl⟩ := decodeLabelsFrom_labelText label ('.' :: toAsciiLowercase (v ++ ['\\'])) []
        rw [decodeLabels, toAsciiLowercase_append,
          show toAsciiLowercase ('.' :: (v ++ ['\\'])) = '.' :: toAsciiLowercase (v ++ ['\\']) from rfl, hl,
          decodeLabelsFrom_dot]
        rw [decodeLabels] at herr
        cases finishLabel ([] ++ l') with
        | error e' => exact ⟨e', rfl⟩
        | ok k => exact ⟨e, by rw [Fallible.ok_bind, herr]; rfl⟩

/-- A displayed name is not changed by trimming, unless it ends in an escaped space; then it is unreadable. -/
theorem trim_labelsText {ls : List (List UInt8)} {t : Text} (h : LabelsText ls t) :
    trim (toAsciiLowercase t) = toAsciiLowercase t ∨
      (∃ l ∈ ls, 32 ∈ l) ∧ ∃ v e, trim (toAsciiLowercase t) = v ++ ['\\'] ∧
        decodeLabels (trim (toAsciiLowercase t)) = .error e := by
  have hspace : ∀ c ∈ t, isWhitespace (lowerChar c) = false ↔ c ≠ ' ' := fun c hc => by
    rw [not_isWhitespace_lowerChar, ← Bool.not_eq_true, isWhitespace_of_isPrintable (isPrintable_of_labelsText h c hc)]
  have hhead : ∀ c, (toAsciiLowercase t).head? = some c → isWhitespace c = false := by
    intro c hc
    rw [toAsciiLowercase, List.head?_map, Option.map_eq_some_iff] at hc
    obtain ⟨d, hd, rfl⟩ := hc
    exact (hspace d (List.mem_of_head? hd)).2 (head_labelsText h hd)
  by_cases hlast : ∃ u, t = u ++ [' ']
  · right
    obtain ⟨u, rfl⟩ := hlast
    obtain ⟨⟨v, rfl⟩, hmem, e, herr⟩ := labelsText_cut h rfl
    have htrim : trim (toAsciiLowercase (v ++ ['\\'] ++ [' '])) = toAsciiLowercase (v ++ ['\\']) := by
      have hdrop : (toAsciiLowercase (v ++ ['\\'] ++ [' '])).dropWhile isWhitespace =
          toAsciiLowercase (v ++ ['\\'] ++ [' ']) := by
        rw [List.dropWhile_eq_self_iff]
        intro hlen hws
        rw [hhead _ (List.head?_eq_getElem? ▸ List.getElem?_eq_getElem hlen)] at hws
        cases hws
      rw [trim, hdrop, toAsciiLowercase_append, show toAsciiLowercase [' '] = [' '] from rfl,
        List.rdropWhile_concat_pos _ _ _ rfl, toAsciiLowercase_append,
        show toAsciiLowercase ['\\'] = ['\\'] from rfl, List.rdropWhile_concat_neg _ _ _ (by decide)]
    exact ⟨hmem, toAsciiLowercase v, e, by rw [htrim, toAsciiLowercase_append]; rfl, by rw [htrim, herr]⟩
  · left
    refine trim_eq_self_iff.2 ⟨hhead, fun c hc => ?_⟩
    rw [toAsciiLowercase, List.getLast?_map, Option.map_eq_some_iff] at hc
    obtain ⟨d, hd, rfl⟩ := hc
    refine (hspace d (List.mem_of_getLast? hd)).2 ?_
    rintro rfl
    exact hlast ⟨t.dropLast, (List.dropLast_append_getLast? ' ' hd).symm⟩

/-! ### Owners in a zone -/

theorem space_mem_of_mem_asBytes {t : Text} (h : 32 ∈ asBytes t) : ' ' ∈ t := by
  obtain ⟨c, hc, h⟩ := List.mem_flatMap.1 h
  by_cases hlt : c.toNat < 128
  · rw [utf8EncodeChar_of_lt hlt, List.mem_singleton] at h
    have e := congrArg UInt8.toNat h
    rw [UInt8.toNat_ofNat', Nat.mod_eq_of_lt (by omega)] at e
    rwa [show ' ' = c from Char.ext (UInt32.toNat_inj.1 e)]
  · have := le_of_mem_utf8EncodeChar (by omega) _ h
    exact absurd this (by decide)

theorem decodeNameLabels_labelsText {n : Name} {t : Text} (h : LabelsText n.labels t) {ks : List Text} {absolute : Bool} :
    decodeNameLabels (toAsciiLowercase t) = .ok (ks, absolute) ↔
      absolute = false ∧ n.lower.labels = wireLabels ks ∧ ∀ k ∈ ks, hasWhitespaceOrControl k = false := by
  constructor
  · intro hd
    obtain ⟨decoded, hdec, habs, hks, hlabel, -⟩ := decodeNameLabels_eq_ok.1 hd
    have hn : n.lower.labels = wireLabels decoded := (decodeLabels_labelsText h).1 hdec
    have hlast : decoded.getLast? ≠ some [] := fun e => (labels_ne_nil_of_name hn [] (List.mem_of_getLast? e)).1 rfl
    rw [decide_eq_false hlast, Bool.and_false] at habs
    subst habs
    rw [if_neg (by decide)] at hks
    subst hks
    exact ⟨rfl, hn, fun k hk => (classifyOwnerLabel_eq_ok.1 (hlabel k hk)).2.2⟩
  · rintro ⟨rfl, hn, hws⟩
    refine decodeNameLabels_of_labels ((decodeLabels_labelsText h).2 hn) (fun k hk => ?_) (wireLen_of_name hn)
    obtain ⟨hne, hlen⟩ := labels_ne_nil_of_name hn k hk
    exact classifyOwnerLabel_eq_ok.2 ⟨hne, hlen, hws k hk⟩

theorem trimEndMatches_ne_nil {t : Text} {ks : List Text} (h : decodeLabels t = .ok ks) (hks : ∀ k ∈ ks, k ≠ []) :
    trimEndMatches '.' t ≠ [] := by
  have hnil : finishLabel [] = .ok [] := finishLabel_asBytes []
  intro hdots
  cases t with
  | nil =>
      rw [decodeLabels, decodeLabelsFrom, hnil] at h
      cases h
      exact hks [] (by simp) rfl
  | cons c t =>
      have hc : c = '.' := by simpa using List.rdropWhile_eq_nil_iff.1 hdots c (by simp)
      rw [decodeLabels, hc, decodeLabelsFrom_dot, hnil, Fallible.ok_bind] at h
      obtain ⟨ks', -, h⟩ := Fallible.bind_eq_ok.1 h
      cases h
      exact hks [] (by simp) rfl

theorem toAsciiLowercase_eq_at {t : Text} : toAsciiLowercase t = ['@'] ↔ t = ['@'] := by
  constructor
  · intro h
    obtain ⟨c, rfl⟩ : ∃ c, t = [c] := List.length_eq_one_iff.1 (by simpa [toAsciiLowercase] using congrArg List.length h)
    rw [toAsciiLowercase, List.map_singleton, List.singleton_inj, lowerChar_eq_iff rfl rfl] at h
    rw [h]
  · rintro rfl
    rfl

theorem parseInZoneLabels_labelsText {n : Name} {t : Text} (h : LabelsText n.labels t) {zone : ZoneName}
    {owner : List Text} : OwnerName.parseInZoneLabels (toAsciiLowercase t) zone = .ok owner ↔
      ∃ ks, n.lower.labels = wireLabels ks ∧ (∀ k ∈ ks, hasWhitespaceOrControl k = false) ∧
        (t = ['@'] ∧ owner = [] ∨ t ≠ ['@'] ∧ (stripZoneSuffix ks zone.labels = some owner ∨
          stripZoneSuffix ks zone.labels = none ∧ wireLen (ks ++ zone.labels) ≤ 255 ∧ owner = ks)) := by
  rcases trim_labelsText h with htrim | ⟨⟨l, hl, hspace⟩, v, e, htrim, herr⟩
  · by_cases hat : t = ['@']
    · subst hat
      have hn : n.lower.labels = wireLabels [['@']] := (decodeLabels_labelsText h).1 rfl
      constructor
      · intro howner
        exact ⟨[['@']], hn, by decide, .inl ⟨rfl, (Except.ok.inj howner).symm⟩⟩
      · rintro ⟨ks, -, -, ⟨-, rfl⟩ | ⟨hne, -⟩⟩
        · rfl
        · exact absurd rfl hne
    · rw [OwnerName.parseInZoneLabels_eq_ok htrim (toAsciiLowercase_eq_at.not.2 hat)]
      constructor
      · rintro ⟨-, ks, absolute, hd, howner⟩
        obtain ⟨-, hn, hws⟩ := (decodeNameLabels_labelsText h).1 hd
        exact ⟨ks, hn, hws, .inr ⟨hat, howner.imp_right fun ⟨hs, _, hrest⟩ => ⟨hs, hrest⟩⟩⟩
      · rintro ⟨ks, hn, hws, ⟨he, -⟩ | ⟨-, howner⟩⟩
        · exact absurd he hat
        · refine ⟨trimEndMatches_ne_nil ((decodeLabels_labelsText h).2 hn) fun k hk => (labels_ne_nil_of_name hn k hk).1,
            ks, false, (decodeNameLabels_labelsText h).2 ⟨rfl, hn, hws⟩, ?_⟩
          exact howner.imp_right fun ⟨hs, hrest⟩ => ⟨hs, rfl, hrest⟩
  · -- an escaped space at the end
    refine iff_of_false (fun howner => ?_) ?_
    · unfold OwnerName.parseInZoneLabels at howner
      simp only at howner
      have hat : trim (toAsciiLowercase t) ≠ ['@'] := fun e => by
        have := congrArg List.getLast? (htrim.symm.trans e)
        simp at this
      rw [if_neg hat] at howner
      split at howner
      · cases howner
      · obtain ⟨⟨ks, absolute⟩, hd, -⟩ := Fallible.bind_eq_ok.1 howner
        obtain ⟨decoded, hdec, -⟩ := decodeNameLabels_eq_ok.1 hd
        rw [herr] at hdec
        cases hdec
    · rintro ⟨ks, hn, hws, -⟩
      obtain ⟨k, hk, hkl⟩ : ∃ k ∈ ks, asBytes k = l.map lowerOctet := List.mem_map.1 (by
        rw [← wireLabels, ← hn]
        exact List.mem_map_of_mem hl)
      have hmem : ' ' ∈ k := space_mem_of_mem_asBytes (hkl ▸ List.mem_map_of_mem hspace)
      have := List.any_eq_false.1 (hws k hk) ' ' hmem
      exact this rfl

/-- The name lies in the zone. -/
def InZone (n : Name) (zone : ZoneName) : Prop := wireLabels zone.labels <:+ n.lower.labels

/-- No owner is read from the name's text: it is the root, a label is no text or holds white space or
control characters, or the name is too long with the zone appended. -/
def Unreadable (n : Name) (text : Text) (zone : ZoneName) : Prop :=
  ∀ ls, n.lower.labels = wireLabels ls → ls = [] ∨ (∃ l ∈ ls, hasWhitespaceOrControl l = true) ∨
    text ≠ ['@'] ∧ 255 < wireLen (ls ++ zone.labels)

theorem stripZoneSuffix_ne_none {ks zone : List Text} (h : zone <:+ ks) : stripZoneSuffix ks zone ≠ none := by
  unfold stripZoneSuffix
  rw [if_pos (isLabelSuffix_iff.2 h)]
  simp

theorem wireLabels_suffix {ks ls : List Text} : wireLabels ls <:+ wireLabels ks ↔ ls <:+ ks := by
  constructor
  · rintro ⟨before, h⟩
    obtain ⟨bs, ms, rfl, -, hms⟩ := List.map_eq_append_iff.1 h.symm
    exact ⟨bs, by rw [wireLabels_injective hms]⟩
  · rintro ⟨before, rfl⟩
    exact ⟨wireLabels before, (List.map_append ..).symm⟩

theorem ZoneName.not_at_suffix (zone : ZoneName) : ¬ zone.labels <:+ [['@']] := by
  intro h
  rcases List.suffix_cons_iff.1 h with h | h
  · have htext := zone.joinLabels_labels
    rw [h] at htext
    exact zone.not_mem_text (by decide) rfl (htext ▸ (by decide : '@' ∈ joinLabels [['@']]))
  · exact zone.labels_ne_nil (List.suffix_nil.1 h)

theorem labelsText_ne_nil {ls : List (List UInt8)} {t : Text} (h : LabelsText ls t) : ls ≠ [] := by
  cases h <;> simp

theorem parseInZone_displays {n : Name} {t : Text} (h : Displays n t) (zone : ZoneName) :
    (∀ o, OwnerName.parseInZone (toAsciiLowercase t) zone = .ok o →
        wireLabels (o.absoluteLabels zone) = n.lower.labels) ↔ InZone n zone ∨ Unreadable n t zone := by
  rcases h with h | ⟨hroot, ht⟩
  · simp only [OwnerName.parseInZone_eq_ok, parseInZoneLabels_labelsText h]
    constructor
    · intro hkeep
      refine or_iff_not_imp_right.2 fun hread => ?_
      simp only [Unreadable, not_forall, not_or, not_exists, not_and, not_lt, Bool.not_eq_true] at hread
      obtain ⟨ks, hn, -, hws, hlen⟩ := hread
      obtain ⟨o, ho⟩ : ∃ o : OwnerName, OwnerName.parseInZoneLabels (toAsciiLowercase t) zone = .ok o.labels := by
        obtain ⟨owner, howner⟩ : ∃ owner, OwnerName.parseInZoneLabels (toAsciiLowercase t) zone = .ok owner := by
          simp only [parseInZoneLabels_labelsText h]
          by_cases hat : t = ['@']
          · exact ⟨[], ks, hn, hws, .inl ⟨hat, rfl⟩⟩
          · cases hs : stripZoneSuffix ks zone.labels with
            | some owner => exact ⟨owner, ks, hn, hws, .inr ⟨hat, .inl hs⟩⟩
            | none => exact ⟨ks, ks, hn, hws, .inr ⟨hat, .inr ⟨hs, hlen hat, rfl⟩⟩⟩
        exact ⟨⟨owner, OwnerName.parseInZoneLabels_isOwner howner⟩, howner⟩
      have e := hkeep o ((parseInZoneLabels_labelsText h).1 ho)
      exact ⟨wireLabels o.labels, by rw [← e, OwnerName.absoluteLabels]; exact (List.map_append ..).symm⟩
    · rintro hcond o ⟨ks, hn, hws, hcase⟩
      have hstrip : ∀ {owner}, stripZoneSuffix ks zone.labels = some owner →
          wireLabels (owner ++ zone.labels) = n.lower.labels := fun hs => by rw [hn, stripZoneSuffix_eq_some hs]
      rcases hcond with hin | hunread
      · rw [InZone, hn, wireLabels_suffix] at hin
        rcases hcase with ⟨rfl, -⟩ | ⟨-, hs | ⟨hs, -⟩⟩
        · have hat : ks = [['@']] := wireLabels_injective (hn.symm.trans ((decodeLabels_labelsText h).1 rfl))
          rw [hat] at hin
          exact absurd hin zone.not_at_suffix
        · exact hstrip hs
        · exact absurd hs (stripZoneSuffix_ne_none hin)
      · rcases hunread ks hn with rfl | ⟨k, hk, hsp⟩ | ⟨hne, hlong⟩
        · exact absurd (by simpa [wireLabels] using hn) (labelsText_ne_nil h)
        · simp [hws k hk] at hsp
        · rcases hcase with ⟨hat, -⟩ | ⟨-, hs | ⟨-, hle, -⟩⟩
          · exact absurd hat hne
          · exact hstrip hs
          · omega
  · refine iff_of_true (fun o ho => ?_) (.inr fun ls hls => .inl ?_)
    · rw [OwnerName.parseInZone_eq_ok] at ho
      rcases ht with rfl | rfl <;> cases ho
    · have : n.lower.labels = [] := by simp [hroot]
      simpa [wireLabels] using hls.symm.trans this

/-! ### The import -/

section Import

variable [crates : Crates]

/-- A record the reader finds in the file of an import. -/
def InFile (content : Text) (zone : Zone) (r : ZonefileRecord) : Prop :=
  .record r ∈ crates.readZonefile (zonefileBuffer content zone)

/-- A record of the file gives an error instead of a row. -/
def Reported (zone : Zone) (r : ZonefileRecord) : Prop :=
  (∃ message, parseEntry (.record r) = .error message) ∨ ∃ p, parseEntry (.record r) = .record p ∧ p.data zone = none

/-- An import of the file keeps owners: the row of a record has the record's owner, up to case, and a
record outside the zone is reported. -/
structure OwnersKept (ownerOf : ZonefileRecord → Name) (content : Text) (zone : Zone) : Prop where
  kept : ∀ r p f, InFile content zone r → parseEntry (.record r) = .record p → p.data zone = some f →
    wireLabels (f.name.absoluteLabels zone.name) = (ownerOf r).lower.labels
  reported : ∀ r, InFile content zone r → ¬ InZone (ownerOf r) zone.name → Reported zone r

/-- What a record of the file must meet for its owner to be kept: an SOA record, which is ignored, lies in
the zone, and so does any record with a value, unless no owner is read from its text. -/
structure OwnerReadable (ownerOf : ZonefileRecord → Name) (zone : Zone) (r : ZonefileRecord) : Prop where
  soa : parseEntry (.record r) = .ignored → InZone (ownerOf r) zone.name
  record : ∀ p value, parseEntry (.record r) = .record p → p.value.toEncodedValue p.recordType p.priority = .ok value →
    InZone (ownerOf r) zone.name ∨ Unreadable (ownerOf r) r.owner zone.name

omit crates in
theorem ownerFqdn_of_parseEntry {r : ZonefileRecord} {p : ParsedRecord} (h : parseEntry (.record r) = .record p) :
    p.ownerFqdn = toAsciiLowercase r.owner := by
  unfold parseEntry at h
  simp only at h
  repeat' split at h
  all_goals cases h
  rfl

theorem data_eq_some {zone : Zone} {p : ParsedRecord} {f : RecordData} : p.data zone = some f ↔
    ∃ value owner, p.value.toEncodedValue p.recordType p.priority = .ok value ∧
      OwnerName.parseInZone p.ownerFqdn zone.name = .ok owner ∧ f = ⟨owner, p.recordType, value, p.ttl, p.priority⟩ := by
  unfold ParsedRecord.data
  constructor
  · intro h
    split at h
    · rename_i value owner hvalue howner
      cases h
      exact ⟨value, owner, hvalue, Fallible.mapError_eq_ok.1 howner, rfl⟩
    · cases h
  · rintro ⟨value, owner, hvalue, howner, rfl⟩
    rw [hvalue, show normalizeRecordOwnerName p.ownerFqdn zone.name = .ok owner from Fallible.mapError_eq_ok.2 howner]

theorem ownersKept_iff {ownerOf : ZonefileRecord → Name} {content : Text} {zone : Zone}
    (hdisplay : ∀ r, InFile content zone r → Displays (ownerOf r) r.owner) :
    OwnersKept ownerOf content zone ↔ ∀ r, InFile content zone r → OwnerReadable ownerOf zone r := by
  constructor
  · rintro ⟨hkept, hreported⟩ r hr
    refine ⟨fun hignored => ?_, fun p value hp hvalue => ?_⟩
    · by_contra hout
      rcases hreported r hr hout with ⟨_, h⟩ | ⟨_, h, -⟩ <;> simp [hignored] at h
    · refine (parseInZone_displays (hdisplay r hr) zone.name).1 fun o ho => ?_
      rw [← ownerFqdn_of_parseEntry hp] at ho
      exact hkept r p _ hr hp (data_eq_some.2 ⟨value, o, hvalue, ho, rfl⟩)
  · intro hread
    have hkept : ∀ r p f, InFile content zone r → parseEntry (.record r) = .record p → p.data zone = some f →
        wireLabels (f.name.absoluteLabels zone.name) = (ownerOf r).lower.labels := by
      intro r p f hr hp hf
      obtain ⟨value, owner, hvalue, howner, rfl⟩ := data_eq_some.1 hf
      rw [ownerFqdn_of_parseEntry hp] at howner
      exact (parseInZone_displays (hdisplay r hr) zone.name).2 ((hread r hr).record p value hp hvalue) owner howner
    refine ⟨hkept, fun r hr hout => ?_⟩
    cases hp : parseEntry (.record r) with
    | ignored => exact absurd ((hread r hr).soa hp) hout
    | error message => exact .inl ⟨message, hp⟩
    | record p =>
        refine .inr ⟨p, hp, ?_⟩
        rw [Option.eq_none_iff_forall_ne_some]
        intro f hf
        refine hout ⟨wireLabels f.name.labels, ?_⟩
        rw [← hkept r p f hr hp hf, OwnerName.absoluteLabels]
        exact (List.map_append ..).symm

theorem mem_parseZoneFile {content : Text} {zone : Zone} {p : ParsedRecord} :
    p ∈ (parseZoneFile content zone).1 ↔ ∃ r, InFile content zone r ∧ parseEntry (.record r) = .record p := by
  simp only [parseZoneFile, List.mem_filterMap, List.mem_map, InFile]
  constructor
  · rintro ⟨parsed, ⟨entry, hentry, rfl⟩, h⟩
    cases entry with
    | record r =>
        refine ⟨r, hentry, ?_⟩
        split at h
        · rename_i e
          rw [e, Option.some.inj h]
        · cases h
    | includeDirective => cases h
    | failure message => cases h
  · rintro ⟨r, hr, hp⟩
    exact ⟨_, ⟨_, hr, hp⟩, rfl⟩

theorem inError_of_reported {content : Text} {zone : Zone} {r : ZonefileRecord} (hr : InFile content zone r)
    (h : Reported zone r) : InError content zone := by
  rcases h with ⟨message, he⟩ | ⟨p, hp, hnone⟩
  · have hmem : message ∈ (parseZoneFile content zone).2 :=
      List.mem_filterMap.2 ⟨.error message, List.mem_map.2 ⟨_, hr, he⟩, rfl⟩
    exact .inl (List.ne_nil_of_mem hmem)
  · exact .inr (.inl ⟨p, mem_parseZoneFile.2 ⟨r, hr, hp⟩, hnone⟩)

/-- The rows an import adds are records of its file. -/
theorem mem_of_importTx {request : ImportZoneFileRequest} {tx tx' : Tx} {response : ImportZoneFileResponse} (hok : TxOk tx)
    (h : importTx request tx = .ok (tx', response)) {row : Record} (hrow : row ∈ tx'.store.records) :
    row ∈ tx.store.records ∨ row.toRecordData ∈ fileRecords request.content tx.store.zone := by
  cases happ : response.applied with
  | false =>
      rw [(importTx_outcome hok h).notApplied happ] at hrow
      exact .inl hrow
  | true =>
      obtain ⟨-, -, n, hnorm, hn, -, hrecords, -⟩ := ImportCase.applied hok h happ
      rw [hrecords] at hrow
      refine (of_mem_importRows hok hrow).imp And.left fun ⟨d, hd, e⟩ => ?_
      rw [e]
      exact (desires_of_normalizeParsed hnorm hn).fromFile d (mem_adds.1 hd).1

/-- **Imported owners.**  A file keeps its owners exactly when every record it holds lies in the zone or
is refused before its owner is read; the rows such an import stores then have the absolute owners the
file denotes, up to case, and a record outside the zone is an error with which nothing is written. -/
theorem import_owners (ownerOf : ZonefileRecord → Name)
    (hdisplay : ∀ text r, .record r ∈ crates.readZonefile text → Displays (ownerOf r) r.owner) {tx : Tx} (hok : TxOk tx)
    (request : ImportZoneFileRequest) :
    (OwnersKept ownerOf request.content tx.store.zone ↔
        ∀ r, InFile request.content tx.store.zone r → OwnerReadable ownerOf tx.store.zone r) ∧
      (OwnersKept ownerOf request.content tx.store.zone → ∀ tx' response, importTx request tx = .ok (tx', response) →
        (∀ row ∈ tx'.store.records, row ∈ tx.store.records ∨ ∃ r p, InFile request.content tx.store.zone r ∧
          parseEntry (.record r) = .record p ∧ p.data tx.store.zone = some row.toRecordData ∧
          wireLabels (row.name.absoluteLabels tx.store.zone.name) = (ownerOf r).lower.labels) ∧
        ∀ r, InFile request.content tx.store.zone r → ¬ InZone (ownerOf r) tx.store.zone.name →
          response.errors ≠ [] ∧ tx' = tx) := by
  refine ⟨ownersKept_iff fun r hr => hdisplay _ r hr, fun hkept tx' response h => ⟨fun row hrow => ?_, fun r hr hout => ?_⟩⟩
  · refine (mem_of_importTx hok h hrow).imp_right fun hfile => ?_
    obtain ⟨p, hp, hdata⟩ := List.mem_filterMap.1 hfile
    obtain ⟨r, hr, hparse⟩ := mem_parseZoneFile.1 hp
    exact ⟨r, p, hr, hparse, hdata, hkept.kept r p _ hr hparse hdata⟩
  · have houtcome := importTx_outcome hok h
    have herr := houtcome.inError (inError_of_reported hr (hkept.reported r hr hout))
    exact ⟨herr, houtcome.notApplied (houtcome.refused herr)⟩

end Import

/-! ### Two files -/

/-- The octets of an ASCII text. -/
def labelOctets (t : Text) : List UInt8 := t.map fun c => UInt8.ofNat c.toNat

theorem labelText_plain {t : Text} (h : t.all isPlain = true) : LabelText (labelOctets t) t := by
  induction t with
  | nil => exact .nil
  | cons c t ih =>
      rw [List.all_cons, Bool.and_eq_true] at h
      exact .cons (.plain h.1) (ih h.2)

def otherOrg : Name := ⟨[labelOctets (lit "other"), labelOctets (lit "org")], by decide⟩

def exampleCom : Name := ⟨[labelOctets (lit "example"), labelOctets (lit "com")], by decide⟩

theorem displays_otherOrg : Displays otherOrg (lit "other.org") :=
  .inl (.cons (@labelText_plain (lit "other") rfl) (.single (@labelText_plain (lit "org") rfl)))

theorem labelsText_exampleCom : LabelsText exampleCom.labels (lit "example.com") :=
  .cons (@labelText_plain (lit "example") rfl) (.single (@labelText_plain (lit "com") rfl))

/-- A file with one address, of an owner written with a final dot outside the zone. -/
def appendRequest : ImportZoneFileRequest := ⟨lit "other.org. IN A 192.0.2.2", .append, false⟩

/-- The address of `other.org` is stored at `other.org.example.com`, and no error is reported. -/
theorem foreign_owner_stored : Displays otherOrg (lit "other.org") ∧
    ∃ st ∈ (@run masterFileCrates sampleHistory).stores, ¬ InZone otherOrg st.zone.name ∧ ∃ tx' response,
      @importTx masterFileCrates appendRequest ((@run masterFileCrates sampleHistory).beginTx st) = .ok (tx', response) ∧
      response.errors = [] ∧ ∃ row ∈ tx'.store.records, row ∉ st.records ∧
        row.name.absoluteLabels st.zone.name = [lit "other", lit "org", lit "example", lit "com"] := by
  refine ⟨displays_otherOrg, ?_⟩
  obtain ⟨st, hst, hout, hres⟩ : ∃ st ∈ (@run masterFileCrates sampleHistory).stores,
      ¬ wireLabels st.zone.name.labels <:+ otherOrg.lower.labels ∧
      (@importTx masterFileCrates appendRequest ((@run masterFileCrates sampleHistory).beginTx st)).map
        (fun p => (p.2.errors, p.1.store.records.any fun row => decide (row ∉ st.records ∧
          row.name.absoluteLabels st.zone.name = [lit "other", lit "org", lit "example", lit "com"]))) = .ok ([], true) := by
    decide +kernel
  obtain ⟨⟨tx', response⟩, h, e⟩ := Fallible.map_eq_ok.1 hres
  rw [Prod.mk.injEq, List.any_eq_true] at e
  obtain ⟨herr, row, hrow, hcond⟩ := e
  exact ⟨st, hst, hout, tx', response, h, herr, row, hrow, (of_decide_eq_true hcond)⟩

/-- The owner that a record of the reader presents. -/
def presentedOwner (r : ZonefileRecord) : Name :=
  ((Rfc1035.presentationLabels r.owner).bind Rfc1035.nameOf).getD .root

theorem presentedOwner_eq {t : Text} {r : ZonefileRecord} (hr : .record r ∈ masterFileCrates.readZonefile t) :
    ∃ a ∈ (Rfc1035.readMasterFile t).getD [], presentedOwner r = a.owner ∧ r.owner = Rfc1035.namePresentation a.owner := by
  obtain ⟨a, ha, e⟩ := List.mem_map.1 hr
  cases e
  refine ⟨a, ha, ?_, rfl⟩
  rw [presentedOwner, Rfc1035.namePresentation]
  split
  · rename_i hroot
    exact Rfc1035.Name.ext hroot.symm
  · rename_i hne
    have hlabels := (Rfc1035.labelsText_presentation hne).presentationLabels
      (fun l hl e => by simpa [e] using (a.owner.isName.1 l hl).1) (.inl rfl)
    rw [List.append_nil] at hlabels
    rw [hlabels, Option.bind_some, Rfc1035.nameOf, dif_pos a.owner.isName]
    rfl

theorem import_owners_replaceRequest : ∃ st ∈ (@run masterFileCrates sampleHistory).stores,
    @OwnersKept masterFileCrates presentedOwner replaceRequest.content st.zone ∧ ∃ tx' response,
      @importTx masterFileCrates replaceRequest ((@run masterFileCrates sampleHistory).beginTx st) = .ok (tx', response) ∧
      response.applied = true ∧ ∃ row ∈ tx'.store.records, row ∉ st.records ∧
        ∃ r, @InFile masterFileCrates replaceRequest.content st.zone r ∧
          wireLabels (row.name.absoluteLabels st.zone.name) = (presentedOwner r).lower.labels := by
  obtain ⟨st, hst, hzone, hres⟩ : ∃ st ∈ (@run masterFileCrates sampleHistory).stores,
      (∀ a ∈ (Rfc1035.readMasterFile (zonefileBuffer replaceRequest.content st.zone)).getD [],
        wireLabels st.zone.name.labels <:+ a.owner.lower.labels) ∧
      (@importTx masterFileCrates replaceRequest ((@run masterFileCrates sampleHistory).beginTx st)).map
        (fun p => (p.2.applied, p.1.store.records.any fun row => decide (row ∉ st.records))) = .ok (true, true) := by
    decide +kernel
  obtain ⟨⟨tx', response⟩, h, e⟩ := Fallible.map_eq_ok.1 hres
  rw [Prod.mk.injEq, List.any_eq_true] at e
  obtain ⟨happ, row, hrow, hnew⟩ := e
  have hok := @run_ok masterFileCrates sampleHistory
  have hdisplay : ∀ text r, .record r ∈ masterFileCrates.readZonefile text → Displays (presentedOwner r) r.owner := by
    intro text r hr
    obtain ⟨a, -, howner, htext⟩ := presentedOwner_eq hr
    rw [howner, htext]
    exact Rfc1035.displays_presentation a.owner
  have hin : ∀ r, @InFile masterFileCrates replaceRequest.content st.zone r → InZone (presentedOwner r) st.zone.name := by
    intro r hr
    obtain ⟨a, ha, howner, -⟩ := presentedOwner_eq hr
    rw [howner]
    exact hzone a ha
  obtain ⟨hiff, himport⟩ := @import_owners masterFileCrates presentedOwner hdisplay _
    ⟨hok.store st hst, hok.ids st hst⟩ replaceRequest
  have hkept := hiff.2 fun r hr => @OwnerReadable.mk masterFileCrates _ _ _ (fun _ => hin r hr) fun _ _ _ _ => .inl (hin r hr)
  obtain ⟨hrows, -⟩ := himport hkept tx' response h
  rcases hrows row hrow with hold | ⟨r, -, hr, -, -, howner⟩
  · exact absurd hold (of_decide_eq_true hnew)
  · exact ⟨st, hst, hkept, tx', response, h, happ, row, hrow, of_decide_eq_true hnew, r, hr, howner⟩

end Bindizr
