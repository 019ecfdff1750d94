import Bindizr.Name

/-! # The forms of an owner name

An owner is stored as its escaped labels, sent and shown with its zone appended, and read from
either form.  Every owner that was parsed in a zone comes back from both, no two owners share
one, and a relative text and the same text with the zone written after it denote one owner or
none (`owner_forms`).  The last needs the decoder on a text with a dot and more after it: the
text is read as it is read alone, but for a backslash at its end, which takes the dot into a
label longer than the zone's first.

Names that are looked up have a form of their own, the escaped labels without the root
(`toLookupName`): it is one text for each list of labels, and its own lookup form
(`lookup_form`). -/

namespace Bindizr

/-! ### Reading a text and what follows it -/

theorem decodeLabelsFrom_octet {d : Char} (hd : isAsciiDigit d = true) (d₂ d₃ : Char) (cs : Text) (acc : List UInt8) :
    decodeLabelsFrom ('\\' :: d :: d₂ :: d₃ :: cs) acc =
      if isAsciiDigit d₂ && isAsciiDigit d₃ &&
          decide (100 * digitValue d + 10 * digitValue d₂ + digitValue d₃ ≤ 255) then
        decodeLabelsFrom cs (acc ++ [UInt8.ofNat (100 * digitValue d + 10 * digitValue d₂ + digitValue d₃)])
      else .error .invalidEscape := by
  rw [decodeLabelsFrom.eq_def]
  simp only [Char.reduceEq, if_false, if_true, hd]

theorem decodeLabelsFrom_append {r : Text} {acc : List UInt8} {ls : List Text} (h : decodeLabelsFrom r acc = .ok ls)
    (s : Text) : decodeLabelsFrom (r ++ '.' :: s) acc = (decodeLabels s).map (ls ++ ·) := by
  fun_induction decodeLabelsFrom r acc generalizing ls with
  | case1 acc =>
      obtain ⟨l, hl, h⟩ := Fallible.bind_eq_ok.1 h
      cases h
      rw [List.nil_append, decodeLabelsFrom_dot, hl, Fallible.ok_bind, decodeLabels]
      cases decodeLabelsFrom s [] <;> rfl
  | case2 cs acc ih =>
      obtain ⟨l, hl, h⟩ := Fallible.bind_eq_ok.1 h
      obtain ⟨ls', hls, h⟩ := Fallible.bind_eq_ok.1 h
      cases h
      rw [List.cons_append, decodeLabelsFrom_dot, hl, Fallible.ok_bind, ih hls]
      cases decodeLabels s <;> rfl
  | case3 => cases h
  | case4 acc d hd d₂ d₃ cs hv _ ih => rw [← ih h, List.cons_append, List.cons_append, List.cons_append,
      List.cons_append, decodeLabelsFrom_octet hd, if_pos hv]
  | case5 => cases h
  | case6 => cases h
  | case7 acc d cs hd _ ih =>
      rw [← ih h, List.cons_append, List.cons_append, decodeLabelsFrom_escape (by simpa using hd)]
  | case8 c cs acc hdot hesc ih => rw [← ih h, List.cons_append, decodeLabelsFrom_plain hdot hesc]

/-- A text that does not decode decodes before a dot only by taking the dot into a label. -/
theorem decodeLabelsFrom_append_error {r : Text} {acc : List UInt8} {e : ParseNameError}
    (h : decodeLabelsFrom r acc = .error e) {s : Text} {ms : List Text}
    (hs : decodeLabelsFrom (r ++ '.' :: s) acc = .ok ms) :
    ∃ ls acc' ms', ms = ls ++ ms' ∧ decodeLabelsFrom s (acc' ++ String.utf8EncodeChar '.') = .ok ms' := by
  fun_induction decodeLabelsFrom r acc generalizing ms e with
  | case1 acc =>
      rw [List.nil_append, decodeLabelsFrom_dot] at hs
      obtain ⟨l, hl, -⟩ := Fallible.bind_eq_ok.1 hs
      rw [hl] at h
      cases h
  | case2 cs acc ih =>
      rw [List.cons_append, decodeLabelsFrom_dot] at hs
      obtain ⟨l, hl, hs⟩ := Fallible.bind_eq_ok.1 hs
      obtain ⟨ms', hms, hs⟩ := Fallible.bind_eq_ok.1 hs
      cases hs
      rw [hl, Fallible.ok_bind] at h
      cases hr : decodeLabelsFrom cs [] with
      | ok ls =>
          rw [hr] at h
          cases h
      | error e' =>
          obtain ⟨ls, acc', ms'', rfl, htail⟩ := ih hr hms
          exact ⟨l :: ls, acc', ms'', rfl, htail⟩
  | case3 acc _ =>
      rw [List.cons_append, List.nil_append, decodeLabelsFrom_escape rfl] at hs
      exact ⟨[], acc, ms, rfl, hs⟩
  | case4 acc d hd d₂ d₃ cs hv _ ih =>
      rw [List.cons_append, List.cons_append, List.cons_append, List.cons_append, decodeLabelsFrom_octet hd,
        if_pos hv] at hs
      exact ih h hs
  | case5 acc d hd d₂ d₃ cs hv _ =>
      rw [List.cons_append, List.cons_append, List.cons_append, List.cons_append, decodeLabelsFrom_octet hd,
        if_neg hv] at hs
      cases hs
  | case6 acc d cs hd hshort _ =>
      -- the dot stands where a digit must
      have hdot : isAsciiDigit '.' = false := rfl
      rcases cs with _ | ⟨d₂, _ | ⟨d₃, cs⟩⟩
      · cases s with
        | nil =>
            rw [List.cons_append, List.cons_append, List.nil_append, decodeLabelsFrom.eq_def] at hs
            simp [hd] at hs
        | cons =>
            rw [List.cons_append, List.cons_append, List.nil_append, decodeLabelsFrom_octet hd, if_neg (by simp [hdot])] at hs
            cases hs
      · rw [List.cons_append, List.cons_append, List.cons_append, List.nil_append, decodeLabelsFrom_octet hd,
          if_neg (by simp [hdot])] at hs
        cases hs
      · exact (hshort d₂ d₃ cs rfl).elim
  | case7 acc d cs hd _ ih =>
      rw [List.cons_append, List.cons_append, decodeLabelsFrom_escape (by simpa using hd)] at hs
      exact ih h hs
  | case8 c cs acc hdot hesc ih =>
      rw [List.cons_append, decodeLabelsFrom_plain hdot hesc] at hs
      exact ih h hs

/-- The labels of a text with others written after it: those of the text, if it decodes; otherwise the first
of the others has grown. -/
theorem decodeLabels_qualified (r : Text) {l : Text} {ls : List Text} (hlower : ∀ m ∈ l :: ls, toAsciiLowercase m = m) :
    (∀ ks, decodeLabels r = .ok ks →
        decodeLabels (r ++ '.' :: (joinLabels (l :: ls) ++ ['.'])) = .ok (ks ++ (l :: ls) ++ [[]])) ∧
      (∀ e ms, decodeLabels r = .error e → decodeLabels (r ++ '.' :: (joinLabels (l :: ls) ++ ['.'])) = .ok ms →
        ∃ ks l', ms = ks ++ (l' :: ls) ++ [[]] ∧ byteLen l < byteLen l') := by
  have hmap : ∀ {ks : List Text}, (∀ m ∈ ks, toAsciiLowercase m = m) → ks.map toAsciiLowercase = ks := fun h =>
    (List.map_congr_left h).trans (List.map_id _)
  constructor
  · intro ks hks
    rw [decodeLabels, decodeLabelsFrom_append hks, (decodeLabels_joinLabels (by simp)).2, hmap hlower]
    simp [Except.map]
  · intro e ms he hms
    obtain ⟨ks, acc, ms', rfl, htail⟩ := decodeLabelsFrom_append_error he hms
    have hrest : ∃ l', finishLabel (acc ++ String.utf8EncodeChar '.' ++ asBytes l) = .ok l' ∧ ms' = (l' :: ls) ++ [[]] := by
      cases ls with
      | nil =>
          rw [joinLabels_singleton, decodeLabelsFrom_escapeLabel, decodeLabelsFrom_dot] at htail
          obtain ⟨l', hl', htail⟩ := Fallible.bind_eq_ok.1 htail
          cases htail
          exact ⟨l', hl', rfl⟩
      | cons m ls =>
          rw [joinLabels_cons_cons, List.append_assoc, List.cons_append, decodeLabelsFrom_escapeLabel,
            decodeLabelsFrom_dot] at htail
          obtain ⟨l', hl', htail⟩ := Fallible.bind_eq_ok.1 htail
          have hd := (@decodeLabels_joinLabels (m :: ls) (by simp)).2
          rw [hmap fun k hk => hlower k (List.mem_cons_of_mem _ hk)] at hd
          rw [decodeLabels] at hd
          rw [hd] at htail
          cases htail
          exact ⟨l', hl', rfl⟩
    obtain ⟨l', hl', rfl⟩ := hrest
    refine ⟨ks, l', by simp, ?_⟩
    unfold finishLabel at hl'
    split at hl'
    next t ht =>
      cases hl'
      have hlen := congrArg List.length (asBytes_of_fromUtf8 ht)
      rw [length_asBytes, List.length_append, List.length_append, length_asBytes] at hlen
      have hdot : (String.utf8EncodeChar '.').length = 1 := rfl
      rw [byteLen_toAsciiLowercase]
      omega
    next => cases hl'

theorem head?_decodeLabels_of_dots {t : Text} {ls : List Text} (ht : trimEndMatches '.' t = [])
    (h : decodeLabels t = .ok ls) : ls.head? = some [] := by
  have hnil : finishLabel [] = .ok [] := finishLabel_asBytes []
  rw [trimEndMatches, List.rdropWhile_eq_nil_iff] at ht
  cases t with
  | nil =>
      obtain ⟨l, hl, h⟩ := Fallible.bind_eq_ok.1 h
      cases h
      rw [hnil] at hl
      cases hl
      rfl
  | cons c t =>
      have hc : c = '.' := by simpa using ht c (by simp)
      rw [hc, decodeLabels, decodeLabelsFrom_dot, hnil, Fallible.ok_bind] at h
      obtain ⟨ls', -, h⟩ := Fallible.bind_eq_ok.1 h
      cases h
      rfl

theorem decodeNameLabels_eq_ok {name : Text} {labels : List Text} {absolute : Bool} :
    decodeNameLabels name = .ok (labels, absolute) ↔ ∃ decoded, decodeLabels name = .ok decoded ∧
      absolute = (decide (1 < decoded.length) && decide (decoded.getLast? = some [])) ∧
      labels = (if absolute then decoded.dropLast else decoded) ∧
      (∀ l ∈ labels, classifyOwnerLabel l = .ok ()) ∧ wireLen labels ≤ 255 := by
  unfold decodeNameLabels
  constructor
  · intro h
    obtain ⟨decoded, hd, h⟩ := Fallible.bind_eq_ok.1 h
    obtain ⟨_, hc, h⟩ := Fallible.bind_eq_ok.1 h
    obtain ⟨_, hw, h⟩ := Fallible.bind_eq_ok.1 h
    cases h
    rw [classifyWireLen_eq_ok, List.append_nil] at hw
    exact ⟨decoded, hd, rfl, rfl, Fallible.forM_eq_ok.1 hc, hw⟩
  · rintro ⟨decoded, hd, rfl, rfl, hc, hw⟩
    rw [hd, Fallible.ok_bind]
    simp only
    rw [Fallible.forM_eq_ok.2 hc, Fallible.ok_bind, classifyWireLen_eq_ok.2 (by simpa using hw), Fallible.ok_bind]
    rfl

theorem decodeLabelsFrom_ne_nil {t : Text} {acc : List UInt8} : decodeLabelsFrom t acc ≠ .ok [] := by
  fun_induction decodeLabelsFrom t acc with
  | case1 acc =>
      intro h
      obtain ⟨l, -, h⟩ := Fallible.bind_eq_ok.1 h
      cases h
  | case2 cs acc ih =>
      intro h
      obtain ⟨l, -, h⟩ := Fallible.bind_eq_ok.1 h
      obtain ⟨ls, -, h⟩ := Fallible.bind_eq_ok.1 h
      cases h
  | case3 => simp
  | case4 _ _ _ _ _ _ _ _ ih => exact ih
  | case5 => simp
  | case6 => simp
  | case7 _ _ _ _ _ ih => exact ih
  | case8 _ _ _ _ _ ih => exact ih

theorem decodeNameLabels_ne_nil {t : Text} {ls : List Text} {absolute : Bool}
    (h : decodeNameLabels t = .ok (ls, absolute)) : ls ≠ [] := by
  obtain ⟨decoded, hd, habs, rfl, -⟩ := decodeNameLabels_eq_ok.1 h
  split
  · rename_i hroot
    rw [hroot, eq_comm, Bool.and_eq_true, decide_eq_true_eq] at habs
    intro e
    have hlen := congrArg List.length e
    rw [List.length_dropLast, List.length_nil] at hlen
    omega
  · rintro rfl
    exact decodeLabelsFrom_ne_nil hd

theorem joinLabels_ne_at {ls : List Text} (hne : ls ≠ []) (h : ∀ l ∈ ls, IsOwnerLabel l) : joinLabels ls ≠ ['@'] := by
  intro e
  have hd : decodeLabels (joinLabels ls) = .ok [['@']] := by rw [e]; rfl
  have hlower := (List.map_congr_left fun l hl => (h l hl).2).trans (List.map_id ls)
  rw [(decodeLabels_joinLabels hne).1, hlower, Except.ok.injEq] at hd
  rw [hd] at e
  exact absurd e (by decide)

theorem trim_joinLabels_owner {ls : List Text} (h : ∀ l ∈ ls, IsOwnerLabel l) : trim (joinLabels ls) = joinLabels ls := by
  refine trim_eq_self fun c hc => ?_
  rcases mem_joinLabels hc with rfl | rfl | ⟨l, hl, hc⟩
  · rfl
  · rfl
  · exact (OwnerName.not_isWhitespace_of_mem_ownerLabel (h l hl) hc).1

theorem decodeNameLabels_of_root {name : Text} {ms labels : List Text} {absolute : Bool} (hne : ms ≠ [])
    (hd : decodeLabels name = .ok (ms ++ [[]])) : decodeNameLabels name = .ok (labels, absolute) ↔
      absolute = true ∧ labels = ms ∧ (∀ l ∈ ms, classifyOwnerLabel l = .ok ()) ∧ wireLen ms ≤ 255 := by
  have hroot : (decide (1 < (ms ++ [[]]).length) && decide ((ms ++ [[]]).getLast? = some [])) = true := by
    have := List.length_pos_iff.2 hne
    simp [this]
  rw [decodeNameLabels_eq_ok]
  constructor
  · rintro ⟨decoded, hd', rfl, rfl, hrest⟩
    rw [hd] at hd'
    cases hd'
    rw [hroot, if_pos rfl, List.dropLast_concat] at hrest ⊢
    exact ⟨rfl, rfl, hrest⟩
  · rintro ⟨rfl, rfl, hrest⟩
    exact ⟨_, hd, hroot.symm, by rw [if_pos rfl, List.dropLast_concat], hrest⟩

theorem decodeNameLabels_of_labels {name : Text} {ls : List Text} (hd : decodeLabels name = .ok ls)
    (hls : ∀ l ∈ ls, classifyOwnerLabel l = .ok ()) (hw : wireLen ls ≤ 255) :
    decodeNameLabels name = .ok (ls, false) := by
  have hroot : (decide (1 < ls.length) && decide (ls.getLast? = some [])) = false := by
    have hlast : ls.getLast? ≠ some [] := fun e => (classifyOwnerLabel_eq_ok.1 (hls [] (List.mem_of_getLast? e))).1 rfl
    simp [hlast]
  exact decodeNameLabels_eq_ok.2 ⟨ls, hd, hroot.symm, rfl, hls, hw⟩

namespace OwnerName

theorem parseInZone_eq_ok {input : Text} {zone : ZoneName} {o : OwnerName} :
    parseInZone input zone = .ok o ↔ parseInZoneLabels input zone = .ok o.labels := by
  unfold parseInZone
  split
  next labels h =>
    constructor
    · intro e
      cases e
      exact h
    · intro e
      rw [h, Except.ok.injEq] at e
      exact congrArg _ (ext_labels e)
  next e h => simp [h]

theorem parseInZoneLabels_eq_ok {t : Text} {zone : ZoneName} {owner : List Text} (htrim : trim t = t)
    (hat : t ≠ ['@']) : parseInZoneLabels t zone = .ok owner ↔
      trimEndMatches '.' t ≠ [] ∧ ∃ ls absolute, decodeNameLabels t = .ok (ls, absolute) ∧
        (stripZoneSuffix ls zone.labels = some owner ∨ stripZoneSuffix ls zone.labels = none ∧ absolute = false ∧
          wireLen (ls ++ zone.labels) ≤ 255 ∧ owner = ls) := by
  unfold parseInZoneLabels
  simp only [htrim, hat, if_false]
  by_cases hdots : trimEndMatches '.' t = []
  · simp [hdots]
  rw [if_neg hdots]
  simp only [ne_eq, hdots, not_false_eq_true, true_and, Fallible.bind_eq_ok, Prod.exists]
  refine exists_congr fun ls => exists_congr fun absolute => and_congr_right fun _ => ?_
  cases hs : stripZoneSuffix ls zone.labels with
  | some o => simp
  | none =>
      cases absolute with
      | true => simp
      | false =>
          simp only [Bool.false_eq_true, if_false, Fallible.bind_eq_ok, reduceCtorEq, false_or, true_and]
          constructor
          · rintro ⟨_, hw, e⟩
            exact ⟨classifyWireLen_eq_ok.1 hw, (Except.ok.inj e).symm⟩
          · rintro ⟨hw, rfl⟩
            exact ⟨(), classifyWireLen_eq_ok.2 hw, rfl⟩

theorem parseInZone_toFqdn {o : OwnerName} {zone : ZoneName} (h : o.Fits zone) :
    parseInZone (o.toFqdn zone) zone = .ok o := by
  have hlabels := o.absoluteLabels_isOwnerLabel zone
  have hne := o.absoluteLabels_ne_nil zone
  have hat : joinLabels (o.absoluteLabels zone) ++ ['.'] ≠ ['@'] := by
    intro e
    have := congrArg List.getLast? e
    simp at this
  have hd := (decodeNameLabels_joinLabels hne hlabels).2
  rw [if_pos (show wireLen _ ≤ 255 from h)] at hd
  rw [parseInZone_eq_ok, toFqdn_eq, parseInZoneLabels_eq_ok (trim_joinLabels_dot hlabels) hat]
  refine ⟨fun hdots => ?_, _, _, hd, .inl (stripZoneSuffix_append _ _)⟩
  have hhead := head?_decodeLabels_of_dots hdots (decodeLabels_joinLabels hne).2
  obtain ⟨l, ls, hls⟩ := List.exists_cons_of_ne_nil hne
  rw [hls, List.map_cons, List.cons_append, List.head?_cons, Option.some.injEq, toAsciiLowercase_eq_nil] at hhead
  exact (classifyOwnerLabel_eq_ok.1 (hlabels l (by simp [hls])).1).1 hhead

theorem toStored_injective {o o' : OwnerName} (h : o.toStored = o'.toStored) : o = o' :=
  ext_labels (by rw [← fromRow_toStored o, h, fromRow_toStored])

theorem toFqdn_injective {o o' : OwnerName} {zone : ZoneName} (h : o.toFqdn zone = o'.toFqdn zone) : o = o' := by
  have hmap : ∀ x : OwnerName, (x.absoluteLabels zone).map toAsciiLowercase = x.absoluteLabels zone := fun x =>
    (List.map_congr_left fun l hl => (x.absoluteLabels_isOwnerLabel zone l hl).2).trans (List.map_id _)
  have hd := (decodeLabels_joinLabels (o.absoluteLabels_ne_nil zone)).2
  rw [← toFqdn_eq, h, toFqdn_eq, (decodeLabels_joinLabels (o'.absoluteLabels_ne_nil zone)).2, hmap, hmap,
    Except.ok.injEq, List.append_cancel_right_eq, absoluteLabels, absoluteLabels, List.append_cancel_right_eq] at hd
  exact ext_labels hd.symm

/-- A text that ends in the zone's first label grown by some octets is not in the zone. -/
theorem stripZoneSuffix_grown {ks ls zone : List Text} {l l' : Text} (hz : zone = l :: ls) (hlen : byteLen l < byteLen l') :
    stripZoneSuffix (ks ++ (l' :: ls)) zone = none := by
  cases hs : stripZoneSuffix (ks ++ (l' :: ls)) zone with
  | none => rfl
  | some owner =>
      have e := stripZoneSuffix_eq_some hs
      rw [hz] at e
      have := (List.append_inj' e rfl).2
      rw [List.cons.injEq] at this
      rw [this.1] at hlen
      exact absurd hlen (lt_irrefl _)

theorem trim_qualified {r : Text} (htrim : trim r = r) (s : Text) : trim (r ++ '.' :: (s ++ ['.'])) = r ++ '.' :: (s ++ ['.']) := by
  rw [trim_eq_self_iff] at htrim ⊢
  refine ⟨fun c hc => ?_, fun c hc => ?_⟩
  · cases r with
    | nil =>
        cases hc
        rfl
    | cons d r => exact htrim.1 c hc
  · have hlast : (r ++ '.' :: (s ++ ['.'])).getLast? = some '.' := by
      rw [← List.cons_append, ← List.append_assoc, List.getLast?_concat]
    rw [hlast] at hc
    cases hc
    rfl

/-- **Relative and absolute spelling.**  A trimmed text that is not `@` and does not end in the zone's labels
denotes the owner that it denotes with the zone written after it, or neither denotes one. -/
theorem parseInZone_qualified {r : Text} {zone : ZoneName} (htrim : trim r = r) (hat : r ≠ ['@'])
    (hout : ∀ ls absolute, decodeNameLabels r = .ok (ls, absolute) → isLabelSuffix ls zone.labels = false) (o : OwnerName) :
    parseInZone r zone = .ok o ↔ parseInZone (r ++ '.' :: (zone.text ++ ['.'])) zone = .ok o := by
  have hat' : r ++ '.' :: (zone.text ++ ['.']) ≠ ['@'] := by
    intro e
    have hlen := congrArg List.length e
    simp only [List.length_append, List.length_cons, List.length_nil] at hlen
    omega
  rw [parseInZone_eq_ok, parseInZone_eq_ok, parseInZoneLabels_eq_ok htrim hat,
    parseInZoneLabels_eq_ok (trim_qualified htrim _) hat']
  obtain ⟨l, ls, hz⟩ := List.exists_cons_of_ne_nil zone.labels_ne_nil
  have hlower : ∀ m ∈ l :: ls, toAsciiLowercase m = m := fun m hm => (zone.isOwnerLabel m (hz ▸ hm)).2
  obtain ⟨hok, herror⟩ := decodeLabels_qualified r hlower
  rw [← hz, zone.joinLabels_labels] at hok herror
  cases hr : decodeLabels r with
  | error e =>
      constructor
      · rintro ⟨-, ks, absolute, hk, -⟩
        obtain ⟨_, hd, -⟩ := decodeNameLabels_eq_ok.1 hk
        rw [hr] at hd
        cases hd
      · rintro ⟨-, ks, absolute, hk, hstrip⟩
        obtain ⟨decoded, hd, -⟩ := decodeNameLabels_eq_ok.1 hk
        obtain ⟨ks', l', rfl, hlen⟩ := herror e decoded hr hd
        obtain ⟨rfl, rfl, -⟩ := (decodeNameLabels_of_root (by simp) hd).1 hk
        rw [stripZoneSuffix_grown hz hlen] at hstrip
        rcases hstrip with h | ⟨-, h, -⟩ <;> cases h
  | ok ks =>
      have hd := hok ks hr
      have hne : ks ++ zone.labels ≠ [] := by simp [zone.labels_ne_nil]
      have hstrip : ∀ ls absolute, decodeNameLabels r = .ok (ls, absolute) → stripZoneSuffix ls zone.labels = none :=
        fun ls absolute h => by simp [stripZoneSuffix, hout ls absolute h]
      constructor
      · rintro ⟨-, ls', absolute, hk, hrest⟩
        rw [hstrip _ _ hk] at hrest
        obtain h | ⟨-, rfl, hw, ho⟩ := hrest
        · cases h
        obtain ⟨decoded, hdecoded, -, hls, hclass, -⟩ := decodeNameLabels_eq_ok.1 hk
        rw [hr] at hdecoded
        cases hdecoded
        rw [if_neg (by simp)] at hls
        rw [hls] at hclass hw ho
        have hall : ∀ k ∈ ks ++ zone.labels, classifyOwnerLabel k = .ok () := by
          intro k hk
          rcases List.mem_append.1 hk with h | h
          · exact hclass k h
          · exact (zone.isOwnerLabel k h).1
        refine ⟨fun hdots => ?_, _, _, (decodeNameLabels_of_root hne hd).2 ⟨rfl, rfl, hall, hw⟩, .inl ?_⟩
        · have hhead := head?_decodeLabels_of_dots hdots hd
          rw [List.head?_append_of_ne_nil _ hne] at hhead
          exact (classifyOwnerLabel_eq_ok.1 (hall [] (List.mem_of_head? hhead))).1 rfl
        · rw [ho, stripZoneSuffix_append]
      · rintro ⟨-, ms, absolute, hk, hrest⟩
        obtain ⟨rfl, rfl, hall, hw⟩ := (decodeNameLabels_of_root hne hd).1 hk
        rw [stripZoneSuffix_append] at hrest
        obtain h | ⟨h, -⟩ := hrest
        · have hclass : ∀ k ∈ ks, classifyOwnerLabel k = .ok () := fun k hk => hall k (List.mem_append_left _ hk)
          have hwk : wireLen ks ≤ 255 := by
            simp only [wireLen, List.map_append, List.sum_append] at hw ⊢
            omega
          have hname := decodeNameLabels_of_labels hr hclass hwk
          refine ⟨fun hdots => ?_, ks, false, hname, .inr ⟨hstrip _ _ hname, rfl, hw, (Option.some.inj h).symm⟩⟩
          exact (classifyOwnerLabel_eq_ok.1 (hclass [] (List.mem_of_head? (head?_decodeLabels_of_dots hdots hr)))).1 rfl
        · cases h

end OwnerName

/-- **The forms of an owner.**  An owner read in a zone comes back from its row and from its absolute form; no
two owners share a row's text or an absolute form; and a relative text denotes what it denotes with the zone
written after it. -/
theorem owner_forms (zone : ZoneName) :
    (∀ t o, OwnerName.parseInZone t zone = .ok o ∨ OwnerName.parseAbsoluteInZone t zone = .ok o →
      OwnerName.fromRow o.toStored = o.labels ∧ OwnerName.parseAbsoluteInZone (o.toFqdn zone) zone = .ok o ∧
        OwnerName.parseInZone (o.toFqdn zone) zone = .ok o) ∧
    (∀ o o' : OwnerName, o ≠ o' → o.toStored ≠ o'.toStored ∧ o.toFqdn zone ≠ o'.toFqdn zone) ∧
    ∀ r : Text, trim r = r → r ≠ ['@'] →
      (∀ ls absolute, decodeNameLabels r = .ok (ls, absolute) → isLabelSuffix ls zone.labels = false) →
      ∀ o, OwnerName.parseInZone r zone = .ok o ↔
        OwnerName.parseInZone (r ++ ['.'] ++ zone.text ++ ['.']) zone = .ok o := by
  refine ⟨fun t o h => ?_, fun o o' hne => ?_, fun r htrim hat hout o => ?_⟩
  · have hfits : o.Fits zone := h.elim OwnerName.fits_of_parseInZone OwnerName.fits_of_parseAbsoluteInZone
    exact ⟨o.fromRow_toStored, (o.parseAbsoluteInZone_toFqdn zone).2 hfits, OwnerName.parseInZone_toFqdn hfits⟩
  · exact ⟨fun h => hne (OwnerName.toStored_injective h), fun h => hne (OwnerName.toFqdn_injective h)⟩
  · simpa using OwnerName.parseInZone_qualified htrim hat hout o

theorem owner_forms_escapedDot : ∃ zone o, zone.text = lit "example.com" ∧
    OwnerName.parseInZone (lit "A\\.b.c") zone = .ok o ∧ o.labels = [lit "a.b", lit "c"] ∧
    OwnerName.fromRow o.toStored = o.labels ∧ OwnerName.parseInZone (o.toFqdn zone) zone = .ok o ∧
    OwnerName.parseInZone (lit "A\\.b.c" ++ ['.'] ++ zone.text ++ ['.']) zone = .ok o ∧
    OwnerName.apex.toStored ≠ o.toStored := by
  obtain ⟨zone, hz⟩ : ∃ zone : ZoneName, zone.text = lit "example.com" :=
    ⟨⟨lit "example.com", by unfold IsZoneText; decide +kernel⟩, rfl⟩
  have hlabels : zone.labels = [lit "example", lit "com"] := by
    rw [ZoneName.labels, hz]
    decide
  have hdecode : decodeNameLabels (lit "A\\.b.c") = .ok ([lit "a.b", lit "c"], false) := by decide +kernel
  obtain ⟨o, ho, howner⟩ : ∃ o, OwnerName.parseInZone (lit "A\\.b.c") zone = .ok o ∧ o.labels = [lit "a.b", lit "c"] := by
    refine ⟨⟨[lit "a.b", lit "c"], by decide +kernel⟩, OwnerName.parseInZone_eq_ok.2 ?_, rfl⟩
    rw [OwnerName.parseInZoneLabels_eq_ok (by decide) (by decide)]
    exact ⟨by decide, _, _, hdecode, by rw [hlabels]; decide +kernel⟩
  obtain ⟨hback, hdistinct, hform⟩ := owner_forms zone
  obtain ⟨hrow, -, hfqdn⟩ := hback _ o (.inl ho)
  refine ⟨zone, o, hz, ho, howner, hrow, hfqdn, (hform _ (by decide) (by decide) (fun ls absolute h => ?_) o).1 ho, ?_⟩
  · rw [hdecode] at h
    cases h
    rw [hlabels]
    decide +kernel
  · exact (hdistinct _ _ fun e => by simp [← e, OwnerName.apex] at howner).1

/-! ### The lookup form -/

theorem trimEndMatches_joinLabels_ne_nil {ls : List Text} (hne : ls ≠ []) (h : ∀ l ∈ ls, l ≠ []) (dot : Text) :
    trimEndMatches '.' (joinLabels ls ++ dot) ≠ [] := by
  obtain ⟨l, ls, rfl⟩ := List.exists_cons_of_ne_nil hne
  obtain ⟨c, l, rfl⟩ := List.exists_cons_of_ne_nil (h l (by simp))
  have hmem : ∃ d ∈ joinLabels ((c :: l) :: ls) ++ dot, d ≠ '.' := by
    have hesc : ∃ d ∈ escapeLabel (c :: l), d ≠ '.' := by
      rw [escapeLabel_cons]
      split
      · exact ⟨'\\', by simp, by decide⟩
      · rename_i hc
        exact ⟨c, by simp, fun e => hc (by simp [e, escapedInLabel])⟩
    obtain ⟨d, hd, hdot⟩ := hesc
    refine ⟨d, ?_, hdot⟩
    cases ls with
    | nil => simp [hd]
    | cons m ls =>
        rw [joinLabels_cons_cons]
        simp [hd]
  obtain ⟨d, hd, hdot⟩ := hmem
  rw [trimEndMatches, Ne, List.rdropWhile_eq_nil_iff]
  intro hall
  exact hdot (by simpa using hall d hd)

theorem toLookupName_joinLabels {ls : List Text} (hne : ls ≠ []) (h : ∀ l ∈ ls, IsOwnerLabel l) {name : Text} :
    toLookupName (joinLabels ls) = .ok name ↔ wireLen ls ≤ 255 ∧ name = joinLabels ls := by
  have hnil : ∀ l ∈ ls, l ≠ [] := fun l hl => (classifyOwnerLabel_eq_ok.1 (h l hl).1).1
  have hdots : trimEndMatches '.' (joinLabels ls) ≠ [] := by
    simpa using trimEndMatches_joinLabels_ne_nil hne hnil []
  have hws : hasWhitespaceOrControl (joinLabels ls) = false := by
    rw [hasWhitespaceOrControl, List.any_eq_false]
    intro c hc
    rcases mem_joinLabels hc with rfl | rfl | ⟨l, hl, hc⟩
    · decide
    · decide
    · obtain ⟨h1, h2⟩ := OwnerName.not_isWhitespace_of_mem_ownerLabel (h l hl) hc
      simp [h1, h2]
  simp only [toLookupName, trim_joinLabels_owner h, if_neg hdots, hws, Bool.false_eq_true, if_false,
    (decodeNameLabels_joinLabels hne h).1]
  split
  · rename_i hw
    simp [hw, pure, Except.pure, eq_comm]
  · rename_i hw
    simp [hw]

/-- The labels without the root's empty label at their end. -/
def dropRoot (labels : List Text) : List Text :=
  if 1 < labels.length ∧ labels.getLast? = some [] then labels.dropLast else labels

theorem toLookupName_labels {a x : Text} (h : toLookupName a = .ok x) :
    ∃ decoded, decodeLabels (trim a) = .ok decoded ∧ x = joinLabels (dropRoot decoded) ∧ dropRoot decoded ≠ [] ∧
      IsOwner (dropRoot decoded) := by
  obtain ⟨labels, absolute, hd, rfl⟩ := toLookupName_eq_ok h
  have hne := decodeNameLabels_ne_nil hd
  have hvalid := decodeNameLabels_valid hd
  obtain ⟨decoded, hdecoded, rfl, hlabels, -⟩ := decodeNameLabels_eq_ok.1 hd
  have hroot : labels = dropRoot decoded := by
    rw [hlabels, dropRoot]
    simp only [Bool.and_eq_true, decide_eq_true_eq]
  exact ⟨decoded, hdecoded, by rw [hroot], hroot ▸ hne, hroot ▸ hvalid⟩

theorem decodeLabels_joinLabels_lower {labels : List Text} (hne : labels ≠ []) (h : ∀ l ∈ labels, toAsciiLowercase l = l) :
    decodeLabels (joinLabels labels) = .ok labels := by
  rw [(decodeLabels_joinLabels hne).1, (List.map_congr_left h).trans (List.map_id labels)]

/-- **The lookup form.**  Decoding inverts joining on labels in lower case; two names have one lookup form exactly when
they denote the same labels, white space around them and the root apart; and the form is its own lookup form. -/
theorem lookup_form :
    (∀ labels : List Text, labels ≠ [] → (∀ l ∈ labels, l ≠ [] ∧ toAsciiLowercase l = l) →
      decodeLabels (joinLabels labels) = .ok labels) ∧
    (∀ a b x y, toLookupName a = .ok x → toLookupName b = .ok y → (x = y ↔ ∃ la lb,
      decodeLabels (trim a) = .ok la ∧ decodeLabels (trim b) = .ok lb ∧ dropRoot la = dropRoot lb)) ∧
    ∀ a x, toLookupName a = .ok x → toLookupName x = .ok x := by
  refine ⟨fun labels hne h => ?_, fun a b x y ha hb => ?_, fun a x h => ?_⟩
  · exact decodeLabels_joinLabels_lower hne fun l hl => (h l hl).2
  · obtain ⟨la, hla, rfl, hane, ha⟩ := toLookupName_labels ha
    obtain ⟨lb, hlb, rfl, hbne, hb⟩ := toLookupName_labels hb
    constructor
    · intro e
      have hda := decodeLabels_joinLabels_lower hane fun l hl => (ha.1 l hl).2
      rw [e, decodeLabels_joinLabels_lower hbne fun l hl => (hb.1 l hl).2] at hda
      exact ⟨la, lb, hla, hlb, (Except.ok.inj hda).symm⟩
    · rintro ⟨la', lb', hla', hlb', e⟩
      rw [hla] at hla'
      rw [hlb] at hlb'
      cases hla'
      cases hlb'
      rw [e]
  · obtain ⟨labels, -, rfl, hne, howner⟩ := toLookupName_labels h
    exact (toLookupName_joinLabels hne howner.1).2 ⟨howner.2, rfl⟩

theorem lookup_form_escaped :
    decodeLabels (joinLabels [lit "a.b", lit "c\\1é"]) = .ok [lit "a.b", lit "c\\1é"] ∧
    (∃ la lb, decodeLabels (trim (lit " A\\.b.c. ")) = .ok la ∧ decodeLabels (trim (lit "a\\046B.C")) = .ok lb ∧
      dropRoot la = dropRoot lb) ∧
    toLookupName (lit "a\\.b.c") = .ok (lit "a\\.b.c") := by
  obtain ⟨hinverse, hcanonical, hidempotent⟩ := lookup_form
  have ha : toLookupName (lit " A\\.b.c. ") = .ok (lit "a\\.b.c") := by decide +kernel
  have hb : toLookupName (lit "a\\046B.C") = .ok (lit "a\\.b.c") := by decide +kernel
  exact ⟨hinverse _ (by decide) (by decide), (hcanonical _ _ _ _ ha hb).1 rfl, hidempotent _ _ ha⟩

/-- White space around a name is no part of its lookup form, but it is decoded. -/
theorem lookup_form_whitespace :
    toLookupName (lit " a") = .ok (lit "a") ∧ toLookupName (lit "a") = .ok (lit "a") ∧
      ∀ la lb, decodeLabels (lit " a") = .ok la → decodeLabels (lit "a") = .ok lb → dropRoot la ≠ dropRoot lb := by
  have ha : decodeLabels (lit " a") = .ok [lit " a"] := by decide +kernel
  have hb : decodeLabels (lit "a") = .ok [lit "a"] := by decide +kernel
  refine ⟨by decide +kernel, by decide +kernel, fun la lb hla hlb => ?_⟩
  rw [ha] at hla
  rw [hb] at hlb
  cases hla
  cases hlb
  decide

end Bindizr
