import Bindizr.Encoding

/-! # Records of a message and the rows they become

The way of a record of an UPDATE message into the store and back to the wire.  A name of the
message is written out (`presentationName`), and what reads the text drops the white space it
begins with: the owner of the row and the target it holds are the names of the message with
the first label trimmed (`ownerInZone_eq_ok`, `exists_parseName_presented`).  So a record comes
back with its own names, up to letter case, exactly when none of them begins with white space
and its owner is ASCII (`addRecord_served`). -/

namespace Bindizr

open Rfc1035 (Name Rdata ResourceRecord isPrintable)

/-! ### Names of a message -/

/-- Whether the first label of a name begins with white space. -/
def startsWithSpace (n : Name) : Bool :=
  match n.labels.head?.bind fromUtf8 with
  | some (c :: _) => isWhitespace c
  | _ => false

def isAsciiName (n : Name) : Bool := n.labels.all fun l => l.all fun b => decide (b.toNat < 128)

/-- Labels without the white space the first one begins with. -/
def trimFirst : List Text → List Text
  | [] => []
  | l :: ls => l.dropWhile isWhitespace :: ls

theorem mapM_fromUtf8 {labels : List (List UInt8)} {ls : List Text} :
    labels.mapM fromUtf8 = some ls ↔ labels = wireLabels ls := by
  constructor
  · intro h
    induction labels generalizing ls with
    | nil =>
        cases h
        rfl
    | cons b labels ih =>
        rw [List.mapM_cons] at h
        obtain ⟨t, ht, h⟩ := Option.bind_eq_some_iff.1 h
        obtain ⟨ts, hts, h⟩ := Option.bind_eq_some_iff.1 h
        cases h
        rw [ih hts, wireLabels, wireLabels, List.map_cons, asBytes_of_fromUtf8 ht]
  · rintro rfl
    induction ls with
    | nil => rfl
    | cons l ls ih =>
        rw [wireLabels] at ih ⊢
        rw [List.map_cons, List.mapM_cons, fromUtf8_asBytes, ih]
        rfl

theorem presentationName_eq_ok {n : Name} {v : Text} :
    presentationName n = .ok v ↔
      ∃ ls, n.labels = wireLabels ls ∧ v = if ls = [] then ['.'] else joinLabels ls ++ ['.'] := by
  simp only [← mapM_fromUtf8]
  unfold presentationName
  cases n.labels.mapM fromUtf8 with
  | none => simp [orFail]
  | some ls => simp [orFail, pure, Except.pure, eq_comm]

theorem wireLabels_injective : Function.Injective wireLabels := fun ls ms h => by
  have e := mapM_fromUtf8.2 h
  rw [mapM_fromUtf8.2 rfl] at e
  exact Option.some.inj e

section Labels

variable {n : Name} {ls : List Text} (hls : n.labels = wireLabels ls)

include hls

theorem labels_ne_nil_of_name : ∀ l ∈ ls, l ≠ [] ∧ byteLen l ≤ maxDnsLabelLen := by
  intro l hl
  obtain ⟨h1, h2⟩ := n.isName.1 (asBytes l) (by rw [hls]; exact List.mem_map_of_mem hl)
  rw [length_asBytes] at h1 h2
  refine ⟨?_, h2⟩
  rintro rfl
  simp at h1

theorem wireLen_of_name : wireLen ls ≤ 255 := by
  have h := n.isName.2
  rwa [hls, labelsLen_wireLabels] at h

theorem lower_labels_eq : n.lower.labels = wireLabels (ls.map toAsciiLowercase) := by
  simp [hls, wireLabels, asBytes_toAsciiLowercase]

theorem startsWithSpace_eq_false : startsWithSpace n = false ↔ trimFirst ls = ls := by
  unfold startsWithSpace
  rw [hls]
  cases ls with
  | nil => simp [wireLabels, trimFirst]
  | cons l ls =>
      obtain ⟨c, t, rfl⟩ := List.exists_cons_of_ne_nil (labels_ne_nil_of_name hls l (by simp)).1
      simp only [wireLabels, List.map_cons, List.head?_cons, Option.bind_some, fromUtf8_asBytes, trimFirst,
        List.cons.injEq, and_true]
      by_cases hc : isWhitespace c = true
      · simp only [hc, Bool.true_eq_false, List.dropWhile_cons_of_pos, false_iff]
        intro e
        have hle := (List.dropWhile_suffix (l := t) isWhitespace).length_le
        rw [e, List.length_cons] at hle
        omega
      · simp [hc]

end Labels

theorem trimFirst_map_lowercase {ls : List Text} :
    (trimFirst ls).map toAsciiLowercase = ls.map toAsciiLowercase ↔ trimFirst ls = ls := by
  constructor
  · intro h
    cases ls with
    | nil => rfl
    | cons l ls =>
        have e := congrArg List.length (List.cons.inj h).1
        rw [toAsciiLowercase, toAsciiLowercase, List.length_map, List.length_map] at e
        rw [trimFirst, (List.dropWhile_suffix (l := l) isWhitespace).eq_of_length e]
  · intro h
    rw [h]

/-- The trimmed labels are those of the name, up to case, when there is nothing to trim. -/
theorem trimFirst_eq_iff {n m : Name} {ls : List Text} (hls : n.labels = wireLabels ls)
    (hm : m.labels = wireLabels ((trimFirst ls).map toAsciiLowercase)) :
    m.lower = n.lower ↔ startsWithSpace n = false := by
  rw [Rfc1035.Name.ext_iff, lower_labels_eq hm, lower_labels_eq hls, wireLabels_injective.eq_iff, List.map_map,
    startsWithSpace_eq_false hls, ← trimFirst_map_lowercase]
  have e : toAsciiLowercase ∘ toAsciiLowercase = toAsciiLowercase := by
    funext t
    simp
  rw [e]

theorem dropWhile_escapeLabel (l rest : Text) : (escapeLabel l ++ '.' :: rest).dropWhile isWhitespace =
    escapeLabel (l.dropWhile isWhitespace) ++ '.' :: rest := by
  induction l with
  | nil => rfl
  | cons c l ih =>
      rw [escapeLabel_cons]
      by_cases hc : isWhitespace c = true
      · have hesc : c ∉ escapedInLabel := by
          intro hm
          simp only [escapedInLabel, List.mem_cons, List.not_mem_nil, or_false] at hm
          rcases hm with rfl | rfl | rfl | rfl | rfl | rfl | rfl | rfl <;> cases hc
        rw [if_neg hesc, List.dropWhile_cons_of_pos hc, List.append_assoc, List.singleton_append,
          List.dropWhile_cons_of_pos hc, ih]
      · rw [List.dropWhile_cons_of_neg hc, escapeLabel_cons]
        split
        · rfl
        · rw [List.append_assoc, List.singleton_append, List.dropWhile_cons_of_neg hc]

/-- A name that was written out is trimmed at its first label. -/
theorem trim_joinLabels {ls : List Text} (hne : ls ≠ []) :
    trim (joinLabels ls ++ ['.']) = joinLabels (trimFirst ls) ++ ['.'] := by
  have hlast : ∀ t : Text, (t ++ ['.']).rdropWhile isWhitespace = t ++ ['.'] := fun t =>
    List.rdropWhile_concat_neg _ _ _ (by decide)
  obtain ⟨l, ls, rfl⟩ := List.exists_cons_of_ne_nil hne
  unfold trim trimFirst
  cases ls with
  | nil =>
      rw [joinLabels_singleton, joinLabels_singleton, dropWhile_escapeLabel]
      exact hlast _
  | cons m ls =>
      rw [joinLabels_cons_cons, joinLabels_cons_cons, List.append_assoc, List.cons_append, dropWhile_escapeLabel,
        ← List.cons_append, ← List.append_assoc]
      exact hlast _

theorem wireLen_trimFirst_le (ls : List Text) : wireLen (trimFirst ls) ≤ wireLen ls := by
  cases ls with
  | nil => exact le_rfl
  | cons l ls =>
      have h : byteLen (l.dropWhile isWhitespace) ≤ byteLen l := by
        conv_rhs => rw [← List.takeWhile_append_dropWhile (p := isWhitespace) (l := l)]
        rw [byteLen_append]
        omega
      simp only [wireLen, trimFirst, List.map_cons, List.sum_cons]
      omega

/-! ### Owners -/

@[simp] theorem wireLen_map_lowercase (ls : List Text) : wireLen (ls.map toAsciiLowercase) = wireLen ls := by
  simp [wireLen, Function.comp_def]

theorem decodeNameLabels_dot {ls labels : List Text} (hne : ls ≠ []) {absolute : Bool} :
    decodeNameLabels (joinLabels ls ++ ['.']) = .ok (labels, absolute) ↔
      labels = ls.map toAsciiLowercase ∧ absolute = true ∧ (∀ l ∈ labels, classifyOwnerLabel l = .ok ()) ∧
        wireLen labels ≤ 255 := by
  have hlen : decide (1 < (ls.map toAsciiLowercase ++ [([] : Text)]).length) = true := by
    simpa using List.length_pos_iff.2 hne
  simp only [decodeNameLabels, (decodeLabels_joinLabels hne).2, Fallible.ok_bind, hlen, List.getLast?_append,
    List.dropLast_concat, List.getLast?_singleton, Option.some_or, decide_true, Bool.and_true, if_true]
  constructor
  · intro h
    obtain ⟨_, hc, h⟩ := Fallible.bind_eq_ok.1 h
    obtain ⟨_, hw, h⟩ := Fallible.bind_eq_ok.1 h
    cases h
    rw [classifyWireLen_eq_ok, List.append_nil] at hw
    exact ⟨rfl, rfl, Fallible.forM_eq_ok.1 hc, hw⟩
  · rintro ⟨rfl, rfl, hc, hw⟩
    rw [Fallible.forM_eq_ok.2 hc, classifyWireLen_eq_ok.2 (by rwa [List.append_nil])]
    rfl

/-- **The owner of a record.**  It is in the zone when its labels, the first one trimmed and all in
lower case, are those of an owner of the zone. -/
theorem ownerInZone_eq_ok {n : Name} {ls : List Text} (hls : n.labels = wireLabels ls) (hne : ls ≠ [])
    {zone : ZoneName} {o : OwnerName} : ownerInZone (joinLabels ls ++ ['.']) zone = .ok o ↔
      o.absoluteLabels zone = (trimFirst ls).map toAsciiLowercase := by
  have hroot := trimEndMatches_joinLabels_ne_nil hne (fun l hl => (labels_ne_nil_of_name hls l hl).1) ['.']
  have hne' : trimFirst ls ≠ [] := by
    obtain ⟨l, ls, rfl⟩ := List.exists_cons_of_ne_nil hne
    simp [trimFirst]
  have hat : joinLabels (trimFirst ls) ++ ['.'] ≠ ['@'] := fun e => by simpa using congrArg List.getLast? e
  have hlen : wireLen ((trimFirst ls).map toAsciiLowercase) ≤ 255 := by
    rw [wireLen_map_lowercase]
    exact (wireLen_trimFirst_le ls).trans (wireLen_of_name hls)
  rw [ownerInZone, if_neg hroot, Fallible.mapError_eq_ok, OwnerName.parseAbsoluteInZone_eq_ok]
  unfold OwnerName.parseAbsoluteInZoneLabels
  rw [trim_joinLabels hne]
  simp only [hat, if_false]
  constructor
  · intro h
    obtain ⟨⟨labels, absolute⟩, hd, h⟩ := Fallible.bind_eq_ok.1 h
    simp only at h
    split at h
    · rename_i owner hs
      cases h
      rw [OwnerName.absoluteLabels, ← stripZoneSuffix_eq_some hs, ((decodeNameLabels_dot hne').1 hd).1]
    · cases h
  · intro h
    have hd := (decodeNameLabels_dot hne').2 ⟨h, rfl, fun l hl => (o.absoluteLabels_isOwnerLabel zone l hl).1,
      by rwa [h]⟩
    rw [hd, Fallible.ok_bind]
    simp [OwnerName.absoluteLabels, OwnerName.stripZoneSuffix_append]

theorem toNat_lowerOctet_lt {b : UInt8} : (lowerOctet b).toNat < 128 ↔ b.toNat < 128 := by
  unfold lowerOctet
  split
  · rename_i h
    rw [UInt8.toNat_add]
    have : (32 : UInt8).toNat = 32 := rfl
    omega
  · rfl

theorem isAsciiName_lower (n : Name) : isAsciiName n.lower = isAsciiName n := by
  simp [isAsciiName, List.all_map, Function.comp_def, toNat_lowerOctet_lt]

theorem asBytes_lt_iff (t : Text) : (∀ b ∈ asBytes t, b.toNat < 128) ↔ ∀ c ∈ t, c.toNat < 128 := by
  induction t with
  | nil => simp
  | cons c t ih =>
      rw [asBytes_cons, List.forall_mem_append, ih, List.forall_mem_cons]
      refine and_congr_left fun _ => ?_
      by_cases hc : c.toNat < 128
      · rw [utf8EncodeChar_of_lt hc]
        simp only [List.mem_singleton, forall_eq, UInt8.toNat_ofNat']
        omega
      · refine iff_of_false (fun h => ?_) hc
        obtain ⟨b, bs, e⟩ := List.exists_cons_of_ne_nil (l := String.utf8EncodeChar c) fun e => by
          have := String.length_utf8EncodeChar c
          have := c.utf8Size_pos
          simp_all
        have := le_of_mem_utf8EncodeChar (c := c) (by omega) b (by simp [e])
        have := h b (by simp [e])
        omega

/-- A character an owner may hold is printable when it is ASCII. -/
theorem printable_iff_of_isOwnerLabel {l : Text} (h : IsOwnerLabel l) :
    Printable l ↔ ∀ c ∈ l, c.toNat < 128 := by
  refine forall₂_congr fun c hc => ?_
  obtain ⟨hw, hctrl⟩ := OwnerName.not_isWhitespace_of_mem_ownerLabel h hc
  simp only [isAsciiControl, isWhitespace, Bool.or_eq_false_iff, decide_eq_false_iff_not, beq_eq_false_iff_ne] at hw hctrl
  simp only [isPrintable, Bool.and_eq_true, decide_eq_true_eq]
  omega

theorem printable_iff_isAsciiName {o : OwnerName} {zone : ZoneName} {n : Name}
    (hn : n.labels = wireLabels (o.absoluteLabels zone)) : o.Printable ↔ isAsciiName n = true := by
  have hzone : ∀ l ∈ zone.labels, Printable l := fun l hl =>
    printable_of_classifyDomainLabel (zone.isZoneText.2 l hl).1
  have hall : o.Printable ↔ ∀ l ∈ o.absoluteLabels zone, Printable l := by
    simp only [OwnerName.absoluteLabels, List.forall_mem_append]
    exact (and_iff_left hzone).symm
  rw [hall, isAsciiName, hn, wireLabels, List.all_map, List.all_eq_true]
  refine forall₂_congr fun l hl => ?_
  rw [printable_iff_of_isOwnerLabel (o.absoluteLabels_isOwnerLabel zone l hl), ← asBytes_lt_iff]
  simp

/-! ### Targets -/

theorem mem_escapeLabel_of_mem {c : Char} {l : Text} (h : c ∈ l) : c ∈ escapeLabel l := by
  rw [escapeLabel, List.mem_flatMap]
  exact ⟨c, h, by split <;> simp⟩

theorem mem_joinLabels_of_mem {c : Char} {l : Text} {ls : List Text} (hl : l ∈ ls) (hc : c ∈ l) :
    c ∈ joinLabels ls := by
  induction ls with
  | nil => simp at hl
  | cons m ls ih =>
      cases ls with
      | nil =>
          rw [List.mem_singleton.1 hl] at hc
          rw [joinLabels_singleton]
          exact mem_escapeLabel_of_mem hc
      | cons m' ls =>
          rw [joinLabels_cons_cons, List.mem_append, List.mem_cons]
          rcases List.mem_cons.1 hl with rfl | hl
          · exact .inl (mem_escapeLabel_of_mem hc)
          · exact .inr (.inr (ih hl))

theorem escapeLabel_toAsciiLowercase (l : Text) :
    escapeLabel (toAsciiLowercase l) = toAsciiLowercase (escapeLabel l) := by
  have hmem : ∀ c, lowerChar c ∈ escapedInLabel ↔ c ∈ escapedInLabel := by
    intro c
    simp only [escapedInLabel, List.mem_cons, List.not_mem_nil, or_false]
    refine or_congr ?_ (or_congr ?_ (or_congr ?_ (or_congr ?_ (or_congr ?_ (or_congr ?_ (or_congr ?_ ?_)))))) <;>
      exact lowerChar_eq_iff rfl rfl
  simp only [escapeLabel, toAsciiLowercase, List.flatMap_map, List.map_flatMap, hmem]
  congr 1
  funext c
  split
  · rfl
  · rfl

theorem joinLabels_map_lowercase (ls : List Text) :
    joinLabels (ls.map toAsciiLowercase) = toAsciiLowercase (joinLabels ls) := by
  induction ls with
  | nil => rfl
  | cons l ls ih =>
      cases ls with
      | nil => simp [escapeLabel_toAsciiLowercase]
      | cons m ls =>
          rw [List.map_cons] at ih ⊢
          rw [List.map_cons, joinLabels_cons_cons, joinLabels_cons_cons, ih, escapeLabel_toAsciiLowercase,
            toAsciiLowercase_append]
          rfl

theorem isPrintable_lowerChar {c : Char} (h : isPrintable c = true) : isPrintable (lowerChar c) = true := by
  rcases lowerChar_cases c with ⟨_, e⟩ | ⟨_, e⟩
  · rwa [e]
  · rw [isAsciiLowercase, Bool.and_eq_true, decide_eq_true_eq, decide_eq_true_eq] at e
    have : 'a'.toNat = 97 := rfl
    have : 'z'.toNat = 122 := rfl
    simp only [isPrintable, Bool.and_eq_true, decide_eq_true_eq]
    omega

section Served

variable [crates : Crates]

omit crates in
theorem labels_of_validDomain {field : Text} {ls : List Text} (hne : ls ≠ []) (htail : ∀ l ∈ ls.tail, l ≠ [])
    (h : validateDomainRecordValue field (joinLabels ls ++ ['.']) = .ok ()) :
    ∀ l ∈ ls, l ≠ [] ∧ Printable l := by
  obtain ⟨-, hbody, -, hlabels⟩ := validateDomainRecordValue_eq_ok.1 h
  have hstrip : stripOneSuffix '.' (joinLabels ls ++ ['.']) = joinLabels ls := by simp [stripOneSuffix]
  rw [hstrip] at hbody hlabels
  have hprint : ∀ l ∈ ls, Printable l := fun l hl c hc => by
    rcases isLdh_of_labels hlabels (mem_joinLabels_of_mem hl hc) with rfl | hldh
    · rfl
    · exact isPrintable_of_isLdh hldh
  obtain ⟨l, ls, rfl⟩ := List.exists_cons_of_ne_nil hne
  refine fun m hm => ⟨?_, hprint m hm⟩
  rcases List.mem_cons.1 hm with rfl | hm
  · rintro rfl
    cases ls with
    | nil => exact hbody rfl
    | cons l' ls =>
        rw [joinLabels_cons_cons] at hlabels
        exact (classifyDomainLabel_eq_ok.1 (hlabels [] (by simp [split, List.splitOn_cons_eq_if_modifyHead]))).1 rfl
  · exact htail m hm

/-- **The target of a record.**  A name that is accepted as a target is stored as one that denotes
the name itself, up to case, when it does not begin with white space. -/
theorem exists_parseName_presented (hcrates : crates.Rfc1035Wire) {n : Name} {v : Text}
    (hv : presentationName n = .ok v) (ht : IsTarget (trim v)) :
    ∃ m, parseName (toFqdnLowercase (trim v)) = .ok m ∧ (m.lower = n.lower ↔ startsWithSpace n = false) := by
  obtain ⟨ls, hls, rfl⟩ := presentationName_eq_ok.1 hv
  by_cases hne : ls = []
  · subst hne
    have htrim : trim ['.'] = ['.'] := rfl
    refine ⟨Name.root, by rw [if_pos rfl, htrim]; rfl, ?_⟩
    have hn : n = Name.root := Rfc1035.Name.ext hls
    rw [hn]
    exact iff_of_true rfl rfl
  have hne' : trimFirst ls ≠ [] := by
    obtain ⟨l, ls, rfl⟩ := List.exists_cons_of_ne_nil hne
    simp [trimFirst]
  rw [if_neg hne, trim_joinLabels hne] at ht ⊢
  rcases ht with e | ⟨field, hvalid⟩
  · -- white space was all of the name
    have e' : joinLabels (trimFirst ls) = [] := by simpa using e
    rw [e']
    refine ⟨Name.root, rfl, iff_of_false (fun h => hne ?_) fun h => ?_⟩
    · have h := congrArg Name.labels h
      rw [lower_labels_eq hls] at h
      simpa [wireLabels, Name.root] using h.symm
    · rw [startsWithSpace_eq_false hls] at h
      rw [h] at e'
      obtain ⟨l, ls, rfl⟩ := List.exists_cons_of_ne_nil hne
      obtain ⟨c, t, rfl⟩ := List.exists_cons_of_ne_nil (labels_ne_nil_of_name hls l (by simp)).1
      have : c ∈ joinLabels ((c :: t) :: ls) := mem_joinLabels_of_mem (l := c :: t) (by simp) (by simp)
      simp [e'] at this
  · have htail : ∀ l ∈ (trimFirst ls).tail, l ≠ [] := by
      intro l hl
      refine (labels_ne_nil_of_name hls l ?_).1
      obtain ⟨l', ls, rfl⟩ := List.exists_cons_of_ne_nil hne
      exact List.mem_cons_of_mem _ hl
    have hok := labels_of_validDomain hne' htail hvalid
    obtain ⟨htrim, hself⟩ := trimEndMatches_of_validDomain hvalid
    have hstored : toFqdnLowercase (joinLabels (trimFirst ls) ++ ['.']) =
        joinLabels ((trimFirst ls).map toAsciiLowercase) ++ ['.'] := by
      rw [toFqdnLowercase, hself, htrim, joinLabels_map_lowercase]
      simp [stripOneSuffix]
    have hlower : ∀ l ∈ (trimFirst ls).map toAsciiLowercase, l ≠ [] ∧ Printable l := by
      intro l hl
      obtain ⟨l', hl', rfl⟩ := List.mem_map.1 hl
      refine ⟨by simpa using (hok l' hl').1, fun c hc => ?_⟩
      obtain ⟨c', hc', rfl⟩ := List.mem_map.1 hc
      exact isPrintable_lowerChar ((hok l' hl').2 c' hc')
    obtain ⟨m, hm, _⟩ := parseName_target hcrates hvalid
    have hmlabels := ((parseName_joinLabels hcrates hne' (fun l hl => (hok l hl).1) (.inr rfl)).1 hm).2
    have hlabels : m.lower.labels = wireLabels ((trimFirst ls).map toAsciiLowercase) := lower_labels_eq hmlabels
    refine ⟨m.lower, ?_, trimFirst_eq_iff hls hlabels⟩
    rw [hstored]
    exact (parseName_joinLabels hcrates (by simpa using hne') (fun l hl => (hlower l hl).1) (.inr rfl)).2
      ⟨fun l hl => (hlower l hl).2, hlabels⟩

/-! ### Rdata -/

omit crates in
theorem parseUnsigned_natText {n k : ℕ} : parseUnsigned 65535 (natText n) = some k ↔ k = n ∧ n ≤ 65535 := by
  have hne : natText n ≠ [] := List.ne_nil_of_length_pos Nat.length_toDigits_pos
  have hall : (natText n).all isAsciiDigit = true :=
    List.all_eq_true.2 fun c => isAsciiDigit_of_mem_natText
  have hplus : ∀ ds, natText n ≠ '+' :: ds := by
    intro ds e
    have := isAsciiDigit_of_mem_natText (n := n) (c := '+') (by simp [e])
    simp [isAsciiDigit] at this
  have hparse : parseUnsigned 65535 (natText n) = if 65535 < n then none else some n := by
    unfold parseUnsigned
    split
    · rename_i ds e
      exact absurd e (hplus ds)
    · simp [hne, hall, digitsValue_natText]
  rw [hparse]
  split_ifs <;> simp <;> omega

omit crates in
theorem MxRecordValue.parse_eq_ok {v : Text} {p : Option ℤ} {mx : MxRecordValue} :
    MxRecordValue.parse v p = .ok mx ↔
      splitWhitespace v = [mx.target] ∧ 0 ≤ p.getD 10 ∧ p.getD 10 ≤ 65535 ∧ mx.priority = (p.getD 10).toNat := by
  unfold MxRecordValue.parse
  split
  · rename_i target h
    unfold parseOptionalU16RecordField
    split
    · rename_i hp
      obtain ⟨priority, target'⟩ := mx
      simp only [Fallible.ok_bind, pure, Except.pure, Except.ok.injEq, MxRecordValue.mk.injEq, h, List.cons.injEq,
        hp.1, hp.2, true_and, eq_comm, and_comm]
    · rename_i hp
      refine iff_of_false (by simp) fun h' => hp ⟨h'.2.1, h'.2.2.1⟩
  · rename_i h
    exact iff_of_false (by simp) fun h' => h _ h'.1

omit crates in
theorem SrvRecordValue.parse_eq_ok {v : Text} {p : Option ℤ} {srv : SrvRecordValue} :
    SrvRecordValue.parse v p = .ok srv ↔
      ∃ weight port, splitWhitespace v = [weight, port, srv.target] ∧
        parseUnsigned 65535 weight = some srv.weight ∧ parseUnsigned 65535 port = some srv.port ∧
        0 ≤ p.getD 10 ∧ p.getD 10 ≤ 65535 ∧ srv.priority = (p.getD 10).toNat := by
  have hfield : ∀ {field t : Text} {k : ℕ}, parseU16RecordField field t = .ok k ↔ parseUnsigned 65535 t = some k := by
    intro field t k
    unfold parseU16RecordField
    cases parseUnsigned 65535 t <;> simp
  unfold SrvRecordValue.parse
  split
  · rename_i weight port target h
    simp only [Fallible.bind_eq_ok, hfield]
    constructor
    · rintro ⟨q, hq, w, hw, o, ho, e⟩
      cases e
      unfold parseOptionalU16RecordField at hq
      split at hq
      · rename_i hp
        cases hq
        exact ⟨weight, port, h, hw, ho, hp.1, hp.2, rfl⟩
      · cases hq
    · rintro ⟨weight', port', e, hw, ho, h0, h1, hq⟩
      rw [h] at e
      obtain ⟨rfl, rfl, rfl⟩ : weight = weight' ∧ port = port' ∧ target = srv.target := by simpa using e
      refine ⟨_, if_pos ⟨h0, h1⟩, _, hw, _, ho, ?_⟩
      rw [← hq]
      rfl
  · rename_i h
    refine iff_of_false (by simp) ?_
    rintro ⟨weight, port, e, -⟩
    exact h _ _ _ e

omit crates in
theorem not_isWhitespace_of_mem_toFqdnLowercase {t : Text} (h : ∀ c ∈ t, isWhitespace c = false) :
    ∀ c ∈ toFqdnLowercase t, isWhitespace c = false := by
  intro c hc
  rw [toFqdnLowercase, List.mem_append, List.mem_singleton] at hc
  rcases hc with hc | rfl
  · obtain ⟨d, hd, rfl⟩ := List.mem_map.1 hc
    have hd := h d (mem_of_mem_trim ((List.rdropWhile_prefix _ _).subset hd))
    rcases lowerChar_cases d with ⟨_, e⟩ | ⟨_, e⟩
    · rwa [e]
    · exact (isLdh_cases (u := false) (by simp [isLdh, isAsciiAlphanumeric, e])).1
  · rfl

omit crates in
theorem toFqdnLowercase_ne_nil (t : Text) : toFqdnLowercase t ≠ [] := by simp [toFqdnLowercase]

omit crates in
theorem MxRecordValue.parse_of_trim {value : Text} {priority : Option ℤ} {mx : MxRecordValue}
    (h : MxRecordValue.parse (trim value) priority = .ok mx) : MxRecordValue.parse value priority = .ok mx := by
  rw [MxRecordValue.parse_eq_ok] at h ⊢
  rwa [splitWhitespace_trim] at h

omit crates in
theorem SrvRecordValue.parse_of_trim {value : Text} {priority : Option ℤ} {srv : SrvRecordValue}
    (h : SrvRecordValue.parse (trim value) priority = .ok srv) : SrvRecordValue.parse value priority = .ok srv := by
  rw [SrvRecordValue.parse_eq_ok] at h ⊢
  rwa [splitWhitespace_trim] at h

omit crates in
theorem MxRecordValue.parse_encoded {value : Text} {priority : Option ℤ} {mx : MxRecordValue}
    (h : MxRecordValue.parse value priority = .ok mx) :
    mx.target = trim value ∧ (∀ n : ℕ, priority = some (n : ℤ) → mx.priority = n) ∧
      MxRecordValue.parse mx.encoded priority = .ok ⟨mx.priority, toFqdnLowercase mx.target⟩ := by
  obtain ⟨hfields, h0, h1, hprio⟩ := MxRecordValue.parse_eq_ok.1 h
  have hws := (not_isWhitespace_of_mem_splitWhitespace (t := value) (l := mx.target) (by simp [hfields])).2
  refine ⟨(trim_eq_of_splitWhitespace hfields).symm, ?_, MxRecordValue.parse_eq_ok.2 ⟨?_, h0, h1, hprio⟩⟩
  · rintro n rfl
    simpa using hprio
  · exact splitWhitespace_eq_singleton (toFqdnLowercase_ne_nil _) (not_isWhitespace_of_mem_toFqdnLowercase hws)

omit crates in
theorem splitWhitespace_srv (weight port : ℕ) (target : Text) :
    splitWhitespace (natText weight ++ [' '] ++ natText port ++ [' '] ++ target) =
      natText weight :: natText port :: splitWhitespace target := by
  have hnat : ∀ k, natText k ≠ [] := fun k => List.ne_nil_of_length_pos Nat.length_toDigits_pos
  have e : natText weight ++ [' '] ++ natText port ++ [' '] ++ target =
      natText weight ++ ' ' :: (natText port ++ ' ' :: target) := by simp
  rw [e, splitWhitespace_append_cons rfl (hnat weight) fun c => not_isWhitespace_of_mem_natText,
    splitWhitespace_append_cons rfl (hnat port) fun c => not_isWhitespace_of_mem_natText]

omit crates in
theorem le_of_parseUnsigned {bound k : ℕ} {t : Text} (h : parseUnsigned bound t = some k) : k ≤ bound := by
  unfold parseUnsigned at h
  simp only [Option.ite_none_left_eq_some, Option.some.injEq, Bool.or_eq_true, decide_eq_true_eq, not_or] at h
  omega

omit crates in
theorem SrvRecordValue.parse_stored {v : Text} {p : Option ℤ} {srv : SrvRecordValue}
    (h : SrvRecordValue.parse v p = .ok srv) :
    SrvRecordValue.parse srv.encoded p = .ok ⟨srv.priority, srv.weight, srv.port, toFqdnLowercase srv.target⟩ := by
  obtain ⟨w, o, hfields, hw, ho, h0, h1, hprio⟩ := SrvRecordValue.parse_eq_ok.1 h
  have hws := (not_isWhitespace_of_mem_splitWhitespace (t := v) (l := srv.target) (by simp [hfields])).2
  refine SrvRecordValue.parse_eq_ok.2 ⟨_, _, ?_, parseUnsigned_natText.2 ⟨rfl, le_of_parseUnsigned hw⟩,
    parseUnsigned_natText.2 ⟨rfl, le_of_parseUnsigned ho⟩, h0, h1, hprio⟩
  rw [SrvRecordValue.encoded, splitWhitespace_srv,
    splitWhitespace_eq_singleton (toFqdnLowercase_ne_nil _) (not_isWhitespace_of_mem_toFqdnLowercase hws)]

omit crates in
theorem SrvRecordValue.parse_encoded {weight port : ℕ} {target : Text} {priority : Option ℤ} {srv : SrvRecordValue}
    (h : SrvRecordValue.parse (natText weight ++ [' '] ++ natText port ++ [' '] ++ target) priority = .ok srv) :
    srv.weight = weight ∧ srv.port = port ∧ srv.target = trim target ∧
      (∀ n : ℕ, priority = some (n : ℤ) → srv.priority = n) ∧
      SrvRecordValue.parse srv.encoded priority =
        .ok ⟨srv.priority, srv.weight, srv.port, toFqdnLowercase srv.target⟩ := by
  obtain ⟨w, p, hfields, hw, hp, h0, h1, hprio⟩ := SrvRecordValue.parse_eq_ok.1 h
  rw [splitWhitespace_srv, List.cons.injEq, List.cons.injEq] at hfields
  obtain ⟨rfl, rfl, hsplit⟩ := hfields
  refine ⟨(parseUnsigned_natText.1 hw).1, (parseUnsigned_natText.1 hp).1, (trim_eq_of_splitWhitespace hsplit).symm, ?_,
    SrvRecordValue.parse_stored h⟩
  rintro n rfl
  simpa using hprio

omit crates in
theorem isTarget_of_parseHost {field v stored : Text} (h : (parseHost field (trim v)).map toFqdnLowercase = .ok stored) :
    IsTarget (trim v) ∧ stored = toFqdnLowercase (trim v) := by
  obtain ⟨_, hparse, rfl⟩ := Fallible.map_eq_ok.1 h
  obtain ⟨_, hvalid, hparse⟩ := Fallible.bind_eq_ok.1 hparse
  cases hparse
  exact ⟨.inr ⟨field, hvalid⟩, rfl⟩

theorem exists_served_name (hcrates : crates.Rfc1035Wire) {n : Name} {v : Text} (data : Name → Rdata)
    (hdata : ∀ m, (data m).lower = (data n).lower ↔ m.lower = n.lower) (hnames : (data n).names = [n])
    (hv : presentationName n = .ok v) (htarget : IsTarget (trim v)) :
    ∃ d, (parseName (toFqdnLowercase (trim v))).toOption.map data = some d ∧
      (d.lower = (data n).lower ↔ ∀ m ∈ (data n).names, startsWithSpace m = false) := by
  obtain ⟨m, hm, heq⟩ := exists_parseName_presented hcrates hv htarget
  refine ⟨data m, by rw [hm]; rfl, ?_⟩
  rw [hdata, heq, hnames]
  simp

/-- **The rdata of a record.**  What is stored for the rdata of a message is served as that rdata,
up to case, when no name in it begins with white space. -/
theorem Presents.served (hcrates : crates.Rfc1035Wire) (hbase64 : crates.Base64RoundTrip) (htxt : crates.TxtOctets)
    {d : Rdata} {t : RecordType} {value : Text} {priority : Option ℤ} (h : Presents d t value priority)
    (hlen : ∀ octets, d = .txt octets → octets.length ≤ 65535) {r : RecordData} (ht : r.recordType = t)
    (hp : r.priority = priority) (hvalue : updateValue t value priority = .ok r.value) :
    ∃ d', r.served = some d' ∧ (d'.lower = d.lower ↔ ∀ n ∈ d.names, startsWithSpace n = false) := by
  unfold RecordData.served
  rw [ht, hp]
  cases h with
  | a addr =>
      obtain ⟨addr', haddr, e⟩ := Fallible.map_eq_ok.1 (Fallible.mapError_eq_ok.1 hvalue)
      rw [trim_eq_self fun c => not_isWhitespace_of_mem_ipv4Text, parseA, parseIpv4_ipv4Text] at haddr
      cases haddr
      refine ⟨.a addr, ?_, by simp [Rdata.names]⟩
      simp only [← e, parseIpv4_ipv4Text, Option.map_some]
  | aaaa addr =>
      obtain ⟨addr', haddr, e⟩ := Fallible.map_eq_ok.1 (Fallible.mapError_eq_ok.1 hvalue)
      rw [trim_eq_self fun c => not_isWhitespace_of_mem_ipv6Text, parseAaaa, parseIpv6_ipv6Text] at haddr
      cases haddr
      refine ⟨.aaaa addr, ?_, by simp [Rdata.names]⟩
      simp only [← e, parseIpv6_ipv6Text, Option.map_some]
  | ns hv =>
      obtain ⟨htarget, e⟩ := isTarget_of_parseHost (Fallible.mapError_eq_ok.1 hvalue)
      rw [e]
      exact exists_served_name hcrates .ns (by simp [Rdata.lower]) rfl hv htarget
  | cname hv =>
      obtain ⟨htarget, e⟩ := isTarget_of_parseHost (Fallible.mapError_eq_ok.1 hvalue)
      rw [e]
      exact exists_served_name hcrates .cname (by simp [Rdata.lower]) rfl hv htarget
  | ptr hv =>
      obtain ⟨htarget, e⟩ := isTarget_of_parseHost (Fallible.mapError_eq_ok.1 hvalue)
      rw [e]
      exact exists_served_name hcrates .ptr (by simp [Rdata.lower]) rfl hv htarget
  | @mx preference exchange v hv =>
      obtain ⟨mx, hmx, h⟩ := Fallible.bind_eq_ok.1 (Fallible.mapError_eq_ok.1 hvalue)
      obtain ⟨_, hvalid, e⟩ := Fallible.bind_eq_ok.1 h
      obtain ⟨htarget, hprio, hparse⟩ := MxRecordValue.parse_encoded (MxRecordValue.parse_of_trim hmx)
      have hok := isTarget_mx hmx hvalid
      rw [Except.ok.inj e, hprio _ rfl] at hparse
      rw [htarget] at hparse hok
      simp only [toOption_eq_some.2 hparse, Option.bind_eq_bind, Option.bind_some]
      exact exists_served_name hcrates (.mx preference) (by simp [Rdata.lower]) rfl hv hok
  | @srv prio weight port target v hv =>
      obtain ⟨srv, hsrv, h⟩ := Fallible.bind_eq_ok.1 (Fallible.mapError_eq_ok.1 hvalue)
      obtain ⟨_, hvalid, e⟩ := Fallible.bind_eq_ok.1 h
      obtain ⟨rfl, rfl, htarget, hprio, hparse⟩ := SrvRecordValue.parse_encoded (SrvRecordValue.parse_of_trim hsrv)
      have hok := isTarget_srv hsrv hvalid
      rw [Except.ok.inj e, hprio _ rfl] at hparse
      rw [htarget] at hparse hok
      simp only [toOption_eq_some.2 hparse, Option.bind_eq_bind, Option.bind_some]
      exact exists_served_name hcrates (.srv prio srv.weight srv.port) (by simp [Rdata.lower]) rfl hv hok
  | txt hchunks hutf8 =>
      have e : r.value = txtIntoEncoded _ := (Except.ok.inj hvalue).symm
      have hok := (Presents.txt hchunks hutf8).isTxtRdata htxt
      have hs := (served_txt hcrates hbase64 ht e hok).2 ⟨rfl, hlen _ rfl⟩
      unfold RecordData.served at hs
      rw [ht] at hs
      exact ⟨_, hs, by simp [Rdata.names]⟩

/-! ### Additions -/

theorem addRecord_eq_new {zone : Zone} {serial : ℤ} {name value : Text} {t : RecordType} {ttl : ℤ}
    {priority : Option ℤ} {tx tx' : Tx} (h : addRecord zone serial name t value ttl priority tx = .ok (tx', true)) :
    ∃ r : Record, tx'.store.records = tx.store.records ++ [r] ∧ RowOk r.toRecordData ∧
      ownerInZone name zone.name = .ok r.name ∧ updateValue t value priority = .ok r.value ∧
      r.recordType = t ∧ r.ttl = ttl ∧ r.priority = priority := by
  unfold addRecord at h
  obtain ⟨owner, howner, h⟩ := Fallible.bind_eq_ok.1 h
  obtain ⟨stored, hstored, h⟩ := Fallible.bind_eq_ok.1 h
  obtain ⟨outcome, hout, h⟩ := Fallible.bind_eq_ok.1 h
  cases outcome with
  | duplicate => cases h
  | new =>
      cases h
      refine ⟨_, rfl, ?_, howner, hstored, rfl, rfl, rfl⟩
      have hout := Fallible.mapError_eq_ok.1 hout
      unfold validateAdd at hout
      split at hout
      · cases hout
      · obtain ⟨_, hok, _⟩ := Fallible.bind_eq_ok.1 hout
        exact (validateRecordAddConstraints_eq_ok.1 hok).1

theorem parseRr_name {message : List UInt8} {pos next next' : ℕ} {n : Name} {rr : UpdateRecord}
    (hn : crates.parsedName message pos = some (n, next)) (h : parseRr message pos = .ok (rr, next')) :
    presentationName n = .ok rr.name ∧ rr.rdata.length ≤ message.length := by
  unfold parseRr at h
  rw [hn] at h
  obtain ⟨⟨_, _⟩, hread, h⟩ := Fallible.bind_eq_ok.1 h
  cases hread
  obtain ⟨name, hname, h⟩ := Fallible.bind_eq_ok.1 h
  obtain ⟨⟨_, _⟩, _, h⟩ := Fallible.bind_eq_ok.1 h
  obtain ⟨⟨_, _⟩, _, h⟩ := Fallible.bind_eq_ok.1 h
  obtain ⟨⟨_, _⟩, _, h⟩ := Fallible.bind_eq_ok.1 h
  obtain ⟨⟨_, _⟩, _, h⟩ := Fallible.bind_eq_ok.1 h
  obtain ⟨⟨_, _⟩, _, h⟩ := Fallible.bind_eq_ok.1 h
  cases h
  refine ⟨hname, ?_⟩
  simp only [List.length_take, List.length_drop]
  omega

theorem wireRdata_txt {message : List UInt8} {rr : UpdateRecord} {octets : List UInt8}
    (h : wireRdata message rr = some (.txt octets)) : octets = rr.rdata ∧ rr.rrType = 16 := by
  unfold wireRdata at h
  split at h <;> simp at h
  rename_i ht
  exact ⟨h.2.symm, ht⟩

omit crates in
theorem asU32_of_le {n : ℕ} (h : n ≤ 2147483647) : asU32 (n : ℤ) = n := by
  unfold asU32
  omega

/-- The record `add_record` composes from a row. -/
def Composes (zone : ZoneName) (r : Record) (x : ResourceRecord) : Prop :=
  ∀ b : DnsMessageBuilder, b.addRecord r zone = .ok (b.pushAnswer x)

theorem composes_iff {zone : ZoneName} {r : Record} {x : ResourceRecord} (hsoa : r.recordType ≠ .soa) :
    Composes zone r x ↔ parseName (r.name.toFqdn zone) = .ok x.owner ∧ r.toRecordData.served = some x.data ∧
      x.ttl = asU32 r.ttl := by
  unfold Composes DnsMessageBuilder.addRecord
  simp only [addRecordParts_eq_ok hsoa]
  constructor
  · intro h
    obtain ⟨n, d, hn, hd, e⟩ := h (DnsMessageBuilder.new 0 Name.root 0)
    have e := congrArg DnsMessageBuilder.answers e
    simp only [DnsMessageBuilder.pushAnswer, DnsMessageBuilder.addAnswer, DnsMessageBuilder.new, List.nil_append,
      List.cons.injEq, and_true] at e
    subst e
    exact ⟨hn, hd, rfl⟩
  · rintro ⟨hn, hd, e⟩ b
    exact ⟨x.owner, x.data, hn, hd, by rw [← e]; rfl⟩

/-- **Additions are served unchanged** exactly when the owner is ASCII and neither the owner nor a
name in the rdata begins with white space. -/
theorem addRecord_served (hcrates : crates.Rfc1035Wire) (hbase64 : crates.Base64RoundTrip) (htxt : crates.TxtOctets)
    {message : List UInt8} (hlen : message.length ≤ 65535) {pos next next' : ℕ} {n : Name} {rr : UpdateRecord}
    (hn : crates.parsedName message pos = some (n, next)) (hrr : parseRr message pos = .ok (rr, next'))
    {name value : Text} {t : RecordType} {ttl : ℤ} {priority : Option ℤ}
    (hop : decodeUpdate message rr = .ok (.add name t value ttl priority)) {zone : Zone} {serial : ℤ} {tx tx' : Tx}
    (hadd : addRecord zone serial name t value ttl priority tx = .ok (tx', true)) :
    ∃ d r, wireRdata message rr = some d ∧ tx'.store.records = tx.store.records ++ [r] ∧
      ((∃ x, Composes zone.name r x ∧ x.lower = ResourceRecord.lower ⟨n, rr.ttl, d⟩) ↔
        isAsciiName n = true ∧ ∀ m ∈ n :: d.names, startsWithSpace m = false) := by
  obtain ⟨hname, hrdata⟩ := parseRr_name hn hrr
  obtain ⟨-, rfl, hvalue, rfl, httl⟩ := decodeUpdate_add hop
  obtain ⟨d, hd, hpres⟩ := rrToRecordValue_presents hvalue
  obtain ⟨r, hrecords, hrow, howner, hstored, ht, hrttl, hprio⟩ := addRecord_eq_new hadd
  refine ⟨d, r, hd, hrecords, ?_⟩
  have hsmall : ∀ octets, d = .txt octets → octets.length ≤ 65535 := by
    rintro octets rfl
    rw [(wireRdata_txt hd).1]
    omega
  obtain ⟨d', hserved, hdata⟩ := hpres.served hcrates hbase64 htxt hsmall ht hprio hstored
  obtain ⟨ls, hls, hls'⟩ := presentationName_eq_ok.1 hname
  have hne : ls ≠ [] := by
    rintro rfl
    rw [if_pos rfl] at hls'
    rw [hls'] at howner
    cases howner
  rw [if_neg hne] at hls'
  rw [hls', ownerInZone_eq_ok hls hne] at howner
  simp only [composes_iff hrow.notSoa, parseName_toFqdn hcrates, hrttl, asU32_of_le httl, hserved, Option.some.injEq,
    List.forall_mem_cons, ← hdata]
  constructor
  · rintro ⟨x, ⟨⟨hprint, hlabels⟩, rfl, hx⟩, e⟩
    simp only [ResourceRecord.lower, ResourceRecord.mk.injEq] at e
    have hspace := (trimFirst_eq_iff hls (hlabels.trans (by rw [howner]))).1 e.1
    refine ⟨?_, hspace, e.2.2⟩
    rw [← isAsciiName_lower, ← e.1, isAsciiName_lower, ← printable_iff_isAsciiName hlabels]
    exact hprint
  · rintro ⟨hascii, hspace, hd'⟩
    have hlower : n.lower.labels = wireLabels (r.name.absoluteLabels zone.name) := by
      rw [lower_labels_eq hls, howner, (startsWithSpace_eq_false hls).1 hspace]
    refine ⟨⟨n.lower, rr.ttl, d'⟩, ⟨⟨?_, hlower⟩, rfl, rfl⟩, ?_⟩
    · rwa [printable_iff_isAsciiName hlower, isAsciiName_lower]
    · have e : n.lower.lower = n.lower := (trimFirst_eq_iff hls (hlower.trans (by rw [howner]))).2 hspace
      simp only [ResourceRecord.lower, hd', e]

end Served

section Sample

attribute [local instance] sampleCrates

/-- The record `<label>.example.com. 3600 IN A 192.0.2.1`. -/
def addressRr (label : String) : List UInt8 :=
  characterString (lit label) ++ characterString (lit "example") ++ characterString (lit "com") ++
    [0, 0, 1, 0, 1, 0, 0, 14, 16, 0, 4, 192, 0, 2, 1]

/-- A record whose owner begins with a space is stored, and served under another name. -/
theorem addRecord_space :
    ∃ st ∈ (run [.createZone .global sampleZone]).stores, ∃ n next rr next' name t value ttl priority tx' r x,
      sampleCrates.parsedName (addressRr " www") 0 = some (n, next) ∧
      parseRr (addressRr " www") 0 = .ok (rr, next') ∧
      decodeUpdate (addressRr " www") rr = .ok (.add name t value ttl priority) ∧
      addRecord st.zone 2 name t value ttl priority ⟨st, 10⟩ = .ok (tx', true) ∧
      tx'.store.records = st.records ++ [r] ∧ Composes st.zone.name r x ∧ x.owner.lower ≠ n.lower := by
  obtain ⟨n, next, hn, hspace⟩ : ∃ n next, sampleCrates.parsedName (addressRr " www") 0 = some (n, next) ∧
      n.lower.labels.head? = some (asBytes (lit " www")) := ⟨_, _, rfl, rfl⟩
  obtain ⟨rr, next', hrr, hop⟩ : ∃ rr next', parseRr (addressRr " www") 0 = .ok (rr, next') ∧
      decodeUpdate (addressRr " www") rr =
        .ok (.add (lit " www.example.com.") .a (lit "192.0.2.1") 3600 none) := ⟨_, _, rfl, rfl⟩
  obtain ⟨st, hst, hadd⟩ : ∃ st ∈ (run [.createZone .global sampleZone]).stores,
      (addRecord st.zone 2 (lit " www.example.com.") .a (lit "192.0.2.1") 3600 none ⟨st, 10⟩).toOption.any
        (fun s => s.2 && s.1.store.records.getLast?.any fun r => r.name.labels == [lit "www"]) = true := by
    decide +kernel
  obtain ⟨⟨tx', new⟩, hadd, hnew⟩ := (Option.any_eq_true _ _).1 hadd
  obtain ⟨rfl, hlast⟩ := Bool.and_eq_true_iff.1 hnew
  have hadd := toOption_eq_some.1 hadd
  obtain ⟨r, hrecords, hrow, howner, -, ht, -⟩ := @addRecord_eq_new sampleCrates _ _ _ _ _ _ _ _ _ hadd
  have hlabels : r.name.labels = [lit "www"] := by
    rw [hrecords] at hlast
    simpa using hlast
  obtain ⟨owner, howner⟩ := (@exists_parseName_toFqdn sampleCrates sampleCrates_wire r.name st.zone.name).2
    ⟨by rw [OwnerName.Printable, hlabels]; decide +kernel, fits_of_ownerInZone howner⟩
  obtain ⟨d, hd, -⟩ := @RowOk.exists_served sampleCrates sampleCrates_wire _ hrow (by simp [ht])
  refine ⟨st, hst, n, next, rr, next', _, _, _, _, _, tx', r, ⟨owner, asU32 r.ttl, d⟩, hn, hrr, hop, hadd, hrecords,
    (@composes_iff sampleCrates _ _ _ hrow.notSoa).2 ⟨howner, hd, rfl⟩, fun e => ?_⟩
  have hlower := ((@parseName_toFqdn sampleCrates sampleCrates_wire _ _ _).1 howner).2
  have hhead : owner.lower.labels.head? = some (asBytes (lit "www")) := by
    simp only [Name.lower_labels, hlower, OwnerName.absoluteLabels, hlabels]
    rfl
  rw [e, hspace] at hhead
  cases hhead

theorem addRecord_served_www :
    ∃ st ∈ (run [.createZone .global sampleZone]).stores, ∃ n next rr next' tx' d r x,
      sampleCrates.parsedName (addressRr "WWW") 0 = some (n, next) ∧
      parseRr (addressRr "WWW") 0 = .ok (rr, next') ∧
      addRecord st.zone 2 rr.name .a (lit "192.0.2.1") 3600 none ⟨st, 10⟩ = .ok (tx', true) ∧
      wireRdata (addressRr "WWW") rr = some d ∧ tx'.store.records = st.records ++ [r] ∧
      Composes st.zone.name r x ∧ x.lower = ResourceRecord.lower ⟨n, rr.ttl, d⟩ := by
  obtain ⟨n, next, hn, hascii, hspace⟩ : ∃ n next, sampleCrates.parsedName (addressRr "WWW") 0 = some (n, next) ∧
      isAsciiName n = true ∧ startsWithSpace n = false := ⟨_, _, rfl, rfl, rfl⟩
  obtain ⟨rr, next', hrr, hop, hname, d, hd, hnames⟩ : ∃ rr next',
      parseRr (addressRr "WWW") 0 = .ok (rr, next') ∧
      decodeUpdate (addressRr "WWW") rr = .ok (.add rr.name .a (lit "192.0.2.1") 3600 none) ∧
      rr.name = lit "WWW.example.com." ∧ ∃ d, wireRdata (addressRr "WWW") rr = some d ∧ d.names = [] :=
    ⟨_, _, rfl, rfl, rfl, _, rfl, rfl⟩
  obtain ⟨st, hst, hadd⟩ : ∃ st ∈ (run [.createZone .global sampleZone]).stores,
      (addRecord st.zone 2 (lit "WWW.example.com.") .a (lit "192.0.2.1") 3600 none ⟨st, 10⟩).toOption.any
        (fun s => s.2) = true := by
    decide +kernel
  obtain ⟨⟨tx', _⟩, hadd, rfl⟩ := (Option.any_eq_true _ _).1 hadd
  rw [← hname] at hadd
  obtain ⟨d', r, hd', hrecords, hiff⟩ := @addRecord_served sampleCrates sampleCrates_wire sampleCrates_base64
    sampleCrates_txt _ (by decide) _ _ _ _ _ hn hrr _ _ _ _ _ hop st.zone 2 ⟨st, 10⟩ tx' (toOption_eq_some.1 hadd)
  rw [hd] at hd'
  cases hd'
  obtain ⟨x, hx, heq⟩ := hiff.2 ⟨hascii, by simpa [hnames] using hspace⟩
  exact ⟨st, hst, n, next, rr, next', tx', d, r, x, hn, hrr, toOption_eq_some.1 hadd, hd, hrecords, hx, heq⟩

end Sample

end Bindizr
