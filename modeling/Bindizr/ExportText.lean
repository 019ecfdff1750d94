import Bindizr.IxfrEquivalence
import Bindizr.SoaFields
import Bindizr.Spelling
import Bindizr.TxtForms

/-! # The text of an exported zone file

`export_zone_file` writes an origin, a default TTL, the SOA and one line for each row.  A reader of master files finds
in it the records the rows are served as, when they can be served (`readMasterFile_export`): owners are read relative to
the origin, the escapes of labels and the quotes around character-strings are undone, and the priority of an MX or SRV
row stands before its value. -/

namespace Bindizr

open Rfc1035 (Name Rdata ResourceRecord OctetText LabelText LabelsText Graphic Field Line Rtype isPrintable isPlain isFieldText
  isInner readFileName readRdata Scans IsRecord)

/-! ### Labels -/

theorem octetText_ite {c : Char} {p : Prop} [Decidable p] (hprint : isPrintable c = true) (hspace : c ≠ ' ')
    (hdigit : p → isAsciiDigit c = false) (hplain : ¬ p → c ≠ '.' ∧ c ≠ '\\') :
    OctetText (UInt8.ofNat c.toNat) (if p then ['\\', c] else [c]) := by
  split
  · rename_i h
    exact .escaped hprint (hdigit h)
  · rename_i h
    exact .plain (by simp [isPlain, hprint, hspace, hplain h])

theorem isFieldText_ite {c : Char} {p : Prop} [Decidable p] (hprint : isPrintable c = true)
    (hinner : ¬ p → isInner false c = true) : isFieldText false (if p then ['\\', c] else [c]) = true := by
  split
  · simp [isFieldText, hprint]
  · rename_i h
    rw [Rfc1035.isFieldText_cons (hinner h)]
    rfl

theorem isInner_of_not_mem_escapedInLabel {c : Char} (hprint : isPrintable c = true) (hspace : c ≠ ' ')
    (h : c ∉ escapedInLabel) : isInner false c = true := by
  have hcontrol : c ≠ '\t' ∧ c ≠ '\n' := by
    refine ⟨?_, ?_⟩ <;> (rintro rfl; cases hprint)
  simp only [escapedInLabel, List.mem_cons, List.not_mem_nil, or_false, not_or] at h
  obtain ⟨-, hslash, -, hsemi, hopen, hclose, hquote, -⟩ := h
  simp [isInner, Rfc1035.Scanner.endsField, hprint, hspace, hcontrol, hslash, hsemi, hopen, hclose, hquote]

theorem labelText_escapeLabel {l : Text} (h : Graphic l) : LabelText (asBytes l) (escapeLabel l) := by
  refine Rfc1035.labelText_flatMap (fun c hc => ?_) fun c hc => (h c hc).1
  refine octetText_ite (h c hc).1 (h c hc).2 isAsciiDigit_eq_false_of_escaped fun hesc => ⟨?_, ?_⟩
  · rintro rfl
    exact hesc (by simp [escapedInLabel])
  · rintro rfl
    exact hesc (by simp [escapedInLabel])

theorem isFieldText_escapeLabel {l : Text} (h : Graphic l) : isFieldText false (escapeLabel l) = true :=
  Rfc1035.isFieldText_flatMap fun c hc =>
    isFieldText_ite (h c hc).1 (isInner_of_not_mem_escapedInLabel (h c hc).1 (h c hc).2)

theorem isInner_dot : isInner false '.' = true := rfl

theorem labelsText_joinLabels {ls : List Text} (hne : ls ≠ []) (h : ∀ l ∈ ls, Graphic l) :
    LabelsText (wireLabels ls) (joinLabels ls) ∧ isFieldText false (joinLabels ls) = true := by
  induction ls with
  | nil => exact absurd rfl hne
  | cons l ls ih =>
      have hl := h l (by simp)
      cases ls with
      | nil =>
          rw [joinLabels_singleton]
          exact ⟨.single (labelText_escapeLabel hl), isFieldText_escapeLabel hl⟩
      | cons m ls =>
          obtain ⟨htext, hfield⟩ := ih (by simp) fun k hk => h k (by simp [hk])
          rw [joinLabels_cons_cons]
          refine ⟨.cons (labelText_escapeLabel hl) htext, Rfc1035.isFieldText_append (isFieldText_escapeLabel hl) ?_⟩
          rw [Rfc1035.isFieldText_cons isInner_dot]
          exact hfield

theorem isWritten_word {t : Text} (h : isFieldText false t = true) (hne : t ≠ []) : Field.IsWritten ⟨false, t⟩ :=
  ⟨h, fun _ => hne⟩

theorem isFieldText_fqdn {t : Text} (h : isFieldText false t = true) : Field.IsWritten ⟨false, t ++ ['.']⟩ :=
  isWritten_word (Rfc1035.isFieldText_append h rfl) (by simp)

/-! ### Owners -/

theorem graphic_of_classifyDomainLabel {l : Text} {u : Bool} (h : classifyDomainLabel l u = .ok ()) : Graphic l := by
  intro c hc
  have hldh := (classifyDomainLabel_eq_ok.1 h).2.2.1 c hc
  refine ⟨isPrintable_of_isLdh hldh, ?_⟩
  rintro rfl
  cases u <;> cases hldh

theorem ZoneName.graphic (z : ZoneName) : ∀ l ∈ z.labels, Graphic l := fun l hl =>
  graphic_of_classifyDomainLabel (z.isZoneText.2 l hl).1

theorem OwnerName.graphic {o : OwnerName} (h : o.Printable) : ∀ l ∈ o.labels, Graphic l := by
  intro l hl c hc
  refine ⟨h l hl c hc, ?_⟩
  rintro rfl
  have hspace := (classifyOwnerLabel_eq_ok.1 (o.isOwner.1 l hl).1).2.2
  rw [hasWhitespaceOrControl, List.any_eq_false] at hspace
  exact hspace ' ' hc rfl

def ZoneName.wireName (z : ZoneName) : Name where
  labels := wireLabels z.labels
  isName := (isName_wireLabels fun l hl => by
    obtain ⟨hne, hle, _⟩ := classifyDomainLabel_eq_ok.1 (z.isZoneText.2 l hl).1
    exact ⟨hne, hle⟩).2 z.wireLen_labels

theorem ZoneName.labelsText (z : ZoneName) : LabelsText z.wireName.labels z.text ∧ isFieldText false z.text = true := by
  have h := labelsText_joinLabels z.labels_ne_nil z.graphic
  rwa [z.joinLabels_labels] at h

theorem ZoneName.readFileName_text (z : ZoneName) (origin : Option Name) :
    readFileName origin (z.text ++ ['.']) = some z.wireName := z.labelsText.1.readFileName origin

theorem head?_joinLabels {l : Text} {ls : List Text} (hl : l ≠ []) {c : Char} (h : (joinLabels (l :: ls)).head? = some c) :
    c = '\\' ∨ c ∉ escapedInLabel := by
  obtain ⟨d, l, rfl⟩ := List.exists_cons_of_ne_nil hl
  have hhead : ∀ t : Text, (escapeLabel (d :: l) ++ t).head? = some c → c = '\\' ∨ c ∉ escapedInLabel := by
    intro t h
    rw [escapeLabel_cons] at h
    split at h
    · exact .inl (Option.some.inj h).symm
    · rename_i hesc
      cases h
      exact .inr hesc
  cases ls with
  | nil => exact hhead [] (by rwa [List.append_nil, ← joinLabels_singleton])
  | cons m ls => exact hhead _ (joinLabels_cons_cons .. ▸ h)

namespace OwnerName

variable {o : OwnerName}

theorem head?_display (o : OwnerName) : o.display.head? ≠ some '$' := by
  unfold display
  split
  · simp
  · rename_i hne
    obtain ⟨l, ls, e⟩ := List.exists_cons_of_ne_nil fun h => hne (isApex_iff.2 h)
    have hl := (classifyOwnerLabel_eq_ok.1 (o.isOwner.1 l (by simp [e])).1).1
    rw [e]
    intro h
    rcases head?_joinLabels hl h with h | h
    · cases h
    · exact h (by simp [escapedInLabel])

theorem isWritten_display (h : o.Printable) : Field.IsWritten ⟨false, o.display⟩ := by
  unfold display
  split
  · exact ⟨rfl, by simp⟩
  · rename_i hne
    have hlabels : o.labels ≠ [] := fun h => hne (isApex_iff.2 h)
    refine isWritten_word (labelsText_joinLabels hlabels (o.graphic h)).2 ?_
    rw [ne_eq, joinLabels_eq_nil o.isOwner.1]
    exact hlabels

theorem readFileName_display (h : o.Printable) {zone : ZoneName} {n : Name} (hn : n.labels = wireLabels (o.absoluteLabels zone)) :
    readFileName (some zone.wireName) o.display = some n := by
  unfold display
  split
  · rename_i hapex
    rw [readFileName, if_pos rfl, Option.some.injEq, Rfc1035.Name.ext_iff, hn, absoluteLabels, isApex_iff.1 hapex]
    rfl
  · rename_i hne
    obtain ⟨l, ls, e⟩ := List.exists_cons_of_ne_nil fun h => hne (isApex_iff.2 h)
    have hl := (classifyOwnerLabel_eq_ok.1 (o.isOwner.1 l (by simp [e])).1).1
    have hlabels : o.labels ≠ [] := by simp [e]
    refine (labelsText_joinLabels hlabels (o.graphic h)).1.readFileName_relative ?_ ?_
    · intro hat
      rw [e] at hat
      rcases head?_joinLabels hl (c := '@') (by rw [hat]; rfl) with h | h
      · cases h
      · exact h (by simp [escapedInLabel])
    · rw [hn, absoluteLabels]
      exact List.map_append ..

end OwnerName

/-! ### Rdata -/

def RecordType.rtype : RecordType → Rtype
  | .a => .a
  | .aaaa => .aaaa
  | .cname => .cname
  | .mx => .mx
  | .txt => .txt
  | .ns => .ns
  | .soa => .soa
  | .srv => .srv
  | .ptr => .ptr

theorem RecordType.lookup_asStr (t : RecordType) : Rtype.mnemonics.lookup (toAsciiLowercase t.asStr) = some t.rtype := by
  cases t <;> decide +kernel

theorem RecordType.isWritten_asStr (t : RecordType) : Field.IsWritten ⟨false, t.asStr⟩ := by
  cases t <;> exact ⟨by decide +kernel, fun _ => by decide⟩

theorem isWritten_address {t : Text} (h : ∀ c ∈ t, c ∈ addressChars) (hne : t ≠ []) : Field.IsWritten ⟨false, t⟩ := by
  have hall : addressChars.all (isInner false) = true := by decide +kernel
  exact isWritten_word (Rfc1035.isFieldText_of_all fun c hc => List.all_eq_true.1 hall c (h c hc)) hne

theorem isWritten_ipv4Text (addr : Ipv4Addr) : Field.IsWritten ⟨false, ipv4Text addr⟩ := by
  refine isWritten_address (fun c => mem_addressChars_of_mem_ipv4Text) fun h => ?_
  have hparse := parseIpv4_ipv4Text addr
  rw [h] at hparse
  cases hparse

theorem isWritten_ipv6Text (addr : Ipv6Addr) : Field.IsWritten ⟨false, ipv6Text addr⟩ := by
  refine isWritten_address (fun c => mem_addressChars_of_mem_ipv6Text) fun h => ?_
  have hparse := parseIpv6_ipv6Text addr
  rw [h] at hparse
  cases hparse

theorem IsStoredTarget.eq_joinLabels {x : Text} (h : IsStoredTarget x) : x = joinLabels (targetLabels x) ++ ['.'] ∧
    ∀ l ∈ targetLabels x, classifyDomainLabel l true = .ok () := by
  obtain ⟨e, hlabels⟩ := h.target.canonical
  have hlower := h.target.labels_stored
  rw [h.stored] at e hlower
  rw [← joinLabels_map_lowercase, hlower] at e
  exact ⟨e, hlabels⟩

theorem IsStoredTarget.isWritten {x : Text} (h : IsStoredTarget x) : Field.IsWritten ⟨false, x⟩ := by
  obtain ⟨e, hlabels⟩ := h.eq_joinLabels
  rw [e]
  by_cases hnil : targetLabels x = []
  · rw [hnil]
    exact ⟨rfl, by simp⟩
  · exact isFieldText_fqdn (labelsText_joinLabels hnil fun l hl => graphic_of_classifyDomainLabel (hlabels l hl)).2

section Rows

variable [crates : Crates]

theorem IsStoredTarget.readFileName (hwire : crates.Rfc1035Wire) {x : Text} (h : IsStoredTarget x) {n : Name}
    (hn : parseName x = .ok n) (origin : Option Name) : readFileName origin x = some n := by
  obtain ⟨n', hn', hlabels⟩ := exists_parseName_target hwire h.target
  rw [hn] at hn'
  cases hn'
  obtain ⟨e, hvalid⟩ := h.eq_joinLabels
  by_cases hnil : targetLabels x = []
  · have hroot : x = ['.'] := by
      rw [e, hnil]
      rfl
    rw [hroot, Rfc1035.readFileName, if_neg (by decide), if_pos rfl, Option.some.injEq, Rfc1035.Name.ext_iff, hlabels, hnil]
    rfl
  · have htext := (labelsText_joinLabels hnil fun l hl => graphic_of_classifyDomainLabel (hvalid l hl)).1
    rw [← hlabels] at htext
    rw [e]
    exact htext.readFileName origin

omit crates in
theorem charStringFrom_quotedOctet (b : UInt8) (t : Text) :
    Rfc1035.charStringFrom (quotedOctet b ++ t) = (Rfc1035.charStringFrom t).map (b :: ·) := by
  have hb := b.toNat_lt
  unfold quotedOctet
  split
  · rename_i h
    rw [h]
    exact Rfc1035.charStringFrom_escaped rfl rfl t
  split
  · rename_i h
    rw [h]
    exact Rfc1035.charStringFrom_escaped rfl rfl t
  split
  · rename_i hslash hprint
    have hc : (Char.ofNat b.toNat).toNat = b.toNat := toNat_ofNat hb
    rw [List.singleton_append, Rfc1035.charStringFrom_plain, hc, UInt8.ofNat_toNat]
    · simp [isPrintable, hc, hprint]
    · intro e
      rw [e] at hc
      exact hslash (UInt8.toNat_inj.1 hc.symm)
  · have hx := digit_ofNat (n := b.toNat / 100) (by omega)
    have hy := digit_ofNat (n := b.toNat / 10 % 10) (by omega)
    have hz := digit_ofNat (n := b.toNat % 10) (by omega)
    have hvalue : 100 * (b.toNat / 100) + 10 * (b.toNat / 10 % 10) + b.toNat % 10 = b.toNat := by omega
    refine (Rfc1035.charStringFrom_decimal hx.1 hy.1 hz.1 ?_ t).trans ?_
    · rw [hx.2, hy.2, hz.2, hvalue]
      omega
    · rw [hx.2, hy.2, hz.2, hvalue, UInt8.ofNat_toNat]

omit crates in
theorem charStringFrom_octets (octets : List UInt8) : Rfc1035.charStringFrom (octets.flatMap quotedOctet) = some octets := by
  induction octets with
  | nil => rfl
  | cons b octets ih => rw [List.flatMap_cons, charStringFrom_quotedOctet, ih, Option.map_some]

omit crates in
theorem isFieldText_quotedOctet (b : UInt8) : isFieldText true (quotedOctet b) = true := by
  have hb := b.toNat_lt
  have hinner : ∀ {c : Char}, isPrintable c = true → c ≠ '"' → c ≠ '\\' → isFieldText true [c] = true := by
    intro c hprint hquote hslash
    rw [Rfc1035.isFieldText_cons (by simp [isInner, hprint, hquote, hslash])]
    rfl
  have hdigit : ∀ {n : ℕ}, n < 10 → isPrintable (Char.ofNat (48 + n)) = true ∧ isFieldText true [Char.ofNat (48 + n)] = true := by
    intro n hn
    have hd := (digit_ofNat hn).1
    have hprint := isPrintable_of_isAsciiDigit hd
    refine ⟨hprint, hinner hprint ?_ ?_⟩ <;> (intro e; rw [e] at hd; cases hd)
  unfold quotedOctet
  split
  · rfl
  split
  · rfl
  split
  · rename_i hquote hslash hprint
    have hc : (Char.ofNat b.toNat).toNat = b.toNat := toNat_ofNat hb
    refine hinner (by simp [isPrintable, hc, hprint]) ?_ ?_
    · intro e
      rw [e] at hc
      exact hquote (UInt8.toNat_inj.1 hc.symm)
    · intro e
      rw [e] at hc
      exact hslash (UInt8.toNat_inj.1 hc.symm)
  · rw [isFieldText, (hdigit (by omega)).1, Bool.true_and]
    exact Rfc1035.isFieldText_append (hdigit (by omega)).2 (hdigit (by omega)).2

omit crates in
theorem mapM_eq_some {α β : Type} {f : α → Option β} {g : α → β} {l : List α} (h : ∀ a ∈ l, f a = some (g a)) :
    l.mapM f = some (l.map g) := by
  induction l with
  | nil => rfl
  | cons a l ih =>
      rw [List.mapM_cons, h a (by simp), ih fun b hb => h b (by simp [hb])]
      rfl

omit crates in
theorem readsRdata_txt {segments : List Text} (hne : segments ≠ []) (h : ∀ s ∈ segments, byteLen s ≤ 255)
    (hlen : (txtRdata segments).length ≤ 65535) (origin : Name) :
    Rfc1035.ReadsRdata origin .txt (txtToPresentation (txtRdata segments)) (.txt (txtRdata segments)) := by
  let field (s : Text) : Field := ⟨true, (asBytes s).flatMap quotedOctet⟩
  have hstring : ∀ s ∈ segments, Rfc1035.readCharString (field s) = some (characterString s) := by
    intro s hs
    have hs := h s hs
    rw [← length_asBytes] at hs
    rw [Rfc1035.readCharString, charStringFrom_octets, Option.bind_eq_bind, Option.bind_some, if_pos hs, length_asBytes]
    rfl
  have hstrings : (segments.map field).mapM Rfc1035.readCharString = some (segments.map characterString) := by
    rw [List.mapM_map]
    exact mapM_eq_some hstring
  refine ⟨segments.map field, by simpa using hne, fun f hf => ?_, ?_, ?_⟩
  · obtain ⟨s, -, rfl⟩ := List.mem_map.1 hf
    exact ⟨Rfc1035.isFieldText_flatMap fun b _ => isFieldText_quotedOctet b, by simp [field]⟩
  · rw [txtToPresentation, txtChunks_txtRdata h]
    obtain ⟨s, ss, rfl⟩ := List.exists_cons_of_ne_nil hne
    simp [List.map_map, Function.comp_def, txtToQuotedCharstr, Field.written, field]
  · rw [readRdata, hstrings, Option.bind_eq_bind, Option.bind_some, ← List.flatMap_def, ← txtRdata,
      if_pos ⟨by simpa using hne, hlen⟩]

theorem presentationRdata_of_spelling {r : RecordData} (hok : RowOk r) (hs : Spelling r.recordType r.value) :
    r.recordType.presentationRdata r.value r.priority =
      if r.recordType.takesPriority then intText (r.priority.getD 10) ++ [' '] ++ r.value else r.value := by
  have htxt : r.recordType ≠ .txt := by
    intro h
    rw [h] at hs
    cases hs
  have hshown := (encodedValue_stored htxt hok.notSoa (hs.encodedValue_eq hok.value)).1.shown
  cases ht : r.recordType with
  | txt => exact absurd ht htxt
  | soa => exact absurd ht hok.notSoa
  | _ =>
      rw [ht] at hshown
      simp [RecordType.presentationRdata, RecordType.takesPriority, hshown]

omit crates in
theorem intText_getD {p : Option ℤ} {n : ℕ} (h0 : 0 ≤ p.getD 10) (hn : n = (p.getD 10).toNat) : intText (p.getD 10) = natText n := by
  rw [hn]
  generalize p.getD 10 = i at h0
  obtain ⟨k, rfl⟩ := Int.eq_ofNat_of_zero_le h0
  rfl

/-- **Rdata.**  What is written of a row is read as the rdata it is sent with. -/
theorem readsRdata_of_served (hwire : crates.Rfc1035Wire) (hbase64 : crates.Base64RoundTrip) {r : RecordData} (hok : RowOk r)
    (hs : Spelled r) (hfilled : r.recordType = .txt → r.value ≠ txtIntoEncoded []) {d : Rdata} (hd : r.served = some d)
    (origin : Name) :
    Rfc1035.ReadsRdata origin r.recordType.rtype (r.recordType.presentationRdata r.value r.priority) d := by
  -- the types whose rdata is one name
  have hname : ∀ {rtype : Rtype} {data : Name → Rdata} {x : Text},
      (∀ f : Field, readRdata (some origin) rtype [f] = (f.word.bind (readFileName (some origin))).map data) →
      IsStoredTarget x → (parseName x).toOption.map data = some d → Rfc1035.ReadsRdata origin rtype x d := by
    intro rtype data x hread hx hd
    obtain ⟨n, hn, rfl⟩ := Option.map_eq_some_iff.1 hd
    refine Rfc1035.readsRdata_word hx.isWritten ?_
    rw [hread, Rfc1035.word_unquoted, Option.bind_some, hx.readFileName hwire (toOption_eq_some.1 hn), Option.map_some]
  cases hs with
  | txt ht hv =>
      obtain ⟨rdata, e, hrdata⟩ := hv
      obtain ⟨rfl, hlen⟩ := (served_txt hwire hbase64 ht e hrdata).1 hd
      have hne : rdata ≠ [] := fun hnil => hfilled ht (by rw [e, hnil])
      have hshow : r.recordType.presentationRdata r.value r.priority = txtToPresentation rdata := by
        simp only [ht, e, RecordType.presentationRdata, txtFromEncoded_txtIntoEncoded hbase64 hrdata]
      obtain ⟨segments, hsegments, rfl⟩ := hrdata
      rw [hshow, ht]
      exact readsRdata_txt (fun hnil => hne (txtRdata_eq_nil.2 hnil)) hsegments hlen origin
  | soa ht => exact absurd ht hok.notSoa
  | primaryNs name ht hv =>
      unfold RecordData.served at hd
      rw [ht, hv] at hd ⊢
      obtain ⟨n, hn, rfl⟩ := Option.map_eq_some_iff.1 hd
      obtain rfl : name.wireName = n := by
        have hn := toOption_eq_some.1 hn
        rw [← List.append_nil name.text, ← name.joinLabels_labels, parseName_joinLabels hwire name.labels_ne_nil
          (fun l hl => (classifyDomainLabel_eq_ok.1 (name.isZoneText.2 l hl).1).1) (.inl rfl)] at hn
        exact (Rfc1035.Name.ext hn.2).symm
      have hshow : RecordType.ns.presentationRdata name.text r.priority = name.text ++ ['.'] := name.toFqdnLowercase_text
      rw [hshow]
      refine Rfc1035.readsRdata_word (isFieldText_fqdn name.labelsText.2) ?_
      exact congrArg (Option.map Rdata.ns) (name.readFileName_text (some origin))
  | encoded hs =>
      rw [presentationRdata_of_spelling hok hs]
      unfold RecordData.served at hd
      generalize r.recordType = t at hs hd
      generalize r.value = v at hs hd
      cases hs with
      | a addr =>
          rw [parseIpv4_ipv4Text] at hd
          cases hd
          exact Rfc1035.readsRdata_word (isWritten_ipv4Text addr) (congrArg (Option.map Rdata.a) (parseIpv4_ipv4Text addr))
      | aaaa addr =>
          rw [parseIpv6_ipv6Text] at hd
          cases hd
          exact Rfc1035.readsRdata_word (isWritten_ipv6Text addr) (congrArg (Option.map Rdata.aaaa) (parseIpv6_ipv6Text addr))
      | cname hx => exact hname (fun _ => rfl) hx hd
      | ns hx => exact hname (fun _ => rfl) hx hd
      | ptr hx => exact hname (fun _ => rfl) hx hd
      | mx hx =>
          obtain ⟨mx, hmx, hd⟩ := Option.bind_eq_some_iff.1 hd
          obtain ⟨n, hn, rfl⟩ := Option.map_eq_some_iff.1 hd
          obtain ⟨hfields, h0, h1, hprio⟩ := MxRecordValue.parse_eq_ok.1 (toOption_eq_some.1 hmx)
          rw [hx.splitWhitespace, List.cons.injEq] at hfields
          rw [← hfields.1] at hn
          have e : join [' '] [natText mx.priority, v] = natText mx.priority ++ [' '] ++ v := by simp [join]
          rw [RecordType.takesPriority, if_pos rfl, intText_getD h0 hprio, ← e]
          refine Rfc1035.readsRdata_words (by simp) (by simp [Rfc1035.isWritten_natText, hx.isWritten]) ?_
          simp [RecordType.rtype, readRdata, Rfc1035.readDecimal_natText (show mx.priority ≤ 65535 by omega),
            Rfc1035.word_unquoted, hx.readFileName hwire (toOption_eq_some.1 hn)]
      | @srv weight port x hx =>
          obtain ⟨srv, hsrv, hd⟩ := Option.bind_eq_some_iff.1 hd
          obtain ⟨n, hn, rfl⟩ := Option.map_eq_some_iff.1 hd
          have hsrv := toOption_eq_some.1 hsrv
          obtain ⟨w, p, hfields, hw, hp, h0, h1, hprio⟩ := SrvRecordValue.parse_eq_ok.1 hsrv
          rw [splitWhitespace_srv, hx.splitWhitespace] at hfields
          simp only [List.cons.injEq, and_true] at hfields
          obtain ⟨rfl, rfl, htarget⟩ := hfields
          obtain ⟨rfl, hw⟩ := parseUnsigned_natText.1 hw
          obtain ⟨rfl, hp⟩ := parseUnsigned_natText.1 hp
          rw [← htarget] at hn
          have e : join [' '] [natText srv.priority, natText srv.weight, natText srv.port, x] = natText srv.priority ++ [' '] ++
              (natText srv.weight ++ [' '] ++ natText srv.port ++ [' '] ++ x) := by simp [join]
          rw [RecordType.takesPriority, if_pos rfl, intText_getD h0 hprio, ← e]
          refine Rfc1035.readsRdata_words (by simp) (by simp [Rfc1035.isWritten_natText, hx.isWritten]) ?_
          simp [RecordType.rtype, readRdata, Rfc1035.readDecimal_natText (show srv.priority ≤ 65535 by omega),
            Rfc1035.readDecimal_natText hw, Rfc1035.readDecimal_natText hp, Rfc1035.word_unquoted,
            hx.readFileName hwire (toOption_eq_some.1 hn)]

/-! ### The SOA -/

omit crates in
theorem TtlOk.intText_eq {n : ℤ} (h : TtlOk n) : intText n = natText n.toNat ∧ n.toNat ≤ Rfc1035.maxTtl := by
  obtain ⟨h0, h1⟩ := h
  obtain ⟨k, rfl⟩ := Int.eq_ofNat_of_zero_le h0
  refine ⟨rfl, ?_⟩
  unfold i32Max at h1
  unfold Rfc1035.maxTtl
  omega

omit crates in
theorem isValidEmailLocalChar_cases {c : Char} (h : isValidEmailLocalChar c = true) :
    isPrintable c = true ∧ c ≠ ' ' ∧ (c = '.' ∨ isInner false c = true) := by
  rcases Bool.or_eq_true_iff.1 h with h | h
  · have hldh : isLdh true c = true := by simp [isLdh, h]
    obtain ⟨hspace, -, -, hesc, -⟩ := isLdh_cases hldh
    have hspace : c ≠ ' ' := by
      rintro rfl
      cases hspace
    exact ⟨isPrintable_of_isLdh hldh, hspace, .inr (isInner_of_not_mem_escapedInLabel (isPrintable_of_isLdh hldh) hspace hesc)⟩
  · have hall : (lit "!#$%&'*+-/=?^_`\x7b|\x7d~.").all (fun c => isPrintable c && c != ' ' && (c == '.' || isInner false c)) = true := by
      decide +kernel
    simpa [and_assoc] using List.all_eq_true.1 hall c (List.contains_iff_mem.1 h)

omit crates in
theorem labelsText_mailbox {localPart : Text} (h : ∀ c ∈ localPart, isValidEmailLocalChar c = true) (domain : ZoneName) :
    LabelsText (wireLabels (localPart :: domain.labels)) (escapeLocalPart localPart ++ '.' :: domain.text) ∧
      isFieldText false (escapeLocalPart localPart ++ '.' :: domain.text) = true := by
  have hlabel : LabelText (asBytes localPart) (escapeLocalPart localPart) := by
    refine Rfc1035.labelText_flatMap (fun c hc => ?_) fun c hc => (isValidEmailLocalChar_cases (h c hc)).1
    obtain ⟨hprint, hspace, -⟩ := isValidEmailLocalChar_cases (h c hc)
    refine octetText_ite hprint hspace ?_ fun hplain => not_or.1 hplain
    rintro (rfl | rfl) <;> rfl
  have hfield : isFieldText false (escapeLocalPart localPart) = true := by
    refine Rfc1035.isFieldText_flatMap fun c hc => ?_
    obtain ⟨hprint, -, hinner⟩ := isValidEmailLocalChar_cases (h c hc)
    exact isFieldText_ite hprint fun hplain => hinner.resolve_left (not_or.1 hplain).1
  refine ⟨.cons hlabel domain.labelsText.1, Rfc1035.isFieldText_append hfield ?_⟩
  rw [Rfc1035.isFieldText_cons isInner_dot]
  exact domain.labelsText.2

omit crates in
theorem AdminEmail.exists_name (a : AdminEmail) : ∃ mailbox n, soaMailboxFromEmail a.email = .ok mailbox ∧
    Field.IsWritten ⟨false, toFqdn mailbox⟩ ∧ ∀ origin, readFileName origin (toFqdn mailbox) = some n := by
  obtain ⟨localPart, domain, -, hchars, hmailbox, hlabels⟩ := a.exists_parts
  obtain ⟨htext, hfield⟩ := labelsText_mailbox hchars domain
  have hname : Rfc1035.IsName (wireLabels (localPart :: domain.labels)) :=
    (isName_wireLabels ((a.classify_ok hmailbox).2 _ hlabels)).2 (a.wireLen_le hmailbox)
  refine ⟨_, ⟨_, hname⟩, hmailbox, ?_, fun origin => ?_⟩
  · rw [toFqdn, AdminEmail.bare_mailbox]
    exact isFieldText_fqdn hfield
  · rw [toFqdn, AdminEmail.bare_mailbox]
    exact LabelsText.readFileName (n := ⟨_, hname⟩) htext origin

omit crates in
theorem exists_soa {zone : Zone} (hsoa : zone.SoaOk) (hserial : TtlOk zone.serial) (origin : Name) :
    ∃ mailbox data, zone.soaMailbox = .ok mailbox ∧ data.isSoa = true ∧
      Rfc1035.ReadsRdata origin .soa (join [' '] [toFqdn zone.primaryNs.text, toFqdn mailbox, intText zone.serial,
        intText zone.refresh, intText zone.retry, intText zone.expire, intText zone.minimumTtl]) data := by
  obtain ⟨a, ha⟩ := hsoa.email
  obtain ⟨mailbox, n, hmailbox, hwritten, hread⟩ := a.exists_name
  have hseconds := hsoa.seconds
  simp only [Zone.seconds, List.forall_mem_cons] at hseconds
  obtain ⟨-, hrefresh, hretry, hexpire, hminimum, -⟩ := hseconds
  have hns : toFqdn zone.primaryNs.text = zone.primaryNs.text ++ ['.'] := zone.primaryNs.toFqdn_eq
  have hle : ∀ {k : ℕ}, k ≤ Rfc1035.maxTtl → k ≤ 4294967295 := by
    intro k hk
    unfold Rfc1035.maxTtl at hk
    omega
  refine ⟨mailbox, .soa zone.primaryNs.wireName n zone.serial.toNat zone.refresh.toNat zone.retry.toNat zone.expire.toNat
    zone.minimumTtl.toNat, by rw [Zone.soaMailbox, ← ha, hmailbox], rfl, ?_⟩
  rw [hserial.intText_eq.1, hrefresh.intText_eq.1, hretry.intText_eq.1, hexpire.intText_eq.1, hminimum.intText_eq.1, hns]
  refine Rfc1035.readsRdata_words (by simp) ?_ ?_
  · simp [Rfc1035.isWritten_natText, hwritten, isFieldText_fqdn zone.primaryNs.labelsText.2]
  · simp [readRdata, Rfc1035.word_unquoted, zone.primaryNs.readFileName_text, hread,
      Rfc1035.readDecimal_natText (hle hserial.intText_eq.2), Rfc1035.readDecimal_natText (hle hrefresh.intText_eq.2),
      Rfc1035.readDecimal_natText (hle hretry.intText_eq.2), Rfc1035.readDecimal_natText (hle hexpire.intText_eq.2),
      Rfc1035.readDecimal_natText (hle hminimum.intText_eq.2)]

/-! ### The file -/

/-- What an exported row is. -/
structure Exportable (zone : ZoneName) (r : RecordData) : Prop where
  row : RowOk r
  spelled : Spelled r
  filled : r.recordType = .txt → r.value ≠ txtIntoEncoded []
  ttl : TtlOk r.ttl
  served : (r.rrIn zone).isSome = true

theorem Exportable.exists_line (hwire : crates.Rfc1035Wire) (hbase64 : crates.Base64RoundTrip) {zone : ZoneName} {r : Record}
    (h : Exportable zone r.toRecordData) : ∃ line a, r.toRecordData.rrIn zone = some a ∧ Scans (exportLine r) [line] ∧
      IsRecord zone.wireName line a := by
  obtain ⟨a, ha⟩ := Option.isSome_iff_exists.1 h.served
  obtain ⟨n, d, hn, hd, e⟩ := RecordData.rrIn_eq_some.1 ha
  obtain ⟨hprint, hlabels⟩ := (parseName_toFqdn hwire).1 hn
  obtain ⟨httl, hle⟩ := h.ttl.intText_eq
  have hu32 : asU32 r.ttl = r.ttl.toNat := by
    have := h.ttl.asU32
    omega
  obtain ⟨line, hscan, hrecord⟩ := (readsRdata_of_served hwire hbase64 h.row h.spelled h.filled hd zone.wireName).exists_line
    (OwnerName.isWritten_display hprint) r.name.head?_display (OwnerName.readFileName_display hprint hlabels) hle
    r.recordType.isWritten_asStr r.recordType.lookup_asStr
  refine ⟨line, a, ha, ?_, ?_⟩
  · rw [exportLine, httl]
    exact hscan
  · rw [e, hu32]
    exact hrecord

theorem exists_lines (hwire : crates.Rfc1035Wire) (hbase64 : crates.Base64RoundTrip) {zone : ZoneName} {records : List Record}
    (h : ∀ r ∈ records, Exportable zone r.toRecordData) : ∃ lines rrs,
      List.Forall₂ (fun r a => r.toRecordData.rrIn zone = some a) records rrs ∧ Scans (records.flatMap exportLine) lines ∧
      List.Forall₂ (IsRecord zone.wireName) lines rrs := by
  induction records with
  | nil => exact ⟨[], [], .nil, .nil, .nil⟩
  | cons r records ih =>
      obtain ⟨line, a, ha, hscan, hrecord⟩ := (h r (by simp)).exists_line hwire hbase64
      obtain ⟨lines, rrs, hrrs, hscans, hrecords⟩ := ih fun s hs => h s (by simp [hs])
      exact ⟨line :: lines, a :: rrs, .cons ha hrrs, hscan.append hscans, .cons hrecord hrecords⟩

omit crates in
theorem getLast?_append_flatMap {α : Type} {c : Char} {write : α → Text} {l : List α} (h : ∀ a ∈ l, (write a).getLast? = some c)
    {t : Text} (ht : t.getLast? = some c) : (t ++ l.flatMap write).getLast? = some c := by
  induction l generalizing t with
  | nil => rwa [List.flatMap_nil, List.append_nil]
  | cons a l ih =>
      rw [List.flatMap_cons, ← List.append_assoc]
      refine ih (fun b hb => h b (by simp [hb])) ?_
      rw [List.getLast?_append, h a (by simp)]
      rfl

/-- The lines that set the origin and the default TTL. -/
def directives (zone : ZoneName) (ttl : ℕ) : Text :=
  lit "$ORIGIN " ++ zone.text ++ lit ".\n$TTL " ++ natText ttl ++ ['\n']

omit crates in
/-- What the directives are read as, whatever follows. -/
theorem readMasterFile_directives {zone : ZoneName} {ttl : ℕ} (hle : ttl ≤ Rfc1035.maxTtl) : ∃ lines,
    Scans (directives zone ttl) lines ∧ ∀ context rest, Rfc1035.readLines context (lines ++ rest) =
      Rfc1035.readLines { context with origin := some zone.wireName, defaultTtl := some ttl } rest := by
  have hdirective : ∀ {name value : Text}, Field.IsWritten ⟨false, name⟩ → Field.IsWritten ⟨false, value⟩ →
      Scans (name ++ [' '] ++ value ++ ['\n']) [⟨false, [⟨false, name⟩, ⟨false, value⟩]⟩] := by
    intro name value hname hvalue
    have h := @Rfc1035.scans_fields [] [⟨false, name⟩, ⟨false, value⟩] (by simp) (by simp [hname, hvalue]) (by simp)
    simpa [Field.written, join] using h
  have horigin := @hdirective (lit "$ORIGIN") _ ⟨rfl, fun _ => by decide⟩ (isFieldText_fqdn zone.labelsText.2)
  have httl := @hdirective (lit "$TTL") _ ⟨rfl, fun _ => by decide⟩ (Rfc1035.isWritten_natText ttl)
  have e : directives zone ttl = lit "$ORIGIN" ++ [' '] ++ (zone.text ++ ['.']) ++ ['\n'] ++
      (lit "$TTL" ++ [' '] ++ natText ttl ++ ['\n']) := by
    have e : lit "$ORIGIN " = lit "$ORIGIN" ++ [' '] ∧ lit ".\n$TTL " = ['.'] ++ ['\n'] ++ lit "$TTL" ++ [' '] := by decide +kernel
    unfold directives
    simp only [e.1, e.2, List.append_assoc]
  rw [e]
  refine ⟨_, horigin.append httl, fun context rest => ?_⟩
  rw [List.append_assoc, List.singleton_append, List.singleton_append,
    Rfc1035.readLines_origin (zone.readFileName_text context.origin), Rfc1035.readLines_ttl hle]

def exportedText (zone : Zone) (mailbox : Text) (records : List Record) : Text :=
  directives zone.name zone.ttl.toNat ++ (['@'] ++ ['\t'] ++ natText zone.ttl.toNat ++ lit "\tIN\t" ++ RecordType.soa.asStr ++
    ['\t'] ++ join [' '] [toFqdn zone.primaryNs.text, toFqdn mailbox, intText zone.serial, intText zone.refresh,
      intText zone.retry, intText zone.expire, intText zone.minimumTtl] ++ ['\n'] ++
        (records.mergeSort exportLe).flatMap exportLine)

theorem renderZoneFile_eq {zone : Zone} (httl : TtlOk zone.ttl) {mailbox : Text} (hmailbox : zone.soaMailbox = .ok mailbox)
    {records : List Record} (h : ∀ r ∈ records, r.recordType ≠ .soa) :
    renderZoneFile zone records = .ok (exportedText zone mailbox records) := by
  have hfilter : (records.mergeSort exportLe).filter (·.recordType ≠ .soa) = records.mergeSort exportLe :=
    List.filter_eq_self.2 fun r hr => by simpa using h r (List.mem_mergeSort.1 hr)
  have e : lit "@\t" = ['@'] ++ ['\t'] ∧ lit "\tIN\tSOA\t" = lit "\tIN\t" ++ RecordType.soa.asStr ++ ['\t'] ∧
      lit ".\n$TTL " = ['.'] ++ ['\n'] ++ lit "$TTL " := by decide +kernel
  unfold renderZoneFile exportedText directives
  simp only [hmailbox, hfilter, httl.intText_eq.1, zone.name.toFqdn_eq, e.1, e.2.1, e.2.2, Except.mapError,
    Fallible.ok_bind, List.append_assoc]
  rfl

theorem zonefileBuffer_exportedText {zone : Zone} (httl : TtlOk zone.ttl) (mailbox : Text) (records : List Record) :
    zonefileBuffer (exportedText zone mailbox records) zone =
      directives zone.name zone.ttl.toNat ++ exportedText zone mailbox records := by
  have hlast : (directives zone.name zone.ttl.toNat ++ exportedText zone mailbox records).getLast? = some '\n' := by
    unfold exportedText
    rw [← List.append_assoc, ← List.append_assoc]
    refine getLast?_append_flatMap (fun r _ => ?_) ?_
    · rw [exportLine, List.getLast?_append]
      rfl
    · rw [← List.append_assoc, ← List.append_assoc, List.getLast?_append]
      rfl
  have e : lit "\n$TTL " = ['\n'] ++ lit "$TTL " ∧ lit ".\n$TTL " = ['.'] ++ ['\n'] ++ lit "$TTL " ∧ lit "\n" = ['\n'] := by
    decide +kernel
  have hbuffer : lit "$ORIGIN " ++ toFqdnLowercase zone.name.text ++ lit "\n$TTL " ++ intText zone.ttl ++ lit "\n" ++
      exportedText zone mailbox records = directives zone.name zone.ttl.toNat ++ exportedText zone mailbox records := by
    unfold directives
    simp only [httl.intText_eq.1, zone.name.toFqdnLowercase_text, e.1, e.2.1, e.2.2, List.append_assoc]
  unfold zonefileBuffer
  simp only [hbuffer, if_pos hlast]

/-- **The exported file.**  A zone whose rows can all be served is exported, and the file is read, as the import hands it to
its reader, as the SOA and the records the rows are served as. -/
theorem readMasterFile_export (hwire : crates.Rfc1035Wire) (hbase64 : crates.Base64RoundTrip) {zone : Zone} (hsoa : zone.SoaOk)
    (hserial : TtlOk zone.serial) {records : List Record} (h : ∀ r ∈ records, Exportable zone.name r.toRecordData) :
    ∃ text soa rrs, renderZoneFile zone records = .ok text ∧ soa.data.isSoa = true ∧
      List.Forall₂ (fun r a => r.toRecordData.rrIn zone.name = some a) (records.mergeSort exportLe) rrs ∧
      Rfc1035.readMasterFile (zonefileBuffer text zone) = some (soa :: rrs) := by
  obtain ⟨mailbox, data, hmailbox, hdata, hread⟩ := exists_soa hsoa hserial zone.name.wireName
  have httl : TtlOk zone.ttl := hsoa.seconds zone.ttl (by simp [Zone.seconds])
  have hle := httl.intText_eq.2
  have howner : readFileName (some zone.name.wireName) ['@'] = some zone.name.wireName := rfl
  obtain ⟨line, hscan, hrecord⟩ := hread.exists_line ⟨rfl, by simp⟩ (by simp) howner hle RecordType.soa.isWritten_asStr
    RecordType.soa.lookup_asStr
  obtain ⟨lines, rrs, hrrs, hscans, hrecords⟩ := @exists_lines _ hwire hbase64 zone.name (records.mergeSort exportLe) fun r hr =>
    h r (List.mem_mergeSort.1 hr)
  obtain ⟨head, hhead, hskip⟩ := @readMasterFile_directives zone.name _ hle
  refine ⟨_, ⟨zone.name.wireName, zone.ttl.toNat, data⟩, rrs,
    renderZoneFile_eq httl hmailbox fun r hr => (h r hr).row.notSoa, hdata, hrrs, ?_⟩
  have hfile : Scans (directives zone.name zone.ttl.toNat ++ exportedText zone mailbox records)
      (head ++ (head ++ ([line] ++ lines))) := hhead.append (hhead.append (hscan.append hscans))
  rw [zonefileBuffer_exportedText httl, Rfc1035.readMasterFile, hfile.scan_eq, Option.bind_eq_bind, Option.bind_some, hskip, hskip]
  exact Rfc1035.readLines_records (.cons hrecord hrecords) rfl

end Rows

end Bindizr
