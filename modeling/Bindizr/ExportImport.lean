import Bindizr.ExportText
import Bindizr.Listing
import Bindizr.Preview

/-! # Importing what was exported

The reader of zone files returns what a master file denotes, and writes owners and rdata in presentation form
(`Crates.ReadsMasterFiles`).  So an import of an exported file finds one record for each row, with the owner, type, TTL and
canonical value of the row (`exists_parsedRecord`), and reconciling finds nothing to do in any mode (`importPlan_of_rrs`):
the import reports every row unchanged and leaves the database as it was (`export_import_unchanged`). -/

namespace Bindizr

open Rfc1035 (Name Rdata ResourceRecord LabelText LabelsText Displays TargetText RdataText isHostOctet)

/-! ### The reader -/

/-- What the reader returns of rdata. -/
inductive RendersData : Rdata → ZonefileRdata → Prop
  | txt {segments : List (List UInt8)} (h : ∀ s ∈ segments, s.length ≤ 255) :
      RendersData (.txt (segments.flatMap fun s => UInt8.ofNat s.length :: s)) (.txt segments)
  | other {d : Rdata} {t : Text} (h : RdataText d t) : RendersData d (.other t)

/-- What the reader returns of a record. -/
structure Renders (a : ResourceRecord) (z : ZonefileRecord) : Prop where
  owner : Displays a.owner z.owner
  rclass : z.rclass = 1
  rtype : z.rtype = a.data.typeCode
  ttl : z.ttl = a.ttl
  rdata : RendersData a.data z.rdata

/-- The zone file reader of `domain` reads master files, and returns their records in presentation form. -/
def Crates.ReadsMasterFiles (crates : Crates) : Prop :=
  ∀ t rrs, Rfc1035.readMasterFile t = some rrs →
    List.Forall₂ (fun a e => ∃ z, e = .record z ∧ Renders a z) rrs (crates.readZonefile t)

/-! ### Names in rdata -/

theorem isHostOctet_of_isLdh {c : Char} (h : isLdh true c = true) : ∀ b ∈ asBytes [c], isHostOctet b = true := by
  have hn := toNat_of_isLdh h
  rw [Rfc1035.asBytes_singleton (isPrintable_of_isLdh h)]
  intro b hb
  rw [List.mem_singleton.1 hb]
  have hc : (UInt8.ofNat c.toNat).toNat = c.toNat := by
    rw [UInt8.toNat_ofNat']
    omega
  simp only [isHostOctet, hc, Bool.or_eq_true, Bool.and_eq_true, decide_eq_true_eq, beq_iff_eq]
  tauto

theorem isHostOctet_of_classifyDomainLabel {l : Text} (h : classifyDomainLabel l true = .ok ()) :
    ∀ b ∈ asBytes l, isHostOctet b = true := by
  have hldh := (classifyDomainLabel_eq_ok.1 h).2.2.1
  clear h
  induction l with
  | nil => simp
  | cons c l ih =>
      rw [← List.singleton_append, asBytes_append]
      exact List.forall_mem_append.2 ⟨isHostOctet_of_isLdh (hldh c (by simp)), ih fun d hd => hldh d (by simp [hd])⟩

theorem escapeLabel_of_classifyDomainLabel {l : Text} (h : classifyDomainLabel l true = .ok ()) : escapeLabel l = l :=
  escapeLabel_eq_self fun c hc => (isLdh_cases ((classifyDomainLabel_eq_ok.1 h).2.2.1 c hc)).2.2.2.1

theorem labelsText_eq_joinLabels {octets : List (List UInt8)} {s : Text} (h : LabelsText octets s) (hs : '\\' ∉ s)
    {ls : List Text} (hls : ∀ l ∈ ls, classifyDomainLabel l true = .ok ()) (e : octets = wireLabels ls) :
    s = joinLabels ls := by
  have hlabel : ∀ {l : Text} {s : Text}, classifyDomainLabel l true = .ok () → LabelText (asBytes l) s → '\\' ∉ s →
      s = escapeLabel l := by
    intro l s hl h hs
    rw [escapeLabel_of_classifyDomainLabel hl]
    exact asBytes_injective (h.asBytes_eq hs)
  induction h generalizing ls with
  | single label =>
      obtain ⟨l, rfl, rfl⟩ := List.map_eq_singleton_iff.1 e.symm
      rw [joinLabels_singleton]
      exact hlabel (hls l (by simp)) label hs
  | cons label rest ih =>
      obtain ⟨l, ls, rfl, rfl, htail⟩ := List.map_eq_cons_iff.1 e.symm
      rw [List.mem_append, not_or, List.mem_cons, not_or] at hs
      cases ls with
      | nil =>
          rw [← htail] at rest
          cases rest
      | cons m ls =>
          rw [joinLabels_cons_cons, ← ih hs.2.2 (fun l hl => hls l (List.mem_cons_of_mem _ hl)) htail.symm,
            ← hlabel (hls l (by simp)) label hs.1]

theorem validateDomainRecordValue_joinLabels {ls : List Text} (hne : ls ≠ [])
    (hls : ∀ l ∈ ls, classifyDomainLabel l true = .ok ()) (hlen : wireLen ls ≤ 255) {dot : Text} (hdot : dot = [] ∨ dot = ['.'])
    (field : Text) : validateDomainRecordValue field (joinLabels ls ++ dot) = .ok () ∧
      toFqdnLowercase (joinLabels ls ++ dot) = toAsciiLowercase (joinLabels ls) ++ ['.'] := by
  have hmap : ls.map escapeLabel = ls := by
    conv_rhs => rw [← List.map_id ls]
    exact List.map_congr_left fun l hl => escapeLabel_of_classifyDomainLabel (hls l hl)
  have hsplit : split '.' (joinLabels ls) = ls := by
    rw [joinLabels, hmap]
    refine List.splitOn_intercalate '.' (fun l hl hdot => ?_) hne
    have hldh := (classifyDomainLabel_eq_ok.1 (hls l hl)).2.2.1 '.' hdot
    cases hldh
  have hlabels : ∀ l ∈ split '.' (joinLabels ls), classifyDomainLabel l true = .ok () := by rwa [hsplit]
  have htrim := trimEndMatches_eq_self_of_labels hlabels
  have hlast : (joinLabels ls).getLast? ≠ some '.' := by
    intro h
    obtain ⟨p, e⟩ := List.getLast?_eq_some_iff.1 h
    rw [e, trimEndMatches, List.rdropWhile_concat_pos _ _ _ (by simp)] at htrim
    have := congrArg List.length htrim
    have hle := (List.rdropWhile_prefix (p := fun c => c == '.') (l := p)).length_le
    simp at this
    omega
  have hstrip : stripOneSuffix '.' (joinLabels ls ++ dot) = joinLabels ls := by
    rcases hdot with rfl | rfl
    · rw [List.append_nil, stripOneSuffix, if_neg hlast]
    · simp [stripOneSuffix]
  have hwords : hasWhitespaceOrControl (joinLabels ls ++ dot) = false := by
    rw [hasWhitespaceOrControl, List.any_eq_false]
    intro c hc
    have hc : c = '.' ∨ isLdh true c = true := by
      rcases List.mem_append.1 hc with hc | hc
      · exact isLdh_of_labels hlabels hc
      · rcases hdot with rfl | rfl
        · cases hc
        · exact .inl (List.mem_singleton.1 hc)
    rcases hc with rfl | hc
    · decide
    · simp [isLdh_cases hc]
  have hvalid : validateDomainRecordValue field (joinLabels ls ++ dot) = .ok () := by
    refine validateDomainRecordValue_eq_ok.2 ⟨hwords, ?_, ?_, ?_⟩
    · rw [hstrip]
      intro hnil
      rw [hnil] at hlabels
      exact (classifyDomainLabel_eq_ok.1 (hlabels [] (by simp [split]))).1 rfl
    · rw [hstrip]
      have := wireLen_split (joinLabels ls)
      rw [hsplit] at this
      unfold maxDomainLen
      omega
    · rwa [hstrip]
  refine ⟨hvalid, ?_⟩
  obtain ⟨he, ht⟩ := trimEndMatches_of_validDomain hvalid
  rw [toFqdnLowercase, ht, he, hstrip]

theorem targetText_accepted {n : Name} {t : Text} (h : TargetText n t) {ls : List Text} (hn : n.labels = wireLabels ls)
    (hls : ∀ l ∈ ls, classifyDomainLabel l true = .ok ()) : (ls = [] ∧ t = ['.']) ∨
      (∀ field, validateDomainRecordValue field t = .ok ()) ∧ toFqdnLowercase t = toAsciiLowercase (joinLabels ls) ++ ['.'] := by
  have hplain : '\\' ∉ t := by
    refine h.plain fun l hl => ?_
    rw [hn] at hl
    obtain ⟨text, htext, rfl⟩ := List.mem_map.1 hl
    exact isHostOctet_of_classifyDomainLabel (hls text htext)
  rcases h.text with ⟨hroot, rfl⟩ | ⟨s, htext, ht⟩
  · rw [hn, wireLabels, List.map_eq_nil_iff] at hroot
    exact .inl ⟨hroot, rfl⟩
  · have hs : '\\' ∉ s := by
      rcases ht with rfl | rfl
      · exact hplain
      · exact fun hc => hplain (List.mem_append_left _ hc)
    obtain rfl := labelsText_eq_joinLabels htext hs hls hn
    have hne : ls ≠ [] := by
      rintro rfl
      rw [hn] at htext
      cases htext
    have hlen : wireLen ls ≤ 255 := by
      refine (isName_wireLabels fun l hl => ?_).1 (hn ▸ n.isName)
      exact ⟨(classifyDomainLabel_eq_ok.1 (hls l hl)).1, (classifyDomainLabel_eq_ok.1 (hls l hl)).2.1⟩
    obtain ⟨dot, hdot, rfl⟩ : ∃ dot, (dot = [] ∨ dot = ['.']) ∧ t = joinLabels ls ++ dot := by
      rcases ht with rfl | rfl
      · exact ⟨[], .inl rfl, (List.append_nil _).symm⟩
      · exact ⟨['.'], .inr rfl, rfl⟩
    exact .inr ⟨fun field => (validateDomainRecordValue_joinLabels hne hls hlen hdot field).1,
      (validateDomainRecordValue_joinLabels hne hls hlen hdot []).2⟩

section Reading

variable [crates : Crates]

theorem targetText_target (hwire : crates.Rfc1035Wire) {x : Text} (hx : IsTarget x) {n : Name} (hn : parseName x = .ok n)
    {t : Text} (ht : TargetText n t) : splitWhitespace t = [t] ∧ toFqdnLowercase t = toFqdnLowercase x ∧
      (t = ['.'] ∧ x = ['.'] ∨ t ≠ ['.'] ∧ ∀ field, validateDomainRecordValue field t = .ok ()) := by
  obtain ⟨n', hn', hlabels⟩ := exists_parseName_target hwire hx
  rw [hn] at hn'
  cases hn'
  obtain ⟨e, hvalid⟩ := hx.canonical
  rcases targetText_accepted ht hlabels hvalid with ⟨hnil, rfl⟩ | ⟨haccepted, hlower⟩
  · have hroot : x = ['.'] := by
      refine hx.resolve_right ?_
      rintro ⟨field, h⟩
      obtain ⟨-, hne, -⟩ := validateDomainRecordValue_eq_ok.1 h
      rw [targetLabels, if_neg (by rwa [(trimEndMatches_of_validDomain h).1])] at hnil
      exact List.splitOn_ne_nil '.' _ hnil
    subst hroot
    exact ⟨by decide, rfl, .inl ⟨rfl, rfl⟩⟩
  · have htarget : IsTarget t := .inr ⟨[], haccepted []⟩
    refine ⟨splitWhitespace_eq_singleton htarget.ne_nil htarget.not_isWhitespace, hlower.trans e.symm, .inr ⟨?_, haccepted⟩⟩
    rintro rfl
    cases haccepted []

omit crates in
theorem parseUnsigned_mono {bound bound' n : ℕ} {t : Text} (h : parseUnsigned bound t = some n) (hle : bound ≤ bound') :
    parseUnsigned bound' t = some n := by
  unfold parseUnsigned at h ⊢
  simp only [Option.ite_none_left_eq_some, Bool.or_eq_true, decide_eq_true_eq, not_or] at h ⊢
  exact ⟨⟨h.1.1, by omega⟩, h.2⟩

omit crates in
theorem parseI32_natText {n : ℕ} (h : n ≤ 65535) : parseI32 (natText n) = some (n : ℤ) := by
  have hparse : parseUnsigned 2147483647 (natText n) = some n :=
    parseUnsigned_mono (parseUnsigned_natText.2 ⟨rfl, h⟩) (by omega)
  unfold parseI32
  split
  · rename_i ds e
    have := @isAsciiDigit_of_mem_natText n '-' (by simp [e])
    cases this
  · rw [hparse]
    rfl

omit crates in
theorem txtChunks_segments {segments : List (List UInt8)} (h : ∀ s ∈ segments, s.length ≤ 255) :
    txtChunks (segments.flatMap fun s => UInt8.ofNat s.length :: s) = segments := by
  induction segments with
  | nil => rfl
  | cons s segments ih =>
      rw [List.flatMap_cons, List.cons_append, txtChunks_cons (h s (by simp)), ih fun t ht => h t (by simp [ht])]

omit crates in
theorem rendersData_txt {rdata : List UInt8} {z : ZonefileRdata} (h : RendersData (.txt rdata) z) : z = .txt (txtChunks rdata) := by
  generalize e : Rdata.txt rdata = d at h
  cases h with
  | txt hs =>
      cases e
      rw [txtChunks_segments hs]
  | other h =>
      subst e
      cases h

omit crates in
theorem parsedValue_priority {t : RecordType} (ht : t.takesPriority = true) {raw p : Text} {fields : List Text} {n : ℕ}
    (hraw : splitWhitespace raw = p :: fields) (hp : p = natText n) (hn : n ≤ 65535) :
    parsedValue t (.other raw) = some (.string (join [' '] fields), some (n : ℤ)) := by
  rw [parsedValue, if_pos ht, hraw]
  simp only [hp, parseI32_natText hn]

omit crates in
theorem validateValue_root {t : RecordType} (ht : t = .cname ∨ t = .ns ∨ t = .ptr) {priority : Option ℤ} :
    t.validateValue ['.'] priority ≠ .ok () := by
  intro h
  unfold RecordType.validateValue at h
  split at h
  · cases h
  · rcases ht with rfl | rfl | rfl <;> cases h

/-- What the reader returns of rdata is encoded to the canonical form of a value. -/
def ParsesTo (t : RecordType) (x : Text) (priority : Option ℤ) (z : ZonefileRdata) : Prop :=
  ∃ value priority' e, parsedValue t z = some (value, priority') ∧ value.toEncodedValue t priority' = .ok e ∧
    t.canonicalValue e priority' = t.canonicalValue x priority

theorem parsesTo_a {x : Text} {addr : Ipv4Addr} (hx : parseIpv4 x = some addr) (priority : Option ℤ) :
    ParsesTo .a x priority (.other (ipv4Text addr)) := by
  refine ⟨.string (ipv4Text addr), none, ipv4Text addr, rfl, (stored_a addr none).again, ?_⟩
  simp [RecordType.canonicalValue, parseA, hx, parseIpv4_ipv4Text]

theorem parsesTo_aaaa {x : Text} {addr : Ipv6Addr} (hx : parseIpv6 x = some addr) (priority : Option ℤ) :
    ParsesTo .aaaa x priority (.other (ipv6Text addr)) := by
  refine ⟨.string (ipv6Text addr), none, ipv6Text addr, rfl, (stored_aaaa addr none).again, ?_⟩
  simp [RecordType.canonicalValue, parseAaaa, hx, parseIpv6_ipv6Text]

theorem parsesTo_txt {texts : List Text} (htexts : ∀ t ∈ texts, byteLen t ≤ 255) (hne : txtRdata texts ≠ [])
    (priority : Option ℤ) : ParsesTo .txt (txtIntoEncoded (txtRdata texts)) priority (.txt (txtChunks (txtRdata texts))) := by
  have hutf8 : (texts.map asBytes).mapM fromUtf8 = some texts := mapM_fromUtf8.2 rfl
  have hsegments : txtFromSegments texts = .ok (txtRdata texts) := by
    rw [txtFromSegments, txtSegmentsRdata_eq_ok htexts, Fallible.ok_bind, if_neg fun hnil => hne (txtRdata_eq_nil.2 hnil)]
    rfl
  refine ⟨.segments texts, none, txtIntoEncoded (txtRdata texts), ?_, ?_, rfl⟩
  · rw [txtChunks_txtRdata htexts, parsedValue, hutf8, Option.map_some]
  · rw [RecordValueRequest.toEncodedValue, hsegments, Except.map]

theorem parsesTo_host (hwire : crates.Rfc1035Wire) {t : RecordType} (ht : t = .cname ∨ t = .ns ∨ t = .ptr) {x : Text}
    {priority : Option ℤ} (hx : t.validateValue x priority = .ok ()) {n : Name} (hn : parseName x = .ok n) {text : Text}
    (htext : TargetText n text) : ParsesTo t x priority (.other text) := by
  have htarget := validateValue_host ht hx
  obtain ⟨hwords, hcanonical, ⟨-, rfl⟩ | ⟨-, haccepted⟩⟩ := targetText_target hwire htarget hn htext
  · exact absurd hx (validateValue_root ht)
  · have hparse : ∀ field, (parseHost field (trim text)).map toFqdnLowercase = .ok (toFqdnLowercase x) := by
      intro field
      rw [trim_eq_of_splitWhitespace hwords, parseHost, haccepted field, ← hcanonical]
      rfl
    refine ⟨.string text, none, toFqdnLowercase x, ?_⟩
    rcases ht with rfl | rfl | rfl <;> exact ⟨rfl, hparse _, htarget.stored.2⟩

omit crates in
theorem splitWhitespace_natText (n : ℕ) (t : Text) : splitWhitespace (natText n ++ ' ' :: t) = natText n :: splitWhitespace t :=
  splitWhitespace_append_cons rfl (List.ne_nil_of_length_pos Nat.length_toDigits_pos) fun _ => not_isWhitespace_of_mem_natText

theorem parsesTo_mx (hwire : crates.Rfc1035Wire) {x : Text} {priority : Option ℤ} {mx : MxRecordValue}
    (hmx : MxRecordValue.parse x priority = .ok mx) (hvalid : mx.validate = .ok ()) {n : Name}
    (hn : parseName mx.target = .ok n) {text : Text} (htext : TargetText n text) :
    ParsesTo .mx x priority (.other (join [' '] [natText mx.priority, text])) := by
  have htarget := isTarget_mx hmx hvalid
  obtain ⟨hwords, hcanonical, hcases⟩ := targetText_target hwire htarget hn htext
  obtain ⟨-, h0, h1, hprio⟩ := MxRecordValue.parse_eq_ok.1 hmx
  have hle : mx.priority ≤ 65535 := by omega
  have hsplit : splitWhitespace (join [' '] [natText mx.priority, text]) = [natText mx.priority, text] := by
    have e : join [' '] [natText mx.priority, text] = natText mx.priority ++ ' ' :: text := by simp [join]
    rw [e, splitWhitespace_natText, hwords]
  have hparse : ∀ t, splitWhitespace t = [t] → MxRecordValue.parse t (some (mx.priority : ℤ)) = .ok ⟨mx.priority, t⟩ :=
    fun t ht => MxRecordValue.parse_eq_ok.2 ⟨ht, by simp, by simpa using hle, by simp⟩
  have hvalid' : MxRecordValue.validate ⟨mx.priority, text⟩ = .ok () := by
    unfold MxRecordValue.validate
    rw [trim_eq_of_splitWhitespace hwords]
    rcases hcases with ⟨rfl, hroot⟩ | ⟨hroot, haccepted⟩
    · have hzero := hvalid
      unfold MxRecordValue.validate at hzero
      rwa [hroot] at hzero
    · rw [if_neg hroot]
      exact haccepted _
  refine ⟨.string text, some (mx.priority : ℤ), toFqdnLowercase mx.target, ?_, ?_, ?_⟩
  · rw [parsedValue_priority rfl hsplit rfl hle]
    simp [join]
  · show RecordType.mx.encodedValue text (some (mx.priority : ℤ)) = _
    rw [RecordType.encodedValue, trim_eq_of_splitWhitespace hwords, hparse text hwords, Fallible.ok_bind, hvalid', Fallible.ok_bind,
      ← hcanonical]
    rfl
  · have hwords' : splitWhitespace (toFqdnLowercase mx.target) = [toFqdnLowercase mx.target] :=
      htarget.isStoredTarget.splitWhitespace
    simp only [RecordType.canonicalValue, hmx, hparse _ hwords', MxRecordValue.canonical, htarget.stored.2]

theorem parsesTo_srv (hwire : crates.Rfc1035Wire) {x : Text} {priority : Option ℤ} {srv : SrvRecordValue}
    (hsrv : SrvRecordValue.parse x priority = .ok srv) (hvalid : srv.validate = .ok ()) {n : Name}
    (hn : parseName srv.target = .ok n) {text : Text} (htext : TargetText n text) :
    ParsesTo .srv x priority (.other (join [' '] [natText srv.priority, natText srv.weight, natText srv.port, text])) := by
  have htarget := isTarget_srv hsrv hvalid
  obtain ⟨hwords, hcanonical, hcases⟩ := targetText_target hwire htarget hn htext
  obtain ⟨_, _, -, hw, ho, h0, h1, hprio⟩ := SrvRecordValue.parse_eq_ok.1 hsrv
  have hle : srv.priority ≤ 65535 := by omega
  let fields (t : Text) : Text := natText srv.weight ++ [' '] ++ natText srv.port ++ [' '] ++ t
  have hfields : ∀ t, splitWhitespace t = [t] → splitWhitespace (fields t) = [natText srv.weight, natText srv.port, t] :=
    fun t ht => by rw [splitWhitespace_srv, ht]
  have hsplit : splitWhitespace (join [' '] [natText srv.priority, natText srv.weight, natText srv.port, text]) =
      [natText srv.priority, natText srv.weight, natText srv.port, text] := by
    have e : join [' '] [natText srv.priority, natText srv.weight, natText srv.port, text] =
        natText srv.priority ++ ' ' :: fields text := by simp [join, fields]
    rw [e, splitWhitespace_natText, hfields text hwords]
  have hparse : ∀ t s, splitWhitespace t = [natText srv.weight, natText srv.port, s] →
      SrvRecordValue.parse t (some (srv.priority : ℤ)) = .ok ⟨srv.priority, srv.weight, srv.port, s⟩ := fun t s ht =>
    SrvRecordValue.parse_eq_ok.2 ⟨_, _, ht, parseUnsigned_natText.2 ⟨rfl, le_of_parseUnsigned hw⟩,
      parseUnsigned_natText.2 ⟨rfl, le_of_parseUnsigned ho⟩, by simp, by simpa using hle, by simp⟩
  have hvalid' : SrvRecordValue.validate ⟨srv.priority, srv.weight, srv.port, text⟩ = .ok () := by
    unfold SrvRecordValue.validate
    rw [trim_eq_of_splitWhitespace hwords]
    rcases hcases with ⟨rfl, -⟩ | ⟨hroot, haccepted⟩
    · rfl
    · rw [if_neg hroot]
      exact haccepted _
  have htrim : splitWhitespace (trim (fields text)) = [natText srv.weight, natText srv.port, text] := by
    rw [splitWhitespace_trim, hfields text hwords]
  refine ⟨.string (fields text), some (srv.priority : ℤ), fields (toFqdnLowercase srv.target), ?_, ?_, ?_⟩
  · have e : join [' '] [natText srv.weight, natText srv.port, text] = fields text := by simp [join, fields]
    rw [← e]
    exact parsedValue_priority rfl hsplit rfl hle
  · show RecordType.srv.encodedValue (fields text) (some (srv.priority : ℤ)) = _
    rw [RecordType.encodedValue, hparse _ _ htrim, Fallible.ok_bind, hvalid', Fallible.ok_bind, ← hcanonical]
    rfl
  · have hwords' : splitWhitespace (toFqdnLowercase srv.target) = [toFqdnLowercase srv.target] :=
      htarget.isStoredTarget.splitWhitespace
    simp only [RecordType.canonicalValue, hsrv, hparse _ _ (hfields _ hwords'), SrvRecordValue.canonical, htarget.stored.2]

/-- **Values.**  What the reader returns of the rdata of a row is encoded to the canonical value of the row. -/
theorem parsesTo_served (hwire : crates.Rfc1035Wire) (hbase64 : crates.Base64RoundTrip) {r : RecordData} (hok : RowOk r)
    (htxt : TxtOk r) (hfilled : r.recordType = .txt → r.value ≠ txtIntoEncoded []) {d : Rdata} (hd : r.served = some d)
    {z : ZonefileRdata} (hz : RendersData d z) : ParsesTo r.recordType r.value r.priority z := by
  have hvalue := hok.value
  cases ht : r.recordType with
  | soa => exact absurd ht hok.notSoa
  | txt =>
      obtain ⟨rdata, e, hrdata⟩ := htxt ht
      obtain ⟨rfl, hlen⟩ := (served_txt hwire hbase64 ht e hrdata).1 hd
      have hne : rdata ≠ [] := fun hnil => hfilled ht (by rw [e, hnil])
      obtain ⟨texts, htexts, rfl⟩ := hrdata
      rw [rendersData_txt hz, e]
      exact parsesTo_txt htexts hne r.priority
  | a | aaaa =>
      simp only [RecordData.served, ht] at hd
      obtain ⟨addr, haddr, rfl⟩ := Option.map_eq_some_iff.1 hd
      cases hz with
      | other h =>
          cases h
          first
            | exact parsesTo_a haddr r.priority
            | exact parsesTo_aaaa haddr r.priority
  | cname | ns | ptr =>
      simp only [RecordData.served, ht] at hd
      obtain ⟨n, hn, rfl⟩ := Option.map_eq_some_iff.1 hd
      cases hz with
      | other h =>
          cases h with
          | _ h => exact parsesTo_host hwire (by simp) (ht ▸ hvalue) (toOption_eq_some.1 hn) h
  | mx =>
      simp only [RecordData.served, ht] at hd
      obtain ⟨mx, hmx, hvalid⟩ := validateValue_mx (ht ▸ hvalue)
      rw [toOption_eq_some.2 hmx] at hd
      obtain ⟨n, hn, rfl⟩ := Option.map_eq_some_iff.1 hd
      cases hz with
      | other h =>
          cases h with
          | @mx _ _ text h => exact parsesTo_mx hwire hmx hvalid (toOption_eq_some.1 hn) h
  | srv =>
      simp only [RecordData.served, ht] at hd
      obtain ⟨srv, hsrv, hvalid⟩ := validateValue_srv (ht ▸ hvalue)
      rw [toOption_eq_some.2 hsrv] at hd
      obtain ⟨n, hn, rfl⟩ := Option.map_eq_some_iff.1 hd
      cases hz with
      | other h =>
          cases h with
          | @srv _ _ _ _ text h => exact parsesTo_srv hwire hsrv hvalid (toOption_eq_some.1 hn) h

omit crates in
theorem parseInZone_owner {o : OwnerName} {zone : ZoneName} {n : Name} (hn : n.labels = wireLabels (o.absoluteLabels zone))
    {t : Text} (ht : Displays n t) : OwnerName.parseInZone (toAsciiLowercase t) zone = .ok o := by
  have howner := o.absoluteLabels_isOwnerLabel zone
  have hlower : n.lower.labels = wireLabels (o.absoluteLabels zone) := by
    have hmap : (o.absoluteLabels zone).map toAsciiLowercase = o.absoluteLabels zone := by
      conv_rhs => rw [← List.map_id (o.absoluteLabels zone)]
      exact List.map_congr_left fun l hl => (howner l hl).2
    rw [lower_labels_eq hn, hmap]
  rcases ht with ht | ⟨hroot, -⟩
  · refine OwnerName.parseInZone_eq_ok.2 ((parseInZoneLabels_labelsText ht).2 ⟨_, hlower, fun l hl => ?_, .inr ⟨?_, .inl ?_⟩⟩)
    · exact (classifyOwnerLabel_eq_ok.1 (howner l hl).1).2.2
    · rintro rfl
      have hat : o.absoluteLabels zone = [['@']] := wireLabels_injective (hlower.symm.trans ((decodeLabels_labelsText ht).1 rfl))
      exact zone.not_at_suffix (hat ▸ List.suffix_append _ _)
    · exact OwnerName.stripZoneSuffix_append o.labels zone.labels
  · rw [hn, wireLabels, List.map_eq_nil_iff] at hroot
    exact absurd hroot (o.absoluteLabels_ne_nil zone)

/-- **Rows.**  What the reader returns of an exported row is parsed as a record of the owner, type, canonical value and TTL of
the row. -/
theorem Exportable.exists_parsedRecord (hwire : crates.Rfc1035Wire) (hbase64 : crates.Base64RoundTrip) {zone : Zone}
    {r : RecordData} (h : Exportable zone.name r) {a : ResourceRecord} (ha : r.rrIn zone.name = some a) {z : ZonefileRecord}
    (hz : Renders a z) : ∃ p f, parseEntry (.record z) = .record p ∧ p.data zone = some f ∧ f.rr = r.rr := by
  obtain ⟨n, d, hn, hd, rfl⟩ := RecordData.rrIn_eq_some.1 ha
  obtain ⟨value, priority, e, hvalue, henc, hcanonical⟩ := parsesTo_served hwire hbase64 h.row h.spelled.txtOk h.filled hd hz.rdata
  have howner := parseInZone_owner ((parseName_toFqdn hwire).1 hn).2 hz.owner
  have htype : z.rtype = r.recordType.code := hz.rtype.trans (served_shape hd).1
  have hu32 : asU32 r.ttl = r.ttl := h.ttl.asU32
  have httl : ¬ 2147483647 < z.ttl := by
    have hle := h.ttl.2
    have := hz.ttl
    unfold i32Max at hle
    simp only at this
    omega
  have hsix : z.rtype ≠ 6 ∧ importedType z.rtype = some r.recordType := by
    have hsoa := h.row.notSoa
    rw [htype]
    generalize r.recordType = t at hsoa
    cases t <;> simp_all [RecordType.code, importedType]
  refine ⟨⟨toAsciiLowercase z.owner, r.recordType, value, z.ttl, priority⟩, ⟨r.name, r.recordType, e, z.ttl, priority⟩, ?_, ?_, ?_⟩
  · simp only [parseEntry]
    rw [if_neg (by simp [hz.rclass]), if_neg hsix.1, hsix.2]
    simp only [if_neg httl, hvalue]
  · exact data_eq_some.2 ⟨e, r.name, henc, howner, rfl⟩
  · have hz' : (z.ttl : ℤ) = r.ttl := by rw [hz.ttl, hu32]
    simp only [RecordData.rr, RecordData.canonical, hz']
    rw [hcanonical]

/-! ### The import -/

omit crates in
theorem parseEntry_soa {a : ResourceRecord} (ha : a.data.isSoa = true) {z : ZonefileRecord} (hz : Renders a z) :
    parseEntry (.record z) = .ignored := by
  have htype : z.rtype = 6 := by
    rw [hz.rtype]
    generalize a.data = d at ha
    cases d <;> first | rfl | cases ha
  simp [parseEntry, hz.rclass, htype]

/-- The records of exported rows, as the import parses them. -/
theorem exists_parsedRecords (hwire : crates.Rfc1035Wire) (hbase64 : crates.Base64RoundTrip) {zone : Zone} {records : List Record}
    (h : ∀ r ∈ records, Exportable zone.name r.toRecordData) {rrs : List ResourceRecord}
    (hrrs : List.Forall₂ (fun r a => r.toRecordData.rrIn zone.name = some a) records rrs) {entries : List ZonefileEntry}
    (hentries : List.Forall₂ (fun a e => ∃ z, e = .record z ∧ Renders a z) rrs entries) :
    ∃ parsed fs, entries.map parseEntry = parsed.map .record ∧
      List.Forall₂ (fun p f => p.data zone = some f) parsed fs ∧ fs.map (·.rr) = records.map (·.rr) := by
  induction hrrs generalizing entries with
  | nil =>
      cases hentries
      exact ⟨[], [], rfl, .nil, rfl⟩
  | @cons r a records rrs ha _ ih =>
      cases hentries with
      | cons hz hentries =>
          obtain ⟨z, rfl, hz⟩ := hz
          obtain ⟨p, f, hp, hf, hrr⟩ := (h r (by simp)).exists_parsedRecord hwire hbase64 ha hz
          obtain ⟨parsed, fs, hparsed, hdata, hrrs⟩ := ih (fun s hs => h s (by simp [hs])) hentries
          exact ⟨p :: parsed, f :: fs, by rw [List.map_cons, List.map_cons, hp, hparsed], .cons hf hdata, by
            rw [List.map_cons, List.map_cons, hrr, hrrs]⟩

theorem normalizeSteps_of_nodup {zone : Zone} {parsed : List ParsedRecord} {fs : List RecordData}
    (hdata : List.Forall₂ (fun p f => p.data zone = some f) parsed fs) {n : Normalized}
    (hnodup : (n.desired.map (·.data.key) ++ fs.map (·.key)).Nodup) :
    ∃ ds : List DesiredRecord, ds.map (·.data) = fs ∧
      parsed.foldlM (normalizeStep zone) n = .ok { n with desired := n.desired ++ ds } := by
  induction hdata generalizing n with
  | nil => exact ⟨[], rfl, by simp [pure, Except.pure]⟩
  | @cons p f parsed fs hf _ ih =>
      obtain ⟨value, owner, hvalue, howner, rfl⟩ := data_eq_some.1 hf
      have howner : normalizeRecordOwnerName p.ownerFqdn zone.name = .ok owner := Fallible.mapError_eq_ok.2 howner
      have hfind : n.desired.find? (·.data.sameRr ⟨owner, p.recordType, value, p.ttl, p.priority⟩) = none := by
        rw [List.find?_eq_none]
        intro d hd hsame
        have hkey := sameRr_iff_key.1 hsame
        exact (List.nodup_append.1 hnodup).2.2 _ (List.mem_map_of_mem hd) _ (List.mem_cons_self ..) hkey
      have hstep : normalizeStep zone n p = .ok { n with desired := n.desired ++
          [⟨p.ownerFqdn, ⟨owner, p.recordType, value, p.ttl, p.priority⟩⟩] } := by
        simp only [normalizeStep, hvalue, howner, hfind]
      obtain ⟨ds, hds, hfold⟩ := ih (n := { n with desired := n.desired ++
        [⟨p.ownerFqdn, ⟨owner, p.recordType, value, p.ttl, p.priority⟩⟩] }) (by simpa using hnodup)
      refine ⟨⟨p.ownerFqdn, ⟨owner, p.recordType, value, p.ttl, p.priority⟩⟩ :: ds, by rw [List.map_cons, hds], ?_⟩
      rw [List.foldlM_cons, hstep, Fallible.ok_bind, hfold, List.append_assoc, List.singleton_append]

omit crates in
/-- Desired records that are the rows of the zone ask for nothing, in any mode. -/
theorem importPlan_of_rrs {mode : ImportMode} {desired : List DesiredRecord} {tx : Tx} (hok : TxOk tx)
    (hmem : ∀ x, x ∈ desired.map (·.data.rr) ↔ x ∈ tx.store.records.map (·.rr)) :
    importPlan mode desired tx = ⟨[], [], [], 0, desired.length⟩ := by
  have hrow : ∀ d ∈ desired, ∃ e ∈ tx.store.records, e.rr = d.data.rr := fun d hd =>
    List.mem_map.1 ((hmem _).1 (List.mem_map_of_mem (f := (·.data.rr)) hd))
  have hkept : ∀ e ∈ tx.store.records, ∃ d ∈ desired, d.data.rr = e.rr := fun e he =>
    List.mem_map.1 ((hmem _).2 (List.mem_map_of_mem (f := (·.rr)) he))
  -- a row with the key of a desired record is that record
  have hstale : ∀ d ∈ desired, ∀ e ∈ tx.store.records, e.key = d.data.key → e.ttl = d.data.ttl := by
    intro d hd e he hkey
    obtain ⟨e', he', hrr⟩ := hrow d hd
    obtain ⟨hkey', httl⟩ := rr_eq_iff.1 hrr
    rw [hok.store.rows.eq_of_key_eq he he' (hkey.trans hkey'.symm)]
    exact httl
  have hdels : (importPlan mode desired tx).dels = [] := by
    refine List.eq_nil_iff_forall_not_mem.2 fun e he => ?_
    obtain ⟨he, -, -, hk⟩ := (mem_dels hok).1 he
    obtain ⟨d, hd, hrr⟩ := hkept e he
    exact hk (List.mem_map.2 ⟨d, hd, (rr_eq_iff.1 hrr).1⟩)
  have httl : (importPlan mode desired tx).ttlDels = [] := by
    refine List.eq_nil_iff_forall_not_mem.2 fun e he => ?_
    obtain ⟨-, he, d, hd, hkey, hne⟩ := mem_ttlDels.1 he
    exact hne (hstale d hd e he hkey)
  have hadds : (importPlan mode desired tx).adds = [] := by
    refine List.eq_nil_iff_forall_not_mem.2 fun d hadd => ?_
    obtain ⟨hd, habsent | ⟨-, e, he, hkey, hne⟩⟩ := mem_adds.1 hadd
    · obtain ⟨e, he, hrr⟩ := hrow d hd
      exact habsent e he (rr_eq_iff.1 hrr).1
    · exact hne (hstale d hd e he hkey)
  have hupd := updated_le_adds mode desired tx
  have hun := adds_add_unchanged mode desired tx
  rw [hadds, List.length_nil, Nat.le_zero] at hupd
  rw [hadds, List.length_nil, Nat.zero_add] at hun
  calc importPlan mode desired tx
      _ = ⟨(importPlan mode desired tx).dels, (importPlan mode desired tx).ttlDels,
          (importPlan mode desired tx).adds, (importPlan mode desired tx).updated,
          (importPlan mode desired tx).unchanged⟩ := rfl
      _ = ⟨[], [], [], 0, desired.length⟩ := by rw [hdels, httl, hadds, hupd, hun]

/-- What an import parses of an exported file: one record for each row. -/
theorem exists_normalizeParsed (hwire : crates.Rfc1035Wire) (hbase64 : crates.Base64RoundTrip) (hreads : crates.ReadsMasterFiles)
    {zone : Zone} (hsoa : zone.SoaOk) (hserial : TtlOk zone.serial) {records : List Record}
    (h : ∀ r ∈ records, Exportable zone.name r.toRecordData) (hnodup : (records.map (·.key)).Nodup) :
    ∃ text desired, renderZoneFile zone records = .ok text ∧ (desired.map (·.data.rr)).Perm (records.map (·.rr)) ∧
      normalizeParsed zone (parseZoneFile text zone).1 (parseZoneFile text zone).2 = .ok ⟨desired, [], 0⟩ := by
  obtain ⟨text, soa, rrs, htext, hdata, hrrs, hread⟩ := readMasterFile_export hwire hbase64 hsoa hserial h
  have hperm := List.mergeSort_perm records exportLe
  -- the first entry is the SOA, which is ignored
  obtain ⟨z, entries, hz, hentries, hfile⟩ : ∃ z entries, Renders soa z ∧
      List.Forall₂ (fun a e => ∃ z, e = .record z ∧ Renders a z) rrs entries ∧
      crates.readZonefile (zonefileBuffer text zone) = .record z :: entries := by
    have hall := hreads _ _ hread
    generalize crates.readZonefile (zonefileBuffer text zone) = file at hall
    cases hall with
    | cons hz hentries =>
        obtain ⟨z, rfl, hz⟩ := hz
        exact ⟨z, _, hz, hentries, rfl⟩
  obtain ⟨parsed, fs, hparsed, hfs, hmap⟩ := exists_parsedRecords hwire hbase64
    (fun r hr => h r (hperm.mem_iff.1 hr)) hrrs hentries
  have hparse : parseZoneFile text zone = (parsed, []) := by
    simp only [parseZoneFile, hfile, List.map_cons, parseEntry_soa hdata hz, hparsed]
    simp [List.filterMap_map]
  have hkeys : fs.map (·.key) = (records.mergeSort exportLe).map (·.key) := by
    have := congrArg (List.map fun x : OwnerName × RecordType × Text × ℤ => (x.1, x.2.1, x.2.2.1)) hmap
    simpa [List.map_map, Function.comp_def, RecordData.rr, RecordData.key] using this
  have hdistinct : (fs.map (·.key)).Nodup := by
    rw [hkeys]
    exact (hperm.map _).nodup_iff.2 hnodup
  obtain ⟨ds, hds, hfold⟩ := @normalizeSteps_of_nodup _ zone parsed fs hfs ⟨[], [], 0⟩ (by simpa using hdistinct)
  refine ⟨text, ds, htext, ?_, ?_⟩
  · have e : ds.map (·.data.rr) = fs.map (·.rr) := by rw [← hds, List.map_map]; rfl
    rw [e, hmap]
    exact hperm.map _
  · rw [hparse]
    exact hfold

/-- **Export and import.**  Importing what was exported into the same zone changes nothing, in any mode. -/
theorem export_import_unchanged (hwire : crates.Rfc1035Wire) (hbase64 : crates.Base64RoundTrip) (htxt : crates.TxtOctets)
    (hnonempty : crates.TxtNonempty) (hreads : crates.ReadsMasterFiles) {ops : List Op}
    (hops : ∀ op ∈ ops, op.WellTyped ∧ op.IntervalsTyped) {zoneName : Text} {st : ZoneStore}
    (hst : (run ops).lookupByName zoneName = .ok st) {caller : Caller} (hcaller : caller.zoneVisible st.zone.id = true)
    (hserved : ∀ r ∈ st.records, (r.rrIn st.zone.name).isSome = true) (httl : ∀ r ∈ st.records, 0 ≤ r.ttl) :
    ∃ text, exportZoneFile (run ops) caller zoneName = .ok text ∧
      ∀ mode dryRun, importZoneFile (run ops) .global zoneName ⟨text, mode, dryRun⟩ =
        .ok (run ops, ⟨!dryRun, dryRun, ⟨(st.records.filter (·.recordType ≠ .soa)).length, 0, 0, 0,
          (st.records.filter (·.recordType ≠ .soa)).length, 0⟩, []⟩) := by
  have hok := run_ok ops
  have hrows := run_rowsStored hbase64 htxt hnonempty fun op hop => (hops op hop).1
  obtain ⟨hmem, hname⟩ := lookupByName_eq_ok hst
  have hstore := hok.store st hmem
  have hle := @run_ttlsWhere _ (· ≤ i32Max) (fun _ h => h.2) _ (fun op hop => (hops op hop).1)
    (fun _ op hpre _ => (hops op (hpre.subset (by simp))).1.1) st hmem
  have hserial : TtlOk st.zone.serial := by
    obtain ⟨first, k, hfirst, hk, -⟩ := hstore.snapshots
    exact ⟨by omega, hstore.bound⟩
  have hexport : ∀ r ∈ st.records, Exportable st.zone.name r.toRecordData := fun r hr =>
    ⟨hrows.rowOk hmem hr, hrows.spelled st hmem r hr, hrows.filled st hmem r hr,
      ⟨httl r hr, (forall_ttls.1 hle).2.1 r hr⟩, hserved r hr⟩
  have hperm : st.listRecords.Perm st.records := List.mergeSort_perm _ _
  have hnodup : (st.records.map (·.key)).Nodup :=
    List.Nodup.map_on (fun r hr s hs e => hstore.rows.eq_of_key_eq hr hs e) (List.Nodup.of_map _ (hok.ids st hmem).nodup)
  obtain ⟨text, desired, htext, hdesired, hnorm⟩ := exists_normalizeParsed hwire hbase64 hreads
    (run_soaOk (fun op hop => (hops op hop).2) st hmem).1 hserial (fun r hr => hexport r (hperm.mem_iff.1 hr))
    ((hperm.map _).nodup_iff.2 hnodup)
  have hcount : desired.length = (st.records.filter (·.recordType ≠ .soa)).length := by
    have hfilter : st.records.filter (·.recordType ≠ .soa) = st.records :=
      List.filter_eq_self.2 fun r hr => decide_eq_true (hexport r hr).row.notSoa
    rw [hfilter]
    simpa using (hdesired.length_eq).trans (by simpa using hperm.length_eq)
  refine ⟨text, ?_, fun mode dryRun => ?_⟩
  · obtain ⟨found, hfound, hget⟩ := Fallible.bind_eq_ok.1 hst
    obtain ⟨name, hnormal, hfound⟩ := Fallible.bind_eq_ok.1 hfound
    cases hfound
    refine Fallible.bind_eq_ok.2 ⟨name, hnormal, ?_⟩
    split at hget
    · rename_i store hstore
      cases hget
      simp only [hstore, hcaller, if_true]
      exact htext
    · cases hget
  · refine Fallible.bind_eq_ok.2 ⟨(), rfl, Fallible.bind_eq_ok.2 ⟨st, hst, ?_⟩⟩
    have htx := hok.txOk hmem
    refine inTx_eq_ok.2 ⟨(run ops).beginTx st, ?_, commit_beginTx hok hmem⟩
    rw [← hcount]
    exact @importTx_unchanged _ ⟨text, mode, dryRun⟩ ((run ops).beginTx st) ⟨desired, [], 0⟩ hnorm rfl
      (importPlan_of_rrs htx fun x => (hdesired.trans (hperm.map _)).mem_iff)

end Reading

/-! ### A reader -/

/-- Octets that are character-strings. -/
def IsCharStrings (octets : List UInt8) : Prop :=
  ∃ segments : List (List UInt8), (∀ s ∈ segments, s.length ≤ 255) ∧ octets = segments.flatMap fun s => UInt8.ofNat s.length :: s

theorem isCharStrings_of_mapM {fields : List Rfc1035.Field} {strings : List (List UInt8)}
    (h : fields.mapM Rfc1035.readCharString = some strings) : IsCharStrings strings.flatten := by
  induction fields generalizing strings with
  | nil =>
      cases h
      exact ⟨[], by simp, rfl⟩
  | cons field fields ih =>
      rw [List.mapM_cons] at h
      obtain ⟨string, hstring, h⟩ := Option.bind_eq_some_iff.1 h
      obtain ⟨rest, hrest, h⟩ := Option.bind_eq_some_iff.1 h
      cases h
      obtain ⟨octets, -, hstring⟩ := Option.bind_eq_some_iff.1 hstring
      obtain ⟨hlen, hstring⟩ := Option.ite_none_right_eq_some.1 hstring
      cases hstring
      obtain ⟨segments, hsegments, e⟩ := ih hrest
      exact ⟨octets :: segments, List.forall_mem_cons.2 ⟨hlen, hsegments⟩, by simp [e]⟩

theorem isCharStrings_of_readRdata {origin : Option Name} {rtype : Rfc1035.Rtype} {fields : List Rfc1035.Field}
    {octets : List UInt8} (h : Rfc1035.readRdata origin rtype fields = some (.txt octets)) : IsCharStrings octets := by
  unfold Rfc1035.readRdata at h
  split at h
  case h_9 fields =>
    obtain ⟨strings, hstrings, h⟩ := Option.bind_eq_some_iff.1 h
    split at h
    · cases h
      exact isCharStrings_of_mapM hstrings
    · cases h
  all_goals simp [Option.bind_eq_some_iff, Option.map_eq_some_iff] at h

theorem isCharStrings_of_readRecord {context context' : Rfc1035.Context} {owner : Name} {fields : List Rfc1035.Field}
    {a : ResourceRecord} (h : Rfc1035.readRecord context owner fields = some (context', a)) {octets : List UInt8}
    (ha : a.data = .txt octets) : IsCharStrings octets := by
  obtain ⟨ttl, -, h⟩ := Option.bind_eq_some_iff.1 h
  split at h
  · cases h
  · obtain ⟨mnemonic, -, h⟩ := Option.bind_eq_some_iff.1 h
    obtain ⟨rtype, -, h⟩ := Option.bind_eq_some_iff.1 h
    obtain ⟨data, hdata, h⟩ := Option.bind_eq_some_iff.1 h
    cases h
    exact isCharStrings_of_readRdata (hdata.trans (congrArg some ha))

theorem isCharStrings_of_readLine {context context' : Rfc1035.Context} {line : Rfc1035.Line} {a : ResourceRecord}
    (h : Rfc1035.readLine context line = some (context', some a)) {octets : List UInt8} (ha : a.data = .txt octets) :
    IsCharStrings octets := by
  have hrecord : ∀ {owner : Name} {fields : List Rfc1035.Field},
      (Rfc1035.readRecord context owner fields).map (fun s => (s.1, some s.2)) = some (context', some a) →
      IsCharStrings octets := by
    intro owner fields h
    obtain ⟨⟨c, r⟩, hread, e⟩ := Option.map_eq_some_iff.1 h
    cases e
    exact isCharStrings_of_readRecord hread ha
  unfold Rfc1035.readLine at h
  split at h
  · cases h
  split at h
  · obtain ⟨owner, -, h⟩ := Option.bind_eq_some_iff.1 h
    exact hrecord h
  · obtain ⟨text, -, h⟩ := Option.bind_eq_some_iff.1 h
    split at h
    · -- a directive
      split at h
      · split at h
        · obtain ⟨_, -, e⟩ := Option.map_eq_some_iff.1 h
          cases e
        split at h
        · obtain ⟨_, -, e⟩ := Option.map_eq_some_iff.1 h
          cases e
        · cases h
      · cases h
    · obtain ⟨owner, -, h⟩ := Option.bind_eq_some_iff.1 h
      exact hrecord h

theorem isCharStrings_of_readLines {context : Rfc1035.Context} {lines : List Rfc1035.Line} {rrs : List ResourceRecord}
    (h : Rfc1035.readLines context lines = some rrs) {a : ResourceRecord} (ha : a ∈ rrs) {octets : List UInt8}
    (hdata : a.data = .txt octets) : IsCharStrings octets := by
  induction lines generalizing context rrs with
  | nil =>
      cases h
      cases ha
  | cons line lines ih =>
      obtain ⟨⟨context', r⟩, hline, h⟩ := Option.bind_eq_some_iff.1 h
      obtain ⟨rest, hrest, rfl⟩ := Option.map_eq_some_iff.1 h
      rcases List.mem_append.1 ha with ha | ha
      · obtain rfl := Option.mem_toList.1 ha
        exact isCharStrings_of_readLine hline hdata
      · exact ih hrest ha

theorem rendersData_presentation {d : Rdata} (h : ∀ octets, d = .txt octets → IsCharStrings octets) :
    RendersData d (rdataPresentation d) := by
  cases d with
  | txt octets =>
      obtain ⟨segments, hsegments, rfl⟩ := h _ rfl
      rw [rdataPresentation, txtChunks_segments hsegments]
      exact .txt hsegments
  | a addr => exact .other (.a addr)
  | aaaa addr => exact .other (.aaaa addr)
  | ns n => exact .other (.ns (Rfc1035.targetText_presentation n))
  | cname n => exact .other (.cname (Rfc1035.targetText_presentation n))
  | ptr n => exact .other (.ptr (Rfc1035.targetText_presentation n))
  | mx preference n => exact .other (.mx preference (Rfc1035.targetText_presentation n))
  | srv priority weight port n => exact .other (.srv priority weight port (Rfc1035.targetText_presentation n))
  | soa mname rname serial refresh retry expire minimum => exact .other (.soa mname rname serial refresh retry expire minimum [])

theorem masterFileCrates_reads : masterFileCrates.ReadsMasterFiles := by
  intro t rrs h
  show List.Forall₂ _ rrs (((Rfc1035.readMasterFile t).getD []).map _)
  rw [h, Option.getD_some, List.forall₂_map_right_iff, List.forall₂_same]
  intro a ha
  obtain ⟨lines, -, h⟩ := Option.bind_eq_some_iff.1 h
  exact ⟨_, rfl, Rfc1035.displays_presentation a.owner, rfl, rfl, rfl,
    rendersData_presentation fun octets hdata => isCharStrings_of_readLines h ha hdata⟩

theorem export_import_sampleHistory : ∃ text, @exportZoneFile masterFileCrates (@run masterFileCrates sampleHistory) .global
      (lit "example.com") = .ok text ∧ ∀ mode dryRun,
    @importZoneFile masterFileCrates (@run masterFileCrates sampleHistory) .global (lit "example.com") ⟨text, mode, dryRun⟩ =
      .ok (@run masterFileCrates sampleHistory, ⟨!dryRun, dryRun, ⟨2, 0, 0, 0, 2, 0⟩, []⟩) := by
  have htyped : ∀ op ∈ sampleHistory, @Op.WellTyped masterFileCrates op ∧ op.IntervalsTyped := by
    have hintervals : ∀ n ∈ sampleZone.intervals, n ≤ i32Max := by decide
    simpa [sampleHistory, Op.WellTyped, Op.requestedTtls, Op.items, sampleItem, Op.IntervalsTyped] using hintervals
  obtain ⟨st, hst, hrows, hcount⟩ : ∃ st, (@run masterFileCrates sampleHistory).lookupByName (lit "example.com") = .ok st ∧
      (∀ r ∈ st.records, (@RecordData.rrIn masterFileCrates st.zone.name r.toRecordData).isSome = true ∧ 0 ≤ r.ttl) ∧
      (st.records.filter (·.recordType ≠ .soa)).length = 2 := by
    have hcheck : ((@run masterFileCrates sampleHistory).lookupByName (lit "example.com")).toOption.any (fun st =>
        decide ((∀ r ∈ st.records, (@RecordData.rrIn masterFileCrates st.zone.name r.toRecordData).isSome = true ∧ 0 ≤ r.ttl) ∧
          (st.records.filter (·.recordType ≠ .soa)).length = 2)) = true := by
      decide +kernel
    obtain ⟨st, hst, hcheck⟩ := (Option.any_eq_true ..).1 hcheck
    exact ⟨st, toOption_eq_some.1 hst, of_decide_eq_true hcheck⟩
  have hwire : masterFileCrates.Rfc1035Wire := ⟨sampleCrates_wire.names, sampleCrates_wire.rdata, sampleCrates_wire.compose⟩
  have h := @export_import_unchanged masterFileCrates hwire sampleCrates_base64 sampleCrates_txt
    sampleCrates_txtNonempty masterFileCrates_reads sampleHistory htyped (lit "example.com") st hst .global rfl
    (fun r hr => (hrows r hr).1) fun r hr => (hrows r hr).2
  rwa [hcount] at h

end Bindizr
