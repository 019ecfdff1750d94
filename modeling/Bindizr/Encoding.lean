import Bindizr.OwnerForms
import Bindizr.StoredTxt

/-! # Rows on the wire

The record a row is sent as: its owner is the name the labels of the row and of the zone make
(`parseName_toFqdn`), its rdata is a function of the row's type, value and priority
(`RecordData.served`), and `add_record` composes exactly that (`addRecordParts_eq_ok`).  A name
is read from its presentation form, where every character that is not printable ASCII is an
error; a stored owner may hold such characters, a stored target may not. -/

namespace Bindizr

open Rfc1035 (Name Rdata ResourceRecord isPrintable presentationLabels presentationLabelsFrom)

/-! ### Presentation form of labels -/

/-- A text of printable ASCII. -/
def Printable (t : Text) : Prop := ∀ c ∈ t, isPrintable c = true

instance (t : Text) : Decidable (Printable t) := List.decidableBAll (isPrintable · = true) t

theorem isPrintable_of_escaped {c : Char} (h : c ∈ escapedInLabel) : isPrintable c = true := by
  simp only [escapedInLabel, List.mem_cons, List.not_mem_nil, or_false] at h
  rcases h with rfl | rfl | rfl | rfl | rfl | rfl | rfl | rfl <;> rfl

theorem presentationLabelsFrom_escapeLabel {l : Text} (t : Text) (label : List UInt8) (h : Printable l) :
    presentationLabelsFrom (escapeLabel l ++ t) label = presentationLabelsFrom t (label ++ asBytes l) := by
  induction l generalizing label with
  | nil => simp
  | cons c l ih =>
      have hc : isPrintable c = true := h c (by simp)
      have hbytes : asBytes (c :: l) = UInt8.ofNat c.toNat :: asBytes l := by
        rw [asBytes_cons, utf8EncodeChar_of_lt (Rfc1035.toNat_lt_of_isPrintable hc)]
        rfl
      have ih := ih (label ++ [UInt8.ofNat c.toNat]) fun d hd => h d (by simp [hd])
      rw [List.append_assoc, List.singleton_append, ← hbytes] at ih
      rw [escapeLabel_cons]
      split
      · rename_i hesc
        rw [List.append_assoc]
        exact (Rfc1035.presentationLabelsFrom_escape (isAsciiDigit_eq_false_of_escaped hesc) hc).trans ih
      · rename_i hesc
        have hdot : c ≠ '.' := fun e => hesc (by simp [e, escapedInLabel])
        have hslash : c ≠ '\\' := fun e => hesc (by simp [e, escapedInLabel])
        rw [List.append_assoc]
        refine (Rfc1035.presentationLabelsFrom_plain hdot hslash).trans ?_
        rw [if_pos hc]
        exact ih

theorem presentationLabelsFrom_escapeLabel_eq_none {l : Text} (t : Text) (label : List UInt8) (h : ¬ Printable l) :
    presentationLabelsFrom (escapeLabel l ++ t) label = none := by
  induction l generalizing label with
  | nil => exact absurd (by simp [Printable]) h
  | cons c l ih =>
      rw [escapeLabel_cons, List.append_assoc]
      split
      · rename_i hesc
        have hc := isPrintable_of_escaped hesc
        refine (Rfc1035.presentationLabelsFrom_escape (isAsciiDigit_eq_false_of_escaped hesc) hc).trans ?_
        exact ih _ fun hl => h (List.forall_mem_cons.2 ⟨hc, hl⟩)
      · rename_i hesc
        have hdot : c ≠ '.' := fun e => hesc (by simp [e, escapedInLabel])
        have hslash : c ≠ '\\' := fun e => hesc (by simp [e, escapedInLabel])
        refine (Rfc1035.presentationLabelsFrom_plain hdot hslash).trans ?_
        split
        · rename_i hc
          exact ih _ fun hl => h (List.forall_mem_cons.2 ⟨hc, hl⟩)
        · rfl

/-- **Presentation form.**  Joined labels denote their octets exactly when all of them are
printable, with or without a final dot. -/
theorem presentationLabels_joinLabels {ls : List Text} (hne : ls ≠ []) (h : ∀ l ∈ ls, l ≠ []) {dot : Text}
    (hdot : dot = [] ∨ dot = ['.']) : presentationLabels (joinLabels ls ++ dot) =
      if ∀ l ∈ ls, Printable l then some (ls.map asBytes) else none := by
  have hbytes : ∀ {l : Text}, l ≠ [] → asBytes l ≠ [] := by
    intro l hl e
    obtain ⟨c, l, rfl⟩ := List.exists_cons_of_ne_nil hl
    have hlen := length_asBytes (c :: l)
    have hc := c.utf8Size_pos
    rw [e, byteLen_cons, List.length_nil] at hlen
    omega
  unfold presentationLabels
  induction ls with
  | nil => exact absurd rfl hne
  | cons l ls ih =>
      have hl := hbytes (h l (by simp))
      by_cases hp : Printable l
      · cases ls with
        | nil =>
            rw [joinLabels_singleton, presentationLabelsFrom_escapeLabel _ _ hp, List.nil_append,
              if_pos (by simpa using hp)]
            rcases hdot with rfl | rfl
            · rw [Rfc1035.presentationLabelsFrom_end hl]
              rfl
            · rw [Rfc1035.presentationLabelsFrom_dot hl]
              rfl
        | cons m ls =>
            have ih := ih (by simp) fun l hl => h l (by simp [hl])
            rw [joinLabels_cons_cons, List.append_assoc, presentationLabelsFrom_escapeLabel _ _ hp,
              List.nil_append, List.cons_append, Rfc1035.presentationLabelsFrom_dot hl, ih]
            by_cases hps : ∀ l ∈ m :: ls, Printable l
            · rw [if_pos hps, if_pos (List.forall_mem_cons.2 ⟨hp, hps⟩)]
              rfl
            · rw [if_neg hps, if_neg fun h => hps (List.forall_mem_cons.1 h).2]
              rfl
      · rw [if_neg fun h => hp (h l (by simp))]
        cases ls with
        | nil => rw [joinLabels_singleton, presentationLabelsFrom_escapeLabel_eq_none _ _ hp]
        | cons m ls =>
            rw [joinLabels_cons_cons, List.append_assoc, presentationLabelsFrom_escapeLabel_eq_none _ _ hp]

theorem hasBitString_escapeLabel {start : Bool} {l t : Text} (ht : ∀ start, Rfc1035.hasBitString start t = false) :
    Rfc1035.hasBitString start (escapeLabel l ++ t) = false := by
  induction l generalizing start with
  | nil => exact ht start
  | cons c l ih =>
      rw [escapeLabel_cons, List.append_assoc]
      split
      · rename_i hesc
        have hbracket : c ≠ '[' := by
          rintro rfl
          simp [escapedInLabel] at hesc
        exact (Rfc1035.hasBitString_escape hbracket).trans ih
      · rename_i hesc
        have hdot : c ≠ '.' := fun e => hesc (by simp [e, escapedInLabel])
        have hslash : c ≠ '\\' := fun e => hesc (by simp [e, escapedInLabel])
        exact (Rfc1035.hasBitString_plain hdot hslash).trans ih

-- The join escapes no bracket.
theorem hasBitString_joinLabels {ls : List Text} {dot : Text} (hdot : dot = [] ∨ dot = ['.']) {start : Bool} :
    Rfc1035.hasBitString start (joinLabels ls ++ dot) = false := by
  have hend : ∀ start, Rfc1035.hasBitString start dot = false := by
    rcases hdot with rfl | rfl <;> simp [Rfc1035.hasBitString]
  induction ls generalizing start with
  | nil => exact hend start
  | cons l ls ih =>
      cases ls with
      | nil => exact joinLabels_singleton l ▸ hasBitString_escapeLabel hend
      | cons m ls =>
          rw [joinLabels_cons_cons, List.append_assoc]
          refine hasBitString_escapeLabel fun start => ?_
          rw [List.cons_append, Rfc1035.hasBitString]
          exact ih

/-! ### Owners -/

def wireLabels (ls : List Text) : List (List UInt8) := ls.map asBytes

theorem labelsLen_wireLabels (ls : List Text) : Rfc1035.labelsLen (wireLabels ls) = wireLen ls := by
  simp only [Rfc1035.labelsLen, wireLabels, wireLen, List.map_map, Function.comp_def, length_asBytes]

theorem isName_wireLabels {ls : List Text} (h : ∀ l ∈ ls, l ≠ [] ∧ byteLen l ≤ maxDnsLabelLen) :
    Rfc1035.IsName (wireLabels ls) ↔ wireLen ls ≤ 255 := by
  unfold Rfc1035.IsName
  rw [labelsLen_wireLabels]
  refine and_iff_right fun b hb => ?_
  obtain ⟨l, hl, rfl⟩ := List.mem_map.1 hb
  obtain ⟨hne, hle⟩ := h l hl
  obtain ⟨c, l, rfl⟩ := List.exists_cons_of_ne_nil hne
  have hc := c.utf8Size_pos
  unfold maxDnsLabelLen at hle
  rw [length_asBytes]
  rw [byteLen_cons] at hle ⊢
  omega

/-- An owner whose labels can be read as a name. -/
def OwnerName.Printable (o : OwnerName) : Prop := ∀ l ∈ o.labels, Bindizr.Printable l

instance (o : OwnerName) : Decidable o.Printable := List.decidableBAll Bindizr.Printable o.labels

theorem isPrintable_of_isLdh {u : Bool} {c : Char} (h : isLdh u c = true) : isPrintable c = true := by
  obtain ⟨_, _, _, _, h1, h2⟩ := isLdh_cases h
  simp only [isPrintable, Bool.and_eq_true, decide_eq_true_eq]
  omega

theorem printable_of_classifyDomainLabel {l : Text} {u : Bool} (h : classifyDomainLabel l u = .ok ()) :
    Printable l := fun c hc => isPrintable_of_isLdh ((classifyDomainLabel_eq_ok.1 h).2.2.1 c hc)

section Served

variable [crates : Crates]

theorem parseName_joinLabels (hcrates : crates.Rfc1035Wire) {ls : List Text} (hne : ls ≠ [])
    (h : ∀ l ∈ ls, l ≠ []) {dot : Text} (hdot : dot = [] ∨ dot = ['.']) {n : Name} :
    parseName (joinLabels ls ++ dot) = .ok n ↔ (∀ l ∈ ls, Printable l) ∧ n.labels = wireLabels ls := by
  have htrim := trimEndMatches_joinLabels_ne_nil hne h dot
  rw [parseName, if_neg htrim, Fallible.mapError_eq_ok, hcrates.names _ _ htrim (hasBitString_joinLabels hdot),
    presentationLabels_joinLabels hne h hdot]
  split
  · rename_i hp
    rw [Option.some.injEq, eq_comm]
    exact (and_iff_right hp).symm
  · rename_i hp
    simp [hp]

/-- **The owner of a row.**  Its absolute form denotes the labels of the owner and the zone, when
the owner is printable. -/
theorem parseName_toFqdn (hcrates : crates.Rfc1035Wire) {o : OwnerName} {zone : ZoneName} {n : Name} :
    parseName (o.toFqdn zone) = .ok n ↔ o.Printable ∧ n.labels = wireLabels (o.absoluteLabels zone) := by
  have hne : ∀ l ∈ o.absoluteLabels zone, l ≠ [] := fun l hl =>
    (classifyOwnerLabel_eq_ok.1 (o.absoluteLabels_isOwnerLabel zone l hl).1).1
  rw [OwnerName.toFqdn_eq, parseName_joinLabels hcrates (o.absoluteLabels_ne_nil zone) hne (.inr rfl)]
  refine and_congr_left fun _ => ?_
  simp only [OwnerName.absoluteLabels, List.forall_mem_append]
  exact and_iff_left fun l hl => printable_of_classifyDomainLabel (zone.isZoneText.2 l hl).1

theorem exists_parseName_toFqdn (hcrates : crates.Rfc1035Wire) {o : OwnerName} {zone : ZoneName} :
    (∃ n, parseName (o.toFqdn zone) = .ok n) ↔ o.Printable ∧ o.Fits zone := by
  simp only [parseName_toFqdn hcrates, exists_and_left]
  refine and_congr_right fun _ => ?_
  have hname : Rfc1035.IsName (wireLabels (o.absoluteLabels zone)) ↔ o.Fits zone := isName_wireLabels fun l hl => by
    obtain ⟨hne, hle, _⟩ := classifyOwnerLabel_eq_ok.1 (o.absoluteLabels_isOwnerLabel zone l hl).1
    exact ⟨hne, hle⟩
  exact ⟨fun ⟨n, hn⟩ => hname.1 (hn ▸ n.isName), fun h => ⟨⟨_, hname.2 h⟩, rfl⟩⟩

/-! ### Targets -/

/-- The labels of a host name: none for the root. -/
def targetLabels (value : Text) : List Text :=
  if trimEndMatches '.' value = [] then [] else split '.' (stripOneSuffix '.' value)

/-- **The target of a row.**  A value the validators accept denotes its labels. -/
theorem parseName_target (hcrates : crates.Rfc1035Wire) {field value : Text}
    (h : validateDomainRecordValue field value = .ok ()) :
    ∃ n, parseName value = .ok n ∧ n.labels = wireLabels (targetLabels value) := by
  obtain ⟨-, hne, hlen, hlabels⟩ := validateDomainRecordValue_eq_ok.1 h
  set body := stripOneSuffix '.' value
  have hvalue : ∃ dot, (dot = [] ∨ dot = ['.']) ∧ value = joinLabels (split '.' body) ++ dot := by
    rw [joinLabels_split hlabels]
    rcases stripOneSuffix_cases value with e | e
    · exact ⟨[], .inl rfl, by rw [List.append_nil]; exact e⟩
    · exact ⟨['.'], .inr rfl, e⟩
  obtain ⟨dot, hdot, e⟩ := hvalue
  have hsplit : split '.' body ≠ [] := List.splitOn_ne_nil _ _
  have hnil : ∀ l ∈ split '.' body, l ≠ [] := fun l hl => (classifyDomainLabel_eq_ok.1 (hlabels l hl)).1
  have hlabels' : targetLabels value = split '.' body := by
    rw [targetLabels, if_neg]
    rw [e]
    exact trimEndMatches_joinLabels_ne_nil hsplit hnil dot
  have hname : Rfc1035.IsName (wireLabels (split '.' body)) := by
    refine (isName_wireLabels fun l hl => ?_).2 ?_
    · obtain ⟨hne, hle, _⟩ := classifyDomainLabel_eq_ok.1 (hlabels l hl)
      exact ⟨hne, hle⟩
    · rw [wireLen_split]
      unfold maxDomainLen at hlen
      omega
  refine ⟨⟨_, hname⟩, ?_, by rw [hlabels']⟩
  rw [e]
  exact (parseName_joinLabels hcrates hsplit hnil hdot).2
    ⟨fun l hl => printable_of_classifyDomainLabel (hlabels l hl), rfl⟩

/-- A target field: a host name, or the root where the type allows it. -/
def IsTarget (target : Text) : Prop :=
  target = ['.'] ∨ ∃ field, validateDomainRecordValue field target = .ok ()

omit crates in
theorem isTarget_of_validate (field : Text) {target : Text} (hws : ∀ c ∈ target, isWhitespace c = false)
    (h : trim target = ['.'] ∨ validateDomainRecordValue field target = .ok ()) : IsTarget target :=
  h.imp (fun e => trim_eq_self hws ▸ e) fun h => ⟨field, h⟩

theorem exists_parseName_target (hcrates : crates.Rfc1035Wire) {target : Text} (h : IsTarget target) :
    ∃ n, parseName target = .ok n ∧ n.labels = wireLabels (targetLabels target) := by
  rcases h with rfl | ⟨field, h⟩
  · exact ⟨Name.root, rfl, rfl⟩
  · exact parseName_target hcrates h

omit crates in
theorem isTarget_mx {value : Text} {priority : Option ℤ} {mx : MxRecordValue}
    (h : MxRecordValue.parse value priority = .ok mx) (hv : mx.validate = .ok ()) : IsTarget mx.target := by
  unfold MxRecordValue.parse at h
  split at h
  · rename_i target hfields
    obtain ⟨_, _, h⟩ := Fallible.bind_eq_ok.1 h
    cases h
    refine isTarget_of_validate (lit "MX record target")
      (not_isWhitespace_of_mem_splitWhitespace (by rw [hfields]; simp)).2 ?_
    unfold MxRecordValue.validate at hv
    split at hv
    · rename_i hroot
      exact .inl hroot
    · exact .inr hv
  · cases h

omit crates in
theorem isTarget_srv {value : Text} {priority : Option ℤ} {srv : SrvRecordValue}
    (h : SrvRecordValue.parse value priority = .ok srv) (hv : srv.validate = .ok ()) : IsTarget srv.target := by
  unfold SrvRecordValue.parse at h
  split at h
  · rename_i weight port target hfields
    obtain ⟨_, _, h⟩ := Fallible.bind_eq_ok.1 h
    obtain ⟨_, _, h⟩ := Fallible.bind_eq_ok.1 h
    obtain ⟨_, _, h⟩ := Fallible.bind_eq_ok.1 h
    cases h
    refine isTarget_of_validate (lit "SRV record target")
      (not_isWhitespace_of_mem_splitWhitespace (by rw [hfields]; simp)).2 ?_
    unfold SrvRecordValue.validate at hv
    split at hv
    · rename_i hroot
      exact .inl hroot
    · exact .inr hv
  · cases h

/-! ### Rdata -/

/-- The rdata of a row, as `add_record_parts` finds it. -/
def RecordData.served (r : RecordData) : Option Rdata :=
  match r.recordType with
  | .a => (parseIpv4 r.value).map .a
  | .aaaa => (parseIpv6 r.value).map .aaaa
  | .cname => (parseName r.value).toOption.map .cname
  | .ns => (parseName r.value).toOption.map .ns
  | .ptr => (parseName r.value).toOption.map .ptr
  | .mx => do
      let mx ← (MxRecordValue.parse r.value r.priority).toOption
      (parseName mx.target).toOption.map (.mx mx.priority)
  | .srv => do
      let srv ← (SrvRecordValue.parse r.value r.priority).toOption
      (parseName srv.target).toOption.map (.srv srv.priority srv.weight srv.port)
  | .txt =>
      match txtFromEncoded r.value with
      | some rdata => (crates.unknownRecordData rdata).toOption.map .txt
      | none => (crates.txtBuildFromSlice (asBytes r.value)).toOption.map .txt
  | .soa => none

omit crates in
theorem toOption_eq_some {ε α : Type} {x : Except ε α} {a : α} : x.toOption = some a ↔ x = .ok a := by
  cases x <;> simp [Except.toOption]

theorem addTargetRecord_eq_ok {data : Name → Rdata} {b b' : DnsMessageBuilder} {name target : Text} {ttl : ℕ} :
    b.addTargetRecord data name ttl target = .ok b' ↔
      ∃ n t, parseName name = .ok n ∧ parseName target = .ok t ∧ b' = b.addAnswer n ttl (data t) := by
  simp only [DnsMessageBuilder.addTargetRecord, Fallible.bind_eq_ok]
  constructor
  · rintro ⟨n, hn, t, ht, e⟩
    exact ⟨n, t, hn, ht, (Except.ok.inj e).symm⟩
  · rintro ⟨n, t, hn, ht, rfl⟩
    exact ⟨n, hn, t, ht, rfl⟩

/-- **One record.**  `add_record_parts` adds the record of the row's owner, TTL and rdata, when the
row has them. -/
theorem addRecordParts_eq_ok {b b' : DnsMessageBuilder} {zone : ZoneName} {r : RecordData}
    (hsoa : r.recordType ≠ .soa) : b.addRecordParts zone r = .ok b' ↔
      ∃ n d, parseName (r.name.toFqdn zone) = .ok n ∧ r.served = some d ∧ b' = b.addAnswer n (asU32 r.ttl) d := by
  -- the types whose rdata is one parsed name
  have htarget : ∀ (data : Name → Rdata) (target : Text),
      b.addTargetRecord data (r.name.toFqdn zone) (asU32 r.ttl) target = .ok b' ↔
        ∃ n d, parseName (r.name.toFqdn zone) = .ok n ∧ (parseName target).toOption.map data = some d ∧
          b' = b.addAnswer n (asU32 r.ttl) d := by
    intro data target
    rw [addTargetRecord_eq_ok]
    simp only [Option.map_eq_some_iff, toOption_eq_some]
    constructor
    · rintro ⟨n, t, hn, ht, e⟩
      exact ⟨n, data t, hn, ⟨t, ht, rfl⟩, e⟩
    · rintro ⟨n, _, hn, ⟨t, ht, rfl⟩, e⟩
      exact ⟨n, t, hn, ht, e⟩
  -- the types whose rdata is found before the owner is parsed
  have howner : ∀ d : Rdata, (do
      let owner ← parseName (r.name.toFqdn zone)
      pure (b.addAnswer owner (asU32 r.ttl) d) : Except XfrError DnsMessageBuilder) = .ok b' ↔
        ∃ n d', parseName (r.name.toFqdn zone) = .ok n ∧ some d = some d' ∧
          b' = b.addAnswer n (asU32 r.ttl) d' := by
    intro d
    rw [Fallible.bind_eq_ok]
    constructor
    · rintro ⟨n, hn, e⟩
      exact ⟨n, d, hn, rfl, (Except.ok.inj e).symm⟩
    · rintro ⟨n, _, hn, ⟨⟩, rfl⟩
      exact ⟨n, hn, rfl⟩
  unfold DnsMessageBuilder.addRecordParts RecordData.served
  cases ht : r.recordType with
  | soa => exact absurd ht hsoa
  | a =>
      cases parseIpv4 r.value with
      | none => simp
      | some addr => exact howner (.a addr)
  | aaaa =>
      cases parseIpv6 r.value with
      | none => simp
      | some addr => exact howner (.aaaa addr)
  | cname => exact htarget .cname r.value
  | ns => exact htarget .ns r.value
  | ptr => exact htarget .ptr r.value
  | mx =>
      cases MxRecordValue.parse r.value r.priority with
      | error e => simp [Except.mapError, Except.toOption]
      | ok mx => exact htarget (.mx mx.priority) mx.target
  | srv =>
      cases SrvRecordValue.parse r.value r.priority with
      | error e => simp [Except.mapError, Except.toOption]
      | ok srv =>
          -- the target is parsed first
          cases htarget : parseName srv.target with
          | error e => simp [DnsMessageBuilder.addSrvRecord, htarget, Except.mapError, Except.toOption]
          | ok t =>
              simp only [DnsMessageBuilder.addSrvRecord, Except.mapError, Except.toOption, Fallible.ok_bind,
                Option.bind_eq_bind, Option.bind_some, htarget, Option.map_some]
              exact howner (.srv srv.priority srv.weight srv.port t)
  | txt =>
      cases hdec : txtFromEncoded r.value with
      | none =>
          cases hdata : crates.txtBuildFromSlice (asBytes r.value) with
          | error e =>
              cases hn : parseName (r.name.toFqdn zone) <;>
                simp [DnsMessageBuilder.addTxtRecord, hdec, hdata, hn, Except.mapError, Except.toOption]
          | ok d =>
              simp only [DnsMessageBuilder.addTxtRecord, hdec, hdata]
              exact howner (.txt d)
      | some rdata =>
          cases hdata : crates.unknownRecordData rdata with
          | error e =>
              cases hn : parseName (r.name.toFqdn zone) <;>
                simp [DnsMessageBuilder.addTxtRecord, hdec, hdata, hn, Except.mapError, Except.toOption]
          | ok d =>
              simp only [DnsMessageBuilder.addTxtRecord, hdec, hdata]
              exact howner (.txt d)

/-! ### Rows that can be sent -/

omit crates in
theorem validateValue_host {t : RecordType} (ht : t = .cname ∨ t = .ns ∨ t = .ptr) {value : Text}
    {priority : Option ℤ} (h : t.validateValue value priority = .ok ()) : IsTarget value := by
  unfold RecordType.validateValue at h
  split at h
  · cases h
  rcases ht with rfl | rfl | rfl
  all_goals
    obtain ⟨_, hparse, _⟩ := Fallible.map_eq_ok.1 h
    obtain ⟨_, hv, _⟩ := Fallible.bind_eq_ok.1 hparse
    exact .inr ⟨_, hv⟩

omit crates in
theorem validateValue_a {v : Text} {p : Option ℤ} (h : RecordType.a.validateValue v p = .ok ()) :
    ∃ addr, parseIpv4 v = some addr := by
  unfold RecordType.validateValue at h
  split at h
  · cases h
  obtain ⟨addr, hparse, _⟩ := Fallible.map_eq_ok.1 h
  unfold parseA at hparse
  split at hparse
  · rename_i addr' haddr
    exact ⟨addr', haddr⟩
  · cases hparse

omit crates in
theorem validateValue_aaaa {v : Text} {p : Option ℤ} (h : RecordType.aaaa.validateValue v p = .ok ()) :
    ∃ addr, parseIpv6 v = some addr := by
  unfold RecordType.validateValue at h
  split at h
  · cases h
  obtain ⟨addr, hparse, _⟩ := Fallible.map_eq_ok.1 h
  unfold parseAaaa at hparse
  split at hparse
  · rename_i addr' haddr
    exact ⟨addr', haddr⟩
  · cases hparse

omit crates in
theorem validateValue_srv {v : Text} {p : Option ℤ} (h : RecordType.srv.validateValue v p = .ok ()) :
    ∃ srv, SrvRecordValue.parse v p = .ok srv ∧ srv.validate = .ok () := by
  simp only [RecordType.validateValue, RecordType.takesPriority, Bool.not_true, Bool.and_false,
    Bool.false_eq_true, if_false] at h
  exact Fallible.bind_eq_ok.1 h

theorem RowOk.exists_served (hcrates : crates.Rfc1035Wire) {r : RecordData} (h : RowOk r)
    (htxt : r.recordType ≠ .txt) : ∃ d, r.served = some d ∧ d.octets.length ≤ 530 := by
  have hvalue := h.value
  have hname : ∀ {target : Text} (data : Name → Rdata), (∀ n octets, data n ≠ .txt octets) → IsTarget target →
      ∃ d, (parseName target).toOption.map data = some d ∧ d.octets.length ≤ 530 := by
    intro target data hdata htarget
    obtain ⟨n, hn, _⟩ := exists_parseName_target hcrates htarget
    exact ⟨data n, by rw [hn]; rfl, Rdata.length_octets_le (hdata n)⟩
  unfold RecordData.served
  cases ht : r.recordType with
  | soa => exact absurd ht h.notSoa
  | txt => exact absurd ht htxt
  | a =>
      obtain ⟨addr, haddr⟩ := validateValue_a (ht ▸ hvalue)
      exact ⟨.a addr, by rw [haddr]; rfl, Rdata.length_octets_le (by simp)⟩
  | aaaa =>
      obtain ⟨addr, haddr⟩ := validateValue_aaaa (ht ▸ hvalue)
      exact ⟨.aaaa addr, by rw [haddr]; rfl, Rdata.length_octets_le (by simp)⟩
  | cname => exact hname .cname (by simp) (validateValue_host (.inl rfl) (ht ▸ hvalue))
  | ns => exact hname .ns (by simp) (validateValue_host (.inr (.inl rfl)) (ht ▸ hvalue))
  | ptr => exact hname .ptr (by simp) (validateValue_host (.inr (.inr rfl)) (ht ▸ hvalue))
  | mx =>
      obtain ⟨mx, hmx, hv⟩ := validateValue_mx (ht ▸ hvalue)
      simp only [hmx, Except.toOption, Option.bind_eq_bind, Option.bind_some]
      exact hname (.mx mx.priority) (by simp) (isTarget_mx hmx hv)
  | srv =>
      obtain ⟨srv, hsrv, hv⟩ := validateValue_srv (ht ▸ hvalue)
      simp only [hsrv, Except.toOption, Option.bind_eq_bind, Option.bind_some]
      exact hname (.srv srv.priority srv.weight srv.port) (by simp) (isTarget_srv hsrv hv)

/-- The rdata of a TXT row is what it holds, when a record can hold it. -/
theorem served_txt (hcrates : crates.Rfc1035Wire) (hbase64 : crates.Base64RoundTrip) {r : RecordData}
    (ht : r.recordType = .txt) {rdata : List UInt8} (hvalue : r.value = txtIntoEncoded rdata)
    (hrdata : IsTxtRdata rdata) {d : Rdata} :
    r.served = some d ↔ d = .txt rdata ∧ rdata.length ≤ 65535 := by
  unfold RecordData.served
  simp only [ht, hvalue, txtFromEncoded_txtIntoEncoded hbase64 hrdata, Option.map_eq_some_iff, toOption_eq_some,
    hcrates.rdata]
  constructor
  · rintro ⟨octets, ⟨rfl, hlen⟩, rfl⟩
    exact ⟨rfl, hlen⟩
  · rintro ⟨rfl, hlen⟩
    exact ⟨rdata, ⟨rfl, hlen⟩, rfl⟩

/-- `add_record` composes the row, and the answer fits a message with its header and question. -/
def Transferable (queryId : ℕ) (qname : Name) (qtype : ℕ) (zone : ZoneName) (r : Record) : Prop :=
  ∃ b, (DnsMessageBuilder.new queryId qname qtype).addRecord r zone = .ok b ∧ b.messageLen ≤ dnsTcpMaxSize

/-- The octets of a message that holds one TXT record of the row. -/
def txtMessageLen (qname : Name) (zone : ZoneName) (r : Record) (rdata : List UInt8) : ℕ :=
  12 + qname.len + 4 + wireLen (r.name.absoluteLabels zone) + 10 + rdata.length

theorem messageLen_addAnswer (hcrates : crates.Rfc1035Wire) (queryId : ℕ) (qname : Name) (qtype : ℕ)
    {o : OwnerName} {zone : ZoneName} {n : Name} (hn : n.labels = wireLabels (o.absoluteLabels zone)) (ttl : ℕ)
    (d : Rdata) : ((DnsMessageBuilder.new queryId qname qtype).addAnswer n ttl d).messageLen =
      12 + qname.len + 4 + (wireLen (o.absoluteLabels zone) + 10 + d.octets.length) := by
  have hlen : n.len = wireLen (o.absoluteLabels zone) := by rw [Name.len, hn, labelsLen_wireLabels]
  simp only [DnsMessageBuilder.messageLen, DnsMessageBuilder.addAnswer, DnsMessageBuilder.pushAnswer,
    DnsMessageBuilder.new, hcrates.compose, ResourceRecord.length_octets, hlen]
  omega

theorem transferable_iff (hcrates : crates.Rfc1035Wire) (hbase64 : crates.Base64RoundTrip) {r : Record}
    (hr : RowOk r.toRecordData) (htxt : TxtOk r.toRecordData) (queryId : ℕ) (qname : Name) (qtype : ℕ)
    (zone : ZoneName) : Transferable queryId qname qtype zone r ↔
      r.name.Printable ∧ r.name.Fits zone ∧
        (r.recordType = .txt → ∀ rdata, txtFromEncoded r.value = some rdata →
          txtMessageLen qname zone r rdata ≤ dnsTcpMaxSize) := by
  have hqname := qname.len_le
  unfold Transferable DnsMessageBuilder.addRecord dnsTcpMaxSize
  simp only [addRecordParts_eq_ok hr.notSoa]
  constructor
  · rintro ⟨b, ⟨n, d, hn, hd, rfl⟩, hlen⟩
    obtain ⟨hprint, hfits⟩ := (exists_parseName_toFqdn hcrates).1 ⟨n, hn⟩
    refine ⟨hprint, hfits, fun ht rdata hrdata => ?_⟩
    obtain ⟨rdata', hvalue, hok⟩ := htxt ht
    rw [hvalue, txtFromEncoded_txtIntoEncoded hbase64 hok] at hrdata
    cases hrdata
    obtain ⟨rfl, _⟩ := (served_txt hcrates hbase64 ht hvalue hok).1 hd
    rw [messageLen_addAnswer hcrates _ _ _ ((parseName_toFqdn hcrates).1 hn).2] at hlen
    simp only [Rdata.octets] at hlen
    unfold txtMessageLen
    omega
  · rintro ⟨hprint, hfits, hsmall⟩
    obtain ⟨n, hn⟩ := (exists_parseName_toFqdn hcrates).2 ⟨hprint, hfits⟩
    have hn' := ((parseName_toFqdn hcrates).1 hn).2
    unfold OwnerName.Fits at hfits
    by_cases ht : r.recordType = .txt
    · obtain ⟨rdata, hvalue, hok⟩ := htxt ht
      have hle := hsmall ht rdata (by rw [hvalue, txtFromEncoded_txtIntoEncoded hbase64 hok])
      unfold txtMessageLen at hle
      have hd := (served_txt hcrates hbase64 ht hvalue hok).2 ⟨rfl, by omega⟩
      refine ⟨_, ⟨n, _, hn, hd, rfl⟩, ?_⟩
      rw [messageLen_addAnswer hcrates _ _ _ hn']
      simp only [Rdata.octets]
      omega
    · obtain ⟨d, hd, hlen⟩ := hr.exists_served hcrates ht
      refine ⟨_, ⟨n, d, hn, hd, rfl⟩, ?_⟩
      rw [messageLen_addAnswer hcrates _ _ _ hn']
      omega

/-- **Transferable records.**  A row of a reachable zone can be sent exactly when its owner is
printable ASCII, makes a name of at most 255 octets in the zone, and the row's TXT rdata leaves
room for the rest of the message. -/
theorem rows_transferable (hcrates : crates.Rfc1035Wire) (hbase64 : crates.Base64RoundTrip)
    (htxt : crates.TxtOctets) (ops : List Op) (hops : ∀ op ∈ ops, op.WellTyped) :
    ∀ st ∈ (run ops).stores, ∀ r ∈ st.records, ∀ queryId qname qtype,
      (Transferable queryId qname qtype st.zone.name r ↔
        r.name.Printable ∧ r.name.Fits st.zone.name ∧
          (r.recordType = .txt → ∀ rdata, txtFromEncoded r.value = some rdata →
            txtMessageLen qname st.zone.name r rdata ≤ dnsTcpMaxSize)) := by
  intro st hst r hr queryId qname qtype
  have hrow : RowOk r.toRecordData := ((run_ok ops).store st hst).rows.1 _ (List.mem_map_of_mem hr)
  exact transferable_iff hcrates hbase64 hrow ((run_txtOk htxt hops st hst).1 r hr) queryId qname qtype st.zone.name

end Served

/-- A record with an owner that is not ASCII. -/
def accentHistory : List Op :=
  [.createZone .global sampleZone,
    .createRecord .global { sampleItem "é" "A" "192.0.2.1" with zoneName := lit "example.com" }]

/-- The record is accepted, and cannot be sent. -/
theorem createRecord_accent :
    ∃ st ∈ (@run sampleCrates accentHistory).stores, ∃ r ∈ st.records, ∀ queryId qname qtype,
      ¬ @Transferable sampleCrates queryId qname qtype st.zone.name r := by
  obtain ⟨st, hst, r, hr, ht, hprint⟩ : ∃ st ∈ (@run sampleCrates accentHistory).stores, ∃ r ∈ st.records,
      r.recordType ≠ .txt ∧ ¬ r.name.Printable := by
    decide +kernel
  have hrow : RowOk r.toRecordData :=
    ((@run_ok sampleCrates accentHistory).store st hst).rows.1 _ (List.mem_map_of_mem hr)
  exact ⟨st, hst, r, hr, fun queryId qname qtype h => hprint ((@transferable_iff sampleCrates sampleCrates_wire sampleCrates_base64 r
    hrow (fun h => absurd h ht) queryId qname qtype st.zone.name).1 h).1⟩

theorem rows_transferable_sampleHistory :
    ∃ st ∈ (@run sampleCrates sampleHistory).stores, ∃ r ∈ st.records, r.name.labels = [lit "www"] ∧
      ∀ queryId qname qtype, @Transferable sampleCrates queryId qname qtype st.zone.name r := by
  have htyped : ∀ op ∈ sampleHistory, @Op.WellTyped sampleCrates op := by
    simp [sampleHistory, Op.WellTyped, Op.requestedTtls, Op.items, sampleItem]
  obtain ⟨st, hst, r, hr, hwww, hprint, hfits, ht⟩ : ∃ st ∈ (@run sampleCrates sampleHistory).stores,
      ∃ r ∈ st.records, r.name.labels = [lit "www"] ∧ r.name.Printable ∧ r.name.Fits st.zone.name ∧
        r.recordType ≠ .txt := by
    decide +kernel
  refine ⟨st, hst, r, hr, hwww, fun queryId qname qtype => ?_⟩
  exact (@rows_transferable sampleCrates sampleCrates_wire sampleCrates_base64 sampleCrates_txt sampleHistory htyped
    st hst r hr queryId qname qtype).2 ⟨hprint, hfits, fun h => absurd h ht⟩

end Bindizr
