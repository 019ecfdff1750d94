import Bindizr.Prerequisites

/-! # Deleting one record

An UPDATE deletes a record by naming it: its owner, type and rdata.  The service selects rows by
their value, without the priority, and then by the priority column (`deleteSelects`), while a
transfer sends a row with the priority it defaults to.  A delete selects exactly the rows that
are sent as the record it names when the record's names hold no white space and the row has its
priority stored (`delete_selects_iff`). -/

namespace Bindizr

open Rfc1035 (Name Rdata ResourceRecord)

section Deletions

variable [crates : Crates]

/-- The delete that a record of the message asks for selects a row. -/
def Selects (message : List UInt8) (zone : Zone) (rr : UpdateRecord) (r : Record) : Prop :=
  ∃ t value priority owner, decodeUpdate message rr = .ok (.deleteRr rr.name t value priority) ∧
    ownerInZone rr.name zone.name = .ok owner ∧ deleteSelects owner (some t) (some value) priority r = true

/-- A transfer sends a row with an owner and rdata, up to case. -/
def SentAs (zone : ZoneName) (r : Record) (n : Name) (d : Rdata) : Prop :=
  ∃ x, Composes zone r x ∧ x.owner.lower = n.lower ∧ x.data.lower = d.lower

/-- A record of the update section that deletes one record. -/
structure DeleteRr (message : List UInt8) where
  owner : Name
  rr : UpdateRecord
  data : Rdata
  read : ∃ pos next next', crates.parsedName message pos = some (owner, next) ∧ parseRr message pos = .ok (rr, next')
  rdata : wireRdata message rr = some data
  noneClass : rr.rrClass = 254
  ttl : rr.ttl = 0
  nonempty : rr.rdata ≠ []

variable {message : List UInt8} (hlen : message.length ≤ 65535) (del : DeleteRr message)

theorem DeleteRr.decodeUpdate_eq_ok {op : UpdateOp} : decodeUpdate message del.rr = .ok op ↔
    ∃ t value priority, rrToRecordValue del.rr message = .ok (t, value, priority) ∧
      op = .deleteRr del.rr.name t value priority := by
  have htype : del.rr.rrType ≠ 255 := by
    intro e
    have h := del.rdata
    simp [wireRdata, e] at h
  unfold decodeUpdate
  rw [if_neg (by rw [del.noneClass]; decide), if_neg (by rw [del.noneClass]; decide), if_pos del.noneClass]
  simp only [validateDeleteShape, del.ttl, htype, del.nonempty, ne_eq, not_true_eq_false, if_false, Bool.false_eq_true,
    Fallible.ok_bind, Fallible.bind_eq_ok, Prod.exists]
  refine exists_congr fun t => exists_congr fun value => exists_congr fun priority => and_congr_right fun _ => ?_
  exact ⟨fun h => (Except.ok.inj h).symm, fun h => by rw [h]; rfl⟩

omit crates in
theorem Presents.takesPriority [Crates] {d : Rdata} {t : RecordType} {value : Text} {priority : Option ℤ}
    (h : Presents d t value priority) (hp : priority = none) : t.takesPriority = false := by
  cases h <;> first | rfl | cases hp

theorem DeleteRr.selects_iff {zone : Zone} {r : Record} (hr : RowOk r.toRecordData) :
    Selects message zone del.rr r ↔ ownerInZone del.rr.name zone.name = .ok r.name ∧ MatchesRow message del.rr r := by
  constructor
  · rintro ⟨t, value, priority, owner, hop, howner, hsel⟩
    obtain ⟨t', value', priority', hvalue, e⟩ := del.decodeUpdate_eq_ok.1 hop
    cases e
    simp only [deleteSelects, Bool.and_eq_true, Bool.or_eq_true, beq_iff_eq, Option.isNone_iff_eq_none, reduceCtorEq,
      false_or, Option.some.injEq] at hsel
    obtain ⟨⟨⟨⟨rfl, rfl⟩, heq⟩, hp⟩, -⟩ := hsel
    refine ⟨howner, value, priority, hvalue, heq, ?_⟩
    rcases hp with hp | hp
    · obtain ⟨d, -, hpres⟩ := rrToRecordValue_presents hvalue
      rw [hp, hr.priority_eq_none (hpres.takesPriority hp)]
    · exact hp
  · rintro ⟨howner, value, priority, hvalue, heq, hp⟩
    refine ⟨_, _, _, _, del.decodeUpdate_eq_ok.2 ⟨_, _, _, hvalue, rfl⟩, howner, ?_⟩
    simp [deleteSelects, heq, hp, hr.notSoa]

omit crates in
theorem typeCode_lower (d : Rdata) : d.lower.typeCode = d.typeCode := by
  cases d <;> rfl

theorem wireRdata_typeCode {rr : UpdateRecord} {d : Rdata} (h : wireRdata message rr = some d) :
    rr.rrType = d.typeCode := by
  unfold wireRdata at h
  split at h
  all_goals first
    | (obtain ⟨_, -, rfl⟩ := Option.map_eq_some_iff.1 h
       assumption)
    | cases h

theorem rrTypeToRecordType_code {t : RecordType} (hsoa : t ≠ .soa) : rrTypeToRecordType t.code = .ok t := by
  cases t <;> first | rfl | exact absurd rfl hsoa

theorem sentAs_iff (hcrates : crates.Rfc1035Wire) {zone : ZoneName} {r : Record} (hr : RowOk r.toRecordData) {n : Name}
    {d : Rdata} : SentAs zone r n d ↔ r.name.IsNamed zone n ∧ isAsciiName n = true ∧
      ∃ d', r.toRecordData.served = some d' ∧ d'.lower = d.lower := by
  have hlower : (r.name.absoluteLabels zone).map toAsciiLowercase = r.name.absoluteLabels zone := by
    conv_rhs => rw [← List.map_id (r.name.absoluteLabels zone)]
    exact List.map_congr_left fun l hl => (r.name.absoluteLabels_isOwnerLabel zone l hl).2
  constructor
  · rintro ⟨x, hx, howner, hdata⟩
    obtain ⟨hname, hserved, -⟩ := (composes_iff hr.notSoa).1 hx
    obtain ⟨hprint, hlabels⟩ := (parseName_toFqdn hcrates).1 hname
    have hn : r.name.IsNamed zone n := by
      rw [OwnerName.IsNamed, ← howner, lower_labels_eq hlabels, hlower]
    refine ⟨hn, ?_, x.data, hserved, hdata⟩
    rw [← isAsciiName_lower, ← howner, isAsciiName_lower]
    exact (printable_iff_isAsciiName hlabels).1 hprint
  · rintro ⟨hn, hascii, d', hserved, hdata⟩
    rw [← isAsciiName_lower] at hascii
    have hname : parseName (r.name.toFqdn zone) = .ok n.lower :=
      (parseName_toFqdn hcrates).2 ⟨(printable_iff_isAsciiName hn).2 hascii, hn⟩
    refine ⟨⟨n.lower, asU32 r.ttl, d'⟩, (composes_iff hr.notSoa).2 ⟨hname, hserved, rfl⟩, ?_, hdata⟩
    exact Rfc1035.Name.ext (by rw [lower_labels_eq hn, hlower, hn])

section Rows

variable (hcrates : crates.Rfc1035Wire) (hbase64 : crates.Base64RoundTrip) (htxt : crates.TxtOctets)
  {zone : Zone} {r : Record} (hr : RowOk r.toRecordData) (hrtxt : TxtOk r.toRecordData)

include hcrates hbase64 hlen hr hrtxt

theorem DeleteRr.sentAs_of_matches (howner : ownerInZone del.rr.name zone.name = .ok r.name)
    (hmatch : MatchesRow message del.rr r) (hascii : isAsciiName del.owner = true)
    (hstart : startsWithSpace del.owner = false) (hspace : ∀ n ∈ del.data.names, hasSpace n = false) :
    SentAs zone.name r del.owner del.data ∧ (r.recordType.takesPriority = true → r.priority ≠ none) := by
  obtain ⟨pos, next, next', hn, hrr⟩ := del.read
  obtain ⟨hname, hsmall⟩ := parseRr_name hn hrr
  obtain ⟨hserved, hprio⟩ := hmatch.served hcrates hbase64 del.rdata (by omega) hr hrtxt hspace
  exact ⟨(sentAs_iff hcrates hr).2 ⟨(OwnerName.isNamed_iff hname).2 ⟨howner, hstart⟩, hascii, hserved⟩, hprio⟩

include htxt in
theorem DeleteRr.matches_of_sentAs (h : SentAs zone.name r del.owner del.data) :
    isAsciiName del.owner = true ∧ startsWithSpace del.owner = false ∧ (∀ n ∈ del.data.names, hasSpace n = false) ∧
      ownerInZone del.rr.name zone.name = .ok r.name ∧
      ((r.recordType.takesPriority = true → r.priority ≠ none) → MatchesRow message del.rr r) := by
  obtain ⟨pos, next, next', hn, hrr⟩ := del.read
  obtain ⟨hname, hsmall⟩ := parseRr_name hn hrr
  obtain ⟨hnamed, hascii, d', hserved, hdata⟩ := (sentAs_iff hcrates hr).1 h
  obtain ⟨howner, hstart⟩ := (OwnerName.isNamed_iff hname).1 hnamed
  have ht : rrTypeToRecordType del.rr.rrType = .ok r.recordType := by
    rw [wireRdata_typeCode del.rdata, ← typeCode_lower, ← hdata, typeCode_lower, (served_shape hserved).1,
      rrTypeToRecordType_code hr.notSoa]
  obtain ⟨hnames, hmatch⟩ := matchesRow_of_served hcrates hbase64 del.rdata (by omega) hr hrtxt htxt ht hserved hdata
  exact ⟨hascii, hstart, fun n hn => (hnames n hn).2, howner, hmatch⟩

end Rows

omit crates in
theorem deleteMatching_one {zone : Zone} (serial : ℤ) {name : Text} {t : Option RecordType} {value : Option Text}
    {priority : Option ℤ} {owner : OwnerName} {tx : Tx} {r : Record} (howner : ownerInZone name zone.name = .ok owner)
    (hid : tx.IdsOk) (hr : r ∈ tx.store.records)
    (hsel : ∀ s ∈ tx.store.records, deleteSelects owner t value priority s = true ↔ s = r)
    (hsoa : r.recordType ≠ .soa) (hns : zone.isPrimaryNs r.toRecordData = false) :
    ∃ tx', deleteMatching zone serial name t value priority tx = .ok (tx', true) ∧
      ∀ s, s ∈ tx'.store.records ↔ s ∈ tx.store.records ∧ s ≠ r := by
  have hmem : ∀ s, s ∈ tx.store.records.filter (deleteSelects owner t value priority) ↔ s = r := by
    intro s
    rw [List.mem_filter]
    exact ⟨fun h => (hsel s h.1).1 h.2, fun h => h ▸ ⟨hr, (hsel r hr).2 rfl⟩⟩
  have hne : tx.store.records.filter (deleteSelects owner t value priority) ≠ [] :=
    List.ne_nil_of_mem ((hmem r).2 rfl)
  have hvalid : validateDeleteConstraints zone
      ((tx.store.records.filter (deleteSelects owner t value priority)).map (·.toRecordData)) = .ok () := by
    unfold validateDeleteConstraints
    rw [if_neg, if_neg]
    · simp only [List.any_map, List.any_eq_true, Function.comp_apply, hmem, exists_eq_left, hns]
      simp
    · simp only [List.any_map, List.any_eq_true, Function.comp_apply, hmem, exists_eq_left, beq_iff_eq]
      exact hsoa
  refine ⟨tx.deleteRecordsWithChanges serial (tx.store.records.filter (deleteSelects owner t value priority)), ?_, ?_⟩
  · simp only [deleteMatching, howner, Fallible.ok_bind, if_neg hne, hvalid, Except.mapError]
    rfl
  · intro s
    simp only [Tx.deleteRecordsWithChanges, Tx.createZoneChanges, Tx.deleteRecords, List.mem_filter, decide_eq_true_eq,
      List.mem_map, not_exists]
    refine and_congr_right fun hs => ⟨fun h e => h r ⟨(List.mem_filter.1 ((hmem r).2 rfl)), by rw [e]⟩, ?_⟩
    rintro h m ⟨hm, e⟩
    rw [(hmem m).1 (List.mem_filter.2 hm)] at e
    exact h (eq_of_id_eq hid.nodup hs hr e.symm)

/-- **Deleting one record.**  On a reachable zone a delete selects a row exactly when a transfer sends the
row as the record it names, if: a row it selects comes of an ASCII owner that does not begin with white
space and of rdata whose names hold none; and the row, when it is sent as that record, has its priority
stored.  A row that is so sent, and is not the primary NS, is then deleted by sending it back. -/
theorem delete_selects_iff (hcrates : crates.Rfc1035Wire) (hbase64 : crates.Base64RoundTrip) (htxt : crates.TxtOctets)
    (ops : List Op) (hops : ∀ op ∈ ops, op.WellTyped) :
    ∀ st ∈ (run ops).stores, ∀ message : List UInt8, message.length ≤ 65535 → ∀ del : DeleteRr message,
      ∀ r ∈ st.records,
        ((Selects message st.zone del.rr r ↔ SentAs st.zone.name r del.owner del.data) ↔
          (ownerInZone del.rr.name st.zone.name = .ok r.name → MatchesRow message del.rr r →
            isAsciiName del.owner = true ∧ startsWithSpace del.owner = false ∧
              ∀ n ∈ del.data.names, hasSpace n = false) ∧
          (SentAs st.zone.name r del.owner del.data → r.recordType.takesPriority = true → r.priority ≠ none)) ∧
        (SentAs st.zone.name r del.owner del.data → (r.recordType.takesPriority = true → r.priority ≠ none) →
          st.zone.isPrimaryNs r.toRecordData = false → ∀ serial, ∃ op tx', decodeUpdate message del.rr = .ok op ∧
            applyOp st.zone serial op ((run ops).beginTx st) = .ok (tx', true) ∧
            ∀ s, s ∈ tx'.store.records ↔ s ∈ st.records ∧ s ≠ r) := by
  intro st hst message hlen del r hr
  have hacc := ((run_ok ops).store st hst).rows
  have hrow : ∀ s ∈ st.records, RowOk s.toRecordData := fun s hs => hacc.1 _ (List.mem_map_of_mem hs)
  have hrtxt := (run_txtOk htxt hops st hst).1
  refine ⟨?_, fun hsent hprio hns serial => ?_⟩
  · rw [del.selects_iff (hrow r hr)]
    constructor
    · refine fun h => ⟨fun howner hmatch => ?_, fun hsent => ?_⟩
      · obtain ⟨hascii, hstart, hspace, -⟩ :=
          del.matches_of_sentAs hlen hcrates hbase64 htxt (hrow r hr) (hrtxt r hr) (h.1 ⟨howner, hmatch⟩)
        exact ⟨hascii, hstart, hspace⟩
      · obtain ⟨hascii, hstart, hspace, -⟩ :=
          del.matches_of_sentAs hlen hcrates hbase64 htxt (hrow r hr) (hrtxt r hr) hsent
        obtain ⟨howner, hmatch⟩ := h.2 hsent
        exact (del.sentAs_of_matches hlen hcrates hbase64 (hrow r hr) (hrtxt r hr) howner hmatch hascii hstart hspace).2
    · rintro ⟨hread, hprio⟩
      constructor
      · rintro ⟨howner, hmatch⟩
        obtain ⟨hascii, hstart, hspace⟩ := hread howner hmatch
        exact (del.sentAs_of_matches hlen hcrates hbase64 (hrow r hr) (hrtxt r hr) howner hmatch hascii hstart hspace).1
      · intro hsent
        obtain ⟨-, -, -, howner, hmatch⟩ :=
          del.matches_of_sentAs hlen hcrates hbase64 htxt (hrow r hr) (hrtxt r hr) hsent
        exact ⟨howner, hmatch (hprio hsent)⟩
  · obtain ⟨hascii, hstart, hspace, howner, hmatch⟩ :=
      del.matches_of_sentAs hlen hcrates hbase64 htxt (hrow r hr) (hrtxt r hr) hsent
    obtain ⟨value, priority, hvalue, heq, hp⟩ := hmatch hprio
    obtain ⟨d, hserved, hd⟩ := ((sentAs_iff hcrates (hrow r hr)).1 hsent).2.2
    -- another row that is selected would be the same record
    have hsel : ∀ s ∈ st.records, deleteSelects r.name (some r.recordType) (some value) priority s = true ↔ s = r := by
      intro s hs
      constructor
      · intro hsel
        obtain ⟨howner', hmatch'⟩ := (del.selects_iff (hrow s hs)).1
          ⟨_, _, _, _, del.decodeUpdate_eq_ok.2 ⟨_, _, _, hvalue, rfl⟩, howner, hsel⟩
        obtain ⟨hsent', -⟩ :=
          del.sentAs_of_matches hlen hcrates hbase64 (hrow s hs) (hrtxt s hs) howner' hmatch' hascii hstart hspace
        obtain ⟨d', hserved', hd'⟩ := ((sentAs_iff hcrates (hrow s hs)).1 hsent').2.2
        obtain ⟨hname, ht⟩ := deleteSelects_iff hsel
        have ht : s.recordType = r.recordType := by simpa [eq_comm] using ht
        refine Acceptable.eq_of_key_eq hacc hs hr ?_
        rw [RecordData.key, RecordData.key, hname, ht, (canonical_eq_iff_served hcrates hbase64 ht (hrow s hs).value
          (hrow r hr).value (hrtxt s hs) (hrtxt r hr) hserved' hserved).2 (hd'.trans hd.symm)]
      · rintro rfl
        simp [deleteSelects, heq, hp, (hrow s hs).notSoa]
    obtain ⟨tx', htx, hrecords⟩ :=
      deleteMatching_one serial howner ((run_ok ops).ids st hst) hr hsel (hrow r hr).notSoa hns
    exact ⟨_, tx', del.decodeUpdate_eq_ok.2 ⟨_, _, _, hvalue, rfl⟩, htx, hrecords⟩

end Deletions

/-! ### A mail exchanger without a stored priority -/

section Sample

attribute [local instance] sampleCrates

/-- A delete of `example.com. MX 10 mail.example.com.` -/
def mxDelete : List UInt8 :=
  characterString (lit "example") ++ characterString (lit "com") ++ [0, 0, 15, 0, 254, 0, 0, 0, 0, 0, 20, 0, 10] ++
    characterString (lit "mail") ++ characterString (lit "example") ++ characterString (lit "com") ++ [0]

/-- The zone gets a mail exchanger with no priority given. -/
def mxHistory : List Op :=
  [.createZone .global sampleZone,
    .createRecord .global { sampleItem "@" "MX" "mail.example.com" with zoneName := lit "example.com" }]

/-- A transfer sends the row with priority 10; sending that back does not select it. -/
theorem delete_mx_unselected :
    ∃ st ∈ (run mxHistory).stores, ∃ r ∈ st.records, ∃ del : DeleteRr mxDelete,
      SentAs st.zone.name r del.owner del.data ∧
        st.zone.isPrimaryNs r.toRecordData = false ∧
        ¬ Selects mxDelete st.zone del.rr r := by
  obtain ⟨st, hst, r, hr, ht, hfqdn, hvalue, hp, hns⟩ : ∃ st ∈ (run mxHistory).stores, ∃ r ∈ st.records,
      r.recordType = .mx ∧ r.name.toFqdn st.zone.name = lit "example.com." ∧ r.value = lit "mail.example.com." ∧
        r.priority = none ∧ st.zone.isPrimaryNs r.toRecordData = false := by
    decide +kernel
  obtain ⟨n, next, rr, next', target, hn, hrr, hd, hclass, httl, hrdata, hvalue', howner, htarget⟩ :
      ∃ n next rr next' target,
        sampleCrates.parsedName mxDelete 0 = some (n, next) ∧ parseRr mxDelete 0 = .ok (rr, next') ∧
        wireRdata mxDelete rr = some (.mx 10 target) ∧ rr.rrClass = 254 ∧ rr.ttl = 0 ∧
        rr.rdata.isEmpty = false ∧
        rrToRecordValue rr mxDelete = .ok (.mx, lit "mail.example.com.", some 10) ∧
        parseName (lit "example.com.") = .ok n ∧
        parseName (lit "mail.example.com.") = .ok target :=
    ⟨_, _, _, _, _, rfl, rfl, rfl, rfl, rfl, rfl, rfl, rfl, rfl⟩
  have hsoa : r.recordType ≠ .soa := by rw [ht]; decide
  have hserved : r.toRecordData.served = some (.mx 10 target) := by
    have hmx : MxRecordValue.parse (lit "mail.example.com.") none = .ok ⟨10, lit "mail.example.com."⟩ := by
      decide +kernel
    simp only [RecordData.served, ht, hvalue, hp, hmx, Except.toOption, Option.bind_eq_bind, Option.bind_some, htarget,
      Option.map_some]
  refine ⟨st, hst, r, hr, @DeleteRr.mk sampleCrates _ n rr _ ⟨0, next, next', hn, hrr⟩ hd hclass httl (by simpa using hrdata),
    ⟨⟨n, asU32 r.ttl, .mx 10 target⟩, ?_, rfl, rfl⟩, hns, ?_⟩
  · exact (@composes_iff sampleCrates _ _ _ hsoa).2 ⟨by rw [hfqdn, howner], hserved, rfl⟩
  · rintro ⟨t, value, priority, owner, hop, -, hsel⟩
    obtain ⟨_, _, _, hread, e⟩ := (@DeleteRr.decodeUpdate_eq_ok sampleCrates _ _ _).1 hop
    rw [hvalue'] at hread
    cases hread
    cases e
    simp [deleteSelects, hp] at hsel

/-- A delete of `www.example.com. A 192.0.2.1` -/
def addressDelete : List UInt8 :=
  characterString (lit "www") ++ characterString (lit "example") ++ characterString (lit "com") ++
    [0, 0, 1, 0, 254, 0, 0, 0, 0, 0, 4, 192, 0, 2, 1]

theorem delete_selects_iff_address :
    ∃ st ∈ (run sampleHistory).stores, ∃ r ∈ st.records, ∃ del : DeleteRr addressDelete,
      SentAs st.zone.name r del.owner del.data ∧
        Selects addressDelete st.zone del.rr r ∧
        ∃ op tx', decodeUpdate addressDelete del.rr = .ok op ∧
          applyOp st.zone 2 op ((run sampleHistory).beginTx st) = .ok (tx', true) ∧
          ∀ s, s ∈ tx'.store.records ↔ s ∈ st.records ∧ s ≠ r := by
  have htyped : ∀ op ∈ sampleHistory, Op.WellTyped op := by
    simp [sampleHistory, Op.WellTyped, Op.requestedTtls, Op.items, sampleItem]
  obtain ⟨st, hst, r, hr, ht, hfqdn, hvalue, hns⟩ : ∃ st ∈ (run sampleHistory).stores, ∃ r ∈ st.records,
      r.recordType = .a ∧ r.name.toFqdn st.zone.name = lit "www.example.com." ∧ r.value = lit "192.0.2.1" ∧
        st.zone.isPrimaryNs r.toRecordData = false := by
    decide +kernel
  obtain ⟨n, next, rr, next', addr, hn, hrr, hd, haddr, hclass, httl, hrdata, howner, hascii, hstart⟩ :
      ∃ n next rr next' addr,
        sampleCrates.parsedName addressDelete 0 = some (n, next) ∧
        parseRr addressDelete 0 = .ok (rr, next') ∧
        wireRdata addressDelete rr = some (.a addr) ∧ ipv4Text addr = lit "192.0.2.1" ∧
        rr.rrClass = 254 ∧ rr.ttl = 0 ∧ rr.rdata.isEmpty = false ∧
        parseName (lit "www.example.com.") = .ok n ∧ isAsciiName n = true ∧ startsWithSpace n = false :=
    ⟨_, _, _, _, _, rfl, rfl, rfl, rfl, rfl, rfl, rfl, rfl, rfl, rfl⟩
  have hsoa : r.recordType ≠ .soa := by rw [ht]; decide
  have hprio : r.recordType.takesPriority = true → r.priority ≠ none := by simp [ht, RecordType.takesPriority]
  let del := @DeleteRr.mk sampleCrates _ n rr _ ⟨0, next, next', hn, hrr⟩ hd hclass httl (by simpa using hrdata)
  have hsent : SentAs st.zone.name r n (.a addr) :=
    ⟨⟨n, asU32 r.ttl, .a addr⟩, (@composes_iff sampleCrates _ _ _ hsoa).2
      ⟨by rw [hfqdn, howner], served_address ht (hvalue.trans haddr.symm), rfl⟩, rfl, rfl⟩
  obtain ⟨hiff, hdelete⟩ := @delete_selects_iff sampleCrates sampleCrates_wire sampleCrates_base64 sampleCrates_txt
    sampleHistory htyped st hst addressDelete (by decide) del r hr
  refine ⟨st, hst, r, hr, del, hsent, (hiff.2 ⟨fun _ _ => ⟨hascii, hstart, ?_⟩, fun _ => hprio⟩).2 hsent,
    hdelete hsent hprio hns 2⟩
  intro m hm
  cases hm

end Sample

end Bindizr
