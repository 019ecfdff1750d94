import Bindizr.ChangeSets
import Bindizr.Resolution
import Bindizr.Rollback
import Bindizr.Spelling
import Bindizr.TxtForms

/-! # What ExternalDNS lists

`bindizr-service/src/external_dns/mod.rs`: `list_records` shows every row of a managed type, zone by
zone, with its absolute owner and its value in presentation form.  A client that deletes what it
was shown names the owner absolutely, and the name is given to the most specific zone it lies in
(`findAuthoritativeZone`).  So a row can be deleted as listed exactly when no zone below its own
holds its owner, the owner fits its zone's name, and the zone has a serial left
(`listed_deletable_iff`); what is listed of a parent zone at the names of a child zone stays. -/

namespace Bindizr

open OwnerName

section Listing

variable [crates : Crates]

structure ExternalDnsRecordItem where
  name : Text
  recordType : Text
  ttl : ℤ
  value : Text
  deriving DecidableEq

/-- The item that a row is listed as. -/
def RecordData.item (r : RecordData) (zone : ZoneName) : ExternalDnsRecordItem where
  name := trimEndMatches '.' (r.name.toFqdn zone)
  recordType := r.recordType.asStr
  ttl := r.ttl
  value := r.recordType.presentationRdata r.value r.priority

/-- The order of the items: by name, type and value. -/
def ExternalDnsRecordItem.le (a b : ExternalDnsRecordItem) : Bool :=
  decide (a.name < b.name) || (a.name == b.name && (decide (a.recordType < b.recordType) ||
    (a.recordType == b.recordType && decide (a.value ≤ b.value))))

/-- The rows of a zone that ExternalDNS manages. -/
def ZoneStore.managed (st : ZoneStore) : List Record := st.records.filter fun r => r.recordType ∈ externalDnsRecordTypes

def listRecords (db : Db) (caller : Caller) : List ExternalDnsRecordItem :=
  ((db.stores.filter fun st => caller.zoneVisible st.zone.id).flatMap fun st =>
    st.managed.map fun r => r.item st.zone.name).mergeSort ExternalDnsRecordItem.le

/-- The RRset that a client deletes for an item; `ttl` is what it says of the TTL. -/
def ExternalDnsRecordItem.rrset (item : ExternalDnsRecordItem) (ttl : Option ℤ) : ExternalDnsRrset :=
  ⟨item.name, item.recordType, ttl, [item.value]⟩

/-- A request that deletes RRsets. -/
def deleting (rrsets : List ExternalDnsRrset) : ExternalDnsChangesRequest := ⟨[], [], rrsets⟩

def Db.zoneNames (db : Db) : List ZoneName := db.stores.map (·.zone.name)

/-- Well-formed zones: the rows are as the write paths store them, and a TXT row holds a character-string. -/
structure RowsStored (db : Db) : Prop where
  ok : DbOk db
  spelled : ∀ st ∈ db.stores, ∀ r ∈ st.records, Spelled r.toRecordData
  filled : ∀ st ∈ db.stores, ∀ r ∈ st.records, r.recordType = .txt → r.value ≠ txtIntoEncoded []

/-- The conditions under which a row can be deleted as it is listed: its zone is the most specific for its owner, the
owner fits the zone, and the zone has a serial left. -/
structure Deletable (db : Db) (st : ZoneStore) (r : Record) : Prop where
  closest : ∀ st' ∈ db.stores, st'.zone.name.labels <:+ r.name.absoluteLabels st.zone.name →
    st'.zone.name.labels.length ≤ st.zone.name.labels.length
  fits : r.name.Fits st.zone.name
  room : st.zone.serial ≠ i32Max

/-! ### Items -/

theorem mem_listRecords {db : Db} {item : ExternalDnsRecordItem} :
    item ∈ listRecords db .global ↔ ∃ st ∈ db.stores, ∃ r ∈ st.records, r.recordType ∈ externalDnsRecordTypes ∧
      item = r.item st.zone.name := by
  simp only [listRecords, List.mem_mergeSort, List.mem_flatMap, List.mem_filter, Caller.zoneVisible, and_true,
    ZoneStore.managed, List.mem_map, decide_eq_true_eq, and_assoc]
  exact exists_congr fun st => and_congr_right fun _ => exists_congr fun r =>
    and_congr_right fun _ => and_congr_right fun _ => eq_comm

omit crates in
theorem trimEndMatches_toFqdn (o : OwnerName) (zone : ZoneName) :
    trimEndMatches '.' (o.toFqdn zone) = joinLabels (o.absoluteLabels zone) := by
  have hzone : trimEndMatches '.' zone.text = zone.text :=
    trimEndMatches_eq_self_of_labels fun l hl => (zone.isZoneText.2 l hl).1
  have habs : ∃ p, joinLabels (o.absoluteLabels zone) = p ++ zone.text := by
    by_cases ha : o.labels = []
    · exact ⟨[], by simp [absoluteLabels, ha, zone.joinLabels_labels]⟩
    · refine ⟨joinLabels o.labels ++ ['.'], ?_⟩
      rw [absoluteLabels, joinLabels_append ha zone.labels_ne_nil, zone.joinLabels_labels]
      simp
  obtain ⟨p, hp⟩ := habs
  rw [toFqdn_eq, trimEndMatches, List.rdropWhile_concat_pos _ _ _ (by simp), ← trimEndMatches, hp,
    trimEndMatches_append zone.text_ne_nil hzone]

omit crates in
theorem normalizeLookupName_joinLabels {ls : List Text} (hne : ls ≠ []) (h : ∀ l ∈ ls, IsOwnerLabel l) {name : Text} :
    normalizeLookupName (joinLabels ls) = .ok name ↔ wireLen ls ≤ 255 ∧ name = joinLabels ls := by
  rw [normalizeLookupName, Fallible.mapError_eq_ok, toLookupName_joinLabels hne h]

theorem encodedValue_presentationRdata (hbase64 : crates.Base64RoundTrip) {r : RecordData}
    (ht : r.recordType ∈ externalDnsRecordTypes) (hok : RowOk r) (hs : Spelled r)
    (hfilled : r.recordType = .txt → r.value ≠ txtIntoEncoded []) :
    r.recordType.encodedValue (r.recordType.presentationRdata r.value r.priority) none = .ok r.value := by
  have hvalue : r.recordType.validateValue r.value none = .ok () := hok.plain ht ▸ hok.value
  cases hs with
  | txt htxt hv =>
      obtain ⟨rdata, e, hrdata⟩ := hv
      have hne : rdata ≠ [] := fun hnil => hfilled htxt (by rw [e, hnil])
      simp only [htxt, e, RecordType.presentationRdata, txtFromEncoded_txtIntoEncoded hbase64 hrdata,
        RecordType.encodedValue, txtParse_toPresentation hrdata hne]
      rfl
  | soa hsoa => exact absurd hsoa hok.notSoa
  | primaryNs name hns => simp [hns, externalDnsRecordTypes] at ht
  | encoded hs =>
      have hagain := hs.encodedValue_eq hvalue
      have hshow : r.recordType.presentationRdata r.value r.priority = r.value := by
        generalize r.recordType = t at hs ht
        generalize r.value = e at hs
        cases hs with
        | a addr => rfl
        | aaaa addr => rfl
        | cname hx => exact hx.stored
        | ns hx => simp [externalDnsRecordTypes] at ht
        | ptr hx => simp [externalDnsRecordTypes] at ht
        | mx hx => simp [externalDnsRecordTypes] at ht
        | srv weight port hx => simp [externalDnsRecordTypes] at ht
      rw [hshow, hagain]

omit crates in
theorem normalizeTtl_ok {ttl : Option ℤ} (httl : ∀ t, ttl = some t → 0 ≤ t) : ∃ ttl', normalizeTtl ttl = .ok ttl' := by
  cases ttl with
  | none => exact ⟨none, rfl⟩
  | some t =>
      have hnn := not_lt.2 (httl t rfl)
      by_cases h0 : t = 0
      · exact ⟨none, by rw [normalizeTtl, if_neg hnn, if_pos h0]⟩
      · exact ⟨some t, by rw [normalizeTtl, if_neg hnn, if_neg h0]⟩

omit crates in
theorem decodeNameLabels_absolute {o : OwnerName} {zone : ZoneName} (h : o.Fits zone) :
    decodeNameLabels (joinLabels (o.absoluteLabels zone)) = .ok (o.absoluteLabels zone, false) := by
  rw [(decodeNameLabels_joinLabels (o.absoluteLabels_ne_nil zone) (o.absoluteLabels_isOwnerLabel zone)).1]
  exact if_pos h

theorem absoluteLabels_eq_of_item {r r' : RecordData} {zone zone' : ZoneName} (h : r.item zone = r'.item zone')
    (hfits : r'.name.Fits zone') : r.name.absoluteLabels zone = r'.name.absoluteLabels zone' := by
  have hname : joinLabels (r.name.absoluteLabels zone) = joinLabels (r'.name.absoluteLabels zone') := by
    simpa only [RecordData.item, trimEndMatches_toFqdn] using congrArg ExternalDnsRecordItem.name h
  have hd := (decodeNameLabels_joinLabels (r.name.absoluteLabels_ne_nil zone) (r.name.absoluteLabels_isOwnerLabel zone)).1
  rw [hname, decodeNameLabels_absolute hfits] at hd
  split at hd
  · rw [Except.ok.injEq, Prod.mk.injEq] at hd
    exact hd.1.symm
  · cases hd

theorem convertRrset_item (hbase64 : crates.Base64RoundTrip) {r : RecordData} {zone : ZoneName} {ttl : Option ℤ}
    {op : RrsetOp} (ht : r.recordType ∈ externalDnsRecordTypes) (hok : RowOk r) (hs : Spelled r)
    (hfilled : r.recordType = .txt → r.value ≠ txtIntoEncoded []) (httl : ∀ t, ttl = some t → 0 ≤ t) :
    convertRrset ((r.item zone).rrset ttl) = .ok op ↔ r.name.Fits zone ∧ op.name = joinLabels (r.name.absoluteLabels zone) ∧
      op.recordType = r.recordType ∧ normalizeTtl ttl = .ok op.ttl ∧ op.values = [r.value] := by
  have htype : parseSupportedRecordType r.recordType.asStr = .ok r.recordType := by
    rw [parseSupportedRecordType, parseRecordType_asStr, Fallible.ok_bind, if_pos ht]
    rfl
  obtain ⟨ttl', httl'⟩ := normalizeTtl_ok httl
  have hshape : ∀ n v, validateRrsetShape ⟨n, v, ttl, [r.recordType.presentationRdata r.value r.priority]⟩ r.recordType
      = .ok () := fun n v => by simp [validateRrsetShape]
  have hvalues : encodeValues r.recordType [r.recordType.presentationRdata r.value r.priority] = .ok [r.value] := by
    rw [encodeValues, List.foldlM_cons, encodedValue_presentationRdata hbase64 ht hok hs hfilled]
    rfl
  have hname := fun {n : Text} => @normalizeLookupName_joinLabels _ (r.name.absoluteLabels_ne_nil zone)
    (r.name.absoluteLabels_isOwnerLabel zone) n
  simp only [convertRrset, ExternalDnsRecordItem.rrset, RecordData.item, htype, trimEndMatches_toFqdn, Fallible.ok_bind,
    httl', hshape, hvalues]
  constructor
  · intro h
    obtain ⟨n, hn, h⟩ := Fallible.bind_eq_ok.1 h
    obtain ⟨hfit, rfl⟩ := hname.1 hn
    cases h
    exact ⟨hfit, rfl, rfl, rfl, rfl⟩
  · obtain ⟨n, t, l, v⟩ := op
    rintro ⟨hfit, rfl, rfl, hl, rfl⟩
    rw [hname.2 ⟨hfit, rfl⟩, Except.ok.inj hl]
    rfl

/-! ### Grouped operations -/

/-- The deletions or the additions of a zone. -/
def ZoneOps.part (ops : ZoneOps) (isDelete : Bool) : List ZoneRrsetOp := if isDelete then ops.dels else ops.adds

/-- The operations of a request, grouped, have this one among those of a zone. -/
def HasOp (grouped : List (ZoneName × ZoneOps)) (zone : ZoneName) (isDelete : Bool) (op : ZoneRrsetOp) : Prop :=
  ∃ e ∈ grouped, e.1 = zone ∧ op ∈ e.2.part isDelete

/-- An operation of a request is this one of a zone. -/
structure ResolvesTo (zones : List ZoneName) (p : PendingOp) (zone : ZoneName) (op : ZoneRrsetOp) : Prop where
  found : findAuthoritativeZone zones p.op.name = some zone
  owner : parseAbsoluteInZone p.op.name zone = .ok op.name
  rrset : op = ⟨op.name, p.op.recordType, p.op.ttl, p.op.values⟩

omit crates in
theorem mem_part_push {ops : ZoneOps} {b b' : Bool} {op d : ZoneRrsetOp} :
    d ∈ (ops.push b op).part b' ↔ d ∈ ops.part b' ∨ b = b' ∧ d = op := by
  cases b <;> cases b' <;> simp [ZoneOps.push, ZoneOps.part]

omit crates in
theorem hasOp_cons {e : ZoneName × ZoneOps} {grouped : List (ZoneName × ZoneOps)} {zone : ZoneName} {b : Bool}
    {op : ZoneRrsetOp} : HasOp (e :: grouped) zone b op ↔ (e.1 = zone ∧ op ∈ e.2.part b) ∨ HasOp grouped zone b op := by
  simp [HasOp]

omit crates in
theorem hasOp_pushOp {grouped : List (ZoneName × ZoneOps)} {zone z : ZoneName} {b b' : Bool} {op d : ZoneRrsetOp} :
    HasOp (pushOp zone b op grouped) z b' d ↔ HasOp grouped z b' d ∨ (zone = z ∧ b = b' ∧ d = op) := by
  have hnew : d ∈ ((ZoneOps.mk [] []).push b op).part b' ↔ b = b' ∧ d = op := by
    rw [mem_part_push]
    cases b' <;> simp [ZoneOps.part]
  induction grouped with
  | nil =>
      rw [pushOp, hasOp_cons, hnew]
      tauto
  | cons e grouped ih =>
      rw [pushOp]
      split
      · rename_i hz
        rw [hasOp_cons, hasOp_cons, mem_part_push, ← hz]
        tauto
      · split
        · rw [hasOp_cons, hnew]
          tauto
        · simp only [hasOp_cons, ih]
          tauto

omit crates in
theorem hasOp_groupOpsByZone {zones : List ZoneName} {ops : List PendingOp} {grouped : List (ZoneName × ZoneOps)}
    (h : groupOpsByZone zones ops = .ok grouped) {zone : ZoneName} {b : Bool} {op : ZoneRrsetOp} :
    HasOp grouped zone b op ↔ ∃ p ∈ ops, p.isDelete = b ∧ ResolvesTo zones p zone op := by
  have hnone : ¬ HasOp [] zone b op := by simp [HasOp]
  suffices HasOp grouped zone b op ↔ HasOp [] zone b op ∨ ∃ p ∈ ops, p.isDelete = b ∧ ResolvesTo zones p zone op by
    simpa only [hnone, false_or] using this
  clear hnone
  unfold groupOpsByZone at h
  generalize ([] : List (ZoneName × ZoneOps)) = start at h ⊢
  induction ops generalizing start with
  | nil =>
      cases h
      simp
  | cons p ops ih =>
      rw [List.foldlM_cons] at h
      obtain ⟨next, hnext, h⟩ := Fallible.bind_eq_ok.1 h
      split at hnext
      · cases hnext
      · rename_i z hfound
        split at hnext
        · rename_i name howner
          cases hnext
          rw [ih _ h, hasOp_pushOp, List.exists_mem_cons_iff, or_assoc]
          refine or_congr_right (or_congr_left ⟨?_, ?_⟩)
          · rintro ⟨rfl, rfl, rfl⟩
            exact ⟨rfl, hfound, howner, rfl⟩
          · rintro ⟨rfl, hr⟩
            obtain rfl : z = zone := Option.some.inj (hfound.symm.trans hr.found)
            have hname : name = op.name := Except.ok.inj (howner.symm.trans hr.owner)
            exact ⟨rfl, rfl, by rw [hname]; exact hr.rrset⟩
        · cases hnext

omit crates in
theorem exists_of_mem_groupOpsByZone {zones : List ZoneName} {ops : List PendingOp} {grouped : List (ZoneName × ZoneOps)}
    (h : groupOpsByZone zones ops = .ok grouped) :
    ∀ e ∈ grouped, ∃ p ∈ ops, findAuthoritativeZone zones p.op.name = some e.1 := by
  refine Fallible.foldlM_invariant
    (I := fun g : List (ZoneName × ZoneOps) => ∀ e ∈ g, ∃ p ∈ ops, findAuthoritativeZone zones p.op.name = some e.1)
    h (by simp) fun p hp g g' hg hstep => ?_
  split at hstep
  · cases hstep
  · rename_i z hfound
    split at hstep
    · cases hstep
      intro e he
      rcases mem_pushOp_text he with he | he
      · exact ⟨p, hp, he ▸ hfound⟩
      · exact hg e he
    · cases hstep

/-! ### Deleting -/

section Transaction

variable {tx : Tx} {ops : ZoneOps} (hok : TxOk tx)

/-- The rows of a zone that operations delete. -/
def ZoneOps.deletes (ops : ZoneOps) (tx : Tx) : List Record :=
  computeDeletes (tx.recordsByNames (ops.writes.map (·.relativeName))) ops.dels

include hok

omit crates in
theorem mem_deletes (hsup : ops.Supported) {r : Record} :
    r ∈ ops.deletes tx ↔ r ∈ tx.store.records ∧ r.key ∈ listedKeys ops.dels := by
  have hgiven : Given (tx.recordsByNames (ops.writes.map (·.relativeName))) :=
    ⟨hok.ids.nodup.sublist (List.filter_sublist.map _),
      hok.store.rows.mono (Multiset.coe_le.2 (List.filter_sublist.map _).subperm)⟩
  rw [ZoneOps.deletes, mem_computeDeletes hgiven fun op hop => hsup op (by simp [hop])]
  refine and_congr_left fun hk => ⟨fun hr => List.mem_of_mem_filter hr, fun hr => List.mem_filter.2 ⟨hr, ?_⟩⟩
  obtain ⟨op, hop, hname, -⟩ := onOps_of_key hk
  simp only [ZoneOps.writes, List.map_map, List.mem_map, decide_eq_true_eq]
  exact ⟨op, by simp [hop], hname.symm⟩

omit crates in
theorem mem_survivors_deletes (hsup : ops.Supported) {r : Record} :
    r ∈ tx.survivors (ops.deletes tx) ↔ r ∈ tx.store.records ∧ r.key ∉ listedKeys ops.dels := by
  rw [Tx.survivors, List.mem_filter, decide_eq_true_eq]
  refine and_congr_right fun hr => not_congr ⟨fun hid => ?_, fun hk => ?_⟩
  · obtain ⟨s, hs, e⟩ := List.mem_map.1 hid
    obtain ⟨hmem, hk⟩ := (mem_deletes hok hsup).1 hs
    obtain rfl := eq_of_id_eq hok.ids.nodup hmem hr e
    exact hk
  · exact List.mem_map_of_mem ((mem_deletes hok hsup).2 ⟨hr, hk⟩)

omit hok crates in
theorem applyZoneOpsTx_of_adds_nil (hadds : ops.adds = []) (policies : List ZonePolicy) :
    applyZoneOpsTx .global policies ops tx =
      if ops.deletes tx = [] then .ok (tx, ⟨ops.deletes tx, []⟩)
      else generateSerial tx.store.zone.serial >>= fun newSerial =>
        ((tx.deleteRecordsWithChanges newSerial (ops.deletes tx)).insertRecordsWithChanges newSerial
          []).advanceSerial tx.store.zone newSerial >>= fun tx' => .ok (tx', ⟨ops.deletes tx, []⟩) := by
  have hcs : computeZoneChangeSet tx.store.zone (tx.recordsByNames (ops.writes.map (·.relativeName))) ops =
      .ok ⟨ops.deletes tx, []⟩ := by
    rw [computeZoneChangeSet, hadds]
    rfl
  simp only [applyZoneOpsTx, Caller.authorizeRecordWrites, Fallible.ok_bind, hcs, and_true]
  rfl

omit crates in
theorem applyZoneOpsTx_deletes (hadds : ops.adds = []) (hsup : ops.Supported) (policies : List ZonePolicy) :
    ((∃ tx' cs, applyZoneOpsTx .global policies ops tx = .ok (tx', cs)) ↔
      ((∃ r ∈ tx.store.records, r.key ∈ listedKeys ops.dels) → tx.store.zone.serial ≠ i32Max)) ∧
    ∀ tx' cs, applyZoneOpsTx .global policies ops tx = .ok (tx', cs) →
      tx'.store.zone.id = tx.store.zone.id ∧ tx'.store.zone.name = tx.store.zone.name ∧
      ∀ r, r ∈ tx'.store.records ↔ r ∈ tx.store.records ∧ r.key ∉ listedKeys ops.dels := by
  have hempty : ops.deletes tx = [] ↔ ¬ ∃ r ∈ tx.store.records, r.key ∈ listedKeys ops.dels := by
    rw [List.eq_nil_iff_forall_not_mem]
    simp only [mem_deletes hok hsup, not_exists, not_and]
  rw [applyZoneOpsTx_of_adds_nil hadds]
  by_cases hnil : ops.deletes tx = []
  · rw [if_pos hnil]
    refine ⟨iff_of_true ⟨_, _, rfl⟩ fun hr => absurd hr (hempty.1 hnil), fun tx' cs h => ?_⟩
    cases h
    exact ⟨rfl, rfl, fun r => ⟨fun hr => ⟨hr, fun hk => hempty.1 hnil ⟨r, hr, hk⟩⟩, fun hr => hr.1⟩⟩
  · rw [if_neg hnil]
    have hsome := not_not.1 (mt hempty.2 hnil)
    refine ⟨⟨?_, fun hmax => ?_⟩, fun tx' cs h => ?_⟩
    · rintro ⟨tx', cs, h⟩ -
      obtain ⟨n, hn, -⟩ := Fallible.bind_eq_ok.1 h
      exact (generateSerial_eq_ok.1 hn).1
    · obtain ⟨tx', htx'⟩ : ∃ tx', ((tx.deleteRecordsWithChanges (tx.store.zone.serial + 1)
          (ops.deletes tx)).insertRecordsWithChanges (tx.store.zone.serial + 1) []).advanceSerial tx.store.zone
            (tx.store.zone.serial + 1) = .ok tx' := hok.store.email.saveSnapshot _ _
      refine ⟨tx', ⟨ops.deletes tx, []⟩, ?_⟩
      rw [generateSerial_eq_ok.2 ⟨hmax hsome, rfl⟩, Fallible.ok_bind, htx']
      rfl
    · obtain ⟨n, hn, h⟩ := Fallible.bind_eq_ok.1 h
      obtain ⟨tx₁, hadv, h⟩ := Fallible.bind_eq_ok.1 h
      cases h
      obtain ⟨m, -, hadv⟩ := Fallible.bind_eq_ok.1 hadv
      cases hadv
      refine ⟨rfl, rfl, fun r => ?_⟩
      rw [← mem_survivors_deletes hok hsup]
      simp [Tx.upsertSnapshot, Tx.updateZone, Tx.insertRecordsWithChanges, Tx.createRecords, Tx.createZoneChanges,
        Tx.numbered, Tx.deleteRecordsWithChanges, Tx.deleteRecords, Tx.survivors]

end Transaction

/-- A row of a zone is deleted by the operations grouped for its zone. -/
def Gone (grouped : List (ZoneName × ZoneOps)) (zone : ZoneName) (r : Record) : Prop :=
  ∃ e ∈ grouped, e.1 = zone ∧ r.key ∈ listedKeys e.2.dels

/-- The zones are those there were, without the rows that are deleted. -/
structure Deleted (grouped : List (ZoneName × ZoneOps)) (db db' : Db) : Prop where
  zoneIds : db'.stores.map (·.zone.id) = db.stores.map (·.zone.id)
  rows : ∀ st' ∈ db'.stores, ∃ st ∈ db.stores, st'.zone.id = st.zone.id ∧
    ∀ r, r ∈ st'.records ↔ r ∈ st.records ∧ ¬ Gone grouped st.zone.name r

omit crates in
theorem gone_cons {e : ZoneName × ZoneOps} {grouped : List (ZoneName × ZoneOps)} {zone : ZoneName} {r : Record} :
    Gone (e :: grouped) zone r ↔ (e.1 = zone ∧ r.key ∈ listedKeys e.2.dels) ∨ Gone grouped zone r := by
  simp [Gone]

omit crates in
theorem applyZoneOps_deletes {db : Db} (hdb : DbOk db) {e : ZoneName × ZoneOps} {st : ZoneStore} (hst : st ∈ db.stores)
    (hname : st.zone.name = e.1) (hadds : e.2.adds = []) (hsup : e.2.Supported) (resp : ExternalDnsChangesResponse) :
    ((∃ s, applyZoneOps .global (db, resp) e = .ok s) ↔
      ((∃ r ∈ st.records, r.key ∈ listedKeys e.2.dels) → st.zone.serial ≠ i32Max)) ∧
    ∀ db' resp', applyZoneOps .global (db, resp) e = .ok (db', resp') →
      DbOk db' ∧ db'.stores.map (·.zone.id) = db.stores.map (·.zone.id) ∧
      ∃ st', st'.zone.id = st.zone.id ∧ st'.zone.name = st.zone.name ∧
        (∀ s, s ∈ db'.stores ↔ s = st' ∨ (s ∈ db.stores ∧ s.zone.id ≠ st.zone.id)) ∧
        ∀ r, r ∈ st'.records ↔ r ∈ st.records ∧ r.key ∉ listedKeys e.2.dels := by
  have htxok := hdb.txOk hst
  obtain ⟨hiff, hrows⟩ := applyZoneOpsTx_deletes htxok hadds hsup db.tokenPolicies
  have hfind : db.getZoneByName e.1 = some st := hname ▸ hdb.getZoneByName_eq hst
  simp only [applyZoneOps, hfind]
  constructor
  · refine Iff.trans ⟨?_, ?_⟩ hiff
    · rintro ⟨s, h⟩
      obtain ⟨⟨db₁, cs⟩, htx, -⟩ := Fallible.bind_eq_ok.1 h
      obtain ⟨⟨tx', cs'⟩, htx, -⟩ := Fallible.bind_eq_ok.1 htx
      exact ⟨tx', cs', htx⟩
    · rintro ⟨tx', cs, htx⟩
      rw [Db.inTx, htx]
      exact ⟨_, rfl⟩
  · intro db' resp' h
    obtain ⟨⟨db₁, cs⟩, hin, h⟩ := Fallible.bind_eq_ok.1 h
    cases h
    have hbody : ∀ tx, applyZoneOpsTx .global db.tokenPolicies e.2 (db.beginTx st) = .ok (tx, cs) →
        tx = db.beginTx st ∨ ∃ log, CommitsRecords log (db.beginTx st) tx ∧ True := fun tx htx =>
      (applyZoneOpsTx_commits htxok hsup htx).imp (·.1) fun ⟨log, _, hc, _⟩ => ⟨log, hc, trivial⟩
    have hstep := recordStep_of_inTx (L := fun _ _ => True) hdb hst hin hbody
    obtain ⟨⟨tx', cs'⟩, htx, hin⟩ := Fallible.bind_eq_ok.1 hin
    cases hin
    obtain ⟨hid, hzone, hrecords⟩ := hrows tx' cs htx
    exact ⟨hstep.ok, hstep.zoneIds, tx'.store, hid, hzone, fun s => mem_commit hst hid, hrecords⟩

omit crates in
/-- **Deletions in several zones.** -/
theorem foldlM_applyZoneOps_deletes {grouped : List (ZoneName × ZoneOps)} (hgrouped : GroupedOk grouped)
    (hadds : ∀ e ∈ grouped, e.2.adds = []) {db : Db} (hdb : DbOk db)
    (hzones : ∀ e ∈ grouped, ∃ st ∈ db.stores, st.zone.name = e.1) (resp : ExternalDnsChangesResponse) :
    ((∃ s, grouped.foldlM (applyZoneOps .global) (db, resp) = .ok s) ↔
      ∀ st ∈ db.stores, (∃ r ∈ st.records, Gone grouped st.zone.name r) → st.zone.serial ≠ i32Max) ∧
    ∀ db' resp', grouped.foldlM (applyZoneOps .global) (db, resp) = .ok (db', resp') → Deleted grouped db db' := by
  induction grouped generalizing db resp with
  | nil =>
      refine ⟨iff_of_true ⟨_, rfl⟩ (by simp [Gone]), fun db' resp' h => ?_⟩
      cases h
      exact ⟨rfl, fun st hst => ⟨st, hst, rfl, by simp [Gone]⟩⟩
  | cons e grouped ih =>
      obtain ⟨hsorted, hsup⟩ := hgrouped
      rw [List.map_cons, List.pairwise_cons] at hsorted
      have hnew : ∀ f ∈ grouped, f.1 ≠ e.1 := fun f hf heq =>
        absurd (hsorted.1 _ (List.mem_map_of_mem hf)) (by simp [heq])
      have hself : ∀ r, ¬ Gone grouped e.1 r := fun r ⟨f, hf, hz, _⟩ => hnew f hf hz
      obtain ⟨st, hst, hname⟩ := hzones e (by simp)
      obtain ⟨hiff, hrows⟩ := applyZoneOps_deletes hdb hst hname (hadds e (by simp)) (hsup e (by simp)) resp
      have hother : ∀ s ∈ db.stores, s.zone.id ≠ st.zone.id → e.1 ≠ s.zone.name := fun s hs hne heq =>
        hne (congrArg (·.zone.id) (hdb.eq_of_name_eq hs hst (heq.symm.trans hname.symm)))
      -- the zones of the other entries are still there after the first
      have hkept : ∀ db₁ resp₁, applyZoneOps .global (db, resp) e = .ok (db₁, resp₁) →
          ∀ f ∈ grouped, ∃ s ∈ db₁.stores, s.zone.name = f.1 := by
        intro db₁ resp₁ hstep f hf
        obtain ⟨-, -, st₁, -, -, hmem, -⟩ := hrows db₁ resp₁ hstep
        obtain ⟨s, hs, hsname⟩ := hzones f (by simp [hf])
        refine ⟨s, (hmem s).2 (.inr ⟨hs, fun hid => hnew f hf ?_⟩), hsname⟩
        rw [← hsname, hdb.eq_of_id_eq hs hst hid, hname]
      have hrest := fun db₁ resp₁ hstep => ih ⟨hsorted.2, fun f hf => hsup f (by simp [hf])⟩
        (fun f hf => hadds f (by simp [hf])) (hrows db₁ resp₁ hstep).1 (hkept db₁ resp₁ hstep) resp₁
      constructor
      · constructor
        · rintro ⟨s, h⟩
          rw [List.foldlM_cons] at h
          obtain ⟨⟨db₁, resp₁⟩, hstep, h⟩ := Fallible.bind_eq_ok.1 h
          obtain ⟨-, -, st₁, -, -, hmem, -⟩ := hrows db₁ resp₁ hstep
          have hrest₁ := (hrest db₁ resp₁ hstep).1.1 ⟨s, h⟩
          rintro s' hs' ⟨r, hr, hgone⟩
          by_cases hid : s'.zone.id = st.zone.id
          · obtain rfl := hdb.eq_of_id_eq hs' hst hid
            refine hiff.1 ⟨_, hstep⟩ ⟨r, hr, ?_⟩
            rcases gone_cons.1 hgone with hgone | hgone
            · exact hgone.2
            · exact absurd (hname ▸ hgone) (hself r)
          · refine hrest₁ s' ((hmem s').2 (.inr ⟨hs', hid⟩)) ⟨r, hr, ?_⟩
            rcases gone_cons.1 hgone with hgone | hgone
            · exact absurd hgone.1 (hother s' hs' hid)
            · exact hgone
        · intro hroom
          obtain ⟨⟨db₁, resp₁⟩, hstep⟩ := hiff.2 fun ⟨r, hr, hk⟩ =>
            hroom st hst ⟨r, hr, gone_cons.2 (.inl ⟨hname.symm, hk⟩)⟩
          obtain ⟨-, -, st₁, -, hname₁, hmem, -⟩ := hrows db₁ resp₁ hstep
          rw [List.foldlM_cons, hstep]
          refine (hrest db₁ resp₁ hstep).1.2 fun s' hs' ⟨r, hr, hgone⟩ => ?_
          rcases (hmem s').1 hs' with rfl | ⟨hs', -⟩
          · rw [hname₁, hname] at hgone
            exact absurd hgone (hself r)
          · exact hroom s' hs' ⟨r, hr, gone_cons.2 (.inr hgone)⟩
      · intro db' resp' h
        rw [List.foldlM_cons] at h
        obtain ⟨⟨db₁, resp₁⟩, hstep, h⟩ := Fallible.bind_eq_ok.1 h
        obtain ⟨-, hids, st₁, hid₁, hname₁, hmem, hrecords⟩ := hrows db₁ resp₁ hstep
        obtain ⟨hids', hrows'⟩ := (hrest db₁ resp₁ hstep).2 db' resp' h
        refine ⟨hids'.trans hids, fun st' hst' => ?_⟩
        obtain ⟨s, hs, hid, hrec⟩ := hrows' st' hst'
        rcases (hmem s).1 hs with rfl | ⟨hs, hne⟩
        · refine ⟨st, hst, hid.trans hid₁, fun r => ?_⟩
          rw [hrec, hrecords, gone_cons, hname₁, hname]
          tauto
        · refine ⟨s, hs, hid, fun r => ?_⟩
          rw [hrec, gone_cons]
          have := hother s hs hne
          tauto

/-! ### Deleting what is listed -/

omit crates in
theorem gone_iff {grouped : List (ZoneName × ZoneOps)} {zone : ZoneName} {r : Record} :
    Gone grouped zone r ↔ ∃ op, HasOp grouped zone true op ∧ ∃ v ∈ op.values, op.key v = r.key := by
  constructor
  · rintro ⟨e, he, hz, hk⟩
    obtain ⟨⟨op, v⟩, hlisted, hkey⟩ := List.mem_map.1 hk
    obtain ⟨hop, hv⟩ := mem_listed.1 hlisted
    exact ⟨op, ⟨e, he, hz, hop⟩, v, hv, hkey⟩
  · rintro ⟨op, ⟨e, he, hz, hop⟩, v, hv, hkey⟩
    exact ⟨e, he, hz, hkey ▸ mem_listedKeys (p := (op, v)) (mem_listed.2 ⟨hop, hv⟩)⟩

theorem mem_convertRequest_deleting {rrsets : List ExternalDnsRrset} {ops : List PendingOp}
    (h : convertRequest (deleting rrsets) = .ok ops) {p : PendingOp} :
    p ∈ ops ↔ p.isDelete = true ∧ ∃ rrset ∈ rrsets, convertRrset rrset = .ok p.op := by
  obtain ⟨deletes, hd, h⟩ := Fallible.bind_eq_ok.1 h
  have hops : ops = deletes := by
    cases h
    exact (List.append_nil _).trans (List.append_nil _)
  subst hops
  constructor
  · intro hp
    obtain ⟨rrset, hmem, h⟩ := Fallible.mem_of_mapM hd hp
    obtain ⟨op, hop, h⟩ := Fallible.bind_eq_ok.1 h
    cases h
    exact ⟨rfl, rrset, hmem, hop⟩
  · rintro ⟨hdel, rrset, hmem, hop⟩
    obtain ⟨q, hq, h⟩ := Fallible.exists_of_mapM hd hmem
    rw [hop] at h
    cases h
    obtain ⟨op, b⟩ := p
    cases hdel
    exact hq

theorem exists_convertRequest_deleting {rrsets : List ExternalDnsRrset} :
    (∃ ops, convertRequest (deleting rrsets) = .ok ops) ↔ ∀ rrset ∈ rrsets, ∃ op, convertRrset rrset = .ok op := by
  constructor
  · rintro ⟨ops, h⟩ rrset hmem
    obtain ⟨deletes, hd, -⟩ := Fallible.bind_eq_ok.1 h
    obtain ⟨p, -, h⟩ := Fallible.exists_of_mapM hd hmem
    obtain ⟨op, hop, -⟩ := Fallible.bind_eq_ok.1 h
    exact ⟨op, hop⟩
  · intro h
    obtain ⟨deletes, hd⟩ := Fallible.mapM_eq_ok_of_forall
      (f := fun rrset => convertRrset rrset >>= fun op => pure (PendingOp.mk op true)) (l := rrsets) fun rrset hmem => by
        obtain ⟨op, hop⟩ := h rrset hmem
        exact ⟨⟨op, true⟩, by rw [hop]; rfl⟩
    refine ⟨deletes, ?_⟩
    simp only [convertRequest, deleting]
    rw [hd]
    exact congrArg Except.ok ((List.append_nil _).trans (List.append_nil _))

/-- A row that is listed. -/
structure Shown (db : Db) (st : ZoneStore) (r : Record) : Prop where
  store : st ∈ db.stores
  row : r ∈ st.records
  managed : r.recordType ∈ externalDnsRecordTypes

/-- A row that deleting the items takes away: no zone below its own holds its owner, and a row of its owner, type and
rdata is among the items. -/
structure Taken (db : Db) (items : List ExternalDnsRecordItem) (st : ZoneStore) (r : Record) : Prop where
  closest : IsClosest db.zoneNames (r.name.absoluteLabels st.zone.name) st.zone.name
  listed : ∃ st₂ r₂, Shown db st₂ r₂ ∧ r₂.item st₂.zone.name ∈ items ∧
    r₂.name.absoluteLabels st₂.zone.name = r.name.absoluteLabels st.zone.name ∧ r₂.recordType = r.recordType ∧
    r₂.canonical = r.canonical

theorem RowsStored.rowOk {db : Db} (hdb : RowsStored db) {st : ZoneStore} {r : Record} (hst : st ∈ db.stores)
    (hr : r ∈ st.records) : RowOk r.toRecordData :=
  (acceptable_coe.1 (hdb.ok.store st hst).rows).1 _ (List.mem_map_of_mem hr)

section Items

variable (hbase64 : crates.Base64RoundTrip) {db : Db} (hdb : RowsStored db) {ttl : ExternalDnsRecordItem → Option ℤ}
  (httl : ∀ item t, ttl item = some t → 0 ≤ t)

include hbase64 hdb httl

theorem convertRrset_shown {st : ZoneStore} {r : Record} (hshown : Shown db st r) {op : RrsetOp} :
    convertRrset ((r.item st.zone.name).rrset (ttl (r.item st.zone.name))) = .ok op ↔ r.name.Fits st.zone.name ∧
      op.name = joinLabels (r.name.absoluteLabels st.zone.name) ∧ op.recordType = r.recordType ∧
      normalizeTtl (ttl (r.item st.zone.name)) = .ok op.ttl ∧ op.values = [r.value] :=
  convertRrset_item hbase64 hshown.managed (hdb.rowOk hshown.store hshown.row) (hdb.spelled _ hshown.store _ hshown.row)
    (hdb.filled _ hshown.store _ hshown.row) (httl _)

variable {items : List ExternalDnsRecordItem}
  (hitems : ∀ item ∈ items, ∃ st r, Shown db st r ∧ item = r.item st.zone.name)

include hitems

theorem mem_convertRequest_items {ops : List PendingOp}
    (hops : convertRequest (deleting (items.map fun item => item.rrset (ttl item))) = .ok ops) {p : PendingOp} :
    p ∈ ops ↔ p.isDelete = true ∧ ∃ st r, Shown db st r ∧ r.item st.zone.name ∈ items ∧ r.name.Fits st.zone.name ∧
      p.op.name = joinLabels (r.name.absoluteLabels st.zone.name) ∧ p.op.recordType = r.recordType ∧
      normalizeTtl (ttl (r.item st.zone.name)) = .ok p.op.ttl ∧ p.op.values = [r.value] := by
  rw [mem_convertRequest_deleting hops]
  refine and_congr_right fun _ => ⟨?_, ?_⟩
  · rintro ⟨rrset, hmem, hop⟩
    obtain ⟨item, hitem, rfl⟩ := List.mem_map.1 hmem
    obtain ⟨st, r, hshown, rfl⟩ := hitems item hitem
    exact ⟨st, r, hshown, hitem, (convertRrset_shown hbase64 hdb httl hshown).1 hop⟩
  · rintro ⟨st, r, hshown, hitem, hop⟩
    exact ⟨_, List.mem_map_of_mem hitem, (convertRrset_shown hbase64 hdb httl hshown).2 hop⟩

theorem exists_convertRequest_items :
    (∃ ops, convertRequest (deleting (items.map fun item => item.rrset (ttl item))) = .ok ops) ↔
      ∀ st r, Shown db st r → r.item st.zone.name ∈ items → r.name.Fits st.zone.name := by
  rw [exists_convertRequest_deleting]
  constructor
  · intro h st r hshown hitem
    obtain ⟨op, hop⟩ := h _ (List.mem_map_of_mem hitem)
    exact ((convertRrset_shown hbase64 hdb httl hshown).1 hop).1
  · intro h rrset hmem
    obtain ⟨item, hitem, rfl⟩ := List.mem_map.1 hmem
    obtain ⟨st, r, hshown, rfl⟩ := hitems item hitem
    obtain ⟨ttl', httl'⟩ := normalizeTtl_ok (httl (r.item st.zone.name))
    exact ⟨⟨_, _, ttl', _⟩, (convertRrset_shown hbase64 hdb httl hshown).2
      ⟨h st r hshown hitem, rfl, rfl, httl', rfl⟩⟩

/-- The rows that grouped operations delete, in terms of the items. -/
theorem gone_iff_taken {ops : List PendingOp} {grouped : List (ZoneName × ZoneOps)}
    (hops : convertRequest (deleting (items.map fun item => item.rrset (ttl item))) = .ok ops)
    (hgrouped : groupOpsByZone db.zoneNames ops = .ok grouped) {st : ZoneStore} {r : Record} :
    Gone grouped st.zone.name r ↔ Taken db items st r := by
  have hplain := fun {st : ZoneStore} {r : Record} (h : Shown db st r) =>
    (hdb.rowOk h.store h.row).plain h.managed
  have hdecode := fun {st₂ : ZoneStore} {r₂ : Record} (hfits : r₂.name.Fits st₂.zone.name) =>
    decodeNameLabels_absolute hfits
  simp only [gone_iff, hasOp_groupOpsByZone hgrouped]
  constructor
  · rintro ⟨op, ⟨p, hp, -, hres⟩, v, hv, hkey⟩
    obtain ⟨-, st₂, r₂, hshown, hitem, hfits, hname, htype, -, hvalues⟩ :=
      (mem_convertRequest_items hbase64 hdb httl hitems hops).1 hp
    have hfound := hname ▸ hres.found
    have howner := hname ▸ hres.owner
    have hclosest := (findAuthoritativeZone_eq_some_iff (hdecode hfits) _ _).1 hfound
    obtain ⟨o, ho, hlabels⟩ := parseAbsoluteInZone_joinLabels ⟨r₂.name.absoluteLabels_isOwnerLabel _, hfits⟩
      hclosest.suffix
    rw [ho, Except.ok.injEq] at howner
    have hrrset := hres.rrset
    simp only [RecordData.key, ZoneRrsetOp.key, Prod.mk.injEq] at hkey
    have habs : r₂.name.absoluteLabels st₂.zone.name = r.name.absoluteLabels st.zone.name := by
      rw [← hlabels, absoluteLabels, ← hkey.1, howner]
    have htype₂ : r₂.recordType = r.recordType := by
      rw [← hkey.2.1, hrrset, htype]
    have hv₂ : v = r₂.value := by
      rw [hrrset] at hv
      simpa [hvalues] using hv
    refine ⟨habs ▸ hclosest, st₂, r₂, hshown, hitem, habs, htype₂, ?_⟩
    rw [← hkey.2.2, RecordData.canonical, hplain hshown, hv₂, hkey.2.1, htype₂]
  · rintro ⟨hclosest, st₂, r₂, hshown, hitem, habs, htype, hcanonical⟩
    have hfits := (exists_convertRequest_items hbase64 hdb httl hitems).1 ⟨ops, hops⟩ st₂ r₂ hshown hitem
    obtain ⟨ttl', httl'⟩ := normalizeTtl_ok (httl (r₂.item st₂.zone.name))
    obtain ⟨o, ho, hlabels⟩ := @parseAbsoluteInZone_joinLabels
      (r₂.name.absoluteLabels st₂.zone.name) _ ⟨r₂.name.absoluteLabels_isOwnerLabel _, hfits⟩ (habs ▸ hclosest.suffix)
    have honame : o = r.name := by
      rw [habs, absoluteLabels, List.append_cancel_right_eq] at hlabels
      exact OwnerName.ext hlabels
    have hp := (mem_convertRequest_items hbase64 hdb httl hitems hops
      (p := ⟨⟨joinLabels (r₂.name.absoluteLabels st₂.zone.name), r₂.recordType, ttl', [r₂.value]⟩, true⟩)).2
      ⟨rfl, st₂, r₂, hshown, hitem, hfits, rfl, rfl, httl', rfl⟩
    refine ⟨⟨r.name, r₂.recordType, ttl', [r₂.value]⟩, ⟨_, hp, rfl, ?_, honame ▸ ho, rfl⟩, r₂.value, by simp, ?_⟩
    · exact (findAuthoritativeZone_eq_some_iff (hdecode hfits) _ _).2 (habs ▸ hclosest)
    · rw [RecordData.key, ← htype, ← hcanonical, RecordData.canonical, hplain hshown]
      rfl

/-- **Deleting listed items.**  The request succeeds when every owner fits its zone and every zone that loses a row has
a serial left; then the rows that are left are those that were not taken. -/
theorem applyChanges_items :
    ((∃ s, applyChanges db .global db.zoneNames (deleting (items.map fun item => item.rrset (ttl item))) = .ok s) ↔
      (∀ st r, Shown db st r → r.item st.zone.name ∈ items → r.name.Fits st.zone.name) ∧
      ∀ st ∈ db.stores, (∃ r ∈ st.records, Taken db items st r) → st.zone.serial ≠ i32Max) ∧
    ∀ db' resp, applyChanges db .global db.zoneNames (deleting (items.map fun item => item.rrset (ttl item))) =
        .ok (db', resp) → db'.stores.map (·.zone.id) = db.stores.map (·.zone.id) ∧
      ∀ st' ∈ db'.stores, ∃ st ∈ db.stores, st'.zone.id = st.zone.id ∧
        ∀ r, r ∈ st'.records ↔ r ∈ st.records ∧ ¬ Taken db items st r := by
  rw [← exists_convertRequest_items hbase64 hdb httl hitems]
  cases hops : convertRequest (deleting (items.map fun item => item.rrset (ttl item))) with
  | error e =>
      have herr : applyChanges db .global db.zoneNames (deleting (items.map fun item => item.rrset (ttl item))) =
          .error e := by rw [applyChanges, hops]; rfl
      rw [herr]
      exact ⟨by simp, by simp⟩
  | ok ops =>
      obtain ⟨grouped, hgrouped⟩ : ∃ grouped, groupOpsByZone db.zoneNames ops = .ok grouped := by
        cases h : groupOpsByZone db.zoneNames ops with
        | ok grouped => exact ⟨grouped, rfl⟩
        | error e =>
            have hnames : ∀ p ∈ ops, ∃ st ∈ db.stores, ∃ r : Record, r.name.Fits st.zone.name ∧
                p.op.name = joinLabels (r.name.absoluteLabels st.zone.name) := fun p hp => by
              obtain ⟨-, st, r, hshown, -, hfits, hname, -⟩ :=
                (mem_convertRequest_items hbase64 hdb httl hitems hops).1 hp
              exact ⟨st, hshown.store, r, hfits, hname⟩
            have hlookup : ∀ p ∈ ops, ∃ name, normalizeLookupName name = .ok p.op.name := fun p hp => by
              obtain ⟨st, hst, r, hfits, hname⟩ := hnames p hp
              exact ⟨p.op.name, hname ▸ (normalizeLookupName_joinLabels (r.name.absoluteLabels_ne_nil _)
                (r.name.absoluteLabels_isOwnerLabel _)).2 ⟨hfits, rfl⟩⟩
            obtain ⟨p, hp, hnone, -⟩ := groupOpsByZone_error hlookup h
            obtain ⟨st, hst, r, hfits, hname⟩ := hnames p hp
            rw [hname, findAuthoritativeZone_eq_none_iff (decodeNameLabels_absolute hfits)] at hnone
            exact absurd (List.suffix_append _ _) (hnone _ (List.mem_map_of_mem hst))
      have hrun : applyChanges db .global db.zoneNames (deleting (items.map fun item => item.rrset (ttl item))) =
          grouped.foldlM (applyZoneOps .global) (db, ⟨[], 0, 0⟩) := by
        rw [applyChanges, hops, Fallible.ok_bind]
        split
        · rename_i hempty
          rw [List.isEmpty_iff.1 hempty] at hgrouped
          cases hgrouped
          rfl
        · rw [hgrouped, Fallible.ok_bind]
      have hdeletes : ∀ p ∈ ops, p.isDelete = true := fun p hp => ((mem_convertRequest_deleting hops).1 hp).1
      have hadds : ∀ e ∈ grouped, e.2.adds = [] := fun e he => List.eq_nil_iff_forall_not_mem.2 fun op hop => by
        obtain ⟨p, hp, hadd, -⟩ := (hasOp_groupOpsByZone hgrouped).1 (show HasOp grouped e.1 false op from ⟨e, he, rfl, hop⟩)
        rw [hdeletes p hp] at hadd
        cases hadd
      have hzones : ∀ e ∈ grouped, ∃ st ∈ db.stores, st.zone.name = e.1 := fun e he => by
        obtain ⟨p, hp, hfound⟩ := exists_of_mem_groupOpsByZone hgrouped e he
        obtain ⟨-, st, r, -, -, hfits, hname, -⟩ := (mem_convertRequest_items hbase64 hdb httl hitems hops).1 hp
        rw [hname, findAuthoritativeZone_eq_some_iff (decodeNameLabels_absolute hfits)] at hfound
        exact List.mem_map.1 hfound.mem
      obtain ⟨hiff, hrows⟩ := foldlM_applyZoneOps_deletes (groupOpsByZone_ok (convertRequest_supported hops) hgrouped)
        hadds hdb.ok hzones ⟨[], 0, 0⟩
      have htaken := fun {st : ZoneStore} {r : Record} => @gone_iff_taken _ hbase64 _ hdb _ httl _ hitems _ _ hops
        hgrouped st r
      rw [hrun]
      constructor
      · simp only [hiff, htaken, and_iff_right (⟨ops, rfl⟩ : ∃ ops', Except.ok ops = Except.ok ops')]
      · intro db' resp h
        obtain ⟨hids, hrows⟩ := hrows db' resp h
        refine ⟨hids, fun st' hst' => ?_⟩
        obtain ⟨st, hst, hid, hrec⟩ := hrows st' hst'
        exact ⟨st, hst, hid, fun r => by rw [hrec, htaken]⟩

end Items

omit crates in
theorem Deletable.isClosest {db : Db} {st : ZoneStore} {r : Record} (hst : st ∈ db.stores) (h : Deletable db st r) :
    IsClosest db.zoneNames (r.name.absoluteLabels st.zone.name) st.zone.name where
  mem := List.mem_map_of_mem hst
  suffix := List.suffix_append _ _
  longest z hz hs := by
    obtain ⟨st', hst', rfl⟩ := List.mem_map.1 hz
    exact h.closest st' hst' hs

theorem deletable_of_taken {db : Db} {items : List ExternalDnsRecordItem} {st : ZoneStore} {r : Record}
    (htaken : Taken db items st r) (hfits : r.name.Fits st.zone.name) (hroom : st.zone.serial ≠ i32Max) :
    Deletable db st r where
  closest _ hst' hs := htaken.closest.longest _ (List.mem_map_of_mem hst') hs
  fits := hfits
  room := hroom

theorem taken_iff_not_mem {db db' : Db} (hids : db'.stores.map (·.zone.id) = db.stores.map (·.zone.id)) (hdb : DbOk db)
    {items : List ExternalDnsRecordItem} (hrows : ∀ st' ∈ db'.stores, ∃ st ∈ db.stores, st'.zone.id = st.zone.id ∧
      ∀ r, r ∈ st'.records ↔ r ∈ st.records ∧ ¬ Taken db items st r) {st : ZoneStore} (hst : st ∈ db.stores) {r : Record}
    (hr : r ∈ st.records) :
    (∀ st' ∈ db'.stores, st'.zone.id = st.zone.id → r ∉ st'.records) ↔ Taken db items st r := by
  constructor
  · intro h
    obtain ⟨st', hst', hid⟩ := List.mem_map.1 (hids ▸ List.mem_map_of_mem (f := fun st : ZoneStore => st.zone.id) hst)
    obtain ⟨st₂, hst₂, hid₂, hrec⟩ := hrows st' hst'
    obtain rfl := hdb.eq_of_id_eq hst₂ hst (hid₂.symm.trans hid)
    by_contra hn
    exact h st' hst' hid ((hrec r).2 ⟨hr, hn⟩)
  · intro htaken st' hst' hid hmem
    obtain ⟨st₂, hst₂, hid₂, hrec⟩ := hrows st' hst'
    obtain rfl := hdb.eq_of_id_eq hst₂ hst (hid₂.symm.trans hid)
    exact ((hrec r).1 hmem).2 htaken

/-- **What is listed can be deleted when its zone is the most specific.**  For zones with well-formed rows: deleting the
RRset of one listed row succeeds and takes the row away exactly when no zone below the row's own holds its owner, the
owner fits the zone, and the zone has a serial left; and deleting all that is listed succeeds and leaves no
managed row exactly when this holds of every listed row. -/
theorem listed_deletable_iff (hbase64 : crates.Base64RoundTrip) {db : Db} (hdb : RowsStored db)
    {ttl : ExternalDnsRecordItem → Option ℤ} (httl : ∀ item t, ttl item = some t → 0 ≤ t) :
    (∀ st ∈ db.stores, ∀ r ∈ st.managed,
      (∃ db' resp, applyChanges db .global db.zoneNames
          (deleting [(r.item st.zone.name).rrset (ttl (r.item st.zone.name))]) = .ok (db', resp) ∧
        ∀ st' ∈ db'.stores, st'.zone.id = st.zone.id → r ∉ st'.records) ↔ Deletable db st r) ∧
    ((∃ db' resp, applyChanges db .global db.zoneNames
          (deleting ((listRecords db .global).map fun item => item.rrset (ttl item))) = .ok (db', resp) ∧
        ∀ st' ∈ db'.stores, st'.managed = []) ↔ ∀ st ∈ db.stores, ∀ r ∈ st.managed, Deletable db st r) := by
  have hshown : ∀ {st : ZoneStore} {r : Record}, st ∈ db.stores → r ∈ st.managed → Shown db st r := fun hst hr => by
    obtain ⟨hr, ht⟩ := List.mem_filter.1 hr
    exact ⟨hst, hr, of_decide_eq_true ht⟩
  have hself : ∀ {st : ZoneStore} {r : Record} {items : List ExternalDnsRecordItem}, Shown db st r →
      r.item st.zone.name ∈ items → Deletable db st r → Taken db items st r := fun hs hitem h =>
    ⟨h.isClosest hs.store, _, _, hs, hitem, rfl, rfl, rfl⟩
  constructor
  · intro st hst r hr
    have hs := hshown hst hr
    obtain ⟨hiff, hrows⟩ := @applyChanges_items _ hbase64 db hdb ttl httl [r.item st.zone.name] fun item hitem =>
      ⟨st, r, hs, List.mem_singleton.1 hitem⟩
    constructor
    · rintro ⟨db', resp, h, hgone⟩
      obtain ⟨hfits, hroom⟩ := hiff.1 ⟨_, h⟩
      obtain ⟨hids, hrec⟩ := hrows db' resp h
      have htaken := (taken_iff_not_mem hids hdb.ok hrec hst hs.row).1 hgone
      exact deletable_of_taken htaken (hfits st r hs (by simp)) (hroom st hst ⟨r, hs.row, htaken⟩)
    · intro hdel
      have hsame : ∀ {st₂ : ZoneStore} {r₂ : Record}, r₂.item st₂.zone.name ∈ [r.item st.zone.name] →
          r₂.name.absoluteLabels st₂.zone.name = r.name.absoluteLabels st.zone.name := fun hitem =>
        absoluteLabels_eq_of_item (List.mem_singleton.1 hitem) hdel.fits
      have hroom : ∀ st₂ ∈ db.stores, (∃ r₂ ∈ st₂.records, Taken db [r.item st.zone.name] st₂ r₂) →
          st₂.zone.serial ≠ i32Max := fun st₂ hst₂ ⟨r₂, hr₂, htaken⟩ => by
        obtain ⟨st₃, r₃, -, hitem, habs, -⟩ := htaken.listed
        have hzone := (habs.symm.trans (hsame hitem) ▸ htaken.closest).unique (hdel.isClosest hst)
        exact hdb.ok.eq_of_name_eq hst₂ hst hzone ▸ hdel.room
      have hfits : ∀ st₂ r₂, Shown db st₂ r₂ → r₂.item st₂.zone.name ∈ [r.item st.zone.name] →
          r₂.name.Fits st₂.zone.name := fun st₂ r₂ _ hitem => by
        rw [OwnerName.Fits, hsame hitem]
        exact hdel.fits
      obtain ⟨⟨db', resp⟩, h⟩ := hiff.2 ⟨hfits, hroom⟩
      obtain ⟨hids, hrec⟩ := hrows db' resp h
      exact ⟨db', resp, h, (taken_iff_not_mem hids hdb.ok hrec hst hs.row).2 (hself hs (by simp) hdel)⟩
  · have hlisted : ∀ {st : ZoneStore} {r : Record}, Shown db st r → r.item st.zone.name ∈ listRecords db .global :=
      fun hs => mem_listRecords.2 ⟨_, hs.store, _, hs.row, hs.managed, rfl⟩
    obtain ⟨hiff, hrows⟩ := @applyChanges_items _ hbase64 db hdb ttl httl (listRecords db .global) fun item hitem => by
      obtain ⟨st, hst, r, hr, ht, e⟩ := mem_listRecords.1 hitem
      exact ⟨st, r, ⟨hst, hr, ht⟩, e⟩
    constructor
    · rintro ⟨db', resp, h, hempty⟩ st hst r hr
      have hs := hshown hst hr
      obtain ⟨hfits, hroom⟩ := hiff.1 ⟨_, h⟩
      obtain ⟨hids, hrec⟩ := hrows db' resp h
      have htaken := (taken_iff_not_mem hids hdb.ok hrec hst hs.row).1 fun st' hst' _ hmem =>
        List.eq_nil_iff_forall_not_mem.1 (hempty st' hst') r (List.mem_filter.2 ⟨hmem, decide_eq_true hs.managed⟩)
      exact deletable_of_taken htaken (hfits st r hs (hlisted hs)) (hroom st hst ⟨r, hs.row, htaken⟩)
    · intro hdel
      have hdel' : ∀ {st : ZoneStore} {r : Record}, Shown db st r → Deletable db st r := fun hs =>
        hdel _ hs.store _ (List.mem_filter.2 ⟨hs.row, decide_eq_true hs.managed⟩)
      obtain ⟨⟨db', resp⟩, h⟩ := hiff.2 ⟨fun st r hs _ => (hdel' hs).fits, fun st hst ⟨r, hr, htaken⟩ => by
        obtain ⟨st₂, r₂, hs₂, -, -, htype, -⟩ := htaken.listed
        exact (hdel' (⟨hst, hr, htype ▸ hs₂.managed⟩ : Shown db st r)).room⟩
      obtain ⟨-, hrec⟩ := hrows db' resp h
      refine ⟨db', resp, h, fun st' hst' => List.eq_nil_iff_forall_not_mem.2 fun r hr => ?_⟩
      obtain ⟨hmem, ht⟩ := List.mem_filter.1 hr
      obtain ⟨st, hst, -, hrec⟩ := hrec st' hst'
      obtain ⟨hmem, hn⟩ := (hrec r).1 hmem
      have hs : Shown db st r := ⟨hst, hmem, of_decide_eq_true ht⟩
      exact hn (hself hs (hlisted hs) (hdel' hs))

theorem run_rowsStored (hbase64 : crates.Base64RoundTrip) (htxt : crates.TxtOctets) (hnonempty : crates.TxtNonempty)
    {ops : List Op} (hops : ∀ op ∈ ops, op.WellTyped) : RowsStored (run ops) := by
  refine ⟨run_ok ops, fun st hst => (run_spelled htxt hops st hst).1, fun st hst r hr ht hempty => ?_⟩
  obtain ⟨rdata, hvalue, hne⟩ := (run_txtFilled hnonempty hops st hst).1 r hr ht
  exact hne ((txtIntoEncoded_inj hbase64).1 (hvalue.symm.trans hempty))

end Listing

section Sample

attribute [local instance] sampleCrates

theorem listed_deletable_sampleHistory : ∃ db' resp,
    applyChanges (run sampleHistory) .global (run sampleHistory).zoneNames
      (deleting ((listRecords (run sampleHistory) .global).map fun item => item.rrset none)) =
        .ok (db', resp) ∧ ∀ st' ∈ db'.stores, st'.managed = [] := by
  have htyped : ∀ op ∈ sampleHistory, Op.WellTyped op := by
    simp [sampleHistory, Op.WellTyped, Op.requestedTtls, Op.items, sampleItem]
  have hdel : ∀ st ∈ (run sampleHistory).stores, ∀ r ∈ st.managed,
      (∀ st' ∈ (run sampleHistory).stores,
        st'.zone.name.labels <:+ r.name.absoluteLabels st.zone.name →
          st'.zone.name.labels.length ≤ st.zone.name.labels.length) ∧
        r.name.Fits st.zone.name ∧ st.zone.serial ≠ i32Max := by
    decide +kernel
  refine (@listed_deletable_iff sampleCrates sampleCrates_base64 _
    (@run_rowsStored sampleCrates sampleCrates_base64 sampleCrates_txt sampleCrates_txtNonempty _ htyped) (fun _ => none) (by simp)).2.2 ?_
  intro st hst r hr
  obtain ⟨hclosest, hfits, hroom⟩ := hdel st hst r hr
  exact ⟨hclosest, hfits, hroom⟩

/-- A zone has an address at a name of a zone that is created below it. -/
def glueHistory : List Op :=
  [.createZone .global sampleZone,
    .createRecord .global { sampleItem "ns.dev" "A" "192.0.2.9" with zoneName := lit "example.com" },
    .createZone .global { sampleZone with name := lit "dev.example.com" }]

/-- The address is listed; deleting it, or all that is listed, succeeds and leaves it. -/
theorem listed_glue_stays : RowsStored (run glueHistory) ∧
    ∃ st ∈ (run glueHistory).stores, ∃ r ∈ st.managed,
      r.toRecordData.item st.zone.name ∈
        listRecords (run glueHistory) .global ∧
      ∀ items ∈ [[r.toRecordData.item st.zone.name],
          listRecords (run glueHistory) .global],
        (applyChanges (run glueHistory) .global (run glueHistory).zoneNames
          (deleting (items.map fun item => item.rrset none))).isOk = true ∧
        ∃ st' ∈ (run (glueHistory ++ [.applyChanges .global (run glueHistory).zoneNames
          (deleting (items.map fun item => item.rrset none))])).stores, st'.zone.id = st.zone.id ∧ r ∈ st'.managed := by
  have htyped : ∀ op ∈ glueHistory, Op.WellTyped op := by
    simp [glueHistory, Op.WellTyped, Op.requestedTtls, Op.items, sampleItem]
  refine ⟨@run_rowsStored sampleCrates sampleCrates_base64 sampleCrates_txt sampleCrates_txtNonempty _ htyped, ?_⟩
  decide +kernel

end Sample

end Bindizr
