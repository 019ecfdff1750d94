import Bindizr.Reads
import Bindizr.Rollback
import Bindizr.Spelling
import Bindizr.TxtForms

/-! # Writing back what was read

`GetRecordResponse::from_record_and_zone_name` of `bindizr-service/src/types/record.rs` shows a row: its
owner as an absolute name, its value in the form in which it can be sent, its TTL and its
priority.  Sending these fields as a full update of the same record always succeeds and leaves
the resource record as it was (`write_back`).  The owner is read back because it fits the zone; a
value that was encoded is shown as it is and is its own encoding; the bare name in the apex NS row
of `primary_ns` gets its final dot, which its canonical form has anyway; and the
character-strings of a TXT row are shown one by one, or as one string that fits one. -/

namespace Bindizr

section WriteBack

variable [crates : Crates]

/-! ### The response -/

structure GetRecordResponse where
  id : ℕ
  name : Text
  recordType : Text
  value : RecordValueRequest
  ttl : ℤ
  priority : Option ℤ
  zoneId : ℕ
  zoneName : Option Text

def GetRecordResponse.fromRecordWithZone (r : RecordWithZone) : GetRecordResponse where
  id := r.record.id
  name := r.record.name.toFqdn r.zoneName
  recordType := r.record.recordType.asStr
  value := displayRecordValueRequest r.record.value r.record.recordType
  ttl := r.record.ttl
  priority := r.record.priority
  zoneId := r.zoneId
  zoneName := some r.zoneName.toFqdn

/-- The fields of a response as the body of an update. -/
def GetRecordResponse.toItem (r : GetRecordResponse) : RecordItem :=
  ⟨r.name, r.recordType, r.value, some r.ttl, r.priority⟩

/-! ### Values -/

omit crates in
theorem txtFromStringFrom_of_le {t chunk : Text} (h : byteLen (chunk ++ t) ≤ 255) :
    txtFromStringFrom t chunk = characterString (chunk ++ t) := by
  induction t generalizing chunk with
  | nil => rw [txtFromStringFrom, List.append_nil]
  | cons c t ih =>
      have hsum : byteLen (chunk ++ c :: t) = byteLen chunk + (c.utf8Size + byteLen t) := by simp
      rw [txtFromStringFrom, if_neg (by omega), ih (by simpa using h), List.append_assoc, List.singleton_append]

theorem toEncodedValue_displayed_txt (hbase64 : crates.Base64RoundTrip) {rdata : List UInt8} (h : IsTxtRdata rdata)
    (hne : rdata ≠ []) (p : Option ℤ) :
    (displayRecordValueRequest (txtIntoEncoded rdata) .txt).toEncodedValue .txt p = .ok (txtIntoEncoded rdata) := by
  rw [displayRecordValueRequest, if_pos rfl, txtFromEncoded_txtIntoEncoded hbase64 h, Option.bind_some, txtToContent,
    if_neg hne]
  obtain ⟨segments, hlen, rfl⟩ := h
  rw [txtChunks_txtRdata hlen, show (segments.map asBytes).mapM fromUtf8 = some segments from mapM_fromUtf8.2 rfl]
  match segments with
  | [] => exact absurd rfl hne
  | [s] =>
      have hone : txtFromString s = txtRdata [s] := by
        rw [txtFromString, txtFromStringFrom_of_le (by simpa using hlen s (by simp)), List.nil_append]
        exact (List.flatMap_singleton _ _).symm
      simp only [RecordValueRequest.toEncodedValue, hone]
  | s :: t :: segments =>
      have hmany : txtFromSegments (s :: t :: segments) = .ok (txtRdata (s :: t :: segments)) := by
        rw [txtFromSegments, txtSegmentsRdata_eq_ok hlen]
        rfl
      simp only [RecordValueRequest.toEncodedValue, hmany]
      rfl

theorem toEncodedValue_displayed (hbase64 : crates.Base64RoundTrip) {r : RecordData} (hrow : RowOk r) (hspelled : Spelled r)
    (hfilled : r.recordType = .txt → IsFilledTxt r.value) :
    ∃ e, (displayRecordValueRequest r.value r.recordType).toEncodedValue r.recordType r.priority = .ok e ∧
      r.recordType.validateValue e r.priority = .ok () ∧
      r.recordType.canonicalValue e r.priority = r.recordType.canonicalValue r.value r.priority ∧
      (r.recordType = .txt → e = r.value) := by
  have hvalue := hrow.value
  have hencode : r.recordType ≠ .txt → (displayRecordValueRequest r.value r.recordType).toEncodedValue r.recordType
      r.priority = r.recordType.encodedValue (r.recordType.displayValue r.value) r.priority := fun htxt => by
    rw [displayRecordValueRequest, if_neg htxt]
    cases ht : r.recordType with
    | txt => exact absurd ht htxt
    | _ => rfl
  cases hspelled with
  | txt htxt hv =>
      obtain ⟨rdata, hrdata, hok⟩ := hv
      obtain ⟨rdata', hrdata', hne⟩ := hfilled htxt
      obtain rfl := (txtIntoEncoded_inj hbase64).1 (hrdata.symm.trans hrdata')
      refine ⟨r.value, ?_, hvalue, rfl, fun _ => rfl⟩
      rw [htxt, hrdata, toEncodedValue_displayed_txt hbase64 hok hne]
  | soa hsoa => exact absurd hsoa hrow.notSoa
  | encoded hs =>
      have htxt : r.recordType ≠ .txt := fun ht => by
        rw [ht] at hs
        cases hs
      have hself := hs.encodedValue_eq hvalue
      refine ⟨r.value, ?_, hvalue, rfl, fun _ => rfl⟩
      rw [hencode htxt, (encodedValue_stored htxt hrow.notSoa hself).1.shown, hself]
  | primaryNs name hns hname =>
      have htxt : r.recordType ≠ .txt := by simp [hns]
      rw [hns] at hvalue
      obtain ⟨hnone, hvalid⟩ := validateValue_ns hvalue
      have hstored : Stored .ns r.priority (toFqdnLowercase r.value) :=
        stored_host (fun _ _ => rfl) (fun v p hp => by rw [RecordType.validateValue, hp]; rfl) (fun _ => rfl) hvalid _
      refine ⟨toFqdnLowercase r.value, ?_, ?_, ?_, fun ht => absurd ht htxt⟩
      · rw [hencode htxt, hns]
        exact hstored.again
      · rw [hns]
        exact hstored.valid (by simp [hnone])
      · rw [hns]
        exact (IsTarget.stored (.inr ⟨_, hvalid⟩)).2

/-! ### The update -/

/-- A row that stands for the same resource record as another, under its id; TXT rows hold the same octets. -/
structure SameRecord (r r' : Record) : Prop where
  id : r'.id = r.id
  name : r'.name = r.name
  recordType : r'.recordType = r.recordType
  ttl : r'.ttl = r.ttl
  priority : r'.priority = r.priority
  rdata : r'.canonical = r.canonical
  octets : r.recordType = .txt → r'.value = r.value

theorem resolveItem_response {st : ZoneStore} {r : Record} (hfits : r.name.Fits st.zone.name) {e : Text}
    (he : (displayRecordValueRequest r.value r.recordType).toEncodedValue r.recordType r.priority = .ok e) :
    resolveItem (GetRecordResponse.fromRecordWithZone ⟨r, st.zone.id, st.zone.name⟩).toItem st.zone r =
      .ok ⟨r.name, r.recordType, e, r.ttl, r.priority⟩ := by
  have howner : normalizeRecordOwnerName (r.name.toFqdn st.zone.name) st.zone.name = .ok r.name := by
    rw [normalizeRecordOwnerName, OwnerName.parseInZone_toFqdn hfits]
    rfl
  simp only [resolveItem, prepareRecord, GetRecordResponse.toItem, GetRecordResponse.fromRecordWithZone,
    parseRecordType_asStr, Fallible.ok_bind, he, Except.mapError, pure, Except.pure, howner]
  rfl

omit crates in
/-- A row of the same resource record passes the checks of an update. -/
theorem validateRecordUpdateConstraints_same {tx : Tx} (hok : TxOk tx) {r r' : Record} (hr : r ∈ tx.store.records)
    (hrow : RowOk r'.toRecordData) (hrr : r'.toRecordData.rr = r.toRecordData.rr) (owner : OwnerName) :
    validateRecordUpdateConstraints tx.store.zone (tx.recordsByName owner) r r' = .ok () := by
  obtain ⟨hrows, hpair⟩ := acceptable_coe.1 hok.store.rows
  have hrow₀ := hrows r.toRecordData (List.mem_map_of_mem hr)
  have hcomp : ∀ s ∈ tx.store.records, s.id ≠ r.id → Compatible s.toRecordData r'.toRecordData := fun s hs hid => by
    rw [compatible_comm, hrow.compatible_congr hrow₀ hrr]
    have : Std.Symm fun a b : Record => Compatible a.toRecordData b.toRecordData := ⟨fun _ _ => compatible_comm.1⟩
    exact (List.pairwise_map.1 hpair).forall hr hs fun e => hid (by rw [e])
  have hadd : validateRecordAddConstraints (tx.recordsByName owner) r'.toRecordData (some r.id) = .ok () :=
    validateRecordAddConstraints_eq_ok.2 ⟨hrow, fun s hs hid =>
      hcomp s (List.mem_of_mem_filter hs) fun e => hid (by rw [e])⟩
  rw [validateRecordUpdateConstraints, if_neg hrow.notSoa, hadd, Fallible.ok_bind,
    isPrimaryNs_congr hrow hrow₀ hrr tx.store.zone, if_neg (by simp)]

/-- **Writing back what was read changes nothing.**  For every row of every reachable zone whose serial can still
advance, the fields of its response as a full update of the record are accepted, when its owner fits the zone's name,
and leave the same resource record in its place. -/
theorem write_back (hbase64 : crates.Base64RoundTrip) (htxt : crates.TxtOctets) (hnonempty : crates.TxtNonempty)
    (ops : List Op) (hops : ∀ op ∈ ops, op.WellTyped) (st : ZoneStore) (hst : st ∈ (run ops).stores)
    (hmax : st.zone.serial < i32Max) (r : Record) (hr : r ∈ st.records) (hfits : r.name.Fits st.zone.name) :
    ∃ db' r', updateById (run ops) .global r.id (some st.zone.id)
        (GetRecordResponse.fromRecordWithZone ⟨r, st.zone.id, st.zone.name⟩).toItem = .ok (db', r') ∧
      SameRecord r r' ∧ ∃ st' ∈ db'.stores, st'.zone.id = st.zone.id ∧
        st'.records = st.records.map fun s => if s.id = r.id then r' else s := by
  have hdb := run_ok ops
  have hok := hdb.txOk hst
  have hrow := (acceptable_coe.1 hok.store.rows).1 r.toRecordData (List.mem_map_of_mem hr)
  obtain ⟨e, he, hvalid, hcanon, hsame⟩ := toEncodedValue_displayed hbase64 hrow ((run_spelled htxt hops st hst).1 r hr)
    ((run_txtFilled hnonempty hops st hst).1 r hr)
  let r' : Record := { r with value := e }
  have hrow' : RowOk r'.toRecordData := ⟨hrow.notSoa, hrow.cnameBelowApex, hrow.nsAtApex, hvalid⟩
  have hrr : r'.toRecordData.rr = r.toRecordData.rr := by
    simp only [RecordData.rr, RecordData.canonical, r', hcanon]
  have hload : loadRecord .global r.id ((run ops).beginTx st) = .ok r := by
    have hfind : st.records.find? (·.id == r.id) = some r := by
      cases hf : st.records.find? (·.id == r.id) with
      | none => exact absurd (List.find?_eq_none.1 hf r hr) (by simp)
      | some s =>
          have hs := List.find?_some hf
          rw [eq_of_id_eq hok.ids.nodup (List.mem_of_find?_eq_some hf) hr (by simpa using hs)]
    rw [loadRecord, show ((run ops).beginTx st).store.records = st.records from rfl, hfind]
    rfl
  obtain ⟨tx', hadv⟩ : ∃ tx', ((((run ops).beginTx st).updateRecord r').createZoneChanges
      (Tx.zoneChangesFor (st.zone.serial + 1) .del [r.toRecordData] ++
        Tx.zoneChangesFor (st.zone.serial + 1) .add [r'.toRecordData])).advanceSerial st.zone (st.zone.serial + 1) =
      .ok tx' := hok.store.email.saveSnapshot _ _
  have htx : updateLockedTx .global (run ops).tokenPolicies r.id (resolveItem
      (GetRecordResponse.fromRecordWithZone ⟨r, st.zone.id, st.zone.name⟩).toItem) ((run ops).beginTx st) = .ok (tx', r') := by
    have hval := validateRecordUpdateConstraints_same hok hr hrow' hrr r.name
    refine Fallible.bind_eq_ok.2 ⟨r, hload, Fallible.bind_eq_ok.2 ⟨_, resolveItem_response hfits he,
      Fallible.bind_eq_ok.2 ⟨(), rfl, Fallible.bind_eq_ok.2 ⟨(), hval, Fallible.bind_eq_ok.2
        ⟨st.zone.serial + 1, generateSerial_eq_ok.2 ⟨hmax.ne, rfl⟩, Fallible.bind_eq_ok.2 ⟨tx', hadv, rfl⟩⟩⟩⟩⟩⟩
  obtain ⟨hid, hrecords⟩ : tx'.store.zone.id = st.zone.id ∧
      tx'.store.records = st.records.map fun s => if s.id = r.id then r' else s := by
    obtain ⟨m, -, hadv⟩ := Fallible.bind_eq_ok.1 hadv
    cases hadv
    exact ⟨rfl, rfl⟩
  refine ⟨(run ops).commit tx', r', ?_, ⟨rfl, rfl, rfl, rfl, rfl, hcanon, hsame⟩, tx'.store,
    (mem_commit hst hid).2 (.inl rfl), hid, hrecords⟩
  rw [updateById, inRecordZone, hdb.getZoneById_eq hst]
  exact Fallible.bind_eq_ok.2 ⟨(tx', r'), htx, rfl⟩

end WriteBack

/-- The rows of the sample zone, the one for `primary_ns` among them, are written back. -/
theorem write_back_sampleHistory : ∃ st ∈ (@run sampleCrates sampleHistory).stores, ∃ r ∈ st.records,
    r.recordType = .ns ∧ ∃ db' r', @updateById sampleCrates (@run sampleCrates sampleHistory) .global r.id (some st.zone.id)
        (@GetRecordResponse.fromRecordWithZone sampleCrates ⟨r, st.zone.id, st.zone.name⟩).toItem = .ok (db', r') ∧
      SameRecord r r' := by
  have htyped : ∀ op ∈ sampleHistory, @Op.WellTyped sampleCrates op := by
    simp [sampleHistory, Op.WellTyped, Op.requestedTtls, Op.items, sampleItem]
  obtain ⟨st, hst, hmax, r, hr, hfits, hns⟩ : ∃ st ∈ (@run sampleCrates sampleHistory).stores, st.zone.serial < i32Max ∧
      ∃ r ∈ st.records, r.name.Fits st.zone.name ∧ r.recordType = .ns := by
    decide +kernel
  obtain ⟨db', r', h, hsame, -⟩ := @write_back sampleCrates sampleCrates_base64 sampleCrates_txt sampleCrates_txtNonempty
    sampleHistory htyped st hst hmax r hr hfits
  exact ⟨st, hst, r, hr, hns, db', r', h, hsame⟩

end Bindizr
