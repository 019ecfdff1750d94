import Bindizr.RowLimits

/-! # TXT rows

The value of a TXT row is the base64 of its rdata, and the rdata of every row, however it was
written, is a sequence of character-strings in UTF-8 (`IsTxtRdata`): one string cut at 255
octets, the segments of a request or a file, or the rdata of an UPDATE message that
`Txt::from_octets` took apart.  So every TXT row of a reachable zone reads back as rdata
(`run_txtOk`). -/

namespace Bindizr

/-! ### Character-strings -/

/-- The rdata of character-strings. -/
def txtRdata (segments : List Text) : List UInt8 := segments.flatMap characterString

/-- Rdata made of character-strings in UTF-8. -/
def IsTxtRdata (rdata : List UInt8) : Prop :=
  ∃ segments : List Text, (∀ s ∈ segments, byteLen s ≤ 255) ∧ rdata = txtRdata segments

theorem isTxtRdata_cons {s : Text} {rdata : List UInt8} (hs : byteLen s ≤ 255) (h : IsTxtRdata rdata) :
    IsTxtRdata (characterString s ++ rdata) := by
  obtain ⟨segments, hlen, rfl⟩ := h
  exact ⟨s :: segments, List.forall_mem_cons.2 ⟨hs, hlen⟩, rfl⟩

theorem isTxtRdata_nil : IsTxtRdata [] := ⟨[], by simp, rfl⟩

theorem txtFromStringFrom_isTxtRdata {t chunk : Text} (h : byteLen chunk ≤ 255) :
    IsTxtRdata (txtFromStringFrom t chunk) := by
  induction t generalizing chunk with
  | nil =>
      rw [txtFromStringFrom]
      simpa using isTxtRdata_cons h isTxtRdata_nil
  | cons c t ih =>
      have hc := c.utf8Size_le_four
      rw [txtFromStringFrom]
      split
      · exact isTxtRdata_cons h (ih (by simp; omega))
      · exact ih (by simp; omega)

theorem txtSegmentsRdata_isTxtRdata {segments : List Text} {rdata : List UInt8}
    (h : txtSegmentsRdata segments = .ok rdata) : IsTxtRdata rdata := by
  induction segments generalizing rdata with
  | nil =>
      cases h
      exact isTxtRdata_nil
  | cons s segments ih =>
      rw [txtSegmentsRdata] at h
      split at h
      · cases h
      · rename_i hs
        obtain ⟨rest, hrest, h⟩ := Fallible.bind_eq_ok.1 h
        cases h
        exact isTxtRdata_cons (Nat.le_of_not_lt hs) (ih hrest)

theorem txtFromSegments_isTxtRdata {segments : List Text} {rdata : List UInt8}
    (h : txtFromSegments segments = .ok rdata) : IsTxtRdata rdata := by
  obtain ⟨rdata', hrdata, h⟩ := Fallible.bind_eq_ok.1 h
  split at h
  · cases h
  · cases h
    exact txtSegmentsRdata_isTxtRdata hrdata

theorem txtParse_isTxtRdata {value : Text} {rdata : List UInt8} (h : txtParse value = .ok rdata) :
    IsTxtRdata rdata := by
  unfold txtParse at h
  split at h
  · split at h
    · cases h
    · cases h
      exact txtFromStringFrom_isTxtRdata (by simp)
  · obtain ⟨segments, _, h⟩ := Fallible.bind_eq_ok.1 h
    exact txtFromSegments_isTxtRdata h

theorem isValidTxtRdataFrom_append (b rest : List UInt8) :
    isValidTxtRdataFrom b.length (b ++ rest) = isValidTxtRdataFrom 0 rest := by
  induction b with
  | nil => rfl
  | cons x b ih => rw [List.length_cons, List.cons_append, isValidTxtRdataFrom, ih]

theorem isValidTxtRdata_txtRdata {segments : List Text} (h : ∀ s ∈ segments, byteLen s ≤ 255) :
    isValidTxtRdata (txtRdata segments) = true := by
  unfold isValidTxtRdata txtRdata
  induction segments with
  | nil => rfl
  | cons s segments ih =>
      have hs := h s (by simp)
      have hlen : (UInt8.ofNat (byteLen s)).toNat = (asBytes s).length := by
        rw [length_asBytes, UInt8.toNat_ofNat']
        omega
      rw [List.flatMap_cons, characterString, List.cons_append, isValidTxtRdataFrom, hlen,
        isValidTxtRdataFrom_append]
      exact ih fun s hs => h s (by simp [hs])

theorem isTxtRdata_of_chunks {chunks : List (List UInt8)} (hlen : ∀ c ∈ chunks, c.length ≤ 255)
    (hutf8 : ∀ c ∈ chunks, (fromUtf8 c).isSome) :
    IsTxtRdata (chunks.flatMap fun c => UInt8.ofNat c.length :: c) := by
  induction chunks with
  | nil => exact isTxtRdata_nil
  | cons c chunks ih =>
      obtain ⟨t, ht⟩ := Option.isSome_iff_exists.1 (hutf8 c (by simp))
      have hbytes := asBytes_of_fromUtf8 ht
      have hc : c.length = byteLen t := by rw [← hbytes, length_asBytes]
      rw [List.flatMap_cons]
      have e : UInt8.ofNat c.length :: c = characterString t := by rw [characterString, hbytes, hc]
      rw [e]
      refine isTxtRdata_cons (hc ▸ hlen c (by simp)) (ih ?_ ?_)
      · exact fun c hc => hlen c (by simp [hc])
      · exact fun c hc => hutf8 c (by simp [hc])

section Rows

variable [crates : Crates]

/-- A value that holds TXT rdata. -/
def IsTxtValue (value : Text) : Prop := ∃ rdata, value = txtIntoEncoded rdata ∧ IsTxtRdata rdata

/-- A row that holds TXT rdata when it is a TXT row. -/
def TxtOk (r : RecordData) : Prop := r.recordType = .txt → IsTxtValue r.value

theorem encodedValue_txt {value stored : Text} {priority : Option ℤ}
    (h : RecordType.txt.encodedValue value priority = .ok stored) : IsTxtValue stored := by
  obtain ⟨rdata, hrdata, rfl⟩ := Fallible.map_eq_ok.1 h
  exact ⟨rdata, rfl, txtParse_isTxtRdata hrdata⟩

theorem toEncodedValue_txt {request : RecordValueRequest} {stored : Text} {priority : Option ℤ}
    (h : request.toEncodedValue .txt priority = .ok stored) : IsTxtValue stored := by
  cases request with
  | string value =>
      cases h
      exact ⟨_, rfl, txtFromStringFrom_isTxtRdata (by simp)⟩
  | segments ss =>
      obtain ⟨rdata, hrdata, rfl⟩ := Fallible.map_eq_ok.1 h
      exact ⟨rdata, rfl, txtFromSegments_isTxtRdata hrdata⟩

theorem Presents.isTxtRdata (hcrates : crates.TxtOctets) {octets : List UInt8} {t : RecordType} {value : Text}
    {priority : Option ℤ} (h : Presents (.txt octets) t value priority) : IsTxtRdata octets := by
  cases h with
  | txt hchunks hutf8 =>
      obtain ⟨hlen, e⟩ := hcrates _ _ hchunks
      rw [e]
      exact isTxtRdata_of_chunks hlen hutf8

theorem Presents.isTxtValue (hcrates : crates.TxtOctets) {d : Rfc1035.Rdata} {value : Text} {priority : Option ℤ}
    (h : Presents d .txt value priority) : IsTxtValue value := by
  cases h with
  | txt hchunks hutf8 => exact ⟨_, rfl, (Presents.txt hchunks hutf8).isTxtRdata hcrates⟩

theorem mem_encodeValues {t : RecordType} {values stored : List Text} (h : encodeValues t values = .ok stored) :
    ∀ v ∈ stored, ∃ value ∈ values, t.encodedValue value none = .ok v := by
  unfold encodeValues at h
  refine Fallible.foldlM_invariant (I := fun kept => ∀ v ∈ kept, ∃ value ∈ values, t.encodedValue value none = .ok v)
    h (by simp) fun value hvalue kept kept' hkept hstep => ?_
  obtain ⟨encoded, henc, hstep⟩ := Fallible.bind_eq_ok.1 hstep
  have henc := Fallible.mapError_eq_ok.1 henc
  cases hstep
  split
  · exact hkept
  · intro v hv
    rcases List.mem_append.1 hv with hv | hv
    · exact hkept v hv
    · rw [List.mem_singleton.1 hv]
      exact ⟨value, hvalue, henc⟩

theorem convertRrset_values {rrset : ExternalDnsRrset} {op : RrsetOp} (h : convertRrset rrset = .ok op) :
    ∀ v ∈ op.values, ∃ value ∈ rrset.values, op.recordType.encodedValue value none = .ok v := by
  obtain ⟨_, _, h⟩ := Fallible.bind_eq_ok.1 h
  obtain ⟨_, _, h⟩ := Fallible.bind_eq_ok.1 h
  obtain ⟨_, _, h⟩ := Fallible.bind_eq_ok.1 h
  obtain ⟨_, _, h⟩ := Fallible.bind_eq_ok.1 h
  obtain ⟨values, hvalues, h⟩ := Fallible.bind_eq_ok.1 h
  cases h
  exact mem_encodeValues hvalues

/-- What holds of every TXT value that a request, a zone file or a message gives holds of every TXT row, when it holds
of the rows of the zone. -/
theorem Origin.txtWhere {P : Text → Prop}
    (hrequest : ∀ request priority stored, RecordValueRequest.toEncodedValue request .txt priority = .ok stored → P stored)
    (hencoded : ∀ value priority stored, RecordType.txt.encodedValue value priority = .ok stored → P stored)
    (hpresents : ∀ d value priority, Presents d .txt value priority → P value)
    {op : Op} {st : ZoneStore} {zone : Zone} {x : RecordData}
    (h : Origin op st zone x) (htyped : op.WellTyped)
    (hrecords : ∀ r ∈ st.records, r.recordType = .txt → P r.value)
    (hchanges : ∀ c ∈ st.changes, c.record.recordType = .txt → P c.record.value) : x.recordType = .txt → P x.value := by
  intro ht
  cases h with
  | item hitem hp howner =>
      obtain ⟨t, htype, hp⟩ := Fallible.bind_eq_ok.1 hp
      obtain ⟨value, hvalue, hp⟩ := Fallible.bind_eq_ok.1 hp
      cases hp
      simp only [PreparedRecord.toData] at ht
      subst ht
      exact hrequest _ _ _ (Fallible.mapError_eq_ok.1 hvalue)
  | patch e hex hres =>
      rcases (resolvePatch_eq_ok hres).2.2 with ⟨htype, hvalue⟩ | ⟨v, hv⟩
      · exact hvalue ▸ hrecords _ hex (htype ▸ ht)
      · exact hrequest _ _ _ (ht ▸ hv)
  | file e hfile =>
      obtain ⟨r, _, hdata⟩ := List.mem_filterMap.1 hfile
      unfold ParsedRecord.data at hdata
      split at hdata
      · rename_i hvalue _
        cases hdata
        simp only at ht
        exact hrequest _ _ _ (ht ▸ hvalue)
      · cases hdata
  | update e hadd howner hstored =>
      subst e
      obtain ⟨request, message, key, hdecode⟩ := htyped.2
      obtain ⟨rr, _, hrr⟩ := toDynamicUpdate_add hdecode hadd
      obtain ⟨_, _, hvalue, _⟩ := decodeUpdate_add hrr
      simp only at ht
      subst ht
      cases hstored
      obtain ⟨d, _, hd⟩ := rrToRecordValue_presents hvalue
      exact hpresents _ _ _ hd
  | rrset e hpending hp howner hvalue =>
      obtain ⟨rrset, _, hrrset⟩ := mem_convertRequest hpending hp
      obtain ⟨_, _, henc⟩ := convertRrset_values hrrset _ hvalue
      simp only at ht
      exact hencoded _ _ _ (ht ▸ henc)
  | primaryNs hw httl => cases ht
  | soa hw h1 h2 httl =>
      rw [h1] at ht
      cases ht
  | restored e hx =>
      rcases mem_reconstruct hx with hx | ⟨c, hc, rfl⟩
      · obtain ⟨r, hr, rfl⟩ := List.mem_map.1 hx
        exact hrecords r hr ht
      · exact hchanges c hc ht

theorem Origin.txtOk (hcrates : crates.TxtOctets) {op : Op} {st : ZoneStore} {zone : Zone} {x : RecordData}
    (h : Origin op st zone x) (htyped : op.WellTyped) (hrecords : ∀ r ∈ st.records, TxtOk r.toRecordData)
    (hchanges : ∀ c ∈ st.changes, TxtOk c.record) : TxtOk x :=
  h.txtWhere (fun _ _ _ => toEncodedValue_txt) (fun _ _ _ => encodedValue_txt) (fun _ _ _ hd => hd.isTxtValue hcrates)
    htyped hrecords hchanges

/-- Every TXT row of the database, in the tables and in the log, holds TXT rdata. -/
def TxtRowsOk (db : Db) : Prop := RowsWhere TxtOk db

/-- **TXT rows.**  Every TXT row of every reachable zone holds TXT rdata. -/
theorem run_txtOk (hcrates : crates.TxtOctets) {ops : List Op} (hops : ∀ op ∈ ops, op.WellTyped) :
    TxtRowsOk (run ops) := by
  refine run_rowsWhere (C := Op.WellTyped) (fun zone ttl ht => ?_) (fun hC hx hrecords hchanges => ?_) hops
  · cases ht
  · exact hx.txtOk hcrates hC hrecords hchanges

theorem txtFromEncoded_txtIntoEncoded (hbase64 : crates.Base64RoundTrip) {rdata : List UInt8}
    (h : IsTxtRdata rdata) : txtFromEncoded (txtIntoEncoded rdata) = some rdata := by
  obtain ⟨segments, hlen, rfl⟩ := h
  have hprefix : stripPrefix rawTxtRdataPrefix (txtIntoEncoded (txtRdata segments)) =
      some (crates.base64Encode (txtRdata segments)) := rfl
  simp [txtFromEncoded, hprefix, hbase64 _, isValidTxtRdata_txtRdata hlen]

end Rows

end Bindizr
