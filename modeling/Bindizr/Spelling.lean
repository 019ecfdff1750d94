import Bindizr.Values

/-! # One spelling for each rdata

Every write path encodes a value before it is stored, so that one rdata has one spelling
(`Spelling`).  One path does not: the apex NS row that a zone's creation or update writes for
its `primary_ns` holds the bare name, without the final dot (`Spelled`).  In every reachable
zone these are the only rows that are not their own encoding (`rows_spelled`). -/

namespace Bindizr

open Rfc1035 (Name Rdata)

/-! ### Spellings -/

structure IsStoredTarget (x : Text) : Prop where
  target : IsTarget x
  stored : toFqdnLowercase x = x

/-- The values encoding gives, by type; SOA and TXT have their own forms. -/
inductive Spelling : RecordType → Text → Prop
  | a (addr : Ipv4Addr) : Spelling .a (ipv4Text addr)
  | aaaa (addr : Ipv6Addr) : Spelling .aaaa (ipv6Text addr)
  | cname {x : Text} : IsStoredTarget x → Spelling .cname x
  | ns {x : Text} : IsStoredTarget x → Spelling .ns x
  | ptr {x : Text} : IsStoredTarget x → Spelling .ptr x
  | mx {x : Text} : IsStoredTarget x → Spelling .mx x
  | srv (weight port : ℕ) {x : Text} : IsStoredTarget x →
      Spelling .srv (natText weight ++ [' '] ++ natText port ++ [' '] ++ x)

theorem IsTarget.isStoredTarget {x : Text} (h : IsTarget x) : IsStoredTarget (toFqdnLowercase x) :=
  ⟨h.stored.1, h.stored.2⟩

theorem IsStoredTarget.splitWhitespace {x : Text} (h : IsStoredTarget x) : splitWhitespace x = [x] :=
  splitWhitespace_eq_singleton h.target.ne_nil h.target.not_isWhitespace

section Encoding

variable [crates : Crates]

theorem encodedValue_spelling {t : RecordType} (htxt : t ≠ .txt) (hsoa : t ≠ .soa) {v e : Text} {p : Option ℤ}
    (h : t.encodedValue v p = .ok e) : Spelling t e := by
  have hhost : ∀ {field : Text}, (parseHost field (trim v)).map toFqdnLowercase = .ok e → IsStoredTarget e := by
    intro field h
    obtain ⟨htarget, rfl⟩ := isTarget_of_parseHost h
    exact htarget.isStoredTarget
  cases t with
  | a =>
      obtain ⟨addr, -, rfl⟩ := Fallible.map_eq_ok.1 h
      exact .a addr
  | aaaa =>
      obtain ⟨addr, -, rfl⟩ := Fallible.map_eq_ok.1 h
      exact .aaaa addr
  | cname => exact .cname (hhost h)
  | ns => exact .ns (hhost h)
  | ptr => exact .ptr (hhost h)
  | mx =>
      obtain ⟨mx, hmx, h⟩ := Fallible.bind_eq_ok.1 h
      obtain ⟨_, hvalid, h⟩ := Fallible.bind_eq_ok.1 h
      cases h
      exact .mx (isTarget_mx hmx hvalid).isStoredTarget
  | srv =>
      obtain ⟨srv, hsrv, h⟩ := Fallible.bind_eq_ok.1 h
      obtain ⟨_, hvalid, h⟩ := Fallible.bind_eq_ok.1 h
      cases h
      exact .srv _ _ (isTarget_srv hsrv hvalid).isStoredTarget
  | txt => exact absurd rfl htxt
  | soa => exact absurd rfl hsoa

theorem Spelling.encodedValue_eq {t : RecordType} {e : Text} (h : Spelling t e) {p : Option ℤ}
    (hv : t.validateValue e p = .ok ()) : t.encodedValue e p = .ok e := by
  have hpriority : (p.isSome && !t.takesPriority) = false := by
    unfold RecordType.validateValue at hv
    split at hv
    · cases hv
    · rename_i hp
      rwa [Bool.not_eq_true] at hp
  have hhost : ∀ {field x : Text}, IsStoredTarget x → (parseHost field x).map (fun _ => ()) = .ok () →
      (parseHost field (trim x)).map toFqdnLowercase = .ok x := by
    intro field x hx hv
    obtain ⟨y, hparse, -⟩ := Fallible.map_eq_ok.1 hv
    obtain ⟨_, hvalid, hparse'⟩ := Fallible.bind_eq_ok.1 hparse
    cases hparse'
    rw [trim_eq_self hx.target.not_isWhitespace, hparse, Except.map, hx.stored]
  cases h with
  | a addr => exact (stored_a addr p).again
  | aaaa addr => exact (stored_aaaa addr p).again
  | cname hx =>
      rw [RecordType.validateValue, hpriority] at hv
      exact hhost hx hv
  | ns hx =>
      rw [RecordType.validateValue, hpriority] at hv
      exact hhost hx hv
  | ptr hx =>
      rw [RecordType.validateValue, hpriority] at hv
      exact hhost hx hv
  | mx hx =>
      obtain ⟨mx, hmx, hvalid⟩ := validateValue_mx hv
      have e : mx.target = e := by simpa [hx.splitWhitespace, eq_comm] using (MxRecordValue.parse_eq_ok.1 hmx).1
      rw [RecordType.encodedValue, trim_eq_self hx.target.not_isWhitespace, hmx, Fallible.ok_bind, hvalid,
        Fallible.ok_bind, MxRecordValue.encoded, e, hx.stored]
      rfl
  | @srv weight port x hx =>
      obtain ⟨srv, hsrv, hvalid⟩ := validateValue_srv hv
      obtain ⟨hw, ho, ht, -, -⟩ := SrvRecordValue.parse_encoded hsrv
      rw [trim_eq_self hx.target.not_isWhitespace] at ht
      have hsrv' : SrvRecordValue.parse (trim (natText weight ++ [' '] ++ natText port ++ [' '] ++ x)) p = .ok srv := by
        rw [SrvRecordValue.parse_eq_ok] at hsrv ⊢
        rwa [splitWhitespace_trim]
      rw [RecordType.encodedValue, hsrv', Fallible.ok_bind, hvalid, Fallible.ok_bind, SrvRecordValue.encoded, hw, ho, ht,
        hx.stored]
      rfl

theorem Spelling.eq_of_served (hcrates : crates.Rfc1035Wire) {x y : RecordData} (ht : x.recordType = y.recordType)
    (hx : Spelling x.recordType x.value) (hy : Spelling y.recordType y.value) {d d' : Rdata} (hd : x.served = some d)
    (hd' : y.served = some d') (e : d.lower = d'.lower) : x.value = y.value := by
  -- the types whose rdata ends in a name
  have htarget : ∀ {s t : Text} {n m : Name}, IsStoredTarget s → IsStoredTarget t → parseName s = .ok n →
      parseName t = .ok m → n.lower = m.lower → s = t := by
    intro s t n m hs ht hn hm e
    obtain ⟨n', hn', hnl⟩ := exists_parseName_target hcrates hs.target
    obtain ⟨m', hm', hml⟩ := exists_parseName_target hcrates ht.target
    rw [hn] at hn'
    rw [hm] at hm'
    cases hn'
    cases hm'
    rw [← hs.stored, ← ht.stored, hs.target.canonical_eq_iff ht.target hnl hml, e]
  unfold RecordData.served at hd hd'
  rw [← ht] at hy hd'
  generalize x.recordType = t at hx hy hd hd'
  generalize x.value = v at hx hd
  generalize y.value = w at hy hd'
  cases hx with
  | a addr =>
      cases hy with
      | a addr' =>
          simp only [parseIpv4_ipv4Text, Option.map_some, Option.some.injEq] at hd hd'
          subst hd hd'
          rw [Rdata.a.inj e]
  | aaaa addr =>
      cases hy with
      | aaaa addr' =>
          simp only [parseIpv6_ipv6Text, Option.map_some, Option.some.injEq] at hd hd'
          subst hd hd'
          rw [Rdata.aaaa.inj e]
  | cname hx =>
      cases hy with
      | cname hy =>
          obtain ⟨n, hn, rfl⟩ := Option.map_eq_some_iff.1 hd
          obtain ⟨m, hm, rfl⟩ := Option.map_eq_some_iff.1 hd'
          exact htarget hx hy (toOption_eq_some.1 hn) (toOption_eq_some.1 hm) (Rdata.cname.inj e)
  | ns hx =>
      cases hy with
      | ns hy =>
          obtain ⟨n, hn, rfl⟩ := Option.map_eq_some_iff.1 hd
          obtain ⟨m, hm, rfl⟩ := Option.map_eq_some_iff.1 hd'
          exact htarget hx hy (toOption_eq_some.1 hn) (toOption_eq_some.1 hm) (Rdata.ns.inj e)
  | ptr hx =>
      cases hy with
      | ptr hy =>
          obtain ⟨n, hn, rfl⟩ := Option.map_eq_some_iff.1 hd
          obtain ⟨m, hm, rfl⟩ := Option.map_eq_some_iff.1 hd'
          exact htarget hx hy (toOption_eq_some.1 hn) (toOption_eq_some.1 hm) (Rdata.ptr.inj e)
  | mx hx =>
      cases hy with
      | mx hy =>
          obtain ⟨mx, hmx, hd⟩ := Option.bind_eq_some_iff.1 hd
          obtain ⟨mx', hmx', hd'⟩ := Option.bind_eq_some_iff.1 hd'
          obtain ⟨n, hn, rfl⟩ := Option.map_eq_some_iff.1 hd
          obtain ⟨m, hm, rfl⟩ := Option.map_eq_some_iff.1 hd'
          have h1 := (MxRecordValue.parse_eq_ok.1 (toOption_eq_some.1 hmx)).1
          have h2 := (MxRecordValue.parse_eq_ok.1 (toOption_eq_some.1 hmx')).1
          rw [hx.splitWhitespace, List.cons.injEq] at h1
          rw [hy.splitWhitespace, List.cons.injEq] at h2
          rw [← h1.1] at hn
          rw [← h2.1] at hm
          exact htarget hx hy (toOption_eq_some.1 hn) (toOption_eq_some.1 hm) (Rdata.mx.inj e).2
  | srv weight port hx =>
      cases hy with
      | srv weight' port' hy =>
          obtain ⟨srv, hsrv, hd⟩ := Option.bind_eq_some_iff.1 hd
          obtain ⟨srv', hsrv', hd'⟩ := Option.bind_eq_some_iff.1 hd'
          obtain ⟨n, hn, rfl⟩ := Option.map_eq_some_iff.1 hd
          obtain ⟨m, hm, rfl⟩ := Option.map_eq_some_iff.1 hd'
          obtain ⟨rfl, rfl, h1, -⟩ := SrvRecordValue.parse_encoded (toOption_eq_some.1 hsrv)
          obtain ⟨rfl, rfl, h2, -⟩ := SrvRecordValue.parse_encoded (toOption_eq_some.1 hsrv')
          rw [h1, trim_eq_self hx.target.not_isWhitespace] at hn
          rw [h2, trim_eq_self hy.target.not_isWhitespace] at hm
          obtain ⟨-, hw, ho, hnames⟩ := Rdata.srv.inj e
          rw [hw, ho, htarget hx hy (toOption_eq_some.1 hn) (toOption_eq_some.1 hm) hnames]

/-! ### Rows -/

/-- How the value column of a row, or of a row of the log, was written. -/
inductive Spelled (x : RecordData) : Prop
  | txt : x.recordType = .txt → IsTxtValue x.value → Spelled x
  | soa : x.recordType = .soa → Spelled x
  | encoded : Spelling x.recordType x.value → Spelled x
  | primaryNs (name : ZoneName) : x.recordType = .ns → x.value = name.text → Spelled x

theorem Spelled.txtOk {x : RecordData} (h : Spelled x) : TxtOk x := by
  intro ht
  cases h with
  | txt _ hv => exact hv
  | soa hs => simp [hs] at ht
  | encoded hs =>
      rw [ht] at hs
      cases hs
  | primaryNs name hs => simp [hs] at ht

theorem spelled_of_encodedValue {x : RecordData} (htxt : x.recordType ≠ .txt) {v : Text} {p : Option ℤ}
    (h : x.recordType.encodedValue v p = .ok x.value) : Spelled x := by
  by_cases hsoa : x.recordType = .soa
  · exact .soa hsoa
  · exact .encoded (encodedValue_spelling htxt hsoa h)

theorem spelled_of_toEncodedValue {x : RecordData} (htxt : x.recordType ≠ .txt) {request : RecordValueRequest}
    {p : Option ℤ} (h : request.toEncodedValue x.recordType p = .ok x.value) : Spelled x := by
  unfold RecordValueRequest.toEncodedValue at h
  split at h
  · exact absurd ‹_› htxt
  · exact absurd ‹_› htxt
  · exact spelled_of_encodedValue htxt h
  · cases h

theorem Origin.spelled (hcrates : crates.TxtOctets) {op : Op} {st : ZoneStore} {zone : Zone} {x : RecordData}
    (h : Origin op st zone x) (htyped : op.WellTyped) (hrecords : ∀ r ∈ st.records, Spelled r.toRecordData)
    (hchanges : ∀ c ∈ st.changes, Spelled c.record) : Spelled x := by
  by_cases ht : x.recordType = .txt
  · exact .txt ht (h.txtOk hcrates htyped (fun r hr => (hrecords r hr).txtOk) (fun c hc => (hchanges c hc).txtOk) ht)
  cases h with
  | item hitem hp howner =>
      obtain ⟨t, htype, hp⟩ := Fallible.bind_eq_ok.1 hp
      obtain ⟨value, hvalue, hp⟩ := Fallible.bind_eq_ok.1 hp
      cases hp
      exact spelled_of_toEncodedValue ht (Fallible.mapError_eq_ok.1 hvalue)
  | @patch _ _ _ _ existing x e hex hres =>
      rcases (resolvePatch_eq_ok hres).2.2 with ⟨htype, hvalue⟩ | ⟨v, hv⟩
      · -- the value is kept, whatever the priority becomes
        cases hrecords existing hex with
        | txt h _ => exact absurd (htype.trans h) ht
        | soa h => exact .soa (htype.trans h)
        | encoded h => exact .encoded (htype ▸ hvalue ▸ h)
        | primaryNs name h hname => exact .primaryNs name (htype.trans h) (hvalue.trans hname)
      · exact spelled_of_toEncodedValue ht hv
  | file e hfile =>
      obtain ⟨r, _, hdata⟩ := List.mem_filterMap.1 hfile
      unfold ParsedRecord.data at hdata
      split at hdata
      · rename_i hvalue _
        cases hdata
        exact spelled_of_toEncodedValue ht hvalue
      · cases hdata
  | update e hadd howner hstored =>
      unfold updateValue at hstored
      rw [if_neg ht] at hstored
      exact spelled_of_encodedValue ht (Fallible.mapError_eq_ok.1 hstored)
  | rrset e hpending hp howner hvalue =>
      obtain ⟨rrset, _, hrrset⟩ := mem_convertRequest hpending hp
      obtain ⟨_, _, henc⟩ := convertRrset_values hrrset _ hvalue
      exact spelled_of_encodedValue ht henc
  | primaryNs hw httl => exact .primaryNs zone.primaryNs rfl rfl
  | soa hw h1 h2 httl => exact .soa h1
  | restored e hx =>
      rcases mem_reconstruct hx with hx | ⟨c, hc, rfl⟩
      · obtain ⟨r, hr, rfl⟩ := List.mem_map.1 hx
        exact hrecords r hr
      · exact hchanges c hc

theorem run_spelled (htxt : crates.TxtOctets) {ops : List Op} (hops : ∀ op ∈ ops, op.WellTyped) :
    RowsWhere Spelled (run ops) :=
  run_rowsWhere (C := Op.WellTyped) (fun zone _ => .primaryNs zone.primaryNs rfl rfl)
    (fun hC hx hrecords hchanges => hx.spelled htxt hC hrecords hchanges) hops

omit crates in
theorem ZoneName.toFqdnLowercase_text (z : ZoneName) : toFqdnLowercase z.text = z.text ++ ['.'] := by
  rw [← toAsciiLowercase_toFqdn z.trim_text, ← ZoneName.toFqdn, z.toFqdn_eq, toAsciiLowercase_append,
    z.toAsciiLowercase_text]
  rfl

omit crates in
theorem ZoneName.isTarget_text (z : ZoneName) : IsTarget z.text :=
  .inr ⟨[], z.validateDomainRecordValue_text []⟩

/-- Whether a row is an NS row that lacks the final dot. -/
def RecordData.isBareNs (x : RecordData) : Bool := x.recordType == .ns && x.value.getLast? != some '.'

omit crates in
theorem IsStoredTarget.getLast? {x : Text} (h : IsStoredTarget x) : x.getLast? = some '.' := by
  rw [← h.stored, toFqdnLowercase]
  simp

omit crates in
theorem Spelling.isBareNs {x : RecordData} (h : Spelling x.recordType x.value) : x.isBareNs = false := by
  unfold RecordData.isBareNs
  generalize x.recordType = t at h
  generalize x.value = v at h
  cases h with
  | ns hx => simp [hx.getLast?]
  | _ => rfl

omit crates in
theorem isBareNs_primaryNs {x : RecordData} {name : ZoneName} (ht : x.recordType = .ns) (hv : x.value = name.text) :
    x.isBareNs = true := by
  simp [RecordData.isBareNs, ht, hv, name.getLast?_text]

theorem Spelled.encodedValue_iff {x : RecordData} (h : Spelled x) (hok : RowOk x) (htxt : x.recordType ≠ .txt) :
    x.recordType.encodedValue x.value x.priority = .ok x.value ↔ x.isBareNs = false := by
  cases h with
  | txt ht => exact absurd ht htxt
  | soa ht => exact absurd ht hok.notSoa
  | encoded h => exact iff_of_true (h.encodedValue_eq hok.value) h.isBareNs
  | primaryNs name ht hv =>
      refine iff_of_false (fun henc => ?_) (by simp [isBareNs_primaryNs ht hv])
      rw [ht] at henc
      obtain ⟨-, e⟩ := isTarget_of_parseHost henc
      rw [hv, name.trim_text, name.toFqdnLowercase_text] at e
      simpa using congrArg List.length e

theorem Spelled.value_eq_iff (hcrates : crates.Rfc1035Wire) (hbase64 : crates.Base64RoundTrip) {x y : RecordData}
    (hx : Spelled x) (hy : Spelled y) (ht : x.recordType = y.recordType) {d d' : Rdata} (hd : x.served = some d)
    (hd' : y.served = some d') (e : d.lower = d'.lower) : x.value = y.value ↔ x.isBareNs = y.isBareNs := by
  refine ⟨fun h => by rw [RecordData.isBareNs, RecordData.isBareNs, ht, h], fun hbare => ?_⟩
  by_cases htxt : x.recordType = .txt
  · obtain ⟨rdata, hrdata, hok⟩ := hx.txtOk htxt
    obtain ⟨rdata', hrdata', hok'⟩ := hy.txtOk (ht ▸ htxt)
    obtain ⟨rfl, -⟩ := (served_txt hcrates hbase64 htxt hrdata hok).1 hd
    obtain ⟨rfl, -⟩ := (served_txt hcrates hbase64 (ht ▸ htxt) hrdata' hok').1 hd'
    rw [hrdata, hrdata', Rdata.txt.inj e]
  have hsoa : x.recordType ≠ .soa := by
    intro h
    unfold RecordData.served at hd
    rw [h] at hd
    cases hd
  cases hx with
  | txt h => exact absurd h htxt
  | soa h => exact absurd h hsoa
  | encoded hx =>
      cases hy with
      | txt h => exact absurd (ht.trans h) htxt
      | soa h => exact absurd (ht.trans h) hsoa
      | encoded hy => exact hx.eq_of_served hcrates ht hy hd hd' e
      | primaryNs name h hv => simp [hx.isBareNs, isBareNs_primaryNs h hv] at hbare
  | primaryNs name h hv =>
      cases hy with
      | txt h => exact absurd (ht.trans h) htxt
      | soa h => exact absurd (ht.trans h) hsoa
      | encoded hy => simp [hy.isBareNs, isBareNs_primaryNs h hv] at hbare
      | primaryNs name' h' hv' =>
          unfold RecordData.served at hd hd'
          rw [h, hv] at hd
          rw [h', hv'] at hd'
          obtain ⟨n, hn, rfl⟩ := Option.map_eq_some_iff.1 hd
          obtain ⟨m, hm, rfl⟩ := Option.map_eq_some_iff.1 hd'
          obtain ⟨n', hn', hnl⟩ := exists_parseName_target hcrates name.isTarget_text
          obtain ⟨m', hm', hml⟩ := exists_parseName_target hcrates name'.isTarget_text
          rw [toOption_eq_some, hn'] at hn
          rw [toOption_eq_some, hm'] at hm
          cases hn
          cases hm
          have e := (name.isTarget_text.canonical_eq_iff name'.isTarget_text hnl hml).2 (Rdata.ns.inj e)
          rw [name.toFqdnLowercase_text, name'.toFqdnLowercase_text, List.append_left_inj] at e
          rw [hv, hv', e]

/-- **One spelling.**  In every reachable database a row of any type but TXT is its own encoding exactly
when it is not an NS row without the final dot; and two rows, or rows of the log, of one type that are
served as the same rdata, up to case, hold equal values exactly when both or none of them is such a row. -/
theorem rows_spelled (hcrates : crates.Rfc1035Wire) (hbase64 : crates.Base64RoundTrip) (htxt : crates.TxtOctets)
    (ops : List Op) (hops : ∀ op ∈ ops, op.WellTyped) :
    (∀ st ∈ (run ops).stores, ∀ r ∈ st.records, r.recordType ≠ .txt →
      (r.recordType.encodedValue r.value r.priority = .ok r.value ↔ r.isBareNs = false)) ∧
    ∀ st ∈ (run ops).stores, ∀ st' ∈ (run ops).stores, ∀ x ∈ st.liveRecords ++ st.changes.map (·.record),
      ∀ y ∈ st'.liveRecords ++ st'.changes.map (·.record), x.recordType = y.recordType →
      ∀ d d', x.served = some d → y.served = some d' → d.lower = d'.lower →
        (x.value = y.value ↔ x.isBareNs = y.isBareNs) := by
  have hspelled : ∀ st ∈ (run ops).stores, ∀ x ∈ st.liveRecords ++ st.changes.map (·.record), Spelled x := by
    intro st hst x hx
    obtain ⟨hrecords, hchanges⟩ := run_spelled htxt hops st hst
    rcases List.mem_append.1 hx with hx | hx
    · obtain ⟨r, hr, rfl⟩ := List.mem_map.1 hx
      exact hrecords r hr
    · obtain ⟨c, hc, rfl⟩ := List.mem_map.1 hx
      exact hchanges c hc
  refine ⟨fun st hst r hr ht => ?_, fun st hst st' hst' x hx y hy ht d d' hd hd' e => ?_⟩
  · have hlive : r.toRecordData ∈ st.liveRecords := List.mem_map_of_mem hr
    exact (hspelled st hst _ (List.mem_append_left _ hlive)).encodedValue_iff
      (((run_ok ops).store st hst).rows.1 _ hlive) ht
  · exact (hspelled st hst x hx).value_eq_iff hcrates hbase64 (hspelled st' hst' y hy) ht hd hd' e

end Encoding

/-- The NS row of a new zone lacks the final dot of its own encoding. -/
theorem newZone_bareNs :
    ∃ st ∈ (@run sampleCrates [.createZone .global sampleZone]).stores, ∃ r ∈ st.records, r.recordType = .ns ∧
      r.value = lit "ns1.example.com" ∧
      @RecordType.encodedValue sampleCrates r.recordType r.value r.priority = .ok (lit "ns1.example.com.") := by
  decide +kernel

theorem rows_spelled_sampleHistory :
    ∃ st ∈ (@run sampleCrates sampleHistory).stores, ∃ r ∈ st.records, r.recordType = .a ∧
      @RecordType.encodedValue sampleCrates r.recordType r.value r.priority = .ok r.value := by
  have htyped : ∀ op ∈ sampleHistory, @Op.WellTyped sampleCrates op := by
    simp [sampleHistory, Op.WellTyped, Op.requestedTtls, Op.items, sampleItem]
  obtain ⟨st, hst, r, hr, ht⟩ : ∃ st ∈ (@run sampleCrates sampleHistory).stores, ∃ r ∈ st.records,
      r.recordType = .a := by
    decide +kernel
  refine ⟨st, hst, r, hr, ht, ?_⟩
  exact ((@rows_spelled sampleCrates sampleCrates_wire sampleCrates_base64 sampleCrates_txt sampleHistory htyped).1 st hst
    r hr (by simp [ht])).2 (by simp [RecordData.isBareNs, ht])

end Bindizr
