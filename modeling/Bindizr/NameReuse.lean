import Bindizr.Origins
import Bindizr.Rollback
import Bindizr.Transfer

/-! # Names that are taken again

Serials and the log belong to a zone, which is a row with an id, while a client knows a zone by
its name.  A zone that is deleted, or renamed, leaves its name to another, and a new zone begins at
serial 1 unless the request says otherwise.  So the serial a client holds may be one of the earlier
zone, and an incremental response then patches the copy of one zone with the history of the other
(`recreated_zone`).

A zone that takes a name is told apart by its serials when its history lies above every serial that
another zone held under the name (`TakesAbove`).  In a history where every create and every rename
is of that kind, the base of an incremental response is what was delivered at its serial
(`ixfr_base_delivered`). -/

namespace Bindizr

/-! ### What the handlers read -/

theorem asI32_of_lt {n : ℕ} (h : n < 2147483648) : asI32 n = n := if_pos h

theorem zone_eq_ok {db : Db} {cat : Except XfrError (Zone × List Text)} {query : ParsedQuery} {zone : Zone}
    (h : (db.transferReads cat).zone query = .ok zone) :
    ∃ st ∈ db.stores, st.zone = zone ∧ normalizeZoneName query.zoneName = .ok st.zone.name := by
  obtain ⟨found, hfound, h⟩ := Fallible.bind_eq_ok.1 h
  obtain ⟨name, hname, hfound⟩ := Fallible.bind_eq_ok.1 (Fallible.mapError_eq_ok.1 hfound)
  cases hfound
  cases hget : db.getZoneByName name with
  | none =>
      rw [hget] at h
      cases h
  | some st =>
      rw [hget] at h
      cases h
      obtain ⟨hst, rfl⟩ := getZoneByName_eq_some hget
      exact ⟨st, hst, rfl, hname⟩

theorem DbOk.listById_eq {α : Type} {db : Db} (hdb : DbOk db) {st : ZoneStore} (hst : st ∈ db.stores)
    (rows : ZoneStore → List α) : db.listById st.zone.id rows = rows st := by
  rw [Db.listById, hdb.getZoneById_eq hst]

/-- A full transfer of a zone: its row, its serial, and the records between the two SOAs. -/
structure Delivers (reads : TransferReads) (query : ParsedQuery) (zone : Zone) (serial : ℕ) (records : List Record) : Prop where
  notCatalog : isCatalogZone query.zoneName = false
  zoneRead : reads.zone query = .ok zone
  recordsRead : reads.listRecords zone.id zone.serial = .ok records
  serialSent : serialToU32 zone.serial = .ok serial

theorem Delivers.axfrAdds [Crates] {reads : TransferReads} {query : ParsedQuery} {zone : Zone} {serial : ℕ}
    {records : List Record} (h : Delivers reads query zone serial records) :
    axfrAdds reads query = .ok (zoneAdds zone serial records) := by
  rw [Bindizr.axfrAdds, h.notCatalog, h.zoneRead]
  simp only [Bool.false_eq_true, if_false, Fallible.ok_bind, h.recordsRead, readOr, Except.mapError, h.serialSent]
  rfl

/-- The history a zone answers a client at serial `s` with. -/
structure IsIncremental (st : ZoneStore) (s : ℕ) (changes : List ZoneChange) (snapshots : ℕ → Option ZoneSnapshot) : Prop where
  lt : (s : ℤ) < st.zone.serial
  changesRead : changes = st.changesBetween s st.zone.serial
  ne_nil : changes ≠ []
  serials : ∃ serials, (changes.mapM fun c => serialToU32 c.serial) = .ok serials ∧
    (s :: sortedSerials serials).IsChain (· < ·) ∧ (sortedSerials serials).getLast? = some st.zone.serial.toNat ∧
    hasSnapshots snapshots s (sortedSerials serials) = true
  snapshotsRead : snapshots = snapshotsBySerial (st.snapshots.filter fun sn => (s : ℤ) ≤ sn.serial ∧ sn.serial ≤ st.zone.serial)

section Plans

variable {db : Db} {cat : Except XfrError (Zone × List Text)} {query : ParsedQuery} {zone : Zone} {s : ℕ}
  {changes : List ZoneChange} {snapshots : ℕ → Option ZoneSnapshot}

theorem deltaPlan_incremental (hdb : DbOk db) {st : ZoneStore} (hst : st ∈ db.stores) {clientSerial currentSerial : ℕ}
    (hserial : (currentSerial : ℤ) = st.zone.serial) (hlt : clientSerial < currentSerial)
    (h : deltaPlan (db.transferReads cat) st.zone clientSerial currentSerial = .ok (.incremental zone s changes snapshots)) :
    zone = st.zone ∧ s = clientSerial ∧ IsIncremental st s changes snapshots := by
  have hbound := (hdb.store st hst).bound
  rw [i32Max] at hbound
  obtain ⟨cs, hcs, h⟩ := Fallible.bind_eq_ok.1 h
  have hcs := Except.ok.inj (Fallible.mapError_eq_ok.1 hcs)
  rw [hdb.listById_eq hst, asI32_of_lt (by omega), asI32_of_lt (by omega), hserial] at hcs
  split at h
  · cases h
  rename_i hne
  obtain ⟨serials, hserials, h⟩ := Fallible.bind_eq_ok.1 h
  simp only at h
  split at h
  · cases h
  rename_i hchain
  split at h
  · cases h
  rename_i hlast
  obtain ⟨found, hfound, h⟩ := Fallible.bind_eq_ok.1 h
  have hfound := Except.ok.inj (Fallible.mapError_eq_ok.1 hfound)
  rw [hdb.listById_eq hst, asI32_of_lt (by omega), asI32_of_lt (by omega), hserial] at hfound
  split at h
  · rename_i hsnapshots
    cases h
    subst hfound
    have htoNat : st.zone.serial.toNat = currentSerial := by omega
    exact ⟨rfl, rfl, by omega, hcs.symm, hne,
      ⟨serials, hserials, not_not.1 hchain, by rw [htoNat]; exact not_not.1 hlast, hsnapshots⟩, rfl⟩
  · cases h

theorem ixfrPlan_incremental (hdb : DbOk db)
    (h : ixfrPlan (db.transferReads cat) query = .ok (.incremental zone s changes snapshots)) :
    ∃ st ∈ db.stores, st.zone = zone ∧ normalizeZoneName query.zoneName = .ok st.zone.name ∧ query.clientSerial = some s ∧
      isCatalogZone query.zoneName = false ∧ IsIncremental st s changes snapshots := by
  unfold ixfrPlan at h
  split at h
  · cases h
  rename_i hcatalog
  obtain ⟨zone', hzone, h⟩ := Fallible.bind_eq_ok.1 h
  obtain ⟨st, hst, rfl, hname⟩ := zone_eq_ok hzone
  obtain ⟨current, hcurrent, h⟩ := Fallible.bind_eq_ok.1 h
  have hserial : (current : ℤ) = st.zone.serial := by
    unfold serialToU32 at hcurrent
    split at hcurrent
    · cases hcurrent
    · cases hcurrent
      omega
  cases hclient : query.clientSerial with
  | none =>
      rw [hclient] at h
      cases h
  | some clientSerial =>
      rw [hclient] at h
      simp only at h
      split at h
      · obtain ⟨found, hfound, h⟩ := Fallible.bind_eq_ok.1 h
        cases found <;> cases h
      split at h
      · cases h
      obtain ⟨rfl, rfl, hinc⟩ := deltaPlan_incremental hdb hst hserial (by omega) h
      exact ⟨st, hst, rfl, hname, rfl, by simpa using hcatalog, hinc⟩

end Plans

theorem IsIncremental.exists_snapshot {st : ZoneStore} {s : ℕ} {changes : List ZoneChange} {snapshots : ℕ → Option ZoneSnapshot}
    (h : IsIncremental st s changes snapshots) : ∃ sn ∈ st.snapshots, sn.serial = s := by
  obtain ⟨serials, -, -, hlast, hsnapshots⟩ := h.serials
  cases hs : sortedSerials serials with
  | nil =>
      rw [hs] at hlast
      cases hlast
  | cons serial rest =>
      rw [hs, hasSnapshots, Bool.and_eq_true, Bool.and_eq_true] at hsnapshots
      obtain ⟨sn, hsn⟩ := Option.isSome_iff_exists.1 hsnapshots.1.1
      rw [h.snapshotsRead, snapshotsBySerial] at hsn
      have hmem := List.mem_of_getLast? hsn
      simp only [List.mem_filter, decide_eq_true_eq] at hmem
      exact ⟨sn, hmem.1.1, hmem.2⟩

/-! ### Taking a name -/

/-- An operation asks for the name `n` for a zone that is new or has another name; `serials` is the zone's history. -/
inductive Takes (db : Db) (n : ZoneName) : Op → ℕ → List ℤ → Prop
  | create {caller : Caller} {request : CreateZoneRequest} : normalizeZoneName request.name = .ok n →
      Takes db n (.createZone caller request) db.nextZoneId [request.serial.getD 1]
  | rename {op : Op} {zoneName : Text} {build : Zone → CreateZoneRequest} {st : ZoneStore} :
      op.build = some (zoneName, build) → db.lookupByName zoneName = .ok st →
      normalizeZoneName (build st.zone).name = .ok n → st.zone.name ≠ n →
      Takes db n op st.zone.id (st.snapshots.map (·.serial))

theorem initialSerial_eq_ok {serial : Option ℤ} {n : ℤ} (h : initialSerial serial = .ok n) : n = serial.getD 1 := by
  cases serial with
  | none =>
      cases h
      rfl
  | some s =>
      simp only [initialSerial, validateInitialSerial] at h
      split at h
      · cases h
      split at h
      · cases h
      · cases h
        rfl

theorem createZone_serial {db db' : Db} {caller : Caller} {request : CreateZoneRequest} {zone : Zone} {st : ZoneStore}
    (h : createZone db caller request = .ok (db', zone)) (hc : Created db db' st) :
    st.zone.serial = request.serial.getD 1 := by
  obtain ⟨v, timers, serial, _, _, hserial, e⟩ := hc.zone_eq h
  rw [e]
  exact initialSerial_eq_ok hserial

section Runs

variable [crates : Crates]

/-- An operation after a history takes no name but with serials above those that other zones held under it. -/
def TakesAbove (pre : List Op) (op : Op) : Prop :=
  ∀ n id serials, Takes (run pre) n op id serials → ∀ past, past <+: pre → ∀ st ∈ (run past).stores,
    st.zone.name = n → st.zone.id ≠ id → ∀ first ∈ serials, st.zone.serial < first

/-- Every serial of a zone lies above every serial another zone held under its name. -/
def Apart (ops : List Op) (st : ZoneStore) : Prop :=
  ∀ past, past <+: ops → ∀ st₁ ∈ (run past).stores, st₁.zone.name = st.zone.name → st₁.zone.id ≠ st.zone.id →
    ∀ sn ∈ st.snapshots, st₁.zone.serial < sn.serial

omit crates in
theorem Zone.snapshot_serial {zone : Zone} {sn : ZoneSnapshot} (h : zone.snapshot = .ok sn) : sn.serial = zone.serial := by
  obtain ⟨_, _, e⟩ := Fallible.bind_eq_ok.1 h
  cases e
  rfl

theorem exists_snapshot_le {db db' : Db} {op : Op} (hdb : DbOk db) (h : execute db op = some db') {st st₀ : ZoneStore}
    (hst : st ∈ db'.stores) (hst₀ : st₀ ∈ db.stores) (hid : st₀.zone.id = st.zone.id) {sn : ZoneSnapshot}
    (hsn : sn ∈ st.snapshots) : ∃ sn₀ ∈ st₀.snapshots, sn₀.serial ≤ sn.serial := by
  cases (execute_step hdb h).came st hst with
  | kept hst =>
      rw [hdb.eq_of_id_eq hst₀ hst hid]
      exact ⟨sn, hsn, le_rfl⟩
  | advanced st₁ cs hst₁ ha =>
      obtain rfl := hdb.eq_of_id_eq hst₀ hst₁ (hid.trans ha.id)
      obtain ⟨sn', hsn', e⟩ := ha.snapshots
      rw [e] at hsn
      rcases List.mem_append.1 hsn with hsn | hsn
      · exact ⟨sn, hsn, le_rfl⟩
      · obtain rfl := List.mem_singleton.1 hsn
        obtain ⟨sn₀, hsn₀, hlast⟩ := (hdb.store st₀ hst₀).current
        have h1 := ha.serial
        rw [← Zone.snapshot_serial hsn', ← Zone.snapshot_serial hsn₀] at h1
        exact ⟨sn₀, List.mem_of_getLast? hlast, by omega⟩
  | created db'' hc =>
      have h1 := hdb.zoneIdLt st₀ hst₀
      have h2 := hc.id
      omega

/-- A zone after one more operation has its name from before, or took it. -/
theorem name_or_takes {db db' : Db} {op : Op} (hdb : DbOk db) (h : execute db op = some db') {st : ZoneStore}
    (hst : st ∈ db'.stores) :
    (∃ st₀ ∈ db.stores, st₀.zone.id = st.zone.id ∧ st₀.zone.name = st.zone.name) ∨
      ∃ serials, Takes db st.zone.name op st.zone.id serials ∧ ∀ sn ∈ st.snapshots, ∃ first ∈ serials, first ≤ sn.serial := by
  cases execute_wrote hdb h st hst with
  | kept hst => exact .inl ⟨st, hst, rfl, rfl⟩
  | @created caller request v db'' e hv hc hname httl =>
      subst e
      obtain ⟨zone, h⟩ := committed_eq_some.1 h
      obtain ⟨st', hc'⟩ := createZone_created h
      rw [hc'.stores] at hst
      rcases List.mem_append.1 hst with hst | hst
      · exact .inl ⟨st, hst, rfl, rfl⟩
      obtain rfl := List.mem_singleton.1 hst
      refine .inr ⟨[request.serial.getD 1], ?_, fun sn hsn => ⟨_, List.mem_singleton_self _, ?_⟩⟩
      · rw [hc.id]
        exact .create (by rw [hname]; exact validateCreateZoneRequest_name hv)
      · obtain ⟨sn', hsn', e⟩ := hc'.snapshots
        rw [e, List.mem_singleton] at hsn
        rw [← createZone_serial h hc', hsn, Zone.snapshot_serial hsn']
  | wrote st₀ hst₀ hid hmoves hadds =>
      cases hmoves with
      | serial hw hname httl => exact .inl ⟨st₀, hst₀, hid.symm, hname.symm⟩
      | restored e hzone hsn hserial hname httl => exact .inl ⟨st₀, hst₀, hid.symm, hname.symm⟩
      | @updated zoneName build v hb hzone hv hname httl =>
          by_cases hsame : st₀.zone.name = st.zone.name
          · exact .inl ⟨st₀, hst₀, hid.symm, hsame⟩
          · refine .inr ⟨st₀.snapshots.map (·.serial), ?_, fun sn hsn => ?_⟩
            · rw [hid]
              refine .rename hb (hdb.lookupByName_eq hst₀ hzone) ?_ hsame
              rw [hname]
              exact validateCreateZoneRequest_name hv
            · obtain ⟨sn₀, hsn₀, hle⟩ := exists_snapshot_le hdb h hst hst₀ hid.symm hsn
              exact ⟨sn₀.serial, List.mem_map_of_mem hsn₀, hle⟩

theorem apart_of_takesAbove {ops : List Op}
    (hops : ∀ pre op, pre ++ [op] <+: ops → op.Commits pre → TakesAbove pre op) {st : ZoneStore} (hst : st ∈ (run ops).stores) : Apart ops st := by
  induction ops using List.reverseRecOn generalizing st with
  | nil => simp [run, Db.empty] at hst
  | append_singleton ops op ih =>
      have ih := @ih fun pre o hpre => hops pre o (hpre.trans (List.prefix_append _ _))
      intro past hpast st₁ hst₁ hname hid sn hsn
      -- two zones of one database do not share a name, so the other one was there before
      rcases List.prefix_concat_iff.1 hpast with rfl | hpast
      · exact absurd (congrArg (·.zone.id) ((run_ok _).eq_of_name_eq hst₁ hst hname)) hid
      by_cases hcommits : op.Commits ops
      swap
      · exact ih (not_not.1 hcommits ▸ hst) past hpast st₁ hst₁ hname hid sn hsn
      rw [run_concat, step] at hst
      cases hex : execute (run ops) op with
      | none =>
          rw [hex] at hst
          exact ih hst past hpast st₁ hst₁ hname hid sn hsn
      | some db' =>
          rw [hex] at hst
          rcases name_or_takes (run_ok ops) hex hst with ⟨st₀, hst₀, hid₀, hname₀⟩ | ⟨serials, htakes, hfirst⟩
          · obtain ⟨sn₀, hsn₀, hle⟩ := exists_snapshot_le (run_ok ops) hex hst hst₀ hid₀ hsn
            exact (ih hst₀ past hpast st₁ hst₁ (hname.trans hname₀.symm) (hid₀ ▸ hid) sn₀ hsn₀).trans_le hle
          · obtain ⟨first, hmem, hle⟩ := hfirst sn hsn
            exact (hops ops op List.prefix_rfl hcommits _ _ _ htakes past hpast st₁ hst₁ hname hid first hmem).trans_le hle

/-- **Incremental responses and names.**  In a history where every commit takes its name with serials above those that other
zones held under it, an incremental response to a client at a serial that was delivered under the name has as its base, the zone
of that name at that serial, exactly what was delivered. -/
theorem ixfr_base_delivered {ops : List Op}
    (hops : ∀ pre op, pre ++ [op] <+: ops → op.Commits pre → TakesAbove pre op) {past : List Op} (hpast : past <+: ops) {first later : ParsedQuery} {cat cat' : Except XfrError (Zone × List Text)}
    (hnames : normalizeZoneName first.zoneName = normalizeZoneName later.zoneName) {zone₁ zone : Zone} {s : ℕ}
    {records : List Record} (hdelivers : Delivers ((run past).transferReads cat) first zone₁ s records)
    {changes : List ZoneChange} {snapshots : ℕ → Option ZoneSnapshot}
    (hplan : ixfrPlan ((run ops).transferReads cat') later = .ok (.incremental zone s changes snapshots)) :
    ∃ st ∈ (run ops).stores, st.zone = zone ∧ (∃ st₀, HeldAt ops st s st₀) ∧
      ∀ st₀, HeldAt ops st s st₀ → st₀.zone = zone₁ ∧ st₀.listRecords = records := by
  obtain ⟨st, hst, rfl, hname, -, -, hinc⟩ := ixfrPlan_incremental (run_ok ops) hplan
  obtain ⟨st₁, hst₁, rfl, hname₁⟩ := zone_eq_ok hdelivers.zoneRead
  have hsame : st₁.zone.name = st.zone.name := by
    rw [hnames, hname] at hname₁
    exact (Except.ok.inj hname₁).symm
  have hserial : st₁.zone.serial = s := by
    have h := hdelivers.serialSent
    unfold serialToU32 at h
    split at h
    · cases h
    · cases h
      omega
  obtain ⟨sn, hsn, hsns⟩ := hinc.exists_snapshot
  have hid : st₁.zone.id = st.zone.id := by
    by_contra hid
    have := apart_of_takesAbove hops hst past hpast st₁ hst₁ hsame hid sn hsn
    omega
  have hheld : HeldAt ops st s st₁ := ⟨past, hpast, hst₁, hid, hserial⟩
  refine ⟨st, hst, rfl, ⟨st₁, hheld⟩, fun st₀ hst₀ => ?_⟩
  obtain rfl := hst₀.unique hheld
  have hrecords := hdelivers.recordsRead
  rw [show ((run past).transferReads cat).listRecords st₀.zone.id st₀.zone.serial =
    .ok ((run past).listById st₀.zone.id (·.listRecords)) from rfl, (run_ok past).listById_eq hst₁] at hrecords
  exact ⟨rfl, Except.ok.inj hrecords⟩

end Runs

/-! ### A zone deleted and created again -/

/-- The zone of the sample history is deleted and created again, with a serial, and gets two other addresses. -/
def recreated (serial : Option ℤ) : List Op := sampleHistory ++
  [.deleteZone .global (lit "example.com"),
    .createZone .global { sampleZone with serial := serial },
    .createRecord .global { sampleItem "mail" "A" "192.0.2.2" with zoneName := lit "example.com" },
    .createRecord .global { sampleItem "ftp" "A" "192.0.2.3" with zoneName := lit "example.com" }]

/-- A client at a serial. -/
def queryFrom (serial : ℕ) : ParsedQuery := { sampleQuery with clientSerial := some serial }

/-- The catalog zone is not asked for. -/
def noCatalog : Except XfrError (Zone × List Text) := .error (.databaseError [])

/-- Whether a response is incremental, from a serial. -/
def IxfrPlan.isFrom (s : ℕ) : Except XfrError IxfrPlan → Bool
  | .ok (.incremental _ clientSerial _ _) => clientSerial = s
  | _ => false

theorem exists_of_isFrom {s : ℕ} {plan : Except XfrError IxfrPlan} (h : IxfrPlan.isFrom s plan = true) :
    ∃ zone changes snapshots, plan = .ok (.incremental zone s changes snapshots) := by
  unfold IxfrPlan.isFrom at h
  split at h
  · rename_i zone clientSerial changes snapshots
    obtain rfl := of_decide_eq_true h
    exact ⟨zone, changes, snapshots, rfl⟩
  · cases h

/-- Every zone of a database that has the name of a query is delivered. -/
theorem delivers_of_mem {db : Db} (hdb : DbOk db) {cat : Except XfrError (Zone × List Text)} {st : ZoneStore}
    (hst : st ∈ db.stores) {query : ParsedQuery} (hcatalog : isCatalogZone query.zoneName = false)
    (hname : normalizeZoneName query.zoneName = .ok st.zone.name) {s : ℕ} (hs : st.zone.serial = s) :
    Delivers (db.transferReads cat) query st.zone s st.listRecords := by
  refine ⟨hcatalog, ?_, ?_, ?_⟩
  · have hfound : readOr ((db.transferReads cat).findByName query.zoneName) = .ok (some st.zone) := by
      rw [readOr, show (db.transferReads cat).findByName query.zoneName =
        (normalizeZoneName query.zoneName >>= fun name => pure ((db.getZoneByName name).map (·.zone))) from rfl, hname,
        Fallible.ok_bind, hdb.getZoneByName_eq hst]
      rfl
    rw [TransferReads.zone, hfound]
    rfl
  · rw [show (db.transferReads cat).listRecords st.zone.id st.zone.serial = .ok (db.listById st.zone.id (·.listRecords)) from rfl,
      hdb.listById_eq hst]
  · rw [hs, serialToU32, if_neg (by omega), Int.toNat_natCast]

/-- The serial of the deleted zone is one of the new zone, which never had the address that was delivered with it. -/
theorem recreated_zone :
    sampleHistory <+: recreated none ∧
      ∃ zone₁ records zone changes snapshots,
        Delivers ((@run sampleCrates sampleHistory).transferReads noCatalog) sampleQuery zone₁ 2 records ∧
        ixfrPlan ((@run sampleCrates (recreated none)).transferReads noCatalog) (queryFrom 2) =
          .ok (.incremental zone 2 changes snapshots) ∧
        ∃ st ∈ (@run sampleCrates (recreated none)).stores, st.zone = zone ∧
          ∃ st₀, @HeldAt sampleCrates (recreated none) st 2 st₀ ∧ ∃ r ∈ records, ∀ r₀ ∈ st₀.listRecords, r₀.value ≠ r.value := by
  obtain ⟨st₁, hst₁, hname₁, hserial₁, r, hr, hvalue⟩ : ∃ st₁ ∈ (@run sampleCrates sampleHistory).stores,
      normalizeZoneName sampleQuery.zoneName = .ok st₁.zone.name ∧ st₁.zone.serial = 2 ∧
      ∃ r ∈ st₁.records, r.value = lit "192.0.2.1" := by decide +kernel
  obtain ⟨st₀, hst₀, hid₀, hserial₀, hvalues⟩ : ∃ st₀ ∈ (@run sampleCrates ((recreated none).take 5)).stores,
      st₀.zone.id = 2 ∧ st₀.zone.serial = 2 ∧ ∀ r₀ ∈ st₀.records, r₀.value ≠ lit "192.0.2.1" := by decide +kernel
  have hids : ∀ st ∈ (@run sampleCrates (recreated none)).stores, st.zone.id = 2 := by decide +kernel
  obtain ⟨zone, changes, snapshots, hplan⟩ := exists_of_isFrom
    (show IxfrPlan.isFrom 2 (ixfrPlan ((@run sampleCrates (recreated none)).transferReads noCatalog) (queryFrom 2)) = true by
      decide +kernel)
  obtain ⟨st, hst, rfl, -⟩ := ixfrPlan_incremental (@run_ok sampleCrates _) hplan
  have hheld : @HeldAt sampleCrates (recreated none) st 2 st₀ :=
    ⟨(recreated none).take 5, List.take_prefix _ _, hst₀, hid₀.trans (hids st hst).symm, hserial₀⟩
  have hdelivers := @delivers_of_mem _ (@run_ok sampleCrates _) noCatalog st₁ hst₁ sampleQuery
    (by decide +kernel) hname₁ 2 hserial₁
  refine ⟨List.prefix_append _ _, st₁.zone, st₁.listRecords, st.zone, changes, snapshots, hdelivers, hplan, st, hst, rfl, st₀,
    hheld, r, List.mem_mergeSort.2 hr, fun r₀ hr₀ => ?_⟩
  rw [hvalue]
  exact hvalues r₀ (List.mem_mergeSort.1 hr₀)

/-- A zone created again above the serials of the deleted one. -/
theorem ixfr_base_delivered_recreated :
    ∃ zone₁ records zone changes snapshots,
      Delivers ((@run sampleCrates ((recreated (some 10)).take 5)).transferReads noCatalog) sampleQuery zone₁ 11 records ∧
      ixfrPlan ((@run sampleCrates (recreated (some 10))).transferReads noCatalog) (queryFrom 11) =
        .ok (.incremental zone 11 changes snapshots) ∧
      ∃ st ∈ (@run sampleCrates (recreated (some 10))).stores, st.zone = zone ∧
        ∃ st₀, @HeldAt sampleCrates (recreated (some 10)) st 11 st₀ ∧ st₀.listRecords = records := by
  have hpast : ∀ past ∈ ((recreated (some 10)).take 3).inits, ∀ st ∈ (@run sampleCrates past).stores, st.zone.serial < 10 := by
    decide +kernel
  have hops : ∀ pre op, pre ++ [op] <+: recreated (some 10) → @Op.Commits sampleCrates pre op →
      @TakesAbove sampleCrates pre op := by
    intro pre op hpre _ n id serials htakes past hp st hst hname hid first hfirst
    cases htakes with
    | rename hb _ _ _ =>
        have hnone : ∀ op ∈ recreated (some 10), op.build = none := by simp [recreated, sampleHistory, Op.build]
        rw [hnone op (hpre.subset (by simp))] at hb
        cases hb
    | @create caller request _ =>
        have htake := List.prefix_iff_eq_take.1 ((List.prefix_append pre _).trans hpre)
        obtain ⟨rest, hrest⟩ := hpre
        have hop : (recreated (some 10))[pre.length]? = some (.createZone caller request) := by
          rw [← hrest]
          simp
        -- the zone is created first of all, and again after the deletion
        rcases hlen : pre.length with _ | _ | _ | _ | i
        · obtain rfl := List.length_eq_zero_iff.1 hlen
          obtain rfl := List.prefix_nil.1 hp
          simp [run, Db.empty] at hst
        · simp [hlen, recreated, sampleHistory] at hop
        · simp [hlen, recreated, sampleHistory] at hop
        · rw [hlen] at htake
          have hserial : request.serial = some 10 := by
            simp only [hlen, recreated, sampleHistory, List.cons_append, List.nil_append, List.getElem?_cons_succ,
              List.getElem?_cons_zero, Option.some.injEq, Op.createZone.injEq] at hop
            rw [← hop.2]
          rw [List.mem_singleton.1 hfirst, hserial]
          exact hpast past ((List.mem_inits _ _).2 (htake ▸ hp)) st hst
        · rcases i with _ | _ | i <;> simp [hlen, recreated, sampleHistory] at hop
  obtain ⟨st₁, hst₁, hname₁, hserial₁⟩ : ∃ st₁ ∈ (@run sampleCrates ((recreated (some 10)).take 5)).stores,
      normalizeZoneName sampleQuery.zoneName = .ok st₁.zone.name ∧ st₁.zone.serial = 11 := by decide +kernel
  have hdelivers := @delivers_of_mem _ (@run_ok sampleCrates _) noCatalog st₁ hst₁ sampleQuery (by decide +kernel) hname₁ 11
    hserial₁
  obtain ⟨zone, changes, snapshots, hplan⟩ := exists_of_isFrom
    (show IxfrPlan.isFrom 11 (ixfrPlan ((@run sampleCrates (recreated (some 10))).transferReads noCatalog) (queryFrom 11)) = true
      by decide +kernel)
  obtain ⟨st, hst, hzone, ⟨st₀, hheld⟩, hall⟩ := @ixfr_base_delivered sampleCrates (recreated (some 10)) hops
    ((recreated (some 10)).take 5) (List.take_prefix _ _) sampleQuery (queryFrom 11) noCatalog noCatalog rfl
    st₁.zone zone 11 st₁.listRecords hdelivers changes snapshots hplan
  exact ⟨st₁.zone, _, zone, changes, snapshots, hdelivers, hplan, st, hst, hzone, st₀, hheld, (hall st₀ hheld).2⟩

end Bindizr
