import Bindizr.Origins

/-! # What holds of every zone

The two results about every reachable zone.  Its rows are well formed, whatever operations
wrote them (`run_wellFormed`): no duplicate resource record, no CNAME beside another row or at
the apex, no null MX beside another MX, NS rows at the apex only, one TTL per RRset, no SOA
row, and a row for `primary_ns`.  And its serial counts its commits (`run_serials`): each moves
it by one, every serial since the creation has exactly one snapshot, taken then and never
rewritten, and what changed nothing left no trace. -/

namespace Bindizr

/-! ### Well-formed rows -/

structure ZoneStore.WellFormed (st : ZoneStore) : Prop where
  distinct : (st.records.map fun r => (r.name, r.recordType, r.canonical)).Nodup
  cnameAlone : ∀ r ∈ st.records, r.recordType = .cname →
    r.name.isApex = false ∧ ∀ s ∈ st.records, s.name = r.name → s = r
  nullMxAlone : ∀ r ∈ st.records, r.isNullMx = true →
    ∀ s ∈ st.records, s.name = r.name → s.recordType = .mx → s = r
  nsAtApex : ∀ r ∈ st.records, r.recordType = .ns → r.name.isApex = true
  oneTtl : ∀ r ∈ st.records, ∀ s ∈ st.records, r.name = s.name → r.recordType = s.recordType →
    r.ttl = s.ttl
  noSoa : ∀ r ∈ st.records, r.recordType ≠ .soa
  primaryNs : ∃ r ∈ st.records, st.zone.isPrimaryNs r.toRecordData = true

theorem StoreOk.wellFormed {st : ZoneStore} (h : StoreOk st) : st.WellFormed := by
  obtain ⟨hrow, hpair⟩ := acceptable_coe.1 h.rows
  have hrow : ∀ r ∈ st.records, RowOk r.toRecordData := fun r hr => hrow _ (List.mem_map_of_mem hr)
  have hpair : st.records.Pairwise fun r s => Compatible r.toRecordData s.toRecordData :=
    List.pairwise_map.1 hpair
  have hsymm : Std.Symm fun r s : Record => Compatible r.toRecordData s.toRecordData :=
    ⟨fun _ _ h => compatible_comm.1 h⟩
  have hall : ∀ r ∈ st.records, ∀ s ∈ st.records, s ≠ r → Compatible s.toRecordData r.toRecordData :=
    fun r hr s hs hne => hpair.forall hs hr hne
  refine ⟨?_, fun r hr hc => ⟨(hrow r hr).cnameBelowApex hc, fun s hs hn => ?_⟩, fun r hr hmx s hs hn ht => ?_,
    fun r hr => (hrow r hr).nsAtApex, fun r hr s hs hn ht => ?_, fun r hr => (hrow r hr).notSoa, ?_⟩
  · refine List.pairwise_map.2 (hpair.imp fun {r s} hc e => ?_)
    simp only [Prod.mk.injEq] at e
    exact (hc e.1).1 e.2
  · by_contra hne
    exact ((hall r hr s hs hne) hn).2.1.2 hc
  · by_contra hne
    have := (((hall r hr s hs hne) hn).2.2.1 ht (RecordData.recordType_of_isNullMx hmx)).2
    simp [hmx] at this
  · by_cases e : r = s
    · rw [e]
    · exact ((hall s hs r hr e) hn).2.2.2 ht
  · obtain ⟨r, hr, hns⟩ := h.primaryNs
    obtain ⟨r', hr', rfl⟩ := List.mem_map.1 hr
    exact ⟨r', hr', hns⟩

/-- **Well-formedness is an invariant.**  After every history of operations every zone is well
formed. -/
theorem run_wellFormed [Crates] (ops : List Op) {st : ZoneStore} (hst : st ∈ (run ops).stores) :
    st.WellFormed :=
  ((run_ok ops).store st hst).wellFormed

theorem run_wellFormed_sample :
    ∃ st ∈ (@run sampleCrates sampleHistory).stores, st.records.length = 2 ∧ st.WellFormed := by
  obtain ⟨st, hst, h⟩ : ∃ st ∈ (@run sampleCrates sampleHistory).stores, st.records.length = 2 := by
    decide +kernel
  exact ⟨st, hst, h, @run_wellFormed sampleCrates sampleHistory st hst⟩

/-! ### Serials and history -/

def Op.dryRun : Op → Bool
  | .createBulk _ _ _ dryRun => dryRun
  | .importZoneFile _ _ request => request.dryRun
  | .rollback _ _ _ _ dryRun => dryRun
  | _ => false

/-- The operations that commit only when they have a row to add or to delete. -/
def Op.onDemand : Op → Bool
  | .importZoneFile _ _ _ | .applyUpdate _ | .applyChanges _ _ _ => true
  | _ => false

section Idle

variable [Crates]

/-- An UPDATE operation finds nothing to do among the rows: the row it adds is there, or it deletes none. -/
def UpdateOp.Idle (zone : ZoneName) (rows : List Record) : UpdateOp → Prop
  | .add name t value ttl priority => ∀ owner stored, ownerInZone name zone = .ok owner →
      updateValue t value priority = .ok stored →
      ∃ r ∈ rows, r.name = owner ∧ r.toRecordData.sameRdata ⟨owner, t, stored, ttl, priority⟩ = true
  | .deleteRrset name t => ∀ owner, ownerInZone name zone = .ok owner →
      ∀ r ∈ rows, deleteSelects owner t none none r = false
  | .deleteRr name t value priority => ∀ owner, ownerInZone name zone = .ok owner →
      ∀ r ∈ rows, deleteSelects owner (some t) (some value) priority r = false

/-- An import, an ExternalDNS request or an UPDATE has no row of the zone to add or to delete. -/
def Op.Idle (st : ZoneStore) : Op → Prop
  | .importZoneFile _ _ request => ∀ tx s, tx.store = st → importSteps request.content request.mode tx = .ok s →
      s.reconciled.adds = [] ∧ s.reconciled.dels = [] ∧ s.reconciled.ttlDels = []
  | .applyUpdate update => ∀ u ∈ update.updates, u.Idle st.zone.name st.records
  | .applyChanges _ zonesRead request => ∀ pending grouped ops cs, convertRequest request = .ok pending →
      groupOpsByZone zonesRead pending = .ok grouped → (st.zone.name, ops) ∈ grouped →
      computeZoneChangeSet st.zone (st.records.filter (·.name ∈ ops.writes.map (·.relativeName))) ops = .ok cs →
      cs.deletes = [] ∧ cs.creates = []
  | _ => False

end Idle

/-- What one operation on the database `db` does to the serial and the log of a zone that was
`st` and is `st'`: nothing, or one step of the serial that every new row of the log carries. -/
structure Counted [Crates] (db : Db) (op : Op) (st st' : ZoneStore) : Prop where
  counts : st' = st ∨ (st'.zone.serial = st.zone.serial + 1 ∧
    ∃ cs, st'.changes = st.changes ++ cs ∧ ∀ c ∈ cs, c.serial = st'.zone.serial)
  forced : ∀ zoneName, op = .forceIncrementSerial zoneName → (execute db op).isSome →
    normalizeZoneName zoneName = .ok st.zone.name → st'.zone.serial = st.zone.serial + 1
  onDemand : op.onDemand = true → st'.changes = st.changes → st' = st
  idle : op.Idle st → st' = st

/-- What holds of the serial and the history of a zone after a history of operations: the
serials since the creation have one snapshot each, the last of the current row; earlier logs
and snapshots are kept as they were; and no serial comes twice. -/
structure CountedZone [Crates] (ops : List Op) (st : ZoneStore) : Prop where
  bound : st.zone.serial ≤ i32Max
  snapshots : ∃ (pre : List Op) (op : Op) (first : ZoneStore) (k : ℕ), pre ++ [op] <+: ops ∧
    (∀ st₀ ∈ (run pre).stores, st₀.zone.id ≠ st.zone.id) ∧ first ∈ (run (pre ++ [op])).stores ∧
    first.zone.id = st.zone.id ∧ first.changes = [] ∧ st.zone.serial = first.zone.serial + k ∧
    st.snapshots.map (·.serial) = (List.range (k + 1)).map fun i : ℕ => first.zone.serial + i
  current : ∃ sn ∈ st.snapshots, sn.serial = st.zone.serial ∧ st.zone.snapshot = .ok sn
  past : ∀ pre, pre <+: ops → ∀ st₀ ∈ (run pre).stores, st₀.zone.id = st.zone.id →
    st₀.snapshots <+: st.snapshots ∧ st₀.changes <+: st.changes ∧
      (st₀.zone.serial = st.zone.serial → st₀ = st)

theorem Evolves.prefixes {st st' : ZoneStore} (h : Evolves st st') :
    st.snapshots <+: st'.snapshots ∧ st.changes <+: st'.changes := by
  induction h with
  | refl => exact ⟨List.prefix_rfl, List.prefix_rfl⟩
  | tail _ ha ih =>
      obtain ⟨cs, ha⟩ := ha
      obtain ⟨sn, _, hsn⟩ := ha.snapshots
      exact ⟨ih.1.trans (by rw [hsn]; exact List.prefix_append _ _),
        ih.2.trans (by rw [ha.changes]; exact List.prefix_append _ _)⟩

section Serials

variable [Crates]

/-- A zone's history starts with the operation that created it. -/
theorem run_created {ops : List Op} {st : ZoneStore} (h : st ∈ (run ops).stores) :
    ∃ (pre : List Op) (op : Op) (first : ZoneStore), pre ++ [op] <+: ops ∧
      (∀ st₀ ∈ (run pre).stores, st₀.zone.id ≠ st.zone.id) ∧ first ∈ (run (pre ++ [op])).stores ∧
      first.zone.id = st.zone.id ∧ first.changes = [] ∧ ∃ sn, first.snapshots = [sn] ∧ sn.serial = first.zone.serial := by
  induction ops using List.reverseRecOn generalizing st with
  | nil => simp [run, Db.empty] at h
  | append_singleton ops op ih =>
      have h' := h
      rw [run_concat] at h
      cases (step_dbStep op (run_ok ops)).came st h with
      | kept hst =>
          obtain ⟨pre, op', first, hpre, hrest⟩ := ih hst
          exact ⟨pre, op', first, hpre.trans (List.prefix_append _ _), hrest⟩
      | advanced st₁ cs hst₁ ha =>
          obtain ⟨pre, op', first, hpre, hno, hfirst, hid, hsn⟩ := ih hst₁
          rw [← ha.id] at hno hid
          exact ⟨pre, op', first, hpre.trans (List.prefix_append _ _), hno, hfirst, hid, hsn⟩
      | created db' hc =>
          obtain ⟨sn, hsn, e⟩ := hc.snapshots
          refine ⟨ops, op, st, List.prefix_rfl, fun st₀ hst₀ => ?_, h', rfl, hc.changes, sn, e, ?_⟩
          · have := (run_ok ops).zoneIdLt st₀ hst₀
            have := hc.id
            omega
          · obtain ⟨m, _, e⟩ := Fallible.bind_eq_ok.1 hsn
            cases e
            rfl

theorem run_countedZone {ops : List Op} {st : ZoneStore} (hst : st ∈ (run ops).stores) :
    CountedZone ops st := by
  have hok := (run_ok ops).store st hst
  refine ⟨hok.bound, ?_, ?_, ?_⟩
  · obtain ⟨pre, op, first, hpre, hno, hfirst, hid, hlog, sn, hsn, hserial⟩ := run_created hst
    obtain ⟨s, k, _, hk, hmap⟩ := hok.snapshots
    -- the first snapshot is the one of the creation
    have hs : s = first.zone.serial := by
      obtain ⟨t, ht⟩ := (run_evolves hpre hfirst hst hid).prefixes.1
      rw [← ht, hsn, List.range_succ_eq_map] at hmap
      simp only [List.singleton_append, List.map_cons, List.cons.injEq, CharP.cast_eq_zero, add_zero] at hmap
      rw [← hmap.1, hserial]
    subst hs
    exact ⟨pre, op, first, k, hpre, hno, hfirst, hid, hlog, hk, hmap⟩
  · obtain ⟨sn, hsn, hlast⟩ := hok.current
    refine ⟨sn, List.mem_of_getLast? hlast, ?_, hsn⟩
    obtain ⟨m, _, e⟩ := Fallible.bind_eq_ok.1 hsn
    cases e
    rfl
  · intro pre hpre st₀ hst₀ hid
    have hev := run_evolves hpre hst₀ hst hid
    exact ⟨hev.prefixes.1, hev.prefixes.2, fun e => (hev.eq_of_serial_eq e.symm).symm⟩

omit [Crates] in
theorem inTx_eq_self {ε α : Type} {db db' : Db} {st : ZoneStore} {body : Tx → Except ε (Tx × α)} {a : α}
    (hdb : DbOk db) (hst : st ∈ db.stores) (h : db.inTx st body = .ok (db', a))
    (hbody : ∀ tx, body (db.beginTx st) = .ok (tx, a) → tx = db.beginTx st) : db' = db := by
  obtain ⟨⟨tx, a'⟩, htx, h⟩ := Fallible.bind_eq_ok.1 h
  cases h
  rw [hbody tx htx, commit_beginTx hdb hst]

theorem execute_dryRun {db db' : Db} {op : Op} (hdb : DbOk db) (hdry : op.dryRun = true)
    (h : execute db op = some db') : db' = db := by
  cases op with
  | createBulk caller zoneName items dryRun =>
      obtain ⟨_, h⟩ := committed_eq_some.1 h
      unfold createBulk at h
      split at h
      · cases h
      obtain ⟨_, _, h⟩ := Fallible.bind_eq_ok.1 h
      obtain ⟨st, hst, h⟩ := Fallible.bind_eq_ok.1 h
      obtain ⟨hst, _⟩ := lookupByName_eq_ok hst
      refine inTx_eq_self hdb hst h fun tx htx => ?_
      rcases createBulkTx_commits (hdb.txOk hst) htx with ⟨_, e⟩ | ⟨e, _⟩
      · exact e
      · exact absurd hdry (by simp [Op.dryRun, e])
  | importZoneFile caller zoneName request =>
      obtain ⟨_, h⟩ := committed_eq_some.1 h
      obtain ⟨_, _, h⟩ := Fallible.bind_eq_ok.1 h
      obtain ⟨st, hst, h⟩ := Fallible.bind_eq_ok.1 h
      obtain ⟨hst, _⟩ := lookupByName_eq_ok hst
      refine inTx_eq_self hdb hst h fun tx htx => ?_
      rcases importTx_commits (hdb.txOk hst) htx with e | ⟨e, _⟩
      · exact e
      · exact absurd hdry (by simp [Op.dryRun, e])
  | rollback caller hash zoneName target dryRun =>
      obtain ⟨_, h⟩ := committed_eq_some.1 h
      obtain ⟨_, _, h⟩ := Fallible.bind_eq_ok.1 h
      obtain ⟨_, _, h⟩ := Fallible.bind_eq_ok.1 h
      obtain ⟨st, hst, h⟩ := Fallible.bind_eq_ok.1 h
      obtain ⟨hst, _⟩ := lookupByName_eq_ok hst
      refine inTx_eq_self hdb hst h fun tx htx => ?_
      rcases rollbackTx_commits (hdb.txOk hst) htx with ⟨_, e⟩ | ⟨e, _⟩
      · exact e
      · exact absurd hdry (by simp [Op.dryRun, e])
  | _ => cases hdry

omit [Crates] in
/-- A zone whose log a record operation left alone, when its commits always log, was left alone. -/
theorem RecordStep.eq_of_changes_eq {allow : ℕ → RecordWrite → Prop} {db db' : Db}
    (h : RecordStep (SomeWithin allow) db db') (hdb : DbOk db) {st st' : ZoneStore} (hst : st ∈ db.stores)
    (hst' : st' ∈ db'.stores) (hid : st'.zone.id = st.zone.id) (e : st'.changes = st.changes) : st' = st := by
  rcases h.came st' hst' with hk | ⟨st₀, hst₀, cs, ha, _, hne, _⟩
  · exact hdb.eq_of_id_eq hk hst hid
  · have : st₀ = st := hdb.eq_of_id_eq hst₀ hst (ha.id.symm.trans hid)
    subst this
    rw [ha.changes] at e
    exact absurd (by simpa using e) hne

theorem execute_onDemand {db db' : Db} {op : Op} (hdb : DbOk db) (hop : op.onDemand = true)
    (h : execute db op = some db') : ∃ allow, RecordStep (SomeWithin allow) db db' := by
  cases op with
  | importZoneFile caller zoneName request =>
      obtain ⟨_, h⟩ := committed_eq_some.1 h
      exact ⟨_, importZoneFile_step hdb h⟩
  | applyUpdate update =>
      obtain ⟨_, h⟩ := committed_eq_some.1 h
      exact ⟨_, applyUpdate_step hdb h⟩
  | applyChanges caller zonesRead request =>
      obtain ⟨_, h⟩ := committed_eq_some.1 h
      exact ⟨_, applyChanges_step hdb h⟩
  | _ => cases hop

/-! Nothing to do -/

theorem applyOp_idle {zone : Zone} {n : ℤ} {tx tx' : Tx} {changed : Bool} {op : UpdateOp}
    (hidle : op.Idle zone.name tx.store.records) (h : applyOp zone n op tx = .ok (tx', changed)) :
    tx' = tx ∧ changed = false := by
  have hdelete : ∀ {name : Text} {t : Option RecordType} {value : Option Text} {priority : Option ℤ},
      (∀ owner, ownerInZone name zone.name = .ok owner →
        ∀ r ∈ tx.store.records, deleteSelects owner t value priority r = false) →
      deleteMatching zone n name t value priority tx = .ok (tx', changed) → tx' = tx ∧ changed = false := by
    intro name t value priority hnone h
    obtain ⟨owner, howner, h⟩ := Fallible.bind_eq_ok.1 h
    have hmatched : tx.store.records.filter (deleteSelects owner t value priority) = [] :=
      List.filter_eq_nil_iff.2 fun r hr => by simp [hnone owner howner r hr]
    simp only [hmatched, if_true] at h
    cases h
    exact ⟨rfl, rfl⟩
  cases op with
  | add name t value ttl priority =>
      obtain ⟨owner, howner, h⟩ := Fallible.bind_eq_ok.1 h
      obtain ⟨stored, hstored, h⟩ := Fallible.bind_eq_ok.1 h
      obtain ⟨r, hr, hname, hsame⟩ := hidle owner stored howner hstored
      have hdup : hasMatchingRdata ((tx.recordsByName owner).map (·.toRecordData))
          ⟨owner, t, stored, ttl, priority⟩ = true := by
        simp only [hasMatchingRdata, List.any_eq_true, List.mem_map]
        exact ⟨_, ⟨r, by simp [Tx.recordsByName, hr, hname], rfl⟩, hsame⟩
      simp only [validateAdd, hdup, if_true] at h
      cases h
      exact ⟨rfl, rfl⟩
  | deleteRrset name t => exact hdelete hidle h
  | deleteRr name t value priority => exact hdelete hidle h

theorem applyOps_idle {zone : Zone} {n : ℤ} {tx tx' : Tx} {changed : Bool} {ops : List UpdateOp}
    (hidle : ∀ op ∈ ops, op.Idle zone.name tx.store.records) (h : applyOps zone n ops tx = .ok (tx', changed)) :
    tx' = tx ∧ changed = false := by
  induction ops generalizing tx tx' changed with
  | nil =>
      cases h
      exact ⟨rfl, rfl⟩
  | cons op ops ih =>
      obtain ⟨⟨tx₁, changed₁⟩, hop, h⟩ := Fallible.bind_eq_ok.1 h
      obtain ⟨⟨tx₂, later⟩, hops, h⟩ := Fallible.bind_eq_ok.1 h
      cases h
      obtain ⟨rfl, rfl⟩ := applyOp_idle (hidle op (by simp)) hop
      exact ih (fun op hop => hidle op (by simp [hop])) hops

theorem applyUpdateTx_idle {policies : List ZonePolicy} {update : DynamicUpdate} {tx tx' : Tx} {changed : Bool}
    (hidle : ∀ u ∈ update.updates, u.Idle tx.store.zone.name tx.store.records)
    (h : applyUpdateTx policies update tx = .ok (tx', changed)) : tx' = tx := by
  obtain ⟨_, _, h⟩ := Fallible.bind_eq_ok.1 h
  obtain ⟨_, _, h⟩ := Fallible.bind_eq_ok.1 h
  obtain ⟨n, _, h⟩ := Fallible.bind_eq_ok.1 h
  obtain ⟨⟨tx₁, changed₁⟩, hops, h⟩ := Fallible.bind_eq_ok.1 h
  obtain ⟨rfl, rfl⟩ := applyOps_idle hidle hops
  cases h
  rfl

/-- A transaction of an operation that has no row to add or to delete writes nothing. -/
theorem Ran.idle {db : Db} {op : Op} {tx tx' : Tx} (h : Ran db op tx tx') (hidle : op.Idle tx.store) : tx' = tx := by
  cases h with
  | importZoneFile e h =>
      subst e
      obtain ⟨s, hs, h⟩ := Fallible.bind_eq_ok.1 h
      obtain ⟨hadds, hdels, httl⟩ := hidle tx s rfl hs
      have hno : s.reconciled.hasChanges = false := by simp [Reconciled.hasChanges, hadds, hdels, httl]
      simp only [hno, Bool.and_false, Bool.false_eq_true, if_false] at h
      cases h
      rfl
  | applyUpdate e _ h =>
      subst e
      exact applyUpdateTx_idle hidle h
  | applyChanges e hpending hgrouped hops h =>
      subst e
      obtain ⟨_, _, h⟩ := Fallible.bind_eq_ok.1 h
      obtain ⟨cs, hcs, h⟩ := Fallible.bind_eq_ok.1 h
      rw [if_pos (hidle _ _ _ cs hpending hgrouped hops hcs)] at h
      cases h
      rfl
  | zone hbuild =>
      cases op with
      | updateZone | patchZone => exact hidle.elim
      | _ => cases hbuild
  | forceIncrementSerial e | createRecord e | createBulk e | updateById e | patchById e | deleteById e | rollback e =>
      subst e
      exact hidle.elim

omit [Crates] in
theorem forceIncrementSerial_serial {db db' : Db} {zoneName : Text} {zone : Zone} (hdb : DbOk db)
    (h : forceIncrementSerial db zoneName = .ok (db', zone)) {st st' : ZoneStore} (hst : st ∈ db.stores)
    (hname : normalizeZoneName zoneName = .ok st.zone.name) (hst' : st' ∈ db'.stores)
    (hid : st'.zone.id = st.zone.id) : st'.zone.serial = st.zone.serial + 1 := by
  obtain ⟨st₁, hst₁, h⟩ := Fallible.bind_eq_ok.1 h
  obtain ⟨hst₁, hname₁⟩ := lookupByName_eq_ok hst₁
  have : st₁ = st := hdb.eq_of_name_eq hst₁ hst (Except.ok.inj (hname₁.symm.trans hname))
  subst this
  obtain ⟨⟨tx, _⟩, htx, h⟩ := Fallible.bind_eq_ok.1 h
  cases h
  have ha := (forceIncrementSerialTx_commits (hdb.txOk hst₁) htx).advances
  rcases (mem_commit hst₁ ha.id).1 hst' with rfl | ⟨_, hne⟩
  · exact ha.serial
  · exact absurd hid hne

theorem execute_idle {db db' : Db} {op : Op} (hdb : DbOk db) (h : execute db op = some db') {st st' : ZoneStore}
    (hst : st ∈ db.stores) (hst' : st' ∈ db'.stores) (hid : st'.zone.id = st.zone.id) (hidle : op.Idle st) :
    st' = st := by
  cases execute_cameBy hdb h st' hst' with
  | kept hk => exact hdb.eq_of_id_eq hk hst hid
  | created e => exact absurd hidle (by rw [e]; exact id)
  | ran tx tx' htx hok hran e =>
      subst e
      have hsame : tx.store = st := by
        refine hdb.eq_of_id_eq htx hst ?_
        rcases hran.wrote hok with rfl | ⟨hid', -⟩
        · exact hid
        · exact hid'.symm.trans hid
      rw [hran.idle (hsame ▸ hidle), hsame]

theorem step_counted {db : Db} (hdb : DbOk db) (op : Op) {st st' : ZoneStore} (hst : st ∈ db.stores)
    (hst' : st' ∈ (step db op).stores) (hid : st'.zone.id = st.zone.id) : Counted db op st st' := by
  refine ⟨?_, ?_, ?_, ?_⟩
  · cases (step_dbStep op hdb).came st' hst' with
    | kept hk => exact .inl (hdb.eq_of_id_eq hk hst hid)
    | advanced st₀ cs hst₀ ha =>
        have : st₀ = st := hdb.eq_of_id_eq hst₀ hst (ha.id.symm.trans hid)
        subst this
        exact .inr ⟨ha.serial, cs, ha.changes, ha.serials⟩
    | created db' hc =>
        have := hdb.zoneIdLt st hst
        have := hc.id
        omega
  · rintro zoneName rfl hsome hname
    obtain ⟨db', h⟩ := Option.isSome_iff_exists.1 hsome
    rw [step, h] at hst'
    obtain ⟨_, h⟩ := committed_eq_some.1 h
    exact forceIncrementSerial_serial hdb h hst hname hst' hid
  · intro hop e
    unfold step at hst'
    cases h : execute db op with
    | none =>
        rw [h] at hst'
        exact hdb.eq_of_id_eq hst' hst hid
    | some db' =>
        rw [h] at hst'
        obtain ⟨allow, hstep⟩ := execute_onDemand hdb hop h
        exact hstep.eq_of_changes_eq hdb hst hst' hid e
  · intro hidle
    unfold step at hst'
    cases h : execute db op with
    | none =>
        rw [h] at hst'
        exact hdb.eq_of_id_eq hst' hst hid
    | some db' =>
        rw [h] at hst'
        exact execute_idle hdb h hst hst' hid hidle

/-- **The serial counts the commits.**  After every history every zone has one snapshot of
every serial since its creation; and the next operation moves the serial of a zone by one,
under which it logs its changes, or leaves the zone as it was, as it does when it fails, is a
dry run or has nothing to do. -/
theorem run_serials (ops : List Op) :
    (∀ st ∈ (run ops).stores, CountedZone ops st) ∧
      ∀ op, (op.dryRun = true ∨ execute (run ops) op = none → step (run ops) op = run ops) ∧
        ∀ st ∈ (run ops).stores, ∀ st' ∈ (step (run ops) op).stores, st'.zone.id = st.zone.id →
          Counted (run ops) op st st' := by
  refine ⟨fun st hst => run_countedZone hst, fun op => ⟨?_, fun st hst st' hst' hid =>
    step_counted (run_ok ops) op hst hst' hid⟩⟩
  intro hnone
  unfold step
  cases h : execute (run ops) op with
  | none => rfl
  | some db' =>
      rcases hnone with hdry | hnone
      · exact execute_dryRun (run_ok ops) hdry h
      · simp [h] at hnone

end Serials

/-- A forced bump of the sample zone. -/
theorem run_serials_sample :
    ∃ st ∈ (@run sampleCrates sampleHistory).stores, @CountedZone sampleCrates sampleHistory st ∧
      ∃ st' ∈ (@step sampleCrates (@run sampleCrates sampleHistory) (.forceIncrementSerial (lit "example.com"))).stores,
        st'.zone.serial = st.zone.serial + 1 := by
  have hrun := @run_serials sampleCrates sampleHistory
  have hforce := (hrun.2 (.forceIncrementSerial (lit "example.com"))).2
  obtain ⟨st, hst, hname, st', hst', hid⟩ : ∃ st ∈ (@run sampleCrates sampleHistory).stores,
      normalizeZoneName (lit "example.com") = .ok st.zone.name ∧
        ∃ st' ∈ (@step sampleCrates (@run sampleCrates sampleHistory)
          (.forceIncrementSerial (lit "example.com"))).stores, st'.zone.id = st.zone.id := by
    decide +kernel
  exact ⟨st, hst, hrun.1 st hst, st', hst',
    @Counted.forced sampleCrates _ _ _ _ (hforce st hst st' hst' hid) _ rfl (by decide +kernel) hname⟩

end Bindizr
