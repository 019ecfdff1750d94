import Bindizr.RowLimits

/-! # The order of the log

An operation logs its changes under one serial.  Every operation but the UPDATE logs its deletions
before its additions.  An UPDATE logs the changes of its operations as they come, so it may delete a
row that it added before (`UpdateOp.undoes`).

In a history where no UPDATE does, and no zone is renamed, every commit of a zone keeps the zone's
name and logs nothing that it undoes under the same serial (`run_steadily`). -/

namespace Bindizr

open Journal (Lasting)

/-! ### Journals of logs -/

theorem ZoneChange.entry_eq_add {c : ZoneChange} {x : RecordData} :
    c.entry = some (.add x) ↔ c.operation = .add ∧ c.record = x ∧ x.recordType ≠ .soa := by
  unfold ZoneChange.entry
  by_cases hsoa : c.record.recordType = .soa
  · rw [if_pos hsoa]
    constructor
    · intro h
      cases h
    · rintro ⟨-, rfl, h⟩
      exact absurd hsoa h
  · rw [if_neg hsoa]
    cases c.operation <;> simp only [Option.some.injEq, Journal.Change.add.injEq, reduceCtorEq, true_and, false_and]
    exact ⟨fun e => ⟨e, e ▸ hsoa⟩, And.left⟩

theorem ZoneChange.entry_eq_del {c : ZoneChange} {x : RecordData} :
    c.entry = some (.del x) ↔ c.operation = .del ∧ c.record = x ∧ x.recordType ≠ .soa := by
  unfold ZoneChange.entry
  by_cases hsoa : c.record.recordType = .soa
  · rw [if_pos hsoa]
    constructor
    · intro h
      cases h
    · rintro ⟨-, rfl, h⟩
      exact absurd hsoa h
  · rw [if_neg hsoa]
    cases c.operation <;> simp only [Option.some.injEq, Journal.Change.del.injEq, reduceCtorEq, true_and, false_and]
    exact ⟨fun e => ⟨e, e ▸ hsoa⟩, And.left⟩

theorem add_mem_recordLog {cs : List ZoneChange} {x : RecordData} :
    .add x ∈ recordLog cs ↔ ∃ c ∈ cs, c.operation = .add ∧ c.record = x ∧ x.recordType ≠ .soa := by
  simp only [recordLog, List.mem_filterMap, ZoneChange.entry_eq_add]

theorem del_mem_recordLog {cs : List ZoneChange} {x : RecordData} :
    .del x ∈ recordLog cs ↔ ∃ c ∈ cs, c.operation = .del ∧ c.record = x ∧ x.recordType ≠ .soa := by
  simp only [recordLog, List.mem_filterMap, ZoneChange.entry_eq_del]

/-- What was logged between two states of a zone deletes no row that it added before. -/
def LogsLasting (st st' : ZoneStore) : Prop := ∃ cs, st'.changes = st.changes ++ cs ∧ Lasting (recordLog cs)

/-- Deletions before additions, with changes of the SOA among them. -/
theorem logsLasting_of {st st' : ZoneStore} (dels adds : List ZoneChange) (h : st'.changes = st.changes ++ (dels ++ adds))
    (hdels : ∀ c ∈ dels, c.operation = .del ∨ c.record.recordType = .soa)
    (hadds : ∀ c ∈ adds, c.operation = .add ∨ c.record.recordType = .soa) : LogsLasting st st' := by
  refine ⟨dels ++ adds, h, ?_⟩
  rw [recordLog_append]
  refine Journal.lasting_append _ _ (fun x hx => ?_) fun x hx => ?_
  · obtain ⟨c, hc, hop, rfl, hsoa⟩ := add_mem_recordLog.1 hx
    rcases hdels c hc with h | h
    · rw [h] at hop
      cases hop
    · exact hsoa h
  · obtain ⟨c, hc, hop, rfl, hsoa⟩ := del_mem_recordLog.1 hx
    rcases hadds c hc with h | h
    · rw [h] at hop
      cases hop
    · exact hsoa h

theorem operation_of_mem_zoneChangesFor {n : ℤ} {operation : ChangeOp} {rs : List RecordData} {c : ZoneChange}
    (h : c ∈ Tx.zoneChangesFor n operation rs) : c.operation = operation := by
  obtain ⟨_, _, rfl⟩ := List.mem_map.1 h
  rfl

theorem changes_saveSnapshot {tx tx' : Tx} {zone : Zone} {n : ℤ} (h : tx.saveSnapshot zone n = .ok tx') :
    tx'.store.changes = tx.store.changes := by
  obtain ⟨_, _, h⟩ := Fallible.bind_eq_ok.1 h
  cases h
  rfl

theorem changes_advanceSerial {tx tx' : Tx} {zone : Zone} {n : ℤ} (h : tx.advanceSerial zone n = .ok tx') :
    tx'.store.changes = tx.store.changes := by
  rw [Tx.advanceSerial] at h
  rw [changes_saveSnapshot h]
  rfl

theorem logsLasting_replace {tx tx' : Tx} {zone : Zone} {n : ℤ} {dels : List Record} {adds : List RecordData}
    (h : ((tx.deleteRecordsWithChanges n dels).insertRecordsWithChanges n adds).advanceSerial zone n = .ok tx') :
    LogsLasting tx.store tx'.store := by
  refine logsLasting_of (Tx.zoneChangesFor n .del (dels.map (·.toRecordData))) (Tx.zoneChangesFor n .add adds) ?_ (fun c hc => .inl (operation_of_mem_zoneChangesFor hc)) fun c hc =>
      .inl (operation_of_mem_zoneChangesFor hc)
  rw [changes_advanceSerial h, ← List.append_assoc]
  rfl

theorem logsLasting_insert {tx tx' : Tx} {zone : Zone} {n : ℤ} {adds : List RecordData}
    (h : (tx.insertRecordsWithChanges n adds).advanceSerial zone n = .ok tx') : LogsLasting tx.store tx'.store := by
  refine logsLasting_of [] (Tx.zoneChangesFor n .add adds) ?_ (by simp)
    fun c hc => .inl (operation_of_mem_zoneChangesFor hc)
  rw [changes_advanceSerial h]
  rfl

section Transactions

variable {tx tx' : Tx}

theorem LogsLasting.refl (st : ZoneStore) : LogsLasting st st := ⟨[], by simp, List.Pairwise.nil⟩

theorem keepPrimaryNs_logs (zone : Zone) (n : ℤ) (tx : Tx) :
    ∃ cs, (keepPrimaryNs zone n tx).store.changes = tx.store.changes ++ cs ∧ ∀ c ∈ cs, c.operation = .add := by
  unfold keepPrimaryNs
  simp only
  split
  · exact ⟨[], by simp, by simp⟩
  · exact ⟨_, rfl, fun c hc => operation_of_mem_zoneChangesFor hc⟩

theorem updateZoneTx_logs {build : Zone → CreateZoneRequest} {taken : ZoneName → Bool} {zone : Zone}
    (h : updateZoneTx build taken tx = .ok (tx', zone)) : LogsLasting tx.store tx'.store := by
  obtain ⟨v, _, h⟩ := Fallible.bind_eq_ok.1 h
  obtain ⟨timers, _, h⟩ := Fallible.bind_eq_ok.1 h
  split at h
  · cases h
  obtain ⟨n, _, h⟩ := Fallible.bind_eq_ok.1 h
  obtain ⟨tx₁, hwrite, h⟩ := Fallible.bind_eq_ok.1 h
  cases h
  obtain ⟨changes, hch, hsave⟩ := Fallible.bind_eq_ok.1 hwrite
  obtain ⟨cs, hcs, hadds⟩ := keepPrimaryNs_logs ⟨tx.store.zone.id, v.name, v.primaryNs, v.adminEmail, v.ttl, n,
    timers.refresh, timers.retry, timers.expire, timers.minimumTtl⟩ n (tx.updateZone ⟨tx.store.zone.id, v.name,
      v.primaryNs, v.adminEmail, v.ttl, n, timers.refresh, timers.retry, timers.expire, timers.minimumTtl⟩)
  refine logsLasting_of [] (cs ++ changes) ?_ (by simp) fun c hc => ?_
  · rw [changes_saveSnapshot hsave, List.nil_append, ← List.append_assoc]
    exact congrArg (· ++ changes) hcs
  · rcases List.mem_append.1 hc with hc | hc
    · exact .inl (hadds c hc)
    · exact .inr (soaReplacementChanges_soa hch c hc).1

theorem forceIncrementSerialTx_logs {zone : Zone} (h : forceIncrementSerialTx tx = .ok (tx', zone)) :
    LogsLasting tx.store tx'.store := by
  obtain ⟨n, _, h⟩ := Fallible.bind_eq_ok.1 h
  obtain ⟨tx₁, hsave, h⟩ := Fallible.bind_eq_ok.1 h
  cases h
  exact ⟨[], by rw [changes_saveSnapshot hsave, List.append_nil]; rfl, List.Pairwise.nil⟩

theorem createRecordTx_logs {caller : Caller} {policies : List ZonePolicy} {item : RecordItem} {prepared : PreparedRecord}
    {r : Record} (h : createRecordTx caller policies item prepared tx = .ok (tx', r)) : LogsLasting tx.store tx'.store := by
  obtain ⟨owner, _, h⟩ := Fallible.bind_eq_ok.1 h
  obtain ⟨_, _, h⟩ := Fallible.bind_eq_ok.1 h
  obtain ⟨_, _, h⟩ := Fallible.bind_eq_ok.1 h
  obtain ⟨n, _, h⟩ := Fallible.bind_eq_ok.1 h
  obtain ⟨tx₁, hadv, h⟩ := Fallible.bind_eq_ok.1 h
  cases h
  exact logsLasting_insert hadv

theorem createBulkTx_logs {caller : Caller} {policies : List ZonePolicy} {prepared : List PreparedRecord} {dryRun : Bool}
    {rs : List Record} (h : createBulkTx caller policies prepared dryRun tx = .ok (tx', rs)) :
    LogsLasting tx.store tx'.store := by
  obtain ⟨s, _, h⟩ := Fallible.bind_eq_ok.1 h
  split at h
  · cases h
    exact .refl _
  · obtain ⟨tx₁, hadv, h⟩ := Fallible.bind_eq_ok.1 h
    cases h
    exact logsLasting_insert hadv

theorem deleteByIdTx_logs {caller : Caller} {policies : List ZonePolicy} {id : ℕ}
    (h : deleteByIdTx caller policies id tx = .ok (tx', ())) : LogsLasting tx.store tx'.store := by
  obtain ⟨existing, _, h⟩ := Fallible.bind_eq_ok.1 h
  obtain ⟨_, _, h⟩ := Fallible.bind_eq_ok.1 h
  obtain ⟨n, _, h⟩ := Fallible.bind_eq_ok.1 h
  obtain ⟨_, _, h⟩ := Fallible.bind_eq_ok.1 h
  obtain ⟨tx₁, hadv, h⟩ := Fallible.bind_eq_ok.1 h
  cases h
  exact logsLasting_of _ [] (by rw [changes_advanceSerial hadv, List.append_nil]; rfl) (fun c hc =>
    .inl (operation_of_mem_zoneChangesFor hc)) (by simp)

theorem applyZoneOpsTx_logs {caller : Caller} {policies : List ZonePolicy} {ops : ZoneOps} {cs : ZoneChangeSet}
    (h : applyZoneOpsTx caller policies ops tx = .ok (tx', cs)) : LogsLasting tx.store tx'.store := by
  obtain ⟨_, _, h⟩ := Fallible.bind_eq_ok.1 h
  obtain ⟨cs', _, h⟩ := Fallible.bind_eq_ok.1 h
  split at h
  · cases h
    exact .refl _
  obtain ⟨n, _, h⟩ := Fallible.bind_eq_ok.1 h
  obtain ⟨tx₁, hadv, h⟩ := Fallible.bind_eq_ok.1 h
  cases h
  exact logsLasting_replace hadv

theorem rollbackTx_logs {hash : HashOrder} {target : ℤ} {dryRun : Bool} {response : RollbackZoneResponse}
    (h : rollbackTx hash target dryRun tx = .ok (tx', response)) : LogsLasting tx.store tx'.store := by
  unfold rollbackTx at h
  simp only at h
  split at h
  · cases h
  split at h
  · cases h
  obtain ⟨n, _, h⟩ := Fallible.bind_eq_ok.1 h
  obtain ⟨restored, _, h⟩ := Fallible.bind_eq_ok.1 h
  obtain ⟨_, _, h⟩ := Fallible.bind_eq_ok.1 h
  split at h
  · cases h
    exact .refl _
  obtain ⟨tx₁, happly, h⟩ := Fallible.bind_eq_ok.1 h
  cases h
  obtain ⟨changes, hch, hsave⟩ := Fallible.bind_eq_ok.1 happly
  have hsoa : ∀ c ∈ changes, c.record.recordType = .soa := by
    intro c hc
    unfold rollbackSoaChanges at hch
    split at hch
    · exact (soaReplacementChanges_soa hch c hc).1
    · cases hch
      cases hc
  refine logsLasting_of (changes ++ Tx.zoneChangesFor n .del _) (Tx.zoneChangesFor n .add _)
    (by rw [changes_saveSnapshot hsave, ← List.append_assoc, ← List.append_assoc]; rfl) (fun c hc => ?_) fun c hc =>
      .inl (operation_of_mem_zoneChangesFor hc)
  rcases List.mem_append.1 hc with hc | hc
  · exact .inr (hsoa c hc)
  · exact .inl (operation_of_mem_zoneChangesFor hc)

theorem updateLockedTx_logs {caller : Caller} {policies : List ZonePolicy} {id : ℕ} {resolve : ResolveUpdate}
    {r : Record} (h : updateLockedTx caller policies id resolve tx = .ok (tx', r)) : LogsLasting tx.store tx'.store := by
  obtain ⟨existing, _, h⟩ := Fallible.bind_eq_ok.1 h
  obtain ⟨resolved, _, h⟩ := Fallible.bind_eq_ok.1 h
  obtain ⟨_, _, h⟩ := Fallible.bind_eq_ok.1 h
  obtain ⟨_, _, h⟩ := Fallible.bind_eq_ok.1 h
  obtain ⟨n, _, h⟩ := Fallible.bind_eq_ok.1 h
  obtain ⟨tx₁, hadv, h⟩ := Fallible.bind_eq_ok.1 h
  cases h
  exact logsLasting_of _ _ (by rw [changes_advanceSerial hadv]; rfl) (fun c hc => .inl (operation_of_mem_zoneChangesFor hc))
    fun c hc => .inl (operation_of_mem_zoneChangesFor hc)

end Transactions

/-! ### Dynamic updates -/

section Updates

variable [Crates]

/-- The row an UPDATE operation adds to a zone. -/
def UpdateOp.candidate (zone : ZoneName) : UpdateOp → Option RecordData
  | .add name t value ttl priority =>
      match ownerInZone name zone, updateValue t value priority with
      | .ok owner, .ok stored => some ⟨owner, t, stored, ttl, priority⟩
      | _, _ => none
  | _ => none

/-- Whether an UPDATE operation deletes a row of a zone. -/
def UpdateOp.selects (zone : ZoneName) (r : Record) : UpdateOp → Bool
  | .add .. => false
  | .deleteRrset name t =>
      match ownerInZone name zone with
      | .ok owner => deleteSelects owner t none none r
      | .error _ => false
  | .deleteRr name t value priority =>
      match ownerInZone name zone with
      | .ok owner => deleteSelects owner (some t) (some value) priority r
      | .error _ => false

/-- Whether an UPDATE operation deletes the row that an earlier one adds. -/
def UpdateOp.undoes (zone : ZoneName) (op earlier : UpdateOp) : Bool :=
  match earlier.candidate zone with
  | some x => op.selects zone ⟨x, 0⟩
  | none => false

variable {tx tx' : Tx} {zone : Zone} {n : ℤ} {changed : Bool}

theorem applyOp_logs {op : UpdateOp} (h : applyOp zone n op tx = .ok (tx', changed)) :
    ∃ cs, tx'.store.changes = tx.store.changes ++ cs ∧
      ((∀ c ∈ cs, c.operation = .add ∧ op.candidate zone.name = some c.record) ∨
        ∀ c ∈ cs, c.operation = .del ∧ op.selects zone.name ⟨c.record, 0⟩ = true) := by
  have hdelete : ∀ {name t value priority}, deleteMatching zone n name t value priority tx = .ok (tx', changed) →
      ∃ cs owner, ownerInZone name zone.name = .ok owner ∧ tx'.store.changes = tx.store.changes ++ cs ∧
        ∀ c ∈ cs, c.operation = .del ∧ deleteSelects owner t value priority ⟨c.record, 0⟩ = true := by
    intro name t value priority h
    obtain ⟨owner, howner, h⟩ := Fallible.bind_eq_ok.1 h
    simp only at h
    split at h
    · cases h
      exact ⟨[], owner, howner, by simp, by simp⟩
    · obtain ⟨_, _, h⟩ := Fallible.bind_eq_ok.1 h
      cases h
      refine ⟨_, owner, howner, rfl, fun c hc => ⟨operation_of_mem_zoneChangesFor hc, ?_⟩⟩
      obtain ⟨r, hr, e⟩ := List.mem_map.1 (mem_zoneChangesFor hc)
      rw [← e]
      exact (List.mem_filter.1 hr).2
  cases op with
  | deleteRrset name t =>
      obtain ⟨cs, owner, howner, hcs, hall⟩ := hdelete h
      exact ⟨cs, hcs, .inr fun c hc => ⟨(hall c hc).1, by rw [UpdateOp.selects, howner]; exact (hall c hc).2⟩⟩
  | deleteRr name t value priority =>
      obtain ⟨cs, owner, howner, hcs, hall⟩ := hdelete h
      exact ⟨cs, hcs, .inr fun c hc => ⟨(hall c hc).1, by rw [UpdateOp.selects, howner]; exact (hall c hc).2⟩⟩
  | add name t value ttl priority =>
      obtain ⟨owner, howner, h⟩ := Fallible.bind_eq_ok.1 h
      obtain ⟨stored, hstored, h⟩ := Fallible.bind_eq_ok.1 h
      obtain ⟨outcome, _, h⟩ := Fallible.bind_eq_ok.1 h
      cases outcome with
      | duplicate =>
          cases h
          exact ⟨[], by simp, .inl (by simp)⟩
      | new =>
          cases h
          refine ⟨_, rfl, .inl fun c hc => ⟨operation_of_mem_zoneChangesFor hc, ?_⟩⟩
          rw [List.mem_singleton.1 (mem_zoneChangesFor hc), UpdateOp.candidate, howner, hstored]

/-- Operations of which none deletes what an earlier one adds log no such deletion. -/
theorem applyOps_logs {ops : List UpdateOp} (hops : ops.Pairwise fun a d => d.undoes zone.name a = false)
    (h : applyOps zone n ops tx = .ok (tx', changed)) :
    ∃ cs, tx'.store.changes = tx.store.changes ++ cs ∧ Lasting (recordLog cs) ∧
      ∀ c ∈ cs, c.operation = .del → ∃ op ∈ ops, op.selects zone.name ⟨c.record, 0⟩ = true := by
  induction ops generalizing tx tx' changed with
  | nil =>
      cases h
      exact ⟨[], by simp, List.Pairwise.nil, by simp⟩
  | cons op ops ih =>
      obtain ⟨hop, hops⟩ := List.pairwise_cons.1 hops
      obtain ⟨⟨tx₁, changed₁⟩, h1, h⟩ := Fallible.bind_eq_ok.1 h
      obtain ⟨⟨tx₂, changed₂⟩, h2, h⟩ := Fallible.bind_eq_ok.1 h
      cases h
      obtain ⟨cs₁, hcs₁, hlog₁⟩ := applyOp_logs h1
      obtain ⟨cs₂, hcs₂, hlast₂, hdel₂⟩ := ih hops h2
      refine ⟨cs₁ ++ cs₂, by rw [hcs₂, hcs₁, List.append_assoc], ?_, fun c hc hdel => ?_⟩
      · rw [recordLog_append]
        refine List.pairwise_append.2 ⟨?_, hlast₂, ?_⟩
        · rcases hlog₁ with hlog₁ | hlog₁
          · refine Journal.lasting_append [] _ (by simp) fun x hx => ?_
            obtain ⟨c, hc, hdel, -⟩ := del_mem_recordLog.1 hx
            rw [(hlog₁ c hc).1] at hdel
            cases hdel
          · rw [← List.append_nil (recordLog cs₁)]
            refine Journal.lasting_append _ [] (fun x hx => ?_) (by simp)
            obtain ⟨c, hc, hadd, -⟩ := add_mem_recordLog.1 hx
            rw [(hlog₁ c hc).1] at hadd
            cases hadd
        · rintro _ hadded _ hdeleted x rfl rfl
          obtain ⟨c, hc, hadd, rfl, -⟩ := add_mem_recordLog.1 hadded
          obtain ⟨d, hd, hdel, e, -⟩ := del_mem_recordLog.1 hdeleted
          obtain ⟨op', hop', hselects⟩ := hdel₂ d hd hdel
          rcases hlog₁ with hlog₁ | hlog₁
          · have hundoes := hop op' hop'
            rw [UpdateOp.undoes, (hlog₁ c hc).2] at hundoes
            simp only at hundoes
            rw [e, hundoes] at hselects
            cases hselects
          · rw [(hlog₁ c hc).1] at hadd
            cases hadd
      · rcases List.mem_append.1 hc with hc | hc
        · rcases hlog₁ with hlog₁ | hlog₁
          · rw [(hlog₁ c hc).1] at hdel
            cases hdel
          · exact ⟨op, List.mem_cons_self, (hlog₁ c hc).2⟩
        · obtain ⟨op', hop', hselects⟩ := hdel₂ c hc hdel
          exact ⟨op', List.mem_cons_of_mem _ hop', hselects⟩

end Updates

/-! ### Every operation -/

section Steady

variable [Crates]

/-- An operation that deletes nothing it added under the same serial, and renames no zone. -/
structure Op.Steady (op : Op) : Prop where
  update : ∀ u zone, op = .applyUpdate u → normalizeZoneName u.zoneName = .ok zone →
    u.updates.Pairwise fun a d => d.undoes zone a = false
  name : ∀ zoneName build, op.build = some (zoneName, build) → ∀ z : Zone, normalizeZoneName zoneName = .ok z.name →
    ∀ n, normalizeZoneName (build z).name = .ok n → n = z.name

variable {db : Db} {op : Op} {tx tx' : Tx}

theorem importTx_logs {request : ImportZoneFileRequest} {response : ImportZoneFileResponse}
    (h : importTx request tx = .ok (tx', response)) : LogsLasting tx.store tx'.store := by
  obtain ⟨n, addErrors, hnorm, hresp, hout⟩ := importTx_cases h
  rcases hout with ⟨_, _, happly⟩ | ⟨_, rfl⟩
  · obtain ⟨s, _, hadv⟩ := Fallible.bind_eq_ok.1 happly
    exact logsLasting_replace hadv
  · exact .refl _

theorem applyUpdateTx_logs {policies : List ZonePolicy} {update : DynamicUpdate} {changed : Bool}
    (hupdate : update.updates.Pairwise fun a d => d.undoes tx.store.zone.name a = false)
    (h : applyUpdateTx policies update tx = .ok (tx', changed)) : LogsLasting tx.store tx'.store := by
  obtain ⟨_, _, h⟩ := Fallible.bind_eq_ok.1 h
  obtain ⟨_, _, h⟩ := Fallible.bind_eq_ok.1 h
  obtain ⟨n, _, h⟩ := Fallible.bind_eq_ok.1 h
  obtain ⟨⟨tx₁, changed₁⟩, hops, h⟩ := Fallible.bind_eq_ok.1 h
  obtain ⟨cs, hcs, hlast, -⟩ := applyOps_logs hupdate hops
  cases changed₁ with
  | false =>
      cases h
      exact ⟨cs, hcs, hlast⟩
  | true =>
      simp only [if_true] at h
      obtain ⟨tx₂, hadv, h⟩ := Fallible.bind_eq_ok.1 h
      cases h
      exact ⟨cs, by rw [changes_advanceSerial (Fallible.mapError_eq_ok.1 hadv), hcs], hlast⟩

theorem Ran.logsLasting (hop : op.Steady) (h : Ran db op tx tx') : LogsLasting tx.store tx'.store := by
  cases h with
  | zone hbuild hzone h => exact updateZoneTx_logs h
  | forceIncrementSerial e h => exact forceIncrementSerialTx_logs h
  | createRecord e hp h => exact createRecordTx_logs h
  | createBulk e hp h => exact createBulkTx_logs h
  | updateById e h => exact updateLockedTx_logs h
  | patchById e h => exact updateLockedTx_logs h
  | deleteById e h => exact deleteByIdTx_logs h
  | importZoneFile e h => exact importTx_logs h
  | applyUpdate e hname h => exact applyUpdateTx_logs (hop.update _ _ e hname) h
  | applyChanges e hpending hgrouped hops h => exact applyZoneOpsTx_logs h
  | rollback e hzone h => exact rollbackTx_logs h

theorem Ran.name_eq (hok : TxOk tx) (hop : op.Steady) (h : Ran db op tx tx') :
    tx'.store.zone.name = tx.store.zone.name := by
  rcases h.wrote hok with rfl | ⟨-, hmoves, -⟩
  · rfl
  cases hmoves with
  | serial hw hname httl => exact hname
  | updated hbuild hzone hv hname httl =>
      rw [hname]
      exact hop.name _ _ hbuild _ hzone _ (validateCreateZoneRequest_name hv)
  | restored e hzone hsn hserial hname httl => exact hname

/-! ### Histories -/

/-- One commit of a zone that keeps its name and undoes nothing it logs. -/
def Steadily (st st' : ZoneStore) : Prop :=
  ∃ cs, Advances cs st st' ∧ Lasting (recordLog cs) ∧ st'.zone.name = st.zone.name

/-- What a steady operation does to a zone that was there. -/
theorem execute_steadily {db' : Db} (hdb : DbOk db) (hop : op.Steady) (h : execute db op = some db') {st₁ st : ZoneStore}
    {cs : List ZoneChange} (hst₁ : st₁ ∈ db.stores) (hst : st ∈ db'.stores) (ha : Advances cs st₁ st) : Steadily st₁ st := by
  cases execute_cameBy hdb h st hst with
  | kept hst =>
      obtain rfl := hdb.eq_of_id_eq hst hst₁ ha.id
      have := ha.serial
      omega
  | created e h hc =>
      have h1 := hdb.zoneIdLt st₁ hst₁
      have h2 := hc.id
      have h3 := ha.id
      omega
  | ran tx tx' htx hok hran e =>
      subst e
      have hid : tx'.store.zone.id = tx.store.zone.id := by
        rcases hran.wrote hok with rfl | ⟨hid, -⟩
        · rfl
        · exact hid
      obtain rfl := hdb.eq_of_id_eq hst₁ htx (ha.id.symm.trans hid)
      obtain ⟨cs', hcs', hlast⟩ := hran.logsLasting hop
      obtain rfl := List.append_cancel_left (hcs'.symm.trans ha.changes)
      exact ⟨_, ha, hlast, hran.name_eq hok hop⟩

/-- **Steady histories.**  In a history of steady operations a zone gets from one state to a later one by commits that
keep its name and undo nothing they log. -/
theorem run_steadily {pre ops : List Op} (hpre : pre <+: ops) (hops : ∀ op ∈ ops, op.Steady) {st₀ st : ZoneStore}
    (h₀ : st₀ ∈ (run pre).stores) (h : st ∈ (run ops).stores) (hid : st₀.zone.id = st.zone.id) :
    Relation.ReflTransGen Steadily st₀ st := by
  obtain ⟨more, rfl⟩ := hpre
  induction more using List.reverseRecOn generalizing st with
  | nil =>
      rw [List.append_nil] at h
      rw [(run_ok pre).eq_of_id_eq h₀ h hid]
  | append_singleton more op ih =>
      have hsteady : ∀ op ∈ pre ++ more, op.Steady := fun op hop => hops op (by
        rw [← List.append_assoc]
        exact List.mem_append_left _ hop)
      rw [← List.append_assoc, run_concat, step] at h
      cases hex : execute (run (pre ++ more)) op with
      | none =>
          rw [hex] at h
          exact ih hid hsteady h
      | some db' =>
          rw [hex] at h
          cases (execute_step (run_ok _) hex).came st h with
          | kept hst => exact ih hid hsteady hst
          | advanced st₁ cs hst₁ ha =>
              exact (ih (hid.trans ha.id) hsteady hst₁).tail (execute_steadily (run_ok _) (hops op (by simp)) hex hst₁ h ha)
          | created db'' hc =>
              -- a new zone has an id no zone had before
              have h1 := (run_ok pre).zoneIdLt st₀ h₀
              have h2 := run_nextZoneId_le pre more
              have h3 := hc.id
              omega

end Steady

end Bindizr
