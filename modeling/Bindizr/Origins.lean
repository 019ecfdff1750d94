import Bindizr.ImportModes

/-! # Where rows come from

Every row an operation writes, to the table or to the log, is a row that was there or has one
of a few origins (`Origin`): a record of the request, put at the owner its name denotes in the
zone; a record of the file; an apex NS or SOA of the zone; a row of the log that a rollback
brings back.  An invariant on rows over whole runs then needs one case for each origin
(`execute_wrote`, `run_rowsWhere`). -/

namespace Bindizr

/-! ### Rows added -/

/-- The rows of `st'`, in the table and in the log, were there in `st` or satisfy `W`. -/
structure Adds (W : RecordData → Prop) (st st' : ZoneStore) : Prop where
  records : ∀ r ∈ st'.records, r ∈ st.records ∨ W r.toRecordData
  changes : ∀ c ∈ st'.changes, c ∈ st.changes ∨ c.record ∈ st.liveRecords ∨ W c.record

namespace Adds

variable {W W' : RecordData → Prop} {st st' st'' : ZoneStore} {tx tx' : Tx} {n : ℤ}

theorem of_eq (hr : st'.records = st.records) (hc : st'.changes = st.changes) : Adds W st st' :=
  ⟨fun _ h => .inl (hr ▸ h), fun _ h => .inl (hc ▸ h)⟩

theorem refl (st : ZoneStore) : Adds W st st := of_eq rfl rfl

theorem mono (h : Adds W st st') (hw : ∀ x, W x → W' x) : Adds W' st st' :=
  ⟨fun r hr => (h.records r hr).imp_right (hw _), fun c hc => (h.changes c hc).imp_right (Or.imp_right (hw _))⟩

theorem trans (h : Adds W st st') (h' : Adds W st' st'') : Adds W st st'' := by
  refine ⟨fun r hr => ?_, fun c hc => ?_⟩
  · rcases h'.records r hr with hr | hw
    · exact h.records r hr
    · exact .inr hw
  · rcases h'.changes c hc with hc | hlive | hw
    · exact h.changes c hc
    · obtain ⟨r, hr, e⟩ := List.mem_map.1 hlive
      rcases h.records r hr with hr | hw
      · exact .inr (.inl (e ▸ List.mem_map_of_mem hr))
      · exact .inr (.inr (e ▸ hw))
    · exact .inr (.inr hw)

theorem insert {rs : List RecordData} (h : ∀ x ∈ rs, W x) :
    Adds W tx.store (tx.insertRecordsWithChanges n rs).store := by
  refine ⟨fun r hr => ?_, fun c hc => ?_⟩
  · rcases List.mem_append.1 hr with hr | hr
    · exact .inl hr
    · exact .inr (h _ (mem_numbered hr).1)
  · rcases List.mem_append.1 hc with hc | hc
    · exact .inl hc
    · exact .inr (.inr (h _ (mem_zoneChangesFor hc)))

theorem delete {rs : List Record} (hsub : ∀ r ∈ rs, r ∈ tx.store.records) :
    Adds W tx.store (tx.deleteRecordsWithChanges n rs).store := by
  refine ⟨fun r hr => .inl (List.mem_of_mem_filter hr), fun c hc => ?_⟩
  rcases List.mem_append.1 hc with hc | hc
  · exact .inl hc
  · obtain ⟨r, hr, e⟩ := List.mem_map.1 (mem_zoneChangesFor hc)
    exact .inr (.inl (e ▸ List.mem_map_of_mem (hsub r hr)))

theorem createZoneChanges {cs : List ZoneChange} (h : ∀ c ∈ cs, W c.record) :
    Adds W tx.store (tx.createZoneChanges cs).store := by
  refine ⟨fun r hr => .inl hr, fun c hc => ?_⟩
  exact (List.mem_append.1 hc).imp_right fun hc => .inr (h c hc)

theorem updateZone (zone : Zone) : Adds W tx.store (tx.updateZone zone).store := of_eq rfl rfl

theorem saveSnapshot {zone : Zone} (h : tx.saveSnapshot zone n = .ok tx') : Adds W tx.store tx'.store := by
  obtain ⟨_, _, h⟩ := Fallible.bind_eq_ok.1 h
  cases h
  exact of_eq rfl rfl

theorem advanceSerial {zone : Zone} (h : tx.advanceSerial zone n = .ok tx') : Adds W tx.store tx'.store := by
  obtain ⟨_, _, h⟩ := Fallible.bind_eq_ok.1 h
  cases h
  exact of_eq rfl rfl

end Adds

/-! ### Origins -/

section Origins

variable [Crates]

/-- The record items a request writes, each with all its fields. -/
def Op.items : Op → List RecordItem
  | .createRecord _ request => [request.toRecordItem]
  | .createBulk _ _ items dryRun => if dryRun then [] else items
  | .updateById _ _ _ request => [request]
  | _ => []

/-- Whether an operation may write rows of its own: the apex NS and the SOA of the zone. -/
def Op.writesZone : Op → Bool
  | .updateZone _ _ _ | .patchZone _ _ _ | .rollback _ _ _ _ _ => true
  | _ => false

/-- Where a row an operation writes comes from, in a zone that was in state `st` and whose row is
now `zone`. -/
inductive Origin (op : Op) (st : ZoneStore) (zone : Zone) : RecordData → Prop
  | item {item : RecordItem} {p : PreparedRecord} {owner : OwnerName} : item ∈ op.items →
      prepareRecord item = .ok p → normalizeRecordOwnerName p.ownerName st.zone.name = .ok owner →
      Origin op st zone (p.toData owner st.zone)
  | patch {caller : Caller} {id : ℕ} {zoneId : Option ℕ} {patch : UpdateRecordPatch} {existing : Record}
      {x : RecordData} : op = .patchById caller id zoneId patch → existing ∈ st.records →
      resolvePatch patch st.zone existing = .ok x → Origin op st zone x
  | file {caller : Caller} {zoneName : Text} {request : ImportZoneFileRequest} {x : RecordData} :
      op = .importZoneFile caller zoneName request → x ∈ fileRecords request.content st.zone →
      Origin op st zone x
  | update {u : DynamicUpdate} {name : Text} {t : RecordType} {value stored : Text} {ttl : ℤ}
      {priority : Option ℤ} {owner : OwnerName} : op = .applyUpdate u →
      .add name t value ttl priority ∈ u.updates → ownerInZone name st.zone.name = .ok owner →
      updateValue t value priority = .ok stored → Origin op st zone ⟨owner, t, stored, ttl, priority⟩
  | rrset {caller : Caller} {zones : List ZoneName} {request : ExternalDnsChangesRequest}
      {pending : List PendingOp} {p : PendingOp} {owner : OwnerName} {value : Text} :
      op = .applyChanges caller zones request → convertRequest request = .ok pending → p ∈ pending →
      OwnerName.parseAbsoluteInZone p.op.name st.zone.name = .ok owner → value ∈ p.op.values →
      Origin op st zone ⟨owner, p.op.recordType, value, p.op.ttl.getD st.zone.ttl, none⟩
  | primaryNs {ttl : ℤ} : op.writesZone = true →
      (ttl = zone.ttl ∨ (∃ r ∈ st.records, ttl = r.ttl) ∨ ∃ c ∈ st.changes, ttl = c.record.ttl) →
      Origin op st zone (zone.primaryNsRecord ttl)
  | soa {x : RecordData} : op.writesZone = true → x.recordType = .soa → x.name = .apex →
      x.ttl = st.zone.ttl ∨ x.ttl = zone.ttl → Origin op st zone x
  | restored {caller : Caller} {hash : HashOrder} {zoneName : Text} {serial : ℤ} {dryRun : Bool}
      {x : RecordData} : op = .rollback caller hash zoneName serial dryRun →
      x ∈ st.reconstructRecordsAtSerial serial st.zone.serial → Origin op st zone x

variable {caller : Caller} {policies : List ZonePolicy} {tx tx' : Tx}

/-! ### Record operations -/

theorem createRecordTx_adds {request : CreateRecordRequest} {prepared : PreparedRecord} {r : Record} {zone : Zone}
    (hp : prepareRecord request.toRecordItem = .ok prepared)
    (h : createRecordTx caller policies request.toRecordItem prepared tx = .ok (tx', r)) :
    Adds (Origin (.createRecord caller request) tx.store zone) tx.store tx'.store := by
  obtain ⟨owner, howner, h⟩ := Fallible.bind_eq_ok.1 h
  obtain ⟨_, _, h⟩ := Fallible.bind_eq_ok.1 h
  obtain ⟨_, _, h⟩ := Fallible.bind_eq_ok.1 h
  obtain ⟨n, _, h⟩ := Fallible.bind_eq_ok.1 h
  obtain ⟨tx₁, hadv, h⟩ := Fallible.bind_eq_ok.1 h
  cases h
  refine (Adds.insert fun x hx => ?_).trans (.advanceSerial hadv)
  obtain rfl := List.mem_singleton.1 hx
  have hname : prepared.ownerName = request.toRecordItem.name := by
    obtain ⟨_, _, hp⟩ := Fallible.bind_eq_ok.1 hp
    obtain ⟨_, _, hp⟩ := Fallible.bind_eq_ok.1 hp
    cases hp
    rfl
  exact .item (by simp [Op.items]) hp (hname ▸ howner)

omit [Crates] in
theorem mem_validateBulk {zone : Zone} {indexed : List Record} {ps : List PreparedRecord} {rs : List RecordData}
    (h : validateBulk zone indexed ps = .ok rs) {x : RecordData} (hx : x ∈ rs) :
    ∃ p ∈ ps, ∃ owner, normalizeRecordOwnerName p.ownerName zone.name = .ok owner ∧ x = p.toData owner zone := by
  induction ps generalizing indexed rs with
  | nil =>
      cases h
      cases hx
  | cons p ps ih =>
      obtain ⟨owner, howner, h⟩ := Fallible.bind_eq_ok.1 h
      obtain ⟨_, _, h⟩ := Fallible.bind_eq_ok.1 h
      obtain ⟨rest, hrest, h⟩ := Fallible.bind_eq_ok.1 h
      cases h
      rcases List.mem_cons.1 hx with rfl | hx
      · exact ⟨p, by simp, owner, howner, rfl⟩
      · obtain ⟨q, hq, hrow⟩ := ih hrest hx
        exact ⟨q, by simp [hq], hrow⟩

theorem createBulkTx_adds {zoneName : Text} {items : List RecordItem} {prepared : List PreparedRecord}
    {dryRun : Bool} {rs : List Record} {zone : Zone} (hp : items.mapM prepareRecord = .ok prepared)
    (h : createBulkTx caller policies prepared dryRun tx = .ok (tx', rs)) :
    Adds (Origin (.createBulk caller zoneName items dryRun) tx.store zone) tx.store tx'.store := by
  obtain ⟨s, hs, h⟩ := Fallible.bind_eq_ok.1 h
  obtain ⟨-, -, -, hval⟩ := bulkSteps_eq_ok.1 hs
  split at h
  · cases h
    exact .refl _
  · rename_i hdry
    obtain ⟨tx₁, hadv, h⟩ := Fallible.bind_eq_ok.1 h
    cases h
    refine (Adds.insert fun x hx => ?_).trans (.advanceSerial hadv)
    obtain ⟨p, hp', owner, howner, rfl⟩ := mem_validateBulk hval hx
    obtain ⟨item, hitem, hprep⟩ := Fallible.mem_of_mapM hp hp'
    exact .item (by simp [Op.items, hdry, hitem]) hprep howner

omit [Crates] in
theorem updateLockedTx_adds {id : ℕ} {resolve : ResolveUpdate} {r : Record}
    (h : updateLockedTx caller policies id resolve tx = .ok (tx', r)) :
    Adds (fun x => ∃ existing ∈ tx.store.records, resolve tx.store.zone existing = .ok x) tx.store tx'.store := by
  obtain ⟨existing, hload, h⟩ := Fallible.bind_eq_ok.1 h
  obtain ⟨resolved, hres, h⟩ := Fallible.bind_eq_ok.1 h
  obtain ⟨_, _, h⟩ := Fallible.bind_eq_ok.1 h
  obtain ⟨_, _, h⟩ := Fallible.bind_eq_ok.1 h
  obtain ⟨n, _, h⟩ := Fallible.bind_eq_ok.1 h
  obtain ⟨tx₁, hadv, h⟩ := Fallible.bind_eq_ok.1 h
  cases h
  have hex := (loadRecord_eq_ok hload).1
  refine Adds.trans ⟨fun r hr => ?_, fun c hc => ?_⟩ (.advanceSerial hadv)
  · obtain ⟨s, hs, rfl⟩ := List.mem_map.1 hr
    split
    · exact .inr ⟨existing, hex, hres⟩
    · exact .inl hs
  · rcases List.mem_append.1 hc with hc | hc
    · exact .inl hc
    · rcases List.mem_append.1 hc with hc | hc
      · refine .inr (.inl ?_)
        rw [List.mem_singleton.1 (mem_zoneChangesFor hc)]
        exact List.mem_map_of_mem hex
      · refine .inr (.inr ?_)
        rw [List.mem_singleton.1 (mem_zoneChangesFor hc)]
        exact ⟨existing, hex, hres⟩

omit [Crates] in
theorem deleteByIdTx_adds {W : RecordData → Prop} {id : ℕ}
    (h : deleteByIdTx caller policies id tx = .ok (tx', ())) : Adds W tx.store tx'.store := by
  obtain ⟨existing, hload, h⟩ := Fallible.bind_eq_ok.1 h
  obtain ⟨_, _, h⟩ := Fallible.bind_eq_ok.1 h
  obtain ⟨n, _, h⟩ := Fallible.bind_eq_ok.1 h
  obtain ⟨_, _, h⟩ := Fallible.bind_eq_ok.1 h
  obtain ⟨tx₁, hadv, h⟩ := Fallible.bind_eq_ok.1 h
  cases h
  refine (Adds.delete fun r hr => ?_).trans (.advanceSerial hadv)
  rw [List.mem_singleton.1 hr]
  exact (loadRecord_eq_ok hload).1

theorem importTx_adds {request : ImportZoneFileRequest} {response : ImportZoneFileResponse} {zone : Zone}
    {zoneName : Text} (hok : TxOk tx) (h : importTx request tx = .ok (tx', response)) :
    Adds (Origin (.importZoneFile caller zoneName request) tx.store zone) tx.store tx'.store := by
  obtain ⟨n, addErrors, hnorm, hresp, hout⟩ := importTx_cases h
  rcases hout with ⟨happ, _, happly⟩ | ⟨_, rfl⟩
  · have hn : n.errors = [] := by
      subst hresp
      simp only [Bool.and_eq_true, List.isEmpty_iff, List.append_eq_nil_iff] at happ
      exact happ.1.1
    obtain ⟨s, _, hadv⟩ := Fallible.bind_eq_ok.1 happly
    have hdels : Adds (Origin (.importZoneFile caller zoneName request) tx.store zone) tx.store
        (tx.deleteRecordsWithChanges s ((importPlan request.mode n.desired tx).dels ++
          (importPlan request.mode n.desired tx).ttlDels)).store := by
      refine .delete fun r hr => ?_
      rcases List.mem_append.1 hr with hr | hr
      · exact ((mem_dels hok).1 hr).1
      · exact (mem_ttlDels.1 hr).2.1
    refine (hdels.trans (.insert fun x hx => ?_)).trans (.advanceSerial hadv)
    obtain ⟨d, hd, rfl⟩ := List.mem_map.1 hx
    exact .file rfl ((desires_of_normalizeParsed hnorm hn).fromFile d (mem_adds.1 hd).1)
  · exact .refl _

/-! ### Dynamic updates -/

theorem applyOp_adds {zone zone' : Zone} {n : ℤ} {update : DynamicUpdate} {op : UpdateOp} {changed : Bool}
    {st : ZoneStore} (hzone : zone.name = st.zone.name) (hop : op ∈ update.updates)
    (h : applyOp zone n op tx = .ok (tx', changed)) :
    Adds (Origin (.applyUpdate update) st zone') tx.store tx'.store := by
  have hdelete : ∀ {name t value priority}, deleteMatching zone n name t value priority tx = .ok (tx', changed) →
      Adds (Origin (.applyUpdate update) st zone') tx.store tx'.store := by
    intro name t value priority h
    obtain ⟨owner, _, h⟩ := Fallible.bind_eq_ok.1 h
    simp only at h
    split at h
    · cases h
      exact .refl _
    · obtain ⟨_, _, h⟩ := Fallible.bind_eq_ok.1 h
      cases h
      exact .delete fun r hr => List.mem_of_mem_filter hr
  cases op with
  | deleteRrset name t => exact hdelete h
  | deleteRr name t value priority => exact hdelete h
  | add name t value ttl priority =>
      obtain ⟨owner, howner, h⟩ := Fallible.bind_eq_ok.1 h
      obtain ⟨stored, hstored, h⟩ := Fallible.bind_eq_ok.1 h
      obtain ⟨outcome, _, h⟩ := Fallible.bind_eq_ok.1 h
      cases outcome with
      | duplicate =>
          cases h
          exact .refl _
      | new =>
          cases h
          refine .insert fun x hx => ?_
          obtain rfl := List.mem_singleton.1 hx
          exact .update rfl hop (hzone ▸ howner) hstored

theorem applyOps_adds {zone zone' : Zone} {n : ℤ} {update : DynamicUpdate} {ops : List UpdateOp} {changed : Bool}
    {st : ZoneStore} (hzone : zone.name = st.zone.name) (hops : ∀ op ∈ ops, op ∈ update.updates)
    (h : applyOps zone n ops tx = .ok (tx', changed)) :
    Adds (Origin (.applyUpdate update) st zone') tx.store tx'.store := by
  induction ops generalizing tx tx' changed with
  | nil =>
      cases h
      exact .refl _
  | cons op ops ih =>
      obtain ⟨⟨tx₁, changed₁⟩, h1, h⟩ := Fallible.bind_eq_ok.1 h
      obtain ⟨⟨tx₂, changed₂⟩, h2, h⟩ := Fallible.bind_eq_ok.1 h
      cases h
      exact (applyOp_adds hzone (hops op (by simp)) h1).trans (ih (fun o ho => hops o (by simp [ho])) h2)

theorem applyUpdateTx_adds {update : DynamicUpdate} {changed : Bool} {zone : Zone}
    (h : applyUpdateTx policies update tx = .ok (tx', changed)) :
    Adds (Origin (.applyUpdate update) tx.store zone) tx.store tx'.store := by
  obtain ⟨_, _, h⟩ := Fallible.bind_eq_ok.1 h
  obtain ⟨_, _, h⟩ := Fallible.bind_eq_ok.1 h
  obtain ⟨n, _, h⟩ := Fallible.bind_eq_ok.1 h
  obtain ⟨⟨tx₁, changed₁⟩, hops, h⟩ := Fallible.bind_eq_ok.1 h
  have hadds : Adds (Origin (.applyUpdate update) tx.store zone) tx.store tx₁.store :=
    applyOps_adds rfl (fun op hop => hop) hops
  cases changed₁ with
  | false =>
      cases h
      exact hadds
  | true =>
      simp only [if_true] at h
      obtain ⟨tx₂, hadv, h⟩ := Fallible.bind_eq_ok.1 h
      cases h
      exact hadds.trans (.advanceSerial (Fallible.mapError_eq_ok.1 hadv))

/-! ### ExternalDNS change sets -/

omit [Crates] in
theorem mem_computeCreates {zone : Zone} {existing : List Record} {adds : List ZoneRrsetOp}
    {deletes : List Record} {c : RecordData} (hc : c ∈ (computeCreates zone existing adds deletes).creates) :
    ∃ op ∈ adds, ∃ value ∈ op.values, c = ⟨op.name, op.recordType, value, op.ttl.getD zone.ttl, none⟩ := by
  let Ok (cs : ZoneChangeSet) : Prop := ∀ c ∈ cs.creates, ∃ op ∈ adds, ∃ value ∈ op.values,
    c = ⟨op.name, op.recordType, value, op.ttl.getD zone.ttl, none⟩
  have hok : Ok (computeCreates zone existing adds deletes) := by
    refine List.foldlRecOn (motive := Ok) adds _ (by simp [Ok]) fun acc h add hadd => ?_
    refine List.foldlRecOn (motive := Ok) add.values _ h fun acc h value hvalue => ?_
    unfold createValue
    simp only
    split
    · exact h
    · split
      · exact h
      · split
        · exact h
        · intro c hc
          rcases List.mem_append.1 hc with hc | hc
          · exact h c hc
          · exact ⟨add, hadd, value, hvalue, List.mem_singleton.1 hc⟩
  exact hok c hc

omit [Crates] in
theorem applyZoneOpsTx_adds {W : RecordData → Prop} {ops : ZoneOps} {cs : ZoneChangeSet}
    (hW : ∀ op ∈ ops.adds, ∀ value ∈ op.values,
      W ⟨op.name, op.recordType, value, op.ttl.getD tx.store.zone.ttl, none⟩)
    (h : applyZoneOpsTx caller policies ops tx = .ok (tx', cs)) : Adds W tx.store tx'.store := by
  obtain ⟨_, _, h⟩ := Fallible.bind_eq_ok.1 h
  obtain ⟨cs', hcs, h⟩ := Fallible.bind_eq_ok.1 h
  split at h
  · cases h
    exact .refl _
  obtain ⟨n, _, h⟩ := Fallible.bind_eq_ok.1 h
  obtain ⟨tx₁, hadv, h⟩ := Fallible.bind_eq_ok.1 h
  cases h
  obtain ⟨_, _, hcs⟩ := Fallible.bind_eq_ok.1 hcs
  cases hcs
  refine ((Adds.delete fun r hr => ?_).trans (.insert fun x hx => ?_)).trans (.advanceSerial hadv)
  · have hmem := (computeCreates_ok _ _ _ _).1.subset hr
    exact List.mem_of_mem_filter ((computeDeletes_ok _ _).1 r hmem).1
  · obtain ⟨op, hop, value, hvalue, rfl⟩ := mem_computeCreates hx
    exact hW op hop value hvalue

/-- An operation of a zone comes from one of the request, at the owner its name denotes there. -/
def FromPending (pending : List PendingOp) (entry : ZoneName × ZoneOps) : Prop :=
  ∀ op ∈ entry.2.adds, ∃ p ∈ pending, OwnerName.parseAbsoluteInZone p.op.name entry.1 = .ok op.name ∧
    op = ⟨op.name, p.op.recordType, p.op.ttl, p.op.values⟩

omit [Crates] in
theorem FromPending.push {pending : List PendingOp} {zone : ZoneName} {ops : ZoneOps} {isDelete : Bool}
    {p : PendingOp} {name : OwnerName} (h : FromPending pending (zone, ops)) (hp : p ∈ pending)
    (hname : OwnerName.parseAbsoluteInZone p.op.name zone = .ok name) :
    FromPending pending (zone, ops.push isDelete ⟨name, p.op.recordType, p.op.ttl, p.op.values⟩) := by
  intro op hop
  unfold ZoneOps.push at hop
  split at hop
  · exact h op hop
  · rcases List.mem_append.1 hop with hop | hop
    · exact h op hop
    · obtain rfl := List.mem_singleton.1 hop
      exact ⟨p, hp, hname, rfl⟩

omit [Crates] in
theorem fromPending_pushOp {pending : List PendingOp} {zone : ZoneName} {isDelete : Bool} {p : PendingOp}
    {name : OwnerName} {grouped : List (ZoneName × ZoneOps)} (h : ∀ e ∈ grouped, FromPending pending e)
    (hp : p ∈ pending) (hname : OwnerName.parseAbsoluteInZone p.op.name zone = .ok name) :
    ∀ e ∈ pushOp zone isDelete ⟨name, p.op.recordType, p.op.ttl, p.op.values⟩ grouped,
      FromPending pending e := by
  have hnew : FromPending pending (zone, (ZoneOps.mk [] []).push isDelete
      ⟨name, p.op.recordType, p.op.ttl, p.op.values⟩) :=
    FromPending.push (fun op hop => by cases hop) hp hname
  induction grouped with
  | nil => simpa [pushOp] using hnew
  | cons f rest ih =>
      intro e he
      rw [pushOp] at he
      split at he
      · rename_i hz
        rcases List.mem_cons.1 he with rfl | he
        · exact FromPending.push (h f (by simp)) hp (hz ▸ hname)
        · exact h e (by simp [he])
      · split at he
        · rcases List.mem_cons.1 he with rfl | he
          · exact hnew
          · exact h e he
        · rcases List.mem_cons.1 he with rfl | he
          · exact h _ (by simp)
          · exact ih (fun e he => h e (by simp [he])) e he

omit [Crates] in
theorem groupOpsByZone_fromPending {zones : List ZoneName} {ops : List PendingOp}
    {grouped : List (ZoneName × ZoneOps)} (h : groupOpsByZone zones ops = .ok grouped) :
    ∀ e ∈ grouped, FromPending ops e := by
  refine Fallible.foldlM_invariant (I := fun g : List (ZoneName × ZoneOps) => ∀ e ∈ g, FromPending ops e) h
    (by simp) ?_
  intro p hp s s' hs h
  split at h
  · cases h
  · split at h
    · rename_i hname
      cases h
      exact fromPending_pushOp hs hp hname
    · cases h

/-! ### Zones -/

omit [Crates] in
theorem soaReplacementChanges_soa {old new : Zone} {n : ℤ} {cs : List ZoneChange}
    (h : soaReplacementChanges old new n = .ok cs) :
    ∀ c ∈ cs, c.record.recordType = .soa ∧ c.record.name = .apex ∧
      (c.record.ttl = old.ttl ∨ c.record.ttl = new.ttl) := by
  obtain ⟨del, hdel, h⟩ := Fallible.bind_eq_ok.1 h
  obtain ⟨add, hadd, h⟩ := Fallible.bind_eq_ok.1 h
  obtain ⟨_, _, hdel⟩ := Fallible.bind_eq_ok.1 hdel
  obtain ⟨_, _, hadd⟩ := Fallible.bind_eq_ok.1 hadd
  cases hdel
  cases hadd
  cases h
  simp

omit [Crates] in
theorem apexNsRrsetTtl_cases (zone : Zone) (candidates : List RecordData) :
    apexNsRrsetTtl zone candidates = zone.ttl ∨ ∃ r ∈ candidates, apexNsRrsetTtl zone candidates = r.ttl := by
  unfold apexNsRrsetTtl
  split
  · rename_i r hr
    exact .inr ⟨r, List.mem_of_find?_eq_some hr, rfl⟩
  · exact .inl rfl

theorem updateZoneTx_adds (op : Op) (hop : op.writesZone = true) {build : Zone → CreateZoneRequest}
    {taken : ZoneName → Bool} {zone : Zone} (h : updateZoneTx build taken tx = .ok (tx', zone)) :
    Adds (Origin op tx.store tx'.store.zone) tx.store tx'.store ∧
      ∃ v, validateCreateZoneRequest (build tx.store.zone) = .ok v ∧ tx'.store.zone.name = v.name ∧
        tx'.store.zone.ttl = v.ttl := by
  obtain ⟨v, hv, h⟩ := Fallible.bind_eq_ok.1 h
  obtain ⟨timers, _, h⟩ := Fallible.bind_eq_ok.1 h
  split at h
  · cases h
  obtain ⟨n, _, h⟩ := Fallible.bind_eq_ok.1 h
  obtain ⟨tx₁, hwrite, h⟩ := Fallible.bind_eq_ok.1 h
  cases h
  obtain ⟨changes, hch, hsave⟩ := Fallible.bind_eq_ok.1 hwrite
  set updated : Zone := ⟨tx.store.zone.id, v.name, v.primaryNs, v.adminEmail, v.ttl, n, timers.refresh,
    timers.retry, timers.expire, timers.minimumTtl⟩
  have hkeep : Adds (Origin op tx.store updated) tx.store
      (keepPrimaryNs updated n (tx.updateZone updated)).store ∧
        (keepPrimaryNs updated n (tx.updateZone updated)).store.zone = updated := by
    unfold keepPrimaryNs
    simp only
    split
    · exact ⟨.of_eq rfl rfl, rfl⟩
    · refine ⟨Adds.trans (.updateZone updated) (.insert fun x hx => ?_), rfl⟩
      obtain rfl := List.mem_singleton.1 hx
      refine .primaryNs hop ?_
      rcases apexNsRrsetTtl_cases updated (((tx.updateZone updated).recordsByName .apex).map
        (·.toRecordData)) with e | ⟨r, hr, e⟩
      · exact .inl e
      · obtain ⟨s, hs, rfl⟩ := List.mem_map.1 hr
        exact .inr (.inl ⟨s, List.mem_of_mem_filter hs, e⟩)
  have hzone : tx'.store.zone = updated := by
    obtain ⟨_, _, hsave⟩ := Fallible.bind_eq_ok.1 hsave
    cases hsave
    exact hkeep.2
  rw [hzone]
  refine ⟨(hkeep.1.trans (.createZoneChanges fun c hc => ?_)).trans (.saveSnapshot hsave), v, hv, rfl, rfl⟩
  obtain ⟨h1, h2, h3⟩ := soaReplacementChanges_soa hch c hc
  exact .soa hop h1 h2 h3

omit [Crates] in
theorem mem_reconstruct {st : ZoneStore} {target current : ℤ} {x : RecordData}
    (h : x ∈ st.reconstructRecordsAtSerial target current) :
    x ∈ st.liveRecords ∨ ∃ c ∈ st.changes, x = c.record := by
  unfold ZoneStore.reconstructRecordsAtSerial sortRecords at h
  rw [List.mem_mergeSort] at h
  let Ok (rows : List RecordData) : Prop := ∀ x ∈ rows, x ∈ st.liveRecords ∨ ∃ c ∈ st.changes, x = c.record
  refine List.foldlRecOn (motive := Ok) _ _ (fun x hx => .inl hx) (fun rows hrows c hc x hx => ?_) x h
  have hc : c ∈ st.changes := by
    rw [List.mem_reverse, ZoneStore.changesBetween, List.mem_mergeSort] at hc
    exact List.mem_of_mem_filter hc
  unfold undoChange at hx
  split at hx
  · exact hrows x hx
  · split at hx
    · split at hx
      · rename_i rest hpop
        exact hrows x ((Journal.popLast_eq_some hpop).2.mem_iff.2 (by simp [hx]))
      · exact hrows x hx
    · rcases List.mem_append.1 hx with hx | hx
      · exact hrows x hx
      · exact .inr ⟨c, hc, List.mem_singleton.1 hx⟩

omit [Crates] in
/-- What a rollback adds, and what it leaves over, are target rows. -/
theorem matchTargets_subset (restored : Zone) (rs : List Record) (targets : List RecordData) :
    (∀ x ∈ (matchTargets restored rs targets).1.toAdd, x ∈ targets) ∧
      ∀ x ∈ (matchTargets restored rs targets).2, x ∈ targets := by
  induction rs generalizing targets with
  | nil => simp [matchTargets]
  | cons r rs ih =>
      rw [matchTargets]
      split
      · rename_i target rest hpop
        have hperm := (Journal.popLast_eq_some hpop).2
        have hsub : ∀ x ∈ rest, x ∈ targets := fun x hx => hperm.mem_iff.2 (by simp [hx])
        have htarget : target ∈ targets := hperm.mem_iff.2 (by simp)
        obtain ⟨h1, h2⟩ := ih rest
        simp only
        split
        · refine ⟨fun x hx => ?_, fun x hx => hsub x (h2 x hx)⟩
          rcases List.mem_cons.1 hx with rfl | hx
          · exact htarget
          · exact hsub x (h1 x hx)
        · exact ⟨fun x hx => hsub x (h1 x hx), fun x hx => hsub x (h2 x hx)⟩
      · simp only
        split <;> exact ih targets

theorem rollbackTx_adds (caller : Caller) {hash : HashOrder} (zoneName : Text) {target : ℤ} {dryRun : Bool}
    {response : RollbackZoneResponse} (h : rollbackTx hash target dryRun tx = .ok (tx', response)) :
    tx' = tx ∨ (Adds (Origin (.rollback caller hash zoneName target dryRun) tx.store tx'.store.zone) tx.store
        tx'.store ∧ tx'.store.zone.name = tx.store.zone.name ∧
      ∃ sn ∈ tx.store.snapshots, sn.serial = target ∧ tx'.store.zone.ttl = sn.ttl) := by
  unfold rollbackTx at h
  simp only at h
  split at h
  · cases h
  split at h
  · cases h
  rename_i sn hsn
  obtain ⟨n, _, h⟩ := Fallible.bind_eq_ok.1 h
  obtain ⟨restored, hres, h⟩ := Fallible.bind_eq_ok.1 h
  obtain ⟨_, _, h⟩ := Fallible.bind_eq_ok.1 h
  split at h
  · cases h
    exact .inl rfl
  obtain ⟨tx₁, happly, h⟩ := Fallible.bind_eq_ok.1 h
  cases h
  obtain ⟨email, _, hrestored⟩ := restoredZoneFromSnapshot_eq_ok hres
  obtain ⟨changes, hch, hsave⟩ := Fallible.bind_eq_ok.1 happly
  have hzone : tx'.store.zone = restored := by
    obtain ⟨_, _, hsave⟩ := Fallible.bind_eq_ok.1 hsave
    cases hsave
    rfl
  rw [hzone]
  obtain ⟨hmem, hserial⟩ := StoreOk.snapshotBySerial hsn
  refine .inr ⟨?_, by rw [hrestored], sn, hmem, hserial, by rw [hrestored]⟩
  set op : Op := .rollback caller hash zoneName target dryRun
  set targets := tx.store.reconstructRecordsAtSerial target tx.store.zone.serial
  set plan := (matchTargets restored tx.store.records targets).1
  set left := (matchTargets restored tx.store.records targets).2
  obtain ⟨hadd, hleft⟩ := matchTargets_subset restored tx.store.records targets
  have hsoa : ∀ c ∈ changes, Origin op tx.store restored c.record := by
    intro c hc
    unfold rollbackSoaChanges at hch
    split at hch
    · obtain ⟨h1, h2, h3⟩ := soaReplacementChanges_soa hch c hc
      exact .soa rfl h1 h2 h3
    · cases hch
      cases hc
  have hrestore : ∀ x ∈ plan.toAdd ++ hash.order left, x ∈ targets := by
    intro x hx
    rcases List.mem_append.1 hx with hx | hx
    · exact hadd x hx
    · exact hleft x ((hash.perm left).mem_iff.1 hx)
  have htoAdd : ∀ x ∈ rollbackAdds hash restored tx.store.records plan left, Origin op tx.store restored x := by
    intro x hx
    unfold rollbackAdds at hx
    simp only at hx
    split at hx
    · exact .restored rfl (hrestore x hx)
    · rcases List.mem_append.1 hx with hx | hx
      · exact .restored rfl (hrestore x hx)
      · obtain rfl := List.mem_singleton.1 hx
        refine .primaryNs rfl ?_
        rcases apexNsRrsetTtl_cases restored ((plan.toAdd ++ hash.order left) ++
          (tx.store.records.filter (·.id ∉ plan.dels.map (·.id))).map (·.toRecordData)) with e | ⟨r, hr, e⟩
        · exact .inl e
        · rcases List.mem_append.1 hr with hr | hr
          · rcases mem_reconstruct (hrestore r hr) with hlive | ⟨c, hc, rfl⟩
            · obtain ⟨s, hs, rfl⟩ := List.mem_map.1 hlive
              exact .inr (.inl ⟨s, hs, e⟩)
            · exact .inr (.inr ⟨c, hc, e⟩)
          · obtain ⟨s, hs, rfl⟩ := List.mem_map.1 hr
            exact .inr (.inl ⟨s, List.mem_of_mem_filter hs, e⟩)
  have h1 : Adds (Origin op tx.store restored) tx.store ((tx.updateZone restored).createZoneChanges changes).store :=
    Adds.trans (.updateZone restored) (.createZoneChanges hsoa)
  exact ((h1.trans (.delete fun r hr => (matchTargets_dels_sublist _ _ _).subset hr)).trans
    (.insert htoAdd)).trans (.saveSnapshot hsave)

/-! ### Every operation -/

/-- The zone a zone update names, and the request it stands for. -/
def Op.build : Op → Option (Text × (Zone → CreateZoneRequest))
  | .updateZone _ zoneName request => some (zoneName, fun _ => { request with serial := none })
  | .patchZone _ zoneName patch => some (zoneName, patch.toRequest)
  | _ => none

/-- How an operation may change the row of a zone in state `st`, as far as name and TTL go. -/
inductive Moves (op : Op) (st : ZoneStore) (zone : Zone) : Prop
  | serial : op.writesZone = false → zone.name = st.zone.name → zone.ttl = st.zone.ttl → Moves op st zone
  | updated {zoneName : Text} {build : Zone → CreateZoneRequest} {v : ValidatedCreateZoneRequest} :
      op.build = some (zoneName, build) → normalizeZoneName zoneName = .ok st.zone.name →
      validateCreateZoneRequest (build st.zone) = .ok v → zone.name = v.name → zone.ttl = v.ttl → Moves op st zone
  | restored {caller : Caller} {hash : HashOrder} {zoneName : Text} {serial : ℤ} {dryRun : Bool}
      {sn : ZoneSnapshot} : op = .rollback caller hash zoneName serial dryRun →
      normalizeZoneName zoneName = .ok st.zone.name → sn ∈ st.snapshots → sn.serial = serial →
      zone.name = st.zone.name → zone.ttl = sn.ttl → Moves op st zone

/-- How a zone of the new database came about: it was there, it is new, or the operation wrote to
it. -/
inductive Wrote (op : Op) (db : Db) (st' : ZoneStore) : Prop
  | kept : st' ∈ db.stores → Wrote op db st'
  | created {caller : Caller} {request : CreateZoneRequest} {v : ValidatedCreateZoneRequest} {db' : Db} :
      op = .createZone caller request → validateCreateZoneRequest request = .ok v → Created db db' st' →
      st'.zone.name = v.name → st'.zone.ttl = v.ttl → Wrote op db st'
  | wrote (st : ZoneStore) : st ∈ db.stores → st'.zone.id = st.zone.id → Moves op st st'.zone →
      Adds (Origin op st st'.zone) st st' → Wrote op db st'

variable {db db' : Db} {op : Op}

omit [Crates] in
theorem CommitsRecords.moves {cs : List ZoneChange} (h : CommitsRecords cs tx tx') (op : Op)
    (hop : op.writesZone = false) :
    tx'.store.zone.id = tx.store.zone.id ∧ Moves op tx.store tx'.store.zone := by
  rw [h.zone]
  exact ⟨rfl, .serial hop rfl rfl⟩

/-- The transaction an operation runs on a zone it locks. -/
inductive Ran (db : Db) (op : Op) (tx tx' : Tx) : Prop
  | zone {zoneName : Text} {build : Zone → CreateZoneRequest} {taken : ZoneName → Bool} {zone : Zone} :
      op.build = some (zoneName, build) → normalizeZoneName zoneName = .ok tx.store.zone.name →
      updateZoneTx build taken tx = .ok (tx', zone) → Ran db op tx tx'
  | forceIncrementSerial {zoneName : Text} {zone : Zone} : op = .forceIncrementSerial zoneName →
      forceIncrementSerialTx tx = .ok (tx', zone) → Ran db op tx tx'
  | createRecord {caller : Caller} {request : CreateRecordRequest} {prepared : PreparedRecord} {r : Record} :
      op = .createRecord caller request → prepareRecord request.toRecordItem = .ok prepared →
      createRecordTx caller db.tokenPolicies request.toRecordItem prepared tx = .ok (tx', r) → Ran db op tx tx'
  | createBulk {caller : Caller} {zoneName : Text} {items : List RecordItem} {dryRun : Bool}
      {prepared : List PreparedRecord} {rs : List Record} : op = .createBulk caller zoneName items dryRun →
      items.mapM prepareRecord = .ok prepared → createBulkTx caller db.tokenPolicies prepared dryRun tx = .ok (tx', rs) →
      Ran db op tx tx'
  | updateById {caller : Caller} {id : ℕ} {zoneIdRead : Option ℕ} {request : RecordItem} {r : Record} :
      op = .updateById caller id zoneIdRead request →
      updateLockedTx caller db.tokenPolicies id (resolveItem request) tx = .ok (tx', r) → Ran db op tx tx'
  | patchById {caller : Caller} {id : ℕ} {zoneIdRead : Option ℕ} {patch : UpdateRecordPatch} {r : Record} :
      op = .patchById caller id zoneIdRead patch →
      updateLockedTx caller db.tokenPolicies id (resolvePatch patch) tx = .ok (tx', r) → Ran db op tx tx'
  | deleteById {caller : Caller} {id : ℕ} {zoneIdRead : Option ℕ} : op = .deleteById caller id zoneIdRead →
      deleteByIdTx caller db.tokenPolicies id tx = .ok (tx', ()) → Ran db op tx tx'
  | importZoneFile {caller : Caller} {zoneName : Text} {request : ImportZoneFileRequest}
      {response : ImportZoneFileResponse} : op = .importZoneFile caller zoneName request →
      importTx request tx = .ok (tx', response) → Ran db op tx tx'
  | applyUpdate {update : DynamicUpdate} {changed : Bool} : op = .applyUpdate update →
      normalizeZoneName update.zoneName = .ok tx.store.zone.name →
      applyUpdateTx db.tsigPolicies update tx = .ok (tx', changed) → Ran db op tx tx'
  | applyChanges {caller : Caller} {zones : List ZoneName} {request : ExternalDnsChangesRequest}
      {pending : List PendingOp} {grouped : List (ZoneName × ZoneOps)} {ops : ZoneOps} {cs : ZoneChangeSet} :
      op = .applyChanges caller zones request → convertRequest request = .ok pending →
      groupOpsByZone zones pending = .ok grouped → (tx.store.zone.name, ops) ∈ grouped →
      applyZoneOpsTx caller db.tokenPolicies ops tx = .ok (tx', cs) → Ran db op tx tx'
  | rollback {caller : Caller} {hash : HashOrder} {zoneName : Text} {target : ℤ} {dryRun : Bool}
      {response : RollbackZoneResponse} : op = .rollback caller hash zoneName target dryRun →
      normalizeZoneName zoneName = .ok tx.store.zone.name → rollbackTx hash target dryRun tx = .ok (tx', response) →
      Ran db op tx tx'

omit [Crates] in
theorem Op.writesZone_of_build {zoneName : Text} {build : Zone → CreateZoneRequest} (h : op.build = some (zoneName, build)) :
    op.writesZone = true := by
  cases op <;> cases h <;> rfl

/-- A transaction leaves the zone as it was, or holds only rows it held before and rows with an origin. -/
theorem Ran.wrote (hok : TxOk tx) (h : Ran db op tx tx') : tx' = tx ∨ tx'.store.zone.id = tx.store.zone.id ∧
    Moves op tx.store tx'.store.zone ∧ Adds (Origin op tx.store tx'.store.zone) tx.store tx'.store := by
  cases h with
  | zone hbuild hzone h =>
      obtain ⟨hadds, v, hv, hname, httl⟩ := updateZoneTx_adds op (Op.writesZone_of_build hbuild) h
      obtain ⟨⟨cs, hc⟩, _⟩ := updateZoneTx_commits hok h
      exact .inr ⟨hc.advances.id, .updated hbuild hzone hv hname httl, hadds⟩
  | forceIncrementSerial e h =>
      subst e
      obtain ⟨hid, hmoves⟩ := (forceIncrementSerialTx_commits hok h).moves (.forceIncrementSerial _) rfl
      refine .inr ⟨hid, hmoves, ?_⟩
      obtain ⟨n, _, h⟩ := Fallible.bind_eq_ok.1 h
      obtain ⟨tx₁, hsave, h⟩ := Fallible.bind_eq_ok.1 h
      cases h
      exact (Adds.updateZone _).trans (.saveSnapshot hsave)
  | createRecord e hp h =>
      subst e
      obtain ⟨cs, hc, _⟩ := createRecordTx_commits hok h
      obtain ⟨hid, hmoves⟩ := hc.moves (.createRecord _ _) rfl
      exact .inr ⟨hid, hmoves, createRecordTx_adds hp h⟩
  | createBulk e hp h =>
      subst e
      refine (createBulkTx_commits hok h).imp (·.2) fun ⟨_, cs, hc, _⟩ => ?_
      obtain ⟨hid, hmoves⟩ := hc.moves (.createBulk _ _ _ _) rfl
      exact ⟨hid, hmoves, createBulkTx_adds hp h⟩
  | updateById e h =>
      subst e
      obtain ⟨_, cs, hc, _⟩ := updateLockedTx_commits hok h
      obtain ⟨hid, hmoves⟩ := hc.moves (.updateById _ _ _ _) rfl
      refine .inr ⟨hid, hmoves, (updateLockedTx_adds h).mono fun x hx => ?_⟩
      obtain ⟨existing, _, hres⟩ := hx
      obtain ⟨p, hp, hres⟩ := Fallible.bind_eq_ok.1 hres
      obtain ⟨owner, howner, hres⟩ := Fallible.bind_eq_ok.1 hres
      cases hres
      exact .item (by simp [Op.items]) hp howner
  | patchById e h =>
      subst e
      obtain ⟨_, cs, hc, _⟩ := updateLockedTx_commits hok h
      obtain ⟨hid, hmoves⟩ := hc.moves (.patchById _ _ _ _) rfl
      refine .inr ⟨hid, hmoves, (updateLockedTx_adds h).mono fun x hx => ?_⟩
      obtain ⟨existing, hex, hres⟩ := hx
      exact .patch rfl hex hres
  | deleteById e h =>
      subst e
      obtain ⟨_, cs, hc, _⟩ := deleteByIdTx_commits hok h
      obtain ⟨hid, hmoves⟩ := hc.moves (.deleteById _ _ _) rfl
      exact .inr ⟨hid, hmoves, deleteByIdTx_adds h⟩
  | importZoneFile e h =>
      subst e
      refine (importTx_commits hok h).imp id fun ⟨_, cs, _, hc⟩ => ?_
      obtain ⟨hid, hmoves⟩ := hc.moves (.importZoneFile _ _ _) rfl
      exact ⟨hid, hmoves, importTx_adds hok h⟩
  | applyUpdate e _ h =>
      subst e
      refine (applyUpdateTx_commits hok h).imp (·.2) fun ⟨_, cs, _, hc, _⟩ => ?_
      obtain ⟨hid, hmoves⟩ := hc.moves (.applyUpdate _) rfl
      exact ⟨hid, hmoves, applyUpdateTx_adds h⟩
  | applyChanges e hpending hgrouped hops h =>
      subst e
      have hfrom := groupOpsByZone_fromPending hgrouped _ hops
      have hsup := (groupOpsByZone_ok (convertRequest_supported hpending) hgrouped).2 _ hops
      refine (applyZoneOpsTx_commits hok hsup h).imp (·.1) fun ⟨_, _, hc, _⟩ => ?_
      obtain ⟨hid, hmoves⟩ := hc.moves (.applyChanges _ _ _) rfl
      refine ⟨hid, hmoves, applyZoneOpsTx_adds (fun op hop value hvalue => ?_) h⟩
      obtain ⟨p, hp, howner, hop'⟩ := hfrom op hop
      rw [hop'] at hvalue ⊢
      exact .rrset rfl hpending hp howner hvalue
  | @rollback caller hash zoneName target dryRun response e hzone h =>
      subst e
      rcases rollbackTx_commits hok h with ⟨_, e⟩ | ⟨_, ⟨cs, hc⟩, _⟩
      · exact .inl e
      · exact (rollbackTx_adds caller zoneName h).imp_right fun ⟨hadds, hname, sn, hsn, hserial, httl⟩ =>
          ⟨hc.advances.id, .restored rfl hzone hsn hserial hname httl, hadds⟩

/-- How a zone of the new database came about: it was there, it is new, or a transaction of the operation left it. -/
inductive CameBy (op : Op) (db : Db) (st' : ZoneStore) : Prop
  | kept : st' ∈ db.stores → CameBy op db st'
  | created {caller : Caller} {request : CreateZoneRequest} {db' : Db} {zone : Zone} : op = .createZone caller request →
      createZone db caller request = .ok (db', zone) → Created db db' st' → CameBy op db st'
  | ran (tx tx' : Tx) : tx.store ∈ db.stores → TxOk tx → Ran db op tx tx' → tx'.store = st' → CameBy op db st'

theorem cameBy_of_inTx {ε α : Type} {st : ZoneStore} {body : Tx → Except ε (Tx × α)} {a : α} (hdb : DbOk db)
    (hst : st ∈ db.stores) (h : db.inTx st body = .ok (db', a))
    (hbody : ∀ tx, body (db.beginTx st) = .ok (tx, a) → Ran db op (db.beginTx st) tx) :
    ∀ st' ∈ db'.stores, CameBy op db st' := by
  obtain ⟨⟨tx, a'⟩, htx, h⟩ := Fallible.bind_eq_ok.1 h
  cases h
  have hran := hbody tx htx
  rcases hran.wrote (hdb.txOk hst) with rfl | ⟨hid, -⟩
  · rw [commit_beginTx hdb hst]
    exact fun _ h => .kept h
  · intro st' hst'
    rcases (mem_commit hst hid).1 hst' with rfl | ⟨hst', _⟩
    · exact .ran _ tx hst (hdb.txOk hst) hran rfl
    · exact .kept hst'

/-- What the loop over the zones of a change set keeps: a zone is as it was, or was written to and is not visited again. -/
def VisitedOnce (op : Op) (base db : Db) (entries : List (ZoneName × ZoneOps)) : Prop :=
  ∀ st ∈ db.stores, st ∈ base.stores ∨ ((∀ e ∈ entries, e.1 ≠ st.zone.name) ∧ CameBy op base st)

theorem applyZoneOps_visitedOnce {caller : Caller} (zones : List ZoneName) {request : ExternalDnsChangesRequest}
    {pending : List PendingOp} (hpending : convertRequest request = .ok pending) {grouped : List (ZoneName × ZoneOps)}
    (hgrouped : groupOpsByZone zones pending = .ok grouped) {base : Db} {entries : List (ZoneName × ZoneOps)}
    {resp resp' : ExternalDnsChangesResponse} (hentries : ∀ e ∈ entries, e ∈ grouped) (hb : Between caller base entries db) (hok : GroupedOk entries)
    (hv : VisitedOnce (.applyChanges caller zones request) base db entries)
    (h : entries.foldlM (applyZoneOps caller) (db, resp) = .ok (db', resp')) :
    VisitedOnce (.applyChanges caller zones request) base db' [] := by
  induction entries generalizing db resp with
  | nil =>
      cases h
      exact hv
  | cons entry entries ih =>
      rw [List.foldlM_cons, Fallible.bind_eq_ok] at h
      obtain ⟨⟨db₁, resp₁⟩, hstep, h⟩ := h
      obtain ⟨hsorted, hsup⟩ := hok
      rw [List.map_cons, List.pairwise_cons] at hsorted
      have hne : ∀ e ∈ entries, e.1 ≠ entry.1 := fun e he heq =>
        absurd (hsorted.1 _ (List.mem_map_of_mem he)) (by simp [heq])
      refine ih (fun e he => hentries e (by simp [he]))
        (applyZoneOps_between hb (hsup entry (by simp)) hne hstep)
        ⟨hsorted.2, fun e he => hsup e (by simp [he])⟩ (fun st' hst' => ?_) h
      unfold applyZoneOps at hstep
      split at hstep
      · cases hstep
      rename_i st hfind
      obtain ⟨hst, hname⟩ := getZoneByName_eq_some hfind
      obtain ⟨⟨db₂, cs⟩, htx, hstep⟩ := Fallible.bind_eq_ok.1 hstep
      cases hstep
      obtain ⟨⟨tx, cs'⟩, hbody, e⟩ := Fallible.bind_eq_ok.1 htx
      cases e
      -- the zone found is still as it was, so what is written to it is written once
      have hbase : st ∈ base.stores := (hv st hst).resolve_right fun h => h.1 entry (by simp) hname.symm
      have hran : Ran base (.applyChanges caller zones request) (db.beginTx st) tx :=
        .applyChanges rfl hpending hgrouped (show (st.zone.name, entry.2) ∈ grouped from hname ▸ hentries entry (by simp))
          (hb.policies.1 ▸ hbody)
      have hkept : st' ∈ db.stores → st' ∈ base.stores ∨ ((∀ e ∈ entries, e.1 ≠ st'.zone.name) ∧
          CameBy (.applyChanges caller zones request) base st') := fun hst' =>
        (hv st' hst').imp_right fun h => ⟨fun e he => h.1 e (by simp [he]), h.2⟩
      rcases hran.wrote (hb.ok.txOk hst) with rfl | ⟨hid, hmoves, -⟩
      · rw [commit_beginTx hb.ok hst] at hst'
        exact hkept hst'
      rcases (mem_commit hst hid).1 hst' with rfl | ⟨hst', _⟩
      · refine .inr ⟨fun e he => ?_, .ran _ tx hbase (hb.ok.txOk hst) hran rfl⟩
        obtain ⟨_, hsame, _⟩ | ⟨hbuild, _⟩ | ⟨hroll, _⟩ := hmoves
        · rw [hsame, show (db.beginTx st).store.zone.name = entry.1 from hname]
          exact hne e he
        · cases hbuild
        · cases hroll
      · exact hkept hst'

theorem createZone_cameBy {caller : Caller} {request : CreateZoneRequest} {zone : Zone}
    (h : createZone db caller request = .ok (db', zone)) :
    ∀ st' ∈ db'.stores, CameBy (.createZone caller request) db st' := by
  obtain ⟨st, hc⟩ := createZone_created h
  intro st' hst'
  rw [hc.stores] at hst'
  rcases List.mem_append.1 hst' with hst' | hst'
  · exact .kept hst'
  · obtain rfl := List.mem_singleton.1 hst'
    exact .created rfl h hc

theorem createBulk_cameBy (hdb : DbOk db) {caller : Caller} {zoneName : Text} {items : List RecordItem} {dryRun : Bool}
    {rs : List Record} (h : createBulk db caller zoneName items dryRun = .ok (db', rs)) :
    ∀ st' ∈ db'.stores, CameBy (.createBulk caller zoneName items dryRun) db st' := by
  unfold createBulk at h
  split at h
  · cases h
  obtain ⟨prepared, hp, h⟩ := Fallible.bind_eq_ok.1 h
  obtain ⟨st, hst, h⟩ := Fallible.bind_eq_ok.1 h
  obtain ⟨hst, _⟩ := lookupByName_eq_ok hst
  exact cameBy_of_inTx hdb hst h fun tx htx => .createBulk rfl hp htx

theorem applyUpdate_cameBy (hdb : DbOk db) {update : DynamicUpdate} {changed : Bool}
    (h : applyUpdate db update = .ok (db', changed)) : ∀ st' ∈ db'.stores, CameBy (.applyUpdate update) db st' := by
  obtain ⟨found, hfound, h⟩ := Fallible.bind_eq_ok.1 h
  cases found with
  | none => cases h
  | some st =>
      obtain ⟨name, hname, hfound⟩ := Fallible.bind_eq_ok.1 (Fallible.mapError_eq_ok.1 hfound)
      obtain ⟨hst, rfl⟩ := getZoneByName_eq_some (Except.ok.inj hfound)
      exact cameBy_of_inTx hdb hst h fun tx htx => .applyUpdate rfl hname htx

theorem applyChanges_cameBy (hdb : DbOk db) {caller : Caller} {zones : List ZoneName} {request : ExternalDnsChangesRequest}
    {resp : ExternalDnsChangesResponse} (h : applyChanges db caller zones request = .ok (db', resp)) :
    ∀ st' ∈ db'.stores, CameBy (.applyChanges caller zones request) db st' := by
  obtain ⟨ops, hops, h⟩ := Fallible.bind_eq_ok.1 h
  split at h
  · cases h
    exact fun st' hst' => .kept hst'
  · obtain ⟨grouped, hgrouped, h⟩ := Fallible.bind_eq_ok.1 h
    have hstart : Between caller db grouped db := ⟨hdb, fun _ hst => .inl hst, rfl, rfl, rfl, rfl⟩
    have hv := applyZoneOps_visitedOnce zones hops hgrouped (fun _ he => he) hstart
      (groupOpsByZone_ok (convertRequest_supported hops) hgrouped) (fun st hst => .inl hst) h
    intro st' hst'
    rcases hv st' hst' with hst' | ⟨_, hcame⟩
    · exact .kept hst'
    · exact hcame

theorem rollback_cameBy (hdb : DbOk db) {caller : Caller} {hash : HashOrder} {zoneName : Text} {target : ℤ} {dryRun : Bool}
    {response : RollbackZoneResponse} (h : rollback db caller hash zoneName target dryRun = .ok (db', response)) :
    ∀ st' ∈ db'.stores, CameBy (.rollback caller hash zoneName target dryRun) db st' := by
  obtain ⟨_, _, h⟩ := Fallible.bind_eq_ok.1 h
  obtain ⟨name, hname, h⟩ := Fallible.bind_eq_ok.1 h
  obtain ⟨st, hst, h⟩ := Fallible.bind_eq_ok.1 h
  obtain ⟨hst, hzone⟩ := lookupByName_eq_ok hst
  rw [normalizeZoneName_text, ← hname] at hzone
  exact cameBy_of_inTx hdb hst h fun tx htx => .rollback rfl hzone htx

theorem cameBy_of_lookup {ε α : Type} {zoneName : Text} {body : Tx → Except ε (Tx × α)} {a : α}
    (hdb : DbOk db) {st : ZoneStore} (hst : db.lookupByName zoneName = .ok st) (h : db.inTx st body = .ok (db', a))
    (hbody : ∀ tx, normalizeZoneName zoneName = .ok st.zone.name → body (db.beginTx st) = .ok (tx, a) →
      Ran db op (db.beginTx st) tx) : ∀ st' ∈ db'.stores, CameBy op db st' :=
  cameBy_of_inTx hdb (lookupByName_eq_ok hst).1 h fun tx => hbody tx (lookupByName_eq_ok hst).2

/-- **Every operation.**  A zone of the new database was there before, is new, or was left by a transaction of the
operation. -/
theorem execute_cameBy (hdb : DbOk db) (h : execute db op = some db') : ∀ st' ∈ db'.stores, CameBy op db st' := by
  cases op with
  | createZone caller request =>
      obtain ⟨zone, h⟩ := committed_eq_some.1 h
      exact createZone_cameBy h
  | updateZone caller zoneName request | patchZone caller zoneName patch =>
      obtain ⟨_, h⟩ := committed_eq_some.1 h
      obtain ⟨_, _, h⟩ := Fallible.bind_eq_ok.1 h
      obtain ⟨_, _, h⟩ := Fallible.bind_eq_ok.1 h
      obtain ⟨st, hst, h⟩ := Fallible.bind_eq_ok.1 h
      exact cameBy_of_lookup hdb hst h fun tx hzone htx => .zone rfl hzone htx
  | deleteZone caller zoneName =>
      obtain ⟨_, h⟩ := committed_eq_some.1 h
      obtain ⟨_, _, h⟩ := Fallible.bind_eq_ok.1 h
      obtain ⟨st, _, h⟩ := Fallible.bind_eq_ok.1 h
      cases h
      exact fun st' hst' => .kept (List.mem_of_mem_filter hst')
  | forceIncrementSerial zoneName =>
      obtain ⟨_, h⟩ := committed_eq_some.1 h
      obtain ⟨st, hst, h⟩ := Fallible.bind_eq_ok.1 h
      exact cameBy_of_lookup hdb hst h fun tx _ htx => .forceIncrementSerial rfl htx
  | createRecord caller request =>
      obtain ⟨_, h⟩ := committed_eq_some.1 h
      obtain ⟨prepared, hp, h⟩ := Fallible.bind_eq_ok.1 h
      obtain ⟨st, hst, h⟩ := Fallible.bind_eq_ok.1 h
      exact cameBy_of_lookup hdb hst h fun tx _ htx => .createRecord rfl hp htx
  | createBulk caller zoneName items dryRun =>
      obtain ⟨_, h⟩ := committed_eq_some.1 h
      exact createBulk_cameBy hdb h
  | updateById caller id zoneIdRead request =>
      obtain ⟨_, h⟩ := committed_eq_some.1 h
      obtain ⟨st, hst, h⟩ := inRecordZone_eq_ok h
      exact cameBy_of_inTx hdb hst h fun tx htx => .updateById rfl htx
  | patchById caller id zoneIdRead patch =>
      obtain ⟨_, h⟩ := committed_eq_some.1 h
      obtain ⟨st, hst, h⟩ := inRecordZone_eq_ok h
      exact cameBy_of_inTx hdb hst h fun tx htx => .patchById rfl htx
  | deleteById caller id zoneIdRead =>
      obtain ⟨_, h⟩ := committed_eq_some.1 h
      obtain ⟨st, hst, h⟩ := inRecordZone_eq_ok h
      exact cameBy_of_inTx hdb hst h fun tx htx => .deleteById rfl htx
  | importZoneFile caller zoneName request =>
      obtain ⟨_, h⟩ := committed_eq_some.1 h
      obtain ⟨_, _, h⟩ := Fallible.bind_eq_ok.1 h
      obtain ⟨st, hst, h⟩ := Fallible.bind_eq_ok.1 h
      exact cameBy_of_lookup hdb hst h fun tx _ htx => .importZoneFile rfl htx
  | applyUpdate update =>
      obtain ⟨_, h⟩ := committed_eq_some.1 h
      exact applyUpdate_cameBy hdb h
  | applyChanges caller zonesRead request =>
      obtain ⟨_, h⟩ := committed_eq_some.1 h
      exact applyChanges_cameBy hdb h
  | rollback caller hash zoneName targetSerial dryRun =>
      obtain ⟨_, h⟩ := committed_eq_some.1 h
      exact rollback_cameBy hdb h
  | setPolicies tokenPolicies tsigPolicies =>
      cases h
      exact fun st' hst' => .kept hst'

/-- **What is written.**  A zone of the new database was there before, is new, or holds only rows it
held before and rows with an origin. -/
theorem execute_wrote (hdb : DbOk db) (h : execute db op = some db') : ∀ st' ∈ db'.stores, Wrote op db st' := by
  intro st' hst'
  cases execute_cameBy hdb h st' hst' with
  | kept hst' => exact .kept hst'
  | @created caller request db'' zone e h hc =>
      obtain ⟨v, timers, serial, hv, _, _, hzone⟩ := hc.zone_eq h
      exact .created e hv hc (by rw [hzone]) (by rw [hzone])
  | ran tx tx' hst hok hran e =>
      subst e
      rcases hran.wrote hok with rfl | ⟨hid, hmoves, hadds⟩
      · exact .kept hst
      · exact .wrote tx.store hst hid hmoves hadds

/-- What every step that meets a condition keeps holds after every history whose commits meet it. -/
theorem run_invariant_where {I : Db → Prop} {C : List Op → Op → Prop} (h0 : I .empty)
    (hstep : ∀ pre op db', I (run pre) → C pre op → execute (run pre) op = some db' → I db') {ops : List Op}
    (hC : ∀ pre op, pre ++ [op] <+: ops → op.Commits pre → C pre op) : I (run ops) := by
  induction ops using List.reverseRecOn with
  | nil => exact h0
  | append_singleton ops op ih =>
      have ih := ih fun pre o hpre => hC pre o (hpre.trans (List.prefix_append _ _))
      by_cases hcommits : op.Commits ops
      · rw [run_concat, step]
        cases h : execute (run ops) op with
        | none => exact ih
        | some db => exact hstep _ _ _ ih (hC ops op List.prefix_rfl hcommits) h
      · rwa [not_not.1 hcommits]

/-- Every row of the database, in the tables and in the log, satisfies `P`. -/
def RowsWhere (P : RecordData → Prop) (db : Db) : Prop := ∀ st ∈ db.stores,
  (∀ r ∈ st.records, P r.toRecordData) ∧ ∀ c ∈ st.changes, P c.record

/-- **Row invariants.**  What the primary NS row of a new zone satisfies, and every origin gives when the
rows of the zone have it, holds of every row after every history whose steps meet `C`. -/
theorem run_rowsWhere {P : RecordData → Prop} {C : Op → Prop} (hnew : ∀ (zone : Zone) (ttl : ℤ), P (zone.primaryNsRecord ttl))
    (horigin : ∀ {op : Op} {st : ZoneStore} {zone : Zone} {x : RecordData}, C op → Origin op st zone x →
      (∀ r ∈ st.records, P r.toRecordData) → (∀ c ∈ st.changes, P c.record) → P x) {ops : List Op}
    (hops : ∀ op ∈ ops, C op) : RowsWhere P (run ops) := by
  refine run_invariant_where (I := RowsWhere P) (C := fun _ op => C op) (by simp [RowsWhere, Db.empty])
    (fun pre op db' hok hC h st' hst' => ?_) fun pre op hpre _ => hops op (hpre.subset (by simp))
  cases execute_wrote (run_ok pre) h st' hst' with
  | kept hst => exact hok st' hst
  | created e hv hc hname httl =>
      refine ⟨fun r hr => ?_, by simp [hc.changes]⟩
      rw [hc.records, List.mem_singleton] at hr
      rw [hr]
      exact hnew _ _
  | wrote st hst hid hmoves hadds =>
      obtain ⟨hrecords, hchanges⟩ := hok st hst
      refine ⟨fun r hr => ?_, fun c hc => ?_⟩
      · rcases hadds.records r hr with hr | hr
        · exact hrecords r hr
        · exact horigin hC hr hrecords hchanges
      · rcases hadds.changes c hc with hc | hc | hc
        · exact hchanges c hc
        · obtain ⟨r, hr, e⟩ := List.mem_map.1 hc
          exact e ▸ hrecords r hr
        · exact horigin hC hc hrecords hchanges

end Origins

end Bindizr
