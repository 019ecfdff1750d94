import Bindizr.Reconstruction
import Bindizr.Origins
import Bindizr.NsUpdate
import Bindizr.Wire

/-! # TTLs and owner names within their limits

No operation checks the TTL a record request asks for, so a zone holds only TTLs the wire can
carry exactly when no request that was accepted asked for a negative one
(`ttls_in_range`).  The length of an owner is checked when it is written, against the zone's
name of that moment; a zone update and a rollback do not look at the rows again, so the owners
stay within 255 octets exactly as far as the names the zone gets leave room (`owners_fit`). -/

namespace Bindizr

/-! ### TTLs -/

/-- A TTL that is sent as it is stored. -/
def TtlOk (ttl : ℤ) : Prop := 0 ≤ ttl ∧ ttl ≤ i32Max

theorem TtlOk.asU32 {ttl : ℤ} (h : TtlOk ttl) : (asU32 ttl : ℤ) = ttl := by
  obtain ⟨h1, h2⟩ := h
  simp only [i32Max] at h2
  unfold Bindizr.asU32
  omega

/-- The TTLs of a zone: of its row, its records, its log and its snapshots. -/
def ZoneStore.ttls (st : ZoneStore) : List ℤ :=
  st.zone.ttl :: (st.records.map (·.ttl) ++ st.changes.map (·.record.ttl) ++ st.snapshots.map (·.ttl))

/-- Every TTL of the database is in range. -/
def TtlsOk (db : Db) : Prop := ∀ st ∈ db.stores, ∀ ttl ∈ st.ttls, TtlOk ttl

theorem forall_ttls {P : ℤ → Prop} {st : ZoneStore} : (∀ ttl ∈ st.ttls, P ttl) ↔ P st.zone.ttl ∧
    (∀ r ∈ st.records, P r.ttl) ∧ (∀ c ∈ st.changes, P c.record.ttl) ∧ ∀ sn ∈ st.snapshots, P sn.ttl := by
  simp only [ZoneStore.ttls, List.forall_mem_cons, List.forall_mem_append, List.forall_mem_map, and_assoc]

section Ttls

variable [Crates]

/-- The TTLs the record requests of an operation ask for, when it writes. -/
def Op.requestedTtls : Op → List ℤ
  | .patchById _ _ _ patch => patch.ttl.toList
  | op => op.items.filterMap (·.ttl)

def ExternalDnsChangesRequest.rrsets (request : ExternalDnsChangesRequest) : List ExternalDnsRrset :=
  request.creates ++ request.updates.flatMap (fun u => [u.old, u.new]) ++ request.deletes

/-- What the types of the source say of the TTLs of an operation: they are `i32`s, and those of an
UPDATE were decoded from a message. -/
def Op.WellTyped (op : Op) : Prop :=
  (∀ ttl ∈ op.requestedTtls, ttl ≤ i32Max) ∧
    match op with
    | .applyChanges _ _ request => ∀ rrset ∈ request.rrsets, ∀ ttl ∈ rrset.ttl, ttl ≤ i32Max
    | .applyUpdate update => ∃ request message key, toDynamicUpdate request message key = .ok update
    | _ => True

/-- No record request of the operation asks for a negative TTL. -/
def Op.NonNegative (op : Op) : Prop := ∀ ttl ∈ op.requestedTtls, 0 ≤ ttl

theorem prepareRecord_ttl {item : RecordItem} {p : PreparedRecord} (h : prepareRecord item = .ok p) :
    p.ttl = item.ttl := by
  obtain ⟨_, _, h⟩ := Fallible.bind_eq_ok.1 h
  obtain ⟨_, _, h⟩ := Fallible.bind_eq_ok.1 h
  cases h
  rfl

omit [Crates] in
theorem resolvePatch_owner {patch : UpdateRecordPatch} {zone : Zone} {existing : Record} {x : RecordData} (t : RecordType)
    (value : Text) (priority : Option ℤ) (h : (do
      let owner ← match patch.name with
        | some name => normalizeRecordOwnerName name zone.name
        | none => pure existing.name
      pure (⟨owner, t, value, patch.ttl.getD existing.ttl, priority⟩ : RecordData)) = .ok x) :
    x.ttl = patch.ttl.getD existing.ttl ∧
      (x.name = existing.name ∨ ∃ name, normalizeRecordOwnerName name zone.name = .ok x.name) ∧
      x.recordType = t ∧ x.value = value ∧ x.priority = priority := by
  simp only at h
  split at h
  · obtain ⟨owner, howner, h⟩ := Fallible.bind_eq_ok.1 h
    cases h
    exact ⟨rfl, .inr ⟨_, howner⟩, rfl, rfl, rfl⟩
  · cases h
    exact ⟨rfl, .inl rfl, rfl, rfl, rfl⟩

theorem resolvePatch_eq_ok {patch : UpdateRecordPatch} {zone : Zone} {existing : Record} {x : RecordData}
    (h : resolvePatch patch zone existing = .ok x) : x.ttl = patch.ttl.getD existing.ttl ∧
      (x.name = existing.name ∨ ∃ name, normalizeRecordOwnerName name zone.name = .ok x.name) ∧
      (x.recordType = existing.recordType ∧ x.value = existing.value ∨
        ∃ v : RecordValueRequest, v.toEncodedValue x.recordType x.priority = .ok x.value) := by
  unfold resolvePatch at h
  simp only at h
  split at h
  all_goals
    obtain ⟨t, _, h⟩ := Fallible.bind_eq_ok.1 h
    split at h
    · cases h
    rename_i hkeep
    split at h
    · obtain ⟨value, hvalue, h⟩ := Fallible.bind_eq_ok.1 h
      obtain ⟨h1, h2, rfl, rfl, h5⟩ := resolvePatch_owner _ _ _ h
      exact ⟨h1, h2, .inr ⟨_, by rw [h5]; exact Fallible.mapError_eq_ok.1 hvalue⟩⟩
    · rename_i hnone
      obtain ⟨value, hvalue, h⟩ := Fallible.bind_eq_ok.1 h
      cases hvalue
      obtain ⟨h1, h2, rfl, h4, _⟩ := resolvePatch_owner _ _ _ h
      refine ⟨h1, h2, .inl ⟨?_, h4⟩⟩
      by_contra hne
      exact hkeep ⟨hne, by simp [hnone]⟩

omit [Crates] in
/-- The reader's TTLs are natural numbers, and larger ones are refused. -/
theorem parseEntry_ttl {entry : ZonefileEntry} {r : ParsedRecord} (h : parseEntry entry = .record r) :
    TtlOk r.ttl := by
  unfold parseEntry at h
  split at h
  · cases h
  · cases h
  split at h
  · cases h
  split at h
  · cases h
  split at h
  · cases h
  split at h
  · cases h
  rename_i hle
  split at h
  · cases h
  cases h
  simp only [TtlOk, i32Max]
  omega

theorem ttlOk_of_mem_fileRecords {content : Text} {zone : Zone} {x : RecordData}
    (h : x ∈ fileRecords content zone) : TtlOk x.ttl := by
  obtain ⟨r, hr, hdata⟩ := List.mem_filterMap.1 h
  have hx : x.ttl = r.ttl := by
    unfold ParsedRecord.data at hdata
    split at hdata
    · cases hdata
      rfl
    · cases hdata
  obtain ⟨e, he, her⟩ := List.mem_filterMap.1 hr
  obtain ⟨entry, _, rfl⟩ := List.mem_map.1 he
  rw [hx]
  split at her
  · rename_i hentry
    cases her
    exact parseEntry_ttl hentry
  · cases her

theorem toDynamicUpdate_ttl {request : UpdateRequest} {message : List UInt8} {key : Option TsigKey}
    {update : DynamicUpdate} (h : toDynamicUpdate request message key = .ok update) {name : Text} {t : RecordType}
    {value : Text} {ttl : ℤ} {priority : Option ℤ} (hadd : .add name t value ttl priority ∈ update.updates) :
    TtlOk ttl := by
  obtain ⟨rr, _, hrr⟩ := toDynamicUpdate_add h hadd
  obtain ⟨_, _, _, rfl, hle⟩ := decodeUpdate_add hrr
  simp only [TtlOk, i32Max]
  omega

theorem convertRrset_ttl {rrset : ExternalDnsRrset} {op : RrsetOp} (h : convertRrset rrset = .ok op)
    (htyped : ∀ ttl ∈ rrset.ttl, ttl ≤ i32Max) : ∀ ttl ∈ op.ttl, TtlOk ttl := by
  obtain ⟨_, _, h⟩ := Fallible.bind_eq_ok.1 h
  obtain ⟨_, _, h⟩ := Fallible.bind_eq_ok.1 h
  obtain ⟨ttl, httl, h⟩ := Fallible.bind_eq_ok.1 h
  obtain ⟨_, _, h⟩ := Fallible.bind_eq_ok.1 h
  obtain ⟨_, _, h⟩ := Fallible.bind_eq_ok.1 h
  cases h
  unfold normalizeTtl at httl
  split at httl
  · cases httl
    simp
  · rename_i t ht
    split at httl
    · cases httl
    · split at httl
      · cases httl
        simp
      · rename_i hneg _
        cases httl
        intro t' ht'
        obtain rfl : t = t' := by simpa using ht'
        exact ⟨not_lt.1 hneg, htyped t (by simp [ht])⟩

theorem mem_convertRequest {request : ExternalDnsChangesRequest} {ops : List PendingOp}
    (h : convertRequest request = .ok ops) {p : PendingOp} (hp : p ∈ ops) :
    ∃ rrset ∈ request.rrsets, convertRrset rrset = .ok p.op := by
  obtain ⟨deletes, hd, h⟩ := Fallible.bind_eq_ok.1 h
  obtain ⟨updates, hu, h⟩ := Fallible.bind_eq_ok.1 h
  obtain ⟨creates, hc, h⟩ := Fallible.bind_eq_ok.1 h
  cases h
  simp only [List.mem_append, List.mem_flatten] at hp
  simp only [ExternalDnsChangesRequest.rrsets, List.mem_append, List.mem_flatMap]
  rcases hp with (hp | ⟨ps, hps, hp⟩) | hp
  · obtain ⟨rrset, hmem, h⟩ := Fallible.mem_of_mapM hd hp
    obtain ⟨op, hop, h⟩ := Fallible.bind_eq_ok.1 h
    cases h
    exact ⟨rrset, .inr hmem, hop⟩
  · obtain ⟨update, hmem, h⟩ := Fallible.mem_of_mapM hu hps
    obtain ⟨old, hold, h⟩ := Fallible.bind_eq_ok.1 h
    obtain ⟨new, hnew, h⟩ := Fallible.bind_eq_ok.1 h
    cases h
    simp only [List.mem_cons, List.not_mem_nil, or_false] at hp
    rcases hp with rfl | rfl
    · exact ⟨update.old, .inl (.inr ⟨update, hmem, by simp⟩), hold⟩
    · exact ⟨update.new, .inl (.inr ⟨update, hmem, by simp⟩), hnew⟩
  · obtain ⟨rrset, hmem, h⟩ := Fallible.mem_of_mapM hc hp
    obtain ⟨op, hop, h⟩ := Fallible.bind_eq_ok.1 h
    cases h
    exact ⟨rrset, .inl (.inl hmem), hop⟩

theorem convertRequest_ttl {request : ExternalDnsChangesRequest} {ops : List PendingOp}
    (h : convertRequest request = .ok ops) (htyped : ∀ rrset ∈ request.rrsets, ∀ ttl ∈ rrset.ttl, ttl ≤ i32Max) :
    ∀ p ∈ ops, ∀ ttl ∈ p.op.ttl, TtlOk ttl := by
  intro p hp
  obtain ⟨rrset, hmem, hrrset⟩ := mem_convertRequest h hp
  exact convertRrset_ttl hrrset (htyped rrset hmem)

omit [Crates] in
theorem validateCreateZoneRequest_ttl {request : CreateZoneRequest} {v : ValidatedCreateZoneRequest}
    (h : validateCreateZoneRequest request = .ok v) : TtlOk v.ttl := by
  obtain ⟨_, _, h⟩ := Fallible.bind_eq_ok.1 h
  obtain ⟨_, _, h⟩ := Fallible.bind_eq_ok.1 h
  obtain ⟨_, _, h⟩ := Fallible.bind_eq_ok.1 h
  obtain ⟨ttl, httl, h⟩ := Fallible.bind_eq_ok.1 h
  obtain ⟨_, _, h⟩ := Fallible.bind_eq_ok.1 h
  cases h
  unfold validateTtl at httl
  split at httl
  · cases httl
  · split at httl
    · cases httl
    · cases httl
      simp only [TtlOk, i32Max]
      omega

omit [Crates] in
theorem Zone.snapshot_ttl {zone : Zone} {sn : ZoneSnapshot} (h : zone.snapshot = .ok sn) : sn.ttl = zone.ttl := by
  obtain ⟨_, _, e⟩ := Fallible.bind_eq_ok.1 h
  cases e
  rfl

variable {db db' : Db} {op : Op}

theorem mem_snapshots_of_execute (hdb : DbOk db) (h : execute db op = some db') {st' : ZoneStore}
    (hst' : st' ∈ db'.stores) {sn : ZoneSnapshot} (hsn : sn ∈ st'.snapshots) :
    (∃ st ∈ db.stores, sn ∈ st.snapshots) ∨ st'.zone.snapshot = .ok sn := by
  cases (execute_step hdb h).came st' hst' with
  | kept hst => exact .inl ⟨st', hst, hsn⟩
  | advanced st cs hst ha =>
      obtain ⟨sn', hsn', e⟩ := ha.snapshots
      rw [e] at hsn
      rcases List.mem_append.1 hsn with hsn | hsn
      · exact .inl ⟨st, hst, hsn⟩
      · exact .inr (List.mem_singleton.1 hsn ▸ hsn')
  | created db' hc =>
      obtain ⟨sn', hsn', e⟩ := hc.snapshots
      rw [e] at hsn
      exact .inr (List.mem_singleton.1 hsn ▸ hsn')

section Where

variable {P : ℤ → Prop} (hP : ∀ ttl, TtlOk ttl → P ttl)

include hP

/-- Every origin gives a TTL in range, or one that the zone has or that is asked for. -/
theorem Origin.ttlWhere {op : Op} {st : ZoneStore} {zone : Zone} {x : RecordData} (h : Origin op st zone x)
    (htyped : op.WellTyped) (hasked : ∀ ttl ∈ op.requestedTtls, P ttl) (hst : ∀ ttl ∈ st.ttls, P ttl) (hzone : P zone.ttl) :
    P x.ttl := by
  obtain ⟨hz, hrecords, hchanges, _⟩ := forall_ttls.1 hst
  have hlive : ∀ x ∈ st.liveRecords, P x.ttl := fun x hx => by
    obtain ⟨r, hr, rfl⟩ := List.mem_map.1 hx
    exact hrecords r hr
  cases h with
  | item hitem hp howner =>
      rename_i item p owner
      simp only [PreparedRecord.toData, prepareRecord_ttl hp]
      cases httl : item.ttl with
      | none => exact hz
      | some ttl =>
          refine hasked ttl ?_
          cases op <;> simp only [Op.items, List.not_mem_nil] at hitem
          all_goals exact List.mem_filterMap.2 ⟨item, hitem, httl⟩
  | patch e hex hres =>
      rename_i caller id zoneId patch existing
      subst e
      rw [(resolvePatch_eq_ok hres).1]
      cases httl : patch.ttl with
      | none => exact hrecords existing hex
      | some ttl => exact hasked ttl (by simp [Op.requestedTtls, httl])
  | file e hfile => exact hP _ (ttlOk_of_mem_fileRecords hfile)
  | update e hadd howner hstored =>
      subst e
      obtain ⟨request, message, key, hdecode⟩ := htyped.2
      exact hP _ (toDynamicUpdate_ttl hdecode hadd)
  | rrset e hpending hp howner hvalue =>
      rename_i caller zones request pending p owner value
      subst e
      cases httl : p.op.ttl with
      | none => simpa [httl] using hz
      | some ttl => simpa [httl] using hP _ (convertRequest_ttl hpending htyped.2 p hp ttl (by simp [httl]))
  | primaryNs hw httl =>
      rcases httl with rfl | ⟨r, hr, rfl⟩ | ⟨c, hc, rfl⟩
      · exact hzone
      · exact hrecords r hr
      · exact hchanges c hc
  | soa hw h1 h2 httl =>
      rcases httl with e | e
      · exact e ▸ hz
      · exact e ▸ hzone
  | restored e hx =>
      rcases mem_reconstruct hx with hx | ⟨c, hc, rfl⟩
      · exact hlive x hx
      · exact hchanges c hc

theorem execute_ttlsWhere (hdb : DbOk db) (hok : ∀ st ∈ db.stores, ∀ ttl ∈ st.ttls, P ttl) (htyped : op.WellTyped)
    (hasked : ∀ ttl ∈ op.requestedTtls, P ttl) (h : execute db op = some db') : ∀ st ∈ db'.stores, ∀ ttl ∈ st.ttls, P ttl := by
  intro st' hst'
  have hsnapshots : P st'.zone.ttl → ∀ sn ∈ st'.snapshots, P sn.ttl := by
    intro hz sn hsn
    rcases mem_snapshots_of_execute hdb h hst' hsn with ⟨st, hst, hsn⟩ | hsn
    · exact (forall_ttls.1 (hok st hst)).2.2.2 sn hsn
    · exact Zone.snapshot_ttl hsn ▸ hz
  rw [forall_ttls]
  cases execute_wrote hdb h st' hst' with
  | kept hst => exact forall_ttls.1 (hok st' hst)
  | created e hv hc hname httl =>
      have hz : P st'.zone.ttl := httl ▸ hP _ (validateCreateZoneRequest_ttl hv)
      refine ⟨hz, fun r hr => ?_, by simp [hc.changes], hsnapshots hz⟩
      rw [hc.records, List.mem_singleton] at hr
      rw [hr]
      exact hz
  | wrote st hst hid hmoves hadds =>
      obtain ⟨hz, hrecords, hchanges, hsns⟩ := forall_ttls.1 (hok st hst)
      have hz' : P st'.zone.ttl := by
        cases hmoves with
        | serial hw hname httl => exact httl ▸ hz
        | updated hb hzone hv hname httl => exact httl ▸ hP _ (validateCreateZoneRequest_ttl hv)
        | restored e hzone hsn hserial hname httl => exact httl ▸ hsns _ hsn
      have horigin : ∀ x, Origin op st st'.zone x → P x.ttl := fun x hx =>
        hx.ttlWhere hP htyped hasked (hok st hst) hz'
      refine ⟨hz', fun r hr => ?_, fun c hc => ?_, hsnapshots hz'⟩
      · rcases hadds.records r hr with hr | hr
        · exact hrecords r hr
        · exact horigin _ hr
      · rcases hadds.changes c hc with hc | hc | hc
        · exact hchanges c hc
        · obtain ⟨r, hr, e⟩ := List.mem_map.1 hc
          exact e ▸ hrecords r hr
        · exact horigin _ hc

theorem run_ttlsWhere {ops : List Op} (htyped : ∀ op ∈ ops, op.WellTyped)
    (hops : ∀ pre op, pre ++ [op] <+: ops → op.Commits pre → ∀ ttl ∈ op.requestedTtls, P ttl) :
    ∀ st ∈ (run ops).stores, ∀ ttl ∈ st.ttls, P ttl :=
  run_invariant_where (I := fun db => ∀ st ∈ db.stores, ∀ ttl ∈ st.ttls, P ttl)
    (C := fun _ op => op.WellTyped ∧ ∀ ttl ∈ op.requestedTtls, P ttl) (by simp [Db.empty])
    (fun pre op db' hok hC h => execute_ttlsWhere hP (run_ok pre) hok hC.1 hC.2 h)
    fun pre op hpre hcommits => ⟨htyped op (hpre.subset (by simp)), hops pre op hpre hcommits⟩

end Where

omit [Crates] in
theorem mem_stores_of_inTx {ε α : Type} {st : ZoneStore} {body : Tx → Except ε (Tx × α)} {a : α}
    (hst : st ∈ db.stores) (h : db.inTx st body = .ok (db', a)) {P : ZoneStore → Prop}
    (hbody : ∀ tx, body (db.beginTx st) = .ok (tx, a) → tx.store.zone.id = st.zone.id ∧ P tx.store) :
    ∃ st' ∈ db'.stores, P st' := by
  obtain ⟨⟨tx, a'⟩, htx, h⟩ := Fallible.bind_eq_ok.1 h
  cases h
  obtain ⟨hid, hP⟩ := hbody tx htx
  exact ⟨tx.store, (mem_commit hst hid).2 (.inl rfl), hP⟩

omit [Crates] in
theorem insertRecords_ttl {tx tx' : Tx} {zone : Zone} {n : ℤ} {rs : List RecordData} {x : RecordData}
    (h : (tx.insertRecordsWithChanges n rs).advanceSerial zone n = .ok tx') (hx : x ∈ rs) :
    ∃ r ∈ tx'.store.records, r.ttl = x.ttl := by
  obtain ⟨_, _, h⟩ := Fallible.bind_eq_ok.1 h
  cases h
  obtain ⟨r, hr, rfl⟩ := exists_numbered (n := tx.nextRecordId) hx
  exact ⟨r, List.mem_append_right _ hr, rfl⟩

omit [Crates] in
theorem updateLockedTx_ttl {caller : Caller} {policies : List ZonePolicy} {id : ℕ} {resolve : ResolveUpdate}
    {tx tx' : Tx} {r : Record} (h : updateLockedTx caller policies id resolve tx = .ok (tx', r)) :
    ∃ existing x, resolve tx.store.zone existing = .ok x ∧ ∃ s ∈ tx'.store.records, s.ttl = x.ttl := by
  obtain ⟨existing, hload, h⟩ := Fallible.bind_eq_ok.1 h
  obtain ⟨x, hres, h⟩ := Fallible.bind_eq_ok.1 h
  obtain ⟨_, _, h⟩ := Fallible.bind_eq_ok.1 h
  obtain ⟨_, _, h⟩ := Fallible.bind_eq_ok.1 h
  obtain ⟨n, _, h⟩ := Fallible.bind_eq_ok.1 h
  obtain ⟨tx₁, hadv, h⟩ := Fallible.bind_eq_ok.1 h
  cases h
  obtain ⟨_, _, hadv⟩ := Fallible.bind_eq_ok.1 hadv
  cases hadv
  refine ⟨existing, x, hres, { x with id := existing.id }, List.mem_map.2 ⟨existing, ?_, by simp⟩, rfl⟩
  exact (loadRecord_eq_ok hload).1

omit [Crates] in
theorem exists_validateBulk {zone : Zone} {indexed : List Record} {ps : List PreparedRecord} {rs : List RecordData}
    (h : validateBulk zone indexed ps = .ok rs) {p : PreparedRecord} (hp : p ∈ ps) :
    ∃ owner, p.toData owner zone ∈ rs := by
  induction ps generalizing indexed rs with
  | nil => cases hp
  | cons q ps ih =>
      obtain ⟨owner, _, h⟩ := Fallible.bind_eq_ok.1 h
      obtain ⟨_, _, h⟩ := Fallible.bind_eq_ok.1 h
      obtain ⟨rest, hrest, h⟩ := Fallible.bind_eq_ok.1 h
      cases h
      rcases List.mem_cons.1 hp with rfl | hp
      · exact ⟨owner, by simp⟩
      · obtain ⟨o, ho⟩ := ih hrest hp
        exact ⟨o, by simp [ho]⟩

theorem exists_requestedTtl (hdb : DbOk db) (h : execute db op = some db') {ttl : ℤ}
    (httl : ttl ∈ op.requestedTtls) : ∃ st' ∈ db'.stores, ∃ r ∈ st'.records, r.ttl = ttl := by
  cases op with
  | createRecord caller request =>
      obtain ⟨_, h⟩ := committed_eq_some.1 h
      obtain ⟨prepared, hp, h⟩ := Fallible.bind_eq_ok.1 h
      obtain ⟨st, hst, h⟩ := Fallible.bind_eq_ok.1 h
      obtain ⟨hst, _⟩ := lookupByName_eq_ok hst
      refine mem_stores_of_inTx hst h (P := fun st' => ∃ r ∈ st'.records, r.ttl = ttl) fun tx htx => ?_
      obtain ⟨cs, hc, _⟩ := createRecordTx_commits (hdb.txOk hst) htx
      refine ⟨hc.advances.id, ?_⟩
      obtain ⟨owner, _, htx⟩ := Fallible.bind_eq_ok.1 htx
      obtain ⟨_, _, htx⟩ := Fallible.bind_eq_ok.1 htx
      obtain ⟨_, _, htx⟩ := Fallible.bind_eq_ok.1 htx
      obtain ⟨n, _, htx⟩ := Fallible.bind_eq_ok.1 htx
      obtain ⟨tx₁, hadv, htx⟩ := Fallible.bind_eq_ok.1 htx
      cases htx
      have hreq : request.ttl = some ttl := by simpa [Op.requestedTtls, Op.items] using httl
      obtain ⟨r, hr, e⟩ := insertRecords_ttl hadv (List.mem_singleton.2 rfl)
      exact ⟨r, hr, by rw [e]; simp [PreparedRecord.toData, prepareRecord_ttl hp, hreq]⟩
  | createBulk caller zoneName items dryRun =>
      cases dryRun with
      | true => simp [Op.requestedTtls, Op.items] at httl
      | false =>
          obtain ⟨item, hitem, hreq⟩ : ∃ item ∈ items, item.ttl = some ttl := by
            simpa [Op.requestedTtls, Op.items] using httl
          obtain ⟨_, h⟩ := committed_eq_some.1 h
          unfold createBulk at h
          split at h
          · cases h
          obtain ⟨prepared, hp, h⟩ := Fallible.bind_eq_ok.1 h
          obtain ⟨st, hst, h⟩ := Fallible.bind_eq_ok.1 h
          obtain ⟨hst, _⟩ := lookupByName_eq_ok hst
          refine mem_stores_of_inTx hst h (P := fun st' => ∃ r ∈ st'.records, r.ttl = ttl) fun tx htx => ?_
          have hid : tx.store.zone.id = st.zone.id := by
            rcases createBulkTx_commits (hdb.txOk hst) htx with ⟨hdry, _⟩ | ⟨_, cs, hc, _⟩
            · cases hdry
            · exact hc.advances.id
          refine ⟨hid, ?_⟩
          obtain ⟨s, hs, htx⟩ := Fallible.bind_eq_ok.1 htx
          obtain ⟨-, -, -, hval⟩ := bulkSteps_eq_ok.1 hs
          obtain ⟨tx₁, hadv, htx⟩ := Fallible.bind_eq_ok.1 htx
          cases htx
          obtain ⟨p, hmem, hprep⟩ := Fallible.exists_of_mapM hp hitem
          obtain ⟨owner, hrow⟩ := exists_validateBulk hval hmem
          obtain ⟨r, hr, e⟩ := insertRecords_ttl hadv hrow
          exact ⟨r, hr, by rw [e]; simp [PreparedRecord.toData, prepareRecord_ttl hprep, hreq]⟩
  | updateById caller id zoneIdRead request =>
      obtain ⟨_, h⟩ := committed_eq_some.1 h
      obtain ⟨st, hst, h⟩ := inRecordZone_eq_ok h
      refine mem_stores_of_inTx hst h (P := fun st' => ∃ r ∈ st'.records, r.ttl = ttl) fun tx htx => ?_
      obtain ⟨_, cs, hc, _⟩ := updateLockedTx_commits (hdb.txOk hst) htx
      refine ⟨hc.advances.id, ?_⟩
      obtain ⟨existing, x, hres, r, hr, e⟩ := updateLockedTx_ttl htx
      obtain ⟨p, hp, hres⟩ := Fallible.bind_eq_ok.1 hres
      obtain ⟨owner, _, hres⟩ := Fallible.bind_eq_ok.1 hres
      cases hres
      have hreq : request.ttl = some ttl := by simpa [Op.requestedTtls, Op.items] using httl
      exact ⟨r, hr, by rw [e]; simp [PreparedRecord.toData, prepareRecord_ttl hp, hreq]⟩
  | patchById caller id zoneIdRead patch =>
      obtain ⟨_, h⟩ := committed_eq_some.1 h
      obtain ⟨st, hst, h⟩ := inRecordZone_eq_ok h
      refine mem_stores_of_inTx hst h (P := fun st' => ∃ r ∈ st'.records, r.ttl = ttl) fun tx htx => ?_
      obtain ⟨_, cs, hc, _⟩ := updateLockedTx_commits (hdb.txOk hst) htx
      refine ⟨hc.advances.id, ?_⟩
      obtain ⟨existing, x, hres, r, hr, e⟩ := updateLockedTx_ttl htx
      have hreq : patch.ttl = some ttl := by simpa [Op.requestedTtls] using httl
      exact ⟨r, hr, by rw [e, (resolvePatch_eq_ok hres).1, hreq]; rfl⟩
  | _ => simp [Op.requestedTtls, Op.items] at httl

/-- **TTLs.**  An accepted operation leaves every TTL in range exactly when no record request of it
asks for a negative one; so after a history whose commits are such operations every TTL of every zone
is in range, and is sent as it is stored. -/
theorem ttls_in_range :
    (∀ (db db' : Db) (op : Op), DbOk db → TtlsOk db → op.WellTyped → execute db op = some db' →
      (TtlsOk db' ↔ op.NonNegative)) ∧
    ∀ ops : List Op, (∀ op ∈ ops, op.WellTyped) →
      (∀ pre op, pre ++ [op] <+: ops → op.Commits pre → op.NonNegative) → ∀ st ∈ (run ops).stores, ∀ ttl ∈ st.ttls, 0 ≤ ttl ∧ ttl ≤ i32Max ∧ (asU32 ttl : ℤ) = ttl := by
  have hasked : ∀ {op : Op}, op.WellTyped → op.NonNegative → ∀ ttl ∈ op.requestedTtls, TtlOk ttl := fun htyped hop ttl h =>
    ⟨hop ttl h, htyped.1 ttl h⟩
  refine ⟨fun db db' op hdb hok htyped h => ⟨fun hok' ttl httl => ?_, fun hop =>
    execute_ttlsWhere (fun _ => id) hdb hok htyped (hasked htyped hop) h⟩, fun ops htyped hops st hst ttl httl => ?_⟩
  · obtain ⟨st, hst, r, hr, rfl⟩ := exists_requestedTtl hdb h httl
    exact ((forall_ttls.1 (hok' st hst)).2.1 r hr).1
  · have h := run_ttlsWhere (fun _ => id) htyped (fun pre op hpre hcommits =>
      hasked (htyped op (hpre.subset (by simp))) (hops pre op hpre hcommits)) st hst ttl httl
    exact ⟨h.1, h.2, h.asU32⟩

end Ttls

/-- A record request that asks for a TTL of -1. -/
def negativeTtl : CreateRecordRequest :=
  { sampleItem "www" "A" "192.0.2.1" with zoneName := lit "example.com", ttl := some (-1) }

/-- The request is accepted, and the record would be sent with a TTL of 136 years. -/
theorem createRecord_negativeTtl :
    ∃ st ∈ (@run sampleCrates [.createZone .global sampleZone, .createRecord .global negativeTtl]).stores,
      ∃ r ∈ st.records, r.ttl = -1 ∧ asU32 r.ttl = 4294967295 := by
  decide +kernel

theorem ttls_in_range_sampleHistory :
    (∃ db', @execute sampleCrates (@run sampleCrates [.createZone .global sampleZone])
        (.createRecord .global negativeTtl) = some db' ∧
      (TtlsOk db' ↔ Op.NonNegative (.createRecord .global negativeTtl))) ∧
    ∃ st ∈ (@run sampleCrates sampleHistory).stores, st.records ≠ [] ∧
      ∀ ttl ∈ st.ttls, 0 ≤ ttl ∧ ttl ≤ i32Max ∧ (asU32 ttl : ℤ) = ttl := by
  have htyped : ∀ op ∈ sampleHistory, @Op.WellTyped sampleCrates op ∧ op.NonNegative := by
    simp [sampleHistory, Op.WellTyped, Op.NonNegative, Op.requestedTtls, Op.items, sampleItem]
  constructor
  · obtain ⟨db', h⟩ : ∃ db', @execute sampleCrates (@run sampleCrates [.createZone .global sampleZone])
        (.createRecord .global negativeTtl) = some db' := by
      refine Option.isSome_iff_exists.1 ?_
      decide +kernel
    refine ⟨db', h, (@ttls_in_range sampleCrates).1 _ _ _ (@run_ok sampleCrates _) ?_ ?_ h⟩
    · intro st hst ttl httl
      have hone := (@ttls_in_range sampleCrates).2 [.createZone .global sampleZone]
        (fun op hop => (htyped op (by simp [sampleHistory, List.mem_singleton.1 hop])).1)
        (fun pre op hpre _ => (htyped op (by simp [sampleHistory, List.mem_singleton.1 (hpre.subset (by simp : op ∈ pre ++ [op]))])).2)
        st hst ttl httl
      exact ⟨hone.1, hone.2.1⟩
    · simp [Op.WellTyped, Op.requestedTtls, Op.items, negativeTtl, i32Max]
  · obtain ⟨st, hst, hne⟩ : ∃ st ∈ (@run sampleCrates sampleHistory).stores, st.records ≠ [] := by
      decide +kernel
    exact ⟨st, hst, hne, (@ttls_in_range sampleCrates).2 sampleHistory (fun op hop => (htyped op hop).1)
      (fun pre op hpre _ => (htyped op (hpre.subset (by simp))).2) st hst⟩

/-! ### Owner names -/

theorem fits_of_normalizeRecordOwnerName {name : Text} {zone : ZoneName} {o : OwnerName}
    (h : normalizeRecordOwnerName name zone = .ok o) : o.Fits zone :=
  OwnerName.fits_of_parseInZone (Fallible.mapError_eq_ok.1 h)

theorem fits_of_ownerInZone {name : Text} {zone : ZoneName} {o : OwnerName} (h : ownerInZone name zone = .ok o) :
    o.Fits zone := by
  unfold ownerInZone at h
  split at h
  · cases h
  · exact OwnerName.fits_of_parseAbsoluteInZone (Fallible.mapError_eq_ok.1 h)

section Owners

variable [Crates]

/-- Every owner of the database fits in its zone. -/
def OwnersFit (db : Db) : Prop := ∀ st ∈ db.stores, ∀ r ∈ st.records, r.name.Fits st.zone.name

/-- What keeps the owners within their limits.  A zone update names its zone so that the rows of
the zone still fit, and a rollback goes back to rows that fit under the name the zone has now. -/
def Op.KeepsOwners (pre : List Op) (op : Op) : Prop :=
  match op with
  | .updateZone _ zoneName request => ∀ st ∈ (run pre).stores, normalizeZoneName zoneName = .ok st.zone.name →
      ∀ name, normalizeZoneName request.name = .ok name → ∀ r ∈ st.records, r.name.Fits name
  | .patchZone _ zoneName patch => ∀ st ∈ (run pre).stores, normalizeZoneName zoneName = .ok st.zone.name →
      ∀ name, normalizeZoneName (patch.toRequest st.zone).name = .ok name → ∀ r ∈ st.records, r.name.Fits name
  | .rollback _ _ zoneName serial _ => ∀ st ∈ (run pre).stores, normalizeZoneName zoneName = .ok st.zone.name →
      ∀ st₀, HeldAt pre st serial st₀ → ∀ r ∈ st₀.records, r.name.Fits st.zone.name
  | _ => True

omit [Crates] in
theorem validateCreateZoneRequest_name {request : CreateZoneRequest} {v : ValidatedCreateZoneRequest}
    (h : validateCreateZoneRequest request = .ok v) : normalizeZoneName request.name = .ok v.name := by
  obtain ⟨name, hname, h⟩ := Fallible.bind_eq_ok.1 h
  obtain ⟨_, _, h⟩ := Fallible.bind_eq_ok.1 h
  obtain ⟨_, _, h⟩ := Fallible.bind_eq_ok.1 h
  obtain ⟨_, _, h⟩ := Fallible.bind_eq_ok.1 h
  obtain ⟨_, _, h⟩ := Fallible.bind_eq_ok.1 h
  cases h
  exact hname

theorem fits_of_mem_fileRecords {content : Text} {zone : Zone} {x : RecordData}
    (h : x ∈ fileRecords content zone) : x.name.Fits zone.name := by
  obtain ⟨r, _, hdata⟩ := List.mem_filterMap.1 h
  unfold ParsedRecord.data at hdata
  split at hdata
  · rename_i howner
    cases hdata
    exact fits_of_normalizeRecordOwnerName howner
  · cases hdata

variable {pre : List Op} {op : Op} {st : ZoneStore} {zone : Zone}

theorem Moves.fits (h : Moves op st zone) (hop : op.KeepsOwners pre) (hst : st ∈ (run pre).stores)
    (hfit : ∀ r ∈ st.records, r.name.Fits st.zone.name) : ∀ r ∈ st.records, r.name.Fits zone.name := by
  cases h with
  | serial hw hname httl => exact hname ▸ hfit
  | updated hb hzone hv hname httl =>
      rw [hname]
      have hnew := validateCreateZoneRequest_name hv
      cases op <;> cases hb
      · exact hop st hst hzone _ hnew
      · exact hop st hst hzone _ hnew
  | restored e hzone hsn hserial hname httl => exact hname ▸ hfit

theorem Origin.fits {x : RecordData} (h : Origin op st zone x) (hmoves : Moves op st zone)
    (hop : op.KeepsOwners pre) (hst : st ∈ (run pre).stores)
    (hfit : ∀ r ∈ st.records, r.name.Fits st.zone.name) : x.name.Fits zone.name := by
  -- an operation that does not write the zone's row leaves the zone its name
  have hname : op.writesZone = false → zone.name = st.zone.name := by
    intro hw
    cases hmoves with
    | serial _ hname _ => exact hname
    | updated hb _ _ _ _ => cases op <;> simp_all [Op.writesZone, Op.build]
    | restored e _ _ _ hname _ => exact hname
  cases h with
  | item hitem hp howner =>
      rw [hname (by cases op <;> first | rfl | simp [Op.items] at hitem)]
      exact fits_of_normalizeRecordOwnerName howner
  | patch e hex hres =>
      subst e
      rw [hname rfl]
      rcases (resolvePatch_eq_ok hres).2.1 with e | ⟨_, howner⟩
      · exact e ▸ hfit _ hex
      · exact fits_of_normalizeRecordOwnerName howner
  | file e hfile =>
      subst e
      rw [hname rfl]
      exact fits_of_mem_fileRecords hfile
  | update e hadd howner hstored =>
      subst e
      rw [hname rfl]
      exact fits_of_ownerInZone howner
  | rrset e hpending hp howner hvalue =>
      subst e
      rw [hname rfl]
      exact OwnerName.fits_of_parseAbsoluteInZone howner
  | primaryNs hw httl => exact OwnerName.apex_fits _
  | soa hw ht hapex httl =>
      rw [hapex]
      exact OwnerName.apex_fits _
  | restored e hx =>
      subst e
      cases hmoves with
      | serial hw _ _ => cases hw
      | updated hb _ _ _ _ => cases hb
      | restored e hzone hsn hserial hname httl =>
          cases e
          obtain ⟨⟨st₀, hheld⟩, hrows⟩ := run_reconstruct pre hst hsn
          rw [hserial] at hheld hrows
          obtain ⟨r, hr, rfl⟩ := List.mem_map.1 ((hrows st₀ hheld).1.mem_iff.1 hx)
          rw [hname]
          exact hop st hst hzone st₀ hheld r hr

theorem execute_ownersFit {db' : Db} (hfit : OwnersFit (run pre)) (hop : op.KeepsOwners pre)
    (h : execute (run pre) op = some db') : OwnersFit db' := by
  intro st' hst'
  cases execute_wrote (run_ok pre) h st' hst' with
  | kept hst => exact hfit st' hst
  | created e hv hc hname httl =>
      intro r hr
      rw [hc.records, List.mem_singleton] at hr
      rw [hr]
      exact OwnerName.apex_fits _
  | wrote st hst hid hmoves hadds =>
      intro r hr
      rcases hadds.records r hr with hr | hr
      · exact hmoves.fits hop hst (hfit st hst) r hr
      · exact hr.fits hmoves hop hst (hfit st hst)

/-- **Owner names.**  After a history in which every zone update that commits leaves the rows of its zone
within 255 octets, and every rollback that commits goes back to rows that are so under the zone's name, every row
qualified with its zone's name is within 255 octets and parses back to its owner. -/
theorem owners_fit (ops : List Op) (hops : ∀ pre op, pre ++ [op] <+: ops → op.Commits pre → op.KeepsOwners pre) :
    ∀ st ∈ (run ops).stores, ∀ r ∈ st.records, wireLen (r.name.absoluteLabels st.zone.name) ≤ 255 ∧
      OwnerName.parseAbsoluteInZone (r.name.toFqdn st.zone.name) st.zone.name = .ok r.name := by
  have hrun : OwnersFit (run ops) :=
    run_invariant_where (I := OwnersFit) (C := fun pre op => op.KeepsOwners pre) (by simp [OwnersFit, Db.empty])
      (fun _ _ _ hfit hop h => execute_ownersFit hfit hop h) hops
  intro st hst r hr
  have h := hrun st hst r hr
  exact ⟨h, (OwnerName.parseAbsoluteInZone_toFqdn r.name st.zone.name).2 h⟩

end Owners

/-- A name of `n` labels of 63 octets under `parent`. -/
def longName (n : ℕ) (parent : String) : Text :=
  (List.replicate n (List.replicate 63 'a' ++ ['.'])).flatten ++ lit parent

/-- The zone's new name, all else as it is. -/
def renameTo (name : Text) : UpdateZonePatch :=
  ⟨some name, none, none, none, none, none, none, none, none⟩

/-- A record with a name of 205 octets, then a new name of its zone. -/
def longHistory : List Op :=
  [.createZone .global sampleZone,
    .createRecord .global { sampleItem "" "A" "192.0.2.1" with
      zoneName := lit "example.com", name := longName 3 "example.com" },
    .patchZone .global (lit "example.com") (renameTo (longName 2 "com"))]

/-- The record's name is 325 octets long after the zone was renamed. -/
theorem patchZone_longName :
    ∃ st ∈ (@run sampleCrates longHistory).stores, ∃ r ∈ st.records,
      wireLen (r.name.absoluteLabels st.zone.name) = 325 ∧
        OwnerName.parseAbsoluteInZone (r.name.toFqdn st.zone.name) st.zone.name ≠ .ok r.name := by
  obtain ⟨st, hst, r, hr, hlen⟩ : ∃ st ∈ (@run sampleCrates longHistory).stores, ∃ r ∈ st.records,
      wireLen (r.name.absoluteLabels st.zone.name) = 325 := by
    decide +kernel
  refine ⟨st, hst, r, hr, hlen, fun h => ?_⟩
  have := (OwnerName.parseAbsoluteInZone_toFqdn r.name st.zone.name).1 h
  omega

/-- The sample zone under a new name. -/
def renamedHistory : List Op :=
  sampleHistory ++ [.patchZone .global (lit "example.com") (renameTo (lit "example.org"))]

theorem owners_fit_renamed :
    ∃ st ∈ (@run sampleCrates renamedHistory).stores, st.zone.name.text = lit "example.org" ∧
      ∃ r ∈ st.records, r.name.labels = [lit "www"] ∧
        OwnerName.parseAbsoluteInZone (r.name.toFqdn st.zone.name) st.zone.name = .ok r.name := by
  obtain ⟨st, hst, hname, r, hr, hwww⟩ : ∃ st ∈ (@run sampleCrates renamedHistory).stores,
      st.zone.name.text = lit "example.org" ∧ ∃ r ∈ st.records, r.name.labels = [lit "www"] := by
    decide +kernel
  refine ⟨st, hst, hname, r, hr, hwww, (@owners_fit sampleCrates renamedHistory (fun pre op hpre _ => ?_) st hst r hr).2⟩
  have hfit : ∀ pre ∈ renamedHistory.inits, ∀ st ∈ (@run sampleCrates pre).stores, ∀ r ∈ st.records,
      ∀ name ∈ (normalizeZoneName (lit "example.org")).toOption, r.name.Fits name := by
    decide +kernel
  have hop : op ∈ renamedHistory := hpre.subset (by simp)
  simp only [renamedHistory, sampleHistory, List.cons_append, List.nil_append, List.mem_cons, List.not_mem_nil, or_false] at hop
  rcases hop with rfl | rfl | rfl
  · trivial
  · trivial
  · intro st hst _ name hname r hr
    refine hfit pre ((List.mem_inits _ _).2 ((List.prefix_append _ _).trans hpre)) st hst r hr name ?_
    have hname : normalizeZoneName (lit "example.org") = .ok name := hname
    simp [hname, Except.toOption]

end Bindizr
