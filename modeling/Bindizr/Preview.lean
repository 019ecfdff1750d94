import Bindizr.Bulk
import Bindizr.Diffs
import Bindizr.ImportModes
import Bindizr.ZoneInvariants

/-! # Dry runs

An import, a bulk creation and a rollback can be asked for as a dry run, which goes through the same
steps and stops before it writes.  What it reports is what the real run on the same state then
does (`dry_run_predicts`).  An import and a bulk creation also show a diff, computed from the rows they
loaded and what they would insert and delete.  Where only the rows of some owners were loaded, the
RRsets of the other owners are the same on both sides, so the diff is that of the whole zone
(`build_of_loaded`). -/

namespace Bindizr

section Preview

variable [crates : Crates]

/-! ### The diffs of the responses -/

/-- The diff of `create_bulk`'s response to a dry run. -/
def createBulkTxDiff (caller : Caller) (policies : List ZonePolicy) (prepared : List PreparedRecord) (tx : Tx) :
    Except ServiceError RecordDiff :=
  (bulkSteps caller policies prepared tx).map fun s =>
    let before := s.existing.map (·.toRecordData)
    RecordDiff.build tx.store.zone before (before ++ s.toInsert)

@[inherit_doc createBulkTxDiff]
def createBulkDiff (db : Db) (caller : Caller) (zoneName : Text) (items : List RecordItem) :
    Except ServiceError RecordDiff :=
  if items = [] then .error ⟨.invalidInput, lit "no records provided for bulk insert"⟩
  else do
    let prepared ← items.mapM prepareRecord
    let store ← db.lookupByName zoneName
    createBulkTxDiff caller db.tokenPolicies prepared (db.beginTx store)

def importDiff (zone : Zone) (existing : List Record) (adds : List DesiredRecord) (dels ttlDels : List Record) :
    RecordDiff :=
  let deletedIds := (dels ++ ttlDels).map (·.id)
  let before := existing.map (·.toRecordData)
  let after := (existing.filter (·.id ∉ deletedIds)).map (·.toRecordData)
  RecordDiff.build zone before (after ++ adds.map (·.data))

/-- The diff of `import_zone_file`'s response: none but for a dry run without errors. -/
def importTxDiff (request : ImportZoneFileRequest) (tx : Tx) : Except ServiceError RecordDiff :=
  (importSteps request.content request.mode tx).map fun s =>
    if request.dryRun && s.errors.isEmpty then
      importDiff tx.store.zone s.existing s.reconciled.adds s.reconciled.dels s.reconciled.ttlDels
    else ⟨[], ⟨0, 0, 0⟩⟩

@[inherit_doc importTxDiff]
def importZoneFileDiff (db : Db) (caller : Caller) (zoneName : Text) (request : ImportZoneFileRequest) :
    Except ServiceError RecordDiff := do
  caller.requireGlobal (lit "import zone files")
  let store ← db.lookupByName zoneName
  importTxDiff request (db.beginTx store)

/-! ### Diffs of a part -/

omit crates in
/-- Sorted lists of distinct keys give the same under a function that is defined on common keys only. -/
theorem filterMap_eq_of_sorted {κ γ β : Type} [LinearOrder γ] {key : κ → γ} (hkey : Function.Injective key)
    {keys keys' : List κ} (hsorted : keys.Pairwise fun a b => key a ≤ key b) (hnodup : keys.Nodup)
    (hsorted' : keys'.Pairwise fun a b => key a ≤ key b) (hnodup' : keys'.Nodup) {f : κ → Option β}
    (hmem : ∀ k, f k ≠ none → k ∈ keys ∧ k ∈ keys') : keys.filterMap f = keys'.filterMap f := by
  have hfilter : ∀ l : List κ, l.filterMap f = (l.filter fun k => (f k).isSome).filterMap f := fun l => by
    rw [List.filterMap_filter]
    refine List.filterMap_congr fun k _ => ?_
    cases f k with
    | none => rfl
    | some b => rfl
  have hsame : (keys.filter fun k => (f k).isSome) = keys'.filter fun k => (f k).isSome := by
    refine List.Perm.eq_of_pairwise (fun a b _ _ hab hba => hkey (le_antisymm hab hba)) (hsorted.filter _)
      (hsorted'.filter _) ?_
    rw [List.perm_ext_iff_of_nodup (hnodup.filter _) (hnodup'.filter _)]
    intro k
    rw [List.mem_filter, List.mem_filter]
    refine and_congr_left fun hk => ?_
    obtain ⟨h, h'⟩ := hmem k (Option.isSome_iff_ne_none.1 hk)
    exact ⟨fun _ => h', fun _ => h⟩
  rw [hfilter keys, hsame, ← hfilter keys']

theorem diffRrset_eq_none {zone : Zone} {before after : List RecordData} {key : Text × Text}
    (hkey : key ∉ rrsetKeys zone before after) :
    diffRrset key (recordsOf zone before key) (recordsOf zone after key) = none := by
  have hnone : ∀ records : List RecordData, (∀ r ∈ records, r ∈ before ∨ r ∈ after) → recordsOf zone records key = [] :=
    fun records hrecords => List.filter_eq_nil_iff.2 fun r hr hk =>
      hkey (mem_rrsetKeys.2 ⟨r, hrecords r hr, of_decide_eq_true hk⟩)
  rw [hnone before fun r hr => .inl hr, hnone after fun r hr => .inr hr, diffRrset_eq, if_pos rfl]

def ofOwner (records : List RecordData) (owner : OwnerName) : List RecordData :=
  records.filter (·.name = owner)

omit crates in
theorem recordsOf_ofOwner (zone : Zone) (r : RecordData) (records : List RecordData) :
    recordsOf zone records (r.rrsetKey zone) = recordsOf zone (ofOwner records r.name) (r.rrsetKey zone) := by
  rw [recordsOf, recordsOf, ofOwner, List.filter_filter]
  refine List.filter_congr fun s _ => ?_
  by_cases hs : s.rrsetKey zone = r.rrsetKey zone
  · simp [hs, (rrsetKey_eq_iff.1 hs).1]
  · simp [hs]

theorem build_of_owners {zone : Zone} {before after before' after' : List RecordData}
    (h : ∀ owner, (ofOwner before owner = ofOwner before' owner ∧ ofOwner after owner = ofOwner after' owner) ∨
      (ofOwner before owner = ofOwner after owner ∧ ofOwner before' owner = ofOwner after' owner)) :
    RecordDiff.build zone before after = RecordDiff.build zone before' after' := by
  have hentry : ∀ key, diffRrset key (recordsOf zone before key) (recordsOf zone after key) =
      diffRrset key (recordsOf zone before' key) (recordsOf zone after' key) := fun key => by
    by_cases hkey : ∃ r : RecordData, r.rrsetKey zone = key
    · obtain ⟨r, rfl⟩ := hkey
      rw [recordsOf_ofOwner zone r before, recordsOf_ofOwner zone r after, recordsOf_ofOwner zone r before',
        recordsOf_ofOwner zone r after']
      rcases h r.name with ⟨hb, ha⟩ | ⟨hb, ha⟩
      · rw [hb, ha]
      · rw [hb, ha, diffRrset_eq, diffRrset_eq, if_pos rfl, if_pos rfl]
    · have hnone : ∀ l l' : List RecordData, key ∉ rrsetKeys zone l l' := fun l l' hmem => by
        obtain ⟨r, -, hr⟩ := mem_rrsetKeys.1 hmem
        exact hkey ⟨r, hr⟩
      rw [diffRrset_eq_none (hnone before after), diffRrset_eq_none (hnone before' after')]
  rw [build_eq_ofEntries, build_eq_ofEntries, buildRecordDiff_eq, buildRecordDiff_eq]
  simp only [hentry]
  refine congrArg _ (filterMap_eq_of_sorted toLex.injective (pairwise_mergeSort_key rrsetKeyLe_iff _)
    (nodup_rrsetKeys _ _ _) (pairwise_mergeSort_key rrsetKeyLe_iff _) (nodup_rrsetKeys _ _ _) fun key hkey => ⟨?_, ?_⟩)
  · by_contra hmem
    exact hkey (hentry key ▸ diffRrset_eq_none hmem)
  · by_contra hmem
    exact hkey (diffRrset_eq_none hmem)

theorem build_self (zone : Zone) (records : List RecordData) : RecordDiff.build zone records records = ⟨[], ⟨0, 0, 0⟩⟩ :=
  (build_of_owners fun _ => .inr ⟨rfl, rfl⟩).trans (b := RecordDiff.build zone [] []) (by
    rw [build_eq_ofEntries]
    simp [buildRecordDiff, RecordDiff.ofEntries])

/-- **The diff of what was loaded.**  When the rows of some owners are left out, of which none is deleted and to which
none is added, the diff is that of all rows. -/
theorem build_of_loaded (zone : Zone) (rows : List Record) (loaded : OwnerName → Bool) (kept : Record → Bool)
    {adds : List RecordData} (hkept : ∀ r ∈ rows, loaded r.name = false → kept r = true)
    (hadds : ∀ r ∈ adds, loaded r.name = true) :
    RecordDiff.build zone ((rows.filter fun r => loaded r.name).map (·.toRecordData))
        (((rows.filter fun r => loaded r.name).filter kept).map (·.toRecordData) ++ adds) =
      RecordDiff.build zone (rows.map (·.toRecordData)) ((rows.filter kept).map (·.toRecordData) ++ adds) := by
  have hrows : ∀ (l : List Record) (owner : OwnerName), ofOwner (l.map (·.toRecordData)) owner =
      (l.filter fun r => decide (r.name = owner)).map (·.toRecordData) := fun l owner => List.filter_map
  refine build_of_owners fun owner => ?_
  have happend : ∀ l : List Record, ofOwner (l.map (·.toRecordData) ++ adds) owner =
      (l.filter fun r => decide (r.name = owner)).map (·.toRecordData) ++ ofOwner adds owner := fun l => by
    rw [← hrows]
    exact List.filter_append _ _
  rw [happend, happend, hrows, hrows]
  cases howner : loaded owner with
  | true =>
      have hpart : ∀ l : List Record, (l.filter fun r => loaded r.name).filter (fun r => decide (r.name = owner)) =
          l.filter fun r => decide (r.name = owner) := fun l => by
        rw [List.filter_filter]
        refine List.filter_congr fun r _ => ?_
        by_cases hr : r.name = owner
        · simp [hr, howner]
        · simp [hr]
      have hswap : (rows.filter fun r => loaded r.name).filter kept = (rows.filter kept).filter fun r => loaded r.name := by
        rw [List.filter_filter, List.filter_filter]
        exact List.filter_congr fun r _ => Bool.and_comm _ _
      rw [hswap, hpart, hpart]
      exact .inl ⟨rfl, rfl⟩
  | false =>
      have hpart : ∀ l : List Record, (∀ r ∈ l, loaded r.name = true) → l.filter (fun r => decide (r.name = owner)) = [] :=
        fun l hl => List.filter_eq_nil_iff.2 fun r hr e => by
          have := hl r hr
          rw [of_decide_eq_true e, howner] at this
          cases this
      have hnone : ofOwner adds owner = [] := List.filter_eq_nil_iff.2 fun r hr e => by
        have := hadds r hr
        rw [of_decide_eq_true e, howner] at this
        cases this
      have hall : (rows.filter kept).filter (fun r => decide (r.name = owner)) =
          rows.filter fun r => decide (r.name = owner) := by
        rw [List.filter_filter]
        refine List.filter_congr fun r hr => ?_
        by_cases hname : r.name = owner
        · simp [hname, hkept r hr (by rw [hname, howner])]
        · simp [hname]
      rw [hnone, hpart _ fun r hr => (List.mem_filter.1 hr).2,
        hpart _ fun r hr => (List.mem_filter.1 (List.mem_of_mem_filter hr)).2, hall]
      exact .inr ⟨by simp, by simp⟩

/-! ### Bulk creation -/

section Bulk

variable {caller : Caller} {policies : List ZonePolicy} {prepared : List PreparedRecord} {tx : Tx} {s : BulkSteps}
  (hs : bulkSteps caller policies prepared tx = .ok s)

include hs

omit crates in
theorem createBulkTx_dry :
    createBulkTx caller policies prepared true tx = .ok (tx, s.toInsert.map fun r => { r with id := 0 }) := by
  rw [createBulkTx, hs]
  rfl

omit crates in
theorem createBulkTx_real (hok : TxOk tx) : ∃ tx', createBulkTx caller policies prepared false tx =
      .ok (tx', Tx.numbered tx.nextRecordId s.toInsert) ∧
    tx'.store.liveRecords = tx.store.liveRecords ++ s.toInsert ∧ tx'.store.zone.id = tx.store.zone.id := by
  obtain ⟨tx', hadv⟩ : ∃ tx', (tx.insertRecordsWithChanges s.newSerial s.toInsert).advanceSerial tx.store.zone s.newSerial =
      .ok tx' := hok.store.email.saveSnapshot _ _
  refine ⟨tx', ?_, ?_⟩
  · rw [createBulkTx, hs, Fallible.ok_bind, if_neg Bool.false_ne_true, hadv]
    rfl
  · obtain ⟨m, -, hadv⟩ := Fallible.bind_eq_ok.1 hadv
    cases hadv
    exact ⟨liveRecords_insertRecordsWithChanges tx s.newSerial s.toInsert, rfl⟩

theorem createBulkTxDiff_eq : createBulkTxDiff caller policies prepared tx = .ok
    (RecordDiff.build tx.store.zone tx.store.liveRecords (tx.store.liveRecords ++ s.toInsert)) := by
  obtain ⟨-, hexisting, -, hvalid⟩ := bulkSteps_eq_ok.1 hs
  have hnames : ∀ c ∈ s.toInsert, decide (c.name ∈ (bulkWrites tx.store.zone prepared).map (·.relativeName)) = true :=
    fun c hc => decide_eq_true (List.mem_map_of_mem (f := fun w : RecordWrite => w.relativeName)
      (mem_bulkWrites_of_validateBulk hvalid hc))
  have hdiff := build_of_loaded tx.store.zone tx.store.records
    (fun owner => decide (owner ∈ (bulkWrites tx.store.zone prepared).map (·.relativeName))) (fun _ => true)
    (fun _ _ _ => rfl) hnames
  rw [List.filter_true, List.filter_true] at hdiff
  rw [createBulkTxDiff, hs, Except.map, hexisting]
  exact congrArg Except.ok hdiff

end Bulk

/-! ### Import -/

/-- The rows that the real run leaves. -/
def importedRows (mode : ImportMode) (tx : Tx) (s : ImportSteps) : List Record :=
  if s.errors = [] then importRows mode s.normalized.desired tx else tx.store.records

section Import

variable {content : Text} {mode : ImportMode} {tx : Tx} {s : ImportSteps} (hs : importSteps content mode tx = .ok s)

include hs

theorem importSteps_plan : s.existing = loadExisting mode s.normalized.desired tx ∧
    s.reconciled = importPlan mode s.normalized.desired tx := by
  obtain ⟨n, addErrors, -, rfl, -⟩ := importSteps_eq_ok.1 hs
  exact ⟨rfl, rfl⟩

theorem importTx_dry : importTx ⟨content, mode, true⟩ tx = .ok (tx, ⟨false, true,
    importSummary s.reconciled s.normalized.desired.length s.normalized.skipped, s.errors⟩) := by
  rw [importTx, hs, Fallible.ok_bind]
  simp only [Bool.not_true, Bool.and_false, Bool.false_and, Bool.false_eq_true, if_false]
  rfl

theorem importTx_real (hok : TxOk tx) (hroom : tx.store.zone.serial < i32Max) :
    ∃ tx', importTx ⟨content, mode, false⟩ tx = .ok (tx', ⟨s.errors.isEmpty, false,
      importSummary s.reconciled s.normalized.desired.length s.normalized.skipped, s.errors⟩) ∧
    tx'.store.records = importedRows mode tx s ∧ tx'.store.zone.id = tx.store.zone.id := by
  obtain ⟨-, hplan⟩ := importSteps_plan hs
  obtain ⟨tx₁, happly⟩ : ∃ tx₁, applyImport s.reconciled tx = .ok tx₁ := by
    obtain ⟨tx₁, hadv⟩ := hok.store.email.saveSnapshot _ (tx.store.zone.serial + 1)
    exact ⟨tx₁, Fallible.bind_eq_ok.2 ⟨_, generateSerial_eq_ok.2 ⟨hroom.ne, rfl⟩, hadv⟩⟩
  obtain ⟨hrows, m, hzone⟩ := records_of_applyImport (hplan ▸ happly)
  rw [importTx, hs, Fallible.ok_bind]
  simp only [Bool.not_false, Bool.and_true, happly]
  by_cases herrors : s.errors = []
  · rw [importedRows, if_pos herrors, herrors]
    cases hchanges : s.reconciled.hasChanges with
    | true => exact ⟨tx₁, rfl, hrows, by rw [hzone]⟩
    | false => exact ⟨tx, rfl, (importRows_of_not_hasChanges (hplan ▸ hchanges)).symm, rfl⟩
  · have hempty : s.errors.isEmpty = false := by simpa using herrors
    rw [importedRows, if_neg herrors, hempty]
    exact ⟨tx, rfl, rfl, rfl⟩

theorem importTxDiff_eq : importTxDiff ⟨content, mode, true⟩ tx = .ok (RecordDiff.build tx.store.zone
    tx.store.liveRecords ((importedRows mode tx s).map (·.toRecordData))) := by
  obtain ⟨hexisting, hplan⟩ := importSteps_plan hs
  have hrows : (importRows mode s.normalized.desired tx).map (·.toRecordData) =
      (tx.survivors (s.reconciled.dels ++ s.reconciled.ttlDels)).map (·.toRecordData) ++
        s.reconciled.adds.map (·.data) := by
    rw [importRows, List.map_append, numbered_map_toRecordData, hplan]
  rw [importTxDiff, hs, Except.map, Bool.true_and]
  refine congrArg Except.ok ?_
  by_cases herrors : s.errors = []
  · rw [importedRows, if_pos herrors, herrors, hrows, importDiff, hexisting]
    simp only [List.isEmpty_nil, if_true]
    cases mode with
    | append =>
        have hnames : ∀ c ∈ s.reconciled.adds.map (·.data),
            decide (c.name ∈ s.normalized.desired.map (·.data.name)) = true := fun c hc => by
          rw [hplan] at hc
          obtain ⟨d, hd, rfl⟩ := List.mem_map.1 hc
          exact decide_eq_true (List.mem_map_of_mem (f := fun d : DesiredRecord => d.data.name) (List.mem_of_mem_filter hd))
        refine build_of_loaded tx.store.zone tx.store.records
          (fun owner => decide (owner ∈ s.normalized.desired.map (·.data.name))) _ (fun r _ _ => ?_) hnames
        -- nothing is deleted
        simp [hplan, importPlan, reconcile, impliedDels, staleRows]
    | upsert => rfl
    | replace => rfl
  · have hempty : s.errors.isEmpty = false := by simpa using herrors
    rw [importedRows, if_neg herrors, hempty, if_neg Bool.false_ne_true]
    exact (build_self _ _).symm

end Import

/-! ### Dry runs of the service -/

/-- The dry run of a bulk creation and the real run. -/
structure BulkPreview (db : Db) (caller : Caller) (zoneName : Text) (items : List RecordItem) : Prop where
  writesNothing : step db (.createBulk caller zoneName items true) = db
  succeeds : (∃ db₀ rs, createBulk db caller zoneName items true = .ok (db₀, rs)) ↔
    ∃ db' rs, createBulk db caller zoneName items false = .ok (db', rs)
  agrees : ∀ db₀ rs db' rs', createBulk db caller zoneName items true = .ok (db₀, rs) →
    createBulk db caller zoneName items false = .ok (db', rs') →
    rs.map (·.toRecordData) = rs'.map (·.toRecordData) ∧
    ∀ st ∈ db.stores, normalizeZoneName zoneName = .ok st.zone.name → ∀ st' ∈ db'.stores, st'.zone.id = st.zone.id →
      createBulkDiff db caller zoneName items = .ok (RecordDiff.build st.zone st.liveRecords st'.liveRecords)

/-- The dry run of an import and the real run. -/
structure ImportPreview (db : Db) (caller : Caller) (zoneName : Text) (content : Text) (mode : ImportMode) : Prop where
  writesNothing : step db (.importZoneFile caller zoneName ⟨content, mode, true⟩) = db
  succeeds : (∃ db₀ r, importZoneFile db caller zoneName ⟨content, mode, true⟩ = .ok (db₀, r) ∧ r.errors = []) ↔
    ∃ db' r, importZoneFile db caller zoneName ⟨content, mode, false⟩ = .ok (db', r) ∧ r.applied = true
  agrees : ∀ db₀ r db' r', importZoneFile db caller zoneName ⟨content, mode, true⟩ = .ok (db₀, r) →
    importZoneFile db caller zoneName ⟨content, mode, false⟩ = .ok (db', r') →
    r.summary = r'.summary ∧ r.errors = r'.errors ∧
    ∀ st ∈ db.stores, normalizeZoneName zoneName = .ok st.zone.name → ∀ st' ∈ db'.stores, st'.zone.id = st.zone.id →
      importZoneFileDiff db caller zoneName ⟨content, mode, true⟩ =
        .ok (RecordDiff.build st.zone st.liveRecords st'.liveRecords)

/-- The dry run of a rollback and the real run, in which the hash map may have another order. -/
structure RollbackPreview (db : Db) (caller : Caller) (zoneName : Text) (target : ℤ) (hash hash' : HashOrder) : Prop where
  writesNothing : step db (.rollback caller hash zoneName target true) = db
  succeeds : (∃ db₀ r, rollback db caller hash zoneName target true = .ok (db₀, r)) ↔
    ∃ db' r, rollback db caller hash' zoneName target false = .ok (db', r)
  agrees : ∀ db₀ r db' r', rollback db caller hash zoneName target true = .ok (db₀, r) →
    rollback db caller hash' zoneName target false = .ok (db', r') → r' = { r with applied := true, dryRun := false }

theorem step_dryRun {db : Db} (hdb : DbOk db) {op : Op} (hdry : op.dryRun = true) : step db op = db := by
  rw [step]
  cases h : execute db op with
  | none => rfl
  | some db' => exact execute_dryRun hdb hdry h

omit crates in
theorem inTx_eq_ok {ε α : Type} {db db' : Db} {st : ZoneStore} {body : Tx → Except ε (Tx × α)} {a : α} :
    db.inTx st body = .ok (db', a) ↔ ∃ tx, body (db.beginTx st) = .ok (tx, a) ∧ db.commit tx = db' := by
  rw [Db.inTx, Fallible.bind_eq_ok]
  constructor
  · rintro ⟨⟨tx, a'⟩, hbody, h⟩
    cases h
    exact ⟨tx, hbody, rfl⟩
  · rintro ⟨tx, hbody, rfl⟩
    exact ⟨(tx, a), hbody, rfl⟩

omit crates in
theorem eq_of_mem_commit {db : Db} {st st' : ZoneStore} {tx : Tx} (hst : st ∈ db.stores)
    (hid : tx.store.zone.id = st.zone.id) (hst' : st' ∈ (db.commit tx).stores) (hid' : st'.zone.id = st.zone.id) :
    st' = tx.store := by
  rcases (mem_commit hst hid).1 hst' with rfl | ⟨_, hne⟩
  · rfl
  · exact absurd hid' hne

theorem createBulk_iff {db : Db} {caller : Caller} {zoneName : Text} {items : List RecordItem} {dryRun : Bool}
    {db' : Db} {rs : List Record} : createBulk db caller zoneName items dryRun = .ok (db', rs) ↔
      items ≠ [] ∧ ∃ prepared st tx, items.mapM prepareRecord = .ok prepared ∧ db.lookupByName zoneName = .ok st ∧
        createBulkTx caller db.tokenPolicies prepared dryRun (db.beginTx st) = .ok (tx, rs) ∧ db.commit tx = db' := by
  unfold createBulk
  split
  · simp [*]
  · simp only [Fallible.bind_eq_ok, inTx_eq_ok]
    constructor
    · rintro ⟨prepared, hprepared, st, hst, tx, htx, rfl⟩
      exact ⟨‹_›, prepared, st, tx, hprepared, hst, htx, rfl⟩
    · rintro ⟨_, prepared, st, tx, hprepared, hst, htx, rfl⟩
      exact ⟨prepared, hprepared, st, hst, tx, htx, rfl⟩

theorem bulkPreview {db : Db} (hdb : DbOk db) (caller : Caller) (zoneName : Text) (items : List RecordItem) :
    BulkPreview db caller zoneName items where
  writesNothing := step_dryRun hdb rfl
  succeeds := by
    constructor
    · rintro ⟨db₀, rs, h⟩
      obtain ⟨hitems, prepared, st, tx, hprepared, hst, htx, -⟩ := createBulk_iff.1 h
      obtain ⟨s, hs, -⟩ := Fallible.bind_eq_ok.1 htx
      obtain ⟨tx', htx', -⟩ := createBulkTx_real hs (hdb.txOk (lookupByName_eq_ok hst).1)
      exact ⟨_, _, createBulk_iff.2 ⟨hitems, prepared, st, tx', hprepared, hst, htx', rfl⟩⟩
    · rintro ⟨db', rs, h⟩
      obtain ⟨hitems, prepared, st, tx, hprepared, hst, htx, -⟩ := createBulk_iff.1 h
      obtain ⟨s, hs, -⟩ := Fallible.bind_eq_ok.1 htx
      exact ⟨_, _, createBulk_iff.2 ⟨hitems, prepared, st, _, hprepared, hst, createBulkTx_dry hs, rfl⟩⟩
  agrees := by
    intro db₀ rs db' rs' h h'
    obtain ⟨hitems, prepared, st, tx, hprepared, hst, htx, -⟩ := createBulk_iff.1 h
    obtain ⟨-, prepared', st₁, tx', hprepared', hst₁, htx', rfl⟩ := createBulk_iff.1 h'
    obtain rfl := Except.ok.inj (hprepared.symm.trans hprepared')
    obtain rfl := Except.ok.inj (hst.symm.trans hst₁)
    obtain ⟨hmem, hname⟩ := lookupByName_eq_ok hst
    obtain ⟨s, hs, -⟩ := Fallible.bind_eq_ok.1 htx
    obtain ⟨tx₁, htx₁, hrows, hid⟩ := createBulkTx_real hs (hdb.txOk hmem)
    obtain ⟨rfl, rfl⟩ := Prod.mk.inj (Except.ok.inj (htx₁.symm.trans htx'))
    obtain ⟨-, rfl⟩ := Prod.mk.inj (Except.ok.inj ((createBulkTx_dry hs).symm.trans htx))
    refine ⟨?_, fun st₀ hst₀ hname₀ st' hst' hid' => ?_⟩
    · rw [numbered_map_toRecordData, List.map_map]
      exact List.map_id _
    · obtain rfl : st₀ = st := hdb.eq_of_name_eq hst₀ hmem (Except.ok.inj (hname₀.symm.trans hname))
      obtain rfl := eq_of_mem_commit hmem hid hst' hid'
      rw [createBulkDiff, if_neg hitems, hprepared, Fallible.ok_bind, hst, Fallible.ok_bind, createBulkTxDiff_eq hs, hrows]
      rfl

theorem importZoneFile_iff {db : Db} {caller : Caller} {zoneName : Text} {request : ImportZoneFileRequest}
    {db' : Db} {r : ImportZoneFileResponse} : importZoneFile db caller zoneName request = .ok (db', r) ↔
      caller.requireGlobal (lit "import zone files") = .ok () ∧ ∃ st tx, db.lookupByName zoneName = .ok st ∧
        importTx request (db.beginTx st) = .ok (tx, r) ∧ db.commit tx = db' := by
  simp only [importZoneFile, Fallible.bind_eq_ok, inTx_eq_ok]
  constructor
  · rintro ⟨_, hcaller, st, hst, tx, htx, rfl⟩
    exact ⟨hcaller, st, tx, hst, htx, rfl⟩
  · rintro ⟨hcaller, st, tx, hst, htx, rfl⟩
    exact ⟨(), hcaller, st, hst, tx, htx, rfl⟩

theorem importPreview {db : Db} (hdb : DbOk db) (caller : Caller) {zoneName : Text} (content : Text) (mode : ImportMode)
    (hroom : ∀ st, db.lookupByName zoneName = .ok st → st.zone.serial < i32Max) :
    ImportPreview db caller zoneName content mode where
  writesNothing := step_dryRun hdb rfl
  succeeds := by
    constructor
    · rintro ⟨db₀, r, h, herrors⟩
      obtain ⟨hcaller, st, tx, hst, htx, -⟩ := importZoneFile_iff.1 h
      obtain ⟨s, hs, -⟩ := Fallible.bind_eq_ok.1 htx
      obtain ⟨-, rfl⟩ := Prod.mk.inj (Except.ok.inj ((importTx_dry hs).symm.trans htx))
      obtain ⟨tx', htx', -⟩ := importTx_real hs (hdb.txOk (lookupByName_eq_ok hst).1) (hroom st hst)
      exact ⟨_, _, importZoneFile_iff.2 ⟨hcaller, st, tx', hst, htx', rfl⟩, List.isEmpty_iff.2 herrors⟩
    · rintro ⟨db', r, h, happlied⟩
      obtain ⟨hcaller, st, tx, hst, htx, -⟩ := importZoneFile_iff.1 h
      obtain ⟨s, hs, -⟩ := Fallible.bind_eq_ok.1 htx
      obtain ⟨tx', htx', -⟩ := importTx_real hs (hdb.txOk (lookupByName_eq_ok hst).1) (hroom st hst)
      obtain ⟨-, rfl⟩ := Prod.mk.inj (Except.ok.inj (htx'.symm.trans htx))
      exact ⟨_, _, importZoneFile_iff.2 ⟨hcaller, st, _, hst, importTx_dry hs, rfl⟩, List.isEmpty_iff.1 happlied⟩
  agrees := by
    intro db₀ r db' r' h h'
    obtain ⟨hcaller, st, tx, hst, htx, -⟩ := importZoneFile_iff.1 h
    obtain ⟨-, st₁, tx', hst₁, htx', rfl⟩ := importZoneFile_iff.1 h'
    obtain rfl := Except.ok.inj (hst.symm.trans hst₁)
    obtain ⟨hmem, hname⟩ := lookupByName_eq_ok hst
    obtain ⟨s, hs, -⟩ := Fallible.bind_eq_ok.1 htx
    obtain ⟨tx₁, htx₁, hrows, hid⟩ := importTx_real hs (hdb.txOk hmem) (hroom st hst)
    obtain ⟨rfl, rfl⟩ := Prod.mk.inj (Except.ok.inj (htx₁.symm.trans htx'))
    obtain ⟨-, rfl⟩ := Prod.mk.inj (Except.ok.inj ((importTx_dry hs).symm.trans htx))
    refine ⟨rfl, rfl, fun st₀ hst₀ hname₀ st' hst' hid' => ?_⟩
    obtain rfl : st₀ = st := hdb.eq_of_name_eq hst₀ hmem (Except.ok.inj (hname₀.symm.trans hname))
    obtain rfl := eq_of_mem_commit hmem hid hst' hid'
    rw [importZoneFileDiff, hcaller, Fallible.ok_bind, hst, Fallible.ok_bind, importTxDiff_eq hs,
      show tx₁.store.liveRecords = tx₁.store.records.map (·.toRecordData) from rfl, hrows]
    rfl

omit crates in
theorem rollback_iff {db : Db} {caller : Caller} {hash : HashOrder} {zoneName : Text} {target : ℤ} {dryRun : Bool}
    {db' : Db} {r : RollbackZoneResponse} (hdb : DbOk db) : rollback db caller hash zoneName target dryRun = .ok (db', r) ↔
      caller.requireGlobal (lit "roll back zones") = .ok () ∧ ∃ st ∈ db.stores, normalizeZoneName zoneName = .ok st.zone.name ∧
        ∃ tx, rollbackTx hash target dryRun (db.beginTx st) = .ok (tx, r) ∧ db.commit tx = db' := by
  simp only [rollback, Fallible.bind_eq_ok, inTx_eq_ok]
  constructor
  · rintro ⟨_, hcaller, name, hname, st, hst, tx, htx, rfl⟩
    obtain ⟨hmem, hname'⟩ := lookupByName_eq_ok hst
    rw [normalizeZoneName_text] at hname'
    exact ⟨hcaller, st, hmem, hname.trans hname', tx, htx, rfl⟩
  · rintro ⟨hcaller, st, hmem, hname, tx, htx, rfl⟩
    exact ⟨(), hcaller, _, hname, st, hdb.lookupByName_eq hmem (normalizeZoneName_text _), tx, htx, rfl⟩

omit crates in
theorem snapshot_of_rollbackTx {hash : HashOrder} {target : ℤ} {dryRun : Bool} {tx : Tx} {out : Tx × RollbackZoneResponse}
    (h : rollbackTx hash target dryRun tx = .ok out) :
    ∃ sn ∈ tx.store.snapshots, sn.serial = target ∧ sn.serial < tx.store.zone.serial := by
  unfold rollbackTx at h
  simp only at h
  split at h
  · cases h
  · rename_i hlt
    split at h
    · cases h
    · rename_i sn hsn
      obtain ⟨hmem, hserial⟩ := StoreOk.snapshotBySerial hsn
      exact ⟨sn, hmem, hserial, by omega⟩

theorem exists_rollbackTx (ops : List Op) {st : ZoneStore} (hst : st ∈ (run ops).stores) (hroom : st.zone.serial < i32Max)
    {sn : ZoneSnapshot} (hsn : sn ∈ st.snapshots) (hlt : sn.serial < st.zone.serial) :
    ∃ report : RollbackZoneResponse, ∀ hash dryRun, ∃ tx', rollbackTx hash sn.serial dryRun ((run ops).beginTx st) =
      .ok (tx', { report with applied := !dryRun, dryRun := dryRun }) := by
  obtain ⟨pre, hpre, st₀, hst₀, hid, hserial, hsn₀⟩ := run_snapshot hst hsn
  have h₀ := (run_ok pre).store st₀ hst₀
  obtain ⟨plan, left, -, -, -, hrun⟩ := rollbackTx_plan ((run_ok ops).txOk hst) h₀ (run_evolves hpre hst₀ hst hid) hsn hsn₀
    hserial hlt hroom
  refine ⟨⟨true, false, sn.serial, st.zone.serial + 1, (plan.toAdd ++ left).length, plan.dels.length, plan.unchanged,
    soaMetadataChanged st.zone (st.restoredZone st₀)⟩, fun hash dryRun => ?_⟩
  have hlength : (plan.toAdd ++ hash.order left).length = (plan.toAdd ++ left).length :=
    ((hash.perm left).append_left _).length_eq
  rw [hrun, hlength]
  cases dryRun with
  | true => exact ⟨_, rfl⟩
  | false =>
      obtain ⟨tx', htx'⟩ := applyRollback_ok ((run_ok ops).store st hst).email (st.restoredZone st₀) h₀.email
        (st.zone.serial + 1) plan.dels (plan.toAdd ++ hash.order left) ((run ops).beginTx st)
      exact ⟨tx', by rw [if_neg Bool.false_ne_true]; exact congrArg (Except.map _) htx'⟩

theorem rollbackPreview (ops : List Op) (caller : Caller) {zoneName : Text} (target : ℤ) (hash hash' : HashOrder)
    (hroom : ∀ st ∈ (run ops).stores, normalizeZoneName zoneName = .ok st.zone.name → st.zone.serial < i32Max) :
    RollbackPreview (run ops) caller zoneName target hash hash' := by
  have hdb := run_ok ops
  -- a run of the rollback, dry or not, gives every other
  have hother : ∀ hash dryRun db₀ r, rollback (run ops) caller hash zoneName target dryRun = .ok (db₀, r) →
      ∀ hash' dryRun', ∃ db', rollback (run ops) caller hash' zoneName target dryRun' =
        .ok (db', { r with applied := !dryRun', dryRun := dryRun' }) := by
    intro hash dryRun db₀ r h hash' dryRun'
    obtain ⟨hcaller, st, hst, hname, tx, htx, -⟩ := (rollback_iff hdb).1 h
    obtain ⟨sn, hsn, rfl, hlt⟩ := snapshot_of_rollbackTx htx
    obtain ⟨report, hreport⟩ := exists_rollbackTx ops hst (hroom st hst hname) hsn hlt
    obtain ⟨tx₁, htx₁⟩ := hreport hash dryRun
    obtain ⟨-, rfl⟩ := Prod.mk.inj (Except.ok.inj (htx₁.symm.trans htx))
    obtain ⟨tx', htx'⟩ := hreport hash' dryRun'
    exact ⟨_, (rollback_iff hdb).2 ⟨hcaller, st, hst, hname, tx', htx', rfl⟩⟩
  refine ⟨step_dryRun hdb rfl, ⟨?_, ?_⟩, ?_⟩
  · rintro ⟨db₀, r, h⟩
    obtain ⟨db', h'⟩ := hother hash true db₀ r h hash' false
    exact ⟨db', _, h'⟩
  · rintro ⟨db', r, h⟩
    obtain ⟨db₀, h'⟩ := hother hash' false db' r h hash true
    exact ⟨db₀, _, h'⟩
  · intro db₀ r db' r' h h'
    obtain ⟨db₁, h₁⟩ := hother hash true db₀ r h hash' false
    exact (Prod.mk.inj (Except.ok.inj (h'.symm.trans h₁))).2

/-- **A dry run predicts the real run.**  On every reachable zone whose serial can still advance, a dry run of a bulk
creation, an import or a rollback writes nothing, succeeds exactly when the real run does, and reports what it reports;
the diffs are those of the zone's rows before and after the real run. -/
theorem dry_run_predicts (ops : List Op) (caller : Caller) (zoneName : Text)
    (hroom : ∀ st ∈ (run ops).stores, normalizeZoneName zoneName = .ok st.zone.name → st.zone.serial < i32Max) :
    (∀ items, BulkPreview (run ops) caller zoneName items) ∧
    (∀ content mode, ImportPreview (run ops) caller zoneName content mode) ∧
    ∀ target hash hash', RollbackPreview (run ops) caller zoneName target hash hash' :=
  ⟨bulkPreview (run_ok ops) caller zoneName,
    fun content mode => importPreview (run_ok ops) caller content mode fun st hst =>
      hroom st (lookupByName_eq_ok hst).1 (lookupByName_eq_ok hst).2,
    fun target hash hash' => rollbackPreview ops caller target hash hash' hroom⟩

end Preview

theorem dry_run_predicts_sampleHistory :
    ∃ db₀ rs db' rs', @createBulk sampleCrates (@run sampleCrates sampleHistory) .global (lit "example.com") bulkItems true =
        .ok (db₀, rs) ∧
      @createBulk sampleCrates (@run sampleCrates sampleHistory) .global (lit "example.com") bulkItems false =
        .ok (db', rs') ∧
      rs.map (·.toRecordData) = rs'.map (·.toRecordData) := by
  have hserial : ∀ st ∈ (@run sampleCrates sampleHistory).stores, st.zone.serial < i32Max := by decide +kernel
  obtain ⟨hbulk, -, -⟩ := @dry_run_predicts sampleCrates sampleHistory .global (lit "example.com") fun st hst _ =>
    hserial st hst
  obtain ⟨⟨db₀, rs⟩, h⟩ := Fallible.exists_of_isOk (x := @createBulk sampleCrates (@run sampleCrates sampleHistory) .global
    (lit "example.com") bulkItems true) (by decide +kernel)
  obtain ⟨db', rs', h'⟩ := (@BulkPreview.succeeds sampleCrates _ _ _ _ (hbulk bulkItems)).1 ⟨db₀, rs, h⟩
  exact ⟨db₀, rs, db', rs', h, h', (@BulkPreview.agrees sampleCrates _ _ _ _ (hbulk bulkItems) _ _ _ _ h h').1⟩

end Bindizr
