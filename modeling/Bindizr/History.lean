import Bindizr.ZoneService
import Bindizr.Journal

/-! # Snapshots, reconstruction and rollback

`bindizr-service/src/zone/history.rs`.  The rows of a past serial are rebuilt by undoing the
change log above it, newest entry first, on the live rows (`reconstructRecordsAtSerial`): an
addition is undone by taking away a row with the same match key (owner, type, canonical
rdata), a deletion by putting the logged row back.  A rollback brings the zone to the rows and
the SOA fields of a snapshot under a new serial, by deleting, keeping and adding rows
(`rollbackTx`). -/

namespace Bindizr

/-! ### Match keys -/

/-- `MatchKey`: stored owner name, type and canonical rdata. -/
abbrev MatchKey := Text × RecordType × Text

def RecordData.matchKey (r : RecordData) : MatchKey := (r.name.toStored, r.recordType, r.canonical)

/-- `Vec::pop` on the entry of a map: the last element with the key, and the rest. -/
def popKey (key : MatchKey) (rs : List RecordData) : Option (RecordData × List RecordData) :=
  Journal.popLast (·.matchKey = key) rs

/-! ### Reconstruction -/

/-- `list_changes_between_serials`: the log in `(fromSerial, toSerial]`, by serial and then in
the order written. -/
def ZoneStore.changesBetween (st : ZoneStore) (fromSerial toSerial : ℤ) : List ZoneChange :=
  (st.changes.filter fun c => decide (fromSerial < c.serial) && decide (c.serial ≤ toSerial)).mergeSort
    fun a b => decide (a.serial ≤ b.serial)

/-- Undo one log entry; an addition with no row to take away leaves the rows alone. -/
def undoChange (state : List RecordData) (c : ZoneChange) : List RecordData :=
  if c.record.recordType = .soa then state
  else
    match c.operation with
    | .add =>
        match popKey c.record.matchKey state with
        | some (_, rest) => rest
        | none => state
    | .del => state ++ [c.record]

/-- The order of `sort_records`: owner, type mnemonic, value. -/
def recordLe (a b : RecordData) : Bool :=
  if a.name.labels ≠ b.name.labels then decide (a.name.labels < b.name.labels)
  else if a.recordType.asStr ≠ b.recordType.asStr then decide (a.recordType.asStr < b.recordType.asStr)
  else decide (a.value ≤ b.value)

def sortRecords (rs : List RecordData) : List RecordData := rs.mergeSort recordLe

/-- The zone's live rows, as reconstructed records. -/
def ZoneStore.liveRecords (st : ZoneStore) : List RecordData := st.records.map (·.toRecordData)

def ZoneStore.reconstructRecordsAtSerial (st : ZoneStore) (targetSerial currentSerial : ℤ) :
    List RecordData :=
  sortRecords ((st.changesBetween targetSerial currentSerial).reverse.foldl undoChange st.liveRecords)

def ZoneStore.recordsAtSerial (st : ZoneStore) (serial currentSerial : ℤ) : List RecordData :=
  if serial = currentSerial then sortRecords st.liveRecords
  else st.reconstructRecordsAtSerial serial currentSerial

/-- `get_zone_snapshot_by_serial`. -/
def ZoneStore.snapshotBySerial (st : ZoneStore) (serial : ℤ) : Option ZoneSnapshot :=
  st.snapshots.find? (·.serial == serial)

/-! ### Rollback -/

def restoredZoneFromSnapshot (zone : Zone) (snapshot : ZoneSnapshot) (newSerial : ℤ) :
    Except ServiceError Zone := do
  let adminEmail ← (soaMailboxToEmail snapshot.adminEmail).mapError fun e =>
    ⟨.internal, lit "Failed to decode snapshot admin email: " ++ e⟩
  pure ⟨zone.id, zone.name, snapshot.primaryNs, adminEmail, snapshot.ttl, newSerial, snapshot.refresh,
    snapshot.retry, snapshot.expire, snapshot.minimumTtl⟩

def soaMetadataChanged (zone restored : Zone) : Bool :=
  zone.primaryNs != restored.primaryNs || zone.adminEmail != restored.adminEmail ||
    zone.ttl != restored.ttl || zone.refresh != restored.refresh || zone.retry != restored.retry ||
    zone.expire != restored.expire || zone.minimumTtl != restored.minimumTtl

/-- What a rollback deletes and adds, and how many rows it leaves. -/
structure RollbackPlan where
  dels : List Record
  toAdd : List RecordData
  unchanged : ℕ

/-- The loop of `rollback` over the current rows: the plan, and the target rows no current row
matched. -/
def matchTargets (restored : Zone) : List Record → List RecordData → RollbackPlan × List RecordData
  | [], targets => (⟨[], [], 0⟩, targets)
  | r :: rs, targets =>
      match popKey r.toRecordData.matchKey targets with
      | some (target, rest) =>
          let (plan, left) := matchTargets restored rs rest
          if r.ttl ≠ target.ttl ∧ r.recordType ≠ .soa then
            ({ plan with dels := r :: plan.dels, toAdd := target :: plan.toAdd }, left)
          else ({ plan with unchanged := plan.unchanged + 1 }, left)
      | none =>
          let (plan, left) := matchTargets restored rs targets
          match validateDeleteConstraints restored [r.toRecordData] with
          | .ok () => ({ plan with dels := r :: plan.dels }, left)
          | .error _ => ({ plan with unchanged := plan.unchanged + 1 }, left)

/-- An order of iteration of a hash map's values. -/
structure HashOrder where
  order : List RecordData → List RecordData
  perm : ∀ rs, (order rs).Perm rs

/-- The additions of a rollback: those the matching found, the targets left over in the order
of a hash map, and the apex NS the restored `primary_ns` needs when none is there. -/
def rollbackAdds (hash : HashOrder) (restored : Zone) (current : List Record) (plan : RollbackPlan)
    (left : List RecordData) : List RecordData :=
  let toAdd := plan.toAdd ++ hash.order left
  let surviving := (current.filter (·.id ∉ plan.dels.map (·.id))).map (·.toRecordData)
  if surviving.any restored.isPrimaryNs || toAdd.any restored.isPrimaryNs then toAdd
  else toAdd ++ [restored.primaryNsRecord (apexNsRrsetTtl restored (toAdd ++ surviving))]

structure RollbackZoneResponse where
  applied : Bool
  dryRun : Bool
  targetSerial : ℤ
  newSerial : ℤ
  recordsAdded : ℕ
  recordsDeleted : ℕ
  recordsUnchanged : ℕ
  soaChanged : Bool
  deriving DecidableEq

/-- The change of the SOA a rollback logs, when there is one. -/
def rollbackSoaChanges (zone restored : Zone) (newSerial : ℤ) : Except ServiceError (List ZoneChange) :=
  if soaMetadataChanged zone restored then soaReplacementChanges zone restored newSerial else .ok []

/-- The writes of a rollback that is applied. -/
def applyRollback (zone restored : Zone) (newSerial : ℤ) (dels : List Record) (toAdd : List RecordData)
    (tx : Tx) : Except ServiceError Tx := do
  let tx := tx.updateZone restored
  let changes ← rollbackSoaChanges zone restored newSerial
  (((tx.createZoneChanges changes).deleteRecordsWithChanges newSerial dels).insertRecordsWithChanges
    newSerial toAdd).saveSnapshot restored newSerial

/-- The transaction of `ZoneService::rollback`. -/
def rollbackTx (hash : HashOrder) (targetSerial : ℤ) (dryRun : Bool) (tx : Tx) :
    Except ServiceError (Tx × RollbackZoneResponse) := do
  let zone := tx.store.zone
  if targetSerial < 1 ∨ zone.serial ≤ targetSerial then
    .error ⟨.invalidInput, lit "target serial " ++ intText targetSerial ++
      lit " must be less than the current serial " ++ intText zone.serial⟩
  else
    match tx.store.snapshotBySerial targetSerial with
    | none => .error (.snapshotNotFound zone.name.text targetSerial)
    | some snapshot => do
        let newSerial ← generateSerial zone.serial
        let restored ← restoredZoneFromSnapshot zone snapshot newSerial
        let targets := tx.store.reconstructRecordsAtSerial targetSerial zone.serial
        let (plan, left) := matchTargets restored tx.store.records targets
        let toAdd := rollbackAdds hash restored tx.store.records plan left
        validateEach (tx.store.records.filter (·.id ∉ plan.dels.map (·.id))) toAdd
        let response (applied : Bool) : RollbackZoneResponse := ⟨applied, dryRun, targetSerial, newSerial,
          toAdd.length, plan.dels.length, plan.unchanged, soaMetadataChanged zone restored⟩
        if dryRun then pure (tx, response false)
        else do
          let tx ← applyRollback zone restored newSerial plan.dels toAdd tx
          pure (tx, response true)

def rollback (db : Db) (caller : Caller) (hash : HashOrder) (zoneName : Text) (targetSerial : ℤ)
    (dryRun : Bool) : Except ServiceError (Db × RollbackZoneResponse) := do
  caller.requireGlobal (lit "roll back zones")
  let lookupName ← normalizeZoneName zoneName
  let store ← db.lookupByName lookupName.text
  db.inTx store (rollbackTx hash targetSerial dryRun)

end Bindizr
