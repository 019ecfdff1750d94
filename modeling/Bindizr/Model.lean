import Bindizr.RecordValue

/-! # The data model

The rows the service keeps and the repository functions that read and write them
(`bindizr-core/src/model`, `bindizr-db/src/repository`).  A zone's row, its records, its
change log and its snapshots form one `ZoneStore`, the tables restricted to one `zone_id`;
the database (`Db`) holds one store per zone, the policy rows and the two counters that
number new zones and records.  Rows keep the order they were inserted in, which is the order
of their ids.

The columns that describe a record without its identity are `RecordData`: a record row adds
its id, a change-log row its serial and operation. -/

namespace Bindizr

/-! ### Errors -/

/-- `ErrorCode`, as far as the modelled functions use it. -/
inductive ErrorCode where
  | invalidInput
  | invalidZone
  | invalidRecordName
  | invalidRecordValue
  | zoneConflict
  | recordConflict
  | zoneNotFound
  | recordNotFound
  | snapshotNotFound
  | forbidden
  | internal
  deriving DecidableEq, Repr

def ErrorCode.httpStatus : ErrorCode → ℕ
  | .invalidInput | .invalidZone | .invalidRecordName | .invalidRecordValue => 400
  | .forbidden => 403
  | .zoneNotFound | .recordNotFound | .snapshotNotFound => 404
  | .zoneConflict | .recordConflict => 409
  | .internal => 500

structure ServiceError where
  code : ErrorCode
  message : Text
  deriving DecidableEq

namespace ServiceError

def zoneNotFound (name : Text) : ServiceError :=
  ⟨.zoneNotFound, lit "Zone with name '" ++ name ++ lit "' not found"⟩

def recordNotFound (id : ℕ) : ServiceError :=
  ⟨.recordNotFound, lit "Record with id '" ++ natText id ++ lit "' not found"⟩

def snapshotNotFound (zoneName : Text) (serial : ℤ) : ServiceError :=
  ⟨.snapshotNotFound, lit "No snapshot with serial '" ++ intText serial ++ lit "' for zone '" ++
    zoneName ++ lit "'"⟩

end ServiceError

/-! ### Rows -/

/-- What a record is, apart from its row's identity: owner, type, value, TTL and priority. -/
structure RecordData where
  name : OwnerName
  recordType : RecordType
  value : Text
  ttl : ℤ
  priority : Option ℤ
  deriving DecidableEq

/-- A row of `records`, within its zone. -/
structure Record extends RecordData where
  id : ℕ
  deriving DecidableEq

structure Zone where
  id : ℕ
  name : ZoneName
  primaryNs : ZoneName
  adminEmail : Text
  ttl : ℤ
  serial : ℤ
  refresh : ℤ
  retry : ℤ
  expire : ℤ
  minimumTtl : ℤ
  deriving DecidableEq

/-- The operation of a change-log row. -/
inductive ChangeOp where
  | add
  | del
  deriving DecidableEq, Repr

/-- A row of `zone_changes`, within its zone. -/
structure ZoneChange where
  serial : ℤ
  operation : ChangeOp
  record : RecordData
  deriving DecidableEq

/-- A row of `zone_soa_history`, within its zone; `adminEmail` is in mailbox form. -/
structure ZoneSnapshot where
  serial : ℤ
  primaryNs : ZoneName
  adminEmail : Text
  ttl : ℤ
  refresh : ℤ
  retry : ℤ
  expire : ℤ
  minimumTtl : ℤ
  deriving DecidableEq

/-- A row of `zone_token_policies` or `zone_tsig_policies`: the zone, the token or key it is
granted to, and what it grants. -/
structure ZonePolicy where
  zoneId : ℕ
  holderId : ℕ
  recordNamePattern : Text
  recordTypes : Text
  deriving DecidableEq

namespace Zone

def isApexNs (_ : Zone) (recordType : RecordType) (name : OwnerName) : Bool :=
  recordType == .ns && name.isApex

def isPrimaryNs (z : Zone) (r : RecordData) : Bool :=
  z.isApexNs r.recordType r.name && eqIgnoreAsciiCase (toFqdn r.value) (toFqdn z.primaryNs.text)

def primaryNsRecord (z : Zone) (ttl : ℤ) : RecordData where
  name := .apex
  recordType := .ns
  value := z.primaryNs.text
  ttl := ttl
  priority := none

def soaMailbox (z : Zone) : Except Text Text := soaMailboxFromEmail z.adminEmail

def soaRdata (z : Zone) : Except Text Text := do
  let mailbox ← z.soaMailbox
  pure (join [' '] [z.primaryNs.text, mailbox, intText z.serial, intText z.refresh, intText z.retry,
    intText z.expire, intText z.minimumTtl])

end Zone

/-! ### Stores -/

/-- One zone with the rows that belong to it. -/
structure ZoneStore where
  zone : Zone
  records : List Record
  changes : List ZoneChange
  snapshots : List ZoneSnapshot
  deriving DecidableEq

structure Db where
  stores : List ZoneStore
  tokenPolicies : List ZonePolicy
  tsigPolicies : List ZonePolicy
  nextZoneId : ℕ
  nextRecordId : ℕ
  deriving DecidableEq

/-- The database before anything was written to it. -/
def Db.empty : Db := ⟨[], [], [], 1, 1⟩

/-- A transaction on one zone: the rows it sees, and the next record id. -/
structure Tx where
  store : ZoneStore
  nextRecordId : ℕ
  deriving DecidableEq

namespace Db

def getZoneByName (db : Db) (name : ZoneName) : Option ZoneStore :=
  db.stores.find? (·.zone.name == name)

def getZoneById (db : Db) (id : ℕ) : Option ZoneStore := db.stores.find? (·.zone.id == id)

/-- The transaction that locked `store`'s zone. -/
def beginTx (db : Db) (store : ZoneStore) : Tx := ⟨store, db.nextRecordId⟩

/-- `finish_tx`, for a transaction that succeeded. -/
def commit (db : Db) (tx : Tx) : Db :=
  { db with
    stores := db.stores.map fun s => if s.zone.id = tx.store.zone.id then tx.store else s
    nextRecordId := tx.nextRecordId }

end Db

/-! ### Reads and writes inside a transaction -/

namespace Tx

/-- `list_records_by_zone_id_and_name_tx`. -/
def recordsByName (tx : Tx) (name : OwnerName) : List Record :=
  tx.store.records.filter (·.name = name)

/-- `list_records_by_zone_id_and_names_tx`. -/
def recordsByNames (tx : Tx) (names : List OwnerName) : List Record :=
  tx.store.records.filter (·.name ∈ names)

/-- The rows `create_records_tx` returns: each given the next id. -/
def numbered : ℕ → List RecordData → List Record
  | _, [] => []
  | id, r :: rs => { r with id := id } :: numbered (id + 1) rs

def zoneChangesFor (newSerial : ℤ) (operation : ChangeOp) (rs : List RecordData) : List ZoneChange :=
  rs.map fun r => ⟨newSerial, operation, r⟩

/-- `create_zone_changes_tx`. -/
def createZoneChanges (tx : Tx) (changes : List ZoneChange) : Tx :=
  { tx with store := { tx.store with changes := tx.store.changes ++ changes } }

/-- `create_records_tx`. -/
def createRecords (tx : Tx) (rs : List RecordData) : Tx :=
  { store := { tx.store with records := tx.store.records ++ numbered tx.nextRecordId rs }
    nextRecordId := tx.nextRecordId + rs.length }

/-- `delete_records_tx`. -/
def deleteRecords (tx : Tx) (ids : List ℕ) : Tx :=
  { tx with store := { tx.store with records := tx.store.records.filter (·.id ∉ ids) } }

/-- `update_record_tx`. -/
def updateRecord (tx : Tx) (record : Record) : Tx :=
  { tx with store := { tx.store with
    records := tx.store.records.map fun r => if r.id = record.id then record else r } }

/-- `update_zone_tx`. -/
def updateZone (tx : Tx) (zone : Zone) : Tx := { tx with store := { tx.store with zone := zone } }

/-- `insert_records_with_changes_tx`. -/
def insertRecordsWithChanges (tx : Tx) (newSerial : ℤ) (rs : List RecordData) : Tx :=
  (tx.createRecords rs).createZoneChanges (zoneChangesFor newSerial .add rs)

/-- `delete_records_with_changes_tx`. -/
def deleteRecordsWithChanges (tx : Tx) (newSerial : ℤ) (rs : List Record) : Tx :=
  (tx.deleteRecords (rs.map (·.id))).createZoneChanges
    (zoneChangesFor newSerial .del (rs.map (·.toRecordData)))

/-- `upsert_zone_snapshot_tx`: one snapshot per serial. -/
def upsertSnapshot (tx : Tx) (snapshot : ZoneSnapshot) : Tx :=
  let snapshots :=
    if tx.store.snapshots.any (·.serial == snapshot.serial) then
      tx.store.snapshots.map fun s => if s.serial = snapshot.serial then snapshot else s
    else tx.store.snapshots ++ [snapshot]
  { tx with store := { tx.store with snapshots := snapshots } }

/-- `save_snapshot_tx`. -/
def saveSnapshot (tx : Tx) (zone : Zone) (serial : ℤ) : Except ServiceError Tx := do
  let mailbox ← zone.soaMailbox.mapError (ServiceError.mk .invalidZone)
  pure (tx.upsertSnapshot ⟨serial, zone.primaryNs, mailbox, zone.ttl, zone.refresh, zone.retry,
    zone.expire, zone.minimumTtl⟩)

/-- `advance_serial_tx`. -/
def advanceSerial (tx : Tx) (zone : Zone) (newSerial : ℤ) : Except ServiceError Tx :=
  (tx.updateZone { tx.store.zone with serial := newSerial }).saveSnapshot zone newSerial

end Tx

/-! ### Serials -/

def i32Max : ℤ := 2147483647

def maxInitialSerial : ℤ := i32Max - 10000000

/-- `generate_serial` for an existing zone. -/
def generateSerial (currentSerial : ℤ) : Except ServiceError ℤ :=
  if currentSerial = i32Max then
    .error ⟨.zoneConflict, lit "zone serial reached its maximum of " ++ intText i32Max ++
      lit ", so the zone can no longer accept changes"⟩
  else .ok (currentSerial + 1)

def validateInitialSerial (serial : ℤ) : Except ServiceError ℤ :=
  if serial < 1 then
    .error ⟨.invalidZone, lit "serial " ++ intText serial ++ lit " must be a positive integer"⟩
  else if maxInitialSerial < serial then
    .error ⟨.invalidZone, lit "serial " ++ intText serial ++ lit " must not exceed " ++
      intText maxInitialSerial ++ lit ", leaving room for the counter to advance"⟩
  else .ok serial

end Bindizr
