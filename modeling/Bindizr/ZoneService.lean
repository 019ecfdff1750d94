import Bindizr.Authorization
import Bindizr.Validation

/-! # Zone operations

`bindizr-service/src/zone`: create, update, patch, delete and the forced serial bump.  A new
zone starts with its apex NS row, which its change log does not record; an update that moves
`primary_ns` inserts the NS row it needs, and logs the change of the SOA as a deletion and an
addition at the apex. -/

namespace Bindizr

/-! ### Create -/

/-- `resolve_soa_timers` falls back on these for a new zone. -/
def defaultTimers : ResolvedSoaTimers := ⟨300, 60, 3600000, 86400⟩

/-- The error of a name another zone has. -/
def zoneExists (name : ZoneName) : ServiceError :=
  ⟨.zoneConflict, lit "Zone with name '" ++ name.text ++ lit "' already exists"⟩

/-- The rows a new zone starts with, before its snapshot. -/
def newStore (zone : Zone) : ZoneStore := ⟨zone, [], [], []⟩

/-- The serial a zone starts with. -/
def initialSerial (serial : Option ℤ) : Except ServiceError ℤ :=
  match serial with
  | some s => validateInitialSerial s
  | none => .ok 1

/-- `ZoneService::create`. -/
def createZone (db : Db) (caller : Caller) (request : CreateZoneRequest) :
    Except ServiceError (Db × Zone) := do
  caller.requireGlobal (lit "create zones")
  let validated ← validateCreateZoneRequest request
  let timers ← resolveSoaTimers request defaultTimers
  if (db.getZoneByName validated.name).isSome then .error (zoneExists validated.name)
  else do
    let serial ← initialSerial request.serial
    let zone : Zone := ⟨db.nextZoneId, validated.name, validated.primaryNs, validated.adminEmail,
      validated.ttl, serial, timers.refresh, timers.retry, timers.expire, timers.minimumTtl⟩
    let tx ← ((db.beginTx (newStore zone)).createRecords [zone.primaryNsRecord zone.ttl]).saveSnapshot
      zone zone.serial
    pure ({ db with
      stores := db.stores ++ [tx.store]
      nextZoneId := db.nextZoneId + 1
      nextRecordId := tx.nextRecordId }, zone)

/-! ### Update and patch -/

structure UpdateZonePatch where
  newName : Option Text
  primaryNs : Option Text
  adminEmail : Option Text
  ttl : Option ℤ
  refresh : Option ℤ
  retry : Option ℤ
  expire : Option ℤ
  minimumTtl : Option ℤ
  serial : Option ℤ

def rejectSerial (serial : Option ℤ) : Except ServiceError Unit :=
  if serial.isSome then
    .error ⟨.invalidInput, lit "serial is managed automatically and cannot be set on update"⟩
  else .ok ()

/-- The request a patch stands for: an omitted field keeps the stored zone's value. -/
def UpdateZonePatch.toRequest (patch : UpdateZonePatch) (existing : Zone) : CreateZoneRequest where
  name := patch.newName.getD existing.name.text
  primaryNs := patch.primaryNs.getD existing.primaryNs.text
  adminEmail := patch.adminEmail.getD existing.adminEmail
  ttl := patch.ttl.getD existing.ttl
  serial := none
  refresh := patch.refresh
  retry := patch.retry
  expire := patch.expire
  minimumTtl := patch.minimumTtl

/-- `apex_ns_rrset_ttl`: the TTL of the first apex NS among the candidates, else the zone's. -/
def apexNsRrsetTtl (zone : Zone) (candidates : List RecordData) : ℤ :=
  match candidates.find? fun r => zone.isApexNs r.recordType r.name with
  | some r => r.ttl
  | none => zone.ttl

/-- One of the changes of `soa_replacement_changes`. -/
def soaChange (newSerial : ℤ) (operation : ChangeOp) (zone : Zone) : Except ServiceError ZoneChange := do
  let rdata ← zone.soaRdata.mapError (ServiceError.mk .invalidZone)
  pure ⟨newSerial, operation, ⟨.apex, .soa, rdata, zone.ttl, none⟩⟩

def soaReplacementChanges (oldZone newZone : Zone) (newSerial : ℤ) :
    Except ServiceError (List ZoneChange) := do
  let del ← soaChange newSerial .del oldZone
  let add ← soaChange newSerial .add newZone
  pure [del, add]

/-- The insertion of `update_locked` that keeps an apex NS for `primary_ns`. -/
def keepPrimaryNs (zone : Zone) (newSerial : ℤ) (tx : Tx) : Tx :=
  let apexRecords := (tx.recordsByName .apex).map (·.toRecordData)
  if apexRecords.any zone.isPrimaryNs then tx
  else tx.insertRecordsWithChanges newSerial [zone.primaryNsRecord (apexNsRrsetTtl zone apexRecords)]

/-- The writes of `update_locked`, from the row it read to the row it writes. -/
def writeZoneTx (existing updated : Zone) (newSerial : ℤ) (tx : Tx) : Except ServiceError Tx := do
  let tx := keepPrimaryNs updated newSerial (tx.updateZone updated)
  let changes ← soaReplacementChanges existing updated newSerial
  (tx.createZoneChanges changes).saveSnapshot updated newSerial

/-- The transaction of `update_locked`; `taken` says whether another zone has a name. -/
def updateZoneTx (build : Zone → CreateZoneRequest) (taken : ZoneName → Bool) (tx : Tx) :
    Except ServiceError (Tx × Zone) := do
  let existing := tx.store.zone
  let request := build existing
  let validated ← validateCreateZoneRequest request
  let timers ← resolveSoaTimers request
    ⟨existing.refresh, existing.retry, existing.expire, existing.minimumTtl⟩
  if validated.name ≠ existing.name ∧ taken validated.name then .error (zoneExists validated.name)
  else do
    let newSerial ← generateSerial existing.serial
    let updated : Zone := ⟨existing.id, validated.name, validated.primaryNs, validated.adminEmail,
      validated.ttl, newSerial, timers.refresh, timers.retry, timers.expire, timers.minimumTtl⟩
    let tx ← writeZoneTx existing updated newSerial tx
    pure (tx, updated)

/-- `update_locked`. -/
def updateLockedZone (db : Db) (zoneName : Text) (build : Zone → CreateZoneRequest) :
    Except ServiceError (Db × Zone) := do
  let store ← db.lookupByName zoneName
  db.inTx store (updateZoneTx build fun name => (db.getZoneByName name).isSome)

/-- `ZoneService::update`. -/
def updateZone (db : Db) (caller : Caller) (zoneName : Text) (request : CreateZoneRequest) :
    Except ServiceError (Db × Zone) := do
  caller.requireGlobal (lit "update zones")
  rejectSerial request.serial
  updateLockedZone db zoneName fun _ => { request with serial := none }

/-- `ZoneService::patch`. -/
def patchZone (db : Db) (caller : Caller) (zoneName : Text) (patch : UpdateZonePatch) :
    Except ServiceError (Db × Zone) := do
  caller.requireGlobal (lit "update zones")
  rejectSerial patch.serial
  updateLockedZone db zoneName patch.toRequest

/-! ### Forced bump and delete -/

/-- The transaction of `force_increment_serial_by_name`. -/
def forceIncrementSerialTx (tx : Tx) : Except ServiceError (Tx × Zone) := do
  let newSerial ← generateSerial tx.store.zone.serial
  let updated : Zone := { tx.store.zone with serial := newSerial }
  let tx ← (tx.updateZone updated).saveSnapshot updated newSerial
  pure (tx, updated)

/-- `force_increment_serial_by_name`. -/
def forceIncrementSerial (db : Db) (zoneName : Text) : Except ServiceError (Db × Zone) := do
  let store ← db.lookupByName zoneName
  db.inTx store forceIncrementSerialTx

/-- `ZoneService::delete`: the zone's rows and policies go with it. -/
def deleteZone (db : Db) (caller : Caller) (zoneName : Text) : Except ServiceError (Db × Unit) := do
  caller.requireGlobal (lit "delete zones")
  let store ← db.lookupByName zoneName
  pure ({ db with
    stores := db.stores.filter (·.zone.id ≠ store.zone.id)
    tokenPolicies := db.tokenPolicies.filter (·.zoneId ≠ store.zone.id)
    tsigPolicies := db.tsigPolicies.filter (·.zoneId ≠ store.zone.id) }, ())

end Bindizr
