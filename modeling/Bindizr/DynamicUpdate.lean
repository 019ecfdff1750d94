import Bindizr.Authorization
import Bindizr.Validation

/-! # Dynamic updates

`bindizr-service/src/dynamic_update`: an RFC 2136 UPDATE message, from the point where its
wire form is decoded.  The message names a zone, carries prerequisites on the zone's rows and
a list of operations.  The operations run one after the other in one transaction, each
against the rows the earlier ones left, and each logs its own changes under the one serial
the message produces; the serial moves only when some operation changed a row. -/

namespace Bindizr

variable [Crates]

inductive DynamicUpdateError where
  | refused (message : Text)
  | yxDomain (message : Text)
  | yxRrset (message : Text)
  | nxDomain (message : Text)
  | nxRrset (message : Text)
  | notZone (message : Text)
  | internal (message : Text)
  deriving DecidableEq

/-- A service error the requester could fix is REFUSED; a backend fault is SERVFAIL. -/
def DynamicUpdateError.ofService (e : ServiceError) : DynamicUpdateError :=
  if e.code.httpStatus < 500 then .refused e.message else .internal e.message

/-- `Prerequisite`; owner names are absolute. -/
inductive Prerequisite where
  | nameInUse (name : Text)
  | nameNotInUse (name : Text)
  | rrsetInUse (name : Text) (recordType : RecordType)
  | rrsetNotInUse (name : Text) (recordType : RecordType)
  | rrInUse (name : Text) (recordType : RecordType) (value : Text) (priority : Option ℤ)

/-- `UpdateOp`; owner names are absolute, and a TXT value arrives row-encoded. -/
inductive UpdateOp where
  | add (name : Text) (recordType : RecordType) (value : Text) (ttl : ℤ) (priority : Option ℤ)
  | deleteRrset (name : Text) (recordType : Option RecordType)
  | deleteRr (name : Text) (recordType : RecordType) (value : Text) (priority : Option ℤ)

def UpdateOp.name : UpdateOp → Text
  | .add name _ _ _ _ => name
  | .deleteRrset name _ => name
  | .deleteRr name _ _ _ => name

def UpdateOp.recordType : UpdateOp → Option RecordType
  | .add _ t _ _ _ => some t
  | .deleteRrset _ t => t
  | .deleteRr _ t _ _ => some t

/-- The columns of a TSIG key the authorization reads. -/
structure TsigKey where
  id : ℕ
  name : Text
  isGlobal : Bool
  deriving DecidableEq

structure DynamicUpdate where
  zoneName : Text
  key : Option TsigKey
  prerequisites : List Prerequisite
  updates : List UpdateOp

/-! ### Owners, prerequisites and authorization -/

def ownerInZone (name : Text) (zoneName : ZoneName) : Except DynamicUpdateError OwnerName :=
  if trimEndMatches '.' name = [] then .error (.notZone (lit "root owner is not supported"))
  else
    (OwnerName.parseAbsoluteInZone name zoneName).mapError fun e =>
      match e with
      | .outsideZone => .notZone (lit "owner '" ++ toFqdn name ++ lit "' is outside zone '" ++
          zoneName.toFqdn ++ lit "'")
      | other => .refused (lit "owner '" ++ toFqdn name ++ lit "' " ++ other.message)

def ownerExists (owner : OwnerName) (records : List Record) : Bool :=
  owner.isApex || records.any (·.name == owner)

def rrsetExists (owner : OwnerName) (t : RecordType) (records : List Record) : Bool :=
  records.any fun r => r.name == owner && r.recordType == t

/-- One prerequisite of `evaluate_against_records`. -/
def evaluatePrerequisite (zone : Zone) (records : List Record) (p : Prerequisite) :
    Except DynamicUpdateError Unit :=
  match p with
  | .nameInUse name => do
      let owner ← ownerInZone name zone.name
      if ownerExists owner records then .ok ()
      else .error (.nxDomain (lit "owner '" ++ owner.display ++ lit "' does not exist"))
  | .nameNotInUse name => do
      let owner ← ownerInZone name zone.name
      if ownerExists owner records then
        .error (.yxDomain (lit "owner '" ++ owner.display ++ lit "' exists"))
      else .ok ()
  | .rrsetInUse name t => do
      let owner ← ownerInZone name zone.name
      if rrsetExists owner t records then .ok ()
      else .error (.nxRrset (lit "RRset " ++ owner.display ++ lit " " ++ t.asStr ++
        lit " does not exist"))
  | .rrsetNotInUse name t => do
      let owner ← ownerInZone name zone.name
      if rrsetExists owner t records then
        .error (.yxRrset (lit "RRset " ++ owner.display ++ lit " " ++ t.asStr ++ lit " exists"))
      else .ok ()
  | .rrInUse name t value priority => do
      let owner ← ownerInZone name zone.name
      if records.any fun r => r.name == owner && r.recordType == t &&
          t.valuesEqual r.value none value none && r.priority == priority then .ok ()
      else .error (.nxRrset (lit "RR " ++ owner.display ++ lit " " ++ t.asStr ++ lit " not found"))

def authorizeKey (policies : List ZonePolicy) (zone : Zone) (key : Option TsigKey)
    (updates : List UpdateOp) : Except DynamicUpdateError Unit :=
  match key with
  | none => .ok ()
  | some key =>
      if key.isGlobal then .ok ()
      else if policiesOf policies zone.id key.id = [] then
        .error (.refused (lit "TSIG key '" ++ key.name ++ lit "' is not authorized for zone '" ++
          zone.name.text ++ lit "'"))
      else updates.forM fun op => do
        let owner ← ownerInZone op.name zone.name
        if (policiesOf policies zone.id key.id).any (·.covers ⟨owner, op.recordType⟩) then .ok ()
        else .error (.refused (lit "TSIG key '" ++ key.name ++ lit "' is not authorized to update '" ++
          owner.display ++ lit "' (" ++ (op.recordType.map RecordType.asStr).getD (lit "ANY") ++
          lit ") in zone '" ++ zone.name.text ++ lit "'"))

/-! ### Operations -/

/-- The value `add_record` stores: TXT arrives row-encoded, every other type is encoded. -/
def updateValue (t : RecordType) (value : Text) (priority : Option ℤ) :
    Except DynamicUpdateError Text :=
  if t = .txt then .ok value
  else (t.encodedValue value priority).mapError fun e =>
    .refused (lit "invalid " ++ t.asStr ++ lit " rdata: " ++ e)

/-- `add_record`: an rdata-identical add is a silent no-op. -/
def addRecord (zone : Zone) (newSerial : ℤ) (name : Text) (t : RecordType) (value : Text) (ttl : ℤ)
    (priority : Option ℤ) (tx : Tx) : Except DynamicUpdateError (Tx × Bool) := do
  let owner ← ownerInZone name zone.name
  let value ← updateValue t value priority
  let candidate : RecordData := ⟨owner, t, value, ttl, priority⟩
  match ← (validateAdd tx candidate).mapError .ofService with
  | .duplicate => pure (tx, false)
  | .new => pure (tx.insertRecordsWithChanges newSerial [candidate], true)

/-- Whether `delete_matching` selects a row. -/
def deleteSelects (owner : OwnerName) (t : Option RecordType) (value : Option Text)
    (priority : Option ℤ) (r : Record) : Bool :=
  r.name == owner && (t.isNone || t == some r.recordType) &&
    (match value with
      | none => true
      | some v => r.recordType.valuesEqual r.value none v none) &&
    (priority.isNone || r.priority == priority) && r.recordType != .soa

def deleteMatching (zone : Zone) (newSerial : ℤ) (name : Text) (t : Option RecordType)
    (value : Option Text) (priority : Option ℤ) (tx : Tx) : Except DynamicUpdateError (Tx × Bool) := do
  let owner ← ownerInZone name zone.name
  let matched := tx.store.records.filter (deleteSelects owner t value priority)
  if matched = [] then pure (tx, false)
  else do
    (validateDeleteConstraints zone (matched.map (·.toRecordData))).mapError fun e =>
      .refused e.message
    pure (tx.deleteRecordsWithChanges newSerial matched, true)

def applyOp (zone : Zone) (newSerial : ℤ) (op : UpdateOp) (tx : Tx) :
    Except DynamicUpdateError (Tx × Bool) :=
  match op with
  | .add name t value ttl priority => addRecord zone newSerial name t value ttl priority tx
  | .deleteRrset name t => deleteMatching zone newSerial name t none none tx
  | .deleteRr name t value priority =>
      deleteMatching zone newSerial name (some t) (some value) priority tx

/-- The loop over the operations: the rows left, and whether any operation changed some. -/
def applyOps (zone : Zone) (newSerial : ℤ) : List UpdateOp → Tx → Except DynamicUpdateError (Tx × Bool)
  | [], tx => .ok (tx, false)
  | op :: ops, tx => do
      let (tx, changed) ← applyOp zone newSerial op tx
      let (tx, later) ← applyOps zone newSerial ops tx
      pure (tx, changed || later)

/-- The transaction of `DynamicUpdateService::apply`. -/
def applyUpdateTx (policies : List ZonePolicy) (update : DynamicUpdate) (tx : Tx) :
    Except DynamicUpdateError (Tx × Bool) := do
  let zone := tx.store.zone
  authorizeKey policies zone update.key update.updates
  update.prerequisites.forM (evaluatePrerequisite zone tx.store.records)
  let newSerial ← (generateSerial zone.serial).mapError .ofService
  let (tx, changed) ← applyOps zone newSerial update.updates tx
  if changed then do
    let tx ← (tx.advanceSerial zone newSerial).mapError .ofService
    pure (tx, true)
  else pure (tx, false)

/-- `DynamicUpdateService::apply`. -/
def applyUpdate (db : Db) (update : DynamicUpdate) : Except DynamicUpdateError (Db × Bool) := do
  match ← (db.findByName update.zoneName).mapError .ofService with
  | none => .error (.notZone (lit "zone '" ++ update.zoneName ++ lit "' not found"))
  | some store => db.inTx store (applyUpdateTx db.tsigPolicies update)

end Bindizr
