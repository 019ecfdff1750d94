import Bindizr.Authorization
import Bindizr.Validation

/-! # Record operations

`bindizr-service/src/record`: create, bulk create, update, patch and delete.  Each operation
is one transaction on one zone: it authorizes the caller, checks the constraints against the
rows it loaded, writes the rows with their change-log entries under the next serial, and
moves the zone to that serial.  Update and delete read the record's zone before their
transaction; what that read gave is an argument here, so that any write may come between. -/

namespace Bindizr

variable [Crates]

/-! ### Requests -/

/-- `RecordValueRequest`: a single string or TXT segments. -/
inductive RecordValueRequest where
  | string (value : Text)
  | segments (segments : List Text)
  deriving DecidableEq

def RecordValueRequest.toEncodedValue (request : RecordValueRequest) (t : RecordType)
    (priority : Option ℤ) : Except Text Text :=
  match t, request with
  | .txt, .string value => .ok (txtIntoEncoded (txtFromString value))
  | .txt, .segments ss => (txtFromSegments ss).map txtIntoEncoded
  | t, .string value => t.encodedValue value priority
  | _, .segments _ => .error (lit "array value is only supported for TXT records")

structure RecordItem where
  name : Text
  recordType : Text
  value : RecordValueRequest
  ttl : Option ℤ
  priority : Option ℤ

/-- `CreateRecordRequest`: an item and the zone it goes to. -/
structure CreateRecordRequest extends RecordItem where
  zoneName : Text

structure UpdateRecordPatch where
  name : Option Text
  recordType : Option Text
  value : Option RecordValueRequest
  ttl : Option ℤ
  priority : Option ℤ

structure PreparedRecord where
  ownerName : Text
  recordType : RecordType
  value : Text
  ttl : Option ℤ
  priority : Option ℤ

def prepareRecord (item : RecordItem) : Except ServiceError PreparedRecord := do
  let recordType ← parseRecordType item.recordType
  let value ← (item.value.toEncodedValue recordType item.priority).mapError
    (ServiceError.mk .invalidRecordValue)
  pure ⟨item.name, recordType, value, item.ttl, item.priority⟩

/-- The row a prepared record becomes at `owner` in `zone`; an omitted TTL is the zone's. -/
def PreparedRecord.toData (p : PreparedRecord) (owner : OwnerName) (zone : Zone) : RecordData where
  name := owner
  recordType := p.recordType
  value := p.value
  ttl := p.ttl.getD zone.ttl
  priority := p.priority

/-! ### Create -/

/-- The transaction of `RecordService::create`. -/
def createRecordTx (caller : Caller) (policies : List ZonePolicy) (item : RecordItem)
    (prepared : PreparedRecord) (tx : Tx) : Except ServiceError (Tx × Record) := do
  let zone := tx.store.zone
  let owner ← normalizeRecordOwnerName item.name zone.name
  caller.authorizeRecordWrites policies zone [⟨owner, some prepared.recordType⟩]
  let candidate := prepared.toData owner zone
  validateRecordAddConstraints (tx.recordsByName owner) candidate none
  let newSerial ← generateSerial zone.serial
  let tx' ← (tx.insertRecordsWithChanges newSerial [candidate]).advanceSerial zone newSerial
  pure (tx', { candidate with id := tx.nextRecordId })

/-- `RecordService::create`. -/
def createRecord (db : Db) (caller : Caller) (request : CreateRecordRequest) :
    Except ServiceError (Db × Record) := do
  let prepared ← prepareRecord request.toRecordItem
  let store ← db.lookupByName request.zoneName
  db.inTx store (createRecordTx caller db.tokenPolicies request.toRecordItem prepared)

/-! ### Bulk create -/

/-- The loop of `create_bulk`: each record is checked against the rows loaded and those taken
before it.  `indexed` is the content of `records_by_name`. -/
def validateBulk (zone : Zone) : List Record → List PreparedRecord →
    Except ServiceError (List RecordData)
  | _, [] => .ok []
  | indexed, p :: ps => do
      let owner ← normalizeRecordOwnerName p.ownerName zone.name
      let candidate := p.toData owner zone
      validateRecordAddConstraints (indexed.filter (·.name = owner)) candidate none
      let rest ← validateBulk zone (indexed ++ [{ candidate with id := 0 }]) ps
      pure (candidate :: rest)

/-- The writes a bulk request lists; a name that does not parse lists none. -/
def bulkWrites (zone : Zone) (prepared : List PreparedRecord) : List RecordWrite :=
  prepared.filterMap fun p =>
    match normalizeRecordOwnerName p.ownerName zone.name with
    | .ok owner => some ⟨owner, some p.recordType⟩
    | .error _ => none

/-- What `create_bulk` has settled when it comes to its writes. -/
structure BulkSteps where
  existing : List Record
  newSerial : ℤ
  toInsert : List RecordData

/-- The transaction of `RecordService::create_bulk` up to its writes, which a dry run shares. -/
def bulkSteps (caller : Caller) (policies : List ZonePolicy) (prepared : List PreparedRecord) (tx : Tx) :
    Except ServiceError BulkSteps := do
  let zone := tx.store.zone
  let writes := bulkWrites zone prepared
  caller.authorizeRecordWrites policies zone writes
  let existing := tx.recordsByNames (writes.map (·.relativeName))
  let newSerial ← generateSerial zone.serial
  let toInsert ← validateBulk zone existing prepared
  pure ⟨existing, newSerial, toInsert⟩

/-- The transaction of `RecordService::create_bulk`. -/
def createBulkTx (caller : Caller) (policies : List ZonePolicy) (prepared : List PreparedRecord)
    (dryRun : Bool) (tx : Tx) : Except ServiceError (Tx × List Record) := do
  let s ← bulkSteps caller policies prepared tx
  if dryRun then pure (tx, s.toInsert.map fun r => { r with id := 0 })
  else do
    let tx' ← (tx.insertRecordsWithChanges s.newSerial s.toInsert).advanceSerial tx.store.zone s.newSerial
    pure (tx', Tx.numbered tx.nextRecordId s.toInsert)

omit [Crates] in
theorem bulkSteps_eq_ok {caller : Caller} {policies : List ZonePolicy} {prepared : List PreparedRecord} {tx : Tx}
    {s : BulkSteps} : bulkSteps caller policies prepared tx = .ok s ↔
      caller.authorizeRecordWrites policies tx.store.zone (bulkWrites tx.store.zone prepared) = .ok () ∧
      s.existing = tx.recordsByNames ((bulkWrites tx.store.zone prepared).map (·.relativeName)) ∧
      generateSerial tx.store.zone.serial = .ok s.newSerial ∧
      validateBulk tx.store.zone s.existing prepared = .ok s.toInsert := by
  unfold bulkSteps
  constructor
  · intro h
    obtain ⟨_, hauth, h⟩ := Fallible.bind_eq_ok.1 h
    obtain ⟨n, hn, h⟩ := Fallible.bind_eq_ok.1 h
    obtain ⟨toInsert, hval, h⟩ := Fallible.bind_eq_ok.1 h
    cases h
    exact ⟨hauth, rfl, hn, hval⟩
  · rintro ⟨hauth, hexisting, hn, hval⟩
    refine Fallible.bind_eq_ok.2 ⟨(), hauth, Fallible.bind_eq_ok.2 ⟨_, hn, Fallible.bind_eq_ok.2 ⟨_, hexisting ▸ hval, ?_⟩⟩⟩
    rw [← hexisting]
    rfl

def createBulk (db : Db) (caller : Caller) (zoneName : Text) (items : List RecordItem)
    (dryRun : Bool) : Except ServiceError (Db × List Record) :=
  if items = [] then .error ⟨.invalidInput, lit "no records provided for bulk insert"⟩
  else do
    let prepared ← items.mapM prepareRecord
    let store ← db.lookupByName zoneName
    db.inTx store (createBulkTx caller db.tokenPolicies prepared dryRun)

/-! ### Update and patch -/

/-- `ResolvedRecordUpdate`, as the row it stands for. -/
abbrev ResolveUpdate := Zone → Record → Except ServiceError RecordData

/-- The resolution of `update_by_id`: every field comes from the request. -/
def resolveItem (request : RecordItem) : ResolveUpdate := fun zone _ => do
  let prepared ← prepareRecord request
  let owner ← normalizeRecordOwnerName prepared.ownerName zone.name
  pure (prepared.toData owner zone)

/-- The resolution of `patch_by_id`: an omitted field keeps the stored record's value. -/
def resolvePatch (patch : UpdateRecordPatch) : ResolveUpdate := fun zone existing => do
  let recordType ←
    match patch.recordType with
    | some t => parseRecordType t
    | none => pure existing.recordType
  if recordType ≠ existing.recordType ∧ patch.value.isNone then
    .error ⟨.invalidInput, lit "value is required when changing a record's type"⟩
  else do
    let priority := if recordType.takesPriority then patch.priority.or existing.priority else none
    let value ←
      match patch.value with
      | some v => (v.toEncodedValue recordType priority).mapError (ServiceError.mk .invalidRecordValue)
      | none => pure existing.value
    let owner ←
      match patch.name with
      | some name => normalizeRecordOwnerName name zone.name
      | none => pure existing.name
    pure ⟨owner, recordType, value, patch.ttl.getD existing.ttl, priority⟩

/-- The record `id` of the locked zone, as update and delete load it: a record that is gone,
or that the caller may not see, reads as not found. -/
def loadRecord (caller : Caller) (id : ℕ) (tx : Tx) : Except ServiceError Record :=
  match tx.store.records.find? (·.id == id) with
  | none => .error (.recordNotFound id)
  | some r => if caller.zoneVisible tx.store.zone.id then .ok r else .error (.recordNotFound id)

/-- The transaction of `update_locked`. -/
def updateLockedTx (caller : Caller) (policies : List ZonePolicy) (id : ℕ) (resolve : ResolveUpdate)
    (tx : Tx) : Except ServiceError (Tx × Record) := do
  let zone := tx.store.zone
  let existing ← loadRecord caller id tx
  let resolved ← resolve zone existing
  caller.authorizeRecordWrites policies zone
    [⟨existing.name, some existing.recordType⟩, ⟨resolved.name, some resolved.recordType⟩]
  let updated : Record := { resolved with id := existing.id }
  validateRecordUpdateConstraints zone (tx.recordsByName resolved.name) existing updated
  let newSerial ← generateSerial zone.serial
  let tx' ← ((tx.updateRecord updated).createZoneChanges
    (Tx.zoneChangesFor newSerial .del [existing.toRecordData] ++
      Tx.zoneChangesFor newSerial .add [updated.toRecordData])).advanceSerial zone newSerial
  pure (tx', updated)

/-- Lock the zone an earlier read found the record in, and run `body` there. -/
def inRecordZone {α : Type} (db : Db) (id : ℕ) (zoneIdRead : Option ℕ)
    (body : Tx → Except ServiceError (Tx × α)) : Except ServiceError (Db × α) :=
  match zoneIdRead with
  | none => .error (.recordNotFound id)
  | some zoneId =>
      match db.getZoneById zoneId with
      | none => .error ⟨.zoneNotFound, lit "Zone with id '" ++ natText zoneId ++ lit "' not found"⟩
      | some store => db.inTx store body

/-- `RecordService::update_by_id`; `zoneIdRead` is what the read before the transaction gave. -/
def updateById (db : Db) (caller : Caller) (id : ℕ) (zoneIdRead : Option ℕ) (request : RecordItem) :
    Except ServiceError (Db × Record) :=
  inRecordZone db id zoneIdRead (updateLockedTx caller db.tokenPolicies id (resolveItem request))

def patchById (db : Db) (caller : Caller) (id : ℕ) (zoneIdRead : Option ℕ)
    (patch : UpdateRecordPatch) : Except ServiceError (Db × Record) :=
  inRecordZone db id zoneIdRead (updateLockedTx caller db.tokenPolicies id (resolvePatch patch))

/-! ### Delete -/

/-- The transaction of `RecordService::delete_by_id`. -/
def deleteByIdTx (caller : Caller) (policies : List ZonePolicy) (id : ℕ) (tx : Tx) :
    Except ServiceError (Tx × Unit) := do
  let zone := tx.store.zone
  let existing ← loadRecord caller id tx
  caller.authorizeRecordWrites policies zone [⟨existing.name, some existing.recordType⟩]
  let newSerial ← generateSerial zone.serial
  validateDeleteConstraints zone [existing.toRecordData]
  let tx' ← (tx.deleteRecordsWithChanges newSerial [existing]).advanceSerial zone newSerial
  pure (tx', ())

def deleteById (db : Db) (caller : Caller) (id : ℕ) (zoneIdRead : Option ℕ) :
    Except ServiceError (Db × Unit) :=
  inRecordZone db id zoneIdRead (deleteByIdTx caller db.tokenPolicies id)

end Bindizr
