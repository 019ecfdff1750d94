import Bindizr.Authorization
import Bindizr.Validation

/-! # ExternalDNS change sets

`bindizr-service/src/external_dns/apply.rs`.  A request's RRsets are encoded
(`convertRrset`), flattened into deletions and additions, assigned to the most specific zone
whose name is a label suffix of theirs (`groupOpsByZone`), and resolved against each zone's
rows into the records to delete and to create (`computeZoneChangeSet`).  All zones change in
one transaction, or none does. -/

namespace Bindizr

variable [Crates]

/-! ### Requests -/

structure ExternalDnsRrset where
  name : Text
  recordType : Text
  ttl : Option ℤ
  values : List Text
  deriving DecidableEq

structure ExternalDnsRrsetUpdate where
  old : ExternalDnsRrset
  new : ExternalDnsRrset

structure ExternalDnsChangesRequest where
  creates : List ExternalDnsRrset
  updates : List ExternalDnsRrsetUpdate
  deletes : List ExternalDnsRrset

structure ExternalDnsChangesResponse where
  changedZones : List Text
  recordsAdded : ℕ
  recordsDeleted : ℕ
  deriving DecidableEq

/-- `RrsetOp`: values are row-encoded, the owner is an absolute lookup name. -/
structure RrsetOp where
  name : Text
  recordType : RecordType
  ttl : Option ℤ
  values : List Text
  deriving DecidableEq

structure PendingOp where
  op : RrsetOp
  isDelete : Bool

def externalDnsRecordTypes : List RecordType := [.a, .aaaa, .cname, .txt]

def parseSupportedRecordType (recordType : Text) : Except ServiceError RecordType := do
  let parsed ← parseRecordType recordType
  if parsed ∈ externalDnsRecordTypes then pure parsed
  else .error ⟨.invalidInput, lit "record type '" ++ parsed.asStr ++
    lit "' is not supported by the ExternalDNS API"⟩

def normalizeLookupName (name : Text) : Except ServiceError Text :=
  (toLookupName name).mapError fun e => ⟨.invalidRecordName, lit "record name " ++ e.message⟩

/-- `normalize_ttl`: zero means not configured. -/
def normalizeTtl (ttl : Option ℤ) : Except ServiceError (Option ℤ) :=
  match ttl with
  | none => .ok none
  | some ttl =>
      if ttl < 0 then .error ⟨.invalidInput, lit "TTL must not be negative"⟩
      else if ttl = 0 then .ok none
      else .ok (some ttl)

def validateRrsetShape (rrset : ExternalDnsRrset) (t : RecordType) : Except ServiceError Unit :=
  if rrset.values = [] then
    .error ⟨.invalidInput, lit "RRset '" ++ rrset.name ++ lit "' " ++ t.asStr ++
      lit " must have at least one value"⟩
  else if t = .cname ∧ 1 < rrset.values.length then
    .error ⟨.invalidRecordValue, lit "CNAME RRset '" ++ rrset.name ++
      lit "' must have exactly one value"⟩
  else .ok ()

/-- The loop of `convert_rrset`: values that encode to the same rdata are kept once. -/
def encodeValues (t : RecordType) (values : List Text) : Except ServiceError (List Text) :=
  values.foldlM (fun kept value => do
    let encoded ← (t.encodedValue value none).mapError (ServiceError.mk .invalidRecordValue)
    pure (if kept.any fun existing => t.valuesEqual existing none encoded none then kept
      else kept ++ [encoded])) []

def convertRrset (rrset : ExternalDnsRrset) : Except ServiceError RrsetOp := do
  let recordType ← parseSupportedRecordType rrset.recordType
  let name ← normalizeLookupName rrset.name
  let ttl ← normalizeTtl rrset.ttl
  validateRrsetShape rrset recordType
  let values ← encodeValues recordType rrset.values
  pure ⟨name, recordType, ttl, values⟩

/-- `convert_request`: an update is a deletion of the old RRset and an addition of the new. -/
def convertRequest (request : ExternalDnsChangesRequest) : Except ServiceError (List PendingOp) := do
  let deletes ← request.deletes.mapM fun rrset => do
    let op ← convertRrset rrset
    pure (PendingOp.mk op true)
  let updates ← request.updates.mapM fun update => do
    let old ← convertRrset update.old
    let new ← convertRrset update.new
    pure [PendingOp.mk old true, PendingOp.mk new false]
  let creates ← request.creates.mapM fun rrset => do
    let op ← convertRrset rrset
    pure (PendingOp.mk op false)
  pure (deletes ++ updates.flatten ++ creates)

/-! ### Grouping by zone -/

/-- `ZoneRrsetOp`: the owner is relative to its zone. -/
structure ZoneRrsetOp where
  name : OwnerName
  recordType : RecordType
  ttl : Option ℤ
  values : List Text

structure ZoneOps where
  adds : List ZoneRrsetOp
  dels : List ZoneRrsetOp

/-- `max_by_key` on the length of the name, which keeps the last of the longest. -/
def longestName : List ZoneName → Option ZoneName
  | [] => none
  | z :: zs =>
      match longestName zs with
      | none => some z
      | some best => if byteLen best.text < byteLen z.text then some z else some best

def findAuthoritativeZone (zones : List ZoneName) (name : Text) : Option ZoneName :=
  match decodeNameLabels name with
  | .error _ => none
  | .ok (labels, _) => longestName (zones.filter fun z => isLabelSuffix labels z.labels)

/-- `ZoneOps`, with one more operation. -/
def ZoneOps.push (ops : ZoneOps) (isDelete : Bool) (op : ZoneRrsetOp) : ZoneOps :=
  if isDelete then { ops with dels := ops.dels ++ [op] } else { ops with adds := ops.adds ++ [op] }

/-- The entry of an ordered map, changed in place or inserted in the order of names. -/
def pushOp (zone : ZoneName) (isDelete : Bool) (op : ZoneRrsetOp) :
    List (ZoneName × ZoneOps) → List (ZoneName × ZoneOps)
  | [] => [(zone, (ZoneOps.mk [] []).push isDelete op)]
  | (z, ops) :: rest =>
      if z = zone then (z, ops.push isDelete op) :: rest
      else if zone.text < z.text then (zone, (ZoneOps.mk [] []).push isDelete op) :: (z, ops) :: rest
      else (z, ops) :: pushOp zone isDelete op rest

/-- `group_ops_by_zone`.  The last error stands for the panic of the source's `expect`. -/
def groupOpsByZone (zones : List ZoneName) (ops : List PendingOp) :
    Except ServiceError (List (ZoneName × ZoneOps)) :=
  ops.foldlM (fun grouped pending =>
    match findAuthoritativeZone zones pending.op.name with
    | none => .error ⟨.zoneNotFound, lit "No zone is authoritative for '" ++ pending.op.name ++ lit "'"⟩
    | some zone =>
        match OwnerName.parseAbsoluteInZone pending.op.name zone with
        | .ok name => .ok (pushOp zone pending.isDelete
            ⟨name, pending.op.recordType, pending.op.ttl, pending.op.values⟩ grouped)
        | .error _ => .error ⟨.internal,
            lit "find_authoritative_zone matched the name inside this zone"⟩) []

/-! ### Change sets -/

/-- Whether a row holds an operation's owner, type and one of its values. -/
def ZoneRrsetOp.holds (op : ZoneRrsetOp) (value : Text) (r : RecordData) : Bool :=
  r.name == op.name && r.recordType == op.recordType &&
    op.recordType.valuesEqual r.value none value none

/-- The deletions of one value: rows that hold it and were not taken before. -/
def deleteValue (existing : List Record) (del : ZoneRrsetOp) (deletes : List Record) (value : Text) :
    List Record :=
  existing.foldl (fun deletes row =>
    if del.holds value row.toRecordData && !deletes.any (·.id == row.id) then deletes ++ [row]
    else deletes) deletes

/-- The deletion loop of `compute_zone_change_set`. -/
def computeDeletes (existing : List Record) (dels : List ZoneRrsetOp) : List Record :=
  dels.foldl (fun deletes del => del.values.foldl (deleteValue existing del) deletes) []

/-- `ZoneChangeSet`; created rows have no id yet. -/
structure ZoneChangeSet where
  deletes : List Record
  creates : List RecordData

/-- One value of one addition: it cancels a deletion of the same RR, is dropped when a row that
stays or an earlier creation holds it, and is created otherwise. -/
def createValue (zone : Zone) (existing : List Record) (add : ZoneRrsetOp) (cs : ZoneChangeSet)
    (value : Text) : ZoneChangeSet :=
  let ttl := add.ttl.getD zone.ttl
  let isSame (r : RecordData) : Bool := add.holds value r && r.ttl == ttl
  if cs.deletes.any fun r => isSame r.toRecordData then
    { cs with deletes := cs.deletes.eraseP fun r => isSame r.toRecordData }
  else if existing.any fun row =>
      (cs.deletes.all fun d => d.id != row.id) && add.holds value row.toRecordData then cs
  else if cs.creates.any isSame then cs
  else { cs with creates := cs.creates ++ [⟨add.name, add.recordType, value, ttl, none⟩] }

/-- The addition loop of `compute_zone_change_set`. -/
def computeCreates (zone : Zone) (existing : List Record) (adds : List ZoneRrsetOp)
    (deletes : List Record) : ZoneChangeSet :=
  adds.foldl (fun cs add => add.values.foldl (createValue zone existing add) cs) ⟨deletes, []⟩

def computeZoneChangeSet (zone : Zone) (existing : List Record) (ops : ZoneOps) :
    Except ServiceError ZoneChangeSet := do
  let cs := computeCreates zone existing ops.adds (computeDeletes existing ops.dels)
  validateEach (existing.filter fun row => cs.deletes.all fun d => d.id != row.id) cs.creates
  pure cs

/-! ### Applying -/

/-- The writes one zone's operations list. -/
def ZoneOps.writes (ops : ZoneOps) : List RecordWrite :=
  (ops.adds ++ ops.dels).map fun op => ⟨op.name, some op.recordType⟩

/-- One zone's part of the transaction of `apply_changes`; no change set, no change. -/
def applyZoneOpsTx (caller : Caller) (policies : List ZonePolicy) (ops : ZoneOps) (tx : Tx) :
    Except ServiceError (Tx × ZoneChangeSet) := do
  let zone := tx.store.zone
  caller.authorizeRecordWrites policies zone ops.writes
  let existing := tx.recordsByNames (ops.writes.map (·.relativeName))
  let cs ← computeZoneChangeSet zone existing ops
  if cs.deletes = [] ∧ cs.creates = [] then pure (tx, cs)
  else do
    let newSerial ← generateSerial zone.serial
    let tx' ← ((tx.deleteRecordsWithChanges newSerial cs.deletes).insertRecordsWithChanges newSerial
      cs.creates).advanceSerial zone newSerial
    pure (tx', cs)

/-- One round of the loop over the zones. -/
def applyZoneOps (caller : Caller) (state : Db × ExternalDnsChangesResponse)
    (entry : ZoneName × ZoneOps) : Except ServiceError (Db × ExternalDnsChangesResponse) :=
  match state.1.getZoneByName entry.1 with
  | none => .error (.zoneNotFound entry.1.text)
  | some store => do
      let (db, cs) ← state.1.inTx store (applyZoneOpsTx caller state.1.tokenPolicies entry.2)
      pure (db,
        if cs.deletes = [] ∧ cs.creates = [] then state.2
        else ⟨state.2.changedZones ++ [store.zone.name.text], state.2.recordsAdded + cs.creates.length,
          state.2.recordsDeleted + cs.deletes.length⟩)

/-- `ExternalDnsService::apply_changes`; `zonesRead` are the zones its transaction listed. -/
def applyChanges (db : Db) (caller : Caller) (zonesRead : List ZoneName)
    (request : ExternalDnsChangesRequest) : Except ServiceError (Db × ExternalDnsChangesResponse) := do
  let ops ← convertRequest request
  if ops.isEmpty then pure (db, ⟨[], 0, 0⟩)
  else do
    let grouped ← groupOpsByZone zonesRead ops
    grouped.foldlM (applyZoneOps caller) (db, ⟨[], 0, 0⟩)

end Bindizr
