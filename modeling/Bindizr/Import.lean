import Bindizr.RecordService

/-! # Zone file import

`bindizr-service/src/record/import.rs` and `zonefile.rs`.  The records a zone file holds are
normalised and deduplicated (`normalizeParsed`), reconciled with the zone's rows by mode
(`reconcile`), and the additions are checked against the rows that would remain
(`validateAdds`).  Nothing is written when any record was refused; otherwise all deletions
are logged before all additions, under one serial. -/

namespace Bindizr

variable [crates : Crates]

/-! ### Reading the file -/

structure ParsedRecord where
  ownerFqdn : Text
  recordType : RecordType
  value : RecordValueRequest
  ttl : ℤ
  priority : Option ℤ

/-- The record types an import takes, by their codes; SOA records are ignored. -/
def importedType : ℕ → Option RecordType
  | 1 => some .a
  | 28 => some .aaaa
  | 5 => some .cname
  | 15 => some .mx
  | 16 => some .txt
  | 2 => some .ns
  | 33 => some .srv
  | 12 => some .ptr
  | _ => none

/-- What one entry contributes: a record, an error, or nothing. -/
inductive ParsedEntry where
  | record (record : ParsedRecord)
  | error (message : Text)
  | ignored

/-- The value and priority of a record's rdata; no value for a TXT that is not UTF-8. -/
def parsedValue (recordType : RecordType) : ZonefileRdata → Option (RecordValueRequest × Option ℤ)
  | .txt segments => (segments.mapM fromUtf8).map fun ts => (.segments ts, none)
  | .other raw =>
      if recordType.takesPriority then
        match splitWhitespace raw with
        | p :: fields =>
            match parseI32 p with
            | some prio => some (.string (join [' '] fields), some prio)
            | none => some (.string raw, none)
        | [] => some (.string raw, none)
      else some (.string raw, none)

/-- The loop body of `parse_zone_file`. -/
def parseEntry : ZonefileEntry → ParsedEntry
  | .includeDirective => .error (lit "$INCLUDE directives are not supported")
  | .failure message => .error (lit "failed to parse zone file: " ++ message)
  | .record r =>
      if r.rclass ≠ 1 then
        .error (lit "unsupported record class '" ++ r.rclassText ++ lit "' for '" ++ r.owner ++ lit "'")
      else if r.rtype = 6 then .ignored
      else
        match importedType r.rtype with
        | none => .error (lit "unsupported record type '" ++ r.rtypeText ++ lit "' for '" ++ r.owner ++
            lit "'")
        | some recordType =>
            if 2147483647 < r.ttl then
              .error (lit "TTL " ++ natText r.ttl ++ lit " for '" ++ r.owner ++
                lit "' exceeds the maximum of " ++ intText i32Max)
            else
              match parsedValue recordType r.rdata with
              | none => .error (lit "TXT value for '" ++ r.owner ++ lit "' is not valid UTF-8")
              | some (value, priority) =>
                  .record ⟨toAsciiLowercase r.owner, recordType, value, r.ttl, priority⟩

/-- The text `parse_zone_file` hands to the reader. -/
def zonefileBuffer (content : Text) (zone : Zone) : Text :=
  let buffer := lit "$ORIGIN " ++ toFqdnLowercase zone.name.text ++ lit "\n$TTL " ++ intText zone.ttl ++
    lit "\n" ++ content
  if buffer.getLast? = some '\n' then buffer else buffer ++ ['\n']

/-- `parse_zone_file`: the records and the errors, in file order. -/
def parseZoneFile (content : Text) (zone : Zone) : List ParsedRecord × List Text :=
  let entries := (crates.readZonefile (zonefileBuffer content zone)).map parseEntry
  (entries.filterMap fun e => match e with | .record r => some r | _ => none,
    entries.filterMap fun e => match e with | .error m => some m | _ => none)

/-! ### Normalising and deduplicating -/

/-- `DesiredRecord`: the owner as the file spells it, and the row the import wants present. -/
structure DesiredRecord where
  ownerName : Text
  data : RecordData

/-- `record_matches`. -/
def RecordData.sameRr (r s : RecordData) : Bool := r.name == s.name && r.sameRdata s

/-- What the normalising loop has gathered. -/
structure Normalized where
  desired : List DesiredRecord
  errors : List Text
  skipped : ℕ

/-- One round of the normalising loop of `import_zone_file`. -/
def normalizeStep (zone : Zone) (n : Normalized) (r : ParsedRecord) : Except ServiceError Normalized :=
  match r.value.toEncodedValue r.recordType r.priority with
  | .error e => .ok { n with errors := n.errors ++ [r.ownerFqdn ++ lit ": " ++ e] }
  | .ok value =>
      match normalizeRecordOwnerName r.ownerFqdn zone.name with
      | .error e =>
          if e.code.httpStatus < 500 then
            .ok { n with errors := n.errors ++ [r.ownerFqdn ++ lit ": " ++ e.message] }
          else .error e
      | .ok storedName =>
          let data : RecordData := ⟨storedName, r.recordType, value, r.ttl, r.priority⟩
          match n.desired.find? (·.data.sameRr data) with
          | some kept =>
              -- the same RR at two TTLs is a mixed-TTL RRset, not a duplicate to drop
              if kept.data.ttl ≠ r.ttl then
                .ok { n with errors := n.errors ++ [r.ownerFqdn ++ lit ": duplicate " ++
                  r.recordType.asStr ++ lit " record with conflicting TTLs " ++ intText kept.data.ttl ++
                  lit " and " ++ intText r.ttl] }
              else .ok { n with skipped := n.skipped + 1 }
          | none => .ok { n with desired := n.desired ++ [⟨r.ownerFqdn, data⟩] }

/-- The normalising loop. -/
def normalizeParsed (zone : Zone) (records : List ParsedRecord) (errors : List Text) :
    Except ServiceError Normalized :=
  records.foldlM (normalizeStep zone) ⟨[], errors, 0⟩

/-! ### Reconciling -/

inductive ImportMode where
  | append
  | upsert
  | replace
  deriving DecidableEq, Repr

def isProtected (zone : Zone) (r : RecordData) : Bool :=
  match validateDeleteConstraints zone [r] with
  | .ok () => false
  | .error _ => true

/-- The rows an import loads. -/
def loadExisting (mode : ImportMode) (desired : List DesiredRecord) (tx : Tx) : List Record :=
  match mode with
  | .append => tx.recordsByNames (desired.map (·.data.name))
  | .upsert | .replace => tx.store.records

/-- Whether some desired record is the row `e`. -/
def desiredMatches (desired : List DesiredRecord) (e : Record) : Bool :=
  desired.any fun d => e.toRecordData.sameRr d.data

/-- Whether some desired record has the owner and type of `e`. -/
def desiredKeyMatches (desired : List DesiredRecord) (e : Record) : Bool :=
  desired.any fun d => d.data.name == e.name && d.data.recordType == e.recordType

/-- The deletions the mode implies. -/
def impliedDels (mode : ImportMode) (zone : Zone) (desired : List DesiredRecord)
    (existing : List Record) : List Record :=
  match mode with
  | .append => []
  | .replace => existing.filter fun e =>
      !isProtected zone e.toRecordData && !desiredMatches desired e
  | .upsert => existing.filter fun e =>
      desiredKeyMatches desired e && !isProtected zone e.toRecordData && !desiredMatches desired e

/-- The existing rows that are the desired record. -/
def presentRows (existing : List Record) (d : DesiredRecord) : List Record :=
  existing.filter (·.toRecordData.sameRr d.data)

/-- Those of them whose TTL the import changes. -/
def staleRows (mode : ImportMode) (existing : List Record) (d : DesiredRecord) : List Record :=
  if mode = .append then [] else (presentRows existing d).filter (·.ttl ≠ d.data.ttl)

/-- What an import deletes and adds. -/
structure Reconciled where
  dels : List Record
  ttlDels : List Record
  adds : List DesiredRecord
  updated : ℕ
  unchanged : ℕ

/-- The reconciling step of `import_zone_file`. -/
def reconcile (mode : ImportMode) (zone : Zone) (desired : List DesiredRecord)
    (existing : List Record) : Reconciled where
  dels := impliedDels mode zone desired existing
  ttlDels := desired.flatMap (staleRows mode existing)
  adds := desired.filter fun d =>
    (presentRows existing d).isEmpty || !(staleRows mode existing d).isEmpty
  updated := desired.countP fun d => !(staleRows mode existing d).isEmpty
  unchanged := desired.countP fun d =>
    !(presentRows existing d).isEmpty && (staleRows mode existing d).isEmpty

/-- The validating loop: each addition is checked against the rows that remain and the
additions accepted before it.  It gives the errors met. -/
def validateAdds : List Record → List DesiredRecord → Except ServiceError (List Text)
  | _, [] => .ok []
  | simulated, d :: ds =>
      match validateRecordAddConstraints (simulated.filter (·.name = d.data.name)) d.data none with
      | .ok () => validateAdds (simulated ++ [{ d.data with id := 0 }]) ds
      | .error e =>
          if e.code.httpStatus < 500 then do
            let errors ← validateAdds simulated ds
            pure ((d.ownerName ++ lit ": " ++ e.message) :: errors)
          else .error e

/-! ### The import -/

structure ImportSummary where
  parsed : ℕ
  added : ℕ
  deleted : ℕ
  updated : ℕ
  unchanged : ℕ
  skipped : ℕ
  deriving DecidableEq

/-- `ImportZoneFileResponse`, without the preview diff. -/
structure ImportZoneFileResponse where
  applied : Bool
  dryRun : Bool
  summary : ImportSummary
  errors : List Text
  deriving DecidableEq

structure ImportZoneFileRequest where
  content : Text
  mode : ImportMode
  dryRun : Bool

/-- The writes of an import that is applied. -/
def applyImport (r : Reconciled) (tx : Tx) : Except ServiceError Tx := do
  let newSerial ← generateSerial tx.store.zone.serial
  ((tx.deleteRecordsWithChanges newSerial (r.dels ++ r.ttlDels)).insertRecordsWithChanges newSerial
    (r.adds.map (·.data))).advanceSerial tx.store.zone newSerial

/-- Whether an import has anything to write. -/
def Reconciled.hasChanges (r : Reconciled) : Bool :=
  !r.dels.isEmpty || !r.adds.isEmpty || !r.ttlDels.isEmpty

/-- What `import_zone_file` has settled when it comes to its writes. -/
structure ImportSteps where
  normalized : Normalized
  existing : List Record
  reconciled : Reconciled
  errors : List Text

/-- The transaction of `import_zone_file` up to its writes, which a dry run shares. -/
def importSteps (content : Text) (mode : ImportMode) (tx : Tx) : Except ServiceError ImportSteps := do
  let zone := tx.store.zone
  let (records, parseErrors) := parseZoneFile content zone
  let n ← normalizeParsed zone records parseErrors
  let existing := loadExisting mode n.desired tx
  let r := reconcile mode zone n.desired existing
  let delIds := (r.dels ++ r.ttlDels).map (·.id)
  let addErrors ← validateAdds (existing.filter (·.id ∉ delIds)) r.adds
  pure ⟨n, existing, r, n.errors ++ addErrors⟩

theorem importSteps_eq_ok {content : Text} {mode : ImportMode} {tx : Tx} {s : ImportSteps} :
    importSteps content mode tx = .ok s ↔ ∃ n addErrors,
      normalizeParsed tx.store.zone (parseZoneFile content tx.store.zone).1 (parseZoneFile content tx.store.zone).2 = .ok n ∧
      s = ⟨n, loadExisting mode n.desired tx, reconcile mode tx.store.zone n.desired (loadExisting mode n.desired tx),
        n.errors ++ addErrors⟩ ∧
      validateAdds (s.existing.filter (·.id ∉ (s.reconciled.dels ++ s.reconciled.ttlDels).map (·.id))) s.reconciled.adds =
        .ok addErrors := by
  constructor
  · intro h
    obtain ⟨n, hnorm, h⟩ := Fallible.bind_eq_ok.1 h
    obtain ⟨addErrors, hval, h⟩ := Fallible.bind_eq_ok.1 h
    cases h
    exact ⟨n, addErrors, hnorm, rfl, hval⟩
  · rintro ⟨n, addErrors, hnorm, rfl, hval⟩
    exact Fallible.bind_eq_ok.2 ⟨n, hnorm, Fallible.bind_eq_ok.2 ⟨addErrors, hval, rfl⟩⟩

/-- The transaction of `import_zone_file`. -/
def importTx (request : ImportZoneFileRequest) (tx : Tx) :
    Except ServiceError (Tx × ImportZoneFileResponse) := do
  let s ← importSteps request.content request.mode tx
  let r := s.reconciled
  let response : ImportZoneFileResponse :=
    { applied := s.errors.isEmpty && !request.dryRun
      dryRun := request.dryRun
      summary := ⟨s.normalized.desired.length, r.adds.length - r.updated, r.dels.length, r.updated, r.unchanged,
        s.normalized.skipped⟩
      errors := s.errors }
  if response.applied && r.hasChanges then do
    let tx' ← applyImport r tx
    pure (tx', response)
  else pure (tx, response)

def importZoneFile (db : Db) (caller : Caller) (zoneName : Text) (request : ImportZoneFileRequest) :
    Except ServiceError (Db × ImportZoneFileResponse) := do
  caller.requireGlobal (lit "import zone files")
  let store ← db.lookupByName zoneName
  db.inTx store (importTx request)

end Bindizr
