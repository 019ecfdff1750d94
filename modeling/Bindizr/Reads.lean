import Bindizr.History
import Bindizr.RecordService

/-! # Reads

The reads a token can make: `zone/get.rs`, `record/get.rs`, `zone/export.rs` and the snapshot
reads of `zone/history.rs`, with the filter queries of `bindizr-db/src/repository/sqlite`.  A
zone a scoped token holds no policy for reads as not found; lists leave such zones out. -/

namespace Bindizr

/-! ### Pages -/

structure Pagination where
  limit : ℕ
  offset : ℕ
  total : ℕ
  deriving DecidableEq

structure PaginatedResponse (α : Type) where
  items : List α
  pagination : Pagination
  deriving DecidableEq

def u32Max : ℕ := 4294967295

def paginatedResponse {α : Type} (items : List α) (limit offset : Option ℕ) (total : ℕ) : PaginatedResponse α :=
  ⟨items, limit.getD (min total u32Max), offset.getD 0, total⟩

def i64Max : ℕ := 9223372036854775807

/-- `LIMIT` and `OFFSET`, as the queries bind them. -/
def page {α : Type} (limit offset : Option ℕ) (rows : List α) : List α :=
  (rows.drop (min (offset.getD 0) i64Max)).take (limit.getD i64Max)

/-! ### SQL -/

/-- `text LIKE pattern ESCAPE '\'`. -/
def sqlLike : Text → Text → Bool
  | [], t => t.isEmpty
  | ['\\'], _ => false
  | '\\' :: e :: p, t =>
      match t with
      | [] => false
      | c :: cs => c == e && sqlLike p cs
  | '%' :: p, t => t.tails.any (sqlLike p)
  | '_' :: p, t =>
      match t with
      | [] => false
      | _ :: cs => sqlLike p cs
  | e :: p, t =>
      match t with
      | [] => false
      | c :: cs => c == e && sqlLike p cs

/-- `INSTR(text, part) > 0`. -/
def sqlContains (text part : Text) : Bool := decide (part <:+: text)

/-- `(? IS NULL OR …)`. -/
def unlessNull {α : Type} (arg : Option α) (p : α → Bool) : Bool := arg.all p

def normalizePartialValue (value : Text) : Text := trimEndMatches '.' (trim value)

/-- The escapes of `like_pattern`. -/
def escapeLike (t : Text) : Text :=
  t.flatMap fun c => if c = '\\' ∨ c = '%' ∨ c = '_' then ['\\', c] else [c]

def likePattern (value : Option Text) : Option Text :=
  ((value.map trim).filter (· ≠ [])).map fun v => ['%'] ++ escapeLike (trimEndMatches '.' v) ++ ['%']

/-- `SQLITE_MAX_LIKE_PATTERN_LENGTH`, in bytes. -/
def likePatternMax : ℕ := 50000

/-- What SQLite says of a longer pattern, as `DatabaseError` words it. -/
def likeError : Text := lit "Query failed: error returned from database: (code: 1) LIKE or GLOB pattern too complex"

/-- `LOWER(text) LIKE LOWER(pattern) ESCAPE '\'`. -/
def sqlLowerLike (text pattern : Text) : Except Text Bool :=
  if likePatternMax < byteLen (toAsciiLowercase pattern) then .error likeError
  else .ok (sqlLike (toAsciiLowercase pattern) (toAsciiLowercase text))

/-- `(? IS NULL OR text LIKE ? OR …)`. -/
def sqlSearch (pattern : Option Text) (texts : List Text) : Except Text Bool :=
  match pattern with
  | none => .ok true
  | some p => texts.anyM (sqlLowerLike · p)

/-- Whether a list query makes its search at a row.  The search comes after the other criteria.  The scope
comes last, but in a join the planner may decide it before, from the row of the outer table. -/
def searches (scopeFirst criteria inScope : Bool) : Bool := criteria && (!scopeFirst || inScope)

/-- The `WHERE` clause of a list query at one row. -/
def sqlWhere (scopeFirst criteria inScope : Bool) (search : Except Text Bool) : Except Text Bool :=
  if searches scopeFirst criteria inScope then search.map (· && inScope) else .ok false

/-- The scope of a list query: every zone, or those the token has a policy for. -/
def Db.inScope (db : Db) (scopeTokenId : Option ℕ) (zoneId : ℕ) : Bool :=
  unlessNull scopeTokenId fun id => db.tokenPolicies.any fun p => p.holderId == id && p.zoneId == zoneId

/-! ### Zones -/

structure GetZonesFilter where
  name : Option Text
  id : Option ℤ
  primaryNs : Option Text
  adminEmail : Option Text
  ttl : Option ℤ
  minTtl : Option ℤ
  maxTtl : Option ℤ
  serial : Option ℤ
  search : Option Text
  limit : Option ℕ
  offset : Option ℕ

/-- The criteria of a zone filter other than the search and the scope. -/
def GetZonesFilter.selects (f : GetZonesFilter) (z : Zone) : Bool :=
  unlessNull f.name (fun n => toAsciiLowercase z.name.text == toAsciiLowercase n) &&
    unlessNull f.id (fun i => (z.id : ℤ) == i) &&
    unlessNull f.primaryNs (fun n => toAsciiLowercase z.primaryNs.text == toAsciiLowercase n) &&
    unlessNull f.adminEmail (fun e => toAsciiLowercase z.adminEmail == toAsciiLowercase e) &&
    unlessNull f.ttl (fun t => z.ttl == t) &&
    unlessNull f.minTtl (fun t => decide (t ≤ z.ttl)) &&
    unlessNull f.maxTtl (fun t => decide (z.ttl ≤ t)) &&
    unlessNull f.serial (fun s => z.serial == s)

/-- The texts a search of zones looks at. -/
def Zone.searched (z : Zone) : List Text := [z.name.text, z.primaryNs.text, z.adminEmail]

/-- `ZoneService::list_by_filter`; the rows are counted before they are loaded. -/
def listByFilter (scopeFirst : Bool) (db : Db) (caller : Caller) (filter : GetZonesFilter) :
    Except ServiceError (PaginatedResponse Zone) := do
  let rows ← (db.stores.filterM fun st => sqlWhere scopeFirst (filter.selects st.zone)
    (db.inScope caller.scopeTokenId st.zone.id) (sqlSearch (likePattern filter.search) st.zone.searched)).mapError
      fun e => ⟨.internal, lit "failed to count zones: " ++ e⟩
  let zones := (rows.map (·.zone)).mergeSort fun a b => decide (a.name.text ≤ b.name.text)
  pure (paginatedResponse (page filter.limit filter.offset zones) filter.limit filter.offset zones.length)

/-- `ZoneService::get_by_name`, with the rows of the zone. -/
def getStoreByName (db : Db) (caller : Caller) (zoneName : Text) : Except ServiceError ZoneStore := do
  let store ← db.lookupByName zoneName
  caller.ensureZoneVisible store.zone
  pure store

def getByName (db : Db) (caller : Caller) (zoneName : Text) : Except ServiceError Zone := do
  let store ← getStoreByName db caller zoneName
  pure store.zone

/-! ### Records -/

/-- `list_records_by_zone_id`: the zone's rows, by stored owner name. -/
def ZoneStore.listRecords (st : ZoneStore) : List Record :=
  st.records.mergeSort fun a b => decide (a.name.toStored ≤ b.name.toStored)

def listInZone (db : Db) (caller : Caller) (zoneName : Text) : Except ServiceError (List Record) := do
  let store ← getStoreByName db caller zoneName
  pure store.listRecords

structure RecordWithZone where
  record : Record
  zoneId : ℕ
  zoneName : ZoneName
  deriving DecidableEq

structure GetRecordsFilter where
  zoneName : Option Text
  name : Option Text
  recordType : Option Text
  value : Option Text
  ttl : Option ℤ
  minTtl : Option ℤ
  maxTtl : Option ℤ
  priority : Option ℤ
  minPriority : Option ℤ
  maxPriority : Option ℤ
  search : Option Text
  limit : Option ℕ
  offset : Option ℕ

def normalizeFilterRecordName (name : Option Text) (zoneName : Option ZoneName) : Option Text :=
  name.bind fun name =>
    let trimmed := trim name
    if trimmed = [] then none
    else
      match zoneName with
      | none => if trimmed = ['@'] then some OwnerName.apex.toStored else some trimmed
      | some zone =>
          match OwnerName.parseAbsoluteInZone trimmed zone with
          | .ok owner => some (owner.toFqdn zone)
          | .error _ =>
              match OwnerName.parseInZone trimmed zone with
              | .ok owner => some owner.toStored
              | .error _ => some trimmed

/-- The absolute owner name the queries build. -/
def sqlFqdn (r : RecordWithZone) : Text :=
  if r.record.name.toStored = [] then r.zoneName.text ++ ['.']
  else r.record.name.toStored ++ ['.'] ++ r.zoneName.text ++ ['.']

section Records

variable [Crates]

/-- The column `display_value`. -/
def RecordWithZone.displayValue (r : RecordWithZone) : Text := r.record.recordType.displayValue r.record.value

/-- The criteria of a record filter other than the search and the scope, with the names the query binds. -/
def GetRecordsFilter.selects (f : GetRecordsFilter) (zoneName : Option ZoneName) (name : Option Text)
    (r : RecordWithZone) : Bool :=
  unlessNull zoneName (fun n => toAsciiLowercase r.zoneName.text == toAsciiLowercase n.text) &&
    unlessNull name (fun n => toAsciiLowercase r.record.name.toStored == toAsciiLowercase n ||
      toAsciiLowercase (sqlFqdn r) == toAsciiLowercase n) &&
    unlessNull f.recordType (fun t => toAsciiLowercase r.record.recordType.asStr == toAsciiLowercase t) &&
    unlessNull f.value (fun v =>
      if r.record.recordType.isNameLike then
        sqlContains (toAsciiLowercase r.displayValue) (toAsciiLowercase (normalizePartialValue v))
      else sqlContains r.displayValue (trim v)) &&
    unlessNull f.ttl (fun t => r.record.ttl == t) &&
    unlessNull f.minTtl (fun t => decide (t ≤ r.record.ttl)) &&
    unlessNull f.maxTtl (fun t => decide (r.record.ttl ≤ t)) &&
    -- a comparison with a missing priority is NULL, which selects nothing
    unlessNull f.priority (fun p => r.record.priority.any (· == p)) &&
    unlessNull f.minPriority (fun p => r.record.priority.any fun q => decide (p ≤ q)) &&
    unlessNull f.maxPriority (fun p => r.record.priority.any fun q => decide (q ≤ p))

/-- The texts a search of records looks at. -/
def RecordWithZone.searched (r : RecordWithZone) : List Text :=
  [r.zoneName.text, r.record.name.toStored, sqlFqdn r, r.record.recordType.asStr, r.displayValue]

/-- The rows of `records r INNER JOIN zones z ON z.id = r.zone_id`. -/
def ZoneStore.joined (st : ZoneStore) : List RecordWithZone :=
  st.records.map fun r => ⟨r, st.zone.id, st.zone.name⟩

/-- `ORDER BY r.name, r.id`. -/
def recordRowLe (a b : RecordWithZone) : Bool :=
  if a.record.name.toStored = b.record.name.toStored then decide (a.record.id ≤ b.record.id)
  else decide (a.record.name.toStored < b.record.name.toStored)

def listWithZoneByFilter (scopeFirst : Bool) (db : Db) (caller : Caller) (filter : GetRecordsFilter) :
    Except ServiceError (PaginatedResponse RecordWithZone) := do
  let zoneName ← filter.zoneName.mapM normalizeZoneName
  -- only an unrestricted caller is told that the zone does not exist
  (if caller.scopeTokenId.isNone then zoneName.forM fun n => (db.lookupByName n.text).map fun _ => ()
    else .ok ())
  let name := normalizeFilterRecordName filter.name zoneName
  let rows ← ((db.stores.flatMap ZoneStore.joined).filterM fun r => sqlWhere scopeFirst (filter.selects zoneName name r)
    (db.inScope caller.scopeTokenId r.zoneId) (sqlSearch (likePattern filter.search) r.searched)).mapError
      fun e => ⟨.internal, lit "failed to count records: " ++ e⟩
  let sorted := rows.mergeSort recordRowLe
  pure (paginatedResponse (page filter.limit filter.offset sorted) filter.limit filter.offset sorted.length)

end Records

def Db.getRecordByIdWithZone (db : Db) (id : ℕ) : Option RecordWithZone :=
  (db.stores.flatMap ZoneStore.joined).find? (·.record.id == id)

def getByIdWithZone (db : Db) (caller : Caller) (id : ℕ) : Except ServiceError RecordWithZone :=
  match db.getRecordByIdWithZone id with
  | none => .error (.recordNotFound id)
  | some r => if caller.zoneVisible r.zoneId then .ok r else .error (.recordNotFound id)

/-! ### Snapshots -/

def listSnapshots (db : Db) (caller : Caller) (zoneName : Text) (limit offset : Option ℕ) :
    Except ServiceError (PaginatedResponse ZoneSnapshot) := do
  let store ← getStoreByName db caller zoneName
  let newestFirst := store.snapshots.mergeSort fun a b => decide (b.serial ≤ a.serial)
  let effectiveLimit := limit.getD 50
  pure (paginatedResponse (page (some effectiveLimit) offset newestFirst) (some effectiveLimit) offset
    store.snapshots.length)

/-- The zone `get_snapshot` and `diff_snapshots` read, looked up by its normalised name. -/
def getStoreForHistory (db : Db) (caller : Caller) (zoneName : Text) : Except ServiceError ZoneStore := do
  let lookupName ← normalizeZoneName zoneName
  let store ← db.lookupByName lookupName.text
  if caller.zoneVisible store.zone.id then pure store else .error (.zoneNotFound zoneName)

def getSnapshot (db : Db) (caller : Caller) (zoneName : Text) (serial : ℤ) :
    Except ServiceError (ZoneSnapshot × List RecordData) := do
  let store ← getStoreForHistory db caller zoneName
  match store.snapshotBySerial serial with
  | none => .error (.snapshotNotFound store.zone.name.text serial)
  | some snapshot => pure (snapshot, store.recordsAtSerial serial store.zone.serial)

def ZoneStore.requireSerial (st : ZoneStore) (serial : ℤ) : Except ServiceError Unit :=
  if serial = st.zone.serial then .ok ()
  else if (st.snapshotBySerial serial).isSome then .ok ()
  else .error (.snapshotNotFound st.zone.name.text serial)

/-- How an RRset differs between two serials. -/
inductive DiffChange where
  | added
  | removed
  | changed
  deriving DecidableEq

structure RecordDiffValue where
  value : RecordValueRequest
  ttl : ℤ
  priority : Option ℤ
  deriving DecidableEq

/-- `RecordDiffEntry`; `before` and `after` are its `from` and `to`. -/
structure RecordDiffEntry where
  change : DiffChange
  name : Text
  recordType : Text
  before : List RecordDiffValue
  after : List RecordDiffValue
  deriving DecidableEq

/-- `SnapshotDiffResponse`, with its summary. -/
structure SnapshotDiffResponse where
  fromSerial : ℤ
  toSerial : ℤ
  entries : List RecordDiffEntry
  added : ℕ
  removed : ℕ
  changed : ℕ
  deriving DecidableEq

def RecordData.rrsetKey (zone : Zone) (r : RecordData) : Text × Text := (r.name.toFqdn zone.name, r.recordType.asStr)

def rrsetKeyLe (a b : Text × Text) : Bool :=
  if a.1 = b.1 then decide (a.2 ≤ b.2) else decide (a.1 < b.1)

/-- `group_identities`: the canonical rdata and TTL of each record, sorted. -/
def groupIdentities (group : List RecordData) : List (Text × ℤ) :=
  (group.map fun r => (r.canonical, r.ttl)).mergeSort fun a b =>
    if a.1 = b.1 then decide (a.2 ≤ b.2) else decide (a.1 < b.1)

section Rendering

variable [Crates]

def displayRecordValueRequest (value : Text) (t : RecordType) : RecordValueRequest :=
  if t = .txt then
    match (txtFromEncoded value).bind txtToContent with
    | some (.single value) => .string value
    | some (.segments segments) => .segments segments
    | none => .string value
  else .string (t.displayValue value)

def groupValues (group : List RecordData) : List RecordDiffValue :=
  group.map fun r => ⟨displayRecordValueRequest r.value r.recordType, r.ttl, r.priority⟩

/-- One RRset of `build_record_diff`; nothing where it is the same on both sides. -/
def diffRrset (key : Text × Text) (before after : List RecordData) : Option RecordDiffEntry :=
  match before, after with
  | [], _ :: _ => some ⟨.added, key.1, key.2, [], groupValues after⟩
  | _ :: _, [] => some ⟨.removed, key.1, key.2, groupValues before, []⟩
  | _, _ =>
      if groupIdentities before = groupIdentities after then none
      else some ⟨.changed, key.1, key.2, groupValues before, groupValues after⟩

/-- The entries of `build_record_diff`. -/
def buildRecordDiff (zone : Zone) (before after : List RecordData) : List RecordDiffEntry :=
  let keys := (((before ++ after).map (·.rrsetKey zone)).dedup).mergeSort rrsetKeyLe
  keys.filterMap fun key =>
    diffRrset key (before.filter (·.rrsetKey zone = key)) (after.filter (·.rrsetKey zone = key))

def diffSnapshots (db : Db) (caller : Caller) (zoneName : Text) (fromSerial : ℤ) (toSerial : Option ℤ) :
    Except ServiceError SnapshotDiffResponse := do
  let store ← getStoreForHistory db caller zoneName
  let serial := store.zone.serial
  store.requireSerial fromSerial
  store.requireSerial (toSerial.getD serial)
  let entries := buildRecordDiff store.zone (store.recordsAtSerial fromSerial serial)
    (store.recordsAtSerial (toSerial.getD serial) serial)
  pure ⟨fromSerial, toSerial.getD serial, entries, entries.countP (·.change = .added),
    entries.countP (·.change = .removed), entries.countP (·.change = .changed)⟩

/-! ### Export -/

/-- The order of the exported records: owner, type mnemonic, rdata. -/
def exportLe (a b : Record) : Bool :=
  if a.name.labels ≠ b.name.labels then decide (a.name.labels < b.name.labels)
  else if a.recordType.asStr ≠ b.recordType.asStr then decide (a.recordType.asStr < b.recordType.asStr)
  else decide (a.recordType.presentationRdata a.value a.priority ≤ b.recordType.presentationRdata b.value b.priority)

/-- One line of an exported zone file. -/
def exportLine (r : Record) : Text :=
  r.name.display ++ ['\t'] ++ intText r.ttl ++ lit "\tIN\t" ++ r.recordType.asStr ++ ['\t'] ++
    r.recordType.presentationRdata r.value r.priority ++ ['\n']

/-- The text `export_zone_file` renders. -/
def renderZoneFile (zone : Zone) (records : List Record) : Except ServiceError Text := do
  let mailbox ← zone.soaMailbox.mapError fun e => ⟨.internal, lit "Failed to render SOA mailbox: " ++ e⟩
  let soa := join [' '] [toFqdn zone.primaryNs.text, toFqdn mailbox, intText zone.serial, intText zone.refresh,
    intText zone.retry, intText zone.expire, intText zone.minimumTtl]
  pure (lit "$ORIGIN " ++ zone.name.toFqdn ++ ['\n'] ++ lit "$TTL " ++ intText zone.ttl ++ ['\n'] ++
    lit "@\t" ++ intText zone.ttl ++ lit "\tIN\tSOA\t" ++ soa ++ ['\n'] ++
    ((records.mergeSort exportLe).filter (·.recordType ≠ .soa)).flatMap exportLine)

def exportZoneFile (db : Db) (caller : Caller) (zoneName : Text) : Except ServiceError Text := do
  let lookupName ← normalizeZoneName zoneName
  match db.getZoneByName lookupName with
  | none => .error (.zoneNotFound zoneName)
  | some store =>
      if caller.zoneVisible store.zone.id then renderZoneFile store.zone store.listRecords
      else .error (.zoneNotFound zoneName)

end Rendering

end Bindizr
