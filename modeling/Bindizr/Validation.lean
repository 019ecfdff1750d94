import Bindizr.Model

/-! # Record and zone validation

`bindizr-service/src/record/validation` and `zone/validation.rs`.  An added record is checked
against the rows that share its owner (`validateRecordAddConstraints`): no duplicate rdata,
no CNAME beside another row, no null MX beside another MX, NS at the apex only, one TTL per
RRset.  A deletion may not take the SOA or the NS the zone's `primary_ns` names
(`validateDeleteConstraints`).  Zone requests are normalised before anything is written. -/

namespace Bindizr

/-! ### Records -/

def parseRecordType (value : Text) : Except ServiceError RecordType :=
  (RecordType.fromStr value).mapError fun _ => ⟨.invalidInput, lit "invalid record type: " ++ value⟩

theorem parseRecordType_asStr (t : RecordType) : parseRecordType t.asStr = .ok t := by
  cases t <;> decide +kernel

theorem RecordType.asStr_injective : Function.Injective RecordType.asStr := fun t u h => by
  have ht := parseRecordType_asStr t
  rw [h, parseRecordType_asStr] at ht
  exact (Except.ok.inj ht).symm

def normalizeRecordOwnerName (inputName : Text) (zone : ZoneName) : Except ServiceError OwnerName :=
  (OwnerName.parseInZone inputName zone).mapError fun e =>
    match e with
    | .outsideZone => ⟨.invalidRecordName, lit "record name '" ++ inputName ++
        lit "' is outside zone '" ++ zone.text ++ lit "'"⟩
    | other => ⟨.invalidRecordName, lit "record name " ++ other.message⟩

/-- Whether a record is a null MX (RFC 7505). -/
def RecordData.isNullMx (r : RecordData) : Bool :=
  r.recordType == .mx && MxRecordValue.isNullValue r.value r.priority

/-- The rdata of a record in the form two values are compared by. -/
def RecordData.canonical (r : RecordData) : Text := r.recordType.canonicalValue r.value r.priority

/-- Whether two records carry the same rdata. -/
def RecordData.sameRdata (r s : RecordData) : Bool :=
  r.recordType == s.recordType && s.recordType.valuesEqual r.value r.priority s.value s.priority

def hasMatchingRdata (records : List RecordData) (candidate : RecordData) : Bool :=
  records.any (·.sameRdata candidate)

/-- The constraints of `validate_record_add_constraints_normalized` on the rows that share the
candidate's owner. -/
def validateAgainstOwner (existing : List RecordData) (c : RecordData) : Except ServiceError Unit :=
  if hasMatchingRdata existing c then
    .error ⟨.recordConflict, lit "Record '" ++ c.name.display ++ lit "' " ++ c.recordType.asStr ++
      lit " '" ++ c.value ++ lit "' already exists in this zone"⟩
  else if c.recordType = .mx ∧
      ((c.isNullMx ∧ existing.any (·.recordType == .mx)) ∨ (¬ c.isNullMx ∧ existing.any (·.isNullMx))) then
    .error ⟨.recordConflict, lit "Null MX record for '" ++ c.name.display ++
      lit "' cannot coexist with other MX records"⟩
  else if existing ≠ [] ∧ c.recordType = .cname then
    .error ⟨.recordConflict, lit "Another record with name '" ++ c.name.display ++
      lit "' already exists in this zone, so CNAME cannot be used"⟩
  else if existing.any (·.recordType == .cname) then
    .error ⟨.recordConflict, lit "A CNAME record with name '" ++ c.name.display ++
      lit "' already exists in this zone"⟩
  else if c.recordType = .ns ∧ ¬ c.name.isApex then
    .error ⟨.invalidRecordName, lit "NS records must use apex owner name '@'"⟩
  else
    match existing.find? fun r => r.recordType == c.recordType && r.ttl != c.ttl with
    | some conflicting =>
        .error ⟨.recordConflict, lit "TTL " ++ intText c.ttl ++ lit " does not match the existing " ++
          c.recordType.asStr ++ lit " RRset for '" ++ c.name.display ++ lit "' (TTL " ++
          intText conflicting.ttl ++ lit "); every record in an RRset must share one TTL"⟩
    | none => .ok ()

/-- `validate_record_add_constraints_normalized`. -/
def validateRecordAddConstraints (zoneRecords : List Record) (c : RecordData)
    (exceptRecordId : Option ℕ) : Except ServiceError Unit :=
  if c.recordType = .soa then .error ⟨.invalidInput, lit "Cannot create SOA record manually"⟩
  else do
    (c.recordType.validateValue c.value c.priority).mapError (ServiceError.mk .invalidRecordValue)
    if c.recordType = .cname ∧ c.name.isApex then
      .error ⟨.invalidRecordName, lit "CNAME record cannot have '@' as name"⟩
    else
      validateAgainstOwner
        ((zoneRecords.filter fun r => r.name = c.name ∧ exceptRecordId ≠ some r.id).map
          (·.toRecordData)) c

/-- The validation loop of `compute_zone_change_set` and of `rollback`: each addition is checked
against `earlier`, the rows that stay and the additions already checked. -/
def validateEach : List Record → List RecordData → Except ServiceError Unit
  | _, [] => .ok ()
  | earlier, c :: cs => do
      validateRecordAddConstraints (earlier.filter (·.name = c.name)) c none
      validateEach (earlier ++ [{ c with id := 0 }]) cs

def validateDeleteConstraints (zone : Zone) (deleting : List RecordData) : Except ServiceError Unit :=
  if deleting.any (·.recordType == .soa) then .error ⟨.invalidInput, lit "Cannot delete SOA record"⟩
  else if deleting.any zone.isPrimaryNs then
    .error ⟨.invalidInput, lit "Cannot delete NS record referenced by zone primary_ns"⟩
  else .ok ()

/-- `validate_record_update_constraints_normalized`. -/
def validateRecordUpdateConstraints (zone : Zone) (zoneRecords : List Record)
    (existing updated : Record) : Except ServiceError Unit :=
  if updated.recordType = .soa then .error ⟨.invalidInput, lit "Cannot update to SOA record type"⟩
  else do
    validateRecordAddConstraints zoneRecords updated.toRecordData (some existing.id)
    if zone.isPrimaryNs existing.toRecordData ∧ ¬ zone.isPrimaryNs updated.toRecordData then
      .error ⟨.invalidInput, lit "Cannot modify the NS record referenced by zone primary_ns"⟩
    else .ok ()

/-- What an add resolves to against the records already in the zone. -/
inductive AddOutcome where
  | new
  | duplicate
  deriving DecidableEq

/-- `validate_add_tx`. -/
def validateAdd (tx : Tx) (c : RecordData) : Except ServiceError AddOutcome :=
  if hasMatchingRdata ((tx.recordsByName c.name).map (·.toRecordData)) c then .ok .duplicate
  else do
    validateRecordAddConstraints (tx.recordsByName c.name) c none
    pure .new

/-! ### Zones -/

def normalizeDomainName (value field : Text) : Except ServiceError ZoneName :=
  (ZoneName.parse value).mapError fun e => ⟨.invalidZone, field ++ lit " " ++ e.message⟩

def normalizeZoneName (value : Text) : Except ServiceError ZoneName :=
  let trimmed := trim value
  if trimmed = ['.'] then .error ⟨.invalidZone, lit "zone name must not be the root zone"⟩
  else if (stripPrefix ['*', '.'] trimmed).isSome ∨ trimmed = ['*'] then
    .error ⟨.invalidZone, lit "wildcard zone names are not allowed"⟩
  else normalizeDomainName trimmed (lit "zone name")

theorem normalizeZoneName_text (z : ZoneName) : normalizeZoneName z.text = .ok z := by
  have hstar : '*' ∉ z.text := z.not_mem_text (by decide) rfl
  unfold normalizeZoneName
  simp only [z.trim_text]
  rw [if_neg, if_neg, normalizeDomainName, z.parse_text]
  · rfl
  · rintro (h | h)
    · refine hstar ?_
      cases ht : z.text with
      | nil => simp [ht, stripPrefix] at h
      | cons c cs =>
          rw [ht, stripPrefix] at h
          split at h
          · rename_i e
            exact e ▸ List.mem_cons_self
          · cases h
    · exact hstar (by simp [h])
  · intro h
    exact z.getLast?_text (by simp [h])

def isValidEmailLocalChar (c : Char) : Bool :=
  isAsciiAlphanumeric c || (lit "!#$%&'*+-/=?^_`\x7b|\x7d~.").contains c

/-- Whether a text holds two dots in a row. -/
def hasConsecutiveDots : Text → Bool
  | '.' :: '.' :: _ => true
  | _ :: cs => hasConsecutiveDots cs
  | [] => false

def validateEmailLocalPart (localPart : Text) : Except ServiceError Unit :=
  if localPart = [] then .error ⟨.invalidZone, lit "admin email local part must not be empty"⟩
  else if 64 < byteLen localPart then
    .error ⟨.invalidZone, lit "admin email local part must be 64 bytes or fewer"⟩
  else if localPart.head? = some '.' ∨ localPart.getLast? = some '.' ∨ hasConsecutiveDots localPart then
    .error ⟨.invalidZone,
      lit "admin email local part must not start, end, or contain consecutive dots"⟩
  else if !localPart.all isValidEmailLocalChar then
    .error ⟨.invalidZone, lit "admin email local part contains invalid characters"⟩
  else .ok ()

def normalizeEmail (value : Text) : Except ServiceError Text :=
  if trim value = [] then .error ⟨.invalidZone, lit "admin email must not be empty"⟩
  else if hasWhitespaceOrControl (trim value) then
    .error ⟨.invalidZone, lit "admin email must not contain whitespace or control characters"⟩
  else
    match split '@' (trim value) with
    | [localPart, domain] => do
        validateEmailLocalPart localPart
        let domain ← normalizeDomainName domain (lit "admin email domain")
        let normalized := localPart ++ ['@'] ++ domain.text
        if 254 < byteLen normalized then
          .error ⟨.invalidZone, lit "admin email must be 254 bytes or fewer"⟩
        else .ok normalized
    | _ => .error ⟨.invalidZone, lit "admin email must contain exactly one @"⟩

def validateTtl (ttl : ℤ) : Except ServiceError ℤ :=
  if ttl < 60 then .error ⟨.invalidZone, lit "ttl must be at least 60 seconds"⟩
  else if 604800 < ttl then .error ⟨.invalidZone, lit "ttl must be at most 604800 seconds"⟩
  else .ok ttl

def validateSoaWireSafety (adminEmail : Text) : Except ServiceError Unit := do
  let mailbox ← (soaMailboxFromEmail adminEmail).mapError (ServiceError.mk .invalidZone)
  (soaMailboxClassifyWireLabels mailbox).mapError fun e =>
    ⟨.invalidZone, lit "admin email SOA RNAME " ++ e⟩

structure CreateZoneRequest where
  name : Text
  primaryNs : Text
  adminEmail : Text
  ttl : ℤ
  serial : Option ℤ
  refresh : Option ℤ
  retry : Option ℤ
  expire : Option ℤ
  minimumTtl : Option ℤ

structure ValidatedCreateZoneRequest where
  name : ZoneName
  primaryNs : ZoneName
  adminEmail : Text
  ttl : ℤ

def validateCreateZoneRequest (request : CreateZoneRequest) :
    Except ServiceError ValidatedCreateZoneRequest := do
  let zoneName ← normalizeZoneName request.name
  let primaryNs ← normalizeDomainName request.primaryNs (lit "primary NS")
  let adminEmail ← normalizeEmail request.adminEmail
  let ttl ← validateTtl request.ttl
  validateSoaWireSafety adminEmail
  pure ⟨zoneName, primaryNs, adminEmail, ttl⟩

structure ResolvedSoaTimers where
  refresh : ℤ
  retry : ℤ
  expire : ℤ
  minimumTtl : ℤ

def resolveSoaInterval (value : Option ℤ) (fallback : ℤ) (field : Text) : Except ServiceError ℤ :=
  if value.getD fallback ≤ 0 then
    .error ⟨.invalidZone, field ++ lit " must be a positive number of seconds"⟩
  else .ok (value.getD fallback)

def resolveSoaTimers (request : CreateZoneRequest) (fallback : ResolvedSoaTimers) :
    Except ServiceError ResolvedSoaTimers := do
  let refresh ← resolveSoaInterval request.refresh fallback.refresh (lit "refresh")
  let retry ← resolveSoaInterval request.retry fallback.retry (lit "retry")
  let expire ← resolveSoaInterval request.expire fallback.expire (lit "expire")
  let minimumTtl ← resolveSoaInterval request.minimumTtl fallback.minimumTtl (lit "minimum_ttl")
  pure ⟨refresh, retry, expire, minimumTtl⟩

/-! ### Zone lookup -/

/-- `ZoneService::find_by_name_tx` and `find_by_name`. -/
def Db.findByName (db : Db) (zoneName : Text) : Except ServiceError (Option ZoneStore) := do
  let lookupName ← normalizeZoneName zoneName
  pure (db.getZoneByName lookupName)

/-- `ZoneService::get_by_name_tx` and `lookup_by_name`. -/
def Db.lookupByName (db : Db) (zoneName : Text) : Except ServiceError ZoneStore := do
  match ← db.findByName zoneName with
  | some store => pure store
  | none => .error (.zoneNotFound zoneName)

/-- Run the body of a transaction on `store`'s zone and commit what it left. -/
def Db.inTx {ε α : Type} (db : Db) (store : ZoneStore) (body : Tx → Except ε (Tx × α)) :
    Except ε (Db × α) := do
  let (tx, a) ← body (db.beginTx store)
  pure (db.commit tx, a)

end Bindizr
