import Bindizr.DynamicUpdate

/-! # UPDATE messages

`bindizr-dns/src/server/nsupdate`: the parser of UPDATE messages, which cuts a message into
the records of its sections (`parseUpdateRequest`), and the decoder, which turns them into the
prerequisites and operations the service applies (`decodePrerequisite`, `decodeUpdate`).  The
parser goes over the message by positions; rdata is decoded in place, so that names in it may
be compressed.  What TSIG verification found is an argument of `toDynamicUpdate`. -/

namespace Bindizr

open Rfc1035 (Name Rdata Read)

variable [crates : Crates]

/-! ### The parser -/

inductive ParseError where
  | tooShort
  | invalidOpcode
  | invalidHeader
  | invalidZoneSection
  | invalidName
  | invalidRr
  | invalidTsig
  deriving DecidableEq

def ParseError.message : ParseError → Text
  | .tooShort => lit "DNS message is too short"
  | .invalidOpcode => lit "Not a DNS UPDATE opcode"
  | .invalidHeader => lit "Invalid DNS UPDATE header"
  | .invalidZoneSection => lit "Invalid DNS UPDATE zone section"
  | .invalidName => lit "Invalid compressed domain name"
  | .invalidRr => lit "Invalid resource record in UPDATE section"
  | .invalidTsig => lit "Invalid TSIG resource record"

/-- `UpdateRecord`; type and class are their codes. -/
structure UpdateRecord where
  name : Text
  rrType : ℕ
  rrClass : ℕ
  ttl : ℕ
  rdata : List UInt8
  rdataStart : ℕ
  deriving DecidableEq

structure TsigRecord where
  name : Text
  fudge : ℕ
  deriving DecidableEq

structure UpdateRequest where
  zoneName : Text
  prerequisites : List UpdateRecord
  updates : List UpdateRecord
  tsig : Option TsigRecord
  deriving DecidableEq

/-- A read whose failure is `e`. -/
def orFail {α : Type} (e : ParseError) : Option α → Except ParseError α
  | some a => .ok a
  | none => .error e

def presentationName (name : Name) : Except ParseError Text := do
  let labels ← orFail .invalidName (name.labels.mapM fromUtf8)
  pure (if labels = [] then ['.'] else joinLabels labels ++ ['.'])

def parseRr (data : List UInt8) (pos : ℕ) : Except ParseError (UpdateRecord × ℕ) := do
  let (name, pos) ← orFail .invalidName (crates.parsedName data pos)
  let name ← presentationName name
  let (rrType, pos) ← orFail .invalidRr (crates.parseU16Be data pos)
  let (rrClass, pos) ← orFail .invalidRr (crates.parseU16Be data pos)
  let (ttl, pos) ← orFail .invalidRr (crates.parseU32Be data pos)
  let (rdlen, rdataStart) ← orFail .invalidRr (crates.parseU16Be data pos)
  let (_, pos) ← orFail .invalidRr (crates.advance rdlen data rdataStart)
  pure (⟨name, rrType, rrClass, ttl, (data.drop rdataStart).take rdlen, rdataStart⟩, pos)

/-- The records of a section. -/
def parseRrs (data : List UInt8) : ℕ → ℕ → Except ParseError (List UpdateRecord × ℕ)
  | 0, pos => .ok ([], pos)
  | count + 1, pos => do
      let (rr, pos) ← parseRr data pos
      let (rrs, pos) ← parseRrs data count pos
      pure (rr :: rrs, pos)

/-- `parse_tsig_rr`: the rdata is read from a parser that ends where it ends. -/
def parseTsigRr (data : List UInt8) (owner : Name) (pos : ℕ) : Except ParseError (TsigRecord × ℕ) := do
  let (rrClass, pos) ← orFail .invalidTsig (crates.parseU16Be data pos)
  let (ttl, pos) ← orFail .invalidTsig (crates.parseU32Be data pos)
  let (rdlen, pos) ← orFail .invalidTsig (crates.parseU16Be data pos)
  if rrClass ≠ 255 ∨ ttl ≠ 0 then .error .invalidTsig
  else do
    let (rdata, next) ← orFail .invalidTsig (crates.parseParser rdlen data pos)
    let (fudge, last) ← orFail .invalidTsig (crates.tsigParse rdata pos)
    if last ≠ next then .error .invalidTsig
    else do
      let name ← presentationName owner
      pure (⟨name, fudge⟩, next)

/-- The loop of `parse_additional_section`: a TSIG record must be the last. -/
def parseAdditionalSection (data : List UInt8) : ℕ → ℕ → Except ParseError (Option TsigRecord × ℕ)
  | 0, pos => .ok (none, pos)
  | count + 1, pos => do
      let (owner, pos) ← orFail .invalidName (crates.parsedName data pos)
      let (rrType, pos) ← orFail .invalidRr (crates.parseU16Be data pos)
      if rrType = 250 then
        if count ≠ 0 then .error .invalidTsig
        else do
          let (tsig, pos) ← parseTsigRr data owner pos
          pure (some tsig, pos)
      else do
        let (_, pos) ← orFail .invalidRr (crates.parseU16Be data pos)
        let (_, pos) ← orFail .invalidRr (crates.parseU32Be data pos)
        let (rdlen, pos) ← orFail .invalidRr (crates.parseU16Be data pos)
        let (_, pos) ← orFail .invalidRr (crates.advance rdlen data pos)
        parseAdditionalSection data count pos

def parseUpdateRequest (data : List UInt8) : Except ParseError UpdateRequest := do
  let header ← orFail .tooShort (crates.messageHeader data)
  if header.opcode ≠ 5 then .error .invalidOpcode
  else if header.qdcount ≠ 1 then .error .invalidHeader
  else do
    let (_, pos) ← orFail .tooShort (crates.advance 12 data 0)
    let (zone, pos) ← orFail .invalidName (crates.parsedName data pos)
    let (ztype, pos) ← orFail .invalidZoneSection (crates.parseU16Be data pos)
    let (zclass, pos) ← orFail .invalidZoneSection (crates.parseU16Be data pos)
    if ztype ≠ 6 ∨ zclass ≠ 1 then .error .invalidZoneSection
    else do
      let zoneName ← presentationName zone
      let (prerequisites, pos) ← parseRrs data header.ancount pos
      let (updates, pos) ← parseRrs data header.nscount pos
      let (tsig, pos) ← parseAdditionalSection data header.arcount pos
      if pos ≠ data.length then .error .invalidHeader
      else pure ⟨zoneName, prerequisites, updates, tsig⟩

/-! ### The decoder -/

def rrTypeToRecordType (rrType : ℕ) : Except DynamicUpdateError RecordType :=
  match rrType with
  | 1 => .ok .a
  | 2 => .ok .ns
  | 5 => .ok .cname
  | 12 => .ok .ptr
  | 15 => .ok .mx
  | 16 => .ok .txt
  | 28 => .ok .aaaa
  | 33 => .ok .srv
  | _ => .error (.refused (lit "unsupported rr type: " ++ crates.rtypeDisplay rrType))

/-- `parse_rdata`: the rdata must be consumed exactly. -/
def parseRdata {α : Type} (message : List UInt8) (update : UpdateRecord) (what : Text) (parse : Read α) :
    Except DynamicUpdateError α :=
  match (crates.advance update.rdataStart message 0).bind fun (_, pos) => parse message pos with
  | some (value, pos) =>
      if pos ≠ update.rdataStart + update.rdata.length then .error (.refused (lit "invalid " ++ what ++ lit " rdata"))
      else .ok value
  | none => .error (.refused (lit "invalid " ++ what ++ lit " rdata"))

omit crates in
def rdataName (what : Text) (name : Name) : Except DynamicUpdateError Text :=
  (presentationName name).mapError fun e =>
    .refused (lit "invalid " ++ what ++ lit " rdata: " ++ e.message)

/-- `rr_to_record_value`: the type, the value, and the priority of the row. -/
def rrToRecordValue (update : UpdateRecord) (message : List UInt8) :
    Except DynamicUpdateError (RecordType × Text × Option ℤ) := do
  match ← rrTypeToRecordType update.rrType with
  | .a => do
      let addr ← parseRdata message update (lit "A") crates.aParse
      pure (.a, ipv4Text addr, none)
  | .aaaa => do
      let addr ← parseRdata message update (lit "AAAA") crates.aaaaParse
      pure (.aaaa, ipv6Text addr, none)
  | .txt =>
      match crates.txtFromOctets update.rdata with
      | .error e => .error (.refused (lit "invalid TXT rdata: " ++ e))
      | .ok charstrs =>
          if charstrs.any fun charstr => (fromUtf8 charstr).isNone then
            .error (.refused (lit "invalid TXT rdata"))
          else pure (.txt, txtIntoEncoded update.rdata, none)
  | .mx => do
      let (preference, exchange) ← parseRdata message update (lit "MX") crates.mxParse
      let host ← rdataName (lit "MX") exchange
      pure (.mx, host, some (preference : ℤ))
  | .srv => do
      let (priority, weight, port, target) ← parseRdata message update (lit "SRV") crates.srvParse
      let target ← rdataName (lit "SRV") target
      pure (.srv, natText weight ++ [' '] ++ natText port ++ [' '] ++ target, some (priority : ℤ))
  | .soa => .error (.refused (lit "unsupported rr type: " ++ crates.rtypeDisplay update.rrType))
  | recordType => do
      let name ← parseRdata message update recordType.asStr crates.parsedName
      let value ← rdataName recordType.asStr name
      pure (recordType, value, none)

def decodePrerequisite (message : List UInt8) (rr : UpdateRecord) : Except DynamicUpdateError Prerequisite :=
  if rr.ttl ≠ 0 then .error (.refused (lit "prerequisite TTL must be 0"))
  else if rr.rrClass = 255 then
    if rr.rdata ≠ [] then .error (.refused (lit "ANY-class prerequisite must have empty rdata"))
    else if rr.rrType = 255 then .ok (.nameInUse rr.name)
    else (rrTypeToRecordType rr.rrType).map (.rrsetInUse rr.name)
  else if rr.rrClass = 254 then
    if rr.rdata ≠ [] then .error (.refused (lit "NONE-class prerequisite must have empty rdata"))
    else if rr.rrType = 255 then .ok (.nameNotInUse rr.name)
    else (rrTypeToRecordType rr.rrType).map (.rrsetNotInUse rr.name)
  else if rr.rrClass = 1 then
    if rr.rrType = 255 ∨ rr.rdata = [] then
      .error (.refused (lit "IN-class prerequisite must specify rrtype and rdata"))
    else (rrToRecordValue rr message).map fun (recordType, value, priority) =>
      .rrInUse rr.name recordType value priority
  else .error (.refused (lit "unsupported prerequisite class: " ++ crates.classDisplay rr.rrClass))

omit crates in
def validateDeleteShape (update : UpdateRecord) (isRrsetDelete : Bool) : Except DynamicUpdateError Unit :=
  if update.ttl ≠ 0 then .error (.refused (lit "delete update TTL must be 0"))
  else if isRrsetDelete then
    if update.rdata ≠ [] then .error (.refused (lit "ANY-class delete must have empty rdata")) else .ok ()
  else if update.rrType = 255 then .error (.refused (lit "NONE-class delete must specify rrtype"))
  else if update.rdata = [] then .error (.refused (lit "NONE-class delete must specify rdata"))
  else .ok ()

def decodeUpdate (message : List UInt8) (rr : UpdateRecord) : Except DynamicUpdateError UpdateOp :=
  if rr.rrClass = 1 then do
    let (recordType, value, priority) ← rrToRecordValue rr message
    if 2147483647 < rr.ttl then
      .error (.refused (lit "TTL value " ++ natText rr.ttl ++ lit " exceeds maximum allowed value (" ++
        intText i32Max ++ lit ")"))
    else pure (.add rr.name recordType value (rr.ttl : ℤ) priority)
  else if rr.rrClass = 255 then do
    validateDeleteShape rr true
    if rr.rrType = 255 then pure (.deleteRrset rr.name none)
    else (rrTypeToRecordType rr.rrType).map fun recordType => .deleteRrset rr.name (some recordType)
  else if rr.rrClass = 254 then do
    validateDeleteShape rr false
    let (recordType, value, priority) ← rrToRecordValue rr message
    pure (.deleteRr rr.name recordType value priority)
  else .error (.refused (lit "unsupported update class: " ++ crates.classDisplay rr.rrClass))

/-- The update `apply_update_inner` hands to the service, for the key the signature was verified
with. -/
def toDynamicUpdate (request : UpdateRequest) (message : List UInt8) (key : Option TsigKey) :
    Except DynamicUpdateError DynamicUpdate := do
  let zoneName := trimEndMatches '.' request.zoneName
  if zoneName = [] then .error (.notZone (lit "root zone is not supported"))
  else do
    let prerequisites ← request.prerequisites.mapM (decodePrerequisite message)
    let updates ← request.updates.mapM (decodeUpdate message)
    pure ⟨zoneName, key, prerequisites, updates⟩

/-! ### What a record of the message says -/

/-- The rdata of a record of the message, as the `domain` crate reads it. -/
def wireRdata (message : List UInt8) (rr : UpdateRecord) : Option Rdata :=
  match rr.rrType with
  | 1 => (parseRdata message rr (lit "A") crates.aParse).toOption.map .a
  | 2 => (parseRdata message rr (lit "NS") crates.parsedName).toOption.map .ns
  | 5 => (parseRdata message rr (lit "CNAME") crates.parsedName).toOption.map .cname
  | 12 => (parseRdata message rr (lit "PTR") crates.parsedName).toOption.map .ptr
  | 15 => (parseRdata message rr (lit "MX") crates.mxParse).toOption.map fun (preference, exchange) =>
      .mx preference exchange
  | 16 => (crates.txtFromOctets rr.rdata).toOption.map fun _ => .txt rr.rdata
  | 28 => (parseRdata message rr (lit "AAAA") crates.aaaaParse).toOption.map .aaaa
  | 33 => (parseRdata message rr (lit "SRV") crates.srvParse).toOption.map fun (priority, weight, port, target) =>
      .srv priority weight port target
  | _ => none

/-- How rdata is written as the value and priority of a row. -/
inductive Presents : Rdata → RecordType → Text → Option ℤ → Prop
  | a (addr : Ipv4Addr) : Presents (.a addr) .a (ipv4Text addr) none
  | aaaa (addr : Ipv6Addr) : Presents (.aaaa addr) .aaaa (ipv6Text addr) none
  | ns {name : Name} {value : Text} : presentationName name = .ok value → Presents (.ns name) .ns value none
  | cname {name : Name} {value : Text} : presentationName name = .ok value → Presents (.cname name) .cname value none
  | ptr {name : Name} {value : Text} : presentationName name = .ok value → Presents (.ptr name) .ptr value none
  | mx {preference : ℕ} {exchange : Name} {value : Text} : presentationName exchange = .ok value →
      Presents (.mx preference exchange) .mx value (some preference)
  | srv {priority weight port : ℕ} {target : Name} {value : Text} : presentationName target = .ok value →
      Presents (.srv priority weight port target) .srv
        (natText weight ++ [' '] ++ natText port ++ [' '] ++ value) (some priority)
  | txt {octets : List UInt8} {chunks : List (List UInt8)} : crates.txtFromOctets octets = .ok chunks →
      (∀ c ∈ chunks, (fromUtf8 c).isSome) → Presents (.txt octets) .txt (txtIntoEncoded octets) none

/-- The value the server takes from a record of the message is its rdata, written out. -/
theorem rrToRecordValue_presents {message : List UInt8} {rr : UpdateRecord} {t : RecordType} {value : Text}
    {priority : Option ℤ} (h : rrToRecordValue rr message = .ok (t, value, priority)) :
    ∃ d, wireRdata message rr = some d ∧ Presents d t value priority := by
  unfold rrToRecordValue at h
  obtain ⟨rt, hrt, h⟩ := Fallible.bind_eq_ok.1 h
  -- the types whose rdata is one name
  have hname : ∀ {rt : RecordType} {d : Name → Rdata}, (∀ {n v}, presentationName n = .ok v → Presents (d n) rt v none) →
      (do
        let name ← parseRdata message rr rt.asStr crates.parsedName
        let value ← rdataName rt.asStr name
        pure (rt, value, none) : Except DynamicUpdateError (RecordType × Text × Option ℤ)) = .ok (t, value, priority) →
      ∃ d', (parseRdata message rr rt.asStr crates.parsedName).toOption.map d = some d' ∧
        Presents d' t value priority := by
    intro rt d hd h
    obtain ⟨n, hn, h⟩ := Fallible.bind_eq_ok.1 h
    obtain ⟨v, hv, h⟩ := Fallible.bind_eq_ok.1 h
    cases h
    exact ⟨d n, by rw [hn]; rfl, hd (Fallible.mapError_eq_ok.1 hv)⟩
  unfold rrTypeToRecordType at hrt
  unfold wireRdata
  split at hrt
  · cases hrt
    obtain ⟨addr, haddr, h⟩ := Fallible.bind_eq_ok.1 h
    cases h
    exact ⟨_, by rw [haddr]; rfl, .a addr⟩
  · cases hrt
    exact hname .ns h
  · cases hrt
    exact hname .cname h
  · cases hrt
    exact hname .ptr h
  · cases hrt
    obtain ⟨⟨preference, exchange⟩, hparse, h⟩ := Fallible.bind_eq_ok.1 h
    obtain ⟨host, hhost, h⟩ := Fallible.bind_eq_ok.1 h
    cases h
    exact ⟨_, by rw [hparse]; rfl, .mx (Fallible.mapError_eq_ok.1 hhost)⟩
  · cases hrt
    simp only at h
    split at h
    · cases h
    · rename_i chunks hchunks
      split at h
      · cases h
      · rename_i hutf8
        cases h
        refine ⟨_, by rw [hchunks]; rfl, .txt hchunks fun c hc => ?_⟩
        by_contra hnone
        exact hutf8 (List.any_eq_true.2 ⟨c, hc, by simpa using hnone⟩)
  · cases hrt
    obtain ⟨addr, haddr, h⟩ := Fallible.bind_eq_ok.1 h
    cases h
    exact ⟨_, by rw [haddr]; rfl, .aaaa addr⟩
  · cases hrt
    obtain ⟨⟨prio, weight, port, target⟩, hparse, h⟩ := Fallible.bind_eq_ok.1 h
    obtain ⟨host, hhost, h⟩ := Fallible.bind_eq_ok.1 h
    cases h
    exact ⟨_, by rw [hparse]; rfl, .srv (Fallible.mapError_eq_ok.1 hhost)⟩
  · cases hrt

/-! ### What an addition was decoded from -/

variable {message : List UInt8} {name value : Text} {t : RecordType} {ttl : ℤ} {priority : Option ℤ}

theorem decodeUpdate_add {rr : UpdateRecord} (h : decodeUpdate message rr = .ok (.add name t value ttl priority)) :
    rr.rrClass = 1 ∧ name = rr.name ∧ rrToRecordValue rr message = .ok (t, value, priority) ∧ ttl = rr.ttl ∧
      rr.ttl ≤ 2147483647 := by
  unfold decodeUpdate at h
  split at h
  · rename_i hclass
    obtain ⟨⟨t', value', priority'⟩, hvalue, h⟩ := Fallible.bind_eq_ok.1 h
    simp only at h
    split at h
    · cases h
    · rename_i hle
      cases h
      exact ⟨hclass, rfl, hvalue, rfl, Nat.le_of_not_lt hle⟩
  split at h
  · obtain ⟨_, _, h⟩ := Fallible.bind_eq_ok.1 h
    split at h
    · cases h
    · obtain ⟨_, _, h⟩ := Fallible.map_eq_ok.1 h
      cases h
  split at h
  · obtain ⟨_, _, h⟩ := Fallible.bind_eq_ok.1 h
    obtain ⟨⟨t', value', priority'⟩, _, h⟩ := Fallible.bind_eq_ok.1 h
    cases h
  · cases h

theorem toDynamicUpdate_add {request : UpdateRequest} {key : Option TsigKey} {update : DynamicUpdate}
    (h : toDynamicUpdate request message key = .ok update)
    (hadd : .add name t value ttl priority ∈ update.updates) :
    ∃ rr ∈ request.updates, decodeUpdate message rr = .ok (.add name t value ttl priority) := by
  unfold toDynamicUpdate at h
  simp only at h
  split at h
  · cases h
  obtain ⟨prerequisites, _, h⟩ := Fallible.bind_eq_ok.1 h
  obtain ⟨updates, hupdates, h⟩ := Fallible.bind_eq_ok.1 h
  cases h
  exact Fallible.mem_of_mapM hupdates hadd

end Bindizr
