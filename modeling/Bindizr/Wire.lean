import Bindizr.Model

/-! # Encoding transfers

`bindizr-dns/src/wire`: answers are added to a message one at a time, from the rows of a zone
and its snapshots (`DnsMessageBuilder`).  An answer is kept as the record it was composed from;
its octets are `composeRecord`'s. -/

namespace Bindizr

open Rfc1035 (Name Rdata ResourceRecord bigEndian)

/-- `XfrError`, as far as the modelled functions use it. -/
inductive XfrError where
  | protocolError (message : Text)
  | databaseError (message : Text)
  | zoneNotFound (zoneName : Text)
  | ioError (message : Text)
  deriving DecidableEq

def dnsTcpMaxSize : ℕ := 65535

/-- The cast of an `i32` to `u32`. -/
def asU32 (i : ℤ) : ℕ := (i % 4294967296).toNat

def serialToU32 (serial : ℤ) : Except XfrError ℕ :=
  if serial < 0 then .error (.protocolError (lit "Invalid DNS serial: " ++ intText serial))
  else .ok serial.toNat

section Builder

variable [crates : Crates]

def parseName (name : Text) : Except XfrError Name :=
  if trimEndMatches '.' name = [] then .ok Name.root
  else (crates.nameFromStr name).mapError fun e =>
    .protocolError (lit "Invalid domain name '" ++ name ++ lit "': " ++ e)

structure DnsMessageBuilder where
  queryId : ℕ
  qname : Name
  qtype : ℕ
  answers : List ResourceRecord
  answersLen : ℕ
  deriving DecidableEq

namespace DnsMessageBuilder

omit crates in
def new (queryId : ℕ) (qname : Name) (qtype : ℕ) : DnsMessageBuilder := ⟨queryId, qname, qtype, [], 0⟩

def pushAnswer (b : DnsMessageBuilder) (answer : ResourceRecord) : DnsMessageBuilder :=
  { b with answers := b.answers ++ [answer], answersLen := b.answersLen + (crates.composeRecord answer).length }

def popLastAnswer (b : DnsMessageBuilder) : Option (ResourceRecord × DnsMessageBuilder) :=
  b.answers.getLast?.map fun answer =>
    (answer, { b with
      answers := b.answers.dropLast, answersLen := b.answersLen - (crates.composeRecord answer).length })

omit crates in
def clearAnswers (b : DnsMessageBuilder) : DnsMessageBuilder := { b with answers := [], answersLen := 0 }

omit crates in
def messageLen (b : DnsMessageBuilder) : ℕ := 12 + b.qname.len + 4 + b.answersLen

/-- `build_message_into`. -/
def buildMessage (b : DnsMessageBuilder) : List UInt8 :=
  bigEndian 2 b.queryId ++ [0x84, 0x00] ++ bigEndian 2 1 ++ bigEndian 2 b.answers.length ++
    bigEndian 2 0 ++ bigEndian 2 0 ++ b.qname.octets ++ bigEndian 2 b.qtype ++ bigEndian 2 1 ++
    b.answers.flatMap crates.composeRecord

def buildTcpFrame (b : DnsMessageBuilder) : Except XfrError (List UInt8) :=
  if dnsTcpMaxSize < b.messageLen then
    .error (.protocolError (lit "Message too large: " ++ natText b.messageLen ++ lit " bytes"))
  else .ok (bigEndian 2 b.messageLen ++ b.buildMessage)

def addAnswer (b : DnsMessageBuilder) (owner : Name) (ttl : ℕ) (data : Rdata) : DnsMessageBuilder :=
  b.pushAnswer ⟨owner, ttl, data⟩

/-! ### SOA -/

def addSoa (b : DnsMessageBuilder) (zone : Zone) (serial : ℕ) : Except XfrError DnsMessageBuilder := do
  let adminEmail ← zone.soaMailbox.mapError .protocolError
  let mname ← parseName zone.primaryNs.text
  let rname ← parseName adminEmail
  let owner ← parseName zone.name.text
  pure (b.addAnswer owner (asU32 zone.ttl) (.soa mname rname serial (asU32 zone.refresh) (asU32 zone.retry)
    (asU32 zone.expire) (asU32 zone.minimumTtl)))

/-- `add_soa_from_snapshot`: the owner is the name of the question. -/
def addSoaFromSnapshot (b : DnsMessageBuilder) (soa : ZoneSnapshot) : Except XfrError DnsMessageBuilder := do
  let serial ← serialToU32 soa.serial
  let mname ← parseName soa.primaryNs.text
  let rname ← parseName soa.adminEmail
  pure (b.addAnswer b.qname (asU32 soa.ttl) (.soa mname rname serial (asU32 soa.refresh) (asU32 soa.retry)
    (asU32 soa.expire) (asU32 soa.minimumTtl)))

/-! ### Records -/

def addARecord (b : DnsMessageBuilder) (name : Text) (ttl : ℕ) (addr : Ipv4Addr) :
    Except XfrError DnsMessageBuilder := do
  let owner ← parseName name
  pure (b.addAnswer owner ttl (.a addr))

def addAaaaRecord (b : DnsMessageBuilder) (name : Text) (ttl : ℕ) (addr : Ipv6Addr) :
    Except XfrError DnsMessageBuilder := do
  let owner ← parseName name
  pure (b.addAnswer owner ttl (.aaaa addr))

/-- A record whose rdata ends in a name: the owner is parsed, then the target. -/
def addTargetRecord (data : Name → Rdata) (b : DnsMessageBuilder) (name : Text) (ttl : ℕ) (target : Text) :
    Except XfrError DnsMessageBuilder := do
  let owner ← parseName name
  let target ← parseName target
  pure (b.addAnswer owner ttl (data target))

def addCnameRecord : DnsMessageBuilder → Text → ℕ → Text → Except XfrError DnsMessageBuilder :=
  addTargetRecord .cname

def addNsRecord : DnsMessageBuilder → Text → ℕ → Text → Except XfrError DnsMessageBuilder :=
  addTargetRecord .ns

def addPtrRecord : DnsMessageBuilder → Text → ℕ → Text → Except XfrError DnsMessageBuilder :=
  addTargetRecord .ptr

def addMxRecord (b : DnsMessageBuilder) (name : Text) (ttl : ℕ) (priority : ℕ) (target : Text) :
    Except XfrError DnsMessageBuilder := addTargetRecord (.mx priority) b name ttl target

/-- `add_srv_record`, which parses the target before the owner. -/
def addSrvRecord (b : DnsMessageBuilder) (name : Text) (ttl : ℕ) (priority weight port : ℕ) (target : Text) :
    Except XfrError DnsMessageBuilder := do
  let target ← parseName target
  let owner ← parseName name
  pure (b.addAnswer owner ttl (.srv priority weight port target))

def addTxtRecord (b : DnsMessageBuilder) (name : Text) (ttl : ℕ) (text : Text) :
    Except XfrError DnsMessageBuilder := do
  let owner ← parseName name
  match txtFromEncoded text with
  | some rdata => do
      let data ← (crates.unknownRecordData rdata).mapError fun e =>
        .protocolError (lit "Invalid TXT rdata: " ++ e)
      pure (b.addAnswer owner ttl (.txt data))
  | none => do
      let data ← (crates.txtBuildFromSlice (asBytes text)).mapError fun e =>
        .protocolError (lit "Invalid TXT value: " ++ e)
      pure (b.addAnswer owner ttl (.txt data))

/-- `add_record_parts`; other types are skipped. -/
def addRecordParts (b : DnsMessageBuilder) (zoneName : ZoneName) (r : RecordData) :
    Except XfrError DnsMessageBuilder :=
  let ttl := asU32 r.ttl
  let ownerName := r.name.toFqdn zoneName
  match r.recordType with
  | .a =>
      match parseIpv4 r.value with
      | some addr => b.addARecord ownerName ttl addr
      | none => .error (.protocolError (lit "Invalid A record: " ++ r.value))
  | .aaaa =>
      match parseIpv6 r.value with
      | some addr => b.addAaaaRecord ownerName ttl addr
      | none => .error (.protocolError (lit "Invalid AAAA record: " ++ r.value))
  | .cname => b.addCnameRecord ownerName ttl r.value
  | .mx => do
      let mx ← (MxRecordValue.parse r.value r.priority).mapError .protocolError
      b.addMxRecord ownerName ttl mx.priority mx.target
  | .ns => b.addNsRecord ownerName ttl r.value
  | .ptr => b.addPtrRecord ownerName ttl r.value
  | .srv => do
      let srv ← (SrvRecordValue.parse r.value r.priority).mapError .protocolError
      b.addSrvRecord ownerName ttl srv.priority srv.weight srv.port srv.target
  | .txt => b.addTxtRecord ownerName ttl r.value
  | .soa => .ok b

def addRecord (b : DnsMessageBuilder) (record : Record) (zoneName : ZoneName) :
    Except XfrError DnsMessageBuilder := b.addRecordParts zoneName record.toRecordData

end DnsMessageBuilder

end Builder

end Bindizr
