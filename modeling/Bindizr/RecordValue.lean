import Bindizr.Name
import Bindizr.Ip
import Bindizr.Crates

/-! # Record types and record values

`bindizr-core/src/dns/record` and the `RecordType` methods of `model/record`: per type, how a
value is parsed and checked (`RecordType.validateValue`), the one spelling rows store
(`RecordType.encodedValue`), and the canonical form two values are compared by
(`RecordType.canonicalValue`).  `MX` and `SRV` take their priority from the row's priority
column, 10 when it is missing; the value of a `TXT` row is its rdata in base64 behind a
prefix. -/

namespace Bindizr

/-- Supported DNS resource record types. -/
inductive RecordType where
  | a
  | aaaa
  | cname
  | mx
  | txt
  | ns
  | soa
  | srv
  | ptr
  deriving DecidableEq, Repr

def RecordType.asStr : RecordType → Text
  | .a => lit "A"
  | .aaaa => lit "AAAA"
  | .cname => lit "CNAME"
  | .mx => lit "MX"
  | .txt => lit "TXT"
  | .ns => lit "NS"
  | .soa => lit "SOA"
  | .srv => lit "SRV"
  | .ptr => lit "PTR"

/-- `char::to_uppercase`, on the characters that can turn a text into a mnemonic: ASCII
letters, and the long s, whose upper case is `S`. -/
def upperChar (c : Char) : Char :=
  if isAsciiLowercase c then Char.ofNat (c.toNat - 32) else if c = 'ſ' then 'S' else c

def RecordType.fromStr (s : Text) : Except Text RecordType :=
  match [RecordType.a, .aaaa, .cname, .mx, .txt, .ns, .soa, .srv, .ptr].find?
      (fun t => t.asStr == s.map upperChar) with
  | some t => .ok t
  | none => .error (lit "Invalid record type: " ++ s)

/-! ### Shared field checks -/

def parseOptionalU16RecordField (field : Text) (value : Option ℤ) : Except Text ℕ :=
  if 0 ≤ value.getD 10 ∧ value.getD 10 ≤ 65535 then .ok (value.getD 10).toNat
  else .error (field ++ lit " must be between 0 and 65535")

def parseU16RecordField (field value : Text) : Except Text ℕ :=
  match parseUnsigned 65535 value with
  | some n => .ok n
  | none => .error (field ++ lit " must be an unsigned 16-bit integer: " ++ value)

def parseU32RecordField (field value : Text) : Except Text ℕ :=
  match parseUnsigned 4294967295 value with
  | some n => .ok n
  | none => .error (field ++ lit " must be an unsigned 32-bit integer: " ++ value)

def validateDomainRecordValue (field value : Text) : Except Text Unit :=
  if trim value = [] then .error (field ++ lit " must not be empty")
  else if hasWhitespaceOrControl value then
    .error (field ++ lit " must not contain whitespace or control characters")
  else if stripOneSuffix '.' (trim value) = [] then
    .error (field ++ lit " must not be the root zone")
  else if maxDomainLen < byteLen (stripOneSuffix '.' (trim value)) then
    .error (field ++ lit " must be 253 bytes or fewer")
  else (split '.' (stripOneSuffix '.' (trim value))).forM fun label =>
    validateDomainLabel label field true

/-- The texts `validateDomainRecordValue` accepts: LDH labels, underscores allowed, with at most
one final dot and nothing around them. -/
theorem validateDomainRecordValue_eq_ok {field value : Text} :
    validateDomainRecordValue field value = .ok () ↔
      hasWhitespaceOrControl value = false ∧ stripOneSuffix '.' value ≠ [] ∧
        byteLen (stripOneSuffix '.' value) ≤ maxDomainLen ∧
        ∀ l ∈ split '.' (stripOneSuffix '.' value), classifyDomainLabel l true = .ok () := by
  by_cases hws : hasWhitespaceOrControl value = true
  · simp only [validateDomainRecordValue, hws, if_true, Bool.true_eq_false, false_and, iff_false]
    split <;> simp
  rw [Bool.not_eq_true] at hws
  unfold validateDomainRecordValue
  rw [trim_eq_self_of_hasWhitespaceOrControl hws, hws]
  split
  · rename_i h
    simp [h, stripOneSuffix]
  simp only [Bool.false_eq_true, if_false, true_and]
  split
  · rename_i h
    simp [h]
  rename_i hne
  split
  · rename_i h
    refine iff_of_false (by simp) fun h' => ?_
    omega
  · rename_i h
    rw [Fallible.forM_eq_ok]
    simp only [validateDomainLabel, Fallible.mapError_eq_ok]
    exact ⟨fun h' => ⟨hne, by omega, h'⟩, fun h' => h'.2.2⟩

theorem stripOneSuffix_cases (value : Text) :
    value = stripOneSuffix '.' value ∨ value = stripOneSuffix '.' value ++ ['.'] := by
  unfold stripOneSuffix
  split
  · rename_i h
    obtain ⟨p, rfl⟩ := List.getLast?_eq_some_iff.1 h
    exact .inr (by simp)
  · exact .inl rfl

theorem trimEndMatches_of_validDomain {field value : Text}
    (h : validateDomainRecordValue field value = .ok ()) :
    trimEndMatches '.' value = stripOneSuffix '.' value ∧ trim value = value := by
  obtain ⟨h1, -, -, h4⟩ := validateDomainRecordValue_eq_ok.1 h
  have hself := trimEndMatches_eq_self_of_labels h4
  constructor
  · rcases stripOneSuffix_cases value with e | e
    · rw [← e] at hself
      rw [hself, ← e]
    · conv_lhs => rw [e]
      rw [trimEndMatches, List.rdropWhile_concat_pos _ _ _ (by simp)]
      exact hself
  · exact trim_eq_self_of_hasWhitespaceOrControl h1

/-! ### Addresses and names -/

/-- `ARecordValue::parse`. -/
def parseA (value : Text) : Except Text Ipv4Addr :=
  match parseIpv4 value with
  | some addr => .ok addr
  | none => .error (lit "A record value must be a valid IPv4 address: " ++ value)

/-- `AaaaRecordValue::parse`. -/
def parseAaaa (value : Text) : Except Text Ipv6Addr :=
  match parseIpv6 value with
  | some addr => .ok addr
  | none => .error (lit "AAAA record value must be a valid IPv6 address: " ++ value)

/-- The parsers of the types whose value is one host name give its target back. -/
def parseHost (field value : Text) : Except Text Text := do
  validateDomainRecordValue field value
  pure value

/-- `CnameRecordValue::parse`. -/
def parseCname (value : Text) : Except Text Text := parseHost (lit "CNAME record value") value

/-- `NsRecordValue::parse`. -/
def parseNs (value : Text) : Except Text Text := parseHost (lit "NS record value") value

/-- `PtrRecordValue::parse`. -/
def parsePtr (value : Text) : Except Text Text := parseHost (lit "PTR record value") value

/-! ### MX -/

structure MxRecordValue where
  priority : ℕ
  target : Text
  deriving DecidableEq

namespace MxRecordValue

def parse (value : Text) (fallbackPriority : Option ℤ) : Except Text MxRecordValue :=
  match splitWhitespace value with
  | [target] => do
      let priority ← parseOptionalU16RecordField (lit "MX priority") fallbackPriority
      pure ⟨priority, target⟩
  | _ => .error (lit "MX record value must be the target host '<target>', with the priority in the priority field: " ++ value)

def validate (mx : MxRecordValue) : Except Text Unit :=
  if trim mx.target = ['.'] then
    if mx.priority ≠ 0 then .error (lit "Null MX record target '.' must use priority 0")
    else .ok ()
  else validateDomainRecordValue (lit "MX record target") mx.target

def isNull (mx : MxRecordValue) : Bool := mx.priority == 0 && trim mx.target == ['.']

def canonical (mx : MxRecordValue) : Text := natText mx.priority ++ [' '] ++ toFqdnLowercase mx.target

def encoded (mx : MxRecordValue) : Text := toFqdnLowercase mx.target

def isNullValue (value : Text) (priority : Option ℤ) : Bool :=
  match parse value priority with
  | .ok parsed => parsed.isNull
  | .error _ => false

end MxRecordValue

/-! ### SRV -/

structure SrvRecordValue where
  priority : ℕ
  weight : ℕ
  port : ℕ
  target : Text
  deriving DecidableEq

namespace SrvRecordValue

def parse (value : Text) (fallbackPriority : Option ℤ) : Except Text SrvRecordValue :=
  match splitWhitespace value with
  | [weight, port, target] => do
      let priority ← parseOptionalU16RecordField (lit "SRV priority") fallbackPriority
      let weight ← parseU16RecordField (lit "SRV weight") weight
      let port ← parseU16RecordField (lit "SRV port") port
      pure ⟨priority, weight, port, target⟩
  | _ => .error (lit "SRV record value must be '<weight> <port> <target>', with the priority in the priority field: " ++ value)

def validate (srv : SrvRecordValue) : Except Text Unit :=
  if trim srv.target = ['.'] then .ok ()
  else validateDomainRecordValue (lit "SRV record target") srv.target

def canonical (srv : SrvRecordValue) : Text :=
  natText srv.priority ++ [' '] ++ natText srv.weight ++ [' '] ++ natText srv.port ++ [' '] ++
    toFqdnLowercase srv.target

def encoded (srv : SrvRecordValue) : Text :=
  natText srv.weight ++ [' '] ++ natText srv.port ++ [' '] ++ toFqdnLowercase srv.target

end SrvRecordValue

/-! ### SOA -/

structure SoaRecordValue where
  mname : Text
  rname : Text
  serial : ℕ
  refresh : ℕ
  retry : ℕ
  expire : ℕ
  minimum : ℕ
  deriving DecidableEq

namespace SoaRecordValue

def parse (value : Text) : Except Text SoaRecordValue :=
  match splitWhitespace value with
  | [mname, rname, serial, refresh, retry, expire, minimum] => do
      let serial ← parseU32RecordField (lit "SOA serial") serial
      let refresh ← parseU32RecordField (lit "SOA refresh") refresh
      let retry ← parseU32RecordField (lit "SOA retry") retry
      let expire ← parseU32RecordField (lit "SOA expire") expire
      let minimum ← parseU32RecordField (lit "SOA minimum") minimum
      pure ⟨mname, rname, serial, refresh, retry, expire, minimum⟩
  | _ => .error (lit "SOA record value must be '<mname> <rname> <serial> <refresh> <retry> <expire> <minimum>': " ++ value)

def validate (soa : SoaRecordValue) : Except Text Unit := do
  validateDomainRecordValue (lit "SOA mname") soa.mname
  validateDomainRecordValue (lit "SOA rname") soa.rname

def canonical (soa : SoaRecordValue) : Text :=
  join [' '] [toFqdnLowercase soa.mname, toFqdnLowercase soa.rname, natText soa.serial,
    natText soa.refresh, natText soa.retry, natText soa.expire, natText soa.minimum]

end SoaRecordValue

/-! ### TXT -/

def rawTxtRdataPrefix : Text := lit "bindizr:txt-rdata:v1:"

/-- A character-string on the wire: its length octet, then its octets. -/
def characterString (t : Text) : List UInt8 := UInt8.ofNat (byteLen t) :: asBytes t

/-- The loop of `from_string`, with the chunk read so far. -/
def txtFromStringFrom : Text → Text → List UInt8
  | [], chunk => characterString chunk
  | ch :: cs, chunk =>
      if 255 < byteLen chunk + ch.utf8Size then characterString chunk ++ txtFromStringFrom cs [ch]
      else txtFromStringFrom cs (chunk ++ [ch])

/-- `TxtRecordValue::from_string`: the rdata of one string, split at 255 octets on character
boundaries. -/
def txtFromString (value : Text) : List UInt8 := txtFromStringFrom value []

def txtSegmentsRdata : List Text → Except Text (List UInt8)
  | [] => .ok []
  | segment :: segments =>
      if 255 < byteLen segment then .error (lit "TXT character-string must be 255 bytes or less")
      else do
        let rdata ← txtSegmentsRdata segments
        pure (characterString segment ++ rdata)

/-- `TxtRecordValue::from_segments`. -/
def txtFromSegments (segments : List Text) : Except Text (List UInt8) := do
  let rdata ← txtSegmentsRdata segments
  if segments = [] then .error (lit "TXT record must contain at least one character-string")
  else pure rdata

/-- Where `parse_quoted_segments` stands between two octets of its input. -/
inductive QuoteState where
  | start
  | inside (segment : List UInt8)
  | escape (segment : List UInt8)
  | digits (segment : List UInt8) (code : ℕ) (left : ℕ)
  | closed
  | spaces
  deriving DecidableEq

/-- What `parse_quoted_segments` does with a closed segment. -/
def closeSegment (segment : List UInt8) : Except Text Text :=
  if 255 < segment.length then .error (lit "TXT character-string must be 255 bytes or less")
  else
    match fromUtf8 segment with
    | some t => .ok t
    | none => .error (lit "TXT value must be valid UTF-8")

def isDigitOctet (b : UInt8) : Bool := 48 ≤ b.toNat && b.toNat ≤ 57

/-- The loops of `parse_quoted_segments`, one octet at a time. -/
def parseQuotedFrom : QuoteState → List UInt8 → Except Text (List Text)
  | .start, [] => .ok []
  | .inside _, [] => .error (lit "TXT value contains an unterminated quote")
  | .escape _, [] => .error (lit "TXT value contains a dangling escape")
  | .digits _ _ _, [] => .error (lit "TXT value contains an invalid \\DDD escape")
  | .closed, [] => .ok []
  | .spaces, [] => .ok []
  | .start, b :: bs =>
      if b = 34 then parseQuotedFrom (.inside []) bs
      else .error (lit "TXT character-strings must be separated by spaces")
  | .inside segment, b :: bs =>
      if b = 34 then do
        let t ← closeSegment segment
        let ts ← parseQuotedFrom .closed bs
        pure (t :: ts)
      else if b = 92 then parseQuotedFrom (.escape segment) bs
      else parseQuotedFrom (.inside (segment ++ [b])) bs
  | .escape segment, b :: bs =>
      if isDigitOctet b then parseQuotedFrom (.digits segment (b.toNat - 48) 2) bs
      else parseQuotedFrom (.inside (segment ++ [b])) bs
  | .digits segment code left, b :: bs =>
      if !isDigitOctet b then .error (lit "TXT value contains an invalid \\DDD escape")
      else if left = 2 then parseQuotedFrom (.digits segment (10 * code + (b.toNat - 48)) 1) bs
      else if 255 < 10 * code + (b.toNat - 48) then
        .error (lit "TXT value contains an invalid \\DDD escape")
      else parseQuotedFrom (.inside (segment ++ [UInt8.ofNat (10 * code + (b.toNat - 48))])) bs
  | .closed, b :: bs =>
      if b = 32 then parseQuotedFrom .spaces bs
      else .error (lit "TXT character-strings must be separated by spaces")
  | .spaces, b :: bs =>
      if b = 32 then parseQuotedFrom .spaces bs
      else if b = 34 then parseQuotedFrom (.inside []) bs
      else .error (lit "TXT character-strings must be separated by spaces")

def parseQuotedSegments (trimmed : Text) : Except Text (List Text) := do
  let segments ← parseQuotedFrom .start (asBytes trimmed)
  if segments = [] then .error (lit "TXT record must contain at least one character-string")
  else pure segments

/-- `TxtRecordValue::parse`: the rdata of a presentation-form value. -/
def txtParse (value : Text) : Except Text (List UInt8) :=
  if (trim value).head? ≠ some '"' then
    if value = [] then .error (lit "TXT value must not be empty")
    else .ok (txtFromString value)
  else do
    let segments ← parseQuotedSegments (trim value)
    txtFromSegments segments

/-- `is_valid_txt_rdata`: length-prefixed character-strings to the end.  `skip` is what is left
of the string being read. -/
def isValidTxtRdataFrom : ℕ → List UInt8 → Bool
  | skip, [] => skip == 0
  | 0, b :: bs => isValidTxtRdataFrom b.toNat bs
  | skip + 1, _ :: bs => isValidTxtRdataFrom skip bs

def isValidTxtRdata (rdata : List UInt8) : Bool := isValidTxtRdataFrom 0 rdata

inductive TxtContent where
  | single (value : Text)
  | segments (segments : List Text)
  deriving DecidableEq

/-- The character-strings of valid TXT rdata; `need` octets of the string `read` are to come. -/
def txtChunksFrom : ℕ → List UInt8 → List UInt8 → List (List UInt8)
  | _, _, [] => []
  | 0, _, b :: bs => if b = 0 then [] :: txtChunksFrom 0 [] bs else txtChunksFrom b.toNat [] bs
  | need + 1, read, b :: bs =>
      if need = 0 then (read ++ [b]) :: txtChunksFrom 0 [] bs else txtChunksFrom need (read ++ [b]) bs

/-- The character-strings of TXT rdata. -/
def txtChunks (rdata : List UInt8) : List (List UInt8) := txtChunksFrom 0 [] rdata

/-- `TxtRecordValue::to_content`. -/
def txtToContent (rdata : List UInt8) : Option TxtContent :=
  if rdata = [] then none
  else
    match (txtChunks rdata).mapM fromUtf8 with
    | none => none
    | some [single] => some (.single single)
    | some segments => some (.segments segments)

/-- One octet inside a quoted character-string. -/
def quotedOctet (b : UInt8) : Text :=
  if b = 34 then ['\\', '"']
  else if b = 92 then ['\\', '\\']
  else if 32 ≤ b.toNat ∧ b.toNat ≤ 126 then [Char.ofNat b.toNat]
  else ['\\', Char.ofNat (48 + b.toNat / 100), Char.ofNat (48 + b.toNat / 10 % 10), Char.ofNat (48 + b.toNat % 10)]

/-- `TxtRecordValue::to_quoted_charstr`. -/
def txtToQuotedCharstr (octets : List UInt8) : Text := ['"'] ++ octets.flatMap quotedOctet ++ ['"']

/-- `TxtRecordValue::to_presentation`. -/
def txtToPresentation (rdata : List UInt8) : Text :=
  match txtChunks rdata with
  | [] => ['"', '"']
  | chunks => join [' '] (chunks.map txtToQuotedCharstr)

def displayLastNameField (value : Text) (fieldCount : ℕ) : Text :=
  let fields := splitWhitespace value
  if fields.length ≠ fieldCount then value
  else join [' '] (fields.dropLast ++ (fields.getLast?.toList.map toFqdnLowercase))

section Encoding

variable [crates : Crates]

/-- `TxtRecordValue::into_encoded`. -/
def txtIntoEncoded (rdata : List UInt8) : Text := rawTxtRdataPrefix ++ crates.base64Encode rdata

/-- `TxtRecordValue::from_encoded`. -/
def txtFromEncoded (stored : Text) : Option (List UInt8) := do
  let encoded ← stripPrefix rawTxtRdataPrefix stored
  let rdata ← crates.base64Decode encoded
  if isValidTxtRdata rdata then some rdata else none

/-! ### Dispatch by type -/

namespace RecordType

/-- Whether the type encodes a priority. -/
def takesPriority : RecordType → Bool
  | .mx | .srv => true
  | _ => false

def validateValue (t : RecordType) (value : Text) (priority : Option ℤ) : Except Text Unit :=
  if priority.isSome && !t.takesPriority then
    .error (t.asStr ++ lit " records do not take a priority")
  else
    match t with
    | .a => (parseA value).map fun _ => ()
    | .aaaa => (parseAaaa value).map fun _ => ()
    | .cname => (parseCname value).map fun _ => ()
    | .mx => do
        let parsed ← MxRecordValue.parse value priority
        parsed.validate
    | .txt => .ok ()
    | .ns => (parseNs value).map fun _ => ()
    | .soa => do
        let parsed ← SoaRecordValue.parse value
        parsed.validate
    | .srv => do
        let parsed ← SrvRecordValue.parse value priority
        parsed.validate
    | .ptr => (parsePtr value).map fun _ => ()

def canonicalValue (t : RecordType) (value : Text) (fallbackPriority : Option ℤ) : Text :=
  match t with
  | .a =>
      match parseA value with
      | .ok addr => ipv4Text addr
      | .error _ => value
  | .aaaa =>
      match parseAaaa value with
      | .ok addr => ipv6Text addr
      | .error _ => value
  -- the host types fold case even when the value does not parse
  | .cname | .ns | .ptr => toFqdnLowercase value
  | .mx =>
      match MxRecordValue.parse value fallbackPriority with
      | .ok parsed => parsed.canonical
      | .error _ => value
  | .txt => value
  | .soa =>
      match SoaRecordValue.parse value with
      | .ok parsed => parsed.canonical
      | .error _ => value
  | .srv =>
      match SrvRecordValue.parse value fallbackPriority with
      | .ok parsed => parsed.canonical
      | .error _ => value

def valuesEqual (t : RecordType) (left : Text) (leftPriority : Option ℤ) (right : Text)
    (rightPriority : Option ℤ) : Bool :=
  t.canonicalValue left leftPriority == t.canonicalValue right rightPriority

def encodedValue (t : RecordType) (value : Text) (priority : Option ℤ) : Except Text Text :=
  match t with
  | .txt => (txtParse value).map txtIntoEncoded
  | .a => (parseA (trim value)).map ipv4Text
  | .aaaa => (parseAaaa (trim value)).map ipv6Text
  | .cname => (parseCname (trim value)).map toFqdnLowercase
  | .ns => (parseNs (trim value)).map toFqdnLowercase
  | .ptr => (parsePtr (trim value)).map toFqdnLowercase
  | .mx => do
      let parsed ← MxRecordValue.parse (trim value) priority
      parsed.validate
      pure parsed.encoded
  | .srv => do
      let parsed ← SrvRecordValue.parse (trim value) priority
      parsed.validate
      pure parsed.encoded
  | .soa => do
      let parsed ← SoaRecordValue.parse (trim value)
      parsed.validate
      pure parsed.canonical

def isNameLike : RecordType → Bool
  | .cname | .ns | .ptr | .mx | .srv => true
  | _ => false

def displayValue (t : RecordType) (value : Text) : Text :=
  match t with
  | .txt =>
      match (txtFromEncoded value).bind txtToContent with
      | some (.single value) => value
      | some (.segments segments) => segments.flatten
      | none => value
  | .mx => displayLastNameField value 1
  | .srv => displayLastNameField value 3
  | _ => if t.isNameLike then toFqdnLowercase value else value

def presentationRdata (t : RecordType) (value : Text) (priority : Option ℤ) : Text :=
  match t with
  | .txt =>
      match txtFromEncoded value with
      | some rdata => txtToPresentation rdata
      | none => txtToQuotedCharstr (asBytes value)
  | .mx | .srv => intText (priority.getD 10) ++ [' '] ++ t.displayValue value
  | _ => t.displayValue value

end RecordType

end Encoding

/-! ### The SOA mailbox -/

def escapeLocalPart (localPart : Text) : Text :=
  localPart.flatMap fun c => if c = '.' ∨ c = '\\' then ['\\', c] else [c]

def soaMailboxFromEmail (email : Text) : Except Text Text :=
  match split '@' email with
  | [localPart, domain] => .ok (escapeLocalPart localPart ++ ['.'] ++ trimEndMatches '.' domain ++ ['.'])
  | _ => .error (lit "email must contain exactly one @")

/-- The loop of `SoaMailbox::to_email`, with the local part read so far. -/
def soaMailboxToEmailFrom : Text → Text → Except Text Text
  | [], _ => .error (lit "SOA mailbox is not a valid encoded email")
  | c :: cs, localPart =>
      if c = '\\' then
        match cs with
        | [] => .error (lit "SOA mailbox contains a dangling escape")
        | escaped :: cs => soaMailboxToEmailFrom cs (localPart ++ [escaped])
      else if c = '.' then
        if localPart = [] ∨ cs = [] then .error (lit "SOA mailbox is not a valid encoded email")
        else .ok (localPart ++ ['@'] ++ cs)
      else soaMailboxToEmailFrom cs (localPart ++ [c])

def soaMailboxToEmail (mailbox : Text) : Except Text Text :=
  soaMailboxToEmailFrom (trimEndMatches '.' mailbox) []

/-- The loop of the mailbox's `decode_labels`, with the label read so far. -/
def mailboxLabelsFrom : Text → Text → Except Text (List Text)
  | [], label => .ok [label]
  | c :: cs, label =>
      if c = '\\' then
        match cs with
        | [] => .error (lit "contains a dangling escape")
        | escaped :: cs => mailboxLabelsFrom cs (label ++ [escaped])
      else if c = '.' then do
        let labels ← mailboxLabelsFrom cs []
        pure (label :: labels)
      else mailboxLabelsFrom cs (label ++ [c])

def soaMailboxClassifyWireLabels (mailbox : Text) : Except Text Unit :=
  let bare := trimEndMatches '.' mailbox
  if maxDomainLen < byteLen bare then .error (lit "must be 253 bytes or fewer")
  else do
    let labels ← mailboxLabelsFrom bare []
    labels.forM fun label =>
      if label = [] then .error (lit "must not contain empty labels")
      else if maxDnsLabelLen < byteLen label then .error (lit "labels must be 63 bytes or fewer")
      else .ok ()

theorem soaMailboxToEmailFrom_escapeLocalPart (localPart acc rest : Text) :
    soaMailboxToEmailFrom (escapeLocalPart localPart ++ '.' :: rest) acc =
      if acc ++ localPart = [] ∨ rest = [] then .error (lit "SOA mailbox is not a valid encoded email")
      else .ok (acc ++ localPart ++ ['@'] ++ rest) := by
  induction localPart generalizing acc with
  | nil =>
      rw [soaMailboxToEmailFrom.eq_def]
      simp [escapeLocalPart]
  | cons c localPart ih =>
      by_cases h : c = '.' ∨ c = '\\'
      · have e : escapeLocalPart (c :: localPart) = '\\' :: c :: escapeLocalPart localPart := by
          simp [escapeLocalPart, h]
        rw [e, List.cons_append, List.cons_append, soaMailboxToEmailFrom.eq_def]
        simpa using ih (acc ++ [c])
      · have e : escapeLocalPart (c :: localPart) = c :: escapeLocalPart localPart := by
          simp [escapeLocalPart, h]
        rw [not_or] at h
        rw [e, List.cons_append, soaMailboxToEmailFrom.eq_def]
        simpa [h.1, h.2] using ih (acc ++ [c])

/-- **The SOA mailbox of an address** reads back as the address, for a local part and a domain
without `@`, neither empty, and a domain without a final dot. -/
theorem soaMailbox_roundtrip {localPart domain : Text} (hl : localPart ≠ []) (hl' : '@' ∉ localPart)
    (hd : domain ≠ []) (hd' : '@' ∉ domain) (hdot : trimEndMatches '.' domain = domain) :
    ∃ mailbox, soaMailboxFromEmail (localPart ++ ['@'] ++ domain) = .ok mailbox ∧
      soaMailboxToEmail mailbox = .ok (localPart ++ ['@'] ++ domain) := by
  refine ⟨escapeLocalPart localPart ++ ['.'] ++ domain ++ ['.'], ?_, ?_⟩
  · have e : split '@' (localPart ++ ['@'] ++ domain) = [localPart, domain] := by
      rw [List.append_assoc, List.singleton_append, split_append_sep hl' hd']
    rw [soaMailboxFromEmail, e]
    simp only [hdot]
  · rw [soaMailboxToEmail, trimEndMatches, List.rdropWhile_concat_pos _ _ _ (by simp)]
    have := trimEndMatches_append (p := escapeLocalPart localPart ++ ['.']) hd hdot
    rw [trimEndMatches] at this
    rw [this, List.append_assoc, List.singleton_append, soaMailboxToEmailFrom_escapeLocalPart,
      if_neg (by simp [hl, hd])]
    simp

end Bindizr
