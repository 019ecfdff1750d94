import Bindizr.Fallible
import Bindizr.Rfc1035

/-! # Packages the service calls

Functions of packages outside the repository are parameters of the model.  The class
`Crates` lists them under their packages' names, with no more than their types; what a
result needs to know of them is a hypothesis of that result (`Crates.Base64RoundTrip`,
`Crates.Rfc1035Wire`, `Crates.TxtOctets`, `Crates.TxtNonempty`, `Crates.TxtBuilds`). -/

namespace Bindizr

/-- The rdata of a zone file record, as far as the import looks into it. -/
inductive ZonefileRdata where
  /-- The character-strings of a TXT record. -/
  | txt (segments : List (List UInt8))
  /-- Any other rdata, by its `Display`. -/
  | other (text : Text)
  deriving DecidableEq

/-- A record the zone file reader of `domain` returns; classes and types are their 16-bit
codes, with their `Display` beside them. -/
structure ZonefileRecord where
  owner : Text
  rclass : ℕ
  rclassText : Text
  rtype : ℕ
  rtypeText : Text
  ttl : ℕ
  rdata : ZonefileRdata
  deriving DecidableEq

/-- What one call of the zone file reader gives. -/
inductive ZonefileEntry where
  | record (record : ZonefileRecord)
  | includeDirective
  | failure (message : Text)
  deriving DecidableEq

/-- The header fields of a message the UPDATE parser looks at. -/
structure MessageHeader where
  opcode : ℕ
  qdcount : ℕ
  ancount : ℕ
  nscount : ℕ
  arcount : ℕ
  deriving DecidableEq

/-- The functions of other packages the modelled code calls. -/
class Crates where
  /-- `base64::engine::general_purpose::STANDARD.encode`. -/
  base64Encode : List UInt8 → Text
  /-- `base64::engine::general_purpose::STANDARD.decode`. -/
  base64Decode : Text → Option (List UInt8)
  /-- The entries `domain::zonefile::inplace::Zonefile` reads from a text, in order, up to the
  end or the first failure. -/
  readZonefile : Text → List ZonefileEntry
  /-- `domain::base::Name::from_str`, with the `Display` of its error. -/
  nameFromStr : Text → Except Text Rfc1035.Name
  /-- The rdata `domain::base::UnknownRecordData::from_octets` holds for type TXT. -/
  unknownRecordData : List UInt8 → Except Text (List UInt8)
  /-- The rdata `domain::rdata::Txt::build_from_slice` builds. -/
  txtBuildFromSlice : List UInt8 → Except Text (List UInt8)
  /-- What `domain::base::record::ComposeRecord::compose_record` appends to an empty vector. -/
  composeRecord : Rfc1035.ResourceRecord → List UInt8
  /-- The header of the message `domain::base::Message::from_octets` holds. -/
  messageHeader : List UInt8 → Option MessageHeader
  /-- `octseq::Parser::parse_u16_be`. -/
  parseU16Be : Rfc1035.Read ℕ
  /-- `octseq::Parser::parse_u32_be`. -/
  parseU32Be : Rfc1035.Read ℕ
  /-- `octseq::Parser::advance`. -/
  advance : ℕ → Rfc1035.Read Unit
  /-- `octseq::Parser::parse_parser`: the octets the parser for so many octets ends with. -/
  parseParser : ℕ → Rfc1035.Read (List UInt8)
  /-- `domain::base::name::ParsedName::parse`. -/
  parsedName : Rfc1035.Read Rfc1035.Name
  /-- `domain::rdata::A::parse`. -/
  aParse : Rfc1035.Read Ipv4Addr
  /-- `domain::rdata::Aaaa::parse`. -/
  aaaaParse : Rfc1035.Read Ipv6Addr
  /-- `domain::rdata::Mx::parse`: preference and exchange. -/
  mxParse : Rfc1035.Read (ℕ × Rfc1035.Name)
  /-- `domain::rdata::Srv::parse`: priority, weight, port and target. -/
  srvParse : Rfc1035.Read (ℕ × ℕ × ℕ × Rfc1035.Name)
  /-- `domain::rdata::tsig::Tsig::parse`, of which the fudge is used. -/
  tsigParse : Rfc1035.Read ℕ
  /-- The character-strings of the rdata `domain::rdata::Txt::from_octets` holds, with the
  `Display` of its error. -/
  txtFromOctets : List UInt8 → Except Text (List (List UInt8))
  /-- `Display` of `domain::base::iana::Rtype`. -/
  rtypeDisplay : ℕ → Text
  /-- `Display` of `domain::base::iana::Class`. -/
  classDisplay : ℕ → Text
  /-- The digest `sha2::Sha256` finalizes to after these octets. -/
  sha256 : List UInt8 → List UInt8

/-- The base64 engine decodes what it encoded. -/
def Crates.Base64RoundTrip (crates : Crates) : Prop :=
  ∀ b, crates.base64Decode (crates.base64Encode b) = some b

/-- The `domain` crate reads and composes names and records as RFC 1035 says: a text without
bit-string labels is a name exactly when its presentation form denotes labels that keep the limits
of a name, rdata takes at most 65535 octets, and records are composed uncompressed. -/
structure Crates.Rfc1035Wire (crates : Crates) : Prop where
  names : ∀ t n, trimEndMatches '.' t ≠ [] → Rfc1035.hasBitString true t = false →
    (crates.nameFromStr t = .ok n ↔ Rfc1035.presentationLabels t = some n.labels)
  rdata : ∀ octets r, crates.unknownRecordData octets = .ok r ↔ r = octets ∧ octets.length ≤ 65535
  compose : ∀ r, crates.composeRecord r = r.octets

/-- `Txt::from_octets` takes the octets apart into character-strings. -/
def Crates.TxtOctets (crates : Crates) : Prop :=
  ∀ octets chunks, crates.txtFromOctets octets = .ok chunks →
    (∀ c ∈ chunks, c.length ≤ 255) ∧ octets = chunks.flatMap fun c => UInt8.ofNat c.length :: c

/-- `Txt::from_octets` refuses rdata without a character-string. -/
def Crates.TxtNonempty (crates : Crates) : Prop := ∀ chunks, crates.txtFromOctets [] ≠ .ok chunks

/-- `Txt::build_from_slice` makes one character-string of what fits one. -/
def Crates.TxtBuilds (crates : Crates) : Prop :=
  ∀ octets, octets.length ≤ 255 → crates.txtBuildFromSlice octets = .ok (UInt8.ofNat octets.length :: octets)

/-! ### An instance to evaluate with

The standard base64 of RFC 4648, the names, records and messages of RFC 1035, a zone file
reader for histories that import nothing, and a digest that keeps what it is given. -/

namespace Base64

def alphabet : Text := lit "ABCDEFGHIJKLMNOPQRSTUVWXYZabcdefghijklmnopqrstuvwxyz0123456789+/"

/-- The character of a value below 64. -/
def char (n : ℕ) : Char := alphabet.getD n '='

/-- The value of a character of the alphabet. -/
def value (c : Char) : Option ℕ :=
  if alphabet.contains c then some (alphabet.idxOf c) else none

/-- Encoding, three octets at a time. -/
def encode : List UInt8 → Text
  | [] => []
  | [a] => [char (a.toNat / 4), char (a.toNat % 4 * 16), '=', '=']
  | [a, b] => [char (a.toNat / 4), char (a.toNat % 4 * 16 + b.toNat / 16), char (b.toNat % 16 * 4), '=']
  | a :: b :: c :: rest =>
      [char (a.toNat / 4), char (a.toNat % 4 * 16 + b.toNat / 16), char (b.toNat % 16 * 4 + c.toNat / 64),
        char (c.toNat % 64)] ++ encode rest

/-- One padded group, the last one: its unused bits must be zero. -/
def decodeLast (a b c d : Char) : Option (List UInt8) := do
  let x ← value a
  let y ← value b
  if c = '=' then
    if d = '=' ∧ y % 16 = 0 then some [UInt8.ofNat (x * 4 + y / 16)] else none
  else do
    let z ← value c
    if d = '=' then
      if z % 4 = 0 then some [UInt8.ofNat (x * 4 + y / 16), UInt8.ofNat (y % 16 * 16 + z / 4)] else none
    else do
      let w ← value d
      some [UInt8.ofNat (x * 4 + y / 16), UInt8.ofNat (y % 16 * 16 + z / 4), UInt8.ofNat (z % 4 * 64 + w)]

/-- Decoding, four characters at a time; only the last group may be padded. -/
def decode : Text → Option (List UInt8)
  | [] => some []
  | [a, b, c, d] => decodeLast a b c d
  | a :: b :: c :: d :: rest => do
      let x ← value a
      let y ← value b
      let z ← value c
      let w ← value d
      let bytes ← decode rest
      some ([UInt8.ofNat (x * 4 + y / 16), UInt8.ofNat (y % 16 * 16 + z / 4), UInt8.ofNat (z % 4 * 64 + w)] ++
        bytes)
  | _ => none

theorem value_char {n : ℕ} (h : n < 64) : value (char n) = some n ∧ char n ≠ '=' := by
  have : ∀ n : Fin 64, value (char n) = some n.val ∧ char n ≠ '=' := by decide +kernel
  exact this ⟨n, h⟩

theorem encode_ne_nil {a : UInt8} {l : List UInt8} : ∃ c d e f t, encode (a :: l) = c :: d :: e :: f :: t := by
  match l with
  | [] => exact ⟨_, _, _, _, _, rfl⟩
  | [b] => exact ⟨_, _, _, _, _, rfl⟩
  | b :: c :: rest => exact ⟨_, _, _, _, _, rfl⟩

theorem ofNat_eq {n : ℕ} {a : UInt8} (h : n = a.toNat) : UInt8.ofNat n = a := by
  rw [h, UInt8.ofNat_toNat]

theorem decode_encode (l : List UInt8) : decode (encode l) = some l := by
  match l with
  | [] => rfl
  | [a] =>
      have ha := a.toNat_lt
      have h1 := value_char (n := a.toNat / 4) (by omega)
      have h2 := value_char (n := a.toNat % 4 * 16) (by omega)
      simp only [encode, decode, decodeLast, h1.1, h2.1, Option.bind_eq_bind, Option.bind_some, if_true,
        true_and]
      rw [if_pos (by omega), ofNat_eq (a := a) (by omega)]
  | [a, b] =>
      have ha := a.toNat_lt
      have hb := b.toNat_lt
      have h1 := value_char (n := a.toNat / 4) (by omega)
      have h2 := value_char (n := a.toNat % 4 * 16 + b.toNat / 16) (by omega)
      have h3 := value_char (n := b.toNat % 16 * 4) (by omega)
      simp only [encode, decode, decodeLast, h1.1, h2.1, h3.1, h3.2, Option.bind_eq_bind, Option.bind_some,
        if_true, if_false]
      rw [if_pos (by omega), ofNat_eq (a := a) (by omega), ofNat_eq (a := b) (by omega)]
  | a :: b :: c :: rest =>
      have ha := a.toNat_lt
      have hb := b.toNat_lt
      have hc := c.toNat_lt
      have h1 := value_char (n := a.toNat / 4) (by omega)
      have h2 := value_char (n := a.toNat % 4 * 16 + b.toNat / 16) (by omega)
      have h3 := value_char (n := b.toNat % 16 * 4 + c.toNat / 64) (by omega)
      have h4 := value_char (n := c.toNat % 64) (by omega)
      have e1 := ofNat_eq (n := a.toNat / 4 * 4 + (a.toNat % 4 * 16 + b.toNat / 16) / 16) (a := a) (by omega)
      have e2 := ofNat_eq (n := (a.toNat % 4 * 16 + b.toNat / 16) % 16 * 16 +
        (b.toNat % 16 * 4 + c.toNat / 64) / 4) (a := b) (by omega)
      have e3 := ofNat_eq (n := (b.toNat % 16 * 4 + c.toNat / 64) % 4 * 64 + c.toNat % 64) (a := c) (by omega)
      cases rest with
      | nil =>
          simp only [encode, decode, decodeLast, List.append_nil, h1.1, h2.1, h3.1, h3.2, h4.1, h4.2,
            Option.bind_eq_bind, Option.bind_some, if_false, e1, e2, e3]
      | cons d rest =>
          have ih := decode_encode (d :: rest)
          obtain ⟨p, q, r, s, t, e⟩ := encode_ne_nil (a := d) (l := rest)
          rw [e] at ih
          rw [encode, e]
          simp only [List.cons_append, List.nil_append, decode, h1.1, h2.1, h3.1, h4.1, ih,
            Option.bind_eq_bind, Option.bind_some, e1, e2, e3]

end Base64

/-- The name a text denotes. -/
def sampleName (t : Text) : Except Text Rfc1035.Name :=
  match Rfc1035.presentationLabels t with
  | some labels => if h : Rfc1035.IsName labels then .ok ⟨labels, h⟩ else .error (lit "long name")
  | none => .error (lit "invalid name")

theorem sampleName_eq_ok {t : Text} {n : Rfc1035.Name} :
    sampleName t = .ok n ↔ Rfc1035.presentationLabels t = some n.labels := by
  unfold sampleName
  cases Rfc1035.presentationLabels t with
  | none => simp
  | some labels =>
      by_cases h : Rfc1035.IsName labels
      · simp [h, Rfc1035.Name.ext_iff]
      · simp only [h, dif_neg, not_false_eq_true, reduceCtorEq, Option.some.injEq, false_iff]
        rintro rfl
        exact h n.isName

/-- Rdata of at most 65535 octets. -/
def sampleRdata (octets : List UInt8) : Except Text (List UInt8) :=
  if octets.length ≤ 65535 then .ok octets else .error (lit "long record data")

theorem sampleRdata_eq_ok {octets r : List UInt8} :
    sampleRdata octets = .ok r ↔ r = octets ∧ octets.length ≤ 65535 := by
  unfold sampleRdata
  split
  · rename_i h
    simp [h, eq_comm]
  · rename_i h
    simp [h]

/-- The header of a message of at least twelve octets. -/
def sampleHeader (data : List UInt8) : Option MessageHeader := do
  let (flags, _) ← Rfc1035.readNat 1 data 2
  let (qdcount, _) ← Rfc1035.readNat 2 data 4
  let (ancount, _) ← Rfc1035.readNat 2 data 6
  let (nscount, _) ← Rfc1035.readNat 2 data 8
  let (arcount, _) ← Rfc1035.readNat 2 data 10
  pure ⟨flags / 8 % 16, qdcount, ancount, nscount, arcount⟩

/-- Character-strings to the end of the rdata; `fuel` bounds their number. -/
def sampleCharstrs : ℕ → List UInt8 → Except Text (List (List UInt8))
  | 0, _ => .error (lit "short input")
  | _, [] => .ok []
  | fuel + 1, n :: octets =>
      if octets.length < n.toNat then .error (lit "short input")
      else do
        let rest ← sampleCharstrs fuel (octets.drop n.toNat)
        pure (octets.take n.toNat :: rest)

/-- The mnemonics of the types and classes in use. -/
def sampleDisplay (names : List (ℕ × String)) (otherwise : String) (code : ℕ) : Text :=
  match names.lookup code with
  | some name => lit name
  | none => lit otherwise ++ natText code

abbrev sampleCrates : Crates where
  base64Encode := Base64.encode
  base64Decode := Base64.decode
  readZonefile := fun _ => []
  nameFromStr := sampleName
  unknownRecordData := sampleRdata
  txtBuildFromSlice := fun octets => .ok (UInt8.ofNat octets.length :: octets)
  composeRecord := Rfc1035.ResourceRecord.octets
  messageHeader := sampleHeader
  parseU16Be := Rfc1035.readNat 2
  parseU32Be := Rfc1035.readNat 4
  advance := fun n data pos => (Rfc1035.readOctets n data pos).map fun (_, next) => ((), next)
  parseParser := fun n data pos => (Rfc1035.readOctets n data pos).map fun (_, next) => (data.take next, next)
  parsedName := Rfc1035.readName
  aParse := fun data pos => (Rfc1035.readOctets 4 data pos).map fun (octets, next) =>
    (fun i => octets.getD i 0, next)
  aaaaParse := fun data pos => (Rfc1035.readOctets 16 data pos).map fun (octets, next) =>
    (fun i => UInt16.ofNat (256 * (octets.getD (2 * i) 0).toNat + (octets.getD (2 * i + 1) 0).toNat), next)
  mxParse := fun data pos => do
    let (preference, next) ← Rfc1035.readNat 2 data pos
    let (exchange, next) ← Rfc1035.readName data next
    pure ((preference, exchange), next)
  srvParse := fun data pos => do
    let (priority, next) ← Rfc1035.readNat 2 data pos
    let (weight, next) ← Rfc1035.readNat 2 data next
    let (port, next) ← Rfc1035.readNat 2 data next
    let (target, next) ← Rfc1035.readName data next
    pure ((priority, weight, port, target), next)
  tsigParse := fun data pos => do
    let (_, next) ← Rfc1035.readName data pos
    let (_, next) ← Rfc1035.readNat 6 data next
    let (fudge, next) ← Rfc1035.readNat 2 data next
    let (macSize, next) ← Rfc1035.readNat 2 data next
    let (_, next) ← Rfc1035.readOctets macSize data next
    let (_, next) ← Rfc1035.readNat 4 data next
    let (otherLen, next) ← Rfc1035.readNat 2 data next
    let (_, next) ← Rfc1035.readOctets otherLen data next
    pure (fudge, next)
  txtFromOctets := fun octets =>
    if octets = [] then .error (lit "empty TXT record") else sampleCharstrs (octets.length + 1) octets
  rtypeDisplay := sampleDisplay [(1, "A"), (2, "NS"), (5, "CNAME"), (6, "SOA"), (12, "PTR"), (15, "MX"),
    (16, "TXT"), (28, "AAAA"), (33, "SRV"), (255, "ANY")] "TYPE"
  classDisplay := sampleDisplay [(1, "IN"), (3, "CH"), (4, "HS"), (254, "NONE"), (255, "ANY")] "CLASS"
  sha256 := id

theorem sampleCharstrs_eq_ok {fuel : ℕ} {octets : List UInt8} {chunks : List (List UInt8)}
    (h : sampleCharstrs fuel octets = .ok chunks) :
    (∀ c ∈ chunks, c.length ≤ 255) ∧ octets = chunks.flatMap fun c => UInt8.ofNat c.length :: c := by
  induction fuel generalizing octets chunks with
  | zero => simp [sampleCharstrs] at h
  | succ fuel ih =>
      cases octets with
      | nil =>
          cases h
          simp
      | cons n octets =>
          rw [sampleCharstrs] at h
          split at h
          · cases h
          · rename_i hlen
            obtain ⟨rest, hrest, h⟩ := Fallible.bind_eq_ok.1 h
            cases h
            obtain ⟨h1, h2⟩ := ih hrest
            have htake : (octets.take n.toNat).length = n.toNat := by
              rw [List.length_take]
              omega
            have hn : n.toNat < 256 := n.toNat_lt
            refine ⟨List.forall_mem_cons.2 ⟨by omega, h1⟩, ?_⟩
            rw [List.flatMap_cons, ← h2, htake, UInt8.ofNat_toNat]
            simp

theorem sampleCrates_txt : sampleCrates.TxtOctets := fun _ _ h => by
  change (if _ then _ else _) = _ at h
  split at h
  · cases h
  · exact sampleCharstrs_eq_ok h

theorem sampleCrates_txtNonempty : sampleCrates.TxtNonempty := fun _ h => by cases h

theorem sampleCrates_txtBuilds : sampleCrates.TxtBuilds := fun _ _ => rfl

theorem sampleCrates_base64 : sampleCrates.Base64RoundTrip := Base64.decode_encode

theorem sampleCrates_wire : sampleCrates.Rfc1035Wire :=
  ⟨fun _ _ _ _ => sampleName_eq_ok, fun _ _ => sampleRdata_eq_ok, fun _ => rfl⟩

end Bindizr
