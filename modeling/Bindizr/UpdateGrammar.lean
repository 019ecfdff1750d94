import Bindizr.Messages
import Bindizr.TxtIndexing
import Bindizr.WireRecords

/-! # The grammar of UPDATE messages

What `parse_update_request` accepts, as a relation between the octets of a message and its
contents (`IsUpdate`): a header, the zone, and three sections of records of which only the last
of the additional ones may be TSIG.  It says where things stand, not how they are read.  Each
function of the parser reads what stands at its position (`parseRr_eq_ok`, `parseRrs_eq_ok`,
`parseAdditionalSection_eq_ok`), so the parser accepts exactly the messages of the grammar and
returns their records in order.  With the slice of `parse_rr` as an index into the message, past
the end of which is a panic, it computes the same (`parseUpdateRequestIndexed_eq`). -/

namespace Bindizr

open Rfc1035 (Name At NameAt Rr RrAt SectionAt TsigAt bigEndian)

/-! ### What the functions of the parser packages read -/

/-- The header at the start of a message. -/
structure HeaderAt (data : List UInt8) (header : MessageHeader) : Prop where
  opcode : ∃ flags : UInt8, At data 2 [flags] ∧ header.opcode = flags.toNat / 8 % 16
  counts : At data 4 (bigEndian 2 header.qdcount ++ (bigEndian 2 header.ancount ++
    (bigEndian 2 header.nscount ++ bigEndian 2 header.arcount)))
  qdcount : header.qdcount < 65536
  ancount : header.ancount < 65536
  nscount : header.nscount < 65536
  arcount : header.arcount < 65536

/-- The functions of `domain` and `octseq` that go over a message read what stands at a position, as RFC 1035,
section 4.1, and RFC 8945, section 4.2, lay it out. -/
structure Crates.MessageParse (crates : Crates) : Prop where
  header {data : List UInt8} {h : MessageHeader} : crates.messageHeader data = some h ↔ HeaderAt data h
  u16 {data : List UInt8} {pos value next : ℕ} :
    crates.parseU16Be data pos = some (value, next) ↔ At data pos (bigEndian 2 value) ∧ value < 65536 ∧ next = pos + 2
  u32 {data : List UInt8} {pos value next : ℕ} :
    crates.parseU32Be data pos = some (value, next) ↔ At data pos (bigEndian 4 value) ∧ value < 4294967296 ∧ next = pos + 4
  advance {n : ℕ} {data : List UInt8} {pos next : ℕ} :
    crates.advance n data pos = some ((), next) ↔ pos + n ≤ data.length ∧ next = pos + n
  parser {n : ℕ} {data rdata : List UInt8} {pos next : ℕ} :
    crates.parseParser n data pos = some (rdata, next) ↔ pos + n ≤ data.length ∧ next = pos + n ∧ rdata = data.take next
  name {data : List UInt8} {pos next : ℕ} {n : Name} :
    crates.parsedName data pos = some (n, next) ↔ NameAt data pos n.labels next
  tsig {data : List UInt8} {pos fudge next : ℕ} :
    crates.tsigParse data pos = some (fudge, next) ↔ TsigAt data pos fudge next

/-! ### The grammar -/

/-- Every label of a name is UTF-8. -/
def IsUtf8 (n : Name) : Prop := ∃ labels : List Text, n.labels = wireLabels labels

structure UpdateMessage where
  zone : Name
  prerequisites : List Rr
  updates : List Rr
  additional : List Rr

def UpdateMessage.header (m : UpdateMessage) : MessageHeader :=
  ⟨5, 1, m.prerequisites.length, m.updates.length, m.additional.length⟩

/-- A TSIG record: its class is ANY, its TTL is zero, and its rdata is that of TSIG, to the end. -/
structure IsTsig (data : List UInt8) (rr : Rr) : Prop where
  rrClass : rr.rrClass = 255
  ttl : rr.ttl = 0
  rdata : ∃ fudge, TsigAt (data.take rr.rdataEnd) rr.rdataStart fudge rr.rdataEnd
  owner : IsUtf8 rr.owner

/-- Only the last record is TSIG. -/
structure TsigLast (data : List UInt8) (rrs : List Rr) : Prop where
  last : ∀ rr ∈ rrs.dropLast, rr.rrType ≠ 250
  tsig : ∀ rr ∈ rrs, rr.rrType = 250 → IsTsig data rr

/-- The octets are an UPDATE message: the header; the zone, of type SOA and class IN; the sections, to the end. -/
structure IsUpdate (data : List UInt8) (m : UpdateMessage) : Prop where
  header : HeaderAt data m.header
  sections : ∃ p p₁ p₂, NameAt data 12 m.zone.labels p ∧ At data p (bigEndian 2 6 ++ bigEndian 2 1) ∧
    SectionAt data (p + 4) m.prerequisites p₁ ∧ SectionAt data p₁ m.updates p₂ ∧
    SectionAt data p₂ m.additional data.length
  tsigLast : TsigLast data m.additional
  zone : IsUtf8 m.zone
  owners : ∀ rr ∈ m.prerequisites ++ m.updates, IsUtf8 rr.owner

/-! ### What the parser returns -/

/-- The text of a name: its labels, escaped, with a final dot. -/
def NameText (n : Name) (text : Text) : Prop :=
  ∃ labels, n.labels = wireLabels labels ∧ text = if labels = [] then ['.'] else joinLabels labels ++ ['.']

theorem presentationName_iff {n : Name} {text : Text} : presentationName n = .ok text ↔ NameText n text :=
  presentationName_eq_ok

theorem IsUtf8.exists_text {n : Name} (h : IsUtf8 n) : ∃ text, NameText n text := by
  obtain ⟨labels, hlabels⟩ := h
  exact ⟨_, labels, hlabels, rfl⟩

theorem NameText.isUtf8 {n : Name} {text : Text} (h : NameText n text) : IsUtf8 n := by
  obtain ⟨labels, hlabels, -⟩ := h
  exact ⟨labels, hlabels⟩

/-- What `parse_rr` returns for a record. -/
structure RrText (rr : Rr) (record : UpdateRecord) : Prop where
  name : NameText rr.owner record.name
  rrType : record.rrType = rr.rrType
  rrClass : record.rrClass = rr.rrClass
  ttl : record.ttl = rr.ttl
  rdata : record.rdata = rr.rdata
  rdataStart : record.rdataStart = rr.rdataStart

/-- The record of `parse_rr` with its owner written as `name`. -/
def UpdateRecord.ofRr (rr : Rr) (name : Text) : UpdateRecord :=
  ⟨name, rr.rrType, rr.rrClass, rr.ttl, rr.rdata, rr.rdataStart⟩

/-- The TSIG record among the additional ones. -/
def TsigText (data : List UInt8) (rrs : List Rr) (tsig : Option TsigRecord) : Prop :=
  ∀ t, tsig = some t ↔ ∃ rr ∈ rrs, rr.rrType = 250 ∧ NameText rr.owner t.name ∧
    TsigAt (data.take rr.rdataEnd) rr.rdataStart t.fudge rr.rdataEnd

/-- What `parse_update_request` returns for a message. -/
structure ParsedAs (data : List UInt8) (m : UpdateMessage) (request : UpdateRequest) : Prop where
  zoneName : NameText m.zone request.zoneName
  prerequisites : List.Forall₂ RrText m.prerequisites request.prerequisites
  updates : List.Forall₂ RrText m.updates request.updates
  tsig : TsigText data m.additional request.tsig

/-! ### Records -/

theorem orFail_bind_eq_ok {α β : Type} {e : ParseError} {x : Option α} {f : α → Except ParseError β} {b : β} :
    (orFail e x >>= f) = .ok b ↔ ∃ a, x = some a ∧ f a = .ok b := by
  cases x <;> simp [orFail, bind, Except.bind]

section Parser

variable [crates : Crates] (H : crates.MessageParse)

include H

/-- A record that stands at a position is read, with its owner written out. -/
theorem parseRr_of_rrAt {data : List UInt8} {pos next : ℕ} {rr : Rr} (h : RrAt data pos rr next) :
    parseRr data pos = (presentationName rr.owner).map fun name => (.ofRr rr name, next) := by
  obtain ⟨p, hn, hstart, hat⟩ := h.owner
  obtain ⟨hattype, hatclass, hatttl, hatlen, hatrdata⟩ := Rr.at_tail.1 hat
  have hnext : p + 10 + rr.rdata.length = next := by rw [h.next, Rr.rdataEnd, hstart]
  unfold parseRr
  simp only [H.name.2 hn, orFail, Fallible.ok_bind]
  cases presentationName rr.owner with
  | error e => rfl
  | ok name =>
      have htype : crates.parseU16Be data p = some (rr.rrType, p + 2) := H.u16.2 ⟨hattype, h.rrType, rfl⟩
      have hclass : crates.parseU16Be data (p + 2) = some (rr.rrClass, p + 4) := H.u16.2 ⟨hatclass, h.rrClass, rfl⟩
      have httl : crates.parseU32Be data (p + 4) = some (rr.ttl, p + 8) := H.u32.2 ⟨hatttl, h.ttl, rfl⟩
      have hlen : crates.parseU16Be data (p + 8) = some (rr.rdata.length, p + 10) := H.u16.2 ⟨hatlen, h.length, rfl⟩
      have hadv : crates.advance rr.rdata.length data (p + 10) = some ((), next) := H.advance.2 ⟨hatrdata.le, hnext.symm⟩
      simp only [Fallible.ok_bind, htype, hclass, httl, hlen, hadv, (Rfc1035.at_iff_take.1 hatrdata).2]
      simp only [UpdateRecord.ofRr, hstart]
      rfl

theorem parseRr_eq_ok {data : List UInt8} {pos next : ℕ} {record : UpdateRecord} :
    parseRr data pos = .ok (record, next) ↔ ∃ rr, RrAt data pos rr next ∧ RrText rr record := by
  constructor
  · intro h
    obtain ⟨⟨n, p⟩, hn, h⟩ := orFail_bind_eq_ok.1 h
    obtain ⟨text, htext, h⟩ := Fallible.bind_eq_ok.1 h
    obtain ⟨⟨rrType, p₁⟩, htype, h⟩ := orFail_bind_eq_ok.1 h
    obtain ⟨⟨rrClass, p₂⟩, hclass, h⟩ := orFail_bind_eq_ok.1 h
    obtain ⟨⟨ttl, p₃⟩, httl, h⟩ := orFail_bind_eq_ok.1 h
    obtain ⟨⟨rdlen, p₄⟩, hlen, h⟩ := orFail_bind_eq_ok.1 h
    obtain ⟨⟨_, p₅⟩, hadv, h⟩ := orFail_bind_eq_ok.1 h
    cases h
    obtain ⟨hattype, hlttype, rfl⟩ := H.u16.1 htype
    obtain ⟨hatclass, hltclass, rfl⟩ := H.u16.1 hclass
    obtain ⟨hatttl, hltttl, rfl⟩ := H.u32.1 httl
    obtain ⟨hatlen, hltlen, rfl⟩ := H.u16.1 hlen
    obtain ⟨hle, rfl⟩ := H.advance.1 hadv
    exact ⟨_, Rfc1035.rrAt_of_parts (H.name.1 hn) ⟨hattype, hlttype⟩ ⟨hatclass, hltclass⟩ ⟨hatttl, hltttl⟩ ⟨hatlen, hltlen⟩ hle,
      presentationName_iff.1 htext, rfl, rfl, rfl, rfl, rfl⟩
  · rintro ⟨rr, hrr, htext⟩
    rw [parseRr_of_rrAt H hrr, presentationName_iff.2 htext.name]
    obtain ⟨name, _, _, _, _, _⟩ := record
    obtain ⟨-, rfl, rfl, rfl, rfl, rfl⟩ := htext
    rfl

theorem parseRrs_of_sectionAt {data : List UInt8} {pos next : ℕ} {rrs : List Rr} (h : SectionAt data pos rrs next) :
    parseRrs data rrs.length pos =
      (rrs.mapM fun rr => (presentationName rr.owner).map (.ofRr rr)).map fun records => (records, next) := by
  induction h with
  | nil => rfl
  | @cons pos mid next rr rrs hrr _ ih =>
      rw [List.length_cons, parseRrs, parseRr_of_rrAt H hrr, List.mapM_cons]
      generalize rrs.mapM (fun rr => (presentationName rr.owner).map (UpdateRecord.ofRr rr)) = rest at ih ⊢
      cases presentationName rr.owner with
      | error e => rfl
      | ok name =>
          simp only [Except.map, Fallible.ok_bind, ih]
          cases rest <;> rfl

theorem parseRrs_eq_ok {data : List UInt8} {count pos next : ℕ} {records : List UpdateRecord} :
    parseRrs data count pos = .ok (records, next) ↔
      ∃ rrs, rrs.length = count ∧ SectionAt data pos rrs next ∧ List.Forall₂ RrText rrs records := by
  induction count generalizing pos records with
  | zero =>
      constructor
      · intro h
        cases h
        exact ⟨[], rfl, .nil, .nil⟩
      · rintro ⟨rrs, hlen, hat, htext⟩
        obtain rfl := List.length_eq_zero_iff.1 hlen
        cases hat
        cases htext
        rfl
  | succ count ih =>
      constructor
      · intro h
        obtain ⟨⟨record, p⟩, hrr, h⟩ := Fallible.bind_eq_ok.1 h
        obtain ⟨⟨rest, p'⟩, hrest, h⟩ := Fallible.bind_eq_ok.1 h
        cases h
        obtain ⟨rr, hat, htext⟩ := (parseRr_eq_ok H).1 hrr
        obtain ⟨rrs, hlen, hats, htexts⟩ := ih.1 hrest
        exact ⟨rr :: rrs, by simp [hlen], .cons hat hats, .cons htext htexts⟩
      · rintro ⟨rrs, hlen, hat, htext⟩
        cases hat with
        | nil => cases hlen
        | cons hrr hrrs =>
            cases htext with
            | cons hrecord hrecords =>
                refine Fallible.bind_eq_ok.2 ⟨_, (parseRr_eq_ok H).2 ⟨_, hrr, hrecord⟩, ?_⟩
                exact Fallible.bind_eq_ok.2 ⟨_, ih.2 ⟨_, by simpa using hlen, hrrs, hrecords⟩, rfl⟩

/-! ### The additional section -/

theorem tsigAt_unique {data : List UInt8} {pos fudge fudge' next next' : ℕ} (h : TsigAt data pos fudge next)
    (h' : TsigAt data pos fudge' next') : fudge = fudge' := by
  have e := H.tsig.2 h
  rw [H.tsig.2 h'] at e
  cases e
  rfl

theorem tsigText_singleton {data : List UInt8} {rr : Rr} {t : TsigRecord} (htype : rr.rrType = 250)
    (hname : NameText rr.owner t.name) (hrdata : TsigAt (data.take rr.rdataEnd) rr.rdataStart t.fudge rr.rdataEnd) :
    TsigText data [rr] (some t) := by
  intro t'
  simp only [List.mem_singleton, exists_eq_left, htype, true_and]
  constructor
  · intro e
    cases e
    exact ⟨hname, hrdata⟩
  · rintro ⟨hname', hrdata'⟩
    have hsame := presentationName_iff.2 hname'
    rw [presentationName_iff.2 hname] at hsame
    obtain ⟨name, fudge⟩ := t
    obtain ⟨name', fudge'⟩ := t'
    obtain rfl : fudge = fudge' := tsigAt_unique H hrdata hrdata'
    cases hsame
    rfl

omit H crates in
theorem tsigLast_singleton {data : List UInt8} {rr : Rr} (h : IsTsig data rr) : TsigLast data [rr] := by
  refine ⟨by simp, fun rr' hrr' _ => ?_⟩
  obtain rfl := List.mem_singleton.1 hrr'
  exact h

omit H crates in
theorem TsigLast.eq_nil {data : List UInt8} {rr : Rr} {rrs : List Rr} (h : TsigLast data (rr :: rrs))
    (htype : rr.rrType = 250) : rrs = [] := by
  cases rrs with
  | nil => rfl
  | cons rr' rrs => exact absurd htype (h.last rr (by simp))

omit H crates in
theorem tsigLast_cons {data : List UInt8} {rr : Rr} {rrs : List Rr} (htype : rr.rrType ≠ 250) :
    TsigLast data (rr :: rrs) ↔ TsigLast data rrs := by
  constructor
  · intro h
    refine ⟨fun rr' hrr' => h.last rr' ?_, fun rr' hrr' => h.tsig rr' (List.mem_cons_of_mem _ hrr')⟩
    cases rrs with
    | nil => cases hrr'
    | cons _ _ => exact List.mem_cons_of_mem _ hrr'
  · intro h
    refine ⟨fun rr' hrr' => ?_, fun rr' hrr' htype' => ?_⟩
    · cases rrs with
      | nil => cases hrr'
      | cons _ _ =>
          rcases List.mem_cons.1 hrr' with rfl | hrr'
          · exact htype
          · exact h.last rr' hrr'
    · rcases List.mem_cons.1 hrr' with rfl | hrr'
      · exact absurd htype' htype
      · exact h.tsig rr' hrr' htype'

omit H crates in
theorem tsigText_cons {data : List UInt8} {rr : Rr} {rrs : List Rr} {tsig : Option TsigRecord} (htype : rr.rrType ≠ 250) :
    TsigText data (rr :: rrs) tsig ↔ TsigText data rrs tsig := by
  simp only [TsigText, List.mem_cons, exists_eq_or_imp, htype, false_and, false_or]

theorem parseTsigRr_eq_ok {data : List UInt8} {pos p next : ℕ} {owner : Name} {t : TsigRecord}
    (hn : NameAt data pos owner.labels p) (htype : At data p (bigEndian 2 250)) :
    parseTsigRr data owner (p + 2) = .ok (t, next) ↔
      ∃ rr, rr.owner = owner ∧ rr.rrType = 250 ∧ RrAt data pos rr next ∧ TsigLast data [rr] ∧ TsigText data [rr] (some t) := by
  constructor
  · intro h
    obtain ⟨⟨rrClass, p₁⟩, hclass, h⟩ := orFail_bind_eq_ok.1 h
    obtain ⟨⟨ttl, p₂⟩, httl, h⟩ := orFail_bind_eq_ok.1 h
    obtain ⟨⟨rdlen, p₃⟩, hlen, h⟩ := orFail_bind_eq_ok.1 h
    obtain ⟨hatclass, hltclass, rfl⟩ := H.u16.1 hclass
    obtain ⟨hatttl, hltttl, rfl⟩ := H.u32.1 httl
    obtain ⟨hatlen, hltlen, rfl⟩ := H.u16.1 hlen
    by_cases hany : rrClass ≠ 255 ∨ ttl ≠ 0
    · simp only [if_pos hany] at h
      cases h
    · simp only [if_neg hany] at h
      obtain ⟨⟨rdata, p₄⟩, hparser, h⟩ := orFail_bind_eq_ok.1 h
      obtain ⟨⟨fudge, last⟩, htsig, h⟩ := orFail_bind_eq_ok.1 h
      obtain ⟨hle, rfl, rfl⟩ := H.parser.1 hparser
      by_cases hlast : last ≠ p + 2 + 2 + 4 + 2 + rdlen
      · simp only [if_pos hlast] at h
        cases h
      · simp only [if_neg hlast] at h
        obtain ⟨text, htext, h⟩ := Fallible.bind_eq_ok.1 h
        cases h
        obtain ⟨rfl, rfl⟩ := not_or.1 hany |>.imp not_not.1 not_not.1
        obtain rfl := not_not.1 hlast
        have hrr := Rfc1035.rrAt_of_parts hn ⟨htype, by omega⟩ ⟨hatclass, hltclass⟩ ⟨hatttl, hltttl⟩ ⟨hatlen, hltlen⟩ hle
        have hrdata := H.tsig.1 htsig
        rw [show p + 2 + 2 + 4 + 2 + rdlen = _ from hrr.next] at hrdata
        have hname := presentationName_iff.1 htext
        exact ⟨_, rfl, rfl, hrr, tsigLast_singleton ⟨rfl, rfl, ⟨fudge, hrdata⟩, hname.isUtf8⟩,
          tsigText_singleton H rfl hname hrdata⟩
  · rintro ⟨rr, rfl, hrrtype, hrr, hlast, htext⟩
    obtain ⟨p', hn', hstart, hat⟩ := hrr.owner
    obtain rfl := (hn.unique hn').2
    obtain ⟨-, hatclass, hatttl, hatlen, hatrdata⟩ := Rr.at_tail.1 hat
    obtain ⟨rr', hrr', -, hname, htsig⟩ := (htext t).1 rfl
    obtain rfl := List.mem_singleton.1 hrr'
    have hfields := hlast.tsig rr' (by simp) hrrtype
    rw [hfields.rrClass] at hatclass
    rw [hfields.ttl] at hatttl
    rw [← hrr.next, hstart] at htsig
    have hnext : next = p + 10 + rr'.rdata.length := by rw [hrr.next, Rr.rdataEnd, hstart]
    refine orFail_bind_eq_ok.2 ⟨(255, p + 4), H.u16.2 ⟨hatclass, by omega, rfl⟩, ?_⟩
    refine orFail_bind_eq_ok.2 ⟨(0, p + 8), H.u32.2 ⟨hatttl, by omega, rfl⟩, ?_⟩
    refine orFail_bind_eq_ok.2 ⟨(rr'.rdata.length, p + 10), H.u16.2 ⟨hatlen, hrr.length, rfl⟩, ?_⟩
    refine orFail_bind_eq_ok.2 ⟨(data.take next, next), H.parser.2 ⟨hatrdata.le, hnext, rfl⟩, ?_⟩
    refine orFail_bind_eq_ok.2 ⟨(t.fudge, next), H.tsig.2 htsig, ?_⟩
    simp only [ne_eq, not_true_eq_false, if_false]
    exact Fallible.bind_eq_ok.2 ⟨t.name, presentationName_iff.2 hname, rfl⟩

theorem parseAdditionalSection_eq_ok {data : List UInt8} {count pos next : ℕ} {tsig : Option TsigRecord} :
    parseAdditionalSection data count pos = .ok (tsig, next) ↔
      ∃ rrs, rrs.length = count ∧ SectionAt data pos rrs next ∧ TsigLast data rrs ∧ TsigText data rrs tsig := by
  induction count generalizing pos with
  | zero =>
      constructor
      · intro h
        cases h
        exact ⟨[], rfl, .nil, ⟨by simp, by simp⟩, by simp [TsigText]⟩
      · rintro ⟨rrs, hlen, hat, -, htext⟩
        obtain rfl := List.length_eq_zero_iff.1 hlen
        cases hat
        obtain rfl : tsig = none := Option.eq_none_iff_forall_ne_some.2 fun t ht => by simpa using (htext t).1 ht
        rfl
  | succ count ih =>
      constructor
      · intro h
        obtain ⟨⟨owner, p⟩, hn, h⟩ := orFail_bind_eq_ok.1 h
        obtain ⟨⟨rrType, p₁⟩, htype, h⟩ := orFail_bind_eq_ok.1 h
        obtain ⟨hattype, hlttype, rfl⟩ := H.u16.1 htype
        by_cases htsig : rrType = 250
        · subst htsig
          by_cases hcount : count = 0
          · subst hcount
            simp only [ne_eq, not_true_eq_false, if_true, if_false] at h
            obtain ⟨⟨t, p₂⟩, ht, h⟩ := Fallible.bind_eq_ok.1 h
            cases h
            obtain ⟨rr, -, -, hrr, hlast, htext⟩ := (parseTsigRr_eq_ok H (H.name.1 hn) hattype).1 ht
            exact ⟨[rr], rfl, .cons hrr .nil, hlast, htext⟩
          · simp only [ne_eq, hcount, not_false_eq_true, if_true] at h
            cases h
        · simp only [if_neg htsig] at h
          obtain ⟨⟨rrClass, p₂⟩, hclass, h⟩ := orFail_bind_eq_ok.1 h
          obtain ⟨⟨ttl, p₃⟩, httl, h⟩ := orFail_bind_eq_ok.1 h
          obtain ⟨⟨rdlen, p₄⟩, hlen, h⟩ := orFail_bind_eq_ok.1 h
          obtain ⟨⟨_, p₅⟩, hadv, h⟩ := orFail_bind_eq_ok.1 h
          obtain ⟨hatclass, hltclass, rfl⟩ := H.u16.1 hclass
          obtain ⟨hatttl, hltttl, rfl⟩ := H.u32.1 httl
          obtain ⟨hatlen, hltlen, rfl⟩ := H.u16.1 hlen
          obtain ⟨hle, rfl⟩ := H.advance.1 hadv
          have hrr := Rfc1035.rrAt_of_parts (H.name.1 hn) ⟨hattype, hlttype⟩ ⟨hatclass, hltclass⟩ ⟨hatttl, hltttl⟩
            ⟨hatlen, hltlen⟩ hle
          obtain ⟨rrs, hcount, hrrs, hlast, htext⟩ := ih.1 h
          exact ⟨_ :: rrs, by simp [hcount], .cons hrr hrrs, (tsigLast_cons htsig).2 hlast, (tsigText_cons htsig).2 htext⟩
      · rintro ⟨rrs, hlen, hat, hlast, htext⟩
        cases hat with
        | nil => cases hlen
        | @cons _ mid _ rr rrs hrr hrrs =>
            obtain ⟨p, hn, hstart, hat⟩ := hrr.owner
            obtain ⟨hattype, hatclass, hatttl, hatlen, hatrdata⟩ := Rr.at_tail.1 hat
            refine orFail_bind_eq_ok.2 ⟨(rr.owner, p), H.name.2 hn, ?_⟩
            refine orFail_bind_eq_ok.2 ⟨(rr.rrType, p + 2), H.u16.2 ⟨hattype, hrr.rrType, rfl⟩, ?_⟩
            by_cases htsig : rr.rrType = 250
            · obtain rfl := hlast.eq_nil htsig
              obtain rfl : count = 0 := by simpa using hlen.symm
              cases hrrs
              obtain ⟨fudge, hfudge⟩ := (hlast.tsig rr (by simp) htsig).rdata
              obtain ⟨text, hname⟩ := (hlast.tsig rr (by simp) htsig).owner.exists_text
              obtain rfl : tsig = some ⟨text, fudge⟩ := (htext ⟨text, fudge⟩).2 ⟨rr, by simp, htsig, hname, hfudge⟩
              simp only [htsig, ne_eq, not_true_eq_false, if_true, if_false]
              refine Fallible.bind_eq_ok.2 ⟨_, (parseTsigRr_eq_ok H hn (htsig ▸ hattype)).2 ⟨rr, rfl, htsig, hrr, hlast, htext⟩, rfl⟩
            · simp only [if_neg htsig]
              refine orFail_bind_eq_ok.2 ⟨(rr.rrClass, p + 4), H.u16.2 ⟨hatclass, hrr.rrClass, rfl⟩, ?_⟩
              refine orFail_bind_eq_ok.2 ⟨(rr.ttl, p + 8), H.u32.2 ⟨hatttl, hrr.ttl, rfl⟩, ?_⟩
              refine orFail_bind_eq_ok.2 ⟨(rr.rdata.length, p + 10), H.u16.2 ⟨hatlen, hrr.length, rfl⟩, ?_⟩
              refine orFail_bind_eq_ok.2 ⟨((), mid), H.advance.2 ⟨hatrdata.le, ?_⟩, ?_⟩
              · rw [hrr.next, Rr.rdataEnd, hstart]
              · exact ih.2 ⟨rrs, by simpa using hlen, hrrs, (tsigLast_cons htsig).1 hlast, (tsigText_cons htsig).1 htext⟩

/-! ### Messages -/

omit crates H in
theorem exists_forall₂_rrText {rrs : List Rr} (h : ∀ rr ∈ rrs, IsUtf8 rr.owner) :
    ∃ records, List.Forall₂ RrText rrs records := by
  induction rrs with
  | nil => exact ⟨[], .nil⟩
  | cons rr rrs ih =>
      obtain ⟨text, htext⟩ := (h rr (by simp)).exists_text
      obtain ⟨records, hrecords⟩ := ih fun rr' hrr' => h rr' (List.mem_cons_of_mem _ hrr')
      exact ⟨⟨text, rr.rrType, rr.rrClass, rr.ttl, rr.rdata, rr.rdataStart⟩ :: records,
        .cons ⟨htext, rfl, rfl, rfl, rfl, rfl⟩ hrecords⟩

omit crates H in
theorem isUtf8_of_forall₂ {rrs : List Rr} {records : List UpdateRecord} (h : List.Forall₂ RrText rrs records) :
    ∀ rr ∈ rrs, IsUtf8 rr.owner := by
  induction h with
  | nil => simp
  | cons hrr _ ih => exact List.forall_mem_cons.2 ⟨hrr.name.isUtf8, ih⟩

omit crates H in
theorem at_of_forall₂ {data : List UInt8} {pos next : ℕ} {rrs : List Rr} {records : List UpdateRecord}
    (hat : SectionAt data pos rrs next) (h : List.Forall₂ RrText rrs records) :
    ∀ record ∈ records, At data record.rdataStart record.rdata := by
  induction h generalizing pos with
  | nil => simp
  | cons hrr _ ih =>
      cases hat with
      | cons hatrr hatrrs =>
          refine List.forall_mem_cons.2 ⟨?_, ih hatrrs⟩
          rw [hrr.rdataStart, hrr.rdata]
          exact hatrr.rdata

theorem TsigLast.exists_text {data : List UInt8} {rrs : List Rr} (h : TsigLast data rrs) :
    ∃ tsig, TsigText data rrs tsig := by
  induction rrs with
  | nil => exact ⟨none, by simp [TsigText]⟩
  | cons rr rrs ih =>
      by_cases htype : rr.rrType = 250
      · obtain rfl := h.eq_nil htype
        obtain ⟨-, -, ⟨fudge, hrdata⟩, howner⟩ := h.tsig rr (by simp) htype
        obtain ⟨text, htext⟩ := howner.exists_text
        exact ⟨some ⟨text, fudge⟩, tsigText_singleton H htype htext hrdata⟩
      · obtain ⟨tsig, htsig⟩ := ih ((tsigLast_cons htype).1 h)
        exact ⟨tsig, (tsigText_cons htype).2 htsig⟩

theorem IsUpdate.exists_parsedAs {data : List UInt8} {m : UpdateMessage} (h : IsUpdate data m) :
    ∃ request, ParsedAs data m request := by
  obtain ⟨zoneName, hzone⟩ := h.zone.exists_text
  obtain ⟨prerequisites, hpre⟩ := exists_forall₂_rrText fun rr hrr => h.owners rr (List.mem_append_left _ hrr)
  obtain ⟨updates, hupd⟩ := exists_forall₂_rrText fun rr hrr => h.owners rr (List.mem_append_right _ hrr)
  obtain ⟨tsig, htsig⟩ := h.tsigLast.exists_text H
  exact ⟨⟨zoneName, prerequisites, updates, tsig⟩, hzone, hpre, hupd, htsig⟩

theorem parseUpdateRequest_eq_ok {data : List UInt8} {request : UpdateRequest} :
    parseUpdateRequest data = .ok request ↔ ∃ m, IsUpdate data m ∧ ParsedAs data m request := by
  constructor
  · intro h
    obtain ⟨header, hheader, h⟩ := orFail_bind_eq_ok.1 h
    obtain ⟨opcode, qdcount, ancount, nscount, arcount⟩ := header
    by_cases hopcode : opcode = 5
    swap
    · simp only [ne_eq, hopcode, not_false_eq_true, if_true] at h
      cases h
    by_cases hqdcount : qdcount = 1
    swap
    · simp only [ne_eq, hopcode, hqdcount, not_false_eq_true, not_true_eq_false, if_true, if_false] at h
      cases h
    subst hopcode hqdcount
    simp only [ne_eq, not_true_eq_false, if_false] at h
    obtain ⟨⟨_, p₀⟩, hadv, h⟩ := orFail_bind_eq_ok.1 h
    obtain ⟨⟨zone, p⟩, hzone, h⟩ := orFail_bind_eq_ok.1 h
    obtain ⟨⟨ztype, p₁⟩, hztype, h⟩ := orFail_bind_eq_ok.1 h
    obtain ⟨⟨zclass, p₂⟩, hzclass, h⟩ := orFail_bind_eq_ok.1 h
    obtain ⟨-, rfl⟩ := H.advance.1 hadv
    obtain ⟨hattype, -, rfl⟩ := H.u16.1 hztype
    obtain ⟨hatclass, -, rfl⟩ := H.u16.1 hzclass
    by_cases hsoa : ztype ≠ 6 ∨ zclass ≠ 1
    · simp only [if_pos hsoa] at h
      cases h
    simp only [if_neg hsoa] at h
    obtain ⟨zoneName, hname, h⟩ := Fallible.bind_eq_ok.1 h
    obtain ⟨⟨prerequisites, p₃⟩, hpre, h⟩ := Fallible.bind_eq_ok.1 h
    obtain ⟨⟨updates, p₄⟩, hupd, h⟩ := Fallible.bind_eq_ok.1 h
    obtain ⟨⟨tsig, p₅⟩, hadd, h⟩ := Fallible.bind_eq_ok.1 h
    by_cases hend : p₅ ≠ data.length
    · simp only [if_pos hend] at h
      cases h
    simp only [if_neg hend] at h
    cases h
    obtain ⟨rfl, rfl⟩ := not_or.1 hsoa |>.imp not_not.1 not_not.1
    obtain rfl := not_not.1 hend
    obtain ⟨pre, rfl, hatpre, hpre⟩ := (parseRrs_eq_ok H).1 hpre
    obtain ⟨upd, rfl, hatupd, hupd⟩ := (parseRrs_eq_ok H).1 hupd
    obtain ⟨add, rfl, hatadd, hlast, htsig⟩ := (parseAdditionalSection_eq_ok H).1 hadd
    have hname := presentationName_iff.1 hname
    refine ⟨⟨zone, pre, upd, add⟩, ⟨H.header.1 hheader, ⟨p, p₃, p₄, H.name.1 hzone, ?_, hatpre, hatupd, hatadd⟩, hlast,
      hname.isUtf8, fun rr hrr => ?_⟩, hname, hpre, hupd, htsig⟩
    · exact Rfc1035.at_append.2 ⟨hattype, hatclass⟩
    · rcases List.mem_append.1 hrr with hrr | hrr
      · exact isUtf8_of_forall₂ hpre rr hrr
      · exact isUtf8_of_forall₂ hupd rr hrr
  · rintro ⟨m, hm, hparsed⟩
    obtain ⟨p, p₁, p₂, hzone, hat, hpre, hupd, hadd⟩ := hm.sections
    obtain ⟨hattype, hatclass⟩ := Rfc1035.at_append.1 hat
    have hlen := hzone.lt
    refine orFail_bind_eq_ok.2 ⟨m.header, H.header.2 hm.header, ?_⟩
    simp only [UpdateMessage.header, ne_eq, not_true_eq_false, if_false]
    refine orFail_bind_eq_ok.2 ⟨((), 12), H.advance.2 ⟨by omega, rfl⟩, ?_⟩
    refine orFail_bind_eq_ok.2 ⟨(m.zone, p), H.name.2 hzone, ?_⟩
    refine orFail_bind_eq_ok.2 ⟨(6, p + 2), H.u16.2 ⟨hattype, by omega, rfl⟩, ?_⟩
    refine orFail_bind_eq_ok.2 ⟨(1, p + 4), H.u16.2 ⟨hatclass, by omega, rfl⟩, ?_⟩
    simp only [not_true_eq_false, or_self, if_false]
    refine Fallible.bind_eq_ok.2 ⟨_, presentationName_iff.2 hparsed.zoneName, ?_⟩
    refine Fallible.bind_eq_ok.2 ⟨_, (parseRrs_eq_ok H).2 ⟨_, rfl, hpre, hparsed.prerequisites⟩, ?_⟩
    refine Fallible.bind_eq_ok.2 ⟨_, (parseRrs_eq_ok H).2 ⟨_, rfl, hupd, hparsed.updates⟩, ?_⟩
    refine Fallible.bind_eq_ok.2 ⟨_, (parseAdditionalSection_eq_ok H).2 ⟨_, rfl, hadd, hm.tsigLast, hparsed.tsig⟩, ?_⟩
    simp only [not_true_eq_false, if_false]
    rfl

end Parser

/-! ### The parser by index -/

/-- A part of the parser that has no index. -/
def noIndex {α : Type} (x : Except ParseError α) : ExceptT ParseError Option α := ExceptT.mk (some x)

/-- `&data[start..stop]` in the parser. -/
def sliceOf (data : List UInt8) (start stop : ℕ) : ExceptT ParseError Option (List UInt8) :=
  ExceptT.mk ((slice data start stop).map .ok)

theorem noIndex_bind {α β : Type} (x : Except ParseError α) (f : α → Except ParseError β) :
    (noIndex x >>= fun a => noIndex (f a)) = noIndex (x >>= f) := by
  cases x <;> rfl

section Indexed

variable [crates : Crates]

/-- `parse_rr`; a slice that does not lie in the message is a panic, `none`. -/
def parseRrIndexed (data : List UInt8) (pos : ℕ) : ExceptT ParseError Option (UpdateRecord × ℕ) := do
  let (name, pos) ← noIndex (orFail .invalidName (crates.parsedName data pos))
  let name ← noIndex (presentationName name)
  let (rrType, pos) ← noIndex (orFail .invalidRr (crates.parseU16Be data pos))
  let (rrClass, pos) ← noIndex (orFail .invalidRr (crates.parseU16Be data pos))
  let (ttl, pos) ← noIndex (orFail .invalidRr (crates.parseU32Be data pos))
  let (rdlen, rdataStart) ← noIndex (orFail .invalidRr (crates.parseU16Be data pos))
  let (_, pos) ← noIndex (orFail .invalidRr (crates.advance rdlen data rdataStart))
  let rdata ← sliceOf data rdataStart (rdataStart + rdlen)
  pure (⟨name, rrType, rrClass, ttl, rdata, rdataStart⟩, pos)

/-- The records of a section. -/
def parseRrsIndexed (data : List UInt8) : ℕ → ℕ → ExceptT ParseError Option (List UpdateRecord × ℕ)
  | 0, pos => noIndex (.ok ([], pos))
  | count + 1, pos => do
      let (rr, pos) ← parseRrIndexed data pos
      let (rrs, pos) ← parseRrsIndexed data count pos
      pure (rr :: rrs, pos)

/-- `parse_update_request`. -/
def parseUpdateRequestIndexed (data : List UInt8) : ExceptT ParseError Option UpdateRequest := do
  let header ← noIndex (orFail .tooShort (crates.messageHeader data))
  if header.opcode ≠ 5 then noIndex (.error .invalidOpcode)
  else if header.qdcount ≠ 1 then noIndex (.error .invalidHeader)
  else do
    let (_, pos) ← noIndex (orFail .tooShort (crates.advance 12 data 0))
    let (zone, pos) ← noIndex (orFail .invalidName (crates.parsedName data pos))
    let (ztype, pos) ← noIndex (orFail .invalidZoneSection (crates.parseU16Be data pos))
    let (zclass, pos) ← noIndex (orFail .invalidZoneSection (crates.parseU16Be data pos))
    if ztype ≠ 6 ∨ zclass ≠ 1 then noIndex (.error .invalidZoneSection)
    else do
      let zoneName ← noIndex (presentationName zone)
      let (prerequisites, pos) ← parseRrsIndexed data header.ancount pos
      let (updates, pos) ← parseRrsIndexed data header.nscount pos
      let (tsig, pos) ← noIndex (parseAdditionalSection data header.arcount pos)
      if pos ≠ data.length then noIndex (.error .invalidHeader)
      else pure ⟨zoneName, prerequisites, updates, tsig⟩

variable (H : crates.MessageParse)

include H

/-- The slice of `parse_rr` lies in the message: the parser has just advanced over it. -/
theorem sliceOf_of_advance {rdlen : ℕ} {data : List UInt8} {pos : ℕ} {r : Unit × ℕ}
    (h : crates.advance rdlen data pos = some r) :
    sliceOf data pos (pos + rdlen) = noIndex (.ok ((data.drop pos).take rdlen)) := by
  obtain ⟨⟨⟩, next⟩ := r
  obtain ⟨hle, -⟩ := H.advance.1 h
  rw [sliceOf, slice, if_pos ⟨by omega, hle⟩, Nat.add_sub_cancel_left]
  rfl

theorem parseRrIndexed_eq (data : List UInt8) (pos : ℕ) : parseRrIndexed data pos = noIndex (parseRr data pos) := by
  unfold parseRrIndexed parseRr
  simp only [← noIndex_bind]
  refine bind_congr fun ⟨name, p⟩ => bind_congr fun text => bind_congr fun ⟨rrType, p₁⟩ => bind_congr fun ⟨rrClass, p₂⟩ =>
    bind_congr fun ⟨ttl, p₃⟩ => bind_congr fun ⟨rdlen, p₄⟩ => ?_
  cases hadv : crates.advance rdlen data p₄ with
  | none => rfl
  | some r =>
      rw [sliceOf_of_advance H hadv]
      rfl

theorem parseRrsIndexed_eq (data : List UInt8) (count pos : ℕ) :
    parseRrsIndexed data count pos = noIndex (parseRrs data count pos) := by
  induction count generalizing pos with
  | zero => rfl
  | succ count ih =>
      rw [parseRrsIndexed, parseRrs, parseRrIndexed_eq H]
      simp only [← noIndex_bind, ih]
      rfl

/-- **No panic.**  With its slices as indices into the message the parser computes the same. -/
theorem parseUpdateRequestIndexed_eq (data : List UInt8) :
    parseUpdateRequestIndexed data = noIndex (parseUpdateRequest data) := by
  unfold parseUpdateRequestIndexed parseUpdateRequest
  simp only [← noIndex_bind, parseRrsIndexed_eq H, apply_ite noIndex]
  rfl

end Indexed

/-! ### The parser and the grammar -/

/-- **The parser accepts exactly its grammar.**  What it returns is what the message says, the rdata of a record are the
octets at its position, and no slice leaves the message. -/
theorem update_grammar [crates : Crates] (H : crates.MessageParse) (data : List UInt8) :
    ((∃ request, parseUpdateRequest data = .ok request) ↔ ∃ m, IsUpdate data m) ∧
    (∀ request, parseUpdateRequest data = .ok request → ∀ m, IsUpdate data m → ParsedAs data m request) ∧
    (∀ request, parseUpdateRequest data = .ok request → ∀ record ∈ request.prerequisites ++ request.updates,
      record.rdataStart + record.rdata.length ≤ data.length ∧ At data record.rdataStart record.rdata) ∧
    (parseUpdateRequestIndexed data).run = some (parseUpdateRequest data) := by
  have haccepts : ∀ m, IsUpdate data m → ∃ request, parseUpdateRequest data = .ok request ∧ ParsedAs data m request := by
    intro m hm
    obtain ⟨request, hrequest⟩ := hm.exists_parsedAs H
    exact ⟨request, (parseUpdateRequest_eq_ok H).2 ⟨m, hm, hrequest⟩, hrequest⟩
  refine ⟨⟨?_, ?_⟩, ?_, ?_, ?_⟩
  · rintro ⟨request, h⟩
    obtain ⟨m, hm, -⟩ := (parseUpdateRequest_eq_ok H).1 h
    exact ⟨m, hm⟩
  · rintro ⟨m, hm⟩
    obtain ⟨request, h, -⟩ := haccepts m hm
    exact ⟨request, h⟩
  · intro request h m hm
    obtain ⟨request', h', hparsed⟩ := haccepts m hm
    rw [h] at h'
    cases h'
    exact hparsed
  · intro request h record hrecord
    obtain ⟨m, hm, hparsed⟩ := (parseUpdateRequest_eq_ok H).1 h
    obtain ⟨p, p₁, p₂, -, -, hpre, hupd, -⟩ := hm.sections
    have hat : At data record.rdataStart record.rdata := by
      rcases List.mem_append.1 hrecord with hrecord | hrecord
      · exact at_of_forall₂ hpre hparsed.prerequisites record hrecord
      · exact at_of_forall₂ hupd hparsed.updates record hrecord
    exact ⟨hat.le, hat⟩
  · rw [parseUpdateRequestIndexed_eq H]
    rfl

theorem sampleHeader_eq_some {data : List UInt8} {h : MessageHeader} : sampleHeader data = some h ↔ HeaderAt data h := by
  simp only [sampleHeader, Option.bind_eq_bind, Option.bind_eq_some_iff, Prod.exists, Rfc1035.readNat_eq_some]
  constructor
  · rintro ⟨flags, _, ⟨hflags, hlt, -⟩, qd, _, ⟨hqd, hltqd, -⟩, an, _, ⟨han, hltan, -⟩, ns, _, ⟨hns, hltns, -⟩, ar, _,
      ⟨har, hltar, -⟩, e⟩
    cases e
    refine ⟨⟨UInt8.ofNat flags, by simpa [bigEndian] using hflags, ?_⟩, ?_, hltqd, hltan, hltns, hltar⟩
    · have hmod : flags % 2 ^ 8 = flags := Nat.mod_eq_of_lt (by simpa using hlt)
      rw [UInt8.toNat_ofNat', hmod]
    · simp only [Rfc1035.at_append, Rfc1035.length_bigEndian]
      exact ⟨hqd, han, hns, har⟩
  · rintro ⟨⟨flags, hflags, hopcode⟩, hcounts, hltqd, hltan, hltns, hltar⟩
    simp only [Rfc1035.at_append, Rfc1035.length_bigEndian] at hcounts
    obtain ⟨hqd, han, hns, har⟩ := hcounts
    obtain ⟨_, _, _, _, _⟩ := h
    subst hopcode
    exact ⟨flags.toNat, 3, ⟨by simpa [bigEndian] using hflags, flags.toNat_lt, rfl⟩, _, 6, ⟨hqd, hltqd, rfl⟩, _, 8,
      ⟨han, hltan, rfl⟩, _, 10, ⟨hns, hltns, rfl⟩, _, 12, ⟨har, hltar, rfl⟩, rfl⟩

theorem sampleTsig_eq_some {data : List UInt8} {pos fudge next : ℕ} :
    sampleCrates.tsigParse data pos = some (fudge, next) ↔ TsigAt data pos fudge next := by
  unfold sampleCrates
  simp only [Option.bind_eq_bind, Option.bind_eq_some_iff, Prod.exists, Rfc1035.readNat_eq_some,
    Rfc1035.readOctets_eq_some, Rfc1035.readName_eq_some]
  simp only [TsigAt, Rfc1035.at_append, Rfc1035.length_bigEndian]
  constructor
  · rintro ⟨algorithm, p, hn, time, _, ⟨htime, -, rfl⟩, fudge', _, ⟨hfudge, hltfudge, rfl⟩, macSize, _, ⟨hmacSize, hltmac, rfl⟩,
      mac, _, ⟨hmac, rfl, rfl⟩, rest, _, ⟨hrest, -, rfl⟩, otherLen, _, ⟨hotherLen, hltother, rfl⟩, other, _,
      ⟨hother, rfl, rfl⟩, e⟩
    cases e
    rw [Rfc1035.bigEndian_four, Rfc1035.at_append] at hrest
    exact ⟨algorithm, p, time, rest / 65536, rest, mac, other, hn, ⟨htime, hfudge, hmacSize, hmac, hrest.1, hrest.2, hotherLen,
      hother⟩, hltfudge, hltmac, hltother, by omega⟩
  · rintro ⟨algorithm, p, time, originalId, error, mac, other, hn, ⟨htime, hfudge, hmacSize, hmac, hid, herror, hotherLen,
      hother⟩, hltfudge, hltmac, hltother, rfl⟩
    -- the time, and the original id with the error, are read as numbers
    obtain ⟨time', hlttime, etime⟩ := Rfc1035.exists_bigEndian (Rfc1035.length_bigEndian 6 time)
    obtain ⟨rest, hltrest, erest⟩ := @Rfc1035.exists_bigEndian 4 (bigEndian 2 originalId ++ bigEndian 2 error)
      (by simp only [List.length_append, Rfc1035.length_bigEndian])
    refine ⟨algorithm, p, hn, time', _, ⟨etime ▸ htime, hlttime, rfl⟩, fudge, _, ⟨hfudge, hltfudge, rfl⟩, mac.length, _,
      ⟨hmacSize, hltmac, rfl⟩, mac, _, ⟨hmac, rfl, rfl⟩, rest, _, ⟨?_, hltrest, rfl⟩, other.length, _,
      ⟨hotherLen, hltother, rfl⟩, other, _, ⟨hother, rfl, rfl⟩, ?_⟩
    · rw [erest, Rfc1035.at_append, Rfc1035.length_bigEndian]
      exact ⟨hid, herror⟩
    · rw [show p + 6 + 2 + 2 + mac.length + 4 + 2 + other.length = p + 16 + mac.length + other.length by omega]
      rfl

theorem sampleCrates_messageParse : sampleCrates.MessageParse where
  header := sampleHeader_eq_some
  u16 := Rfc1035.readNat_eq_some
  u32 := Rfc1035.readNat_eq_some
  advance {n data pos next} := by
    change (Rfc1035.readOctets n data pos).map _ = _ ↔ _
    unfold Rfc1035.readOctets
    split <;> simp_all [eq_comm]
  parser {n data rdata pos next} := by
    change (Rfc1035.readOctets n data pos).map _ = _ ↔ _
    unfold Rfc1035.readOctets
    split
    · rename_i hle
      constructor
      · intro h
        cases h
        exact ⟨hle, rfl, rfl⟩
      · rintro ⟨-, rfl, rfl⟩
        rfl
    · rename_i hle
      constructor
      · intro h
        cases h
      · rintro ⟨hle', -⟩
        exact absurd hle' hle
  name := Rfc1035.readName_eq_some
  tsig := sampleTsig_eq_some

/-- An UPDATE message for the zone `a.`, signed with the key `k.`. -/
def sampleUpdate : List UInt8 :=
  [0, 7, 40, 0, 0, 1, 0, 1, 0, 1, 0, 1] ++ [1, 97, 0, 0, 6, 0, 1] ++
  -- the name is in use; an address is added to it
  [192, 12, 0, 255, 0, 255, 0, 0, 0, 0, 0, 0] ++ [192, 12, 0, 1, 0, 1, 0, 0, 0, 60, 0, 4, 127, 0, 0, 1] ++
  [1, 107, 0, 0, 250, 0, 255, 0, 0, 0, 0, 0, 17] ++ [0, 0, 0, 0, 0, 0, 1, 1, 44, 0, 0, 0, 7, 0, 0, 0, 0]

theorem update_grammar_sampleUpdate :
    (∃ m request, IsUpdate sampleUpdate m ∧ @parseUpdateRequest sampleCrates sampleUpdate = .ok request ∧
      ParsedAs sampleUpdate m request ∧ request.updates ≠ [] ∧ request.tsig ≠ none ∧
      ∀ record ∈ request.prerequisites ++ request.updates, At sampleUpdate record.rdataStart record.rdata) ∧
    (@parseUpdateRequestIndexed sampleCrates sampleUpdate).run = some (@parseUpdateRequest sampleCrates sampleUpdate) := by
  have hgrammar := @update_grammar sampleCrates sampleCrates_messageParse sampleUpdate
  have h : @parseUpdateRequest sampleCrates sampleUpdate = .ok ⟨lit "a.", [⟨lit "a.", 255, 255, 0, [], 31⟩],
      [⟨lit "a.", 1, 1, 60, [127, 0, 0, 1], 43⟩], some ⟨lit "k.", 300⟩⟩ := by decide +kernel
  obtain ⟨m, hm⟩ := hgrammar.1.1 ⟨_, h⟩
  exact ⟨⟨m, _, hm, h, hgrammar.2.1 _ h m hm, by simp, by simp, fun record hrecord => (hgrammar.2.2.1 _ h record hrecord).2⟩,
    hgrammar.2.2.2⟩

end Bindizr
