import Bindizr.Rfc1035

/-! # Master files

A library for the text of names and of master files, RFC 1035, section 5.  It names nothing of the service.

An octet of a label is a printable character, a character after a backslash, or three digits after
one (`OctetText`); a label is its octets one after another (`LabelText`), and labels are separated by
dots (`LabelsText`).  A name is displayed as its labels without the dot of the root (`Displays`); in rdata the dot may stand
(`TargetText`, `RdataText`).

A master file is cut into entries by an automaton that takes one character at a time (`Scanner.step`): fields are
separated by blanks, quotes hold a field together, parentheses hold an entry together, a semicolon begins a comment.
An entry sets the origin or the default TTL, or is a record (`readLine`); `readMasterFile` gives the records of a file.  It has no
value on texts outside the grammar, and on the types that are not among those of `Rdata`. -/

namespace Rfc1035

open Bindizr (Text isAsciiDigit digitValue digitsValue natText digitsValue_natText isAsciiDigit_of_mem_natText toAsciiLowercase
  lit parseIpv4 parseIpv6 join asBytes asBytes_append asBytes_cons asBytes_nil utf8EncodeChar_of_lt Ipv4Addr Ipv6Addr ipv4Text
  ipv6Text toNat_ofNat digit_ofNat mem_join)

/-- Whether a character of a name stands for its octet, neither separating nor escaping. -/
def isPlain (c : Char) : Bool := isPrintable c && c != ' ' && c != '.' && c != '\\'

inductive OctetText : UInt8 → Text → Prop
  | plain {c : Char} (h : isPlain c = true) : OctetText (UInt8.ofNat c.toNat) [c]
  | escaped {c : Char} (hprint : isPrintable c = true) (hdigit : isAsciiDigit c = false) :
      OctetText (UInt8.ofNat c.toNat) ['\\', c]
  | decimal {d₁ d₂ d₃ : Char} (h₁ : isAsciiDigit d₁ = true) (h₂ : isAsciiDigit d₂ = true)
      (h₃ : isAsciiDigit d₃ = true) (hle : 100 * digitValue d₁ + 10 * digitValue d₂ + digitValue d₃ ≤ 255) :
      OctetText (UInt8.ofNat (100 * digitValue d₁ + 10 * digitValue d₂ + digitValue d₃)) ['\\', d₁, d₂, d₃]

inductive LabelText : List UInt8 → Text → Prop
  | nil : LabelText [] []
  | cons {b : UInt8} {l : List UInt8} {s t : Text} (octet : OctetText b s) (rest : LabelText l t) :
      LabelText (b :: l) (s ++ t)

/-- The text of labels, without a dot at the end. -/
inductive LabelsText : List (List UInt8) → Text → Prop
  | single {l : List UInt8} {t : Text} (label : LabelText l t) : LabelsText [l] t
  | cons {l : List UInt8} {ls : List (List UInt8)} {s t : Text} (label : LabelText l s) (rest : LabelsText ls t) :
      LabelsText (l :: ls) (s ++ '.' :: t)

/-- The text of a name without the dot of the root, which alone may be that dot. -/
def Displays (n : Name) (t : Text) : Prop := LabelsText n.labels t ∨ n.labels = [] ∧ (t = [] ∨ t = ['.'])

/-- Whether an octet is a letter, a digit, a hyphen or an underscore. -/
def isHostOctet (b : UInt8) : Bool :=
  (48 ≤ b.toNat && b.toNat ≤ 57) || (65 ≤ b.toNat && b.toNat ≤ 90) || (97 ≤ b.toNat && b.toNat ≤ 122) || b.toNat == 45 ||
    b.toNat == 95

/-- The text of a name in rdata: its labels, with or without the dot of the root, which alone is that dot.  Host names are
written without escapes. -/
structure TargetText (n : Name) (t : Text) : Prop where
  text : (n.labels = [] ∧ t = ['.']) ∨ ∃ s, LabelsText n.labels s ∧ (t = s ∨ t = s ++ ['.'])
  plain : (∀ l ∈ n.labels, ∀ b ∈ l, isHostOctet b = true) → '\\' ∉ t

/-- The text of rdata that is not of free octets; that of an SOA is left open. -/
inductive RdataText : Rdata → Text → Prop
  | a (addr : Ipv4Addr) : RdataText (.a addr) (ipv4Text addr)
  | aaaa (addr : Ipv6Addr) : RdataText (.aaaa addr) (ipv6Text addr)
  | ns {n : Name} {t : Text} (h : TargetText n t) : RdataText (.ns n) t
  | cname {n : Name} {t : Text} (h : TargetText n t) : RdataText (.cname n) t
  | ptr {n : Name} {t : Text} (h : TargetText n t) : RdataText (.ptr n) t
  | mx (preference : ℕ) {n : Name} {t : Text} (h : TargetText n t) :
      RdataText (.mx preference n) (join [' '] [natText preference, t])
  | srv (priority weight port : ℕ) {n : Name} {t : Text} (h : TargetText n t) :
      RdataText (.srv priority weight port n) (join [' '] [natText priority, natText weight, natText port, t])
  | soa (mname rname : Name) (serial refresh retry expire minimum : ℕ) (t : Text) :
      RdataText (.soa mname rname serial refresh retry expire minimum) t

/-! ### Entries and their fields -/

/-- A field of an entry, as it is written; the quotes around it are not part of its text. -/
structure Field where
  quoted : Bool
  text : Text
  deriving DecidableEq

/-- An entry: its fields, and whether its first line begins with a blank. -/
structure Line where
  indented : Bool
  fields : List Field
  deriving DecidableEq

/-- Where the scanner stands: at the beginning of a line, between fields, inside a field, perhaps after a backslash, or
inside a comment. -/
inductive Mode where
  | start
  | between
  | inside (quoted : Bool) (text : Text) (escaped : Bool)
  | comment
  deriving DecidableEq

/-- The entries read, the entry being read, and how many parentheses are open in it. -/
structure Scanner where
  lines : List Line
  line : Line
  depth : ℕ
  mode : Mode
  deriving DecidableEq

namespace Scanner

/-- The beginning of an entry after `lines`. -/
def after (lines : List Line) : Scanner := ⟨lines, ⟨false, []⟩, 0, .start⟩

/-- The end of a line ends an entry, unless a parenthesis is open. -/
def endLine (s : Scanner) : Scanner := if s.depth = 0 then after (s.lines ++ [s.line]) else { s with mode := .between }

/-- A field ends. -/
def close (s : Scanner) (field : Field) : Scanner :=
  { s with line := { s.line with fields := s.line.fields ++ [field] }, mode := .between }

/-- A character outside of fields and comments. -/
def outside (s : Scanner) (c : Char) : Option Scanner :=
  if c = '\n' then some s.endLine
  else if c = ' ' ∨ c = '\t' then some { s with mode := .between }
  else if c = ';' then some { s with mode := .comment }
  else if c = '(' then some { s with depth := s.depth + 1, mode := .between }
  else if c = ')' then if s.depth = 0 then none else some { s with depth := s.depth - 1, mode := .between }
  else if c = '"' then some { s with mode := .inside true [] false }
  else if isPrintable c then some { s with mode := .inside false [c] (c == '\\') }
  else none

/-- Whether a character ends a field that is not quoted. -/
def endsField (c : Char) : Bool := c ∈ [' ', '\t', '\n', ';', '(', ')']

def step (s : Scanner) (c : Char) : Option Scanner :=
  match s.mode with
  | .start =>
      if c = ' ' ∨ c = '\t' then some { s with line := { s.line with indented := true }, mode := .between } else s.outside c
  | .between => s.outside c
  | .comment => if c = '\n' then some s.endLine else some s
  | .inside quoted text true =>
      if isPrintable c then some { s with mode := .inside quoted (text ++ [c]) false } else none
  | .inside true text false =>
      if c = '"' then some (s.close ⟨true, text⟩)
      else if isPrintable c then some { s with mode := .inside true (text ++ [c]) (c == '\\') }
      else none
  | .inside false text false =>
      if endsField c then (s.close ⟨false, text⟩).outside c
      else if isPrintable c && c != '"' then some { s with mode := .inside false (text ++ [c]) (c == '\\') }
      else none

end Scanner

/-- The entries of a text whose last line is ended. -/
def scan (t : Text) : Option (List Line) := do
  let s ← t.foldlM Scanner.step (.after [])
  if s.mode = .start then some s.lines else none

/-! ### Fields -/

/-- The text of a field that is not quoted. -/
def Field.word (f : Field) : Option Text := if f.quoted then none else some f.text

/-- Whether a name is written with the dot of the root at its end. -/
def endsAtRoot : Text → Bool
  | [] => false
  | ['.'] => true
  | '\\' :: _ :: t => endsAtRoot t
  | _ :: t => endsAtRoot t

/-- The name that labels make. -/
def nameOf (labels : List (List UInt8)) : Option Name := if h : IsName labels then some ⟨labels, h⟩ else none

/-- A name, relative to the origin unless it ends at the root; `@` is the origin. -/
def readFileName (origin : Option Name) (t : Text) : Option Name :=
  if t = ['@'] then origin
  else if t = ['.'] then some .root
  else do
    let labels ← presentationLabels t
    if endsAtRoot t then nameOf labels
    else do
      let origin ← origin
      nameOf (labels ++ origin.labels)

/-- A number of at most `max`. -/
def readDecimal (max : ℕ) (field : Field) : Option ℕ :=
  if field.quoted = false ∧ field.text ≠ [] ∧ field.text.all isAsciiDigit = true ∧ digitsValue field.text ≤ max then
    some (digitsValue field.text)
  else none

/-- The octets of a character-string. -/
def charStringFrom : Text → Option (List UInt8)
  | [] => some []
  | '\\' :: c :: t =>
      if isAsciiDigit c then
        match t with
        | d :: e :: t =>
            if isAsciiDigit d && isAsciiDigit e && 100 * digitValue c + 10 * digitValue d + digitValue e ≤ 255 then
              (charStringFrom t).map (UInt8.ofNat (100 * digitValue c + 10 * digitValue d + digitValue e) :: ·)
            else none
        | _ => none
      else if isPrintable c then (charStringFrom t).map (UInt8.ofNat c.toNat :: ·)
      else none
  | ['\\'] => none
  | c :: t => if isPrintable c then (charStringFrom t).map (UInt8.ofNat c.toNat :: ·) else none

/-- A character-string on the wire: at most 255 octets after their number. -/
def readCharString (field : Field) : Option (List UInt8) := do
  let octets ← charStringFrom field.text
  if octets.length ≤ 255 then some (UInt8.ofNat octets.length :: octets) else none

/-- The greatest value of a TTL. -/
def maxTtl : ℕ := 2147483647

/-- The TTL before the type of a record, if any, and the fields from the type on; the class is `IN`. -/
def readTtl : List Field → Option ℕ × List Field
  | [] => (none, [])
  | field :: fields =>
      match readDecimal maxTtl field with
      | some ttl =>
          match fields with
          | c :: rest => if c.word.map toAsciiLowercase = some (lit "in") then (some ttl, rest) else (some ttl, fields)
          | [] => (some ttl, [])
      | none =>
          if field.word.map toAsciiLowercase = some (lit "in") then
            match fields with
            | t :: rest =>
                match readDecimal maxTtl t with
                | some ttl => (some ttl, rest)
                | none => (none, fields)
            | [] => (none, [])
          else (none, field :: fields)

/-- The types in use. -/
inductive Rtype where
  | a
  | ns
  | cname
  | soa
  | ptr
  | mx
  | txt
  | aaaa
  | srv
  deriving DecidableEq

/-- The mnemonics of types, in lower case. -/
def Rtype.mnemonics : List (Text × Rtype) :=
  [(lit "a", .a), (lit "ns", .ns), (lit "cname", .cname), (lit "soa", .soa), (lit "ptr", .ptr), (lit "mx", .mx),
    (lit "txt", .txt), (lit "aaaa", .aaaa), (lit "srv", .srv)]

def readRdata (origin : Option Name) : Rtype → List Field → Option Rdata
  | .a, [addr] => (addr.word.bind parseIpv4).map .a
  | .aaaa, [addr] => (addr.word.bind parseIpv6).map .aaaa
  | .ns, [name] => (name.word.bind (readFileName origin)).map .ns
  | .cname, [name] => (name.word.bind (readFileName origin)).map .cname
  | .ptr, [name] => (name.word.bind (readFileName origin)).map .ptr
  | .mx, [preference, exchange] => do
      let preference ← readDecimal 65535 preference
      (exchange.word.bind (readFileName origin)).map (.mx preference)
  | .srv, [priority, weight, port, target] => do
      let priority ← readDecimal 65535 priority
      let weight ← readDecimal 65535 weight
      let port ← readDecimal 65535 port
      (target.word.bind (readFileName origin)).map (.srv priority weight port)
  | .soa, [mname, rname, serial, refresh, retry, expire, minimum] => do
      let mname ← mname.word.bind (readFileName origin)
      let rname ← rname.word.bind (readFileName origin)
      let serial ← readDecimal 4294967295 serial
      let refresh ← readDecimal 4294967295 refresh
      let retry ← readDecimal 4294967295 retry
      let expire ← readDecimal 4294967295 expire
      let minimum ← readDecimal 4294967295 minimum
      some (.soa mname rname serial refresh retry expire minimum)
  | .txt, fields => do
      let strings ← fields.mapM readCharString
      if fields ≠ [] ∧ strings.flatten.length ≤ 65535 then some (.txt strings.flatten) else none
  | _, _ => none

/-! ### Records -/

/-- What the entries before one leave for it: the origin, the default TTL, and the last owner and TTL. -/
structure Context where
  origin : Option Name
  defaultTtl : Option ℕ
  owner : Option Name
  ttl : Option ℕ

/-- The fields of a record after its owner. -/
def readRecord (context : Context) (owner : Name) (fields : List Field) : Option (Context × ResourceRecord) := do
  let (stated, fields) := readTtl fields
  let ttl ← stated.or (context.defaultTtl.or context.ttl)
  match fields with
  | [] => none
  | rtype :: fields => do
      let mnemonic ← rtype.word
      let rtype ← Rtype.mnemonics.lookup (toAsciiLowercase mnemonic)
      let data ← readRdata context.origin rtype fields
      some ({ context with owner := some owner, ttl := stated.or context.ttl }, ⟨owner, ttl, data⟩)

/-- An entry: a blank one, a directive, or a record. -/
def readLine (context : Context) (line : Line) : Option (Context × Option ResourceRecord) :=
  match line.fields with
  | [] => some (context, none)
  | first :: rest =>
      if line.indented then do
        let owner ← context.owner
        (readRecord context owner (first :: rest)).map fun (c, r) => (c, some r)
      else do
        let text ← first.word
        if text.head? = some '$' then
          match rest with
          | [value] =>
              if text = lit "$ORIGIN" then
                (value.word.bind (readFileName context.origin)).map fun n => ({ context with origin := some n }, none)
              else if text = lit "$TTL" then
                (readDecimal maxTtl value).map fun ttl => ({ context with defaultTtl := some ttl }, none)
              else none
          | _ => none
        else do
          let owner ← readFileName context.origin text
          (readRecord context owner rest).map fun (c, r) => (c, some r)

/-- The records of entries. -/
def readLines : Context → List Line → Option (List ResourceRecord)
  | _, [] => some []
  | context, line :: lines => do
      let (context, r) ← readLine context line
      (readLines context lines).map (r.toList ++ ·)

/-- **The records of a master file.** -/
def readMasterFile (t : Text) : Option (List ResourceRecord) := do
  let lines ← scan t
  readLines ⟨none, none, none, none⟩ lines

/-! ### The texts of entries -/

/-- A character that stands for itself inside a field. -/
def isInner (quoted : Bool) (c : Char) : Bool :=
  isPrintable c && c != '"' && c != '\\' && (quoted || !Scanner.endsField c)

def isFieldText (quoted : Bool) : Text → Bool
  | [] => true
  | '\\' :: c :: t => isPrintable c && isFieldText quoted t
  | c :: t => isInner quoted c && isFieldText quoted t

theorem isFieldText_cons {quoted : Bool} {c : Char} (h : isInner quoted c = true) (t : Text) :
    isFieldText quoted (c :: t) = isFieldText quoted t := by
  have hc : c ≠ '\\' := by
    rintro rfl
    simp [isInner] at h
  rw [isFieldText.eq_def]
  split
  · contradiction
  · rename_i e
    exact absurd (List.cons.inj e).1 hc
  · rename_i e
    obtain ⟨rfl, rfl⟩ := List.cons.inj e
    rw [h, Bool.true_and]

theorem isFieldText_of_all {quoted : Bool} {t : Text} (h : ∀ c ∈ t, isInner quoted c = true) : isFieldText quoted t = true := by
  induction t with
  | nil => rfl
  | cons c t ih => rw [isFieldText_cons (h c (by simp)), ih fun d hd => h d (by simp [hd])]

theorem isFieldText_append {quoted : Bool} {s t : Text} (hs : isFieldText quoted s = true) (ht : isFieldText quoted t = true) :
    isFieldText quoted (s ++ t) = true := by
  induction s using isFieldText.induct with
  | case1 => exact ht
  | case2 c s ih =>
      rw [isFieldText, Bool.and_eq_true] at hs
      rw [List.cons_append, List.cons_append, isFieldText, hs.1, ih hs.2, Bool.and_self]
  | case3 c s hc ih =>
      rw [isFieldText.eq_3 _ _ _ hc, Bool.and_eq_true] at hs
      rw [List.cons_append, isFieldText_cons hs.1, ih hs.2]

theorem isFieldText_flatMap {α : Type} {quoted : Bool} {l : List α} {write : α → Text}
    (h : ∀ a ∈ l, isFieldText quoted (write a) = true) : isFieldText quoted (l.flatMap write) = true := by
  induction l with
  | nil => rfl
  | cons a l ih => exact isFieldText_append (h a (by simp)) (ih fun b hb => h b (by simp [hb]))

namespace Field

def written (f : Field) : Text := if f.quoted then '"' :: f.text ++ ['"'] else f.text

/-- A field that can be written. -/
def IsWritten (f : Field) : Prop := isFieldText f.quoted f.text = true ∧ (f.quoted = false → f.text ≠ [])

end Field

namespace Scanner

variable {s : Scanner} {quoted : Bool} {text : Text}

theorem step_inner {c : Char} (h : isInner quoted c = true) :
    step { s with mode := .inside quoted text false } c = some { s with mode := .inside quoted (text ++ [c]) false } := by
  obtain ⟨⟨⟨hprint, hquote⟩, hslash⟩, hends⟩ : ((isPrintable c = true ∧ c ≠ '"') ∧ c ≠ '\\') ∧
      (quoted = true ∨ endsField c = false) := by simpa [isInner] using h
  cases quoted with
  | true => simp [step, hprint, hquote, hslash]
  | false => simp [step, hprint, hquote, hslash, hends.resolve_left (by decide)]

theorem step_backslash : step { s with mode := .inside quoted text false } '\\' =
    some { s with mode := .inside quoted (text ++ ['\\']) true } := by
  cases quoted <;> rfl

theorem step_escaped {c : Char} (h : isPrintable c = true) :
    step { s with mode := .inside quoted text true } c = some { s with mode := .inside quoted (text ++ [c]) false } := by
  simp [step, h]

/-- The inside of a field is read into it. -/
theorem foldlM_fieldText {t : Text} (h : isFieldText quoted t = true) :
    t.foldlM step { s with mode := .inside quoted text false } = some { s with mode := .inside quoted (text ++ t) false } := by
  induction t using isFieldText.induct generalizing text with
  | case1 => simp
  | case2 c t ih =>
      rw [isFieldText, Bool.and_eq_true] at h
      rw [List.foldlM_cons, step_backslash, Option.bind_eq_bind, Option.bind_some, List.foldlM_cons, step_escaped h.1,
        Option.bind_eq_bind, Option.bind_some, ih h.2]
      simp
  | case3 c t hc ih =>
      rw [isFieldText.eq_3 _ _ _ hc, Bool.and_eq_true] at h
      rw [List.foldlM_cons, step_inner h.1, Option.bind_eq_bind, Option.bind_some, ih h.2]
      simp

theorem step_begin (hs : s.mode = .start ∨ s.mode = .between) {c : Char} (hc : isPrintable c = true) (hquote : c ≠ '"')
    (hends : endsField c = false) : s.step c = some { s with mode := .inside false [c] (c == '\\') } := by
  have hne : c ≠ '\n' ∧ c ≠ ' ' ∧ c ≠ '\t' ∧ c ≠ ';' ∧ c ≠ '(' ∧ c ≠ ')' := by
    refine ⟨?_, ?_, ?_, ?_, ?_, ?_⟩ <;> (rintro rfl; simp [endsField] at hends)
  obtain ⟨h1, h2, h3, h4, h5, h6⟩ := hne
  rcases hs with hs | hs <;> simp [step, hs, outside, h1, h2, h3, h4, h5, h6, hquote, hc]

/-- A field that is not quoted is read up to what ends it. -/
theorem foldlM_word (hs : s.mode = .start ∨ s.mode = .between) {t : Text} (h : isFieldText false t = true) (hne : t ≠ []) :
    t.foldlM step s = some { s with mode := .inside false t false } := by
  induction t using isFieldText.induct with
  | case1 => exact absurd rfl hne
  | case2 c t _ =>
      rw [isFieldText, Bool.and_eq_true] at h
      rw [List.foldlM_cons, step_begin hs rfl (by decide) rfl, Option.bind_eq_bind, Option.bind_some, List.foldlM_cons,
        beq_self_eq_true, step_escaped h.1, Option.bind_eq_bind, Option.bind_some, foldlM_fieldText h.2]
      rfl
  | case3 c t hc _ =>
      rw [isFieldText.eq_3 _ _ _ hc, Bool.and_eq_true] at h
      obtain ⟨hprint, hquote, hslash, hends⟩ : isPrintable c = true ∧ c ≠ '"' ∧ c ≠ '\\' ∧ endsField c = false := by
        simpa [isInner, and_assoc] using h.1
      rw [List.foldlM_cons, step_begin hs hprint hquote hends, Option.bind_eq_bind, Option.bind_some,
        beq_false_of_ne hslash, foldlM_fieldText h.2]
      rfl

/-- A field is read, and what ends it is read outside of it. -/
theorem foldlM_written (hs : s.mode = .start ∨ s.mode = .between) {f : Field} (hf : f.IsWritten) {c : Char}
    (hc : endsField c = true) : (f.written ++ [c]).foldlM step s = (s.close f).outside c := by
  obtain ⟨quoted, t⟩ := f
  cases quoted with
  | false =>
      rw [Field.written, if_neg Bool.false_ne_true, List.foldlM_append, foldlM_word hs hf.1 (hf.2 rfl), Option.bind_eq_bind,
        Option.bind_some]
      simp [step, hc, close]
  | true =>
      have hopen : s.step '"' = some { s with mode := .inside true [] false } := by
        rcases hs with hs | hs <;> simp [step, hs, outside]
      rw [Field.written, if_pos rfl, List.foldlM_append, List.cons_append, List.foldlM_cons, hopen, Option.bind_eq_bind,
        Option.bind_some, List.foldlM_append, foldlM_fieldText hf.1]
      simp [step, close]

/-- Fields with a blank after each, up to the end of the line. -/
theorem foldlM_line (hs : s.mode = .start ∨ s.mode = .between) (hdepth : s.depth = 0) {fs : List (Field × Char)}
    (hfs : ∀ p ∈ fs, p.1.IsWritten ∧ (p.2 = ' ' ∨ p.2 = '\t')) {last : Field} (hlast : last.IsWritten) :
    (fs.flatMap (fun p => p.1.written ++ [p.2]) ++ (last.written ++ ['\n'])).foldlM step s =
      some (after (s.lines ++ [⟨s.line.indented, s.line.fields ++ fs.map Prod.fst ++ [last]⟩])) := by
  induction fs generalizing s with
  | nil =>
      rw [List.flatMap_nil, List.nil_append, foldlM_written hs hlast rfl]
      simp [outside, endLine, close, hdepth]
  | cons p fs ih =>
      obtain ⟨hp, hblank⟩ := hfs p (by simp)
      have hends : endsField p.2 = true := by rcases hblank with e | e <;> rw [e] <;> rfl
      have hout : (s.close p.1).outside p.2 = some (s.close p.1) := by
        rcases hblank with e | e <;> rw [e] <;> rfl
      rw [List.flatMap_cons, List.append_assoc, List.foldlM_append, foldlM_written hs hp hends, hout, Option.bind_eq_bind,
        Option.bind_some, ih (s := s.close p.1) (.inr rfl) hdepth fun q hq => hfs q (by simp [hq])]
      simp [close]

end Scanner

/-- A text of whole lines, and the entries it holds. -/
def Scans (t : Text) (lines : List Line) : Prop :=
  ∀ before, t.foldlM Scanner.step (.after before) = some (.after (before ++ lines))

theorem Scans.nil : Scans [] [] := fun before => by simp

theorem Scans.append {s t : Text} {ls ms : List Line} (hs : Scans s ls) (ht : Scans t ms) : Scans (s ++ t) (ls ++ ms) := by
  intro before
  rw [List.foldlM_append, hs before, Option.bind_eq_bind, Option.bind_some, ht, List.append_assoc]

theorem Scans.scan_eq {t : Text} {lines : List Line} (h : Scans t lines) : scan t = some lines := by
  rw [scan, h []]
  simp [Scanner.after]

theorem Scans.flatMap {α : Type} {l : List α} {text : α → Text} {line : α → Line} (h : ∀ a ∈ l, Scans (text a) [line a]) :
    Scans (l.flatMap text) (l.map line) := by
  induction l with
  | nil => exact .nil
  | cons a l ih => exact (h a (by simp)).append (ih fun b hb => h b (by simp [hb]))

theorem scans_line {fs : List (Field × Char)} (hfs : ∀ p ∈ fs, p.1.IsWritten ∧ (p.2 = ' ' ∨ p.2 = '\t')) {last : Field}
    (hlast : last.IsWritten) : Scans (fs.flatMap (fun p => p.1.written ++ [p.2]) ++ (last.written ++ ['\n']))
      [⟨false, fs.map Prod.fst ++ [last]⟩] := by
  intro before
  rw [Scanner.foldlM_line (.inl rfl) rfl hfs hlast]
  simp [Scanner.after]

theorem join_written {fields : List Field} {last : Field} : join [' '] ((fields ++ [last]).map Field.written) =
    (fields.map (·, ' ')).flatMap (fun p : Field × Char => p.1.written ++ [p.2]) ++ last.written := by
  induction fields with
  | nil => simp [join]
  | cons f fields ih =>
      obtain ⟨g, gs, e⟩ := List.exists_cons_of_ne_nil (l := fields ++ [last]) (by simp)
      rw [List.cons_append, List.map_cons, List.map_cons, List.flatMap_cons, List.append_assoc, ← ih, e, List.map_cons, join,
        join, List.intercalate_cons_cons]

/-- Fields with a tab after each, and fields with blanks between them. -/
theorem scans_fields {heads fields : List Field} (hheads : ∀ f ∈ heads, f.IsWritten) (hfields : ∀ f ∈ fields, f.IsWritten)
    (hne : fields ≠ []) : Scans (heads.flatMap (fun f => f.written ++ ['\t']) ++ join [' '] (fields.map Field.written) ++ ['\n'])
      [⟨false, heads ++ fields⟩] := by
  rcases List.eq_nil_or_concat fields with rfl | ⟨init, last, rfl⟩
  · exact absurd rfl hne
  rw [List.concat_eq_append] at hfields ⊢
  have hblank : ∀ p ∈ heads.map (·, '\t') ++ init.map (·, ' '), p.1.IsWritten ∧ (p.2 = ' ' ∨ p.2 = '\t') := by
    intro p hp
    rcases List.mem_append.1 hp with hp | hp
    · obtain ⟨f, hf, rfl⟩ := List.mem_map.1 hp
      exact ⟨hheads f hf, .inr rfl⟩
    · obtain ⟨f, hf, rfl⟩ := List.mem_map.1 hp
      exact ⟨hfields f (by simp [hf]), .inl rfl⟩
  have h := scans_line hblank (hfields last (by simp))
  rw [join_written]
  simpa [List.flatMap_map, Function.comp_def] using h

/-! ### What entries are read as -/

theorem word_unquoted (t : Text) : Field.word ⟨false, t⟩ = some t := rfl

theorem nameOf_labels (n : Name) : nameOf n.labels = some n := dif_pos n.isName

theorem readFileName_absolute {n : Name} {t : Text} (h : presentationLabels t = some n.labels) (hroot : endsAtRoot t = true)
    (hne : t ≠ ['.']) (origin : Option Name) : readFileName origin t = some n := by
  have hat : t ≠ ['@'] := by
    rintro rfl
    cases hroot
  rw [readFileName, if_neg hat, if_neg hne, h, Option.bind_eq_bind, Option.bind_some, if_pos hroot, nameOf_labels]

theorem readFileName_relative {n origin : Name} {t : Text} {labels : List (List UInt8)} (h : presentationLabels t = some labels)
    (hroot : endsAtRoot t = false) (hat : t ≠ ['@']) (hn : n.labels = labels ++ origin.labels) :
    readFileName (some origin) t = some n := by
  have hne : t ≠ ['.'] := by
    rintro rfl
    cases hroot
  rw [readFileName, if_neg hat, if_neg hne, h, Option.bind_eq_bind, Option.bind_some, hroot, if_neg Bool.false_ne_true,
    Option.bind_eq_bind, Option.bind_some, ← hn, nameOf_labels]

/-- A text of ASCII without white space and control characters. -/
def Graphic (t : Text) : Prop := ∀ c ∈ t, isPrintable c = true ∧ c ≠ ' '

theorem asBytes_singleton {c : Char} (h : isPrintable c = true) : asBytes [c] = [UInt8.ofNat c.toNat] := by
  rw [asBytes_cons, utf8EncodeChar_of_lt (toNat_lt_of_isPrintable h), asBytes_nil, List.append_nil]

theorem labelText_flatMap {l : Text} {write : Char → Text} (h : ∀ c ∈ l, OctetText (UInt8.ofNat c.toNat) (write c))
    (hprint : ∀ c ∈ l, isPrintable c = true) : LabelText (asBytes l) (l.flatMap write) := by
  induction l with
  | nil => exact .nil
  | cons c l ih =>
      rw [← List.singleton_append, asBytes_append, asBytes_singleton (hprint c (by simp)), List.flatMap_append,
        List.flatMap_singleton]
      exact .cons (h c (by simp)) (ih (fun d hd => h d (by simp [hd])) fun d hd => hprint d (by simp [hd]))

theorem presentationLabelsFrom_octetText {b : UInt8} {s : Text} (h : OctetText b s) (t : Text) (label : List UInt8) :
    presentationLabelsFrom (s ++ t) label = presentationLabelsFrom t (label ++ [b]) := by
  cases h with
  | @plain c h =>
      obtain ⟨⟨⟨hprint, -⟩, hdot⟩, hslash⟩ : ((isPrintable c = true ∧ c ≠ ' ') ∧ c ≠ '.') ∧ c ≠ '\\' := by
        simpa [isPlain] using h
      rw [List.singleton_append, presentationLabelsFrom_plain hdot hslash, if_pos hprint]
  | escaped hprint hdigit => exact presentationLabelsFrom_escape hdigit hprint
  | decimal h₁ h₂ h₃ hle =>
      rw [presentationLabelsFrom.eq_def]
      simp [h₁, h₂, h₃, hle]

theorem presentationLabelsFrom_labelText {l : List UInt8} {s : Text} (h : LabelText l s) (t : Text) (label : List UInt8) :
    presentationLabelsFrom (s ++ t) label = presentationLabelsFrom t (label ++ l) := by
  induction h generalizing label with
  | nil => simp
  | cons octet rest ih =>
      rw [List.append_assoc, presentationLabelsFrom_octetText octet, ih]
      simp

theorem LabelsText.presentationLabels {ls : List (List UInt8)} {t : Text} (h : LabelsText ls t) (hls : ∀ l ∈ ls, l ≠ [])
    {dot : Text} (hdot : dot = [] ∨ dot = ['.']) : presentationLabels (t ++ dot) = some ls := by
  unfold Rfc1035.presentationLabels
  induction h with
  | @single l t label =>
      have hl := hls l (by simp)
      rw [presentationLabelsFrom_labelText label, List.nil_append]
      rcases hdot with rfl | rfl
      · exact presentationLabelsFrom_end hl
      · rw [presentationLabelsFrom_dot hl]
        rfl
  | @cons l ls s t label rest ih =>
      rw [List.append_assoc, List.cons_append, presentationLabelsFrom_labelText label, List.nil_append,
        presentationLabelsFrom_dot (hls l (by simp)), ih fun m hm => hls m (by simp [hm])]
      rfl

theorem endsAtRoot_plain {c : Char} (hdot : c ≠ '.') (hslash : c ≠ '\\') (t : Text) : endsAtRoot (c :: t) = endsAtRoot t := by
  rw [endsAtRoot.eq_def]
  split <;> simp_all

theorem endsAtRoot_dot {t : Text} (h : t ≠ []) : endsAtRoot ('.' :: t) = endsAtRoot t := by
  obtain ⟨c, t, rfl⟩ := List.exists_cons_of_ne_nil h
  rfl

theorem endsAtRoot_octetText {b : UInt8} {s : Text} (h : OctetText b s) (t : Text) : endsAtRoot (s ++ t) = endsAtRoot t := by
  have hdigit : ∀ {d : Char}, isAsciiDigit d = true → d ≠ '.' ∧ d ≠ '\\' := by
    rintro d hd
    refine ⟨?_, ?_⟩ <;> (rintro rfl; cases hd)
  cases h with
  | @plain c h =>
      have hc : c ≠ '.' ∧ c ≠ '\\' := by
        simp only [isPlain, Bool.and_eq_true, bne_iff_ne] at h
        exact ⟨h.1.2, h.2⟩
      exact endsAtRoot_plain hc.1 hc.2 t
  | escaped hprint hdigit => rfl
  | decimal h₁ h₂ h₃ hle =>
      exact (endsAtRoot_plain (hdigit h₂).1 (hdigit h₂).2 _).trans (endsAtRoot_plain (hdigit h₃).1 (hdigit h₃).2 _)

theorem endsAtRoot_labelText {l : List UInt8} {s : Text} (h : LabelText l s) (t : Text) : endsAtRoot (s ++ t) = endsAtRoot t := by
  induction h with
  | nil => rfl
  | cons octet rest ih => rw [List.append_assoc, endsAtRoot_octetText octet, ih]

theorem LabelText.ne_nil {l : List UInt8} {s : Text} (h : LabelText l s) (hl : l ≠ []) : s ≠ [] := by
  cases h with
  | nil => exact absurd rfl hl
  | cons octet rest => cases octet <;> simp

theorem LabelsText.ne_nil {ls : List (List UInt8)} {t : Text} (h : LabelsText ls t) (hls : ∀ l ∈ ls, l ≠ []) : t ≠ [] := by
  cases h with
  | single label => exact label.ne_nil (hls _ (by simp))
  | cons label rest => simp

theorem LabelsText.endsAtRoot {ls : List (List UInt8)} {t : Text} (h : LabelsText ls t) (hls : ∀ l ∈ ls, l ≠ []) (dot : Text) :
    endsAtRoot (t ++ dot) = endsAtRoot dot := by
  induction h with
  | single label => exact endsAtRoot_labelText label dot
  | @cons l ls s t label rest ih =>
      have hrest : ∀ m ∈ ls, m ≠ [] := fun m hm => hls m (by simp [hm])
      rw [List.append_assoc, List.cons_append, endsAtRoot_labelText label, endsAtRoot_dot (by simp [rest.ne_nil hrest]), ih hrest]

theorem Name.labels_ne_nil (n : Name) : ∀ l ∈ n.labels, l ≠ [] := by
  rintro l hl rfl
  exact absurd (n.isName.1 [] hl).1 (by simp)

theorem LabelsText.readFileName {n : Name} {t : Text} (h : LabelsText n.labels t) (origin : Option Name) :
    readFileName origin (t ++ ['.']) = some n := by
  refine readFileName_absolute (h.presentationLabels n.labels_ne_nil (.inr rfl)) (h.endsAtRoot n.labels_ne_nil ['.']) ?_ origin
  have hne := h.ne_nil n.labels_ne_nil
  intro e
  exact hne (by simpa using e)

theorem LabelsText.readFileName_relative {n origin : Name} {labels : List (List UInt8)} {t : Text} (h : LabelsText labels t)
    (hat : t ≠ ['@']) (hn : n.labels = labels ++ origin.labels) : Rfc1035.readFileName (some origin) t = some n := by
  have hls : ∀ l ∈ labels, l ≠ [] := fun l hl => n.labels_ne_nil l (hn ▸ List.mem_append_left _ hl)
  have hread := h.presentationLabels hls (.inl rfl)
  have hroot := h.endsAtRoot hls []
  rw [List.append_nil] at hread hroot
  exact Rfc1035.readFileName_relative hread hroot hat hn

theorem LabelText.asBytes_eq {l : List UInt8} {s : Text} (h : LabelText l s) (hs : '\\' ∉ s) : asBytes s = l := by
  induction h with
  | nil => rfl
  | cons octet rest ih =>
      rw [List.mem_append, not_or] at hs
      rw [asBytes_append, ih hs.2]
      cases octet with
      | @plain c h =>
          have hprint : isPrintable c = true := by
            simp only [isPlain, Bool.and_eq_true] at h
            exact h.1.1.1
          rw [asBytes_singleton hprint]
          rfl
      | escaped => simp at hs
      | decimal => simp at hs

theorem readDecimal_natText {n max : ℕ} (h : n ≤ max) : readDecimal max ⟨false, natText n⟩ = some n := by
  have hne : natText n ≠ [] := Nat.toDigits_ne_nil
  rw [readDecimal, digitsValue_natText, if_pos ⟨rfl, hne, List.all_eq_true.2 fun c hc => isAsciiDigit_of_mem_natText hc, h⟩]

theorem charStringFrom_plain {c : Char} (h : isPrintable c = true) (hslash : c ≠ '\\') (t : Text) :
    charStringFrom (c :: t) = (charStringFrom t).map (UInt8.ofNat c.toNat :: ·) := by
  rw [charStringFrom.eq_def]
  split <;> simp_all

theorem charStringFrom_escaped {c : Char} (h : isPrintable c = true) (hdigit : isAsciiDigit c = false) (t : Text) :
    charStringFrom ('\\' :: c :: t) = (charStringFrom t).map (UInt8.ofNat c.toNat :: ·) := by
  rw [charStringFrom.eq_def]
  simp [h, hdigit]

theorem charStringFrom_decimal {d₁ d₂ d₃ : Char} (h₁ : isAsciiDigit d₁ = true) (h₂ : isAsciiDigit d₂ = true)
    (h₃ : isAsciiDigit d₃ = true) (hle : 100 * digitValue d₁ + 10 * digitValue d₂ + digitValue d₃ ≤ 255) (t : Text) :
    charStringFrom ('\\' :: d₁ :: d₂ :: d₃ :: t) = (charStringFrom t).map
      (UInt8.ofNat (100 * digitValue d₁ + 10 * digitValue d₂ + digitValue d₃) :: ·) := by
  rw [charStringFrom.eq_def]
  simp [h₁, h₂, h₃, hle]

/-- An entry that is a record, whatever owner and TTL stand before it. -/
def IsRecord (origin : Name) (line : Line) (r : ResourceRecord) : Prop :=
  ∀ context : Context, context.origin = some origin →
    ∃ context', readLine context line = some (context', some r) ∧ context'.origin = some origin

theorem isRecord_of_fields {origin owner : Name} {name mnemonic : Text} {ttl : ℕ} {fields : List Field} {rtype : Rtype}
    {data : Rdata} (hdollar : name.head? ≠ some '$') (howner : readFileName (some origin) name = some owner)
    (httl : ttl ≤ maxTtl) (htype : Rtype.mnemonics.lookup (toAsciiLowercase mnemonic) = some rtype)
    (hdata : readRdata (some origin) rtype fields = some data) :
    IsRecord origin ⟨false, ⟨false, name⟩ :: ⟨false, natText ttl⟩ :: ⟨false, lit "IN"⟩ :: ⟨false, mnemonic⟩ :: fields⟩
      ⟨owner, ttl, data⟩ := by
  intro context horigin
  have hin : toAsciiLowercase (lit "IN") = lit "in" := by decide
  have hread : readRecord context owner (⟨false, natText ttl⟩ :: ⟨false, lit "IN"⟩ :: ⟨false, mnemonic⟩ :: fields) =
      some ({ context with owner := some owner, ttl := some ttl }, ⟨owner, ttl, data⟩) := by
    rw [readRecord, readTtl, readDecimal_natText httl]
    simp only [word_unquoted, Option.map_some, hin, if_true, Option.some_or, Option.bind_eq_bind, Option.bind_some, htype,
      horigin, hdata]
  refine ⟨{ context with owner := some owner, ttl := some ttl }, ?_, horigin⟩
  rw [readLine]
  simp only [Bool.false_eq_true, if_false, word_unquoted, hdollar, horigin, howner, Option.bind_eq_bind, Option.bind_some,
    hread, Option.map_some]

/-- A text of fields that rdata is read from. -/
def ReadsRdata (origin : Name) (rtype : Rtype) (t : Text) (data : Rdata) : Prop :=
  ∃ fields : List Field, fields ≠ [] ∧ (∀ f ∈ fields, f.IsWritten) ∧ t = join [' '] (fields.map Field.written) ∧
    readRdata (some origin) rtype fields = some data

theorem readsRdata_words {origin : Name} {rtype : Rtype} {data : Rdata} {ts : List Text} (hne : ts ≠ [])
    (hts : ∀ t ∈ ts, Field.IsWritten ⟨false, t⟩) (h : readRdata (some origin) rtype (ts.map (⟨false, ·⟩)) = some data) :
    ReadsRdata origin rtype (join [' '] ts) data := by
  refine ⟨ts.map (⟨false, ·⟩), by simpa using hne, fun f hf => ?_, ?_, h⟩
  · obtain ⟨t, ht, rfl⟩ := List.mem_map.1 hf
    exact hts t ht
  · rw [List.map_map]
    exact congrArg _ (List.map_id ts).symm

theorem readsRdata_word {origin : Name} {rtype : Rtype} {data : Rdata} {t : Text} (ht : Field.IsWritten ⟨false, t⟩)
    (h : readRdata (some origin) rtype [⟨false, t⟩] = some data) : ReadsRdata origin rtype t data :=
  ⟨[⟨false, t⟩], by simp, by simpa using ht, by simp [join, Field.written], h⟩

theorem isWritten_natText (n : ℕ) : Field.IsWritten ⟨false, natText n⟩ := by
  refine ⟨isFieldText_of_all fun c hc => ?_, fun _ => Nat.toDigits_ne_nil⟩
  have hdigit := isAsciiDigit_of_mem_natText hc
  have hprint : isPrintable c = true := by
    simp only [isAsciiDigit, Bool.and_eq_true, decide_eq_true_eq, show '0'.toNat = 48 from rfl, show '9'.toNat = 57 from rfl] at hdigit
    simp only [isPrintable, Bool.and_eq_true, decide_eq_true_eq]
    omega
  have hne : ∀ d : Char, isAsciiDigit d = false → c ≠ d := by
    rintro d hd rfl
    rw [hd] at hdigit
    cases hdigit
  simp [isInner, Scanner.endsField, hprint, hne '"' rfl, hne '\\' rfl, hne ' ' rfl, hne '\t' rfl, hne '\n' rfl, hne ';' rfl,
    hne '(' rfl, hne ')' rfl]

theorem ReadsRdata.exists_line {origin owner : Name} {rtype : Rtype} {t : Text} {data : Rdata} (h : ReadsRdata origin rtype t data)
    {name mnemonic : Text} {ttl : ℕ} (hname : Field.IsWritten ⟨false, name⟩) (hdollar : name.head? ≠ some '$')
    (howner : readFileName (some origin) name = some owner) (httl : ttl ≤ maxTtl)
    (hmnemonic : Field.IsWritten ⟨false, mnemonic⟩) (htype : Rtype.mnemonics.lookup (toAsciiLowercase mnemonic) = some rtype) :
    ∃ line, Scans (name ++ ['\t'] ++ natText ttl ++ lit "\tIN\t" ++ mnemonic ++ ['\t'] ++ t ++ ['\n']) [line] ∧
      IsRecord origin line ⟨owner, ttl, data⟩ := by
  obtain ⟨fields, hne, hfields, rfl, hdata⟩ := h
  refine ⟨_, ?_, isRecord_of_fields hdollar howner httl htype hdata⟩
  have hclass : Field.IsWritten ⟨false, lit "IN"⟩ := ⟨rfl, fun _ => by decide⟩
  have hscan := @scans_fields [⟨false, name⟩, ⟨false, natText ttl⟩, ⟨false, lit "IN"⟩, ⟨false, mnemonic⟩] fields
    (by simp [hname, isWritten_natText, hclass, hmnemonic]) hfields hne
  have e : lit "\tIN\t" = ['\t'] ++ lit "IN" ++ ['\t'] := by decide
  rw [e]
  simpa [Field.written] using hscan

theorem readLines_records {origin : Name} {lines : List Line} {rs : List ResourceRecord}
    (h : List.Forall₂ (IsRecord origin) lines rs) {context : Context} (hc : context.origin = some origin) :
    readLines context lines = some rs := by
  induction h generalizing context with
  | nil => rfl
  | cons hr _ ih =>
      obtain ⟨context', hread, hc'⟩ := hr context hc
      simp only [readLines, hread, Option.bind_eq_bind, Option.bind_some, ih hc', Option.map_some, Option.toList_some,
        List.singleton_append]

theorem readLines_origin {context : Context} {n : Name} {t : Text} (h : readFileName context.origin t = some n)
    (lines : List Line) : readLines context (⟨false, [⟨false, lit "$ORIGIN"⟩, ⟨false, t⟩]⟩ :: lines) =
      readLines { context with origin := some n } lines := by
  have hline : readLine context ⟨false, [⟨false, lit "$ORIGIN"⟩, ⟨false, t⟩]⟩ =
      some ({ context with origin := some n }, none) := by
    simp only [readLine, word_unquoted, Option.bind_eq_bind, Option.bind_some, show (lit "$ORIGIN").head? = some '$' from rfl,
      if_true, Bool.false_eq_true, if_false, h, Option.map_some]
  rw [readLines, hline, Option.bind_eq_bind, Option.bind_some]
  simp

theorem readLines_ttl {context : Context} {ttl : ℕ} (h : ttl ≤ maxTtl) (lines : List Line) :
    readLines context (⟨false, [⟨false, lit "$TTL"⟩, ⟨false, natText ttl⟩]⟩ :: lines) =
      readLines { context with defaultTtl := some ttl } lines := by
  have hline : readLine context ⟨false, [⟨false, lit "$TTL"⟩, ⟨false, natText ttl⟩]⟩ =
      some ({ context with defaultTtl := some ttl }, none) := by
    simp only [readLine, word_unquoted, Option.bind_eq_bind, Option.bind_some, show (lit "$TTL").head? = some '$' from rfl,
      show lit "$TTL" ≠ lit "$ORIGIN" by decide, if_true, Bool.false_eq_true, if_false, readDecimal_natText h, Option.map_some]
  rw [readLines, hline, Option.bind_eq_bind, Option.bind_some]
  simp

/-! ### Presentation of names -/

/-- An octet of a name: host octets stand for themselves, others are written as decimals. -/
def octetPresentation (b : UInt8) : Text :=
  if isHostOctet b then [Char.ofNat b.toNat]
  else ['\\', Char.ofNat (48 + b.toNat / 100), Char.ofNat (48 + b.toNat / 10 % 10), Char.ofNat (48 + b.toNat % 10)]

/-- A name without the dot of the root, which alone is that dot. -/
def namePresentation (n : Name) : Text :=
  if n.labels = [] then ['.'] else join ['.'] (n.labels.map (·.flatMap octetPresentation))

theorem octetText_presentation (b : UInt8) : OctetText b (octetPresentation b) ∧
    (isHostOctet b = true → '\\' ∉ octetPresentation b) := by
  have hb := b.toNat_lt
  unfold octetPresentation
  split
  · rename_i hhost
    have hc : (Char.ofNat b.toNat).toNat = b.toNat := toNat_ofNat hb
    have hn : (48 ≤ b.toNat ∧ b.toNat ≤ 57) ∨ (65 ≤ b.toNat ∧ b.toNat ≤ 90) ∨ (97 ≤ b.toNat ∧ b.toNat ≤ 122) ∨
        b.toNat = 45 ∨ b.toNat = 95 := by
      simpa [isHostOctet, or_assoc] using hhost
    have hne : ∀ {c : Char}, c.toNat < 45 ∨ c.toNat = 46 ∨ c.toNat = 92 → Char.ofNat b.toNat ≠ c := by
      intro c h e
      rw [← e, hc] at h
      omega
    have hplain : isPlain (Char.ofNat b.toNat) = true := by
      have hprint : isPrintable (Char.ofNat b.toNat) = true := by
        simp only [isPrintable, hc, Bool.and_eq_true, decide_eq_true_eq]
        omega
      simp [isPlain, hprint, hne (c := ' ') (.inl (by decide)), hne (c := '.') (.inr (.inl rfl)),
        hne (c := '\\') (.inr (.inr rfl))]
    have hoctet := OctetText.plain hplain
    rw [hc, UInt8.ofNat_toNat] at hoctet
    exact ⟨hoctet, fun _ => by simpa using (hne (c := '\\') (.inr (.inr rfl))).symm⟩
  · rename_i hhost
    have hx := digit_ofNat (n := b.toNat / 100) (by omega)
    have hy := digit_ofNat (n := b.toNat / 10 % 10) (by omega)
    have hz := digit_ofNat (n := b.toNat % 10) (by omega)
    have hvalue : 100 * (b.toNat / 100) + 10 * (b.toNat / 10 % 10) + b.toNat % 10 = b.toNat := by omega
    have hoctet := OctetText.decimal hx.1 hy.1 hz.1 (by rw [hx.2, hy.2, hz.2, hvalue]; omega)
    rw [hx.2, hy.2, hz.2, hvalue, UInt8.ofNat_toNat] at hoctet
    exact ⟨hoctet, fun h => absurd h hhost⟩

theorem labelText_presentation (l : List UInt8) : LabelText l (l.flatMap octetPresentation) := by
  induction l with
  | nil => exact .nil
  | cons b l ih => exact .cons (octetText_presentation b).1 ih

theorem labelsText_presentation {ls : List (List UInt8)} (hne : ls ≠ []) :
    LabelsText ls (join ['.'] (ls.map (·.flatMap octetPresentation))) := by
  induction ls with
  | nil => exact absurd rfl hne
  | cons l ls ih =>
      cases ls with
      | nil =>
          have h := LabelsText.single (labelText_presentation l)
          simpa [join] using h
      | cons m ls =>
          have h := LabelsText.cons (labelText_presentation l) (ih (by simp))
          simpa [join, List.intercalate] using h

theorem displays_presentation (n : Name) : Displays n (namePresentation n) := by
  unfold namePresentation
  split
  · rename_i hroot
    exact .inr ⟨hroot, .inr rfl⟩
  · rename_i hne
    exact .inl (labelsText_presentation hne)

theorem targetText_presentation (n : Name) : TargetText n (namePresentation n) := by
  unfold namePresentation
  split
  · rename_i hroot
    exact ⟨.inl ⟨hroot, rfl⟩, fun _ => by decide⟩
  · rename_i hne
    refine ⟨.inr ⟨_, labelsText_presentation hne, .inl rfl⟩, fun hhost hmem => ?_⟩
    rcases mem_join hmem with hmem | ⟨t, ht, hmem⟩
    · exact absurd hmem (by decide)
    · obtain ⟨l, hl, rfl⟩ := List.mem_map.1 ht
      obtain ⟨b, hb, hmem⟩ := List.mem_flatMap.1 hmem
      exact (octetText_presentation b).2 (hhost l hl b hb) hmem

end Rfc1035
