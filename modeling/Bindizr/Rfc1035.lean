import Bindizr.Ip

/-! # Names and resource records on the wire

A library for the wire format of RFC 1035.  It names nothing of the service.

A name is a list of labels that keeps the limits of the format (`Name`): labels of 1 to 63
octets, and at most 255 octets with the length octets and the root.  The presentation form of
a name (section 5.1) separates labels by dots and escapes an octet as a backslash and three
digits, any other character by a backslash (`presentationLabels`).  A resource record is
composed as its owner, type, class, TTL and length-prefixed rdata, with names uncompressed
(`ResourceRecord.octets`).  A message is read from a position on, and names in it may point to
earlier positions (`readName`). -/

namespace Rfc1035

open Bindizr (Text asBytes byteLen isAsciiDigit digitValue lowerOctet Ipv4Addr Ipv6Addr ipv4Octets ipv6Octets
  ipv6Octets_injective)

/-! ### Names -/

/-- The octets of labels on the wire, with their length octets and the root. -/
def labelsLen (labels : List (List UInt8)) : ℕ := (labels.map fun l => l.length + 1).sum + 1

/-- Labels that form a name. -/
def IsName (labels : List (List UInt8)) : Prop :=
  (∀ l ∈ labels, 1 ≤ l.length ∧ l.length ≤ 63) ∧ labelsLen labels ≤ 255

instance (labels : List (List UInt8)) : Decidable (IsName labels) := inferInstanceAs (Decidable (_ ∧ _))

/-- An absolute domain name. -/
@[ext]
structure Name where
  labels : List (List UInt8)
  isName : IsName labels

namespace Name

instance : DecidableEq Name := fun a b => decidable_of_iff (a.labels = b.labels) (Name.ext_iff).symm

def root : Name := ⟨[], by simp [IsName, labelsLen]⟩

/-- The octets a name takes. -/
def len (n : Name) : ℕ := labelsLen n.labels

theorem len_le (n : Name) : n.len ≤ 255 := n.isName.2

def octets (n : Name) : List UInt8 := n.labels.flatMap (fun l => UInt8.ofNat l.length :: l) ++ [0]

theorem length_octets (n : Name) : n.octets.length = n.len := by
  simp [octets, len, labelsLen, List.length_flatMap]

theorem labels_eq_of_octets {ls ms : List (List UInt8)} (hl : ∀ l ∈ ls, 1 ≤ l.length ∧ l.length ≤ 63)
    (hm : ∀ l ∈ ms, 1 ≤ l.length ∧ l.length ≤ 63)
    (h : ls.flatMap (fun l => UInt8.ofNat l.length :: l) ++ [0] = ms.flatMap (fun l => UInt8.ofNat l.length :: l) ++ [0]) :
    ls = ms := by
  have hlen : ∀ {k : ℕ}, k ≤ 63 → (UInt8.ofNat k).toNat = k := fun hk => by simp; omega
  have hroot : ∀ {l : List UInt8}, 1 ≤ l.length ∧ l.length ≤ 63 → UInt8.ofNat l.length ≠ 0 := by
    intro l ⟨h1, h2⟩ e
    have e := congrArg UInt8.toNat e
    rw [hlen h2, UInt8.toNat_zero] at e
    omega
  induction ls generalizing ms with
  | nil =>
      cases ms with
      | nil => rfl
      | cons m ms =>
          simp only [List.flatMap_nil, List.nil_append, List.flatMap_cons, List.cons_append, List.cons.injEq] at h
          exact absurd h.1.symm (hroot (hm m (by simp)))
  | cons l ls ih =>
      cases ms with
      | nil =>
          simp only [List.flatMap_nil, List.nil_append, List.flatMap_cons, List.cons_append, List.cons.injEq] at h
          exact absurd h.1 (hroot (hl l (by simp)))
      | cons m ms =>
          simp only [List.flatMap_cons, List.cons_append, List.append_assoc, List.cons.injEq] at h
          have e := congrArg UInt8.toNat h.1
          rw [hlen (hl l (by simp)).2, hlen (hm m (by simp)).2] at e
          obtain ⟨rfl, hrest⟩ := List.append_inj h.2 e
          rw [ih (fun k hk => hl k (by simp [hk])) (fun k hk => hm k (by simp [hk])) hrest]

theorem octets_injective : Function.Injective octets := fun n m h =>
  Name.ext (labels_eq_of_octets n.isName.1 m.isName.1 h)

end Name

/-! ### Presentation form -/

/-- Whether a character stands for itself in a name. -/
def isPrintable (c : Char) : Bool := 32 ≤ c.toNat && c.toNat ≤ 126

theorem toNat_lt_of_isPrintable {c : Char} (h : isPrintable c = true) : c.toNat < 128 := by
  simp only [isPrintable, Bool.and_eq_true, decide_eq_true_eq] at h
  omega

/-- The labels a text denotes; `label` is what was read of the current one. -/
def presentationLabelsFrom : Text → List UInt8 → Option (List (List UInt8))
  | [], [] => some []
  | [], label => some [label]
  | '.' :: t, label => if label = [] then none else (presentationLabelsFrom t []).map (label :: ·)
  | '\\' :: c :: t, label =>
      if isAsciiDigit c then
        match t with
        | d :: e :: t =>
            let n := 100 * digitValue c + 10 * digitValue d + digitValue e
            if isAsciiDigit d && isAsciiDigit e && n ≤ 255 then
              presentationLabelsFrom t (label ++ [UInt8.ofNat n])
            else none
        | _ => none
      else if isPrintable c then presentationLabelsFrom t (label ++ [UInt8.ofNat c.toNat])
      else none
  | ['\\'], _ => none
  | c :: t, label =>
      if isPrintable c then presentationLabelsFrom t (label ++ [UInt8.ofNat c.toNat]) else none

theorem presentationLabelsFrom_dot {t : Text} {label : List UInt8} (h : label ≠ []) :
    presentationLabelsFrom ('.' :: t) label = (presentationLabelsFrom t []).map (label :: ·) := by
  rw [presentationLabelsFrom, if_neg h]

theorem presentationLabelsFrom_end {label : List UInt8} (h : label ≠ []) :
    presentationLabelsFrom [] label = some [label] := by
  cases label with
  | nil => exact absurd rfl h
  | cons b bs => rfl

theorem presentationLabelsFrom_escape {c : Char} {t : Text} {label : List UInt8} (h : isAsciiDigit c = false)
    (hp : isPrintable c = true) :
    presentationLabelsFrom ('\\' :: c :: t) label = presentationLabelsFrom t (label ++ [UInt8.ofNat c.toNat]) := by
  rw [presentationLabelsFrom.eq_def]
  simp [h, hp]

theorem presentationLabelsFrom_plain {c : Char} {t : Text} {label : List UInt8} (hdot : c ≠ '.')
    (hslash : c ≠ '\\') :
    presentationLabelsFrom (c :: t) label =
      if isPrintable c then presentationLabelsFrom t (label ++ [UInt8.ofNat c.toNat]) else none := by
  rw [presentationLabelsFrom.eq_def]
  split <;> simp_all

/-- The labels a text denotes. -/
def presentationLabels (t : Text) : Option (List (List UInt8)) := presentationLabelsFrom t []

/-- Whether a label begins with an escaped bracket, the form of the bit-string labels of RFC 2673.
The flag says that a label begins here. -/
def hasBitString : Bool → Text → Bool
  | _, [] => false
  | _, '.' :: t => hasBitString true t
  | start, '\\' :: c :: t => start && c == '[' || hasBitString false t
  | _, _ :: t => hasBitString false t

theorem hasBitString_escape {start : Bool} {c : Char} {t : Text} (h : c ≠ '[') :
    hasBitString start ('\\' :: c :: t) = hasBitString false t := by
  simp [hasBitString, h]

theorem hasBitString_plain {start : Bool} {c : Char} {t : Text} (hdot : c ≠ '.') (hslash : c ≠ '\\') :
    hasBitString start (c :: t) = hasBitString false t := by
  rw [hasBitString.eq_def]
  split <;> simp_all

/-! ### Resource records -/

/-- The rdata of the types in use; `txt` and its octets stand for any octets. -/
inductive Rdata where
  | a (addr : Ipv4Addr)
  | ns (name : Name)
  | cname (name : Name)
  | soa (mname rname : Name) (serial refresh retry expire minimum : ℕ)
  | ptr (name : Name)
  | mx (preference : ℕ) (exchange : Name)
  | txt (octets : List UInt8)
  | aaaa (addr : Ipv6Addr)
  | srv (priority weight port : ℕ) (target : Name)
  deriving DecidableEq

structure ResourceRecord where
  owner : Name
  ttl : ℕ
  data : Rdata
  deriving DecidableEq

/-- The last `n` octets of a number, most significant first. -/
def bigEndian (n value : ℕ) : List UInt8 :=
  (List.range n).map fun i => UInt8.ofNat (value / 256 ^ (n - 1 - i))

theorem length_bigEndian (n value : ℕ) : (bigEndian n value).length = n := by simp [bigEndian]

theorem bigEndian_succ (n value : ℕ) :
    bigEndian (n + 1) value = bigEndian n (value / 256) ++ [UInt8.ofNat value] := by
  rw [bigEndian, bigEndian, List.range_succ, List.map_append]
  congr 1
  · refine List.map_congr_left fun i hi => ?_
    have hi := List.mem_range.1 hi
    have e : n + 1 - 1 - i = n - 1 - i + 1 := by omega
    rw [e, pow_succ', Nat.div_div_eq_div_mul]
  · simp

theorem foldl_bigEndian (n value : ℕ) :
    (bigEndian n value).foldl (fun v b => 256 * v + b.toNat) 0 = value % 256 ^ n := by
  induction n generalizing value with
  | zero => simp [bigEndian, Nat.mod_one]
  | succ n ih =>
      have e : (UInt8.ofNat value).toNat = value % 256 := rfl
      rw [bigEndian_succ, List.foldl_append, ih, pow_succ', Nat.mod_mul]
      simp only [List.foldl_cons, List.foldl_nil, e]
      omega

theorem bigEndian_inj {n a b : ℕ} (ha : a < 256 ^ n) (hb : b < 256 ^ n) (h : bigEndian n a = bigEndian n b) : a = b := by
  have e := congrArg (List.foldl (fun v (b : UInt8) => 256 * v + b.toNat) 0) h
  rwa [foldl_bigEndian, foldl_bigEndian, Nat.mod_eq_of_lt ha, Nat.mod_eq_of_lt hb] at e

namespace Rdata

def typeCode : Rdata → ℕ
  | .a _ => 1
  | .ns _ => 2
  | .cname _ => 5
  | .soa _ _ _ _ _ _ _ => 6
  | .ptr _ => 12
  | .mx _ _ => 15
  | .txt _ => 16
  | .aaaa _ => 28
  | .srv _ _ _ _ => 33

def octets : Rdata → List UInt8
  | .a addr => ipv4Octets addr
  | .ns n | .cname n | .ptr n => n.octets
  | .soa mname rname serial refresh retry expire minimum =>
      mname.octets ++ rname.octets ++ [serial, refresh, retry, expire, minimum].flatMap (bigEndian 4)
  | .mx preference exchange => bigEndian 2 preference ++ exchange.octets
  | .txt octets => octets
  | .aaaa addr => ipv6Octets addr
  | .srv priority weight port target => [priority, weight, port].flatMap (bigEndian 2) ++ target.octets

def isSoa : Rdata → Bool
  | .soa _ _ _ _ _ _ _ => true
  | _ => false

theorem length_octets_le {d : Rdata} (h : ∀ octets, d ≠ .txt octets) : d.octets.length ≤ 530 := by
  cases d with
  | txt octets => exact absurd rfl (h octets)
  | a addr => simp [octets, ipv4Octets]
  | aaaa addr => simp [octets, ipv6Octets]
  | ns n | cname n | ptr n =>
      have := n.len_le
      simp only [octets, n.length_octets]
      omega
  | mx preference n =>
      have := n.len_le
      simp only [octets, List.length_append, length_bigEndian, n.length_octets]
      omega
  | srv priority weight port n =>
      have := n.len_le
      simp only [octets, List.flatMap_cons, List.flatMap_nil, List.length_append, length_bigEndian,
        n.length_octets, List.length_nil]
      omega
  | soa mname rname serial refresh retry expire minimum =>
      have := mname.len_le
      have := rname.len_le
      simp only [octets, List.flatMap_cons, List.flatMap_nil, List.length_append, length_bigEndian,
        mname.length_octets, rname.length_octets, List.length_nil]
      omega

/-- Numbers that fit their fields, in rdata that is not an SOA. -/
def Fits : Rdata → Prop
  | .mx preference _ => preference < 65536
  | .srv priority weight port _ => priority < 65536 ∧ weight < 65536 ∧ port < 65536
  | .soa _ _ _ _ _ _ _ => False
  | _ => True

/-- The octets of rdata of one type tell it apart. -/
theorem octets_inj {d d' : Rdata} (ht : d.typeCode = d'.typeCode) (h : d.Fits) (h' : d'.Fits)
    (e : d.octets = d'.octets) : d = d' := by
  have hnum : ∀ {a b : ℕ} {s t : List UInt8}, a < 65536 → b < 65536 → bigEndian 2 a ++ s = bigEndian 2 b ++ t →
      a = b ∧ s = t := by
    intro a b s t ha hb e
    obtain ⟨e1, e2⟩ := List.append_inj e (by simp [length_bigEndian])
    exact ⟨bigEndian_inj ha hb e1, e2⟩
  cases d with
  | a addr =>
      cases d' <;> simp only [typeCode, Nat.reduceEqDiff] at ht
      rw [List.ofFn_injective e]
  | ns n =>
      cases d' <;> simp only [typeCode, Nat.reduceEqDiff] at ht
      rw [Name.octets_injective e]
  | cname n =>
      cases d' <;> simp only [typeCode, Nat.reduceEqDiff] at ht
      rw [Name.octets_injective e]
  | ptr n =>
      cases d' <;> simp only [typeCode, Nat.reduceEqDiff] at ht
      rw [Name.octets_injective e]
  | soa => exact h.elim
  | mx preference n =>
      cases d' <;> simp only [typeCode, Nat.reduceEqDiff] at ht
      obtain ⟨rfl, e'⟩ := hnum h h' e
      rw [Name.octets_injective e']
  | txt octets =>
      cases d' <;> simp only [typeCode, Nat.reduceEqDiff] at ht
      exact congrArg _ e
  | aaaa addr =>
      cases d' <;> simp only [typeCode, Nat.reduceEqDiff] at ht
      rw [ipv6Octets_injective e]
  | srv priority weight port n =>
      cases d' <;> simp only [typeCode, Nat.reduceEqDiff] at ht
      simp only [octets, List.flatMap_cons, List.flatMap_nil, List.append_nil, List.append_assoc] at e
      obtain ⟨h1, h2, h3⟩ := h
      obtain ⟨h1', h2', h3'⟩ := h'
      obtain ⟨rfl, e1⟩ := hnum h1 h1' e
      obtain ⟨rfl, e2⟩ := hnum h2 h2' e1
      obtain ⟨rfl, e3⟩ := hnum h3 h3' e2
      rw [Name.octets_injective e3]

end Rdata

namespace ResourceRecord

def octets (r : ResourceRecord) : List UInt8 :=
  r.owner.octets ++ bigEndian 2 r.data.typeCode ++ bigEndian 2 1 ++ bigEndian 4 r.ttl ++
    bigEndian 2 r.data.octets.length ++ r.data.octets

theorem length_octets (r : ResourceRecord) : r.octets.length = r.owner.len + 10 + r.data.octets.length := by
  simp only [octets, List.length_append, length_bigEndian, r.owner.length_octets]

end ResourceRecord

/-! ### Letter case

Names are compared without regard to the case of ASCII letters; the names of a record are its
owner and those in its rdata. -/

def Name.lower (n : Name) : Name where
  labels := n.labels.map (·.map lowerOctet)
  isName := by
    have h := n.isName
    unfold IsName labelsLen at h ⊢
    simp only [List.map_map, Function.comp_def, List.length_map, List.forall_mem_map]
    exact h

@[simp] theorem Name.lower_labels (n : Name) : n.lower.labels = n.labels.map (·.map lowerOctet) := rfl

namespace Rdata

/-- Rdata with its names in lower case. -/
def lower : Rdata → Rdata
  | .ns n => .ns n.lower
  | .cname n => .cname n.lower
  | .ptr n => .ptr n.lower
  | .mx preference exchange => .mx preference exchange.lower
  | .srv priority weight port target => .srv priority weight port target.lower
  | .soa mname rname serial refresh retry expire minimum =>
      .soa mname.lower rname.lower serial refresh retry expire minimum
  | d => d

def names : Rdata → List Name
  | .ns n | .cname n | .ptr n | .mx _ n | .srv _ _ _ n => [n]
  | .soa mname rname _ _ _ _ _ => [mname, rname]
  | _ => []

theorem names_lower (d : Rdata) : d.lower.names = d.names.map Name.lower := by cases d <;> rfl

end Rdata

/-- A record with its names in lower case. -/
def ResourceRecord.lower (r : ResourceRecord) : ResourceRecord := ⟨r.owner.lower, r.ttl, r.data.lower⟩

/-! ### Reading -/

/-- A read from a message at a position: what was read, and the position after it. -/
abbrev Read (α : Type) := List UInt8 → ℕ → Option (α × ℕ)

/-- The octets at a position, when there are so many. -/
def readOctets (n : ℕ) : Read (List UInt8) := fun data pos =>
  if pos + n ≤ data.length then some ((data.drop pos).take n, pos + n) else none

/-- A number of `n` octets, most significant first. -/
def readNat (n : ℕ) : Read ℕ := fun data pos =>
  (readOctets n data pos).map fun (octets, next) => (octets.foldl (fun v b => 256 * v + b.toNat) 0, next)

/-- The labels of a name, following pointers to earlier positions; `fuel` bounds the steps. -/
def readLabels (data : List UInt8) : ℕ → ℕ → Option (List (List UInt8) × ℕ)
  | 0, _ => none
  | fuel + 1, pos => do
      let (n, next) ← readNat 1 data pos
      if n = 0 then some ([], next)
      else if n ≤ 63 then do
        let (label, next) ← readOctets n data next
        let (labels, next) ← readLabels data fuel next
        some (label :: labels, next)
      else if 192 ≤ n then do
        let (low, next) ← readNat 1 data next
        let target := 256 * (n - 192) + low
        if target < pos then do
          let (labels, _) ← readLabels data fuel target
          some (labels, next)
        else none
      else none

def readName : Read Name := fun data pos => do
  let (labels, next) ← readLabels data (data.length + 1) pos
  if h : IsName labels then some (⟨labels, h⟩, next) else none

end Rfc1035
