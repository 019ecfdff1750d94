import Bindizr.Text

/-! # IP addresses

`std::net::Ipv4Addr` and `std::net::Ipv6Addr`: `FromStr` and `Display`, which decide what an
`A` or `AAAA` value may be and how it is stored.  The readers follow the standard library's
parser: each takes a text, and gives what it read with the text left over, or nothing with
no text consumed.  An address is read back from its text (`parseIpv4_ipv4Text`,
`parseIpv6_ipv6Text`). -/

namespace Bindizr

abbrev Ipv4Addr := Fin 4 → UInt8

/-- An IPv6 address, as its 16-bit segments. -/
abbrev Ipv6Addr := Fin 8 → UInt16

/-! ### Reading -/

/-- `char::to_digit`, for radix 10 or 16. -/
def toDigit (radix : ℕ) (c : Char) : Option ℕ :=
  let v :=
    if isAsciiDigit c then some (digitValue c)
    else if 'a'.toNat ≤ c.toNat && c.toNat ≤ 'f'.toNat then some (c.toNat - 'a'.toNat + 10)
    else if 'A'.toNat ≤ c.toNat && c.toNat ≤ 'F'.toNat then some (c.toNat - 'A'.toNat + 10)
    else none
  v.filter (· < radix)

/-- `Parser::read_number`: at most `maxDigits` digits, with a value of at most `bound`. -/
def readNumber (radix maxDigits : ℕ) (allowZeroPrefix : Bool) (bound : ℕ) (t : Text) :
    Option (ℕ × Text) :=
  let digits := t.takeWhile fun c => (toDigit radix c).isSome
  let value := digits.foldl (fun n c => radix * n + (toDigit radix c).getD 0) 0
  if digits = [] ∨ maxDigits < digits.length then none
  else if !allowZeroPrefix && digits.head? == some '0' && decide (1 < digits.length) then none
  else if bound < value then none
  else some (value, t.drop digits.length)

/-- `Parser::read_separator`: the separator stands before every item but the first. -/
def readSeparated {α : Type} (sep : Char) (first : Bool) (read : Text → Option (α × Text))
    (t : Text) : Option (α × Text) :=
  if first then read t
  else
    match t with
    | c :: cs => if c = sep then read cs else none
    | [] => none

/-- One octet of a dotted address. -/
def readOctet (first : Bool) (t : Text) : Option (ℕ × Text) :=
  readSeparated '.' first (readNumber 10 3 false 255) t

def readIpv4Addr (t : Text) : Option (Ipv4Addr × Text) := do
  let (a, t) ← readOctet true t
  let (b, t) ← readOctet false t
  let (c, t) ← readOctet false t
  let (d, t) ← readOctet false t
  pure (fun i => UInt8.ofNat ([a, b, c, d].getD i 0), t)

/-- Two octets as one segment. -/
def segmentOf (hi lo : UInt8) : ℕ := 256 * hi.toNat + lo.toNat

/-- `read_groups`: up to `limit` groups, and whether a trailing IPv4 address was among them. -/
def readGroups : ℕ → Bool → Text → List ℕ × Bool × Text
  | 0, _, t => ([], false, t)
  | limit + 1, first, t =>
      match if 0 < limit then readSeparated ':' first readIpv4Addr t else none with
      | some (v4, t) => ([segmentOf (v4 0) (v4 1), segmentOf (v4 2) (v4 3)], true, t)
      | none =>
          match readSeparated ':' first (readNumber 16 4 true 65535) t with
          | some (group, t) =>
              let (groups, ipv4, t) := readGroups limit false t
              (group :: groups, ipv4, t)
          | none => ([], false, t)

def ofSegments (segments : List ℕ) : Ipv6Addr := fun i => UInt16.ofNat (segments.getD i 0)

def readIpv6Addr (t : Text) : Option (Ipv6Addr × Text) :=
  let (head, headIpv4, t) := readGroups 8 true t
  if head.length = 8 then some (ofSegments head, t)
  else if headIpv4 then none
  else
    match t with
    | ':' :: ':' :: t =>
        let (tail, _, t) := readGroups (7 - head.length) true t
        some (ofSegments (head ++ List.replicate (8 - head.length - tail.length) 0 ++ tail), t)
    | _ => none

/-- `str::parse::<Ipv4Addr>`: the whole text, which is at most 15 octets long. -/
def parseIpv4 (t : Text) : Option Ipv4Addr :=
  if 15 < byteLen t then none
  else
    match readIpv4Addr t with
    | some (addr, []) => some addr
    | _ => none

/-- `str::parse::<Ipv6Addr>`: the whole text. -/
def parseIpv6 (t : Text) : Option Ipv6Addr :=
  match readIpv6Addr t with
  | some (addr, []) => some addr
  | _ => none

/-! ### Writing -/

/-- `Display` of an IPv4 address. -/
def ipv4Text (addr : Ipv4Addr) : Text :=
  join ['.'] ((List.ofFn addr).map fun o => natText o.toNat)

/-- A segment in lower case hexadecimal, without leading zeros. -/
def segmentText (s : UInt16) : Text := Nat.toDigits 16 s.toNat

/-- A run of zero segments: where it starts and how long it is. -/
structure Span where
  start : ℕ
  len : ℕ
  deriving DecidableEq, Repr

/-- The loop that finds the longest run of zero segments, the first one among equals. -/
def longestZeros : List UInt16 → ℕ → Span → Span → Span
  | [], _, longest, _ => longest
  | s :: segments, i, longest, current =>
      if s = 0 then
        let current : Span := ⟨if current.len = 0 then i else current.start, current.len + 1⟩
        longestZeros segments (i + 1) (if longest.len < current.len then current else longest) current
      else longestZeros segments (i + 1) longest ⟨0, 0⟩

/-- `fmt_subslice`. -/
def segmentsText (segments : List UInt16) : Text := join [':'] (segments.map segmentText)

/-- `Ipv6Addr::to_ipv4_mapped`. -/
def toIpv4Mapped (addr : Ipv6Addr) : Option Ipv4Addr :=
  if (List.ofFn addr).take 6 = [0, 0, 0, 0, 0, 0xffff] then
    some fun i => UInt8.ofNat
      ([(addr 6).toNat / 256, (addr 6).toNat % 256, (addr 7).toNat / 256, (addr 7).toNat % 256].getD i 0)
  else none

/-- `Display` of an IPv6 address. -/
def ipv6Text (addr : Ipv6Addr) : Text :=
  match toIpv4Mapped addr with
  | some v4 => lit "::ffff:" ++ ipv4Text v4
  | none =>
      let segments := List.ofFn addr
      let zeros := longestZeros segments 0 ⟨0, 0⟩ ⟨0, 0⟩
      if 1 < zeros.len then
        segmentsText (segments.take zeros.start) ++ lit "::" ++
          segmentsText (segments.drop (zeros.start + zeros.len))
      else segmentsText segments

/-- The four octets of an `A` rdata. -/
def ipv4Octets (addr : Ipv4Addr) : List UInt8 := List.ofFn addr

/-- The sixteen octets of an `AAAA` rdata. -/
def ipv6Octets (addr : Ipv6Addr) : List UInt8 :=
  (List.ofFn addr).flatMap fun s => [UInt8.ofNat (s.toNat / 256), UInt8.ofNat (s.toNat % 256)]

/-! ### Reading what was written -/

theorem toDigit_digitChar {radix d : ℕ} (hr : radix ≤ 16) (hd : d < radix) :
    toDigit radix (Nat.digitChar d) = some d := by
  have h : ∀ r : Fin 17, ∀ d : Fin 16, d.val < r.val → toDigit r (Nat.digitChar d) = some d.val := by
    decide +kernel
  exact h ⟨radix, by omega⟩ ⟨d, by omega⟩ hd

theorem exists_digitChar_of_mem_toDigits {radix n : ℕ} (hr : 1 < radix) {c : Char} (h : c ∈ radix.toDigits n) :
    ∃ d < radix, c = Nat.digitChar d := by
  induction n using Nat.strong_induction_on with
  | _ n ih =>
      rw [Nat.toDigits_eq_if hr] at h
      split at h
      · rename_i hn
        exact ⟨n, hn, List.mem_singleton.1 h⟩
      · rename_i hn
        rcases List.mem_append.1 h with h | h
        · exact ih _ (Nat.div_lt_self (by omega) hr) h
        · exact ⟨n % radix, Nat.mod_lt _ (by omega), List.mem_singleton.1 h⟩

theorem foldl_toDigits {radix : ℕ} (hr : 1 < radix) (hr' : radix ≤ 16) (n : ℕ) :
    (radix.toDigits n).foldl (fun n c => radix * n + (toDigit radix c).getD 0) 0 = n := by
  induction n using Nat.strong_induction_on with
  | _ n ih =>
      rw [Nat.toDigits_eq_if hr]
      split
      · rename_i hn
        simp [toDigit_digitChar hr' hn]
      · rename_i hn
        rw [List.foldl_append, ih _ (Nat.div_lt_self (by omega) hr)]
        simp [toDigit_digitChar hr' (Nat.mod_lt n (by omega : radix > 0)), Nat.div_add_mod]

theorem readNumber_toDigits {radix maxDigits bound n : ℕ} {allowZeroPrefix : Bool} {rest : Text} (hr : 1 < radix)
    (hr' : radix ≤ 16) (hlen : (radix.toDigits n).length ≤ maxDigits)
    (hzero : allowZeroPrefix = true ∨ ((radix.toDigits n).head? = some '0' → (radix.toDigits n).length ≤ 1))
    (hbound : n ≤ bound) (hrest : ∀ c ∈ rest.head?, toDigit radix c = none) :
    readNumber radix maxDigits allowZeroPrefix bound (radix.toDigits n ++ rest) = some (n, rest) := by
  have hdigits : (radix.toDigits n ++ rest).takeWhile (fun c => (toDigit radix c).isSome) = radix.toDigits n := by
    rw [List.takeWhile_append_of_pos]
    · cases rest with
      | nil => simp
      | cons c rest => simp [hrest c rfl]
    · intro c hc
      obtain ⟨d, hd, rfl⟩ := exists_digitChar_of_mem_toDigits hr hc
      simp [toDigit_digitChar hr' hd]
  unfold readNumber
  simp only [hdigits, foldl_toDigits hr hr']
  rw [if_neg, if_neg, if_neg (by omega), List.drop_left]
  · rcases hzero with h | h
    · simp [h]
    · simp only [Bool.and_eq_true, beq_iff_eq, decide_eq_true_eq, not_and]
      intro h1
      have := h h1.2
      omega
  · rintro (h | h)
    · exact Nat.toDigits_ne_nil h
    · omega

theorem readNumber_eq_none {radix maxDigits bound : ℕ} {allowZeroPrefix : Bool} {t : Text}
    (h : ∀ c ∈ t.head?, toDigit radix c = none) : readNumber radix maxDigits allowZeroPrefix bound t = none := by
  have hdigits : t.takeWhile (fun c => (toDigit radix c).isSome) = [] := by
    cases t with
    | nil => rfl
    | cons c t => simp [h c rfl]
  unfold readNumber
  simp [hdigits]

theorem readOctet_natText (first : Bool) (o : UInt8) {rest : Text} (h : ∀ c ∈ rest.head?, toDigit 10 c = none) :
    readOctet first ((if first then [] else ['.']) ++ natText o.toNat ++ rest) = some (o.toNat, rest) := by
  have ho : o.toNat < 256 := o.toNat_lt
  have hzero : (natText o.toNat).head? = some '0' → (natText o.toNat).length ≤ 1 := by
    have : ∀ n : Fin 256, (natText n).head? = some '0' → (natText n).length ≤ 1 := by decide +kernel
    exact this ⟨o.toNat, ho⟩
  have hread : readNumber 10 3 false 255 (natText o.toNat ++ rest) = some (o.toNat, rest) :=
    readNumber_toDigits (by omega) (by omega) (Nat.toDigits_length 10 _ 3 (by omega) (by omega)) (.inr hzero)
      (by omega) h
  cases first with
  | true => simpa [readOctet, readSeparated] using hread
  | false => simpa [readOctet, readSeparated] using hread

theorem readIpv4Addr_ipv4Text (addr : Ipv4Addr) (rest : Text) (h : ∀ c ∈ rest.head?, toDigit 10 c = none) :
    readIpv4Addr (ipv4Text addr ++ rest) = some (addr, rest) := by
  have hdot : ∀ t : Text, ∀ c ∈ (['.'] ++ t).head?, toDigit 10 c = none := by
    intro t c hc
    cases hc
    decide
  have e : ipv4Text addr ++ rest = [] ++ natText (addr 0).toNat ++ (['.'] ++ (natText (addr 1).toNat ++
      (['.'] ++ (natText (addr 2).toNat ++ (['.'] ++ (natText (addr 3).toNat ++ rest)))))) := by
    simp [ipv4Text, List.ofFn_succ, join, List.intercalate]
  have h0 := readOctet_natText true (addr 0) (hdot (natText (addr 1).toNat ++
      (['.'] ++ (natText (addr 2).toNat ++ (['.'] ++ (natText (addr 3).toNat ++ rest))))))
  have h1 := readOctet_natText false (addr 1)
    (hdot (natText (addr 2).toNat ++ (['.'] ++ (natText (addr 3).toNat ++ rest))))
  have h2 := readOctet_natText false (addr 2) (hdot (natText (addr 3).toNat ++ rest))
  have h3 := readOctet_natText false (addr 3) h
  simp only [if_true, Bool.false_eq_true, if_false, List.append_assoc] at h0 h1 h2 h3
  rw [e]
  simp only [List.append_assoc, readIpv4Addr, h0, h1, h2, h3, Option.bind_eq_bind, Option.bind_some, Option.pure_def,
    Option.some.injEq, Prod.mk.injEq, and_true]
  funext i
  fin_cases i <;> simp

theorem length_natText_octet (o : UInt8) : byteLen (natText o.toNat) ≤ 3 := by
  have : ∀ n : Fin 256, byteLen (natText n) ≤ 3 := by decide +kernel
  exact this ⟨o.toNat, o.toNat_lt⟩

/-- **An IPv4 address** is read back from its text. -/
theorem parseIpv4_ipv4Text (addr : Ipv4Addr) : parseIpv4 (ipv4Text addr) = some addr := by
  have hlen : byteLen (ipv4Text addr) ≤ 15 := by
    have h0 := length_natText_octet (addr 0)
    have h1 := length_natText_octet (addr 1)
    have h2 := length_natText_octet (addr 2)
    have h3 := length_natText_octet (addr 3)
    have hdot : '.'.utf8Size = 1 := rfl
    simp only [ipv4Text, List.ofFn_succ, join, List.intercalate]
    simp [hdot]
    omega
  have hread := readIpv4Addr_ipv4Text addr [] (by simp)
  rw [List.append_nil] at hread
  rw [parseIpv4, if_neg (by omega), hread]

/-! ### IPv6 -/

theorem head?_dropWhile_append {p : Char → Bool} {u r : Text} {d : Char} (hu : d ∉ u)
    (hr : ∀ c ∈ r.head?, c ≠ d ∧ p c = false) : ∀ c ∈ ((u ++ r).dropWhile p).head?, c ≠ d := by
  induction u with
  | nil =>
      cases r with
      | nil => simp
      | cons c r =>
          have := hr c rfl
          simp [this.1, this.2]
  | cons x u ih =>
      simp only [List.mem_cons, not_or] at hu
      rw [List.cons_append, List.dropWhile_cons]
      split
      · exact ih hu.2
      · intro c hc
        cases hc
        exact Ne.symm hu.1

/-- No dot after the first number: not a dotted address. -/
theorem readIpv4Addr_eq_none {t : Text}
    (h : ∀ c ∈ (t.dropWhile fun c => (toDigit 10 c).isSome).head?, c ≠ '.') : readIpv4Addr t = none := by
  have hsecond : ∀ v r, readOctet true t = some (v, r) → readOctet false r = none := by
    intro v r hread
    have hr : r = t.dropWhile fun c => (toDigit 10 c).isSome := by
      simp only [readOctet, readSeparated, if_true, readNumber] at hread
      split at hread
      · cases hread
      split at hread
      · cases hread
      split at hread
      · cases hread
      cases hread
      calc t.drop (t.takeWhile fun c => (toDigit 10 c).isSome).length
          = ((t.takeWhile fun c => (toDigit 10 c).isSome) ++ t.dropWhile fun c => (toDigit 10 c).isSome).drop
              (t.takeWhile fun c => (toDigit 10 c).isSome).length := by rw [List.takeWhile_append_dropWhile]
        _ = _ := List.drop_left
    rw [← hr] at h
    cases r with
    | nil => rfl
    | cons c r => simp [readOctet, readSeparated, h c rfl]
  unfold readIpv4Addr
  cases hread : readOctet true t with
  | none => rfl
  | some vr =>
      obtain ⟨v, r⟩ := vr
      simp [hsecond v r hread]

theorem not_mem_segmentText {d : Char} (hd : toDigit 16 d = none) (s : UInt16) : d ∉ segmentText s := by
  intro h
  obtain ⟨n, hn, rfl⟩ := exists_digitChar_of_mem_toDigits (by omega) h
  rw [toDigit_digitChar (by omega) hn] at hd
  cases hd

theorem readNumber_segmentText (s : UInt16) {rest : Text} (h : ∀ c ∈ rest.head?, toDigit 16 c = none) :
    readNumber 16 4 true 65535 (segmentText s ++ rest) = some (s.toNat, rest) := by
  have hs : s.toNat < 65536 := s.toNat_lt
  exact readNumber_toDigits (by omega) (by omega) (Nat.toDigits_length 16 _ 4 (by omega) (by omega)) (.inl rfl)
    (by omega) h

/-- Groups as they follow one another in a text. -/
def groupsText : Bool → List UInt16 → Text
  | _, [] => []
  | first, s :: segments => (if first then [] else [':']) ++ segmentText s ++ groupsText false segments

theorem segmentsText_eq (segments : List UInt16) : segmentsText segments = groupsText true segments := by
  have h : ∀ s : UInt16, ∀ segments, join [':'] ((s :: segments).map segmentText) =
      segmentText s ++ groupsText false segments := by
    intro s segments
    induction segments generalizing s with
    | nil => simp [join, List.intercalate, groupsText]
    | cons s' segments ih =>
        have e : join [':'] ((s :: s' :: segments).map segmentText) =
            segmentText s ++ [':'] ++ join [':'] ((s' :: segments).map segmentText) := by
          simp [join, List.intercalate]
        rw [e, ih]
        simp [groupsText]
  cases segments with
  | nil => rfl
  | cons s segments =>
      rw [segmentsText, h]
      simp [groupsText]

/-- What no group can be read from: the end, and a double colon. -/
def EndsGroups (t : Text) : Prop := t = [] ∨ ∃ r, t = ':' :: ':' :: r

theorem EndsGroups.head {t : Text} (h : EndsGroups t) {radix : ℕ} (hr : radix ≤ 16) :
    ∀ c ∈ t.head?, c ≠ '.' ∧ toDigit radix c = none := by
  have hcolon : ∀ r : Fin 17, toDigit r ':' = none := by decide
  rcases h with rfl | ⟨r, rfl⟩
  · simp
  · intro c hc
    cases hc
    exact ⟨by decide, hcolon ⟨radix, by omega⟩⟩

theorem readSeparated_colon_eq_none {α : Type} {read : Text → Option (α × Text)} {first : Bool} {rest : Text}
    (hrest : EndsGroups rest) (hread : ∀ t, (∀ c ∈ t.head?, c = ':') → read t = none) :
    readSeparated ':' first read rest = none := by
  rcases hrest with rfl | ⟨r, rfl⟩
  · cases first with
    | true => exact hread [] (by simp)
    | false => rfl
  · cases first with
    | true => exact hread _ (by simp)
    | false => exact hread (':' :: r) (by simp)

theorem readSeparated_colon {α : Type} {read : Text → Option (α × Text)} {first : Bool} {t : Text} :
    readSeparated ':' first read ((if first then [] else [':']) ++ t) = read t := by
  cases first <;> rfl

theorem readGroups_groupsText (segments : List UInt16) {limit : ℕ} (first : Bool) {rest : Text}
    (hlimit : segments.length ≤ limit) (hrest : EndsGroups rest) :
    readGroups limit first (groupsText first segments ++ rest) = (segments.map (·.toNat), false, rest) := by
  have hcolon : ∀ radix, radix ≤ 16 → ∀ t : Text, (∀ c ∈ t.head?, c = ':') →
      ∀ c ∈ t.head?, toDigit radix c = none := by
    intro radix hr t ht c hc
    rw [ht c hc]
    exact (EndsGroups.head (.inr ⟨[], rfl⟩) hr ':' rfl).2
  induction segments generalizing limit first with
  | nil =>
      cases limit with
      | zero => rfl
      | succ limit =>
          have hnumber : readSeparated ':' first (readNumber 16 4 true 65535) rest = none :=
            readSeparated_colon_eq_none hrest fun t ht => readNumber_eq_none (hcolon 16 (by omega) t ht)
          have hv4 : readSeparated ':' first readIpv4Addr rest = none := by
            refine readSeparated_colon_eq_none hrest fun t ht => readIpv4Addr_eq_none ?_
            refine head?_dropWhile_append List.not_mem_nil fun c hc => ⟨?_, ?_⟩
            · rw [ht c hc]
              decide
            · simp [hcolon 10 (by omega) t ht c hc]
          simp [groupsText, readGroups, hnumber, hv4]
  | cons s segments ih =>
      obtain ⟨limit, rfl⟩ : ∃ n, limit = n + 1 := ⟨limit - 1, by simp at hlimit; omega⟩
      -- the next group, or the end of the groups
      have hnext : ∀ radix, radix ≤ 16 → ∀ c ∈ (groupsText false segments ++ rest).head?,
          c ≠ '.' ∧ toDigit radix c = none := by
        intro radix hr
        cases segments with
        | nil => exact hrest.head hr
        | cons s' segments =>
            intro c hc
            have : c = ':' := by simpa [groupsText] using hc.symm
            rw [this]
            exact EndsGroups.head (.inr ⟨[], rfl⟩) hr ':' rfl
      have hv4 : readIpv4Addr (segmentText s ++ (groupsText false segments ++ rest)) = none := by
        refine readIpv4Addr_eq_none (head?_dropWhile_append (not_mem_segmentText (by decide) s) fun c hc => ?_)
        have := hnext 10 (by omega) c hc
        exact ⟨this.1, by simp [this.2]⟩
      have hnumber := readNumber_segmentText s fun c hc => (hnext 16 (by omega) c hc).2
      have ih := ih false (Nat.le_of_succ_le_succ hlimit)
      simp only [groupsText, List.append_assoc, readGroups, readSeparated_colon, hv4, hnumber, ih, ite_self,
        List.map_cons]

/-! ### Runs of zeros -/

/-- A span of zero segments. -/
def IsZeros (segments : List UInt16) (z : Span) : Prop :=
  ∀ j, z.start ≤ j → j < z.start + z.len → segments[j]? = some 0

theorem longestZeros_isZeros {all segments : List UInt16} {i : ℕ} {longest current : Span}
    (hsuffix : all.drop i = segments) (hlongest : IsZeros all longest) (hcurrent : IsZeros all current)
    (hend : current.len ≠ 0 → current.start + current.len = i) :
    IsZeros all (longestZeros segments i longest current) := by
  induction segments generalizing i longest current with
  | nil => exact hlongest
  | cons s segments ih =>
      have hs : all[i]? = some s := by
        have : (all.drop i)[0]? = some s := by rw [hsuffix]; rfl
        simpa using this
      have hnext : all.drop (i + 1) = segments := by
        rw [← List.tail_drop, hsuffix]
        rfl
      rw [longestZeros]
      split
      · rename_i hzero
        have hgrown : IsZeros all ⟨if current.len = 0 then i else current.start, current.len + 1⟩ := by
          intro j h1 h2
          by_cases hj : j = i
          · rw [hj, hs, hzero]
          · simp only at h1 h2
            split at h1
            · rename_i h
              simp only [h, if_true] at h2
              omega
            · rename_i h
              have := hend h
              simp only [h, if_false] at h2
              exact hcurrent j h1 (by omega)
        refine ih hnext ?_ hgrown fun _ => ?_
        · by_cases hlt : longest.len < current.len + 1
          · simpa only [hlt, if_true] using hgrown
          · simpa only [hlt, if_false] using hlongest
        · simp only
          split
          · omega
          · rename_i h
            have := hend h
            omega
      · exact ih hnext hlongest (fun j _ h => by simp at h) (fun h => absurd rfl h)

theorem take_zeros_drop {segments : List UInt16} {z : Span} (h : IsZeros segments z) (hlen : 0 < z.len) :
    segments.take z.start ++ List.replicate z.len 0 ++ segments.drop (z.start + z.len) = segments ∧
      z.start + z.len ≤ segments.length := by
  have hlast := h (z.start + z.len - 1) (by omega) (by omega)
  have hle : z.start + z.len - 1 < segments.length := (List.getElem?_eq_some_iff.1 hlast).1
  refine ⟨?_, by omega⟩
  have hmid : (segments.drop z.start).take z.len = List.replicate z.len 0 := by
    refine List.ext_getElem? fun j => ?_
    rw [List.getElem?_take, List.getElem?_replicate]
    split
    · rw [List.getElem?_drop]
      exact h _ (by omega) (by omega)
    · rfl
  rw [← hmid, List.append_assoc, ← List.drop_drop, List.take_append_drop, List.take_append_drop]

theorem ofSegments_toNat (addr : Ipv6Addr) : ofSegments ((List.ofFn addr).map (·.toNat)) = addr := by
  funext i
  simp only [ofSegments, List.getD_eq_getElem?_getD, List.getElem?_map, List.getElem?_ofFn, i.isLt, dite_true]
  simp

theorem readGroups_mapped (v4 : Ipv4Addr) : readGroups 7 true (lit "ffff:" ++ ipv4Text v4) =
    ([65535, segmentOf (v4 0) (v4 1), segmentOf (v4 2) (v4 3)], true, []) := by
  have e : lit "ffff:" ++ ipv4Text v4 = segmentText 65535 ++ ':' :: ipv4Text v4 := by
    have : lit "ffff:" = segmentText 65535 ++ [':'] := by decide +kernel
    simp [this]
  have hcolon : ∀ radix, radix ≤ 16 → ∀ c ∈ (':' :: ipv4Text v4).head?, c ≠ '.' ∧ toDigit radix c = none := by
    intro radix hr c hc
    cases hc
    exact EndsGroups.head (.inr ⟨[], rfl⟩) hr ':' rfl
  have hv4 : readIpv4Addr (segmentText 65535 ++ ':' :: ipv4Text v4) = none := by
    refine readIpv4Addr_eq_none (head?_dropWhile_append (not_mem_segmentText (by decide) _) fun c hc => ?_)
    have := hcolon 10 (by omega) c hc
    exact ⟨this.1, by simp [this.2]⟩
  have hnumber : readNumber 16 4 true 65535 (segmentText 65535 ++ ':' :: ipv4Text v4) =
      some (65535, ':' :: ipv4Text v4) :=
    readNumber_segmentText 65535 fun c hc => (hcolon 16 (by omega) c hc).2
  have hlast : readGroups 6 false (':' :: ipv4Text v4) =
      ([segmentOf (v4 0) (v4 1), segmentOf (v4 2) (v4 3)], true, []) := by
    have hread := readIpv4Addr_ipv4Text v4 [] (by simp)
    rw [List.append_nil] at hread
    simp [readGroups, readSeparated, hread]
  rw [e, readGroups]
  simp [readSeparated, hv4, hnumber, hlast]

theorem ofSegments_mapped {addr : Ipv6Addr} {v4 : Ipv4Addr} (h : toIpv4Mapped addr = some v4) :
    ofSegments ([0, 0, 0, 0, 0] ++ [65535, segmentOf (v4 0) (v4 1), segmentOf (v4 2) (v4 3)]) = addr := by
  unfold toIpv4Mapped at h
  split at h
  · rename_i htake
    cases h
    simp only [List.ofFn_succ, List.ofFn_zero, List.take_succ_cons, List.take_zero, List.cons.injEq] at htake
    obtain ⟨h0, h1, h2, h3, h4, h5, _⟩ := htake
    have h6 : (addr 6).toNat < 65536 := (addr 6).toNat_lt
    have h7 : (addr 7).toNat < 65536 := (addr 7).toNat_lt
    have hseg : ∀ n, n < 65536 → 256 * (UInt8.ofNat (n / 256)).toNat + (UInt8.ofNat (n % 256)).toNat = n := by
      intro n hn
      simp only [UInt8.toNat_ofNat']
      omega
    funext i
    fin_cases i
    · exact h0.symm
    · exact h1.symm
    · exact h2.symm
    · exact h3.symm
    · exact h4.symm
    · exact h5.symm
    · exact (congrArg UInt16.ofNat (hseg _ h6)).trans (UInt16.ofNat_toNat)
    · exact (congrArg UInt16.ofNat (hseg _ h7)).trans (UInt16.ofNat_toNat)
  · cases h

/-- **An IPv6 address** is read back from its text. -/
theorem parseIpv6_ipv6Text (addr : Ipv6Addr) : parseIpv6 (ipv6Text addr) = some addr := by
  have hlen : (List.ofFn addr).length = 8 := List.length_ofFn
  unfold ipv6Text
  split
  · rename_i v4 hv4
    have h1 : readGroups 8 true (lit "::ffff:" ++ ipv4Text v4) = ([], false, lit "::ffff:" ++ ipv4Text v4) :=
      readGroups_groupsText [] true (by simp) (.inr ⟨_, rfl⟩)
    have h2 := readGroups_mapped v4
    rw [parseIpv6, readIpv6Addr, h1]
    have e : lit "::ffff:" ++ ipv4Text v4 = ':' :: ':' :: (lit "ffff:" ++ ipv4Text v4) := rfl
    simp only [e, h2, List.length_nil, Nat.sub_zero, List.nil_append]
    simpa using ofSegments_mapped hv4
  · simp only
    split
    · rename_i hz
      set z := longestZeros (List.ofFn addr) 0 ⟨0, 0⟩ ⟨0, 0⟩
      have hzeros : IsZeros (List.ofFn addr) z :=
        longestZeros_isZeros rfl (fun j _ h => by simp at h) (fun j _ h => by simp at h) (fun h => absurd rfl h)
      obtain ⟨hparts, hle⟩ := take_zeros_drop hzeros (by omega)
      set head := (List.ofFn addr).take z.start
      set tail := (List.ofFn addr).drop (z.start + z.len)
      have hhead : head.length = z.start := by
        rw [List.length_take]
        omega
      have htail : tail.length = 8 - (z.start + z.len) := by rw [List.length_drop, hlen]
      have h1 : readGroups 8 true (groupsText true head ++ ':' :: ':' :: groupsText true tail) =
          (head.map (·.toNat), false, ':' :: ':' :: groupsText true tail) :=
        readGroups_groupsText head true (by omega) (.inr ⟨_, rfl⟩)
      have h2 : readGroups (7 - head.length) true (groupsText true tail ++ []) = (tail.map (·.toNat), false, []) :=
        readGroups_groupsText tail true (by omega) (.inl rfl)
      rw [List.append_nil] at h2
      have e : groupsText true head ++ lit "::" ++ groupsText true tail =
          groupsText true head ++ ':' :: ':' :: groupsText true tail := List.append_assoc _ _ _
      have hne : head.length ≠ 8 := by omega
      have hlen' : 8 - head.length - tail.length = z.len := by omega
      rw [parseIpv6, readIpv6Addr, segmentsText_eq, segmentsText_eq, e, h1]
      simp only [List.length_map, hne, if_false, Bool.false_eq_true, h2, hlen']
      rw [← ofSegments_toNat addr, ← hparts]
      simp
    · have h : readGroups 8 true (groupsText true (List.ofFn addr) ++ []) =
          ((List.ofFn addr).map (·.toNat), false, []) := readGroups_groupsText _ true (by omega) (.inl rfl)
      rw [List.append_nil] at h
      rw [parseIpv6, readIpv6Addr, segmentsText_eq, h]
      simp only [List.length_map, hlen, if_true, ofSegments_toNat]

/-! ### Characters of an address -/

/-- The characters addresses are written in. -/
def addressChars : Text := lit "0123456789abcdef.:"

theorem mem_addressChars_of_mem_toDigits {radix n : ℕ} (hr : 1 < radix) (hr' : radix ≤ 16) {c : Char}
    (h : c ∈ radix.toDigits n) : c ∈ addressChars := by
  have hdigit : ∀ d : Fin 16, Nat.digitChar d ∈ addressChars := by decide
  obtain ⟨d, hd, rfl⟩ := exists_digitChar_of_mem_toDigits hr h
  exact hdigit ⟨d, by omega⟩

theorem mem_addressChars_of_mem_ipv4Text {addr : Ipv4Addr} {c : Char} (h : c ∈ ipv4Text addr) : c ∈ addressChars := by
  rcases mem_join h with h | ⟨t, ht, h⟩
  · rw [List.mem_singleton.1 h]
    decide
  · obtain ⟨o, -, rfl⟩ := List.mem_map.1 ht
    exact mem_addressChars_of_mem_toDigits (by omega) (by omega) h

theorem mem_addressChars_of_mem_segmentsText {segments : List UInt16} {c : Char} (h : c ∈ segmentsText segments) :
    c ∈ addressChars := by
  rcases mem_join h with h | ⟨t, ht, h⟩
  · rw [List.mem_singleton.1 h]
    decide
  · obtain ⟨s, -, rfl⟩ := List.mem_map.1 ht
    exact mem_addressChars_of_mem_toDigits (by omega) (by omega) h

theorem mem_addressChars_of_mem_ipv6Text {addr : Ipv6Addr} {c : Char} (h : c ∈ ipv6Text addr) : c ∈ addressChars := by
  have hmapped : lit "::ffff:" ⊆ addressChars := by decide
  have hzeros : lit "::" ⊆ addressChars := by decide
  unfold ipv6Text at h
  split at h
  · exact (List.mem_append.1 h).elim (hmapped ·) mem_addressChars_of_mem_ipv4Text
  · simp only at h
    split at h
    · rw [List.mem_append, List.mem_append] at h
      rcases h with (h | h) | h
      · exact mem_addressChars_of_mem_segmentsText h
      · exact hzeros h
      · exact mem_addressChars_of_mem_segmentsText h
    · exact mem_addressChars_of_mem_segmentsText h

theorem not_isWhitespace_of_mem_addressChars {c : Char} (h : c ∈ addressChars) : isWhitespace c = false := by
  have hall : addressChars.all (fun c => !isWhitespace c) = true := by decide +kernel
  simpa using List.all_eq_true.1 hall c h

theorem not_isWhitespace_of_mem_ipv4Text {addr : Ipv4Addr} {c : Char} (h : c ∈ ipv4Text addr) : isWhitespace c = false :=
  not_isWhitespace_of_mem_addressChars (mem_addressChars_of_mem_ipv4Text h)

theorem not_isWhitespace_of_mem_ipv6Text {addr : Ipv6Addr} {c : Char} (h : c ∈ ipv6Text addr) : isWhitespace c = false :=
  not_isWhitespace_of_mem_addressChars (mem_addressChars_of_mem_ipv6Text h)

/-! ### Injectivity -/

theorem ipv4Text_injective : Function.Injective ipv4Text := fun a b e => by
  have e := congrArg parseIpv4 e
  rwa [parseIpv4_ipv4Text, parseIpv4_ipv4Text, Option.some.injEq] at e

theorem ipv6Text_injective : Function.Injective ipv6Text := fun a b e => by
  have e := congrArg parseIpv6 e
  rwa [parseIpv6_ipv6Text, parseIpv6_ipv6Text, Option.some.injEq] at e

theorem ipv6Octets_injective : Function.Injective ipv6Octets := by
  have hpair : ∀ {s t : UInt16}, UInt8.ofNat (s.toNat / 256) = UInt8.ofNat (t.toNat / 256) →
      UInt8.ofNat (s.toNat % 256) = UInt8.ofNat (t.toNat % 256) → s = t := by
    intro s t hhigh hlow
    have hhigh := congrArg UInt8.toNat hhigh
    have hlow := congrArg UInt8.toNat hlow
    have hs := s.toNat_lt
    have ht := t.toNat_lt
    simp only [UInt8.toNat_ofNat'] at hhigh hlow
    exact UInt16.toNat_inj.1 (by omega)
  have hlist : ∀ {l m : List UInt16}, (l.flatMap fun s => [UInt8.ofNat (s.toNat / 256), UInt8.ofNat (s.toNat % 256)]) =
      (m.flatMap fun s => [UInt8.ofNat (s.toNat / 256), UInt8.ofNat (s.toNat % 256)]) → l = m := by
    intro l
    induction l with
    | nil =>
        intro m h
        cases m with
        | nil => rfl
        | cons t m => cases h
    | cons s l ih =>
        intro m h
        cases m with
        | nil => cases h
        | cons t m =>
            simp only [List.flatMap_cons, List.cons_append, List.nil_append, List.cons.injEq] at h
            rw [hpair h.1 h.2.1, ih h.2.2]
  exact fun a b e => List.ofFn_injective (hlist e)

end Bindizr
