import Mathlib

/-! # Texts

The source handles names, values and messages as Rust `String`s.  A text is modelled as the
list of its characters (`Text`), with the operations of the standard library the source
calls: `trim`, `trimEndMatches`, `splitWhitespace`, `toAsciiLowercase`, decimal output and
input, and the UTF-8 octets (`asBytes`, `byteLen`, `fromUtf8`), which decide every length
limit.  White space is Unicode's `White_Space`, as `char::is_whitespace` has it; case folding
is ASCII only, as the source uses it. -/

namespace Bindizr

/-- A Rust string, as its characters. -/
abbrev Text := List Char

/-- A literal of the source. -/
abbrev lit (s : String) : Text := s.toList

/-! ### Characters -/

/-- `char::is_whitespace`: the Unicode property `White_Space`. -/
def isWhitespace (c : Char) : Bool :=
  (9 ≤ c.toNat && c.toNat ≤ 13) || c.toNat == 0x20 || c.toNat == 0x85 || c.toNat == 0xA0 ||
    c.toNat == 0x1680 || (0x2000 ≤ c.toNat && c.toNat ≤ 0x200A) || c.toNat == 0x2028 ||
    c.toNat == 0x2029 || c.toNat == 0x202F || c.toNat == 0x205F || c.toNat == 0x3000

def isAsciiControl (c : Char) : Bool := c.toNat < 32 || c.toNat == 127

def isAsciiDigit (c : Char) : Bool := '0'.toNat ≤ c.toNat && c.toNat ≤ '9'.toNat

def isAsciiUppercase (c : Char) : Bool := 'A'.toNat ≤ c.toNat && c.toNat ≤ 'Z'.toNat

def isAsciiLowercase (c : Char) : Bool := 'a'.toNat ≤ c.toNat && c.toNat ≤ 'z'.toNat

def isAsciiAlphanumeric (c : Char) : Bool := isAsciiDigit c || isAsciiUppercase c || isAsciiLowercase c

def digitValue (c : Char) : ℕ := c.toNat - '0'.toNat

theorem toNat_ofNat {n : ℕ} (h : n < 256) : (Char.ofNat n).toNat = n := by rw [Char.toNat_ofNat, if_pos (.inl (by omega))]

theorem digit_ofNat {n : ℕ} (h : n < 10) : isAsciiDigit (Char.ofNat (48 + n)) = true ∧ digitValue (Char.ofNat (48 + n)) = n := by
  have hn : (Char.ofNat (48 + n)).toNat = 48 + n := toNat_ofNat (by omega)
  rw [isAsciiDigit, digitValue, hn, Bool.and_eq_true, decide_eq_true_eq, decide_eq_true_eq]
  exact ⟨⟨Nat.le_add_right _ _, Nat.add_le_add_left (Nat.le_of_lt_succ h) 48⟩, Nat.add_sub_cancel_left ..⟩

/-- `char::to_ascii_lowercase`. -/
def lowerChar (c : Char) : Char := if isAsciiUppercase c then Char.ofNat (c.toNat + 32) else c

/-! ### Texts -/

def toAsciiLowercase (t : Text) : Text := t.map lowerChar

def eqIgnoreAsciiCase (s t : Text) : Bool := toAsciiLowercase s == toAsciiLowercase t

def trim (t : Text) : Text := (t.dropWhile isWhitespace).rdropWhile isWhitespace

/-- `str::trim_end_matches` for one character. -/
def trimEndMatches (c : Char) (t : Text) : Text := t.rdropWhile (· == c)

/-- `t.strip_suffix(c).unwrap_or(t)`. -/
def stripOneSuffix (c : Char) (t : Text) : Text :=
  if t.getLast? = some c then t.dropLast else t

def stripPrefix : Text → Text → Option Text
  | [], t => some t
  | _ :: _, [] => none
  | p :: ps, c :: cs => if p = c then stripPrefix ps cs else none

/-- `str::split` at one character. -/
def split (c : Char) (t : Text) : List Text := t.splitOn c

def splitWhitespace (t : Text) : List Text := (t.splitOnP isWhitespace).filter (· ≠ [])

def join (sep : Text) (ts : List Text) : Text := sep.intercalate ts

/-- Whether any character is white space or an ASCII control character. -/
def hasWhitespaceOrControl (t : Text) : Bool := t.any fun c => isAsciiControl c || isWhitespace c

theorem toNat_lowerChar {c : Char} (h : isAsciiUppercase c = true) :
    (lowerChar c).toNat = c.toNat + 32 := by
  have hc : c.toNat + 32 < 0xd800 := by
    simp only [isAsciiUppercase, Bool.and_eq_true, decide_eq_true_eq] at h
    have : 'Z'.toNat = 90 := rfl
    omega
  have hv : (c.toNat + 32).isValidChar := Or.inl hc
  rw [lowerChar, if_pos h, Char.toNat_ofNat, if_pos hv]

theorem lowerChar_eq_self {c : Char} (h : isAsciiUppercase c = false) : lowerChar c = c := by
  simp [lowerChar, h]

theorem lowerChar_cases (c : Char) :
    (isAsciiUppercase c = false ∧ lowerChar c = c) ∨
      (isAsciiUppercase c = true ∧ isAsciiLowercase (lowerChar c) = true) := by
  cases h : isAsciiUppercase c with
  | false => exact .inl ⟨rfl, lowerChar_eq_self h⟩
  | true =>
      refine .inr ⟨rfl, ?_⟩
      have hn := toNat_lowerChar h
      simp only [isAsciiUppercase, isAsciiLowercase, Bool.and_eq_true, decide_eq_true_eq] at h ⊢
      have h1 : 'A'.toNat = 65 := rfl
      have h2 : 'Z'.toNat = 90 := rfl
      have h3 : 'a'.toNat = 97 := rfl
      have h4 : 'z'.toNat = 122 := rfl
      omega

theorem isAsciiUppercase_eq_false_of_lowercase {c : Char} (h : isAsciiLowercase c = true) :
    isAsciiUppercase c = false := by
  simp only [isAsciiUppercase, isAsciiLowercase, Bool.and_eq_true, decide_eq_true_eq,
    Bool.and_eq_false_iff, decide_eq_false_iff_not] at h ⊢
  have h2 : 'Z'.toNat = 90 := rfl
  have h3 : 'a'.toNat = 97 := rfl
  omega

@[simp] theorem lowerChar_lowerChar (c : Char) : lowerChar (lowerChar c) = lowerChar c := by
  rcases lowerChar_cases c with ⟨_, h⟩ | ⟨_, h⟩
  · rw [h, h]
  · exact lowerChar_eq_self (isAsciiUppercase_eq_false_of_lowercase h)

/-- No letter lowercases to a character that is not one. -/
theorem lowerChar_eq_iff {c d : Char} (hd : isAsciiLowercase d = false)
    (hu : isAsciiUppercase d = false) : lowerChar c = d ↔ c = d := by
  rcases lowerChar_cases c with ⟨_, h⟩ | ⟨hc, h⟩
  · rw [h]
  · constructor
    · intro e
      rw [e, hd] at h
      simp at h
    · intro e
      rw [e, hu] at hc
      simp at hc

theorem toAsciiLowercase_eq_self {t : Text} (h : ∀ c ∈ t, lowerChar c = c) : toAsciiLowercase t = t := by
  rw [toAsciiLowercase, List.map_congr_left h, List.map_id']

@[simp] theorem toAsciiLowercase_toAsciiLowercase (t : Text) :
    toAsciiLowercase (toAsciiLowercase t) = toAsciiLowercase t := by
  simp [toAsciiLowercase]

@[simp] theorem toAsciiLowercase_append (s t : Text) :
    toAsciiLowercase (s ++ t) = toAsciiLowercase s ++ toAsciiLowercase t := by
  simp [toAsciiLowercase]

@[simp] theorem toAsciiLowercase_eq_nil {t : Text} : toAsciiLowercase t = [] ↔ t = [] := by
  simp [toAsciiLowercase]

theorem trim_eq_self_iff {t : Text} : trim t = t ↔
    (∀ c, t.head? = some c → isWhitespace c = false) ∧ ∀ c, t.getLast? = some c → isWhitespace c = false := by
  constructor
  · intro h
    have hdrop : t.dropWhile isWhitespace = t := by
      refine (List.dropWhile_suffix _).eq_of_length_le ?_
      conv_lhs => rw [← h]
      exact (List.rdropWhile_prefix _ _).length_le
    have hlast : t.rdropWhile isWhitespace = t := by rwa [trim, hdrop] at h
    rw [List.dropWhile_eq_self_iff] at hdrop
    rw [List.rdropWhile_eq_self_iff] at hlast
    refine ⟨fun c hc => ?_, fun c hc => ?_⟩
    · obtain ⟨t, rfl⟩ := List.head?_eq_some_iff.1 hc
      exact Bool.eq_false_of_not_eq_true (hdrop (by simp))
    · obtain ⟨t, rfl⟩ := List.getLast?_eq_some_iff.1 hc
      simpa using hlast (by simp)
  · rintro ⟨hhead, hlast⟩
    have hdrop : t.dropWhile isWhitespace = t := by
      rw [List.dropWhile_eq_self_iff]
      intro hpos
      simp [hhead t[0] (by simp [List.head?_eq_getElem?])]
    rw [trim, hdrop, List.rdropWhile_eq_self_iff]
    intro hne
    simp [hlast _ (List.getLast?_eq_some_getLast hne)]

theorem trim_eq_self {t : Text} (h : ∀ c ∈ t, isWhitespace c = false) : trim t = t :=
  trim_eq_self_iff.2 ⟨fun c hc => h c (List.mem_of_head? hc), fun c hc => h c (List.mem_of_getLast? hc)⟩

theorem trim_eq_self_of_hasWhitespaceOrControl {t : Text} (h : hasWhitespaceOrControl t = false) :
    trim t = t := by
  refine trim_eq_self fun c hc => ?_
  have := List.any_eq_false.1 h c hc
  simp only [Bool.or_eq_true, not_or, Bool.not_eq_true] at this
  exact this.2

theorem mem_of_mem_trim {t : Text} {c : Char} (h : c ∈ trim t) : c ∈ t := by
  have h1 := (List.rdropWhile_prefix isWhitespace _).subset h
  exact (List.dropWhile_suffix _).subset h1

theorem nil_mem_split {c : Char} {t : Text} (h : t.getLast? = some c) : [] ∈ split c t := by
  obtain ⟨p, rfl⟩ := List.getLast?_eq_some_iff.1 h
  rw [split, List.splitOn_append_cons_self]
  simp

/-- A text that splits into non-empty parts does not end in the separator. -/
theorem trimEndMatches_eq_self {c : Char} {t : Text} (h : [] ∉ split c t) : trimEndMatches c t = t := by
  rw [trimEndMatches, List.rdropWhile_eq_self_iff]
  intro hne hlast
  exact h (nil_mem_split (by rw [List.getLast?_eq_some_getLast hne, beq_iff_eq.1 hlast]))

theorem not_mem_of_mem_split {c : Char} {t l : Text} (h : l ∈ split c t) : c ∉ l := by
  unfold split at h
  induction t generalizing l with
  | nil =>
      rw [List.splitOn_nil, List.mem_singleton] at h
      simp [h]
  | cons x t ih =>
      rw [List.splitOn_cons_eq_if_modifyHead] at h
      split at h
      · rcases List.mem_cons.1 h with rfl | h
        · simp
        · exact ih h
      · rename_i hx
        obtain ⟨m, ms, e⟩ := List.exists_cons_of_ne_nil (List.splitOn_ne_nil c t)
        rw [e, List.modifyHead_cons, List.mem_cons] at h
        rcases h with rfl | h
        · have hm : c ∉ m := ih (by simp [e])
          have hxc : c ≠ x := fun e => hx (by simp [e])
          simp [hxc, hm]
        · exact ih (by simp [e, h])

theorem split_append_sep {c : Char} {s t : Text} (hs : c ∉ s) (ht : c ∉ t) :
    split c (s ++ c :: t) = [s, t] := by
  rw [split, List.splitOn_append_cons_self_of_not_mem hs, List.splitOn_eq_singleton ht]

theorem trimEndMatches_append {c : Char} {p t : Text} (hne : t ≠ []) (h : trimEndMatches c t = t) :
    trimEndMatches c (p ++ t) = p ++ t := by
  rw [trimEndMatches, List.rdropWhile_eq_self_iff] at h ⊢
  intro hne'
  rw [List.getLast_append_of_ne_nil hne' hne]
  exact h hne

theorem mem_split {c d : Char} {t : Text} (h : d ∈ t) : d = c ∨ ∃ l ∈ split c t, d ∈ l := by
  unfold split
  induction t with
  | nil => cases h
  | cons x t ih =>
      rw [List.splitOn_cons_eq_if_modifyHead]
      obtain ⟨l, ls, e⟩ := List.exists_cons_of_ne_nil (List.splitOn_ne_nil c t)
      split
      · rename_i hx
        rcases List.mem_cons.1 h with rfl | h
        · exact .inl (beq_iff_eq.1 hx)
        · exact (ih h).imp id fun ⟨l, hl, hd⟩ => ⟨l, List.mem_cons_of_mem _ hl, hd⟩
      · rw [e, List.modifyHead_cons]
        rcases List.mem_cons.1 h with rfl | h
        · exact .inr ⟨d :: l, by simp, by simp⟩
        · rcases ih h with h | ⟨m, hm, hd⟩
          · exact .inl h
          · rw [e, List.mem_cons] at hm
            rcases hm with rfl | hm
            · exact .inr ⟨x :: m, by simp, by simp [hd]⟩
            · exact .inr ⟨m, by simp [hm], hd⟩

/-! ### Octets -/

def asBytes (t : Text) : List UInt8 := t.flatMap String.utf8EncodeChar

/-- `str::len`, which counts octets. -/
def byteLen (t : Text) : ℕ := (t.map Char.utf8Size).sum

def fromUtf8 (b : List UInt8) : Option Text := b.toByteArray.utf8Decode?.map Array.toList

@[simp] theorem asBytes_nil : asBytes [] = [] := rfl

@[simp] theorem asBytes_cons (c : Char) (t : Text) :
    asBytes (c :: t) = String.utf8EncodeChar c ++ asBytes t := by
  simp [asBytes]

@[simp] theorem asBytes_append (s t : Text) : asBytes (s ++ t) = asBytes s ++ asBytes t := by
  simp [asBytes]

@[simp] theorem byteLen_nil : byteLen [] = 0 := rfl

@[simp] theorem byteLen_cons (c : Char) (t : Text) : byteLen (c :: t) = c.utf8Size + byteLen t := by
  simp [byteLen]

@[simp] theorem byteLen_append (s t : Text) : byteLen (s ++ t) = byteLen s + byteLen t := by
  simp [byteLen]

theorem length_asBytes (t : Text) : (asBytes t).length = byteLen t := by
  simp [asBytes, byteLen, List.length_flatMap, String.length_utf8EncodeChar]

theorem length_le_byteLen (t : Text) : t.length ≤ byteLen t := by
  induction t with
  | nil => simp
  | cons c t ih =>
      have := c.utf8Size_pos
      rw [List.length_cons, byteLen_cons]
      omega

theorem fromUtf8_asBytes (t : Text) : fromUtf8 (asBytes t) = some t := by
  have h := List.utf8Decode?_utf8Encode (l := t)
  simp only [List.utf8Encode] at h
  simp [fromUtf8, asBytes, h]

theorem asBytes_injective {s t : Text} (h : asBytes s = asBytes t) : s = t := by
  have e := fromUtf8_asBytes s
  rw [h, fromUtf8_asBytes] at e
  exact (Option.some.inj e).symm

theorem asBytes_of_fromUtf8 {b : List UInt8} {t : Text} (h : fromUtf8 b = some t) : asBytes t = b := by
  obtain ⟨cs, hcs, rfl⟩ := Option.map_eq_some_iff.1 h
  obtain ⟨m, hm⟩ := ByteArray.isSome_utf8Decode?_iff.1 (Option.isSome_iff_exists.2 ⟨cs, hcs⟩)
  rw [hm, List.utf8Decode?_utf8Encode] at hcs
  cases hcs
  have := congrArg (fun x => x.data.toList) hm
  simpa [List.utf8Encode, asBytes] using this.symm

theorem utf8Size_eq_one_of_toNat_lt {c : Char} (h : c.toNat < 128) : c.utf8Size = 1 := by
  rw [Char.utf8Size_eq_one_iff, UInt32.le_iff_toNat_le]
  exact Nat.le_of_lt_succ h

theorem utf8EncodeChar_of_lt {c : Char} (h : c.toNat < 128) :
    String.utf8EncodeChar c = [UInt8.ofNat c.toNat] := by
  rw [String.utf8EncodeChar_eq_singleton (utf8Size_eq_one_of_toNat_lt h)]
  rfl

@[simp] theorem utf8Size_lowerChar (c : Char) : (lowerChar c).utf8Size = c.utf8Size := by
  rcases lowerChar_cases c with ⟨_, h⟩ | ⟨h, _⟩
  · rw [h]
  · have hn := toNat_lowerChar h
    simp only [isAsciiUppercase, Bool.and_eq_true, decide_eq_true_eq] at h
    have hz : 'Z'.toNat = 90 := rfl
    rw [utf8Size_eq_one_of_toNat_lt (by omega), utf8Size_eq_one_of_toNat_lt (by omega)]

@[simp] theorem byteLen_toAsciiLowercase (t : Text) : byteLen (toAsciiLowercase t) = byteLen t := by
  induction t with
  | nil => rfl
  | cons c t ih =>
      have e : toAsciiLowercase (c :: t) = lowerChar c :: toAsciiLowercase t := rfl
      simp [e, ih]

theorem mem_join {sep : Text} {ts : List Text} {c : Char} (h : c ∈ join sep ts) : c ∈ sep ∨ ∃ t ∈ ts, c ∈ t := by
  induction ts with
  | nil => simp [join] at h
  | cons t ts ih =>
      cases ts with
      | nil => exact .inr ⟨t, by simp, by simpa [join] using h⟩
      | cons u ts =>
          have e : join sep (t :: u :: ts) = t ++ (sep ++ join sep (u :: ts)) := by simp [join, List.intercalate]
          rw [e, List.mem_append, List.mem_append] at h
          rcases h with h | h | h
          · exact .inr ⟨t, by simp, h⟩
          · exact .inl h
          · exact (ih h).imp id fun ⟨v, hv, hc⟩ => ⟨v, by simp [hv], hc⟩

/-! ### Numbers -/

/-- `to_string` of an unsigned number. -/
def natText (n : ℕ) : Text := Nat.toDigits 10 n

/-- `to_string` of a signed number. -/
def intText : ℤ → Text
  | .ofNat n => natText n
  | .negSucc n => '-' :: natText (n + 1)

/-- The number a digit string denotes. -/
def digitsValue (t : Text) : ℕ := t.foldl (fun n c => 10 * n + digitValue c) 0

/-- `str::parse` for an unsigned type with greatest value `max`: an optional `+`, then digits. -/
def parseUnsigned (max : ℕ) (t : Text) : Option ℕ :=
  let digits := match t with
    | '+' :: ds => ds
    | ds => ds
  if digits.isEmpty || !digits.all isAsciiDigit || max < digitsValue digits then none
  else some (digitsValue digits)

/-- `str::parse::<i32>`: an optional sign, then digits. -/
def parseI32 (t : Text) : Option ℤ :=
  match t with
  | '-' :: ds =>
      if ds.isEmpty || !ds.all isAsciiDigit || 2147483648 < digitsValue ds then none
      else some (-(digitsValue ds))
  | t => (parseUnsigned 2147483647 t).map Int.ofNat

theorem digitsValue_natText (n : ℕ) : digitsValue (natText n) = n := by
  rw [digitsValue, natText]
  exact Nat.ofDigitChars_eq_foldl.symm.trans Nat.ofDigitChars_ten_toDigits

theorem isAsciiDigit_of_mem_natText {n : ℕ} {c : Char} (h : c ∈ natText n) : isAsciiDigit c = true := by
  have := Nat.isDigit_of_mem_toDigits (by omega) (by omega) h
  rw [Char.isDigit, Bool.and_eq_true, decide_eq_true_eq, decide_eq_true_eq, ge_iff_le,
    UInt32.le_iff_toNat_le, UInt32.le_iff_toNat_le] at this
  rw [isAsciiDigit, Bool.and_eq_true, decide_eq_true_eq, decide_eq_true_eq]
  exact this

theorem natText_inj {m n : ℕ} : natText m = natText n ↔ m = n := by
  constructor
  · intro h
    rw [← digitsValue_natText m, h, digitsValue_natText]
  · intro h
    rw [h]

theorem intText_inj {i j : ℤ} : intText i = intText j ↔ i = j := by
  have hdash : ∀ (n : ℕ) (t : Text), natText n ≠ '-' :: t := fun n t h => by
    have := isAsciiDigit_of_mem_natText (h ▸ List.mem_cons_self : '-' ∈ natText n)
    simp [isAsciiDigit] at this
  refine ⟨fun h => ?_, fun h => by rw [h]⟩
  cases i with
  | ofNat m =>
      cases j with
      | ofNat n => rw [natText_inj.1 h]
      | negSucc n => exact absurd h (hdash m _)
  | negSucc m =>
      cases j with
      | ofNat n => exact absurd h.symm (hdash n _)
      | negSucc n =>
          have := natText_inj.1 (List.cons.inj h).2
          rw [Nat.succ.inj this]

/-- Two texts split at a character that does not occur before it are equal part by part. -/
theorem append_sep_inj {c : Char} {p q s t : Text} (hp : c ∉ p) (hq : c ∉ q) :
    p ++ c :: s = q ++ c :: t ↔ p = q ∧ s = t := by
  induction p generalizing q with
  | nil =>
      cases q with
      | nil => simp
      | cons d q =>
          simp only [List.mem_cons, not_or] at hq
          simp [hq.1]
  | cons d p ih =>
      simp only [List.mem_cons, not_or] at hp
      cases q with
      | nil => simp [Ne.symm hp.1]
      | cons d' q =>
          simp only [List.mem_cons, not_or] at hq
          simp [ih hp.2 hq.2, and_assoc]

theorem natText_space_inj {m n : ℕ} {s t : Text} :
    natText m ++ ' ' :: s = natText n ++ ' ' :: t ↔ m = n ∧ s = t := by
  have h : ∀ k, ' ' ∉ natText k := fun k hk => by
    have := isAsciiDigit_of_mem_natText hk
    simp [isAsciiDigit] at this
  rw [append_sep_inj (h m) (h n), natText_inj]

/-! ### Fields -/

theorem not_isWhitespace_of_mem_splitWhitespace {t l : Text} (h : l ∈ splitWhitespace t) :
    l ≠ [] ∧ ∀ c ∈ l, isWhitespace c = false := by
  obtain ⟨hmem, hne⟩ := List.mem_filter.1 h
  refine ⟨by simpa using hne, ?_⟩
  clear h hne
  induction t generalizing l with
  | nil =>
      rw [List.splitOnP_nil, List.mem_singleton] at hmem
      simp [hmem]
  | cons x t ih =>
      rw [List.splitOnP_cons_eq_if_modifyHead] at hmem
      split at hmem
      · rcases List.mem_cons.1 hmem with rfl | h
        · simp
        · exact ih h
      · rename_i hx
        obtain ⟨m, ms, e⟩ := List.exists_cons_of_ne_nil (List.splitOnP_ne_nil isWhitespace t)
        rw [e, List.modifyHead_cons, List.mem_cons] at hmem
        rcases hmem with rfl | h
        · exact List.forall_mem_cons.2 ⟨by simpa using hx, ih (by simp [e])⟩
        · exact ih (by simp [e, h])

theorem splitWhitespace_eq_singleton {t : Text} (hne : t ≠ []) (h : ∀ c ∈ t, isWhitespace c = false) :
    splitWhitespace t = [t] := by
  rw [splitWhitespace, List.splitOnP_eq_singleton h]
  simp [hne]

theorem splitWhitespace_append_cons {s t : Text} {c : Char} (hc : isWhitespace c = true) (hne : s ≠ [])
    (h : ∀ c ∈ s, isWhitespace c = false) : splitWhitespace (s ++ c :: t) = s :: splitWhitespace t := by
  rw [splitWhitespace, List.splitOnP_append_cons_of_forall_mem h c hc, List.filter_cons]
  simp [hne, splitWhitespace]

theorem splitWhitespace_cons_of_isWhitespace {c : Char} {t : Text} (h : isWhitespace c = true) :
    splitWhitespace (c :: t) = splitWhitespace t := by
  rw [splitWhitespace, List.splitOnP_cons_eq_if_modifyHead, if_pos h, List.filter_cons]
  simp [splitWhitespace]

theorem splitWhitespace_dropWhile (t : Text) : splitWhitespace (t.dropWhile isWhitespace) = splitWhitespace t := by
  induction t with
  | nil => rfl
  | cons c t ih =>
      rw [List.dropWhile_cons]
      split
      · rename_i h
        rw [ih, splitWhitespace_cons_of_isWhitespace h]
      · rfl

theorem splitWhitespace_append_of_isWhitespace {c : Char} {t : Text} (h : isWhitespace c = true) :
    splitWhitespace (t ++ [c]) = splitWhitespace t := by
  rw [splitWhitespace, List.splitOnP_append_cons t [] h, List.filter_append]
  simp [splitWhitespace]

theorem splitWhitespace_trim (t : Text) : splitWhitespace (trim t) = splitWhitespace t := by
  rw [trim, ← splitWhitespace_dropWhile t]
  generalize t.dropWhile isWhitespace = s
  induction s using List.reverseRecOn with
  | nil => rfl
  | append_singleton s c ih =>
      by_cases h : isWhitespace c = true
      · rw [List.rdropWhile_concat_pos _ _ _ h, ih, splitWhitespace_append_of_isWhitespace h]
      · rw [List.rdropWhile_concat_neg _ _ _ h]

theorem splitWhitespace_eq_nil {t : Text} (h : splitWhitespace t = []) : ∀ c ∈ t, isWhitespace c = true := by
  induction t with
  | nil => simp
  | cons c t ih =>
      by_cases hc : isWhitespace c = true
      · rw [splitWhitespace_cons_of_isWhitespace hc] at h
        exact List.forall_mem_cons.2 ⟨hc, ih h⟩
      · obtain ⟨m, ms, e⟩ := List.exists_cons_of_ne_nil (List.splitOnP_ne_nil isWhitespace t)
        rw [splitWhitespace, List.splitOnP_cons_eq_if_modifyHead, if_neg hc, e] at h
        simp at h

/-- A text of one field is that field, with white space around it. -/
theorem trim_eq_of_splitWhitespace {t s : Text} (h : splitWhitespace t = [s]) : trim t = s := by
  rw [← splitWhitespace_dropWhile] at h
  have hhead : ∀ c ∈ (t.dropWhile isWhitespace).head?, isWhitespace c = false := by
    intro c hc
    have := List.head?_dropWhile_not isWhitespace t
    rw [Option.mem_def.1 hc] at this
    simpa using this
  unfold trim
  generalize t.dropWhile isWhitespace = v at h hhead
  -- the text up to its first white space, and the rest
  have happ := List.takeWhile_append_dropWhile (p := fun c => !isWhitespace c) (l := v)
  have hfield : ∀ c ∈ v.takeWhile fun c => !isWhitespace c, isWhitespace c = false := fun c hc => by
    simpa using List.mem_takeWhile_imp hc
  set a := v.takeWhile fun c => !isWhitespace c
  have hself : ∀ w : Text, (∀ c ∈ w, isWhitespace c = true) → (a ++ w).rdropWhile isWhitespace = a := by
    intro w hw
    rw [List.rdropWhile, List.reverse_append, List.dropWhile_append_of_pos (by simpa using hw),
      List.dropWhile_eq_self_iff.2, List.reverse_reverse]
    intro hl
    simpa using hfield _ (by simp)
  cases hrest : v.dropWhile fun c => !isWhitespace c with
  | nil =>
      rw [hrest, List.append_nil] at happ
      rw [← happ] at h ⊢
      have hne : a ≠ [] := by
        intro e
        rw [e] at h
        simp [splitWhitespace] at h
      rw [splitWhitespace_eq_singleton hne hfield] at h
      rw [← List.append_nil a, hself [] (by simp)]
      exact (List.cons.inj h).1
  | cons c b =>
      have hc : isWhitespace c = true := by
        have := List.head?_dropWhile_not (fun c => !isWhitespace c) v
        simpa [hrest] using this
      rw [hrest] at happ
      have hne : a ≠ [] := by
        intro e
        rw [e, List.nil_append] at happ
        have := hhead c (by simp [← happ])
        simp [this] at hc
      rw [← happ, splitWhitespace_append_cons hc hne hfield] at h
      obtain ⟨rfl, hb⟩ := List.cons.inj h
      rw [← happ]
      exact hself _ (List.forall_mem_cons.2 ⟨hc, splitWhitespace_eq_nil hb⟩)

theorem not_isWhitespace_of_isAsciiDigit {c : Char} (h : isAsciiDigit c = true) : isWhitespace c = false := by
  rw [isAsciiDigit, Bool.and_eq_true, decide_eq_true_eq, decide_eq_true_eq] at h
  simp only [isWhitespace, Bool.or_eq_false_iff, Bool.and_eq_false_iff, decide_eq_false_iff_not,
    beq_eq_false_iff_ne]
  have : '0'.toNat = 48 := rfl
  have : '9'.toNat = 57 := rfl
  omega

theorem not_isWhitespace_of_mem_natText {n : ℕ} {c : Char} (h : c ∈ natText n) : isWhitespace c = false :=
  not_isWhitespace_of_isAsciiDigit (isAsciiDigit_of_mem_natText h)

/-! ### Octets of lower case -/

/-- Lower case, for the octets of ASCII letters. -/
def lowerOctet (b : UInt8) : UInt8 := if 65 ≤ b.toNat ∧ b.toNat ≤ 90 then b + 32 else b

theorem le_of_mem_utf8EncodeChar {c : Char} (h : 128 ≤ c.toNat) : ∀ b ∈ String.utf8EncodeChar c, 128 ≤ b.toNat := by
  have hv : ¬ c.val.toNat ≤ 127 := by
    show ¬ c.toNat ≤ 127
    omega
  unfold String.utf8EncodeChar
  simp only [hv, if_false]
  split
  · simp only [List.forall_mem_cons, UInt8.toNat_ofNat', List.not_mem_nil, false_imp_iff, implies_true, and_true]
    omega
  split
  all_goals
    simp only [List.forall_mem_cons, UInt8.toNat_ofNat', List.not_mem_nil, false_imp_iff, implies_true, and_true]
    omega

theorem map_lowerOctet_utf8EncodeChar (c : Char) :
    (String.utf8EncodeChar c).map lowerOctet = String.utf8EncodeChar (lowerChar c) := by
  have hup : isAsciiUppercase c = true ↔ 65 ≤ c.toNat ∧ c.toNat ≤ 90 := by
    rw [isAsciiUppercase, Bool.and_eq_true, decide_eq_true_eq, decide_eq_true_eq]
    rfl
  by_cases h : c.toNat < 128
  · have hb : (UInt8.ofNat c.toNat).toNat = c.toNat := by
      rw [UInt8.toNat_ofNat']
      omega
    rw [utf8EncodeChar_of_lt h, List.map_singleton, lowerOctet, hb]
    split
    · rename_i hc
      have hc := hup.2 hc
      have hn := toNat_lowerChar hc
      rw [utf8EncodeChar_of_lt (by rw [hn]; rw [hup] at hc; omega), hn, UInt8.ofNat_add]
      rfl
    · rename_i hc
      rw [lowerChar_eq_self (by rwa [Bool.eq_false_iff, Ne, hup]), utf8EncodeChar_of_lt h]
  · rw [lowerChar_eq_self (by rw [Bool.eq_false_iff, Ne, hup]; omega)]
    conv_rhs => rw [← List.map_id (String.utf8EncodeChar c)]
    refine List.map_congr_left fun b hb => ?_
    have := le_of_mem_utf8EncodeChar (by omega) b hb
    rw [lowerOctet, if_neg (by omega)]
    rfl

theorem asBytes_toAsciiLowercase (t : Text) : asBytes (toAsciiLowercase t) = (asBytes t).map lowerOctet := by
  simp only [asBytes, toAsciiLowercase, List.flatMap_map, List.map_flatMap, map_lowerOctet_utf8EncodeChar]

end Bindizr
