import Bindizr.UpdateGrammar
import Bindizr.Values

/-! # Prerequisites

RFC 2136 evaluates the prerequisite section of an UPDATE message as a whole: the records of
class IN are grouped into RRsets and each is compared, as a set, with the RRset the zone serves
(`Rfc2136.Proceeds`).  The service looks at one record at a time: it reads the owner, the white
space it begins with dropped (`OwnerName.IsRead`), and looks for a row with an equal value and an
equal priority column (`MatchesRow`).  The two meet where every row of the listed RRsets is
listed, names are not read as others, and the rows have their priorities stored
(`prerequisites_agree`). -/

namespace Rfc2136

/-- What a record of the prerequisite section asks of a zone. -/
inductive Prerequisite (ο τ δ : Type) where
  | nameInUse (owner : ο)
  | nameNotInUse (owner : ο)
  | rrsetExists (owner : ο) (type : τ)
  | rrsetDoesNotExist (owner : ο) (type : τ)
  | rr (owner : ο) (type : τ) (data : δ)

/-- A zone, as prerequisites see it. -/
structure View (ο τ δ : Type) where
  inUse : ο → Prop
  hasRrset : ο → τ → Prop
  rrset : ο → τ → Set δ

variable {ο τ δ : Type}

/-- A prerequisite that does not depend on values. -/
def Prerequisite.Holds (z : View ο τ δ) : Prerequisite ο τ δ → Prop
  | .nameInUse o => z.inUse o
  | .nameNotInUse o => ¬ z.inUse o
  | .rrsetExists o t => z.hasRrset o t
  | .rrsetDoesNotExist o t => ¬ z.hasRrset o t
  | .rr _ _ _ => True

/-- The rdata listed for an owner and type. -/
def listed (ps : List (Prerequisite ο τ δ)) (o : ο) (t : τ) : Set δ := {d | .rr o t d ∈ ps}

/-- Section 3.2.5: the prerequisites without values hold, and every listed RRset is the zone's. -/
def Proceeds (z : View ο τ δ) (ps : List (Prerequisite ο τ δ)) : Prop :=
  (∀ p ∈ ps, p.Holds z) ∧ ∀ o t, (listed ps o t).Nonempty → listed ps o t = z.rrset o t

def Prerequisite.owner : Prerequisite ο τ δ → ο
  | .nameInUse o | .nameNotInUse o | .rrsetExists o _ | .rrsetDoesNotExist o _ | .rr o _ _ => o

/-- Whether a prerequisite asks that something is not there. -/
def Prerequisite.isNegative : Prerequisite ο τ δ → Bool
  | .nameNotInUse _ | .rrsetDoesNotExist _ _ => true
  | .nameInUse _ | .rrsetExists _ _ | .rr _ _ _ => false

section Along

variable {ο' : Type}

/-- The same prerequisite about another owner. -/
def Prerequisite.about (o : ο') : Prerequisite ο τ δ → Prerequisite ο' τ δ
  | .nameInUse _ => .nameInUse o
  | .nameNotInUse _ => .nameNotInUse o
  | .rrsetExists _ t => .rrsetExists o t
  | .rrsetDoesNotExist _ t => .rrsetDoesNotExist o t
  | .rr _ t d => .rr o t d

/-- A zone under other names: a name has what the owners it names have. -/
def View.along (z : View ο τ δ) (names : ο → ο' → Prop) : View ο' τ δ where
  inUse n := ∃ o, names o n ∧ z.inUse o
  hasRrset n t := ∃ o, names o n ∧ z.hasRrset o t
  rrset n t := {d | ∃ o, names o n ∧ d ∈ z.rrset o t}

variable {z : View ο τ δ} {names : ο → ο' → Prop} {p : Prerequisite ο' τ δ}

theorem Prerequisite.holds_along {o : ο} (h : names o p.owner) (huniq : ∀ o', names o' p.owner → o' = o) :
    p.Holds (z.along names) ↔ (p.about o).Holds z := by
  have key : ∀ P : ο → Prop, (∃ o', names o' p.owner ∧ P o') ↔ P o := fun P =>
    ⟨fun ⟨o', ho', hP⟩ => huniq o' ho' ▸ hP, fun hP => ⟨o, h, hP⟩⟩
  cases p with
  | nameInUse n => exact key z.inUse
  | nameNotInUse n => exact (key z.inUse).not
  | rrsetExists n t => exact key (z.hasRrset · t)
  | rrsetDoesNotExist n t => exact (key (z.hasRrset · t)).not
  | rr n t d => exact Iff.rfl

theorem Prerequisite.holds_of_isNegative (h : ∀ o, ¬ names o p.owner) (hneg : p.isNegative = true) :
    p.Holds (z.along names) := by
  cases p with
  | nameNotInUse n => exact fun ⟨o, ho, _⟩ => h o ho
  | rrsetDoesNotExist n t => exact fun ⟨o, ho, _⟩ => h o ho
  | _ => cases hneg

/-- Where the RFC proceeds, a name that something is asked to be at is one of the zone. -/
theorem Proceeds.exists_names {ps : List (Prerequisite ο' τ δ)} (h : Proceeds (z.along names) ps) (hp : p ∈ ps)
    (hpos : p.isNegative = false) : ∃ o, names o p.owner := by
  have hholds := h.1 p hp
  cases p with
  | nameInUse n | rrsetExists n t => exact hholds.imp fun _ ho => ho.1
  | rr n t d =>
      have hd : d ∈ listed ps n t := hp
      rw [h.2 n t ⟨d, hd⟩] at hd
      exact hd.imp fun _ ho => ho.1
  | _ => cases hpos

end Along

end Rfc2136

namespace Bindizr

open Rfc1035 (Name Rdata Rr SectionAt)

/-! ### Names without white space -/

/-- Whether a label of a name holds white space. -/
def hasSpace (n : Name) : Bool := n.labels.any fun l => (fromUtf8 l).any fun t => t.any isWhitespace

theorem hasSpace_eq_false {n : Name} {ls : List Text} (hls : n.labels = wireLabels ls) :
    hasSpace n = false ↔ ∀ l ∈ ls, ∀ c ∈ l, isWhitespace c = false := by
  simp [hasSpace, hls, wireLabels, fromUtf8_asBytes]

theorem not_isWhitespace_lowerChar {c : Char} : isWhitespace (lowerChar c) = false ↔ isWhitespace c = false := by
  rcases lowerChar_cases c with ⟨_, e⟩ | ⟨h, e⟩
  · rw [e]
  · refine iff_of_true ?_ ?_
    · exact (isLdh_cases (u := false) (by simp [isLdh, isAsciiAlphanumeric, e])).1
    · exact (isLdh_cases (u := false) (by simp [isLdh, isAsciiAlphanumeric, h])).1

theorem hasSpace_lower {n : Name} {ls : List Text} (hls : n.labels = wireLabels ls) :
    hasSpace n.lower = hasSpace n := by
  rw [Bool.eq_iff_iff, ← not_iff_not, Bool.not_eq_true, Bool.not_eq_true, hasSpace_eq_false hls,
    hasSpace_eq_false (lower_labels_eq hls)]
  simp [toAsciiLowercase, not_isWhitespace_lowerChar]

theorem exists_asBytes_of_lt {l : List UInt8} (h : ∀ b ∈ l, b.toNat < 128) : ∃ t, l = asBytes t := by
  induction l with
  | nil => exact ⟨[], rfl⟩
  | cons b l ih =>
      obtain ⟨t, rfl⟩ := ih fun c hc => h c (by simp [hc])
      have hb := h b (by simp)
      have hn : (Char.ofNat b.toNat).toNat = b.toNat := by
        rw [Char.toNat_ofNat, if_pos (.inl (by omega))]
      refine ⟨Char.ofNat b.toNat :: t, ?_⟩
      rw [asBytes_cons, utf8EncodeChar_of_lt (by omega), hn, UInt8.ofNat_toNat]
      rfl

theorem eq_of_le_lowerOctet {b : UInt8} (h : 128 ≤ (lowerOctet b).toNat) : lowerOctet b = b := by
  unfold lowerOctet at h ⊢
  split at h
  · rename_i hb
    rw [UInt8.toNat_add, show (32 : UInt8).toNat = 32 from rfl] at h
    omega
  · rename_i hb
    rw [if_neg hb]

/-- Octets that are a text's in lower case are the octets of a text. -/
theorem exists_asBytes_of_lower {b : List UInt8} {t : Text} (h : b.map lowerOctet = asBytes t) :
    ∃ s, b = asBytes s ∧ toAsciiLowercase s = t := by
  suffices ∃ s, b = asBytes s by
    obtain ⟨s, rfl⟩ := this
    exact ⟨s, rfl, asBytes_injective ((asBytes_toAsciiLowercase s).trans h)⟩
  induction t generalizing b with
  | nil => exact ⟨[], by simpa using h⟩
  | cons c t ih =>
      rw [asBytes_cons] at h
      obtain ⟨b₁, b₂, rfl, h₁, h₂⟩ := List.map_eq_append_iff.1 h
      obtain ⟨s₂, rfl⟩ := ih h₂
      obtain ⟨s₁, rfl⟩ : ∃ s₁, b₁ = asBytes s₁ := by
        by_cases hc : c.toNat < 128
        · refine exists_asBytes_of_lt fun x hx => toNat_lowerOctet_lt.1 ?_
          have hmem := List.mem_map_of_mem (f := lowerOctet) hx
          rw [h₁, utf8EncodeChar_of_lt hc, List.mem_singleton] at hmem
          rw [hmem, UInt8.toNat_ofNat']
          omega
        · refine ⟨[c], ?_⟩
          rw [asBytes_cons, asBytes_nil, List.append_nil, ← h₁]
          refine (List.map_id b₁).symm.trans (List.map_congr_left fun x hx => (eq_of_le_lowerOctet ?_).symm)
          exact le_of_mem_utf8EncodeChar (by omega) _ (h₁ ▸ List.mem_map_of_mem hx)
      exact ⟨s₁ ++ s₂, by simp⟩

theorem exists_wireLabels_of_lower {n : Name} {ls : List Text} (h : n.lower.labels = wireLabels ls) :
    ∃ ks, n.labels = wireLabels ks ∧ ks.map toAsciiLowercase = ls := by
  rw [Rfc1035.Name.lower_labels] at h
  generalize n.labels = labels at h
  induction labels generalizing ls with
  | nil =>
      have : ls = [] := by simpa [wireLabels] using h.symm
      exact ⟨[], rfl, this.symm⟩
  | cons b labels ih =>
      cases ls with
      | nil => cases h
      | cons l ls =>
          rw [wireLabels, List.map_cons, List.map_cons, List.cons.injEq] at h
          obtain ⟨s, rfl, rfl⟩ := exists_asBytes_of_lower h.1
          obtain ⟨ks, rfl, rfl⟩ := ih h.2
          exact ⟨s :: ks, rfl, rfl⟩

/-! ### Targets -/

theorem presentationName_of_labels {n : Name} {ls : List Text} (hls : n.labels = wireLabels ls) :
    presentationName n = .ok (joinLabels ls ++ ['.']) := by
  refine presentationName_eq_ok.2 ⟨ls, hls, ?_⟩
  split
  · rename_i h
    rw [h]
    rfl
  · rfl

theorem trimEndMatches_joinLabels {ls : List Text} (h : ∀ l ∈ ls, l ≠ []) :
    trimEndMatches '.' (joinLabels ls ++ ['.']) = joinLabels ls ∨
      '\\' ∈ trimEndMatches '.' (joinLabels ls ++ ['.']) := by
  by_cases hne : ls = []
  · subst hne
    exact .inl rfl
  rw [trimEndMatches, List.rdropWhile_concat_pos _ _ _ (by simp)]
  rcases joinLabels_end hne h with ⟨p, e⟩ | ⟨p, c, hc, e⟩
  · refine .inr ?_
    have e' : p ++ ['\\', '.'] = (p ++ ['\\']) ++ ['.'] := by simp
    rw [e, e', List.rdropWhile_concat_pos _ _ _ (by simp), List.rdropWhile_concat_neg _ _ _ (by decide)]
    simp
  · exact .inl (by rw [e, List.rdropWhile_concat_neg _ _ _ (by simpa using hc)])

theorem backslash_not_mem_joinLabels {ls : List Text} {u : Bool} (h : ∀ l ∈ ls, classifyDomainLabel l u = .ok ()) :
    '\\' ∉ joinLabels ls := by
  have hldh : ∀ l ∈ ls, ∀ c ∈ l, isLdh u c = true := fun l hl => (classifyDomainLabel_eq_ok.1 (h l hl)).2.2.1
  intro hmem
  rcases mem_join hmem with hmem | ⟨t, ht, hmem⟩
  · cases List.mem_singleton.1 hmem
  · obtain ⟨l, hl, rfl⟩ := List.mem_map.1 ht
    rw [escapeLabel_eq_self fun c hc => (isLdh_cases (hldh l hl c hc)).2.2.2.1] at hmem
    exact (isLdh_cases (hldh l hl _ hmem)).2.2.2.1 (by decide)

/-- **Targets are compared as names.**  A row's target and a name of the message without white space
have the same canonical form exactly when they are the same name, up to case. -/
theorem IsTarget.toFqdnLowercase_eq_iff {x : Text} (hx : IsTarget x) {n m : Name} {ls : List Text}
    (hls : n.labels = wireLabels ls) (hspace : hasSpace n = false) (hm : m.labels = wireLabels (targetLabels x)) :
    toFqdnLowercase x = toFqdnLowercase (joinLabels ls ++ ['.']) ↔ m.lower = n.lower := by
  obtain ⟨hcanon, hlabels⟩ := hx.canonical
  have hne : ∀ l ∈ ls, l ≠ [] := fun l hl => (labels_ne_nil_of_name hls l hl).1
  have hne' : ∀ l ∈ targetLabels x, l ≠ [] := fun l hl => (classifyDomainLabel_eq_ok.1 (hlabels l hl)).1
  have hnoslash : '\\' ∉ toAsciiLowercase (joinLabels (targetLabels x)) := by
    intro h
    obtain ⟨c, hc, e⟩ := List.mem_map.1 h
    rw [lowerChar_eq_iff rfl rfl] at e
    exact backslash_not_mem_joinLabels hlabels (e ▸ hc)
  have htrim : trim (joinLabels ls ++ ['.']) = joinLabels ls ++ ['.'] := by
    refine trim_eq_self fun c hc => ?_
    rw [hasSpace_eq_false hls] at hspace
    rw [List.mem_append, List.mem_singleton] at hc
    rcases hc with hc | rfl
    · rcases mem_joinLabels hc with rfl | rfl | ⟨l, hl, hc⟩
      · rfl
      · rfl
      · exact hspace l hl c hc
    · rfl
  rw [hcanon, toFqdnLowercase, htrim, List.append_left_inj, Rfc1035.Name.ext_iff, lower_labels_eq hm, lower_labels_eq hls,
    wireLabels_injective.eq_iff]
  constructor
  · intro e
    rcases trimEndMatches_joinLabels hne with hself | hslash
    · rw [hself, ← joinLabels_map_lowercase, ← joinLabels_map_lowercase] at e
      have e := joinLabels_inj (by simpa using hne') (by simpa using hne) e
      simpa [Function.comp_def] using e
    · exact absurd (e ▸ List.mem_map.2 ⟨_, hslash, rfl⟩) hnoslash
  · intro e
    have hjoin : toAsciiLowercase (joinLabels (targetLabels x)) = toAsciiLowercase (joinLabels ls) := by
      rw [← joinLabels_map_lowercase, e, joinLabels_map_lowercase]
    rcases trimEndMatches_joinLabels hne with hself | hslash
    · rw [hself, hjoin]
    · rw [trimEndMatches, List.rdropWhile_concat_pos _ _ _ (by simp)] at hslash
      have hmem := (List.rdropWhile_prefix _ _).subset hslash
      exact absurd (hjoin ▸ List.mem_map.2 ⟨_, hmem, rfl⟩) hnoslash

/-! ### Values -/

theorem SrvRecordValue.parse_listed {weight port : ℕ} {v : Text} (hne : v ≠ []) (hws : ∀ c ∈ v, isWhitespace c = false)
    {srv : SrvRecordValue} : SrvRecordValue.parse (natText weight ++ [' '] ++ natText port ++ [' '] ++ v) none = .ok srv ↔
      srv = ⟨10, weight, port, v⟩ ∧ weight ≤ 65535 ∧ port ≤ 65535 := by
  rw [SrvRecordValue.parse_eq_ok, splitWhitespace_srv, splitWhitespace_eq_singleton hne hws]
  obtain ⟨q, w, o, t⟩ := srv
  simp only [List.cons.injEq, and_true, Option.getD_none, SrvRecordValue.mk.injEq]
  constructor
  · rintro ⟨_, _, ⟨rfl, rfl, rfl⟩, hw, ho, -, -, rfl⟩
    obtain ⟨rfl, hw⟩ := parseUnsigned_natText.1 hw
    obtain ⟨rfl, ho⟩ := parseUnsigned_natText.1 ho
    exact ⟨⟨rfl, rfl, rfl, rfl⟩, hw, ho⟩
  · rintro ⟨⟨rfl, rfl, rfl, rfl⟩, hw, ho⟩
    exact ⟨_, _, ⟨rfl, rfl, rfl⟩, parseUnsigned_natText.2 ⟨rfl, hw⟩, parseUnsigned_natText.2 ⟨rfl, ho⟩, by simp, by simp, rfl⟩

section Rows

variable [crates : Crates] (hcrates : crates.Rfc1035Wire) (hbase64 : crates.Base64RoundTrip)

include hcrates in
theorem IsTarget.served_iff {x : Text} (hx : IsTarget x) {n : Name} {v : Text} (hv : presentationName n = .ok v)
    (hspace : hasSpace n = false) :
    ∃ m, parseName x = .ok m ∧ (toFqdnLowercase x = toFqdnLowercase v ↔ m.lower = n.lower) := by
  obtain ⟨m, hm, hlabels⟩ := exists_parseName_target hcrates hx
  obtain ⟨ls, hls, -⟩ := presentationName_eq_ok.1 hv
  rw [presentationName_of_labels hls] at hv
  cases hv
  exact ⟨m, hm, hx.toFqdnLowercase_eq_iff hls hspace hlabels⟩

omit crates in
theorem not_isWhitespace_of_presentationName {n : Name} {v : Text} (hv : presentationName n = .ok v)
    (hspace : hasSpace n = false) : v ≠ [] ∧ ∀ c ∈ v, isWhitespace c = false := by
  obtain ⟨ls, hls, -⟩ := presentationName_eq_ok.1 hv
  rw [presentationName_of_labels hls] at hv
  cases hv
  refine ⟨by simp, fun c hc => ?_⟩
  rw [hasSpace_eq_false hls] at hspace
  rw [List.mem_append, List.mem_singleton] at hc
  rcases hc with hc | rfl
  · rcases mem_joinLabels hc with rfl | rfl | ⟨l, hl, hc⟩
    · rfl
    · rfl
    · exact hspace l hl c hc
  · rfl

/-- A row is compared with listed rdata as it is served, when its priority is stored. -/
def ComparedAsServed (d : Rdata) (t : RecordType) (value : Text) (priority : Option ℤ) (r : RecordData) : Prop :=
  t.valuesEqual r.value none value none = true ∧ r.priority = priority ↔
    (∃ d', r.served = some d' ∧ d'.lower = d.lower) ∧ (t.takesPriority = true → r.priority ≠ none)

section Compared

variable {r : RecordData} (hr : RowOk r)

include hr

theorem compared_a {addr : Ipv4Addr} (ht : r.recordType = .a) : ComparedAsServed (.a addr) .a (ipv4Text addr) none r := by
  obtain ⟨addr', haddr⟩ := validateValue_a (ht ▸ hr.value)
  have hnone := hr.priority_eq_none (by rw [ht]; rfl)
  have hinj : ipv4Text addr' = ipv4Text addr ↔ addr' = addr := by
    refine ⟨fun e => ?_, fun e => by rw [e]⟩
    have e := congrArg parseIpv4 e
    rwa [parseIpv4_ipv4Text, parseIpv4_ipv4Text, Option.some.injEq] at e
  simp [ComparedAsServed, RecordData.served, RecordType.valuesEqual, ht, RecordType.canonicalValue, parseA, haddr,
    parseIpv4_ipv4Text, hnone, RecordType.takesPriority, Rdata.lower, hinj]

theorem compared_aaaa {addr : Ipv6Addr} (ht : r.recordType = .aaaa) :
    ComparedAsServed (.aaaa addr) .aaaa (ipv6Text addr) none r := by
  obtain ⟨addr', haddr⟩ := validateValue_aaaa (ht ▸ hr.value)
  have hnone := hr.priority_eq_none (by rw [ht]; rfl)
  have hinj : ipv6Text addr' = ipv6Text addr ↔ addr' = addr := by
    refine ⟨fun e => ?_, fun e => by rw [e]⟩
    have e := congrArg parseIpv6 e
    rwa [parseIpv6_ipv6Text, parseIpv6_ipv6Text, Option.some.injEq] at e
  simp [ComparedAsServed, RecordData.served, RecordType.valuesEqual, ht, RecordType.canonicalValue, parseAaaa, haddr,
    parseIpv6_ipv6Text, hnone, RecordType.takesPriority, Rdata.lower, hinj]

include hcrates

theorem compared_host {n : Name} {v : Text} (hv : presentationName n = .ok v) (hspace : hasSpace n = false)
    {data : Name → Rdata} (h : r.recordType = .cname ∧ data = .cname ∨ r.recordType = .ns ∧ data = .ns ∨
      r.recordType = .ptr ∧ data = .ptr) : ComparedAsServed (data n) r.recordType v none r := by
  have htarget : IsTarget r.value := validateValue_host (by tauto) hr.value
  obtain ⟨m, hm, heq⟩ := htarget.served_iff hcrates hv hspace
  have hnone : r.recordType.takesPriority = false → r.priority = none := hr.priority_eq_none
  rcases h with ⟨ht, rfl⟩ | ⟨ht, rfl⟩ | ⟨ht, rfl⟩
  all_goals
    rw [ht] at hnone ⊢
    simp [ComparedAsServed, RecordData.served, RecordType.valuesEqual, ht, RecordType.canonicalValue, hnone rfl,
      RecordType.takesPriority, heq, toOption_eq_some.2 hm, Rdata.lower]

omit crates hcrates hr in
theorem priority_eq_iff {column : Option ℤ} {served listed : ℕ} {P : Prop} (h0 : 0 ≤ column.getD 10)
    (hserved : served = (column.getD 10).toNat) :
    P ∧ column = some (listed : ℤ) ↔ (served = listed ∧ P) ∧ column ≠ none := by
  cases column with
  | none => simp
  | some q =>
      rw [Option.getD_some] at h0 hserved
      simp only [Option.some.injEq, ne_eq, reduceCtorEq, not_false_eq_true, and_true, hserved]
      rw [and_comm]
      refine and_congr_left fun _ => ?_
      omega

theorem compared_mx {preference : ℕ} {n : Name} {v : Text} (hv : presentationName n = .ok v) (hspace : hasSpace n = false)
    (ht : r.recordType = .mx) : ComparedAsServed (.mx preference n) .mx v (some preference) r := by
  obtain ⟨mx, hmx, hvalid⟩ := validateValue_mx (ht ▸ hr.value)
  obtain ⟨hfields, h0, h1, hprio⟩ := MxRecordValue.parse_eq_ok.1 hmx
  obtain ⟨hne, hws⟩ := not_isWhitespace_of_presentationName hv hspace
  have hrow : MxRecordValue.parse r.value none = .ok ⟨10, mx.target⟩ :=
    MxRecordValue.parse_eq_ok.2 ⟨hfields, by simp, by simp, rfl⟩
  have hlisted : MxRecordValue.parse v none = .ok ⟨10, v⟩ :=
    MxRecordValue.parse_eq_ok.2 ⟨splitWhitespace_eq_singleton hne hws, by simp, by simp, rfl⟩
  obtain ⟨m, hm, heq⟩ := (isTarget_mx hmx hvalid).served_iff hcrates hv hspace
  simp only [ComparedAsServed, RecordData.served, RecordType.valuesEqual, ht, RecordType.canonicalValue, hrow, hlisted,
    MxRecordValue.canonical, beq_iff_eq, List.append_cancel_left_eq, heq, toOption_eq_some.2 hmx, toOption_eq_some.2 hm,
    Option.bind_eq_bind, Option.bind_some, Option.map_some, Option.some.injEq, exists_eq_left', Rdata.lower,
    Rdata.mx.injEq, RecordType.takesPriority, forall_const]
  exact priority_eq_iff h0 hprio

omit crates hcrates hr in
/-- SRV values in canonical form; a listed number that is not 16-bit gives the text itself, which is none. -/
theorem canonicalValue_srv_eq_iff {x : Text} {srv : SrvRecordValue} (hrow : SrvRecordValue.parse x none = .ok srv)
    {weight port : ℕ} {v : Text} (hne : v ≠ []) (hws : ∀ c ∈ v, isWhitespace c = false) :
    RecordType.srv.canonicalValue x none =
      RecordType.srv.canonicalValue (natText weight ++ [' '] ++ natText port ++ [' '] ++ v) none ↔
        srv.weight = weight ∧ srv.port = port ∧ toFqdnLowercase srv.target = toFqdnLowercase v := by
  obtain ⟨w, o, hfields, hw, ho, -, -, hprio⟩ := SrvRecordValue.parse_eq_ok.1 hrow
  simp only [RecordType.canonicalValue, hrow, SrvRecordValue.canonical]
  split
  · rename_i srv' hsrv'
    obtain ⟨rfl, -⟩ := (SrvRecordValue.parse_listed hne hws).1 hsrv'
    simp only [hprio, Option.getD_none, Int.reduceToNat, List.append_assoc, List.cons_append, List.nil_append,
      natText_space_inj, true_and]
  · rename_i hsrv'
    have hbig : ¬ (weight ≤ 65535 ∧ port ≤ 65535) := fun hle => by
      rw [(SrvRecordValue.parse_listed hne hws).2 ⟨rfl, hle.1, hle.2⟩] at hsrv'
      cases hsrv'
    have hw := le_of_parseUnsigned hw
    have ho := le_of_parseUnsigned ho
    simp only [hprio, Option.getD_none, Int.reduceToNat, List.append_assoc, List.cons_append, List.nil_append,
      natText_space_inj]
    constructor
    · rintro ⟨rfl, rfl, -⟩
      omega
    · rintro ⟨rfl, rfl, -⟩
      omega

theorem compared_srv {priority weight port : ℕ} {n : Name} {v : Text} (hv : presentationName n = .ok v)
    (hspace : hasSpace n = false) (ht : r.recordType = .srv) :
    ComparedAsServed (.srv priority weight port n) .srv (natText weight ++ [' '] ++ natText port ++ [' '] ++ v)
      (some priority) r := by
  obtain ⟨srv, hsrv, hvalid⟩ := validateValue_srv (ht ▸ hr.value)
  obtain ⟨w, o, hfields, hw, ho, h0, h1, hprio⟩ := SrvRecordValue.parse_eq_ok.1 hsrv
  obtain ⟨hne, hws⟩ := not_isWhitespace_of_presentationName hv hspace
  have hrow : SrvRecordValue.parse r.value none = .ok ⟨10, srv.weight, srv.port, srv.target⟩ :=
    SrvRecordValue.parse_eq_ok.2 ⟨w, o, hfields, hw, ho, by simp, by simp, rfl⟩
  obtain ⟨m, hm, heq⟩ := (isTarget_srv hsrv hvalid).served_iff hcrates hv hspace
  simp only [ComparedAsServed, RecordData.served, RecordType.valuesEqual, ht, beq_iff_eq,
    canonicalValue_srv_eq_iff hrow hne hws, heq, toOption_eq_some.2 hsrv, toOption_eq_some.2 hm, Option.bind_eq_bind,
    Option.bind_some, Option.map_some, Option.some.injEq, exists_eq_left', Rdata.lower, Rdata.srv.injEq,
    RecordType.takesPriority, forall_const]
  exact priority_eq_iff h0 hprio

include hbase64

theorem compared_txt {octets : List UInt8} (hlen : octets.length ≤ 65535) (hrtxt : TxtOk r) (ht : r.recordType = .txt) :
    ComparedAsServed (.txt octets) .txt (txtIntoEncoded octets) none r := by
  obtain ⟨rdata, hrdata, hok⟩ := hrtxt ht
  simp only [ComparedAsServed, served_txt hcrates hbase64 ht hrdata hok, RecordType.valuesEqual,
    RecordType.canonicalValue, hrdata, beq_iff_eq, txtIntoEncoded_inj hbase64,
    hr.priority_eq_none (by rw [ht]; rfl), and_true, RecordType.takesPriority, Bool.false_eq_true, false_imp_iff]
  constructor
  · rintro rfl
    exact ⟨_, ⟨rfl, hlen⟩, rfl⟩
  · rintro ⟨_, ⟨rfl, -⟩, e⟩
    simpa [Rdata.lower] using e

/-- **One listed record and one row.**  When no name in the rdata holds white space, the value and the
priority column are those listed exactly when the row is served with the listed rdata and has its
priority stored. -/
theorem Presents.comparedAsServed {d : Rdata} {t : RecordType} {value : Text} {priority : Option ℤ}
    (h : Presents d t value priority) (hlen : ∀ octets, d = .txt octets → octets.length ≤ 65535)
    (hspace : ∀ n ∈ d.names, hasSpace n = false) (hrtxt : TxtOk r) (ht : r.recordType = t) :
    ComparedAsServed d t value priority r := by
  cases h with
  | a addr => exact compared_a hr ht
  | aaaa addr => exact compared_aaaa hr ht
  | ns hv => exact ht ▸ compared_host hcrates hr hv (hspace _ (by simp [Rdata.names])) (.inr (.inl ⟨ht, rfl⟩))
  | cname hv => exact ht ▸ compared_host hcrates hr hv (hspace _ (by simp [Rdata.names])) (.inl ⟨ht, rfl⟩)
  | ptr hv => exact ht ▸ compared_host hcrates hr hv (hspace _ (by simp [Rdata.names])) (.inr (.inr ⟨ht, rfl⟩))
  | mx hv => exact compared_mx hcrates hr hv (hspace _ (by simp [Rdata.names])) ht
  | srv hv => exact compared_srv hcrates hr hv (hspace _ (by simp [Rdata.names])) ht
  | txt _ _ => exact compared_txt hcrates hbase64 hr (hlen _ rfl) hrtxt ht

end Compared

/-! ### Listed records that are served -/

omit crates in
theorem presentable_of_lower_eq {n m : Name} {ls : List Text} (hm : m.labels = wireLabels ls)
    (h : ∀ l ∈ ls, classifyDomainLabel l true = .ok ()) (e : m.lower = n.lower) :
    (∃ v, presentationName n = .ok v) ∧ hasSpace n = false := by
  obtain ⟨ks, hks, -⟩ := exists_wireLabels_of_lower (e ▸ lower_labels_eq hm)
  refine ⟨⟨_, presentationName_of_labels hks⟩, ?_⟩
  rw [← hasSpace_lower hks, ← e, hasSpace_lower hm, hasSpace_eq_false hm]
  exact fun l hl c hc => (isLdh_cases ((classifyDomainLabel_eq_ok.1 (h l hl)).2.2.1 c hc)).1

include hcrates in
theorem RowOk.served_names {r : RecordData} (hr : RowOk r) {d : Rdata} (hd : r.served = some d) :
    ∀ n ∈ d.names, ∃ ls, n.labels = wireLabels ls ∧ ∀ l ∈ ls, classifyDomainLabel l true = .ok () := by
  have hvalue := hr.value
  have htarget : ∀ {x : Text} {n : Name}, IsTarget x → parseName x = .ok n →
      ∃ ls, n.labels = wireLabels ls ∧ ∀ l ∈ ls, classifyDomainLabel l true = .ok () := by
    intro x n hx hn
    obtain ⟨m, hm, hlabels⟩ := exists_parseName_target hcrates hx
    rw [hn] at hm
    cases hm
    exact ⟨_, hlabels, hx.canonical.2⟩
  unfold RecordData.served at hd
  cases ht : r.recordType with
  | soa => exact absurd ht hr.notSoa
  | a | aaaa =>
      simp only [ht, Option.map_eq_some_iff] at hd
      obtain ⟨_, _, rfl⟩ := hd
      simp [Rdata.names]
  | cname | ns | ptr =>
      simp only [ht, Option.map_eq_some_iff, toOption_eq_some] at hd
      obtain ⟨n, hn, rfl⟩ := hd
      rw [ht] at hvalue
      simpa [Rdata.names] using htarget (validateValue_host (by simp) hvalue) hn
  | mx =>
      rw [ht] at hvalue
      obtain ⟨mx, hmx, hv⟩ := validateValue_mx hvalue
      simp only [ht, toOption_eq_some.2 hmx, Option.bind_eq_bind, Option.bind_some, Option.map_eq_some_iff,
        toOption_eq_some] at hd
      obtain ⟨n, hn, rfl⟩ := hd
      simpa [Rdata.names] using htarget (isTarget_mx hmx hv) hn
  | srv =>
      rw [ht] at hvalue
      obtain ⟨srv, hsrv, hv⟩ := validateValue_srv hvalue
      simp only [ht, toOption_eq_some.2 hsrv, Option.bind_eq_bind, Option.bind_some, Option.map_eq_some_iff,
        toOption_eq_some] at hd
      obtain ⟨n, hn, rfl⟩ := hd
      simpa [Rdata.names] using htarget (isTarget_srv hsrv hv) hn
  | txt =>
      simp only [ht] at hd
      split at hd
      all_goals
        obtain ⟨_, _, rfl⟩ := Option.map_eq_some_iff.1 hd
        simp [Rdata.names]

omit crates in
theorem chunks_eq {chunks : List (List UInt8)} {segments : List Text} (hc : ∀ c ∈ chunks, c.length ≤ 255)
    (hs : ∀ s ∈ segments, byteLen s ≤ 255)
    (h : chunks.flatMap (fun c => UInt8.ofNat c.length :: c) = txtRdata segments) : chunks = segments.map asBytes := by
  induction chunks generalizing segments with
  | nil =>
      cases segments with
      | nil => rfl
      | cons s segments => simp [txtRdata, characterString] at h
  | cons c chunks ih =>
      cases segments with
      | nil => simp [txtRdata] at h
      | cons s segments =>
          have hlen := hc c (by simp)
          have hlen' := hs s (by simp)
          simp only [txtRdata, characterString, List.flatMap_cons, List.cons_append, List.cons.injEq] at h
          have e : c.length = (asBytes s).length := by
            have := congrArg UInt8.toNat h.1
            rw [UInt8.toNat_ofNat', UInt8.toNat_ofNat'] at this
            rw [length_asBytes]
            omega
          obtain ⟨rfl, h2⟩ := List.append_inj h.2 e
          rw [List.map_cons, ih (fun c hc' => hc c (by simp [hc'])) (fun s hs' => hs s (by simp [hs'])) h2]

theorem rrToRecordValue_of_wireRdata {message : List UInt8} {rr : UpdateRecord} {d : Rdata}
    (h : wireRdata message rr = some d) (hnames : ∀ n ∈ d.names, ∃ v, presentationName n = .ok v)
    (hutf8 : ∀ chunks, d = .txt rr.rdata → crates.txtFromOctets rr.rdata = .ok chunks →
      ∀ c ∈ chunks, (fromUtf8 c).isSome) : ∃ x, rrToRecordValue rr message = .ok x := by
  have hrdataName : ∀ {what : Text} {n : Name}, (∃ v, presentationName n = .ok v) → ∃ v, rdataName what n = .ok v := by
    rintro what n ⟨v, hv⟩
    exact ⟨v, Fallible.mapError_eq_ok.2 hv⟩
  -- the types whose rdata is one name
  have hname : ∀ {rt : RecordType} {n : Name}, parseRdata message rr rt.asStr crates.parsedName = .ok n →
      (∃ v, presentationName n = .ok v) → ∃ x, (do
        let name ← parseRdata message rr rt.asStr crates.parsedName
        let value ← rdataName rt.asStr name
        pure (rt, value, none) : Except DynamicUpdateError (RecordType × Text × Option ℤ)) = .ok x := by
    intro rt n hn hv
    obtain ⟨v, hv⟩ := hrdataName hv
    exact ⟨(rt, v, none), by rw [hn, Fallible.ok_bind, hv]; rfl⟩
  unfold wireRdata at h
  unfold rrToRecordValue
  split at h
  case h_9 => cases h
  all_goals
    rename_i htype
    simp only [Option.map_eq_some_iff, toOption_eq_some] at h
    rw [htype]
    simp only [rrTypeToRecordType, Fallible.ok_bind]
    obtain ⟨x, hx, rfl⟩ := h
  · rw [hx]
    exact ⟨_, rfl⟩
  · exact hname hx (hnames _ (by simp [Rdata.names]))
  · exact hname hx (hnames _ (by simp [Rdata.names]))
  · exact hname hx (hnames _ (by simp [Rdata.names]))
  · obtain ⟨v, hv⟩ := hrdataName (hnames x.2 (by simp [Rdata.names]))
    rw [hx, Fallible.ok_bind, hv]
    exact ⟨_, rfl⟩
  · rw [hx]
    have hall : (x.any fun c => (fromUtf8 c).isNone) = false := by
      rw [List.any_eq_false]
      intro c hc
      rw [Option.isNone_iff_eq_none, ← Ne, Option.ne_none_iff_isSome]
      exact hutf8 x rfl hx c hc
    simp only [hall, Bool.false_eq_true, if_false]
    exact ⟨_, rfl⟩
  · rw [hx]
    exact ⟨_, rfl⟩
  · obtain ⟨v, hv⟩ := hrdataName (hnames x.2.2.2 (by simp [Rdata.names]))
    rw [hx, Fallible.ok_bind, hv]
    exact ⟨_, rfl⟩

theorem rrTypeToRecordType_of_rrToRecordValue {message : List UInt8} {rr : UpdateRecord} {t : RecordType} {value : Text}
    {priority : Option ℤ} (h : rrToRecordValue rr message = .ok (t, value, priority)) :
    rrTypeToRecordType rr.rrType = .ok t := by
  unfold rrToRecordValue at h
  obtain ⟨rt, hrt, h⟩ := Fallible.bind_eq_ok.1 h
  rw [hrt]
  cases rt with
  | a | aaaa =>
      obtain ⟨_, _, h⟩ := Fallible.bind_eq_ok.1 h
      cases h
      rfl
  | mx | srv | cname | ns | ptr =>
      obtain ⟨_, _, h⟩ := Fallible.bind_eq_ok.1 h
      obtain ⟨_, _, h⟩ := Fallible.bind_eq_ok.1 h
      cases h
      rfl
  | txt =>
      simp only at h
      split at h
      · cases h
      · split at h
        · cases h
        · cases h
          rfl
  | soa => cases h

theorem presents_of_wireRdata {message : List UInt8} {rr : UpdateRecord} {d : Rdata} {t : RecordType} {value : Text}
    {priority : Option ℤ} (hd : wireRdata message rr = some d) (h : rrToRecordValue rr message = .ok (t, value, priority)) :
    Presents d t value priority := by
  obtain ⟨d', hd', hpres⟩ := rrToRecordValue_presents h
  rw [hd] at hd'
  cases hd'
  exact hpres

/-- A row is what a listed record asks for, as the service compares them: the value up to its
canonical form, and the priority column. -/
def MatchesRow (message : List UInt8) (rr : UpdateRecord) (r : Record) : Prop :=
  ∃ value priority, rrToRecordValue rr message = .ok (r.recordType, value, priority) ∧
    r.recordType.valuesEqual r.value none value none = true ∧ r.priority = priority

section Listed

variable {message : List UInt8} {rr : UpdateRecord} {d : Rdata} {r : Record} (hd : wireRdata message rr = some d)
  (hlen : rr.rdata.length ≤ 65535) (hr : RowOk r.toRecordData) (hrtxt : TxtOk r.toRecordData)

include hcrates hbase64 hd hlen hr hrtxt

theorem comparedAsServed_of_value {value : Text} {priority : Option ℤ}
    (hvalue : rrToRecordValue rr message = .ok (r.recordType, value, priority)) (hspace : ∀ n ∈ d.names, hasSpace n = false) :
    ComparedAsServed d r.recordType value priority r.toRecordData := by
  refine (presents_of_wireRdata hd hvalue).comparedAsServed hcrates hbase64 hr ?_ hspace hrtxt rfl
  rintro octets rfl
  rwa [(wireRdata_txt hd).1]

theorem MatchesRow.served (h : MatchesRow message rr r) (hspace : ∀ n ∈ d.names, hasSpace n = false) :
    (∃ d', r.toRecordData.served = some d' ∧ d'.lower = d.lower) ∧
      (r.recordType.takesPriority = true → r.priority ≠ none) := by
  obtain ⟨value, priority, hvalue, heq⟩ := h
  exact (comparedAsServed_of_value hcrates hbase64 hd hlen hr hrtxt hvalue hspace).1 heq

theorem matchesRow_of_served (htxt : crates.TxtOctets) (ht : rrTypeToRecordType rr.rrType = .ok r.recordType)
    {d' : Rdata} (hs : r.toRecordData.served = some d') (he : d'.lower = d.lower) :
    (∀ n ∈ d.names, (∃ v, presentationName n = .ok v) ∧ hasSpace n = false) ∧
      ((r.recordType.takesPriority = true → r.priority ≠ none) → MatchesRow message rr r) := by
  have hnames : ∀ n ∈ d.names, (∃ v, presentationName n = .ok v) ∧ hasSpace n = false := by
    intro n hn
    have hmem : n.lower ∈ d'.lower.names := by
      rw [he, Rdata.names_lower]
      exact List.mem_map_of_mem hn
    rw [Rdata.names_lower] at hmem
    obtain ⟨m, hm, e⟩ := List.mem_map.1 hmem
    obtain ⟨ls, hls, hldh⟩ := hr.served_names hcrates hs m hm
    exact presentable_of_lower_eq hls hldh e
  refine ⟨hnames, fun hp => ?_⟩
  have hutf8 : ∀ chunks, d = .txt rr.rdata → crates.txtFromOctets rr.rdata = .ok chunks →
      ∀ c ∈ chunks, (fromUtf8 c).isSome := by
    rintro chunks rfl hchunks c hc
    have hrt : r.recordType = .txt := by
      rw [(wireRdata_txt hd).2] at ht
      exact (Except.ok.inj ht).symm
    obtain ⟨rdata, hrdata, segments, hseg, rfl⟩ := hrtxt hrt
    obtain ⟨rfl, -⟩ := (served_txt hcrates hbase64 hrt hrdata ⟨segments, hseg, rfl⟩).1 hs
    have e : txtRdata segments = rr.rdata := by simpa [Rdata.lower] using he
    obtain ⟨hle, hoctets⟩ := htxt _ _ hchunks
    rw [chunks_eq hle hseg (hoctets.symm.trans e.symm)] at hc
    obtain ⟨s, -, rfl⟩ := List.mem_map.1 hc
    rw [fromUtf8_asBytes]
    rfl
  obtain ⟨⟨t, value, priority⟩, hvalue⟩ := rrToRecordValue_of_wireRdata hd (fun n hn => (hnames n hn).1) hutf8
  have ht' := rrTypeToRecordType_of_rrToRecordValue hvalue
  rw [ht] at ht'
  cases ht'
  have hcompared := comparedAsServed_of_value hcrates hbase64 hd hlen hr hrtxt hvalue fun n hn => (hnames n hn).2
  exact ⟨value, priority, hvalue, hcompared.2 ⟨⟨d', hs, he⟩, hp⟩⟩

end Listed

/-! ### Owners -/

/-- A name of the message that is an owner of the zone, up to case. -/
def OwnerName.IsNamed (o : OwnerName) (zone : ZoneName) (n : Name) : Prop :=
  n.lower.labels = wireLabels (o.absoluteLabels zone)

/-- A name of the message that is read as an owner of the zone, the white space it begins with dropped. -/
def OwnerName.IsRead (o : OwnerName) (zone : ZoneName) (n : Name) : Prop :=
  ∃ ls, n.labels = wireLabels ls ∧ o.absoluteLabels zone = (trimFirst ls).map toAsciiLowercase

section Owners

variable {o o' : OwnerName} {zone : ZoneName} {n : Name}

omit crates

theorem OwnerName.absoluteLabels_injective (zone : ZoneName) (h : o.absoluteLabels zone = o'.absoluteLabels zone) :
    o = o' :=
  OwnerName.ext_labels (List.append_cancel_right h)

theorem OwnerName.isRead_iff {v : Text} (hv : presentationName n = .ok v) : o.IsRead zone n ↔ ownerInZone v zone = .ok o := by
  obtain ⟨ls, hls, -⟩ := presentationName_eq_ok.1 hv
  rw [presentationName_of_labels hls] at hv
  cases hv
  have hread : o.IsRead zone n ↔ o.absoluteLabels zone = (trimFirst ls).map toAsciiLowercase := by
    refine ⟨fun ⟨ks, hks, h⟩ => ?_, fun h => ⟨ls, hls, h⟩⟩
    rwa [wireLabels_injective (hls.symm.trans hks)]
  rw [hread]
  by_cases hne : ls = []
  · subst hne
    exact iff_of_false (o.absoluteLabels_ne_nil zone) (by rintro ⟨⟩)
  · rw [ownerInZone_eq_ok hls hne]

theorem OwnerName.exists_isRead_iff {P : OwnerName → Prop} :
    (∃ v, presentationName n = .ok v ∧ ∃ o, ownerInZone v zone = .ok o ∧ P o) ↔ ∃ o, o.IsRead zone n ∧ P o := by
  constructor
  · rintro ⟨v, hv, o, ho, hP⟩
    exact ⟨o, (isRead_iff hv).2 ho, hP⟩
  · rintro ⟨o, ⟨ls, hls, e⟩, hP⟩
    have hv := presentationName_of_labels hls
    exact ⟨_, hv, o, (isRead_iff hv).1 ⟨ls, hls, e⟩, hP⟩

theorem OwnerName.IsRead.unique (h : o.IsRead zone n) (h' : o'.IsRead zone n) : o = o' := by
  obtain ⟨ls, hls, e⟩ := h
  obtain ⟨ks, hks, e'⟩ := h'
  rw [wireLabels_injective (hls.symm.trans hks)] at e
  exact OwnerName.absoluteLabels_injective zone (e.trans e'.symm)

theorem OwnerName.isNamed_iff_isRead : o.IsNamed zone n ↔ o.IsRead zone n ∧ startsWithSpace n = false := by
  constructor
  · intro hlabels
    obtain ⟨ls, hls, hlower⟩ := exists_wireLabels_of_lower hlabels
    have htrim : trimFirst ls = ls := by
      cases ls with
      | nil => rfl
      | cons l rest =>
          obtain ⟨c, t, rfl⟩ := List.exists_cons_of_ne_nil (labels_ne_nil_of_name hls l (by simp)).1
          have hlabel := o.absoluteLabels_isOwnerLabel zone (toAsciiLowercase (c :: t)) (by rw [← hlower]; simp)
          have hc := (OwnerName.not_isWhitespace_of_mem_ownerLabel (c := lowerChar c) hlabel
            (by simp [toAsciiLowercase])).1
          rw [not_isWhitespace_lowerChar] at hc
          rw [trimFirst, List.dropWhile_cons_of_neg (by simp [hc])]
    exact ⟨⟨ls, hls, by rw [htrim, hlower]⟩, (startsWithSpace_eq_false hls).2 htrim⟩
  · rintro ⟨⟨ls, hls, e⟩, hspace⟩
    rw [OwnerName.IsNamed, lower_labels_eq hls, e, (startsWithSpace_eq_false hls).1 hspace]

theorem OwnerName.isNamed_iff {v : Text} (hv : presentationName n = .ok v) :
    o.IsNamed zone n ↔ ownerInZone v zone = .ok o ∧ startsWithSpace n = false := by
  rw [OwnerName.isNamed_iff_isRead, OwnerName.isRead_iff hv]

end Owners

/-! ### The section as a whole -/

/-- What a record of the prerequisite section asks, by RFC 2136 section 2.4; names are in lower case. -/
def IsPrerequisite (message : List UInt8) (rr : Rr) : Rfc2136.Prerequisite Name RecordType Rdata → Prop
  | .nameInUse n => n = rr.owner.lower ∧ rr.ttl = 0 ∧ rr.rrClass = 255 ∧ rr.rrType = 255 ∧ rr.rdata = []
  | .nameNotInUse n => n = rr.owner.lower ∧ rr.ttl = 0 ∧ rr.rrClass = 254 ∧ rr.rrType = 255 ∧ rr.rdata = []
  | .rrsetExists n t => n = rr.owner.lower ∧ rr.ttl = 0 ∧ rr.rrClass = 255 ∧ rrTypeToRecordType rr.rrType = .ok t ∧
      rr.rdata = []
  | .rrsetDoesNotExist n t => n = rr.owner.lower ∧ rr.ttl = 0 ∧ rr.rrClass = 254 ∧
      rrTypeToRecordType rr.rrType = .ok t ∧ rr.rdata = []
  | .rr n t d => n = rr.owner.lower ∧ rr.ttl = 0 ∧ rr.rrClass = 1 ∧ rrTypeToRecordType rr.rrType = .ok t ∧
      rr.rdata ≠ [] ∧ ∃ d', wireRdata message (.ofRr rr []) = some d' ∧ d = d'.lower

/-- A well-formed record of a prerequisite section, about any name in the zone. -/
structure PrerequisiteRr (message : List UInt8) (zone : ZoneName) where
  rr : Rr
  asks : Rfc2136.Prerequisite Name RecordType Rdata
  inZone : wireLabels zone.labels <:+ rr.owner.lower.labels
  wellFormed : IsPrerequisite message rr asks

/-- What the rows of a zone hold, as they are served. -/
def stored (records : List Record) : Rfc2136.View OwnerName RecordType Rdata where
  inUse o := o.isApex = true ∨ ∃ r ∈ records, r.name = o
  hasRrset o t := ∃ r ∈ records, r.name = o ∧ r.recordType = t
  rrset o t := {d | ∃ r ∈ records, r.name = o ∧ r.recordType = t ∧ ∃ d', r.toRecordData.served = some d' ∧ d = d'.lower}

/-- The zone under the names of a message, in lower case. -/
def view (zone : ZoneName) (records : List Record) : Rfc2136.View Name RecordType Rdata :=
  (stored records).along fun o n => n.labels = wireLabels (o.absoluteLabels zone)

/-- The check of the prerequisite section, `count` records at a position: every record is read, decoded and evaluated. -/
def PrerequisitesPass (message : List UInt8) (zone : Zone) (records : List Record) (pos count : ℕ) : Prop :=
  ∃ rrs next ps, parseRrs message count pos = .ok (rrs, next) ∧ rrs.mapM (decodePrerequisite message) = .ok ps ∧
    ps.forM (evaluatePrerequisite zone records) = .ok ()

namespace PrerequisiteRr

variable {message : List UInt8} {zone : ZoneName} (p : PrerequisiteRr message zone)

/-- A listed record has a row of the owner that matches it. -/
def Matched (records : List Record) (o : OwnerName) : Prop :=
  ∀ n t d, p.asks = .rr n t d → ∃ r ∈ records, r.name = o ∧ MatchesRow message (.ofRr p.rr []) r

/-- The zone is as the record asks at the owner its name is read as, and a row matches a listed record. -/
def Accepted (records : List Record) : Prop :=
  ∃ o : OwnerName, o.IsRead zone p.rr.owner ∧ (p.asks.about o).Holds (stored records) ∧ p.Matched records o

/-- No name in listed rdata holds white space. -/
def NoSpace : Prop := ∀ n t d, p.asks = .rr n t d → ∀ m ∈ d.names, hasSpace m = false

/-- A listed record is the rdata of a row that has its priority stored. -/
def PriorityStored (records : List Record) : Prop :=
  ∀ n t d, p.asks = .rr n t d → ∃ r ∈ records, r.name.IsNamed zone p.rr.owner ∧ r.recordType = t ∧
    (∃ d', r.toRecordData.served = some d' ∧ d = d'.lower) ∧ (t.takesPriority = true → r.priority ≠ none)

/-- A name that is not to be there is read as an owner, at which nothing is either if the name begins with white space. -/
def AbsenceRead (records : List Record) : Prop :=
  p.asks.isNegative = true → ∃ o : OwnerName, o.IsRead zone p.rr.owner ∧
    (startsWithSpace p.rr.owner = true → (p.asks.about o).Holds (stored records))

theorem owner_asks : p.asks.owner = p.rr.owner.lower := by
  have h := p.wellFormed
  cases hp : p.asks <;> rw [hp] at h <;> exact h.1

theorem holds_view {o : OwnerName} (ho : o.IsNamed zone p.rr.owner) {records : List Record} :
    p.asks.Holds (view zone records) ↔ (p.asks.about o).Holds (stored records) := by
  rw [OwnerName.IsNamed, ← p.owner_asks] at ho
  exact Rfc2136.Prerequisite.holds_along ho fun o' ho' =>
    OwnerName.absoluteLabels_injective zone (wireLabels_injective (ho'.symm.trans ho))

theorem exists_isNamed {ps : List (PrerequisiteRr message zone)} {records : List Record}
    (h : Rfc2136.Proceeds (view zone records) (ps.map (·.asks))) (hp : p ∈ ps) (hpos : p.asks.isNegative = false) :
    ∃ o : OwnerName, o.IsNamed zone p.rr.owner := by
  obtain ⟨o, ho⟩ := h.exists_names (List.mem_map_of_mem hp) hpos
  exact ⟨o, by rwa [owner_asks] at ho⟩

end PrerequisiteRr

theorem ownerExists_iff {o : OwnerName} {records : List Record} :
    ownerExists o records = true ↔ (stored records).inUse o := by
  simp [ownerExists, stored]

theorem rrsetExists_iff {o : OwnerName} {t : RecordType} {records : List Record} :
    rrsetExists o t records = true ↔ (stored records).hasRrset o t := by
  simp [rrsetExists, stored]

omit crates in
theorem ite_ok_eq_ok {ε : Type} {c : Prop} [Decidable c] {e : ε} :
    (if c then Except.ok () else Except.error e) = .ok () ↔ c := by
  split <;> simp_all

theorem PrerequisiteRr.evaluates_iff {message : List UInt8} {zone : Zone} (p : PrerequisiteRr message zone.name)
    {records : List Record} {v : Text} :
    (∃ q, decodePrerequisite message (.ofRr p.rr v) = .ok q ∧ evaluatePrerequisite zone records q = .ok ()) ↔
      ∃ o, ownerInZone v zone.name = .ok o ∧ (p.asks.about o).Holds (stored records) ∧ p.Matched records o := by
  obtain ⟨rr, asks, hzone, hwf⟩ := p
  unfold PrerequisiteRr.Matched
  cases asks with
  | nameInUse n | nameNotInUse n =>
      obtain ⟨-, httl, hclass, htype, hrdata⟩ := hwf
      simp [decodePrerequisite, UpdateRecord.ofRr, httl, hclass, htype, hrdata, evaluatePrerequisite,
        Fallible.bind_eq_ok, ownerExists_iff, Rfc2136.Prerequisite.Holds, Rfc2136.Prerequisite.about]
  | rrsetExists n t | rrsetDoesNotExist n t =>
      obtain ⟨-, httl, hclass, htype, hrdata⟩ := hwf
      have hany : rr.rrType ≠ 255 := fun e => by simp [e, rrTypeToRecordType] at htype
      simp [decodePrerequisite, UpdateRecord.ofRr, httl, hclass, htype, hany, hrdata, evaluatePrerequisite, Except.map,
        Fallible.bind_eq_ok, rrsetExists_iff, Rfc2136.Prerequisite.Holds, Rfc2136.Prerequisite.about]
  | rr n t d =>
      obtain ⟨-, httl, hclass, htype, hrdata, hd⟩ := hwf
      have hany : rr.rrType ≠ 255 := fun e => by simp [e, rrTypeToRecordType] at htype
      have hdecode : decodePrerequisite message (.ofRr rr v) = (rrToRecordValue (.ofRr rr []) message).map fun x =>
          .rrInUse v x.1 x.2.1 x.2.2 := by
        simp [decodePrerequisite, UpdateRecord.ofRr, httl, hclass, hany, hrdata, rrToRecordValue, parseRdata]
      simp only [hdecode, Rfc2136.Prerequisite.about, Rfc2136.Prerequisite.Holds, true_and]
      constructor
      · rintro ⟨q, hq, heval⟩
        obtain ⟨⟨t', value, priority⟩, hvalue, rfl⟩ := Fallible.map_eq_ok.1 hq
        obtain ⟨o, ho, heval⟩ := Fallible.bind_eq_ok.1 heval
        simp only [ite_ok_eq_ok, List.any_eq_true, Bool.and_eq_true, beq_iff_eq] at heval
        obtain ⟨r, hr, ⟨⟨hro, rfl⟩, heq⟩, hp⟩ := heval
        exact ⟨o, ho, fun _ _ _ _ => ⟨r, hr, hro, value, priority, hvalue, heq, hp⟩⟩
      · rintro ⟨o, ho, h⟩
        obtain ⟨r, hr, hro, value, priority, hvalue, heq, hp⟩ := h n t d rfl
        refine ⟨_, Fallible.map_eq_ok.2 ⟨_, hvalue, rfl⟩, Fallible.bind_eq_ok.2 ⟨o, ho, ?_⟩⟩
        simp only [ite_ok_eq_ok, List.any_eq_true, Bool.and_eq_true, beq_iff_eq]
        exact ⟨r, hr, ⟨⟨hro, rfl⟩, heq⟩, hp⟩

theorem prerequisitesPass_iff (H : crates.MessageParse) {message : List UInt8} {zone : Zone} {records : List Record}
    {pos next : ℕ} {ps : List (PrerequisiteRr message zone.name)} (h : SectionAt message pos (ps.map (·.rr)) next) :
    PrerequisitesPass message zone records pos ps.length ↔ ∀ p ∈ ps, p.Accepted records := by
  have hparse : ∀ rrs next', parseRrs message ps.length pos = .ok (rrs, next') ↔
      (ps.map (·.rr)).mapM (fun rr => (presentationName rr.owner).map (.ofRr rr)) = .ok rrs ∧ next = next' := by
    intro rrs next'
    rw [← List.length_map (·.rr), parseRrs_of_sectionAt H h]
    simp [Fallible.map_eq_ok]
  calc PrerequisitesPass message zone records pos ps.length
      ↔ ∃ rrs, (ps.map (·.rr)).mapM (fun rr => (presentationName rr.owner).map (UpdateRecord.ofRr rr)) = .ok rrs ∧
          ∀ rr ∈ rrs, ∃ q, decodePrerequisite message rr = .ok q ∧ evaluatePrerequisite zone records q = .ok () := by
        simp only [PrerequisitesPass, hparse, ← Fallible.exists_mapM_forall, Fallible.forM_eq_ok]
        exact ⟨fun ⟨rrs, _, qs, ⟨hrrs, _⟩, hqs⟩ => ⟨rrs, hrrs, qs, hqs⟩,
          fun ⟨rrs, hrrs, qs, hqs⟩ => ⟨rrs, next, qs, ⟨hrrs, rfl⟩, hqs⟩⟩
    _ ↔ ∀ p ∈ ps, ∃ v, presentationName p.rr.owner = .ok v ∧ ∃ q, decodePrerequisite message (.ofRr p.rr v) = .ok q ∧
          evaluatePrerequisite zone records q = .ok () := by
        rw [Fallible.exists_mapM_forall, List.forall_mem_map]
        simp only [Fallible.map_eq_ok, exists_exists_and_eq_and]
    _ ↔ ∀ p ∈ ps, p.Accepted records := by
        simp only [PrerequisiteRr.evaluates_iff, OwnerName.exists_isRead_iff, PrerequisiteRr.Accepted]

omit crates in
theorem Presents.names {d : Rdata} {t : RecordType} {value : Text} {priority : Option ℤ} [Crates]
    (h : Presents d t value priority) : ∀ n ∈ d.names, ∃ v, presentationName n = .ok v := by
  cases h <;> simp [Rdata.names] <;> exact ⟨_, ‹_›⟩

omit crates in
theorem hasSpace_names_lower {d : Rdata} (h : ∀ n ∈ d.names, ∃ v, presentationName n = .ok v) :
    (∀ n ∈ d.lower.names, hasSpace n = false) ↔ ∀ n ∈ d.names, hasSpace n = false := by
  rw [Rdata.names_lower, List.forall_mem_map]
  refine forall₂_congr fun n hn => ?_
  obtain ⟨v, hv⟩ := h n hn
  obtain ⟨ls, hls, -⟩ := presentationName_eq_ok.1 hv
  rw [hasSpace_lower hls]

section Agreement

variable {message : List UInt8} {zone : ZoneName} {p : PrerequisiteRr message zone} (hlen : p.rr.rdata.length ≤ 65535)
  {n : Name} {t : RecordType} {d : Rdata} (hp : p.asks = .rr n t d) {r : Record} (hr : RowOk r.toRecordData)
  (hrtxt : TxtOk r.toRecordData)

include hcrates hbase64 hlen hp hr hrtxt

theorem PrerequisiteRr.served_of_matches (h : MatchesRow message (.ofRr p.rr []) r)
    (hspace : ∀ m ∈ d.names, hasSpace m = false) :
    r.recordType = t ∧ (∃ d', r.toRecordData.served = some d' ∧ d = d'.lower) ∧
      (t.takesPriority = true → r.priority ≠ none) := by
  have hwf := p.wellFormed
  rw [hp] at hwf
  obtain ⟨-, -, -, htype, -, d', hd, rfl⟩ := hwf
  obtain ⟨value, priority, hvalue, -⟩ := id h
  have ht : rrTypeToRecordType p.rr.rrType = .ok r.recordType := rrTypeToRecordType_of_rrToRecordValue hvalue
  rw [htype] at ht
  cases ht
  have hnames := (hasSpace_names_lower (presents_of_wireRdata hd hvalue).names).1 hspace
  obtain ⟨⟨x, hx, e⟩, hprio⟩ := h.served hcrates hbase64 hd hlen hr hrtxt hnames
  exact ⟨rfl, ⟨x, hx, e.symm⟩, hprio⟩

theorem PrerequisiteRr.matches_of_served (htxt : crates.TxtOctets) (ht : r.recordType = t) {d' : Rdata}
    (hs : r.toRecordData.served = some d') (he : d = d'.lower) :
    (∀ m ∈ d.names, hasSpace m = false) ∧
      ((t.takesPriority = true → r.priority ≠ none) → MatchesRow message (.ofRr p.rr []) r) := by
  have hwf := p.wellFormed
  rw [hp] at hwf
  obtain ⟨-, -, -, htype, -, d₀, hd, rfl⟩ := hwf
  subst ht
  obtain ⟨hnames, hmatch⟩ := matchesRow_of_served hcrates hbase64 hd hlen hr hrtxt htxt htype hs he.symm
  exact ⟨(hasSpace_names_lower fun n hn => (hnames n hn).1).2 fun n hn => (hnames n hn).2, hmatch⟩

end Agreement

theorem exists_served_of_proceeds {message : List UInt8} {zone : ZoneName} {records : List Record}
    {ps : List (PrerequisiteRr message zone)} (hP : Rfc2136.Proceeds (view zone records) (ps.map (·.asks)))
    {p : PrerequisiteRr message zone} (hp : p ∈ ps) {n : Name} {t : RecordType} {d : Rdata} (e : p.asks = .rr n t d) :
    ∃ r ∈ records, r.recordType = t ∧ ∃ d', r.toRecordData.served = some d' ∧ d = d'.lower := by
  have hd : d ∈ Rfc2136.listed (ps.map (·.asks)) n t := List.mem_map.2 ⟨p, hp, e⟩
  rw [hP.2 n t ⟨d, hd⟩] at hd
  obtain ⟨o, -, r, hr, -, ht, hserved⟩ := hd
  exact ⟨r, hr, ht, hserved⟩

section Section

variable {message : List UInt8} {zone : ZoneName} {records : List Record} {ps : List (PrerequisiteRr message zone)}
  (hlen : ∀ p ∈ ps, p.rr.rdata.length ≤ 65535) (hrow : ∀ r ∈ records, RowOk r.toRecordData)
  (hrtxt : ∀ r ∈ records, TxtOk r.toRecordData)

include hcrates hbase64 hlen hrow hrtxt

theorem proceeds_of_accepted (hA : ∀ p ∈ ps, p.Accepted records)
    (howner : ∀ p ∈ ps, p.asks.isNegative = false → startsWithSpace p.rr.owner = false) (hspace : ∀ p ∈ ps, p.NoSpace)
    (hsub : ∀ n t, (Rfc2136.listed (ps.map (·.asks)) n t).Nonempty →
      (view zone records).rrset n t ⊆ Rfc2136.listed (ps.map (·.asks)) n t) :
    Rfc2136.Proceeds (view zone records) (ps.map (·.asks)) := by
  refine ⟨List.forall_mem_map.2 fun p hp => ?_, fun n t hne => Set.Subset.antisymm (fun d hd => ?_) (hsub n t hne)⟩
  · obtain ⟨o, ho, hholds, -⟩ := hA p hp
    by_cases hs : startsWithSpace p.rr.owner = true
    · -- the name is no owner, and something is asked not to be there
      refine Rfc2136.Prerequisite.holds_of_isNegative (fun o' ho' => ?_) ?_
      · rw [p.owner_asks] at ho'
        exact absurd hs (by simp [(OwnerName.isNamed_iff_isRead.1 ho').2])
      · by_contra hneg
        exact absurd hs (by simp [howner p hp (by simpa using hneg)])
    · exact (p.holds_view (OwnerName.isNamed_iff_isRead.2 ⟨ho, by simpa using hs⟩)).2 hholds
  · obtain ⟨p, hp, e⟩ := List.mem_map.1 hd
    obtain ⟨o, ho, -, hmatched⟩ := hA p hp
    obtain ⟨r, hr, hro, hmatch⟩ := hmatched n t d e
    obtain ⟨ht, hserved, -⟩ :=
      PrerequisiteRr.served_of_matches hcrates hbase64 (hlen p hp) e (hrow r hr) (hrtxt r hr) hmatch (hspace p hp n t d e)
    have hn : n = p.rr.owner.lower := by rw [← p.owner_asks, e]; rfl
    have hnamed := OwnerName.isNamed_iff_isRead.2 ⟨ho, howner p hp (by rw [e]; rfl)⟩
    exact ⟨o, hn ▸ hnamed, r, hr, hro, ht, hserved⟩

theorem accepted_of_proceeds (htxt : crates.TxtOctets) (hP : Rfc2136.Proceeds (view zone records) (ps.map (·.asks)))
    {p : PrerequisiteRr message zone} (hp : p ∈ ps) (hprio : p.PriorityStored records) (habs : p.AbsenceRead records) :
    p.Accepted records := by
  have hholds := List.forall_mem_map.1 hP.1 p hp
  by_cases hneg : p.asks.isNegative = true
  · obtain ⟨o, ho, hs⟩ := habs hneg
    refine ⟨o, ho, ?_, fun n t d e => by rw [e] at hneg; cases hneg⟩
    by_cases hspace : startsWithSpace p.rr.owner = true
    · exact hs hspace
    · exact (p.holds_view (OwnerName.isNamed_iff_isRead.2 ⟨ho, by simpa using hspace⟩)).1 hholds
  · obtain ⟨o, ho⟩ := p.exists_isNamed hP hp (by simpa using hneg)
    refine ⟨o, (OwnerName.isNamed_iff_isRead.1 ho).1, (p.holds_view ho).1 hholds, fun n t d e => ?_⟩
    obtain ⟨r, hr, hnamed, ht, ⟨d', hs, he⟩, hp'⟩ := hprio n t d e
    refine ⟨r, hr, (OwnerName.isNamed_iff_isRead.1 hnamed).1.unique (OwnerName.isNamed_iff_isRead.1 ho).1, ?_⟩
    exact (PrerequisiteRr.matches_of_served hcrates hbase64 (hlen p hp) e (hrow r hr) (hrtxt r hr) htxt ht hs he).2 hp'

theorem noSpace_of_proceeds (htxt : crates.TxtOctets) (hP : Rfc2136.Proceeds (view zone records) (ps.map (·.asks)))
    {p : PrerequisiteRr message zone} (hp : p ∈ ps) : p.NoSpace := by
  intro n t d e
  obtain ⟨r, hr, ht, d', hs, he⟩ := exists_served_of_proceeds hP hp e
  exact (PrerequisiteRr.matches_of_served hcrates hbase64 (hlen p hp) e (hrow r hr) (hrtxt r hr) htxt ht hs he).1

theorem priorityStored_of_accepted (htxt : crates.TxtOctets)
    (hP : Rfc2136.Proceeds (view zone records) (ps.map (·.asks))) {p : PrerequisiteRr message zone} (hp : p ∈ ps)
    (hA : p.Accepted records) : p.PriorityStored records := by
  intro n t d e
  obtain ⟨o, ho, -, hmatched⟩ := hA
  obtain ⟨r, hr, rfl, hmatch⟩ := hmatched n t d e
  have hspace := noSpace_of_proceeds hcrates hbase64 hlen hrow hrtxt htxt hP hp n t d e
  have hserved := PrerequisiteRr.served_of_matches hcrates hbase64 (hlen p hp) e (hrow r hr) (hrtxt r hr) hmatch hspace
  obtain ⟨o', ho'⟩ := p.exists_isNamed hP hp (by rw [e]; rfl)
  rw [(OwnerName.isNamed_iff_isRead.1 ho').1.unique ho] at ho'
  exact ⟨r, hr, ho', hserved⟩

end Section

include hcrates hbase64 in
/-- **Prerequisites.**  On a reachable zone, and for every prerequisite section about names in the zone, the service
proceeds exactly when RFC 2136 does, if: when every record is accepted, no name that something is asked to be at begins
with white space, no listed name holds white space and every row of the listed RRsets is listed; and when the RFC
proceeds, the listed rows have their priorities stored and a name that is not to be there is read as an owner, at which
nothing is either if the name begins with white space. -/
theorem prerequisites_agree (H : crates.MessageParse) (htxt : crates.TxtOctets) (ops : List Op)
    (hops : ∀ op ∈ ops, op.WellTyped) :
    ∀ st ∈ (run ops).stores, ∀ (message : List UInt8) (pos next : ℕ) (ps : List (PrerequisiteRr message st.zone.name)),
      SectionAt message pos (ps.map (·.rr)) next →
        ((PrerequisitesPass message st.zone st.records pos ps.length ↔
            Rfc2136.Proceeds (view st.zone.name st.records) (ps.map (·.asks))) ↔
          ((∀ p ∈ ps, p.Accepted st.records) →
            (∀ p ∈ ps, p.asks.isNegative = false → startsWithSpace p.rr.owner = false) ∧ (∀ p ∈ ps, p.NoSpace) ∧
              ∀ n t, (Rfc2136.listed (ps.map (·.asks)) n t).Nonempty →
                (view st.zone.name st.records).rrset n t ⊆ Rfc2136.listed (ps.map (·.asks)) n t) ∧
          (Rfc2136.Proceeds (view st.zone.name st.records) (ps.map (·.asks)) →
            ∀ p ∈ ps, p.PriorityStored st.records ∧ p.AbsenceRead st.records)) := by
  intro st hst message pos next ps hat
  have hrow : ∀ r ∈ st.records, RowOk r.toRecordData := fun r hr =>
    ((run_ok ops).store st hst).rows.1 _ (List.mem_map_of_mem hr)
  have hrtxt := (run_txtOk htxt hops st hst).1
  have hlen : ∀ p ∈ ps, p.rr.rdata.length ≤ 65535 := fun p hp =>
    Nat.le_of_lt_succ (hat.length_lt _ (List.mem_map_of_mem hp))
  rw [prerequisitesPass_iff H hat]
  constructor
  · intro h
    refine ⟨fun hA => ?_, fun hP p hp => ?_⟩
    · have hP := h.1 hA
      refine ⟨fun p hp hpos => ?_, fun p hp => noSpace_of_proceeds hcrates hbase64 hlen hrow hrtxt htxt hP hp,
        fun n t hne => (hP.2 n t hne).ge⟩
      obtain ⟨o, ho⟩ := p.exists_isNamed hP hp hpos
      exact (OwnerName.isNamed_iff_isRead.1 ho).2
    · refine ⟨priorityStored_of_accepted hcrates hbase64 hlen hrow hrtxt htxt hP hp (h.2 hP p hp), fun _ => ?_⟩
      obtain ⟨o, ho, hholds, -⟩ := h.2 hP p hp
      exact ⟨o, ho, fun _ => hholds⟩
  · rintro ⟨hforward, hback⟩
    constructor
    · intro hA
      obtain ⟨howner, hspace, hsub⟩ := hforward hA
      exact proceeds_of_accepted hcrates hbase64 hlen hrow hrtxt hA howner hspace hsub
    · intro hP p hp
      exact accepted_of_proceeds hcrates hbase64 hlen hrow hrtxt htxt hP hp (hback hP p hp).1 (hback hP p hp).2

end Rows

/-! ### An RRset of two addresses -/

section Sample

attribute [local instance] sampleCrates

/-- A prerequisite that `www.example.com.` has the address 192.0.2.1. -/
def addressPrerequisite : List UInt8 :=
  characterString (lit "www") ++ characterString (lit "example") ++ characterString (lit "com") ++
    [0, 0, 1, 0, 1, 0, 0, 0, 0, 0, 4, 192, 0, 2, 1]

theorem exists_addressPrerequisite {zone : ZoneName} {o : OwnerName}
    (h : o.absoluteLabels zone = [lit "www", lit "example", lit "com"]) :
    ∃ (p : PrerequisiteRr addressPrerequisite zone) (next : ℕ) (addr : Ipv4Addr),
      SectionAt addressPrerequisite 0 [p.rr] next ∧ ipv4Text addr = lit "192.0.2.1" ∧
      o.IsNamed zone p.rr.owner ∧
      p.asks = .rr p.rr.owner.lower .a (.a addr) ∧
      rrToRecordValue (.ofRr p.rr []) addressPrerequisite =
        .ok (.a, lit "192.0.2.1", none) := by
  obtain ⟨n, next, record, next', addr, hn, hrecord, hlower, httl, hclass, htype, hrdata, hd, haddr, hvalue⟩ :
      ∃ n next record next' addr,
        sampleCrates.parsedName addressPrerequisite 0 = some (n, next) ∧
        parseRr addressPrerequisite 0 = .ok (record, next') ∧
        n.lower.labels = wireLabels [lit "www", lit "example", lit "com"] ∧ record.ttl = 0 ∧ record.rrClass = 1 ∧
        rrTypeToRecordType record.rrType = .ok .a ∧ record.rdata.isEmpty = false ∧
        wireRdata addressPrerequisite { record with name := [] } = some (.a addr) ∧
        ipv4Text addr = lit "192.0.2.1" ∧
        rrToRecordValue { record with name := [] } addressPrerequisite = .ok (.a, lit "192.0.2.1", none) :=
    ⟨_, _, _, _, _, rfl, rfl, rfl, rfl, rfl, rfl, rfl, rfl, rfl, rfl⟩
  obtain ⟨rr, hat, htext⟩ := (parseRr_eq_ok sampleCrates_messageParse).1 hrecord
  -- the record at the position is the one that was read
  obtain ⟨p, hname, -⟩ := hat.owner
  have howner : rr.owner = n :=
    Rfc1035.Name.ext (hname.unique (sampleCrates_messageParse.name.1 hn)).1
  have hfields : .ofRr rr [] = { record with name := [] } := by
    simp only [UpdateRecord.ofRr, htext.rrType, htext.rrClass, htext.ttl, htext.rdata, htext.rdataStart]
  have hnamed : o.IsNamed zone rr.owner := by rw [OwnerName.IsNamed, howner, hlower, h]
  rw [htext.ttl] at httl
  rw [htext.rrClass] at hclass
  rw [htext.rrType] at htype
  rw [htext.rdata] at hrdata
  rw [← hfields] at hd hvalue
  have hzone : wireLabels zone.labels <:+ rr.owner.lower.labels := by
    rw [OwnerName.IsNamed, OwnerName.absoluteLabels, wireLabels, List.map_append] at hnamed
    rw [hnamed]
    exact List.suffix_append _ _
  exact ⟨⟨rr, .rr rr.owner.lower .a (.a addr), hzone,
    ⟨rfl, httl, hclass, htype, by simpa using hrdata, _, hd, rfl⟩⟩, next', addr, .cons hat .nil, haddr, hnamed, rfl, hvalue⟩

theorem served_address {r : Record} {addr : Ipv4Addr} (ht : r.recordType = .a) (hv : r.value = ipv4Text addr) :
    r.toRecordData.served = some (.a addr) := by
  simp only [RecordData.served, ht, hv, parseIpv4_ipv4Text, Option.map_some]

/-- The name has a second address. -/
def twoAddresses : List Op :=
  sampleHistory ++
    [.createRecord .global { sampleItem "www" "A" "192.0.2.2" with zoneName := lit "example.com" }]

/-- One address of two is listed: the service proceeds, where the listed RRset is not the zone's. -/
theorem prerequisites_one_of_two :
    ∃ st ∈ (run twoAddresses).stores,
      ∃ (p : PrerequisiteRr addressPrerequisite st.zone.name) (next : ℕ),
        SectionAt addressPrerequisite 0 [p.rr] next ∧
        PrerequisitesPass addressPrerequisite st.zone st.records 0 1 ∧
        ¬ Rfc2136.Proceeds (view st.zone.name st.records) [p.asks] := by
  obtain ⟨st, hst, r, hr, r', hr', hlabels, hname, ht, ht', hvalue, hp, hvalue'⟩ :
      ∃ st ∈ (run twoAddresses).stores, ∃ r ∈ st.records, ∃ r' ∈ st.records,
        r.name.absoluteLabels st.zone.name = [lit "www", lit "example", lit "com"] ∧ r'.name = r.name ∧
        r.recordType = .a ∧ r'.recordType = .a ∧ r.value = lit "192.0.2.1" ∧ r.priority = none ∧
        r'.value = ipv4Text ![192, 0, 2, 2] := by
    decide +kernel
  obtain ⟨p, next, addr, hat, haddr, hnamed, hasks, hdecode⟩ := exists_addressPrerequisite hlabels
  refine ⟨st, hst, p, next, hat, ?_, ?_⟩
  · refine (@prerequisitesPass_iff _ sampleCrates_messageParse _ _ _ _ _ [p] hat).2 ?_
    simp only [List.mem_singleton, forall_eq]
    refine ⟨r.name, (OwnerName.isNamed_iff_isRead.1 hnamed).1, by rw [hasks]; trivial, fun n t d e => ⟨r, hr, rfl, ?_⟩⟩
    refine ⟨_, _, by rw [hdecode, ht], ?_, hp⟩
    rw [ht, hvalue]
    decide +kernel
  · rintro ⟨-, h⟩
    rw [hasks] at h
    have hmem : .a ![192, 0, 2, 2] ∈ (view st.zone.name st.records).rrset
        p.rr.owner.lower .a :=
      ⟨r.name, hnamed, r', hr', hname, ht', _, served_address ht' hvalue', rfl⟩
    rw [← h _ .a ⟨_, List.mem_singleton.2 rfl⟩] at hmem
    cases List.mem_singleton.1 hmem
    revert haddr
    decide +kernel

theorem prerequisites_agree_address :
    ∃ st ∈ (run sampleHistory).stores,
      ∃ (p : PrerequisiteRr addressPrerequisite st.zone.name) (next : ℕ),
        SectionAt addressPrerequisite 0 [p.rr] next ∧
        PrerequisitesPass addressPrerequisite st.zone st.records 0 1 ∧
        Rfc2136.Proceeds (view st.zone.name st.records) [p.asks] := by
  have htyped : ∀ op ∈ sampleHistory, Op.WellTyped op := by
    simp [sampleHistory, Op.WellTyped, Op.requestedTtls, Op.items, sampleItem]
  obtain ⟨st, hst, r, hr, hlabels, ht, hvalue, hrows⟩ : ∃ st ∈ (run sampleHistory).stores,
      ∃ r ∈ st.records, r.name.absoluteLabels st.zone.name = [lit "www", lit "example", lit "com"] ∧
        r.recordType = .a ∧ r.value = lit "192.0.2.1" ∧
        ∀ r' ∈ st.records, r'.name = r.name → r'.toRecordData = r.toRecordData := by
    decide +kernel
  obtain ⟨p, next, addr, hat, haddr, hnamed, hasks, -⟩ := exists_addressPrerequisite hlabels
  have hserved := served_address ht (hvalue.trans haddr.symm)
  have hproceeds : Rfc2136.Proceeds (view st.zone.name st.records)
      [p.asks] := by
    rw [hasks]
    refine ⟨by simp [Rfc2136.Prerequisite.Holds], ?_⟩
    rintro n t ⟨d, hd⟩
    cases List.mem_singleton.1 hd
    refine Set.Subset.antisymm (fun d hd => ?_) ?_
    · cases List.mem_singleton.1 hd
      exact ⟨r.name, hnamed, r, hr, rfl, ht, _, hserved, rfl⟩
    · rintro d ⟨o, ho, r', hr', rfl, -, d', hd', rfl⟩
      have hname : r'.name = r.name :=
        OwnerName.absoluteLabels_injective _ (wireLabels_injective (ho.symm.trans hnamed))
      rw [hrows r' hr' hname, hserved] at hd'
      cases hd'
      exact List.mem_singleton.2 rfl
  have hiff := prerequisites_agree sampleCrates_wire sampleCrates_base64 sampleCrates_messageParse
    sampleCrates_txt sampleHistory htyped st hst addressPrerequisite 0 next [p] hat
  have hnotneg : p.asks.isNegative = false := by rw [hasks]; rfl
  refine ⟨st, hst, p, next, hat, (hiff.2 ⟨fun _ => ⟨?_, ?_, ?_⟩, fun _ => ?_⟩).2 hproceeds, hproceeds⟩
  · simp only [List.mem_singleton, forall_eq]
    exact fun _ => (OwnerName.isNamed_iff_isRead.1 hnamed).2
  · simp only [List.mem_singleton, forall_eq]
    rintro n t d e m hm
    rw [hasks] at e
    cases e
    cases hm
  · exact fun n t hne => (hproceeds.2 n t hne).ge
  · simp only [List.mem_singleton, forall_eq]
    refine ⟨fun n t d e => ?_, fun hneg => by rw [hnotneg] at hneg; cases hneg⟩
    rw [hasks] at e
    cases e
    exact ⟨r, hr, hnamed, ht, ⟨_, hserved, rfl⟩, by simp [RecordType.takesPriority]⟩

end Sample

end Bindizr
