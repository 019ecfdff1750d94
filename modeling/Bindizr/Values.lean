import Bindizr.WireRecords

/-! # Values

A value is checked (`validateValue`), compared (`canonicalValue`), stored (`encodedValue`),
shown (`displayValue`) and served (`RecordData.served`) by five functions, each with its own
treatment of white space, dots, letter case and numbers.  They agree: accepted values are
compared as they are served (`canonical_eq_iff_served`), and what is stored is a fixed point of
the other forms (`Stored`). -/

namespace Bindizr

open Rfc1035 (Name Rdata)

/-! ### Targets -/

theorem joinLabels_getLast {ls : List Text} {l : Text} {c : Char} (h : ls.getLast? = some (l ++ [c])) :
    ∃ p, joinLabels ls = p ++ if c ∈ escapedInLabel then ['\\', c] else [c] := by
  obtain ⟨ms, rfl⟩ := List.getLast?_eq_some_iff.1 h
  have hl : joinLabels [l ++ [c]] = escapeLabel l ++ if c ∈ escapedInLabel then ['\\', c] else [c] := by
    rw [joinLabels_singleton, escapeLabel, List.flatMap_append, List.flatMap_singleton, escapeLabel]
  by_cases hms : ms = []
  · exact ⟨escapeLabel l, by rw [hms, List.nil_append, hl]⟩
  · exact ⟨joinLabels ms ++ '.' :: escapeLabel l, by rw [joinLabels_append hms (by simp), hl]; simp⟩

theorem joinLabels_end {ls : List Text} (hne : ls ≠ []) (h : ∀ l ∈ ls, l ≠ []) :
    (∃ p, joinLabels ls = p ++ ['\\', '.']) ∨ ∃ p c, c ≠ '.' ∧ joinLabels ls = p ++ [c] := by
  have hlast := List.getLast?_eq_some_getLast hne
  rw [← List.dropLast_append_getLast (h _ (List.getLast_mem hne))] at hlast
  obtain ⟨p, e⟩ := joinLabels_getLast hlast
  generalize (ls.getLast hne).getLast _ = c at e
  by_cases hc : c = '.'
  · subst hc
    exact .inl ⟨p, e⟩
  · refine .inr ?_
    split at e
    · exact ⟨p ++ ['\\'], c, hc, by rw [e, List.append_assoc]; rfl⟩
    · exact ⟨p, c, hc, e⟩

theorem joinLabels_inj {ls ms : List Text} (hl : ∀ l ∈ ls, l ≠ []) (hm : ∀ l ∈ ms, l ≠ [])
    (h : joinLabels ls = joinLabels ms) : ls.map toAsciiLowercase = ms.map toAsciiLowercase := by
  have hnil : ∀ {ks : List Text}, ks ≠ [] → (∀ l ∈ ks, l ≠ []) → joinLabels ks ≠ [] := by
    intro ks hks hne
    rcases joinLabels_end hks hne with ⟨p, e⟩ | ⟨p, c, _, e⟩ <;> simp [e]
  by_cases hls : ls = []
  · by_cases hms : ms = []
    · rw [hls, hms]
    · rw [hls] at h
      exact absurd h.symm (hnil hms hm)
  · by_cases hms : ms = []
    · rw [hms] at h
      exact absurd h (hnil hls hl)
    · have hd := (decodeLabels_joinLabels hls).1
      rw [h, (decodeLabels_joinLabels hms).1] at hd
      exact (Except.ok.inj hd).symm

theorem IsTarget.canonical {x : Text} (h : IsTarget x) :
    toFqdnLowercase x = toAsciiLowercase (joinLabels (targetLabels x)) ++ ['.'] ∧
      ∀ l ∈ targetLabels x, classifyDomainLabel l true = .ok () := by
  rcases h with rfl | ⟨field, h⟩
  · exact ⟨rfl, by simp [targetLabels, trimEndMatches]⟩
  · obtain ⟨-, hne, -, hlabels⟩ := validateDomainRecordValue_eq_ok.1 h
    obtain ⟨htrim, hself⟩ := trimEndMatches_of_validDomain h
    have hsplit : targetLabels x = split '.' (stripOneSuffix '.' x) := by
      rw [targetLabels, if_neg (by rwa [htrim])]
    refine ⟨?_, by rwa [hsplit]⟩
    rw [toFqdnLowercase, hself, htrim, hsplit, joinLabels_split hlabels]

theorem IsTarget.not_isWhitespace {x : Text} (h : IsTarget x) : ∀ c ∈ x, isWhitespace c = false := by
  rcases h with rfl | ⟨field, h⟩
  · intro c hc
    rw [List.mem_singleton.1 hc]
    rfl
  · intro c hc
    have hws := (validateDomainRecordValue_eq_ok.1 h).1
    simp only [hasWhitespaceOrControl, List.any_eq_false, Bool.or_eq_true, not_or, Bool.not_eq_true] at hws
    exact (hws c hc).2

theorem IsTarget.ne_nil {x : Text} (h : IsTarget x) : x ≠ [] := by
  rintro rfl
  rcases h with h | ⟨field, h⟩
  · cases h
  · exact (validateDomainRecordValue_eq_ok.1 h).2.1 rfl

theorem validateDomainRecordValue_toFqdnLowercase {field x : Text} (h : validateDomainRecordValue field x = .ok ()) :
    validateDomainRecordValue field (toFqdnLowercase x) = .ok () := by
  obtain ⟨-, hne, hlen, hlabels⟩ := validateDomainRecordValue_eq_ok.1 h
  obtain ⟨htrim, hself⟩ := trimEndMatches_of_validDomain h
  set body := stripOneSuffix '.' x
  have e : toFqdnLowercase x = toAsciiLowercase body ++ ['.'] := by rw [toFqdnLowercase, hself, htrim]
  have hstrip : stripOneSuffix '.' (toAsciiLowercase body ++ ['.']) = toAsciiLowercase body := by simp [stripOneSuffix]
  rw [e, validateDomainRecordValue_eq_ok, hstrip]
  refine ⟨?_, by simpa using hne, by simpa using hlen, ?_⟩
  · simp only [hasWhitespaceOrControl, List.any_eq_false, Bool.or_eq_true, not_or, Bool.not_eq_true]
    intro c hc
    rcases List.mem_append.1 hc with hc | hc
    · obtain ⟨d, hd, rfl⟩ := List.mem_map.1 hc
      rcases isLdh_of_labels hlabels hd with rfl | hldh
      · exact ⟨rfl, rfl⟩
      · obtain ⟨h1, h2, -⟩ := isLdh_cases (isLdh_lowerChar hldh)
        exact ⟨h2, h1⟩
    · rw [List.mem_singleton.1 hc]
      exact ⟨rfl, rfl⟩
  · intro l hl
    rw [split_toAsciiLowercase] at hl
    obtain ⟨m, hm, rfl⟩ := List.mem_map.1 hl
    exact classifyDomainLabel_toAsciiLowercase (hlabels m hm)

theorem IsTarget.stored {x : Text} (h : IsTarget x) :
    IsTarget (toFqdnLowercase x) ∧ toFqdnLowercase (toFqdnLowercase x) = toFqdnLowercase x := by
  rcases h with rfl | ⟨field, h⟩
  · exact ⟨.inl rfl, rfl⟩
  · have hvalid := validateDomainRecordValue_toFqdnLowercase h
    refine ⟨.inr ⟨field, hvalid⟩, ?_⟩
    obtain ⟨htrim, hself⟩ := trimEndMatches_of_validDomain hvalid
    conv_lhs => rw [toFqdnLowercase, hself, htrim]
    simp [toFqdnLowercase, stripOneSuffix]

theorem IsTarget.canonical_eq_iff {x y : Text} (hx : IsTarget x) (hy : IsTarget y) {n m : Name}
    (hn : n.labels = wireLabels (targetLabels x)) (hm : m.labels = wireLabels (targetLabels y)) :
    toFqdnLowercase x = toFqdnLowercase y ↔ n.lower = m.lower := by
  obtain ⟨ex, hlx⟩ := hx.canonical
  obtain ⟨ey, hly⟩ := hy.canonical
  have hne : ∀ {ls : List Text}, (∀ l ∈ ls, classifyDomainLabel l true = .ok ()) →
      ∀ l ∈ ls.map toAsciiLowercase, l ≠ [] := by
    intro ls h l hl
    obtain ⟨k, hk, rfl⟩ := List.mem_map.1 hl
    simpa using (classifyDomainLabel_eq_ok.1 (h k hk)).1
  rw [ex, ey, List.append_left_inj, ← joinLabels_map_lowercase, ← joinLabels_map_lowercase, Rfc1035.Name.ext_iff,
    lower_labels_eq hn, lower_labels_eq hm, wireLabels_injective.eq_iff]
  refine ⟨fun e => ?_, fun e => by rw [e]⟩
  simpa [Function.comp_def] using joinLabels_inj (hne hlx) (hne hly) e

/-! ### Values are compared as they are served -/

theorem RowOk.priority_eq_none {r : RecordData} (h : RowOk r) (ht : r.recordType.takesPriority = false) :
    r.priority = none := by
  have hv := h.value
  unfold RecordType.validateValue at hv
  split at hv
  · cases hv
  · rename_i hp
    simpa [ht] using hp

section Served

variable [crates : Crates]

theorem txtIntoEncoded_inj {a b : List UInt8} (hbase64 : crates.Base64RoundTrip) :
    txtIntoEncoded a = txtIntoEncoded b ↔ a = b := by
  refine ⟨fun h => ?_, fun h => by rw [h]⟩
  have e := congrArg crates.base64Decode (List.append_cancel_left h)
  rw [hbase64, hbase64] at e
  exact Option.some.inj e

/-- **Values are compared as they are served.**  Two accepted values of a type have one canonical form
exactly when they are served as the same rdata, up to case. -/
theorem canonical_eq_iff_served (hcrates : crates.Rfc1035Wire) (hbase64 : crates.Base64RoundTrip) {r s : RecordData}
    (ht : r.recordType = s.recordType) (hr : r.recordType.validateValue r.value r.priority = .ok ())
    (hs : s.recordType.validateValue s.value s.priority = .ok ()) (hrtxt : TxtOk r) (hstxt : TxtOk s) {d d' : Rdata}
    (hd : r.served = some d) (hd' : s.served = some d') : r.canonical = s.canonical ↔ d.lower = d'.lower := by
  -- the types whose rdata is one name
  have hhost : ∀ (data : Name → Rdata), (∀ n m, (data n).lower = (data m).lower ↔ n.lower = m.lower) →
      ∀ {x y : Text}, IsTarget x → IsTarget y → (parseName x).toOption.map data = some d →
      (parseName y).toOption.map data = some d' → (toFqdnLowercase x = toFqdnLowercase y ↔ d.lower = d'.lower) := by
    intro data hdata x y hx hy hd hd'
    obtain ⟨n, hn, hnl⟩ := exists_parseName_target hcrates hx
    obtain ⟨m, hm, hml⟩ := exists_parseName_target hcrates hy
    rw [toOption_eq_some.2 hn, Option.map_some, Option.some.injEq] at hd
    rw [toOption_eq_some.2 hm, Option.map_some, Option.some.injEq] at hd'
    rw [← hd, ← hd', hdata, hx.canonical_eq_iff hy hnl hml]
  unfold RecordData.served at hd hd'
  unfold RecordData.canonical RecordType.canonicalValue
  rw [← ht] at hd' hs ⊢
  cases t : r.recordType with
  | a =>
      obtain ⟨addr, haddr⟩ := validateValue_a (t ▸ hr)
      obtain ⟨addr', haddr'⟩ := validateValue_a (t ▸ hs)
      simp only [t, haddr, haddr', Option.map_some, Option.some.injEq] at hd hd'
      subst hd hd'
      simp only [parseA, haddr, haddr', ipv4Text_injective.eq_iff, Rdata.lower, Rdata.a.injEq]
  | aaaa =>
      obtain ⟨addr, haddr⟩ := validateValue_aaaa (t ▸ hr)
      obtain ⟨addr', haddr'⟩ := validateValue_aaaa (t ▸ hs)
      simp only [t, haddr, haddr', Option.map_some, Option.some.injEq] at hd hd'
      subst hd hd'
      simp only [parseAaaa, haddr, haddr', ipv6Text_injective.eq_iff, Rdata.lower, Rdata.aaaa.injEq]
  | cname =>
      simp only [t] at hd hd' hr hs
      exact hhost .cname (by simp [Rdata.lower]) (validateValue_host (.inl rfl) hr) (validateValue_host (.inl rfl) hs) hd hd'
  | ns =>
      simp only [t] at hd hd' hr hs
      exact hhost .ns (by simp [Rdata.lower]) (validateValue_host (.inr (.inl rfl)) hr)
        (validateValue_host (.inr (.inl rfl)) hs) hd hd'
  | ptr =>
      simp only [t] at hd hd' hr hs
      exact hhost .ptr (by simp [Rdata.lower]) (validateValue_host (.inr (.inr rfl)) hr)
        (validateValue_host (.inr (.inr rfl)) hs) hd hd'
  | mx =>
      obtain ⟨mx, hmx, hvalid⟩ := validateValue_mx (t ▸ hr)
      obtain ⟨mx', hmx', hvalid'⟩ := validateValue_mx (t ▸ hs)
      obtain ⟨n, hn, hnl⟩ := exists_parseName_target hcrates (isTarget_mx hmx hvalid)
      obtain ⟨m, hm, hml⟩ := exists_parseName_target hcrates (isTarget_mx hmx' hvalid')
      simp only [t, toOption_eq_some.2 hmx, toOption_eq_some.2 hmx', toOption_eq_some.2 hn, toOption_eq_some.2 hm,
        Option.bind_eq_bind, Option.bind_some, Option.map_some, Option.some.injEq] at hd hd'
      subst hd hd'
      simp only [hmx, hmx', MxRecordValue.canonical, List.append_assoc, List.cons_append, List.nil_append,
        natText_space_inj, (isTarget_mx hmx hvalid).canonical_eq_iff (isTarget_mx hmx' hvalid') hnl hml, Rdata.lower,
        Rdata.mx.injEq]
  | srv =>
      obtain ⟨srv, hsrv, hvalid⟩ := validateValue_srv (t ▸ hr)
      obtain ⟨srv', hsrv', hvalid'⟩ := validateValue_srv (t ▸ hs)
      obtain ⟨n, hn, hnl⟩ := exists_parseName_target hcrates (isTarget_srv hsrv hvalid)
      obtain ⟨m, hm, hml⟩ := exists_parseName_target hcrates (isTarget_srv hsrv' hvalid')
      simp only [t, toOption_eq_some.2 hsrv, toOption_eq_some.2 hsrv', toOption_eq_some.2 hn, toOption_eq_some.2 hm,
        Option.bind_eq_bind, Option.bind_some, Option.map_some, Option.some.injEq] at hd hd'
      subst hd hd'
      simp only [hsrv, hsrv', SrvRecordValue.canonical, List.append_assoc, List.cons_append, List.nil_append,
        natText_space_inj, (isTarget_srv hsrv hvalid).canonical_eq_iff (isTarget_srv hsrv' hvalid') hnl hml, Rdata.lower,
        Rdata.srv.injEq]
  | txt =>
      obtain ⟨rdata, hrdata, hok⟩ := hrtxt t
      obtain ⟨rdata', hrdata', hok'⟩ := hstxt (ht ▸ t)
      have hd := ((served_txt hcrates hbase64 t hrdata hok).1 (by unfold RecordData.served; exact hd)).1
      have hd' := ((served_txt hcrates hbase64 (ht ▸ t) hrdata' hok').1
        (by unfold RecordData.served; rw [← ht]; exact hd')).1
      subst hd hd'
      simp only [hrdata, hrdata', txtIntoEncoded_inj hbase64, Rdata.lower, Rdata.txt.injEq]
  | soa =>
      rw [t] at hd
      cases hd

/-! ### The stored form -/

/-- A value in the form rows store: it is its own encoding, it is accepted with a priority its type
takes, and it is shown as it is. -/
structure Stored (t : RecordType) (p : Option ℤ) (e : Text) : Prop where
  again : t.encodedValue e p = .ok e
  valid : (p.isSome = true → t.takesPriority = true) → t.validateValue e p = .ok ()
  shown : t.displayValue e = e

omit crates in
theorem validateValue_of_priority {t : RecordType} {p : Option ℤ} (h : p.isSome = true → t.takesPriority = true) :
    (p.isSome && !t.takesPriority) = false := by
  cases p with
  | none => rfl
  | some q => simp [h rfl]

theorem stored_a (addr : Ipv4Addr) (p : Option ℤ) : Stored .a p (ipv4Text addr) where
  again := by
    rw [RecordType.encodedValue, trim_eq_self fun c => not_isWhitespace_of_mem_ipv4Text, parseA, parseIpv4_ipv4Text]
    rfl
  valid h := by
    rw [RecordType.validateValue, validateValue_of_priority h, parseA, parseIpv4_ipv4Text]
    rfl
  shown := rfl

theorem stored_aaaa (addr : Ipv6Addr) (p : Option ℤ) : Stored .aaaa p (ipv6Text addr) where
  again := by
    rw [RecordType.encodedValue, trim_eq_self fun c => not_isWhitespace_of_mem_ipv6Text, parseAaaa, parseIpv6_ipv6Text]
    rfl
  valid h := by
    rw [RecordType.validateValue, validateValue_of_priority h, parseAaaa, parseIpv6_ipv6Text]
    rfl
  shown := rfl

theorem stored_host {t : RecordType} {field x : Text}
    (hencode : ∀ v p, t.encodedValue v p = (parseHost field (trim v)).map toFqdnLowercase)
    (hcheck : ∀ v p, (p.isSome && !t.takesPriority) = false → t.validateValue v p = (parseHost field v).map fun _ => ())
    (hshow : ∀ v, t.displayValue v = toFqdnLowercase v) (h : validateDomainRecordValue field x = .ok ()) (p : Option ℤ) :
    Stored t p (toFqdnLowercase x) := by
  have hvalid := validateDomainRecordValue_toFqdnLowercase h
  have hparse : parseHost field (toFqdnLowercase x) = .ok (toFqdnLowercase x) := by
    rw [parseHost, hvalid]
    rfl
  have hself : toFqdnLowercase (toFqdnLowercase x) = toFqdnLowercase x := (IsTarget.stored (.inr ⟨field, h⟩)).2
  constructor
  · rw [hencode, (trimEndMatches_of_validDomain hvalid).2, hparse, Except.map, hself]
  · intro hp
    rw [hcheck _ _ (validateValue_of_priority hp), hparse]
    rfl
  · rw [hshow, hself]

omit crates in
theorem trim_toFqdnLowercase {x : Text} (h : IsTarget x) : trim (toFqdnLowercase x) = toFqdnLowercase x :=
  trim_eq_self h.stored.1.not_isWhitespace

omit crates in
theorem MxRecordValue.validate_stored {priority : ℕ} {target : Text} (ht : IsTarget target)
    (h : MxRecordValue.validate ⟨priority, target⟩ = .ok ()) :
    MxRecordValue.validate ⟨priority, toFqdnLowercase target⟩ = .ok () := by
  unfold MxRecordValue.validate at h ⊢
  simp only [trim_toFqdnLowercase ht, trim_eq_self ht.not_isWhitespace] at h ⊢
  by_cases hroot : target = ['.']
  · subst hroot
    exact h
  · rw [if_neg hroot] at h
    have hvalid := validateDomainRecordValue_toFqdnLowercase h
    rw [if_neg, hvalid]
    rintro e
    rw [e] at hvalid
    cases hvalid

omit crates in
theorem SrvRecordValue.validate_stored {priority weight port : ℕ} {target : Text} (ht : IsTarget target)
    (h : SrvRecordValue.validate ⟨priority, weight, port, target⟩ = .ok ()) :
    SrvRecordValue.validate ⟨priority, weight, port, toFqdnLowercase target⟩ = .ok () := by
  unfold SrvRecordValue.validate at h ⊢
  simp only [trim_toFqdnLowercase ht, trim_eq_self ht.not_isWhitespace] at h ⊢
  by_cases hroot : target = ['.']
  · subst hroot
    rfl
  · rw [if_neg hroot] at h
    rw [validateDomainRecordValue_toFqdnLowercase h, ite_self]

theorem stored_mx {v : Text} {p : Option ℤ} {mx : MxRecordValue} (h : MxRecordValue.parse v p = .ok mx)
    (hv : mx.validate = .ok ()) : Stored .mx p mx.encoded := by
  have ht := isTarget_mx h hv
  have hparse := (MxRecordValue.parse_encoded h).2.2
  have hvalid := MxRecordValue.validate_stored ht hv
  constructor
  · rw [RecordType.encodedValue, MxRecordValue.encoded, trim_toFqdnLowercase ht, ← MxRecordValue.encoded, hparse,
      Fallible.ok_bind, hvalid, Fallible.ok_bind]
    simp only [MxRecordValue.encoded, ht.stored.2]
    rfl
  · intro hp
    rw [RecordType.validateValue, validateValue_of_priority hp, hparse]
    exact hvalid
  · rw [RecordType.displayValue, MxRecordValue.encoded, displayLastNameField,
      splitWhitespace_eq_singleton ht.stored.1.ne_nil ht.stored.1.not_isWhitespace]
    simp [join, ht.stored.2]

theorem stored_srv {v : Text} {p : Option ℤ} {srv : SrvRecordValue} (h : SrvRecordValue.parse v p = .ok srv)
    (hv : srv.validate = .ok ()) : Stored .srv p srv.encoded := by
  have ht := isTarget_srv h hv
  have hparse := SrvRecordValue.parse_stored h
  have hparse' : SrvRecordValue.parse (trim srv.encoded) p =
      .ok ⟨srv.priority, srv.weight, srv.port, toFqdnLowercase srv.target⟩ := by
    rw [SrvRecordValue.parse_eq_ok] at hparse ⊢
    rwa [splitWhitespace_trim]
  have hvalid := SrvRecordValue.validate_stored ht hv
  constructor
  · rw [RecordType.encodedValue, hparse', Fallible.ok_bind, hvalid, Fallible.ok_bind]
    simp only [SrvRecordValue.encoded, ht.stored.2]
    rfl
  · intro hp
    rw [RecordType.validateValue, validateValue_of_priority hp, hparse]
    exact hvalid
  · rw [RecordType.displayValue, displayLastNameField, SrvRecordValue.encoded, splitWhitespace_srv,
      splitWhitespace_eq_singleton ht.stored.1.ne_nil ht.stored.1.not_isWhitespace]
    simp [join, ht.stored.2]

/-- **The stored form.**  What is stored for a value is in stored form, and compares equal to it. -/
theorem encodedValue_stored {t : RecordType} (htxt : t ≠ .txt) (hsoa : t ≠ .soa) {v e : Text} {p : Option ℤ}
    (h : t.encodedValue v p = .ok e) : Stored t p e ∧ t.canonicalValue (trim v) p = t.canonicalValue e p := by
  have hhost : ∀ {field : Text}, (parseHost field (trim v)).map toFqdnLowercase = .ok e →
      validateDomainRecordValue field (trim v) = .ok () ∧ e = toFqdnLowercase (trim v) ∧
        toFqdnLowercase (trim v) = toFqdnLowercase e := by
    intro field h
    obtain ⟨_, hparse, rfl⟩ := Fallible.map_eq_ok.1 h
    obtain ⟨_, hvalid, hparse⟩ := Fallible.bind_eq_ok.1 hparse
    cases hparse
    exact ⟨hvalid, rfl, (IsTarget.stored (.inr ⟨field, hvalid⟩)).2.symm⟩
  cases t with
  | a =>
      obtain ⟨addr, haddr, rfl⟩ := Fallible.map_eq_ok.1 h
      refine ⟨stored_a addr p, ?_⟩
      rw [RecordType.canonicalValue, RecordType.canonicalValue, haddr, parseA, parseIpv4_ipv4Text]
  | aaaa =>
      obtain ⟨addr, haddr, rfl⟩ := Fallible.map_eq_ok.1 h
      refine ⟨stored_aaaa addr p, ?_⟩
      rw [RecordType.canonicalValue, RecordType.canonicalValue, haddr, parseAaaa, parseIpv6_ipv6Text]
  | cname =>
      obtain ⟨hvalid, rfl, hcanon⟩ := hhost h
      exact ⟨stored_host (fun _ _ => rfl) (fun v p hp => by rw [RecordType.validateValue, hp]; rfl) (fun _ => rfl) hvalid p,
        hcanon⟩
  | ns =>
      obtain ⟨hvalid, rfl, hcanon⟩ := hhost h
      exact ⟨stored_host (fun _ _ => rfl) (fun v p hp => by rw [RecordType.validateValue, hp]; rfl) (fun _ => rfl) hvalid p,
        hcanon⟩
  | ptr =>
      obtain ⟨hvalid, rfl, hcanon⟩ := hhost h
      exact ⟨stored_host (fun _ _ => rfl) (fun v p hp => by rw [RecordType.validateValue, hp]; rfl) (fun _ => rfl) hvalid p,
        hcanon⟩
  | mx =>
      obtain ⟨mx, hmx, h⟩ := Fallible.bind_eq_ok.1 h
      obtain ⟨_, hvalid, h⟩ := Fallible.bind_eq_ok.1 h
      cases h
      refine ⟨stored_mx hmx hvalid, ?_⟩
      rw [RecordType.canonicalValue, RecordType.canonicalValue, hmx, (MxRecordValue.parse_encoded hmx).2.2]
      simp only [MxRecordValue.canonical, (isTarget_mx hmx hvalid).stored.2]
  | srv =>
      obtain ⟨srv, hsrv, h⟩ := Fallible.bind_eq_ok.1 h
      obtain ⟨_, hvalid, h⟩ := Fallible.bind_eq_ok.1 h
      cases h
      refine ⟨stored_srv hsrv hvalid, ?_⟩
      rw [RecordType.canonicalValue, RecordType.canonicalValue, hsrv, SrvRecordValue.parse_stored hsrv]
      simp only [SrvRecordValue.canonical, (isTarget_srv hsrv hvalid).stored.2]
  | txt => exact absurd rfl htxt
  | soa => exact absurd rfl hsoa

/-! ### The stored form on the wire -/

omit crates in
theorem IsTarget.labels_stored {x : Text} (h : IsTarget x) :
    (targetLabels (toFqdnLowercase x)).map toAsciiLowercase = targetLabels (toFqdnLowercase x) := by
  rcases h with rfl | ⟨field, h⟩
  · rfl
  · obtain ⟨htrim, hself⟩ := trimEndMatches_of_validDomain h
    have e : toFqdnLowercase x = toAsciiLowercase (stripOneSuffix '.' x) ++ ['.'] := by
      rw [toFqdnLowercase, hself, htrim]
    have hstrip : stripOneSuffix '.' (toFqdnLowercase x) = toAsciiLowercase (stripOneSuffix '.' x) := by
      simp [e, stripOneSuffix]
    unfold targetLabels
    split
    · rfl
    · rw [hstrip, split_toAsciiLowercase, List.map_map]
      exact List.map_congr_left fun l _ => toAsciiLowercase_toAsciiLowercase l

theorem parseName_stored (hcrates : crates.Rfc1035Wire) {x : Text} (h : IsTarget x) {n : Name}
    (hn : parseName (toFqdnLowercase x) = .ok n) : n.lower = n := by
  obtain ⟨m, hm, hlabels⟩ := exists_parseName_target hcrates h.stored.1
  rw [hn] at hm
  cases hm
  exact Rfc1035.Name.ext (by rw [lower_labels_eq hlabels, h.labels_stored, hlabels])

theorem served_lower (hcrates : crates.Rfc1035Wire) {r : RecordData} {d : Rdata}
    (h : r.recordType ≠ .txt → Stored r.recordType r.priority r.value) (hd : r.served = some d) : d.lower = d := by
  -- the types whose rdata is one name
  have hhost : ∀ {field : Text} (data : Name → Rdata), (∀ n, (data n).lower = data n.lower) →
      (parseHost field (trim r.value)).map toFqdnLowercase = .ok r.value →
      (parseName r.value).toOption.map data = some d → d.lower = d := by
    intro field data hdata h hd
    obtain ⟨htarget, e⟩ := isTarget_of_parseHost h
    obtain ⟨n, hn, rfl⟩ := Option.map_eq_some_iff.1 hd
    rw [toOption_eq_some, e] at hn
    rw [hdata, parseName_stored hcrates htarget hn]
  have again := fun ht => (h ht).again
  unfold RecordData.served at hd
  cases t : r.recordType with
  | a =>
      rw [t] at hd
      obtain ⟨addr, -, rfl⟩ := Option.map_eq_some_iff.1 hd
      rfl
  | aaaa =>
      rw [t] at hd
      obtain ⟨addr, -, rfl⟩ := Option.map_eq_some_iff.1 hd
      rfl
  | cname =>
      rw [t] at hd again
      exact hhost .cname (fun _ => rfl) (again (by simp)) hd
  | ns =>
      rw [t] at hd again
      exact hhost .ns (fun _ => rfl) (again (by simp)) hd
  | ptr =>
      rw [t] at hd again
      exact hhost .ptr (fun _ => rfl) (again (by simp)) hd
  | mx =>
      rw [t] at hd again
      obtain ⟨mx, hmx, again⟩ := Fallible.bind_eq_ok.1 (again (by simp))
      obtain ⟨_, hvalid, again⟩ := Fallible.bind_eq_ok.1 again
      have e : mx.encoded = r.value := Except.ok.inj again
      have hparse := (MxRecordValue.parse_encoded hmx).2.2
      rw [e] at hparse
      simp only [toOption_eq_some.2 hparse, Option.bind_eq_bind, Option.bind_some] at hd
      obtain ⟨n, hn, rfl⟩ := Option.map_eq_some_iff.1 hd
      rw [Rdata.lower, parseName_stored hcrates (isTarget_mx hmx hvalid) (toOption_eq_some.1 hn)]
  | srv =>
      rw [t] at hd again
      obtain ⟨srv, hsrv, again⟩ := Fallible.bind_eq_ok.1 (again (by simp))
      obtain ⟨_, hvalid, again⟩ := Fallible.bind_eq_ok.1 again
      have e : srv.encoded = r.value := Except.ok.inj again
      have hparse := SrvRecordValue.parse_stored hsrv
      rw [e] at hparse
      simp only [toOption_eq_some.2 hparse, Option.bind_eq_bind, Option.bind_some] at hd
      obtain ⟨n, hn, rfl⟩ := Option.map_eq_some_iff.1 hd
      rw [Rdata.lower, parseName_stored hcrates (isTarget_srv hsrv hvalid) (toOption_eq_some.1 hn)]
  | txt =>
      rw [t] at hd
      simp only at hd
      split at hd
      · obtain ⟨octets, -, rfl⟩ := Option.map_eq_some_iff.1 hd
        rfl
      · obtain ⟨octets, -, rfl⟩ := Option.map_eq_some_iff.1 hd
        rfl
  | soa =>
      rw [t] at hd
      cases hd

def RecordType.code : RecordType → ℕ
  | .a => 1
  | .ns => 2
  | .cname => 5
  | .soa => 6
  | .ptr => 12
  | .mx => 15
  | .txt => 16
  | .aaaa => 28
  | .srv => 33

theorem served_shape {r : RecordData} {d : Rdata} (hd : r.served = some d) :
    d.typeCode = r.recordType.code ∧ d.Fits := by
  unfold RecordData.served at hd
  split at hd <;> rename_i t <;> rw [t]
  case h_6 =>
    obtain ⟨mx, hmx, hd⟩ := Option.bind_eq_some_iff.1 hd
    obtain ⟨n, -, rfl⟩ := Option.map_eq_some_iff.1 hd
    obtain ⟨-, -, hle, e⟩ := MxRecordValue.parse_eq_ok.1 (toOption_eq_some.1 hmx)
    refine ⟨rfl, ?_⟩
    simp only [Rdata.Fits]
    omega
  case h_7 =>
    obtain ⟨srv, hsrv, hd⟩ := Option.bind_eq_some_iff.1 hd
    obtain ⟨n, -, rfl⟩ := Option.map_eq_some_iff.1 hd
    obtain ⟨_, _, -, hw, ho, -, hle, e⟩ := SrvRecordValue.parse_eq_ok.1 (toOption_eq_some.1 hsrv)
    have hw := le_of_parseUnsigned hw
    have ho := le_of_parseUnsigned ho
    refine ⟨rfl, ?_⟩
    simp only [Rdata.Fits]
    omega
  case h_8 =>
    split at hd <;> obtain ⟨octets, -, rfl⟩ := Option.map_eq_some_iff.1 hd <;> exact ⟨rfl, trivial⟩
  case h_9 => cases hd
  all_goals
    obtain ⟨_, -, rfl⟩ := Option.map_eq_some_iff.1 hd
    exact ⟨rfl, trivial⟩

/-- The octets of the rdata of two rows of a type tell it apart. -/
theorem served_octets_inj {r s : RecordData} {d d' : Rdata} (ht : r.recordType = s.recordType)
    (hd : r.served = some d) (hd' : s.served = some d') : d.octets = d'.octets ↔ d = d' := by
  obtain ⟨h1, h2⟩ := served_shape hd
  obtain ⟨h1', h2'⟩ := served_shape hd'
  exact ⟨Rdata.octets_inj (by rw [h1, h1', ht]) h2 h2', fun e => by rw [e]⟩

/-! ### A priority the type does not take -/

/-- A row without the priority its type does not take. -/
def RecordData.effective (r : RecordData) : RecordData :=
  { r with priority := if r.recordType.takesPriority then r.priority else none }

theorem served_effective (r : RecordData) : r.effective.served = r.served := by
  unfold RecordData.served RecordData.effective
  cases h : r.recordType <;> rfl

omit crates in
theorem canonical_effective (r : RecordData) : r.effective.canonical = r.canonical := by
  unfold RecordData.canonical RecordData.effective
  cases h : r.recordType <;> rfl

theorem accepted_effective {r : RecordData} {v : Text} (hsoa : r.recordType ≠ .soa)
    (h : r.recordType.encodedValue v r.priority = .ok r.value) :
    r.recordType.validateValue r.value r.effective.priority = .ok () ∧ TxtOk r.effective := by
  refine ⟨?_, fun ht => encodedValue_txt (ht ▸ h)⟩
  by_cases ht : r.recordType = .txt
  · rw [RecordData.effective, ht]
    rfl
  · have h : r.recordType.encodedValue v r.effective.priority = .ok r.value := by
      rw [← h]
      unfold RecordData.effective
      cases t : r.recordType <;> rfl
    refine (encodedValue_stored ht hsoa h).1.valid fun hsome => ?_
    unfold RecordData.effective at hsome
    simp only at hsome
    split at hsome
    · assumption
    · cases hsome

/-- **Stored values.**  Two stored values of a type are equal exactly when they are the same rdata on the
wire; a stored value of any type but TXT is its own encoding and that of its display form, compares
equal to the value it was encoded from, and is accepted where its type takes the priority. -/
theorem values_agree (hcrates : crates.Rfc1035Wire) (hbase64 : crates.Base64RoundTrip) {t : RecordType} (hsoa : t ≠ .soa)
    {v w e f : Text} {p q : Option ℤ} (he : t.encodedValue v p = .ok e) (hf : t.encodedValue w q = .ok f) :
    (∀ (zone zone' : ZoneName) (r s : Record) (x y : Rfc1035.ResourceRecord),
      r.recordType = t → r.value = e → r.priority = p → s.recordType = t → s.value = f → s.priority = q →
      Composes zone r x → Composes zone' s y → (t.valuesEqual e p f q = true ↔ x.data.octets = y.data.octets)) ∧
    (t ≠ .txt → t.encodedValue e p = .ok e ∧
      (t.validateValue e p = .ok () ↔ (p.isSome = true → t.takesPriority = true)) ∧
      t.canonicalValue (trim v) p = t.canonicalValue e p ∧ t.encodedValue (t.displayValue e) p = .ok e) := by
  refine ⟨?_, fun htxt => ?_⟩
  · rintro zone zone' r s x y rfl rfl rfl ht rfl rfl hx hy
    rw [← ht] at hf
    have hsoa' : s.recordType ≠ .soa := ht ▸ hsoa
    have hx := ((composes_iff hsoa).1 hx).2.1
    have hy := ((composes_iff hsoa').1 hy).2.1
    have hxl := served_lower hcrates (fun htxt => (encodedValue_stored htxt hsoa he).1) hx
    have hyl := served_lower hcrates (fun htxt => (encodedValue_stored htxt hsoa' hf).1) hy
    rw [served_octets_inj ht.symm hx hy, ← hxl, ← hyl]
    obtain ⟨hr, hrtxt⟩ := accepted_effective hsoa he
    obtain ⟨hs, hstxt⟩ := accepted_effective hsoa' hf
    rw [← served_effective] at hx hy
    rw [← canonical_eq_iff_served hcrates hbase64 (r := r.effective) (s := s.effective) ht.symm hr hs hrtxt hstxt hx hy,
      canonical_effective, canonical_effective, RecordType.valuesEqual, beq_iff_eq, RecordData.canonical,
      RecordData.canonical, ht]
  · obtain ⟨hstored, hcanon⟩ := encodedValue_stored htxt hsoa he
    refine ⟨hstored.again, ⟨fun h hp => ?_, hstored.valid⟩, hcanon, by rw [hstored.shown]; exact hstored.again⟩
    unfold RecordType.validateValue at h
    by_contra hno
    rw [if_pos (by simp [hp, hno])] at h
    cases h

end Served

/-- A priority is encoded with an address, and the stored address is not accepted with it. -/
theorem encoded_address_priority :
    @RecordType.encodedValue sampleCrates .a (lit "192.0.2.1") (some 5) = .ok (lit "192.0.2.1") ∧
      RecordType.a.validateValue (lit "192.0.2.1") (some 5) ≠ .ok () := by
  decide +kernel

theorem values_agree_mx :
    @RecordType.encodedValue sampleCrates .mx (lit " Mail.Example.com ") (some 5) = .ok (lit "mail.example.com.") ∧
      RecordType.mx.validateValue (lit "mail.example.com.") (some 5) = .ok () := by
  have h : @RecordType.encodedValue sampleCrates .mx (lit " Mail.Example.com ") (some 5) =
      .ok (lit "mail.example.com.") := by
    decide +kernel
  exact ⟨h, ((@values_agree sampleCrates sampleCrates_wire sampleCrates_base64 .mx (by simp) _ _ _ _ _ _ h h).2
    (by simp)).2.1.2 fun _ => rfl⟩

end Bindizr
