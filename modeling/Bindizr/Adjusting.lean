import Bindizr.Listing

/-! # Adjusted RRsets

`bindizr-service/src/external_dns/apply.rs`: before it plans, an ExternalDNS client asks for the
form of its RRsets that applying them would store and listing would show (`adjust_rrset`).  Two
loops compute it: applying encodes the values and keeps one of each rdata, by comparison of
canonical forms; adjusting encodes them, renders what was encoded, and keeps one of each text.
They agree because what encoding gives is its own canonical form and is read back from its
rendering (`encodedValue_shown`), so the rendering determines the rdata (`adjust_predicts`). -/

namespace Bindizr

open OwnerName

section Adjusting

variable [crates : Crates]

/-- The form of one value: what is stored, rendered; a value that does not encode is passed through. -/
def adjustValue (t : RecordType) (value : Text) : Text :=
  match t.encodedValue value none with
  | .ok encoded => t.presentationRdata encoded none
  | .error _ => value

/-- The loop of `adjust_rrset`. -/
def adjustValues (t : RecordType) (values : List Text) : List Text :=
  values.foldl (fun kept value => if adjustValue t value ∈ kept then kept else kept ++ [adjustValue t value]) []

def adjustRrset (rrset : ExternalDnsRrset) : Except ServiceError ExternalDnsRrset := do
  let recordType ← parseSupportedRecordType rrset.recordType
  let ttl ← normalizeTtl rrset.ttl
  validateRrsetShape rrset recordType
  pure ⟨rrset.name, recordType.asStr, ttl, (adjustValues recordType rrset.values).mergeSort (· ≤ ·)⟩

def adjustRrsets (rrsets : List ExternalDnsRrset) : Except ServiceError (List ExternalDnsRrset) := rrsets.mapM adjustRrset

/-- Two spellings of one rdata: of an address, of a name up to case and the final dot, of the same character-strings. -/
inductive Respells : RecordType → Text → Text → Prop
  | a {v w : Text} {addr : Ipv4Addr} : parseA (trim v) = .ok addr → parseA (trim w) = .ok addr → Respells .a v w
  | aaaa {v w : Text} {addr : Ipv6Addr} : parseAaaa (trim v) = .ok addr → parseAaaa (trim w) = .ok addr →
      Respells .aaaa v w
  | cname {v w x : Text} : toAsciiLowercase (trim v) = x ∨ toAsciiLowercase (trim v) = x ++ ['.'] →
      toAsciiLowercase (trim w) = x ∨ toAsciiLowercase (trim w) = x ++ ['.'] → Respells .cname v w
  | txt {v w : Text} {rdata : List UInt8} : txtParse v = .ok rdata → txtParse w = .ok rdata → Respells .txt v w

/-! ### What encoding gives -/

theorem encodedValue_shown (hbase64 : crates.Base64RoundTrip) {t : RecordType} (ht : t ∈ externalDnsRecordTypes)
    {v e : Text} (h : t.encodedValue v none = .ok e) : t.encodedValue (t.presentationRdata e none) none = .ok e := by
  by_cases htxt : t = .txt
  · subst htxt
    obtain ⟨rdata, hrdata, rfl⟩ := Fallible.map_eq_ok.1 h
    have hok := txtParse_isTxtRdata hrdata
    simp only [RecordType.presentationRdata, txtFromEncoded_txtIntoEncoded hbase64 hok, RecordType.encodedValue,
      txtParse_toPresentation hok (txtParse_ne_nil hrdata)]
    rfl
  · have hsoa : t ≠ .soa := fun e => by simp [e, externalDnsRecordTypes] at ht
    obtain ⟨hstored, -⟩ := encodedValue_stored htxt hsoa h
    have hshow : t.presentationRdata e none = e := by
      simp only [externalDnsRecordTypes, List.mem_cons, List.not_mem_nil, or_false] at ht
      rcases ht with rfl | rfl | rfl | rfl
      · exact hstored.shown
      · exact hstored.shown
      · exact hstored.shown
      · exact absurd rfl htxt
    rw [hshow, hstored.again]

theorem canonicalValue_encoded {t : RecordType} (ht : t ∈ externalDnsRecordTypes) {v e : Text}
    (h : t.encodedValue v none = .ok e) : t.canonicalValue e none = e := by
  simp only [externalDnsRecordTypes, List.mem_cons, List.not_mem_nil, or_false] at ht
  rcases ht with rfl | rfl | rfl | rfl
  · obtain ⟨addr, -, rfl⟩ := Fallible.map_eq_ok.1 h
    simp only [RecordType.canonicalValue, parseA, parseIpv4_ipv4Text]
  · obtain ⟨addr, -, rfl⟩ := Fallible.map_eq_ok.1 h
    simp only [RecordType.canonicalValue, parseAaaa, parseIpv6_ipv6Text]
  · cases encodedValue_spelling (by simp) (by simp) h with
    | cname hx => exact hx.stored
  · rfl

omit crates in
theorem toAsciiLowercase_trimEndMatches (t : Text) :
    toAsciiLowercase (trimEndMatches '.' t) = trimEndMatches '.' (toAsciiLowercase t) := by
  have hdot : (fun c : Char => c == '.') ∘ lowerChar = fun c => c == '.' := by
    funext c
    simp [lowerChar_eq_iff (c := c) (d := '.') (by decide) (by decide)]
  simp only [trimEndMatches, toAsciiLowercase, List.rdropWhile, ← List.map_reverse, List.dropWhile_map, hdot]

/-- Two spellings of one rdata encode alike. -/
theorem Respells.encodedValue_eq {t : RecordType} {v w e f : Text} (h : Respells t v w)
    (he : t.encodedValue v none = .ok e) (hf : t.encodedValue w none = .ok f) : e = f := by
  cases h with
  | a hv hw =>
      rw [RecordType.encodedValue, hv] at he
      rw [RecordType.encodedValue, hw] at hf
      exact Except.ok.inj (he.symm.trans hf)
  | aaaa hv hw =>
      rw [RecordType.encodedValue, hv] at he
      rw [RecordType.encodedValue, hw] at hf
      exact Except.ok.inj (he.symm.trans hf)
  | @cname _ _ x hv hw =>
      have hdot : ∀ {u : Text}, toAsciiLowercase u = x ∨ toAsciiLowercase u = x ++ ['.'] →
          trimEndMatches '.' (toAsciiLowercase u) = trimEndMatches '.' x := fun hu => by
        rcases hu with hu | hu
        · rw [hu]
        · rw [hu, trimEndMatches, List.rdropWhile_concat_pos _ _ _ (by simp), ← trimEndMatches]
      have hstored : ∀ {u g : Text}, RecordType.cname.encodedValue u none = .ok g →
          toAsciiLowercase (trim u) = x ∨ toAsciiLowercase (trim u) = x ++ ['.'] → g = trimEndMatches '.' x ++ ['.'] := by
        intro u g hg hu
        obtain ⟨htarget, rfl⟩ := isTarget_of_parseHost hg
        rw [toFqdnLowercase, trim_eq_self htarget.not_isWhitespace, toAsciiLowercase_trimEndMatches, hdot hu]
      rw [hstored he hv, hstored hf hw]
  | txt hv hw =>
      rw [RecordType.encodedValue, hv] at he
      rw [RecordType.encodedValue, hw] at hf
      exact Except.ok.inj (he.symm.trans hf)

/-! ### The two loops -/

omit crates in
theorem nodup_mem_keep {kept : List Text} (hkept : kept.Nodup) (a : Text) :
    (if a ∈ kept then kept else kept ++ [a]).Nodup ∧
      ∀ c, c ∈ (if a ∈ kept then kept else kept ++ [a]) ↔ c ∈ kept ∨ a = c := by
  split
  · rename_i hmem
    exact ⟨hkept, fun c => ⟨.inl, fun h => h.elim id fun e => e ▸ hmem⟩⟩
  · rename_i hmem
    exact ⟨by simpa using List.Nodup.concat hmem hkept, fun c => by simp [@eq_comm _ c]⟩

theorem adjustValues_nodup_mem (t : RecordType) (values : List Text) :
    (adjustValues t values).Nodup ∧ ∀ c, c ∈ adjustValues t values ↔ ∃ v ∈ values, adjustValue t v = c := by
  suffices ∀ kept : List Text, kept.Nodup → (values.foldl (fun kept value =>
        if adjustValue t value ∈ kept then kept else kept ++ [adjustValue t value]) kept).Nodup ∧
      ∀ c, c ∈ values.foldl (fun kept value =>
        if adjustValue t value ∈ kept then kept else kept ++ [adjustValue t value]) kept ↔
          c ∈ kept ∨ ∃ v ∈ values, adjustValue t v = c by
    simpa [adjustValues] using this [] List.nodup_nil
  intro kept hkept
  induction values generalizing kept with
  | nil => simpa using hkept
  | cons v values ih =>
      obtain ⟨hnext, hmem⟩ := nodup_mem_keep hkept (adjustValue t v)
      rw [List.foldl_cons]
      refine ⟨(ih _ hnext).1, fun c => ?_⟩
      rw [(ih _ hnext).2, hmem, List.exists_mem_cons_iff, or_assoc]

/-- The comparison of `convert_rrset` finds what was encoded before. -/
theorem any_valuesEqual {t : RecordType} (ht : t ∈ externalDnsRecordTypes) {kept : List Text}
    (hkept : ∀ e ∈ kept, ∃ v, t.encodedValue v none = .ok e) {v e : Text} (he : t.encodedValue v none = .ok e) :
    (kept.any fun existing => t.valuesEqual existing none e none) = true ↔ e ∈ kept := by
  simp only [List.any_eq_true, RecordType.valuesEqual, beq_iff_eq, canonicalValue_encoded ht he]
  constructor
  · rintro ⟨f, hf, heq⟩
    obtain ⟨w, hw⟩ := hkept f hf
    rwa [← heq, canonicalValue_encoded ht hw]
  · exact fun hmem => ⟨e, hmem, canonicalValue_encoded ht he⟩

theorem encodeValues_nodup_mem {t : RecordType} (ht : t ∈ externalDnsRecordTypes) {values stored : List Text}
    (h : encodeValues t values = .ok stored) :
    stored.Nodup ∧ ∀ e, e ∈ stored ↔ ∃ v ∈ values, t.encodedValue v none = .ok e := by
  suffices ∀ kept : List Text, kept.Nodup → (∀ e ∈ kept, ∃ v, t.encodedValue v none = .ok e) →
      values.foldlM (fun kept value => do
        let encoded ← (t.encodedValue value none).mapError (ServiceError.mk .invalidRecordValue)
        pure (if kept.any fun existing => t.valuesEqual existing none encoded none then kept
          else kept ++ [encoded])) kept = .ok stored →
      stored.Nodup ∧ ∀ e, e ∈ stored ↔ e ∈ kept ∨ ∃ v ∈ values, t.encodedValue v none = .ok e by
    simpa using this [] List.nodup_nil (by simp) h
  clear h
  intro kept hnodup hkept h
  induction values generalizing kept with
  | nil =>
      cases h
      simpa using hnodup
  | cons v values ih =>
      rw [List.foldlM_cons] at h
      obtain ⟨next, hnext, h⟩ := Fallible.bind_eq_ok.1 h
      obtain ⟨encoded, hencoded, hnext⟩ := Fallible.bind_eq_ok.1 hnext
      have hencoded := Fallible.mapError_eq_ok.1 hencoded
      rw [← Except.ok.inj hnext] at h
      simp only [any_valuesEqual ht hkept hencoded] at h
      obtain ⟨hstep, hmem⟩ := nodup_mem_keep hnodup encoded
      obtain ⟨hn, hm⟩ := ih _ hstep (fun e he => ((hmem e).1 he).elim (hkept e) fun heq => ⟨v, heq ▸ hencoded⟩) h
      refine ⟨hn, fun e => ?_⟩
      rw [hm, hmem, List.exists_mem_cons_iff, hencoded, Except.ok.injEq, or_assoc]

theorem exists_encodedValue {t : RecordType} {values stored : List Text} (h : encodeValues t values = .ok stored) :
    ∀ v ∈ values, ∃ e, t.encodedValue v none = .ok e := by
  suffices ∀ kept : List Text, values.foldlM (fun kept value => do
        let encoded ← (t.encodedValue value none).mapError (ServiceError.mk .invalidRecordValue)
        pure (if kept.any fun existing => t.valuesEqual existing none encoded none then kept
          else kept ++ [encoded])) kept = .ok stored → ∀ v ∈ values, ∃ e, t.encodedValue v none = .ok e from this [] h
  clear h
  intro kept h
  induction values generalizing kept with
  | nil => simp
  | cons v values ih =>
      rw [List.foldlM_cons] at h
      obtain ⟨next, hnext, h⟩ := Fallible.bind_eq_ok.1 h
      obtain ⟨e, he, -⟩ := Fallible.bind_eq_ok.1 hnext
      exact List.forall_mem_cons.2 ⟨⟨e, Fallible.mapError_eq_ok.1 he⟩, ih _ h⟩

/-! ### Adjusted values -/

def adjustedValues (t : RecordType) (values : List Text) : List Text := (adjustValues t values).mergeSort (· ≤ ·)

theorem mem_adjustedValues {t : RecordType} {values : List Text} {c : Text} :
    c ∈ adjustedValues t values ↔ ∃ v ∈ values, adjustValue t v = c := by
  rw [adjustedValues, List.mem_mergeSort, (adjustValues_nodup_mem t values).2]

theorem pairwise_adjustedValues (t : RecordType) (values : List Text) :
    (adjustedValues t values).Pairwise (· < ·) := by
  have hle : (adjustedValues t values).Pairwise fun a b => decide (a ≤ b) = true :=
    List.pairwise_mergeSort (fun a b c hab hbc => by simpa using le_trans (of_decide_eq_true hab) (of_decide_eq_true hbc))
      (fun a b => by simpa using le_total a b) _
  have hnodup : (adjustedValues t values).Nodup := (List.mergeSort_perm _ _).nodup_iff.2 (adjustValues_nodup_mem t values).1
  exact hle.imp₂ (fun a b hab hne => lt_of_le_of_ne (of_decide_eq_true hab) hne) hnodup

theorem eq_adjustedValues {t : RecordType} {values l : List Text} (hl : l.Pairwise (· < ·))
    (hmem : ∀ c, c ∈ l ↔ ∃ v ∈ values, adjustValue t v = c) : l = adjustedValues t values := by
  have hsorted := pairwise_adjustedValues t values
  refine List.Perm.eq_of_pairwise (fun a b _ _ hab hba => absurd (lt_trans hab hba) (lt_irrefl a)) hl hsorted ?_
  rw [List.perm_ext_iff_of_nodup (hl.imp fun h => ne_of_lt h) (hsorted.imp fun h => ne_of_lt h)]
  exact fun c => (hmem c).trans mem_adjustedValues.symm

theorem adjustValue_eq {t : RecordType} {v e : Text} (h : t.encodedValue v none = .ok e) :
    adjustValue t v = t.presentationRdata e none := by
  rw [adjustValue, h]

theorem adjustValue_adjustValue (hbase64 : crates.Base64RoundTrip) {t : RecordType} (ht : t ∈ externalDnsRecordTypes)
    {v e : Text} (h : t.encodedValue v none = .ok e) : adjustValue t (adjustValue t v) = adjustValue t v := by
  rw [adjustValue_eq h, adjustValue_eq (encodedValue_shown hbase64 ht h)]

omit crates in
theorem validateRrsetShape_eq_ok {rrset : ExternalDnsRrset} {t : RecordType} :
    validateRrsetShape rrset t = .ok () ↔ rrset.values ≠ [] ∧ (t = .cname → rrset.values.length ≤ 1) := by
  unfold validateRrsetShape
  split
  · simp_all
  · split
    · rename_i h
      simpa [h.1] using fun _ => h.2
    · rename_i hne h
      exact iff_of_true rfl ⟨hne, fun ht => not_lt.1 fun hlt => h ⟨ht, hlt⟩⟩

omit crates in
theorem normalizeTtl_normalizeTtl {ttl ttl' : Option ℤ} (h : normalizeTtl ttl = .ok ttl') :
    normalizeTtl ttl' = .ok ttl' := by
  unfold normalizeTtl at h
  split at h
  · cases h
    rfl
  · rename_i t
    split at h
    · cases h
    · rename_i hneg
      split at h
      · cases h
        rfl
      · rename_i h0
        cases h
        rw [normalizeTtl, if_neg hneg, if_neg h0]

omit crates in
theorem parseSupportedRecordType_eq_ok {text : Text} {t : RecordType} (h : parseSupportedRecordType text = .ok t) :
    t ∈ externalDnsRecordTypes ∧ parseSupportedRecordType t.asStr = .ok t := by
  obtain ⟨t', ht', h⟩ := Fallible.bind_eq_ok.1 h
  split at h
  · rename_i hmem
    cases h
    refine ⟨hmem, ?_⟩
    rw [parseSupportedRecordType, parseRecordType_asStr, Fallible.ok_bind, if_pos hmem]
    rfl
  · cases h

theorem adjustRrset_eq_ok {rrset adj : ExternalDnsRrset} {t : RecordType}
    (ht : parseSupportedRecordType rrset.recordType = .ok t) :
    adjustRrset rrset = .ok adj ↔ normalizeTtl rrset.ttl = .ok adj.ttl ∧ validateRrsetShape rrset t = .ok () ∧
      adj = ⟨rrset.name, t.asStr, adj.ttl, adjustedValues t rrset.values⟩ := by
  rw [adjustRrset, ht, Fallible.ok_bind]
  constructor
  · intro h
    obtain ⟨ttl, httl, h⟩ := Fallible.bind_eq_ok.1 h
    obtain ⟨_, hshape, h⟩ := Fallible.bind_eq_ok.1 h
    cases h
    exact ⟨httl, hshape, rfl⟩
  · rintro ⟨httl, hshape, hadj⟩
    rw [httl, Fallible.ok_bind, hshape, hadj]
    rfl

/-! ### What is listed of a new RRset -/

omit crates in
theorem computeCreates_single {zone : Zone} {existing : List Record} {add : ZoneRrsetOp} (hnodup : add.values.Nodup)
    (hself : ∀ v ∈ add.values, add.recordType.canonicalValue v none = v)
    (hnone : ∀ r ∈ existing, r.name = add.name → r.recordType ≠ add.recordType) :
    computeCreates zone existing [add] [] = ⟨[], add.values.map fun v => newRow zone (add, v)⟩ := by
  suffices ∀ done rest : List Text, add.values = done ++ rest →
      rest.foldl (createValue zone existing add) ⟨[], done.map fun v => newRow zone (add, v)⟩ =
        ⟨[], add.values.map fun v => newRow zone (add, v)⟩ from this [] add.values rfl
  intro done rest
  induction rest generalizing done with
  | nil =>
      intro h
      rw [h, List.append_nil]
      rfl
  | cons v rest ih =>
      intro h
      have hstay : (existing.any fun row => add.holds v row.toRecordData) = false := by
        rw [List.any_eq_false]
        intro r hr hholds
        simp only [ZoneRrsetOp.holds, Bool.and_eq_true, beq_iff_eq] at hholds
        exact hnone r hr hholds.1.1 hholds.1.2
      have hnew : v ∉ done := fun hv => by
        rw [h, List.nodup_append] at hnodup
        exact hnodup.2.2 v hv v (by simp) rfl
      have hrepeat : ((done.map fun v => newRow zone (add, v)).any fun r => add.holds v r &&
          r.ttl == add.ttl.getD zone.ttl) = false := by
        rw [List.any_eq_false]
        intro r hr hholds
        obtain ⟨w, hw, rfl⟩ := List.mem_map.1 hr
        simp only [ZoneRrsetOp.holds, newRow, RecordType.valuesEqual, Bool.and_eq_true, beq_iff_eq] at hholds
        rw [hself w (by simp [h, hw]), hself v (by simp [h])] at hholds
        exact hnew (hholds.1.2 ▸ hw)
      have hstep : createValue zone existing add ⟨[], done.map fun v => newRow zone (add, v)⟩ v =
          ⟨[], (done ++ [v]).map fun v => newRow zone (add, v)⟩ := by
        simp only [createValue, List.any_nil, Bool.false_eq_true, if_false, List.all_nil, Bool.true_and, hstay, hrepeat,
          List.map_append, List.map_cons, List.map_nil]
        rfl
      rw [List.foldl_cons, hstep]
      exact ih (done ++ [v]) (by rw [h, List.append_assoc]; rfl)

omit crates in
theorem applyZoneOpsTx_single {policies : List ZonePolicy} {add : ZoneRrsetOp} {tx tx' : Tx} {cs : ZoneChangeSet}
    (hne : add.values ≠ []) (hnodup : add.values.Nodup)
    (hself : ∀ v ∈ add.values, add.recordType.canonicalValue v none = v)
    (hnone : ∀ r ∈ tx.store.records, r.name = add.name → r.recordType ≠ add.recordType)
    (h : applyZoneOpsTx .global policies ⟨[add], []⟩ tx = .ok (tx', cs)) :
    tx'.store.zone.id = tx.store.zone.id ∧ tx'.store.zone.name = tx.store.zone.name ∧
      tx'.store.records = tx.store.records ++ Tx.numbered tx.nextRecordId
        (add.values.map fun v => newRow tx.store.zone (add, v)) := by
  obtain ⟨_, -, h⟩ := Fallible.bind_eq_ok.1 h
  obtain ⟨cs', hcs, h⟩ := Fallible.bind_eq_ok.1 h
  obtain ⟨_, -, hcs⟩ := Fallible.bind_eq_ok.1 hcs
  have hcreates := @computeCreates_single tx.store.zone
    (tx.recordsByNames ((ZoneOps.mk [add] []).writes.map (·.relativeName))) add hnodup hself fun r hr =>
      hnone r (List.mem_of_mem_filter hr)
  obtain rfl := (Except.ok.inj hcs).symm.trans hcreates
  rw [if_neg fun hempty => hne (List.map_eq_nil_iff.1 hempty.2)] at h
  obtain ⟨n, -, h⟩ := Fallible.bind_eq_ok.1 h
  obtain ⟨tx₁, hadv, h⟩ := Fallible.bind_eq_ok.1 h
  cases h
  obtain ⟨m, -, hadv⟩ := Fallible.bind_eq_ok.1 hadv
  cases hadv
  refine ⟨rfl, rfl, ?_⟩
  simp [Tx.upsertSnapshot, Tx.updateZone, Tx.insertRecordsWithChanges, Tx.createRecords, Tx.createZoneChanges,
    Tx.deleteRecordsWithChanges, Tx.deleteRecords]

omit crates in
theorem flatMap_eq_of_nodup {α β : Type} {l : List α} {f : α → List β} {a : α} (hl : l.Nodup) (ha : a ∈ l)
    (hf : ∀ b ∈ l, b ≠ a → f b = []) : l.flatMap f = f a := by
  induction l with
  | nil => cases ha
  | cons b l ih =>
      obtain ⟨hb, hl⟩ := List.nodup_cons.1 hl
      rw [List.flatMap_cons]
      rcases List.mem_cons.1 ha with rfl | ha
      · have hrest : l.flatMap f = [] :=
          List.flatMap_eq_nil_iff.2 fun c hc => hf c (by simp [hc]) fun e => hb (e ▸ hc)
        rw [hrest, List.append_nil]
      · rw [hf b (by simp) fun e => hb (e ▸ ha), List.nil_append]
        exact ih hl ha fun c hc => hf c (by simp [hc])

/-- The items of an owner and type. -/
def itemsAt (items : List ExternalDnsRecordItem) (name : Text) (t : RecordType) : List ExternalDnsRecordItem :=
  items.filter fun item => item.name = name ∧ item.recordType = t.asStr

theorem pairwise_itemsAt (db : Db) (caller : Caller) (name : Text) (t : RecordType) :
    ((itemsAt (listRecords db caller) name t).map (·.value)).Pairwise (· ≤ ·) := by
  have htrans : ∀ a b c : ExternalDnsRecordItem, a.le b = true → b.le c = true → a.le c = true := by
    intro a b c
    simp only [ExternalDnsRecordItem.le, Bool.or_eq_true, Bool.and_eq_true, decide_eq_true_eq, beq_iff_eq]
    rintro (hab | ⟨hab, hab' | ⟨hab', hab''⟩⟩) (hbc | ⟨hbc, hbc' | ⟨hbc', hbc''⟩⟩)
    all_goals grind
  have htotal : ∀ a b : ExternalDnsRecordItem, (a.le b || b.le a) = true := by
    intro a b
    simp only [ExternalDnsRecordItem.le, Bool.or_eq_true, Bool.and_eq_true, decide_eq_true_eq, beq_iff_eq]
    rcases lt_trichotomy a.name b.name with h | h | h
    · exact .inl (.inl h)
    · rcases lt_trichotomy a.recordType b.recordType with h' | h' | h'
      · exact .inl (.inr ⟨h, .inl h'⟩)
      · exact (le_total a.value b.value).imp (fun hv => .inr ⟨h, .inr ⟨h', hv⟩⟩)
          fun hv => .inr ⟨h.symm, .inr ⟨h'.symm, hv⟩⟩
      · exact .inr (.inr ⟨h.symm, .inl h'⟩)
    · exact .inr (.inl h)
  have hsorted : (listRecords db caller).Pairwise fun a b => a.le b = true :=
    List.pairwise_mergeSort htrans htotal _
  refine List.pairwise_map.2 ((hsorted.filter _).imp_of_mem fun {a b} ha hb hab => ?_)
  have ha := of_decide_eq_true (List.mem_filter.1 ha).2
  have hb := of_decide_eq_true (List.mem_filter.1 hb).2
  simpa [ExternalDnsRecordItem.le, ha.1, hb.1, ha.2, hb.2] using hab

theorem item_name (r : RecordData) (zone : ZoneName) :
    (r.item zone).name = joinLabels (r.name.absoluteLabels zone) := trimEndMatches_toFqdn r.name zone

theorem itemsAt_rows {rows : List Record} {zone : ZoneName} {owner : OwnerName} {t : RecordType}
    (ht : t ∈ externalDnsRecordTypes) (hrows : ∀ r ∈ rows, r.name = owner ∧ r.recordType = t) :
    itemsAt ((rows.filter fun r => r.recordType ∈ externalDnsRecordTypes).map fun r => r.item zone)
      (joinLabels (owner.absoluteLabels zone)) t = rows.map fun r => r.item zone := by
  have hmanaged : rows.filter (fun r => r.recordType ∈ externalDnsRecordTypes) = rows :=
    List.filter_eq_self.2 fun r hr => decide_eq_true ((hrows r hr).2 ▸ ht)
  rw [hmanaged, itemsAt]
  refine List.filter_eq_self.2 fun item hitem => ?_
  obtain ⟨r, hr, rfl⟩ := List.mem_map.1 hitem
  exact decide_eq_true ⟨by rw [item_name, (hrows r hr).1], congrArg RecordType.asStr (hrows r hr).2⟩

/-- What an accepted RRset is read as. -/
structure Converted (rrset : ExternalDnsRrset) (op : RrsetOp) : Prop where
  recordType : parseSupportedRecordType rrset.recordType = .ok op.recordType
  name : normalizeLookupName rrset.name = .ok op.name
  ttl : normalizeTtl rrset.ttl = .ok op.ttl
  shape : validateRrsetShape rrset op.recordType = .ok ()
  values : encodeValues op.recordType rrset.values = .ok op.values

theorem convertRrset_eq_ok {rrset : ExternalDnsRrset} {op : RrsetOp} :
    convertRrset rrset = .ok op ↔ Converted rrset op := by
  constructor
  · intro h
    obtain ⟨t, ht, h⟩ := Fallible.bind_eq_ok.1 h
    obtain ⟨name, hname, h⟩ := Fallible.bind_eq_ok.1 h
    obtain ⟨ttl, httl, h⟩ := Fallible.bind_eq_ok.1 h
    obtain ⟨_, hshape, h⟩ := Fallible.bind_eq_ok.1 h
    obtain ⟨values, hvalues, h⟩ := Fallible.bind_eq_ok.1 h
    cases h
    exact ⟨ht, hname, httl, hshape, hvalues⟩
  · intro h
    rw [convertRrset, h.recordType, Fallible.ok_bind, h.name, Fallible.ok_bind, h.ttl, Fallible.ok_bind, h.shape,
      Fallible.ok_bind, h.values]
    rfl

theorem Converted.ne_nil {rrset : ExternalDnsRrset} {op : RrsetOp} (h : Converted rrset op) : op.values ≠ [] := by
  obtain ⟨v, hv⟩ := List.exists_mem_of_ne_nil _ (validateRrsetShape_eq_ok.1 h.shape).1
  obtain ⟨e, he⟩ := exists_encodedValue h.values v hv
  have hmem := (encodeValues_nodup_mem (parseSupportedRecordType_eq_ok h.recordType).1 h.values).2
  exact List.ne_nil_of_mem ((hmem e).2 ⟨v, hv, he⟩)

theorem applyChanges_create {db db' : Db} {zones : List ZoneName} {rrset : ExternalDnsRrset} {op : RrsetOp}
    (hop : convertRrset rrset = .ok op) {resp : ExternalDnsChangesResponse}
    (h : applyChanges db .global zones ⟨[rrset], [], []⟩ = .ok (db', resp)) :
    ∃ st ∈ db.stores, findAuthoritativeZone zones op.name = some st.zone.name ∧
      ∃ (owner : OwnerName) (tx' : Tx) (cs : ZoneChangeSet), op.name = joinLabels (owner.absoluteLabels st.zone.name) ∧
      applyZoneOpsTx .global db.tokenPolicies ⟨[⟨owner, op.recordType, op.ttl, op.values⟩], []⟩ (db.beginTx st) =
        .ok (tx', cs) ∧ db' = db.commit tx' := by
  have hops : convertRequest ⟨[rrset], [], []⟩ = .ok [⟨op, false⟩] := by
    have hcreates : [rrset].mapM (fun rrset => convertRrset rrset >>= fun op => pure (PendingOp.mk op false)) =
        .ok [⟨op, false⟩] := by
      rw [List.mapM_cons, hop]
      rfl
    rw [convertRequest, hcreates]
    rfl
  rw [applyChanges, hops, Fallible.ok_bind, List.isEmpty_cons, if_neg (by simp)] at h
  obtain ⟨grouped, hgrouped, h⟩ := Fallible.bind_eq_ok.1 h
  obtain ⟨labels, -, -, hname, hvalid, hdecode⟩ := normalizeLookupName_eq_ok (convertRrset_eq_ok.1 hop).name
  rw [groupOpsByZone, List.foldlM_cons] at hgrouped
  cases hzone : findAuthoritativeZone zones op.name with
  | none =>
      simp only [hzone] at hgrouped
      cases hgrouped
  | some zone =>
      have hclosest := (findAuthoritativeZone_eq_some_iff hdecode zones zone).1 hzone
      obtain ⟨owner, howner, hlabels⟩ := parseAbsoluteInZone_joinLabels hvalid hclosest.suffix
      rw [← hname] at howner
      simp only [hzone, howner, pushOp, ZoneOps.push, Fallible.ok_bind] at hgrouped
      cases hgrouped
      obtain ⟨s, hstep, h⟩ := Fallible.bind_eq_ok.1 h
      cases h
      unfold applyZoneOps at hstep
      split at hstep
      · cases hstep
      · rename_i st hst
        obtain ⟨hmem, rfl⟩ := getZoneByName_eq_some hst
        obtain ⟨⟨db₁, cs⟩, hin, hstep⟩ := Fallible.bind_eq_ok.1 hstep
        cases hstep
        obtain ⟨⟨tx', cs'⟩, htx, hin⟩ := Fallible.bind_eq_ok.1 hin
        cases hin
        exact ⟨st, hmem, rfl, owner, tx', cs, by rw [hname, ← hlabels]; rfl, htx, rfl⟩

/-- **What is listed of a new RRset.**  When an RRset is created at a name that nothing of its type is listed at, the
items of the name and type are those of its values. -/
theorem itemsAt_created {db db' : Db} (hdb : DbOk db) {zones : List ZoneName} {rrset : ExternalDnsRrset} {op : RrsetOp}
    (hop : convertRrset rrset = .ok op) (hnone : itemsAt (listRecords db .global) op.name op.recordType = [])
    {resp : ExternalDnsChangesResponse} (h : applyChanges db .global zones ⟨[rrset], [], []⟩ = .ok (db', resp)) :
    ∃ st ∈ db.stores, findAuthoritativeZone zones op.name = some st.zone.name ∧
      (itemsAt (listRecords db' .global) op.name op.recordType).Perm (op.values.map fun v =>
        ⟨op.name, op.recordType.asStr, op.ttl.getD st.zone.ttl, op.recordType.presentationRdata v none⟩) := by
  have hc := convertRrset_eq_ok.1 hop
  have hsupported := (parseSupportedRecordType_eq_ok hc.recordType).1
  obtain ⟨hnodup, hmem⟩ := encodeValues_nodup_mem hsupported hc.values
  have hself : ∀ v ∈ op.values, op.recordType.canonicalValue v none = v := fun v hv => by
    obtain ⟨w, -, hw⟩ := (hmem v).1 hv
    exact canonicalValue_encoded hsupported hw
  obtain ⟨st, hst, hfound, owner, tx', cs, hname, htx, rfl⟩ := applyChanges_create hop h
  have hgone : ∀ s ∈ db.stores, itemsAt (s.managed.map fun r => r.item s.zone.name) op.name op.recordType = [] :=
    fun s hs => by
    refine List.filter_eq_nil_iff.2 fun item hitem hat => ?_
    obtain ⟨r, hr, rfl⟩ := List.mem_map.1 hitem
    obtain ⟨hr, ht⟩ := List.mem_filter.1 hr
    refine List.eq_nil_iff_forall_not_mem.1 hnone _ (List.mem_filter.2 ⟨mem_listRecords.2 ?_, hat⟩)
    exact ⟨s, hs, r, hr, of_decide_eq_true ht, rfl⟩
  have hfree : ∀ r ∈ st.records, r.name = owner → r.recordType ≠ op.recordType := fun r hr hn ht => by
    refine List.filter_eq_nil_iff.1 (hgone st hst) (r.item st.zone.name) (List.mem_map_of_mem (List.mem_filter.2 ⟨hr, ?_⟩)) ?_
    · exact decide_eq_true (ht ▸ hsupported)
    · exact decide_eq_true ⟨by rw [item_name, hn, hname], congrArg RecordType.asStr ht⟩
  obtain ⟨hid, hzone, hrecords⟩ := applyZoneOpsTx_single hc.ne_nil hnodup hself hfree htx
  have hstores : (db.commit tx').stores.Nodup := by
    refine List.Nodup.of_map (fun s : ZoneStore => s.zone.id) ?_
    have hids : (db.commit tx').stores.map (fun s => s.zone.id) = db.stores.map fun s => s.zone.id := by
      rw [Db.commit, List.map_map]
      refine List.map_congr_left fun s _ => ?_
      rw [Function.comp_apply]
      split
      · rename_i hs
        exact hs.symm
      · rfl
    exact hids ▸ hdb.zoneIds
  -- the new rows are listed, and nothing else of the name and type
  have hnew : itemsAt (tx'.store.managed.map fun r => r.item tx'.store.zone.name) op.name op.recordType =
      op.values.map fun v =>
        ⟨op.name, op.recordType.asStr, op.ttl.getD st.zone.ttl, op.recordType.presentationRdata v none⟩ := by
    have hdata := numbered_map_toRecordData (db.beginTx st).nextRecordId
      (op.values.map fun v => newRow st.zone (⟨owner, op.recordType, op.ttl, op.values⟩, v))
    have hold : itemsAt ((st.records.filter fun r => r.recordType ∈ externalDnsRecordTypes).map fun r =>
        r.item st.zone.name) op.name op.recordType = [] := hgone st hst
    rw [ZoneStore.managed, hrecords, hzone, List.filter_append, List.map_append, itemsAt, List.filter_append, ← itemsAt,
      ← itemsAt, Db.beginTx, hold, List.nil_append, hname, itemsAt_rows hsupported]
    · have hitems := congrArg (List.map fun r => r.item st.zone.name) hdata
      rw [List.map_map, List.map_map] at hitems
      refine hitems.trans (List.map_congr_left fun v _ => ?_)
      simp only [Function.comp_apply, RecordData.item, newRow, trimEndMatches_toFqdn]
    · intro r hr
      obtain ⟨v, -, hv⟩ := List.mem_map.1 (hdata ▸ List.mem_map_of_mem (f := fun r : Record => r.toRecordData) hr)
      exact ⟨hv ▸ rfl, hv ▸ rfl⟩
  have hvisible : ((db.commit tx').stores.filter fun s => Caller.global.zoneVisible s.zone.id) = (db.commit tx').stores :=
    List.filter_eq_self.2 fun s _ => rfl
  refine ⟨st, hst, hfound, ?_⟩
  rw [← hnew, itemsAt, listRecords, hvisible]
  refine ((List.mergeSort_perm _ _).filter _).trans (List.Perm.of_eq ?_)
  rw [List.filter_flatMap]
  exact flatMap_eq_of_nodup hstores ((mem_commit hst hid).2 (.inl rfl)) fun s hs hne =>
    hgone s (((mem_commit hst hid).1 hs).resolve_left hne).1

/-! ### Adjusting -/

/-- Values that spell the same rdata: each has a spelling among the others. -/
def Respelled (t : RecordType) (values values' : List Text) : Prop :=
  (∀ v ∈ values, ∃ w ∈ values', Respells t v w) ∧ ∀ w ∈ values', ∃ v ∈ values, Respells t v w

theorem adjustedValues_respelled {t : RecordType} {values values' : List Text}
    (henc : ∀ v ∈ values, ∃ e, t.encodedValue v none = .ok e) (henc' : ∀ v ∈ values', ∃ e, t.encodedValue v none = .ok e)
    (h : Respelled t values values') : adjustedValues t values' = adjustedValues t values := by
  have hsame : ∀ v ∈ values, ∀ w ∈ values', Respells t v w → adjustValue t v = adjustValue t w := by
    intro v hv w hw hr
    obtain ⟨e, he⟩ := henc v hv
    obtain ⟨f, hf⟩ := henc' w hw
    rw [adjustValue_eq he, adjustValue_eq hf, hr.encodedValue_eq he hf]
  refine eq_adjustedValues (pairwise_adjustedValues t values') fun c => ?_
  rw [mem_adjustedValues]
  constructor
  · rintro ⟨w, hw, rfl⟩
    obtain ⟨v, hv, hr⟩ := h.2 w hw
    exact ⟨v, hv, hsame v hv w hw hr⟩
  · rintro ⟨v, hv, rfl⟩
    obtain ⟨w, hw, hr⟩ := h.1 v hv
    exact ⟨w, hw, (hsame v hv w hw hr).symm⟩

theorem mem_adjustedValues_converted {rrset : ExternalDnsRrset} {op : RrsetOp} (h : Converted rrset op) {c : Text} :
    c ∈ adjustedValues op.recordType rrset.values ↔ ∃ e ∈ op.values, op.recordType.presentationRdata e none = c := by
  have hmem := (encodeValues_nodup_mem (parseSupportedRecordType_eq_ok h.recordType).1 h.values).2
  rw [mem_adjustedValues]
  constructor
  · rintro ⟨v, hv, rfl⟩
    obtain ⟨e, he⟩ := exists_encodedValue h.values v hv
    exact ⟨e, (hmem e).2 ⟨v, hv, he⟩, (adjustValue_eq he).symm⟩
  · rintro ⟨e, he, rfl⟩
    obtain ⟨v, hv, he⟩ := (hmem e).1 he
    exact ⟨v, hv, adjustValue_eq he⟩

theorem presentationRdata_nodup (hbase64 : crates.Base64RoundTrip) {rrset : ExternalDnsRrset} {op : RrsetOp}
    (h : Converted rrset op) : (op.values.map fun e => op.recordType.presentationRdata e none).Nodup := by
  have hsupported := (parseSupportedRecordType_eq_ok h.recordType).1
  obtain ⟨hnodup, hmem⟩ := encodeValues_nodup_mem hsupported h.values
  refine List.Nodup.map_on (fun e he f hf heq => ?_) hnodup
  obtain ⟨v, -, hv⟩ := (hmem e).1 he
  obtain ⟨w, -, hw⟩ := (hmem f).1 hf
  have hshown := encodedValue_shown hbase64 hsupported hv
  rw [heq, encodedValue_shown hbase64 hsupported hw] at hshown
  exact (Except.ok.inj hshown).symm

/-- What is listed of an RRset that was created is its adjusted form. -/
theorem itemsAt_adjusted (hbase64 : crates.Base64RoundTrip) {rrset : ExternalDnsRrset} {op : RrsetOp}
    (hop : convertRrset rrset = .ok op) {db db' : Db} (hdb : DbOk db) {zones : List ZoneName}
    (hnone : itemsAt (listRecords db .global) op.name op.recordType = []) {resp : ExternalDnsChangesResponse}
    (h : applyChanges db .global zones ⟨[rrset], [], []⟩ = .ok (db', resp)) :
    (itemsAt (listRecords db' .global) op.name op.recordType).map (·.value) = adjustedValues op.recordType rrset.values ∧
    ∃ st ∈ db.stores, findAuthoritativeZone zones op.name = some st.zone.name ∧
      ∀ item ∈ itemsAt (listRecords db' .global) op.name op.recordType, item.ttl = op.ttl.getD st.zone.ttl := by
  have hc := convertRrset_eq_ok.1 hop
  obtain ⟨st, hst, hfound, hperm⟩ := itemsAt_created hdb hop hnone h
  refine ⟨?_, st, hst, hfound, fun item hitem => ?_⟩
  · have hvalues := hperm.map (·.value)
    rw [List.map_map] at hvalues
    have hnodup := hvalues.nodup_iff.2 (presentationRdata_nodup hbase64 hc)
    refine eq_adjustedValues ?_ fun c => ?_
    · exact (pairwise_itemsAt db' .global _ _).imp₂ (fun a b hab hne => lt_of_le_of_ne hab hne) hnodup
    · rw [← mem_adjustedValues, mem_adjustedValues_converted hc, hvalues.mem_iff, List.mem_map]
      rfl
  · obtain ⟨v, -, rfl⟩ := List.mem_map.1 (hperm.mem_iff.1 hitem)
    rfl

theorem adjustRrset_again (hbase64 : crates.Base64RoundTrip) {rrset adj : ExternalDnsRrset} {t : RecordType}
    (ht : parseSupportedRecordType rrset.recordType = .ok t)
    (henc : ∀ v ∈ rrset.values, ∃ e, t.encodedValue v none = .ok e) (h : adjustRrset rrset = .ok adj) :
    adjustRrset adj = .ok adj := by
  have hsupported := parseSupportedRecordType_eq_ok ht
  obtain ⟨httl, hshape, hadj⟩ := (adjustRrset_eq_ok ht).1 h
  obtain ⟨hne, hcname⟩ := validateRrsetShape_eq_ok.1 hshape
  have htype : adj.recordType = t.asStr := congrArg ExternalDnsRrset.recordType hadj
  have hvalues : adj.values = adjustedValues t rrset.values := congrArg ExternalDnsRrset.values hadj
  rw [adjustRrset_eq_ok (htype ▸ hsupported.2)]
  refine ⟨normalizeTtl_normalizeTtl httl, validateRrsetShape_eq_ok.2 ⟨?_, fun h => ?_⟩, ?_⟩
  · obtain ⟨v, hv⟩ := List.exists_mem_of_ne_nil _ hne
    exact hvalues ▸ List.ne_nil_of_mem (mem_adjustedValues.2 ⟨v, hv, rfl⟩)
  · obtain ⟨v, hv⟩ := List.length_eq_one_iff.1
      (le_antisymm (hcname h) (List.length_pos_iff.2 hne))
    rw [hvalues, hv, adjustedValues, List.length_mergeSort]
    rfl
  · have hagain : adjustedValues t adj.values = adj.values := by
      refine (eq_adjustedValues (hvalues ▸ pairwise_adjustedValues _ _) fun c => ?_).symm
      rw [hvalues]
      simp only [mem_adjustedValues]
      constructor
      · rintro ⟨v, hv, rfl⟩
        obtain ⟨e, he⟩ := henc v hv
        exact ⟨_, ⟨v, hv, rfl⟩, adjustValue_adjustValue hbase64 hsupported.1 he⟩
      · rintro ⟨_, ⟨v, hv, rfl⟩, rfl⟩
        obtain ⟨e, he⟩ := henc v hv
        exact ⟨v, hv, (adjustValue_adjustValue hbase64 hsupported.1 he).symm⟩
    rw [hagain, ← htype]

theorem adjustRrset_respelled {rrset : ExternalDnsRrset} {t : RecordType}
    (ht : parseSupportedRecordType rrset.recordType = .ok t)
    (henc : ∀ v ∈ rrset.values, ∃ e, t.encodedValue v none = .ok e) {values' : List Text}
    (henc' : ∀ v ∈ values', ∃ e, t.encodedValue v none = .ok e) (hsame : Respelled t rrset.values values')
    (hcname : t = .cname → (rrset.values.length ≤ 1 ↔ values'.length ≤ 1)) :
    adjustRrset { rrset with values := values' } = adjustRrset rrset := by
  have hvalues : (adjustValues t values').mergeSort (· ≤ ·) = (adjustValues t rrset.values).mergeSort (· ≤ ·) :=
    adjustedValues_respelled henc henc' hsame
  have hempty : values' = [] ↔ rrset.values = [] := by
    constructor
    · rintro rfl
      exact List.eq_nil_iff_forall_not_mem.2 fun v hv => by simpa using hsame.1 v hv
    · intro hnil
      exact List.eq_nil_iff_forall_not_mem.2 fun w hw => by simpa [hnil] using hsame.2 w hw
  have hshape : validateRrsetShape { rrset with values := values' } t = validateRrsetShape rrset t := by
    have hlong : (t = .cname ∧ 1 < values'.length) ↔ (t = .cname ∧ 1 < rrset.values.length) :=
      and_congr_right fun h => by rw [← not_le, ← not_le, hcname h]
    simp only [validateRrsetShape, hempty, hlong]
  rw [adjustRrset, adjustRrset, ht]
  simp only [Fallible.ok_bind, hshape, hvalues]

/-- Adjusting a request again changes nothing. -/
theorem adjustRrsets_again (hbase64 : crates.Base64RoundTrip) {rrsets adjs : List ExternalDnsRrset}
    (henc : ∀ rrset ∈ rrsets, ∀ t, parseSupportedRecordType rrset.recordType = .ok t →
      ∀ v ∈ rrset.values, ∃ e, t.encodedValue v none = .ok e)
    (h : adjustRrsets rrsets = .ok adjs) : adjustRrsets adjs = .ok adjs := by
  refine Fallible.mapM_eq_ok_iff.2 (List.forall₂_same.2 fun adj hadj => ?_)
  obtain ⟨rrset, hrrset, hadj⟩ := Fallible.mem_of_mapM h hadj
  obtain ⟨t, ht, -⟩ := Fallible.bind_eq_ok.1 hadj
  exact adjustRrset_again hbase64 ht (henc rrset hrrset t ht) hadj

/-- **Adjusting predicts what is listed.**  For an RRset of a supported type whose values all encode: adjusting succeeds
when conversion does, with the TTL that is stored; the adjusted values are the renderings of what is stored, in order
and without repetition, and are those listed of the name and type once the RRset is created where nothing of its type
was listed, under the adjusted TTL or that of the zone the name lies in.  What is adjusted is its own adjusted form.
Order, repetition and spelling of the values do not matter, except that a CNAME RRset is refused when it has more than
one value. -/
theorem adjust_predicts (hbase64 : crates.Base64RoundTrip) {rrset : ExternalDnsRrset} {t : RecordType}
    (ht : parseSupportedRecordType rrset.recordType = .ok t)
    (henc : ∀ v ∈ rrset.values, ∃ e, t.encodedValue v none = .ok e) :
    (∀ op, convertRrset rrset = .ok op → ∃ adj, adjustRrset rrset = .ok adj ∧ adj.ttl = op.ttl ∧
      adj.values.Pairwise (· < ·) ∧ (∀ c, c ∈ adj.values ↔ ∃ e ∈ op.values, t.presentationRdata e none = c) ∧
      ∀ (db : Db) (zones : List ZoneName) (db' : Db) (resp : ExternalDnsChangesResponse), DbOk db →
        itemsAt (listRecords db .global) op.name t = [] →
        applyChanges db .global zones ⟨[rrset], [], []⟩ = .ok (db', resp) →
        (itemsAt (listRecords db' .global) op.name t).map (·.value) = adj.values ∧
        ∃ st ∈ db.stores, findAuthoritativeZone zones op.name = some st.zone.name ∧
          ∀ item ∈ itemsAt (listRecords db' .global) op.name t, item.ttl = adj.ttl.getD st.zone.ttl) ∧
    (∀ adj, adjustRrset rrset = .ok adj → adjustRrset adj = .ok adj) ∧
    ∀ values', (∀ v ∈ values', ∃ e, t.encodedValue v none = .ok e) → Respelled t rrset.values values' →
      (t = .cname → (rrset.values.length ≤ 1 ↔ values'.length ≤ 1)) →
      adjustRrset { rrset with values := values' } = adjustRrset rrset := by
  refine ⟨fun op hop => ?_, fun adj hadj => adjustRrset_again hbase64 ht henc hadj,
    fun values' henc' hsame hcname => adjustRrset_respelled ht henc henc' hsame hcname⟩
  have hc := convertRrset_eq_ok.1 hop
  obtain rfl : op.recordType = t := Except.ok.inj (hc.recordType.symm.trans ht)
  exact ⟨⟨rrset.name, _, op.ttl, adjustedValues op.recordType rrset.values⟩,
    (adjustRrset_eq_ok ht).2 ⟨hc.ttl, hc.shape, rfl⟩, rfl, pairwise_adjustedValues _ _,
    fun c => mem_adjustedValues_converted hc, fun db zones db' resp hdb hnone h => itemsAt_adjusted hbase64 hop hdb hnone h⟩

end Adjusting

/-- An address in two spellings, and another. -/
def spelledRrset : ExternalDnsRrset where
  name := lit "app.example.com"
  recordType := lit "AAAA"
  ttl := some 0
  values := [lit "2001:DB8::2", lit "2001:db8:0::2", lit "2001:db8::1"]

theorem adjust_predicts_spelledRrset : ∃ adj op, @adjustRrset sampleCrates spelledRrset = .ok adj ∧
    @convertRrset sampleCrates spelledRrset = .ok op ∧ adj.ttl = none ∧
    adj.values = [lit "2001:db8::1", lit "2001:db8::2"] ∧
    ∃ db' resp, @applyChanges sampleCrates (@run sampleCrates sampleHistory) .global
        (@run sampleCrates sampleHistory).zoneNames ⟨[spelledRrset], [], []⟩ = .ok (db', resp) ∧
      (itemsAt (@listRecords sampleCrates db' .global) op.name .aaaa).map (·.value) = adj.values := by
  have hop : @convertRrset sampleCrates spelledRrset =
      .ok ⟨lit "app.example.com", .aaaa, none, [lit "2001:db8::2", lit "2001:db8::1"]⟩ := by decide +kernel
  have henc : ∀ v ∈ spelledRrset.values, (@RecordType.encodedValue sampleCrates .aaaa v none).isOk = true := by
    decide +kernel
  obtain ⟨⟨db', resp⟩, h⟩ := Fallible.exists_of_isOk (x := @applyChanges sampleCrates (@run sampleCrates sampleHistory)
    .global (@run sampleCrates sampleHistory).zoneNames ⟨[spelledRrset], [], []⟩) (by decide +kernel)
  obtain ⟨adj, hadj, httl, -, -, hlist⟩ := (@adjust_predicts sampleCrates sampleCrates_base64 spelledRrset .aaaa
    (by decide +kernel) fun v hv => Fallible.exists_of_isOk (henc v hv)).1 _ hop
  have hadjusted : spelledRrset.values.map (@adjustValue sampleCrates .aaaa) =
      [lit "2001:db8::2", lit "2001:db8::2", lit "2001:db8::1"] := by decide +kernel
  have hvalues : [lit "2001:db8::1", lit "2001:db8::2"] = @adjustedValues sampleCrates .aaaa spelledRrset.values := by
    refine @eq_adjustedValues sampleCrates _ _ _ (by decide +kernel) fun c => ?_
    rw [← List.mem_map, hadjusted]
    simp only [List.mem_cons, List.not_mem_nil, or_false]
    exact ⟨fun h => h.elim (.inr ∘ .inr) .inl, fun h => h.elim .inr fun h => h.symm⟩
  have hadj' := ((@adjustRrset_eq_ok sampleCrates _ _ .aaaa (by decide +kernel)).1 hadj).2.2
  exact ⟨adj, _, hadj, hop, httl, (congrArg ExternalDnsRrset.values hadj').trans hvalues.symm, db', resp, h,
    (hlist _ _ db' resp (@run_ok sampleCrates sampleHistory) (by decide +kernel) h).1⟩

/-- A CNAME given once is adjusted; the same CNAME given twice is refused. -/
theorem adjust_cname_twice :
    @adjustRrset sampleCrates ⟨lit "app.example.com", lit "CNAME", none, [lit "a.example.com"]⟩ =
        .ok ⟨lit "app.example.com", lit "CNAME", none, [lit "a.example.com."]⟩ ∧
      @adjustRrset sampleCrates ⟨lit "app.example.com", lit "CNAME", none, [lit "a.example.com", lit "a.example.com"]⟩ =
        .error ⟨.invalidRecordValue, lit "CNAME RRset 'app.example.com' must have exactly one value"⟩ := by
  decide +kernel

/-- Text given raw and quoted is one value. -/
example : @adjustValues sampleCrates .txt [lit "v=spf1 -all", lit "\"v=spf1 -all\""] = [lit "\"v=spf1 -all\""] := by
  decide +kernel

end Bindizr
