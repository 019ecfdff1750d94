import Bindizr.Import
import Bindizr.ZoneService

/-! # Well-formed record sets

What the validators of the write paths enforce, said once: a row is acceptable by itself
(`RowOk`) and beside each other row of its zone (`Compatible`, a symmetric relation that only
concerns rows of one owner).  `Acceptable` puts the two together for all rows of a zone; it
does not depend on the order of the rows and passes to fewer rows.

Every validator is characterised by these notions.  `validateRecordAddConstraints` accepts a
row exactly when it is `RowOk` and compatible with the rows it is given
(`validateRecordAddConstraints_eq_ok`), and the loops that check a batch come down to it row by row
(`validateEach_eq_ok`, `validateEach_of_validateBulk`, `validateEach_of_validateAdds`).  All of it
depends on a row's rdata through its canonical form alone (`RowOk.compatible_congr`). -/

namespace Bindizr

/-- What every row satisfies by itself. -/
structure RowOk (r : RecordData) : Prop where
  notSoa : r.recordType ≠ .soa
  cnameBelowApex : r.recordType = .cname → r.name.isApex = false
  nsAtApex : r.recordType = .ns → r.name.isApex = true
  value : r.recordType.validateValue r.value r.priority = .ok ()

/-- What any two rows of one zone satisfy. -/
def Compatible (r s : RecordData) : Prop :=
  r.name = s.name →
    ¬ (r.recordType = s.recordType ∧ r.canonical = s.canonical) ∧
      (r.recordType ≠ .cname ∧ s.recordType ≠ .cname) ∧
      (r.recordType = .mx → s.recordType = .mx → r.isNullMx = false ∧ s.isNullMx = false) ∧
      (r.recordType = s.recordType → r.ttl = s.ttl)

theorem compatible_comm {r s : RecordData} : Compatible r s ↔ Compatible s r := by
  unfold Compatible
  constructor <;>
    exact fun h e => by
      obtain ⟨h1, h2, h3, h4⟩ := h e.symm
      exact ⟨fun ⟨a, b⟩ => h1 ⟨a.symm, b.symm⟩, h2.symm, fun a b => (h3 b a).symm,
        fun a => (h4 a.symm).symm⟩

instance : Std.Symm Compatible := ⟨fun _ _ h => compatible_comm.1 h⟩

theorem compatible_of_name_ne {r s : RecordData} (h : r.name ≠ s.name) : Compatible r s :=
  fun e => absurd e h

/-- The rows of a zone, acceptable each by itself and beside every other. -/
def Acceptable (rows : Multiset RecordData) : Prop :=
  (∀ r ∈ rows, RowOk r) ∧ rows.Pairwise Compatible

theorem acceptable_coe {l : List RecordData} :
    Acceptable ↑l ↔ (∀ r ∈ l, RowOk r) ∧ l.Pairwise Compatible := by
  simp [Acceptable, Multiset.pairwise_coe_iff_pairwise]

theorem acceptable_zero : Acceptable 0 := by
  simpa using (acceptable_coe (l := [])).2 (by simp)

theorem Acceptable.mono {s t : Multiset RecordData} (hle : s ≤ t) (ht : Acceptable t) : Acceptable s := by
  induction s, t using Quotient.inductionOn₂ with
  | _ l m =>
      obtain ⟨l', hperm, hsub⟩ : l.Subperm m := hle
      obtain ⟨hrow, hpair⟩ := acceptable_coe.1 ht
      have : Acceptable ↑l' :=
        acceptable_coe.2 ⟨fun r hr => hrow r (hsub.subset hr), hpair.sublist hsub⟩
      rwa [Multiset.coe_eq_coe.2 hperm] at this

theorem acceptable_append {l m : List RecordData} :
    Acceptable ↑(l ++ m) ↔
      Acceptable ↑l ∧ Acceptable ↑m ∧ ∀ r ∈ l, ∀ s ∈ m, Compatible r s := by
  simp only [acceptable_coe, List.mem_append, List.pairwise_append]
  constructor
  · rintro ⟨h1, h2, h3, h4⟩
    exact ⟨⟨fun r hr => h1 r (.inl hr), h2⟩, ⟨fun r hr => h1 r (.inr hr), h3⟩, h4⟩
  · rintro ⟨⟨h1, h2⟩, ⟨h3, h4⟩, h5⟩
    exact ⟨fun r hr => hr.elim (h1 r) (h3 r), h2, h4, h5⟩

theorem acceptable_cons {r : RecordData} {l : List RecordData} :
    Acceptable ↑(r :: l) ↔ RowOk r ∧ (∀ s ∈ l, Compatible r s) ∧ Acceptable ↑l := by
  rw [acceptable_coe, acceptable_coe, List.forall_mem_cons, List.pairwise_cons]
  tauto

theorem acceptable_singleton {r : RecordData} : Acceptable ↑[r] ↔ RowOk r := by
  rw [acceptable_coe]
  simp

/-- What identifies a resource record: owner, type and canonical rdata. -/
def RecordData.key (r : RecordData) : OwnerName × RecordType × Text := (r.name, r.recordType, r.canonical)

theorem Acceptable.eq_of_key_eq {rows : List Record} (h : Acceptable ↑(rows.map (·.toRecordData)))
    {r s : Record} (hr : r ∈ rows) (hs : s ∈ rows) (e : r.key = s.key) : r = s := by
  have hpair : rows.Pairwise fun r s => Compatible r.toRecordData s.toRecordData :=
    List.pairwise_map.1 (acceptable_coe.1 h).2
  have hsymm : Std.Symm fun r s : Record => Compatible r.toRecordData s.toRecordData :=
    ⟨fun _ _ h => compatible_comm.1 h⟩
  simp only [RecordData.key, Prod.mk.injEq] at e
  by_contra hne
  exact (hpair.forall hr hs hne e.1).1 e.2

/-! ### The validators -/

theorem sameRdata_iff {r s : RecordData} :
    r.sameRdata s = true ↔ r.recordType = s.recordType ∧ r.canonical = s.canonical := by
  simp only [RecordData.sameRdata, RecordType.valuesEqual, RecordData.canonical, Bool.and_eq_true,
    beq_iff_eq]
  constructor
  · rintro ⟨h1, h2⟩
    exact ⟨h1, by rw [h1]; exact h2⟩
  · rintro ⟨h1, h2⟩
    exact ⟨h1, by rw [h1] at h2; exact h2⟩

theorem RecordData.recordType_of_isNullMx {r : RecordData} (h : r.isNullMx = true) :
    r.recordType = .mx := by
  simp only [RecordData.isNullMx, Bool.and_eq_true, beq_iff_eq] at h
  exact h.1

theorem validateAgainstOwner_eq_ok {existing : List RecordData} {c : RecordData} :
    validateAgainstOwner existing c = .ok () ↔
      (c.recordType = .ns → c.name.isApex = true) ∧
        ∀ r ∈ existing, ¬ (r.recordType = c.recordType ∧ r.canonical = c.canonical) ∧
          (r.recordType ≠ .cname ∧ c.recordType ≠ .cname) ∧
          (r.recordType = .mx → c.recordType = .mx → r.isNullMx = false ∧ c.isNullMx = false) ∧
          (r.recordType = c.recordType → r.ttl = c.ttl) := by
  unfold validateAgainstOwner hasMatchingRdata
  split
  · rename_i h
    obtain ⟨r, hr, h⟩ := List.any_eq_true.1 h
    refine iff_of_false (by simp) ?_
    rintro ⟨_, hall⟩
    exact (hall r hr).1 (sameRdata_iff.1 h)
  rename_i hdup
  split
  · rename_i h
    refine iff_of_false (by simp) ?_
    rintro ⟨_, hall⟩
    obtain ⟨hmx, ⟨hnull, hany⟩ | ⟨_, hany⟩⟩ := h
    · obtain ⟨r, hr, h⟩ := List.any_eq_true.1 hany
      have := ((hall r hr).2.2.1 (by simpa using h) hmx).2
      simp [hnull] at this
    · obtain ⟨r, hr, h⟩ := List.any_eq_true.1 hany
      have := ((hall r hr).2.2.1 (RecordData.recordType_of_isNullMx h) hmx).1
      simp [h] at this
  rename_i hmx
  split
  · rename_i h
    refine iff_of_false (by simp) ?_
    rintro ⟨_, hall⟩
    obtain ⟨r, hr⟩ := List.exists_mem_of_ne_nil _ h.1
    exact (hall r hr).2.1.2 h.2
  rename_i hcname
  split
  · rename_i h
    refine iff_of_false (by simp) ?_
    rintro ⟨_, hall⟩
    obtain ⟨r, hr, h⟩ := List.any_eq_true.1 h
    exact (hall r hr).2.1.1 (by simpa using h)
  rename_i hcname'
  split
  · rename_i h
    refine iff_of_false (by simp) ?_
    rintro ⟨hns, _⟩
    exact absurd (hns h.1) h.2
  rename_i hns
  split
  · rename_i r hfind
    refine iff_of_false (by simp) ?_
    rintro ⟨_, hall⟩
    have h := List.find?_some hfind
    simp only [Bool.and_eq_true, beq_iff_eq, bne_iff_ne, ne_eq] at h
    exact h.2 ((hall r (List.mem_of_find?_eq_some hfind)).2.2.2 h.1)
  · rename_i hfind
    simp only [true_iff]
    refine ⟨fun h => by_contra fun e => hns ⟨h, e⟩, fun r hr => ⟨?_, ⟨?_, ?_⟩, ?_, ?_⟩⟩
    · exact fun h => hdup (List.any_eq_true.2 ⟨r, hr, sameRdata_iff.2 h⟩)
    · exact fun h => hcname' (List.any_eq_true.2 ⟨r, hr, by simpa using h⟩)
    · exact fun h => hcname ⟨List.ne_nil_of_mem hr, h⟩
    · intro hr' hc'
      by_cases hc : c.isNullMx = true
      · exact absurd ⟨hc', .inl ⟨hc, List.any_eq_true.2 ⟨r, hr, by simpa using hr'⟩⟩⟩ hmx
      · refine ⟨?_, by simpa using hc⟩
        by_contra hrn
        exact hmx ⟨hc', .inr ⟨hc, List.any_eq_true.2 ⟨r, hr, by simpa using hrn⟩⟩⟩
    · intro ht
      have := List.find?_eq_none.1 hfind r hr
      simpa [ht] using this

/-- **One addition.**  A row is accepted exactly when it is acceptable by itself and beside the
rows it is checked against. -/
theorem validateRecordAddConstraints_eq_ok {rows : List Record} {c : RecordData} {except : Option ℕ} :
    validateRecordAddConstraints rows c except = .ok () ↔
      RowOk c ∧ ∀ r ∈ rows, except ≠ some r.id → Compatible r.toRecordData c := by
  unfold validateRecordAddConstraints
  split
  · rename_i h
    exact iff_of_false (by simp) fun hc => hc.1.notSoa h
  rename_i hsoa
  rw [Fallible.bind_eq_ok]
  constructor
  · rintro ⟨_, hv, h⟩
    split at h
    · cases h
    · rename_i hcname
      rw [validateAgainstOwner_eq_ok] at h
      refine ⟨⟨hsoa, fun e => by simpa using fun ha => hcname ⟨e, ha⟩, h.1,
        Fallible.mapError_eq_ok.1 hv⟩, ?_⟩
      intro r hr hex hname
      exact h.2 _ (List.mem_map.2 ⟨r, List.mem_filter.2 ⟨hr, by simpa using ⟨hname, hex⟩⟩, rfl⟩)
  · rintro ⟨hc, hall⟩
    refine ⟨(), Fallible.mapError_eq_ok.2 hc.value, ?_⟩
    rw [if_neg (fun h => by simp [hc.cnameBelowApex h.1] at h), validateAgainstOwner_eq_ok]
    refine ⟨hc.nsAtApex, ?_⟩
    intro r' hr'
    obtain ⟨r, hr, rfl⟩ := List.mem_map.1 hr'
    obtain ⟨hr, h⟩ := List.mem_filter.1 hr
    obtain ⟨hname, hex⟩ : r.name = c.name ∧ except ≠ some r.id := by simpa using h
    exact hall r hr hex hname

theorem validateRecordAddConstraints_filter {rows : List Record} {c : RecordData} {n : OwnerName}
    (hn : n = c.name) :
    validateRecordAddConstraints (rows.filter (·.name = n)) c none = .ok () ↔
      RowOk c ∧ ∀ r ∈ rows, Compatible r.toRecordData c := by
  subst hn
  rw [validateRecordAddConstraints_eq_ok]
  refine and_congr_right fun _ => ⟨fun h r hr => ?_, fun h r hr _ => h r (List.mem_of_mem_filter hr)⟩
  by_cases e : r.name = c.name
  · exact h r (List.mem_filter.2 ⟨hr, by simpa using e⟩) (by simp)
  · exact compatible_of_name_ne e

/-- **A batch.**  The loop accepts a batch exactly when its rows are acceptable and each is
compatible with the rows that stay. -/
theorem validateEach_eq_ok {earlier : List Record} {cs : List RecordData} :
    validateEach earlier cs = .ok () ↔
      Acceptable ↑cs ∧ ∀ r ∈ earlier, ∀ c ∈ cs, Compatible r.toRecordData c := by
  induction cs generalizing earlier with
  | nil => simp [validateEach, acceptable_zero]
  | cons c cs ih =>
      rw [validateEach, Fallible.bind_eq_ok, acceptable_cons]
      simp only [ih, List.mem_append, List.mem_singleton, List.forall_mem_cons, or_imp, forall_and,
        forall_eq]
      constructor
      · rintro ⟨_, h, h3, h4, h5⟩
        obtain ⟨h1, h2⟩ := (validateRecordAddConstraints_filter rfl).1 h
        exact ⟨⟨h1, h5, h3⟩, h2, h4⟩
      · rintro ⟨⟨h1, h5, h3⟩, h2, h4⟩
        exact ⟨(), (validateRecordAddConstraints_filter rfl).2 ⟨h1, h2⟩, h3, h4, h5⟩

/-- The bulk loop accepts what `validateEach` accepts. -/
theorem validateEach_of_validateBulk {zone : Zone} {indexed : List Record} {ps : List PreparedRecord}
    {rs : List RecordData} (h : validateBulk zone indexed ps = .ok rs) :
    validateEach indexed rs = .ok () := by
  induction ps generalizing indexed rs with
  | nil =>
      cases h
      rfl
  | cons p ps ih =>
      obtain ⟨owner, _, h⟩ := Fallible.bind_eq_ok.1 h
      obtain ⟨_, hv, h⟩ := Fallible.bind_eq_ok.1 h
      obtain ⟨rest, hrest, h⟩ := Fallible.bind_eq_ok.1 h
      cases h
      rw [validateEach, Fallible.bind_eq_ok]
      exact ⟨(), hv, ih hrest⟩

theorem mem_bulkWrites_of_validateBulk {zone : Zone} {indexed : List Record} {ps : List PreparedRecord}
    {rs : List RecordData} (h : validateBulk zone indexed ps = .ok rs) {c : RecordData} (hc : c ∈ rs) :
    ⟨c.name, some c.recordType⟩ ∈ bulkWrites zone ps := by
  induction ps generalizing indexed rs with
  | nil =>
      cases h
      cases hc
  | cons p ps ih =>
      obtain ⟨owner, hown, h⟩ := Fallible.bind_eq_ok.1 h
      obtain ⟨_, _, h⟩ := Fallible.bind_eq_ok.1 h
      obtain ⟨rest, hrest, h⟩ := Fallible.bind_eq_ok.1 h
      cases h
      have e : bulkWrites zone (p :: ps) = ⟨owner, some p.recordType⟩ :: bulkWrites zone ps := by
        simp [bulkWrites, hown]
      rw [e]
      rcases List.mem_cons.1 hc with rfl | hc
      · exact List.mem_cons_self
      · exact List.mem_cons_of_mem _ (ih hrest hc)

theorem validateEach_of_validateAdds {simulated : List Record} {ds : List DesiredRecord}
    (h : validateAdds simulated ds = .ok []) : validateEach simulated (ds.map (·.data)) = .ok () := by
  induction ds generalizing simulated with
  | nil => rfl
  | cons d ds ih =>
      rw [validateAdds] at h
      rw [List.map_cons, validateEach, Fallible.bind_eq_ok]
      split at h
      · rename_i hv
        exact ⟨(), hv, ih h⟩
      · split at h
        · obtain ⟨_, _, h⟩ := Fallible.bind_eq_ok.1 h
          cases h
        · cases h

/-! ### Rows up to canonical rdata -/

/-- The resource record a row stands for: owner, type, canonical rdata and TTL. -/
def RecordData.rr (r : RecordData) : OwnerName × RecordType × Text × ℤ :=
  (r.name, r.recordType, r.canonical, r.ttl)

theorem validateValue_mx {v : Text} {p : Option ℤ} (h : RecordType.mx.validateValue v p = .ok ()) :
    ∃ mx, MxRecordValue.parse v p = .ok mx ∧ mx.validate = .ok () := by
  simp only [RecordType.validateValue, RecordType.takesPriority, Bool.not_true, Bool.and_false,
    Bool.false_eq_true, if_false] at h
  exact Fallible.bind_eq_ok.1 h

theorem trim_target_of_root {mx : MxRecordValue} (h : mx.validate = .ok ())
    (hroot : toFqdnLowercase mx.target = ['.']) : trim mx.target = ['.'] := by
  unfold MxRecordValue.validate at h
  split at h
  · assumption
  · obtain ⟨hdots, htrim⟩ := trimEndMatches_of_validDomain h
    have hne := (validateDomainRecordValue_eq_ok.1 h).2.1
    rw [toFqdnLowercase, htrim, hdots] at hroot
    have hnil : toAsciiLowercase (stripOneSuffix '.' mx.target) = [] := by simpa using hroot
    exact absurd (toAsciiLowercase_eq_nil.1 hnil) hne

theorem isNullValue_iff {v : Text} {p : Option ℤ} (h : RecordType.mx.validateValue v p = .ok ()) :
    MxRecordValue.isNullValue v p = true ↔
      RecordType.mx.canonicalValue v p = natText 0 ++ ' ' :: ['.'] := by
  obtain ⟨mx, hp, hv⟩ := validateValue_mx h
  simp only [MxRecordValue.isNullValue, RecordType.canonicalValue, hp, MxRecordValue.isNull,
    MxRecordValue.canonical, Bool.and_eq_true, beq_iff_eq, List.append_assoc, List.singleton_append,
    natText_space_inj]
  refine and_congr_right fun _ => ⟨fun e => ?_, trim_target_of_root hv⟩
  simp [toFqdnLowercase, e, trimEndMatches, toAsciiLowercase]

theorem RowOk.isNullMx_congr {r s : RecordData} (hr : RowOk r) (hs : RowOk s)
    (ht : r.recordType = s.recordType) (hc : r.canonical = s.canonical) : r.isNullMx = s.isNullMx := by
  by_cases hmx : s.recordType = .mx
  · have hr' := hr.value
    have hs' := hs.value
    rw [ht, hmx] at hr'
    rw [hmx] at hs'
    simp only [RecordData.canonical, ht, hmx] at hc
    rw [Bool.eq_iff_iff]
    simp only [RecordData.isNullMx, ht, hmx, beq_self_eq_true, Bool.true_and, isNullValue_iff hr',
      isNullValue_iff hs', hc]
  · have : (s.recordType == .mx) = false := by simpa using hmx
    rw [RecordData.isNullMx, RecordData.isNullMx, ht, this, Bool.false_and, Bool.false_and]

theorem RowOk.compatible_congr {r r' s : RecordData} (hr : RowOk r) (hr' : RowOk r')
    (e : r.rr = r'.rr) : Compatible r s ↔ Compatible r' s := by
  simp only [RecordData.rr, Prod.mk.injEq] at e
  obtain ⟨h1, h2, h3, h4⟩ := e
  rw [Compatible, Compatible, h1, h2, h3, h4, hr.isNullMx_congr hr' h2 h3]

/-! ### The primary NS -/

theorem toAsciiLowercase_toFqdn {v : Text} (h : trim v = v) :
    toAsciiLowercase (toFqdn v) = toFqdnLowercase v := by
  rw [toFqdn, toFqdnLowercase, h, toAsciiLowercase_append]
  rfl

theorem classifyDomainLabel_underscore {l : Text} (h : classifyDomainLabel l false = .ok ()) :
    classifyDomainLabel l true = .ok () := by
  rw [classifyDomainLabel_eq_ok] at h ⊢
  obtain ⟨h1, h2, h3, h4⟩ := h
  exact ⟨h1, h2, fun c hc => by simp [isLdh] at h3 ⊢; exact .inl (h3 c hc), h4⟩

theorem ZoneName.validateDomainRecordValue_text (z : ZoneName) (field : Text) :
    validateDomainRecordValue field z.text = .ok () := by
  rw [validateDomainRecordValue_eq_ok, stripOneSuffix, if_neg z.getLast?_text]
  exact ⟨z.hasWhitespaceOrControl_text, z.text_ne_nil, z.isZoneText.1,
    fun l hl => classifyDomainLabel_underscore (z.isZoneText.2 l hl).1⟩

theorem validateValue_ns {v : Text} {p : Option ℤ} (h : RecordType.ns.validateValue v p = .ok ()) :
    p = none ∧ validateDomainRecordValue (lit "NS record value") v = .ok () := by
  unfold RecordType.validateValue at h
  split at h
  · cases h
  · rename_i hp
    obtain ⟨t, ht, -⟩ := Fallible.map_eq_ok.1 h
    obtain ⟨_, hv, -⟩ := Fallible.bind_eq_ok.1 ht
    exact ⟨by simpa [RecordType.takesPriority] using hp, hv⟩

theorem rowOk_primaryNsRecord (z : Zone) (ttl : ℤ) : RowOk (z.primaryNsRecord ttl) where
  notSoa := by simp [Zone.primaryNsRecord]
  cnameBelowApex := by simp [Zone.primaryNsRecord]
  nsAtApex := fun _ => rfl
  value := by
    simp [Zone.primaryNsRecord, RecordType.validateValue, parseNs, parseHost,
      z.primaryNs.validateDomainRecordValue_text, Except.map, pure, Except.pure]

theorem RowOk.isPrimaryNs_iff {r : RecordData} (hr : RowOk r) (z : Zone) :
    z.isPrimaryNs r = true ↔
      r.recordType = .ns ∧ r.name.isApex = true ∧ r.canonical = toFqdnLowercase z.primaryNs.text := by
  simp only [Zone.isPrimaryNs, Zone.isApexNs, Bool.and_eq_true, beq_iff_eq, eqIgnoreAsciiCase, and_assoc]
  refine and_congr_right fun hns => and_congr_right fun _ => ?_
  have hv := hr.value
  rw [hns] at hv
  rw [toAsciiLowercase_toFqdn (trimEndMatches_of_validDomain (validateValue_ns hv).2).2,
    toAsciiLowercase_toFqdn z.primaryNs.trim_text]
  simp [RecordData.canonical, hns, RecordType.canonicalValue]

theorem isPrimaryNs_primaryNsRecord (z : Zone) (ttl : ℤ) : z.isPrimaryNs (z.primaryNsRecord ttl) = true := by
  rw [(rowOk_primaryNsRecord z ttl).isPrimaryNs_iff]
  exact ⟨rfl, rfl, rfl⟩

theorem isPrimaryNs_congr {r s : RecordData} (hr : RowOk r) (hs : RowOk s) (e : r.rr = s.rr) (z : Zone) :
    z.isPrimaryNs r = z.isPrimaryNs s := by
  simp only [RecordData.rr, Prod.mk.injEq] at e
  rw [Bool.eq_iff_iff, hr.isPrimaryNs_iff, hs.isPrimaryNs_iff, e.1, e.2.1, e.2.2.1]

theorem apexNsRrsetTtl_eq {z : Zone} {rows candidates : List RecordData} (h : Acceptable ↑rows)
    (hsub : ∀ r ∈ candidates, r ∈ rows) {r : RecordData} (hr : r ∈ candidates) (hns : r.recordType = .ns) :
    apexNsRrsetTtl z candidates = r.ttl := by
  have hrow := (acceptable_coe.1 h).1
  unfold apexNsRrsetTtl
  split
  · rename_i s hs
    have hs' := List.mem_of_find?_eq_some hs
    have hsns := List.find?_some hs
    simp only [Zone.isApexNs, Bool.and_eq_true, beq_iff_eq] at hsns
    by_cases e : s = r
    · rw [e]
    · have happly := (acceptable_coe.1 h).2.forall (hsub s hs') (hsub r hr) e
      refine (happly (OwnerName.ext_labels ?_)).2.2.2 (hsns.1.trans hns.symm)
      have h1 : s.name.labels = [] := by simpa [OwnerName.isApex] using hsns.2
      have h2 : r.name.labels = [] := by simpa [OwnerName.isApex] using (hrow r (hsub r hr)).nsAtApex hns
      rw [h1, h2]
  · rename_i hnone
    have := List.find?_eq_none.1 hnone r hr
    simp [Zone.isApexNs, hns, (hrow r (hsub r hr)).nsAtApex hns] at this

theorem acceptable_primaryNs {z : Zone} {rows candidates : List RecordData} (h : Acceptable ↑rows)
    (hno : ∀ r ∈ candidates, z.isPrimaryNs r = false)
    (hcand : ∀ r, r ∈ candidates ↔ r ∈ rows ∧ r.name = .apex) :
    Acceptable ↑(rows ++ [z.primaryNsRecord (apexNsRrsetTtl z candidates)]) := by
  have hnew := rowOk_primaryNsRecord z (apexNsRrsetTtl z candidates)
  rw [acceptable_append, acceptable_singleton]
  refine ⟨h, hnew, fun r hr s hs => ?_⟩
  obtain rfl := List.mem_singleton.1 hs
  intro hname
  have hrow := (acceptable_coe.1 h).1 r hr
  have hapex : r.name.isApex = true := by rw [hname]; rfl
  have hrc : r ∈ candidates := (hcand r).2 ⟨hr, hname⟩
  refine ⟨fun e => ?_, ⟨fun e => ?_, by simp [Zone.primaryNsRecord]⟩,
    fun _ e => by simp [Zone.primaryNsRecord] at e, fun e => ?_⟩
  · have : z.isPrimaryNs r = true := (hrow.isPrimaryNs_iff z).2 ⟨e.1, hapex, e.2⟩
    simp [hno r hrc] at this
  · simp [hrow.cnameBelowApex e] at hapex
  · exact (apexNsRrsetTtl_eq h (fun r hr => ((hcand r).1 hr).1) hrc e).symm

end Bindizr
