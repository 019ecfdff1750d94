import Bindizr.Framing
import Bindizr.Encoding

/-! # The catalog zone

`bindizr-dns/src/server/catalog`: the zone `catalog.bind` has no row; it is put together from the
names of the other zones when it is asked for.  Each member is a PTR whose owner holds the
member's id, the zone name with its dots replaced by dashes (`zoneNameToMemberId`).

The id is one label, and two names can share it.  So the catalog can be sent and tells its members
apart exactly when every name fits a label and no two names differ in dots and dashes only
(`catalog_members_iff`). -/

namespace Bindizr

open Rfc1035 (Name Rdata ResourceRecord)

/-! ### Members -/

def catalogZoneName : ZoneName := ⟨lit "catalog.bind", by decide +kernel⟩

def isCatalogZone (zoneName : Text) : Bool := eqIgnoreAsciiCase zoneName catalogZoneName.text

/-- `ZoneService::list`: the zones by name. -/
def Db.listZones (db : Db) : List Zone :=
  (db.stores.map (·.zone)).mergeSort fun a b => decide (a.name.text ≤ b.name.text)

/-- The names of the member zones: the catalog is not a member of itself. -/
def memberZones (zones : List Zone) : List ZoneName := (zones.map (·.name)).filter (· ≠ catalogZoneName)

/-- The zone `generate_catalog_zone` puts together. -/
def catalogZone (serial : ℤ) : Zone where
  id := 0
  name := catalogZoneName
  primaryNs := ⟨lit "invalid", by decide +kernel⟩
  adminEmail := lit "invalid"
  ttl := 3600
  serial := serial
  refresh := 3600
  retry := 600
  expire := 86400
  minimumTtl := 60

def zoneNameToMemberId (zoneName : Text) : Text := zoneName.map fun c => if c = '.' then '-' else c

/-! ### The transfer -/

section Transfer

variable [crates : Crates]

namespace DnsMessageBuilder

def addCatalogSoa (b : DnsMessageBuilder) (zone : Zone) (serial : ℕ) : Except XfrError DnsMessageBuilder := do
  let mname ← parseName (lit "invalid")
  let rname ← parseName (lit "invalid")
  let owner ← parseName zone.name.text
  pure (b.addAnswer owner (asU32 zone.ttl) (.soa mname rname serial (asU32 zone.refresh) (asU32 zone.retry)
    (asU32 zone.expire) (asU32 zone.minimumTtl)))

def addCatalogNs (b : DnsMessageBuilder) (zone : Zone) : Except XfrError DnsMessageBuilder :=
  b.addNsRecord zone.name.toFqdn (asU32 zone.ttl) (lit "invalid")

def addCatalogVersion (b : DnsMessageBuilder) (zone : Zone) : Except XfrError DnsMessageBuilder :=
  b.addTxtRecord (lit "version." ++ zone.name.text ++ lit ".") (asU32 zone.ttl) (lit "2")

def addCatalogPtr (b : DnsMessageBuilder) (zone : Zone) (memberZone : Text) : Except XfrError DnsMessageBuilder :=
  b.addPtrRecord (zoneNameToMemberId memberZone ++ lit ".zones." ++ zone.name.text ++ lit ".") (asU32 zone.ttl)
    (toFqdn memberZone)

end DnsMessageBuilder

/-- The answers of `handle_catalog_axfr_with_qtype`. -/
def catalogAdds (zone : Zone) (serial : ℕ) (memberZones : List Text) : List AddAnswer :=
  [(·.addCatalogSoa zone serial), (·.addCatalogNs zone), (·.addCatalogVersion zone)] ++
    memberZones.map (fun memberZone b => b.addCatalogPtr zone memberZone) ++ [(·.addCatalogSoa zone serial)]

end Transfer

/-! ### Ids -/

theorem byteLen_zoneNameToMemberId (t : Text) : byteLen (zoneNameToMemberId t) = byteLen t := by
  unfold zoneNameToMemberId byteLen
  rw [List.map_map]
  congr 1
  refine List.map_congr_left fun c _ => ?_
  simp only [Function.comp_apply]
  split
  · rename_i h
    rw [h]
    rfl
  · rfl

/-- The labels of the owner of a member's PTR. -/
def memberLabels (z : ZoneName) : List Text :=
  [zoneNameToMemberId z.text, lit "zones", lit "catalog", lit "bind"]

theorem isLdh_zoneNameToMemberId (z : ZoneName) {c : Char} (hc : c ∈ zoneNameToMemberId z.text) :
    isLdh false c = true := by
  obtain ⟨d, hd, rfl⟩ := List.mem_map.1 hc
  split
  · rfl
  · rename_i hdot
    exact (isLdh_of_labels (fun l hl => (z.isZoneText.2 l hl).1) hd).resolve_left hdot

theorem zoneNameToMemberId_ne_nil (z : ZoneName) : zoneNameToMemberId z.text ≠ [] := fun h =>
  z.text_ne_nil (List.map_eq_nil_iff.1 h)

theorem memberLabels_ne_nil (z : ZoneName) : ∀ l ∈ memberLabels z, l ≠ [] :=
  List.forall_mem_cons.2 ⟨zoneNameToMemberId_ne_nil z, by decide⟩

theorem printable_memberLabels (z : ZoneName) : ∀ l ∈ memberLabels z, Printable l :=
  List.forall_mem_cons.2 ⟨fun _ hc => isPrintable_of_isLdh (isLdh_zoneNameToMemberId z hc), by decide⟩

theorem joinLabels_memberLabels (z : ZoneName) :
    zoneNameToMemberId z.text ++ lit ".zones." ++ catalogZoneName.text ++ lit "." =
      joinLabels (memberLabels z) ++ ['.'] := by
  have hescape : escapeLabel (zoneNameToMemberId z.text) = zoneNameToMemberId z.text :=
    escapeLabel_eq_self fun c hc => (isLdh_cases (isLdh_zoneNameToMemberId z hc)).2.2.2.1
  have hrest : joinLabels [lit "zones", lit "catalog", lit "bind"] = lit "zones.catalog.bind" := by decide +kernel
  rw [memberLabels, joinLabels_cons_cons, hescape, hrest]
  simp only [List.append_assoc, List.append_cancel_left_eq]
  rfl

theorem isName_memberLabels (z : ZoneName) : Rfc1035.IsName (wireLabels (memberLabels z)) ↔ byteLen z.text ≤ 63 := by
  constructor
  · rintro ⟨hlabels, -⟩
    have hid := (hlabels (asBytes (zoneNameToMemberId z.text)) (by simp [wireLabels, memberLabels])).2
    rwa [length_asBytes, byteLen_zoneNameToMemberId] at hid
  · intro hlen
    refine (isName_wireLabels fun l hl => ⟨memberLabels_ne_nil z l hl, ?_⟩).2 ?_
    · have hfixed : ∀ l ∈ [lit "zones", lit "catalog", lit "bind"], byteLen l ≤ maxDnsLabelLen := by decide
      rcases List.mem_cons.1 hl with rfl | hl
      · rwa [byteLen_zoneNameToMemberId]
      · exact hfixed l hl
    · have hrest : wireLen [lit "zones", lit "catalog", lit "bind"] = 20 := by decide
      simp only [wireLen, memberLabels, List.map_cons, List.sum_cons, byteLen_zoneNameToMemberId] at hrest ⊢
      omega

def ZoneName.dashed (z : ZoneName) : Text := join ['-'] z.labels

theorem zoneNameToMemberId_join {ls : List Text} (h : ∀ l ∈ ls, '.' ∉ l) :
    zoneNameToMemberId (join ['.'] ls) = join ['-'] ls := by
  have hself : ∀ {l : Text}, '.' ∉ l → zoneNameToMemberId l = l := fun {l} hl =>
    (List.map_congr_left fun c hc => if_neg (ne_of_mem_of_not_mem hc hl)).trans (List.map_id l)
  induction ls with
  | nil => rfl
  | cons l ls ih =>
      have hl := hself (h l (by simp))
      have ih := ih fun m hm => h m (by simp [hm])
      cases ls with
      | nil => simpa [join] using hl
      | cons m ls =>
          have hcons : ∀ c : Char, join [c] (l :: m :: ls) = l ++ c :: join [c] (m :: ls) := fun c => by
            simp [join, List.intercalate]
          have happend : ∀ s t : Text, zoneNameToMemberId (s ++ '.' :: t) = zoneNameToMemberId s ++ '-' :: zoneNameToMemberId t :=
            fun s t => by simp [zoneNameToMemberId]
          rw [hcons, hcons, happend, hl, ih]

theorem zoneNameToMemberId_text (z : ZoneName) : zoneNameToMemberId z.text = z.dashed := by
  have hlabels := @zoneNameToMemberId_join z.labels fun l hl => not_mem_of_mem_split hl
  rwa [join, ZoneName.labels, split, List.intercalate_splitOn] at hlabels

theorem memberLabels_inj {z z' : ZoneName} : memberLabels z = memberLabels z' ↔ z.dashed = z'.dashed := by
  simp [memberLabels, zoneNameToMemberId_text]

/-! ### Answers -/

section Answers

variable [crates : Crates] {queryId qtype : ℕ} {qname : Name}

open Sending (answersOf found AddsFound Sends)

/-- The PTR of a member: the owner holds its id, the target is its name. -/
def IsMemberPtr (z : ZoneName) (a : ResourceRecord) : Prop :=
  a.owner.labels = wireLabels (memberLabels z) ∧ ∃ n : Name, a.data = .ptr n ∧ n.labels = wireLabels z.labels

def isPtr (a : ResourceRecord) : Bool :=
  match a.data with
  | .ptr _ => true
  | _ => false

omit crates in
theorem isPtr_of_members {members : List ZoneName} {ptrs : List ResourceRecord}
    (h : List.Forall₂ IsMemberPtr members ptrs) : ∀ a ∈ ptrs, isPtr a = true ∧ a.data.octets.length ≤ 530 := by
  induction h with
  | nil => simp
  | cons hptr _ ih =>
      obtain ⟨-, n, hn, -⟩ := hptr
      refine List.forall_mem_cons.2 ⟨⟨by rw [isPtr, hn], ?_⟩, ih⟩
      rw [hn]
      exact Rdata.length_octets_le (by simp)

theorem found_addTargetRecord (data : Name → Rdata) (name target : Text) (ttl : ℕ) :
    found qname (fun b => b.addTargetRecord data name ttl target) = (do
      let n ← parseName name
      let t ← parseName target
      pure (some ⟨n, ttl, data t⟩)) := by
  unfold found DnsMessageBuilder.addTargetRecord
  cases parseName name with
  | error e => rfl
  | ok n => cases parseName target <;> rfl

theorem exists_parseName_zone (hcrates : crates.Rfc1035Wire) (z : ZoneName) {dot : Text} (hdot : dot = [] ∨ dot = ['.']) :
    ∃ n, parseName (z.text ++ dot) = .ok n ∧ n.labels = wireLabels z.labels := by
  have hname : Rfc1035.IsName (wireLabels z.labels) := (isName_wireLabels fun l hl => by
    obtain ⟨hne, hle, _⟩ := classifyDomainLabel_eq_ok.1 (z.isZoneText.2 l hl).1
    exact ⟨hne, hle⟩).2 z.wireLen_labels
  refine ⟨⟨_, hname⟩, ?_, rfl⟩
  rw [← z.joinLabels_labels]
  exact (parseName_joinLabels hcrates z.labels_ne_nil (fun l hl => (classifyDomainLabel_eq_ok.1 (z.isZoneText.2 l hl).1).1)
    hdot).2 ⟨fun l hl => printable_of_classifyDomainLabel (z.isZoneText.2 l hl).1, rfl⟩

theorem parseName_member (hcrates : crates.Rfc1035Wire) (z : ZoneName) {n : Name} :
    parseName (zoneNameToMemberId z.text ++ lit ".zones." ++ catalogZoneName.text ++ lit ".") = .ok n ↔
      n.labels = wireLabels (memberLabels z) := by
  rw [joinLabels_memberLabels, parseName_joinLabels hcrates (by simp [memberLabels]) (memberLabels_ne_nil z) (.inr rfl)]
  exact and_iff_right (printable_memberLabels z)

theorem addsFound_catalogAdds (zone : Zone) (serial : ℕ) (memberZones : List Text) :
    ∀ add ∈ catalogAdds zone serial memberZones, AddsFound qname add := by
  have hsoa : AddsFound qname (·.addCatalogSoa zone serial) :=
    .bind _ fun _ => .bind _ fun _ => .bind _ fun owner => Sending.addsFound_answer owner _ _
  have hptr : ∀ add ∈ memberZones.map (fun memberZone b => b.addCatalogPtr zone memberZone), AddsFound qname add := by
    intro add hadd
    obtain ⟨memberZone, _, rfl⟩ := List.mem_map.1 hadd
    exact Sending.addsFound_addTargetRecord .ptr _ _ _
  intro add hadd
  simp only [catalogAdds, List.mem_append, List.mem_cons, List.not_mem_nil, or_false] at hadd
  rcases hadd with ((rfl | rfl | rfl) | hadd) | rfl
  · exact hsoa
  · exact Sending.addsFound_addTargetRecord .ns _ _ _
  · exact Sending.addsFound_addTxtRecord _ _ _
  · exact hptr add hadd
  · exact hsoa

theorem exists_answersOf_members (hcrates : crates.Rfc1035Wire) (serial : ℤ) {members : List ZoneName}
    (hlen : ∀ z ∈ members, byteLen z.text ≤ 63) : ∃ ptrs,
      answersOf qname ((members.map (·.text)).map fun m b => b.addCatalogPtr (catalogZone serial) m) = .ok ptrs ∧
      List.Forall₂ IsMemberPtr members ptrs := by
  induction members with
  | nil => exact ⟨[], rfl, .nil⟩
  | cons z members ih =>
      obtain ⟨ptrs, hptrs, hall⟩ := ih fun z' hz' => hlen z' (by simp [hz'])
      have hname := (isName_memberLabels z).2 (hlen z (by simp))
      have howner := (parseName_member hcrates z (n := ⟨_, hname⟩)).2 rfl
      obtain ⟨target, htarget, hlabels⟩ := exists_parseName_zone hcrates z (.inr rfl)
      rw [← z.toFqdn_eq] at htarget
      refine ⟨⟨⟨_, hname⟩, 3600, .ptr target⟩ :: ptrs, ?_, .cons ⟨rfl, target, rfl, hlabels⟩ hall⟩
      have hfound : found qname (fun b => b.addCatalogPtr (catalogZone serial) z.text) =
          .ok (some ⟨⟨_, hname⟩, 3600, .ptr target⟩) := by
        refine (found_addTargetRecord .ptr _ _ _).trans ?_
        rw [show (catalogZone serial).name = catalogZoneName from rfl, howner,
          show Bindizr.toFqdn z.text = z.toFqdn from rfl, htarget]
        rfl
      rw [List.map_cons, List.map_cons, Sending.answersOf_cons, hfound, hptrs]
      rfl

theorem exists_found_catalog (hcrates : crates.Rfc1035Wire) (htxt : crates.TxtBuilds) (serial : ℤ) (n : ℕ) :
    ∃ mname owner version : Name,
      found qname (·.addCatalogSoa (catalogZone serial) n) =
        .ok (some ⟨owner, 3600, .soa mname mname n 3600 600 86400 60⟩) ∧
      found qname (·.addCatalogNs (catalogZone serial)) = .ok (some ⟨owner, 3600, .ns mname⟩) ∧
      found qname (·.addCatalogVersion (catalogZone serial)) = .ok (some ⟨version, 3600, .txt [1, 50]⟩) := by
  obtain ⟨mname, hmname, -⟩ := exists_parseName_zone hcrates (catalogZone serial).primaryNs (.inl rfl)
  obtain ⟨owner, howner, hlabels⟩ := exists_parseName_zone hcrates catalogZoneName (.inl rfl)
  obtain ⟨owner', howner', hlabels'⟩ := exists_parseName_zone hcrates catalogZoneName (.inr rfl)
  obtain ⟨version, hversion, -⟩ :=
    exists_parseName_zone hcrates ⟨lit "version.catalog.bind", by decide +kernel⟩ (.inr rfl)
  have hsame : owner' = owner := Name.ext (hlabels'.trans hlabels.symm)
  rw [← catalogZoneName.toFqdn_eq, hsame] at howner'
  rw [List.append_nil] at hmname howner
  have hmname : parseName (lit "invalid") = .ok mname := hmname
  refine ⟨mname, owner, version, ?_, ?_, ?_⟩
  · unfold found DnsMessageBuilder.addCatalogSoa
    rw [hmname, show (catalogZone serial).name = catalogZoneName from rfl, howner]
    rfl
  · refine (found_addTargetRecord .ns _ _ _).trans ?_
    rw [show (catalogZone serial).name = catalogZoneName from rfl, howner', hmname]
    rfl
  · have hnone : txtFromEncoded (lit "2") = none := rfl
    have hbuild := htxt (asBytes (lit "2")) (by decide)
    have hversion : parseName (lit "version." ++ (catalogZone serial).name.text ++ lit ".") = .ok version := hversion
    unfold found DnsMessageBuilder.addCatalogVersion DnsMessageBuilder.addTxtRecord
    rw [hversion]
    simp only [hnone, hbuild]
    rfl

theorem exists_answersOf_catalog (hcrates : crates.Rfc1035Wire) (htxt : crates.TxtBuilds) (serial : ℤ) (n : ℕ)
    {members : List ZoneName} (hlen : ∀ z ∈ members, byteLen z.text ≤ 63) : ∃ answers,
      answersOf qname (catalogAdds (catalogZone serial) n (members.map (·.text))) = .ok answers ∧
      List.Forall₂ IsMemberPtr members (answers.filter isPtr) ∧ ∀ a ∈ answers, a.data.octets.length ≤ 530 := by
  obtain ⟨mname, owner, version, hsoa, hns, hversion⟩ := @exists_found_catalog crates qname hcrates htxt serial n
  obtain ⟨ptrs, hptrs, hall⟩ := @exists_answersOf_members crates qname hcrates serial members hlen
  refine ⟨⟨owner, 3600, .soa mname mname n 3600 600 86400 60⟩ :: ⟨owner, 3600, .ns mname⟩ ::
    ⟨version, 3600, .txt [1, 50]⟩ :: (ptrs ++ [⟨owner, 3600, .soa mname mname n 3600 600 86400 60⟩]), ?_, ?_, ?_⟩
  · have hlast : answersOf qname [(·.addCatalogSoa (catalogZone serial) n)] =
        .ok [⟨owner, 3600, .soa mname mname n 3600 600 86400 60⟩] := by
      rw [Sending.answersOf_cons, hsoa]
      rfl
    simp only [catalogAdds, List.cons_append, List.nil_append, Sending.answersOf_cons, Sending.answersOf_append, hsoa, hns,
      hversion, hptrs, hlast]
    rfl
  · have hfilter : ptrs.filter isPtr = ptrs := List.filter_eq_self.2 fun a ha => (isPtr_of_members hall a ha).1
    have hrest : (⟨owner, 3600, .soa mname mname n 3600 600 86400 60⟩ :: ⟨owner, 3600, .ns mname⟩ ::
        ⟨version, 3600, .txt [1, 50]⟩ :: (ptrs ++ [⟨owner, 3600, .soa mname mname n 3600 600 86400 60⟩]) :
          List ResourceRecord).filter isPtr = ptrs.filter isPtr := by
      simp [isPtr]
    rw [hrest, hfilter]
    exact hall
  · have hsmall : (Rdata.soa mname mname n 3600 600 86400 60).octets.length ≤ 530 := Rdata.length_octets_le (by simp)
    simp only [List.forall_mem_cons, List.forall_mem_append]
    exact ⟨hsmall, Rdata.length_octets_le (by simp), by decide, fun a ha => (isPtr_of_members hall a ha).2, hsmall,
      by simp⟩

/-- Where the catalog is sent, every id fits a label. -/
theorem byteLen_of_answersOf (hcrates : crates.Rfc1035Wire) {serial : ℤ} {n : ℕ} {members : List ZoneName}
    {answers : List ResourceRecord}
    (h : answersOf qname (catalogAdds (catalogZone serial) n (members.map (·.text))) = .ok answers) :
    ∀ z ∈ members, byteLen z.text ≤ 63 := by
  intro z hz
  have hmem : (fun b : DnsMessageBuilder => b.addCatalogPtr (catalogZone serial) z.text) ∈
      catalogAdds (catalogZone serial) n (members.map (·.text)) :=
    List.mem_append_left _ (List.mem_append_right _ (List.mem_map_of_mem (List.mem_map_of_mem hz)))
  obtain ⟨a, ha⟩ := Sending.exists_found_of_answersOf h hmem
  obtain ⟨owner, howner, -⟩ := Fallible.bind_eq_ok.1 ((found_addTargetRecord .ptr _ _ _).symm.trans ha)
  have hlabels := (parseName_member hcrates z).1 howner
  exact (isName_memberLabels z).1 (hlabels ▸ owner.isName)

end Answers

/-! ### Members have ids of their own -/

theorem mem_memberZones {db : Db} {z : ZoneName} :
    z ∈ memberZones db.listZones ↔ z ≠ catalogZoneName ∧ ∃ st ∈ db.stores, st.zone.name = z := by
  simp [memberZones, Db.listZones, and_comm]

theorem pairwise_memberZones {db : Db} (hdb : DbOk db) :
    ((memberZones db.listZones).Pairwise fun z z' => memberLabels z ≠ memberLabels z') ↔
      ∀ st ∈ db.stores, ∀ st' ∈ db.stores, st.zone.name ≠ catalogZoneName → st'.zone.name ≠ catalogZoneName →
        st.zone.name.dashed = st'.zone.name.dashed → st.zone.name = st'.zone.name := by
  have hperm : (memberZones db.listZones).Perm (memberZones (db.stores.map (·.zone))) :=
    ((List.mergeSort_perm _ _).map _).filter _
  have hnodup : (memberZones db.listZones).Nodup := by
    rw [hperm.nodup_iff, memberZones, List.map_map]
    exact hdb.zoneNames.filter _
  constructor
  · intro h st hst st' hst' hne hne' hsame
    by_contra hnames
    have hsymm : Std.Symm fun z z' : ZoneName => memberLabels z ≠ memberLabels z' := ⟨fun _ _ h => h.symm⟩
    exact h.forall (mem_memberZones.2 ⟨hne, st, hst, rfl⟩) (mem_memberZones.2 ⟨hne', st', hst', rfl⟩) hnames
      (memberLabels_inj.2 hsame)
  · intro h
    refine hnodup.pairwise_of_forall_ne fun z hz z' hz' hne hsame => hne ?_
    obtain ⟨hcat, st, hst, rfl⟩ := mem_memberZones.1 hz
    obtain ⟨hcat', st', hst', rfl⟩ := mem_memberZones.1 hz'
    exact h st hst st' hst' hcat hcat' (memberLabels_inj.1 hsame)

/-- **The members of the catalog.**  The catalog of a reachable database is sent whole, with one PTR for each member
zone and owners that tell the members apart, exactly when every member's name fits a label and no two names agree
once their dots are dashes.  The owner of a member's PTR depends on its name alone. -/
theorem catalog_members_iff [crates : Crates] (hcrates : crates.Rfc1035Wire) (htxt : crates.TxtBuilds) (ops : List Op)
    (queryId : ℕ) (qname : Name) (qtype : ℕ) (serial : ℤ) (n : ℕ) :
    (∃ answers, Sending.Sends queryId qname qtype
        (catalogAdds (catalogZone serial) n ((memberZones (run ops).listZones).map (·.text))) answers ∧
      List.Forall₂ IsMemberPtr (memberZones (run ops).listZones) (answers.filter isPtr) ∧
      (memberZones (run ops).listZones).Pairwise fun z z' => memberLabels z ≠ memberLabels z') ↔
    (∀ st ∈ (run ops).stores, st.zone.name ≠ catalogZoneName → byteLen st.zone.name.text ≤ 63) ∧
      ∀ st ∈ (run ops).stores, ∀ st' ∈ (run ops).stores, st.zone.name ≠ catalogZoneName → st'.zone.name ≠ catalogZoneName →
        st.zone.name.dashed = st'.zone.name.dashed → st.zone.name = st'.zone.name := by
  have hlens : (∀ st ∈ (run ops).stores, st.zone.name ≠ catalogZoneName → byteLen st.zone.name.text ≤ 63) ↔
      ∀ z ∈ memberZones (run ops).listZones, byteLen z.text ≤ 63 := by
    simp only [mem_memberZones]
    exact ⟨fun h z ⟨hz, st, hst, e⟩ => e ▸ h st hst (e ▸ hz), fun h st hst hne => h _ ⟨hne, st, hst, rfl⟩⟩
  rw [hlens, ← pairwise_memberZones (run_ok ops)]
  constructor
  · rintro ⟨answers, ⟨hanswers, -⟩, -, hpair⟩
    exact ⟨byteLen_of_answersOf hcrates hanswers, hpair⟩
  · rintro ⟨hlen, hpair⟩
    obtain ⟨answers, hanswers, hptrs, hsmall⟩ := @exists_answersOf_catalog crates qname hcrates htxt serial n _ hlen
    refine ⟨answers, (Sending.sends_iff (addsFound_catalogAdds _ _ _)).2 ⟨hanswers, fun a ha => ?_⟩, hptrs, hpair⟩
    have hdata := hsmall a ha
    have hqname := qname.len_le
    have howner := a.owner.len_le
    rw [hcrates.compose, ResourceRecord.length_octets, dnsTcpMaxSize]
    omega

/-- Two zones whose names differ in a dot and a dash. -/
def dashHistory : List Op :=
  [.createZone .global { sampleZone with name := lit "a.b" }, .createZone .global { sampleZone with name := lit "a-b" }]

/-- Both are listed under one id. -/
theorem catalog_dash_collides : ∃ st ∈ (@run sampleCrates dashHistory).stores,
    ∃ st' ∈ (@run sampleCrates dashHistory).stores, st.zone.name ≠ st'.zone.name ∧
      st.zone.name ∈ memberZones (@run sampleCrates dashHistory).listZones ∧
      st'.zone.name ∈ memberZones (@run sampleCrates dashHistory).listZones ∧
      memberLabels st.zone.name = memberLabels st'.zone.name := by
  obtain ⟨st, hst, st', hst', hne, hcat, hcat', hsame⟩ : ∃ st ∈ (@run sampleCrates dashHistory).stores,
      ∃ st' ∈ (@run sampleCrates dashHistory).stores, st.zone.name ≠ st'.zone.name ∧
        st.zone.name ≠ catalogZoneName ∧ st'.zone.name ≠ catalogZoneName ∧
        st.zone.name.dashed = st'.zone.name.dashed := by
    decide +kernel
  exact ⟨st, hst, st', hst', hne, mem_memberZones.2 ⟨hcat, st, hst, rfl⟩, mem_memberZones.2 ⟨hcat', st', hst', rfl⟩,
    memberLabels_inj.2 hsame⟩

/-- The sample zone and another one. -/
def twoZones : List Op := sampleHistory ++ [.createZone .global { sampleZone with name := lit "example.org" }]

theorem catalog_members_twoZones : (memberZones (@run sampleCrates twoZones).listZones).length = 2 ∧
    ∃ answers, @Sending.Sends sampleCrates 7 Name.root 252
      (@catalogAdds sampleCrates (catalogZone 1) 1 ((memberZones (@run sampleCrates twoZones).listZones).map (·.text)))
      answers ∧
    List.Forall₂ IsMemberPtr (memberZones (@run sampleCrates twoZones).listZones) (answers.filter isPtr) ∧
    (memberZones (@run sampleCrates twoZones).listZones).Pairwise fun z z' => memberLabels z ≠ memberLabels z' := by
  have hlength : (memberZones ((@run sampleCrates twoZones).stores.map (·.zone))).length = 2 := by decide +kernel
  have hperm : (memberZones (@run sampleCrates twoZones).listZones).Perm
      (memberZones ((@run sampleCrates twoZones).stores.map (·.zone))) := ((List.mergeSort_perm _ _).map _).filter _
  exact ⟨hperm.length_eq.trans hlength, (@catalog_members_iff sampleCrates sampleCrates_wire sampleCrates_txtBuilds
    twoZones 7 Name.root 252 1 1).2 (by decide +kernel)⟩

end Bindizr
