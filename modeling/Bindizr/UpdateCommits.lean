import Bindizr.RecordCommits
import Bindizr.DynamicUpdate
import Bindizr.ExternalDns

/-! # Dynamic updates and change sets commit

The two write paths that take many operations at once.  Each operation of an UPDATE message
is a write on the rows the earlier ones left (`applyOp_writes`), so the whole message is one
write under one serial (`applyOps_writes`), logged row by row in the order the operations ran.
An ExternalDNS change set is resolved against the rows first; its deletions are distinct rows
of the zone, never an NS, and its creations pass the validators beside what stays
(`applyZoneOpsTx_commits`). -/

namespace Bindizr

variable [Crates]

/-! ### Dynamic updates -/

/-- The rows an operation may touch: those at its owner and of its type. -/
def UpdateOp.Touches (op : UpdateOp) (zone : Zone) (r : RecordData) : Prop :=
  ownerInZone op.name zone.name = .ok r.name ∧
    (op.recordType = none ∨ op.recordType = some r.recordType)

omit [Crates] in
theorem granted_of_authorizeKey {policies : List ZonePolicy} {zone : Zone} {key : TsigKey}
    {updates : List UpdateOp} (hkey : key.isGlobal = false)
    (h : authorizeKey policies zone (some key) updates = .ok ()) {op : UpdateOp} (hop : op ∈ updates)
    {r : RecordData} (hr : op.Touches zone r) : Granted policies zone.id key.id r.write := by
  simp only [authorizeKey, hkey, Bool.false_eq_true, if_false] at h
  split at h
  · cases h
  · have hop := Fallible.forM_eq_ok.1 h op hop
    rw [hr.1, Fallible.ok_bind] at hop
    split at hop
    · rename_i hany
      obtain ⟨p, hp, hc⟩ := List.any_eq_true.1 hany
      refine ⟨p, hp, ?_⟩
      rcases hr.2 with ht | ht
      · rw [ht] at hc
        exact ZonePolicy.covers_of_any hc r.recordType
      · rw [ht] at hc
        exact hc
    · cases hop

/-- What one operation does: it is a write of rows it may touch, and it keeps the primary NS. -/
structure OpWrites (zone : Zone) (n : ℤ) (op : UpdateOp) (cs : List ZoneChange) (tx tx' : Tx)
    (changed : Bool) : Prop where
  writes : Writes n cs tx tx'
  sameZone : tx'.store.zone = tx.store.zone
  unchanged : changed = false → tx' = tx ∧ cs = []
  changed : changed = true → cs ≠ []
  touches : ∀ c ∈ cs, op.Touches zone c.record
  primaryNs : (∃ r ∈ tx.store.liveRecords, zone.isPrimaryNs r = true) →
    ∃ r ∈ tx'.store.liveRecords, zone.isPrimaryNs r = true

section Update

variable {zone : Zone} {n : ℤ} {tx tx' : Tx} {changed : Bool}

theorem addRecord_writes {name : Text} {t : RecordType} {value : Text} {ttl : ℤ} {priority : Option ℤ}
    (hacc : Acceptable tx.store.rows) (hid : tx.IdsOk)
    (h : addRecord zone n name t value ttl priority tx = .ok (tx', changed)) :
    ∃ cs, OpWrites zone n (.add name t value ttl priority) cs tx tx' changed := by
  obtain ⟨owner, hown, h⟩ := Fallible.bind_eq_ok.1 h
  obtain ⟨value, hvalue, h⟩ := Fallible.bind_eq_ok.1 h
  obtain ⟨outcome, hval, h⟩ := Fallible.bind_eq_ok.1 h
  rw [Fallible.mapError_eq_ok] at hval
  cases outcome with
  | duplicate =>
      cases h
      exact ⟨[], .refl hacc hid, rfl, fun _ => ⟨rfl, rfl⟩, by simp, by simp, id⟩
  | new =>
      cases h
      unfold validateAdd at hval
      split at hval
      · cases hval
      · obtain ⟨_, hval, _⟩ := Fallible.bind_eq_ok.1 hval
        obtain ⟨hrow, hcomp⟩ := (validateRecordAddConstraints_filter rfl).1 hval
        have hall : Acceptable ↑(tx.store.liveRecords ++ [(⟨owner, t, value, ttl, priority⟩ : RecordData)]) := by
          refine acceptable_append.2 ⟨hacc, acceptable_singleton.2 hrow, ?_⟩
          intro r hr s hs
          obtain ⟨r', hr', rfl⟩ := List.mem_map.1 hr
          obtain rfl := List.mem_singleton.1 hs
          exact hcomp r' hr'
        refine ⟨_, writes_insert _ hid hall, rfl, by simp, by simp [Tx.zoneChangesFor], ?_, ?_⟩
        · intro c hc
          rw [List.mem_singleton.1 (mem_zoneChangesFor hc)]
          exact ⟨hown, .inr rfl⟩
        · rintro ⟨r, hr, hns⟩
          exact ⟨r, by simp [hr], hns⟩

omit [Crates] in
theorem deleteSelects_iff {owner : OwnerName} {t : Option RecordType} {value : Option Text}
    {priority : Option ℤ} {r : Record} (h : deleteSelects owner t value priority r = true) :
    r.name = owner ∧ (t = none ∨ t = some r.recordType) := by
  simp only [deleteSelects, Bool.and_eq_true, Bool.or_eq_true, beq_iff_eq, Option.isNone_iff_eq_none] at h
  exact ⟨h.1.1.1.1, h.1.1.1.2⟩

omit [Crates] in
/-- Both deletions, as operations: `op` names the owner and the type that `deleteMatching` gets. -/
theorem deleteMatching_writes (op : UpdateOp) {value : Option Text} {priority : Option ℤ}
    (hacc : Acceptable tx.store.rows) (hid : tx.IdsOk)
    (h : deleteMatching zone n op.name op.recordType value priority tx = .ok (tx', changed)) :
    ∃ cs, OpWrites zone n op cs tx tx' changed := by
  obtain ⟨owner, hown, h⟩ := Fallible.bind_eq_ok.1 h
  simp only at h
  split at h
  · cases h
    exact ⟨[], .refl hacc hid, rfl, fun _ => ⟨rfl, rfl⟩, by simp, by simp, id⟩
  · rename_i hne
    obtain ⟨_, hval, h⟩ := Fallible.bind_eq_ok.1 h
    rw [Fallible.mapError_eq_ok] at hval
    cases h
    have hns := validateDeleteConstraints_eq_ok hval
    refine ⟨_, writes_delete _ hid hacc (fun r hr => List.mem_of_mem_filter hr)
      ((List.Nodup.of_map _ hid.nodup).filter _), rfl, by simp, fun _ => ?_, ?_, ?_⟩
    · simpa [Tx.zoneChangesFor] using hne
    · intro c hc
      obtain ⟨r, hr, e⟩ := List.mem_map.1 (mem_zoneChangesFor hc)
      obtain ⟨h1, h2⟩ := deleteSelects_iff (List.mem_filter.1 hr).2
      rw [← e]
      exact ⟨by rw [hown, h1], h2⟩
    · rintro ⟨r, hr, hprimary⟩
      obtain ⟨r', hr', rfl⟩ := List.mem_map.1 hr
      refine ⟨r'.toRecordData, List.mem_map_of_mem (List.mem_filter.2 ⟨hr', ?_⟩), hprimary⟩
      simp only [List.mem_map, not_exists, not_and, decide_eq_true_eq]
      intro s hs e
      obtain rfl := eq_of_id_eq hid.nodup (List.mem_of_mem_filter hs) hr' e
      simp [hns _ (List.mem_map_of_mem hs)] at hprimary

theorem applyOp_writes {op : UpdateOp} (hacc : Acceptable tx.store.rows) (hid : tx.IdsOk)
    (h : applyOp zone n op tx = .ok (tx', changed)) : ∃ cs, OpWrites zone n op cs tx tx' changed := by
  cases op with
  | add name t value ttl priority => exact addRecord_writes hacc hid h
  | deleteRrset name t => exact deleteMatching_writes (.deleteRrset name t) hacc hid h
  | deleteRr name t value priority =>
      exact deleteMatching_writes (.deleteRr name t value priority) hacc hid h

/-- What the operations of a message do together. -/
structure OpsWrite (zone : Zone) (n : ℤ) (ops : List UpdateOp) (cs : List ZoneChange) (tx tx' : Tx)
    (changed : Bool) : Prop where
  writes : Writes n cs tx tx'
  sameZone : tx'.store.zone = tx.store.zone
  unchanged : changed = false → tx' = tx ∧ cs = []
  changed : changed = true → cs ≠ []
  touches : ∀ c ∈ cs, ∃ op ∈ ops, op.Touches zone c.record
  primaryNs : (∃ r ∈ tx.store.liveRecords, zone.isPrimaryNs r = true) →
    ∃ r ∈ tx'.store.liveRecords, zone.isPrimaryNs r = true

/-- The operations of a message are one write, under the message's serial. -/
theorem applyOps_writes {ops : List UpdateOp} (hacc : Acceptable tx.store.rows) (hid : tx.IdsOk)
    (h : applyOps zone n ops tx = .ok (tx', changed)) : ∃ cs, OpsWrite zone n ops cs tx tx' changed := by
  induction ops generalizing tx tx' changed with
  | nil =>
      cases h
      exact ⟨[], .refl hacc hid, rfl, fun _ => ⟨rfl, rfl⟩, by simp, by simp, id⟩
  | cons op ops ih =>
      obtain ⟨⟨tx₁, changed₁⟩, h1, h⟩ := Fallible.bind_eq_ok.1 h
      obtain ⟨⟨tx₂, changed₂⟩, h2, h⟩ := Fallible.bind_eq_ok.1 h
      cases h
      obtain ⟨cs₁, w1⟩ := applyOp_writes hacc hid h1
      obtain ⟨cs₂, w2⟩ := ih w1.writes.run.ok_end w1.writes.ids h2
      refine ⟨cs₁ ++ cs₂, w1.writes.trans w2.writes, w2.sameZone.trans w1.sameZone, ?_, ?_, ?_,
        fun hns => w2.primaryNs (w1.primaryNs hns)⟩
      · intro hno
        simp only [Bool.or_eq_false_iff] at hno
        obtain ⟨e1, l1⟩ := w1.unchanged hno.1
        obtain ⟨e2, l2⟩ := w2.unchanged hno.2
        exact ⟨e2.trans e1, by simp [l1, l2]⟩
      · intro hyes hnil
        obtain ⟨l1, l2⟩ := List.append_eq_nil_iff.1 hnil
        rcases Bool.or_eq_true_iff.1 hyes with h | h
        · exact w1.changed h l1
        · exact w2.changed h l2
      · intro c hc
        rcases List.mem_append.1 hc with hc | hc
        · exact ⟨op, by simp, w1.touches c hc⟩
        · obtain ⟨op', hop', ht⟩ := w2.touches c hc
          exact ⟨op', by simp [hop'], ht⟩

/-- What an UPDATE key may write: a key that is not global only what its policies cover. -/
def TsigPermits (key : Option TsigKey) (policies : List ZonePolicy) (zoneId : ℕ) (w : RecordWrite) : Prop :=
  ∀ k, key = some k → k.isGlobal = false → Granted policies zoneId k.id w

theorem applyUpdateTx_commits {policies : List ZonePolicy} {update : DynamicUpdate} (hok : TxOk tx)
    (h : applyUpdateTx policies update tx = .ok (tx', changed)) :
    (changed = false ∧ tx' = tx) ∨ (changed = true ∧ ∃ cs, cs ≠ [] ∧ CommitsRecords cs tx tx' ∧
      ∀ c ∈ cs, TsigPermits update.key policies tx.store.zone.id c.record.write) := by
  obtain ⟨_, hauth, h⟩ := Fallible.bind_eq_ok.1 h
  obtain ⟨_, _, h⟩ := Fallible.bind_eq_ok.1 h
  obtain ⟨n, hn, h⟩ := Fallible.bind_eq_ok.1 h
  obtain ⟨⟨tx₁, changed₁⟩, hops, h⟩ := Fallible.bind_eq_ok.1 h
  rw [Fallible.mapError_eq_ok] at hn
  obtain ⟨cs, hw⟩ := applyOps_writes hok.store.rows hok.ids hops
  cases changed₁ with
  | false =>
      cases h
      exact .inl ⟨rfl, (hw.unchanged rfl).1⟩
  | true =>
      simp only [if_true] at h
      obtain ⟨tx₂, hadv, h⟩ := Fallible.bind_eq_ok.1 h
      rw [Fallible.mapError_eq_ok] at hadv
      cases h
      refine .inr ⟨rfl, cs, hw.changed rfl, (hw.writes.commitsRecords hok hn hw.sameZone hadv
        (hw.primaryNs hok.store.primaryNs)).1, ?_⟩
      rintro c hc key hkey hglobal
      obtain ⟨op, hop, ht⟩ := hw.touches c hc
      rw [hkey] at hauth
      exact granted_of_authorizeKey hglobal hauth hop ht

end Update

/-! ### ExternalDNS change sets -/

/-- Whether a row is at the owner and of the type of one of the operations. -/
def OnOps (ops : List ZoneRrsetOp) (r : RecordData) : Prop :=
  ∃ op ∈ ops, r.name = op.name ∧ r.recordType = op.recordType

instance (ops : List ZoneRrsetOp) (r : RecordData) : Decidable (OnOps ops r) :=
  inferInstanceAs (Decidable (∃ op ∈ ops, _ ∧ _))

omit [Crates] in
theorem ZoneRrsetOp.holds_iff {op : ZoneRrsetOp} {value : Text} {r : RecordData}
    (h : op.holds value r = true) : r.name = op.name ∧ r.recordType = op.recordType := by
  simp only [ZoneRrsetOp.holds, Bool.and_eq_true, beq_iff_eq] at h
  exact h.1

omit [Crates] in
theorem computeDeletes_ok (existing : List Record) (dels : List ZoneRrsetOp) :
    (∀ r ∈ computeDeletes existing dels, r ∈ existing ∧ OnOps dels r.toRecordData) ∧
      (computeDeletes existing dels).Nodup := by
  let Ok (deletes : List Record) : Prop :=
    (∀ r ∈ deletes, r ∈ existing ∧ OnOps dels r.toRecordData) ∧ deletes.Nodup
  unfold computeDeletes
  refine List.foldlRecOn (motive := Ok) dels _ ⟨by simp, List.nodup_nil⟩ fun acc h del hdel => ?_
  refine List.foldlRecOn (motive := Ok) del.values _ h fun acc h value _ => ?_
  unfold deleteValue
  refine List.foldlRecOn (motive := Ok) existing _ h fun acc h row hrow => ?_
  split
  · rename_i hcond
    simp only [Bool.and_eq_true, Bool.not_eq_true', List.any_eq_false, beq_iff_eq] at hcond
    refine ⟨?_, List.nodup_append.2 ⟨h.2, by simp, ?_⟩⟩
    · intro r hr
      rcases List.mem_append.1 hr with hr | hr
      · exact h.1 r hr
      · obtain rfl := List.mem_singleton.1 hr
        exact ⟨hrow, del, hdel, ZoneRrsetOp.holds_iff hcond.1⟩
    · rintro a ha b hb rfl
      obtain rfl := List.mem_singleton.1 hb
      exact hcond.2 a ha rfl
  · exact h

omit [Crates] in
/-- The additions only take deletions back, and create rows on adding operations. -/
theorem computeCreates_ok (zone : Zone) (existing : List Record) (adds : List ZoneRrsetOp)
    (deletes : List Record) :
    (computeCreates zone existing adds deletes).deletes.Sublist deletes ∧
      ∀ c ∈ (computeCreates zone existing adds deletes).creates, OnOps adds c := by
  let Ok (cs : ZoneChangeSet) : Prop := cs.deletes.Sublist deletes ∧ ∀ c ∈ cs.creates, OnOps adds c
  unfold computeCreates
  refine List.foldlRecOn (motive := Ok) adds _ ⟨List.Sublist.refl _, by simp⟩ fun acc h add hadd => ?_
  refine List.foldlRecOn (motive := Ok) add.values _ h fun acc h value _ => ?_
  unfold createValue
  simp only
  split
  · exact ⟨List.eraseP_sublist.trans h.1, h.2⟩
  · split
    · exact h
    · split
      · exact h
      · refine ⟨h.1, fun c hc => ?_⟩
        rcases List.mem_append.1 hc with hc | hc
        · exact h.2 c hc
        · obtain rfl := List.mem_singleton.1 hc
          exact ⟨add, hadd, rfl, rfl⟩

/-- Operations on the types ExternalDNS manages. -/
def ZoneOps.Supported (ops : ZoneOps) : Prop :=
  ∀ op ∈ ops.adds ++ ops.dels, op.recordType ∈ externalDnsRecordTypes

omit [Crates] in
theorem not_isPrimaryNs_of_supported {ops : ZoneOps} (h : ops.Supported) {r : RecordData}
    (hr : OnOps ops.dels r) (zone : Zone) : zone.isPrimaryNs r = false := by
  obtain ⟨op, hop, _, ht⟩ := hr
  have hs := h op (by simp [hop])
  rw [← ht] at hs
  have : r.recordType ≠ .ns := by
    intro e
    simp [e, externalDnsRecordTypes] at hs
  simp [Zone.isPrimaryNs, Zone.isApexNs, this]

omit [Crates] in
theorem OnOps.mem_writes {ops : ZoneOps} {r : RecordData} (h : OnOps (ops.adds ++ ops.dels) r) :
    r.write ∈ ops.writes := by
  obtain ⟨op, hop, hn, ht⟩ := h
  exact List.mem_map.2 ⟨op, hop, by simp [RecordData.write, hn, ht]⟩

omit [Crates] in
theorem applyZoneOpsTx_commits {caller : Caller} {policies : List ZonePolicy} {ops : ZoneOps} {tx tx' : Tx}
    {cs : ZoneChangeSet} (hok : TxOk tx) (hsup : ops.Supported)
    (h : applyZoneOpsTx caller policies ops tx = .ok (tx', cs)) :
    (tx' = tx ∧ cs.deletes = [] ∧ cs.creates = []) ∨ ∃ log, log ≠ [] ∧ CommitsRecords log tx tx' ∧
      ∀ c ∈ log, caller.Permits policies tx.store.zone.id c.record.write := by
  obtain ⟨_, hauth, h⟩ := Fallible.bind_eq_ok.1 h
  obtain ⟨cs', hcs, h⟩ := Fallible.bind_eq_ok.1 h
  split at h
  · rename_i hnone
    cases h
    exact .inl ⟨rfl, hnone⟩
  rename_i hsome
  obtain ⟨n, hn, h⟩ := Fallible.bind_eq_ok.1 h
  obtain ⟨tx₁, hadv, h⟩ := Fallible.bind_eq_ok.1 h
  cases h
  obtain ⟨_, hval, hcs⟩ := Fallible.bind_eq_ok.1 hcs
  cases hcs
  set existing := tx.recordsByNames (ops.writes.map (·.relativeName)) with hexisting
  set cs := computeCreates tx.store.zone existing ops.adds (computeDeletes existing ops.dels) with hcs
  obtain ⟨hdels, hnd⟩ := computeDeletes_ok existing ops.dels
  obtain ⟨hsubl, hcreates⟩ := computeCreates_ok tx.store.zone existing ops.adds
    (computeDeletes existing ops.dels)
  have hdel : ∀ r ∈ cs.deletes, r ∈ existing ∧ OnOps ops.dels r.toRecordData :=
    fun r hr => hdels r (hsubl.subset hr)
  have hsub : ∀ r ∈ cs.deletes, r ∈ tx.store.records := fun r hr => List.mem_of_mem_filter (hdel r hr).1
  have hdelw : ∀ r ∈ cs.deletes, r.write ∈ ops.writes := fun r hr => by
    obtain ⟨op, hop, e⟩ := (hdel r hr).2
    exact OnOps.mem_writes ⟨op, List.mem_append_right _ hop, e⟩
  have haddw : ∀ c ∈ cs.creates, c.write ∈ ops.writes := fun c hc => by
    obtain ⟨op, hop, e⟩ := hcreates c hc
    exact OnOps.mem_writes ⟨op, List.mem_append_left _ hop, e⟩
  obtain ⟨hadds, hcomp⟩ := validateEach_eq_ok.1 hval
  have hacc : Acceptable ↑((tx.survivors cs.deletes).map (·.toRecordData) ++ cs.creates) := by
    refine acceptable_append.2 ⟨acceptable_survivors hok _, hadds, ?_⟩
    intro x hx
    obtain ⟨e, he, rfl⟩ := List.mem_map.1 hx
    obtain ⟨he, hid⟩ := List.mem_filter.1 he
    refine compatible_of_names (fun c hc => List.mem_map_of_mem (f := (·.relativeName)) (haddw c hc))
      fun hname => hcomp e (List.mem_filter.2 ⟨List.mem_filter.2 ⟨he, by simpa using hname⟩, ?_⟩)
    simpa [List.all_eq_true] using hid
  obtain ⟨x, hx, hns⟩ := primaryNs_survives hok hsub fun r hr =>
    not_isPrimaryNs_of_supported hsup (hdel r hr).2 _
  refine .inr ⟨_, ?_, commits_replace hok hn hsub (hnd.sublist hsubl) hacc
    ⟨x, List.mem_append_left _ hx, hns⟩ hadv, ?_⟩
  · intro hnil
    simp only [Tx.zoneChangesFor, List.append_eq_nil_iff, List.map_eq_nil_iff] at hnil
    exact hsome hnil
  · intro c hc
    rcases List.mem_append.1 hc with hc | hc
    · obtain ⟨r, hr, e⟩ := List.mem_map.1 (mem_zoneChangesFor hc)
      rw [← e]
      exact Caller.permits_of_authorizeRecordWrites hauth (hdelw r hr)
    · exact Caller.permits_of_authorizeRecordWrites hauth (haddw _ (mem_zoneChangesFor hc))

/-! ### Grouping by zone -/

theorem convertRrset_supported {rrset : ExternalDnsRrset} {op : RrsetOp} (h : convertRrset rrset = .ok op) :
    op.recordType ∈ externalDnsRecordTypes := by
  obtain ⟨t, ht, h⟩ := Fallible.bind_eq_ok.1 h
  obtain ⟨_, _, h⟩ := Fallible.bind_eq_ok.1 h
  obtain ⟨_, _, h⟩ := Fallible.bind_eq_ok.1 h
  obtain ⟨_, _, h⟩ := Fallible.bind_eq_ok.1 h
  obtain ⟨_, _, h⟩ := Fallible.bind_eq_ok.1 h
  cases h
  obtain ⟨parsed, _, ht⟩ := Fallible.bind_eq_ok.1 ht
  split at ht
  · rename_i hmem
    cases ht
    exact hmem
  · cases ht

theorem convertRequest_supported {request : ExternalDnsChangesRequest} {ops : List PendingOp}
    (h : convertRequest request = .ok ops) : ∀ p ∈ ops, p.op.recordType ∈ externalDnsRecordTypes := by
  obtain ⟨deletes, hd, h⟩ := Fallible.bind_eq_ok.1 h
  obtain ⟨updates, hu, h⟩ := Fallible.bind_eq_ok.1 h
  obtain ⟨creates, hc, h⟩ := Fallible.bind_eq_ok.1 h
  cases h
  intro p hp
  simp only [List.mem_append, List.mem_flatten] at hp
  rcases hp with (hp | ⟨ps, hps, hp⟩) | hp
  · obtain ⟨rrset, _, h⟩ := Fallible.mem_of_mapM hd hp
    obtain ⟨op, hop, h⟩ := Fallible.bind_eq_ok.1 h
    cases h
    exact convertRrset_supported hop
  · obtain ⟨update, _, h⟩ := Fallible.mem_of_mapM hu hps
    obtain ⟨old, hold, h⟩ := Fallible.bind_eq_ok.1 h
    obtain ⟨new, hnew, h⟩ := Fallible.bind_eq_ok.1 h
    cases h
    simp only [List.mem_cons, List.not_mem_nil, or_false] at hp
    rcases hp with rfl | rfl
    · exact convertRrset_supported hold
    · exact convertRrset_supported hnew
  · obtain ⟨rrset, _, h⟩ := Fallible.mem_of_mapM hc hp
    obtain ⟨op, hop, h⟩ := Fallible.bind_eq_ok.1 h
    cases h
    exact convertRrset_supported hop

/-- Operations grouped by zone: one entry per zone, in the order of names, on managed types. -/
def GroupedOk (grouped : List (ZoneName × ZoneOps)) : Prop :=
  (grouped.map (·.1.text)).Pairwise (· < ·) ∧ ∀ e ∈ grouped, e.2.Supported

omit [Crates] in
theorem ZoneOps.Supported.push {ops : ZoneOps} (h : ops.Supported) {isDelete : Bool} {op : ZoneRrsetOp}
    (hop : op.recordType ∈ externalDnsRecordTypes) : (ops.push isDelete op).Supported := by
  intro o ho
  unfold ZoneOps.push at ho
  split at ho
  all_goals
    simp only [List.mem_append, List.mem_singleton] at ho
    by_cases e : o = op
    · exact e ▸ hop
    · exact h o (by simp only [List.mem_append]; tauto)

omit [Crates] in
theorem mem_pushOp_text {zone : ZoneName} {isDelete : Bool} {op : ZoneRrsetOp}
    {grouped : List (ZoneName × ZoneOps)} {e : ZoneName × ZoneOps} (h : e ∈ pushOp zone isDelete op grouped) :
    e.1 = zone ∨ e ∈ grouped := by
  induction grouped with
  | nil =>
      rw [pushOp, List.mem_singleton] at h
      exact .inl (by rw [h])
  | cons f rest ih =>
      rw [pushOp] at h
      split at h
      · rename_i hz
        rcases List.mem_cons.1 h with rfl | h
        · exact .inl hz
        · exact .inr (List.mem_cons_of_mem _ h)
      · split at h
        · rcases List.mem_cons.1 h with rfl | h
          · exact .inl rfl
          · exact .inr h
        · rcases List.mem_cons.1 h with rfl | h
          · exact .inr List.mem_cons_self
          · exact (ih h).imp id (List.mem_cons_of_mem _)

omit [Crates] in
theorem GroupedOk.pushOp {zone : ZoneName} {isDelete : Bool} {op : ZoneRrsetOp}
    (hop : op.recordType ∈ externalDnsRecordTypes) {grouped : List (ZoneName × ZoneOps)}
    (h : GroupedOk grouped) : GroupedOk (pushOp zone isDelete op grouped) := by
  have hnew : ((ZoneOps.mk [] []).push isDelete op).Supported :=
    ZoneOps.Supported.push (fun o ho => by cases ho) hop
  induction grouped with
  | nil => exact ⟨by simp [Bindizr.pushOp], by simpa [Bindizr.pushOp] using hnew⟩
  | cons f rest ih =>
      obtain ⟨hsorted, hsup⟩ := h
      rw [List.map_cons, List.pairwise_cons] at hsorted
      have hrest : GroupedOk rest := ⟨hsorted.2, fun e he => hsup e (List.mem_cons_of_mem _ he)⟩
      rw [Bindizr.pushOp]
      split
      · refine ⟨by simpa using hsorted, ?_⟩
        intro e he
        rcases List.mem_cons.1 he with rfl | he
        · exact (hsup f List.mem_cons_self).push hop
        · exact hrest.2 e he
      · rename_i hne
        split
        · rename_i hlt
          refine ⟨?_, ?_⟩
          · rw [List.map_cons, List.map_cons, List.pairwise_cons, List.pairwise_cons]
            refine ⟨?_, hsorted⟩
            intro t ht
            rcases List.mem_cons.1 ht with rfl | ht
            · exact hlt
            · exact lt_trans hlt (hsorted.1 t ht)
          · intro e he
            rcases List.mem_cons.1 he with rfl | he
            · exact hnew
            · exact hsup e he
        · rename_i hge
          have hlt : f.1.text < zone.text := by
            refine lt_of_le_of_ne (not_lt.1 hge) fun e => hne ?_
            obtain ⟨z, _⟩ := f
            cases z
            cases zone
            simp_all
          obtain ⟨h1, h2⟩ := ih hrest
          refine ⟨?_, ?_⟩
          · rw [List.map_cons, List.pairwise_cons]
            refine ⟨?_, h1⟩
            intro t ht
            obtain ⟨e, he, rfl⟩ := List.mem_map.1 ht
            rcases mem_pushOp_text he with e' | he
            · rw [e']
              exact hlt
            · exact hsorted.1 _ (List.mem_map_of_mem he)
          · intro e he
            rcases List.mem_cons.1 he with rfl | he
            · exact hsup f List.mem_cons_self
            · exact h2 e he

omit [Crates] in
theorem groupOpsByZone_ok {zones : List ZoneName} {ops : List PendingOp}
    {grouped : List (ZoneName × ZoneOps)} (hops : ∀ p ∈ ops, p.op.recordType ∈ externalDnsRecordTypes)
    (h : groupOpsByZone zones ops = .ok grouped) : GroupedOk grouped := by
  refine Fallible.foldlM_invariant (I := GroupedOk) h ⟨by simp, by simp⟩ ?_
  intro p hp s s' hs h
  split at h
  · cases h
  · split at h
    · cases h
      exact hs.pushOp (hops p hp)
    · cases h

end Bindizr
