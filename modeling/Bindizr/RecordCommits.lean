import Bindizr.Commit

/-! # The record operations commit

For each record operation of the HTTP API (create, bulk create, update, patch, delete) and for
the zone file import: when its transaction succeeds it either left everything as it was or
committed (`CommitsRecords`), and every row it logged is one the caller was authorized for. -/

namespace Bindizr

/-- The write a row stands for. -/
def RecordData.write (r : RecordData) : RecordWrite := ⟨r.name, some r.recordType⟩

theorem compatible_of_names {rs : List RecordData} {names : List OwnerName}
    (hnames : ∀ c ∈ rs, c.name ∈ names) {r : RecordData}
    (h : r.name ∈ names → ∀ c ∈ rs, Compatible r c) : ∀ c ∈ rs, Compatible r c := by
  intro c hc
  by_cases hr : r.name ∈ names
  · exact h hr c hc
  · exact compatible_of_name_ne fun e => hr (e ▸ hnames c hc)

theorem acceptable_live_append {tx : Tx} (hok : TxOk tx) {rs : List RecordData} (hrs : Acceptable ↑rs)
    (h : ∀ r ∈ tx.store.records, ∀ c ∈ rs, Compatible r.toRecordData c) :
    Acceptable ↑(tx.store.liveRecords ++ rs) := by
  refine acceptable_append.2 ⟨hok.store.rows, hrs, ?_⟩
  intro r hr c hc
  obtain ⟨r', hr', rfl⟩ := List.mem_map.1 hr
  exact h r' hr' c hc

theorem mem_zoneChangesFor {n : ℤ} {op : ChangeOp} {rs : List RecordData} {c : ZoneChange}
    (h : c ∈ Tx.zoneChangesFor n op rs) : c.record ∈ rs := by
  obtain ⟨r, hr, rfl⟩ := List.mem_map.1 h
  exact hr

section Api

variable {caller : Caller} {policies : List ZonePolicy} {tx tx' : Tx}

/-! ### Create -/

theorem createRecordTx_commits {item : RecordItem} {prepared : PreparedRecord} {r : Record} (hok : TxOk tx)
    (h : createRecordTx caller policies item prepared tx = .ok (tx', r)) :
    ∃ cs, CommitsRecords cs tx tx' ∧
      ∀ c ∈ cs, caller.Permits policies tx.store.zone.id c.record.write := by
  obtain ⟨owner, _, h⟩ := Fallible.bind_eq_ok.1 h
  obtain ⟨_, hauth, h⟩ := Fallible.bind_eq_ok.1 h
  obtain ⟨_, hval, h⟩ := Fallible.bind_eq_ok.1 h
  obtain ⟨n, hn, h⟩ := Fallible.bind_eq_ok.1 h
  obtain ⟨tx₁, hadv, h⟩ := Fallible.bind_eq_ok.1 h
  cases h
  obtain ⟨hrow, hcomp⟩ := (validateRecordAddConstraints_filter rfl).1 hval
  refine ⟨_, commits_insert hok hn (acceptable_live_append hok (acceptable_singleton.2 hrow) ?_) hadv, ?_⟩
  · intro r hr c hc
    obtain rfl := List.mem_singleton.1 hc
    exact hcomp r hr
  · intro c hc
    rw [List.mem_singleton.1 (mem_zoneChangesFor hc)]
    exact Caller.permits_of_authorizeRecordWrites hauth (by simp [RecordData.write, PreparedRecord.toData])

/-! ### Bulk create -/

theorem createBulkTx_commits {prepared : List PreparedRecord} {dryRun : Bool} {rs : List Record}
    (hok : TxOk tx) (h : createBulkTx caller policies prepared dryRun tx = .ok (tx', rs)) :
    (dryRun = true ∧ tx' = tx) ∨ (dryRun = false ∧ ∃ cs, CommitsRecords cs tx tx' ∧
      ∀ c ∈ cs, caller.Permits policies tx.store.zone.id c.record.write) := by
  obtain ⟨s, hs, h⟩ := Fallible.bind_eq_ok.1 h
  obtain ⟨hauth, hexisting, hn, hval⟩ := bulkSteps_eq_ok.1 hs
  rw [hexisting] at hval
  split at h
  · rename_i hdry
    cases h
    exact .inl ⟨hdry, rfl⟩
  · rename_i hdry
    obtain ⟨tx₁, hadv, h⟩ := Fallible.bind_eq_ok.1 h
    cases h
    have hwrites : ∀ c ∈ s.toInsert, c.write ∈ bulkWrites tx.store.zone prepared :=
      fun c hc => mem_bulkWrites_of_validateBulk hval hc
    obtain ⟨hacc, hcomp⟩ := validateEach_eq_ok.1 (validateEach_of_validateBulk hval)
    refine .inr ⟨by simpa using hdry, _, commits_insert hok hn (acceptable_live_append hok hacc ?_) hadv,
      ?_⟩
    · intro r hr
      refine compatible_of_names (fun c hc => List.mem_map_of_mem (f := (·.relativeName)) (hwrites c hc))
        fun hname => hcomp r (List.mem_filter.2 ⟨hr, by simpa using hname⟩)
    · intro c hc
      exact Caller.permits_of_authorizeRecordWrites hauth (hwrites _ (mem_zoneChangesFor hc))

/-! ### Update and patch -/

theorem loadRecord_eq_ok {id : ℕ} {r : Record} (h : loadRecord caller id tx = .ok r) :
    r ∈ tx.store.records ∧ r.id = id ∧ caller.zoneVisible tx.store.zone.id = true := by
  unfold loadRecord at h
  split at h
  · cases h
  · rename_i r' hfind
    split at h
    · rename_i hvis
      cases h
      exact ⟨List.mem_of_find?_eq_some hfind, by simpa using List.find?_some hfind, hvis⟩
    · cases h

theorem validateRecordUpdateConstraints_eq_ok {zone : Zone} {rows : List Record} {existing updated : Record}
    (h : validateRecordUpdateConstraints zone rows existing updated = .ok ()) :
    RowOk updated.toRecordData ∧
      (∀ r ∈ rows, r.id ≠ existing.id → Compatible r.toRecordData updated.toRecordData) ∧
      (zone.isPrimaryNs existing.toRecordData = true → zone.isPrimaryNs updated.toRecordData = true) := by
  unfold validateRecordUpdateConstraints at h
  split at h
  · cases h
  · obtain ⟨_, hval, h⟩ := Fallible.bind_eq_ok.1 h
    obtain ⟨hrow, hcomp⟩ := validateRecordAddConstraints_eq_ok.1 hval
    split at h
    · cases h
    · rename_i hns
      refine ⟨hrow, fun r hr hne => hcomp r hr (by simpa using Ne.symm hne), fun he => ?_⟩
      by_contra hu
      exact hns ⟨he, hu⟩

theorem updateLockedTx_commits {id : ℕ} {resolve : ResolveUpdate} {r : Record} (hok : TxOk tx)
    (h : updateLockedTx caller policies id resolve tx = .ok (tx', r)) :
    caller.zoneVisible tx.store.zone.id = true ∧ ∃ cs, CommitsRecords cs tx tx' ∧
      ∀ c ∈ cs, caller.Permits policies tx.store.zone.id c.record.write := by
  obtain ⟨existing, hload, h⟩ := Fallible.bind_eq_ok.1 h
  obtain ⟨resolved, _, h⟩ := Fallible.bind_eq_ok.1 h
  obtain ⟨_, hauth, h⟩ := Fallible.bind_eq_ok.1 h
  obtain ⟨_, hval, h⟩ := Fallible.bind_eq_ok.1 h
  obtain ⟨n, hn, h⟩ := Fallible.bind_eq_ok.1 h
  obtain ⟨tx₁, hadv, h⟩ := Fallible.bind_eq_ok.1 h
  cases h
  obtain ⟨hex, _, hvis⟩ := loadRecord_eq_ok hload
  obtain ⟨hrow, hcomp, hprimary⟩ := validateRecordUpdateConstraints_eq_ok hval
  refine ⟨hvis, _, ((writes_updateRecord { resolved with id := existing.id } hok.ids hex rfl
    hok.store.rows hrow ?_).commitsRecords hok hn rfl hadv ?_).1, ?_⟩
  · intro r hr hne
    by_cases hname : r.name = resolved.name
    · exact hcomp r (List.mem_filter.2 ⟨hr, by simpa using hname⟩) hne
    · exact compatible_of_name_ne hname
  · -- the primary NS is another row, or the row replaced and then also the new one
    obtain ⟨r, hr, hns⟩ := hok.store.primaryNs
    obtain ⟨r', hr', rfl⟩ := List.mem_map.1 hr
    have hnew := perm_updateRecord { resolved with id := existing.id } hok.ids.nodup hex rfl
    by_cases he : r'.id = existing.id
    · obtain rfl := eq_of_id_eq hok.ids.nodup hr' hex he
      exact ⟨resolved, List.mem_map.2 ⟨{ resolved with id := r'.id }, hnew.mem_iff.2 (by simp), rfl⟩,
        hprimary hns⟩
    · exact ⟨r'.toRecordData, List.mem_map_of_mem (hnew.mem_iff.2 (by simp [hr', he])), hns⟩
  · intro c hc
    rcases List.mem_append.1 hc with hc | hc <;>
    · rw [List.mem_singleton.1 (mem_zoneChangesFor hc)]
      exact Caller.permits_of_authorizeRecordWrites hauth (by simp [RecordData.write])

/-! ### Delete -/

theorem validateDeleteConstraints_eq_ok {zone : Zone} {deleting : List RecordData}
    (h : validateDeleteConstraints zone deleting = .ok ()) :
    ∀ r ∈ deleting, zone.isPrimaryNs r = false := by
  unfold validateDeleteConstraints at h
  split at h
  · cases h
  · split at h
    · cases h
    · rename_i hns
      intro r hr
      by_contra hr'
      exact hns (List.any_eq_true.2 ⟨r, hr, by simpa using hr'⟩)

theorem acceptable_survivors (hok : TxOk tx) (dels : List Record) :
    Acceptable ↑((tx.survivors dels).map (·.toRecordData)) :=
  Acceptable.mono (Multiset.coe_le.2 (List.filter_sublist.map _).subperm) hok.store.rows

theorem deleteByIdTx_commits {id : ℕ} (hok : TxOk tx)
    (h : deleteByIdTx caller policies id tx = .ok (tx', ())) :
    caller.zoneVisible tx.store.zone.id = true ∧ ∃ cs, CommitsRecords cs tx tx' ∧
      ∀ c ∈ cs, caller.Permits policies tx.store.zone.id c.record.write := by
  obtain ⟨existing, hload, h⟩ := Fallible.bind_eq_ok.1 h
  obtain ⟨_, hauth, h⟩ := Fallible.bind_eq_ok.1 h
  obtain ⟨n, hn, h⟩ := Fallible.bind_eq_ok.1 h
  obtain ⟨_, hval, h⟩ := Fallible.bind_eq_ok.1 h
  obtain ⟨tx₁, hadv, h⟩ := Fallible.bind_eq_ok.1 h
  cases h
  obtain ⟨hex, _, hvis⟩ := loadRecord_eq_ok hload
  have hsub : ∀ r ∈ [existing], r ∈ tx.store.records := by simpa using hex
  have hns := validateDeleteConstraints_eq_ok hval
  refine ⟨hvis, _, ((writes_delete _ hok.ids hok.store.rows hsub (by simp)).commitsRecords hok hn rfl hadv
    ?_).1, ?_⟩
  · exact primaryNs_survives hok hsub (by simpa using hns)
  · intro c hc
    rw [List.mem_singleton.1 (mem_zoneChangesFor hc)]
    exact Caller.permits_of_authorizeRecordWrites hauth (by simp [RecordData.write])

end Api

/-! ### Import -/

section Import

theorem sameRr_iff {r s : RecordData} :
    r.sameRr s = true ↔ r.name = s.name ∧ r.recordType = s.recordType ∧ r.canonical = s.canonical := by
  rw [RecordData.sameRr, Bool.and_eq_true, beq_iff_eq, sameRdata_iff]

/-- The desired records are distinct resource records. -/
def Distinct (desired : List DesiredRecord) : Prop :=
  desired.Pairwise fun d e => ¬ d.data.sameRr e.data = true

theorem staleRows_subset {mode : ImportMode} {existing : List Record} {d : DesiredRecord} {e : Record}
    (h : e ∈ staleRows mode existing d) : e ∈ existing ∧ e.toRecordData.sameRr d.data = true := by
  unfold staleRows at h
  split at h
  · cases h
  · exact List.mem_filter.1 (List.mem_of_mem_filter h)

theorem impliedDels_subset {mode : ImportMode} {zone : Zone} {desired : List DesiredRecord}
    {existing : List Record} {e : Record} (h : e ∈ impliedDels mode zone desired existing) :
    e ∈ existing ∧ isProtected zone e.toRecordData = false ∧ desiredMatches desired e = false := by
  unfold impliedDels at h
  split at h
  · cases h
  · simpa using List.mem_filter.1 h
  · simp only [List.mem_filter, Bool.and_eq_true, Bool.not_eq_true'] at h
    exact ⟨h.1, h.2.1.2, h.2.2⟩

theorem impliedDels_sublist (mode : ImportMode) (zone : Zone) (desired : List DesiredRecord)
    (existing : List Record) : (impliedDels mode zone desired existing).Sublist existing := by
  unfold impliedDels
  split
  · exact List.nil_sublist _
  · exact List.filter_sublist
  · exact List.filter_sublist

/-- No row is deleted twice: a stale row matches the one desired record that replaces it, and
no other deleted row matches any. -/
theorem reconcile_nodup {mode : ImportMode} {zone : Zone} {desired : List DesiredRecord}
    {existing : List Record} (hd : Distinct desired) (he : existing.Nodup) :
    ((reconcile mode zone desired existing).dels ++
      (reconcile mode zone desired existing).ttlDels).Nodup := by
  refine List.nodup_append.2 ⟨he.sublist (impliedDels_sublist _ _ _ _), ?_, ?_⟩
  · refine List.nodup_flatMap.2 ⟨fun d _ => ?_, hd.imp fun {d d'} hne => ?_⟩
    · unfold staleRows presentRows
      split
      · exact List.nodup_nil
      · exact (he.filter _).filter _
    · intro e h1 h2
      obtain ⟨_, h1⟩ := staleRows_subset h1
      obtain ⟨_, h2⟩ := staleRows_subset h2
      rw [sameRr_iff] at h1 h2 hne
      exact hne ⟨h1.1.symm.trans h2.1, h1.2.1.symm.trans h2.2.1, h1.2.2.symm.trans h2.2.2⟩
  · rintro a ha b hb rfl
    obtain ⟨d, hd, hb⟩ := List.mem_flatMap.1 hb
    have h1 := (impliedDels_subset ha).2.2
    have h2 : desiredMatches desired a = true :=
      List.any_eq_true.2 ⟨d, hd, (staleRows_subset hb).2⟩
    simp [h1] at h2

theorem isPrimaryNs_of_not_isProtected {zone : Zone} {r : RecordData} (h : isProtected zone r = false) :
    zone.isPrimaryNs r = false := by
  unfold isProtected at h
  split at h
  · rename_i hv
    exact validateDeleteConstraints_eq_ok hv r (by simp)
  · cases h

theorem normalizeStep_distinct [Crates] {zone : Zone} {n n' : Normalized} {r : ParsedRecord}
    (hn : Distinct n.desired) (h : normalizeStep zone n r = .ok n') : Distinct n'.desired := by
  unfold normalizeStep at h
  split at h
  · cases h
    exact hn
  · split at h
    · split at h
      · cases h
        exact hn
      · cases h
    · simp only at h
      split at h
      · split at h <;> cases h <;> exact hn
      · rename_i hfind
        cases h
        refine List.pairwise_append.2 ⟨hn, List.pairwise_singleton _ _, ?_⟩
        intro d hd e he
        obtain rfl := List.mem_singleton.1 he
        exact List.find?_eq_none.1 hfind d hd

theorem normalizeParsed_distinct [Crates] {zone : Zone} {records : List ParsedRecord} {errors : List Text}
    {n : Normalized} (h : normalizeParsed zone records errors = .ok n) : Distinct n.desired :=
  Fallible.foldlM_invariant (I := fun n : Normalized => Distinct n.desired) h List.Pairwise.nil
    fun _ _ _ _ hs h => normalizeStep_distinct hs h

theorem loadExisting_sublist (mode : ImportMode) (desired : List DesiredRecord) (tx : Tx) :
    (loadExisting mode desired tx).Sublist tx.store.records := by
  unfold loadExisting
  split
  · exact List.filter_sublist
  · exact List.Sublist.refl _
  · exact List.Sublist.refl _

/-- The rows an import loads are all those at the owners it adds to. -/
theorem mem_loadExisting {mode : ImportMode} {desired : List DesiredRecord} {tx : Tx} {r : Record}
    (hr : r ∈ tx.store.records) (hname : r.name ∈ desired.map (·.data.name)) :
    r ∈ loadExisting mode desired tx := by
  unfold loadExisting
  split
  · exact List.mem_filter.2 ⟨hr, by simpa using hname⟩
  · exact hr
  · exact hr

theorem applyImport_commits {mode : ImportMode} {desired : List DesiredRecord} {tx tx' : Tx} (hok : TxOk tx)
    (hd : Distinct desired)
    (hval : validateAdds ((loadExisting mode desired tx).filter (·.id ∉
      ((reconcile mode tx.store.zone desired (loadExisting mode desired tx)).dels ++
        (reconcile mode tx.store.zone desired (loadExisting mode desired tx)).ttlDels).map (·.id)))
      (reconcile mode tx.store.zone desired (loadExisting mode desired tx)).adds = .ok [])
    (hchanges : (reconcile mode tx.store.zone desired (loadExisting mode desired tx)).hasChanges = true)
    (h : applyImport (reconcile mode tx.store.zone desired (loadExisting mode desired tx)) tx = .ok tx') :
    ∃ cs, cs ≠ [] ∧ CommitsRecords cs tx tx' := by
  obtain ⟨n, hn, hadv⟩ := Fallible.bind_eq_ok.1 h
  have hsubl := loadExisting_sublist mode desired tx
  set existing := loadExisting mode desired tx with hexisting
  set r := reconcile mode tx.store.zone desired existing with hr
  have hsub : ∀ e ∈ r.dels ++ r.ttlDels, e ∈ tx.store.records := by
    intro e he
    rcases List.mem_append.1 he with he | he
    · exact hsubl.subset (impliedDels_subset he).1
    · obtain ⟨d, _, he⟩ := List.mem_flatMap.1 he
      exact hsubl.subset (staleRows_subset he).1
  obtain ⟨hadds, hcomp⟩ := validateEach_eq_ok.1 (validateEach_of_validateAdds hval)
  have hnames : ∀ c ∈ r.adds.map (·.data), c.name ∈ desired.map (·.data.name) := by
    intro c hc
    obtain ⟨d, hd, rfl⟩ := List.mem_map.1 hc
    exact List.mem_map_of_mem (f := (·.data.name)) (List.mem_of_mem_filter hd)
  have hacc : Acceptable ↑((tx.survivors (r.dels ++ r.ttlDels)).map (·.toRecordData) ++
      r.adds.map (·.data)) := by
    refine acceptable_append.2 ⟨acceptable_survivors hok _, hadds, ?_⟩
    intro x hx
    obtain ⟨e, he, rfl⟩ := List.mem_map.1 hx
    obtain ⟨he, hid⟩ := List.mem_filter.1 he
    exact compatible_of_names hnames fun hname =>
      hcomp e (List.mem_filter.2 ⟨mem_loadExisting he hname, hid⟩)
  refine ⟨_, ?_, commits_replace hok hn hsub (reconcile_nodup hd ?_) hacc ?_ hadv⟩
  · intro hnil
    simp only [Tx.zoneChangesFor, List.append_eq_nil_iff, List.map_eq_nil_iff] at hnil
    simp [Reconciled.hasChanges, hnil.1.1, hnil.1.2, hnil.2] at hchanges
  · exact (List.Nodup.of_map _ hok.ids.nodup).sublist hsubl
  · -- the primary NS survives, or is a stale row and added again
    by_cases hstale : ∃ e ∈ r.dels ++ r.ttlDels, tx.store.zone.isPrimaryNs e.toRecordData = true
    · obtain ⟨e, he, hns⟩ := hstale
      rcases List.mem_append.1 he with he | he
      · have := isPrimaryNs_of_not_isProtected (impliedDels_subset he).2.1
        simp [hns] at this
      · obtain ⟨d, hdd, he⟩ := List.mem_flatMap.1 he
        have hadd : d.data ∈ r.adds.map (·.data) :=
          List.mem_map_of_mem (List.mem_filter.2 ⟨hdd, by
            simp [List.isEmpty_eq_false_iff.2 (List.ne_nil_of_mem he)]⟩)
        obtain ⟨hex, hsame⟩ := staleRows_subset he
        rw [sameRr_iff] at hsame
        have hrow := (acceptable_coe.1 hok.store.rows).1 _ (List.mem_map_of_mem (hsubl.subset hex))
        refine ⟨d.data, List.mem_append_right _ hadd, ?_⟩
        rw [((acceptable_coe.1 hadds).1 _ hadd).isPrimaryNs_iff, ← hsame.1, ← hsame.2.1, ← hsame.2.2,
          ← hrow.isPrimaryNs_iff]
        exact hns
    · simp only [not_exists, not_and, Bool.not_eq_true] at hstale
      obtain ⟨x, hx, hns⟩ := primaryNs_survives hok hsub hstale
      exact ⟨x, List.mem_append_left _ hx, hns⟩

theorem importTx_commits [Crates] {request : ImportZoneFileRequest} {tx tx' : Tx}
    {response : ImportZoneFileResponse} (hok : TxOk tx) (h : importTx request tx = .ok (tx', response)) :
    tx' = tx ∨ (request.dryRun = false ∧ ∃ cs, cs ≠ [] ∧ CommitsRecords cs tx tx') := by
  obtain ⟨s, hs, h⟩ := Fallible.bind_eq_ok.1 h
  obtain ⟨n, addErrors, hnorm, rfl, hval⟩ := importSteps_eq_ok.1 hs
  simp only at h
  split at h
  · rename_i hcond
    obtain ⟨tx₁, happly, h⟩ := Fallible.bind_eq_ok.1 h
    cases h
    simp only [Bool.and_eq_true, Bool.not_eq_true', List.isEmpty_iff, List.append_eq_nil_iff] at hcond
    obtain ⟨⟨⟨_, rfl⟩, hdry⟩, hchanges⟩ := hcond
    exact .inr ⟨hdry, applyImport_commits hok (normalizeParsed_distinct hnorm) hval hchanges happly⟩
  · cases h
    exact .inl rfl

end Import

end Bindizr
