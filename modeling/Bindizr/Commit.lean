import Bindizr.WellFormed
import Bindizr.History

/-! # What one transaction writes

Every write path changes rows in the same few ways: it inserts rows, deletes rows or replaces
one, and appends the same rows to the change log under the new serial.  `Writes n cs tx tx'`
says so once: the log grew by `cs`, all of it under the serial `n`, and `cs` read as a journal
leads from the old rows to the new ones through acceptable record sets.  Writes compose, so
that an operation of many steps is one `Writes`.

A transaction that commits also moves the zone to the new serial and saves a snapshot
(`Advances cs st st'`); `StoreOk` is what such steps keep true of a zone's rows, log and
snapshots (`StoreOk.advances`). -/

namespace Bindizr

open Journal (Run)

/-! ### Rows and logs -/

/-- The zone's rows, whatever their order. -/
def ZoneStore.rows (st : ZoneStore) : Multiset RecordData := ↑st.liveRecords

/-- The journal entry of a change-log row; the rows that log a change of the SOA have none. -/
def ZoneChange.entry (c : ZoneChange) : Option (Journal.Change RecordData) :=
  if c.record.recordType = .soa then none
  else
    match c.operation with
    | .add => some (.add c.record)
    | .del => some (.del c.record)

/-- The journal of a change log. -/
def recordLog (cs : List ZoneChange) : List (Journal.Change RecordData) :=
  cs.filterMap ZoneChange.entry

theorem recordLog_append (cs cs' : List ZoneChange) :
    recordLog (cs ++ cs') = recordLog cs ++ recordLog cs' := by
  simp [recordLog]

theorem recordLog_soa {cs : List ZoneChange} (h : ∀ c ∈ cs, c.record.recordType = .soa) :
    recordLog cs = [] := by
  rw [recordLog, List.filterMap_eq_nil_iff]
  intro c hc
  simp [ZoneChange.entry, h c hc]

theorem recordLog_adds {n : ℤ} {rs : List RecordData} (h : ∀ r ∈ rs, r.recordType ≠ .soa) :
    recordLog (Tx.zoneChangesFor n .add rs) = rs.map .add := by
  rw [recordLog, Tx.zoneChangesFor, List.filterMap_map, ← List.filterMap_eq_map]
  exact List.filterMap_congr fun r hr => by simp [ZoneChange.entry, h r hr]

theorem recordLog_dels {n : ℤ} {rs : List RecordData} (h : ∀ r ∈ rs, r.recordType ≠ .soa) :
    recordLog (Tx.zoneChangesFor n .del rs) = rs.map .del := by
  rw [recordLog, Tx.zoneChangesFor, List.filterMap_map, ← List.filterMap_eq_map]
  exact List.filterMap_congr fun r hr => by simp [ZoneChange.entry, h r hr]

/-- The ids of a transaction's records: distinct, and below the next one. -/
structure Tx.IdsOk (tx : Tx) : Prop where
  nodup : (tx.store.records.map (·.id)).Nodup
  lt : ∀ r ∈ tx.store.records, r.id < tx.nextRecordId

theorem eq_of_id_eq {records : List Record} (h : (records.map (·.id)).Nodup) {r s : Record}
    (hr : r ∈ records) (hs : s ∈ records) (e : r.id = s.id) : r = s :=
  List.inj_on_of_nodup_map h hr hs e

/-- Taking rows away by their ids takes away exactly those rows. -/
theorem perm_filter_ids {records rs : List Record} (hid : (records.map (·.id)).Nodup)
    (hsub : ∀ r ∈ rs, r ∈ records) (hnd : rs.Nodup) :
    records.Perm (records.filter (·.id ∉ rs.map (·.id)) ++ rs) := by
  have hrec : records.Nodup := List.Nodup.of_map _ hid
  have hmem : ∀ r, r ∈ rs ↔ r ∈ records ∧ r.id ∈ rs.map (·.id) := by
    intro r
    constructor
    · intro hr
      exact ⟨hsub r hr, List.mem_map_of_mem hr⟩
    · rintro ⟨hr, hrid⟩
      obtain ⟨s, hs, e⟩ := List.mem_map.1 hrid
      rwa [eq_of_id_eq hid hr (hsub s hs) e.symm]
  rw [List.perm_ext_iff_of_nodup hrec]
  · intro r
    simp only [List.mem_append, List.mem_filter, decide_eq_true_eq, hmem r]
    tauto
  · refine List.nodup_append.2 ⟨hrec.filter _, hnd, ?_⟩
    rintro r hr s hs rfl
    simp only [List.mem_filter, decide_eq_true_eq] at hr
    exact hr.2 ((hmem r).1 hs).2

theorem numbered_map_toRecordData (n : ℕ) (rs : List RecordData) :
    (Tx.numbered n rs).map (·.toRecordData) = rs := by
  induction rs generalizing n with
  | nil => rfl
  | cons r rs ih => simp [Tx.numbered, ih]

theorem numbered_map_id (n : ℕ) (rs : List RecordData) :
    (Tx.numbered n rs).map (·.id) = List.range' n rs.length := by
  induction rs generalizing n with
  | nil => rfl
  | cons r rs ih => simp [Tx.numbered, ih, List.range'_succ]

/-! ### Writes -/

/-- From `tx` to `tx'` the log grew by `cs` under the serial `n`, and `cs` is the journal of how
the rows changed; every row that came, went or changed is logged. -/
structure Writes (n : ℤ) (cs : List ZoneChange) (tx tx' : Tx) : Prop where
  snapshots : tx'.store.snapshots = tx.store.snapshots
  changes : tx'.store.changes = tx.store.changes ++ cs
  serials : ∀ c ∈ cs, c.serial = n
  run : Run Acceptable (recordLog cs) tx.store.rows tx'.store.rows
  ids : tx'.IdsOk
  next : tx.nextRecordId ≤ tx'.nextRecordId
  logged : ∀ r, ¬ (r ∈ tx.store.records ↔ r ∈ tx'.store.records) → ∃ c ∈ cs, c.record = r.toRecordData

theorem Writes.refl {n : ℤ} {tx : Tx} (h : Acceptable tx.store.rows) (hid : tx.IdsOk) :
    Writes n [] tx tx where
  snapshots := rfl
  changes := by simp
  serials := by simp
  run := .nil h
  ids := hid
  next := le_rfl
  logged := fun r hr => absurd Iff.rfl hr

theorem Writes.trans {n : ℤ} {cs cs' : List ZoneChange} {tx tx' tx'' : Tx} (h : Writes n cs tx tx')
    (h' : Writes n cs' tx' tx'') : Writes n (cs ++ cs') tx tx'' where
  snapshots := h'.snapshots.trans h.snapshots
  changes := by rw [h'.changes, h.changes, List.append_assoc]
  serials := fun c hc => (List.mem_append.1 hc).elim (h.serials c) (h'.serials c)
  run := by
    rw [recordLog_append]
    exact h.run.append h'.run
  ids := h'.ids
  next := h.next.trans h'.next
  logged := fun r hr => by
    by_cases h1 : r ∈ tx.store.records ↔ r ∈ tx'.store.records
    · obtain ⟨c, hc, e⟩ := h'.logged r (by rwa [← h1])
      exact ⟨c, by simp [hc], e⟩
    · obtain ⟨c, hc, e⟩ := h.logged r h1
      exact ⟨c, by simp [hc], e⟩

theorem writes_insert {n : ℤ} {tx : Tx} (rs : List RecordData) (hid : tx.IdsOk)
    (h : Acceptable ↑(tx.store.liveRecords ++ rs)) :
    Writes n (Tx.zoneChangesFor n .add rs) tx (tx.insertRecordsWithChanges n rs) where
  snapshots := rfl
  changes := rfl
  serials := by simp [Tx.zoneChangesFor]
  run := by
    rw [recordLog_adds fun r hr => ((acceptable_coe.1 h).1 r (by simp [hr])).notSoa]
    have e : (tx.insertRecordsWithChanges n rs).store.rows = tx.store.rows + ↑rs := by
      simp [ZoneStore.rows, ZoneStore.liveRecords, Tx.insertRecordsWithChanges, Tx.createRecords,
        Tx.createZoneChanges, numbered_map_toRecordData]
    rw [e]
    exact Journal.run_adds (fun _ _ => Acceptable.mono) rs h
  ids := by
    constructor
    · simp only [Tx.insertRecordsWithChanges, Tx.createRecords, Tx.createZoneChanges, List.map_append,
        numbered_map_id]
      refine List.nodup_append.2 ⟨hid.nodup, List.nodup_range', ?_⟩
      intro a ha b hb
      obtain ⟨r, hr, rfl⟩ := List.mem_map.1 ha
      have := hid.lt r hr
      have := (List.mem_range'_1.1 hb).1
      omega
    · intro r hr
      simp only [Tx.insertRecordsWithChanges, Tx.createRecords, Tx.createZoneChanges] at hr ⊢
      rcases List.mem_append.1 hr with hr | hr
      · have := hid.lt r hr
        omega
      · have := List.mem_map_of_mem (f := (·.id)) hr
        rw [numbered_map_id, List.mem_range'_1] at this
        exact this.2
  next := by simp [Tx.insertRecordsWithChanges, Tx.createRecords, Tx.createZoneChanges]
  logged := fun r hr => by
    simp only [Tx.insertRecordsWithChanges, Tx.createRecords, Tx.createZoneChanges,
      List.mem_append] at hr
    have hnew : r ∈ Tx.numbered tx.nextRecordId rs := by tauto
    have hmem := List.mem_map_of_mem (f := (·.toRecordData)) hnew
    rw [numbered_map_toRecordData] at hmem
    exact ⟨⟨n, .add, r.toRecordData⟩, List.mem_map_of_mem hmem, rfl⟩

theorem writes_delete {n : ℤ} {tx : Tx} (rs : List Record) (hid : tx.IdsOk)
    (h : Acceptable tx.store.rows) (hsub : ∀ r ∈ rs, r ∈ tx.store.records) (hnd : rs.Nodup) :
    Writes n (Tx.zoneChangesFor n .del (rs.map (·.toRecordData))) tx
      (tx.deleteRecordsWithChanges n rs) where
  snapshots := rfl
  changes := rfl
  serials := by simp [Tx.zoneChangesFor]
  run := by
    have hsoa : ∀ r ∈ rs.map (·.toRecordData), r.recordType ≠ .soa := by
      intro r hr
      obtain ⟨r', hr', rfl⟩ := List.mem_map.1 hr
      exact ((acceptable_coe.1 h).1 _ (List.mem_map_of_mem (hsub r' hr'))).notSoa
    rw [recordLog_dels hsoa]
    have e : tx.store.rows = (tx.deleteRecordsWithChanges n rs).store.rows +
        ↑(rs.map (·.toRecordData)) := by
      have := (perm_filter_ids hid.nodup hsub hnd).map (·.toRecordData)
      rw [List.map_append] at this
      exact Multiset.coe_eq_coe.2 this
    rw [e] at h ⊢
    exact Journal.run_dels (fun _ _ => Acceptable.mono) _ h
  ids := ⟨hid.nodup.sublist (List.filter_sublist.map _), fun r hr => hid.lt r (List.mem_of_mem_filter hr)⟩
  next := le_rfl
  logged := fun r hr => by
    simp only [Tx.deleteRecordsWithChanges, Tx.deleteRecords, Tx.createZoneChanges, List.mem_filter,
      decide_eq_true_eq] at hr
    obtain ⟨h1, h2⟩ : r ∈ tx.store.records ∧ r.id ∈ rs.map (·.id) := by tauto
    obtain ⟨s, hs, e⟩ := List.mem_map.1 h2
    obtain rfl := eq_of_id_eq hid.nodup (hsub s hs) h1 e
    exact ⟨⟨n, .del, s.toRecordData⟩, List.mem_map_of_mem (List.mem_map_of_mem hs), rfl⟩

theorem writes_soaChanges {n : ℤ} {tx : Tx} {cs : List ZoneChange} (hid : tx.IdsOk)
    (h : Acceptable tx.store.rows) (hn : ∀ c ∈ cs, c.serial = n)
    (hsoa : ∀ c ∈ cs, c.record.recordType = .soa) : Writes n cs tx (tx.createZoneChanges cs) where
  snapshots := rfl
  changes := rfl
  serials := hn
  run := by
    rw [recordLog_soa hsoa]
    exact .nil h
  ids := ⟨hid.nodup, hid.lt⟩
  next := le_rfl
  logged := fun _ hr => absurd Iff.rfl hr

theorem writes_updateZone {n : ℤ} {tx : Tx} (z : Zone) (hid : tx.IdsOk) (h : Acceptable tx.store.rows) :
    Writes n [] tx (tx.updateZone z) where
  snapshots := rfl
  changes := by simp [Tx.updateZone]
  serials := by simp
  run := .nil h
  ids := ⟨hid.nodup, hid.lt⟩
  next := le_rfl
  logged := fun _ hr => absurd Iff.rfl hr

theorem perm_updateRecord {records : List Record} {existing : Record} (updated : Record)
    (hid : (records.map (·.id)).Nodup) (hex : existing ∈ records) (he : updated.id = existing.id) :
    (records.map fun r => if r.id = updated.id then updated else r).Perm
      (records.filter (·.id ∉ [existing].map (·.id)) ++ [updated]) := by
  obtain ⟨l₁, l₂, rfl⟩ := List.append_of_mem hex
  simp only [List.map_append, List.map_cons, List.nodup_append, List.nodup_cons, List.mem_map,
    List.mem_cons, not_exists, not_and] at hid
  have h1 : ∀ r ∈ l₁, r.id ≠ existing.id := fun r hr => hid.2.2 _ ⟨r, hr, rfl⟩ _ (.inl rfl)
  have h2 : ∀ r ∈ l₂, r.id ≠ existing.id := hid.2.1.1
  have e1 : ∀ l : List Record, (∀ r ∈ l, r.id ≠ existing.id) →
      (l.map fun r => if r.id = updated.id then updated else r) = l ∧
        l.filter (·.id ∉ [existing].map (·.id)) = l := by
    intro l hl
    refine ⟨?_, List.filter_eq_self.2 fun r hr => by simpa using hl r hr⟩
    rw [he]
    exact (List.map_congr_left fun r hr => if_neg (hl r hr)).trans (List.map_id' l)
  rw [List.map_append, List.map_cons, List.filter_append, List.filter_cons_of_neg (by simp),
    (e1 l₁ h1).1, (e1 l₁ h1).2, (e1 l₂ h2).1, (e1 l₂ h2).2, if_pos he.symm, List.append_assoc]
  exact (@List.perm_append_comm _ [updated] _).append_left l₁

theorem writes_updateRecord {n : ℤ} {tx : Tx} {existing : Record} (updated : Record) (hid : tx.IdsOk)
    (hex : existing ∈ tx.store.records) (he : updated.id = existing.id) (h : Acceptable tx.store.rows)
    (hok : RowOk updated.toRecordData)
    (hcomp : ∀ r ∈ tx.store.records, r.id ≠ existing.id →
      Compatible r.toRecordData updated.toRecordData) :
    Writes n (Tx.zoneChangesFor n .del [existing.toRecordData] ++
        Tx.zoneChangesFor n .add [updated.toRecordData]) tx
      ((tx.updateRecord updated).createZoneChanges (Tx.zoneChangesFor n .del [existing.toRecordData] ++
        Tx.zoneChangesFor n .add [updated.toRecordData])) := by
  set rest : List Record := tx.store.records.filter (·.id ∉ [existing].map (·.id)) with hrest
  have hold : tx.store.records.Perm (rest ++ [existing]) :=
    perm_filter_ids hid.nodup (by simpa using hex) (by simp)
  have hnew := perm_updateRecord updated hid.nodup hex he
  have hrestOk : Acceptable ↑(rest.map (·.toRecordData)) :=
    Acceptable.mono (Multiset.coe_le.2 (List.filter_sublist.map _).subperm) h
  have hnewOk : Acceptable (↑(rest.map (·.toRecordData)) + ↑[updated.toRecordData]) := by
    refine acceptable_append.2 ⟨hrestOk, acceptable_singleton.2 hok, ?_⟩
    intro r hr s hs
    obtain ⟨r', hr', rfl⟩ := List.mem_map.1 hr
    obtain rfl := List.mem_singleton.1 hs
    obtain ⟨hmem, hne⟩ := List.mem_filter.1 hr'
    exact hcomp r' hmem (by simpa using hne)
  refine ⟨rfl, rfl, by simp [Tx.zoneChangesFor], ?_, ?_, le_rfl, ?_⟩
  · have hsoa : existing.recordType ≠ .soa :=
      ((acceptable_coe.1 h).1 _ (List.mem_map_of_mem hex)).notSoa
    rw [recordLog_append, recordLog_dels (by simpa using hsoa), recordLog_adds (by simpa using hok.notSoa)]
    have e : tx.store.rows = ↑(rest.map (·.toRecordData)) + ↑[existing.toRecordData] := by
      have := hold.map (·.toRecordData)
      rw [List.map_append] at this
      exact Multiset.coe_eq_coe.2 this
    have e' : ((tx.updateRecord updated).createZoneChanges (Tx.zoneChangesFor n .del
        [existing.toRecordData] ++ Tx.zoneChangesFor n .add [updated.toRecordData])).store.rows =
        ↑(rest.map (·.toRecordData)) + ↑[updated.toRecordData] := by
      have := hnew.map (·.toRecordData)
      rw [List.map_append] at this
      exact Multiset.coe_eq_coe.2 this
    rw [e] at h
    rw [e, e']
    exact (Journal.run_dels (fun _ _ => Acceptable.mono) _ h).append
      (Journal.run_adds (fun _ _ => Acceptable.mono) _ hnewOk)
  · have hids : (tx.store.records.map fun r => if r.id = updated.id then updated else r).map (·.id) =
        tx.store.records.map (·.id) := by
      rw [List.map_map]
      refine List.map_congr_left fun r _ => ?_
      simp only [Function.comp_apply]
      split <;> simp_all
    constructor
    · simpa only [Tx.updateRecord, Tx.createZoneChanges, hids] using hid.nodup
    · intro r hr
      have := List.mem_map_of_mem (f := (·.id)) hr
      simp only [Tx.updateRecord, Tx.createZoneChanges, hids] at this
      obtain ⟨s, hs, es⟩ := List.mem_map.1 this
      rw [← es]
      exact hid.lt s hs
  · intro r hr
    have h1 := hold.mem_iff (a := r)
    have h2 := hnew.mem_iff (a := r)
    simp only [List.mem_append, List.mem_singleton] at h1 h2
    have hcases : r = existing ∨ r = updated := by
      by_contra hno
      rw [not_or] at hno
      refine hr (h1.trans (Iff.trans ?_ h2.symm))
      simp [hno.1, hno.2, hrest]
    rcases hcases with rfl | rfl
    · exact ⟨⟨n, .del, r.toRecordData⟩, by simp [Tx.zoneChangesFor], rfl⟩
    · exact ⟨⟨n, .add, r.toRecordData⟩, by simp [Tx.zoneChangesFor], rfl⟩

/-! ### Commits -/

/-- The snapshot of a zone's row. -/
def Zone.snapshot (z : Zone) : Except Text ZoneSnapshot := do
  let mailbox ← z.soaMailbox
  pure ⟨z.serial, z.primaryNs, mailbox, z.ttl, z.refresh, z.retry, z.expire, z.minimumTtl⟩

/-- An address whose SOA mailbox reads back as the address. -/
def EmailOk (email : Text) : Prop :=
  ∃ mailbox, soaMailboxFromEmail email = .ok mailbox ∧ soaMailboxToEmail mailbox = .ok email

/-- What holds of every zone's rows, log and snapshots: the rows are well formed, the snapshots
are one per serial from the first to the current one, the last is of the current row, and the
log is in the order of serials. -/
structure StoreOk (st : ZoneStore) : Prop where
  rows : Acceptable st.rows
  primaryNs : ∃ r ∈ st.liveRecords, st.zone.isPrimaryNs r = true
  email : EmailOk st.zone.adminEmail
  bound : st.zone.serial ≤ i32Max
  snapshots : ∃ (first : ℤ) (k : ℕ), 1 ≤ first ∧ st.zone.serial = first + k ∧
    st.snapshots.map (·.serial) = (List.range (k + 1)).map fun i : ℕ => first + i
  current : ∃ sn, st.zone.snapshot = .ok sn ∧ st.snapshots.getLast? = some sn
  mailboxes : ∀ sn ∈ st.snapshots, ∃ email, soaMailboxFromEmail email = .ok sn.adminEmail ∧
    soaMailboxToEmail sn.adminEmail = .ok email
  sorted : (st.changes.map (·.serial)).Pairwise (· ≤ ·)
  changesLe : ∀ c ∈ st.changes, c.serial ≤ st.zone.serial

/-- One committed transaction on a zone, that logged `cs`. -/
structure Advances (cs : List ZoneChange) (st st' : ZoneStore) : Prop where
  id : st'.zone.id = st.zone.id
  serial : st'.zone.serial = st.zone.serial + 1
  bound : st'.zone.serial ≤ i32Max
  snapshots : ∃ sn, st'.zone.snapshot = .ok sn ∧ st'.snapshots = st.snapshots ++ [sn]
  changes : st'.changes = st.changes ++ cs
  serials : ∀ c ∈ cs, c.serial = st'.zone.serial
  run : Run Acceptable (recordLog cs) st.rows st'.rows
  primaryNs : ∃ r ∈ st'.liveRecords, st'.zone.isPrimaryNs r = true
  email : EmailOk st'.zone.adminEmail
  logged : ∀ r, ¬ (r ∈ st.records ↔ r ∈ st'.records) → ∃ c ∈ cs, c.record = r.toRecordData

theorem StoreOk.snapshot_le {st : ZoneStore} (h : StoreOk st) {sn : ZoneSnapshot}
    (hsn : sn ∈ st.snapshots) : 1 ≤ sn.serial ∧ sn.serial ≤ st.zone.serial := by
  obtain ⟨first, k, h1, h2, h3⟩ := h.snapshots
  have hmem := List.mem_map_of_mem (f := (·.serial)) hsn
  rw [h3, List.mem_map] at hmem
  obtain ⟨i, hi, e⟩ := hmem
  have := List.mem_range.1 hi
  omega

/-- **The step lemma.**  A committed transaction keeps what holds of every zone. -/
theorem StoreOk.advances {cs : List ZoneChange} {st st' : ZoneStore} (h : StoreOk st)
    (ha : Advances cs st st') : StoreOk st' := by
  obtain ⟨sn, hsn, hsns⟩ := ha.snapshots
  obtain ⟨hserial, hmail⟩ : sn.serial = st'.zone.serial ∧ st'.zone.soaMailbox = .ok sn.adminEmail := by
    obtain ⟨m, hm, e⟩ := Fallible.bind_eq_ok.1 hsn
    cases e
    exact ⟨rfl, hm⟩
  refine ⟨ha.run.ok_end, ha.primaryNs, ha.email, ha.bound, ?_, ⟨sn, hsn, by simp [hsns]⟩, ?_, ?_, ?_⟩
  · obtain ⟨first, k, h1, h2, h3⟩ := h.snapshots
    refine ⟨first, k + 1, h1, by rw [ha.serial, h2]; push_cast; omega, ?_⟩
    rw [hsns, List.map_append, h3, List.range_succ (n := k + 1), List.map_append, List.map_singleton,
      List.map_singleton, hserial, ha.serial, h2]
    simp [add_assoc]
  · intro sn' hsn'
    rw [hsns] at hsn'
    rcases List.mem_append.1 hsn' with hsn' | hsn'
    · exact h.mailboxes sn' hsn'
    · obtain rfl := List.mem_singleton.1 hsn'
      obtain ⟨m, hm, hback⟩ := ha.email
      obtain rfl : m = sn'.adminEmail := by
        rw [Zone.soaMailbox, hm] at hmail
        exact Except.ok.inj hmail
      exact ⟨_, hm, hback⟩
  · rw [ha.changes, List.map_append, List.pairwise_append]
    refine ⟨h.sorted, ?_, ?_⟩
    · refine List.pairwise_of_forall_mem_list ?_
      intro a ha' b hb'
      obtain ⟨c, hc, rfl⟩ := List.mem_map.1 ha'
      obtain ⟨d, hd, rfl⟩ := List.mem_map.1 hb'
      rw [ha.serials c hc, ha.serials d hd]
    · intro a ha' b hb'
      obtain ⟨c, hc, rfl⟩ := List.mem_map.1 ha'
      obtain ⟨d, hd, rfl⟩ := List.mem_map.1 hb'
      have := h.changesLe c hc
      rw [ha.serials d hd, ha.serial]
      omega
  · intro c hc
    rw [ha.changes] at hc
    rcases List.mem_append.1 hc with hc | hc
    · have := h.changesLe c hc
      have := ha.serial
      omega
    · exact (ha.serials c hc).le

/-- What a transaction finds when it locks a zone. -/
structure TxOk (tx : Tx) : Prop where
  store : StoreOk tx.store
  ids : tx.IdsOk

/-- A transaction that commits: the zone advances, and the ids stay in order. -/
structure Commits (cs : List ZoneChange) (tx tx' : Tx) : Prop where
  advances : Advances cs tx.store tx'.store
  ids : tx'.IdsOk
  next : tx.nextRecordId ≤ tx'.nextRecordId

theorem generateSerial_eq_ok {s n : ℤ} : generateSerial s = .ok n ↔ s ≠ i32Max ∧ n = s + 1 := by
  unfold generateSerial
  split
  · simp [*]
  · simp [*, eq_comm]

theorem saveSnapshot_eq_ok {tx tx' : Tx} {z : Zone} {n : ℤ} (hnew : ∀ sn ∈ tx.store.snapshots, sn.serial ≠ n)
    (h : tx.saveSnapshot z n = .ok tx') :
    ∃ sn, ({ z with serial := n } : Zone).snapshot = .ok sn ∧
      tx' = { tx with store := { tx.store with snapshots := tx.store.snapshots ++ [sn] } } := by
  obtain ⟨m, hm, h⟩ := Fallible.bind_eq_ok.1 h
  cases h
  have hnone : (tx.store.snapshots.any fun s => s.serial == n) = false := by
    rw [List.any_eq_false]
    intro s hs
    simpa using hnew s hs
  refine ⟨⟨n, z.primaryNs, m, z.ttl, z.refresh, z.retry, z.expire, z.minimumTtl⟩, ?_, ?_⟩
  · simp only [Zone.snapshot, Zone.soaMailbox] at hm ⊢
    rw [Fallible.mapError_eq_ok.1 hm]
    rfl
  · simp [Tx.upsertSnapshot, hnone]

theorem Writes.commits {n : ℤ} {cs : List ZoneChange} {tx tx₁ tx' : Tx} {z : Zone} (hok : TxOk tx)
    (hn : generateSerial tx.store.zone.serial = .ok n) (hw : Writes n cs tx tx₁)
    (hid : tx₁.store.zone.id = tx.store.zone.id) (hz : ({ z with serial := n } : Zone) = tx₁.store.zone)
    (hsave : tx₁.saveSnapshot z n = .ok tx')
    (hns : ∃ r ∈ tx₁.store.liveRecords, tx₁.store.zone.isPrimaryNs r = true)
    (hemail : EmailOk tx₁.store.zone.adminEmail) :
    Commits cs tx tx' ∧ tx'.store.zone = tx₁.store.zone ∧ tx'.store.records = tx₁.store.records := by
  obtain ⟨hmax, rfl⟩ := generateSerial_eq_ok.1 hn
  have hnew : ∀ sn ∈ tx₁.store.snapshots, sn.serial ≠ tx.store.zone.serial + 1 := by
    intro sn hsn
    rw [hw.snapshots] at hsn
    have := (hok.store.snapshot_le hsn).2
    omega
  obtain ⟨sn, hsn, rfl⟩ := saveSnapshot_eq_ok hnew hsave
  have hserial : tx₁.store.zone.serial = tx.store.zone.serial + 1 := by rw [← hz]
  rw [hz] at hsn
  refine ⟨⟨⟨hid, hserial, ?_, ⟨sn, hsn, ?_⟩, hw.changes, ?_, hw.run, hns, hemail, hw.logged⟩, ?_, hw.next⟩,
    rfl, rfl⟩
  · have := hok.store.bound
    simp only [hserial]
    omega
  · simp [hw.snapshots]
  · intro c hc
    rw [hw.serials c hc]
    exact hserial.symm
  · exact ⟨hw.ids.nodup, hw.ids.lt⟩

/-- A transaction on records that commits: of the zone's row only the serial moves. -/
structure CommitsRecords (cs : List ZoneChange) (tx tx' : Tx) : Prop extends Commits cs tx tx' where
  zone : tx'.store.zone = { tx.store.zone with serial := tx.store.zone.serial + 1 }

theorem Writes.commitsRecords {n : ℤ} {cs : List ZoneChange} {tx tx₁ tx' : Tx} (hok : TxOk tx)
    (hn : generateSerial tx.store.zone.serial = .ok n) (hw : Writes n cs tx tx₁)
    (hzone : tx₁.store.zone = tx.store.zone) (hadv : tx₁.advanceSerial tx.store.zone n = .ok tx')
    (hns : ∃ r ∈ tx₁.store.liveRecords, tx.store.zone.isPrimaryNs r = true) :
    CommitsRecords cs tx tx' ∧ tx'.store.records = tx₁.store.records := by
  have hw' : Writes n cs tx (tx₁.updateZone { tx₁.store.zone with serial := n }) := by
    have := hw.trans (writes_updateZone { tx₁.store.zone with serial := n } hw.ids hw.run.ok_end)
    rwa [List.append_nil] at this
  rw [← hzone] at hns
  obtain ⟨h1, h2, h3⟩ := hw'.commits hok hn (by simp [Tx.updateZone, hzone]) (by simp [Tx.updateZone, hzone])
    hadv hns (by simpa [Tx.updateZone, hzone] using hok.store.email)
  refine ⟨⟨h1, ?_⟩, h3⟩
  rw [h2, (generateSerial_eq_ok.1 hn).2]
  simp [Tx.updateZone, hzone]

@[simp] theorem liveRecords_insertRecordsWithChanges (tx : Tx) (n : ℤ) (rs : List RecordData) :
    (tx.insertRecordsWithChanges n rs).store.liveRecords = tx.store.liveRecords ++ rs := by
  simp [ZoneStore.liveRecords, Tx.insertRecordsWithChanges, Tx.createRecords, Tx.createZoneChanges,
    numbered_map_toRecordData]

/-- The rows a deletion by id leaves. -/
def Tx.survivors (tx : Tx) (dels : List Record) : List Record :=
  tx.store.records.filter (·.id ∉ dels.map (·.id))

theorem liveRecords_deleteRecordsWithChanges (tx : Tx) (n : ℤ) (dels : List Record) :
    (tx.deleteRecordsWithChanges n dels).store.liveRecords =
      (tx.survivors dels).map (·.toRecordData) := rfl

theorem commits_insert {n : ℤ} {tx tx' : Tx} {rs : List RecordData} (hok : TxOk tx)
    (hn : generateSerial tx.store.zone.serial = .ok n) (hacc : Acceptable ↑(tx.store.liveRecords ++ rs))
    (hadv : (tx.insertRecordsWithChanges n rs).advanceSerial tx.store.zone n = .ok tx') :
    CommitsRecords (Tx.zoneChangesFor n .add rs) tx tx' := by
  obtain ⟨r, hr, hns⟩ := hok.store.primaryNs
  exact ((writes_insert _ hok.ids hacc).commitsRecords hok hn rfl hadv ⟨r, by simp [hr], hns⟩).1

theorem commits_replace {n : ℤ} {tx tx' : Tx} {dels : List Record} {adds : List RecordData} (hok : TxOk tx)
    (hn : generateSerial tx.store.zone.serial = .ok n) (hsub : ∀ r ∈ dels, r ∈ tx.store.records)
    (hnd : dels.Nodup) (hacc : Acceptable ↑((tx.survivors dels).map (·.toRecordData) ++ adds))
    (hns : ∃ r ∈ (tx.survivors dels).map (·.toRecordData) ++ adds, tx.store.zone.isPrimaryNs r = true)
    (hadv : ((tx.deleteRecordsWithChanges n dels).insertRecordsWithChanges n adds).advanceSerial
      tx.store.zone n = .ok tx') :
    CommitsRecords (Tx.zoneChangesFor n .del (dels.map (·.toRecordData)) ++ Tx.zoneChangesFor n .add adds)
      tx tx' := by
  have hdel := writes_delete (n := n) _ hok.ids hok.store.rows hsub hnd
  have hins : Writes n (Tx.zoneChangesFor n .add adds) (tx.deleteRecordsWithChanges n dels)
      ((tx.deleteRecordsWithChanges n dels).insertRecordsWithChanges n adds) :=
    writes_insert _ hdel.ids hacc
  refine ((hdel.trans hins).commitsRecords hok hn rfl hadv ?_).1
  simpa only [liveRecords_insertRecordsWithChanges, liveRecords_deleteRecordsWithChanges] using hns

/-- Rows that are not the primary NS can go: the primary NS survives. -/
theorem primaryNs_survives {tx : Tx} (hok : TxOk tx) {dels : List Record}
    (hsub : ∀ r ∈ dels, r ∈ tx.store.records)
    (h : ∀ r ∈ dels, tx.store.zone.isPrimaryNs r.toRecordData = false) :
    ∃ r ∈ (tx.survivors dels).map (·.toRecordData), tx.store.zone.isPrimaryNs r = true := by
  obtain ⟨r, hr, hns⟩ := hok.store.primaryNs
  obtain ⟨r', hr', rfl⟩ := List.mem_map.1 hr
  refine ⟨r'.toRecordData, List.mem_map_of_mem (List.mem_filter.2 ⟨hr', ?_⟩), hns⟩
  simp only [List.mem_map, not_exists, not_and, decide_eq_true_eq]
  intro s hs e
  obtain rfl := eq_of_id_eq hok.ids.nodup (hsub s hs) hr' e
  simp [h s hs] at hns

end Bindizr
