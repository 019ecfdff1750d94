import Bindizr.Reachable

/-! # Reconstructing the past

Undoing the change log above a serial gives back the rows the zone had at that serial
(`run_reconstruct`).  The log since then, read as a journal, leads from the old rows to the
live ones through acceptable record sets (`Evolves.log`), in which no two rows have one match
key; so every addition finds the row it added, and taking a row away by its key takes away
that row. -/

namespace Bindizr

open Journal (Run)

/-! ### Match keys -/

theorem matchKey_eq_iff {r s : RecordData} :
    r.matchKey = s.matchKey ↔ r.name = s.name ∧ r.recordType = s.recordType ∧ r.canonical = s.canonical := by
  simp only [RecordData.matchKey, Prod.mk.injEq]
  refine and_congr_left fun _ => ⟨fun e => ?_, fun e => by rw [e]⟩
  have := OwnerName.fromRow_toStored r.name
  rw [e, OwnerName.fromRow_toStored] at this
  exact OwnerName.ext this.symm

theorem Acceptable.matchKey_nodup {s : Multiset RecordData} (h : Acceptable s) :
    (s.map RecordData.matchKey).Nodup := by
  induction s using Quotient.inductionOn with
  | h l =>
      obtain ⟨_, hpair⟩ := acceptable_coe.1 h
      refine Multiset.coe_nodup.2 (List.pairwise_map.2 (hpair.imp fun {a b} hc e => ?_))
      obtain ⟨hn, ht⟩ := matchKey_eq_iff.1 e
      exact (hc hn).1 ht

/-! ### Undoing the change log -/

theorem recordLog_cons (c : ZoneChange) (cs : List ZoneChange) :
    recordLog (c :: cs) = c.entry.toList ++ recordLog cs := by
  cases h : c.entry <;> simp [recordLog, h]

theorem foldl_undoChange {cs : List ZoneChange} {l l' : List RecordData}
    (h : Journal.undoAll RecordData.matchKey (recordLog cs) l = some l') :
    cs.reverse.foldl undoChange l = l' := by
  induction cs generalizing l' with
  | nil =>
      cases h
      rfl
  | cons c cs ih =>
      rw [recordLog_cons, Journal.undoAll_append] at h
      obtain ⟨l₁, h₁, h⟩ := Option.bind_eq_some_iff.1 h
      rw [List.reverse_cons, List.foldl_append, ih h₁, List.foldl_cons, List.foldl_nil]
      rw [ZoneChange.entry] at h
      unfold undoChange
      split at h
      · rename_i hsoa
        cases h
        rw [if_pos hsoa]
      · rename_i hsoa
        rw [if_neg hsoa]
        cases hop : c.operation with
        | add =>
            simp only [hop, Option.toList_some, Journal.undoAll_cons] at h
            obtain ⟨⟨q, rest⟩, hq, e⟩ := Option.map_eq_some_iff.1 h
            cases e
            simp [popKey, hq]
        | del =>
            simp only [hop, Option.toList_some, Journal.undoAll_cons] at h
            cases h
            rfl

/-- While log rows are undone, every addition among them finds a row with its key. -/
theorem popKey_of_undoAll {cs done rest : List ZoneChange} {c : ZoneChange} {l l' : List RecordData}
    (h : Journal.undoAll RecordData.matchKey (recordLog cs) l = some l') (hsplit : cs.reverse = done ++ c :: rest)
    (hop : c.operation = .add) (hsoa : c.record.recordType ≠ .soa) :
    (popKey c.record.matchKey (done.foldl undoChange l)).isSome := by
  have hcs : cs = rest.reverse ++ c :: done.reverse := by
    rw [← List.reverse_reverse cs, hsplit]
    simp
  rw [hcs, recordLog_append, recordLog_cons, Journal.undoAll_append, Journal.undoAll_append] at h
  obtain ⟨l₂, h, _⟩ := Option.bind_eq_some_iff.1 h
  obtain ⟨l₁, h₁, h⟩ := Option.bind_eq_some_iff.1 h
  have hdone := foldl_undoChange h₁
  rw [List.reverse_reverse] at hdone
  rw [hdone]
  simp only [ZoneChange.entry, if_neg hsoa, hop, Option.toList_some, Journal.undoAll_cons] at h
  obtain ⟨q, hq, _⟩ := Option.map_eq_some_iff.1 h
  simp [popKey, hq]

/-! ### The log since a past state -/

/-- What a zone logged since a past state: entries above the serial it had then, that lead from
the rows it had to the rows it has. -/
theorem Evolves.log {st₀ st : ZoneStore} (h : Evolves st₀ st) (h₀ : StoreOk st₀) :
    ∃ log, st.changes = st₀.changes ++ log ∧ (∀ c ∈ log, st₀.zone.serial < c.serial) ∧
      Run Acceptable (recordLog log) st₀.rows st.rows := by
  induction h with
  | refl => exact ⟨[], by simp, by simp, .nil h₀.rows⟩
  | @tail st₁ st h₁ ha ih =>
      obtain ⟨log, hlog, hlt, hrun⟩ := ih
      obtain ⟨cs, ha⟩ := ha
      refine ⟨log ++ cs, by rw [ha.changes, hlog, List.append_assoc], ?_, ?_⟩
      · intro c hc
        rcases List.mem_append.1 hc with hc | hc
        · exact hlt c hc
        · have h1 := ha.serials c hc
          have h2 := ha.serial
          have h3 := Evolves.serial_le h₁
          omega
      · rw [recordLog_append]
        exact hrun.append ha.run

theorem changesBetween_eq {st₀ st : ZoneStore} {log : List ZoneChange} (h₀ : StoreOk st₀) (h : StoreOk st)
    (hlog : st.changes = st₀.changes ++ log) (hlt : ∀ c ∈ log, st₀.zone.serial < c.serial) :
    st.changesBetween st₀.zone.serial st.zone.serial = log := by
  have hfilter : (st.changes.filter fun c => decide (st₀.zone.serial < c.serial) &&
      decide (c.serial ≤ st.zone.serial)) = log := by
    rw [hlog, List.filter_append, List.filter_eq_nil_iff.2, List.filter_eq_self.2, List.nil_append]
    · intro c hc
      have := h.changesLe c (by rw [hlog]; exact List.mem_append_right _ hc)
      simp [hlt c hc, this]
    · intro c hc
      have := h₀.changesLe c hc
      simp only [Bool.and_eq_true, decide_eq_true_eq, not_and]
      omega
  rw [ZoneStore.changesBetween, hfilter]
  refine List.mergeSort_of_pairwise ?_
  have hsorted := List.pairwise_map.1 h.sorted
  rw [hlog] at hsorted
  exact (List.pairwise_append.1 hsorted).2.1.imp fun h => by simpa using h

/-- Undoing the log since a past state gives back its rows. -/
theorem undoAll_changesBetween {st₀ st : ZoneStore} (hev : Evolves st₀ st) (h₀ : StoreOk st₀) (h : StoreOk st) :
    ∃ l, Journal.undoAll RecordData.matchKey (recordLog (st.changesBetween st₀.zone.serial st.zone.serial))
      st.liveRecords = some l ∧ l.Perm st₀.liveRecords := by
  obtain ⟨log, hlog, hlt, hrun⟩ := hev.log h₀
  obtain ⟨l, hl, e⟩ := hrun.undoAll (fun _ => Acceptable.matchKey_nodup) st.liveRecords rfl
  rw [changesBetween_eq h₀ h hlog hlt]
  exact ⟨l, hl, Multiset.coe_eq_coe.1 e⟩

theorem reconstructRecordsAtSerial_perm {st₀ st : ZoneStore} (hev : Evolves st₀ st) (h₀ : StoreOk st₀)
    (h : StoreOk st) :
    (st.reconstructRecordsAtSerial st₀.zone.serial st.zone.serial).Perm st₀.liveRecords := by
  obtain ⟨l, hl, hperm⟩ := undoAll_changesBetween hev h₀ h
  rw [ZoneStore.reconstructRecordsAtSerial, foldl_undoChange hl, sortRecords]
  exact (List.mergeSort_perm _ _).trans hperm

/-! ### Every reachable zone -/

section Runs

variable [Crates]

/-- `st₀` is what the zone of `st`, reached by `ops`, was while its serial was `serial`. -/
def HeldAt (ops : List Op) (st : ZoneStore) (serial : ℤ) (st₀ : ZoneStore) : Prop :=
  ∃ pre, pre <+: ops ∧ st₀ ∈ (run pre).stores ∧ st₀.zone.id = st.zone.id ∧ st₀.zone.serial = serial

/-- **Reconstruction is exact.**  For every snapshot of a reachable zone the reconstruction at
its serial gives the rows the zone had at that serial, and undoing the log never meets an
addition it finds no row for. -/
theorem run_reconstruct (ops : List Op) {st : ZoneStore} (hst : st ∈ (run ops).stores) {sn : ZoneSnapshot}
    (hsn : sn ∈ st.snapshots) :
    (∃ st₀, HeldAt ops st sn.serial st₀) ∧
      ∀ st₀, HeldAt ops st sn.serial st₀ →
        (st.reconstructRecordsAtSerial sn.serial st.zone.serial).Perm st₀.liveRecords ∧
        ∀ done c rest, (st.changesBetween sn.serial st.zone.serial).reverse = done ++ c :: rest →
          c.operation = .add → c.record.recordType ≠ .soa →
            (popKey c.record.matchKey (done.foldl undoChange st.liveRecords)).isSome := by
  constructor
  · obtain ⟨pre, hpre, st₀, hst₀, hid, hserial, _⟩ := run_snapshot hst hsn
    exact ⟨st₀, pre, hpre, hst₀, hid, hserial⟩
  · rintro st₀ ⟨pre, hpre, hst₀, hid, hserial⟩
    have hev := run_evolves hpre hst₀ hst hid
    have h₀ := (run_ok pre).store st₀ hst₀
    have h := (run_ok ops).store st hst
    rw [← hserial]
    refine ⟨reconstructRecordsAtSerial_perm hev h₀ h, fun done c rest hsplit hop hsoa => ?_⟩
    obtain ⟨l, hl, _⟩ := undoAll_changesBetween hev h₀ h
    exact popKey_of_undoAll hl hsplit hop hsoa

end Runs

/-- The sample zone before it had an address. -/
theorem run_reconstruct_sample :
    ∃ st ∈ (@run sampleCrates sampleHistory).stores, ∃ sn ∈ st.snapshots, sn.serial < st.zone.serial ∧
      ∃ st₀, @HeldAt sampleCrates sampleHistory st sn.serial st₀ ∧
        (st.reconstructRecordsAtSerial sn.serial st.zone.serial).Perm st₀.liveRecords := by
  obtain ⟨st, hst, sn, hsn, hlt⟩ : ∃ st ∈ (@run sampleCrates sampleHistory).stores, ∃ sn ∈ st.snapshots,
      sn.serial < st.zone.serial := by decide +kernel
  obtain ⟨⟨st₀, hheld⟩, hall⟩ := @run_reconstruct sampleCrates sampleHistory st hst sn hsn
  exact ⟨st, hst, sn, hsn, hlt, st₀, hheld, (hall st₀ hheld).1⟩

end Bindizr
