import Bindizr.Reconstruction

/-! # Rollback restores the past

A rollback to a snapshot always succeeds, and leaves the rows and the SOA fields the zone had
at that serial (`run_rollback`).  The rows it targets are the rows of that time
(`reconstructRecordsAtSerial_perm`).  Each current row is kept where a target has its rdata and
TTL and is deleted otherwise (`matchTargets_spec`): the only row that could not be deleted is
the apex NS of the restored `primary_ns`, and that one is among the targets.  What is kept and
what is added together are the targets up to canonical rdata, so they pass the validators in
any order. -/

namespace Bindizr

open Journal (Run)

/-! ### Matching current rows with targets -/

/-- Record sets with the same resource records are acceptable together. -/
theorem acceptable_of_rr {l m : List RecordData} (hm : Acceptable ↑m) (hl : ∀ r ∈ l, RowOk r)
    (e : (l.map RecordData.rr).Perm (m.map RecordData.rr)) : Acceptable ↑l := by
  obtain ⟨hrow, hpair⟩ := acceptable_coe.1 hm
  -- compatibility is a relation between resource records
  let C := fun x y : OwnerName × RecordType × Text × ℤ =>
    ∀ a b, RowOk a → RowOk b → a.rr = x → b.rr = y → Compatible a b
  have hC : ∀ {x y}, C x y → C y x := fun h a b ha hb ea eb => compatible_comm.1 (h b a hb ha eb ea)
  have hm' : (m.map RecordData.rr).Pairwise C := by
    refine List.pairwise_map.2 (hpair.imp_of_mem fun {r s} hr hs hc a b ha hb ea eb => ?_)
    rw [ha.compatible_congr (hrow r hr) ea, compatible_comm, hb.compatible_congr (hrow s hs) eb, compatible_comm]
    exact hc
  have hl' := List.pairwise_map.1 ((e.pairwise_iff hC).2 hm')
  exact acceptable_coe.2 ⟨hl, hl'.imp_of_mem fun {r s} hr hs hc => hc r s (hl r hr) (hl s hs) rfl rfl⟩

theorem validateDeleteConstraints_singleton {zone : Zone} {r : RecordData} (hr : RowOk r)
    (hns : zone.isPrimaryNs r = false) : validateDeleteConstraints zone [r] = .ok () := by
  simp [validateDeleteConstraints, hr.notSoa, hns]

theorem popKey_eq_none {key : MatchKey} {rs : List RecordData} (h : popKey key rs = none) :
    ∀ t ∈ rs, t.matchKey ≠ key := by
  intro t ht e
  obtain ⟨q, hq⟩ := Journal.popLast_isSome (p := (·.matchKey = key)) ht (by simpa using e)
  rw [popKey, hq] at h
  cases h

/-- **The matching.**  When every current row that no target matches may be deleted, the rows
that are kept and the rows to add are together the targets, as resource records. -/
theorem matchTargets_spec {restored : Zone} {rs : List Record} {targets : List RecordData}
    (hrow : ∀ r ∈ rs, RowOk r.toRecordData) (hkeys : (rs.map (·.toRecordData.matchKey)).Nodup)
    (hdel : ∀ r ∈ rs, (∀ t ∈ targets, t.matchKey ≠ r.toRecordData.matchKey) →
      validateDeleteConstraints restored [r.toRecordData] = .ok ()) :
    ∃ kept, rs.Perm (kept ++ (matchTargets restored rs targets).1.dels) ∧
      (targets.map RecordData.rr).Perm (kept.map (·.toRecordData.rr) ++
        ((matchTargets restored rs targets).1.toAdd ++ (matchTargets restored rs targets).2).map RecordData.rr) ∧
      ∀ t ∈ (matchTargets restored rs targets).1.toAdd ++ (matchTargets restored rs targets).2, t ∈ targets := by
  induction rs generalizing targets with
  | nil => exact ⟨[], by simp [matchTargets], by simp [matchTargets], by simp [matchTargets]⟩
  | cons r rs ih =>
      obtain ⟨hnew, hkeys⟩ := List.nodup_cons.1 hkeys
      have hother : ∀ s ∈ rs, s.toRecordData.matchKey ≠ r.toRecordData.matchKey :=
        fun s hs e => hnew (List.mem_map.2 ⟨s, hs, e⟩)
      have hrow' : ∀ s ∈ rs, RowOk s.toRecordData := fun s hs => hrow s (List.mem_cons_of_mem _ hs)
      cases hpop : popKey r.toRecordData.matchKey targets with
      | some p =>
          obtain ⟨t, rest⟩ := p
          obtain ⟨hkey, hperm⟩ := Journal.popLast_eq_some hpop
          have hkey : t.matchKey = r.toRecordData.matchKey := by simpa using hkey
          obtain ⟨kept, h1, h2, h3⟩ := @ih rest hrow' hkeys fun s hs hno =>
            hdel s (List.mem_cons_of_mem _ hs) fun t' ht' e => by
              rcases List.mem_cons.1 (hperm.subset ht') with rfl | ht'
              · exact hother s hs (e.symm.trans hkey)
              · exact hno t' ht' e
          have hsub : ∀ t' ∈ rest, t' ∈ targets := fun t' ht' =>
            hperm.symm.subset (List.mem_cons_of_mem _ ht')
          have ht : t ∈ targets := hperm.symm.subset List.mem_cons_self
          by_cases httl : r.ttl ≠ t.ttl ∧ r.recordType ≠ .soa
          · simp only [matchTargets, hpop, if_pos httl]
            refine ⟨kept, ?_, ?_, ?_⟩
            · exact (h1.cons r).trans List.perm_middle.symm
            · refine (hperm.map _).trans ?_
              rw [List.map_cons, List.cons_append, List.map_cons]
              exact (h2.cons _).trans List.perm_middle.symm
            · intro t' ht'
              rcases List.mem_cons.1 ht' with rfl | ht'
              · exact ht
              · exact hsub t' (h3 t' ht')
          · simp only [matchTargets, hpop, if_neg httl]
            have hrr : t.rr = r.toRecordData.rr := by
              obtain ⟨hn, hty, hc⟩ := matchKey_eq_iff.1 hkey
              have : t.ttl = r.ttl := by
                by_contra hne
                exact httl ⟨fun e => hne e.symm, (hrow r List.mem_cons_self).notSoa⟩
              simp only [RecordData.rr, hn, hty, hc, this]
            refine ⟨r :: kept, h1.cons r, ?_, fun t' ht' => hsub t' (h3 t' ht')⟩
            refine (hperm.map _).trans ?_
            rw [List.map_cons, hrr]
            exact h2.cons _
      | none =>
          have hok := hdel r List.mem_cons_self (popKey_eq_none hpop)
          simp only [matchTargets, hpop, hok]
          obtain ⟨kept, h1, h2, h3⟩ := @ih targets hrow' hkeys fun s hs =>
            hdel s (List.mem_cons_of_mem _ hs)
          exact ⟨kept, (h1.cons r).trans List.perm_middle.symm, h2, h3⟩

theorem RowOk.isPrimaryNs_zone {r : RecordData} (hr : RowOk r) {z z' : Zone} (e : z.primaryNs = z'.primaryNs) :
    z.isPrimaryNs r = z'.isPrimaryNs r := by
  rw [Bool.eq_iff_iff, hr.isPrimaryNs_iff, hr.isPrimaryNs_iff, e]

theorem matchKey_primaryNs {z : Zone} {r s : RecordData} (hr : RowOk r) (hs : RowOk s)
    (hzr : z.isPrimaryNs r = true) (hzs : z.isPrimaryNs s = true) : r.matchKey = s.matchKey := by
  obtain ⟨ht, ha, hc⟩ := (hr.isPrimaryNs_iff z).1 hzr
  obtain ⟨ht', ha', hc'⟩ := (hs.isPrimaryNs_iff z).1 hzs
  refine matchKey_eq_iff.2 ⟨OwnerName.ext ?_, ht.trans ht'.symm, hc.trans hc'.symm⟩
  rw [List.isEmpty_iff.1 ha, List.isEmpty_iff.1 ha']

/-- What a rollback keeps of the current rows and what it adds. -/
structure RollbackPlan.Restores (tx : Tx) (targets : List RecordData) (dels : List Record)
    (adds : List RecordData) : Prop where
  rr : (((tx.survivors dels).map (·.toRecordData) ++ adds).map RecordData.rr).Perm (targets.map RecordData.rr)
  valid : validateEach (tx.survivors dels) adds = .ok ()

/-- **The plan.**  The plan for targets among which is the apex NS of the restored `primary_ns`
restores them, whatever the order of the additions; and it needs no other NS row. -/
theorem matchTargets_restores {tx : Tx} (hok : TxOk tx) {restored : Zone} {targets : List RecordData}
    (htargets : Acceptable ↑targets) (hns : ∃ t ∈ targets, restored.isPrimaryNs t = true) :
    (∀ adds, adds.Perm ((matchTargets restored tx.store.records targets).1.toAdd ++
        (matchTargets restored tx.store.records targets).2) →
      RollbackPlan.Restores tx targets (matchTargets restored tx.store.records targets).1.dels adds) ∧
    ∀ hash, rollbackAdds hash restored tx.store.records (matchTargets restored tx.store.records targets).1
        (matchTargets restored tx.store.records targets).2 =
      (matchTargets restored tx.store.records targets).1.toAdd ++
        hash.order (matchTargets restored tx.store.records targets).2 := by
  obtain ⟨p, hp, hpns⟩ := hns
  have htrow := (acceptable_coe.1 htargets).1
  have hrow : ∀ r ∈ tx.store.records, RowOk r.toRecordData := fun r hr =>
    (acceptable_coe.1 hok.store.rows).1 _ (List.mem_map_of_mem hr)
  have hkeys : (tx.store.records.map (·.toRecordData.matchKey)).Nodup := by
    have := hok.store.rows.matchKey_nodup
    rw [ZoneStore.rows, Multiset.map_coe, Multiset.coe_nodup, ZoneStore.liveRecords, List.map_map] at this
    exact this
  -- a row that may not be deleted has the key of `p`
  have hdel : ∀ r ∈ tx.store.records, (∀ t ∈ targets, t.matchKey ≠ r.toRecordData.matchKey) →
      validateDeleteConstraints restored [r.toRecordData] = .ok () := by
    intro r hr hno
    refine validateDeleteConstraints_singleton (hrow r hr) ?_
    by_contra hrns
    exact hno p hp (matchKey_primaryNs (htrow p hp) (hrow r hr) hpns (by simpa using hrns))
  obtain ⟨kept, hperm, hrr, hsub⟩ := matchTargets_spec hrow hkeys hdel
  have hdels := matchTargets_dels_sublist restored tx.store.records targets
  generalize (matchTargets restored tx.store.records targets).1 = plan at *
  generalize (matchTargets restored tx.store.records targets).2 = left at *
  have hsurvive : (tx.survivors plan.dels).Perm kept := by
    have := (perm_filter_ids hok.ids.nodup (fun r hr => hdels.subset hr)
      ((List.Nodup.of_map _ hok.ids.nodup).sublist hdels)).symm.trans hperm
    exact (List.perm_append_right_iff _).1 this
  have hall : ∀ adds, adds.Perm (plan.toAdd ++ left) → RollbackPlan.Restores tx targets plan.dels adds := by
    intro adds hadds
    have hrr' : (((tx.survivors plan.dels).map (·.toRecordData) ++ adds).map RecordData.rr).Perm
        (targets.map RecordData.rr) := by
      rw [List.map_append, List.map_map]
      exact ((hsurvive.map _).append (hadds.map _)).trans hrr.symm
    have hrows : ∀ r ∈ (tx.survivors plan.dels).map (·.toRecordData) ++ adds, RowOk r := by
      intro r hr
      rcases List.mem_append.1 hr with hr | hr
      · obtain ⟨r', hr', rfl⟩ := List.mem_map.1 hr
        exact hrow r' (List.mem_of_mem_filter hr')
      · exact htrow r (hsub r (hadds.subset hr))
    obtain ⟨_, hacc, hcomp⟩ := acceptable_append.1 (acceptable_of_rr htargets hrows hrr')
    exact ⟨hrr', validateEach_eq_ok.2 ⟨hacc, fun r hr => hcomp _ (List.mem_map_of_mem hr)⟩⟩
  refine ⟨hall, fun hash => ?_⟩
  -- the targets hold an apex NS for `primary_ns`, so what is kept or added does
  have hadds : (plan.toAdd ++ hash.order left).Perm (plan.toAdd ++ left) := (hash.perm left).append_left _
  have hmem : p.rr ∈ ((tx.survivors plan.dels).map (·.toRecordData) ++ (plan.toAdd ++ hash.order left)).map
      RecordData.rr := (hall _ hadds).rr.symm.subset (List.mem_map_of_mem hp)
  obtain ⟨r, hr, e⟩ := List.mem_map.1 hmem
  have hrns : RowOk r → restored.isPrimaryNs r = true := fun hr => by
    rw [isPrimaryNs_congr hr (htrow p hp) e, hpns]
  unfold rollbackAdds
  simp only
  rw [if_pos]
  rcases List.mem_append.1 hr with hr | hr
  · obtain ⟨r', hr', rfl⟩ := List.mem_map.1 hr
    exact Bool.or_eq_true_iff.2 (.inl (List.any_eq_true.2
      ⟨_, hr, hrns (hrow r' (List.mem_of_mem_filter hr'))⟩))
  · exact Bool.or_eq_true_iff.2 (.inr (List.any_eq_true.2
      ⟨_, hr, hrns (htrow r (hsub r (hadds.subset hr)))⟩))

/-! ### The transaction -/

theorem EmailOk.soaChange {z : Zone} (h : EmailOk z.adminEmail) (n : ℤ) (op : ChangeOp) :
    ∃ c, soaChange n op z = .ok c := by
  obtain ⟨m, hm, _⟩ := h
  exact ⟨_, by rw [Bindizr.soaChange, Zone.soaRdata, Zone.soaMailbox, hm]; rfl⟩

theorem EmailOk.saveSnapshot {z : Zone} (h : EmailOk z.adminEmail) (tx : Tx) (n : ℤ) :
    ∃ tx', tx.saveSnapshot z n = .ok tx' := by
  obtain ⟨m, hm, _⟩ := h
  exact ⟨_, by rw [Tx.saveSnapshot, Zone.soaMailbox, hm]; rfl⟩

theorem applyRollback_ok {zone : Zone} (h : EmailOk zone.adminEmail) (restored : Zone)
    (h' : EmailOk restored.adminEmail) (n : ℤ) (dels : List Record) (toAdd : List RecordData) (tx : Tx) :
    ∃ tx', applyRollback zone restored n dels toAdd tx = .ok tx' := by
  obtain ⟨changes, hch⟩ : ∃ changes, rollbackSoaChanges zone restored n = .ok changes := by
    unfold rollbackSoaChanges
    split
    · obtain ⟨del, hdel⟩ := h.soaChange n .del
      obtain ⟨add, hadd⟩ := h'.soaChange n .add
      exact ⟨[del, add], by rw [soaReplacementChanges, hdel, hadd]; rfl⟩
    · exact ⟨_, rfl⟩
  obtain ⟨tx', htx'⟩ := h'.saveSnapshot ((((tx.updateZone restored).createZoneChanges
    changes).deleteRecordsWithChanges n dels).insertRecordsWithChanges n toAdd) n
  exact ⟨tx', by rw [applyRollback, hch]; exact htx'⟩

theorem StoreOk.snapshotBySerial_serial {st : ZoneStore} (h : StoreOk st) {sn : ZoneSnapshot}
    (hsn : sn ∈ st.snapshots) : st.snapshotBySerial sn.serial = some sn := by
  have hnd : (st.snapshots.map (·.serial)).Nodup := by
    obtain ⟨first, k, _, _, e⟩ := h.snapshots
    rw [e]
    exact List.Nodup.map (fun i j hij => by simpa using hij) List.nodup_range
  cases hfind : st.snapshotBySerial sn.serial with
  | none => exact absurd (List.find?_eq_none.1 hfind sn hsn) (by simp)
  | some sn' =>
      obtain ⟨hmem, e⟩ := StoreOk.snapshotBySerial hfind
      rw [List.inj_on_of_nodup_map hnd hmem hsn e]

/-- The zone row a rollback restores is the one the snapshot was taken of. -/
theorem restoredZoneFromSnapshot_snapshot (zone : Zone) {zone₀ : Zone} {sn : ZoneSnapshot} (hid : zone₀.id = zone.id)
    (hemail : EmailOk zone₀.adminEmail) (hsn : zone₀.snapshot = .ok sn) (n : ℤ) :
    restoredZoneFromSnapshot zone sn n = .ok { zone₀ with name := zone.name, serial := n } := by
  obtain ⟨m, hm, e⟩ := Fallible.bind_eq_ok.1 hsn
  cases e
  obtain ⟨m', hm', hto⟩ := hemail
  obtain rfl : m' = m := Except.ok.inj (hm'.symm.trans hm)
  rw [restoredZoneFromSnapshot, hto, hid]
  rfl

/-- What a rollback of the zone `st` to what it was as `st₀` leaves: the row of `st₀` under its
own name and the next serial, and the resource records of `st₀`; the additions pass the
validator in any order. -/
structure Restored (hash : HashOrder) (st st₀ st' : ZoneStore) : Prop where
  zone : st'.zone = { st₀.zone with name := st.zone.name, serial := st.zone.serial + 1 }
  rows : (st'.liveRecords.map RecordData.rr).Perm (st₀.liveRecords.map RecordData.rr)
  anyOrder : ∀ plan left, matchTargets st'.zone st.records
      (st.reconstructRecordsAtSerial st₀.zone.serial st.zone.serial) = (plan, left) →
    ∀ adds, adds.Perm (rollbackAdds hash st'.zone st.records plan left) →
      validateEach (st.records.filter (·.id ∉ plan.dels.map (·.id))) adds = .ok ()

/-- The zone row that a rollback of the zone `st` to what it was as `st₀` restores. -/
def ZoneStore.restoredZone (st st₀ : ZoneStore) : Zone :=
  { st₀.zone with name := st.zone.name, serial := st.zone.serial + 1 }

section Transaction

variable {tx : Tx} (hok : TxOk tx) {st₀ : ZoneStore} (h₀ : StoreOk st₀) (hev : Evolves st₀ tx.store)
  {sn : ZoneSnapshot} (hsn : sn ∈ tx.store.snapshots) (hsn₀ : st₀.zone.snapshot = .ok sn)
  (hserial : st₀.zone.serial = sn.serial) (hlt : sn.serial < tx.store.zone.serial) (hmax : tx.store.zone.serial < i32Max)

include hok h₀ hev hsn hsn₀ hserial hlt hmax

/-- **The steps of a rollback.**  Its plan restores the rows of that time in any order of the additions, and the
transaction does what the plan says. -/
theorem rollbackTx_plan : ∃ plan left,
    matchTargets (tx.store.restoredZone st₀) tx.store.records
      (tx.store.reconstructRecordsAtSerial sn.serial tx.store.zone.serial) = (plan, left) ∧
    (∀ adds, adds.Perm (plan.toAdd ++ left) → RollbackPlan.Restores tx
      (tx.store.reconstructRecordsAtSerial sn.serial tx.store.zone.serial) plan.dels adds) ∧
    (∀ hash, rollbackAdds hash (tx.store.restoredZone st₀) tx.store.records plan left = plan.toAdd ++ hash.order left) ∧
    ∀ hash dryRun, rollbackTx hash sn.serial dryRun tx =
      (if dryRun then .ok tx else applyRollback tx.store.zone (tx.store.restoredZone st₀) (tx.store.zone.serial + 1)
        plan.dels (plan.toAdd ++ hash.order left) tx).map fun tx' => (tx', ⟨!dryRun, dryRun, sn.serial,
          tx.store.zone.serial + 1, (plan.toAdd ++ hash.order left).length, plan.dels.length, plan.unchanged,
          soaMetadataChanged tx.store.zone (tx.store.restoredZone st₀)⟩) := by
  have hperm := reconstructRecordsAtSerial_perm hev h₀ hok.store
  rw [hserial] at hperm
  have hacc : Acceptable ↑(tx.store.reconstructRecordsAtSerial sn.serial tx.store.zone.serial) := by
    rw [Multiset.coe_eq_coe.2 hperm]
    exact h₀.rows
  have hns : ∃ t ∈ tx.store.reconstructRecordsAtSerial sn.serial tx.store.zone.serial,
      (tx.store.restoredZone st₀).isPrimaryNs t = true := by
    obtain ⟨t, ht, htns⟩ := h₀.primaryNs
    have htrow : RowOk t := (acceptable_coe.1 h₀.rows).1 t ht
    refine ⟨t, hperm.symm.subset ht, ?_⟩
    rw [← htns]
    exact htrow.isPrimaryNs_zone rfl
  obtain ⟨hall, hadds⟩ := matchTargets_restores hok hacc hns
  cases hm : matchTargets (tx.store.restoredZone st₀) tx.store.records
      (tx.store.reconstructRecordsAtSerial sn.serial tx.store.zone.serial) with
  | mk plan left =>
      simp only [hm] at hall hadds
      refine ⟨plan, left, rfl, hall, hadds, fun hash dryRun => ?_⟩
      have hn : generateSerial tx.store.zone.serial = .ok (tx.store.zone.serial + 1) :=
        generateSerial_eq_ok.2 ⟨hmax.ne, rfl⟩
      have hres : restoredZoneFromSnapshot tx.store.zone sn (tx.store.zone.serial + 1) =
          .ok (tx.store.restoredZone st₀) :=
        restoredZoneFromSnapshot_snapshot tx.store.zone hev.id.symm h₀.email hsn₀ _
      have hval : validateEach (tx.store.records.filter (·.id ∉ plan.dels.map (·.id))) (plan.toAdd ++ hash.order left) =
          .ok () := (hall _ ((hash.perm left).append_left _)).valid
      have h1 := (hok.store.snapshot_le hsn).1
      unfold rollbackTx
      simp only
      rw [if_neg (by omega), hok.store.snapshotBySerial_serial hsn]
      simp only [hn, Fallible.ok_bind, hres, hm, hadds hash, hval]
      cases dryRun with
      | true => rfl
      | false =>
          cases applyRollback tx.store.zone (tx.store.restoredZone st₀) (tx.store.zone.serial + 1) plan.dels
              (plan.toAdd ++ hash.order left) tx with
          | error e => rfl
          | ok tx' => rfl

theorem rollbackTx_restored (hash : HashOrder) :
    ∃ tx' response, rollbackTx hash sn.serial false tx = .ok (tx', response) ∧
      tx'.store.zone.id = tx.store.zone.id ∧ Restored hash tx.store st₀ tx'.store := by
  obtain ⟨plan, left, hm, hall, hadds, hrun⟩ := rollbackTx_plan hok h₀ hev hsn hsn₀ hserial hlt hmax
  have hperm := reconstructRecordsAtSerial_perm hev h₀ hok.store
  rw [hserial] at hperm
  have hdels := matchTargets_dels_sublist (tx.store.restoredZone st₀) tx.store.records
    (tx.store.reconstructRecordsAtSerial sn.serial tx.store.zone.serial)
  rw [hm] at hdels
  have hrestores := hall (plan.toAdd ++ hash.order left) ((hash.perm left).append_left _)
  obtain ⟨tx', htx'⟩ := applyRollback_ok hok.store.email (tx.store.restoredZone st₀) h₀.email
    (tx.store.zone.serial + 1) plan.dels (plan.toAdd ++ hash.order left) tx
  have hpns := rollbackAdds_primaryNs hash (tx.store.restoredZone st₀) tx.store.records plan left
  rw [hadds] at hpns
  obtain ⟨_, hzone, hlive⟩ := applyRollback_commits hok (generateSerial_eq_ok.2 ⟨hmax.ne, rfl⟩) htx' hev.id.symm rfl
    h₀.email hdels hrestores.valid hpns
  refine ⟨tx', _, by rw [hrun, if_neg Bool.false_ne_true, htx']; rfl, by rw [hzone]; exact hev.id.symm, hzone, ?_, ?_⟩
  · rw [hlive]
    exact hrestores.rr.trans (hperm.map _)
  · intro plan' left' hm' adds hperm'
    rw [hzone, hserial, hm] at hm'
    cases hm'
    rw [hzone, hadds] at hperm'
    exact (hall adds (hperm'.trans ((hash.perm left).append_left _))).valid

end Transaction

/-! ### Every reachable zone -/

section Runs

variable [Crates]

theorem HeldAt.unique {ops : List Op} {st st₀ st₁ : ZoneStore} {s : ℤ} (h₀ : HeldAt ops st s st₀)
    (h₁ : HeldAt ops st s st₁) : st₀ = st₁ := by
  obtain ⟨pre₀, hpre₀, hst₀, hid₀, hs₀⟩ := h₀
  obtain ⟨pre₁, hpre₁, hst₁, hid₁, hs₁⟩ := h₁
  rcases List.prefix_or_prefix_of_prefix hpre₀ hpre₁ with h | h
  · exact ((run_evolves h hst₀ hst₁ (hid₀.trans hid₁.symm)).eq_of_serial_eq (hs₁.trans hs₀.symm)).symm
  · exact (run_evolves h hst₁ hst₀ (hid₁.trans hid₀.symm)).eq_of_serial_eq (hs₀.trans hs₁.symm)

/-- **Rollback restores the past and always works.**  For every reachable zone whose serial can
still advance and every snapshot of an earlier serial, a rollback to it succeeds, whatever the
order of the hash map, and leaves what the zone was at that serial. -/
theorem run_rollback (ops : List Op) {st : ZoneStore} (hst : st ∈ (run ops).stores)
    (hmax : st.zone.serial < i32Max) {sn : ZoneSnapshot} (hsn : sn ∈ st.snapshots)
    (hlt : sn.serial < st.zone.serial) (hash : HashOrder) {zoneName : Text}
    (hname : normalizeZoneName zoneName = .ok st.zone.name) :
    ∃ db' response, rollback (run ops) .global hash zoneName sn.serial false = .ok (db', response) ∧
      ∃ st' ∈ db'.stores, st'.zone.id = st.zone.id ∧
        (∃ st₀, HeldAt ops st sn.serial st₀) ∧
          ∀ st₀, HeldAt ops st sn.serial st₀ → Restored hash st st₀ st' := by
  have hdb := run_ok ops
  obtain ⟨pre, hpre, st₀, hst₀, hid, hserial, hsn₀⟩ := run_snapshot hst hsn
  have hheld : HeldAt ops st sn.serial st₀ := ⟨pre, hpre, hst₀, hid, hserial⟩
  obtain ⟨tx', response, htx', hid', hrestored⟩ := rollbackTx_restored (hdb.txOk hst)
    ((run_ok pre).store st₀ hst₀) (run_evolves hpre hst₀ hst hid) hsn hsn₀ hserial hlt hmax hash
  refine ⟨(run ops).commit tx', response, ?_, tx'.store, (mem_commit hst hid').2 (.inl rfl), hid', ⟨st₀, hheld⟩,
    fun st₁ h₁ => h₁.unique hheld ▸ hrestored⟩
  refine Fallible.bind_eq_ok.2 ⟨(), rfl, Fallible.bind_eq_ok.2 ⟨_, hname, Fallible.bind_eq_ok.2
    ⟨st, hdb.lookupByName_eq hst (normalizeZoneName_text _), Fallible.bind_eq_ok.2 ⟨(tx', response), htx', rfl⟩⟩⟩⟩

end Runs

/-- The sample zone is brought back to what it was before it had an address. -/
theorem run_rollback_sample :
    ∃ st ∈ (@run sampleCrates sampleHistory).stores, ∃ sn ∈ st.snapshots, sn.serial < st.zone.serial ∧
      ∃ db' response, rollback (@run sampleCrates sampleHistory) .global ⟨id, fun _ => .refl _⟩
        (lit "Example.COM.") sn.serial false = .ok (db', response) := by
  obtain ⟨st, hst, hmax, hname, sn, hsn, hlt⟩ : ∃ st ∈ (@run sampleCrates sampleHistory).stores,
      st.zone.serial < i32Max ∧ normalizeZoneName (lit "Example.COM.") = .ok st.zone.name ∧
        ∃ sn ∈ st.snapshots, sn.serial < st.zone.serial := by
    decide +kernel
  obtain ⟨db', response, h, _⟩ :=
    @run_rollback sampleCrates sampleHistory st hst hmax sn hsn hlt ⟨id, fun _ => .refl _⟩ _ hname
  exact ⟨st, hst, sn, hsn, hlt, db', response, h⟩

end Bindizr
