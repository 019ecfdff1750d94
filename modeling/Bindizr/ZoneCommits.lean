import Bindizr.RecordCommits

/-! # The zone operations commit

Creation gives a zone that satisfies `StoreOk`; update, patch, forced bump and rollback are
commits.  A zone update keeps an apex NS for the `primary_ns` it writes, at the TTL of the NS
rows there are; a rollback passes its additions through the validators, and adds the apex NS
the restored `primary_ns` needs when neither a surviving nor an added row is one. -/

namespace Bindizr

/-! ### Requests -/

theorem validateEmailLocalPart_eq_ok {localPart : Text} (h : validateEmailLocalPart localPart = .ok ()) :
    localPart ≠ [] ∧ ∀ c ∈ localPart, isValidEmailLocalChar c = true := by
  unfold validateEmailLocalPart at h
  split at h
  · cases h
  rename_i hne
  split at h
  · cases h
  split at h
  · cases h
  split at h
  · cases h
  · rename_i hall
    exact ⟨hne, List.all_eq_true.1 (by simpa using hall)⟩

theorem normalizeEmail_eq_ok {value email : Text} (h : normalizeEmail value = .ok email) :
    ∃ (localPart : Text) (domain : ZoneName), email = localPart ++ ['@'] ++ domain.text ∧ localPart ≠ [] ∧
      '@' ∉ localPart ∧ ∀ c ∈ localPart, isValidEmailLocalChar c = true := by
  unfold normalizeEmail at h
  split at h
  · cases h
  split at h
  · cases h
  split at h
  · rename_i localPart domain hsplit
    obtain ⟨_, hlocal, h⟩ := Fallible.bind_eq_ok.1 h
    obtain ⟨z, _, h⟩ := Fallible.bind_eq_ok.1 h
    simp only at h
    split at h
    · cases h
    · cases h
      obtain ⟨hne, hchars⟩ := validateEmailLocalPart_eq_ok hlocal
      exact ⟨localPart, z, rfl, hne, not_mem_of_mem_split (by rw [hsplit]; simp), hchars⟩
  · cases h

theorem normalizeEmail_emailOk {value email : Text} (h : normalizeEmail value = .ok email) :
    EmailOk email := by
  obtain ⟨localPart, domain, rfl, hne, hat, -⟩ := normalizeEmail_eq_ok h
  exact soaMailbox_roundtrip hne hat domain.text_ne_nil (domain.not_mem_text (by decide) rfl)
    (trimEndMatches_eq_self_of_labels fun l hl => (domain.isZoneText.2 l hl).1)

theorem validateCreateZoneRequest_emailOk {request : CreateZoneRequest} {v : ValidatedCreateZoneRequest}
    (h : validateCreateZoneRequest request = .ok v) : EmailOk v.adminEmail := by
  obtain ⟨_, _, h⟩ := Fallible.bind_eq_ok.1 h
  obtain ⟨_, _, h⟩ := Fallible.bind_eq_ok.1 h
  obtain ⟨email, hemail, h⟩ := Fallible.bind_eq_ok.1 h
  obtain ⟨_, _, h⟩ := Fallible.bind_eq_ok.1 h
  obtain ⟨_, _, h⟩ := Fallible.bind_eq_ok.1 h
  cases h
  exact normalizeEmail_emailOk hemail

theorem EmailOk.snapshot {z : Zone} (h : EmailOk z.adminEmail) : ∃ sn, z.snapshot = .ok sn := by
  obtain ⟨m, hm, _⟩ := h
  exact ⟨_, by rw [Zone.snapshot, Zone.soaMailbox, hm]; rfl⟩

/-! ### Create -/

theorem initialSerial_bounds {s : Option ℤ} {n : ℤ} (h : initialSerial s = .ok n) :
    1 ≤ n ∧ n ≤ maxInitialSerial := by
  cases s with
  | none =>
      cases h
      decide
  | some s =>
      simp only [initialSerial, validateInitialSerial] at h
      split at h
      · cases h
      · split at h
        · cases h
        · cases h
          omega

/-- What `createZone` writes: one more store, whose only row is the apex NS, whose log is empty
and whose only snapshot is of its row. -/
structure Created (db db' : Db) (st : ZoneStore) : Prop where
  stores : db'.stores = db.stores ++ [st]
  id : st.zone.id = db.nextZoneId
  fresh : db.getZoneByName st.zone.name = none
  records : st.records = [{ st.zone.primaryNsRecord st.zone.ttl with id := db.nextRecordId }]
  changes : st.changes = []
  snapshots : ∃ sn, st.zone.snapshot = .ok sn ∧ st.snapshots = [sn]
  serial : 1 ≤ st.zone.serial ∧ st.zone.serial ≤ maxInitialSerial
  email : EmailOk st.zone.adminEmail
  policies : db'.tokenPolicies = db.tokenPolicies ∧ db'.tsigPolicies = db.tsigPolicies
  nextZoneId : db'.nextZoneId = db.nextZoneId + 1
  nextRecordId : db'.nextRecordId = db.nextRecordId + 1

theorem createZone_created {db db' : Db} {caller : Caller} {request : CreateZoneRequest} {zone : Zone}
    (h : createZone db caller request = .ok (db', zone)) : ∃ st, Created db db' st := by
  obtain ⟨_, _, h⟩ := Fallible.bind_eq_ok.1 h
  obtain ⟨v, hv, h⟩ := Fallible.bind_eq_ok.1 h
  obtain ⟨timers, _, h⟩ := Fallible.bind_eq_ok.1 h
  split at h
  · cases h
  rename_i hfresh
  obtain ⟨serial, hserial, h⟩ := Fallible.bind_eq_ok.1 h
  obtain ⟨tx, hsave, h⟩ := Fallible.bind_eq_ok.1 h
  cases h
  obtain ⟨sn, hsn, rfl⟩ := saveSnapshot_eq_ok (by simp [Tx.createRecords, Db.beginTx, newStore]) hsave
  exact ⟨_, rfl, rfl, Option.not_isSome_iff_eq_none.1 hfresh, rfl, rfl, ⟨sn, hsn, rfl⟩, initialSerial_bounds hserial,
    validateCreateZoneRequest_emailOk hv, ⟨rfl, rfl⟩, rfl, rfl⟩

theorem Created.zone_eq {db db' : Db} {caller : Caller} {request : CreateZoneRequest} {zone : Zone} {st : ZoneStore}
    (hc : Created db db' st) (h : createZone db caller request = .ok (db', zone)) :
    ∃ v timers serial, validateCreateZoneRequest request = .ok v ∧ resolveSoaTimers request defaultTimers = .ok timers ∧
      initialSerial request.serial = .ok serial ∧ st.zone = ⟨db.nextZoneId, v.name, v.primaryNs, v.adminEmail, v.ttl, serial,
        timers.refresh, timers.retry, timers.expire, timers.minimumTtl⟩ := by
  obtain ⟨_, _, h⟩ := Fallible.bind_eq_ok.1 h
  obtain ⟨v, hv, h⟩ := Fallible.bind_eq_ok.1 h
  obtain ⟨timers, htimers, h⟩ := Fallible.bind_eq_ok.1 h
  split at h
  · cases h
  obtain ⟨serial, hserial, h⟩ := Fallible.bind_eq_ok.1 h
  obtain ⟨tx, hsave, h⟩ := Fallible.bind_eq_ok.1 h
  have hstores := hc.stores
  cases h
  obtain ⟨_, _, hsave⟩ := Fallible.bind_eq_ok.1 hsave
  cases hsave
  have e := List.append_cancel_left hstores
  rw [List.cons.injEq] at e
  rw [← e.1]
  exact ⟨v, timers, serial, hv, htimers, hserial, rfl⟩

theorem Created.storeOk {db db' : Db} {st : ZoneStore} (h : Created db db' st) : StoreOk st := by
  obtain ⟨sn, hsn, hsns⟩ := h.snapshots
  obtain ⟨hserial, hmail⟩ : sn.serial = st.zone.serial ∧ st.zone.soaMailbox = .ok sn.adminEmail := by
    obtain ⟨m, hm, e⟩ := Fallible.bind_eq_ok.1 hsn
    cases e
    exact ⟨rfl, hm⟩
  have hlive : st.liveRecords = [st.zone.primaryNsRecord st.zone.ttl] := by
    simp [ZoneStore.liveRecords, h.records]
  refine ⟨?_, ⟨_, by rw [hlive]; exact List.mem_cons_self, isPrimaryNs_primaryNsRecord _ _⟩, h.email, ?_,
    ⟨st.zone.serial, 0, h.serial.1, by simp, by simp [hsns, hserial]⟩, ⟨sn, hsn, by simp [hsns]⟩, ?_,
    by simp [h.changes], by simp [h.changes]⟩
  · rw [ZoneStore.rows, hlive]
    exact acceptable_singleton.2 (rowOk_primaryNsRecord _ _)
  · have := h.serial.2
    simp only [maxInitialSerial] at this
    omega
  · intro sn' hsn'
    rw [hsns, List.mem_singleton] at hsn'
    subst hsn'
    obtain ⟨m, hm, hback⟩ := h.email
    obtain rfl : m = sn'.adminEmail := by
      rw [Zone.soaMailbox, hm] at hmail
      exact Except.ok.inj hmail
    exact ⟨_, hm, hback⟩

/-! ### Update and forced bump -/

theorem soaReplacementChanges_eq_ok {old new : Zone} {n : ℤ} {cs : List ZoneChange}
    (h : soaReplacementChanges old new n = .ok cs) :
    (∀ c ∈ cs, c.serial = n) ∧ ∀ c ∈ cs, c.record.recordType = .soa := by
  obtain ⟨del, hdel, h⟩ := Fallible.bind_eq_ok.1 h
  obtain ⟨add, hadd, h⟩ := Fallible.bind_eq_ok.1 h
  obtain ⟨_, _, hdel⟩ := Fallible.bind_eq_ok.1 hdel
  obtain ⟨_, _, hadd⟩ := Fallible.bind_eq_ok.1 hadd
  cases hdel
  cases hadd
  cases h
  simp

theorem keepPrimaryNs_writes (zone : Zone) {n : ℤ} {tx : Tx} (hacc : Acceptable tx.store.rows)
    (hid : tx.IdsOk) :
    ∃ cs, Writes n cs tx (keepPrimaryNs zone n tx) ∧
      (keepPrimaryNs zone n tx).store.zone = tx.store.zone ∧
      ∃ r ∈ (keepPrimaryNs zone n tx).store.liveRecords, zone.isPrimaryNs r = true := by
  have hcand : ∀ r, r ∈ (tx.recordsByName .apex).map (·.toRecordData) ↔
      r ∈ tx.store.liveRecords ∧ r.name = .apex := by
    intro r
    simp only [Tx.recordsByName, ZoneStore.liveRecords, List.mem_map, List.mem_filter, decide_eq_true_eq]
    constructor
    · rintro ⟨s, ⟨h1, h2⟩, rfl⟩
      exact ⟨⟨s, h1, rfl⟩, h2⟩
    · rintro ⟨⟨s, h1, rfl⟩, h2⟩
      exact ⟨s, ⟨h1, h2⟩, rfl⟩
  unfold keepPrimaryNs
  simp only
  split
  · rename_i hany
    obtain ⟨r, hr, hns⟩ := List.any_eq_true.1 hany
    exact ⟨[], .refl hacc hid, rfl, r, ((hcand r).1 hr).1, hns⟩
  · rename_i hnone
    have hno : ∀ r ∈ (tx.recordsByName .apex).map (·.toRecordData), zone.isPrimaryNs r = false := by
      simpa only [Bool.not_eq_true, List.any_eq_false] using hnone
    refine ⟨_, writes_insert _ hid (acceptable_primaryNs hacc hno hcand), rfl,
      zone.primaryNsRecord (apexNsRrsetTtl zone ((tx.recordsByName .apex).map (·.toRecordData))), ?_,
      isPrimaryNs_primaryNsRecord _ _⟩
    rw [liveRecords_insertRecordsWithChanges]
    exact List.mem_append_right _ List.mem_cons_self

theorem writeZoneTx_commits {existing updated : Zone} {n : ℤ} {tx tx' : Tx} (hok : TxOk tx)
    (hn : generateSerial tx.store.zone.serial = .ok n) (h : writeZoneTx existing updated n tx = .ok tx')
    (hid : updated.id = tx.store.zone.id) (hserial : updated.serial = n)
    (hemail : EmailOk updated.adminEmail) :
    (∃ cs, Commits cs tx tx') ∧ tx'.store.zone = updated := by
  obtain ⟨changes, hch, hsave⟩ := Fallible.bind_eq_ok.1 h
  obtain ⟨hch1, hch2⟩ := soaReplacementChanges_eq_ok hch
  have hw1 := writes_updateZone (n := n) updated hok.ids hok.store.rows
  obtain ⟨cs, hw2, hzone, hns⟩ := keepPrimaryNs_writes updated (n := n) hw1.run.ok_end hw1.ids
  have hw3 := writes_soaChanges hw2.ids hw2.run.ok_end hch1 hch2
  have hz : ((keepPrimaryNs updated n (tx.updateZone updated)).createZoneChanges changes).store.zone =
      updated := hzone
  obtain ⟨hc, hz', _⟩ := ((hw1.trans hw2).trans hw3).commits hok hn (by rw [hz, hid])
    (by rw [hz, ← hserial]) hsave (by rw [hz]; exact hns) (by rw [hz]; exact hemail)
  exact ⟨⟨_, hc⟩, hz'.trans hz⟩

/-- A zone update commits; its new name is the old one or was not taken. -/
theorem updateZoneTx_commits {build : Zone → CreateZoneRequest} {taken : ZoneName → Bool} {tx tx' : Tx}
    {zone : Zone} (hok : TxOk tx) (h : updateZoneTx build taken tx = .ok (tx', zone)) :
    (∃ cs, Commits cs tx tx') ∧
      (tx'.store.zone.name = tx.store.zone.name ∨ taken tx'.store.zone.name = false) := by
  obtain ⟨v, hv, h⟩ := Fallible.bind_eq_ok.1 h
  obtain ⟨timers, _, h⟩ := Fallible.bind_eq_ok.1 h
  split at h
  · cases h
  rename_i hname
  obtain ⟨n, hn, h⟩ := Fallible.bind_eq_ok.1 h
  obtain ⟨tx₁, hwrite, h⟩ := Fallible.bind_eq_ok.1 h
  cases h
  obtain ⟨hc, hz⟩ := writeZoneTx_commits hok hn hwrite rfl rfl (validateCreateZoneRequest_emailOk hv)
  refine ⟨hc, ?_⟩
  rw [hz]
  by_contra hcon
  simp only [not_or, Bool.not_eq_false] at hcon
  exact hname hcon

theorem updateZoneTx_zone {build : Zone → CreateZoneRequest} {taken : ZoneName → Bool} {tx tx' : Tx} {zone : Zone}
    (hok : TxOk tx) (h : updateZoneTx build taken tx = .ok (tx', zone)) : ∃ v timers n,
      validateCreateZoneRequest (build tx.store.zone) = .ok v ∧ resolveSoaTimers (build tx.store.zone)
        ⟨tx.store.zone.refresh, tx.store.zone.retry, tx.store.zone.expire, tx.store.zone.minimumTtl⟩ = .ok timers ∧
      tx'.store.zone = ⟨tx.store.zone.id, v.name, v.primaryNs, v.adminEmail, v.ttl, n, timers.refresh, timers.retry,
        timers.expire, timers.minimumTtl⟩ := by
  obtain ⟨v, hv, h⟩ := Fallible.bind_eq_ok.1 h
  obtain ⟨timers, htimers, h⟩ := Fallible.bind_eq_ok.1 h
  split at h
  · cases h
  obtain ⟨n, hn, h⟩ := Fallible.bind_eq_ok.1 h
  obtain ⟨tx₁, hwrite, h⟩ := Fallible.bind_eq_ok.1 h
  cases h
  obtain ⟨_, hz⟩ := writeZoneTx_commits hok hn hwrite rfl rfl (validateCreateZoneRequest_emailOk hv)
  exact ⟨v, timers, n, hv, htimers, hz⟩

theorem forceIncrementSerialTx_commits {tx tx' : Tx} {zone : Zone} (hok : TxOk tx)
    (h : forceIncrementSerialTx tx = .ok (tx', zone)) : CommitsRecords [] tx tx' := by
  obtain ⟨n, hn, h⟩ := Fallible.bind_eq_ok.1 h
  obtain ⟨tx₁, hsave, h⟩ := Fallible.bind_eq_ok.1 h
  cases h
  have hw := writes_updateZone (n := n) { tx.store.zone with serial := n } hok.ids hok.store.rows
  obtain ⟨hc, hz, _⟩ := hw.commits hok hn rfl rfl hsave hok.store.primaryNs hok.store.email
  refine ⟨hc, ?_⟩
  rw [hz, ← (generateSerial_eq_ok.1 hn).2]
  rfl

/-! ### Rollback -/

theorem matchTargets_dels_sublist (restored : Zone) (rs : List Record) (targets : List RecordData) :
    (matchTargets restored rs targets).1.dels.Sublist rs := by
  induction rs generalizing targets with
  | nil => simp [matchTargets]
  | cons r rs ih =>
      rw [matchTargets]
      split
      · simp only
        split
        · exact (ih _).cons_cons r
        · exact (ih _).cons r
      · simp only
        split
        · exact (ih _).cons_cons r
        · exact (ih _).cons r

/-- After a rollback some row is the apex NS of the restored `primary_ns`. -/
theorem rollbackAdds_primaryNs (hash : HashOrder) (restored : Zone) (current : List Record)
    (plan : RollbackPlan) (left : List RecordData) :
    ∃ r ∈ (current.filter (·.id ∉ plan.dels.map (·.id))).map (·.toRecordData) ++
      rollbackAdds hash restored current plan left, restored.isPrimaryNs r = true := by
  unfold rollbackAdds
  simp only
  split
  · rename_i h
    rcases Bool.or_eq_true_iff.1 h with h | h
    · obtain ⟨r, hr, hns⟩ := List.any_eq_true.1 h
      exact ⟨r, List.mem_append_left _ hr, hns⟩
    · obtain ⟨r, hr, hns⟩ := List.any_eq_true.1 h
      exact ⟨r, List.mem_append_right _ hr, hns⟩
  · exact ⟨_, List.mem_append_right _ (List.mem_append_right _ List.mem_cons_self),
      isPrimaryNs_primaryNsRecord _ _⟩

theorem applyRollback_commits {restored : Zone} {n : ℤ} {dels : List Record} {toAdd : List RecordData}
    {tx tx' : Tx} (hok : TxOk tx) (hn : generateSerial tx.store.zone.serial = .ok n)
    (h : applyRollback tx.store.zone restored n dels toAdd tx = .ok tx')
    (hid : restored.id = tx.store.zone.id) (hserial : restored.serial = n)
    (hemail : EmailOk restored.adminEmail) (hdels : dels.Sublist tx.store.records)
    (hval : validateEach (tx.survivors dels) toAdd = .ok ())
    (hns : ∃ r ∈ (tx.survivors dels).map (·.toRecordData) ++ toAdd, restored.isPrimaryNs r = true) :
    (∃ cs, Commits cs tx tx') ∧ tx'.store.zone = restored ∧
      tx'.store.liveRecords = (tx.survivors dels).map (·.toRecordData) ++ toAdd := by
  obtain ⟨changes, hch, hsave⟩ := Fallible.bind_eq_ok.1 h
  have hchanges : (∀ c ∈ changes, c.serial = n) ∧ ∀ c ∈ changes, c.record.recordType = .soa := by
    unfold rollbackSoaChanges at hch
    split at hch
    · exact soaReplacementChanges_eq_ok hch
    · cases hch
      simp
  obtain ⟨hadds, hcomp⟩ := validateEach_eq_ok.1 hval
  have hw1 := writes_updateZone (n := n) restored hok.ids hok.store.rows
  have hw2 := hw1.trans (writes_soaChanges hw1.ids hw1.run.ok_end hchanges.1 hchanges.2)
  have hw3 := hw2.trans (writes_delete dels hw2.ids hw2.run.ok_end (fun r hr => hdels.subset hr)
    ((List.Nodup.of_map _ hok.ids.nodup).sublist hdels))
  have hw4 := hw3.trans (writes_insert toAdd hw3.ids (by
    refine acceptable_append.2 ⟨acceptable_survivors hok dels, hadds, ?_⟩
    intro r hr
    obtain ⟨r', hr', rfl⟩ := List.mem_map.1 hr
    exact hcomp r' hr'))
  obtain ⟨hc, hz, hrecs⟩ := hw4.commits hok hn hid (by rw [← hserial]; rfl) hsave (by
    rw [liveRecords_insertRecordsWithChanges]
    exact hns) hemail
  refine ⟨⟨_, hc⟩, hz, ?_⟩
  rw [ZoneStore.liveRecords, hrecs]
  exact liveRecords_insertRecordsWithChanges _ _ _

theorem restoredZoneFromSnapshot_eq_ok {zone restored : Zone} {sn : ZoneSnapshot} {n : ℤ}
    (h : restoredZoneFromSnapshot zone sn n = .ok restored) :
    ∃ email, soaMailboxToEmail sn.adminEmail = .ok email ∧
      restored = ⟨zone.id, zone.name, sn.primaryNs, email, sn.ttl, n, sn.refresh, sn.retry, sn.expire,
        sn.minimumTtl⟩ := by
  obtain ⟨email, hemail, h⟩ := Fallible.bind_eq_ok.1 h
  cases h
  exact ⟨email, Fallible.mapError_eq_ok.1 hemail, rfl⟩

theorem StoreOk.snapshotBySerial {st : ZoneStore} {s : ℤ} {sn : ZoneSnapshot}
    (h : st.snapshotBySerial s = some sn) : sn ∈ st.snapshots ∧ sn.serial = s :=
  ⟨List.mem_of_find?_eq_some h, by simpa using List.find?_some h⟩

theorem rollbackTx_zone {hash : HashOrder} {target : ℤ} {dryRun : Bool} {tx tx' : Tx} {response : RollbackZoneResponse}
    (h : rollbackTx hash target dryRun tx = .ok (tx', response)) : tx' = tx ∨ ∃ sn ∈ tx.store.snapshots, ∃ email n,
      soaMailboxToEmail sn.adminEmail = .ok email ∧ tx'.store.zone = ⟨tx.store.zone.id, tx.store.zone.name, sn.primaryNs, email,
        sn.ttl, n, sn.refresh, sn.retry, sn.expire, sn.minimumTtl⟩ := by
  unfold rollbackTx at h
  simp only at h
  split at h
  · cases h
  split at h
  · cases h
  rename_i sn hsn
  obtain ⟨n, _, h⟩ := Fallible.bind_eq_ok.1 h
  obtain ⟨restored, hres, h⟩ := Fallible.bind_eq_ok.1 h
  obtain ⟨_, _, h⟩ := Fallible.bind_eq_ok.1 h
  split at h
  · cases h
    exact .inl rfl
  obtain ⟨tx₁, happly, h⟩ := Fallible.bind_eq_ok.1 h
  cases h
  obtain ⟨email, hemail, rfl⟩ := restoredZoneFromSnapshot_eq_ok hres
  obtain ⟨changes, _, hsave⟩ := Fallible.bind_eq_ok.1 happly
  obtain ⟨_, _, hsave⟩ := Fallible.bind_eq_ok.1 hsave
  cases hsave
  exact .inr ⟨sn, (StoreOk.snapshotBySerial hsn).1, email, n, hemail, rfl⟩

theorem rollbackTx_commits {hash : HashOrder} {target : ℤ} {dryRun : Bool} {tx tx' : Tx}
    {response : RollbackZoneResponse} (hok : TxOk tx)
    (h : rollbackTx hash target dryRun tx = .ok (tx', response)) :
    (dryRun = true ∧ tx' = tx) ∨ (dryRun = false ∧ (∃ cs, Commits cs tx tx') ∧
      tx'.store.zone.name = tx.store.zone.name) := by
  unfold rollbackTx at h
  simp only at h
  split at h
  · cases h
  split at h
  · cases h
  rename_i sn hsn
  obtain ⟨n, hn, h⟩ := Fallible.bind_eq_ok.1 h
  obtain ⟨restored, hres, h⟩ := Fallible.bind_eq_ok.1 h
  obtain ⟨_, hval, h⟩ := Fallible.bind_eq_ok.1 h
  split at h
  · rename_i hdry
    cases h
    exact .inl ⟨hdry, rfl⟩
  rename_i hdry
  obtain ⟨tx₁, happly, h⟩ := Fallible.bind_eq_ok.1 h
  cases h
  obtain ⟨email, hemail, rfl⟩ := restoredZoneFromSnapshot_eq_ok hres
  obtain ⟨email', hfrom, hto⟩ := hok.store.mailboxes sn (StoreOk.snapshotBySerial hsn).1
  obtain rfl : email' = email := Except.ok.inj (hto.symm.trans hemail)
  obtain ⟨hc, hz, _⟩ := applyRollback_commits hok hn happly rfl rfl ⟨_, hfrom, hto⟩
    (matchTargets_dels_sublist _ _ _) hval (rollbackAdds_primaryNs _ _ _ _ _)
  exact .inr ⟨by simpa using hdry, hc, by rw [hz]⟩

end Bindizr
