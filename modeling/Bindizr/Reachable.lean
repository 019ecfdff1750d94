import Bindizr.Operations
import Bindizr.UpdateCommits
import Bindizr.ZoneCommits

/-! # Reachable databases

What holds of the database after every history of operations (`DbOk`), and what one operation
can do to a zone: nothing, one commit (`Advances`), or bring it into being (`Created`).  By
induction over the history the state of a zone at any time evolves, commit by commit, into its
state at any later time (`run_evolves`), and every snapshot a zone has was taken of its row at
a time when it had that serial (`run_snapshot`). -/

namespace Bindizr

/-! ### The invariant -/

/-- What holds of every reachable database. -/
structure DbOk (db : Db) : Prop where
  zoneIds : (db.stores.map (·.zone.id)).Nodup
  zoneNames : (db.stores.map (·.zone.name)).Nodup
  zoneIdLt : ∀ st ∈ db.stores, st.zone.id < db.nextZoneId
  store : ∀ st ∈ db.stores, StoreOk st
  ids : ∀ st ∈ db.stores, (db.beginTx st).IdsOk

theorem dbOk_empty : DbOk .empty where
  zoneIds := by simp [Db.empty]
  zoneNames := by simp [Db.empty]
  zoneIdLt := by simp [Db.empty]
  store := by simp [Db.empty]
  ids := by simp [Db.empty]

theorem DbOk.txOk {db : Db} (h : DbOk db) {st : ZoneStore} (hst : st ∈ db.stores) :
    TxOk (db.beginTx st) :=
  ⟨h.store st hst, h.ids st hst⟩

theorem DbOk.eq_of_id_eq {db : Db} (h : DbOk db) {st st' : ZoneStore} (hst : st ∈ db.stores)
    (hst' : st' ∈ db.stores) (e : st.zone.id = st'.zone.id) : st = st' :=
  List.inj_on_of_nodup_map h.zoneIds hst hst' e

theorem DbOk.eq_of_name_eq {db : Db} (h : DbOk db) {st st' : ZoneStore} (hst : st ∈ db.stores)
    (hst' : st' ∈ db.stores) (e : st.zone.name = st'.zone.name) : st = st' :=
  List.inj_on_of_nodup_map h.zoneNames hst hst' e

theorem getZoneByName_eq_some {db : Db} {name : ZoneName} {st : ZoneStore}
    (h : db.getZoneByName name = some st) : st ∈ db.stores ∧ st.zone.name = name :=
  ⟨List.mem_of_find?_eq_some h, by simpa using List.find?_some h⟩

theorem getZoneByName_eq_none {db : Db} {name : ZoneName} :
    db.getZoneByName name = none ↔ ∀ st ∈ db.stores, st.zone.name ≠ name := by
  rw [Db.getZoneByName, List.find?_eq_none]
  simp

theorem getZoneById_eq_some {db : Db} {id : ℕ} {st : ZoneStore} (h : db.getZoneById id = some st) :
    st ∈ db.stores ∧ st.zone.id = id :=
  ⟨List.mem_of_find?_eq_some h, by simpa using List.find?_some h⟩

theorem DbOk.getZoneByName_eq {db : Db} (hdb : DbOk db) {st : ZoneStore} (hst : st ∈ db.stores) :
    db.getZoneByName st.zone.name = some st := by
  cases h : db.getZoneByName st.zone.name with
  | none => exact absurd rfl (getZoneByName_eq_none.1 h st hst)
  | some st' =>
      obtain ⟨hst', e⟩ := getZoneByName_eq_some h
      rw [hdb.eq_of_name_eq hst' hst e]

theorem DbOk.getZoneById_eq {db : Db} (hdb : DbOk db) {st : ZoneStore} (hst : st ∈ db.stores) :
    db.getZoneById st.zone.id = some st := by
  cases h : db.getZoneById st.zone.id with
  | none => exact absurd (List.find?_eq_none.1 h st hst) (by simp)
  | some st' =>
      obtain ⟨hst', e⟩ := getZoneById_eq_some h
      rw [hdb.eq_of_id_eq hst' hst e]

theorem DbOk.lookupByName_eq {db : Db} (hdb : DbOk db) {zoneName : Text} {st : ZoneStore} (hst : st ∈ db.stores)
    (hname : normalizeZoneName zoneName = .ok st.zone.name) : db.lookupByName zoneName = .ok st := by
  rw [Db.lookupByName, Db.findByName, hname]
  simp only [Fallible.ok_bind, hdb.getZoneByName_eq hst]
  rfl

theorem lookupByName_eq_ok {db : Db} {zoneName : Text} {st : ZoneStore}
    (h : db.lookupByName zoneName = .ok st) :
    st ∈ db.stores ∧ normalizeZoneName zoneName = .ok st.zone.name := by
  obtain ⟨found, hfound, h⟩ := Fallible.bind_eq_ok.1 h
  obtain ⟨name, hname, hfound⟩ := Fallible.bind_eq_ok.1 hfound
  cases hfound
  split at h
  · rename_i st' hst
    cases h
    obtain ⟨hmem, e⟩ := getZoneByName_eq_some hst
    exact ⟨hmem, by rw [hname, e]⟩
  · cases h

/-! ### Committing a transaction -/

theorem commit_beginTx {db : Db} (h : DbOk db) {st : ZoneStore} (hst : st ∈ db.stores) :
    db.commit (db.beginTx st) = db := by
  have : (db.stores.map fun s => if s.zone.id = st.zone.id then st else s) = db.stores := by
    conv_rhs => rw [← List.map_id db.stores]
    refine List.map_congr_left fun s hs => ?_
    split
    · rename_i e
      exact h.eq_of_id_eq hst hs e.symm
    · rfl
  exact congrArg (fun stores => ({ db with stores := stores } : Db)) this

theorem mem_commit {db : Db} {st : ZoneStore} {tx : Tx} (hst : st ∈ db.stores)
    (hid : tx.store.zone.id = st.zone.id) {st' : ZoneStore} :
    st' ∈ (db.commit tx).stores ↔ st' = tx.store ∨ (st' ∈ db.stores ∧ st'.zone.id ≠ st.zone.id) := by
  simp only [Db.commit, List.mem_map, hid]
  constructor
  · rintro ⟨s, hs, rfl⟩
    split
    · exact .inl rfl
    · rename_i hne
      exact .inr ⟨hs, hne⟩
  · rintro (rfl | ⟨hs, hne⟩)
    · exact ⟨st, hst, by simp⟩
    · exact ⟨st', hs, by simp [hne]⟩

theorem DbOk.commit {db : Db} (h : DbOk db) {st : ZoneStore} (hst : st ∈ db.stores) {tx : Tx}
    {cs : List ZoneChange} (hc : Commits cs (db.beginTx st) tx)
    (hname : tx.store.zone.name = st.zone.name ∨ db.getZoneByName tx.store.zone.name = none) :
    DbOk (db.commit tx) := by
  have hid : tx.store.zone.id = st.zone.id := hc.advances.id
  have hnodup : db.stores.Nodup := List.Nodup.of_map _ h.zoneIds
  have hmap : (db.commit tx).stores =
      db.stores.map fun s => if s.zone.id = st.zone.id then tx.store else s := by
    simp [Db.commit, hid]
  refine ⟨?_, ?_, ?_, ?_, ?_⟩
  · rw [hmap, List.map_map]
    refine List.Nodup.map_on (fun s hs s' hs' e => h.eq_of_id_eq hs hs' ?_) hnodup
    simp only [Function.comp_apply] at e
    split at e <;> split at e <;> simp_all
  · rw [hmap, List.map_map]
    refine List.Nodup.map_on (fun s hs s' hs' e => ?_) hnodup
    have hother : ∀ s ∈ db.stores, s.zone.id ≠ st.zone.id → s.zone.name ≠ tx.store.zone.name := by
      intro s hs hne e
      rcases hname with hn | hn
      · exact hne (by rw [h.eq_of_name_eq hs hst (e.trans hn)])
      · exact getZoneByName_eq_none.1 hn s hs e
    simp only [Function.comp_apply] at e
    split at e <;> split at e
    · rename_i e1 e2
      exact h.eq_of_id_eq hs hs' (e1.trans e2.symm)
    · rename_i _ hne
      exact absurd e.symm (hother s' hs' hne)
    · rename_i hne _
      exact absurd e (hother s hs hne)
    · exact h.eq_of_name_eq hs hs' e
  · intro s hs
    rcases (mem_commit hst hid).1 hs with rfl | ⟨hs, _⟩
    · rw [hid]
      exact h.zoneIdLt st hst
    · exact h.zoneIdLt s hs
  · intro s hs
    rcases (mem_commit hst hid).1 hs with rfl | ⟨hs, _⟩
    · exact (h.store st hst).advances hc.advances
    · exact h.store s hs
  · intro s hs
    rcases (mem_commit hst hid).1 hs with rfl | ⟨hs, _⟩
    · exact ⟨hc.ids.nodup, hc.ids.lt⟩
    · exact ⟨(h.ids s hs).nodup, fun r hr => ((h.ids s hs).lt r hr).trans_le hc.next⟩

/-! ### One operation -/

/-- What an operation may have done to the zone now in state `st`: nothing, one commit, or
creating it. -/
inductive Came (db : Db) (st : ZoneStore) : Prop
  | kept : st ∈ db.stores → Came db st
  | advanced (st₀ : ZoneStore) (cs : List ZoneChange) : st₀ ∈ db.stores → Advances cs st₀ st → Came db st
  | created (db' : Db) : Created db db' st → Came db st

/-- One operation, seen from the database: the invariant is kept, and every zone came about in
one of the three ways. -/
structure DbStep (db db' : Db) : Prop where
  ok : DbOk db'
  came : ∀ st ∈ db'.stores, Came db st
  nextZoneId : db.nextZoneId ≤ db'.nextZoneId

theorem DbStep.refl {db : Db} (h : DbOk db) : DbStep db db := ⟨h, fun _ hst => .kept hst, le_rfl⟩

/-- A transaction that leaves the rows or commits is a step. -/
theorem dbStep_of_inTx {ε α : Type} {db db' : Db} {st : ZoneStore} {body : Tx → Except ε (Tx × α)} {a : α}
    (hdb : DbOk db) (hst : st ∈ db.stores) (h : db.inTx st body = .ok (db', a))
    (hbody : ∀ tx, body (db.beginTx st) = .ok (tx, a) → tx = db.beginTx st ∨
      (∃ cs, Commits cs (db.beginTx st) tx) ∧
        (tx.store.zone.name = st.zone.name ∨ db.getZoneByName tx.store.zone.name = none)) :
    DbStep db db' := by
  obtain ⟨⟨tx, a'⟩, htx, h⟩ := Fallible.bind_eq_ok.1 h
  cases h
  rcases hbody tx htx with rfl | ⟨⟨cs, hc⟩, hname⟩
  · rw [commit_beginTx hdb hst]
    exact .refl hdb
  · refine ⟨hdb.commit hst hc hname, fun s hs => ?_, le_rfl⟩
    rcases (mem_commit hst hc.advances.id).1 hs with rfl | ⟨hs, _⟩
    · exact .advanced st cs hst hc.advances
    · exact .kept hs

theorem CommitsRecords.name {cs : List ZoneChange} {tx tx' : Tx} (h : CommitsRecords cs tx tx') :
    tx'.store.zone.name = tx.store.zone.name := by rw [h.zone]

/-- A log of writes the caller may make in a zone. -/
def Within (allow : ℕ → RecordWrite → Prop) (zoneId : ℕ) (cs : List ZoneChange) : Prop :=
  ∀ c ∈ cs, allow zoneId c.record.write

/-- The same, for a log that holds at least one row. -/
def SomeWithin (allow : ℕ → RecordWrite → Prop) (zoneId : ℕ) (cs : List ZoneChange) : Prop :=
  cs ≠ [] ∧ Within allow zoneId cs

/-- A zone advanced by one commit to its records, with a log as `L` says, that moved nothing of
the zone's row but the serial. -/
def AdvancedBy (L : ℕ → List ZoneChange → Prop) (db : Db) (st : ZoneStore) : Prop :=
  ∃ st₀ ∈ db.stores, ∃ cs, Advances cs st₀ st ∧
    st.zone = { st₀.zone with serial := st₀.zone.serial + 1 } ∧ L st₀.zone.id cs

/-- One operation on records, with logs as `L` says: every zone is still there, left alone or
advanced by one commit. -/
structure RecordStep (L : ℕ → List ZoneChange → Prop) (db db' : Db) : Prop where
  ok : DbOk db'
  came : ∀ st ∈ db'.stores, st ∈ db.stores ∨ AdvancedBy L db st
  zoneIds : db'.stores.map (·.zone.id) = db.stores.map (·.zone.id)
  nextZoneId : db'.nextZoneId = db.nextZoneId
  policies : db'.tokenPolicies = db.tokenPolicies ∧ db'.tsigPolicies = db.tsigPolicies

theorem RecordStep.refl {L : ℕ → List ZoneChange → Prop} {db : Db} (h : DbOk db) : RecordStep L db db :=
  ⟨h, fun _ hst => .inl hst, rfl, rfl, rfl, rfl⟩

theorem RecordStep.dbStep {L : ℕ → List ZoneChange → Prop} {db db' : Db} (h : RecordStep L db db') :
    DbStep db db' := by
  refine ⟨h.ok, fun st hst => ?_, h.nextZoneId.ge⟩
  rcases h.came st hst with hst | ⟨st₀, hst₀, cs, ha, _⟩
  · exact .kept hst
  · exact .advanced st₀ cs hst₀ ha

theorem commit_zoneIds {db : Db} {tx : Tx} {st : ZoneStore} (hid : tx.store.zone.id = st.zone.id) :
    (db.commit tx).stores.map (·.zone.id) = db.stores.map (·.zone.id) := by
  simp only [Db.commit, List.map_map]
  refine List.map_congr_left fun s _ => ?_
  simp only [Function.comp_apply]
  split <;> simp_all

theorem recordStep_of_inTx {ε α : Type} {L : ℕ → List ZoneChange → Prop} {db db' : Db} {st : ZoneStore}
    {body : Tx → Except ε (Tx × α)} {a : α} (hdb : DbOk db) (hst : st ∈ db.stores)
    (h : db.inTx st body = .ok (db', a))
    (hbody : ∀ tx, body (db.beginTx st) = .ok (tx, a) → tx = db.beginTx st ∨
      ∃ cs, CommitsRecords cs (db.beginTx st) tx ∧ L st.zone.id cs) :
    RecordStep L db db' := by
  obtain ⟨⟨tx, a'⟩, htx, h⟩ := Fallible.bind_eq_ok.1 h
  cases h
  rcases hbody tx htx with rfl | ⟨cs, hc, hP⟩
  · rw [commit_beginTx hdb hst]
    exact .refl hdb
  · refine ⟨hdb.commit hst hc.toCommits (.inl hc.name), fun s hs => ?_, commit_zoneIds hc.advances.id, rfl,
      rfl, rfl⟩
    rcases (mem_commit hst hc.advances.id).1 hs with rfl | ⟨hs, _⟩
    · exact .inr ⟨st, hst, cs, hc.advances, hc.zone, hP⟩
    · exact .inl hs

theorem mem_of_inTx {ε α : Type} {db db' : Db} {st s : ZoneStore} {body : Tx → Except ε (Tx × α)} {a : α}
    (h : db.inTx st body = .ok (db', a)) (hbody : ∀ tx, body (db.beginTx st) = .ok (tx, a) →
      tx.store.zone.id = st.zone.id) (hs : s ∈ db'.stores) (hne : s.zone.id ≠ st.zone.id) :
    s ∈ db.stores := by
  obtain ⟨⟨tx, a'⟩, htx, h⟩ := Fallible.bind_eq_ok.1 h
  cases h
  have hid := hbody tx htx
  simp only [Db.commit, List.mem_map, hid] at hs
  obtain ⟨s', hs', rfl⟩ := hs
  split at hne
  · exact absurd hid hne
  · rename_i hne'
    simpa [hne'] using hs'

theorem inRecordZone_eq_ok {α : Type} {db db' : Db} {id : ℕ} {zoneIdRead : Option ℕ}
    {body : Tx → Except ServiceError (Tx × α)} {a : α}
    (h : inRecordZone db id zoneIdRead body = .ok (db', a)) :
    ∃ st ∈ db.stores, db.inTx st body = .ok (db', a) := by
  unfold inRecordZone at h
  split at h
  · cases h
  · split at h
    · cases h
    · rename_i st hst
      exact ⟨st, (getZoneById_eq_some hst).1, h⟩

theorem DbOk.created {db db' : Db} {st : ZoneStore} (hdb : DbOk db) (h : Created db db' st) : DbOk db' := by
  have hmem : ∀ s, s ∈ db'.stores ↔ s ∈ db.stores ∨ s = st := by simp [h.stores]
  refine ⟨?_, ?_, ?_, ?_, ?_⟩
  · rw [h.stores, List.map_append, List.map_singleton]
    refine List.nodup_append.2 ⟨hdb.zoneIds, by simp, ?_⟩
    rintro a ha b hb rfl
    obtain ⟨s, hs, e⟩ := List.mem_map.1 ha
    have := hdb.zoneIdLt s hs
    rw [List.mem_singleton.1 hb, h.id] at e
    omega
  · rw [h.stores, List.map_append, List.map_singleton]
    refine List.nodup_append.2 ⟨hdb.zoneNames, by simp, ?_⟩
    rintro a ha b hb rfl
    obtain ⟨s, hs, e⟩ := List.mem_map.1 ha
    exact getZoneByName_eq_none.1 h.fresh s hs (by rw [e, List.mem_singleton.1 hb])
  · intro s hs
    rw [h.nextZoneId]
    rcases (hmem s).1 hs with hs | rfl
    · have := hdb.zoneIdLt s hs
      omega
    · rw [h.id]
      omega
  · intro s hs
    rcases (hmem s).1 hs with hs | rfl
    · exact hdb.store s hs
    · exact h.storeOk
  · intro s hs
    rcases (hmem s).1 hs with hs | rfl
    · refine ⟨(hdb.ids s hs).nodup, fun r hr => ?_⟩
      have := (hdb.ids s hs).lt r hr
      simp only [Db.beginTx] at this ⊢
      rw [h.nextRecordId]
      omega
    · constructor
      · simp [Db.beginTx, h.records]
      · simp [Db.beginTx, h.records, h.nextRecordId]

/-! ### Several zones in one transaction -/

section ApplyChanges

variable {caller : Caller} {policies : List ZonePolicy}

/-- What the loop over the zones keeps: every zone is as it was, or was advanced and will not be
visited again. -/
structure Between (caller : Caller) (base : Db) (entries : List (ZoneName × ZoneOps)) (db : Db) : Prop where
  ok : DbOk db
  came : ∀ st ∈ db.stores, st ∈ base.stores ∨
    ((∀ e ∈ entries, e.1 ≠ st.zone.name) ∧
      AdvancedBy (SomeWithin (caller.Permits base.tokenPolicies)) base st)
  zoneIds : db.stores.map (·.zone.id) = base.stores.map (·.zone.id)
  nextZoneId : db.nextZoneId = base.nextZoneId
  policies : db.tokenPolicies = base.tokenPolicies ∧ db.tsigPolicies = base.tsigPolicies

theorem applyZoneOps_between {base db db' : Db} {entry : ZoneName × ZoneOps}
    {entries : List (ZoneName × ZoneOps)} {resp resp' : ExternalDnsChangesResponse}
    (h : Between caller base (entry :: entries) db) (hsup : entry.2.Supported)
    (hnew : ∀ e ∈ entries, e.1 ≠ entry.1)
    (hstep : applyZoneOps caller (db, resp) entry = .ok (db', resp')) : Between caller base entries db' := by
  unfold applyZoneOps at hstep
  split at hstep
  · cases hstep
  rename_i st hfind
  obtain ⟨⟨db₁, cs⟩, htx, hstep⟩ := Fallible.bind_eq_ok.1 hstep
  cases hstep
  obtain ⟨hst, hname⟩ := getZoneByName_eq_some hfind
  have htxs := fun tx (htx : applyZoneOpsTx caller db.tokenPolicies entry.2 (db.beginTx st) = .ok (tx, cs)) =>
    applyZoneOpsTx_commits (h.ok.txOk hst) hsup htx
  have hstep := recordStep_of_inTx (L := SomeWithin (caller.Permits db.tokenPolicies)) h.ok hst htx
    fun tx htx => (htxs tx htx).imp (·.1) fun ⟨log, hne, hc, hP⟩ => ⟨log, hc, hne, hP⟩
  have hother := fun s => mem_of_inTx (s := s) htx fun tx htx => by
    rcases htxs tx htx with ⟨rfl, _⟩ | ⟨_, _, hc, _⟩
    · rfl
    · exact hc.advances.id
  -- the zone found has not been advanced yet
  have hbase : st ∈ base.stores := by
    rcases h.came st hst with hst | ⟨hst, _⟩
    · exact hst
    · exact absurd hname.symm (hst entry List.mem_cons_self)
  refine ⟨hstep.ok, fun s hs => ?_, hstep.zoneIds.trans h.zoneIds, hstep.nextZoneId.trans h.nextZoneId,
    hstep.policies.1.trans h.policies.1, hstep.policies.2.trans h.policies.2⟩
  have hkept (hs : s ∈ db.stores) : s ∈ base.stores ∨ ((∀ e ∈ entries, e.1 ≠ s.zone.name) ∧
      AdvancedBy (SomeWithin (caller.Permits base.tokenPolicies)) base s) :=
    (h.came s hs).imp id fun ⟨h1, h2⟩ => ⟨fun e he => h1 e (List.mem_cons_of_mem _ he), h2⟩
  by_cases hid : s.zone.id = st.zone.id
  · rcases hstep.came s hs with hs | ⟨st₀, hst₀, cs, ha, hz, hP⟩
    · exact hkept hs
    · obtain rfl := h.ok.eq_of_id_eq hst₀ hst (ha.id.symm.trans hid)
      refine .inr ⟨fun e he => ?_, st₀, hbase, cs, ha, hz, h.policies.1 ▸ hP⟩
      rw [hz, hname]
      exact hnew e he
  · exact hkept (hother s hs hid)

/-- The loop over the zones is one step: each zone advances at most once. -/
theorem applyZoneOps_foldlM {base db db' : Db} {entries : List (ZoneName × ZoneOps)}
    {resp resp' : ExternalDnsChangesResponse} (h : Between caller base entries db) (hok : GroupedOk entries)
    (hrun : entries.foldlM (applyZoneOps caller) (db, resp) = .ok (db', resp')) :
    Between caller base [] db' := by
  induction entries generalizing db resp with
  | nil =>
      cases hrun
      exact h
  | cons entry entries ih =>
      rw [List.foldlM_cons, Fallible.bind_eq_ok] at hrun
      obtain ⟨⟨db₁, resp₁⟩, hstep, hrun⟩ := hrun
      obtain ⟨hsorted, hsup⟩ := hok
      rw [List.map_cons, List.pairwise_cons] at hsorted
      refine ih (applyZoneOps_between h (hsup entry List.mem_cons_self) ?_ hstep)
        ⟨hsorted.2, fun e he => hsup e (List.mem_cons_of_mem _ he)⟩ hrun
      intro e he heq
      exact absurd (hsorted.1 _ (List.mem_map_of_mem he)) (by simp [heq])

theorem applyChanges_step [Crates] {db db' : Db} {zonesRead : List ZoneName}
    {request : ExternalDnsChangesRequest} {resp : ExternalDnsChangesResponse} (hdb : DbOk db)
    (h : applyChanges db caller zonesRead request = .ok (db', resp)) :
    RecordStep (SomeWithin (caller.Permits db.tokenPolicies)) db db' := by
  obtain ⟨ops, hops, h⟩ := Fallible.bind_eq_ok.1 h
  split at h
  · cases h
    exact .refl hdb
  · obtain ⟨grouped, hgrouped, h⟩ := Fallible.bind_eq_ok.1 h
    have hstart : Between caller db grouped db := ⟨hdb, fun _ hst => .inl hst, rfl, rfl, rfl, rfl⟩
    have hb := applyZoneOps_foldlM hstart (groupOpsByZone_ok (convertRequest_supported hops) hgrouped) h
    exact ⟨hb.ok, fun st hst => (hb.came st hst).imp id (·.2), hb.zoneIds, hb.nextZoneId, hb.policies⟩

end ApplyChanges

/-! ### Every operation -/

section Steps

variable [Crates] {db db' : Db} {caller : Caller}

theorem createRecord_step {request : CreateRecordRequest} {r : Record} (hdb : DbOk db)
    (h : createRecord db caller request = .ok (db', r)) :
    RecordStep (Within (caller.Permits db.tokenPolicies)) db db' := by
  obtain ⟨_, _, h⟩ := Fallible.bind_eq_ok.1 h
  obtain ⟨st, hst, h⟩ := Fallible.bind_eq_ok.1 h
  obtain ⟨hst, _⟩ := lookupByName_eq_ok hst
  exact recordStep_of_inTx hdb hst h fun tx htx => .inr (createRecordTx_commits (hdb.txOk hst) htx)

theorem createBulk_step {zoneName : Text} {items : List RecordItem} {dryRun : Bool} {rs : List Record}
    (hdb : DbOk db) (h : createBulk db caller zoneName items dryRun = .ok (db', rs)) :
    RecordStep (Within (caller.Permits db.tokenPolicies)) db db' := by
  unfold createBulk at h
  split at h
  · cases h
  obtain ⟨_, _, h⟩ := Fallible.bind_eq_ok.1 h
  obtain ⟨st, hst, h⟩ := Fallible.bind_eq_ok.1 h
  obtain ⟨hst, _⟩ := lookupByName_eq_ok hst
  exact recordStep_of_inTx hdb hst h fun tx htx =>
    (createBulkTx_commits (hdb.txOk hst) htx).imp (·.2) (·.2)

omit [Crates] in
theorem updateLocked_step {id : ℕ} {zoneIdRead : Option ℕ} {resolve : ResolveUpdate} {r : Record}
    (hdb : DbOk db)
    (h : inRecordZone db id zoneIdRead (updateLockedTx caller db.tokenPolicies id resolve) = .ok (db', r)) :
    RecordStep (Within (caller.Permits db.tokenPolicies)) db db' := by
  obtain ⟨st, hst, h⟩ := inRecordZone_eq_ok h
  exact recordStep_of_inTx hdb hst h fun tx htx => .inr (updateLockedTx_commits (hdb.txOk hst) htx).2

omit [Crates] in
theorem deleteById_step {id : ℕ} {zoneIdRead : Option ℕ} (hdb : DbOk db)
    (h : deleteById db caller id zoneIdRead = .ok (db', ())) :
    RecordStep (Within (caller.Permits db.tokenPolicies)) db db' := by
  obtain ⟨st, hst, h⟩ := inRecordZone_eq_ok h
  exact recordStep_of_inTx hdb hst h fun tx htx => .inr (deleteByIdTx_commits (hdb.txOk hst) htx).2

theorem importZoneFile_step {zoneName : Text} {request : ImportZoneFileRequest}
    {response : ImportZoneFileResponse} (hdb : DbOk db)
    (h : importZoneFile db caller zoneName request = .ok (db', response)) :
    RecordStep (SomeWithin fun _ _ => True) db db' := by
  obtain ⟨_, _, h⟩ := Fallible.bind_eq_ok.1 h
  obtain ⟨st, hst, h⟩ := Fallible.bind_eq_ok.1 h
  obtain ⟨hst, _⟩ := lookupByName_eq_ok hst
  exact recordStep_of_inTx hdb hst h fun tx htx =>
    (importTx_commits (hdb.txOk hst) htx).imp id fun ⟨_, cs, hne, hc⟩ =>
      ⟨cs, hc, hne, fun _ _ => trivial⟩

theorem applyUpdate_step {update : DynamicUpdate} {changed : Bool} (hdb : DbOk db)
    (h : applyUpdate db update = .ok (db', changed)) :
    RecordStep (SomeWithin (TsigPermits update.key db.tsigPolicies)) db db' := by
  obtain ⟨found, hfound, h⟩ := Fallible.bind_eq_ok.1 h
  cases found with
  | none => cases h
  | some st =>
      obtain ⟨name, _, hfound⟩ := Fallible.bind_eq_ok.1 (Fallible.mapError_eq_ok.1 hfound)
      obtain ⟨hst, _⟩ := getZoneByName_eq_some (Except.ok.inj hfound)
      exact recordStep_of_inTx hdb hst h fun tx htx =>
        (applyUpdateTx_commits (hdb.txOk hst) htx).imp (·.2) fun ⟨_, cs, hne, hc, hP⟩ => ⟨cs, hc, hne, hP⟩

omit [Crates] in
theorem forceIncrementSerial_step {zoneName : Text} {zone : Zone} (hdb : DbOk db)
    (h : forceIncrementSerial db zoneName = .ok (db', zone)) : RecordStep (fun _ cs => cs = []) db db' := by
  obtain ⟨st, hst, h⟩ := Fallible.bind_eq_ok.1 h
  obtain ⟨hst, _⟩ := lookupByName_eq_ok hst
  exact recordStep_of_inTx hdb hst h fun tx htx =>
    .inr ⟨[], forceIncrementSerialTx_commits (hdb.txOk hst) htx, rfl⟩

omit [Crates] in
theorem updateLockedZone_step {zoneName : Text} {build : Zone → CreateZoneRequest} {zone : Zone}
    (hdb : DbOk db) (h : updateLockedZone db zoneName build = .ok (db', zone)) : DbStep db db' := by
  obtain ⟨st, hst, h⟩ := Fallible.bind_eq_ok.1 h
  obtain ⟨hst, _⟩ := lookupByName_eq_ok hst
  refine dbStep_of_inTx hdb hst h fun tx htx => .inr ?_
  obtain ⟨hc, hname⟩ := updateZoneTx_commits (hdb.txOk hst) htx
  exact ⟨hc, hname.imp id fun h => by simpa using h⟩

omit [Crates] in
theorem rollback_step {hash : HashOrder} {zoneName : Text} {target : ℤ} {dryRun : Bool}
    {response : RollbackZoneResponse} (hdb : DbOk db)
    (h : rollback db caller hash zoneName target dryRun = .ok (db', response)) : DbStep db db' := by
  obtain ⟨_, _, h⟩ := Fallible.bind_eq_ok.1 h
  obtain ⟨_, _, h⟩ := Fallible.bind_eq_ok.1 h
  obtain ⟨st, hst, h⟩ := Fallible.bind_eq_ok.1 h
  obtain ⟨hst, _⟩ := lookupByName_eq_ok hst
  exact dbStep_of_inTx hdb hst h fun tx htx =>
    (rollbackTx_commits (hdb.txOk hst) htx).imp (·.2) fun ⟨_, hc, hname⟩ => ⟨hc, .inl hname⟩

omit [Crates] in
theorem createZone_step {request : CreateZoneRequest} {zone : Zone} (hdb : DbOk db)
    (h : createZone db caller request = .ok (db', zone)) : DbStep db db' := by
  obtain ⟨st, hc⟩ := createZone_created h
  refine ⟨hdb.created hc, fun s hs => ?_, by rw [hc.nextZoneId]; omega⟩
  rw [hc.stores] at hs
  rcases List.mem_append.1 hs with hs | hs
  · exact .kept hs
  · obtain rfl := List.mem_singleton.1 hs
    exact .created db' hc

omit [Crates] in
theorem deleteZone_step {zoneName : Text} (hdb : DbOk db) (h : deleteZone db caller zoneName = .ok (db', ())) :
    DbStep db db' := by
  obtain ⟨_, _, h⟩ := Fallible.bind_eq_ok.1 h
  obtain ⟨st, _, h⟩ := Fallible.bind_eq_ok.1 h
  cases h
  have hsub : ∀ s ∈ db.stores.filter (·.zone.id ≠ st.zone.id), s ∈ db.stores :=
    fun s hs => List.mem_of_mem_filter hs
  exact ⟨⟨hdb.zoneIds.sublist (List.filter_sublist.map _), hdb.zoneNames.sublist (List.filter_sublist.map _),
    fun s hs => hdb.zoneIdLt s (hsub s hs), fun s hs => hdb.store s (hsub s hs),
    fun s hs => ⟨(hdb.ids s (hsub s hs)).nodup, (hdb.ids s (hsub s hs)).lt⟩⟩,
    fun s hs => .kept (hsub s hs), le_rfl⟩

/-- **One operation.**  Whatever the operation, a zone of the new database was there before, was
advanced by one commit, or was created. -/
theorem execute_step {op : Op} (hdb : DbOk db) (h : execute db op = some db') : DbStep db db' := by
  cases op with
  | createZone caller request =>
      obtain ⟨_, h⟩ := committed_eq_some.1 h
      exact createZone_step hdb h
  | updateZone caller zoneName request =>
      obtain ⟨_, h⟩ := committed_eq_some.1 h
      obtain ⟨_, _, h⟩ := Fallible.bind_eq_ok.1 h
      obtain ⟨_, _, h⟩ := Fallible.bind_eq_ok.1 h
      exact updateLockedZone_step hdb h
  | patchZone caller zoneName patch =>
      obtain ⟨_, h⟩ := committed_eq_some.1 h
      obtain ⟨_, _, h⟩ := Fallible.bind_eq_ok.1 h
      obtain ⟨_, _, h⟩ := Fallible.bind_eq_ok.1 h
      exact updateLockedZone_step hdb h
  | deleteZone caller zoneName =>
      obtain ⟨_, h⟩ := committed_eq_some.1 h
      exact deleteZone_step hdb h
  | forceIncrementSerial zoneName =>
      obtain ⟨_, h⟩ := committed_eq_some.1 h
      exact (forceIncrementSerial_step hdb h).dbStep
  | createRecord caller request =>
      obtain ⟨_, h⟩ := committed_eq_some.1 h
      exact (createRecord_step hdb h).dbStep
  | createBulk caller zoneName items dryRun =>
      obtain ⟨_, h⟩ := committed_eq_some.1 h
      exact (createBulk_step hdb h).dbStep
  | updateById caller id zoneIdRead request =>
      obtain ⟨_, h⟩ := committed_eq_some.1 h
      exact (updateLocked_step hdb h).dbStep
  | patchById caller id zoneIdRead patch =>
      obtain ⟨_, h⟩ := committed_eq_some.1 h
      exact (updateLocked_step hdb h).dbStep
  | deleteById caller id zoneIdRead =>
      obtain ⟨_, h⟩ := committed_eq_some.1 h
      exact (deleteById_step hdb h).dbStep
  | importZoneFile caller zoneName request =>
      obtain ⟨_, h⟩ := committed_eq_some.1 h
      exact (importZoneFile_step hdb h).dbStep
  | applyUpdate update =>
      obtain ⟨_, h⟩ := committed_eq_some.1 h
      exact (applyUpdate_step hdb h).dbStep
  | applyChanges caller zonesRead request =>
      obtain ⟨_, h⟩ := committed_eq_some.1 h
      exact (applyChanges_step hdb h).dbStep
  | rollback caller hash zoneName targetSerial dryRun =>
      obtain ⟨_, h⟩ := committed_eq_some.1 h
      exact rollback_step hdb h
  | setPolicies tokenPolicies tsigPolicies =>
      cases h
      exact ⟨⟨hdb.zoneIds, hdb.zoneNames, hdb.zoneIdLt, hdb.store,
        fun st hst => ⟨(hdb.ids st hst).nodup, (hdb.ids st hst).lt⟩⟩, fun _ hst => .kept hst, le_rfl⟩

end Steps

/-! ### Runs -/

/-- The later state of a zone, reached by commits. -/
def Evolves : ZoneStore → ZoneStore → Prop := Relation.ReflTransGen fun st st' => ∃ cs, Advances cs st st'

theorem Evolves.id {st st' : ZoneStore} (h : Evolves st st') : st'.zone.id = st.zone.id := by
  induction h with
  | refl => rfl
  | tail _ ha ih =>
      obtain ⟨cs, ha⟩ := ha
      rw [ha.id, ih]

theorem Evolves.serial_le {st st' : ZoneStore} (h : Evolves st st') : st.zone.serial ≤ st'.zone.serial := by
  induction h with
  | refl => exact le_rfl
  | tail _ ha ih =>
      obtain ⟨cs, ha⟩ := ha
      have := ha.serial
      omega

/-- A zone that evolved without its serial moving has not changed at all. -/
theorem Evolves.eq_of_serial_eq {st st' : ZoneStore} (h : Evolves st st')
    (e : st'.zone.serial = st.zone.serial) : st' = st := by
  cases h with
  | refl => rfl
  | tail h ha =>
      obtain ⟨cs, ha⟩ := ha
      have h1 := Evolves.serial_le h
      have h2 := ha.serial
      omega

section Runs

variable [Crates]

theorem step_dbStep {db : Db} (op : Op) (hdb : DbOk db) : DbStep db (step db op) := by
  unfold step
  cases h : execute db op with
  | none => exact .refl hdb
  | some db' => exact execute_step hdb h

/-- **The invariant** holds after every history. -/
theorem run_ok (ops : List Op) : DbOk (run ops) :=
  run_invariant dbOk_empty (fun _ _ _ hdb h => (execute_step hdb h).ok) ops

theorem run_nextZoneId_le (pre more : List Op) :
    (run pre).nextZoneId ≤ (run (pre ++ more)).nextZoneId := by
  induction more using List.reverseRecOn with
  | nil => simp
  | append_singleton more op ih =>
      rw [← List.append_assoc, run_concat]
      exact ih.trans (step_dbStep op (run_ok _)).nextZoneId

/-- **Zones evolve.**  The state of a zone at one time evolves into its state at a later time. -/
theorem run_evolves {pre ops : List Op} (hpre : pre <+: ops) {st₀ st : ZoneStore}
    (h₀ : st₀ ∈ (run pre).stores) (h : st ∈ (run ops).stores) (hid : st₀.zone.id = st.zone.id) :
    Evolves st₀ st := by
  obtain ⟨more, rfl⟩ := hpre
  induction more using List.reverseRecOn generalizing st with
  | nil =>
      rw [List.append_nil] at h
      rw [(run_ok pre).eq_of_id_eq h₀ h hid]
      exact .refl
  | append_singleton more op ih =>
      rw [← List.append_assoc, run_concat] at h
      cases (step_dbStep op (run_ok (pre ++ more))).came st h with
      | kept hst => exact ih hid hst
      | advanced st₁ cs hst₁ ha => exact (ih (hid.trans ha.id) hst₁).tail ⟨cs, ha⟩
      | created db' hc =>
          -- a new zone has an id no zone had before
          have h1 := (run_ok pre).zoneIdLt st₀ h₀
          have h2 := run_nextZoneId_le pre more
          have h3 := hc.id
          omega

/-- **Snapshots are of the past.**  Every snapshot of a zone was taken of its row at a time when
the zone had that serial. -/
theorem run_snapshot {ops : List Op} {st : ZoneStore} (h : st ∈ (run ops).stores) {sn : ZoneSnapshot}
    (hsn : sn ∈ st.snapshots) :
    ∃ pre, pre <+: ops ∧ ∃ st₀ ∈ (run pre).stores, st₀.zone.id = st.zone.id ∧
      st₀.zone.serial = sn.serial ∧ st₀.zone.snapshot = .ok sn := by
  have hserial : ∀ {z : Zone}, z.snapshot = .ok sn → z.serial = sn.serial := by
    intro z hz
    obtain ⟨m, _, e⟩ := Fallible.bind_eq_ok.1 hz
    cases e
    rfl
  induction ops using List.reverseRecOn generalizing st with
  | nil => simp [run, Db.empty] at h
  | append_singleton ops op ih =>
      have h' := h
      rw [run_concat] at h
      cases (step_dbStep op (run_ok ops)).came st h with
      | kept hst =>
          obtain ⟨pre, hpre, hrest⟩ := ih hst hsn
          exact ⟨pre, hpre.trans (List.prefix_append _ _), hrest⟩
      | advanced st₁ cs hst₁ ha =>
          obtain ⟨sn', hsn', e⟩ := ha.snapshots
          rw [e] at hsn
          rcases List.mem_append.1 hsn with hsn | hsn
          · obtain ⟨pre, hpre, st₀, hst₀, hid, hrest⟩ := ih hst₁ hsn
            exact ⟨pre, hpre.trans (List.prefix_append _ _), st₀, hst₀, hid.trans ha.id.symm, hrest⟩
          · obtain rfl := List.mem_singleton.1 hsn
            exact ⟨ops ++ [op], List.prefix_rfl, st, h', rfl, hserial hsn', hsn'⟩
      | created db' hc =>
          obtain ⟨sn', hsn', e⟩ := hc.snapshots
          rw [e] at hsn
          obtain rfl := List.mem_singleton.1 hsn
          exact ⟨ops ++ [op], List.prefix_rfl, st, h', rfl, hserial hsn', hsn'⟩

end Runs

end Bindizr
