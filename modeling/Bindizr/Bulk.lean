import Bindizr.Rollback

/-! # Bulk creation

`bindizr-service/src/record/bulk.rs` creates a list of records in one transaction: it loads the rows
that share an owner with the list, checks each record against an index of them that grows with
the list, and writes all of them under one serial.  Creating the records one after another
loads the rows anew for each and takes a serial for each.  Both succeed for the same lists, those
that `Addable` describes, and leave the same rows (`bulk_one_by_one`). -/

namespace Bindizr

section Bulk

variable [crates : Crates]

/-- The records of a list, created one after another in a zone. -/
def createEach (db : Db) (caller : Caller) (zoneName : Text) (items : List RecordItem) : Except ServiceError Db :=
  items.foldlM (fun db item => (createRecord db caller { item with zoneName := zoneName }).map (·.1)) db

/-- The row that an item asks for in a zone. -/
def itemData (zone : Zone) (item : RecordItem) : Except ServiceError RecordData := do
  let prepared ← prepareRecord item
  let owner ← normalizeRecordOwnerName item.name zone.name
  pure (prepared.toData owner zone)

/-- Items that can be added to rows: each asks for a row, and these are acceptable with one another and with the rows
that are there. -/
structure Addable (zone : Zone) (rows : List Record) (items : List RecordItem) (cs : List RecordData) : Prop where
  data : List.Forall₂ (fun item c => itemData zone item = .ok c) items cs
  acceptable : Acceptable ↑cs
  compatible : ∀ r ∈ rows, ∀ c ∈ cs, Compatible r.toRecordData c

theorem addable_nil (zone : Zone) (rows : List Record) : Addable zone rows [] [] :=
  ⟨.nil, acceptable_zero, by simp⟩

/-- The first item is added, and then the others to the rows with it. -/
theorem addable_cons {zone : Zone} {rows : List Record} {item : RecordItem} {items : List RecordItem} {c : RecordData}
    {cs : List RecordData} {r : Record} (hr : r.toRecordData = c) :
    Addable zone rows (item :: items) (c :: cs) ↔ itemData zone item = .ok c ∧ RowOk c ∧
      (∀ s ∈ rows, Compatible s.toRecordData c) ∧ Addable zone (rows ++ [r]) items cs := by
  constructor
  · rintro ⟨hdata, hacc, hcomp⟩
    obtain ⟨hitem, hdata⟩ := List.forall₂_cons.1 hdata
    obtain ⟨hrow, hself, hacc⟩ := acceptable_cons.1 hacc
    refine ⟨hitem, hrow, fun s hs => hcomp s hs c (by simp), hdata, hacc, fun s hs d hd => ?_⟩
    rcases List.mem_append.1 hs with hs | hs
    · exact hcomp s hs d (by simp [hd])
    · rw [List.mem_singleton.1 hs, hr]
      exact hself d hd
  · rintro ⟨hitem, hrow, hcomp, hdata, hacc, hrest⟩
    refine ⟨.cons hitem hdata, acceptable_cons.2 ⟨hrow, fun d hd => hr ▸ hrest r (by simp) d hd, hacc⟩,
      fun s hs d hd => ?_⟩
    rcases List.mem_cons.1 hd with rfl | hd
    · exact hcomp s hs
    · exact hrest s (by simp [hs]) d hd

/-! ### One by one -/

/-- One zone has rows appended and its serial moved; the other zones are as they were. -/
structure AppendsRows (db : Db) (st : ZoneStore) (cs : List RecordData) (k : ℕ) (db' : Db) (st' : ZoneStore) : Prop where
  ok : DbOk db'
  mem : ∀ s, s ∈ db'.stores ↔ s = st' ∨ (s ∈ db.stores ∧ s.zone.id ≠ st.zone.id)
  zone : st'.zone = { st.zone with serial := st.zone.serial + k }
  records : st'.records = st.records ++ Tx.numbered db.nextRecordId cs
  next : db'.nextRecordId = db.nextRecordId + cs.length

omit crates in
theorem numbered_append (n : ℕ) (cs ds : List RecordData) :
    Tx.numbered n (cs ++ ds) = Tx.numbered n cs ++ Tx.numbered (n + cs.length) ds := by
  induction cs generalizing n with
  | nil => rfl
  | cons c cs ih =>
      rw [List.cons_append, Tx.numbered, ih, Tx.numbered, List.length_cons, List.cons_append]
      congr 3
      omega

omit crates in
theorem AppendsRows.trans {db db' db'' : Db} {st st' st'' : ZoneStore} {cs ds : List RecordData} {k l : ℕ}
    (h : AppendsRows db st cs k db' st') (h' : AppendsRows db' st' ds l db'' st'') : AppendsRows db st (cs ++ ds) (k + l) db'' st'' where
  ok := h'.ok
  mem s := by
    have hid : st'.zone.id = st.zone.id := by rw [h.zone]
    rw [h'.mem, h.mem, hid]
    refine or_congr_right ⟨?_, fun hs => ⟨.inr hs, hs.2⟩⟩
    rintro ⟨rfl | hs, hne⟩
    · exact absurd hid hne
    · exact hs
  zone := by
    rw [h'.zone, h.zone]
    simp [add_assoc]
  records := by rw [h'.records, h.records, h.next, numbered_append, List.append_assoc]
  next := by rw [h'.next, h.next, List.length_append, Nat.add_assoc]

omit crates in
theorem appends_insert {db : Db} (hdb : DbOk db) {st : ZoneStore} (hst : st ∈ db.stores) {cs : List RecordData}
    (hacc : Acceptable ↑cs) (hcomp : ∀ r ∈ st.records, ∀ c ∈ cs, Compatible r.toRecordData c) {n : ℤ}
    (hn : generateSerial st.zone.serial = .ok n) {tx : Tx}
    (hadv : ((db.beginTx st).insertRecordsWithChanges n cs).advanceSerial st.zone n = .ok tx) :
    AppendsRows db st cs 1 (db.commit tx) tx.store := by
  have hok := hdb.txOk hst
  have hcommits := commits_insert hok hn (acceptable_live_append hok hacc hcomp) hadv
  obtain ⟨m, -, hadv⟩ := Fallible.bind_eq_ok.1 hadv
  cases hadv
  exact ⟨hdb.commit hst hcommits.toCommits (.inl hcommits.name), fun _ => mem_commit hst rfl, hcommits.zone, rfl, rfl⟩

omit crates in
/-- Nothing but the serial can stop an insertion. -/
theorem exists_insert {db : Db} (hdb : DbOk db) {st : ZoneStore} (hst : st ∈ db.stores) (cs : List RecordData) (n : ℤ) :
    ∃ tx, ((db.beginTx st).insertRecordsWithChanges n cs).advanceSerial st.zone n = .ok tx :=
  (hdb.store st hst).email.saveSnapshot _ _

section Create

variable {db : Db} (hdb : DbOk db) {zoneName : Text} {st : ZoneStore} (hst : db.lookupByName zoneName = .ok st)

include hdb hst

theorem appends_of_createRecord {item : RecordItem} {db' : Db} {r : Record}
    (h : createRecord db .global { item with zoneName := zoneName } = .ok (db', r)) :
    ∃ c st', itemData st.zone item = .ok c ∧ RowOk c ∧ (∀ s ∈ st.records, Compatible s.toRecordData c) ∧
      AppendsRows db st [c] 1 db' st' := by
  obtain ⟨prepared, hprepared, h⟩ := Fallible.bind_eq_ok.1 h
  obtain ⟨store, hstore, h⟩ := Fallible.bind_eq_ok.1 h
  obtain rfl := Except.ok.inj (hst.symm.trans hstore)
  obtain ⟨⟨tx, r'⟩, htx, h⟩ := Fallible.bind_eq_ok.1 h
  cases h
  obtain ⟨owner, howner, htx⟩ := Fallible.bind_eq_ok.1 htx
  obtain ⟨_, -, htx⟩ := Fallible.bind_eq_ok.1 htx
  obtain ⟨_, hvalid, htx⟩ := Fallible.bind_eq_ok.1 htx
  obtain ⟨n, hn, htx⟩ := Fallible.bind_eq_ok.1 htx
  obtain ⟨tx', hadv, htx⟩ := Fallible.bind_eq_ok.1 htx
  cases htx
  obtain ⟨hrow, hcomp⟩ := (validateRecordAddConstraints_filter rfl).1 hvalid
  have hdata : itemData st.zone item = .ok (prepared.toData owner st.zone) := by
    rw [itemData, hprepared, Fallible.ok_bind, show normalizeRecordOwnerName item.name st.zone.name = .ok owner from howner]
    rfl
  exact ⟨_, _, hdata, hrow, hcomp, appends_insert hdb (lookupByName_eq_ok hst).1 (acceptable_singleton.2 hrow)
    (fun s hs c hc => List.mem_singleton.1 hc ▸ hcomp s hs) hn hadv⟩

theorem exists_createRecord {item : RecordItem} {c : RecordData} (hroom : st.zone.serial ≠ i32Max)
    (hdata : itemData st.zone item = .ok c) (hrow : RowOk c) (hcomp : ∀ s ∈ st.records, Compatible s.toRecordData c) :
    ∃ db' r, createRecord db .global { item with zoneName := zoneName } = .ok (db', r) := by
  obtain ⟨prepared, hprepared, hdata⟩ := Fallible.bind_eq_ok.1 hdata
  obtain ⟨owner, howner, hdata⟩ := Fallible.bind_eq_ok.1 hdata
  obtain rfl := Except.ok.inj hdata
  have hvalid := (@validateRecordAddConstraints_filter st.records _ owner rfl).2 ⟨hrow, hcomp⟩
  obtain ⟨tx, hadv⟩ := exists_insert hdb (lookupByName_eq_ok hst).1 [prepared.toData owner st.zone] (st.zone.serial + 1)
  have htx : createRecordTx .global db.tokenPolicies item prepared (db.beginTx st) =
      .ok (tx, { prepared.toData owner st.zone with id := (db.beginTx st).nextRecordId }) := by
    unfold createRecordTx
    simp only [Db.beginTx, Tx.recordsByName, Caller.authorizeRecordWrites, howner, Fallible.ok_bind, hvalid,
      generateSerial_eq_ok.2 ⟨hroom, rfl⟩]
    simp only [Db.beginTx] at hadv
    rw [hadv]
    rfl
  exact ⟨_, _, by rw [createRecord, hprepared, Fallible.ok_bind, hst, Fallible.ok_bind, Db.inTx, htx]; rfl⟩

end Create

/-- After one record the rest of the list meets the rows with it. -/
theorem AppendsRows.addable_iff {db db' : Db} {st st' : ZoneStore} {c : RecordData} {k : ℕ} (h : AppendsRows db st [c] k db' st')
    {items : List RecordItem} {cs : List RecordData} : Addable st'.zone st'.records items cs ↔
      Addable st.zone (st.records ++ [{ c with id := db.nextRecordId }]) items cs := by
  rw [h.zone, h.records]
  exact ⟨fun h => ⟨h.data, h.acceptable, h.compatible⟩, fun h => ⟨h.data, h.acceptable, h.compatible⟩⟩

/-- **One by one.**  A list of records can be created one after another when its rows can be added, and then they
are appended in its order. -/
theorem createEach_eq_ok {db : Db} (hdb : DbOk db) {zoneName : Text} {st : ZoneStore}
    (hst : db.lookupByName zoneName = .ok st) {items : List RecordItem} (hroom : st.zone.serial + items.length ≤ i32Max) :
    ((∃ db', createEach db .global zoneName items = .ok db') ↔ ∃ cs, Addable st.zone st.records items cs) ∧
    ∀ db', createEach db .global zoneName items = .ok db' →
      ∃ cs st', Addable st.zone st.records items cs ∧ AppendsRows db st cs items.length db' st' := by
  induction items generalizing db st with
  | nil =>
      refine ⟨iff_of_true ⟨db, rfl⟩ ⟨[], addable_nil _ _⟩, fun db' h => ?_⟩
      cases h
      refine ⟨[], st, addable_nil _ _, hdb, fun s => ⟨fun hs => ?_, ?_⟩, by simp, by simp [Tx.numbered], rfl⟩
      · by_cases hid : s.zone.id = st.zone.id
        · exact .inl (hdb.eq_of_id_eq hs (lookupByName_eq_ok hst).1 hid)
        · exact .inr ⟨hs, hid⟩
      · rintro (rfl | hs)
        · exact (lookupByName_eq_ok hst).1
        · exact hs.1
  | cons item items ih =>
      have hroom₀ : st.zone.serial ≠ i32Max := by
        simp only [List.length_cons, Nat.cast_add, Nat.cast_one] at hroom
        omega
      -- what is known once the first record is there
      have hrest : ∀ db₁ c st₁, AppendsRows db st [c] 1 db₁ st₁ → db₁.lookupByName zoneName = .ok st₁ ∧
          st₁.zone.serial + items.length ≤ i32Max := fun db₁ c st₁ h => by
        refine ⟨h.ok.lookupByName_eq ((h.mem _).2 (.inl rfl)) (by rw [h.zone]; exact (lookupByName_eq_ok hst).2), ?_⟩
        rw [h.zone]
        simp only [List.length_cons, Nat.cast_add, Nat.cast_one] at hroom ⊢
        omega
      have hrun : ∀ db', createEach db .global zoneName (item :: items) = .ok db' →
          ∃ cs st', Addable st.zone st.records (item :: items) cs ∧ AppendsRows db st cs (items.length + 1) db' st' := by
        intro db' h
        rw [createEach, List.foldlM_cons] at h
        obtain ⟨db₁, hdb₁, h⟩ := Fallible.bind_eq_ok.1 h
        obtain ⟨⟨_, r⟩, hcreate, rfl⟩ := Fallible.map_eq_ok.1 hdb₁
        obtain ⟨c, st₁, hdata, hrow, hcomp, happ⟩ := appends_of_createRecord hdb hst hcreate
        obtain ⟨hst₁, hroom₁⟩ := hrest _ c st₁ happ
        obtain ⟨cs, st', hadds, happ'⟩ := (ih happ.ok hst₁ hroom₁).2 db' h
        refine ⟨c :: cs, st', (addable_cons (r := { c with id := db.nextRecordId }) rfl).2
          ⟨hdata, hrow, hcomp, happ.addable_iff.1 hadds⟩, ?_⟩
        exact Nat.add_comm _ _ ▸ happ.trans happ'
      refine ⟨⟨?_, ?_⟩, hrun⟩
      · rintro ⟨db', h⟩
        obtain ⟨cs, _, hadds, -⟩ := hrun db' h
        exact ⟨cs, hadds⟩
      · rintro ⟨cs, hadds⟩
        obtain ⟨c, cs, -, -, rfl⟩ := List.forall₂_cons_left_iff.1 hadds.data
        obtain ⟨hdata, hrow, hcomp, hadds⟩ := (addable_cons (r := { c with id := db.nextRecordId }) rfl).1 hadds
        obtain ⟨db₁, r, hcreate⟩ := exists_createRecord hdb hst hroom₀ hdata hrow hcomp
        obtain ⟨c', st₁, hdata', -, -, happ⟩ := appends_of_createRecord hdb hst hcreate
        obtain rfl := Except.ok.inj (hdata.symm.trans hdata')
        obtain ⟨hst₁, hroom₁⟩ := hrest _ c st₁ happ
        obtain ⟨db', h⟩ := (ih happ.ok hst₁ hroom₁).1.2 ⟨cs, happ.addable_iff.2 hadds⟩
        exact ⟨db', by rw [createEach, List.foldlM_cons, hcreate]; exact h⟩

/-! ### In bulk -/

theorem prepareRecord_ownerName {item : RecordItem} {p : PreparedRecord} (h : prepareRecord item = .ok p) :
    p.ownerName = item.name := by
  obtain ⟨_, _, h⟩ := Fallible.bind_eq_ok.1 h
  obtain ⟨_, _, h⟩ := Fallible.bind_eq_ok.1 h
  cases h
  rfl

theorem validateBulk_eq_ok {zone : Zone} {indexed : List Record} {items : List RecordItem} {ps : List PreparedRecord}
    (hps : List.Forall₂ (fun item p => prepareRecord item = .ok p) items ps) {cs : List RecordData} :
    validateBulk zone indexed ps = .ok cs ↔ Addable zone indexed items cs := by
  induction hps generalizing indexed cs with
  | nil =>
      rw [validateBulk]
      constructor
      · intro h
        cases h
        exact addable_nil _ _
      · intro h
        rw [List.forall₂_nil_left_iff.1 h.data]
  | @cons item p items ps hp hps ih =>
      have hname := prepareRecord_ownerName hp
      rw [validateBulk, Fallible.bind_eq_ok]
      constructor
      · rintro ⟨owner, howner, h⟩
        obtain ⟨_, hvalid, h⟩ := Fallible.bind_eq_ok.1 h
        obtain ⟨rest, hrest, h⟩ := Fallible.bind_eq_ok.1 h
        cases h
        obtain ⟨hrow, hcomp⟩ := (validateRecordAddConstraints_filter rfl).1 hvalid
        refine (addable_cons (r := { p.toData owner zone with id := 0 }) rfl).2 ⟨?_, hrow, hcomp, ih.1 hrest⟩
        rw [itemData, hp, Fallible.ok_bind, ← hname, howner]
        rfl
      · intro h
        obtain ⟨c, cs, -, -, rfl⟩ := List.forall₂_cons_left_iff.1 h.data
        obtain ⟨hdata, hrow, hcomp, hrest⟩ := (addable_cons (r := { c with id := 0 }) rfl).1 h
        rw [itemData, hp, Fallible.ok_bind, ← hname] at hdata
        obtain ⟨owner, howner, hdata⟩ := Fallible.bind_eq_ok.1 hdata
        obtain rfl := Except.ok.inj hdata
        have hvalid := (validateRecordAddConstraints_filter (c := p.toData owner zone) (n := owner) rfl).2 ⟨hrow, hcomp⟩
        refine ⟨owner, howner, ?_⟩
        simp only [hvalid, Fallible.ok_bind, ih.2 hrest]
        rfl

/-- Loading the rows of the owners in the list is enough. -/
theorem addable_recordsByNames {tx : Tx} {items : List RecordItem} {ps : List PreparedRecord}
    (hps : List.Forall₂ (fun item p => prepareRecord item = .ok p) items ps) {cs : List RecordData} :
    Addable tx.store.zone (tx.recordsByNames ((bulkWrites tx.store.zone ps).map (·.relativeName))) items cs ↔
      Addable tx.store.zone tx.store.records items cs := by
  constructor
  · intro h
    have hval := (validateBulk_eq_ok hps).2 h
    have hnames : ∀ c ∈ cs, c.name ∈ (bulkWrites tx.store.zone ps).map (·.relativeName) := fun c hc =>
      List.mem_map_of_mem (f := fun w : RecordWrite => w.relativeName) (mem_bulkWrites_of_validateBulk hval hc)
    exact ⟨h.data, h.acceptable, fun r hr => compatible_of_names hnames fun hname =>
      h.compatible r (List.mem_filter.2 ⟨hr, by simpa using hname⟩)⟩
  · intro h
    exact ⟨h.data, h.acceptable, fun r hr => h.compatible r (List.mem_of_mem_filter hr)⟩

/-- **In bulk.**  A list is created in bulk when its rows can be added and there is a serial, and then they are appended
in its order. -/
theorem createBulk_eq_ok {db : Db} (hdb : DbOk db) {zoneName : Text} {st : ZoneStore}
    (hst : db.lookupByName zoneName = .ok st) {items : List RecordItem} (hitems : items ≠ [])
    (hroom : st.zone.serial ≠ i32Max) :
    ((∃ s, createBulk db .global zoneName items false = .ok s) ↔ ∃ cs, Addable st.zone st.records items cs) ∧
    ∀ db' rs, createBulk db .global zoneName items false = .ok (db', rs) →
      ∃ cs st', Addable st.zone st.records items cs ∧ AppendsRows db st cs 1 db' st' := by
  have hmem := (lookupByName_eq_ok hst).1
  have hrun : ∀ db' rs, createBulk db .global zoneName items false = .ok (db', rs) →
      ∃ cs st', Addable st.zone st.records items cs ∧ AppendsRows db st cs 1 db' st' := by
    intro db' rs h
    rw [createBulk, if_neg hitems] at h
    obtain ⟨ps, hps, h⟩ := Fallible.bind_eq_ok.1 h
    rw [hst, Fallible.ok_bind] at h
    obtain ⟨⟨tx, rs'⟩, htx, h⟩ := Fallible.bind_eq_ok.1 h
    cases h
    obtain ⟨s, hs, htx⟩ := Fallible.bind_eq_ok.1 htx
    obtain ⟨-, hexisting, hn, hval⟩ := bulkSteps_eq_ok.1 hs
    rw [hexisting] at hval
    obtain ⟨tx', hadv, htx⟩ := Fallible.bind_eq_ok.1 htx
    cases htx
    have hps := Fallible.mapM_eq_ok_iff.1 hps
    have hadds := (addable_recordsByNames hps).1 ((validateBulk_eq_ok hps).1 hval)
    exact ⟨s.toInsert, _, hadds, appends_insert hdb hmem hadds.acceptable hadds.compatible hn hadv⟩
  refine ⟨⟨fun ⟨⟨db', rs⟩, h⟩ => ?_, fun ⟨cs, hadds⟩ => ?_⟩, hrun⟩
  · obtain ⟨cs, _, hadds, -⟩ := hrun db' rs h
    exact ⟨cs, hadds⟩
  · obtain ⟨ps, hps⟩ : ∃ ps, items.mapM prepareRecord = .ok ps :=
      Fallible.mapM_eq_ok_of_forall fun item hitem => by
        obtain ⟨c, -, hdata⟩ := Fallible.exists_of_mapM (Fallible.mapM_eq_ok_iff.2 hadds.data) hitem
        obtain ⟨p, hp, -⟩ := Fallible.bind_eq_ok.1 hdata
        exact ⟨p, hp⟩
    have hval := (validateBulk_eq_ok (Fallible.mapM_eq_ok_iff.1 hps)).2
      ((@addable_recordsByNames _ (db.beginTx st) _ _ (Fallible.mapM_eq_ok_iff.1 hps) _).2 hadds)
    obtain ⟨tx, hadv⟩ := exists_insert hdb hmem cs (st.zone.serial + 1)
    have htx : createBulkTx .global db.tokenPolicies ps false (db.beginTx st) =
        .ok (tx, Tx.numbered (db.beginTx st).nextRecordId cs) := by
      have hs : bulkSteps .global db.tokenPolicies ps (db.beginTx st) = .ok ⟨_, st.zone.serial + 1, cs⟩ :=
        bulkSteps_eq_ok.2 ⟨rfl, rfl, generateSerial_eq_ok.2 ⟨hroom, rfl⟩, hval⟩
      refine Fallible.bind_eq_ok.2 ⟨_, hs, ?_⟩
      rw [if_neg Bool.false_ne_true]
      exact Fallible.bind_eq_ok.2 ⟨tx, hadv, rfl⟩
    exact ⟨_, by rw [createBulk, if_neg hitems, hps, Fallible.ok_bind, hst, Fallible.ok_bind, Db.inTx, htx]; rfl⟩

/-- **Bulk creation is creation one by one.**  For well-formed zones with room for as many serials as there are items,
and a list that is not empty: bulk creation succeeds exactly when creating the items one after another does; when both
succeed every zone has the same rows; and when bulk creation fails the database is as it was. -/
theorem bulk_one_by_one {db : Db} (hdb : DbOk db) {zoneName : Text} {items : List RecordItem} (hitems : items ≠ [])
    (hroom : ∀ st, db.lookupByName zoneName = .ok st → st.zone.serial + items.length ≤ i32Max) :
    ((∃ db₁ rs, createBulk db .global zoneName items false = .ok (db₁, rs)) ↔
      ∃ db₂, createEach db .global zoneName items = .ok db₂) ∧
    (∀ db₁ rs db₂, createBulk db .global zoneName items false = .ok (db₁, rs) →
      createEach db .global zoneName items = .ok db₂ →
      ∀ st₁ ∈ db₁.stores, ∃ st₂ ∈ db₂.stores, st₁.zone.id = st₂.zone.id ∧ st₁.rows = st₂.rows) ∧
    ∀ e, createBulk db .global zoneName items false = .error e →
      step db (.createBulk .global zoneName items false) = db := by
  have hkept : ∀ e, createBulk db .global zoneName items false = .error e →
      step db (.createBulk .global zoneName items false) = db := fun e he => by
    rw [step, execute, he]
    rfl
  cases hst : db.lookupByName zoneName with
  | error e =>
      have hbulk : ∀ s, createBulk db .global zoneName items false ≠ .ok s := fun s h => by
        rw [createBulk, if_neg hitems] at h
        obtain ⟨ps, -, h⟩ := Fallible.bind_eq_ok.1 h
        rw [hst] at h
        cases h
      have heach : ∀ db₂, createEach db .global zoneName items ≠ .ok db₂ := fun db₂ h => by
        obtain ⟨item, rest, rfl⟩ := List.exists_cons_of_ne_nil hitems
        rw [createEach, List.foldlM_cons] at h
        obtain ⟨db₁, hdb₁, -⟩ := Fallible.bind_eq_ok.1 h
        obtain ⟨s, hcreate, -⟩ := Fallible.map_eq_ok.1 hdb₁
        obtain ⟨p, -, hcreate⟩ := Fallible.bind_eq_ok.1 hcreate
        rw [show db.lookupByName zoneName = .error e from hst] at hcreate
        cases hcreate
      refine ⟨⟨?_, ?_⟩, fun _ _ _ h => absurd h (hbulk _), hkept⟩
      · rintro ⟨_, _, h⟩
        exact absurd h (hbulk _)
      · rintro ⟨_, h⟩
        exact absurd h (heach _)
  | ok st =>
      have hroom := hroom st hst
      have hone : st.zone.serial ≠ i32Max := by
        have hlen := List.length_pos_iff.2 hitems
        omega
      obtain ⟨hbulk, hbulkRows⟩ := createBulk_eq_ok hdb hst hitems hone
      obtain ⟨heach, heachRows⟩ := createEach_eq_ok hdb hst hroom
      refine ⟨?_, fun db₁ rs db₂ h₁ h₂ st₁ hst₁ => ?_, hkept⟩
      · rw [heach, ← hbulk]
        constructor
        · rintro ⟨db₁, rs, h⟩
          exact ⟨_, h⟩
        · rintro ⟨⟨db₁, rs⟩, h⟩
          exact ⟨db₁, rs, h⟩
      · obtain ⟨cs, s₁, hadds₁, happ₁⟩ := hbulkRows db₁ rs h₁
        obtain ⟨ds, s₂, hadds₂, happ₂⟩ := heachRows db₂ h₂
        obtain rfl : cs = ds := by
          have hcs := Fallible.mapM_eq_ok_iff.2 hadds₁.data
          rw [Fallible.mapM_eq_ok_iff.2 hadds₂.data] at hcs
          exact (Except.ok.inj hcs).symm
        rcases (happ₁.mem st₁).1 hst₁ with rfl | hother
        · refine ⟨s₂, (happ₂.mem s₂).2 (.inl rfl), by rw [happ₁.zone, happ₂.zone], ?_⟩
          rw [ZoneStore.rows, ZoneStore.rows, ZoneStore.liveRecords, ZoneStore.liveRecords, happ₁.records, happ₂.records]
        · exact ⟨st₁, (happ₂.mem st₁).2 (.inr hother), rfl, rfl⟩

end Bulk

/-- Two addresses of one owner and a text of another. -/
def bulkItems : List RecordItem :=
  [sampleItem "app" "A" "192.0.2.7", sampleItem "app" "A" "192.0.2.8", sampleItem "info" "TXT" "hello"]

theorem bulk_one_by_one_sampleHistory :
    ∃ db₁ rs db₂, @createBulk sampleCrates (@run sampleCrates sampleHistory) .global (lit "example.com") bulkItems false =
        .ok (db₁, rs) ∧
      @createEach sampleCrates (@run sampleCrates sampleHistory) .global (lit "example.com") bulkItems = .ok db₂ ∧
      ∀ st₁ ∈ db₁.stores, ∃ st₂ ∈ db₂.stores, st₁.zone.id = st₂.zone.id ∧ st₁.rows = st₂.rows := by
  have hserial : ∀ st ∈ (@run sampleCrates sampleHistory).stores, st.zone.serial + bulkItems.length ≤ i32Max := by
    decide +kernel
  obtain ⟨hiff, hrows, -⟩ := @bulk_one_by_one sampleCrates _ (@run_ok sampleCrates sampleHistory) (lit "example.com")
    bulkItems (by simp [bulkItems]) fun st hst => hserial st (lookupByName_eq_ok hst).1
  obtain ⟨⟨db₁, rs⟩, h₁⟩ := Fallible.exists_of_isOk (x := @createBulk sampleCrates (@run sampleCrates sampleHistory) .global
    (lit "example.com") bulkItems false) (by decide +kernel)
  obtain ⟨db₂, h₂⟩ := hiff.1 ⟨db₁, rs, h₁⟩
  exact ⟨db₁, rs, db₂, h₁, h₂, hrows db₁ rs db₂ h₁ h₂⟩

end Bindizr
