import Bindizr.Reads
import Bindizr.Operations

/-! # What a scoped token can find out about other zones

Two databases that agree on everything granted to a token should be the same to it.  They are,
for every read but two kinds (`reads_agree_iff`).  Where the zone is given in another spelling
than the stored one, the text of the not-found error repeats the spelling of the request in
one case and the stored name in the other, and so tells a zone that exists from one that does
not.  And a list whose search is too long a pattern for SQLite fails only when the search is made,
at a row that passes the other criteria: where the scope is decided after the search, a row of a
zone that is not granted makes the list fail (`listByFilter_hiddenZone`). -/

namespace Bindizr

/-! ### Reads and their results -/

/-- A read a token can make. -/
inductive Read where
  | getByName (zoneName : Text)
  | listByFilter (filter : GetZonesFilter)
  | listInZone (zoneName : Text)
  | listWithZoneByFilter (filter : GetRecordsFilter)
  | getByIdWithZone (id : ℕ)
  | listSnapshots (zoneName : Text) (limit offset : Option ℕ)
  | getSnapshot (zoneName : Text) (serial : ℤ)
  | diffSnapshots (zoneName : Text) (fromSerial : ℤ) (toSerial : Option ℤ)
  | exportZoneFile (zoneName : Text)

inductive ReadResult where
  | zone (zone : Zone)
  | zones (zones : PaginatedResponse Zone)
  | records (records : List Record)
  | recordPage (records : PaginatedResponse RecordWithZone)
  | record (record : RecordWithZone)
  | snapshots (snapshots : PaginatedResponse ZoneSnapshot)
  | snapshot (snapshot : ZoneSnapshot × List RecordData)
  | diff (diff : SnapshotDiffResponse)
  | zoneFile (text : Text)
  deriving DecidableEq

/-- The answer of a read; `scopeFirst` is the planner's choice for the lists. -/
def Read.result [Crates] (scopeFirst : Bool) (db : Db) (caller : Caller) : Read → Except ServiceError ReadResult
  | .getByName zoneName => (Bindizr.getByName db caller zoneName).map .zone
  | .listByFilter filter => (Bindizr.listByFilter scopeFirst db caller filter).map .zones
  | .listInZone zoneName => (Bindizr.listInZone db caller zoneName).map .records
  | .listWithZoneByFilter filter => (Bindizr.listWithZoneByFilter scopeFirst db caller filter).map .recordPage
  | .getByIdWithZone id => (Bindizr.getByIdWithZone db caller id).map .record
  | .listSnapshots zoneName limit offset => (Bindizr.listSnapshots db caller zoneName limit offset).map .snapshots
  | .getSnapshot zoneName serial => (Bindizr.getSnapshot db caller zoneName serial).map .snapshot
  | .diffSnapshots zoneName fromSerial toSerial =>
      (Bindizr.diffSnapshots db caller zoneName fromSerial toSerial).map .diff
  | .exportZoneFile zoneName => (Bindizr.exportZoneFile db caller zoneName).map .zoneFile

/-! ### Databases that agree on what a token sees -/

/-- The caller a scoped token is authenticated as: its grants are the policy rows it has. -/
def Caller.fromToken (db : Db) (tokenId : ℕ) : Caller :=
  .token tokenId (db.tokenPolicies.filter (·.holderId == tokenId))

/-- The zones granted to a token, with their rows. -/
def Db.granted (db : Db) (tokenId : ℕ) : List ZoneStore :=
  db.stores.filter fun st => db.inScope (some tokenId) st.zone.id

/-- Two databases that agree on a token's policies and on the zones granted to it. -/
structure AgreeOn (tokenId : ℕ) (db db' : Db) : Prop where
  policies : db.tokenPolicies.filter (·.holderId == tokenId) = db'.tokenPolicies.filter (·.holderId == tokenId)
  granted : db.granted tokenId = db'.granted tokenId

/-- The schema's unique index on zone names. -/
def Db.UniqueNames (db : Db) : Prop := (db.stores.map (·.zone.name)).Nodup

section Lookup

variable {db db' : Db} {tokenId : ℕ}

theorem inScope_iff {zoneId : ℕ} :
    db.inScope (some tokenId) zoneId = true ↔
      ∃ p ∈ db.tokenPolicies.filter (·.holderId == tokenId), p.zoneId = zoneId := by
  simp [Db.inScope, unlessNull, and_assoc]

theorem AgreeOn.inScope (h : AgreeOn tokenId db db') (zoneId : ℕ) :
    db.inScope (some tokenId) zoneId = db'.inScope (some tokenId) zoneId := by
  rw [Bool.eq_iff_iff, inScope_iff, inScope_iff, h.policies]

theorem zoneVisible_fromToken (zoneId : ℕ) :
    (Caller.fromToken db tokenId).zoneVisible zoneId = db.inScope (some tokenId) zoneId := by
  rw [Bool.eq_iff_iff, inScope_iff]
  simp [Caller.fromToken, Caller.zoneVisible, and_assoc]

def Db.grantedByName (db : Db) (tokenId : ℕ) (name : ZoneName) : Option ZoneStore :=
  (db.granted tokenId).find? (·.zone.name == name)

theorem AgreeOn.grantedByName (h : AgreeOn tokenId db db') (name : ZoneName) :
    db.grantedByName tokenId name = db'.grantedByName tokenId name := by
  rw [Db.grantedByName, Db.grantedByName, h.granted]

theorem grantedByName_eq_some (hnames : db.UniqueNames) {name : ZoneName} {st : ZoneStore}
    (h : db.grantedByName tokenId name = some st) :
    db.getZoneByName name = some st ∧ st.zone.name = name ∧ db.inScope (some tokenId) st.zone.id = true := by
  obtain ⟨hst, hscope⟩ := List.mem_filter.1 (List.mem_of_find?_eq_some h)
  have hname : st.zone.name = name := by simpa using List.find?_some h
  refine ⟨?_, hname, hscope⟩
  cases hget : db.getZoneByName name with
  | none => exact absurd (List.find?_eq_none.1 hget st hst) (by simp [hname])
  | some st' =>
      have hname' : st'.zone.name = name := by simpa using List.find?_some hget
      rw [List.inj_on_of_nodup_map hnames (List.mem_of_find?_eq_some hget) hst (hname'.trans hname.symm)]

theorem grantedByName_eq_none {name : ZoneName} (h : db.grantedByName tokenId name = none) {st : ZoneStore}
    (hget : db.getZoneByName name = some st) :
    st.zone.name = name ∧ db.inScope (some tokenId) st.zone.id = false := by
  have hname : st.zone.name = name := by simpa using List.find?_some hget
  refine ⟨hname, ?_⟩
  by_contra hscope
  have hmem : st ∈ db.granted tokenId :=
    List.mem_filter.2 ⟨List.mem_of_find?_eq_some hget, by simpa using hscope⟩
  exact List.find?_eq_none.1 h st hmem (by simp [hname])

/-- What a lookup found, or the error with the text `t`. -/
def foundOr (found : Option ZoneStore) (t : Text) : Except ServiceError ZoneStore :=
  match found with
  | some st => .ok st
  | none => .error (.zoneNotFound t)

/-- `get_by_name` finds the granted zone of a name; the error for any other name repeats the
request where there is no zone, and gives the stored name where there is one. -/
theorem getStoreByName_eq (hnames : db.UniqueNames) {zoneName : Text} {name : ZoneName}
    (hname : normalizeZoneName zoneName = .ok name) :
    getStoreByName db (Caller.fromToken db tokenId) zoneName =
      foundOr (db.grantedByName tokenId name)
        (if (db.getZoneByName name).isSome then name.text else zoneName) := by
  cases hg : db.grantedByName tokenId name with
  | some st =>
      obtain ⟨hget, _, hscope⟩ := grantedByName_eq_some hnames hg
      simp [foundOr, getStoreByName, Db.lookupByName, Db.findByName, hname, hget, Caller.ensureZoneVisible,
        zoneVisible_fromToken, hscope, bind, Except.bind, pure, Except.pure]
  | none =>
      cases hget : db.getZoneByName name with
      | none =>
          simp [foundOr, getStoreByName, Db.lookupByName, Db.findByName, hname, hget, bind, Except.bind, pure, Except.pure]
      | some st =>
          obtain ⟨e, hscope⟩ := grantedByName_eq_none hg hget
          simp [foundOr, getStoreByName, Db.lookupByName, Db.findByName, hname, hget, Caller.ensureZoneVisible,
            zoneVisible_fromToken, hscope, e, bind, Except.bind, pure, Except.pure]

/-- The lookup of the snapshot reads has the two texts the other way round. -/
theorem getStoreForHistory_eq (hnames : db.UniqueNames) {zoneName : Text} {name : ZoneName}
    (hname : normalizeZoneName zoneName = .ok name) :
    getStoreForHistory db (Caller.fromToken db tokenId) zoneName =
      foundOr (db.grantedByName tokenId name)
        (if (db.getZoneByName name).isSome then zoneName else name.text) := by
  cases hg : db.grantedByName tokenId name with
  | some st =>
      obtain ⟨hget, _, hscope⟩ := grantedByName_eq_some hnames hg
      simp [foundOr, getStoreForHistory, Db.lookupByName, Db.findByName, hname, normalizeZoneName_text, hget,
        zoneVisible_fromToken, hscope, bind, Except.bind, pure, Except.pure]
  | none =>
      cases hget : db.getZoneByName name with
      | none =>
          simp [foundOr, getStoreForHistory, Db.lookupByName, Db.findByName, hname, normalizeZoneName_text, hget, bind,
            Except.bind, pure, Except.pure]
      | some st =>
          obtain ⟨_, hscope⟩ := grantedByName_eq_none hg hget
          simp [foundOr, getStoreForHistory, Db.lookupByName, Db.findByName, hname, normalizeZoneName_text, hget,
            zoneVisible_fromToken, hscope, bind, Except.bind, pure, Except.pure]

theorem exportZoneFile_eq [Crates] (hnames : db.UniqueNames) {zoneName : Text} {name : ZoneName}
    (hname : normalizeZoneName zoneName = .ok name) :
    exportZoneFile db (Caller.fromToken db tokenId) zoneName =
      match db.grantedByName tokenId name with
      | some st => renderZoneFile st.zone st.listRecords
      | none => .error (.zoneNotFound zoneName) := by
  cases hg : db.grantedByName tokenId name with
  | some st =>
      obtain ⟨hget, _, hscope⟩ := grantedByName_eq_some hnames hg
      simp [exportZoneFile, hname, hget, zoneVisible_fromToken, hscope, bind, Except.bind]
  | none =>
      cases hget : db.getZoneByName name with
      | none => simp [exportZoneFile, hname, hget, bind, Except.bind]
      | some st =>
          obtain ⟨_, hscope⟩ := grantedByName_eq_none hg hget
          simp [exportZoneFile, hname, hget, zoneVisible_fromToken, hscope, bind, Except.bind]

end Lookup

/-! ### The lists -/

section Lists

variable {db db' : Db} {tokenId : ℕ} {scopeFirst : Bool} {pattern : Option Text}

/-- A pattern that SQLite refuses to match with. -/
def patternTooLong (pattern : Option Text) : Bool :=
  pattern.any fun p => decide (likePatternMax < byteLen (toAsciiLowercase p))

theorem sqlSearch_of_tooLong (h : patternTooLong pattern = true) {t : Text} {ts : List Text} :
    sqlSearch pattern (t :: ts) = .error likeError := by
  obtain ⟨p, rfl, hp⟩ := (Option.any_eq_true ..).1 h
  rw [sqlSearch, List.anyM, sqlLowerLike, if_pos (of_decide_eq_true hp)]
  rfl

theorem sqlSearch_of_fits (h : patternTooLong pattern = false) (ts : List Text) :
    ∃ found, sqlSearch pattern ts = .ok found := by
  cases pattern with
  | none => exact ⟨true, rfl⟩
  | some p =>
      induction ts with
      | nil => exact ⟨false, rfl⟩
      | cons t ts ih =>
          have hp : ¬ likePatternMax < byteLen (toAsciiLowercase p) := of_decide_eq_false h
          rw [sqlSearch, List.anyM, sqlLowerLike, if_neg hp, Fallible.ok_bind]
          cases sqlLike (toAsciiLowercase p) (toAsciiLowercase t) with
          | true => exact ⟨true, rfl⟩
          | false => exact ih

theorem sqlWhere_ok (criteria inScope found : Bool) :
    sqlWhere scopeFirst criteria inScope (.ok found) = .ok ((criteria && found) && inScope) := by
  cases criteria <;> cases inScope <;> cases scopeFirst <;> cases found <;> rfl

theorem filterM_of_fits {α : Type} (h : patternTooLong pattern = false) (criteria : α → Bool) (texts : α → List Text) :
    ∃ selects : α → Bool, ∀ (rows : List α) (inScope : α → Bool),
      rows.filterM (fun r => sqlWhere scopeFirst (criteria r) (inScope r) (sqlSearch pattern (texts r))) =
        .ok ((rows.filter inScope).filter selects) := by
  choose found hfound using sqlSearch_of_fits h
  refine ⟨fun r => criteria r && found (texts r), fun rows inScope => ?_⟩
  rw [List.filter_filter]
  exact Fallible.filterM_eq_ok fun r _ => by rw [hfound, sqlWhere_ok]

theorem filterM_of_tooLong {α : Type} (h : patternTooLong pattern = true) (criteria inScope : α → Bool) {texts : α → List Text}
    (htexts : ∀ r, texts r ≠ []) (rows : List α) :
    rows.filterM (fun r => sqlWhere scopeFirst (criteria r) (inScope r) (sqlSearch pattern (texts r))) =
      if rows.any fun r => searches scopeFirst (criteria r) (inScope r) then .error likeError else .ok [] := by
  refine Fallible.filterM_eq_error fun r _ => ?_
  obtain ⟨t, ts, e⟩ := List.exists_cons_of_ne_nil (htexts r)
  rw [e, sqlSearch_of_tooLong h, sqlWhere]
  rfl

theorem filterM_agree_iff {α β : Type} (criteria : α → Bool) {texts : α → List Text} (htexts : ∀ r, texts r ≠ [])
    {rows rows' : List α} {inScope inScope' : α → Bool} (hscope : rows.filter inScope = rows'.filter inScope')
    (failed : Text → ServiceError) (answer : List α → β) :
    ((rows.filterM fun r => sqlWhere scopeFirst (criteria r) (inScope r) (sqlSearch pattern (texts r))).mapError failed >>=
          fun rows => pure (answer rows)) =
        ((rows'.filterM fun r => sqlWhere scopeFirst (criteria r) (inScope' r) (sqlSearch pattern (texts r))).mapError failed >>=
          fun rows => pure (answer rows)) ↔
      (patternTooLong pattern = true →
        ((∃ r ∈ rows, searches scopeFirst (criteria r) (inScope r) = true) ↔
          ∃ r ∈ rows', searches scopeFirst (criteria r) (inScope' r) = true)) := by
  cases hlong : patternTooLong pattern with
  | true =>
      rw [filterM_of_tooLong hlong _ _ htexts, filterM_of_tooLong hlong _ _ htexts, ← List.any_eq_true, ← List.any_eq_true,
        forall_prop_of_true rfl]
      cases (rows.any fun r => searches scopeFirst (criteria r) (inScope r)) <;>
        cases (rows'.any fun r => searches scopeFirst (criteria r) (inScope' r)) <;>
        simp [Except.mapError, bind, Except.bind, pure, Except.pure]
  | false =>
      obtain ⟨selects, hselects⟩ := @filterM_of_fits scopeFirst pattern _ hlong criteria texts
      refine iff_of_true ?_ fun hfalse => absurd hfalse Bool.false_ne_true
      rw [hselects, hselects, hscope]

theorem listByFilter_agree_iff (h : AgreeOn tokenId db db') (filter : GetZonesFilter) :
    listByFilter scopeFirst db (Caller.fromToken db tokenId) filter =
        listByFilter scopeFirst db' (Caller.fromToken db' tokenId) filter ↔
      (patternTooLong (likePattern filter.search) = true →
        ((∃ st ∈ db.stores, searches scopeFirst (filter.selects st.zone) (db.inScope (some tokenId) st.zone.id) = true) ↔
          ∃ st ∈ db'.stores, searches scopeFirst (filter.selects st.zone) (db'.inScope (some tokenId) st.zone.id) = true)) :=
  filterM_agree_iff (fun st : ZoneStore => filter.selects st.zone) (fun _ => List.cons_ne_nil _ _) h.granted _ _

theorem joined_filter_eq (d : Db) : ((d.stores.flatMap ZoneStore.joined).filter fun r => d.inScope (some tokenId) r.zoneId) =
    (d.granted tokenId).flatMap ZoneStore.joined := by
  rw [Db.granted]
  induction d.stores with
  | nil => rfl
  | cons st sts ih =>
      have hid : ∀ r ∈ st.joined, r.zoneId = st.zone.id := by
        intro r hr
        obtain ⟨x, _, rfl⟩ := List.mem_map.1 hr
        rfl
      rw [List.flatMap_cons, List.filter_append, ih, List.filter_cons]
      split
      · rename_i hscope
        rw [List.flatMap_cons, List.filter_eq_self.2 fun r hr => by rw [hid r hr, hscope]]
      · rename_i hscope
        rw [List.filter_eq_nil_iff.2 fun r hr => by rw [hid r hr]; exact hscope, List.nil_append]

/-- The rows a record list makes its search at. -/
def GetRecordsFilter.Searches [Crates] (scopeFirst : Bool) (db : Db) (tokenId : ℕ) (filter : GetRecordsFilter) : Prop :=
  ∃ zoneName, filter.zoneName.mapM normalizeZoneName = .ok zoneName ∧ ∃ r ∈ db.stores.flatMap ZoneStore.joined,
    searches scopeFirst (filter.selects zoneName (normalizeFilterRecordName filter.name zoneName) r)
      (db.inScope (some tokenId) r.zoneId) = true

theorem listWithZoneByFilter_agree_iff [Crates] (h : AgreeOn tokenId db db') (filter : GetRecordsFilter) :
    listWithZoneByFilter scopeFirst db (Caller.fromToken db tokenId) filter =
        listWithZoneByFilter scopeFirst db' (Caller.fromToken db' tokenId) filter ↔
      (patternTooLong (likePattern filter.search) = true →
        (filter.Searches scopeFirst db tokenId ↔ filter.Searches scopeFirst db' tokenId)) := by
  unfold GetRecordsFilter.Searches
  cases hzone : filter.zoneName.mapM normalizeZoneName with
  | error e => simp [listWithZoneByFilter, hzone]
  | ok zoneName =>
      have hjoined : ∀ d : Db, ((d.stores.flatMap ZoneStore.joined).filter fun r => d.inScope (some tokenId) r.zoneId) = _ :=
        joined_filter_eq
      have hagree := @filterM_agree_iff scopeFirst (likePattern filter.search) _ _
        (filter.selects zoneName (normalizeFilterRecordName filter.name zoneName))
        RecordWithZone.searched (fun _ => List.cons_ne_nil _ _) _ _ _ _
        ((hjoined db).trans ((congrArg _ h.granted).trans (hjoined db').symm))
        (fun e => ⟨.internal, lit "failed to count records: " ++ e⟩)
        fun rows => paginatedResponse (page filter.limit filter.offset (rows.mergeSort recordRowLe)) filter.limit filter.offset
          (rows.mergeSort recordRowLe).length
      simp only [Except.ok.injEq, exists_eq_left']
      rw [listWithZoneByFilter, listWithZoneByFilter, hzone]
      exact hagree

theorem getByIdWithZone_eq {id : ℕ} (h : ∀ st ∈ db.granted tokenId, ∀ r ∈ st.records, r.id ≠ id) :
    getByIdWithZone db (Caller.fromToken db tokenId) id = .error (.recordNotFound id) := by
  unfold getByIdWithZone
  split
  · rfl
  · rename_i r hr
    rw [if_neg]
    intro hvis
    rw [zoneVisible_fromToken] at hvis
    obtain ⟨st, hst, hr'⟩ := List.mem_flatMap.1 (List.mem_of_find?_eq_some hr)
    obtain ⟨x, hx, rfl⟩ := List.mem_map.1 hr'
    exact h st (List.mem_filter.2 ⟨hst, hvis⟩) x hx (by simpa using List.find?_some hr)

end Lists

/-! ### Which reads agree -/

/-- The zone name of a read whose not-found error gives it in one of two spellings. -/
def Read.spelling : Read → Option Text
  | .getByName zoneName | .listInZone zoneName | .listSnapshots zoneName _ _ | .getSnapshot zoneName _
  | .diffSnapshots zoneName _ _ => some zoneName
  | .listByFilter _ | .listWithZoneByFilter _ | .getByIdWithZone _ | .exportZoneFile _ => none

/-- The name is in the stored spelling, or a zone of that name is in both databases or in neither. -/
def SameExistence (db db' : Db) (zoneName : Text) : Prop :=
  ∀ name, normalizeZoneName zoneName = .ok name → name.text ≠ zoneName →
    ((db.getZoneByName name).isSome = true ↔ (db'.getZoneByName name).isSome = true)

/-- The read is a list whose search is a pattern that is too long. -/
def Read.tooLong : Read → Bool
  | .listByFilter filter => patternTooLong (likePattern filter.search)
  | .listWithZoneByFilter filter => patternTooLong (likePattern filter.search)
  | _ => false

/-- The read is a list that makes its search at some row. -/
def Read.Searches [Crates] (scopeFirst : Bool) (db : Db) (tokenId : ℕ) : Read → Prop
  | .listByFilter filter => ∃ st ∈ db.stores,
      searches scopeFirst (filter.selects st.zone) (db.inScope (some tokenId) st.zone.id) = true
  | .listWithZoneByFilter filter => filter.Searches scopeFirst db tokenId
  | _ => False

/-- The two databases do not differ in the things that the errors of a read tell. -/
structure Read.Uniform [Crates] (scopeFirst : Bool) (tokenId : ℕ) (db db' : Db) (rd : Read) : Prop where
  spelling : ∀ zoneName, rd.spelling = some zoneName → SameExistence db db' zoneName
  pattern : rd.tooLong = true → (rd.Searches scopeFirst db tokenId ↔ rd.Searches scopeFirst db' tokenId)

theorem zoneNotFound_inj {t t' : Text} : ServiceError.zoneNotFound t = ServiceError.zoneNotFound t' ↔ t = t' := by
  simp [ServiceError.zoneNotFound]

theorem foundOr_bind_iff {α : Type} {found : Option ZoneStore} {t t' : Text}
    {f : ZoneStore → Except ServiceError α} :
    foundOr found t >>= f = foundOr found t' >>= f ↔ found.isSome ∨ t = t' := by
  cases found with
  | some st => simp [foundOr]
  | none => simp [foundOr, bind, Except.bind, zoneNotFound_inj]

theorem map_bind {α β : Type} (x : Except ServiceError ZoneStore) (f : ZoneStore → Except ServiceError α)
    (g : α → β) : (x >>= f).map g = x >>= fun st => (f st).map g := by
  cases x <;> rfl

theorem ite_text_iff {b b' : Bool} {t t' : Text} :
    (if b then t else t') = (if b' then t else t') ↔ (t ≠ t' → (b = true ↔ b' = true)) := by
  cases b <;> cases b' <;> simp [eq_comm]

theorem map_inj_iff {α β : Type} {f : α → β} (hf : Function.Injective f) {x x' : Except ServiceError α} :
    x.map f = x'.map f ↔ x = x' := by
  cases x <;> cases x' <;> simp [Except.map, hf.eq_iff]

section Agree

variable [Crates] {db db' : Db} {tokenId : ℕ}

theorem Read.uniform_iff_of_spelling {scopeFirst : Bool} {rd : Read} {zoneName : Text} (hs : rd.spelling = some zoneName) :
    rd.Uniform scopeFirst tokenId db db' ↔ SameExistence db db' zoneName := by
  have hlong : rd.tooLong = false := by cases rd <;> first | rfl | cases hs
  constructor
  · intro h
    exact h.spelling zoneName hs
  · intro h
    refine ⟨fun z hz => ?_, fun ht => ?_⟩
    · obtain rfl := Option.some.inj (hs.symm.trans hz)
      exact h
    · rw [hlong] at ht
      cases ht

theorem Read.uniform_iff_of_list {scopeFirst : Bool} {rd : Read} (hs : rd.spelling = none) :
    rd.Uniform scopeFirst tokenId db db' ↔
      (rd.tooLong = true → (rd.Searches scopeFirst db tokenId ↔ rd.Searches scopeFirst db' tokenId)) := by
  constructor
  · exact Read.Uniform.pattern
  · intro h
    refine ⟨fun z hz => ?_, h⟩
    rw [hs] at hz
    cases hz

omit [Crates] in
theorem foundOr_agree_iff {α : Type} (h : AgreeOn tokenId db db') (hn : db.UniqueNames) (hn' : db'.UniqueNames)
    {zoneName : Text} {name : ZoneName} (hname : normalizeZoneName zoneName = .ok name) {t t' : Text}
    (ht : t ≠ t' ↔ name.text ≠ zoneName) (f : ZoneStore → Except ServiceError α) :
    foundOr (db.grantedByName tokenId name) (if (db.getZoneByName name).isSome then t else t') >>= f =
        foundOr (db'.grantedByName tokenId name) (if (db'.getZoneByName name).isSome then t else t') >>= f ↔
      SameExistence db db' zoneName := by
  have hsame : SameExistence db db' zoneName ↔ (name.text ≠ zoneName →
      ((db.getZoneByName name).isSome = true ↔ (db'.getZoneByName name).isSome = true)) := by
    constructor
    · intro hs
      exact hs name hname
    · intro hs name' hname'
      obtain rfl : name = name' := Except.ok.inj (hname.symm.trans hname')
      exact hs
  rw [h.grantedByName, foundOr_bind_iff, ite_text_iff, ht, hsame]
  constructor
  · rintro (hsome | hiff)
    · obtain ⟨st, hst'⟩ := Option.isSome_iff_exists.1 hsome
      have hst : db.grantedByName tokenId name = some st := by rw [h.grantedByName, hst']
      rw [(grantedByName_eq_some hn hst).1, (grantedByName_eq_some hn' hst').1]
      exact fun _ => Iff.rfl
    · exact hiff
  · exact .inr

omit [Crates] in
theorem getStoreByName_agree_iff {α : Type} (h : AgreeOn tokenId db db') (hn : db.UniqueNames)
    (hn' : db'.UniqueNames) {zoneName : Text} (f : ZoneStore → Except ServiceError α) :
    getStoreByName db (Caller.fromToken db tokenId) zoneName >>= f =
        getStoreByName db' (Caller.fromToken db' tokenId) zoneName >>= f ↔
      SameExistence db db' zoneName := by
  cases hname : normalizeZoneName zoneName with
  | error e =>
      simp [getStoreByName, Db.lookupByName, Db.findByName, SameExistence, hname, bind, Except.bind]
  | ok name =>
      rw [getStoreByName_eq hn hname, getStoreByName_eq hn' hname]
      exact foundOr_agree_iff h hn hn' hname Iff.rfl f

omit [Crates] in
theorem getStoreForHistory_agree_iff {α : Type} (h : AgreeOn tokenId db db') (hn : db.UniqueNames)
    (hn' : db'.UniqueNames) {zoneName : Text} (f : ZoneStore → Except ServiceError α) :
    getStoreForHistory db (Caller.fromToken db tokenId) zoneName >>= f =
        getStoreForHistory db' (Caller.fromToken db' tokenId) zoneName >>= f ↔
      SameExistence db db' zoneName := by
  cases hname : normalizeZoneName zoneName with
  | error e =>
      simp [getStoreForHistory, SameExistence, hname, bind, Except.bind]
  | ok name =>
      rw [getStoreForHistory_eq hn hname, getStoreForHistory_eq hn' hname]
      exact foundOr_agree_iff h hn hn' hname ne_comm f

theorem exportZoneFile_agree (h : AgreeOn tokenId db db') (hn : db.UniqueNames) (hn' : db'.UniqueNames)
    (zoneName : Text) :
    exportZoneFile db (Caller.fromToken db tokenId) zoneName =
      exportZoneFile db' (Caller.fromToken db' tokenId) zoneName := by
  cases hname : normalizeZoneName zoneName with
  | error e => simp [exportZoneFile, hname, bind, Except.bind]
  | ok name => rw [exportZoneFile_eq hn hname, exportZoneFile_eq hn' hname, h.grantedByName]

/-- **What scoped tokens can probe.**  On two databases that agree on a token's policies and on
the zones granted to it, a read gives the same answer, with the same error text, exactly when
its zone is given in the stored spelling, or exists in both databases or in neither; and, for a list
whose search is too long a pattern, when the search is made in both databases or in neither. -/
theorem reads_agree_iff (scopeFirst : Bool) (h : AgreeOn tokenId db db') (hn : db.UniqueNames) (hn' : db'.UniqueNames)
    (rd : Read) (hid : ∀ id, rd = .getByIdWithZone id →
      ∀ st ∈ db.granted tokenId ++ db'.granted tokenId, ∀ r ∈ st.records, r.id ≠ id) :
    rd.result scopeFirst db (Caller.fromToken db tokenId) = rd.result scopeFirst db' (Caller.fromToken db' tokenId) ↔
      rd.Uniform scopeFirst tokenId db db' := by
  cases rd with
  | getByName zoneName =>
      rw [Read.uniform_iff_of_spelling rfl]
      simp only [Read.result, getByName, map_bind]
      exact getStoreByName_agree_iff h hn hn' _
  | listInZone zoneName =>
      rw [Read.uniform_iff_of_spelling rfl]
      simp only [Read.result, listInZone, map_bind]
      exact getStoreByName_agree_iff h hn hn' _
  | listSnapshots zoneName limit offset =>
      rw [Read.uniform_iff_of_spelling rfl]
      simp only [Read.result, listSnapshots, map_bind]
      exact getStoreByName_agree_iff h hn hn' _
  | getSnapshot zoneName serial =>
      rw [Read.uniform_iff_of_spelling rfl]
      simp only [Read.result, getSnapshot, map_bind]
      exact getStoreForHistory_agree_iff h hn hn' _
  | diffSnapshots zoneName fromSerial toSerial =>
      rw [Read.uniform_iff_of_spelling rfl]
      simp only [Read.result, diffSnapshots, map_bind]
      exact getStoreForHistory_agree_iff h hn hn' _
  | listByFilter filter =>
      rw [Read.uniform_iff_of_list rfl, Read.result, Read.result, map_inj_iff fun _ _ => ReadResult.zones.inj]
      exact listByFilter_agree_iff h filter
  | listWithZoneByFilter filter =>
      rw [Read.uniform_iff_of_list rfl, Read.result, Read.result, map_inj_iff fun _ _ => ReadResult.recordPage.inj]
      exact listWithZoneByFilter_agree_iff h filter
  | exportZoneFile zoneName =>
      rw [Read.uniform_iff_of_list rfl, Read.result, Read.result, exportZoneFile_agree h hn hn']
      exact iff_of_true rfl fun hfalse => absurd hfalse Bool.false_ne_true
  | getByIdWithZone id =>
      rw [Read.uniform_iff_of_list rfl, Read.result, Read.result, getByIdWithZone_eq fun st hst => hid id rfl st (List.mem_append_left _ hst),
        getByIdWithZone_eq fun st hst => hid id rfl st (List.mem_append_right _ hst)]
      exact iff_of_true rfl fun hfalse => absurd hfalse Bool.false_ne_true

end Agree

/-- A database with a zone that is granted to no token. -/
def hiddenZone : Db := @run sampleCrates sampleHistory

/-- The same without the zone. -/
def noZone : Db := @run sampleCrates []

theorem agreeOn_hiddenZone : AgreeOn 7 hiddenZone noZone := ⟨by decide +kernel, by decide +kernel⟩

theorem uniqueNames_hiddenZone : hiddenZone.UniqueNames ∧ noZone.UniqueNames := by
  unfold Db.UniqueNames
  decide +kernel

/-- In the stored spelling the name hides whether the zone exists. -/
theorem reads_agree_iff_hidden :
    (hiddenZone.stores.map (·.zone.name.text)) = [lit "example.com"] ∧ noZone.stores = [] ∧
      @Read.result sampleCrates false hiddenZone (Caller.fromToken hiddenZone 7) (.getByName (lit "example.com")) =
        @Read.result sampleCrates false noZone (Caller.fromToken noZone 7) (.getByName (lit "example.com")) := by
  refine ⟨by decide +kernel, by decide +kernel, (@reads_agree_iff sampleCrates _ _ 7 false agreeOn_hiddenZone
    uniqueNames_hiddenZone.1 uniqueNames_hiddenZone.2 (.getByName (lit "example.com"))
    (fun id h => by cases h)).2 (@Read.Uniform.mk sampleCrates _ _ _ _ _ ?_ fun ht => by cases ht)⟩
  intro zoneName hs name hname hne
  cases hs
  have htext : (normalizeZoneName (lit "example.com")).map (·.text) = .ok (lit "example.com") := by
    decide +kernel
  rw [hname] at htext
  exact absurd (Except.ok.inj htext) hne

/-- In another spelling it does not: the error gives the stored name where the zone exists, and
the spelling of the request where it does not. -/
theorem reads_differ_by_spelling :
    AgreeOn 7 hiddenZone noZone ∧ hiddenZone.UniqueNames ∧ noZone.UniqueNames ∧
      @Read.result sampleCrates false hiddenZone (Caller.fromToken hiddenZone 7) (.getByName (lit "Example.com")) =
        .error (.zoneNotFound (lit "example.com")) ∧
      @Read.result sampleCrates false noZone (Caller.fromToken noZone 7) (.getByName (lit "Example.com")) =
        .error (.zoneNotFound (lit "Example.com")) ∧
      ServiceError.zoneNotFound (lit "example.com") ≠ .zoneNotFound (lit "Example.com") :=
  ⟨agreeOn_hiddenZone, uniqueNames_hiddenZone.1, uniqueNames_hiddenZone.2, by decide +kernel, by decide +kernel,
    by decide +kernel⟩

/-- A search that is too long a pattern fails on a zone that is not granted, and finds nothing without one. -/
theorem listByFilter_hiddenZone {search : Text} (h : patternTooLong (likePattern (some search)) = true) :
    let filter : GetZonesFilter := ⟨none, none, none, none, none, none, none, none, some search, none, none⟩
    listByFilter false hiddenZone (Caller.fromToken hiddenZone 7) filter ≠
      listByFilter false noZone (Caller.fromToken noZone 7) filter := by
  intro filter he
  have hiff := (listByFilter_agree_iff agreeOn_hiddenZone filter).1 he h
  obtain ⟨st, hst⟩ : ∃ st, st ∈ hiddenZone.stores := List.exists_mem_of_ne_nil _ (by decide +kernel)
  obtain ⟨st', hst', -⟩ := hiff.1 ⟨st, hst, rfl⟩
  exact List.not_mem_nil hst'

end Bindizr
