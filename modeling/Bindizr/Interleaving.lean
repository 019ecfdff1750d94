import Bindizr.NameReuse

/-! # Transfers while others write

`handle_axfr` reads the zone row first and the records after it, through the zone cache when that is
on (`bindizr-dns/src/server/zone_cache.rs`), and others commit in between.  A server is the database,
the cache and any number of handlers, each at one of its reads (`Phase`); writers and handlers take
turns in any order (`Server.run`).

What is sent, and kept in the cache, under a serial is what the zone held at that serial exactly when
no commit between a handler's two reads has changed the zone's rows (`transfers_consistent_iff`).  The
serial alone determines the rows of a zone, since every commit to it moves the serial
(`recordsAt_of_mem`), so the cache itself is never at fault. -/

namespace Bindizr

/-! ### The zone cache -/

structure CachedZone where
  serial : ℤ
  records : List Record
  lastUsed : ℕ

/-- The cache, with one entry for a zone, and its clock. -/
structure ZoneCache where
  entries : List (ℕ × CachedZone)
  clock : ℕ

def maxEntries : ℕ := 1024

namespace ZoneCache

/-- The entry of a zone. -/
def get (cache : ZoneCache) (zoneId : ℕ) : Option CachedZone := cache.entries.lookup zoneId

/-- A map with the entry of a zone set. -/
def insert (entries : List (ℕ × CachedZone)) (zoneId : ℕ) (entry : CachedZone) : List (ℕ × CachedZone) :=
  (zoneId, entry) :: entries.filter (·.1 ≠ zoneId)

/-- `lookup`: the records of an entry with the serial, which counts as used now. -/
def lookup (cache : ZoneCache) (zoneId : ℕ) (serial : ℤ) : Option (List Record) × ZoneCache :=
  match cache.get zoneId with
  | some entry =>
      if entry.serial = serial then
        (some entry.records,
          ⟨insert cache.entries zoneId { entry with lastUsed := cache.clock }, cache.clock + 1⟩)
      else (none, cache)
  | none => (none, cache)

/-- The zone that was used least recently. -/
def lruId (cache : ZoneCache) : Option ℕ := (cache.entries.argmin (·.2.lastUsed)).map (·.1)

/-- The entries when another zone is to be held: one goes when there are too many. -/
def evicted (cache : ZoneCache) (zoneId : ℕ) : List (ℕ × CachedZone) :=
  if (cache.get zoneId).isNone && decide (maxEntries ≤ cache.entries.length) then
    match cache.lruId with
    | some id => cache.entries.filter (·.1 ≠ id)
    | none => cache.entries
  else cache.entries

def store (cache : ZoneCache) (zoneId : ℕ) (serial : ℤ) (records : List Record) : ZoneCache :=
  ⟨insert (cache.evicted zoneId) zoneId ⟨serial, records, cache.clock⟩, cache.clock + 1⟩

theorem mem_of_get {cache : ZoneCache} {zoneId : ℕ} {entry : CachedZone} (h : cache.get zoneId = some entry) :
    (zoneId, entry) ∈ cache.entries := by
  obtain ⟨l₁, l₂, e, -⟩ := List.lookup_eq_some_iff.1 h
  simp [e]

theorem mem_insert {entries : List (ℕ × CachedZone)} {zoneId id : ℕ} {entry e : CachedZone}
    (h : (id, e) ∈ insert entries zoneId entry) : id = zoneId ∧ e = entry ∨ (id, e) ∈ entries := by
  rcases List.mem_cons.1 h with h | h
  · cases h
    exact .inl ⟨rfl, rfl⟩
  · exact .inr (List.mem_of_mem_filter h)

theorem mem_of_mem_evicted {cache : ZoneCache} {zoneId : ℕ} {p : ℕ × CachedZone} (h : p ∈ cache.evicted zoneId) :
    p ∈ cache.entries := by
  unfold evicted at h
  split at h
  · split at h
    · exact List.mem_of_mem_filter h
    · exact h
  · exact h

theorem lookup_eq {cache cache' : ZoneCache} {zoneId : ℕ} {serial : ℤ} {found : Option (List Record)}
    (h : cache.lookup zoneId serial = (found, cache')) :
    (∀ records, found = some records → ∃ e, (zoneId, e) ∈ cache.entries ∧ e.serial = serial ∧ e.records = records) ∧
      ∀ id e, (id, e) ∈ cache'.entries → ∃ e₀, (id, e₀) ∈ cache.entries ∧ e₀.serial = e.serial ∧ e₀.records = e.records := by
  unfold lookup at h
  split at h
  · rename_i entry hget
    have hmem := mem_of_get hget
    split at h
    · rename_i hserial
      cases h
      refine ⟨fun records hr => ⟨entry, hmem, hserial, Option.some.inj hr⟩, fun id e he => ?_⟩
      rcases mem_insert he with ⟨rfl, rfl⟩ | he
      · exact ⟨entry, hmem, rfl, rfl⟩
      · exact ⟨e, he, rfl, rfl⟩
    · cases h
      exact ⟨by simp, fun id e he => ⟨e, he, rfl, rfl⟩⟩
  · cases h
    exact ⟨by simp, fun id e he => ⟨e, he, rfl, rfl⟩⟩

end ZoneCache

/-! ### Handlers and writers -/

/-- How far `handle_axfr` has come. -/
inductive Phase where
  | idle
  | asked (query : ParsedQuery)
  /-- The zone row was read. -/
  | found (zone : Zone)
  /-- The cache has no entry with the zone's serial. -/
  | missed (zone : Zone)
  /-- The records were read, and go into the cache. -/
  | storing (zone : Zone) (records : List Record)
  | sending (zone : Zone) (records : List Record)
  | failed (error : XfrError)

/-- The zone whose records are still to be found. -/
def Phase.zone : Phase → Option Zone
  | .found zone | .missed zone => some zone
  | _ => none

/-- The zone whose records are read from the database next. -/
def Phase.reading (zoneCache : Bool) : Phase → Option Zone
  | .found zone => if zoneCache then none else some zone
  | .missed zone => some zone
  | _ => none

/-- The zone row and the records of the transfer, once the handler has them. -/
def Phase.transfer : Phase → Option (Zone × List Record)
  | .storing zone records | .sending zone records => some (zone, records)
  | _ => none

/-- The database, the cache and the handlers. -/
structure Server where
  db : Db
  cache : ZoneCache
  handlers : ℕ → Phase

/-- A writer commits, or a handler takes its next step. -/
inductive Action where
  | commit (op : Op)
  | ask (handler : ℕ) (query : ParsedQuery)
  | readZone (handler : ℕ)
  | lookup (handler : ℕ)
  | readRecords (handler : ℕ)
  | store (handler : ℕ)

/-- The operations that were committed. -/
def writes (actions : List Action) : List Op :=
  actions.filterMap fun a => match a with | .commit op => some op | _ => none

def findZone (db : Db) (query : ParsedQuery) : Except XfrError Zone := (db.transferReads noCatalog).zone query

/-- The rows `list_by_zone_id` reads. -/
def Db.listByZoneId (db : Db) (zoneId : ℕ) : List Record := db.listById zoneId (·.listRecords)

namespace Server

/-- The server before anything happened. -/
def initial : Server := ⟨.empty, ⟨[], 0⟩, fun _ => .idle⟩

/-- A handler goes on to a phase. -/
def setPhase (s : Server) (i : ℕ) (phase : Phase) : Server := { s with handlers := Function.update s.handlers i phase }

section Runs

variable [Crates]

/-- One action; `zoneCache` is the configuration.  An action that is not the handler's next does nothing. -/
def act (zoneCache : Bool) (s : Server) : Action → Server
  | .commit op => { s with db := step s.db op }
  | .ask i query => s.setPhase i (.asked query)
  | .readZone i =>
      match s.handlers i with
      | .asked query =>
          -- the catalog zone is answered elsewhere
          if isCatalogZone query.zoneName then s.setPhase i .idle
          else
            match findZone s.db query with
            | .ok zone => s.setPhase i (.found zone)
            | .error e => s.setPhase i (.failed e)
      | _ => s
  | .lookup i =>
      match s.handlers i with
      | .found zone =>
          if zoneCache then
            match s.cache.lookup zone.id zone.serial with
            | (some records, cache) => { s.setPhase i (.sending zone records) with cache := cache }
            | (none, cache) => { s.setPhase i (.missed zone) with cache := cache }
          else s
      | _ => s
  | .readRecords i =>
      match (s.handlers i).reading zoneCache with
      | some zone =>
          if zoneCache then s.setPhase i (.storing zone (s.db.listByZoneId zone.id))
          else s.setPhase i (.sending zone (s.db.listByZoneId zone.id))
      | none => s
  | .store i =>
      match s.handlers i with
      | .storing zone records =>
          { s.setPhase i (.sending zone records) with cache := s.cache.store zone.id zone.serial records }
      | _ => s

/-- The server after actions in any order. -/
def run (zoneCache : Bool) (actions : List Action) : Server := actions.foldl (act zoneCache) initial

theorem run_concat (zoneCache : Bool) (actions : List Action) (a : Action) :
    run zoneCache (actions ++ [a]) = act zoneCache (run zoneCache actions) a := by
  simp [run]

/-! ### What one action does -/

variable {zoneCache : Bool} {s : Server} {a : Action} {i : ℕ}

omit [Crates] in
theorem setPhase_handlers (s : Server) (i j : ℕ) (phase : Phase) :
    (s.setPhase i phase).handlers j = if j = i then phase else s.handlers j := Function.update_apply ..

theorem act_db : (act zoneCache s a).db = match a with | .commit op => step s.db op | _ => s.db := by
  cases a <;> simp only [act] <;> repeat' split
  all_goals rfl

/-- What an action makes of a handler. -/
inductive Goes (zoneCache : Bool) (s : Server) (i : ℕ) : Action → Phase → Prop
  | stays {a : Action} : Goes zoneCache s i a (s.handlers i)
  | asks {query : ParsedQuery} : Goes zoneCache s i (.ask i query) (.asked query)
  | toCatalog {query : ParsedQuery} : s.handlers i = .asked query → Goes zoneCache s i (.readZone i) .idle
  | finds {query : ParsedQuery} {zone : Zone} : s.handlers i = .asked query → findZone s.db query = .ok zone →
      Goes zoneCache s i (.readZone i) (.found zone)
  | fails {query : ParsedQuery} {e : XfrError} : s.handlers i = .asked query → Goes zoneCache s i (.readZone i) (.failed e)
  | hits {zone : Zone} {entry : CachedZone} : s.handlers i = .found zone → (zone.id, entry) ∈ s.cache.entries →
      entry.serial = zone.serial → Goes zoneCache s i (.lookup i) (.sending zone entry.records)
  | misses {zone : Zone} : s.handlers i = .found zone → Goes zoneCache s i (.lookup i) (.missed zone)
  | reads {zone : Zone} {phase : Phase} : (s.handlers i).reading zoneCache = some zone →
      phase.zone = none → (∀ query, phase ≠ .asked query) →
      phase.transfer = some (zone, s.db.listByZoneId zone.id) → Goes zoneCache s i (.readRecords i) phase
  | stores {zone : Zone} {records : List Record} : s.handlers i = .storing zone records →
      Goes zoneCache s i (.store i) (.sending zone records)

omit [Crates] in
theorem Goes.setPhase {j : ℕ} {phase : Phase} (h : Goes zoneCache s j a phase) (i : ℕ) :
    Goes zoneCache s i a ((s.setPhase j phase).handlers i) := by
  rw [setPhase_handlers]
  split
  · rename_i e
    rwa [e]
  · exact .stays

theorem act_goes (zoneCache : Bool) (s : Server) (a : Action) (i : ℕ) :
    Goes zoneCache s i a ((act zoneCache s a).handlers i) := by
  cases a with
  | commit op => exact .stays
  | ask j query => exact Goes.asks.setPhase i
  | readZone j =>
      rw [act]
      split
      · rename_i query hquery
        split
        · exact (Goes.toCatalog hquery).setPhase i
        · split
          · rename_i zone hzone
            exact (Goes.finds hquery hzone).setPhase i
          · exact (Goes.fails hquery).setPhase i
      · exact .stays
  | lookup j =>
      rw [act]
      split
      · rename_i zone hzone
        split
        · split
          · rename_i records cache hlookup
            obtain ⟨entry, hmem, hserial, rfl⟩ := (ZoneCache.lookup_eq hlookup).1 records rfl
            exact (Goes.hits hzone hmem hserial).setPhase i
          · exact (Goes.misses hzone).setPhase i
        · exact .stays
      · exact .stays
  | readRecords j =>
      rw [act]
      split
      · rename_i zone hzone
        split
        · exact (Goes.reads hzone rfl (by simp) rfl).setPhase i
        · exact (Goes.reads hzone rfl (by simp) rfl).setPhase i
      · exact .stays
  | store j =>
      rw [act]
      split
      · rename_i zone records hzone
        exact (Goes.stores hzone).setPhase i
      · exact .stays

theorem act_zone {zone : Zone} (h : ((act zoneCache s a).handlers i).zone = some zone) :
    (s.handlers i).zone = some zone ∨ a = .readZone i ∧ ∃ query, s.handlers i = .asked query ∧ findZone s.db query = .ok zone := by
  have hgoes := act_goes zoneCache s a i
  generalize (act zoneCache s a).handlers i = phase at h hgoes
  cases hgoes with
  | stays => exact .inl h
  | finds hquery hzone =>
      cases h
      exact .inr ⟨rfl, _, hquery, hzone⟩
  | misses hzone =>
      cases h
      exact .inl (hzone ▸ rfl)
  | reads _ hnone => simp [hnone] at h
  | _ => cases h

theorem act_asked {query : ParsedQuery} (h : (act zoneCache s a).handlers i = .asked query) :
    s.handlers i = .asked query ∨ a = .ask i query := by
  have hgoes := act_goes zoneCache s a i
  generalize (act zoneCache s a).handlers i = phase at h hgoes
  cases hgoes with
  | stays => exact .inl h
  | asks =>
      cases h
      exact .inr rfl
  | reads _ _ hne => exact absurd h (hne query)
  | _ => cases h

/-- The records of a transfer come from the cache, or from the database as it is now. -/
theorem act_transfer {zone : Zone} {records : List Record}
    (h : ((act zoneCache s a).handlers i).transfer = some (zone, records)) :
    (s.handlers i).transfer = some (zone, records) ∨
      (∃ e, (zone.id, e) ∈ s.cache.entries ∧ e.serial = zone.serial ∧ e.records = records) ∨
      a = .readRecords i ∧ (s.handlers i).reading zoneCache = some zone ∧ records = s.db.listByZoneId zone.id := by
  have hgoes := act_goes zoneCache s a i
  generalize (act zoneCache s a).handlers i = phase at h hgoes
  cases hgoes with
  | stays => exact .inl h
  | hits _ hmem hserial =>
      cases h
      exact .inr (.inl ⟨_, hmem, hserial, rfl⟩)
  | reads hzone _ _ htransfer =>
      rw [htransfer, Option.some.injEq, Prod.mk.injEq] at h
      obtain ⟨rfl, rfl⟩ := h
      exact .inr (.inr ⟨rfl, hzone, rfl⟩)
  | stores hstoring =>
      cases h
      exact .inl (hstoring ▸ rfl)
  | _ => cases h

theorem act_cache {id : ℕ} {e : CachedZone} (h : (id, e) ∈ (act zoneCache s a).cache.entries) :
    (∃ e₀, (id, e₀) ∈ s.cache.entries ∧ e₀.serial = e.serial ∧ e₀.records = e.records) ∨
      ∃ i zone, (s.handlers i).transfer = some (zone, e.records) ∧ zone.id = id ∧ zone.serial = e.serial := by
  have hkept : (id, e) ∈ s.cache.entries → ∃ e₀, (id, e₀) ∈ s.cache.entries ∧ e₀.serial = e.serial ∧ e₀.records = e.records :=
    fun h => ⟨e, h, rfl, rfl⟩
  cases a with
  | commit op => exact .inl (hkept h)
  | ask j query => exact .inl (hkept h)
  | readZone j =>
      rw [act] at h
      repeat' split at h
      all_goals exact .inl (hkept h)
  | lookup j =>
      rw [act] at h
      split at h
      · split at h
        · split at h <;> rename_i hlookup <;> exact .inl ((ZoneCache.lookup_eq hlookup).2 id e h)
        · exact .inl (hkept h)
      · exact .inl (hkept h)
  | readRecords j =>
      rw [act] at h
      repeat' split at h
      all_goals exact .inl (hkept h)
  | store j =>
      rw [act] at h
      split at h
      · rename_i zone records hzone
        rcases ZoneCache.mem_insert h with ⟨rfl, rfl⟩ | h
        · exact .inr ⟨j, zone, hzone ▸ rfl, rfl, rfl⟩
        · exact .inl (hkept (ZoneCache.mem_of_mem_evicted h))
      · exact .inl (hkept h)

theorem run_db (zoneCache : Bool) (actions : List Action) : (run zoneCache actions).db = Bindizr.run (writes actions) := by
  induction actions using List.reverseRecOn with
  | nil => rfl
  | append_singleton actions a ih =>
      rw [run_concat, act_db, ih, show writes (actions ++ [a]) = writes actions ++ writes [a] from List.filterMap_append]
      cases a with
      | commit op => exact (Bindizr.run_concat _ op).symm
      | _ => rw [show writes [_] = [] from rfl, List.append_nil]

/-- A handler that has a zone row read it after it was asked, and was not asked again since. -/
theorem exists_readZone {actions : List Action} {zone : Zone} (h : ((run zoneCache actions).handlers i).zone = some zone) :
    ∃ before between query, actions = before ++ .readZone i :: between ∧
      (run zoneCache before).handlers i = .asked query ∧ (∀ q, .ask i q ∉ between) ∧
      findZone (run zoneCache before).db query = .ok zone := by
  induction actions using List.reverseRecOn with
  | nil => cases h
  | append_singleton actions a ih =>
      have hasked : ∀ q, a ≠ .ask i q := by
        rintro q rfl
        rw [run_concat, act, setPhase_handlers, if_pos rfl] at h
        cases h
      rw [run_concat] at h
      rcases act_zone h with h | ⟨rfl, query, hquery, hfind⟩
      · obtain ⟨before, between, query, rfl, hquery, hno, hfind⟩ := ih h
        refine ⟨before, between ++ [a], query, by simp, hquery, fun q hq => ?_, hfind⟩
        rcases List.mem_append.1 hq with hq | hq
        · exact hno q hq
        · exact hasked q (List.mem_singleton.1 hq).symm
      · exact ⟨actions, [], query, rfl, hquery, by simp, hfind⟩

theorem findZone_of_zone {before between : List Action} {query : ParsedQuery} {zone : Zone}
    (hquery : (run zoneCache before).handlers i = .asked query) (hno : ∀ q, .ask i q ∉ between)
    (h : ((run zoneCache (before ++ .readZone i :: between)).handlers i).zone = some zone) :
    findZone (run zoneCache before).db query = .ok zone := by
  have hasked : ∀ between, (∀ q, Action.ask i q ∉ between) → ∀ q,
      (run zoneCache (before ++ .readZone i :: between)).handlers i ≠ .asked q := by
    intro between hno q
    induction between using List.reverseRecOn with
    | nil =>
        rw [run_concat, act, hquery]
        simp only
        repeat' split
        all_goals rw [setPhase_handlers, if_pos rfl]; simp
    | append_singleton between a ih =>
        rw [← List.cons_append, ← List.append_assoc, run_concat]
        intro h
        rcases act_asked h with h | rfl
        · exact ih (fun q hq => hno q (List.mem_append_left _ hq)) h
        · exact hno q (by simp)
  induction between using List.reverseRecOn with
  | nil =>
      rw [run_concat] at h
      rcases act_zone h with h | ⟨-, q, hq, hfind⟩
      · rw [hquery] at h
        cases h
      · rw [hquery] at hq
        cases hq
        exact hfind
  | append_singleton between a ih =>
      have hno' : ∀ q, Action.ask i q ∉ between := fun q hq => hno q (List.mem_append_left _ hq)
      rw [← List.cons_append, ← List.append_assoc, run_concat] at h
      rcases act_zone h with h | ⟨-, q, hq, -⟩
      · exact ih hno' h
      · exact absurd hq (hasked between hno' q)

end Runs

end Server

/-! ### The rows at a serial -/

section Consistency

variable [Crates]

def rowsOf (records : List Record) : Multiset RecordData := ↑(records.map (·.toRecordData))

/-- The records are those a zone held, in the history, while its serial was `serial`. -/
structure RecordsAt (ops : List Op) (zoneId : ℕ) (serial : ℤ) (records : List Record) : Prop where
  held : ∃ pre, pre <+: ops ∧ ∃ st ∈ (run pre).stores, st.zone.id = zoneId ∧ st.zone.serial = serial
  only : ∀ pre, pre <+: ops → ∀ st ∈ (run pre).stores, st.zone.id = zoneId → st.zone.serial = serial →
    rowsOf records = st.rows

omit [Crates] in
theorem rowsOf_listRecords (st : ZoneStore) : rowsOf st.listRecords = st.rows :=
  Multiset.coe_eq_coe.2 ((List.mergeSort_perm _ _).map _)

/-- Every commit to a zone moves its serial, so what it holds at one time is all it ever held at that serial. -/
theorem recordsAt_of_mem {ops pre : List Op} (hpre : pre <+: ops) {st : ZoneStore} (hst : st ∈ (run pre).stores)
    {records : List Record} (hrows : rowsOf records = st.rows) : RecordsAt ops st.zone.id st.zone.serial records := by
  refine ⟨⟨pre, hpre, st, hst, rfl, rfl⟩, fun pre' hpre' st' hst' hid hserial => hrows.trans (congrArg _ ?_)⟩
  rcases List.prefix_or_prefix_of_prefix hpre hpre' with h | h
  · exact ((run_evolves h hst hst' hid.symm).eq_of_serial_eq hserial).symm
  · exact (run_evolves h hst' hst hid).eq_of_serial_eq hserial.symm

theorem RecordsAt.mono {ops ops' : List Op} {zoneId : ℕ} {serial : ℤ} {records : List Record}
    (h : RecordsAt ops zoneId serial records) (hops : ops <+: ops') : RecordsAt ops' zoneId serial records := by
  obtain ⟨⟨pre, hpre, st, hst, rfl, rfl⟩, honly⟩ := h
  exact recordsAt_of_mem (hpre.trans hops) hst (honly pre hpre st hst rfl rfl)

/-- Everything that is sent or cached under a serial is what the zone held at it. -/
structure Consistent (zoneCache : Bool) (actions : List Action) : Prop where
  sent : ∀ i zone records, ((Server.run zoneCache actions).handlers i).transfer = some (zone, records) →
    RecordsAt (writes actions) zone.id zone.serial records
  cached : ∀ zoneId entry, (zoneId, entry) ∈ (Server.run zoneCache actions).cache.entries →
    RecordsAt (writes actions) zoneId entry.serial entry.records

/-- Between a handler's read of its zone row and its read of the records, commits leave the zone's rows. -/
def Undisturbed (zoneCache : Bool) (actions : List Action) : Prop :=
  ∀ before between i query zone, before ++ .readZone i :: between ++ [.readRecords i] <+: actions →
    (Server.run zoneCache before).handlers i = .asked query → (∀ q, .ask i q ∉ between) →
    ((Server.run zoneCache (before ++ .readZone i :: between)).handlers i).reading zoneCache = some zone →
    rowsOf ((run (writes (before ++ .readZone i :: between))).listByZoneId zone.id) =
      rowsOf ((run (writes before)).listByZoneId zone.id)

omit [Crates] in
theorem writes_mono {actions actions' : List Action} (h : actions <+: actions') : writes actions <+: writes actions' :=
  h.filterMap _

omit [Crates] in
theorem zone_of_reading {zoneCache : Bool} {phase : Phase} {zone : Zone} (h : phase.reading zoneCache = some zone) :
    phase.zone = some zone := by
  unfold Phase.reading at h
  split at h
  · split at h
    · cases h
    · exact h
  · exact h
  · cases h

theorem rows_of_findZone {ops : List Op} {query : ParsedQuery} {zone : Zone} (h : findZone (run ops) query = .ok zone) :
    ∃ st ∈ (run ops).stores, st.zone = zone ∧ rowsOf ((run ops).listByZoneId zone.id) = st.rows := by
  obtain ⟨st, hst, rfl, -⟩ := zone_eq_ok h
  exact ⟨st, hst, rfl, by rw [Db.listByZoneId, (run_ok ops).listById_eq hst, rowsOf_listRecords]⟩

/-- One action keeps what was sent and cached consistent, unless it reads rows that have changed. -/
theorem Consistent.act {zoneCache : Bool} {actions : List Action} {a : Action} (h : Consistent zoneCache actions)
    (hread : ∀ i zone, a = .readRecords i → ((Server.run zoneCache actions).handlers i).reading zoneCache = some zone →
      RecordsAt (writes actions) zone.id zone.serial ((run (writes actions)).listByZoneId zone.id)) :
    Consistent zoneCache (actions ++ [a]) := by
  have hpre : writes actions <+: writes (actions ++ [a]) := writes_mono (List.prefix_append _ _)
  constructor
  · intro i zone records ht
    rw [Server.run_concat] at ht
    rcases Server.act_transfer ht with ht | ⟨e, he, hserial, rfl⟩ | ⟨ha, hzone, rfl⟩
    · exact (h.sent i zone records ht).mono hpre
    · exact hserial ▸ (h.cached zone.id e he).mono hpre
    · rw [Server.run_db]
      exact (hread i zone ha hzone).mono hpre
  · intro zoneId e he
    rw [Server.run_concat] at he
    rcases Server.act_cache he with ⟨e₀, he₀, hserial, hrecords⟩ | ⟨i, zone, ht, rfl, hserial⟩
    · rw [← hserial, ← hrecords]
      exact (h.cached zoneId e₀ he₀).mono hpre
    · rw [← hserial]
      exact (h.sent i zone _ ht).mono hpre

theorem transfer_readRecords {zoneCache : Bool} {actions : List Action} {i : ℕ} {zone : Zone}
    (h : ((Server.run zoneCache actions).handlers i).reading zoneCache = some zone) :
    (Server.run zoneCache (actions ++ [.readRecords i])).handlers i =
      if zoneCache then .storing zone ((run (writes actions)).listByZoneId zone.id)
      else .sending zone ((run (writes actions)).listByZoneId zone.id) := by
  rw [Server.run_concat, Server.act, h, ← Server.run_db zoneCache]
  simp only
  split <;> rw [Server.setPhase_handlers, if_pos rfl]

theorem mem_cache_store {zoneCache : Bool} {actions : List Action} {i : ℕ} {zone : Zone} {records : List Record}
    (h : (Server.run zoneCache actions).handlers i = .storing zone records) :
    (zone.id, ⟨zone.serial, records, (Server.run zoneCache actions).cache.clock⟩) ∈
      (Server.run zoneCache (actions ++ [.store i])).cache.entries := by
  rw [Server.run_concat, Server.act, h]
  exact List.mem_cons_self

/-- **Transfers while others write.**  In every run of writers and handlers, with the cache on or off, all that is ever
sent or cached under a serial is what the zone held at that serial exactly when no commit between a handler's reads of
the zone row and of the records has changed the zone's rows. -/
theorem transfers_consistent_iff (zoneCache : Bool) (actions : List Action) :
    (∀ pre, pre <+: actions → Consistent zoneCache pre) ↔ Undisturbed zoneCache actions := by
  constructor
  · intro h before between i query zone hactions hquery hno hreading
    have hfind := Server.findZone_of_zone hquery hno (zone_of_reading hreading)
    rw [Server.run_db] at hfind
    obtain ⟨st, hst, rfl, hrows⟩ := rows_of_findZone hfind
    have hsent : ((Server.run zoneCache (before ++ .readZone i :: between ++ [.readRecords i])).handlers i).transfer =
        some (st.zone, (run (writes (before ++ .readZone i :: between))).listByZoneId st.zone.id) := by
      rw [transfer_readRecords hreading]
      split <;> rfl
    have hbefore : writes before <+: writes (before ++ .readZone i :: between ++ [.readRecords i]) :=
      writes_mono (by rw [List.append_assoc]; exact List.prefix_append _ _)
    rw [((h _ hactions).sent i _ _ hsent).only _ hbefore st hst rfl rfl, hrows]
  · intro h pre hpre
    induction pre using List.reverseRecOn with
    | nil => exact ⟨fun _ _ _ ht => (by cases ht), fun _ _ he => (by cases he)⟩
    | append_singleton pre a ih =>
        refine (ih ((List.prefix_append _ _).trans hpre)).act ?_
        rintro i zone rfl hreading
        obtain ⟨before, between, query, rfl, hquery, hno, hfind⟩ := Server.exists_readZone (zone_of_reading hreading)
        rw [Server.run_db] at hfind
        obtain ⟨st, hst, rfl, hrows⟩ := rows_of_findZone hfind
        refine recordsAt_of_mem (writes_mono (List.prefix_append _ _)) hst ?_
        rw [h before between i query st.zone hpre hquery hno hreading, hrows]

end Consistency

/-! ### A write between two reads -/

/-- The zone of the sample history is asked for, and gets an address after its row was read. -/
def disturbed : List Action := sampleHistory.map .commit ++ [.ask 0 sampleQuery, .readZone 0, .lookup 0,
  .commit (.createRecord .global { sampleItem "mail" "A" "192.0.2.2" with zoneName := lit "example.com" })]

theorem writes_commits (ops : List Op) (more : List Action) : writes (ops.map .commit ++ more) = ops ++ writes more := by
  rw [writes, List.filterMap_append, List.filterMap_map]
  exact congrArg (· ++ _) (List.filterMap_some)

/-- The new address is sent under the old serial, and kept in the cache under it. -/
theorem stale_transfer :
    (∃ zone records, ((@Server.run sampleCrates false (disturbed ++ [.readRecords 0])).handlers 0).transfer =
        some (zone, records) ∧ ¬ @RecordsAt sampleCrates (writes (disturbed ++ [.readRecords 0])) zone.id zone.serial records) ∧
      ∃ zoneId entry, (zoneId, entry) ∈ (@Server.run sampleCrates true (disturbed ++ [.readRecords 0, .store 0])).cache.entries ∧
        ¬ @RecordsAt sampleCrates (writes (disturbed ++ [.readRecords 0, .store 0])) zoneId entry.serial entry.records := by
  obtain ⟨st, hst, hid, hserial, hlen⟩ : ∃ st ∈ (@run sampleCrates sampleHistory).stores,
      st.zone.id = 1 ∧ st.zone.serial = 2 ∧ st.records.length = 2 := by decide +kernel
  obtain ⟨st', hst', hid', hlen'⟩ : ∃ st' ∈ (@run sampleCrates (writes disturbed)).stores,
      st'.zone.id = 1 ∧ st'.records.length = 3 := by decide +kernel
  have hrows : rowsOf ((@run sampleCrates (writes disturbed)).listByZoneId 1) = st'.rows := by
    rw [← hid', Db.listByZoneId, (@run_ok sampleCrates _).listById_eq hst', rowsOf_listRecords]
  have hnot : ∀ more, ¬ @RecordsAt sampleCrates (writes (disturbed ++ more)) 1 2
      ((@run sampleCrates (writes disturbed)).listByZoneId 1) := by
    intro more h
    have hpre : sampleHistory <+: writes disturbed := by
      rw [disturbed, writes_commits]
      exact List.prefix_append _ _
    have hcard := congrArg Multiset.card
      (hrows.symm.trans (@RecordsAt.only sampleCrates _ _ _ _ h _ (hpre.trans (writes_mono (List.prefix_append _ _))) st hst hid hserial))
    rw [ZoneStore.rows, ZoneStore.rows, Multiset.coe_card, Multiset.coe_card, ZoneStore.liveRecords, ZoneStore.liveRecords,
      List.length_map, List.length_map, hlen, hlen'] at hcard
    cases hcard
  have hreading : ∀ zoneCache, ∃ zone, ((@Server.run sampleCrates zoneCache disturbed).handlers 0).reading zoneCache = some zone ∧
      zone.id = 1 ∧ zone.serial = 2 := by
    intro zoneCache
    have h : (((@Server.run sampleCrates zoneCache disturbed).handlers 0).reading zoneCache).map (fun z => (z.id, z.serial)) =
        some (1, 2) := by
      cases zoneCache <;> decide +kernel
    obtain ⟨zone, hzone, e⟩ := Option.map_eq_some_iff.1 h
    rw [Prod.mk.injEq] at e
    exact ⟨zone, hzone, e⟩
  constructor
  · obtain ⟨zone, hzone, h1, h2⟩ := hreading false
    have hsent := @transfer_readRecords sampleCrates false disturbed 0 zone hzone
    rw [if_neg Bool.false_ne_true, h1] at hsent
    refine ⟨zone, (@run sampleCrates (writes disturbed)).listByZoneId 1, ?_, ?_⟩
    · rw [hsent, Phase.transfer]
    · rw [h1, h2]
      exact hnot [.readRecords 0]
  · obtain ⟨zone, hzone, h1, h2⟩ := hreading true
    have hstoring := @transfer_readRecords sampleCrates true disturbed 0 zone hzone
    rw [if_pos rfl, h1] at hstoring
    have hmem := @mem_cache_store sampleCrates _ _ _ _ _ hstoring
    rw [List.append_assoc, List.singleton_append, h1, h2] at hmem
    refine ⟨1, _, hmem, ?_⟩
    dsimp only
    exact hnot [.readRecords 0, .store 0]

end Bindizr
