import Bindizr.MasterFile
import Bindizr.Reachable

/-! # What an import leaves

The records of a zone file, normalised (`fileRecords`), against the rows an import leaves,
for each mode (`Imports`): append adds the records not yet there and touches nothing else,
replace leaves the records of the file and the protected primary NS, upsert does so for each
owner and type the file names.  The counts of the summary are the rows inserted, removed and
inserted anew, a second import of the same file does nothing, and a file with an error does
nothing either (`importTx_outcome`). -/

namespace Bindizr

/-! ### The records of a file -/

section File

variable [Crates]

/-- The row a parsed record stands for, when its value and its owner can be normalised. -/
def ParsedRecord.data (zone : Zone) (r : ParsedRecord) : Option RecordData :=
  match r.value.toEncodedValue r.recordType r.priority, normalizeRecordOwnerName r.ownerFqdn zone.name with
  | .ok value, .ok owner => some ⟨owner, r.recordType, value, r.ttl, r.priority⟩
  | _, _ => none

def fileRecords (content : Text) (zone : Zone) : List RecordData :=
  (parseZoneFile content zone).1.filterMap (·.data zone)

omit [Crates] in
theorem sameRr_iff_key {r s : RecordData} : r.sameRr s = true ↔ r.key = s.key := by
  simp only [sameRr_iff, RecordData.key, Prod.mk.injEq]

/-- One round of normalising that met no error: the record is kept, or one like it was. -/
theorem normalizeStep_eq_ok {zone : Zone} {n n' : Normalized} {r : ParsedRecord}
    (h : normalizeStep zone n r = .ok n') (he : n'.errors = []) :
    n.errors = [] ∧ ∃ f, r.data zone = some f ∧
      ((n'.desired = n.desired ∧ ∃ d ∈ n.desired, d.data.key = f.key ∧ d.data.ttl = f.ttl) ∨
        n'.desired = n.desired ++ [⟨r.ownerFqdn, f⟩]) := by
  unfold normalizeStep at h
  split at h
  · cases h
    simp at he
  rename_i value hvalue
  split at h
  · split at h
    · cases h
      simp at he
    · cases h
  rename_i owner howner
  have hdata : r.data zone = some ⟨owner, r.recordType, value, r.ttl, r.priority⟩ := by
    simp [ParsedRecord.data, hvalue, howner]
  simp only at h
  split at h
  · rename_i kept hfind
    split at h
    · cases h
      simp at he
    · rename_i httl
      cases h
      refine ⟨he, _, hdata, .inl ⟨rfl, kept, List.mem_of_find?_eq_some hfind, ?_, not_not.1 httl⟩⟩
      have hsame := List.find?_some hfind
      exact sameRr_iff_key.1 hsame
  · cases h
    exact ⟨he, _, hdata, .inr rfl⟩

/-- What normalising a file without errors gives: every record has a row, and the desired rows
are those, each resource record once. -/
structure Normalizes (zone : Zone) (records : List ParsedRecord) (desired : List DesiredRecord) : Prop where
  data : ∀ r ∈ records, ∃ f, r.data zone = some f
  covered : ∀ r ∈ records, ∀ f, r.data zone = some f →
    ∃ d ∈ desired, d.data.key = f.key ∧ d.data.ttl = f.ttl
  fromFile : ∀ d ∈ desired, ∃ r ∈ records, r.data zone = some d.data

theorem normalizeSteps_eq_ok {zone : Zone} {records : List ParsedRecord} {n n' : Normalized}
    (h : records.foldlM (normalizeStep zone) n = .ok n') (he : n'.errors = []) :
    n.errors = [] ∧ (∀ d ∈ n.desired, d ∈ n'.desired) ∧
      (∀ r ∈ records, ∃ f, r.data zone = some f ∧ ∃ d ∈ n'.desired, d.data.key = f.key ∧ d.data.ttl = f.ttl) ∧
      ∀ d ∈ n'.desired, d ∈ n.desired ∨ ∃ r ∈ records, r.data zone = some d.data := by
  induction records generalizing n with
  | nil =>
      cases h
      exact ⟨he, fun _ hd => hd, by simp, fun _ hd => .inl hd⟩
  | cons r records ih =>
      rw [List.foldlM_cons, Fallible.bind_eq_ok] at h
      obtain ⟨n₁, h1, h⟩ := h
      obtain ⟨he1, hsub, hcov, hfrom⟩ := ih h
      obtain ⟨he0, f, hf, hstep⟩ := normalizeStep_eq_ok h1 he1
      have hsub0 : ∀ d ∈ n.desired, d ∈ n₁.desired := by
        rcases hstep with ⟨e, _⟩ | e <;> rw [e] <;> simp +contextual
      refine ⟨he0, fun d hd => hsub d (hsub0 d hd), fun s hs => ?_, fun d hd => ?_⟩
      · rcases List.mem_cons.1 hs with rfl | hs
        · refine ⟨f, hf, ?_⟩
          rcases hstep with ⟨e, d, hd, hk⟩ | e
          · exact ⟨d, hsub d (hsub0 d hd), hk⟩
          · exact ⟨⟨s.ownerFqdn, f⟩, hsub _ (by simp [e]), rfl, rfl⟩
        · exact hcov s hs
      · rcases hfrom d hd with hd | ⟨s, hs, e⟩
        · rcases hstep with ⟨e, _⟩ | e
          · exact .inl (e ▸ hd)
          · rw [e, List.mem_append, List.mem_singleton] at hd
            rcases hd with hd | rfl
            · exact .inl hd
            · exact .inr ⟨r, by simp, hf⟩
        · exact .inr ⟨s, by simp [hs], e⟩

theorem normalizeParsed_eq_ok {zone : Zone} {records : List ParsedRecord} {errors : List Text} {n : Normalized}
    (h : normalizeParsed zone records errors = .ok n) (he : n.errors = []) :
    errors = [] ∧ Normalizes zone records n.desired := by
  obtain ⟨he0, _, hcov, hfrom⟩ := normalizeSteps_eq_ok h he
  refine ⟨he0, fun r hr => ?_, fun r hr f hf => ?_, fun d hd => ?_⟩
  · obtain ⟨f, hf, _⟩ := hcov r hr
    exact ⟨f, hf⟩
  · obtain ⟨f', hf', hd⟩ := hcov r hr
    obtain rfl : f' = f := Option.some.inj (hf'.symm.trans hf)
    exact hd
  · exact (hfrom d hd).resolve_left (by simp)

end File

/-! ### What each mode asks for -/

/-- Append: every row stays, and what is new are the records of the file that were not there. -/
structure Appends (file : List RecordData) (before after : List Record) : Prop where
  kept : ∀ r ∈ before, r ∈ after
  added : ∀ f ∈ file, f.key ∈ before.map (·.key) ∨ f.rr ∈ after.map (·.rr)
  new : ∀ r ∈ after, r ∈ before ∨ r.toRecordData ∈ file ∧ r.key ∉ before.map (·.key)

/-- Replace, for the owners and types in `scope`: the records there are those of the file, and the
primary NS; no other row is touched. -/
structure Replaces (scope : OwnerName → RecordType → Prop) (zone : Zone) (file : List RecordData)
    (before after : List Record) : Prop where
  inside : ∀ x : RecordData, scope x.name x.recordType →
    (x.rr ∈ after.map (·.rr) ↔ x.rr ∈ file.map (·.rr) ∨
      ∃ r ∈ before, r.rr = x.rr ∧ zone.isPrimaryNs r.toRecordData = true ∧ r.key ∉ file.map (·.key))
  outside : ∀ r : Record, ¬ scope r.name r.recordType → (r ∈ after ↔ r ∈ before)

/-- The owners and types a mode takes over from the file. -/
def ImportMode.scope (mode : ImportMode) (file : List RecordData) (owner : OwnerName)
    (recordType : RecordType) : Prop :=
  match mode with
  | .append => False
  | .upsert => ∃ f ∈ file, f.name = owner ∧ f.recordType = recordType
  | .replace => True

/-- What an import in a mode makes of the rows of a zone. -/
def Imports (mode : ImportMode) (zone : Zone) (file : List RecordData) (before after : List Record) : Prop :=
  match mode with
  | .append => Appends file before after
  | .upsert | .replace => Replaces (mode.scope file) zone file before after

/-- The counts of a summary, against the rows before and after. -/
structure Counts (file : List RecordData) (before after : List Record) (s : ImportSummary) : Prop where
  parsed : s.parsed = (file.map (·.key)).dedup.length
  total : s.parsed = s.added + s.updated + s.unchanged
  inserted : after.countP (· ∉ before) = s.added + s.updated
  removed : before.countP (· ∉ after) = s.deleted + s.updated
  added : after.countP (·.key ∉ before.map (·.key)) = s.added
  deleted : before.countP (·.key ∉ after.map (·.key)) = s.deleted
  updated : before.countP (fun r => r ∉ after ∧ r.key ∈ after.map (·.key)) = s.updated
  unchanged : before.countP (fun r => r ∈ after ∧ r.key ∈ file.map (·.key)) = s.unchanged

/-! ### Reconciling with the rows of a zone -/

section Plan

variable {mode : ImportMode} {desired : List DesiredRecord} {tx : Tx}

/-- What an import of the desired records deletes and adds. -/
def importPlan (mode : ImportMode) (desired : List DesiredRecord) (tx : Tx) : Reconciled :=
  reconcile mode tx.store.zone desired (loadExisting mode desired tx)

def importRows (mode : ImportMode) (desired : List DesiredRecord) (tx : Tx) : List Record :=
  tx.survivors ((importPlan mode desired tx).dels ++ (importPlan mode desired tx).ttlDels) ++
    Tx.numbered tx.nextRecordId ((importPlan mode desired tx).adds.map (·.data))

theorem rr_eq_iff {r s : RecordData} : r.rr = s.rr ↔ r.key = s.key ∧ r.ttl = s.ttl := by
  simp only [RecordData.rr, RecordData.key, Prod.mk.injEq, and_assoc]

theorem mem_presentRows {d : DesiredRecord} (hd : d ∈ desired) {e : Record} :
    e ∈ presentRows (loadExisting mode desired tx) d ↔ e ∈ tx.store.records ∧ e.key = d.data.key := by
  rw [presentRows, List.mem_filter, sameRr_iff_key]
  refine and_congr_left fun hkey => ⟨fun he => (loadExisting_sublist mode desired tx).subset he, fun he => ?_⟩
  have hname : e.name = d.data.name := congrArg Prod.fst hkey
  exact mem_loadExisting he (hname ▸ List.mem_map_of_mem (f := (·.data.name)) hd)

theorem mem_staleRows {d : DesiredRecord} (hd : d ∈ desired) {e : Record} :
    e ∈ staleRows mode (loadExisting mode desired tx) d ↔
      mode ≠ .append ∧ e ∈ tx.store.records ∧ e.key = d.data.key ∧ e.ttl ≠ d.data.ttl := by
  unfold staleRows
  split
  · simp [*]
  · simp [mem_presentRows hd, *, and_assoc]

theorem mem_ttlDels {e : Record} : e ∈ (importPlan mode desired tx).ttlDels ↔
    mode ≠ .append ∧ e ∈ tx.store.records ∧ ∃ d ∈ desired, e.key = d.data.key ∧ e.ttl ≠ d.data.ttl := by
  unfold importPlan reconcile
  rw [List.mem_flatMap]
  constructor
  · rintro ⟨d, hd, he⟩
    obtain ⟨hm, he, hk⟩ := (mem_staleRows hd).1 he
    exact ⟨hm, he, d, hd, hk⟩
  · rintro ⟨hm, he, d, hd, hk⟩
    exact ⟨d, hd, (mem_staleRows hd).2 ⟨hm, he, hk⟩⟩

theorem mem_adds {d : DesiredRecord} : d ∈ (importPlan mode desired tx).adds ↔
    d ∈ desired ∧ ((∀ e ∈ tx.store.records, e.key ≠ d.data.key) ∨
      mode ≠ .append ∧ ∃ e ∈ tx.store.records, e.key = d.data.key ∧ e.ttl ≠ d.data.ttl) := by
  unfold importPlan reconcile
  rw [List.mem_filter, Bool.or_eq_true, List.isEmpty_iff, Bool.not_eq_true',
    List.isEmpty_eq_false_iff_exists_mem]
  refine and_congr_right fun hd => or_congr ?_ ?_
  · rw [List.eq_nil_iff_forall_not_mem]
    simp only [mem_presentRows hd, not_and, ne_eq]
  · simp only [mem_staleRows hd]
    tauto

theorem isProtected_iff {zone : Zone} {r : RecordData} (h : r.recordType ≠ .soa) :
    isProtected zone r = zone.isPrimaryNs r := by
  unfold isProtected validateDeleteConstraints
  cases hns : zone.isPrimaryNs r <;> simp [h, hns]

theorem desiredMatches_iff {e : Record} :
    desiredMatches desired e = true ↔ e.key ∈ desired.map (·.data.key) := by
  simp only [desiredMatches, List.any_eq_true, sameRr_iff_key, List.mem_map]
  exact exists_congr fun d => and_congr_right fun _ => eq_comm

theorem desiredKeyMatches_iff {e : Record} : desiredKeyMatches desired e = true ↔
    ImportMode.upsert.scope (desired.map (·.data)) e.name e.recordType := by
  simp [desiredKeyMatches, ImportMode.scope]

theorem mem_dels (hok : TxOk tx) {e : Record} : e ∈ (importPlan mode desired tx).dels ↔
    e ∈ tx.store.records ∧ mode.scope (desired.map (·.data)) e.name e.recordType ∧
      tx.store.zone.isPrimaryNs e.toRecordData = false ∧ e.key ∉ desired.map (·.data.key) := by
  have hsoa : e ∈ tx.store.records → isProtected tx.store.zone e.toRecordData =
      tx.store.zone.isPrimaryNs e.toRecordData := fun he =>
    isProtected_iff ((acceptable_coe.1 hok.store.rows).1 _ (List.mem_map_of_mem he)).notSoa
  cases mode with
  | append => simp [importPlan, reconcile, impliedDels, ImportMode.scope]
  | upsert =>
      simp only [importPlan, reconcile, impliedDels, loadExisting, List.mem_filter, Bool.and_eq_true,
        Bool.not_eq_true', ← desiredMatches_iff, desiredKeyMatches_iff, Bool.not_eq_true, and_assoc]
      exact and_congr_right fun he => by rw [hsoa he]
  | replace =>
      simp only [importPlan, reconcile, impliedDels, loadExisting, List.mem_filter, Bool.and_eq_true,
        Bool.not_eq_true', ← desiredMatches_iff, ImportMode.scope, Bool.not_eq_true, true_and]
      exact and_congr_right fun he => by rw [hsoa he]

theorem distinct_iff_nodup : Distinct desired ↔ (desired.map (·.data.key)).Nodup := by
  rw [Distinct, List.Nodup, List.pairwise_map]
  exact List.Pairwise.iff fun _ _ => not_congr sameRr_iff_key

theorem mem_numbered {n : ℕ} {rs : List RecordData} {r : Record} (h : r ∈ Tx.numbered n rs) :
    r.toRecordData ∈ rs ∧ n ≤ r.id := by
  refine ⟨?_, ?_⟩
  · rw [← numbered_map_toRecordData n rs]
    exact List.mem_map_of_mem h
  · have hid : r.id ∈ (Tx.numbered n rs).map (·.id) := List.mem_map_of_mem h
    rw [numbered_map_id, List.mem_range'_1] at hid
    exact hid.1

theorem exists_numbered {n : ℕ} {rs : List RecordData} {x : RecordData} (h : x ∈ rs) :
    ∃ r ∈ Tx.numbered n rs, r.toRecordData = x := by
  rw [← numbered_map_toRecordData n rs] at h
  exact List.mem_map.1 h

theorem mem_importRows (hok : TxOk tx) {r : Record} : r ∈ importRows mode desired tx ↔
    (r ∈ tx.store.records ∧ r ∉ (importPlan mode desired tx).dels ∧ r ∉ (importPlan mode desired tx).ttlDels) ∨
      r ∈ Tx.numbered tx.nextRecordId ((importPlan mode desired tx).adds.map (·.data)) := by
  have hsub : ∀ e ∈ (importPlan mode desired tx).dels ++ (importPlan mode desired tx).ttlDels,
      e ∈ tx.store.records := by
    intro e he
    rcases List.mem_append.1 he with he | he
    · exact ((mem_dels hok).1 he).1
    · exact (mem_ttlDels.1 he).2.1
  rw [importRows, List.mem_append, Tx.survivors, List.mem_filter, decide_eq_true_eq, ← not_or,
    ← List.mem_append]
  refine or_congr_left (and_congr_right fun hr => not_congr ?_)
  refine ⟨fun hid => ?_, fun he => List.mem_map_of_mem he⟩
  obtain ⟨e, he, hid⟩ := List.mem_map.1 hid
  rwa [← eq_of_id_eq hok.ids.nodup (hsub e he) hr hid]

theorem not_mem_of_mem_numbered (hok : TxOk tx) {rs : List RecordData} {r : Record}
    (h : r ∈ Tx.numbered tx.nextRecordId rs) : r ∉ tx.store.records := fun hr =>
  absurd (hok.ids.lt r hr) (Nat.not_lt.2 (mem_numbered h).2)

theorem desired_mem_importRows (mode : ImportMode) (hok : TxOk tx) (hd : Distinct desired) {d : DesiredRecord}
    (hmem : d ∈ desired) : ∃ r ∈ importRows mode desired tx, r.key = d.data.key ∧
      (mode = .append ∧ r ∈ tx.store.records ∨ r.ttl = d.data.ttl) := by
  by_cases hadd : d ∈ (importPlan mode desired tx).adds
  · obtain ⟨r, hr, e⟩ := exists_numbered (n := tx.nextRecordId) (List.mem_map_of_mem (f := (·.data)) hadd)
    exact ⟨r, (mem_importRows hok).2 (.inr hr), congrArg RecordData.key e, .inr (congrArg RecordData.ttl e)⟩
  · -- a record that is not added has a row, and in the other two modes one with its TTL
    simp only [mem_adds, hmem, true_and, not_or, not_forall, not_and, not_exists, not_not] at hadd
    obtain ⟨⟨r, hr, hkey⟩, hstale⟩ := hadd
    have httl : mode = .append ∨ r.ttl = d.data.ttl := (em (mode = .append)).imp_right fun hm =>
      hstale hm r hr hkey
    refine ⟨r, (mem_importRows hok).2 (.inl ⟨hr, fun h => ?_, fun h => ?_⟩), hkey, httl.imp_left (⟨·, hr⟩)⟩
    · exact ((mem_dels hok).1 h).2.2.2 (hkey ▸ List.mem_map_of_mem (f := (·.data.key)) hmem)
    · obtain ⟨hm, _, d', hd', hkey', hne⟩ := mem_ttlDels.1 h
      have e : d' = d := List.inj_on_of_nodup_map (distinct_iff_nodup.1 hd) hd' hmem (hkey'.symm.trans hkey)
      exact hne (e ▸ httl.resolve_left hm)

theorem ttl_of_mem_importRows (hok : TxOk tx) (hd : Distinct desired) (hm : mode ≠ .append) {r : Record}
    (hr : r ∈ importRows mode desired tx) {d : DesiredRecord} (hmem : d ∈ desired) (hkey : r.key = d.data.key) :
    r.ttl = d.data.ttl := by
  rcases (mem_importRows hok).1 hr with ⟨hr, _, hstale⟩ | hr
  · by_contra hne
    exact hstale (mem_ttlDels.2 ⟨hm, hr, d, hmem, hkey, hne⟩)
  · obtain ⟨d', hd', e⟩ := List.mem_map.1 (mem_numbered hr).1
    have : d' = d := List.inj_on_of_nodup_map (distinct_iff_nodup.1 hd) (mem_adds.1 hd').1 hmem
      ((congrArg RecordData.key e).trans hkey)
    rw [← this, e]

/-- What the rows left are: rows kept, and desired records. -/
theorem of_mem_importRows (hok : TxOk tx) {r : Record} (hr : r ∈ importRows mode desired tx) :
    (r ∈ tx.store.records ∧ r ∉ (importPlan mode desired tx).dels) ∨
      ∃ d ∈ (importPlan mode desired tx).adds, r.toRecordData = d.data := by
  rcases (mem_importRows hok).1 hr with hr | hr
  · exact .inl ⟨hr.1, hr.2.1⟩
  · obtain ⟨d, hd, e⟩ := List.mem_map.1 (mem_numbered hr).1
    exact .inr ⟨d, hd, e.symm⟩

/-! ### The modes -/

/-- The desired records are those of the file. -/
structure Desires (file : List RecordData) (desired : List DesiredRecord) : Prop where
  distinct : Distinct desired
  fromFile : ∀ d ∈ desired, d.data ∈ file
  covered : ∀ f ∈ file, ∃ d ∈ desired, d.data.rr = f.rr

variable {file : List RecordData}

theorem Desires.mem_rr (h : Desires file desired) {x : OwnerName × RecordType × Text × ℤ} :
    x ∈ file.map (·.rr) ↔ ∃ d ∈ desired, d.data.rr = x := by
  constructor
  · rintro hx
    obtain ⟨f, hf, rfl⟩ := List.mem_map.1 hx
    exact h.covered f hf
  · rintro ⟨d, hd, rfl⟩
    exact List.mem_map_of_mem (h.fromFile d hd)

theorem Desires.mem_key (h : Desires file desired) {k : OwnerName × RecordType × Text} :
    k ∈ file.map (·.key) ↔ k ∈ desired.map (·.data.key) := by
  constructor
  · intro hk
    obtain ⟨f, hf, rfl⟩ := List.mem_map.1 hk
    obtain ⟨d, hd, e⟩ := h.covered f hf
    exact List.mem_map.2 ⟨d, hd, (rr_eq_iff.1 e).1⟩
  · intro hk
    obtain ⟨d, hd, rfl⟩ := List.mem_map.1 hk
    exact List.mem_map_of_mem (h.fromFile d hd)

theorem Desires.scope_iff (h : Desires file desired) {owner : OwnerName} {recordType : RecordType} :
    mode.scope (desired.map (·.data)) owner recordType ↔ mode.scope file owner recordType := by
  cases mode with
  | append => rfl
  | replace => rfl
  | upsert =>
      constructor
      · rintro ⟨f, hf, hs⟩
        obtain ⟨d, hd, rfl⟩ := List.mem_map.1 hf
        exact ⟨d.data, h.fromFile d hd, hs⟩
      · rintro ⟨f, hf, rfl, rfl⟩
        obtain ⟨d, hd, e⟩ := h.covered f hf
        simp only [RecordData.rr, Prod.mk.injEq] at e
        exact ⟨d.data, List.mem_map_of_mem hd, e.1, e.2.1⟩

theorem scope_of_mem (hm : mode ≠ .append) {f : RecordData} (hf : f ∈ file) :
    mode.scope file f.name f.recordType := by
  cases mode with
  | append => exact absurd rfl hm
  | upsert => exact ⟨f, hf, rfl, rfl⟩
  | replace => trivial

theorem importRows_appends (hok : TxOk tx) (h : Desires file desired) :
    Appends file tx.store.records (importRows .append desired tx) where
  kept r hr := (mem_importRows hok).2 (.inl ⟨hr, by simp [mem_dels hok, ImportMode.scope], by simp [mem_ttlDels]⟩)
  added f hf := by
    obtain ⟨d, hd, e⟩ := h.covered f hf
    obtain ⟨r, hr, hkey, ⟨_, hold⟩ | httl⟩ := desired_mem_importRows .append hok h.distinct hd
    · exact .inl (List.mem_map.2 ⟨r, hold, hkey.trans (rr_eq_iff.1 e).1⟩)
    · exact .inr (List.mem_map.2 ⟨r, hr, (rr_eq_iff.2 ⟨hkey, httl⟩).trans e⟩)
  new r hr := by
    rcases of_mem_importRows hok hr with hr | ⟨d, hd, e⟩
    · exact .inl hr.1
    · obtain ⟨hmem, hnew⟩ := mem_adds.1 hd
      refine .inr ⟨e ▸ h.fromFile d hmem, fun hk => ?_⟩
      obtain ⟨s, hs, hkey⟩ := List.mem_map.1 hk
      exact hnew.resolve_right (by simp) s hs (hkey.trans (congrArg RecordData.key e))

theorem importRows_replaces (hok : TxOk tx) (h : Desires file desired) (hm : mode ≠ .append) :
    Replaces (mode.scope file) tx.store.zone file tx.store.records (importRows mode desired tx) where
  inside x hscope := by
    rw [h.mem_rr]
    constructor
    · intro hx
      obtain ⟨r, hr, e⟩ := List.mem_map.1 hx
      rcases of_mem_importRows hok hr with ⟨hold, hdel⟩ | ⟨d, hd, e'⟩
      · by_cases hk : r.key ∈ desired.map (·.data.key)
        · obtain ⟨d, hd, hkey⟩ := List.mem_map.1 hk
          refine .inl ⟨d, hd, (rr_eq_iff.2 ⟨hkey, ?_⟩).trans e⟩
          exact (ttl_of_mem_importRows hok h.distinct hm hr hd hkey.symm).symm
        · refine .inr ⟨r, hold, e, ?_, mt h.mem_key.1 hk⟩
          by_contra hns
          refine hdel ((mem_dels hok).2 ⟨hold, h.scope_iff.2 ?_, by simpa using hns, hk⟩)
          simp only [RecordData.rr, Prod.mk.injEq] at e
          rwa [e.1, e.2.1]
      · exact .inl ⟨d, (mem_adds.1 hd).1, e' ▸ e⟩
    · rintro (⟨d, hd, e⟩ | ⟨r, hr, e, hns, hk⟩)
      · obtain ⟨r, hr, hkey, httl⟩ := desired_mem_importRows mode hok h.distinct hd
        exact List.mem_map.2 ⟨r, hr, (rr_eq_iff.2 ⟨hkey, httl.resolve_left fun h => hm h.1⟩).trans e⟩
      · refine List.mem_map.2 ⟨r, (mem_importRows hok).2 (.inl ⟨hr, fun hd => ?_, fun hd => ?_⟩), e⟩
        · simp [((mem_dels hok).1 hd).2.2.1] at hns
        · obtain ⟨_, _, d, hd, hkey, _⟩ := mem_ttlDels.1 hd
          exact hk (h.mem_key.2 (hkey ▸ List.mem_map_of_mem (f := (·.data.key)) hd))
  outside r hscope := by
    have hfile : ∀ d ∈ desired, r.key ≠ d.data.key := by
      intro d hd hkey
      simp only [RecordData.key, Prod.mk.injEq] at hkey
      exact hscope (hkey.1 ▸ hkey.2.1 ▸ scope_of_mem hm (h.fromFile d hd))
    constructor
    · intro hr
      rcases of_mem_importRows hok hr with hr | ⟨d, hd, e⟩
      · exact hr.1
      · exact absurd (congrArg RecordData.key e) (hfile d (mem_adds.1 hd).1)
    · intro hr
      refine (mem_importRows hok).2 (.inl ⟨hr, fun hd => ?_, fun hd => ?_⟩)
      · exact hscope (h.scope_iff.1 ((mem_dels hok).1 hd).2.1)
      · obtain ⟨_, _, d, hd, hkey, _⟩ := mem_ttlDels.1 hd
        exact hfile d hd hkey

theorem importRows_imports (hok : TxOk tx) (h : Desires file desired) :
    Imports mode tx.store.zone file tx.store.records (importRows mode desired tx) := by
  cases mode with
  | append => exact importRows_appends hok h
  | upsert => exact importRows_replaces hok h (by simp)
  | replace => exact importRows_replaces hok h (by simp)

/-! ### The counts -/

theorem Desires.length (h : Desires file desired) : desired.length = (file.map (·.key)).dedup.length := by
  have hperm : (desired.map (·.data.key)).Perm (file.map (·.key)).dedup :=
    (List.perm_ext_iff_of_nodup (distinct_iff_nodup.1 h.distinct) (List.nodup_dedup _)).2 fun k => by
      rw [List.mem_dedup, h.mem_key]
  rw [← hperm.length_eq, List.length_map]

theorem length_eq_of_keys (hok : TxOk tx) (hd : Distinct desired) {rows : List Record} {ds : List DesiredRecord}
    (hrows : rows.Nodup) (hsub : ∀ r ∈ rows, r ∈ tx.store.records) (hds : ds.Sublist desired)
    (hmem : ∀ k, k ∈ rows.map (·.key) ↔ k ∈ ds.map (·.data.key)) : rows.length = ds.length := by
  have h1 : (rows.map (·.key)).Nodup := List.Nodup.map_on
    (fun r hr s hs e => hok.store.rows.eq_of_key_eq (hsub r hr) (hsub s hs) e) hrows
  have h2 : (ds.map (·.data.key)).Nodup := (distinct_iff_nodup.1 hd).sublist (hds.map _)
  simpa using ((List.perm_ext_iff_of_nodup h1 h2).2 hmem).length_eq

theorem importPlan_nodup (mode : ImportMode) (hok : TxOk tx) (hd : Distinct desired) :
    ((importPlan mode desired tx).dels ++ (importPlan mode desired tx).ttlDels).Nodup :=
  reconcile_nodup hd ((List.Nodup.of_map _ hok.ids.nodup).sublist (loadExisting_sublist mode desired tx))

theorem stale_iff (mode : ImportMode) (tx : Tx) {d : DesiredRecord} (hd : d ∈ desired) :
    (!(staleRows mode (loadExisting mode desired tx) d).isEmpty) = true ↔
      mode ≠ .append ∧ ∃ e ∈ tx.store.records, e.key = d.data.key ∧ e.ttl ≠ d.data.ttl := by
  rw [Bool.not_eq_true', List.isEmpty_eq_false_iff_exists_mem]
  simp only [mem_staleRows hd]
  tauto

theorem present_iff (mode : ImportMode) (tx : Tx) {d : DesiredRecord} (hd : d ∈ desired) :
    (presentRows (loadExisting mode desired tx) d).isEmpty = false ↔
      d.data.key ∈ tx.store.records.map (·.key) := by
  rw [List.isEmpty_eq_false_iff_exists_mem]
  simp only [mem_presentRows hd, List.mem_map]

theorem length_ttlDels (hok : TxOk tx) (hd : Distinct desired) :
    (importPlan mode desired tx).ttlDels.length = (importPlan mode desired tx).updated := by
  have hupd : (importPlan mode desired tx).updated = (desired.filter fun d =>
      !(staleRows mode (loadExisting mode desired tx) d).isEmpty).length := List.countP_eq_length_filter
  rw [hupd]
  refine length_eq_of_keys hok hd (List.nodup_append.1 (importPlan_nodup mode hok hd)).2.1
    (fun r hr => (mem_ttlDels.1 hr).2.1) List.filter_sublist fun k => ?_
  constructor
  · intro hk
    obtain ⟨e, he, rfl⟩ := List.mem_map.1 hk
    obtain ⟨hm, he, d, hd, hkey, hne⟩ := mem_ttlDels.1 he
    exact List.mem_map.2 ⟨d, List.mem_filter.2 ⟨hd, (stale_iff mode tx hd).2 ⟨hm, e, he, hkey, hne⟩⟩, hkey.symm⟩
  · intro hk
    obtain ⟨d, hmem, rfl⟩ := List.mem_map.1 hk
    obtain ⟨hmem, hs⟩ := List.mem_filter.1 hmem
    obtain ⟨hm, e, he, hkey, hne⟩ := (stale_iff mode tx hmem).1 hs
    exact List.mem_map.2 ⟨e, mem_ttlDels.2 ⟨hm, he, d, hmem, hkey, hne⟩, hkey⟩

theorem not_mem_importRows (hok : TxOk tx) {r : Record} (hr : r ∈ tx.store.records) :
    r ∉ importRows mode desired tx ↔
      r ∈ (importPlan mode desired tx).dels ∨ r ∈ (importPlan mode desired tx).ttlDels := by
  have hnew : r ∉ Tx.numbered tx.nextRecordId ((importPlan mode desired tx).adds.map (·.data)) :=
    fun h => not_mem_of_mem_numbered hok h hr
  rw [mem_importRows hok]
  tauto

/-- Of the rows an import takes away, the stale ones are there again. -/
theorem key_mem_importRows (hok : TxOk tx) (hd : Distinct desired) {r : Record} (hr : r ∈ tx.store.records) :
    r.key ∉ (importRows mode desired tx).map (·.key) ↔ r ∈ (importPlan mode desired tx).dels := by
  constructor
  · intro hk
    have hgone : r ∉ importRows mode desired tx := fun h => hk (List.mem_map_of_mem h)
    refine ((not_mem_importRows hok hr).1 hgone).resolve_right fun h => ?_
    obtain ⟨_, _, d, hmem, hkey, _⟩ := mem_ttlDels.1 h
    obtain ⟨s, hs, hkey', _⟩ := desired_mem_importRows mode hok hd hmem
    exact hk (List.mem_map.2 ⟨s, hs, hkey'.trans hkey.symm⟩)
  · intro hdel hk
    obtain ⟨s, hs, hkey⟩ := List.mem_map.1 hk
    have hnot := ((mem_dels hok).1 hdel).2.2.2
    rcases of_mem_importRows hok hs with ⟨hold, hkept⟩ | ⟨d, hd, e⟩
    · rw [hok.store.rows.eq_of_key_eq hold hr hkey] at hkept
      exact hkept hdel
    · exact hnot (List.mem_map.2 ⟨d, (mem_adds.1 hd).1, (congrArg RecordData.key e).symm.trans hkey⟩)

theorem countP_eq_length {l m : List Record} {p : Record → Bool} (hl : l.Nodup) (hm : m.Nodup)
    (h : ∀ r, r ∈ m ↔ r ∈ l ∧ p r = true) : l.countP p = m.length := by
  rw [List.countP_eq_length_filter]
  exact ((List.perm_ext_iff_of_nodup (hl.filter p) hm).2 fun r => by rw [List.mem_filter, h]).length_eq

def importSummary (plan : Reconciled) (parsed skipped : ℕ) : ImportSummary :=
  ⟨parsed, plan.adds.length - plan.updated, plan.dels.length, plan.updated, plan.unchanged, skipped⟩

theorem updated_le_adds (mode : ImportMode) (desired : List DesiredRecord) (tx : Tx) :
    (importPlan mode desired tx).updated ≤ (importPlan mode desired tx).adds.length := by
  unfold importPlan reconcile
  rw [← List.countP_eq_length_filter]
  exact List.countP_mono_left fun d _ hs => by simp [hs]

theorem adds_add_unchanged (mode : ImportMode) (desired : List DesiredRecord) (tx : Tx) :
    (importPlan mode desired tx).adds.length + (importPlan mode desired tx).unchanged = desired.length := by
  unfold importPlan reconcile
  rw [← List.countP_eq_length_filter, List.length_eq_countP_add_countP (p := fun d =>
    (presentRows (loadExisting mode desired tx) d).isEmpty ||
      !(staleRows mode (loadExisting mode desired tx) d).isEmpty)]
  congr 1
  refine List.countP_congr fun d _ => ?_
  simp

theorem countP_adds_new : (importPlan mode desired tx).adds.countP
      (fun d => d.data.key ∉ tx.store.records.map (·.key)) =
    (importPlan mode desired tx).adds.length - (importPlan mode desired tx).updated := by
  have hstale : (importPlan mode desired tx).adds.countP
      (fun d => ¬ (decide (d.data.key ∉ tx.store.records.map (·.key)) = true)) =
        (importPlan mode desired tx).updated := by
    unfold importPlan reconcile
    rw [List.countP_filter]
    refine List.countP_congr fun d hd => ?_
    simp only [Bool.and_eq_true, decide_eq_true_eq, not_not, Bool.or_eq_true]
    constructor
    · rintro ⟨hk, hempty | hs⟩
      · simp [(present_iff mode tx hd).2 hk] at hempty
      · exact hs
    · intro hs
      obtain ⟨_, e, he, hkey, _⟩ := (stale_iff mode tx hd).1 hs
      exact ⟨List.mem_map.2 ⟨e, he, hkey⟩, .inr hs⟩
  have hlen := List.length_eq_countP_add_countP (p := fun d : DesiredRecord =>
    decide (d.data.key ∉ tx.store.records.map (·.key))) (l := (importPlan mode desired tx).adds)
  omega

theorem countP_unchanged (hok : TxOk tx) (h : Desires file desired) :
    tx.store.records.countP (fun r => r ∈ importRows mode desired tx ∧ r.key ∈ file.map (·.key)) =
      (importPlan mode desired tx).unchanged := by
  have hun : (importPlan mode desired tx).unchanged = (desired.filter fun d =>
      !(presentRows (loadExisting mode desired tx) d).isEmpty &&
        (staleRows mode (loadExisting mode desired tx) d).isEmpty).length := List.countP_eq_length_filter
  rw [hun, List.countP_eq_length_filter]
  refine length_eq_of_keys hok h.distinct ((List.Nodup.of_map _ hok.ids.nodup).filter _)
    (fun r hr => List.mem_of_mem_filter hr) List.filter_sublist fun k => ?_
  constructor
  · intro hk
    obtain ⟨r, hr, rfl⟩ := List.mem_map.1 hk
    simp only [List.mem_filter, decide_eq_true_eq, h.mem_key] at hr
    obtain ⟨hold, hleft, hk⟩ := hr
    obtain ⟨d, hd, hkey⟩ := List.mem_map.1 hk
    refine List.mem_map.2 ⟨d, List.mem_filter.2 ⟨hd, ?_⟩, hkey⟩
    rw [Bool.and_eq_true, Bool.not_eq_true', present_iff mode tx hd]
    refine ⟨List.mem_map.2 ⟨r, hold, hkey.symm⟩, ?_⟩
    by_contra hs
    obtain ⟨hm, e, he, hkey', hne⟩ := (stale_iff mode tx hd).1 (by simpa using hs)
    rw [hok.store.rows.eq_of_key_eq he hold (hkey'.trans hkey)] at hne
    exact hne (ttl_of_mem_importRows hok h.distinct hm hleft hd hkey.symm)
  · intro hk
    obtain ⟨d, hd, rfl⟩ := List.mem_map.1 hk
    obtain ⟨hd, hp⟩ := List.mem_filter.1 hd
    rw [Bool.and_eq_true, Bool.not_eq_true', present_iff mode tx hd] at hp
    obtain ⟨r, hr, hkey⟩ := List.mem_map.1 hp.1
    have hin : r.key ∈ desired.map (·.data.key) := hkey ▸ List.mem_map_of_mem (f := (·.data.key)) hd
    refine List.mem_map.2 ⟨r, List.mem_filter.2 ⟨hr, ?_⟩, hkey⟩
    rw [decide_eq_true_eq, h.mem_key]
    refine ⟨(mem_importRows hok).2 (.inl ⟨hr, fun hdel => ((mem_dels hok).1 hdel).2.2.2 hin, fun hs => ?_⟩), hin⟩
    obtain ⟨hm, _, d', hd', hkey', hne⟩ := mem_ttlDels.1 hs
    have e : d' = d := List.inj_on_of_nodup_map (distinct_iff_nodup.1 h.distinct) hd' hd (hkey'.symm.trans hkey)
    have := (stale_iff mode tx hd).2 ⟨hm, r, hr, hkey, e ▸ hne⟩
    simp [hp.2] at this

theorem importRows_counts (hok : TxOk tx) (h : Desires file desired) (skipped : ℕ) :
    Counts file tx.store.records (importRows mode desired tx)
      (importSummary (importPlan mode desired tx) desired.length skipped) := by
  have hnd := List.nodup_append.1 (importPlan_nodup mode hok h.distinct)
  have hbefore : tx.store.records.Nodup := List.Nodup.of_map _ hok.ids.nodup
  have hle := updated_le_adds mode desired tx
  have hkept : ∀ r ∈ tx.survivors ((importPlan mode desired tx).dels ++ (importPlan mode desired tx).ttlDels),
      r ∈ tx.store.records := fun r hr => List.mem_of_mem_filter hr
  have hlen : (Tx.numbered tx.nextRecordId ((importPlan mode desired tx).adds.map (·.data))).length =
      (importPlan mode desired tx).adds.length := by
    rw [← List.length_map (f := (·.toRecordData)), numbered_map_toRecordData, List.length_map]
  refine ⟨h.length, ?_, ?_, ?_, ?_, ?_, ?_, countP_unchanged hok h⟩
  · have := adds_add_unchanged mode desired tx
    simp only [importSummary]
    omega
  · simp only [importSummary, Nat.sub_add_cancel hle]
    rw [importRows, List.countP_append, List.countP_eq_zero.2 fun r hr => by simpa using hkept r hr,
      List.countP_eq_length.2 fun r hr => by simpa using not_mem_of_mem_numbered hok hr, hlen, Nat.zero_add]
  · rw [countP_eq_length hbefore (importPlan_nodup mode hok h.distinct) fun r => ?_, List.length_append,
      length_ttlDels hok h.distinct]
    · rfl
    · rw [List.mem_append, decide_eq_true_eq]
      refine ⟨fun hr => ?_, fun hr => (not_mem_importRows hok hr.1).1 hr.2⟩
      have hold : r ∈ tx.store.records :=
        hr.elim (fun hr => ((mem_dels hok).1 hr).1) fun hr => (mem_ttlDels.1 hr).2.1
      exact ⟨hold, (not_mem_importRows hok hold).2 hr⟩
  · rw [importRows, List.countP_append, List.countP_eq_zero.2 fun r hr => ?_, Nat.zero_add]
    · have e : ∀ l : List Record, l.countP (fun r => r.key ∉ tx.store.records.map (·.key)) =
          (l.map (·.toRecordData)).countP fun x => x.key ∉ tx.store.records.map (·.key) := fun l => by
        rw [List.countP_map]
        rfl
      rw [e, numbered_map_toRecordData, List.countP_map]
      exact countP_adds_new
    · simpa using ⟨r, hkept r hr, rfl⟩
  · refine countP_eq_length hbefore hnd.1 fun r => ?_
    rw [decide_eq_true_eq]
    exact ⟨fun hr => ⟨((mem_dels hok).1 hr).1, (key_mem_importRows hok h.distinct ((mem_dels hok).1 hr).1).2 hr⟩,
      fun hr => (key_mem_importRows hok h.distinct hr.1).1 hr.2⟩
  · refine (countP_eq_length hbefore hnd.2.1 fun r => ?_).trans (length_ttlDels hok h.distinct)
    rw [decide_eq_true_eq]
    constructor
    · intro hr
      have hold := (mem_ttlDels.1 hr).2.1
      refine ⟨hold, (not_mem_importRows hok hold).2 (.inr hr), ?_⟩
      by_contra hk
      exact hnd.2.2 r ((key_mem_importRows hok h.distinct hold).1 hk) r hr rfl
    · rintro ⟨hold, hgone, hk⟩
      refine ((not_mem_importRows hok hold).1 hgone).resolve_left fun hdel => ?_
      exact (key_mem_importRows hok h.distinct hold).2 hdel hk

/-! ### A second import -/

/-- On the rows an import left, the same desired records ask for nothing. -/
theorem importPlan_again (hok : TxOk tx) (hd : Distinct desired) {tx' : Tx} (hok' : TxOk tx')
    (hrows : tx'.store.records = importRows mode desired tx)
    (hns : ∀ r, tx'.store.zone.isPrimaryNs r = tx.store.zone.isPrimaryNs r) :
    importPlan mode desired tx' = ⟨[], [], [], 0, desired.length⟩ := by
  have hdels : (importPlan mode desired tx').dels = [] := by
    refine List.eq_nil_iff_forall_not_mem.2 fun e he => ?_
    rw [mem_dels hok', hrows, hns] at he
    obtain ⟨hleft, hscope, hprot, hk⟩ := he
    rcases of_mem_importRows hok hleft with ⟨hold, hkept⟩ | ⟨d, hd, e'⟩
    · exact hkept ((mem_dels hok).2 ⟨hold, hscope, hprot, hk⟩)
    · exact hk (List.mem_map.2 ⟨d, (mem_adds.1 hd).1, (congrArg RecordData.key e').symm⟩)
  have hstale : ∀ d ∈ desired, mode ≠ .append → ∀ e ∈ tx'.store.records, e.key = d.data.key →
      e.ttl = d.data.ttl := by
    rw [hrows]
    exact fun d hmem hm e he hkey => ttl_of_mem_importRows hok hd hm he hmem hkey
  have httl : (importPlan mode desired tx').ttlDels = [] := by
    refine List.eq_nil_iff_forall_not_mem.2 fun e he => ?_
    obtain ⟨hm, he, d, hmem, hkey, hne⟩ := mem_ttlDels.1 he
    exact hne (hstale d hmem hm e he hkey)
  have hadds : (importPlan mode desired tx').adds = [] := by
    refine List.eq_nil_iff_forall_not_mem.2 fun d hadd => ?_
    obtain ⟨hmem, habsent | ⟨hm, e, he, hkey, hne⟩⟩ := mem_adds.1 hadd
    · obtain ⟨r, hr, hkey, _⟩ := desired_mem_importRows mode hok hd hmem
      exact habsent r (hrows ▸ hr) hkey
    · exact hne (hstale d hmem hm e he hkey)
  have hupd := updated_le_adds mode desired tx'
  have hun := adds_add_unchanged mode desired tx'
  rw [hadds, List.length_nil, Nat.le_zero] at hupd
  rw [hadds, List.length_nil, Nat.zero_add] at hun
  calc importPlan mode desired tx'
      _ = ⟨(importPlan mode desired tx').dels, (importPlan mode desired tx').ttlDels,
          (importPlan mode desired tx').adds, (importPlan mode desired tx').updated,
          (importPlan mode desired tx').unchanged⟩ := rfl
      _ = ⟨[], [], [], 0, desired.length⟩ := by rw [hdels, httl, hadds, hupd, hun]

theorem records_of_applyImport {tx' : Tx}
    (h : applyImport (importPlan mode desired tx) tx = .ok tx') :
    tx'.store.records = importRows mode desired tx ∧ ∃ n, tx'.store.zone = { tx.store.zone with serial := n } := by
  obtain ⟨n, _, h⟩ := Fallible.bind_eq_ok.1 h
  obtain ⟨_, _, h⟩ := Fallible.bind_eq_ok.1 h
  cases h
  exact ⟨rfl, n, rfl⟩

theorem importRows_of_not_hasChanges
    (h : (importPlan mode desired tx).hasChanges = false) : importRows mode desired tx = tx.store.records := by
  simp only [Reconciled.hasChanges, Bool.or_eq_false_iff, Bool.not_eq_false', List.isEmpty_iff] at h
  simp [importRows, h.1.1, h.1.2, h.2, Tx.survivors, Tx.numbered]

end Plan

/-! ### The import -/

section Import

variable [Crates] {request : ImportZoneFileRequest} {tx tx' : Tx} {response : ImportZoneFileResponse}

theorem desires_of_normalizeParsed {content : Text} {zone : Zone} {n : Normalized}
    (h : normalizeParsed zone (parseZoneFile content zone).1 (parseZoneFile content zone).2 = .ok n)
    (he : n.errors = []) : Desires (fileRecords content zone) n.desired := by
  obtain ⟨_, hnorm⟩ := normalizeParsed_eq_ok h he
  refine ⟨normalizeParsed_distinct h, fun d hd => ?_, fun f hf => ?_⟩
  · obtain ⟨r, hr, e⟩ := hnorm.fromFile d hd
    exact List.mem_filterMap.2 ⟨r, hr, e⟩
  · obtain ⟨r, hr, e⟩ := List.mem_filterMap.1 hf
    obtain ⟨d, hd, hk⟩ := hnorm.covered r hr f e
    exact ⟨d, hd, rr_eq_iff.2 hk⟩

/-- A record of the file is in error by itself: it does not parse, it has no row in the zone, or
the file holds it with two TTLs. -/
def InError (content : Text) (zone : Zone) : Prop :=
  (parseZoneFile content zone).2 ≠ [] ∨ (∃ r ∈ (parseZoneFile content zone).1, r.data zone = none) ∨
    ∃ f ∈ fileRecords content zone, ∃ g ∈ fileRecords content zone, f.key = g.key ∧ f.ttl ≠ g.ttl

/-- The outcome of an import, from the steps of its transaction. -/
inductive ImportCase (request : ImportZoneFileRequest) (tx tx' : Tx) (response : ImportZoneFileResponse) : Prop
  | intro (n : Normalized) (addErrors : List Text)
      (normalized : normalizeParsed tx.store.zone (parseZoneFile request.content tx.store.zone).1
        (parseZoneFile request.content tx.store.zone).2 = .ok n)
      (hresponse : response = ⟨(n.errors ++ addErrors).isEmpty && !request.dryRun, request.dryRun,
        importSummary (importPlan request.mode n.desired tx) n.desired.length n.skipped, n.errors ++ addErrors⟩)
      (outcome : (response.applied = true ∧ (importPlan request.mode n.desired tx).hasChanges = true ∧
          applyImport (importPlan request.mode n.desired tx) tx = .ok tx') ∨
        ((response.applied = true → (importPlan request.mode n.desired tx).hasChanges = false) ∧ tx' = tx))

theorem importTx_cases (h : importTx request tx = .ok (tx', response)) :
    ImportCase request tx tx' response := by
  obtain ⟨s, hs, h⟩ := Fallible.bind_eq_ok.1 h
  obtain ⟨n, addErrors, hnorm, rfl, -⟩ := importSteps_eq_ok.1 hs
  simp only at h
  split at h
  · rename_i hcond
    obtain ⟨tx₁, happly, h⟩ := Fallible.bind_eq_ok.1 h
    cases h
    rw [Bool.and_eq_true] at hcond
    exact ⟨n, addErrors, hnorm, rfl, .inl ⟨hcond.1, hcond.2, happly⟩⟩
  · rename_i hcond
    cases h
    refine ⟨n, addErrors, hnorm, rfl, .inr ⟨fun ha => ?_, rfl⟩⟩
    by_contra hne
    exact hcond (Bool.and_eq_true_iff.2 ⟨ha, Bool.of_not_eq_false hne⟩)

theorem ImportCase.applied (hok : TxOk tx) (h : importTx request tx = .ok (tx', response))
    (happ : response.applied = true) :
    TxOk tx' ∧ (∃ s, tx'.store.zone = { tx.store.zone with serial := s }) ∧ ∃ n,
      normalizeParsed tx.store.zone (parseZoneFile request.content tx.store.zone).1
        (parseZoneFile request.content tx.store.zone).2 = .ok n ∧ n.errors = [] ∧
      request.dryRun = false ∧ tx'.store.records = importRows request.mode n.desired tx ∧
      response = ⟨true, false,
        importSummary (importPlan request.mode n.desired tx) n.desired.length n.skipped, []⟩ := by
  obtain ⟨n, addErrors, hnorm, hresp, hout⟩ := importTx_cases h
  have hok' : TxOk tx' := by
    rcases importTx_commits hok h with rfl | ⟨_, cs, _, hc⟩
    · exact hok
    · exact ⟨hok.store.advances hc.advances, hc.ids⟩
  obtain ⟨⟨hn, hadd⟩, hdry⟩ : (n.errors = [] ∧ addErrors = []) ∧ request.dryRun = false := by
    simpa [hresp] using happ
  have hresp' : response = ⟨true, false,
      importSummary (importPlan request.mode n.desired tx) n.desired.length n.skipped, []⟩ := by
    simpa [hn, hadd, hdry] using hresp
  rcases hout with ⟨_, _, happly⟩ | ⟨hno, rfl⟩
  · obtain ⟨hrec, hzone⟩ := records_of_applyImport happly
    exact ⟨hok', hzone, n, hnorm, hn, hdry, hrec, hresp'⟩
  · exact ⟨hok', ⟨_, rfl⟩, n, hnorm, hn, hdry, (importRows_of_not_hasChanges (hno happ)).symm, hresp'⟩

theorem importTx_unchanged {n : Normalized} (hnorm : normalizeParsed tx.store.zone
      (parseZoneFile request.content tx.store.zone).1 (parseZoneFile request.content tx.store.zone).2 = .ok n)
    (he : n.errors = []) (hplan : importPlan request.mode n.desired tx = ⟨[], [], [], 0, n.desired.length⟩) :
    importTx request tx = .ok (tx, ⟨!request.dryRun, request.dryRun,
      ⟨n.desired.length, 0, 0, 0, n.desired.length, n.skipped⟩, []⟩) := by
  rw [importPlan] at hplan
  refine Fallible.bind_eq_ok.2 ⟨_, importSteps_eq_ok.2 ⟨n, [], hnorm, rfl, ?_⟩, ?_⟩
  · rw [hplan]
    rfl
  · simp [hplan, he, Reconciled.hasChanges, pure, Except.pure]

structure ImportOutcome (request : ImportZoneFileRequest) (tx tx' : Tx) (response : ImportZoneFileResponse) :
    Prop where
  refused : response.errors ≠ [] → response.applied = false
  inError : InError request.content tx.store.zone → response.errors ≠ []
  notApplied : response.applied = false → tx' = tx
  imports : response.applied = true → Imports request.mode tx.store.zone
    (fileRecords request.content tx.store.zone) tx.store.records tx'.store.records
  acceptable : response.applied = true → Acceptable tx'.store.rows
  counts : response.applied = true → Counts (fileRecords request.content tx.store.zone) tx.store.records
    tx'.store.records response.summary
  again : response.applied = true → importTx request tx' = .ok (tx', { response with
    summary := ⟨response.summary.parsed, 0, 0, 0, response.summary.parsed, response.summary.skipped⟩ })

/-- **Import.**  An import that is applied leaves the rows its mode asks for and reports the rows it
inserted, removed and changed, and the same import again does nothing; an import that meets a
record in error writes nothing. -/
theorem importTx_outcome (hok : TxOk tx) (h : importTx request tx = .ok (tx', response)) :
    ImportOutcome request tx tx' response := by
  obtain ⟨n, addErrors, hnorm, hresp, hout⟩ := importTx_cases h
  refine ⟨fun he => ?_, fun hin he => ?_, fun hno => ?_, fun happ => ?_, fun happ => ?_, fun happ => ?_,
    fun happ => ?_⟩
  · subst hresp
    simpa [List.isEmpty_iff] using fun h1 h2 => absurd (by simp [h1, h2]) he
  · -- with no error reported, every record normalised, and to one TTL
    have hn : n.errors = [] := by
      subst hresp
      exact (List.append_eq_nil_iff.1 he).1
    obtain ⟨hparse, hall⟩ := normalizeParsed_eq_ok hnorm hn
    have hdes := desires_of_normalizeParsed hnorm hn
    rcases hin with hin | ⟨r, hr, hnone⟩ | ⟨f, hf, g, hg, hkey, hne⟩
    · exact hin hparse
    · obtain ⟨f, hf⟩ := hall.data r hr
      simp [hnone] at hf
    · obtain ⟨d, hd, e⟩ := hdes.covered f hf
      obtain ⟨d', hd', e'⟩ := hdes.covered g hg
      rw [rr_eq_iff] at e e'
      have : d = d' := List.inj_on_of_nodup_map (distinct_iff_nodup.1 hdes.distinct) hd hd'
        (e.1.trans (hkey.trans e'.1.symm))
      exact hne (e.2.symm.trans (this ▸ e'.2))
  · rcases hout with ⟨happ, _⟩ | ⟨_, e⟩
    · simp [hno] at happ
    · exact e
  · obtain ⟨_, _, n, hnorm, hn, _, hrows, _⟩ := ImportCase.applied hok h happ
    rw [hrows]
    exact importRows_imports hok (desires_of_normalizeParsed hnorm hn)
  · exact (ImportCase.applied hok h happ).1.store.rows
  · obtain ⟨_, _, n, hnorm, hn, _, hrows, rfl⟩ := ImportCase.applied hok h happ
    rw [hrows]
    exact importRows_counts hok (desires_of_normalizeParsed hnorm hn) _
  · obtain ⟨hok', ⟨s, hzone⟩, n, hnorm, hn, hdry, hrows, rfl⟩ := ImportCase.applied hok h happ
    have hdes := desires_of_normalizeParsed hnorm hn
    have hplan := importPlan_again hok hdes.distinct hok' hrows fun r => by rw [hzone]; rfl
    rw [importTx_unchanged (by rw [hzone]; exact hnorm) hn hplan, hdry]
    rfl

end Import

/-! ### A reader of master files -/

/-- Rdata; that of an SOA is not looked at. -/
def rdataPresentation : Rfc1035.Rdata → ZonefileRdata
  | .a addr => .other (ipv4Text addr)
  | .aaaa addr => .other (ipv6Text addr)
  | .ns n | .cname n | .ptr n => .other (Rfc1035.namePresentation n)
  | .mx preference n => .other (join [' '] [natText preference, Rfc1035.namePresentation n])
  | .srv priority weight port n =>
      .other (join [' '] [natText priority, natText weight, natText port, Rfc1035.namePresentation n])
  | .soa _ _ _ _ _ _ _ => .other []
  | .txt octets => .txt (txtChunks octets)

/-- A reader of master files. -/
abbrev masterFileCrates : Crates := { sampleCrates with
  readZonefile := fun t => ((Rfc1035.readMasterFile t).getD []).map fun a =>
    .record ⟨Rfc1035.namePresentation a.owner, 1, lit "IN", a.data.typeCode, [], a.ttl, rdataPresentation a.data⟩ }

/-- An import that replaces the zone's records by a file that moves `www` to another address and adds a
mail exchanger. -/
def replaceRequest : ImportZoneFileRequest := ⟨lit "www 3600 IN A 192.0.2.2\n@ 3600 IN MX 10 mail\n", .replace, false⟩

theorem importTx_outcome_replaceRequest : ∃ st ∈ (@run masterFileCrates sampleHistory).stores, ∃ tx' response,
    @importTx masterFileCrates replaceRequest ((@run masterFileCrates sampleHistory).beginTx st) = .ok (tx', response) ∧
      response.applied = true ∧ response.summary = ⟨2, 2, 1, 0, 0, 0⟩ ∧
      @ImportOutcome masterFileCrates replaceRequest ((@run masterFileCrates sampleHistory).beginTx st) tx' response := by
  obtain ⟨st, hst, hres⟩ : ∃ st ∈ (@run masterFileCrates sampleHistory).stores,
      (@importTx masterFileCrates replaceRequest ((@run masterFileCrates sampleHistory).beginTx st)).map
        (fun p => (p.2.applied, p.2.summary)) = .ok (true, ⟨2, 2, 1, 0, 0, 0⟩) := by
    decide +kernel
  obtain ⟨⟨tx', response⟩, h, e⟩ := Fallible.map_eq_ok.1 hres
  rw [Prod.mk.injEq] at e
  have hok := @run_ok masterFileCrates sampleHistory
  exact ⟨st, hst, tx', response, h, e.1, e.2,
    @importTx_outcome masterFileCrates _ _ _ _ ⟨hok.store st hst, hok.ids st hst⟩ h⟩

end Bindizr
