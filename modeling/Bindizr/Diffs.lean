import Bindizr.Grouping
import Bindizr.Operations
import Bindizr.OwnerForms
import Bindizr.Reads

/-! # Record diffs

`build_record_diff` of `bindizr-service/src/zone/history.rs`, as the source computes it: the records
of each side are grouped into an ordered map by the text of their owner and type, the keys of
both maps are merged, and a loop over them drains the maps, compares the sorted identities of
the two groups of a key and counts what it reports (`RecordDiff.build`).  Its entries are those of
`buildRecordDiff`, which has no maps (`build_eq_ofEntries`).  The text of an owner determines the
owner, and sorted identities are equal exactly when they are the same multiset, so there is one
entry for each RRset that differs as a multiset, and no other (`record_diff_faithful`). -/

namespace Bindizr

section Diffs

variable [crates : Crates]

/-! ### The computation -/

structure GroupedRecord where
  identity : Text × ℤ
  value : RecordDiffValue

/-- A record in its group: its canonical rdata and TTL, and what is shown of it. -/
def RecordData.grouped (r : RecordData) : GroupedRecord where
  identity := (r.canonical, r.ttl)
  value := ⟨displayRecordValueRequest r.value r.recordType, r.ttl, r.priority⟩

def groupRrsets (zone : Zone) (records : List RecordData) : List ((Text ×ₗ Text) × List GroupedRecord) :=
  Grouping.group (fun r => toLex (r.rrsetKey zone)) RecordData.grouped records

structure RecordDiffSummary where
  added : ℕ
  removed : ℕ
  changed : ℕ
  deriving DecidableEq

structure RecordDiff where
  entries : List RecordDiffEntry
  summary : RecordDiffSummary
  deriving DecidableEq

/-- The state of the loop: the two maps, of which each key takes its groups, and the diff so far. -/
structure RecordDiff.Loop where
  before : List ((Text ×ₗ Text) × List GroupedRecord)
  after : List ((Text ×ₗ Text) × List GroupedRecord)
  diff : RecordDiff

/-- `group_identities`, of grouped records. -/
def GroupedRecord.identities (group : List GroupedRecord) : List (Text × ℤ) :=
  (group.map (·.identity)).mergeSort fun a b => if a.1 = b.1 then decide (a.2 ≤ b.2) else decide (a.1 < b.1)

/-- One round of the loop.  The last case is the source's `unreachable!`. -/
def RecordDiff.Loop.round (s : RecordDiff.Loop) (key : Text ×ₗ Text) : RecordDiff.Loop :=
  let rest : RecordDiff.Loop := ⟨Grouping.remove key s.before, Grouping.remove key s.after, s.diff⟩
  let summary := s.diff.summary
  let name := (ofLex key).1
  let recordType := (ofLex key).2
  match Grouping.get key s.before, Grouping.get key s.after with
  | none, some after =>
      { rest with diff := ⟨s.diff.entries ++ [⟨.added, name, recordType, [], after.map (·.value)⟩],
          { summary with added := summary.added + 1 }⟩ }
  | some before, none =>
      { rest with diff := ⟨s.diff.entries ++ [⟨.removed, name, recordType, before.map (·.value), []⟩],
          { summary with removed := summary.removed + 1 }⟩ }
  | some before, some after =>
      if GroupedRecord.identities before ≠ GroupedRecord.identities after then
        { rest with diff := ⟨s.diff.entries ++ [⟨.changed, name, recordType, before.map (·.value), after.map (·.value)⟩],
            { summary with changed := summary.changed + 1 }⟩ }
      else rest
  | none, none => rest

/-- The keys of both maps, in order. -/
def mergedKeys (before after : List ((Text ×ₗ Text) × List GroupedRecord)) : List (Text ×ₗ Text) :=
  (before.map (·.1) ++ (after.map (·.1)).filter (· ∉ before.map (·.1))).mergeSort (· ≤ ·)

/-- `build_record_diff`. -/
def RecordDiff.build (zone : Zone) (before after : List RecordData) : RecordDiff :=
  let beforeGroups := groupRrsets zone before
  let afterGroups := groupRrsets zone after
  ((mergedKeys beforeGroups afterGroups).foldl RecordDiff.Loop.round ⟨beforeGroups, afterGroups, ⟨[], ⟨0, 0, 0⟩⟩⟩).diff

/-! ### Sorting by two fields -/

section Sorting

variable {α γ : Type} [LinearOrder γ] {le : α → α → Bool} {key : α → γ} (hle : ∀ a b, le a b = true ↔ key a ≤ key b)

include hle

omit crates in
theorem pairwise_mergeSort_key (l : List α) : (l.mergeSort le).Pairwise fun a b => key a ≤ key b := by
  refine (List.pairwise_mergeSort (fun a b c => ?_) (fun a b => ?_) l).imp fun h => (hle _ _).1 h
  · simp only [hle]
    exact le_trans
  · rw [Bool.or_eq_true, hle, hle]
    exact le_total _ _

omit crates in
theorem mergeSort_eq_iff_perm (hkey : Function.Injective key) {l l' : List α} :
    l.mergeSort le = l'.mergeSort le ↔ l.Perm l' := by
  constructor
  · intro h
    exact (List.mergeSort_perm l le).symm.trans (h ▸ List.mergeSort_perm l' le)
  · intro h
    refine List.Perm.eq_of_pairwise (fun a b _ _ hab hba => hkey (le_antisymm hab hba))
      (pairwise_mergeSort_key hle l) (pairwise_mergeSort_key hle l') ?_
    exact (List.mergeSort_perm l le).trans (h.trans (List.mergeSort_perm l' le).symm)

end Sorting

omit crates in
theorem rrsetKeyLe_iff (a b : Text × Text) : rrsetKeyLe a b = true ↔ toLex a ≤ toLex b := by
  rw [rrsetKeyLe, Prod.Lex.toLex_le_toLex]
  by_cases h : a.1 = b.1
  · simp [h]
  · simp [h]

omit crates in
theorem groupIdentities_eq_iff {g h : List RecordData} :
    groupIdentities g = groupIdentities h ↔
      (g.map fun r => (r.canonical, r.ttl)).Perm (h.map fun r => (r.canonical, r.ttl)) := by
  refine @mergeSort_eq_iff_perm _ _ _ _ toLex (fun a b => ?_) toLex.injective _ _
  rw [Prod.Lex.toLex_le_toLex]
  by_cases h : a.1 = b.1
  · simp [h]
  · simp [h]

/-! ### Keys -/

/-- The keys that `buildRecordDiff` goes through. -/
def rrsetKeys (zone : Zone) (before after : List RecordData) : List (Text × Text) :=
  (((before ++ after).map (·.rrsetKey zone)).dedup).mergeSort rrsetKeyLe

omit crates in
theorem mem_rrsetKeys {zone : Zone} {before after : List RecordData} {key : Text × Text} :
    key ∈ rrsetKeys zone before after ↔ ∃ r, (r ∈ before ∨ r ∈ after) ∧ r.rrsetKey zone = key := by
  simp only [rrsetKeys, List.mem_mergeSort, List.mem_dedup, List.mem_map, List.mem_append]

omit crates in
theorem nodup_rrsetKeys (zone : Zone) (before after : List RecordData) : (rrsetKeys zone before after).Nodup :=
  (List.mergeSort_perm _ _).nodup_iff.2 (List.nodup_dedup _)

omit crates in
theorem eq_rrsetKeys {zone : Zone} {before after : List RecordData} {keys : List (Text × Text)} (hnodup : keys.Nodup)
    (hsorted : keys.Pairwise fun a b => toLex a ≤ toLex b)
    (hmem : ∀ key, key ∈ keys ↔ ∃ r, (r ∈ before ∨ r ∈ after) ∧ r.rrsetKey zone = key) :
    keys = rrsetKeys zone before after := by
  refine List.Perm.eq_of_pairwise (fun a b _ _ hab hba => toLex_inj.1 (le_antisymm hab hba)) hsorted
    (pairwise_mergeSort_key rrsetKeyLe_iff _) ?_
  rw [List.perm_ext_iff_of_nodup hnodup (nodup_rrsetKeys zone before after)]
  exact fun key => (hmem key).trans mem_rrsetKeys.symm

omit crates in
theorem rrsetKeys_congr {zone : Zone} {before after before' after' : List RecordData}
    (h : ∀ r, (r ∈ before ∨ r ∈ after) ↔ (r ∈ before' ∨ r ∈ after')) :
    rrsetKeys zone before after = rrsetKeys zone before' after' :=
  eq_rrsetKeys (nodup_rrsetKeys _ _ _) (pairwise_mergeSort_key rrsetKeyLe_iff _) fun key => by simp only [mem_rrsetKeys, h]

theorem mem_mergedKeys {zone : Zone} {before after : List RecordData} {key : Text ×ₗ Text} :
    key ∈ mergedKeys (groupRrsets zone before) (groupRrsets zone after) ↔
      ∃ r, (r ∈ before ∨ r ∈ after) ∧ toLex (r.rrsetKey zone) = key := by
  have hside : ∀ records : List RecordData, key ∈ (groupRrsets zone records).map (·.1) ↔
      ∃ r ∈ records, toLex (r.rrsetKey zone) = key := fun records => Grouping.mem_keys_group
  simp only [mergedKeys, List.mem_mergeSort, List.mem_append, List.mem_filter, decide_eq_true_eq, hside, or_and_right,
    exists_or]
  by_cases hbefore : ∃ r ∈ before, toLex (r.rrsetKey zone) = key
  · simp only [hbefore, true_or]
  · simp only [hbefore, false_or, not_false_eq_true, and_true]

theorem nodup_mergedKeys (zone : Zone) (before after : List RecordData) :
    (mergedKeys (groupRrsets zone before) (groupRrsets zone after)).Nodup := by
  have hside : ∀ records : List RecordData, ((groupRrsets zone records).map (·.1)).Nodup := fun records =>
    (Grouping.pairwise_keys_group _ _ _).imp fun h => ne_of_lt h
  refine (List.mergeSort_perm _ _).nodup_iff.2 (List.nodup_append.2 ⟨hside before, (hside after).filter _, ?_⟩)
  rintro a ha b hb rfl
  exact of_decide_eq_true (List.mem_filter.1 hb).2 ha

theorem mergedKeys_eq (zone : Zone) (before after : List RecordData) :
    (mergedKeys (groupRrsets zone before) (groupRrsets zone after)).map ofLex = rrsetKeys zone before after := by
  refine eq_rrsetKeys ((nodup_mergedKeys zone before after).map ofLex.injective) ?_ fun key => ?_
  · exact List.pairwise_map.2 (@pairwise_mergeSort_key _ _ _ _ id (fun a b => decide_eq_true_iff) _)
  · simp only [List.mem_map, mem_mergedKeys]
    constructor
    · rintro ⟨_, ⟨r, hr, rfl⟩, rfl⟩
      exact ⟨r, hr, rfl⟩
    · rintro ⟨r, hr, rfl⟩
      exact ⟨_, ⟨r, hr, rfl⟩, rfl⟩

/-! ### The loop -/

def recordsOf (zone : Zone) (records : List RecordData) (key : Text × Text) : List RecordData :=
  records.filter (·.rrsetKey zone = key)

def RecordDiff.ofEntries (entries : List RecordDiffEntry) : RecordDiff where
  entries := entries
  summary := ⟨entries.countP (·.change = .added), entries.countP (·.change = .removed),
    entries.countP (·.change = .changed)⟩

theorem get_groupRrsets (zone : Zone) (records : List RecordData) (key : Text ×ₗ Text) :
    Grouping.get key (groupRrsets zone records) = if recordsOf zone records (ofLex key) = [] then none
      else some ((recordsOf zone records (ofLex key)).map RecordData.grouped) :=
  Grouping.get_group fun _ => decide_eq_true_iff

theorem map_value_grouped (records : List RecordData) :
    (records.map RecordData.grouped).map (·.value) = groupValues records := List.map_map

theorem identities_grouped (records : List RecordData) :
    GroupedRecord.identities (records.map RecordData.grouped) = groupIdentities records := by
  rw [GroupedRecord.identities, List.map_map]
  rfl

/-- What one round adds: the entry of its RRset, when there is one. -/
theorem round_diff {zone : Zone} {before after : List RecordData} {s : RecordDiff.Loop} {key : Text ×ₗ Text}
    (hbefore : Grouping.get key s.before = Grouping.get key (groupRrsets zone before))
    (hafter : Grouping.get key s.after = Grouping.get key (groupRrsets zone after)) {es : List RecordDiffEntry}
    (hdiff : s.diff = .ofEntries es) :
    (s.round key).diff = .ofEntries (es ++
      (diffRrset (ofLex key) (recordsOf zone before (ofLex key)) (recordsOf zone after (ofLex key))).toList) := by
  rw [get_groupRrsets] at hbefore hafter
  generalize recordsOf zone before (ofLex key) = b at *
  generalize recordsOf zone after (ofLex key) = a at *
  unfold RecordDiff.Loop.round
  rw [hbefore, hafter, hdiff]
  cases b with
  | nil =>
      cases a with
      | nil => simp [diffRrset, RecordDiff.ofEntries]
      | cons y a => simp [diffRrset, RecordDiff.ofEntries, ← map_value_grouped]
  | cons x b =>
      cases a with
      | nil => simp [diffRrset, RecordDiff.ofEntries, ← map_value_grouped]
      | cons y a =>
          simp only [reduceCtorEq, if_false, identities_grouped, map_value_grouped, diffRrset, ne_eq, ite_not]
          split
          · simp
          · simp [RecordDiff.ofEntries]

omit crates in
theorem round_maps (s : RecordDiff.Loop) (key : Text ×ₗ Text) :
    (s.round key).before = Grouping.remove key s.before ∧ (s.round key).after = Grouping.remove key s.after := by
  unfold RecordDiff.Loop.round
  simp only
  split
  · exact ⟨rfl, rfl⟩
  · exact ⟨rfl, rfl⟩
  · split
    · exact ⟨rfl, rfl⟩
    · exact ⟨rfl, rfl⟩
  · exact ⟨rfl, rfl⟩

theorem foldl_round_diff {zone : Zone} {before after : List RecordData} {keys : List (Text ×ₗ Text)} (hkeys : keys.Nodup)
    {s : RecordDiff.Loop} (hbefore : ∀ key ∈ keys, Grouping.get key s.before = Grouping.get key (groupRrsets zone before))
    (hafter : ∀ key ∈ keys, Grouping.get key s.after = Grouping.get key (groupRrsets zone after)) {es : List RecordDiffEntry}
    (hdiff : s.diff = .ofEntries es) :
    (keys.foldl RecordDiff.Loop.round s).diff = .ofEntries (es ++ (keys.map ofLex).filterMap fun key =>
      diffRrset key (recordsOf zone before key) (recordsOf zone after key)) := by
  induction keys generalizing s es with
  | nil => simpa using hdiff
  | cons key keys ih =>
      obtain ⟨hkey, hkeys⟩ := List.nodup_cons.1 hkeys
      obtain ⟨hb, ha⟩ := round_maps s key
      rw [List.foldl_cons, ih hkeys (fun k hk => ?_) (fun k hk => ?_)
        (round_diff (hbefore key (by simp)) (hafter key (by simp)) hdiff)]
      · rw [List.map_cons, List.filterMap_cons, List.append_assoc]
        cases diffRrset (ofLex key) (recordsOf zone before (ofLex key)) (recordsOf zone after (ofLex key)) with
        | none => rfl
        | some e => rfl
      · rw [hb, Grouping.get_remove (ne_of_mem_of_not_mem hk hkey), hbefore k (by simp [hk])]
      · rw [ha, Grouping.get_remove (ne_of_mem_of_not_mem hk hkey), hafter k (by simp [hk])]

/-- **The loop computes the entries without maps, and counts them.** -/
theorem build_eq_ofEntries (zone : Zone) (before after : List RecordData) :
    RecordDiff.build zone before after = .ofEntries (buildRecordDiff zone before after) := by
  have hdiff : (⟨[], ⟨0, 0, 0⟩⟩ : RecordDiff) = .ofEntries [] := rfl
  rw [RecordDiff.build, foldl_round_diff (nodup_mergedKeys zone before after) (fun _ _ => rfl) (fun _ _ => rfl)
    hdiff, mergedKeys_eq]
  rfl

/-! ### RRsets -/

/-- The records of an owner and type. -/
def rrsetOf (records : List RecordData) (owner : OwnerName) (t : RecordType) : List RecordData :=
  records.filter fun r => r.name = owner ∧ r.recordType = t

/-- The multiset of the canonical rdata and TTLs of records. -/
def identityBag (records : List RecordData) : Multiset (Text × ℤ) := ↑(records.map fun r => (r.canonical, r.ttl))

omit crates in
theorem rrsetKey_eq_iff {zone : Zone} {r : RecordData} {owner : OwnerName} {t : RecordType} :
    r.rrsetKey zone = (owner.toFqdn zone.name, t.asStr) ↔ r.name = owner ∧ r.recordType = t := by
  rw [RecordData.rrsetKey, Prod.mk.injEq]
  constructor
  · rintro ⟨hname, htype⟩
    exact ⟨OwnerName.toFqdn_injective hname, RecordType.asStr_injective htype⟩
  · rintro ⟨rfl, rfl⟩
    exact ⟨rfl, rfl⟩

omit crates in
theorem recordsOf_eq_rrsetOf (zone : Zone) (records : List RecordData) (owner : OwnerName) (t : RecordType) :
    recordsOf zone records (owner.toFqdn zone.name, t.asStr) = rrsetOf records owner t :=
  List.filter_congr fun _ _ => decide_eq_decide.2 rrsetKey_eq_iff

/-- An entry for an RRset, of which these are the records of each side. -/
structure IsEntry (before after : List RecordData) (e : RecordDiffEntry) : Prop where
  added : e.change = .added ↔ before = []
  removed : e.change = .removed ↔ after = []
  changed : e.change = .changed ↔ before ≠ [] ∧ after ≠ []
  fromValues : e.before = groupValues before
  toValues : e.after = groupValues after

/-- The entries of an owner and type. -/
def RecordDiff.at (d : RecordDiff) (zone : Zone) (owner : OwnerName) (t : RecordType) : List RecordDiffEntry :=
  d.entries.filter fun e => e.name = owner.toFqdn zone.name ∧ e.recordType = t.asStr

/-- Entries that differ at most in the order of their values. -/
structure RecordDiffEntry.SameUpToOrder (e e' : RecordDiffEntry) : Prop where
  change : e.change = e'.change
  name : e.name = e'.name
  recordType : e.recordType = e'.recordType
  before : e.before.Perm e'.before
  after : e.after.Perm e'.after

/-- The kind of an entry of the opposite diff. -/
def DiffChange.swap : DiffChange → DiffChange
  | .added => .removed
  | .removed => .added
  | .changed => .changed

def RecordDiffEntry.swap (e : RecordDiffEntry) : RecordDiffEntry :=
  ⟨e.change.swap, e.name, e.recordType, e.after, e.before⟩

def RecordDiff.swap (d : RecordDiff) : RecordDiff :=
  ⟨d.entries.map (·.swap), ⟨d.summary.removed, d.summary.added, d.summary.changed⟩⟩

omit crates in
theorem identityBag_eq_iff {before after : List RecordData} :
    identityBag before = identityBag after ↔ groupIdentities before = groupIdentities after := by
  rw [identityBag, identityBag, Multiset.coe_eq_coe, groupIdentities_eq_iff]

omit crates in
theorem identityBag_eq_zero {records : List RecordData} : identityBag records = 0 ↔ records = [] := by
  simp [identityBag]

/-- **One RRset.**  There is an entry exactly when the two sides differ as multisets. -/
theorem diffRrset_eq (key : Text × Text) (before after : List RecordData) :
    diffRrset key before after = if identityBag before = identityBag after then none
      else some ⟨if before = [] then .added else if after = [] then .removed else .changed, key.1, key.2,
        groupValues before, groupValues after⟩ := by
  have hzero : identityBag [] = 0 := rfl
  cases before with
  | nil =>
      cases after with
      | nil => simp [diffRrset]
      | cons r after => simp [diffRrset, hzero, eq_comm (a := (0 : Multiset (Text × ℤ))), identityBag_eq_zero, groupValues]
  | cons s before =>
      cases after with
      | nil => simp [diffRrset, hzero, identityBag_eq_zero, groupValues]
      | cons r after => simp [diffRrset, identityBag_eq_iff]

theorem diffRrset_key {key : Text × Text} {before after : List RecordData} {e : RecordDiffEntry}
    (h : diffRrset key before after = some e) : (e.name, e.recordType) = key := by
  rw [diffRrset_eq] at h
  split at h
  · cases h
  · cases h
    rfl

theorem diffRrset_swap (key : Text × Text) (before after : List RecordData) :
    diffRrset key after before = (diffRrset key before after).map (·.swap) := by
  rw [diffRrset_eq, diffRrset_eq]
  by_cases h : identityBag before = identityBag after
  · rw [if_pos h, if_pos h.symm]
    rfl
  · rw [if_neg h, if_neg (Ne.symm h)]
    have hne : ¬ (before = [] ∧ after = []) := fun ⟨hb, ha⟩ => h (by rw [hb, ha])
    by_cases hb : before = []
    · have ha : after ≠ [] := fun ha => hne ⟨hb, ha⟩
      simp [hb, ha, RecordDiffEntry.swap, DiffChange.swap]
    · by_cases ha : after = []
      · simp [hb, ha, RecordDiffEntry.swap, DiffChange.swap]
      · simp [hb, ha, RecordDiffEntry.swap, DiffChange.swap]

theorem diffRrset_perm {key : Text × Text} {before after before' after' : List RecordData} (hb : before'.Perm before)
    (ha : after'.Perm after) :
    Option.Rel RecordDiffEntry.SameUpToOrder (diffRrset key before' after') (diffRrset key before after) := by
  have hbag : ∀ {l l' : List RecordData}, l'.Perm l → identityBag l' = identityBag l := fun h =>
    Multiset.coe_eq_coe.2 (h.map _)
  have hnil : ∀ {l l' : List RecordData}, l'.Perm l → (l' = [] ↔ l = []) := fun h =>
    ⟨fun e => (e ▸ h).symm.eq_nil, fun e => (e ▸ h).eq_nil⟩
  rw [diffRrset_eq, diffRrset_eq, hbag hb, hbag ha]
  split
  · exact .none
  · simp only [hnil hb, hnil ha]
    exact .some ⟨rfl, rfl, rfl, hb.map _, ha.map _⟩

/-! ### Diffs -/

omit crates in
theorem filter_filterMap {κ β : Type} {keys : List κ} (hkeys : keys.Nodup) {f : κ → Option β} {p : β → Bool} {key : κ}
    (hp : ∀ k b, f k = some b → (p b = true ↔ k = key)) (hkey : key ∉ keys → f key = none) :
    (keys.filterMap f).filter p = (f key).toList := by
  have hout : ∀ {l : List κ}, key ∉ l → (l.filterMap f).filter p = [] := fun {l} hl => by
    refine List.filter_eq_nil_iff.2 fun b hb hpb => ?_
    obtain ⟨k, hk, hfk⟩ := List.mem_filterMap.1 hb
    exact hl ((hp k b hfk).1 hpb ▸ hk)
  by_cases hmem : key ∈ keys
  · obtain ⟨l, l', rfl⟩ := List.append_of_mem hmem
    obtain ⟨-, hl', hdisj⟩ := List.nodup_append.1 hkeys
    have hl : key ∉ l := fun h => hdisj key h key (by simp) rfl
    rw [List.filterMap_append, List.filter_append, hout hl, List.filterMap_cons, List.nil_append]
    cases hf : f key with
    | none => simpa using hout (List.nodup_cons.1 hl').1
    | some b =>
        rw [List.filter_cons_of_pos ((hp key b hf).2 rfl), hout (List.nodup_cons.1 hl').1]
        rfl
  · rw [hout hmem, hkey hmem]
    rfl

omit crates in
theorem forall₂_filterMap {κ β : Type} {R : β → β → Prop} {f g : κ → Option β} {keys : List κ}
    (h : ∀ k ∈ keys, Option.Rel R (f k) (g k)) : List.Forall₂ R (keys.filterMap f) (keys.filterMap g) := by
  induction keys with
  | nil => exact .nil
  | cons k keys ih =>
      have hk := h k (by simp)
      have hrest := ih fun k' hk' => h k' (by simp [hk'])
      rw [List.filterMap_cons, List.filterMap_cons]
      generalize f k = x at hk
      generalize g k = y at hk
      cases hk with
      | none => exact hrest
      | some hab => exact .cons hab hrest

theorem buildRecordDiff_eq (zone : Zone) (before after : List RecordData) :
    buildRecordDiff zone before after = (rrsetKeys zone before after).filterMap fun key =>
      diffRrset key (recordsOf zone before key) (recordsOf zone after key) := rfl

/-- The entries of an owner and type are what is computed of its RRset. -/
theorem at_ofEntries (zone : Zone) (before after : List RecordData) (owner : OwnerName) (t : RecordType) :
    (RecordDiff.ofEntries (buildRecordDiff zone before after)).at zone owner t =
      (diffRrset (owner.toFqdn zone.name, t.asStr) (rrsetOf before owner t) (rrsetOf after owner t)).toList := by
  rw [← recordsOf_eq_rrsetOf zone, ← recordsOf_eq_rrsetOf zone]
  refine filter_filterMap (f := fun key => diffRrset key (recordsOf zone before key) (recordsOf zone after key))
    (nodup_rrsetKeys zone before after) (fun key e he => ?_) fun hkey => ?_
  · rw [decide_eq_true_iff, ← diffRrset_key he, Prod.mk.injEq]
  · have hnone : ∀ records : List RecordData, (∀ r ∈ records, r ∈ before ∨ r ∈ after) →
        recordsOf zone records (owner.toFqdn zone.name, t.asStr) = [] := fun records hrecords =>
      List.filter_eq_nil_iff.2 fun r hr hk => hkey (mem_rrsetKeys.2 ⟨r, hrecords r hr, of_decide_eq_true hk⟩)
    rw [hnone before fun r hr => .inl hr, hnone after fun r hr => .inr hr, diffRrset_eq, if_pos rfl]

omit crates in
theorem summary_swap (entries : List RecordDiffEntry) :
    RecordDiff.ofEntries (entries.map (·.swap)) = (RecordDiff.ofEntries entries).swap := by
  have hcount : ∀ c : DiffChange, (entries.map (·.swap)).countP (fun e => decide (e.change = c)) =
      entries.countP fun e => decide (e.change = c.swap) := fun c => by
    rw [List.countP_map]
    refine List.countP_congr fun e _ => ?_
    simp only [Function.comp_apply, RecordDiffEntry.swap, decide_eq_true_eq]
    cases e.change <;> cases c <;> simp [DiffChange.swap]
  simp only [RecordDiff.ofEntries, RecordDiff.swap, hcount]
  rfl

omit crates in
theorem summary_congr {entries entries' : List RecordDiffEntry}
    (h : List.Forall₂ RecordDiffEntry.SameUpToOrder entries entries') :
    (RecordDiff.ofEntries entries).summary = (RecordDiff.ofEntries entries').summary := by
  have hmap : entries.map (·.change) = entries'.map (·.change) := by
    induction h with
    | nil => rfl
    | cons hab _ ih => rw [List.map_cons, List.map_cons, hab.change, ih]
  have hcount : ∀ c : DiffChange, ∀ es : List RecordDiffEntry,
      es.countP (fun e => decide (e.change = c)) = (es.map (·.change)).countP (· = c) := fun c es => by
    rw [List.countP_map]
    rfl
  simp only [RecordDiff.ofEntries, hcount, hmap]

/-- **Record diffs are sound and complete.**  There is one entry for each owner and type whose multisets of canonical
rdata and TTL differ, and no other; its kind says on which sides there are records, and it has the records of each
side; the summary counts the entries of each kind.  The order of the records matters only inside the entries, and
the diff of the sides exchanged is the opposite diff. -/
theorem record_diff_faithful (zone : Zone) (before after : List RecordData) :
    (∀ (owner : OwnerName) (t : RecordType),
      (identityBag (rrsetOf before owner t) = identityBag (rrsetOf after owner t) →
        (RecordDiff.build zone before after).at zone owner t = []) ∧
      (identityBag (rrsetOf before owner t) ≠ identityBag (rrsetOf after owner t) →
        ∃ e, (RecordDiff.build zone before after).at zone owner t = [e] ∧
          IsEntry (rrsetOf before owner t) (rrsetOf after owner t) e)) ∧
    (∀ e ∈ (RecordDiff.build zone before after).entries,
      ∃ (owner : OwnerName) (t : RecordType), e ∈ (RecordDiff.build zone before after).at zone owner t) ∧
    (RecordDiff.build zone before after).summary =
      ⟨((RecordDiff.build zone before after).entries.filter (·.change = .added)).length,
        ((RecordDiff.build zone before after).entries.filter (·.change = .removed)).length,
        ((RecordDiff.build zone before after).entries.filter (·.change = .changed)).length⟩ ∧
    (∀ before' after', before'.Perm before → after'.Perm after →
      (RecordDiff.build zone before' after').summary = (RecordDiff.build zone before after).summary ∧
      List.Forall₂ RecordDiffEntry.SameUpToOrder (RecordDiff.build zone before' after').entries
        (RecordDiff.build zone before after).entries) ∧
    RecordDiff.build zone after before = (RecordDiff.build zone before after).swap := by
  simp only [build_eq_ofEntries]
  refine ⟨fun owner t => ?_, fun e he => ?_, ?_, fun before' after' hb ha => ?_, ?_⟩
  · rw [at_ofEntries, diffRrset_eq]
    refine ⟨fun h => by rw [if_pos h]; rfl, fun h => ⟨_, by rw [if_neg h]; rfl, ?_⟩⟩
    have hne : ¬ (rrsetOf before owner t = [] ∧ rrsetOf after owner t = []) := fun ⟨hb, ha⟩ => h (by rw [hb, ha])
    by_cases hb : rrsetOf before owner t = []
    · have ha : rrsetOf after owner t ≠ [] := fun ha => hne ⟨hb, ha⟩
      exact ⟨by simp [hb], by simp [hb, ha], by simp [hb], rfl, rfl⟩
    · by_cases ha : rrsetOf after owner t = []
      · exact ⟨by simp [hb, ha], by simp [hb, ha], by simp [hb, ha], rfl, rfl⟩
      · exact ⟨by simp [hb, ha], by simp [hb, ha], by simp [hb, ha], rfl, rfl⟩
  · obtain ⟨key, hkey, hdiff⟩ := List.mem_filterMap.1 he
    obtain ⟨r, -, rfl⟩ := mem_rrsetKeys.1 hkey
    have hnames := diffRrset_key hdiff
    rw [RecordData.rrsetKey, Prod.mk.injEq] at hnames
    exact ⟨r.name, r.recordType, List.mem_filter.2 ⟨he, decide_eq_true hnames⟩⟩
  · simp only [RecordDiff.ofEntries, List.countP_eq_length_filter]
  · have hentries : List.Forall₂ RecordDiffEntry.SameUpToOrder (buildRecordDiff zone before' after')
        (buildRecordDiff zone before after) := by
      have hkeys : rrsetKeys zone before' after' = rrsetKeys zone before after :=
        rrsetKeys_congr fun r => by rw [hb.mem_iff, ha.mem_iff]
      rw [buildRecordDiff_eq, buildRecordDiff_eq, hkeys]
      exact forall₂_filterMap fun key _ => diffRrset_perm (hb.filter _) (ha.filter _)
    exact ⟨summary_congr hentries, hentries⟩
  · have hentries : buildRecordDiff zone after before = (buildRecordDiff zone before after).map (·.swap) := by
      have hkeys : rrsetKeys zone after before = rrsetKeys zone before after := rrsetKeys_congr fun r => or_comm
      rw [buildRecordDiff_eq, buildRecordDiff_eq, hkeys, List.map_filterMap]
      exact List.filterMap_congr fun key _ => diffRrset_swap _ _ _
    rw [hentries, summary_swap]

end Diffs

theorem record_diff_faithful_sampleHistory : ∃ st ∈ (@run sampleCrates sampleHistory).stores, ∃ r ∈ st.records,
    ∃ e, (@RecordDiff.build sampleCrates st.zone [] [r.toRecordData]).at st.zone r.name r.recordType = [e] ∧
      e.change = .added ∧ (@RecordDiff.build sampleCrates st.zone [r.toRecordData] [r.toRecordData]).at st.zone r.name
        r.recordType = [] := by
  obtain ⟨st, hst, r, hr, -⟩ : ∃ st ∈ (@run sampleCrates sampleHistory).stores, ∃ r ∈ st.records, r.ttl = 3600 := by
    decide +kernel
  obtain ⟨e, he, hentry⟩ := ((@record_diff_faithful sampleCrates st.zone [] [r.toRecordData]).1 r.name r.recordType).2
    (by simp [identityBag, rrsetOf])
  have hsame := ((@record_diff_faithful sampleCrates st.zone [r.toRecordData] [r.toRecordData]).1 r.name r.recordType).1
    rfl
  exact ⟨st, hst, r, hr, e, he, (@IsEntry.added sampleCrates _ _ _ hentry).2 rfl, hsame⟩

end Bindizr
