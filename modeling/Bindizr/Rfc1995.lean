import Bindizr.Rfc1035

/-! # Incremental transfers

A library for the client of an incremental zone transfer (RFC 1995).  It names nothing of the service.

The answers of an incremental transfer are the newest SOA, then for each version the SOA it replaces
with the records it deletes and its own SOA with the records it adds, and the newest SOA again
(`Delta.answers`).  A client cuts the answers at their SOAs (`readIncremental`), and applies the
versions in order: what is deleted is removed, then what is added is put in (`Copy.applyAll`).  A record
is there in the end when some version adds it and no later one deletes it, or when it was there and none
deletes it (`Copy.mem_applyAll`).  A full transfer holds the records between two copies of the SOA
(`readFull`). -/

namespace Rfc1995

open Rfc1035 (ResourceRecord Rdata)

def isSoa (r : ResourceRecord) : Bool :=
  match r.data with
  | .soa .. => true
  | _ => false

/-- The changes from one version of a zone to a later one. -/
structure Delta where
  oldSoa : ResourceRecord
  deleted : List ResourceRecord
  newSoa : ResourceRecord
  added : List ResourceRecord

namespace Delta

/-- The answers that carry the changes. -/
def answers (d : Delta) : List ResourceRecord := d.oldSoa :: d.deleted ++ d.newSoa :: d.added

/-- The changes are told apart by their SOAs. -/
structure WellFormed (d : Delta) : Prop where
  oldSoa : isSoa d.oldSoa = true
  deleted : ∀ r ∈ d.deleted, isSoa r = false
  newSoa : isSoa d.newSoa = true
  added : ∀ r ∈ d.added, isSoa r = false

end Delta

/-! ### Reading -/

/-- The records before the first SOA, and each SOA with the records up to the next one. -/
def sections : List ResourceRecord → List ResourceRecord × List (ResourceRecord × List ResourceRecord)
  | [] => ([], [])
  | r :: rest =>
      let (lead, secs) := sections rest
      if isSoa r then ([], (r, lead) :: secs) else (r :: lead, secs)

/-- The versions in the sections after the first SOA, which is also the last. -/
def readDeltas (soa : ResourceRecord) : List (ResourceRecord × List ResourceRecord) → Option (List Delta)
  | [(soa', [])] => if soa' = soa then some [] else none
  | (oldSoa, deleted) :: (newSoa, added) :: rest =>
      (readDeltas soa rest).map (⟨oldSoa, deleted, newSoa, added⟩ :: ·)
  | _ => none

/-- The versions in the answers of an incremental transfer. -/
def readIncremental (answers : List ResourceRecord) : Option (List Delta) :=
  match sections answers with
  | ([], (soa, []) :: secs) => readDeltas soa secs
  | _ => none

theorem sections_soa {soa : ResourceRecord} (h : isSoa soa = true) (rest : List ResourceRecord) :
    sections (soa :: rest) = ([], (soa, (sections rest).1) :: (sections rest).2) := by
  rw [sections]
  exact if_pos h

theorem sections_append {rs : List ResourceRecord} (h : ∀ r ∈ rs, isSoa r = false) (rest : List ResourceRecord) :
    sections (rs ++ rest) = (rs ++ (sections rest).1, (sections rest).2) := by
  induction rs with
  | nil => rfl
  | cons r rs ih =>
      rw [List.cons_append, sections, ih fun r hr => h r (by simp [hr])]
      exact if_neg (by simp [h r (by simp)])

/-- The answers of versions are cut where they were put together. -/
theorem sections_answers {ds : List Delta} (hds : ∀ d ∈ ds, d.WellFormed) {soa : ResourceRecord} (hsoa : isSoa soa = true) :
    sections (ds.flatMap Delta.answers ++ [soa]) =
      ([], ds.flatMap (fun d => [(d.oldSoa, d.deleted), (d.newSoa, d.added)]) ++ [(soa, [])]) := by
  induction ds with
  | nil => exact sections_soa hsoa []
  | cons d ds ih =>
      have hd := hds d (by simp)
      have hrest := ih fun d hd => hds d (by simp [hd])
      have hsplit : (d :: ds).flatMap Delta.answers ++ [soa] =
          d.oldSoa :: (d.deleted ++ (d.newSoa :: (d.added ++ (ds.flatMap Delta.answers ++ [soa])))) := by
        simp [Delta.answers]
      rw [hsplit, sections_soa hd.oldSoa, sections_append hd.deleted, sections_soa hd.newSoa, sections_append hd.added, hrest]
      simp

/-- **Reading.**  An incremental transfer is read as the versions it was put together from. -/
theorem readIncremental_answers {ds : List Delta} (hds : ∀ d ∈ ds, d.WellFormed) {soa : ResourceRecord}
    (hsoa : isSoa soa = true) : readIncremental (soa :: ds.flatMap Delta.answers ++ [soa]) = some ds := by
  have hread : ∀ ds : List Delta, readDeltas soa
      (ds.flatMap (fun d => [(d.oldSoa, d.deleted), (d.newSoa, d.added)]) ++ [(soa, [])]) = some ds := by
    intro ds
    induction ds with
    | nil => exact if_pos rfl
    | cons d ds ih =>
        rw [List.flatMap_cons, List.append_assoc, List.cons_append, List.cons_append, List.nil_append, readDeltas, ih]
        rfl
  rw [readIncremental, List.cons_append, sections_soa hsoa, sections_answers hds hsoa]
  exact hread ds

/-! ### Applying -/

structure Copy where
  soa : ResourceRecord
  records : Set ResourceRecord

namespace Copy

/-- A copy with the changes of a version: first the deletions, then the additions. -/
def apply (c : Copy) (d : Delta) : Copy := ⟨d.newSoa, (c.records \ {r | r ∈ d.deleted}) ∪ {r | r ∈ d.added}⟩

/-- A copy with the changes of versions, in order. -/
def applyAll (c : Copy) (ds : List Delta) : Copy := ds.foldl apply c

theorem applyAll_cons (c : Copy) (d : Delta) (ds : List Delta) : c.applyAll (d :: ds) = (c.apply d).applyAll ds := rfl

theorem mem_apply {c : Copy} {d : Delta} {r : ResourceRecord} :
    r ∈ (c.apply d).records ↔ r ∈ d.added ∨ r ∈ c.records ∧ r ∉ d.deleted := by
  rw [apply, Set.mem_union, Set.mem_sdiff]
  simp only [Set.mem_ofPred_eq]
  exact or_comm

/-- **Applying.**  After versions in the order of their serials a record is there when one adds it and none of a later
serial deletes it, or when it was there and none deletes it. -/
theorem mem_applyAll {added deleted : ℕ → Set ResourceRecord} {serials : List ℕ} {ds : List Delta}
    (hds : List.Forall₂ (fun k d => ∀ r, (r ∈ d.added ↔ r ∈ added k) ∧ (r ∈ d.deleted ↔ r ∈ deleted k)) serials ds)
    (hlt : serials.Pairwise (· < ·)) {c : Copy} {r : ResourceRecord} : r ∈ (c.applyAll ds).records ↔
      (∃ k ∈ serials, r ∈ added k ∧ ∀ j ∈ serials, k < j → r ∉ deleted j) ∨ r ∈ c.records ∧ ∀ k ∈ serials, r ∉ deleted k := by
  induction hds generalizing c with
  | nil => simp [applyAll]
  | @cons k d serials ds hd _ ih =>
      obtain ⟨hk, hlt⟩ := List.pairwise_cons.1 hlt
      rw [applyAll_cons, ih hlt, mem_apply, (hd r).1, (hd r).2]
      constructor
      · rintro (⟨i, hi, hadd, hlater⟩ | ⟨hadd | ⟨hr, hnot⟩, hrest⟩)
        · refine .inl ⟨i, List.mem_cons_of_mem _ hi, hadd, fun j hj hij => ?_⟩
          rcases List.mem_cons.1 hj with rfl | hj
          · exact absurd (hk i hi) (Nat.lt_asymm hij)
          · exact hlater j hj hij
        · refine .inl ⟨k, List.mem_cons_self, hadd, fun j hj hkj => ?_⟩
          rcases List.mem_cons.1 hj with rfl | hj
          · exact absurd hkj (Nat.lt_irrefl j)
          · exact hrest j hj
        · exact .inr ⟨hr, List.forall_mem_cons.2 ⟨hnot, hrest⟩⟩
      · rintro (⟨i, hi, hadd, hlater⟩ | ⟨hr, hnot⟩)
        · rcases List.mem_cons.1 hi with rfl | hi
          · exact .inr ⟨.inl hadd, fun j hj => hlater j (List.mem_cons_of_mem _ hj) (hk j hj)⟩
          · exact .inl ⟨i, hi, hadd, fun j hj => hlater j (List.mem_cons_of_mem _ hj)⟩
        · obtain ⟨hnotk, hnot⟩ := List.forall_mem_cons.1 hnot
          exact .inr ⟨.inr ⟨hr, hnotk⟩, hnot⟩

theorem applyAll_soa {c : Copy} {ds : List Delta} {d : Delta} (h : ds.getLast? = some d) :
    (c.applyAll ds).soa = d.newSoa := by
  obtain ⟨before, rfl⟩ := List.getLast?_eq_some_iff.1 h
  rw [applyAll, List.foldl_append]
  rfl

/-- Two copies of one zone: the owners of their SOAs agree up to case. -/
structure Same (c c' : Copy) : Prop where
  owner : c.soa.owner.lower = c'.soa.owner.lower
  ttl : c.soa.ttl = c'.soa.ttl
  data : c.soa.data = c'.soa.data
  records : c.records = c'.records

end Copy

/-- The copy in the answers of a full transfer, which begin and end with the SOA. -/
def readFull : List ResourceRecord → Option Copy
  | [] => none
  | soa :: rest => if isSoa soa ∧ rest.getLast? = some soa then some ⟨soa, {r | r ∈ rest.dropLast}⟩ else none

theorem readFull_answers {soa : ResourceRecord} (h : isSoa soa = true) (records : List ResourceRecord) :
    readFull (soa :: records ++ [soa]) = some ⟨soa, {r | r ∈ records}⟩ := by
  rw [List.cons_append, readFull, if_pos ⟨h, by simp⟩, List.dropLast_concat]

end Rfc1995
