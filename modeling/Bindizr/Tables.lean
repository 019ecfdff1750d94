import Mathlib

/-! # Tables with numbered rows

A library for tables whose rows are numbered as they are inserted and whose unique columns no two
rows share.  It names nothing of the service; `ρ` is any type of rows, and `Clash` says which two
rows the unique columns forbid together.

A number is never given twice, so a row can be told by its number at any later time: `Since` says
that the rows of a table that were there before are still what they were, up to `Same`. -/

namespace Tables

variable {ρ : Type}

/-- Numbered rows, in the order they were inserted, and the number of the next one. -/
structure Table (ρ : Type) (Clash : ρ → ρ → Prop) where
  rows : List (ℕ × ρ)
  next : ℕ
  below : ∀ r ∈ rows, r.1 < next
  ids : (rows.map Prod.fst).Nodup
  apart : rows.Pairwise fun a b => ¬ Clash a.2 b.2

namespace Table

variable {Clash : ρ → ρ → Prop}

theorem ext {t t' : Table ρ Clash} (hrows : t.rows = t'.rows) (hnext : t.next = t'.next) : t = t' := by
  cases t
  cases t'
  simp_all

/-- No row was inserted yet. -/
def empty : Table ρ Clash := ⟨[], 1, by simp, by simp, .nil⟩

/-- The first row that satisfies `p`. -/
def find (t : Table ρ Clash) (p : ρ → Bool) : Option (ℕ × ρ) := t.rows.find? fun r => p r.2

/-- Insert a row that clashes with none. -/
def insert (t : Table ρ Clash) (r : ρ) (h : ∀ q ∈ t.rows, ¬ Clash q.2 r) : Table ρ Clash where
  rows := t.rows ++ [(t.next, r)]
  next := t.next + 1
  below := by
    intro q hq
    rcases List.mem_append.1 hq with hq | hq
    · exact (t.below q hq).trans (Nat.lt_succ_self _)
    · obtain rfl := List.mem_singleton.1 hq
      exact Nat.lt_succ_self _
  ids := by
    rw [List.map_append, List.nodup_append]
    refine ⟨t.ids, by simp, fun a ha b hb => ?_⟩
    obtain ⟨q, hq, rfl⟩ := List.mem_map.1 ha
    have : b = t.next := by simpa using hb
    exact this ▸ (t.below q hq).ne
  apart := by
    refine List.pairwise_append.2 ⟨t.apart, List.pairwise_singleton .., fun a ha b hb => ?_⟩
    obtain rfl := List.mem_singleton.1 hb
    exact h a ha

/-- Delete the rows that do not satisfy `p`. -/
def keep (t : Table ρ Clash) (p : ℕ × ρ → Bool) : Table ρ Clash where
  rows := t.rows.filter p
  next := t.next
  below := fun r hr => t.below r (List.mem_of_mem_filter hr)
  ids := t.ids.sublist (List.filter_sublist.map _)
  apart := t.apart.sublist List.filter_sublist

/-- Change the row with a number, leaving its unique columns. -/
def modify (t : Table ρ Clash) (id : ℕ) (f : ρ → ρ) (hl : ∀ a b, Clash (f a) b → Clash a b)
    (hr : ∀ a b, Clash a (f b) → Clash a b) : Table ρ Clash where
  rows := t.rows.map fun r => (r.1, if r.1 = id then f r.2 else r.2)
  next := t.next
  below := by
    intro r hr'
    obtain ⟨q, hq, rfl⟩ := List.mem_map.1 hr'
    exact t.below q hq
  ids := by
    rw [List.map_map]
    exact t.ids
  apart := by
    refine List.pairwise_map.2 (t.apart.imp fun {a b} hab hclash => hab ?_)
    have h1 : Clash a.2 (if b.1 = id then f b.2 else b.2) := by
      dsimp only at hclash
      split at hclash
      · exact hl _ _ hclash
      · exact hclash
    split at h1
    · exact hr _ _ h1
    · exact h1

variable {t t' t'' : Table ρ Clash}

theorem mem_of_find {p : ρ → Bool} {r : ℕ × ρ} (h : t.find p = some r) : r ∈ t.rows ∧ p r.2 = true :=
  ⟨List.mem_of_find?_eq_some h, by simpa using List.find?_some h⟩

theorem eq_of_id {r q : ℕ × ρ} (hr : r ∈ t.rows) (hq : q ∈ t.rows) (h : r.1 = q.1) : r = q :=
  List.inj_on_of_nodup_map t.ids hr hq h

theorem mem_insert {r : ρ} {h : ∀ q ∈ t.rows, ¬ Clash q.2 r} {q : ℕ × ρ} :
    q ∈ (t.insert r h).rows ↔ q ∈ t.rows ∨ q = (t.next, r) := by
  simp [insert]

theorem mem_keep {p : ℕ × ρ → Bool} {q : ℕ × ρ} : q ∈ (t.keep p).rows ↔ q ∈ t.rows ∧ p q = true := by
  simp [keep]

/-! ### Later states of a table -/

/-- The rows that were there before are what they were, up to `Same`; no number was given again. -/
structure Since (Same : ρ → ρ → Prop) (t t' : Table ρ Clash) : Prop where
  next : t.next ≤ t'.next
  rows : ∀ r' ∈ t'.rows, r'.1 < t.next → ∃ r ∈ t.rows, r.1 = r'.1 ∧ Same r.2 r'.2

variable {Same : ρ → ρ → Prop}

/-- A row found under a number that was given before is the row it was given to. -/
theorem Since.same {id : ℕ} {r r' : ρ} (h : t.Since Same t') (hr : (id, r) ∈ t.rows) (hr' : (id, r') ∈ t'.rows) : Same r r' := by
  obtain ⟨q, hq, e, hsame⟩ := h.rows _ hr' (show id < t.next from t.below _ hr)
  obtain rfl : q = (id, r) := eq_of_id hq hr e
  exact hsame

section Refl

variable [Std.Refl Same]

theorem Since.refl (t : Table ρ Clash) : t.Since Same t :=
  ⟨le_rfl, fun r hr _ => ⟨r, hr, rfl, Std.Refl.refl _⟩⟩

theorem since_insert {r : ρ} (hr : ∀ q ∈ t.rows, ¬ Clash q.2 r) :
    t.Since Same (t.insert r hr) := by
  refine ⟨Nat.le_succ _, fun q hq hlt => ?_⟩
  rcases mem_insert.1 hq with hq | rfl
  · exact ⟨q, hq, rfl, Std.Refl.refl _⟩
  · exact absurd hlt (lt_irrefl _)

theorem since_keep (t : Table ρ Clash) (p : ℕ × ρ → Bool) : t.Since Same (t.keep p) :=
  ⟨le_rfl, fun q hq _ => ⟨q, (mem_keep.1 hq).1, rfl, Std.Refl.refl _⟩⟩

theorem since_modify {id : ℕ} {f : ρ → ρ} (hf : ∀ r, (id, r) ∈ t.rows → Same r (f r))
    (hl : ∀ a b, Clash (f a) b → Clash a b) (hr : ∀ a b, Clash a (f b) → Clash a b) :
    t.Since Same (t.modify id f hl hr) := by
  refine ⟨le_rfl, fun q hq _ => ?_⟩
  obtain ⟨r, hr', rfl⟩ := List.mem_map.1 hq
  refine ⟨r, hr', rfl, ?_⟩
  dsimp only
  split
  · rename_i e
    exact hf r.2 (e ▸ hr')
  · exact Std.Refl.refl _

end Refl

theorem Since.trans [IsTrans ρ Same] (h₁ : t.Since Same t') (h₂ : t'.Since Same t'') : t.Since Same t'' := by
  refine ⟨h₁.next.trans h₂.next, fun r'' hr'' hlt => ?_⟩
  obtain ⟨r', hr', e', hs'⟩ := h₂.rows r'' hr'' (hlt.trans_le h₁.next)
  obtain ⟨r, hr, e, hs⟩ := h₁.rows r' hr' (e' ▸ hlt)
  exact ⟨r, hr, e.trans e', IsTrans.trans _ _ _ hs hs'⟩

end Table

end Tables
