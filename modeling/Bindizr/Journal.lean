import Mathlib

/-! # Journals of additions and deletions

A library for logs that record how a multiset of rows changed, one row at a time.  It names
nothing of the service; `ρ` is any type of rows.

`Run Ok log s t` says that the log, entry by entry, leads from the rows `s` to the rows `t`
through states that all satisfy `Ok`.  Three things are proved about such runs:

* batches: when `Ok` passes to smaller multisets, the additions (or deletions) of a batch
  form a run as soon as its larger end satisfies `Ok` (`run_adds`, `run_dels`);
* undoing: if in every `Ok` state no two rows have the same key, then undoing the log newest
  first, matching rows by key only, gives back exactly the rows the run started from, and
  never misses a row (`Run.undoAll`);
* leaving: the rows a run ends with were there from the start and never deleted, or not deleted
  after they were last added (`Run.mem_end`); what is added and never deleted again is there
  (`Run.mem_of_lasting`). -/

namespace Journal

variable {ρ ω κ : Type}

/-- One entry of a journal. -/
inductive Change (ρ : Type) where
  | add (r : ρ)
  | del (r : ρ)
  deriving DecidableEq

/-- The entry for the image of a row. -/
def Change.map (f : ρ → ω) : Change ρ → Change ω
  | .add r => .add (f r)
  | .del r => .del (f r)

/-- A journal that leads from `s` to `t` through states satisfying `Ok`. -/
inductive Run (Ok : Multiset ρ → Prop) : List (Change ρ) → Multiset ρ → Multiset ρ → Prop
  | nil {s : Multiset ρ} : Ok s → Run Ok [] s s
  | add {r : ρ} {log : List (Change ρ)} {s t : Multiset ρ} :
      Ok s → Run Ok log (r ::ₘ s) t → Run Ok (.add r :: log) s t
  | del {r : ρ} {log : List (Change ρ)} {s t : Multiset ρ} :
      Ok (r ::ₘ s) → Run Ok log s t → Run Ok (.del r :: log) (r ::ₘ s) t

namespace Run

variable {Ok : Multiset ρ → Prop} {log log' : List (Change ρ)} {s t u : Multiset ρ}

theorem ok_start (h : Run Ok log s t) : Ok s := by
  cases h with
  | nil h => exact h
  | add h _ => exact h
  | del h _ => exact h

theorem ok_end (h : Run Ok log s t) : Ok t := by
  induction h with
  | nil h => exact h
  | add _ _ ih => exact ih
  | del _ _ ih => exact ih

theorem append (h : Run Ok log s t) (h' : Run Ok log' t u) : Run Ok (log ++ log') s u := by
  induction h with
  | nil _ => exact h'
  | add hs _ ih => exact .add hs (ih h')
  | del hs _ ih => exact .del hs (ih h')

theorem map {Ok' : Multiset ω → Prop} {f : ρ → ω} (hok : ∀ s, Ok s → Ok' (s.map f))
    (h : Run Ok log s t) : Run Ok' (log.map (Change.map f)) (s.map f) (t.map f) := by
  induction h with
  | nil hs => exact .nil (hok _ hs)
  | add hs _ ih =>
      refine .add (hok _ hs) ?_
      rw [← Multiset.map_cons]
      exact ih
  | del hs _ ih =>
      rw [Multiset.map_cons]
      refine .del ?_ ih
      rw [← Multiset.map_cons]
      exact hok _ hs

end Run

/-! ### Batches -/

section Batches

variable {Ok : Multiset ρ → Prop} (hmono : ∀ s t, s ≤ t → Ok t → Ok s)
include hmono

theorem run_adds (rs : List ρ) {s : Multiset ρ} (h : Ok (s + ↑rs)) :
    Run Ok (rs.map .add) s (s + ↑rs) := by
  induction rs generalizing s with
  | nil => simpa using Run.nil (by simpa using h)
  | cons r rs ih =>
      have e : s + ↑(r :: rs) = r ::ₘ s + ↑rs := by
        rw [← Multiset.cons_coe, Multiset.add_cons, Multiset.cons_add]
      rw [e] at h ⊢
      exact .add (hmono _ _ ((Multiset.le_cons_self s r).trans (Multiset.le_add_right _ _)) h) (ih h)

theorem run_dels (rs : List ρ) {s : Multiset ρ} (h : Ok (s + ↑rs)) :
    Run Ok (rs.map .del) (s + ↑rs) s := by
  induction rs generalizing s with
  | nil => simpa using Run.nil (by simpa using h)
  | cons r rs ih =>
      have e : s + ↑(r :: rs) = r ::ₘ (s + ↑rs) := by
        rw [← Multiset.cons_coe, Multiset.add_cons]
      rw [e] at h ⊢
      exact .del h (ih (hmono _ _ (Multiset.le_cons_self _ r) h))

end Batches

/-! ### Undoing by key -/

section Undo

/-- The last element that satisfies `p`, and the list without it. -/
def popLast (p : ρ → Bool) (l : List ρ) : Option (ρ × List ρ) :=
  (l.reverse.find? p).map fun r => (r, (l.reverse.eraseP p).reverse)

theorem popLast_eq_some {p : ρ → Bool} {l : List ρ} {r : ρ} {rest : List ρ}
    (h : popLast p l = some (r, rest)) : p r = true ∧ l.Perm (r :: rest) := by
  simp only [popLast, Option.map_eq_some_iff, Prod.mk.injEq] at h
  obtain ⟨r', hr, rfl, rfl⟩ := h
  refine ⟨List.find?_some hr, ?_⟩
  have hm := List.mem_of_find?_eq_some hr
  obtain ⟨a, l₁, l₂, hnot, ha, e, e'⟩ := List.exists_of_eraseP hm (List.find?_some hr)
  have hfind : l.reverse.find? p = some a := by
    rw [e, List.find?_append, List.find?_eq_none.2 (by simpa using hnot)]
    simp [ha]
  rw [hr, Option.some.injEq] at hfind
  subst hfind
  rw [e']
  calc l.Perm l.reverse := (List.reverse_perm l).symm
    _ = l₁ ++ r' :: l₂ := e
    List.Perm _ (r' :: (l₁ ++ l₂)) := List.perm_middle
    List.Perm _ (r' :: (l₁ ++ l₂).reverse) := ((List.reverse_perm _).symm).cons _

theorem popLast_isSome {p : ρ → Bool} {l : List ρ} {r : ρ} (hr : r ∈ l) (hp : p r = true) :
    ∃ q, popLast p l = some q := by
  have : (l.reverse.find? p).isSome := by
    rw [List.find?_isSome]
    exact ⟨r, by simpa using hr, hp⟩
  obtain ⟨a, ha⟩ := Option.isSome_iff_exists.1 this
  exact ⟨(a, (l.reverse.eraseP p).reverse), by simp [popLast, ha]⟩

variable [DecidableEq κ] (key : ρ → κ)

/-- Undo one entry: an addition by taking away a row with its key, if there is one. -/
def undo (state : List ρ) : Change ρ → Option (List ρ)
  | .add r => (popLast (fun x => key x = key r) state).map (·.2)
  | .del r => some (state ++ [r])

/-- Undo a journal, newest entry first. -/
def undoAll (log : List (Change ρ)) (state : List ρ) : Option (List ρ) :=
  log.reverse.foldlM (undo key) state

theorem undoAll_cons (c : Change ρ) (log : List (Change ρ)) (state : List ρ) :
    undoAll key (c :: log) state = (undoAll key log state).bind (undo key · c) := by
  simp only [undoAll, List.reverse_cons, List.foldlM_append, List.foldlM_cons, List.foldlM_nil]
  cases log.reverse.foldlM (undo key) state with
  | none => rfl
  | some a => cases h : undo key a c <;> simp [h]

theorem undoAll_append (log log' : List (Change ρ)) (state : List ρ) :
    undoAll key (log ++ log') state = (undoAll key log' state).bind (undoAll key log) := by
  simp only [undoAll, List.reverse_append, List.foldlM_append]
  rfl

variable {key} {Ok : Multiset ρ → Prop} {log : List (Change ρ)} {s t : Multiset ρ}

/-- **Undoing a journal.**  Where no acceptable state has two rows with one key, undoing by key
gives back the rows the journal started from, and finds a row for every addition. -/
theorem Run.undoAll (hkey : ∀ s, Ok s → (s.map key).Nodup) (h : Run Ok log s t) (l : List ρ)
    (hl : (↑l : Multiset ρ) = t) : ∃ l', Journal.undoAll key log l = some l' ∧ (↑l' : Multiset ρ) = s := by
  induction h generalizing l with
  | nil _ => exact ⟨l, rfl, hl⟩
  | @add r log s t hs hrun ih =>
      obtain ⟨l', hl', e⟩ := ih l hl
      rw [undoAll_cons, hl', Option.bind_some, undo]
      have hnd : ((r ::ₘ s).map key).Nodup := hkey _ hrun.ok_start
      have hmem : r ∈ l' := by
        rw [← Multiset.mem_coe, e]
        exact Multiset.mem_cons_self r s
      obtain ⟨⟨q, rest⟩, hq⟩ := popLast_isSome (p := fun x => key x = key r) hmem (by simp)
      obtain ⟨hkq, hperm⟩ := popLast_eq_some hq
      have eperm : r ::ₘ s = q ::ₘ (↑rest : Multiset ρ) := by
        rw [← e, Multiset.cons_coe]
        exact Multiset.coe_eq_coe.2 hperm
      -- the row taken away has the key of `r`, and only `r` has it
      have hqr : q = r := by
        have hq' : q ∈ r ::ₘ s := by
          rw [eperm]
          exact Multiset.mem_cons_self _ _
        rcases Multiset.mem_cons.1 hq' with h | h
        · exact h
        · rw [Multiset.map_cons, Multiset.nodup_cons] at hnd
          exact absurd (Multiset.mem_map.2 ⟨q, h, by simpa using hkq⟩) hnd.1
      refine ⟨rest, by simp [hq], ?_⟩
      rw [hqr] at eperm
      exact ((Multiset.cons_inj_right r).1 eperm).symm
  | @del r log s t hs hrun ih =>
      obtain ⟨l', hl', e⟩ := ih l hl
      rw [undoAll_cons, hl', Option.bind_some, undo]
      refine ⟨l' ++ [r], rfl, ?_⟩
      rw [← Multiset.coe_add, e, Multiset.coe_singleton, Multiset.add_comm, Multiset.singleton_add]

end Undo

/-! ### What a journal leaves -/

section Leaves

variable {Ok : Multiset ρ → Prop} {log : List (Change ρ)} {s t : Multiset ρ}

/-- A run whose rows all have a property goes through states whose rows have it. -/
theorem Run.forall {P : ρ → Prop} (h : Run Ok log s t) (hs : ∀ x ∈ s, P x) (hadds : ∀ x, .add x ∈ log → P x) :
    Run (fun s => Ok s ∧ ∀ x ∈ s, P x) log s t := by
  induction h with
  | nil hok => exact .nil ⟨hok, hs⟩
  | add hok _ ih =>
      refine .add ⟨hok, hs⟩ (ih (fun x hx => ?_) fun x hx => hadds x (List.mem_cons_of_mem _ hx))
      rcases Multiset.mem_cons.1 hx with rfl | hx
      · exact hadds x List.mem_cons_self
      · exact hs x hx
  | del hok _ ih =>
      exact .del ⟨hok, hs⟩ (ih (fun x hx => hs x (Multiset.mem_cons_of_mem hx)) fun x hx =>
        hadds x (List.mem_cons_of_mem _ hx))

/-- A row that is there at the end was there from the start and never deleted, or was not deleted after it was last
added. -/
theorem Run.mem_end (hnd : ∀ s, Ok s → s.Nodup) (h : Run Ok log s t) {x : ρ} (hx : x ∈ t) :
    (x ∈ s ∧ .del x ∉ log) ∨ ∃ before after, log = before ++ .add x :: after ∧ .del x ∉ after := by
  induction h with
  | nil _ => exact .inl ⟨hx, by simp⟩
  | @add r log s t _ _ ih =>
      rcases ih hx with ⟨h1, h2⟩ | ⟨before, after, rfl, h2⟩
      · rcases Multiset.mem_cons.1 h1 with rfl | h1
        · exact .inr ⟨[], log, rfl, h2⟩
        · exact .inl ⟨h1, by simpa using h2⟩
      · exact .inr ⟨.add r :: before, after, rfl, h2⟩
  | @del r log s t hs hrun ih =>
      rcases ih hx with ⟨h1, h2⟩ | ⟨before, after, rfl, h2⟩
      · refine .inl ⟨Multiset.mem_cons_of_mem h1, ?_⟩
        rw [List.mem_cons, not_or]
        refine ⟨?_, h2⟩
        rintro ⟨⟩
        exact (Multiset.nodup_cons.1 (hnd _ hs)).1 h1
      · exact .inr ⟨.del r :: before, after, rfl, h2⟩

theorem Run.mem_of_not_deleted (h : Run Ok log s t) {x : ρ} (hx : x ∈ s) (hd : .del x ∉ log) : x ∈ t := by
  induction h with
  | nil _ => exact hx
  | add _ _ ih => exact ih (Multiset.mem_cons_of_mem hx) fun h => hd (List.mem_cons_of_mem _ h)
  | del _ _ ih =>
      rcases Multiset.mem_cons.1 hx with rfl | h
      · exact absurd List.mem_cons_self hd
      · exact ih h fun h => hd (List.mem_cons_of_mem _ h)

/-- No entry deletes a row that an entry before it added. -/
def Lasting (log : List (Change ρ)) : Prop := log.Pairwise fun c d => ∀ x, c = .add x → d ≠ .del x

/-- Deletions before additions delete nothing that was added. -/
theorem lasting_append (dels adds : List (Change ρ)) (hdels : ∀ x, .add x ∉ dels) (hadds : ∀ x, .del x ∉ adds) :
    Lasting (dels ++ adds) := by
  refine List.pairwise_append.2 ⟨?_, ?_, fun c hc _ _ x e => absurd (e ▸ hc) (hdels x)⟩
  · exact List.pairwise_of_forall_mem_list fun c hc _ _ x e => absurd (e ▸ hc) (hdels x)
  · exact List.pairwise_of_forall_mem_list fun _ _ d hd x _ e => absurd (e ▸ hd) (hadds x)

/-- What a journal adds and never deletes again is there at the end. -/
theorem Run.mem_of_lasting (h : Run Ok log s t) (hl : Lasting log) {x : ρ} (hx : .add x ∈ log) : x ∈ t := by
  induction h with
  | nil _ => simp at hx
  | @add r log s t _ hrun ih =>
      obtain ⟨hr, hl⟩ := List.pairwise_cons.1 hl
      rcases List.mem_cons.1 hx with e | hx
      · cases e
        exact hrun.mem_of_not_deleted (Multiset.mem_cons_self x s) fun h => hr _ h x rfl rfl
      · exact ih hl hx
  | del _ _ ih =>
      rcases List.mem_cons.1 hx with e | hx
      · cases e
      · exact ih (List.pairwise_cons.1 hl).2 hx

end Leaves

end Journal
