import Mathlib

/-! # Fallible computations

A library for `Except ε`, the shape of every function that can fail.  It names nothing of
the service.  A computation that succeeded is taken apart with `bind_eq_ok`; a loop that
checks every element (`List.forM`) succeeds when every check does (`forM_eq_ok`); and a loop
that threads a state (`List.foldlM`) keeps whatever each of its steps keeps
(`foldlM_invariant`). -/

namespace Fallible

variable {ε ε' α β σ : Type}

theorem bind_eq_ok {x : Except ε α} {f : α → Except ε β} {b : β} :
    (x >>= f) = .ok b ↔ ∃ a, x = .ok a ∧ f a = .ok b := by
  cases x with
  | error e => simp [bind, Except.bind]
  | ok a => simp [bind, Except.bind]

theorem exists_of_isOk {x : Except ε α} (h : x.isOk = true) : ∃ a, x = .ok a := by
  cases x with
  | error e => cases h
  | ok a => exact ⟨a, rfl⟩

theorem map_eq_ok {x : Except ε α} {f : α → β} {b : β} :
    x.map f = .ok b ↔ ∃ a, x = .ok a ∧ f a = b := by
  cases x with
  | error e => simp [Except.map]
  | ok a => simp [Except.map]

theorem mapError_eq_ok {x : Except ε α} {f : ε → ε'} {a : α} :
    x.mapError f = .ok a ↔ x = .ok a := by
  cases x with
  | error e => simp [Except.mapError]
  | ok a => simp [Except.mapError]

@[simp] theorem ok_bind (a : α) (f : α → Except ε β) : (Except.ok a >>= f) = f a := rfl

@[simp] theorem error_bind (e : ε) (f : α → Except ε β) : (Except.error e >>= f) = .error e := rfl

theorem forM_eq_ok {f : α → Except ε PUnit} {l : List α} :
    l.forM f = .ok () ↔ ∀ a ∈ l, f a = .ok () := by
  induction l with
  | nil => simp [pure, Except.pure]
  | cons a l ih =>
      change (f a >>= fun _ => l.forM f) = .ok () ↔ _
      rw [bind_eq_ok]
      constructor
      · rintro ⟨u, hu, hl⟩
        intro b hb
        rcases List.mem_cons.1 hb with rfl | hb
        · exact hu
        · exact ih.1 hl b hb
      · intro h
        exact ⟨(), h a (by simp), ih.2 fun b hb => h b (by simp [hb])⟩

/-- The results of a loop that maps, one for each element. -/
theorem mapM_eq_ok_iff {f : α → Except ε β} {l : List α} {bs : List β} :
    l.mapM f = .ok bs ↔ List.Forall₂ (fun a b => f a = .ok b) l bs := by
  induction l generalizing bs with
  | nil =>
      rw [List.mapM_nil, List.forall₂_nil_left_iff]
      exact ⟨fun h => (Except.ok.inj h).symm, fun h => by rw [h]; rfl⟩
  | cons a l ih =>
      rw [List.mapM_cons, bind_eq_ok, List.forall₂_cons_left_iff]
      constructor
      · rintro ⟨b, hb, h⟩
        obtain ⟨cs, hcs, h⟩ := bind_eq_ok.1 h
        cases h
        exact ⟨b, cs, hb, ih.1 hcs, rfl⟩
      · rintro ⟨b, cs, hb, hcs, rfl⟩
        exact ⟨b, hb, by rw [ih.2 hcs]; rfl⟩

theorem mem_of_mapM {f : α → Except ε β} {l : List α} {bs : List β} (h : l.mapM f = .ok bs) {b : β}
    (hb : b ∈ bs) : ∃ a ∈ l, f a = .ok b := by
  obtain ⟨hlen, hget⟩ := List.forall₂_iff_get.1 (mapM_eq_ok_iff.1 h)
  obtain ⟨i, rfl⟩ := List.mem_iff_get.1 hb
  exact ⟨_, List.get_mem l ⟨i, by omega⟩, hget i _ i.isLt⟩

theorem exists_of_mapM {f : α → Except ε β} {l : List α} {bs : List β} (h : l.mapM f = .ok bs) {a : α}
    (ha : a ∈ l) : ∃ b ∈ bs, f a = .ok b := by
  obtain ⟨hlen, hget⟩ := List.forall₂_iff_get.1 (mapM_eq_ok_iff.1 h)
  obtain ⟨i, rfl⟩ := List.mem_iff_get.1 ha
  exact ⟨_, List.get_mem bs ⟨i, by omega⟩, hget i i.isLt _⟩

theorem mapM_eq_ok_of_forall {f : α → Except ε β} {l : List α} (h : ∀ a ∈ l, ∃ b, f a = .ok b) :
    ∃ bs, l.mapM f = .ok bs := by
  induction l with
  | nil => exact ⟨[], rfl⟩
  | cons a l ih =>
      obtain ⟨b, hb⟩ := h a (by simp)
      obtain ⟨bs, hbs⟩ := ih fun a ha => h a (by simp [ha])
      exact ⟨b :: bs, by rw [List.mapM_cons, hb, hbs]; rfl⟩

/-- A loop that maps gives results that all have a property exactly when each element gives one. -/
theorem exists_mapM_forall {f : α → Except ε β} {P : β → Prop} {l : List α} :
    (∃ bs, l.mapM f = .ok bs ∧ ∀ b ∈ bs, P b) ↔ ∀ a ∈ l, ∃ b, f a = .ok b ∧ P b := by
  constructor
  · rintro ⟨bs, hbs, hP⟩ a ha
    obtain ⟨b, hb, e⟩ := exists_of_mapM hbs ha
    exact ⟨b, e, hP b hb⟩
  · intro h
    obtain ⟨bs, hbs⟩ := mapM_eq_ok_of_forall fun a ha => (h a ha).imp fun _ hb => hb.1
    refine ⟨bs, hbs, fun b hb => ?_⟩
    obtain ⟨a, ha, e⟩ := mem_of_mapM hbs hb
    obtain ⟨b', hb', hP⟩ := h a ha
    rw [e, Except.ok.injEq] at hb'
    rwa [hb']

theorem filterM_eq_ok {p : α → Except ε Bool} {q : α → Bool} {l : List α} (h : ∀ a ∈ l, p a = .ok (q a)) :
    l.filterM p = .ok (l.filter q) := by
  have haux : ∀ (l acc : List α), (∀ a ∈ l, p a = .ok (q a)) →
      l.filterAuxM p acc = .ok ((l.filter q).reverse ++ acc) := by
    intro l
    induction l with
    | nil => intro acc _; rfl
    | cons a l ih =>
        intro acc h
        rw [List.filterAuxM, h a (by simp), ok_bind, ih _ fun b hb => h b (by simp [hb])]
        cases hq : q a <;> simp [hq]
  rw [List.filterM, haux l [] h]
  simp [pure, Except.pure]

/-- A filter whose tests pass nothing: it fails when one of them does. -/
theorem filterM_eq_error {p : α → Except ε Bool} {q : α → Bool} {e : ε} {l : List α}
    (h : ∀ a ∈ l, p a = if q a then .error e else .ok false) :
    l.filterM p = if l.any q then .error e else .ok [] := by
  have haux : ∀ (l : List α), (∀ a ∈ l, p a = if q a then .error e else .ok false) →
      l.filterAuxM p [] = if l.any q then .error e else .ok [] := by
    intro l
    induction l with
    | nil => intro _; rfl
    | cons a l ih =>
        intro h
        rw [List.filterAuxM, h a (by simp)]
        cases hq : q a with
        | true => simp [hq]
        | false => simpa [hq] using ih fun b hb => h b (by simp [hb])
  rw [List.filterM, haux l h]
  cases l.any q <;> rfl

/-- A loop keeps what each of its steps keeps. -/
theorem foldlM_invariant {I : σ → Prop} {f : σ → α → Except ε σ} :
    ∀ {l : List α} {s t : σ}, l.foldlM f s = .ok t → I s →
      (∀ a ∈ l, ∀ s s', I s → f s a = .ok s' → I s') → I t
  | [], s, t, h, hs, _ => by
      simp only [List.foldlM_nil, pure, Except.pure, Except.ok.injEq] at h
      exact h ▸ hs
  | a :: l, s, t, h, hs, hstep => by
      rw [List.foldlM_cons, bind_eq_ok] at h
      obtain ⟨s', ha, hl⟩ := h
      exact foldlM_invariant hl (hstep a (by simp) s s' hs ha)
        fun b hb => hstep b (by simp [hb])

end Fallible
