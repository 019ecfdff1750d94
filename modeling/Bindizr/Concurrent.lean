import Mathlib

/-! # Programs that share a state

A library for programs that access a shared state one atomic access at a time, while others
access it in between.  It names nothing of the service; `σ` is any type of states.

A `Program` is what it does at its next access, and how it goes on from what it saw there.  A
`Pool` holds the programs in progress, each with the request it answers; requests come in and
programs take turns in any order (`Pool.run`).

What one program does among others is said by rely and guarantee (`Program.Safe`): as long as the
others take the state along `R`, each of its accesses takes it along `G`.  The rule for pools
(`Pool.run_ok`) puts such programs together: when every guarantee is within the others' rely, each
access made in any run is within the guarantee of the request it is made for
(`Pool.Ok.guarantee`); and what every guarantee keeps holds throughout (`Pool.run_invariant`).  Where it
matters how one program's accesses and its result hang together, `Program.Runs` tells its run in an
environment that may do anything in between. -/

namespace Concurrent

variable {σ ε ε' α β ι : Type}

/-! ### Programs -/

/-- A program over a shared state: it is done, it failed, or it makes one access, after which it
goes on from what it saw. -/
inductive Program (σ ε α : Type) where
  | done (a : α)
  | fail (e : ε)
  | access (write : σ → σ) (next : σ → Program σ ε α)

namespace Program

/-- One program after another. -/
def bind : Program σ ε α → (α → Program σ ε β) → Program σ ε β
  | done a, f => f a
  | fail e, _ => fail e
  | access write next, f => access write fun s => (next s).bind f

instance : Monad (Program σ ε) where
  pure := done
  bind := bind

/-- A computation without access. -/
def ofExcept : Except ε α → Program σ ε α
  | .ok a => done a
  | .error e => fail e

instance : MonadLift (Except ε) (Program σ ε) := ⟨ofExcept⟩

/-- An access that only reads. -/
def read (f : σ → α) : Program σ ε α := access id fun s => done (f s)

/-- The state a transaction leaves: when it fails, the state as it was. -/
def committed (f : σ → Except ε (α × σ)) (s : σ) : σ :=
  match f s with
  | .ok p => p.2
  | .error _ => s

def transaction (f : σ → Except ε (α × σ)) : Program σ ε α :=
  access (committed f) fun s => ofExcept ((f s).map Prod.fst)

/-- A program whose failure is a result. -/
def attempt : Program σ ε α → Program σ ε' (Except ε α)
  | done a => done (.ok a)
  | fail e => done (.error e)
  | access write next => access write fun s => (next s).attempt

/-! ### Rely and guarantee -/

/-- Whatever the others do along `R` in between, each access of the program, made where `A` holds,
takes the state along `G`, and a result satisfies `Q`. -/
def Safe (A : σ → Prop) (R G : σ → σ → Prop) (Q : σ → α → Prop) : Program σ ε α → σ → Prop
  | done a, s => Q s a
  | fail _, _ => True
  | access write next, s => ∀ s', R s s' → A s' → G s' (write s') ∧ (next s').Safe A R G Q (write s')

section Safe

variable {A : σ → Prop} {R G : σ → σ → Prop} {Q : σ → α → Prop} {Q' : σ → β → Prop} {p : Program σ ε α} {s s' : σ}

/-- Programs in sequence: the second starts where the first was done. -/
theorem Safe.bind {f : α → Program σ ε β} (h : p.Safe A R G Q s) (hf : ∀ a s', Q s' a → (f a).Safe A R G Q' s') :
    (p >>= f).Safe A R G Q' s := by
  induction p generalizing s with
  | done a => exact hf a s h
  | fail e => trivial
  | access write next ih =>
      intro s' hr ha
      obtain ⟨hg, hnext⟩ := h s' hr ha
      exact ⟨hg, ih s' hnext⟩

theorem Safe.mono {Q₂ : σ → α → Prop} (h : p.Safe A R G Q s) (hQ : ∀ s a, Q s a → Q₂ s a) :
    p.Safe A R G Q₂ s := by
  induction p generalizing s with
  | done a => exact hQ s a h
  | fail e => trivial
  | access write next ih =>
      intro s' hr ha
      obtain ⟨hg, hnext⟩ := h s' hr ha
      exact ⟨hg, ih s' hnext⟩

theorem Safe.and {G' : σ → σ → Prop} {Q₂ : σ → α → Prop} (h : p.Safe A R G Q s) (h' : p.Safe A R G' Q₂ s) :
    p.Safe A R (fun s s' => G s s' ∧ G' s s') (fun s a => Q s a ∧ Q₂ s a) s := by
  induction p generalizing s with
  | done a => exact ⟨h, h'⟩
  | fail e => trivial
  | access write next ih =>
      intro s' hr ha
      obtain ⟨hg, hnext⟩ := h s' hr ha
      obtain ⟨hg', hnext'⟩ := h' s' hr ha
      exact ⟨⟨hg, hg'⟩, ih s' hnext hnext'⟩

/-- A program stays safe while others move the state. -/
theorem Safe.moved (hR : ∀ {a b c}, R a b → R b c → R a c) (hQ : ∀ {a s s'}, R s s' → Q s a → Q s' a)
    (h : p.Safe A R G Q s) (hr : R s s') : p.Safe A R G Q s' := by
  cases p with
  | done a => exact hQ hr h
  | fail e => trivial
  | access write next => exact fun s'' hr' ha => h s'' (hR hr hr') ha

theorem safe_ofExcept {x : Except ε α} (h : ∀ a, x = .ok a → Q s a) :
    (ofExcept x : Program σ ε α).Safe A R G Q s := by
  cases x with
  | error e => trivial
  | ok a => exact h a rfl

theorem safe_read {f : σ → α} (hG : ∀ s', R s s' → A s' → G s' s') (h : ∀ s', R s s' → A s' → Q s' (f s')) :
    (read f : Program σ ε α).Safe A R G Q s :=
  fun s' hr ha => ⟨hG s' hr ha, h s' hr ha⟩

theorem safe_transaction {f : σ → Except ε (α × σ)} (hG : ∀ s', R s s' → A s' → G s' s')
    (h : ∀ s' a t, R s s' → A s' → f s' = .ok (a, t) → G s' t ∧ Q t a) :
    (transaction f).Safe A R G Q s := by
  intro s' hr ha
  simp only [committed]
  cases hf : f s' with
  | error e => exact ⟨hG s' hr ha, trivial⟩
  | ok p => exact h s' p.1 p.2 hr ha hf

theorem Safe.attempt {Q₂ : σ → Except ε α → Prop} (h : p.Safe A R G Q s) (hok : ∀ s a, Q s a → Q₂ s (.ok a))
    (herror : ∀ s e, Q₂ s (.error e)) : (p.attempt : Program σ ε' (Except ε α)).Safe A R G Q₂ s := by
  induction p generalizing s with
  | done a => exact hok s a h
  | fail e => exact herror s e
  | access write next ih =>
      intro s' hr ha
      obtain ⟨hg, hnext⟩ := h s' hr ha
      exact ⟨hg, ih s' hnext⟩

theorem Safe.imp {A' : σ → Prop} {G' : σ → σ → Prop} (h : p.Safe A R G Q s) (hA : ∀ s, A' s → A s)
    (hG : ∀ s s', A' s → G s s' → G' s s') : p.Safe A' R G' Q s := by
  induction p generalizing s with
  | done a => exact h
  | fail e => trivial
  | access write next ih =>
      intro s' hr ha
      obtain ⟨hg, hnext⟩ := h s' hr (hA s' ha)
      exact ⟨hG _ _ ha hg, ih s' hnext⟩

end Safe

/-! ### What a program does, whatever the others do -/

/-- A run of a program among others: the states that its accesses found and left, and how it ended. -/
inductive Runs : Program σ ε α → List (σ × σ) → Except ε α → Prop
  | done {a : α} : Runs (done a) [] (.ok a)
  | fail {e : ε} : Runs (fail e) [] (.error e)
  | access {write : σ → σ} {next : σ → Program σ ε α} {s : σ} {trace : List (σ × σ)} {result : Except ε α} :
      Runs (next s) trace result → Runs (access write next) ((s, write s) :: trace) result

section Runs

variable {p : Program σ ε α} {trace : List (σ × σ)}

theorem runs_pure {a : α} {result : Except ε α} (h : (pure a : Program σ ε α).Runs trace result) :
    trace = [] ∧ result = .ok a := by
  cases h with
  | done => exact ⟨rfl, rfl⟩

theorem runs_ofExcept {x result : Except ε α} (h : (ofExcept x : Program σ ε α).Runs trace result) :
    trace = [] ∧ result = x := by
  cases x with
  | error e =>
      cases h
      exact ⟨rfl, rfl⟩
  | ok a =>
      cases h
      exact ⟨rfl, rfl⟩

theorem runs_read {f : σ → α} {result : Except ε α} (h : (read f : Program σ ε α).Runs trace result) :
    ∃ s, trace = [(s, s)] ∧ result = .ok (f s) := by
  cases h with
  | access h =>
      cases h
      exact ⟨_, rfl, rfl⟩

theorem runs_transaction {f : σ → Except ε (α × σ)} {result : Except ε α} (h : (transaction f).Runs trace result) :
    (∃ s e, f s = .error e ∧ trace = [(s, s)] ∧ result = .error e) ∨
      ∃ s a s', f s = .ok (a, s') ∧ trace = [(s, s')] ∧ result = .ok a := by
  cases h with
  | @access _ _ s _ _ h =>
      obtain ⟨rfl, rfl⟩ := runs_ofExcept h
      cases hf : f s with
      | error e => exact .inl ⟨s, e, hf, by simp [committed, hf], rfl⟩
      | ok p => exact .inr ⟨s, p.1, p.2, hf, by simp [committed, hf], rfl⟩

theorem runs_bind {f : α → Program σ ε β} {result : Except ε β} (h : (p >>= f).Runs trace result) :
    (∃ a trace₁ trace₂, trace = trace₁ ++ trace₂ ∧ p.Runs trace₁ (.ok a) ∧ (f a).Runs trace₂ result) ∨
      ∃ e, p.Runs trace (.error e) ∧ result = .error e := by
  induction p generalizing trace with
  | done a => exact .inl ⟨a, [], trace, rfl, .done, h⟩
  | fail e =>
      cases h
      exact .inr ⟨e, .fail, rfl⟩
  | access write next ih =>
      cases h with
      | access h =>
          rcases ih _ h with ⟨a, trace₁, trace₂, rfl, h₁, h₂⟩ | ⟨e, he, rfl⟩
          · exact .inl ⟨a, _ :: trace₁, trace₂, rfl, .access h₁, h₂⟩
          · exact .inr ⟨e, .access he, rfl⟩

theorem runs_bind_ok {f : α → Program σ ε β} {b : β} (h : (p >>= f).Runs trace (.ok b)) :
    ∃ a trace₁ trace₂, trace = trace₁ ++ trace₂ ∧ p.Runs trace₁ (.ok a) ∧ (f a).Runs trace₂ (.ok b) := by
  rcases runs_bind h with h | ⟨e, -, he⟩
  · exact h
  · cases he

theorem runs_attempt {result : Except ε' (Except ε α)}
    (h : (p.attempt : Program σ ε' (Except ε α)).Runs trace result) : ∃ r, result = .ok r ∧ p.Runs trace r := by
  induction p generalizing trace with
  | done a =>
      cases h
      exact ⟨_, rfl, .done⟩
  | fail e =>
      cases h
      exact ⟨_, rfl, .fail⟩
  | access write next ih =>
      cases h with
      | access h =>
          obtain ⟨r, rfl, hr⟩ := ih _ h
          exact ⟨r, rfl, .access hr⟩

/-- The run of a program from a state when no others come in between. -/
def alone : Program σ ε α → σ → List (σ × σ) × Except ε α
  | done a, _ => ([], .ok a)
  | fail e, _ => ([], .error e)
  | access write next, s => ((s, write s) :: ((next s).alone (write s)).1, ((next s).alone (write s)).2)

theorem runs_alone (p : Program σ ε α) (s : σ) : p.Runs (p.alone s).1 (p.alone s).2 := by
  induction p generalizing s with
  | done a => exact .done
  | fail e => exact .fail
  | access write next ih => exact .access (ih s (write s))

/-- A safe program that runs alone finds only states that its own accesses keep good. -/
theorem Safe.alone {A : σ → Prop} {R G : σ → σ → Prop} {Q : σ → α → Prop} {s : σ} (h : p.Safe A R G Q s)
    (hrefl : ∀ s, R s s) (hG : ∀ s s', A s → G s s' → A s') (hs : A s) : ∀ t ∈ (p.alone s).1, A t.1 := by
  induction p generalizing s with
  | done a => exact fun t ht => absurd ht List.not_mem_nil
  | fail e => exact fun t ht => absurd ht List.not_mem_nil
  | access write next ih =>
      obtain ⟨hg, hnext⟩ := h s (hrefl s) hs
      refine List.forall_mem_cons.2 ⟨hs, ?_⟩
      exact ih s hnext (hG s _ hs hg)

/-- No access of a trace changed the state. -/
def Quiet (trace : List (σ × σ)) : Prop := ∀ t ∈ trace, t.2 = t.1

theorem quiet_nil : Quiet ([] : List (σ × σ)) := fun _ h => absurd h List.not_mem_nil

theorem quiet_read (s : σ) : Quiet [(s, s)] := fun t h => by
  rw [List.mem_singleton.1 h]

theorem Quiet.append {trace' : List (σ × σ)} (h : Quiet trace) (h' : Quiet trace') : Quiet (trace ++ trace') :=
  fun t ht => (List.mem_append.1 ht).elim (h t) (h' t)

end Runs

end Program

/-! ### Pools -/

/-- The shared state, and the programs in progress with the requests they answer. -/
structure Pool (ι σ ε α : Type) where
  state : σ
  tasks : List (ι × Program σ ε α)

/-- A request comes in, or a program makes its next access. -/
inductive Event (ι : Type) where
  | request (i : ι)
  | advance (n : ℕ)
  deriving DecidableEq

/-- The request that came in, if one did. -/
def Event.incoming : Event ι → Option ι
  | .request i => some i
  | .advance _ => none

namespace Pool

variable (program : ι → Program σ ε α)

/-- One event; a program that is done or has failed makes no more accesses. -/
def step (p : Pool ι σ ε α) : Event ι → Pool ι σ ε α
  | .request i => { p with tasks := p.tasks ++ [(i, program i)] }
  | .advance n =>
      match p.tasks[n]? with
      | some (i, .access write next) => ⟨write p.state, p.tasks.set n (i, next p.state)⟩
      | _ => p

/-- Events in any order. -/
def run (p : Pool ι σ ε α) (events : List (Event ι)) : Pool ι σ ε α := events.foldl (step program) p

theorem run_concat (p : Pool ι σ ε α) (events : List (Event ι)) (e : Event ι) :
    p.run program (events ++ [e]) = (p.run program events).step program e := by
  simp [run]

theorem run_append (p : Pool ι σ ε α) (events events' : List (Event ι)) :
    p.run program (events ++ events') = (p.run program events).run program events' := by
  simp [run]

theorem tasks_run (p : Pool ι σ ε α) (events : List (Event ι)) :
    (p.run program events).tasks.map Prod.fst = p.tasks.map Prod.fst ++ events.filterMap Event.incoming := by
  induction events using List.reverseRecOn with
  | nil => simp [run]
  | append_singleton events e ih =>
      rw [run_concat, List.filterMap_append, ← List.append_assoc, ← ih]
      cases e with
      | request i => simp [step, Event.incoming]
      | advance n =>
          have hnone : [Event.advance n].filterMap (Event.incoming (ι := ι)) = [] := rfl
          rw [hnone, List.append_nil, step]
          split
          · rename_i i write next hn
            obtain ⟨hlt, hn⟩ := List.getElem?_eq_some_iff.1 hn
            rw [List.map_set]
            refine List.ext_getElem? fun m => ?_
            rw [List.getElem?_set]
            split
            · rename_i e
              subst e
              simp [hn, hlt]
            · rfl
          · rfl

variable {program}

/-- Every program in progress is safe from the state as it is. -/
def Ok (A : σ → Prop) (R : σ → σ → Prop) (G : ι → σ → σ → Prop) (Q : ι → α → Prop) (p : Pool ι σ ε α) : Prop :=
  ∀ t ∈ p.tasks, t.2.Safe A R (G t.1) (fun _ => Q t.1) p.state

section Rule

variable {A : σ → Prop} {R : σ → σ → Prop} {G : ι → σ → σ → Prop} {Q : ι → α → Prop} {p : Pool ι σ ε α}

variable (program) in
/-- An access is within the guarantee of the request it is made for. -/
theorem Ok.guarantee (hrefl : ∀ s, R s s) (h : p.Ok A R G Q) (hA : A p.state) {n : ℕ} {i : ι} {q : Program σ ε α}
    (hn : p.tasks[n]? = some (i, q)) :
    (p.step program (.advance n)).state = p.state ∨ G i p.state (p.step program (.advance n)).state := by
  cases q with
  | done a => simp [step, hn]
  | fail e => simp [step, hn]
  | access write next =>
      right
      have hsafe := h _ (List.mem_of_getElem? hn)
      simpa [step, hn] using (hsafe p.state (hrefl _) hA).1

theorem Ok.step (hrefl : ∀ s, R s s) (htrans : ∀ {a b c}, R a b → R b c → R a c)
    (hGR : ∀ i s s', A s → G i s s' → R s s') (hprogram : ∀ i s, A s → (program i).Safe A R (G i) (fun _ => Q i) s)
    (h : p.Ok A R G Q) (hA : A p.state) (e : Event ι) : (p.step program e).Ok A R G Q := by
  cases e with
  | request i =>
      intro t ht
      rcases List.mem_append.1 ht with ht | ht
      · exact h t ht
      · obtain rfl := List.mem_singleton.1 ht
        exact hprogram i p.state hA
  | advance n =>
      rw [Pool.step]
      split
      · rename_i i write next hn
        obtain ⟨hg, hnext⟩ := h _ (List.mem_of_getElem? hn) p.state (hrefl _) hA
        intro t ht
        -- the program that made the access goes on; the others see the state moved along their rely
        rcases List.mem_or_eq_of_mem_set ht with ht | rfl
        · exact (h t ht).moved htrans (fun _ hq => hq) (hGR i _ _ hA hg)
        · exact hnext
      · exact h

/-- **Rely and guarantee.**  Where `A` holds throughout a run, every program in progress is safe. -/
theorem run_ok (hrefl : ∀ s, R s s) (htrans : ∀ {a b c}, R a b → R b c → R a c)
    (hGR : ∀ i s s', A s → G i s s' → R s s') (hprogram : ∀ i s, A s → (program i).Safe A R (G i) (fun _ => Q i) s)
    (h₀ : p.Ok A R G Q) {events : List (Event ι)} (hA : ∀ before, before <+: events → A (p.run program before).state) :
    (p.run program events).Ok A R G Q := by
  induction events using List.reverseRecOn with
  | nil => exact h₀
  | append_singleton events e ih =>
      have hpre : ∀ before, before <+: events → A (p.run program before).state := fun before hb =>
        hA before (hb.trans (List.prefix_append ..))
      rw [run_concat]
      exact (ih hpre).step hrefl htrans hGR hprogram (hpre events List.prefix_rfl) e

/-- What every guarantee keeps holds throughout every run. -/
theorem run_invariant (hrefl : ∀ s, R s s) (htrans : ∀ {a b c}, R a b → R b c → R a c)
    (hGR : ∀ i s s', A s → G i s s' → R s s') (hprogram : ∀ i s, A s → (program i).Safe A R (G i) (fun _ => Q i) s)
    (hGA : ∀ i s s', A s → G i s s' → A s') (h₀ : p.Ok A R G Q) (hA₀ : A p.state) (events : List (Event ι)) :
    A (p.run program events).state ∧ (p.run program events).Ok A R G Q := by
  induction events using List.reverseRecOn with
  | nil => exact ⟨hA₀, h₀⟩
  | append_singleton events e ih =>
      obtain ⟨hA, hok⟩ := ih
      rw [run_concat]
      refine ⟨?_, hok.step hrefl htrans hGR hprogram hA e⟩
      cases e with
      | request i => exact hA
      | advance n =>
          cases hn : (p.run program events).tasks[n]? with
          | none => simpa [Pool.step, hn] using hA
          | some t =>
              rcases hok.guarantee program hrefl hA hn with e | hg
              · rw [e]
                exact hA
              · exact hGA t.1 _ _ hA hg

end Rule

end Pool

end Concurrent
