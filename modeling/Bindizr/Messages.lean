import Bindizr.Rfc1035

/-! # The layout of messages

A library for the layout of messages of RFC 1035, section 4.1, as relations between the octets of
a message, positions in it and what stands there.  It names nothing of the service.

Octets stand at a position (`At`).  A name stands at a position as labels that end with the root
or with a pointer to an earlier position (`NameAt`); a record is a name, the four numbers of its
fixed part and its rdata (`RrAt`), and a section is records one after another (`SectionAt`).  The
rdata of TSIG is that of RFC 8945, section 4.2 (`TsigAt`).  Each relation determines what stands at a
position and where it ends, and reading by positions computes it (`readOctets_eq_some`,
`readNat_eq_some`, `readName_eq_some`). -/

namespace Rfc1035

/-! ### Octets -/

/-- The octets stand in the message at a position. -/
def At (data : List UInt8) (pos : ℕ) (octets : List UInt8) : Prop :=
  ∃ before after, data = before ++ octets ++ after ∧ before.length = pos

theorem At.le {data : List UInt8} {pos : ℕ} {octets : List UInt8} (h : At data pos octets) :
    pos + octets.length ≤ data.length := by
  obtain ⟨before, after, rfl, rfl⟩ := h
  simp

theorem at_append {data : List UInt8} {pos : ℕ} {a b : List UInt8} :
    At data pos (a ++ b) ↔ At data pos a ∧ At data (pos + a.length) b := by
  constructor
  · rintro ⟨before, after, rfl, rfl⟩
    exact ⟨⟨before, b ++ after, by simp, rfl⟩, before ++ a, after, by simp, by simp⟩
  · rintro ⟨⟨before, after, hdata, rfl⟩, before', after', hdata', hlen⟩
    have hsplit := hdata.symm.trans hdata'
    rw [List.append_assoc before' b after'] at hsplit
    obtain ⟨rfl, rfl⟩ := List.append_inj hsplit (by simp [hlen])
    exact ⟨before, after', by rw [hdata]; simp, rfl⟩

theorem at_iff_take {data : List UInt8} {pos : ℕ} {octets : List UInt8} :
    At data pos octets ↔ pos + octets.length ≤ data.length ∧ (data.drop pos).take octets.length = octets := by
  constructor
  · intro h
    refine ⟨h.le, ?_⟩
    obtain ⟨before, after, rfl, rfl⟩ := h
    simp
  · rintro ⟨hle, htake⟩
    refine ⟨data.take pos, data.drop (pos + octets.length), ?_, by simp; omega⟩
    calc data = data.take pos ++ ((data.drop pos).take octets.length ++ (data.drop pos).drop octets.length) := by
          rw [List.take_append_drop, List.take_append_drop]
      _ = data.take pos ++ octets ++ data.drop (pos + octets.length) := by
          rw [htake, List.drop_drop, List.append_assoc]

theorem readOctets_eq_some {n : ℕ} {data : List UInt8} {pos : ℕ} {octets : List UInt8} {next : ℕ} :
    readOctets n data pos = some (octets, next) ↔ At data pos octets ∧ octets.length = n ∧ next = pos + n := by
  rw [readOctets, at_iff_take]
  constructor
  · intro h
    split at h
    · rename_i hle
      cases h
      have hlen : ((data.drop pos).take n).length = n := by
        rw [List.length_take, List.length_drop]
        omega
      exact ⟨⟨by omega, by rw [hlen]⟩, hlen, rfl⟩
    · cases h
  · rintro ⟨⟨hle, htake⟩, rfl, rfl⟩
    rw [if_pos hle, htake]

/-! ### Numbers -/

theorem bigEndian_foldl (octets : List UInt8) :
    bigEndian octets.length (octets.foldl (fun v b => 256 * v + b.toNat) 0) = octets := by
  induction octets using List.reverseRecOn with
  | nil => rfl
  | append_singleton octets b ih =>
      have hb := b.toNat_lt
      have hdiv : ∀ v, (256 * v + b.toNat) / 256 = v := fun v => by omega
      have hmod : ∀ v, UInt8.ofNat (256 * v + b.toNat) = b := fun v => by
        apply UInt8.toNat_inj.1
        rw [UInt8.toNat_ofNat']
        omega
      rw [List.foldl_append, List.foldl_cons, List.foldl_nil, List.length_append, List.length_singleton, bigEndian_succ, hdiv,
        ih, hmod]

theorem foldl_lt (octets : List UInt8) : octets.foldl (fun v b => 256 * v + b.toNat) 0 < 256 ^ octets.length := by
  rw [← bigEndian_foldl octets, foldl_bigEndian, length_bigEndian]
  exact Nat.mod_lt _ (by positivity)

theorem exists_bigEndian {n : ℕ} {octets : List UInt8} (h : octets.length = n) :
    ∃ value, value < 256 ^ n ∧ bigEndian n value = octets := by
  subst h
  exact ⟨_, foldl_lt octets, bigEndian_foldl octets⟩

theorem bigEndian_four (value : ℕ) : bigEndian 4 value = bigEndian 2 (value / 65536) ++ bigEndian 2 value := by
  simp only [bigEndian_succ, Nat.div_div_eq_div_mul, Nat.reduceMul, List.append_assoc]
  rfl

theorem readNat_eq_some {n : ℕ} {data : List UInt8} {pos value next : ℕ} :
    readNat n data pos = some (value, next) ↔ At data pos (bigEndian n value) ∧ value < 256 ^ n ∧ next = pos + n := by
  rw [readNat, Option.map_eq_some_iff]
  constructor
  · rintro ⟨⟨octets, next'⟩, h, e⟩
    obtain ⟨hat, rfl, rfl⟩ := readOctets_eq_some.1 h
    cases e
    exact ⟨by rw [bigEndian_foldl]; exact hat, foldl_lt octets, rfl⟩
  · rintro ⟨hat, hlt, rfl⟩
    refine ⟨(bigEndian n value, pos + n), readOctets_eq_some.2 ⟨hat, length_bigEndian n value, rfl⟩, ?_⟩
    exact Prod.ext ((foldl_bigEndian n value).trans (Nat.mod_eq_of_lt hlt)) rfl

/-! ### Names -/

/-- The labels at a position: to the root, or to a pointer to an earlier position. -/
inductive NameAt (data : List UInt8) : ℕ → List (List UInt8) → ℕ → Prop
  | root {pos : ℕ} : At data pos [0] → NameAt data pos [] (pos + 1)
  | label {pos next : ℕ} {l : List UInt8} {ls : List (List UInt8)} : 1 ≤ l.length → l.length ≤ 63 →
      At data pos (UInt8.ofNat l.length :: l) → NameAt data (pos + 1 + l.length) ls next → NameAt data pos (l :: ls) next
  | pointer {pos target next : ℕ} {ls : List (List UInt8)} : target < pos → target < 16384 →
      At data pos (bigEndian 2 (49152 + target)) → NameAt data target ls next → NameAt data pos ls (pos + 2)

theorem NameAt.lt {data : List UInt8} {pos next : ℕ} {ls : List (List UInt8)} (h : NameAt data pos ls next) :
    pos < next ∧ next ≤ data.length := by
  induction h with
  | root h =>
      have := h.le
      simp at this
      omega
  | label _ _ _ _ ih => omega
  | pointer _ _ h _ _ =>
      have := h.le
      rw [length_bigEndian] at this
      omega

/-! ### Reading names -/

theorem readLabels_cases (data : List UInt8) (pos : ℕ) :
    (At data pos [0] ∧ ∀ fuel, readLabels data (fuel + 1) pos = some ([], pos + 1)) ∨
    (∃ l, 1 ≤ l.length ∧ l.length ≤ 63 ∧ At data pos (UInt8.ofNat l.length :: l) ∧
      ∀ fuel, readLabels data (fuel + 1) pos = (readLabels data fuel (pos + 1 + l.length)).map fun (ls, next) => (l :: ls, next)) ∨
    (∃ target, target < pos ∧ target < 16384 ∧ At data pos (bigEndian 2 (49152 + target)) ∧
      ∀ fuel, readLabels data (fuel + 1) pos = (readLabels data fuel target).map fun (ls, _) => (ls, pos + 2)) ∨
    ∀ fuel, readLabels data (fuel + 1) pos = none := by
  cases hn : readNat 1 data pos with
  | none => exact .inr (.inr (.inr fun fuel => by rw [readLabels, hn]; rfl))
  | some r =>
      obtain ⟨n, next⟩ := r
      obtain ⟨hat, hlt, rfl⟩ := readNat_eq_some.1 hn
      have hone : bigEndian 1 n = [UInt8.ofNat n] := by simp [bigEndian]
      rw [hone] at hat
      by_cases hzero : n = 0
      · subst hzero
        exact .inl ⟨hat, fun fuel => by rw [readLabels, hn]; rfl⟩
      by_cases hlabel : n ≤ 63
      · cases hl : readOctets n data (pos + 1) with
        | none =>
            refine .inr (.inr (.inr fun fuel => ?_))
            rw [readLabels, hn]
            simp [hzero, hlabel, hl]
        | some r =>
            obtain ⟨l, next⟩ := r
            obtain ⟨hatl, rfl, rfl⟩ := readOctets_eq_some.1 hl
            refine .inr (.inl ⟨l, by omega, hlabel, at_append.2 ⟨hat, hatl⟩, fun fuel => ?_⟩)
            rw [readLabels, hn]
            simp only [Option.bind_eq_bind, Option.bind_some, if_neg hzero, if_pos hlabel, hl]
            cases readLabels data fuel (pos + 1 + l.length) <;> rfl
      by_cases hpointer : 192 ≤ n
      · cases hlow : readNat 1 data (pos + 1) with
        | none =>
            refine .inr (.inr (.inr fun fuel => ?_))
            rw [readLabels, hn]
            simp [hzero, hlabel, hpointer, hlow]
        | some r =>
            obtain ⟨low, next⟩ := r
            obtain ⟨hatlow, hltlow, rfl⟩ := readNat_eq_some.1 hlow
            by_cases htarget : 256 * (n - 192) + low < pos
            · refine .inr (.inr (.inl ⟨256 * (n - 192) + low, htarget, by omega, ?_, fun fuel => ?_⟩))
              · have hoctets : bigEndian 2 (49152 + (256 * (n - 192) + low)) = [UInt8.ofNat n] ++ bigEndian 1 low := by
                  rw [bigEndian_succ, show (49152 + (256 * (n - 192) + low)) / 256 = n by omega, hone]
                  simp only [bigEndian, List.range_one, List.map_cons, List.map_nil, Nat.sub_self, pow_zero, Nat.div_one]
                  rw [show UInt8.ofNat (49152 + (256 * (n - 192) + low)) = UInt8.ofNat low from by
                    apply UInt8.toNat_inj.1
                    simp only [UInt8.toNat_ofNat']
                    omega]
                rw [hoctets]
                exact at_append.2 ⟨hat, hatlow⟩
              · rw [readLabels, hn]
                simp only [Option.bind_eq_bind, Option.bind_some, if_neg hzero, if_neg hlabel, if_pos hpointer, hlow,
                  if_pos htarget]
                cases readLabels data fuel (256 * (n - 192) + low) <;> rfl
            · refine .inr (.inr (.inr fun fuel => ?_))
              rw [readLabels, hn]
              simp [hzero, hlabel, hpointer, hlow, htarget]
      · refine .inr (.inr (.inr fun fuel => ?_))
        rw [readLabels, hn]
        simp [hzero, hlabel, hpointer]

/-- What is read with some fuel is read with more. -/
theorem readLabels_mono {data : List UInt8} {fuel fuel' pos : ℕ} {r : List (List UInt8) × ℕ} (hle : fuel ≤ fuel')
    (h : readLabels data fuel pos = some r) : readLabels data fuel' pos = some r := by
  induction fuel generalizing fuel' pos r with
  | zero => cases h
  | succ fuel ih =>
      obtain ⟨fuel', rfl⟩ := Nat.exists_eq_add_of_le' (show 1 ≤ fuel' by omega)
      rcases readLabels_cases data pos with ⟨-, hread⟩ | ⟨l, -, -, -, hread⟩ | ⟨target, -, -, -, hread⟩ | hread
      · rw [hread] at h ⊢
        exact h
      · rw [hread] at h ⊢
        obtain ⟨rest, hrest, rfl⟩ := Option.map_eq_some_iff.1 h
        rw [ih (by omega) hrest]
        rfl
      · rw [hread] at h ⊢
        obtain ⟨rest, hrest, rfl⟩ := Option.map_eq_some_iff.1 h
        rw [ih (by omega) hrest]
        rfl
      · rw [hread] at h
        cases h

theorem nameAt_of_readLabels {data : List UInt8} {fuel pos next : ℕ} {ls : List (List UInt8)}
    (h : readLabels data fuel pos = some (ls, next)) : NameAt data pos ls next := by
  induction fuel generalizing pos next ls with
  | zero => cases h
  | succ fuel ih =>
      rcases readLabels_cases data pos with ⟨hat, hread⟩ | ⟨l, h1, h63, hat, hread⟩ | ⟨target, hlt, h14, hat, hread⟩ | hread
      · rw [hread] at h
        cases h
        exact .root hat
      · rw [hread] at h
        obtain ⟨⟨ls', next'⟩, hrest, e⟩ := Option.map_eq_some_iff.1 h
        cases e
        exact .label h1 h63 hat (ih hrest)
      · rw [hread] at h
        obtain ⟨⟨ls', next'⟩, hrest, e⟩ := Option.map_eq_some_iff.1 h
        cases e
        exact .pointer hlt h14 hat (ih hrest)
      · rw [hread] at h
        cases h

theorem readNat_one {data : List UInt8} {pos n : ℕ} (hn : n < 256) (h : At data pos [UInt8.ofNat n]) :
    readNat 1 data pos = some (n, pos + 1) :=
  readNat_eq_some.2 ⟨by simpa [bigEndian] using h, by simpa using hn, rfl⟩

theorem exists_readLabels {data : List UInt8} {pos next : ℕ} {ls : List (List UInt8)} (h : NameAt data pos ls next) :
    ∃ fuel, readLabels data fuel pos = some (ls, next) := by
  induction h with
  | root hat => exact ⟨1, by rw [readLabels, readNat_one (n := 0) (by omega) hat]; rfl⟩
  | @label pos next l ls h1 h63 hat _ ih =>
      obtain ⟨fuel, ih⟩ := ih
      obtain ⟨hlen, hl⟩ := at_append.1 (show At data pos ([UInt8.ofNat l.length] ++ l) from hat)
      have hread : readOctets l.length data (pos + 1) = some (l, pos + 1 + l.length) := readOctets_eq_some.2 ⟨hl, rfl, rfl⟩
      refine ⟨fuel + 1, ?_⟩
      rw [readLabels, readNat_one (by omega) hlen]
      simp only [Option.bind_eq_bind, Option.bind_some, if_neg (show l.length ≠ 0 by omega), if_pos h63, hread, ih]
  | @pointer pos target next ls hlt h14 hat _ ih =>
      obtain ⟨fuel, ih⟩ := ih
      have hhigh : (49152 + target) / 256 = 192 + target / 256 := by omega
      rw [bigEndian_succ, hhigh, at_append, length_bigEndian] at hat
      have hlow : At data (pos + 1) [UInt8.ofNat (target % 256)] := by
        rw [show UInt8.ofNat (target % 256) = UInt8.ofNat (49152 + target) from by
          apply UInt8.toNat_inj.1
          simp only [UInt8.toNat_ofNat']
          omega]
        exact hat.2
      have htarget : 256 * (192 + target / 256 - 192) + target % 256 = target := by omega
      refine ⟨fuel + 1, ?_⟩
      rw [readLabels, readNat_one (n := 192 + target / 256) (by omega) (by simpa [bigEndian] using hat.1)]
      simp only [Option.bind_eq_bind, Option.bind_some, if_neg (show 192 + target / 256 ≠ 0 by omega),
        if_neg (show ¬ 192 + target / 256 ≤ 63 by omega), if_pos (show 192 ≤ 192 + target / 256 by omega),
        readNat_one (Nat.mod_lt target (show 256 > 0 by omega)) hlow, htarget, if_pos hlt, ih]

/-- The least fuel with which labels are read at a position. -/
def LeastFuel (data : List UInt8) (pos fuel : ℕ) : Prop :=
  readLabels data (fuel + 1) pos ≠ none ∧ readLabels data fuel pos = none

/-- Where labels are read with less and less fuel, down to the root. -/
theorem LeastFuel.below {data : List UInt8} {pos fuel : ℕ} (h : LeastFuel data pos fuel) :
    ∀ k ≤ fuel, ∃ pos', pos' < data.length ∧ LeastFuel data pos' k := by
  induction fuel generalizing pos with
  | zero =>
      intro k hk
      obtain rfl : k = 0 := by omega
      refine ⟨pos, ?_, h⟩
      obtain ⟨⟨ls, next⟩, hr⟩ := Option.ne_none_iff_exists'.1 h.1
      have := (nameAt_of_readLabels hr).lt
      omega
  | succ fuel ih =>
      intro k hk
      by_cases hlast : k = fuel + 1
      · subst hlast
        refine ⟨pos, ?_, h⟩
        obtain ⟨⟨ls, next⟩, hr⟩ := Option.ne_none_iff_exists'.1 h.1
        have := (nameAt_of_readLabels hr).lt
        omega
      · have hmap : ∀ {pos' : ℕ} {f : List (List UInt8) × ℕ → List (List UInt8) × ℕ},
            (∀ fuel, readLabels data (fuel + 1) pos = (readLabels data fuel pos').map f) → LeastFuel data pos' fuel := by
          intro pos' f hread
          obtain ⟨hsome, hnone⟩ := h
          rw [hread] at hsome hnone
          exact ⟨fun e => hsome (by rw [e]; rfl), Option.map_eq_none_iff.1 hnone⟩
        rcases readLabels_cases data pos with ⟨-, hread⟩ | ⟨l, -, -, -, hread⟩ | ⟨target, -, -, -, hread⟩ | hread
        · rw [LeastFuel, hread fuel] at h
          cases h.2
        · exact ih (hmap hread) k (by omega)
        · exact ih (hmap hread) k (by omega)
        · exact absurd (hread _) h.1

theorem LeastFuel.unique {data : List UInt8} {pos fuel fuel' : ℕ} (h : LeastFuel data pos fuel)
    (h' : LeastFuel data pos fuel') : fuel = fuel' := by
  have hle : ∀ {k k' : ℕ}, LeastFuel data pos k → LeastFuel data pos k' → k ≤ k' := fun {k k'} hk hk' => by
    by_contra hlt
    obtain ⟨r, hr⟩ := Option.ne_none_iff_exists'.1 hk'.1
    have hnone := hk.2
    rw [readLabels_mono (by omega) hr] at hnone
    cases hnone
  exact le_antisymm (hle h h') (hle h' h)

/-- **Fuel.**  No position is visited twice on the way to the root, so that as much fuel as there are positions is
enough. -/
theorem readLabels_of_nameAt {data : List UInt8} {pos next : ℕ} {ls : List (List UInt8)} (h : NameAt data pos ls next) :
    readLabels data (data.length + 1) pos = some (ls, next) := by
  obtain ⟨fuel, hfuel⟩ := exists_readLabels h
  have hex : ∃ k, readLabels data k pos ≠ none := ⟨fuel, by rw [hfuel]; simp⟩
  classical
  obtain ⟨k, hk⟩ : ∃ k, Nat.find hex = k + 1 := by
    cases hfind : Nat.find hex with
    | zero => exact absurd (hfind ▸ Nat.find_spec hex) (by simp [readLabels])
    | succ k => exact ⟨k, rfl⟩
  have hleast : LeastFuel data pos k :=
    ⟨hk ▸ Nat.find_spec hex, not_not.1 (Nat.find_min hex (show k < Nat.find hex by omega))⟩
  have hbound : k + 1 ≤ data.length := by
    choose f hf using fun i : Fin (k + 1) => hleast.below i (by omega)
    have hinj : Function.Injective fun i : Fin (k + 1) => (⟨f i, (hf i).1⟩ : Fin data.length) := fun i j hij => by
      have hij : f i = f j := Fin.mk.inj hij
      exact Fin.ext ((hf i).2.unique (hij ▸ (hf j).2))
    simpa using Fintype.card_le_of_injective _ hinj
  obtain ⟨r, hr⟩ := Option.ne_none_iff_exists'.1 hleast.1
  have hsame := readLabels_mono (show k + 1 ≤ max fuel (k + 1) by omega) hr
  rw [readLabels_mono (show fuel ≤ max fuel (k + 1) by omega) hfuel] at hsame
  rw [readLabels_mono (by omega) hr, ← hsame]

/-- **Names.**  Reading a name finds what stands there. -/
theorem readName_eq_some {data : List UInt8} {pos next : ℕ} {n : Name} :
    readName data pos = some (n, next) ↔ NameAt data pos n.labels next := by
  rw [readName]
  constructor
  · intro h
    obtain ⟨⟨labels, next'⟩, hread, h⟩ := Option.bind_eq_some_iff.1 h
    simp only at h
    split at h
    · cases h
      exact nameAt_of_readLabels hread
    · cases h
  · intro h
    rw [readLabels_of_nameAt h]
    simp only [Option.bind_eq_bind, Option.bind_some, dif_pos n.isName]

theorem NameAt.unique {data : List UInt8} {pos next next' : ℕ} {ls ls' : List (List UInt8)} (h : NameAt data pos ls next)
    (h' : NameAt data pos ls' next') : ls = ls' ∧ next = next' := by
  have e := readLabels_of_nameAt h
  rw [readLabels_of_nameAt h'] at e
  cases e
  exact ⟨rfl, rfl⟩

/-! ### Records -/

/-- A record of a message: its type and class are codes, and its rdata is octets at a position. -/
structure Rr where
  owner : Name
  rrType : ℕ
  rrClass : ℕ
  ttl : ℕ
  rdata : List UInt8
  rdataStart : ℕ

/-- Where the rdata of a record ends. -/
def Rr.rdataEnd (rr : Rr) : ℕ := rr.rdataStart + rr.rdata.length

/-- The octets of a record after its owner. -/
def Rr.tail (rr : Rr) : List UInt8 :=
  bigEndian 2 rr.rrType ++ (bigEndian 2 rr.rrClass ++ (bigEndian 4 rr.ttl ++ (bigEndian 2 rr.rdata.length ++ rr.rdata)))

/-- A complete record stands at a position. -/
structure RrAt (data : List UInt8) (pos : ℕ) (rr : Rr) (next : ℕ) : Prop where
  owner : ∃ p, NameAt data pos rr.owner.labels p ∧ rr.rdataStart = p + 10 ∧ At data p rr.tail
  rrType : rr.rrType < 65536
  rrClass : rr.rrClass < 65536
  ttl : rr.ttl < 4294967296
  length : rr.rdata.length < 65536
  next : next = rr.rdataEnd

/-- Records stand one after another. -/
inductive SectionAt (data : List UInt8) : ℕ → List Rr → ℕ → Prop
  | nil {pos : ℕ} : SectionAt data pos [] pos
  | cons {pos mid next : ℕ} {rr : Rr} {rrs : List Rr} : RrAt data pos rr mid → SectionAt data mid rrs next →
      SectionAt data pos (rr :: rrs) next

theorem Rr.at_tail {data : List UInt8} {pos : ℕ} {rr : Rr} :
    At data pos rr.tail ↔ At data pos (bigEndian 2 rr.rrType) ∧ At data (pos + 2) (bigEndian 2 rr.rrClass) ∧
      At data (pos + 4) (bigEndian 4 rr.ttl) ∧ At data (pos + 8) (bigEndian 2 rr.rdata.length) ∧
      At data (pos + 10) rr.rdata := by
  simp only [Rr.tail, at_append, length_bigEndian, Nat.add_assoc, Nat.reduceAdd]

theorem RrAt.rdata {data : List UInt8} {pos next : ℕ} {rr : Rr} (h : RrAt data pos rr next) :
    At data rr.rdataStart rr.rdata := by
  obtain ⟨p, -, hstart, hat⟩ := h.owner
  rw [hstart]
  exact (Rr.at_tail.1 hat).2.2.2.2

theorem SectionAt.length_lt {data : List UInt8} {pos next : ℕ} {rrs : List Rr} (h : SectionAt data pos rrs next) :
    ∀ rr ∈ rrs, rr.rdata.length < 65536 := by
  induction h with
  | nil => simp
  | cons hrr _ ih => exact List.forall_mem_cons.2 ⟨hrr.length, ih⟩

theorem rrAt_of_parts {data : List UInt8} {pos p rrType rrClass ttl rdlen : ℕ} {owner : Name} (hn : NameAt data pos owner.labels p)
    (htype : At data p (bigEndian 2 rrType) ∧ rrType < 65536) (hclass : At data (p + 2) (bigEndian 2 rrClass) ∧ rrClass < 65536)
    (httl : At data (p + 4) (bigEndian 4 ttl) ∧ ttl < 4294967296)
    (hlen : At data (p + 8) (bigEndian 2 rdlen) ∧ rdlen < 65536) (hle : p + 10 + rdlen ≤ data.length) :
    RrAt data pos ⟨owner, rrType, rrClass, ttl, (data.drop (p + 10)).take rdlen, p + 10⟩ (p + 10 + rdlen) := by
  have hrdlen : ((data.drop (p + 10)).take rdlen).length = rdlen := by
    rw [List.length_take, List.length_drop]
    omega
  have hrdata : At data (p + 10) ((data.drop (p + 10)).take rdlen) :=
    at_iff_take.2 ⟨by rw [hrdlen]; exact hle, by rw [hrdlen]⟩
  refine ⟨⟨p, hn, rfl, Rr.at_tail.2 ⟨htype.1, hclass.1, httl.1, ?_, hrdata⟩⟩, htype.2, hclass.2, httl.2, ?_, ?_⟩
  · rw [hrdlen]
    exact hlen.1
  · rw [hrdlen]
    exact hlen.2
  · rw [Rr.rdataEnd, hrdlen]

/-! ### TSIG -/

/-- The rdata of TSIG stands at a position: the name of the algorithm, the time, the fudge, the MAC, the original id, the
error and other data. -/
def TsigAt (data : List UInt8) (pos fudge next : ℕ) : Prop :=
  ∃ (algorithm : Name) (p time originalId error : ℕ) (mac other : List UInt8),
    NameAt data pos algorithm.labels p ∧
    At data p (bigEndian 6 time ++ (bigEndian 2 fudge ++ (bigEndian 2 mac.length ++ (mac ++
      (bigEndian 2 originalId ++ (bigEndian 2 error ++ (bigEndian 2 other.length ++ other))))))) ∧
    fudge < 65536 ∧ mac.length < 65536 ∧ other.length < 65536 ∧ next = p + 16 + mac.length + other.length

end Rfc1035
