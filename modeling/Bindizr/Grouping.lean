import Mathlib

/-! # Groups in an ordered map

A library for `BTreeMap<K, Vec<V>>` as the result of grouping a list by a key.  It names nothing
of the service.  The map is the list of its entries in the order of their keys; a value is
pushed onto the group of its key (`push`), and grouping pushes the values of a list one by one
(`group`).  A group holds what the list has of its key, in the order of the list
(`get_group`), the keys are those of the list (`mem_keys_group`), each once and in order
(`pairwise_keys_group`), and taking a group out leaves the others (`get_remove`). -/

namespace Grouping

variable {κ α β : Type} [LinearOrder κ]

/-- `entry(key).or_default().push(value)`. -/
def push (key : κ) (value : β) : List (κ × List β) → List (κ × List β)
  | [] => [(key, [value])]
  | (k, values) :: groups =>
      if key < k then (key, [value]) :: (k, values) :: groups
      else if key = k then (k, values ++ [value]) :: groups
      else (k, values) :: push key value groups

def group (key : α → κ) (value : α → β) (l : List α) : List (κ × List β) :=
  l.foldl (fun groups a => push (key a) (value a) groups) []

/-- The group of a key. -/
def get (key : κ) (groups : List (κ × List β)) : Option (List β) := groups.lookup key

/-- `remove(key)`, without the group that it returns. -/
def remove (key : κ) (groups : List (κ × List β)) : List (κ × List β) := groups.filter (·.1 ≠ key)

/-! ### One value -/

theorem get_cons {k : κ} {entry : κ × List β} {groups : List (κ × List β)} :
    get k (entry :: groups) = if k = entry.1 then some entry.2 else get k groups := by
  rw [get, List.lookup_cons, ← get]
  by_cases hk : k = entry.1
  · rw [beq_iff_eq.2 hk, if_pos hk]
  · rw [beq_eq_false_iff_ne.2 hk, if_neg hk]

theorem mem_keys_push {key k : κ} {value : β} {groups : List (κ × List β)} :
    k ∈ (push key value groups).map (·.1) ↔ k = key ∨ k ∈ groups.map (·.1) := by
  induction groups with
  | nil => simp [push]
  | cons entry groups ih =>
      rw [push]
      split
      · simp
      · split
        · rename_i heq
          simp [heq]
        · simp only [List.map_cons, List.mem_cons, ih]
          exact or_left_comm

theorem pairwise_push {key : κ} {value : β} {groups : List (κ × List β)} (h : (groups.map (·.1)).Pairwise (· < ·)) :
    ((push key value groups).map (·.1)).Pairwise (· < ·) := by
  induction groups with
  | nil => simp [push]
  | cons entry groups ih =>
      obtain ⟨hhead, htail⟩ := List.pairwise_cons.1 h
      rw [push]
      split
      · rename_i hlt
        refine List.pairwise_cons.2 ⟨fun k hk => ?_, h⟩
        rcases List.mem_cons.1 hk with rfl | hk
        · exact hlt
        · exact hlt.trans (hhead k hk)
      · rename_i hge
        split
        · exact h
        · rename_i hne
          refine List.pairwise_cons.2 ⟨fun k hk => ?_, ih htail⟩
          rcases mem_keys_push.1 hk with rfl | hk
          · exact lt_of_le_of_ne (not_lt.1 hge) (Ne.symm hne)
          · exact hhead k hk

theorem get_push {key k : κ} {value : β} {groups : List (κ × List β)} (h : (groups.map (·.1)).Pairwise (· < ·)) :
    get k (push key value groups) = if k = key then some ((get k groups).getD [] ++ [value]) else get k groups := by
  induction groups with
  | nil =>
      rw [push, get_cons]
      simp [get]
  | cons entry groups ih =>
      obtain ⟨hhead, htail⟩ := List.pairwise_cons.1 h
      rw [push]
      split
      · rename_i hlt
        -- the key comes before all of them
        have hnone : get key ((entry.1, entry.2) :: groups) = none := by
          refine List.lookup_eq_none_iff.2 fun e he => ?_
          rcases List.mem_cons.1 he with rfl | he
          · simpa using ne_of_lt hlt
          · simpa using ne_of_lt (hlt.trans (hhead e.1 (List.mem_map_of_mem he)))
        rw [get_cons]
        by_cases hk : k = key
        · subst hk
          rw [if_pos rfl, if_pos rfl, hnone]
          rfl
        · rw [if_neg hk, if_neg hk]
      · split
        · rename_i heq
          subst heq
          simp only [get_cons]
          by_cases hk : k = entry.1
          · simp [hk]
          · simp [hk]
        · rename_i hne
          rw [get_cons, get_cons, ih htail]
          by_cases hk : k = entry.1
          · rw [if_pos hk, if_pos hk, if_neg (hk ▸ Ne.symm hne)]
          · rw [if_neg hk, if_neg hk]

theorem get_remove {key k : κ} {groups : List (κ × List β)} (h : k ≠ key) :
    get k (remove key groups) = get k groups := by
  induction groups with
  | nil => rfl
  | cons entry groups ih =>
      rw [remove, List.filter_cons, ← remove]
      split
      · rw [get_cons, get_cons, ih]
      · rename_i hkey
        have hkey : entry.1 = key := by simpa using hkey
        rw [get_cons, ih, if_neg (hkey ▸ h)]

/-! ### Groups -/

theorem mem_keys_group {key : α → κ} {value : α → β} {l : List α} {k : κ} :
    k ∈ (group key value l).map (·.1) ↔ ∃ a ∈ l, key a = k := by
  induction l using List.reverseRecOn with
  | nil => simp [group]
  | append_singleton l a ih =>
      rw [group, List.foldl_append, ← group, List.foldl_cons, List.foldl_nil, mem_keys_push, ih]
      simp only [List.mem_append, List.mem_singleton, or_and_right, exists_or, exists_eq_left]
      rw [or_comm, @eq_comm _ k]

theorem pairwise_keys_group (key : α → κ) (value : α → β) (l : List α) :
    ((group key value l).map (·.1)).Pairwise (· < ·) := by
  induction l using List.reverseRecOn with
  | nil => simp [group]
  | append_singleton l a ih =>
      rw [group, List.foldl_append, ← group]
      exact pairwise_push ih

/-- **A group.**  What the list has of a key, in its order. -/
theorem get_group {key : α → κ} {value : α → β} {l : List α} {k : κ} {p : α → Bool} (hp : ∀ a, p a = true ↔ key a = k) :
    get k (group key value l) = if l.filter p = [] then none else some ((l.filter p).map value) := by
  induction l using List.reverseRecOn with
  | nil => rfl
  | append_singleton l a ih =>
      rw [group, List.foldl_append, ← group, List.foldl_cons, List.foldl_nil, get_push (pairwise_keys_group _ _ _), ih,
        List.filter_append]
      by_cases hk : k = key a
      · have ha : p a = true := (hp a).2 hk.symm
        by_cases hnil : l.filter p = []
        · simp [hnil, hk, ha]
        · simp [hnil, hk, ha]
      · have ha : p a = false := Bool.eq_false_iff.2 fun h => hk ((hp a).1 h).symm
        simp [hk, ha]

end Grouping
