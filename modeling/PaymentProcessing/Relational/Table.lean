import Mathlib.Algebra.Order.BigOperators.Group.List
import Mathlib.Algebra.Order.Ring.Nat
import Mathlib.Data.List.Nodup
import Mathlib.Data.List.Basic

/-!
# Tables with a primary key

A `Table key` is a list of rows no two of which have the same key: the key constraint is a field,
so a table that violates it cannot be built. Rows are inserted at the end, replaced in place,
modified by key and erased by key; `find?` reads by key, and each operation is described by what
`find?` answers after it. `total` adds up a weight over the rows.
-/

namespace Relational

/-- Rows with distinct keys, in insertion order. -/
structure Table {κ ρ : Type} (key : ρ → κ) where
  rows : List ρ
  nodup : (rows.map key).Nodup

namespace Table

variable {κ ρ : Type} {key : ρ → κ} [DecidableEq κ]

/-- The table without rows. -/
def empty : Table key := ⟨[], List.nodup_nil⟩

/-- The row with key `k`. -/
def find? (t : Table key) (k : κ) : Option ρ := t.rows.find? fun r => decide (key r = k)

theorem find?_eq_some {t : Table key} {k : κ} {r : ρ} :
    t.find? k = some r ↔ r ∈ t.rows ∧ key r = k := by
  constructor
  · intro h
    exact ⟨List.mem_of_find?_eq_some h, by simpa using List.find?_some h⟩
  · rintro ⟨hr, rfl⟩
    cases h : t.find? (key r) with
    | none =>
      have := List.find?_eq_none.1 h r hr
      simp at this
    | some r' =>
      have hr' : r' ∈ t.rows := List.mem_of_find?_eq_some h
      have hk : key r' = key r := by simpa using List.find?_some h
      rw [List.inj_on_of_nodup_map t.nodup hr' hr hk]

theorem find?_eq_none {t : Table key} {k : κ} : t.find? k = none ↔ ∀ r ∈ t.rows, key r ≠ k := by
  simp [find?, List.find?_eq_none]

theorem find?_key {t : Table key} {r : ρ} (h : r ∈ t.rows) : t.find? (key r) = some r :=
  find?_eq_some.2 ⟨h, rfl⟩

theorem mem_of_find? {t : Table key} {k : κ} {r : ρ} (h : t.find? k = some r) : r ∈ t.rows :=
  (find?_eq_some.1 h).1

theorem key_of_find? {t : Table key} {k : κ} {r : ρ} (h : t.find? k = some r) : key r = k :=
  (find?_eq_some.1 h).2

@[simp] theorem find?_empty (k : κ) : (empty : Table key).find? k = none := rfl

/-- Insert `row` unless its key is taken. -/
def insert (t : Table key) (row : ρ) : Table key :=
  if h : t.find? (key row) = none then
    ⟨t.rows ++ [row], by
      rw [List.map_append, List.map_singleton]
      refine List.nodup_append.2 ⟨t.nodup, List.nodup_singleton _, ?_⟩
      intro k hk k' hk' e
      obtain ⟨r, hr, rfl⟩ := List.mem_map.1 hk
      rw [List.mem_singleton] at hk'
      exact find?_eq_none.1 h r hr (e.trans hk')⟩
  else t

theorem find?_insert {t : Table key} {r : ρ} (h : t.find? (key r) = none) (k : κ) :
    (t.insert r).find? k = if k = key r then some r else t.find? k := by
  unfold insert
  rw [dif_pos h]
  unfold find? at h ⊢
  rw [List.find?_append]
  by_cases hk : k = key r
  · subst hk
    simp [h]
  · have hk' : key r ≠ k := fun e => hk e.symm
    simp [hk, hk']

theorem insert_of_some {t : Table key} {row r : ρ} (h : t.find? (key row) = some r) :
    t.insert row = t := by
  unfold insert
  rw [dif_neg (by simp [h])]

theorem mem_insert {t : Table key} {row r : ρ} (h : r ∈ (t.insert row).rows) :
    r = row ∨ r ∈ t.rows := by
  unfold insert at h
  split at h
  · exact (List.mem_append.1 h).symm.imp List.mem_singleton.1 id
  · exact .inr h

theorem find?_insert_of_some {t : Table key} (row : ρ) {k : κ} {r : ρ} (h : t.find? k = some r) :
    (t.insert row).find? k = some r := by
  cases hrow : t.find? (key row) with
  | some r' => rw [insert_of_some hrow, h]
  | none =>
    have hne : k ≠ key row := by
      rintro rfl
      rw [hrow] at h
      cases h
    rw [find?_insert hrow, if_neg hne, h]

/-- Put `row` in the place of the row with its key. -/
def replace (t : Table key) (row : ρ) : Table key :=
  ⟨t.rows.map fun r => if key r = key row then row else r, by
    have h : (t.rows.map fun r => if key r = key row then row else r).map key = t.rows.map key := by
      rw [List.map_map]
      apply List.map_congr_left
      intro r _
      by_cases hr : key r = key row <;> simp [hr]
    rw [h]
    exact t.nodup⟩

theorem find?_replace (t : Table key) (row : ρ) (k : κ) :
    (t.replace row).find? k =
      if k = key row then (t.find? k).map (fun _ => row) else t.find? k := by
  unfold replace find?
  rw [List.find?_map]
  have hfun : ((fun r => decide (key r = k)) ∘ fun r => if key r = key row then row else r) =
      fun r => decide (key r = k) := by
    funext r
    by_cases hr : key r = key row <;> simp [hr]
  rw [hfun]
  cases h : t.rows.find? (fun r => decide (key r = k)) with
  | none => simp
  | some r =>
    have hr : key r = k := by simpa using List.find?_some h
    by_cases hk : k = key row
    · simp [hr, hk]
    · simp [hr, hk]

/-- Change the row with key `k` by `f`, which keeps keys. -/
def modify (t : Table key) (k : κ) (f : ρ → ρ) : Table key :=
  match t.find? k with
  | none => t
  | some r => t.replace (f r)

theorem find?_modify (t : Table key) {f : ρ → ρ} (hf : ∀ r, key (f r) = key r) (k k' : κ) :
    (t.modify k f).find? k' = if k' = k then (t.find? k).map f else t.find? k' := by
  unfold modify
  cases h : t.find? k with
  | none =>
    by_cases hk : k' = k
    · simp [hk, h]
    · simp [hk]
  | some r =>
    have hr : key r = k := key_of_find? h
    simp only [find?_replace, hf, hr, Option.map_some]
    by_cases hk : k' = k
    · simp [hk, h]
    · simp [hk]

/-- Remove the row with key `k`. -/
def erase (t : Table key) (k : κ) : Table key :=
  ⟨t.rows.filter fun r => decide (key r ≠ k), (t.nodup).sublist (List.filter_sublist.map key)⟩

theorem find?_erase (t : Table key) (k k' : κ) :
    (t.erase k).find? k' = if k' = k then none else t.find? k' := by
  unfold erase find?
  rw [List.find?_filter]
  by_cases hk : k' = k
  · subst hk
    simp
  · simp only [hk, if_false]
    congr 1
    funext r
    by_cases hr : key r = k'
    · simp [hr, hk]
    · simp [hr]

/-! ## Totals -/

theorem keys_replace (t : Table key) (row : ρ) : (t.replace row).rows.map key = t.rows.map key := by
  unfold replace
  rw [List.map_map]
  apply List.map_congr_left
  intro r _
  by_cases hr : key r = key row <;> simp [hr]

theorem keys_modify (t : Table key) (k : κ) (f : ρ → ρ) :
    (t.modify k f).rows.map key = t.rows.map key := by
  unfold modify
  split
  · rfl
  · exact keys_replace _ _

/-- The weights of all rows together. -/
def total (w : ρ → ℕ) (t : Table key) : ℕ := (t.rows.map w).sum

/-- The weight of the row with key `k`, if there is one. -/
def weight (w : ρ → ℕ) (t : Table key) (k : κ) : ℕ := (t.find? k).elim 0 w

theorem weight_of_mem {w : ρ → ℕ} {t : Table key} {r : ρ} (h : r ∈ t.rows) :
    t.weight w (key r) = w r := by
  rw [weight, find?_key h]
  rfl

/-- A total, row by row of another table with the same keys. -/
theorem total_of_keys {w : ρ → ℕ} {t t' : Table key} (h : t'.rows.map key = t.rows.map key) :
    t'.total w = (t.rows.map fun r => t'.weight w (key r)).sum := by
  have hself : t'.rows.map w = t'.rows.map fun r => t'.weight w (key r) :=
    List.map_congr_left fun r hr => (weight_of_mem hr).symm
  have hkeys : ∀ u : Table key, (u.rows.map fun r => t'.weight w (key r)) =
      (u.rows.map key).map (t'.weight w) := fun u => by rw [List.map_map]; rfl
  rw [total, hself, hkeys, hkeys, h]

theorem total_lt_of_keys {w : ρ → ℕ} {t t' : Table key} (h : t'.rows.map key = t.rows.map key)
    (hle : ∀ r ∈ t.rows, t'.weight w (key r) ≤ w r)
    (hlt : ∃ r ∈ t.rows, t'.weight w (key r) < w r) : t'.total w < t.total w := by
  rw [total_of_keys h]
  exact List.sum_lt_sum _ _ hle hlt

omit [DecidableEq κ] in
theorem le_total {w : ρ → ℕ} {t : Table key} {r : ρ} (h : r ∈ t.rows) : w r ≤ t.total w :=
  List.single_le_sum (fun _ _ => Nat.zero_le _) _ (List.mem_map_of_mem h)

theorem sum_filter {w : ρ → ℕ} {p : ρ → Bool} {rows : List ρ}
    (h : ∀ r ∈ rows, p r = false → w r = 0) : ((rows.filter p).map w).sum = (rows.map w).sum := by
  induction rows with
  | nil => rfl
  | cons r rows ih =>
    have hrest := ih fun r' hr' => h r' (List.mem_cons_of_mem _ hr')
    rw [List.filter_cons]
    cases hp : p r with
    | true => simp only [if_true, List.map_cons, List.sum_cons, hrest]
    | false =>
      have hzero := h r (List.mem_cons_self ..) hp
      simp only [Bool.false_eq_true, if_false, List.map_cons, List.sum_cons, hrest, hzero, zero_add]

theorem total_erase {w : ρ → ℕ} {t : Table key} {k : κ} (h : ∀ r ∈ t.rows, key r = k → w r = 0) :
    (t.erase k).total w = t.total w :=
  sum_filter fun r hr hk => h r hr (by simpa using hk)

end Table

end Relational
