import Mathlib.Data.List.Basic

/-!
# Exclusive locks

Which process holds which lock. A lock has at most one holder; this is a field of `Locks`, so a
state in which two processes hold one lock cannot be built. A process that asks for a lock another
one holds gets no answer (it waits); asking again for a lock it already holds changes nothing.
-/

namespace Relational

/-- The locks held, each with its only holder. -/
structure Locks (L : Type) where
  held : List (L × Nat)
  exclusive : ∀ l i j, (l, i) ∈ held → (l, j) ∈ held → i = j

namespace Locks

variable {L : Type}

/-- Process `i` holds lock `l`. -/
def Holds (k : Locks L) (i : Nat) (l : L) : Prop := (l, i) ∈ k.held

/-- No lock is held. -/
def none : Locks L := ⟨[], fun _ _ _ h => by cases h⟩

@[simp] theorem not_holds_none (i : Nat) (l : L) : ¬ (none : Locks L).Holds i l := by
  simp [none, Holds]

theorem Holds.unique {k : Locks L} {i j : Nat} {l : L} (hi : k.Holds i l) (hj : k.Holds j l) :
    i = j :=
  k.exclusive l i j hi hj

variable [DecidableEq L]

instance (k : Locks L) (i : Nat) (l : L) : Decidable (k.Holds i l) :=
  inferInstanceAs (Decidable (_ ∈ _))

/-- Nobody but process `i` holds `l`. -/
def Free (k : Locks L) (i : Nat) (l : L) : Prop := ∀ p ∈ k.held, p.1 = l → p.2 = i

instance (k : Locks L) (i : Nat) (l : L) : Decidable (k.Free i l) :=
  inferInstanceAs (Decidable (∀ p ∈ k.held, p.1 = l → p.2 = i))

omit [DecidableEq L] in
/-- Process `i` takes lock `l`, which nobody else holds. -/
def take (k : Locks L) (i : Nat) (l : L) (h : k.Free i l) : Locks L :=
  ⟨(l, i) :: k.held, by
    intro l' a b ha hb
    rw [List.mem_cons, Prod.mk.injEq] at ha hb
    rcases ha with ⟨rfl, rfl⟩ | ha
    · rcases hb with ⟨_, rfl⟩ | hb
      · rfl
      · exact (h _ hb rfl).symm
    · rcases hb with ⟨rfl, rfl⟩ | hb
      · exact h _ ha rfl
      · exact k.exclusive l' a b ha hb⟩

/-- Process `i` asks for lock `l`. -/
def acquire? (k : Locks L) (i : Nat) (l : L) : Option (Locks L) :=
  if h : k.Free i l then some (k.take i l h) else Option.none

theorem acquire?_eq_some {k k' : Locks L} {i : Nat} {l : L} (h : k.acquire? i l = some k') :
    k.Free i l ∧ ∀ j l', k'.Holds j l' ↔ k.Holds j l' ∨ (j = i ∧ l' = l) := by
  unfold acquire? at h
  split at h
  · rename_i hf
    cases h
    refine ⟨hf, fun j l' => ?_⟩
    simp only [take, Holds, List.mem_cons, Prod.mk.injEq]
    tauto
  · cases h

/-- Process `i` asks for every lock of a list. -/
def acquireAll? (k : Locks L) (i : Nat) : List L → Option (Locks L)
  | [] => some k
  | l :: ls => (k.acquire? i l).bind fun k' => acquireAll? k' i ls

theorem acquireAll?_eq_some {i : Nat} {ls : List L} :
    ∀ {k k' : Locks L}, k.acquireAll? i ls = some k' →
      (∀ l ∈ ls, k.Free i l) ∧ ∀ j l', k'.Holds j l' ↔ k.Holds j l' ∨ (j = i ∧ l' ∈ ls) := by
  induction ls with
  | nil =>
    intro k k' h
    cases h
    simp
  | cons l ls ih =>
    intro k k' h
    obtain ⟨k₁, h₁, h₂⟩ := Option.bind_eq_some_iff.1 h
    obtain ⟨hf, hk₁⟩ := acquire?_eq_some h₁
    obtain ⟨hfs, hk'⟩ := ih h₂
    refine ⟨?_, fun j l' => ?_⟩
    · intro l' hl'
      rcases List.mem_cons.1 hl' with rfl | hl'
      · exact hf
      · intro p hp he
        exact hfs l' hl' p ((hk₁ p.2 p.1).2 (.inl hp)) he
    · rw [hk', hk₁, List.mem_cons]
      tauto

/-- Locks that nobody else holds are given. -/
theorem acquireAll?_free {i : Nat} {ls : List L} :
    ∀ {k : Locks L}, (∀ l ∈ ls, k.Free i l) → ∃ k', k.acquireAll? i ls = some k' := by
  induction ls with
  | nil => exact fun _ => ⟨_, rfl⟩
  | cons l ls ih =>
    intro k h
    have hf : k.Free i l := h l (List.mem_cons_self ..)
    have hnext : ∀ l' ∈ ls, (k.take i l hf).Free i l' := by
      intro l' hl' p hp he
      rcases List.mem_cons.1 hp with rfl | hp
      · rfl
      · exact h l' (List.mem_cons_of_mem _ hl') p hp he
    obtain ⟨k', hk'⟩ := ih hnext
    exact ⟨k', by simp only [acquireAll?, acquire?, dif_pos hf, Option.bind_some, hk']⟩

/-- Process `i` gives up all its locks. -/
def releaseAll (k : Locks L) (i : Nat) : Locks L :=
  ⟨k.held.filter fun p => decide (p.2 ≠ i), fun l a b ha hb =>
    k.exclusive l a b (List.mem_filter.1 ha).1 (List.mem_filter.1 hb).1⟩

omit [DecidableEq L] in
@[simp] theorem holds_releaseAll {k : Locks L} {i j : Nat} {l : L} :
    (k.releaseAll i).Holds j l ↔ k.Holds j l ∧ j ≠ i := by
  simp [releaseAll, Holds]

omit [DecidableEq L] in
theorem Free.releaseAll {k : Locks L} {i j : Nat} {l : L} (h : k.Free i l) :
    (k.releaseAll j).Free i l :=
  fun p hp he => h p (List.mem_filter.1 hp).1 he

omit [DecidableEq L] in
theorem held_releaseAll {k : Locks L} {i : Nat} (h : ∀ l, k.Free i l) :
    (k.releaseAll i).held = [] := by
  apply List.eq_nil_iff_forall_not_mem.2
  intro p hp
  obtain ⟨hmem, hne⟩ := List.mem_filter.1 hp
  exact of_decide_eq_true hne (h p.1 p hmem rfl)

end Locks

end Relational
