import Mathlib.Data.List.Infix

/-!
# Sequential objects

An object has a state and events that change it one at a time: `Enabled` says when an event may
happen and `apply` what it does. A list of events, the newest first, is legal if each was enabled
after the ones before it. `Tracks` relates the events that have been recorded of an implementation
to the state they leave, and `Tracks.step` is the step of a refinement: nothing is recorded and the
state stays, or one enabled event is recorded and the state is the one after it.
-/

namespace Concurrency

/-- A state that events change. -/
structure SeqObject (σ Event : Type) where
  /-- Before any event. -/
  empty : σ
  /-- When an event may happen. -/
  Enabled : σ → Event → Prop
  /-- What an event does. -/
  apply : σ → Event → σ

namespace SeqObject

variable {σ Event : Type} (O : SeqObject σ Event)

/-- The state after the events. -/
def after : List Event → σ
  | [] => O.empty
  | e :: es => O.apply (after es) e

/-- Every event was enabled after the ones before it. -/
def Legal : List Event → Prop
  | [] => True
  | e :: es => O.Enabled (O.after es) e ∧ Legal es

/-- The events that were recorded are legal, and this is the state they leave. -/
structure Tracks (es : List Event) (s : σ) : Prop where
  legal : O.Legal es
  after : s = O.after es

variable {O} {es es' : List Event} {e : Event} {s s' : σ}

theorem Tracks.start : O.Tracks [] O.empty := ⟨trivial, rfl⟩

theorem Tracks.event (h : O.Tracks es s) (he : O.Enabled s e) : O.Tracks (e :: es) (O.apply s e) := by
  obtain ⟨hl, rfl⟩ := h
  exact ⟨⟨he, hl⟩, rfl⟩

/-- **A step of a refinement.** -/
theorem Tracks.step (h : O.Tracks es s)
    (hs : (es' = es ∧ s' = s) ∨ ∃ e, es' = e :: es ∧ O.Enabled s e ∧ s' = O.apply s e) :
    O.Tracks es' s' := by
  rcases hs with ⟨rfl, rfl⟩ | ⟨e, rfl, he, rfl⟩
  · exact h
  · exact h.event he

/-! ## Legal histories -/

theorem Legal.of_append {later : List Event} (h : O.Legal (later ++ es)) : O.Legal es := by
  induction later with
  | nil => exact h
  | cons e later ih => exact ih h.2

theorem Legal.of_suffix (h : O.Legal es') (hs : es <:+ es') : O.Legal es := by
  obtain ⟨later, rfl⟩ := hs
  exact h.of_append

/-- **An event of a legal history was enabled when it happened.** -/
theorem Legal.enabled (h : O.Legal es) (he : e ∈ es) :
    ∃ before, e :: before <:+ es ∧ O.Enabled (O.after before) e := by
  obtain ⟨later, before, rfl⟩ := List.append_of_mem he
  exact ⟨before, List.suffix_append .., h.of_append.1⟩

/-- **An invariant** holds at first and every enabled event keeps it. -/
theorem Legal.invariant {I : σ → Prop} (h : O.Legal es) (hempty : I O.empty)
    (hstep : ∀ s e, I s → O.Enabled s e → I (O.apply s e)) : I (O.after es) := by
  induction es with
  | nil => exact hempty
  | cons e es ih => exact hstep _ e (ih h.2) h.1

/-- What every enabled event makes of a fact, the later events make of it. -/
theorem Legal.evolves {R : σ → σ → Prop} (h : O.Legal es') (hs : es <:+ es')
    (hrefl : ∀ s, R s s) (htrans : ∀ s s' s'', R s s' → R s' s'' → R s s'')
    (hstep : ∀ before e, e :: before <:+ es' → O.Enabled (O.after before) e →
      R (O.after before) (O.apply (O.after before) e)) :
    R (O.after es) (O.after es') := by
  obtain ⟨later, rfl⟩ := hs
  induction later with
  | nil => exact hrefl _
  | cons e later ih =>
    have hkeep : R (O.after es) (O.after (later ++ es)) := by
      refine ih h.2 ?_
      intro before e' hb he
      exact hstep before e' (hb.trans (List.suffix_cons ..)) he
    exact htrans _ _ _ hkeep (hstep (later ++ es) e List.suffix_rfl h.1)

end SeqObject

end Concurrency
