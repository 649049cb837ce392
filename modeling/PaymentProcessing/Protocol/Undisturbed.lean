import PaymentProcessing.Concurrency.Alone
import PaymentProcessing.Protocol.Effects

/-!
# A process nobody disturbs

What a process comes to by itself, when nobody else holds a lock and the database works. `Came`
says where it is: what it has committed, published and staged since it was at `s`.
-/

namespace PaymentProcessing

open Python Relational Concurrency World

variable {py : Platform} {i : Nat} {α β : Type}

/-- The event an entry says was handed to the broker, and whether that returned. -/
def Entry.publication : Entry → Option (List (String × Json) × Headers × Bool)
  | .did _ (.publish .new body headers _) r => some (body, headers, r.isOk)
  | _ => none

namespace World

/-- What was published on `payments.new`, oldest first. -/
def publications (s : World) : List (List (String × Json) × Headers × Bool) :=
  (s.log.filterMap Entry.publication).reverse

/-- The clock said `t` right after the delivery of the row by process `i` failed. -/
def FailedAt (i : Nat) (id : UUID) (t : Time) (s : World) : Prop :=
  [.did i .now (.ok t), .did i (.log "outbox.publish_failed" id) (.ok ())] <:+: s.log

/-- Nothing is left of process `i`, and nobody else holds a lock. -/
structure Calm (i : Nat) (s : World) : Prop where
  clean : s.staged i = []
  free : ∀ l, s.locks.Free i l

/-- Process `i` has come from `s` by itself: it has committed `ws`, published `ms` and staged
`st`. -/
structure Came (i : Nat) (s : World) (ws : List Write)
    (ms : List (List (String × Json) × Headers × Bool)) (st : List Write) (s' : World) : Prop where
  db : s'.db = s.db.writeAll ws
  publications : s'.publications = s.publications ++ ms
  staged : s'.staged i = st
  free : ∀ l, s'.locks.Free i l
  log : s.log <:+ s'.log

end World

/-- The database answers and shows every row, and the clock says a time with `reads`; publishing may
raise an `Exception`. -/
def StoreWorks (reads : Time → Prop) (op : Op) (c : Choice) : Prop :=
  c.skip = [] ∧ match op with
    | .publish .. => ∀ f, c.outcome = .lost f ∨ c.outcome = .late f → f.toExc.isException = true
    | .now => c.outcome = .fine ∧ reads c.time
    | _ => c.outcome = .fine

/-- By itself, process `i` returns, with `P`. -/
def Returns (py : Platform) (i : Nat) (reads : Time → Prop) (P : α → World → Prop) (p : App α)
    (s : World) : Prop :=
  (machine py).Ends i (StoreWorks reads) (fun r s' => ∃ a, r = .ok a ∧ P a s') p s

variable {reads : Time → Prop} {s s₁ s' : World} {p : App α} {P P' : α → World → Prop}
  {ws st : List Write} {ms : List (List (String × Json) × Headers × Bool)}

/-! ## Rules -/

theorem Returns.mono (h : Returns py i reads P p s) (hP : ∀ a s, P a s → P' a s) :
    Returns py i reads P' p s :=
  Machine.Ends.mono h fun _ s ⟨a, ha, hp⟩ => ⟨a, ha, hP a s hp⟩

theorem returns_ret {a : α} (h : P a s) : Returns py i reads P (.ret a) s := ⟨a, rfl, h⟩

theorem Returns.bind {f : α → App β} {Q : β → World → Prop} (h : Returns py i reads P p s)
    (hf : ∀ a s, P a s → Returns py i reads Q (f a) s) : Returns py i reads Q (p.bind f) s := by
  refine Machine.Ends.bind h ?_ ?_
  · rintro a s ⟨a', ha, hP⟩
    cases ha
    exact hf a s hP
  · rintro e s ⟨a', ha, -⟩
    cases ha

theorem Returns.tryCatch {f : Exc → App α} (h : Returns py i reads P p s) :
    Returns py i reads P (p.tryCatch f) s := by
  refine Machine.Ends.tryCatch h (fun a s hQ => hQ) ?_
  rintro e s ⟨a', ha, -⟩
  cases ha

theorem exec_suffix {op : Op} {c : Choice} {r : Except Exc (Res op)}
    (h : World.exec i op c s = some (r, s')) : s.log <:+ s'.log := by
  by_cases hop : op = .commit
  · subst hop
    rcases exec_commit h with rfl | ⟨-, rfl⟩
    · exact (List.suffix_cons ..).trans (List.suffix_cons ..)
    · exact List.suffix_cons ..
  · obtain ⟨s₁, hf, rfl⟩ := exec_frame hop h
    rw [World.note, hf.log]
    exact List.suffix_cons ..

theorem Returns.logged (h : Returns py i reads P p s) :
    Returns py i reads (fun a s' => P a s' ∧ s.log <:+ s'.log) p s := by
  have hkeeps := Machine.Ends.keeps (R := fun s s' : World => s.log <:+ s'.log)
    (fun s => List.suffix_refl _) (fun _ _ _ h h' => h.trans h') (fun _ _ _ _ _ => exec_suffix) h
  exact hkeeps.mono fun r s' ⟨⟨a, ha, hP⟩, hlog⟩ => ⟨a, ha, hP, hlog⟩

theorem exec_others {op : Op} {c : Choice} {r : Except Exc (Res op)}
    (h : World.exec i op c s = some (r, s')) {j : Nat} (hj : j ≠ i) : s'.staged j = s.staged j := by
  by_cases hop : op = .commit
  · subst hop
    rcases exec_commit h with rfl | ⟨-, rfl⟩
    · exact Function.update_of_ne hj _ _
    · rfl
  · obtain ⟨s₁, hf, rfl⟩ := exec_frame hop h
    exact hf.staged j hj

theorem Returns.others (h : Returns py i reads P p s) :
    Returns py i reads (fun a s' => P a s' ∧ ∀ j, j ≠ i → s'.staged j = s.staged j) p s := by
  have hkeeps := Machine.Ends.keeps
    (R := fun s s' : World => ∀ j, j ≠ i → s'.staged j = s.staged j) (fun _ _ _ => rfl)
    (fun _ _ _ h h' j hj => (h' j hj).trans (h j hj)) (fun _ _ _ _ _ he _ hj => exec_others he hj) h
  exact hkeeps.mono fun r s' ⟨⟨a, ha, hP⟩, hothers⟩ => ⟨a, ha, hP, hothers⟩

/-- Entering and leaving a unit of work. -/
theorem returns_withUow {Q : α → World → Prop} (h : Returns py i reads P p s)
    (hclose : ∀ a s, P a s → Q a ((s.endTx i).note (.did i .close (.ok ())))) :
    Returns py i reads Q (withUow p) s := by
  apply Returns.bind (Returns.tryCatch h)
  intro a s hP
  refine Returns.bind (P := fun _ s => Q a s) ?_ fun _ s hQ => returns_ret hQ
  refine Machine.ends_perform ⟨{}, _, _, ⟨rfl, rfl⟩, rfl⟩ ?_
  intro c r s' hc he
  have hfine : c.outcome = .fine := hc.2
  simp only [machine, World.exec, hfine, ite_self, effect, Option.map_some, Option.some.injEq,
    Prod.mk.injEq] at he
  obtain ⟨rfl, rfl⟩ := he
  exact ⟨(), rfl, hclose a s hP⟩

/-! ## Operations -/

/-- Every other operation than drawing a UUID can proceed. -/
theorem effect_proceeds {op : Op} (hfree : ∀ l, s.locks.Free i l) (hop : op ≠ .uuid4) (c : Choice) :
    ∃ r s', s.effect i c op = some (r, s') := by
  have hlock : ∀ ls ws, ∃ s', s.lockAndStage i ls ws = some s' := by
    intro ls ws
    obtain ⟨k, hk⟩ : ∃ k, s.locks.acquireAll? i ls = some k :=
      Locks.acquireAll?_free fun l _ => hfree l
    exact ⟨_, by rw [lockAndStage, hk]; rfl⟩
  cases op with
  | uuid4 => exact absurd rfl hop
  | selectPaymentForUpdate id =>
    simp only [effect]
    split
    · exact ⟨_, _, rfl⟩
    · obtain ⟨s', hs'⟩ := hlock [.payment id] []
      exact ⟨_, _, by rw [hs']; rfl⟩
  | insertPayment row =>
    obtain ⟨s', hs'⟩ := hlock [.payment row.id, .idempotencyKey row.idempotencyKey]
      [.insertPayment row]
    simp only [effect, hs', Option.map_some]
    exact ⟨_, _, rfl⟩
  | updatePayment row =>
    obtain ⟨s', hs'⟩ := hlock [.payment row.id] [.updatePayment row]
    simp only [effect, hs', Option.map_some]
    exact ⟨_, _, rfl⟩
  | insertInbox row =>
    obtain ⟨s', hs'⟩ := hlock [.inbox row.messageId] [.insertInbox row]
    simp only [effect, hs', Option.map_some]
    exact ⟨_, _, rfl⟩
  | insertCharge row =>
    obtain ⟨s', hs'⟩ := hlock [.charge row.paymentId] [.insertCharge row]
    simp only [effect, hs', Option.map_some]
    exact ⟨_, _, rfl⟩
  | selectClaimable limit now staleBefore =>
    obtain ⟨s', hs'⟩ := hlock ((s.claimable i c.skip limit now staleBefore).map fun row =>
      .outbox row.id) []
    simp only [effect, hs', Option.map_some]
    exact ⟨_, _, rfl⟩
  | updateOutbox ids patch =>
    obtain ⟨s', hs'⟩ := hlock ((ids.filter fun id => ((s.view i).outbox.find? id).isSome).map
      .outbox) ((ids.filter fun id => ((s.view i).outbox.find? id).isSome).map fun id =>
        .updateOutbox id patch)
    simp only [effect, hs', Option.map_some]
    exact ⟨_, _, rfl⟩
  | deleteProcessed cutoff limit =>
    obtain ⟨s', hs'⟩ := hlock ((s.purgeable i c.skip limit cutoff).map fun row => .outbox row.id)
      ((s.purgeable i c.skip limit cutoff).map fun row => .deleteOutbox row.id)
    simp only [effect, hs', Option.map_some]
    exact ⟨_, _, rfl⟩
  | _ => exact ⟨_, _, rfl⟩

/-- Operations that cannot but answer when the database works, and need nothing else to. -/
def Op.isStore : Op → Bool
  | .insertPayment _ | .now | .uuid4 | .publish .. => false
  | _ => true

/-- An operation of the database or the process itself has its effect. -/
theorem returns_call {op : Op} {P : Res op → World → Prop} (hfree : ∀ l, s.locks.Free i l)
    (hop : op.isStore = true)
    (h : ∀ c a s₁, c.skip = [] → s.effect i c op = some (.ok a, s₁) →
      P a (s₁.note (.did i op (.ok a)))) : Returns py i reads P (call op) s := by
  have hworks : ∀ c, StoreWorks reads op c ↔ c.skip = [] ∧ c.outcome = .fine := by
    intro c
    cases op with
    | now | publish => cases hop
    | _ => exact Iff.rfl
  have hins : ∀ row, op ≠ .insertPayment row := by
    rintro row rfl
    cases hop
  have hdraw : op ≠ .uuid4 := by
    rintro rfl
    cases hop
  have hexec : ∀ c : Choice, c.outcome = .fine → World.exec i op c s =
      (s.effect i c op).map fun rs => (rs.1, rs.2.note (.did i op rs.1)) := by
    intro c hc
    simp only [World.exec, hc, ite_self]
  refine Machine.ends_perform ?_ fun c r s' hc he => ?_
  · obtain ⟨r, s₁, he⟩ := effect_proceeds hfree hdraw {}
    exact ⟨{}, r, s₁.note (.did i op r), (hworks _).2 ⟨rfl, rfl⟩, by
      show World.exec i op {} s = _
      rw [hexec {} rfl, he]; rfl⟩
  · obtain ⟨hskip, hfine⟩ := (hworks c).1 hc
    obtain ⟨⟨r₁, s₁⟩, heff, heq⟩ := Option.map_eq_some_iff.1 ((hexec c hfine).symm.trans he)
    cases heq
    obtain ⟨a, rfl⟩ := effect_answers hins heff
    exact ⟨a, rfl, h c a s₁ hskip heff⟩

/-! ## Where the process is -/

theorem World.Calm.came (h : s.Calm i) : Came i s [] [] [] s :=
  ⟨rfl, by rw [List.append_nil], h.clean, h.free, List.suffix_refl _⟩

theorem publications_note (e : Entry) : (s.note e).publications =
    s.publications ++ (e.publication).toList := by
  simp only [publications, note, List.filterMap_cons]
  cases e.publication <;> simp

theorem World.Came.note (h : Came i s ws ms st s₁) {op : Op} {r : Except Exc (Res op)}
    (hpub : ∀ key body headers exp, op ≠ .publish key body headers exp) :
    Came i s ws ms st (s₁.note (.did i op r)) where
  db := h.db
  publications := by
    have hnone : (Entry.did i op r).publication = none := by
      cases op with
      | publish key body headers exp => exact absurd rfl (hpub key body headers exp)
      | _ => rfl
    rw [publications_note, hnone, h.publications, Option.toList_none, List.append_nil]
  staged := h.staged
  free := h.free
  log := h.log.trans (List.suffix_cons ..)

theorem World.Came.endTx (h : Came i s ws ms st s₁) : Came i s ws ms [] (s₁.endTx i) where
  db := h.db
  publications := h.publications
  staged := Function.update_self ..
  free l := (h.free l).releaseAll
  log := h.log

theorem World.Came.commit (h : Came i s ws ms st s₁) : Came i s (ws ++ st) ms [] (s₁.commit i) where
  db := by
    show s₁.db.writeAll (s₁.staged i) = _
    rw [h.staged, h.db, Tables.writeAll, Tables.writeAll, Tables.writeAll, List.foldl_append]
  publications := h.publications
  staged := Function.update_self ..
  free l := (h.free l).releaseAll
  log := h.log.trans (List.suffix_cons ..)

theorem World.Came.lockAndStage (h : Came i s ws ms st s₁) {ls : List Lock} {st' : List Write}
    (hs : s₁.lockAndStage i ls st' = some s') : Came i s ws ms (st ++ st') s' := by
  obtain ⟨locks, hl, rfl⟩ := Option.map_eq_some_iff.1 hs
  obtain ⟨-, hholds⟩ := Locks.acquireAll?_eq_some hl
  refine ⟨h.db, h.publications, ?_, fun l p hp he => ?_, h.log⟩
  · rw [← h.staged]
    exact Function.update_self ..
  · have hold : locks.Holds p.2 p.1 := hp
    rcases (hholds p.2 p.1).1 hold with hold | ⟨hi, -⟩
    · exact h.free l p hold he
    · exact hi

/-- **Reading the clock.** -/
theorem World.Came.now (h : Came i s ws ms st s₁) (hreads : ∃ t, reads t) :
    Returns py i reads (fun t s' => reads t ∧ Came i s ws ms st s' ∧
      s'.log = .did i .now (.ok t) :: s₁.log) (call .now) s₁ := by
  obtain ⟨t, ht⟩ := hreads
  refine Machine.ends_perform ⟨{ time := t }, _, _, ⟨rfl, rfl, ht⟩, rfl⟩ fun c r s' hc he => ?_
  cases he
  exact ⟨c.time, rfl, hc.2.2, h.note (by simp), rfl⟩

/-- **Committing.** -/
theorem World.Came.callCommit (h : Came i s ws ms st s₁) :
    Returns py i reads (fun _ s' => Came i s (ws ++ st) ms [] s') (call .commit) s₁ := by
  apply returns_call h.free rfl
  intro c t s' _ he
  cases he
  exact h.commit.note (by simp)

/-- **Updating rows** that are there. -/
theorem World.Came.updateOutbox (h : Came i s ws ms st s₁) {ids : List UUID} {patch : OutboxPatch}
    (hids : ∀ id ∈ ids, ((s₁.view i).outbox.find? id).isSome = true) :
    Returns py i reads
      (fun _ s' => Came i s ws ms (st ++ ids.map fun id => .updateOutbox id patch) s')
      (call (.updateOutbox ids patch)) s₁ := by
  apply returns_call h.free rfl
  intro c t s' _ he
  obtain ⟨s₂, hl, heq⟩ := Option.map_eq_some_iff.1 he
  cases heq
  rw [List.filter_eq_self.2 hids] at hl
  exact (h.lockAndStage hl).note (by simp)

end PaymentProcessing
