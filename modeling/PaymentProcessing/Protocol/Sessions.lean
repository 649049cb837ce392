import PaymentProcessing.Protocol.Permissions

/-!
# Transactions read off the histories

What a process has staged and locked follows from what it has performed since its transaction began.
So a program that reads payments only before it has staged anything reads the committed rows, and
one that may have to wait only at the start of a transaction never waits while it holds a lock.
-/

namespace PaymentProcessing

open Python Relational Concurrency World

variable {py : Platform} {A : Allowed} {i : Nat} {s s' : World} {y y' : Config} {h : History}
  {α β : Type}

/-! ## What histories show -/

/-- Operations that leave what is staged as it is. -/
def Op.isNeutral : Op → Bool
  | .commit | .rollback | .close | .insertPayment _ | .updatePayment _ | .addOutbox _
  | .updateOutbox .. | .deleteProcessed .. | .insertInbox _ | .insertCharge _ => false
  | _ => true

/-- Operations that neither stage nor lock anything. -/
def Op.isPlain : Op → Bool
  | .selectPaymentForUpdate _ | .selectClaimable .. => false
  | op => op.isNeutral

/-- Operations that end a transaction. -/
def Op.isEnd : Op → Bool
  | .commit | .rollback | .close => true
  | _ => false

/-- The one write that an operation stages when it is answered. -/
def Op.draft : Op → Option Write
  | .insertPayment row => some (.insertPayment row)
  | .updatePayment row => some (.updatePayment row)
  | .addOutbox row => some (.insertOutbox row)
  | _ => none

/-- The history shows that this is staged. -/
inductive Drafts : History → List Write → Prop where
  | start : Drafts [] []
  | ended {h : History} {op : Op} {r : Except Exc (Res op)} (hop : op = .rollback ∨ op = .close) :
    Drafts (⟨op, r⟩ :: h) []
  | committed {h : History} : Drafts (⟨.commit, .ok ()⟩ :: h) []
  | kept {h : History} {ws : List Write} {op : Op} {r : Except Exc (Res op)}
      (hop : op.isNeutral = true) (hw : Drafts h ws) : Drafts (⟨op, r⟩ :: h) ws
  | wrote {h : History} {ws : List Write} {op : Op} {a : Res op} {w : Write}
      (hop : op.draft = some w) (hw : Drafts h ws) : Drafts (⟨op, .ok a⟩ :: h) (ws ++ [w])

/-- The history shows that nothing is staged and nothing locked. -/
inductive Untouched : History → Prop where
  | start : Untouched []
  | ended {h : History} {op : Op} {r : Except Exc (Res op)} (hop : op = .rollback ∨ op = .close) :
    Untouched (⟨op, r⟩ :: h)
  | committed {h : History} : Untouched (⟨.commit, .ok ()⟩ :: h)
  | kept {h : History} {op : Op} {r : Except Exc (Res op)} (hop : op.isPlain = true)
      (hw : Untouched h) : Untouched (⟨op, r⟩ :: h)

/-- The history shows that this is locked. -/
inductive Locking : History → Lock → Prop where
  | payment {h : History} {id : UUID} {row : PaymentModel} :
    Locking (⟨.selectPaymentForUpdate id, .ok (some row)⟩ :: h) (.payment id)
  | claimed {h : History} {limit : Nat} {now staleBefore : Time} {rows : List OutboxModel}
      {row : OutboxModel} (hrow : row ∈ rows) :
    Locking (⟨.selectClaimable limit now staleBefore, .ok rows⟩ :: h) (.outbox row.id)
  | kept {h : History} {op : Op} {r : Except Exc (Res op)} {l : Lock} (hop : op.isEnd = false)
      (hl : Locking h l) : Locking (⟨op, r⟩ :: h) l

theorem neutral_of_plain {op : Op} (h : op.isPlain = true) : op.isNeutral = true := by
  cases op <;> first | rfl | cases h

theorem Untouched.drafts (h : Untouched h') : Drafts h' [] := by
  induction h with
  | start => exact .start
  | ended hop => exact .ended hop
  | committed => exact .committed
  | kept hop _ ih => exact .kept (neutral_of_plain hop) ih

/-! ## What operations leave -/

/-- Process `i` has no transaction: nothing is staged and nothing locked. -/
structure World.NoTransaction (i : Nat) (s : World) : Prop where
  staged : s.staged i = []
  locks : ∀ l, ¬ s.locks.Holds i l

theorem noTransaction_endTx : (s.endTx i).NoTransaction i :=
  ⟨Function.update_self .., fun l => by simp [endTx]⟩

theorem World.NoTransaction.rely (h : s.NoTransaction i) (hr : Rely i s s') : s'.NoTransaction i :=
  ⟨hr.staged.trans h.staged, fun l hl => h.locks l ((hr.locks l).1 hl)⟩

theorem exec_ended {op : Op} {c : Choice} {r : Except Exc (Res op)}
    (hop : op = .rollback ∨ op = .close) (h : World.exec i op c s = some (r, s')) :
    s'.NoTransaction i := by
  have hend : ∀ e, ((s.endTx i).note e).NoTransaction i := fun _ =>
    ⟨noTransaction_endTx.staged, noTransaction_endTx.locks⟩
  rcases hop with rfl | rfl
  all_goals
    rcases exec_cases h with ⟨s₁, he, rfl⟩ | ⟨f, r₁, s₁, he, -, -, rfl⟩ | ⟨f, -, -, rfl⟩
    · cases he
      exact hend _
    · cases he
      exact hend _
    · exact hend _

theorem exec_committed {c : Choice} (h : World.exec i .commit c s = some (.ok (), s')) :
    s'.NoTransaction i := by
  rcases exec_commit h with rfl | ⟨⟨f, hr⟩, -⟩
  · exact ⟨Function.update_self .., fun l => by simp [note, World.commit, endTx]⟩
  · cases hr

/-- What holds of every effect of an operation that does not end a transaction, and of the state
itself, holds of what it leaves. -/
theorem exec_effect {op : Op} {c : Choice} {r : Except Exc (Res op)} {G : World → Prop}
    (hop : op.isEnd = false) (h : World.exec i op c s = some (r, s'))
    (heffect : ∀ r₁ s₁, s.effect i c op = some (r₁, s₁) → G (s₁.note (.did i op r)))
    (hsame : G (s.note (.did i op r))) : G s' := by
  rcases exec_cases h with ⟨s₁, he, rfl⟩ | ⟨f, r₁, s₁, he, -, -, rfl⟩ | ⟨f, -, -, rfl⟩
  · exact heffect r s₁ he
  · exact heffect r₁ s₁ he
  · have hfail : s.fail i op = s := by
      unfold World.fail
      split
      · cases hop
      · cases hop
      · rfl
    rw [hfail]
    exact hsame

theorem end_of_neutral {op : Op} (h : op.isNeutral = true) : op.isEnd = false := by
  cases op <;> first | rfl | cases h

theorem exec_neutral {op : Op} {c : Choice} {r : Except Exc (Res op)} (hop : op.isNeutral = true)
    (h : World.exec i op c s = some (r, s')) : s'.staged i = s.staged i := by
  refine exec_effect (G := fun s' => s'.staged i = s.staged i) (end_of_neutral hop) h
    (fun r₁ s₁ he => ?_) rfl
  show s₁.staged i = s.staged i
  cases effect_cases he with
  | kept hs | issued u unused hs => subst hs; rfl
  | published key body headers expiration hp hs => subst hs; rfl
  | acked hp hs | rejected hp hs => subst hs; rfl
  | committed hp => subst hp; cases hop
  | ended hp => rcases hp with rfl | rfl <;> cases hop
  | staged ls ws hws hs =>
    have hnone : ws = [] := by
      apply List.eq_nil_iff_forall_not_mem.2
      intro w hw
      have hstages := hws w hw
      cases op <;> first | exact hstages | cases hop
    rw [(lockAndStage_spec hs).2.1, Function.update_self, hnone, List.append_nil]

theorem exec_wrote {op : Op} {c : Choice} {a : Res op} {w : Write} (hop : op.draft = some w)
    (h : World.exec i op c s = some (.ok a, s')) : s'.staged i = s.staged i ++ [w] := by
  obtain ⟨s₁, he, rfl⟩ := exec_ok h
  have hlock : ∀ {ls s₂}, s.lockAndStage i ls [w] = some s₂ → s₂.staged i = s.staged i ++ [w] := by
    intro ls s₂ hs
    rw [(lockAndStage_spec hs).2.1, Function.update_self]
  cases op with
  | insertPayment row =>
    cases hop
    obtain ⟨s₂, hs, hr⟩ := Option.map_eq_some_iff.1 he
    split at hr
    · cases hr
    · split at hr
      · cases hr
      · cases hr
        have hst : s₁.staged i = s.staged i ++ [_] := hlock hs
        exact hst
  | updatePayment row =>
    cases hop
    obtain ⟨s₂, hs, hr⟩ := Option.map_eq_some_iff.1 he
    cases hr
    have hst : s₁.staged i = s.staged i ++ [_] := hlock hs
    exact hst
  | addOutbox row =>
    cases hop
    cases he
    exact Function.update_self ..
  | _ => cases hop

theorem exec_plain {op : Op} {c : Choice} {r : Except Exc (Res op)} (hop : op.isPlain = true)
    (h : World.exec i op c s = some (r, s')) : s'.locks = s.locks := by
  refine exec_effect (G := fun s' => s'.locks = s.locks) (end_of_neutral (neutral_of_plain hop)) h
    (fun r₁ s₁ he => ?_) rfl
  show s₁.locks = s.locks
  cases op with
  | uuid4 =>
    simp only [effect] at he
    split at he
    · cases he; rfl
    · cases he
  | getPayment | selectPaymentByKey | countOutbox | getInbox | getCharge | now | random | sleep
  | log | publish | ack | reject | post => cases he; rfl
  | _ => cases hop

/-- Locks are given up at the end of the transaction only. -/
theorem exec_holds {op : Op} {c : Choice} {r : Except Exc (Res op)} {l : Lock}
    (hop : op.isEnd = false) (h : World.exec i op c s = some (r, s')) (hl : s.locks.Holds i l) :
    s'.locks.Holds i l := by
  refine exec_effect (G := fun s' => s'.locks.Holds i l) hop h (fun r₁ s₁ he => ?_) hl
  show s₁.locks.Holds i l
  cases effect_cases he with
  | kept hs | issued u unused hs => subst hs; exact hl
  | published key body headers expiration hp hs => subst hs; exact hl
  | acked hp hs | rejected hp hs => subst hs; exact hl
  | committed hp => subst hp; cases hop
  | ended hp => rcases hp with rfl | rfl <;> cases hop
  | staged ls ws hws hs => exact ((lockAndStage_spec hs).2.2.1 i l).2 (.inl hl)

/-! ## Runs -/

/-- Who does not run has no transaction. -/
theorem Reachable.noTransaction_of_not_running (hy : Reachable py A y) : ∀ i,
    (∀ k p, y.procs i ≠ .running k p) → y.state.NoTransaction i := by
  refine hy.invariant (P := fun y => ∀ i, (∀ k p, y.procs i ≠ .running k p) →
    y.state.NoTransaction i) (fun _ _ _ => ⟨rfl, Locks.not_holds_none _⟩) ?_
  intro y y' a hr _ hP _ hl i hi
  cases hl with
  | spawn j k s p _ _ hidle hs hy =>
    subst hy
    have hij : i ≠ j := by
      rintro rfl
      exact hi k p (Function.update_self ..)
    exact (hP i fun k' p' he => hi k' p' ((Function.update_of_ne hij _ _).trans he)).rely
      ((sound py).start_rely j i k _ _ p hr.inv hidle hs hij)
  | run j c k op f r s _ _ hreq hs hy =>
    subst hy
    have hij : i ≠ j := by
      rintro rfl
      exact hi k (f r) (Function.update_self ..)
    exact (hP i fun k' p' he => hi k' p' ((Function.update_of_ne hij _ _).trans he)).rely
      ((sound py).exec_rely j i op r _ _ hr.inv hreq ⟨c, hs⟩ hij)
  | kill j k p _ hj hy =>
    subst hy
    by_cases hij : i = j
    · subst hij
      exact noTransaction_endTx
    · exact (hP i fun k' p' he => hi k' p' ((Function.update_of_ne hij _ _).trans he)).rely
        ((sound py).halt_rely j i _ hr.inv hij)
  | env e s _ hs hy =>
    subst hy
    exact (hP i hi).rely ((sound py).env_rely e i _ _ hr.inv hs)

/-- **What the history of a running process shows holds of it**, if each operation makes it so and
the others leave it so. -/
theorem Reachable.shown {ι : Type} {D : History → ι → Prop} {G : Nat → ι → World → Prop}
    (hy : Reachable py A y)
    (hstart : ∀ i x s, s.NoTransaction i → D [] x → G i x s)
    (hexec : ∀ i op c r s s' h x, World.exec i op c s = some (r, s') → (∀ x, D h x → G i x s) →
      D (⟨op, r⟩ :: h) x → G i x s')
    (hrely : ∀ i x s s', Rely i s s' → G i x s → G i x s') :
    ∀ i k p, y.procs i = .running k p → ∀ x, D (y.state.history i) x → G i x y.state := by
  refine hy.invariant (P := fun y => ∀ i k p, y.procs i = .running k p →
    ∀ x, D (y.state.history i) x → G i x y.state) (fun _ _ _ _ hi => by cases hi) ?_
  intro y y' a hr _ hP _ hl i k p hi x hd
  cases hl with
  | spawn j k' s p' _ hj hidle hs hy =>
    subst hy
    rw [(recorded py).start hs i] at hd
    by_cases hij : i = j
    · subst hij
      rw [history_of_own hidle.1] at hd
      have hlocks : s.locks = y.state.locks := by
        cases k' with
        | dispatch n =>
          obtain ⟨⟨msg, b⟩, -, he⟩ := Option.map_eq_some_iff.1 hs
          cases he
          rfl
        | _ => cases hs; rfl
      have hnone := hr.noTransaction_of_not_running i fun k p he => by rw [hj] at he; cases he
      refine hstart i x s ⟨(congrFun (start_staged hs) i).trans hidle.2, fun l => ?_⟩ hd
      rw [hlocks]
      exact hnone.locks l
    · have hold := (Function.update_of_ne hij _ _).symm.trans hi
      exact hrely i x _ _ ((sound py).start_rely j i k' _ _ p' hr.inv hidle hs hij)
        (hP i k p hold x hd)
  | run j c k' op f r s _ hj hreq hs hy =>
    subst hy
    by_cases hij : i = j
    · subst hij
      rw [(recorded py).exec hs] at hd
      exact hexec i op c r _ _ _ x hs (hP i k' _ hj) hd
    · have hold := (Function.update_of_ne hij _ _).symm.trans hi
      rw [(recorded py).others hs hij] at hd
      exact hrely i x _ _ ((sound py).exec_rely j i op r _ _ hr.inv hreq ⟨c, hs⟩ hij)
        (hP i k p hold x hd)
  | kill j k' p' _ hj hy =>
    subst hy
    by_cases hij : i = j
    · subst hij
      cases (Function.update_self i _ _).symm.trans hi
    · have hold := (Function.update_of_ne hij _ _).symm.trans hi
      exact hrely i x _ _ ((sound py).halt_rely j i _ hr.inv hij) (hP i k p hold x hd)
  | env e s _ hs hy =>
    subst hy
    rw [(recorded py).env hs i] at hd
    exact hrely i x _ _ ((sound py).env_rely e i _ _ hr.inv hs) (hP i k p hi x hd)

/-- **What the history of a running process shows is staged.** -/
theorem Reachable.drafts (hy : Reachable py A y) : ∀ i k p, y.procs i = .running k p →
    ∀ ws, Drafts (y.state.history i) ws → y.state.staged i = ws := by
  refine hy.shown (G := fun i ws s => s.staged i = ws) ?_ ?_ ?_
  · intro i ws s hnone hd
    cases hd
    exact hnone.staged
  · intro i op c r s s' h ws he hold hd
    cases hd with
    | ended hop => exact (exec_ended hop he).staged
    | committed => exact (exec_committed he).staged
    | kept hop hw => rw [exec_neutral hop he]; exact hold _ hw
    | wrote hop hw => rw [exec_wrote hop he, hold _ hw]
  · intro i ws s s' hrely hst
    rw [hrely.staged]
    exact hst

/-- **A running process whose history shows no transaction has none.** -/
theorem Reachable.noTransaction (hy : Reachable py A y) {k : Kind} {p : App Reply}
    (hi : y.procs i = .running k p) (hd : Untouched (y.state.history i)) :
    y.state.NoTransaction i := by
  refine hy.shown (D := fun h (_ : Unit) => Untouched h) (G := fun i _ s => s.NoTransaction i)
    (fun _ _ _ hnone _ => hnone) ?_ (fun _ _ _ _ hrely hnone => hnone.rely hrely) i k p hi () hd
  intro i op c r s s' h _ he hold hd
  cases hd with
  | ended hop => exact exec_ended hop he
  | committed => exact exec_committed he
  | kept hop hw =>
    refine ⟨(exec_neutral (neutral_of_plain hop) he).trans (hold () hw).staged, fun l => ?_⟩
    rw [exec_plain hop he]
    exact (hold () hw).locks l

/-- **What the history of a running process shows is locked.** -/
theorem Reachable.locking (hy : Reachable py A y) : ∀ i k p, y.procs i = .running k p →
    ∀ l, Locking (y.state.history i) l → y.state.locks.Holds i l := by
  refine hy.shown (G := fun i l s => s.locks.Holds i l) (fun _ _ _ _ hd => by cases hd) ?_ ?_
  · intro i op c r s s' h l he hold hd
    cases hd with
    | payment =>
      obtain ⟨s₁, heff, rfl⟩ := exec_ok he
      simp only [effect] at heff
      split at heff
      · cases heff
      · obtain ⟨s₂, hs, hr⟩ := Option.map_eq_some_iff.1 heff
        cases hr
        exact ((lockAndStage_spec hs).2.2.1 i _).2 (.inr ⟨rfl, List.mem_singleton_self _⟩)
    | claimed hrow =>
      obtain ⟨s₁, heff, rfl⟩ := exec_ok he
      obtain ⟨s₂, hs, hr⟩ := Option.map_eq_some_iff.1 heff
      cases hr
      exact ((lockAndStage_spec hs).2.2.1 i _).2 (.inr ⟨rfl, List.mem_map.2 ⟨_, hrow, rfl⟩⟩)
    | kept hop hl => exact exec_holds hop he (hold _ hl)
  · exact fun i l s s' hrely hl => (hrely.locks l).2 hl

end PaymentProcessing
