import PaymentProcessing.Concurrency.History
import PaymentProcessing.Protocol.Queues
import PaymentProcessing.Protocol.Undisturbed

/-!
# Histories of processes

The log records what every process has performed, so what is proved along a program holds of the
history of every process that runs it, at any point of any run.
-/

namespace PaymentProcessing

open Python Relational Concurrency World

variable {py : Platform} {A : Allowed} {i j : Nat} {s s' : World} {y y' : Config}
  {a : Action Choice Kind Env} {k : Kind} {msg : Message}

/-- **The log records the histories.** -/
theorem recorded (py : Platform) : (machine py).Recorded World.history where
  exec h := exec_history h
  others {i j op c r s s'} h hj := by
    obtain ⟨l, hl, he⟩ := exec_log h
    refine history_append (l := .did i op r :: l) hl fun e hm op' r' hd => ?_
    rcases List.mem_cons.1 hm with rfl | hm
    · cases hd
      exact hj rfl
    · cases (he e hm).2.symm.trans hd
  start h j := by
    obtain ⟨l, hl, he⟩ := start_log h
    refine history_append hl fun e hm op r hd => ?_
    rcases he e hm with rfl | ⟨msg, rfl⟩ <;> cases hd
  halt _ _ _ := rfl
  env h j := history_append (l := []) (env_log h) fun _ hm => by cases hm

/-- A process that has not started has performed nothing. -/
theorem history_of_own (h : s.own i = []) : s.history i = [] := by
  rw [history_eq_own, h]
  rfl

/-- What a program does with its history, for the processes of a run. -/
abbrev KeepsAlong (ψ : History → (op : Op) → Except Exc (Res op) → Prop)
    (φ : History → Op → Prop) (Q : History → Except Exc Reply → Prop) (i : Nat) (y : Config) :
    Prop :=
  Machine.Keeps World.history ψ φ Q i y

variable {ψ : History → (op : Op) → Except Exc (Res op) → Prop} {φ : History → Op → Prop}
  {Q : History → Except Exc Reply → Prop}

/-- What holds along the program that a process starts with holds of it from then on. `T` says that
the process has started so, and `ψ` what its operations answer. -/
theorem Reachable.keeps {T : World → Prop} (h : Reachable py A y) (ht : T y.state)
    (hinit : ∀ clock, ¬ T (World.init clock))
    (hstart : ∀ y y' a, Reachable py A y → Legit py a y y' → T y'.state → T y.state ∨
      ∃ k s p, y.procs i = .idle ∧ World.start py i k y.state = some (s, p) ∧
        y' = ⟨s, Function.update y.procs i (.running k p)⟩ ∧ p.Along ψ φ Q [])
    (hlogged : ∀ s, T s → s.own i ≠ [])
    (hψ : ∀ y k op f c r s, Reachable py A y → T y.state → y.procs i = .running k (.call op f) →
      World.exec i op c y.state = some (r, s) → φ (y.state.history i) op →
        ψ (y.state.history i) op r) : KeepsAlong ψ φ Q i y := by
  obtain ⟨clock, hsteps⟩ := h
  revert ht
  refine hsteps.invariant (P := fun y => T y.state → KeepsAlong ψ φ Q i y)
    (fun ht => absurd ht (hinit clock)) ?_
  intro y y' a hy hP ha hs ht
  have hr : Reachable py A y := ⟨clock, hy⟩
  rcases hstart y y' a hr (hr.good.legit (sound py) hs) ht with hold | ⟨k, s, p, hidle, hst, hy', hp⟩
  · have hidle : y.procs i ≠ .idle := fun hidle => hlogged _ hold (hr.good.idle i hidle).1
    exact (hP hold).step (recorded py) hidle hs fun k op f c r s hi hex hop =>
      hψ y k op f c r s hr hold hi hex hop
  · subst hy'
    exact .spawn (recorded py) (history_of_own (hr.good.idle i hidle).1) hst hp

/-- **A consumer** does with its message what its program says. -/
theorem Reachable.keeps_dispatch (h : Reachable py A y) (hd : y.state.Logged (.delivered i msg))
    (hp : Prog.Along ψ φ Q (do PaymentMessageDispatcher.dispatch py msg; return .done) [])
    (hψ : ∀ y k op f c r s, Reachable py A y → y.state.Logged (.delivered i msg) →
      y.procs i = .running k (.call op f) → World.exec i op c y.state = some (r, s) →
        φ (y.state.history i) op → ψ (y.state.history i) op r) : KeepsAlong ψ φ Q i y := by
  refine h.keeps (T := fun s => s.Logged (.delivered i msg)) hd (fun _ hm => by cases hm) ?_
    (fun s hm he => not_logged_of_own he hm rfl) hψ
  intro y y' a hr hl hd
  refine (hl.logged hd).imp_right fun hadds => ?_
  cases hadds with
  | delivered _ k p _ ha idle clean hs =>
    subst ha
    cases hl with
    | spawn j k' s p' ha hi _ hs' hy' =>
      cases ha
      subst hy'
      obtain ⟨n, b, -, -, rfl⟩ := start_dispatch hs' clean.1 hd
      exact ⟨k, s, _, idle, hs', rfl, hp⟩
    | run _ _ _ _ _ _ _ ha | kill _ _ _ ha | env _ _ ha => cases ha

/-- **A process that gets no message** does what its program says. -/
theorem Reachable.keeps_started (h : Reachable py A y) (hk : y.state.Logged (.started i k))
    (hp : ∀ s s' p, World.start py i k s = some (s', p) → p.Along ψ φ Q [])
    (hψ : ∀ y k' op f c r s, Reachable py A y → y.state.Logged (.started i k) →
      y.procs i = .running k' (.call op f) → World.exec i op c y.state = some (r, s) →
        φ (y.state.history i) op → ψ (y.state.history i) op r) : KeepsAlong ψ φ Q i y := by
  refine h.keeps (T := fun s => s.Logged (.started i k)) hk (fun _ hm => by cases hm) ?_
    (fun s hm he => not_logged_of_own he hm rfl) hψ
  intro y y' a hr hl hk
  refine (hl.logged hk).imp_right fun hadds => ?_
  cases hadds with
  | started _ _ p ha idle clean hs =>
    subst ha
    cases hl with
    | spawn j k' s p' ha hi _ hs' hy' =>
      cases ha
      subst hy'
      exact ⟨k, s, _, idle, hs', rfl, hp _ _ _ hs'⟩
    | run _ _ _ _ _ _ _ ha | kill _ _ _ ha | env _ _ ha => cases ha

/-! ## What was written -/

/-- Process `i` has performed an operation that writes this. -/
def World.Wrote (i : Nat) (w : Write) (s : World) : Prop := ∃ op r, s.Did i op r ∧ op.Stages w

instance (w : Write) : (discipline py).Persistent (World.Wrote i w) :=
  inferInstanceAs ((discipline py).Persistent fun s => ∃ op r, s.Did i op r ∧ op.Stages w)

theorem endTx_staged (s : World) (i j : Nat) :
    (s.endTx j).staged i = if i = j then [] else s.staged i :=
  Function.update_apply ..

theorem exec_stages {op : Op} {r : Except Exc (Res op)} {c : Choice} {w : Write}
    (h : World.exec i op c s = some (r, s')) (hw : w ∈ s'.staged i) :
    w ∈ s.staged i ∨ op.Stages w := by
  have heffect : ∀ r₁ s₁, s.effect i c op = some (r₁, s₁) → w ∈ s₁.staged i →
      w ∈ s.staged i ∨ op.Stages w := by
    intro r₁ s₁ he hw
    cases effect_cases he with
    | kept hs | issued u unused hs => subst hs; exact .inl hw
    | published key body headers expiration hop hs => subst hs; exact .inl hw
    | acked hop hs | rejected hop hs => subst hs; exact .inl hw
    | committed hop hs =>
      subst hs
      rw [World.commit, endTx_staged, if_pos rfl] at hw
      cases hw
    | ended hop hs =>
      subst hs
      rw [endTx_staged, if_pos rfl] at hw
      cases hw
    | staged ls ws hws hs =>
      rw [(lockAndStage_spec hs).2.1, Function.update_self, List.mem_append] at hw
      exact hw.imp_right (hws w)
  rcases exec_cases h with ⟨s₁, he, rfl⟩ | ⟨f, r₁, s₁, he, -, -, rfl⟩ | ⟨f, -, -, rfl⟩
  · exact heffect r s₁ he hw
  · exact heffect r₁ s₁ he hw
  · -- what it was about to do has not happened; a transaction may be lost
    have hfail : w ∈ (s.fail i op).staged i → w ∈ s.staged i := by
      intro hw
      unfold World.fail at hw
      split at hw
      · rw [endTx_staged, if_pos rfl] at hw
        cases hw
      · rw [endTx_staged, if_pos rfl] at hw
        cases hw
      · exact hw
    exact .inl (hfail hw)

theorem start_staged {s s' : World} {p : App Reply} (h : World.start py i k s = some (s', p)) :
    s'.staged = s.staged := by
  cases k with
  | dispatch n =>
    obtain ⟨⟨m, b⟩, -, he⟩ := Option.map_eq_some_iff.1 h
    cases he
    rfl
  | _ => cases h; rfl

theorem env_staged {e : Env} (h : World.env e s = some s') : s'.staged = s.staged := by
  cases e with
  | tick d => cases h; rfl
  | requeue j => cases h; rfl
  | expire n =>
    obtain ⟨b, -, rfl⟩ := Option.map_eq_some_iff.1 h
    rfl

/-- What a process has staged was staged before, or it has just performed it. -/
theorem Legit.staged (h : Legit py a y y') {w : Write} (hw : w ∈ y'.state.staged i) :
    w ∈ y.state.staged i ∨ y'.state.Wrote i w := by
  cases h with
  | spawn j k s p _ _ _ hs hy =>
    subst hy
    rw [start_staged hs] at hw
    exact .inl hw
  | run j c k op f r s _ _ _ hs hy =>
    subst hy
    by_cases hij : i = j
    · subst hij
      refine (exec_stages hs hw).imp_right fun hop => ⟨op, r, ?_, hop⟩
      obtain ⟨l, hlog, -⟩ := exec_log hs
      rw [Did, Logged, hlog]
      exact List.mem_cons_self ..
    · rw [exec_others hs hij] at hw
      exact .inl hw
  | kill j k p _ _ hy =>
    subst hy
    have hended : w ∈ (y.state.endTx j).staged i := hw
    rw [endTx_staged] at hended
    split at hended
    · cases hended
    · exact .inl hended
  | env e s _ hs hy =>
    subst hy
    rw [env_staged hs] at hw
    exact .inl hw

/-- **What a process has staged or committed, it has performed.** -/
theorem written (h : Reachable py A y) : ∀ i w, (w ∈ y.state.staged i → y.state.Wrote i w) ∧
    ∀ ws, y.state.Logged (.committed i ws) → w ∈ ws → y.state.Wrote i w := by
  refine h.invariant (P := fun y => ∀ i w, (w ∈ y.state.staged i → y.state.Wrote i w) ∧
    ∀ ws, y.state.Logged (.committed i ws) → w ∈ ws → y.state.Wrote i w)
    (fun _ _ _ => ⟨(fun hw => by cases hw), fun _ hw => by cases hw⟩) ?_
  intro y y' a hr _ hP _ hl i w
  have hold : y.state.Wrote i w → y'.state.Wrote i w := fun hw => hl.persistent hr hw
  refine ⟨fun hw => ?_, fun ws hws hw => ?_⟩
  · rcases hl.staged hw with hw | hw
    · exact hold ((hP i w).1 hw)
    · exact hw
  · rcases hl.committed hws with hws | ⟨-, hst, -, -⟩
    · exact hold ((hP i w).2 ws hws hw)
    · subst hst
      exact hold ((hP i w).1 hw)

end PaymentProcessing
