import PaymentProcessing.Concurrency.Accounting
import PaymentProcessing.Guarantees.Outbox
import PaymentProcessing.Protocol.Budgets

/-!
# The work is bounded

Every process performs a bounded number of operations, whatever they answer and whatever the others
do, and the system comes to rest when no more processes are started.
-/

namespace PaymentProcessing

open Python Relational Concurrency World

variable {py : Platform} {A : Allowed} {i : Nat} {s s' : World} {y y' : Config} {k : Kind}
  {acts : List (Action Choice Kind Env)}

/-! ## One process -/

/-- The operations that a process of this kind may perform. -/
def Kind.work : Kind → Nat
  | .createPayment _ => 11
  | .getPayment _ => 3
  | .charge _ => 11
  | .processPayment .. => 30
  | .publishOutbox worker => 15 + 14 * worker.batchSize
  | .dispatch _ => 32

/-- **A process starts with a program within its budget.** -/
theorem start_costs {p : App Reply} (hs : World.start py i k s = some (s', p)) :
    Costs p k.work := by
  cases k with
  | createPayment command =>
    cases hs
    exact costs_bind (costs_createPayment command) (Nat.le_refl _) fun _ => trivial
  | getPayment id =>
    cases hs
    exact costs_bind (costs_getPayment id) (Nat.le_refl _) fun _ => trivial
  | charge payment =>
    cases hs
    exact costs_bind (costs_gateway payment) (Nat.le_refl _) fun _ => trivial
  | processPayment id messageId =>
    cases hs
    exact costs_bind (costs_processPayment id messageId) (Nat.le_refl _) fun _ => trivial
  | publishOutbox worker =>
    cases hs
    exact costs_bind (costs_publishOutbox worker) (Nat.le_refl _) fun _ => trivial
  | dispatch n =>
    obtain ⟨⟨msg, b⟩, -, he⟩ := Option.map_eq_some_iff.1 hs
    cases he
    exact costs_bind (costs_dispatch msg) (Nat.le_refl _) fun _ => trivial

theorem exec_batched {op : Op} {c : Choice} {r : Except Exc (Res op)}
    (he : World.exec i op c s = some (r, s')) : op.Batched r := by
  cases op with
  | selectClaimable limit now staleBefore =>
    cases r with
    | error e => trivial
    | ok rows =>
      obtain ⟨s₁, heff, -⟩ := exec_ok he
      obtain ⟨s₂, -, hr⟩ := Option.map_eq_some_iff.1 heff
      cases hr
      exact List.length_take_le _ _
  | _ => cases r <;> trivial

/-- **The history of a process** is within the budget of its kind. -/
theorem Reachable.history_le (hy : Reachable py A y) (hk : y.state.Logged (.started i k)) :
    (y.state.history i).length ≤ k.work := by
  have hkeeps : KeepsAlong (fun _ => Op.Batched) (fun h _ => h.length < k.work)
      (fun h _ => h.length ≤ k.work) i y := by
    refine hy.keeps_started hk ?_ ?_
    · intro s s' p hs
      exact (start_costs hs).along (Nat.le_of_eq (Nat.zero_add _))
    · intro _ _ _ _ _ _ _ _ _ _ he _
      exact exec_batched he
  exact hkeeps.obeyed.length_le

/-! ## All processes -/

/-- The operations that an entry stands for. -/
def Entry.performs : Entry → Nat
  | .did .. => 1
  | _ => 0

/-- The operations that an entry gives leave for. -/
def Entry.permits : Entry → Nat
  | .started _ k => k.work
  | _ => 0

namespace World

/-- How many operations have been performed. -/
def performed (s : World) : Nat := (s.log.map Entry.performs).sum

/-- How many operations the processes that were started may perform. -/
def permitted (s : World) : Nat := (s.log.map Entry.permits).sum

end World

theorem length_history (s : World) (i : Nat) :
    (s.history i).length = ((s.own i).map Entry.performs).sum := by
  rw [World.history, World.own]
  induction s.log with
  | nil => rfl
  | cons e log ih =>
    by_cases hprocess : e.process = i
    · rw [List.filter_cons_of_pos (by simpa using hprocess), List.map_cons, List.sum_cons, ← ih]
      cases e with
      | did j op r =>
        rw [List.filterMap_cons_some (performed_eq_some.2 (by rw [← hprocess]; rfl)),
          List.length_cons, Entry.performs, Nat.add_comm]
      | _ =>
        rw [List.filterMap_cons_none rfl]
        exact (Nat.zero_add _).symm
    · rw [List.filter_cons_of_neg (by simpa using hprocess), ← ih,
        List.filterMap_cons_none (performed_of_process hprocess)]

/-- **Nothing is performed beyond what was permitted.** -/
theorem Reachable.performed_le (hy : Reachable py A y) :
    y.state.performed ≤ y.state.permitted := by
  refine sum_le_of_parts Entry.process _ _ (Nat.le_refl _) ?_
  intro i
  have hown : ((y.state.own i).map Entry.performs).sum ≤
      ((y.state.own i).map Entry.permits).sum := by
    rw [← length_history]
    cases hh : y.state.history i with
    | nil => exact Nat.zero_le _
    | cons x h =>
      have hdid : y.state.Did i x.1 x.2 :=
        mem_history.1 (by rw [hh]; exact List.mem_cons_self ..)
      obtain ⟨k, hk⟩ : y.state.Started i := hy.inv.active _ hdid
      have hwork := hy.history_le hk
      rw [hh] at hwork
      exact hwork.trans (List.single_le_sum (by simp) _
        (List.mem_map.2 ⟨_, mem_own.2 ⟨hk, rfl⟩, rfl⟩))
  exact hown

/-! ## Runs -/

/-- The action starts no process. -/
def startsNone : Action Choice Kind Env → Bool
  | .spawn .. => false
  | _ => true

/-- The action is an operation of a process. -/
def isOperation : Action Choice Kind Env → Bool
  | .run .. => true
  | _ => false

/-- An action that starts no process permits nothing; one that is an operation is counted. -/
theorem Legit.counts {a : Action Choice Kind Env} (h : Legit py a y y')
    (ha : startsNone a = true) : y'.state.permitted = y.state.permitted ∧
      y'.state.performed = y.state.performed + if isOperation a then 1 else 0 := by
  cases h with
  | spawn i k s p ha' => subst ha'; cases ha
  | run i c k op p r s ha' hi hreq hs hy =>
    subst ha' hy
    obtain ⟨l, hl, hcommitted⟩ := exec_log hs
    have hnone : (l.map Entry.performs).sum = 0 ∧ (l.map Entry.permits).sum = 0 := by
      constructor <;>
      · refine List.sum_eq_zero ?_
        intro n hn
        obtain ⟨e, he, rfl⟩ := List.mem_map.1 hn
        rw [(hcommitted e he).2]
        rfl
    simp only [World.permitted, World.performed, hl, List.map_cons, List.map_append, List.sum_cons,
      List.sum_append, hnone, Entry.performs, Entry.permits, isOperation, if_true]
    omega
  | kill i k p ha' hi hy => subst ha' hy; exact ⟨rfl, rfl⟩
  | env e s ha' hs hy =>
    subst ha' hy
    rw [World.permitted, World.performed, env_log hs]
    exact ⟨rfl, rfl⟩

/-- **A run that starts no process** performs no more than what is left. -/
theorem Reachable.counts (hy : Reachable py anyAction y)
    (hacts : ∀ a ∈ acts, startsNone a = true)
    (hrun : (machine py).runActions acts y = some y') :
    acts.countP isOperation + y.state.performed ≤ y.state.permitted := by
  induction acts generalizing y with
  | nil =>
    rw [List.countP_nil, Nat.zero_add]
    exact hy.performed_le
  | cons a acts ih =>
    obtain ⟨y₁, hstep, hrest⟩ := Option.bind_eq_some_iff.1 hrun
    have hy₁ : Reachable py anyAction y₁ := hy.steps (.step _ .refl trivial hstep)
    have hlegit : Legit py a y y₁ := hy.good.legit (sound py) hstep
    obtain ⟨hpermitted, hperformed⟩ := hlegit.counts (hacts a (List.mem_cons_self ..))
    have hbound := ih hy₁ (fun a ha => hacts a (List.mem_cons_of_mem _ ha)) hrest
    rw [hpermitted, hperformed] at hbound
    rw [List.countP_cons]
    omega

/-- **The work is bounded, and the system comes to rest.** Whatever fails, is killed, overlaps or is
delivered again: no process performs more operations than its kind permits; and from any reachable
configuration, as long as no process is started, only so many operations are performed as the
processes that were started have left. -/
theorem work_bounded (h : Reachable py anyAction y) :
    (∀ i k, y.state.Logged (.started i k) → (y.state.history i).length ≤ k.work) ∧
    ∀ acts y', (∀ a ∈ acts, startsNone a = true) → (machine py).runActions acts y = some y' →
      acts.countP isOperation + y.state.performed ≤ y.state.permitted :=
  ⟨fun _ _ hk => h.history_le hk, fun _ _ hacts hrun => h.counts hacts hrun⟩

/-- The sample payment is created, and a relay has claimed its event. -/
def claimedRun : List (Action Choice Kind Env) :=
  creates 0 (UUID.ofNat 1) (UUID.ofNat 2) ++ claimsAt 1 0

theorem work_bounded_sample : ∃ y y', (machine samplePlatform).runActions claimedRun
    (Config.init 0) = some y ∧ (machine samplePlatform).runActions (performs 1 4) y = some y' ∧
      (∀ i k, y.state.Logged (.started i k) → (y.state.history i).length ≤ k.work) ∧
      (performs 1 4).countP isOperation + y.state.performed ≤ y.state.permitted := by
  obtain ⟨y, hy, hrest⟩ : ∃ y, (machine samplePlatform).runActions claimedRun
      (Config.init 0) = some y ∧
        ((machine samplePlatform).runActions (performs 1 4) y).isSome = true := by
    have hrun : ((machine samplePlatform).runActions claimedRun (Config.init 0)).any (fun y =>
        ((machine samplePlatform).runActions (performs 1 4) y).isSome) = true := by
      decide +kernel
    exact (Option.any_eq_true _ _).1 hrun
  obtain ⟨y', hy'⟩ := Option.isSome_iff_exists.1 hrest
  have hr : Reachable samplePlatform anyAction y :=
    reachable_of_run (Machine.AllowedActions.any (fun _ _ => trivial) ..) hy
  obtain ⟨hwork, hrest⟩ := work_bounded hr
  exact ⟨y, y', hy, hy', hwork, hrest _ y' (by decide) hy'⟩

end PaymentProcessing
