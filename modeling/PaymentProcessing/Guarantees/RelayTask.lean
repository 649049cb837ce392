import PaymentProcessing.Presentation.WorkerLoop

/-!
# One relay task at a time

A stop that is resumed clears the handle, whichever task it refers to by then. As long as no stop
is resumed after a start has replaced its task by one that still runs, the handle refers to the
only task that runs.
-/

namespace PaymentProcessing

open Python Concurrency

variable {relay : OutboxRelay} {s s' : RelayLoop} {a : LoopAction} {k t u : Nat}

namespace RelayLoop

/-! ## Tasks -/

/-- The task is not finished. -/
def Running (s : RelayLoop) (t : Nat) : Prop := ∃ task, s.tasks[t]? = some task ∧ task.isDone = false

/-- An execution of the task is in flight. -/
def Publishing (s : RelayLoop) (t : Nat) : Prop :=
  ∃ task, s.tasks[t]? = some task ∧ task.isPublishing = true

theorem Publishing.running (h : s.Publishing t) : s.Running t := by
  obtain ⟨task, ht, hp⟩ := h
  refine ⟨task, ht, ?_⟩
  cases task with
  | done outcome => cases hp
  | created | suspended => rfl

theorem Running.not_done (h : s.Running t) : s.isDone t = false := by
  obtain ⟨task, ht, hd⟩ := h
  rw [isDone, ht]
  exact hd

theorem isDone_done {outcome : Except Exc Unit} (h : s.tasks[t]? = some (.done outcome)) :
    s.isDone t = true := by
  rw [isDone, h]
  rfl

theorem not_running_of_done {outcome : Except Exc Unit} (h : s.tasks[t]? = some (.done outcome)) :
    ¬ s.Running t := by
  rintro ⟨task, ht, hd⟩
  cases h.symm.trans ht
  cases hd

theorem running_congr (h : s'.tasks = s.tasks) : s'.Running t ↔ s.Running t := by
  rw [Running, Running, h]

theorem publishing_congr (h : s'.tasks = s.tasks) : s'.Publishing t ↔ s.Publishing t := by
  rw [Publishing, Publishing, h]

/-! ## Steps -/

@[simp] theorem setCall_tasks (call : StopCall) : (s.setCall k call).tasks = s.tasks := rfl

@[simp] theorem setCall_task (call : StopCall) : (s.setCall k call).task = s.task := rfl

@[simp] theorem setCall_stop (call : StopCall) : (s.setCall k call).stop = s.stop := rfl

theorem setCall_calls (call : StopCall) (j : Nat) :
    (s.setCall k call).calls j = if j = k then some call else s.calls j := by
  unfold setCall
  by_cases hj : j = k
  · subst hj
    simp
  · simp [hj]

/-- What `_join` does when its task has ended. -/
theorem join_cases (s : RelayLoop) (k t : Nat) (outcome : Except Exc Unit)
    (cancelling mustCancel : Bool) : ∃ call, s.join k t outcome cancelling mustCancel =
      RelayLoop.setCall { s with task := none } k call ∧ ∀ current, call = .returned current →
        current = some t := by
  unfold join
  dsimp only
  split
  · exact ⟨_, rfl, fun current h => by cases h; rfl⟩
  · split
    · exact ⟨_, rfl, fun current h => by cases h⟩
    · exact ⟨_, rfl, fun current h => by cases h; rfl⟩
  · exact ⟨_, rfl, fun current h => by cases h⟩

/-- **What a step does.** -/
inductive StepCases (relay : OutboxRelay) (a : LoopAction) (s s' : RelayLoop) : Prop where
  /-- `start` finds a task that is not finished. -/
  | busy (hs : s' = s)
  /-- `start` creates a task. -/
  | started (ha : a = .start) (free : ∀ t, s.task = some t → s.isDone t = true)
      (hs : s' = { s with
        stop := false, task := some s.tasks.length, tasks := s.tasks ++ [.created] })
  /-- A call of `stop` begins, or is cancelled. -/
  | called (k : Nat) (call : StopCall) (stop : Bool)
      (hs : s' = RelayLoop.setCall { s with stop := stop } k call)
      (hcall : ∀ current, call = .returned current → current = none ∧ s.task = none)
      (hjoin : ∀ t cancelling mustCancel, call = .joining t cancelling mustCancel →
        s.task = some t ∨ ∃ c m, s.calls k = some (.joining t c m))
  /-- A call of `stop` ends, its task is finished. -/
  | joined (k t : Nat) (outcome : Except Exc Unit) (call : StopCall) (stop : Bool)
      (hdone : s.tasks[t]? = some (.done outcome)) (ha : s.task = some t ∨ a = .resumeStop k)
      (hs : s' = RelayLoop.setCall { s with stop := stop, task := none } k call)
      (hcall : ∀ current, call = .returned current → current = some t)
  /-- A task has a turn. -/
  | ran (t : Nat) (task : WorkerTask) (at' : Option RelayAwait) (wake : Wake) (turn : Turn)
      (backoff : ExponentialBackoff) (htask : s.tasks[t]? = some task) (hrun : task.isDone = false)
      (hturn : relay.resume s.backoff s.stop at' wake = some (turn, backoff))
      (hs : s' = { s with backoff := backoff, tasks := s.tasks.set t (turnTask turn) })

theorem step_cases (h : step relay a s = some s') : StepCases relay a s s' := by
  cases a with
  | start =>
    cases h
    unfold start
    split
    · exact .busy rfl
    · rename_i hfree
      refine .started rfl (fun t ht => ?_) rfl
      simpa [ht] using hfree
  | stop k cancelling =>
    simp only [step] at h
    split at h
    · cases h
      unfold stopCall
      dsimp only
      split
      · rename_i hnone
        exact .called k _ true rfl (fun current hc => by cases hc; exact ⟨rfl, hnone⟩)
          fun t c m hc => by cases hc
      · rename_i t htask
        split
        · rename_i outcome hdone
          obtain ⟨call, hs, hcall⟩ := join_cases { s with stop := true } k t outcome cancelling false
          exact .joined k t outcome call true hdone (.inl htask) hs hcall
        · exact .called k _ true rfl (fun current hc => by cases hc)
            fun t' c m hc => by cases hc; exact .inl htask
    · cases h
  | cancelStop k =>
    simp only [step] at h
    split at h
    · rename_i t cancelling mustCancel hcalls
      cases h
      exact .called k _ s.stop rfl (fun current hc => by cases hc)
        fun t' c m hc => by cases hc; exact .inr ⟨_, _, hcalls⟩
    · cases h
  | resumeStop k =>
    simp only [step] at h
    split at h
    · rename_i t cancelling mustCancel hcalls
      split at h
      · rename_i outcome hdone
        cases h
        obtain ⟨call, hs, hcall⟩ := join_cases s k t outcome cancelling mustCancel
        exact .joined k t outcome call s.stop hdone (.inr rfl) hs hcall
      · cases h
    · cases h
  | run t wake =>
    simp only [step, runTask] at h
    obtain ⟨at', hat, hrun⟩ := Option.bind_eq_some_iff.1 h
    obtain ⟨turn, hturn, rfl⟩ := Option.map_eq_some_iff.1 hrun
    split at hat
    · rename_i htask
      exact .ran t .created at' wake turn.1 turn.2 htask rfl hturn rfl
    · rename_i suspended htask
      exact .ran t (.suspended suspended) at' wake turn.1 turn.2 htask rfl hturn rfl
    · cases hat

/-! ## The handle -/

/-- The handle refers to every task that runs. -/
def Tracked (s : RelayLoop) : Prop := ∀ t, s.Running t → s.task = some t

/-- No stop is resumed while the handle refers to a task that runs: the one it awaited is finished,
so a start would have replaced that one before. -/
def ClearsOwn (s : RelayLoop) (a : LoopAction) : Prop :=
  ∀ k, a = .resumeStop k → ∀ t, s.task = some t → ¬ s.Running t

theorem running_set {task : WorkerTask} (ht : s.tasks[t]? = some task) (hrun : task.isDone = false)
    {turn : Turn} (h : RelayLoop.Running { s with tasks := s.tasks.set t (turnTask turn) } u) :
    s.Running u := by
  by_cases hut : u = t
  · subst hut
    exact ⟨task, ht, hrun⟩
  · obtain ⟨task', htask', hd⟩ := h
    rw [List.getElem?_set_ne (Ne.symm hut)] at htask'
    exact ⟨task', htask', hd⟩

/-- **A step that does not clear another task's handle keeps track of the tasks.** -/
theorem Tracked.step (h : s.Tracked) (hs : step relay a s = some s') (hc : s.ClearsOwn a) :
    s'.Tracked := by
  cases step_cases hs with
  | busy hs => rw [hs]; exact h
  | started ha free hs =>
    intro u hu
    subst hs
    obtain ⟨task, htask, hd⟩ := hu
    by_cases hlen : u < s.tasks.length
    · -- nothing was running
      rw [List.getElem?_append_left hlen] at htask
      have hrun : s.Running u := ⟨task, htask, hd⟩
      have hdone := free u (h u hrun)
      rw [hrun.not_done] at hdone
      cases hdone
    · have hu : u < (s.tasks ++ [WorkerTask.created]).length :=
        (List.getElem?_eq_some_iff.1 htask).1
      rw [List.length_append, List.length_singleton] at hu
      have hlast : u = s.tasks.length := by omega
      rw [hlast]
  | called k call stop hs hcall hjoin =>
    subst hs
    exact fun u hu => h u ((running_congr rfl).1 hu)
  | joined k t outcome call stop hdone ha hs hcall =>
    subst hs
    intro u hu
    have hrun : s.Running u := (running_congr rfl).1 hu
    have htask := h u hrun
    rcases ha with ha | ha
    · cases htask.symm.trans ha
      exact absurd hrun (not_running_of_done hdone)
    · exact absurd hrun (hc k ha u htask)
  | ran t task at' wake turn backoff htask hrun hturn hs =>
    subst hs
    exact fun u hu => h u (running_set htask hrun hu)

/-- A turn goes into an execution only from the head of the loop. -/
theorem resume_publishing {backoff backoff' : ExponentialBackoff} {stopped : Bool}
    {at' : Option RelayAwait} {wake : Wake}
    (h : relay.resume backoff stopped at' wake = some (.suspended .publishing, backoff')) :
    stopped = false := by
  have hhead : ∀ {b}, (OutboxRelay.loopHead stopped, b) = (Turn.suspended .publishing, backoff') →
      stopped = false := by
    intro b he
    cases stopped with
    | true => cases he
    | false => rfl
  have hpoll : ∀ {outcome bits},
      relay.afterPoll backoff stopped outcome bits ≠ (.suspended .publishing, backoff') := by
    intro outcome bits he
    unfold OutboxRelay.afterPoll at he
    split at he
    · cases he
    · split at he <;> cases he
    · split_ifs at he <;> cases he
  cases wake with
  | polled outcome bits =>
    cases at' with
    | none => cases h
    | some at' =>
      cases at' with
      | publishing => exact absurd (Option.some.inj h) hpoll
      | waiting | yielding => cases h
  | ended outcome =>
    cases at' with
    | none =>
      cases outcome with
      | ok => exact hhead (Option.some.inj h)
      | error => cases h
    | some at' =>
      cases at' with
      | publishing => cases h
      | waiting | yielding =>
        cases outcome with
        | ok => exact hhead (Option.some.inj h)
        | error => cases h

/-- **No execution begins while the stop flag is set.** -/
theorem begins_running (hs : step relay a s = some s') (ht : s'.Publishing t)
    (hnew : ¬ s.Publishing t) : s.stop = false ∧ s'.stop = false := by
  cases step_cases hs with
  | busy hs => rw [hs] at ht; exact absurd ht hnew
  | started ha free hs =>
    subst hs
    obtain ⟨task, htask, hp⟩ := ht
    rcases Nat.lt_trichotomy t s.tasks.length with hlt | rfl | hgt
    · rw [List.getElem?_append_left hlt] at htask
      exact absurd ⟨task, htask, hp⟩ hnew
    · rw [List.getElem?_concat_length] at htask
      cases htask
      cases hp
    · rw [List.getElem?_eq_none (by simp; omega)] at htask
      cases htask
  | called k call stop hs hcall hjoin => subst hs; exact absurd ((publishing_congr rfl).1 ht) hnew
  | joined k u outcome call stop hdone ha hs hcall =>
    subst hs; exact absurd ((publishing_congr rfl).1 ht) hnew
  | ran u task at' wake turn backoff htask hrun hturn hs =>
    subst hs
    obtain ⟨task', htask', hp⟩ := ht
    by_cases htu : t = u
    · subst htu
      have hlt : t < s.tasks.length := (List.getElem?_eq_some_iff.1 htask).1
      rw [List.getElem?_set_self hlt] at htask'
      cases htask'
      cases turn with
      | suspended at'' =>
        cases at'' with
        | publishing =>
          have hstop := resume_publishing hturn
          exact ⟨hstop, hstop⟩
        | waiting | yielding => cases hp
      | returned | raised => cases hp
    · rw [List.getElem?_set_ne (Ne.symm htu)] at htask'
      exact absurd ⟨task', htask', hp⟩ hnew

/-- **A stop that returns has joined its task.** -/
theorem returns_joined (hs : step relay a s = some s') {current : Option Nat}
    (hk : s'.calls k = some (.returned current)) (hnew : s.calls k ≠ some (.returned current)) :
    ∀ t, current = some t → s'.isDone t = true := by
  rintro t rfl
  cases step_cases hs with
  | busy hs => rw [hs] at hk; exact absurd hk hnew
  | started ha free hs => subst hs; exact absurd hk hnew
  | called j call stop hs hcall hjoin =>
    subst hs
    rw [setCall_calls] at hk
    split at hk
    · cases (hcall _ (Option.some.inj hk)).1
    · exact absurd hk hnew
  | joined j u outcome call stop hdone ha hs hcall =>
    subst hs
    rw [setCall_calls] at hk
    split at hk
    · cases hcall _ (Option.some.inj hk)
      exact isDone_done hdone
    · exact absurd hk hnew
  | ran u task at' wake turn backoff htask hrun hturn hs => subst hs; exact absurd hk hnew

/-! ## The guarantee -/

/-- What is promised of a step: one task runs at most, and the handle refers to it; one execution is
in flight; none begins while the stop flag is set; a stop that returns has joined its task, and no
running task is forgotten. -/
structure OneTask (s s' : RelayLoop) : Prop where
  unique : ∀ t u, s'.Running t → s'.Running u → t = u
  current : ∀ t, s'.Running t → s'.task = some t
  oneExecute : ∀ t u, s'.Publishing t → s'.Publishing u → t = u
  begins : ∀ t, s'.Publishing t → ¬ s.Publishing t → s.stop = false ∧ s'.stop = false
  returns : ∀ k current, s'.calls k = some (.returned current) →
    s.calls k ≠ some (.returned current) →
      (∀ t, current = some t → s'.isDone t = true) ∧ ∀ t, s'.Running t → s'.task = some t

theorem Tracked.oneTask (h : s'.Tracked) (hs : RelayLoop.step relay a s = some s') :
    OneTask s s' where
  unique t u ht hu := Option.some.inj ((h t ht).symm.trans (h u hu))
  current := h
  oneExecute t u ht hu := Option.some.inj ((h t ht.running).symm.trans (h u hu.running))
  begins _ ht hnew := begins_running hs ht hnew
  returns _ _ hk hnew := ⟨returns_joined hs hk hnew, h⟩

theorem resumeStop_task (hs : step relay (.resumeStop k) s = some s') :
    s'.task = none ∧ s'.tasks = s.tasks := by
  simp only [step] at hs
  split at hs
  · rename_i t cancelling mustCancel hcalls
    split at hs
    · rename_i outcome hdone
      cases hs
      obtain ⟨call, hjoin, -⟩ := join_cases s k t outcome cancelling mustCancel
      rw [hjoin]
      exact ⟨rfl, rfl⟩
    · cases hs
  · cases hs

/-- Clearing the handle of a running task forgets that task. -/
theorem OneTask.clearsOwn (h : OneTask s s') (hs : step relay a s = some s') : s.ClearsOwn a := by
  rintro k rfl t - hrun
  obtain ⟨hnone, htasks⟩ := resumeStop_task hs
  have hcurrent := h.current t ((running_congr htasks).2 hrun)
  rw [hnone] at hcurrent
  cases hcurrent

theorem tracked_init (relay : OutboxRelay) : (init relay).Tracked := by
  rintro t ⟨task, htask, -⟩
  cases htask

/-- **There is one relay task at a time exactly in the runs in which** no stop is resumed while the
handle refers to a running task: then every step has all that is promised. -/
theorem one_relay_task (relay : OutboxRelay) (actions : List LoopAction) :
    Always (step relay) (fun s _ s' => OneTask s s') actions (init relay) ↔
      Always (step relay) (fun s a _ => s.ClearsOwn a) actions (init relay) := by
  refine always_iff (I := Tracked) (fun s a s' hI hs hc => ?_) (fun s a s' hs h => h.clearsOwn hs)
    actions (tracked_init relay)
  have htracked := hI.step hs hc
  exact ⟨htracked.oneTask hs, htracked⟩

/-! ## Starting and stopping in turn -/

/-- No task is created while a stop is suspended. -/
def StartsJoined (s : RelayLoop) (a : LoopAction) : Prop :=
  a = .start → (∀ t, s.task = some t → s.isDone t = true) →
    ∀ k t cancelling mustCancel, s.calls k ≠ some (.joining t cancelling mustCancel)

/-- A suspended stop awaits the task that the handle refers to, if that one runs. -/
def Joins (s : RelayLoop) : Prop :=
  ∀ k t cancelling mustCancel, s.calls k = some (.joining t cancelling mustCancel) →
    ∀ u, s.task = some u → s.Running u → u = t

theorem Joins.step (h : s.Joins) (hs : step relay a s = some s') (hstart : s.StartsJoined a) :
    s'.Joins := by
  intro j t c m hk u hu hrun
  cases step_cases hs with
  | busy hs => subst hs; exact h j t c m hk u hu hrun
  | started ha free hs =>
    subst hs
    exact absurd hk (hstart ha free j t c m)
  | called k call stop hs hcall hjoin =>
    subst hs
    rw [setCall_calls] at hk
    split at hk
    · rcases hjoin t c m (Option.some.inj hk) with ht | ⟨c', m', hold⟩
      · exact Option.some.inj (hu.symm.trans ht)
      · exact h k t c' m' hold u hu ((running_congr rfl).1 hrun)
    · exact h j t c m hk u hu ((running_congr rfl).1 hrun)
  | joined k v outcome call stop hdone ha hs hcall =>
    subst hs
    cases hu
  | ran v task at' wake turn backoff htask hv hturn hs =>
    subst hs
    exact h j t c m hk u hu (running_set htask hv hrun)

/-- **If no start creates a task while a stop is suspended**, every stop clears its own task's
handle. -/
theorem clearsOwn_of_startsJoined (relay : OutboxRelay) {actions : List LoopAction}
    (h : Always (step relay) (fun s a _ => s.StartsJoined a) actions (init relay)) :
    Always (step relay) (fun s a _ => s.ClearsOwn a) actions (init relay) := by
  refine h.of_invariant (I := Joins) (fun s a s' hI hs hstart => ⟨?_, hI.step hs hstart⟩)
    fun k t c m hk => by cases hk
  rintro k rfl u hu hrun
  simp only [step] at hs
  split at hs
  · rename_i t cancelling mustCancel hcalls
    split at hs
    · rename_i outcome hdone
      obtain rfl := hI k t cancelling mustCancel hcalls u hu hrun
      exact not_running_of_done hdone hrun
    · cases hs
  · cases hs

/-! ## A start before the stop is resumed -/

/-- A relay for sample runs. -/
def sampleRelay : OutboxRelay := { interval := .finite 5 }

/-- A start comes after the task has finished and before its stop is resumed, and the new task has
its first turn after that; the next start does not see it running. -/
def overtakenStop : List LoopAction :=
  [.start, .run 0 (.ended (.ok ())), .stop 0 false, .run 0 (.polled (.ok 0) ExponentialDelay.noBits),
    .start, .resumeStop 0, .run 1 (.ended (.ok ())), .start]

theorem publishing_of_map (h : s.tasks[t]?.map WorkerTask.isPublishing = some true) :
    s.Publishing t := by
  obtain ⟨task, htask, hp⟩ := Option.map_eq_some_iff.1 h
  exact ⟨task, htask, hp⟩

/-- **Two relay tasks run, and two executions are in flight.** The stop that returned has forgotten
the first of them. -/
theorem two_relay_tasks :
    (¬ ∀ relay actions, Always (step relay) (fun s _ s' => OneTask s s') actions (init relay)) ∧
    ∃ s, runSteps (step sampleRelay) (overtakenStop ++ [.run 2 (.ended (.ok ()))])
        (init sampleRelay) = some s ∧
      s.Publishing 1 ∧ s.Publishing 2 ∧ s.task = some 2 ∧ s.calls 0 = some (.returned (some 0)) := by
  -- what the run comes to, as far as it can be computed and compared
  have hview : (runSteps (step sampleRelay) (overtakenStop ++ [.run 2 (.ended (.ok ()))])
      (init sampleRelay)).map (fun s => (s.tasks[1]?.map WorkerTask.isPublishing,
        s.tasks[2]?.map WorkerTask.isPublishing, s.task, s.calls 0)) =
      some (some true, some true, some 2, some (.returned (some 0))) := by
    decide +kernel
  obtain ⟨s', hs', hview⟩ := Option.map_eq_some_iff.1 hview
  simp only [Prod.mk.injEq] at hview
  obtain ⟨hfirst, hsecond, htask, hcall⟩ := hview
  have hfirst := publishing_of_map hfirst
  have hsecond := publishing_of_map hsecond
  refine ⟨fun hall => ?_, s', hs', hfirst, hsecond, htask, hcall⟩
  obtain ⟨s, hs, hlast⟩ := runSteps_concat.1 hs'
  have hone := Always.last (hall sampleRelay _) hs hlast
  exact absurd (hone.unique 1 2 hfirst.running hsecond.running) (by decide)

end RelayLoop

end PaymentProcessing
