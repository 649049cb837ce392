import PaymentProcessing.Protocol.Statements
import PaymentProcessing.Protocol.Permissions

/-!
# Where times come from

The time of publication that a relay writes is one that it has read after it published the event,
and what it purges it compares with a reading, too, less the retention.
-/

namespace PaymentProcessing

open Python Relational Concurrency World

variable {py : Platform} {A : Allowed} {i : Nat} {s s' : World} {y y' : Config} {h : History}
  {k : Kind} {worker : PublishOutbox} {record : OutboxRecord} {α β : Type}

/-- The history has the publication of this event. -/
def Relayed (py : Platform) (record : OutboxRecord) (h : History) : Prop :=
  ∃ body headers, OutboxEventCodec.encode py record = .ok (body, headers) ∧
    ⟨.publish .new body headers none, .ok ()⟩ ∈ h

/-- The clock was read as `t` after the event of the row had been published. -/
def Stamped (py : Platform) (id : UUID) (t : Time) (h : History) : Prop :=
  ∃ record before, record.id = id ∧ Relayed py record before ∧ ⟨.now, .ok t⟩ :: before <:+ h

/-- The times that an operation writes, and those that it compares with, come from the clock. -/
def Op.Timed (py : Platform) (k : Kind) (h : History) : Op → Prop
  | .updateOutbox ids patch => ∀ t, patch.publishedAt = some t → ∀ id ∈ ids, Stamped py id t h
  | .deleteProcessed cutoff _ => ∃ worker now, k = .publishOutbox worker ∧ ⟨.now, .ok now⟩ ∈ h ∧
      cutoff = now - worker.retention
  | _ => True

abbrev Timely (py : Platform) (k : Kind) (Q : History → Except Exc α → Prop) (p : App α)
    (h : History) : Prop :=
  p.Along (fun _ _ _ => True) (fun h op => op.Timed py k h) Q h

/-- The operation mentions no time that matters. -/
abbrev Op.Timeless (py : Platform) (k : Kind) (op : Op) : Prop := ∀ h, op.Timed py k h

/-! ## Rules -/

theorem timely_of_only {p : App α} (hp : p.Only (Op.Timeless py k)) :
    Timely py k (fun _ _ => True) p h :=
  hp.along (I := fun _ => True) trivial (fun h _ _ hop => hop h) fun _ _ _ _ _ _ => trivial

theorem timely_bind {p : App α} {f : α → App β} (hp : Timely py k (fun _ _ => True) p h)
    (hf : ∀ h a, Timely py k (fun _ _ => True) (f a) h) :
    Timely py k (fun _ _ => True) (p.bind f) h :=
  Prog.Along.bind hp (fun h a _ => hf h a) fun _ _ _ => trivial

theorem timely_call {op : Op} (hop : op.Timed py k h) : Timely py k (fun _ _ => True) (call op) h :=
  Prog.along_perform hop fun _ _ => trivial

theorem timely_withUow {body : App α} (hp : Timely py k (fun _ _ => True) body h) :
    Timely py k (fun _ _ => True) (withUow body) h := by
  refine timely_bind (Prog.Along.tryCatch hp (fun _ _ _ => trivial) ?_) ?_
  · intro h e _
    exact timely_of_only (.bind (only_call fun _ => trivial) fun _ =>
      .bind (only_call fun _ => trivial) fun _ => trivial)
  · intro h a
    exact timely_of_only (.bind (only_call fun _ => trivial) fun _ => trivial)

/-- A reading of the clock is there for what comes next. -/
theorem timely_now {f : Time → App β}
    (hf : ∀ t, Timely py k (fun _ _ => True) (f t) (⟨.now, .ok t⟩ :: h)) :
    Timely py k (fun _ _ => True) ((call .now).bind f) h := by
  refine Prog.Along.bind (Q := fun h' r => h' = ⟨.now, r⟩ :: h)
    (Prog.along_perform trivial fun _ _ => rfl) ?_ fun _ _ _ => trivial
  rintro _ t rfl
  exact hf t

/-! ## The relay -/

theorem timeless_update {ids : List UUID} {patch : OutboxPatch} (hp : patch.publishedAt = none) :
    (Op.updateOutbox ids patch).Timeless py k := by
  intro h t ht
  rw [hp] at ht
  cases ht

theorem timeless_claim (worker : PublishOutbox) : worker.claim.Only (Op.Timeless py k) := by
  refine .bind (only_call fun _ => trivial) fun now => only_withUow (fun _ => trivial)
    (fun _ => trivial) (.bind (Prog.only_ofExcept _) fun staleBefore =>
      .bind (.bind (only_call fun _ => trivial) fun rows => ?_) fun records => ?_)
  · split
    · trivial
    · exact .bind (only_call (timeless_update rfl)) fun _ => trivial
  · split
    · exact .bind (only_call fun _ => trivial) fun _ => trivial
    · trivial

theorem timeless_retryOrFail (worker : PublishOutbox) (record : OutboxRecord) :
    (worker.retryOrFail record).Only (Op.Timeless py k) := by
  refine .bind (only_call fun _ => trivial) fun now =>
    .bind (only_nextAttempt worker (fun _ => trivial) (fun _ _ _ => trivial) ..) fun next => ?_
  exact only_withUow (fun _ => trivial) (fun _ => trivial)
    (.bind (only_call (timeless_update rfl)) fun _ => only_call fun _ => trivial)

theorem timely_publishOne (record : OutboxRecord) :
    Timely py k (fun h r => r = .ok () → Relayed py record h) (PublishOutbox.publishOne py record)
      h := by
  refine Prog.Along.bind (Q := fun _ r => OutboxEventCodec.encode py record = r)
    (Prog.along_ofExcept rfl) ?_ fun _ _ _ he => by cases he
  rintro h ⟨body, headers⟩ hencode
  have hcall : Timely py k (fun h r => r = .ok () → Relayed py record h)
      (call (.publish .new body headers none)) h := by
    have hop : Op.Timed py k h (.publish .new body headers none) := trivial
    refine Prog.along_perform hop ?_
    rintro r - rfl
    exact ⟨body, headers, hencode, List.mem_cons_self ..⟩
  exact hcall

/-- The time of publication is read when the event has been published. -/
theorem timely_markProcessed (hr : Relayed py record h) :
    Timely py k (fun _ _ => True) (PublishOutbox.markProcessed record) h := by
  refine timely_withUow (timely_now fun now => timely_bind (timely_call ?_) fun h _ => ?_)
  · intro t ht id hid
    cases ht
    cases List.mem_singleton.1 hid
    exact ⟨record, h, rfl, hr, List.suffix_rfl⟩
  · exact timely_call trivial

theorem timely_attempt (worker : PublishOutbox) (record : OutboxRecord) :
    Timely py k (fun _ _ => True) (PublishOutbox.attempt py worker record) h := by
  have hdeliver : Timely py k (fun _ _ => True) (PublishOutbox.deliver py record) h := by
    refine Prog.Along.bind (timely_publishOne record) ?_ fun _ _ _ => trivial
    intro h _ hr
    exact timely_markProcessed (hr rfl)
  refine timely_bind (Prog.Along.tryCatch (timely_bind hdeliver fun _ _ => trivial)
    (fun _ _ _ => trivial) fun h e _ => ?_) fun h delivered => ?_
  · split
    · exact timely_of_only (.bind (only_call fun _ => trivial) fun _ =>
        .bind (timeless_retryOrFail worker record) fun _ => trivial)
    · trivial
  · split
    · exact timely_of_only (.bind (only_call fun _ => trivial) fun _ => trivial)
    · trivial

theorem timely_attemptAll (worker : PublishOutbox) (records : List OutboxRecord) :
    ∀ published h, Timely py k (fun _ _ => True)
      (PublishOutbox.attemptAll py worker records published) h := by
  induction records with
  | nil => exact fun _ _ => trivial
  | cons record records ih =>
    intro published h
    exact timely_bind (timely_attempt worker record) fun h _ => ih _ h

theorem timely_purge (hk : k = .publishOutbox worker) : Timely py k (fun _ _ => True)
    (PurgeProcessedOutbox.execute worker.retention worker.batchSize) h := by
  refine timely_now fun now => Prog.Along.bind (Q := fun h' r => h' = _ ∧ _ = r)
    (Prog.along_ofExcept ⟨rfl, rfl⟩) ?_ fun _ _ _ => trivial
  rintro _ cutoff ⟨rfl, hcutoff⟩
  obtain ⟨rfl, -⟩ := datetimeOf_eq_ok.1 hcutoff
  refine timely_withUow (timely_bind (timely_call ?_) fun h _ => timely_call trivial)
  exact ⟨worker, now, hk, List.mem_cons_self .., rfl⟩

/-- **A relay** takes its times from the clock. -/
theorem timely_publishOutbox (hk : k = .publishOutbox worker) :
    Timely py k (fun _ _ => True) (worker.execute py) h := by
  apply timely_bind (timely_of_only (timeless_claim worker))
  intro h records
  refine Prog.Along.tryFinally (Q := fun _ _ => True) (S := fun _ _ _ => True) ?_ (fun h _ _ => ?_)
    (fun _ _ _ => trivial) fun _ _ _ _ => trivial
  · split
    · exact timely_bind (timely_purge hk) fun _ _ => trivial
    · exact timely_attemptAll worker records 0 h
  · exact timely_of_only (.bind (only_withUow (fun _ => trivial) (fun _ => trivial)
      (.bind (only_call fun _ => trivial) fun _ => .bind (only_call fun _ => trivial)
        fun _ => trivial)) fun _ => trivial)

/-! ## Runs -/

/-- The others write nothing that has a time of publication, and purge nothing. -/
theorem timeless_of_permits {op : Op} (hk : ∀ worker, k ≠ .publishOutbox worker)
    (hop : k.permits op) : op.Timeless py k := by
  intro h
  cases op with
  | updateOutbox | deleteProcessed =>
    cases k with
    | publishOutbox worker => exact absurd rfl (hk worker)
    | _ => exact hop.elim
  | _ => trivial

theorem start_timely {p : App Reply} (hs : World.start py i k s = some (s', p)) :
    Timely py k (fun _ _ => True) p [] := by
  have hother : (∀ worker, k ≠ .publishOutbox worker) → Timely py k (fun _ _ => True) p [] :=
    fun hk => timely_of_only ((start_only hs).mono fun _ => timeless_of_permits hk)
  cases k with
  | publishOutbox worker =>
    cases hs
    exact timely_bind (timely_publishOutbox rfl) fun _ _ => trivial
  | _ => exact hother (by simp)

/-- **Every time comes from the clock.** -/
theorem did_timed (hy : Reachable py A y) (hk : y.state.Logged (.started i k)) {op : Op}
    {r : Except Exc (Res op)} (hd : y.state.Did i op r) :
    ∃ before, before <:+ y.state.history i ∧ op.Timed py k before := by
  have hkeeps : KeepsAlong (fun _ _ _ => True) (fun h op => op.Timed py k h) (fun _ _ => True) i
      y := by
    refine hy.keeps_started hk (fun _ _ _ hs => start_timely hs) ?_
    intros
    trivial
  obtain ⟨before, hbefore, htimed, -⟩ := hkeeps.obeyed.of_mem (mem_history.2 hd)
  exact ⟨before, hbefore, htimed⟩

/-- **What holds whenever a process has no transaction**, and is kept by its operations and by the
others, holds always. -/
theorem Reachable.held {G : Nat → World → Prop} (hy : Reachable py A y)
    (hnone : ∀ i s, s.NoTransaction i → G i s)
    (hexec : ∀ y i k op f c r s', Reachable py A y → y.procs i = .running k (.call op f) →
      World.exec i op c y.state = some (r, s') → G i y.state → G i s')
    (hrely : ∀ i s s', Rely i s s' → G i s → G i s') : ∀ i, G i y.state := by
  refine hy.invariant (P := fun y => ∀ i, G i y.state)
    (fun _ i => hnone i _ ⟨rfl, Locks.not_holds_none _⟩) ?_
  intro y y' a hr hr' hP _ hl i
  cases hl with
  | spawn j k' s p' _ hj hidle hs hy =>
    subst hy
    by_cases hij : i = j
    · subst hij
      refine hnone i _ (hr'.noTransaction (Function.update_self ..) ?_)
      rw [(recorded py).start hs i, history_of_own hidle.1]
      exact .start
    · exact hrely i _ _ ((sound py).start_rely j i k' _ _ p' hr.inv hidle hs hij) (hP i)
  | run j c k' op f r s _ hj hreq hs hy =>
    subst hy
    by_cases hij : i = j
    · subst hij
      exact hexec y i k' op f c r s hr hj hs (hP i)
    · exact hrely i _ _ ((sound py).exec_rely j i op r _ _ hr.inv hreq ⟨c, hs⟩ hij) (hP i)
  | kill j k' p' _ hj hy =>
    subst hy
    by_cases hij : i = j
    · subst hij
      refine hnone i _ (hr'.noTransaction_of_not_running i fun k p hi => ?_)
      cases (Function.update_self i _ _).symm.trans hi
    · exact hrely i _ _ ((sound py).halt_rely j i _ hr.inv hij) (hP i)
  | env e s _ hs hy =>
    subst hy
    exact hrely i _ _ ((sound py).env_rely e i _ _ hr.inv hs) (hP i)

end PaymentProcessing
