import PaymentProcessing.Protocol.Charging

/-!
# Relaying the outbox

A relay publishes only events of rows it has claimed, marks a row only after publishing it, and
releases a row at most once, after a failed delivery, with the attempt counted that it read.
-/

namespace PaymentProcessing

open Python Relational Concurrency World

variable {py : Platform} {i : Nat} {worker : PublishOutbox}

/-! ## Releases -/

/-- Operations that do not release the row. -/
def Op.spares (id : UUID) : Op → Prop
  | .updateOutbox ids patch => patch.retryCount.isSome = true → id ∉ ids
  | _ => True

/-- Process `i` has neither committed nor staged a release of the row. -/
def Unreleased (i : Nat) (id : UUID) (s : World) : Prop :=
  s.NotReleased i id ∧ id ∉ releases (s.staged i)

instance (id : UUID) : Steady py i (NotReleased i id) where
  stable _ _ _ _ hr h ws hw := h ws (logged_of_own_eq hr.own hw rfl)
  same _ _ hs h ws hw := h ws (hs.committed ws hw)

instance (id : UUID) : Steady py i (Unreleased i id) where
  stable s s' hi hi' hr h := by
    have hst : Steady py i (NotReleased i id) := inferInstance
    exact ⟨hst.stable s s' hi hi' hr h.1, by rw [hr.staged]; exact h.2⟩
  same s s' hs h := by
    have hst : Steady py i (NotReleased i id) := inferInstance
    exact ⟨hst.same s s' hs h.1, by rw [hs.staged]; exact h.2⟩

theorem mem_releases {ws : List Write} {id : UUID} : id ∈ releases ws ↔
    ∃ patch, patch.retryCount.isSome = true ∧ Write.updateOutbox id patch ∈ ws := by
  induction ws with
  | nil => simp [releases]
  | cons w ws ih =>
    cases w with
    | updateOutbox id' patch =>
      simp only [releases, List.mem_cons, Write.updateOutbox.injEq]
      split
      · rename_i hsome
        rw [List.mem_cons, ih]
        constructor
        · rintro (rfl | ⟨patch', hsome', hmem⟩)
          · exact ⟨patch, hsome, .inl ⟨rfl, rfl⟩⟩
          · exact ⟨patch', hsome', .inr hmem⟩
        · rintro ⟨patch', hsome', ⟨rfl, -⟩ | hmem⟩
          · exact .inl rfl
          · exact .inr ⟨patch', hsome', hmem⟩
      · rename_i hnone
        rw [ih]
        constructor
        · rintro ⟨patch', hsome', hmem⟩
          exact ⟨patch', hsome', .inr hmem⟩
        · rintro ⟨patch', hsome', ⟨-, rfl⟩ | hmem⟩
          · exact absurd hsome' hnone
          · exact ⟨patch', hsome', hmem⟩
    | _ => simp only [releases, ih, List.mem_cons, reduceCtorEq, false_or]

theorem stages_spares {op : Op} {id : UUID} {ws : List Write} (hop : op.spares id)
    (hws : ∀ w ∈ ws, op.Stages w) : id ∉ releases ws := by
  intro hid
  obtain ⟨patch, hsome, hmem⟩ := mem_releases.1 hid
  have hstages := hws _ hmem
  cases op with
  | updateOutbox ids patch' =>
    obtain ⟨id', hid', he⟩ := hstages
    cases he
    exact hop hsome hid'
  | deleteProcessed cutoff limit =>
    obtain ⟨id', he⟩ := hstages
    cases he
  | _ => cases hstages

/-- What one operation stages releases no row it spares. -/
theorem exec_staged {op : Op} {r : Except Exc (Res op)} {c : Choice} {s s' : World} {id : UUID}
    (hop : op.spares id) (hd : World.exec i op c s = some (r, s')) :
    s'.staged i = [] ∨ ∃ ws, s'.staged i = s.staged i ++ ws ∧ id ∉ releases ws := by
  have hsame : ∀ {s₁ : World} {e}, s₁.staged i = s.staged i →
      (s₁.note e).staged i = [] ∨
        ∃ ws, (s₁.note e).staged i = s.staged i ++ ws ∧ id ∉ releases ws := fun h =>
    .inr ⟨[], by rw [List.append_nil]; exact h, List.not_mem_nil⟩
  have heff : ∀ {r₁ s₁} {e}, s.effect i c op = some (r₁, s₁) → (s₁.note e).staged i = [] ∨
      ∃ ws, (s₁.note e).staged i = s.staged i ++ ws ∧ id ∉ releases ws := by
    intro r₁ s₁ e he
    cases effect_cases he with
    | kept hs => subst hs; exact hsame rfl
    | committed _ hs | ended _ hs => subst hs; exact .inl (Function.update_self ..)
    | staged ls ws hws hs => exact .inr ⟨ws, (lockAndStage_own hs).1, stages_spares hop hws⟩
    | issued u unused hs => subst hs; exact hsame rfl
    | published key body headers expiration _ hs => subst hs; exact hsame rfl
    | acked _ hs | rejected _ hs => subst hs; exact hsame rfl
  have hfail : (s.fail i op).staged i = [] ∨ (s.fail i op).staged i = s.staged i := by
    cases op with
    | rollback | close => exact .inl (Function.update_self ..)
    | _ => exact .inr rfl
  rcases World.exec_cases hd with ⟨s₁, he, rfl⟩ | ⟨f, r₁, s₁, he, -, -, rfl⟩ | ⟨f, -, -, rfl⟩
  · exact heff he
  · exact heff he
  · exact hfail.elim .inl hsame

theorem unreleased_exec {op : Op} {r : Except Exc (Res op)} {c : Choice} {s s' : World} {id : UUID}
    (hop : op.spares id) (hd : World.exec i op c s = some (r, s')) (h : Unreleased i id s) :
    Unreleased i id s' := by
  refine ⟨fun ws hw => ?_, ?_⟩
  · rcases exec_logged hd hw with he | ⟨-, he⟩ | he
    · cases he
    · cases he
      exact h.2
    · exact h.1 ws he
  · rcases exec_staged hop hd with he | ⟨ws, he, hws⟩
    · rw [he]; exact List.not_mem_nil
    · rw [he]
      intro hm
      obtain ⟨patch, hsome, hm⟩ := mem_releases.1 hm
      rcases List.mem_append.1 hm with hm | hm
      · exact h.2 (mem_releases.2 ⟨patch, hsome, hm⟩)
      · exact hws (mem_releases.2 ⟨patch, hsome, hm⟩)

theorem notReleased_exec {op : Op} {r : Except Exc (Res op)} {c : Choice} {s s' : World}
    {id : UUID} (hop : op ≠ .commit) (hd : World.exec i op c s = some (r, s'))
    (h : s.NotReleased i id) : s'.NotReleased i id := by
  intro ws hw
  rcases exec_logged hd hw with he | ⟨hc, -⟩ | he
  · cases he
  · exact absurd hc hop
  · exact h ws he

/-! ## Claiming -/

/-- What process `i` has selected: rows that are due, each once, as they are now. -/
structure Batch (i : Nat) (worker : PublishOutbox) (rows : List OutboxModel) (now : Time)
    (s : World) : Prop where
  locked : RowsLocked i rows s
  due : ∀ row ∈ rows, OutboxClaimFilter.build now (now - worker.claimTimeout) row = true
  nodup : (rows.map (·.id)).Nodup
  first : ∀ row ∈ rows, s.NotReleased i row.id

instance (rows : List OutboxModel) (now : Time) : Steady py i (Batch i worker rows now) where
  stable s s' hi hi' hr h := by
    have hst : (discipline py).Stable i (RowsLocked i rows) := inferInstance
    have hun : ∀ id, (discipline py).Stable i (NotReleased i id) := fun _ => inferInstance
    exact ⟨hst.stable s s' hi hi' hr h.locked, h.due, h.nodup,
      fun row hrow => (hun row.id).stable s s' hi hi' hr (h.first row hrow)⟩
  same s s' hs h := by
    have hst : Steady py i (RowsLocked i rows) := inferInstance
    have hun : ∀ id, Steady py i (NotReleased i id) := fun _ => inferInstance
    exact ⟨hst.same s s' hs h.locked, h.due, h.nodup,
      fun row hrow => (hun row.id).same s s' hs (h.first row hrow)⟩

/-- What a relay knows about itself. -/
def Relaying (py : Platform) (i : Nat) (worker : PublishOutbox) (s : World) : Prop :=
  s.Working py i ∧ s.Relays i worker

instance : (discipline py).Persistent (Relaying py i worker) :=
  inferInstanceAs ((discipline py).Persistent fun s => s.Working py i ∧ s.Relays i worker)

theorem spec_select (now : Time) :
    Spec py i (fun s => ((Relaying py i worker s ∧ s.Did i .now (.ok now)) ∧
        s.DidOnly Op.notSelect i ∧ ∀ id, s.NotReleased i id) ∧ s.staged i = [])
      (call (.selectClaimable worker.batchSize now (now - worker.claimTimeout)))
      (Ends (fun rows s => Batch i worker rows now s ∧ s.staged i = [] ∧
        s.Selected i rows now) anyExc) := by
  refine Spec.call (fun s _ h => ?_) (fun rows c s s' _ h hd _ => ?_) fun _ _ _ _ _ _ _ _ => trivial
  · obtain ⟨⟨⟨hr, hnow⟩, hfirst, -⟩, hclean⟩ := h
    exact ⟨hr.1.1, fun _ => hr.1.2, worker, hr.2, rfl, rfl, hnow, hclean, hfirst⟩
  · obtain ⟨hst, hl, hdue⟩ := selectClaimable_ok h.2 hd
    obtain ⟨s₁, -, rfl⟩ := exec_ok hd
    exact ⟨⟨hl, hdue, selectClaimable_nodup h.2 hd,
      fun row _ => notReleased_exec (by simp) hd (h.1.2.2 row.id)⟩, hst, _, _,
      List.mem_cons_self ..⟩

theorem spec_updateClaimed (rows : List OutboxModel) (now : Time) :
    Spec py i (fun s => (Batch i worker rows now s ∧ s.staged i = []) ∧ Relaying py i worker s)
      (call (.updateOutbox (rows.map (·.id)) (SqlOutboxQueue.claimPatch now)))
      (Ends (fun _ s => Batch i worker rows now s ∧ s.staged i = claimWrites rows now) anyExc) := by
  refine Spec.call (fun s _ h => req_of_working rfl h.2.1) (fun a c s s' _ h hd _ => ?_)
    fun _ _ _ _ _ _ _ _ => trivial
  obtain ⟨⟨hb, hs⟩, -⟩ := h
  obtain ⟨ids, -, hst, -, hdb, hlk, hall⟩ := updateOutbox_ok hs hd
  have hids : ids = rows.map (·.id) := hall fun id hid => by
    obtain ⟨row, hrow, rfl⟩ := List.mem_map.1 hid
    rw [(hb.locked row hrow).2]
    rfl
  refine ⟨⟨fun row hrow => ⟨hlk _ (hb.locked row hrow).1, ?_⟩, hb.due, hb.nodup,
    fun row hrow => notReleased_exec (by simp) hd (hb.first row hrow)⟩, ?_⟩
  · rw [hdb]
    exact (hb.locked row hrow).2
  · rw [hst, hids]
    rfl

/-- The records process `i` has claimed. -/
def ClaimedAll (i : Nat) (records : List OutboxRecord) (s : World) : Prop :=
  ∃ (rows : List OutboxModel) (now : Time),
    (records = rows.map (fun row => OutboxMapper.toClaimedRecord row now) ∧
      (rows.map (·.id)).Nodup) ∧ ∀ row, row ∈ rows → s.Claimed i row now

instance (records : List OutboxRecord) : (discipline py).Persistent (ClaimedAll i records) :=
  inferInstanceAs ((discipline py).Persistent fun s => ∃ (rows : List OutboxModel) (now : Time), _ ∧
    ∀ row, row ∈ rows → s.Claimed i row now)

theorem spec_claimCommit (rows : List OutboxModel) (now : Time) :
    Spec py i (fun s => (Batch i worker rows now s ∧ s.staged i = claimWrites rows now) ∧
        Relaying py i worker s ∧ s.Did i .now (.ok now) ∧ s.Selected i rows now) (call .commit)
      (Ends (fun _ s => s.Logged (.committed i (claimWrites rows now))) anyExc) :=
  Spec.weaken (Spec.commit (C := fun _ => True) anyExc_fault (fun _ h => h.2.1.1)
    (fun _ h => h.1.2)
    (fun _ _ h => .claim worker rows now h.2.1.2 h.2.2.1 h.2.2.2
      (fun row hrow => (h.1.1.locked row hrow).1) (fun row hrow => (h.1.1.locked row hrow).2)
      h.1.1.due h.1.1.first) fun _ _ _ _ => trivial) (fun _ _ h => h) (fun _ _ _ h => h.1)
    fun _ _ _ h => h

/-- The body of the claiming transaction. -/
theorem spec_claimBatch (now : Time) :
    Spec py i (fun s => ((Relaying py i worker s ∧ s.Did i .now (.ok now)) ∧
        s.DidOnly Op.notSelect i ∧ ∀ id, s.NotReleased i id) ∧ s.staged i = [])
      (SqlOutboxQueue.claimBatch worker.batchSize now (now - worker.claimTimeout))
      (Ends (fun records s => ∃ rows,
        records = rows.map (fun row => OutboxMapper.toClaimedRecord row now) ∧
        (Batch i worker rows now s ∧ (rows ≠ [] → s.staged i = claimWrites rows now)) ∧
        Relaying py i worker s ∧ s.Did i .now (.ok now) ∧ s.Selected i rows now) anyExc) := by
  refine Spec.bind (Spec.weaken (Spec.frame (F := fun s => Relaying py i worker s ∧
    s.Did i .now (.ok now)) (spec_select now : Spec py i _ _ _)) (fun _ _ h => ⟨h, h.1.1⟩)
    (fun _ _ _ h => h) fun _ _ _ h => h.1) ?_
  intro rows
  cases rows with
  | nil =>
    exact Spec.ret fun s _ h => ⟨[], rfl, ⟨h.1.1, fun hne => absurd rfl hne⟩, h.2.1, h.2.2, h.1.2.2⟩
  | cons row rows =>
    refine Spec.bind (Spec.weaken (Spec.frame (F := fun s => Relaying py i worker s ∧
      s.Did i .now (.ok now) ∧ s.Selected i (row :: rows) now)
      (spec_updateClaimed (row :: rows) now : Spec py i _ _ _))
      (fun _ _ h => ⟨⟨⟨h.1.1, h.1.2.1⟩, h.2.1⟩, h.2.1, h.2.2, h.1.2.2⟩)
      (fun _ _ _ h => h) fun _ _ _ h => h.1) ?_
    intro _
    exact Spec.ret fun s _ h => ⟨row :: rows, rfl, ⟨h.1.1, fun _ => h.1.2⟩, h.2⟩

/-- **A relay gets the records it has claimed, each once.** -/
theorem runs_claim :
    Runs py i (fun s => Relaying py i worker s ∧ s.DidOnly Op.notSelect i ∧ ∀ id, s.NotReleased i id)
      worker.claim (ClaimedAll i) anyExc := by
  have hnow : Runs py i (fun s => Relaying py i worker s ∧ s.DidOnly Op.notSelect i ∧
      ∀ id, s.NotReleased i id) (call .now) (fun now s => (Relaying py i worker s ∧
        s.Did i .now (.ok now)) ∧ s.DidOnly Op.notSelect i ∧ ∀ id, s.NotReleased i id) anyExc := by
    have hread : Runs py i (fun s => Relaying py i worker s ∧ ∀ id, s.NotReleased i id)
        (call .now) _ anyExc := Runs.read (C := fun _ _ => True) rfl anyExc_fault
      (fun s _ h => req_of_working rfl h.1.1) fun _ _ _ _ _ _ _ _ => trivial
    exact Runs.weaken (Runs.didOnly (Prog.only_perform.2 trivial) hread)
      (fun _ _ h => ⟨⟨h.1, h.2.2⟩, h.2.1⟩) (fun _ _ _ h => ⟨⟨h.1.1.1, h.1.2.1⟩, h.2, h.1.1.2⟩)
      fun _ _ _ _ => trivial
  refine Runs.bind hnow fun now => Runs.withUow (fun _ h => h.1.1.1.1) anyExc_fault ?_
  refine Spec.bind (A := fun staleBefore s => (((Relaying py i worker s ∧
    s.Did i .now (.ok now)) ∧ s.DidOnly Op.notSelect i ∧ ∀ id, s.NotReleased i id) ∧
    s.staged i = []) ∧ datetimeSub now worker.claimTimeout = .ok staleBefore)
    (Spec.orRaise (fun _ _ hok _ h => ⟨h, hok⟩) fun _ _ _ _ _ => trivial)
    fun staleBefore => Spec.of_pure fun hstale => ?_
  obtain ⟨rfl, -⟩ := datetimeOf_eq_ok.1 hstale
  refine Spec.bind (spec_claimBatch now) fun records => Spec.of_exists ?_
  intro rows
  refine Discipline.Triple.pre (P := fun s => ((Batch i worker rows now s ∧
    (rows ≠ [] → s.staged i = claimWrites rows now)) ∧ Relaying py i worker s ∧
    s.Did i .now (.ok now) ∧ s.Selected i rows now) ∧
    records = rows.map (fun row => OutboxMapper.toClaimedRecord row now)) ?_ fun _ _ h => ⟨h.2, h.1⟩
  apply Spec.of_pure
  intro hrec
  subst hrec
  cases rows with
  | nil => exact Spec.ret fun s _ h => ⟨[], now, ⟨rfl, List.nodup_nil⟩, fun _ h => by cases h⟩
  | cons row rows =>
    refine Spec.bind (A := fun _ s => (s.Logged (.committed i (claimWrites (row :: rows) now)) ∧
      s.Selected i (row :: rows) now) ∧ ((row :: rows).map (·.id)).Nodup) ?_ fun _ => ?_
    · refine Discipline.Triple.pre (P := fun s => ((Batch i worker (row :: rows) now s ∧
        s.staged i = claimWrites (row :: rows) now) ∧ Relaying py i worker s ∧
        s.Did i .now (.ok now) ∧ s.Selected i (row :: rows) now) ∧
        ((row :: rows).map (·.id)).Nodup) ?_ fun s _ h => ?_
      · apply Spec.of_pure
        intro hnd
        exact Spec.weaken (Spec.frame (F := Selected i (row :: rows) now)
          (spec_claimCommit (row :: rows) now : Spec py i _ _ _)) (fun _ _ h => ⟨h, h.2.2.2⟩)
          (fun _ _ _ h => ⟨h, hnd⟩) fun _ _ _ h => h.1
      · exact ⟨⟨⟨h.1.1, h.1.2 (by simp)⟩, h.2⟩, h.1.1.nodup⟩
    · exact Spec.ret fun s _ h => ⟨row :: rows, now, ⟨rfl, h.2⟩, fun r hr =>
        ⟨row :: rows, h.1.2, hr, h.1.1⟩⟩

/-! ## Settling -/

variable (worker)

theorem spec_updateOne (id : UUID) (patch : OutboxPatch) :
    Spec py i (fun s => (s.Working py i ∧ s.staged i = []) ∧ s.NotReleased i id)
      (call (.updateOutbox [id] patch))
      (Ends (fun _ s => ((s.staged i = [.updateOutbox id patch] ∧ s.locks.Holds i (.outbox id)) ∨
        s.staged i = []) ∧ s.NotReleased i id) anyExc) := by
  refine Spec.call (fun s _ h => req_of_working rfl h.1.1) (fun a c s s' _ h hd _ => ?_)
    fun _ _ _ _ _ _ _ _ => trivial
  refine ⟨?_, notReleased_exec (by simp) hd h.2⟩
  obtain ⟨ids, hsub, hst, hlk, -⟩ := updateOutbox_ok h.1.2 hd
  rcases List.sublist_singleton.1 hsub with rfl | rfl
  · exact .inr hst
  · exact .inl ⟨hst, hlk id (List.mem_singleton_self _)⟩

/-- A transaction that updates one row, where the batch is legitimate if there is a row. -/
theorem spec_settle {P : World → Prop} [hP : (discipline py).Persistent P] {id : UUID}
    {patch : OutboxPatch} (hworking : ∀ s, P s → s.Working py i)
    (hlegit : ∀ s, P s → s.NotReleased i id → s.locks.Holds i (.outbox id) →
      CommitLegit py i s [.updateOutbox id patch]) :
    Spec py i (fun s => (P s ∧ s.staged i = []) ∧ s.NotReleased i id)
      (do call (.updateOutbox [id] patch); call .commit) (Ends (fun _ _ => True) anyExc) := by
  refine Spec.bind (Spec.weaken (Spec.frame (F := P) (spec_updateOne id patch : Spec py i _ _ _))
    (fun _ _ h => ⟨⟨⟨hworking _ h.1.1, h.1.2⟩, h.2⟩, h.1.1⟩) (fun _ _ _ h => h)
    fun _ _ _ h => h.1) ?_
  intro _
  have hupdate : Spec py i (fun s => (s.staged i = [.updateOutbox id patch] ∧
      s.locks.Holds i (.outbox id)) ∧ s.NotReleased i id ∧ P s) (call .commit)
      (Ends (fun _ _ => True) anyExc) := by
    have : (discipline py).Stable i P := (sound py).stable_of_persistent
    exact Spec.weaken (Spec.commit (C := fun _ => True) anyExc_fault
      (fun _ h => hworking _ h.2.2) (fun _ h => h.1.1)
      (fun s _ h => hlegit s h.2.2 h.2.1 h.1.2) fun _ _ _ _ => trivial) (fun _ _ h => h)
      (fun _ _ _ _ => trivial) fun _ _ _ h => h
  have hnothing : Spec py i (fun s => s.staged i = [] ∧ P s) (call .commit)
      (Ends (fun _ _ => True) anyExc) := by
    have : (discipline py).Stable i P := (sound py).stable_of_persistent
    exact Spec.weaken (Spec.commit (C := fun _ => True) anyExc_fault (fun _ h => hworking _ h.2)
      (fun _ h => h.1) (fun _ _ _ => .nothing) fun _ _ _ _ => trivial) (fun _ _ h => h)
      (fun _ _ _ _ => trivial) fun _ _ _ h => h
  exact fun s hi h => h.1.1.elim (fun h' => hupdate s hi ⟨h', h.1.2, h.2⟩)
    fun h' => hnothing s hi ⟨h', h.2⟩

theorem runs_publishOne (row : OutboxModel) (claimedAt : Time) :
    Runs py i (fun s => (Relaying py i worker s ∧ s.Claimed i row claimedAt) ∧
        s.NotReleased i row.id)
      (PublishOutbox.publishOne py (OutboxMapper.toClaimedRecord row claimedAt))
      (fun _ s => s.Published py i row claimedAt) anyExc := by
  refine Runs.bind (A := fun bh s => ((Relaying py i worker s ∧ s.Claimed i row claimedAt) ∧
    s.NotReleased i row.id) ∧
    OutboxEventCodec.encode py (OutboxMapper.toClaimedRecord row claimedAt) = .ok bh)
    (Runs.orRaise (fun _ _ ha _ h => ⟨h, ha⟩) fun _ _ _ _ _ => trivial) ?_
  intro bh
  apply Runs.of_pure
  intro hbh
  exact Runs.post_ok (Runs.read (C := fun _ _ => True) rfl anyExc_fault
    (fun s _ h => ⟨h.1.1.1.1, fun _ => h.1.1.1.2,
      .event row claimedAt bh.1 bh.2 h.1.2 h.2 hbh⟩)
    fun _ _ _ _ _ _ _ _ => trivial) fun _ _ _ h => ⟨bh.1, bh.2, hbh, h.2.1⟩

/-- A row is marked after its event was published. -/
theorem runs_markProcessed (row : OutboxModel) (claimedAt : Time) :
    Runs py i (fun s => (Relaying py i worker s ∧ s.Claimed i row claimedAt ∧
        s.Published py i row claimedAt) ∧ s.NotReleased i row.id)
      (PublishOutbox.markProcessed (OutboxMapper.toClaimedRecord row claimedAt))
      (fun _ _ => True) anyExc := by
  refine Runs.withUow (fun s h => h.1.1.1.1) anyExc_fault ?_
  apply Spec.bind (Spec.skip rfl anyExc_fault fun s _ h => req_of_working rfl h.1.1.1.1)
  intro now
  exact Discipline.Triple.pre (spec_settle (P := fun s => Relaying py i worker s ∧
    s.Claimed i row claimedAt ∧ s.Published py i row claimedAt) (fun s h => h.1.1)
    fun s h hn hl => .mark row claimedAt now h.2.1 h.2.2 hn hl) fun _ _ h => ⟨⟨h.1.1, h.2⟩, h.1.2⟩

/-! ## Retrying -/

theorem runs_retryDelay (backoff : ExponentialDelay) (attempts : Int) :
    Runs py i (Relaying py i worker) (PublishOutbox.retryDelay backoff attempts)
      (fun _ s => Relaying py i worker s) anyExc := by
  have hdelay : ∀ bits, Runs py i (Relaying py i worker)
      (orRaise (backoff.delayFor attempts bits) >>= fun delay => orRaise (timedeltaSeconds delay))
      (fun _ s => Relaying py i worker s) anyExc := fun bits =>
    Runs.bind (A := fun _ => Relaying py i worker)
      (Runs.orRaise (fun _ _ _ _ h => h) fun _ _ _ _ _ => trivial) fun _ =>
        Runs.orRaise (fun _ _ _ _ h => h) fun _ _ _ _ _ => trivial
  unfold PublishOutbox.retryDelay
  split
  · exact Runs.bind (Runs.skip rfl anyExc_fault fun s _ h => req_of_working rfl h.1) hdelay
  · exact hdelay _

/-- The next attempt is determined without the database. -/
theorem only_nextAttempt {φ : Op → Prop} (hrandom : φ .random) (hlog : ∀ event id, φ (.log event id))
    (record : OutboxRecord) (attempts : Int) (now : Time) :
    (worker.nextAttempt record attempts now).Only φ := by
  have hdelay : ∀ bits, (orRaise (worker.backoff.delayFor attempts bits) >>= fun delay =>
      orRaise (timedeltaSeconds delay)).Only φ := fun bits =>
    .bind (Prog.only_ofExcept _) fun _ => Prog.only_ofExcept _
  unfold PublishOutbox.nextAttempt
  split
  · exact .bind (Prog.only_perform.2 (hlog ..)) fun _ => trivial
  · refine .bind ?_ fun _ => .bind (Prog.only_ofExcept _) fun _ => trivial
    unfold PublishOutbox.retryDelay
    split
    · exact .bind (Prog.only_perform.2 hrandom) hdelay
    · exact hdelay _

/-- What the next attempt will be is what a release may set. -/
theorem runs_nextAttempt (row : OutboxModel) (claimedAt now : Time) :
    Runs py i (Relaying py i worker)
      (worker.nextAttempt (OutboxMapper.toClaimedRecord row claimedAt) (row.retryCount + 1) now)
      (fun sa _ => ReleaseLegit worker row
        (SqlOutboxQueue.releasePatch sa.1 (row.retryCount + 1) sa.2)) anyExc := by
  unfold PublishOutbox.nextAttempt
  split
  · rename_i hmax
    apply Runs.bind (Runs.skip rfl anyExc_fault fun s _ h => req_of_working rfl h.1)
    intro _
    exact Runs.ret fun s _ h => .failed hmax
  · rename_i hmax
    apply Runs.bind (runs_retryDelay worker worker.backoff _)
    intro delay
    apply Runs.bind (A := fun _ => Relaying py i worker)
      (Runs.orRaise (fun _ _ _ _ h => h) fun _ _ _ _ _ => trivial)
    intro availableAt
    exact Runs.ret fun s _ h => .new (by omega) _

/-- A relay that has failed to deliver a row and not released it. -/
def Failing (py : Platform) (i : Nat) (worker : PublishOutbox) (row : OutboxModel)
    (claimedAt : Time) (s : World) : Prop :=
  Relaying py i worker s ∧ s.Claimed i row claimedAt ∧ s.DeliveryFailed py i row

instance (row : OutboxModel) (claimedAt : Time) :
    (discipline py).Persistent (Failing py i worker row claimedAt) :=
  inferInstanceAs ((discipline py).Persistent fun s => Relaying py i worker s ∧
    s.Claimed i row claimedAt ∧ s.DeliveryFailed py i row)

/-- **A row is released after its delivery failed**, once, with one more attempt counted. -/
theorem runs_retryOrFail (row : OutboxModel) (claimedAt : Time) :
    Runs py i (fun s => Failing py i worker row claimedAt s ∧ s.NotReleased i row.id)
      (worker.retryOrFail (OutboxMapper.toClaimedRecord row claimedAt))
      (fun _ _ => True) anyExc := by
  have hnow : Runs py i (fun s => Failing py i worker row claimedAt s ∧ s.NotReleased i row.id)
      (call .now) _ anyExc := Runs.read (C := fun _ _ => True) rfl anyExc_fault
    (fun s _ h => req_of_working rfl h.1.1.1) fun _ _ _ _ _ _ _ _ => trivial
  refine Runs.bind hnow fun now => Runs.bind (A := fun sa s => ((Failing py i worker row claimedAt s ∧
    s.Decided i worker row claimedAt
      (SqlOutboxQueue.releasePatch sa.1 (row.retryCount + 1) sa.2)) ∧ s.NotReleased i row.id) ∧
    ReleaseLegit worker row (SqlOutboxQueue.releasePatch sa.1 (row.retryCount + 1) sa.2))
    ?_ fun sa => ?_
  · have hnext := Runs.frameRead (F := NotReleased i row.id) (only_nextAttempt worker
      (φ := fun op => op.isRead = true) rfl (fun _ _ => rfl) ..)
      (Runs.frame (F := fun s => Failing py i worker row claimedAt s ∧ s.Did i .now (.ok now))
        (Runs.since (H := fun _ => True)
          (runs_nextAttempt worker row claimedAt now : Runs py i _ _ _ _)))
    refine Runs.weaken hnext (fun _ _ h => ⟨⟨⟨h.1.1.1, trivial⟩, h.1.1, h.2.1⟩, h.1.2⟩)
      (fun sa s _ h => ?_) fun _ _ _ _ => trivial
    obtain ⟨⟨⟨hlegit, run, before, hran, -, -⟩, hfailing, hread⟩, hn⟩ := h
    exact ⟨⟨⟨hfailing, now, sa.1, sa.2, hread, hran.canReturn, rfl⟩, hn⟩, hlegit⟩
  refine Runs.of_pure fun hlegit => Runs.withUow (fun s h => h.1.1.1.1.1) anyExc_fault ?_
  exact Discipline.Triple.pre (spec_settle (P := fun s => Failing py i worker row claimedAt s ∧
      s.Decided i worker row claimedAt
        (SqlOutboxQueue.releasePatch sa.1 (row.retryCount + 1) sa.2)) (fun s h => h.1.1.1)
    fun s h hn hl => .release worker row claimedAt _ h.1.1.2 h.1.2.1 h.1.2.2 hn hl hlegit h.2)
    fun _ _ h => ⟨⟨h.1.1, h.2⟩, h.1.2⟩

/-! ## One record after the other -/

/-- A program that marks a row raises only what one of its operations has answered with. -/
theorem passesOn_markProcessed (record : OutboxRecord) {X : Exc → Prop} :
    PassesOn X (fun op => op.marks record.id) (PublishOutbox.markProcessed record) :=
  passesOn_withUow trivial trivial <| (passesOn_call trivial).bind fun now =>
    (passesOn_call ⟨rfl, now, rfl⟩).bind fun _ => passesOn_call trivial

/-- **A delivery that raises has failed**: to encode, to publish, or to mark the row. -/
theorem failed_of_ran {row : OutboxModel} {claimedAt : Time} {e : Exc} {run : History}
    (h : (PublishOutbox.deliver py (OutboxMapper.toClaimedRecord row claimedAt)).Ran (.error e) run) :
    FailedDelivery py row claimedAt e run := by
  rcases h.bind with ⟨e', he, hpublish⟩ | ⟨⟨⟩, run₁, run₂, rfl, hpublish, hmark⟩
  · cases he
    rcases hpublish.bind with ⟨e', he, hencode⟩ | ⟨⟨body, headers⟩, l₁, l₂, rfl, hencode, hcall⟩
    · cases he
      obtain ⟨he, rfl⟩ := Prog.ran_ofExcept hencode
      exact .encode he.symm
    · obtain ⟨he, rfl⟩ := Prog.ran_ofExcept hencode
      rw [Prog.ran_perform hcall]
      exact .publish body headers he.symm
  · rcases hpublish.bind with ⟨e', he, -⟩ | ⟨⟨body, headers⟩, l₁, l₂, rfl, hencode, hcall⟩
    · cases he
    obtain ⟨he, rfl⟩ := Prog.ran_ofExcept hencode
    rw [Prog.ran_perform hcall]
    -- the answers of the operations of this very run say who has raised
    have hmarking := passesOn_markProcessed (OutboxMapper.toClaimedRecord row claimedAt)
      (X := fun e => ∃ op, ⟨op, .error e⟩ ∈ run₂)
    obtain ⟨hraised, hmarks⟩ := hmarking.ran hmark fun x hx e he => ⟨x.1, he ▸ hx⟩
    exact .mark body headers run₂ he.symm hmarks (hraised e rfl)

/-- Process `i`, which had selected the row, has just failed to deliver it. -/
def Tried (py : Platform) (i : Nat) (row : OutboxModel) (claimedAt : Time) (e : Exc) (s : World) :
    Prop :=
  ∃ run before, SelectedIn row claimedAt before ∧ FailedDelivery py row claimedAt e run ∧
    s.history i = run.reverse ++ before

instance (row : OutboxModel) (claimedAt : Time) (e : Exc) :
    (discipline py).Stable i (Tried py i row claimedAt e) where
  stable _ _ _ _ hr h := by
    obtain ⟨run, before, hin, hfailed, hh⟩ := h
    exact ⟨run, before, hin, hfailed, (history_of_own_eq hr.own).trans hh⟩

theorem World.Claimed.selectedIn {row : OutboxModel} {claimedAt : Time} {s : World}
    (h : s.Claimed i row claimedAt) : SelectedIn row claimedAt (s.history i) := by
  obtain ⟨rows, ⟨limit, staleBefore, hsel⟩, hrow, -⟩ := h
  exact ⟨limit, staleBefore, rows, hrow, mem_history.2 hsel⟩

theorem runs_logFailed (row : OutboxModel) (claimedAt : Time) {e : Exc}
    (he : e.isException = true) :
    Runs py i (fun s => (Relaying py i worker s ∧ s.Claimed i row claimedAt) ∧
        Tried py i row claimedAt e s)
      (call (.log "outbox.publish_failed" row.id)) (fun _ s => s.DeliveryFailed py i row)
      anyExc := by
  refine Discipline.Triple.post (Spec.call
    (A := fun _ s => s.DeliveryFailed py i row ∧ s.staged i = []) (E := fun _ s => s.staged i = [])
    (fun s _ h => req_of_working rfl h.1.1.1.1) (fun a c s s' hi h hd _ => ?_)
    fun e c s s' _ h hd _ => ?_) fun r s _ hr => ?_
  · obtain ⟨⟨⟨-, hclaimed⟩, run, before, hin, hfailed, hh⟩, hst⟩ := h
    have hclaimed' : s'.Claimed i row claimedAt := by
      have hkeep : (discipline py).Persistent (World.Claimed i row claimedAt) := inferInstance
      exact hkeep.persistent s s' (exec_quiet (by simp) hd).evolves hclaimed
    refine ⟨⟨claimedAt, e, run, before, hclaimed', hin, hfailed, he, ?_⟩,
      (exec_read rfl hd).1.staged.trans hst⟩
    rw [exec_history hd, hh]
  · exact (exec_read rfl hd).1.staged.trans h.2
  · cases r with
    | ok a => exact hr
    | error e => exact ⟨trivial, hr⟩

theorem runs_deliver (row : OutboxModel) (claimedAt : Time) :
    Runs py i (fun s => (Relaying py i worker s ∧ s.Claimed i row claimedAt) ∧
        s.NotReleased i row.id)
      (PublishOutbox.deliver py (OutboxMapper.toClaimedRecord row claimedAt))
      (fun _ _ => True) anyExc := by
  have honly : (PublishOutbox.publishOne py (OutboxMapper.toClaimedRecord row claimedAt)).Only
      fun op => op.isRead = true :=
    .bind (Prog.only_ofExcept _) fun bh => Prog.only_perform.2 rfl
  have hpublish := Runs.frameRead (F := NotReleased i row.id) honly (Runs.frame
    (F := fun s => Relaying py i worker s ∧ s.Claimed i row claimedAt)
    (runs_publishOne worker row claimedAt : Runs py i _ _ _ _))
  refine Runs.bind (Runs.weaken hpublish (fun _ _ h => ⟨⟨h, h.1⟩, h.2⟩) (fun _ _ _ h => h)
    fun _ _ _ _ => trivial) ?_
  intro _
  exact Runs.weaken (runs_markProcessed worker row claimedAt)
    (fun _ _ h => ⟨⟨h.1.2.1, h.1.2.2, h.1.1⟩, h.2⟩) (fun _ _ _ h => h) fun _ _ _ _ => trivial

theorem spares_of_isRead {op : Op} {id : UUID} (h : op.isRead = true) : op.spares id := by
  cases op with
  | updateOutbox ids patch => cases h
  | _ => trivial

theorem only_deliver (record : OutboxRecord) {rows : List OutboxModel} :
    (PublishOutbox.deliver py record).Only fun op => ∀ row ∈ rows, op.spares row.id := by
  have hcall : ∀ op : Op, (∀ row ∈ rows, op.spares row.id) →
      (call op).Only fun op => ∀ row ∈ rows, op.spares row.id := fun op h => only_call h
  refine .bind (.bind (Prog.only_ofExcept _) fun bh => hcall _ fun _ _ => trivial) ?_
  intro _
  refine only_withUow (fun _ _ => trivial) (fun _ _ => trivial)
    (.bind (hcall _ fun _ _ => trivial) fun now => ?_)
  exact .bind (hcall _ fun _ _ h => by cases h) fun _ => hcall _ fun _ _ => trivial

theorem only_attempt (record : OutboxRecord) {rows : List OutboxModel}
    (hne : ∀ row ∈ rows, row.id ≠ record.id) :
    (worker.attempt py record).Only fun op => ∀ row ∈ rows, op.spares row.id := by
  have hread : ∀ op : Op, op.isRead = true → ∀ row ∈ rows, op.spares row.id :=
    fun op hop row _ => spares_of_isRead hop
  have hcall : ∀ op : Op, (∀ row ∈ rows, op.spares row.id) →
      (call op).Only fun op => ∀ row ∈ rows, op.spares row.id := fun op h => only_call h
  refine .bind (.tryCatch (.bind (only_deliver record) fun _ => trivial) fun e => ?_)
    fun delivered => ?_
  · split
    · refine .bind (hcall _ (hread _ rfl)) fun _ => .bind ?_ fun _ => trivial
      refine .bind (hcall _ (hread _ rfl)) fun now =>
        .bind (only_nextAttempt worker (hread _ rfl) (fun _ _ => hread _ rfl) ..) ?_
      intro sa
      refine only_withUow (fun _ _ => trivial) (fun _ _ => trivial)
        (.bind (hcall _ fun row hrow _ => ?_) fun _ => hcall _ fun _ _ => trivial)
      simpa using hne row hrow
    · trivial
  · cases delivered with
    | true => exact .bind (hcall _ (hread _ rfl)) fun _ => trivial
    | false => trivial

theorem runs_attempt (row : OutboxModel) (claimedAt : Time) :
    Runs py i (fun s => (Relaying py i worker s ∧ s.Claimed i row claimedAt) ∧
        Unreleased i row.id s)
      (worker.attempt py (OutboxMapper.toClaimedRecord row claimedAt))
      (fun _ s => Relaying py i worker s) anyExc := by
  -- what the handler finds, whether the row was published or not
  have hdeliver := Runs.frameOnly (F := Unreleased i row.id)
    (φ := fun op => ∀ r ∈ [row], op.spares r.id)
    (fun _ _ _ _ _ hop _ _ hd h => unreleased_exec (hop row (List.mem_singleton_self _)) hd h)
    (only_deliver (OutboxMapper.toClaimedRecord row claimedAt))
    (Runs.frame (F := fun s => Relaying py i worker s ∧ s.Claimed i row claimedAt)
      (Runs.since (H := SelectedIn row claimedAt)
        (runs_deliver worker row claimedAt : Runs py i _ _ _ _)))
  have hlog := fun e he => Runs.frameRead (F := Unreleased i row.id) (Prog.only_perform.2 rfl)
    (Runs.frame (F := fun s => Relaying py i worker s ∧ s.Claimed i row claimedAt)
      (runs_logFailed worker row claimedAt (e := e) he : Runs py i _ _ _ _))
  refine Runs.bind (A := fun _ s => Relaying py i worker s) (Runs.tryCatch
    (E := fun e s => ((Relaying py i worker s ∧ s.Claimed i row claimedAt) ∧
      Unreleased i row.id s) ∧ Tried py i row claimedAt e s) ?_ fun e => ?_) fun delivered => ?_
  · refine Runs.bind (A := fun _ => Relaying py i worker) (Runs.weaken hdeliver
      (fun _ _ h => ⟨⟨⟨⟨h.1, h.2.1⟩, h.1.2.selectedIn⟩, h.1⟩, h.2⟩) (fun _ _ _ h => h.1.2.1)
      fun e s _ h => ?_) ?_
    · obtain ⟨⟨⟨-, run, before, hran, hin, hh⟩, hclaimed⟩, hun⟩ := h
      exact ⟨⟨hclaimed, hun⟩, run, before, hin, failed_of_ran hran, hh⟩
    · intro _
      exact Runs.ret fun s _ h => h
  · split
    · rename_i he
      refine Runs.bind (Runs.weaken (hlog e he) (fun _ _ h => ⟨⟨⟨h.1.1, h.2⟩, h.1.1⟩, h.1.2⟩)
        (fun _ _ _ h => h) fun _ _ _ _ => trivial) ?_
      intro _
      refine Runs.bind (Runs.weaken (Runs.frame (F := Relaying py i worker)
        (runs_retryOrFail worker row claimedAt : Runs py i _ _ _ _))
        (fun _ _ h => ⟨⟨⟨h.1.2.1, h.1.2.2, h.1.1⟩, h.2.1⟩, h.1.2.1⟩) (fun _ _ _ h => h)
        fun _ _ _ _ => trivial) ?_
      intro _
      exact Runs.ret fun s _ h => h.2
    · exact Runs.raise fun _ _ _ => trivial
  · cases delivered with
    | true =>
      apply Runs.bind (Runs.skip rfl anyExc_fault fun s _ h => req_of_working rfl h.1)
      intro _
      exact Runs.ret fun _ _ h => h
    | false => exact Runs.ret fun _ _ h => h

/-- The loop of an execution, over records claimed together. -/
theorem runs_attemptAll (rows : List OutboxModel) (claimedAt : Time)
    (hnd : (rows.map (·.id)).Nodup) (published : Nat) :
    Runs py i (fun s => (Relaying py i worker s ∧ ∀ row, row ∈ rows → s.Claimed i row claimedAt) ∧
        ∀ row, row ∈ rows → Unreleased i row.id s)
      (worker.attemptAll py (rows.map fun row => OutboxMapper.toClaimedRecord row claimedAt)
        published) (fun _ _ => True) anyExc := by
  induction rows generalizing published with
  | nil => exact Runs.ret fun _ _ _ => trivial
  | cons row rows ih =>
    rw [List.map_cons, List.nodup_cons] at hnd
    have hne : ∀ row' ∈ rows, row'.id ≠ row.id := fun row' hr he =>
      hnd.1 (he ▸ List.mem_map_of_mem hr)
    have hattempt := Runs.frameOnly (F := fun s => ∀ row', row' ∈ rows → Unreleased i row'.id s)
      (φ := fun op => ∀ row' ∈ rows, op.spares row'.id)
      (fun _ _ _ _ _ hop _ _ hd h row' hr => unreleased_exec (hop row' hr) hd (h row' hr))
      (only_attempt worker _ hne)
      (Runs.frame (F := fun s => ∀ row', row' ∈ rows → s.Claimed i row' claimedAt)
        (runs_attempt worker row claimedAt : Runs py i _ _ _ _))
    refine Runs.bind (Runs.weaken hattempt (fun _ _ h => ?_) (fun _ _ _ h => h)
      fun _ _ _ _ => trivial) fun delivered => ?_
    · exact ⟨⟨⟨⟨h.1.1, h.1.2 row (List.mem_cons_self ..)⟩, h.2 row (List.mem_cons_self ..)⟩,
        fun row' hr => h.1.2 row' (List.mem_cons_of_mem _ hr)⟩,
        fun row' hr => h.2 row' (List.mem_cons_of_mem _ hr)⟩
    · exact ih hnd.2 _

/-! ## Purging and gauges -/

/-- Only rows that are processed are purged. -/
theorem runs_purge (retention : Int) (batchSize : Nat) :
    Runs py i (Relaying py i worker) (PurgeProcessedOutbox.execute retention batchSize)
      (fun _ _ => True) anyExc := by
  apply Runs.bind (Runs.skip rfl anyExc_fault fun s _ h => req_of_working rfl h.1)
  intro now
  apply Runs.bind (A := fun _ => Relaying py i worker)
    (Runs.orRaise (fun _ _ _ _ h => h) fun _ _ _ _ _ => trivial)
  intro cutoff
  refine Runs.withUow (fun s h => h.1.1) anyExc_fault ?_
  have hdelete : Spec py i (fun s => Relaying py i worker s ∧ s.staged i = [])
      (SqlOutboxQueue.deleteProcessedBefore cutoff batchSize)
      (Ends (fun _ s => ∃ rows : List OutboxModel,
        (s.staged i = ((rows.map (·.id)).map .deleteOutbox) ∧ RowsLocked i rows s) ∧
        (∀ row ∈ rows, row.status = .processed) ∧
          ∀ row ∈ rows, ∃ t, row.publishedAt = some t ∧ t < cutoff) anyExc) := by
    refine Spec.call (fun s _ h => req_of_working rfl h.1.1) (fun n c s s' _ h hd _ => ?_)
      fun _ _ _ _ _ _ _ _ => trivial
    obtain ⟨rows, hst, hl, hp⟩ := deleteProcessed_ok h.2 hd
    exact ⟨rows, ⟨hst, hl⟩, hp⟩
  have hcommit : ∀ rows : List OutboxModel, Spec py i (fun s =>
      ((s.staged i = ((rows.map (·.id)).map .deleteOutbox) ∧ RowsLocked i rows s) ∧
        Relaying py i worker s) ∧ (∀ row ∈ rows, row.status = .processed) ∧
          ∀ row ∈ rows, ∃ t, row.publishedAt = some t ∧ t < cutoff) (call .commit)
      (Ends (fun _ _ => True) anyExc) := fun rows => Spec.of_pure fun hp =>
    Spec.weaken (Spec.commit (C := fun _ => True) anyExc_fault (fun _ h => h.2.1)
      (fun _ h => h.1.1) (fun _ _ h => .purge rows (fun row hrow => (h.1.2 row hrow).1)
        (fun row hrow => (h.1.2 row hrow).2) hp.1 ⟨cutoff, hp.2⟩) fun _ _ _ _ => trivial)
      (fun _ _ h => h) (fun _ _ _ _ => trivial) fun _ _ _ h => h
  refine Spec.bind (Spec.weaken (Spec.frame (F := Relaying py i worker) hdelete)
    (fun _ _ h => ⟨h, h.1⟩) (fun _ _ _ h => h) fun _ _ _ _ => trivial) ?_
  intro n
  exact Discipline.Triple.pre (Spec.of_exists hcommit) fun _ _ h => by
    obtain ⟨⟨rows, hl, hp⟩, hr⟩ := h
    exact ⟨rows, ⟨hl, hr⟩, hp⟩

theorem runs_refresh :
    Runs py i (Relaying py i worker) OutboxQueueGauges.refresh (fun _ _ => True) anyExc := by
  refine Runs.bind (A := fun _ _ => True) (Runs.withUow (fun s h => h.1.1) anyExc_fault ?_)
    fun _ => Runs.ret fun _ _ _ => trivial
  apply Spec.bind (Spec.skip rfl anyExc_fault fun s _ h => req_of_working rfl h.1.1)
  intro pending
  apply Spec.bind (Spec.skip rfl anyExc_fault fun s _ h => req_of_working rfl h.1.1)
  intro failed
  exact Spec.ret fun _ _ _ => trivial

/-! ## An execution -/

theorem only_claim : worker.claim.Only fun op => ∀ id, op.spares id := by
  refine .bind (only_call fun _ => trivial) fun now =>
    only_withUow (fun _ => trivial) (fun _ => trivial)
      (.bind (Prog.only_ofExcept _) fun staleBefore => .bind ?_ fun records => ?_)
  · refine .bind (only_call fun _ => trivial) ?_
    intro rows
    split
    · trivial
    · exact .bind (only_call fun _ h => by cases h) fun _ => trivial
  · split
    · exact .bind (only_call fun _ => trivial) fun _ => trivial
    · trivial

/-- **An execution of the relay.** -/
theorem runs_publishOutbox :
    Runs py i (fun s => (Relaying py i worker s ∧ s.DidOnly Op.notSelect i) ∧
        ∀ id, Unreleased i id s) (worker.execute py) (fun _ _ => True) anyExc := by
  have hclaim := Runs.frameOnly (F := fun s => ∀ id, Unreleased i id s)
    (φ := fun op => ∀ id, op.spares id)
    (fun _ _ _ _ _ hop _ _ hd h id => unreleased_exec (hop id) hd (h id)) (only_claim worker)
    (Runs.frame (F := Relaying py i worker) (runs_claim : Runs py i _ worker.claim _ _))
  refine Runs.bind (Runs.weaken hclaim
    (fun _ _ h => ⟨⟨⟨h.1.1, h.1.2, fun id => (h.2 id).1⟩, h.1.1⟩, h.2⟩) (fun _ _ _ h => h)
    fun _ _ _ _ => trivial) ?_
  intro records
  refine Runs.pre (P := fun s => (ClaimedAll i records s ∧ ∀ id, Unreleased i id s) ∧
    Relaying py i worker s) ?_ fun _ _ h => ⟨⟨h.1.1, h.2⟩, h.1.2⟩
  refine Runs.tryFinally (A := fun _ _ => True) (E := anyExc) ?_ (runs_refresh worker)
  split
  · apply Runs.bind (Runs.pre (runs_purge worker _ _) fun _ _ h => h.2)
    intro _
    exact Runs.ret fun _ _ _ => trivial
  · refine Runs.pre (P := fun s => ∃ (rows : List OutboxModel) (claimedAt : Time),
      ((Relaying py i worker s ∧ ∀ row, row ∈ rows → s.Claimed i row claimedAt) ∧
        ∀ row, row ∈ rows → Unreleased i row.id s) ∧
      records = rows.map (fun row => OutboxMapper.toClaimedRecord row claimedAt) ∧
        (rows.map (·.id)).Nodup) ?_ fun s _ h => ?_
    · refine Runs.of_exists fun rows => Runs.of_exists fun claimedAt => Runs.of_pure ?_
      intro hrec
      obtain ⟨rfl, hnd⟩ := hrec
      exact runs_attemptAll worker rows claimedAt hnd 0
    · obtain ⟨⟨⟨rows, claimedAt, hrec, hclaimed⟩, hun⟩, hr⟩ := h
      exact ⟨rows, claimedAt, ⟨⟨hr, hclaimed⟩, fun row _ => hun row.id⟩, hrec⟩

end PaymentProcessing
