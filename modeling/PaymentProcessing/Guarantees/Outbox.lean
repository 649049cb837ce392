import PaymentProcessing.Protocol.Rows

/-!
# What becomes of an outbox row

Claiming, publishing and settling a row are separate transactions, and settling selects the row by
its id alone. A worker that has lost its claim still settles: it may put a processed row back, and
overwrite a count of attempts that has grown. As long as no worker does, a processed row is final
and the count never falls. The count of attempts is never ahead of the failed deliveries either
way.
-/

namespace PaymentProcessing

open Python Relational Concurrency World

variable {py : Platform} {A : Allowed} {i : Nat} {s : World} {y y' : Config} {id : UUID}
  {a : Action Choice Kind Env}

/-! ## Processed rows -/

namespace World

/-- `mark_processed` with this time was committed for the row. -/
def Marked (id : UUID) (publishedAt : Time) (s : World) : Prop :=
  ∃ j, s.Logged (.committed j [.updateOutbox id (SqlOutboxQueue.processedPatch publishedAt)])

/-- A purge of the row was committed. -/
def Purged (id : UUID) (s : World) : Prop :=
  ∃ j ws, s.Logged (.committed j ws) ∧ .deleteOutbox id ∈ ws

end World

instance (publishedAt : Time) : (discipline py).Persistent (Marked id publishedAt) :=
  inferInstanceAs ((discipline py).Persistent fun s => ∃ _, s.Logged _)

instance : (discipline py).Persistent (Purged id) :=
  inferInstanceAs ((discipline py).Persistent fun s => ∃ j ws, s.Logged (.committed j ws) ∧ _)

instance : (discipline py).Persistent (Used id) :=
  inferInstanceAs ((discipline py).Persistent fun s => ∃ i ws _, s.Logged (.committed i ws) ∧
    _ ∧ _)

/-- No worker settles a row for which a mark is committed, other than by the same mark. -/
def SettlesOpen : Allowed := fun y a =>
  ∀ i id patch publishedAt, Commits y a i → y.state.staged i = [.updateOutbox id patch] →
    patch.status ≠ .processing → y.state.Marked id publishedAt →
      patch = SqlOutboxQueue.processedPatch publishedAt

theorem Reachable.persistentCommit {P : World → Prop} [hP : (discipline py).Persistent P]
    (h : Reachable py A y) (hlegit : CommitLegit py i y.state (y.state.staged i))
    (r : Except Exc (Res .commit)) (hy : P y.state) :
    P ((y.state.commit i).note (.did i .commit r)) :=
  hP.persistent _ _ (commit_evolves (hlegit.effect h.inv) rfl r) hy

/-- A processed row was marked, with its time of publication. -/
theorem processed_marked (h : Reachable py A y) : ∀ id row,
    y.state.db.outbox.find? id = some row → row.status = .processed →
      ∃ t, row.publishedAt = some t ∧ y.state.Marked id t := by
  refine h.commits (P := fun s => ∀ id row, s.db.outbox.find? id = some row →
    row.status = .processed → ∃ t, row.publishedAt = some t ∧ s.Marked id t)
    (fun _ _ _ hf => by cases hf) ?_ ?_
  · intro s s' hdb hlog _ hP id row hf hst
    rw [hdb] at hf
    obtain ⟨t, ht, j, hm⟩ := hP id row hf hst
    exact ⟨t, ht, j, hlog.subset hm⟩
  · intro y a i r hr _ _ hlegit hP id row hf hst
    obtain ⟨before, hbefore, hchange⟩ := row_committed hr.inv hlegit hf
    cases hchange with
    | kept =>
      obtain ⟨t, ht, hm⟩ := hP id row hbefore hst
      exact ⟨t, ht, hr.persistentCommit (P := Marked id t) hlegit r hm⟩
    | created | claimed => cases hst
    | marked row₀ row claimedAt publishedAt hid hws =>
      refine ⟨publishedAt, rfl, i, logged_commit.2 (.inr (.inl ?_))⟩
      rw [hws]
    | released worker row₀ row claimedAt patch hid hws relays claimed failed first legit =>
      cases legit <;> cases hst

theorem processed_stays (h : Reachable py SettlesOpen y)
    (hs : (machine py).Steps SettlesOpen y y') {row : OutboxModel} {t : Time}
    (hrow : y.state.db.outbox.find? id = some row) (hst : row.status = .processed)
    (ht : row.publishedAt = some t) (hm : y.state.Marked id t) : y'.state.Marked id t ∧
      ((y'.state.db.outbox.find? id = none ∧ y'.state.Used id ∧ y'.state.Purged id) ∨
        ∃ row', y'.state.db.outbox.find? id = some row' ∧ row'.status = .processed ∧
          row'.publishedAt = some t) := by
  refine h.commitsLater (P := fun s => s.Marked id t ∧ ((s.db.outbox.find? id = none ∧ s.Used id ∧
    s.Purged id) ∨ ∃ row', s.db.outbox.find? id = some row' ∧ row'.status = .processed ∧
      row'.publishedAt = some t)) hs ⟨hm, .inr ⟨row, hrow, hst, ht⟩⟩ ?_ ?_
  · intro s s' hdb hlog _ hP
    rw [hdb]
    obtain ⟨⟨j, hm⟩, hP⟩ := hP
    refine ⟨⟨j, hlog.subset hm⟩, hP.imp (fun hgone => ?_) fun hthere => hthere⟩
    obtain ⟨hnone, ⟨i, ws, r, hw, hu⟩, i', ws', hw', hd⟩ := hgone
    exact ⟨hnone, ⟨i, ws, r, hlog.subset hw, hu⟩, i', ws', hlog.subset hw', hd⟩
  · intro y a i r hr ha hc hlegit hP
    obtain ⟨hm, hP⟩ := hP
    refine ⟨hr.persistentCommit (P := Marked id t) hlegit r hm, ?_⟩
    have hchange := row_change hr.inv hlegit id
    rcases hP with ⟨hnone, hused, hpurged⟩ | ⟨row', hrow', hst', ht'⟩
    · rw [hnone] at hchange
      refine .inl ⟨?_, hr.persistentCommit (P := Used id) hlegit r hused,
        hr.persistentCommit (P := Purged id) hlegit r hpurged⟩
      generalize hafter : (y.state.db.writeAll (y.state.staged i)).outbox.find? id = after at hchange
      cases hchange with
      | kept => exact hafter
      | created p issued unused => exact absurd hused unused
    · rw [hrow'] at hchange
      generalize hafter : (y.state.db.writeAll (y.state.staged i)).outbox.find? id = after at hchange
      cases hchange with
      | kept => exact .inr ⟨row', hafter, hst', ht'⟩
      | claimed worker rows now _ hws mem hid relays read selected due =>
        rcases OutboxClaimFilter.build_iff.1 due with ⟨hnew, -⟩ | ⟨hproc, -⟩
        · rw [hst'] at hnew
          cases hnew
        · rw [hst'] at hproc
          cases hproc
      | marked row₀ _ claimedAt publishedAt hid hws =>
        have hsame := ha i id _ t hc hws (by simp [SqlOutboxQueue.processedPatch]) hm
        refine .inr ⟨_, hafter, rfl, ?_⟩
        rw [hsame]
        rfl
      | released worker row₀ _ claimedAt patch hid hws relays claimed failed first legit =>
        have hne : patch.status ≠ .processing := by
          cases legit <;> simp [SqlOutboxQueue.releasePatch]
        have hsame := ha i id _ t hc hws hne hm
        subst hsame
        cases legit
      | purged _ processed hws =>
        refine .inl ⟨hafter, ?_, i, y.state.staged i, logged_commit.2 (.inr (.inl rfl)), hws⟩
        exact hr.persistentCommit (P := Used id) hlegit r (hr.inv.outbox _ _ hrow')

/-- **A processed row is final**, if no worker settles a row that has been marked: it stays
processed, with its time of publication, until it is purged, and is never claimed again. -/
theorem processed_is_final (h : Reachable py SettlesOpen y)
    (hs : (machine py).Steps SettlesOpen y y') {row : OutboxModel}
    (hrow : y.state.db.outbox.find? id = some row) (hst : row.status = .processed) :
    ∃ t, row.publishedAt = some t ∧
      ((y'.state.db.outbox.find? id = none ∧ y'.state.Purged id) ∨
        ∃ row', y'.state.db.outbox.find? id = some row' ∧ row'.status = .processed ∧
          row'.publishedAt = some t) ∧
      ∀ i row' now, row'.id = id → y'.state.Claimed i row' now → y.state.Claimed i row' now := by
  obtain ⟨t, ht, hm⟩ := processed_marked h id row hrow hst
  refine ⟨t, ht, ?_, ?_⟩
  · exact (processed_stays h hs hrow hst ht hm).2.imp (fun h => ⟨h.1, h.2.2⟩) fun h => h
  · refine hs.invariant (P := fun y' => ∀ i row' now, row'.id = id → y'.state.Claimed i row' now →
      y.state.Claimed i row' now) (fun _ _ _ _ hc => hc) fun y₁ y₂ a hs₁ hP ha hstep => ?_
    intro i row' now hid hc
    have hr := h.steps hs₁
    have hl : Legit py a y₁ y₂ := hr.good.legit (sound py) hstep
    rcases hl.claimed hr hc with hc | ⟨-, hclaims⟩
    · exact hP i row' now hid hc
    · -- only a row that is new or being processed can be claimed
      obtain ⟨worker, -, due⟩ := hclaims.worker
      have hcur := hclaims.current
      rw [hid] at hcur
      rcases (processed_stays h hs₁ hrow hst ht hm).2 with ⟨hnone, -⟩ | ⟨row₂, hrow₂, hst₂, -⟩
      · rw [hnone] at hcur
        cases hcur
      · rw [hrow₂] at hcur
        cases hcur
        rcases OutboxClaimFilter.build_iff.1 due with ⟨hnew, -⟩ | ⟨hproc, -⟩
        · rw [hst₂] at hnew
          cases hnew
        · rw [hst₂] at hproc
          cases hproc

/-- A worker for sample runs. -/
def sampleWorker : PublishOutbox where
  batchSize := 10
  maxAttempts := 2
  claimTimeout := 60
  retention := 1000
  backoff := ⟨.finite 1, .finite 4, false⟩

/-- Worker `i` claims what is due at `t`. -/
def claimsAt (i : Nat) (t : Time) : List (Action Choice Kind Env) :=
  [.spawn i (.publishOutbox sampleWorker), .run i { time := t }] ++ performs i 4

/-- Worker `i` fails to publish at `t`, and releases. -/
def failsAt (i : Nat) (t : Time) : List (Action Choice Kind Env) :=
  [.run i { outcome := .lost (.external 0) }, .run i {}, .run i { time := t }] ++ performs i 3

/-- No mark was committed, or the action is no commit. -/
def marksFirst (y : Config) (a : Action Choice Kind Env) : Bool :=
  match a with
  | .run i _ =>
    match y.procs i with
    | .running _ (.call .commit _) => y.state.log.all fun
      | .committed _ [.updateOutbox _ patch] => patch.publishedAt.isNone
      | _ => true
    | _ => true
  | _ => true

theorem marksFirst_settlesOpen {y : Config} {a : Action Choice Kind Env}
    (h : marksFirst y a = true) : SettlesOpen y a := by
  intro i id patch publishedAt hc _ _ hm
  obtain ⟨k, f, c, rfl, hi, -⟩ := hc
  obtain ⟨j, hm⟩ := hm
  simp only [marksFirst, hi, List.all_eq_true] at h
  cases h _ hm

/-- A row is created, claimed, published and marked. -/
def markedRun : List (Action Choice Kind Env) :=
  creates 0 (UUID.ofNat 1) (UUID.ofNat 2) ++ claimsAt 1 0 ++ performs 1 4

theorem processed_is_final_sample : ∃ y, (machine samplePlatform).runActions markedRun
    (Config.init 0) = some y ∧ ∃ row, y.state.db.outbox.find? (UUID.ofNat 2) = some row ∧
      ∃ t, row.publishedAt = some t := by
  have hA : (machine samplePlatform).AllowedActions SettlesOpen markedRun (Config.init 0) :=
    Machine.AllowedActions.mono (fun _ _ => marksFirst_settlesOpen)
      (by decide +kernel : (machine samplePlatform).AllowedActions
        (fun y a => marksFirst y a = true) markedRun (Config.init 0))
  obtain ⟨y, hy⟩ := Option.isSome_iff_exists.1 (by decide +kernel :
    ((machine samplePlatform).runActions markedRun (Config.init 0)).isSome = true)
  have hst : (((machine samplePlatform).runActions markedRun (Config.init 0)).map fun y =>
      (y.state.db.outbox.find? (UUID.ofNat 2)).map (·.status)) = some (some .processed) := by
    decide +kernel
  rw [hy, Option.map_some, Option.some.injEq, Option.map_eq_some_iff] at hst
  obtain ⟨row, hrow, hst⟩ := hst
  obtain ⟨t, ht, -⟩ := processed_is_final (reachable_of_run hA hy) .refl hrow hst
  exact ⟨y, hy, row, hrow, t, ht⟩

/-- One worker loses its claim to another, which marks the row. -/
def lostClaimRun : List (Action Choice Kind Env) :=
  creates 0 (UUID.ofNat 1) (UUID.ofNat 2) ++ claimsAt 1 0 ++ claimsAt 2 60 ++ performs 2 4

/-- The sample row at the end of a run. -/
def sampleRow (acts : List (Action Choice Kind Env)) : Option OutboxModel :=
  ((machine samplePlatform).runActions acts (Config.init 0)).bind fun y =>
    y.state.db.outbox.find? (UUID.ofNat 2)

theorem sampleRow_changes (acts acts' : List (Action Choice Kind Env)) {row row' : OutboxModel}
    (h : sampleRow acts = some row) (h' : sampleRow (acts ++ acts') = some row') :
    ∃ y y', Reachable samplePlatform anyAction y ∧
      (machine samplePlatform).Steps anyAction y y' ∧
      y.state.db.outbox.find? (UUID.ofNat 2) = some row ∧
      y'.state.db.outbox.find? (UUID.ofNat 2) = some row' := by
  obtain ⟨y₁, hy₁, hrow'⟩ := Option.bind_eq_some_iff.1 h'
  have hA : (machine samplePlatform).AllowedActions anyAction (acts ++ acts') (Config.init 0) :=
    Machine.AllowedActions.any (fun _ _ => trivial) ..
  obtain ⟨y, y', hy, hy', hr, hs⟩ := reachable_of_runs acts acts' hA (by rw [hy₁]; rfl)
  rw [hy₁, Option.some.injEq] at hy'
  subst hy'
  rw [sampleRow, hy] at h
  exact ⟨y, y₁, hr, hs, h, hrow'⟩

/-- A worker that lost its claim to another one puts the processed row back. -/
theorem processed_row_put_back : ∃ y y' row row', Reachable samplePlatform anyAction y ∧
    (machine samplePlatform).Steps anyAction y y' ∧
    y.state.db.outbox.find? (UUID.ofNat 2) = some row ∧
    y'.state.db.outbox.find? (UUID.ofNat 2) = some row' ∧
    row.status = .processed ∧ row'.status = .new := by
  have hst : (sampleRow lostClaimRun).map (·.status) = some .processed := by decide +kernel
  have hst' : (sampleRow (lostClaimRun ++ failsAt 1 61)).map (·.status) = some .new := by
    decide +kernel
  obtain ⟨row, hrow, hst⟩ := Option.map_eq_some_iff.1 hst
  obtain ⟨row', hrow', hst'⟩ := Option.map_eq_some_iff.1 hst'
  obtain ⟨y, y', hr, hs, h, h'⟩ := sampleRow_changes _ _ hrow hrow'
  exact ⟨y, y', row, row', hr, hs, h, h', hst, hst'⟩

/-! ## The count of attempts -/

/-- Every worker gives up after the same number of attempts. -/
def SameAttempts (n : Int) : Allowed := fun _ a =>
  ∀ i worker, a = .spawn i (.publishOutbox worker) → worker.maxAttempts = n

/-- A worker releases a row only while the row's count is at most one ahead of the count it has
read. -/
def ReleasesCurrent : Allowed := fun y a =>
  ∀ i row₀ claimedAt row patch, Commits y a i → y.state.staged i = [.updateOutbox row₀.id patch] →
    patch.retryCount.isSome = true → y.state.Claimed i row₀ claimedAt →
      y.state.db.outbox.find? row₀.id = some row → row.retryCount ≤ row₀.retryCount + 1

theorem relays_attempts {n : Int} (hA : ∀ y a, A y a → SameAttempts n y a)
    (h : Reachable py A y) : ∀ i worker, y.state.Relays i worker → worker.maxAttempts = n :=
  relays_spawned (φ := fun worker => worker.maxAttempts = n) hA h

/-- A row that was given up has used up its attempts. -/
theorem failed_count {n : Int} (hA : ∀ y a, A y a → SameAttempts n y a) (h : Reachable py A y) :
    ∀ id row, y.state.db.outbox.find? id = some row → row.status = .failed →
      n ≤ row.retryCount := by
  refine h.commits (P := fun s => ∀ id row, s.db.outbox.find? id = some row →
    row.status = .failed → n ≤ row.retryCount) (fun _ _ _ hf => by cases hf) ?_ ?_
  · intro s s' hdb _ _ hP id row hf hst
    rw [hdb] at hf
    exact hP id row hf hst
  · intro y a i r hr _ _ hlegit hP id row hf hst
    obtain ⟨before, hbefore, hchange⟩ := row_committed hr.inv hlegit hf
    cases hchange with
    | kept => exact hP id row hbefore hst
    | created | claimed | marked => cases hst
    | released worker row₀ row claimedAt patch hid hws relays claimed failed first legit =>
      cases legit with
      | failed hmax =>
        rw [relays_attempts hA hr i worker relays] at hmax
        exact hmax
      | new => cases hst

/-- **The count of attempts never falls**, and a row that was given up stays so or is processed, if
workers release only rows whose count is at most one ahead of what they have read. -/
theorem retry_count_grows {n : Int}
    (h : Reachable py (fun y a => SameAttempts n y a ∧ ReleasesCurrent y a) y)
    (hs : (machine py).Steps (fun y a => SameAttempts n y a ∧ ReleasesCurrent y a) y y')
    {row row' : OutboxModel} (hrow : y.state.db.outbox.find? id = some row)
    (hrow' : y'.state.db.outbox.find? id = some row') :
    row.retryCount ≤ row'.retryCount ∧
      (row.status = .failed → row'.status ≠ .new ∧ row'.status ≠ .processing) := by
  have hA : ∀ y a, SameAttempts n y a ∧ ReleasesCurrent y a → SameAttempts n y a :=
    fun _ _ h => h.1
  have hkeep : y'.state.Used id ∧ ∀ row', y'.state.db.outbox.find? id = some row' →
      row.retryCount ≤ row'.retryCount ∧
        (row.status = .failed → row'.status = .failed ∨ row'.status = .processed) := by
    refine h.commitsLater (P := fun s => s.Used id ∧ ∀ row', s.db.outbox.find? id = some row' →
      row.retryCount ≤ row'.retryCount ∧
        (row.status = .failed → row'.status = .failed ∨ row'.status = .processed)) hs ?_ ?_ ?_
    · refine ⟨h.inv.outbox _ _ hrow, fun row' hf => ?_⟩
      rw [hrow] at hf
      cases hf
      exact ⟨le_refl _, fun hst => .inl hst⟩
    · intro s s' hdb hlog _ hP
      rw [hdb]
      obtain ⟨⟨i, ws, r, hw, hu⟩, hP⟩ := hP
      exact ⟨⟨i, ws, r, hlog.subset hw, hu⟩, hP⟩
    · intro y₁ a i r hr ha hc hlegit hP
      obtain ⟨hused, hP⟩ := hP
      refine ⟨hr.persistentCommit (P := Used id) hlegit r hused, fun row' hf => ?_⟩
      obtain ⟨before, hbefore, hchange⟩ := row_committed hr.inv hlegit hf
      cases hchange with
      | kept => exact hP row' hbefore
      | created p issued unused => exact absurd hused unused
      | claimed worker rows now row₁ hws mem hid relays read selected due =>
        obtain ⟨hle, hfailed⟩ := hP row₁ hbefore
        refine ⟨hle, fun hst => ?_⟩
        rcases OutboxClaimFilter.build_iff.1 due with ⟨hnew, -⟩ | ⟨hproc, -⟩
        · rw [hnew] at hfailed
          rcases hfailed hst with h | h <;> cases h
        · rw [hproc] at hfailed
          rcases hfailed hst with h | h <;> cases h
      | marked row₀ row₁ => exact ⟨(hP row₁ hbefore).1, fun _ => .inr rfl⟩
      | released worker row₀ row₁ claimedAt patch hid hws relays claimed failed first legit =>
        subst hid
        have hle := (hP row₁ hbefore).1
        have hcur : row₁.retryCount ≤ row₀.retryCount + 1 := by
          refine ha.2 i row₀ claimedAt row₁ patch hc hws ?_ claimed hbefore
          cases legit <;> rfl
        cases legit with
        | failed hmax => exact ⟨le_trans hle hcur, fun _ => .inl rfl⟩
        | new hlt t =>
          refine ⟨le_trans hle hcur, fun hst => ?_⟩
          -- a row that was given up has no attempt left
          have hn := failed_count hA h _ row hrow hst
          rw [relays_attempts hA hr i worker relays] at hlt
          omega
  obtain ⟨hle, hfailed⟩ := hkeep.2 row' hrow'
  refine ⟨hle, fun hst => ?_⟩
  rcases hfailed hst with h | h <;> simp [h]

/-- What the selections in the log have read of the row is at most one behind. -/
def countsRead (y : Config) (a : Action Choice Kind Env) : Bool :=
  match a with
  | .spawn _ (.publishOutbox worker) => worker.maxAttempts = 2
  | .run i _ =>
    match y.procs i with
    | .running _ (.call .commit _) => y.state.log.all fun
      | .did _ (.selectClaimable ..) (.ok rows) => rows.all fun row₀ =>
        match y.state.db.outbox.find? row₀.id with
        | some row => row.retryCount ≤ row₀.retryCount + 1
        | none => true
      | _ => true
    | _ => true
  | _ => true

theorem countsRead_current {y : Config} {a : Action Choice Kind Env}
    (h : countsRead y a = true) : SameAttempts 2 y a ∧ ReleasesCurrent y a := by
  constructor
  · rintro i worker rfl
    exact of_decide_eq_true h
  · intro i row₀ claimedAt row patch hc _ _ hclaimed hrow
    obtain ⟨k, f, c, rfl, hi, -⟩ := hc
    obtain ⟨rows, ⟨limit, stale, hd⟩, hmem, -⟩ := hclaimed
    simp only [countsRead, hi, List.all_eq_true] at h
    have hcount := h _ hd
    simp only [List.all_eq_true] at hcount
    have hrow₀ := hcount row₀ hmem
    rw [hrow] at hrow₀
    exact of_decide_eq_true hrow₀

/-- A row is claimed, fails twice and is given up. -/
def givenUpRun : List (Action Choice Kind Env) :=
  creates 0 (UUID.ofNat 1) (UUID.ofNat 2) ++ claimsAt 1 0 ++ failsAt 1 1 ++
    claimsAt 2 2000000 ++ failsAt 2 2000001

theorem retry_count_grows_sample : ∃ row, sampleRow givenUpRun = some row ∧
    row.status ≠ .new ∧ row.status ≠ .processing := by
  have hA : (machine samplePlatform).AllowedActions (fun y a => SameAttempts 2 y a ∧
      ReleasesCurrent y a) givenUpRun (Config.init 0) :=
    Machine.AllowedActions.mono (fun _ _ => countsRead_current)
      (by decide +kernel : (machine samplePlatform).AllowedActions
        (fun y a => countsRead y a = true) givenUpRun (Config.init 0))
  have hst : (sampleRow givenUpRun).map (·.status) = some .failed := by decide +kernel
  obtain ⟨row, hrow, hst⟩ := Option.map_eq_some_iff.1 hst
  obtain ⟨y, hy, hfind⟩ := Option.bind_eq_some_iff.1 hrow
  exact ⟨row, hrow, (retry_count_grows (reachable_of_run hA hy) .refl hfind hfind).2 hst⟩

/-- A first worker loses its claim; two others fail to publish and give the row up. -/
def overtakenRun : List (Action Choice Kind Env) :=
  creates 0 (UUID.ofNat 1) (UUID.ofNat 2) ++ claimsAt 1 0 ++ claimsAt 2 60 ++ failsAt 2 61 ++
    claimsAt 3 2000000 ++ failsAt 3 2000001

/-- The worker that lost its claim resets the count, and the row that was given up is new again. -/
theorem retry_count_reset : ∃ y y' row row', Reachable samplePlatform anyAction y ∧
    (machine samplePlatform).Steps anyAction y y' ∧
    y.state.db.outbox.find? (UUID.ofNat 2) = some row ∧
    y'.state.db.outbox.find? (UUID.ofNat 2) = some row' ∧
    (row.status = .failed ∧ row.retryCount = 2) ∧ row'.status = .new ∧ row'.retryCount = 1 := by
  have hst : (sampleRow overtakenRun).map (fun row => (row.status, row.retryCount)) =
      some (.failed, 2) := by decide +kernel
  have hst' : (sampleRow (overtakenRun ++ failsAt 1 2000002)).map (fun row =>
      (row.status, row.retryCount)) = some (.new, 1) := by decide +kernel
  obtain ⟨row, hrow, hst⟩ := Option.map_eq_some_iff.1 hst
  obtain ⟨row', hrow', hst'⟩ := Option.map_eq_some_iff.1 hst'
  obtain ⟨y, y', hr, hs, h, h'⟩ := sampleRow_changes _ _ hrow hrow'
  exact ⟨y, y', row, row', hr, hs, h, h', Prod.mk.inj hst, Prod.mk.inj hst'⟩

/-! ## Failed deliveries -/

namespace World

/-- Processes that each failed to deliver the row and released it, `k` in number. -/
def Chain (py : Platform) (φ : Nat → Prop) (id : UUID) (k : Int) (s : World) : Prop :=
  ∃ chain : List Nat, (chain.Nodup ∧ k = chain.length) ∧ ∀ j ∈ chain, φ j ∧ s.Released j id ∧
    ∃ row₀ : OutboxModel, row₀.id = id ∧ s.DeliveryFailed py j row₀

end World

instance (j : Nat) : (discipline py).Persistent (Released j id) :=
  inferInstanceAs ((discipline py).Persistent fun s => ∃ ws, s.Logged (.committed j ws) ∧ _)

theorem World.Chain.mono {φ : Nat → Prop} {k : Int} {s s' : World} (h : s.Chain py φ id k)
    (hlog : s.log <:+ s'.log) : s'.Chain py φ id k := by
  obtain ⟨chain, hchain, hmem⟩ := h
  refine ⟨chain, hchain, fun j hj => ?_⟩
  obtain ⟨hφ, ⟨ws, hw, hrel⟩, row₀, hid, hfailed⟩ := hmem j hj
  exact ⟨hφ, ⟨ws, hlog.subset hw, hrel⟩, row₀, hid, hfailed.mono hlog⟩

/-- A process that failed to deliver the row and releases it makes the chain of its claim longer. -/
theorem World.Chain.release {s : World} {row₀ : OutboxModel}
    (h : s.Chain py (· ≠ i) row₀.id row₀.retryCount) (hreleased : s.Released i row₀.id)
    (hfailed : s.DeliveryFailed py i row₀) :
    s.Chain py (fun _ => True) row₀.id (row₀.retryCount + 1) := by
  obtain ⟨chain, ⟨hnodup, hcount⟩, hmem⟩ := h
  refine ⟨i :: chain, ⟨List.nodup_cons.2 ⟨fun hi => (hmem i hi).1 rfl, hnodup⟩, ?_⟩, fun j hj => ?_⟩
  · rw [List.length_cons, hcount, Nat.cast_succ]
  · rcases List.mem_cons.1 hj with rfl | hj
    · exact ⟨trivial, hreleased, row₀, rfl, hfailed⟩
    · exact ⟨trivial, (hmem j hj).2⟩

/-- Whoever is in the chain has released the row. -/
theorem World.Chain.without {φ : Nat → Prop} {k : Int} {s : World} (h : s.Chain py φ id k)
    (hfirst : s.NotReleased i id) : s.Chain py (· ≠ i) id k := by
  obtain ⟨chain, hchain, hmem⟩ := h
  refine ⟨chain, hchain, fun j hj => ⟨?_, (hmem j hj).2⟩⟩
  rintro rfl
  obtain ⟨-, ⟨ws, hw, hrel⟩, -⟩ := hmem j hj
  exact hfirst ws hw hrel

/-- The count of every row, and of every row as it was claimed, was written along a chain, which
for a claim is one of other processes. -/
structure CountsChained (py : Platform) (s : World) : Prop where
  rows : ∀ id row, s.db.outbox.find? id = some row → s.Chain py (fun _ => True) id row.retryCount
  claims : ∀ i row now, s.Claimed i row now → s.Chain py (· ≠ i) row.id row.retryCount

theorem CountsChained.rows_step (h : CountsChained py y.state) (hr : Reachable py A y)
    (hl : Legit py a y y') {row : OutboxModel} (hf : y'.state.db.outbox.find? id = some row) :
    y'.state.Chain py (fun _ => True) id row.retryCount := by
  have hlog := (hl.evolves (sound py) hr.inv).log
  cases hl.change with
  | same hdb =>
    rw [hdb] at hf
    exact (h.rows id row hf).mono hlog
  | commit i r hc hlegit hs =>
    rw [hs] at hf
    obtain ⟨before, hbefore, hchange⟩ := row_committed hr.inv hlegit hf
    cases hchange with
    | kept => exact (h.rows id row hbefore).mono hlog
    | created => exact ⟨[], ⟨List.nodup_nil, rfl⟩, fun _ hj => by cases hj⟩
    | claimed worker rows now row => exact (h.rows id row hbefore).mono hlog
    | marked row₀ row => exact (h.rows id row hbefore).mono hlog
    | released worker row₀ row claimedAt patch hid hws relays claimed failed first legit =>
      -- the releasing process is added to the chain of its claim
      subst hid
      have hreleased : y'.state.Released i row₀.id := by
        refine ⟨y.state.staged i, ?_, ?_⟩
        · rw [hs]
          exact logged_commit.2 (.inr (.inl rfl))
        · rw [hws]
          cases legit <;> exact List.mem_singleton_self _
      have hcount : (patch.apply row).retryCount = row₀.retryCount + 1 := by cases legit <;> rfl
      rw [hcount]
      exact ((h.claims i row₀ claimedAt claimed).mono hlog).release hreleased
        (hl.persistent hr failed)

theorem CountsChained.claims_step (h : CountsChained py y.state) (hr : Reachable py A y)
    (hl : Legit py a y y') {row : OutboxModel} {now : Time} (hc : y'.state.Claimed i row now) :
    y'.state.Chain py (· ≠ i) row.id row.retryCount := by
  have hlog := (hl.evolves (sound py) hr.inv).log
  rcases hl.claimed hr hc with hc | ⟨-, hnew⟩
  · exact (h.claims i row now hc).mono hlog
  · exact ((h.rows row.id row hnew.current).without hnew.first).mono hlog

/-- Along every chain of claims, each count was written by one more process that failed. -/
theorem counts_chained (h : Reachable py A y) : CountsChained py y.state := by
  refine h.invariant (P := fun y => CountsChained py y.state) (fun clock => ?_)
    fun y y' a hr _ hP _ hl =>
      ⟨fun _ _ => hP.rows_step hr hl, fun _ _ _ => hP.claims_step hr hl⟩
  refine ⟨(fun _ _ hf => by cases hf), fun _ _ _ hc => ?_⟩
  obtain ⟨_, ⟨_, _, hd⟩, _⟩ := hc
  cases hd

/-- **A row is never given up too early.** Its count is the number of processes in a chain that all
failed to deliver it, and a row that was given up has at least as many as the limit. -/
theorem failed_not_premature {n : Int} (h : Reachable py (SameAttempts n) y) {row : OutboxModel}
    (hrow : y.state.db.outbox.find? id = some row) :
    ∃ deliveries : List Nat, deliveries.Nodup ∧ row.retryCount = deliveries.length ∧
      (∀ j ∈ deliveries, ∃ row₀ : OutboxModel, row₀.id = id ∧ y.state.DeliveryFailed py j row₀) ∧
      (row.status = .failed → n ≤ row.retryCount ∧ n ≤ deliveries.length) := by
  obtain ⟨chain, ⟨hnodup, hcount⟩, hmem⟩ := (counts_chained h).rows id row hrow
  refine ⟨chain, hnodup, hcount, fun j hj => (hmem j hj).2.2, fun hst => ?_⟩
  have hn := failed_count (fun _ _ h => h) h id row hrow hst
  omega

theorem failed_not_premature_sample : ∃ y row, (machine samplePlatform).runActions givenUpRun
    (Config.init 0) = some y ∧ y.state.db.outbox.find? (UUID.ofNat 2) = some row ∧
      ∃ deliveries : List Nat, deliveries.Nodup ∧ (2 : Int) ≤ deliveries.length ∧
        ∀ j ∈ deliveries, ∃ row₀ : OutboxModel, row₀.id = UUID.ofNat 2 ∧
          y.state.DeliveryFailed samplePlatform j row₀ := by
  have hA : (machine samplePlatform).AllowedActions (SameAttempts 2) givenUpRun (Config.init 0) :=
    Machine.AllowedActions.mono (fun _ _ h => (countsRead_current h).1)
      (by decide +kernel : (machine samplePlatform).AllowedActions
        (fun y a => countsRead y a = true) givenUpRun (Config.init 0))
  have hst : (sampleRow givenUpRun).map (·.status) = some .failed := by decide +kernel
  obtain ⟨row, hrow, hst⟩ := Option.map_eq_some_iff.1 hst
  obtain ⟨y, hy, hfind⟩ := Option.bind_eq_some_iff.1 hrow
  obtain ⟨deliveries, hnodup, -, hfailed, hn⟩ :=
    failed_not_premature (reachable_of_run hA hy) hfind
  exact ⟨y, row, hy, hfind, deliveries, hnodup, (hn hst).2, hfailed⟩

end PaymentProcessing
