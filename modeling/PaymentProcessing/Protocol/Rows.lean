import PaymentProcessing.Protocol.Runs

/-!
# Outbox rows over a run

`RowChange` says what a commit does to one outbox row, with everything its process knows when it
does it; the guarantees about the outbox are by cases on it. Ids of rows are never used twice, so
a row that is gone stays gone.
-/

namespace PaymentProcessing

open Python Relational Concurrency World

variable {py : Platform} {A : Allowed} {i : Nat} {s : World} {y y' : Config}
  {a : Action Choice Kind Env}

/-- What a commit of process `i` does to the outbox row with this id. -/
inductive RowChange (py : Platform) (i : Nat) (s : World) (id : UUID) :
    Option OutboxModel → Option OutboxModel → Prop where
  | kept (row : Option OutboxModel) : RowChange py i s id row row
  | created (p : Payment) (issued : s.IssuedTo i id) (unused : ¬ s.Used id) :
    RowChange py i s id none (some (createdEvent id p.id p.createdAt))
  | claimed (worker : PublishOutbox) (rows : List OutboxModel) (now : Time) (row : OutboxModel)
      (hws : s.staged i = claimWrites rows now) (mem : row ∈ rows) (hid : row.id = id)
      (relays : s.Relays i worker) (read : s.Did i .now (.ok now)) (selected : s.Selected i rows now)
      (due : OutboxClaimFilter.build now (now - worker.claimTimeout) row = true)
      (first : s.NotReleased i id) :
    RowChange py i s id (some row) (some ((SqlOutboxQueue.claimPatch now).apply row))
  | marked (row₀ row : OutboxModel) (claimedAt publishedAt : Time) (hid : row₀.id = id)
      (hws : s.staged i = [.updateOutbox id (SqlOutboxQueue.processedPatch publishedAt)])
      (claimed : s.Claimed i row₀ claimedAt) (published : s.Published py i row₀ claimedAt)
      (first : s.NotReleased i id) :
    RowChange py i s id (some row) (some ((SqlOutboxQueue.processedPatch publishedAt).apply row))
  | released (worker : PublishOutbox) (row₀ row : OutboxModel) (claimedAt : Time)
      (patch : OutboxPatch) (hid : row₀.id = id) (hws : s.staged i = [.updateOutbox id patch])
      (relays : s.Relays i worker) (claimed : s.Claimed i row₀ claimedAt)
      (failed : s.DeliveryFailed py i row₀) (first : s.NotReleased i id)
      (legit : ReleaseLegit worker row₀ patch) :
    RowChange py i s id (some row) (some (patch.apply row))
  | purged (row : OutboxModel) (processed : row.status = .processed)
      (hws : .deleteOutbox id ∈ s.staged i) : RowChange py i s id (some row) none

/-- **What a commit does to an outbox row.** -/
theorem row_change (hi : Inv s) (h : CommitLegit py i s (s.staged i)) (id : UUID) :
    RowChange py i s id (s.db.outbox.find? id) ((s.db.writeAll (s.staged i)).outbox.find? id) := by
  generalize hws : s.staged i = ws at h
  cases h with
  | nothing | complete | charge | remember => exact .kept _
  | create p eventId pending unprocessed locked keyLocked fresh freshKey issued unused =>
    have hnone : s.db.outbox.find? eventId = none := by
      cases hf : s.db.outbox.find? eventId with
      | none => rfl
      | some row => exact absurd (hi.outbox _ _ hf) unused
    have hfind : (s.db.writeAll [.insertPayment (PaymentMapper.toModel p),
        .insertOutbox (createdEvent eventId p.id p.createdAt)]).outbox.find? id =
          if id = eventId then some (createdEvent eventId p.id p.createdAt)
          else s.db.outbox.find? id :=
      Table.find?_insert (r := createdEvent eventId p.id p.createdAt) hnone id
    rw [hfind]
    by_cases hid : id = eventId
    · subst hid
      rw [if_pos rfl, hnone]
      exact .created p issued unused
    · rw [if_neg hid]
      exact .kept _
  | claim worker rows now relays read selected locked current due first =>
    rw [claimWrites, Tables.find?_updates]
    by_cases hid : id ∈ rows.map (·.id)
    · obtain ⟨row, hrow, rfl⟩ := List.mem_map.1 hid
      rw [if_pos hid, current row hrow]
      exact .claimed worker rows now row hws hrow rfl relays read selected (due row hrow)
        (first row hrow)
    · rw [if_neg hid]
      exact .kept _
  | mark row₀ claimedAt publishedAt claimed published first locked =>
    rw [Tables.find?_updateOne]
    by_cases hid : id = row₀.id
    · subst hid
      rw [if_pos rfl]
      cases s.db.outbox.find? row₀.id with
      | none => exact .kept _
      | some row => exact .marked row₀ row claimedAt publishedAt rfl hws claimed published first
    · rw [if_neg hid]
      exact .kept _
  | release worker row₀ claimedAt patch relays claimed failed first locked legit =>
    rw [Tables.find?_updateOne]
    by_cases hid : id = row₀.id
    · subst hid
      rw [if_pos rfl]
      cases s.db.outbox.find? row₀.id with
      | none => exact .kept _
      | some row =>
        exact .released worker row₀ row claimedAt patch rfl hws relays claimed failed first legit
    · rw [if_neg hid]
      exact .kept _
  | purge rows locked current processed =>
    rw [Tables.find?_deletes]
    by_cases hid : id ∈ rows.map (·.id)
    · obtain ⟨row, hrow, rfl⟩ := List.mem_map.1 hid
      rw [if_pos hid, current row hrow]
      refine .purged row (processed row hrow) ?_
      rw [hws]
      exact List.mem_map_of_mem hid
    · rw [if_neg hid]
      exact .kept _

/-- A row after a commit, with what the commit did to it. -/
theorem row_committed (hi : Inv s) (h : CommitLegit py i s (s.staged i)) {id : UUID}
    {row : OutboxModel} {r : Except Exc (Res .commit)}
    (hf : ((s.commit i).note (.did i .commit r)).db.outbox.find? id = some row) :
    ∃ before, s.db.outbox.find? id = before ∧ RowChange py i s id before (some row) :=
  ⟨_, rfl, hf ▸ row_change hi h id⟩

/-- What is known of the commit of a settlement. -/
inductive SettleCases (py : Platform) (i : Nat) (s : World) (id : UUID) (patch : OutboxPatch) :
    Prop where
  | marked (row : OutboxModel) (claimedAt publishedAt : Time) (hid : row.id = id)
      (hpatch : patch = SqlOutboxQueue.processedPatch publishedAt)
      (claimed : s.Claimed i row claimedAt) (published : s.Published py i row claimedAt)
      (first : s.NotReleased i id)
  | released (worker : PublishOutbox) (row : OutboxModel) (claimedAt : Time) (hid : row.id = id)
      (claimed : s.Claimed i row claimedAt) (failed : s.DeliveryFailed py i row)
      (first : s.NotReleased i id) (legit : ReleaseLegit worker row patch)

/-- A batch that updates one row, but does not claim it, settles it. -/
theorem CommitLegit.settle_cases {ws : List Write} {id : UUID} {patch : OutboxPatch}
    (h : CommitLegit py i s ws) (hws : ws = [.updateOutbox id patch])
    (hst : patch.status ≠ .processing) : SettleCases py i s id patch := by
  cases h with
  | nothing | create | complete | charge | remember => cases hws
  | claim worker rows now =>
    obtain ⟨row', -, hw⟩ := List.mem_map.1 (hws ▸ List.mem_singleton_self _)
    cases hw
    exact absurd rfl hst
  | mark row claimedAt publishedAt claimed published first =>
    cases hws
    exact .marked row claimedAt publishedAt rfl rfl claimed published first
  | release worker row claimedAt patch' relays claimed failed first locked legit =>
    cases hws
    exact .released worker row claimedAt rfl claimed failed first legit
  | purge rows =>
    obtain ⟨id, -, hw⟩ := List.mem_map.1 (hws ▸ List.mem_singleton_self _)
    cases hw

/-! ## Runs -/

/-- **An invariant of the tables**, commit by commit, under an assumption on the commits. -/
theorem Reachable.commits {P : World → Prop} (h : Reachable py A y)
    (h₀ : ∀ clock, P (World.init clock))
    (hsame : ∀ s s', s'.db = s.db → s.log <:+ s'.log →
      (∀ i ws, s'.Logged (.committed i ws) → s.Logged (.committed i ws)) → P s → P s')
    (hcommit : ∀ y a i r, Reachable py A y → A y a → Commits y a i →
      CommitLegit py i y.state (y.state.staged i) → P y.state →
      P ((y.state.commit i).note (.did i .commit r))) : P y.state := by
  refine h.invariant (P := fun y => P y.state) h₀ ?_
  intro y y' a hr _ hP ha hl
  cases hl.change with
  | commit i r commits legit hs =>
    rw [hs]
    exact hcommit y a i r hr ha commits legit hP
  | same db log committed => exact hsame _ _ db log committed hP

theorem Reachable.commitsLater {P : World → Prop} (h : Reachable py A y)
    (hs : (machine py).Steps A y y') (h₀ : P y.state)
    (hsame : ∀ s s', s'.db = s.db → s.log <:+ s'.log →
      (∀ i ws, s'.Logged (.committed i ws) → s.Logged (.committed i ws)) → P s → P s')
    (hcommit : ∀ y a i r, Reachable py A y → A y a → Commits y a i →
      CommitLegit py i y.state (y.state.staged i) → P y.state →
      P ((y.state.commit i).note (.did i .commit r))) : P y'.state := by
  refine h.later (P := fun y => P y.state) hs h₀ ?_
  intro y y' a hr _ hP ha hl
  cases hl.change with
  | commit i r commits legit hs =>
    rw [hs]
    exact hcommit y a i r hr ha commits legit hP
  | same db log committed => exact hsame _ _ db log committed hP

/-- What holds of every relay that is started holds of every relay. -/
theorem relays_spawned {φ : PublishOutbox → Prop}
    (hA : ∀ y a, A y a → ∀ i worker, a = .spawn i (.publishOutbox worker) → φ worker)
    (h : Reachable py A y) : ∀ i worker, y.state.Relays i worker → φ worker := by
  refine h.invariant (P := fun y => ∀ i worker, y.state.Relays i worker → φ worker)
    (fun _ _ _ hw => by cases hw) ?_
  intro y y' a _ _ hP ha hl i worker hw
  rcases hl.started hw with hw | rfl
  · exact hP i worker hw
  · exact hA _ _ ha i worker rfl

/-- A reading of the clock is an old one, or the action has just taken it. -/
theorem Legit.read (hl : Legit py a y y') {now : Time} (hd : y'.state.Did i .now (.ok now)) :
    y.state.Did i .now (.ok now) ∨
      ∃ k f c, a = .run i c ∧ y.procs i = .running k (.call .now f) ∧ c.time = now := by
  refine (hl.logged hd).imp_right ?_
  intro hadds
  cases hadds with
  | did _ k _ f _ c ha hi req hs =>
    obtain ⟨s₁, hs₁, -⟩ := exec_ok hs
    cases hs₁
    exact ⟨k, f, c, ha, hi, rfl⟩

theorem logged_commit {e : Entry} {r : Except Exc (Res .commit)} :
    ((s.commit i).note (.did i .commit r)).Logged e ↔
      e = .did i .commit r ∨ e = .committed i (s.staged i) ∨ s.Logged e := by
  simp only [Logged, note, commit, endTx, List.mem_cons]

theorem selected_unique (h : Reachable py A y) {rows rows' : List OutboxModel} {now now' : Time}
    (hs : y.state.Selected i rows now) (hs' : y.state.Selected i rows' now') :
    rows = rows' ∧ now = now' := by
  revert rows rows' now now'
  refine h.invariant (P := fun y => ∀ {rows rows' : List OutboxModel} {now now' : Time},
    y.state.Selected i rows now → y.state.Selected i rows' now' → rows = rows' ∧ now = now')
    (fun _ _ _ _ _ hs _ => by obtain ⟨_, _, hd⟩ := hs; cases hd) fun y y' a hr _ hP _ hl => ?_
  intro rows rows' now now' hs hs'
  have hold : ∀ {limit limit' rows now now' stale stale'},
      y.state.Did i (.selectClaimable limit now stale) (.ok rows) →
      ¬ Req py i (.selectClaimable limit' now' stale') y.state := by
    rintro _ _ _ _ _ _ _ hd ⟨-, -, worker, hsel⟩
    exact hsel.first _ _ hd
  obtain ⟨limit, stale, hd⟩ := hs
  obtain ⟨limit', stale', hd'⟩ := hs'
  rcases hl.did hd with hd | ⟨hreq, c, hexec⟩
  · rcases hl.did hd' with hd' | ⟨hreq', -⟩
    · exact hP ⟨limit, stale, hd⟩ ⟨limit', stale', hd'⟩
    · exact absurd hreq' (hold hd)
  · rcases hl.did hd' with hd' | ⟨hreq', c', hexec'⟩
    · exact absurd hreq (hold hd')
    · -- one action performs one operation
      obtain ⟨l, hlog, -⟩ := exec_log hexec
      obtain ⟨l', hlog', -⟩ := exec_log hexec'
      have hhead := (hlog.symm.trans hlog')
      simp only [List.cons.injEq, Entry.did.injEq] at hhead
      obtain ⟨⟨-, hop, hr⟩, -⟩ := hhead
      cases hop
      cases hr
      exact ⟨rfl, rfl⟩

/-- What holds when process `i` commits the claim of `row` at `now`. -/
structure Claims (i : Nat) (row : OutboxModel) (now : Time) (s : World) : Prop where
  worker : ∃ worker, s.Relays i worker ∧
    OutboxClaimFilter.build now (now - worker.claimTimeout) row = true
  read : s.Did i .now (.ok now)
  current : s.db.outbox.find? row.id = some row
  first : s.NotReleased i row.id

/-- A batch that claims a row is a claim. -/
theorem CommitLegit.claim_cases {ws : List Write} {rows : List OutboxModel} {now : Time}
    (h : CommitLegit py i s ws) (hws : ws = claimWrites rows now) {row : OutboxModel}
    (hrow : row ∈ rows) : ∃ rows' now', s.Selected i rows' now' ∧
      ∀ row ∈ rows', Claims i row now' s := by
  have hmem : Write.updateOutbox row.id (SqlOutboxQueue.claimPatch now) ∈ ws := by
    rw [hws]
    exact List.mem_map_of_mem (List.mem_map_of_mem hrow)
  cases h with
  | claim worker rows' now' relays read selected locked current due first =>
    exact ⟨rows', now', selected, fun row' hrow' => ⟨⟨worker, relays, due row' hrow'⟩, read,
      current row' hrow', first row' hrow'⟩⟩
  | nothing => cases hmem
  | create | complete | charge | remember => simp at hmem
  | mark => simp [SqlOutboxQueue.claimPatch, SqlOutboxQueue.processedPatch] at hmem
  | release worker row claimedAt patch relays claimed failed first locked legit =>
    cases legit with
    | failed => simp [SqlOutboxQueue.claimPatch, SqlOutboxQueue.releasePatch] at hmem
    | new => simp [SqlOutboxQueue.claimPatch, SqlOutboxQueue.releasePatch] at hmem
  | purge => simp at hmem

theorem selected_of_commit {j : Nat} {rows : List OutboxModel} {now : Time}
    {r : Except Exc (Res .commit)}
    (h : ((s.commit i).note (.did i .commit r)).Selected j rows now) : s.Selected j rows now := by
  obtain ⟨limit, stale, hd⟩ := h
  rcases logged_commit.1 hd with he | he | hd
  · cases he
  · cases he
  · exact ⟨limit, stale, hd⟩

theorem selected_of_claim (h : Reachable py A y) : ∀ i rows now row, row ∈ rows →
    y.state.Logged (.committed i (claimWrites rows now)) →
      ∃ rows' now', y.state.Selected i rows' now' := by
  refine h.commits (P := fun s => ∀ i rows now row, row ∈ rows →
    s.Logged (.committed i (claimWrites rows now)) → ∃ rows' now', s.Selected i rows' now')
    (fun _ _ _ _ _ _ hw => by cases hw) ?_ ?_
  · intro s s' _ hlog hback hP i rows now row hrow hw
    obtain ⟨rows', now', limit, stale, hd⟩ := hP i rows now row hrow (hback _ _ hw)
    exact ⟨rows', now', limit, stale, hlog.subset hd⟩
  · intro y a i r _ _ _ hlegit hP j rows now row hrow hw
    have hold : ∀ {rows' now'}, y.state.Selected j rows' now' →
        ((y.state.commit i).note (.did i .commit r)).Selected j rows' now' := by
      rintro rows' now' ⟨limit, stale, hd⟩
      exact ⟨limit, stale, logged_commit.2 (.inr (.inr hd))⟩
    rcases logged_commit.1 hw with he | he | hw
    · cases he
    · injection he with hj hws
      subst hj
      obtain ⟨rows', now', hsel, -⟩ := hlegit.claim_cases hws.symm hrow
      exact ⟨rows', now', hold hsel⟩
    · obtain ⟨rows', now', hsel⟩ := hP j rows now row hrow hw
      exact ⟨rows', now', hold hsel⟩

theorem claimed_commit (h : Reachable py A y) {j : Nat} {row : OutboxModel} {now : Time}
    {r : Except Exc (Res .commit)} (hlegit : CommitLegit py i y.state (y.state.staged i))
    (hc : ((y.state.commit i).note (.did i .commit r)).Claimed j row now) :
    y.state.Claimed j row now ∨ (j = i ∧ Claims i row now y.state) := by
  obtain ⟨rows, hsel, hrow, hlog⟩ := hc
  replace hsel := selected_of_commit hsel
  rcases logged_commit.1 hlog with he | he | hlog
  · cases he
  · injection he with hj hws
    subst hj
    obtain ⟨rows', now', hsel', hclaims⟩ := hlegit.claim_cases hws.symm hrow
    obtain ⟨rfl, rfl⟩ := selected_unique h hsel hsel'
    exact .inr ⟨rfl, hclaims row hrow⟩
  · exact .inl ⟨rows, hsel, hrow, hlog⟩

/-- A claim that is new was just committed, whatever the action. -/
theorem Legit.claimed (h : Reachable py A y) (hl : Legit py a y y') {row : OutboxModel}
    {now : Time} (hc : y'.state.Claimed i row now) : y.state.Claimed i row now ∨
      (Commits y a i ∧ Claims i row now y.state) := by
  cases hl.change with
  | commit j r commits legit hs =>
    rw [hs] at hc
    rcases claimed_commit h legit hc with hc | ⟨rfl, hclaims⟩
    · exact .inl hc
    · exact .inr ⟨commits, hclaims⟩
  | same db log committed =>
    obtain ⟨rows, ⟨limit, stale, hd⟩, hrow, hlog⟩ := hc
    have hold := committed _ _ hlog
    rcases hl.did hd with hd | ⟨⟨-, -, worker, hsel⟩, -⟩
    · exact .inl ⟨rows, ⟨limit, stale, hd⟩, hrow, hold⟩
    · -- it has selected before
      obtain ⟨rows', now', limit', stale', hd'⟩ := selected_of_claim h i rows now row hrow hold
      exact (hsel.first _ _ hd').elim

theorem claimed_used (h : Reachable py A y) : ∀ i row now, y.state.Claimed i row now →
    y.state.Used row.id := by
  refine h.invariant (P := fun y => ∀ i row now, y.state.Claimed i row now →
    y.state.Used row.id) (fun _ _ _ _ hc => by obtain ⟨_, ⟨_, _, hd⟩, _⟩ := hc; cases hd) ?_
  intro y y' a hr _ hP _ hl i row now hc
  have hold : y.state.Used row.id → y'.state.Used row.id := fun ⟨j, ws, r, hw, hu⟩ =>
    ⟨j, ws, r, (hl.evolves (sound py) hr.inv).log.subset hw, hu⟩
  rcases hl.claimed hr hc with hc | ⟨-, hclaims⟩
  · exact hold (hP _ _ _ hc)
  · exact hold (hr.inv.outbox _ _ hclaims.current)

/-- Process `i` has committed a release of the row. -/
def World.Released (i : Nat) (id : UUID) (s : World) : Prop :=
  ∃ ws, s.Logged (.committed i ws) ∧ id ∈ releases ws

end PaymentProcessing
