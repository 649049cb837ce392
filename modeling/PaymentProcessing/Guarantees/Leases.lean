import PaymentProcessing.Guarantees.Outbox

/-!
# Leases

A claim is a lease: another worker takes the row only when `claimed_at` is older than the claim
timeout. If workers read one clock and do nothing for a row after its lease has run out, a row has
one holder at a time, nobody else publishes or settles it, and every release counts one more than
the count in the table.
-/

namespace PaymentProcessing

open Python Relational Concurrency World

variable {py : Platform} {A : Allowed} {T : Int} {i j : Nat} {s s' : World} {y y' : Config}
  {a : Action Choice Kind Env} {id : UUID} {row row' : OutboxModel} {t t' : Time}

/-! ## What workers do for a row -/

/-- Process `i` has claimed `row` at `t`, and publishes its event or commits its settlement. -/
inductive Works (py : Platform) (y : Config) (a : Action Choice Kind Env) (i : Nat)
    (row : OutboxModel) (t : Time) : Prop where
  | publishes (k : Kind) (body : List (String × Json)) (headers : Headers) (expiration : Option Int)
      (f : Except Exc Unit → App Reply) (c : Choice) (ha : a = .run i c)
      (hi : y.procs i = .running k (.call (.publish .new body headers expiration) f))
      (claimed : y.state.Claimed i row t)
      (encoded : OutboxEventCodec.encode py (OutboxMapper.toClaimedRecord row t) =
        .ok (body, headers))
  | settles (patch : OutboxPatch) (commits : Commits y a i)
      (hws : y.state.staged i = [.updateOutbox row.id patch]) (hst : patch.status ≠ .processing)
      (claimed : y.state.Claimed i row t)

/-- Workers have one claim timeout and read one clock, and what they do for a row they do before the
lease has run out. -/
structure LeasesKept (py : Platform) (T : Int) (y : Config) (a : Action Choice Kind Env) : Prop where
  timeout : ∀ i worker, a = .spawn i (.publishOutbox worker) → worker.claimTimeout = T
  clock : ∀ i c k f worker, a = .run i c → y.procs i = .running k (.call .now f) →
    y.state.Relays i worker → c.time = y.state.clock
  inTime : ∀ i row t, Works py y a i row t → y.state.clock < t + T

/-- Process `i` holds the row: it has claimed it at `t` and not released it, and the lease has not
run out. -/
structure World.Leases (T : Int) (i : Nat) (row : OutboxModel) (t : Time) (s : World) : Prop where
  claimed : s.Claimed i row t
  unreleased : s.NotReleased i row.id
  live : s.clock < t + T

theorem Works.claimed (h : Works py y a i row t) : y.state.Claimed i row t := by
  cases h with
  | publishes k body headers expiration f c ha hi claimed encoded => exact claimed
  | settles patch commits hws hst claimed => exact claimed

theorem Works.runs (h : Works py y a i row t) : ∃ c, a = .run i c := by
  cases h with
  | publishes k body headers expiration f c ha hi claimed encoded => exact ⟨c, ha⟩
  | settles patch commits hws hst claimed =>
    obtain ⟨k, f, c, ha, -⟩ := commits
    exact ⟨c, ha⟩

theorem encode_id {record record' : OutboxRecord} {body : List (String × Json)}
    {headers headers' : Headers} (h : OutboxEventCodec.encode py record = .ok (body, headers))
    (h' : OutboxEventCodec.encode py record' = .ok (body, headers')) : record.id = record'.id := by
  have hbody := (OutboxEventCodec.encode_eq h).1
  rw [(OutboxEventCodec.encode_eq h').1] at hbody
  have hextract := OutboxEventCodec.extractOutboxId_envelope py record none
  rw [← hbody, OutboxEventCodec.extractOutboxId_envelope] at hextract
  exact (Option.some.inj hextract).symm

theorem Works.unreleased (hr : Reachable py A y) (h : Works py y a i row t) :
    y.state.NotReleased i row.id := by
  cases h with
  | publishes k body headers expiration f c ha hi claimed encoded =>
    have hlegit : PublishLegit py i y.state .new body headers := (hr.req hi).2.2
    cases hlegit with
    | event row' claimedAt body headers claimed' unreleased encoded' =>
      have hid : row.id = row'.id := encode_id encoded encoded'
      rw [hid]
      exact unreleased
  | settles patch commits hws hst claimed =>
    cases (hr.commitLegit commits).settle_cases hws hst with
    | marked row' claimedAt publishedAt hid hpatch claimed' published first => exact first
    | released worker row' claimedAt hid claimed' failed first => exact first

/-- Who works for a row in time holds it. -/
theorem Works.leases (hr : Reachable py A y) (ha : LeasesKept py T y a)
    (h : Works py y a i row t) : y.state.Leases T i row t :=
  ⟨h.claimed, h.unreleased hr, ha.inTime i row t h⟩

/-- Every event of the outbox is published for a row that was claimed. -/
theorem publishes_works (hr : Reachable py A y) {k : Kind} {body : List (String × Json)}
    {headers : Headers} {expiration : Option Int} {f : Except Exc Unit → App Reply}
    (hi : y.procs i = .running k (.call (.publish .new body headers expiration) f)) (c : Choice) :
    ∃ row t, Works py y (.run i c) i row t := by
  have hlegit : PublishLegit py i y.state .new body headers := (hr.req hi).2.2
  cases hlegit with
  | event row claimedAt body headers claimed unreleased encoded =>
    exact ⟨row, claimedAt, .publishes k body headers expiration f c rfl hi claimed encoded⟩

/-- Every settlement is of a row that was claimed. -/
theorem settles_works (hr : Reachable py A y) {patch : OutboxPatch} (hc : Commits y a i)
    (hws : y.state.staged i = [.updateOutbox id patch]) (hst : patch.status ≠ .processing) :
    ∃ row t, row.id = id ∧ Works py y a i row t := by
  cases (hr.commitLegit hc).settle_cases hws hst with
  | marked row claimedAt publishedAt hid hpatch claimed =>
    exact ⟨row, claimedAt, hid, .settles patch hc (hid ▸ hws) hst claimed⟩
  | released worker row claimedAt hid claimed =>
    exact ⟨row, claimedAt, hid, .settles patch hc (hid ▸ hws) hst claimed⟩

/-! ## The clock -/

theorem read_le_clock (h : Reachable py (LeasesKept py T) y) : ∀ i worker now,
    y.state.Relays i worker → y.state.Did i .now (.ok now) → now ≤ y.state.clock := by
  refine h.invariant (P := fun y => ∀ i worker now, y.state.Relays i worker →
    y.state.Did i .now (.ok now) → now ≤ y.state.clock) (fun _ _ _ _ hw _ => by cases hw) ?_
  intro y y' a hr _ hP ha hl i worker now hw hd
  rcases hl.read hd with hd | ⟨k, f, c, hrun, hi, htime⟩
  · rcases hl.started hw with hw | rfl
    · exact (hP i worker now hw hd).trans hl.clock_le
    · -- who is spawned has read nothing
      exact absurd rfl (not_logged_of_own hl.own_spawned hd)
  · rcases hl.started hw with hw | rfl
    · rw [← htime, ha.clock i c k f worker hrun hi hw]
      exact hl.clock_le
    · cases hrun

theorem relays_timeout (h : Reachable py (LeasesKept py T) y) : ∀ i worker,
    y.state.Relays i worker → worker.claimTimeout = T :=
  relays_spawned (φ := fun worker => worker.claimTimeout = T) (fun _ _ ha => ha.timeout) h

/-! ## Leased rows -/

/-- What the leases say about the table. -/
structure LeaseInv (T : Int) (s : World) : Prop where
  /-- A leased row is as its holder has claimed it, or processed. -/
  row : ∀ i row t, s.Leases T i row t → ∀ row', s.db.outbox.find? row.id = some row' →
    row'.retryCount = row.retryCount ∧
      (row'.status = .processing ∧ row'.claimedAt = some t ∨ row'.status = .processed)
  unique : ∀ i j row t row' t', s.Leases T i row t → s.Leases T j row' t' → row.id = row'.id → i = j

theorem LeaseInv.not_due (h : LeaseInv T s) (hl : s.Leases T i row t) {now : Time}
    (hrow' : s.db.outbox.find? row.id = some row') (hnow : now ≤ s.clock) :
    OutboxClaimFilter.build now (now - T) row' = false := by
  rw [Bool.eq_false_iff]
  intro hdue
  have hlive := hl.live
  obtain ⟨-, ⟨hst, hclaimed⟩ | hst⟩ := h.row i row t hl row' hrow'
  · rcases OutboxClaimFilter.build_iff.1 hdue with ⟨hnew, -⟩ | ⟨-, hstale⟩
    · rw [hst] at hnew
      cases hnew
    · obtain ⟨claimedAt, hat, hle⟩ := hstale
      rw [hclaimed, Option.some.injEq] at hat
      subst hat
      linarith
  · rcases OutboxClaimFilter.build_iff.1 hdue with ⟨hnew, -⟩ | ⟨hproc, -⟩
    · rw [hst] at hnew
      cases hnew
    · rw [hst] at hproc
      cases hproc

theorem LeaseInv.not_claims (hr : Reachable py (LeasesKept py T) y) (h : LeaseInv T y.state)
    (hl : y.state.Leases T i row t) (hc : Claims j row' t' y.state) : row.id ≠ row'.id := by
  intro hid
  obtain ⟨worker, hrelays, hdue⟩ := hc.worker
  have hnow := read_le_clock hr j worker t' hrelays hc.read
  rw [relays_timeout hr j worker hrelays, h.not_due hl (hid ▸ hc.current) hnow] at hdue
  cases hdue

theorem Legit.claimed_cases (h : Reachable py A y) (hl : Legit py a y y')
    (hc : y'.state.Claimed i row t) : y.state.Claimed i row t ∨
      (Claims i row t y.state ∧ Commits y a i ∧
        y'.state.db.outbox.find? row.id = some ((SqlOutboxQueue.claimPatch t).apply row)) := by
  rcases hl.claimed h hc with hold | ⟨hcommits, hclaims⟩
  · exact .inl hold
  · obtain ⟨rows, ⟨limit, stale, hd⟩, hrow, hlog⟩ := hc
    rcases hl.committed hlog with hold | ⟨-, hst, -, r, hs⟩
    · rcases hl.did hd with hd | ⟨⟨-, -, worker, hsel⟩, -⟩
      · exact .inl ⟨rows, ⟨limit, stale, hd⟩, hrow, hold⟩
      · -- it has selected before
        obtain ⟨rows', now', limit', stale', hd'⟩ := selected_of_claim h i rows t row hrow hold
        exact (hsel.first _ _ hd').elim
    · refine .inr ⟨hclaims, hcommits, ?_⟩
      rw [hs]
      show (y.state.db.writeAll (y.state.staged i)).outbox.find? row.id = _
      rw [hst, claimWrites, Tables.find?_updates, if_pos (List.mem_map_of_mem hrow),
        hclaims.current]
      rfl

/-- A lease is held before the action, or the action claims the row. -/
theorem Legit.leases_cases (h : Reachable py A y) (hl : Legit py a y y')
    (hy : y'.state.Leases T i row t) : y.state.Leases T i row t ∨
      (Claims i row t y.state ∧ Commits y a i ∧
        y'.state.db.outbox.find? row.id = some ((SqlOutboxQueue.claimPatch t).apply row)) := by
  refine (hl.claimed_cases h hy.claimed).imp_left fun hclaimed => ⟨hclaimed, fun ws hw => ?_, ?_⟩
  · exact hy.unreleased ws ((hl.evolves (sound py) h.inv).log.subset hw)
  · exact lt_of_le_of_lt hl.clock_le hy.live

/-- What an action makes of a leased row, if the lease still runs. -/
theorem LeaseInv.row_kept (hr : Reachable py (LeasesKept py T) y) (h : LeaseInv T y.state)
    (ha : LeasesKept py T y a) (hl : Legit py a y y') (hlease : y.state.Leases T i row t)
    (hun : y'.state.NotReleased i row.id)
    (hrow' : y'.state.db.outbox.find? row.id = some row') :
    row'.retryCount = row.retryCount ∧
      (row'.status = .processing ∧ row'.claimedAt = some t ∨ row'.status = .processed) := by
  cases hl.change with
  | same db =>
    rw [db] at hrow'
    exact h.row i row t hlease row' hrow'
  | commit j r commits legit hs =>
    rw [hs] at hrow'
    obtain ⟨before, hbefore, hchange⟩ := row_committed hr.inv legit hrow'
    cases hchange with
    | kept => exact h.row i row t hlease row' hbefore
    | created p issued unused => exact absurd (claimed_used hr i row t hlease.claimed) unused
    | claimed worker rows now row₁ hws mem hid relays read selected due first =>
      refine absurd hid.symm (h.not_claims hr hlease ⟨⟨worker, relays, due⟩, read, ?_, ?_⟩)
      · rw [hid]
        exact hbefore
      · rw [hid]
        exact first
    | marked row₀ row₁ claimedAt publishedAt hid hws claimed published first =>
      exact ⟨(h.row i row t hlease row₁ hbefore).1, .inr rfl⟩
    | released worker row₀ row₁ claimedAt patch hid hws relays claimed failed first release =>
      -- it is released by its only holder
      exfalso
      have hst : patch.status ≠ .processing := by
        cases release <;> simp [SqlOutboxQueue.releasePatch]
      rw [← hid] at hws
      have hworks := (Works.settles patch commits hws hst claimed : Works py y a j row₀ claimedAt)
      obtain rfl := h.unique i j row t row₀ claimedAt hlease (hworks.leases hr ha) hid.symm
      refine hun (y.state.staged i) ?_ ?_
      · rw [hs]
        exact logged_commit.2 (.inr (.inl rfl))
      · rw [hws, ← hid]
        cases release <;> exact List.mem_singleton_self _

/-- **The leases are exclusive.** -/
theorem lease_inv (h : Reachable py (LeasesKept py T) y) : LeaseInv T y.state := by
  refine h.invariant (P := fun y => LeaseInv T y.state) ?_ fun y y' a hr _ hP ha hl => ?_
  · intro clock
    have hno : ∀ i row t, ¬ (World.init clock).Leases T i row t := by
      rintro i row t ⟨⟨_, ⟨_, _, hd⟩, _⟩, -, -⟩
      cases hd
    exact ⟨fun i row t hlease => absurd hlease (hno i row t),
      fun i j row t row' t' hlease => absurd hlease (hno i row t)⟩
  · refine ⟨fun i row t hlease row' hrow' => ?_, fun i j row t row' t' hi hj hid => ?_⟩
    · rcases hl.leases_cases hr hlease with hold | ⟨-, -, hafter⟩
      · exact hP.row_kept hr ha hl hold hlease.unreleased hrow'
      · rw [hafter] at hrow'
        cases hrow'
        exact ⟨rfl, .inl ⟨rfl, rfl⟩⟩
    · rcases hl.leases_cases hr hi with hi | ⟨hci, hi, -⟩
      · rcases hl.leases_cases hr hj with hj | ⟨hcj, -, -⟩
        · exact hP.unique i j row t row' t' hi hj hid
        · exact absurd hid (hP.not_claims hr hi hcj)
      · rcases hl.leases_cases hr hj with hj | ⟨-, hj, -⟩
        · exact absurd hid.symm (hP.not_claims hr hj hci)
        · exact hi.unique hj

/-! ## Releases -/

/-- The process of a committed release of the row. -/
def Entry.releaser (id : UUID) : Entry → Option Nat
  | .committed i ws => if id ∈ releases ws then some i else none
  | _ => none

/-- The processes that released the row, one for each release that was committed. -/
def World.releasers (id : UUID) (s : World) : List Nat := s.log.filterMap (Entry.releaser id)

theorem mem_releasers : i ∈ s.releasers id ↔ s.Released i id := by
  rw [releasers, List.mem_filterMap]
  constructor
  · rintro ⟨e, he, hi⟩
    cases e with
    | committed j ws =>
      simp only [Entry.releaser, Option.ite_none_right_eq_some, Option.some.injEq] at hi
      obtain ⟨hid, rfl⟩ := hi
      exact ⟨ws, he, hid⟩
    | started | delivered | did => cases hi
  · rintro ⟨ws, hw, hid⟩
    exact ⟨_, hw, if_pos hid⟩

theorem releasers_append {l : List Entry} (hl : s'.log = l ++ s.log)
    (he : ∀ e ∈ l, Entry.releaser id e = none) : s'.releasers id = s.releasers id := by
  rw [releasers, hl, List.filterMap_append, List.filterMap_eq_nil_iff.2 he]
  rfl

theorem releasers_commit (r : Except Exc (Res .commit)) :
    ((s.commit i).note (.did i .commit r)).releasers id =
      if id ∈ releases (s.staged i) then i :: s.releasers id else s.releasers id := by
  simp only [releasers, note, commit, endTx, List.filterMap_cons, Entry.releaser]
  split_ifs <;> rfl

theorem CommitLegit.release_cases {ws : List Write} (h : CommitLegit py i s ws)
    (hid : id ∈ releases ws) : ∃ worker row t patch, row.id = id ∧ ws = [.updateOutbox id patch] ∧
      s.Claimed i row t ∧ s.DeliveryFailed py i row ∧ s.NotReleased i id ∧
        ReleaseLegit worker row patch := by
  cases h with
  | nothing | create | complete | charge | remember => cases hid
  | claim worker rows now =>
    obtain ⟨patch, hsome, hmem⟩ := mem_releases.1 hid
    obtain ⟨row, -, he⟩ := List.mem_map.1 hmem
    cases he
    cases hsome
  | mark => cases hid
  | release worker row t patch relays claimed failed first locked legit =>
    have hrow : id = row.id := by
      cases legit <;> exact List.mem_singleton.1 hid
    subst hrow
    exact ⟨worker, row, t, patch, rfl, rfl, claimed, failed, first, legit⟩
  | purge rows =>
    obtain ⟨patch, -, hmem⟩ := mem_releases.1 hid
    obtain ⟨row, -, he⟩ := List.mem_map.1 hmem
    cases he

/-- An action that commits nothing releases nothing. -/
theorem Legit.releasers_same (hl : Legit py a y y')
    (hback : ∀ i ws, y'.state.Logged (.committed i ws) → y.state.Logged (.committed i ws)) :
    y'.state.releasers id = y.state.releasers id := by
  cases hl.logs with
  | spawn j k l _ hlog he =>
    apply releasers_append hlog
    intro e hm
    rcases he e hm with rfl | ⟨msg, rfl⟩ <;> rfl
  | silent hlog => exact releasers_append (l := []) hlog (by simp)
  | run j op r c l req hs hlog he =>
    refine releasers_append (l := .did j op r :: l) hlog ?_
    intro e hm
    rcases List.mem_cons.1 hm with rfl | hm'
    · rfl
    · obtain ⟨rfl, rfl⟩ := he e hm'
      apply if_neg
      intro hid
      -- a release is committed once
      obtain ⟨-, -, -, -, -, -, -, -, hun, -⟩ := (req.2.2 : CommitLegit py j _ _).release_cases hid
      refine hun _ (hback j _ ?_) hid
      rw [Logged, hlog]
      exact List.mem_cons_of_mem _ (List.mem_append_left _ hm')

/-- The count of a row: its releases, each by a process of its own after a delivery that failed. -/
structure Counted (py : Platform) (id : UUID) (s : World) : Prop where
  once : (s.releasers id).Nodup
  failed : ∀ i ∈ s.releasers id, ∃ row t, row.id = id ∧ s.Claimed i row t ∧
    s.DeliveryFailed py i row
  count : ∀ row, s.db.outbox.find? id = some row → row.retryCount = (s.releasers id).length

theorem Counted.persists (hr : Reachable py A y) (hl : Legit py a y y')
    (h : ∀ i ∈ y.state.releasers id, ∃ row t, row.id = id ∧ y.state.Claimed i row t ∧
      y.state.DeliveryFailed py i row) : ∀ i ∈ y.state.releasers id, ∃ row t, row.id = id ∧
        y'.state.Claimed i row t ∧ y'.state.DeliveryFailed py i row := by
  intro i hi
  obtain ⟨row, t, hid, hclaimed, hfailed⟩ := h i hi
  exact ⟨row, t, hid, hl.persistent (P := Claimed i row t) hr hclaimed,
    hl.persistent (P := DeliveryFailed py i row) hr hfailed⟩

theorem Counted.unused (hr : Reachable py A y) (h : Counted py id y.state) (hun : ¬ y.state.Used id) :
    y.state.releasers id = [] := by
  apply List.eq_nil_iff_forall_not_mem.2
  intro i hi
  obtain ⟨row, t, rfl, hclaimed, -⟩ := h.failed i hi
  exact hun (claimed_used hr i row t hclaimed)

/-- **A release counts one more.** -/
theorem Counted.release (hr : Reachable py (LeasesKept py T) y) (h : Counted py id y.state)
    (ha : LeasesKept py T y a) (hl : Legit py a y y') {r : Except Exc (Res .commit)}
    (hc : Commits y a j) (hs : y'.state = (y.state.commit j).note (.did j .commit r))
    (hrel : id ∈ releases (y.state.staged j)) : Counted py id y'.state := by
  obtain ⟨worker, row₀, t, patch, rfl, hws, claimed, failed, first, legit⟩ :=
    (hr.commitLegit hc).release_cases hrel
  have hlist : y'.state.releasers row₀.id = j :: y.state.releasers row₀.id := by
    rw [hs, releasers_commit, if_pos hrel]
  refine ⟨?_, ?_, fun row' hrow' => ?_⟩
  · rw [hlist]
    refine List.nodup_cons.2 ⟨fun hj => ?_, h.once⟩
    obtain ⟨ws, hw, hid⟩ := mem_releasers.1 hj
    exact first ws hw hid
  · rw [hlist]
    refine List.forall_mem_cons.2 ⟨⟨row₀, t, rfl, ?_, ?_⟩, Counted.persists hr hl h.failed⟩
    · exact hl.persistent (P := Claimed j row₀ t) hr claimed
    · exact hl.persistent (P := DeliveryFailed py j row₀) hr failed
  · have hafter : (y.state.db.writeAll (y.state.staged j)).outbox.find? row₀.id = some row' := by
      rw [hs] at hrow'
      exact hrow'
    rw [hws, Tables.find?_updateOne, if_pos rfl] at hafter
    obtain ⟨row₁, hrow₁, rfl⟩ := Option.map_eq_some_iff.1 hafter
    -- the row still has the count that was read with the claim
    have hst : patch.status ≠ .processing := by
      cases legit <;> simp [SqlOutboxQueue.releasePatch]
    have hworks : Works py y a j row₀ t := .settles patch hc hws hst claimed
    have hread : row₁.retryCount = row₀.retryCount :=
      ((lease_inv hr).row j row₀ t (hworks.leases hr ha) row₁ hrow₁).1
    have hcount := h.count row₁ hrow₁
    rw [hlist, List.length_cons, Nat.cast_succ, ← hcount, hread]
    cases legit <;> rfl

/-- Another commit leaves the count. -/
theorem Counted.commit (hr : Reachable py A y) (h : Counted py id y.state)
    (hl : Legit py a y y') {r : Except Exc (Res .commit)}
    (legit : CommitLegit py j y.state (y.state.staged j))
    (hs : y'.state = (y.state.commit j).note (.did j .commit r))
    (hrel : id ∉ releases (y.state.staged j)) : Counted py id y'.state := by
  have hlist : y'.state.releasers id = y.state.releasers id := by
    rw [hs, releasers_commit, if_neg hrel]
  refine ⟨hlist ▸ h.once, hlist ▸ Counted.persists hr hl h.failed, fun row' hrow' => ?_⟩
  rw [hlist]
  rw [hs] at hrow'
  obtain ⟨before, hbefore, hchange⟩ := row_committed hr.inv legit hrow'
  cases hchange with
  | kept => exact h.count row' hbefore
  | created p issued unused => rw [h.unused hr unused]; rfl
  | claimed worker rows now row => exact h.count row hbefore
  | marked row₀ row => exact h.count row hbefore
  | released worker row₀ row claimedAt patch hid hws relays claimed failed first release =>
    refine absurd ?_ hrel
    rw [hws]
    cases release <;> exact List.mem_singleton_self _

/-- **Every row counts its releases.** -/
theorem counted (h : Reachable py (LeasesKept py T) y) : ∀ id, Counted py id y.state := by
  refine h.invariant (P := fun y => ∀ id, Counted py id y.state) ?_ fun y y' a hr _ hP ha hl id => ?_
  · exact fun clock id => ⟨List.nodup_nil, (fun _ hi => by cases hi), fun _ hf => by cases hf⟩
  · cases hl.change with
    | same db log committed =>
      have hlist : y'.state.releasers id = y.state.releasers id := hl.releasers_same committed
      refine ⟨hlist ▸ (hP id).once, hlist ▸ Counted.persists hr hl (hP id).failed, ?_⟩
      rw [db, hlist]
      exact (hP id).count
    | commit j r commits legit hs =>
      by_cases hrel : id ∈ releases (y.state.staged j)
      · exact (hP id).release hr ha hl commits hs hrel
      · exact (hP id).commit hr hl legit hs hrel

/-! ## Concurrent claims -/

/-- The operation ends the transaction, or tries to. -/
def Op.endsTx : Op → Bool
  | .commit | .rollback | .close => true
  | _ => false

/-- Process `i` is in the transaction in which it has selected `rows` to claim them. -/
structure Claiming (y : Config) (i : Nat) (rows : List OutboxModel) : Prop where
  runs : ∃ k p, y.procs i = .running k p
  selected : ∃ now, y.state.Selected i rows now
  opened : ∀ op r, y.state.Did i op r → op.endsTx = false

theorem effect_locks {op : Op} {c : Choice} {r : Except Exc (Res op)} {l : Lock}
    (hop : op.endsTx = false) (h : s.effect i c op = some (r, s')) (hl : s.locks.Holds i l) :
    s'.locks.Holds i l := by
  cases effect_cases h with
  | kept hs => subst hs; exact hl
  | committed he => subst he; cases hop
  | ended he => rcases he with rfl | rfl <;> cases hop
  | staged ls ws hws hs => exact ((lockAndStage_spec hs).2.2.1 i l).2 (.inl hl)
  | issued u unused hs => subst hs; exact hl
  | published key body headers expiration _ hs => subst hs; exact hl
  | acked _ hs | rejected _ hs => subst hs; exact hl

theorem exec_locks {op : Op} {c : Choice} {r : Except Exc (Res op)} {l : Lock}
    (hop : op.endsTx = false) (h : World.exec i op c s = some (r, s')) (hl : s.locks.Holds i l) :
    s'.locks.Holds i l := by
  rcases exec_cases h with ⟨s₁, he, rfl⟩ | ⟨f, r₁, s₁, he, -, -, rfl⟩ | ⟨f, -, -, rfl⟩
  · have hs₁ : s₁.locks.Holds i l := effect_locks hop he hl
    exact hs₁
  · have hs₁ : s₁.locks.Holds i l := effect_locks hop he hl
    exact hs₁
  · cases op <;> first | exact hl | cases hop

/-- What an operation of its own leaves locked of an open claim. -/
theorem Claiming.locked_exec (hold : ∀ rows, Claiming y i rows →
      ∀ row ∈ rows, y.state.locks.Holds i (.outbox row.id))
    {k : Kind} {op : Op} {f : Except Exc (Res op) → App Reply} {r : Except Exc (Res op)} {c : Choice}
    {rows : List OutboxModel} (hi : y.procs i = .running k (.call op f)) (hreq : Req py i op y.state)
    (hc : Claiming y' i rows) (hs : World.exec i op c y.state = some (r, y'.state)) :
    ∀ row ∈ rows, y'.state.locks.Holds i (.outbox row.id) := by
  obtain ⟨-, ⟨now, limit, stale, hd⟩, hopened⟩ := hc
  obtain ⟨l, hlog, he⟩ := exec_log hs
  have hop : op.endsTx = false := hopened op r (by
    rw [Did, Logged, hlog]
    exact List.mem_cons_self)
  have hlater : ∀ e, y.state.Logged e → y'.state.Logged e := by
    intro e h
    rw [Logged, hlog]
    exact List.mem_cons_of_mem _ (List.mem_append_right _ h)
  rw [Did, Logged, hlog, List.mem_cons, List.mem_append] at hd
  rcases hd with hd | hd | hd
  · -- it has just selected
    cases hd
    obtain ⟨-, -, worker, hsel⟩ := hreq
    exact fun row hrow => ((selectClaimable_ok hsel.clean hs).2.1 row hrow).1
  · cases (he _ hd).2
  · have hclaiming : Claiming y i rows :=
      ⟨⟨k, _, hi⟩, ⟨now, limit, stale, hd⟩, fun op r h => hopened op r (hlater _ h)⟩
    exact fun row hrow => exec_locks hop hs (hold rows hclaiming row hrow)

/-- **The rows of an open claim are locked.** -/
theorem Claiming.locked (h : Reachable py A y) : ∀ rows, Claiming y i rows →
    ∀ row ∈ rows, y.state.locks.Holds i (.outbox row.id) := by
  refine h.invariant (P := fun y => ∀ rows, Claiming y i rows → ∀ row ∈ rows,
    y.state.locks.Holds i (.outbox row.id)) (fun _ _ hc => by
      obtain ⟨⟨_, _, hrun⟩, -, -⟩ := hc
      cases hrun) ?_
  intro y y' a hr _ hP _ hl rows hc row hrow
  cases hl.turns hr i with
  | others hrely hproc =>
    refine (hrely.locks _).2 (hP rows ⟨?_, ?_, fun op r h => ?_⟩ row hrow)
    · rw [← hproc]
      exact hc.runs
    · obtain ⟨now, limit, stale, hd⟩ := hc.selected
      exact ⟨now, limit, stale, logged_of_own_eq hrely.own hd rfl⟩
    · exact hc.opened op r (hrely.log.subset h)
  | run k op f r c hi req hs => exact Claiming.locked_exec hP hi req hc hs row hrow
  | spawn k p clean hs =>
    -- who is spawned has selected nothing
    obtain ⟨now, limit, stale, hd⟩ := hc.selected
    rcases (start_fresh clean hs).own _ hd rfl with he | ⟨msg, he⟩ <;> cases he
  | killed k hproc =>
    obtain ⟨k', p, hrun⟩ := hc.runs
    rw [hproc] at hrun
    cases hrun

/-- Open claims of different workers have no row in common. -/
theorem Claiming.disjoint (h : Reachable py A y) {rows rows' : List OutboxModel}
    (hi : Claiming y i rows) (hj : Claiming y j rows') (hne : i ≠ j) (hrow : row ∈ rows)
    (hrow' : row' ∈ rows') : row.id ≠ row'.id := by
  intro hid
  have hlock := Claiming.locked h rows hi row hrow
  rw [hid] at hlock
  exact hne (hlock.unique (Claiming.locked h rows' hj row' hrow'))

/-- **A selection leaves out the rows that are leased.** -/
theorem selects_unleased (hr : Reachable py (LeasesKept py T) y) (hl : Legit py a y y')
    {rows : List OutboxModel} {now : Time} (hsel : y'.state.Selected j rows now)
    (hnew : ¬ y.state.Selected j rows now) (hrow' : row' ∈ rows)
    (hlease : y.state.Leases T i row t) : row.id ≠ row'.id := by
  intro hid
  obtain ⟨limit, stale, hd⟩ := hsel
  rcases hl.did hd with hd | ⟨⟨-, -, worker, hsel⟩, c, hexec⟩
  · exact hnew ⟨limit, stale, hd⟩
  · obtain ⟨-, hlocked, hdue⟩ := selectClaimable_ok hsel.clean hexec
    have hcur := (hlocked row' hrow').2
    obtain ⟨s₁, hf, hs₁⟩ := exec_frame (by simp) hexec
    have hdb : y'.state.db = y.state.db := by
      rw [hs₁]
      exact hf.db
    rw [hdb, ← hid] at hcur
    have hstale := hdue row' hrow'
    rw [hsel.staleBefore, relays_timeout hr j worker hsel.relays,
      (lease_inv hr).not_due hlease hcur (read_le_clock hr j worker now hsel.relays hsel.read)]
      at hstale
    cases hstale

/-! ## The guarantee -/

/-- Leases are exclusive. -/
structure LeasesExclusive (py : Platform) (T : Int) (y : Config) : Prop where
  /-- A row has one holder. -/
  holder : ∀ i j row t row' t', y.state.Leases T i row t → y.state.Leases T j row' t' →
    row.id = row'.id → i = j
  /-- From its claim to whatever it still does for the row, a worker holds the row. -/
  working : ∀ i row t y₂ a, y.state.Claimed i row t →
    (machine py).Steps (LeasesKept py T) y y₂ → LeasesKept py T y₂ a → Works py y₂ a i row t →
      y.state.Leases T i row t
  /-- That is every publication of an event and every settlement. -/
  publishes : ∀ i k body headers expiration f c,
    y.procs i = .running k (.call (.publish .new body headers expiration) f) →
      ∃ row t, Works py y (.run i c) i row t
  settles : ∀ a i id patch, Commits y a i → y.state.staged i = [.updateOutbox id patch] →
    patch.status ≠ .processing → ∃ row t, row.id = id ∧ Works py y a i row t
  /-- Concurrent claims have no row in common, and no row is selected that is held. -/
  claims : ∀ i j rows rows', Claiming y i rows → Claiming y j rows' → i ≠ j →
    ∀ row ∈ rows, ∀ row' ∈ rows', row.id ≠ row'.id
  selects : ∀ a y', (machine py).step a y = some y' → ∀ j rows now, y'.state.Selected j rows now →
    ¬ y.state.Selected j rows now → ∀ row' ∈ rows, ∀ i row t, y.state.Leases T i row t →
      row.id ≠ row'.id
  /-- A row's count is the number of its releases, each by a worker whose delivery failed. -/
  counts : ∀ id, (y.state.releasers id).Nodup ∧
    (∀ i ∈ y.state.releasers id, ∃ row, row.id = id ∧ y.state.DeliveryFailed py i row) ∧
    ∀ row, y.state.db.outbox.find? id = some row →
      row.retryCount = (y.state.releasers id).length

/-- **Leases are exclusive when they are respected.** -/
theorem leases_exclusive (h : Reachable py (LeasesKept py T) y) : LeasesExclusive py T y where
  holder := (lease_inv h).unique
  working i row t y₂ a hclaimed hs ha hworks := by
    have hlease := hworks.leases (h.steps hs) ha
    refine ⟨hclaimed, fun ws hw => ?_, lt_of_le_of_lt (h.clock_le hs) hlease.live⟩
    exact hlease.unreleased ws ((h.evolves hs).log.subset hw)
  publishes _ _ _ _ _ _ c hi := publishes_works h hi c
  settles _ _ _ _ hc hws hst := settles_works h hc hws hst
  claims _ _ _ _ hi hj hne _ hrow _ hrow' := Claiming.disjoint h hi hj hne hrow hrow'
  selects _ _ hstep _ _ _ hsel hnew _ hrow' _ _ _ hlease :=
    selects_unleased h (h.good.legit (sound py) hstep) hsel hnew hrow' hlease
  counts id := by
    obtain ⟨once, failed, count⟩ := counted h id
    refine ⟨once, fun i hi => ?_, count⟩
    obtain ⟨row, t, hid, -, hfailed⟩ := failed i hi
    exact ⟨row, hid, hfailed⟩

/-- Workers read the clock, and do nothing for a selection that is a claim timeout old. -/
def keepsLeases (y : Config) (a : Action Choice Kind Env) : Bool :=
  match a with
  | .spawn _ (.publishOutbox worker) => worker.claimTimeout = 60
  | .run i c =>
    (match y.procs i with
    | .running _ (.call .now _) => decide (c.time = y.state.clock)
    | _ => true) &&
    y.state.log.all fun
      | .did j (.selectClaimable _ now _) (.ok _) =>
        decide (j ≠ i) || decide (y.state.clock < now + 60)
      | _ => true
  | _ => true

theorem keepsLeases_kept (h : keepsLeases y a = true) : LeasesKept py 60 y a where
  timeout := by
    rintro i worker rfl
    exact of_decide_eq_true h
  clock := by
    rintro i c k f worker rfl hi -
    simp only [keepsLeases, hi, Bool.and_eq_true, decide_eq_true_eq] at h
    exact h.1
  inTime i row t hworks := by
    obtain ⟨c, rfl⟩ := hworks.runs
    obtain ⟨rows, ⟨limit, stale, hd⟩, -, -⟩ := hworks.claimed
    rw [keepsLeases, Bool.and_eq_true, List.all_eq_true] at h
    simpa using h.2 _ hd

/-- A row is claimed, fails, is claimed again and published. -/
def leasedRun : List (Action Choice Kind Env) :=
  creates 0 (UUID.ofNat 1) (UUID.ofNat 2) ++ claimsAt 1 0 ++ failsAt 1 0 ++
    .env (.tick 2000000) :: claimsAt 2 2000000 ++
      [.run 2 {}, .run 2 { time := 2000000 }, .run 2 {}, .run 2 {}]

theorem leases_exclusive_sample : ∃ y row, (machine samplePlatform).runActions leasedRun
    (Config.init 0) = some y ∧ y.state.db.outbox.find? (UUID.ofNat 2) = some row ∧
      row.status = .processed ∧ row.retryCount = (y.state.releasers (UUID.ofNat 2)).length := by
  have hA : (machine samplePlatform).AllowedActions (LeasesKept samplePlatform 60) leasedRun
      (Config.init 0) :=
    Machine.AllowedActions.mono (fun _ _ => keepsLeases_kept)
      (by decide +kernel : (machine samplePlatform).AllowedActions
        (fun y a => keepsLeases y a = true) leasedRun (Config.init 0))
  have hst : (sampleRow leasedRun).map (fun row => (row.status, row.retryCount)) =
      some (.processed, 1) := by decide +kernel
  obtain ⟨row, hrow, hst⟩ := Option.map_eq_some_iff.1 hst
  obtain ⟨y, hy, hfind⟩ := Option.bind_eq_some_iff.1 hrow
  have hcounts := (leases_exclusive (reachable_of_run hA hy)).counts (UUID.ofNat 2)
  exact ⟨y, row, hy, hfind, (Prod.mk.inj hst).1, hcounts.2.2 row hfind⟩

end PaymentProcessing
