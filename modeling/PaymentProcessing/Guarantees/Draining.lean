import PaymentProcessing.Guarantees.Polls

/-!
# Polling drains the outbox

A row that is new or being processed has at least one attempt left, and an attempt at a row uses one
up. So one relay by itself, polling again and again, comes to an end with every row, whichever of
its publishes fail.
-/

namespace PaymentProcessing

open Python Relational Concurrency World

variable {py : Platform} {i : Nat} {worker : PublishOutbox} {reads : Time → Prop} {s s' : World}
  {now : Time} {attempts : List Attempt} {y y' y₀ : Config}

/-! ## What is left -/

/-- The row is not settled yet. -/
def OutboxModel.Pending (row : OutboxModel) : Prop :=
  row.status = .new ∨ row.status = .processing

instance (row : OutboxModel) : Decidable row.Pending := inferInstanceAs (Decidable (_ ∨ _))

namespace PublishOutbox

/-- The attempts a row has left: `max(1, max_attempts - retry_count)` while it is not settled. -/
def attemptsLeft (worker : PublishOutbox) (row : OutboxModel) : Nat :=
  if row.Pending then (max 1 (worker.maxAttempts - row.retryCount)).toNat else 0

/-- The attempts all rows have left. -/
def backlog (worker : PublishOutbox) (outbox : Table OutboxModel.id) : Nat :=
  outbox.total worker.attemptsLeft

/-- From `t` on the row can be claimed, if nothing touches it. -/
def DueFrom (worker : PublishOutbox) (row : OutboxModel) (t : Time) : Prop :=
  ∀ now, t ≤ now → OutboxClaimFilter.build now (now - worker.claimTimeout) row = true

end PublishOutbox

theorem attemptsLeft_pos (worker : PublishOutbox) {row : OutboxModel} (h : row.Pending) :
    0 < worker.attemptsLeft row := by
  rw [PublishOutbox.attemptsLeft, if_pos h]
  omega

theorem pending_of_due {row : OutboxModel} {stale : Time}
    (h : OutboxClaimFilter.build now stale row = true) : row.Pending :=
  (OutboxClaimFilter.build_iff.1 h).imp And.left And.left

/-- **An attempt uses one up.** -/
theorem Settles.attemptsLeft {row : OutboxModel} {delivered : Bool} {patch : OutboxPatch}
    (h : Settles worker i row s delivered patch) (hp : row.Pending) :
    worker.attemptsLeft (patch.apply ((SqlOutboxQueue.claimPatch now).apply row)) <
      worker.attemptsLeft row := by
  have hpos := attemptsLeft_pos worker hp
  have hrow : worker.attemptsLeft row = (max 1 (worker.maxAttempts - row.retryCount)).toNat :=
    if_pos hp
  cases h with
  | processed t =>
    rw [PublishOutbox.attemptsLeft, if_neg (by rintro (h | h) <;> cases h)]
    exact hpos
  | failed h =>
    rw [PublishOutbox.attemptsLeft, if_neg (by rintro (h | h) <;> cases h)]
    exact hpos
  | new h t micros =>
    have hcount : ((SqlOutboxQueue.releasePatch .new (row.retryCount + 1) (some (t + micros))).apply
        ((SqlOutboxQueue.claimPatch now).apply row)).retryCount = row.retryCount + 1 := rfl
    rw [PublishOutbox.attemptsLeft, if_pos (.inl rfl), hrow, hcount]
    omega

theorem Settles.not_processing {row : OutboxModel} {delivered : Bool} {patch : OutboxPatch}
    (h : Settles worker i row s delivered patch) : patch.status ≠ .processing := by
  cases h <;> intro hst <;> cases hst

/-! ## One execution -/

theorem keys_updates {ws : List Write} : ∀ db : Tables,
    (∀ w ∈ ws, ∃ id patch, w = .updateOutbox id patch) →
      (db.writeAll ws).outbox.rows.map (·.id) = db.outbox.rows.map (·.id) := by
  induction ws with
  | nil => exact fun _ _ => rfl
  | cons w ws ih =>
    intro db h
    obtain ⟨id, patch, rfl⟩ := h w (List.mem_cons_self ..)
    exact (ih _ fun w hw => h w (List.mem_cons_of_mem _ hw)).trans (Table.keys_modify _ _ _)

theorem backlog_deletes {ids : List UUID} : ∀ db : Tables,
    (∀ id ∈ ids, ∀ row, db.outbox.find? id = some row → worker.attemptsLeft row = 0) →
      worker.backlog (db.writeAll (ids.map .deleteOutbox)).outbox = worker.backlog db.outbox := by
  induction ids with
  | nil => exact fun _ _ => rfl
  | cons id ids ih =>
    intro db h
    refine (ih _ fun id' hid' row hrow => ?_).trans
      (Table.total_erase fun row hrow hk => h id (List.mem_cons_self ..) row ?_)
    · have hfind : (db.outbox.erase id).find? id' = some row := hrow
      rw [Table.find?_erase] at hfind
      split at hfind
      · cases hfind
      · exact h id' (List.mem_cons_of_mem _ hid') row hfind
    · rw [← hk]
      exact Table.find?_key hrow

namespace Executed

/-- What becomes of the rows that were attempted. -/
theorem weight_lt (h : Executed py worker i s now attempts s') {a : Attempt} (ha : a ∈ attempts) :
    s'.db.outbox.weight worker.attemptsLeft a.row.id <
      s.db.outbox.weight worker.attemptsLeft a.row.id := by
  obtain ⟨hrow, hdue⟩ := PublishOutbox.mem_due (h.due ha)
  rw [Table.weight, Table.weight, hrow, h.find?_attempted ha]
  exact (h.right a ha).settles.attemptsLeft (pending_of_due hdue)

theorem weight_le (h : Executed py worker i s now attempts s') (id : UUID) :
    attempts.countP (·.row.id = id) + s'.db.outbox.weight worker.attemptsLeft id ≤
      s.db.outbox.weight worker.attemptsLeft id := by
  by_cases hmem : ∃ a ∈ attempts, a.row.id = id
  · obtain ⟨a, ha, rfl⟩ := hmem
    have hlt := h.weight_lt ha
    have hone : attempts.countP (fun b => decide (b.row.id = a.row.id)) ≤ 1 := by
      have hcount := List.nodup_iff_count_le_one.1 h.once a.row.id
      rw [List.count, List.countP_map] at hcount
      refine le_trans (le_of_eq ?_) hcount
      exact congrArg (fun p => List.countP p attempts) (funext fun b => (beq_eq_decide ..).symm)
    omega
  · have hnot : ∀ a ∈ attempts, a.row.id ≠ id := fun a ha he => hmem ⟨a, ha, he⟩
    have hzero : attempts.countP (fun a => decide (a.row.id = id)) = 0 :=
      List.countP_eq_zero.2 fun a ha he => hnot a ha (of_decide_eq_true he)
    rw [hzero, Nat.zero_add, Table.weight, Table.weight]
    by_cases hnil : attempts = []
    · obtain ⟨t, -, hdb⟩ := h.deletes hnil
      rw [hdb, Tables.find?_deletes]
      split
      · exact Nat.zero_le _
      · exact le_refl _
    · rw [h.untouched hnil hnot]

/-- **An execution that claims something reduces the backlog.** -/
theorem backlog_lt (h : Executed py worker i s now attempts s') (hne : attempts ≠ []) :
    worker.backlog s'.db.outbox < worker.backlog s.db.outbox := by
  have hkeys : s'.db.outbox.rows.map (·.id) = s.db.outbox.rows.map (·.id) := by
    rw [h.settled hne]
    apply keys_updates _
    intro w hw
    rcases List.mem_append.1 hw with hw | hw
    · obtain ⟨id, -, rfl⟩ := List.mem_map.1 hw
      exact ⟨_, _, rfl⟩
    · obtain ⟨a, -, rfl⟩ := List.mem_map.1 hw
      exact ⟨_, _, rfl⟩
  refine Table.total_lt_of_keys hkeys (fun row hrow => ?_) ?_
  · have hle := h.weight_le row.id
    rw [Table.weight_of_mem hrow] at hle
    omega
  · obtain ⟨a, ha⟩ := List.exists_mem_of_ne_nil _ hne
    have hlt := h.weight_lt ha
    have hrow := Table.mem_of_find? (PublishOutbox.mem_due (h.due ha)).1
    rw [Table.weight_of_mem hrow] at hlt
    exact ⟨a.row, hrow, hlt⟩

theorem backlog_eq (h : Executed py worker i s now attempts s') (hnil : attempts = []) :
    worker.backlog s'.db.outbox = worker.backlog s.db.outbox := by
  obtain ⟨t, -, hdb⟩ := h.deletes hnil
  rw [hdb]
  apply backlog_deletes _
  intro id hid row hrow
  obtain ⟨row₁, hrow₁, rfl⟩ := List.mem_map.1 hid
  obtain ⟨hfind, hst, -⟩ := PublishOutbox.mem_expired hrow₁
  rw [hrow] at hfind
  cases hfind
  rw [PublishOutbox.attemptsLeft, if_neg (by simp [OutboxModel.Pending, hst])]

/-- Something is claimed when something is due. -/
theorem nonempty (h : Executed py worker i s now attempts s') (hbatch : 1 ≤ worker.batchSize)
    {row : OutboxModel} (hrow : row ∈ s.db.outbox.rows)
    (hdue : OutboxClaimFilter.build now (now - worker.claimTimeout) row = true) :
    attempts ≠ [] := by
  rintro rfl
  have hnil : worker.due s.db.outbox now = [] := h.rows.symm
  rw [PublishOutbox.due, List.take_eq_nil_iff] at hnil
  rcases hnil with hzero | hnil
  · omega
  · have hmem := (List.mem_insertionSort fun a b : OutboxModel => a.createdAt ≤ b.createdAt).2
      (List.mem_filter.2 ⟨hrow, hdue⟩)
    rw [hnil] at hmem
    cases hmem

end Executed

/-! ## Polling -/

/-- One poll: the outbox before, when it claimed, and its attempts. -/
structure Round where
  before : Table OutboxModel.id
  now : Time
  attempts : List Attempt
  after : Table OutboxModel.id

/-- Nobody holds a lock, and who has not started has staged nothing. -/
structure Config.Rests (y : Config) : Prop where
  unlocked : y.state.locks.held = []
  clean : ∀ i, y.procs i = .idle → y.state.staged i = []

/-- From `y₀` the worker is executed again and again, each time by a new process from its start to
its end, while nothing happens but that time passes. The clock says times with `reads`. -/
inductive Polls (py : Platform) (worker : PublishOutbox) (reads : Time → Prop) (y₀ : Config) :
    List Round → Config → Prop where
  | none : Polls py worker reads y₀ [] y₀
  | tick {rounds : List Round} {y y' : Config} (d : Nat) (h : Polls py worker reads y₀ rounds y)
      (hs : (machine py).step (.env (.tick d)) y = some y') : Polls py worker reads y₀ rounds y'
  | poll {rounds : List Round} {y y₁ y' : Config} (i : Nat) (r : Except Exc Reply) (now : Time)
      (attempts : List Attempt) (h : Polls py worker reads y₀ rounds y)
      (hspawn : (machine py).step (.spawn i (.publishOutbox worker)) y = some y₁)
      (hs : (machine py).Steps (Machine.Alone i (StoreWorks reads)) y₁ y')
      (hr : y'.procs i = .running (.publishOutbox worker) (.ofExcept r))
      (hdid : Executed py worker i y.state now attempts y'.state) :
      Polls py worker reads y₀ (rounds ++ [⟨y.state.db.outbox, now, attempts, y'.state.db.outbox⟩]) y'

/-- The message is about the outbox row. -/
def About (py : Platform) (id : UUID) (m : List (String × Json) × Headers × Bool) : Bool :=
  OutboxEventCodec.extractOutboxId py m.1 (some m.2.1) = some id

theorem tick_state {d : Nat} (hs : (machine py).step (.env (.tick d)) y = some y') :
    y' = ⟨{ y.state with clock := y.state.clock + d }, y.procs⟩ := by
  cases hs
  rfl

theorem Polls.rests {rounds : List Round} (h : Polls py worker reads y₀ rounds y) (h₀ : y₀.Rests) :
    y.Rests := by
  induction h with
  | none => exact h₀
  | tick d _ hs ih =>
    rw [tick_state hs]
    exact ⟨ih.unlocked, ih.clean⟩
  | @poll rounds y y₁ y' i r now attempts _ hspawn hs hr hdid ih =>
    refine ⟨hdid.unlocked, fun j hj => ?_⟩
    have hne : j ≠ i := by
      rintro rfl
      rw [hr] at hj
      cases r <;> cases hj
    rw [hdid.others j hne]
    refine ih.clean j ?_
    rw [← hj, Machine.Alone.others hne hs, (spawn_worker hspawn).2.2]
    exact (Function.update_of_ne hne _ _).symm

theorem Config.Rests.calm (h : y.Rests) (hi : y.procs i = .idle) : y.state.Calm i :=
  ⟨h.clean i hi, fun l p hp => by rw [h.unlocked] at hp; cases hp⟩

theorem countP_handed (py : Platform) (now : Time) (id : UUID) (row : OutboxModel)
    (delivered : Bool) :
    (handed py now row delivered).countP (About py id) ≤ if row.id = id then 1 else 0 := by
  unfold handed
  cases henc : OutboxEventCodec.encode py (OutboxMapper.toClaimedRecord row now) with
  | error e => exact Nat.zero_le _
  | ok message =>
    obtain ⟨body, headers⟩ := message
    obtain ⟨rfl, -⟩ := OutboxEventCodec.encode_eq henc
    have hid : OutboxEventCodec.extractOutboxId py
        (OutboxEventCodec.envelope (OutboxMapper.toClaimedRecord row now)) (some headers) =
          some row.id := OutboxEventCodec.extractOutboxId_envelope py _ _
    by_cases he : row.id = id
    · rw [if_pos he]
      exact List.countP_le_length
    · rw [if_neg he, List.countP_cons, List.countP_nil, About, hid]
      simp [he]

theorem countP_handedAll (py : Platform) (now : Time) (id : UUID) (attempts : List Attempt) :
    (attempts.flatMap fun a => handed py now a.row a.delivered).countP (About py id) ≤
      attempts.countP (·.row.id = id) := by
  induction attempts with
  | nil => exact le_refl _
  | cons a attempts ih =>
    have hone := countP_handed py now id a.row a.delivered
    rw [List.flatMap_cons, List.countP_append, List.countP_cons]
    by_cases he : a.row.id = id
    · rw [if_pos he] at hone
      simp only [he, decide_true, if_true]
      omega
    · rw [if_neg he] at hone
      simp only [he, decide_false, Bool.false_eq_true, if_false]
      omega

/-! ## What a run of polls comes to -/

/-- Every row being processed says since when. -/
def Leased (outbox : Table OutboxModel.id) : Prop :=
  ∀ row ∈ outbox.rows, row.status = .processing → row.claimedAt ≠ none

/-- After a poll that found nothing due, the next one comes once a row that is not settled is due.
-/
def Punctual (worker : PublishOutbox) (rounds : List Round) : Prop :=
  rounds.IsChain fun a b => a.attempts = [] → (∃ row ∈ a.after.rows, row.Pending) →
    ∃ row ∈ a.after.rows, row.Pending ∧ ∃ t, worker.DueFrom row t ∧ t ≤ b.now

/-- The rounds that claimed something. -/
def claimingRounds (rounds : List Round) : Nat := rounds.countP fun r => r.attempts ≠ []

theorem claimingRounds_concat {rounds : List Round} {r : Round} (h : r.attempts ≠ []) :
    claimingRounds (rounds ++ [r]) = claimingRounds rounds + 1 := by
  rw [claimingRounds, List.countP_append, List.countP_singleton, if_pos (decide_eq_true h)]
  rfl

theorem claimingRounds_concat_nil {rounds : List Round} {r : Round} (h : r.attempts = []) :
    claimingRounds (rounds ++ [r]) = claimingRounds rounds := by
  rw [claimingRounds, List.countP_append, List.countP_singleton,
    if_neg (by simp [h])]
  rfl

theorem dueFrom_of_pending {row : OutboxModel} (h : row.Pending)
    (hl : row.status = .processing → row.claimedAt ≠ none) : ∃ t, worker.DueFrom row t := by
  rcases h with hst | hst
  · cases hav : row.availableAt with
    | none =>
      refine ⟨0, fun now _ => OutboxClaimFilter.build_iff.2 (.inl ⟨hst, fun t ht => ?_⟩)⟩
      rw [hav] at ht
      cases ht
    | some t =>
      refine ⟨t, fun now hnow => OutboxClaimFilter.build_iff.2 (.inl ⟨hst, fun t' ht => ?_⟩)⟩
      rw [hav] at ht
      cases ht
      exact hnow
  · obtain ⟨t, ht⟩ := Option.ne_none_iff_exists'.1 (hl hst)
    refine ⟨t + worker.claimTimeout, fun now hnow => OutboxClaimFilter.build_iff.2
      (.inr ⟨hst, t, ht, le_sub_iff_add_le.2 hnow⟩)⟩

theorem backlog_eq_zero {outbox : Table OutboxModel.id} :
    worker.backlog outbox = 0 ↔ ∀ row ∈ outbox.rows, ¬ row.Pending := by
  constructor
  · intro h row hrow hp
    have hle : worker.attemptsLeft row ≤ worker.backlog outbox := Table.le_total hrow
    have hpos := attemptsLeft_pos worker hp
    omega
  · intro h
    apply List.sum_eq_zero
    intro n hn
    obtain ⟨row, hrow, rfl⟩ := List.mem_map.1 hn
    exact if_neg (h row hrow)

theorem Executed.leased (h : Executed py worker i s now attempts s') (hl : Leased s.db.outbox) :
    Leased s'.db.outbox := by
  intro row hrow hst
  have hfind := Table.find?_key hrow
  have hbefore : s.db.outbox.find? row.id = some row := by
    by_cases hmem : ∃ a ∈ attempts, a.row.id = row.id
    · obtain ⟨a, ha, hid⟩ := hmem
      have hafter := h.find?_attempted ha
      rw [hid, hfind] at hafter
      rw [Option.some.inj hafter] at hst
      exact absurd hst (h.right a ha).settles.not_processing
    · have hnot : ∀ a ∈ attempts, a.row.id ≠ row.id := fun a ha he => hmem ⟨a, ha, he⟩
      by_cases hnil : attempts = []
      · obtain ⟨t, -, hdb⟩ := h.deletes hnil
        rw [hdb, Tables.find?_deletes] at hfind
        split at hfind
        · cases hfind
        · exact hfind
      · rw [← h.untouched hnil hnot]
        exact hfind
  exact hl row (Table.mem_of_find? hbefore) hst

namespace Polls

variable {rounds : List Round}

theorem leased (h : Polls py worker reads y₀ rounds y) (hl : Leased y₀.state.db.outbox) :
    Leased y.state.db.outbox := by
  induction h with
  | none => exact hl
  | tick d _ hs ih =>
    rw [tick_state hs]
    exact ih
  | poll i r now attempts _ _ _ _ hdid ih => exact hdid.leased ih

/-- The last round left what is there. -/
theorem last (h : Polls py worker reads y₀ rounds y) {r : Round} (hr : r ∈ rounds.getLast?) :
    r.after = y.state.db.outbox := by
  induction h with
  | none => cases hr
  | tick d _ hs ih =>
    rw [tick_state hs]
    exact ih hr
  | poll i r now attempts _ _ _ _ hdid ih =>
    rw [List.getLast?_concat] at hr
    cases hr
    rfl

theorem rounds_of {P : Round → Prop} (h : Polls py worker reads y₀ rounds y)
    (hP : ∀ i s now attempts s', Executed py worker i s now attempts s' →
      P ⟨s.db.outbox, now, attempts, s'.db.outbox⟩) : ∀ r ∈ rounds, P r := by
  induction h with
  | none => exact fun r hr => by cases hr
  | tick d _ hs ih => exact ih
  | poll i r now attempts _ _ _ _ hdid ih =>
    intro r hr
    rcases List.mem_append.1 hr with hr | hr
    · exact ih r hr
    · rw [List.mem_singleton.1 hr]
      exact hP _ _ _ _ _ hdid

/-- **The backlog pays for the rounds that claim something.** -/
theorem backlog (h : Polls py worker reads y₀ rounds y) :
    claimingRounds rounds + worker.backlog y.state.db.outbox ≤
      worker.backlog y₀.state.db.outbox := by
  induction h with
  | none => exact le_of_eq (Nat.zero_add _)
  | tick d _ hs ih =>
    rw [tick_state hs]
    exact ih
  | poll i r now attempts _ _ _ _ hdid ih =>
    by_cases hnil : attempts = []
    · rw [claimingRounds_concat_nil hnil, hdid.backlog_eq hnil]
      exact ih
    · have hlt := hdid.backlog_lt hnil
      rw [claimingRounds_concat hnil]
      omega

/-- What a row has left pays for its attempts. -/
theorem attempted (h : Polls py worker reads y₀ rounds y) (id : UUID) :
    (rounds.map fun r => r.attempts.countP (·.row.id = id)).sum +
        y.state.db.outbox.weight worker.attemptsLeft id ≤
      y₀.state.db.outbox.weight worker.attemptsLeft id := by
  induction h with
  | none => exact le_of_eq (Nat.zero_add _)
  | tick d _ hs ih =>
    rw [tick_state hs]
    exact ih
  | poll i r now attempts _ _ _ _ hdid ih =>
    have hle := hdid.weight_le id
    rw [List.map_append, List.sum_append, List.map_singleton, List.sum_singleton]
    dsimp only
    omega

theorem published (h : Polls py worker reads y₀ rounds y) (id : UUID) :
    y.state.publications.countP (About py id) +
        y.state.db.outbox.weight worker.attemptsLeft id ≤
      y₀.state.publications.countP (About py id) +
        y₀.state.db.outbox.weight worker.attemptsLeft id := by
  induction h with
  | none => exact le_refl _
  | tick d _ hs ih =>
    rw [tick_state hs]
    exact ih
  | poll i r now attempts _ _ _ _ hdid ih =>
    have hle := hdid.weight_le id
    have hall := countP_handedAll py now id attempts
    rw [hdid.publications, List.countP_append]
    omega

theorem quiet (h : Polls py worker reads y₀ rounds y) (hset : worker.backlog y₀.state.db.outbox = 0) :
    y.state.publications = y₀.state.publications := by
  induction h with
  | none => rfl
  | tick d _ hs ih =>
    rw [tick_state hs]
    exact ih
  | poll i r now attempts h _ _ _ hdid ih =>
    have hle := h.backlog
    have hnil : attempts = [] := by
      by_contra hne
      have hlt := hdid.backlog_lt hne
      omega
    rw [hdid.publications, hnil, List.flatMap_nil, List.append_nil, ih]

/-- A next execution claims something if a row is due by then. -/
theorem claims {row : OutboxModel} {t : Time} (hbatch : 1 ≤ worker.batchSize)
    (hdid : Executed py worker i y.state now attempts s') (hrow : row ∈ y.state.db.outbox.rows)
    (hdue : worker.DueFrom row t) (ht : t ≤ now) : attempts ≠ [] :=
  hdid.nonempty hbatch hrow (hdue now ht)

/-- While something is left, at most every other round claims nothing. -/
theorem length_le (h : Polls py worker reads y₀ rounds y) (hbatch : 1 ≤ worker.batchSize)
    (hpunctual : Punctual worker rounds) (hleft : worker.backlog y.state.db.outbox ≠ 0) :
    rounds.length ≤ 2 * claimingRounds rounds + 1 ∧
      ((∀ r ∈ rounds.getLast?, r.attempts ≠ []) →
        rounds.length ≤ 2 * claimingRounds rounds) := by
  induction h with
  | none => exact ⟨Nat.zero_le _, fun _ => Nat.zero_le _⟩
  | tick d _ hs ih =>
    rw [tick_state hs] at hleft
    exact ih hpunctual hleft
  | @poll rounds y y₁ y' i r now attempts h _ _ _ hdid ih =>
    obtain ⟨hbefore, -, hnext⟩ := List.isChain_append.1 hpunctual
    have hmono : worker.backlog y'.state.db.outbox ≤ worker.backlog y.state.db.outbox := by
      by_cases hnil : attempts = []
      · exact le_of_eq (hdid.backlog_eq hnil)
      · exact le_of_lt (hdid.backlog_lt hnil)
    have hleft₀ : worker.backlog y.state.db.outbox ≠ 0 := by omega
    obtain ⟨hall, hlast⟩ := ih hbefore hleft₀
    rw [List.length_append, List.length_singleton, List.getLast?_concat]
    by_cases hnil : attempts = []
    · -- the round before claimed something, or this one would have
      have hclaimed : ∀ r ∈ rounds.getLast?, r.attempts ≠ [] := by
        intro r hr hrnil
        have hafter := h.last hr
        have hpend : ∃ row ∈ r.after.rows, row.Pending := by
          by_contra hnone
          refine hleft₀ (backlog_eq_zero.2 fun row hrow hp => hnone ⟨row, ?_, hp⟩)
          rw [hafter]
          exact hrow
        obtain ⟨row, hrow, -, t, hdue, ht⟩ := hnext r hr _ rfl hrnil hpend
        rw [hafter] at hrow
        exact claims hbatch hdid hrow hdue ht hnil
      have hle := hlast hclaimed
      rw [claimingRounds_concat_nil hnil]
      exact ⟨by omega, fun hcontra => absurd hnil (hcontra _ rfl)⟩
    · rw [claimingRounds_concat hnil]
      exact ⟨by omega, fun _ => by omega⟩

end Polls

/-- What polling from `y₀` to `y` comes to. -/
structure Drains (py : Platform) (worker : PublishOutbox) (reads : Time → Prop) (y₀ : Config)
    (rounds : List Round) (y : Config) : Prop where
  /-- The next execution comes to an end, and has been one of a next round. -/
  returns : ∀ i y₁, (machine py).step (.spawn i (.publishOutbox worker)) y = some y₁ →
    (∃ y₂ r, (machine py).Steps (Machine.Alone i (StoreWorks reads)) y₁ y₂ ∧
      y₂.procs i = .running (.publishOutbox worker) (.ofExcept r)) ∧
    ∀ y₂ r, (machine py).Steps (Machine.Alone i (StoreWorks reads)) y₁ y₂ →
      y₂.procs i = .running (.publishOutbox worker) (.ofExcept r) → ∃ now attempts,
        r = .ok (.published (attempts.countP (·.delivered))) ∧
          Executed py worker i y.state now attempts y₂.state
  claimed : ∀ r ∈ rounds, r.attempts.map (·.row) = worker.due r.before r.now
  decreases : ∀ r ∈ rounds, r.attempts ≠ [] → worker.backlog r.after < worker.backlog r.before
  unchanged : ∀ r ∈ rounds, r.attempts = [] → worker.backlog r.after = worker.backlog r.before
  backlog : claimingRounds rounds + worker.backlog y.state.db.outbox ≤
    worker.backlog y₀.state.db.outbox
  attempted : ∀ id, (rounds.map fun r => r.attempts.countP (·.row.id = id)).sum +
      y.state.db.outbox.weight worker.attemptsLeft id ≤
    y₀.state.db.outbox.weight worker.attemptsLeft id
  published : ∀ id, y.state.publications.countP (About py id) +
      y.state.db.outbox.weight worker.attemptsLeft id ≤
    y₀.state.publications.countP (About py id) +
      y₀.state.db.outbox.weight worker.attemptsLeft id
  /-- A row that is not settled is due some time. -/
  due : ∀ row ∈ y.state.db.outbox.rows, row.Pending → ∃ t, worker.DueFrom row t
  /-- If nothing due makes the next poll wait until something is, every row comes to be settled. -/
  settled : Punctual worker rounds → (2 * worker.backlog y₀.state.db.outbox ≤ rounds.length ∨
      worker.backlog y₀.state.db.outbox ≤ claimingRounds rounds) →
    ∀ row ∈ y.state.db.outbox.rows, row.status = .processed ∨ row.status = .failed
  /-- Then nothing is published any more. -/
  quiet : (∀ row ∈ y₀.state.db.outbox.rows, row.status = .processed ∨ row.status = .failed) →
    y.state.publications = y₀.state.publications

theorem settled_iff {row : OutboxModel} :
    row.status = .processed ∨ row.status = .failed ↔ ¬ row.Pending := by
  unfold OutboxModel.Pending
  cases row.status <;> simp

/-- **The outbox drains.** A relay that polls again and again by itself has at most
`max(1, max_attempts - retry_count)` attempts at each row, and comes to an end with all of them,
whatever cannot be published, while its clock says times at which it can compute what it needs. -/
theorem outbox_drains {rounds : List Round} (hd : worker.Schedules reads)
    (hbatch : 1 ≤ worker.batchSize) (h₀ : y₀.Rests) (hl : Leased y₀.state.db.outbox)
    (h : Polls py worker reads y₀ rounds y) : Drains py worker reads y₀ rounds y where
  returns i y₁ hspawn := by
    have hcalm := (h.rests h₀).calm (spawn_worker hspawn).1
    obtain ⟨p, hp, hends⟩ := ends_worker hd hcalm hspawn
    exact ⟨hends.comes hp, fun y₂ r hs hr => hends.ended hp hs hr⟩
  claimed := h.rounds_of fun _ _ _ _ _ hdid => hdid.rows
  decreases := h.rounds_of fun _ _ _ _ _ hdid hne => hdid.backlog_lt hne
  unchanged := h.rounds_of fun _ _ _ _ _ hdid hnil => hdid.backlog_eq hnil
  backlog := h.backlog
  attempted := h.attempted
  published := h.published
  due row hrow hp := dueFrom_of_pending hp (h.leased hl row hrow)
  settled hpunctual hlong row hrow := by
    have hle := h.backlog
    have hzero : worker.backlog y.state.db.outbox = 0 := by
      by_contra hleft
      have hlength := (h.length_le hbatch hpunctual hleft).1
      omega
    exact settled_iff.2 (backlog_eq_zero.1 hzero row hrow)
  quiet hset := h.quiet (backlog_eq_zero.2 fun row hrow => settled_iff.1 (hset row hrow))

theorem outbox_drains_sample : ∃ (y : Config) (rounds : List Round), rounds ≠ [] ∧
    Polls samplePlatform sampleWorker aroundEpoch (onlyRow (rowWith 0)) rounds y ∧
      Drains samplePlatform sampleWorker aroundEpoch (onlyRow (rowWith 0)) rounds y := by
  obtain ⟨y, h⟩ := Option.isSome_iff_exists.1
    (by decide +kernel : (executeBy sampleWorker refusedRun (onlyRow (rowWith 0))).isSome = true)
  obtain ⟨r, -, h⟩ := executeBy_alone (calm_onlyRow _) h
  obtain ⟨now, attempts, hdid⟩ := h.executed schedules_sampleWorker
  obtain ⟨-, y₁, hspawn, hs, hr⟩ := h
  have hpolls := Polls.poll 1 r now attempts .none hspawn hs hr hdid
  refine ⟨y, _, by simp, hpolls, outbox_drains schedules_sampleWorker (by decide)
    ⟨rfl, fun _ _ => rfl⟩ (fun row hrow hst => ?_) hpolls⟩
  rw [List.mem_singleton.1 hrow] at hst
  cases hst

/-- An execution that claims the row and raises when it computes the delay leaves the backlog as it
was. One that raises when it computes its cutoff claims nothing. -/
theorem endless_not_drained : (∃ (y₂ : Config) (e : Exc),
    (onlyRow (rowWith 0)).Rests ∧ Leased (onlyRow (rowWith 0)).state.db.outbox ∧
      ExecutedAlone endlessWorker (onlyRow (rowWith 0)) y₂ (.error e) ∧
      (∃ row, y₂.state.db.outbox.rows = [row] ∧ row.status = .processing) ∧
      ¬ endlessWorker.backlog y₂.state.db.outbox <
        endlessWorker.backlog (onlyRow (rowWith 0)).state.db.outbox) ∧
    ∃ (y₂ : Config) (e : Exc) (row : OutboxModel),
      ExecutedAlone timelessWorker (onlyRow (rowWith 0)) y₂ (.error e) ∧
        y₂.state.db.outbox.rows = [row] ∧ row.status = .new ∧ row.retryCount = 0 := by
  refine ⟨?_, timeless_raises⟩
  obtain ⟨y₂, e, row, h, hrows, hst, hcount⟩ := endless_raises
  refine ⟨y₂, e, ⟨rfl, fun _ _ => rfl⟩, fun row hrow hst => ?_, h, ⟨row, hrows, hst⟩, ?_⟩
  · rw [List.mem_singleton.1 hrow] at hst
    cases hst
  · have hafter : endlessWorker.backlog y₂.state.db.outbox = 2 := by
      rw [PublishOutbox.backlog, Table.total, hrows, List.map_singleton, List.sum_singleton,
        PublishOutbox.attemptsLeft, if_pos (.inr hst), hcount]
      rfl
    have hbefore : endlessWorker.backlog (onlyRow (rowWith 0)).state.db.outbox = 2 := by
      decide +kernel
    omega

end PaymentProcessing
