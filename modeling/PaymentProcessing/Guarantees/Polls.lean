import PaymentProcessing.Guarantees.Outbox
import PaymentProcessing.Protocol.Polling

/-!
# Polling the outbox

One relay by itself, on any outbox, with a database that works. An execution attempts the rows that
are due, oldest first, and what becomes of a row depends on that row and its own outcome alone.
Every attempt uses up one of finitely many that the row has left, so polling drains the outbox.
-/

namespace PaymentProcessing

open Python Relational Concurrency World

variable {py : Platform} {i : Nat} {worker : PublishOutbox} {reads : Time → Prop} {s s' : World}
  {now : Time} {attempts : List Attempt} {y y' y₁ y₂ : Config}

/-! ## One execution, row by row -/

/-- What becomes of a row by an attempt of process `i`, by whether it was delivered. -/
inductive AfterAttempt (worker : PublishOutbox) (i : Nat) (row : OutboxModel) (s : World) :
    Bool → OutboxModel → Prop where
  | processed (t : Time) : AfterAttempt worker i row s true
      { row with
        status := .processed, publishedAt := some t, claimedAt := none, availableAt := none }
  | failed (h : worker.maxAttempts ≤ row.retryCount + 1) : AfterAttempt worker i row s false
      { row with
        status := .failed, retryCount := row.retryCount + 1, claimedAt := none
        availableAt := none }
  /-- It waits for at least half and at most all of the capped delay. -/
  | waits (h : row.retryCount + 1 < worker.maxAttempts) (hn : 0 ≤ row.retryCount)
      (t micros half all : Int) (failedAt : s.FailedAt i row.id t) (delay : Float64)
      (capped : worker.backoff.capped (row.retryCount + 1) = .ok delay)
      (hhalf : timedeltaSeconds (delay.mul (.finite (1 / 2))) = .ok half)
      (hall : timedeltaSeconds delay = .ok all) (hlo : half ≤ micros) (hhi : micros ≤ all) :
      AfterAttempt worker i row s false
      { row with
        status := .new, retryCount := row.retryCount + 1, claimedAt := none
        availableAt := some (t + micros) }
  /-- A count below zero is no attempt to wait for. -/
  | atOnce (h : row.retryCount + 1 < worker.maxAttempts) (hn : row.retryCount < 0) (t : Time)
      (failedAt : s.FailedAt i row.id t) : AfterAttempt worker i row s false
      { row with
        status := .new, retryCount := row.retryCount + 1, claimedAt := none
        availableAt := some t }

theorem waits_zero {d : ExponentialDelay} {attempts micros : Int} (h : d.Waits attempts micros)
    (ha : attempts < 1) : micros = 0 := by
  obtain ⟨bits, delay, hdelay, hmicros⟩ := h
  rw [ExponentialDelay.delayFor, if_pos ha] at hdelay
  cases hdelay
  have hle := timedeltaSeconds_nonpos (le_refl 0) hmicros
  obtain ⟨a, ha, hge, -⟩ := timedeltaSeconds_mono (le_refl 0) (le_refl 0) hmicros
  rw [hmicros] at ha
  cases ha
  omega

/-- What is waited is at least half and at most all of the capped delay. -/
theorem waits_between {d : ExponentialDelay} {top attempts micros : Int} (hd : d.Proper top)
    (h₁ : 1 ≤ attempts) (ha : attempts ≤ 1024) (h : d.Waits attempts micros) :
    ∃ delay half all, d.capped attempts = .ok delay ∧
      timedeltaSeconds (delay.mul (.finite (1 / 2))) = .ok half ∧
      timedeltaSeconds delay = .ok all ∧ half ≤ micros ∧ micros ≤ all := by
  obtain ⟨bits, delay, hdelay, hmicros⟩ := h
  obtain ⟨c, cap, half, e, hc, hcap, hle, hhalf, hhalf0, he, hlo, hhi⟩ := hd.delayFor h₁ ha bits
  rw [hdelay] at he
  cases he
  have htop : timedeltaSeconds (.finite cap) = .ok top := hcap ▸ hd.top
  obtain ⟨all, hall, -, -⟩ := timedeltaSeconds_mono (hhalf0.trans (hlo.trans hhi)) hle htop
  obtain ⟨m, hm, -, hmall⟩ := timedeltaSeconds_mono (hhalf0.trans hlo) hhi hall
  rw [hmicros] at hm
  cases hm
  obtain ⟨lo, hlo', -, hlom⟩ := timedeltaSeconds_mono hhalf0 hlo hmicros
  exact ⟨_, lo, all, hc, by rw [hhalf]; exact hlo', hall, hlom, hmall⟩

theorem Settles.after {top : Int} {row : OutboxModel} {delivered : Bool} {patch : OutboxPatch}
    (hd : worker.backoff.Proper top) (hmax : worker.maxAttempts ≤ 1024)
    (h : Settles worker i row s delivered patch) : AfterAttempt worker i row s delivered
      (patch.apply ((SqlOutboxQueue.claimPatch now).apply row)) := by
  cases h with
  | processed t => exact .processed t
  | failed h => exact .failed h
  | new h t micros failedAt waits =>
    by_cases hn : 0 ≤ row.retryCount
    · obtain ⟨delay, half, all, hc, hhalf, hall, hlo, hhi⟩ :=
        waits_between hd (by omega) (by omega) waits
      exact .waits h hn t micros half all failedAt delay hc hhalf hall hlo hhi
    · have hzero := waits_zero waits (by omega)
      have hsum : t + micros = t := by rw [hzero, Int.add_zero]
      rw [hsum]
      exact .atOnce h (by omega) t failedAt

theorem find?_writes_of_notMem (attempts : List Attempt) {id : UUID} :
    ∀ db : Tables, (∀ a ∈ attempts, a.row.id ≠ id) →
      (db.writeAll (attempts.map Attempt.write)).outbox.find? id = db.outbox.find? id := by
  induction attempts with
  | nil => exact fun _ _ => rfl
  | cons a attempts ih =>
    intro db h
    have hne : id ≠ a.row.id := (h a (List.mem_cons_self ..)).symm
    have hone := Tables.find?_updateOne db a.patch a.row.id id
    rw [if_neg hne] at hone
    exact (ih _ fun a' ha' => h a' (List.mem_cons_of_mem _ ha')).trans hone

theorem find?_writes (attempts : List Attempt) :
    ∀ db : Tables, (attempts.map (·.row.id)).Nodup → ∀ a ∈ attempts,
      (db.writeAll (attempts.map Attempt.write)).outbox.find? a.row.id =
        (db.outbox.find? a.row.id).map a.patch.apply := by
  induction attempts with
  | nil => exact fun _ _ _ ha => by cases ha
  | cons b attempts ih =>
    intro db hnodup a ha
    obtain ⟨hnot, hnodup⟩ := List.nodup_cons.1 hnodup
    have hone := Tables.find?_updateOne db b.patch b.row.id a.row.id
    rcases List.mem_cons.1 ha with rfl | ha
    · rw [if_pos rfl] at hone
      exact (find?_writes_of_notMem attempts _ fun a' ha' he =>
        hnot (List.mem_map.2 ⟨a', ha', he⟩)).trans hone
    · have hne : a.row.id ≠ b.row.id := fun he => hnot (List.mem_map.2 ⟨a, ha, he⟩)
      rw [if_neg hne] at hone
      exact (ih _ hnodup a ha).trans (congrArg _ hone)

theorem Executed.once (h : Executed py worker i s now attempts s') :
    (attempts.map (·.row.id)).Nodup := by
  have hids : attempts.map (·.row.id) = (worker.due s.db.outbox now).map (·.id) := by
    rw [← h.rows, List.map_map]
    rfl
  rw [hids]
  refine List.Nodup.sublist ((List.take_sublist ..).map _) ?_
  refine ((List.perm_insertionSort _ _).map _).nodup_iff.2 ?_
  exact s.db.outbox.nodup.sublist (List.filter_sublist.map _)

theorem Executed.due (h : Executed py worker i s now attempts s') {a : Attempt}
    (ha : a ∈ attempts) : a.row ∈ worker.due s.db.outbox now :=
  h.rows ▸ List.mem_map_of_mem ha

theorem Executed.find?_attempted (h : Executed py worker i s now attempts s') {a : Attempt}
    (ha : a ∈ attempts) : s'.db.outbox.find? a.row.id =
      some (a.patch.apply ((SqlOutboxQueue.claimPatch now).apply a.row)) := by
  have hne : attempts ≠ [] := List.ne_nil_of_mem ha
  have hclaimed : (s.db.writeAll (claimWrites (worker.due s.db.outbox now) now)).outbox.find?
      a.row.id = some ((SqlOutboxQueue.claimPatch now).apply a.row) := by
    rw [claimWrites, Tables.find?_updates, if_pos (List.mem_map_of_mem (h.due ha)),
      (PublishOutbox.mem_due (h.due ha)).1]
    rfl
  rw [h.settled hne, Tables.writeAll, List.foldl_append]
  refine (find?_writes attempts _ h.once a ha).trans ?_
  show Option.map _ ((s.db.writeAll _).outbox.find? _) = _
  rw [hclaimed]
  rfl

theorem Executed.untouched (h : Executed py worker i s now attempts s') (hne : attempts ≠ [])
    {id : UUID} (hid : ∀ a ∈ attempts, a.row.id ≠ id) :
    s'.db.outbox.find? id = s.db.outbox.find? id := by
  rw [h.settled hne, Tables.writeAll, List.foldl_append]
  refine (find?_writes_of_notMem attempts _ hid).trans ?_
  show (s.db.writeAll (claimWrites _ now)).outbox.find? id = _
  rw [claimWrites, Tables.find?_updates, if_neg]
  intro hmem
  obtain ⟨row, hrow, rfl⟩ := List.mem_map.1 hmem
  rw [← h.rows] at hrow
  obtain ⟨a, ha, rfl⟩ := List.mem_map.1 hrow
  exact hid a ha rfl

/-- The ids of what an execution that claims nothing deletes. -/
theorem Executed.deletes (h : Executed py worker i s now attempts s') (hnil : attempts = []) :
    ∃ t, s'.Did i .now (.ok t) ∧ s'.db =
      s.db.writeAll (((worker.expired s.db.outbox t).map (·.id)).map .deleteOutbox) := by
  obtain ⟨t, ht, hdb⟩ := h.purged hnil
  refine ⟨t, ht, hdb.trans ?_⟩
  rw [List.map_map]
  rfl

theorem Executed.of_started {k : Kind}
    (h : Executed py worker i (s.note (.started i k)) now attempts s') :
    Executed py worker i s now attempts s' :=
  ⟨h.read, h.rows, h.publications, h.right, h.clean, h.unlocked, h.others,
    (List.suffix_cons ..).trans h.log, h.settled, h.purged⟩

theorem spawn_worker (hspawn : (machine py).step (.spawn i (.publishOutbox worker)) y = some y₁) :
    y.procs i = .idle ∧ y₁.state = y.state.note (.started i (.publishOutbox worker)) ∧
      y₁.procs = Function.update y.procs i (.running (.publishOutbox worker)
        (do return .published (← worker.execute py))) := by
  cases Machine.step_cases _ hspawn with
  | spawn j k s p ha hi hst hy =>
    cases ha
    cases hst
    subst hy
    exact ⟨hi, rfl, rfl⟩
  | run _ _ _ _ _ _ _ ha | kill _ _ _ ha | env _ _ ha => cases ha

/-- **A worker by itself** returns what it has published. -/
theorem ends_worker (hd : worker.Schedules reads) (hcalm : y.state.Calm i)
    (hspawn : (machine py).step (.spawn i (.publishOutbox worker)) y = some y₁) :
    ∃ p, y₁.procs i = .running (.publishOutbox worker) p ∧ (machine py).Ends i (StoreWorks reads)
      (fun r s' => ∃ now attempts, r = .ok (.published (attempts.countP (·.delivered))) ∧
        Executed py worker i y.state now attempts s') p y₁.state := by
  obtain ⟨-, hstate, hprocs⟩ := spawn_worker hspawn
  have hcalm₁ : y₁.state.Calm i := hstate ▸ ⟨hcalm.clean, hcalm.free⟩
  refine ⟨_, hprocs ▸ Function.update_self .., ?_⟩
  refine Machine.Ends.mono (Returns.bind (Q := fun reply s' => ∃ now attempts,
    reply = .published (attempts.countP (·.delivered)) ∧
      Executed py worker i y.state now attempts s') (returns_execute hd hcalm₁)
    fun n s₂ h₂ => ?_) fun r s₂ h₂ => ?_
  · obtain ⟨now, attempts, rfl, h⟩ := h₂
    rw [hstate] at h
    exact returns_ret ⟨now, attempts, rfl, h.of_started⟩
  · obtain ⟨_, rfl, now, attempts, rfl, h⟩ := h₂
    exact ⟨now, attempts, rfl, h⟩

/-- A row with this count of attempts. -/
def rowWith (retryCount : Int) : OutboxModel :=
  { createdEvent (UUID.ofNat 2) (UUID.ofNat 1) 0 with retryCount := retryCount }

/-- Nothing is there but this row. -/
def onlyRow (row : OutboxModel) : Config :=
  ⟨{ World.init 0 with db := ⟨Table.empty, Table.empty.insert row, Table.empty, Table.empty⟩ },
    fun _ => .idle⟩

/-- A time around the epoch. -/
def aroundEpoch (t : Time) : Prop := 0 ≤ t ∧ t ≤ 100

instance (t : Time) : Decidable (aroundEpoch t) := inferInstanceAs (Decidable (_ ∧ _))

/-- The operation works, around the epoch; publishing may be refused. -/
def worksOrRefuses (op : Op) (c : Choice) : Bool :=
  c.skip.isEmpty && match op, c.outcome with
    | .now, .fine => decide (aroundEpoch c.time)
    | .publish .., .lost (.external _) => true
    | _, .fine => true
    | _, _ => false

theorem worksOrRefuses_store {op : Op} {c : Choice} (h : worksOrRefuses op c = true) :
    StoreWorks aroundEpoch op c := by
  unfold worksOrRefuses at h
  rw [Bool.and_eq_true, List.isEmpty_iff] at h
  obtain ⟨hskip, h⟩ := h
  refine ⟨hskip, ?_⟩
  cases hout : c.outcome with
  | fine =>
    rw [hout] at h
    cases op with
    | publish =>
      rintro f (he | he) <;> cases he
    | now => exact ⟨rfl, of_decide_eq_true h⟩
    | _ => rfl
  | late f =>
    rw [hout] at h
    cases op <;> cases h
  | lost f =>
    rw [hout] at h
    cases f with
    | external n =>
      cases op with
      | publish =>
        rintro f (he | he) <;> cases he
        rfl
      | _ => cases h
    | _ => cases op <;> cases h

/-- The action performs the next operation of process `i`; publishing may be refused. -/
def worksAlone (i : Nat) (y : Config) (a : Action Choice Kind Env) : Bool :=
  match a with
  | .run j c => decide (j = i) && match y.procs i with
    | .running _ (.call op _) => worksOrRefuses op c
    | _ => false
  | _ => false

theorem worksAlone_alone {a : Action Choice Kind Env} (h : worksAlone i y a = true) :
    Machine.Alone i (StoreWorks aroundEpoch) y a := by
  unfold worksAlone at h
  split at h
  · rename_i j c
    rw [Bool.and_eq_true, decide_eq_true_eq] at h
    obtain ⟨rfl, h⟩ := h
    split at h
    · rename_i k op f hp
      exact ⟨k, op, f, c, rfl, hp, worksOrRefuses_store h⟩
    · cases h
  · cases h

/-- Process 1 is refused to publish the only row at time 5, and releases it. -/
def refusedRun : List (Action Choice Kind Env) :=
  [.run 1 {}] ++ performs 1 4 ++ failsAt 1 5 ++ performs 1 3

/-- Process 1 is refused to publish the only row, and raises when it computes the delay. -/
def raisesRun : List (Action Choice Kind Env) :=
  [.run 1 {}] ++ performs 1 4 ++ (failsAt 1 5).take 3 ++ performs 1 3

theorem calm_onlyRow (row : OutboxModel) : (onlyRow row).state.Calm 1 :=
  ⟨rfl, fun _ _ hp => by cases hp⟩

theorem proper_sampleWorker : sampleWorker.backoff.Proper 4000000 where
  initial := .inr ⟨1, rfl, Float64.exact_one, by norm_num⟩
  cap := .inr ⟨4, rfl, exact_four, by norm_num⟩
  top := by decide +kernel

/-- A worker that waits for a trillion seconds, which is a duration but ends after the year 9999. -/
def endlessWorker : PublishOutbox :=
  { sampleWorker with backoff := ⟨.finite (10 ^ 12), .finite (10 ^ 12), false⟩ }

/-- A worker whose claims time out after a trillion seconds, which began before the year 1. -/
def timelessWorker : PublishOutbox := { sampleWorker with claimTimeout := 10 ^ 18 }

theorem aroundEpoch.isDatetime {t : Int} (h : aroundEpoch t) (delta : Int) (hlo : -10000000 ≤ delta)
    (hhi : delta ≤ 10000000) : IsDatetime (t + delta) := by
  obtain ⟨h₀, h₁⟩ := h
  constructor
  · linarith
  · linarith

theorem fits_sampleWorker : sampleWorker.FitsCalendar 4000000 aroundEpoch where
  readable := ⟨0, by decide⟩
  now t ht := (add_zero t) ▸ ht.isDatetime 0 (by norm_num) (by norm_num)
  stale t ht := ht.isDatetime (-60) (by norm_num) (by norm_num)
  cutoff t ht := ht.isDatetime (-1000) (by norm_num) (by norm_num)
  due t ht := ht.isDatetime 4000000 (by norm_num) (by norm_num)

theorem schedules_sampleWorker : sampleWorker.Schedules aroundEpoch :=
  schedules_of_proper proper_sampleWorker (by decide) fits_sampleWorker

/-- Process 1 has executed the worker by itself, from `y` to `y'`, and ended with `r`. -/
def ExecutedAlone (worker : PublishOutbox) (y y' : Config) (r : Except Exc Reply) : Prop :=
  y.state.Calm 1 ∧ ∃ y₁,
    (machine samplePlatform).step (.spawn 1 (.publishOutbox worker)) y = some y₁ ∧
      (machine samplePlatform).Steps (Machine.Alone 1 (StoreWorks aroundEpoch)) y₁ y' ∧
        y'.procs 1 = .running (.publishOutbox worker) (.ofExcept r)

/-- What process 1 ended with. -/
def ending (y : Config) : Option (Except Exc Reply) :=
  match y.procs 1 with
  | .running _ (.ret a) => some (.ok a)
  | .running _ (.raise e) => some (.error e)
  | _ => none

/-- The configuration to which process 1 comes with the worker and these actions, if they bring it
to its end. -/
def executeBy (worker : PublishOutbox) (actions : List (Action Choice Kind Env)) (y : Config) :
    Option Config :=
  ((machine samplePlatform).step (.spawn 1 (.publishOutbox worker)) y).bind fun y₁ =>
    if (machine samplePlatform).AllowedActions (fun y a => worksAlone 1 y a = true) actions y₁
    then ((machine samplePlatform).runActions actions y₁).filter fun y => (ending y).isSome
    else none

theorem executeBy_alone {actions : List (Action Choice Kind Env)} (hcalm : y.state.Calm 1)
    (h : executeBy worker actions y = some y₂) :
    ∃ r, ending y₂ = some r ∧ ExecutedAlone worker y y₂ r := by
  obtain ⟨y₁, hy₁, h⟩ := Option.bind_eq_some_iff.1 h
  split at h
  · rename_i hA
    obtain ⟨hy₂, hend⟩ := Option.filter_eq_some_iff.1 h
    have hs := Machine.steps_of_runActions (hA.mono fun _ _ => worksAlone_alone) hy₂
    have hprocs := (spawn_worker hy₁).2.2
    obtain ⟨p₂, hp₂⟩ := Machine.Alone.running (hprocs ▸ Function.update_self ..) hs
    unfold ending at hend ⊢
    rw [hp₂] at hend ⊢
    cases p₂ with
    | ret a => exact ⟨.ok a, rfl, hcalm, y₁, hy₁, hs, hp₂⟩
    | raise e => exact ⟨.error e, rfl, hcalm, y₁, hy₁, hs, hp₂⟩
    | call op f => cases hend
  · cases h

theorem ExecutedAlone.executed {r : Except Exc Reply} (hd : worker.Schedules aroundEpoch)
    (h : ExecutedAlone worker y y₂ r) : ∃ now attempts,
      Executed samplePlatform worker 1 y.state now attempts y₂.state := by
  obtain ⟨hcalm, y₁, hspawn, hs, hr⟩ := h
  obtain ⟨p, hp, hends⟩ := ends_worker hd hcalm hspawn
  obtain ⟨now, attempts, -, hdid⟩ := hends.ended hp hs hr
  exact ⟨now, attempts, hdid⟩

/-- Process 1 has raised. -/
def hasRaised (y : Config) : Bool := (ending y).any fun r => !r.isOk

/-- An execution that raises is found by running it, and what it leaves of the row. -/
theorem raises_of_run (actions : List (Action Choice Kind Env)) {row : OutboxModel}
    {status : OutboxStatus} {retryCount : Int}
    (h : ((executeBy worker actions (onlyRow row)).map fun y =>
      (hasRaised y, y.state.db.outbox.rows.map fun row => (row.status, row.retryCount))) =
        some (true, [(status, retryCount)])) : ∃ (y₂ : Config) (e : Exc) (row' : OutboxModel),
    ExecutedAlone worker (onlyRow row) y₂ (.error e) ∧ y₂.state.db.outbox.rows = [row'] ∧
      row'.status = status ∧ row'.retryCount = retryCount := by
  obtain ⟨y₂, h₂, hrow⟩ := Option.map_eq_some_iff.1 h
  obtain ⟨hend, hrows⟩ := Prod.mk.inj hrow
  obtain ⟨r, hr, h⟩ := executeBy_alone (calm_onlyRow _) h₂
  rw [hasRaised, hr] at hend
  obtain ⟨row', hrow, hcols⟩ := List.map_eq_singleton_iff.1 hrows
  obtain ⟨hst, hcount⟩ := Prod.mk.inj hcols
  cases r with
  | ok a => cases hend
  | error e => exact ⟨y₂, e, row', h, hrow, hst, hcount⟩

/-- A delay that ends after the year 9999: the execution raises, and the row stays claimed. -/
theorem endless_raises : ∃ (y₂ : Config) (e : Exc) (row : OutboxModel),
    ExecutedAlone endlessWorker (onlyRow (rowWith 0)) y₂ (.error e) ∧
      y₂.state.db.outbox.rows = [row] ∧ row.status = .processing ∧ row.retryCount = 0 :=
  raises_of_run raisesRun (by decide +kernel)

/-- A claim timeout that goes back before the year 1: the execution raises before it claims. -/
theorem timeless_raises : ∃ (y₂ : Config) (e : Exc) (row : OutboxModel),
    ExecutedAlone timelessWorker (onlyRow (rowWith 0)) y₂ (.error e) ∧
      y₂.state.db.outbox.rows = [row] ∧ row.status = .new ∧ row.retryCount = 0 :=
  raises_of_run ([.run 1 {}] ++ performs 1 2) (by decide +kernel)

end PaymentProcessing
