import PaymentProcessing.Application.Delays
import PaymentProcessing.Protocol.Facts
import PaymentProcessing.Protocol.Undisturbed

/-!
# One execution of a relay

A relay that nobody disturbs, on any outbox, with a database that works: what each part of its
program returns and leaves behind, up to the whole execution (`returns_execute`).
-/

namespace PaymentProcessing

open Python Relational Concurrency World

variable {py : Platform} {i : Nat} {worker : PublishOutbox} {reads : Time → Prop} {s s₁ s' : World}
  {ws st : List Write} {ms : List (List (String × Json) × Headers × Bool)}

/-! ## Attempts -/

/-- What process `i` sets after an attempt at the row, by whether it was delivered. -/
inductive Settles (worker : PublishOutbox) (i : Nat) (row : OutboxModel) (s : World) :
    Bool → OutboxPatch → Prop where
  | processed (t : Time) : Settles worker i row s true (SqlOutboxQueue.processedPatch t)
  | failed (h : worker.maxAttempts ≤ row.retryCount + 1) : Settles worker i row s false
      (SqlOutboxQueue.releasePatch .failed (row.retryCount + 1) none)
  | new (h : row.retryCount + 1 < worker.maxAttempts) (t : Time) (micros : Int)
      (failedAt : s.FailedAt i row.id t)
      (waits : worker.backoff.Waits (row.retryCount + 1) micros) : Settles worker i row s false
      (SqlOutboxQueue.releasePatch .new (row.retryCount + 1) (some (t + micros)))

/-- What an attempt at the row, claimed at `now`, hands to the broker. -/
def handed (py : Platform) (now : Time) (row : OutboxModel) (delivered : Bool) :
    List (List (String × Json) × Headers × Bool) :=
  match OutboxEventCodec.encode py (OutboxMapper.toClaimedRecord row now) with
  | .ok (body, headers) => [(body, headers, delivered)]
  | .error _ => []

/-- An attempt at a row. -/
structure Attempt where
  row : OutboxModel
  delivered : Bool
  patch : OutboxPatch

namespace Attempt

/-- The write that settles the row. -/
def write (a : Attempt) : Write := .updateOutbox a.row.id a.patch

/-- The attempt settles its row; one that is delivered was published. -/
structure Right (py : Platform) (worker : PublishOutbox) (i : Nat) (now : Time) (s : World)
    (a : Attempt) : Prop where
  published : a.delivered = true → handed py now a.row a.delivered ≠ []
  settles : Settles worker i a.row s a.delivered a.patch

end Attempt

theorem Settles.mono {row : OutboxModel} {b : Bool} {patch : OutboxPatch}
    (h : Settles worker i row s b patch) (hlog : s.log <:+ s'.log) :
    Settles worker i row s' b patch := by
  cases h with
  | processed t => exact .processed t
  | failed h => exact .failed h
  | new h t micros failedAt waits => exact .new h t micros (failedAt.trans hlog.isInfix) waits

/-! ## The delay -/

/-- There are times with `reads`, and at each of them the worker can compute its cutoffs and the
next attempt after any number of attempts below its maximum. -/
structure PublishOutbox.Schedules (worker : PublishOutbox) (reads : Time → Prop) : Prop where
  readable : ∃ t, reads t
  stale : ∀ t, reads t → IsDatetime (t - worker.claimTimeout)
  cutoff : ∀ t, reads t → IsDatetime (t - worker.retention)
  next : ∀ t, reads t → ∀ attempts < worker.maxAttempts, ∀ bits, ∃ delay micros,
    worker.backoff.delayFor attempts bits = .ok delay ∧ timedeltaSeconds delay = .ok micros ∧
      IsDatetime (t + micros)

/-- There are times with `reads`, and the years 1 to 9999 hold each of them, the worker's cutoffs
then and the end of a delay of `top` from then on. -/
structure PublishOutbox.FitsCalendar (worker : PublishOutbox) (top : Int) (reads : Time → Prop) :
    Prop where
  readable : ∃ t, reads t
  now : ∀ t, reads t → IsDatetime t
  stale : ∀ t, reads t → IsDatetime (t - worker.claimTimeout)
  cutoff : ∀ t, reads t → IsDatetime (t - worker.retention)
  due : ∀ t, reads t → IsDatetime (t + top)

theorem IsDatetime.between {t top micros : Int} (h : IsDatetime t) (htop : IsDatetime (t + top))
    (hlo : 0 ≤ micros) (hhi : micros ≤ top) : IsDatetime (t + micros) :=
  ⟨h.1.trans (le_add_of_nonneg_right hlo), (Int.add_le_add_left hhi t).trans htop.2⟩

theorem schedules_of_proper {top : Int} (h : worker.backoff.Proper top)
    (hmax : worker.maxAttempts ≤ 1024) (hfits : worker.FitsCalendar top reads) :
    worker.Schedules reads where
  readable := hfits.readable
  stale := hfits.stale
  cutoff := hfits.cutoff
  next t ht attempts hlt bits := by
    have ha : attempts ≤ 1024 := by omega
    have hfit : ∀ {micros}, 0 ≤ micros → micros ≤ top → IsDatetime (t + micros) :=
      (hfits.now t ht).between (hfits.due t ht)
    by_cases h₁ : 1 ≤ attempts
    · obtain ⟨c, cap, half, e, -, hcap, hle, -, hhalf0, he, hlo, hhi⟩ := h.delayFor h₁ ha bits
      have htop : timedeltaSeconds (.finite cap) = .ok top := hcap ▸ h.top
      obtain ⟨a, hmicros, ha₀, hatop⟩ :=
        timedeltaSeconds_mono (hhalf0.trans hlo) (hhi.trans hle) htop
      exact ⟨_, a, he, hmicros, hfit ha₀ hatop⟩
    · obtain ⟨cap, hcap, -, hcap0⟩ := h.cap_finite
      have htop : timedeltaSeconds (.finite cap) = .ok top := hcap ▸ h.top
      obtain ⟨a, hmicros, ha₀, hatop⟩ := timedeltaSeconds_mono (le_refl 0) hcap0 htop
      exact ⟨_, a, by rw [ExponentialDelay.delayFor, if_pos (by omega)], hmicros, hfit ha₀ hatop⟩

theorem returns_retryDelay (hd : worker.Schedules reads) {t : Time} (ht : reads t) {attempts : Int}
    (ha : attempts < worker.maxAttempts) (hc : Came i s ws ms st s₁) :
    Returns py i reads (fun micros s' => Came i s ws ms st s' ∧
        worker.backoff.Waits attempts micros ∧ IsDatetime (t + micros))
      (PublishOutbox.retryDelay worker.backoff attempts) s₁ := by
  have hrest : ∀ (bits : Fin (2 ^ 53)) s₂, Came i s ws ms st s₂ →
      Returns py i reads (fun micros s' => Came i s ws ms st s' ∧
          worker.backoff.Waits attempts micros ∧ IsDatetime (t + micros))
        (orRaise (worker.backoff.delayFor attempts bits) >>= fun delay =>
          orRaise (timedeltaSeconds delay)) s₂ := by
    intro bits s₂ hc₂
    obtain ⟨delay, micros, hdelay, hmicros, hdue⟩ := hd.next t ht attempts ha bits
    rw [hdelay]
    simp only [orRaise, Prog.ofExcept, Prog.bind_eq, Prog.ret_bind, hmicros]
    exact returns_ret ⟨hc₂, ⟨bits, delay, hdelay, hmicros⟩, hdue⟩
  unfold PublishOutbox.retryDelay
  by_cases hj : worker.backoff.useJitter = true
  · rw [if_pos hj]
    refine Returns.bind (P := fun _ s' => Came i s ws ms st s') ?_ hrest
    apply returns_call hc.free rfl
    intro c a s₂ _ he
    cases he
    exact hc.note (by simp)
  · rw [if_neg hj]
    exact hrest _ s₁ hc

/-! ## One row -/

theorem returns_settle {id : UUID} {patch : OutboxPatch} (hc : Came i s ws ms [] s₁)
    (hrow : (s₁.db.outbox.find? id).isSome = true) :
    Returns py i reads (fun _ s' => Came i s (ws ++ [.updateOutbox id patch]) ms [] s')
      (call (.updateOutbox [id] patch) >>= fun _ => call .commit) s₁ := by
  refine Returns.bind (hc.updateOutbox fun a ha => ?_) fun _ s₂ h₂ => h₂.callCommit
  rw [List.mem_singleton.1 ha, view, hc.staged, Tables.writeAll_nil]
  exact hrow

theorem returns_markProcessed (hreads : ∃ t, reads t) (record : OutboxRecord)
    (hc : Came i s ws ms [] s₁) (hrow : (s₁.db.outbox.find? record.id).isSome = true) :
    Returns py i reads (fun _ s' => ∃ t, Came i s
      (ws ++ [.updateOutbox record.id (SqlOutboxQueue.processedPatch t)]) ms [] s')
      (PublishOutbox.markProcessed record) s₁ := by
  refine returns_withUow (P := fun _ s' => ∃ t, Came i s
    (ws ++ [.updateOutbox record.id (SqlOutboxQueue.processedPatch t)]) ms [] s') ?_ ?_
  · apply Returns.bind (hc.now hreads)
    intro t s₂ h₂
    have hdb : s₂.db = s₁.db := h₂.2.1.db.trans hc.db.symm
    exact (returns_settle h₂.2.1 (by rw [hdb]; exact hrow)).mono fun _ s₃ h₃ => ⟨t, h₃⟩
  · rintro _ s₃ ⟨t, h₃⟩
    exact ⟨t, h₃.endTx.note (by simp)⟩

theorem returns_log {event : String} {id : UUID} (hc : Came i s ws ms st s₁) :
    Returns py i reads (fun _ s' => Came i s ws ms st s' ∧
      s'.log = .did i (.log event id) (.ok ()) :: s₁.log) (call (.log event id)) s₁ := by
  apply returns_call hc.free rfl
  intro c a s₂ _ he
  cases he
  exact ⟨hc.note (by simp), rfl⟩

theorem returns_nextAttempt {row : OutboxModel} {now t : Time}
    (hd : worker.Schedules reads) (ht : reads t)
    (hc : Came i s ws ms [] s₁) (hfailed : s₁.FailedAt i row.id t) :
    Returns py i reads (fun r s' => Came i s ws ms [] s' ∧
      Settles worker i row s' false (SqlOutboxQueue.releasePatch r.1 (row.retryCount + 1) r.2))
      (worker.nextAttempt (OutboxMapper.toClaimedRecord row now) (row.retryCount + 1) t) s₁ := by
  unfold PublishOutbox.nextAttempt
  by_cases hlast : worker.maxAttempts ≤ row.retryCount + 1
  · rw [if_pos hlast]
    exact Returns.bind (returns_log hc) fun _ s₂ h₂ => returns_ret ⟨h₂.1, .failed hlast⟩
  · rw [if_neg hlast]
    apply Returns.bind (returns_retryDelay hd ht (by omega) hc).logged
    intro micros s₂ h₂
    obtain ⟨⟨hc₂, hwaits, hdue⟩, hlog⟩ := h₂
    rw [datetimeAdd_of hdue]
    exact returns_ret ⟨hc₂, .new (by omega) t micros (hfailed.trans hlog.isInfix) hwaits⟩

/-- **A failed delivery** counts one more attempt. -/
theorem returns_retryOrFail {row : OutboxModel} {now : Time} {l : List Entry}
    (hd : worker.Schedules reads)
    (hc : Came i s ws ms [] s₁) (hrow : (s₁.db.outbox.find? row.id).isSome = true)
    (hlog : s₁.log = .did i (.log "outbox.publish_failed" row.id) (.ok ()) :: l) :
    Returns py i reads (fun _ s' => ∃ patch, Came i s (ws ++ [.updateOutbox row.id patch]) ms [] s' ∧
      Settles worker i row s' false patch)
      (worker.retryOrFail (OutboxMapper.toClaimedRecord row now)) s₁ := by
  unfold PublishOutbox.retryOrFail
  apply Returns.bind (hc.now hd.readable)
  intro t s₂ h₂
  obtain ⟨ht, h₂⟩ := h₂
  have hfailed : s₂.FailedAt i row.id t := ⟨[], l, by rw [h₂.2, hlog]; rfl⟩
  apply Returns.bind (returns_nextAttempt hd ht h₂.1 hfailed)
  intro r s₃ h₃
  have hdb : s₃.db = s₁.db := h₃.1.db.trans hc.db.symm
  apply returns_withUow (returns_settle h₃.1 (by rw [hdb]; exact hrow)).logged
  intro _ s₄ h₄
  exact ⟨_, h₄.1.endTx.note (by simp), h₃.2.mono (h₄.2.trans (List.suffix_cons ..))⟩

theorem ends_publish {body : List (String × Json)} {headers : Headers}
    (hc : Came i s ws ms [] s₁) : (machine py).Ends i (StoreWorks reads) (fun r s' =>
      Came i s ws (ms ++ [(body, headers, r.isOk)]) [] s' ∧
        ∀ e, r = .error e → e.isException = true) (call (.publish .new body headers none)) s₁ := by
  have hcame : ∀ b (r : Except Exc (Res (.publish .new body headers none))),
      Came i s ws (ms ++ [(body, headers, r.isOk)]) []
        ({ s₁ with broker := b }.note (.did i (.publish .new body headers none) r)) := by
    intro b r
    refine ⟨hc.db, ?_, hc.staged, hc.free, hc.log.trans (List.suffix_cons ..)⟩
    rw [publications_note, ← List.append_assoc, ← hc.publications]
    rfl
  refine Machine.ends_perform ⟨{}, _, _, ⟨rfl, fun f h => by simp at h⟩, rfl⟩ ?_
  intro c r s' hw he
  have hfault : ∀ f, c.outcome = .lost f ∨ c.outcome = .late f → f.toExc.isException = true := hw.2
  have hexec : World.exec i (.publish .new body headers none) c s₁ = some (r, s') := he
  unfold World.exec at hexec
  cases hout : c.outcome with
  | fine =>
    rw [hout] at hexec
    cases hexec
    exact ⟨hcame _ _, fun e he => by cases he⟩
  | late f =>
    rw [hout] at hexec
    cases hexec
    exact ⟨hcame _ _, fun e he => by cases he; exact hfault f (.inr hout)⟩
  | lost f =>
    rw [hout] at hexec
    cases hexec
    exact ⟨hcame _ _, fun e he => by cases he; exact hfault f (.inl hout)⟩

/-- What a delivery leaves: the row is marked, or the exception says that it is not. -/
def Delivers (py : Platform) (i : Nat) (row : OutboxModel) (now : Time) (s : World)
    (ws : List Write) (ms : List (List (String × Json) × Headers × Bool)) (r : Except Exc Unit)
    (s' : World) : Prop :=
  (r = .ok () ∧ handed py now row true ≠ [] ∧ ∃ t, Came i s
    (ws ++ [.updateOutbox row.id (SqlOutboxQueue.processedPatch t)])
      (ms ++ handed py now row true) [] s') ∨
  ∃ e, r = .error e ∧ e.isException = true ∧ Came i s ws (ms ++ handed py now row false) [] s'

theorem ends_deliver (hreads : ∃ t, reads t) {row : OutboxModel} {now : Time}
    (hc : Came i s ws ms [] s₁) (hrow : (s₁.db.outbox.find? row.id).isSome = true) :
    (machine py).Ends i (StoreWorks reads) (Delivers py i row now s ws ms)
      (PublishOutbox.deliver py (OutboxMapper.toClaimedRecord row now)) s₁ := by
  unfold PublishOutbox.deliver PublishOutbox.publishOne
  cases henc : OutboxEventCodec.encode py (OutboxMapper.toClaimedRecord row now) with
  | error e =>
    refine .inr ⟨e, rfl, ?_, ?_⟩
    · unfold OutboxEventCodec.encode at henc
      split at henc
      · cases henc
      · cases henc
        rfl
    · simpa [handed, henc] using hc
  | ok message =>
    obtain ⟨body, headers⟩ := message
    have hhanded : ∀ b, handed py now row b = [(body, headers, b)] := fun b => by
      simp only [handed, henc]
    refine Machine.Ends.bind (ends_publish hc) (fun _ s₂ h₂ => ?_) fun e s₂ h₂ => ?_
    · have hdb : s₂.db = s₁.db := h₂.1.db.trans hc.db.symm
      refine Machine.Ends.mono (returns_markProcessed hreads (OutboxMapper.toClaimedRecord row now)
        h₂.1 (by rw [hdb]; exact hrow)) ?_
      intro r s₃ h₃
      obtain ⟨_, rfl, t, h₃⟩ := h₃
      refine .inl ⟨rfl, by simp [hhanded], t, ?_⟩
      rw [hhanded]
      exact h₃
    · refine .inr ⟨e, rfl, h₂.2 e rfl, ?_⟩
      rw [hhanded]
      exact h₂.1

/-- **One attempt**: whatever its outcome, it returns and settles the row. -/
theorem returns_attempt {row : OutboxModel} {now : Time}
    (hd : worker.Schedules reads)
    (hc : Came i s ws ms [] s₁) (hrow : (s₁.db.outbox.find? row.id).isSome = true) :
    Returns py i reads (fun delivered s' => ∃ patch,
      Came i s (ws ++ [.updateOutbox row.id patch]) (ms ++ handed py now row delivered) [] s' ∧
        Attempt.Right py worker i now s' ⟨row, delivered, patch⟩)
      (PublishOutbox.attempt py worker (OutboxMapper.toClaimedRecord row now)) s₁ := by
  unfold PublishOutbox.attempt
  refine Returns.bind (P := fun delivered s' => ∃ patch,
    Came i s (ws ++ [.updateOutbox row.id patch]) (ms ++ handed py now row delivered) [] s' ∧
      Attempt.Right py worker i now s' ⟨row, delivered, patch⟩) ?_ fun delivered s₂ h₂ => ?_
  · refine Machine.Ends.tryCatch (Q := fun r s' => Delivers py i row now s ws ms
      (r.map fun _ => ()) s' ∧ ∀ b, r = .ok b → b = true) ?_ ?_ ?_
    · refine Machine.Ends.bind (ends_deliver hd.readable hc hrow) (fun _ s₂ h₂ => ⟨h₂, ?_⟩)
        fun e s₂ h₂ => ⟨h₂, ?_⟩
      · rintro b ⟨⟩
        rfl
      · rintro b ⟨⟩
    · rintro b s₂ ⟨h₂ | ⟨e, he, -⟩, hb⟩
      · obtain ⟨-, hne, t, h₂⟩ := h₂
        obtain rfl := hb b rfl
        exact ⟨_, rfl, _, h₂, ⟨fun _ => hne, .processed t⟩⟩
      · cases he
    · rintro e s₂ ⟨⟨he, -⟩ | ⟨e', he, hex, h₂⟩, -⟩
      · cases he
      · cases he
        have hdb : s₂.db = s₁.db := h₂.db.trans hc.db.symm
        rw [if_pos hex]
        apply Returns.bind (returns_log h₂)
        intro _ s₃ h₃
        have hdb₃ : s₃.db = s₁.db := h₃.1.db.trans hc.db.symm
        apply Returns.bind (returns_retryOrFail hd h₃.1 (by rw [hdb₃]; exact hrow) h₃.2)
        intro _ s₄ h₄
        obtain ⟨patch, h₄, hsettles⟩ := h₄
        exact returns_ret ⟨patch, h₄, ⟨(fun h => by cases h), hsettles⟩⟩
  · obtain ⟨patch, h₂, hright⟩ := h₂
    cases delivered with
    | false => exact returns_ret ⟨patch, h₂, hright⟩
    | true =>
      refine Returns.bind (h₂.now hd.readable) fun t s₃ h₃ =>
        returns_ret ⟨patch, h₃.2.1, hright.published, ?_⟩
      exact hright.settles.mono (h₃.2.2 ▸ List.suffix_cons ..)

/-! ## The batch -/

theorem isSome_updateOne {db : Tables} {patch : OutboxPatch} {a id : UUID}
    (h : (db.outbox.find? id).isSome = true) :
    ((db.writeAll [.updateOutbox a patch]).outbox.find? id).isSome = true := by
  rw [Tables.find?_updateOne]
  split
  · rw [Option.isSome_map, h]
  · exact h

/-- **The loop** attempts every row of the batch, in order. -/
theorem returns_attemptAll {now : Time} (hd : worker.Schedules reads) (rows : List OutboxModel) :
    ∀ {s₁ ws ms} (n : Nat), Came i s ws ms [] s₁ →
      (∀ row ∈ rows, (s₁.db.outbox.find? row.id).isSome = true) →
      Returns py i reads (fun m s' => ∃ attempts : List Attempt, attempts.map (·.row) = rows ∧
        m = n + attempts.countP (·.delivered) ∧
        Came i s (ws ++ attempts.map Attempt.write)
          (ms ++ attempts.flatMap fun a => handed py now a.row a.delivered) [] s' ∧
        ∀ a ∈ attempts, a.Right py worker i now s')
        (PublishOutbox.attemptAll py worker
          (rows.map fun row => OutboxMapper.toClaimedRecord row now) n) s₁ := by
  induction rows with
  | nil =>
    intro s₁ ws ms n hc _
    exact returns_ret ⟨[], rfl, rfl, by simpa using hc, fun _ ha => by cases ha⟩
  | cons row rows ih =>
    intro s₁ ws ms n hc hrows
    have hrow := hrows row (List.mem_cons_self ..)
    apply Returns.bind (returns_attempt hd hc hrow)
    intro delivered s₂ h₂
    obtain ⟨patch, h₂, hright⟩ := h₂
    have hdb : s₂.db = s₁.db.writeAll [.updateOutbox row.id patch] := by
      rw [h₂.db, hc.db, Tables.writeAll, Tables.writeAll, Tables.writeAll, List.foldl_append]
    refine (ih _ h₂ fun row' hrow' => ?_).logged.mono fun _ s₃ h₃ => ?_
    · rw [hdb]
      exact isSome_updateOne (hrows row' (List.mem_cons_of_mem _ hrow'))
    · obtain ⟨⟨attempts, hmap, rfl, h₃, hrights⟩, hlog⟩ := h₃
      refine ⟨⟨row, delivered, patch⟩ :: attempts, by rw [List.map_cons, hmap], ?_, ?_, ?_⟩
      · rw [List.countP_cons]
        cases delivered
        · simp
        · simp only [if_true]
          omega
      · simpa [Attempt.write] using h₃
      · intro a ha
        rcases List.mem_cons.1 ha with rfl | ha
        · exact ⟨hright.published, hright.settles.mono hlog⟩
        · exact hrights a ha

/-! ## The execution -/

namespace PublishOutbox

/-- The rows that are due, oldest first, a batch at most. -/
def due (worker : PublishOutbox) (outbox : Table OutboxModel.id) (now : Time) :
    List OutboxModel :=
  ((outbox.rows.filter fun row =>
    OutboxClaimFilter.build now (now - worker.claimTimeout) row).insertionSort
      fun a b => a.createdAt ≤ b.createdAt).take worker.batchSize

/-- The processed rows that were published before the retention, a batch at most. -/
def expired (worker : PublishOutbox) (outbox : Table OutboxModel.id) (now : Time) :
    List OutboxModel :=
  (outbox.rows.filter fun row => decide (row.status = .processed) &&
    match row.publishedAt with
    | none => false
    | some publishedAt => publishedAt < now - worker.retention).take worker.batchSize

theorem mem_due {outbox : Table OutboxModel.id} {now : Time} {row : OutboxModel}
    (h : row ∈ worker.due outbox now) : outbox.find? row.id = some row ∧
      OutboxClaimFilter.build now (now - worker.claimTimeout) row = true := by
  have hmem := (List.mem_insertionSort _).1 (List.mem_of_mem_take h)
  obtain ⟨hrow, hdue⟩ := List.mem_filter.1 hmem
  exact ⟨Table.find?_key hrow, hdue⟩

theorem mem_expired {outbox : Table OutboxModel.id} {now : Time} {row : OutboxModel}
    (h : row ∈ worker.expired outbox now) : outbox.find? row.id = some row ∧
      row.status = .processed ∧ ∃ t, row.publishedAt = some t ∧ t < now - worker.retention := by
  obtain ⟨hrow, hold⟩ := List.mem_filter.1 (List.mem_of_mem_take h)
  refine ⟨Table.find?_key hrow, ?_⟩
  rw [Bool.and_eq_true, decide_eq_true_eq] at hold
  cases hp : row.publishedAt with
  | none =>
    rw [hp] at hold
    cases hold.2
  | some t =>
    rw [hp] at hold
    exact ⟨hold.1, t, rfl, of_decide_eq_true hold.2⟩

end PublishOutbox

theorem view_came (hc : Came i s ws ms [] s₁) : s₁.view i = s₁.db := by
  rw [view, hc.staged, Tables.writeAll_nil]

theorem claimable_came (hc : Came i s ws ms [] s₁) (now : Time) :
    s₁.claimable i [] worker.batchSize now (now - worker.claimTimeout) =
      worker.due s₁.db.outbox now := by
  have hfree : ∀ row : OutboxModel, s₁.locks.Free i (.outbox row.id) := fun row => hc.free _
  simp only [claimable, PublishOutbox.due, view_came hc, hfree, decide_true, Bool.and_true,
    List.not_mem_nil, not_false_eq_true]

theorem purgeable_came (hc : Came i s ws ms [] s₁) (now : Time) :
    s₁.purgeable i [] worker.batchSize (now - worker.retention) =
      worker.expired s₁.db.outbox now := by
  unfold purgeable PublishOutbox.expired
  rw [view_came hc]
  refine congrArg (List.take _) (List.filter_congr fun row _ => ?_)
  cases row.publishedAt <;> simp

theorem returns_claimBatch (hc : Came i s [] [] [] s₁) (now : Time) :
    Returns py i reads (fun records s' =>
      records = (worker.due s.db.outbox now).map (OutboxMapper.toClaimedRecord · now) ∧
        Came i s [] [] (claimWrites (worker.due s.db.outbox now) now) s')
      (SqlOutboxQueue.claimBatch worker.batchSize now (now - worker.claimTimeout)) s₁ := by
  have hdb : s₁.db = s.db := hc.db
  have hselect : Returns py i reads (fun rows s' => rows = worker.due s.db.outbox now ∧
      Came i s [] [] [] s') (call (.selectClaimable worker.batchSize now
        (now - worker.claimTimeout))) s₁ := by
    apply returns_call hc.free rfl
    intro c rows s₂ hskip he
    simp only [effect, hskip, claimable_came hc] at he
    obtain ⟨s₃, hl, heq⟩ := Option.map_eq_some_iff.1 he
    cases heq
    exact ⟨by rw [hdb], (hc.lockAndStage hl).note (by simp)⟩
  apply Returns.bind hselect
  intro rows s₂ h₂
  obtain ⟨rfl, h₂⟩ := h₂
  cases hdue : worker.due s.db.outbox now with
  | nil => exact returns_ret ⟨rfl, h₂⟩
  | cons row rows =>
    refine Returns.bind (h₂.updateOutbox fun id hid => ?_) fun _ s₃ h₃ => returns_ret ⟨rfl, h₃⟩
    obtain ⟨row', hrow', rfl⟩ := List.mem_map.1 hid
    rw [← hdue] at hrow'
    rw [view_came h₂, h₂.db, Tables.writeAll_nil, (PublishOutbox.mem_due hrow').1]
    rfl

/-- **Claiming** takes the rows that are due. -/
theorem returns_claim (hd : worker.Schedules reads) (hc : Came i s [] [] [] s₁) :
    Returns py i reads (fun records s' => ∃ now, s'.Did i .now (.ok now) ∧
      records = (worker.due s.db.outbox now).map (OutboxMapper.toClaimedRecord · now) ∧
      Came i s (claimWrites (worker.due s.db.outbox now) now) [] [] s') worker.claim s₁ := by
  unfold PublishOutbox.claim
  apply Returns.bind (hc.now hd.readable)
  intro now s₂ h₂
  obtain ⟨hnow, h₂, hlog⟩ := h₂
  rw [datetimeSub_of (hd.stale now hnow)]
  have hread : s₂.Did i .now (.ok now) := by
    rw [Did, Logged, hlog]
    exact List.mem_cons_self ..
  refine (returns_withUow (P := fun records s' =>
    records = (worker.due s.db.outbox now).map (OutboxMapper.toClaimedRecord · now) ∧
      Came i s (claimWrites (worker.due s.db.outbox now) now) [] [] s')
    (Q := fun records s' =>
      records = (worker.due s.db.outbox now).map (OutboxMapper.toClaimedRecord · now) ∧
      Came i s (claimWrites (worker.due s.db.outbox now) now) [] [] s')
    ?_ fun _ s₃ h₃ => ⟨h₃.1, h₃.2.endTx.note (by simp)⟩).logged.mono fun records s₃ h₃ =>
      ⟨now, h₃.2.subset hread, h₃.1.1, h₃.1.2⟩
  apply Returns.bind (returns_claimBatch h₂ now)
  intro records s₃ h₃
  obtain ⟨rfl, h₃⟩ := h₃
  -- it commits only what it has claimed
  cases hdue : worker.due s.db.outbox now with
  | nil =>
    rw [hdue] at h₃
    exact returns_ret ⟨rfl, h₃⟩
  | cons row rows =>
    rw [hdue] at h₃
    exact Returns.bind h₃.callCommit fun _ s₄ h₄ => returns_ret ⟨rfl, h₄⟩

/-- **The purge** deletes what has expired. -/
theorem returns_purge (hd : worker.Schedules reads) (hc : Came i s [] [] [] s₁) :
    Returns py i reads (fun _ s' => ∃ now, s'.Did i .now (.ok now) ∧
      Came i s ((worker.expired s.db.outbox now).map fun row => .deleteOutbox row.id) [] [] s')
      (PurgeProcessedOutbox.execute worker.retention worker.batchSize) s₁ := by
  unfold PurgeProcessedOutbox.execute
  apply Returns.bind (hc.now hd.readable)
  intro now s₂ h₂
  obtain ⟨hnow, h₂, hlog⟩ := h₂
  rw [datetimeSub_of (hd.cutoff now hnow)]
  have hread : s₂.Did i .now (.ok now) := by
    rw [Did, Logged, hlog]
    exact List.mem_cons_self ..
  have hdb : s₂.db = s.db := h₂.db
  refine (returns_withUow (P := fun _ s' => Came i s
      ((worker.expired s.db.outbox now).map fun row => .deleteOutbox row.id) [] [] s')
    (Q := fun _ s' => Came i s
      ((worker.expired s.db.outbox now).map fun row => .deleteOutbox row.id) [] [] s')
    ?_ fun _ s₃ h₃ => h₃.endTx.note (by simp)).logged.mono fun _ s₃ h₃ =>
      ⟨now, h₃.2.subset hread, h₃.1⟩
  refine Returns.bind (P := fun _ s' => Came i s [] []
    ((worker.expired s.db.outbox now).map fun row => .deleteOutbox row.id) s') ?_
    fun _ s₃ h₃ => h₃.callCommit
  apply returns_call h₂.free rfl
  intro c n s₃ hskip he
  simp only [effect, hskip, purgeable_came h₂] at he
  obtain ⟨s₄, hl, heq⟩ := Option.map_eq_some_iff.1 he
  cases heq
  rw [hdb] at hl
  exact (h₂.lockAndStage hl).note (by simp)

theorem returns_refresh (hc : Came i s ws ms [] s₁) :
    Returns py i reads (fun _ s' => Came i s ws ms [] s' ∧ s'.locks.held = [])
      OutboxQueueGauges.refresh s₁ := by
  have hcount : ∀ statuses s₂, Came i s ws ms [] s₂ → Returns py i reads (fun _ s' =>
      Came i s ws ms [] s') (call (.countOutbox statuses)) s₂ := by
    intro statuses s₂ h₂
    apply returns_call h₂.free rfl
    intro c n s₃ _ he
    cases he
    exact h₂.note (by simp)
  unfold OutboxQueueGauges.refresh
  refine Returns.bind (P := fun _ s' => Came i s ws ms [] s' ∧ s'.locks.held = [])
    (returns_withUow (P := fun _ s' => Came i s ws ms [] s') ?_
      fun _ s₃ h₃ => ⟨h₃.endTx.note (by simp), Locks.held_releaseAll h₃.free⟩)
    fun _ s₂ h₂ => returns_ret h₂
  apply Returns.bind (hcount _ _ hc)
  intro pending s₂ h₂
  exact Returns.bind (hcount _ _ h₂) fun failed s₃ h₃ => returns_ret h₃

/-- What one execution by process `i` has done since `s`: its attempts at the rows that were due at
`now`, or else a purge. -/
structure Executed (py : Platform) (worker : PublishOutbox) (i : Nat) (s : World) (now : Time)
    (attempts : List Attempt) (s' : World) : Prop where
  read : s'.Did i .now (.ok now)
  rows : attempts.map (·.row) = worker.due s.db.outbox now
  publications : s'.publications =
    s.publications ++ attempts.flatMap fun a => handed py now a.row a.delivered
  right : ∀ a ∈ attempts, a.Right py worker i now s'
  clean : s'.staged i = []
  unlocked : s'.locks.held = []
  others : ∀ j, j ≠ i → s'.staged j = s.staged j
  log : s.log <:+ s'.log
  settled : attempts ≠ [] → s'.db = s.db.writeAll
    (claimWrites (worker.due s.db.outbox now) now ++ attempts.map Attempt.write)
  purged : attempts = [] → ∃ t, s'.Did i .now (.ok t) ∧ s'.db = s.db.writeAll
    ((worker.expired s.db.outbox t).map fun row => .deleteOutbox row.id)

theorem Returns.tryFinally {α : Type} {p : App α} {q : App Unit} {P P' : α → World → Prop}
    (h : Returns py i reads P p s)
    (hq : ∀ a s, P a s → Returns py i reads (fun _ s' => P' a s') q s) :
    Returns py i reads P' (p.tryFinally q) s :=
  Returns.bind (Returns.tryCatch h) fun a s hP =>
    Returns.bind (hq a s hP) fun _ _ hP' => returns_ret hP'

/-- **An execution returns**, whatever is due and whatever cannot be published. -/
theorem returns_execute (hd : worker.Schedules reads) (hs : s.Calm i) :
    Returns py i reads (fun n s' => ∃ now attempts, n = attempts.countP (·.delivered) ∧
      Executed py worker i s now attempts s') (worker.execute py) s := by
  suffices h : Returns py i reads (fun n s' => ∃ now attempts, n = attempts.countP (·.delivered) ∧
      ((∀ j, j ≠ i → s'.staged j = s.staged j) → Executed py worker i s now attempts s'))
      (worker.execute py) s from
    h.others.mono fun n s' ⟨⟨now, attempts, hn, h⟩, hothers⟩ => ⟨now, attempts, hn, h hothers⟩
  unfold PublishOutbox.execute
  apply Returns.bind (returns_claim hd hs.came)
  intro records s₁ h₁
  obtain ⟨now, hread, rfl, h₁⟩ := h₁
  cases hdue : worker.due s.db.outbox now with
  | nil =>
    rw [hdue] at h₁
    refine Returns.tryFinally (P := fun n s' => n = 0 ∧ s'.Did i .now (.ok now) ∧
      ∃ t, s'.Did i .now (.ok t) ∧ Came i s
        ((worker.expired s.db.outbox t).map fun row => .deleteOutbox row.id) [] [] s') ?_ ?_
    · refine Returns.bind (returns_purge hd h₁).logged fun _ s₂ h₂ => returns_ret ⟨rfl, ?_, h₂.1⟩
      exact h₂.2.subset hread
    · rintro n s₂ ⟨rfl, hread₂, t, ht, h₂⟩
      refine (returns_refresh h₂).logged.mono fun _ s₃ h₃ => ⟨now, [], rfl, fun hothers => ?_⟩
      obtain ⟨⟨h₃, hheld⟩, hlog⟩ := h₃
      exact ⟨hlog.subset hread₂, hdue.symm, h₃.publications, (fun _ ha => by cases ha), h₃.staged,
        hheld, hothers, h₃.log, fun h => absurd rfl h, fun _ => ⟨t, hlog.subset ht, h₃.db⟩⟩
  | cons row rows =>
    rw [hdue] at h₁
    have hrows : ∀ r ∈ row :: rows, (s₁.db.outbox.find? r.id).isSome = true := by
      intro r hr
      have hmem : r ∈ worker.due s.db.outbox now := hdue ▸ hr
      rw [h₁.db, claimWrites, Tables.find?_updates]
      split
      · rw [Option.isSome_map, (PublishOutbox.mem_due hmem).1]
        rfl
      · rw [(PublishOutbox.mem_due hmem).1]
        rfl
    refine Returns.tryFinally (P := fun n s' => ∃ attempts : List Attempt,
      attempts.map (·.row) = row :: rows ∧ n = attempts.countP (·.delivered) ∧
        s'.Did i .now (.ok now) ∧ Came i s
          (claimWrites (row :: rows) now ++ attempts.map Attempt.write)
          (attempts.flatMap fun a => handed py now a.row a.delivered) [] s' ∧
        ∀ a ∈ attempts, a.Right py worker i now s') ?_ ?_
    · refine (returns_attemptAll hd (row :: rows) 0 h₁ hrows).logged.mono ?_
      intro n s₂ h₂
      obtain ⟨⟨attempts, hmap, hn, h₂, hright⟩, hlog⟩ := h₂
      exact ⟨attempts, hmap, hn.trans (Nat.zero_add _), hlog.subset hread, h₂, hright⟩
    · rintro n s₂ ⟨attempts, hmap, hn, hread₂, h₂, hright⟩
      refine (returns_refresh h₂).logged.mono fun _ s₃ h₃ =>
        ⟨now, attempts, hn, fun hothers => ?_⟩
      obtain ⟨⟨h₃, hheld⟩, hlog⟩ := h₃
      refine ⟨hlog.subset hread₂, hmap.trans hdue.symm, h₃.publications, fun a ha => ?_,
        h₃.staged, hheld, hothers, h₃.log, fun _ => hdue ▸ h₃.db, fun h => ?_⟩
      · exact ⟨(hright a ha).published, (hright a ha).settles.mono hlog⟩
      · rw [h] at hmap
        cases hmap

end PaymentProcessing
