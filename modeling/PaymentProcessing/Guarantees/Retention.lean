import PaymentProcessing.Guarantees.Messages
import PaymentProcessing.Protocol.Readings

/-!
# Events stay for the retention

A row leaves the outbox by a purge only. The relay that purges it has read a time that is later than
the row's time of publication by more than its retention, and that time was read by a relay which
had published the event before.
-/

namespace PaymentProcessing

open Python Relational Concurrency World

variable {py : Platform} {A : Allowed} {i : Nat} {s s' : World} {y y' : Config} {id : UUID}
  {t : Time}

namespace World

/-- A relay read the clock as `t` after it had published the event of the row. -/
def RelayedAt (py : Platform) (id : UUID) (t : Time) (s : World) : Prop :=
  ∃ j record body headers, record.id = id ∧
    OutboxEventCodec.encode py record = .ok (body, headers) ∧
    s.Before (.did j (.publish .new body headers none) (.ok ())) (.did j .now (.ok t))

/-- A relay has read a time by which the retention of what was published at `t` was over. -/
def Outdated (t : Time) (s : World) : Prop :=
  ∃ i worker now, s.Relays i worker ∧ s.Did i .now (.ok now) ∧ t < now - worker.retention

/-- Process `i` deletes a row that it has locked, and that is older than what it compared with. -/
def Purges (i : Nat) (id : UUID) (s : World) : Prop :=
  ∃ row t cutoff limit r, s.db.outbox.find? id = some row ∧ s.locks.Holds i (.outbox id) ∧
    row.publishedAt = some t ∧ t < cutoff ∧ s.Did i (.deleteProcessed cutoff limit) r

end World

theorem World.RelayedAt.mono (h : s.RelayedAt py id t) (hlog : s.log <:+ s'.log) :
    s'.RelayedAt py id t := by
  obtain ⟨j, record, body, headers, hid, hencode, l₁, l₂, hl, hm⟩ := h
  obtain ⟨l, hl'⟩ := hlog
  refine ⟨j, record, body, headers, hid, hencode, l ++ l₁, l₂, ?_, hm⟩
  rw [← hl', hl, List.append_assoc]

theorem World.Outdated.mono (h : s.Outdated t) (hlog : s.log <:+ s'.log) : s'.Outdated t := by
  obtain ⟨i, worker, now, hrelays, hread, hlt⟩ := h
  exact ⟨i, worker, now, hlog.mem hrelays, hlog.mem hread, hlt⟩

/-! ## Publication -/

/-- The order of a history is the order of the log. -/
theorem before_of_suffix {x : Performed Res Exc} {op : Op} {r : Except Exc (Res op)}
    {before : History} (hs : ⟨op, r⟩ :: before <:+ s.history i) (hx : x ∈ before) :
    s.Before (.did i x.1 x.2) (.did i op r) := by
  obtain ⟨later, hlater⟩ := hs
  obtain ⟨l₁, l, hl, -, hrest⟩ := List.filterMap_eq_append_iff.1 hlater.symm
  obtain ⟨l₂, e, l₃, hl₂, -, he, hbefore⟩ := List.filterMap_eq_cons_iff.1 hrest
  have hdid := performed_eq_some.1 he
  subst hdid
  refine ⟨l₁ ++ l₂, l₃, by rw [hl, hl₂, List.append_assoc], ?_⟩
  rw [← hbefore] at hx
  obtain ⟨e, hmem, he⟩ := List.mem_filterMap.1 hx
  rw [performed_eq_some.1 he] at hmem
  exact hmem

/-- **A row is marked with a time that was read when its event had been published.** -/
theorem marked_relayed (hy : Reachable py A y) (hm : y.state.Marked id t) :
    y.state.RelayedAt py id t := by
  obtain ⟨j, hcommitted⟩ := hm
  obtain ⟨op, r, hdid, hstages⟩ :=
    (written hy j _).2 _ hcommitted (List.mem_singleton_self _)
  obtain ⟨k, hk⟩ := hy.inv.active _ hdid
  obtain ⟨before, hbefore, htimed⟩ := did_timed hy hk hdid
  cases op with
  | updateOutbox ids patch =>
    obtain ⟨id', hid, hw⟩ := hstages
    cases hw
    obtain ⟨record, earlier, hrecord, ⟨body, headers, hencode, hpublished⟩, hsuffix⟩ :=
      htimed t rfl id hid
    exact ⟨j, record, body, headers, hrecord, hencode,
      before_of_suffix (hsuffix.trans hbefore) hpublished⟩
  | deleteProcessed cutoff limit =>
    obtain ⟨id', hw⟩ := hstages
    cases hw
  | insertPayment | updatePayment | addOutbox | insertInbox | insertCharge => cases hstages
  | _ => exact hstages.elim

/-! ## Purging -/

/-- What a purge deletes is locked, and older than its cutoff. -/
theorem exec_deleteProcessed {cutoff : Time} {limit : Nat} {c : Choice}
    {r : Except Exc (Res (.deleteProcessed cutoff limit))} (hnone : s.staged i = [])
    (h : World.exec i (.deleteProcessed cutoff limit) c s = some (r, s')) :
    ∀ id, .deleteOutbox id ∈ s'.staged i → s'.Purges i id := by
  refine exec_effect (G := fun s' => ∀ id, .deleteOutbox id ∈ s'.staged i → s'.Purges i id) rfl h
    (fun r₁ s₁ he id hw => ?_) fun id hw => ?_
  · obtain ⟨s₂, hl, hr⟩ := Option.map_eq_some_iff.1 he
    cases hr
    obtain ⟨hst, hdb, hlocks⟩ := lockAndStage_own (e := .did i _ r) hl
    rw [hst, hnone, List.nil_append] at hw
    obtain ⟨row, hrow, hid⟩ := List.mem_map.1 hw
    cases hid
    have hmem := List.mem_of_mem_take hrow
    rw [view, hnone, Tables.writeAll_nil, List.mem_filter] at hmem
    obtain ⟨hmem, hold⟩ := hmem
    cases ht : row.publishedAt with
    | none => simp [ht] at hold
    | some t =>
      refine ⟨row, t, cutoff, limit, r, ?_, hlocks _ (List.mem_map_of_mem hrow), ht, ?_,
        List.mem_cons_self ..⟩
      · rw [hdb]
        exact Table.find?_key hmem
      · simp only [ht, Bool.and_eq_true, decide_eq_true_eq] at hold
        exact hold.2
  · have hstaged : (s.note (.did i (.deleteProcessed cutoff limit) r)).staged i = [] := hnone
    rw [hstaged] at hw
    cases hw

theorem World.Purges.mono (h : s.Purges i id) (hlog : s.log <:+ s'.log)
    (hlocks : ∀ l, s.locks.Holds i l → s'.locks.Holds i l)
    (hrow : ∀ id row, s.locks.Holds i (.outbox id) → s.db.outbox.find? id = some row →
      s'.db.outbox.find? id = some row) : s'.Purges i id := by
  obtain ⟨row, t, cutoff, limit, r, hfind, hlock, ht, hlt, hd⟩ := h
  exact ⟨row, t, cutoff, limit, r, hrow id row hlock hfind, hlocks _ hlock, ht, hlt, hlog.mem hd⟩

/-- An operation of the process leaves what it deletes as it is, or ends the transaction. -/
theorem World.Purges.exec {op : Op} {c : Choice} {r : Except Exc (Res op)} (h : s.Purges i id)
    (he : World.exec i op c s = some (r, s')) (hw : .deleteOutbox id ∈ s'.staged i) :
    s'.Purges i id := by
  obtain ⟨l, hl, -⟩ := exec_log he
  have hlog : s.log <:+ s'.log := ⟨.did i op r :: l, hl.symm⟩
  have hended : ¬ s'.NoTransaction i := by
    intro hnone
    rw [hnone.staged] at hw
    cases hw
  cases hop : op.isEnd with
  | false =>
    have hcommit : op ≠ .commit := by
      rintro rfl
      cases hop
    obtain ⟨s₁, hframe, rfl⟩ := exec_frame hcommit he
    refine h.mono hlog (fun _ hlock => exec_holds hop he hlock) ?_
    intro id row _ hfind
    rw [note, hframe.db]
    exact hfind
  | true =>
    cases op with
    | commit =>
      rcases exec_commit he with rfl | ⟨-, rfl⟩
      · exact absurd ⟨Function.update_self .., fun l => by simp [note, World.commit, endTx]⟩ hended
      · exact h.mono hlog (fun _ hlock => hlock) fun _ _ _ hfind => hfind
    | rollback => exact absurd (exec_ended (.inl rfl) he) hended
    | close => exact absurd (exec_ended (.inr rfl) he) hended
    | _ => cases hop

/-- **What a process deletes, it has found outdated**, and nobody has changed it since. -/
theorem Reachable.purges (hy : Reachable py A y) :
    ∀ i id, .deleteOutbox id ∈ y.state.staged i → y.state.Purges i id := by
  refine hy.held (G := fun i s => ∀ id, .deleteOutbox id ∈ s.staged i → s.Purges i id) ?_ ?_ ?_
  · intro i s hnone id hw
    rw [hnone.staged] at hw
    cases hw
  · intro y i k op f c r s' hr hi he hold id hw
    by_cases hop : ∃ cutoff limit, op = .deleteProcessed cutoff limit
    · obtain ⟨cutoff, limit, rfl⟩ := hop
      have huntouched : Untouched (y.state.history i) :=
        ((hr.orderly hi).1.waits rfl).resolve_right fun hrelocks => hrelocks
      exact exec_deleteProcessed (hr.noTransaction hi huntouched).staged he id hw
    · have hstaged : .deleteOutbox id ∈ y.state.staged i := by
        refine (exec_stages he hw).resolve_right ?_
        intro hstages
        cases op with
        | deleteProcessed cutoff limit => exact hop ⟨cutoff, limit, rfl⟩
        | updateOutbox =>
          obtain ⟨_, -, hwrite⟩ := hstages
          cases hwrite
        | insertPayment | updatePayment | addOutbox | insertInbox | insertCharge => cases hstages
        | _ => exact hstages
      exact (hold id hstaged).exec he hw
  · intro i s s' hrely hold id hw
    rw [hrely.staged] at hw
    exact (hold id hw).mono hrely.log (fun l => (hrely.locks l).2) hrely.outbox

/-- A row that is purged was published, and its retention is over. -/
theorem purges_outdated (hy : Reachable py A y) {row : OutboxModel}
    (hrow : y.state.db.outbox.find? id = some row) (hprocessed : row.status = .processed)
    (hw : .deleteOutbox id ∈ y.state.staged i) :
    ∃ t, y.state.RelayedAt py id t ∧ y.state.Outdated t := by
  obtain ⟨row', t, cutoff, limit, r, hfind, -, ht, hlt, hd⟩ := hy.purges i id hw
  obtain rfl := Option.some.inj (hfind.symm.trans hrow)
  obtain ⟨t', ht', hmarked⟩ := processed_marked hy id row' hrow hprocessed
  obtain rfl := Option.some.inj (ht.symm.trans ht')
  obtain ⟨k, hk⟩ := hy.inv.active _ hd
  obtain ⟨before, hbefore, worker, now, rfl, hread, rfl⟩ := did_timed hy hk hd
  exact ⟨t, marked_relayed hy hmarked, i, worker, now, hk,
    mem_history.1 (hbefore.mem hread), hlt⟩

/-! ## The guarantee -/

/-- **The event of a payment stays in the outbox** until it has been published and the retention is
over: when its row is not there, a relay has published the event and then read some time `t`, and a
relay has read a time that is later than `t` by more than its own retention. -/
theorem events_retained (h : Reachable py anyAction y) {p : Payment}
    (hc : y.state.CreatedWith p id) :
    (∃ row, y.state.db.outbox.find? id = some row) ∨
      ∃ t, y.state.RelayedAt py id t ∧ y.state.Outdated t := by
  refine h.commits (P := fun s => ∀ p, s.CreatedWith p id →
    (∃ row, s.db.outbox.find? id = some row) ∨ ∃ t, s.RelayedAt py id t ∧ s.Outdated t)
    (fun _ _ ⟨_, _, hw, _⟩ => by cases hw) ?_ ?_ p hc
  · intro s s' hdb hlog hback hP p ⟨j, ws, hw, hws⟩
    rw [hdb]
    refine (hP p ⟨j, ws, hback j ws hw, hws⟩).imp_right ?_
    rintro ⟨t, hrelayed, houtdated⟩
    exact ⟨t, hrelayed.mono hlog, houtdated.mono hlog⟩
  · intro y a i r hr _ _ hlegit hP p ⟨j, ws, hw, hws⟩
    have hlog : y.state.log <:+ ((y.state.commit i).note (.did i .commit r)).log :=
      ⟨[.did i .commit r, .committed i (y.state.staged i)], rfl⟩
    have hafter : ((y.state.commit i).note (.did i .commit r)).db.outbox.find? id =
        (y.state.db.writeAll (y.state.staged i)).outbox.find? id := rfl
    rw [hafter]
    rcases committed_commit.1 hw with ⟨rfl, rfl⟩ | hw
    · -- the row comes with the payment
      have hinsert : (y.state.db.writeAll (y.state.staged j)).outbox =
          y.state.db.outbox.insert (createdEvent id p.id p.createdAt) := by
        rw [hws]
        rfl
      rw [hinsert]
      refine .inl ?_
      cases hold : y.state.db.outbox.find? id with
      | none => exact ⟨_, (Table.find?_insert hold id).trans (if_pos rfl)⟩
      | some row => exact ⟨row, Table.find?_insert_of_some _ hold⟩
    · rcases hP p ⟨j, ws, hw, hws⟩ with ⟨row, hrow⟩ | ⟨t, hrelayed, houtdated⟩
      · have hchange := row_change hr.inv hlegit id
        generalize (y.state.db.writeAll (y.state.staged i)).outbox.find? id = after at hchange
        rw [hrow] at hchange
        cases hchange with
        | kept => exact .inl ⟨row, rfl⟩
        | claimed | marked | released => exact .inl ⟨_, rfl⟩
        | purged row processed hdeletes =>
          obtain ⟨t, hrelayed, houtdated⟩ := purges_outdated hr hrow processed hdeletes
          exact .inr ⟨t, hrelayed.mono hlog, houtdated.mono hlog⟩
      · exact .inr ⟨t, hrelayed.mono hlog, houtdated.mono hlog⟩

/-- When the event of the sample payment has been published, a relay finds nothing to claim, and the
retention over. -/
def purgedRun : List (Action Choice Kind Env) :=
  markedRun ++ .spawn 2 (.publishOutbox sampleWorker) :: performs 2 3 ++
    .run 2 { time := 2000 } :: performs 2 2

/-- The write is the event of the sample payment. -/
def Write.isSampleEvent : Write → Bool
  | .insertOutbox row => row.id = UUID.ofNat 2
  | _ => false

/-- The entry is the creation of the sample payment. -/
def Entry.createsSample : Entry → Bool
  | .committed _ ws => ws.any Write.isSampleEvent
  | _ => false

theorem events_retained_sample : ∃ y p, (machine samplePlatform).runActions purgedRun
    (Config.init 0) = some y ∧ y.state.CreatedWith p (UUID.ofNat 2) ∧
      ∃ t, y.state.RelayedAt samplePlatform (UUID.ofNat 2) t ∧ y.state.Outdated t := by
  have hrun : ((machine samplePlatform).runActions purgedRun (Config.init 0)).any (fun y =>
      y.state.log.any Entry.createsSample &&
        (y.state.db.outbox.find? (UUID.ofNat 2)).isNone) = true := by
    decide +kernel
  obtain ⟨y, hy, hends⟩ := (Option.any_eq_true _ _).1 hrun
  rw [Bool.and_eq_true, List.any_eq_true, Option.isNone_iff_eq_none] at hends
  obtain ⟨⟨e, he, hcreates⟩, hnone⟩ := hends
  have hr : Reachable samplePlatform anyAction y :=
    reachable_of_run (Machine.AllowedActions.any (fun _ _ => trivial) ..) hy
  cases e with
  | committed i ws =>
    obtain ⟨w, hw, hsample⟩ := List.any_eq_true.1 hcreates
    cases w with
    | insertOutbox row =>
      obtain ⟨p, hc, -⟩ := created_of_emitted hr ⟨i, ws, he, hw⟩
      rw [of_decide_eq_true hsample] at hc
      refine ⟨y, p, hy, hc, (events_retained hr hc).resolve_left ?_⟩
      rintro ⟨row, hrow⟩
      rw [hnone] at hrow
      cases hrow
    | _ => cases hsample
  | _ => cases hcreates

end PaymentProcessing
