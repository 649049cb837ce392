import PaymentProcessing.System

/-!
# What operations do

One operation of a process, taken apart once: `exec_cases` separates how it was resolved,
`effect_cases` what it does, and `effect_frame` says what an operation other than a commit leaves
alone. `writeAll` lemmas say what the writes of a transaction do to the tables.
-/

namespace PaymentProcessing

open Python Relational Concurrency

/-! ## Writes -/

namespace Tables

variable (db : Tables)

@[simp] theorem writeAll_nil : db.writeAll [] = db := rfl

@[simp] theorem writeAll_cons (w : Write) (ws : List Write) :
    db.writeAll (w :: ws) = (db.write w).writeAll ws := rfl

/-- What becomes of the outbox depends on the outbox only. -/
theorem writeAll_outbox_congr {db db' : Tables} (h : db.outbox = db'.outbox) (ws : List Write) :
    (db.writeAll ws).outbox = (db'.writeAll ws).outbox := by
  induction ws generalizing db db' with
  | nil => exact h
  | cons w ws ih =>
    apply ih
    cases w <;> simp [write, h]

theorem writeAll_updates_frame (patch : OutboxPatch) (ids : List UUID) :
    (db.writeAll (ids.map fun id => .updateOutbox id patch)).payments = db.payments ∧
    (db.writeAll (ids.map fun id => .updateOutbox id patch)).inbox = db.inbox ∧
    (db.writeAll (ids.map fun id => .updateOutbox id patch)).charges = db.charges := by
  induction ids generalizing db with
  | nil => exact ⟨rfl, rfl, rfl⟩
  | cons id ids ih => exact ih (db.write (.updateOutbox id patch))

theorem writeAll_deletes_frame (ids : List UUID) :
    (db.writeAll (ids.map .deleteOutbox)).payments = db.payments ∧
    (db.writeAll (ids.map .deleteOutbox)).inbox = db.inbox ∧
    (db.writeAll (ids.map .deleteOutbox)).charges = db.charges := by
  induction ids generalizing db with
  | nil => exact ⟨rfl, rfl, rfl⟩
  | cons id ids ih => exact ih (db.write (.deleteOutbox id))

theorem find?_updates (patch : OutboxPatch) (ids : List UUID) (id : UUID) :
    (db.writeAll (ids.map fun id => .updateOutbox id patch)).outbox.find? id =
      if id ∈ ids then (db.outbox.find? id).map patch.apply else db.outbox.find? id := by
  induction ids generalizing db with
  | nil => rfl
  | cons a ids ih =>
    have hw : (db.write (.updateOutbox a patch)).outbox.find? id =
        if id = a then (db.outbox.find? a).map patch.apply else db.outbox.find? id :=
      Table.find?_modify _ patch.apply_id a id
    rw [List.map_cons, writeAll_cons, ih, hw]
    by_cases ha : id = a
    · subst ha
      cases h : db.outbox.find? id <;> simp
    · simp [ha]

theorem find?_updateOne (patch : OutboxPatch) (a id : UUID) :
    (db.writeAll [.updateOutbox a patch]).outbox.find? id =
      if id = a then (db.outbox.find? id).map patch.apply else db.outbox.find? id := by
  have hfind : (db.outbox.modify a patch.apply).find? id =
      if id = a then (db.outbox.find? a).map patch.apply else db.outbox.find? id :=
    Table.find?_modify _ patch.apply_id a id
  refine hfind.trans ?_
  by_cases hid : id = a
  · rw [if_pos hid, if_pos hid, hid]
  · rw [if_neg hid, if_neg hid]

theorem find?_deletes (ids : List UUID) (id : UUID) :
    (db.writeAll (ids.map .deleteOutbox)).outbox.find? id =
      if id ∈ ids then none else db.outbox.find? id := by
  induction ids generalizing db with
  | nil => rfl
  | cons a ids ih =>
    have hw : (db.write (.deleteOutbox a)).outbox.find? id =
        if id = a then none else db.outbox.find? id :=
      Table.find?_erase _ a id
    rw [List.map_cons, writeAll_cons, ih, hw]
    by_cases ha : id = a
    · subst ha
      simp
    · simp [ha]

theorem writeAll_charges {id : UUID} {row : GatewayChargeModel} (ws : List Write)
    (h : db.charges.find? id = some row) : (db.writeAll ws).charges.find? id = some row := by
  induction ws generalizing db with
  | nil => exact h
  | cons w ws ih =>
    refine ih (db.write w) ?_
    cases w with
    | insertCharge row' => exact Table.find?_insert_of_some row' h
    | _ => exact h

theorem writeAll_inbox {id : UUID} {row : InboxModel} (ws : List Write)
    (h : db.inbox.find? id = some row) : (db.writeAll ws).inbox.find? id = some row := by
  induction ws generalizing db with
  | nil => exact h
  | cons w ws ih =>
    refine ih (db.write w) ?_
    cases w with
    | insertInbox row' => exact Table.find?_insert_of_some row' h
    | _ => exact h

theorem writeAll_inbox_cases {id : UUID} {row : InboxModel} (ws : List Write)
    (h : (db.writeAll ws).inbox.find? id = some row) :
    db.inbox.find? id = some row ∨ .insertInbox row ∈ ws := by
  induction ws generalizing db with
  | nil => exact .inl h
  | cons w ws ih =>
    rcases ih (db.write w) h with h | h
    · cases w with
      | insertInbox row' =>
        rcases Table.mem_insert (Table.mem_of_find? h) with rfl | hrow
        · exact .inr (List.mem_cons_self ..)
        · refine .inl ?_
          rw [← Table.key_of_find? h]
          exact Table.find?_key hrow
      | _ => exact .inl h
    · exact .inr (List.mem_cons_of_mem _ h)

/-- A row of the outbox has the payload of a row that was there, or of one that is inserted. -/
theorem writeAll_outbox_cases {id : UUID} {row : OutboxModel} (ws : List Write)
    (h : (db.writeAll ws).outbox.find? id = some row) :
    (∃ row₀, db.outbox.find? id = some row₀ ∧ row.payload = row₀.payload) ∨
      ∃ event, .insertOutbox event ∈ ws ∧ event.id = id ∧ row.payload = event.payload := by
  induction ws generalizing db with
  | nil => exact .inl ⟨row, h, rfl⟩
  | cons w ws ih =>
    rcases ih (db.write w) h with ⟨row₀, hrow, hp⟩ | ⟨event, hevent, he⟩
    · cases w with
      | insertOutbox event =>
        have hid : row₀.id = id := Table.key_of_find? hrow
        rcases Table.mem_insert (Table.mem_of_find? hrow) with rfl | hmem
        · exact .inr ⟨row₀, List.mem_cons_self .., hid, hp⟩
        · exact .inl ⟨row₀, by rw [← hid]; exact Table.find?_key hmem, hp⟩
      | updateOutbox a patch =>
        have hfind : (db.writeAll [.updateOutbox a patch]).outbox.find? id = some row₀ := hrow
        rw [find?_updateOne] at hfind
        split at hfind
        · obtain ⟨row₁, hrow₁, rfl⟩ := Option.map_eq_some_iff.1 hfind
          exact .inl ⟨row₁, hrow₁, hp⟩
        · exact .inl ⟨row₀, hfind, hp⟩
      | deleteOutbox a =>
        have hfind : (db.outbox.erase a).find? id = some row₀ := hrow
        rw [Table.find?_erase] at hfind
        split at hfind
        · cases hfind
        · exact .inl ⟨row₀, hfind, hp⟩
      | insertPayment | updatePayment | insertInbox | insertCharge => exact .inl ⟨row₀, hrow, hp⟩
    · exact .inr ⟨event, List.mem_cons_of_mem _ hevent, he⟩

theorem writeAll_payments {id : UUID} (ws : List Write)
    (h : ∃ row, db.payments.find? id = some row) :
    ∃ row, (db.writeAll ws).payments.find? id = some row := by
  induction ws generalizing db with
  | nil => exact h
  | cons w ws ih =>
    obtain ⟨row, hrow⟩ := h
    refine ih (db.write w) ?_
    cases w with
    | insertPayment row' => exact ⟨row, Table.find?_insert_of_some row' hrow⟩
    | updatePayment row' =>
      have hfind : (db.payments.replace row').find? id =
          some (if id = row'.id then row' else row) := by
        rw [Table.find?_replace, hrow]
        split <;> rfl
      exact ⟨_, hfind⟩
    | _ => exact ⟨row, hrow⟩

end Tables

/-! ## Operations -/

/-- The writes that an operation may stage. -/
def Op.Stages : Op → Write → Prop
  | .insertPayment row, w => w = .insertPayment row
  | .updatePayment row, w => w = .updatePayment row
  | .addOutbox row, w => w = .insertOutbox row
  | .updateOutbox ids patch, w => ∃ id ∈ ids, w = .updateOutbox id patch
  | .deleteProcessed .., w => ∃ id, w = .deleteOutbox id
  | .insertInbox row, w => w = .insertInbox row
  | .insertCharge row, w => w = .insertCharge row
  | _, _ => False

namespace World

variable {s s' : World} {i : Nat} {c : Choice} {op : Op} {r : Except Exc (Res op)}

/-- **How an operation was resolved**: it worked, it took effect and raised, or it only raised. -/
theorem exec_cases (h : World.exec i op c s = some (r, s')) :
    (∃ s₁, s.effect i c op = some (r, s₁) ∧ s' = s₁.note (.did i op r)) ∨
    (∃ f r₁ s₁, s.effect i c op = some (r₁, s₁) ∧ r = .error (Fault.toExc f) ∧ op.isLocal = false ∧
      s' = s₁.note (.did i op r)) ∨
    (∃ f, r = .error (Fault.toExc f) ∧ op.isLocal = false ∧
      s' = (s.fail i op).note (.did i op r)) := by
  have hlocal : ∀ {o : Outcome}, (if op.isLocal = true then Outcome.fine else c.outcome) = o →
      o ≠ .fine → op.isLocal = false := by
    intro o ho hne
    by_cases hl : op.isLocal = true
    · rw [if_pos hl] at ho
      exact absurd ho.symm hne
    · simpa using hl
  simp only [exec] at h
  split at h
  · obtain ⟨⟨r₁, s₁⟩, he, hr⟩ := Option.map_eq_some_iff.1 h
    cases hr
    exact .inl ⟨s₁, he, rfl⟩
  · rename_i f ho
    obtain ⟨⟨r₁, s₁⟩, he, hr⟩ := Option.map_eq_some_iff.1 h
    cases hr
    exact .inr (.inl ⟨f, r₁, s₁, he, rfl, hlocal ho (by simp), rfl⟩)
  · rename_i f ho
    cases h
    exact .inr (.inr ⟨f, rfl, hlocal ho (by simp), rfl⟩)

/-- What an operation of process `i` leaves alone. -/
structure Frame (i : Nat) (s s' : World) : Prop where
  db : s'.db = s.db
  log : s'.log = s.log
  clock : s'.clock = s.clock
  staged : ∀ j, j ≠ i → s'.staged j = s.staged j
  locks : ∀ j, j ≠ i → ∀ l, s'.locks.Holds j l ↔ s.locks.Holds j l
  issued : ∀ u o, s.issued.find? u = some o → s'.issued.find? u = some o

theorem Frame.refl (i : Nat) (s : World) : Frame i s s :=
  ⟨rfl, rfl, rfl, fun _ _ => rfl, fun _ _ _ => Iff.rfl, fun _ _ h => h⟩

theorem frame_endTx : Frame i s (s.endTx i) where
  db := rfl
  log := rfl
  clock := rfl
  staged j hj := Function.update_of_ne hj _ _
  locks _ hj l := by simp [endTx, hj]
  issued _ _ h := h

theorem frame_broker {b : Broker} : Frame i s { s with broker := b } :=
  ⟨rfl, rfl, rfl, fun _ _ => rfl, fun _ _ _ => Iff.rfl, fun _ _ h => h⟩

/-- What taking locks and staging writes needs and does. -/
theorem lockAndStage_spec {ls : List Lock} {ws : List Write}
    (h : s.lockAndStage i ls ws = some s') :
    (∀ l ∈ ls, s.locks.Free i l) ∧ s'.staged = Function.update s.staged i (s.staged i ++ ws) ∧
      (∀ j l, s'.locks.Holds j l ↔ s.locks.Holds j l ∨ (j = i ∧ l ∈ ls)) ∧ Frame i s s' ∧
      s'.issued = s.issued ∧ s'.broker = s.broker := by
  obtain ⟨locks, hl, rfl⟩ := Option.map_eq_some_iff.1 h
  obtain ⟨hfree, hholds⟩ := Locks.acquireAll?_eq_some hl
  refine ⟨hfree, rfl, hholds, ?_, rfl, rfl⟩
  refine ⟨rfl, rfl, rfl, fun j hj => Function.update_of_ne hj _ _, fun j hj l => ?_, fun _ _ h => h⟩
  have := hholds j l
  simp only [hj, false_and, or_false] at this
  exact this

/-- **What an operation does** when it works, guards included. -/
inductive EffectCases (i : Nat) (op : Op) (s s' : World) : Prop where
  | kept (hs : s' = s)
  | committed (hop : op = .commit) (hs : s' = s.commit i)
  | ended (hop : op = .rollback ∨ op = .close) (hs : s' = s.endTx i)
  | staged (ls : List Lock) (ws : List Write) (hws : ∀ w ∈ ws, op.Stages w)
      (hs : s.lockAndStage i ls ws = some s')
  | issued (u : UUID) (unused : s.issued.find? u = none)
      (hs : s' = { s with issued := s.issued.insert (i, u) })
  | published (key : RoutingKey) (body : List (String × Json)) (headers : Headers)
      (expiration : Option Int) (hop : op = .publish key body headers expiration)
      (hs : s' = { s with broker := s.broker.enqueue key ⟨body, headers⟩ })
  | acked (hop : op = .ack) (hs : s' = { s with broker := s.broker.ack i })
  | rejected (hop : op = .reject) (hs : s' = { s with broker := s.broker.reject i })

theorem effect_cases {r : Except Exc (Res op)} (h : s.effect i c op = some (r, s')) :
    EffectCases i op s s' := by
  cases op with
  | commit => cases h; exact .committed rfl rfl
  | rollback => cases h; exact .ended (.inl rfl) rfl
  | close => cases h; exact .ended (.inr rfl) rfl
  | getPayment | selectPaymentByKey | countOutbox | getInbox | getCharge | now | random | sleep
  | log | post => cases h; exact .kept rfl
  | addOutbox row => cases h; exact .staged [] [.insertOutbox row] (by simp [Op.Stages]) rfl
  | publish key body headers expiration =>
    cases h; exact .published key body headers expiration rfl rfl
  | ack => cases h; exact .acked rfl rfl
  | reject => cases h; exact .rejected rfl rfl
  | uuid4 =>
    simp only [effect] at h
    split at h
    · rename_i unused
      cases h
      exact .issued c.uuid unused rfl
    · cases h
  | selectPaymentForUpdate id =>
    simp only [effect] at h
    split at h
    · cases h; exact .kept rfl
    · obtain ⟨s₁, hs, hr⟩ := Option.map_eq_some_iff.1 h
      cases hr
      exact .staged _ _ (by simp) hs
  | insertPayment row =>
    obtain ⟨s₁, hs, hr⟩ := Option.map_eq_some_iff.1 h
    split at hr
    · cases hr; exact .kept rfl
    · split at hr
      · cases hr; exact .kept rfl
      · cases hr
        exact .staged _ _ (by simp [Op.Stages]) hs
  | insertInbox row | insertCharge row =>
    obtain ⟨s₁, hs, hr⟩ := Option.map_eq_some_iff.1 h
    split at hr
    · cases hr; exact .kept rfl
    · cases hr
      exact .staged _ _ (by simp [Op.Stages]) hs
  | updatePayment row | selectClaimable limit now staleBefore =>
    obtain ⟨s₁, hs, hr⟩ := Option.map_eq_some_iff.1 h
    cases hr
    exact .staged _ _ (by simp [Op.Stages]) hs
  | updateOutbox ids patch =>
    obtain ⟨s₁, hs, hr⟩ := Option.map_eq_some_iff.1 h
    cases hr
    refine .staged _ _ (fun w hw => ?_) hs
    obtain ⟨id, hid, rfl⟩ := List.mem_map.1 hw
    exact ⟨id, List.mem_of_mem_filter hid, rfl⟩
  | deleteProcessed cutoff limit =>
    obtain ⟨s₁, hs, hr⟩ := Option.map_eq_some_iff.1 h
    cases hr
    refine .staged _ _ (fun w hw => ?_) hs
    obtain ⟨row, -, rfl⟩ := List.mem_map.1 hw
    exact ⟨row.id, rfl⟩

/-- **Framing.** An operation other than a commit changes no table and nothing of the others. -/
theorem effect_frame {r : Except Exc (Res op)} (hop : op ≠ .commit)
    (h : s.effect i c op = some (r, s')) : Frame i s s' := by
  cases effect_cases h with
  | kept hs => subst hs; exact Frame.refl ..
  | committed hc => exact absurd hc hop
  | ended _ hs => subst hs; exact frame_endTx
  | staged ls ws hws hs => exact (lockAndStage_spec hs).2.2.2.1
  | issued u unused hs =>
    subst hs
    refine ⟨rfl, rfl, rfl, fun _ _ => rfl, fun _ _ _ => Iff.rfl, fun v o hv => ?_⟩
    have hne : v ≠ u := by
      rintro rfl
      rw [unused] at hv
      cases hv
    simp [Table.find?_insert (t := s.issued) (r := (i, u)) unused, hne, hv]
  | published key body headers expiration _ hs => subst hs; exact frame_broker
  | acked _ hs | rejected _ hs => subst hs; exact frame_broker

theorem fail_frame : Frame i s (s.fail i op) := by
  cases op <;> first | exact frame_endTx | exact Frame.refl ..

/-- An operation other than a commit, however it was resolved: the frame, and one more entry. -/
theorem exec_frame (hop : op ≠ .commit) (h : World.exec i op c s = some (r, s')) :
    ∃ s₁, Frame i s s₁ ∧ s' = s₁.note (.did i op r) := by
  rcases exec_cases h with ⟨s₁, he, hs⟩ | ⟨f, r₁, s₁, he, -, -, hs⟩ | ⟨f, -, -, hs⟩
  · exact ⟨s₁, effect_frame hop he, hs⟩
  · exact ⟨s₁, effect_frame hop he, hs⟩
  · exact ⟨_, fail_frame, hs⟩

/-- A commit: the staged writes were applied, or the operation raised and left everything. -/
theorem exec_commit {r : Except Exc (Res .commit)}
    (h : World.exec i .commit c s = some (r, s')) :
    s' = (s.commit i).note (.did i .commit r) ∨
    ((∃ f, r = .error (Fault.toExc f)) ∧ s' = s.note (.did i .commit r)) := by
  rcases exec_cases h with ⟨s₁, he, hs⟩ | ⟨f, r₁, s₁, he, -, -, hs⟩ | ⟨f, hr, -, hs⟩
  · cases he; exact .inl hs
  · cases he; exact .inl hs
  · exact .inr ⟨⟨f, hr⟩, hs⟩

/-- What one operation adds to the log. -/
theorem exec_log {r : Except Exc (Res op)}
    (hd : World.exec i op c s = some (r, s')) : ∃ l, s'.log = .did i op r :: (l ++ s.log) ∧
      ∀ e ∈ l, op = .commit ∧ e = .committed i (s.staged i) := by
  by_cases hop : op = .commit
  · subst hop
    rcases exec_commit hd with rfl | ⟨-, rfl⟩
    · exact ⟨[.committed i (s.staged i)], rfl, fun e he => ⟨rfl, List.mem_singleton.1 he⟩⟩
    · exact ⟨[], rfl, by simp⟩
  · obtain ⟨s₁, hf, rfl⟩ := exec_frame hop hd
    exact ⟨[], by rw [note, hf.log]; rfl, by simp⟩

/-- Only an insertion of a payment raises by itself. -/
theorem effect_answers {r₁ : Except Exc (Res op)} (hop : ∀ row, op ≠ .insertPayment row)
    (h : s.effect i c op = some (r₁, s')) : ∃ a, r₁ = .ok a := by
  cases op with
  | insertPayment row => exact absurd rfl (hop row)
  | commit | rollback | close | getPayment | selectPaymentByKey | addOutbox | countOutbox
  | getInbox | getCharge | now | random | sleep | log | publish | ack | reject | post =>
    cases h; exact ⟨_, rfl⟩
  | uuid4 =>
    simp only [effect] at h
    split at h
    · cases h; exact ⟨_, rfl⟩
    · cases h
  | selectPaymentForUpdate id =>
    simp only [effect] at h
    split at h
    · cases h; exact ⟨_, rfl⟩
    · obtain ⟨s₁, -, hr⟩ := Option.map_eq_some_iff.1 h
      cases hr; exact ⟨_, rfl⟩
  | insertInbox row | insertCharge row =>
    obtain ⟨s₁, -, hr⟩ := Option.map_eq_some_iff.1 h
    split at hr <;> (cases hr; exact ⟨_, rfl⟩)
  | updatePayment row | selectClaimable limit now staleBefore | updateOutbox ids patch
  | deleteProcessed cutoff limit =>
    obtain ⟨s₁, -, hr⟩ := Option.map_eq_some_iff.1 h
    cases hr; exact ⟨_, rfl⟩

/-- What any other operation raises is a fault of the outside. -/
theorem exec_error {e : Exc} (hop : ∀ row, op ≠ .insertPayment row)
    (h : World.exec i op c s = some (.error e, s')) : ∃ f, e = Fault.toExc f := by
  rcases exec_cases h with ⟨s₁, he, -⟩ | ⟨f, r₁, s₁, -, hr, -, -⟩ | ⟨f, hr, -, -⟩
  · obtain ⟨a, ha⟩ := effect_answers hop he
    cases ha
  · exact ⟨f, Except.error.inj hr⟩
  · exact ⟨f, Except.error.inj hr⟩

end World

end PaymentProcessing
