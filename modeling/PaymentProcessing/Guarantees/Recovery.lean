import PaymentProcessing.Concurrency.Recovery
import PaymentProcessing.Guarantees.DeadLetters
import PaymentProcessing.Guarantees.Draining

/-!
# Every payment can still be told

Whatever has failed or crashed, a payment that nobody has given up can still have its webhook: after
a crash of everything the relay finds its row, or the broker delivers its message again. A payment
is given up only by a row that is failed or a message in the DLQ.
-/

namespace PaymentProcessing

open Python Relational Concurrency World

variable {py : Platform} {A : Allowed} {worker : PublishOutbox} {i n : Nat} {s s' : World}
  {y y' y₁ y₂ : Config} {a : Action Choice Kind Env} {msg : Message} {clock : Time}

/-! ## Recovery -/

/-- An operation that works, when the clock says `clock`; a receiver answers with 200. -/
structure Choice.Works (clock : Time) (c : Choice) : Prop where
  fine : c.outcome = .fine
  sees : c.skip = []
  time : c.time = clock
  status : c.status = 200

/-- Processes are killed, the worker and consumers are started, and all they do works. -/
def Recovers (worker : PublishOutbox) : Allowed := fun y a =>
  match a with
  | .spawn _ (.publishOutbox w) => w = worker
  | .spawn _ (.dispatch _) => True
  | .spawn _ _ => False
  | .run _ c => c.Works y.state.clock
  | .kill _ | .env _ => True

theorem recovers_pipeline (h : Recovers worker y a) : Pipeline y a := by
  rintro i paymentId messageId rfl
  exact h

theorem Reachable.recover (h : Reachable py Pipeline y)
    (hs : (machine py).Steps (Recovers worker) y y') : Reachable py Pipeline y' :=
  h.steps (hs.mono fun _ _ => recovers_pipeline)

/-- Every process has ended or not started, and none from `n` on has started. -/
structure Calmed (n : Nat) (y : Config) : Prop extends y.Rests where
  unstarted : Machine.Unstarted n y

/-! ## A crash -/

/-- Who does not run holds nothing. -/
def NothingLeft (y : Config) : Prop := ∀ i, (∀ k p, y.procs i ≠ .running k p) →
  y.state.staged i = [] ∧ ∀ l, ¬ y.state.locks.Holds i l

theorem exec_lockedByOthers {op : Op} {c : Choice} {r : Except Exc (Res op)} {j : Nat}
    (h : World.exec i op c s = some (r, s')) (hj : j ≠ i) (l : Lock) :
    s'.locks.Holds j l ↔ s.locks.Holds j l := by
  by_cases hop : op = .commit
  · subst hop
    rcases exec_commit h with rfl | ⟨-, rfl⟩
    · simp [World.commit, World.endTx, World.note, hj]
    · exact Iff.rfl
  · exact (exec_quiet hop h).locks j hj l

theorem Legit.nothingLeft (hl : Legit py a y y') (h : NothingLeft y) : NothingLeft y' := by
  intro i hi
  -- what another process does leaves this one alone
  have hquiet : ∀ {s : World} {j : Nat} {q}, i ≠ j →
      (∀ k p, Function.update y.procs j q i ≠ .running k p) →
      s.staged i = y.state.staged i → (∀ l, s.locks.Holds i l ↔ y.state.locks.Holds i l) →
        s.staged i = [] ∧ ∀ l, ¬ s.locks.Holds i l := by
    intro s j q hij hi hstaged hlocks
    rw [Function.update_of_ne hij] at hi
    obtain ⟨hclean, hfree⟩ := h i hi
    exact ⟨hstaged.trans hclean, fun l hl => hfree l ((hlocks l).1 hl)⟩
  cases hl with
  | spawn j k s p ha hj _ hs hy =>
    subst hy
    by_cases hij : i = j
    · subst hij
      exact absurd (Function.update_self ..) (hi k p)
    · have hq := start_quiet hs
      exact hquiet hij hi (hq.staged i hij) (hq.locks i hij)
  | run j c k op f r s ha hj _ hs hy =>
    subst hy
    by_cases hij : i = j
    · subst hij
      exact absurd (Function.update_self ..) (hi k (f r))
    · exact hquiet hij hi (exec_others hs hij) (exec_lockedByOthers hs hij)
  | kill j k p ha hj hy =>
    subst hy
    by_cases hij : i = j
    · subst hij
      refine ⟨Function.update_self .., fun l hl => ?_⟩
      exact (Locks.holds_releaseAll.1 hl).2 rfl
    · have hf : Frame j y.state (y.state.endTx j) := frame_endTx
      exact hquiet hij hi (hf.staged i hij) (hf.locks i hij)
  | env e s ha hs hy =>
    subst hy
    obtain ⟨hclean, hfree⟩ := h i hi
    have hq := env_quiet hs (i + 1)
    exact ⟨(hq.staged i (by omega)).trans hclean,
      fun l hl => hfree l ((hq.locks i (by omega) l).1 hl)⟩

theorem nothing_left (h : Reachable py A y) : NothingLeft y := by
  refine h.invariant (P := NothingLeft) (fun clock i _ => ⟨rfl, Locks.not_holds_none i⟩) ?_
  exact fun y y' a _ _ hP _ hl => hl.nothingLeft hP

/-- **After a crash** nothing is locked and nothing staged; tables and queues are as they were. -/
theorem crashed (worker : PublishOutbox) (h : Reachable py A y) :
    ∃ y' n, (machine py).Steps (Recovers worker) y y' ∧ Calmed n y' ∧
      y'.state.db = y.state.db ∧ y'.state.broker = y.state.broker ∧
      y'.state.clock = y.state.clock := by
  obtain ⟨clock, hsteps⟩ := h
  obtain ⟨n, hn⟩ := hsteps.unstarted ⟨0, fun _ _ => rfl⟩
  obtain ⟨y', hs, hhalted, hn', hdb, hbroker, hclock⟩ := Machine.crash (M := machine py)
    (A := Recovers worker)
    (R := fun s s' => s'.db = s.db ∧ s'.broker = s.broker ∧ s'.clock = s.clock)
    (fun _ => ⟨rfl, rfl, rfl⟩) (fun _ _ _ h₁ h₂ => ⟨h₂.1.trans h₁.1, h₂.2.1.trans h₁.2.1,
      h₂.2.2.trans h₁.2.2⟩) (fun _ _ => ⟨rfl, rfl, rfl⟩) (fun _ _ => trivial) hn
  have hleft : NothingLeft y' := by
    refine hs.invariant (P := fun y => Reachable py anyAction y ∧ NothingLeft y) ?_ ?_ |>.2
    · have hr : Reachable py anyAction y := ⟨clock, hsteps.mono fun _ _ _ => trivial⟩
      exact ⟨hr, nothing_left hr⟩
    · intro y y' a _ ⟨hr, hP⟩ _ hstep
      exact ⟨hr.steps (.step a .refl trivial hstep),
        Legit.nothingLeft (hr.good.legit (sound py) hstep) hP⟩
  refine ⟨y', n, hs, ⟨⟨?_, fun i _ => (hleft i (hhalted i)).1⟩, hn'⟩, hdb, hbroker, hclock⟩
  refine List.eq_nil_iff_forall_not_mem.2 fun ⟨l, i⟩ hl => ?_
  exact (hleft i (hhalted i)).2 l hl

/-! ## A consumer by itself -/

/-- An answer that is no failure; a receiver has said 200. -/
def Op.Answered200 : (op : Op) → Except Exc (Res op) → Prop
  | _, .error _ => False
  | .post .., .ok status => status = 200
  | _, .ok _ => True

/-- Nobody else holds a lock, the clock stands, and all that process `i` did has worked. -/
structure Smooth (i : Nat) (clock : Time) (s : World) : Prop where
  free : ∀ l, s.locks.Free i l
  clock : s.clock = clock
  worked : ∀ op r, s.Did i op r → op.Answered200 r

theorem Smooth.proceeds {op : Op} (h : Smooth i clock s) (hop : op ≠ .uuid4) :
    ∃ c r s', c.Works clock ∧ World.exec i op c s = some (r, s') := by
  let c : Choice := { time := clock }
  obtain ⟨r, s₁, he⟩ := effect_proceeds h.free hop c
  refine ⟨c, r, s₁.note (.did i op r), ⟨rfl, rfl, rfl, rfl⟩, ?_⟩
  have hexec : World.exec i op c s =
      (s.effect i c op).map fun rs => (rs.1, rs.2.note (.did i op rs.1)) := by
    simp only [World.exec, c, ite_self]
  rw [hexec, he]
  rfl

theorem exec_clock {op : Op} {c : Choice} {r : Except Exc (Res op)}
    (h : World.exec i op c s = some (r, s')) : s'.clock = s.clock := by
  by_cases hop : op = .commit
  · subst hop
    rcases exec_commit h with rfl | ⟨-, rfl⟩ <;> rfl
  · obtain ⟨s₁, hf, rfl⟩ := exec_frame hop h
    exact hf.clock

theorem exec_free {op : Op} {c : Choice} {r : Except Exc (Res op)}
    (h : World.exec i op c s = some (r, s')) (hfree : ∀ l, s.locks.Free i l) (l : Lock) :
    s'.locks.Free i l := by
  intro q hq hl
  by_contra hne
  have hold : s.locks.Holds q.2 q.1 := (exec_lockedByOthers h hne q.1).1 hq
  exact hne (hfree l q hold hl)

theorem Choice.Works.answers {op : Op} {c : Choice} {r : Except Exc (Res op)}
    (hc : c.Works clock) (hop : ∀ row, op ≠ .insertPayment row)
    (hs : World.exec i op c s = some (r, s')) : op.Answered200 r := by
  have hexec : World.exec i op c s =
      (s.effect i c op).map fun rs => (rs.1, rs.2.note (.did i op rs.1)) := by
    simp only [World.exec, hc.fine, ite_self]
  obtain ⟨⟨r₁, s₁⟩, he, heq⟩ := Option.map_eq_some_iff.1 (hexec.symm.trans hs)
  cases heq
  obtain ⟨a, rfl⟩ := effect_answers hop he
  cases op with
  | post url payload key =>
    cases he
    exact hc.status
  | _ => trivial

theorem Smooth.exec {op : Op} {c : Choice} {r : Except Exc (Res op)} (h : Smooth i clock s)
    (hop : op.ofConsumer) (hc : c.Works clock) (hs : World.exec i op c s = some (r, s')) :
    Smooth i clock s' := by
  have hins : ∀ row, op ≠ .insertPayment row := by
    rintro row rfl
    exact hop
  refine ⟨exec_free hs h.free, (exec_clock hs).trans h.clock, fun op' r' hd => ?_⟩
  obtain ⟨l, hlog, he⟩ := exec_log hs
  rw [Did, Logged, hlog, List.mem_cons, List.mem_append] at hd
  rcases hd with hd | hd | hd
  · cases hd
    exact hc.answers hins hs
  · cases (he _ hd).2
  · exact h.worked op' r' hd

/-- A process alone, all of whose operations work, does what a recovery allows. -/
theorem recovers_alone (hs : (machine py).Steps (Machine.Alone i fun _ c => c.Works clock) y y')
    (hclock : y.state.clock = clock) : (machine py).Steps (Recovers worker) y y' := by
  have hkeeps : ∀ y', (machine py).Steps (Machine.Alone i fun _ c => c.Works clock) y y' →
      y'.state.clock = clock := by
    intro y' hs
    refine hs.invariant (P := fun y => y.state.clock = clock) hclock ?_
    rintro y₁ y₂ a _ hP ⟨k, op, f, c, rfl, hp, hc⟩ hstep
    simp only [Machine.step, hp] at hstep
    obtain ⟨⟨r, s⟩, he, rfl⟩ := Option.map_eq_some_iff.1 hstep
    exact (exec_clock he).trans hP
  refine hs.restrict ?_
  rintro y₁ a hs₁ ⟨k, op, f, c, rfl, hp, hc⟩
  rw [← hkeeps y₁ hs₁] at hc
  exact hc

theorem ofConsumer_ne_uuid4 {op : Op} (h : op.ofConsumer) : op ≠ .uuid4 := by
  rintro rfl
  exact h

/-- What acknowledges its message has forwarded it or got it processed. -/
theorem acked_done (h : Reachable py A y) : ∀ i r, y.state.Did i .ack r →
    y.state.Forwarded i ∨ y.state.Handled py i := by
  refine h.invariant (P := fun y => ∀ i r, y.state.Did i .ack r →
    y.state.Forwarded i ∨ y.state.Handled py i) (fun _ _ _ hd => by cases hd) ?_
  intro y y' a hr _ hP _ hl i r hd
  have hold : y.state.Forwarded i ∨ y.state.Handled py i →
      y'.state.Forwarded i ∨ y'.state.Handled py i :=
    Or.imp (fun h => hl.persistent hr h) fun h => hl.persistent hr h
  rcases hl.did hd with hd | ⟨⟨-, -, hdone⟩, -⟩
  · exact hold (hP i r hd)
  · exact hold hdone

theorem Forwards.cause {h : History} {key : RoutingKey} {body : List (String × Json)}
    {headers : Headers} (hf : Forwards msg h key body headers) : ∃ e, Cause h e := by
  cases hf with
  | dlq e count cause counted action => exact ⟨e, cause⟩
  | retry e count cause counted action => exact ⟨e, cause⟩

/-- When all has worked there is no cause to raise. -/
theorem Smooth.no_cause {e : Exc} (h : Smooth i clock s) : ¬ Cause (s.history i) e := by
  rintro (⟨op, f, mem, -⟩ | ⟨url, payload, key, status, mem, refused⟩)
  · exact h.worked op _ (mem_history.1 mem)
  · have hstatus : status = 200 := h.worked _ _ (mem_history.1 mem)
    rw [hstatus] at refused
    cases refused

/-- A consumer starts with a message that is ready. -/
theorem spawn_ready (py : Platform) {m : Nat} (hget : y.state.broker.ready[m]? = some msg)
    (hidle : y.procs i = .idle) : ∃ y₁ p, (machine py).step (.spawn i (.dispatch m)) y = some y₁ ∧
      y₁.procs i = .running (.dispatch m) p ∧ p.Only Op.ofConsumer ∧
      y₁.state.log = .delivered i msg :: .started i (.dispatch m) :: y.state.log ∧
      y₁.state.locks = y.state.locks ∧ y₁.state.clock = y.state.clock := by
  have hdeliver : (y.state.note (.started i (.dispatch m))).broker.deliver i m = some (msg,
      { y.state.broker with
        ready := y.state.broker.ready.eraseIdx m
        unacked := (i, msg) :: y.state.broker.unacked }) := by
    rw [World.note, Broker.deliver, hget]
    rfl
  cases hst : World.start py i (.dispatch m) y.state with
  | none =>
    rw [World.start, hdeliver] at hst
    cases hst
  | some sp =>
    obtain ⟨s₁, p⟩ := sp
    have honly := start_only hst
    have hstep : (machine py).step (.spawn i (.dispatch m)) y =
        some ⟨s₁, Function.update y.procs i (.running (.dispatch m) p)⟩ := by
      have hst : (machine py).start i (.dispatch m) y.state = some (s₁, p) := hst
      simp only [Machine.step, hidle, hst, Option.map_some]
    refine ⟨_, p, hstep, Function.update_self .., honly, ?_⟩
    rw [World.start, hdeliver] at hst
    cases hst
    exact ⟨rfl, rfl, rfl⟩

/-- **A message that is ready** can be processed, and its payment's webhook sent. -/
theorem ready_recovers (worker : PublishOutbox) (h : Reachable py Pipeline y) (hc : Calmed n y)
    (hm : msg ∈ y.state.broker.ready) {paymentId : UUID} (hcarries : Carries py msg paymentId) :
    ∃ y', (machine py).Steps (Recovers worker) y y' ∧ y'.state.Informed paymentId := by
  obtain ⟨m, hget⟩ := List.mem_iff_getElem?.1 hm
  have hidle : y.procs n = .idle := hc.unstarted n (Nat.le_refl n)
  obtain ⟨y₁, p, hstep, hp₁, honly, hlog, hlocks, hclock⟩ := spawn_ready py hget hidle
  have hallowed : Recovers worker y (.spawn n (.dispatch m)) := trivial
  have hspawn : (machine py).Steps (Recovers worker) y y₁ := .step _ .refl hallowed hstep
  have hsmooth : Smooth n y.state.clock y₁.state := by
    refine ⟨fun l q hq _ => ?_, hclock, fun op r hd => ?_⟩
    · rw [hlocks, hc.unlocked] at hq
      cases hq
    · rw [Did, Logged, hlog] at hd
      have hold : Entry.did n op r ∈ y.state.log := by simpa using hd
      exact absurd rfl (not_logged_of_own (h.good.idle n hidle).1 hold)
  have hends := Machine.ends_of_only (M := machine py) (i := n)
    (χ := fun _ c => c.Works y.state.clock) (I := Smooth n y.state.clock) honly hsmooth
    (fun op s hI hop => hI.proceeds (ofConsumer_ne_uuid4 hop))
    (fun op c r s s' hI hop hc he => hI.exec hop hc he)
  obtain ⟨y₂, r, hs, hp₂⟩ := hends.comes hp₁
  have hworked : Smooth n y.state.clock y₂.state := hends.ended hp₁ hs hp₂
  have halone : (machine py).Steps (Recovers worker) y₁ y₂ := recovers_alone hs hclock
  have hr₂ := h.recover (hspawn.trans halone)
  have hd : y₂.state.Logged (.delivered n msg) := by
    have hevolves := (h.recover hspawn).evolves (halone.mono fun _ _ => recovers_pipeline)
    refine hevolves.log.subset ?_
    rw [hlog]
    exact List.mem_cons_self ..
  refine ⟨y₂, hspawn.trans halone, ?_⟩
  have hsettled : Settled (y₂.state.history n) := by
    have hend := (consumer_keeps hr₂ hd hcarries).along _ _ hp₂
    cases r <;> exact hend
  rcases hsettled with ⟨r', hack⟩ | ⟨op, e, hfailed⟩
  · rcases acked_done hr₂ n r' (mem_history.1 hack) with hforwarded | hhandled
    · obtain ⟨msg', key, headers, expiration, -, hkey, hpublish⟩ := hforwarded
      obtain ⟨_, -, hf⟩ := forwarded_cause hr₂ hpublish hkey
      obtain ⟨e, hcause⟩ := hf.cause
      exact absurd hcause hworked.no_cause
    · exact handled_informed hr₂ hd hcarries hhandled
  · exact absurd (hworked.worked op _ (mem_history.1 hfailed)) id

/-! ## The relay by itself -/

/-- What working operations of process `i` do to the queue: what it publishes is ready. -/
structure Handed (i : Nat) (clock : Time) (s s' : World) : Prop where
  still : s'.clock = s.clock
  ready : s.broker.ready ⊆ s'.broker.ready
  publications : ∃ ms, s'.publications = s.publications ++ ms ∧
    ∀ m ∈ ms, m.2.2 = true ∧ ⟨m.1, m.2.1⟩ ∈ s'.broker.ready
  reads : ∀ t, s'.Did i .now (.ok t) → s.Did i .now (.ok t) ∨ t = clock

theorem Handed.refl (s : World) : Handed i clock s s where
  still := rfl
  ready := List.Subset.refl _
  publications := ⟨[], (List.append_nil _).symm, fun _ hm => by cases hm⟩
  reads _ := .inl

theorem Handed.trans {s₁ s₂ s₃ : World} (h₁ : Handed i clock s₁ s₂) (h₂ : Handed i clock s₂ s₃) :
    Handed i clock s₁ s₃ where
  still := h₂.still.trans h₁.still
  ready := List.Subset.trans h₁.ready h₂.ready
  publications := by
    obtain ⟨ms₁, hms₁, h₁⟩ := h₁.publications
    obtain ⟨ms₂, hms₂, hready₂⟩ := h₂.publications
    refine ⟨ms₁ ++ ms₂, by rw [hms₂, hms₁, List.append_assoc], fun m hm => ?_⟩
    rcases List.mem_append.1 hm with hm | hm
    · exact ⟨(h₁ m hm).1, h₂.ready (h₁ m hm).2⟩
    · exact hready₂ m hm
  reads t ht := (h₂.reads t ht).elim (h₁.reads t) .inr

theorem exec_publications {op : Op} {c : Choice} {r : Except Exc (Res op)}
    (h : World.exec i op c s = some (r, s')) :
    s'.publications = s.publications ++ (Entry.did i op r).publication.toList := by
  obtain ⟨l, hlog, he⟩ := exec_log h
  have hnone : l.filterMap Entry.publication = [] := by
    refine List.filterMap_eq_nil_iff.2 fun e hm => ?_
    rw [(he e hm).2]
    rfl
  rw [World.publications, World.publications, hlog, List.filterMap_cons, List.filterMap_append,
    hnone, List.nil_append]
  cases (Entry.did i op r).publication <;> simp

theorem ready_traffic {op : Op} {b b' : Broker} (h : OpTraffic i b op b') : b.ready ⊆ b'.ready := by
  cases h with
  | publish key => cases key <;> simp [Broker.enqueue]
  | _ => exact List.Subset.refl _

theorem Choice.Works.handed {op : Op} {c : Choice} {r : Except Exc (Res op)}
    (hc : c.Works clock) (hs : World.exec i op c s = some (r, s')) : Handed i clock s s' := by
  have hexec : World.exec i op c s =
      (s.effect i c op).map fun rs => (rs.1, rs.2.note (.did i op rs.1)) := by
    simp only [World.exec, hc.fine, ite_self]
  obtain ⟨⟨r₁, s₁⟩, he, heq⟩ := Option.map_eq_some_iff.1 (hexec.symm.trans hs)
  cases heq
  have hready : s.broker.ready ⊆ s₁.broker.ready := ready_traffic (effect_traffic he)
  refine ⟨exec_clock hs, hready, ?_, fun t ht => ?_⟩
  · refine ⟨_, exec_publications hs, fun m hm => ?_⟩
    cases op with
    | publish key body headers expiration =>
      cases he
      cases key with
      | new =>
        obtain rfl := List.mem_singleton.1 hm
        exact ⟨rfl, List.mem_append_right _ (List.mem_singleton_self _)⟩
      | retry | dlq => cases hm
    | _ => cases hm
  · obtain ⟨l, hlog, hl⟩ := exec_log hs
    rw [Did, Logged, hlog, List.mem_cons, List.mem_append] at ht
    rcases ht with ht | ht | ht
    · cases ht
      cases he
      exact .inr hc.time
    · cases (hl _ ht).2
    · exact .inl ht

theorem Choice.Works.store {c : Choice} (hc : c.Works clock) (op : Op) :
    StoreWorks (· = clock) op c := by
  refine ⟨hc.sees, ?_⟩
  cases op with
  | publish key body headers expiration =>
    rintro f (hf | hf) <;> (rw [hc.fine] at hf; cases hf)
  | now => exact ⟨hc.fine, hc.time⟩
  | _ => exact hc.fine

/-- What can proceed with a database that works can proceed when all works. -/
theorem works_instead {op : Op} {c : Choice} {r : Except Exc (Res op)}
    (hc : StoreWorks (· = clock) op c) (hs : World.exec i op c s = some (r, s')) :
    ∃ c' r' s', c'.Works clock ∧ World.exec i op c' s = some (r', s') := by
  let c' : Choice := { c with outcome := .fine, time := clock, status := 200 }
  have hworks : c'.Works clock := ⟨rfl, hc.1, rfl, rfl⟩
  have hproceeds : ∃ x, s.effect i c' op = some x := by
    cases op with
    | publish key body headers expiration => exact ⟨_, rfl⟩
    | now => exact ⟨_, rfl⟩
    | post url payload key => exact ⟨_, rfl⟩
    | _ =>
      have hfine : c.outcome = .fine := hc.2
      simp only [World.exec, hfine, ite_self] at hs
      obtain ⟨x, he, -⟩ := Option.map_eq_some_iff.1 hs
      exact ⟨x, he⟩
  obtain ⟨x, he⟩ := hproceeds
  have hexec : World.exec i op c' s =
      (s.effect i c' op).map fun rs => (rs.1, rs.2.note (.did i op rs.1)) := by
    simp only [World.exec, c', ite_self]
  exact ⟨c', x.1, x.2.note (.did i op x.1), hworks, by rw [hexec, he]; rfl⟩

theorem handed_started (i j : Nat) (k : Kind) (s : World) :
    Handed i clock s (s.note (.started j k)) where
  still := rfl
  ready := List.Subset.refl _
  publications := ⟨[], by rw [publications_note]; rfl, fun _ hm => by cases hm⟩
  reads _ ht := .inl ((List.mem_cons.1 ht).resolve_left (by simp))

/-- **The relay polls**, after a crash and by itself: it claims what is due. -/
theorem poll_recovers (hd : worker.Schedules (· = y.state.clock)) (hbatch : 1 ≤ worker.batchSize)
    (h : Reachable py A y) (hc : Calmed n y) {row : OutboxModel}
    (hrow : row ∈ y.state.db.outbox.rows)
    (hdue : OutboxClaimFilter.build y.state.clock (y.state.clock - worker.claimTimeout) row =
      true) :
    ∃ y' attempts, (machine py).Steps (Recovers worker) y y' ∧ Calmed (n + 1) y' ∧
      Executed py worker n y.state y.state.clock attempts y'.state ∧ attempts ≠ [] ∧
        Handed n y.state.clock y.state y'.state := by
  have hidle : y.procs n = .idle := hc.unstarted n (Nat.le_refl n)
  obtain ⟨y₁, hspawn⟩ : ∃ y₁, (machine py).step (.spawn n (.publishOutbox worker)) y = some y₁ := by
    simp only [Machine.step, hidle]
    exact ⟨_, rfl⟩
  obtain ⟨-, hstate, hprocs⟩ := spawn_worker hspawn
  have hallowed : Recovers worker y (.spawn n (.publishOutbox worker)) := rfl
  obtain ⟨p, hp, hends⟩ := ends_worker hd (hc.toRests.calm hidle) hspawn
  have hends := (hends.restrict (χ := fun _ c => c.Works y.state.clock)
    (fun op c hw => hw.store op) fun op c r s s' hw he => works_instead hw he).tracks
      (R := Handed n y.state.clock) (fun s => .refl s) (fun _ _ _ => .trans)
      fun op c r s s' hw he => hw.handed he
  obtain ⟨y₂, r, hs, hp₂⟩ := hends.comes hp
  obtain ⟨⟨now, attempts, -, hdid⟩, hhanded⟩ := hends.ended hp hs hp₂
  have hclock : y₁.state.clock = y.state.clock := by rw [hstate]; rfl
  have hhanded : Handed n y.state.clock y.state y₂.state := by
    rw [hstate] at hhanded
    exact (handed_started n n (.publishOutbox worker) y.state).trans hhanded
  obtain rfl : now = y.state.clock := by
    rcases hhanded.reads now hdid.read with hold | hnow
    · exact absurd rfl (not_logged_of_own (h.good.idle n hidle).1 hold)
    · exact hnow
  refine ⟨y₂, attempts, (Machine.Steps.step _ .refl hallowed hspawn).trans
    (recovers_alone hs hclock), ⟨⟨hdid.unlocked, fun j hj => ?_⟩, fun j hj => ?_⟩, hdid,
    hdid.nonempty hbatch hrow hdue, hhanded⟩
  · have hne : j ≠ n := by
      rintro rfl
      rw [hp₂] at hj
      cases r <;> cases hj
    rw [hdid.others j hne]
    refine hc.clean j ?_
    rw [← hj, Machine.Alone.others hne hs, hprocs, Function.update_of_ne hne]
  · have hne : j ≠ n := by omega
    rw [Machine.Alone.others hne hs, hprocs, Function.update_of_ne hne]
    exact hc.unstarted j (by omega)

/-- `json.dumps` accepts the events of payments, which are texts and a number. -/
def Platform.DumpsEvents (py : Platform) : Prop := ∀ (record : OutboxRecord) (paymentId : UUID),
  record.payload = CreatePayment.createdPayload paymentId →
    py.serializable (.obj (OutboxEventCodec.envelope record)) = true

/-- What the relay has attempted is ready, if `json.dumps` accepts it. -/
theorem attempted_ready (hjson : py.DumpsEvents) {attempts : List Attempt} {a : Attempt}
    (hdid : Executed py worker n s clock attempts s') (hhanded : Handed n clock s s')
    (ha : a ∈ attempts) {paymentId : UUID}
    (hpayload : a.row.payload = CreatePayment.createdPayload paymentId) :
    ∃ msg ∈ s'.broker.ready, Carries py msg paymentId := by
  obtain ⟨headers, henc⟩ : ∃ headers,
      OutboxEventCodec.encode py (OutboxMapper.toClaimedRecord a.row clock) =
        .ok (OutboxEventCodec.envelope (OutboxMapper.toClaimedRecord a.row clock), headers) :=
    ⟨_, if_pos (hjson (OutboxMapper.toClaimedRecord a.row clock) paymentId hpayload)⟩
  have hres := resolves_envelope py (OutboxMapper.toClaimedRecord a.row clock) paymentId hpayload
  obtain ⟨ms, hms, hready⟩ := hhanded.publications
  rw [hdid.publications, List.append_cancel_left_eq] at hms
  have hm : (OutboxEventCodec.envelope (OutboxMapper.toClaimedRecord a.row clock), headers,
      a.delivered) ∈ ms := by
    rw [← hms]
    refine List.mem_flatMap.2 ⟨a, ha, ?_⟩
    simp only [handed, henc]
    exact List.mem_singleton_self _
  exact ⟨_, (hready _ hm).2, hres.1⟩

/-- **A row that is due** can be published: every poll before that settles another one. -/
theorem row_recovers {t : Time} (hd : worker.Schedules (· = t)) (hbatch : 1 ≤ worker.batchSize)
    (hjson : py.DumpsEvents) {paymentId id : UUID} {row : OutboxModel}
    (hdue : OutboxClaimFilter.build t (t - worker.claimTimeout) row = true)
    (hpayload : row.payload = CreatePayment.createdPayload paymentId) :
    ∀ b n y, Reachable py Pipeline y → Calmed n y → y.state.clock = t →
      y.state.db.outbox.find? id = some row → worker.backlog y.state.db.outbox ≤ b →
        ∃ y' m, (machine py).Steps (Recovers worker) y y' ∧ Calmed m y' ∧
          ∃ msg ∈ y'.state.broker.ready, Carries py msg paymentId := by
  intro b
  induction b with
  | zero =>
    intro n y _ _ _ hrow hb
    exact absurd (pending_of_due hdue)
      (backlog_eq_zero.1 (Nat.le_zero.1 hb) row (Table.mem_of_find? hrow))
  | succ b ih =>
    rintro n y h hc rfl hrow hb
    obtain ⟨y₂, attempts, hs, hc₂, hdid, hne, hhanded⟩ := poll_recovers hd hbatch h hc
      (Table.mem_of_find? hrow) hdue
    by_cases hmem : ∃ a ∈ attempts, a.row.id = id
    · obtain ⟨a, ha, hid⟩ := hmem
      obtain rfl : a.row = row := by
        have hfind := (PublishOutbox.mem_due (hdid.due ha)).1
        rw [hid, hrow] at hfind
        exact (Option.some.inj hfind).symm
      exact ⟨y₂, n + 1, hs, hc₂, attempted_ready hjson hdid hhanded ha hpayload⟩
    · have huntouched := hdid.untouched hne fun a ha hid => hmem ⟨a, ha, hid⟩
      have hlt := hdid.backlog_lt hne
      obtain ⟨y₃, m, hs₃, hrest⟩ := ih (n + 1) y₂ (h.recover hs) hc₂ hhanded.still
        (huntouched.trans hrow) (by omega)
      exact ⟨y₃, m, hs.trans hs₃, hrest⟩

/-! ## The guarantee -/

/-- The payment is given up: its row is failed, or a message for it is in the DLQ. -/
def World.GivenUp (py : Platform) (paymentId : UUID) (s : World) : Prop :=
  (∃ q id row, s.CreatedWith q id ∧ q.id = paymentId ∧ s.db.outbox.find? id = some row ∧
    row.status = .failed) ∨
  ∃ msg ∈ s.broker.dlq, Carries py msg paymentId

/-- A message that is not dead can be processed, wherever it is. -/
theorem message_recovers (h : Reachable py Pipeline y) (hc : Calmed n y)
    (hm : msg ∈ y.state.broker.messages) (hdlq : msg ∉ y.state.broker.dlq) {paymentId : UUID}
    (hcarries : Carries py msg paymentId) :
    ∃ y', (machine py).Steps (Recovers worker) y y' ∧ y'.state.Informed paymentId := by
  have hfrom : ∀ e b, World.env e y.state = some { y.state with broker := b } → msg ∈ b.ready →
      ∃ y', (machine py).Steps (Recovers worker) y y' ∧ y'.state.Informed paymentId := by
    intro e b he hready
    have hs : (machine py).Steps (Recovers worker) y ⟨{ y.state with broker := b }, y.procs⟩ := by
      refine .step (.env e) .refl trivial ?_
      have henv : (machine py).env e y.state = some { y.state with broker := b } := he
      simp only [Machine.step, henv, Option.map_some]
    obtain ⟨y', hs', hinformed⟩ := ready_recovers worker (h.recover hs)
      (n := n) ⟨⟨hc.unlocked, hc.clean⟩, hc.unstarted⟩ hready hcarries
    exact ⟨y', hs.trans hs', hinformed⟩
  rcases Broker.mem_messages.1 hm with hready | ⟨i, hunacked⟩ | hretry | hdead
  · exact ready_recovers worker h hc hready hcarries
  · refine hfrom (.requeue i) (y.state.broker.requeue i) rfl ?_
    exact List.mem_append_left _ (Broker.mem_deliveries.2 hunacked)
  · obtain ⟨k, hk⟩ := List.mem_iff_getElem?.1 hretry
    refine hfrom (.expire k) { y.state.broker with
      retry := y.state.broker.retry.eraseIdx k, ready := y.state.broker.ready ++ [msg] } ?_
      (List.mem_append_right _ (List.mem_singleton_self msg))
    simp only [World.env, Broker.expire, hk, Option.map_some]
  · exact absurd hdead hdlq

theorem PublishOutbox.Schedules.only {reads : Time → Prop} {t : Time} (h : worker.Schedules reads)
    (ht : reads t) : worker.Schedules (· = t) where
  readable := ⟨t, rfl⟩
  stale := fun _ he => he ▸ h.stale t ht
  cutoff := fun _ he => he ▸ h.cutoff t ht
  next := fun _ he => he ▸ h.next t ht

/-- Whatever row of the payment waits can be claimed at `t`. -/
def PublishOutbox.DueAt (worker : PublishOutbox) (paymentId : UUID) (t : Time) (s : World) : Prop :=
  ∀ row ∈ s.db.outbox.rows, row.payload = CreatePayment.createdPayload paymentId → row.Pending →
    OutboxClaimFilter.build t (t - worker.claimTimeout) row = true

/-- **Every payment that is not given up can still be told.** From every configuration of every
run, whatever failed, hangs or was killed before, a stored payment whose outbox row is not failed
and that has no message in the DLQ can have its webhook succeed: everything that runs is killed,
time passes until its row is due at `t`, and then only workers with a schedule and consumers run,
one after the other, whose operations work. -/
theorem payment_recoverable {t : Time} (hbatch : 1 ≤ worker.batchSize) (hjson : py.DumpsEvents)
    (h : Reachable py Pipeline y) {p : Payment} (hp : y.state.Stored p)
    (hclock : y.state.clock ≤ t) (hdue : worker.DueAt p.id t y.state)
    (hd : worker.Schedules (· = t)) : y.state.GivenUp py p.id ∨
      ∃ y', (machine py).Steps (Recovers worker) y y' ∧ y'.state.Informed p.id := by
  by_cases hup : y.state.GivenUp py p.id
  · exact .inl hup
  refine .inr ?_
  obtain ⟨y₁, n, hs, hc, hdb, hbroker, hclock₁⟩ := crashed worker h
  have hr := h.recover hs
  have hthen : (∃ y', (machine py).Steps (Recovers worker) y₁ y' ∧ y'.state.Informed p.id) →
      ∃ y', (machine py).Steps (Recovers worker) y y' ∧ y'.state.Informed p.id :=
    fun ⟨y', hs', hinformed⟩ => ⟨y', hs.trans hs', hinformed⟩
  rcases no_payment_lost h p hp with hinformed | ⟨q, id, row, hq, hid, hrow, hwaits⟩ |
    ⟨msg, hm, hcarries⟩
  · exact ⟨y, .refl, hinformed⟩
  · have hnotFailed : row.status ≠ .failed := fun hf => hup (.inl ⟨q, id, row, hq, hid, hrow, hf⟩)
    have hpending : row.Pending := by
      rcases hwaits with hnew | ⟨hprocessing, -⟩ | hf
      · exact .inl hnew
      · exact .inr hprocessing
      · exact absurd hf hnotFailed
    have hpayload : row.payload = CreatePayment.createdPayload p.id := by
      obtain ⟨event, he, hevent, hpl⟩ := row_emitted h id row hrow
      obtain ⟨q', hq', hpl'⟩ := created_of_emitted h he
      rw [hevent] at hq'
      obtain rfl := created_unique h q q' id hq hq'
      rw [hpl, hpl', hid]
    refine hthen ?_
    -- time passes until the row is due
    have htick : (machine py).Steps (Recovers worker) y₁
        ⟨{ y₁.state with clock := y₁.state.clock + (t - y₁.state.clock).toNat }, y₁.procs⟩ :=
      .step (.env (.tick (t - y₁.state.clock).toNat)) .refl trivial rfl
    have hthere : y₁.state.clock + (t - y₁.state.clock).toNat = t := by
      rw [hclock₁, Int.toNat_of_nonneg (sub_nonneg.2 hclock), add_sub_cancel]
    rw [hthere] at htick
    obtain ⟨y₂, m, hs₂, hc₂, msg, hready, hcarries⟩ := row_recovers hd hbatch hjson
      (hdue row (Table.mem_of_find? hrow) hpayload hpending) hpayload _ n
      ⟨{ y₁.state with clock := t }, y₁.procs⟩ (hr.recover htick)
      ⟨⟨hc.unlocked, hc.clean⟩, hc.unstarted⟩ rfl (hdb ▸ hrow) (Nat.le_refl _)
    have hr₂ := (hr.recover htick).recover hs₂
    obtain ⟨y₃, hs₃, hinformed⟩ := ready_recovers worker hr₂ hc₂ hready hcarries
    exact ⟨y₃, (htick.trans hs₂).trans hs₃, hinformed⟩
  · rw [← hbroker] at hm
    have hdlq : msg ∉ y₁.state.broker.dlq := by
      rw [hbroker]
      exact fun hdead => hup (.inr ⟨msg, hdead, hcarries⟩)
    exact hthen (message_recovers hr hc hm hdlq hcarries)

/-- A relay has claimed the row of a payment and hangs. -/
def hangingRun : List (Action Choice Kind Env) :=
  creates 0 (UUID.ofNat 1) (UUID.ofNat 2) ++
    .spawn 1 (.publishOutbox sampleWorker) :: performs 1 4

theorem payment_recoverable_sample : ∃ y, (machine samplePlatform).runActions hangingRun
    (Config.init 0) = some y ∧ ∃ p, y.state.Stored p ∧ (y.state.GivenUp samplePlatform p.id ∨
      ∃ y', (machine samplePlatform).Steps (Recovers sampleWorker) y y' ∧
        y'.state.Informed p.id) := by
  have hA : (machine samplePlatform).AllowedActions Pipeline hangingRun (Config.init 0) :=
    Machine.AllowedActions.mono (fun _ _ => startsPipeline_pipeline)
      (by decide +kernel : (machine samplePlatform).AllowedActions
        (fun _ a => startsPipeline a = true) hangingRun (Config.init 0))
  obtain ⟨y, hy⟩ := Option.isSome_iff_exists.1 (by decide +kernel :
    ((machine samplePlatform).runActions hangingRun (Config.init 0)).isSome = true)
  have hfacts : (((machine samplePlatform).runActions hangingRun (Config.init 0)).map fun y =>
      ((y.state.db.payments.find? (UUID.ofNat 1)).isSome, decide (y.state.clock ≤ 100),
        y.state.db.outbox.rows.all (OutboxClaimFilter.build 100 40))) =
      some (true, true, true) := by decide +kernel
  rw [hy, Option.map_some, Option.some.injEq, Prod.mk.injEq, Prod.mk.injEq] at hfacts
  obtain ⟨hstored, hclock, hdue⟩ := hfacts
  have hr := reachable_of_run hA hy
  obtain ⟨row, hrow⟩ := Option.isSome_iff_exists.1 hstored
  obtain ⟨p, -, -, hp⟩ := payment_of_find? hr.inv hrow
  exact ⟨y, hy, p, hp, payment_recoverable (by decide) (fun _ _ _ => rfl) hr hp
    (of_decide_eq_true hclock) (fun row hrow _ _ => List.all_eq_true.1 hdue row hrow)
    (schedules_sampleWorker.only (by decide))⟩

end PaymentProcessing
