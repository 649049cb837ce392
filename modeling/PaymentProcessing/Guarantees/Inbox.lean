import Mathlib.Data.Set.Card
import PaymentProcessing.Guarantees.Payments

/-!
# What the inbox suppresses

A message id is in the inbox only after a webhook for its payment succeeded, and what starts later
with that id does no work. If the executions for one message do not overlap, every successful
webhook but one was sent by an execution that ended before it could record the message.
-/

namespace PaymentProcessing

open Python Relational Concurrency World

variable {py : Platform} {A : Allowed} {i j : Nat} {s : World} {y y' : Config} {m : UUID}
  {a : Action Choice Kind Env}

/-! ## Remembering -/

namespace World

/-- Process `i` has committed the message id to the inbox. -/
def Remembered (i : Nat) (m : UUID) (s : World) : Prop :=
  ∃ ws row, s.Logged (.committed i ws) ∧ Write.insertInbox row ∈ ws ∧ row.messageId = m

end World

instance : (discipline py).Persistent (Remembered i m) :=
  inferInstanceAs ((discipline py).Persistent fun s => ∃ ws, ∃ _ : InboxModel,
    s.Logged (.committed i ws) ∧ _)

/-- A batch with a row for the inbox is the one `remember` commits. -/
theorem CommitLegit.inbox_cases {ws : List Write} {row : InboxModel} (h : CommitLegit py i s ws)
    (hrow : Write.insertInbox row ∈ ws) : ws = [.insertInbox row] ∧
      s.db.inbox.find? row.messageId = none ∧
      ∃ id, s.Executes py i id (some row.messageId) ∧ s.Posted i id := by
  cases h with
  | remember row' id locked fresh executes posted =>
    obtain rfl : row = row' := by simpa using hrow
    exact ⟨rfl, fresh, id, executes, posted⟩
  | nothing => cases hrow
  | create | complete | charge | mark | release => simp at hrow
  | claim | purge => simp [claimWrites] at hrow

/-- A webhook of process `i` for this payment succeeded before the entry. -/
def PostedBefore (i : Nat) (id : UUID) (e : Entry) (s : World) : Prop :=
  ∃ url payload status, (200 ≤ status ∧ status < 300) ∧
    s.Before (.did i (.post url payload id.str) (.ok status)) e

/-- Whoever committed a message id executed it and had sent its webhook. -/
theorem remembered_posted (h : Reachable py A y) : ∀ i ws row,
    y.state.Logged (.committed i ws) → Write.insertInbox row ∈ ws →
      ∃ id, y.state.Executes py i id (some row.messageId) ∧
        PostedBefore i id (.committed i ws) y.state := by
  refine h.invariant (P := fun y => ∀ i ws row, y.state.Logged (.committed i ws) →
    Write.insertInbox row ∈ ws → ∃ id, y.state.Executes py i id (some row.messageId) ∧
      PostedBefore i id (.committed i ws) y.state) (fun _ _ _ _ hw => by cases hw) ?_
  intro y y' a hr _ hP _ hl i ws row hw hrow
  rcases hl.committed hw with hw | ⟨hc, hst, -, r, hs⟩
  · obtain ⟨id, hx, url, payload, status, hok, hb⟩ := hP i ws row hw hrow
    exact ⟨id, hl.persistent hr hx, url, payload, status, hok, hl.persistent hr hb⟩
  · obtain ⟨-, -, id, hx, url, payload, status, hd, hok⟩ := hc.inbox_cases hrow
    refine ⟨id, hl.persistent hr hx, url, payload, status, hok,
      [.did i .commit r], y.state.log, ?_, hd⟩
    rw [hs, ← hst]
    rfl

theorem seen_remembered (h : Reachable py A y) :
    ∀ m, y.state.Seen m → ∃ i, y.state.Remembered i m := by
  refine h.tables (P := fun s => ∀ m, s.Seen m → ∃ i, s.Remembered i m)
    (fun _ _ ⟨_, hrow⟩ => by cases hrow) (fun s s' hdb hlog _ hP m ⟨row, hrow⟩ => ?_)
    fun i s r hi hc hP m ⟨row, hrow⟩ => ?_
  · rw [hdb] at hrow
    obtain ⟨i, ws, row', hw, hin⟩ := hP m ⟨row, hrow⟩
    exact ⟨i, ws, row', hlog.subset hw, hin⟩
  · by_cases hold : s.Seen m
    · obtain ⟨j, ws, row', hw, hin⟩ := hP m hold
      exact ⟨j, ws, row', committed_commit.2 (.inr hw), hin⟩
    · exact ⟨i, s.staged i, row, committed_commit.2 (.inl ⟨rfl, rfl⟩),
        (s.db.writeAll_inbox_cases _ hrow).resolve_left fun h => hold ⟨row, h⟩,
        Table.key_of_find? hrow⟩

theorem remembered_seen (h : Reachable py A y) :
    ∀ i m, y.state.Remembered i m → y.state.Seen m := by
  refine h.tables (P := fun s => ∀ i m, s.Remembered i m → s.Seen m)
    (fun _ _ _ ⟨_, _, hw, _⟩ => by cases hw) (fun s s' hdb _ hback hP i m ⟨ws, row, hw, hin⟩ => ?_)
    fun i s r hi hc hP j m ⟨ws, row, hw, hrow, hm⟩ => ?_
  · obtain ⟨row', hrow'⟩ := hP i m ⟨ws, row, hback i ws hw, hin⟩
    exact ⟨row', by rw [hdb]; exact hrow'⟩
  · rcases committed_commit.1 hw with ⟨rfl, rfl⟩ | hw
    · obtain ⟨hws, hfresh, -⟩ := hc.inbox_cases hrow
      subst hm
      refine ⟨row, ?_⟩
      show (s.db.writeAll (s.staged j)).inbox.find? row.messageId = _
      rw [hws]
      exact (Table.find?_insert hfresh _).trans (if_pos rfl)
    · obtain ⟨row', hrow'⟩ := hP j m ⟨ws, row, hw, hrow, hm⟩
      exact ⟨row', (commit_evolves (hc.effect hi) rfl r).inbox _ _ hrow'⟩

/-! ## What starts later -/

/-- A consumer that may work has not found its message id. -/
theorem cleared_missing (hi : Inv s) {id : UUID} (hx : s.Executes py i id (some m))
    (hc : s.Cleared py i) : s.Did i (.getInbox m) (.ok none) := by
  rcases hc with ⟨k, hk, hcons⟩ | ⟨id', m', hx', hall⟩
  · rcases hx with hx | ⟨msg, hmsg, -⟩
    · rw [hi.started i _ _ hk hx] at hcons
      cases hcons
    · obtain ⟨n, hn⟩ := hi.delivered i msg hmsg
      rw [hi.started i _ _ hk hn] at hcons
      cases hcons
  · exact hall m (executes_unique hi hx' hx).2

theorem work_cleared (h : Reachable py A y) : ∀ i op r, y.state.Did i op r → op.isWork = true →
    y.state.Cleared py i := by
  refine h.invariant (P := fun y => ∀ i op r, y.state.Did i op r → op.isWork = true →
    y.state.Cleared py i) (fun _ _ _ _ hd => by cases hd) ?_
  intro y y' a hr _ hP _ hl i op r hd hw
  refine hl.persistent (P := Cleared py i) hr ?_
  exact (hl.did hd).elim (fun hd => hP i op r hd hw) fun hd => hd.1.2.1 hw

/-- Once a message id is in the inbox, nobody misses it. -/
theorem seen_not_missing (h : Reachable py A y) (hs : (machine py).Steps A y y')
    (hseen : y.state.Seen m) (hnew : ¬ y.state.Did i (.getInbox m) (.ok none)) :
    ¬ y'.state.Did i (.getInbox m) (.ok none) := by
  refine (h.later (P := fun y => y.state.Seen m ∧ ¬ y.state.Did i (.getInbox m) (.ok none)) hs
    ⟨hseen, hnew⟩ fun y y' a hr _ hP _ hl => ?_).2
  refine ⟨hl.persistent hr hP.1, fun hd => ?_⟩
  obtain ⟨⟨row, hrow⟩, hnot⟩ := hP
  obtain ⟨-, c, hs⟩ := (hl.did hd).resolve_left hnot
  obtain ⟨s₁, he, -⟩ := exec_ok hs
  simp [effect, view, Tables.writeAll_inbox _ _ hrow] at he

/-- A process started with a message id of the inbox does no work and is about to do none. -/
theorem suppressed (h : Reachable py A y) {k : Kind} {id : UUID} {y₁ : Config}
    (ha : A y (.spawn i k)) (hseen : y.state.Seen m)
    (hspawn : (machine py).step (.spawn i k) y = some y₁) (hx : y₁.state.Executes py i id (some m))
    (hs : (machine py).Steps A y₁ y') :
    (∀ op r, y'.state.Did i op r → op.isWork = false) ∧
      ∀ op f, y'.procs i = .running k (.call op f) → op.isWork = false := by
  have hone : (machine py).Steps A y y₁ := .step _ .refl ha hspawn
  have h₁ := h.steps hone
  obtain ⟨p, -, -, hf, -⟩ := h.spawned hspawn
  have hnot : ¬ y'.state.Did i (.getInbox m) (.ok none) :=
    seen_not_missing h₁ hs (h.persistent (P := Seen m) hone hseen) fun hd => by
      rcases hf.own _ hd rfl with he | ⟨msg, he⟩ <;> cases he
  have hcleared : ¬ y'.state.Cleared py i := fun hc =>
    hnot (cleared_missing (h₁.steps hs).inv (h₁.persistent (P := Executes py i id (some m)) hs hx)
      hc)
  refine ⟨fun op r hd => ?_, fun op f hi => ?_⟩
  · by_contra hw
    exact hcleared (work_cleared (h₁.steps hs) i op r hd (by simpa using hw))
  · by_contra hw
    exact hcleared (((h₁.steps hs).req hi).2.1 (by simpa using hw))

/-- An execution that finds its message id: it has returned, or it reads the inbox or closes its
session next, for which it does not have to wait. -/
def Skips (m : UUID) (y : Config) (i : Nat) (k : Kind) : Prop :=
  y.procs i = .running k (.ret .done) ∨
  ∃ op f, y.procs i = .running k (.call op f) ∧ (op = .getInbox m ∨ op = .close) ∧
    ∀ c, (World.exec i op c y.state).isSome = true

theorem exec_isSome {op : Op} (hop : op = .getInbox m ∨ op = .close) (c : Choice) (s : World) :
    (World.exec i op c s).isSome = true := by
  unfold World.exec
  dsimp only
  split
  · rcases hop with rfl | rfl <;> rfl
  · rcases hop with rfl | rfl <;> rfl
  · rfl

/-- What is left of an execution that finds its message id. -/
inductive Skipping (m : UUID) : App Reply → Prop where
  | reads (f : Except Exc (Option InboxModel) → App Reply) (h : ∀ row, ∃ g : Except Exc Unit →
      App Reply, f (.ok (some row)) = .call .close g ∧ g (.ok ()) = .ret .done) :
      Skipping m (.call (.getInbox m) f)
  | closes (g : Except Exc Unit → App Reply) (h : g (.ok ()) = .ret .done) :
      Skipping m (.call .close g)
  | returned : Skipping m (.ret .done)

theorem skipping_processPayment (py : Platform) (id m : UUID) :
    Skipping m (do ProcessPayment.execute py id (some m); return Reply.done) :=
  .reads _ fun _ => ⟨_, rfl, rfl⟩

theorem Skipping.exec {op : Op} {f : Except Exc (Res op) → App Reply} {a : Res op} {c : Choice}
    {s s' : World} (h : Skipping m (.call op f)) (hseen : s.Seen m)
    (hd : World.exec i op c s = some (.ok a, s')) : Skipping m (f (.ok a)) := by
  cases h with
  | reads f h =>
    obtain ⟨s₁, heff, -⟩ := exec_ok hd
    obtain ⟨row, hrow⟩ := hseen
    simp only [effect, view, Tables.writeAll_inbox _ _ hrow, Option.some.injEq,
      Prod.mk.injEq, Except.ok.injEq] at heff
    rw [← heff.1]
    obtain ⟨g, hf, hg⟩ := h row
    rw [hf]
    exact .closes g hg
  | closes g h => exact h ▸ .returned

/-- Process `i` was killed, or an operation of it has failed, or it skips its message. -/
def Suppressed (m : UUID) (y : Config) (i : Nat) (k : Kind) : Prop :=
  y.procs i = .killed k ∨ (∃ op e, y.state.Did i op (.error e)) ∨
    ∃ q, y.procs i = .running k q ∧ Skipping m q

theorem Legit.suppressed {k : Kind} (hl : Legit py a y y') (hr : Reachable py A y)
    (hseen : y.state.Seen m) (h : Suppressed m y i k) : Suppressed m y' i k := by
  rcases h with hk | ⟨op, e, hd⟩ | ⟨q, hq, hskip⟩
  · exact .inl (hl.killed hk)
  · exact .inr (.inl ⟨op, e, (hl.evolves (sound py) hr.inv).log.subset hd⟩)
  · rcases hl.proc hq with hq' | hk | ⟨op, f, r, c, rfl, hd, hq'⟩
    · exact .inr (.inr ⟨q, hq', hskip⟩)
    · exact .inl hk
    · cases r with
      | error e =>
        obtain ⟨l, hlog, -⟩ := exec_log hd
        refine .inr (.inl ⟨op, e, ?_⟩)
        rw [Did, Logged, hlog]
        exact List.mem_cons_self ..
      | ok a => exact .inr (.inr ⟨f (.ok a), hq', hskip.exec hseen hd⟩)

/-- **A duplicate that started late succeeds**, unless it is killed or one of its own operations
fails. -/
theorem suppressed_succeeds (h : Reachable py A y) {id : UUID} {y₁ : Config}
    (ha : A y (.spawn i (.processPayment id (some m)))) (hseen : y.state.Seen m)
    (hspawn : (machine py).step (.spawn i (.processPayment id (some m))) y = some y₁)
    (hs : (machine py).Steps A y₁ y') :
    y'.procs i = .killed (.processPayment id (some m)) ∨
    (∃ op e, y'.state.Did i op (.error e)) ∨ Skips m y' i (.processPayment id (some m)) := by
  have hone : (machine py).Steps A y y₁ := .step _ .refl ha hspawn
  obtain ⟨p, hst, hrun, -, -⟩ := h.spawned hspawn
  have hprog : (do ProcessPayment.execute py id (some m); return Reply.done) = p :=
    congrArg Prod.snd (Option.some.inj hst)
  have hskip : Skipping m p := hprog ▸ skipping_processPayment py id m
  have key : y'.state.Seen m ∧ Suppressed m y' i (.processPayment id (some m)) := by
    refine (h.steps hone).later (P := fun y' => y'.state.Seen m ∧ Suppressed m y' i _) hs
      ⟨h.persistent (P := Seen m) hone hseen, .inr (.inr ⟨p, hrun, hskip⟩)⟩ ?_
    intro y y' a hr _ hP _ hl
    exact ⟨hl.persistent hr hP.1, hl.suppressed hr hP.1 hP.2⟩
  refine key.2.imp_right (Or.imp_right ?_)
  rintro ⟨q, hq, hskip⟩
  cases hskip with
  | reads f => exact .inr ⟨_, _, hq, .inl rfl, fun c => exec_isSome (.inl rfl) c _⟩
  | closes g => exact .inr ⟨_, _, hq, .inr rfl, fun c => exec_isSome (m := m) (.inr rfl) c _⟩
  | returned => exact .inl hq

/-! ## Executions that do not overlap -/

/-- Process `i` is over: it was killed, or it has returned or raised. -/
def Over (y : Config) (i : Nat) : Prop :=
  (∃ k, y.procs i = .killed k) ∨ (∃ k reply, y.procs i = .running k (.ret reply)) ∨
    ∃ k e, y.procs i = .running k (.raise e)

/-- A process that would start with `k` executes message `m`. -/
def StartsFor (py : Platform) (m : UUID) (s : World) : Kind → Prop
  | .processPayment _ messageId => messageId = some m
  | .dispatch n => ∃ msg id, s.broker.ready[n]? = some msg ∧
    InboundPaymentMessage.parsePaymentId py msg.body = .ok id ∧
    InboundPaymentMessage.parseOutboxId py msg = some m
  | _ => False

/-- An execution of message `m` starts only when all earlier ones are over. -/
def OneAtATime (py : Platform) (m : UUID) : Allowed := fun y a =>
  ∀ i k, a = .spawn i k → StartsFor py m y.state k →
    ∀ j id, y.state.Executes py j id (some m) → Over y j

/-- The execution of `m` by process `i` has sent its webhook with success. -/
def Notified (py : Platform) (m : UUID) (i : Nat) (s : World) : Prop :=
  ∃ id, s.Executes py i id (some m) ∧ s.Posted i id

/-- The execution has sent its webhook with success and was over before it had recorded the
message. -/
def Interrupted (py : Platform) (m : UUID) (y : Config) (i : Nat) : Prop :=
  Notified py m i y.state ∧ Over y i ∧ ¬ y.state.Remembered i m

/-- The execution of process `i` is over, and if it recorded the message, process `j` has not found
it missing. -/
def Precedes (m : UUID) (y : Config) (i j : Nat) : Prop :=
  Over y i ∧ (y.state.Remembered i m → ¬ y.state.Did j (.getInbox m) (.ok none))

theorem Legit.over (h : Legit py a y y') (hi : Over y i) : Over y' i ∧
    ∀ e, y'.state.Logged e → e.process = i → y.state.Logged e := by
  have hcall : ∀ k op f, y.procs i ≠ .running k (.call op f) := by
    rintro k op f hp
    rcases hi with ⟨_, hk⟩ | ⟨_, _, hk⟩ | ⟨_, _, hk⟩ <;> (rw [hp] at hk; cases hk)
  have hidle : y.procs i ≠ .idle := by
    intro hp
    rcases hi with ⟨_, hk⟩ | ⟨_, _, hk⟩ | ⟨_, _, hk⟩ <;> (rw [hp] at hk; cases hk)
  refine ⟨?_, fun e he hproc => ?_⟩
  · rcases hi with ⟨k, hk⟩ | ⟨k, r, hk⟩ | ⟨k, e, hk⟩
    · exact .inl ⟨k, h.killed hk⟩
    · rcases h.proc hk with hk' | hk' | ⟨op, f, _, _, hc, -⟩
      · exact .inr (.inl ⟨k, r, hk'⟩)
      · exact .inl ⟨k, hk'⟩
      · cases hc
    · rcases h.proc hk with hk' | hk' | ⟨op, f, _, _, hc, -⟩
      · exact .inr (.inr ⟨k, e, hk'⟩)
      · exact .inl ⟨k, hk'⟩
      · cases hc
  · refine (h.logged he).resolve_right ?_
    intro hadds
    cases hadds with
    | started j k p ha idle | delivered j k p msg ha idle => exact hidle (hproc ▸ idle)
    | did j k op f r c ha hj | committed j k f c ha hj => exact hcall k _ f (hproc ▸ hj)

theorem Legit.executes (h : Legit py a y y') {id : UUID}
    (hx : y'.state.Executes py i id (some m)) : y.state.Executes py i id (some m) ∨
      ∃ k, a = .spawn i k ∧ StartsFor py m y.state k ∧ Fresh i k y'.state := by
  rcases hx with hx | ⟨msg, hmsg, hid, hm⟩
  · rcases h.logged hx with hx | hadds
    · exact .inl (.inl hx)
    · cases hadds with
      | started _ _ p ha idle clean hs => exact .inr ⟨_, ha, rfl, start_fresh clean hs⟩
  · rcases h.logged hmsg with hmsg | hadds
    · exact .inl (.inr ⟨msg, hmsg, hid, hm⟩)
    · cases hadds with
      | delivered _ k p _ ha idle clean hs =>
        obtain ⟨n, b, rfl, hb, -⟩ := start_dispatch hs clean.1 hmsg
        obtain ⟨msg', hget, he⟩ := Option.map_eq_some_iff.1 hb
        cases he
        exact .inr ⟨_, ha, ⟨_, id, hget, hid, hm⟩, start_fresh clean hs⟩

theorem Legit.precedes (h : Legit py a y y') (hr : Reachable py A y) (hp : Precedes m y i j) :
    Precedes m y' i j := by
  obtain ⟨hover, hback⟩ := h.over hp.1
  refine ⟨hover, fun ⟨ws, row, hw, hrow⟩ hd => ?_⟩
  have hrem : y.state.Remembered i m := ⟨ws, row, hback _ hw rfl, hrow⟩
  obtain ⟨row', hrow'⟩ := remembered_seen hr i m hrem
  obtain ⟨-, c, hs⟩ := (h.did hd).resolve_left (hp.2 hrem)
  obtain ⟨s₁, he, -⟩ := exec_ok hs
  simp [effect, view, Tables.writeAll_inbox _ _ hrow'] at he

/-- **Executions for one message that do not overlap are ordered.** -/
theorem precedes_or (h : Reachable py (OneAtATime py m) y) : ∀ i j id id', i ≠ j →
    y.state.Executes py i id (some m) → y.state.Executes py j id' (some m) →
      Precedes m y i j ∨ Precedes m y j i := by
  refine h.invariant (P := fun y => ∀ i j id id', i ≠ j → y.state.Executes py i id (some m) →
    y.state.Executes py j id' (some m) → Precedes m y i j ∨ Precedes m y j i)
    (fun _ i _ id _ _ hx => ?_) fun y y' a hr hr' hP ha hl i j id id' hne hx hx' => ?_
  · rcases hx with hx | ⟨_, hx, -⟩ <;> cases hx
  -- an execution that was just started comes after all the others
  have hnew : ∀ {i j k id}, a = .spawn j k → StartsFor py m y.state k → Fresh j k y'.state →
      y.state.Executes py i id (some m) → Precedes m y' i j := by
    rintro i j k id rfl hk hf hx
    refine ⟨(hl.over (ha j k rfl hk i id hx)).1, fun _ hd => ?_⟩
    rcases hf.own _ hd rfl with he | ⟨msg, he⟩ <;> cases he
  rcases hl.executes hx with hx | ⟨k, he, hk, hf⟩ <;>
    rcases hl.executes hx' with hx' | ⟨k', he', hk', hf'⟩
  · exact (hP i j id id' hne hx hx').imp (hl.precedes hr) (hl.precedes hr)
  · exact .inl (hnew he' hk' hf' hx)
  · exact .inr (hnew he hk hf hx')
  · rw [he] at he'
    cases he'
    exact absurd rfl hne

theorem notified_missing (h : Reachable py A y) (hn : Notified py m i y.state) :
    y.state.Did i (.getInbox m) (.ok none) := by
  obtain ⟨id, hx, url, payload, status, hd, -⟩ := hn
  exact cleared_missing h.inv hx (work_cleared h i _ _ hd rfl)

/-- Of the executions that have notified, one may be going on or have recorded the message. -/
theorem notified_interrupted (h : Reachable py (OneAtATime py m) y) (hne : i ≠ j)
    (hi : Notified py m i y.state) (hj : Notified py m j y.state) :
    Interrupted py m y i ∨ Interrupted py m y j := by
  have key : ∀ {i j}, Notified py m i y.state → Notified py m j y.state → Precedes m y i j →
      Interrupted py m y i := fun hi hj hp =>
    ⟨hi, hp.1, fun hrem => hp.2 hrem (notified_missing h hj)⟩
  have hx : ∃ id, y.state.Executes py i id (some m) := hi.imp fun _ h => h.1
  have hx' : ∃ id, y.state.Executes py j id (some m) := hj.imp fun _ h => h.1
  obtain ⟨id, hx⟩ := hx
  obtain ⟨id', hx'⟩ := hx'
  exact (precedes_or h i j id id' hne hx hx').imp (key hi hj) (key hj hi)

theorem Legit.over_ret (h : Legit py a y y') {k : Kind} {reply : Reply}
    (hret : y'.procs i = .running k (.ret reply)) (hi : Over y i) :
    y.procs i = .running k (.ret reply) := by
  have hnot : ∀ {k'}, y'.procs i ≠ .killed k' := fun hk => by rw [hret] at hk; cases hk
  rcases hi with ⟨k', hk⟩ | ⟨k', r, hk⟩ | ⟨k', e, hk⟩
  · exact absurd (h.killed hk) hnot
  · rcases h.proc hk with hk' | hk' | ⟨op, f, _, _, hc, -⟩
    · rw [hk, ← hk', hret]
    · exact absurd hk' hnot
    · cases hc
  · rcases h.proc hk with hk' | hk' | ⟨op, f, _, _, hc, -⟩
    · rw [hret] at hk'
      cases hk'
    · exact absurd hk' hnot
    · cases hc

/-- An execution that returned has recorded the message if it notified. -/
theorem returned_remembered (h : Reachable py (OneAtATime py m) y) : ∀ i id reply,
    y.procs i = .running (.processPayment id (some m)) (.ret reply) → Notified py m i y.state →
      y.state.Remembered i m := by
  refine h.invariant (P := fun y => ∀ i id reply,
    y.procs i = .running (.processPayment id (some m)) (.ret reply) → Notified py m i y.state →
      y.state.Remembered i m) (fun _ _ _ _ hi => by cases hi) ?_
  intro y y' a hr hr' hP ha hl i id reply hret hn
  have hfresh : ∀ {j k e}, Fresh j k y'.state → y'.state.Logged e → e.process = j →
      (∀ k, e ≠ .started j k) → (∀ msg, e ≠ .delivered j msg) → False := fun hf he hp h₁ h₂ =>
    (hf.own _ he hp).elim (h₁ _) fun ⟨msg, h⟩ => h₂ msg h
  by_cases hover : Over y i
  · -- it was over before this action
    obtain ⟨-, hback⟩ := hl.over hover
    have hn' : Notified py m i y.state := by
      obtain ⟨id', hx', url, payload, status, hd, hok⟩ := hn
      refine ⟨id', ?_, url, payload, status, hback _ hd rfl, hok⟩
      rcases hx' with hx' | ⟨msg, hmsg, hrest⟩
      · exact .inl (hback _ hx' rfl)
      · exact .inr ⟨msg, hback _ hmsg rfl, hrest⟩
    exact hl.persistent hr (hP i id reply (hl.over_ret hret hover) hn')
  · -- it returns with this action, when the message id is in the inbox
    have hmiss := notified_missing hr' hn
    have hseen : y'.state.Seen m := hr'.returned hret m rfl
    obtain ⟨k, hk⟩ := seen_remembered hr' m hseen
    by_cases hki : k = i
    · exact hki ▸ hk
    obtain ⟨id₁, hx, -⟩ := hn
    have hk' := hk
    obtain ⟨ws, row, hw, hrow, rfl⟩ := hk'
    obtain ⟨id₂, hxk, -⟩ := remembered_posted hr' k ws row hw hrow
    have hx' := (hl.executes hx).resolve_right fun ⟨_, _, _, hf⟩ =>
      hfresh hf hmiss rfl (by simp) (by simp)
    have hxk' := (hl.executes hxk).resolve_right fun ⟨_, _, _, hf⟩ =>
      hfresh hf hw rfl (by simp) (by simp)
    rcases precedes_or hr i k id₁ id₂ (fun e => hki e.symm) hx' hxk' with hp | hp
    · exact absurd hp.1 hover
    · exact absurd hmiss ((hl.precedes hr hp).2 hk)

/-- Of any two elements of `S` one is in `B`, so all but one are. -/
theorem encard_le_of_pairs {S B : Set Nat} (h : ∀ i ∈ S, ∀ j ∈ S, i ≠ j → i ∈ B ∨ j ∈ B) :
    S.encard ≤ B.encard + 1 := by
  have hone : (S \ B).encard ≤ 1 := Set.encard_le_one_iff.2 fun i j hi hj => by
    by_contra hne
    exact (h i hi.1 j hj.1 hne).elim hi.2 hj.2
  calc S.encard ≤ (B ∪ S \ B).encard := Set.encard_le_encard (by simp)
    _ ≤ B.encard + (S \ B).encard := Set.encard_union_le _ _
    _ ≤ B.encard + 1 := by gcongr

/-- The entry is a webhook of process `i`. -/
def Entry.isPostOf (i : Nat) : Entry → Bool
  | .did j (.post ..) _ => j = i
  | _ => false

/-- An execution sends at most one webhook. -/
theorem one_post (h : Reachable py A y) : ∀ i, y.state.log.countP (Entry.isPostOf i) ≤ 1 := by
  refine h.invariant (P := fun y => ∀ i, y.state.log.countP (Entry.isPostOf i) ≤ 1)
    (fun _ _ => Nat.zero_le _) ?_
  intro y y' a hr _ hP _ hl i
  have hsilent : ∀ {l : List Entry}, (∀ e ∈ l, e.isPostOf i = false) →
      l.countP (Entry.isPostOf i) = 0 := fun hl =>
    List.countP_eq_zero.2 fun e he => by simp [hl e he]
  cases hl.logs with
  | spawn j k l _ hlog he =>
    rw [hlog, List.countP_append, hsilent fun e hm => ?_, Nat.zero_add]
    · exact hP i
    · rcases he e hm with rfl | ⟨msg, rfl⟩ <;> rfl
  | run j op r c l req _ hlog he =>
    rw [hlog, List.countP_cons, List.countP_append, hsilent fun e hm => ?_, Nat.zero_add]
    · by_cases hpost : Entry.isPostOf i (.did j op r) = true
      · -- the process has sent none before
        have hnone : y.state.log.countP (Entry.isPostOf i) = 0 := by
          cases op with
          | post url payload key =>
            obtain rfl : j = i := by simpa [Entry.isPostOf] using hpost
            obtain ⟨-, -, hlegit⟩ := req
            cases hlegit with
            | outcome p messageId _ _ _ first =>
              apply List.countP_eq_zero.2
              intro e hm hp
              unfold Entry.isPostOf at hp
              split at hp
              · rename_i k url' payload' key' r'
                obtain rfl : k = j := by simpa using hp
                exact first _ _ hm
              · cases hp
          | _ => cases hpost
        simp [hnone, hpost]
      · simp only [hpost, Bool.false_eq_true, if_false, Nat.add_zero]
        exact hP i
    · rw [(he e hm).2]; rfl
  | silent hlog => rw [hlog]; exact hP i

/-- **The inbox only suppresses finished work.** A message id in the inbox means that a webhook for
the message's payment, which is completed, had succeeded before; an execution that starts later does
no work and succeeds; and executions that do not overlap send one successful webhook, and one for
every execution that was over between its webhook and its row in the inbox. -/
theorem inbox_only_finished (py : Platform) (m : UUID) :
    (∀ y, Reachable py anyAction y → y.state.Seen m →
      (∀ i j id id', y.state.Executes py i id (some m) → y.state.Executes py j id' (some m) →
        id = id') →
      ∃ p j ws row, (∀ i id, y.state.Executes py i id (some m) → id = p.id) ∧
        p.isTerminal = true ∧ y.state.Stored p ∧ y.state.Logged (.committed j ws) ∧
        Write.insertInbox row ∈ ws ∧ row.messageId = m ∧
        PostedBefore j p.id (.committed j ws) y.state) ∧
    (∀ y y₁ y' i k id, Reachable py anyAction y → y.state.Seen m →
      (machine py).step (.spawn i k) y = some y₁ → y₁.state.Executes py i id (some m) →
      (machine py).Steps anyAction y₁ y' →
        (∀ op r, y'.state.Did i op r → op.isWork = false) ∧
        (∀ op f, y'.procs i = .running k (.call op f) → op.isWork = false) ∧
        (k = .processPayment id (some m) → y'.procs i = .killed k ∨
          (∃ op e, y'.state.Did i op (.error e)) ∨ Skips m y' i k)) ∧
    (∀ y, Reachable py (OneAtATime py m) y →
      (∀ i, y.state.log.countP (Entry.isPostOf i) ≤ 1) ∧
      (∀ i id reply, Interrupted py m y i →
        y.procs i ≠ .running (.processPayment id (some m)) (.ret reply)) ∧
      Set.encard {i | Notified py m i y.state} ≤ Set.encard {i | Interrupted py m y i} + 1) := by
  refine ⟨fun y h hseen hdet => ?_, fun y y₁ y' i k id h hseen hspawn hx hs => ?_, fun y h => ?_⟩
  · obtain ⟨j, ws, row, hw, hrow, hm⟩ := seen_remembered h m hseen
    obtain ⟨id, hx, hpost⟩ := remembered_posted h j ws row hw hrow
    rw [hm] at hx
    have hb : ∃ url payload status, y.state.Before (.did j (.post url payload id.str) (.ok status))
        (.committed j ws) := by
      obtain ⟨url, payload, status, -, hb⟩ := hpost
      exact ⟨url, payload, status, hb⟩
    obtain ⟨url, payload, status, hb⟩ := hb
    obtain ⟨p, rfl, hset, -⟩ := attempts_of_payment h hx (.inr ⟨_, logged_of_before hb⟩)
    exact ⟨p, j, ws, row, fun i id hx' => hdet i j _ _ hx' hx, hset.2, hset.1, hw, hrow, hm, hpost⟩
  · obtain ⟨hdid, hnext⟩ := suppressed h trivial hseen hspawn hx hs
    refine ⟨hdid, hnext, ?_⟩
    rintro rfl
    exact suppressed_succeeds h trivial hseen hspawn hs
  · refine ⟨one_post h, fun i id reply hi hret => ?_, ?_⟩
    · exact hi.2.2 (returned_remembered h i id reply hret hi.1)
    · exact encard_le_of_pairs fun i hi j hj hne => notified_interrupted h hne hi hj

/-- Consumers start only where none has started before. -/
def startsFirst (y : Config) : Action Choice Kind Env → Bool
  | .spawn _ k => !k.isConsumer || y.state.log.all fun
      | .started _ k' => !k'.isConsumer
      | .delivered .. => false
      | _ => true
  | _ => true

theorem startsFirst_oneAtATime (h : startsFirst y a = true) : OneAtATime py m y a := by
  rintro i k rfl hk j id hx
  have hcons : k.isConsumer = true := by
    cases k with
    | processPayment | dispatch => rfl
    | _ => cases hk
  simp only [startsFirst, hcons, Bool.not_true, Bool.false_or, List.all_eq_true] at h
  rcases hx with hx | ⟨msg, hmsg, -⟩
  · exact absurd (h _ hx) (by simp [Kind.isConsumer])
  · exact absurd (h _ hmsg) (by simp)

/-- The entry starts no execution for another payment. -/
def Entry.aboutSample : Entry → Bool
  | .started _ (.processPayment id _) => id = UUID.ofNat 1
  | .delivered .. => false
  | _ => true

theorem aboutSample_executes (h : s.log.all Entry.aboutSample = true) {id : UUID}
    (hx : s.Executes py i id (some m)) : id = UUID.ofNat 1 := by
  rw [List.all_eq_true] at h
  rcases hx with hx | ⟨msg, hmsg, -⟩
  · simpa [Entry.aboutSample] using h _ hx
  · exact absurd (h _ hmsg) (by simp [Entry.aboutSample])

theorem inbox_only_finished_sample : ∃ y y₁ k, sampleEnd = some y ∧
    (machine samplePlatform).step (.spawn 2 k) y = some y₁ ∧
    (∃ p : Payment, p.isTerminal = true ∧ y.state.Stored p) ∧
    (∀ y', (machine samplePlatform).Steps anyAction y₁ y' → ∀ op r, y'.state.Did 2 op r →
      op.isWork = false) ∧
    Set.encard {i | Notified samplePlatform (UUID.ofNat 2) i y.state} ≤
      Set.encard {i | Interrupted samplePlatform (UUID.ofNat 2) y i} + 1 := by
  obtain ⟨hpast, hlater, honce⟩ := inbox_only_finished samplePlatform (UUID.ofNat 2)
  have hstep : (sampleEnd.bind ((machine samplePlatform).step
      (.spawn 2 (.processPayment (UUID.ofNat 1) (some (UUID.ofNat 2)))))).isSome = true := by
    decide +kernel
  have hfacts : (sampleEnd.map fun y => (y.state.db.inbox.find? (UUID.ofNat 2)).isSome &&
      y.state.log.all Entry.aboutSample) = some true := by decide +kernel
  have hfirst : (machine samplePlatform).AllowedActions
      (fun y a => startsFirst y a = true) sampleRun (Config.init 0) := by decide +kernel
  obtain ⟨y₁, hy₁⟩ := Option.isSome_iff_exists.1 hstep
  obtain ⟨y, hy, hspawn⟩ := Option.bind_eq_some_iff.1 hy₁
  rw [hy, Option.map_some, Option.some.injEq, Bool.and_eq_true, Option.isSome_iff_exists] at hfacts
  obtain ⟨hseen, habout⟩ := hfacts
  obtain ⟨p, -, -, -, -, hterminal, hstored, -⟩ := hpast y (reachable_sample hy) hseen
    fun i j id id' hx hx' =>
      (aboutSample_executes habout hx).trans (aboutSample_executes habout hx').symm
  obtain ⟨-, -, -, hf, -⟩ := (reachable_sample hy).spawned hspawn
  refine ⟨y, y₁, _, hy, hspawn, ⟨p, hterminal, hstored⟩, fun y' hs => ?_, ?_⟩
  · exact (hlater y y₁ y' 2 _ _ (reachable_sample hy) hseen hspawn (.inl hf.started) hs).1
  · exact (honce y (reachable_of_run
      (Machine.AllowedActions.mono (fun _ _ => startsFirst_oneAtATime) hfirst) hy)).2.2

end PaymentProcessing
