import PaymentProcessing.Protocol.Code

/-!
# Runs of the system

A configuration is reachable if actions that all satisfy `A` lead to it from the start. Every
reachable configuration is good, so its invariants are proved action by action with what the
discipline says about the action. Most of them are about the tables, which only a commit changes:
`Reachable.tables` asks for nothing but the commits.
-/

namespace PaymentProcessing

open Python Relational Concurrency World

/-- An assumption on the actions of a run. -/
abbrev Allowed : Type := Config → Action Choice Kind Env → Prop

/-- Every action is allowed. -/
def anyAction : Allowed := fun _ _ => True

/-- The configuration is reached from the start by actions with `A`. -/
def Reachable (py : Platform) (A : Allowed) (y : Config) : Prop :=
  ∃ clock, (machine py).Steps A (Config.init clock) y

/-- An action of the system with what the discipline says about it. -/
abbrev Legit (py : Platform) (a : Action Choice Kind Env) (y y' : Config) : Prop :=
  (discipline py).Legit a y y'

variable {py : Platform} {A : Allowed} {y y' : Config} {a : Action Choice Kind Env}

/-! ## What an action does to the tables -/

/-- The action is a commit of process `i` that takes effect. -/
def Commits (y : Config) (a : Action Choice Kind Env) (i : Nat) : Prop :=
  ∃ k f c, a = .run i c ∧ y.procs i = .running k (.call .commit f) ∧ ∀ flt, c.outcome ≠ .lost flt

theorem Commits.unique {i j : Nat} (hi : Commits y a i) (hj : Commits y a j) : i = j := by
  obtain ⟨-, -, c, rfl, -⟩ := hi
  obtain ⟨-, -, c', hrun, -⟩ := hj
  cases hrun
  rfl

/-- What an action does to the tables: one process commits a batch, or they stay as they are. -/
inductive Change (py : Platform) (a : Action Choice Kind Env) (y y' : Config) : Prop where
  | commit (i : Nat) (r : Except Exc (Res .commit)) (commits : Commits y a i)
      (legit : CommitLegit py i y.state (y.state.staged i))
      (hs : y'.state = (y.state.commit i).note (.did i .commit r))
  | same (db : y'.state.db = y.state.db) (log : y.state.log <:+ y'.state.log)
      (committed : ∀ i ws, y'.state.Logged (.committed i ws) → y.state.Logged (.committed i ws))

theorem Quiet.change {i : Nat} (h : Quiet i y.state y'.state) : Change py a y y' := by
  refine .same h.db h.suffix ?_
  intro j ws hw
  obtain ⟨l, hl, hle⟩ := h.log
  rw [Logged, hl, List.mem_append] at hw
  exact hw.elim (fun hw => absurd rfl ((hle _ hw).2 j ws)) id

theorem Legit.change (h : Legit py a y y') : Change py a y y' := by
  cases h with
  | spawn i k s p _ _ _ hs hy => subst hy; exact (start_quiet hs).change
  | run i c k op p r s ha hi hreq hs hy =>
    subst hy
    by_cases hop : op = .commit
    · subst hop
      have hnote : s = y.state.note (.did i .commit r) → Change py a y
          ⟨s, Function.update y.procs i (.running k (p r))⟩ := by
        rintro rfl
        exact .same rfl (List.suffix_cons ..) fun j ws hw => (List.mem_cons.1 hw).resolve_left
          (by simp)
      by_cases hlost : ∃ flt, c.outcome = .lost flt
      · obtain ⟨flt, hlost⟩ := hlost
        have hexec : World.exec i .commit c y.state = some (r, s) := hs
        simp only [World.exec, Op.isLocal, hlost, Option.some.injEq, Prod.mk.injEq,
          Bool.false_eq_true, if_false] at hexec
        refine hnote ?_
        rw [← hexec.2, ← hexec.1]
        rfl
      · rcases exec_commit hs with rfl | ⟨-, he⟩
        · exact .commit i r ⟨k, p, c, ha, hi, fun flt he => hlost ⟨flt, he⟩⟩ hreq.2.2 rfl
        · exact hnote he
    · exact (exec_quiet hop hs).change
  | kill i k p _ _ hy => subst hy; exact (frame_endTx (i := i)).silent.change
  | env e s _ hs hy => subst hy; exact (env_quiet hs 0).change

/-! ## What an action adds to the log -/

theorem before_note {s : World} {e e₁ e₂ : Entry} :
    (s.note e).Before e₁ e₂ ↔ (e₂ = e ∧ s.Logged e₁) ∨ s.Before e₁ e₂ := by
  constructor
  · rintro ⟨l₁, l₂, hl, he⟩
    cases l₁ with
    | nil =>
      cases hl
      exact .inl ⟨rfl, he⟩
    | cons a l₁ => exact .inr ⟨l₁, l₂, (List.cons.inj hl).2, he⟩
  · rintro (⟨rfl, he⟩ | ⟨l₁, l₂, hl, he⟩)
    · exact ⟨[], s.log, rfl, he⟩
    · exact ⟨e :: l₁, l₂, congrArg (e :: ·) hl, he⟩

theorem logged_of_before {s : World} {e e' : Entry} (h : s.Before e e') : s.Logged e := by
  obtain ⟨l₁, l₂, hl, he⟩ := h
  rw [Logged, hl]
  exact List.mem_append_right _ (List.mem_cons_of_mem _ he)

theorem before_append {s s' : World} {l : List Entry} {e₁ e₂ : Entry}
    (hl : s'.log = l ++ s.log) (he : e₂ ∉ l) (h : s'.Before e₁ e₂) : s.Before e₁ e₂ := by
  induction l generalizing s' with
  | nil =>
    obtain ⟨l₁, l₂, hl', h⟩ := h
    exact ⟨l₁, l₂, hl.symm.trans hl', h⟩
  | cons e l ih =>
    have hs : s'.log = (note { s with log := l ++ s.log } e).log := hl
    have h' : (note { s with log := l ++ s.log } e).Before e₁ e₂ := by
      obtain ⟨l₁, l₂, hl', h⟩ := h
      exact ⟨l₁, l₂, hs.symm.trans hl', h⟩
    rcases before_note.1 h' with ⟨rfl, -⟩ | h'
    · exact absurd (List.mem_cons_self ..) he
    · exact ih rfl (fun hm => he (List.mem_cons_of_mem _ hm)) h'

theorem start_log {i : Nat} {k : Kind} {s s' : World} {p : App Reply}
    (h : World.start py i k s = some (s', p)) :
    ∃ l, s'.log = l ++ s.log ∧ ∀ e ∈ l, e = .started i k ∨ ∃ msg, e = .delivered i msg := by
  have hnote : ∃ l, (s.note (.started i k)).log = l ++ s.log ∧
      ∀ e ∈ l, e = .started i k ∨ ∃ msg, e = .delivered i msg :=
    ⟨[.started i k], rfl, by simp⟩
  cases k with
  | dispatch n =>
    obtain ⟨⟨msg, b⟩, -, he⟩ := Option.map_eq_some_iff.1 h
    cases he
    exact ⟨[.delivered i msg, .started i (.dispatch n)], rfl, by simp⟩
  | _ => cases h; exact hnote

/-- A process that starts with a message takes it from the queue and dispatches it. -/
theorem start_dispatch {i : Nat} {k : Kind} {s s' : World} {p : App Reply} {msg : Message}
    (h : World.start py i k s = some (s', p)) (hown : s.own i = [])
    (hd : s'.Logged (.delivered i msg)) : ∃ n b, k = .dispatch n ∧
      s.broker.deliver i n = some (msg, b) ∧
      p = (do PaymentMessageDispatcher.dispatch py msg; return .done) := by
  have hold : ¬ s.Logged (.delivered i msg) := fun hm => not_logged_of_own hown hm rfl
  cases k with
  | dispatch n =>
    obtain ⟨⟨m, b⟩, hb, he⟩ := Option.map_eq_some_iff.1 h
    cases he
    rcases List.mem_cons.1 hd with he | he
    · cases he
      exact ⟨n, b, rfl, hb, rfl⟩
    · exact absurd ((List.mem_cons.1 he).resolve_left (by simp)) hold
  | _ =>
    cases h
    exact absurd ((List.mem_cons.1 hd).resolve_left (by simp)) hold

theorem env_log {e : Env} {s s' : World} (h : World.env e s = some s') : s'.log = s.log := by
  cases e with
  | tick d => cases h; rfl
  | requeue i => cases h; rfl
  | expire n =>
    obtain ⟨b, -, rfl⟩ := Option.map_eq_some_iff.1 h
    rfl

/-- What one action adds to the log. -/
inductive Logs (py : Platform) (y y' : Config) : Prop where
  | spawn (i : Nat) (k : Kind) (l : List Entry) (idle : y.procs i = .idle)
      (hl : y'.state.log = l ++ y.state.log)
      (he : ∀ e ∈ l, e = .started i k ∨ ∃ msg, e = .delivered i msg)
  | run (i : Nat) (op : Op) (r : Except Exc (Res op)) (c : Choice) (l : List Entry)
      (req : Req py i op y.state) (hs : World.exec i op c y.state = some (r, y'.state))
      (hl : y'.state.log = .did i op r :: (l ++ y.state.log))
      (he : ∀ e ∈ l, op = .commit ∧ e = .committed i (y.state.staged i))
  | silent (hl : y'.state.log = y.state.log)

theorem Legit.logs (h : Legit py a y y') : Logs py y y' := by
  cases h with
  | spawn i k s p _ hi _ hs hy =>
    subst hy
    obtain ⟨l, hl, he⟩ := start_log hs
    exact .spawn i k l hi hl he
  | run i c k op p r s _ _ hreq hs hy =>
    subst hy
    obtain ⟨l, hl, he⟩ := exec_log hs
    exact .run i op r c l hreq hs hl he
  | kill i k p _ _ hy => subst hy; exact .silent rfl
  | env e s _ hs hy =>
    subst hy
    exact .silent (env_log hs)

/-- An entry that an action adds to the log, and how it comes to it. -/
inductive Adds (py : Platform) (a : Action Choice Kind Env) (y y' : Config) : Entry → Prop where
  | started (i : Nat) (k : Kind) (p : App Reply) (ha : a = .spawn i k) (idle : y.procs i = .idle)
      (clean : (discipline py).idle i y.state)
      (hs : World.start py i k y.state = some (y'.state, p)) : Adds py a y y' (.started i k)
  | delivered (i : Nat) (k : Kind) (p : App Reply) (msg : Message) (ha : a = .spawn i k)
      (idle : y.procs i = .idle) (clean : (discipline py).idle i y.state)
      (hs : World.start py i k y.state = some (y'.state, p)) : Adds py a y y' (.delivered i msg)
  | did (i : Nat) (k : Kind) (op : Op) (f : Except Exc (Res op) → App Reply)
      (r : Except Exc (Res op)) (c : Choice) (ha : a = .run i c)
      (hi : y.procs i = .running k (.call op f)) (req : Req py i op y.state)
      (hs : World.exec i op c y.state = some (r, y'.state)) : Adds py a y y' (.did i op r)
  | committed (i : Nat) (k : Kind) (f : Except Exc (Res .commit) → App Reply) (c : Choice)
      (ha : a = .run i c) (hi : y.procs i = .running k (.call .commit f)) :
      Adds py a y y' (.committed i (y.state.staged i))

/-- **An entry of the log is an old one, or the action has added it.** -/
theorem Legit.logged (h : Legit py a y y') {e : Entry} (he : y'.state.Logged e) :
    y.state.Logged e ∨ Adds py a y y' e := by
  cases h with
  | spawn i k s p ha hi hidle hs hy =>
    subst hy
    obtain ⟨l, hl, hle⟩ := start_log hs
    rw [Logged, hl, List.mem_append] at he
    rcases he with he | he
    · rcases hle e he with rfl | ⟨msg, rfl⟩
      · exact .inr (.started i k p ha hi hidle hs)
      · exact .inr (.delivered i k p msg ha hi hidle hs)
    · exact .inl he
  | run i c k op f r s ha hi hreq hs hy =>
    subst hy
    obtain ⟨l, hl, hle⟩ := exec_log hs
    rw [Logged, hl, List.mem_cons, List.mem_append] at he
    rcases he with rfl | he | he
    · exact .inr (.did i k op f r c ha hi hreq hs)
    · obtain ⟨rfl, rfl⟩ := hle e he
      exact .inr (.committed i k f c ha hi)
    · exact .inl he
  | kill i k p _ _ hy => subst hy; exact .inl he
  | env ev s _ hs hy =>
    subst hy
    rw [Logged, env_log hs] at he
    exact .inl he

/-- What an action does to a running process: nothing, or it is killed, or it performs its next
operation. -/
theorem Legit.proc (h : Legit py a y y') {i : Nat} {k : Kind} {p : App Reply}
    (hi : y.procs i = .running k p) : y'.procs i = .running k p ∨ y'.procs i = .killed k ∨
      ∃ op f r c, p = .call op f ∧ World.exec i op c y.state = some (r, y'.state) ∧
        y'.procs i = .running k (f r) := by
  cases h with
  | spawn j k' s q _ hj _ hs hy =>
    subst hy
    have hne : i ≠ j := by
      rintro rfl
      rw [hi] at hj
      cases hj
    exact .inl ((Function.update_of_ne hne _ _).trans hi)
  | run j c k' op f r s _ hj _ hs hy =>
    subst hy
    by_cases hij : i = j
    · subst hij
      rw [hi] at hj
      cases hj
      exact .inr (.inr ⟨op, f, r, c, rfl, hs, Function.update_self ..⟩)
    · exact .inl ((Function.update_of_ne hij _ _).trans hi)
  | kill j k' q _ hj hy =>
    subst hy
    by_cases hij : i = j
    · subst hij
      rw [hi] at hj
      cases hj
      exact .inr (.inl (Function.update_self ..))
    · exact .inl ((Function.update_of_ne hij _ _).trans hi)
  | env e s _ _ hy => subst hy; exact .inl hi

/-- What an action is for process `i`. -/
inductive Moves (py : Platform) (y y' : Config) (i : Nat) : Prop where
  | rest (proc : y'.procs i = y.procs i) (own : y'.state.own i = y.state.own i)
  | spawn (k : Kind) (p : App Reply) (idle : y.procs i = .idle) (clean : y.state.own i = [])
      (hs : World.start py i k y.state = some (y'.state, p)) (proc : y'.procs i = .running k p)
  | run (k : Kind) (op : Op) (f : Except Exc (Res op) → App Reply) (r : Except Exc (Res op))
      (c : Choice) (hi : y.procs i = .running k (.call op f)) (req : Req py i op y.state)
      (hs : World.exec i op c y.state = some (r, y'.state)) (proc : y'.procs i = .running k (f r))
  | kill (k : Kind) (proc : y'.procs i = .killed k) (own : y'.state.own i = y.state.own i)

theorem own_append {s s' : World} {l : List Entry} {i : Nat} (hl : s'.log = l ++ s.log)
    (he : ∀ e ∈ l, e.process ≠ i) : s'.own i = s.own i := by
  have hnil : (l.filter fun e => decide (e.process = i)) = [] :=
    List.filter_eq_nil_iff.2 fun e hm => by simpa using he e hm
  rw [own, hl, List.filter_append, hnil]
  rfl

theorem Legit.moves (h : Legit py a y y') (i : Nat) : Moves py y y' i := by
  cases h with
  | spawn j k s p _ hj hidle hs hy =>
    subst hy
    by_cases hij : i = j
    · subst hij
      exact .spawn k p hj hidle.1 hs (Function.update_self ..)
    · obtain ⟨l, hl, he⟩ := start_log hs
      refine .rest (Function.update_of_ne hij _ _) (own_append hl fun e hm => ?_)
      rcases he e hm with rfl | ⟨msg, rfl⟩
      · exact Ne.symm hij
      · exact Ne.symm hij
  | run j c k op f r s _ hj hreq hs hy =>
    subst hy
    by_cases hij : i = j
    · subst hij
      exact .run k op f r c hj hreq hs (Function.update_self ..)
    · obtain ⟨l, hl, he⟩ := exec_log hs
      refine .rest (Function.update_of_ne hij _ _)
        (own_append (l := .did j op r :: l) hl fun e hm => ?_)
      rcases List.mem_cons.1 hm with rfl | hm
      · exact Ne.symm hij
      · rw [(he e hm).2]
        exact Ne.symm hij
  | kill j k p _ hj hy =>
    subst hy
    by_cases hij : i = j
    · subst hij
      exact .kill k (Function.update_self ..) rfl
    · exact .rest (Function.update_of_ne hij _ _) rfl
  | env e s _ hs hy =>
    subst hy
    exact .rest rfl (own_append (l := []) (env_log hs) (by simp))

theorem Legit.killed (h : Legit py a y y') {i : Nat} {k : Kind} (hi : y.procs i = .killed k) :
    y'.procs i = .killed k := by
  have hne : ∀ {j : Nat} {x : Proc Res Exc Kind Reply}, y.procs j = x → (∀ k, x ≠ .killed k) →
      i ≠ j := by
    rintro j x hj hx rfl
    exact hx k (hj.symm.trans hi)
  cases h with
  | spawn j k' s q _ hj _ _ hy =>
    subst hy; exact (Function.update_of_ne (hne hj (by simp)) _ _).trans hi
  | run j c k' op f r s _ hj _ _ hy =>
    subst hy; exact (Function.update_of_ne (hne hj (by simp)) _ _).trans hi
  | kill j k' q _ hj hy =>
    subst hy; exact (Function.update_of_ne (hne hj (by simp)) _ _).trans hi
  | env e s _ _ hy => subst hy; exact hi

/-- An operation that is new in the log was just performed, and what was before it is older. -/
theorem Legit.before (h : Legit py a y y') {i : Nat} {op : Op} {r : Except Exc (Res op)} {e : Entry}
    (hb : y'.state.Before e (.did i op r)) : y.state.Before e (.did i op r) ∨
      (Req py i op y.state ∧ (∃ c, World.exec i op c y.state = some (r, y'.state)) ∧
        (y.state.Logged e ∨ ∃ ws, e = .committed i ws)) := by
  cases h.logs with
  | spawn j k l _ hl he =>
    refine .inl (before_append hl (fun hm => ?_) hb)
    rcases he _ hm with he | ⟨msg, he⟩ <;> cases he
  | run j op' r' c l req hs hl he =>
    have hb' : (note { y.state with log := l ++ y.state.log } (.did j op' r')).Before e
        (.did i op r) := by
      obtain ⟨l₁, l₂, hl', h⟩ := hb
      exact ⟨l₁, l₂, hl.symm.trans hl', h⟩
    rcases before_note.1 hb' with ⟨hsame, hold⟩ | hb'
    · cases hsame
      refine .inr ⟨req, ⟨c, hs⟩, ?_⟩
      exact (List.mem_append.1 hold).symm.imp id fun hm => ⟨_, (he e hm).2⟩
    · exact .inl (before_append (l := l) rfl (fun hm => by cases (he _ hm).2) hb')
  | silent hl => exact .inl (before_append (l := []) hl List.not_mem_nil hb)

theorem Legit.did (h : Legit py a y y') {i : Nat} {op : Op} {r : Except Exc (Res op)}
    (hd : y'.state.Did i op r) : y.state.Did i op r ∨
      (Req py i op y.state ∧ ∃ c, World.exec i op c y.state = some (r, y'.state)) := by
  refine (h.logged hd).imp_right ?_
  intro hadds
  cases hadds with
  | did _ k _ f _ c ha hi req hs => exact ⟨req, c, hs⟩

theorem Legit.started (h : Legit py a y y') {i : Nat} {k : Kind}
    (hs : y'.state.Logged (.started i k)) : y.state.Logged (.started i k) ∨ a = .spawn i k := by
  refine (h.logged hs).imp_right ?_
  intro hadds
  cases hadds with
  | started _ _ p ha idle clean hs => exact ha

/-- A batch that is new in the log was just committed. -/
theorem Legit.committed (h : Legit py a y y') {i : Nat} {ws : List Write}
    (hw : y'.state.Logged (.committed i ws)) : y.state.Logged (.committed i ws) ∨
      (CommitLegit py i y.state ws ∧ y.state.staged i = ws ∧ Commits y a i ∧
        ∃ r, y'.state = (y.state.commit i).note (.did i .commit r)) := by
  cases h.change with
  | commit j r commits legit hs =>
    rw [hs] at hw
    simp only [Logged, note, commit, endTx, List.mem_cons, reduceCtorEq, Entry.committed.injEq,
      false_or] at hw
    rcases hw with ⟨rfl, rfl⟩ | hw
    · exact .inr ⟨legit, rfl, commits, r, hs⟩
    · exact .inl hw
  | same db log committed => exact .inl (committed i ws hw)

theorem Legit.clock_le (h : Legit py a y y') : y.state.clock ≤ y'.state.clock := by
  cases h with
  | spawn i k s p _ _ _ hs hy =>
    subst hy
    cases k with
    | dispatch n =>
      obtain ⟨⟨msg, b⟩, -, he⟩ := Option.map_eq_some_iff.1 hs
      cases he
      exact le_refl _
    | _ => cases hs; exact le_refl _
  | run i c k op p r s _ _ _ hs hy =>
    subst hy
    refine le_of_eq (Eq.symm ?_)
    by_cases hop : op = .commit
    · subst hop
      rcases exec_commit hs with rfl | ⟨-, rfl⟩ <;> rfl
    · obtain ⟨s₁, hf, rfl⟩ := exec_frame hop hs
      exact hf.clock
  | kill i k p _ _ hy => subst hy; exact le_refl _
  | env e s _ hs hy =>
    subst hy
    cases e with
    | tick d => cases hs; exact Int.le_add_of_nonneg_right (Int.natCast_nonneg d)
    | requeue i => cases hs; exact le_refl _
    | expire n =>
      obtain ⟨b, -, rfl⟩ := Option.map_eq_some_iff.1 hs
      exact le_refl _

theorem Legit.own_spawned {i : Nat} {k : Kind} (hl : Legit py (.spawn i k) y y') :
    y.state.own i = [] := by
  cases hl with
  | spawn j k s p ha hi hidle =>
    cases ha
    exact hidle.1
  | run _ _ _ _ _ _ _ ha | kill _ _ _ ha | env _ _ ha => cases ha

/-! ## Reachable configurations -/

namespace Reachable

theorem good (h : Reachable py A y) : (discipline py).Good (fun _ => Tells) y := by
  obtain ⟨clock, hsteps⟩ := h
  exact (good_init py clock).steps (sound py) (code_safe py A) hsteps

theorem inv (h : Reachable py A y) : Inv y.state := h.good.inv

theorem steps (h : Reachable py A y) (hs : (machine py).Steps A y y') : Reachable py A y' := by
  obtain ⟨clock, h⟩ := h
  exact ⟨clock, h.trans hs⟩

theorem mono {B : Allowed} (hAB : ∀ y a, A y a → B y a) (h : Reachable py A y) :
    Reachable py B y := by
  obtain ⟨clock, h⟩ := h
  exact ⟨clock, h.mono hAB⟩

theorem any (h : Reachable py A y) : Reachable py anyAction y := h.mono fun _ _ _ => trivial

/-- An invariant of the configurations, action by action. -/
theorem invariant {P : Config → Prop} (h : Reachable py A y)
    (h₀ : ∀ clock, P (Config.init clock))
    (hstep : ∀ y y' a, Reachable py A y → Reachable py A y' → P y → A y a → Legit py a y y' →
      P y') : P y := by
  obtain ⟨clock, hsteps⟩ := h
  apply hsteps.invariant (h₀ clock)
  intro y y' a hy hP ha hs
  have hr : Reachable py A y := ⟨clock, hy⟩
  exact hstep y y' a hr ⟨clock, hy.step a ha hs⟩ hP ha (hr.good.legit (sound py) hs)

/-- An invariant of what follows a reachable configuration. -/
theorem later {P : Config → Prop} (h : Reachable py A y) (hs : (machine py).Steps A y y')
    (h₀ : P y)
    (hstep : ∀ y y' a, Reachable py A y → Reachable py A y' → P y → A y a → Legit py a y y' →
      P y') : P y' := by
  apply hs.invariant h₀
  intro y₁ y₂ a hy hP ha hst
  have hr := h.steps hy
  exact hstep y₁ y₂ a hr (h.steps (hy.step a ha hst)) hP ha (hr.good.legit (sound py) hst)

/-- **An invariant of the tables**, commit by commit. -/
theorem tables {P : World → Prop} (h : Reachable py A y) (h₀ : ∀ clock, P (World.init clock))
    (hsame : ∀ s s', s'.db = s.db → s.log <:+ s'.log →
      (∀ i ws, s'.Logged (.committed i ws) → s.Logged (.committed i ws)) → P s → P s')
    (hcommit : ∀ i s r, Inv s → CommitLegit py i s (s.staged i) → P s →
      P ((s.commit i).note (.did i .commit r))) : P y.state := by
  refine h.invariant (P := fun y => P y.state) h₀ ?_
  intro y y' a hr _ hP _ hl
  cases hl.change with
  | commit i r _ legit hs =>
    rw [hs]
    exact hcommit i _ r hr.inv legit hP
  | same db log committed => exact hsame _ _ db log committed hP

theorem evolves (h : Reachable py A y) (hs : (machine py).Steps A y y') :
    Evolves y.state y'.state :=
  h.later (P := fun y' => Evolves y.state y'.state) hs (Evolves.refl _)
    fun _ _ _ hr _ hP _ hl => hP.trans (hl.evolves (sound py) hr.inv)

theorem persistent {P : World → Prop} [hP : (discipline py).Persistent P]
    (h : Reachable py A y) (hs : (machine py).Steps A y y') (hy : P y.state) : P y'.state :=
  hP.persistent _ _ (h.evolves hs) hy

theorem req {i : Nat} {k : Kind} {op : Op} {f : Except Exc (Res op) → App Reply}
    (h : Reachable py A y) (hi : y.procs i = .running k (.call op f)) : Req py i op y.state :=
  (h.good.safe i k _ hi y.state (Rely.refl i _) h.inv).1

theorem commitLegit {i : Nat} (h : Reachable py A y) (hc : Commits y a i) :
    CommitLegit py i y.state (y.state.staged i) := by
  obtain ⟨k, f, c, -, hi, -⟩ := hc
  exact (h.req hi).2.2

theorem clock_le (h : Reachable py A y) (hs : (machine py).Steps A y y') :
    y.state.clock ≤ y'.state.clock :=
  h.later (P := fun y' => y.state.clock ≤ y'.state.clock) hs (le_refl _)
    fun _ _ _ _ _ hP _ hl => hP.trans hl.clock_le

/-- A process that has returned tells the truth. -/
theorem returned {i : Nat} {k : Kind} {reply : Reply} (h : Reachable py A y)
    (hi : y.procs i = .running k (.ret reply)) : Tells k (.ok reply) y.state :=
  h.good.safe i k _ hi y.state (Rely.refl i _) h.inv

theorem raised {i : Nat} {k : Kind} {e : Exc} (h : Reachable py A y)
    (hi : y.procs i = .running k (.raise e)) : Tells k (.error e) y.state :=
  h.good.safe i k _ hi y.state (Rely.refl i _) h.inv

/-- What a process makes sure of when it starts holds when it ends. -/
theorem ended_of_safe {i : Nat} {k : Kind} {p : App Reply} {R : Except Exc Reply → World → Prop}
    (h : Reachable py A y) (hi : y.procs i = .running k p)
    (hR : (discipline py).Safe i R p y.state) (hs : (machine py).Steps A y y') :
    (∀ reply, y'.procs i = .running k (.ret reply) → R (.ok reply) y'.state) ∧
      ∀ e, y'.procs i = .running k (.raise e) → R (.error e) y'.state := by
  have hrefl : Rely i y'.state y'.state := Rely.refl i _
  have hinv := (h.steps hs).inv
  rcases h.good.safe_later (sound py) (code_safe py A) hi hR hs with hk | ⟨p', hp', hsafe⟩
  · exact ⟨fun _ he => (by rw [hk] at he; cases he), fun _ he => by rw [hk] at he; cases he⟩
  · rw [hp']
    exact ⟨fun _ he => (by cases he; exact hsafe _ hrefl hinv),
      fun _ he => by cases he; exact hsafe _ hrefl hinv⟩

theorem spawned {i : Nat} {k : Kind} (h : Reachable py A y)
    (hs : (machine py).step (.spawn i k) y = some y') : ∃ p,
      World.start py i k y.state = some (y'.state, p) ∧ y'.procs i = .running k p ∧
      Fresh i k y'.state ∧ Inv y'.state := by
  have hl := h.good.legit (sound py) hs
  have hinv := hl.inv (sound py) h.inv
  cases hl with
  | spawn j k' s p e _ hidle hst hy =>
    cases e
    subst hy
    exact ⟨p, hst, Function.update_self .., start_fresh hidle hst, hinv⟩
  | run _ _ _ _ _ _ _ e | kill _ _ _ e | env _ _ e => cases e

end Reachable

theorem Legit.persistent {P : World → Prop} [hP : (discipline py).Persistent P]
    (h : Legit py a y y') (hr : Reachable py A y) (hy : P y.state) : P y'.state :=
  hP.persistent _ _ (h.evolves (sound py) hr.inv) hy

/-- Whose turn an action is, for process `i`. -/
inductive Turns (py : Platform) (y y' : Config) (i : Nat) : Prop where
  | others (rely : Rely i y.state y'.state) (proc : y'.procs i = y.procs i)
  | spawn (k : Kind) (p : App Reply) (clean : (discipline py).idle i y.state)
      (hs : World.start py i k y.state = some (y'.state, p))
  | run (k : Kind) (op : Op) (f : Except Exc (Res op) → App Reply) (r : Except Exc (Res op))
      (c : Choice) (hi : y.procs i = .running k (.call op f)) (req : Req py i op y.state)
      (hs : World.exec i op c y.state = some (r, y'.state))
  | killed (k : Kind) (proc : y'.procs i = .killed k)

/-- It is the turn of `i`, or what `i` relies on is kept. -/
theorem Legit.turns (h : Legit py a y y') (hr : Reachable py A y) (i : Nat) :
    Turns py y y' i := by
  have hothers : (∀ k, a ≠ .spawn i k) → (∀ c, a ≠ .run i c) → a ≠ .kill i → Turns py y y' i := by
    intro hspawn hrun hkill
    obtain ⟨hrely, hproc⟩ := h.rely (sound py) hr.inv hspawn hrun hkill
    exact .others hrely hproc
  cases h with
  | spawn j k s p ha _ hidle hs hy =>
    by_cases hij : j = i
    · subst hij hy
      exact .spawn k p hidle hs
    · exact hothers (fun _ he => hij (Action.spawn.inj (ha.symm.trans he)).1)
        (by simp [ha]) (by simp [ha])
  | run j c k op f r s ha hj hreq hs hy =>
    by_cases hij : j = i
    · subst hij hy
      exact .run k op f r c hj hreq hs
    · exact hothers (by simp [ha]) (fun _ he => hij (Action.run.inj (ha.symm.trans he)).1)
        (by simp [ha])
  | kill j k p ha _ hy =>
    by_cases hij : j = i
    · subst hij hy
      exact .killed k (Function.update_self ..)
    · exact hothers (by simp [ha]) (by simp [ha])
        (fun he => hij (Action.kill.inj (ha.symm.trans he)))
  | env e s ha _ _ => exact hothers (by simp [ha]) (by simp [ha]) (by simp [ha])

/-! ## A run -/

theorem reachable_of_run {acts : List (Action Choice Kind Env)} {clock : Time}
    (hA : (machine py).AllowedActions A acts (Config.init clock))
    (h : (machine py).runActions acts (Config.init clock) = some y) : Reachable py A y :=
  ⟨clock, Machine.steps_of_runActions hA h⟩

/-- A list of actions leads through what its first part leads to. -/
theorem reachable_of_runs (acts acts' : List (Action Choice Kind Env)) {clock : Time}
    (hA : (machine py).AllowedActions A (acts ++ acts') (Config.init clock))
    (h : ((machine py).runActions (acts ++ acts') (Config.init clock)).isSome = true) :
    ∃ y y', (machine py).runActions acts (Config.init clock) = some y ∧
      (machine py).runActions (acts ++ acts') (Config.init clock) = some y' ∧
      Reachable py A y ∧ (machine py).Steps A y y' := by
  obtain ⟨y', hy'⟩ := Option.isSome_iff_exists.1 h
  obtain ⟨y, hy, hrest⟩ := Option.bind_eq_some_iff.1 (Machine.runActions_append.symm.trans hy')
  obtain ⟨h₁, h₂⟩ := hA.append hy
  exact ⟨y, y', hy, hy', reachable_of_run h₁ hy, Machine.steps_of_runActions h₂ hrest⟩

/-- A standard library for sample runs: every url is fine and no host is an address. -/
def samplePlatform : Platform where
  urlparse _ := some ⟨"https", none, none, some "shop.example"⟩
  isGlobal _ := none
  isoformat _ := "1970-01-01T00:00:00+00:00"
  render _ := ""
  serializable _ := true
  successRate := .finite (9 / 10)

/-- A request. -/
def sampleCommand : CreatePaymentInput where
  amount := .finite false 1050 (-2)
  currency := "EUR"
  description := "order"
  metadata := JsonObject.empty
  webhookUrl := "https://shop.example/hook"
  idempotencyKey := "order-1"

/-- Process `i` performs `n` operations, none of which fails. -/
def performs (i n : Nat) : List (Action Choice Kind Env) := List.replicate n (.run i {})

/-- Process `i` creates a payment and its event with these ids. -/
def creates (i : Nat) (paymentId eventId : UUID) : List (Action Choice Kind Env) :=
  [.spawn i (.createPayment sampleCommand), .run i {}, .run i { uuid := paymentId }, .run i {},
    .run i { uuid := eventId }] ++ performs i 3

/-- A payment is created and processed. -/
def sampleRun : List (Action Choice Kind Env) :=
  creates 0 (UUID.ofNat 1) (UUID.ofNat 2) ++
    .spawn 1 (.processPayment (UUID.ofNat 1) (some (UUID.ofNat 2))) :: performs 1 24

/-- What the sample run leads to. -/
def sampleEnd : Option Config := (machine samplePlatform).runActions sampleRun (Config.init 0)

theorem reachable_sample {y : Config} (h : sampleEnd = some y) :
    Reachable samplePlatform anyAction y :=
  reachable_of_run (Machine.AllowedActions.any (fun _ _ => trivial) ..) h

end PaymentProcessing
