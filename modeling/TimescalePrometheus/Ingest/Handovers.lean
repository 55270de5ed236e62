import TimescalePrometheus.Ingest.Custody

/-!
What each part of a step does to the invariant: a part of the state takes tasks out of
the hand or puts tasks into it, an error is offered, a task is answered.
-/

namespace TimescalePrometheus.Ingest.Handovers

open Ingest.Samples Ingest.SeriesIds Ingest.Pipeline Ingest.Custody Lib.Tokens

variable {hand hand' : List Task} {s : State}

theorem getElem?_set_self_of_some {α : Type} {l : List α} {k : Nat} {a : α} (h : l[k]? = some a)
    (b : α) : (l.set k b)[k]? = some b :=
  List.getElem?_set_self (List.getElem?_eq_some_iff.mp h).1

section Handlers

variable {k : Nat} {h h' : Handler}

theorem grows_setHandler (hk : s.handlers[k]? = some h) (hmetric : h'.metric = h.metric)
    (htable : ∀ table, h.metricTableName = some table → h'.metricTableName = some table) :
    Grows s (s.setHandler k h') := by
  refine { Grows.refl s with handlers := fun i x hx => ?_ }
  rcases eq_or_ne i k with rfl | hne
  · have hx : h = x := by simpa [hk] using hx
    subst hx
    exact ⟨h', getElem?_set_self_of_some hk h', hmetric, htable⟩
  · exact ⟨x, (List.getElem?_set_ne hne.symm).trans hx, rfl, fun _ => id⟩

theorem metrics_set (hinv : Inv hand s) (hk : s.handlers[k]? = some h)
    (hmetric : h'.metric = h.metric) (i j : Nat) (x y : Handler)
    (hx : (s.handlers.set k h')[i]? = some x) (hy : (s.handlers.set k h')[j]? = some y)
    (hsame : x.metric = y.metric) : i = j := by
  have hold : ∀ {i : Nat} {x : Handler}, (s.handlers.set k h')[i]? = some x →
      ∃ y, s.handlers[i]? = some y ∧ y.metric = x.metric := by
    intro i x hx
    rcases getElem?_set_cases hx with ⟨rfl, rfl⟩ | ⟨_, hx⟩
    · exact ⟨h, hk, hmetric.symm⟩
    · exact ⟨x, hx, rfl⟩
  obtain ⟨x', hx', hxm⟩ := hold hx
  obtain ⟨y', hy', hym⟩ := hold hy
  exact hinv.metrics i j x' y' hx' hy' (hxm.trans (hsame.trans hym.symm))

theorem setHandler_inv (hinv : Inv hand s) (hk : s.handlers[k]? = some h)
    (hmetric : h'.metric = h.metric)
    (htable : ∀ table, h.metricTableName = some table → h'.metricTableName = some table)
    (htasks : ∀ x, hand'.count x + (handlerTasks h').count x =
      hand.count x + (handlerTasks h).count x)
    (hinput : InputOk s h') (hphase : PhaseOk s h')
    (hstart : ∀ i, creator? h'.phase = some i → creator? h.phase = some i ∧ h'.input = h.input) :
    Inv hand' (s.setHandler k h') := by
  have hgrows := grows_setHandler hk hmetric htable
  refine hinv.changes hgrows ⟨fun _ _ => .inl, fun i x hx => ?_, fun _ => .inl, fun _ => .inl,
    fun _ => .inl, fun _ => .inl⟩ hinv.panic (hinv.balanced.move fun x => ?_) hinv.counters
    (metrics_set hinv hk hmetric) (fun i x hx => ?_)
  · rcases getElem?_set_cases hx with ⟨_, rfl⟩ | ⟨_, hx⟩
    · exact .inr ⟨hinput.mono hgrows, hphase.mono hgrows⟩
    · exact .inl hx
  · have hcount := count_flatMap_set handlerTasks hk h' x
    have htask := htasks x
    simp only [held, State.setHandler, List.count_append]
    omega
  · rcases getElem?_set_cases hx with ⟨_, rfl⟩ | ⟨_, hx⟩
    · intro creator hcreator
      obtain ⟨hold, hsame⟩ := hstart creator hcreator
      rw [hmetric, hsame]
      exact hinv.starts k h hk creator hold
    · exact hinv.starts i x hx

end Handlers

section Copiers

variable {j : Nat} {c c' : Copier}

theorem grows_setCopier : Grows s (s.setCopier j c') :=
  { Grows.refl s with }

theorem setCopier_inv (hinv : Inv hand s) (hj : s.copiers[j]? = some c)
    (htasks : ∀ x, hand'.count x + (copierTasks c').count x =
      hand.count x + (copierTasks c).count x)
    (hok : CopierOk s c') : Inv hand' (s.setCopier j c') := by
  have hgrows : Grows s (s.setCopier j c') := grows_setCopier
  refine hinv.changes hgrows ⟨fun _ _ => .inl, fun _ _ => .inl, fun _ => .inl, fun x hx => ?_,
    fun _ => .inl, fun _ => .inl⟩ hinv.panic (hinv.balanced.move fun x => ?_) hinv.counters
    hinv.metrics hinv.starts
  · rcases List.mem_or_eq_of_mem_set hx with hx | rfl
    · exact .inl hx
    · exact .inr (hok.mono hgrows)
  · have hcount := count_flatMap_set copierTasks hj c' x
    have htask := htasks x
    simp only [held, State.setCopier, List.count_append]
    omega

theorem setToCopiers_inv (hinv : Inv hand s) {queue : List CopyRequest}
    (htasks : ∀ x, hand'.count x + (queue.flatMap (·.data.needsResponse)).count x =
      hand.count x + (s.toCopiers.flatMap (·.data.needsResponse)).count x)
    (hqueue : ∀ req ∈ queue, req ∈ s.toCopiers ∨ CopyOk s req) :
    Inv hand' { s with toCopiers := queue } := by
  have hgrows : Grows s { s with toCopiers := queue } := { Grows.refl s with }
  refine hinv.changes hgrows ⟨fun _ _ => .inl, fun _ _ => .inl, fun req hreq => ?_, fun _ => .inl,
    fun _ => .inl, fun _ => .inl⟩ hinv.panic (hinv.balanced.move fun x => ?_) hinv.counters
    hinv.metrics hinv.starts
  · exact (hqueue req hreq).imp_right (·.mono hgrows)
  · have htask := htasks x
    simp only [held, List.count_append]
    omega

theorem setPool_inv (hinv : Inv hand s) {pool : List PendingBuffer} (signal : Bool)
    (hpool : ∀ b ∈ pool, b ∈ s.pool ∨ b = .new) :
    Inv hand { s with pool, completeMetricCreation := signal } :=
  hinv.changes { Grows.refl s with }
    ⟨fun _ _ => .inl, fun _ _ => .inl, fun _ => .inl, fun _ => .inl, hpool, fun _ => .inl⟩
    hinv.panic hinv.balanced hinv.counters hinv.metrics hinv.starts

theorem grows_insert (e : Insert) : Grows s { s with inserted := e :: s.inserted } :=
  { Grows.refl s with inserted := fun _ => List.mem_cons_of_mem e }

theorem insert_inv (hinv : Inv hand s) (e : Insert) :
    Inv hand { s with inserted := e :: s.inserted } :=
  hinv.changes (grows_insert e) ⟨fun _ _ => .inl, fun _ _ => .inl, fun _ => .inl, fun _ => .inl,
    fun _ => .inl, fun _ => .inl⟩ hinv.panic hinv.balanced hinv.counters hinv.metrics hinv.starts

end Copiers

section Calls

variable {i : Nat} {c c' : Call}

def setCall (s : State) (i : Nat) (c : Call) : State := { s with calls := s.calls.set i c }

theorem grows_setCall (hi : s.calls[i]? = some c) (hrequests : c'.requests = c.requests)
    (hoffered : c.offered = true → c'.offered = true) : Grows s (setCall s i c') := by
  refine { Grows.refl s with calls := fun n x hx => ?_ }
  rcases eq_or_ne n i with rfl | hne
  · have hx : c = x := by simpa [hi] using hx
    subst hx
    exact ⟨c', getElem?_set_self_of_some hi c', hrequests, hoffered⟩
  · exact ⟨x, (List.getElem?_set_ne hne.symm).trans hx, rfl, id⟩

theorem issued_setCall (hi : s.calls[i]? = some c) (hrequests : c'.requests = c.requests) :
    issued (setCall s i c') = issued s :=
  flatMap_set_of_eq _ hi (by rw [hrequests])

theorem setCall_inv (hinv : Inv hand s) (hi : s.calls[i]? = some c)
    (hrequests : c'.requests = c.requests) (hoffered : c.offered = true → c'.offered = true)
    (hfinished : c'.finished = c.finished) (hunsent : unsent c' = unsent c)
    (hok : CallOk s i c') : Inv hand (setCall s i c') := by
  have hgrows := grows_setCall hi hrequests hoffered
  have hissued := issued_setCall hi hrequests
  have htasks : (s.calls.set i c').flatMap callTasks = s.calls.flatMap callTasks :=
    flatMap_set_of_eq _ hi (by rw [callTasks, hunsent, callTasks])
  have hheld : held (setCall s i c') = held s := by rw [held, setCall, htasks, held]
  refine hinv.changes hgrows ⟨fun n x hx => ?_, fun _ _ => .inl, fun _ => .inl, fun _ => .inl,
    fun _ => .inl, fun _ => .inl⟩ hinv.panic ?_ (fun n x hx => ?_) hinv.metrics
    (fun k h hk => ?_)
  · rcases getElem?_set_cases hx with ⟨rfl, rfl⟩ | ⟨_, hx⟩
    · exact .inr (hok.mono hgrows)
    · exact .inl hx
  · rw [hissued, hheld]
    exact hinv.balanced
  · rw [hissued]
    rcases getElem?_set_cases hx with ⟨rfl, rfl⟩ | ⟨_, hx⟩
    · rw [hfinished]
      exact hinv.counters n c hi
    · exact hinv.counters n x hx
  · unfold StartOk
    rw [setCall, htasks]
    exact hinv.starts k h hk

theorem start_inv (hinv : Inv hand s) {metric : String}
    (hnew : ∀ h ∈ s.handlers, h.metric ≠ metric)
    (htask : ⟨i, metric⟩ ∈ s.calls.flatMap callTasks) :
    Inv hand { s with handlers := s.handlers ++ [.start metric i] } := by
  have hgrows : Grows s { s with handlers := s.handlers ++ [.start metric i] } :=
    { Grows.refl s with
      handlers := fun k h hk => ⟨h,
        (List.getElem?_append_left (List.getElem?_eq_some_iff.mp hk).1).trans hk, rfl,
        fun _ => id⟩ }
  refine hinv.changes hgrows ⟨fun _ _ => .inl, fun k h hk => ?_, fun _ => .inl, fun _ => .inl,
    fun _ => .inl, fun _ => .inl⟩ hinv.panic (hinv.balanced.move fun x => ?_) hinv.counters
    (fun k k' h h' hk hk' hsame => ?_) (fun k h hk => ?_)
  · rcases getElem?_concat_cases hk with ⟨_, rfl⟩ | hk
    · exact .inr ⟨fun r hr => absurd hr (by simp [Handler.start]), rfl, rfl⟩
    · exact .inl hk
  · simp [held, handlerTasks, Handler.start, PendingBuffer.new, taskInHand]
  · rcases getElem?_concat_cases hk with ⟨rfl, rfl⟩ | hk <;>
      rcases getElem?_concat_cases hk' with ⟨rfl, rfl⟩ | hk'
    · rfl
    · exact absurd hsame.symm (hnew h' (List.mem_of_getElem? hk'))
    · exact absurd hsame (hnew h (List.mem_of_getElem? hk))
    · exact hinv.metrics k k' h h' hk hk' hsame
  · rcases getElem?_concat_cases hk with ⟨_, rfl⟩ | hk
    · intro n hn
      have hn : i = n := Option.some.inj hn
      subst hn
      exact List.mem_append_left _ htask
    · exact hinv.starts k h hk

end Calls

section Answers

variable {t : Task}

theorem offer_inv (hinv : Inv hand s) (ht : t ∈ hand ++ held s) (err : Err) :
    Inv hand (s.offer t.call err) ∧ Grows s (s.offer t.call err) ∧
      Offered (s.offer t.call err) t.call := by
  obtain ⟨c, hc, _, hphase, hclosed⟩ := hinv.live ht
  have hoffer : s.offer t.call err = setCall s t.call
      { c with errChan := some (c.errChan.getD err), offered := true } := by
    simp [State.offer, hc, hclosed, setCall]
  have hok := hinv.calls _ c hc
  rw [hoffer]
  refine ⟨setCall_inv hinv hc rfl (fun _ => rfl) rfl rfl { hok with errors := ?_ },
    grows_setCall hc rfl (fun _ => rfl), _, getElem?_set_self_of_some hc _, rfl⟩
  unfold ErrorKept
  cases hp : c.phase <;> simp [hp, pastWait] at hphase ⊢

theorem done_inv (hinv : Inv (t :: hand) s) (ht : Settled s t) :
    Inv hand (s.done t) ∧ Grows s (s.done t) := by
  obtain ⟨c, hc, hpos, hphase, _⟩ := hinv.live (t := t) (by simp)
  have hdone : s.done t = { setCall s t.call { c with finished := c.finished - 1 } with
      answered := t :: s.answered } := by
    simp [State.done, hc, Nat.ne_of_gt hpos, setCall]
  have hset : Grows s (setCall s t.call { c with finished := c.finished - 1 }) :=
    grows_setCall hc rfl id
  have hgrows : Grows s (s.done t) := by
    rw [hdone]
    exact { hset with }
  have hissued : issued (s.done t) = issued s := by
    rw [hdone]
    exact issued_setCall hc rfl
  have htasks : (s.done t).calls.flatMap callTasks = s.calls.flatMap callTasks := by
    rw [hdone]
    exact flatMap_set_of_eq _ hc rfl
  have hheld : held (s.done t) = held s := by
    unfold held
    rw [htasks, hdone]
    rfl
  have hanswered : (s.done t).answered = t :: s.answered := by rw [hdone]
  have hcases : ∀ {n : Nat} {x : Call}, (s.done t).calls[n]? = some x →
      (n = t.call ∧ x = { c with finished := c.finished - 1 }) ∨
        (n ≠ t.call ∧ s.calls[n]? = some x) := by
    rw [hdone]
    exact getElem?_set_cases
  refine ⟨hinv.changes hgrows ⟨fun n x hx => ?_, ?_, ?_, ?_, ?_, fun x hx => ?_⟩ ?_ ?_
    (fun n x hx => ?_) ?_ (fun k h hk => ?_), hgrows⟩
  · rcases hcases hx with ⟨rfl, rfl⟩ | ⟨hne, hx⟩
    · have hok := (hinv.calls _ c hc).mono hgrows
      exact .inr { hok with finished := fun hpast => absurd hpast (by simp [hphase]) }
    · exact .inl hx
  · rw [hdone]
    exact fun _ _ => .inl
  · rw [hdone]
    exact fun _ => .inl
  · rw [hdone]
    exact fun _ => .inl
  · rw [hdone]
    exact fun _ => .inl
  · rw [hanswered] at hx
    rcases List.mem_cons.mp hx with rfl | hx
    · exact .inr (ht.mono hgrows)
    · exact .inl hx
  · rw [hdone]
    exact hinv.panic
  · rw [hissued, hheld, hanswered]
    refine hinv.balanced.answer fun x => ?_
    have hcount : ([t] ++ (hand ++ held s)).count x = [t].count x + (hand ++ held s).count x :=
      List.count_append
    exact (Nat.add_comm _ _).trans hcount.symm
  · rw [hissued, hanswered]
    rcases hcases hx with ⟨rfl, rfl⟩ | ⟨hne, hx⟩
    · have hcounter := hinv.counters _ c hc
      rw [List.countP_cons_of_pos (by simp)]
      change c.finished - 1 + _ = _
      omega
    · rw [List.countP_cons_of_neg (by simpa using hne.symm)]
      exact hinv.counters n x hx
  · rw [hdone]
    exact hinv.metrics
  · unfold StartOk
    rw [htasks]
    rw [hdone] at hk
    exact hinv.starts k h hk

end Answers

section Reports

theorem loaded_new (p : String → Prop) : Loaded s p .new ∧ AtStart PendingBuffer.new.batch :=
  ⟨⟨[], by simp, rfl, rfl⟩, rfl⟩

@[simp] theorem handlers_offer (i : Nat) (err : Err) : (s.offer i err).handlers = s.handlers := by
  unfold State.offer
  split
  · rfl
  · split <;> rfl

@[simp] theorem copiers_offer (i : Nat) (err : Err) : (s.offer i err).copiers = s.copiers := by
  unfold State.offer
  split
  · rfl
  · split <;> rfl

theorem setHandler_done (t : Task) (k : Nat) (h : Handler) :
    (s.done t).setHandler k h = (s.setHandler k h).done t := by
  unfold State.done State.setHandler
  cases s.calls[t.call]? with
  | none => rfl
  | some c =>
    dsimp only
    split <;> rfl

theorem setCopier_done (t : Task) (j : Nat) (c : Copier) :
    (s.done t).setCopier j c = (s.setCopier j c).done t := by
  unfold State.done State.setCopier
  cases s.calls[t.call]? with
  | none => rfl
  | some c =>
    dsimp only
    split <;> rfl

theorem mem_held_handler {k : Nat} {h : Handler} {t : Task} (hk : s.handlers[k]? = some h)
    (ht : t ∈ handlerTasks h) : t ∈ held s :=
  List.mem_append_right _ (List.mem_append_left _
    (List.mem_flatMap.mpr ⟨h, List.mem_of_getElem? hk, ht⟩))

theorem mem_held_copier {j : Nat} {c : Copier} {t : Task} (hj : s.copiers[j]? = some c)
    (ht : t ∈ copierTasks c) : t ∈ held s :=
  List.mem_append_right _ (List.mem_append_right _ (List.mem_append_right _
    (List.mem_flatMap.mpr ⟨c, List.mem_of_getElem? hj, ht⟩)))

theorem offer_report {err next : Option Err} {t : Task} {rest : List Task} (hinv : Inv hand s)
    (ht : t ∈ held s) (hreport : Report s (t :: rest) next err) (e : Err) :
    Inv hand (s.offer t.call e) ∧ Report (s.offer t.call e) (t :: rest) none err := by
  obtain ⟨hinv', hgrows, hoffered⟩ := offer_inv hinv (List.mem_append_right _ ht) e
  refine ⟨hinv', ?_⟩
  cases err with
  | none => exact fun x hx => (hreport x hx).mono hgrows
  | some err =>
    intro _ x hx
    rw [List.head?_cons, Option.mem_some_iff] at hx
    exact hx ▸ hoffered

theorem Report.settled {err : Option Err} {t : Task} {rest : List Task}
    (h : Report s (t :: rest) none err) : Settled s t := by
  cases err with
  | none => exact .inl (h t List.mem_cons_self)
  | some err => exact .inr (h rfl t rfl)

theorem Report.tail {err next : Option Err} {t : Task} {rest : List Task}
    (h : Report s (t :: rest) next err) : Report s rest err err := by
  cases err with
  | none => exact fun x hx => h x (List.mem_cons_of_mem _ hx)
  | some err => exact fun hnext => absurd hnext (by simp)

end Reports

end TimescalePrometheus.Ingest.Handovers
