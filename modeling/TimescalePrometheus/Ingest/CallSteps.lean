import TimescalePrometheus.Ingest.Handovers

/-!
The steps of the `InsertData` calls keep the invariant.
-/

namespace TimescalePrometheus.Ingest.CallSteps

open Ingest.Samples Ingest.SeriesIds Ingest.Pipeline Ingest.Custody Ingest.Handovers Lib.Tokens

variable {hand : List Task} {s s' : State}

theorem advance_inv {i : Nat} {c c' : Call} (hinv : Inv hand s) (hi : s.calls[i]? = some c)
    (hrequests : c'.requests = c.requests) (hoffered : c'.offered = c.offered)
    (hfinished : c'.finished = c.finished) (hunsent : unsent c' = unsent c)
    (htarget : ∀ k r rest, c'.phase = .delivering k r rest →
      ∃ h : Handler, s.handlers[k]? = some h ∧ h.metric = r.task.metric)
    (herrors : ErrorKept c') (hpast : pastWait c'.phase = true → c'.finished = 0)
    (hclosed : c'.closed = true → pastWait c'.phase = true) : Inv hand (setCall s i c') := by
  have hok := hinv.calls i c hi
  refine setCall_inv hinv hi hrequests (fun h => hoffered.trans h) hfinished hunsent
    ⟨?_, ?_, ?_, htarget, herrors, hpast, hclosed⟩
  · rw [hrequests]
    exact hok.own
  · rw [hrequests]
    exact hok.nodup
  · rw [hunsent, hrequests]
    exact hok.unsent

theorem finish_inv {i : Nat} (hinv : Inv hand s) (h : s.finish i = some s') : Inv hand s' := by
  obtain ⟨c, hi, hcases⟩ := finish_cases h
  have hok := hinv.calls i c hi
  have herrors := hok.errors
  unfold ErrorKept at herrors
  obtain ⟨hp, hzero, rfl⟩ | ⟨hp, rfl⟩ | ⟨err, hp, rfl⟩ := hcases <;> rw [hp] at herrors
  · exact advance_inv hinv hi rfl rfl rfl (by simp [unsent, hp]) (by simp) herrors
      (fun _ => hzero) (fun _ => rfl)
  · exact advance_inv hinv hi rfl rfl rfl (by simp [unsent, hp]) (by simp) herrors
      (fun _ => hok.finished (by rw [hp]; rfl)) (fun _ => rfl)
  · exact advance_inv hinv hi rfl rfl rfl (by simp [unsent, hp]) (by simp) herrors
      (fun _ => hok.finished (by rw [hp]; rfl)) (fun _ => rfl)

theorem getMetricInserter_inv {i : Nat} (hinv : Inv hand s)
    (h : s.getMetricInserter i = some s') : Inv hand s' := by
  obtain ⟨c, request, rest, hi, hp, rfl⟩ := getMetricInserter_cases h
  have hok := hinv.calls i c hi
  have herrors := hok.errors
  unfold ErrorKept at herrors
  rw [hp] at herrors
  have hclosed : c.closed = true → pastWait c.phase = true := hok.closed
  rw [hp] at hclosed
  have hrequest : request ∈ c.requests := hok.unsent request (by simp [unsent, hp])
  have hcall : request.task.call = i := hok.own request hrequest
  by_cases hlt : s.handlers.findIdx (·.metric = request.task.metric) < s.handlers.length
  · simp only [hlt, if_true]
    refine advance_inv hinv hi rfl rfl rfl (by simp [unsent, hp]) (fun k r more heq => ?_)
      herrors (fun h => absurd h (by simp [pastWait])) hclosed
    obtain ⟨rfl, rfl, _⟩ := CallPhase.delivering.inj heq
    refine ⟨_, List.getElem?_eq_getElem hlt, ?_⟩
    exact of_decide_eq_true (List.findIdx_getElem (w := hlt))
  · simp only [hlt, if_false]
    have hlength : s.handlers.findIdx (·.metric = request.task.metric) = s.handlers.length :=
      le_antisymm List.findIdx_le_length (not_lt.mp hlt)
    have hnew : ∀ h ∈ s.handlers, h.metric ≠ request.task.metric := by
      intro h hh
      exact of_decide_eq_false (List.findIdx_eq_length.mp hlength h hh)
    have htask : ⟨i, request.task.metric⟩ ∈ s.calls.flatMap callTasks := by
      refine List.mem_flatMap.mpr ⟨c, List.mem_of_getElem? hi, ?_⟩
      rw [callTasks, unsent, hp]
      exact List.mem_cons.mpr (.inl (by rw [← hcall]))
    refine advance_inv (start_inv hinv hnew htask) hi rfl rfl rfl (by simp [unsent, hp])
      (fun k r more heq => ?_) herrors (fun h => absurd h (by simp [pastWait])) hclosed
    obtain ⟨rfl, rfl, _⟩ := CallPhase.delivering.inj heq
    refine ⟨.start request.task.metric i, ?_, rfl⟩
    rw [hlength]
    exact List.getElem?_concat_length

section Send

variable {i k : Nat} {c : Call} {h : Handler} {request : Request} {rest : List Request}

/-- The call and the handler after a request has been sent. -/
def sent (c : Call) (rest : List Request) : Call := { c with phase := .sending rest }

def delivered (h : Handler) (request : Request) : Handler :=
  { h with input := h.input ++ [request] }

theorem callTasks_sent (hp : c.phase = .delivering k request rest) :
    callTasks c = request.task :: callTasks (sent c rest) := by
  simp only [callTasks, unsent, hp, List.map_cons, sent]

theorem callOk_sent (hok : CallOk s i c) (hp : c.phase = .delivering k request rest) :
    CallOk s i (sent c rest) := by
  have herrors := hok.errors
  unfold ErrorKept at herrors
  rw [hp] at herrors
  refine ⟨hok.own, hok.nodup, fun r hr => hok.unsent r ?_, by simp [sent], herrors,
    by simp [sent, pastWait], fun hclosed => ?_⟩
  · simp only [unsent, hp]
    exact List.mem_cons_of_mem _ hr
  · exact absurd (hok.closed hclosed) (by simp [hp, pastWait])

theorem startOk_sent (hinv : Inv hand s) (hi : s.calls[i]? = some c)
    (hk : s.handlers[k]? = some h) (hp : c.phase = .delivering k request rest)
    (hmetric : h.metric = request.task.metric) {n : Nat} {x : Handler}
    (hx : (s.handlers.set k (delivered h request))[n]? = some x) :
    StartOk { s with calls := s.calls.set i (sent c rest) } x := by
  have hcalls : ∀ {t : Task}, t ∈ s.calls.flatMap callTasks →
      t = request.task ∨ t ∈ (s.calls.set i (sent c rest)).flatMap callTasks := by
    intro t ht
    rcases mem_flatMap_set callTasks hi (sent c rest) ht with ht | ht
    · exact .inr ht
    · rw [callTasks_sent hp] at ht
      refine (List.mem_cons.mp ht).imp_right fun ht => List.mem_flatMap.mpr ⟨_, ?_, ht⟩
      exact List.mem_of_getElem? (getElem?_set_self_of_some hi _)
  intro creator hcreator
  rcases getElem?_set_cases hx with ⟨rfl, rfl⟩ | ⟨hne, hx⟩
  · rcases List.mem_append.mp (hinv.starts n h hk creator hcreator) with ht | ht
    · rcases hcalls ht with ht | ht
      · refine List.mem_append_right _ ?_
        simp only [delivered, List.map_append, List.mem_append]
        exact .inr (List.mem_singleton.mpr ht)
      · exact List.mem_append_left _ ht
    · refine List.mem_append_right _ ?_
      simp only [delivered, List.map_append, List.mem_append]
      exact .inl ht
  · rcases List.mem_append.mp (hinv.starts n x hx creator hcreator) with ht | ht
    · rcases hcalls ht with ht | ht
      · have hsame : x.metric = h.metric := (congrArg Task.metric ht).trans hmetric.symm
        exact absurd (hinv.metrics n k x h hx hk hsame) hne
      · exact List.mem_append_left _ ht
    · exact List.mem_append_right _ ht

theorem sent_inv (hinv : Inv hand s) (hi : s.calls[i]? = some c) (hk : s.handlers[k]? = some h)
    (hp : c.phase = .delivering k request rest) :
    Inv hand { s with
      calls := s.calls.set i (sent c rest)
      handlers := s.handlers.set k (delivered h request) } := by
  have hok := hinv.calls i c hi
  have hrequest : request ∈ c.requests := hok.unsent request (by simp [unsent, hp])
  have hmetric : h.metric = request.task.metric := by
    obtain ⟨h', hk', hmetric⟩ := hok.target k request rest hp
    rw [← Option.some.inj (hk'.symm.trans hk)]
    exact hmetric
  have hcall : Grows s (setCall s i (sent c rest)) := grows_setCall hi rfl id
  have hhandler : Grows (setCall s i (sent c rest))
      (State.setHandler (setCall s i (sent c rest)) k (delivered h request)) :=
    grows_setHandler hk rfl fun _ => id
  have hgrows := hcall.trans hhandler
  have hissued : issued (setCall s i (sent c rest)) = issued s := issued_setCall hi rfl
  refine hinv.changes hgrows ⟨fun n x hx => ?_, fun n x hx => ?_, fun _ => .inl, fun _ => .inl,
    fun _ => .inl, fun _ => .inl⟩ hinv.panic ?_ (fun n x hx => ?_) (metrics_set hinv hk rfl)
    (fun n x hx => startOk_sent hinv hi hk hp hmetric hx)
  · rcases getElem?_set_cases hx with ⟨rfl, rfl⟩ | ⟨_, hx⟩
    · exact .inr ((callOk_sent hok hp).mono hgrows)
    · exact .inl hx
  · rcases getElem?_set_cases hx with ⟨rfl, rfl⟩ | ⟨_, hx⟩
    · refine .inr ⟨fun r hr => ?_, (hinv.phases n h hk).mono hgrows⟩
      rcases List.mem_append.mp hr with hr | hr
      · exact (hinv.inputs n h hk).mono hgrows r hr
      · rw [List.mem_singleton.mp hr]
        exact ⟨Issued.mono hgrows ⟨c, by rw [hok.own request hrequest, hi], hrequest⟩,
          hmetric.symm⟩
    · exact .inl hx
  · change Balanced (issued (setCall s i (sent c rest))) _ _
    rw [hissued]
    refine hinv.balanced.move fun x => ?_
    have hcalls := count_flatMap_set callTasks hi (sent c rest) x
    have hhandlers := count_flatMap_set handlerTasks hk (delivered h request) x
    rw [callTasks_sent hp] at hcalls
    simp only [handlerTasks, delivered, List.map_append, List.map_singleton, List.count_append,
      List.count_cons, List.count_nil] at hcalls hhandlers
    simp only [held, delivered, List.count_append]
    omega
  · change _ = (issued (setCall s i (sent c rest))).countP _
    rw [hissued]
    rcases getElem?_set_cases hx with ⟨rfl, rfl⟩ | ⟨_, hx⟩
    · exact hinv.counters n c hi
    · exact hinv.counters n x hx

theorem send_inv (hinv : Inv hand s) (h : s.send i = some s') : Inv hand s' := by
  obtain ⟨c, k, request, rest, x, hi, hp, hk, -, rfl⟩ := send_cases h
  exact sent_inv hinv hi hk hp

end Send

/-- The call that `InsertData` makes of a map, as the `i`th one. -/
def newCall (i : Nat) (rows : Rows) : Call :=
  let requests := rows.entries.map fun entry => ⟨⟨i, entry.1⟩, entry.2⟩
  ⟨requests, .sending requests, 0, requests.length, none, false, false⟩

def newTasks (i : Nat) (rows : Rows) : List Task := rows.entries.map fun entry => ⟨i, entry.1⟩

theorem tasks_newCall (i : Nat) (rows : Rows) :
    (newCall i rows).requests.map (·.task) = newTasks i rows := by
  simp [newCall, newTasks]

theorem nodup_newTasks (i : Nat) (rows : Rows) : (newTasks i rows).Nodup := by
  have hmap : newTasks i rows = (rows.entries.map (·.1)).map (Task.mk i) := by simp [newTasks]
  rw [hmap]
  exact rows.nodup.map fun a b h => (Task.mk.inj h).2

theorem callOk_newCall (i : Nat) (rows : Rows) : CallOk s i (newCall i rows) := by
  refine ⟨?_, ?_, fun r hr => hr, by simp [newCall], by simp [ErrorKept, newCall],
    by simp [newCall, pastWait], by simp [newCall]⟩
  · intro r hr
    obtain ⟨entry, _, rfl⟩ := List.mem_map.mp hr
    rfl
  · rw [tasks_newCall]
    exact nodup_newTasks i rows

theorem countP_newTasks (i n : Nat) (rows : Rows) :
    (newTasks i rows).countP (·.call = n) = if i = n then rows.entries.length else 0 := by
  unfold newTasks
  rw [List.countP_map]
  split
  · rename_i h
    simp [Function.comp_def, h]
  · rename_i h
    simp [Function.comp_def, h]

theorem insertData_inv (rows : Rows) (hinv : Inv hand s) : Inv hand (s.insertData rows) := by
  have hcalls : (s.insertData rows).calls = s.calls ++ [newCall s.calls.length rows] := rfl
  have hissued : issued (s.insertData rows) = issued s ++ newTasks s.calls.length rows := by
    rw [issued, hcalls, List.flatMap_append, List.flatMap_singleton, tasks_newCall]
    rfl
  have hold : ∀ t ∈ issued s, t.call < s.calls.length := by
    intro t ht
    obtain ⟨c, hc, _⟩ := hinv.exists_call ht
    exact (List.getElem?_eq_some_iff.mp hc).1
  have hgrows : Grows s (s.insertData rows) :=
    { Grows.refl s with
      calls := fun i c hc => ⟨c,
        (List.getElem?_append_left (List.getElem?_eq_some_iff.mp hc).1).trans hc, rfl, id⟩ }
  refine hinv.changes hgrows ⟨fun i c hc => ?_, fun _ _ => .inl, fun _ => .inl, fun _ => .inl,
    fun _ => .inl, fun _ => .inl⟩ hinv.panic ?_ (fun i c hc => ?_) hinv.metrics
    (fun k h hk creator hcreator => ?_)
  · rcases getElem?_concat_cases hc with ⟨rfl, rfl⟩ | hc
    · exact .inr (callOk_newCall _ rows)
    · exact .inl hc
  · rw [hissued]
    refine hinv.balanced.issue (nodup_newTasks _ rows) (fun t ht hmem => ?_) (fun x => ?_)
    · obtain ⟨entry, _, rfl⟩ := List.mem_map.mp ht
      exact absurd (hold _ hmem) (lt_irrefl _)
    · have hnew : callTasks (newCall s.calls.length rows) = newTasks s.calls.length rows :=
        tasks_newCall _ rows
      simp only [held, hcalls, List.flatMap_append, List.flatMap_singleton, List.count_append, hnew]
      simp only [State.insertData]
      omega
  · change c.finished + s.answered.countP _ = _
    rw [hissued, List.countP_append, countP_newTasks]
    rcases getElem?_concat_cases hc with ⟨rfl, rfl⟩ | hc
    · have hnone : ∀ l : List Task, (∀ t ∈ l, t ∈ issued s) →
          l.countP (·.call = s.calls.length) = 0 := by
        intro l hl
        refine List.countP_eq_zero.mpr fun t ht => ?_
        have hlt := hold t (hl t ht)
        simp only [decide_eq_true_eq]
        omega
      rw [hnone s.answered fun t => hinv.balanced.mem_issued_of_answered, hnone _ fun _ => id,
        if_pos rfl]
      simp
    · have hlt := (List.getElem?_eq_some_iff.mp hc).1
      rw [if_neg (by omega)]
      exact hinv.counters i c hc
  · rw [hcalls, List.flatMap_append]
    rcases List.mem_append.mp (hinv.starts k h hk creator hcreator) with ht | ht
    · exact List.mem_append_left _ (List.mem_append_left _ ht)
    · exact List.mem_append_right _ ht

end TimescalePrometheus.Ingest.CallSteps
