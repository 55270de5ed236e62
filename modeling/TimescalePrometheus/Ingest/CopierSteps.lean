import TimescalePrometheus.Ingest.Handovers

/-!
The steps of the copiers keep the invariant.
-/

namespace TimescalePrometheus.Ingest.CopierSteps

open Ingest.Samples Ingest.SeriesIds Ingest.Pipeline Ingest.Custody Ingest.Handovers Lib.Tokens

variable {hand : List Task} {s s' : State}

theorem take_inv {j : Nat} (hinv : Inv hand s) (h : s.take j = some s') : Inv hand s' := by
  obtain ⟨req, rest, hj, hqueue, rfl⟩ := take_cases h
  have hok := hinv.toCopiers req (by rw [hqueue]; exact List.mem_cons_self)
  have htake : Inv (req.data.needsResponse ++ hand) { s with toCopiers := rest } := by
    refine setToCopiers_inv hinv (fun x => ?_) (fun r hr => .inl ?_)
    · simp only [hqueue, List.flatMap_cons, List.count_append]
      omega
    · rw [hqueue]
      exact List.mem_cons_of_mem _ hr
  refine setCopier_inv htake hj (fun x => ?_) (CopyOk.mono { Grows.refl s with } hok)
  simp only [copierTasks, List.count_append, List.count_nil]
  omega

theorem rowsOf_eq {req : CopyRequest} (h : AtStart req.data.batch) :
    ∃ req', rowsOf req = .ok (req.data.batch.sampleInfos.flatMap (·.rows), req') ∧
      req'.table = req.table ∧ req'.data.needsResponse = req.data.needsResponse ∧
      req'.data.batch.sampleInfos = req.data.batch.sampleInfos := by
  obtain ⟨batch, hrows, hbatch⟩ := batchRows_eq h
  refine ⟨{ req with data := { req.data with batch } }, ?_, rfl, rfl, hbatch⟩
  simp only [rowsOf, hrows, length_flatMap_rows, ne_eq, not_true_eq_false, if_false]

theorem Loaded.insertedTask {table : String} {b : PendingBuffer} {t : Task}
    (h : Loaded s (Stores s · table) b) (ht : t ∈ b.needsResponse)
    (hinserted : ⟨table, b.batch.sampleInfos, b.batch.sampleInfos.flatMap (·.rows)⟩ ∈ s.inserted) :
    InsertedTask s t := by
  obtain ⟨reqs, hreqs, htasks, hdata⟩ := h
  rw [htasks] at ht
  obtain ⟨r, hr, rfl⟩ := List.mem_map.mp ht
  refine ⟨r, (hreqs r hr).1, rfl, _, hinserted, (hreqs r hr).2, fun info hinfo => ?_⟩
  have hcontent : info.content ∈ b.batch.sampleInfos.map (·.content) := by
    rw [hdata]
    exact List.mem_flatMap.mpr ⟨r, hr, List.mem_map_of_mem hinfo⟩
  obtain ⟨info', hinfo', hsame⟩ := List.mem_map.mp hcontent
  exact ⟨info', hinfo', hsame, fun row hrow => List.mem_flatMap.mpr ⟨info', hinfo', hrow⟩⟩

theorem insert_step_inv {j : Nat} {c : Copier} {req : CopyRequest} {reply : Option Err}
    {failed : CopyRequest → Err → Copier} (hinv : Inv hand s) (hj : s.copiers[j]? = some c)
    (hc : copierTasks c = req.data.needsResponse) (hok : CopyOk s req)
    (hfailed : ∀ req' err, req'.table = req.table →
      req'.data.needsResponse = req.data.needsResponse →
      req'.data.batch.sampleInfos = req.data.batch.sampleInfos →
        CopierOk s (failed req' err) ∧ copierTasks (failed req' err) = req.data.needsResponse) :
    Inv hand (s.insert j req reply failed) := by
  obtain ⟨req', hrows, htable, hneeds, hinfos⟩ := rowsOf_eq hok.2
  simp only [State.insert, hrows]
  cases reply with
  | some err =>
    obtain ⟨hok', htasks⟩ := hfailed req' err htable hneeds hinfos
    exact setCopier_inv hinv hj (fun x => by rw [htasks, hc]) hok'
  | none =>
    have hinsert := insert_inv hinv ⟨req'.table, req'.data.batch.sampleInfos,
      req.data.batch.sampleInfos.flatMap (·.rows)⟩
    have hgrows := grows_insert (s := s) ⟨req'.table, req'.data.batch.sampleInfos,
      req.data.batch.sampleInfos.flatMap (·.rows)⟩
    refine setCopier_inv hinsert hj (fun x => by rw [hc, ← hneeds]; rfl) ?_
    intro t ht
    rw [hneeds] at ht
    refine Loaded.insertedTask (hok.1.mono hgrows fun _ => Stores.mono hgrows) ht ?_
    rw [htable, hinfos]
    exact List.mem_cons_self

theorem doInsert_inv {j : Nat} {reply : Option Err} (hinv : Inv hand s)
    (h : s.doInsert j reply = some s') : Inv hand s' := by
  obtain ⟨req, hj, rfl⟩ | ⟨req, hj, rfl⟩ := doInsert_cases h
  · have hok : CopyOk s req := hinv.copiers _ (List.mem_of_getElem? hj)
    refine insert_step_inv hinv hj rfl hok fun req' err htable hneeds hinfos => ⟨?_, hneeds⟩
    obtain ⟨reqs, hreqs, htasks, hdata⟩ := hok.1
    refine ⟨reqs, ?_, hneeds.trans htasks, ?_⟩
    · rw [htable]
      exact hreqs
    · rw [hinfos]
      exact hdata
  · have hok : CopyOk s req := hinv.copiers _ (List.mem_of_getElem? hj)
    exact insert_step_inv hinv hj rfl hok fun req' err _ hneeds _ =>
      ⟨fun hnext => absurd hnext (by simp), hneeds⟩

theorem tryRecovery_inv {j : Nat} {reply : Option Err} (hinv : Inv hand s)
    (h : s.tryRecovery j reply = some s') : Inv hand s' := by
  obtain ⟨req, err, hj, ⟨-, -, rfl⟩ | ⟨-, rfl⟩⟩ := tryRecovery_cases h
  · have hok := hinv.copiers _ (List.mem_of_getElem? hj)
    exact setCopier_inv hinv hj (fun _ => rfl) ⟨hok, rfl⟩
  · exact setCopier_inv hinv hj (fun _ => rfl) fun hnext => absurd hnext (by simp)

theorem copierReport_inv {j : Nat} (hinv : Inv hand s) (h : s.copierReport j = some s') :
    Inv hand s' := by
  obtain ⟨data, err, next, hj, hcases⟩ := copierReport_cases h
  have hreport : Report s data.needsResponse next err := hinv.copiers _ (List.mem_of_getElem? hj)
  obtain ⟨hneeds, rfl⟩ | ⟨t, rest, hneeds, rfl⟩ := hcases
  · have hpool : Inv hand { s with pool := data.clear :: s.pool } := by
      refine setPool_inv hinv _ fun b hb => ?_
      rcases List.mem_cons.mp hb with rfl | hb
      · exact .inr rfl
      · exact .inl hb
    exact setCopier_inv hpool hj (fun x => by rw [copierTasks, copierTasks, hneeds]) trivial
  · rw [hneeds] at hreport
    have hheld : t ∈ held s := mem_held_copier hj (by simp [copierTasks, hneeds])
    cases next with
    | some e =>
      obtain ⟨hinv', hreport'⟩ := offer_report hinv hheld hreport e
      have hj' : (s.offer t.call e).copiers[j]? = some (.reporting data err (some e)) := by
        rw [copiers_offer, hj]
      exact setCopier_inv hinv' hj' (fun x => by rw [copierTasks, copierTasks, hneeds]; rfl)
        hreport'
    | none =>
      rw [State.respond, setCopier_done]
      have hset : Inv (t :: hand) (s.setCopier j
          (.reporting { data with needsResponse := rest } err err)) := by
        refine setCopier_inv hinv hj (fun x => ?_) (Report.tail hreport)
        simp only [copierTasks, hneeds, List.count_cons]
        omega
      exact (done_inv hset (Settled.mono grows_setCopier (Report.settled hreport))).1

end TimescalePrometheus.Ingest.CopierSteps
