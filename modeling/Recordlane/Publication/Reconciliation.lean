import Recordlane.Publication.Serial

/-! A whole reconciliation: the batch shares one commit, and one answer can keep it from being made. -/
namespace Recordlane

variable {self : Publisher} {d d' : Desk} {e event : OutboxRow} {i : Nat} {workspaceId : Id}
  {result : ReconcileResult} {findings : List Finding} {todo : List OutboxRow}
  {answer : Id → ReceiptAnswer}

/-- The answer is one that `reconcile_events` can take: if the status is one of success, the body is a
JSON object or its reading raises a `ValueError`, and an exception is an `httpx.HTTPError`. -/
def ReceiptAnswer.readable : ReceiptAnswer → Bool
  | response _ (.ok (.obj _)) => true
  | response statusCode (.error exc) => exc.isValueError || ¬ (200 ≤ statusCode ∧ statusCode < 300)
  | response statusCode (.ok _) => ¬ (200 ≤ statusCode ∧ statusCode < 300)
  | raised exc => exc.isHTTPError
  | killed => false

namespace Publisher

/-- What becomes of an event by its own answer. Without an address nobody is asked. -/
def outcome (self : Publisher) (event : OutboxRow) (answer : ReceiptAnswer) : Option Reading :=
  match self.receiptUrl event.id with
  | .error _ => some (.unresolved "ValueError")
  | .ok _ => reading event answer

theorem reading_isSome {answer : ReceiptAnswer} : (reading event answer).isSome = answer.readable := by
  cases answer with
  | response statusCode body =>
    by_cases habsent : statusCode = 404
    · rcases body with _ | (_ | _ | _ | _ | _ | _ | _) <;> simp [reading, ReceiptAnswer.readable, habsent]
    · by_cases hsuccess : 200 ≤ statusCode ∧ statusCode < 300
      · rcases body with _ | (_ | _ | _ | _ | _ | _ | _) <;>
          simp only [reading, ReceiptAnswer.readable, if_neg habsent, hsuccess] <;> simp
        · next exc => cases hexc : exc.isValueError <;> simp
        · split <;> rfl
      · rcases body with _ | (_ | _ | _ | _ | _ | _ | _) <;>
          simp [reading, ReceiptAnswer.readable, habsent, hsuccess]
  | raised exc =>
    rw [reading, ReceiptAnswer.readable]
    split
    · next hexc => simp [hexc]
    · next hexc => simp [hexc]
  | killed => rfl

theorem outcome_isSome {answer : ReceiptAnswer} :
    (self.outcome event answer).isSome ↔ ((self.receiptUrl event.id).isOk → answer.readable) := by
  unfold outcome
  split
  · next herror => simp [herror, Except.isOk, Except.toBool]
  · next hok => simp [hok, Except.isOk, Except.toBool, reading_isSome]

/-- A reconciliation that nothing overlaps with. -/
def reconciliation (self : Publisher) (d : Desk) (workspaceId : Id) (answer : Id → ReceiptAnswer) :
    List Act :=
  .reconcile workspaceId ::
    ((self.load d workspaceId [.reconcile]).map fun e => .ask d.calls.length (answer e.id)) ++
    [.settle d.calls.length]

end Publisher

/-- What an answer tells, or nothing certain. -/
def Reading.tells (found : Reading) : Option Reading → Prop
  | some reading => found = reading
  | none => ∃ error, found = .unresolved error

/-- The reconciliation returns, and every event of the batch is as its own answer makes it. -/
structure Desk.Reconciled (publisher : Publisher) (workspaceId : Id) (answer : Id → ReceiptAnswer)
    (d d' : Desk) : Prop where
  returns : ∃ result, d'.calls[d.calls.length]? = some (.reconciled result)
  ids : d'.events.map OutboxRow.id = d.events.map OutboxRow.id
  outcomes : ∀ e ∈ publisher.load d workspaceId [.reconcile], ∃ found : Reading,
    found.tells (publisher.outcome e (answer e.id)) ∧ Publisher.reconciled e found ∈ d'.events
  others : ∀ e ∈ d.events, e ∉ publisher.load d workspaceId [.reconcile] → e ∈ d'.events

/-- The call has found what the answers tell of a part of its batch, and nothing is written yet. -/
structure Desk.Found (publisher : Publisher) (answer : Id → ReceiptAnswer) (d d' : Desk)
    (batch : List OutboxRow) (findings : List Finding) : Prop where
  events : d'.events = d.events
  receipts : d'.receipts = d.receipts
  batch : findings.map Finding.before = batch
  readings : ∀ f ∈ findings, publisher.outcome f.before (answer f.before.id) = some f.reading
  existing : ∀ f ∈ findings, f.existing = d.receipts.any (publisher.isReceipt f.before)

namespace Publisher

variable {done : List OutboxRow}

theorem next_ask (hcall : d'.calls[i]? = some (.reconciling result findings (event :: todo)))
    (hfound : d.Found self answer d' done findings) :
    match self.outcome event (answer event.id) with
    | some _ => ∃ result' findings',
      (self.desk.next d' (.ask i (answer event.id))).calls[i]? =
        some (.reconciling result' findings' todo) ∧
      d.Found self answer (self.desk.next d' (.ask i (answer event.id))) (done ++ [event]) findings'
    | none => (self.desk.next d' (.ask i (answer event.id))).calls[i]? = some .failed := by
  have hnext : self.desk.next d' (.ask i (answer event.id)) =
      self.ask d' i result findings event todo (answer event.id) := by
    simp only [System.next, desk, step, hcall, Option.getD_some]
  have hset : ∀ call : Call, (d'.calls.set i call)[i]? = some call := fun call => by
    rw [List.getElem?_set_self', hcall]
    rfl
  have hadd : ∀ {s : Desk} {found : Reading}, s.events = d'.events → s.receipts = d'.receipts →
      self.outcome event (answer event.id) = some found → d.Found self answer s (done ++ [event])
        (findings ++ [⟨event, found, d'.receipts.any (self.isReceipt event)⟩]) := by
    intro s found hevents hreceipts houtcome
    refine ⟨hevents.trans hfound.events, hreceipts.trans hfound.receipts, ?_, ?_, ?_⟩
    · rw [List.map_append, hfound.batch]
      rfl
    · intro f hf
      rcases List.mem_append.mp hf with hf | hf
      · exact hfound.readings f hf
      · rw [List.mem_singleton.mp hf]
        exact houtcome
    · intro f hf
      rcases List.mem_append.mp hf with hf | hf
      · exact hfound.existing f hf
      · rw [List.mem_singleton.mp hf, hfound.receipts]
  rw [hnext]
  cases hurl : self.receiptUrl event.id with
  | error error =>
    have houtcome : self.outcome event (answer event.id) = some (.unresolved "ValueError") := by
      rw [outcome, hurl]
    rw [houtcome, ask, hurl]
    exact ⟨_, _, hset _, hadd rfl rfl houtcome⟩
  | ok url =>
    have houtcome : self.outcome event (answer event.id) = reading event (answer event.id) := by
      rw [outcome, hurl]
    rw [houtcome, ask, hurl]
    cases hread : reading event (answer event.id) with
    | none => exact hset _
    | some found => exact ⟨_, _, hset _, hadd rfl rfl (houtcome.trans hread)⟩

theorem run_failed (hcall : d'.calls[i]? = some .failed) (batch : List OutboxRow) :
    self.desk.run d' (batch.map fun e => .ask i (answer e.id)) = d' := by
  induction batch with
  | nil => rfl
  | cons e batch ih =>
    have hnext : self.desk.next d' (.ask i (answer e.id)) = d' := by
      simp only [System.next, desk, step, hcall, Option.getD_none]
    rw [List.map_cons, System.run_cons, hnext, ih]

/-- The call goes through its batch if it can take every answer. -/
theorem run_asks (hcall : d'.calls[i]? = some (.reconciling result findings todo))
    (hfound : d.Found self answer d' done findings)
    (h : ∀ e ∈ todo, (self.outcome e (answer e.id)).isSome) :
    ∃ result' findings', (self.desk.run d' (todo.map fun e => .ask i (answer e.id))).calls[i]? =
        some (.reconciling result' findings' []) ∧
      d.Found self answer (self.desk.run d' (todo.map fun e => .ask i (answer e.id))) (done ++ todo)
        findings' := by
  induction todo generalizing d' done result findings with
  | nil => exact ⟨result, findings, hcall, (List.append_nil done).symm ▸ hfound⟩
  | cons e todo ih =>
    have hnext := next_ask hcall hfound
    obtain ⟨found, houtcome⟩ := Option.isSome_iff_exists.mp (h e List.mem_cons_self)
    rw [houtcome] at hnext
    obtain ⟨result', findings', hcall', hfound'⟩ := hnext
    obtain ⟨result'', findings'', hcall'', hfound''⟩ :=
      ih hcall' hfound' fun e' he' => h e' (List.mem_cons_of_mem _ he')
    rw [List.append_assoc] at hfound''
    exact ⟨result'', findings'', hcall'', hfound''⟩

/-- It fails if there is one that it cannot take. -/
theorem run_asks_failed (hcall : d'.calls[i]? = some (.reconciling result findings todo))
    (hfound : d.Found self answer d' done findings) (he : e ∈ todo)
    (hout : self.outcome e (answer e.id) = none) :
    (self.desk.run d' (todo.map fun e => .ask i (answer e.id))).calls[i]? = some .failed := by
  induction todo generalizing d' done result findings with
  | nil => cases he
  | cons event todo ih =>
    have hnext := next_ask hcall hfound
    rw [List.map_cons, System.run_cons]
    cases houtcome : self.outcome event (answer event.id) with
    | none =>
      rw [houtcome] at hnext
      rw [run_failed hnext]
      exact hnext
    | some found =>
      rw [houtcome] at hnext
      obtain ⟨result', findings', hcall', hfound'⟩ := hnext
      rcases List.mem_cons.mp he with rfl | he
      · rw [hout] at houtcome
        cases houtcome
      · exact ih hcall' hfound' he

end Publisher

/-- From any desk a run reaches: a reconciliation that nothing overlaps with returns, and gives each
event of its batch what the event's own answer tells, if and only if it can take every answer it gets. -/
theorem reconciled_iff_readable (self : Publisher) (acts : List Act) (workspaceId : Id)
    (answer : Id → ReceiptAnswer) :
    (self.desk.run Desk.empty acts).Reconciled self workspaceId answer
        (self.desk.run (self.desk.run Desk.empty acts)
          (self.reconciliation (self.desk.run Desk.empty acts) workspaceId answer)) ↔
      ∀ e ∈ self.load (self.desk.run Desk.empty acts) workspaceId [.reconcile],
        (self.receiptUrl e.id).isOk → (answer e.id).readable := by
  have hsound := sound_run self acts
  generalize self.desk.run Desk.empty acts = d at hsound ⊢
  have hbegin : (self.desk.next d (.reconcile workspaceId)).calls[d.calls.length]? = some
      (.reconciling ⟨(self.load d workspaceId [.reconcile]).length, 0, 0, 0⟩ []
        (self.load d workspaceId [.reconcile])) := List.getElem?_concat_length
  have hempty : d.Found self answer (self.desk.next d (.reconcile workspaceId)) [] [] :=
    ⟨rfl, rfl, rfl, List.forall_mem_nil _, List.forall_mem_nil _⟩
  rw [Publisher.reconciliation, List.cons_append, System.run_cons, System.run_append]
  constructor
  · intro h e he
    rw [← Publisher.outcome_isSome]
    by_contra hout
    have hfailed := Publisher.run_asks_failed hbegin hempty he (Option.not_isSome_iff_eq_none.mp hout)
    obtain ⟨result, hreturns⟩ := h.returns
    have hsettle : ∀ s : Desk, s.calls[d.calls.length]? = some .failed →
        self.desk.run s [.settle d.calls.length] = s := by
      intro s hs
      simp only [System.run_cons, System.run_nil, System.next, Publisher.desk, Publisher.step, hs,
        Option.getD_none]
    rw [hsettle _ hfailed, hfailed] at hreturns
    cases hreturns
  · intro h
    obtain ⟨result, findings, hcall, hfound⟩ := Publisher.run_asks hbegin hempty fun e he =>
      Publisher.outcome_isSome.mpr (h e he)
    generalize self.desk.run (self.desk.next d (.reconcile workspaceId))
      ((self.load d workspaceId [.reconcile]).map fun e => .ask d.calls.length (answer e.id)) = s
      at hcall hfound ⊢
    rw [List.nil_append] at hfound
    have hnew : (findings.any fun f => f.reading = .verified && !f.existing &&
        s.receipts.any (self.isReceipt f.before)) = false := by
      rw [List.any_eq_false]
      intro f hf
      rw [hfound.existing f hf, hfound.receipts]
      simp
    have hsettle : self.desk.run s [.settle d.calls.length] = self.settle s d.calls.length result
        findings := by
      simp only [System.run_cons, System.run_nil, System.next, Publisher.desk, Publisher.step, hcall,
        Option.getD_some]
    have hload : Table.Keyed OutboxRow.id (self.load d workspaceId [.reconcile]) :=
      Publisher.load_keyed hsound.ids
    have hids : Table.Keyed OutboxRow.id s.events := hfound.events ▸ hsound.ids
    have hbefore : ∀ f ∈ findings, f.before ∈ self.load d workspaceId [.reconcile] := by
      intro f hf
      rw [← hfound.batch]
      exact List.mem_map_of_mem hf
    have hstored : ∀ f ∈ findings, f.before ∈ s.events := fun f hf =>
      hfound.events ▸ (Publisher.mem_load (hbefore f hf)).1
    have hsettled : ∀ e, e ∈ (self.settle s d.calls.length result findings).events ↔
        (∃ f ∈ findings, e = Publisher.reconciled f.before f.reading) ∨
          (e ∈ s.events ∧ ∀ f ∈ findings, e.id ≠ f.before.id) := by
      intro e
      rw [Publisher.settle, if_neg (by simp [hnew])]
      exact Desk.mem_settled hids (hfound.batch ▸ hload) hstored
    rw [hsettle]
    refine ⟨⟨result, ?_⟩, ?_, fun e he => ?_, fun e he hout => ?_⟩
    · rw [Publisher.settle, if_neg (by simp [hnew])]
      change ((findings.foldl (fun d f => d.update f.before (Publisher.reconciled f.before f.reading))
        s).calls.set d.calls.length (.reconciled result))[d.calls.length]? = _
      rw [Desk.foldl_update_calls, List.getElem?_set_self', hcall]
      rfl
    · rw [Publisher.settle, if_neg (by simp [hnew])]
      exact Desk.foldl_update_ids.trans (congrArg (List.map OutboxRow.id) hfound.events)
    · rw [← hfound.batch] at he
      obtain ⟨f, hf, rfl⟩ := List.mem_map.mp he
      refine ⟨f.reading, ?_, (hsettled _).mpr (.inl ⟨f, hf, rfl⟩)⟩
      rw [hfound.readings f hf]
      rfl
    · refine (hsettled e).mpr (.inr ⟨hfound.events.symm ▸ he, fun f hf hid => hout ?_⟩)
      rw [hsound.ids.eq_of_mem he (Publisher.mem_load (hbefore f hf)).1 hid]
      exact hbefore f hf

namespace Outbound

/-- An event whose response was lost. -/
def lost : List Act := [.commit (approval "e1" "x" 1 1), .relay "w1", .claim 0,
  .post 0 (.raised .readTimeout) true, .record 0, .claim 0]

end Outbound

open Outbound in
/-- The consumer answers with an empty list, and the call fails. -/
theorem lost_not_reconciled : ¬ ∀ (acts : List Act) (workspaceId : Id) (answer : Id → ReceiptAnswer),
    (deskAfter acts).Reconciled publisher workspaceId answer
      (publisher.desk.run (deskAfter acts)
        (publisher.reconciliation (deskAfter acts) workspaceId answer)) := by
  intro h
  obtain ⟨result, hreturns⟩ := (h lost "w1" fun _ => .response 200 (.ok (.arr []))).returns
  have hfails : ((publisher.desk.run (deskAfter lost) (publisher.reconciliation (deskAfter lost) "w1"
      fun _ => .response 200 (.ok (.arr [])))).calls.any fun call => call matches .reconciled _) =
        false := by decide +kernel
  exact List.any_eq_false.mp hfails _ (List.mem_of_getElem? hreturns) rfl

end Recordlane
