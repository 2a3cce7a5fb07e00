import Recordlane.Publication.Service

/-! What the calls of publication can do, and the copies of events that they hold. -/
namespace Recordlane

variable {self : Publisher} {d d' : Desk} {act : Act} {e event : OutboxRow} {call : Call} {i : Nat}
  {id : Id}

/-- The copies a call still works on. -/
def Call.copies : Call → List OutboxRow
  | relaying _ todo => todo
  | claimed _ event todo | posted _ event _ _ todo => event :: todo
  | reconciling _ findings todo => findings.map Finding.before ++ todo
  | relayed _ | reconciled _ | failed => []

theorem Call.copies_of_over (h : call.over) : call.copies = [] := by
  cases call <;> first | rfl | cases h

/-- The copies a call has yet to claim are pending or sent back, all others are in doubt. -/
def Call.Marked : Call → Prop
  | relaying _ todo => ∀ e ∈ todo, e.status = .pending ∨ e.status = .retry
  | claimed _ event todo | posted _ event _ _ todo =>
    event.status = .reconcile ∧ ∀ e ∈ todo, e.status = .pending ∨ e.status = .retry
  | reconciling _ findings todo =>
    (∀ f ∈ findings, f.before.status = .reconcile) ∧ ∀ e ∈ todo, e.status = .reconcile
  | relayed _ | reconciled _ | failed => True

theorem Call.marked_of_over (h : call.over) : call.Marked := by
  cases call <;> trivial

/-- Rows have ids of their own, and so have the copies of a call. -/
structure Desk.Sound (d : Desk) : Prop where
  ids : Table.Keyed OutboxRow.id d.events
  copies : ∀ call ∈ d.calls, Table.Keyed OutboxRow.id call.copies
  marked : ∀ call ∈ d.calls, call.Marked

namespace Desk

theorem update_ids (before after : OutboxRow) :
    (d.update before after).events.map OutboxRow.id = d.events.map OutboxRow.id :=
  Table.map_key_modify fun _ => rfl

theorem foldl_update_ids {findings : List Finding} {f : Finding → OutboxRow} :
    (findings.foldl (fun d x => d.update x.before (f x)) d).events.map OutboxRow.id =
      d.events.map OutboxRow.id := by
  induction findings generalizing d with
  | nil => rfl
  | cons x findings ih => rw [List.foldl_cons, ih, update_ids]

theorem foldl_update_calls {findings : List Finding} {f : Finding → OutboxRow} :
    (findings.foldl (fun d x => d.update x.before (f x)) d).calls = d.calls := by
  induction findings generalizing d with
  | nil => rfl
  | cons x findings ih => rw [List.foldl_cons, ih, update]

theorem foldl_update_attempts {findings : List Finding} {f : Finding → OutboxRow} :
    (findings.foldl (fun d x => d.update x.before (f x)) d).attempts = d.attempts := by
  induction findings generalizing d with
  | nil => rfl
  | cons x findings ih => rw [List.foldl_cons, ih, update]

theorem foldl_update_receipts {findings : List Finding} {f : Finding → OutboxRow} :
    (findings.foldl (fun d x => d.update x.before (f x)) d).receipts = d.receipts := by
  induction findings generalizing d with
  | nil => rfl
  | cons x findings ih => rw [List.foldl_cons, ih, update]

theorem foldl_update_exchanges {findings : List Finding} {f : Finding → OutboxRow} :
    (findings.foldl (fun d x => d.update x.before (f x)) d).exchanges = d.exchanges := by
  induction findings generalizing d with
  | nil => rfl
  | cons x findings ih => rw [List.foldl_cons, ih, update]

end Desk

namespace Publisher

theorem mem_load {workspaceId : Id} {statuses : List EventStatus}
    (he : e ∈ self.load d workspaceId statuses) :
    e ∈ d.events ∧ e.workspaceId = workspaceId ∧ e.status ∈ statuses := by
  have hmem := List.mem_of_mem_take he
  rw [List.mem_insertionSort, Runtime.mem_scan, List.mem_filter] at hmem
  simpa [and_assoc] using hmem

theorem load_keyed {workspaceId : Id} {statuses : List EventStatus}
    (h : Table.Keyed OutboxRow.id d.events) :
    Table.Keyed OutboxRow.id (self.load d workspaceId statuses) := by
  have hsorted := (List.perm_insertionSort (fun a b : OutboxRow => a.occurredAt ≤ b.occurredAt)
    (self.rt.scan d.reads (d.events.filter fun e =>
      e.workspaceId = workspaceId && statuses.contains e.status))).trans (self.rt.scan_perm _ _)
  refine List.Nodup.sublist ((List.take_sublist _ _).map _) ?_
  rw [(hsorted.map OutboxRow.id).nodup_iff]
  exact h.sublist (List.filter_sublist.map _)

/-- The attempt in which a claimed event goes out. -/
def sending (event : OutboxRow) : DeliveryAttempt where
  workspaceId := event.workspaceId
  eventId := event.id
  consumerKey := self.settings.publicationConsumerKey
  attempt := event.attempts
  status := .sending
  responseCode := none
  error := none

/-- What a step can be. A call that fails or returns changes nothing else. -/
inductive Steps (self : Publisher) (d : Desk) : Act → Desk → Prop
  | commit {event : OutboxEvent} (hnew : ∀ e ∈ d.events, e.id ≠ event.id) :
      Steps self d (.commit event) { d with events := d.events ++ [event.row] }
  | relay {workspaceId : Id} {result : RelayResult} : Steps self d (.relay workspaceId) { d with
      calls := d.calls ++ [.relaying result (self.load d workspaceId [.pending, .retry])]
      reads := d.reads + 1 }
  | reconcile {workspaceId : Id} {result : ReconcileResult} :
      Steps self d (.reconcile workspaceId) { d with
        calls := d.calls ++ [.reconciling result [] (self.load d workspaceId [.reconcile])]
        reads := d.reads + 1 }
  | close {act : Act} {i : Nat} {call : Call} (hover : call.over) (hpost : ∀ i o t, act ≠ .post i o t) :
      Steps self d act (d.setCall i call)
  | claim {i : Nat} {result : RelayResult} {event : OutboxRow} {todo : List OutboxRow}
      {attempts : List DeliveryAttempt} (hcall : d.calls[i]? = some (.relaying result (event :: todo)))
      (hnew : d.attempts.any (self.isAttempt (claimed event)) = false)
      (hattempts : attempts = d.attempts ++ [self.sending (claimed event)]) :
      Steps self d (.claim i) { (d.update event (claimed event)).setCall i
        (.claimed result (claimed event) todo) with attempts := attempts }
  | post {i : Nat} {result : RelayResult} {event : OutboxRow} {todo : List OutboxRow}
      {outcome : PostOutcome} {taken : Bool} {call : Call}
      (hcall : d.calls[i]? = some (.claimed result event todo))
      (hnext : call = .failed ∨ ∃ status, attemptStatus outcome = some status ∧
        call = .posted result event outcome status todo) :
      Steps self d (.post i outcome taken) { d.setCall i call with
        exchanges := d.exchanges ++ [.post event outcome taken] }
  | record {i : Nat} {result result' : RelayResult} {event : OutboxRow} {outcome : PostOutcome}
      {status : AttemptStatus} {todo : List OutboxRow} {attempts : List DeliveryAttempt}
      {receipts : List PublicationReceipt}
      (hcall : d.calls[i]? = some (.posted result event outcome status todo))
      (hattempts : attempts = d.attempts.map fun a =>
        if self.isAttempt event a then finished outcome status a else a)
      (hreceipts : receipts = if status = .accepted then
          self.receipt (d.receipts.any (self.isReceipt event)) event .acceptedResponse d.receipts
        else d.receipts) :
      Steps self d (.record i) { (d.update event (recorded event outcome status)).setCall i
        (.relaying result' todo) with attempts := attempts, receipts := receipts }
  | ask {i : Nat} {result result' : ReconcileResult} {findings : List Finding} {event : OutboxRow}
      {todo : List OutboxRow} {answer : ReceiptAnswer} {found : Reading} {existing : Bool}
      (hcall : d.calls[i]? = some (.reconciling result findings (event :: todo)))
      (hfound : reading event answer = some found)
      (hexisting : existing = d.receipts.any (self.isReceipt event)) :
      Steps self d (.ask i answer) { d.setCall i
        (.reconciling result' (findings ++ [⟨event, found, existing⟩]) todo) with
          exchanges := d.exchanges ++ [.receipt event.id answer] }
  | unasked {i : Nat} {result result' : ReconcileResult} {findings : List Finding} {event : OutboxRow}
      {todo : List OutboxRow} {answer : ReceiptAnswer} {error : String} {existing : Bool}
      (hcall : d.calls[i]? = some (.reconciling result findings (event :: todo)))
      (hexisting : existing = d.receipts.any (self.isReceipt event)) :
      Steps self d (.ask i answer) (d.setCall i
        (.reconciling result' (findings ++ [⟨event, .unresolved error, existing⟩]) todo))
  | unread {i : Nat} {result : ReconcileResult} {findings : List Finding} {event : OutboxRow}
      {todo : List OutboxRow} {answer : ReceiptAnswer}
      (hcall : d.calls[i]? = some (.reconciling result findings (event :: todo))) :
      Steps self d (.ask i answer) { d.setCall i .failed with
        exchanges := d.exchanges ++ [.receipt event.id answer] }
  | settle {i : Nat} {result : ReconcileResult} {findings : List Finding}
      {receipts : List PublicationReceipt}
      (hcall : d.calls[i]? = some (.reconciling result findings []))
      (hnew : (findings.any fun f => f.reading = .verified && !f.existing &&
        d.receipts.any (self.isReceipt f.before)) = false)
      (hreceipts : receipts = (findings.filter fun f => f.reading = .verified).foldl
        (fun receipts f => self.receipt f.existing f.before .reconciled receipts) d.receipts) :
      Steps self d (.settle i) { (findings.foldl (fun d f =>
        d.update f.before (reconciled f.before f.reading)) d).setCall i (.reconciled result) with
          receipts := receipts }

theorem step_steps (h : self.step d act = some d') : Steps self d act d' := by
  cases act with
  | commit event =>
    simp only [step] at h
    split at h
    · cases h
    · next hnew =>
      cases h
      exact .commit fun e he hid => hnew (List.any_eq_true.mpr ⟨e, he, by simpa using hid⟩)
  | relay workspaceId =>
    cases h
    exact .relay
  | reconcile workspaceId =>
    cases h
    exact .reconcile
  | claim i =>
    simp only [step] at h
    split at h
    · next hcall =>
      cases h
      unfold claim
      split
      · exact .close rfl (by simp)
      · next hnew => exact .claim hcall (by simpa using hnew) rfl
    · cases h
      exact .close rfl (by simp)
    · cases h
  | post i outcome taken =>
    simp only [step] at h
    split at h
    · next hcall =>
      cases h
      unfold post
      split
      · next status hstatus => exact .post hcall (.inr ⟨status, hstatus, rfl⟩)
      · exact .post hcall (.inl rfl)
    · cases h
  | record i =>
    simp only [step] at h
    split at h
    · next hcall =>
      cases h
      exact .record hcall rfl rfl
    · cases h
  | ask i answer =>
    simp only [step] at h
    split at h
    · next hcall =>
      cases h
      unfold ask
      split
      · exact .unasked hcall rfl
      · split
        · next hfound => exact .ask hcall hfound rfl
        · exact .unread hcall
    · cases h
  | settle i =>
    simp only [step] at h
    split at h
    · next hcall =>
      cases h
      unfold settle
      split
      · exact .close rfl (by simp)
      · next hnew =>
        refine .settle hcall (by simpa using hnew) ?_
        rw [Desk.foldl_update_receipts]
    · cases h
  | crash i =>
    simp only [step] at h
    split at h
    · split at h
      · cases h
      · cases h
        exact .close rfl (by simp)
    · cases h

theorem next_steps (self : Publisher) (d : Desk) (act : Act) :
    self.desk.next d act = d ∨ Steps self d act (self.desk.next d act) := by
  cases h : self.step d act with
  | none =>
    left
    simp only [System.next, desk, h, Option.getD_none]
  | some d' =>
    right
    have hnext : self.desk.next d act = d' := by
      simp only [System.next, desk, h, Option.getD_some]
    rw [hnext]
    exact step_steps h

end Publisher

namespace Desk.Sound

theorem empty : Desk.empty.Sound := by
  constructor <;> simp [Desk.empty, Table.Keyed]

theorem setCall (h : d.Sound) (hids : d'.events.map OutboxRow.id = d.events.map OutboxRow.id)
    (hcalls : d'.calls = d.calls.set i call) (hcopies : Table.Keyed OutboxRow.id call.copies)
    (hmarked : call.Marked) : d'.Sound := by
  refine ⟨?_, ?_, ?_⟩
  · rw [Table.Keyed, hids]
    exact h.ids
  · intro c hc
    rw [hcalls] at hc
    rcases List.mem_or_eq_of_mem_set hc with hc | rfl
    · exact h.copies c hc
    · exact hcopies
  · intro c hc
    rw [hcalls] at hc
    rcases List.mem_or_eq_of_mem_set hc with hc | rfl
    · exact h.marked c hc
    · exact hmarked

theorem close (h : d.Sound) (hids : d'.events.map OutboxRow.id = d.events.map OutboxRow.id)
    (hcalls : d'.calls = d.calls.set i call) (hover : call.over) : d'.Sound := by
  refine h.setCall hids hcalls ?_ (Call.marked_of_over hover)
  rw [Call.copies_of_over hover]
  exact List.nodup_nil

theorem start (h : d.Sound) (hevents : d'.events = d.events) (hcalls : d'.calls = d.calls ++ [call])
    (hcopies : Table.Keyed OutboxRow.id call.copies) (hmarked : call.Marked) : d'.Sound := by
  refine ⟨hevents ▸ h.ids, ?_, ?_⟩
  · intro c hc
    rw [hcalls] at hc
    rcases List.mem_append.mp hc with hc | hc
    · exact h.copies c hc
    · exact List.mem_singleton.mp hc ▸ hcopies
  · intro c hc
    rw [hcalls] at hc
    rcases List.mem_append.mp hc with hc | hc
    · exact h.marked c hc
    · exact List.mem_singleton.mp hc ▸ hmarked

theorem steps (h : d.Sound) (hs : self.Steps d act d') : d'.Sound := by
  cases hs with
  | commit hnew =>
    exact ⟨h.ids.append hnew, h.copies, h.marked⟩
  | relay =>
    refine h.start rfl rfl (Publisher.load_keyed h.ids) ?_
    intro e he
    simpa using (Publisher.mem_load he).2.2
  | reconcile =>
    refine h.start rfl rfl (Publisher.load_keyed h.ids) ⟨by simp, fun e he => ?_⟩
    simpa using (Publisher.mem_load he).2.2
  | close hover _ => exact h.close rfl rfl hover
  | claim hcall _ =>
    have hcopies := h.copies _ (List.mem_of_getElem? hcall)
    have hmarked := h.marked _ (List.mem_of_getElem? hcall)
    exact h.setCall (Desk.update_ids _ _) rfl hcopies
      ⟨rfl, fun e he => hmarked e (List.mem_cons_of_mem _ he)⟩
  | post hcall hnext =>
    rcases hnext with rfl | ⟨status, -, rfl⟩
    · exact h.close rfl rfl rfl
    · have hcopies := h.copies _ (List.mem_of_getElem? hcall)
      have hmarked := h.marked _ (List.mem_of_getElem? hcall)
      exact h.setCall rfl rfl hcopies hmarked
  | record hcall =>
    have hcopies : Table.Keyed OutboxRow.id (_ :: _) := h.copies _ (List.mem_of_getElem? hcall)
    exact h.setCall (Desk.update_ids _ _) rfl (List.Nodup.of_cons hcopies)
      (h.marked _ (List.mem_of_getElem? hcall)).2
  | ask hcall _ =>
    have hcopies := h.copies _ (List.mem_of_getElem? hcall)
    obtain ⟨hfindings, htodo⟩ := h.marked _ (List.mem_of_getElem? hcall)
    refine h.setCall rfl rfl ?_ ⟨?_, fun e he => htodo e (List.mem_cons_of_mem _ he)⟩
    · simpa [Call.copies] using hcopies
    · intro f hf
      rcases List.mem_append.mp hf with hf | hf
      · exact hfindings f hf
      · rw [List.mem_singleton.mp hf]
        exact htodo _ List.mem_cons_self
  | unasked hcall =>
    have hcopies := h.copies _ (List.mem_of_getElem? hcall)
    obtain ⟨hfindings, htodo⟩ := h.marked _ (List.mem_of_getElem? hcall)
    refine h.setCall rfl rfl ?_ ⟨?_, fun e he => htodo e (List.mem_cons_of_mem _ he)⟩
    · simpa [Call.copies] using hcopies
    · intro f hf
      rcases List.mem_append.mp hf with hf | hf
      · exact hfindings f hf
      · rw [List.mem_singleton.mp hf]
        exact htodo _ List.mem_cons_self
  | unread _ => exact h.close rfl rfl rfl
  | @settle i result findings receipts hcall _ =>
    have hover : (Call.reconciled result).over := rfl
    refine h.close (i := i) Desk.foldl_update_ids ?_ hover
    exact congrArg (fun calls => calls.set i (Call.reconciled result)) Desk.foldl_update_calls

theorem next (h : d.Sound) (act : Act) : (self.desk.next d act).Sound := by
  rcases self.next_steps d act with heq | hs
  · exact heq.symm ▸ h
  · exact h.steps hs

end Desk.Sound

theorem sound_run (self : Publisher) (acts : List Act) : (self.desk.run Desk.empty acts).Sound :=
  self.desk.run_invariant Desk.Sound.empty (self.desk.along_of_forall (fun _ _ => trivial) acts)
    fun _ act h (_ : True) => h.next act

end Recordlane
