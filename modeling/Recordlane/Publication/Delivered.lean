import Recordlane.Publication.Copies

/-! Deliveries that are recorded, and the calls that overrun them. -/
namespace Recordlane

variable {self : Publisher} {d d' : Desk} {act : Act} {event before after : OutboxRow} {id : Id}

def Exchange.isPost (id : Id) : Exchange → Bool
  | post event _ _ => event.id = id
  | receipt _ _ => false

namespace Desk

/-- The stored status of an event. -/
def status (d : Desk) (id : Id) : Option EventStatus :=
  (Table.find OutboxRow.id d.events id).map OutboxRow.status

def delivered (d : Desk) (id : Id) : Bool := d.status id = some .delivered

/-- How often an event went out. -/
def posts (d : Desk) (id : Id) : Nat := d.exchanges.countP (Exchange.isPost id)

theorem Sound.delivered_iff (h : d.Sound) (he : e ∈ d.events) :
    d.delivered e.id = decide (e.status = .delivered) := by
  rw [delivered, status, h.ids.find_of_mem he, Option.map_some]
  simp

theorem status_update (d : Desk) (before after : OutboxRow) (id : Id) :
    (d.update before after).status id = if id = before.id then
      (d.status id).map fun stored => if after.status = before.status then stored else after.status
    else d.status id := by
  have hid : ∀ e, (before.flush after e).id = e.id := fun _ => rfl
  unfold status update
  rw [Table.find_modify hid]
  split
  · rw [Option.map_map, Option.map_map]
    rfl
  · rfl

theorem status_update_of_ne (h : before.id ≠ id) : (d.update before after).status id = d.status id := by
  rw [status_update, if_neg (Ne.symm h)]

/-- A copy that keeps its status, or is delivered, leaves a delivery in place. -/
theorem delivered_update (h : d.delivered id)
    (hafter : before.id = id → after.status = before.status ∨ after.status = .delivered) :
    (d.update before after).delivered id := by
  simp only [delivered, decide_eq_true_eq] at h ⊢
  rw [status_update]
  split
  · next hid =>
    rw [h, Option.map_some]
    rcases hafter hid.symm with heq | heq <;> simp [heq]
  · exact h

theorem not_delivered_update (hid : before.id = id) (hne : after.status ≠ before.status)
    (hafter : after.status ≠ .delivered) : (d.update before after).delivered id = false := by
  rw [delivered, status_update, if_pos hid.symm]
  cases d.status id <;> simp [hne, hafter]

theorem foldl_status_of_ne {findings : List Finding} {f : Finding → OutboxRow}
    (h : ∀ x ∈ findings, x.before.id ≠ id) :
    (findings.foldl (fun d x => d.update x.before (f x)) d).status id = d.status id := by
  induction findings generalizing d with
  | nil => rfl
  | cons x findings ih =>
    rw [List.foldl_cons, ih fun y hy => h y (List.mem_cons_of_mem _ hy)]
    exact status_update_of_ne (h x List.mem_cons_self)

end Desk

theorem Publisher.reconciled_status {e : OutboxRow} {found : Reading} (h : found ≠ .absent) :
    (reconciled e found).status = e.status ∨ (reconciled e found).status = .delivered := by
  cases found with
  | absent => exact (h rfl).elim
  | verified => exact .inr rfl
  | unresolved error => exact .inl rfl

/-- The findings of a reconciliation leave a delivery in place if no receipt was absent for it. -/
theorem Desk.delivered_settled {findings : List Finding} (hd : d.delivered id)
    (h : ∀ f ∈ findings, f.before.id = id → f.reading ≠ .absent) :
    (findings.foldl (fun d f => d.update f.before (Publisher.reconciled f.before f.reading))
      d).delivered id := by
  induction findings generalizing d with
  | nil => exact hd
  | cons f findings ih =>
    refine ih ?_ fun g hg => h g (List.mem_cons_of_mem _ hg)
    exact delivered_update hd fun hid => Publisher.reconciled_status (h f List.mem_cons_self hid)

theorem Desk.not_delivered_settled {findings : List Finding} {f : Finding} (hf : f ∈ findings)
    (hids : Table.Keyed OutboxRow.id (findings.map Finding.before))
    (hstatus : f.before.status = .reconcile) (habsent : f.reading = .absent) :
    (findings.foldl (fun d f => d.update f.before (Publisher.reconciled f.before f.reading))
      d).delivered f.before.id = false := by
  obtain ⟨first, rest, rfl⟩ := List.mem_iff_append.mp hf
  have hrest : ∀ x ∈ rest, x.before.id ≠ f.before.id := by
    rw [Table.Keyed, List.map_map, List.map_append, List.map_cons, List.nodup_middle,
      List.nodup_cons] at hids
    intro x hx hid
    exact hids.1 (List.mem_append_right _ (List.mem_map.mpr ⟨x, hx, hid⟩))
  rw [List.foldl_append, List.foldl_cons, delivered, foldl_status_of_ne hrest]
  refine not_delivered_update rfl ?_ ?_ <;> simp [Publisher.reconciled, habsent, hstatus]

namespace Outbound

/-- A consumer that is reached under one address. -/
def publisher : Publisher := ⟨.plain, ⟨some "https://consumer.test/events", none, "default"⟩⟩

/-- The approval of a version of an entity. -/
def approval (id entityId : Id) (version : Nat) (occurredAt : DateTime) : OutboxEvent where
  id := id
  workspaceId := "w1"
  entityId := some entityId
  entityVersion := some version
  eventType := "master.approved"
  schemaVersion := "1.0"
  payload := [("event_id", .str id), ("workspace_id", .str "w1"), ("entity_id", .str entityId),
    ("entity_version", .int version), ("origin", .str "recordlane"), ("values", .obj []),
    ("occurred_at", .str ""), ("schema_version", .str "1.0")]
  status := "pending"
  occurredAt := occurredAt

/-- The desk after some acts. -/
def deskAfter (acts : List Act) : Desk := publisher.desk.run Desk.empty acts

/-- A receipt is asked for while the event is on its way: it is absent, the event is delivered, and
then the absence is recorded. -/
def overlap : List Act := [.commit (approval "e1" "x" 1 1), .relay "w1", .claim 0, .reconcile "w1",
  .ask 1 (.response 404 (.error .jsonDecodeError)), .post 0 (.response 200) true, .record 0, .settle 1]

end Outbound

/-- The act takes an event further that another call has delivered since it was loaded: it claims
or sends it once more, or it records a failure or an absent receipt. -/
def Act.overruns (self : Publisher) (d : Desk) : Act → Bool
  | .claim i =>
    match d.calls[i]? with
    | some (.relaying _ (event :: _)) =>
      d.delivered event.id && !d.attempts.any (self.isAttempt (Publisher.claimed event))
    | _ => false
  | .post i _ _ =>
    match d.calls[i]? with
    | some (.claimed _ event _) => d.delivered event.id
    | _ => false
  | .record i =>
    match d.calls[i]? with
    | some (.posted _ event _ status _) =>
      d.delivered event.id && (status = .rejected || status = .failed)
    | _ => false
  | .settle i =>
    match d.calls[i]? with
    | some (.reconciling _ findings []) =>
      !(findings.any fun f => f.reading = .verified && !f.existing &&
          d.receipts.any (self.isReceipt f.before)) &&
        findings.any fun f => f.reading = .absent && d.delivered f.before.id
    | _ => false
  | _ => false

/-- Deliveries stay recorded, and their events do not go out again. -/
def KeepsDelivered (d d' : Desk) : Prop :=
  ∀ id, d.delivered id → d'.delivered id ∧ d'.posts id = d.posts id

theorem KeepsDelivered.of_eq (hevents : d'.events = d.events) (hexchanges : d'.exchanges = d.exchanges) :
    KeepsDelivered d d' := by
  intro id hd
  rw [Desk.delivered, Desk.status, Desk.posts, hevents, hexchanges]
  exact ⟨hd, rfl⟩

theorem KeepsDelivered.of_receipt {eventId : Id} {answer : ReceiptAnswer}
    (hevents : d'.events = d.events) (hexchanges : d'.exchanges = d.exchanges ++ [.receipt eventId answer]) :
    KeepsDelivered d d' := by
  intro id hd
  refine ⟨?_, ?_⟩
  · rw [Desk.delivered, Desk.status, hevents]
    exact hd
  · rw [Desk.posts, hexchanges, List.countP_append]
    exact Nat.add_zero _

namespace Publisher

theorem eventStatus_ne_reconcile {n : Nat} {status : AttemptStatus}
    (h : status = .rejected ∨ status = .failed) :
    eventStatus n status ≠ .reconcile ∧ eventStatus n status ≠ .delivered := by
  by_cases hn : n ≥ 5 <;> rcases h with rfl | rfl <;> simp [eventStatus, hn]

/-- A step that overruns no delivery keeps all of them. -/
theorem Steps.keepsDelivered (h : d.Sound) (hs : self.Steps d act d')
    (ho : act.overruns self d = false) : KeepsDelivered d d' := by
  cases hs with
  | commit hnew =>
    intro id hd
    refine ⟨?_, rfl⟩
    simp only [Desk.delivered, Desk.status, decide_eq_true_eq, Option.map_eq_some_iff] at hd ⊢
    obtain ⟨e, he, hstatus⟩ := hd
    exact ⟨e, Table.find_append_of_some he _, hstatus⟩
  | relay => exact .of_eq rfl rfl
  | reconcile => exact .of_eq rfl rfl
  | close _ _ => exact .of_eq rfl rfl
  | claim hcall hnew =>
    simp only [Act.overruns, hcall, hnew, Bool.not_false, Bool.and_true] at ho
    intro id hd
    refine ⟨Desk.delivered_update hd fun hid => ?_, rfl⟩
    rw [hid, hd] at ho
    cases ho
  | post hcall _ =>
    simp only [Act.overruns, hcall] at ho
    intro id hd
    refine ⟨hd, ?_⟩
    rw [Desk.posts, List.countP_append, List.countP_singleton]
    split
    · next hid =>
      rw [of_decide_eq_true hid, hd] at ho
      cases ho
    · rfl
  | @record i result result' event outcome status todo attempts receipts hcall =>
    obtain ⟨hmark, -⟩ := h.marked _ (List.mem_of_getElem? hcall)
    simp only [Act.overruns, hcall] at ho
    intro id hd
    refine ⟨Desk.delivered_update hd fun hid => ?_, rfl⟩
    rw [hid, hd] at ho
    cases status with
    | sending => exact .inl hmark.symm
    | accepted => exact .inr rfl
    | ambiguous => exact .inl hmark.symm
    | rejected => cases ho
    | failed => cases ho
  | ask _ _ => exact .of_receipt rfl rfl
  | unasked _ => exact .of_eq rfl rfl
  | unread _ => exact .of_receipt rfl rfl
  | settle hcall hnew =>
    simp only [Act.overruns, hcall, hnew, Bool.not_false, Bool.true_and, List.any_eq_false] at ho
    intro id hd
    refine ⟨Desk.delivered_settled hd fun f hf hid habsent => ho f hf ?_, ?_⟩
    · rw [habsent, hid, hd]
      rfl
    · rw [Desk.posts]
      exact congrArg (List.countP _) Desk.foldl_update_exchanges

/-- A step that overruns a delivery undoes it, or sends its event again. -/
theorem overruns_not_keepsDelivered (h : d.Sound) (ho : act.overruns self d) :
    ¬ KeepsDelivered d (self.desk.next d act) := by
  intro hkeeps
  unfold Act.overruns at ho
  split at ho
  · next i =>
    split at ho
    · next result event todo hcall =>
      rw [Bool.and_eq_true, Bool.not_eq_true'] at ho
      have hnext : self.desk.next d (.claim i) = self.claim d i result event todo := by
        simp only [System.next, desk, step, hcall, Option.getD_some]
      have hmarked := h.marked _ (List.mem_of_getElem? hcall) event List.mem_cons_self
      have hgone : (d.update event (claimed event)).delivered event.id = false := by
        refine Desk.not_delivered_update rfl ?_ (by simp [claimed])
        rcases hmarked with heq | heq <;> simp [claimed, heq]
      have hkept := (hkeeps event.id ho.1).1
      rw [hnext, claim, if_neg (by simp [ho.2])] at hkept
      exact Bool.false_ne_true (hgone.symm.trans hkept)
    · cases ho
  · next i outcome taken =>
    split at ho
    · next result event todo hcall =>
      have hnext : self.desk.next d (.post i outcome taken) = post d i result event todo outcome taken := by
        simp only [System.next, desk, step, hcall, Option.getD_some]
      have hposts : (post d i result event todo outcome taken).posts event.id = d.posts event.id + 1 := by
        have hexchanges : (post d i result event todo outcome taken).exchanges =
            d.exchanges ++ [.post event outcome taken] := by
          unfold post
          split <;> rfl
        rw [Desk.posts, hexchanges, List.countP_append, List.countP_singleton]
        simp [Desk.posts, Exchange.isPost]
      have hkept := (hkeeps event.id ho).2
      rw [hnext, hposts] at hkept
      omega
    · cases ho
  · next i =>
    split at ho
    · next result event outcome status todo hcall =>
      rw [Bool.and_eq_true, Bool.or_eq_true, decide_eq_true_eq, decide_eq_true_eq] at ho
      have hnext : self.desk.next d (.record i) = self.record d i result event outcome status todo := by
        simp only [System.next, desk, step, hcall, Option.getD_some]
      obtain ⟨hmark, -⟩ := h.marked _ (List.mem_of_getElem? hcall)
      obtain ⟨hreconcile, hdelivered⟩ := eventStatus_ne_reconcile (n := event.attempts) ho.2
      have hgone : (d.update event (recorded event outcome status)).delivered event.id = false :=
        Desk.not_delivered_update rfl (by rw [hmark]; exact hreconcile) hdelivered
      have hkept := (hkeeps event.id ho.1).1
      rw [hnext] at hkept
      exact Bool.false_ne_true (hgone.symm.trans hkept)
    · cases ho
  · next i =>
    split at ho
    · next result findings hcall =>
      rw [Bool.and_eq_true, Bool.not_eq_true'] at ho
      have hnext : self.desk.next d (.settle i) = self.settle d i result findings := by
        simp only [System.next, desk, step, hcall, Option.getD_some]
      obtain ⟨f, hf, habsent⟩ := List.any_eq_true.mp ho.2
      rw [Bool.and_eq_true, decide_eq_true_eq] at habsent
      have hids := h.copies _ (List.mem_of_getElem? hcall)
      rw [Call.copies, List.append_nil] at hids
      have hmark := (h.marked _ (List.mem_of_getElem? hcall)).1 f hf
      have hgone := Desk.not_delivered_settled (d := d) hf hids hmark habsent.1
      have hkept := (hkeeps f.before.id habsent.2).1
      rw [hnext, settle, if_neg (by simp [ho.1])] at hkept
      exact Bool.false_ne_true (hgone.symm.trans hkept)
    · cases ho
  · cases ho

theorem keepsDelivered_iff (h : d.Sound) :
    KeepsDelivered d (self.desk.next d act) ↔ act.overruns self d = false := by
  constructor
  · intro hkeeps
    rw [← Bool.not_eq_true]
    exact fun ho => overruns_not_keepsDelivered h ho hkeeps
  · intro ho
    rcases self.next_steps d act with heq | hs
    · rw [heq]
      exact .of_eq rfl rfl
    · exact hs.keepsDelivered h ho

end Publisher

theorem KeepsDelivered.trans {d'' : Desk} (h : KeepsDelivered d d') (h' : KeepsDelivered d' d'') :
    KeepsDelivered d d'' := by
  intro id hd
  obtain ⟨hd', hposts⟩ := h id hd
  obtain ⟨hd'', hposts'⟩ := h' id hd'
  exact ⟨hd'', hposts'.trans hposts⟩

theorem keepsDelivered_run (self : Publisher) {acts : List Act}
    (h : self.desk.Along (fun d act => act.overruns self d = false) Desk.empty acts) :
    ∀ first acts' rest, acts = first ++ acts' ++ rest →
      KeepsDelivered (self.desk.run Desk.empty first) (self.desk.run Desk.empty (first ++ acts')) := by
  rw [self.desk.along_iff] at h
  intro first acts' rest heq
  rw [System.run_append]
  refine self.desk.run_relation (P := Desk.Sound) (R := KeepsDelivered) (fun _ => .of_eq rfl rfl)
    (fun _ _ _ => .trans) (sound_run self first) (Φ := fun d act => act.overruns self d = false) ?_
    fun d act hd ho => ⟨hd.next act, (Publisher.keepsDelivered_iff hd).mpr ho⟩
  rw [self.desk.along_iff]
  intro first' act rest' heq'
  rw [← System.run_append]
  refine h (first ++ first') act (rest' ++ rest) ?_
  rw [heq, heq']
  simp

/-! Calls that overlap: a delivery is committed while another call holds a copy of the event. -/

/-- The number under which a copy would be claimed is free. -/
def Publisher.unclaimed (self : Publisher) (d : Desk) (event : OutboxRow) : Bool :=
  !d.attempts.any (self.isAttempt (claimed event))

/-- The call has loaded the event and is not done with it: it may claim it, send it or commit its copy. -/
def Call.pursues (self : Publisher) (d : Desk) (id : Id) : Call → Bool
  | relaying _ todo => todo.any fun e => e.id = id && self.unclaimed d e
  | claimed _ event todo | posted _ event _ _ todo =>
    event.id = id || todo.any fun e => e.id = id && self.unclaimed d e
  | reconciling _ findings todo => (findings.map Finding.before ++ todo).any fun e => e.id = id
  | relayed _ | reconciled _ | failed => false

/-- A call other than the one at this place is not done with the event. -/
def Desk.pursued (self : Publisher) (d : Desk) (i : Nat) (id : Id) : Bool :=
  d.calls.zipIdx.any fun c => c.2 ≠ i && c.1.pursues self d id

/-- A delivery is committed while another call is not done with the event. -/
def Act.overlaps (self : Publisher) (d : Desk) : Act → Bool
  | .record i =>
    match d.calls[i]? with
    | some (.posted _ event _ .accepted _) => d.pursued self i event.id
    | _ => false
  | .settle i =>
    match d.calls[i]? with
    | some (.reconciling _ findings []) =>
      findings.any fun f => f.reading = .verified && d.pursued self i f.before.id
    | _ => false
  | _ => false

theorem Call.pursues_of_over {call : Call} (h : call.over) : call.pursues self d id = false := by
  cases call <;> first | rfl | cases h

theorem Call.pursues_mono {call : Call} (hattempts : ∀ e, self.unclaimed d' e → self.unclaimed d e)
    (h : call.pursues self d id = false) : call.pursues self d' id = false := by
  rw [← Bool.not_eq_true] at h ⊢
  refine fun h' => h ?_
  have hwaits : ∀ todo : List OutboxRow, (todo.any fun e => e.id = id && self.unclaimed d' e) = true →
      (todo.any fun e => e.id = id && self.unclaimed d e) = true := by
    intro todo hany
    obtain ⟨e, he, hwait⟩ := List.any_eq_true.mp hany
    rw [Bool.and_eq_true] at hwait
    exact List.any_eq_true.mpr ⟨e, he, by rw [hwait.1, hattempts e hwait.2]; rfl⟩
  cases call with
  | relaying result todo => exact hwaits todo h'
  | claimed result event todo =>
    simp only [pursues, Bool.or_eq_true] at h' ⊢
    exact h'.imp_right (hwaits todo)
  | posted result event outcome status todo =>
    simp only [pursues, Bool.or_eq_true] at h' ⊢
    exact h'.imp_right (hwaits todo)
  | reconciling result findings todo => exact h'
  | _ => cases h'

theorem Desk.not_pursued {i j : Nat} {call : Call} (h : d.pursued self i id = false) (hne : j ≠ i)
    (hj : d.calls[j]? = some call) : call.pursues self d id = false := by
  rw [Desk.pursued, List.any_eq_false] at h
  have hcall := h (call, j) (List.mem_zipIdx_iff_getElem?.mpr hj)
  simpa [hne] using hcall

theorem Desk.of_delivered_update (h : (d.update before after).delivered id) :
    d.delivered id ∨ (before.id = id ∧ after.status ≠ before.status ∧ after.status = .delivered) := by
  simp only [delivered, decide_eq_true_eq] at h ⊢
  rw [status_update] at h
  split at h
  · next hid =>
    obtain ⟨status, hstatus, hafter⟩ := Option.map_eq_some_iff.mp h
    split at hafter
    · exact .inl (hafter ▸ hstatus)
    · next hne => exact .inr ⟨hid.symm, hne, hafter⟩
  · exact .inl h

theorem Desk.of_delivered_commit {event : OutboxEvent}
    (h : ({ d with events := d.events ++ [event.row] } : Desk).delivered id) : d.delivered id := by
  simp only [delivered, status, Table.find, List.find?_append, decide_eq_true_eq] at h
  rw [delivered, status, Table.find, decide_eq_true_eq]
  cases hfind : d.events.find? fun e => e.id = id with
  | some e => rwa [hfind] at h
  | none =>
    rw [hfind, Option.none_or, List.find?_singleton] at h
    split at h
    · cases h
    · cases h

theorem Publisher.accepted_of_delivered {n : Nat} {status : AttemptStatus}
    (h : eventStatus n status = .delivered) : status = .accepted := by
  by_contra hne
  cases status with
  | accepted => exact hne rfl
  | rejected => exact (eventStatus_ne_reconcile (.inl rfl)).2 h
  | failed => exact (eventStatus_ne_reconcile (.inr rfl)).2 h
  | _ => cases h

theorem Desk.of_delivered_settled {findings : List Finding}
    (h : (findings.foldl (fun d f => d.update f.before (Publisher.reconciled f.before f.reading))
      d).delivered id) :
    d.delivered id ∨ ∃ f ∈ findings, f.before.id = id ∧ f.reading = .verified := by
  induction findings generalizing d with
  | nil => exact .inl h
  | cons f findings ih =>
    rcases ih h with hd | ⟨g, hg, hfound⟩
    · rcases of_delivered_update hd with hd | ⟨hid, hne, hstatus⟩
      · exact .inl hd
      · refine .inr ⟨f, List.mem_cons_self, hid, ?_⟩
        cases hread : f.reading with
        | verified => rfl
        | absent =>
          rw [hread] at hstatus
          cases hstatus
        | unresolved error =>
          rw [hread] at hne
          exact (hne rfl).elim
    · exact .inr ⟨g, List.mem_cons_of_mem _ hg, hfound⟩

/-- All calls are done with the events that are delivered. -/
structure Desk.Untouched (publisher : Publisher) (d : Desk) : Prop where
  sound : d.Sound
  done : ∀ call ∈ d.calls, ∀ id, d.delivered id → call.pursues publisher d id = false

namespace Desk.Untouched

theorem empty : Desk.empty.Untouched self := ⟨Sound.empty, List.forall_mem_nil _⟩

theorem loaded (h : d.Sound) {workspaceId : Id} {statuses : List EventStatus} {e : OutboxRow}
    (he : e ∈ self.load d workspaceId statuses) (hstatuses : .delivered ∉ statuses) :
    d.delivered e.id = false := by
  obtain ⟨hmem, -, hstatus⟩ := Publisher.mem_load he
  rw [h.delivered_iff hmem, decide_eq_false_iff_not]
  exact fun hdelivered => hstatuses (hdelivered ▸ hstatus)

/-- A call goes on with what it had, and the others are done with what is delivered now. -/
theorem set (hsound : d'.Sound) {i : Nat} {call : Call}
    (hcalls : d'.calls = d.calls.set i call)
    (hattempts : ∀ e, self.unclaimed d' e → self.unclaimed d e)
    (hothers : ∀ id, d'.delivered id → ∀ j c, j ≠ i → d.calls[j]? = some c → c.pursues self d id = false)
    (hcall : ∀ id, d'.delivered id → call.pursues self d id = false) : d'.Untouched self := by
  refine ⟨hsound, fun c hc id hd => Call.pursues_mono hattempts ?_⟩
  rw [hcalls] at hc
  obtain ⟨j, hj⟩ := List.getElem?_of_mem hc
  rw [List.getElem?_set] at hj
  split at hj
  · split at hj
    · cases hj
      exact hcall id hd
    · cases hj
  · next hne => exact hothers id hd j c (Ne.symm hne) hj

theorem steps (h : d.Untouched self) (hs : self.Steps d act d') (ho : act.overlaps self d = false) :
    d'.Untouched self := by
  have hsound := h.sound.steps hs
  have hstays : ∀ (id : Id), d.delivered id → ∀ (j : Nat) (c : Call), d.calls[j]? = some c →
      c.pursues self d id = false :=
    fun id hd j c hj => h.done c (List.mem_of_getElem? hj) id hd
  cases hs with
  | @commit event hnew =>
    exact ⟨hsound, fun c hc id hd => h.done c hc id (Desk.of_delivered_commit hd)⟩
  | relay =>
    refine ⟨hsound, fun c hc id hd => ?_⟩
    rcases List.mem_append.mp hc with hc | hc
    · exact h.done c hc id hd
    · rw [List.mem_singleton.mp hc]
      refine List.any_eq_false.mpr fun e he hwait => ?_
      simp only [Bool.and_eq_true, decide_eq_true_eq] at hwait
      have hopen := loaded h.sound he (by decide)
      rw [hwait.1] at hopen
      exact Bool.false_ne_true (hopen.symm.trans hd)
  | reconcile =>
    refine ⟨hsound, fun c hc id hd => ?_⟩
    rcases List.mem_append.mp hc with hc | hc
    · exact h.done c hc id hd
    · rw [List.mem_singleton.mp hc]
      refine List.any_eq_false.mpr fun e he hid => ?_
      have hopen := loaded h.sound he (by decide)
      rw [of_decide_eq_true hid] at hopen
      exact Bool.false_ne_true (hopen.symm.trans hd)
  | close hover _ =>
    exact set hsound rfl (fun _ => id) (fun id hd j c _ => hstays id hd j c)
      fun _ _ => Call.pursues_of_over hover
  | @claim i result event todo attempts hcall hnew hattempts =>
    have hmarked := h.sound.marked _ (List.mem_of_getElem? hcall) event List.mem_cons_self
    have hbefore : ∀ id, (d.update event (Publisher.claimed event)).delivered id → d.delivered id := by
      intro id hd
      rcases Desk.of_delivered_update hd with hd | ⟨-, -, hstatus⟩
      · exact hd
      · cases hstatus
    have hgone : (d.update event (Publisher.claimed event)).delivered event.id = false := by
      refine Desk.not_delivered_update rfl ?_ (by simp [Publisher.claimed])
      rcases hmarked with heq | heq <;> simp [Publisher.claimed, heq]
    refine set hsound rfl ?_ (fun id hd j c _ => hstays id (hbefore id hd) j c) fun id hd => ?_
    · intro e he
      simp only [Publisher.unclaimed, hattempts, List.any_append, Bool.not_eq_true', Bool.or_eq_false_iff]
        at he ⊢
      exact he.1
    · have hdone := hstays id (hbefore id hd) i _ hcall
      have hother : event.id ≠ id := fun hid => by
        rw [← hid] at hd
        exact Bool.false_ne_true (hgone.symm.trans hd)
      simp only [Call.pursues, List.any_cons, Bool.or_eq_false_iff] at hdone ⊢
      exact ⟨decide_eq_false hother, hdone.2⟩
  | @post i result event todo outcome taken call hcall hnext =>
    refine set hsound rfl (fun _ => id) (fun id hd j c _ => hstays id hd j c) fun id hd => ?_
    rcases hnext with rfl | ⟨status, -, rfl⟩
    · rfl
    · have hdone := hstays id hd i _ hcall
      exact hdone
  | @record i result result' event outcome status todo attempts receipts hcall hattempts hreceipts =>
    have hids := h.sound.copies _ (List.mem_of_getElem? hcall)
    rw [Call.copies, Table.Keyed, List.map_cons, List.nodup_cons] at hids
    have hkeys : ∀ e a, self.isAttempt (Publisher.claimed e)
        (if self.isAttempt event a then Publisher.finished outcome status a else a) =
          self.isAttempt (Publisher.claimed e) a := by
      intro e a
      split <;> rfl
    refine set hsound rfl ?_ (fun id hd j c hne hj => ?_) fun id hd => ?_
    · intro e he
      simp only [Publisher.unclaimed, hattempts, List.any_map, Bool.not_eq_true'] at he ⊢
      rw [← he]
      exact List.any_congr rfl fun a => (hkeys e a).symm
    · rcases Desk.of_delivered_update hd with hd | ⟨hid, -, hstatus⟩
      · exact hstays id hd j c hj
      · obtain rfl := Publisher.accepted_of_delivered hstatus
        simp only [Act.overlaps, hcall] at ho
        exact hid ▸ Desk.not_pursued ho hne hj
    · rcases Desk.of_delivered_update hd with hd | ⟨rfl, -, -⟩
      · have hdone := hstays id hd i _ hcall
        simp only [Call.pursues, Bool.or_eq_false_iff] at hdone
        exact hdone.2
      · refine List.any_eq_false.mpr fun e he hwait => hids.1 ?_
        simp only [Bool.and_eq_true, decide_eq_true_eq] at hwait
        exact hwait.1 ▸ List.mem_map_of_mem he
  | ask hcall hfound hexisting =>
    refine set hsound rfl (fun _ => id) (fun id hd j c _ => hstays id hd j c) fun id hd => ?_
    have hdone := hstays id hd _ _ hcall
    simpa [Call.pursues, or_assoc] using hdone
  | unasked hcall hexisting =>
    refine set hsound rfl (fun _ => id) (fun id hd j c _ => hstays id hd j c) fun id hd => ?_
    have hdone := hstays id hd _ _ hcall
    simpa [Call.pursues, or_assoc] using hdone
  | unread hcall =>
    exact set hsound rfl (fun _ => id) (fun id hd j c _ => hstays id hd j c) fun _ _ => rfl
  | @settle i result findings receipts hcall hnew hreceipts =>
    have hcalls : (findings.foldl (fun d f => d.update f.before
        (Publisher.reconciled f.before f.reading)) d).calls.set i (.reconciled result) =
          d.calls.set i (.reconciled result) := by
      rw [Desk.foldl_update_calls]
    refine set hsound hcalls ?_ (fun id hd j c hne hj => ?_) fun _ _ => rfl
    · intro e he
      have hattempts : (findings.foldl (fun d f => d.update f.before
          (Publisher.reconciled f.before f.reading)) d).attempts = d.attempts :=
        Desk.foldl_update_attempts
      have hdesk : (!(findings.foldl (fun d f => d.update f.before
          (Publisher.reconciled f.before f.reading)) d).attempts.any
            (self.isAttempt (Publisher.claimed e))) = true := he
      rwa [hattempts] at hdesk
    · rcases Desk.of_delivered_settled hd with hd | ⟨f, hf, rfl, hverified⟩
      · exact hstays id hd j c hj
      · simp only [Act.overlaps, hcall, List.any_eq_false] at ho
        refine Desk.not_pursued ?_ hne hj
        simpa [hverified] using ho f hf

theorem not_overruns (h : d.Untouched self) (act : Act) : act.overruns self d = false := by
  have hstays : ∀ (i : Nat) (c : Call) (id : Id), d.calls[i]? = some c → c.pursues self d id →
      d.delivered id = false := by
    intro i c id hi hpursues
    rw [← Bool.not_eq_true]
    exact fun hd => Bool.false_ne_true ((h.done c (List.mem_of_getElem? hi) id hd).symm.trans hpursues)
  unfold Act.overruns
  split
  · split
    · next result event todo hcall =>
      cases hfree : d.attempts.any (self.isAttempt (Publisher.claimed event)) with
      | true => exact Bool.and_false _
      | false =>
        rw [hstays _ _ event.id hcall (by simp [Call.pursues, Publisher.unclaimed, hfree]), Bool.false_and]
    · rfl
  · split
    · next hcall => exact hstays _ _ _ hcall (by simp [Call.pursues])
    · rfl
  · split
    · next hcall => rw [hstays _ _ _ hcall (by simp [Call.pursues]), Bool.false_and]
    · rfl
  · split
    · next result findings hcall =>
      rw [Bool.and_eq_false_iff, List.any_eq_false]
      refine .inr fun f hf => ?_
      rw [hstays _ _ f.before.id hcall (List.any_eq_true.mpr ⟨f.before, by simpa using ⟨f, hf, rfl⟩, by simp⟩),
        Bool.and_false]
      exact Bool.false_ne_true
    · rfl
  · rfl

end Desk.Untouched

/-- In every run, whatever calls overlap: if no delivery is committed while another call is not done
with the event, then an event that is recorded as delivered stays so and does not go out again. -/
theorem deliveries_stay (self : Publisher) {acts : List Act}
    (h : self.desk.Along (fun d act => act.overlaps self d = false) Desk.empty acts) :
    ∀ first acts' rest, acts = first ++ acts' ++ rest →
      KeepsDelivered (self.desk.run Desk.empty first) (self.desk.run Desk.empty (first ++ acts')) := by
  refine keepsDelivered_run self (self.desk.along_of_invariant Desk.Untouched.empty h
    fun d act hd ho => ⟨hd.not_overruns act, ?_⟩)
  rcases self.next_steps d act with heq | hs
  · exact heq.symm ▸ hd
  · exact hd.steps hs ho

namespace Outbound

/-- Two relays load an event. The first one delivers it, the second one comes too late to claim it. -/
def tooLate : List Act := [.commit (approval "e1" "x" 1 1), .relay "w1", .relay "w1", .claim 0,
  .post 0 (.response 200) true, .record 0, .claim 1, .reconcile "w1", .settle 2]

end Outbound

open Outbound in
theorem deliveries_stay_tooLate : (deskAfter (tooLate.take 6)).delivered "e1" ∧
    KeepsDelivered (deskAfter (tooLate.take 6)) (deskAfter (tooLate.take 6 ++ tooLate.drop 6)) := by
  have hacts : publisher.desk.Along (fun d act => act.overlaps publisher d = false) Desk.empty tooLate := by
    decide +kernel
  exact ⟨by decide +kernel, deliveries_stay publisher hacts _ _ [] (by simp)⟩

open Outbound in
/-- The delivery is lost, although the consumer has the event. -/
theorem overlap_not_keepsDelivered : ¬ ∀ first acts' rest, overlap = first ++ acts' ++ rest →
    KeepsDelivered (deskAfter first) (deskAfter (first ++ acts')) := by
  intro h
  have hkeeps := h (overlap.take 7) (overlap.drop 7) [] (by simp)
  have hbefore : (deskAfter (overlap.take 7)).delivered "e1" := by decide +kernel
  have hbehind : ¬ (deskAfter (overlap.take 7 ++ overlap.drop 7)).delivered "e1" := by decide +kernel
  exact hbehind (hkeeps "e1" hbefore).1

end Recordlane
