import Recordlane.Publications
import Recordlane.Publication.Serial

/-! What the payloads of events tell a consumer, and whether its receipts can be reconciled. -/
namespace Recordlane

variable {rt : Runtime} {w : Workspace} {self : MasteringService} {publisher : Publisher} {s t : Store}
  {d d' : Desk} {act : Act} {e e' row : OutboxRow} {event : OutboxEvent}

/-- An event as mastering writes it. -/
inductive Told (rt : Runtime) (w : Workspace) : OutboxEvent → Prop
  | approved {id entityId : Id} {version : Nat} {values : Dict} {at_ : DateTime} : Told rt w {
      id := id
      workspaceId := w.id
      entityId := some entityId
      entityVersion := some version
      eventType := "master.approved"
      schemaVersion := "1.0"
      payload := [("event_id", .str id), ("workspace_id", .str w.id), ("entity_id", .str entityId),
        ("entity_version", .int version), ("origin", .str "recordlane"), ("values", .obj values),
        ("occurred_at", .str (rt.isoformat at_)), ("schema_version", .str "1.0")]
      status := "pending"
      occurredAt := at_ }
  | announced {who : Principal} {event : OutboxEvent} (h : Announces ⟨rt, who, w⟩ event) :
      Told rt w event

theorem Move.told {p q : Point} (hm : Move self p q)
    (h : ∀ event ∈ p.store.outbox, Told self.rt self.workspace event) :
    ∀ event ∈ q.store.outbox, Told self.rt self.workspace event := by
  have hadded : ∀ {xs : List OutboxEvent} {e : OutboxEvent},
      (∀ event ∈ xs, Told self.rt self.workspace event) → Told self.rt self.workspace e →
      ∀ event ∈ xs ++ [e], Told self.rt self.workspace event := by
    intro xs e hxs he event hevent
    rcases List.mem_append.mp hevent with hevent | hevent
    · exact hxs event hevent
    · exact List.mem_singleton.mp hevent ▸ he
  cases hm with
  | shift hs => exact hs.outbox ▸ h
  | ask _ => exact h
  | settle _ => exact h
  | bump => exact h
  | create _ _ => exact h
  | draft _ hd =>
    obtain ⟨e, -, hdrafted⟩ := MasteringService.draftMaster_drafted hd
    exact hdrafted.outbox ▸ h
  | merge => exact h
  | announce ha => exact hadded h (.announced ha)
  | approve _ _ _ _ _ _ ha _ =>
    obtain ⟨draft, event, happroved⟩ := MasteringService.approveMaster_approved ha
    have htold : Told self.rt self.workspace event := happroved.published ▸ .approved
    exact happroved.outbox ▸ hadded h htold

theorem told_run (rt : Runtime) (w : Workspace) (requests : List Request) :
    ∀ event ∈ ((service rt).run (Store.empty w) requests).outbox, Told rt w event :=
  commit_invariant (P := fun p => ∀ event ∈ p.store.outbox, Told rt w event) integrity_empty
    (by simp [Store.settled, Store.empty]) (fun _ _ _ hm h => hm.told h) (fun _ _ h => h) requests

/-- The receipt of a consumer that keeps the event id and the entity version of a payload. -/
def echo (payload : Dict) : Json :=
  .obj [("event_id", payload.get "event_id"), ("entity_version", payload.get "entity_version")]

/-- The payload names the row, and the echo of the payload tells that it was delivered. -/
structure OutboxRow.Reconcilable (e : OutboxRow) : Prop where
  eventId : e.payload.get "event_id" = .str e.id
  entityId : e.payload.get "entity_id" = (e.entityId.map .str).getD .null
  entityVersion : e.payload.get "entity_version" = (e.entityVersion.map fun n => .int n).getD .null
  verified : Publisher.reading e (.response 200 (.ok (echo e.payload))) = some .verified

theorem reading_echo (hid : e.payload.get "event_id" = .str e.id) :
    Publisher.reading e (.response 200 (.ok (echo e.payload))) =
      some (if (e.payload.get "entity_version").pyEq ((e.entityVersion.map fun n => .int n).getD .null)
        then .verified else .unresolved "consumer_receipt_mismatch") := by
  have hget : Dict.get [("event_id", e.payload.get "event_id"),
        ("entity_version", e.payload.get "entity_version")] "event_id" = .str e.id ∧
      Dict.get [("event_id", e.payload.get "event_id"),
        ("entity_version", e.payload.get "entity_version")] "entity_version" =
          e.payload.get "entity_version" := ⟨hid, rfl⟩
  cases hv : (e.payload.get "entity_version").pyEq
    ((e.entityVersion.map fun n => .int n).getD .null) <;>
    simp [Publisher.reading, echo, hget, Json.pyEq, hv]

theorem reconcilable_of_fields (hid : e.payload.get "event_id" = .str e.id)
    (hentity : e.payload.get "entity_id" = (e.entityId.map .str).getD .null) {n : Nat}
    (hversion : e.entityVersion = some n) (hn : e.payload.get "entity_version" = .int n) :
    e.Reconcilable := by
  refine ⟨hid, hentity, ?_, ?_⟩
  · rw [hn, hversion]
    rfl
  · rw [reading_echo hid, hn, hversion]
    simp [Json.pyEq, Json.number?]

/-- The payload of a split does not name the version of its row. -/
theorem Told.reconcilable_iff (h : Told rt w event) :
    event.row.Reconcilable ↔ event.eventType ≠ "identity.split" := by
  cases h with
  | approved =>
    have hother : "master.approved" ≠ "identity.split" := by decide
    exact ⟨fun _ => hother, fun _ => reconcilable_of_fields rfl rfl rfl rfl⟩
  | announced ha =>
    cases ha with
    | merged =>
      have hother : "identity.merged" ≠ "identity.split" := by decide
      exact ⟨fun _ => hother, fun _ => reconcilable_of_fields rfl rfl rfl rfl⟩
    | split => exact ⟨fun hr => absurd hr.entityVersion nofun, fun hne => (hne rfl).elim⟩

/-- The row is that of an event of a list, with the columns of publication as they may be. -/
def OutboxRow.RowOf (events : List OutboxEvent) (row : OutboxRow) : Prop :=
  ∃ event ∈ events, event.row.Follows row

theorem OutboxRow.RowOf.follows {events : List OutboxEvent} (h : e.RowOf events) (hf : e.Follows e') :
    e'.RowOf events := by
  obtain ⟨event, hevent, he⟩ := h
  refine ⟨event, hevent, ?_⟩
  rw [Follows] at he hf ⊢
  rw [hf, he]

/-- Publication works on rows of committed events only. -/
structure Desk.RowsOf (events : List OutboxEvent) (d : Desk) : Prop where
  stored : ∀ e ∈ d.events, e.RowOf events
  copies : ∀ call ∈ d.calls, ∀ e ∈ call.copies, e.RowOf events
  sent : ∀ row outcome taken, .post row outcome taken ∈ d.exchanges → row.RowOf events

namespace Desk.RowsOf

variable {events : List OutboxEvent}

theorem update {before after : OutboxRow} (h : ∀ e ∈ d.events, e.RowOf events) :
    ∀ e ∈ (d.update before after).events, e.RowOf events := by
  intro e he
  rcases Table.mem_modify.mp he with ⟨he, -⟩ | ⟨row, hrow, -, rfl⟩
  · exact h e he
  · exact (h row hrow).follows rfl

theorem settled {findings : List Finding} {f : Finding → OutboxRow}
    (h : ∀ e ∈ d.events, e.RowOf events) :
    ∀ e ∈ (findings.foldl (fun d x => d.update x.before (f x)) d).events, e.RowOf events := by
  induction findings generalizing d with
  | nil => exact h
  | cons x findings ih => exact ih (update h)

theorem setCall {i : Nat} {call call' : Call} (h : d.RowsOf events)
    (hstored : ∀ e ∈ d'.events, e.RowOf events) (hcalls : d'.calls = d.calls.set i call')
    (hcall : d.calls[i]? = some call)
    (hcopies : ∀ e ∈ call'.copies, ∃ e₀ ∈ call.copies, e₀.Follows e)
    (hsent : ∀ row outcome taken, .post row outcome taken ∈ d'.exchanges → row.RowOf events) :
    d'.RowsOf events := by
  refine ⟨hstored, fun c hc e he => ?_, hsent⟩
  rw [hcalls] at hc
  rcases List.mem_or_eq_of_mem_set hc with hc | rfl
  · exact h.copies c hc e he
  · obtain ⟨e₀, he₀, hf⟩ := hcopies e he
    exact (h.copies _ (List.mem_of_getElem? hcall) e₀ he₀).follows hf

theorem start {call : Call} (h : d.RowsOf events) (hevents : d'.events = d.events)
    (hcalls : d'.calls = d.calls ++ [call]) (hexchanges : d'.exchanges = d.exchanges)
    (hcopies : ∀ e ∈ call.copies, e ∈ d.events) : d'.RowsOf events := by
  refine ⟨hevents ▸ h.stored, fun c hc e he => ?_, hexchanges ▸ h.sent⟩
  rw [hcalls] at hc
  rcases List.mem_append.mp hc with hc | hc
  · exact h.copies c hc e he
  · exact h.stored e (hcopies e (List.mem_singleton.mp hc ▸ he))

theorem steps (h : d.RowsOf events) (hs : publisher.Steps d act d')
    (hcommit : ∀ event, act = .commit event → event ∈ events) : d'.RowsOf events := by
  cases hs with
  | @commit event _ =>
    refine ⟨fun e he => ?_, h.copies, h.sent⟩
    rcases List.mem_append.mp he with he | he
    · exact h.stored e he
    · exact List.mem_singleton.mp he ▸ ⟨event, hcommit event rfl, rfl⟩
  | relay => exact h.start rfl rfl rfl fun e he => (Publisher.mem_load he).1
  | reconcile => exact h.start rfl rfl rfl fun e he => (Publisher.mem_load he).1
  | @close _ i call hover _ =>
    refine ⟨h.stored, fun c hc e he => ?_, h.sent⟩
    rcases List.mem_or_eq_of_mem_set hc with hc | rfl
    · exact h.copies c hc e he
    · rw [Call.copies_of_over hover] at he
      cases he
  | claim hcall _ =>
    refine h.setCall (update h.stored) rfl hcall (fun e he => ?_) h.sent
    rcases List.mem_cons.mp he with rfl | he
    · exact ⟨_, List.mem_cons_self, Publisher.follows_claimed⟩
    · exact ⟨e, List.mem_cons_of_mem _ he, rfl⟩
  | @post i result event todo outcome taken call hcall hnext =>
    have hcopies := h.copies _ (List.mem_of_getElem? hcall)
    refine h.setCall h.stored rfl hcall (fun e he => ⟨e, ?_, rfl⟩) fun row outcome' taken' hpost => ?_
    · rcases hnext with rfl | ⟨status, -, rfl⟩
      · cases he
      · exact he
    · rcases List.mem_append.mp hpost with hpost | hpost
      · exact h.sent row outcome' taken' hpost
      · obtain ⟨rfl, -, -⟩ := Exchange.post.inj (List.mem_singleton.mp hpost)
        exact hcopies row List.mem_cons_self
  | record hcall =>
    exact h.setCall (update h.stored) rfl hcall (fun e he => ⟨e, List.mem_cons_of_mem _ he, rfl⟩) h.sent
  | ask hcall _ =>
    refine h.setCall h.stored rfl hcall (fun e he => ⟨e, ?_, rfl⟩) fun row outcome' taken' hpost => ?_
    · simpa [Call.copies] using he
    · exact h.sent row outcome' taken' (by simpa using hpost)
  | unasked hcall =>
    refine h.setCall h.stored rfl hcall (fun e he => ⟨e, ?_, rfl⟩) h.sent
    simpa [Call.copies] using he
  | unread hcall =>
    refine h.setCall h.stored rfl hcall (fun e he => by cases he) fun row outcome' taken' hpost => ?_
    exact h.sent row outcome' taken' (by simpa using hpost)
  | @settle i result findings receipts hcall _ =>
    have hcalls : (findings.foldl (fun d f => d.update f.before
        (Publisher.reconciled f.before f.reading)) d).calls.set i (.reconciled result) =
          d.calls.set i (.reconciled result) := by
      rw [Desk.foldl_update_calls]
    refine h.setCall (settled h.stored) hcalls hcall (fun e he => by cases he) ?_
    intro row outcome taken hpost
    exact h.sent row outcome taken (Desk.foldl_update_exchanges ▸ hpost)

end Desk.RowsOf

theorem rowsOf_run (publisher : Publisher) {acts : List Act} {events : List OutboxEvent}
    (h : ∀ event, .commit event ∈ acts → event ∈ events) :
    (publisher.desk.run Desk.empty acts).RowsOf events := by
  refine publisher.desk.run_invariant (P := Desk.RowsOf events)
    (Φ := fun _ act => ∀ event, act = .commit event → event ∈ events) ?_ ?_ ?_
  · constructor <;> simp [Desk.empty]
  · exact publisher.desk.along_of_mem fun act hact _ event heq => h event (heq ▸ hact)
  · intro d act hd hact
    rcases publisher.next_steps d act with heq | hs
    · exact heq.symm ▸ hd
    · exact hd.steps hs hact

theorem OutboxRow.Reconcilable.follows (h : e.Reconcilable) (hf : e.Follows e') : e'.Reconcilable := by
  rw [Follows] at hf
  rw [hf]
  exact ⟨h.eventId, h.entityId, h.entityVersion, h.verified⟩

theorem OutboxRow.Follows.symm (h : e.Follows e') : e'.Follows e := by
  rw [Follows] at h ⊢
  rw [h]

/-- The events of a reachable store can be reconciled by the echo of their payloads, as they are and
as any relay sends them, if and only if they are no splits. -/
theorem outbox_reconcilable_iff (h : Reachable rt w s) :
    (∀ event ∈ s.outbox, event.row.Reconcilable ↔ event.eventType ≠ "identity.split") ∧
    ∀ (publisher : Publisher) (acts : List Act), (∀ event, .commit event ∈ acts → event ∈ s.outbox) →
      ∀ row outcome taken, .post row outcome taken ∈ (publisher.desk.run Desk.empty acts).exchanges →
        ∃ event ∈ s.outbox, event.row.Follows row ∧
          (row.Reconcilable ↔ event.eventType ≠ "identity.split") := by
  obtain ⟨requests, rfl⟩ := h
  have hreconcilable : ∀ event ∈ ((service rt).run (Store.empty w) requests).outbox,
      event.row.Reconcilable ↔ event.eventType ≠ "identity.split" :=
    fun event hevent => (told_run rt w requests event hevent).reconcilable_iff
  refine ⟨hreconcilable, fun publisher acts hacts row outcome taken hsent => ?_⟩
  obtain ⟨event, hevent, hfollows⟩ := (rowsOf_run publisher hacts).sent row outcome taken hsent
  refine ⟨event, hevent, hfollows, ?_⟩
  rw [← hreconcilable event hevent]
  exact ⟨fun hr => hr.follows hfollows.symm, fun hr => hr.follows hfollows⟩

open Supplier in
theorem outbox_reconcilable_approved :
    ∃ event ∈ (after [three, approve (uid 11)]).outbox, event.row.Reconcilable := by
  obtain ⟨event, hevent, htype⟩ : ∃ event ∈ (after [three, approve (uid 11)]).outbox,
      event.eventType ≠ "identity.split" := by decide +kernel
  have hreachable : Reachable .plain workspace (after [three, approve (uid 11)]) := ⟨setup ++ _, rfl⟩
  exact ⟨event, hevent, ((outbox_reconcilable_iff hreachable).1 event hevent).mpr htype⟩

open Supplier in
theorem split_not_reconcilable :
    ¬ ∀ s, Reachable .plain workspace s → ∀ event ∈ s.outbox, event.row.Reconcilable := by
  intro h
  obtain ⟨event, hevent, hread⟩ : ∃ event ∈ (after splitTwins).outbox,
      Publisher.reading event.row (.response 200 (.ok (echo event.payload))) ≠ some .verified := by
    decide +kernel
  exact hread (h (after splitTwins) ⟨setup ++ splitTwins, rfl⟩ event hevent).verified

end Recordlane
