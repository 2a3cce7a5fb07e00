import Recordlane.Publication.Consumer

/-! What the consumer has: every event at most once, nothing that was not sent, and all that is recorded
as delivered. -/
namespace Recordlane

variable {self : Connection} {publisher : Publisher} {c : Channel} {d d' : Desk} {act : Act}
  {e event row : OutboxRow} {id : Id} {stored : List StoredEvent} {request : EventRequest}
  {K K' : Id → Prop}

/-- The columns that publication does not write. -/
def OutboxRow.original (e : OutboxRow) : OutboxEvent where
  id := e.id
  workspaceId := e.workspaceId
  entityId := e.entityId
  entityVersion := e.entityVersion
  eventType := ""
  schemaVersion := ""
  payload := e.payload
  status := "pending"
  occurredAt := e.occurredAt

theorem OutboxRow.Follows.trans (h : e.Follows event) (h' : event.Follows row) : e.Follows row := by
  rw [Follows] at h h' ⊢
  rw [h', h]

/-- Every copy and every row that was sent is one of a stored row. -/
def Desk.Copied (d : Desk) : Prop := d.RowsOf (d.events.map OutboxRow.original)

namespace Desk.Copied

theorem kept (hs : publisher.Steps d act d') (he : e ∈ d.events) : ∃ e' ∈ d'.events, e.Follows e' := by
  have hupdate : ∀ {d : Desk} (before after : OutboxRow) {e : OutboxRow}, e ∈ d.events →
      ∃ e' ∈ (d.update before after).events, e.Follows e' := by
    intro d before after e he
    by_cases hid : e.id = before.id
    · exact ⟨before.flush after e, Table.mem_modify.mpr (.inr ⟨e, he, hid, rfl⟩), rfl⟩
    · exact ⟨e, Table.mem_modify.mpr (.inl ⟨he, hid⟩), rfl⟩
  have hfold : ∀ (findings : List Finding) {d : Desk} {e : OutboxRow}, e ∈ d.events →
      ∃ e' ∈ (findings.foldl (fun d f => d.update f.before
        (Publisher.reconciled f.before f.reading)) d).events, e.Follows e' := by
    intro findings
    induction findings with
    | nil => exact fun he => ⟨_, he, rfl⟩
    | cons f findings ih =>
      intro d e he
      obtain ⟨e', he', hf⟩ := hupdate f.before (Publisher.reconciled f.before f.reading) he
      obtain ⟨e'', he'', hf'⟩ := ih he'
      exact ⟨e'', he'', hf.trans hf'⟩
  cases hs with
  | commit _ => exact ⟨e, List.mem_append_left _ he, rfl⟩
  | claim _ _ _ => exact hupdate _ _ he
  | record _ _ _ => exact hupdate _ _ he
  | settle _ _ _ => exact hfold _ he
  | _ => exact ⟨e, he, rfl⟩

theorem mono {events events' : List OutboxEvent} (h : d.RowsOf events)
    (hle : ∀ e : OutboxRow, e.RowOf events → e.RowOf events') : d.RowsOf events' :=
  ⟨fun e he => hle e (h.stored e he), fun call hc e he => hle e (h.copies call hc e he),
    fun row outcome taken hsent => hle row (h.sent row outcome taken hsent)⟩

theorem rowOf_iff : e.RowOf (d.events.map OutboxRow.original) ↔ ∃ e₀ ∈ d.events, e₀.Follows e := by
  constructor
  · rintro ⟨event, hevent, hf⟩
    obtain ⟨e₀, he₀, rfl⟩ := List.mem_map.mp hevent
    exact ⟨e₀, he₀, hf⟩
  · rintro ⟨e₀, he₀, hf⟩
    exact ⟨e₀.original, List.mem_map_of_mem he₀, hf⟩

theorem steps (h : d.Copied) (hs : publisher.Steps d act d') : d'.Copied := by
  have hgrown : d.RowsOf (d'.events.map OutboxRow.original) := by
    refine mono h fun e he => ?_
    obtain ⟨e₀, he₀, hf⟩ := rowOf_iff.mp he
    obtain ⟨e₁, he₁, hf₁⟩ := kept hs he₀
    exact rowOf_iff.mpr ⟨e₁, he₁, hf₁.symm.trans hf⟩
  by_cases hcommit : ∃ event, act = .commit event
  · obtain ⟨event, rfl⟩ := hcommit
    cases hs with
    | commit _ => exact ⟨fun e he => rowOf_iff.mpr ⟨e, he, rfl⟩, hgrown.copies, hgrown.sent⟩
    | @close _ i call hover _ =>
      have hclose : publisher.Steps d (.crash 0) (d.setCall i call) := .close hover (by simp)
      exact hgrown.steps hclose fun _ heq => by cases heq
  · exact hgrown.steps hs fun event heq => (hcommit ⟨event, heq⟩).elim

end Desk.Copied

namespace Publisher

theorem Steps.origin (hs : publisher.Steps d act d') (he : e ∈ d'.events) :
    (∃ e₀ ∈ d.events, e₀.Follows e) ∨ ∃ event, act = .commit event ∧ e = event.row := by
  have hupdate : ∀ (d : Desk) (before after : OutboxRow) (e : OutboxRow),
      e ∈ (d.update before after).events → ∃ e₀ ∈ d.events, e₀.Follows e := by
    intro d before after e he
    rcases Table.mem_modify.mp he with ⟨he, -⟩ | ⟨row, hrow, -, rfl⟩
    · exact ⟨e, he, rfl⟩
    · exact ⟨row, hrow, rfl⟩
  have hfold : ∀ (findings : List Finding) (d : Desk) (e : OutboxRow),
      e ∈ (findings.foldl (fun d f => d.update f.before (reconciled f.before f.reading)) d).events →
        ∃ e₀ ∈ d.events, e₀.Follows e := by
    intro findings
    induction findings with
    | nil => exact fun d e he => ⟨e, he, rfl⟩
    | cons f findings ih =>
      intro d e he
      obtain ⟨e₁, he₁, hf₁⟩ := ih _ e he
      obtain ⟨e₀, he₀, hf₀⟩ := hupdate d _ _ e₁ he₁
      exact ⟨e₀, he₀, hf₀.trans hf₁⟩
  cases hs with
  | commit _ =>
    rcases List.mem_append.mp he with he | he
    · exact .inl ⟨e, he, rfl⟩
    · exact .inr ⟨_, rfl, List.mem_singleton.mp he⟩
  | claim _ _ _ => exact .inl (hupdate _ _ _ e he)
  | record _ _ _ => exact .inl (hupdate _ _ _ e he)
  | settle _ _ _ => exact .inl (hfold _ _ e he)
  | _ => exact .inl ⟨e, he, rfl⟩

theorem Steps.exchanges (hs : publisher.Steps d act d') {x : Exchange} (hx : x ∈ d.exchanges) :
    x ∈ d'.exchanges := by
  cases hs with
  | post _ _ => exact List.mem_append_left _ hx
  | ask _ _ _ => exact List.mem_append_left _ hx
  | unread _ => exact List.mem_append_left _ hx
  | settle _ _ _ => exact (Desk.foldl_update_exchanges (d := d)).symm ▸ hx
  | _ => exact hx

theorem succeeds_of_accepted {outcome : PostOutcome} (h : attemptStatus outcome = some .accepted) :
    outcome.succeeds = true := by
  cases outcome with
  | response statusCode =>
    rw [attemptStatus] at h
    split at h
    · next hsuccess => simpa [PostOutcome.succeeds] using hsuccess
    · split at h <;> simp at h
  | raised exc =>
    rw [attemptStatus] at h
    split at h
    · simp at h
    · split at h <;> simp at h
  | killed => cases h

theorem succeeds_of_verified {answer : ReceiptAnswer} (h : reading event answer = some .verified) :
    answer.succeeds = true := by
  cases answer with
  | response statusCode body =>
    simp only [reading] at h
    split at h
    · simp at h
    · split at h
      · simp at h
      · next hsuccess => simpa [ReceiptAnswer.succeeds] using hsuccess
  | raised exc =>
    rw [reading] at h
    split at h <;> simp at h
  | killed => cases h

end Publisher

/-- What is recorded as delivered, and what calls are about to record so, is so of its id. -/
structure Desk.Backed (K : Id → Prop) (d : Desk) : Prop where
  delivered : ∀ e ∈ d.events, e.status = .delivered → K e.id
  accepted : ∀ result event outcome todo,
    .posted result event outcome .accepted todo ∈ d.calls → K event.id
  verified : ∀ result findings todo, .reconciling result findings todo ∈ d.calls →
    ∀ f ∈ findings, f.reading = .verified → K f.before.id

namespace Desk.Backed

theorem mono (h : d.Backed K) (hle : ∀ id, K id → K' id) : d.Backed K' :=
  ⟨fun e he hs => hle _ (h.delivered e he hs),
    fun _ _ _ _ hc => hle _ (h.accepted _ _ _ _ hc),
    fun _ _ _ hc f hf hr => hle _ (h.verified _ _ _ hc f hf hr)⟩

theorem update {before after : OutboxRow} (h : ∀ e ∈ d.events, e.status = .delivered → K e.id)
    (hafter : after.status = .delivered → K before.id) :
    ∀ e ∈ (d.update before after).events, e.status = .delivered → K e.id := by
  intro e he hdelivered
  rcases Table.mem_modify.mp he with ⟨he, -⟩ | ⟨row, hrow, hid, rfl⟩
  · exact h e he hdelivered
  · change K row.id
    rw [OutboxRow.flush] at hdelivered
    dsimp only at hdelivered
    split at hdelivered
    · exact h row hrow hdelivered
    · exact hid ▸ hafter hdelivered

theorem settled {findings : List Finding} {f : Finding → OutboxRow}
    (h : ∀ e ∈ d.events, e.status = .delivered → K e.id)
    (hf : ∀ x ∈ findings, (f x).status = .delivered → K x.before.id) :
    ∀ e ∈ (findings.foldl (fun d x => d.update x.before (f x)) d).events,
      e.status = .delivered → K e.id := by
  induction findings generalizing d with
  | nil => exact h
  | cons x findings ih =>
    exact ih (update h (hf x List.mem_cons_self)) fun y hy => hf y (List.mem_cons_of_mem _ hy)

theorem of_calls {call : Call} (h : d.Backed K)
    (hevents : ∀ e ∈ d'.events, e.status = .delivered → K e.id)
    (hcalls : ∀ c ∈ d'.calls, c ∈ d.calls ∨ c = call)
    (haccepted : ∀ result event outcome todo, call = .posted result event outcome .accepted todo →
      K event.id)
    (hverified : ∀ result findings todo, call = .reconciling result findings todo →
      ∀ f ∈ findings, f.reading = .verified → K f.before.id) : d'.Backed K := by
  refine ⟨hevents, fun result event outcome todo hc => ?_, fun result findings todo hc => ?_⟩
  · rcases hcalls _ hc with hc | hc
    · exact h.accepted _ _ _ _ hc
    · exact haccepted _ _ _ _ hc.symm
  · rcases hcalls _ hc with hc | hc
    · exact h.verified _ _ _ hc
    · exact hverified _ _ _ hc.symm

/-- A step keeps this, if a POST that is accepted and a receipt that is verified are such. -/
theorem steps (h : d.Backed K) (hsound : d.Sound) (hs : publisher.Steps d act d')
    (hpost : ∀ i outcome taken result event todo, act = .post i outcome taken →
      d.calls[i]? = some (.claimed result event todo) →
      Publisher.attemptStatus outcome = some .accepted → K event.id)
    (hask : ∀ i answer result findings event todo, act = .ask i answer →
      d.calls[i]? = some (.reconciling result findings (event :: todo)) →
      Publisher.reading event answer = some .verified → K event.id) : d'.Backed K := by
  have hset : ∀ {calls : List Call} {i : Nat} {call : Call}, ∀ c ∈ calls.set i call,
      c ∈ calls ∨ c = call := fun c hc => List.mem_or_eq_of_mem_set hc
  have happend : ∀ {calls : List Call} {call : Call}, ∀ c ∈ calls ++ [call],
      c ∈ calls ∨ c = call := fun c hc => by simpa using hc
  have hfound : ∀ {result : ReconcileResult} {findings : List Finding} {event : OutboxRow}
      {todo : List OutboxRow} {found : Reading} {existing : Bool} {i : Nat},
      d.calls[i]? = some (.reconciling result findings (event :: todo)) →
      (found = .verified → K event.id) →
      ∀ f ∈ findings ++ [⟨event, found, existing⟩], f.reading = .verified → K f.before.id := by
    intro result findings event todo found existing i hcall hK f hf hreading
    rcases List.mem_append.mp hf with hf | hf
    · exact h.verified _ _ _ (List.mem_of_getElem? hcall) f hf hreading
    · obtain rfl := List.mem_singleton.mp hf
      exact hK hreading
  cases hs with
  | commit _ =>
    refine ⟨fun e he hs => ?_, h.accepted, h.verified⟩
    rcases List.mem_append.mp he with he | he
    · exact h.delivered e he hs
    · obtain rfl := List.mem_singleton.mp he
      cases hs
  | relay =>
    refine h.of_calls h.delivered happend (fun _ _ _ _ heq => ?_) fun _ _ _ heq => ?_
    · cases heq
    · cases heq
  | reconcile =>
    refine h.of_calls h.delivered happend (fun _ _ _ _ heq => ?_) fun _ _ _ heq f hf => ?_
    · cases heq
    · cases heq
      cases hf
  | @close _ i call hover _ =>
    refine h.of_calls h.delivered hset (fun _ _ _ _ heq => ?_) fun _ _ _ heq => ?_
    · rw [heq] at hover
      cases hover
    · rw [heq] at hover
      cases hover
  | claim hcall _ _ =>
    refine h.of_calls (update h.delivered fun hs => ?_) hset (fun _ _ _ _ heq => ?_)
      fun _ _ _ heq => ?_
    · cases hs
    · cases heq
    · cases heq
  | @post i result event todo outcome taken call hcall hnext =>
    refine h.of_calls h.delivered hset (fun _ _ _ _ heq => ?_) fun _ _ _ heq => ?_
    · rcases hnext with rfl | ⟨status, hstatus, rfl⟩
      · cases heq
      · cases heq
        exact hpost i outcome taken result event todo rfl hcall hstatus
    · rcases hnext with rfl | ⟨status, -, rfl⟩
      · cases heq
      · cases heq
  | @record i result result' event outcome status todo attempts receipts hcall _ _ =>
    refine h.of_calls (update h.delivered fun hs => ?_) hset (fun _ _ _ _ heq => ?_)
      fun _ _ _ heq => ?_
    · have hstatus : status = .accepted := by
        cases status with
        | accepted => rfl
        | _ =>
          simp only [Publisher.recorded, Publisher.eventStatus] at hs
          first
          | cases hs
          | split at hs <;> cases hs
      subst hstatus
      exact h.accepted _ _ _ _ (List.mem_of_getElem? hcall)
    · cases heq
    · cases heq
  | @ask i result result' findings event todo answer found existing hcall hread _ =>
    refine h.of_calls h.delivered hset (fun _ _ _ _ heq => ?_) fun _ _ _ heq => ?_
    · cases heq
    · cases heq
      exact hfound hcall fun hverified =>
        hask i answer result findings event todo rfl hcall (hverified ▸ hread)
  | @unasked i result result' findings event todo answer error existing hcall _ =>
    refine h.of_calls h.delivered hset (fun _ _ _ _ heq => ?_) fun _ _ _ heq => ?_
    · cases heq
    · cases heq
      exact hfound hcall fun hverified => by cases hverified
  | unread hcall =>
    refine h.of_calls h.delivered hset (fun _ _ _ _ heq => ?_) fun _ _ _ heq => ?_
    · cases heq
    · cases heq
  | @settle i result findings receipts hcall _ _ =>
    have hmem := List.mem_of_getElem? hcall
    have hcalls : ∀ c ∈ (findings.foldl (fun d f => d.update f.before
        (Publisher.reconciled f.before f.reading)) d).calls.set i (.reconciled result),
        c ∈ d.calls ∨ c = .reconciled result := by
      rw [Desk.foldl_update_calls]
      exact hset
    refine h.of_calls (settled h.delivered fun f hf hs => ?_) hcalls (fun _ _ _ _ heq => ?_)
      fun _ _ _ heq => ?_
    · refine h.verified _ _ _ hmem f hf ?_
      have hmark := (hsound.marked _ hmem).1 f hf
      cases hread : f.reading with
      | verified => rfl
      | absent => simp [Publisher.reconciled, hread] at hs
      | unresolved error => simp [Publisher.reconciled, hread, hmark] at hs
    · cases heq
    · cases heq

end Desk.Backed

theorem Reception.isKept_of_succeeds {reception : Reception} {simulate : Option String}
    (h : (PostOutcome.response (reception.statusCode simulate)).succeeds = true) :
    reception.isKept = true := by
  cases reception with
  | kept _ _ => rfl
  | _ => cases h

/-- The consumer has an event of this id. -/
def Channel.Holds (c : Channel) (id : Id) : Prop := ∃ r ∈ c.stored, r.eventId = .str id

namespace Consumer

variable {consumer : Consumer}

theorem insert_cases {r : StoredEvent} :
    insert stored r = (stored, false) ∧ r.eventId ≠ .null ∧ (∃ r' ∈ stored, r'.eventId = r.eventId) ∨
      insert stored r = (stored ++ [r], true) ∧
        (r.eventId ≠ .null → ∀ r' ∈ stored, r'.eventId ≠ r.eventId) := by
  unfold insert
  split
  · next h => exact .inl ⟨rfl, by simpa using h⟩
  · next h =>
    refine .inr ⟨rfl, fun hnull r' hr' heq => h ?_⟩
    simp only [Bool.and_eq_true, decide_eq_true_eq, List.any_eq_true]
    exact ⟨hnull, r', hr', heq⟩

theorem receiveEvent_cases :
    ((consumer.receiveEvent stored request).1 = stored ∧
        (consumer.receiveEvent stored request).2.isKept = false) ∨
      ∃ payload r, consumer.loads request.body = some (.obj payload) ∧
        consumer.refusal request = none ∧
        consumer.row payload request.body (consumer.isoformat request.time) = some r ∧
        (consumer.receiveEvent stored request).1 = (insert stored r).1 := by
  unfold receiveEvent
  split
  · exact .inl ⟨rfl, rfl⟩
  · next payload hloads =>
    split
    · exact .inl ⟨rfl, rfl⟩
    · next hrefusal =>
      split
      · next payload =>
        split
        · exact .inl ⟨rfl, rfl⟩
        · next r hrow => exact .inr ⟨payload, r, hloads, hrefusal, hrow, rfl⟩
      · exact .inl ⟨rfl, rfl⟩

theorem row_eq_some {payload : Dict} {body receivedAt : String} {r : StoredEvent}
    (h : consumer.row payload body receivedAt = some r) :
    consumer.text (payload.get "event_id") = some r.eventId ∧ r.payload = body ∧
      r.receivedAt = receivedAt := by
  simp only [row, Option.bind_eq_bind, Option.bind_eq_some_iff, Option.pure_def] at h
  obtain ⟨eventId, hget, key, hkey, entityId, -, version, -, heq⟩ := h
  obtain rfl := Option.some.inj heq
  refine ⟨?_, rfl, rfl⟩
  rw [Dict.get, hget]
  exact hkey

theorem row_columns {payload : Dict} {body receivedAt : String} {r : StoredEvent}
    (h : consumer.row payload body receivedAt = some r) :
    consumer.text (payload.get "entity_id") = some r.entityId ∧
      consumer.integer (payload.get "entity_version") = some r.entityVersion := by
  simp only [row, Option.bind_eq_bind, Option.bind_eq_some_iff, Option.pure_def] at h
  obtain ⟨eventId, -, key, -, entityId, hentity, version, hversion, heq⟩ := h
  obtain rfl := Option.some.inj heq
  exact ⟨hentity, hversion⟩

end Consumer

namespace Connection

/-- The consumer reads the payload as it was written, and finds the id of the event in it. -/
structure Readable (link : Connection) (payload : Dict) (id : Id) : Prop where
  loads : link.consumer.loads (link.dumps payload) = some (.obj payload.sorted)
  eventId : payload.get "event_id" = .str id

/-- The row of the consumer is that of an event that went out. -/
def Sent (self : Connection) (d : Desk) (r : StoredEvent) : Prop :=
  ∃ row outcome taken, .post row outcome taken ∈ d.exchanges ∧ r.eventId = .str row.id ∧
    self.consumer.row row.payload.sorted (self.dumps row.payload) r.receivedAt = some r

/-- What the desk and the consumer have of each other. -/
structure Consistent (link : Connection) (c : Channel) : Prop where
  sound : c.desk.Sound
  copied : c.desk.Copied
  backed : c.desk.Backed c.Holds
  readable : ∀ e ∈ c.desk.events, link.Readable e.payload e.id
  once : (c.stored.map StoredEvent.eventId).Nodup
  sent : ∀ r ∈ c.stored, link.Sent c.desk r

/-- Events that are committed can be read, and whoever sends a request with a valid signature has it
from a request that went out before. -/
def Genuine (self : Connection) (c : Channel) : ChannelAct → Prop
  | .desk (.commit event) => self.Readable event.payload event.id
  | .foreign request => self.consumer.refusal request = none →
      ∃ row outcome taken, .post row outcome taken ∈ c.desk.exchanges ∧
        request.body = self.dumps row.payload
  | _ => True

theorem receiveEvent_readable {payload : Dict} (h : self.Readable payload id)
    (hbody : request.body = self.dumps payload) :
    (self.consumer.receiveEvent stored request).1 = stored ∧
        ((self.consumer.receiveEvent stored request).2.isKept → ∃ r ∈ stored, r.eventId = .str id) ∨
      ∃ r : StoredEvent, (self.consumer.receiveEvent stored request).1 = stored ++ [r] ∧
        r.eventId = .str id ∧
        self.consumer.row payload.sorted (self.dumps payload) r.receivedAt = some r ∧
        ∀ r' ∈ stored, r'.eventId ≠ .str id := by
  rcases Consumer.receiveEvent_cases with ⟨hsame, hkept⟩ | ⟨d, r, hloads, -, hrow, hstored⟩
  · exact .inl ⟨hsame, fun h => by rw [hkept] at h; cases h⟩
  · rw [hbody, h.loads] at hloads
    obtain rfl := Json.obj.inj (Option.some.inj hloads)
    obtain ⟨hkey, -, hreceived⟩ := Consumer.row_eq_some hrow
    rw [hbody, ← hreceived] at hrow
    have hid : r.eventId = .str id := by
      have hget : payload.sorted.get "event_id" = .str id := by
        have := h.eventId
        rw [Dict.get] at this ⊢
        rw [Dict.get?_sorted]
        cases hfound : payload.get? "event_id" with
        | none => simp [hfound] at this
        | some v =>
          rw [hfound, Option.getD_some] at this
          subst this
          rfl
      rw [hget, Consumer.text] at hkey
      exact (Option.some.inj hkey).symm
    rw [hstored]
    rcases @Consumer.insert_cases stored r with ⟨hinsert, -, r', hr', heq⟩ | ⟨hinsert, hnew⟩
    · exact .inl ⟨congrArg Prod.fst hinsert, fun _ => ⟨r', hr', heq.trans hid⟩⟩
    · refine .inr ⟨r, congrArg Prod.fst hinsert, hid, hrow, ?_⟩
      rw [← hid]
      exact hnew (by rw [hid]; simp)

theorem Readable.follows (h : self.Readable e.payload e.id) (hf : e.Follows event) :
    self.Readable event.payload event.id := by
  rw [OutboxRow.Follows] at hf
  rw [hf]
  exact h

namespace Consistent

theorem empty : self.Consistent Channel.empty := by
  refine ⟨.empty, ⟨?_, ?_, ?_⟩, ⟨?_, ?_, ?_⟩, ?_, ?_, ?_⟩ <;> simp [Channel.empty, Desk.empty]

theorem copy_readable (h : self.Consistent c) (he : e.RowOf (c.desk.events.map OutboxRow.original)) :
    self.Readable e.payload e.id := by
  obtain ⟨e₀, he₀, hf⟩ := Desk.Copied.rowOf_iff.mp he
  exact (h.readable e₀ he₀).follows hf

/-- The desk takes a step or none, and the consumer may get a request that went out. -/
theorem of_steps {d' : Desk} {stored' : List StoredEvent} (h : self.Consistent c)
    (hs : d' = c.desk ∨ self.publisher.Steps c.desk act d')
    (hcommit : ∀ event, act = .commit event → self.Readable event.payload event.id)
    (hstored : stored' = c.stored ∨ ∃ r row outcome taken, stored' = c.stored ++ [r] ∧
      .post row outcome taken ∈ d'.exchanges ∧ r.eventId = .str row.id ∧
      self.consumer.row row.payload.sorted (self.dumps row.payload) r.receivedAt = some r ∧
      ∀ r' ∈ c.stored, r'.eventId ≠ .str row.id)
    (hpost : ∀ i outcome taken result event todo, act = .post i outcome taken →
      c.desk.calls[i]? = some (.claimed result event todo) →
      Publisher.attemptStatus outcome = some .accepted → Channel.Holds ⟨d', stored'⟩ event.id)
    (hask : ∀ i answer result findings event todo, act = .ask i answer →
      c.desk.calls[i]? = some (.reconciling result findings (event :: todo)) →
      Publisher.reading event answer = some .verified → c.Holds event.id) :
    self.Consistent ⟨d', stored'⟩ := by
  have hgrown : ∀ id, c.Holds id → Channel.Holds ⟨d', stored'⟩ id := by
    rintro id ⟨r, hr, hid⟩
    refine ⟨r, ?_, hid⟩
    rcases hstored with rfl | ⟨r', row, outcome, taken, rfl, -⟩
    · exact hr
    · exact List.mem_append_left _ hr
  have honce : (stored'.map StoredEvent.eventId).Nodup := by
    rcases hstored with rfl | ⟨r, row, outcome, taken, rfl, -, hid, -, hnew⟩
    · exact h.once
    · rw [List.map_append, List.nodup_append]
      refine ⟨h.once, by simp, ?_⟩
      intro a ha b hb hab
      obtain ⟨r', hr', rfl⟩ := List.mem_map.mp ha
      obtain rfl := List.mem_singleton.mp hb
      exact hnew r' hr' (hab.trans hid)
  have hsent : (∀ x ∈ c.desk.exchanges, x ∈ d'.exchanges) → ∀ r ∈ stored', self.Sent d' r := by
    intro hexchanges r hr
    have hold : ∀ r ∈ c.stored, self.Sent d' r := by
      intro r hr
      obtain ⟨row, outcome, taken, hrow, hr⟩ := h.sent r hr
      exact ⟨row, outcome, taken, hexchanges _ hrow, hr⟩
    rcases hstored with rfl | ⟨r', row, outcome, taken, rfl, hrow, hid, hpayload, -⟩
    · exact hold r hr
    · rcases List.mem_append.mp hr with hr | hr
      · exact hold r hr
      · obtain rfl := List.mem_singleton.mp hr
        exact ⟨row, outcome, taken, hrow, hid, hpayload⟩
  rcases hs with rfl | hs
  · exact ⟨h.sound, h.copied, h.backed.mono hgrown, h.readable, honce, hsent fun _ hx => hx⟩
  · refine ⟨h.sound.steps hs, h.copied.steps hs, ?_, ?_, honce, hsent fun _ hx => hs.exchanges hx⟩
    · exact (h.backed.mono hgrown).steps h.sound hs hpost
        fun i answer result findings event todo hact hcall hread =>
          hgrown _ (hask i answer result findings event todo hact hcall hread)
    · intro e he
      rcases hs.origin he with ⟨e₀, he₀, hf⟩ | ⟨event, hact, rfl⟩
      · exact (h.readable e₀ he₀).follows hf
      · exact hcommit event hact

theorem of_desk (h : self.Consistent c)
    (hcommit : ∀ event, act = .commit event → self.Readable event.payload event.id)
    (hpost : ∀ i outcome taken, act ≠ .post i outcome taken) (hask : ∀ i answer, act ≠ .ask i answer) :
    self.Consistent { c with desk := self.publisher.desk.next c.desk act } :=
  h.of_steps (self.publisher.next_steps c.desk act) hcommit (.inl rfl)
    (fun i outcome taken _ _ _ heq => (hpost i outcome taken heq).elim)
    fun i answer _ _ _ _ heq => (hask i answer heq).elim

theorem foreign (h : self.Consistent c)
    (hgenuine : self.consumer.refusal request = none → ∃ row outcome taken,
      .post row outcome taken ∈ c.desk.exchanges ∧ request.body = self.dumps row.payload) :
    self.Consistent { c with stored := (self.consumer.receiveEvent c.stored request).1 } := by
  have hidle : c.desk = c.desk ∨ self.publisher.Steps c.desk (.crash 0) c.desk := .inl rfl
  refine h.of_steps hidle (fun _ heq => by
    cases heq) ?_ (fun _ _ _ _ _ _ heq => by cases heq) fun _ _ _ _ _ _ heq => by cases heq
  cases hrefusal : self.consumer.refusal request with
  | some detail =>
    rcases Consumer.receiveEvent_cases with ⟨hsame, -⟩ | ⟨_, _, -, hnone, -⟩
    · exact .inl hsame
    · rw [hrefusal] at hnone
      cases hnone
  | none =>
    obtain ⟨row, outcome, taken, hrow, hbody⟩ := hgenuine hrefusal
    have hread := h.copy_readable (h.copied.sent row outcome taken hrow)
    rcases receiveEvent_readable hread hbody with ⟨hsame, -⟩ | ⟨r, hstored, hid, hpayload, hnew⟩
    · exact .inl hsame
    · exact .inr ⟨r, row, outcome, taken, hstored, hrow, hid, hpayload, hnew⟩

theorem post {i : Nat} {result : RelayResult} {todo : List OutboxRow} {simulate : Option String}
    {sentAt : Int} {time : ℚ} {transit : Transit PostOutcome PostOutcome.succeeds}
    (h : self.Consistent c) (hcall : c.desk.calls[i]? = some (.claimed result event todo)) :
    self.Consistent (self.post c i event simulate sentAt time transit) := by
  have hread : self.Readable event.payload event.id :=
    h.copy_readable (h.copied.copies _ (List.mem_of_getElem? hcall) event List.mem_cons_self)
  have hreceived : (self.consumer.receiveEvent c.stored (self.request event simulate sentAt time)).1 =
      c.stored ∧ _ ∨ _ := receiveEvent_readable hread rfl
  rw [Connection.post]
  generalize self.consumer.receiveEvent c.stored (self.request event simulate sentAt time) =
    received at hreceived ⊢
  have hexchanges : ∀ outcome taken, .post event outcome taken ∈
      (self.publisher.desk.next c.desk (.post i outcome taken)).exchanges := by
    intro outcome taken
    simp only [System.next, Publisher.desk, Publisher.step, hcall, Option.getD_some, Publisher.post]
    split <;> exact List.mem_append_right _ List.mem_cons_self
  refine h.of_steps (self.publisher.next_steps _ _) (fun _ heq => by cases heq) ?_ ?_
    fun _ _ _ _ _ _ heq => by cases heq
  · split
    · rcases hreceived with ⟨hsame, -⟩ | ⟨r, hstored, hid, hpayload, hnew⟩
      · exact .inl hsame
      · exact .inr ⟨r, event, _, _, hstored, hexchanges _ _, hid, hpayload, hnew⟩
    · exact .inl rfl
  · intro i' outcome taken result' event' todo' hact hcall' haccepted
    cases hact
    rw [hcall] at hcall'
    cases hcall'
    have hsucceeds := Publisher.succeeds_of_accepted haccepted
    cases hback : transit.back with
    | some a =>
      rw [hback, Option.getD_some, transit.noSuccess a hback] at hsucceeds
      cases hsucceeds
    | none =>
      have harrives : transit.arrives = true := by simpa [hback] using transit.comesBack
      rw [hback, Option.getD_none] at hsucceeds
      have hkept := Reception.isKept_of_succeeds hsucceeds
      rw [if_pos harrives]
      rcases hreceived with ⟨hsame, hholds⟩ | ⟨r, hstored, hid, -⟩
      · rw [hsame]
        exact hholds hkept
      · exact ⟨r, by rw [hstored]; exact List.mem_append_right _ List.mem_cons_self, hid⟩

theorem ask {i : Nat} {result : ReconcileResult} {findings : List Finding} {todo : List OutboxRow}
    {transit : Transit ReceiptAnswer ReceiptAnswer.succeeds} (h : self.Consistent c)
    (hcall : c.desk.calls[i]? = some (.reconciling result findings (event :: todo))) :
    self.Consistent (self.ask c i event transit) := by
  refine h.of_steps (self.publisher.next_steps _ _) (fun _ heq => by cases heq) (.inl rfl)
    (fun _ _ _ _ _ _ heq => by cases heq) ?_
  intro i' answer result' findings' event' todo' hact hcall' hverified
  cases hact
  rw [hcall] at hcall'
  cases hcall'
  have hsucceeds := Publisher.succeeds_of_verified hverified
  cases hback : transit.back with
  | some a =>
    rw [hback, Option.getD_some, transit.noSuccess a hback] at hsucceeds
    cases hsucceeds
  | none =>
    rw [hback, Option.getD_none] at hsucceeds
    unfold Consumer.eventReceipt at hsucceeds
    split at hsucceeds
    · cases hsucceeds
    · next r hfind => exact ⟨r, List.mem_of_find?_eq_some hfind, by simpa using List.find?_some hfind⟩

theorem next (h : self.Consistent c) {a : ChannelAct} (ha : self.Genuine c a) :
    self.Consistent (self.system.next c a) := by
  cases a with
  | desk act =>
    cases act with
    | post _ _ _ => exact h
    | ask _ _ => exact h
    | commit event => exact h.of_desk (fun _ heq => by cases heq; exact ha) (by simp) (by simp)
    | _ => exact h.of_desk (fun _ heq => by cases heq) (by simp) (by simp)
  | post i simulate sentAt time transit =>
    simp only [System.next, system, step]
    split
    · next hcall => exact h.post hcall
    · exact h
  | ask i transit =>
    simp only [System.next, system, step]
    split
    · next hcall => exact h.ask hcall
    · exact h
  | foreign request => exact h.foreign ha

end Consistent

/-- Whoever sends a request with a valid signature has it from a request that went out before. -/
def Unforged (self : Connection) (c : Channel) : ChannelAct → Prop
  | .foreign request => self.consumer.refusal request = none →
      ∃ row outcome taken, .post row outcome taken ∈ c.desk.exchanges ∧
        request.body = self.dumps row.payload
  | _ => True

/-- The row is what the consumer makes of an event: its id, and the entity, the version and the text of
its payload. -/
def Keeps (self : Connection) (e : OutboxRow) (r : StoredEvent) : Prop :=
  r.eventId = .str e.id ∧
    self.consumer.text (e.payload.sorted.get "entity_id") = some r.entityId ∧
    self.consumer.integer (e.payload.sorted.get "entity_version") = some r.entityVersion ∧
    r.payload = self.dumps e.payload

/-- The consumer has every event at most once, only events that went out, and all that are recorded as
delivered. -/
structure Exact (link : Connection) (c : Channel) : Prop where
  once : (c.stored.map StoredEvent.eventId).Nodup
  published : ∀ r ∈ c.stored, ∃ e ∈ c.desk.events, link.Keeps e r ∧ 0 < c.desk.posts e.id
  delivered : ∀ e ∈ c.desk.events, e.status = .delivered → ∃ r ∈ c.stored, link.Keeps e r

theorem Consistent.exact (h : self.Consistent c) : self.Exact c := by
  have hsent : ∀ r ∈ c.stored, ∃ e ∈ c.desk.events, self.Keeps e r ∧ 0 < c.desk.posts e.id := by
    intro r hr
    obtain ⟨row, outcome, taken, hrow, hid, hstored⟩ := h.sent r hr
    obtain ⟨-, hpayload, -⟩ := Consumer.row_eq_some hstored
    obtain ⟨hentity, hversion⟩ := Consumer.row_columns hstored
    obtain ⟨e, he, hf⟩ := Desk.Copied.rowOf_iff.mp (h.copied.sent row outcome taken hrow)
    have hrowId : row.id = e.id := hf ▸ rfl
    have hrowPayload : row.payload = e.payload := hf ▸ rfl
    rw [hrowId] at hid
    rw [hrowPayload] at hpayload hentity hversion
    exact ⟨e, he, ⟨hid, hentity, hversion, hpayload⟩,
      List.countP_pos_iff.mpr ⟨_, hrow, decide_eq_true hrowId⟩⟩
  refine ⟨h.once, hsent, fun e he hdelivered => ?_⟩
  obtain ⟨r, hr, hid⟩ := h.backed.delivered e he hdelivered
  obtain ⟨e', he', hkeeps, -⟩ := hsent r hr
  have heq : e' = e := by
    refine h.sound.ids.eq_of_mem he' he ?_
    have hid' := hkeeps.1
    rw [hid] at hid'
    exact (Json.str.inj hid').symm
  exact ⟨r, hr, heq ▸ hkeeps⟩

end Connection

theorem Told.eventId {event : OutboxEvent} {rt : Runtime} {w : Workspace} (h : Told rt w event) :
    event.payload.get "event_id" = .str event.id := by
  cases h with
  | approved => rfl
  | announced ha => cases ha <;> rfl

/-- Whatever is lost between publication and its consumer, whatever else is sent to it, and however calls
overlap: the consumer has the events of a workspace as publication records it. -/
theorem consumer_exact {rt : Runtime} {w : Workspace} {s : Store} (h : Reachable rt w s)
    (link : Connection) (hloads : ∀ event ∈ s.outbox,
      link.consumer.loads (link.dumps event.payload) = some (.obj event.payload.sorted))
    (acts : List ChannelAct) (hcommits : ∀ event, .desk (.commit event) ∈ acts → event ∈ s.outbox)
    (hunforged : link.system.Along link.Unforged Channel.empty acts) :
    link.Exact (link.system.run Channel.empty acts) := by
  obtain ⟨requests, rfl⟩ := h
  have htold := told_run rt w requests
  have hcommitted : link.system.Along (fun _ a => ∀ event, a = .desk (.commit event) →
      link.Readable event.payload event.id) Channel.empty acts := by
    refine link.system.along_of_mem fun a ha _ event heq => ?_
    have hevent := hcommits event (heq ▸ ha)
    exact ⟨hloads event hevent, (htold event hevent).eventId⟩
  refine Connection.Consistent.exact (link.system.run_invariant .empty
    (hunforged.and hcommitted) fun c a hc ha => hc.next ?_)
  cases a with
  | desk act =>
    cases act with
    | commit event => exact ha.2 event rfl
    | _ => trivial
  | foreign request => exact ha.1
  | _ => trivial

namespace Outbound

/-- A consumer that knows the texts of some events. -/
def connection (events : List OutboxEvent) : Connection where
  publisher := Outbound.publisher
  consumer := {
    secret := "key"
    hmac secret text := secret ++ "|" ++ text
    loads text := (events.find? fun event => (Json.obj event.payload).render = text).map
      fun event => .obj event.payload.sorted
    parseFloat text := if text = "0" then some (.finite 0) else none
    isoformat _ := ""
    realText _ := ""
    numeric text := .str text }
  webhookSecret := some "key"
  dumps payload := (Json.obj payload).render

/-- The request arrives, and the answer does not. -/
def unheard : Transit PostOutcome PostOutcome.succeeds :=
  ⟨true, some (.raised .readTimeout), rfl, by simp [PostOutcome.succeeds]⟩

/-- The events of a workspace go out, the answer is lost, a stranger sends something, and the consumer is
asked for the receipt. -/
def lostAnswer (events : List OutboxEvent) : List ChannelAct :=
  events.map (fun event => .desk (.commit event)) ++ [
    .desk (.relay "w1"), .desk (.claim 0),
    .post 0 none 0 0 unheard,
    .desk (.record 0), .desk (.claim 0),
    .foreign ⟨"", none, none, none, 0⟩,
    .desk (.reconcile "w1"), .ask 1 ⟨true, none, rfl, by simp⟩, .desk (.settle 1)]

end Outbound

open Supplier Outbound in
theorem consumer_exact_lost : ∃ events : List OutboxEvent,
    (connection events).Exact ((connection events).system.run Channel.empty (lostAnswer events)) ∧
      ((connection events).system.run Channel.empty (lostAnswer events)).stored.length = 1 ∧
      (((connection events).system.run Channel.empty (lostAnswer events)).desk.events.map
        OutboxRow.status) = [.delivered] := by
  refine ⟨(after [three, approve (uid 11)]).outbox, ?_, by decide +kernel⟩
  have hreachable : Reachable .plain workspace (after [three, approve (uid 11)]) := ⟨setup ++ _, rfl⟩
  refine consumer_exact hreachable _ (by decide +kernel) _ ?_ ?_
  · intro event hevent
    simpa [lostAnswer] using hevent
  · refine System.along_of_mem _ fun a ha c => ?_
    cases a with
    | foreign request =>
      intro hrefusal
      have hrequest : request = ⟨"", none, none, none, 0⟩ := by simpa [lostAnswer] using ha
      rw [hrequest] at hrefusal
      cases hrefusal
    | _ => trivial

end Recordlane
