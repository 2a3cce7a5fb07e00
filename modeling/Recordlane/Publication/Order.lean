import Recordlane.Publication.Doubt

/-! The order in which the events of one entity reach the consumer. -/
namespace Recordlane

variable {self : Publisher} {d d' : Desk} {act : Act} {e e' event : OutboxRow} {id : Id}

/-- Both events are of one entity, and the first one occurred earlier. -/
def OutboxRow.Precedes (e e' : OutboxRow) : Prop :=
  e.entityId.isSome ∧ e.entityId = e'.entityId ∧ e.occurredAt < e'.occurredAt

instance : Decidable (e.Precedes e') :=
  inferInstanceAs (Decidable (e.entityId.isSome ∧ e.entityId = e'.entityId ∧ e.occurredAt < e'.occurredAt))

/-- The event will not be sent or reconciled any more. -/
def OutboxRow.isSettled (e : OutboxRow) : Bool := e.status = .delivered || e.status = .deadLetter

/-- A relay takes an event whose forerunners are all settled, and a new event has no successor. -/
def Act.inTurn (d : Desk) : Act → Bool
  | .commit event => d.events.all fun e => ¬ event.row.Precedes e
  | .claim i =>
    match d.calls[i]? with
    | some (.relaying _ (event :: _)) => d.events.all fun e => e.Precedes event → e.isSettled
    | _ => true
  | _ => true

/-- No event is taken by the consumer for the first time after a later one of its entity was. -/
def TakenInOrder (xs : List Exchange) : Prop :=
  ∀ first event outcome rest, xs = first ++ .post event outcome true :: rest →
    (∀ event' outcome', .post event' outcome' true ∈ first → event'.id ≠ event.id) →
    ∀ event' outcome', .post event' outcome' true ∈ first → ¬ event.Precedes event'

/-- No event becomes delivered after a later one of its entity did. -/
def DeliversInOrder (d d' : Desk) : Prop :=
  ∀ e ∈ d.events, d.delivered e.id = false → d'.delivered e.id →
    ∀ e' ∈ d.events, e.Precedes e' → d.delivered e'.id = false

instance : Decidable (DeliversInOrder d d') :=
  inferInstanceAs (Decidable (∀ e ∈ d.events, d.delivered e.id = false → d'.delivered e.id →
    ∀ e' ∈ d.events, e.Precedes e' → d.delivered e'.id = false))

/-- An event that was claimed has no forerunner that is not settled. -/
structure Desk.Orderly (d : Desk) : Prop where
  serial : d.Serial
  begun : ∀ e ∈ d.events, e.status ≠ .pending → e.attempts ≠ 0
  forerunners : ∀ e ∈ d.events, ∀ e' ∈ d.events, e.Precedes e' → e'.attempts ≠ 0 → e.isSettled
  sent : ∀ event outcome taken, .post event outcome taken ∈ d.exchanges → ∃ e ∈ d.events,
    e.entityId = event.entityId ∧ e.occurredAt = event.occurredAt ∧ e.attempts ≠ 0
  taken : TakenInOrder d.exchanges

namespace Desk.Orderly

theorem empty : Desk.empty.Orderly := by
  refine ⟨Serial.empty, ?_, ?_, ?_, ?_⟩ <;> simp [Desk.empty, TakenInOrder]

theorem not_precedes (h : d.Orderly) (he : e ∈ d.events) (hstatus : e.isSettled = false)
    (he' : e' ∈ d.events) (hbegun : e'.attempts ≠ 0) : ¬ e.Precedes e' := by
  intro hp
  rw [h.forerunners e he e' he' hp hbegun] at hstatus
  cases hstatus

theorem of_events (h : d.Orderly) (hserial : d'.Serial) (hevents : d'.events = d.events)
    (hexchanges : ∀ event outcome taken, .post event outcome taken ∈ d'.exchanges ↔
      .post event outcome taken ∈ d.exchanges) (htaken : TakenInOrder d'.exchanges) : d'.Orderly := by
  refine ⟨hserial, hevents ▸ h.begun, hevents ▸ h.forerunners, ?_, htaken⟩
  intro event outcome taken hmem
  rw [hevents]
  exact h.sent event outcome taken ((hexchanges event outcome taken).mp hmem)

theorem of_written (h : d.Orderly) (hserial : d'.Serial) (hexchanges : d'.exchanges = d.exchanges)
    (hnew : ∀ e' ∈ d'.events, ∃ e ∈ d.events, e'.id = e.id ∧ e'.entityId = e.entityId ∧
      e'.occurredAt = e.occurredAt ∧ (e' = e ∨ e.isSettled = false ∧ e'.attempts ≠ 0 ∧
        (e.attempts ≠ 0 ∨ ∀ x ∈ d.events, x.Precedes e → x.isSettled)))
    (hold : ∀ e ∈ d.events, ∃ e' ∈ d'.events, e'.id = e.id) : d'.Orderly := by
  have hids := h.serial.sound.ids
  refine ⟨hserial, ?_, ?_, ?_, hexchanges ▸ h.taken⟩
  · intro e' he' hstatus
    obtain ⟨e, he, -, -, -, rfl | ⟨-, hbegun, -⟩⟩ := hnew e' he'
    · exact h.begun e' he hstatus
    · exact hbegun
  · intro e' he' f' hf' hp hbegun
    obtain ⟨e, he, hid, hentity, htime, hchange⟩ := hnew e' he'
    obtain ⟨f, hf, hid', hentity', htime', hchange'⟩ := hnew f' hf'
    have hp' : e.Precedes f := by
      rw [OutboxRow.Precedes, ← hentity, ← htime, ← hentity', ← htime']
      exact hp
    have hsettled : e.isSettled := by
      rcases hchange' with rfl | ⟨-, -, hf₀ | hall⟩
      · exact h.forerunners e he f' hf hp' hbegun
      · exact h.forerunners e he f hf hp' hf₀
      · exact hall e he hp'
    rcases hchange with rfl | ⟨hopen, -, -⟩
    · exact hsettled
    · rw [hopen] at hsettled
      cases hsettled
  · intro event outcome taken hmem
    rw [hexchanges] at hmem
    obtain ⟨e, he, hentity, htime, hbegun⟩ := h.sent event outcome taken hmem
    obtain ⟨e', he', hid⟩ := hold e he
    obtain ⟨e₀, he₀, hid₀, hentity', htime', hchange⟩ := hnew e' he'
    have heq : e₀ = e := hids.eq_of_mem he₀ he (hid₀.symm.trans hid)
    refine ⟨e', he', ?_, ?_, ?_⟩
    · rw [hentity', heq, hentity]
    · rw [htime', heq, htime]
    · rcases hchange with rfl | ⟨-, hbegun', -⟩
      · rw [heq]
        exact hbegun
      · exact hbegun'

end Desk.Orderly

theorem TakenInOrder.append {xs : List Exchange} {x : Exchange} (h : TakenInOrder xs)
    (hx : ∀ event outcome, x = .post event outcome true →
      ∀ event' outcome', .post event' outcome' true ∈ xs → ¬ event.Precedes event') :
    TakenInOrder (xs ++ [x]) := by
  intro first event outcome rest heq hfirst event' outcome' hmem
  rcases List.eq_nil_or_concat rest with rfl | ⟨rest, y, rfl⟩
  · obtain ⟨rfl, hlast⟩ := List.append_inj' heq rfl
    exact hx event outcome (List.cons.inj hlast).1 event' outcome' hmem
  · rw [List.concat_eq_append, ← List.cons_append, ← List.append_assoc] at heq
    obtain ⟨rfl, -⟩ := List.append_inj' heq rfl
    exact h first event outcome rest rfl hfirst event' outcome' hmem

theorem Desk.Orderly.steps (h : d.Orderly) (hs : self.Steps d act d') (hserial : act.serial d)
    (hturn : act.inTurn d) : d'.Orderly := by
  have hserial' := h.serial.steps hs hserial
  have hids := h.serial.sound.ids
  cases hs with
  | @commit event hnew =>
    simp only [Act.inTurn, List.all_eq_true, decide_eq_true_eq] at hturn
    refine ⟨hserial', ?_, ?_, ?_, h.taken⟩
    · intro e he hstatus
      rcases List.mem_append.mp he with he | he
      · exact h.begun e he hstatus
      · rw [List.mem_singleton.mp he] at hstatus
        exact (hstatus rfl).elim
    · intro e he e' he' hp hbegun
      rcases List.mem_append.mp he' with he' | he'
      · rcases List.mem_append.mp he with he | he
        · exact h.forerunners e he e' he' hp hbegun
        · rw [List.mem_singleton.mp he] at hp
          exact (hturn e' he' hp).elim
      · rw [List.mem_singleton.mp he'] at hbegun
        exact (hbegun rfl).elim
    · intro event outcome taken hmem
      obtain ⟨e, he, hrest⟩ := h.sent event outcome taken hmem
      exact ⟨e, List.mem_append_left _ he, hrest⟩
  | relay => exact h.of_events hserial' rfl (fun _ _ _ => .rfl) h.taken
  | reconcile => exact h.of_events hserial' rfl (fun _ _ _ => .rfl) h.taken
  | close _ _ => exact h.of_events hserial' rfl (fun _ _ _ => .rfl) h.taken
  | @claim i result event todo attempts hcall _ =>
    have hmem := h.serial.stored _ (List.mem_of_getElem? hcall) event List.mem_cons_self
    have hmark := h.serial.sound.marked _ (List.mem_of_getElem? hcall) event List.mem_cons_self
    have hopen : event.isSettled = false := by
      rcases hmark with heq | heq <;> simp [OutboxRow.isSettled, heq]
    simp only [Act.inTurn, hcall, List.all_eq_true, decide_eq_true_eq] at hturn
    refine h.of_written hserial' rfl ?_ ?_
    · intro e he
      rcases (Desk.mem_written hids hmem Publisher.follows_claimed).mp he with rfl | ⟨he, -⟩
      · exact ⟨event, hmem, rfl, rfl, rfl, .inr ⟨hopen, Nat.succ_ne_zero _, .inr hturn⟩⟩
      · exact ⟨e, he, rfl, rfl, rfl, .inl rfl⟩
    · intro e he
      exact List.mem_map.mp ((Desk.update_ids (d := d) _ _).symm ▸ List.mem_map_of_mem he)
  | @post i result event todo outcome taken call hcall _ =>
    have hmem := h.serial.stored _ (List.mem_of_getElem? hcall) event List.mem_cons_self
    obtain ⟨hmark, -⟩ := h.serial.sound.marked _ (List.mem_of_getElem? hcall)
    refine ⟨hserial', h.begun, h.forerunners, ?_, h.taken.append ?_⟩
    · intro event' outcome' taken' hpost
      rcases List.mem_append.mp hpost with hpost | hpost
      · exact h.sent event' outcome' taken' hpost
      · obtain ⟨rfl, -, -⟩ := Exchange.post.inj (List.mem_singleton.mp hpost)
        exact ⟨event', hmem, rfl, rfl, h.begun event' hmem (by simp [hmark])⟩
    · rintro event₀ outcome₀ heq event' outcome' hpost hp
      obtain ⟨rfl, -, -⟩ := Exchange.post.inj heq
      obtain ⟨e', he', hentity, htime, hbegun⟩ := h.sent event' outcome' true hpost
      refine h.not_precedes hmem (by simp [OutboxRow.isSettled, hmark]) he' hbegun ?_
      rw [OutboxRow.Precedes, hentity, htime]
      exact hp
  | @record i result result' event outcome status todo attempts receipts hcall =>
    have hmem := h.serial.stored _ (List.mem_of_getElem? hcall) event List.mem_cons_self
    obtain ⟨hmark, -⟩ := h.serial.sound.marked _ (List.mem_of_getElem? hcall)
    have hbegun := h.begun event hmem (by simp [hmark])
    refine h.of_written hserial' rfl ?_ ?_
    · intro e he
      rcases (Desk.mem_written hids hmem Publisher.follows_recorded).mp he with rfl | ⟨he, -⟩
      · exact ⟨event, hmem, rfl, rfl, rfl,
          .inr ⟨by simp [OutboxRow.isSettled, hmark], hbegun, .inl hbegun⟩⟩
      · exact ⟨e, he, rfl, rfl, rfl, .inl rfl⟩
    · intro e he
      exact List.mem_map.mp ((Desk.update_ids (d := d) _ _).symm ▸ List.mem_map_of_mem he)
  | ask _ _ =>
    exact h.of_events hserial' rfl (by simp) (h.taken.append (by simp))
  | unasked _ => exact h.of_events hserial' rfl (fun _ _ _ => .rfl) h.taken
  | unread _ =>
    exact h.of_events hserial' rfl (by simp) (h.taken.append (by simp))
  | @settle i result findings receipts hcall _ =>
    obtain ⟨hkeyed, hstored, hmarked⟩ := h.serial.asked hcall
    refine h.of_written hserial' Desk.foldl_update_exchanges ?_ ?_
    · intro e he
      rcases (Desk.mem_settled hids hkeyed hstored).mp he with ⟨f, hf, rfl⟩ | ⟨he, -⟩
      · have hbegun := h.begun f.before (hstored f hf) (by simp [hmarked f hf])
        have hsame : (Publisher.reconciled f.before f.reading).id = f.before.id ∧
            (Publisher.reconciled f.before f.reading).entityId = f.before.entityId ∧
            (Publisher.reconciled f.before f.reading).occurredAt = f.before.occurredAt ∧
            (Publisher.reconciled f.before f.reading).attempts = f.before.attempts := by
          cases f.reading <;> exact ⟨rfl, rfl, rfl, rfl⟩
        refine ⟨f.before, hstored f hf, hsame.1, hsame.2.1, hsame.2.2.1, .inr ⟨?_, ?_, .inl hbegun⟩⟩
        · simp [OutboxRow.isSettled, hmarked f hf]
        · rw [hsame.2.2.2]
          exact hbegun
      · exact ⟨e, he, rfl, rfl, rfl, .inl rfl⟩
    · intro e he
      exact List.mem_map.mp (Desk.foldl_update_ids.symm ▸ List.mem_map_of_mem he)

/-- Only events in doubt become delivered. -/
theorem Desk.Serial.becomes_delivered (h : d.Serial) (hs : self.Steps d act d') (hd : d'.Sound)
    (he : e ∈ d.events) (hbefore : d.delivered e.id = false) (hbehind : d'.delivered e.id) :
    e.status = .reconcile := by
  have hids := h.sound.ids
  have hstatus : e.status ≠ .delivered := by
    rw [h.sound.delivered_iff he] at hbefore
    exact of_decide_eq_false hbefore
  obtain ⟨e₁, he₁, hid, hnow⟩ : ∃ e₁ ∈ d'.events, e₁.id = e.id ∧ e₁.status = .delivered := by
    simp only [Desk.delivered, Desk.status, decide_eq_true_eq, Option.map_eq_some_iff] at hbehind
    obtain ⟨e₁, hfind, hnow⟩ := hbehind
    exact ⟨e₁, Table.find_mem hfind, Table.find_key hfind, hnow⟩
  have hstays : e₁ ∈ d.events → e.status = .reconcile := by
    intro he₁
    rw [hids.eq_of_mem he₁ he hid] at hnow
    exact (hstatus hnow).elim
  cases hs with
  | commit hnew =>
    rcases List.mem_append.mp he₁ with he₁ | he₁
    · exact hstays he₁
    · rw [List.mem_singleton.mp he₁] at hid
      exact (hnew e he hid.symm).elim
  | relay => exact hstays he₁
  | reconcile => exact hstays he₁
  | close _ _ => exact hstays he₁
  | @claim i result event todo attempts hcall _ =>
    have hmem := h.stored _ (List.mem_of_getElem? hcall) event List.mem_cons_self
    rcases (Desk.mem_written hids hmem Publisher.follows_claimed).mp he₁ with rfl | ⟨he₁, -⟩
    · cases hnow
    · exact hstays he₁
  | post _ _ => exact hstays he₁
  | @record i result result' event outcome status todo attempts receipts hcall =>
    have hmem := h.stored _ (List.mem_of_getElem? hcall) event List.mem_cons_self
    obtain ⟨hmark, -⟩ := h.sound.marked _ (List.mem_of_getElem? hcall)
    rcases (Desk.mem_written hids hmem Publisher.follows_recorded).mp he₁ with rfl | ⟨he₁, -⟩
    · rw [← hids.eq_of_mem hmem he hid]
      exact hmark
    · exact hstays he₁
  | ask _ _ => exact hstays he₁
  | unasked _ => exact hstays he₁
  | unread _ => exact hstays he₁
  | @settle i result findings receipts hcall _ =>
    obtain ⟨hkeyed, hstored, hmarked⟩ := h.asked hcall
    rcases (Desk.mem_settled hids hkeyed hstored).mp he₁ with ⟨f, hf, rfl⟩ | ⟨he₁, -⟩
    · have hsame : (Publisher.reconciled f.before f.reading).id = f.before.id := by
        cases f.reading <;> rfl
      rw [← hids.eq_of_mem (hstored f hf) he (hsame.symm.trans hid)]
      exact hmarked f hf
    · exact hstays he₁

theorem Desk.Orderly.next (h : d.Orderly) (hact : act.serial d ∧ act.inTurn d) :
    (self.desk.next d act).Orderly ∧ DeliversInOrder d (self.desk.next d act) := by
  rcases self.next_steps d act with heq | hs
  · rw [heq]
    refine ⟨h, fun e _ hbefore hbehind => ?_⟩
    rw [hbefore] at hbehind
    cases hbehind
  · have hnext := h.steps hs hact.1 hact.2
    refine ⟨hnext, fun e he hbefore hbehind e' he' hp => ?_⟩
    have hstatus := h.serial.becomes_delivered hs hnext.serial.sound he hbefore hbehind
    have hopen : e.isSettled = false := by simp [OutboxRow.isSettled, hstatus]
    rw [h.serial.sound.delivered_iff he', decide_eq_false_iff_not]
    intro hdelivered
    exact h.not_precedes he hopen he' (h.begun e' he' (by simp [hdelivered])) hp

/-- In every serial run whose relays take events in their turn, the consumer takes the events of an
entity in their order, and they become delivered in their order. -/
theorem deliveries_inOrder (self : Publisher) {acts : List Act}
    (h : self.desk.Along (fun d act => act.serial d ∧ act.inTurn d) Desk.empty acts) :
    TakenInOrder (self.desk.run Desk.empty acts).exchanges ∧
      ∀ first act rest, acts = first ++ act :: rest →
        DeliversInOrder (self.desk.run Desk.empty first) (self.desk.run Desk.empty (first ++ [act])) := by
  refine ⟨?_, fun first act rest heq => ?_⟩
  · exact Desk.Orderly.taken (self.desk.run_invariant Desk.Orderly.empty h fun _ _ hd hact =>
      (hd.next hact).1)
  · rw [heq, System.along_append] at h
    have horderly := self.desk.run_invariant Desk.Orderly.empty h.1 fun _ _ hd hact => (hd.next hact).1
    rw [System.run_append]
    exact (horderly.next h.2.1).2

namespace Outbound

/-- Two versions of an entity: the first one is sent, then the second one. -/
def inSequence : List Act := [.commit (approval "e1" "x" 1 1), .commit (approval "e2" "x" 2 2),
  .relay "w1", .claim 0, .post 0 (.response 200) true, .record 0, .claim 0,
  .post 0 (.response 200) true, .record 0, .claim 0]

/-- The first version is refused, the second one is delivered, and the first one is sent again. -/
def overtaken : List Act := [.commit (approval "e1" "x" 1 1), .commit (approval "e2" "x" 2 2),
  .relay "w1", .claim 0, .post 0 (.response 400) false, .record 0, .claim 0,
  .post 0 (.response 200) true, .record 0, .claim 0, .relay "w1", .claim 1,
  .post 1 (.response 200) true, .record 1]

end Outbound

open Outbound in
theorem deliveries_inOrder_inSequence : TakenInOrder (deskAfter inSequence).exchanges := by
  have hacts : publisher.desk.Along (fun d act => act.serial d ∧ act.inTurn d) Desk.empty
      inSequence := by decide +kernel
  exact (deliveries_inOrder publisher hacts).1

open Outbound in
theorem overtaken_not_inOrder : publisher.desk.Along (fun d act => act.serial d) Desk.empty overtaken ∧
    ¬ TakenInOrder (deskAfter overtaken).exchanges ∧
    ¬ ∀ first act rest, overtaken = first ++ act :: rest →
      DeliversInOrder (deskAfter first) (deskAfter (first ++ [act])) := by
  refine ⟨by decide +kernel, ?_, ?_⟩
  · intro h
    let e₁ : OutboxRow := Publisher.claimed (approval "e1" "x" 1 1).row
    let e₂ : OutboxRow := Publisher.claimed (approval "e2" "x" 2 2).row
    have hexchanges : (deskAfter overtaken).exchanges =
        [.post e₁ (.response 400) false, .post e₂ (.response 200) true] ++
          [.post (Publisher.claimed (Publisher.recorded e₁ (.response 400) .rejected))
          (.response 200) true] :=
      rfl
    rw [hexchanges] at h
    refine h _ _ _ [] rfl ?_ e₂ (.response 200) (by simp) (by decide)
    intro event outcome hmem
    simp only [List.mem_cons, Exchange.post.injEq, List.not_mem_nil, or_false] at hmem
    rcases hmem with ⟨-, -, hfalse⟩ | ⟨rfl, -⟩
    · cases hfalse
    · decide
  · intro h
    have hstep := h (overtaken.take 13) (.record 1) [] rfl
    revert hstep
    decide +kernel

end Recordlane
