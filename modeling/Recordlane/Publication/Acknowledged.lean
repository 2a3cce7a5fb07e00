import Recordlane.Publication.Serial
import Recordlane.Publication.Attempts

/-! Receipts of events: they stand for deliveries, as long as calls run one after another. -/
namespace Recordlane

variable {self : Publisher} {d d' : Desk} {act : Act} {e e' event : OutboxRow} {call call' : Call}
  {findings : List Finding} {receipts : List PublicationReceipt} {i : Nat} {id : Id}

/-- The findings of a reconciliation so far. -/
def Call.found : Call → List Finding
  | reconciling _ findings _ => findings
  | _ => []

theorem Call.found_of_over (h : call.over) : call.found = [] := by
  cases call <;> first | rfl | cases h

/-- The event has a receipt of its version exactly if it is delivered, and it went out at most as
often as it was claimed. -/
structure Desk.Accounted (d : Desk) (e : OutboxRow) : Prop where
  delivered : (∃ r ∈ d.receipts, r.eventId = e.id) ↔ e.status = .delivered
  version : ∀ r ∈ d.receipts, r.eventId = e.id → r.entityVersion = e.entityVersion
  fresh : e.status = .pending → e.attempts = 0
  posts : d.posts e.id ≤ e.attempts

/-- Every event is accounted for, and every receipt and every POST is of an event. -/
structure Desk.Acknowledged (d : Desk) : Prop where
  serial : d.Serial
  events : ∀ e ∈ d.events, d.Accounted e
  receipts : ∀ r ∈ d.receipts, ∃ e ∈ d.events, e.id = r.eventId
  posts : ∀ id, (∀ e ∈ d.events, e.id ≠ id) → d.posts id = 0
  unsent : ∀ call ∈ d.calls, ∀ c, call.unsent = some c → d.posts c.id < c.attempts
  unfound : ∀ call ∈ d.calls, ∀ f ∈ call.found, f.existing = false

namespace Desk

theorem Accounted.of_same (h : d.Accounted e)
    (hreceipts : ∀ r, r.eventId = e.id → (r ∈ d'.receipts ↔ r ∈ d.receipts))
    (hposts : d'.posts e.id = d.posts e.id) : d'.Accounted e := by
  refine ⟨?_, ?_, h.fresh, hposts ▸ h.posts⟩
  · rw [← h.delivered]
    constructor
    · rintro ⟨r, hr, hid⟩
      exact ⟨r, (hreceipts r hid).mp hr, hid⟩
    · rintro ⟨r, hr, hid⟩
      exact ⟨r, (hreceipts r hid).mpr hr, hid⟩
  · intro r hr hid
    exact h.version r ((hreceipts r hid).mp hr) hid

theorem posts_of_eq (hexchanges : d'.exchanges = d.exchanges) : d'.posts id = d.posts id := by
  rw [posts, hexchanges, posts]

theorem posts_receipt {eventId : Id} {answer : ReceiptAnswer}
    (hexchanges : d'.exchanges = d.exchanges ++ [.receipt eventId answer]) : d'.posts id = d.posts id := by
  rw [posts, hexchanges, List.countP_append]
  exact Nat.add_zero _

end Desk

namespace Publisher

/-- The receipt that is added for an event. -/
def acknowledgement (self : Publisher) (event : OutboxRow) (outcome : ReceiptOutcome) :
    PublicationReceipt where
  workspaceId := event.workspaceId
  eventId := event.id
  consumerKey := self.settings.publicationConsumerKey
  entityVersion := event.entityVersion
  outcome := outcome

theorem foldl_receipt (h : ∀ f ∈ findings, f.existing = false) :
    findings.foldl (fun receipts f => self.receipt f.existing f.before .reconciled receipts) receipts =
      receipts ++ findings.map fun f => self.acknowledgement f.before .reconciled := by
  induction findings generalizing receipts with
  | nil => simp
  | cons f findings ih =>
    rw [List.foldl_cons, ih fun g hg => h g (List.mem_cons_of_mem _ hg), h f List.mem_cons_self,
      List.map_cons, ← List.singleton_append, ← List.append_assoc]
    rfl

theorem eventStatus_delivered {n : Nat} {status : AttemptStatus} :
    eventStatus n status = .delivered ↔ status = .accepted := by
  by_cases hn : n ≥ 5 <;> cases status <;> simp [eventStatus, hn]

theorem eventStatus_ne_pending {n : Nat} {status : AttemptStatus} : eventStatus n status ≠ .pending := by
  by_cases hn : n ≥ 5 <;> cases status <;> simp [eventStatus, hn]

theorem reconciled_delivered {found : Reading} (hmark : event.status = .reconcile) :
    (reconciled event found).status = .delivered ↔ found = .verified := by
  cases found <;> simp [reconciled, hmark]

end Publisher

namespace Desk.Acknowledged

theorem empty : Desk.empty.Acknowledged := by
  refine ⟨Serial.empty, ?_, ?_, ?_, ?_, ?_⟩ <;> simp [Desk.empty, Desk.posts]

theorem no_receipt (h : d.Acknowledged) (he : e ∈ d.events) (hstatus : e.status ≠ .delivered) :
    ∀ r ∈ d.receipts, r.eventId ≠ e.id := by
  intro r hr hid
  exact hstatus ((h.events e he).delivered.mp ⟨r, hr, hid⟩)

theorem any_isReceipt (h : d.Acknowledged) (he : e ∈ d.events) (hstatus : e.status ≠ .delivered) :
    d.receipts.any (self.isReceipt e) = false := by
  rw [List.any_eq_false]
  intro r hr hreceipt
  simp only [Publisher.isReceipt, Bool.and_eq_true, decide_eq_true_eq] at hreceipt
  exact h.no_receipt he hstatus r hr hreceipt.1

/-- Calls begin, end or go on, and receipts are asked for. -/
theorem of_calls (h : d.Acknowledged) (hserial : d'.Serial) (hevents : d'.events = d.events)
    (hreceipts : d'.receipts = d.receipts) (hposts : ∀ id, d'.posts id = d.posts id)
    (hcalls : ∀ c ∈ d'.calls, c ∈ d.calls ∨ c.unsent = none ∧ ∀ f ∈ c.found, f.existing = false) :
    d'.Acknowledged := by
  refine ⟨hserial, ?_, ?_, ?_, ?_, ?_⟩
  · intro e he
    exact (h.events e (hevents ▸ he)).of_same (fun r _ => by rw [hreceipts]) (hposts _)
  · rw [hreceipts, hevents]
    exact h.receipts
  · intro id hid
    rw [hposts]
    exact h.posts id (hevents ▸ hid)
  · intro c hc event hevent
    rw [hposts]
    rcases hcalls c hc with hc | ⟨hnone, -⟩
    · exact h.unsent c hc event hevent
    · rw [hnone] at hevent
      cases hevent
  · intro c hc f hf
    rcases hcalls c hc with hc | ⟨-, hunfound⟩
    · exact h.unfound c hc f hf
    · exact hunfound f hf

theorem of_written (h : d.Acknowledged) (hserial : d'.Serial) (hexchanges : d'.exchanges = d.exchanges)
    (hevents : ∀ e' ∈ d'.events, d'.Accounted e') (hids : ∀ e ∈ d.events, ∃ e' ∈ d'.events, e'.id = e.id)
    (hreceipts : ∀ r ∈ d'.receipts, r ∈ d.receipts ∨ ∃ e ∈ d.events, e.id = r.eventId)
    (hcalls : ∀ c ∈ d'.calls, c ∈ d.calls ∨ (∀ e, c.unsent = some e → d.posts e.id < e.attempts) ∧
      ∀ f ∈ c.found, f.existing = false) : d'.Acknowledged := by
  have hposts : ∀ id, d'.posts id = d.posts id := fun id => Desk.posts_of_eq hexchanges
  refine ⟨hserial, hevents, ?_, ?_, ?_, ?_⟩
  · intro r hr
    have hmem : ∃ e ∈ d.events, e.id = r.eventId := by
      rcases hreceipts r hr with hold | hnew
      · exact h.receipts r hold
      · exact hnew
    obtain ⟨e, he, hid⟩ := hmem
    obtain ⟨e', he', hid'⟩ := hids e he
    exact ⟨e', he', hid'.trans hid⟩
  · intro id hid
    rw [hposts]
    refine h.posts id fun e he heq => ?_
    obtain ⟨e', he', hid'⟩ := hids e he
    exact hid e' he' (hid'.trans heq)
  · intro c hc event hevent
    rw [hposts]
    rcases hcalls c hc with hc | ⟨hunsent, -⟩
    · exact h.unsent c hc event hevent
    · exact hunsent event hevent
  · intro c hc f hf
    rcases hcalls c hc with hc | ⟨-, hunfound⟩
    · exact h.unfound c hc f hf
    · exact hunfound f hf

theorem steps (h : d.Acknowledged) (hs : self.Steps d act d') (hserial : act.serial d) :
    d'.Acknowledged := by
  have hserial' := h.serial.steps hs hserial
  have hids := h.serial.sound.ids
  cases hs with
  | @commit event hnew =>
    refine ⟨hserial', ?_, ?_, ?_, h.unsent, h.unfound⟩
    · intro e he
      rcases List.mem_append.mp he with he | he
      · exact (h.events e he).of_same (fun _ _ => .rfl) rfl
      · obtain rfl := List.mem_singleton.mp he
        have hnone : ∀ r ∈ d.receipts, r.eventId ≠ event.id := by
          intro r hr hid
          obtain ⟨e, he, hid'⟩ := h.receipts r hr
          exact hnew e he (hid'.trans hid)
        refine ⟨⟨?_, fun h => (by cases h)⟩, fun r hr hid => (hnone r hr hid).elim, fun _ => rfl, ?_⟩
        · rintro ⟨r, hr, hid⟩
          exact (hnone r hr hid).elim
        · exact (h.posts event.id hnew).le
    · intro r hr
      obtain ⟨e, he, hid⟩ := h.receipts r hr
      exact ⟨e, List.mem_append_left _ he, hid⟩
    · intro id hid
      exact h.posts id fun e he => hid e (List.mem_append_left _ he)
  | relay =>
    refine h.of_calls hserial' rfl rfl (fun _ => rfl) fun c hc => ?_
    rcases List.mem_append.mp hc with hc | hc
    · exact .inl hc
    · rw [List.mem_singleton.mp hc]
      exact .inr ⟨rfl, List.forall_mem_nil _⟩
  | reconcile =>
    refine h.of_calls hserial' rfl rfl (fun _ => rfl) fun c hc => ?_
    rcases List.mem_append.mp hc with hc | hc
    · exact .inl hc
    · rw [List.mem_singleton.mp hc]
      exact .inr ⟨rfl, List.forall_mem_nil _⟩
  | close hover _ =>
    refine h.of_calls hserial' rfl rfl (fun _ => rfl) fun c hc =>
      (List.mem_or_eq_of_mem_set hc).imp_right ?_
    rintro rfl
    refine ⟨Call.unsent_of_over hover, ?_⟩
    rw [Call.found_of_over hover]
    exact List.forall_mem_nil _
  | @claim i result event todo attempts hcall _ _ =>
    have hmem := h.serial.stored _ (List.mem_of_getElem? hcall) event List.mem_cons_self
    have hmark := h.serial.sound.marked _ (List.mem_of_getElem? hcall) event List.mem_cons_self
    have hstatus : event.status ≠ .delivered := by
      rcases hmark with hmark | hmark <;> simp [hmark]
    have hposts := (h.events event hmem).posts
    refine h.of_written hserial' rfl ?_ ?_ (fun r hr => .inl hr) fun c hc =>
      (List.mem_or_eq_of_mem_set hc).imp_right ?_
    · intro e' he'
      rcases (Desk.mem_written hids hmem Publisher.follows_claimed).mp he' with rfl | ⟨he, -⟩
      · refine ⟨⟨?_, ?_⟩, (h.events event hmem).version, ?_, hposts.trans (Nat.le_succ _)⟩
        · rintro ⟨r, hr, hid⟩
          exact (h.no_receipt hmem hstatus r hr hid).elim
        · intro hdelivered
          cases hdelivered
        · intro hpending
          cases hpending
      · exact (h.events e' he).of_same (fun _ _ => .rfl) rfl
    · intro e he
      exact List.mem_map.mp ((Desk.update_ids (d := d) _ _).symm ▸ List.mem_map_of_mem he)
    · rintro rfl
      refine ⟨fun e he => ?_, List.forall_mem_nil _⟩
      obtain rfl := Option.some.inj he
      exact Nat.lt_succ_of_le hposts
  | @post i result event todo outcome taken call hcall hnext =>
    have hmem := h.serial.stored _ (List.mem_of_getElem? hcall) event List.mem_cons_self
    have hunsent : d.posts event.id < event.attempts :=
      h.unsent _ (List.mem_of_getElem? hcall) event rfl
    have hposts : ∀ id, ({ d.setCall i call with
        exchanges := d.exchanges ++ [.post event outcome taken] } : Desk).posts id =
          d.posts id + if event.id = id then 1 else 0 := by
      intro id
      rw [Desk.posts, List.countP_append, List.countP_singleton]
      simp [Desk.posts, Exchange.isPost]
    have hcalls : ∀ c ∈ d.calls.set i call, c.unsent = none ∧ c.found = [] := by
      intro c hc
      obtain ⟨j, hj⟩ := List.getElem?_of_mem hc
      rcases h.serial.others call hcall rfl j c hj with ⟨rfl, -⟩ | hover
      · rcases hnext with rfl | ⟨status, -, rfl⟩ <;> exact ⟨rfl, rfl⟩
      · exact ⟨Call.unsent_of_over hover, Call.found_of_over hover⟩
    refine ⟨hserial', ?_, h.receipts, ?_, ?_, ?_⟩
    · intro e he
      have hacc := h.events e he
      refine ⟨hacc.delivered, hacc.version, hacc.fresh, ?_⟩
      rw [hposts]
      split
      · next hid =>
        rw [← hids.eq_of_mem hmem he hid]
        exact hunsent
      · exact hacc.posts
    · intro id hid
      rw [hposts, if_neg (hid event hmem)]
      exact h.posts id hid
    · intro c hc e he
      rw [(hcalls c hc).1] at he
      cases he
    · intro c hc f hf
      rw [(hcalls c hc).2] at hf
      cases hf
  | @record i result result' event outcome status todo attempts receipts hcall _ hreceipts =>
    have hmem := h.serial.stored _ (List.mem_of_getElem? hcall) event List.mem_cons_self
    obtain ⟨hmark, -⟩ := h.serial.sound.marked _ (List.mem_of_getElem? hcall)
    have hnone := h.no_receipt hmem (by simp [hmark])
    have hposts := (h.events event hmem).posts
    have hadded : receipts = if status = .accepted
        then d.receipts ++ [self.acknowledgement event .acceptedResponse] else d.receipts := by
      rw [hreceipts, h.any_isReceipt hmem (by simp [hmark])]
      rfl
    have hcase : ∀ r, r ∈ receipts ↔ r ∈ d.receipts ∨
        status = .accepted ∧ r = self.acknowledgement event .acceptedResponse := by
      intro r
      rw [hadded]
      split
      · next haccepted => simp [haccepted]
      · next hother => simp [hother]
    refine h.of_written hserial' rfl ?_ ?_ ?_ fun c hc => (List.mem_or_eq_of_mem_set hc).imp_right ?_
    · intro e' he'
      rcases (Desk.mem_written hids hmem Publisher.follows_recorded).mp he' with rfl | ⟨he, hne⟩
      · refine ⟨⟨?_, ?_⟩, ?_, ?_, hposts⟩
        · rintro ⟨r, hr, hid⟩
          rcases (hcase r).mp hr with hr | ⟨haccepted, -⟩
          · exact (hnone r hr hid).elim
          · exact Publisher.eventStatus_delivered.mpr haccepted
        · intro hdelivered
          exact ⟨_, (hcase _).mpr (.inr ⟨Publisher.eventStatus_delivered.mp hdelivered, rfl⟩), rfl⟩
        · intro r hr hid
          rcases (hcase r).mp hr with hr | ⟨-, rfl⟩
          · exact (hnone r hr hid).elim
          · rfl
        · intro hpending
          exact (Publisher.eventStatus_ne_pending hpending).elim
      · refine (h.events e' he).of_same (fun r hid => ?_) rfl
        change r ∈ receipts ↔ r ∈ d.receipts
        rw [hcase]
        refine or_iff_left ?_
        rintro ⟨-, rfl⟩
        exact hne hid.symm
    · intro e he
      exact List.mem_map.mp ((Desk.update_ids (d := d) _ _).symm ▸ List.mem_map_of_mem he)
    · intro r hr
      rcases (hcase r).mp hr with hr | ⟨-, rfl⟩
      · exact .inl hr
      · exact .inr ⟨event, hmem, rfl⟩
    · rintro rfl
      exact ⟨fun _ h => (by cases h), List.forall_mem_nil _⟩
  | @ask i result result' findings event todo answer found existing hcall _ hexisting =>
    have hmem := h.serial.stored _ (List.mem_of_getElem? hcall) event
      (List.mem_append_right _ List.mem_cons_self)
    have hmark := (h.serial.sound.marked _ (List.mem_of_getElem? hcall)).2 event List.mem_cons_self
    refine h.of_calls hserial' rfl rfl (fun _ => Desk.posts_receipt rfl) fun c hc =>
      (List.mem_or_eq_of_mem_set hc).imp_right ?_
    rintro rfl
    refine ⟨rfl, fun f hf => ?_⟩
    rcases List.mem_append.mp hf with hf | hf
    · exact h.unfound _ (List.mem_of_getElem? hcall) f hf
    · rw [List.mem_singleton.mp hf]
      exact hexisting.trans (h.any_isReceipt hmem (by simp [hmark]))
  | @unasked i result result' findings event todo answer error existing hcall hexisting =>
    have hmem := h.serial.stored _ (List.mem_of_getElem? hcall) event
      (List.mem_append_right _ List.mem_cons_self)
    have hmark := (h.serial.sound.marked _ (List.mem_of_getElem? hcall)).2 event List.mem_cons_self
    refine h.of_calls hserial' rfl rfl (fun _ => rfl) fun c hc =>
      (List.mem_or_eq_of_mem_set hc).imp_right ?_
    rintro rfl
    refine ⟨rfl, fun f hf => ?_⟩
    rcases List.mem_append.mp hf with hf | hf
    · exact h.unfound _ (List.mem_of_getElem? hcall) f hf
    · rw [List.mem_singleton.mp hf]
      exact hexisting.trans (h.any_isReceipt hmem (by simp [hmark]))
  | unread _ =>
    refine h.of_calls hserial' rfl rfl (fun _ => Desk.posts_receipt rfl) fun c hc =>
      (List.mem_or_eq_of_mem_set hc).imp_right ?_
    rintro rfl
    exact ⟨rfl, List.forall_mem_nil _⟩
  | @settle i result findings receipts hcall _ hreceipts =>
    obtain ⟨hkeyed, hstored, hmarked⟩ := h.serial.asked hcall
    have hunfound : ∀ f ∈ findings, f.existing = false := h.unfound _ (List.mem_of_getElem? hcall)
    have hcase : ∀ r, r ∈ receipts ↔ r ∈ d.receipts ∨ ∃ f ∈ findings, f.reading = .verified ∧
        r = self.acknowledgement f.before .reconciled := by
      intro r
      rw [hreceipts, Publisher.foldl_receipt fun f hf => hunfound f (List.mem_filter.mp hf).1]
      simp [eq_comm, and_assoc]
    have hposts : ∀ id, (findings.foldl (fun d f =>
        d.update f.before (Publisher.reconciled f.before f.reading)) d).posts id = d.posts id :=
      fun id => Desk.posts_of_eq Desk.foldl_update_exchanges
    refine h.of_written hserial' Desk.foldl_update_exchanges ?_ ?_ ?_ fun c hc => ?_
    · intro e' he'
      rcases (Desk.mem_settled hids hkeyed hstored).mp he' with ⟨f, hf, rfl⟩ | ⟨he, hne⟩
      · have hnone := h.no_receipt (hstored f hf) (by simp [hmarked f hf])
        have hsame : (Publisher.reconciled f.before f.reading).id = f.before.id ∧
            (Publisher.reconciled f.before f.reading).entityVersion = f.before.entityVersion ∧
            (Publisher.reconciled f.before f.reading).attempts = f.before.attempts := by
          cases f.reading <;> exact ⟨rfl, rfl, rfl⟩
        have hkey : ∀ g ∈ findings, g.before.id = f.before.id → g = f := by
          intro g hg hid
          exact List.inj_on_of_nodup_map (f := fun f => f.before.id)
            (by simpa [Table.Keyed, Function.comp_def] using hkeyed) hg hf hid
        refine ⟨⟨?_, ?_⟩, ?_, ?_, ?_⟩
        · rintro ⟨r, hr, hid⟩
          rw [hsame.1] at hid
          rcases (hcase r).mp hr with hr | ⟨g, hg, hverified, rfl⟩
          · exact (hnone r hr hid).elim
          · rw [← hkey g hg hid]
            exact (Publisher.reconciled_delivered (hmarked g hg)).mpr hverified
        · intro hdelivered
          have hverified := (Publisher.reconciled_delivered (hmarked f hf)).mp hdelivered
          exact ⟨_, (hcase _).mpr (.inr ⟨f, hf, hverified, rfl⟩), hsame.1.symm⟩
        · intro r hr hid
          rw [hsame.1] at hid
          rw [hsame.2.1]
          rcases (hcase r).mp hr with hr | ⟨g, hg, -, rfl⟩
          · exact (hnone r hr hid).elim
          · rw [← hkey g hg hid]
            rfl
        · intro hpending
          cases hfound : f.reading <;>
            simp [hfound, Publisher.reconciled, hmarked f hf] at hpending
        · rw [hsame.1, hsame.2.2]
          exact (hposts _).trans_le (h.events f.before (hstored f hf)).posts
      · refine (h.events e' he).of_same (fun r hid => ?_) (hposts _)
        change r ∈ receipts ↔ r ∈ d.receipts
        rw [hcase]
        refine or_iff_left ?_
        rintro ⟨f, hf, -, rfl⟩
        exact hne f hf hid.symm
    · intro e he
      exact List.mem_map.mp (Desk.foldl_update_ids.symm ▸ List.mem_map_of_mem he)
    · intro r hr
      rcases (hcase r).mp hr with hr | ⟨f, hf, -, rfl⟩
      · exact .inl hr
      · exact .inr ⟨f.before, hstored f hf, rfl⟩
    · replace hc : c ∈ (findings.foldl (fun d f => d.update f.before
          (Publisher.reconciled f.before f.reading)) d).calls.set i (.reconciled result) := hc
      rw [Desk.foldl_update_calls] at hc
      refine (List.mem_or_eq_of_mem_set hc).imp_right ?_
      rintro rfl
      exact ⟨fun _ h => (by cases h), List.forall_mem_nil _⟩

theorem next (h : d.Acknowledged) (hserial : act.serial d) : (self.desk.next d act).Acknowledged := by
  rcases self.next_steps d act with heq | hs
  · exact heq.symm ▸ h
  · exact h.steps hs hserial

end Desk.Acknowledged

theorem acknowledged_run (self : Publisher) {acts : List Act}
    (h : self.desk.Along (fun d act => act.serial d) Desk.empty acts) :
    (self.desk.run Desk.empty acts).Acknowledged :=
  self.desk.run_invariant Desk.Acknowledged.empty h fun _ _ hd hact => hd.next hact

/-- In every serial run, whatever the consumer does and wherever calls are killed: an event has a
receipt if and only if it is delivered, receipts carry the version of their event, and an event that
is pending has never gone out. -/
theorem receipts_iff_delivered (self : Publisher) {acts : List Act}
    (h : self.desk.Along (fun d act => act.serial d) Desk.empty acts) :
    (∀ e ∈ (self.desk.run Desk.empty acts).events,
      ((∃ r ∈ (self.desk.run Desk.empty acts).receipts, r.eventId = e.id) ↔ e.status = .delivered) ∧
      (e.status = .pending → (self.desk.run Desk.empty acts).posts e.id = 0)) ∧
    ∀ r ∈ (self.desk.run Desk.empty acts).receipts, ∃ e ∈ (self.desk.run Desk.empty acts).events,
      e.id = r.eventId ∧ r.entityVersion = e.entityVersion := by
  have hack := acknowledged_run self h
  refine ⟨fun e he => ⟨(hack.events e he).delivered, fun hpending => ?_⟩, fun r hr => ?_⟩
  · have hposts := (hack.events e he).posts
    rw [(hack.events e he).fresh hpending] at hposts
    exact Nat.le_zero.mp hposts
  · obtain ⟨e, he, hid⟩ := hack.receipts r hr
    exact ⟨e, he, hid, (hack.events e he).version r hr hid.symm⟩

namespace Outbound

/-- A response is lost, and the consumer tells that it has the event. -/
def confirmed : List Act := [.commit (approval "e1" "x" 1 1), .commit (approval "e2" "y" 1 2),
  .relay "w1", .claim 0, .post 0 (.raised .readTimeout) true, .crash 0, .reconcile "w1",
  .ask 1 (.response 200 (.ok (.obj [("event_id", .str "e1"), ("entity_version", .int 1)]))), .settle 1]

end Outbound

open Outbound in
theorem receipts_iff_delivered_confirmed :
    (deskAfter confirmed).receipts.map (fun r => (r.eventId, r.entityVersion)) = [("e1", some 1)] ∧
    ∀ e ∈ (deskAfter confirmed).events,
      (∃ r ∈ (deskAfter confirmed).receipts, r.eventId = e.id) ↔ e.status = .delivered := by
  have hacts : publisher.desk.Along (fun d act => act.serial d) Desk.empty confirmed := by
    decide +kernel
  exact ⟨by decide +kernel, fun e he => ((receipts_iff_delivered publisher hacts).1 e he).1⟩

end Recordlane
