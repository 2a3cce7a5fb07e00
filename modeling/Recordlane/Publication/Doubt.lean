import Recordlane.Publication.Serial

/-! Uncertain writes: when an event that the consumer may have is sent again. -/
namespace Recordlane

variable {self : Publisher} {d d' : Desk} {act : Act} {e event : OutboxRow} {call : Call} {id : Id}
  {outcome : PostOutcome} {status : AttemptStatus} {xs ys : List Exchange}

/-- The status of a success, of a delay or of an error of the consumer's own. -/
def mayHaveTaken (statusCode : Nat) : Bool :=
  (200 ≤ statusCode ∧ statusCode < 300) ∨ statusCode = 429 ∨ 500 ≤ statusCode

namespace HttpxException

/-- Raised after the request may have been sent: the transport broke off, or the body of an answer that
leaves the event with the consumer cannot be decoded. -/
def mayBeSent : HttpxException → Bool
  | readTimeout | writeTimeout | readError | writeError | closeError | remoteProtocolError => true
  | decodingError statusCode => mayHaveTaken statusCode
  | _ => false

end HttpxException

namespace PostOutcome

/-- The consumer may have the event. -/
def uncertain : PostOutcome → Bool
  | response statusCode => mayHaveTaken statusCode
  | raised exc => exc.mayBeSent
  | killed => true

/-- An uncertain outcome that the relay takes for a failure. -/
def misjudged : PostOutcome → Bool
  | raised .writeTimeout | raised .closeError | raised .remoteProtocolError => true
  | raised (.decodingError statusCode) => mayHaveTaken statusCode
  | _ => false

end PostOutcome

/-- The consumer has no receipt of the event. -/
def ReceiptAnswer.absent : ReceiptAnswer → Bool
  | response statusCode _ => statusCode = 404
  | _ => false

/-- After every uncertain POST of an event its receipt was found absent before it went out again. -/
def Resolved (xs : List Exchange) : Prop :=
  ∀ first event outcome taken mid event' outcome' taken' rest,
    xs = first ++ .post event outcome taken :: (mid ++ .post event' outcome' taken' :: rest) →
    event'.id = event.id → outcome.uncertain →
    ∃ answer : ReceiptAnswer, answer.absent ∧ .receipt event.id answer ∈ mid

/-- Whether the consumer may have an event: after a POST as its outcome tells, until its receipt is
found absent. -/
def doubt (id : Id) : System Bool Exchange Unit where
  step doubtful x := match x with
    | .post event outcome _ => (if event.id = id then outcome.uncertain else doubtful, ())
    | .receipt eventId answer => (if eventId = id ∧ answer.absent then false else doubtful, ())

/-- The consumer may have the event, for all that is known. -/
def Desk.doubtful (d : Desk) (id : Id) : Bool := (doubt id).run false d.exchanges

/-- An event only goes out while the consumer cannot have it. -/
def Cautious (id : Id) (doubtful : Bool) (xs : List Exchange) : Prop :=
  (doubt id).Along (fun doubtful x => x.isPost id → doubtful = false) doubtful xs

/-- Doubt ends with an absent receipt, if events go out with caution. -/
theorem Cautious.absent (h : Cautious id true xs) (hend : (doubt id).run true xs = false) :
    ∃ answer : ReceiptAnswer, answer.absent ∧ .receipt id answer ∈ xs := by
  induction xs with
  | nil => cases hend
  | cons x xs ih =>
    obtain ⟨hx, hxs⟩ := h
    rw [System.run_cons] at hend
    cases x with
    | post event outcome taken =>
      have hother : ¬ event.id = id := fun hid => by simp [Exchange.isPost, hid] at hx
      have hstays : (doubt id).next true (.post event outcome taken) = true := if_neg hother
      rw [hstays] at hxs hend
      obtain ⟨answer, ha, hmem⟩ := ih hxs hend
      exact ⟨answer, ha, List.mem_cons_of_mem _ hmem⟩
    | receipt eventId answer =>
      by_cases hgone : eventId = id ∧ answer.absent
      · exact ⟨answer, hgone.2, hgone.1 ▸ List.mem_cons_self⟩
      · have hstays : (doubt id).next true (.receipt eventId answer) = true := if_neg hgone
        rw [hstays] at hxs hend
        obtain ⟨answer, ha, hmem⟩ := ih hxs hend
        exact ⟨answer, ha, List.mem_cons_of_mem _ hmem⟩

/-- Caution at every POST resolves every doubt before the next one. -/
theorem resolved_of_cautious (h : ∀ id, Cautious id false xs) : Resolved xs := by
  rintro first event outcome taken mid event' outcome' taken' rest rfl hid huncertain
  have hcautious := h event.id
  rw [Cautious, System.along_append] at hcautious
  obtain ⟨-, -, hbehind⟩ := hcautious
  have hdoubt : (doubt event.id).next ((doubt event.id).run false first) (.post event outcome taken) =
      true := by
    change (if event.id = event.id then outcome.uncertain else _) = true
    rw [if_pos rfl, huncertain]
  rw [hdoubt, System.along_append] at hbehind
  obtain ⟨hmid, hpost, -⟩ := hbehind
  exact Cautious.absent hmid (hpost (by simp [Exchange.isPost, hid]))

/-- What a call knows of the events it works on. -/
def Call.Certain (d : Desk) : Call → Prop
  | claimed _ event _ => d.doubtful event.id = false
  | posted _ event outcome status _ =>
    d.doubtful event.id = outcome.uncertain ∧ Publisher.attemptStatus outcome = some status
  | reconciling _ findings _ =>
    ∀ f ∈ findings, f.reading = .absent → d.doubtful f.before.id = false
  | _ => True

/-- Events that wait to be sent are not in doubt. -/
structure Desk.Clear (d : Desk) : Prop where
  serial : d.Serial
  cautious : ∀ id, Cautious id false d.exchanges
  known : ∀ id, d.doubtful id → ∃ e ∈ d.events, e.id = id
  waiting : ∀ e ∈ d.events, e.status = .pending ∨ e.status = .retry → d.doubtful e.id = false
  calls : ∀ call ∈ d.calls, call.Certain d

/-- An uncertain outcome is recorded as a failure, and the event is to be sent again. -/
def Act.misfiles (d : Desk) : Act → Bool
  | .record i =>
    match d.calls[i]? with
    | some (.posted _ event outcome _ _) => outcome.misjudged && event.attempts < 5
    | _ => false
  | _ => false

theorem Call.certain_of_over (h : call.over) : call.Certain d := by
  cases call <;> trivial

theorem Call.Certain.of_doubt (h : call.Certain d) (hd : ∀ id, d'.doubtful id = d.doubtful id) :
    call.Certain d' := by
  cases call with
  | claimed _ event _ => exact (hd event.id).trans h
  | posted _ event _ _ _ => exact ⟨(hd event.id).trans h.1, h.2⟩
  | reconciling _ findings _ => exact fun f hf habsent => (hd f.before.id).trans (h f hf habsent)
  | _ => trivial

/-- An attempt that is to be repeated was certain to fail, or it is misfiled. -/
theorem eventStatus_retry {n : Nat} (ha : Publisher.attemptStatus outcome = some status)
    (hs : Publisher.eventStatus n status = .pending ∨ Publisher.eventStatus n status = .retry)
    (hm : (outcome.misjudged && n < 5) = false) : outcome.uncertain = false := by
  have hretry : (status = .rejected ∨ status = .failed) ∧ n < 5 := by
    by_cases hn : n ≥ 5 <;> cases status <;> simp_all [Publisher.eventStatus]
  obtain ⟨hstatus, hn⟩ := hretry
  cases outcome with
  | response statusCode =>
    simp only [Publisher.attemptStatus, Option.some.injEq] at ha
    split at ha
    · subst ha
      simp at hstatus
    · next hsuccess =>
      split at ha
      · subst ha
        simp at hstatus
      · next hlater =>
        simp only [PostOutcome.uncertain, mayHaveTaken, decide_eq_false_iff_not, not_or]
        exact ⟨hsuccess, not_or.mp hlater⟩
  | raised exc =>
    simp only [Bool.and_eq_false_iff, decide_eq_false_iff_not] at hm
    replace hm := hm.resolve_right (not_not.mpr hn)
    cases exc with
    | decodingError statusCode => exact hm
    | _ => rcases hstatus with rfl | rfl <;> revert ha hm <;> decide
  | killed => cases ha

namespace Desk.Clear

theorem empty : Desk.empty.Clear := by
  refine ⟨Serial.empty, fun _ => trivial, ?_, ?_, ?_⟩ <;>
    simp [Desk.empty, Desk.doubtful]

theorem of_calls (h : d.Clear) (hserial : d'.Serial) (hevents : d'.events = d.events)
    (hexchanges : d'.exchanges = d.exchanges) (hcalls : ∀ c ∈ d'.calls, c ∈ d.calls ∨ c.Certain d) :
    d'.Clear := by
  have hdoubt : ∀ id, d'.doubtful id = d.doubtful id := by
    intro id
    rw [Desk.doubtful, hexchanges, Desk.doubtful]
  refine ⟨hserial, hexchanges ▸ h.cautious, ?_, ?_, ?_⟩
  · intro id hid
    rw [hdoubt] at hid
    exact hevents ▸ h.known id hid
  · intro e he hwait
    rw [hdoubt]
    exact h.waiting e (hevents ▸ he) hwait
  · intro c hc
    rcases hcalls c hc with hc | hc
    · exact (h.calls c hc).of_doubt hdoubt
    · exact hc.of_doubt hdoubt

theorem of_events (h : d.Clear) (hserial : d'.Serial)
    (hids : ∀ e ∈ d.events, ∃ e' ∈ d'.events, e'.id = e.id) (hexchanges : d'.exchanges = d.exchanges)
    (hcalls : ∀ c ∈ d'.calls, c ∈ d.calls ∨ c.Certain d)
    (hwaiting : ∀ e ∈ d'.events, e.status = .pending ∨ e.status = .retry → e ∈ d.events ∨
      d.doubtful e.id = false) : d'.Clear := by
  have hdoubt : ∀ id, d'.doubtful id = d.doubtful id := by
    intro id
    rw [Desk.doubtful, hexchanges, Desk.doubtful]
  refine ⟨hserial, hexchanges ▸ h.cautious, ?_, ?_, ?_⟩
  · intro id hid
    rw [hdoubt] at hid
    obtain ⟨e, he, rfl⟩ := h.known id hid
    exact hids e he
  · intro e he hwait
    rw [hdoubt]
    rcases hwaiting e he hwait with he | he
    · exact h.waiting e he hwait
    · exact he
  · intro c hc
    rcases hcalls c hc with hc | hc
    · exact (h.calls c hc).of_doubt hdoubt
    · exact hc.of_doubt hdoubt

theorem of_exchange {x : Exchange} (h : d.Clear) (hserial : d'.Serial) (hevents : d'.events = d.events)
    (hexchanges : d'.exchanges = d.exchanges ++ [x])
    (hpost : ∀ id, x.isPost id → d.doubtful id = false ∧ ∃ e ∈ d.events, e.id = id ∧ e.status = .reconcile)
    (hcalls : ∀ c ∈ d'.calls, c.Certain d') : d'.Clear := by
  have hdoubt : ∀ id, d'.doubtful id = (doubt id).next (d.doubtful id) x := by
    intro id
    rw [Desk.doubtful, hexchanges, System.run_append]
    rfl
  have hless : ∀ id, x.isPost id = false → d'.doubtful id → d.doubtful id := by
    intro id hx hd
    rw [hdoubt] at hd
    cases x with
    | post event outcome taken =>
      have hother : ¬ event.id = id := by simpa [Exchange.isPost] using hx
      rwa [show (doubt id).next (d.doubtful id) (.post event outcome taken) = d.doubtful id from
        if_neg hother] at hd
    | receipt eventId answer =>
      change (if eventId = id ∧ answer.absent then false else d.doubtful id) = true at hd
      split at hd
      · cases hd
      · exact hd
  refine ⟨hserial, ?_, ?_, ?_, hcalls⟩
  · intro id
    rw [hexchanges, Cautious, System.along_append]
    exact ⟨h.cautious id, fun hx => (hpost id hx).1, trivial⟩
  · intro id hid
    rw [hevents]
    cases hx : x.isPost id with
    | false => exact h.known id (hless id hx hid)
    | true =>
      obtain ⟨-, e, he, hid, -⟩ := hpost id hx
      exact ⟨e, he, hid⟩
  · intro e he hwait
    rw [hevents] at he
    rw [← Bool.not_eq_true]
    intro hd
    cases hx : x.isPost e.id with
    | false =>
      have hclear := h.waiting e he hwait
      rw [hless e.id hx hd] at hclear
      cases hclear
    | true =>
      obtain ⟨-, e', he', hid, hstatus⟩ := hpost e.id hx
      rw [← h.serial.sound.ids.eq_of_mem he' he hid, hstatus] at hwait
      rcases hwait with hwait | hwait <;> cases hwait

end Desk.Clear

theorem Publisher.reading_absent {answer : ReceiptAnswer} (h : reading event answer = some .absent) :
    answer.absent := by
  cases answer with
  | response statusCode body =>
    by_contra hne
    have hcode : statusCode ≠ 404 := by simpa [ReceiptAnswer.absent] using hne
    simp only [reading, if_neg hcode] at h
    split at h
    · cases h
    · split at h
      · split at h <;> cases h
      · split at h <;> cases h
      · cases h
  | raised exc =>
    simp only [reading] at h
    split at h <;> cases h
  | killed => cases h

theorem Publisher.reconciled_waiting {found : Reading} (hmark : event.status = .reconcile)
    (h : (reconciled event found).status = .pending ∨ (reconciled event found).status = .retry) :
    found = .absent := by
  cases found with
  | absent => rfl
  | verified => rcases h with h | h <;> cases h
  | unresolved error =>
    rw [show (reconciled event (.unresolved error)).status = event.status from rfl, hmark] at h
    rcases h with h | h <;> cases h

theorem Desk.Clear.steps (h : d.Clear) (hs : self.Steps d act d') (hserial : act.serial d)
    (hfile : act.misfiles d = false) : d'.Clear := by
  have hserial' := h.serial.steps hs hserial
  have hids := h.serial.sound.ids
  have hset : ∀ {i call} {c : Call}, c ∈ d.calls.set i call → call.Certain d →
      c ∈ d.calls ∨ c.Certain d := by
    intro i call c hc hcertain
    rcases List.mem_or_eq_of_mem_set hc with hc | rfl
    · exact .inl hc
    · exact .inr hcertain
  cases hs with
  | @commit event hnew =>
    refine h.of_events hserial' (fun e he => ⟨e, List.mem_append_left _ he, rfl⟩) rfl
      (fun c hc => .inl hc) fun e he _ => ?_
    rcases List.mem_append.mp he with he | he
    · exact .inl he
    · right
      rw [← Bool.not_eq_true, List.mem_singleton.mp he]
      intro hd
      obtain ⟨e', he', hid⟩ := h.known _ hd
      exact hnew e' he' hid
  | relay =>
    refine h.of_calls hserial' rfl rfl fun c hc => ?_
    rcases List.mem_append.mp hc with hc | hc
    · exact .inl hc
    · rw [List.mem_singleton.mp hc]
      exact .inr trivial
  | reconcile =>
    refine h.of_calls hserial' rfl rfl fun c hc => ?_
    rcases List.mem_append.mp hc with hc | hc
    · exact .inl hc
    · rw [List.mem_singleton.mp hc]
      exact .inr (by simp [Call.Certain])
  | close hover _ =>
    exact h.of_calls hserial' rfl rfl fun c hc => hset hc (Call.certain_of_over hover)
  | @claim i result event todo attempts hcall _ =>
    have hmem := h.serial.stored _ (List.mem_of_getElem? hcall) event List.mem_cons_self
    have hmark := h.serial.sound.marked _ (List.mem_of_getElem? hcall) event List.mem_cons_self
    refine h.of_events hserial' ?_ rfl (fun c hc => hset hc (h.waiting event hmem hmark)) ?_
    · intro e he
      exact List.mem_map.mp ((Desk.update_ids (d := d) _ _).symm ▸ List.mem_map_of_mem he)
    · intro e he hwait
      rcases (Desk.mem_written hids hmem Publisher.follows_claimed).mp he with rfl | ⟨he, -⟩
      · rcases hwait with hwait | hwait <;> cases hwait
      · exact .inl he
  | @post i result event todo outcome taken call hcall hnext =>
    have hmem := h.serial.stored _ (List.mem_of_getElem? hcall) event List.mem_cons_self
    obtain ⟨hmark, -⟩ := h.serial.sound.marked _ (List.mem_of_getElem? hcall)
    have hcertain : d.doubtful event.id = false := h.calls _ (List.mem_of_getElem? hcall)
    refine h.of_exchange hserial' rfl rfl ?_ fun c hc => ?_
    · intro id hid
      have hid : event.id = id := of_decide_eq_true hid
      exact hid ▸ ⟨hcertain, event, hmem, rfl, hmark⟩
    · obtain ⟨j, hj⟩ := List.getElem?_of_mem hc
      rcases h.serial.others call hcall rfl j c hj with ⟨rfl, -⟩ | hover
      · rcases hnext with rfl | ⟨status, hstatus, rfl⟩
        · trivial
        · refine ⟨?_, hstatus⟩
          rw [Desk.doubtful, System.run_append]
          exact if_pos rfl
      · exact Call.certain_of_over hover
  | @record i result result' event outcome status todo attempts receipts hcall =>
    have hmem := h.serial.stored _ (List.mem_of_getElem? hcall) event List.mem_cons_self
    obtain ⟨hcertain, hattempt⟩ := h.calls _ (List.mem_of_getElem? hcall)
    simp only [Act.misfiles, hcall] at hfile
    refine h.of_events hserial' ?_ rfl (fun c hc => hset hc trivial) ?_
    · intro e he
      exact List.mem_map.mp ((Desk.update_ids (d := d) _ _).symm ▸ List.mem_map_of_mem he)
    · intro e he hwait
      rcases (Desk.mem_written hids hmem Publisher.follows_recorded).mp he with rfl | ⟨he, -⟩
      · exact .inr (hcertain.trans (eventStatus_retry hattempt hwait hfile))
      · exact .inl he
  | @ask i result result' findings event todo answer found existing hcall hfound =>
    have hfindings := h.calls _ (List.mem_of_getElem? hcall)
    refine h.of_exchange hserial' rfl rfl (by simp [Exchange.isPost]) fun c hc => ?_
    obtain ⟨j, hj⟩ := List.getElem?_of_mem hc
    rcases h.serial.others _ hcall rfl j c hj with ⟨rfl, -⟩ | hover
    · intro f hf habsent
      rw [Desk.doubtful, System.run_append]
      change (if event.id = f.before.id ∧ answer.absent then false else d.doubtful f.before.id) = false
      split
      · rfl
      · next hother =>
        rcases List.mem_append.mp hf with hf | hf
        · exact hfindings f hf habsent
        · rw [List.mem_singleton] at hf
          subst hf
          dsimp only at habsent
          rw [habsent] at hfound
          exact (hother ⟨rfl, Publisher.reading_absent hfound⟩).elim
    · exact Call.certain_of_over hover
  | @unasked i result result' findings event todo answer error existing hcall =>
    have hfindings := h.calls _ (List.mem_of_getElem? hcall)
    refine h.of_calls hserial' rfl rfl fun c hc => hset hc fun f hf habsent => ?_
    rcases List.mem_append.mp hf with hf | hf
    · exact hfindings f hf habsent
    · rw [List.mem_singleton] at hf
      subst hf
      cases habsent
  | @unread i result findings event todo answer hcall =>
    refine h.of_exchange hserial' rfl rfl (by simp [Exchange.isPost]) fun c hc => ?_
    obtain ⟨j, hj⟩ := List.getElem?_of_mem hc
    rcases h.serial.others _ hcall rfl j c hj with ⟨rfl, -⟩ | hover
    · trivial
    · exact Call.certain_of_over hover
  | @settle i result findings receipts hcall _ =>
    obtain ⟨hkeyed, hstored, hmarked⟩ := h.serial.asked hcall
    have hcertain := h.calls _ (List.mem_of_getElem? hcall)
    refine h.of_events hserial' ?_ Desk.foldl_update_exchanges (fun c hc => ?_) ?_
    · intro e he
      exact List.mem_map.mp (Desk.foldl_update_ids.symm ▸ List.mem_map_of_mem he)
    · replace hc : c ∈ (findings.foldl (fun d f => d.update f.before
          (Publisher.reconciled f.before f.reading)) d).calls.set i (.reconciled result) := hc
      rw [Desk.foldl_update_calls] at hc
      exact hset hc (Call.certain_of_over rfl)
    · intro e he hwait
      rcases (Desk.mem_settled hids hkeyed hstored).mp he with ⟨f, hf, rfl⟩ | ⟨he, -⟩
      · right
        have habsent := Publisher.reconciled_waiting (hmarked f hf) hwait
        rw [habsent]
        exact hcertain f hf habsent
      · exact .inl he

/-- In every serial run, crashes included, whose uncertain outcomes are never filed as failures, an
event that the consumer may have goes out again only after its receipt was found absent. -/
theorem uncertain_resolved (self : Publisher) {acts : List Act}
    (h : self.desk.Along (fun d act => act.serial d ∧ act.misfiles d = false) Desk.empty acts) :
    Resolved (self.desk.run Desk.empty acts).exchanges := by
  refine resolved_of_cautious (Desk.Clear.cautious ?_)
  refine self.desk.run_invariant Desk.Clear.empty h fun d act hd hact => ?_
  rcases self.next_steps d act with heq | hs
  · exact heq.symm ▸ hd
  · exact hd.steps hs hact.1 hact.2

namespace Outbound

/-- A response is lost, the consumer has no receipt, and the event goes out again. -/
def lostResponse : List Act := [.commit (approval "e1" "x" 1 1), .relay "w1", .claim 0,
  .post 0 (.raised .readTimeout) false, .record 0, .claim 0, .reconcile "w1",
  .ask 1 (.response 404 (.error .jsonDecodeError)), .settle 1, .relay "w1", .claim 2,
  .post 2 (.response 200) true, .record 2]

/-- The write times out after the consumer has the event, and the event goes out again. -/
def lostWrite : List Act := [.commit (approval "e1" "x" 1 1), .relay "w1", .claim 0,
  .post 0 (.raised .writeTimeout) true, .record 0, .claim 0, .relay "w1", .claim 1,
  .post 1 (.response 200) true]

end Outbound

open Outbound in
theorem uncertain_resolved_lostResponse : Resolved (deskAfter lostResponse).exchanges := by
  have hacts : publisher.desk.Along (fun d act => act.serial d ∧ act.misfiles d = false) Desk.empty
      lostResponse := by decide +kernel
  exact uncertain_resolved publisher hacts

open Outbound in
theorem lostWrite_not_resolved : ¬ ∀ acts,
    publisher.desk.Along (fun d act => act.serial d) Desk.empty acts →
      Resolved (deskAfter acts).exchanges := by
  intro h
  have hserial : publisher.desk.Along (fun d act => act.serial d) Desk.empty lostWrite := by
    decide +kernel
  obtain ⟨answer, -, hmem⟩ := h lostWrite hserial [] _ _ _ [] _ _ _ [] rfl rfl rfl
  cases hmem

end Recordlane
