import Recordlane.Publication.Delivered

/-! Attempts of relays that overlap: a stale copy of an event never gets a number of its own. -/
namespace Recordlane

variable {self : Publisher} {d d' : Desk} {act : Act} {e event before after : OutboxRow}
  {call call' : Call} {calls : List Call} {i j : Nat} {id : Id} {result : RelayResult}
  {todo : List OutboxRow}

namespace Call

def reconciles : Call → Bool
  | reconciling _ _ _ => true
  | _ => false

/-- The copies a relay has yet to claim. -/
def waiting : Call → List OutboxRow
  | relaying _ todo | claimed _ _ todo | posted _ _ _ _ todo => todo
  | _ => []

/-- The event a relay has claimed, until its outcome is recorded. -/
def inFlight : Call → Option OutboxRow
  | claimed _ event _ | posted _ event _ _ _ => some event
  | _ => none

/-- The event a relay has claimed, until it goes out. -/
def unsent : Call → Option OutboxRow
  | claimed _ event _ => some event
  | _ => none

theorem waiting_of_over (h : call.over) : call.waiting = [] := by
  cases call <;> first | rfl | cases h

theorem inFlight_of_over (h : call.over) : call.inFlight = none := by
  cases call <;> first | rfl | cases h

theorem unsent_of_over (h : call.over) : call.unsent = none := by
  cases call <;> first | rfl | cases h

theorem inFlight_of_unsent (h : call.unsent = some event) : call.inFlight = some event := by
  cases call <;> first | exact h | cases h

theorem inFlight_of_reconciles (h : call.reconciles) : call.inFlight = none := by
  cases call <;> first | rfl | cases h

theorem not_reconciles_of_over (h : call.over) : call.reconciles = false := by
  cases call <;> first | rfl | cases h

end Call

/-- Relays may overlap, but no relay and no reconciliation runs beside a reconciliation. -/
def Act.apart (d : Desk) : Act → Bool
  | .relay _ => d.calls.all fun call => !call.reconciles
  | .reconcile _ => d.calls.all Call.over
  | _ => true

/-- The event and the number of a POST. -/
def Exchange.attempt? : Exchange → Option (Id × Nat)
  | post event _ _ => some (event.id, event.attempts)
  | receipt _ _ => none

namespace Desk

/-- The attempts that went out. -/
def sent (d : Desk) : List (Id × Nat) := d.exchanges.filterMap Exchange.attempt?

/-- The numbers of the attempts of an event. -/
def numbers (d : Desk) (id : Id) : List Nat :=
  (d.attempts.filter fun a => a.eventId = id).map DeliveryAttempt.attempt

end Desk

/-- The copy has a number that is used up, or its row waits to be sent. -/
def OutboxRow.Behind (c e : OutboxRow) : Prop :=
  c.attempts ≤ e.attempts ∧ (c.attempts = e.attempts → e.status = .pending ∨ e.status = .retry)

/-- The event is on its way, and the copy has its number. -/
def OutboxRow.Current (c e : OutboxRow) : Prop :=
  e.attempts = c.attempts ∧ e.status = .reconcile

/-- What the copies of a relay are to their rows. -/
structure Call.Fenced (d : Desk) (call : Call) : Prop where
  waiting : ∀ c ∈ call.waiting, ∃ e ∈ d.events, e.id = c.id ∧ c.Behind e
  inFlight : ∀ c, call.inFlight = some c → ∃ e ∈ d.events, e.id = c.id ∧ c.Current e
  unsent : ∀ c, call.unsent = some c → (c.id, c.attempts) ∉ d.sent

/-- No event is on its way in two calls. -/
def FlyOnce (calls : List Call) : Prop :=
  ∀ (i j : Nat) (call call' : Call) (c c' : OutboxRow), calls[i]? = some call →
    calls[j]? = some call' → call.inFlight = some c → call'.inFlight = some c' → c.id = c'.id → i = j

/-- Attempts are numbered from one to the counter of their event, and each goes out once. -/
structure Desk.Numbered (publisher : Publisher) (d : Desk) : Prop where
  sound : d.Sound
  rows : ∀ e ∈ d.events, d.numbers e.id = List.range' 1 e.attempts
  known : ∀ a ∈ d.attempts, a.consumerKey = publisher.settings.publicationConsumerKey ∧
    ∃ e ∈ d.events, e.id = a.eventId
  sent : ∀ p ∈ d.sent, ∃ e ∈ d.events, e.id = p.1 ∧ p.2 ≤ e.attempts
  once : d.sent.Nodup
  fenced : ∀ call ∈ d.calls, call.Fenced d
  flights : FlyOnce d.calls
  alone : ∀ (i : Nat) (call : Call), d.calls[i]? = some call → call.reconciles →
    (∀ (j : Nat) (c : Call), d.calls[j]? = some c → j ≠ i → c.over) ∧ ∀ e ∈ call.copies, e ∈ d.events

theorem Call.of_set {c : Call} (h : (calls.set i call')[j]? = some c) :
    j = i ∧ c = call' ∨ j ≠ i ∧ calls[j]? = some c := by
  rw [List.getElem?_set] at h
  split at h
  · next hj =>
    split at h
    · exact .inl ⟨hj.symm, (Option.some.inj h).symm⟩
    · cases h
  · next hj => exact .inr ⟨Ne.symm hj, h⟩

/-- A call may go on with the event it had on its way, or with one that no other call has. -/
theorem FlyOnce.set (h : FlyOnce calls) (hnew : ∀ (c' : OutboxRow) (j : Nat) (call : Call) (c : OutboxRow),
    call'.inFlight = some c' → calls[j]? = some call → call.inFlight = some c → c.id = c'.id → j = i) :
    FlyOnce (calls.set i call') := by
  intro j k call₁ call₂ c c' hj hk hc hc' hid
  rcases Call.of_set hj with ⟨hji, rfl⟩ | ⟨hji, hold⟩
  · rcases Call.of_set hk with ⟨hki, -⟩ | ⟨hki, hold⟩
    · exact hji.trans hki.symm
    · exact (hki (hnew c k call₂ c' hc hold hc' hid.symm)).elim
  · rcases Call.of_set hk with ⟨-, rfl⟩ | ⟨-, hold'⟩
    · exact (hji (hnew c' j call₁ c hc' hold hc hid)).elim
    · exact h j k call₁ call₂ c c' hold hold' hc hc' hid

theorem FlyOnce.append (h : FlyOnce calls) (hnew : call.inFlight = none) : FlyOnce (calls ++ [call]) := by
  have hold : ∀ (j : Nat) (call₁ : Call) (c : OutboxRow), (calls ++ [call])[j]? = some call₁ →
      call₁.inFlight = some c → calls[j]? = some call₁ := by
    intro j call₁ c hj hc
    rw [List.getElem?_append] at hj
    split at hj
    · exact hj
    · rw [List.getElem?_singleton] at hj
      split at hj
      · obtain rfl := Option.some.inj hj
        rw [hnew] at hc
        cases hc
      · cases hj
  intro j k call₁ call₂ c c' hj hk hc hc' hid
  exact h j k call₁ call₂ c c' (hold j call₁ c hj hc) (hold k call₂ c' hk hc') hc hc' hid

namespace Call.Fenced

theorem of_over (h : call.over) : call.Fenced d := by
  refine ⟨?_, ?_, ?_⟩
  · rw [waiting_of_over h]
    simp
  · rw [inFlight_of_over h]
    simp
  · rw [unsent_of_over h]
    simp

theorem of_reconciles (h : call.reconciles) : call.Fenced d := by
  cases call with
  | reconciling result findings todo => exact ⟨by simp [Call.waiting], nofun, nofun⟩
  | _ => cases h

theorem of_mem (h : call.Fenced d) (hevents : ∀ e ∈ d.events, e ∈ d'.events) (hsent : d'.sent = d.sent) :
    call.Fenced d' := by
  refine ⟨fun c hc => ?_, fun c hc => ?_, fun c hc => ?_⟩
  · obtain ⟨e, he, hid, hbehind⟩ := h.waiting c hc
    exact ⟨e, hevents e he, hid, hbehind⟩
  · obtain ⟨e, he, hid, hcurrent⟩ := h.inFlight c hc
    exact ⟨e, hevents e he, hid, hcurrent⟩
  · rw [hsent]
    exact h.unsent c hc

end Call.Fenced

namespace Desk

theorem sent_append (xs : List Exchange) : ({ d with exchanges := d.exchanges ++ xs } : Desk).sent =
    d.sent ++ xs.filterMap Exchange.attempt? := List.filterMap_append

theorem mem_update_of_mem (he : e ∈ d.events) :
    (if e.id = before.id then before.flush after e else e) ∈ (d.update before after).events :=
  Table.mem_modify_of_mem he

end Desk

namespace Publisher

theorem flush_claimed (h : event.status = .pending ∨ event.status = .retry) :
    (event.flush (claimed event) e).attempts = event.attempts + 1 ∧
      (event.flush (claimed event) e).status = .reconcile := by
  rcases h with h | h <;> simp [OutboxRow.flush, claimed, h]

theorem flush_recorded {outcome : PostOutcome} {status : AttemptStatus} :
    (event.flush (recorded event outcome status) e).attempts = e.attempts := by
  simp [OutboxRow.flush, recorded]

theorem reconciled_attempts {found : Reading} :
    (reconciled event found).attempts = event.attempts ∧ (reconciled event found).id = event.id := by
  cases found <;> exact ⟨rfl, rfl⟩

end Publisher

theorem Desk.foldl_update_attempts_column {findings : List Finding} :
    ((findings.foldl (fun d f => d.update f.before (Publisher.reconciled f.before f.reading))
      d).events.map fun e => (e.id, e.attempts)) = d.events.map fun e => (e.id, e.attempts) := by
  induction findings generalizing d with
  | nil => rfl
  | cons f findings ih =>
    rw [List.foldl_cons, ih]
    exact Table.map_modify fun e => by simp [OutboxRow.flush, Publisher.reconciled_attempts]

namespace Desk.Numbered

theorem empty : Desk.empty.Numbered self := by
  refine ⟨Sound.empty, ?_, ?_, ?_, ?_, ?_, ?_, ?_⟩ <;>
    simp [Desk.empty, Desk.sent, FlyOnce]

/-- The stored row of a number that is free: nothing has happened to it since it was loaded. -/
theorem claimable (h : d.Numbered self) (hcall : d.calls[i]? = some (.relaying result (event :: todo)))
    (hnew : d.attempts.any (self.isAttempt (Publisher.claimed event)) = false) :
    ∃ e ∈ d.events, e.id = event.id ∧ e.attempts = event.attempts ∧
      (e.status = .pending ∨ e.status = .retry) := by
  obtain ⟨e, he, hid, hle, hwait⟩ :=
    (h.fenced _ (List.mem_of_getElem? hcall)).waiting event List.mem_cons_self
  have heq : event.attempts = e.attempts := by
    by_contra hne
    have hused : event.attempts + 1 ∈ d.numbers e.id := by
      rw [h.rows e he, List.mem_range'_1]
      omega
    obtain ⟨a, ha, hnumber⟩ := List.mem_map.mp hused
    rw [List.mem_filter, decide_eq_true_eq] at ha
    have hattempt : self.isAttempt (Publisher.claimed event) a := by
      simp [Publisher.isAttempt, Publisher.claimed, ha.2, hid, (h.known a ha.1).1, hnumber]
    exact List.any_eq_false.mp hnew a ha.1 hattempt
  exact ⟨e, he, hid, heq.symm, hwait heq⟩

theorem not_reconciles (h : d.Numbered self) (hcall : d.calls[i]? = some call) (hover : call.over = false)
    (hrelay : call.reconciles = false) : ∀ c ∈ d.calls, c.reconciles = false := by
  intro c hc
  rw [← Bool.not_eq_true]
  intro hreconciles
  obtain ⟨j, hj⟩ := List.getElem?_of_mem hc
  have hne : i ≠ j := by
    rintro rfl
    rw [hcall, Option.some.injEq] at hj
    rw [hj, hreconciles] at hrelay
    cases hrelay
  rw [(h.alone j c hj hreconciles).1 i call hcall hne] at hover
  cases hover

theorem close (h : d.Numbered self) (hover : call'.over) (hsound : (d.setCall i call').Sound) :
    (d.setCall i call').Numbered self := by
  refine ⟨hsound, h.rows, h.known, h.sent, h.once, ?_, ?_, ?_⟩
  · intro c hc
    rcases List.mem_or_eq_of_mem_set hc with hc | rfl
    · exact (h.fenced c hc).of_mem (fun _ he => he) rfl
    · exact .of_over hover
  · refine h.flights.set fun c' j call c hc' => ?_
    rw [Call.inFlight_of_over hover] at hc'
    cases hc'
  · intro j c hc hreconciles
    rcases Call.of_set hc with ⟨-, rfl⟩ | ⟨-, hold⟩
    · rw [Call.not_reconciles_of_over hover] at hreconciles
      cases hreconciles
    · obtain ⟨hothers, hcopies⟩ := h.alone j c hold hreconciles
      refine ⟨fun k c' hc' hk => ?_, hcopies⟩
      rcases Call.of_set hc' with ⟨-, rfl⟩ | ⟨-, hc'⟩
      · exact hover
      · exact hothers k c' hc' hk

/-- A call begins while no reconciliation is in progress, or alone. -/
theorem start (h : d.Numbered self) (hsound : d'.Sound) (hevents : d'.events = d.events)
    (hattempts : d'.attempts = d.attempts) (hsent : d'.sent = d.sent)
    (hcalls : d'.calls = d.calls ++ [call]) (hfenced : call.Fenced d') (hflight : call.inFlight = none)
    (halone : (∀ c ∈ d.calls, c.reconciles = false) ∧ call.reconciles = false ∨
      (∀ c ∈ d.calls, c.over) ∧ ∀ e ∈ call.copies, e ∈ d.events) : d'.Numbered self := by
  have hnumbers : ∀ id, d'.numbers id = d.numbers id := by
    intro id
    rw [Desk.numbers, hattempts, Desk.numbers]
  refine ⟨hsound, ?_, ?_, ?_, hsent ▸ h.once, ?_, hcalls ▸ h.flights.append hflight, ?_⟩
  · intro e he
    rw [hnumbers]
    exact h.rows e (hevents ▸ he)
  · rw [hattempts, hevents]
    exact h.known
  · rw [hsent, hevents]
    exact h.sent
  · intro c hc
    rw [hcalls] at hc
    rcases List.mem_append.mp hc with hc | hc
    · exact (h.fenced c hc).of_mem (fun e he => hevents.symm ▸ he) hsent
    · exact List.mem_singleton.mp hc ▸ hfenced
  · intro j c hc hreconciles
    rw [hcalls, List.getElem?_append] at hc
    split at hc
    · have hmem := List.mem_of_getElem? hc
      rcases halone with ⟨hnone, -⟩ | ⟨hover, -⟩
      · rw [hnone c hmem] at hreconciles
        cases hreconciles
      · rw [Call.not_reconciles_of_over (hover c hmem)] at hreconciles
        cases hreconciles
    · next hlast =>
      rw [List.getElem?_singleton] at hc
      split at hc
      · next hj =>
        obtain rfl := Option.some.inj hc
        rcases halone with ⟨-, hrelay⟩ | ⟨hover, hcopies⟩
        · rw [hrelay] at hreconciles
          cases hreconciles
        · refine ⟨fun k c' hc' hk => ?_, fun e he => hevents.symm ▸ hcopies e he⟩
          rw [hcalls, List.getElem?_append] at hc'
          split at hc'
          · exact hover c' (List.mem_of_getElem? hc')
          · rw [List.getElem?_singleton] at hc'
            split at hc'
            · omega
            · cases hc'
      · cases hc

theorem relay (h : d.Numbered self) (hcall : d.calls[i]? = some call) (hover : call.over = false)
    (hrelay : call.reconciles = false) (hsound : d'.Sound) (hcalls : d'.calls = d.calls.set i call')
    (hrelay' : call'.reconciles = false) (hrows : ∀ e ∈ d'.events, d'.numbers e.id = List.range' 1 e.attempts)
    (hknown : ∀ a ∈ d'.attempts, a.consumerKey = self.settings.publicationConsumerKey ∧
      ∃ e ∈ d'.events, e.id = a.eventId)
    (hsent : ∀ p ∈ d'.sent, ∃ e ∈ d'.events, e.id = p.1 ∧ p.2 ≤ e.attempts) (honce : d'.sent.Nodup)
    (hfenced : call'.Fenced d')
    (hothers : ∀ (j : Nat) (c : Call), j ≠ i → d.calls[j]? = some c → c.Fenced d')
    (hflights : ∀ (c' : OutboxRow) (j : Nat) (call : Call) (c : OutboxRow), call'.inFlight = some c' →
      d.calls[j]? = some call → call.inFlight = some c → c.id = c'.id → j = i) : d'.Numbered self := by
  refine ⟨hsound, hrows, hknown, hsent, honce, ?_, hcalls ▸ h.flights.set hflights, ?_⟩
  · intro c hc
    rw [hcalls] at hc
    obtain ⟨j, hj⟩ := List.getElem?_of_mem hc
    rcases Call.of_set hj with ⟨-, rfl⟩ | ⟨hji, hj⟩
    · exact hfenced
    · exact hothers j c hji hj
  · intro j c hc hreconciles
    rw [hcalls] at hc
    rcases Call.of_set hc with ⟨-, rfl⟩ | ⟨-, hc⟩
    · rw [hrelay'] at hreconciles
      cases hreconciles
    · rw [h.not_reconciles hcall hover hrelay c (List.mem_of_getElem? hc)] at hreconciles
      cases hreconciles

/-- A reconciliation goes on, or ends. The counters stay. -/
theorem reconcile (h : d.Numbered self) (hcall : d.calls[i]? = some call) (hreconciles : call.reconciles)
    (hsound : d'.Sound) (hcalls : d'.calls = d.calls.set i call') (hcall' : call'.over ∨ call'.reconciles)
    (hcopies : ∀ e ∈ call'.copies, e ∈ d'.events) (hattempts : d'.attempts = d.attempts)
    (hsent : d'.sent = d.sent)
    (hcolumn : (d'.events.map fun e => (e.id, e.attempts)) = d.events.map fun e => (e.id, e.attempts)) :
    d'.Numbered self := by
  have hothers := (h.alone i call hcall hreconciles).1
  have hback : ∀ e' ∈ d'.events, ∃ e ∈ d.events, e.id = e'.id ∧ e.attempts = e'.attempts := by
    intro e' he'
    have hmem : (e'.id, e'.attempts) ∈ d.events.map fun e => (e.id, e.attempts) :=
      hcolumn ▸ List.mem_map_of_mem he'
    obtain ⟨e, he, heq⟩ := List.mem_map.mp hmem
    exact ⟨e, he, (Prod.mk.inj heq).1, (Prod.mk.inj heq).2⟩
  have hon : ∀ e ∈ d.events, ∃ e' ∈ d'.events, e'.id = e.id ∧ e'.attempts = e.attempts := by
    intro e he
    have hmem : (e.id, e.attempts) ∈ d'.events.map fun e => (e.id, e.attempts) :=
      hcolumn ▸ List.mem_map_of_mem he
    obtain ⟨e', he', heq⟩ := List.mem_map.mp hmem
    exact ⟨e', he', (Prod.mk.inj heq).1, (Prod.mk.inj heq).2⟩
  have hcase : ∀ (j : Nat) (c : Call), d'.calls[j]? = some c → c.over ∨ c.reconciles ∧ j = i := by
    intro j c hc
    rw [hcalls] at hc
    rcases Call.of_set hc with ⟨hj, rfl⟩ | ⟨hj, hc⟩
    · exact hcall'.imp_right fun hr => ⟨hr, hj⟩
    · exact .inl (hothers j c hc hj)
  refine ⟨hsound, ?_, ?_, ?_, hsent ▸ h.once, ?_, ?_, ?_⟩
  · intro e' he'
    obtain ⟨e, he, hid, hnumber⟩ := hback e' he'
    rw [Desk.numbers, hattempts, ← hid, ← hnumber]
    exact h.rows e he
  · intro a ha
    rw [hattempts] at ha
    obtain ⟨hkey, e, he, hid⟩ := h.known a ha
    obtain ⟨e', he', hid', -⟩ := hon e he
    exact ⟨hkey, e', he', hid'.trans hid⟩
  · intro p hp
    rw [hsent] at hp
    obtain ⟨e, he, hid, hle⟩ := h.sent p hp
    obtain ⟨e', he', hid', hnumber⟩ := hon e he
    exact ⟨e', he', hid'.trans hid, hnumber ▸ hle⟩
  · intro c hc
    obtain ⟨j, hj⟩ := List.getElem?_of_mem hc
    rcases hcase j c hj with hover | ⟨hr, -⟩
    · exact .of_over hover
    · exact .of_reconciles hr
  · intro j k call₁ call₂ c c' hj hk hc hc' hid
    rcases hcase j call₁ hj with hover | ⟨hr, -⟩
    · rw [Call.inFlight_of_over hover] at hc
      cases hc
    · rw [Call.inFlight_of_reconciles hr] at hc
      cases hc
  · intro j c hc hr
    have hj : j = i := by
      rcases hcase j c hc with hover | ⟨-, hj⟩
      · rw [Call.not_reconciles_of_over hover] at hr
        cases hr
      · exact hj
    refine ⟨fun k c' hc' hk => ?_, fun e he => ?_⟩
    · rcases hcase k c' hc' with hover | ⟨-, hki⟩
      · exact hover
      · exact (hk (hki.trans hj.symm)).elim
    · rw [hcalls] at hc
      rcases Call.of_set hc with ⟨-, rfl⟩ | ⟨hji, -⟩
      · exact hcopies e he
      · exact (hji hj).elim

theorem commit {event : OutboxEvent} (h : d.Numbered self) (hnew : ∀ e ∈ d.events, e.id ≠ event.id)
    (hsound : ({ d with events := d.events ++ [event.row] } : Desk).Sound) :
    ({ d with events := d.events ++ [event.row] } : Desk).Numbered self := by
  have hmem : ∀ e ∈ d.events, e ∈ d.events ++ [event.row] := fun e he => List.mem_append_left _ he
  refine ⟨hsound, ?_, ?_, ?_, h.once, fun c hc => (h.fenced c hc).of_mem hmem rfl, h.flights, ?_⟩
  · intro e he
    rcases List.mem_append.mp he with he | he
    · exact h.rows e he
    · rw [List.mem_singleton.mp he]
      have hnone : d.attempts.filter (fun a => a.eventId = event.id) = [] := by
        rw [List.filter_eq_nil_iff]
        intro a ha hid
        obtain ⟨-, e₀, he₀, hid₀⟩ := h.known a ha
        exact hnew e₀ he₀ (hid₀.trans (of_decide_eq_true hid))
      exact congrArg (List.map DeliveryAttempt.attempt) hnone
  · intro a ha
    obtain ⟨hkey, e, he, hid⟩ := h.known a ha
    exact ⟨hkey, e, hmem e he, hid⟩
  · intro p hp
    obtain ⟨e, he, hid, hle⟩ := h.sent p hp
    exact ⟨e, hmem e he, hid, hle⟩
  · intro j c hc hr
    obtain ⟨hothers, hcopies⟩ := h.alone j c hc hr
    exact ⟨hothers, fun e he => hmem e (hcopies e he)⟩

/-- A claim: the counter moves on by one, and the copy takes the new number. -/
theorem claim {attempts : List DeliveryAttempt} (h : d.Numbered self)
    (hcall : d.calls[i]? = some (.relaying result (event :: todo)))
    (hnew : d.attempts.any (self.isAttempt (Publisher.claimed event)) = false)
    (hattempts : attempts = d.attempts ++ [self.sending (Publisher.claimed event)])
    (hd' : d' = { (d.update event (Publisher.claimed event)).setCall i
      (.claimed result (Publisher.claimed event) todo) with attempts := attempts })
    (hsound : d'.Sound) : d'.Numbered self := by
  obtain ⟨e₀, he₀, hid₀, hnumber, hwait⟩ := h.claimable hcall hnew
  have hmarked := h.sound.marked _ (List.mem_of_getElem? hcall) event List.mem_cons_self
  have hflush : ∀ e, (event.flush (Publisher.claimed event) e).attempts = event.attempts + 1 ∧
      (event.flush (Publisher.claimed event) e).status = .reconcile := fun e =>
    Publisher.flush_claimed hmarked
  have hevents : d'.events = (d.update event (Publisher.claimed event)).events := by rw [hd']; rfl
  have hsent : d'.sent = d.sent := by rw [hd']; rfl
  have hback : ∀ e' ∈ d'.events, (e' ∈ d.events ∧ e'.id ≠ event.id) ∨
      e'.id = event.id ∧ e'.attempts = e₀.attempts + 1 ∧ e'.status = .reconcile := by
    intro e' he'
    rw [hevents] at he'
    rcases Table.mem_modify.mp he' with hold | ⟨e, -, hid, rfl⟩
    · exact .inl hold
    · refine .inr ⟨hid, ?_, (hflush e).2⟩
      rw [(hflush e).1, hnumber]
  have hon : ∀ e ∈ d.events, ∃ e' ∈ d'.events, e'.id = e.id ∧ (e.id ≠ event.id → e' = e) ∧
      (e.id = event.id → e'.attempts = e.attempts + 1 ∧ e'.status = .reconcile) := by
    intro e he
    have hmem : (if e.id = event.id then event.flush (Publisher.claimed event) e else e) ∈
        (d.update event (Publisher.claimed event)).events := Desk.mem_update_of_mem he
    rw [← hevents] at hmem
    refine ⟨_, hmem, ?_, ?_, ?_⟩
    · split <;> rfl
    · intro hne
      rw [if_neg hne]
    · intro hid
      rw [if_pos hid, (hflush e).1, (hflush e).2, h.sound.ids.eq_of_mem he he₀ (hid.trans hid₀.symm),
        hnumber]
      exact ⟨rfl, rfl⟩
  have hstored : ∀ e ∈ d.events, e.id = event.id → e = e₀ := fun e he hid =>
    h.sound.ids.eq_of_mem he he₀ (hid.trans hid₀.symm)
  have hwaits : e₀.status ≠ .reconcile := by
    rcases hwait with hwait | hwait <;> simp [hwait]
  have hnumbers : ∀ id, d'.numbers id = d.numbers id ++ if event.id = id then [event.attempts + 1]
      else [] := by
    intro id
    have hrow : d'.attempts = d.attempts ++ [self.sending (Publisher.claimed event)] := by
      rw [hd', ← hattempts]
    rw [Desk.numbers, hrow, List.filter_append, List.map_append, Desk.numbers]
    by_cases hid : event.id = id <;> simp [Publisher.sending, Publisher.claimed, hid]
  have hfenced := h.fenced _ (List.mem_of_getElem? hcall)
  have hids := List.nodup_cons.mp (h.sound.copies _ (List.mem_of_getElem? hcall))
  have hcalls : d'.calls = d.calls.set i (.claimed result (Publisher.claimed event) todo) := by rw [hd']; rfl
  refine h.relay hcall rfl rfl hsound hcalls rfl ?_ ?_ ?_ (hsent ▸ h.once) ⟨?_, ?_, ?_⟩ ?_ ?_
  · intro e' he'
    rw [hnumbers]
    rcases hback e' he' with ⟨hold, hne⟩ | ⟨hid, hmoved, -⟩
    · rw [if_neg (Ne.symm hne), List.append_nil]
      exact h.rows e' hold
    · rw [if_pos hid.symm, hid, ← hid₀, h.rows e₀ he₀, hmoved, List.range'_1_concat, hnumber,
        Nat.add_comm 1]
  · intro a ha
    rw [show d'.attempts = _ by rw [hd'], hattempts] at ha
    rcases List.mem_append.mp ha with ha | ha
    · obtain ⟨hkey, e, he, hid⟩ := h.known a ha
      obtain ⟨e', he', hid', -⟩ := hon e he
      exact ⟨hkey, e', he', hid'.trans hid⟩
    · rw [List.mem_singleton.mp ha]
      obtain ⟨e', he', hid', -⟩ := hon e₀ he₀
      exact ⟨rfl, e', he', hid'.trans hid₀⟩
  · intro p hp
    rw [hsent] at hp
    obtain ⟨e, he, hid, hle⟩ := h.sent p hp
    obtain ⟨e', he', hid', hsame, hmoved⟩ := hon e he
    refine ⟨e', he', hid'.trans hid, ?_⟩
    by_cases hevent : e.id = event.id
    · rw [(hmoved hevent).1]
      omega
    · rw [hsame hevent]
      exact hle
  · intro c hc
    obtain ⟨e, he, hid, hbehind⟩ := hfenced.waiting c (List.mem_cons_of_mem _ hc)
    obtain ⟨e', he', -, hsame, -⟩ := hon e he
    have hne : e.id ≠ event.id := fun heq => hids.1 ((hid.symm.trans heq) ▸ List.mem_map_of_mem hc)
    rw [hsame hne] at he'
    exact ⟨e, he', hid, hbehind⟩
  · intro c hc
    obtain rfl := Option.some.inj hc
    obtain ⟨e', he', hid', -, hmoved⟩ := hon e₀ he₀
    refine ⟨e', he', hid'.trans hid₀, ?_, (hmoved hid₀).2⟩
    rw [(hmoved hid₀).1, hnumber]
    rfl
  · intro c hc
    obtain rfl := Option.some.inj hc
    rw [hsent]
    intro hp
    obtain ⟨e, he, hid, hle⟩ := h.sent _ hp
    rw [hstored e he hid, hnumber] at hle
    exact Nat.not_succ_le_self _ hle
  · intro j c _ hj
    have hc := h.fenced c (List.mem_of_getElem? hj)
    refine ⟨fun c' hc' => ?_, fun c' hc' => ?_, fun c' hc' => hsent ▸ hc.unsent c' hc'⟩
    · obtain ⟨e, he, hid, hbehind⟩ := hc.waiting c' hc'
      obtain ⟨e', he', hid', hsame, hmoved⟩ := hon e he
      refine ⟨e', he', hid'.trans hid, ?_⟩
      by_cases hevent : e.id = event.id
      · have hle := hbehind.1
        rw [OutboxRow.Behind, (hmoved hevent).1]
        exact ⟨by omega, fun heq => by omega⟩
      · rw [hsame hevent]
        exact hbehind
    · obtain ⟨e, he, hid, hcurrent⟩ := hc.inFlight c' hc'
      obtain ⟨e', he', hid', hsame, -⟩ := hon e he
      have hne : e.id ≠ event.id := fun heq => hwaits (hstored e he heq ▸ hcurrent.2)
      rw [hsame hne] at he'
      exact ⟨e, he', hid, hcurrent⟩
  · intro c' j call c hc' hj hc hid
    obtain rfl := Option.some.inj hc'
    obtain ⟨e, he, hid', hcurrent⟩ := (h.fenced call (List.mem_of_getElem? hj)).inFlight c hc
    exact (hwaits (hstored e he (hid'.trans hid) ▸ hcurrent.2)).elim

/-- A POST: the number goes out for the first time. -/
theorem post {outcome : PostOutcome} {taken : Bool} (h : d.Numbered self)
    (hcall : d.calls[i]? = some (.claimed result event todo))
    (hnext : call' = .failed ∨ ∃ status, call' = .posted result event outcome status todo)
    (hd' : d' = { d.setCall i call' with exchanges := d.exchanges ++ [.post event outcome taken] })
    (hsound : d'.Sound) : d'.Numbered self := by
  have hfenced := h.fenced _ (List.mem_of_getElem? hcall)
  obtain ⟨e₀, he₀, hid₀, hcurrent⟩ := hfenced.inFlight event rfl
  have hevents : d'.events = d.events := by rw [hd']; rfl
  have hattempts : d'.attempts = d.attempts := by rw [hd']; rfl
  have hsent : d'.sent = d.sent ++ [(event.id, event.attempts)] := by
    rw [hd']
    exact Desk.sent_append _
  have hcalls : d'.calls = d.calls.set i call' := by rw [hd']; rfl
  have hflight : ∀ c', call'.inFlight = some c' → c' = event := by
    intro c' hc'
    rcases hnext with rfl | ⟨status, rfl⟩
    · cases hc'
    · exact (Option.some.inj hc').symm
  refine h.relay hcall rfl rfl hsound hcalls ?_ ?_ ?_ ?_ ?_ ⟨?_, ?_, ?_⟩ ?_ ?_
  · rcases hnext with rfl | ⟨status, rfl⟩ <;> rfl
  · intro e he
    rw [Desk.numbers, hattempts]
    exact h.rows e (hevents ▸ he)
  · rw [hattempts, hevents]
    exact h.known
  · intro p hp
    rw [hsent] at hp
    rw [hevents]
    rcases List.mem_append.mp hp with hp | hp
    · exact h.sent p hp
    · rw [List.mem_singleton.mp hp]
      exact ⟨e₀, he₀, hid₀, hcurrent.1.ge⟩
  · rw [hsent]
    exact List.nodup_append.mpr ⟨h.once, List.nodup_singleton _, fun p hp q hq heq =>
      hfenced.unsent event rfl (List.mem_singleton.mp hq ▸ heq ▸ hp)⟩
  · intro c hc
    rw [hevents]
    refine hfenced.waiting c ?_
    rcases hnext with rfl | ⟨status, rfl⟩
    · cases hc
    · exact hc
  · intro c hc
    rw [hflight c hc, hevents]
    exact ⟨e₀, he₀, hid₀, hcurrent⟩
  · intro c hc
    rcases hnext with rfl | ⟨status, rfl⟩ <;> cases hc
  · intro j c hji hj
    have hc := h.fenced c (List.mem_of_getElem? hj)
    refine ⟨hevents ▸ hc.waiting, hevents ▸ hc.inFlight, fun c' hc' hp => ?_⟩
    rw [hsent] at hp
    rcases List.mem_append.mp hp with hp | hp
    · exact hc.unsent c' hc' hp
    · have hid := (Prod.mk.inj (List.mem_singleton.mp hp)).1
      exact hji (h.flights j i c _ c' event hj hcall (Call.inFlight_of_unsent hc') rfl hid)
  · intro c' j call c hc' hj hc hid
    rw [hflight c' hc'] at hid
    exact h.flights j i call _ c event hj hcall hc rfl hid

/-- An outcome is recorded: the counter stays, and no other call has the event on its way. -/
theorem record {result' : RelayResult} {outcome : PostOutcome} {status : AttemptStatus}
    {attempts : List DeliveryAttempt} {receipts : List PublicationReceipt} (h : d.Numbered self)
    (hcall : d.calls[i]? = some (.posted result event outcome status todo))
    (hattempts : attempts = d.attempts.map fun a =>
      if self.isAttempt event a then Publisher.finished outcome status a else a)
    (hd' : d' = { (d.update event (Publisher.recorded event outcome status)).setCall i
      (.relaying result' todo) with attempts := attempts, receipts := receipts })
    (hsound : d'.Sound) : d'.Numbered self := by
  have hfenced := h.fenced _ (List.mem_of_getElem? hcall)
  obtain ⟨e₀, he₀, hid₀, hcurrent⟩ := hfenced.inFlight event rfl
  have hids := List.nodup_cons.mp (h.sound.copies _ (List.mem_of_getElem? hcall))
  have hevents : d'.events = (d.update event (Publisher.recorded event outcome status)).events := by
    rw [hd']
    rfl
  have hsent : d'.sent = d.sent := by rw [hd']; rfl
  have hcalls : d'.calls = d.calls.set i (.relaying result' todo) := by rw [hd']; rfl
  have hrows : d'.attempts = attempts := by rw [hd']
  have hback : ∀ e' ∈ d'.events, ∃ e ∈ d.events, e.id = e'.id ∧ e.attempts = e'.attempts := by
    intro e' he'
    rw [hevents] at he'
    rcases Table.mem_modify.mp he' with ⟨he, -⟩ | ⟨e, he, -, rfl⟩
    · exact ⟨e', he, rfl, rfl⟩
    · exact ⟨e, he, rfl, Publisher.flush_recorded.symm⟩
  have hon : ∀ e ∈ d.events, ∃ e' ∈ d'.events, e'.id = e.id ∧ e'.attempts = e.attempts ∧
      (e.id ≠ event.id → e' = e) := by
    intro e he
    have hmem : (if e.id = event.id then event.flush (Publisher.recorded event outcome status) e else e) ∈
        (d.update event (Publisher.recorded event outcome status)).events := Desk.mem_update_of_mem he
    rw [← hevents] at hmem
    refine ⟨_, hmem, ?_, ?_, fun hne => if_neg hne⟩
    · split <;> rfl
    · split
      · exact Publisher.flush_recorded
      · rfl
  have hkeep : ∀ a, (if self.isAttempt event a then Publisher.finished outcome status a else a).eventId =
      a.eventId ∧ (if self.isAttempt event a then Publisher.finished outcome status a else a).attempt =
        a.attempt ∧ (if self.isAttempt event a then Publisher.finished outcome status a else a).consumerKey =
          a.consumerKey := by
    intro a
    split <;> exact ⟨rfl, rfl, rfl⟩
  have hnumbers : ∀ id, d'.numbers id = d.numbers id := by
    intro id
    rw [Desk.numbers, hrows, hattempts, List.filter_map, List.map_map, Desk.numbers]
    simp only [Function.comp_def, hkeep]
  have hlanded : (Call.relaying result' todo).inFlight = none := rfl
  refine h.relay hcall rfl rfl hsound hcalls rfl ?_ ?_ ?_ (hsent ▸ h.once) ⟨?_, nofun, nofun⟩ ?_
    fun c' _ _ _ hc' _ _ _ => (Option.some_ne_none c' (hc'.symm.trans hlanded)).elim
  · intro e' he'
    obtain ⟨e, he, hid, hnumber⟩ := hback e' he'
    rw [hnumbers, ← hid, ← hnumber]
    exact h.rows e he
  · intro a' ha'
    rw [hrows, hattempts] at ha'
    obtain ⟨a, ha, rfl⟩ := List.mem_map.mp ha'
    obtain ⟨hkey, e, he, hid⟩ := h.known a ha
    obtain ⟨e', he', hid', -⟩ := hon e he
    rw [(hkeep a).1, (hkeep a).2.2]
    exact ⟨hkey, e', he', hid'.trans hid⟩
  · intro p hp
    rw [hsent] at hp
    obtain ⟨e, he, hid, hle⟩ := h.sent p hp
    obtain ⟨e', he', hid', hnumber, -⟩ := hon e he
    exact ⟨e', he', hid'.trans hid, hnumber ▸ hle⟩
  · intro c hc
    obtain ⟨e, he, hid, hbehind⟩ := hfenced.waiting c hc
    obtain ⟨e', he', -, -, hsame⟩ := hon e he
    have hne : e.id ≠ event.id := fun heq => hids.1 ((hid.symm.trans heq) ▸ List.mem_map_of_mem hc)
    rw [hsame hne] at he'
    exact ⟨e, he', hid, hbehind⟩
  · intro j c hji hj
    have hc := h.fenced c (List.mem_of_getElem? hj)
    refine ⟨fun c' hc' => ?_, fun c' hc' => ?_, fun c' hc' => hsent ▸ hc.unsent c' hc'⟩
    · obtain ⟨e, he, hid, hbehind⟩ := hc.waiting c' hc'
      obtain ⟨e', he', hid', hnumber, hsame⟩ := hon e he
      refine ⟨e', he', hid'.trans hid, ?_⟩
      by_cases hevent : e.id = event.id
      · -- The copy was loaded before this attempt, so that its number is used up.
        have hstored := h.sound.ids.eq_of_mem he he₀ (hevent.trans hid₀.symm)
        have hused : c'.attempts ≠ e.attempts := by
          intro heq
          have hwait := hbehind.2 heq
          rw [hstored, hcurrent.2] at hwait
          rcases hwait with hwait | hwait <;> cases hwait
        refine ⟨hnumber ▸ hbehind.1, fun heq => (hused (heq.trans hnumber)).elim⟩
      · rw [hsame hevent]
        exact hbehind
    · obtain ⟨e, he, hid, hc''⟩ := hc.inFlight c' hc'
      obtain ⟨e', he', -, -, hsame⟩ := hon e he
      have hne : e.id ≠ event.id := fun heq =>
        hji (h.flights j i c _ c' event hj hcall hc' rfl (hid.symm.trans heq))
      rw [hsame hne] at he'
      exact ⟨e, he', hid, hc''⟩

theorem steps (h : d.Numbered self) (hs : self.Steps d act d') (hapart : act.apart d) :
    d'.Numbered self := by
  have hsound := h.sound.steps hs
  cases hs with
  | commit hnew => exact h.commit hnew hsound
  | relay =>
    refine h.start hsound rfl rfl rfl rfl ⟨fun c hc => ?_, fun c hc => ?_, fun c hc => ?_⟩ rfl
      (.inl ⟨?_, rfl⟩)
    · obtain ⟨he, -, hstatus⟩ := Publisher.mem_load hc
      exact ⟨c, he, rfl, le_rfl, fun _ => by simpa using hstatus⟩
    · cases hc
    · cases hc
    · simpa [Act.apart] using hapart
  | reconcile =>
    refine h.start hsound rfl rfl rfl rfl (.of_reconciles rfl) rfl (.inr ⟨?_, fun e he => ?_⟩)
    · simpa [Act.apart] using hapart
    · exact (Publisher.mem_load he).1
  | close hover _ => exact h.close hover hsound
  | claim hcall hnew hattempts => exact h.claim hcall hnew hattempts rfl hsound
  | post hcall hnext =>
    exact h.post hcall (hnext.imp_right fun ⟨status, _, heq⟩ => ⟨status, heq⟩) rfl hsound
  | record hcall hattempts _ => exact h.record hcall hattempts rfl hsound
  | ask hcall _ _ =>
    refine h.reconcile hcall rfl hsound rfl (.inr rfl) (fun e he => ?_) rfl ?_ rfl
    · exact (h.alone _ _ hcall rfl).2 e (by simpa [Call.copies] using he)
    · exact (Desk.sent_append _).trans (List.append_nil _)
  | unasked hcall _ =>
    refine h.reconcile hcall rfl hsound rfl (.inr rfl) (fun e he => ?_) rfl rfl rfl
    exact (h.alone _ _ hcall rfl).2 e (by simpa [Call.copies] using he)
  | unread hcall =>
    refine h.reconcile hcall rfl hsound rfl (.inl rfl) (fun e he => by cases he) rfl ?_ rfl
    exact (Desk.sent_append _).trans (List.append_nil _)
  | @settle i result findings receipts hcall _ _ =>
    have hcalls : (findings.foldl (fun d f => d.update f.before
        (Publisher.reconciled f.before f.reading)) d).calls.set i (.reconciled result) =
          d.calls.set i (.reconciled result) := by
      rw [Desk.foldl_update_calls]
    refine h.reconcile hcall rfl hsound hcalls (.inl rfl) (fun e he => (by cases he))
      Desk.foldl_update_attempts ?_ ?_
    · exact congrArg (List.filterMap Exchange.attempt?) Desk.foldl_update_exchanges
    · exact Desk.foldl_update_attempts_column

theorem not_overruns (h : d.Numbered self) (act : Act) : act.overruns self d = false := by
  have hopen : ∀ {e : OutboxRow} {id : Id}, e ∈ d.events → e.id = id → e.status ≠ .delivered →
      d.delivered id = false := by
    intro e id he hid hstatus
    rw [← hid, h.sound.delivered_iff he]
    exact decide_eq_false hstatus
  unfold Act.overruns
  split
  · split
    · next hcall =>
      rw [Bool.and_eq_false_iff, Bool.not_eq_false']
      cases hnew : d.attempts.any (self.isAttempt (Publisher.claimed _)) with
      | true => exact .inr rfl
      | false =>
        obtain ⟨e, he, hid, -, hwait⟩ := h.claimable hcall hnew
        refine .inl (hopen he hid ?_)
        rcases hwait with hwait | hwait <;> simp [hwait]
    · rfl
  · split
    · next hcall =>
      obtain ⟨e, he, hid, hcurrent⟩ := (h.fenced _ (List.mem_of_getElem? hcall)).inFlight _ rfl
      exact hopen he hid (by simp [hcurrent.2])
    · rfl
  · split
    · next hcall =>
      obtain ⟨e, he, hid, hcurrent⟩ := (h.fenced _ (List.mem_of_getElem? hcall)).inFlight _ rfl
      rw [hopen he hid (by simp [hcurrent.2]), Bool.false_and]
    · rfl
  · split
    · next result findings hcall =>
      rw [Bool.and_eq_false_iff]
      right
      rw [List.any_eq_false]
      intro f hf
      have hmem := (h.alone _ _ hcall rfl).2 f.before
        (List.mem_append_left _ (List.mem_map_of_mem hf))
      have hmark := (h.sound.marked _ (List.mem_of_getElem? hcall)).1 f hf
      simp [hopen hmem rfl (by simp [hmark])]
    · rfl
  · rfl

theorem next (h : d.Numbered self) (hapart : act.apart d) : (self.desk.next d act).Numbered self := by
  rcases self.next_steps d act with heq | hs
  · exact heq.symm ▸ h
  · exact h.steps hs hapart

end Desk.Numbered

/-- However relays overlap, and wherever they are killed: each attempt goes out once, the attempts of
an event are numbered without gaps, and an event that is recorded as delivered stays so and does not
go out again. -/
theorem attempts_sentOnce (self : Publisher) {acts : List Act}
    (h : self.desk.Along (fun d act => act.apart d) Desk.empty acts) :
    (self.desk.run Desk.empty acts).sent.Nodup ∧
    (∀ e ∈ (self.desk.run Desk.empty acts).events,
      (self.desk.run Desk.empty acts).numbers e.id = List.range' 1 e.attempts) ∧
    ∀ first acts' rest, acts = first ++ acts' ++ rest →
      KeepsDelivered (self.desk.run Desk.empty first) (self.desk.run Desk.empty (first ++ acts')) := by
  have hnumbered := self.desk.run_invariant Desk.Numbered.empty h fun _ _ hd hact => hd.next hact
  refine ⟨hnumbered.once, hnumbered.rows, keepsDelivered_run self ?_⟩
  exact self.desk.along_of_invariant Desk.Numbered.empty h fun d act hd hact =>
    ⟨hd.not_overruns act, hd.next hact⟩

namespace Outbound

/-- Two relays load an event. The first one sends it and is refused, the second one comes too late,
and a third one sends it again. -/
def overtakenCopy : List Act := [.commit (approval "e1" "x" 1 1), .relay "w1", .relay "w1", .claim 0,
  .post 0 (.response 400) false, .record 0, .claim 1, .relay "w1", .claim 2,
  .post 2 (.response 200) true, .record 2]

end Outbound

open Outbound in
theorem attempts_sentOnce_overtakenCopy : (deskAfter overtakenCopy).sent.Nodup ∧
    (deskAfter overtakenCopy).sent = [("e1", 1), ("e1", 2)] := by
  have hacts : publisher.desk.Along (fun d act => act.apart d) Desk.empty overtakenCopy := by
    decide +kernel
  exact ⟨(attempts_sentOnce publisher hacts).1, by decide +kernel⟩

end Recordlane
