import Recordlane.Publication.Attempts
import Recordlane.Publication.Consumption
import Recordlane.Publication.Reconciliation

/-! Recovery: once nothing is lost any more, relays and reconciliations deliver what is left. -/
namespace Recordlane

variable {publisher : Publisher} {self : Connection} {c c' : Channel} {d d' : Desk} {act : Act}
  {e event row : OutboxRow} {i : Nat} {w : Id}

/-- Attempts are numbered from one to the counter of their event, which no copy is ahead of. -/
structure Desk.Counted (publisher : Publisher) (d : Desk) : Prop where
  numbers : ∀ e ∈ d.events, ∀ n, (∃ a ∈ d.attempts, a.eventId = e.id ∧ a.attempt = n) ↔
    1 ≤ n ∧ n ≤ e.attempts
  consumer : ∀ a ∈ d.attempts, a.consumerKey = publisher.settings.publicationConsumerKey
  known : ∀ a ∈ d.attempts, ∃ e ∈ d.events, e.id = a.eventId
  behind : ∀ call ∈ d.calls, ∀ x ∈ call.waiting, ∀ e ∈ d.events, e.id = x.id →
    x.attempts ≤ e.attempts

theorem Call.waiting_copies {call : Call} (h : e ∈ call.waiting) : e ∈ call.copies := by
  cases call with
  | claimed _ _ _ => exact List.mem_cons_of_mem _ h
  | posted _ _ _ _ _ => exact List.mem_cons_of_mem _ h
  | relaying _ _ => exact h
  | _ => cases h

namespace Desk.Counted

theorem fresh (h : d.Counted publisher) (he : e ∈ d.events) :
    d.attempts.any (publisher.isAttempt (Publisher.claimed e)) = false := by
  rw [List.any_eq_false]
  intro a ha hattempt
  simp only [Publisher.isAttempt, Publisher.claimed, Bool.and_eq_true, decide_eq_true_eq] at hattempt
  have hle := (h.numbers e he _).mp
    ⟨a, ha, of_decide_eq_true hattempt.1.1, of_decide_eq_true hattempt.2⟩
  omega

theorem empty : Desk.empty.Counted publisher := by
  constructor <;> simp [Desk.empty]

/-- What an attempt is counted by. -/
def number (a : DeliveryAttempt) : Id × String × Nat := (a.eventId, a.consumerKey, a.attempt)

def counter (e : OutboxRow) : Id × Nat := (e.id, e.attempts)

theorem of_same (h : d.Counted publisher) (hids : Table.Keyed OutboxRow.id d.events)
    (hattempts : d'.attempts.map number = d.attempts.map number)
    (hevents : d'.events.map counter = d.events.map counter)
    (hcalls : ∀ call ∈ d'.calls, ∀ x ∈ call.waiting,
      (∃ call₀ ∈ d.calls, x ∈ call₀.waiting) ∨ x ∈ d.events) : d'.Counted publisher := by
  have hattempt : ∀ a ∈ d'.attempts, ∃ a₀ ∈ d.attempts, number a₀ = number a := fun a ha =>
    List.mem_map.mp (hattempts ▸ List.mem_map_of_mem ha)
  have hattempt' : ∀ a ∈ d.attempts, ∃ a' ∈ d'.attempts, number a' = number a := fun a ha =>
    List.mem_map.mp (hattempts.symm ▸ List.mem_map_of_mem ha)
  have hevent : ∀ e ∈ d'.events, ∃ e₀ ∈ d.events, counter e₀ = counter e := fun e he =>
    List.mem_map.mp (hevents ▸ List.mem_map_of_mem he)
  have hevent' : ∀ e ∈ d.events, ∃ e' ∈ d'.events, counter e' = counter e := fun e he =>
    List.mem_map.mp (hevents.symm ▸ List.mem_map_of_mem he)
  simp only [number, counter, Prod.mk.injEq] at hattempt hattempt' hevent hevent'
  refine ⟨fun e he n => ?_, fun a ha => ?_, fun a ha => ?_, fun call hc x hx e he hid => ?_⟩
  · obtain ⟨e₀, he₀, hid, hn⟩ := hevent e he
    rw [← hn, ← h.numbers e₀ he₀ n, ← hid]
    constructor
    · rintro ⟨a, ha, haid, han⟩
      obtain ⟨a₀, ha₀, haid₀, -, han₀⟩ := hattempt a ha
      exact ⟨a₀, ha₀, haid₀.trans haid, han₀.trans han⟩
    · rintro ⟨a, ha, haid, han⟩
      obtain ⟨a', ha', haid', -, han'⟩ := hattempt' a ha
      exact ⟨a', ha', haid'.trans haid, han'.trans han⟩
  · obtain ⟨a₀, ha₀, -, hkey, -⟩ := hattempt a ha
    exact hkey ▸ h.consumer a₀ ha₀
  · obtain ⟨a₀, ha₀, haid, -, -⟩ := hattempt a ha
    obtain ⟨e, he, hid⟩ := h.known a₀ ha₀
    obtain ⟨e', he', hid', -⟩ := hevent' e he
    exact ⟨e', he', hid'.trans (hid.trans haid)⟩
  · obtain ⟨e₀, he₀, hid₀, hn⟩ := hevent e he
    rw [← hn]
    rcases hcalls call hc x hx with ⟨call₀, hc₀, hx⟩ | hx
    · exact h.behind call₀ hc₀ x hx e₀ he₀ (hid₀.trans hid)
    · rw [hids.eq_of_mem he₀ hx (hid₀.trans hid)]

theorem update_counters {before after : OutboxRow} (h : after.attempts = before.attempts) :
    (d.update before after).events.map counter = d.events.map counter := by
  refine Table.map_modify fun e => ?_
  simp [counter, OutboxRow.flush, h]

theorem settled_counters {findings : List Finding} :
    (findings.foldl (fun d f => d.update f.before (Publisher.reconciled f.before f.reading))
      d).events.map counter = d.events.map counter := by
  induction findings generalizing d with
  | nil => rfl
  | cons f findings ih =>
    rw [List.foldl_cons, ih, update_counters]
    cases f.reading <;> rfl

theorem steps (h : d.Counted publisher) (hsound : d.Sound) (hcopied : d.Copied)
    (hs : publisher.Steps d act d') : d'.Counted publisher := by
  have hids := hsound.ids
  have hset : ∀ {i : Nat} {call : Call}, (∀ x ∈ call.waiting, (∃ call₀ ∈ d.calls, x ∈ call₀.waiting)) →
      ∀ call' ∈ d.calls.set i call, ∀ x ∈ call'.waiting,
        (∃ call₀ ∈ d.calls, x ∈ call₀.waiting) ∨ x ∈ d.events := by
    intro i call hcall call' hc x hx
    rcases List.mem_or_eq_of_mem_set hc with hc | rfl
    · exact .inl ⟨call', hc, hx⟩
    · exact .inl (hcall x hx)
  have hadd : ∀ {call : Call}, (∀ x ∈ call.waiting, x ∈ d.events) →
      ∀ call' ∈ d.calls ++ [call], ∀ x ∈ call'.waiting,
        (∃ call₀ ∈ d.calls, x ∈ call₀.waiting) ∨ x ∈ d.events := by
    intro call hcall call' hc x hx
    rcases List.mem_append.mp hc with hc | hc
    · exact .inl ⟨call', hc, hx⟩
    · exact .inr (hcall x (List.mem_singleton.mp hc ▸ hx))
  cases hs with
  | @commit event hnew =>
    refine ⟨fun e he n => ?_, h.consumer, fun a ha => ?_, fun call hc x hx e he hid => ?_⟩
    · rcases List.mem_append.mp he with he | he
      · exact h.numbers e he n
      · obtain rfl := List.mem_singleton.mp he
        constructor
        · rintro ⟨a, ha, haid, -⟩
          obtain ⟨e, he, hid⟩ := h.known a ha
          exact (hnew e he (hid.trans haid)).elim
        · rintro ⟨hpos, hle⟩
          have hzero : n ≤ 0 := hle
          omega
    · obtain ⟨e, he, hid⟩ := h.known a ha
      exact ⟨e, List.mem_append_left _ he, hid⟩
    · rcases List.mem_append.mp he with he | he
      · exact h.behind call hc x hx e he hid
      · obtain rfl := List.mem_singleton.mp he
        obtain ⟨e₀, he₀, hf⟩ := Desk.Copied.rowOf_iff.mp (hcopied.copies call hc x (call.waiting_copies hx))
        exact (hnew e₀ he₀ ((hf ▸ rfl : e₀.id = x.id).trans hid.symm)).elim
  | relay => exact h.of_same hids rfl rfl (hadd fun x hx => (Publisher.mem_load hx).1)
  | reconcile => exact h.of_same hids rfl rfl (hadd (by simp [Call.waiting]))
  | close hover _ => exact h.of_same hids rfl rfl (hset (by simp [Call.waiting_of_over hover]))
  | post hcall hnext =>
    refine h.of_same hids rfl rfl (hset ?_)
    rcases hnext with rfl | ⟨status, -, rfl⟩
    · simp [Call.waiting]
    · exact fun x hx => ⟨_, List.mem_of_getElem? hcall, hx⟩
  | ask hcall _ _ => exact h.of_same hids rfl rfl (hset (by simp [Call.waiting]))
  | unasked hcall _ => exact h.of_same hids rfl rfl (hset (by simp [Call.waiting]))
  | unread hcall => exact h.of_same hids rfl rfl (hset (by simp [Call.waiting]))
  | settle hcall _ _ =>
    refine h.of_same hids (congrArg _ Desk.foldl_update_attempts) settled_counters ?_
    rw [Desk.setCall, Desk.foldl_update_calls]
    exact hset (by simp [Call.waiting])
  | @record i result result' event outcome status todo attempts receipts hcall hattempts _ =>
    refine h.of_same hids ?_ (update_counters rfl) (hset fun x hx => ⟨_, List.mem_of_getElem? hcall, hx⟩)
    rw [hattempts, List.map_map]
    refine List.map_congr_left fun a _ => ?_
    simp only [Function.comp_apply]
    split <;> rfl
  | @claim i result event todo attempts hcall hnew hattempts =>
    have hmem := List.mem_of_getElem? hcall
    have hwaiting : event ∈ (Call.relaying result (event :: todo)).waiting := List.mem_cons_self
    have hcurrent : ∀ row ∈ d.events, row.id = event.id → row.attempts = event.attempts := by
      intro row hrow hid
      have hle := h.behind _ hmem event hwaiting row hrow hid
      by_contra hne
      obtain ⟨a, ha, haid, han⟩ := (h.numbers row hrow (event.attempts + 1)).mpr ⟨by omega, by omega⟩
      have hfree := List.any_eq_false.mp hnew a ha
      simp [Publisher.isAttempt, Publisher.claimed, haid, hid, han, h.consumer a ha] at hfree
    have hattempt : ∀ a, a ∈ attempts ↔
        a ∈ d.attempts ∨ a = publisher.sending (Publisher.claimed event) := by
      simp [hattempts]
    refine ⟨fun e he n => ?_, fun a ha => ?_, fun a ha => ?_, fun call hc x hx e he hid => ?_⟩
    · rcases Table.mem_modify.mp he with ⟨he, hne⟩ | ⟨row, hrow, hid, rfl⟩
      · rw [← h.numbers e he n]
        constructor
        · rintro ⟨a, ha, haid, han⟩
          rcases (hattempt a).mp ha with ha | rfl
          · exact ⟨a, ha, haid, han⟩
          · exact (hne haid.symm).elim
        · rintro ⟨a, ha, haid, han⟩
          exact ⟨a, (hattempt a).mpr (.inl ha), haid, han⟩
      · have hn : (event.flush (Publisher.claimed event) row).attempts = event.attempts + 1 := by
          simp [OutboxRow.flush, Publisher.claimed]
        have hold := h.numbers row hrow n
        rw [hcurrent row hrow hid] at hold
        rw [hn]
        constructor
        · rintro ⟨a, ha, haid, han⟩
          rcases (hattempt a).mp ha with ha | rfl
          · have := hold.mp ⟨a, ha, haid, han⟩
            omega
          · have hnumber : event.attempts + 1 = n := han
            omega
        · rintro ⟨hpos, hle⟩
          by_cases hlast : n = event.attempts + 1
          · exact ⟨_, (hattempt _).mpr (.inr rfl), hid.symm, hlast.symm⟩
          · obtain ⟨a, ha, haid, han⟩ := hold.mpr ⟨hpos, by omega⟩
            exact ⟨a, (hattempt a).mpr (.inl ha), haid, han⟩
    · rcases (hattempt a).mp ha with ha | rfl
      · exact h.consumer a ha
      · rfl
    · have hknown : ∃ e ∈ d.events, e.id = a.eventId := by
        rcases (hattempt a).mp ha with ha | rfl
        · exact h.known a ha
        · obtain ⟨e, he, hf⟩ := Desk.Copied.rowOf_iff.mp
            (hcopied.copies _ hmem event (Call.waiting_copies hwaiting))
          exact ⟨e, he, (hf ▸ rfl : e.id = event.id)⟩
      obtain ⟨e, he, hid⟩ := hknown
      have hids' := Desk.update_ids (d := d) event (Publisher.claimed event)
      obtain ⟨e', he', hid'⟩ := List.mem_map.mp (hids' ▸ List.mem_map_of_mem he)
      exact ⟨e', he', hid'.trans hid⟩
    · have hx : ∃ call₀ ∈ d.calls, x ∈ call₀.waiting := by
        rcases List.mem_or_eq_of_mem_set hc with hc | rfl
        · exact ⟨call, hc, hx⟩
        · exact ⟨_, hmem, List.mem_cons_of_mem _ hx⟩
      obtain ⟨call₀, hc₀, hx⟩ := hx
      rcases Table.mem_modify.mp he with ⟨he, -⟩ | ⟨row, hrow, hrid, rfl⟩
      · exact h.behind call₀ hc₀ x hx e he hid
      · have hle := h.behind call₀ hc₀ x hx row hrow hid
        rw [hcurrent row hrow hrid] at hle
        have hn : (event.flush (Publisher.claimed event) row).attempts = event.attempts + 1 := by
          simp [OutboxRow.flush, Publisher.claimed]
        omega

end Desk.Counted

/-- The consumer lets in what is sent at a time, for both ends have one secret. -/
structure Connection.Admits (link : Connection) (now : Int) : Prop where
  shared : link.webhookSecret = some link.consumer.secret
  secret : link.consumer.secret ≠ ""
  signature : ∀ text, link.consumer.hmac link.consumer.secret text ≠ ""
  timestamp : link.consumer.parseFloat (toString now) = some (.finite now)

/-- The consumer can keep an event, and the receipt it gives then is for the row. -/
structure Connection.Receivable (link : Connection) (e : OutboxRow) : Prop where
  readable : link.Readable e.payload e.id
  reconcilable : e.Reconcilable
  fits : ∀ n ∈ e.entityVersion, (n : Int) < 2 ^ 63

namespace Connection

variable {now : Int}

theorem Receivable.follows (h : self.Receivable e) (hf : e.Follows event) : self.Receivable event := by
  have hrec := h.reconcilable
  rw [OutboxRow.Follows] at hf
  rw [hf]
  exact ⟨h.readable, ⟨hrec.eventId, hrec.entityId, hrec.entityVersion, hrec.verified⟩, h.fits⟩

theorem get_sorted {payload : Dict} {k : String} :
    payload.sorted.get k = (payload.get k).sortKeys := by
  rw [Dict.get, Dict.get?_sorted, Dict.get]
  cases payload.get? k with
  | none => simp [Json.sortKeys]
  | some v => rfl

theorem Receivable.row_eq_some (h : self.Receivable e) (body receivedAt : String) :
    ∃ r, self.consumer.row e.payload.sorted body receivedAt = some r ∧
      r.entityVersion = (e.entityVersion.map fun n => .int n).getD .null := by
  have hid : e.payload.sorted.get? "event_id" = some (.str e.id) := by
    have hget := h.readable.eventId
    rw [Dict.get] at hget
    rw [Dict.get?_sorted]
    cases hfound : e.payload.get? "event_id" with
    | none => simp [hfound] at hget
    | some v =>
      rw [hfound, Option.getD_some] at hget
      simp [hget, Json.sortKeys]
  have hentity : ∃ v, self.consumer.text (e.payload.sorted.get "entity_id") = some v := by
    rw [get_sorted, h.reconcilable.entityId]
    cases e.entityId <;> simp [Json.sortKeys, Consumer.text]
  have hversion : self.consumer.integer (e.payload.sorted.get "entity_version") =
      some ((e.entityVersion.map fun n => .int n).getD .null) := by
    rw [get_sorted, h.reconcilable.entityVersion]
    cases hn : e.entityVersion with
    | none => simp [Json.sortKeys, Consumer.integer]
    | some n =>
      have hfits := h.fits n hn
      simp only [Option.map_some, Option.getD_some, Json.sortKeys, Consumer.integer]
      rw [if_pos]
      simp only [Consumer.fits, Bool.and_eq_true, decide_eq_true_eq]
      omega
  obtain ⟨v, hv⟩ := hentity
  have htext : self.consumer.text (.str e.id) = some (.str e.id) := rfl
  refine ⟨⟨.str e.id, v, _, body, receivedAt⟩, ?_, rfl⟩
  simp only [Consumer.row, hid, htext, hv, hversion, Option.bind_eq_bind, Option.bind_some, Option.pure_def]
  rfl

theorem toString_ne_empty (n : Int) : toString n ≠ "" := by
  intro h
  cases n with
  | ofNat m => exact absurd h Nat.repr_ne_empty
  | negSucc m =>
    have hlist := congrArg String.toList h
    simp [Int.repr] at hlist

theorem Admits.kept (hadmits : self.Admits now) (h : self.Receivable e) :
    ((self.consumer.receiveEvent stored (self.request e none now now)).2).isKept := by
  have hlet : self.consumer.refusal (self.request e none now now) = none := by
    have htime : (request self e none now now).timestamp.filter (· ≠ "") = some (toString now) := by
      simp only [request, Option.filter_some, decide_eq_true_eq]
      exact if_pos (toString_ne_empty now)
    have hsignature : (request self e none now now).signature.filter (· ≠ "") =
        some (self.consumer.hmac self.consumer.secret (toString now ++ "." ++ self.dumps e.payload)) := by
      simp only [request, hadmits.shared, Option.getD_some, Option.filter_some, decide_eq_true_eq]
      exact if_pos (hadmits.signature _)
    rw [Consumer.refusal, hsignature, htime]
    have hnear : ¬ Extended.finite 300 < (Extended.finite (now : ℚ) - .finite (now : ℚ)).abs := by
      have hsame : Extended.finite (now : ℚ) - .finite (now : ℚ) = .finite 0 :=
        congrArg Extended.finite (add_neg_cancel _)
      rw [hsame]
      decide
    simp only [hadmits.timestamp, request]
    exact (if_neg hnear).trans (if_neg (by simp [hadmits.secret]))
  obtain ⟨r, hrow, -⟩ := h.row_eq_some (self.dumps e.payload) (self.consumer.isoformat now)
  have hloads : self.consumer.loads (self.request e none now now).body = some (.obj e.payload.sorted) :=
    h.readable.loads
  rw [Consumer.receiveEvent, hloads]
  simp only [hlet]
  rw [show self.consumer.row e.payload.sorted (self.request e none now now).body
    (self.consumer.isoformat (self.request e none now now).time) = some r from hrow]
  rfl

/-- The receipt of the consumer tells for certain whether it has a stored event. -/
theorem Receivable.reading (h : self.Receivable e) (hc : self.Consistent c) (he : e ∈ c.desk.events) :
    ∃ found, Publisher.reading e (.response (Consumer.eventReceipt c.stored e.id).1
        (.ok (Consumer.eventReceipt c.stored e.id).2)) = some found ∧
      (found = .verified ∨ found = .absent) := by
  unfold Consumer.eventReceipt
  split
  · exact ⟨.absent, by simp [Publisher.reading], .inr rfl⟩
  · next r hfind =>
    refine ⟨.verified, ?_, .inl rfl⟩
    have hrid : r.eventId = .str e.id := by simpa using List.find?_some hfind
    obtain ⟨row, outcome, taken, hsent, hid, hstored⟩ := hc.sent r (List.mem_of_find?_eq_some hfind)
    obtain ⟨e₀, he₀, hf⟩ := Desk.Copied.rowOf_iff.mp (hc.copied.sent row outcome taken hsent)
    have heq : e₀ = e := by
      refine hc.sound.ids.eq_of_mem he₀ he ?_
      have hrow := Json.str.inj (hid.symm.trans hrid)
      exact (hf ▸ rfl : e₀.id = row.id).trans hrow
    subst heq
    have hpayload : row.payload = e₀.payload := hf ▸ rfl
    rw [hpayload] at hstored
    obtain ⟨r', hr', hversion⟩ := h.row_eq_some (self.dumps e₀.payload) r.receivedAt
    obtain rfl := Option.some.inj (hstored.symm.trans hr')
    have hsame : r.entityVersion.pyEq ((e₀.entityVersion.map fun n => .int n).getD .null) := by
      rw [hversion]
      cases e₀.entityVersion <;> simp [Json.pyEq, Json.number?]
    simp [Publisher.reading, Dict.get, Dict.get?, Json.pyEq, hsame]

/-- The desk and the consumer agree, attempts are counted, and the consumer can keep every event. -/
structure Ready (link : Connection) (c : Channel) : Prop where
  consistent : link.Consistent c
  counted : c.desk.Counted link.publisher
  receivable : ∀ e ∈ c.desk.events, link.Receivable e

/-- Events that are committed can be kept, and nobody forges requests. -/
def Fair (self : Connection) (c : Channel) (a : ChannelAct) : Prop :=
  self.Unforged c a ∧ ∀ event, a = .desk (.commit event) → self.Receivable event.row

theorem next_desk (self : Connection) (c : Channel) (a : ChannelAct) :
    (self.system.next c a).desk = c.desk ∨
      ∃ act, self.publisher.Steps c.desk act (self.system.next c a).desk ∧
        ∀ event, act = .commit event → a = .desk (.commit event) := by
  have hdesk : ∀ act, (self.system.next c a).desk = self.publisher.desk.next c.desk act →
      (∀ event, act = .commit event → a = .desk (.commit event)) →
      (self.system.next c a).desk = c.desk ∨
        ∃ act, self.publisher.Steps c.desk act (self.system.next c a).desk ∧
          ∀ event, act = .commit event → a = .desk (.commit event) := by
    intro act heq hcommit
    rw [heq]
    exact (self.publisher.next_steps c.desk act).imp_right fun hs => ⟨act, hs, hcommit⟩
  cases a with
  | desk act =>
    cases act with
    | post _ _ _ => exact .inl rfl
    | ask _ _ => exact .inl rfl
    | _ => exact hdesk _ rfl fun event heq => congrArg _ heq
  | post i simulate sentAt time transit =>
    cases hcall : c.desk.calls[i]? with
    | none => exact .inl (by simp only [System.next, system, step, hcall])
    | some call =>
      cases call with
      | claimed result event todo =>
        have hnext : self.system.next c (.post i simulate sentAt time transit) =
            self.post c i event simulate sentAt time transit := by
          simp only [System.next, system, step, hcall]
        exact hdesk _ (congrArg Channel.desk hnext) (by simp)
      | _ => exact .inl (by simp only [System.next, system, step, hcall])
  | ask i transit =>
    cases hcall : c.desk.calls[i]? with
    | none => exact .inl (by simp only [System.next, system, step, hcall])
    | some call =>
      cases call with
      | reconciling result findings todo =>
        cases todo with
        | nil => exact .inl (by simp only [System.next, system, step, hcall])
        | cons event todo =>
          have hnext : self.system.next c (.ask i transit) = self.ask c i event transit := by
            simp only [System.next, system, step, hcall]
          exact hdesk _ (congrArg Channel.desk hnext) (by simp)
      | _ => exact .inl (by simp only [System.next, system, step, hcall])
  | foreign request => exact .inl rfl

theorem run_kept (self : Connection) (acts : List ChannelAct) (he : e ∈ c.desk.events) :
    ∃ e' ∈ (self.system.run c acts).desk.events, e.Follows e' := by
  induction acts generalizing c e with
  | nil => exact ⟨e, he, rfl⟩
  | cons a acts ih =>
    have hnext : ∃ e' ∈ (self.system.next c a).desk.events, e.Follows e' := by
      rcases self.next_desk c a with hsame | ⟨act, hs, -⟩
      · exact ⟨e, hsame ▸ he, rfl⟩
      · exact Desk.Copied.kept hs he
    obtain ⟨e₁, he₁, hf₁⟩ := hnext
    obtain ⟨e₂, he₂, hf₂⟩ := ih he₁
    exact ⟨e₂, he₂, hf₁.trans hf₂⟩

namespace Ready

theorem empty : self.Ready Channel.empty :=
  ⟨.empty, .empty, by simp [Channel.empty, Desk.empty]⟩

theorem next (h : self.Ready c) {a : ChannelAct} (ha : self.Fair c a) :
    self.Ready (self.system.next c a) := by
  have hconsistent : self.Consistent (self.system.next c a) := by
    refine h.consistent.next ?_
    cases a with
    | desk act =>
      cases act with
      | commit event => exact (ha.2 event rfl).readable
      | _ => trivial
    | foreign request => exact ha.1
    | _ => trivial
  rcases self.next_desk c a with hsame | ⟨act, hs, hcommit⟩
  · exact ⟨hconsistent, hsame ▸ h.counted, hsame ▸ h.receivable⟩
  · refine ⟨hconsistent, h.counted.steps h.consistent.sound h.consistent.copied hs, fun e he => ?_⟩
    rcases hs.origin he with ⟨e₀, he₀, hf⟩ | ⟨event, hact, rfl⟩
    · exact (h.receivable e₀ he₀).follows hf
    · exact ha.2 event (hcommit event hact)

/-- Acts that commit nothing, and that nobody else takes, leave the two ready. -/
theorem run (h : self.Ready c) {acts : List ChannelAct}
    (hcommit : ∀ event, .desk (.commit event) ∉ acts) (hforeign : ∀ request, .foreign request ∉ acts) :
    self.Ready (self.system.run c acts) := by
  refine self.system.run_invariant h (Φ := self.Fair) (self.system.along_of_mem fun a ha c => ⟨?_, ?_⟩)
    fun c a hc ha => hc.next ha
  · cases a with
    | foreign request => exact (hforeign request ha).elim
    | _ => trivial
  · rintro event rfl
    exact (hcommit event ha).elim

end Ready

/-- A request arrives, and its answer comes back. -/
def direct {α : Type} {succeeds : α → Bool} : Transit α succeeds := ⟨true, none, rfl, by simp⟩

/-- A call sends an event. -/
def delivery (i : Nat) (now : Int) : List ChannelAct :=
  [.desk (.claim i), .post i none now now direct, .desk (.record i)]

/-- A relay that nothing overlaps with. -/
def relays (self : Connection) (c : Channel) (workspaceId : Id) (now : Int) : List ChannelAct :=
  .desk (.relay workspaceId) ::
    ((self.publisher.load c.desk workspaceId [.pending, .retry]).map fun _ =>
      delivery c.desk.calls.length now).flatten

/-- A reconciliation that nothing overlaps with. -/
def reconciles (self : Connection) (c : Channel) (workspaceId : Id) : List ChannelAct :=
  .desk (.reconcile workspaceId) ::
    ((self.publisher.load c.desk workspaceId [.reconcile]).map fun _ =>
      .ask c.desk.calls.length direct) ++ [.desk (.settle c.desk.calls.length)]

/-- A reconciliation, then a relay. -/
def round (self : Connection) (c : Channel) (workspaceId : Id) (now : Int) : List ChannelAct :=
  self.reconciles c workspaceId ++
    self.relays (self.system.run c (self.reconciles c workspaceId)) workspaceId now

/-- One round after the other. -/
def rounds (self : Connection) (workspaceId : Id) (now : Int) : Nat → Channel → List ChannelAct
  | 0, _ => []
  | n + 1, c => self.round c workspaceId now ++
      self.rounds workspaceId now n (self.system.run c (self.round c workspaceId now))

/-- What a call has made of its batch. -/
structure Worked (fate : EventStatus → Prop) (batch : List OutboxRow) (d d' : Desk) : Prop where
  events : ∀ e ∈ d'.events, (∃ e₀ ∈ batch, e₀.Follows e ∧ fate e.status) ∨ (e ∈ d.events ∧ e ∉ batch)

section Passes

variable {result : RelayResult} {result' : ReconcileResult} {todo : List OutboxRow}

theorem set_self {call call' : Call} (h : d.calls[i]? = some call) : (d.calls.set i call')[i]? =
    some call' := by
  rw [List.getElem?_set_self', h]
  rfl

theorem next_claim (hcounted : c.desk.Counted self.publisher)
    (hcall : c.desk.calls[i]? = some (.relaying result (event :: todo))) (hevent : event ∈ c.desk.events) :
    let c' := self.system.next c (.desk (.claim i))
    c'.desk.calls[i]? = some (.claimed result (Publisher.claimed event) todo) ∧
      c'.desk.events = (c.desk.update event (Publisher.claimed event)).events := by
  have hnext : (self.system.next c (.desk (.claim i))).desk =
      self.publisher.claim c.desk i result event todo := by
    simp only [System.next, system, step, Publisher.desk, Publisher.step, hcall, Option.getD_some]
  have hfree := hcounted.fresh hevent
  refine ⟨?_, ?_⟩ <;> rw [hnext, Publisher.claim, if_neg (by simp [hfree])]
  · exact set_self hcall
  · rfl

theorem next_post (hadmits : self.Admits now)
    (hcall : c.desk.calls[i]? = some (.claimed result event todo)) (hreceivable : self.Receivable event) :
    let c' := self.system.next c (.post i none now now direct)
    c'.desk.calls[i]? = some (.posted result event (.response 200) .accepted todo) ∧
      c'.desk.events = c.desk.events := by
  have hcode : ((self.consumer.receiveEvent c.stored (self.request event none now now)).2.statusCode
      none) = 200 := by
    have hkept : ((self.consumer.receiveEvent c.stored (self.request event none now now)).2).isKept :=
      hadmits.kept hreceivable
    cases hreception : (self.consumer.receiveEvent c.stored (self.request event none now now)).2 with
    | kept _ _ => rfl
    | _ =>
      rw [hreception] at hkept
      cases hkept
  have hnext : ∃ taken, (self.system.next c (.post i none now now direct)).desk =
      Publisher.post c.desk i result event todo (.response 200) taken := by
    refine ⟨(self.consumer.receiveEvent c.stored (self.request event none now now)).2.isKept, ?_⟩
    simp only [System.next, system, step, hcall, Connection.post, direct, Option.getD_none, hcode,
      Publisher.desk, Publisher.step, Option.getD_some, Bool.true_and]
  obtain ⟨taken, hnext⟩ := hnext
  exact ⟨by rw [hnext]; exact set_self hcall, by rw [hnext]; rfl⟩

theorem next_record {outcome : PostOutcome} {status : AttemptStatus}
    (hcall : c.desk.calls[i]? = some (.posted result event outcome status todo)) :
    let c' := self.system.next c (.desk (.record i))
    c'.desk.calls[i]? = some (.relaying (result.count status) todo) ∧
      c'.desk.events = (c.desk.update event (Publisher.recorded event outcome status)).events := by
  have hnext : (self.system.next c (.desk (.record i))).desk =
      self.publisher.record c.desk i result event outcome status todo := by
    simp only [System.next, system, step, Publisher.desk, Publisher.step, hcall, Option.getD_some]
  exact ⟨by rw [hnext]; exact set_self hcall, by rw [hnext]; rfl⟩

theorem run_delivery (hadmits : self.Admits now) (h : self.Ready c)
    (hcall : c.desk.calls[i]? = some (.relaying result (event :: todo))) (hevent : event ∈ c.desk.events) :
    let c' := self.system.run c (delivery i now)
    (∃ result', c'.desk.calls[i]? = some (.relaying result' todo)) ∧
      ∃ e', event.Follows e' ∧ e'.status = .delivered ∧
        ∀ e, e ∈ c'.desk.events ↔ e = e' ∨ (e ∈ c.desk.events ∧ e.id ≠ event.id) := by
  obtain ⟨hclaimed, hevents₁⟩ := next_claim h.counted hcall hevent
  obtain ⟨hposted, hevents₂⟩ := next_post hadmits hclaimed ((h.receivable event hevent).follows rfl)
  obtain ⟨hrecorded, hevents₃⟩ := next_record hposted
  have hids := h.consistent.sound.ids
  have hids' : Table.Keyed OutboxRow.id (c.desk.update event (Publisher.claimed event)).events := by
    rw [Table.Keyed, Desk.update_ids]
    exact hids
  have hmem := fun e => Desk.mem_written (e := e) hids hevent Publisher.follows_claimed
  refine ⟨⟨_, hrecorded⟩, Publisher.recorded (Publisher.claimed event) (.response 200) .accepted, rfl, rfl,
    fun e => ?_⟩
  rw [delivery, System.run_cons, System.run_cons, System.run_cons, System.run_nil, hevents₃, Desk.update,
    hevents₂, hevents₁]
  refine (Desk.mem_written hids' ((hmem _).mpr (.inl rfl)) Publisher.follows_recorded).trans ?_
  refine or_congr_right ⟨fun h => ?_, fun h => ⟨(hmem e).mpr (.inr h), h.2⟩⟩
  rcases (hmem e).mp h.1 with rfl | he
  · exact (h.2 rfl).elim
  · exact he

theorem run_deliveries (hadmits : self.Admits now) (h : self.Ready c)
    (hcall : c.desk.calls[i]? = some (.relaying result todo)) (htodo : ∀ e ∈ todo, e ∈ c.desk.events)
    (hids : Table.Keyed OutboxRow.id todo) :
    Worked (· = .delivered) todo c.desk
      (self.system.run c (todo.map fun _ => delivery i now).flatten).desk := by
  induction todo generalizing c result with
  | nil => exact ⟨fun e he => .inr ⟨he, List.not_mem_nil⟩⟩
  | cons event todo ih =>
    obtain ⟨⟨result', hcall'⟩, e', hf, hdelivered, hmem⟩ :=
      run_delivery hadmits h hcall (htodo event List.mem_cons_self)
    have hready : self.Ready (self.system.run c (delivery i now)) := by
      refine h.run ?_ ?_ <;> simp [delivery]
    obtain ⟨hnew, hrest⟩ := List.nodup_cons.mp hids
    have hother : ∀ e ∈ todo, e.id ≠ event.id := fun e he hid =>
      hnew (hid ▸ List.mem_map_of_mem he)
    have hworked := ih hready hcall'
      (fun e he => (hmem e).mpr (.inr ⟨htodo e (List.mem_cons_of_mem _ he), hother e he⟩)) hrest
    rw [List.map_cons, List.flatten_cons, System.run_append]
    refine ⟨fun e he => ?_⟩
    rcases hworked.events e he with ⟨e₀, he₀, hf₀, hfate⟩ | ⟨he, hout⟩
    · exact .inl ⟨e₀, List.mem_cons_of_mem _ he₀, hf₀, hfate⟩
    · rcases (hmem e).mp he with rfl | ⟨he, hne⟩
      · exact .inl ⟨event, List.mem_cons_self, hf, hdelivered⟩
      · refine .inr ⟨he, fun hin => ?_⟩
        rcases List.mem_cons.mp hin with rfl | hin
        · exact hne rfl
        · exact hout hin

/-- A relay that nothing overlaps with delivers all it loads. -/
theorem run_relays (hadmits : self.Admits now) (h : self.Ready c) (workspaceId : Id) :
    Worked (· = .delivered) (self.publisher.load c.desk workspaceId [.pending, .retry]) c.desk
      (self.system.run c (self.relays c workspaceId now)).desk := by
  have hready : self.Ready (self.system.run c [.desk (.relay workspaceId)]) := h.run (by simp) (by simp)
  rw [System.run_cons, System.run_nil] at hready
  have hcall : (self.system.next c (.desk (.relay workspaceId))).desk.calls[c.desk.calls.length]? = some
      (.relaying ⟨(self.publisher.load c.desk workspaceId [.pending, .retry]).length, 0, 0, 0⟩
        (self.publisher.load c.desk workspaceId [.pending, .retry])) := List.getElem?_concat_length
  exact ⟨(run_deliveries hadmits hready hcall (fun e he => (Publisher.mem_load he).1)
    (Publisher.load_keyed h.consistent.sound.ids)).events⟩

variable {findings : List Finding} {answer : Id → ReceiptAnswer} {done : List OutboxRow}

/-- What the consumer answers. -/
def answers (c : Channel) (id : Id) : ReceiptAnswer :=
  .response (Consumer.eventReceipt c.stored id).1 (.ok (Consumer.eventReceipt c.stored id).2)

theorem run_asks (hanswer : ∀ id, answer id = answers c id)
    (hcall : c.desk.calls[i]? = some (.reconciling result' findings todo))
    (hfound : d.Found self.publisher answer c.desk done findings)
    (h : ∀ e ∈ todo, (self.publisher.outcome e (answer e.id)).isSome) :
    self.system.run c (todo.map fun _ => .ask i direct) =
      ⟨self.publisher.desk.run c.desk (todo.map fun e => .ask i (answer e.id)), c.stored⟩ := by
  induction todo generalizing c result' findings done with
  | nil => rfl
  | cons event todo ih =>
    have hnext : self.system.next c (.ask i direct) =
        ⟨self.publisher.desk.next c.desk (.ask i (answer event.id)), c.stored⟩ := by
      simp only [System.next, system, step, hcall, Connection.ask, direct, Option.getD_none, hanswer, answers]
    have hasked := Publisher.next_ask hcall hfound
    obtain ⟨found, houtcome⟩ := Option.isSome_iff_exists.mp (h event List.mem_cons_self)
    rw [houtcome] at hasked
    obtain ⟨result'', findings', hcall', hfound'⟩ := hasked
    rw [List.map_cons, List.map_cons, System.run_cons, System.run_cons, hnext]
    exact ih (c := ⟨_, c.stored⟩) hanswer hcall' hfound' fun e he => h e (List.mem_cons_of_mem _ he)

/-- A reconciliation that nothing overlaps with finds out about all it loads. -/
theorem run_reconciles (h : self.Ready c) (hurl : ∀ id, (self.publisher.receiptUrl id).isOk)
    (workspaceId : Id) :
    Worked (fun status => status = .delivered ∨ status = .retry)
      (self.publisher.load c.desk workspaceId [.reconcile]) c.desk
      (self.system.run c (self.reconciles c workspaceId)).desk := by
  have houtcome : ∀ e ∈ self.publisher.load c.desk workspaceId [.reconcile],
      ∃ found, self.publisher.outcome e (answers c e.id) = some found ∧
        (found = .verified ∨ found = .absent) := by
    intro e he
    have hmem := (Publisher.mem_load he).1
    have hok := hurl e.id
    rw [Publisher.outcome]
    cases hreceipt : self.publisher.receiptUrl e.id with
    | error error =>
      rw [hreceipt] at hok
      cases hok
    | ok url => exact (h.receivable e hmem).reading h.consistent hmem
  have hcall : (self.system.next c (.desk (.reconcile workspaceId))).desk.calls[c.desk.calls.length]? =
      some (.reconciling ⟨(self.publisher.load c.desk workspaceId [.reconcile]).length, 0, 0, 0⟩ []
        (self.publisher.load c.desk workspaceId [.reconcile])) := List.getElem?_concat_length
  have hempty : c.desk.Found self.publisher (answers c)
      (self.system.next c (.desk (.reconcile workspaceId))).desk [] [] :=
    ⟨rfl, rfl, rfl, List.forall_mem_nil _, List.forall_mem_nil _⟩
  have hsome : ∀ e ∈ self.publisher.load c.desk workspaceId [.reconcile],
      (self.publisher.outcome e (answers c e.id)).isSome := by
    intro e he
    obtain ⟨found, hfound, -⟩ := houtcome e he
    exact Option.isSome_of_mem hfound
  have hasks : self.system.run (self.system.next c (.desk (.reconcile workspaceId)))
      ((self.publisher.load c.desk workspaceId [.reconcile]).map fun _ =>
        .ask c.desk.calls.length direct) =
      ⟨self.publisher.desk.run (self.system.next c (.desk (.reconcile workspaceId))).desk
        ((self.publisher.load c.desk workspaceId [.reconcile]).map fun e =>
          .ask c.desk.calls.length (answers c e.id)), c.stored⟩ :=
    run_asks (fun _ => rfl) hcall hempty hsome
  obtain ⟨result, findings, hcall', hfound⟩ := Publisher.run_asks hcall hempty hsome
  rw [List.nil_append] at hfound
  rw [reconciles, List.cons_append, System.run_cons, System.run_append, hasks]
  generalize self.publisher.desk.run (self.system.next c (.desk (.reconcile workspaceId))).desk
    ((self.publisher.load c.desk workspaceId [.reconcile]).map fun e =>
      .ask c.desk.calls.length (answers c e.id)) = s at hcall' hfound ⊢
  have hnew : (findings.any fun f => f.reading = .verified && !f.existing &&
      s.receipts.any (self.publisher.isReceipt f.before)) = false := by
    rw [List.any_eq_false]
    intro f hf
    rw [hfound.existing f hf, hfound.receipts]
    simp
  have hevents : (self.system.run ⟨s, c.stored⟩
      [.desk (.settle c.desk.calls.length)]).desk.events = (findings.foldl (fun d f =>
        d.update f.before (Publisher.reconciled f.before f.reading)) s).events := by
    simp only [System.run_cons, System.run_nil, System.next, system, step, Publisher.desk, Publisher.step,
      hcall', Option.getD_some]
    rw [Publisher.settle, if_neg (by simp [hnew])]
    rfl
  have hbefore : ∀ f ∈ findings, f.before ∈ self.publisher.load c.desk workspaceId [.reconcile] :=
    fun f hf => hfound.batch ▸ List.mem_map_of_mem hf
  have hids := h.consistent.sound.ids
  refine ⟨fun e he => ?_⟩
  rw [hevents, Desk.mem_settled (hfound.events ▸ hids) (hfound.batch ▸ Publisher.load_keyed hids)
    fun f hf => hfound.events ▸ (Publisher.mem_load (hbefore f hf)).1] at he
  rcases he with ⟨f, hf, rfl⟩ | ⟨he, hother⟩
  · refine .inl ⟨f.before, hbefore f hf, Publisher.follows_reconciled, ?_⟩
    obtain ⟨found, hout, hcertain⟩ := houtcome f.before (hbefore f hf)
    obtain rfl := Option.some.inj ((hfound.readings f hf).symm.trans hout)
    rcases hcertain with hread | hread <;> rw [hread]
    · exact .inl rfl
    · exact .inr rfl
  · refine .inr ⟨hfound.events ▸ he, fun hin => ?_⟩
    rw [← hfound.batch] at hin
    obtain ⟨f, hf, rfl⟩ := List.mem_map.mp hin
    exact hother f hf rfl

end Passes

/-- The events of a workspace that are neither delivered nor given up. -/
def unfinished (c : Channel) (workspaceId : Id) : List OutboxRow :=
  c.desk.events.filter fun e =>
    e.workspaceId = workspaceId && [.pending, .retry, .reconcile].contains e.status

theorem mem_unfinished : e ∈ unfinished c w ↔
    e ∈ c.desk.events ∧ e.workspaceId = w ∧ e.status ≠ .delivered ∧ e.status ≠ .deadLetter := by
  cases hstatus : e.status <;> simp [unfinished, hstatus]

theorem load_full {statuses : List EventStatus} (he : e ∈ d.events) (hw : e.workspaceId = w)
    (hstatus : e.status ∈ statuses) (hout : e ∉ publisher.load d w statuses) :
    (publisher.load d w statuses).length = 100 := by
  unfold Publisher.load at hout ⊢
  rw [List.length_take, Nat.min_eq_left]
  by_contra hshort
  rw [List.take_of_length_le (by omega), List.mem_insertionSort, Runtime.mem_scan, List.mem_filter] at hout
  exact hout ⟨he, by simp [hw, hstatus]⟩

theorem Worked.unfinished {fate : EventStatus → Prop} {batch : List OutboxRow}
    (hworked : Worked fate batch c.desk c'.desk) (hbatch : ∀ e ∈ batch, e ∈ unfinished c w)
    (he : e ∈ unfinished c' w) : ∃ e₀ ∈ unfinished c w, e₀.Follows e := by
  obtain ⟨hmem, hw, hopen⟩ := mem_unfinished.mp he
  rcases hworked.events e hmem with ⟨e₀, he₀, hf, -⟩ | ⟨hmem, -⟩
  · exact ⟨e₀, hbatch e₀ he₀, hf⟩
  · exact ⟨e, mem_unfinished.mpr ⟨hmem, hw, hopen⟩, rfl⟩

theorem length_unfinished {batch : List OutboxRow}
    (hids' : Table.Keyed OutboxRow.id c'.desk.events) (hbatch : Table.Keyed OutboxRow.id batch)
    (hleft : ∀ e ∈ unfinished c' w, ∃ e₀ ∈ unfinished c w, e₀.id = e.id)
    (hopen : ∀ e ∈ batch, ∃ e₀ ∈ unfinished c w, e₀.id = e.id)
    (hdone : ∀ e ∈ batch, ∀ e' ∈ unfinished c' w, e'.id ≠ e.id) :
    (unfinished c' w).length + batch.length ≤ (unfinished c w).length := by
  have hnodup : (((unfinished c' w).map OutboxRow.id) ++ batch.map OutboxRow.id).Nodup := by
    refine List.nodup_append.mpr ⟨hids'.sublist (List.filter_sublist.map _), hbatch, ?_⟩
    intro a ha b hb hab
    obtain ⟨e', he', rfl⟩ := List.mem_map.mp ha
    obtain ⟨e, he, rfl⟩ := List.mem_map.mp hb
    exact hdone e he e' he' hab
  have hsubset : ((unfinished c' w).map OutboxRow.id) ++ batch.map OutboxRow.id ⊆
      (unfinished c w).map OutboxRow.id := by
    refine List.append_subset.mpr ⟨fun id hid => ?_, fun id hid => ?_⟩ <;>
      obtain ⟨e, he, rfl⟩ := List.mem_map.mp hid
    · obtain ⟨e₀, he₀, heq⟩ := hleft e he
      exact List.mem_map.mpr ⟨e₀, he₀, heq⟩
    · obtain ⟨e₀, he₀, heq⟩ := hopen e he
      exact List.mem_map.mpr ⟨e₀, he₀, heq⟩
  simpa using (List.subperm_of_subset hnodup hsubset).length_le

/-- A round is through with a hundred events at least, if there are as many. -/
theorem unfinished_round (hadmits : self.Admits now) (hurl : ∀ id, (self.publisher.receiptUrl id).isOk)
    (h : self.Ready c) (w : Id) :
    let c' := self.system.run c (self.round c w now)
    (unfinished c' w).length ≤ (unfinished c w).length - 100 ∧
      ∀ e ∈ c'.desk.events, e.status = .deadLetter → e ∈ c.desk.events := by
  intro c'
  have hready : self.Ready (self.system.run c (self.reconciles c w)) := by
    refine h.run ?_ ?_ <;> simp [reconciles]
  have hready' : self.Ready c' := by
    refine h.run ?_ ?_ <;> simp [round, reconciles, relays, delivery]
  have hasked := run_reconciles h hurl w
  have hsent := run_relays hadmits hready w
  rw [← System.run_append] at hsent
  change Worked _ _ _ c'.desk at hsent
  generalize self.system.run c (self.reconciles c w) = c₁ at hready hasked hsent
  have hloaded : ∀ e ∈ self.publisher.load c.desk w [.reconcile], e ∈ unfinished c w := by
    intro e he
    obtain ⟨hmem, hw, hstatus⟩ := Publisher.mem_load he
    exact mem_unfinished.mpr ⟨hmem, hw, by simp_all⟩
  have hloaded₁ : ∀ e ∈ self.publisher.load c₁.desk w [.pending, .retry], e ∈ unfinished c₁ w := by
    intro e he
    obtain ⟨hmem, hw, hstatus⟩ := Publisher.mem_load he
    rw [List.mem_cons, List.mem_singleton] at hstatus
    exact mem_unfinished.mpr ⟨hmem, hw, by rcases hstatus with h | h <;> simp [h]⟩
  have hleft₁ : ∀ e ∈ unfinished c' w, e ∈ c₁.desk.events ∧
      e ∉ self.publisher.load c₁.desk w [.pending, .retry] := by
    intro e he
    obtain ⟨hmem, -, hopen, -⟩ := mem_unfinished.mp he
    rcases hsent.events e hmem with ⟨-, -, -, hdelivered⟩ | hsame
    · exact (hopen hdelivered).elim
    · exact hsame
  have hback₁ : ∀ e ∈ unfinished c₁ w, ∃ e₀ ∈ unfinished c w, e₀.id = e.id := by
    intro e he
    obtain ⟨e₀, he₀, hf⟩ := hasked.unfinished hloaded he
    exact ⟨e₀, he₀, hf ▸ rfl⟩
  have hback : ∀ e ∈ unfinished c' w, ∃ e₀ ∈ unfinished c w, e₀.id = e.id := by
    intro e he
    obtain ⟨e₁, he₁, hf₁⟩ := hsent.unfinished hloaded₁ he
    obtain ⟨e₀, he₀, hid⟩ := hback₁ e₁ he₁
    exact ⟨e₀, he₀, hid.trans (hf₁ ▸ rfl)⟩
  have hids := h.consistent.sound.ids
  have hids₁ := hready.consistent.sound.ids
  have hids' := hready'.consistent.sound.ids
  refine ⟨?_, fun e he hdead => ?_⟩
  · by_cases hfull : (self.publisher.load c₁.desk w [.pending, .retry]).length = 100
    -- a full batch goes out
    · have hcount := length_unfinished hids' (Publisher.load_keyed hids₁) hback
        (fun e he => hback₁ e (hloaded₁ e he)) fun e he e' he' hid => by
          obtain ⟨hmem, hout⟩ := hleft₁ e' he'
          rw [hids₁.eq_of_mem hmem (Publisher.mem_load he).1 hid] at hout
          exact hout he
      omega
    -- all that waits goes out, and what is left was not asked for
    · have hleft : ∀ e ∈ unfinished c' w, e ∈ c.desk.events ∧ e.workspaceId = w ∧ e.status = .reconcile ∧
          e ∉ self.publisher.load c.desk w [.reconcile] := by
        intro e he
        obtain ⟨-, hw, hdelivered, hdead⟩ := mem_unfinished.mp he
        obtain ⟨hmem, hout⟩ := hleft₁ e he
        have hreconcile : e.status = .reconcile := by
          by_contra hne
          refine hfull (load_full hmem hw ?_ hout)
          cases hstatus : e.status <;> simp_all
        rcases hasked.events e hmem with ⟨-, -, -, hfate⟩ | ⟨hmem, hout⟩
        · rcases hfate with hfate | hfate <;> rw [hfate] at hreconcile <;> cases hreconcile
        · exact ⟨hmem, hw, hreconcile, hout⟩
      rcases (unfinished c' w).eq_nil_or_concat with hnil | ⟨es, e, hes⟩
      · rw [hnil]
        exact Nat.zero_le _
      · have he : e ∈ unfinished c' w := by simp [hes]
        obtain ⟨hmem, hw, hstatus, hout⟩ := hleft e he
        have hasked : (self.publisher.load c.desk w [.reconcile]).length = 100 :=
          load_full hmem hw (List.mem_singleton.mpr hstatus) hout
        have hcount := length_unfinished hids' (Publisher.load_keyed hids) hback
          (fun e he => ⟨e, hloaded e he, rfl⟩) fun e he e' he' hid => by
            obtain ⟨hmem, -, -, hout⟩ := hleft e' he'
            rw [hids.eq_of_mem hmem (Publisher.mem_load he).1 hid] at hout
            exact hout he
        omega
  · rcases hsent.events e he with ⟨-, -, -, hdelivered⟩ | ⟨he, -⟩
    · rw [hdead] at hdelivered
      cases hdelivered
    · rcases hasked.events e he with ⟨-, -, -, hfate⟩ | ⟨he, -⟩
      · rcases hfate with hfate | hfate <;> rw [hdead] at hfate <;> cases hfate
      · exact he

theorem unfinished_rounds (hadmits : self.Admits now) (hurl : ∀ id, (self.publisher.receiptUrl id).isOk)
    (h : self.Ready c) (w : Id) (n : Nat) :
    let c' := self.system.run c (self.rounds w now n c)
    self.Ready c' ∧ (unfinished c' w).length ≤ (unfinished c w).length - 100 * n ∧
      ∀ e ∈ c'.desk.events, e.status = .deadLetter → e ∈ c.desk.events := by
  induction n generalizing c with
  | zero => exact ⟨h, le_rfl, fun _ he _ => he⟩
  | succ n ih =>
    have hready : self.Ready (self.system.run c (self.round c w now)) := by
      refine h.run ?_ ?_ <;> simp [round, reconciles, relays, delivery]
    obtain ⟨hcount, hdead⟩ := unfinished_round hadmits hurl h w
    obtain ⟨hready', hcount', hdead'⟩ := ih hready
    rw [rounds, System.run_append]
    refine ⟨hready', ?_, fun e he hstatus => ?_⟩
    · omega
    · exact hdead e (hdead' e he hstatus) hstatus

end Connection

/-- Whatever got lost and however calls overlapped before: once requests and answers arrive again, one round
for each hundred events that are not finished gets every event to the consumer, but for those given up. -/
theorem events_recovered {rt : Runtime} {w : Workspace} {s : Store} (h : Reachable rt w s)
    (link : Connection) (now : Int) (hadmits : link.Admits now)
    (hurl : ∀ id, (link.publisher.receiptUrl id).isOk)
    (hloads : ∀ event ∈ s.outbox,
      link.consumer.loads (link.dumps event.payload) = some (.obj event.payload.sorted))
    (hnosplit : ∀ event ∈ s.outbox, event.eventType ≠ "identity.split")
    (hversions : ∀ event ∈ s.outbox, ∀ n ∈ event.entityVersion, (n : Int) < 2 ^ 63)
    (acts : List ChannelAct) (hcommits : ∀ event, .desk (.commit event) ∈ acts → event ∈ s.outbox)
    (hunforged : link.system.Along link.Unforged Channel.empty acts) (n : Nat) :
    let c := link.system.run Channel.empty acts
    (Connection.unfinished c w.id).length ≤ 100 * n →
      let c' := link.system.run c (link.rounds w.id now n c)
      ∀ e ∈ c.desk.events, e.workspaceId = w.id → e.status ≠ .deadLetter →
        ∃ e' ∈ c'.desk.events, e'.id = e.id ∧ e'.status = .delivered ∧
          ∃ r ∈ c'.stored, r.eventId = .str e.id ∧ r.payload = link.dumps e.payload := by
  intro c hcount c' e he hw halive
  obtain ⟨requests, rfl⟩ := h
  have htold := told_run rt w requests
  have hreceivable : link.system.Along (fun _ a => ∀ event, a = .desk (.commit event) →
      link.Receivable event.row) Channel.empty acts := by
    refine link.system.along_of_mem fun a ha _ event heq => ?_
    have hevent := hcommits event (heq ▸ ha)
    have htold := htold event hevent
    exact ⟨⟨hloads event hevent, htold.eventId⟩, htold.reconcilable_iff.mpr (hnosplit event hevent),
      hversions event hevent⟩
  have hready : link.Ready c := link.system.run_invariant .empty (hunforged.and hreceivable)
    fun c a hc ha => hc.next ha
  obtain ⟨hready', hdone, hdead⟩ := Connection.unfinished_rounds hadmits hurl hready w.id n
  obtain ⟨e', he', hf⟩ := link.run_kept (link.rounds w.id now n c) he
  have hid : e'.id = e.id := hf ▸ rfl
  have hfinished : e' ∉ Connection.unfinished c' w.id := by
    rw [List.eq_nil_of_length_eq_zero (Nat.le_zero.mp (hdone.trans (by omega)))]
    exact List.not_mem_nil
  have hdelivered : e'.status = .delivered := by
    by_contra hne
    refine hfinished (Connection.mem_unfinished.mpr ⟨he', (hf ▸ hw : e'.workspaceId = w.id), hne, ?_⟩)
    intro hstatus
    have hold := hdead e' he' hstatus
    rw [hready.consistent.sound.ids.eq_of_mem hold he hid] at hstatus
    exact halive hstatus
  obtain ⟨r, hr, hrid, -, -, hpayload⟩ := hready'.consistent.exact.delivered e' he' hdelivered
  have hsame : e'.payload = e.payload := hf ▸ rfl
  exact ⟨e', he', hid, hdelivered, r, hr, hid ▸ hrid, hsame ▸ hpayload⟩

namespace Outbound

/-- The events of a workspace go out, and the answer is lost. -/
def unanswered (events : List OutboxEvent) : List ChannelAct :=
  events.map (fun event => .desk (.commit event)) ++ [
    .desk (.relay "w1"), .desk (.claim 0),
    .post 0 none 0 0 unheard, .desk (.record 0)]

end Outbound

open Supplier Outbound in
theorem events_recovered_unanswered : ∃ events : List OutboxEvent,
    let c := (connection events).system.run Channel.empty (unanswered events)
    let c' := (connection events).system.run c ((connection events).rounds "w1" 0 1 c)
    ∃ e ∈ c.desk.events, e.status = .reconcile ∧ ∃ e' ∈ c'.desk.events, e'.id = e.id ∧
      e'.status = .delivered ∧ ∃ r ∈ c'.stored, r.eventId = .str e.id ∧
        r.payload = (connection events).dumps e.payload := by
  refine ⟨(after [three, approve (uid 11)]).outbox, ?_⟩
  intro c c'
  have hreachable : Reachable .plain workspace (after [three, approve (uid 11)]) := ⟨setup ++ _, rfl⟩
  have hdoubt : ∃ e ∈ c.desk.events, e.status = .reconcile ∧ e.workspaceId = workspace.id := by
    decide +kernel
  obtain ⟨e, he, hstatus, hw⟩ := hdoubt
  refine ⟨e, he, hstatus, ?_⟩
  refine events_recovered hreachable (connection _) 0 ⟨rfl, by decide, fun text => ?_, rfl⟩ (fun id => rfl)
    (by decide +kernel) (by decide +kernel) (by decide +kernel) (unanswered _) ?_ ?_ 1 (by decide +kernel)
    e he hw
    (by simp [hstatus])
  · simp [connection]
  · intro event hevent
    simpa [unanswered] using hevent
  · refine System.along_of_mem _ fun a ha c => ?_
    cases a with
    | foreign request => simp [unanswered] at ha
    | _ => trivial

end Recordlane
