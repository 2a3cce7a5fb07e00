import Mathlib.Data.List.Induction
import Recordlane.Publication.Acknowledged

/-! The limit of five attempts, and the reconciliations that go beyond it. -/
namespace Recordlane

variable {self : Publisher} {d d' : Desk} {act : Act} {e event : OutboxRow}

/-- The event waits to be sent. -/
def OutboxRow.isWaiting (e : OutboxRow) : Bool := e.status = .pending || e.status = .retry

/-- Events go out five times at most, and after the fifth attempt they do not wait to be sent. -/
def Desk.Bounded (d : Desk) : Prop :=
  ∀ e ∈ d.events, d.posts e.id ≤ 5 ∧ e.attempts ≤ 5 ∧ (e.attempts = 5 → e.isWaiting = false)

/-- It is recorded that there is no receipt of an event that had its five attempts. -/
def Act.revives (d : Desk) : Act → Bool
  | .settle i =>
    match d.calls[i]? with
    | some (.reconciling _ findings []) =>
      findings.any fun f => f.reading = .absent && f.before.attempts ≥ 5
    | _ => false
  | _ => false

namespace Publisher

theorem recorded_isWaiting {outcome : PostOutcome} {status : AttemptStatus} (h : event.attempts = 5) :
    (recorded event outcome status).isWaiting = false := by
  cases status <;> simp [OutboxRow.isWaiting, recorded, eventStatus, h]

theorem reconciled_isWaiting {found : Reading} (hmark : event.status = .reconcile) :
    (reconciled event found).isWaiting = decide (found = .absent) := by
  cases found <;> simp [OutboxRow.isWaiting, reconciled, hmark]

end Publisher

namespace Desk

theorem Acknowledged.bounded (h : d.Acknowledged)
    (he : ∀ e ∈ d.events, e.attempts ≤ 5 ∧ (e.attempts = 5 → e.isWaiting = false)) : d.Bounded :=
  fun e hmem => ⟨(h.events e hmem).posts.trans (he e hmem).1, he e hmem⟩

theorem Bounded.steps (h : d.Bounded) (hack : d.Acknowledged) (hs : self.Steps d act d')
    (hack' : d'.Acknowledged) (hrevives : act.revives d = false) : d'.Bounded := by
  have hids := hack.serial.sound.ids
  refine hack'.bounded fun e he => ?_
  cases hs with
  | commit _ =>
    rcases List.mem_append.mp he with he | he
    · exact (h e he).2
    · rw [List.mem_singleton.mp he]
      exact ⟨Nat.zero_le 5, nofun⟩
  | relay => exact (h e he).2
  | reconcile => exact (h e he).2
  | close _ _ => exact (h e he).2
  | @claim i result event todo attempts hcall _ _ =>
    have hmem := hack.serial.stored _ (List.mem_of_getElem? hcall) event List.mem_cons_self
    have hwaits : event.isWaiting := by
      simpa [OutboxRow.isWaiting] using
        hack.serial.sound.marked _ (List.mem_of_getElem? hcall) event List.mem_cons_self
    rcases (mem_written hids hmem Publisher.follows_claimed).mp he with rfl | ⟨he, -⟩
    · refine ⟨?_, fun _ => rfl⟩
      obtain ⟨-, hle, hspent⟩ := h event hmem
      have hne : event.attempts ≠ 5 := by
        intro heq
        rw [hspent heq] at hwaits
        cases hwaits
      change event.attempts + 1 ≤ 5
      omega
    · exact (h e he).2
  | post _ _ => exact (h e he).2
  | @record i result result' event outcome status todo attempts receipts hcall _ _ =>
    have hmem := hack.serial.stored _ (List.mem_of_getElem? hcall) event List.mem_cons_self
    rcases (mem_written hids hmem Publisher.follows_recorded).mp he with rfl | ⟨he, -⟩
    · exact ⟨(h event hmem).2.1, Publisher.recorded_isWaiting⟩
    · exact (h e he).2
  | ask _ _ _ => exact (h e he).2
  | unasked _ _ => exact (h e he).2
  | unread _ => exact (h e he).2
  | @settle i result findings receipts hcall _ _ =>
    obtain ⟨hkeyed, hstored, hmarked⟩ := hack.serial.asked hcall
    simp only [Act.revives, hcall, List.any_eq_false] at hrevives
    rcases (mem_settled hids hkeyed hstored).mp he with ⟨f, hf, rfl⟩ | ⟨he, -⟩
    · rw [Publisher.reconciled_isWaiting (hmarked f hf), Publisher.reconciled_attempts.1]
      refine ⟨(h f.before (hstored f hf)).2.1, fun hspent => decide_eq_false fun habsent => ?_⟩
      exact hrevives f hf (by simp [habsent, hspent])
    · exact (h e he).2

theorem Acknowledged.not_bounded (self : Publisher) (hack : d.Acknowledged) (hrevives : act.revives d) :
    ¬ (self.desk.next d act).Bounded := by
  intro h
  unfold Act.revives at hrevives
  split at hrevives
  · next i =>
    split at hrevives
    · next result findings hcall =>
      have hids := hack.serial.sound.ids
      obtain ⟨hkeyed, hstored, hmarked⟩ := hack.serial.asked hcall
      have hnew : (findings.any fun f => f.reading = .verified && !f.existing &&
          d.receipts.any (self.isReceipt f.before)) = false := by
        rw [List.any_eq_false]
        intro f hf
        rw [hack.any_isReceipt (hstored f hf) (by simp [hmarked f hf]), Bool.and_false]
        exact Bool.false_ne_true
      have hnext : self.desk.next d (.settle i) = self.settle d i result findings := by
        simp only [System.next, Publisher.desk, Publisher.step, hcall, Option.getD_some]
      rw [hnext, Publisher.settle, if_neg (by simp [hnew])] at h
      obtain ⟨f, hf, habsent⟩ := List.any_eq_true.mp hrevives
      rw [Bool.and_eq_true, decide_eq_true_eq, decide_eq_true_eq] at habsent
      obtain ⟨-, hle, hspent⟩ := h (Publisher.reconciled f.before f.reading)
        ((mem_settled hids hkeyed hstored).mpr (.inl ⟨f, hf, rfl⟩))
      rw [Publisher.reconciled_attempts.1] at hle hspent
      rw [Publisher.reconciled_isWaiting (hmarked f hf)] at hspent
      exact of_decide_eq_false (hspent (Nat.le_antisymm hle habsent.2)) habsent.1
    · cases hrevives
  · cases hrevives

end Desk

/-- In every serial run, whatever the consumer does and wherever calls are killed, events go out five
times at most and do not wait to be sent after their fifth attempt, if and only if no reconciliation
sends an event back that had its five attempts. -/
theorem attempts_bounded_iff (self : Publisher) {acts : List Act}
    (h : self.desk.Along (fun d act => act.serial d) Desk.empty acts) :
    (∀ first rest, acts = first ++ rest → (self.desk.run Desk.empty first).Bounded) ↔
      self.desk.Along (fun d act => act.revives d = false) Desk.empty acts := by
  have hleading : ∀ first rest, acts = first ++ rest → (self.desk.run Desk.empty first).Acknowledged := by
    rintro first rest rfl
    exact acknowledged_run self ((self.desk.along_append).mp h).1
  rw [self.desk.along_iff]
  constructor
  · intro hbounded first act rest heq
    rw [← Bool.not_eq_true]
    intro hrevives
    refine (hleading first (act :: rest) heq).not_bounded self hrevives ?_
    have hnext := hbounded (first ++ [act]) rest (by rw [heq, List.append_assoc]; rfl)
    rwa [System.run_append] at hnext
  · intro hrevives first rest heq
    induction first using List.reverseRecOn generalizing rest with
    | nil => simp [Desk.Bounded, Desk.empty]
    | append_singleton first act ih =>
      have heq' : acts = first ++ act :: rest := by rw [heq, List.append_assoc]; rfl
      have hbounded := ih (act :: rest) heq'
      have hack := hleading first (act :: rest) heq'
      have hack' := hleading (first ++ [act]) rest heq
      rw [System.run_append] at hack' ⊢
      rcases self.next_steps (self.desk.run Desk.empty first) act with hsame | hs
      · rw [System.run_cons, hsame]
        exact hbounded
      · exact hbounded.steps hack hs hack' (hrevives first act rest heq')

namespace Outbound

/-- An event is sent and answered by a server error, and the consumer has no receipt of it. -/
def unavailable (n : Nat) : List Act := [.relay "w1", .claim (2 * n),
  .post (2 * n) (.response 503) false, .record (2 * n), .claim (2 * n), .reconcile "w1",
  .ask (2 * n + 1) (.response 404 (.error .jsonDecodeError)), .settle (2 * n + 1)]

/-- Some such rounds. -/
def rounds (n : Nat) : List Act :=
  .commit (approval "e1" "x" 1 1) :: (List.range n).flatMap unavailable

end Outbound

open Outbound in
theorem attempts_bounded_rounds : publisher.desk.Along (fun d act => act.serial d) Desk.empty (rounds 4) ∧
    ((∀ first rest, rounds 4 = first ++ rest → (publisher.desk.run Desk.empty first).Bounded) ↔
      publisher.desk.Along (fun d act => act.revives d = false) Desk.empty (rounds 4)) := by
  have hserial : publisher.desk.Along (fun d act => act.serial d) Desk.empty (rounds 4) := by decide +kernel
  exact ⟨hserial, attempts_bounded_iff publisher hserial⟩

open Outbound in
/-- The event goes out for the sixth time. -/
theorem rounds_not_bounded : ¬ ∀ acts,
    publisher.desk.Along (fun d act => act.serial d) Desk.empty acts →
      ∀ first rest, acts = first ++ rest → (deskAfter first).Bounded := by
  intro h
  have hserial : publisher.desk.Along (fun d act => act.serial d) Desk.empty (rounds 6) := by
    decide +kernel
  have hposts : ((deskAfter (rounds 6)).events.any fun e => (deskAfter (rounds 6)).posts e.id = 6) := by
    decide +kernel
  obtain ⟨e, he, hsix⟩ := List.any_eq_true.mp hposts
  have hle := (h (rounds 6) hserial (rounds 6) [] (List.append_nil _).symm e he).1
  rw [of_decide_eq_true hsix] at hle
  omega

end Recordlane
