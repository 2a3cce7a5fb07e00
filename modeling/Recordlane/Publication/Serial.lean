import Recordlane.Publication.Delivered

/-! Calls that run one after another: what they hold is what is stored. -/
namespace Recordlane

variable {self : Publisher} {d d' : Desk} {act : Act} {e event before after : OutboxRow}
  {call call' : Call} {i : Nat} {id : Id}

/-- A call begins only when all others are over. -/
def Act.serial (d : Desk) : Act → Bool
  | .relay _ | .reconcile _ => d.calls.all Call.over
  | _ => true

/-- Only the last call is in progress, and its copies are as stored. -/
structure Desk.Serial (d : Desk) : Prop where
  sound : d.Sound
  last : ∀ i call, d.calls[i]? = some call → call.over = false → i + 1 = d.calls.length
  stored : ∀ call ∈ d.calls, ∀ e ∈ call.copies, e ∈ d.events

namespace Desk

theorem mem_update (h : Table.Keyed OutboxRow.id d.events) (hbefore : before ∈ d.events) :
    e ∈ (d.update before after).events ↔
      e = before.flush after before ∨ (e ∈ d.events ∧ e.id ≠ before.id) := by
  rw [update, Table.mem_modify]
  constructor
  · rintro (⟨he, hne⟩ | ⟨r, hr, hid, rfl⟩)
    · exact .inr ⟨he, hne⟩
    · rw [h.eq_of_mem hr hbefore hid]
      exact .inl rfl
  · rintro (rfl | ⟨he, hne⟩)
    · exact .inr ⟨before, hbefore, rfl, rfl⟩
    · exact .inl ⟨he, hne⟩

end Desk

/-- The copy differs from what it was in nothing but the columns of publication. -/
def OutboxRow.Follows (before after : OutboxRow) : Prop :=
  after = { before with
    status := after.status
    attempts := after.attempts
    lastError := after.lastError }

theorem OutboxRow.Follows.flush (h : before.Follows after) : before.flush after before = after := by
  have hite : ∀ {α : Type} [DecidableEq α] (a b : α), (if b = a then a else b) = b := by
    intro α _ a b
    split
    · next hab => exact hab.symm
    · rfl
  rw [OutboxRow.flush, hite, hite, hite]
  exact h.symm

namespace Publisher

theorem follows_claimed : event.Follows (claimed event) := rfl

theorem follows_recorded {outcome : PostOutcome} {status : AttemptStatus} :
    event.Follows (recorded event outcome status) := rfl

theorem follows_reconciled {found : Reading} : event.Follows (reconciled event found) := by
  cases found <;> rfl

end Publisher

namespace Desk

theorem mem_written (h : Table.Keyed OutboxRow.id d.events) (hbefore : before ∈ d.events)
    (hf : before.Follows after) :
    e ∈ (d.update before after).events ↔ e = after ∨ (e ∈ d.events ∧ e.id ≠ before.id) := by
  rw [mem_update h hbefore, hf.flush]

theorem mem_settled {findings : List Finding} (h : Table.Keyed OutboxRow.id d.events)
    (hids : Table.Keyed OutboxRow.id (findings.map Finding.before))
    (hstored : ∀ f ∈ findings, f.before ∈ d.events) :
    e ∈ (findings.foldl (fun d f => d.update f.before (Publisher.reconciled f.before f.reading))
        d).events ↔
      (∃ f ∈ findings, e = Publisher.reconciled f.before f.reading) ∨
        (e ∈ d.events ∧ ∀ f ∈ findings, e.id ≠ f.before.id) := by
  induction findings generalizing d with
  | nil => simp
  | cons f findings ih =>
    rw [Table.Keyed, List.map_cons, List.map_cons, List.nodup_cons] at hids
    have hne : ∀ g ∈ findings, g.before.id ≠ f.before.id := by
      intro g hg hid
      exact hids.1 (hid ▸ List.mem_map_of_mem (List.mem_map_of_mem hg))
    have hwritten : ∀ {x}, x ∈ (d.update f.before (Publisher.reconciled f.before f.reading)).events ↔
        x = Publisher.reconciled f.before f.reading ∨ (x ∈ d.events ∧ x.id ≠ f.before.id) :=
      mem_written h (hstored f List.mem_cons_self) Publisher.follows_reconciled
    have hid : (Publisher.reconciled f.before f.reading).id = f.before.id := by
      cases f.reading <;> rfl
    have hkeyed : Table.Keyed OutboxRow.id
        (d.update f.before (Publisher.reconciled f.before f.reading)).events := by
      rw [Table.Keyed, update_ids]
      exact h
    rw [List.foldl_cons, ih hkeyed hids.2 fun g hg =>
      hwritten.mpr (.inr ⟨hstored g (List.mem_cons_of_mem _ hg), hne g hg⟩), hwritten]
    constructor
    · rintro (⟨g, hg, rfl⟩ | ⟨rfl | ⟨he, hef⟩, hall⟩)
      · exact .inl ⟨g, List.mem_cons_of_mem _ hg, rfl⟩
      · exact .inl ⟨f, List.mem_cons_self, rfl⟩
      · refine .inr ⟨he, fun g hg => ?_⟩
        rcases List.mem_cons.mp hg with rfl | hg
        · exact hef
        · exact hall g hg
    · rintro (⟨g, hg, rfl⟩ | ⟨he, hall⟩)
      · rcases List.mem_cons.mp hg with rfl | hg
        · refine .inr ⟨.inl rfl, fun g hg => ?_⟩
          rw [hid]
          exact (hne g hg).symm
        · exact .inl ⟨g, hg, rfl⟩
      · exact .inr ⟨.inr ⟨he, hall f List.mem_cons_self⟩, fun g hg => hall g (List.mem_cons_of_mem _ hg)⟩

end Desk

namespace Desk.Serial

theorem empty : Desk.empty.Serial := ⟨Sound.empty, by simp [Desk.empty], by simp [Desk.empty]⟩

/-- A reconciliation that has asked about all its events found stored rows in doubt, each of them once. -/
theorem asked {result : ReconcileResult} {findings : List Finding} (h : d.Serial)
    (hcall : d.calls[i]? = some (.reconciling result findings [])) :
    Table.Keyed OutboxRow.id (findings.map Finding.before) ∧ (∀ f ∈ findings, f.before ∈ d.events) ∧
      ∀ f ∈ findings, f.before.status = .reconcile := by
  have hmem := List.mem_of_getElem? hcall
  have hkeyed := h.sound.copies _ hmem
  rw [Call.copies, List.append_nil] at hkeyed
  refine ⟨hkeyed, fun f hf => ?_, (h.sound.marked _ hmem).1⟩
  exact h.stored _ hmem _ (List.mem_append_left _ (List.mem_map_of_mem hf))

theorem others (h : d.Serial) (call' : Call) (hcall : d.calls[i]? = some call) (hover : call.over = false) :
    ∀ j c, (d.calls.set i call')[j]? = some c → c = call' ∧ j = i ∨ c.over := by
  intro j c hc
  have hlast := h.last i call hcall hover
  rw [List.getElem?_set] at hc
  split at hc
  · next hj =>
    split at hc
    · exact .inl ⟨(Option.some.inj hc).symm, hj.symm⟩
    · cases hc
  · right
    by_contra hlive
    have hjlast := h.last j c hc (by simpa using hlive)
    omega

theorem setCall (h : d.Serial) (hsound : d'.Sound) (hcalls : d'.calls = d.calls.set i call')
    (hcall : d.calls[i]? = some call) (hover : call.over = false)
    (hstored : ∀ e ∈ call'.copies, e ∈ d'.events) : d'.Serial := by
  have hothers := h.others call' hcall hover
  refine ⟨hsound, ?_, ?_⟩
  · intro j c hc hlive
    rw [hcalls] at hc ⊢
    rcases hothers j c hc with ⟨-, rfl⟩ | hc
    · rw [List.length_set]
      exact h.last j call hcall hover
    · rw [hc] at hlive
      cases hlive
  · intro c hc e he
    rw [hcalls] at hc
    obtain ⟨j, hj⟩ := List.getElem?_of_mem hc
    rcases hothers j c hj with ⟨rfl, -⟩ | hc
    · exact hstored e he
    · rw [Call.copies_of_over hc] at he
      cases he

theorem close (h : d.Serial) (hsound : d'.Sound) (hcalls : d'.calls = d.calls.set i call')
    (hevents : d'.events = d.events) (hover : call'.over) : d'.Serial := by
  refine ⟨hsound, ?_, ?_⟩
  · intro j c hc hlive
    rw [hcalls] at hc ⊢
    rw [List.length_set]
    rw [List.getElem?_set] at hc
    split at hc
    · split at hc
      · rw [← Option.some.inj hc, hover] at hlive
        cases hlive
      · cases hc
    · exact h.last j c hc hlive
  · intro c hc e he
    rw [hcalls] at hc
    rw [hevents]
    rcases List.mem_or_eq_of_mem_set hc with hc | rfl
    · exact h.stored c hc e he
    · rw [Call.copies_of_over hover] at he
      cases he

theorem start (h : d.Serial) (hsound : d'.Sound) (hcalls : d'.calls = d.calls ++ [call])
    (hevents : d'.events = d.events) (hover : d.calls.all Call.over)
    (hstored : ∀ e ∈ call.copies, e ∈ d.events) : d'.Serial := by
  rw [List.all_eq_true] at hover
  refine ⟨hsound, ?_, ?_⟩
  · intro j c hc hlive
    rw [hcalls] at hc ⊢
    rw [List.length_append, List.length_singleton]
    rw [List.getElem?_append] at hc
    split at hc
    · rw [hover c (List.mem_of_getElem? hc)] at hlive
      cases hlive
    · rw [List.getElem?_singleton] at hc
      split at hc
      · omega
      · cases hc
  · intro c hc e he
    rw [hcalls] at hc
    rw [hevents]
    rcases List.mem_append.mp hc with hc | hc
    · exact h.stored c hc e he
    · exact hstored e (List.mem_singleton.mp hc ▸ he)

theorem steps (h : d.Serial) (hs : self.Steps d act d') (hserial : act.serial d) : d'.Serial := by
  have hsound := h.sound.steps hs
  cases hs with
  | commit _ =>
    exact ⟨hsound, h.last, fun c hc e he => List.mem_append_left _ (h.stored c hc e he)⟩
  | relay => exact h.start hsound rfl rfl hserial fun e he => (Publisher.mem_load he).1
  | reconcile => exact h.start hsound rfl rfl hserial fun e he => (Publisher.mem_load he).1
  | close hover _ => exact h.close hsound rfl rfl hover
  | claim hcall _ =>
    have hstored := h.stored _ (List.mem_of_getElem? hcall)
    have hids := List.nodup_cons.mp (h.sound.copies _ (List.mem_of_getElem? hcall))
    refine h.setCall hsound rfl hcall rfl fun e he => ?_
    refine (Desk.mem_written h.sound.ids (hstored _ List.mem_cons_self) Publisher.follows_claimed).mpr ?_
    rcases List.mem_cons.mp he with rfl | he
    · exact .inl rfl
    · refine .inr ⟨hstored e (List.mem_cons_of_mem _ he), fun hid => hids.1 ?_⟩
      exact hid ▸ List.mem_map_of_mem he
  | post hcall hnext =>
    have hstored := h.stored _ (List.mem_of_getElem? hcall)
    rcases hnext with rfl | ⟨status, -, rfl⟩
    · exact h.close hsound rfl rfl rfl
    · exact h.setCall hsound rfl hcall rfl hstored
  | record hcall =>
    have hstored := h.stored _ (List.mem_of_getElem? hcall)
    have hids := List.nodup_cons.mp (h.sound.copies _ (List.mem_of_getElem? hcall))
    refine h.setCall hsound rfl hcall rfl fun e he => ?_
    refine (Desk.mem_written h.sound.ids (hstored _ List.mem_cons_self) Publisher.follows_recorded).mpr ?_
    refine .inr ⟨hstored e (List.mem_cons_of_mem _ he), fun hid => hids.1 ?_⟩
    exact hid ▸ List.mem_map_of_mem he
  | ask hcall _ =>
    have hstored := h.stored _ (List.mem_of_getElem? hcall)
    refine h.setCall hsound rfl hcall rfl fun e he => hstored e ?_
    simpa [Call.copies] using he
  | unasked hcall =>
    have hstored := h.stored _ (List.mem_of_getElem? hcall)
    refine h.setCall hsound rfl hcall rfl fun e he => hstored e ?_
    simpa [Call.copies] using he
  | unread _ => exact h.close hsound rfl rfl rfl
  | @settle i result findings receipts hcall _ =>
    have hcalls : (findings.foldl (fun d f => d.update f.before
        (Publisher.reconciled f.before f.reading)) d).calls.set i (.reconciled result) =
          d.calls.set i (.reconciled result) := by
      rw [Desk.foldl_update_calls]
    exact h.setCall hsound hcalls hcall rfl (by simp [Call.copies])

end Desk.Serial

end Recordlane
