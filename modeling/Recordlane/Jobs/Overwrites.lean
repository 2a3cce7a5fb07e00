import Recordlane.Jobs.Steps

/-! A superseded worker: whether it can still write the row of its job. -/
namespace Recordlane

variable {q q' : Queue} {a : JobAct} {acts : List JobAct} {i : Nat} {e e' : Execution}
  {j before after : JobRow}

/-- What a worker tells of its claim in the row of a job. -/
def JobRow.lease (j : JobRow) : QueueStatus × Option String × Option DateTime × Option String :=
  (j.status, j.leaseOwner, j.leaseExpiresAt, j.lastError)

/-- A step of an execution whose fence is no longer that of its job leaves the job's row alone. -/
def KeepsLease (q : Queue) (a : JobAct) : Prop :=
  ∀ e ∈ a.executionOf q, ∀ j ∈ q.jobs, j.id = e.jobId → e.fence < j.leaseVersion →
    ∃ j' ∈ (jobQueue.next q a).jobs, j'.id = j.id ∧ j'.lease = j.lease

instance : Decidable (KeepsLease q a) :=
  inferInstanceAs (Decidable (∀ e ∈ a.executionOf q, ∀ j ∈ q.jobs, j.id = e.jobId →
    e.fence < j.leaseVersion → ∃ j' ∈ (jobQueue.next q a).jobs, j'.id = j.id ∧ j'.lease = j.lease))

/-- No job is claimed while an execution that has read its row is about to write it. -/
def ClaimsApart (q : Queue) (a : JobAct) : Prop :=
  (a.takes q).all (fun job =>
    q.executions.all fun e => e.jobId ≠ job.id || e.phase.writing.isNone) = true

instance : Decidable (ClaimsApart q a) := inferInstanceAs (Decidable (_ = true))

theorem claimsApart_iff : ClaimsApart q a ↔ ∀ job, a.takes q = some job →
    ∀ e ∈ q.executions, e.jobId = job.id → e.phase.writing = none := by
  unfold ClaimsApart
  cases a.takes q with
  | none => simp
  | some job => simp [← imp_iff_not_or]

/-- The copies about to be written have been read under the fence that the row still has. -/
structure CopiesCurrent (q : Queue) : Prop where
  ids : Table.Keyed JobRow.id q.jobs
  current : ∀ e ∈ q.executions, ∀ before after, e.phase.writing = some (before, after) →
    before.id = e.jobId ∧ ∀ j ∈ q.jobs, j.id = e.jobId → j.leaseVersion ≤ e.fence

theorem copiesCurrent_empty : CopiesCurrent .empty := by
  constructor <;> simp [Queue.empty, Table.Keyed]

theorem Leaves.unique (h : Leaves q e before after) (hk : Table.Keyed JobRow.id q.jobs)
    (hj : j ∈ q.jobs) (hid : j.id = e.jobId) : j = before := by
  have hread : q.job? e.jobId = some before := h.read
  rw [Queue.job?, ← hid, hk.find_of_mem hj] at hread
  exact Option.some.inj hread

theorem Leaves.fence (h : Leaves q e before after) : before.leaseVersion = e.fence := by
  have hheld := h.held
  simp only [JobRow.heldBy, Bool.and_eq_true, decide_eq_true_eq] at hheld
  exact hheld.2

/-- A step keeps the copies current unless it claims the job of one of them. -/
theorem CopiesCurrent.step (h : CopiesCurrent q) (ha : ClaimsApart q a) (hs : Steps q a q') :
    CopiesCurrent q' := by
  refine ⟨hs.keyed h.ids, fun e' he' before after hw => ?_⟩
  rcases hs.executions he' with ⟨hclaimed, -⟩ | ⟨e, he, -, hid, hfence, hwriting⟩
  · rw [hclaimed] at hw
    cases hw
  -- the row had the fence of the copy before the step
  have hcurrent : before.id = e.jobId ∧ ∀ j ∈ q.jobs, j.id = e.jobId → j.leaseVersion ≤ e.fence := by
    rcases hwriting before after hw with hw | ⟨hleaves, -⟩
    · exact h.current e he before after hw
    · refine ⟨Table.find_key hleaves.read, fun j hj hid => ?_⟩
      rw [hleaves.unique h.ids hj hid, hleaves.fence]
  have hfree : ∀ job, a.takes q = some job → e.jobId ≠ job.id := by
    intro job hjob heq
    rcases hwriting before after hw with hw | ⟨-, hnone⟩
    · rw [claimsApart_iff.mp ha job hjob e he heq] at hw
      cases hw
    · rw [hnone] at hjob
      cases hjob
  rw [hid, hfence]
  refine ⟨hcurrent.1, fun j' hj' hj'id => ?_⟩
  rcases hs.rows h.ids hj' with ⟨⟨j, hj, hjid, hversion, -⟩, -⟩ | ⟨-, hzero, -⟩ | ⟨job, -, htakes,
      worker, now, heq⟩
  · rw [hversion]
    exact hcurrent.2 j hj (hjid.symm.trans hj'id)
  · rw [hzero]
    exact Nat.zero_le _
  · rw [heq] at hj'id
    exact (hfree job htakes hj'id.symm).elim

/-- While the copies are current, a superseded execution writes nothing. -/
theorem CopiesCurrent.keepsLease (h : CopiesCurrent q) : KeepsLease q a := by
  intro e hof j hj hid hfence
  obtain ⟨i, hi, he⟩ := Option.bind_eq_some_iff.mp hof
  have hfree : ∀ {k : Nat} {e' : Execution}, a.execution? = some k → q.executions[k]? = some e' →
      e' = e := by
    intro k e' hk he'
    rw [hi] at hk
    cases hk
    rw [he] at he'
    exact (Option.some.inj he').symm
  have hheld : j.heldBy e.worker e.fence = false := by
    simp only [JobRow.heldBy, Bool.and_eq_false_iff, decide_eq_false_iff_not]
    exact .inr (Nat.ne_of_gt hfence)
  have hs := Queue.next_steps q a
  generalize jobQueue.next q a = q' at hs ⊢
  cases hs with
  | stay => exact ⟨j, hj, rfl, rfl⟩
  | enqueue => cases hi
  | drop => cases hi
  | claim => cases hi
  | @renew k e' now he' =>
    obtain rfl := hfree rfl he'
    refine ⟨j, List.mem_map.mpr ⟨j, hj, ?_⟩, rfl, rfl⟩
    rw [Queue.renewedBy, if_neg]
    simp [Queue.renewable, hheld]
  | proceed => exact ⟨j, hj, rfl, rfl⟩
  | write hk _ he' hw =>
    obtain rfl := hfree hk he'
    have hle := (h.current _ (List.mem_of_getElem? he) _ _ hw).2 j hj hid
    omega
  | @complete k e' payload result he' =>
    obtain rfl := hfree rfl he'
    refine ⟨j, List.mem_map.mpr ⟨j, hj, ?_⟩, rfl, rfl⟩
    rw [Queue.completedBy, if_neg]
    simp [Queue.completable, hheld]
  | requestCancel => cases hi
  | cancel => cases hi

/-- In a run in which no claim of a job comes between the read and the write of an exit, no
superseded worker touches the row of its job. -/
theorem leases_kept (h : jobQueue.Along ClaimsApart .empty acts) :
    jobQueue.Along KeepsLease .empty acts := by
  refine (jobQueue.along_invariant (P := CopiesCurrent) copiesCurrent_empty h ?_).mono ?_
  · intro q a hq ha
    exact hq.step ha (Queue.next_steps q a)
  · intro q a hq
    exact hq.keepsLease

namespace Supplier

def remaster : DurableJob := ⟨"j1", "w1", "remaster_domain", [], .queued⟩

/-- The handler fails under the first claim, the exit reads the row, and a second claim comes before
the exit writes. -/
def overtaken : List JobAct := [.enqueue remaster 0, .claim "one" 0 [], .load 0,
  .fail 0 "KeyError", .recover 0, .claim "two" (leaseTime + 1) [], .record 0]

/-- A second claim comes while the handler runs under the first one. -/
def superseded : List JobAct := [.enqueue remaster 0, .claim "one" 0 [], .load 0,
  .claim "two" (leaseTime + 1) [], .handle 0 [], .renew 0 (leaseTime + 2), .complete 0, .recover 0]

end Supplier

open Supplier in
theorem leases_kept_superseded : jobQueue.Along KeepsLease .empty superseded := by
  have h : jobQueue.Along ClaimsApart .empty superseded := by decide +kernel
  exact leases_kept h

/-- The exit writes over the claim of the second worker. -/
theorem lease_overwritten : ¬ jobQueue.Along KeepsLease .empty Supplier.overtaken := by
  decide +kernel

end Recordlane
