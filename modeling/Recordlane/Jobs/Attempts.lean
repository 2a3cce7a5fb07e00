import Recordlane.Jobs.Overwrites

/-! How often the handler of a job is started. -/
namespace Recordlane

variable {q q' : Queue} {a : JobAct} {acts : List JobAct} {e : Execution} {j : JobRow}

/-- The executions that started the handler of a job. -/
def Queue.starts (q : Queue) (id : Id) : Nat :=
  (q.executions.filter fun e => e.jobId = id && e.started).length

/-- The job of a last attempt is not taken over while it is running, its worker having been killed or its
lease lost, and no failure of an earlier attempt is written over it. -/
def KeepsLastAttempts (q : Queue) (a : JobAct) : Prop :=
  (∀ job ∈ a.takes q, job.status = .running → job.attempts < maxAttempts) ∧
    ∀ p ∈ a.writes q, p.2.status = .retry → ∀ j ∈ q.jobs, j.id = p.1.id → p.1.attempts < j.attempts →
      j.attempts < maxAttempts

instance : Decidable (KeepsLastAttempts q a) :=
  inferInstanceAs (Decidable ((∀ job ∈ a.takes q, job.status = .running → job.attempts < maxAttempts) ∧
    ∀ p ∈ a.writes q, p.2.status = .retry → ∀ j ∈ q.jobs, j.id = p.1.id → p.1.attempts < j.attempts →
      j.attempts < maxAttempts))

/-- A job has as many attempts as executions. -/
structure Counted (q : Queue) : Prop where
  ids : Table.Keyed JobRow.id q.jobs
  known : ∀ id ∈ q.executions.map Execution.jobId, ∃ j ∈ q.jobs, j.id = id
  counted : ∀ j ∈ q.jobs, (q.executions.map Execution.jobId).count j.id = j.attempts

theorem counted_empty : Counted .empty := by
  constructor <;> simp [Queue.empty, Table.Keyed]

theorem JobAct.takes_mem {job : JobRow} (h : a.takes q = some job) :
    job ∈ q.jobs ∧ ∃ now, job.claimable now = true := by
  cases a with
  | claim worker now locked =>
    obtain ⟨hmem, hclaimable⟩ := Queue.oldest?_mem (Option.filter_eq_some_iff.mp h).1
    exact ⟨hmem, now, hclaimable⟩
  | _ => cases h

theorem Counted.step (h : Counted q) (hs : Steps q a q') : Counted q' := by
  have hexecutions := hs.executionIds
  refine ⟨hs.keyed h.ids, fun id hid => ?_, fun j' hj' => ?_⟩
  · rw [hexecutions, List.mem_append] at hid
    rcases hid with hid | hid
    · obtain ⟨j, hj, rfl⟩ := h.known id hid
      exact hs.job_stays hj
    · rw [Option.mem_toList, Option.map_eq_some_iff] at hid
      obtain ⟨job, hjob, rfl⟩ := hid
      exact hs.job_stays (JobAct.takes_mem hjob).1
  · have huntaken : (∀ job, a.takes q = some job → job.id ≠ j'.id) →
        ((a.takes q).map JobRow.id).toList.count j'.id = 0 := by
      intro hne
      rw [List.count_eq_zero, Option.mem_toList, Option.map_eq_some_iff]
      rintro ⟨job, hjob, heq⟩
      exact hne job hjob heq
    rw [hexecutions, List.count_append]
    rcases hs.rows h.ids hj' with ⟨⟨j, hj, hid, -, hattempts⟩, hfree⟩ | ⟨hnew, -, hattempts⟩ |
      ⟨job, hjob, htakes, worker, now, heq⟩
    · rw [huntaken fun job hjob => (hfree job hjob).symm, hid, hattempts]
      exact h.counted j hj
    · -- the executions there are belong to rows that were there
      have hnone : (q.executions.map Execution.jobId).count j'.id = 0 := by
        rw [List.count_eq_zero]
        intro hmem
        obtain ⟨j, hj, hid⟩ := h.known _ hmem
        exact hnew j hj hid
      rw [hnone, huntaken fun job hjob => hnew job (JobAct.takes_mem hjob).1, hattempts]
    · rw [htakes, heq]
      change _ + [job.id].count job.id = job.attempts + 1
      rw [List.count_singleton_self, show (job.claimed worker now).id = job.id from rfl,
        h.counted job hjob]

/-- A copy that is to be tried again has been read before the last attempt, and is not ahead of its row. -/
structure Retriable (q : Queue) (before after : JobRow) : Prop where
  status : after.waiting → after.status = .retry ∧ before.attempts < maxAttempts
  known : ∃ j ∈ q.jobs, j.id = before.id
  behind : ∀ j ∈ q.jobs, j.id = before.id → before.attempts ≤ j.attempts

/-- Jobs stay within `MAX_ATTEMPTS`, and those that wait to be claimed below it. -/
structure Attempted (q : Queue) : Prop where
  counted : Counted q
  within : ∀ j ∈ q.jobs, j.attempts ≤ maxAttempts
  waiting : ∀ j ∈ q.jobs, j.waiting → j.attempts < maxAttempts
  copies : ∀ e ∈ q.executions, ∀ before after, e.phase.writing = some (before, after) →
    Retriable q before after

theorem attempted_empty : Attempted .empty :=
  ⟨counted_empty, by simp [Queue.empty], by simp [Queue.empty], by simp [Queue.empty]⟩

/-- What an exit makes of the row it has read is to be tried again only before the last attempt. -/
theorem Leaves.retriable (h : Leaves q e before after) (hk : Table.Keyed JobRow.id q.jobs) :
    Retriable q before after := by
  have hread : q.job? e.jobId = some before := h.read
  refine ⟨fun hw => ?_, ⟨before, Table.find_mem hread, rfl⟩, fun j hj hid => ?_⟩
  · rcases h.left with ⟨rfl, -⟩ | rfl | ⟨error, rfl⟩
    · cases hw
    · cases hw
    · unfold JobRow.raised JobRow.waiting at hw
      unfold JobRow.raised
      dsimp only at hw ⊢
      split at hw
      · cases hw
      · next hmax => exact ⟨if_neg hmax, not_le.mp hmax⟩
  · rw [h.unique hk hj (hid.trans (Table.find_key hread))]

theorem attempts_mono (hs : Steps q a q') (hk : Table.Keyed JobRow.id q.jobs) (hj : j ∈ q'.jobs)
    (hold : ∃ j₀ ∈ q.jobs, j₀.id = j.id) : ∃ j₀ ∈ q.jobs, j₀.id = j.id ∧ j₀.attempts ≤ j.attempts := by
  rcases hs.rows hk hj with ⟨⟨j₀, hj₀, hid, -, hattempts⟩, -⟩ | ⟨hnew, -⟩ | ⟨job, hjob, -, worker, now, heq⟩
  · exact ⟨j₀, hj₀, hid.symm, hattempts.ge⟩
  · obtain ⟨j₀, hj₀, hid⟩ := hold
    exact (hnew j₀ hj₀ hid).elim
  · rw [heq]
    exact ⟨job, hjob, rfl, Nat.le_succ _⟩

theorem Attempted.step (h : Attempted q) (hs : Steps q a q') (ha : KeepsLastAttempts q a) :
    Attempted q' := by
  have hk := h.counted.ids
  refine ⟨h.counted.step hs, fun j' hj' => ?_, fun j' hj' hw => ?_, fun e' he' before after hw => ?_⟩
  · rcases hs.rows hk hj' with ⟨⟨j, hj, -, -, hattempts⟩, -⟩ | ⟨-, -, hattempts⟩ |
      ⟨job, hjob, htakes, worker, now, heq⟩
    · rw [hattempts]
      exact h.within j hj
    · rw [hattempts]
      exact Nat.zero_le _
    · -- the job that is claimed was waiting, or its lease had run out
      rw [heq]
      obtain ⟨-, now', hclaimable⟩ := JobAct.takes_mem htakes
      rcases JobRow.claimable_waiting hclaimable with hwaiting | hrunning
      · exact h.waiting job hjob hwaiting
      · exact ha.1 job htakes hrunning
  · rcases hs.waits hj' hw with ⟨j, hj, hwaiting, hattempts⟩ | hzero |
      ⟨before, after, hwrites, ⟨e, he, hcopy⟩, hwaiting, j, hj, hid, hattempts⟩
    · rw [hattempts]
      exact h.waiting j hj hwaiting
    · rw [hzero]
      decide
    · -- the failure was recorded before the last attempt, and no claim was in between or this one was not
      -- the last either
      have hcopied := h.copies e he before after hcopy
      obtain ⟨hretry, hbelow⟩ := hcopied.status hwaiting
      rw [hattempts]
      rcases (hcopied.behind j hj hid).eq_or_lt with heq | hlt
      · rw [← heq]
        exact hbelow
      · exact ha.2 (before, after) hwrites hretry j hj hid hlt
  · have hcopied : Retriable q before after := by
      rcases hs.executions he' with ⟨hclaimed, -⟩ | ⟨e, he, -, -, -, hwriting⟩
      · rw [hclaimed] at hw
        cases hw
      · rcases hwriting before after hw with hold | ⟨hleaves, -⟩
        · exact h.copies e he before after hold
        · exact hleaves.retriable hk
    refine ⟨hcopied.status, ?_, fun j hj hid => ?_⟩
    · obtain ⟨j, hj, hid⟩ := hcopied.known
      obtain ⟨j', hj', hid'⟩ := hs.job_stays hj
      exact ⟨j', hj', hid'.trans hid⟩
    obtain ⟨j₀, hj₀, hid₀, hle⟩ := attempts_mono hs hk hj (hid ▸ hcopied.known)
    exact (hcopied.behind j₀ hj₀ (hid₀.trans hid)).trans hle

/-- In a run in which no last attempt is taken over or written over, no handler of a job is started more
than `MAX_ATTEMPTS` times. -/
theorem starts_bounded (h : jobQueue.Along KeepsLastAttempts .empty acts) (id : Id) :
    (jobQueue.run .empty acts).starts id ≤ maxAttempts := by
  have hrun : Attempted (jobQueue.run .empty acts) :=
    jobQueue.run_invariant attempted_empty h fun _ _ hq ha => hq.step (Queue.next_steps _ _) ha
  obtain ⟨hcounted, hattempts, -, -⟩ := hrun
  generalize jobQueue.run .empty acts = q at hcounted hattempts
  have hstarts : q.starts id ≤ (q.executions.map Execution.jobId).count id := by
    unfold Queue.starts
    rw [List.count_eq_countP, List.countP_map, List.countP_eq_length_filter]
    refine List.Sublist.length_le (List.monotone_filter_right _ ?_)
    intro e he
    simp only [Bool.and_eq_true, decide_eq_true_eq] at he
    simp [he.1]
  refine hstarts.trans ?_
  by_cases hmem : id ∈ q.executions.map Execution.jobId
  · obtain ⟨j, hj, rfl⟩ := hcounted.known id hmem
    rw [hcounted.counted j hj]
    exact hattempts j hj
  · rw [List.count_eq_zero_of_not_mem hmem]
    exact Nat.zero_le _

namespace Supplier

/-- Readings of a clock, each after the lease of the one before. -/
def expiries (n : Nat) : List DateTime := (List.range n).map fun k => k * (leaseTime + 1)

/-- The first worker is killed; four more find the handler raising. What comes then finds no job. -/
def failedAtLast : List JobAct :=
  .enqueue remaster 0 :: [.claim "one" 0 [], .load 0, .kill 0] ++
    ((expiries 6).tail.zipIdx 1).flatMap fun p =>
      [.claim "two" p.1 [], .load p.2, .fail p.2 "ValueError", .recover p.2, .record p.2]

/-- A worker starts the handler and is killed, as often as the list has times. -/
def killedAt (times : List DateTime) : List JobAct :=
  .enqueue remaster 0 :: times.zipIdx.flatMap fun p => [.claim "one" p.1 [], .load p.2, .kill p.2]

end Supplier

open Supplier in
theorem starts_bounded_five : (jobQueue.run .empty failedAtLast).starts "j1" ≤ maxAttempts := by
  have h : jobQueue.Along KeepsLastAttempts .empty failedAtLast := by decide +kernel
  exact starts_bounded h "j1"

/-- A job whose workers are killed is started a sixth time. -/
theorem starts_exceed : ¬ ∀ (acts : List JobAct) (id : Id),
    (jobQueue.run .empty acts).starts id ≤ maxAttempts := by
  intro h
  have hfive := h (Supplier.killedAt (Supplier.expiries 6)) "j1"
  have hsix : (jobQueue.run .empty (Supplier.killedAt (Supplier.expiries 6))).starts "j1" = 6 := by
    decide +kernel
  rw [hsix] at hfive
  exact absurd hfive (by decide)

end Recordlane
