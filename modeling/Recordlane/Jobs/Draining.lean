import Mathlib
import Recordlane.Jobs.Fencing
import Recordlane.Library.Agreement

/-! The queue after crashes: workers that are not killed any more finish every job. -/
namespace Recordlane

variable {q q' : Queue} {i : Nat} {e : Execution} {j j' j'' job : JobRow} {rows : List JobRow}

/-- A call of `run_once` that nobody kills, and what the handler does if it is called. -/
structure Turn where
  worker : String
  now : DateTime
  outcome : Except String Dict

/-- The steps of the call, as the execution of this place. Those that its course does not come to cannot
be taken. -/
def Turn.acts (turn : Turn) (i : Nat) : List JobAct :=
  [.claim turn.worker turn.now [], .load i, .leave i] ++
    (match turn.outcome with
    | .ok result => [.handle i result, .complete i]
    | .error error => [.fail i error]) ++
    [.recover i, .record i]

def Queue.takeTurn (q : Queue) (turn : Turn) : Queue := jobQueue.run q (turn.acts q.executions.length)

/-- What a call makes of the job it has claimed. -/
def JobRow.finished (job : JobRow) (outcome : Except String Dict) : JobRow :=
  if !handlers.contains job.kind then job.unknownKind
  else
    match outcome with
    | .ok result => job.completed job.payload result
    | .error error => job.raised error

/-- What a call makes of the job it comes upon. -/
def JobRow.turned (j : JobRow) (turn : Turn) : JobRow :=
  if j.cancelRequested then j.cancelled else (j.claimed turn.worker turn.now).finished turn.outcome

theorem next_nowhere {a : JobAct} (ha : a.execution? = some i) (hi : q.executions[i]? = none) :
    jobQueue.next q a = q := by
  cases a <;> cases ha <;> simp only [jobQueue, System.next, Queue.step, Queue.advance, hi, Option.bind_none,
    Option.getD_none]

theorem run_nowhere {acts : List JobAct} (ha : ∀ a ∈ acts, a.execution? = some i)
    (hi : q.executions[i]? = none) : jobQueue.run q acts = q := by
  induction acts with
  | nil => rfl
  | cons a acts ih =>
    rw [System.run_cons, next_nowhere (ha a List.mem_cons_self) hi]
    exact ih fun b hb => ha b (List.mem_cons_of_mem _ hb)

theorem flush_self (h : j' = { j with
      status := j'.status
      leaseOwner := j'.leaseOwner
      leaseExpiresAt := j'.leaseExpiresAt
      lastError := j'.lastError }) : j.flush j' j = j' := by
  have hkeep {α : Type} [DecidableEq α] (x y : α) : (if x = y then y else x) = x := by
    split
    · next heq => exact heq.symm
    · rfl
  rw [JobRow.flush, hkeep, hkeep, hkeep, hkeep]
  exact h.symm

/-- The queue with a further execution. -/
def Queue.working (q : Queue) (rows : List JobRow) (e : Execution) : Queue :=
  ⟨rows, q.executions ++ [e], q.cancellations⟩

@[simp] theorem working_executions :
    (q.working rows e).executions[q.executions.length]? = some e := List.getElem?_concat_length

@[simp] theorem working_set {e' : Execution} :
    (q.working rows e).setExecution q.executions.length e' = q.working rows e' := by
  simp [Queue.working, Queue.setExecution]

theorem run_over {acts : List JobAct}
    (ha : ∀ a ∈ acts, a.execution? = some q.executions.length ∧ a.heartbeat = false)
    (hp : e.phase = .over ∨ e.phase = .committed) :
    jobQueue.run (q.working rows e) acts = q.working rows e := by
  have hnext : ∀ a : JobAct, a.execution? = some q.executions.length → a.heartbeat = false →
      jobQueue.next (q.working rows e) a = q.working rows e := by
    intro a ha hb
    cases a <;> cases ha <;> cases hb <;> rcases hp with hp | hp <;>
      simp only [jobQueue, System.next, Queue.step, Queue.advance, working_executions, Option.bind_some, hp,
        Option.getD_none]
  induction acts with
  | nil => rfl
  | cons a acts ih =>
    rw [System.run_cons, hnext a (ha a List.mem_cons_self).1 (ha a List.mem_cons_self).2]
    exact ih fun b hb => ha b (List.mem_cons_of_mem _ hb)

theorem Turn.acts_place (turn : Turn) :
    ∀ a ∈ (turn.acts i).tail, a.execution? = some i ∧ a.heartbeat = false := by
  intro a ha
  unfold Turn.acts at ha
  cases houtcome : turn.outcome <;> rw [houtcome] at ha <;>
    simp only [List.cons_append, List.nil_append, List.tail_cons, List.mem_cons, List.not_mem_nil,
      or_false] at ha
  · rcases ha with rfl | rfl | rfl | rfl | rfl <;> exact ⟨rfl, rfl⟩
  · rcases ha with rfl | rfl | rfl | rfl | rfl | rfl <;> exact ⟨rfl, rfl⟩

theorem next_load (hp : e.phase = .claimed) (hfound : Table.find JobRow.id rows e.jobId = some job)
    (hheld : job.heldBy e.worker e.fence = true) (hcancel : job.cancelRequested = false) :
    jobQueue.next (q.working rows e) (.load q.executions.length) = q.working rows
      (if handlers.contains job.kind then { e with started := true, phase := .handling job }
      else { e with phase := .leaving job job.unknownKind }) := by
  have hfound' : (q.working rows e).job? e.jobId = some job := hfound
  simp only [jobQueue, System.next, Queue.step, Queue.advance, working_executions, Option.bind_some, hp,
    Queue.load, hfound', hheld, hcancel]
  cases handlers.contains job.kind <;> simp

theorem next_write {a : JobAct} (hp : a = .leave q.executions.length ∧ e.phase = .leaving job j ∨
      a = .record q.executions.length ∧ e.phase = .recovering job j) :
    jobQueue.next (q.working rows e) a =
      q.working (Table.modify JobRow.id rows job.id (job.flush j)) { e with phase := .over } := by
  rcases hp with ⟨rfl, hp⟩ | ⟨rfl, hp⟩ <;>
    simp only [jobQueue, System.next, Queue.step, Queue.advance, working_executions, Option.bind_some, hp] <;>
    exact working_set

theorem next_complete {result : Dict} (hp : e.phase = .handled job result) (hl : e.lost = false)
    (hany : rows.any (Queue.completable e) = true) :
    jobQueue.next (q.working rows e) (.complete q.executions.length) =
      q.working (rows.map (Queue.completedBy e job.payload result)) { e with phase := .committed } := by
  have hany' : (q.working rows e).jobs.any (Queue.completable e) = true := hany
  simp only [jobQueue, System.next, Queue.step, Queue.advance, working_executions, Option.bind_some, hp,
    Queue.complete, hl, hany', Bool.not_true, Bool.or_false, Bool.false_eq_true, if_false, working_set]
  rfl

theorem next_recover {error : String} (hp : e.phase = .raised error)
    (hfound : Table.find JobRow.id rows e.jobId = some job) (hheld : job.heldBy e.worker e.fence = true) :
    jobQueue.next (q.working rows e) (.recover q.executions.length) =
      q.working rows { e with phase := .recovering job (job.raised error) } := by
  have hfound' : (q.working rows e).job? e.jobId = some job := hfound
  simp only [jobQueue, System.next, Queue.step, Queue.advance, working_executions, Option.bind_some, hp,
    Queue.recover, hfound', hheld, if_true, working_set]
  rfl

theorem map_completedBy {result : Dict} (hk : Table.Keyed JobRow.id rows) (hj : job ∈ rows)
    (hid : job.id = e.jobId) (hheld : job.heldBy e.worker e.fence = true)
    (hcancel : job.cancelRequested = false) : rows.map (Queue.completedBy e job.payload result) =
      Table.modify JobRow.id rows job.id fun j => j.completed job.payload result := by
  refine List.map_congr_left fun j hmem => ?_
  by_cases heq : j.id = job.id
  · obtain rfl := hk.eq_of_mem hmem hj heq
    simp [Queue.completedBy, Queue.completable, hid, hheld, hcancel]
  · have hne : j.id ≠ e.jobId := hid ▸ heq
    simp [Queue.completedBy, Queue.completable, hne, heq]

/-- An execution whose claim stands finishes with its job, whatever the handler does. -/
theorem run_working {turn : Turn} (hp : e.phase = .claimed) (hl : e.lost = false)
    (hk : Table.Keyed JobRow.id rows) (hj : job ∈ rows) (hid : job.id = e.jobId)
    (hheld : job.heldBy e.worker e.fence = true) (hcancel : job.cancelRequested = false) :
    (jobQueue.run (q.working rows e) (turn.acts q.executions.length).tail).jobs =
      Table.modify JobRow.id rows job.id fun j => j.finished turn.outcome := by
  have hfound : Table.find JobRow.id rows e.jobId = some job := hid ▸ hk.find_of_mem hj
  have hload := next_load (q := q) hp hfound hheld hcancel
  have hrest : ∀ a ∈ (turn.acts q.executions.length).tail.tail,
      a.execution? = some q.executions.length ∧ a.heartbeat = false := fun a ha =>
    turn.acts_place a (List.mem_of_mem_tail ha)
  have hacts : (turn.acts q.executions.length).tail =
    .load q.executions.length :: (turn.acts q.executions.length).tail.tail := rfl
  rw [hacts, System.run_cons, hload]
  cases hkind : handlers.contains job.kind with
  | false =>
    have hleave : (turn.acts q.executions.length).tail.tail =
      .leave q.executions.length :: (turn.acts q.executions.length).tail.tail.tail := rfl
    rw [hleave, System.run_cons]
    simp only [Bool.false_eq_true, if_false]
    rw [next_write (.inl ⟨rfl, rfl⟩),
      run_over (fun a ha => hrest a (List.mem_of_mem_tail ha)) (.inl rfl)]
    have hfinished : job.finished turn.outcome = job.unknownKind := by
      unfold JobRow.finished
      rw [hkind]
      rfl
    exact hk.modify_congr hj ((flush_self rfl).trans hfinished.symm)
  | true =>
    simp only [if_true]
    have hstay : ∀ e' : Execution, e'.phase = .handling job →
        jobQueue.next (q.working rows e') (.leave q.executions.length) = q.working rows e' := by
      intro e' hp'
      simp [jobQueue, System.next, Queue.step, Queue.advance, hp']
    cases houtcome : turn.outcome with
    | ok result =>
      have hacts : (turn.acts q.executions.length).tail.tail = [.leave q.executions.length,
          .handle q.executions.length result, .complete q.executions.length, .recover q.executions.length,
          .record q.executions.length] := by
        rw [Turn.acts, houtcome]
        rfl
      have hfinished : job.finished (.ok result) = job.completed job.payload result := by
        rw [JobRow.finished, hkind]
        rfl
      have hhandle : jobQueue.next (q.working rows { e with started := true, phase := .handling job })
          (.handle q.executions.length result) =
            q.working rows { e with started := true, phase := .handled job result } := by
        simp [jobQueue, System.next, Queue.step, Queue.advance]
      have hany : rows.any (Queue.completable { e with started := true, phase := .handled job result }) =
          true := by
        rw [List.any_eq_true]
        refine ⟨job, hj, ?_⟩
        simp [Queue.completable, hid, hheld, hcancel]
      rw [hacts] at hrest ⊢
      rw [System.run_cons, hstay _ rfl, System.run_cons, hhandle, System.run_cons,
        next_complete (e := { e with started := true, phase := .handled job result }) rfl hl hany,
        run_over (fun a ha => hrest a (by simp at ha ⊢; tauto)) (.inr rfl)]
      refine (map_completedBy hk hj hid hheld hcancel).trans (hk.modify_congr hj ?_)
      exact hfinished.symm
    | error error =>
      have hacts : (turn.acts q.executions.length).tail.tail = [.leave q.executions.length,
          .fail q.executions.length error, .recover q.executions.length, .record q.executions.length] := by
        rw [Turn.acts, houtcome]
        rfl
      have hfinished : job.finished (.error error) = job.raised error := by
        rw [JobRow.finished, hkind]
        rfl
      have hfail : jobQueue.next (q.working rows { e with started := true, phase := .handling job })
          (.fail q.executions.length error) =
            q.working rows { e with started := true, phase := .raised error } := by
        simp [jobQueue, System.next, Queue.step, Queue.advance]
      rw [hacts, System.run_cons, hstay _ rfl, System.run_cons, hfail, System.run_cons,
        next_recover (e := { e with started := true, phase := .raised error }) rfl hfound hheld,
        System.run_cons, next_write (.inr ⟨rfl, rfl⟩), System.run_nil]
      exact hk.modify_congr hj ((flush_self rfl).trans hfinished.symm)

/-- A call claims the oldest job that it may, and finishes with it. -/
theorem takeTurn_jobs (hk : Table.Keyed JobRow.id q.jobs) (turn : Turn) : (q.takeTurn turn).jobs =
    match q.oldest? turn.now [] with
    | none => q.jobs
    | some job => Table.modify JobRow.id q.jobs job.id fun j => j.turned turn := by
  have hrest := turn.acts_place (i := q.executions.length)
  have hrun : q.takeTurn turn = jobQueue.run (q.claim turn.worker turn.now [])
    (turn.acts q.executions.length).tail := rfl
  cases holdest : q.oldest? turn.now [] with
  | none =>
    have hclaim : q.claim turn.worker turn.now [] = q := by rw [Queue.claim, holdest]
    rw [hrun, hclaim, run_nowhere (fun a ha => (hrest a ha).1) (by simp)]
  | some job =>
    have hj : job ∈ q.jobs := (Queue.oldest?_mem holdest).1
    cases hcancel : job.cancelRequested with
    | true =>
      have hclaim : q.claim turn.worker turn.now [] = q.modifyJob job.id JobRow.cancelled := by
        rw [Queue.claim, holdest]
        simp [hcancel]
      rw [hrun, hclaim, run_nowhere (fun a ha => (hrest a ha).1) (by simp [Queue.modifyJob])]
      exact hk.modify_congr hj (by rw [JobRow.turned, if_pos hcancel])
    | false =>
      let claimed := job.claimed turn.worker turn.now
      let rows := Table.modify JobRow.id q.jobs job.id fun j => j.claimed turn.worker turn.now
      let e : Execution := ⟨turn.worker, job.id, job.leaseVersion + 1, false, false, .claimed⟩
      have hclaim : q.claim turn.worker turn.now [] = q.working rows e := by
        rw [Queue.claim, holdest]
        simp only [hcancel, Bool.false_eq_true, if_false]
        rfl
      have hrows : Table.Keyed JobRow.id rows := hk.map fun j _ => by split <;> rfl
      have hclaimed : claimed ∈ rows := Table.mem_modify.mpr (.inr ⟨job, hj, rfl, rfl⟩)
      have hheld : claimed.heldBy e.worker e.fence = true := by
        simp [JobRow.heldBy, claimed, JobRow.claimed, e]
      have hfinish : (Table.modify JobRow.id rows job.id fun j => j.finished turn.outcome) =
          Table.modify JobRow.id q.jobs job.id fun j =>
            (j.claimed turn.worker turn.now).finished turn.outcome :=
        Table.modify_modify fun _ => rfl
      rw [hrun, hclaim, run_working rfl rfl hrows hclaimed rfl hheld hcancel]
      refine hfinish.trans (hk.modify_congr hj ?_)
      rw [JobRow.turned, hcancel]
      rfl

/-- How many calls may still come upon a job. -/
def JobRow.remaining (j : JobRow) : Nat :=
  if j.status.terminal then 0 else max 1 (maxAttempts - j.attempts)

/-- How many calls find something to do. -/
def Queue.remaining (q : Queue) : Nat := (q.jobs.map JobRow.remaining).sum

/-- What calls that nobody kills make of a job. -/
structure Drains (j j' : JobRow) : Prop where
  id : j'.id = j.id
  workspaceId : j'.workspaceId = j.workspaceId
  kind : j'.kind = j.kind
  createdAt : j'.createdAt = j.createdAt
  cancelRequested : j'.cancelRequested = j.cancelRequested
  lease : j'.leaseExpiresAt = j.leaseExpiresAt ∨ j'.leaseExpiresAt = none
  attempts : j.attempts ≤ j'.attempts
  ended : j.status.terminal = true → j' = j
  dropped : j.cancelRequested = true → j' = j ∨ j'.status = .cancelled
  cancelled : j'.status = .cancelled → j.status = .cancelled ∨ j.cancelRequested = true
  failed : j'.status = .failed → j.status = .failed ∨ j.kind ∉ handlers ∨ maxAttempts ≤ j'.attempts

namespace Drains

theorem refl (j : JobRow) : Drains j j :=
  ⟨rfl, rfl, rfl, rfl, rfl, .inl rfl, le_rfl, fun _ => rfl, fun _ => .inl rfl, .inl, .inl⟩

theorem trans (h : Drains j j') (h' : Drains j' j'') : Drains j j'' where
  id := h'.id.trans h.id
  workspaceId := h'.workspaceId.trans h.workspaceId
  kind := h'.kind.trans h.kind
  createdAt := h'.createdAt.trans h.createdAt
  cancelRequested := h'.cancelRequested.trans h.cancelRequested
  lease := by
    rcases h'.lease with hl | hl
    · rw [hl]
      exact h.lease
    · exact .inr hl
  attempts := h.attempts.trans h'.attempts
  ended ht := by
    have hsame := h.ended ht
    rw [← hsame] at ht
    exact (h'.ended ht).trans hsame
  dropped hc := by
    rcases h.dropped hc with hsame | hcancelled
    · exact hsame ▸ h'.dropped (hsame ▸ hc)
    · have ht : j'.status.terminal = true := by rw [hcancelled]; rfl
      exact .inr (h'.ended ht ▸ hcancelled)
  cancelled hs := by
    rcases h'.cancelled hs with hs | hc
    · exact h.cancelled hs
    · exact .inr (h.cancelRequested ▸ hc)
  failed hs := by
    rcases h'.failed hs with hs | hkind | hattempts
    · rcases h.failed hs with hs | hkind | hattempts
      · exact .inl hs
      · exact .inr (.inl hkind)
      · exact .inr (.inr (hattempts.trans h'.attempts))
    · exact .inr (.inl (h.kind ▸ hkind))
    · exact .inr (.inr hattempts)

end Drains

theorem remaining_of_terminal (h : j.status.terminal = true) : j.remaining = 0 := if_pos h

theorem remaining_pos (h : j.status.terminal = false) : 0 < j.remaining := by
  rw [JobRow.remaining, if_neg (by simp [h])]
  exact le_max_left 1 _

/-- A call leaves a job that it claimed for another one, or for good. -/
theorem finished_drains {outcome : Except String Dict} {worker : String} {now : DateTime}
    (hj : j.status.terminal = false) (hcancel : j.cancelRequested = false) :
    Drains j ((j.claimed worker now).finished outcome) ∧
      ((j.claimed worker now).finished outcome).remaining < j.remaining := by
  have hended : j.status.terminal = true → (j.claimed worker now).finished outcome = j := fun ht => by
    rw [hj] at ht
    cases ht
  have hdropped {j' : JobRow} : j.cancelRequested = true → j' = j ∨ j'.status = .cancelled := fun hc => by
    rw [hcancel] at hc
    cases hc
  unfold JobRow.finished at hended ⊢
  have hsame : (j.claimed worker now).kind = j.kind := rfl
  rw [hsame] at hended ⊢
  by_cases hkind : (!handlers.contains j.kind) = true
  · rw [if_pos hkind] at hended ⊢
    have hunknown : j.kind ∉ handlers := by simpa using hkind
    exact ⟨⟨rfl, rfl, rfl, rfl, rfl, .inr rfl, Nat.le_succ _, hended, hdropped, fun hs => (by cases hs),
      fun _ => .inr (.inl hunknown)⟩, remaining_pos hj⟩
  · rw [if_neg hkind] at hended ⊢
    cases outcome with
    | ok result =>
      exact ⟨⟨rfl, rfl, rfl, rfl, rfl, .inr rfl, Nat.le_succ _, hended, hdropped, fun hs => (by cases hs),
        fun hs => (by cases hs)⟩, remaining_pos hj⟩
    | error error =>
      by_cases hlast : j.attempts + 1 ≥ maxAttempts
      · have hstatus : ((j.claimed worker now).raised error).status = .failed := if_pos hlast
        refine ⟨⟨rfl, rfl, rfl, rfl, rfl, .inr rfl, Nat.le_succ _, hended, hdropped, fun hs => ?_,
          fun _ => .inr (.inr hlast)⟩, ?_⟩
        · rw [hstatus] at hs
          cases hs
        · exact remaining_of_terminal (by rw [hstatus]; rfl) ▸ remaining_pos hj
      · have hstatus : ((j.claimed worker now).raised error).status = .retry := if_neg hlast
        refine ⟨⟨rfl, rfl, rfl, rfl, rfl, .inr rfl, Nat.le_succ _, hended, hdropped, fun hs => ?_,
          fun hs => ?_⟩, ?_⟩
        · rw [hstatus] at hs
          cases hs
        · rw [hstatus] at hs
          cases hs
        · -- the job is left for a later call, which has one attempt less
          have hattempts : ((j.claimed worker now).raised error).attempts = j.attempts + 1 := rfl
          rw [JobRow.remaining, JobRow.remaining, hstatus, hattempts, hj]
          simp only [QueueStatus.terminal, Bool.false_eq_true, if_false]
          omega

theorem turned_drains (turn : Turn) (hj : j.status.terminal = false) :
    Drains j (j.turned turn) ∧ (j.turned turn).remaining < j.remaining := by
  cases hcancel : j.cancelRequested with
  | false =>
    rw [JobRow.turned, hcancel]
    exact finished_drains hj hcancel
  | true =>
    have hturned : j.turned turn = j.cancelled := if_pos hcancel
    rw [hturned]
    refine ⟨⟨rfl, rfl, rfl, rfl, rfl, .inr rfl, le_rfl, fun ht => ?_, fun _ => .inr rfl,
      fun _ => .inr hcancel, fun hs => (by cases hs)⟩, remaining_pos hj⟩
    rw [hj] at ht
    cases ht

theorem claimable_of_late {now : DateTime} (hj : j.status.terminal = false)
    (hlate : ∀ expiry ∈ j.leaseExpiresAt, expiry < now) : j.claimable now = true := by
  have hstatus : (j.status = .queued ∨ j.status = .retry) ∨ j.status = .running := by
    cases hs : j.status <;> simp_all [QueueStatus.terminal]
  rw [JobRow.claimable]
  cases hlease : j.leaseExpiresAt with
  | none => simpa using hstatus
  | some expiry => simpa [hlate expiry hlease] using hstatus

/-- A call drains the queue, and finds nothing to do only if nothing is left. -/
theorem takeTurn_drains (hk : Table.Keyed JobRow.id q.jobs) {turn : Turn}
    (hlate : ∀ j ∈ q.jobs, ∀ expiry ∈ j.leaseExpiresAt, expiry < turn.now) :
    List.Forall₂ Drains q.jobs (q.takeTurn turn).jobs ∧ (q.takeTurn turn).remaining ≤ q.remaining - 1 := by
  have hjobs := takeTurn_jobs hk turn
  cases holdest : q.oldest? turn.now [] with
  | none =>
    have hnone : ∀ j ∈ q.jobs, j.status.terminal = true := by
      intro j hj
      by_contra hopen
      have hclaimable := claimable_of_late (Bool.eq_false_iff.mpr hopen) (hlate j hj)
      rw [Queue.oldest?, List.head?_eq_none_iff] at holdest
      have hmem : j ∈ (q.jobs.filter fun j => j.claimable turn.now && !([] : List Id).contains j.id) := by
        simp [hj, hclaimable]
      rw [← List.mem_insertionSort (fun a b : JobRow => a.createdAt ≤ b.createdAt), holdest] at hmem
      cases hmem
    have hzero : q.remaining = 0 := by
      rw [Queue.remaining, List.sum_eq_zero]
      intro n hn
      obtain ⟨j, hj, rfl⟩ := List.mem_map.mp hn
      exact remaining_of_terminal (hnone j hj)
    rw [holdest] at hjobs
    rw [Queue.remaining, hjobs, ← Queue.remaining, hzero]
    exact ⟨List.forall₂_same.mpr fun j _ => .refl j, le_rfl⟩
  | some job =>
    obtain ⟨hj, hclaimable⟩ := Queue.oldest?_mem holdest
    have hopen := JobRow.claimable_status hclaimable
    rw [holdest] at hjobs
    have hrow : ∀ j ∈ q.jobs, Drains j (if j.id = job.id then j.turned turn else j) ∧
        (if j.id = job.id then j.turned turn else j).remaining ≤ j.remaining := by
      intro j hmem
      by_cases hid : j.id = job.id
      · obtain rfl := hk.eq_of_mem hmem hj hid
        rw [if_pos rfl]
        exact ⟨(turned_drains turn hopen).1, (turned_drains turn hopen).2.le⟩
      · rw [if_neg hid]
        exact ⟨.refl j, le_rfl⟩
    constructor
    · unfold Table.modify at hjobs
      rw [hjobs, List.forall₂_map_right_iff]
      exact List.forall₂_same.mpr fun j hmem => (hrow j hmem).1
    · have hlt : (q.takeTurn turn).remaining < q.remaining := by
        unfold Table.modify at hjobs
        rw [Queue.remaining, hjobs, List.map_map]
        refine List.sum_lt_sum _ _ (fun j hmem => (hrow j hmem).2) ⟨job, hj, ?_⟩
        rw [Function.comp_apply, if_pos rfl]
        exact (turned_drains turn hopen).2
      omega

theorem Drains.ids {rows' : List JobRow} (h : List.Forall₂ Drains rows rows') :
    rows'.map JobRow.id = rows.map JobRow.id := by
  rw [← List.forall₂_eq_eq_eq, List.forall₂_map_left_iff, List.forall₂_map_right_iff]
  exact h.flip.imp fun _ _ hrow => hrow.id

/-- Calls one after the other drain the queue, each of them by one at least. -/
theorem takeTurns_drain {turns : List Turn} (hk : Table.Keyed JobRow.id q.jobs)
    (hlate : ∀ turn ∈ turns, ∀ j ∈ q.jobs, ∀ expiry ∈ j.leaseExpiresAt, expiry < turn.now) :
    List.Forall₂ Drains q.jobs (turns.foldl Queue.takeTurn q).jobs ∧
      (turns.foldl Queue.takeTurn q).remaining ≤ q.remaining - turns.length := by
  induction turns generalizing q with
  | nil => exact ⟨List.forall₂_same.mpr fun j _ => .refl j, le_rfl⟩
  | cons turn turns ih =>
    obtain ⟨hdrains, hfewer⟩ := takeTurn_drains hk (hlate turn List.mem_cons_self)
    have hkeyed : Table.Keyed JobRow.id (q.takeTurn turn).jobs := by
      rw [Table.Keyed, Drains.ids hdrains]
      exact hk
    have hleases : ∀ later ∈ turns, ∀ j ∈ (q.takeTurn turn).jobs, ∀ expiry ∈ j.leaseExpiresAt,
        expiry < later.now := by
      intro later hlater j' hj' expiry hexpiry
      obtain ⟨j, hj, hrow⟩ := (Except.forall₂_mem hdrains).1 j' hj'
      rcases hrow.lease with hlease | hlease
      · exact hlate later (List.mem_cons_of_mem _ hlater) j hj expiry (hlease ▸ hexpiry)
      · rw [hlease] at hexpiry
        cases hexpiry
    obtain ⟨hrest, hnone⟩ := ih hkeyed hleases
    refine ⟨hdrains.trans (S := Drains) (T := Drains) (fun _ _ _ h h' => h.trans h') hrest, ?_⟩
    rw [List.foldl_cons, List.length_cons]
    omega

/-- What is left of a job when the queue has been drained. -/
structure Drained (j j' : JobRow) : Prop where
  ended : j'.status.terminal = true
  kept : j.status.terminal = true → j' = j
  cancelled : j.status.terminal = false → (j'.status = .cancelled ↔ j.cancelRequested = true)
  failed : j'.status = .failed → j.status = .failed ∨ j.kind ∉ handlers ∨ maxAttempts ≤ j'.attempts

theorem Drains.drained (h : Drains j j') (hended : j'.status.terminal = true) : Drained j j' where
  ended := hended
  kept := h.ended
  cancelled hopen := by
    constructor
    · intro hs
      rcases h.cancelled hs with hs | hc
      · rw [hs] at hopen
        cases hopen
      · exact hc
    · intro hc
      rcases h.dropped hc with rfl | hs
      · rw [hended] at hopen
        cases hopen
      · exact hs
  failed := h.failed

/-- The queue recovers: whatever workers, crashes and cancellations have left behind, once the leases
have run out and nobody kills workers any more, so many calls of `run_once` end every job. -/
theorem queue_drains (acts : List JobAct) {turns : List Turn}
    (hlate : ∀ turn ∈ turns, ∀ j ∈ (jobQueue.run .empty acts).jobs, ∀ expiry ∈ j.leaseExpiresAt,
      expiry < turn.now)
    (hlong : (jobQueue.run .empty acts).remaining ≤ turns.length) :
    List.Forall₂ Drained (jobQueue.run .empty acts).jobs
      (turns.foldl Queue.takeTurn (jobQueue.run .empty acts)).jobs := by
  have hk : Table.Keyed JobRow.id (jobQueue.run .empty acts).jobs := by
    have hempty : Table.Keyed JobRow.id Queue.empty.jobs := List.nodup_nil
    refine jobQueue.run_invariant (P := fun q => Table.Keyed JobRow.id q.jobs) hempty
      (jobQueue.along_of_forall (Φ := fun _ _ => True) (fun _ _ => trivial) acts) fun q a hq _ => ?_
    exact (Queue.next_steps q a).keyed hq
  obtain ⟨hdrains, hnone⟩ := takeTurns_drain hk hlate
  have hended : ∀ j' ∈ (turns.foldl Queue.takeTurn (jobQueue.run .empty acts)).jobs,
      j'.status.terminal = true := by
    intro j' hj'
    by_contra hopen
    have hpos := remaining_pos (Bool.eq_false_iff.mpr hopen)
    have hle : j'.remaining ≤ (turns.foldl Queue.takeTurn (jobQueue.run .empty acts)).remaining :=
      List.single_le_sum (fun _ _ => Nat.zero_le _) _ (List.mem_map_of_mem hj')
    omega
  have hmem := List.forall₂_iff_zip.mp hdrains
  refine List.forall₂_iff_zip.mpr ⟨hmem.1, fun hzip => ?_⟩
  exact (hmem.2 hzip).drained (hended _ (List.of_mem_zip hzip).2)

namespace Supplier

/-- Calls after the leases of the killed workers: the handler raises twice before it returns. -/
def restarts : List Turn :=
  [⟨"two", 3 * leaseTime, .error "OperationalError"⟩, ⟨"two", 4 * leaseTime, .error "OperationalError"⟩,
    ⟨"two", 5 * leaseTime, .ok []⟩]

end Supplier

open Supplier in
theorem queue_drains_killed :
    List.Forall₂ Drained (jobQueue.run .empty (killedAt (expiries 2))).jobs
      (restarts.foldl Queue.takeTurn (jobQueue.run .empty (killedAt (expiries 2)))).jobs :=
  queue_drains (killedAt (expiries 2)) (by decide +kernel) (by decide +kernel)

end Recordlane
