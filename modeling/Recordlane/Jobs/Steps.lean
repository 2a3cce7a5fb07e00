import Recordlane.Jobs.Worker
import Recordlane.Library.Table

/-! What a step of the queue can do, to the executions and to the rows. -/
namespace Recordlane

variable {q q' : Queue} {a : JobAct} {i : Nat} {e e' : Execution} {j j' job before after : JobRow}

/-- Whether an execution has read a row and is about to write it under its primary key. -/
def Phase.writing : Phase → Option (JobRow × JobRow)
  | leaving before after | recovering before after => some (before, after)
  | _ => none

/-- Whether the job waits for a worker and none has it. -/
def JobRow.waiting (j : JobRow) : Bool := j.status = .queued || j.status = .retry

theorem JobRow.claimable_waiting {now : DateTime} (h : j.claimable now = true) :
    j.waiting ∨ j.status = .running := by
  simp only [JobRow.claimable, Bool.and_eq_true, Bool.or_eq_true] at h
  rcases h.1 with h | h
  · exact .inl (Bool.or_eq_true_iff.mpr h)
  · exact .inr (of_decide_eq_true h)

namespace JobAct

/-- The execution an act is a step of. -/
def execution? : JobAct → Option Nat
  | renew i _ | load i | leave i | handle i _ | fail i _ | complete i | recover i | record i
  | kill i => some i
  | _ => none

def executionOf (a : JobAct) (q : Queue) : Option Execution := a.execution?.bind (q.executions[·]?)

def heartbeat : JobAct → Bool
  | renew .. => true
  | _ => false

/-- The job that an act claims. -/
def takes (q : Queue) : JobAct → Option JobRow
  | claim _ now locked => (q.oldest? now locked).filter fun job => !job.cancelRequested
  | _ => none

/-- The copy of a row that an act writes back, as it was read and as it is now. -/
def writes (q : Queue) : JobAct → Option (JobRow × JobRow)
  | leave i | record i => q.executions[i]?.bind fun e => e.phase.writing
  | _ => none

theorem takes_claim {worker : String} {now : DateTime} {locked : List Id} {job : JobRow}
    (h : q.oldest? now locked = some job) (hc : job.cancelRequested = false) :
    (claim worker now locked).takes q = some job := by
  rw [takes, h, Option.filter_some, if_pos]
  simp [hc]

theorem takes_eq_none (h : a.execution? = some i) : a.takes q = none := by
  cases a <;> first | rfl | cases h

end JobAct

/-- A copy that an execution has read under its fence, and what it makes of it. -/
structure Leaves (q : Queue) (e : Execution) (before after : JobRow) : Prop where
  read : q.job? e.jobId = some before
  held : before.heldBy e.worker e.fence = true
  left : after = before.cancelled ∧ before.cancelRequested = true ∨ after = before.unknownKind ∨
    ∃ error, after = before.raised error

/-- How an execution goes on without a write. -/
inductive Proceeds (q : Queue) (e : Execution) : Execution → Prop
  | lost : Proceeds q e { e with lost := true }
  | started {job : JobRow} (h : q.job? e.jobId = some job) (hp : e.phase = .claimed) :
      Proceeds q e { e with started := true, phase := .handling job }
  | phase {p : Phase} (hw : p.writing = none) (hc : p ≠ .committed) (hclaimed : p ≠ .claimed) :
      Proceeds q e { e with phase := p }
  | leaves {p : Phase} {before after : JobRow} (hw : p.writing = some (before, after))
      (h : Leaves q e before after) : Proceeds q e { e with phase := p }

namespace Proceeds

theorem same (h : Proceeds q e e') :
    e'.worker = e.worker ∧ e'.jobId = e.jobId ∧ e'.fence = e.fence := by
  cases h <;> exact ⟨rfl, rfl, rfl⟩

theorem committed (h : Proceeds q e e') (hc : e'.phase = .committed) : e.phase = .committed := by
  cases h with
  | lost => exact hc
  | started => cases hc
  | phase _ hne _ => exact (hne hc).elim
  | leaves hw _ =>
    dsimp only at hc
    rw [hc] at hw
    cases hw

/-- A copy that is about to be written was so before, or has been read just now. -/
theorem writing (h : Proceeds q e e') (hw : e'.phase.writing = some (before, after)) :
    e.phase.writing = some (before, after) ∨ Leaves q e before after := by
  cases h with
  | lost => exact .inl hw
  | started => cases hw
  | phase hn _ _ =>
    dsimp only at hw
    rw [hn] at hw
    cases hw
  | leaves hw' hl =>
    dsimp only at hw
    rw [hw'] at hw
    cases hw
    exact .inr hl

end Proceeds

/-- What an act does where it can be taken. -/
inductive Steps (q : Queue) : JobAct → Queue → Prop
  | stay {a : JobAct} (ha : a.takes q = none) : Steps q a q
  | enqueue {job : DurableJob} {createdAt : DateTime} (h : ∀ j ∈ q.jobs, j.id ≠ job.id) :
      Steps q (.enqueue job createdAt) { q with jobs := q.jobs ++ [job.row createdAt] }
  | drop {worker : String} {now : DateTime} {locked : List Id} {job : JobRow}
      (h : q.oldest? now locked = some job) (hc : job.cancelRequested = true) :
      Steps q (.claim worker now locked) (q.modifyJob job.id JobRow.cancelled)
  | claim {worker : String} {now : DateTime} {locked : List Id} {job : JobRow}
      (h : q.oldest? now locked = some job) (hc : job.cancelRequested = false) :
      Steps q (.claim worker now locked)
        { q.modifyJob job.id (fun j => j.claimed worker now) with
          executions := q.executions ++
            [⟨worker, job.id, job.leaseVersion + 1, false, false, .claimed⟩] }
  | renew {i : Nat} {e : Execution} {now : DateTime} (he : q.executions[i]? = some e) :
      Steps q (.renew i now) { q with jobs := q.jobs.map (Queue.renewedBy e now) }
  | proceed {a : JobAct} {i : Nat} {e e' : Execution}
      (ha : a.execution? = some i) (he : q.executions[i]? = some e) (hp : Proceeds q e e') :
      Steps q a (q.setExecution i e')
  | write {a : JobAct} {i : Nat} {e : Execution} {before after : JobRow}
      (ha : a.execution? = some i) (hb : a.heartbeat = false) (he : q.executions[i]? = some e)
      (hw : e.phase.writing = some (before, after)) (hwrites : a.writes q = some (before, after)) :
      Steps q a ((q.update before after).setExecution i { e with phase := .over })
  | complete {i : Nat} {e : Execution} {payload result : Dict} (he : q.executions[i]? = some e)
      (h : ∃ j ∈ q.jobs, Queue.completable e j = true) :
      Steps q (.complete i)
        { q.setExecution i { e with phase := .committed } with
          jobs := q.jobs.map (Queue.completedBy e payload result) }
  | requestCancel {workspaceId jobId : Id} {job : JobRow} (hj : job ∈ q.jobs) :
      Steps q (.requestCancel workspaceId jobId) { q with cancellations := q.cancellations ++ [job] }
  | cancel {k : Nat} {job : JobRow} (h : q.cancellations[k]? = some job) :
      Steps q (.cancel k) { q.modifyJob job.id (fun j => { j with cancelRequested := true }) with
        cancellations := q.cancellations.eraseIdx k }

namespace Queue

theorem claim_steps {worker : String} {now : DateTime} {locked : List Id} :
    Steps q (.claim worker now locked) (q.claim worker now locked) := by
  unfold claim
  split
  · next h => exact .stay (by simp [JobAct.takes, h])
  · next job hjob =>
    split
    · next hc => exact .drop hjob hc
    · next hc => exact .claim hjob (by simpa using hc)

theorem renew_steps {now : DateTime} (he : q.executions[i]? = some e) :
    Steps q (.renew i now) (q.renew i e now) := by
  unfold renew
  split
  · exact .renew he
  · exact .proceed rfl he .lost

theorem load_steps (he : q.executions[i]? = some e) (hp : e.phase = .claimed) :
    Steps q (.load i) (q.load i e) := by
  unfold load
  split
  · exact .proceed rfl he (.phase rfl nofun nofun)
  · next job hjob =>
    split
    · exact .proceed rfl he (.phase rfl nofun nofun)
    · next hheld =>
      have hheld : job.heldBy e.worker e.fence = true := by simpa using hheld
      split
      · next hc => exact .proceed rfl he (.leaves rfl ⟨hjob, hheld, .inl ⟨rfl, hc⟩⟩)
      · split
        · exact .proceed rfl he (.leaves rfl ⟨hjob, hheld, .inr (.inl rfl)⟩)
        · exact .proceed rfl he (.started hjob hp)

theorem complete_steps {result : Dict} (he : q.executions[i]? = some e) :
    Steps q (.complete i) (q.complete i e job result) := by
  unfold complete
  split
  · exact .proceed rfl he (.phase rfl nofun nofun)
  · next h =>
    rw [Bool.or_eq_true, not_or, Bool.not_eq_true', Bool.not_eq_false, List.any_eq_true] at h
    exact .complete he h.2

theorem recover_steps {error : String} (he : q.executions[i]? = some e) :
    Steps q (.recover i) (q.recover i e error) := by
  unfold recover
  split
  · exact .proceed rfl he (.phase rfl nofun nofun)
  · next job hjob =>
    split
    · next hheld => exact .proceed rfl he (.leaves rfl ⟨hjob, hheld, .inr (.inr ⟨error, rfl⟩)⟩)
    · exact .proceed rfl he (.phase rfl nofun nofun)

theorem advance_steps {f : Execution → Option Queue} (ha : a.execution? = some i)
    (h : ∀ e q', q.executions[i]? = some e → f e = some q' → Steps q a q') :
    Steps q a ((q.advance i f).getD q) := by
  unfold advance
  cases he : q.executions[i]? with
  | none => exact .stay (JobAct.takes_eq_none ha)
  | some e =>
    cases hf : f e with
    | none =>
      rw [Option.bind_some, hf]
      exact .stay (JobAct.takes_eq_none ha)
    | some q' =>
      rw [Option.bind_some, hf]
      exact h e q' he hf

theorem next_steps (q : Queue) (a : JobAct) : Steps q a (jobQueue.next q a) := by
  change Steps q a ((q.step a).getD q)
  cases a with
  | enqueue job createdAt =>
    simp only [step]
    split
    · exact .stay rfl
    · next h => exact .enqueue (by simpa using h)
  | claim worker now locked => exact claim_steps
  | renew i now =>
    refine advance_steps rfl fun e q' he hf => ?_
    split at hf
    · cases hf
    · cases hf
      exact renew_steps he
  | load i =>
    refine advance_steps rfl fun e q' he hf => ?_
    split at hf
    · next hp =>
      cases hf
      exact load_steps he hp
    · cases hf
  | leave i =>
    refine advance_steps rfl fun e q' he hf => ?_
    split at hf
    · next hp =>
      cases hf
      exact .write rfl rfl he (by rw [hp]; rfl) (by rw [JobAct.writes, he, Option.bind_some, hp]; rfl)
    · cases hf
  | handle i result =>
    refine advance_steps rfl fun e q' he hf => ?_
    split at hf
    · cases hf
      exact .proceed rfl he (.phase rfl nofun nofun)
    · cases hf
  | fail i error =>
    refine advance_steps rfl fun e q' he hf => ?_
    split at hf <;> cases hf <;> exact .proceed rfl he (.phase rfl nofun nofun)
  | complete i =>
    refine advance_steps rfl fun e q' he hf => ?_
    split at hf
    · cases hf
      exact complete_steps he
    · cases hf
  | recover i =>
    refine advance_steps rfl fun e q' he hf => ?_
    split at hf
    · cases hf
      exact recover_steps he
    · cases hf
  | record i =>
    refine advance_steps rfl fun e q' he hf => ?_
    split at hf
    · next hp =>
      cases hf
      exact .write rfl rfl he (by rw [hp]; rfl) (by rw [JobAct.writes, he, Option.bind_some, hp]; rfl)
    · cases hf
  | kill i =>
    refine advance_steps rfl fun e q' he hf => ?_
    split at hf
    · cases hf
    · cases hf
    · cases hf
      exact .proceed rfl he (.phase rfl nofun nofun)
  | requestCancel workspaceId jobId =>
    change Steps q _ (q.requestCancel workspaceId jobId)
    unfold requestCancel
    split
    · exact .stay rfl
    · next job hjob =>
      split
      · exact .stay rfl
      · exact .requestCancel (List.mem_of_find?_eq_some hjob)
  | cancel k =>
    simp only [step]
    cases hk : q.cancellations[k]? with
    | none => exact .stay rfl
    | some job => exact .cancel hk

theorem oldest?_mem {now : DateTime} {locked : List Id} (h : q.oldest? now locked = some job) :
    job ∈ q.jobs ∧ job.claimable now = true := by
  have hmem := List.mem_of_mem_head? h
  rw [List.mem_insertionSort, List.mem_filter, Bool.and_eq_true] at hmem
  exact ⟨hmem.1, hmem.2.1⟩

end Queue

namespace Steps

/-- An execution of the queue is new, or goes on with its job and its fence. -/
theorem executions (h : Steps q a q') (he : e' ∈ q'.executions) :
    (e'.phase = .claimed ∧ ∃ job, a.takes q = some job ∧ e'.jobId = job.id ∧
      e'.fence = job.leaseVersion + 1 ∧ e'.started = false) ∨
    ∃ e ∈ q.executions, e'.worker = e.worker ∧ e'.jobId = e.jobId ∧ e'.fence = e.fence ∧
      ∀ before after, e'.phase.writing = some (before, after) →
        e.phase.writing = some (before, after) ∨ Leaves q e before after ∧ a.takes q = none := by
  have hsame : e' ∈ q.executions → ∃ e ∈ q.executions, e'.worker = e.worker ∧ e'.jobId = e.jobId ∧
      e'.fence = e.fence ∧ ∀ before after, e'.phase.writing = some (before, after) →
        e.phase.writing = some (before, after) ∨ Leaves q e before after ∧ a.takes q = none :=
    fun he => ⟨e', he, rfl, rfl, rfl, fun _ _ hw => .inl hw⟩
  cases h with
  | stay => exact .inr (hsame he)
  | enqueue => exact .inr (hsame he)
  | drop => exact .inr (hsame he)
  | @claim _ _ _ job hjob hc =>
    rcases List.mem_append.mp he with he | he
    · exact .inr (hsame he)
    · rw [List.mem_singleton.mp he]
      exact .inl ⟨rfl, job, JobAct.takes_claim hjob hc, rfl, rfl, rfl⟩
  | renew => exact .inr (hsame he)
  | @proceed _ i e e₁ ha hi hp =>
    rcases List.mem_or_eq_of_mem_set he with he | rfl
    · exact .inr (hsame he)
    · exact .inr ⟨e, List.mem_of_getElem? hi, hp.same.1, hp.same.2.1, hp.same.2.2,
        fun _ _ hw => (hp.writing hw).imp_right fun hl => ⟨hl, JobAct.takes_eq_none ha⟩⟩
  | @write _ i e _ _ _ _ hi =>
    rcases List.mem_or_eq_of_mem_set he with he | rfl
    · exact .inr (hsame he)
    · exact .inr ⟨e, List.mem_of_getElem? hi, rfl, rfl, rfl, fun _ _ hw => by cases hw⟩
  | @complete i e _ _ hi _ =>
    rcases List.mem_or_eq_of_mem_set he with he | rfl
    · exact .inr (hsame he)
    · exact .inr ⟨e, List.mem_of_getElem? hi, rfl, rfl, rfl, fun _ _ hw => by cases hw⟩
  | requestCancel => exact .inr (hsame he)
  | cancel => exact .inr (hsame he)

theorem jobIds (h : Steps q a q') : q'.jobs.map JobRow.id = q.jobs.map JobRow.id ∨
    ∃ job : DurableJob, ∃ createdAt, (∀ j ∈ q.jobs, j.id ≠ job.id) ∧
      q'.jobs = q.jobs ++ [job.row createdAt] := by
  cases h with
  | stay => exact .inl rfl
  | enqueue hn => exact .inr ⟨_, _, hn, rfl⟩
  | drop => exact .inl (Table.map_key_modify fun _ => rfl)
  | claim => exact .inl (Table.map_key_modify fun _ => rfl)
  | renew =>
    refine .inl ?_
    rw [List.map_map]
    refine List.map_congr_left fun j _ => ?_
    rw [Function.comp_apply, Queue.renewedBy]
    split <;> rfl
  | proceed => exact .inl rfl
  | write => exact .inl (Table.map_key_modify fun _ => rfl)
  | complete =>
    refine .inl ?_
    rw [List.map_map]
    refine List.map_congr_left fun j _ => ?_
    rw [Function.comp_apply, Queue.completedBy]
    split <;> rfl
  | requestCancel => exact .inl rfl
  | cancel => exact .inl (Table.map_key_modify fun _ => rfl)

theorem keyed (h : Steps q a q') (hk : Table.Keyed JobRow.id q.jobs) :
    Table.Keyed JobRow.id q'.jobs := by
  rcases h.jobIds with hids | ⟨job, createdAt, hn, hjobs⟩
  · rw [Table.Keyed, hids]
    exact hk
  · rw [hjobs]
    exact hk.append hn

/-- A row that an act does not claim keeps its fence and its attempts. -/
theorem rows (h : Steps q a q') (hk : Table.Keyed JobRow.id q.jobs) (hj : j' ∈ q'.jobs) :
    ((∃ j ∈ q.jobs, j'.id = j.id ∧ j'.leaseVersion = j.leaseVersion ∧ j'.attempts = j.attempts) ∧
      ∀ job, a.takes q = some job → j'.id ≠ job.id) ∨
    ((∀ j ∈ q.jobs, j.id ≠ j'.id) ∧ j'.leaseVersion = 0 ∧ j'.attempts = 0) ∨
    ∃ job ∈ q.jobs, a.takes q = some job ∧ ∃ worker now, j' = job.claimed worker now := by
  have hmodify : ∀ {id : Id} {f : JobRow → JobRow}, j' ∈ Table.modify JobRow.id q.jobs id f →
      (∀ j, (f j).id = j.id ∧ (f j).leaseVersion = j.leaseVersion ∧ (f j).attempts = j.attempts) →
      ∃ j ∈ q.jobs, j'.id = j.id ∧ j'.leaseVersion = j.leaseVersion ∧ j'.attempts = j.attempts := by
    intro id f hmem hf
    rcases Table.mem_modify.mp hmem with ⟨hold, -⟩ | ⟨j, hold, -, rfl⟩
    · exact ⟨j', hold, rfl, rfl, rfl⟩
    · exact ⟨j, hold, hf j⟩
  have hmap : ∀ {f : JobRow → JobRow}, j' ∈ q.jobs.map f →
      (∀ j, (f j).id = j.id ∧ (f j).leaseVersion = j.leaseVersion ∧ (f j).attempts = j.attempts) →
      ∃ j ∈ q.jobs, j'.id = j.id ∧ j'.leaseVersion = j.leaseVersion ∧ j'.attempts = j.attempts := by
    intro f hmem hf
    obtain ⟨j, hold, rfl⟩ := List.mem_map.mp hmem
    exact ⟨j, hold, hf j⟩
  have hfree : a.takes q = none → ∀ job, a.takes q = some job → j'.id ≠ job.id := by
    intro hnone job hjob
    rw [hnone] at hjob
    cases hjob
  cases h with
  | stay ha => exact .inl ⟨⟨j', hj, rfl, rfl, rfl⟩, hfree ha⟩
  | enqueue hn =>
    rcases List.mem_append.mp hj with hj | hj
    · exact .inl ⟨⟨j', hj, rfl, rfl, rfl⟩, hfree rfl⟩
    · rw [List.mem_singleton.mp hj]
      exact .inr (.inl ⟨hn, rfl, rfl⟩)
  | drop hjob hc =>
    refine .inl ⟨hmodify hj fun _ => ⟨rfl, rfl, rfl⟩, hfree ?_⟩
    simp [JobAct.takes, hjob, hc]
  | @claim worker now locked job hjob hc =>
    have hmem := (Queue.oldest?_mem hjob).1
    have htakes : (JobAct.claim worker now locked).takes q = some job := JobAct.takes_claim hjob hc
    rcases Table.mem_modify.mp hj with ⟨hold, hne⟩ | ⟨j, hold, hid, rfl⟩
    · refine .inl ⟨⟨j', hold, rfl, rfl, rfl⟩, fun job' hjob' => ?_⟩
      rw [htakes] at hjob'
      rwa [← Option.some.inj hjob']
    · obtain rfl := hk.eq_of_mem hold hmem hid
      exact .inr (.inr ⟨j, hold, htakes, worker, now, rfl⟩)
  | renew =>
    refine .inl ⟨hmap hj fun j => ?_, hfree rfl⟩
    rw [Queue.renewedBy]
    split <;> exact ⟨rfl, rfl, rfl⟩
  | proceed ha => exact .inl ⟨⟨j', hj, rfl, rfl, rfl⟩, hfree (JobAct.takes_eq_none ha)⟩
  | write ha =>
    exact .inl ⟨hmodify hj fun _ => ⟨rfl, rfl, rfl⟩, hfree (JobAct.takes_eq_none ha)⟩
  | complete =>
    refine .inl ⟨hmap hj fun j => ?_, hfree rfl⟩
    rw [Queue.completedBy]
    split <;> exact ⟨rfl, rfl, rfl⟩
  | requestCancel => exact .inl ⟨⟨j', hj, rfl, rfl, rfl⟩, hfree rfl⟩
  | cancel => exact .inl ⟨hmodify hj fun _ => ⟨rfl, rfl, rfl⟩, hfree rfl⟩

/-- A row that waits to be claimed waited before, is new, or a copy has been written over it. -/
theorem waits (h : Steps q a q') (hj : j' ∈ q'.jobs) (hw : j'.waiting) :
    (∃ j ∈ q.jobs, j.waiting ∧ j'.attempts = j.attempts) ∨ j'.attempts = 0 ∨
    ∃ before after, a.writes q = some (before, after) ∧ (∃ e ∈ q.executions,
      e.phase.writing = some (before, after)) ∧ after.waiting ∧
      ∃ j ∈ q.jobs, j.id = before.id ∧ j'.attempts = j.attempts := by
  cases h with
  | stay => exact .inl ⟨j', hj, hw, rfl⟩
  | enqueue =>
    rcases List.mem_append.mp hj with hj | hj
    · exact .inl ⟨j', hj, hw, rfl⟩
    · rw [List.mem_singleton.mp hj]
      exact .inr (.inl rfl)
  | drop =>
    rcases Table.mem_modify.mp hj with ⟨hold, -⟩ | ⟨j, -, -, rfl⟩
    · exact .inl ⟨j', hold, hw, rfl⟩
    · cases hw
  | claim =>
    rcases Table.mem_modify.mp hj with ⟨hold, -⟩ | ⟨j, -, -, rfl⟩
    · exact .inl ⟨j', hold, hw, rfl⟩
    · cases hw
  | @renew _ e now =>
    obtain ⟨j, hold, rfl⟩ := List.mem_map.mp hj
    have hkept : (Queue.renewedBy e now j).waiting = j.waiting ∧
        (Queue.renewedBy e now j).attempts = j.attempts := by
      unfold Queue.renewedBy
      split <;> exact ⟨rfl, rfl⟩
    exact .inl ⟨j, hold, hkept.1 ▸ hw, hkept.2⟩
  | proceed => exact .inl ⟨j', hj, hw, rfl⟩
  | write _ _ he hcopy hwrites =>
    rcases Table.mem_modify.mp hj with ⟨hold, -⟩ | ⟨j, hold, hid, rfl⟩
    · exact .inl ⟨j', hold, hw, rfl⟩
    · unfold JobRow.waiting JobRow.flush at hw
      dsimp only at hw
      split at hw
      · exact .inl ⟨j, hold, hw, rfl⟩
      · exact .inr (.inr ⟨_, _, hwrites, ⟨_, List.mem_of_getElem? he, hcopy⟩, hw, j, hold, hid, rfl⟩)
  | @complete i e payload result =>
    obtain ⟨j, hold, rfl⟩ := List.mem_map.mp hj
    by_cases hc : Queue.completable e j
    · rw [Queue.completedBy, if_pos hc] at hw
      cases hw
    · rw [Queue.completedBy, if_neg hc] at hw ⊢
      exact .inl ⟨j, hold, hw, rfl⟩
  | requestCancel => exact .inl ⟨j', hj, hw, rfl⟩
  | cancel =>
    rcases Table.mem_modify.mp hj with ⟨hold, -⟩ | ⟨j, hold, -, rfl⟩
    · exact .inl ⟨j', hold, hw, rfl⟩
    · exact .inl ⟨j, hold, hw, rfl⟩

/-- The jobs of the executions are those there were, and that of a claim. -/
theorem executionIds (h : Steps q a q') : q'.executions.map Execution.jobId =
    q.executions.map Execution.jobId ++ ((a.takes q).map JobRow.id).toList := by
  have hset : ∀ {i : Nat} {e e' : Execution}, q.executions[i]? = some e → e'.jobId = e.jobId →
      (q.executions.set i e').map Execution.jobId = q.executions.map Execution.jobId := by
    intro i e e' he hid
    obtain ⟨hlt, rfl⟩ := List.getElem?_eq_some_iff.mp he
    have hlt' : i < (q.executions.map Execution.jobId).length := by simpa using hlt
    rw [List.map_set, hid, ← List.getElem_map Execution.jobId (h := hlt'), List.set_getElem_self]
  cases h with
  | stay ha => simp [ha]
  | enqueue => simp [JobAct.takes]
  | drop hjob hc => simp [JobAct.takes, hjob, hc, Queue.modifyJob]
  | claim hjob hc => simp [JobAct.takes_claim hjob hc]
  | renew => simp [JobAct.takes]
  | proceed ha he hp =>
    rw [JobAct.takes_eq_none ha, Option.map_none, Option.toList_none, List.append_nil]
    exact hset he hp.same.2.1
  | write ha _ he =>
    rw [JobAct.takes_eq_none ha, Option.map_none, Option.toList_none, List.append_nil]
    exact hset he rfl
  | complete he =>
    rw [JobAct.takes_eq_none rfl, Option.map_none, Option.toList_none, List.append_nil]
    exact hset he rfl
  | requestCancel => simp [JobAct.takes]
  | cancel => simp [JobAct.takes, Queue.modifyJob]

theorem job_stays (h : Steps q a q') (hj : j ∈ q.jobs) : ∃ j' ∈ q'.jobs, j'.id = j.id := by
  rw [← List.mem_map (f := JobRow.id)]
  rcases h.jobIds with hids | ⟨job, createdAt, -, hjobs⟩
  · rw [hids]
    exact List.mem_map_of_mem hj
  · rw [hjobs, List.map_append]
    exact List.mem_append_left _ (List.mem_map_of_mem hj)

/-- A cancellation that has yet to write was so before, or has read its row just now. -/
theorem cancellations (h : Steps q a q') (hj : job ∈ q'.cancellations) :
    job ∈ q.cancellations ∨ job ∈ q.jobs := by
  cases h with
  | requestCancel hjob =>
    rcases List.mem_append.mp hj with hj | hj
    · exact .inl hj
    · rw [List.mem_singleton.mp hj]
      exact .inr hjob
  | cancel => exact .inl (List.mem_of_mem_eraseIdx hj)
  | _ => exact .inl hj

end Steps

end Recordlane
