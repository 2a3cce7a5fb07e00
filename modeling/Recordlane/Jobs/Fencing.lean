import Recordlane.Jobs.Attempts

/-! Fences: the effects of a job are committed at most once, under its current fence, and neither
after a cancellation nor after its end. -/
namespace Recordlane

variable {q q' : Queue} {a : JobAct} {acts first rest : List JobAct} {i k : Nat}
  {e e' : Execution} {j j' before after : JobRow}

/-- Between the read and the write of an exit comes no other act, heartbeats apart. -/
def ExitsAtomic (q : Queue) (a : JobAct) : Prop :=
  ∀ p ∈ q.executions.zipIdx, p.1.phase.writing.isSome →
    a.execution? = some p.2 ∨ a.heartbeat = true

instance : Decidable (ExitsAtomic q a) :=
  inferInstanceAs (Decidable (∀ p ∈ q.executions.zipIdx, p.1.phase.writing.isSome →
    a.execution? = some p.2 ∨ a.heartbeat = true))

theorem ExitsAtomic.execution (h : ExitsAtomic q a) (he : q.executions[i]? = some e)
    (hw : e.phase.writing = some (before, after)) (hb : a.heartbeat = false) :
    a.execution? = some i := by
  rcases h (e, i) (List.mk_mem_zipIdx_iff_getElem?.mpr he) (by simp [hw]) with hi | hb'
  · exact hi
  · rw [hb] at hb'
    cases hb'

/-- What a step may do to the status and the owner of a row. -/
inductive RowStep (j j' : JobRow) : Prop
  | kept (hs : j'.status = j.status) (ho : j'.leaseOwner = j.leaseOwner)
  | claimed {now : DateTime} (hc : j.claimable now = true) (hs : j'.status = .running)
  | dropped {now : DateTime} (hc : j.claimable now = true) (ho : j'.leaseOwner = none)
  | released (hj : j.leaseOwner.isSome) (ho : j'.leaseOwner = none)

/-- A copy that is about to be written: its row is still leased to whom it was. -/
structure Exits (q : Queue) (e : Execution) (before after : JobRow) : Prop where
  id : before.id = e.jobId
  owner : before.leaseOwner.isSome
  released : after.leaseOwner = none
  row : ∀ j ∈ q.jobs, j.id = e.jobId → j.leaseOwner = before.leaseOwner

/-- A leased job is running, and a job whose handler's transaction has been committed is complete. -/
structure Leased (q : Queue) : Prop where
  ids : Table.Keyed JobRow.id q.jobs
  owned : ∀ j ∈ q.jobs, j.leaseOwner.isSome → j.status = .running
  exits : ∀ (i : Nat) e, q.executions[i]? = some e → ∀ before after,
    e.phase.writing = some (before, after) → Exits q e before after
  known : ∀ (i : Nat) e, q.executions[i]? = some e → ∃ j ∈ q.jobs, j.id = e.jobId
  committed : ∀ (i : Nat) e, q.executions[i]? = some e → e.phase = .committed →
    ∀ j ∈ q.jobs, j.id = e.jobId → j.status = .complete
  once : ∀ (i k : Nat) e e', q.executions[i]? = some e → q.executions[k]? = some e' →
    e.phase = .committed → e'.phase = .committed → e.jobId = e'.jobId → i = k
  requested : ∀ job ∈ q.cancellations, ∃ j ∈ q.jobs, j.id = job.id

theorem leased_empty : Leased .empty := by
  constructor <;> simp [Queue.empty, Table.Keyed]

theorem JobRow.claimable_status {now : DateTime} (h : j.claimable now = true) :
    j.status.terminal = false := by
  simp only [JobRow.claimable, Bool.and_eq_true, Bool.or_eq_true, decide_eq_true_eq] at h
  rcases h.1 with (h | h) | h <;> rw [h] <;> rfl

theorem Leaves.exits (h : Leaves q e before after) (hk : Table.Keyed JobRow.id q.jobs) :
    Exits q e before after := by
  have hheld := h.held
  simp only [JobRow.heldBy, Bool.and_eq_true, decide_eq_true_eq] at hheld
  refine ⟨Table.find_key h.read, by simp [hheld.1], ?_, fun j hj hid => by rw [h.unique hk hj hid]⟩
  rcases h.left with ⟨rfl, -⟩ | rfl | ⟨error, rfl⟩ <;> rfl

theorem getElem?_setExecution (h : (q.setExecution i e').executions[k]? = some e) :
    (k = i ∧ e = e') ∨ (k ≠ i ∧ q.executions[k]? = some e) := by
  by_cases hk : i = k
  · subst hk
    rw [Queue.setExecution, List.getElem?_set_self'] at h
    obtain ⟨x, -, hx⟩ := Option.map_eq_some_iff.mp h
    exact .inl ⟨rfl, hx.symm⟩
  · rw [Queue.setExecution, List.getElem?_set_ne hk] at h
    exact .inr ⟨Ne.symm hk, h⟩

theorem getElem?_concat {α : Type} {xs : List α} {x y : α} (h : (xs ++ [x])[k]? = some y) :
    xs[k]? = some y ∨ k = xs.length ∧ y = x := by
  rcases Nat.lt_or_ge k xs.length with hk | hk
  · rw [List.getElem?_append_left hk] at h
    exact .inl h
  · rw [List.getElem?_append_right hk, List.getElem?_singleton] at h
    split at h
    · cases h
      exact .inr ⟨by omega, rfl⟩
    · cases h

/-- A row is found again after a step. A leased row is released, if at all, to the end. -/
theorem Leased.row (h : Leased q) (hs : Steps q a q') (hj : j ∈ q.jobs) :
    ∃ j' ∈ q'.jobs, j'.id = j.id ∧ RowStep j j' ∧ (j.cancelRequested → j'.cancelRequested) := by
  have hsame : j ∈ q.jobs → ∃ j' ∈ q.jobs, j'.id = j.id ∧ RowStep j j' ∧
      (j.cancelRequested → j'.cancelRequested) := fun hj => ⟨j, hj, rfl, .kept rfl rfl, id⟩
  have hmodify : ∀ {id : Id} {f : JobRow → JobRow}, (f j).id = j.id →
      (j.id = id → RowStep j (f j)) → (j.cancelRequested → (f j).cancelRequested) →
      ∃ j' ∈ Table.modify JobRow.id q.jobs id f, j'.id = j.id ∧ RowStep j j' ∧
        (j.cancelRequested → j'.cancelRequested) := by
    intro id f hid hstep hc
    refine ⟨_, Table.mem_modify_of_mem hj, ?_⟩
    split
    · next heq => exact ⟨hid, hstep heq, hc⟩
    · exact ⟨rfl, .kept rfl rfl, fun h => h⟩
  cases hs with
  | stay => exact hsame hj
  | enqueue => exact ⟨j, List.mem_append_left _ hj, rfl, .kept rfl rfl, id⟩
  | drop hjob _ =>
    obtain ⟨hmem, hclaimable⟩ := Queue.oldest?_mem hjob
    refine hmodify rfl (fun hid => ?_) fun hc => hc
    rw [h.ids.eq_of_mem hj hmem hid]
    exact .dropped hclaimable rfl
  | claim hjob _ =>
    obtain ⟨hmem, hclaimable⟩ := Queue.oldest?_mem hjob
    refine hmodify rfl (fun hid => ?_) fun hc => hc
    rw [h.ids.eq_of_mem hj hmem hid]
    exact .claimed hclaimable rfl
  | renew =>
    refine ⟨_, List.mem_map_of_mem hj, ?_⟩
    rw [Queue.renewedBy]
    split <;> exact ⟨rfl, .kept rfl rfl, id⟩
  | proceed => exact hsame hj
  | @write _ i e before after _ _ he hw =>
    have hexits := h.exits i e he before after hw
    refine hmodify rfl (fun hid => ?_) fun hc => hc
    have howner := hexits.row j hj (hid.trans hexits.id)
    have hne : after.leaseOwner ≠ before.leaseOwner := by
      intro heq
      have hsome := hexits.owner
      rw [← heq, hexits.released] at hsome
      cases hsome
    refine .released (howner ▸ hexits.owner) ?_
    change (if after.leaseOwner = before.leaseOwner then j.leaseOwner else after.leaseOwner) = none
    rw [if_neg hne, hexits.released]
  | @complete i e payload result he hc =>
    refine ⟨_, List.mem_map_of_mem hj, ?_⟩
    rw [Queue.completedBy]
    split
    · next hc =>
      simp only [Queue.completable, JobRow.heldBy, Bool.and_eq_true, decide_eq_true_eq] at hc
      exact ⟨rfl, .released (by simp [hc.1.2.1]) rfl, id⟩
    · exact ⟨rfl, .kept rfl rfl, id⟩
  | requestCancel => exact hsame hj
  | cancel => exact hmodify rfl (fun _ => .kept rfl rfl) fun _ => rfl

/-- A row after a step was there before, or is new. -/
theorem Leased.row_back (h : Leased q) (hs : Steps q a q') (hj : j' ∈ q'.jobs) :
    (∃ j ∈ q.jobs, j'.id = j.id ∧ RowStep j j') ∨
      (∀ j ∈ q.jobs, j.id ≠ j'.id) ∧ j'.leaseOwner = none := by
  by_cases hold : ∃ j ∈ q.jobs, j.id = j'.id
  · obtain ⟨j, hjm, hid⟩ := hold
    obtain ⟨j'', hj'', hid', hstep, -⟩ := h.row hs hjm
    obtain rfl := (hs.keyed h.ids).eq_of_mem hj'' hj (hid'.trans hid)
    exact .inl ⟨j, hjm, hid', hstep⟩
  · simp only [not_exists, not_and] at hold
    refine .inr ⟨hold, ?_⟩
    rcases hs.jobIds with hids | ⟨job, createdAt, -, hjobs⟩
    · have hmem : j'.id ∈ q'.jobs.map JobRow.id := List.mem_map_of_mem hj
      rw [hids] at hmem
      obtain ⟨j, hjm, hid⟩ := List.mem_map.mp hmem
      exact (hold j hjm hid).elim
    · rw [hjobs, List.mem_append, List.mem_singleton] at hj
      rcases hj with hj | rfl
      · exact (hold j' hj rfl).elim
      · rfl

theorem RowStep.terminal (h : RowStep j j') (hrun : j.leaseOwner.isSome → j.status = .running)
    (ht : j.status.terminal = true) : j'.status = j.status := by
  cases h with
  | kept hs _ => exact hs
  | claimed hc _ | dropped hc _ =>
    rw [JobRow.claimable_status hc] at ht
    cases ht
  | released hj _ =>
    rw [hrun hj] at ht
    cases ht

/-- An execution that was not about to write, and is now, has just read. -/
theorem Steps.exits (h : Leased q) (ha : ExitsAtomic q a) (hs : Steps q a q')
    (he : q'.executions[i]? = some e) (hw : e.phase.writing = some (before, after)) :
    Exits q' e before after := by
  have hold : q.executions[i]? = some e → Exits q e before after := fun he =>
    h.exits i e he before after hw
  -- no other execution is about to write while one is
  have hone : ∀ {k : Nat}, q.executions[i]? = some e → a.execution? = some k →
      a.heartbeat = false → i = k := by
    intro k he hk hb
    have hi := ha.execution he hw hb
    rw [hk] at hi
    exact (Option.some.inj hi).symm
  have hnone : q.executions[i]? = some e → a.execution? = none → a.heartbeat = false →
      Exits q' e before after := by
    intro he hn hb
    have hi := ha.execution he hw hb
    rw [hn] at hi
    cases hi
  cases hs with
  | stay => exact hold he
  | enqueue => exact hnone he rfl rfl
  | drop => exact hnone he rfl rfl
  | claim =>
    rcases getElem?_concat he with he | ⟨-, rfl⟩
    · exact hnone he rfl rfl
    · cases hw
  | renew =>
    obtain ⟨hid, howner, hreleased, hrow⟩ := hold he
    refine ⟨hid, howner, hreleased, fun j hj hjid => ?_⟩
    obtain ⟨j, hjm, rfl⟩ := List.mem_map.mp hj
    unfold Queue.renewedBy at hjid ⊢
    split at hjid <;> split <;> exact hrow j hjm hjid
  | @proceed _ k e₀ e₁ hk he₀ hp =>
    rcases getElem?_setExecution he with ⟨rfl, rfl⟩ | ⟨-, he⟩
    · rcases hp.writing hw with hw | hleaves
      · have hexits := h.exits _ e₀ he₀ before after hw
        exact ⟨hexits.id.trans hp.same.2.1.symm, hexits.owner, hexits.released,
          fun j hj hid => hexits.row j hj (hid.trans hp.same.2.1)⟩
      · have hexits := hleaves.exits h.ids
        exact ⟨hexits.id.trans hp.same.2.1.symm, hexits.owner, hexits.released,
          fun j hj hid => hexits.row j hj (hid.trans hp.same.2.1)⟩
    · obtain ⟨hid, howner, hreleased, hrow⟩ := hold he
      exact ⟨hid, howner, hreleased, hrow⟩
  | write hk hb _ _ =>
    rcases getElem?_setExecution he with ⟨rfl, rfl⟩ | ⟨hne, he⟩
    · cases hw
    · exact (hne (hone he hk hb)).elim
  | complete he₀ hc =>
    rcases getElem?_setExecution he with ⟨rfl, rfl⟩ | ⟨hne, he⟩
    · cases hw
    · exact (hne (hone he rfl rfl)).elim
  | requestCancel => exact hnone he rfl rfl
  | cancel => exact hnone he rfl rfl

/-- An execution that has committed had done so before, or has completed its job just now. -/
theorem Steps.committed (hs : Steps q a q') (he : q'.executions[i]? = some e)
    (hc : e.phase = .committed) :
    (∃ e₀, q.executions[i]? = some e₀ ∧ e₀.phase = .committed ∧ e₀.jobId = e.jobId) ∨
    a = .complete i ∧ ∃ e₀ payload result, q.executions[i]? = some e₀ ∧
      e = { e₀ with phase := .committed } ∧ (∃ j ∈ q.jobs, Queue.completable e₀ j = true) ∧
      q'.jobs = q.jobs.map (Queue.completedBy e₀ payload result) := by
  have hold : q.executions[i]? = some e →
      ∃ e₀, q.executions[i]? = some e₀ ∧ e₀.phase = .committed ∧ e₀.jobId = e.jobId :=
    fun he => ⟨e, he, hc, rfl⟩
  cases hs with
  | stay => exact .inl (hold he)
  | enqueue => exact .inl (hold he)
  | drop => exact .inl (hold he)
  | claim =>
    rcases getElem?_concat he with he | ⟨-, rfl⟩
    · exact .inl (hold he)
    · cases hc
  | renew => exact .inl (hold he)
  | @proceed _ k e₀ e₁ hk he₀ hp =>
    rcases getElem?_setExecution he with ⟨rfl, rfl⟩ | ⟨-, he⟩
    · exact .inl ⟨e₀, he₀, hp.committed hc, hp.same.2.1.symm⟩
    · exact .inl (hold he)
  | write =>
    rcases getElem?_setExecution he with ⟨rfl, rfl⟩ | ⟨-, he⟩
    · cases hc
    · exact .inl (hold he)
  | complete he₀ hcompletable =>
    rcases getElem?_setExecution he with ⟨rfl, rfl⟩ | ⟨-, he⟩
    · exact .inr ⟨rfl, _, _, _, he₀, rfl, hcompletable, rfl⟩
    · exact .inl (hold he)
  | requestCancel => exact .inl (hold he)
  | cancel => exact .inl (hold he)

theorem completable_iff : Queue.completable e j = true ↔ j.id = e.jobId ∧
    j.leaseOwner = some e.worker ∧ j.leaseVersion = e.fence ∧ j.cancelRequested = false := by
  simp [Queue.completable, JobRow.heldBy, and_assoc]

/-- The job of a committed execution cannot be completed again. -/
theorem Leased.not_completable (h : Leased q) (he : q.executions[i]? = some e)
    (hc : e.phase = .committed) (hj : j ∈ q.jobs) (hid : e.jobId = e'.jobId) :
    ¬ Queue.completable e' j = true := by
  intro hcompletable
  obtain ⟨hjid, howner, -, -⟩ := completable_iff.mp hcompletable
  have hcomplete := h.committed i e he hc j hj (hjid.trans hid.symm)
  rw [h.owned j hj (by simp [howner])] at hcomplete
  cases hcomplete

theorem Leased.step (h : Leased q) (ha : ExitsAtomic q a) (hs : Steps q a q') : Leased q' := by
  refine ⟨hs.keyed h.ids, fun j' hj' howner => ?_,
    fun i e he before after hw => hs.exits h ha he hw, fun i e he => ?_,
    fun i e he hc j' hj' hid => ?_, fun i k e e' he he' hc hc' hid => ?_, fun job hjob => ?_⟩
  · rcases h.row_back hs hj' with ⟨j, hj, -, hrow⟩ | ⟨-, hnone⟩
    · cases hrow with
      | kept hs ho => exact hs.trans (h.owned j hj (ho ▸ howner))
      | claimed _ hs => exact hs
      | dropped _ ho | released _ ho =>
        rw [ho] at howner
        cases howner
    · rw [hnone] at howner
      cases howner
  · have hid : e.jobId ∈ q'.executions.map Execution.jobId :=
      List.mem_map_of_mem (List.mem_of_getElem? he)
    rw [hs.executionIds, List.mem_append, Option.mem_toList, Option.map_eq_some_iff] at hid
    rcases hid with hid | ⟨job, hjob, hid⟩
    · obtain ⟨e₀, he₀, hid⟩ := List.mem_map.mp hid
      obtain ⟨k, hk⟩ := List.getElem?_of_mem he₀
      obtain ⟨j, hj, hjid⟩ := h.known k e₀ hk
      rw [← hid, ← hjid]
      exact hs.job_stays hj
    · rw [← hid]
      exact hs.job_stays (JobAct.takes_mem hjob).1
  · rcases hs.committed he hc with ⟨e₀, he₀, hc₀, hid₀⟩ | ⟨-, e₀, payload, result, he₀, rfl,
        ⟨j, hj, hcompletable⟩, hjobs⟩
    · -- the job was complete before, and its row is found again
      obtain ⟨j, hj, hjid⟩ := h.known i e₀ he₀
      have hcomplete := h.committed i e₀ he₀ hc₀ j hj hjid
      obtain ⟨j'', hj'', hjid'', hrow, -⟩ := h.row hs hj
      obtain rfl := (hs.keyed h.ids).eq_of_mem hj'' hj' (by rw [hjid'', hjid, hid₀, hid])
      rw [hrow.terminal (h.owned j hj) (by rw [hcomplete]; rfl), hcomplete]
    · rw [hjobs] at hj'
      obtain ⟨j₀, hj₀, rfl⟩ := List.mem_map.mp hj'
      have hid₀ : j₀.id = e₀.jobId := by
        rw [← hid, Queue.completedBy]
        split <;> rfl
      obtain rfl := h.ids.eq_of_mem hj hj₀ ((completable_iff.mp hcompletable).1.trans hid₀.symm)
      rw [Queue.completedBy, if_pos hcompletable]
      rfl
  · rcases hs.committed he hc with ⟨e₀, he₀, hc₀, hid₀⟩ | ⟨ha, e₀, -, -, -, rfl, ⟨j, hj, hcompletable⟩, -⟩ <;>
      rcases hs.committed he' hc' with ⟨e₁, he₁, hc₁, hid₁⟩ |
        ⟨ha', e₁, -, -, -, rfl, ⟨j₁, hj₁, hcompletable₁⟩, -⟩
    · exact h.once i k e₀ e₁ he₀ he₁ hc₀ hc₁ (hid₀.trans (hid.trans hid₁.symm))
    · exact (h.not_completable he₀ hc₀ hj₁ (hid₀.trans hid) hcompletable₁).elim
    · exact (h.not_completable he₁ hc₁ hj (hid₁.trans hid.symm) hcompletable).elim
    · rw [ha] at ha'
      exact JobAct.complete.inj ha'
  · rcases hs.cancellations hjob with hjob | hjob
    · obtain ⟨j, hj, hid⟩ := h.requested job hjob
      rw [← hid]
      exact hs.job_stays hj
    · exact hs.job_stays hjob

/-- A step that commits the transaction of a handler does so under the fence that its job has, for
the worker that holds it, and while no cancellation has been requested. -/
def CommitsFenced (q : Queue) (a : JobAct) : Prop :=
  ∀ (i : Nat) e, (jobQueue.next q a).executions[i]? = some e → e.phase = .committed →
    (∃ e₀, q.executions[i]? = some e₀ ∧ e₀.phase = .committed ∧ e₀.jobId = e.jobId) ∨
    ∃ j ∈ q.jobs, j.id = e.jobId ∧ j.leaseVersion = e.fence ∧ j.leaseOwner = some e.worker ∧
      j.status = .running ∧ j.cancelRequested = false

theorem Leased.commitsFenced (h : Leased q) : CommitsFenced q a := by
  intro i e he hc
  rcases (Queue.next_steps q a).committed he hc with hold |
    ⟨-, e₀, payload, result, he₀, rfl, ⟨j, hj, hcompletable⟩, -⟩
  · exact .inl hold
  · obtain ⟨hid, howner, hversion, hcancel⟩ := completable_iff.mp hcompletable
    exact .inr ⟨j, hj, hid, hversion, howner, h.owned j hj (by simp [howner]), hcancel⟩

/-- What fences promise of a run. -/
structure Fenced (acts : List JobAct) : Prop where
  once : ∀ (i k : Nat) e e', (jobQueue.run .empty acts).executions[i]? = some e →
    (jobQueue.run .empty acts).executions[k]? = some e' → e.phase = .committed →
    e'.phase = .committed → e.jobId = e'.jobId → i = k
  current : jobQueue.Along CommitsFenced .empty acts
  uncancelled : ∀ first k rest job, acts = first ++ .cancel k :: rest →
    (jobQueue.run .empty first).cancellations[k]? = some job →
    ∀ (i : Nat) e, (jobQueue.run .empty acts).executions[i]? = some e → e.phase = .committed →
      e.jobId = job.id → ∃ e₀, (jobQueue.run .empty first).executions[i]? = some e₀ ∧
        e₀.phase = .committed ∧ e₀.jobId = job.id
  ended : ∀ first rest, acts = first ++ rest → ∀ j ∈ (jobQueue.run .empty first).jobs,
    j.status.terminal = true →
      ∃ j' ∈ (jobQueue.run .empty acts).jobs, j'.id = j.id ∧ j'.status = j.status

theorem leased_run (h : jobQueue.Along ExitsAtomic .empty acts) :
    Leased (jobQueue.run .empty acts) :=
  jobQueue.run_invariant leased_empty h fun _ _ hq ha => hq.step ha (Queue.next_steps _ _)

theorem Leased.ended (h : Leased q) (ha : jobQueue.Along ExitsAtomic q acts) (hj : j ∈ q.jobs)
    (ht : j.status.terminal = true) :
    ∃ j' ∈ (jobQueue.run q acts).jobs, j'.id = j.id ∧ j'.status = j.status := by
  refine (jobQueue.run_invariant (P := fun q => Leased q ∧ ∃ j' ∈ q.jobs, j'.id = j.id ∧
    j'.status = j.status) ⟨h, j, hj, rfl, rfl⟩ ha ?_).2
  rintro q a ⟨hq, j', hj', hid, hstatus⟩ ha
  have hs := Queue.next_steps q a
  obtain ⟨j'', hj'', hid', hrow, -⟩ := hq.row hs hj'
  refine ⟨hq.step ha hs, j'', hj'', hid'.trans hid, ?_⟩
  rw [hrow.terminal (hq.owned j' hj') (hstatus ▸ ht), hstatus]

/-- Once the cancellation of a job is written, no execution of it commits. -/
theorem Leased.uncancelled (h : Leased q) (ha : jobQueue.Along ExitsAtomic q acts) (hj : j ∈ q.jobs)
    (hc : j.cancelRequested = true) (he : (jobQueue.run q acts).executions[i]? = some e)
    (hcommitted : e.phase = .committed) (hid : e.jobId = j.id) :
    ∃ e₀, q.executions[i]? = some e₀ ∧ e₀.phase = .committed ∧ e₀.jobId = j.id := by
  have hrun := jobQueue.run_invariant (P := fun t => Leased t ∧
      (∃ j' ∈ t.jobs, j'.id = j.id ∧ j'.cancelRequested = true) ∧
      ∀ (i : Nat) e, t.executions[i]? = some e → e.phase = .committed → e.jobId = j.id →
        ∃ e₀, q.executions[i]? = some e₀ ∧ e₀.phase = .committed ∧ e₀.jobId = j.id)
    ⟨h, ⟨j, hj, rfl, hc⟩, fun i e he hc hid => ⟨e, he, hc, hid⟩⟩ ha ?_
  · exact hrun.2.2 i e he hcommitted hid
  · rintro t a ⟨ht, ⟨j', hj', hjid, hflag⟩, hold⟩ ha
    have hs := Queue.next_steps t a
    obtain ⟨j'', hj'', hid', -, hkept⟩ := ht.row hs hj'
    refine ⟨ht.step ha hs, ⟨j'', hj'', hid'.trans hjid, hkept hflag⟩, fun i e he hc hid => ?_⟩
    rcases hs.committed he hc with ⟨e₀, he₀, hc₀, hid₀⟩ | ⟨-, e₀, -, -, -, rfl, ⟨j₀, hj₀, hcompletable⟩, -⟩
    · exact hold i e₀ he₀ hc₀ (hid₀.trans hid)
    · obtain ⟨hjid₀, -, -, hunflagged⟩ := completable_iff.mp hcompletable
      obtain rfl := ht.ids.eq_of_mem hj₀ hj' (hjid₀.trans (hid.trans hjid.symm))
      rw [hflag] at hunflagged
      cases hunflagged

/-- In every run whose exits are atomic, fences keep what they promise. -/
theorem fenced_run (h : jobQueue.Along ExitsAtomic .empty acts) : Fenced acts where
  once := (leased_run h).once
  current := (jobQueue.along_invariant leased_empty h fun _ _ hq ha =>
    hq.step ha (Queue.next_steps _ _)).mono fun _ _ hq => hq.commitsFenced
  uncancelled := by
    rintro first k rest job rfl hjob i e he hc hid
    obtain ⟨hfirst, hk, hrest⟩ := jobQueue.along_append.mp h
    have hq := leased_run hfirst
    obtain ⟨j, hj, hjid⟩ := hq.requested job (List.mem_of_getElem? hjob)
    have hnext : jobQueue.next (jobQueue.run .empty first) (.cancel k) =
        { (jobQueue.run .empty first).modifyJob job.id fun j => { j with cancelRequested := true } with
          cancellations := (jobQueue.run .empty first).cancellations.eraseIdx k } := by
      change ((jobQueue.run .empty first).step (.cancel k)).getD _ = _
      rw [Queue.step, hjob]
      rfl
    have hflagged : { j with cancelRequested := true } ∈
        (jobQueue.next (jobQueue.run .empty first) (.cancel k)).jobs := by
      rw [hnext]
      refine List.mem_map.mpr ⟨j, hj, ?_⟩
      rw [if_pos hjid]
    rw [jobQueue.run_append] at he
    have hcommitted := (hq.step hk (Queue.next_steps _ _)).uncancelled hrest hflagged rfl he hc
      (hid.trans hjid.symm)
    rw [hnext] at hcommitted
    rw [← hjid]
    exact hcommitted
  ended := by
    rintro first rest rfl j hj ht
    obtain ⟨hfirst, hrest⟩ := jobQueue.along_append.mp h
    rw [jobQueue.run_append]
    exact (leased_run hfirst).ended hrest hj ht

namespace Supplier

/-- A worker is killed, the next one completes the job while a cancellation is under way. -/
def completedOnce : List JobAct := [.enqueue remaster 0, .claim "one" 0 [], .load 0,
  .claim "two" (leaseTime + 1) [], .requestCancel "w1" "j1", .load 1, .handle 0 [], .handle 1 [],
  .complete 0, .complete 1, .recover 0, .cancel 0]

end Supplier

open Supplier in
theorem fenced_run_completed : Fenced completedOnce := by
  have h : jobQueue.Along ExitsAtomic .empty completedOnce := by decide +kernel
  exact fenced_run h

end Recordlane
