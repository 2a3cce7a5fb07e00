import Recordlane.MergedEntities
import Recordlane.Numbering
import Recordlane.Registry

/-! Separation of duties: who caused a change, and who approves it. -/
namespace Recordlane

variable {rt : Runtime} {w : Workspace} {s : Store} {request : Request} {task : ReviewTask}
  {first requests : List Request}

/-- Whose ingestion, merge or split a request carries out: a merge or a split is carried out for whoever
proposed it and by whoever approves it. -/
def Request.actsFor (rt : Runtime) (s : Store) : Request → List String
  | .ingest who _ => [who.subject]
  | request =>
    match request.taken? rt s with
    | some (task, .approve) =>
      if task.kind = .mergeApproval || task.kind = .splitApproval then
        [request.who.subject, task.proposedBy]
      else []
    | _ => []

/-- The request adds the version to the masters of the entity. -/
def Request.Drafts (rt : Runtime) (s : Store) (request : Request) (entityId : Option Id)
    (version : Nat) : Prop :=
  (∃ m ∈ ((service rt).next s request).masters, some m.entityId = entityId ∧ m.version = version) ∧
    ∀ m ∈ s.masters, some m.entityId = entityId → m.version ≠ version

instance {entityId : Option Id} {version : Nat} :
    Decidable (request.Drafts rt s entityId version) :=
  inferInstanceAs (Decidable (_ ∧ _))

/-- An ingestion, merge or split of the subject drafted the version that the task is about. -/
def DraftedBy (rt : Runtime) (w : Workspace) (requests : List Request) (task : ReviewTask)
    (version : Nat) (subject : String) : Prop :=
  ∃ p ∈ (service rt).trace (Store.empty w) requests,
    subject ∈ p.2.actsFor rt p.1 ∧ p.2.Drafts rt p.1 task.entityId version

instance {version : Nat} {subject : String} :
    Decidable (DraftedBy rt w requests task version subject) :=
  inferInstanceAs (Decidable (∃ p ∈ (service rt).trace (Store.empty w) requests, _))

/-- The change that waits for the task is the subject's own. -/
def CausedBy (rt : Runtime) (w : Workspace) (requests : List Request) (task : ReviewTask)
    (subject : String) : Prop :=
  match task.payload with
  | .masterApproval version _ _ => DraftedBy rt w requests task version subject
  | .mergeApproval .. | .splitApproval .. | .configurationApproval .. => task.proposedBy = subject
  | .duplicateMatch .. | .downstreamRepair .. => False

/-- No sensitive task is approved by a subject that caused what it approves. -/
def SeparatesDuties (rt : Runtime) (w : Workspace) (requests : List Request) : Prop :=
  ∀ first who taskId reason rest, requests = first ++ .decideTask who taskId .approve reason :: rest →
    let s := (service rt).run (Store.empty w) first
    ∀ task ∈ s.tasks, task.id = taskId → task.sensitive →
      ((service rt).step s (.decideTask who taskId .approve reason)).2.isOk →
        ¬ CausedBy rt w first task who.subject

/-- Whoever may approve a sensitive master that still is a draft has not drafted it. -/
def ApprovesOthers (rt : Runtime) (w : Workspace) (requests : List Request) : Prop :=
  ∀ first request rest, requests = first ++ request :: rest →
    let s := (service rt).run (Store.empty w) first
    ∀ p ∈ request.taken? rt s, p.1.sensitive → ∀ version ∈ p.1.publishes? p.2,
      (MasteringService.draftOf s p.1 version).isSome →
        ¬ DraftedBy rt w first p.1 version request.who.subject

/-- A sensitive task is not taken from whoever proposed it. -/
theorem Request.taken?_duties {d : Decision} (h : (task, d) ∈ request.taken? rt s)
    (hsensitive : task.sensitive) : task.proposedBy ≠ request.who.subject := by
  obtain ⟨self, who, taskId, reason, rfl, hstart, htaken⟩ := Request.taken?_eq h
  have hwho : self.principal = who := by
    unfold MasteringService.start at hstart
    split at hstart
    · cases hstart
      rfl
    · cases hstart
  have hguards := (Option.filter_eq_some_iff.mp htaken).2
  simp only [Bool.and_eq_true, Bool.not_eq_true', Bool.and_eq_false_iff,
    decide_eq_false_iff_not, hsensitive, Bool.true_eq_false, false_or, hwho] at hguards
  exact hguards.2

/-- An approval that is answered was taken, on the task it names. -/
theorem taken_of_isOk (hi : Integrity rt w s) (hr : Registered rt s) {who : Principal} {taskId : Id}
    {d : Decision} {reason : String} (hmem : task ∈ s.tasks) (hid : task.id = taskId)
    (hok : ((service rt).step s (.decideTask who taskId d reason)).2.isOk) :
    (task, d) ∈ (Request.decideTask who taskId d reason).taken? rt s := by
  cases ht : transact rt s (.decideTask who taskId d reason) with
  | error raised =>
    simp only [service, ht] at hok
    cases hok
  | ok committed =>
    obtain ⟨s', answer⟩ := committed
    simp only [service, ht] at hok
    obtain ⟨hstart, hserve⟩ := transact_serve hi.workspaces ht
    simp only [serve, Except.bind_eq_ok, Except.pure_eq_ok, Prod.exists, Prod.mk.injEq] at hserve
    obtain ⟨_, answer', hdecide, rfl, rfl⟩ := hserve
    rcases MasteringService.decideTask_effect hi hdecide with ⟨-, hrefused⟩ | ⟨found, htaken, -, -⟩
    · cases answer' with
      | error raised => cases hok
      | ok _ => exact (hrefused rfl).elim
    · have hfound : found = task := by
        have hkey := List.find?_some (Option.filter_eq_some_iff.mp htaken).1
        simp only [Bool.and_eq_true, decide_eq_true_eq] at hkey
        exact hr.taskIds.eq_of_mem (MasteringService.taken?_mem htaken) hmem (hkey.1.trans hid.symm)
      rw [Request.who] at hstart
      rw [Option.mem_def, Request.taken?, hstart]
      exact Option.map_eq_some_iff.mpr ⟨found, htaken, by rw [hfound]⟩

theorem DraftedBy.causedBy {version : Nat} {subject : String}
    (h : DraftedBy rt w first task version subject) (hversion : version ∈ task.publishes? .approve) :
    CausedBy rt w first task subject := by
  obtain ⟨-, values, provenance, hpayload⟩ := ReviewTask.publishes?_eq_some.mp hversion
  unfold CausedBy
  rw [hpayload]
  exact h

/-- Merges, splits and configurations are never approved by whoever proposed them. -/
theorem CausedBy.publishes (hc : CausedBy rt w first task request.who.subject)
    (hp : (task, .approve) ∈ request.taken? rt s) (hsensitive : task.sensitive) :
    ∃ version ∈ task.publishes? .approve, DraftedBy rt w first task version request.who.subject := by
  have hother := Request.taken?_duties hp hsensitive
  unfold CausedBy at hc
  split at hc
  · next version values provenance hpayload =>
    exact ⟨version, ReviewTask.publishes?_eq_some.mpr ⟨rfl, values, provenance, hpayload⟩, hc⟩
  · exact (hother hc).elim
  · exact (hother hc).elim
  · exact (hother hc).elim
  · exact hc.elim
  · exact hc.elim

/-- The draft of a task belongs to its entity, so that its approval goes through. -/
theorem isOk_of_draft (hi : Integrity rt w s) (hn : Numbered rt w s.settled) {who : Principal}
    {taskId : Id} {reason : String} {version : Nat}
    (hp : (task, .approve) ∈ (Request.decideTask who taskId .approve reason).taken? rt s)
    (hversion : version ∈ task.publishes? .approve)
    (hdraft : (MasteringService.draftOf s task version).isSome) :
    ((service rt).step s (.decideTask who taskId .approve reason)).2.isOk := by
  obtain ⟨draft, hdraft'⟩ := Option.isSome_iff_exists.mp hdraft
  have howner : some draft.entityId = task.entityId := by
    have hkey := List.find?_some hdraft'
    simp only [Bool.and_eq_true, decide_eq_true_eq] at hkey
    exact hkey.1.1
  obtain ⟨-, e, he, hid⟩ := hn.masters draft (List.mem_of_find?_eq_some hdraft')
  obtain ⟨s₁, -, hstep⟩ := step_approveMaster hi hp hversion hdraft he (howner.symm.trans (by rw [hid]))
  rw [hstep]
  rfl

theorem DecisionEffect.draft {self : MasteringService} {t : Store} {version : Nat}
    (he : DecisionEffect self s task .approve t) (hversion : version ∈ task.publishes? .approve) :
    (MasteringService.draftOf s task version).isSome := by
  obtain ⟨-, values, provenance, hpayload⟩ := ReviewTask.publishes?_eq_some.mp hversion
  cases he with
  | quiet hd _ => simp [Inert, hpayload] at hd
  | approveMaster hp ha =>
    rw [hpayload] at hp
    cases hp
    exact ha.draft
  | merge hp => simp [hpayload] at hp
  | split hp => simp [hpayload] at hp
  | keepApart hd => simp at hd

/-- A run keeps duties apart if and only if no sensitive draft is approved by a subject whose own
ingestion, merge or split made it. -/
theorem separatesDuties_iff (rt : Runtime) (w : Workspace) (requests : List Request) :
    SeparatesDuties rt w requests ↔ ApprovesOthers rt w requests := by
  constructor
  · intro h first request rest heq s p hp hsensitive version hversion hdraft hdrafted
    obtain ⟨task, d⟩ := p
    obtain ⟨_, who, taskId, reason, rfl, -, htaken⟩ := Request.taken?_eq hp
    obtain ⟨rfl, -⟩ := ReviewTask.publishes?_eq_some.mp hversion
    have hi : Integrity rt w s := integrity_run integrity_empty
    have hid : task.id = taskId := by
      have hkey := List.find?_some (Option.filter_eq_some_iff.mp htaken).1
      simp only [Bool.and_eq_true, decide_eq_true_eq] at hkey
      exact hkey.1
    exact h first who taskId reason rest heq task (Request.taken?_mem hp) hid hsensitive
      (isOk_of_draft hi (numbered_run rt w first) hp hversion hdraft) (hdrafted.causedBy hversion)
  · intro h first who taskId reason rest heq s task hmem hid hsensitive hok hcaused
    have hreachable : Reachable rt w s := ⟨first, rfl⟩
    have hi : Integrity rt w s := integrity_reachable hreachable
    have hp := taken_of_isOk hi (registered_reachable hreachable) hmem hid hok
    obtain ⟨version, hversion, hdrafted⟩ := hcaused.publishes hp hsensitive
    have hdraft : (MasteringService.draftOf s task version).isSome := by
      rcases step_taken hi hp with ⟨hrefused, -⟩ | ⟨-, heffect⟩
      · rw [hrefused] at hok
        cases hok
      · exact heffect.draft hversion
    exact h first _ rest heq (task, .approve) hp hsensitive version hversion hdraft hdrafted

namespace Supplier

/-- A supplier with a tax number, whose draft is approved by whoever ingested it. -/
def selfApproval : List Request := setup ++ [
  ingest [observation "a" "1" [("name", .str "A"), ("tax_id", .str "T1")]],
  .decideTask (steward "alice") (uid 11) .approve "mine"]

theorem selfApproval_not_separate : ¬ SeparatesDuties .plain workspace selfApproval := by
  intro h
  obtain ⟨task, hmem, hid, hsensitive, hok, version, hversion, hdrafted⟩ :
      ∃ task ∈ ((service .plain).run (Store.empty workspace) (selfApproval.take 3)).tasks,
        task.id = uid 11 ∧ task.sensitive ∧
        ((service .plain).step ((service .plain).run (Store.empty workspace) (selfApproval.take 3))
          (.decideTask (steward "alice") (uid 11) .approve "mine")).2.isOk ∧
        ∃ version ∈ task.publishes? .approve,
          DraftedBy .plain workspace (selfApproval.take 3) task version "alice" := by
    decide +kernel
  exact h _ (steward "alice") (uid 11) "mine" [] rfl task hmem hid hsensitive hok
    (hdrafted.causedBy hversion)

end Supplier

end Recordlane
