import Recordlane.Disclosure
import Recordlane.Library.Masking

/-! What the lists of tasks and simulations, and the assistant's evidence, tell of the fields that their
reader may not read. -/
namespace Recordlane

variable {self : MasteringService} {s s' : Store} {readable : List String}
  {readableIn : String → List String}

/-! What is told of fields outside a list is left out, wherever a task or a simulation holds it. -/

/-- The entries of a map on fields outside the list, in their places. -/
def secretEntries (readable : List String) (values : Dict) : Json :=
  .arr (values.map fun p => if readable.contains p.1 then .null else .obj [p])

theorem values_reveal (readable : List String) : Reveals (filterMapping readable) (fun values => values)
    fun values : Dict => [secretEntries readable values] := by
  have h : Reveals (filterMapping readable) (List.map id) fun values : Dict => [secretEntries readable values] :=
    Reveals.sifted Function.injective_id (fun p q hpq => by simpa using hpq) (fun _ => nofun)
      fun xs ys hxs => Json.arr.inj hxs
  exact h.of_imp (fun _ _ hab => hab) fun _ _ _ => by rw [List.map_id, List.map_id]

namespace Contradiction

/-- Whether the field may be read. -/
def isOpen (readable : List String) (c : Contradiction) : Bool :=
  match c.field with
  | .str field => readable.contains field
  | _ => false

theorem json_injective : Function.Injective Contradiction.json := by
  intro a b h
  obtain ⟨field, identifierNamespace, left, right⟩ := a
  obtain ⟨field', identifierNamespace', left', right'⟩ := b
  simpa [Contradiction.json] using h

end Contradiction

namespace MatchEvidence

def mask (readable : List String) (e : MatchEvidence) : MatchEvidence :=
  { e with contradictions := e.contradictions.filter (Contradiction.isOpen readable) }

/-- The contradictions on fields outside the list, in their places. -/
def secrets (readable : List String) (e : MatchEvidence) : List Json :=
  [.arr (e.contradictions.map fun c => if c.isOpen readable then .null else c.json)]

theorem contradictions_reveal : Reveals (mask readable)
    (fun e : MatchEvidence => e.contradictions.map Contradiction.json) (secrets readable) := by
  have h : Reveals (List.filter (Contradiction.isOpen readable)) (List.map Contradiction.json)
      fun cs => [Json.arr (cs.map fun c => if c.isOpen readable then .null else c.json)] :=
    Reveals.sifted Contradiction.json_injective Contradiction.json_injective (fun _ => nofun)
      fun _ _ hxs => Json.arr.inj hxs
  exact (h.comap MatchEvidence.contradictions).of_imp
    (fun _ _ hab => congrArg MatchEvidence.contradictions hab) fun _ _ _ => Iff.rfl

theorem reveals : Reveals (mask readable) MatchEvidence.json (secrets readable) := by
  refine contradictions_reveal.of_imp (fun _ _ hab => hab) fun a b hab => ?_
  simp only [mask, MatchEvidence.mk.injEq] at hab
  obtain ⟨hscore, hdecision, hevidence, -, hkind, -⟩ := hab
  change Json.obj [_, _, _, _, ("contradictions", .arr (a.contradictions.map Contradiction.json))] =
    Json.obj [_, _, _, _, ("contradictions", .arr (b.contradictions.map Contradiction.json))] ↔ _
  simp [hscore, hdecision, hevidence, hkind]

theorem reveals_asDict : Reveals (mask readable) MatchEvidence.asDict (secrets readable) := by
  refine contradictions_reveal.of_imp (fun _ _ hab => hab) fun a b hab => ?_
  simp only [mask, MatchEvidence.mk.injEq] at hab
  obtain ⟨hscore, hdecision, hevidence, -, hkind, hversion⟩ := hab
  simp [MatchEvidence.asDict, hscore, hdecision, hevidence, hkind, hversion]

end MatchEvidence

namespace LinkChange

def mask (readable : List String) (c : LinkChange) : LinkChange :=
  { c with current := c.current.mask readable, proposed := c.proposed.mask readable }

def secrets (readable : List String) (c : LinkChange) : List Json :=
  c.current.secrets readable ++ c.proposed.secrets readable

def json (c : LinkChange) : Json :=
  .obj [("left_source_object_id", .str c.leftSourceObjectId),
    ("right_source_object_id", .str c.rightSourceObjectId), ("current", c.current.json),
    ("proposed", c.proposed.json)]

theorem reveals : Reveals (mask readable) json (secrets readable) := by
  refine ((MatchEvidence.reveals.comap LinkChange.current).prod
    (MatchEvidence.reveals.comap LinkChange.proposed)).of_imp (fun a b hab => ?_) fun a b hab => ?_
  · simp only [mask, LinkChange.mk.injEq] at hab
    rw [hab.2.2.1, hab.2.2.2]
  · simp only [mask, LinkChange.mk.injEq] at hab
    simp [json, hab.1, hab.2.1]

end LinkChange

namespace MasterChange

def mask (readable : List String) (c : MasterChange) : MasterChange :=
  { c with attributes := c.attributes.map fun a =>
      if readable.contains a.1 then a else (a.1, .null, .null, .null) }

def secrets (readable : List String) (c : MasterChange) : List Json :=
  c.attributes.flatMap fun a => if readable.contains a.1 then [] else [a.2.1, a.2.2.1, a.2.2.2]

def attributeJson (a : String × Json × Json × Json) : String × Json :=
  (a.1, .obj [("current", a.2.1), ("proposed", a.2.2.1), ("provenance", a.2.2.2)])

def json (c : MasterChange) : Json :=
  .obj [("entity_id", .str c.entityId), ("attributes", .obj (c.attributes.map attributeJson))]

theorem reveals : Reveals (mask readable) json (secrets readable) := by
  have h : Reveals (fun a : String × Json × Json × Json =>
      if readable.contains a.1 then a else (a.1, .null, .null, .null)) attributeJson
      fun a => if readable.contains a.1 then [] else [a.2.1, a.2.2.1, a.2.2.2] := by
    refine Reveals.guarded (fun a b hab => ?_) (fun _ => rfl) (fun _ _ => rfl)
      fun a b hblank hparts => ?_
    · obtain ⟨k, current, proposed, provenance⟩ := a
      obtain ⟨k', current', proposed', provenance'⟩ := b
      simpa [attributeJson] using hab
    · obtain ⟨k, current, proposed, provenance⟩ := a
      obtain ⟨k', current', proposed', provenance'⟩ := b
      simp_all
  refine (h.list.comap MasterChange.attributes).of_imp
    (fun a b hab => congrArg MasterChange.attributes hab) fun a b hab => ?_
  simp only [mask, MasterChange.mk.injEq] at hab
  simp [json, hab.1]

end MasterChange

namespace ValidationChange

def json (c : ValidationChange) : Json :=
  .obj [("source_object_id", .str c.sourceObjectId), ("current", .arr (c.current.map QualityError.json)),
    ("proposed", .arr (c.proposed.map QualityError.json))]

end ValidationChange

namespace PolicySimulation

/-- What a simulation tells of fields outside the list is left out, and with it the changes of validation,
which any field may have made. -/
def mask (readable : List String) (p : PolicySimulation) : PolicySimulation :=
  { p with
    linkChanges := p.linkChanges.map (LinkChange.mask readable)
    masterChanges := p.masterChanges.map (MasterChange.mask readable)
    validationChanges := [] }

def secrets (readable : List String) (p : PolicySimulation) : List Json :=
  p.linkChanges.flatMap (LinkChange.secrets readable) ++
    p.masterChanges.flatMap (MasterChange.secrets readable) ++
    [.arr (p.validationChanges.map ValidationChange.json)]

theorem json_eq (p : PolicySimulation) : p.json = .obj [("domain", .str p.domain),
    ("current_policy", .str p.currentPolicy), ("proposed_policy", .str p.proposedPolicy),
    ("dataset_size", .int p.datasetSize), ("link_changes", .arr (p.linkChanges.map LinkChange.json)),
    ("master_changes", .arr (p.masterChanges.map MasterChange.json)),
    ("validation_changes", .arr (p.validationChanges.map ValidationChange.json)),
    ("review_workload_delta", .int p.reviewWorkloadDelta)] := rfl

theorem reveals : Reveals (mask readable) PolicySimulation.json (secrets readable) := by
  have hvalidation : Reveals (fun _ : PolicySimulation => ())
      (fun p => p.validationChanges.map ValidationChange.json)
      fun p => [Json.arr (p.validationChanges.map ValidationChange.json)] :=
    ⟨fun _ => rfl, fun _ => by simp⟩
  refine (((LinkChange.reveals.list.comap PolicySimulation.linkChanges).prod
    (MasterChange.reveals.list.comap PolicySimulation.masterChanges)).prod hvalidation).of_imp
    (fun a b hab => ?_) fun a b hab => ?_
  · simp only [mask, PolicySimulation.mk.injEq] at hab
    obtain ⟨-, -, -, -, hlinks, hmasters, -, -⟩ := hab
    rw [hlinks, hmasters]
  · simp only [mask, PolicySimulation.mk.injEq] at hab
    obtain ⟨hdomain, hcurrent, hproposed, hsize, -, -, -, hdelta⟩ := hab
    simp [json_eq, hdomain, hcurrent, hproposed, hsize, hdelta, and_assoc]

end PolicySimulation

namespace SimulationResult

/-- A result with what its domains do not let the reader read blanked out. -/
def mask (readableIn : String → List String) (r : SimulationResult) : SimulationResult :=
  { r with details := r.details.map fun p => p.mask (readableIn p.domain) }

def secrets (readableIn : String → List String) (r : SimulationResult) : List Json :=
  r.details.flatMap fun p => p.secrets (readableIn p.domain)

/-- A result but for its details. -/
def summary (r : SimulationResult) : Dict :=
  [("candidate_links_changed", .int (r.details.map fun p => p.linkChanges.length).sum),
    ("mastered_attributes_changed", .int (r.details.flatMap fun p =>
      p.masterChanges.map fun c => c.attributes.length).sum),
    ("validation_failures_changed", .int (r.details.map fun p => p.validationChanges.length).sum),
    ("review_workload_delta", .int (r.details.map PolicySimulation.reviewWorkloadDelta).sum),
    ("affected_consumers", .int (r.details.flatMap fun p =>
      p.masterChanges.map MasterChange.entityId).dedup.length),
    ("snapshot_hash", .str r.snapshotHash), ("sample", .bool false)]

theorem json_eq (r : SimulationResult) : r.json =
    .obj (r.summary ++ [("details", .arr (r.details.map PolicySimulation.json))]) := rfl

/-- The numbers of a result count what is left of it, and the changes of validation. -/
theorem summary_eq {a b : SimulationResult} (h : a.mask readableIn = b.mask readableIn)
    (hdetails : a.details.map PolicySimulation.json = b.details.map PolicySimulation.json) :
    a.summary = b.summary := by
  let changes (p : PolicySimulation) : Int := p.validationChanges.length
  have hset : ∀ r : SimulationResult, (r.mask readableIn).summary.set "validation_failures_changed"
      (.int (r.details.map changes).sum) = r.summary := by
    intro r
    simp [summary, mask, PolicySimulation.mask, MasterChange.mask, List.flatMap_map, Function.comp_def,
      Dict.set, Dict.contains, changes]
  have hfactors : Function.FactorsThrough changes PolicySimulation.json := by
    intro p q hpq
    simp only [PolicySimulation.json_eq, Json.obj.injEq, List.cons.injEq, Prod.mk.injEq, Json.arr.injEq,
      true_and] at hpq
    have hlength := congrArg List.length hpq.2.2.2.2.2.2.1
    rw [List.length_map, List.length_map] at hlength
    exact congrArg Nat.cast hlength
  have hchanges : a.details.map changes = b.details.map changes := by
    rw [← hfactors.extend_comp fun _ => 0, ← List.map_map, hdetails, List.map_map]
  rw [← hset a, ← hset b, h, hchanges]

theorem reveals : Reveals (mask readableIn) SimulationResult.json (secrets readableIn) := by
  have hone : Reveals (fun p : PolicySimulation => p.mask (readableIn p.domain))
      PolicySimulation.json fun p => p.secrets (readableIn p.domain) := by
    refine Reveals.keyed PolicySimulation.domain (fun a b hab => ?_)
      fun domain => (PolicySimulation.reveals :
        Reveals (PolicySimulation.mask (readableIn domain)) PolicySimulation.json _)
    have hdomain := congrArg PolicySimulation.domain hab
    exact hdomain
  refine (hone.list.comap SimulationResult.details).of_imp
    (fun a b hab => congrArg SimulationResult.details hab) fun a b hab => ?_
  constructor
  · intro hjson
    rw [json_eq, json_eq] at hjson
    simpa using (List.append_inj' (Json.obj.inj hjson) rfl).2
  · intro hdetails
    rw [json_eq, json_eq, summary_eq hab hdetails, hdetails]

end SimulationResult

namespace TaskPayload

/-- A payload without the values that may not be read: those of the task's entity, and in a simulation
those of each domain. -/
def mask (readable : List String) (readableIn : String → List String) : TaskPayload → TaskPayload
  | .duplicateMatch leftRecord rightRecord leftObject rightObject target bound evidence =>
    .duplicateMatch leftRecord rightRecord leftObject rightObject target bound
      (evidence.mask readable)
  | .masterApproval version values provenance =>
    .masterApproval version (filterMapping readable values) (filterMapping readable provenance)
  | .configurationApproval configId configVersion checksum simulationId dataCheckpoint impact =>
    .configurationApproval configId configVersion checksum simulationId dataCheckpoint
      (impact.mask readableIn)
  | payload => payload

/-- The values a payload shows that may not be read. Only those of a master are filtered, and only
with the entity of the task at hand. -/
def secrets (filtered : Bool) (readable : List String) (readableIn : String → List String) :
    TaskPayload → List Json
  | .duplicateMatch _ _ _ _ _ _ evidence => evidence.secrets readable
  | .masterApproval _ values provenance =>
    if filtered then [] else [secretEntries readable values, secretEntries readable provenance]
  | .configurationApproval _ _ _ _ _ impact => impact.secrets readableIn
  | _ => []

theorem kind_of_mask {a b : TaskPayload} (h : a.mask readable readableIn = b.mask readable readableIn) :
    a.kind = b.kind := by
  cases a <;> cases b <;> first | rfl | cases h

/-- Only what is left of a payload makes the priority of a task, unless a master is to be approved. -/
theorem priority_of_mask {a b : TaskPayload} (h : a.mask readable readableIn = b.mask readable readableIn)
    (hkind : b.kind ≠ .masterApproval) : a.priority = b.priority := by
  cases a <;> cases b <;> first | rfl | cases h | exact (hkind rfl).elim

theorem filterPayload_dict {a : TaskPayload} (h : a.kind ≠ .masterApproval) :
    filterPayload readable a.dict = a.dict := by
  cases a with
  | duplicateMatch _ _ leftObject rightObject _ _ evidence =>
    cases leftObject <;> cases rightObject <;>
      simp [filterPayload, TaskPayload.dict, MatchEvidence.asDict]
  | masterApproval => exact (h rfl).elim
  | configurationApproval => simp [filterPayload, TaskPayload.dict]
  | mergeApproval => simp [filterPayload, TaskPayload.dict, MergeImpact.dict]
  | splitApproval => simp [filterPayload, TaskPayload.dict]
  | downstreamRepair => simp [filterPayload, TaskPayload.dict]

/-- A payload that is shown as it is. -/
theorem reveals : Reveals (mask readable readableIn) TaskPayload.dict
    (secrets false readable readableIn) := by
  have hall : ∀ a b : TaskPayload, a.mask readable readableIn = b.mask readable readableIn →
      (a.secrets false readable readableIn).length = (b.secrets false readable readableIn).length ∧
        (a.dict = b.dict ↔ a.secrets false readable readableIn = b.secrets false readable readableIn) := by
    intro a b hab
    cases a with
    | duplicateMatch _ _ _ _ _ _ evidence =>
      cases b with
      | duplicateMatch _ _ _ _ _ _ evidence' =>
        simp only [mask, TaskPayload.duplicateMatch.injEq] at hab
        obtain ⟨rfl, rfl, rfl, rfl, rfl, rfl, hevidence⟩ := hab
        refine ⟨MatchEvidence.reveals_asDict.length hevidence, ?_⟩
        simpa [TaskPayload.dict, secrets] using MatchEvidence.reveals_asDict.view_eq_iff hevidence
      | _ => cases hab
    | masterApproval _ values provenance =>
      cases b with
      | masterApproval _ values' provenance' =>
        simp only [mask, TaskPayload.masterApproval.injEq] at hab
        obtain ⟨rfl, hvalues, hprovenance⟩ := hab
        have hboth := ((values_reveal readable).comap Prod.fst).prod
          ((values_reveal readable).comap Prod.snd)
        have hmask : (filterMapping readable values, filterMapping readable provenance) =
            (filterMapping readable values', filterMapping readable provenance') := by
          rw [hvalues, hprovenance]
        have hlength := hboth.length (a := (values, provenance)) (b := (values', provenance')) hmask
        have hiff := hboth.view_eq_iff (a := (values, provenance)) (b := (values', provenance')) hmask
        exact ⟨hlength, by simpa [TaskPayload.dict, secrets] using hiff⟩
      | _ => cases hab
    | configurationApproval _ _ _ _ _ impact =>
      cases b with
      | configurationApproval _ _ _ _ _ impact' =>
        simp only [mask, TaskPayload.configurationApproval.injEq] at hab
        obtain ⟨rfl, rfl, rfl, rfl, rfl, himpact⟩ := hab
        refine ⟨SimulationResult.reveals.length himpact, ?_⟩
        simpa [TaskPayload.dict, secrets] using SimulationResult.reveals.view_eq_iff himpact
      | _ => cases hab
    | mergeApproval =>
      cases b with
      | mergeApproval =>
        cases hab
        exact ⟨rfl, by simp⟩
      | _ => cases hab
    | splitApproval =>
      cases b with
      | splitApproval =>
        cases hab
        exact ⟨rfl, by simp⟩
      | _ => cases hab
    | downstreamRepair =>
      cases b with
      | downstreamRepair =>
        cases hab
        exact ⟨rfl, by simp⟩
      | _ => cases hab
  exact ⟨fun hab => (hall _ _ hab).1, fun hab => (hall _ _ hab).2⟩

theorem reveals_filtered : Reveals (mask readable readableIn)
    (fun a : TaskPayload => filterPayload readable a.dict) (secrets true readable readableIn) := by
  have hsame : ∀ a b : TaskPayload, a.mask readable readableIn = b.mask readable readableIn →
      a.kind = .masterApproval → filterPayload readable a.dict = filterPayload readable b.dict ∧
        a.secrets true readable readableIn = [] ∧ b.secrets true readable readableIn = [] := by
    intro a b hab hkind
    cases a with
    | masterApproval _ values provenance =>
      cases b with
      | masterApproval _ values' provenance' =>
        simp only [mask, TaskPayload.masterApproval.injEq] at hab
        obtain ⟨rfl, hvalues, hprovenance⟩ := hab
        refine ⟨?_, rfl, rfl⟩
        simp [filterPayload, TaskPayload.dict, hvalues, hprovenance]
      | _ => cases hab
    | _ => cases hkind
  have hother : ∀ a : TaskPayload, a.kind ≠ .masterApproval →
      a.secrets true readable readableIn = a.secrets false readable readableIn := by
    intro a hkind
    cases a with
    | masterApproval => exact (hkind rfl).elim
    | _ => rfl
  constructor
  · intro a b hab
    by_cases hkind : a.kind = .masterApproval
    · obtain ⟨-, ha, hb⟩ := hsame a b hab hkind
      rw [ha, hb]
    · have hkind' : b.kind ≠ .masterApproval := kind_of_mask hab ▸ hkind
      rw [hother a hkind, hother b hkind']
      exact reveals.length hab
  · intro a b hab
    by_cases hkind : a.kind = .masterApproval
    · obtain ⟨hview, ha, hb⟩ := hsame a b hab hkind
      simp [hview, ha, hb]
    · have hkind' : b.kind ≠ .masterApproval := kind_of_mask hab ▸ hkind
      rw [hother a hkind, hother b hkind', filterPayload_dict hkind, filterPayload_dict hkind']
      exact reveals.view_eq_iff hab

end TaskPayload

/-- The fields that may be read of the entity a task is about, if there is one. -/
def fieldsOf (readableIn : String → List String) : Option Entity → List String
  | some e => readableIn e.domainKey
  | none => []

namespace ReviewTask

/-- A task with what is to be left out of its payload. Whether the approval of a master is sensitive
depends on the values that survive. -/
def mask (readable : List String) (readableIn : String → List String) (t : ReviewTask) : ReviewTask :=
  { t with
    payload := t.payload.mask readable readableIn
    sensitive := t.sensitive && t.kind ≠ .masterApproval }

/-- What the columns of the approval of a master tell of the values that survive. -/
def marks (t : ReviewTask) : List Json :=
  if t.kind = .masterApproval then [.bool t.sensitive, .str t.payload.priority] else []

/-- The view of a task once its entity is looked up. -/
def view (readableIn : String → List String) (entity : Option Entity) (t : ReviewTask) : Json :=
  match entity with
  | none => serializeTask t t.payload.dict
  | some e => serializeTask t (filterPayload (readableIn e.domainKey) t.payload.dict)

theorem kind_of_mask {a b : ReviewTask} (h : a.mask readable readableIn = b.mask readable readableIn) :
    a.kind = b.kind := TaskPayload.kind_of_mask (congrArg ReviewTask.payload h)

theorem serializeTask_eq_iff {a b : ReviewTask} {p q : Dict}
    (hab : a.mask readable readableIn = b.mask readable readableIn) :
    serializeTask a p = serializeTask b q ↔ a.marks = b.marks ∧ p = q := by
  have hkind : a.kind = b.kind := kind_of_mask hab
  simp only [mask, ReviewTask.mk.injEq] at hab
  obtain ⟨hid, hworkspace, hentity, hstatus, hproposed, hpayload, hbound, hsensitive, hreason, hdecided⟩ :=
    hab
  by_cases hmaster : b.kind = .masterApproval
  · simp [serializeTask, marks, hid, hworkspace, hentity, hstatus, hproposed, hbound, hreason, hdecided,
      hkind, hmaster]
    tauto
  · have hpriority : a.payload.priority = b.payload.priority :=
      TaskPayload.priority_of_mask hpayload hmaster
    simp only [hkind, hmaster, ne_eq, not_false_eq_true, decide_true, Bool.and_true] at hsensitive
    simp [serializeTask, marks, hid, hworkspace, hentity, hstatus, hproposed, hbound, hsensitive, hreason,
      hdecided, hkind, hmaster, hpriority]

theorem reveals (readableIn : String → List String) (entity : Option Entity) :
    Reveals (mask (fieldsOf readableIn entity) readableIn) (view readableIn entity)
      fun t => t.marks ++ t.payload.secrets entity.isSome (fieldsOf readableIn entity) readableIn := by
  have hmarks : Reveals (mask (fieldsOf readableIn entity) readableIn) marks marks := by
    refine ⟨fun hab => ?_, fun _ => Iff.rfl⟩
    unfold marks
    rw [kind_of_mask hab]
    split <;> rfl
  have hboth : ∀ {shown : TaskPayload → Dict} {secrets : TaskPayload → List Json},
      Reveals (TaskPayload.mask (fieldsOf readableIn entity) readableIn) shown secrets →
      Reveals (mask (fieldsOf readableIn entity) readableIn)
        (fun t => serializeTask t (shown t.payload)) fun t => t.marks ++ secrets t.payload := by
    intro shown secrets h
    refine (hmarks.prod (h.comap ReviewTask.payload)).of_imp (fun a b hab => ?_) fun a b hab => ?_
    · exact Prod.ext hab (congrArg ReviewTask.payload hab)
    · rw [serializeTask_eq_iff hab, Prod.mk.injEq]
  cases entity with
  | none => exact hboth TaskPayload.reveals
  | some e => exact hboth TaskPayload.reveals_filtered

end ReviewTask

namespace MasteringService

/-- A task with what its reader may not read blanked out. -/
def maskTask (self : MasteringService) (s : Store) (task : ReviewTask) : ReviewTask :=
  task.mask (fieldsOf (self.readableFields s) (self.taskEntity s task)) (self.readableFields s)

/-- What the view of a task tells of values that its reader may not read. -/
def taskSecrets (self : MasteringService) (s : Store) (task : ReviewTask) : List Json :=
  task.marks ++ task.payload.secrets (self.taskEntity s task).isSome
    (fieldsOf (self.readableFields s) (self.taskEntity s task)) (self.readableFields s)

theorem taskView_reveals : Reveals (self.maskTask s) (self.taskView s) (self.taskSecrets s) := by
  have h : Reveals (self.maskTask s)
      (fun t => t.view (self.readableFields s) (self.taskEntity s t)) (self.taskSecrets s) := by
    refine Reveals.keyed (self.taskEntity s) (fun a b hab => ?_)
      fun entity => ReviewTask.reveals (self.readableFields s) entity
    have hentity := congrArg ReviewTask.entityId hab
    change a.entityId = b.entityId at hentity
    rw [taskEntity, hentity, taskEntity]
  refine h.of_imp (fun _ _ hab => hab) fun a b _ => ?_
  have hview : ∀ t, self.taskView s t = t.view (self.readableFields s) (self.taskEntity s t) := by
    intro t
    unfold taskView ReviewTask.view
    split <;> simp_all
  rw [hview, hview]

theorem mem_listedTasks {status : Option String} {task : ReviewTask}
    (h : task ∈ self.listedTasks s status) : task ∈ s.tasks :=
  List.mem_of_mem_filter (List.mem_reverse.mp (List.mem_of_mem_take h))

/-- A simulation with what its reader may not read blanked out. -/
def maskSimulation (self : MasteringService) (s : Store) (x : Simulation) : Simulation :=
  { x with result := x.result.mask (self.readableFields s) }

def simulationSecrets (self : MasteringService) (s : Store) (x : Simulation) : List Json :=
  x.result.secrets (self.readableFields s)

theorem simulationView_reveals :
    Reveals (self.maskSimulation s) (self.simulationView s) (self.simulationSecrets s) := by
  refine (SimulationResult.reveals.comap Simulation.result).of_imp
    (fun _ _ hab => congrArg Simulation.result hab) fun a b hab => ?_
  simp only [maskSimulation, Simulation.mk.injEq] at hab
  obtain ⟨hid, hworkspace, hconfig, hcheckpoint, hresult⟩ := hab
  have hhash := congrArg SimulationResult.snapshotHash hresult
  change a.result.snapshotHash = b.result.snapshotHash at hhash
  simp [simulationView, hid, hworkspace, hconfig, hcheckpoint, hhash]

end MasteringService

/-- What two states that differ in the values of fields a principal may not read have in common: the
tables that hold no values, and the rows of the others up to those values and what is derived from
them. Tables that no view reads may differ at will. -/
structure SameUpToValues (svc : MasteringService) (s t : Store) : Prop where
  domains : t.domains = s.domains
  entities : t.entities = s.entities
  objects : t.objects = s.objects
  cannotLinks : t.cannotLinks = s.cannotLinks
  records : List.Forall₂ (fun r r' => AgreeOn (svc.readableFields s r.domainKey) r r') s.records
    t.records
  tasks : s.tasks.map (svc.maskTask s) = t.tasks.map (svc.maskTask s)
  simulations : s.simulations.map (svc.maskSimulation s) = t.simulations.map (svc.maskSimulation s)

/-- The review list, the list of simulations and the assistant's evidence of reviews are the same. -/
def SameResponses (svc : MasteringService) (s t : Store) : Prop :=
  (∀ status, svc.reviewTasks s status = svc.reviewTasks t status) ∧
    svc.simulations s = svc.simulations t ∧
    ∀ domainKey taskIds,
      svc.assistantEvidence s domainKey taskIds = svc.assistantEvidence t domainKey taskIds

/-- What these responses tell of values that the principal may not read is the same: match evidence, the
impact of configurations and simulations hold such values, and the approval of a master is marked by
them. -/
def SameSecrets (svc : MasteringService) (s t : Store) : Prop :=
  (∀ status, (svc.listedTasks s status).flatMap (svc.taskSecrets s) =
    (svc.listedTasks t status).flatMap (svc.taskSecrets s)) ∧
    (svc.listedSimulations s).flatMap (svc.simulationSecrets s) =
      (svc.listedSimulations t).flatMap (svc.simulationSecrets s) ∧
    ((∃ domainKey, (svc.domain? s domainKey).isSome) → ∀ taskId, taskId ≠ "" →
      (svc.task? s taskId).map (svc.taskSecrets s) = (svc.task? t taskId).map (svc.taskSecrets s))

namespace SameUpToValues

variable {svc : MasteringService} {t : Store} (h : SameUpToValues svc s t)

include h

theorem readableFields : svc.readableFields t = svc.readableFields s := by
  funext key
  simp only [MasteringService.readableFields, MasteringService.domain?, h.domains]

theorem taskView : svc.taskView t = svc.taskView s := by
  funext task
  simp only [MasteringService.taskView, MasteringService.taskEntity, h.entities, h.readableFields]

theorem simulationView : svc.simulationView t = svc.simulationView s := by
  have hcount : svc.dataCheckpoint t = svc.dataCheckpoint s := by
    have hrecords := h.records
    unfold MasteringService.dataCheckpoint
    generalize s.records = rs at hrecords
    generalize t.records = rs' at hrecords
    induction hrecords with
    | nil => rfl
    | cons hr _ ih =>
      have hkey := hr.key
      simp only [Prod.mk.injEq] at hkey
      rw [List.filter_cons, List.filter_cons, hkey.1]
      split
      · rw [List.length_cons, List.length_cons, ih]
      · exact ih
  have hhash : svc.snapshotHash t = svc.snapshotHash s := by
    unfold MasteringService.snapshotHash
    rw [h.domains, h.entities, h.objects, h.cannotLinks]
  funext x
  unfold MasteringService.simulationView
  rw [hhash, hcount]

theorem listedTasks (status : Option String) :
    (svc.listedTasks s status).map (svc.maskTask s) =
      (svc.listedTasks t status).map (svc.maskTask s) := by
  unfold MasteringService.listedTasks
  rw [List.map_take, List.map_reverse, List.map_take, List.map_reverse]
  refine congrArg (List.take 200) (congrArg List.reverse ?_)
  exact map_filter_mask (fun _ => rfl) h.tasks

theorem listedSimulations :
    (svc.listedSimulations s).map (svc.maskSimulation s) =
      (svc.listedSimulations t).map (svc.maskSimulation s) := by
  unfold MasteringService.listedSimulations
  rw [List.map_reverse, List.map_reverse]
  exact congrArg List.reverse (map_filter_mask (fun _ => rfl) h.simulations)

theorem task? (taskId : Id) :
    (svc.task? s taskId).map (svc.maskTask s) = (svc.task? t taskId).map (svc.maskTask s) :=
  map_find_mask (fun _ => rfl) h.tasks

theorem reviewTasks_iff (status : Option String) :
    svc.reviewTasks s status = svc.reviewTasks t status ↔
      (svc.listedTasks s status).flatMap (svc.taskSecrets s) =
        (svc.listedTasks t status).flatMap (svc.taskSecrets s) := by
  unfold MasteringService.reviewTasks
  rw [h.taskView]
  exact MasteringService.taskView_reveals.list.view_eq_iff (h.listedTasks status)

theorem simulations_iff : svc.simulations s = svc.simulations t ↔
    (svc.listedSimulations s).flatMap (svc.simulationSecrets s) =
      (svc.listedSimulations t).flatMap (svc.simulationSecrets s) := by
  unfold MasteringService.simulations
  rw [h.simulationView]
  exact MasteringService.simulationView_reveals.list.view_eq_iff h.listedSimulations

theorem reviewEvidence_iff {taskId : Id} (hid : taskId ≠ "") :
    svc.reviewEvidence s taskId = svc.reviewEvidence t taskId ↔
      (svc.task? s taskId).map (svc.taskSecrets s) = (svc.task? t taskId).map (svc.taskSecrets s) := by
  have hmask := h.task? taskId
  unfold MasteringService.reviewEvidence
  rw [if_neg hid, if_neg hid, h.taskView]
  cases hs : svc.task? s taskId <;> cases ht : svc.task? t taskId <;>
    simp only [hs, ht, Option.map_none, Option.map_some, reduceCtorEq, Option.some.injEq] at hmask ⊢
  have hiff := MasteringService.taskView_reveals.view_eq_iff hmask
  simpa using hiff

theorem assistantEvidence_iff :
    (∀ domainKey taskIds,
        svc.assistantEvidence s domainKey taskIds = svc.assistantEvidence t domainKey taskIds) ↔
      ((∃ domainKey, (svc.domain? s domainKey).isSome) → ∀ taskId, taskId ≠ "" →
        (svc.task? s taskId).map (svc.taskSecrets s) =
          (svc.task? t taskId).map (svc.taskSecrets s)) := by
  have hdomain : ∀ key, svc.domain? t key = svc.domain? s key := by
    intro key
    simp only [MasteringService.domain?, h.domains]
  constructor
  · rintro hsame ⟨key, hkey⟩ taskId hid
    obtain ⟨domain, hfound⟩ := Option.isSome_iff_exists.mp hkey
    rw [← h.reviewEvidence_iff hid]
    have hone := hsame key [taskId]
    simp only [MasteringService.assistantEvidence, hdomain, hfound, List.mapM_cons, List.mapM_nil]
      at hone
    cases hs : svc.reviewEvidence s taskId <;> cases ht : svc.reviewEvidence t taskId <;>
      simp_all [bind, Except.bind, pure, Except.pure]
  · intro hsecrets key taskIds
    unfold MasteringService.assistantEvidence
    rw [hdomain]
    cases hfound : svc.domain? s key with
    | none => rfl
    | some domain =>
      have hone : ∀ taskId, svc.reviewEvidence s taskId = svc.reviewEvidence t taskId := by
        intro taskId
        by_cases hid : taskId = ""
        · unfold MasteringService.reviewEvidence
          rw [if_pos hid, if_pos hid]
        · exact (h.reviewEvidence_iff hid).mpr (hsecrets ⟨key, by rw [hfound]; rfl⟩ taskId hid)
      rw [funext hone]

end SameUpToValues

/-- In two states that differ in the values of fields a principal may not read, it gets the same
responses if and only if the match evidence, the impact of configurations, the simulations and the marks
of master approvals that it is shown tell the same of those values. -/
theorem sameResponses_iff (svc : MasteringService) (s t : Store) (h : SameUpToValues svc s t) :
    SameResponses svc s t ↔ SameSecrets svc s t := by
  unfold SameResponses SameSecrets
  rw [h.simulations_iff, h.assistantEvidence_iff]
  simp only [h.reviewTasks_iff]

deriving instance DecidableEq for Domain, Entity, SourceObject, SourceObjectCannotLink, Contradiction,
  MatchEvidence, LinkChange, ValidationChange, MasterChange, PolicySimulation, SimulationResult,
  MergeImpact, TaskPayload, ReviewTask, Simulation

instance {svc : MasteringService} {t : Store} : Decidable (SameUpToValues svc s t) :=
  decidable_of_iff (_ ∧ _ ∧ _ ∧ _ ∧ _ ∧ _ ∧ _)
    ⟨fun ⟨h₁, h₂, h₃, h₄, h₅, h₆, h₇⟩ => ⟨h₁, h₂, h₃, h₄, h₅, h₆, h₇⟩,
      fun ⟨h₁, h₂, h₃, h₄, h₅, h₆, h₇⟩ => ⟨h₁, h₂, h₃, h₄, h₅, h₆, h₇⟩⟩

namespace Supplier

/-- The definition under which stewards alone read a note. -/
def discreet : Dict := definition.set "attributes" (.arr [.obj [("key", .str "name")],
  .obj [("key", .str "city")],
  .obj [("key", .str "note"), ("read_roles", .arr [.str "steward"])]])

/-- A supplier with a note, as two sources tell of it. -/
def noted (localId note : String)
    (localId_fits : decide (1 ≤ localId.length ∧ localId.length ≤ 255) = true := by exact Eq.refl true) :
    IncomingRecord :=
  { observation localId "1" [] localId_fits with
    values := [("name", .str "A"), ("city", .str "X"), ("note", .str note)]
    values_bound := by simp
    values_nodup := by simp [Dict.keys] }

/-- The note of the second source survives; a configuration prefers the first one. -/
def noting (erp crm : String) : List Request := [
  .createDomain (steward "alice") "supplier" "Supplier" "coexistence" discreet,
  .createSource (steward "alice") "erp" "ERP" "csv" 100,
  .createSource (steward "alice") "crm" "CRM" "csv" 50,
  ingest [noted "a" erp],
  .ingest (steward "alice") { batch [noted "b" crm] with sourceKey := "crm" },
  .createConfig (steward "alice") (.obj [("domains", .obj [("supplier", .obj (discreet.set
    "survivorship" (.obj [("note", .obj [("strategy", .str "source_priority_then_observation_time"),
      ("source_precedence", .arr [.str "erp", .str "crm"])])])))])])]

mutual

def weigh : Json → Nat
  | .arr xs => weighList xs + 1
  | .obj kvs => weighEntries kvs + 1
  | _ => 1

def weighList : List Json → Nat
  | [] => 0
  | x :: xs => weigh x + weighList xs

def weighEntries : List (String × Json) → Nat
  | [] => 0
  | (_, v) :: kvs => weigh v + weighEntries kvs

end

/-- A runtime whose digests are short: they count the parts of a document. -/
def terse : Runtime :=
  { Runtime.plain with digest := fun v => String.ofList (List.replicate (weigh v % 16) 'h') }

def notingStore (erp crm : String) : Store :=
  (service terse).run (Store.empty workspace) (noting erp crm)

/-- The same, and the configuration has been simulated. -/
def simulatedStore (erp crm : String) : Store :=
  (service terse).run (Store.empty workspace)
    (noting erp crm ++ [.simulate (steward "alice") (uid 23)])

def readerService : MasteringService := ⟨terse, reader, workspace⟩

/-- What the tasks of these suppliers tell of values: no master that is to be approved has a number. -/
def unmarked (task : ReviewTask) : List Json :=
  if task.kind = .masterApproval then [.bool false, .str "normal"] else []

/-- Before the simulation nothing that the reader is shown holds a note. -/
theorem sameResponses_iff_noting :
    SameResponses readerService (notingStore "x" "y") (notingStore "u" "v") := by
  have hsame : SameUpToValues readerService (notingStore "x" "y") (notingStore "u" "v") := by
    decide +kernel
  have hunmarked : (∀ task ∈ (notingStore "x" "y").tasks,
      readerService.taskSecrets (notingStore "x" "y") task =
        unmarked (readerService.maskTask (notingStore "x" "y") task)) ∧
      (∀ task ∈ (notingStore "u" "v").tasks, readerService.taskSecrets (notingStore "x" "y") task =
        unmarked (readerService.maskTask (notingStore "x" "y") task)) ∧
      (notingStore "x" "y").simulations = [] ∧ (notingStore "u" "v").simulations = [] := by
    decide +kernel
  obtain ⟨htasks, htasks', hsimulations, hsimulations'⟩ := hunmarked
  refine (sameResponses_iff readerService _ _ hsame).mpr ⟨fun status => ?_, ?_, fun _ taskId _ => ?_⟩
  · have hlisted : ∀ {tasks listed : List ReviewTask}, (∀ task ∈ listed, task ∈ tasks) →
        (∀ task ∈ tasks, readerService.taskSecrets (notingStore "x" "y") task =
          unmarked (readerService.maskTask (notingStore "x" "y") task)) →
        listed.flatMap (readerService.taskSecrets (notingStore "x" "y")) =
          (listed.map (readerService.maskTask (notingStore "x" "y"))).flatMap unmarked := by
      intro tasks listed hmem hall
      rw [List.flatMap_map, List.flatMap_congr]
      exact fun task htask => hall task (hmem task htask)
    rw [hlisted (fun _ hmem => MasteringService.mem_listedTasks hmem) htasks,
      hlisted (fun _ hmem => MasteringService.mem_listedTasks hmem) htasks', hsame.listedTasks status]
  · simp only [MasteringService.listedSimulations, hsimulations, hsimulations', List.filter_nil]
  · have hfound := hsame.task? taskId
    cases hs : readerService.task? (notingStore "x" "y") taskId with
    | none =>
        rw [hs, Option.map_none] at hfound
        rw [Option.map_eq_none_iff.mp hfound.symm]
    | some task =>
        rw [hs, Option.map_some] at hfound
        obtain ⟨other, ht, hmask⟩ := Option.map_eq_some_iff.mp hfound.symm
        rw [ht, Option.map_some, Option.map_some, htasks _ (List.mem_of_find?_eq_some hs),
          htasks' _ (List.mem_of_find?_eq_some ht), hmask]

/-- The simulation shows the reader notes that it may not read. -/
theorem simulations_leak :
    (Reachable terse workspace (simulatedStore "x" "y") ∧
      Reachable terse workspace (simulatedStore "u" "v")) ∧
      SameUpToValues readerService (simulatedStore "x" "y") (simulatedStore "u" "v") ∧
      ¬ SameResponses readerService (simulatedStore "x" "y") (simulatedStore "u" "v") := by
  have hleak : SameUpToValues readerService (simulatedStore "x" "y") (simulatedStore "u" "v") ∧
      (readerService.listedSimulations (simulatedStore "x" "y")).flatMap
          (readerService.simulationSecrets (simulatedStore "x" "y")) ≠
        (readerService.listedSimulations (simulatedStore "u" "v")).flatMap
          (readerService.simulationSecrets (simulatedStore "x" "y")) := by
    decide +kernel
  exact ⟨⟨⟨_, rfl⟩, ⟨_, rfl⟩⟩, hleak.1, fun h => hleak.2 (hleak.1.simulations_iff.mp h.2.1)⟩

end Supplier

end Recordlane
