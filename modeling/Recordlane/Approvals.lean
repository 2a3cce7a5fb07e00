import Recordlane.Governance
import Recordlane.Numbering

/-! What an open approval shows a steward is what survives at the time, unless a reconfiguration
came in between. -/
namespace Recordlane

variable {rt : Runtime} {w : Workspace} {self : MasteringService} {s t : Store} {e : Entity}
  {op : Operation}

/-- A master of the entity waits for its approval. -/
def AwaitsApproval (s : Store) (x : Id) : Prop :=
  ∃ task ∈ s.tasks, task.isOpenApproval ∧ task.entityId = some x

instance {x : Id} : Decidable (AwaitsApproval s x) :=
  inferInstanceAs (Decidable (∃ task ∈ s.tasks, task.isOpenApproval ∧ task.entityId = some x))

/-- The newest master of a live entity that awaits approval has the values that survive. -/
structure Current (svc : MasteringService) (p : Point) : Prop where
  numbered : Numbered svc.rt svc.workspace p
  values : ∀ e ∈ p.store.entities, e.status ≠ .merged → e.id ∉ p.outdated →
    AwaitsApproval p.store e.id → ∀ m ∈ p.store.masters, m.entityId = e.id → m.version = e.version →
      svc.survivors p.store e = .ok m.values

theorem current_empty : Current self (Store.empty self.workspace).settled :=
  ⟨numbered_empty, by simp [Store.settled, Store.empty]⟩

/-- An entity is not owed a draft while its newest master has its version. -/
theorem Numbered.version_le {owed : List Id} {V : Set Id} {m : MasterVersion}
    (h : Numbered rt w ⟨s, owed, V⟩) (hm : m ∈ s.masters) :
    m.version ≤ (s.mastersOf m.entityId).length := by
  have hversions : (s.mastersOf m.entityId).map MasterVersion.version =
      List.range' 1 (s.mastersOf m.entityId).length := h.versions m.entityId
  have hmem : m ∈ s.mastersOf m.entityId := List.mem_filter.mpr ⟨hm, by simp⟩
  have hrange : m.version ∈ List.range' 1 (s.mastersOf m.entityId).length :=
    hversions ▸ List.mem_map_of_mem hmem
  rw [List.mem_range'_1] at hrange
  omega

theorem AwaitsApproval.of_settled {f : ReviewTask → ReviewTask} {id x : Id} (hf : Settles f)
    (h : AwaitsApproval (s.modifyTask id f) x) : AwaitsApproval s x := by
  obtain ⟨task, htask, hopen, hx⟩ := h
  have hmem := (settled_sublist hf).subset (List.mem_filter.mpr ⟨htask, hopen⟩)
  exact ⟨task, List.mem_of_mem_filter hmem, hopen, hx⟩

namespace Current

variable {owed owed' : List Id} {V V' : Set Id}

theorem of_values (h : Current self ⟨s, owed, V⟩) (hn : Numbered self.rt self.workspace ⟨t, owed', V'⟩)
    (hentities : t.entities = s.entities) (hmasters : t.masters = s.masters)
    (htasks : ∀ x, AwaitsApproval t x → AwaitsApproval s x)
    (hvalues : ∀ e ∈ s.entities, e.id ∉ V' → e.id ∉ V ∧ ∀ values,
      self.survivors s e = .ok values → self.survivors t e = .ok values) : Current self ⟨t, owed', V'⟩ := by
  refine ⟨hn, fun e he hlive hout hopen m hm hentity hversion => ?_⟩
  dsimp only at he hopen hm
  rw [hentities] at he
  rw [hmasters] at hm
  obtain ⟨hV, hkept⟩ := hvalues e he hout
  exact hkept m.values (h.values e he hlive hV (htasks e.id hopen) m hm hentity hversion)

/-- Another entity than the one whose masters or tasks changed. -/
theorem draft {x : Id} {m : MasterVersion} (h : Current self ⟨s, x :: owed, V⟩) (hx : x ∉ owed)
    (hdraft : self.draftMaster s x = .ok (t, m)) : Current self ⟨t, owed, V \ {x}⟩ := by
  have hn : Numbered self.rt self.workspace ⟨t, owed, V \ {x}⟩ := h.numbered.draft rfl rfl hx hdraft
  obtain ⟨e₀, rfl, hd⟩ := MasteringService.draftMaster_drafted hdraft
  have hsurvivors : ∀ e, self.survivors t e = self.survivors s e := fun _ =>
    MasteringService.survivors_of_tables hd.domains hd.sources hd.objects hd.records
  have hlatest : m.version = (s.mastersOf e₀.id).length + 1 := by
    rw [hd.version, h.numbered.latest]
  refine ⟨hn, fun e he hlive hout hopen m' hm' hentity hversion => ?_⟩
  dsimp only at he hopen hm' ⊢
  rw [hd.entities] at he
  rw [hd.masters] at hm'
  rw [hsurvivors]
  rcases List.mem_append.mp hm' with hm' | hm'
  · by_cases hid : e.id = e₀.id
    · have hcount : e.version = (s.mastersOf e.id).length + (e₀.id :: owed).count e.id :=
        h.numbered.counts e he
      have hle := h.numbered.version_le hm'
      rw [hid, List.count_cons_self] at hcount
      rw [hentity, hid, hversion] at hle
      omega
    · have hV : e.id ∉ V := fun hV => hout ⟨hV, hid⟩
      refine h.values e he hlive hV ?_ m' hm' hentity hversion
      obtain ⟨task, htask, htaskopen, htaskid⟩ := hopen
      obtain ⟨task', hasks, htasks⟩ := hd.tasks
      rw [htasks] at htask
      rcases List.mem_append.mp htask with htask | htask
      · have hold := (h.numbered.staleApproval_open (x := e₀.id) rfl).1.subset
          (List.mem_filter.mpr ⟨htask, htaskopen⟩)
        exact ⟨task, List.mem_of_mem_filter hold, htaskopen, htaskid⟩
      · rw [List.mem_singleton.mp htask, hasks.entityId] at htaskid
        exact (hid (Option.some.inj htaskid).symm).elim
  · rw [List.mem_singleton.mp hm'] at hentity ⊢
    have he₀ : e = e₀ := h.numbered.entityIds.eq_of_mem he hd.entity (hentity.symm.trans hd.owner)
    rw [he₀]
    exact hd.values

end Current

theorem Move.current {p q : Point} (hm : Move self p q) (h : Current self p) : Current self q := by
  have hn := hm.numbered h.numbered
  cases hm with
  | @shift s t owed V X hs =>
    refine h.of_values hn hs.entities hs.masters (fun x hx => ?_) fun e he hout => ?_
    · rw [AwaitsApproval, hs.tasks] at hx
      exact hx
    · rw [Set.mem_union, not_or] at hout
      exact ⟨hout.1, hs.values e he hout.2⟩
  | @ask s task owed V ht =>
    refine h.of_values hn rfl rfl (fun x hx => ?_) fun e _ hout => ⟨hout, fun _ hvalues => hvalues⟩
    obtain ⟨task', htask', hopen, hid⟩ := hx
    rcases List.mem_append.mp htask' with htask' | htask'
    · exact ⟨task', htask', hopen, hid⟩
    · rw [List.mem_singleton.mp htask'] at hopen
      simp [ReviewTask.isOpenApproval, ht] at hopen
  | settle hf =>
    exact h.of_values hn rfl rfl (fun x hx => hx.of_settled hf)
      fun e _ hout => ⟨hout, fun _ hvalues => hvalues⟩
  | @bump s x owed V =>
    refine ⟨hn, fun e' he' hlive hout hopen m hm hentity hversion => ?_⟩
    obtain ⟨e, he, rfl⟩ := List.mem_map.mp he'
    have hid : (Recordlane.bump x e).id = e.id := (bump_row e he).1
    rw [hid] at hentity hout hopen
    by_cases hx : e.id = x
    · have hcount : e.version = (s.mastersOf e.id).length + owed.count e.id := h.numbered.counts e he
      have hle := h.numbered.version_le hm
      have hbumped : (Recordlane.bump x e).version = e.version + 1 := by
        unfold Recordlane.bump onRow
        rw [if_pos hx]
      rw [hentity, hversion, hbumped] at hle
      omega
    · have hsame : Recordlane.bump x e = e := if_neg hx
      rw [hsame] at hlive hversion ⊢
      exact h.values e he hlive hout hopen m hm hentity hversion
  | @create s e₀ V hid hv =>
    refine ⟨hn, fun e he hlive hout hopen m hm hentity hversion => ?_⟩
    rcases List.mem_append.mp he with he | he
    · exact h.values e he hlive hout hopen m hm hentity hversion
    · obtain ⟨-, e', he', howner⟩ := h.numbered.masters m hm
      have hdrawn := (h.numbered.entities e' he').ne_uid
      rw [List.mem_singleton.mp he] at hentity
      exact (hdrawn (howner.trans (hentity.trans hid))).elim
  | draft hx hd => exact h.draft hx hd
  | @merge s x owed V =>
    refine ⟨hn, fun e' he' hlive hout hopen m hm hentity hversion => ?_⟩
    obtain ⟨e, he, rfl⟩ := List.mem_map.mp he'
    have hne : e.id ≠ x := by
      intro hx
      simp [retireEntity, hx] at hlive
    have hsame : retireEntity [x] e = e := if_neg (by simpa using hne)
    rw [hsame] at hlive hout hopen hentity hversion ⊢
    exact h.values e he hlive (fun hV => hout ⟨hV, hne⟩) hopen m hm hentity hversion
  | announce _ =>
    exact h.of_values hn rfl rfl (fun x hx => hx) fun e _ hout => ⟨hout, fun _ hvalues => hvalues⟩
  | @approve s t task e₀ version values provenance reason f V ht hp ho he₀ hid hb ha hf =>
    obtain ⟨draft, event, happroved⟩ := MasteringService.approveMaster_approved ha
    have hopen₀ : task.isOpenApproval := by
      simp [ReviewTask.isOpenApproval, ReviewTask.kind, hp, TaskPayload.kind, ho]
    refine ⟨hn, fun e' he' hlive hout hopen m hm hentity hversion => ?_⟩
    change e' ∈ t.entities at he'
    change m ∈ t.masters at hm
    rw [happroved.entities] at he'
    obtain ⟨e, he, rfl⟩ := List.mem_map.mp he'
    rw [approveEntity_id] at hentity hout hopen
    by_cases hx : e.id = e₀.id
    · -- The only open approval of the entity is the one just decided.
      obtain ⟨task', htask', hopen', hid'⟩ := hopen
      rcases Table.mem_modify.mp htask' with ⟨htask', hne⟩ | ⟨old, -, -, rfl⟩
      · rw [happroved.tasks] at htask'
        refine (hne ?_).elim
        rw [List.inj_on_of_nodup_map h.numbered.single (List.mem_filter.mpr ⟨htask', hopen'⟩)
          (List.mem_filter.mpr ⟨ht, hopen₀⟩) (hid'.trans (hx ▸ hid.symm))]
      · rw [hf.open? old] at hopen'
        cases hopen'
    · have hsame : approveEntity e₀.id e = e := if_neg hx
      rw [hsame] at hlive hversion ⊢
      have hawaits : AwaitsApproval s e.id := by
        have hsettled := hopen.of_settled hf
        rw [AwaitsApproval, happroved.tasks] at hsettled
        exact hsettled
      rw [show self.survivors (t.modifyTask task.id f) e = self.survivors s e from
        MasteringService.survivors_of_tables happroved.domains happroved.sources happroved.objects
          happroved.records]
      rw [happroved.masters] at hm
      rcases Table.mem_modify.mp hm with ⟨hm, -⟩ | ⟨m₀, hm₀, -, rfl⟩
      · exact h.values e he hlive hout hawaits m hm hentity hversion
      · exact h.values e he hlive hout hawaits m₀ hm₀ hentity hversion

/-- The operation replaces a source, approves a configuration or imports a bundle over what is there. -/
def Operation.reconfigures (rt : Runtime) (s : Store) : Operation → Bool
  | .request made => made.reconfigures rt s
  | .importBundle _ _ replaceExisting _ => replaceExisting
  | .assistantDraft .. | .failJob .. => false

/-- An operation that reconfigures changes the values of a live entity that awaits approval. -/
def Outdates (rt : Runtime) (w : Workspace) (s : Store) (op : Operation) : Prop :=
  let self : MasteringService := ⟨rt, workerPrincipal w.id, w⟩
  let s' := (operations rt).next s op
  op.reconfigures rt s ∧ ∃ e ∈ s'.entities, e.status ≠ .merged ∧ AwaitsApproval s' e.id ∧
    ∃ e₀ ∈ s.entities, e₀.id = e.id ∧ ∃ values, self.survivors s e₀ = .ok values ∧
      self.survivors s' e₀ ≠ .ok values

/-- Entities, masters, tasks and events are the same. -/
structure SameLedger (s t : Store) : Prop where
  entities : t.entities = s.entities
  masters : t.masters = s.masters
  tasks : t.tasks = s.tasks
  outbox : t.outbox = s.outbox
  drawn : s.drawn ≤ t.drawn

namespace SameLedger

theorem refl (s : Store) : SameLedger s s := ⟨rfl, rfl, rfl, rfl, le_rfl⟩

theorem trans {u : Store} (h : SameLedger s t) (h' : SameLedger t u) : SameLedger s u where
  entities := h'.entities.trans h.entities
  masters := h'.masters.trans h.masters
  tasks := h'.tasks.trans h.tasks
  outbox := h'.outbox.trans h.outbox
  drawn := h.drawn.trans h'.drawn

end SameLedger

namespace MasteringService

/-! What an import does to the ledger: nothing, and nothing to surviving values either where it leaves
what exists as it is. -/

theorem createDomain_ledger {key name mode : String} {definition : Dict} {d : Domain}
    (h : self.createDomain s key name mode definition = .ok (t, d)) : SameLedger s t := by
  unfold createDomain at h
  split at h
  · cases h
  · simp only [Except.bind_eq_ok, Except.pure_eq_ok, Prod.mk.injEq] at h
    obtain ⟨policy, -, rfl, -⟩ := h
    exact ⟨rfl, rfl, rfl, rfl, Nat.le_add_right _ 2⟩

theorem createConfig_ledger {document : Json} {c : ConfigurationVersion}
    (h : self.createConfig s document = .ok (t, c)) : SameLedger s t := by
  unfold createConfig at h
  split at h
  · cases h
  · simp only [Except.bind_eq_ok, Except.pure_eq_ok, Prod.mk.injEq] at h
    obtain ⟨policies, -, rfl, -⟩ := h
    exact ⟨rfl, rfl, rfl, rfl, Nat.le_add_right _ 2⟩

theorem importDomain_ledger {replaceExisting : Bool} {state state' : Store × Imported} {item : BundleDomain}
    (h : self.importDomain replaceExisting state item = .ok state') : SameLedger state.1 state'.1 ∧
      (replaceExisting = false → Moves self state.1.settled state'.1.settled) := by
  unfold importDomain at h
  dsimp only at h
  rw [Except.bind_eq_ok] at h
  obtain ⟨policy, -, h⟩ := h
  split at h
  · split at h
    · cases h
      exact ⟨.refl _, fun _ => .refl⟩
    · split at h
      · cases h
      · next hreplace =>
        cases h
        refine ⟨⟨rfl, rfl, rfl, rfl, le_rfl⟩, fun hkeep => ?_⟩
        rw [hkeep] at hreplace
        exact (hreplace rfl).elim
  · simp only [Except.bind_eq_ok, Except.pure_eq_ok, Prod.exists] at h
    obtain ⟨definition, -, u, d, hcreate, rfl⟩ := h
    exact ⟨createDomain_ledger hcreate, fun _ => createDomain_moves hcreate⟩

theorem importSource_ledger {replaceExisting : Bool} {state state' : Store × Imported} {item : BundleSource}
    (h : self.importSource replaceExisting state item = .ok state') : SameLedger state.1 state'.1 ∧
      (replaceExisting = false → Moves self state.1.settled state'.1.settled) := by
  unfold importSource at h
  dsimp only at h
  split at h
  · split at h
    · cases h
      exact ⟨.refl _, fun _ => .refl⟩
    · split at h
      · cases h
      · next hreplace =>
        cases h
        refine ⟨⟨rfl, rfl, rfl, rfl, le_rfl⟩, fun hkeep => ?_⟩
        rw [hkeep] at hreplace
        exact (hreplace rfl).elim
  · cases h
    exact ⟨⟨rfl, rfl, rfl, rfl, Nat.le_succ _⟩, fun _ => Moves.shift (.extended rfl rfl rfl rfl
      (Nat.le_succ _) (domainsKept_of_eq rfl) (ranksKept_append rfl) rfl rfl)⟩

theorem importConfiguration_ledger {state state' : Store × Imported} {document : Dict}
    (h : self.importConfiguration state document = .ok state') :
    SameLedger state.1 state'.1 ∧ Moves self state.1.settled state'.1.settled := by
  unfold importConfiguration at h
  dsimp only at h
  split at h
  · rw [Except.pure_eq_ok] at h
    rw [← h]
    exact ⟨.refl _, .refl⟩
  · simp only [Except.bind_eq_ok, Except.pure_eq_ok, Prod.exists] at h
    obtain ⟨u, c, hcreate, rfl⟩ := h
    exact ⟨createConfig_ledger hcreate, createConfig_moves hcreate⟩

theorem importBundle_ledger {bundle : WorkspaceBundle} {replaceExisting : Bool} {imported : Imported}
    (h : self.importBundle s bundle replaceExisting = .ok (t, imported)) :
    SameLedger s t ∧ (replaceExisting = false → Moves self s.settled t.settled) := by
  unfold importBundle at h
  split at h
  · cases h
  · simp only [Except.bind_eq_ok, Except.pure_eq_ok, Prod.exists, Prod.mk.injEq] at h
    obtain ⟨-, -, s₁, n₁, hdomains, s₂, n₂, hsources, s₃, n₃, hconfigurations, rfl, -⟩ := h
    let P (state : Store × Imported) : Prop :=
      SameLedger s state.1 ∧ (replaceExisting = false → Moves self s.settled state.1.settled)
    have h₁ : P (s₁, n₁) := Except.foldlM_invariant (P := P) hdomains ⟨.refl s, fun _ => .refl⟩
      fun u item u' _ hu hstep =>
        have hstep := importDomain_ledger hstep
        ⟨hu.1.trans hstep.1, fun hkeep => (hu.2 hkeep).trans (hstep.2 hkeep)⟩
    have h₂ : P (s₂, n₂) := Except.foldlM_invariant (P := P) hsources h₁ fun u item u' _ hu hstep =>
      have hstep := importSource_ledger hstep
      ⟨hu.1.trans hstep.1, fun hkeep => (hu.2 hkeep).trans (hstep.2 hkeep)⟩
    have h₃ : P (s₃, n₃) := Except.foldlM_invariant (P := P) hconfigurations h₂
      fun u document u' _ hu hstep =>
        have hstep := importConfiguration_ledger hstep
        ⟨hu.1.trans hstep.1, fun hkeep => (hu.2 hkeep).trans hstep.2⟩
    exact ⟨h₃.1.trans ⟨rfl, rfl, rfl, rfl, Nat.le_succ _⟩,
      fun hkeep => (h₃.2 hkeep).trans (Moves.shift (self.audit_shift ..))⟩

theorem assistantDraft_moves {purpose : String} {draft : Option Json} {configId : Option Id}
    (h : self.assistantDraft s purpose draft = .ok (t, configId)) : Moves self s.settled t.settled := by
  unfold assistantDraft at h
  split at h
  · split at h
    · split at h
      · next hcreate =>
        simp only [pure_bind, Except.pure_eq_ok, Prod.mk.injEq] at h
        obtain ⟨rfl, -⟩ := h
        exact (createConfig_moves hcreate).trans (Moves.shift (self.audit_shift ..))
      · cases h
      · cases h
    · simp only [pure_bind, Except.pure_eq_ok, Prod.mk.injEq] at h
      obtain ⟨rfl, -⟩ := h
      exact Moves.shift (self.audit_shift ..)
  · simp only [pure_bind, Except.pure_eq_ok, Prod.mk.injEq] at h
    obtain ⟨rfl, -⟩ := h
    exact Moves.shift (self.audit_shift ..)

theorem failJob_moves {jobId : Id} (h : self.failJob s jobId = .ok t) : Moves self s.settled t.settled := by
  obtain ⟨jobs, -, rfl⟩ := failJob_writes h
  exact Moves.shift (.idle rfl rfl rfl rfl le_rfl rfl rfl rfl rfl)

end MasteringService

/-- Every operation is a sequence of moves, up to the values it changes where it reconfigures. -/
theorem next_operation_moves (hi : Integrity rt w s) (op : Operation) : ∃ who,
    Moves ⟨rt, who, w⟩ s.settled ((operations rt).next s op).settled ∨
      op.reconfigures rt s ∧ Moves ⟨rt, who, w⟩ s.settled
        ⟨(operations rt).next s op, [], Revalued ⟨rt, who, w⟩ s ((operations rt).next s op)⟩ := by
  cases ho : operate rt s op with
  | error e =>
    rw [show (operations rt).next s op = s by simp only [System.next, operations, ho]]
    exact ⟨workerPrincipal w.id, .inl .refl⟩
  | ok committed =>
    obtain ⟨t, reply⟩ := committed
    have hnext : (operations rt).next s op = t := by simp only [System.next, operations, ho]
    cases op with
    | request request =>
      rw [(next_request request).1]
      exact ⟨request.who, next_moves hi request⟩
    | assistantDraft who purpose draft =>
      rw [hnext]
      simp only [operate, Except.bind_eq_ok, Except.pure_eq_ok, Prod.exists, Prod.mk.injEq] at ho
      obtain ⟨self, hself, u, configId, hdraft, rfl, -⟩ := ho
      obtain ⟨-, rfl⟩ := authorized_start hi.workspaces hself
      exact ⟨who, .inl (MasteringService.assistantDraft_moves hdraft)⟩
    | importBundle who bundle replaceExisting targetWorkspace =>
      rw [hnext]
      simp only [operate, Except.bind_eq_ok, Except.pure_eq_ok, Prod.exists, Prod.mk.injEq] at ho
      obtain ⟨self, hself, u, imported, himport, rfl, -⟩ := ho
      obtain ⟨-, who', rfl⟩ := importTarget_start hi.workspaces hself
      obtain ⟨hledger, hkept⟩ := MasteringService.importBundle_ledger himport
      refine ⟨who', ?_⟩
      cases replaceExisting with
      | false => exact .inl (hkept rfl)
      | true =>
        exact .inr ⟨rfl, MasteringService.shift_moves (shift_revalued hledger.entities hledger.masters hledger.tasks
          hledger.outbox hledger.drawn)⟩
    | failJob workspaceId jobId =>
      rw [hnext]
      simp only [operate, Except.bind_eq_ok, Except.pure_eq_ok, Prod.mk.injEq] at ho
      obtain ⟨self, hself, u, hfail, rfl, -⟩ := ho
      obtain rfl := start_workspace hi.workspaces hself
      exact ⟨workerPrincipal workspaceId, .inl (MasteringService.failJob_moves hfail)⟩

theorem Current.who {who who' : Principal} {p : Point} (h : Current ⟨rt, who, w⟩ p) :
    Current ⟨rt, who', w⟩ p := ⟨h.numbered, h.values⟩

theorem current_run (who : Principal) {ops : List Operation}
    (h : (operations rt).Along (fun s op => ¬ Outdates rt w s op) (Store.empty w) ops) :
    Integrity rt w ((operations rt).run (Store.empty w) ops) ∧
      Current ⟨rt, who, w⟩ ((operations rt).run (Store.empty w) ops).settled := by
  have hmoves : ∀ {who p q}, Moves ⟨rt, who, w⟩ p q → Current ⟨rt, who, w⟩ p → Current ⟨rt, who, w⟩ q := by
    intro who p q hm hp
    induction hm with
    | refl => exact hp
    | tail _ hlast ih => exact hlast.current ih
  have hrun := (operations rt).run_invariant
    (P := fun s => (Integrity rt w s ∧ Registered rt s) ∧ Current ⟨rt, who, w⟩ s.settled)
    ⟨operations_sound rt w [], current_empty⟩ h fun s op hs hcurrent => ?_
  · exact ⟨hrun.1.1, hrun.2⟩
  refine ⟨next_sound hs.1.1 hs.1.2 op, ?_⟩
  obtain ⟨actor, hm | ⟨hreconfigures, hm⟩⟩ := next_operation_moves hs.1.1 op
  · exact (hmoves hm hs.2.who).who
  · have hafter := hmoves hm hs.2.who
    refine ⟨hafter.numbered.of_tables rfl rfl rfl le_rfl, fun e he hlive _ hopen m hm => ?_⟩
    refine hafter.values e he hlive (fun hout => hcurrent ?_) hopen m hm
    obtain ⟨e₀, he₀, hid, hvalues⟩ := hout
    exact ⟨hreconfigures, e, he, hlive, hopen, e₀, he₀, hid, hvalues⟩

/-- Whoever approves the master of a live entity approves what survives at the time. -/
def ApprovesTruth (rt : Runtime) (w : Workspace) (s : Store) : Prop :=
  ∀ (who : Principal) (taskId : Id) (reason : String) (task : ReviewTask) (version : Nat)
    (values provenance : Dict) (e : Entity),
    (s.tasks.find? fun t => t.id = taskId && t.workspaceId = w.id) = some task →
    task.payload = .masterApproval version values provenance →
    e ∈ s.entities → task.entityId = some e.id → e.status ≠ .merged →
    ((service rt).step s (.decideTask who taskId .approve reason)).2.isOk →
    ∃ m ∈ ((service rt).next s (.decideTask who taskId .approve reason)).masters,
      m.entityId = e.id ∧ m.version = version ∧ m.status = .approved ∧
        MasteringService.survivors ⟨rt, who, w⟩ s e = .ok m.values

theorem MasteringService.decideTask_approved {taskId : Id} {reason : String} {task : ReviewTask}
    {version : Nat} {values provenance : Dict} {s' : Store}
    (hfind : (s.tasks.find? fun t => t.id = taskId && t.workspaceId = self.wid) = some task)
    (hp : task.payload = .masterApproval version values provenance)
    (hd : self.decideTask s taskId .approve reason = .ok (s', .ok ())) :
    task.status = .opened ∧ ∃ t, self.approveMaster s task (self.taskEntity s task) version reason = .ok t ∧
      s' = self.closeTask t task .approve reason := by
  rw [decideTask, hfind] at hd
  dsimp only at hd
  split at hd
  · cases hd
  · next hopen =>
    split at hd
    · cases hd
    · split at hd
      · cases hd
      · split at hd
        · cases hd
        · simp only [applyDecision, hp, Except.bind_eq_ok, Except.pure_eq_ok] at hd
          obtain ⟨a, ⟨t, ht, rfl⟩, hd⟩ := hd
          cases hd
          exact ⟨not_not.mp hopen, t, ht, rfl⟩

theorem Current.approvesTruth (h : ∀ who, Current ⟨rt, who, w⟩ s.settled) (hi : Integrity rt w s) :
    ApprovesTruth rt w s := by
  intro who taskId reason task version values provenance e hfind hp he hid hlive hok
  let self : MasteringService := ⟨rt, who, w⟩
  cases ht : transact rt s (.decideTask who taskId .approve reason) with
  | error raised =>
    simp only [service, ht] at hok
    cases hok
  | ok committed =>
    obtain ⟨s', answer⟩ := committed
    simp only [service, ht] at hok
    have hnext : (service rt).next s (.decideTask who taskId .approve reason) = s' := by
      simp only [System.next, service, ht]
    obtain ⟨-, hserve⟩ := transact_serve hi.workspaces ht
    simp only [serve, Except.bind_eq_ok, Except.pure_eq_ok, Prod.exists, Prod.mk.injEq] at hserve
    obtain ⟨_, answer', hdecide, rfl, rfl⟩ := hserve
    cases answer' with
    | error raised => cases hok
    | ok _ =>
      obtain ⟨hopen, t, happrove, rfl⟩ := self.decideTask_approved hfind hp hdecide
      have hmem : task ∈ s.tasks := List.mem_of_find?_eq_some hfind
      have hentity : self.taskEntity s task = some e := self.taskEntity_of_mem hi he hid
      rw [hentity] at happrove
      obtain ⟨draft, event, ha⟩ := MasteringService.approveMaster_approved happrove
      obtain ⟨hdraft, howner, hversion, -⟩ := ha.drafted
      have howner : draft.entityId = e.id := Option.some.inj (howner.trans hid)
      have hisopen : task.isOpenApproval := by
        simp [ReviewTask.isOpenApproval, ReviewTask.kind, hp, TaskPayload.kind, hopen]
      have hnewest : draft.version = e.version := by
        obtain ⟨-, e', he', hid', -, _, _, hpayload⟩ := (h who).numbered.approvals task hmem hisopen
        have hcount : e.version = (s.mastersOf e.id).length := (h who).numbered.counts e he
        rw [hp, TaskPayload.masterApproval.injEq, ← Option.some.inj (hid.symm.trans hid')] at hpayload
        rw [hversion, hcount, hpayload.1]
        rfl
      rw [hnext]
      refine ⟨approveDraft self reason draft, ?_, howner, hversion, rfl, ?_⟩
      · change _ ∈ t.masters
        rw [ha.masters]
        exact Table.mem_modify.mpr (.inr ⟨draft, hdraft, rfl, rfl⟩)
      · exact (h who).values e he hlive (by simp [Store.settled]) ⟨task, hmem, hisopen, hid⟩ draft hdraft
          howner hnewest

/-- In every run in which no source is replaced, no bundle is imported and no configuration is activated
in a way that changes the values of a live entity awaiting approval, every approval publishes current
truth. -/
theorem approvals_current {ops : List Operation}
    (h : (operations rt).Along (fun s op => ¬ Outdates rt w s op) (Store.empty w) ops) :
    ApprovesTruth rt w ((operations rt).run (Store.empty w) ops) :=
  Current.approvesTruth (fun who => (current_run who h).2)
    (current_run (workerPrincipal w.id) h).1

namespace Supplier

/-- A bundle that brings a source. -/
def thirdSource : WorkspaceBundle where
  apiVersion := .str "recordlane.io/v1alpha1"
  kind := .str "WorkspaceBundle"
  domains := []
  sources := [⟨"web", "Web", "csv", 70, true⟩]
  configurations := []

/-- Two sources contribute, and a third one comes with a bundle. -/
def thirdSourced : List Operation :=
  (setup ++ rivals).map .request ++ [.importBundle modeler thirdSource false none]

/-- The first source is to prevail over the second one. -/
def promote : Request := .replaceSource (steward "alice") "erp" "erp" "ERP" "csv" 10

end Supplier

open Supplier in
theorem approvals_current_rivals : ApprovesTruth .plain workspace
    ((operations .plain).run (Store.empty workspace) thirdSourced) := by
  have hquiet : (operations .plain).Along (fun s op => op.reconfigures .plain s = false)
      (Store.empty workspace) thirdSourced := by decide +kernel
  exact approvals_current (hquiet.mono fun _ _ hr ho =>
    Bool.false_ne_true (hr.symm.trans ho.1))

open Supplier in
theorem promote_not_truth :
    ¬ ∀ s, Reachable .plain workspace s → ApprovesTruth .plain workspace s := by
  intro h
  have htruth := h (after (rivals ++ [promote])) ⟨setup ++ _, rfl⟩
  have htask : ((after (rivals ++ [promote])).tasks.find? fun t =>
      t.id = uid 21 && t.workspaceId = workspace.id).map (fun t => (t.kind, t.entityId)) =
        some (.masterApproval, some (uid 10)) := by decide +kernel
  obtain ⟨e, he, hid, hlive, hsurvivors⟩ : ∃ e ∈ (after (rivals ++ [promote])).entities,
      e.id = uid 10 ∧ e.status ≠ .merged ∧
        ((MasteringService.survivors ⟨.plain, steward "bob", workspace⟩ (after (rivals ++ [promote]))
          e).toOption.all fun values => !(values.get "note").pyEq (.str "crm")) = true := by
    decide +kernel
  have hok : ((service .plain).step (after (rivals ++ [promote])) (approve (uid 21))).2.isOk := by
    decide +kernel
  have happroved : ∀ m ∈ ((service .plain).next (after (rivals ++ [promote])) (approve (uid 21))).masters,
      m.status = .approved → (m.values.get "note").pyEq (.str "crm") := by decide +kernel
  obtain ⟨task, hfind, hfields⟩ := Option.map_eq_some_iff.mp htask
  obtain ⟨hkind, hentity⟩ := Prod.mk.inj hfields
  cases hp : task.payload with
  | masterApproval version values provenance =>
    obtain ⟨m, hm, -, -, hstatus, hvalues⟩ := htruth (steward "bob") (uid 21) "checked" task version
      values provenance e hfind hp he (hentity.trans (congrArg some hid.symm)) hlive hok
    rw [hvalues] at hsurvivors
    simp [Except.toOption, happroved m hm hstatus] at hsurvivors
  | _ => simp [ReviewTask.kind, hp, TaskPayload.kind] at hkind

end Recordlane
