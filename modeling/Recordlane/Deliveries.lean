import Recordlane.Replays
import Recordlane.Webhooks

/-! Webhook deliveries, overlapping and cut off: the bodies that are ingested under an event id. -/
namespace Recordlane

variable {svr : WebhookServer} {w : Workspace} {st : Inbox} {s s' t : Store} {d : SignedRequest}
  {event : WebhookEvent} {p q : InFlight} {n : Nat}

/-- The event that a delivery in flight has claimed, with its body. -/
def InFlight.claim (p : InFlight) : EventKey × String := (p.event.key, p.body)

/-- Where a delivery is verified, no other body of its event is in flight, and one that was ingested has
its idempotency record. -/
def Undisturbed (svr : WebhookServer) (st : Inbox) : InboxEvent → Prop
  | .deliver d =>
    match svr.openEvent st.store d with
    | .ok event => (∀ p ∈ st.inFlight, p.event.key = event.key → p.body = d.body) ∧
        ∀ e ∈ st.ingested, e.1 = event.key → e.2 ≠ d.body → ∃ r ∈ st.records, r.key = event.key
    | .error _ => True
  | _ => True

/-- Claims on one event are claims for one body. -/
def OneBody (claims : List (EventKey × String)) : Prop :=
  ∀ e ∈ claims, ∀ e' ∈ claims, e.1 = e'.1 → e.2 = e'.2

instance (claims : List (EventKey × String)) : Decidable (OneBody claims) :=
  inferInstanceAs (Decidable (∀ e ∈ claims, ∀ e' ∈ claims, e.1 = e'.1 → e.2 = e'.2))

instance instDecidableUndisturbed : (i : InboxEvent) → Decidable (Undisturbed svr st i)
  | .deliver d =>
    match h : svr.openEvent st.store d with
    | .ok event => decidable_of_iff ((∀ p ∈ st.inFlight, p.event.key = event.key → p.body = d.body) ∧
        ∀ e ∈ st.ingested, e.1 = event.key → e.2 ≠ d.body → ∃ r ∈ st.records, r.key = event.key)
        (by simp only [Undisturbed, h])
    | .error _ => .isTrue (by simp only [Undisturbed, h])
  | .ingest _ | .store _ | .crash _ => .isTrue trivial

/-- What a step does to the binding of event ids: one body is ingested under each, only a body that is
new to its event changes mastering, and any other body is refused without effect. -/
structure Binds (svr : WebhookServer) (st : Inbox) (i : InboxEvent) : Prop where
  one : OneBody (svr.system.next st i).ingested
  repeated : SameMastering st.store (svr.system.next st i).store ∨
    ∃ n p, i = .ingest n ∧ st.inFlight[n]? = some p ∧ p.claim ∉ st.ingested
  refused : ∀ d event, i = .deliver d → svr.openEvent st.store d = .ok event →
    (∃ e ∈ st.ingested, e.1 = event.key ∧ e.2 ≠ d.body) →
      svr.system.step st i = (st, some (httpError 409 "webhook_event_id_conflict" []))

/-- The sources, up to their checkpoints. -/
def Store.sourceColumns (s : Store) : List (Id × Id × String × String) :=
  s.sources.map fun x => (x.id, x.workspaceId, x.key, x.kind)

/-- The webhook source under a key. -/
def webhookSource (w : Workspace) (s : Store) (key : String) : Option Source :=
  s.sources.find? fun x => x.workspaceId = w.id && x.key = key && x.kind = "webhook"

/-- What a delivery in flight has read of its body and its source. -/
structure Reads (svr : WebhookServer) (w : Workspace) (s : Store) (p : InFlight) : Prop where
  service : p.event.svc.rt = svr.rt ∧ p.event.svc.workspace = w
  source : (webhookSource w s p.event.source.key).map Source.id = some p.event.source.id
  envelope : svr.loads p.body = some (.obj p.event.envelope)
  eventId : p.event.eventId = svr.rt.strOf ((p.event.envelope.get? "event_id").getD (.str ""))
  domain : p.event.domain = svr.rt.strOf ((p.event.envelope.get? "domain").getD (.str ""))
  incoming : svr.eventRecord (svr.config p.event.source.id) p.event.envelope = .ok p.incoming
  hash : p.requestHash = svr.crypto.sha256 p.body

theorem webhookSource_of_columns (h : t.sourceColumns = s.sourceColumns) (key : String) :
    (webhookSource w t key).map Source.id = (webhookSource w s key).map Source.id := by
  have hfind : ∀ u : Store, (webhookSource w u key).map Source.id = (u.sourceColumns.find? fun x =>
      x.2.1 = w.id && x.2.2.1 = key && x.2.2.2 = "webhook").map Prod.fst := by
    intro u
    simp [webhookSource, Store.sourceColumns, List.find?_map, Function.comp_def]
  rw [hfind, hfind, h]

theorem source?_of_columns {svc : MasteringService} (h : t.sourceColumns = s.sourceColumns) (key : String) :
    (svc.source? t key).map Source.id = (svc.source? s key).map Source.id := by
  have hfind : ∀ u : Store, (svc.source? u key).map Source.id = (u.sourceColumns.find? fun x =>
      x.2.1 = svc.wid && x.2.2.1 = key).map Prod.fst := by
    intro u
    simp [MasteringService.source?, Store.sourceColumns, List.find?_map, Function.comp_def]
  rw [hfind, hfind, h]

theorem Reads.of_columns (h : Reads svr w s p) (ht : t.sourceColumns = s.sourceColumns) :
    Reads svr w t p :=
  { h with source := (webhookSource_of_columns ht _).trans h.source }

theorem append_text_injective (l : String) : Function.Injective (l ++ ·) := by
  intro a b h
  have hchars : l.toList ++ a.toList = l.toList ++ b.toList := by
    rw [← String.toList_append, ← String.toList_append]
    exact congrArg String.toList h
  exact String.toList_injective (List.append_cancel_left hchars)

theorem Reads.request_eq (h : Reads svr w s p) (h' : Reads svr w s q) (hc : p.claim = q.claim) :
    p.request = q.request := by
  obtain ⟨hkey, hbody⟩ := Prod.mk.inj hc
  simp only [WebhookEvent.key, Prod.mk.injEq] at hkey
  have hsource : p.event.source.key = q.event.source.key := append_text_injective _ hkey.2.1
  have hid : p.event.source.id = q.event.source.id := by
    have hp := h.source
    rw [hsource, h'.source] at hp
    exact (Option.some.inj hp).symm
  have henvelope : p.event.envelope = q.event.envelope := by
    have hp := h.envelope
    rw [hbody, h'.envelope] at hp
    exact (Json.obj.inj (Option.some.inj hp)).symm
  have hdomain : p.event.domain = q.event.domain := by rw [h.domain, h'.domain, henvelope]
  have hincoming : p.incoming = q.incoming := by
    have hp := h.incoming
    rw [hid, henvelope, h'.incoming] at hp
    exact (Except.ok.inj hp).symm
  simp only [InFlight.request, hsource, hdomain, hincoming]

/-- The record of a delivery is stored. -/
def Landed (svr : WebhookServer) (s : Store) (p : InFlight) : Prop :=
  ∃ x, (p.event.svc.source? s p.event.source.key).map Source.id = some x ∧
    Holds svr.rt s x p.event.domain p.incoming

/-- The state of the endpoint: deliveries in flight and ingested bodies agree with the store. -/
structure Served (svr : WebhookServer) (w : Workspace) (st : Inbox) : Prop where
  integrity : Integrity svr.rt w st.store
  reads : ∀ p ∈ st.inFlight, Reads svr w st.store p
  ingested : ∀ e ∈ st.ingested, ∃ p, p.claim = e ∧ Reads svr w st.store p ∧ Landed svr st.store p
  answered : ∀ p ∈ st.inFlight, p.answer.isSome → p.claim ∈ st.ingested
  stored : ∀ r ∈ st.records, ∃ body, (r.key, body) ∈ st.ingested ∧ r.requestHash = svr.crypto.sha256 body
  one : OneBody (st.ingested ++ st.inFlight.map InFlight.claim)

theorem served_opened (h : Integrity svr.rt w s) : Served svr w (.opened s) where
  integrity := h
  reads := by simp [Inbox.opened]
  ingested := by simp [Inbox.opened]
  answered := by simp [Inbox.opened]
  stored := by simp [Inbox.opened]
  one := by simp [Inbox.opened, OneBody]

/-! What a page does to the sources. -/

theorem Page.columns {self : MasteringService} {req : IngestRequest} (p : Page self s req)
    (h : Integrity self.rt self.workspace s) : p.finished.sourceColumns = s.sourceColumns := by
  rw [Store.sourceColumns, p.finished_sources h]
  exact Table.map_modify fun _ => rfl

/-! What a delivery that is verified has read. -/

theorem refuseValue_ok {α : Type} {status : Nat} {code : String} {x : Py α} {a : α}
    (h : refuseValue status code x = .ok a) : x = .ok a := by
  unfold refuseValue at h
  split at h
  · cases h
  · cases h
  · exact h

theorem verifyHmac_ok {receivedAt : ℚ} {body timestamp signature secret : String} {envelope : Dict}
    (h : verifyHmac svr receivedAt body timestamp signature secret = .ok envelope) :
    svr.loads body = some (.obj envelope) := by
  unfold verifyHmac at h
  split at h
  · cases h
  · split at h
    · cases h
    · split at h
      · cases h
      · split at h
        · next hloads =>
          cases h
          exact hloads
        · cases h

theorem openEvent_ok (hw : s.workspaces = [w]) (h : svr.openEvent s d = .ok event) :
    (event.svc.rt = svr.rt ∧ event.svc.workspace = w) ∧
      (webhookSource w s event.source.key).map Source.id = some event.source.id ∧
      svr.loads d.body = some (.obj event.envelope) ∧
      event.eventId = svr.rt.strOf ((event.envelope.get? "event_id").getD (.str "")) ∧
      event.domain = svr.rt.strOf ((event.envelope.get? "domain").getD (.str "")) := by
  unfold WebhookServer.openEvent at h
  split at h
  · split at h
    · cases h
    · rw [Except.bind_eq_ok] at h
      obtain ⟨svc, hsvc, h⟩ := h
      obtain rfl := start_workspace hw hsvc
      split at h
      · cases h
      · next source hfound =>
        simp only at h
        split at h
        · cases h
        · split at h
          · cases h
          · rw [Except.bind_eq_ok] at h
            obtain ⟨envelope, hverified, h⟩ := h
            split at h
            · cases h
            · cases h
              have hkey : source.key = d.sourceKey := by
                have hmatch := List.find?_some hfound
                simp only [Bool.and_eq_true, decide_eq_true_eq] at hmatch
                exact hmatch.1.2
              refine ⟨⟨rfl, rfl⟩, ?_, verifyHmac_ok (refuseValue_ok hverified), rfl, rfl⟩
              have hsource : webhookSource w s source.key = some source := by
                rw [webhookSource, hkey]
                exact hfound
              rw [hsource, Option.map_some]
  · cases h

/-- A delivery that goes on has read its event, and finds no record of its key. -/
theorem deliver_inFlight (hw : st.store.workspaces = [w]) (h : svr.deliver st d = .ok (.inr p)) :
    svr.openEvent st.store d = .ok p.event ∧ p.body = d.body ∧ p.answer = none ∧
      Reads svr w st.store p ∧ ∀ r ∈ st.records, r.key ≠ p.event.key := by
  unfold WebhookServer.deliver at h
  rw [Except.bind_eq_ok] at h
  obtain ⟨event, hopened, h⟩ := h
  simp only at h
  split at h
  · split at h <;> cases h
  · next hnone =>
    rw [Except.bind_eq_ok] at h
    obtain ⟨incoming, hincoming, h⟩ := h
    cases h
    obtain ⟨hservice, hsource, henvelope, heventId, hdomain⟩ := openEvent_ok hw hopened
    refine ⟨hopened, rfl, rfl, ⟨hservice, hsource, henvelope, heventId, hdomain, hincoming, rfl⟩, ?_⟩
    exact fun r hr => by simpa using List.find?_eq_none.mp hnone r hr

/-- The record of a delivery is ingested on a page of its own. -/
theorem ingest_inFlight (hi : Integrity svr.rt w s) (hr : Reads svr w s p) {answer : IngestAnswer}
    (h : p.event.svc.ingest s p.request = .ok (s', answer)) :
    Integrity svr.rt w s' ∧ Retains s s' ∧ s'.sourceColumns = s.sourceColumns ∧ Landed svr s' p ∧
      (Landed svr s p → SameMastering s s') := by
  obtain ⟨⟨hrt, hworkspace⟩, -⟩ := hr
  have hi : Integrity p.event.svc.rt p.event.svc.workspace s := by rwa [hrt, hworkspace]
  rcases MasteringService.ingest_cases h with ⟨-, _, _, _, -, hbegins, -⟩ | ⟨page, rfl, -⟩
  · -- without a run there is no page that was taken before
    cases hbegins
  · have hcolumns := page.columns hi
    obtain ⟨hretains, hholds⟩ := page.finished_holds hi
    have hsource : (p.event.svc.source? s p.event.source.key).map Source.id = some page.source.id := by
      rw [show p.event.source.key = p.request.sourceKey from rfl, page.source_found, Option.map_some]
    have hlanded : Landed svr page.finished p := by
      refine ⟨page.source.id, (source?_of_columns hcolumns _).trans hsource, ?_⟩
      have hwork : p.incoming ∈ page.work := by
        rw [page.work_eq rfl]
        exact List.mem_singleton_self _
      exact hrt ▸ hholds p.incoming hwork
    refine ⟨?_, hretains, hcolumns, hlanded, ?_⟩
    · rw [← hrt, ← hworkspace]
      exact (page.invariant hi (P := fun _ => True) trivial (fun _ _ _ _ => trivial)
        fun _ _ _ _ _ _ _ _ => trivial).1
    · rintro ⟨x, hx, hholds⟩
      rw [hsource, Option.some.injEq] at hx
      subst hx
      refine (page.finished_of_holds hi rfl fun item hitem => ?_).1
      rw [List.mem_singleton.mp hitem, hrt]
      exact hholds

theorem Landed.retained (h : Landed svr s p) (hr : Retains s t) (hc : t.sourceColumns = s.sourceColumns) :
    Landed svr t p := by
  obtain ⟨x, hx, hholds⟩ := h
  exact ⟨x, (source?_of_columns hc _).trans hx, hholds.retained hr⟩

theorem Landed.of_claim (h : Landed svr s q) (hp : Reads svr w s p) (hq : Reads svr w s q)
    (hc : p.claim = q.claim) : Landed svr s p := by
  have hrequest := hp.request_eq hq hc
  obtain ⟨x, hx, hholds⟩ := h
  have hsource : p.event.source.key = q.event.source.key := congrArg IngestRequest.sourceKey hrequest
  have hdomain : p.event.domain = q.event.domain := congrArg IngestRequest.domainKey hrequest
  have hincoming : p.incoming = q.incoming :=
    (List.cons.inj (congrArg IngestRequest.records hrequest)).1
  have hworkspace : p.event.svc.wid = q.event.svc.wid := by
    rw [MasteringService.wid, hp.service.2, MasteringService.wid, hq.service.2]
  refine ⟨x, ?_, ?_⟩
  · rw [hsource, MasteringService.source?, hworkspace]
    exact hx
  · rw [hdomain, hincoming]
    exact hholds

theorem OneBody.subset {cs ds : List (EventKey × String)} (h : OneBody ds) (hs : cs ⊆ ds) : OneBody cs :=
  fun e he e' he' => h e (hs he) e' (hs he')

theorem OneBody.append {cs : List (EventKey × String)} {c : EventKey × String} (h : OneBody cs)
    (hc : ∀ e ∈ cs, e.1 = c.1 → e.2 = c.2) : OneBody (cs ++ [c]) := by
  intro e he e' he' heq
  rcases List.mem_append.mp he with he | he
  · rcases List.mem_append.mp he' with he' | he'
    · exact h e he e' he' heq
    · rw [List.mem_singleton.mp he'] at heq ⊢
      exact hc e he heq
  · rw [List.mem_singleton.mp he] at heq ⊢
    rcases List.mem_append.mp he' with he' | he'
    · exact (hc e' he' heq.symm).symm
    · rw [List.mem_singleton.mp he']

namespace Served

theorem leave (h : Served svr w st) {answer : Option (Py WebhookAnswer)} :
    Served svr w (WebhookServer.leave st n answer).1 where
  integrity := h.integrity
  reads p hp := h.reads p (List.mem_of_mem_eraseIdx hp)
  ingested := h.ingested
  answered p hp := h.answered p (List.mem_of_mem_eraseIdx hp)
  stored := h.stored
  one := by
    refine h.one.subset (List.append_subset.mpr ⟨List.subset_append_left _ _, fun e he => ?_⟩)
    obtain ⟨p, hp, rfl⟩ := List.mem_map.mp he
    exact List.mem_append_right _ (List.mem_map_of_mem (List.mem_of_mem_eraseIdx hp))

theorem deliver (h : Served svr w st) (hΦ : Undisturbed svr st (.deliver d))
    (hd : svr.deliver st d = .ok (.inr p)) : Served svr w { st with inFlight := st.inFlight ++ [p] } := by
  obtain ⟨hopened, hbody, hnone, hreads, hfree⟩ := deliver_inFlight h.integrity.workspaces hd
  simp only [Undisturbed, hopened] at hΦ
  obtain ⟨hflight, hrecorded⟩ := hΦ
  refine ⟨h.integrity, fun q hq => ?_, h.ingested, fun q hq hanswer => ?_, h.stored, ?_⟩
  · rcases List.mem_append.mp hq with hq | hq
    · exact h.reads q hq
    · exact List.mem_singleton.mp hq ▸ hreads
  · rcases List.mem_append.mp hq with hq | hq
    · exact h.answered q hq hanswer
    · rw [List.mem_singleton.mp hq, hnone] at hanswer
      cases hanswer
  · rw [List.map_append, ← List.append_assoc]
    refine h.one.append fun e he hkey => ?_
    rcases List.mem_append.mp he with he | he
    · -- an ingested body of the event is this one, or it would have its record
      by_contra hne
      obtain ⟨r, hr, heq⟩ := hrecorded e he hkey (hbody ▸ hne)
      exact hfree r hr heq
    · obtain ⟨q, hq, rfl⟩ := List.mem_map.mp he
      exact (hflight q hq hkey).trans hbody.symm

theorem ingest (h : Served svr w st) (hp : st.inFlight[n]? = some p) {answer : IngestAnswer}
    (hingest : p.event.svc.ingest st.store p.request = .ok (s', answer)) :
    Served svr w { st with
      store := s'
      inFlight := st.inFlight.set n { p with answer := some answer }
      ingested := st.ingested ++ [(p.event.key, p.body)] } := by
  have hmem : p ∈ st.inFlight := List.mem_of_getElem? hp
  have hreads := h.reads p hmem
  obtain ⟨hi, hretains, hcolumns, hlanded, -⟩ := ingest_inFlight h.integrity hreads hingest
  have hset : ∀ q ∈ st.inFlight.set n { p with answer := some answer },
      q ∈ st.inFlight ∨ q = { p with answer := some answer } := fun q hq => List.mem_or_eq_of_mem_set hq
  refine ⟨hi, fun q hq => ?_, fun e he => ?_, fun q hq hanswer => ?_, fun r hr => ?_, ?_⟩
  · rcases hset q hq with hq | rfl
    · exact (h.reads q hq).of_columns hcolumns
    · have hsame := hreads.of_columns hcolumns
      exact ⟨hsame.service, hsame.source, hsame.envelope, hsame.eventId, hsame.domain, hsame.incoming,
        hsame.hash⟩
  · rcases List.mem_append.mp he with he | he
    · obtain ⟨q, hclaim, hq, hland⟩ := h.ingested e he
      exact ⟨q, hclaim, hq.of_columns hcolumns, hland.retained hretains hcolumns⟩
    · exact ⟨p, (List.mem_singleton.mp he).symm, hreads.of_columns hcolumns, hlanded⟩
  · rcases hset q hq with hq | rfl
    · exact List.mem_append_left _ (h.answered q hq hanswer)
    · exact List.mem_append_right _ (List.mem_singleton_self _)
  · obtain ⟨body, hbody, hhash⟩ := h.stored r hr
    exact ⟨body, List.mem_append_left _ hbody, hhash⟩
  · have hclaimed : p.claim ∈ st.ingested ++ st.inFlight.map InFlight.claim :=
      List.mem_append_right _ (List.mem_map_of_mem hmem)
    refine h.one.subset (List.append_subset.mpr ⟨List.append_subset.mpr
      ⟨List.subset_append_left _ _, ?_⟩, fun e he => ?_⟩)
    · exact fun e he => List.mem_singleton.mp he ▸ hclaimed
    · obtain ⟨q, hq, rfl⟩ := List.mem_map.mp he
      rcases hset q hq with hq | rfl
      · exact List.mem_append_right _ (List.mem_map_of_mem hq)
      · exact hclaimed

theorem store (h : Served svr w st) (hp : st.inFlight[n]? = some p) {answer : IngestAnswer}
    (hanswer : p.answer = some answer) {stored : WebhookAnswer} :
    Served svr w { st with records := st.records ++ [⟨p.event.key, p.requestHash, stored⟩] } := by
  have hmem : p ∈ st.inFlight := List.mem_of_getElem? hp
  refine ⟨h.integrity, h.reads, h.ingested, h.answered, fun r hr => ?_, h.one⟩
  rcases List.mem_append.mp hr with hr | hr
  · exact h.stored r hr
  · rw [List.mem_singleton.mp hr]
    exact ⟨p.body, h.answered p hmem (hanswer ▸ rfl), (h.reads p hmem).hash⟩

/-- A step keeps the state of the endpoint, and only the ingestion of a body that is new to its event
changes mastering. -/
theorem next (h : Served svr w st) {i : InboxEvent} (hΦ : Undisturbed svr st i) :
    Served svr w (svr.system.next st i) ∧ (SameMastering st.store (svr.system.next st i).store ∨
      ∃ n p, i = .ingest n ∧ st.inFlight[n]? = some p ∧ p.claim ∉ st.ingested) := by
  have same : Served svr w st ∧ (SameMastering st.store st.store ∨
      ∃ n p, i = .ingest n ∧ st.inFlight[n]? = some p ∧ p.claim ∉ st.ingested) := ⟨h, .inl (.refl _)⟩
  unfold System.next WebhookServer.system WebhookServer.step
  cases i with
  | deliver d =>
    simp only
    split
    · exact same
    · exact same
    · next hd => exact ⟨h.deliver hΦ hd, .inl (.refl _)⟩
  | ingest n =>
    simp only
    split
    · next p hp =>
      split
      · split
        · exact ⟨h.leave, .inl (.refl _)⟩
        · next s' answer hingest =>
          refine ⟨h.ingest hp hingest, ?_⟩
          have hmem : p ∈ st.inFlight := List.mem_of_getElem? hp
          by_cases hclaimed : p.claim ∈ st.ingested
          · obtain ⟨q, hclaim, hq, hlanded⟩ := h.ingested _ hclaimed
            obtain ⟨-, -, -, -, hskips⟩ := ingest_inFlight h.integrity (h.reads p hmem) hingest
            exact .inl (hskips (hlanded.of_claim (h.reads p hmem) hq hclaim.symm))
          · exact .inr ⟨n, p, rfl, hp, hclaimed⟩
      · exact same
    · exact same
  | store n =>
    simp only
    split
    · next p hp =>
      split
      · exact same
      · next answer hanswer =>
        split
        · exact ⟨h.leave, .inl (.refl _)⟩
        · exact ⟨(h.store hp hanswer).leave, .inl (.refl _)⟩
    · exact same
  | crash n => exact ⟨h.leave, .inl (.refl _)⟩

/-- A delivery that repeats an ingested event with another body is refused. -/
theorem refused (h : Served svr w st) (hinj : Function.Injective svr.crypto.sha256)
    (hΦ : Undisturbed svr st (.deliver d)) (hopened : svr.openEvent st.store d = .ok event)
    (he : ∃ e ∈ st.ingested, e.1 = event.key ∧ e.2 ≠ d.body) :
    svr.system.step st (.deliver d) = (st, some (httpError 409 "webhook_event_id_conflict" [])) := by
  obtain ⟨e, he, hkey, hne⟩ := he
  simp only [Undisturbed, hopened] at hΦ
  obtain ⟨r, hr, hrkey⟩ := hΦ.2 e he hkey hne
  have hconflict : svr.deliver st d = httpError 409 "webhook_event_id_conflict" [] := by
    simp only [WebhookServer.deliver, hopened, bind, Except.bind]
    cases hfound : st.records.find? fun r => r.key = event.key with
    | none => exact absurd hrkey (by simpa using List.find?_eq_none.mp hfound r hr)
    | some existing =>
      obtain ⟨body, hbody, hhash⟩ := h.stored existing (List.mem_of_find?_eq_some hfound)
      have hexisting : existing.key = event.key := by simpa using List.find?_some hfound
      -- the stored body is the ingested one, and its hash is another
      have hsame : body = e.2 := h.one _ (List.mem_append_left _ hbody) e (List.mem_append_left _ he)
        (hexisting.trans hkey.symm)
      have hdiffers : existing.requestHash ≠ svr.crypto.sha256 d.body := by
        rw [hhash, hsame]
        exact fun heq => hne (hinj heq)
      simp only [ne_eq, hdiffers, not_false_eq_true, if_true]
  simp only [WebhookServer.system, WebhookServer.step, hconflict, httpError]

end Served

/-- If every delivery comes when no other body of its event is in flight or ingested without its record,
an event id is bound to one body: throughout the run no other body is ingested under it, a repeated one
changes no mastering, and any other body is refused. -/
theorem events_bound (svr : WebhookServer) (w : Workspace) (s : Store) (events : List InboxEvent)
    (hs : Reachable svr.rt w s) (hinj : Function.Injective svr.crypto.sha256)
    (hΦ : svr.system.Along (Undisturbed svr) (.opened s) events) :
    svr.system.Along (Binds svr) (.opened s) events := by
  refine System.along_of_invariant (P := Served svr w) _ (served_opened (integrity_reachable hs)) hΦ
      fun st i h hi => ?_
  obtain ⟨hnext, hrepeated⟩ := h.next hi
  refine ⟨⟨hnext.one.subset (List.subset_append_left _ _), hrepeated, ?_⟩, hnext⟩
  rintro d event rfl hopened he
  exact h.refused hinj hi hopened he

namespace Supplier

/-- The body of the event `e1` with a record of one name. -/
def webhookBody (localId name : String) : String :=
  "\x7b\"event_id\": \"e1\", \"domain\": \"supplier\", \"format\": \"recordlane-1.0\", \"record\": " ++
    "\x7b\"local_id\": \"" ++ localId ++ "\", \"version\": \"1\", \"values\": \x7b\"name\": \"" ++ name ++
    "\"\x7d\x7d\x7d"

def webhookEnvelope (localId name : String) : Dict := [("event_id", .str "e1"),
  ("domain", .str "supplier"), ("format", .str "recordlane-1.0"),
  ("record", .obj [("local_id", .str localId), ("version", .str "1"),
    ("values", .obj [("name", .str name)])])]

/-- An endpoint that reads two bodies, with signatures that can be read. -/
def hook : WebhookServer where
  rt := { Runtime.plain with parseFloat := fun text => if text = "0" then some (.finite 0) else none }
  crypto := readable
  hmac secret text := secret ++ ":" ++ text
  loads text :=
    if text = webhookBody "a" "A" then some (.obj (webhookEnvelope "a" "A"))
    else if text = webhookBody "b" "B" then some (.obj (webhookEnvelope "b" "B"))
    else none
  readText path := if path = "/run/recordlane/inbound-webhook" then some "secret" else none
  incomingRecord fields :=
    if Dict.get fields "local_id" = .str "a" then some (observation "a" "1" [("name", .str "A")])
    else if Dict.get fields "local_id" = .str "b" then some (observation "b" "1" [("name", .str "B")])
    else none
  config _ := [("secret_ref", .str "file:/run/recordlane/inbound-webhook")]

/-- A workspace with a webhook source. -/
def hooked : Store := (service hook.rt).run (Store.empty workspace) [
  .createDomain (steward "alice") "supplier" "Supplier" "coexistence" definition,
  .createSource (steward "alice") "hook" "Hook" "webhook" 100]

def hookedIn (localId name : String) : InboxEvent := .deliver {
  workspaceSlug := "acme"
  sourceKey := "hook"
  signature := some ("secret:0." ++ webhookBody localId name)
  timestamp := some "0"
  body := webhookBody localId name
  receivedAt := 0 }

/-- The first delivery commits its ingestion and is cut off; then comes another body. -/
def cutOff : List InboxEvent := [hookedIn "a" "A", .ingest 0, .crash 0, hookedIn "b" "B", .ingest 0]

/-- The records of both bodies are ingested under one event id. -/
theorem event_ingested_twice :
    (hook.system.run (.opened hooked) cutOff).store.records.map SourceRecord.localId = ["a", "b"] ∧
      ¬hook.system.Along (Binds hook) (.opened hooked) cutOff := by
  have hrun : (hook.system.run (.opened hooked) cutOff).store.records.map SourceRecord.localId = ["a", "b"] ∧
      ¬OneBody (hook.system.run (.opened hooked) cutOff).ingested := by decide +kernel
  refine ⟨hrun.1, fun h => hrun.2 ?_⟩
  obtain ⟨-, -, -, -, hlast, -⟩ := h
  exact hlast.one

/-- The first delivery is recorded: it is repeated without effect, and the other body is refused. -/
theorem events_bound_recorded : hook.system.Along (Binds hook) (.opened hooked)
    [hookedIn "a" "A", .ingest 0, .store 0, hookedIn "a" "A", hookedIn "b" "B"] :=
  events_bound hook workspace hooked _ ⟨_, rfl⟩
    (append_text_injective "sha256:") (by decide +kernel)

end Supplier

end Recordlane
