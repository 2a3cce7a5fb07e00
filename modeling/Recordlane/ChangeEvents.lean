import Recordlane.Webhooks
import Recordlane.Redelivery
import Recordlane.Batches

/-! Change events of a database log, ingested one by one. -/
namespace Recordlane

variable {rt : Runtime} {w : Workspace} {self : MasteringService} {s t : Store} {source : Source}
  {domain : Domain} {policy : CompiledPolicy} {item : IncomingRecord} {request : Request}
  {sourceKey domainKey idField : String} {envelope : Json}

/-! What holds at each member of a list and those before it. -/

def AtEach {α : Type} (P : List α → α → Prop) (xs : List α) : Prop :=
  ∀ past x later, xs = past ++ x :: later → P past x

theorem atEach_nil {α : Type} {P : List α → α → Prop} : AtEach P [] :=
  fun past x later h => absurd h (by simp)

theorem atEach_concat {α : Type} {P : List α → α → Prop} {xs : List α} {x : α} :
    AtEach P (xs ++ [x]) ↔ AtEach P xs ∧ P xs x := by
  constructor
  · intro h
    exact ⟨fun past y later hxs => h past y (later ++ [x]) (by rw [hxs, List.append_assoc]; rfl),
      h xs x [] rfl⟩
  · rintro ⟨hall, hx⟩ past y later hxs
    rcases List.eq_nil_or_concat' later with rfl | ⟨before, z, rfl⟩
    · obtain ⟨rfl, hy⟩ := List.append_inj' hxs rfl
      cases hy
      exact hx
    · rw [← List.cons_append, ← List.append_assoc] at hxs
      obtain ⟨rfl, -⟩ := List.append_inj' hxs rfl
      exact hall past y before rfl

/-! Events and their place in the log. -/

/-- `envelope.get("payload", envelope)`. -/
def eventPayload : Json → Dict
  | .obj fields =>
    match (Dict.get? fields "payload").getD (.obj fields) with
    | .obj payload => payload
    | _ => []
  | _ => []

/-- `payload.get("source") or \x7b\x7d`. -/
def eventSource (envelope : Json) : Dict :=
  match Dict.get (eventPayload envelope) "source" with
  | .obj source => source
  | _ => []

/-- What the adapter takes for the position: `lsn`, or `pos`, or `ts_ms`. -/
def eventPosition (envelope : Json) : Json :=
  ((Dict.get (eventSource envelope) "lsn").orElse (Dict.get (eventSource envelope) "pos")).orElse
    (Dict.get (eventPayload envelope) "ts_ms")

/-- One event comes before another in the log: with a smaller `lsn`, or in an earlier file or earlier in
the same one. -/
def LogBefore (e e' : Json) : Prop :=
  (∃ m n : Nat, Dict.get (eventSource e) "lsn" = .int m ∧ Dict.get (eventSource e') "lsn" = .int n ∧
      m < n) ∨
    ∃ (file file' : String) (p q : Nat),
      Dict.get (eventSource e) "lsn" = .null ∧ Dict.get (eventSource e') "lsn" = .null ∧
      Dict.get (eventSource e) "file" = .str file ∧ Dict.get (eventSource e') "file" = .str file' ∧
      Dict.get (eventSource e) "pos" = .int p ∧ Dict.get (eventSource e') "pos" = .int q ∧
      (file < file' ∨ file = file' ∧ p < q)

theorem changeRecord_eq {localId version : String} {values : Dict} {sequence : Option Int} {deleted : Bool}
    (h : changeRecord localId version values sequence deleted = .ok item) :
    item.version = version ∧ item.sequence = sequence.map Int.toNat ∧ (∀ n ∈ sequence, 0 ≤ n) ∧
      item.updateMode = .fullUpdate ∧ item.effectiveFrom = none := by
  unfold changeRecord at h
  split at h
  · split at h
    · split at h
      · split at h
        · cases h
        · next hsequence =>
          cases h
          refine ⟨rfl, rfl, fun n hn => ?_, rfl, rfl⟩
          rw [Option.mem_def.mp hn] at hsequence
          simpa using hsequence
      · cases h
    · cases h
  · cases h

/-- The record of an event has its position as the version and, if it is a number, as the sequence. -/
theorem debeziumRecord_eq (h : debeziumRecord rt envelope idField = .ok item) :
    item.version = rt.strOf (eventPosition envelope) ∧
      item.sequence = (eventPosition envelope).int?.map Int.toNat ∧
      (∀ n ∈ (eventPosition envelope).int?, 0 ≤ n) ∧ item.updateMode = .fullUpdate ∧
      item.effectiveFrom = none := by
  unfold debeziumRecord at h
  split at h
  · next fields =>
    split at h
    · next payload hpayload =>
      have hown : eventPayload (.obj fields) = payload := by
        simp only [eventPayload, hpayload]
      split at h
      · split at h
        · cases h
        · split at h
          · split at h
            · cases h
            · split at h
              · next source hsource =>
                have hevent : eventSource (.obj fields) = source := by
                  unfold eventSource
                  rw [hown]
                  unfold Json.orElse at hsource
                  split at hsource
                  · rw [hsource]
                  · next hfalsy =>
                    cases hsource
                    split
                    · next found hfound =>
                      rw [hfound] at hfalsy
                      simpa [Json.truthy] using hfalsy
                    · rfl
                have hposition : eventPosition (.obj fields) =
                    ((Dict.get source "lsn").orElse (Dict.get source "pos")).orElse
                      (Dict.get payload "ts_ms") := by
                  rw [eventPosition, hevent, hown]
                rw [hposition]
                exact changeRecord_eq h
              · cases h
          · cases h
      · cases h
      · cases h
      · cases h
    · cases h
  · cases h

/-! One record after the other. -/

/-- A batch of one record is refused and changes nothing, or its record makes a round. -/
theorem alone_cases {key : Id × String × String} (hi : Integrity self.rt self.workspace s)
    (hs : (self.source? s sourceKey).map Source.id = some source.id)
    (hd : self.domain? s domainKey = some domain)
    (hp : compilePolicy self.rt domain.definition = .ok policy)
    (hbatch : request.isBatch sourceKey domainKey = true) (hrecords : request.records = [item])
    (hkey : key = (source.id, domainKey, item.localId)) :
    (ingestedBatch ((service self.rt).step s request).2 = false ∧
        (service self.rt).next s request = s) ∨
      ∃ (a : Arrival) (u : Store) (v : Verdict), SameConfig s ((service self.rt).next s request) ∧
        a.service.rt = self.rt ∧ a.policy = policy ∧ a.item = item ∧ a.key = key ∧
        Integrity a.service.rt a.service.workspace a.store ∧ Still s a.store ∧
        a.round = .ok (u, v) ∧ Still u ((service self.rt).next s request) := by
  cases request with
  | ingest who req =>
    simp only [Request.isBatch, Bool.and_eq_true, decide_eq_true_eq, Bool.not_eq_true'] at hbatch
    obtain ⟨⟨rfl, rfl⟩, hcomplete⟩ := hbatch
    cases hingested : ingestedBatch ((service self.rt).step s (.ingest who req)).2 with
    | false => exact .inl ⟨rfl, next_of_not_ingested hi hingested⟩
    | true =>
      obtain ⟨p, hstart, hnext⟩ := page_of_ingested hi hingested
      have hsource : p.source.id = source.id := by
        have hfound : self.source? s req.sourceKey = some p.source := p.source_found
        rw [hfound] at hs
        exact Option.some.inj hs
      have hwork : p.work = [item] := (p.work_eq hcomplete).trans hrecords
      have hobserves := p.observes
      rw [hwork, MasteringService.observeAll, Except.bind_eq_ok] at hobserves
      obtain ⟨⟨u, v⟩, hobserve, hrest⟩ := hobserves
      dsimp only at hrest
      split at hrest
      · cases hrest
      · have hboth : (u, [v]) = (p.observed, p.verdicts) := Except.ok.inj hrest
        have hobserved : u = p.observed := congrArg Prod.fst hboth
        rw [hnext]
        refine .inr ⟨⟨⟨self.rt, who, self.workspace⟩, p.source, req.domainKey, p.policy, p.begun, item⟩,
          u, v, p.sameConfig hi, rfl, p.policy_eq hd hp, rfl, ?_, hi.sameRows p.begun_quiet.toSameRows,
          p.begun_quiet.toSameRows.still, hobserve, ?_⟩
        · rw [hkey, Arrival.key, hsource]
        · rw [hobserved]
          exact p.finished_quiet.toSameRows.still
  | _ => cases hbatch

/-- The version of a record is stored for a key. -/
def Stored (s : Store) (key : Id × String × String) (version : String) : Prop :=
  (key, version) ∈ s.records.map SourceRecord.key

theorem storedObservation_none_iff {a : Arrival}
    (hi : Integrity a.service.rt a.service.workspace a.store) :
    a.service.storedObservation a.store a.source a.domainKey a.item = none ↔
      ¬ Stored a.store a.key a.item.version := by
  rw [MasteringService.storedObservation_none hi]
  unfold Stored
  rw [List.mem_map]
  constructor
  · rintro h ⟨r, hr, hkey⟩
    exact h r hr hkey
  · intro h r hr hkey
    exact h ⟨r, hr, hkey⟩

theorem alone_known {key : Id × String × String} (hi : Integrity self.rt self.workspace s)
    (hs : (self.source? s sourceKey).map Source.id = some source.id)
    (hd : self.domain? s domainKey = some domain)
    (hp : compilePolicy self.rt domain.definition = .ok policy)
    (hbatch : request.isBatch sourceKey domainKey = true) (hrecords : request.records = [item])
    (hkey : key = (source.id, domainKey, item.localId)) (hknown : Stored s key item.version) :
    Still s ((service self.rt).next s request) := by
  rcases alone_cases hi hs hd hp hbatch hrecords hkey with
    ⟨-, hsame⟩ | ⟨a, u, v, -, -, -, rfl, rfl, hia, hbefore, hround, hafter⟩
  · rw [hsame]
    exact .refl s
  · cases Arrival.round_effect hia hround with
    | repeated _ hu =>
      subst hu
      exact hbefore.trans hafter
    | stored _ hn =>
      refine absurd ?_ ((storedObservation_none_iff hia).mp hn)
      unfold Stored at hknown ⊢
      rwa [hbefore.recordKeys]

/-- Without an effective time only the sequences are compared. -/
theorem observationIsCurrent_iff {o : SourceObject} (htime : item.effectiveFrom = none) :
    observationIsCurrent o item = true ↔ ∀ m ∈ o.currentSequence, ∀ n ∈ item.sequence, m < n := by
  unfold observationIsCurrent
  rw [htime]
  cases item.sequence <;> cases o.currentSequence <;> simp

/-- A new version is stored, and shown unless the object holds a sequence that it does not exceed. -/
theorem alone_new {key : Id × String × String} (hi : Integrity self.rt self.workspace s)
    (hs : (self.source? s sourceKey).map Source.id = some source.id)
    (hd : self.domain? s domainKey = some domain)
    (hp : compilePolicy self.rt domain.definition = .ok policy)
    (hbatch : request.isBatch sourceKey domainKey = true) (hrecords : request.records = [item])
    (hkey : key = (source.id, domainKey, item.localId)) (hnew : ¬ Stored s key item.version)
    (hok : ingestedBatch ((service self.rt).step s request).2 = true)
    (hfull : item.updateMode = .fullUpdate) (htime : item.effectiveFrom = none)
    (hvalid : quarantines self.rt policy item = false) :
    (∀ version, Stored ((service self.rt).next s request) key version ↔
        Stored s key version ∨ version = item.version) ∧
      ((∀ m ∈ (s.projection key).sequence, ∀ n ∈ item.sequence, m < n) →
        ((service self.rt).next s request).projection key = .of item item.values) ∧
      (¬ (∀ m ∈ (s.projection key).sequence, ∀ n ∈ item.sequence, m < n) →
        ((service self.rt).next s request).projection key = s.projection key) := by
  rcases alone_cases hi hs hd hp hbatch hrecords hkey with
    ⟨hrefused, -⟩ | ⟨a, u, v, -, hrt, rfl, rfl, rfl, hia, hbefore, hround, hafter⟩
  · rw [hok] at hrefused
    cases hrefused
  · have hnew' : a.service.storedObservation a.store a.source a.domainKey a.item = none := by
      rw [storedObservation_none_iff hia]
      unfold Stored at hnew ⊢
      rwa [hbefore.recordKeys]
    cases Arrival.round_effect hia hround with
    | repeated hn => exact (hn hnew').elim
    | @stored _ t' o e ho hn he hcurrent hsequence hprojection hrecords' =>
      obtain ⟨hvalues, hquality⟩ := evaluate_full he hfull
      rw [hrt, hvalid] at hquality
      rw [hquality, Bool.not_false, Bool.true_and] at hcurrent
      rw [hbefore.projection] at hsequence hprojection
      have hshown : ((service self.rt).next s request).projection a.key = u.projection a.key := by
        rw [hafter.projection]
      refine ⟨fun version => ?_, fun hlater => ?_, fun hlater => ?_⟩
      · unfold Stored
        rw [hafter.recordKeys, hrecords', hbefore.recordKeys, List.mem_append, List.mem_singleton,
          Prod.mk.injEq]
        simp
      · rw [← hsequence, ← observationIsCurrent_iff htime] at hlater
        rw [hshown, hprojection, hcurrent, hlater, if_pos rfl, Function.update_self, hvalues]
      · rw [← hsequence, ← observationIsCurrent_iff htime, Bool.not_eq_true] at hlater
        rw [hshown, hprojection, hcurrent, hlater, if_neg (by simp)]

/-- An event, the record made of it, and the request that ingests the record. -/
structure Change where
  event : Json
  item : IncomingRecord
  request : Request

/-- What the object shows once the record of the change is current. -/
def Change.shown (c : Change) : Projection := .of c.item c.item.values

def Change.positionText (rt : Runtime) (c : Change) : String := rt.strOf (eventPosition c.event)

/-- The changes of one row in the order of the log, ingested one by one: each record is valid, and what
is no known version goes through. -/
structure ChangeFeed (svc : MasteringService) where
  start : Store
  source : Source
  domain : Domain
  policy : CompiledPolicy
  sourceKey : String
  domainKey : String
  localId : String
  idField : String
  changes : List Change
  reachable : Reachable svc.rt svc.workspace start
  source_found : svc.source? start sourceKey = some source
  domain_found : svc.domain? start domainKey = some domain
  compiled : compilePolicy svc.rt domain.definition = .ok policy
  unknown : ∀ o ∈ start.objects, o.key ≠ (source.id, domainKey, localId)
  ordered : (changes.map Change.event).IsChain LogBefore
  record : ∀ c ∈ changes, debeziumRecord svc.rt c.event idField = .ok c.item ∧
    c.item.localId = localId ∧ quarantines svc.rt policy c.item = false
  alone : ∀ c ∈ changes, c.request.isBatch sourceKey domainKey = true ∧ c.request.records = [c.item]
  goes_through : AtEach (fun past c => c.item.version ∉ past.map (fun d => d.item.version) →
    ingestedBatch ((service svc.rt).step ((service svc.rt).run start (past.map Change.request))
      c.request).2 = true) changes

namespace ChangeFeed

variable {svc : MasteringService} (x : ChangeFeed svc)

/-- The store after some of the changes. -/
def after (past : List Change) : Store := (service svc.rt).run x.start (past.map Change.request)

def key : Id × String × String := (x.source.id, x.domainKey, x.localId)

/-- After each change it is the current observation of the row. -/
def LastIsCurrent : Prop :=
  AtEach (fun past c => (x.after (past ++ [c])).projection x.key = c.shown) x.changes

/-- Each change has a position of which the text is new and which is larger than that of the change before
it where both are numbers, or it tells the same as that change. -/
def PositionsAdvance : Prop :=
  AtEach (fun past c => ∀ last ∈ past.getLast?,
    (c.positionText svc.rt ∉ past.map (Change.positionText svc.rt) ∧
      ∀ m ∈ (eventPosition last.event).int?, ∀ n ∈ (eventPosition c.event).int?, m < n) ∨
    last.shown = c.shown) x.changes

variable {x} {past later : List Change} {c last : Change}

theorem after_concat : x.after (past ++ [c]) = (service svc.rt).next (x.after past) c.request := by
  unfold after
  rw [List.map_append, System.run_append]
  rfl

theorem positionText_eq (hc : c ∈ x.changes) : c.positionText svc.rt = c.item.version :=
  (debeziumRecord_eq (x.record c hc).1).1.symm

/-- What the store knows of the row after some of the changes. -/
structure Knows (x : ChangeFeed svc) (past : List Change) : Prop where
  integrity : Integrity svc.rt svc.workspace (x.after past)
  source : (svc.source? (x.after past) x.sourceKey).map Source.id = some x.source.id
  domain : svc.domain? (x.after past) x.domainKey = some x.domain
  versions : ∀ version, Stored (x.after past) x.key version ↔
    version ∈ past.map fun d => d.item.version

theorem knows_nil : x.Knows [] := by
  have hi := integrity_reachable x.reachable
  refine ⟨hi, by rw [show x.after [] = x.start from rfl, x.source_found]; rfl, x.domain_found, ?_⟩
  intro version
  refine iff_of_false (fun hstored => ?_) List.not_mem_nil
  obtain ⟨r, hr, hkey⟩ := List.mem_map.mp hstored
  obtain ⟨o, ho, hobject⟩ := hi.recordObject r hr
  exact x.unknown o ho (hobject.trans (congrArg Prod.fst hkey))

/-- One more change: its version is known from then on, and it is shown if it is new and larger than what
the object shows. -/
theorem Knows.step (h : x.Knows past) (hsplit : x.changes = past ++ c :: later) : x.Knows (past ++ [c]) ∧
    (c.item.version ∈ past.map (fun d => d.item.version) →
      (x.after (past ++ [c])).projection x.key = (x.after past).projection x.key) ∧
    (c.item.version ∉ past.map (fun d => d.item.version) →
      ((∀ m ∈ ((x.after past).projection x.key).sequence, ∀ n ∈ c.item.sequence, m < n) →
        (x.after (past ++ [c])).projection x.key = c.shown) ∧
      (¬ (∀ m ∈ ((x.after past).projection x.key).sequence, ∀ n ∈ c.item.sequence, m < n) →
        (x.after (past ++ [c])).projection x.key = (x.after past).projection x.key)) := by
  have hc : c ∈ x.changes := by
    rw [hsplit]
    exact List.mem_append_right _ List.mem_cons_self
  obtain ⟨hrecord, hlocal, hvalid⟩ := x.record c hc
  obtain ⟨hbatch, hrecords⟩ := x.alone c hc
  obtain ⟨-, -, -, hfull, htime⟩ := debeziumRecord_eq hrecord
  have hkey : x.key = (x.source.id, x.domainKey, c.item.localId) := by rw [key, hlocal]
  have hconfig : SameConfig (x.after past) ((service svc.rt).next (x.after past) c.request) := by
    rcases alone_cases h.integrity h.source h.domain x.compiled hbatch hrecords hkey with
      ⟨-, hsame⟩ | ⟨_, _, _, hconfig, -⟩
    · rw [hsame]
      exact ⟨rfl, rfl⟩
    · exact hconfig
  have hknows : (∀ version, Stored ((service svc.rt).next (x.after past) c.request) x.key version ↔
      version ∈ (past ++ [c]).map fun d => d.item.version) → x.Knows (past ++ [c]) := by
    intro hversions
    refine ⟨?_, ?_, ?_, ?_⟩ <;> rw [after_concat]
    · exact integrity_step h.integrity c.request
    · exact hconfig.source?.trans h.source
    · exact hconfig.domain?.trans h.domain
    · exact hversions
  by_cases hknown : c.item.version ∈ past.map fun d => d.item.version
  · have hstill := alone_known h.integrity h.source h.domain x.compiled hbatch hrecords hkey
      ((h.versions _).mpr hknown)
    refine ⟨hknows fun version => ?_, fun _ => by rw [after_concat, hstill.projection],
      fun hnew => (hnew hknown).elim⟩
    unfold Stored
    rw [hstill.recordKeys, List.map_append, List.mem_append]
    refine (h.versions version).trans (iff_self_or.mpr fun hversion => ?_)
    rw [List.mem_singleton.mp hversion]
    exact hknown
  · obtain ⟨hversions, hlater, hearlier⟩ := alone_new h.integrity h.source h.domain x.compiled hbatch
      hrecords hkey (fun hstored => hknown ((h.versions _).mp hstored))
      (x.goes_through past c later hsplit hknown) hfull htime hvalid
    refine ⟨hknows fun version => ?_, fun h => (hknown h).elim, fun _ => ?_⟩
    · rw [hversions, h.versions, List.map_append, List.mem_append]
      exact or_congr_right List.mem_singleton.symm
    · rw [after_concat]
      exact ⟨hlater, hearlier⟩

theorem knows_of_split (hsplit : x.changes = past ++ later) : x.Knows past := by
  induction past using List.reverseRecOn generalizing later with
  | nil => exact knows_nil
  | append_singleton past c ih =>
    rw [List.append_assoc] at hsplit
    exact ((ih hsplit).step hsplit).1

/-- The sequences of two records compare as the positions of their events. -/
theorem sequences_iff (hc : c ∈ x.changes) (hlast : last ∈ x.changes) :
    (∀ m ∈ last.shown.sequence, ∀ n ∈ c.item.sequence, m < n) ↔
      ∀ m ∈ (eventPosition last.event).int?, ∀ n ∈ (eventPosition c.event).int?, m < n := by
  obtain ⟨-, hsequence, hnonneg, -⟩ := debeziumRecord_eq (x.record c hc).1
  obtain ⟨-, hsequence', hnonneg', -⟩ := debeziumRecord_eq (x.record last hlast).1
  change (∀ m ∈ last.item.sequence, ∀ n ∈ c.item.sequence, m < n) ↔ _
  rw [hsequence, hsequence']
  cases hm : (eventPosition last.event).int? with
  | none => simp
  | some m =>
    cases hn : (eventPosition c.event).int? with
    | none => simp
    | some n =>
      have hm' := hnonneg' m hm
      have hn' := hnonneg n hn
      simp only [Option.map_some, Option.mem_some_iff, forall_eq']
      omega

/-- After each change of a row it is the current observation, if and only if the positions advance from
change to change. -/
theorem last_is_current_iff (x : ChangeFeed svc) : x.LastIsCurrent ↔ x.PositionsAdvance := by
  have hall : ∀ past later, x.changes = past ++ later →
      (AtEach (fun past c => (x.after (past ++ [c])).projection x.key = c.shown) past ↔
        AtEach (fun past c => ∀ last ∈ past.getLast?,
          (c.positionText svc.rt ∉ past.map (Change.positionText svc.rt) ∧
            ∀ m ∈ (eventPosition last.event).int?, ∀ n ∈ (eventPosition c.event).int?, m < n) ∨
          last.shown = c.shown) past) := by
    intro past
    induction past using List.reverseRecOn with
    | nil => exact fun _ _ => iff_of_true atEach_nil atEach_nil
    | append_singleton past c ih =>
      intro later hsplit
      rw [List.append_assoc] at hsplit
      rw [atEach_concat, atEach_concat, ← ih _ hsplit]
      refine and_congr_right fun hcurrent => ?_
      have hc : c ∈ x.changes := by
        rw [hsplit]
        exact List.mem_append_right _ List.mem_cons_self
      obtain ⟨-, hknown, hnew⟩ := (knows_of_split hsplit).step hsplit
      have htexts : past.map (Change.positionText svc.rt) = past.map fun d => d.item.version := by
        refine List.map_congr_left fun d hd => positionText_eq (x := x) ?_
        rw [hsplit]
        exact List.mem_append_left _ hd
      rw [positionText_eq hc, htexts]
      cases past using List.reverseRecOn with
      | nil =>
        refine iff_of_true ((hnew List.not_mem_nil).1 ?_) (by simp)
        have hblank : (x.after []).projection x.key = .blank := projection_of_none x.unknown
        rw [hblank]
        intro m hm
        cases hm
      | append_singleton past last =>
        have hlast : last ∈ x.changes := by
          rw [hsplit]
          exact List.mem_append_left _ (List.mem_append_right _ (List.mem_singleton_self _))
        have hheld : (x.after (past ++ [last])).projection x.key = last.shown :=
          (atEach_concat.mp hcurrent).2
        rw [hheld] at hknown hnew
        rw [List.getLast?_concat]
        simp only [Option.mem_some_iff, forall_eq']
        rw [← sequences_iff hc hlast]
        by_cases hversion : c.item.version ∈ (past ++ [last]).map fun d => d.item.version
        · rw [hknown hversion]
          exact (or_iff_right fun h => h.1 hversion).symm
        · by_cases hlater : ∀ m ∈ last.shown.sequence, ∀ n ∈ c.item.sequence, m < n
          · exact iff_of_true ((hnew hversion).1 hlater) (.inl ⟨hversion, hlater⟩)
          · rw [(hnew hversion).2 hlater]
            exact (or_iff_right fun h => hlater h.2).symm
  exact hall x.changes [] (List.append_nil _).symm

end ChangeFeed

namespace Supplier

/-- An update of the row "a", at a position of a binary log. -/
def binlogEvent (file : String) (pos : Nat) (name : String) : Json :=
  .obj [("payload", .obj [("op", .str "u"),
    ("after", .obj [("id", .str "a"), ("name", .str name)]),
    ("source", .obj [("file", .str file), ("pos", .int pos)])])]

theorem binlogKeys_nodup : (["id", "name"] : List String).Nodup := by decide

def binlogRecord (version : String) (sequence : Nat) (name : String)
    (version_fits : decide (1 ≤ version.length ∧ version.length ≤ 80) = true := by exact Eq.refl true) :
    IncomingRecord :=
  { observation "a" version [] (Eq.refl true) version_fits with
    values := [("id", .str "a"), ("name", .str name)]
    sequence := some sequence
    values_bound := by simp
    values_nodup := binlogKeys_nodup }

/-- An update of the row, ingested alone. -/
def binlogChange (file : String) (pos : Nat) (name version : String)
    (version_fits : decide (1 ≤ version.length ∧ version.length ≤ 80) = true := by exact Eq.refl true) :
    Change where
  event := binlogEvent file pos name
  item := binlogRecord version pos name version_fits
  request := ingest [binlogRecord version pos name version_fits]

/-- The log is rotated between two updates. -/
def beforeRotation : Change := binlogChange "binlog.000001" 500 "A" "500"

def afterRotation : Change := binlogChange "binlog.000002" 4 "B" "4"

/-- Whether ingest takes two changes, one after the other. -/
def takesBoth (first second : Change) : Bool :=
  (master.source? (after []) "erp").isSome &&
    ((master.domain? (after []) "supplier").any fun domain =>
      (compilePolicy .plain domain.definition).toOption.any fun policy =>
        !quarantines .plain policy first.item && !quarantines .plain policy second.item) &&
    ingestedBatch ((service .plain).step (after []) first.request).2 &&
    ingestedBatch ((service .plain).step ((service .plain).run (after []) [first.request])
      second.request).2

/-- Two updates in the order of the log that ingest takes make a feed. -/
theorem feed_of_pair (first second : Change) (htakes : takesBoth first second = true)
    (hordered : LogBefore first.event second.event)
    (hrecords : ∀ c ∈ [first, second], debeziumRecord .plain c.event "id" = .ok c.item ∧
      c.item.localId = "a" ∧ c.request.isBatch "erp" "supplier" = true ∧ c.request.records = [c.item]) :
    ∃ x : ChangeFeed master, x.changes = [first, second] ∧ x.start = after [] ∧ x.sourceKey = "erp" ∧
      x.domainKey = "supplier" ∧ x.localId = "a" := by
  simp only [takesBoth, Bool.and_eq_true] at htakes
  obtain ⟨⟨⟨hsource, hchecks⟩, hfirst⟩, hsecond⟩ := htakes
  obtain ⟨source, hsource⟩ := Option.isSome_iff_exists.mp hsource
  obtain ⟨domain, hdomain, hchecks⟩ := (Option.any_eq_true ..).mp hchecks
  obtain ⟨policy, hcompiled, hchecks⟩ := Except.of_any hchecks
  simp only [Bool.and_eq_true, Bool.not_eq_true'] at hchecks
  have hobjects : (after []).objects = [] := by decide +kernel
  refine ⟨{
    start := after []
    source := source
    domain := domain
    policy := policy
    sourceKey := "erp"
    domainKey := "supplier"
    localId := "a"
    idField := "id"
    changes := [first, second]
    reachable := ⟨setup, rfl⟩
    source_found := hsource
    domain_found := hdomain
    compiled := hcompiled
    unknown := by
      rw [hobjects]
      exact List.forall_mem_nil _
    ordered := .cons_cons hordered (.singleton _)
    record := fun c hc => ⟨(hrecords c hc).1, (hrecords c hc).2.1, by
      rcases List.mem_pair.mp hc with rfl | rfl
      · exact hchecks.1
      · exact hchecks.2⟩
    alone := fun c hc => (hrecords c hc).2.2
    goes_through := by
      change AtEach _ (([] ++ [first]) ++ [second])
      rw [atEach_concat, atEach_concat]
      exact ⟨⟨atEach_nil, fun _ => hfirst⟩, fun _ => hsecond⟩ }, rfl, rfl, rfl, rfl, rfl⟩

theorem binlogChange_record {file name version : String} {pos : Nat} {fits}
    (h : debeziumRecord .plain (binlogEvent file pos name) "id" = .ok (binlogRecord version pos name fits))
    (c : Change) (hc : c = binlogChange file pos name version fits) :
    debeziumRecord .plain c.event "id" = .ok c.item ∧ c.item.localId = "a" ∧
      c.request.isBatch "erp" "supplier" = true ∧ c.request.records = [c.item] := by
  subst hc
  exact ⟨h, rfl, rfl, rfl⟩

/-- Two updates in one file of the log. -/
theorem last_is_current_binlog : ∃ x : ChangeFeed master,
    x.changes.map Change.event = [binlogEvent "binlog.000001" 4 "A", binlogEvent "binlog.000001" 500 "B"] ∧
      x.LastIsCurrent := by
  obtain ⟨x, hchanges, -⟩ := feed_of_pair (binlogChange "binlog.000001" 4 "A" "4")
    (binlogChange "binlog.000001" 500 "B" "500") (by decide +kernel)
    (.inr ⟨"binlog.000001", "binlog.000001", 4, 500, rfl, rfl, rfl, rfl, rfl, rfl, .inr ⟨rfl, by decide⟩⟩)
    fun c hc => (List.mem_pair.mp hc).elim (binlogChange_record rfl c) (binlogChange_record rfl c)
  refine ⟨x, by rw [hchanges]; rfl, (ChangeFeed.last_is_current_iff x).mpr ?_⟩
  unfold ChangeFeed.PositionsAdvance
  rw [hchanges]
  change AtEach _ (([] ++ [_]) ++ [_])
  rw [atEach_concat, atEach_concat]
  refine ⟨⟨atEach_nil, by simp⟩, fun last hlast => .inl ?_⟩
  obtain rfl : _ = last := Option.some.inj hlast
  exact ⟨by decide +kernel, by decide⟩

/-- An update in the next file of the log counts as an older one. -/
theorem rotated_event_lost : ¬ ∀ (svc : MasteringService) (x : ChangeFeed svc), x.LastIsCurrent := by
  intro hall
  obtain ⟨x, hchanges, hstart, hsource, hdomain, hlocalId⟩ := feed_of_pair beforeRotation
    afterRotation (by decide +kernel)
    (.inr ⟨"binlog.000001", "binlog.000002", 500, 4, rfl, rfl, rfl, rfl, rfl, rfl, .inl (by decide +kernel)⟩)
    fun c hc => (List.mem_pair.mp hc).elim (binlogChange_record rfl c) (binlogChange_record rfl c)
  have hkept : (master.source? (after []) "erp").all (fun source =>
      (((service .plain).run (after []) [beforeRotation.request, afterRotation.request]).projection
        (source.id, "supplier", "a")).sequence = some 500) = true := by decide +kernel
  have hfound := x.source_found
  rw [hstart, hsource] at hfound
  rw [hfound] at hkept
  have hcurrent := hall master x [beforeRotation] afterRotation [] hchanges
  unfold ChangeFeed.after ChangeFeed.key at hcurrent
  rw [hstart, hdomain, hlocalId] at hcurrent
  have hsequence := of_decide_eq_true hkept
  rw [show [beforeRotation.request, afterRotation.request] =
    ([beforeRotation] ++ [afterRotation]).map Change.request from rfl] at hsequence
  exact absurd ((congrArg Projection.sequence hcurrent).symm.trans hsequence) (by decide)

end Supplier

end Recordlane
