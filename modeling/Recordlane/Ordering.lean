import Recordlane.Arrivals
import Recordlane.Supplier

/-! The order of observations: which one an object shows, whatever order they arrive in. -/
namespace Recordlane

variable {rt : Runtime} {w : Workspace} {self : MasteringService} {s s' t : Store}
  {requests : List Request} {a b : Arrival} {v : Verdict} {o : SourceObject}

namespace Arrival

/-- The observation is new, valid and current for the object. -/
def admits (a : Arrival) (o : SourceObject) : Bool :=
  (a.service.storedObservation a.store a.source a.domainKey a.item).isNone &&
    (match a.service.evaluate a.store a.policy o a.item with
    | .ok e => e.qualityErrors.isEmpty
    | .error _ => false) && observationIsCurrent o a.item

/-- An observation without a sequence is not admitted where the object holds one. -/
def KeepsSequence (a : Arrival) : Prop :=
  a.item.sequence = none → ∀ o ∈ a.store.objects, o.key = a.key → o.currentSequence.isSome →
    a.admits o = false

instance : DecidablePred KeepsSequence := fun a =>
  inferInstanceAs (Decidable (a.item.sequence = none → ∀ o ∈ a.store.objects, o.key = a.key →
    o.currentSequence.isSome → a.admits o = false))

/-- What a round makes of its observation: it is stored already, or it is stored now and is
current where it is valid and in order. -/
inductive Effect (a : Arrival) (s' : Store) : Verdict → Prop
  | repeated (hn : a.service.storedObservation a.store a.source a.domainKey a.item ≠ none)
      (hs : s' = a.store) : Effect a s' .duplicate
  | stored {v : Verdict} {t : Store} {o : SourceObject} {e : Evaluation}
      (ho : Opens a.service a.store a.source a.domainKey a.item.localId t o)
      (hn : a.service.storedObservation a.store a.source a.domainKey a.item = none)
      (he : a.service.evaluate t a.policy o a.item = .ok e)
      (hv : v.current = (e.qualityErrors.isEmpty && observationIsCurrent o a.item))
      (hs : o.currentSequence = (a.store.projection a.key).sequence)
      (hp : s'.projection = if v.current then
        Function.update a.store.projection a.key (.of a.item e.values) else a.store.projection)
      (hr : s'.records.map SourceRecord.key =
        a.store.records.map SourceRecord.key ++ [(a.key, a.item.version)]) : Effect a s' v

theorem round_effect (hi : Integrity a.service.rt a.service.workspace a.store)
    (h : a.round = .ok (s', v)) : a.Effect s' v := by
  have hi' := MasteringService.observe_integrity hi h
  rcases MasteringService.observe_cases hi h with ⟨rfl, rfl, ⟨r, hr, -⟩, -⟩ | ⟨t, o, c, ho, hn, hr⟩
  · exact .repeated (by simp [hr]) rfl
  · have hit := ho.integrity hi
    have hkey : o.key = a.key := ho.key
    have hself := hr.projection_self hit hi' ho.mem
    rw [hkey, projection_opens ho] at hself
    have hother : ∀ key, key ≠ a.key → s'.projection key = a.store.projection key := by
      intro key hk
      rw [hr.projection_of_ne hit hi' ho.mem (hkey ▸ hk), projection_opens ho]
    refine .stored ho ((MasteringService.storedObservation_none hi).mpr hn) hr.evaluated ?_ ?_ ?_ ?_
    · cases hr.fits with
      | quarantined hq => simp [Verdict.current, hq]
      | outOfOrder _ hc => simp [Verdict.current, hc]
      | retiredFree hq hc => simp [Verdict.current, hq, hc]
      | retired hq hc => simp [Verdict.current, hq, hc]
      | updated hq hc => simp [Verdict.current, hq, hc]
      | linked hq hc => simp [Verdict.current, hq, hc]
      | created hq hc => simp [Verdict.current, hq, hc]
      | review hq hc => simp [Verdict.current, hq, hc]
    · rw [← projection_opens ho, ← hkey, projection_of_mem hit ho.mem]
      rfl
    · funext key
      by_cases hk : key = a.key
      · rw [hk, hself]
        split
        · rw [Function.update_self]
        · rfl
      · rw [hother key hk]
        split
        · rw [Function.update_of_ne hk]
        · rfl
    · rw [hr.records, ho.tables.1, List.map_append]
      rfl

theorem becomesCurrent_eq (h : a.round = .ok (s', v)) : a.becomesCurrent = v.current := by
  rw [becomesCurrent, h]

end Arrival

/-- A later sequence is larger where both observations of one object became current. -/
def InOrder (a b : Arrival) : Prop :=
  a.key = b.key → a.becomesCurrent → b.becomesCurrent →
    ∀ m ∈ a.item.sequence, ∀ n ∈ b.item.sequence, ¬ n < m

instance : DecidableRel InOrder := fun a b =>
  inferInstanceAs (Decidable (a.key = b.key → a.becomesCurrent → b.becomesCurrent →
    ∀ m ∈ a.item.sequence, ∀ n ∈ b.item.sequence, ¬ n < m))

/-- The rounds so far are in order, and every object holds the largest sequence that became
current for it. -/
structure Ordered (L : List Arrival) (s : Store) : Prop where
  pairwise : L.Pairwise InOrder
  held : ∀ a ∈ L, a.becomesCurrent → ∀ m ∈ a.item.sequence,
    ∃ c ∈ (s.projection a.key).sequence, m ≤ c

theorem Ordered.of_projection {L : List Arrival} (h : Ordered L s) (hp : t.projection = s.projection) :
    Ordered L t := ⟨h.pairwise, hp ▸ h.held⟩

theorem Ordered.round {L : List Arrival}
    (hi : Integrity a.service.rt a.service.workspace a.store) (h : Ordered L a.store)
    (hk : a.KeepsSequence) (hr : a.round = .ok (s', v)) : Ordered (L ++ [a]) s' := by
  have hbecomes := Arrival.becomesCurrent_eq hr
  by_cases hv : v.current = true
  · obtain ⟨t, o, e, ho, hn, he, hadmitted, hs, hp⟩ : ∃ t o e,
        Opens a.service a.store a.source a.domainKey a.item.localId t o ∧
        a.service.storedObservation a.store a.source a.domainKey a.item = none ∧
        a.service.evaluate t a.policy o a.item = .ok e ∧
        (e.qualityErrors.isEmpty && observationIsCurrent o a.item) = true ∧
        o.currentSequence = (a.store.projection a.key).sequence ∧
        s'.projection = Function.update a.store.projection a.key (.of a.item e.values) := by
      cases Arrival.round_effect hi hr with
      | repeated => cases hv
      | @stored _ t o e ho hn he hv' hs hp =>
        rw [if_pos hv] at hp
        exact ⟨t, o, e, ho, hn, he, hv' ▸ hv, hs, hp⟩
    -- the sequence the object held is smaller than the one it holds now
    have hlater : ∀ c ∈ (a.store.projection a.key).sequence, ∃ n ∈ a.item.sequence, c < n := by
      intro c hc
      rw [← hs] at hc
      cases hsequence : a.item.sequence with
      | some n =>
        refine ⟨n, rfl, ?_⟩
        rw [Bool.and_eq_true] at hadmitted
        simpa [observationIsCurrent, hsequence, Option.mem_def.mp hc] using hadmitted.2
      | none =>
        cases ho with
        | new => cases hc
        | known hmem hkey =>
          have hno := hk hsequence o hmem hkey (by rw [Option.mem_def.mp hc]; rfl)
          simp [Arrival.admits, hn, he, hadmitted] at hno
    constructor
    · refine List.pairwise_append.mpr ⟨h.pairwise, List.pairwise_singleton _ _, ?_⟩
      intro b hb a' ha' hkey hcurrent _ m hm n hn
      rw [List.mem_singleton.mp ha'] at hkey hn
      obtain ⟨c, hc, hmc⟩ := h.held b hb hcurrent m hm
      obtain ⟨n', hn', hcn⟩ := hlater c (hkey ▸ hc)
      rw [Option.mem_unique hn hn']
      omega
    · intro b hb hcurrent m hm
      rw [hp]
      rcases List.mem_append.mp hb with hb | hb
      · obtain ⟨c, hc, hmc⟩ := h.held b hb hcurrent m hm
        by_cases hkey : b.key = a.key
        · obtain ⟨n, hn, hcn⟩ := hlater c (hkey ▸ hc)
          rw [hkey, Function.update_self]
          exact ⟨n, hn, by omega⟩
        · rw [Function.update_of_ne hkey]
          exact ⟨c, hc, hmc⟩
      · rw [List.mem_singleton.mp hb] at hm ⊢
        rw [Function.update_self]
        exact ⟨m, hm, le_rfl⟩
  · have hp : s'.projection = a.store.projection := by
      cases Arrival.round_effect hi hr with
      | repeated _ hs => rw [hs]
      | stored _ _ _ _ _ hp => rw [hp, if_neg hv]
    rw [Bool.not_eq_true] at hv
    constructor
    · refine List.pairwise_append.mpr ⟨h.pairwise, List.pairwise_singleton _ _, ?_⟩
      intro b _ a' ha' _ _ hcurrent
      rw [List.mem_singleton.mp ha', hbecomes, hv] at hcurrent
      cases hcurrent
    · intro b hb hcurrent
      rw [hp]
      rcases List.mem_append.mp hb with hb | hb
      · exact h.held b hb hcurrent
      · rw [List.mem_singleton.mp hb, hbecomes, hv] at hcurrent
        cases hcurrent

/-- As long as no observation without a sequence is admitted by an object that holds one, no
observation with a smaller sequence becomes current after one with a larger sequence. -/
theorem arrivals_inOrder (h : ∀ a ∈ arrivals rt (Store.empty w) requests, a.KeepsSequence) :
    (arrivals rt (Store.empty w) requests).Pairwise InOrder := by
  have hordered := arrivals_invariant (P := Ordered) (L := []) integrity_empty
    ⟨List.Pairwise.nil, by simp⟩ (fun L s t hst hL => hL.of_projection hst.projection) ?_ h
  · exact hordered.pairwise
  · intro L a s' v hrt hw hi hL hk hr
    subst hrt hw
    exact hL.round hi hk hr

open Supplier in
theorem arrivals_inOrder_history :
    (arrivals .plain (Store.empty workspace) (setup ++ [ingest history])).Pairwise InOrder :=
  arrivals_inOrder (by decide +kernel)

open Supplier in
theorem lapse_not_inOrder :
    ¬ (arrivals .plain (Store.empty workspace) (setup ++ [ingest lapse])).Pairwise InOrder := by
  decide +kernel

end Recordlane
