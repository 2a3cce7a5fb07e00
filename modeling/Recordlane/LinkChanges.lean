import Recordlane.Supplier
import Recordlane.Library.Table

/-! The link changes a preview lists, beside the decisions of its two policies. -/
namespace Recordlane

namespace CompiledPolicy

variable (rt : Runtime) (policy : CompiledPolicy) (left right : Dict)

/-- Two normalized records are candidates of each other. -/
def sharesKey : Py Bool := do
  let mine ← policy.blockingKeys rt left
  let theirs ← policy.blockingKeys rt right
  return mine.any theirs.contains

def decides : Py MatchDecision := do
  return (← policy.compare rt left right).decision

end CompiledPolicy

/-- The decision of a policy on a pair: on its own normal forms, and among its own candidates. -/
def MasteringService.effectiveDecision (self : MasteringService) (s : Store) (policy : CompiledPolicy)
    (left right : SourceObject × SourceRecord) : Py MatchDecision :=
  if self.isCannotLink s left.1.id right.1.id then .ok .keepSeparate
  else do
    let mine ← policy.normalize self.rt left.2.original
    let theirs ← policy.normalize self.rt right.2.original
    if ← policy.sharesKey self.rt mine theirs then policy.decides self.rt mine theirs
    else return .noLink

/-- A change lists a pair, in the order of the preview. -/
def LinkChange.joins (c : LinkChange) (left right : Id) : Prop :=
  c.leftSourceObjectId = left ∧ c.rightSourceObjectId = right

/-- Changes list a pair if and only if two decisions on it differ, and then with the two. -/
structure Reports (changes : List LinkChange) (left right : Id) (before after : MatchDecision) :
    Prop where
  listed : (∃ c ∈ changes, c.joins left right) ↔ before ≠ after
  decided : ∀ c ∈ changes, c.joins left right →
    c.current.decision = before ∧ c.proposed.decision = after

/-- A preview of one domain, whose stored normal forms are those of its policy. -/
structure DomainPreview (svc : MasteringService) (s : Store) where
  domain : Domain
  current : CompiledPolicy
  proposed : CompiledPolicy
  rows : List (SourceObject × SourceRecord)
  simulation : PolicySimulation
  compiled : compilePolicy svc.rt domain.definition = .ok current
  contributed : svc.contributions s domain.key = .ok rows
  stored : ∀ row ∈ rows, current.normalize svc.rt row.2.original = .ok row.2.normalized
  simulated : svc.simulatePolicy s domain proposed = .ok simulation

/-- What the comparison on both sides needs: a pair that is compared, but is no candidate of one
policy, gets from that policy's comparison what it has as no candidate; and the candidates that the
proposed policy finds by its own normal forms are those found by the stored ones. -/
def CandidatesAgree (rt : Runtime) (current proposed : CompiledPolicy) (left right : SourceRecord) :
    Prop :=
  ∀ mine theirs, proposed.normalize rt left.original = .ok mine →
    proposed.normalize rt right.original = .ok theirs →
    if current.sharesKey rt left.normalized right.normalized = .ok true then
      proposed.sharesKey rt mine theirs = .ok true ∨ proposed.decides rt mine theirs = .ok .noLink
    else if proposed.sharesKey rt left.normalized right.normalized = .ok true then
      if proposed.sharesKey rt mine theirs = .ok true then
        current.decides rt left.normalized right.normalized = .ok .noLink
      else
        current.decides rt left.normalized right.normalized = proposed.decides rt mine theirs
    else proposed.sharesKey rt mine theirs = .ok true →
      proposed.decides rt mine theirs = .ok .noLink

section Pairs

variable {self : MasteringService} {s : Store} {current proposed policy : CompiledPolicy}
  {left right row row' : SourceObject × SourceRecord} {rows : List (SourceObject × SourceRecord)}
  {before after : MatchDecision} {change : Option LinkChange}

theorem mem_orderedPairs {α : Type} {xs : List α} {x y : α} (h : (x, y) ∈ MasteringService.orderedPairs xs) :
    x ∈ xs ∧ y ∈ xs := by
  induction xs with
  | nil => cases h
  | cons z zs ih =>
    rcases List.mem_append.mp h with h | h
    · obtain ⟨y', hy, heq⟩ := List.mem_map.mp h
      obtain ⟨rfl, rfl⟩ := Prod.mk.inj heq
      exact ⟨List.mem_cons_self, List.mem_cons_of_mem _ hy⟩
    · exact ⟨List.mem_cons_of_mem _ (ih h).1, List.mem_cons_of_mem _ (ih h).2⟩

namespace MasteringService

theorem contributions_keyed {key : String} (hids : Table.Keyed SourceObject.id s.objects)
    (h : self.contributions s key = .ok rows) : Table.Keyed (fun row => row.1.id) rows := by
  unfold contributions at h
  have hrows := (Except.mapM_forall₂ h).imp fun o row (hrow : _ = Except.ok row) =>
    show o = row.1 by
      split at hrow
      · rw [← Except.ok.inj hrow]
      · cases hrow
  rw [← List.forall₂_map_right_iff, List.forall₂_eq_eq_eq] at hrows
  have hsplit : rows.map (fun row => row.1.id) = (rows.map Prod.fst).map SourceObject.id := by
    rw [List.map_map]
    rfl
  rw [Table.Keyed, hsplit, ← hrows, ((List.perm_insertionSort _ _).map SourceObject.id).nodup_iff]
  exact hids.sublist (List.filter_sublist.map _)

/-- The candidate rules that decide whether a pair is compared, and then both comparisons. -/
theorem simulatePair_cases (h : self.simulatePair s current proposed left right = .ok change) :
    ∃ share share', current.sharesKey self.rt left.2.normalized right.2.normalized = .ok share ∧
      proposed.sharesKey self.rt left.2.normalized right.2.normalized = .ok share' ∧
      ((share = false ∧ share' = false ∧ change = none) ∨
        ((share || share') = true ∧ ∃ mine theirs was will : _,
          proposed.normalize self.rt left.2.original = .ok mine ∧
          proposed.normalize self.rt right.2.original = .ok theirs ∧
          current.compare self.rt left.2.normalized right.2.normalized = .ok was ∧
          proposed.compare self.rt mine theirs = .ok will ∧
          change = if self.isCannotLink s left.1.id right.1.id ∨ was.decision = will.decision then none
            else some ⟨left.1.id, right.1.id, was, will⟩)) := by
  unfold simulatePair at h
  obtain ⟨share, hshare, h⟩ := Except.bind_eq_ok.mp h
  obtain ⟨share', hshare', h⟩ := Except.bind_eq_ok.mp h
  refine ⟨share, share', hshare, hshare', ?_⟩
  split_ifs at h with hnone
  · have hfalse : share = false ∧ share' = false := by simpa using hnone
    exact .inl ⟨hfalse.1, hfalse.2, (Except.pure_eq_ok.mp h).symm⟩
  · have hsome : (share || share') = true := by
      cases share <;> cases share' <;> simp_all
    simp only [Except.bind_eq_ok, Except.pure_eq_ok] at h
    obtain ⟨was, hwas, mine, hmine, theirs, htheirs, will, hwill, h⟩ := h
    refine .inr ⟨hsome, mine, theirs, was, will, hmine, htheirs, hwas, hwill, h.symm.trans ?_⟩
    by_cases hbarred : self.isCannotLink s left.1.id right.1.id <;> simp [hbarred]

theorem effectiveDecision_free {decision : MatchDecision}
    (hfree : self.isCannotLink s left.1.id right.1.id = false)
    (h : self.effectiveDecision s policy left right = .ok decision) :
    ∃ mine theirs share, policy.normalize self.rt left.2.original = .ok mine ∧
      policy.normalize self.rt right.2.original = .ok theirs ∧
      policy.sharesKey self.rt mine theirs = .ok share ∧
      ((share = true ∧ policy.decides self.rt mine theirs = .ok decision) ∨
        (share = false ∧ decision = .noLink)) := by
  rw [effectiveDecision, if_neg (by simp [hfree])] at h
  obtain ⟨mine, hmine, h⟩ := Except.bind_eq_ok.mp h
  obtain ⟨theirs, htheirs, h⟩ := Except.bind_eq_ok.mp h
  obtain ⟨share, hshare, h⟩ := Except.bind_eq_ok.mp h
  refine ⟨mine, theirs, share, hmine, htheirs, hshare, ?_⟩
  cases share with
  | true => exact .inl ⟨rfl, h⟩
  | false => exact .inr ⟨rfl, (Except.pure_eq_ok.mp h).symm⟩

end MasteringService

/-- What the preview finds on one pair of its rows is what it lists under the two objects. -/
theorem DomainPreview.lists (p : DomainPreview self s)
    (hids : Table.Keyed SourceObject.id s.objects)
    (hpair : (left, right) ∈ MasteringService.orderedPairs p.rows) :
    ∃ change, self.simulatePair s p.current p.proposed left right = .ok change ∧
      ∀ c, (c ∈ p.simulation.linkChanges ∧ c.joins left.1.id right.1.id) ↔ change = some c := by
  have hsimulated := p.simulated
  unfold MasteringService.simulatePolicy at hsimulated
  simp only [Except.bind_eq_ok, Except.pure_eq_ok] at hsimulated
  obtain ⟨current, hcurrent, rows, hrows, links, hlinks, validations, -, masters, -, hsimulation⟩ :=
    hsimulated
  obtain rfl : p.current = current := Except.ok.inj (p.compiled.symm.trans hcurrent)
  obtain rfl : p.rows = rows := Except.ok.inj (p.contributed.symm.trans hrows)
  have hkeyed := MasteringService.contributions_keyed hids p.contributed
  have hmem := Except.mapM_mem hlinks
  obtain ⟨change, hchange, hpairs⟩ := hmem.2 _ hpair
  refine ⟨change, hpairs, fun c => ?_⟩
  rw [← hsimulation]
  simp only [List.mem_filterMap, id_eq, exists_eq_right]
  have hjoins : ∀ left right : SourceObject × SourceRecord, ∀ c : LinkChange,
      self.simulatePair s p.current p.proposed left right = .ok (some c) →
        c.joins left.1.id right.1.id := by
    intro left right c h
    obtain ⟨_, _, _, _, ⟨-, -, hnone⟩ | ⟨-, _, _, was, will, -, -, -, -, hsome⟩⟩ :=
      MasteringService.simulatePair_cases h
    · cases hnone
    · split_ifs at hsome
      obtain rfl := Option.some.inj hsome
      exact ⟨rfl, rfl⟩
  constructor
  · rintro ⟨hc, hid⟩
    obtain ⟨⟨left', right'⟩, hpair', hc'⟩ := hmem.1 _ hc
    have hid' := hjoins left' right' c hc'
    obtain ⟨hleft, hright⟩ := mem_orderedPairs hpair
    obtain ⟨hleft', hright'⟩ := mem_orderedPairs hpair'
    obtain rfl : left = left' := hkeyed.eq_of_mem hleft hleft' (hid.1.symm.trans hid'.1)
    obtain rfl : right = right' := hkeyed.eq_of_mem hright hright' (hid.2.symm.trans hid'.2)
    exact Except.ok.inj (hpairs.symm.trans hc')
  · rintro rfl
    exact ⟨hchange, hjoins left right c hpairs⟩

/-- A comparison is reported as two decisions have it, when it is made of both. -/
theorem reported_iff {x y : Id} {was will : MatchEvidence} :
    (((if was.decision = will.decision then none
        else some (⟨x, y, was, will⟩ : LinkChange)).isSome ↔ before ≠ after) ∧
      ∀ c, (if was.decision = will.decision then none
        else some (⟨x, y, was, will⟩ : LinkChange)) = some c →
          c.current.decision = before ∧ c.proposed.decision = after) ↔
      if was.decision = will.decision then before = after
      else was.decision = before ∧ will.decision = after := by
  by_cases hsame : was.decision = will.decision
  · simp [hsame]
  · simp only [hsame, if_false, Option.isSome_some, true_iff, Option.some.injEq, forall_eq',
      and_iff_right_iff_imp]
    rintro ⟨rfl, rfl⟩
    exact hsame

/-- The preview reports the decisions of both policies on a pair if and only if a cannot-link row
joins the pair or its candidates agree. -/
theorem link_changes_exact (p : DomainPreview self s)
    (hids : Table.Keyed SourceObject.id s.objects)
    (hpair : (left, right) ∈ MasteringService.orderedPairs p.rows)
    (hbefore : self.effectiveDecision s p.current left right = .ok before)
    (hafter : self.effectiveDecision s p.proposed left right = .ok after) :
    Reports p.simulation.linkChanges left.1.id right.1.id before after ↔
      (self.isCannotLink s left.1.id right.1.id = true ∨
        CandidatesAgree self.rt p.current p.proposed left.2 right.2) := by
  obtain ⟨change, hchange, hlists⟩ := p.lists hids hpair
  have hreports : Reports p.simulation.linkChanges left.1.id right.1.id before after ↔
      ((change.isSome ↔ before ≠ after) ∧
        ∀ c, change = some c → c.current.decision = before ∧ c.proposed.decision = after) := by
    have hexists : (∃ c ∈ p.simulation.linkChanges, c.joins left.1.id right.1.id) ↔ change.isSome := by
      rw [Option.isSome_iff_exists]
      exact exists_congr hlists
    constructor
    · intro h
      exact ⟨hexists.symm.trans h.listed, fun c hc => h.decided c ((hlists c).mpr hc).1 ((hlists c).mpr hc).2⟩
    · rintro ⟨hlisted, hdecided⟩
      exact ⟨hexists.trans hlisted, fun c hc hid => hdecided c ((hlists c).mp ⟨hc, hid⟩)⟩
  rw [hreports]
  obtain ⟨share, share', hshare, hshare', hcases⟩ := MasteringService.simulatePair_cases hchange
  cases hbarred : self.isCannotLink s left.1.id right.1.id with
  | true =>
    rw [MasteringService.effectiveDecision, if_pos hbarred] at hbefore hafter
    obtain rfl := Except.ok.inj hbefore
    obtain rfl := Except.ok.inj hafter
    have hnone : change = none := by
      rcases hcases with ⟨-, -, h⟩ | ⟨-, _, _, _, _, -, -, -, -, h⟩
      · exact h
      · simpa [hbarred] using h
    simp [hnone]
  | false =>
    obtain ⟨hleft, hright⟩ := mem_orderedPairs hpair
    obtain ⟨_, _, share₀, hmine₀, htheirs₀, hshare₀, hdecision⟩ :=
      MasteringService.effectiveDecision_free hbarred hbefore
    obtain rfl := Except.ok.inj ((p.stored left hleft).symm.trans hmine₀)
    obtain rfl := Except.ok.inj ((p.stored right hright).symm.trans htheirs₀)
    obtain rfl : share = share₀ := Except.ok.inj (hshare.symm.trans hshare₀)
    obtain ⟨mine, theirs, own, hmine, htheirs, hown, hdecision'⟩ :=
      MasteringService.effectiveDecision_free hbarred hafter
    have hagree : CandidatesAgree self.rt p.current p.proposed left.2 right.2 ↔
        if share then own = true ∨ p.proposed.decides self.rt mine theirs = .ok .noLink
        else if share' then
          if own then p.current.decides self.rt left.2.normalized right.2.normalized = .ok .noLink
          else p.current.decides self.rt left.2.normalized right.2.normalized =
            p.proposed.decides self.rt mine theirs
        else own = true → p.proposed.decides self.rt mine theirs = .ok .noLink := by
      simp only [CandidatesAgree, hshare, hshare', hmine, htheirs, Except.ok.injEq]
      constructor
      · intro h
        simpa [hown] using h mine theirs rfl rfl
      · rintro h _ _ rfl rfl
        simpa [hown] using h
    rw [hagree]
    rcases hcases with ⟨rfl, rfl, rfl⟩ | ⟨hcompared, mine', theirs', was, will, hmine', htheirs', hwas,
      hwill, hresult⟩
    · -- no comparison: the pair is missing from the list
      obtain ⟨hshare, -⟩ | ⟨-, rfl⟩ := hdecision
      · cases hshare
      · rcases hdecision' with ⟨rfl, hdecides⟩ | ⟨rfl, rfl⟩
        · simp [hdecides, eq_comm]
        · simp
    · obtain rfl := Except.ok.inj (hmine.symm.trans hmine')
      obtain rfl := Except.ok.inj (htheirs.symm.trans htheirs')
      have hwas' : p.current.decides self.rt left.2.normalized right.2.normalized = .ok was.decision := by
        rw [CompiledPolicy.decides, hwas]
        rfl
      have hwill' : p.proposed.decides self.rt mine theirs = .ok will.decision := by
        rw [CompiledPolicy.decides, hwill]
        rfl
      simp only [hbarred, Bool.false_eq_true, false_or] at hresult
      simp only [hwas', hwill', Except.ok.injEq] at hdecision hdecision' ⊢
      rw [hresult, reported_iff]
      -- one case for each side that finds the pair among its own candidates
      rcases hdecision with ⟨rfl, rfl⟩ | ⟨rfl, rfl⟩ <;> rcases hdecision' with ⟨rfl, rfl⟩ | ⟨rfl, rfl⟩
      · simp
      · by_cases hsame : was.decision = will.decision
        · simp [hsame]
        · simp [hsame]
      · obtain rfl : share' = true := by simpa using hcompared
        by_cases hsame : was.decision = will.decision
        · simp [hsame, eq_comm]
        · simp [hsame]
      · obtain rfl : share' = true := by simpa using hcompared
        by_cases hsame : was.decision = will.decision
        · simp [hsame]
        · have hdiffer : ¬ (was.decision = .noLink ∧ will.decision = .noLink) := by
            rintro ⟨hwas, hwill⟩
            exact hsame (hwas.trans hwill.symm)
          simpa [hsame] using hdiffer

end Pairs

/-- The preview of a definition for a domain, where everything goes through. -/
def DomainPreview.attempt (svc : MasteringService) (s : Store) (key : String) (definition : Dict) :
    Option (DomainPreview svc s) :=
  match svc.domain? s key, compilePolicy svc.rt (.obj definition) with
  | some domain, .ok proposed =>
    match hcompiled : compilePolicy svc.rt domain.definition, hrows : svc.contributions s domain.key,
        hsimulated : svc.simulatePolicy s domain proposed with
    | .ok current, .ok rows, .ok simulation =>
      if hstored : ∀ row ∈ rows, current.normalize svc.rt row.2.original = .ok row.2.normalized then
        some ⟨domain, current, proposed, rows, simulation, hcompiled, hrows, hstored, hsimulated⟩
      else none
    | _, _, _ => none
  | _, _ => none

/-- A preview with a pair on which its policies decide in two given ways. -/
def DomainPreview.Differ {svc : MasteringService} {s : Store} (p : DomainPreview svc s)
    (before after : MatchDecision) : Prop :=
  ∃ pair ∈ MasteringService.orderedPairs p.rows,
    svc.effectiveDecision s p.current pair.1 pair.2 = .ok before ∧
      svc.effectiveDecision s p.proposed pair.1 pair.2 = .ok after

instance {svc : MasteringService} {s : Store} (p : DomainPreview svc s)
    (before after : MatchDecision) : Decidable (p.Differ before after) :=
  inferInstanceAs (Decidable (∃ pair ∈ MasteringService.orderedPairs p.rows, _ ∧ _))

namespace Supplier

/-- A pair reviewed so far is reported as one that would be linked. -/
theorem link_changes_exact_eager :
    ∃ p : DomainPreview master (after [namesakes]), ∃ left right,
      (left, right) ∈ MasteringService.orderedPairs p.rows ∧
      (Reports p.simulation.linkChanges left.1.id right.1.id .review .autoLink ↔
        (master.isCannotLink (after [namesakes]) left.1.id right.1.id = true ∨
          CandidatesAgree .plain p.current p.proposed left.2 right.2)) := by
  have hruns : ((after [namesakes]).objects.map SourceObject.id).Nodup ∧
      (DomainPreview.attempt master (after [namesakes]) "supplier" eager).any (fun p =>
        decide (p.Differ .review .autoLink)) = true := by
    decide +kernel
  obtain ⟨p, -, hdiffer⟩ := (Option.any_eq_true ..).mp hruns.2
  obtain ⟨pair, hpair, hbefore, hafter⟩ := of_decide_eq_true hdiffer
  exact ⟨p, pair.1, pair.2, hpair, link_changes_exact p hruns.1 hpair hbefore hafter⟩

/-- A definition that only makes candidates of neighbours: they would be reviewed, and no change
is listed. -/
theorem link_change_missed :
    Reachable .plain workspace (after [neighbours]) ∧
      ∃ p : DomainPreview master (after [neighbours]), ∃ left right,
        (left, right) ∈ MasteringService.orderedPairs p.rows ∧
        master.effectiveDecision (after [neighbours]) p.current left right = .ok .noLink ∧
        master.effectiveDecision (after [neighbours]) p.proposed left right = .ok .review ∧
        ¬ Reports p.simulation.linkChanges left.1.id right.1.id .noLink .review := by
  have hruns : (DomainPreview.attempt master (after [neighbours]) "supplier" byCity).any (fun p =>
      decide (p.Differ .noLink .review ∧ p.simulation.linkChanges.isEmpty)) = true := by
    decide +kernel
  obtain ⟨p, -, hruns⟩ := (Option.any_eq_true ..).mp hruns
  obtain ⟨⟨pair, hpair, hbefore, hafter⟩, hempty⟩ := of_decide_eq_true hruns
  refine ⟨⟨setup ++ [neighbours], rfl⟩, p, pair.1, pair.2, hpair, hbefore, hafter, fun h => ?_⟩
  obtain ⟨c, hc, -⟩ := h.listed.mpr (by decide)
  rw [List.isEmpty_iff.mp hempty] at hc
  cases hc

end Supplier

end Recordlane
