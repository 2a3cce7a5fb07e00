import Recordlane.Library.DecimalRounding
import Recordlane.Symmetry

/-! When the normal forms of two amounts are the same text. -/
namespace Recordlane

namespace Runtime

variable (rt : Runtime)

/-- A value that is read as a finite number. -/
def Amount (v : Json) (d : Decimal) : Prop := v ≠ .null ∧ rt.decimal (rt.strOf v) = .finite d

end Runtime

namespace CompiledPolicy

variable {rt : Runtime} {policy : CompiledPolicy} {key : String} {item : Dict} {v w : Json} {d e : Decimal}

/-- Both amounts have a normal form, which is one text if and only if they are equal. -/
def Discerns (rt : Runtime) (policy : CompiledPolicy) (key : String) (v w : Json) (d e : Decimal) : Prop :=
  ∃ s t, policy.normalize rt [(key, v)] = .ok [(key, .str s)] ∧
    policy.normalize rt [(key, w)] = .ok [(key, .str t)] ∧ (s = t ↔ d.value = e.value)

/-- Two amounts in the range of the arithmetic, not a zero beside a negative zero, and which its digits tell
apart where they have one sign and differ. -/
structure ToldApart (ctx : Decimal.Context) (d e : Decimal) : Prop where
  left : |ctx.rounded d.value| < 10 ^ (ctx.emax + 1)
  right : |ctx.rounded e.value| < 10 ^ (ctx.emax + 1)
  zero : d.value = 0 → e.value = 0 → d.negative = e.negative
  digits : d.negative = e.negative → d.value ≠ e.value → ctx.rounded d.value ≠ ctx.rounded e.value

theorem normalize_amount (hitem : policy.attribute? key = some item)
    (htype : item.get? "type" = some (.str "decimal"))
    (hv : rt.Amount v d) {out : Dict} : policy.normalize rt [(key, v)] = .ok out ↔
      ∃ n, d.normalize .standard = some n ∧ out = [(key, .str n.text)] := by
  have hform : normalizeValue rt item v = decimalForm rt v := by
    unfold normalizeValue
    rw [htype]
    rfl
  have hnormalize : policy.normalize rt [(key, v)] = (do return [(key, ← decimalForm rt v)]) := by
    unfold normalize
    rw [List.mapM_cons, List.mapM_nil]
    dsimp only
    rw [hitem, ← hform]
    cases v with
    | null => exact absurd rfl hv.1
    | _ =>
      dsimp only
      cases normalizeValue rt item _ <;> rfl
  rw [hnormalize, decimalForm, hv.2]
  dsimp only
  cases d.normalize .standard with
  | none => exact ⟨nofun, fun ⟨n, hn, _⟩ => nomatch hn⟩
  | some n =>
    refine ⟨fun h => ⟨n, rfl, (Except.ok.inj h).symm⟩, ?_⟩
    rintro ⟨_, ⟨⟩, rfl⟩
    rfl

/-- Two amounts are told apart or equated as numbers are if and only if the arithmetic does so. -/
theorem normalize_faithful_iff (hitem : policy.attribute? key = some item)
    (htype : item.get? "type" = some (.str "decimal")) (hv : rt.Amount v d) (hw : rt.Amount w e) :
    Discerns rt policy key v w d e ↔ ToldApart .standard d e := by
  have hctx := Decimal.Context.standard_valid
  constructor
  · rintro ⟨s, t, hs, ht, hfaithful⟩
    obtain ⟨n, hn, hout⟩ := (normalize_amount hitem htype hv).mp hs
    obtain ⟨m, hm, hout'⟩ := (normalize_amount hitem htype hw).mp ht
    simp only [List.cons.injEq, Prod.mk.injEq, Json.str.injEq, true_and, and_true] at hout hout'
    have hforms : s = t ↔ d.negative = e.negative ∧
        Decimal.Context.standard.rounded d.value = Decimal.Context.standard.rounded e.value := by
      rw [hout, hout', Decimal.text_injective.eq_iff]
      exact Decimal.normalize_eq_iff hctx hn hm
    rw [hforms] at hfaithful
    refine ⟨?_, ?_, fun hd he => ?_, fun hsign hne hrounded => ?_⟩
    · exact (Decimal.normalize_isSome hctx).mp (by rw [hn]; rfl)
    · exact (Decimal.normalize_isSome hctx).mp (by rw [hm]; rfl)
    · exact (hfaithful.mpr (hd.trans he.symm)).1
    · exact hne (hfaithful.mp ⟨hsign, hrounded⟩)
  · intro h
    obtain ⟨n, hn⟩ := Option.isSome_iff_exists.mp ((Decimal.normalize_isSome hctx).mpr h.left)
    obtain ⟨m, hm⟩ := Option.isSome_iff_exists.mp ((Decimal.normalize_isSome hctx).mpr h.right)
    refine ⟨n.text, m.text, (normalize_amount hitem htype hv).mpr ⟨n, hn, rfl⟩,
      (normalize_amount hitem htype hw).mpr ⟨m, hm, rfl⟩, ?_⟩
    rw [Decimal.text_injective.eq_iff, Decimal.normalize_eq_iff hctx hn hm]
    constructor
    · rintro ⟨hsign, hrounded⟩
      by_contra hne
      exact h.digits hsign hne hrounded
    · intro heq
      have hsign : d.negative = e.negative := by
        by_contra hne
        obtain ⟨hd, he⟩ := (Decimal.value_eq_of_ne hne).mp heq
        exact hne (h.zero hd he)
      exact ⟨hsign, by rw [heq]⟩

end CompiledPolicy

namespace Supplier

/-- A policy with an amount. -/
def invoiced : Dict := [
  ("attributes", .arr [.obj [("key", .str "amount"), ("type", .str "decimal")]]),
  ("matching", .obj [("comparisons", .arr [.obj [
    ("field", .str "amount"), ("comparator", .str "exact"), ("weight", .int 1)]])])]

theorem invoiced_compiled : ∃ policy item, compilePolicy .plain (.obj invoiced) = .ok policy ∧
    policy.attribute? "amount" = some item ∧ item.get? "type" = some (.str "decimal") := by
  have hchecked : ((compilePolicy .plain (.obj invoiced)).toOption.any fun policy =>
      (policy.attribute? "amount").any fun item =>
        decide (item.get? "type" = some (.str "decimal"))) = true := by
    decide +kernel
  obtain ⟨policy, hpolicy, hchecked⟩ := Except.of_any hchecked
  obtain ⟨item, hitem, htype⟩ := (Option.any_eq_true ..).mp hchecked
  exact ⟨policy, item, hpolicy, hitem, of_decide_eq_true htype⟩

/-- One and a number with a digit in the 30th place have one normal form. -/
theorem normalize_unfaithful : ¬ ∀ definition policy key item v w d e,
    compilePolicy .plain definition = .ok policy → policy.attribute? key = some item →
    item.get? "type" = some (.str "decimal") → Runtime.plain.Amount v d → Runtime.plain.Amount w e →
    CompiledPolicy.Discerns .plain policy key v w d e := by
  intro h
  obtain ⟨policy, item, hpolicy, hitem, htype⟩ := invoiced_compiled
  have hlong : Runtime.plain.Amount (.str "1.00000000000000000000000000001")
      ⟨false, 100000000000000000000000000001, -29⟩ := ⟨Json.noConfusion, by decide +kernel⟩
  have hone : Runtime.plain.Amount (.str "1") ⟨false, 1, 0⟩ := ⟨Json.noConfusion, by decide +kernel⟩
  obtain ⟨s, t, hs, ht, hfaithful⟩ := h _ policy "amount" item _ _ _ _ hpolicy hitem htype hlong hone
  have hrounded : Decimal.normalize .standard ⟨false, 100000000000000000000000000001, -29⟩ =
      some ⟨false, 1, 0⟩ := by
    decide +kernel
  have hkept : Decimal.normalize .standard ⟨false, 1, 0⟩ = some ⟨false, 1, 0⟩ := by
    decide +kernel
  obtain ⟨n, hn, hout⟩ := (CompiledPolicy.normalize_amount hitem htype hlong).mp hs
  obtain ⟨m, hm, hout'⟩ := (CompiledPolicy.normalize_amount hitem htype hone).mp ht
  obtain rfl := Option.some.inj (hn.symm.trans hrounded)
  obtain rfl := Option.some.inj (hm.symm.trans hkept)
  have hsame : s = t := by
    simp only [List.cons.injEq, Prod.mk.injEq, Json.str.injEq, true_and, and_true] at hout hout'
    rw [hout, hout']
  have hvalue := hfaithful.mp hsame
  norm_num [Decimal.value, Decimal.magnitude] at hvalue

/-- One and two have different normal forms. -/
theorem normalize_faithful_invoiced : ∃ policy, compilePolicy .plain (.obj invoiced) = .ok policy ∧
    (CompiledPolicy.Discerns .plain policy "amount" (.str "1") (.str "2.00") ⟨false, 1, 0⟩ ⟨false, 200, -2⟩ ↔
      CompiledPolicy.ToldApart .standard ⟨false, 1, 0⟩ ⟨false, 200, -2⟩) := by
  obtain ⟨policy, item, hpolicy, hitem, htype⟩ := invoiced_compiled
  exact ⟨policy, hpolicy, CompiledPolicy.normalize_faithful_iff hitem htype
    ⟨Json.noConfusion, by decide +kernel⟩ ⟨Json.noConfusion, by decide +kernel⟩⟩

end Supplier

end Recordlane
