import Mathlib.Data.List.Basic
import Mathlib.Data.List.Infix

/-! Texts of labelled parts with a separator between them. -/

namespace Delimited

variable {sep : String} {c : Char}

/-- A text of parts, each behind its label. -/
def text (sep : String) (parts : List (String × String)) : String :=
  sep.intercalate (parts.map fun part => part.1 ++ part.2)

theorem text_singleton {part : String × String} : text sep [part] = part.1 ++ part.2 :=
  String.intercalate_singleton

theorem text_cons_cons {part next : String × String} {parts : List (String × String)} :
    text sep (part :: next :: parts) = part.1 ++ part.2 ++ sep ++ text sep (next :: parts) :=
  String.intercalate_cons_cons

theorem append_sep_inj {α : Type*} {x : α} {a b u v : List α} (ha : x ∉ a) (hb : x ∉ b)
    (h : a ++ x :: u = b ++ x :: v) : a = b ∧ u = v := by
  induction a generalizing b with
  | nil =>
    cases b with
    | nil => exact ⟨rfl, (List.cons.inj h).2⟩
    | cons y b => exact absurd (List.cons.inj h).1 fun hxy => hb (hxy ▸ List.mem_cons_self)
  | cons y a ih =>
    cases b with
    | nil => exact absurd (List.cons.inj h).1 fun hyx => ha (hyx ▸ List.mem_cons_self)
    | cons z b =>
      obtain ⟨hyz, htail⟩ := List.cons.inj h
      obtain ⟨hab, huv⟩ := ih (List.not_mem_of_not_mem_cons ha) (List.not_mem_of_not_mem_cons hb) htail
      exact ⟨hyz ▸ hab ▸ rfl, huv⟩

theorem part_inj {a b u v : String} (ha : c ∉ a.toList) (hb : c ∉ b.toList)
    (h : a ++ String.singleton c ++ u = b ++ String.singleton c ++ v) : a = b ∧ u = v := by
  have hlist := congrArg String.toList h
  simp only [String.toList_append, String.toList_singleton, List.append_assoc, List.singleton_append]
    at hlist
  obtain ⟨hab, huv⟩ := append_sep_inj ha hb hlist
  exact ⟨String.toList_inj.mp hab, String.toList_inj.mp huv⟩

theorem append_left_inj {l a b : String} (h : l ++ a = l ++ b) : a = b := by
  have hlist := congrArg String.toList h
  rw [String.toList_append, String.toList_append] at hlist
  exact String.toList_inj.mp (List.append_cancel_left hlist)

/-- Texts with the same labels have the same parts, if no part has the separator in it. -/
theorem text_inj {parts parts' : List (String × String)}
    (hlabels : parts.map Prod.fst = parts'.map Prod.fst)
    (hparts : ∀ part ∈ parts, c ∉ part.2.toList) (hparts' : ∀ part ∈ parts', c ∉ part.2.toList)
    (h : text (String.singleton c) parts = text (String.singleton c) parts') : parts = parts' := by
  induction parts generalizing parts' with
  | nil => exact (List.map_eq_nil_iff.mp hlabels.symm).symm
  | cons part parts ih =>
    cases parts' with
    | nil => cases hlabels
    | cons part' parts' =>
      obtain ⟨hlabel, hrest⟩ := List.cons.inj hlabels
      have hp := hparts part List.mem_cons_self
      have hp' := hparts' part' List.mem_cons_self
      cases parts with
      | nil =>
        cases List.map_eq_nil_iff.mp hrest.symm
        rw [text_singleton, text_singleton, hlabel] at h
        rw [Prod.ext hlabel (append_left_inj h)]
      | cons next parts =>
        cases parts' with
        | nil => cases hrest
        | cons next' parts' =>
          rw [text_cons_cons, text_cons_cons, hlabel] at h
          simp only [String.append_assoc] at h
          have h := append_left_inj h
          rw [← String.append_assoc, ← String.append_assoc] at h
          obtain ⟨hvalue, htail⟩ := part_inj hp hp' h
          rw [Prod.ext hlabel hvalue, ih hrest (fun part hmem => hparts part (List.mem_cons_of_mem _ hmem))
            (fun part hmem => hparts' part (List.mem_cons_of_mem _ hmem)) htail]

section Infix

variable {α : Type*} {w a b : List α} {d : α}

theorem prefix_append_cons_iff (hd : d ∉ w) : w <+: a ++ d :: b ↔ w <+: a := by
  induction a generalizing w with
  | nil =>
    cases w with
    | nil => simp
    | cons x w =>
      have hne : x ≠ d := fun h => hd (h ▸ List.mem_cons_self)
      simp [hne]
  | cons c a ih =>
    cases w with
    | nil => simp
    | cons x w =>
      have hd' : d ∉ w := fun h => hd (List.mem_cons_of_mem _ h)
      rw [List.cons_append, List.cons_prefix_cons, List.cons_prefix_cons, ih hd']

/-- A word lies on one side of a delimiter. -/
theorem infix_append_cons_iff (hd : d ∉ w) : w <:+: a ++ d :: b ↔ w <:+: a ∨ w <:+: b := by
  induction a with
  | nil =>
    rw [List.nil_append, List.infix_cons_iff, List.infix_nil]
    refine or_congr_left ?_
    have hprefix := prefix_append_cons_iff (a := []) (b := b) hd
    rw [List.nil_append, List.prefix_nil] at hprefix
    exact hprefix
  | cons c a ih =>
    rw [List.cons_append, List.infix_cons_iff, ← List.cons_append, prefix_append_cons_iff hd, ih,
      List.infix_cons_iff, or_assoc]

theorem infix_cons_iff_right (hd : d ∉ w) : w <:+: d :: b ↔ w <:+: b := by
  rw [← List.nil_append (d :: b), infix_append_cons_iff hd, List.infix_nil]
  exact ⟨fun h => h.elim (fun h => h ▸ (List.nil_prefix).isInfix) id, .inr⟩

/-- A word does not start within a part that lacks its first letter. -/
theorem infix_append_iff_right (hd : d ∉ a) : d :: w <:+: a ++ b ↔ d :: w <:+: b := by
  induction a with
  | nil => rfl
  | cons c a ih =>
    rw [List.mem_cons, not_or] at hd
    rw [List.cons_append, List.infix_cons_iff, List.cons_prefix_cons, ih hd.2]
    exact or_iff_right fun h => hd.1 h.1

end Infix

end Delimited
