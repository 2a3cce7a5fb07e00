import Mathlib.Data.List.Basic
import Mathlib.Data.List.Infix
import Mathlib.Data.List.TakeWhile

/-! The words of a text, and the text of words with one space between them. -/
namespace Words

variable {p : Char → Bool} {cs w : List Char} {ws : List (List Char)}

/-- The longest runs without a space. -/
def words (p : Char → Bool) : List Char → List (List Char)
  | [] => []
  | c :: cs =>
    if p c then words p cs
    else if cs.head?.all p then [c] :: words p cs
    else
      match words p cs with
      | [] => [[c]]
      | w :: ws => (c :: w) :: ws

def join : List (List Char) → List Char
  | [] => []
  | [w] => w
  | w :: ws => w ++ ' ' :: join ws

/-- A run without a space. -/
def Word (p : Char → Bool) (w : List Char) : Prop := w ≠ [] ∧ ∀ c ∈ w, p c = false

theorem join_cons (h : ws ≠ []) : join (w :: ws) = w ++ ' ' :: join ws := by
  cases ws with
  | nil => exact absurd rfl h
  | cons => rfl

theorem words_space {c : Char} (h : p c = true) : words p (c :: cs) = words p cs := if_pos h

theorem words_end {c : Char} (h : p c = false) (hend : cs.head?.all p = true) :
    words p (c :: cs) = [c] :: words p cs := by
  rw [words, if_neg (by simp [h]), if_pos hend]

theorem words_more {c : Char} (h : p c = false) (hend : cs.head?.all p = false)
    (hwords : words p cs = w :: ws) : words p (c :: cs) = (c :: w) :: ws := by
  rw [words, if_neg (by simp [h]), if_neg (by simp [hend]), hwords]

theorem words_head : ∀ {cs : List Char}, cs ≠ [] → (∀ c ∈ cs.head?, p c = false) →
    ∃ w ws, words p cs = w :: ws ∧ w <+: cs
  | [], h, _ => absurd rfl h
  | c :: cs, _, h => by
    have hc : p c = false := h c rfl
    rw [words, if_neg (by simp [hc])]
    by_cases hend : cs.head?.all p = true
    · rw [if_pos hend]
      exact ⟨[c], _, rfl, ⟨cs, rfl⟩⟩
    · rw [if_neg hend]
      have hne : cs ≠ [] := by
        rintro rfl
        exact hend rfl
      have hhead : ∀ d ∈ cs.head?, p d = false := by
        intro d hd
        rw [hd] at hend
        simpa using hend
      obtain ⟨w, ws, hwords, hstart⟩ := words_head hne hhead
      rw [hwords]
      exact ⟨c :: w, ws, rfl, (List.prefix_cons_inj c).mpr hstart⟩

theorem words_ne_nil {x : Char} (hx : x ∈ cs) (h : p x = false) : words p cs ≠ [] := by
  induction cs with
  | nil => cases hx
  | cons c cs ih =>
    rw [words]
    by_cases hc : p c = true
    · rw [if_pos hc]
      rcases List.mem_cons.mp hx with rfl | hx
      · rw [h] at hc
        cases hc
      · exact ih hx
    · rw [if_neg hc]
      split
      · exact List.cons_ne_nil _ _
      · split <;> exact List.cons_ne_nil _ _

theorem words_parts : ∀ w ∈ words p cs, Word p w ∧ w <:+: cs := by
  induction cs with
  | nil => exact fun _ h => nomatch h
  | cons c cs ih =>
    have hrest : ∀ w ∈ words p cs, Word p w ∧ w <:+: c :: cs := fun w h =>
      ⟨(ih w h).1, (ih w h).2.trans (List.suffix_cons c cs).isInfix⟩
    rw [words]
    by_cases hc : p c = true
    · rw [if_pos hc]
      exact hrest
    · have hone : Word p [c] := ⟨by simp, by simpa using hc⟩
      rw [if_neg hc]
      by_cases hend : cs.head?.all p = true
      · rw [if_pos hend, List.forall_mem_cons]
        exact ⟨⟨hone, (List.prefix_append [c] cs).isInfix⟩, hrest⟩
      · rw [if_neg hend]
        have hne : cs ≠ [] := by
          rintro rfl
          exact hend rfl
        have hhead : ∀ d ∈ cs.head?, p d = false := by
          intro d hd
          rw [hd] at hend
          simpa using hend
        obtain ⟨v, ws, hwords, hstart⟩ := words_head hne hhead
        rw [hwords, List.forall_mem_cons] at hrest
        rw [hwords, List.forall_mem_cons]
        refine ⟨⟨⟨List.cons_ne_nil c v, ?_⟩, ((List.prefix_cons_inj c).mpr hstart).isInfix⟩, hrest.2⟩
        rw [List.forall_mem_cons]
        exact ⟨by simpa using hc, hrest.1.1.2⟩

theorem words_append (hw : Word p w) (hrest : cs.head?.all p = true) :
    words p (w ++ cs) = w :: words p cs := by
  obtain ⟨hne, hall⟩ := hw
  induction w with
  | nil => exact absurd rfl hne
  | cons c w ih =>
    have hc : p c = false := hall c List.mem_cons_self
    rw [List.cons_append, words, if_neg (by simp [hc])]
    cases w with
    | nil =>
      rw [List.nil_append, if_pos hrest]
    | cons d w =>
      have hd : p d = false := hall d (List.mem_cons_of_mem c List.mem_cons_self)
      have hword := ih (List.cons_ne_nil d w) fun x hx => hall x (List.mem_cons_of_mem c hx)
      rw [hword, if_neg (by simp [hd])]

theorem words_join (hspace : p ' ' = true) : ∀ {ws : List (List Char)}, (∀ w ∈ ws, Word p w) →
    words p (join ws) = ws
  | [], _ => rfl
  | [w], h => by
    have hword := @words_append p [] w (h w List.mem_cons_self) rfl
    rw [List.append_nil] at hword
    exact hword
  | w :: v :: ws, h => by
    rw [join_cons (List.cons_ne_nil v ws), words_append (h w List.mem_cons_self) (by simpa using hspace),
      words_space hspace, words_join hspace fun u hu => h u (List.mem_cons_of_mem w hu)]

theorem words_dropWhile : words p (cs.dropWhile p) = words p cs := by
  induction cs with
  | nil => rfl
  | cons c cs ih =>
    by_cases hc : p c = true
    · rw [List.dropWhile_cons_of_pos hc, ih, words_space hc]
    · rw [List.dropWhile_cons_of_neg hc]

theorem words_trailing {rest : List Char} (h : ∀ c ∈ rest, p c = true) :
    words p (cs ++ rest) = words p cs := by
  induction cs with
  | nil =>
    induction rest with
    | nil => rfl
    | cons c rest ih =>
      rw [List.nil_append, words_space (h c List.mem_cons_self)]
      exact ih fun d hd => h d (List.mem_cons_of_mem c hd)
  | cons c cs ih =>
    have hhead : (cs ++ rest).head?.all p = cs.head?.all p := by
      cases cs with
      | nil =>
        cases rest with
        | nil => rfl
        | cons d rest => exact h d List.mem_cons_self
      | cons => rfl
    rw [List.cons_append, words, words, hhead, ih]

theorem words_strip : words p ((cs.dropWhile p).reverse.dropWhile p).reverse = words p cs := by
  rw [← @words_dropWhile p cs]
  generalize cs.dropWhile p = cs
  have hsplit : (cs.reverse.dropWhile p).reverse ++ (cs.reverse.takeWhile p).reverse = cs := by
    rw [← List.reverse_append, List.takeWhile_append_dropWhile, List.reverse_reverse]
  have htrailing := @words_trailing p (cs.reverse.dropWhile p).reverse (cs.reverse.takeWhile p).reverse
    fun c hc => List.mem_takeWhile_imp (List.mem_reverse.mp hc)
  rw [hsplit] at htrailing
  exact htrailing.symm

end Words
