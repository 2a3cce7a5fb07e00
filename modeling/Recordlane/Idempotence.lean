import Recordlane.Library.DecimalRounding
import Recordlane.Library.Words
import Recordlane.Settings
import Mathlib.Data.List.SplitBy

/-! When normalizing values a second time changes nothing. -/
namespace Recordlane

namespace Runtime

/-- What is relied on of the compatibility composition of texts: it is a normal form that no longer text
shares with its beginning, parts of a composed text are composed, and nothing composes across a space. -/
structure Composes (rt : Runtime) : Prop where
  again : ∀ s, rt.nfkc (rt.nfkc s) = rt.nfkc s
  longer : ∀ a b, rt.nfkc (a ++ b) = rt.nfkc a → b = ""
  part : ∀ a b, rt.nfkc (a ++ b) = a ++ b → rt.nfkc a = a ∧ rt.nfkc b = b
  across : ∀ a b, rt.nfkc (a ++ (" " ++ b)) = rt.nfkc a ++ (" " ++ rt.nfkc b)
  blank : rt.isSpace ' ' = true

/-- What is relied on of a case mapping: it maps the characters one by one, a composed word to a word, and
equivalent forms to equivalent ones. -/
structure MapsCase (rt : Runtime) (case : String → String) : Prop where
  append : ∀ a b, case (a ++ b) = case a ++ case b
  blank : case " " = " "
  word : ∀ w, rt.nfkc w = w → Words.Word rt.isSpace w.toList → Words.Word rt.isSpace (rt.nfkc (case w)).toList
  equivalent : ∀ w, rt.nfkc w = w → rt.nfkc (case (rt.nfkc (case w))) = rt.nfkc (case w)

/-- What is relied on of the texts of numbers: they read as what they were written for. -/
structure ReadsDecimals (rt : Runtime) : Prop where
  text : ∀ s, rt.strOf (.str s) = s
  finite : ∀ d n, Decimal.normalize .standard d = some n → rt.decimal n.text = .finite n
  special : ∀ s form, rt.decimal s = .special form → rt.decimal form = .special form

end Runtime

variable {rt : Runtime} {cs : List Char} {ws : List (List Char)}

/-! Cleaned texts are words with one space between them. -/

/-- A text in its composed form, without spaces at the ends and with single ones inside. -/
def cleaned (rt : Runtime) (text : String) : String :=
  String.ofList (collapseSpace rt false (strip rt (rt.nfkc text).toList))

theorem collapseSpace_blank {c : Char} (h : rt.isSpace c = true) (inRun : Bool) :
    collapseSpace rt inRun (c :: cs) = (if inRun then [] else [' ']) ++ collapseSpace rt true cs := by
  rw [collapseSpace, if_pos h]
  cases inRun <;> rfl

theorem collapseSpace_char {c : Char} (h : rt.isSpace c = false) (inRun : Bool) :
    collapseSpace rt inRun (c :: cs) = c :: collapseSpace rt false cs := by
  rw [collapseSpace, if_neg (by simp [h])]

theorem collapseSpace_words (hend : ∀ c ∈ cs.getLast?, rt.isSpace c = false) :
    collapseSpace rt true cs = Words.join (Words.words rt.isSpace cs) ∧
      collapseSpace rt false cs = (if cs.head?.any rt.isSpace then [' '] else []) ++
        Words.join (Words.words rt.isSpace cs) := by
  induction cs with
  | nil => exact ⟨rfl, rfl⟩
  | cons c cs ih =>
    by_cases hnil : cs = []
    · subst hnil
      have hc : rt.isSpace c = false := hend c rfl
      simp [collapseSpace, Words.words, Words.join, hc]
    · obtain ⟨d, ds, rfl⟩ := List.exists_cons_of_ne_nil hnil
      rw [List.getLast?_cons_cons] at hend
      obtain ⟨hrun, hfresh⟩ := ih hend
      have hne : Words.words rt.isSpace (d :: ds) ≠ [] := Words.words_ne_nil
        (List.getLast_mem hnil) (hend _ (List.getLast?_eq_getLast_of_ne_nil hnil))
      by_cases hc : rt.isSpace c = true
      · rw [collapseSpace_blank hc, collapseSpace_blank hc, Words.words_space hc, hrun]
        simp [hc]
      · rw [Bool.not_eq_true] at hc
        rw [collapseSpace_char hc, collapseSpace_char hc, hfresh]
        by_cases hd : rt.isSpace d = true
        · rw [Words.words_end hc (by simpa using hd), Words.join_cons hne]
          simp [hc, hd]
        · rw [Bool.not_eq_true] at hd
          have hhead : ∀ x ∈ (d :: ds).head?, rt.isSpace x = false := by
            rintro _ ⟨⟩
            exact hd
          obtain ⟨w, ws, hwords, -⟩ := Words.words_head (List.cons_ne_nil d ds) hhead
          rw [Words.words_more hc (by simpa using hd) hwords, hwords]
          cases ws with
          | nil => simp [hc, hd, Words.join]
          | cons v ws => simp [hc, hd, Words.join_cons]

theorem strip_last : ∀ c ∈ (strip rt cs).getLast?, rt.isSpace c = false := by
  intro c hc
  rw [strip, List.getLast?_reverse] at hc
  have hnot := List.head?_dropWhile_not rt.isSpace (cs.dropWhile rt.isSpace).reverse
  rw [hc] at hnot
  exact hnot

theorem strip_first : (strip rt cs).head?.any rt.isSpace = false := by
  have hsplit : strip rt cs ++ ((cs.dropWhile rt.isSpace).reverse.takeWhile rt.isSpace).reverse =
      cs.dropWhile rt.isSpace := by
    rw [strip, ← List.reverse_append, List.takeWhile_append_dropWhile, List.reverse_reverse]
  have hnot := List.head?_dropWhile_not rt.isSpace cs
  cases hs : strip rt cs with
  | nil => rfl
  | cons c ds =>
    rw [← hsplit, hs] at hnot
    exact hnot

theorem cleaned_eq (text : String) : cleaned rt text =
    String.ofList (Words.join (Words.words rt.isSpace (rt.nfkc text).toList)) := by
  rw [cleaned, (collapseSpace_words strip_last).2, strip_first, if_neg Bool.false_ne_true, List.nil_append,
    strip, Words.words_strip]

/-! Texts that are mapped word by word. -/

/-- What a map of texts does to the characters. -/
def onChars (f : String → String) (cs : List Char) : List Char := (f (String.ofList cs)).toList

theorem ofList_onChars (f : String → String) (cs : List Char) :
    String.ofList (onChars f cs) = f (String.ofList cs) :=
  String.ofList_toList

theorem onChars_nil {f : String → String} (h : f "" = "") : onChars f [] = [] := congrArg String.toList h

theorem map_join {f : String → String} (hnil : f "" = "")
    (hacross : ∀ a b, f (a ++ (" " ++ b)) = f a ++ (" " ++ f b)) :
    ∀ ws, f (String.ofList (Words.join ws)) = String.ofList (Words.join (ws.map (onChars f)))
  | [] => hnil
  | [w] => (ofList_onChars f w).symm
  | w :: v :: ws => by
    have hcons : ∀ w cs, String.ofList (w ++ ' ' :: cs) = String.ofList w ++ (" " ++ String.ofList cs) := by
      intro w cs
      rw [String.ofList_append]
      exact congrArg (String.ofList w ++ ·) (@String.ofList_append [' '] cs)
    have hmap : (w :: v :: ws).map (onChars f) = onChars f w :: (v :: ws).map (onChars f) := rfl
    have hne : (v :: ws).map (onChars f) ≠ [] := List.cons_ne_nil _ _
    rw [Words.join_cons (List.cons_ne_nil v ws), hcons, hacross, map_join hnil hacross (v :: ws), hmap,
      Words.join_cons hne, hcons, ofList_onChars]

namespace Runtime.Composes

variable (hrt : rt.Composes)

include hrt

theorem empty : rt.nfkc "" = "" :=
  (hrt.part "" (rt.nfkc "") (by rw [String.empty_append, hrt.again])).1

theorem part_composed {cs w : List Char} (h : onChars rt.nfkc cs = cs) (hw : w <:+: cs) :
    onChars rt.nfkc w = w := by
  obtain ⟨before, after, hsplit⟩ := hw
  have htext : String.ofList cs = String.ofList before ++ (String.ofList w ++ String.ofList after) := by
    rw [← String.ofList_append, ← String.ofList_append, ← List.append_assoc, hsplit]
  have hcs : rt.nfkc (String.ofList cs) = String.ofList cs := by rw [← ofList_onChars rt.nfkc, h]
  rw [htext] at hcs
  have hword := (hrt.part _ _ (hrt.part _ _ hcs).2).1
  rw [onChars, hword, String.toList_ofList]

theorem word_composed {text : String} (h : rt.nfkc text = text) :
    ∀ w ∈ Words.words rt.isSpace text.toList, onChars rt.nfkc w = w := by
  intro w hw
  refine hrt.part_composed ?_ (Words.words_parts w hw).2
  rw [onChars, String.ofList_toList, h]

theorem beginning_unique {x y rest rest' : List Char} (hsame : onChars rt.nfkc x = onChars rt.nfkc y)
    (h : x ++ rest = y ++ rest') : x = y := by
  have hcut : ∀ {u v : List Char}, onChars rt.nfkc (u ++ v) = onChars rt.nfkc u → v = [] := by
    intro u v huv
    rw [onChars, onChars, String.toList_inj, String.ofList_append] at huv
    exact String.ofList_eq_empty_iff.mp (hrt.longer _ _ huv)
  rcases List.append_eq_append_iff.mp h with ⟨more, rfl, -⟩ | ⟨more, rfl, -⟩
  · rw [hcut hsame.symm, List.append_nil]
  · rw [hcut hsame, List.append_nil]

theorem nfkc_cleaned (text : String) : rt.nfkc (cleaned rt text) = cleaned rt text := by
  rw [cleaned_eq, map_join hrt.empty hrt.across]
  congr 2
  exact (List.map_congr_left (hrt.word_composed (hrt.again text))).trans (List.map_id _)

theorem cleaned_join {ws : List (List Char)} (h : ∀ w ∈ ws, Words.Word rt.isSpace (onChars rt.nfkc w)) :
    cleaned rt (String.ofList (Words.join ws)) = rt.nfkc (String.ofList (Words.join ws)) := by
  have hwords : ∀ w ∈ ws.map (onChars rt.nfkc), Words.Word rt.isSpace w := by
    intro w hw
    obtain ⟨v, hv, rfl⟩ := List.mem_map.mp hw
    exact h v hv
  rw [cleaned_eq, map_join hrt.empty hrt.across, String.toList_ofList, Words.words_join hrt.blank hwords]

theorem cleaned_cleaned (text : String) : cleaned rt (cleaned rt text) = cleaned rt text := by
  have hwords : ∀ w ∈ Words.words rt.isSpace (rt.nfkc text).toList,
      Words.Word rt.isSpace (onChars rt.nfkc w) := by
    intro w hw
    rw [hrt.word_composed (hrt.again text) w hw]
    exact (Words.words_parts w hw).1
  have hclean := hrt.cleaned_join hwords
  rw [← cleaned_eq, hrt.nfkc_cleaned] at hclean
  exact hclean

/-- Maps to equivalent forms agree on a row of parts if and only if they agree on each of them. -/
theorem flatten_eq_iff {f g : List Char → List Char} {parts : List (List Char)}
    (h : ∀ part ∈ parts, onChars rt.nfkc (f part) = onChars rt.nfkc (g part)) :
    (parts.map f).flatten = (parts.map g).flatten ↔ ∀ part ∈ parts, f part = g part := by
  refine ⟨fun heq => ?_, fun hall => congrArg List.flatten (List.map_congr_left hall)⟩
  induction parts with
  | nil => nofun
  | cons part parts ih =>
    obtain ⟨hpart, hparts⟩ := List.forall_mem_cons.mp h
    rw [List.map_cons, List.map_cons, List.flatten_cons, List.flatten_cons] at heq
    have hfirst := hrt.beginning_unique hpart heq
    rw [hfirst, List.append_cancel_left_eq] at heq
    exact List.forall_mem_cons.mpr ⟨hfirst, ih hparts heq⟩

theorem join_eq_iff {f g : List Char → List Char} {parts : List (List Char)}
    (h : ∀ part ∈ parts, onChars rt.nfkc (f part) = onChars rt.nfkc (g part)) :
    Words.join (parts.map f) = Words.join (parts.map g) ↔ ∀ part ∈ parts, f part = g part := by
  refine ⟨fun heq => ?_, fun hall => congrArg Words.join (List.map_congr_left hall)⟩
  induction parts with
  | nil => nofun
  | cons part parts ih =>
    obtain ⟨hpart, hparts⟩ := List.forall_mem_cons.mp h
    cases parts with
    | nil => exact List.forall_mem_cons.mpr ⟨heq, nofun⟩
    | cons next parts =>
      have hjoin (f : List Char → List Char) : Words.join ((part :: next :: parts).map f) =
          f part ++ ' ' :: Words.join ((next :: parts).map f) := Words.join_cons (List.cons_ne_nil _ _)
      rw [hjoin, hjoin] at heq
      have hfirst := hrt.beginning_unique hpart heq
      rw [hfirst, List.append_cancel_left_eq, List.cons.injEq] at heq
      exact List.forall_mem_cons.mpr ⟨hfirst, ih hparts heq.2⟩

end Runtime.Composes

namespace Runtime.MapsCase

variable {case : String → String} (hcase : rt.MapsCase case)

include hcase

theorem empty : case "" = "" := by
  have hlength := congrArg String.length (hcase.append "" "")
  rw [String.empty_append, String.length_append] at hlength
  exact String.length_eq_zero_iff.mp (by omega)

theorem across (a b : String) : case (a ++ (" " ++ b)) = case a ++ (" " ++ case b) := by
  rw [hcase.append, hcase.append, hcase.blank]

theorem onChars_append (cs ds : List Char) : onChars case (cs ++ ds) = onChars case cs ++ onChars case ds := by
  rw [onChars, String.ofList_append, hcase.append, String.toList_append]
  rfl

theorem onChars_flatten (parts : List (List Char)) :
    onChars case parts.flatten = (parts.map (onChars case)).flatten := by
  induction parts with
  | nil => exact onChars_nil hcase.empty
  | cons part parts ih =>
    rw [List.flatten_cons, hcase.onChars_append, ih, List.map_cons, List.flatten_cons]

theorem equivalent_onChars (h : onChars rt.nfkc cs = cs) :
    onChars rt.nfkc (onChars case (onChars rt.nfkc (onChars case cs))) = onChars rt.nfkc (onChars case cs) := by
  have hcs : rt.nfkc (String.ofList cs) = String.ofList cs := by rw [← ofList_onChars rt.nfkc, h]
  simp only [onChars, String.ofList_toList]
  rw [hcase.equivalent _ hcs]

end Runtime.MapsCase

/-- The case mapping of a cleaned text has single spaces between its words, and composing it keeps them. -/
theorem Runtime.Composes.cleaned_case (hrt : rt.Composes) {case : String → String} (hcase : rt.MapsCase case)
    (text : String) : cleaned rt (case (cleaned rt text)) = rt.nfkc (case (cleaned rt text)) := by
  rw [cleaned_eq text, map_join hcase.empty hcase.across]
  refine hrt.cleaned_join fun w hw => ?_
  obtain ⟨v, hv, rfl⟩ := List.mem_map.mp hw
  have hcomposed := hrt.word_composed (hrt.again text) v hv
  have hword := hcase.word (String.ofList v) (by rw [← ofList_onChars rt.nfkc, hcomposed])
    (by rw [String.toList_ofList]; exact (Words.words_parts v hv).1)
  rw [onChars, ofList_onChars]
  exact hword

/-! One text. -/

/-- What a character is mapped to neither composes nor changes places with anything before it. -/
def Separate (rt : Runtime) (case : String → String) (c : Char) : Prop :=
  ∀ a b, rt.nfkc (a ++ (case (String.singleton c) ++ b)) =
    rt.nfkc a ++ rt.nfkc (case (String.singleton c) ++ b)

open Classical in
/-- A word cut before each such character: a letter stays with its marks. -/
noncomputable def clusters (rt : Runtime) (case : String → String) (word : List Char) : List (List Char) :=
  word.splitBy fun _ c => !decide (Separate rt case c)

/-- The case mapping of a cluster is also the one of the form that it composes to. -/
def Restored (rt : Runtime) (case : String → String) (cluster : List Char) : Prop :=
  onChars case (onChars rt.nfkc (onChars case cluster)) = onChars case cluster

/-- The clusters in the words of a composed text are restored. -/
def CaseSettled (rt : Runtime) (case : String → String) (text : String) : Prop :=
  ∀ word ∈ Words.words rt.isSpace text.toList, ∀ cluster ∈ clusters rt case word, Restored rt case cluster

/-- The composed form of a text settles in the case mapping of its normalizer. -/
def SettledIn (rt : Runtime) (mode : Json) (text : String) : Prop :=
  (mode = .str "uppercase_trim" → CaseSettled rt rt.upper (rt.nfkc text)) ∧
    (mode = .str "unicode_casefold" → CaseSettled rt rt.casefold (rt.nfkc text))

section Clusters

variable {case : String → String} (hrt : rt.Composes) (hcase : rt.MapsCase case)

include hrt hcase

/-- The mapped clusters are composed one by one. -/
theorem nfkc_clusters {parts : List (List Char)}
    (h : parts.IsChain fun _ part => ∃ c cs, part = c :: cs ∧ Separate rt case c) :
    onChars rt.nfkc (onChars case parts.flatten) =
      (parts.map fun part => onChars rt.nfkc (onChars case part)).flatten := by
  induction parts with
  | nil =>
    rw [List.flatten_nil, onChars_nil hcase.empty, onChars_nil hrt.empty]
    rfl
  | cons part parts ih =>
    rw [List.map_cons, List.flatten_cons, List.flatten_cons]
    cases parts with
    | nil => simp
    | cons next parts =>
      obtain ⟨⟨c, cs, rfl, hseparate⟩, hrest⟩ := List.isChain_cons_cons.mp h
      have hsplit := hseparate (case (String.ofList part)) (case (String.ofList (cs ++ parts.flatten)))
      rw [← ih hrest, hcase.onChars_append, List.flatten_cons, List.cons_append, ← List.singleton_append,
        hcase.onChars_append]
      have hsingle : String.ofList [c] = String.singleton c := rfl
      simp only [onChars, hsingle, String.ofList_append, String.ofList_toList, ← String.toList_append] at hsplit ⊢
      exact congrArg String.toList hsplit

/-- A composed word is restored if and only if its clusters are. -/
theorem restored_iff {word : List Char} (h : onChars rt.nfkc word = word) :
    Restored rt case word ↔ ∀ cluster ∈ clusters rt case word, Restored rt case cluster := by
  classical
  have hflatten : (clusters rt case word).flatten = word := List.flatten_splitBy _ word
  have hchain : (clusters rt case word).IsChain fun _ part => ∃ c cs, part = c :: cs ∧ Separate rt case c := by
    refine (List.isChain_getLast_head_splitBy _ word).imp ?_
    rintro - part ⟨-, hne, hcut⟩
    exact ⟨part.head hne, part.tail, (List.cons_head_tail hne).symm, by simpa using hcut⟩
  have hmapped := nfkc_clusters hrt hcase hchain
  rw [hflatten] at hmapped
  rw [Restored, hmapped, hcase.onChars_flatten, List.map_map]
  nth_rewrite 2 [← hflatten]
  rw [hcase.onChars_flatten]
  refine hrt.flatten_eq_iff fun cluster hcluster => ?_
  exact hcase.equivalent_onChars (hrt.part_composed h (hflatten ▸ List.infix_of_mem_flatten hcluster))

theorem caseSettled_iff (text : String) : case (rt.nfkc (case (cleaned rt text))) = case (cleaned rt text) ↔
    CaseSettled rt case (rt.nfkc text) := by
  have hcomposed := hrt.word_composed (hrt.again text)
  have hword : CaseSettled rt case (rt.nfkc text) ↔
      ∀ word ∈ Words.words rt.isSpace (rt.nfkc text).toList, Restored rt case word :=
    forall₂_congr fun word h => (restored_iff hrt hcase (hcomposed word h)).symm
  rw [hword, cleaned_eq, map_join hcase.empty hcase.across, map_join hrt.empty hrt.across,
    map_join hcase.empty hcase.across, List.map_map, List.map_map, String.ofList_inj]
  exact hrt.join_eq_iff fun word h => hcase.equivalent_onChars (hcomposed word h)

end Clusters

/-- What is relied on of the texts of a runtime. -/
structure Runtime.MapsTexts (rt : Runtime) : Prop where
  composes : rt.Composes
  upper : rt.MapsCase rt.upper
  casefold : rt.MapsCase rt.casefold

theorem textForm_settled (hrt : rt.MapsTexts) {mode : Json} (hmode : memberOf mode normalizers = true)
    (text : String) : (∃ form, textForm rt text mode = .ok form ∧ textForm rt form mode = .ok form) ↔
      SettledIn rt mode text := by
  have hcase : ∀ case : String → String, rt.MapsCase case →
      (case (cleaned rt (case (cleaned rt text))) = case (cleaned rt text) ↔
        CaseSettled rt case (rt.nfkc text)) := by
    intro case hcase
    rw [hrt.composes.cleaned_case hcase, caseSettled_iff hrt.composes hcase]
  cases mode with
  | str name =>
    have hname : name ∈ normalizers := by simpa [memberOf] using hmode
    simp only [normalizers, List.mem_cons, List.not_mem_nil, or_false] at hname
    rcases hname with rfl | rfl | rfl
    · refine iff_of_true ⟨cleaned rt text, rfl, ?_⟩ ⟨by simp, by simp⟩
      exact congrArg Except.ok (hrt.composes.cleaned_cleaned text)
    · refine Iff.trans ⟨?_, fun h => ⟨_, rfl, congrArg Except.ok h⟩⟩ ((hcase rt.upper hrt.upper).trans ?_)
      · rintro ⟨form, hform, h⟩
        rw [← Except.ok.inj hform] at h
        exact Except.ok.inj h
      · exact ⟨fun h => ⟨fun _ => h, by simp⟩, fun h => h.1 rfl⟩
    · refine Iff.trans ⟨?_, fun h => ⟨_, rfl, congrArg Except.ok h⟩⟩
          ((hcase rt.casefold hrt.casefold).trans ?_)
      · rintro ⟨form, hform, h⟩
        rw [← Except.ok.inj hform] at h
        exact Except.ok.inj h
      · exact ⟨fun h => ⟨by simp, fun _ => h⟩, fun h => h.2 rfl⟩
  | _ => cases hmode

/-! All values. -/

theorem mapM_fixed {α : Type} {f : α → Py α} {xs : List α} :
    (∃ ys, xs.mapM f = .ok ys ∧ ys.mapM f = .ok ys) ↔ ∀ x ∈ xs, ∃ y, f x = .ok y ∧ f y = .ok y := by
  constructor
  · rintro ⟨ys, hxs, hys⟩ x hx
    obtain ⟨y, hy, hxy⟩ := (Except.mapM_mem hxs).2 x hx
    refine ⟨y, hxy, ?_⟩
    have hall := Except.mapM_forall₂ hys
    clear hxs hys hxy
    -- each member of the mapped list is its own result
    induction ys with
    | nil => cases hy
    | cons z ys ih =>
      obtain ⟨hz, hrest⟩ := List.forall₂_cons.mp hall
      rcases List.mem_cons.mp hy with rfl | hy
      · exact hz
      · exact ih hy hrest
  · intro h
    induction xs with
    | nil => exact ⟨[], rfl, rfl⟩
    | cons x xs ih =>
      obtain ⟨y, hxy, hyy⟩ := h x List.mem_cons_self
      obtain ⟨ys, hxs, hys⟩ := ih fun z hz => h z (List.mem_cons_of_mem x hz)
      refine ⟨y :: ys, ?_, ?_⟩
      · simp only [List.mapM_cons, Except.bind_eq_ok, Except.pure_eq_ok]
        exact ⟨y, hxy, ys, hxs, rfl⟩
      · simp only [List.mapM_cons, Except.bind_eq_ok, Except.pure_eq_ok]
        exact ⟨y, hyy, ys, hys, rfl⟩

namespace CompiledPolicy

variable {policy : CompiledPolicy} {item : Dict} {v : Json}

def kindOf (item : Dict) : Json := (item.get? "type").getD (.str "string")

/-- The normalizer of a text under an attribute. -/
def textMode (item : Dict) : Json :=
  (item.get? "normalizer").getD
    (.str (if (kindOf item).pyEq (.str "string") || (kindOf item).pyEq (.str "reference")
    then "unicode_casefold" else "preserve"))

/-- The normalizer of the texts in a list under an attribute. -/
def listMode (item : Dict) : Json := (item.get? "normalizer").getD (.str "unicode_casefold")

/-- A number in the range of the arithmetic, or texts whose case mappings settle at once. -/
def SettledValue (rt : Runtime) (item : Dict) (v : Json) : Prop :=
  if kindOf item = .str "decimal" then ∀ d, rt.decimal (rt.strOf v) = .finite d →
    |Decimal.Context.standard.rounded d.value| < 10 ^ (Decimal.Context.standard.emax + 1)
  else
    match v with
    | .str text => SettledIn rt (textMode item) text
    | .arr entries => ∀ text, .str text ∈ entries → SettledIn rt (listMode item) text
    | _ => True

theorem modes_supported (h : memberOf ((item.get? "normalizer").getD (.str "preserve")) normalizers = true) :
    memberOf (textMode item) normalizers = true ∧ memberOf (listMode item) normalizers = true := by
  unfold textMode listMode
  cases hmode : item.get? "normalizer" with
  | none =>
    refine ⟨?_, rfl⟩
    dsimp only [Option.getD_none]
    split <;> rfl
  | some mode =>
    rw [hmode] at h
    exact ⟨h, h⟩

theorem decimalForm_settled (hrt : rt.ReadsDecimals) (hv : v ≠ .null) :
    (∃ w, w ≠ .null ∧ decimalForm rt v = .ok w ∧ decimalForm rt w = .ok w) ↔
      ∀ d, rt.decimal (rt.strOf v) = .finite d →
        |Decimal.Context.standard.rounded d.value| < 10 ^ (Decimal.Context.standard.emax + 1) := by
  have hctx := Decimal.Context.standard_valid
  unfold decimalForm
  cases hread : rt.decimal (rt.strOf v) with
  | finite d =>
    dsimp only
    have hsome := @Decimal.normalize_isSome .standard d hctx
    cases hn : d.normalize .standard with
    | none =>
      rw [hn] at hsome
      refine iff_of_false ?_ fun h => ?_
      · rintro ⟨w, -, h, -⟩
        cases h
      · exact absurd (hsome.mpr (h d rfl)) Bool.false_ne_true
    | some n =>
      rw [hn] at hsome
      refine iff_of_true ⟨.str n.text, nofun, rfl, ?_⟩ ?_
      · rw [hrt.text, hrt.finite d n hn]
        dsimp only
        rw [Decimal.normalize_normalize hctx hn]
      · rintro _ ⟨⟩
        exact hsome.mp rfl
  | special form =>
    refine iff_of_true ⟨.str form, nofun, rfl, ?_⟩ nofun
    rw [hrt.text, hrt.special _ form hread]
  | invalid =>
    refine iff_of_true ⟨v, hv, rfl, ?_⟩ nofun
    rw [hread]

/-- The normal form of a member of a list. -/
def normalizeEntry (rt : Runtime) (mode : Json) : Json → Py Json
  | .str text => do return .str (← textForm rt text mode)
  | entry => pure entry

theorem normalizeValue_decimal (h : kindOf item = .str "decimal") :
    normalizeValue rt item v = decimalForm rt v := by
  unfold normalizeValue
  rw [← kindOf, h]
  rfl

theorem normalizeValue_str (h : kindOf item ≠ .str "decimal") {text : String} :
    normalizeValue rt item (.str text) = normalizeEntry rt (textMode item) (.str text) := by
  unfold normalizeValue textMode
  rw [← kindOf]
  dsimp only
  split
  · next hkind => exact absurd hkind h
  · next heq _ =>
    cases heq
    rfl
  · next heq _ => cases heq
  · next hstr _ => exact absurd rfl (hstr text)

theorem normalizeValue_arr (h : kindOf item ≠ .str "decimal") {entries : List Json} :
    normalizeValue rt item (.arr entries) =
    (do return .arr (← entries.mapM (normalizeEntry rt (listMode item)))) := by
  unfold normalizeValue listMode
  rw [← kindOf]
  dsimp only
  split
  · next hkind => exact absurd hkind h
  · next heq _ => cases heq
  · next heq _ =>
    cases heq
    rfl
  · next harr => exact absurd rfl (harr entries)

theorem normalizeValue_other (h : kindOf item ≠ .str "decimal") (hstr : ∀ text, v ≠ .str text)
    (harr : ∀ entries, v ≠ .arr entries) : normalizeValue rt item v = .ok v := by
  unfold normalizeValue
  rw [← kindOf]
  dsimp only
  split
  · next hkind => exact absurd hkind h
  · exact absurd rfl (hstr _)
  · exact absurd rfl (harr _)
  · rfl

theorem normalizeEntry_settled (hrt : rt.MapsTexts) {mode : Json} (hmode : memberOf mode normalizers = true)
    (text : String) : (∃ form, normalizeEntry rt mode (.str text) = .ok (.str form) ∧
      normalizeEntry rt mode (.str form) = .ok (.str form)) ↔ SettledIn rt mode text := by
  rw [← textForm_settled hrt hmode]
  simp only [normalizeEntry, Except.bind_eq_ok, Except.pure_eq_ok, Json.str.injEq]
  constructor
  · rintro ⟨form, ⟨_, hform, rfl⟩, _, hagain, rfl⟩
    exact ⟨_, hform, hagain⟩
  · rintro ⟨form, hform, hagain⟩
    exact ⟨form, ⟨form, hform, rfl⟩, form, hagain, rfl⟩

theorem normalizeEntry_str {mode w : Json} {text : String} (h : normalizeEntry rt mode (.str text) = .ok w) :
    ∃ form, w = .str form := by
  simp only [normalizeEntry, Except.bind_eq_ok, Except.pure_eq_ok] at h
  obtain ⟨form, -, rfl⟩ := h
  exact ⟨form, rfl⟩

theorem normalizeValue_ne_null {w : Json} (hv : v ≠ .null) (h : normalizeValue rt item v = .ok w) :
    w ≠ .null := by
  by_cases hkind : kindOf item = .str "decimal"
  · rw [normalizeValue_decimal hkind, decimalForm] at h
    rintro rfl
    split at h
    · split at h <;> cases h
    · cases h
    · exact hv (Except.ok.inj h)
  · rintro rfl
    cases v with
    | str text =>
      rw [normalizeValue_str hkind] at h
      obtain ⟨form, hform⟩ := normalizeEntry_str h
      cases hform
    | arr entries =>
      rw [normalizeValue_arr hkind] at h
      simp only [Except.bind_eq_ok, Except.pure_eq_ok] at h
      obtain ⟨_, -, hform⟩ := h
      cases hform
    | null => exact hv rfl
    | _ =>
      refine hv (Except.ok.inj ((normalizeValue_other hkind ?_ ?_).symm.trans h))
      all_goals nofun

/-- A value is mapped to a fixed one if and only if it settles. -/
theorem normalizeValue_settled (hrt : rt.MapsTexts) (hread : rt.ReadsDecimals) (hv : v ≠ .null)
    (hmode : memberOf ((item.get? "normalizer").getD (.str "preserve")) normalizers = true) :
    (∃ w, w ≠ .null ∧ normalizeValue rt item v = .ok w ∧ normalizeValue rt item w = .ok w) ↔
      SettledValue rt item v := by
  obtain ⟨htext, hlist⟩ := modes_supported hmode
  unfold SettledValue
  by_cases hkind : kindOf item = .str "decimal"
  · rw [if_pos hkind, ← decimalForm_settled hread hv]
    simp only [normalizeValue_decimal hkind]
  · rw [if_neg hkind]
    cases v with
    | str text =>
      dsimp only
      rw [← normalizeEntry_settled hrt htext]
      constructor
      · rintro ⟨w, -, hfirst, hsecond⟩
        rw [normalizeValue_str hkind] at hfirst
        obtain ⟨form, rfl⟩ := normalizeEntry_str hfirst
        rw [normalizeValue_str hkind] at hsecond
        exact ⟨form, hfirst, hsecond⟩
      · rintro ⟨form, hfirst, hsecond⟩
        exact ⟨.str form, nofun, (normalizeValue_str hkind).trans hfirst,
            (normalizeValue_str hkind).trans hsecond⟩
    | arr entries =>
      have hentry : ∀ x, (∃ y, normalizeEntry rt (listMode item) x = .ok y ∧
          normalizeEntry rt (listMode item) y = .ok y) ↔
            ∀ text, x = .str text → SettledIn rt (listMode item) text := by
        intro x
        cases x with
        | str text =>
          have hone := normalizeEntry_settled hrt hlist text
          refine ⟨?_, fun h => ?_⟩
          · rintro ⟨y, hfirst, hsecond⟩ _ ⟨⟩
            obtain ⟨form, rfl⟩ := normalizeEntry_str hfirst
            exact hone.mp ⟨form, hfirst, hsecond⟩
          · obtain ⟨form, hfirst, hsecond⟩ := hone.mpr (h text rfl)
            exact ⟨_, hfirst, hsecond⟩
        | _ => exact iff_of_true ⟨_, rfl, rfl⟩ nofun
      have hall : (∀ text, .str text ∈ entries → SettledIn rt (listMode item) text) ↔
          ∀ x ∈ entries, ∀ text, x = .str text → SettledIn rt (listMode item) text :=
        ⟨fun h x hx text htext => h text (htext ▸ hx), fun h text hx => h _ hx text rfl⟩
      dsimp only
      rw [hall]
      simp only [← hentry]
      rw [← mapM_fixed]
      simp only [normalizeValue_arr hkind, Except.bind_eq_ok, Except.pure_eq_ok]
      constructor
      · rintro ⟨_, -, ⟨ys, hfirst, rfl⟩, hsecond⟩
        rw [normalizeValue_arr hkind] at hsecond
        simp only [Except.bind_eq_ok, Except.pure_eq_ok, Json.arr.injEq] at hsecond
        obtain ⟨_, hsecond, rfl⟩ := hsecond
        exact ⟨_, hfirst, hsecond⟩
      · rintro ⟨ys, hfirst, hsecond⟩
        refine ⟨.arr ys, nofun, ⟨ys, hfirst, rfl⟩, ?_⟩
        rw [normalizeValue_arr hkind, hsecond]
        rfl
    | null => exact absurd rfl hv
    | _ =>
      refine iff_of_true ⟨_, hv, ?_, ?_⟩ trivial
      all_goals exact normalizeValue_other hkind nofun nofun

theorem normalizer_supported {definition : Json} (h : compilePolicy rt definition = .ok policy)
    (hitem : item ∈ policy.attributes) :
    memberOf ((item.get? "normalizer").getD (.str "preserve")) normalizers = true := by
  obtain ⟨validation, v, hv⟩ := compiled_attribute h hitem
  obtain ⟨given, reads, writes, key, -, -, -, -, -, hnormalizer, -, rfl⟩ := compileAttribute_ok hv
  rw [withAllowedValues_get? (by decide) (by decide), Dict.get?_set_of_ne (by decide)]
  exact hnormalizer

theorem attribute?_mem {key : String} (h : policy.attribute? key = some item) : item ∈ policy.attributes :=
  List.mem_reverse.mp (List.mem_of_find?_eq_some h)

/-- The normal form of a value under its key. -/
def normalizePair (rt : Runtime) (policy : CompiledPolicy) (p : String × Json) : Py (String × Json) :=
  match p.2, policy.attribute? p.1 with
  | .null, _ | _, none => pure p
  | value, some item => do return (p.1, ← normalizeValue rt item value)

theorem normalize_pairs (values : Dict) :
    policy.normalize rt values = values.mapM (normalizePair rt policy) := rfl

theorem normalizePair_settled (hrt : rt.MapsTexts) (hread : rt.ReadsDecimals) {definition : Json}
    (h : compilePolicy rt definition = .ok policy) {key : String} :
    (∃ q, normalizePair rt policy (key, v) = .ok q ∧ normalizePair rt policy q = .ok q) ↔
      ∀ item, v ≠ .null → policy.attribute? key = some item → SettledValue rt item v := by
  by_cases hv : v = .null
  · subst hv
    exact iff_of_true ⟨_, rfl, rfl⟩ fun _ hnull => absurd rfl hnull
  · cases hitem : policy.attribute? key with
    | none =>
      have hsame : normalizePair rt policy (key, v) = .ok (key, v) := by
        unfold normalizePair
        rw [hitem]
        cases v <;> rfl
      exact iff_of_true ⟨_, hsame, hsame⟩ nofun
    | some item =>
      have hpair : ∀ w ≠ .null, normalizePair rt policy (key, w) =
          (do return (key, ← normalizeValue rt item w)) := by
        intro w hw
        unfold normalizePair
        rw [hitem]
        cases w with
        | null => exact absurd rfl hw
        | _ => rfl
      have hvalue := normalizeValue_settled hrt hread hv (normalizer_supported h (attribute?_mem hitem))
      rw [hpair v hv]
      simp only [Except.bind_eq_ok, Except.pure_eq_ok]
      constructor
      · rintro ⟨_, ⟨w, hfirst, rfl⟩, hsecond⟩ _ _ ⟨⟩
        have hw := normalizeValue_ne_null hv hfirst
        rw [hpair w hw] at hsecond
        simp only [Except.bind_eq_ok, Except.pure_eq_ok, Prod.mk.injEq, true_and] at hsecond
        obtain ⟨_, hsecond, rfl⟩ := hsecond
        exact hvalue.mp ⟨_, hw, hfirst, hsecond⟩
      · intro hsettled
        obtain ⟨w, hw, hfirst, hsecond⟩ := hvalue.mpr (hsettled item hv rfl)
        refine ⟨(key, w), ⟨w, hfirst, rfl⟩, ?_⟩
        rw [hpair w hw, hsecond]
        rfl

end CompiledPolicy

theorem Runtime.plain_mapsTexts : Runtime.plain.MapsTexts where
  composes :=
    { again := fun _ => rfl
      longer := fun a b h => by simpa [Runtime.plain] using h
      part := fun _ _ _ => ⟨rfl, rfl⟩
      across := fun _ _ => rfl
      blank := by decide }
  upper := ⟨fun _ _ => rfl, rfl, fun _ _ h => h, fun _ _ => rfl⟩
  casefold := ⟨fun _ _ => rfl, rfl, fun _ _ h => h, fun _ _ => rfl⟩

theorem Runtime.plain_decimal (s : String) :
    Runtime.plain.decimal s = (Decimal.ofText s).elim .invalid .finite := by
  cases h : Decimal.ofText s <;> simp [Runtime.plain, h]

theorem Runtime.plain_readsDecimals : Runtime.plain.ReadsDecimals where
  text _ := rfl
  finite _ n _ := by
    rw [plain_decimal, Decimal.ofText_text]
    rfl
  special s form h := by
    rw [plain_decimal] at h
    cases hread : Decimal.ofText s <;> rw [hread] at h <;> cases h

namespace Supplier

/-- A capital iota and a dialytika are composed. -/
def composeIota : List Char → List Char
  | c :: d :: cs =>
    if c = Char.ofNat 0x399 ∧ d = Char.ofNat 0x308 then Char.ofNat 0x3AA :: composeIota cs
    else c :: composeIota (d :: cs)
  | cs => cs

/-- The iota with dialytika and tonos has no capital letter, but three characters. -/
def upperIota (c : Char) : List Char :=
  if c = Char.ofNat 0x390 then [Char.ofNat 0x399, Char.ofNat 0x308, Char.ofNat 0x301] else [c]

/-- A runtime that knows the iotas. -/
def greek : Runtime :=
  { Runtime.plain with
    nfkc := fun text => String.ofList (composeIota text.toList)
    upper := fun text => String.ofList (text.toList.flatMap upperIota) }

/-- A policy with names in upper case. -/
def shouted : Dict := [
  ("attributes", .arr [.obj [("key", .str "name"), ("normalizer", .str "uppercase_trim")]]),
  ("matching", .obj [("comparisons", .arr [.obj [
    ("field", .str "name"), ("comparator", .str "exact"), ("weight", .int 1)]])])]

end Supplier

end Recordlane
