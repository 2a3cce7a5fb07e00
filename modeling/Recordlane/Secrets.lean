import Recordlane.Supplier
import Recordlane.Library.Delimited

/-! Marked secrets in configurations, and the text of a document, which decides whether it is searched. -/
namespace Recordlane

variable {rt : Runtime} {self : MasteringService} {s s' : Store} {document : Json} {text : String}
  {c : Char}

namespace Json

/-- A text stands in a document, as a key or as a value, at some depth. -/
inductive Holds (text : String) : Json → Prop
  | text : Holds text (.str text)
  | item {x : Json} {xs : List Json} (hx : x ∈ xs) (h : Holds text x) : Holds text (.arr xs)
  | key {kvs : Dict} (hk : text ∈ kvs.keys) : Holds text (.obj kvs)
  | value {k : String} {x : Json} {kvs : Dict} (hx : (k, x) ∈ kvs) (h : Holds text x) :
      Holds text (.obj kvs)

theorem holds_str_iff {t : String} : Holds text (.str t) ↔ text = t := by
  constructor
  · rintro ⟨⟩
    rfl
  · rintro rfl
    exact .text

theorem holds_arr_iff {xs : List Json} : Holds text (.arr xs) ↔ ∃ x ∈ xs, Holds text x := by
  constructor
  · intro h
    cases h with
    | item hx h => exact ⟨_, hx, h⟩
  · rintro ⟨x, hx, h⟩
    exact .item hx h

theorem holds_obj_iff {kvs : Dict} :
    Holds text (.obj kvs) ↔ ∃ p ∈ kvs, text = p.1 ∨ Holds text p.2 := by
  constructor
  · intro h
    cases h with
    | key hk =>
      obtain ⟨p, hp, rfl⟩ := List.mem_map.mp hk
      exact ⟨p, hp, .inl rfl⟩
    | value hx h => exact ⟨_, hx, .inr h⟩
  · rintro ⟨p, hp, rfl | h⟩
    · exact .key (List.mem_map_of_mem hp)
    · exact .value hp h

end Json

mutual

theorem mem_walkValues_iff : ∀ v : Json, .str text ∈ walkValues v ↔ v.Holds text
  | .null | .bool _ | .int _ | .float _ => by
    constructor
    · intro h
      simp [walkValues] at h
    · intro h
      cases h
  | .str t => by
    change .str text ∈ [Json.str t] ↔ _
    rw [List.mem_singleton, Json.str.injEq, Json.holds_str_iff]
  | .arr xs => by
    rw [walkValues, mem_walkItems_iff xs, Json.holds_arr_iff]
  | .obj kvs => by
    rw [walkValues, mem_walkEntries_iff kvs, Json.holds_obj_iff]

theorem mem_walkItems_iff : ∀ xs : List Json, .str text ∈ walkItems xs ↔ ∃ x ∈ xs, x.Holds text
  | [] => by simp [walkItems]
  | x :: xs => by
    rw [walkItems, List.mem_append, mem_walkValues_iff x, mem_walkItems_iff xs, List.exists_mem_cons_iff]

theorem mem_walkEntries_iff : ∀ kvs : Dict,
    .str text ∈ walkEntries kvs ↔ ∃ p ∈ kvs, text = p.1 ∨ p.2.Holds text
  | [] => by simp [walkEntries]
  | (k, v) :: kvs => by
    rw [walkEntries, List.mem_cons, List.mem_append, mem_walkValues_iff v, mem_walkEntries_iff kvs,
      List.exists_mem_cons_iff, Json.str.injEq, or_assoc]

end

/-! The text of a document. -/

/-- `\uXXXX`. -/
def unicodeEscape (n : Nat) : List Char :=
  '\\' :: 'u' :: [n / 4096, n / 256, n / 16, n].map fun k => Nat.digitChar (k % 16)

/-- A character in the text of a JSON string: what is no printable ASCII character is escaped, beyond
the basic plane as a surrogate pair. -/
def escapeChar (c : Char) : List Char :=
  if c = '\\' then ['\\', '\\']
  else if c = '\x22' then ['\\', '\x22']
  else if c = '\n' then ['\\', 'n']
  else if c = '\r' then ['\\', 'r']
  else if c = '\t' then ['\\', 't']
  else if c = '\x08' then ['\\', 'b']
  else if c = '\x0c' then ['\\', 'f']
  else if 32 ≤ c.toNat ∧ c.toNat ≤ 126 then [c]
  else if c.toNat < 65536 then unicodeEscape c.toNat
  else unicodeEscape (55296 + (c.toNat - 65536) / 1024) ++
    unicodeEscape (56320 + (c.toNat - 65536) % 1024)

def quoted (text : String) : List Char := '\x22' :: (text.toList.flatMap escapeChar ++ ['\x22'])

mutual

/-- `json.dumps(v)`. -/
def dumps (rt : Runtime) : Json → List Char
  | .null => "null".toList
  | .bool b => if b then "true".toList else "false".toList
  | .int i => (toString i).toList
  | .float q => (rt.strOf (.float q)).toList
  | .str text => quoted text
  | .arr [] => "[]".toList
  | .arr (x :: xs) => '[' :: (dumps rt x ++ dumpsItems rt xs)
  | .obj [] => ['\x7b', '\x7d']
  | .obj ((k, v) :: kvs) => '\x7b' :: (quoted k ++ ':' :: ' ' :: (dumps rt v ++ dumpsEntries rt kvs))

/-- The items after the first one. -/
def dumpsItems (rt : Runtime) : List Json → List Char
  | [] => [']']
  | x :: xs => ',' :: ' ' :: (dumps rt x ++ dumpsItems rt xs)

def dumpsEntries (rt : Runtime) : List (String × Json) → List Char
  | [] => ['\x7d']
  | (k, v) :: kvs => ',' :: ' ' :: (quoted k ++ ':' :: ' ' :: (dumps rt v ++ dumpsEntries rt kvs))

end

/-! The word that the text of a document is searched for. -/

def secretsWord : List Char := "secrets".toList

/-- `text.lower()` of ASCII text. -/
def lowered (cs : List Char) : List Char := cs.map Char.toLower

theorem lowered_cons {cs : List Char} : lowered (c :: cs) = c.toLower :: lowered cs := rfl

theorem lowered_append {cs ds : List Char} : lowered (cs ++ ds) = lowered cs ++ lowered ds :=
  List.map_append

theorem secretsWord_append_nil {cs : List Char} {d : Char} (hd : d ∉ secretsWord) :
    secretsWord <:+: cs ++ [d] ↔ secretsWord <:+: cs := by
  rw [Delimited.infix_append_cons_iff hd, List.infix_nil]
  exact or_iff_left (by decide)

theorem printable_of_lower (h : c.toLower ∈ secretsWord) : 32 ≤ c.toNat ∧ c.toNat ≤ 126 := by
  unfold Char.toLower at h
  split at h
  · next hupper =>
    obtain ⟨hlow, hhigh⟩ := hupper
    have hlow' : 65 ≤ c.toNat := hlow
    have hhigh' : c.toNat ≤ 90 := hhigh
    omega
  · have hall : secretsWord.all (fun c => 32 ≤ c.toNat && c.toNat ≤ 126) = true := by decide
    have hc := List.all_eq_true.mp hall c h
    simpa using hc

theorem unicodeEscape_eq (n : Nat) : ∃ rest, unicodeEscape n = '\\' :: rest ∧ 's' ∉ lowered rest := by
  have hdigit : ∀ k < 16, (Nat.digitChar k).toLower ≠ 's' := by decide
  refine ⟨_, rfl, ?_⟩
  rw [lowered, List.map_cons, List.map_map, List.mem_cons, not_or]
  refine ⟨by decide, fun h => ?_⟩
  obtain ⟨k, -, hk⟩ := List.mem_map.mp h
  exact hdigit (k % 16) (Nat.mod_lt k (by decide)) hk

/-- A character stays as it is, or it is no letter of the word and its escape has no first letter. -/
theorem escapeChar_cases (c : Char) : escapeChar c = [c] ∨
    c.toLower ∉ secretsWord ∧ ∃ rest, escapeChar c = '\\' :: rest ∧ 's' ∉ lowered rest := by
  unfold escapeChar
  split
  · next h => exact .inr ⟨h ▸ by decide, _, rfl, by decide⟩
  split
  · next h => exact .inr ⟨h ▸ by decide, _, rfl, by decide⟩
  split
  · next h => exact .inr ⟨h ▸ by decide, _, rfl, by decide⟩
  split
  · next h => exact .inr ⟨h ▸ by decide, _, rfl, by decide⟩
  split
  · next h => exact .inr ⟨h ▸ by decide, _, rfl, by decide⟩
  split
  · next h => exact .inr ⟨h ▸ by decide, _, rfl, by decide⟩
  split
  · next h => exact .inr ⟨h ▸ by decide, _, rfl, by decide⟩
  split
  · exact .inl rfl
  next hprintable =>
  refine .inr ⟨fun h => hprintable (printable_of_lower h), ?_⟩
  split
  · exact unicodeEscape_eq _
  · obtain ⟨rest, hrest, hclean⟩ := unicodeEscape_eq (55296 + (c.toNat - 65536) / 1024)
    obtain ⟨rest', hrest', hclean'⟩ := unicodeEscape_eq (56320 + (c.toNat - 65536) % 1024)
    refine ⟨rest ++ '\\' :: rest', by rw [hrest, hrest']; rfl, ?_⟩
    rw [lowered, List.map_append, List.map_cons, List.mem_append, List.mem_cons, not_or, not_or]
    exact ⟨hclean, by decide, hclean'⟩

theorem prefix_escaped_iff {cs w : List Char} (hw : ∀ x ∈ w, x ∈ secretsWord) :
    w <+: lowered (cs.flatMap escapeChar) ↔ w <+: lowered cs := by
  induction cs generalizing w with
  | nil => rfl
  | cons c cs ih =>
    cases w with
    | nil => simp
    | cons x w =>
      have hx := hw x List.mem_cons_self
      have htail := ih fun y hy => hw y (List.mem_cons_of_mem _ hy)
      rw [List.flatMap_cons]
      rcases escapeChar_cases c with hplain | ⟨hletter, rest, hescaped, -⟩
      · rw [hplain, List.singleton_append, lowered, List.map_cons, List.cons_prefix_cons, lowered,
          List.map_cons, List.cons_prefix_cons]
        exact and_congr_right fun _ => htail
      · rw [hescaped, lowered, List.cons_append, List.map_cons, List.cons_prefix_cons, lowered,
          List.map_cons, List.cons_prefix_cons]
        refine iff_of_false (fun h => ?_) fun h => hletter (h.1 ▸ hx)
        rw [h.1] at hx
        exact absurd hx (by decide)

/-- The word is in the escaped text if and only if it is in the text. -/
theorem infix_escaped_iff {cs : List Char} :
    secretsWord <:+: lowered (cs.flatMap escapeChar) ↔ secretsWord <:+: lowered cs := by
  induction cs with
  | nil => rfl
  | cons c cs ih =>
    rcases escapeChar_cases c with hplain | ⟨hletter, rest, hescaped, hclean⟩
    · have hstart : secretsWord <+: lowered ((c :: cs).flatMap escapeChar) ↔
          secretsWord <+: lowered (c :: cs) := prefix_escaped_iff fun _ hx => hx
      rw [List.flatMap_cons, hplain, List.singleton_append] at hstart ⊢
      rw [lowered, List.map_cons] at hstart ⊢
      rw [List.infix_cons_iff, hstart, lowered, List.map_cons, List.infix_cons_iff]
      exact or_congr_right ih
    · rw [List.flatMap_cons, hescaped, lowered, List.cons_append, List.map_cons, List.map_append,
        Delimited.infix_cons_iff_right (by decide), lowered, List.map_cons,
        Delimited.infix_cons_iff_right hletter]
      exact (Delimited.infix_append_iff_right (w := "ecrets".toList) hclean).trans ih

theorem infix_quoted_iff :
    secretsWord <:+: lowered (quoted text) ↔ secretsWord <:+: lowered text.toList := by
  rw [quoted, lowered, List.map_cons, List.map_append, Delimited.infix_cons_iff_right (by decide)]
  exact (secretsWord_append_nil (by decide)).trans infix_escaped_iff

theorem digit_not_s (h : c.isDigit = true) : c.toLower ≠ 's' := by
  intro hs
  have hbounds : 48 ≤ c.toNat ∧ c.toNat ≤ 57 := by
    simp only [Char.isDigit, Bool.and_eq_true, decide_eq_true_eq] at h
    exact h
  unfold Char.toLower at hs
  split at hs
  · next hupper =>
    have hlow : 65 ≤ c.toNat := hupper.1
    omega
  · rw [hs] at hbounds
    exact absurd hbounds (by decide)

theorem digits_not_s (n : Nat) : 's' ∉ lowered (Nat.repr n).toList := by
  intro h
  obtain ⟨d, hd, hs⟩ := List.mem_map.mp h
  rw [Nat.toList_repr] at hd
  exact digit_not_s (Nat.isDigit_of_mem_toDigits (by decide) (by decide) hd) hs

theorem int_not_s (i : Int) : 's' ∉ lowered (toString i).toList := by
  cases i with
  | ofNat n => exact digits_not_s n
  | negSucc n =>
    change 's' ∉ lowered ("-" ++ Nat.repr (n + 1)).toList
    rw [String.toList_append, lowered, List.map_append, List.mem_append, not_or]
    exact ⟨by decide, digits_not_s (n + 1)⟩

theorem not_infix_of_not_s {cs : List Char} (h : 's' ∉ cs) : ¬ secretsWord <:+: cs :=
  fun hword => h (hword.subset (by decide))

/-- A text has the word. -/
def Mentioned (text : String) : Prop := secretsWord <:+: lowered text.toList

/-- A text that stands in the document has the word. -/
def Json.Mentions (v : Json) : Prop := ∃ text, v.Holds text ∧ Mentioned text

theorem Json.mentions_str_iff : (Json.str text).Mentions ↔ Mentioned text := by
  simp only [Json.Mentions, Json.holds_str_iff, exists_eq_left]

theorem Json.mentions_arr_iff {xs : List Json} : (Json.arr xs).Mentions ↔ ∃ x ∈ xs, x.Mentions := by
  simp only [Json.Mentions, Json.holds_arr_iff]
  constructor
  · rintro ⟨text, ⟨x, hx, h⟩, hword⟩
    exact ⟨x, hx, text, h, hword⟩
  · rintro ⟨x, hx, text, h, hword⟩
    exact ⟨text, ⟨x, hx, h⟩, hword⟩

theorem Json.mentions_obj_iff {kvs : Dict} :
    (Json.obj kvs).Mentions ↔ ∃ p ∈ kvs, Mentioned p.1 ∨ p.2.Mentions := by
  simp only [Json.Mentions, Json.holds_obj_iff]
  constructor
  · rintro ⟨text, ⟨p, hp, rfl | h⟩, hword⟩
    · exact ⟨p, hp, .inl hword⟩
    · exact ⟨p, hp, .inr ⟨text, h, hword⟩⟩
  · rintro ⟨p, hp, hword | ⟨text, h, hword⟩⟩
    · exact ⟨p.1, ⟨p, hp, .inl rfl⟩, hword⟩
    · exact ⟨text, ⟨p, hp, .inr h⟩, hword⟩

theorem Json.not_mentions {v : Json} (h : ∀ text, ¬ v.Holds text) : ¬ v.Mentions :=
  fun ⟨text, hholds, _⟩ => h text hholds

theorem infix_entry_iff {k : String} {cs ds : List Char} :
    secretsWord <:+: lowered (quoted k ++ ':' :: ' ' :: (cs ++ ds)) ↔
      Mentioned k ∨ secretsWord <:+: lowered cs ++ lowered ds := by
  rw [lowered_append, lowered_cons, Delimited.infix_append_cons_iff (by decide), infix_quoted_iff,
    lowered_cons, Delimited.infix_cons_iff_right (by decide), lowered_append]
  rfl

mutual

/-- The word is in the text of a document if and only if it is in a text that stands in it. -/
theorem infix_dumps_iff (hfloat : ∀ q, 's' ∉ lowered (rt.strOf (.float q)).toList) : ∀ v : Json,
    secretsWord <:+: lowered (dumps rt v) ↔ v.Mentions
  | .null => iff_of_false (by rw [dumps]; decide) (Json.not_mentions fun _ h => nomatch h)
  | .bool b =>
    iff_of_false (by cases b <;> rw [dumps] <;> decide) (Json.not_mentions fun _ h => nomatch h)
  | .int i => by
    rw [dumps]
    exact iff_of_false (not_infix_of_not_s (int_not_s i)) (Json.not_mentions fun _ h => nomatch h)
  | .float q => by
    rw [dumps]
    exact iff_of_false (not_infix_of_not_s (hfloat q)) (Json.not_mentions fun _ h => nomatch h)
  | .str text => by
    rw [dumps, infix_quoted_iff, Json.mentions_str_iff]
    rfl
  | .arr [] => by
    rw [Json.mentions_arr_iff]
    exact iff_of_false (by rw [dumps]; decide) (by simp)
  | .arr (x :: xs) => by
    rw [dumps, lowered_cons, lowered_append, Delimited.infix_cons_iff_right (by decide),
      infix_items_iff hfloat xs, infix_dumps_iff hfloat x, Json.mentions_arr_iff,
      List.exists_mem_cons_iff]
  | .obj [] => by
    rw [Json.mentions_obj_iff]
    exact iff_of_false (by rw [dumps]; decide) (by simp)
  | .obj ((k, v) :: kvs) => by
    rw [dumps, lowered_cons, Delimited.infix_cons_iff_right (by decide), infix_entry_iff,
      infix_entries_iff hfloat kvs, infix_dumps_iff hfloat v, Json.mentions_obj_iff,
      List.exists_mem_cons_iff, or_assoc]

theorem infix_items_iff (hfloat : ∀ q, 's' ∉ lowered (rt.strOf (.float q)).toList) :
    ∀ (xs : List Json) (cs : List Char), secretsWord <:+: cs ++ lowered (dumpsItems rt xs) ↔
      secretsWord <:+: cs ∨ ∃ x ∈ xs, x.Mentions
  | [], cs => by
    rw [dumpsItems]
    change secretsWord <:+: cs ++ [']'] ↔ _
    rw [secretsWord_append_nil (by decide)]
    simp
  | x :: xs, cs => by
    rw [dumpsItems, lowered_cons, Delimited.infix_append_cons_iff (by decide), lowered_cons,
      Delimited.infix_cons_iff_right (by decide), lowered_append, infix_items_iff hfloat xs,
      infix_dumps_iff hfloat x, List.exists_mem_cons_iff]

theorem infix_entries_iff (hfloat : ∀ q, 's' ∉ lowered (rt.strOf (.float q)).toList) :
    ∀ (kvs : List (String × Json)) (cs : List Char),
      secretsWord <:+: cs ++ lowered (dumpsEntries rt kvs) ↔
        secretsWord <:+: cs ∨ ∃ p ∈ kvs, Mentioned p.1 ∨ p.2.Mentions
  | [], cs => by
    rw [dumpsEntries]
    change secretsWord <:+: cs ++ ['\x7d'] ↔ _
    rw [secretsWord_append_nil (by decide)]
    simp
  | (k, v) :: kvs, cs => by
    rw [dumpsEntries, lowered_cons, Delimited.infix_append_cons_iff (by decide), lowered_cons,
      Delimited.infix_cons_iff_right (by decide), infix_entry_iff, infix_entries_iff hfloat kvs,
      infix_dumps_iff hfloat v, List.exists_mem_cons_iff, or_assoc]

end

theorem Json.isInfix_iff {w cs : List Char} : Json.isInfix w cs = true ↔ w <:+: cs := by
  induction cs with
  | nil => rw [Json.isInfix, List.isEmpty_iff, List.infix_nil]
  | cons c cs ih =>
    rw [Json.isInfix, Bool.or_eq_true, List.isPrefixOf_iff_prefix, ih, List.infix_cons_iff]

/-- Where the texts of floats lack the letter, the gate searches the text of the document. -/
theorem mentionsSecrets_iff (hfloat : ∀ q, 's' ∉ lowered (rt.strOf (.float q)).toList) :
    mentionsSecrets document = true ↔
      Json.isInfix "secrets".toList (lowered (dumps rt document)) = true := by
  have hgate : mentionsSecrets document = true ↔ document.Mentions := by
    unfold mentionsSecrets Json.Mentions Mentioned
    rw [List.any_eq_true]
    constructor
    · rintro ⟨v, hv, hword⟩
      split at hword
      · exact ⟨_, (mem_walkValues_iff document).mp hv, Json.isInfix_iff.mp hword⟩
      · cases hword
    · rintro ⟨text, hholds, hword⟩
      exact ⟨.str text, (mem_walkValues_iff document).mpr hholds, Json.isInfix_iff.mpr hword⟩
  rw [hgate, Json.isInfix_iff]
  exact (infix_dumps_iff hfloat document).symm

/-- A configuration whose text has the word secrets, in capitals or not, holds no marked secret. -/
theorem created_unmarked {config : ConfigurationVersion}
    (hfloat : ∀ q, 's' ∉ lowered (self.rt.strOf (.float q)).toList)
    (h : self.createConfig s document = .ok (s', config))
    (hword : Json.isInfix "secrets".toList (lowered (dumps self.rt document)) = true) :
    ∀ text, config.document.Holds text → isSecret (.str text) = false := by
  rw [← mentionsSecrets_iff hfloat] at hword
  unfold MasteringService.createConfig at h
  split at h
  · cases h
  · next hclean =>
    simp only [Except.bind_eq_ok, Except.pure_eq_ok, Prod.mk.injEq] at h
    obtain ⟨policies, -, -, rfl⟩ := h
    rw [hword, Bool.true_and, List.any_eq_true] at hclean
    intro text hholds
    cases hmarked : isSecret (.str text) with
    | false => rfl
    | true => exact (hclean ⟨_, (mem_walkValues_iff document).mpr hholds, hmarked⟩).elim

namespace Supplier

theorem plain_float_text (q : ℚ) : 's' ∉ lowered (Runtime.plain.strOf (.float q)).toList := by
  change 's' ∉ lowered (toString q.num ++ "/" ++ toString q.den).toList
  rw [String.toList_append, String.toList_append, lowered_append, lowered_append, List.mem_append,
    List.mem_append, not_or, not_or]
  exact ⟨⟨int_not_s q.num, by decide⟩, digits_not_s q.den⟩

/-- The configuration of the domain with one more entry. -/
def withEntry (key value : String) : Json :=
  .obj [("domains", .obj [("supplier", .obj definition)]), (key, .str value)]

/-- A configuration that names its secrets is searched. -/
theorem created_unmarked_named : ∃ s' config,
    master.createConfig (after []) (withEntry "secrets" "vault") = .ok (s', config) ∧
      ∀ text, config.document.Holds text → isSecret (.str text) = false := by
  have hall : (master.createConfig (after []) (withEntry "secrets" "vault")).isOk = true ∧
      Json.isInfix "secrets".toList (lowered (dumps .plain (withEntry "secrets" "vault"))) = true := by
    decide +kernel
  cases h : master.createConfig (after []) (withEntry "secrets" "vault") with
  | error e =>
    rw [h] at hall
    cases hall.1
  | ok created =>
    obtain ⟨t, config⟩ := created
    have hfloat : ∀ q, 's' ∉ lowered (master.rt.strOf (.float q)).toList := plain_float_text
    exact ⟨t, config, rfl, created_unmarked hfloat h hall.2⟩

/-- A configuration that does not name them is not. -/
theorem marked_secret_created : ¬ ∀ (svc : MasteringService) (s s' : Store) (document : Json)
    (config : ConfigurationVersion), Reachable svc.rt svc.workspace s →
      svc.createConfig s document = .ok (s', config) →
        ∀ text, document.Holds text → isSecret (.str text) = false := by
  intro hall
  have hcreated : (master.createConfig (after []) (withEntry "api_key" "sk-live")).isOk = true := by
    decide +kernel
  cases h : master.createConfig (after []) (withEntry "api_key" "sk-live") with
  | error e =>
    rw [h] at hcreated
    cases hcreated
  | ok created =>
    have hclean := hall _ _ _ _ _ ⟨setup, rfl⟩ h "sk-live"
      (.value (List.mem_cons_of_mem _ (List.mem_singleton_self _)) .text)
    exact absurd hclean (by decide +kernel)

end Supplier

end Recordlane
