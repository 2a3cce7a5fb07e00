import Recordlane.Connectors.Http
import Recordlane.Library.Walk

/-! Paginated reads follow the chain of cursors. -/
namespace Recordlane

variable {self : HttpConnector} {net : Network} {path url : String} {start : Cursor}
  {pages : Cursor → PagePayload} {n time left : Nat} {seen : List String}

/-- The cursor after another one, where its page has one. -/
def nextCursor (pages : Cursor → PagePayload) (cursor : Cursor) : Option Cursor :=
  if (pages cursor).nextCursor = .absent then none else some (pages cursor).nextCursor

/-- The chain of cursors of a server. -/
def cursorAt (pages : Cursor → PagePayload) (start : Cursor) (n : Nat) : Option Cursor :=
  Walk.place (nextCursor pages) start n

/-- Up to here no cursor has come twice. -/
def NoRepeat (pages : Cursor → PagePayload) (start : Cursor) (n : Nat) : Prop :=
  ∀ j ≤ n, ∀ i < j, cursorAt pages start i ≠ cursorAt pages start j

/-- Cursors that are requested before one of them comes twice have different texts. -/
def TextsTell (pages : Cursor → PagePayload) (start : Cursor) (limit : Nat) : Prop :=
  ∀ n < limit, (cursorAt pages start n).isSome → NoRepeat pages start n →
    ∀ i < n, ∀ a ∈ cursorAt pages start i, ∀ b ∈ cursorAt pages start n, a.str ≠ b.str

/-- A reading of a server: at most so many requests, for the chain of cursors in order as long as none
comes twice; it ends at a page without a next cursor, and detects a loop where a cursor comes twice. -/
structure FollowsChain (pages : Cursor → PagePayload) (start : Cursor) (limit : Nat)
    (r : Yielded (String × Cursor) HttpPage) : Prop where
  bounded : r.requests.length ≤ limit
  pages_eq : r.pages = r.requests.map fun request => (pages request.2).page
  in_order : ∀ n < r.requests.length, (r.requests.map Prod.snd)[n]? = cursorAt pages start n
  exactly : ∀ n, n < r.requests.length ↔
    n < limit ∧ (cursorAt pages start n).isSome ∧ NoRepeat pages start n
  ends : r.raised = none ↔
    ∃ n < limit, (cursorAt pages start n).isSome ∧ cursorAt pages start (n + 1) = none
  loops : r.raised = some (.runtime "pagination loop detected") ↔
    ∃ n < limit, (cursorAt pages start n).isSome ∧ ∃ i < n, cursorAt pages start i = cursorAt pages start n

/-- What a reading raises when its walk stops. -/
def raisedBy : Walk.Ending → Option Raised
  | .ended => none
  | .repeated => some (.runtime "pagination loop detected")
  | .exhausted => some (.runtime "maximum page count exceeded")

/-- The loop walks along the chain with the texts of the cursors as its marks. -/
theorem readFrom_eq_walk (hjoined : self.joined net path = .ok url)
    (hvalid : ∀ time, self.validateUrl net time url = .ok ()) :
    self.readFrom net path (fun _ _ cursor => .ok (pages cursor)) left time seen start =
      let visited := Walk.walk (nextCursor pages) Cursor.str left seen start
      ⟨visited.1.map fun cursor => (url, cursor), visited.1.map fun cursor => (pages cursor).page,
        raisedBy visited.2⟩ := by
  induction left generalizing time seen start with
  | zero => rfl
  | succ left ih =>
    simp only [HttpConnector.readFrom, hjoined, hvalid, Walk.walk]
    split
    · rfl
    · unfold nextCursor
      split
      · rfl
      · rw [ih]
        rfl

theorem noRepeat_iff (hn : (cursorAt pages start n).isSome) : NoRepeat pages start n ↔
    Walk.Fresh (nextCursor pages) id [] start n := by
  rw [← not_iff_not, Walk.not_fresh_iff hn]
  constructor
  · intro h
    by_contra hnone
    exact h fun j hj i hi hsame => hnone ⟨j, hj, i, hi, hsame⟩
  · rintro ⟨j, hj, i, hi, hsame⟩ h
    exact h j hj i hi hsame

/-- The texts tell the cursors apart, if and only if the marks of the walk do. -/
theorem textsTell_iff {limit : Nat} : TextsTell pages start limit ↔
    ∀ n < limit, (cursorAt pages start n).isSome → Walk.Fresh (nextCursor pages) id [] start n →
      Walk.Fresh (nextCursor pages) Cursor.str [] start n := by
  constructor
  · intro h n hn hplace hfresh j hj b hb
    have hj' : (cursorAt pages start j).isSome := Walk.place_isSome_of_le hj hplace
    exact ⟨List.not_mem_nil, fun i hi a ha => h j (by omega) hj' ((noRepeat_iff hj').mpr (hfresh.mono hj))
      i hi a ha b hb⟩
  · intro h n hn hplace hrepeat i hi a ha b hb
    exact (h n hn hplace ((noRepeat_iff hplace).mp hrepeat) n le_rfl b hb).2 i hi a ha

theorem read_eq_walk (hjoined : self.joined net path = .ok url)
    (hvalid : ∀ time, self.validateUrl net time url = .ok ()) :
    self.read net path start (fun _ _ cursor => .ok (pages cursor)) =
      let visited := Walk.walk (nextCursor pages) Cursor.str self.maxPages.toNat [] start
      ⟨visited.1.map fun cursor => (url, cursor), visited.1.map fun cursor => (pages cursor).page,
        raisedBy visited.2⟩ := readFrom_eq_walk hjoined hvalid

/-- A reading follows the chain of cursors of its server exactly, if and only if the texts tell the
cursors apart that it requests before one comes twice. -/
theorem read_follows_chain_iff (hjoined : self.joined net path = .ok url)
    (hvalid : ∀ time, self.validateUrl net time url = .ok ()) :
    FollowsChain pages start self.maxPages.toNat
        (self.read net path start fun _ _ cursor => .ok (pages cursor)) ↔
      TextsTell pages start self.maxPages.toNat := by
  rw [read_eq_walk hjoined hvalid, textsTell_iff]
  generalize self.maxPages.toNat = limit
  constructor
  · intro h n hn hplace hfresh
    have hvisited := (h.exactly n).mpr ⟨hn, hplace, (noRepeat_iff hplace).mpr hfresh⟩
    rw [List.length_map] at hvisited
    exact (Walk.lt_length_iff.mp hvisited).2.2
  · intro htell
    -- within the limit the marks are fresh as long as the cursors are
    have hfresh : ∀ n < limit, (cursorAt pages start n).isSome →
        (Walk.Fresh (nextCursor pages) Cursor.str [] start n ↔
          Walk.Fresh (nextCursor pages) id [] start n) :=
      fun n hn hplace => ⟨Walk.Fresh.values, htell n hn hplace⟩
    refine ⟨?_, ?_, ?_, ?_, ?_, ?_⟩
    · rw [List.length_map]
      exact Walk.length_le
    · rw [List.map_map]
      rfl
    · intro n hn
      rw [List.length_map] at hn
      rw [List.map_map, List.getElem?_map, Walk.walk_getElem? hn]
      change (Walk.place (nextCursor pages) start n).map id = _
      rw [Option.map_id]
      rfl
    · intro n
      rw [List.length_map, Walk.lt_length_iff]
      refine and_congr_right fun hn => and_congr_right fun hplace => ?_
      rw [noRepeat_iff hplace]
      exact hfresh n hn hplace
    · have hended : raisedBy (Walk.walk (nextCursor pages) Cursor.str limit [] start).2 = none ↔
          (Walk.walk (nextCursor pages) Cursor.str limit [] start).2 = .ended := by
        cases (Walk.walk (nextCursor pages) Cursor.str limit [] start).2 <;> simp [raisedBy]
      refine hended.trans (Walk.ended_iff.trans ?_)
      refine exists_congr fun n => and_congr_right fun hn => and_congr_right fun hplace => ?_
      refine and_iff_left_of_imp fun hend => (hfresh n hn hplace).mpr (Walk.fresh_of_end hplace hend)
    · have hrepeated : raisedBy (Walk.walk (nextCursor pages) Cursor.str limit [] start).2 =
          some (.runtime "pagination loop detected") ↔
            (Walk.walk (nextCursor pages) Cursor.str limit [] start).2 = .repeated := by
        cases (Walk.walk (nextCursor pages) Cursor.str limit [] start).2 <;> simp [raisedBy]
      refine hrepeated.trans (Walk.repeated_iff.trans ?_)
      constructor
      · rintro ⟨n, hn, hplace, hnot⟩
        rw [hfresh n hn hplace, Walk.not_fresh_iff hplace] at hnot
        obtain ⟨j, hj, i, hi, hsame⟩ := hnot
        exact ⟨j, by omega, Walk.place_isSome_of_le hj hplace, i, hi, hsame⟩
      · rintro ⟨n, hn, hplace, i, hi, hsame⟩
        refine ⟨n, hn, hplace, ?_⟩
        rw [hfresh n hn hplace, Walk.not_fresh_iff hplace]
        exact ⟨n, le_rfl, i, hi, hsame⟩

namespace Supplier

/-- Addresses of the form `scheme://host/rest` of public hosts, and paths that are appended or are
addresses themselves. -/
def web : Network where
  urlparse url :=
    let scheme := url.toList.takeWhile (· ≠ ':')
    let host := (url.toList.drop (scheme.length + 3)).takeWhile (· ≠ '/')
    .ok ⟨String.ofList scheme, some (String.ofList host), .ok none, none, none⟩
  urljoin base path := .ok (if "http".toList.isPrefixOf path.toList then path else base ++ path)
  getaddrinfo _ _ _ := .ok [⟨"93.184.216.34", false, false, false, false, false⟩]

def connector : HttpConnector := ⟨"https://api.test", ["api.test"], 10, false⟩

/-- A server of two pages, of which the first one names the second one. -/
def twoItemPages (second : String) (cursor : Cursor) : PagePayload :=
  ⟨[], if cursor = .absent then .text second else .absent, none⟩

theorem connector_joined : connector.joined web "items" = .ok "https://api.test/items" := by
  have htext : HttpConnector.dropLastSlashes connector.baseUrl ++ "/" ++ HttpConnector.dropSlashes "items" =
      "https://api.test/items" := by
    decide +kernel
  exact congrArg Except.ok htext

theorem connector_valid (time : Nat) : connector.validateUrl web time "https://api.test/items" = .ok () := by
  have hvalid : connector.validateUrl web 0 "https://api.test/items" = .ok () := by rfl
  exact hvalid

theorem read_follows_chain_two : FollowsChain (twoItemPages "b") .absent 10
    (connector.read web "items" .absent fun _ _ cursor => .ok (twoItemPages "b" cursor)) := by
  refine (read_follows_chain_iff connector_joined connector_valid).mpr ?_
  have hnext : nextCursor (twoItemPages "b") .absent = some (.text "b") := by decide
  intro n _ hplace _ i hi a ha b hb
  match n, i with
  | 0, i => exact absurd hi (Nat.not_lt_zero i)
  | 1, 0 =>
    cases ha
    cases hb
    decide
  | n + 2, i =>
    have hnone : cursorAt (twoItemPages "b") .absent (n + 2) = none :=
      (Walk.place_succ hnext).trans (Walk.place_none (by decide))
    rw [hnone] at hplace
    cases hplace

/-- A cursor whose text is that of no cursor ends the reading as a loop. -/
theorem none_text_loops : ¬ ∀ (self : HttpConnector) (net : Network) (path url : String) (start : Cursor)
    (pages : Cursor → PagePayload), self.joined net path = .ok url →
      (∀ time, self.validateUrl net time url = .ok ()) →
        FollowsChain pages start self.maxPages.toNat
          (self.read net path start fun _ _ cursor => .ok (pages cursor)) := by
  intro hall
  have hchain := hall connector web "items" _ .absent (twoItemPages "None") connector_joined connector_valid
  rw [read_eq_walk connector_joined connector_valid] at hchain
  have hends := hchain.ends.mpr ⟨1, by decide, by decide +kernel, by decide +kernel⟩
  have hloops : (Walk.walk (nextCursor (twoItemPages "None")) Cursor.str connector.maxPages.toNat []
      .absent).2 = .repeated := by
    decide +kernel
  simp only [hloops, raisedBy] at hends
  cases hends

end Supplier

end Recordlane
