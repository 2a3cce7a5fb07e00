import Recordlane.Connectors.Cursors
import Recordlane.Library.Run
import Mathlib.Logic.Relation

/-! The addresses that a connector requests, whatever links the server returns. -/
namespace Recordlane

variable {self : HttpConnector} {net : Network} {path url : String} {time left : Nat} {seen : List String}
  {cursor : Cursor} {server : Nat → String → Cursor → Py PagePayload}
  {oserver : Nat → String → Py ODataPayload}

namespace HttpConnector

/-- What the constructor enforces on the base URL: an allowed host, no credentials, and encryption unless
the host is local or private networks are allowed. -/
def Enforced (self : HttpConnector) (net : Network) (url : String) : Prop :=
  ∃ parsed, net.urlparse url = .ok parsed ∧ parsed.allowed self.allowedHosts = true ∧
    (parsed.encrypted || self.allowPrivateNetworks) = true

/-- The rule that the check of a followed address leaves out. -/
def Encrypted (net : Network) (url : String) : Prop :=
  ∀ parsed, net.urlparse url = .ok parsed → parsed.encrypted = true

theorem create_enforces {baseUrl : String} {allowedHosts : List String} {maxPages : Int}
    {allowPrivateNetworks : Bool}
    (h : create net time baseUrl allowedHosts maxPages allowPrivateNetworks = .ok self) :
    self = ⟨baseUrl, allowedHosts, maxPages, allowPrivateNetworks⟩ ∧ self.Enforced net baseUrl := by
  unfold create at h
  rw [Except.bind_eq_ok] at h
  obtain ⟨parsed, hparsed, h⟩ := h
  split at h
  · cases h
  · next hallowed =>
    rw [Bool.not_eq_true', Bool.not_eq_false] at hallowed
    split at h
    · cases h
    · next hencrypted =>
      simp only [Except.bind_eq_ok, Except.pure_eq_ok] at h
      obtain ⟨port, -, -, -, rfl⟩ := h
      refine ⟨rfl, parsed, hparsed, hallowed, ?_⟩
      cases hparsed' : parsed.encrypted <;> cases allowPrivateNetworks <;> simp_all

theorem validateUrl_allowed (h : self.validateUrl net time url = .ok ()) :
    ∃ parsed, net.urlparse url = .ok parsed ∧ parsed.allowed self.allowedHosts = true := by
  unfold validateUrl at h
  rw [Except.bind_eq_ok] at h
  obtain ⟨parsed, hparsed, h⟩ := h
  split at h
  · cases h
  · next hallowed =>
    rw [Bool.not_eq_true', Bool.not_eq_false] at hallowed
    exact ⟨parsed, hparsed, hallowed⟩

/-- An address that passes the check meets the rules of the constructor, if and only if it is encrypted
or local. -/
theorem enforced_iff (hpublic : self.allowPrivateNetworks = false)
    (h : self.validateUrl net time url = .ok ()) : self.Enforced net url ↔ Encrypted net url := by
  obtain ⟨parsed, hparsed, hallowed⟩ := validateUrl_allowed h
  constructor
  · rintro ⟨parsed', hparsed', -, hencrypted⟩ parsed'' hparsed''
    rw [hparsed'] at hparsed''
    cases hparsed''
    rwa [hpublic, Bool.or_false] at hencrypted
  · intro hencrypted
    exact ⟨parsed, hparsed, hallowed, by rw [hencrypted parsed hparsed, Bool.true_or]⟩

/-- `read` requests the address of its path, once that has passed the check. -/
theorem read_requests {request : String × Cursor}
    (h : request ∈ (self.readFrom net path server left time seen cursor).requests) :
    self.joined net path = .ok request.1 ∧ left ≠ 0 ∧ self.validateUrl net time request.1 = .ok () := by
  induction left generalizing time seen cursor with
  | zero => cases h
  | succ left ih =>
    rw [readFrom] at h
    split at h
    · cases h
    · next url hjoined =>
      split at h
      · cases h
      · next hvalid =>
        have hown : ∀ request : String × Cursor, request.1 = url → self.joined net path = .ok request.1 ∧
            left + 1 ≠ 0 ∧ self.validateUrl net time request.1 = .ok () := by
          rintro request rfl
          exact ⟨hjoined, Nat.succ_ne_zero left, hvalid⟩
        apply hown
        split at h
        · cases h
        · split at h
          · rw [List.mem_singleton.mp h]
          · split at h
            · rw [List.mem_singleton.mp h]
            · rcases List.mem_cons.mp h with rfl | hrest
              · rfl
              · have hsame := (ih hrest).1
                rw [hjoined] at hsame
                exact (Except.ok.inj hsame).symm

/-- Where the loop of `read_odata` stands: the number of the iteration, the links seen and the next
one. -/
abbrev Stand := Nat × List String × String

/-- The address is new and passes the check. -/
def Passes (self : HttpConnector) (net : Network) (a : Stand) : Prop :=
  a.2.2 ∉ a.2.1 ∧ self.validateUrl net a.1 a.2.2 = .ok ()

/-- An address that passes is requested, and the response names the next one. -/
def Follows (self : HttpConnector) (net : Network) (oserver : Nat → String → Py ODataPayload)
    (a b : Stand) : Prop :=
  self.Passes net a ∧ ∃ payload link, oserver a.1 a.2.2 = .ok payload ∧ payload.nextLink = .str link ∧
    link ≠ "" ∧ b = (a.1 + 1, a.2.2 :: a.2.1, link)

/-- Links lead from here to an address within the limit, and it passes. -/
def Reaches (self : HttpConnector) (net : Network) (oserver : Nat → String → Py ODataPayload)
    (left : Nat) (a : Stand) (url : String) : Prop :=
  ∃ m seen', Relation.ReflTransGen (self.Follows net oserver) a (m, seen', url) ∧ m < a.1 + left ∧
    self.Passes net (m, seen', url)

theorem le_of_follows {a b : Stand} (h : Relation.ReflTransGen (self.Follows net oserver) a b) :
    a.1 ≤ b.1 := by
  induction h with
  | refl => exact le_rfl
  | tail _ hstep ih =>
    obtain ⟨-, _, _, -, -, -, rfl⟩ := hstep
    exact ih.trans (Nat.le_succ _)

theorem not_reaches_zero {a : Stand} : ¬ self.Reaches net oserver 0 a url := by
  rintro ⟨m, seen', hlead, hm, -⟩
  have hle : a.1 ≤ m := le_of_follows hlead
  omega

theorem reaches_succ_iff {a : Stand} : self.Reaches net oserver (left + 1) a url ↔
    self.Passes net a ∧ (url = a.2.2 ∨ ∃ b, self.Follows net oserver a b ∧
      self.Reaches net oserver left b url) := by
  constructor
  · rintro ⟨m, seen', hlead, hm, hpasses⟩
    rcases Relation.ReflTransGen.cases_head hlead with rfl | ⟨b, hstep, hrest⟩
    · exact ⟨hpasses, .inl rfl⟩
    · refine ⟨hstep.1, .inr ⟨b, hstep, m, seen', hrest, ?_, hpasses⟩⟩
      obtain ⟨-, _, _, -, -, -, rfl⟩ := hstep
      change m < a.1 + 1 + left
      omega
  · rintro ⟨hpasses, rfl | ⟨b, hstep, m, seen', hrest, hm, hpasses'⟩⟩
    · exact ⟨a.1, a.2.1, .refl, by omega, hpasses⟩
    · refine ⟨m, seen', .head hstep hrest, ?_, hpasses'⟩
      obtain ⟨-, _, _, -, -, -, rfl⟩ := hstep
      change m < a.1 + 1 + left at hm
      omega

/-- `read_odata` requests an address, if and only if links lead to it within the limit and it passes. -/
theorem odata_requests_iff {start : String} :
    url ∈ (self.readODataFrom net oserver left time seen start).requests ↔
      self.Reaches net oserver left (time, seen, start) url := by
  induction left generalizing time seen start with
  | zero => exact iff_of_false List.not_mem_nil not_reaches_zero
  | succ left ih =>
    rw [reaches_succ_iff, readODataFrom]
    split
    · next hseen => exact iff_of_false List.not_mem_nil fun h => h.1.1 hseen
    · next hseen =>
      split
      · next hvalid =>
        refine iff_of_false List.not_mem_nil fun h => ?_
        have hvalid' := h.1.2
        rw [hvalid] at hvalid'
        cases hvalid'
      · next hvalid =>
        have hpasses : self.Passes net (time, seen, start) := ⟨hseen, hvalid⟩
        -- without a next link, only the address itself is requested
        have hlast : (∀ b, ¬ self.Follows net oserver (time, seen, start) b) →
            (url ∈ [start] ↔ self.Passes net (time, seen, start) ∧
              (url = start ∨ ∃ b, self.Follows net oserver (time, seen, start) b ∧
                self.Reaches net oserver left b url)) := by
          intro hnone
          rw [List.mem_singleton]
          exact ⟨fun h => ⟨hpasses, .inl h⟩, fun h => h.2.resolve_right fun ⟨b, hb, _⟩ => hnone b hb⟩
        split
        · next hserver =>
          apply hlast
          rintro b ⟨-, payload, link, hpayload, -⟩
          rw [hserver] at hpayload
          cases hpayload
        · next payload hserver =>
          split
          · next hfalsy =>
            apply hlast
            rintro b ⟨-, payload', link, hpayload, hlink, hne, -⟩
            rw [hserver] at hpayload
            cases hpayload
            rw [hlink] at hfalsy
            simp [Json.truthy, hne] at hfalsy
          · next htruthy =>
            split
            · next link hlink =>
              rw [hlink] at htruthy
              have hne : link ≠ "" := by simpa [Json.truthy] using htruthy
              have hfollows : ∀ b, self.Follows net oserver (time, seen, start) b ↔
                  b = (time + 1, start :: seen, link) := by
                intro b
                constructor
                · rintro ⟨-, payload', link', hpayload, hlink', -, hb⟩
                  rw [hserver] at hpayload
                  cases hpayload
                  rw [hlink] at hlink'
                  cases hlink'
                  exact hb
                · rintro rfl
                  exact ⟨hpasses, payload, link, hserver, hlink, hne, rfl⟩
              simp only [Yielded.after, List.mem_cons, ih, hpasses, hfollows, exists_eq_left, true_and]
            · next hother =>
              apply hlast
              rintro b ⟨-, payload', link, hpayload, hlink, -⟩
              rw [hserver] at hpayload
              cases hpayload
              exact hother link hlink

end HttpConnector

/-- Every address that a connector requests meets the rules of its constructor. -/
def RequestsEnforced (self : HttpConnector) (net : Network) (path : String) (cursor : Cursor)
    (server : Nat → String → Cursor → Py PagePayload) (oserver : Nat → String → Py ODataPayload) : Prop :=
  (∀ request ∈ (self.read net path cursor server).requests, self.Enforced net request.1) ∧
    ∀ url ∈ (self.readOData net path oserver).requests, self.Enforced net url

/-- Every address that the path or a followed link leads to and that passes the check is encrypted or
local. -/
def OffersEncrypted (self : HttpConnector) (net : Network) (path : String)
    (oserver : Nat → String → Py ODataPayload) : Prop :=
  ∀ start, self.joined net path = .ok start → ∀ url,
    self.Reaches net oserver self.maxPages.toNat (0, [], start) url → HttpConnector.Encrypted net url

/-- The addresses a public connector requests meet the rules of its constructor, if and only if every
address that it is led to and that passes the check is encrypted or local. -/
theorem requests_enforced_iff {baseUrl : String} {allowedHosts : List String} {maxPages : Int}
    (h : HttpConnector.create net time baseUrl allowedHosts maxPages false = .ok self)
    (path : String) (cursor : Cursor) (server : Nat → String → Cursor → Py PagePayload)
    (oserver : Nat → String → Py ODataPayload) :
    RequestsEnforced self net path cursor server oserver ↔ OffersEncrypted self net path oserver := by
  have hpublic : self.allowPrivateNetworks = false := by
    obtain ⟨rfl, -⟩ := HttpConnector.create_enforces h
    rfl
  constructor
  · rintro ⟨-, hall⟩ start hjoined url hreaches
    obtain ⟨m, seen', hlead, hm, hpasses⟩ := hreaches
    refine (HttpConnector.enforced_iff hpublic hpasses.2).mp (hall url ?_)
    rw [HttpConnector.readOData, hjoined]
    exact HttpConnector.odata_requests_iff.mpr ⟨m, seen', hlead, hm, hpasses⟩
  · intro hoffers
    refine ⟨fun request hrequest => ?_, fun url hurl => ?_⟩
    · obtain ⟨hjoined, hleft, hvalid⟩ := HttpConnector.read_requests hrequest
      refine (HttpConnector.enforced_iff hpublic hvalid).mpr (hoffers _ hjoined _ ?_)
      exact ⟨0, [], .refl, by omega, List.not_mem_nil, hvalid⟩
    · rw [HttpConnector.readOData] at hurl
      split at hurl
      · cases hurl
      · next start hjoined =>
        have hreaches := HttpConnector.odata_requests_iff.mp hurl
        obtain ⟨m, seen', hlead, hm, hpasses⟩ := hreaches
        exact (HttpConnector.enforced_iff hpublic hpasses.2).mpr
          (hoffers start hjoined url ⟨m, seen', hlead, hm, hpasses⟩)

namespace Supplier

theorem connector_created :
    HttpConnector.create web 0 "https://api.test" ["api.test"] 10 false = .ok connector := by rfl

/-- A server whose first page names another one. -/
def linkTo (link : String) (time : Nat) (_url : String) : Py ODataPayload :=
  .ok ⟨[], if time = 0 then .str link else .null⟩

/-- A link that stays on the encrypted side is followed. -/
theorem requests_enforced_https : RequestsEnforced connector web "items" .absent
    (fun _ _ cursor => .ok (twoItemPages "b" cursor)) (linkTo "https://api.test/more") := by
  refine (requests_enforced_iff connector_created _ _ _ _).mpr ?_
  have hsecure : ∀ url ∈ ["https://api.test/items", "https://api.test/more"],
      ∀ parsed, web.urlparse url = .ok parsed → parsed.encrypted = true := by
    intro url hurl parsed hparsed
    cases hparsed
    rw [List.mem_cons, List.mem_singleton] at hurl
    rcases hurl with rfl | rfl <;> decide +kernel
  intro start hjoined url hreaches
  rw [connector_joined] at hjoined
  cases hjoined
  obtain ⟨m, seen', hlead, -, -⟩ := hreaches
  apply hsecure
  rcases Relation.ReflTransGen.cases_head hlead with heq
      | ⟨b, ⟨-, payload, link, hserver, hlink, -, rfl⟩, hrest⟩
  · cases heq
    exact List.mem_cons_self
  · cases hserver
    cases hlink
    rcases Relation.ReflTransGen.cases_head hrest with heq | ⟨b, ⟨-, payload, link, hserver, hlink, -⟩, -⟩
    · cases heq
      exact List.mem_cons_of_mem _ (List.mem_singleton_self _)
    · cases hserver
      cases hlink

/-- A link without encryption to an allowed host is followed as well. -/
theorem http_link_followed : ¬ ∀ (net : Network) (time : Nat) (baseUrl : String)
    (allowedHosts : List String) (maxPages : Int) (self : HttpConnector) (path : String) (cursor : Cursor)
    (server : Nat → String → Cursor → Py PagePayload) (oserver : Nat → String → Py ODataPayload),
      HttpConnector.create net time baseUrl allowedHosts maxPages false = .ok self →
        RequestsEnforced self net path cursor server oserver := by
  intro hall
  have henforced := (hall web 0 _ _ _ connector "items" .absent
    (fun _ _ cursor => .ok (twoItemPages "b" cursor)) (linkTo "http://api.test/more")
    connector_created).2 "http://api.test/more"
  have hrequested : "http://api.test/more" ∈
      (connector.readOData web "items" (linkTo "http://api.test/more")).requests := by
    decide +kernel
  obtain ⟨parsed, hparsed, -, hencrypted⟩ := henforced hrequested
  cases hparsed
  exact absurd hencrypted (by decide +kernel)

end Supplier

end Recordlane
