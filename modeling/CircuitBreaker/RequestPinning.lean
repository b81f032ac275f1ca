import CircuitBreaker.OutboundUrl
import CircuitBreaker.ScopeTexts

/-! Where pinned requests go (core/url_validation.py): to a validated address of the very hop, if that
address is written so that it stays one inside a URL. -/

namespace CircuitBreaker.OutboundUrl

open IpText List
open UrlText hiding Text

structure Endpoint where
  address : Text
  port : Text
  path : Text
  query : Text
  deriving DecidableEq

def Plain (address : Text) : Prop := '?' ∉ address ∧ '#' ∉ address ∧ '@' ∉ address

instance (address : Text) : Decidable (Plain address) :=
  inferInstanceAs (Decidable (_ ∧ _ ∧ _))

/-- The client dials the literal address that a URL has for its host, if it dials at all. -/
def Dials (dial : Text → Option Endpoint) : Prop :=
  ∀ (p : ParseResult) (address : Text) (port : Nat), p.Proper → (ipAddress address).isSome = true →
    Plain address → p.netloc = bracketed address++ ':'::digits port →
    ∀ e, dial (urlunparse p) = some e →
      e = ⟨address,digits port,p.path++led ';' p.params,p.query⟩

/-- What a policy allows of an address, or of the IPv4 address that it stands for. -/
structure Allowed (policy : OutboundPolicy) (ip : Address) : Prop where
  unspecified : ip.meant.isUnspecified = false
  multicast : ip.meant.isMulticast = false
  linkLocal : ip.meant.isLinkLocal = false
  loopback : ip.meant.isLoopback = true → policy.allowLocal = true
  priv : ip.meant.isLoopback = false → ip.meant.isPrivate = true →
    policy.allowPrivate = true ∧ lanPrivateNetworks.any ip.meant.within = true

structure HopPinned (py : Python) (dial : Text → Option Endpoint) (policy : OutboundPolicy)
    (hop : Hop) : Prop where
  connects : ∀ e, dial hop.sent.url = some e → e.address ∈ hop.validated.addresses ∧
    e.port = digits hop.validated.port ∧ ∃ p, urlparse py.accepts hop.validated.url = some p ∧
      e.path = p.path++led ';' p.params ∧ e.query = p.query
  allowed : ∀ address ∈ hop.validated.addresses, ∃ ip, ipAddress address = some ip ∧ Allowed policy ip
  host : (hop.sent.kwargs.headers.filter fun h => sameHeader h.1 hostName).map Prod.snd =
    [hostHeader py hop.validated]
  sni : hop.sent.kwargs.sniHostname = some (py.asciiHost hop.validated.host)

/-- The requests of a call on a client that reaches every URL directly. -/
structure Pinned (py : Python) (dial : Text → Option Endpoint) (policy : OutboundPolicy)
    (maxRedirects : Int) (hops : List Hop) : Prop where
  few : hops.length ≤ (maxRedirects+1).toNat
  pinned : ∀ hop ∈ hops, hop.validated.addresses ≠ [] → HopPinned py dial policy hop

/-! Addresses. -/

theorem lan_mapped {ip b : Address} (h : ip.ipv4Mapped = some b) :
    lanPrivateNetworks.any ip.within = false := by
  have v6 := (ipv4Mapped_version h).1
  refine any_eq_false.2 fun block hb => ?_
  rw [Bool.not_eq_true]
  simp only [lanPrivateNetworks,mem_cons,not_mem_nil,or_false] at hb
  rcases hb with rfl | rfl | rfl | rfl
  · exact within_version (by rw [v6]; decide)
  · exact within_version (by rw [v6]; decide)
  · exact within_version (by rw [v6]; decide)
  · exact mapped_not_local h

theorem not_forbidden {policy : OutboundPolicy} {address : Text}
    (h : isForbiddenAddress policy address = false) :
    ∃ ip, ipAddress address = some ip ∧ Allowed policy ip := by
  rw [isForbiddenAddress] at h
  cases found : ipAddress address with rw [found] at h
  | none =>
    cases h
  | some ip =>
    refine ⟨ip,rfl,?_⟩
    simp only at h
    split at h
    · cases h
    rename_i plain
    simp only [Bool.or_eq_true,not_or,Bool.not_eq_true] at plain
    obtain ⟨⟨unspecified,multicast⟩,linkLocal⟩ := plain
    have base : ip.meant.isUnspecified = false ∧ ip.meant.isMulticast = false ∧
        ip.meant.isLinkLocal = false := by
      rw [Address.isUnspecified,Address.isMulticast,Address.isLinkLocal,meant_twice]
      exact ⟨unspecified,multicast,linkLocal⟩
    refine ⟨base.1,base.2.1,base.2.2,fun loopback => ?_,fun loopback priv => ?_⟩
    · cases mapped : ip.ipv4Mapped with
      | none =>
        rw [meant_unmapped mapped] at loopback
        rw [if_pos loopback] at h
        simpa using h
      | some b =>
        obtain ⟨-,v4⟩ := ipv4Mapped_version mapped
        rw [meant_mapped mapped] at loopback
        have priv := (isPrivate_mapped mapped).trans (isLoopback_private v4 loopback)
        rw [mapped_not_loopback mapped,priv,lan_mapped mapped] at h
        simp at h
    · cases mapped : ip.ipv4Mapped with
      | none =>
        rw [meant_unmapped mapped] at loopback priv ⊢
        rw [loopback,priv] at h
        simpa using h
      | some b =>
        rw [meant_mapped mapped] at priv
        have priv := (isPrivate_mapped mapped).trans priv
        rw [mapped_not_loopback mapped,priv,lan_mapped mapped] at h
        simp at h

/-! One hop. -/

section
variable {py : Python} {policy : OutboundPolicy} {proxied : Text → Bool} {turns : Nat → Turn}

theorem bind_ok {ε α β : Type} {x : Except ε α} {f : α → Except ε β} {b : β}
    (h : (x >>= f) = .ok b) : ∃ a, x = .ok a ∧ f a = .ok b := by
  cases x with
  | error e => cases h
  | ok a => exact ⟨a,rfl,h⟩

theorem validateHost_netloc {netloc host : Text} (h : validateHost py netloc = .ok host) :
    netloc ≠ [] := by
  intro none
  subst none
  cases h

theorem validate_ok {look : Lookup} {url : Text} {v : ValidatedUrl}
    (h : validateOutboundUrl py policy look url = .ok v) :
    ∃ parsed, urlparse py.accepts (py.strip url) = some parsed ∧ parsed.netloc ≠ [] ∧
      v.url = urlunparse parsed ∧ ∀ a ∈ v.addresses, isForbiddenAddress policy a = false := by
  obtain ⟨-,-,h⟩ := bind_ok h
  cases hp : urlparse py.accepts (py.strip url) with rw [hp] at h
  | none =>
    cases h
  | some parsed =>
    simp only at h
    split at h
    · cases h
    obtain ⟨host,hhost,h⟩ := bind_ok h
    obtain ⟨port,-,h⟩ := bind_ok h
    obtain ⟨addresses,-,h⟩ := bind_ok h
    obtain ⟨-,-,h⟩ := bind_ok h
    split at h
    · cases h
    · rename_i allowed
      cases h
      refine ⟨parsed,rfl,validateHost_netloc hhost,rfl,fun a ha => ?_⟩
      rw [any_eq_true,not_exists] at allowed
      exact Bool.eq_false_iff.2 fun forbidden => allowed a ⟨ha,forbidden⟩

theorem setHeader_values (name value : Text) (headers : List (Text × Text)) :
    ((setHeader name value headers).filter fun h => sameHeader h.1 name).map Prod.snd = [value] := by
  have itself : sameHeader name name = true := decide_eq_true rfl
  induction headers with
  | nil => simp [setHeader,itself]
  | cons h rest ih =>
    rw [setHeader]
    by_cases same : sameHeader h.1 name = true
    · simp [same,itself,filter_filter]
    · have skip := @List.filter_cons_of_neg (Text × Text) (fun g => sameHeader g.1 name) h
        (setHeader name value rest) same
      rw [if_neg same,skip]
      exact ih

theorem validated_again {look : Lookup} {url : Text} {v : ValidatedUrl}
    (h : validateOutboundUrl py policy look url = .ok v) :
    ∃ parsed : ParseResult, urlparse py.accepts v.url = some parsed ∧ parsed.Proper := by
  obtain ⟨parsed,hp,some_,url_,-⟩ := validate_ok h
  obtain ⟨proper,netloc,ok⟩ := urlparse_proper hp some_
  refine ⟨parsed,?_,proper⟩
  rw [url_]
  exact urlparse_urlunparse proper netloc ok

theorem hop_pinned {dial : Text → Option Endpoint} (dials : Dials dial) {look : Lookup}
    {url method : Text} {v : ValidatedUrl} {kwargs sent : Kwargs} {target : Text}
    (valid : validateOutboundUrl py policy look url = .ok v)
    (direct : ∀ u, proxied u = false) (unset : kwargs.sniHostname = none)
    (pinned : pinnedRequest py proxied v kwargs = .ok (target,sent)) (some_ : v.addresses ≠ [])
    (plain : Plain (v.addresses.headD [])) : HopPinned py dial policy ⟨v,⟨method,target,sent⟩⟩ := by
  obtain ⟨-,-,-,-,permitted⟩ := validate_ok valid
  obtain ⟨parsed,hp,proper⟩ := validated_again valid
  have allowed : ∀ a ∈ v.addresses, ∃ ip, ipAddress a = some ip ∧ Allowed policy ip := fun a ha =>
    not_forbidden (permitted a ha)
  have first : v.addresses.headD [] ∈ v.addresses := by
    cases ha : v.addresses with
    | nil => exact absurd ha some_
    | cons a rest => exact mem_cons_self
  rw [pinnedRequest,direct,if_neg (by simpa using some_),hp] at pinned
  cases pinned
  refine ⟨fun e he => ?_,allowed,setHeader_values _ _ _,by rw [unset]; rfl⟩
  obtain ⟨ip,hip,-⟩ := allowed _ first
  have literal : (ipAddress (v.addresses.headD [])).isSome = true := by rw [hip]; rfl
  have there := dials { parsed with netloc := bracketed (v.addresses.headD [])++ ':'::digits v.port }
    (v.addresses.headD []) v.port (proper.relocate _) literal plain rfl e he
  subst there
  exact ⟨first,rfl,parsed,hp,rfl,rfl⟩

/-! The whole chain. -/

theorem rounds_hops (n i : Nat) (maxRedirects : Int) (current method : Text) (kwargs : Kwargs)
    (unset : kwargs.sniHostname = none) :
    (rounds py policy proxied turns n i maxRedirects current method kwargs).1.length ≤ n ∧
    ∀ hop ∈ (rounds py policy proxied turns n i maxRedirects current method kwargs).1,
      ∃ look url kw, kw.sniHostname = none ∧
        validateOutboundUrl py policy look url = .ok hop.validated ∧
        pinnedRequest py proxied hop.validated kw = .ok (hop.sent.url,hop.sent.kwargs) := by
  induction n generalizing i maxRedirects current method kwargs with
  | zero => exact ⟨le_rfl,fun _ there => absurd there not_mem_nil⟩
  | succ n ih =>
    rw [rounds]
    cases valid : validateOutboundUrl py policy (turns i).first current with
    | error e => exact ⟨Nat.zero_le _,fun _ there => absurd there not_mem_nil⟩
    | ok validated =>
      cases pinned : pinnedRequest py proxied validated kwargs with
      | error e =>
        simp only [pinned]
        exact ⟨Nat.zero_le _,fun _ there => absurd there not_mem_nil⟩
      | ok request =>
        obtain ⟨target,sendKwargs⟩ := request
        have here : ∀ hop ∈ [(⟨validated,⟨method,target,sendKwargs⟩⟩ : Hop)],
            ∃ look url kw, kw.sniHostname = none ∧
              validateOutboundUrl py policy look url = .ok hop.validated ∧
              pinnedRequest py proxied hop.validated kw = .ok (hop.sent.url,hop.sent.kwargs) := by
          intro hop there
          rw [mem_singleton.1 there]
          exact ⟨_,_,kwargs,unset,valid,pinned⟩
        have one : [(⟨validated,⟨method,target,sendKwargs⟩⟩ : Hop)].length ≤ n+1 :=
          Nat.succ_le_succ (Nat.zero_le n)
        simp only [pinned]
        split
        · exact ⟨one,here⟩
        split
        · exact ⟨one,here⟩
        split
        · exact ⟨one,here⟩
        split
        · exact ⟨one,here⟩
        rename_i next _
        -- a redirect: the other rounds come after this hop
        have more : ∀ rest : List Hop × Outcome, (rest.1.length ≤ n ∧ ∀ hop ∈ rest.1,
            ∃ look url kw, kw.sniHostname = none ∧
              validateOutboundUrl py policy look url = .ok hop.validated ∧
              pinnedRequest py proxied hop.validated kw = .ok (hop.sent.url,hop.sent.kwargs)) →
            ((⟨validated,⟨method,target,sendKwargs⟩⟩ : Hop)::rest.1).length ≤ n+1 ∧
            ∀ hop ∈ (⟨validated,⟨method,target,sendKwargs⟩⟩ : Hop)::rest.1,
              ∃ look url kw, kw.sniHostname = none ∧
                validateOutboundUrl py policy look url = .ok hop.validated ∧
                pinnedRequest py proxied hop.validated kw = .ok (hop.sent.url,hop.sent.kwargs) := by
          intro rest h
          refine ⟨Nat.succ_le_succ h.1,fun hop there => ?_⟩
          rcases mem_cons.1 there with rfl | there
          · exact here _ (mem_singleton_self _)
          · exact h.2 hop there
        refine more _ ?_
        split
        · exact ih (i+1) (maxRedirects-1) next.url get _ unset
        · exact ih (i+1) (maxRedirects-1) next.url method kwargs unset

/-- If no dialled address has a zone that would end or divide the network location, every connection of
a call goes to a validated address of its hop. -/
theorem requests_pinned {dial : Text → Option Endpoint} (dials : Dials dial)
    (direct : ∀ u, proxied u = false) {method url : Text} {maxRedirects : Int} {kwargs : Kwargs}
    (unset : kwargs.sniHostname = none)
    (plain : ∀ hop ∈ (safeAsyncRequest py policy proxied turns method url maxRedirects kwargs).1,
      Plain (hop.validated.addresses.headD [])) :
    Pinned py dial policy maxRedirects
      (safeAsyncRequest py policy proxied turns method url maxRedirects kwargs).1 := by
  obtain ⟨few,each⟩ := @rounds_hops py policy proxied turns (maxRedirects+1).toNat 0 maxRedirects url
    method kwargs unset
  refine ⟨few,fun hop there some_ => ?_⟩
  obtain ⟨look,source,kw,unset',valid,pinned⟩ := each hop there
  exact hop_pinned dials valid direct unset' pinned some_ (plain hop there)

end

/-! A client that reads URLs by their generic syntax. -/

def control (c : Char) : Bool := c.toNat < 32 || c.toNat = 127

def authority (netloc : Text) : Text := if '@' ∈ netloc then (cut '@' netloc).2 else netloc

def hostAndPort : Text → Option (Text × Text)
  | '['::rest =>
    if ']' ∈ rest then
      some ((rest.rdropWhile (· ≠ ']')).dropLast,(rest.rtakeWhile (· ≠ ']')).drop 1)
    else none
  | t => some (cut ':' t)

def dialPlain (url : Text) : Option Endpoint :=
  if url.any control then none
  else do
    let p ← urlparse (fun _ => true) url
    let place ← hostAndPort (authority p.netloc)
    some ⟨place.1,place.2,p.path++led ';' p.params,p.query⟩

theorem literal_chars {address : Text} (h : (ipAddress address).isSome = true) :
    '/' ∉ address ∧ address.head? ≠ some '[' := by
  have chars : ∀ {s : Text}, (∀ c ∈ s, GoNetip.isAddressChar c = true) →
      '/' ∉ s ∧ s.head? ≠ some '[' := fun all =>
    ⟨fun there => absurd (all _ there) (by decide),
      fun first => absurd (all _ (mem_of_mem_head? first)) (by decide)⟩
  have zoned : ∀ {s zone : Text} {z : '%' ∉ zone ∧ '/' ∉ zone}, (addressWithZone s zone z).isSome = true →
      ∀ c ∈ s, GoNetip.isAddressChar c = true := by
    intro s zone z found c hc
    rw [addressWithZone] at found
    split at found
    · rename_i hs parsed
      exact ScopeTexts.parse6_char parsed hc
    · cases found
  rw [ipAddress] at h
  cases h4 : address4 address with
  | some a =>
    rw [address4] at h4
    split at h4
    · rename_i n parsed
      refine chars fun c hc => ?_
      rcases parse4_mem parsed hc with rfl | digit
      · rfl
      · exact GoNetip.digit_isAddressChar digit
    · cases h4
  | none =>
    rw [h4] at h
    replace h : (address6 address).isSome = true := h
    have whole := takeWhile_append_dropWhile (p := (· ≠ '%')) (l := address)
    rw [address6] at h
    split at h
    · rename_i none
      rw [none,append_nil] at whole
      rw [←whole]
      exact chars (zoned h)
    · rename_i mark zone rest
      split at h
      · rename_i clean
        have before := zoned h
        have stop : mark = '%' := by
          have stops := head?_dropWhile_not (fun c => decide (c ≠ '%')) address
          rw [rest] at stops
          simpa using stops
        rw [rest,stop] at whole
        rw [←whole]
        obtain ⟨slash,bracket⟩ := chars before
        refine ⟨fun there => ?_,fun first => ?_⟩
        · rcases mem_append.1 there with there | there
          · exact slash there
          · rcases mem_cons.1 there with eq | there
            · exact absurd eq (by decide)
            · exact clean.2.2 there
        · cases hb : address.takeWhile (· ≠ '%') with
          | nil =>
            rw [hb] at first
            exact absurd (Option.some.inj first) (by decide)
          | cons c base =>
            rw [hb] at first bracket
            exact bracket first
      · cases h

theorem digits_char {n : Nat} {c : Char} (h : c ∈ digits n) : c.isDigit = true :=
  Nat.isDigit_of_mem_toDigits (by decide) (by decide) h

theorem hostAndPort_literal {address : Text} {port : Nat} (bracket : address.head? ≠ some '[') :
    hostAndPort (bracketed address++ ':'::digits port) = some (address,digits port) := by
  have plainDigits : ∀ {c : Char}, c.isDigit = false → c ∉ digits port := fun hc there => by
    rw [digits_char there] at hc
    cases hc
  rw [bracketed]
  by_cases colon : ':' ∈ address
  · have last : ']' ∉ ':'::digits port := fun there => by
      rcases mem_cons.1 there with eq | there
      · exact absurd eq (by decide)
      · exact plainDigits (by decide) there
    obtain ⟨port_,host⟩ := @rcut_append ']' address (':'::digits port) last
    have split : (('['::address++[']'])++ ':'::digits port) = '['::(address++ ']':: ':'::digits port) := by
      simp
    rw [if_pos colon,split,hostAndPort,if_pos (by simp),port_,host]
    simp
  · have parts : cut ':' (address++ ':'::digits port) = (address,digits port) := cut_append colon
    rw [if_neg colon,hostAndPort,parts]
    intro rest eq
    cases address with
    | nil => cases eq
    | cons c address =>
      cases eq
      exact bracket rfl

theorem dialPlain_dials : Dials dialPlain := by
  intro p address port proper literal plain netloc e he
  obtain ⟨slash,bracket⟩ := literal_chars literal
  obtain ⟨mark,hash,at_⟩ := plain
  rw [dialPlain] at he
  split at he
  · cases he
  rename_i quiet
  have text : ∀ c ∈ p.netloc, (c ∈ address ∨ c ∈ ['[',']',':'] ∨ c.isDigit = true) := by
    intro c hc
    rw [netloc,bracketed] at hc
    rcases mem_append.1 hc with hc | hc
    · split at hc
      · rcases mem_append.1 hc with hc | hc
        · rcases mem_cons.1 hc with rfl | hc
          · exact .inr (.inl (by decide))
          · exact .inl hc
        · exact .inr (.inl (by rw [mem_singleton.1 hc]; decide))
      · exact .inl hc
    · rcases mem_cons.1 hc with rfl | hc
      · exact .inr (.inl (by decide))
      · exact .inr (.inr (digits_char hc))
  have outside : ∀ c ∈ ['/','?','#','@'], c ∉ p.netloc := by
    intro c hc there
    simp only [mem_cons,not_mem_nil,or_false] at hc
    rcases text c there with there | there | there
    · rcases hc with rfl | rfl | rfl | rfl
      · exact slash there
      · exact mark there
      · exact hash there
      · exact at_ there
    · rcases hc with rfl | rfl | rfl | rfl <;> exact absurd there (by decide)
    · rcases hc with rfl | rfl | rfl | rfl <;> exact absurd there (by decide)
  have located : NetlocText p.netloc := by
    intro c hc
    constructor
    · have other : ∀ d ∈ ['/','?','#','@'], c ≠ d := fun d hd eq => outside d hd (eq ▸ hc)
      simp [netlocChar,other]
    · by_contra lost
      refine quiet (any_eq_true.2 ⟨c,?_,?_⟩)
      · rw [proper.unparse]
        simp [hc]
      · simp only [kept,Bool.and_eq_true,decide_eq_true_eq,not_and_or,not_not] at lost
        rcases lost with (rfl | rfl) | rfl <;> decide
  have parsed : urlparse (fun _ => true) (urlunparse p) = some p :=
    urlparse_urlunparse proper located rfl
  have place : hostAndPort (authority p.netloc) = some (address,digits port) := by
    rw [authority,if_neg (outside '@' (by decide)),netloc]
    exact hostAndPort_literal bracket
  rw [parsed,Option.bind_eq_bind,Option.bind_some,place,Option.bind_eq_bind,Option.bind_some] at he
  exact (Option.some.inj he).symm

/-- `unquote` of ASCII texts -/
def percentDecoded : Text → Text
  | [] => []
  | '%'::a::b::rest =>
    if isHex a && isHex b then Char.ofNat (16*hexDigit a+hexDigit b)::percentDecoded rest
    else '%'::percentDecoded (a::b::rest)
  | c::rest => c::percentDecoded rest

def plainPython : Python where
  strip := fun t => (t.dropWhile (· = ' ')).rdropWhile (· = ' ')
  lower := List.map Char.toLower
  unquote := percentDecoded
  urljoin := fun _ location => location
  asciiHost := id
  accepts := fun _ => true

def redirected : Nat → Turn
  | 0 => ⟨{ answer := some ["93.184.216.34".toList] },
      some ⟨302,"https://hooks.example:8443/b?y=2".toList⟩,{ answer := some ["93.184.216.35".toList] }⟩
  | _ => ⟨{ answer := some ["93.184.216.36".toList] },some ⟨200,[]⟩,{ answer := none }⟩

def redirectedHops : List Hop :=
  (safeAsyncRequest plainPython webhookPolicy (fun _ => false) redirected "POST".toList
    "http://hooks.example/a?x=1".toList 1 {}).1

theorem redirected_pinned : redirectedHops.length = 2 ∧
    Pinned plainPython dialPlain webhookPolicy 1 redirectedHops :=
  ⟨by decide,requests_pinned dialPlain_dials (fun _ => rfl) rfl (by decide)⟩

/-- A literal IPv6 address whose zone, once decoded, has a user's place and another host behind it. -/
def zonedUrl : Text := "http://2606%3A4700%3A%3A1%25%40%5B%3A%3A1/x".toList

def zonedHops : List Hop :=
  (safeAsyncRequest plainPython webhookPolicy (fun _ => false) redirected "POST".toList zonedUrl 0 {}).1

/-- The webhook is validated for a global address, and loopback is dialled. -/
theorem zone_redirects : Dials dialPlain ∧
    ¬Pinned plainPython dialPlain webhookPolicy 0 zonedHops := by
  refine ⟨dialPlain_dials,fun h => ?_⟩
  have dialled : zonedHops.map (fun hop => (hop.validated.addresses,dialPlain hop.sent.url)) =
      [(["2606:4700::1%@[::1".toList],some ⟨"::1".toList,"80".toList,"/x".toList,[]⟩)] := by
    decide
  obtain ⟨hop,rest,eq⟩ : ∃ hop rest, zonedHops = hop::rest := by
    cases hz : zonedHops with
    | nil =>
      rw [hz] at dialled
      cases dialled
    | cons hop rest => exact ⟨hop,rest,rfl⟩
  rw [eq,map_cons] at dialled
  obtain ⟨first,-⟩ := List.cons.inj dialled
  obtain ⟨addresses,dial⟩ := Prod.mk.inj first
  have pinned := h.pinned hop (by rw [eq]; exact mem_cons_self) (by rw [addresses]; simp)
  have there := (pinned.connects _ dial).1
  rw [addresses] at there
  exact absurd there (by decide)

end CircuitBreaker.OutboundUrl
