import CircuitBreaker.IpClasses
import CircuitBreaker.UrlText

/-! Validating an outbound URL, and the request that is pinned to one of its addresses
(core/url_validation.py). -/

namespace CircuitBreaker.OutboundUrl

open IpText
open UrlText hiding Text

structure Python where
  strip : Text → Text
  lower : Text → Text
  unquote : Text → Text
  urljoin : Text → Text → Text
  /-- `host.encode("idna")`, or the host itself where that fails -/
  asciiHost : Text → Text
  /-- the network locations that `urlparse` does not refuse -/
  accepts : Text → Bool

structure OutboundPolicy where
  name : String
  allowedSchemes : List Text
  allowPrivate : Bool := false
  allowLocal : Bool := false
  allowUnresolvedHostname : Bool := false

structure ValidatedUrl where
  url : Text
  scheme : Text
  host : Text
  port : Nat
  addresses : List Text

def http : Text := "http".toList
def https : Text := "https".toList

def webhookPolicy : OutboundPolicy where
  name := "Webhook URL"
  allowedSchemes := [http,https]

def threatFeedPolicy : OutboundPolicy where
  name := "Feed URL"
  allowedSchemes := [https]

def lanIntegrationPolicy : OutboundPolicy where
  name := "Integration URL"
  allowedSchemes := [http,https]
  allowPrivate := true
  allowUnresolvedHostname := true

def monitorTargetPolicy : OutboundPolicy where
  name := "Monitor URL"
  allowedSchemes := [http,https]
  allowPrivate := true
  allowLocal := true
  allowUnresolvedHostname := true

def oidcPolicy : OutboundPolicy where
  name := "OIDC URL"
  allowedSchemes := [http,https]
  allowPrivate := true

def egressProxyPolicy : OutboundPolicy where
  name := "Egress proxy URL"
  allowedSchemes := [http,https]
  allowPrivate := true
  allowLocal := true
  allowUnresolvedHostname := true

inductive UrlError where
  | publicHttpDisabled
  | unresolvedInAirgap
  | publicInAirgap
  | invalidUrl
  | schemeNotAllowed
  | invalidPort
  | userinfo
  | noHost
  | cannotResolve
  | noAddress
  | forbidden
  | missingLocation
  | tooManyRedirects

def defaultPort (scheme : Text) : Option Nat := [(http,80),(https,443)].lookup scheme

def dedupe (items : List Text) : List Text :=
  items.foldl (fun result item => if item ∈ result then result else result++[item]) []

def lanPrivateNetworks : List AddressBlock :=
  [block4 10 0 0 0 8,block4 172 16 0 0 12,block4 192 168 0 0 16,block6 [0xfc00] 7]

def isForbiddenAddress (policy : OutboundPolicy) (ipText : Text) : Bool :=
  match ipAddress ipText with
  | none => true
  | some ip =>
    if ip.isUnspecified || ip.isMulticast || ip.isLinkLocal then true
    else if ip.isLoopback then !policy.allowLocal
    else if ip.isPrivate then !(policy.allowPrivate && lanPrivateNetworks.any ip.within)
    else !ip.isGlobal

def validateHost (py : Python) (netloc : Text) : Except UrlError Text :=
  match portOf netloc with
  | none => .error .invalidPort
  | some _ =>
    if hasUserinfo netloc then .error .userinfo
    else
      match hostname py.lower netloc with
      | none => .error .noHost
      | some name =>
        let host := py.unquote (py.strip name)
        if host = [] then .error .noHost else .ok host

/-- What one validation meets: the air gap before and after it resolves, and what the resolver says. -/
structure Lookup where
  airgapBefore : Bool := false
  airgapAfter : Bool := false
  answer : Option (List Text)

def resolveHost (policy : OutboundPolicy) (answer : Option (List Text)) (host : Text) :
    Except UrlError (List Text) :=
  match ipAddress host with
  | some literal => .ok [literal.text]
  | none =>
    match answer with
    | none => if policy.allowUnresolvedHostname then .ok [] else .error .cannotResolve
    | some infos =>
      if dedupe infos = [] ∧ policy.allowUnresolvedHostname = false then .error .noAddress
      else .ok (dedupe infos)

/-- `PRIVATE_LAN_HTTP`, or else `PUBLIC_HTTP` -/
def OutboundPolicy.lan (policy : OutboundPolicy) : Bool := policy.allowPrivate || policy.allowLocal

def enforceBeforeResolution (policy : OutboundPolicy) (airgap : Bool) : Except UrlError Unit :=
  if airgap && !policy.lan then .error .publicHttpDisabled else .ok ()

def enforceResolved (policy : OutboundPolicy) (airgap : Bool) (addresses : List Text) :
    Except UrlError Unit :=
  if !airgap || !policy.lan then .ok ()
  else if addresses = [] then .error .unresolvedInAirgap
  else if addresses.all fun value => (ipAddress value).any fun ip => ip.isPrivate || ip.isLoopback then
    .ok ()
  else .error .publicInAirgap

/-- `parsed.port or _default_port(scheme)` -/
def portFor (scheme : Text) (port : Option Nat) : Except UrlError Nat :=
  match port.filter (· ≠ 0) with
  | some port => .ok port
  | none =>
    match defaultPort scheme with
    | some port => .ok port
    | none => .error .schemeNotAllowed

def validateOutboundUrl (py : Python) (policy : OutboundPolicy) (look : Lookup) (url : Text) :
    Except UrlError ValidatedUrl := do
  enforceBeforeResolution policy look.airgapBefore
  match urlparse py.accepts (py.strip url) with
  | none => .error .invalidUrl
  | some parsed =>
    if parsed.scheme ∉ policy.allowedSchemes then .error .schemeNotAllowed
    else do
      let host ← validateHost py parsed.netloc
      let port ← portFor parsed.scheme ((portOf parsed.netloc).getD none)
      let addresses ← resolveHost policy look.answer host
      enforceResolved policy look.airgapAfter addresses
      if addresses.any (isForbiddenAddress policy) then .error .forbidden
      else .ok ⟨urlunparse parsed,parsed.scheme,host,port,addresses⟩

def validateRedirectTarget (py : Python) (policy : OutboundPolicy) (look : Lookup)
    (source location : Text) : Except UrlError ValidatedUrl :=
  if location = [] then .error .missingLocation
  else validateOutboundUrl py policy look (py.urljoin source location)

def bracketed (host : Text) : Text := if ':' ∈ host then '['::host++[']'] else host

def digits (n : Nat) : Text := Nat.toDigits 10 n

structure Kwargs where
  headers : List (Text × Text) := []
  sniHostname : Option Text := none
  json : Option Text := none
  data : Option Text := none
  content : Option Text := none

def sameHeader (a b : Text) : Bool := a.map Char.toLower = b.map Char.toLower

/-- `headers[name] = value`: the first header of that name gets the value, and others of it go. -/
def setHeader (name value : Text) : List (Text × Text) → List (Text × Text)
  | [] => [(name,value)]
  | h::rest =>
    if sameHeader h.1 name then (name,value)::rest.filter fun g => !sameHeader g.1 name
    else h::setHeader name value rest

def hostName : Text := "Host".toList

/-- The `Host` header: the port is left out if it is the scheme's own. -/
def hostHeader (py : Python) (validated : ValidatedUrl) : Text :=
  bracketed (py.asciiHost validated.host)++
    if defaultPort validated.scheme = some validated.port then [] else ':'::digits validated.port

/-- `proxied` is what `_reaches_through_proxy` says of the client. -/
def pinnedRequest (py : Python) (proxied : Text → Bool) (validated : ValidatedUrl) (kwargs : Kwargs) :
    Except UrlError (Text × Kwargs) :=
  if validated.addresses = [] || proxied validated.url then .ok (validated.url,kwargs)
  else
    match urlparse py.accepts validated.url with
    | none => .error .invalidUrl
    | some parsed =>
      let literal := bracketed (validated.addresses.headD [])
      .ok (urlunparse { parsed with netloc := literal++ ':'::digits validated.port },
        { kwargs with
          headers := setHeader hostName (hostHeader py validated) kwargs.headers
          sniHostname := some (kwargs.sniHostname.getD (py.asciiHost validated.host)) })

structure Sent where
  method : Text
  url : Text
  kwargs : Kwargs

structure Response where
  status : Nat
  location : Text := []

/-- What one round meets: its own lookup, the server's response and the lookup of the redirect. -/
structure Turn where
  first : Lookup
  response : Option Response
  second : Lookup := { answer := none }

structure Hop where
  validated : ValidatedUrl
  sent : Sent

inductive Outcome where
  | returned (response : Response)
  | raised (error : UrlError)
  | failed

def Response.redirects (r : Response) : Bool := r.status ∈ [301,302,303,307,308]

def get : Text := "GET".toList

def rounds (py : Python) (policy : OutboundPolicy) (proxied : Text → Bool) (turns : Nat → Turn) :
    Nat → Nat → Int → Text → Text → Kwargs → List Hop × Outcome
  | 0, _, _, _, _, _ => ([],.raised .tooManyRedirects)
  | n+1, i, maxRedirects, current, method, kwargs =>
    match validateOutboundUrl py policy (turns i).first current with
    | .error e => ([],.raised e)
    | .ok validated =>
      match pinnedRequest py proxied validated kwargs with
      | .error e => ([],.raised e)
      | .ok (target,sendKwargs) =>
        let hop : Hop := ⟨validated,⟨method,target,sendKwargs⟩⟩
        match (turns i).response with
        | none => ([hop],.failed)
        | some response =>
          if !response.redirects then ([hop],.returned response)
          else if maxRedirects ≤ 0 then ([hop],.returned response)
          else
            match validateRedirectTarget py policy (turns i).second validated.url response.location with
            | .error e => ([hop],.raised e)
            | .ok next =>
              let rest := if response.status = 303 then
                  rounds py policy proxied turns n (i+1) (maxRedirects-1) next.url get
                    { kwargs with
                      json := none
                      data := none
                      content := none }
                else rounds py policy proxied turns n (i+1) (maxRedirects-1) next.url method kwargs
              (hop::rest.1,rest.2)

def safeAsyncRequest (py : Python) (policy : OutboundPolicy) (proxied : Text → Bool)
    (turns : Nat → Turn) (method url : Text) (maxRedirects : Int) (kwargs : Kwargs) :
    List Hop × Outcome :=
  rounds py policy proxied turns (maxRedirects+1).toNat 0 maxRedirects url method kwargs

end CircuitBreaker.OutboundUrl
