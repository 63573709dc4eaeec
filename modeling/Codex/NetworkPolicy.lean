/-
The network proxy's policy: domain patterns, the globs they are enforced as,
and the check of a configuration against the managed constraints.

A pattern is read twice. Enforcement trims it, lowercases it, strips ports,
brackets and trailing dots, and compiles the rest to globs
(`compileGlobsetWithPolicy`); validation decodes its wildcard prefix and parses
the domain behind it as a URL host, or keeps the text when it holds a glob
character (`DomainPattern.parseForConstraints`).

Source: network-proxy/src/policy.rs, config.rs and state.rs.
-/
import Codex.Text
import Mathlib.Data.Char
import Mathlib.Data.List.Lex

namespace Codex.NetworkProxy

open Text

/-! ## What the policy uses of other crates -/

/-- An IP address, by what the policy asks of it. -/
structure IpAddr where
  isLoopback : Bool
  isNonPublic : Bool
  deriving DecidableEq

/-- `str::parse::<IpAddr>`, `url::Host::parse` as text, and globset's builders
and matcher. MITM hooks are checked on their own; nothing else of them is used here. -/
structure Libraries (Hook : Type) where
  parseIp : Text → Option IpAddr
  urlHostParse : Text → Option Text
  globBuild : Text → Bool
  globSetBuild : List Text → Except Text Unit
  globMatch : Text → Text → Bool
  validateMitmHooks : Bool → List Hook → Except Text Unit

/-- The documented meaning of a glob without classes, alternates and escapes:
`?` is one character, `*` any number of them, and letters match in either case. -/
def simpleGlob : Text → Text → Bool
  | [], host => host.isEmpty
  | g :: glob, host =>
    if g = '*' then host.tails.any (simpleGlob glob)
    else
      match host with
      | [] => false
      | c :: host => (g == '?' || g.toLower == c.toLower) && simpleGlob glob host

/-- The libraries on plain domain names: no addresses, and URL hosts are lowercased. -/
def plainLibraries : Libraries Unit where
  parseIp _ := none
  urlHostParse host := if !host.isEmpty && host.all fun c => c.isAlphanum || c == '-' || c == '.' then some (host.map Char.toLower) else none
  globBuild _ := true
  globSetBuild _ := .ok ()
  globMatch := simpleGlob
  validateMitmHooks _ _ := .ok ()

variable {Hook : Type} (L : Libraries Hook)

/-- `str::to_ascii_lowercase` -/
def toAsciiLowercase (s : Text) : Text := s.map Char.toLower

/-- `str::trim_end_matches('.')` -/
def trimEndDots (s : Text) : Text := s.rdropWhile (· = '.')

/-! ## Hosts -/

/-- The first part is an IP address, before either delimiter of a scope. -/
def scopedIpLiteral (host delimiter : Text) : Option Text :=
  match splitOnce delimiter host with
  | none => none
  | some (ip, scope) => if (L.parseIp ip).isSome then some (ip ++ '%' :: scope) else none

def normalizeIpLiteral (host : Text) : Option Text :=
  if (L.parseIp host).isSome then some host
  else (scopedIpLiteral L host ['%', '2', '5']).or (scopedIpLiteral L host ['%'])

def unscopedIpLiteral (host : Text) : Option Text :=
  match splitOnce ['%'] host with
  | none => none
  | some (ip, _) => if (L.parseIp ip).isSome then some ip else none

def normalizeDnsHostOrIpLiteral (host : Text) : Text :=
  let host := trimEndDots (toAsciiLowercase host)
  (normalizeIpLiteral L host).getD host

/-- Trims, strips brackets or a port, lowercases. -/
def normalizeHost (host : Text) : Text :=
  let host := trim host
  if host.head? = some '[' ∧ host.contains ']' then
    normalizeDnsHostOrIpLiteral L ((host.drop 1).takeWhile (· ≠ ']'))
  else if host.count ':' = 1 then normalizeDnsHostOrIpLiteral L (host.takeWhile (· ≠ ':'))
  else normalizeDnsHostOrIpLiteral L host

def Host.parse (input : Text) : Option Text :=
  let normalized := normalizeHost L input
  if normalized.isEmpty then none else some normalized

/-! ## Domain patterns -/

inductive DomainPattern where
  | apexAndSubdomains (domain : Text)
  | subdomainsOnly (domain : Text)
  | exact (domain : Text)
  deriving DecidableEq

def doubleStarDot : Text := ['*', '*', '.']

def starDot : Text := ['*', '.']

/-- `host.contains('*') || host.contains('?') || host.contains('%')` -/
def hasGlobChar (host : Text) : Bool := host.contains '*' || host.contains '?' || host.contains '%'

def parseDomainForConstraints (domain : Text) : Text :=
  let domain := trimEndDots (trim domain)
  if domain.isEmpty then []
  else
    let host := if domain.head? = some '[' ∧ domain.getLast? = some ']' then (domain.drop 1).dropLast else domain
    if hasGlobChar host then domain else (L.urlHostParse host).getD []

namespace DomainPattern

def parseDomain (domain : Text) (build : Text → DomainPattern) : DomainPattern :=
  let domain := trim domain
  if domain.isEmpty then .exact [] else build domain

def parse (input : Text) : DomainPattern :=
  let input := trim input
  if input.isEmpty then .exact []
  else
    match stripStart doubleStarDot input with
    | some domain => parseDomain domain .apexAndSubdomains
    | none =>
      match stripStart starDot input with
      | some domain => parseDomain domain .subdomainsOnly
      | none => .exact input

def parseForConstraints (input : Text) : DomainPattern :=
  let input := trim input
  if input.isEmpty then .exact []
  else
    match stripStart doubleStarDot input with
    | some domain => .apexAndSubdomains (parseDomainForConstraints L domain)
    | none =>
      match stripStart starDot input with
      | some domain => .subdomainsOnly (parseDomainForConstraints L domain)
      | none => .exact (parseDomainForConstraints L input)

end DomainPattern

def normalizeDomain (domain : Text) : Text := toAsciiLowercase (trimEndDots domain)

def domainEq (left right : Text) : Bool := normalizeDomain left == normalizeDomain right

def isSubdomainOrEqual (child parent : Text) : Bool :=
  normalizeDomain child == normalizeDomain parent || endsWith (normalizeDomain child) ('.' :: normalizeDomain parent)

def isStrictSubdomain (child parent : Text) : Bool :=
  normalizeDomain child != normalizeDomain parent && endsWith (normalizeDomain child) ('.' :: normalizeDomain parent)

def DomainPattern.allows : DomainPattern → DomainPattern → Bool
  | .exact domain, .exact candidate => domainEq candidate domain
  | .exact _, _ => false
  | .subdomainsOnly domain, .exact candidate => isStrictSubdomain candidate domain
  | .subdomainsOnly domain, .subdomainsOnly candidate => isSubdomainOrEqual candidate domain
  | .subdomainsOnly domain, .apexAndSubdomains candidate => isStrictSubdomain candidate domain
  | .apexAndSubdomains domain, .exact candidate => isSubdomainOrEqual candidate domain
  | .apexAndSubdomains domain, .subdomainsOnly candidate => isSubdomainOrEqual candidate domain
  | .apexAndSubdomains domain, .apexAndSubdomains candidate => isSubdomainOrEqual candidate domain

def subdomainGlob (domain : Text) : Text := ['?', '*', '.'] ++ domain

/-- The globs a pattern stands for. -/
def DomainPattern.globs : DomainPattern → List Text
  | .exact domain => [domain]
  | .subdomainsOnly domain => [subdomainGlob domain]
  | .apexAndSubdomains domain => [domain, subdomainGlob domain]

def expandDomainPattern (pattern : Text) : List Text := (DomainPattern.parse pattern).globs

def normalizePattern (pattern : Text) : Text :=
  let pattern := trim pattern
  if pattern = ['*'] then ['*']
  else
    match stripStart doubleStarDot pattern with
    | some domain => doubleStarDot ++ normalizeHost L domain
    | none =>
      match stripStart starDot pattern with
      | some domain => starDot ++ normalizeHost L domain
      | none => normalizeHost L pattern

def isGlobalWildcardDomainPattern (pattern : Text) : Bool :=
  (expandDomainPattern (normalizePattern L pattern)).any (· == ['*'])

/-! ## Glob sets -/

/-- A compiled set, by its globs. Globs match whatever the case. -/
structure GlobSet where
  globs : List Text
  deriving DecidableEq

def GlobSet.isMatch (set : GlobSet) (host : Text) : Bool := set.globs.any (L.globMatch · host)

inductive GlobalWildcard where
  | allow
  | reject
  deriving DecidableEq

def globalWildcardError : Text :=
  "unsupported global wildcard domain pattern \"*\"; use exact hosts or scoped wildcards like *.example.com or **.example.com".toList

def invalidGlobError (candidate : Text) : Text := "invalid glob pattern: ".toList ++ candidate

def addGlobs (seen : List Text) : List Text → Except Text (List Text)
  | [] => .ok seen
  | candidate :: rest =>
    if seen.contains candidate then addGlobs seen rest
    else if L.globBuild candidate then addGlobs (seen ++ [candidate]) rest
    else .error (invalidGlobError candidate)

def addPatterns (globalWildcard : GlobalWildcard) (seen : List Text) : List Text → Except Text (List Text)
  | [] => .ok seen
  | pattern :: rest =>
    if globalWildcard = .reject ∧ isGlobalWildcardDomainPattern L pattern then .error globalWildcardError
    else
      match addGlobs L seen (expandDomainPattern (normalizePattern L pattern)) with
      | .error e => .error e
      | .ok seen => addPatterns globalWildcard seen rest

def compileGlobsetWithPolicy (patterns : List Text) (globalWildcard : GlobalWildcard) : Except Text GlobSet := do
  let globs ← addPatterns L globalWildcard [] patterns
  L.globSetBuild globs
  return { globs }

def compileAllowlistGlobset (patterns : List Text) : Except Text GlobSet := compileGlobsetWithPolicy L patterns .allow

def compileDenylistGlobset (patterns : List Text) : Except Text GlobSet := compileGlobsetWithPolicy L patterns .reject

/-! ## Configuration -/

inductive NetworkDomainPermission where
  | none
  | allow
  | deny
  deriving DecidableEq

/-- The order of the variants: deny wins over allow. -/
def NetworkDomainPermission.rank : NetworkDomainPermission → Nat
  | .none => 0
  | .allow => 1
  | .deny => 2

structure NetworkDomainPermissionEntry where
  pattern : Text
  permission : NetworkDomainPermission
  deriving DecidableEq

/-- One entry of `effective_entries`' loop: a pattern keeps its first place and its greatest permission. -/
def mergeEntry (effective : List NetworkDomainPermissionEntry) (entry : NetworkDomainPermissionEntry) :
    List NetworkDomainPermissionEntry :=
  if effective.any (·.pattern == entry.pattern) then
    effective.map fun e => if e.pattern = entry.pattern ∧ e.permission.rank < entry.permission.rank then entry else e
  else effective ++ [entry]

def effectiveEntries (entries : List NetworkDomainPermissionEntry) : List NetworkDomainPermissionEntry :=
  entries.foldl mergeEntry []

inductive NetworkUnixSocketPermission where
  | allow
  | deny
  deriving DecidableEq

inductive NetworkMode where
  | limited
  | full
  deriving DecidableEq

structure NetworkProxyConfig (Hook : Type) where
  enabled : Bool := false
  proxyUrl : Text := "http://127.0.0.1:3128".toList
  enableSocks5 : Bool := true
  socksUrl : Text := "http://127.0.0.1:8081".toList
  enableSocks5Udp : Bool := true
  allowUpstreamProxy : Bool := true
  dangerouslyAllowNonLoopbackProxy : Bool := false
  dangerouslyAllowAllUnixSockets : Bool := false
  mode : NetworkMode := .full
  domains : Option (List NetworkDomainPermissionEntry) := none
  unixSockets : Option (List (Text × NetworkUnixSocketPermission)) := none
  allowLocalBinding : Bool := false
  mitm : Bool := false
  credentialBroker : Bool := false
  dangerouslyAllowPlaintextCredentialInjection : Bool := false
  mitmHooks : List Hook := []
  deriving DecidableEq

namespace NetworkProxyConfig

variable (config : NetworkProxyConfig Hook)

def domainEntries (permission : NetworkDomainPermission) : Option (List Text) :=
  (config.domains.map fun domains =>
    ((effectiveEntries domains).filter (·.permission = permission)).map (·.pattern)).filter (!·.isEmpty)

def allowedDomains : Option (List Text) := config.domainEntries .allow

def deniedDomains : Option (List Text) := config.domainEntries .deny

def allowUnixSockets : List Text :=
  ((config.unixSockets.getD []).filter fun (_, permission) => permission = .allow).map (·.1)

def upsertDomainPermission (host : Text) (permission : NetworkDomainPermission) (normalize : Text → Text) :
    NetworkProxyConfig Hook :=
  let entries := (config.domains.getD []).filter fun entry => normalize entry.pattern ≠ normalize host
  { config with domains := some (entries ++ [{ pattern := host, permission }]) }

end NetworkProxyConfig

structure NetworkProxyConstraints where
  enabled : Option Bool := none
  mode : Option NetworkMode := none
  allowUpstreamProxy : Option Bool := none
  dangerouslyAllowNonLoopbackProxy : Option Bool := none
  dangerouslyAllowAllUnixSockets : Option Bool := none
  allowedDomains : Option (List Text) := none
  allowlistExpansionEnabled : Option Bool := none
  deniedDomains : Option (List Text) := none
  denylistExpansionEnabled : Option Bool := none
  allowUnixSockets : Option (List Text) := none
  allowLocalBinding : Option Bool := none
  deriving DecidableEq

/-! ## Validation against the managed constraints -/

/-- A part of an error message; a list stands for its `Debug` text. -/
inductive Shown where
  | text (text : Text)
  | entries (entries : List Text)
  deriving DecidableEq

/-- `NetworkProxyConstraintError::InvalidValue` -/
structure NetworkProxyConstraintError where
  fieldName : Text
  candidate : Shown
  allowed : Shown
  deriving DecidableEq

/-- Entries as `Debug` writes them, less its escapes. -/
def Shown.display : Shown → Text
  | .text shown => shown
  | .entries shown => '[' :: [',', ' '].intercalate (shown.map fun entry => '"' :: entry ++ ['"']) ++ [']']

def NetworkProxyConstraintError.display (e : NetworkProxyConstraintError) : Text :=
  "invalid value for ".toList ++ e.fieldName ++ ": ".toList ++ e.candidate.display ++ " (allowed ".toList ++
    e.allowed.display ++ ")".toList

def invalidValue (fieldName candidate allowed : String) : NetworkProxyConstraintError :=
  { fieldName := fieldName.toList, candidate := .text candidate.toList, allowed := .text allowed.toList }

abbrev Checked := Except NetworkProxyConstraintError Unit

def validateNonGlobalWildcardDomainPatterns (fieldName : String) (patterns : List Text) : Checked :=
  match patterns.find? (isGlobalWildcardDomainPattern L) with
  | some pattern => .error {
      fieldName := fieldName.toList
      candidate := .text (trim pattern)
      allowed := .text "exact hosts or scoped wildcards like *.example.com or **.example.com".toList }
  | none => .ok ()

/-- A setting that managed config may forbid to turn on. -/
def validateFlag (fieldName : String) (candidate allowed : Bool) : Checked :=
  if candidate ∧ !allowed then .error (invalidValue fieldName "true" "false (disabled by managed config)")
  else .ok ()

def networkModeRank : NetworkMode → Nat
  | .limited => 0
  | .full => 1

def NetworkMode.debug : NetworkMode → String
  | .limited => "Limited"
  | .full => "Full"

def validateMode (candidate : NetworkMode) : Option NetworkMode → Checked
  | none => .ok ()
  | some maxMode =>
    if networkModeRank maxMode < networkModeRank candidate then
      .error (invalidValue "network.mode" candidate.debug (maxMode.debug ++ " or more restrictive"))
    else .ok ()

/-- `entries.iter().map(to_ascii_lowercase).collect::<HashSet<_>>()`, as a list. -/
def lowercaseSet (entries : List Text) : List Text := entries.map toAsciiLowercase

def sameSet (left right : List Text) : Bool := left.all right.contains && right.all left.contains

/-- The missing entries in the order of the managed list; the source's set has none. -/
def validateManagedPresent (fieldName message : String) (required : List Text) (present : Text → Bool) : Checked :=
  let missing := (lowercaseSet required).dedup.filter fun entry => !present entry
  if missing.isEmpty then .ok ()
  else .error { fieldName := fieldName.toList, candidate := .text message.toList, allowed := .entries missing }

def validateAllowedDomains (allowed denied : List Text) (expansion : Option Bool) : Option (List Text) → Checked
  | none => .ok ()
  | some managed => do
    validateNonGlobalWildcardDomainPatterns L "network.allowed_domains" managed
    match expansion with
    | some true =>
      validateManagedPresent "network.allowed_domains" "missing managed allowed_domains entries" managed fun entry =>
        (lowercaseSet allowed).contains entry || (lowercaseSet denied).contains entry
    | some false =>
      if sameSet (lowercaseSet allowed) ((lowercaseSet managed).filter fun e => !(lowercaseSet denied).contains e) then .ok ()
      else .error {
        fieldName := "network.allowed_domains".toList
        candidate := .entries allowed
        allowed := .text "must match managed allowed_domains".toList }
    | none =>
      let managedPatterns := managed.map (DomainPattern.parseForConstraints L)
      let invalid := allowed.filter fun entry =>
        !managedPatterns.any (·.allows (DomainPattern.parseForConstraints L entry))
      if invalid.isEmpty then .ok ()
      else .error {
        fieldName := "network.allowed_domains".toList
        candidate := .entries invalid
        allowed := .text "subset of managed allowed_domains".toList }

def validateDeniedDomains (denied : List Text) (expansion : Option Bool) : Option (List Text) → Checked
  | none => .ok ()
  | some managed => do
    validateNonGlobalWildcardDomainPatterns L "network.denied_domains" managed
    match expansion with
    | some false =>
      if sameSet (lowercaseSet denied) (lowercaseSet managed) then .ok ()
      else .error {
        fieldName := "network.denied_domains".toList
        candidate := .entries denied
        allowed := .text "must match managed denied_domains".toList }
    | some true | none =>
      validateManagedPresent "network.denied_domains" "missing managed denied_domains entries" managed fun entry =>
        (lowercaseSet denied).contains entry

def validateUnixSockets (sockets : List Text) : Option (List Text) → Checked
  | none => .ok ()
  | some managed =>
    let invalid := sockets.filter fun entry => !(lowercaseSet managed).contains (toAsciiLowercase entry)
    if invalid.isEmpty then .ok ()
    else .error {
      fieldName := "network.allow_unix_sockets".toList
      candidate := .entries invalid
      allowed := .text "subset of managed allow_unix_sockets".toList }

def invalidMitmHookConfiguration (err : Text) : NetworkProxyConstraintError :=
  { fieldName := "network.mitm_hooks".toList, candidate := .text err, allowed := .text "valid MITM hook configuration".toList }

/-- What is checked besides the mode. -/
def validateRest (config : NetworkProxyConfig Hook) (constraints : NetworkProxyConstraints) : Checked := do
  validateFlag "network.allow_upstream_proxy" config.allowUpstreamProxy (constraints.allowUpstreamProxy.getD true)
  validateFlag "network.dangerously_allow_non_loopback_proxy" config.dangerouslyAllowNonLoopbackProxy
    (constraints.dangerouslyAllowNonLoopbackProxy.getD true)
  validateFlag "network.dangerously_allow_all_unix_sockets" config.dangerouslyAllowAllUnixSockets
    (constraints.dangerouslyAllowAllUnixSockets.getD constraints.allowUnixSockets.isNone)
  validateFlag "network.allow_local_binding" config.allowLocalBinding (constraints.allowLocalBinding.getD true)
  validateAllowedDomains L (config.allowedDomains.getD []) (config.deniedDomains.getD []) constraints.allowlistExpansionEnabled
    constraints.allowedDomains
  validateDeniedDomains L (config.deniedDomains.getD []) constraints.denylistExpansionEnabled constraints.deniedDomains
  validateUnixSockets config.allowUnixSockets constraints.allowUnixSockets

def validatePolicyAgainstConstraints (config : NetworkProxyConfig Hook) (constraints : NetworkProxyConstraints) : Checked := do
  (L.validateMitmHooks config.mitm config.mitmHooks).mapError invalidMitmHookConfiguration
  validateNonGlobalWildcardDomainPatterns L "network.denied_domains" (config.deniedDomains.getD [])
  validateFlag "network.enabled" config.enabled (constraints.enabled.getD true)
  validateMode config.mode constraints.mode
  validateRest L config constraints

/-! ## Runtime state -/

structure BlockedRequest where
  host : Text
  reason : Text
  client : Option Text
  method : Option Text
  mode : Option NetworkMode
  protocol : Text
  executionId : Option Text
  decision : Option Text
  source : Option Text
  port : Option Nat
  timestamp : Int
  deriving DecidableEq

structure ConfigState (Hook : Type) where
  config : NetworkProxyConfig Hook
  allowSet : GlobSet
  denySet : GlobSet
  constraints : NetworkProxyConstraints
  blocked : List BlockedRequest := []
  blockedTotal : Nat := 0

def validateUnixSocketAllowlistPaths (sockets : List Text) : Except Text Unit :=
  match sockets.findIdx? fun path => !startsWith path ['/'] with
  | some index => .error ("invalid network.allow_unix_sockets[".toList ++ (toString index).toList ++ [']'])
  | none => .ok ()

def validateCredentialBroker (config : NetworkProxyConfig Hook) : Except Text Unit :=
  if config.credentialBroker ∧ !config.mitm then .error "network.credential_broker requires network.mitm = true".toList
  else .ok ()

/-- `mitm` is what compiling the hooks, which reads secrets, and their state gave. -/
def buildConfigState (mitm : Except Text Unit) (config : NetworkProxyConfig Hook) (constraints : NetworkProxyConstraints) :
    Except Text (ConfigState Hook) := do
  validateUnixSocketAllowlistPaths config.allowUnixSockets
  validateCredentialBroker config
  (validateNonGlobalWildcardDomainPatterns L "network.denied_domains" (config.deniedDomains.getD [])).mapError
    NetworkProxyConstraintError.display
  let denySet ← compileDenylistGlobset L (config.deniedDomains.getD [])
  let allowSet ← compileAllowlistGlobset L (config.allowedDomains.getD [])
  mitm
  return { config, allowSet, denySet, constraints }

end Codex.NetworkProxy
