/-
The network proxy's runtime state: the calls that edit, reload and record into
it, interleaved at their awaits.

A call is a task that runs from one await to the next. Reading and writing the state wait
for its lock; `reload_if_needed`, which nearly every call begins with, waits for the
reloader. An edit writes its candidate only when the state it read is still there;
otherwise it begins again.

Source: network-proxy/src/runtime.rs.
-/
import Codex.Lib.BoundedQueue
import Codex.Lib.Runs
import Codex.NetworkPolicy

namespace Codex.NetworkProxy

open Text

variable {Hook : Type} [DecidableEq Hook] (L : Libraries Hook)

def maxBlockedEvents : Nat := 200

def u64Max : Nat := 2 ^ 64 - 1

/-! ## Decisions about hosts -/

inductive HostBlockReason where
  | denied
  | notAllowed
  | notAllowedLocal
  deriving DecidableEq

inductive HostBlockDecision where
  | allowed
  | blocked (reason : HostBlockReason)
  deriving DecidableEq

def globsetMatchesHostOrUnscoped (set : GlobSet) (host : Text) : Bool :=
  set.isMatch L host ||
    match unscopedIpLiteral L host with
    | some ip => set.isMatch L ip
    | none => false

def isLoopbackHost (host : Text) : Bool :=
  let host := (unscopedIpLiteral L host).getD host
  if host = "localhost".toList then true else ((L.parseIp host).map (·.isLoopback)).getD false

def isExplicitLocalAllowlisted (allowedDomains : List Text) (host : Text) : Bool :=
  allowedDomains.any fun pattern =>
    let pattern := trim pattern
    if pattern = ['*'] ∨ startsWith pattern starDot ∨ startsWith pattern doubleStarDot then false
    else if pattern.contains '*' || pattern.contains '?' then false
    else
      normalizeHost L pattern == host ||
        match unscopedIpLiteral L host with
        | some ip => normalizeHost L pattern == ip
        | none => false

/-- What `host_blocked` decides once the state is loaded. `resolvesNonPublic` is
what the host's address lookup found. -/
def hostBlocked (resolvesNonPublic : Bool) (state : ConfigState Hook) (input : Text) : HostBlockDecision :=
  match Host.parse L input with
  | none => .blocked .notAllowed
  | some host =>
    if globsetMatchesHostOrUnscoped L state.denySet host then .blocked .denied
    else
      let localLiteral :=
        isLoopbackHost L host || ((L.parseIp ((unscopedIpLiteral L host).getD host)).map (·.isNonPublic)).getD false
      if !state.config.allowLocalBinding && localLiteral &&
          !isExplicitLocalAllowlisted L (state.config.allowedDomains.getD []) host then .blocked .notAllowedLocal
      else if !state.config.allowLocalBinding && !localLiteral &&
          ((L.parseIp host).map (·.isNonPublic)).getD resolvesNonPublic then .blocked .notAllowedLocal
      else if state.config.allowedDomains.isNone || !globsetMatchesHostOrUnscoped L state.allowSet host then .blocked .notAllowed
      else .allowed

/-! ## Edits -/

inductive DomainListKind where
  | allow
  | deny
  deriving DecidableEq

namespace DomainListKind

def listName : DomainListKind → String
  | .allow => "allowlist"
  | .deny => "denylist"

def constraintField : DomainListKind → String
  | .allow => "network.allowed_domains"
  | .deny => "network.denied_domains"

def permission : DomainListKind → NetworkDomainPermission
  | .allow => .allow
  | .deny => .deny

def entries (config : NetworkProxyConfig Hook) : DomainListKind → List Text
  | .allow => config.allowedDomains.getD []
  | .deny => config.deniedDomains.getD []

def oppositeEntries (config : NetworkProxyConfig Hook) : DomainListKind → List Text
  | .allow => config.deniedDomains.getD []
  | .deny => config.allowedDomains.getD []

end DomainListKind

/-- An edit of the configuration; the host of a domain edit is normalized. -/
inductive Edit where
  | updateDomainList (host : Text) (target : DomainListKind)
  | setNetworkMode (mode : NetworkMode)
  deriving DecidableEq

def alreadyListed (config : NetworkProxyConfig Hook) (host : Text) (target : DomainListKind) : Bool :=
  (target.entries config).any (normalizeHost L · == host) && !(target.oppositeEntries config).any (normalizeHost L · == host)

/-- The candidate of an edit. -/
def Edit.apply (config : NetworkProxyConfig Hook) : Edit → NetworkProxyConfig Hook
  | .updateDomainList host target =>
    if alreadyListed L config host target then config
    else config.upsertDomainPermission host target.permission (normalizeHost L)
  | .setNetworkMode mode => { config with mode }

/-! ## Calls -/

inductive Call (Hook : Type) where
  | edit (edit : Edit)
  | recordBlocked (entry : BlockedRequest)
  | replaceConfigState (state : ConfigState Hook)
  | forceReload
  /-- what every reader of the state begins with -/
  | reloadIfNeeded

/-- What a task waits for. -/
inductive Stage (Hook : Type) where
  /-- `maybe_reload` -/
  | maybeReload
  /-- the read lock, with a new state -/
  | reloadRead (state : ConfigState Hook)
  /-- the write lock, with a new state that carries the buffer and the counter that were read -/
  | reloadWrite (state : ConfigState Hook)
  /-- the first lock of the call itself -/
  | ready
  /-- the write lock, to put in a compiled candidate -/
  | domainWrite (previous : NetworkProxyConfig Hook) (constraints : NetworkProxyConstraints) (state : ConfigState Hook)
  /-- the write lock, to set the mode -/
  | modeWrite (constraints : NetworkProxyConstraints)
  /-- the observer of blocked requests -/
  | observing
  /-- `reload_now` -/
  | reloadNow
  /-- the write lock, with the state `reload_now` gave -/
  | forceWrite (state : ConfigState Hook)
  | finished (result : Except Text Unit)

structure Task (Hook : Type) where
  call : Call Hook
  stage : Stage Hook

/-- What became part of the configuration, and by which task. -/
inductive Change (Hook : Type) where
  | edited (task : Nat) (edit : Edit)
  | loaded (config : NetworkProxyConfig Hook)

/-- The shared state, the tasks, and what happened: requests recorded and changes of the configuration, in order. -/
structure Proxy (Hook : Type) where
  state : ConfigState Hook
  credentialBroker : Bool
  tasks : List (Task Hook) := []
  recorded : List BlockedRequest := []
  changes : List (Change Hook) := []

/-- A proxy as it is made, with a state it is given. -/
def Proxy.launch (state : ConfigState Hook) : Proxy Hook := { state, credentialBroker := state.config.credentialBroker }

inductive Action (Hook : Type) where
  | addDomain (host : Text) (target : DomainListKind)
  | setNetworkMode (mode : NetworkMode)
  | recordBlocked (entry : BlockedRequest) (executionId : Option Text)
  | replaceConfigState (state : ConfigState Hook)
  | forceReload
  | reloadIfNeeded
  /-- the reloader answers -/
  | reloaderAnswers (task : Nat) (answer : Except Text (Option (ConfigState Hook)))
  /-- a task gets the lock it waits for; `mitm` is what compiling the MITM hooks gives then -/
  | proceed (task : Nat) (mitm : Except Text Unit)

namespace Proxy

variable (s : Proxy Hook)

def credentialBrokerError : Text := "network.credential_broker cannot change while the proxy is running".toList

def setStage (i : Nat) (t : Task Hook) (stage : Stage Hook) : Proxy Hook :=
  { s with tasks := s.tasks.set i { t with stage } }

def finish (i : Nat) (t : Task Hook) (result : Except Text Unit) : Proxy Hook := s.setStage i t (.finished result)

def spawn (call : Call Hook) (stage : Stage Hook) : Proxy Hook := { s with tasks := s.tasks ++ [{ call, stage }] }

/-- A new state comes in as it is. -/
def load (state : ConfigState Hook) : Proxy Hook :=
  { s with state, changes := s.changes ++ [.loaded state.config] }

/-- `ensure_credential_broker_enablement_unchanged` -/
def brokerUnchanged (state : ConfigState Hook) : Bool := s.credentialBroker == state.config.credentialBroker

/-- The candidate of a domain edit, from the state as it is read. -/
def readDomainList (i : Nat) (t : Task Hook) (host : Text) (target : DomainListKind) (mitm : Except Text Unit) : Proxy Hook :=
  let edit : Edit := .updateDomainList host target
  if alreadyListed L s.state.config host target then
    { s.finish i t (.ok ()) with changes := s.changes ++ [.edited i edit] }
  else
    let candidate := edit.apply L s.state.config
    match validatePolicyAgainstConstraints L candidate s.state.constraints with
    | .error _ => s.finish i t (.error (target.constraintField ++ " constrained by managed config").toList)
    | .ok () =>
      match buildConfigState L mitm candidate s.state.constraints with
      | .error _ => s.finish i t (.error ("failed to compile updated network " ++ target.listName).toList)
      | .ok state => s.setStage i t (.domainWrite s.state.config s.state.constraints
          { state with blocked := s.state.blocked, blockedTotal := s.state.blockedTotal })

def readMode (i : Nat) (t : Task Hook) (mode : NetworkMode) : Proxy Hook :=
  match validatePolicyAgainstConstraints L { s.state.config with mode } s.state.constraints with
  | .error _ => s.finish i t (.error "network.mode constrained by managed config".toList)
  | .ok () => s.setStage i t (.modeWrite s.state.constraints)

/-- `record_blocked` under the write lock. -/
def record (entry : BlockedRequest) : Proxy Hook :=
  { s with
    state := { s.state with
      blocked := BoundedQueue.popOver maxBlockedEvents (s.state.blocked ++ [entry])
      blockedTotal := min (s.state.blockedTotal + 1) u64Max }
    recorded := s.recorded ++ [entry] }

/-- The first lock a call takes once nothing is left to reload. -/
def proceedReady (i : Nat) (t : Task Hook) (mitm : Except Text Unit) : Proxy Hook :=
  match t.call with
  | .edit (.updateDomainList host target) => s.readDomainList L i t host target mitm
  | .edit (.setNetworkMode mode) => s.readMode L i t mode
  | .recordBlocked entry => (s.record entry).setStage i t .observing
  | .replaceConfigState state =>
    if s.brokerUnchanged state then
      (s.load { state with blocked := s.state.blocked, blockedTotal := s.state.blockedTotal }).finish i t (.ok ())
    else s.finish i t (.error credentialBrokerError)
  | .forceReload => s.setStage i t .reloadNow
  | .reloadIfNeeded => s.finish i t (.ok ())

def writeDomain (i : Nat) (t : Task Hook) (edit : Edit) (previous : NetworkProxyConfig Hook)
    (constraints : NetworkProxyConstraints) (state : ConfigState Hook) : Proxy Hook :=
  if s.state.constraints ≠ constraints ∨ s.state.config ≠ previous then s.setStage i t .maybeReload
  else { s.finish i t (.ok ()) with state, changes := s.changes ++ [.edited i edit] }

def writeMode (i : Nat) (t : Task Hook) (edit : Edit) (constraints : NetworkProxyConstraints) : Proxy Hook :=
  if s.state.constraints ≠ constraints then s.setStage i t .maybeReload
  else { s.finish i t (.ok ()) with
    state := { s.state with config := edit.apply L s.state.config }
    changes := s.changes ++ [.edited i edit] }

/-- A task gets the lock it waits for. -/
def proceed (i : Nat) (t : Task Hook) (mitm : Except Text Unit) : Proxy Hook :=
  match t.stage with
  | .ready => s.proceedReady L i t mitm
  | .reloadRead state =>
    s.setStage i t (.reloadWrite { state with blocked := s.state.blocked, blockedTotal := s.state.blockedTotal })
  | .reloadWrite state => (s.load state).setStage i t .ready
  | .domainWrite previous constraints state =>
    match t.call with
    | .edit edit => s.writeDomain i t edit previous constraints state
    | _ => s
  | .modeWrite constraints =>
    match t.call with
    | .edit edit => s.writeMode L i t edit constraints
    | _ => s
  | .observing => s.finish i t (.ok ())
  | .forceWrite state => (s.load { state with blocked := s.state.blocked }).finish i t (.ok ())
  | .maybeReload | .reloadNow | .finished _ => s

/-- The reloader answers a task that waits for it. `reload_now` always gives a state. -/
def reloaderAnswers (i : Nat) (t : Task Hook) (answer : Except Text (Option (ConfigState Hook))) : Proxy Hook :=
  match t.stage, answer with
  | .maybeReload, .error e => s.finish i t (.error e)
  | .maybeReload, .ok none => s.setStage i t .ready
  | .maybeReload, .ok (some state) =>
    if s.brokerUnchanged state then s.setStage i t (.reloadRead state) else s.finish i t (.error credentialBrokerError)
  | .reloadNow, .error e => s.finish i t (.error e)
  | .reloadNow, .ok (some state) =>
    if s.brokerUnchanged state then s.setStage i t (.forceWrite state) else s.finish i t (.error credentialBrokerError)
  | _, _ => s

def step (s : Proxy Hook) : Action Hook → Proxy Hook
  | .addDomain host target =>
    match Host.parse L host with
    | none => s.spawn (.edit (.updateDomainList host target)) (.finished (.error "invalid network host".toList))
    | some host => s.spawn (.edit (.updateDomainList host target)) .maybeReload
  | .setNetworkMode mode => s.spawn (.edit (.setNetworkMode mode)) .maybeReload
  | .recordBlocked entry executionId => s.spawn (.recordBlocked { entry with executionId }) .maybeReload
  | .replaceConfigState state => s.spawn (.replaceConfigState state) .maybeReload
  | .forceReload => s.spawn .forceReload .ready
  | .reloadIfNeeded => s.spawn .reloadIfNeeded .maybeReload
  | .reloaderAnswers i answer =>
    match s.tasks[i]? with
    | none => s
    | some t => s.reloaderAnswers i t answer
  | .proceed i mitm =>
    match s.tasks[i]? with
    | none => s
    | some t => s.proceed L i t mitm

end Proxy

end Codex.NetworkProxy
