/-
The network rules of an exec policy (`execpolicy/src/rule.rs`, `execpolicy/src/policy.rs`,
`execpolicy/src/parser.rs` and `execpolicy/src/amend.rs`): how a rule's host is normalized, how a rule is added
in memory and written to a rules file, and the domains the rules compile to.

Normalizing takes brackets or a port off once, then trailing dots, then spaces, so what
one part hid may come to light (`normalizeNetworkRuleHost_stable_iff`).
-/
import Codex.ExecPolicy
import Codex.NetworkPolicyFacts
import Codex.Lib.LastWrites
import Codex.Lib.MarkedList

namespace Codex.ExecPolicy

open Text
open NetworkProxy (toAsciiLowercase)

/-! ## Hosts -/

/-- `str::contains` of a text. -/
def containsText (pattern s : Text) : Bool := (splitOnce pattern s).isSome

/-- `str::rsplit_once` at a character. -/
def rsplitOnce (c : Char) (s : Text) : Option (Text × Text) :=
  (splitOnce [c] s.reverse).map fun parts => (parts.2.reverse, parts.1.reverse)

def isPort (port : Text) : Bool := !port.isEmpty && port.all Char.isDigit

/-- The host without its brackets or its port. -/
def stripPort (raw host : Text) : Except Text Text :=
  match stripStart ['['] host with
  | some stripped =>
    match splitOnce [']'] stripped with
    | none => .error "network_rule host has an invalid bracketed IPv6 literal".toList
    | some (inside, rest) =>
      let portOk := (stripStart [':'] rest).any isPort
      if !rest.isEmpty && !portOk then .error ("network_rule host contains an unsupported suffix: ".toList ++ raw)
      else .ok inside
  | none =>
    if host.count ':' = 1 then
      match rsplitOnce ':' host with
      | some (candidate, port) => .ok (if !candidate.isEmpty && isPort port then candidate else host)
      | none => .ok host
    else .ok host

def normalizeNetworkRuleHost (raw : Text) : Except Text Text :=
  let host := trim raw
  if host.isEmpty then .error "network_rule host cannot be empty".toList
  else if containsText "://".toList host || host.contains '/' || host.contains '?' || host.contains '#' then
    .error "network_rule host must be a hostname or IP literal (without scheme or path)".toList
  else do
    let host ← stripPort raw host
    let normalized := toAsciiLowercase (trim (host.rdropWhile (· == '.')))
    if normalized.isEmpty then .error "network_rule host cannot be empty".toList
    else if normalized.contains '*' then
      .error "network_rule host must be a specific host; wildcards are not allowed".toList
    else if normalized.any isWhitespace then .error "network_rule host cannot contain whitespace".toList
    else .ok normalized

/-! ## Rules in memory and in a file -/

def NetworkRuleProtocol.parse (raw : Text) : Except Text NetworkRuleProtocol :=
  if raw = "http".toList then .ok .http
  else if raw = "https".toList ∨ raw = "https_connect".toList ∨ raw = "http-connect".toList then .ok .https
  else if raw = "socks5_tcp".toList then .ok .socks5Tcp
  else if raw = "socks5_udp".toList then .ok .socks5Udp
  else .error ("network_rule protocol must be one of http, https, socks5_tcp, socks5_udp (got ".toList ++ raw ++ ")".toList)

def NetworkRuleProtocol.asPolicyString : NetworkRuleProtocol → Text
  | .http => "http".toList
  | .https => "https".toList
  | .socks5Tcp => "socks5_tcp".toList
  | .socks5Udp => "socks5_udp".toList

/-- `Decision::parse`, with the text of its `Error::InvalidDecision`. -/
def Decision.parse (raw : Text) : Except Text Decision :=
  if raw = "allow".toList then .ok .allow
  else if raw = "prompt".toList then .ok .prompt
  else if raw = "forbidden".toList then .ok .forbidden
  else .error raw

def parseNetworkRuleDecision (raw : Text) : Except Text Decision :=
  if raw = "deny".toList then .ok .forbidden else Decision.parse raw

def checkJustification (justification : Option Text) : Except Text Unit :=
  if justification.any fun raw => (trim raw).isEmpty then .error "justification cannot be empty".toList else .ok ()

/-- The rule that `add_network_rule` pushes. -/
def networkRule (host : Text) (protocol : NetworkRuleProtocol) (decision : Decision) (justification : Option Text) :
    Except Text NetworkRule := do
  let host ← normalizeNetworkRuleHost host
  checkJustification justification
  return { host, protocol, decision, justification }

def Policy.addNetworkRule (policy : Policy) (host : Text) (protocol : NetworkRuleProtocol) (decision : Decision)
    (justification : Option Text) : Except Text Policy := do
  let rule ← networkRule host protocol decision justification
  return { policy with networkRules := policy.networkRules ++ [rule] }

/-- The keyword arguments of a `network_rule` call. -/
structure NetworkRuleCall where
  host : Text
  protocol : Text
  decision : Text
  justification : Option Text
  deriving DecidableEq

/-- `serde_json::to_string` of a text, and how Starlark reads a line with a `network_rule` call. -/
structure RuleCodec where
  toJson : Text → Text
  readCall : Text → Option NetworkRuleCall

def decisionWord : Decision → Text
  | .allow => "allow".toList
  | .prompt => "prompt".toList
  | .forbidden => "deny".toList

/-- `network_rule({})` around its arguments. -/
def RuleCodec.writeCall (codec : RuleCodec) (call : NetworkRuleCall) : Text :=
  let args := ["host=".toList ++ codec.toJson call.host, "protocol=".toList ++ codec.toJson call.protocol,
    "decision=".toList ++ codec.toJson call.decision] ++
    (call.justification.map fun justification => "justification=".toList ++ codec.toJson justification).toList
  "network_rule(".toList ++ List.intercalate ", ".toList args ++ ")".toList

/-- The line that `blocking_append_network_rule` appends. -/
def networkRuleLine (codec : RuleCodec) (host : Text) (protocol : NetworkRuleProtocol) (decision : Decision)
    (justification : Option Text) : Except Text Text := do
  let host ← normalizeNetworkRuleHost host
  checkJustification justification
  return codec.writeCall { host, protocol := protocol.asPolicyString, decision := decisionWord decision, justification }

/-- The rule that a line with a call adds when the file is loaded (`network_rule` of `parser.rs`). -/
def loadNetworkRule (codec : RuleCodec) (line : Text) : Option (Except Text NetworkRule) :=
  (codec.readCall line).map fun call => do
    let protocol ← NetworkRuleProtocol.parse call.protocol
    let decision ← parseNetworkRuleDecision call.decision
    checkJustification call.justification
    let host ← normalizeNetworkRuleHost call.host
    return { host, protocol, decision, justification := call.justification }

/-! ## Domains -/

def upsertDomain (entries : List Text) (host : Text) : List Text := entries.filter (· != host) ++ [host]

def compileDomain (domains : List Text × List Text) (rule : NetworkRule) : List Text × List Text :=
  match rule.decision with
  | .allow => (upsertDomain domains.1 rule.host, domains.2.filter (· != rule.host))
  | .forbidden => (domains.1.filter (· != rule.host), upsertDomain domains.2 rule.host)
  | .prompt => domains

/-- The allowed and the denied domains. -/
def Policy.compiledNetworkDomains (policy : Policy) : List Text × List Text :=
  policy.networkRules.foldl compileDomain ([], [])

/-- The decision of the last rule for a host that is not a prompt. -/
def lastDecision (rules : List NetworkRule) (host : Text) : Option Decision :=
  LastWrites.last (fun rule : NetworkRule =>
    if rule.host = host ∧ rule.decision ≠ .prompt then some rule.decision else none) rules

/-- What the lists say of a host. -/
def listed (host : Text) (domains : List Text × List Text) : Option Decision :=
  if host ∈ domains.1 then some .allow else if host ∈ domains.2 then some .forbidden else none

structure DomainsApart (domains : List Text × List Text) : Prop where
  allowed : domains.1.Nodup
  denied : domains.2.Nodup
  apart : domains.1.Disjoint domains.2

variable {host : Text}

theorem mem_upsertDomain {entries} {entry : Text} :
    entry ∈ upsertDomain entries host ↔ entry ∈ entries ∨ entry = host := by
  rw [upsertDomain, List.mem_append, List.mem_filter, List.mem_singleton, bne_iff_ne]
  by_cases h : entry = host <;> simp [h]

theorem nodup_upsertDomain {entries} (h : entries.Nodup) (host : Text) : (upsertDomain entries host).Nodup := by
  rw [upsertDomain, List.nodup_append]
  refine ⟨h.filter _, List.nodup_singleton host, fun entry hentry other hother => ?_⟩
  rw [List.mem_filter, bne_iff_ne] at hentry
  rw [List.mem_singleton.1 hother]
  exact hentry.2

theorem DomainsApart.compile {domains} (h : DomainsApart domains) (rule : NetworkRule) :
    DomainsApart (compileDomain domains rule) := by
  have hkept : ∀ (moved other : List Text), moved.Disjoint other →
      (upsertDomain moved rule.host).Disjoint (other.filter (· != rule.host)) := by
    intro moved other hapart entry hmoved hother
    rw [List.mem_filter, bne_iff_ne] at hother
    rcases mem_upsertDomain.1 hmoved with hentry | heq
    · exact hapart hentry hother.1
    · exact hother.2 heq
  unfold compileDomain
  split
  · exact ⟨nodup_upsertDomain h.allowed _, h.denied.filter _, hkept _ _ h.apart⟩
  · exact ⟨h.allowed.filter _, nodup_upsertDomain h.denied _, (hkept _ _ h.apart.symm).symm⟩
  · exact h

theorem listed_compileDomain (domains : List Text × List Text) (rule : NetworkRule) (host : Text) :
    listed host (compileDomain domains rule) =
      (if rule.host = host ∧ rule.decision ≠ .prompt then some rule.decision else none).or (listed host domains) := by
  unfold compileDomain listed
  by_cases heq : rule.host = host
  · subst heq
    cases hdecision : rule.decision with
    | allow => simp [mem_upsertDomain]
    | forbidden => simp [mem_upsertDomain]
    | prompt => simp
  · cases hdecision : rule.decision with
    | allow => simp [mem_upsertDomain, heq, Ne.symm heq]
    | forbidden => simp [mem_upsertDomain, heq, Ne.symm heq]
    | prompt => simp [heq]

theorem compiledNetworkDomains_lastRule (policy : Policy) :
    DomainsApart policy.compiledNetworkDomains ∧ ∀ host,
      (host ∈ policy.compiledNetworkDomains.1 ↔ lastDecision policy.networkRules host = some .allow) ∧
        (host ∈ policy.compiledNetworkDomains.2 ↔ lastDecision policy.networkRules host = some .forbidden) := by
  have hapart : DomainsApart policy.compiledNetworkDomains :=
    List.foldlRecOn policy.networkRules compileDomain ⟨List.nodup_nil, List.nodup_nil, by simp⟩
      fun domains h rule _ => h.compile rule
  refine ⟨hapart, fun host => ?_⟩
  have hlisted : listed host policy.compiledNetworkDomains = lastDecision policy.networkRules host := by
    unfold Policy.compiledNetworkDomains lastDecision
    induction policy.networkRules using List.reverseRecOn with
    | nil => rfl
    | append_singleton rules rule ih => rw [List.foldl_concat, listed_compileDomain, ih, LastWrites.last_concat]
  rw [← hlisted, listed]
  by_cases hallowed : host ∈ policy.compiledNetworkDomains.1
  · have hdenied : host ∉ policy.compiledNetworkDomains.2 := hapart.apart hallowed
    simp [hallowed, hdenied]
  · simp [hallowed]

/-! ## What is left of a host -/

/-- A host and its port behind the only colon. -/
def HostPort (s name port : Text) : Prop := s = name ++ ':' :: port ∧ name ≠ [] ∧ ':' ∉ name ∧ isPort port = true

/-- The text that stands for the host: between the brackets, before the port, or all there is. -/
inductive HostText (raw : Text) : Text → Prop where
  | bracketed {inside rest : Text} (h : trim raw = '[' :: inside ++ ']' :: rest) (hinside : ']' ∉ inside) : HostText raw inside
  | port {name port : Text} (h : HostPort (trim raw) name port) (hhead : (trim raw).head? ≠ some '[') : HostText raw name
  | whole (h : ∀ name port, ¬ HostPort (trim raw) name port) (hhead : (trim raw).head? ≠ some '[') : HostText raw (trim raw)

/-- Dots and spaces in the order they are taken off the end. -/
structure Ending (spaces dots : Text) : Prop where
  spaces : ∀ c ∈ spaces, isWhitespace c = true
  dots : ∀ c ∈ dots, c = '.'

/-- Nothing comes to light when the ending and the spaces in front are taken off. -/
structure Settles (host : Text) : Prop where
  bracket : (trimStart host).head? ≠ some '['
  dot : ∀ name spaces dots, Ending spaces dots → host = name ++ '.' :: (spaces ++ dots) → spaces = []
  port : ∀ name port spaces dots, Ending spaces dots → ':' ∉ name → isPort port = true →
    host = name ++ ':' :: port ++ (spaces ++ dots) → trimStart name = []

variable {c : Char} {s : Text}

theorem splitOnce_singleton {before after : Text} :
    splitOnce [c] s = some (before, after) ↔ s = before ++ c :: after ∧ c ∉ before := by
  induction s generalizing before with
  | nil => simp [splitOnce]
  | cons x s ih =>
    have hstart : startsWith (x :: s) [c] = (c == x) := by simp [startsWith, List.isPrefixOf]
    rw [splitOnce, hstart]
    by_cases hx : c = x
    · subst hx
      rw [if_pos (beq_self_eq_true c)]
      cases before with
      | nil => simp
      | cons y before =>
        constructor
        · intro h
          cases h
        · intro h
          refine absurd ?_ h.2
          rw [(List.cons.inj h.1).1]
          exact List.mem_cons_self
    · rw [if_neg (by rwa [beq_iff_eq])]
      cases before with
      | nil => simp [Ne.symm hx]
      | cons y before =>
        have hrest := @ih before
        simp only [Option.map_eq_some_iff, Prod.exists, Prod.mk.injEq, List.cons.injEq, List.cons_append, List.mem_cons,
          not_or]
        constructor
        · rintro ⟨a, b, hsplit, ⟨rfl, rfl⟩, rfl⟩
          exact ⟨⟨rfl, (hrest.1 hsplit).1⟩, hx, (hrest.1 hsplit).2⟩
        · rintro ⟨⟨rfl, hs⟩, -, hnot⟩
          exact ⟨before, after, hrest.2 ⟨hs, hnot⟩, ⟨rfl, rfl⟩, rfl⟩

theorem rsplitOnce_eq {before after : Text} :
    rsplitOnce c s = some (before, after) ↔ s = before ++ c :: after ∧ c ∉ after := by
  have hreverse : s.reverse = after.reverse ++ c :: before.reverse ↔ s = before ++ c :: after := by
    rw [List.reverse_eq_iff]
    simp
  rw [← hreverse, ← List.mem_reverse, ← splitOnce_singleton, rsplitOnce, Option.map_eq_some_iff]
  constructor
  · rintro ⟨parts, hparts, heq⟩
    obtain ⟨rfl, rfl⟩ := Prod.mk.inj heq
    rwa [List.reverse_reverse, List.reverse_reverse]
  · intro h
    exact ⟨_, h, by rw [List.reverse_reverse, List.reverse_reverse]⟩

theorem not_mem_of_isPort {port : Text} (h : isPort port = true) (hc : c.isDigit = false) : c ∉ port := by
  intro hmem
  rw [isPort, Bool.and_eq_true, List.all_eq_true] at h
  exact absurd (h.2 c hmem) (by rw [hc]; exact Bool.false_ne_true)

theorem not_whitespace_of_isDigit {d : Char} (h : d.isDigit = true) : isWhitespace d = false := by
  have hd : 48 ≤ d.toNat ∧ d.toNat ≤ 57 := by
    rw [Char.isDigit, Bool.and_eq_true, decide_eq_true_eq, decide_eq_true_eq] at h
    exact h
  simp [isWhitespace]
  omega

theorem ne_dot_of_isDigit {d : Char} (h : d.isDigit = true) : d ≠ '.' := by
  rintro rfl
  exact absurd h (by decide)

/-- The only colon is where a port begins. -/
theorem rsplit_port {name port : Text} :
    HostPort s name port ↔ s.count ':' = 1 ∧ rsplitOnce ':' s = some (name, port) ∧ name ≠ [] ∧ isPort port = true := by
  rw [rsplitOnce_eq]
  constructor
  · rintro ⟨rfl, hname, hcolon, hport⟩
    have hnot := not_mem_of_isPort hport (c := ':') (by decide)
    refine ⟨?_, ⟨rfl, hnot⟩, hname, hport⟩
    rw [List.count_append, List.count_cons_self, List.count_eq_zero.2 hcolon, List.count_eq_zero.2 hnot]
  · rintro ⟨hcount, ⟨rfl, hnot⟩, hname, hport⟩
    rw [List.count_append, List.count_cons_self, List.count_eq_zero.2 hnot] at hcount
    exact ⟨rfl, hname, List.count_eq_zero.1 (by omega), hport⟩

theorem stripStart_singleton {rest : Text} : stripStart [c] s = some rest ↔ s = c :: rest := by
  cases s with
  | nil => simp [stripStart]
  | cons x s =>
    rw [stripStart]
    by_cases hx : c = x
    · simp [List.isPrefixOf, hx]
    · simp [List.isPrefixOf, hx, Ne.symm hx]

variable {raw : Text}

theorem stripPort_hostText (h : stripPort raw (trim raw) = .ok host) : HostText raw host := by
  unfold stripPort at h
  split at h
  next stripped hstripped =>
    have htrim := stripStart_singleton.1 hstripped
    split at h
    next => cases h
    next inside rest hsplit =>
      dsimp only at h
      split at h
      · cases h
      cases h
      obtain ⟨rfl, hinside⟩ := splitOnce_singleton.1 hsplit
      exact .bracketed htrim hinside
  next hnone =>
    have hhead : (trim raw).head? ≠ some '[' := by
      intro hhead
      obtain ⟨rest, hrest⟩ := List.head?_eq_some_iff.1 hhead
      exact absurd (stripStart_singleton.2 hrest) (by rw [hnone]; exact nofun)
    split at h
    next hcount =>
      split at h
      next name port hsplit =>
        cases h
        split
        next hport =>
          rw [Bool.and_eq_true, Bool.not_eq_true', List.isEmpty_eq_false_iff] at hport
          exact .port (rsplit_port.2 ⟨hcount, hsplit, hport⟩) hhead
        next hport =>
          refine .whole (fun name' port' h' => hport ?_) hhead
          obtain ⟨-, hsplit', hname, hdigits⟩ := rsplit_port.1 h'
          obtain ⟨rfl, rfl⟩ := Prod.mk.inj (Option.some.inj (hsplit.symm.trans hsplit'))
          rw [Bool.and_eq_true, Bool.not_eq_true', List.isEmpty_eq_false_iff]
          exact ⟨hname, hdigits⟩
      next hnosplit =>
        cases h
        exact .whole (fun name' port' h' => absurd (rsplit_port.1 h').2.1 (by rw [hnosplit]; exact nofun)) hhead
    next hcount =>
      cases h
      exact .whole (fun name' port' h' => hcount (rsplit_port.1 h').1) hhead

/-! ## Trimming -/

theorem trimStart_append_cons (name : Text) (hc : isWhitespace c = false) (rest : Text) :
    trimStart (name ++ c :: rest) = trimStart name ++ c :: rest := by
  unfold trimStart
  rw [List.dropWhile_append, List.dropWhile_cons_of_neg (by rw [hc]; exact Bool.false_ne_true)]
  split
  next hnil => rw [List.isEmpty_iff.1 hnil, List.nil_append]
  next => rfl

theorem trim_ending {spaces dots name : Text} (hend : Ending spaces dots) (hc : isWhitespace c = false)
    (hdot : spaces = [] → c ≠ '.') : trim ((name ++ c :: (spaces ++ dots)).rdropWhile (· == '.')) = trimStart name ++ [c] := by
  have hkept : (name ++ c :: spaces).rdropWhile (· == '.') = name ++ c :: spaces := by
    refine List.rdropWhile_eq_self_iff.2 fun hne => ?_
    rcases List.eq_nil_or_concat spaces with rfl | ⟨spaces, d, rfl⟩
    · simpa using hdot rfl
    · have hd := hend.spaces d (by simp)
      have hlast : (name ++ c :: spaces.concat d).getLast hne = d := by simp
      rw [hlast, beq_iff_eq]
      rintro rfl
      exact absurd hd (by decide)
  rw [← List.cons_append, ← List.append_assoc, MarkedList.rdropWhile_append_of_all fun d hd => beq_iff_eq.2 (hend.dots d hd),
    hkept, trim, trimStart_append_cons name hc, ← List.singleton_append, ← List.append_assoc, trimEnd,
    MarkedList.rdropWhile_append_of_all hend.spaces, List.rdropWhile_concat_neg _ _ _ (by rw [hc]; exact Bool.false_ne_true)]

/-- The parts that trimming takes off. -/
theorem exists_ending (hne : trim (host.rdropWhile (· == '.')) ≠ []) :
    ∃ lead spaces dots, host = lead ++ trim (host.rdropWhile (· == '.')) ++ (spaces ++ dots) ∧
      (∀ c ∈ lead, isWhitespace c = true) ∧ Ending spaces dots ∧
      (spaces = [] → (trim (host.rdropWhile (· == '.'))).getLast? ≠ some '.') := by
  obtain ⟨dots, hdots, halldots⟩ := MarkedList.exists_rdropWhile_append (· == '.') host
  generalize hkept : host.rdropWhile (· == '.') = kept at hdots hne ⊢
  obtain ⟨spaces, hspaces, hallspaces⟩ := MarkedList.exists_rdropWhile_append isWhitespace (trimStart kept)
  have hlead : kept = kept.takeWhile isWhitespace ++ trimStart kept := (List.takeWhile_append_dropWhile).symm
  have hsplit : kept = kept.takeWhile isWhitespace ++ trim kept ++ spaces := by
    rw [List.append_assoc]
    exact hlead.trans (congrArg _ hspaces)
  refine ⟨kept.takeWhile isWhitespace, spaces, dots, ?_, fun c hc => List.mem_takeWhile_imp hc,
    ⟨hallspaces, fun c hc => beq_iff_eq.1 (halldots c hc)⟩, fun hnil hlast => ?_⟩
  · rw [← List.append_assoc, ← hsplit]
    exact hdots
  · rw [hnil, List.append_nil] at hsplit
    have hkeptlast : kept.getLast? = some '.' := by
      rw [hsplit, List.getLast?_append, hlast]
      rfl
    have hself : kept.rdropWhile (· == '.') = kept := by
      rw [← hkept]
      exact List.rdropWhile_idempotent _ _
    rw [List.getLast?_eq_some_iff] at hkeptlast
    obtain ⟨front, rfl⟩ := hkeptlast
    rw [List.rdropWhile_concat_pos _ _ _ (by decide)] at hself
    have hlength := congrArg List.length hself
    have hle := (List.rdropWhile_prefix (· == '.') front).length_le
    rw [List.length_append, List.length_singleton] at hlength
    omega

theorem settles_iff (hne : trim (host.rdropWhile (· == '.')) ≠ [])
    (hspace : ∀ c ∈ trim (host.rdropWhile (· == '.')), isWhitespace c = false) :
    Settles host ↔ (trim (host.rdropWhile (· == '.'))).head? ≠ some '[' ∧
      (trim (host.rdropWhile (· == '.'))).getLast? ≠ some '.' ∧
      ∀ name port, ¬ HostPort (trim (host.rdropWhile (· == '.'))) name port := by
  obtain ⟨lead, spaces, dots, hhost, hlead, hend, hlast⟩ := exists_ending hne
  generalize hcore : trim (host.rdropWhile (· == '.')) = core at hne hspace hhost hlast ⊢
  have hstart : (trimStart host).head? = core.head? := by
    cases core with
    | nil => exact absurd rfl hne
    | cons c core =>
      rw [hhost, List.append_assoc, List.cons_append, trimStart_append_cons _ (hspace c List.mem_cons_self)]
      have hnil : trimStart lead = [] := List.dropWhile_eq_nil_iff.2 hlead
      rw [hnil]
      rfl
  constructor
  · intro h
    refine ⟨hstart ▸ h.bracket, fun hdot => ?_, fun name port hport => ?_⟩
    · obtain ⟨name, rfl⟩ := List.getLast?_eq_some_iff.1 hdot
      exact hlast (h.dot (lead ++ name) spaces dots hend (by rw [hhost]; simp)) hdot
    · obtain ⟨rfl, hname, hcolon, hdigits⟩ := hport
      have hnil := h.port (lead ++ name) port spaces dots hend
        (by
          rw [List.mem_append]
          rintro (hmem | hmem)
          · exact absurd (hlead _ hmem) (by decide)
          · exact hcolon hmem)
        hdigits (by rw [hhost]; simp)
      obtain ⟨c, rest, rfl⟩ := List.exists_cons_of_ne_nil hname
      rw [trimStart_append_cons _ (hspace c (by simp))] at hnil
      exact absurd hnil (by simp)
  · rintro ⟨hbracket, hdot, hport⟩
    refine ⟨hstart ▸ hbracket, fun name spaces dots hend heq => ?_, fun name port spaces dots hend hcolon hdigits heq => ?_⟩
    · by_contra hspaces
      rw [heq, trim_ending hend (by decide) fun h => absurd h hspaces] at hcore
      exact hdot (by rw [← hcore]; simp)
    · by_contra hname
      rcases List.eq_nil_or_concat port with rfl | ⟨digits, d, rfl⟩
      · cases hdigits
      have hd : d.isDigit = true := by
        rw [isPort, Bool.and_eq_true, List.all_eq_true] at hdigits
        exact hdigits.2 d (by simp)
      rw [show host = (name ++ ':' :: digits) ++ d :: (spaces ++ dots) by rw [heq]; simp,
        trim_ending hend (not_whitespace_of_isDigit hd) (fun _ => ne_dot_of_isDigit hd),
        trimStart_append_cons name (by decide)] at hcore
      refine hport (trimStart name) (digits.concat d) ⟨by rw [← hcore]; simp, hname, fun hmem => ?_, hdigits⟩
      exact hcolon ((List.dropWhile_suffix _).subset hmem)

/-! ## Lower case -/

theorem isDigit_toLower (c : Char) : c.toLower.isDigit = c.isDigit := by
  have hdigit : ∀ c : Char, c.isDigit = decide (48 ≤ c.toNat ∧ c.toNat ≤ 57) := by
    intro c
    rw [Char.isDigit, Bool.decide_and]
    rfl
  rw [hdigit, hdigit, decide_eq_decide, NetworkProxy.toNat_toLower]
  split <;> omega

theorem isPort_lowercase (port : Text) : isPort (toAsciiLowercase port) = isPort port := by
  unfold isPort toAsciiLowercase
  rw [List.all_map, List.isEmpty_map]
  congr 2
  exact funext isDigit_toLower

theorem hostPort_lowercase (s : Text) :
    (∃ name port, HostPort (toAsciiLowercase s) name port) ↔ ∃ name port, HostPort s name port := by
  constructor
  · rintro ⟨name, port, heq, hname, hcolon, hdigits⟩
    obtain ⟨name', rest, rfl, rfl, hrest⟩ := List.map_eq_append_iff.1 heq
    obtain ⟨c, port', rfl, hc, rfl⟩ := List.map_eq_cons_iff.1 hrest
    obtain rfl := (NetworkProxy.toLower_eq_iff (by decide)).1 hc
    exact ⟨name', port', rfl, fun hnil => hname (by rw [hnil]; rfl), fun h => hcolon ((NetworkProxy.mem_lowercase (by decide)).2 h),
      (isPort_lowercase port').symm.trans hdigits⟩
  · rintro ⟨name, port, rfl, hname, hcolon, hdigits⟩
    refine ⟨toAsciiLowercase name, toAsciiLowercase port, by simp [toAsciiLowercase], ?_, ?_, ?_⟩
    · exact fun hnil => hname (List.map_eq_nil_iff.1 hnil)
    · exact fun h => hcolon ((NetworkProxy.mem_lowercase (by decide)).1 h)
    · rw [isPort_lowercase, hdigits]

/-! ## Normalizing again -/

/-- What every normalized host is. -/
structure Normal (n : Text) : Prop where
  nonempty : n ≠ []
  star : '*' ∉ n
  spaces : ∀ c ∈ n, isWhitespace c = false
  path : ∀ c ∈ n, c ≠ '/' ∧ c ≠ '?' ∧ c ≠ '#'
  lower : toAsciiLowercase n = n

theorem length_trim_le (s : Text) : (trim s).length ≤ s.length :=
  (List.rdropWhile_prefix _ _).length_le.trans (List.dropWhile_suffix _).length_le

theorem trim_subset : trim s ⊆ s := fun _ hc =>
  (List.dropWhile_suffix _).subset ((List.rdropWhile_prefix _ _).subset hc)

theorem HostText.subset (h : HostText raw host) : host ⊆ trim raw := by
  cases h with
  | bracketed h _ =>
    rw [h]
    intro c hc
    simp [hc]
  | port h _ =>
    obtain ⟨h, -⟩ := h
    rw [h]
    exact List.subset_append_left _ _
  | whole => exact List.Subset.refl _

variable {n : Text}

theorem normalizeNetworkRuleHost_ok (h : normalizeNetworkRuleHost raw = .ok n) :
    Normal n ∧ ∃ host, HostText raw host ∧ n = toAsciiLowercase (trim (host.rdropWhile (· == '.'))) := by
  unfold normalizeNetworkRuleHost at h
  dsimp only at h
  split at h
  · cases h
  split at h
  · cases h
  next hpath =>
    obtain ⟨host, hhost, h⟩ := Results.bind_eq_ok.1 h
    have htext := stripPort_hostText hhost
    split at h
    · cases h
    next hempty =>
      split at h
      · cases h
      next hstar =>
        split at h
        · cases h
        next hspaces =>
          cases h
          refine ⟨?_, host, htext, rfl⟩
          rw [List.isEmpty_iff] at hempty
          rw [List.contains_iff_mem] at hstar
          rw [Bool.not_eq_true, List.any_eq_false] at hspaces
          refine ⟨hempty, hstar, fun c hc => Bool.eq_false_iff.2 (hspaces c hc), fun c hc => ?_, NetworkProxy.toAsciiLowercase_idem _⟩
          rw [Bool.not_eq_true, Bool.or_eq_false_iff, Bool.or_eq_false_iff, Bool.or_eq_false_iff] at hpath
          have hin : ∀ d : Char, d.toNat < 65 → (trim raw).contains d = false → c ≠ d := by
            rintro d hd hnot rfl
            have hmem := (NetworkProxy.mem_lowercase (.inl hd)).1 hc
            rw [← Bool.not_eq_true, List.contains_iff_mem] at hnot
            exact hnot (htext.subset ((List.rdropWhile_prefix _ _).subset (trim_subset hmem)))
          exact ⟨hin _ (by decide) hpath.1.1.2, hin _ (by decide) hpath.1.2, hin _ (by decide) hpath.2⟩

theorem Normal.trim (h : Normal n) : trim n = n := by
  have hstart : trimStart n = n := by
    obtain ⟨c, rest, rfl⟩ := List.exists_cons_of_ne_nil h.nonempty
    exact List.dropWhile_cons_of_neg (by rw [h.spaces c List.mem_cons_self]; exact Bool.false_ne_true)
  rw [Text.trim, hstart]
  refine List.rdropWhile_eq_self_iff.2 fun hne => ?_
  rw [h.spaces _ (List.getLast_mem hne)]
  exact Bool.false_ne_true

theorem Normal.containsText {pattern : Text} (h : Normal n) (hpattern : '/' ∈ pattern) : containsText pattern n = false := by
  rw [ExecPolicy.containsText, Option.isSome_eq_false_iff, Option.isNone_iff_eq_none]
  by_contra hne
  obtain ⟨parts, hparts⟩ := Option.ne_none_iff_exists'.1 hne
  have heq := splitOnce_eq hparts
  exact (h.path '/' (by rw [heq]; simp [hpattern])).1 rfl

/-- A normal host stays as it is where it reads as no other. -/
theorem normalize_normal (h : Normal n) : normalizeNetworkRuleHost n = .ok n ↔
      n.head? ≠ some '[' ∧ n.getLast? ≠ some '.' ∧ ∀ name port, ¬ HostPort n name port := by
  constructor
  · intro hok
    obtain ⟨-, host, htext, heq⟩ := normalizeNetworkRuleHost_ok hok
    have hle : n.length ≤ (host.rdropWhile (· == '.')).length := by
      rw [heq, toAsciiLowercase, List.length_map]
      exact length_trim_le _
    have hdots := (List.rdropWhile_prefix (· == '.') host).length_le
    cases htext with
    | bracketed hbracket _ =>
      rw [h.trim] at hbracket
      have hlength := congrArg List.length hbracket
      simp only [List.cons_append, List.length_cons, List.length_append] at hlength
      omega
    | port hport _ =>
      obtain ⟨hport, -⟩ := hport
      rw [h.trim] at hport
      have hlength := congrArg List.length hport
      simp only [List.length_cons, List.length_append] at hlength
      omega
    | whole hport hhead =>
      rw [h.trim] at hport hhead hle
      refine ⟨hhead, fun hdot => ?_, hport⟩
      obtain ⟨front, rfl⟩ := List.getLast?_eq_some_iff.1 hdot
      rw [List.rdropWhile_concat_pos _ _ _ (by decide)] at hle
      have hfront := (List.rdropWhile_prefix (· == '.') front).length_le
      rw [List.length_append, List.length_singleton] at hle
      omega
  · rintro ⟨hhead, hdot, hport⟩
    have hstrip : stripPort n n = .ok n := by
      unfold stripPort
      split
      next stripped hstripped => exact absurd (by rw [stripStart_singleton.1 hstripped]; rfl) hhead
      next =>
        split
        next hcount =>
          split
          next name port hsplit =>
            rw [if_neg]
            intro hboth
            rw [Bool.and_eq_true, Bool.not_eq_true', List.isEmpty_eq_false_iff] at hboth
            exact hport name port (rsplit_port.2 ⟨hcount, hsplit, hboth⟩)
          next => rfl
        next => rfl
    have hdots : n.rdropWhile (· == '.') = n := by
      refine List.rdropWhile_eq_self_iff.2 fun hne hlast => hdot ?_
      rw [List.getLast?_eq_some_getLast hne, beq_iff_eq.1 hlast]
    have hnot : ∀ d, d ∉ n → n.contains d = false := fun d hd => by simpa using hd
    have hspaces : n.any isWhitespace = false := List.any_eq_false.2 fun c hc => by rw [h.spaces c hc]; exact Bool.false_ne_true
    unfold normalizeNetworkRuleHost
    dsimp only
    rw [h.trim, h.containsText (by decide), hnot '/' fun hc => (h.path _ hc).1 rfl, hnot '?' fun hc => (h.path _ hc).2.1 rfl,
      hnot '#' fun hc => (h.path _ hc).2.2 rfl, hstrip]
    simp [bind, Except.bind, hdots, h.trim, h.lower, h.nonempty, h.star, hspaces]

theorem HostText.unique {host' : Text} (h : HostText raw host) (h' : HostText raw host') : host = host' := by
  cases h with
  | bracketed htrim hinside =>
    cases h' with
    | bracketed htrim' hinside' =>
      have heq := List.cons.inj (htrim.symm.trans htrim')
      have hsplit := (splitOnce_singleton.2 ⟨heq.2, hinside'⟩).symm.trans (splitOnce_singleton.2 ⟨rfl, hinside⟩)
      exact (congrArg Prod.fst (Option.some.inj hsplit)).symm
    | port _ hhead => exact absurd (by rw [htrim]; rfl) hhead
    | whole _ hhead => exact absurd (by rw [htrim]; rfl) hhead
  | port hport hhead =>
    cases h' with
    | bracketed htrim _ => exact absurd (by rw [htrim]; rfl) hhead
    | port hport' _ =>
      have hsplit := (rsplit_port.1 hport).2.1
      have hsplit' := (rsplit_port.1 hport').2.1
      exact congrArg Prod.fst (Option.some.inj (hsplit.symm.trans hsplit'))
    | whole hnot _ => exact absurd hport (hnot _ _)
  | whole hnot hhead =>
    cases h' with
    | bracketed htrim _ => exact absurd (by rw [htrim]; rfl) hhead
    | port hport _ => exact absurd hport (hnot _ _)
    | whole => rfl

def NormalizesOnce (raw : Text) : Prop := ∀ host, HostText raw host → Settles host

theorem normalizeNetworkRuleHost_iff (h : normalizeNetworkRuleHost raw = .ok n) :
    normalizeNetworkRuleHost n = .ok n ↔ NormalizesOnce raw := by
  obtain ⟨hnormal, host, htext, heq⟩ := normalizeNetworkRuleHost_ok h
  have hcore : trim (host.rdropWhile (· == '.')) ≠ [] := by
    intro hnil
    rw [hnil] at heq
    exact hnormal.nonempty heq
  have hspace : ∀ c ∈ trim (host.rdropWhile (· == '.')), isWhitespace c = false := by
    intro c hc
    rw [← NetworkProxy.isWhitespace_toLower]
    exact hnormal.spaces _ (by rw [heq]; exact List.mem_map_of_mem hc)
  have honce : NormalizesOnce raw ↔ Settles host :=
    ⟨fun honce => honce host htext, fun hsettles host' htext' => htext.unique htext' ▸ hsettles⟩
  have hports : (∀ name port, ¬ HostPort n name port) ↔
      ∀ name port, ¬ HostPort (trim (host.rdropWhile (· == '.'))) name port := by
    simpa only [not_exists, ← heq] using not_congr (hostPort_lowercase (trim (host.rdropWhile (· == '.'))))
  have hlast : n.getLast? = some '.' ↔ (trim (host.rdropWhile (· == '.'))).getLast? = some '.' := by
    rw [heq, List.getLast?_eq_head?_reverse, List.getLast?_eq_head?_reverse, toAsciiLowercase, ← List.map_reverse]
    exact NetworkProxy.head?_lowercase (by decide)
  have hhead : n.head? = some '[' ↔ (trim (host.rdropWhile (· == '.'))).head? = some '[' := by
    rw [heq]
    exact NetworkProxy.head?_lowercase (by decide)
  rw [normalize_normal hnormal, honce, settles_iff hcore hspace, hports, Ne, Ne, hhead, hlast]

theorem parse_asPolicyString (protocol : NetworkRuleProtocol) :
    NetworkRuleProtocol.parse protocol.asPolicyString = .ok protocol := by
  cases protocol <;> decide

theorem parse_decisionWord (decision : Decision) : parseNetworkRuleDecision (decisionWord decision) = .ok decision := by
  cases decision <;> decide

/-- Normalizing is idempotent at a host, and the rule in memory the one the written line loads as, where the host text
settles in one go. -/
theorem normalizeNetworkRuleHost_stable_iff (codec : RuleCodec) {raw n : Text} (protocol : NetworkRuleProtocol) (decision : Decision)
    (justification : Option Text) (h : normalizeNetworkRuleHost raw = .ok n)
    (hreads : codec.readCall (codec.writeCall ⟨n, protocol.asPolicyString, decisionWord decision, justification⟩) =
      some ⟨n, protocol.asPolicyString, decisionWord decision, justification⟩) :
    (normalizeNetworkRuleHost n = .ok n ∧ ∀ policy policy' line,
      Policy.addNetworkRule policy raw protocol decision justification = .ok policy' →
      networkRuleLine codec raw protocol decision justification = .ok line →
        ∃ rule, policy'.networkRules = policy.networkRules ++ [rule] ∧ loadNetworkRule codec line = some (.ok rule)) ↔
      NormalizesOnce raw := by
  rw [← normalizeNetworkRuleHost_iff h, and_iff_left_iff_imp]
  intro hn policy policy' line hadd hline
  obtain ⟨host, hhost, hline⟩ := Results.bind_eq_ok.1 hline
  obtain rfl := Except.ok.inj (h.symm.trans hhost)
  obtain ⟨_, hjustified, hline⟩ := Results.bind_eq_ok.1 hline
  cases hline
  obtain ⟨rule, hrule, hadd⟩ := Results.bind_eq_ok.1 hadd
  cases hadd
  obtain ⟨host, hhost, hrule⟩ := Results.bind_eq_ok.1 hrule
  obtain rfl := Except.ok.inj (h.symm.trans hhost)
  obtain ⟨-, -, hrule⟩ := Results.bind_eq_ok.1 hrule
  cases hrule
  refine ⟨_, rfl, ?_⟩
  rw [loadNetworkRule, hreads, Option.map_some]
  dsimp only
  rw [parse_asPolicyString, parse_decisionWord, hjustified, hn]
  rfl

/-- For texts without escapes, and the one call of the line below. -/
def plainCodec : RuleCodec where
  toJson s := '"' :: s ++ ['"']
  readCall line :=
    if line = "network_rule(host=\"api.github.com\", protocol=\"https\", decision=\"deny\")".toList then
      some { host := "api.github.com".toList, protocol := "https".toList, decision := "deny".toList, justification := none }
    else none

theorem normalizeNetworkRuleHost_stable_github :
    (normalizeNetworkRuleHost "api.github.com".toList = .ok "api.github.com".toList ∧ ∀ policy policy' line,
      Policy.addNetworkRule policy "API.GitHub.com.:443".toList .https .forbidden none = .ok policy' →
      networkRuleLine plainCodec "API.GitHub.com.:443".toList .https .forbidden none = .ok line →
        ∃ rule, policy'.networkRules = policy.networkRules ++ [rule] ∧ loadNetworkRule plainCodec line = some (.ok rule)) ↔
      NormalizesOnce "API.GitHub.com.:443".toList :=
  normalizeNetworkRuleHost_stable_iff plainCodec .https .forbidden none (by decide +kernel) (by decide +kernel)

/-- Brackets around a host and its port: the port comes to light when they are off. -/
theorem not_stable_bracketedPort :
    ¬ ∀ raw n, normalizeNetworkRuleHost raw = .ok n → normalizeNetworkRuleHost n = .ok n := by
  intro h
  have hfirst : normalizeNetworkRuleHost "[localhost:8080]".toList = .ok "localhost:8080".toList := by decide +kernel
  have hagain : normalizeNetworkRuleHost "localhost:8080".toList = .ok "localhost".toList := by decide +kernel
  have heq := hagain.symm.trans (h _ _ hfirst)
  exact absurd heq (by decide)

end Codex.ExecPolicy
