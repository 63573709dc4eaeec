/-
Edits of the network policy at run time.

An edit writes only over the configuration it read. `set_network_mode` checks
only the constraints, and that is enough: a mode is valid or not whatever the
rest of the configuration is (`validatePolicy_mode`).

Source: network-proxy/src/runtime.rs and state.rs.
-/
import Codex.NetworkPolicyFacts
import Codex.NetworkProxyState

namespace Codex.NetworkProxy

open Results (bind_eq_ok)
open Runs

variable {Hook : Type} (L : Libraries Hook)

/-- A state whose configuration is valid and whose sets are compiled from it. -/
structure ConfigState.Sound (state : ConfigState Hook) : Prop where
  valid : validatePolicyAgainstConstraints L state.config state.constraints = .ok ()
  denySet : compileDenylistGlobset L (state.config.deniedDomains.getD []) = .ok state.denySet
  allowSet : compileAllowlistGlobset L (state.config.allowedDomains.getD []) = .ok state.allowSet

variable {L}

variable {state : ConfigState Hook} {host : Text}

theorem buildConfigState_ok {mitm config constraints}
    (h : buildConfigState L mitm config constraints = .ok state) :
    state.config = config ∧ state.constraints = constraints ∧
      compileDenylistGlobset L (config.deniedDomains.getD []) = .ok state.denySet ∧
      compileAllowlistGlobset L (config.allowedDomains.getD []) = .ok state.allowSet := by
  obtain ⟨_, -, h⟩ := bind_eq_ok.1 h
  obtain ⟨_, -, h⟩ := bind_eq_ok.1 h
  obtain ⟨_, -, h⟩ := bind_eq_ok.1 h
  obtain ⟨denySet, hdeny, h⟩ := bind_eq_ok.1 h
  obtain ⟨allowSet, hallow, h⟩ := bind_eq_ok.1 h
  obtain ⟨_, -, h⟩ := bind_eq_ok.1 h
  cases h
  exact ⟨rfl, rfl, hdeny, hallow⟩

/-- A candidate that is valid and builds is sound, whatever buffer it is given. -/
theorem sound_of_build {mitm config constraints}
    (hvalid : validatePolicyAgainstConstraints L config constraints = .ok ())
    (h : buildConfigState L mitm config constraints = .ok state) : state.Sound L := by
  obtain ⟨rfl, rfl, hdeny, hallow⟩ := buildConfigState_ok h
  exact ⟨hvalid, hdeny, hallow⟩

theorem ConfigState.Sound.carry (h : state.Sound L) (blocked : List BlockedRequest) (total : Nat) :
    ConfigState.Sound L { state with blocked, blockedTotal := total } := ⟨h.valid, h.denySet, h.allowSet⟩

theorem ConfigState.Sound.carryBlocked (h : state.Sound L) (blocked : List BlockedRequest) :
    ConfigState.Sound L { state with blocked } := ⟨h.valid, h.denySet, h.allowSet⟩

/-! ## What the changes amount to -/

variable (L) in
def Change.apply (config : NetworkProxyConfig Hook) : Change Hook → NetworkProxyConfig Hook
  | .edited _ edit => edit.apply L config
  | .loaded config => config

variable (L) in
def replay (config : NetworkProxyConfig Hook) (changes : List (Change Hook)) : NetworkProxyConfig Hook :=
  changes.foldl (Change.apply L) config

theorem replay_concat (config : NetworkProxyConfig Hook) (changes : List (Change Hook)) (change : Change Hook) :
    replay L config (changes ++ [change]) = change.apply L (replay L config changes) := List.foldl_concat ..

/-- The edits a task made. -/
def editsOf (i : Nat) (changes : List (Change Hook)) : List Edit :=
  changes.filterMap fun change =>
    match change with
    | .edited j edit => if j = i then some edit else none
    | .loaded _ => none

/-- The edit a task has made, once it has finished with success. -/
def Task.madeEdit (t : Task Hook) : Option Edit :=
  match t.stage, t.call with
  | .finished (.ok ()), .edit edit => some edit
  | _, _ => none

/-! ## What a waiting task knows -/

variable (L) in
/-- What a task that waits knows of the states it brings, and what it validated. -/
def Stage.Sound (call : Call Hook) : Stage Hook → Prop
  | .reloadRead state => state.Sound L
  | .reloadWrite state => state.Sound L
  | .forceWrite state => state.Sound L ∧ ∀ edit, call ≠ .edit edit
  | .domainWrite previous constraints state =>
    ∃ edit, call = .edit edit ∧ state.Sound L ∧ state.constraints = constraints ∧ state.config = edit.apply L previous
  | .modeWrite constraints => ∃ (mode : NetworkMode) (config : NetworkProxyConfig Hook),
    call = .edit (.setNetworkMode mode) ∧ validatePolicyAgainstConstraints L { config with mode } constraints = .ok ()
  | .observing => ∀ edit, call ≠ .edit edit
  | .reloadNow => ∀ edit, call ≠ .edit edit
  | .maybeReload => True
  | .ready => True
  | .finished _ => True

variable (L) in
structure Task.Sound (t : Task Hook) : Prop where
  call : ∀ state, t.call = .replaceConfigState state → state.Sound L
  stage : t.stage.Sound L t.call

variable (L) in
/-- Whatever state an action brings in is sound. -/
def Action.Sound : Action Hook → Prop
  | .replaceConfigState state => state.Sound L
  | .reloaderAnswers _ (.ok (some state)) => state.Sound L
  | _ => True

/-! ## One step -/

variable (L) in
/-- What a task's step does: nothing to the policy, put in a state it brought, or make its edit. -/
inductive Effect (s : Proxy Hook) (i : Nat) (t : Task Hook) (s' : Proxy Hook) : Prop where
  | quiet (stage : Stage Hook) (blocked : List BlockedRequest) (total : Nat)
      (state : s'.state = { s.state with blocked, blockedTotal := total })
      (tasks : s'.tasks = s.tasks.set i { t with stage }) (changes : s'.changes = s.changes)
      (sound : stage.Sound L t.call) (unmade : ({ t with stage } : Task Hook).madeEdit = none)
  | loads (stage : Stage Hook) (state : s'.state.Sound L)
      (tasks : s'.tasks = s.tasks.set i { t with stage }) (changes : s'.changes = s.changes ++ [.loaded s'.state.config])
      (sound : stage.Sound L t.call) (unmade : ({ t with stage } : Task Hook).madeEdit = none)
  | edits (edit : Edit) (call : t.call = .edit edit) (state : s'.state.Sound L)
      (config : s'.state.config = edit.apply L s.state.config)
      (tasks : s'.tasks = s.tasks.set i { t with stage := .finished (.ok ()) })
      (changes : s'.changes = s.changes ++ [.edited i edit])

namespace Proxy

variable {s : Proxy Hook} {i : Nat} {t : Task Hook}

theorem effect_setStage {stage} (hsound : stage.Sound L t.call)
    (hmade : ({ t with stage } : Task Hook).madeEdit = none) : Effect L s i t (s.setStage i t stage) :=
  .quiet stage s.state.blocked s.state.blockedTotal rfl rfl rfl hsound hmade

theorem effect_fail (e : Text) : Effect L s i t (s.finish i t (.error e)) := effect_setStage trivial rfl

theorem effect_readDomainList (h : s.state.Sound L) {target}
    (hcall : t.call = .edit (.updateDomainList host target)) (mitm : Except Text Unit) :
    Effect L s i t (s.readDomainList L i t host target mitm) := by
  unfold readDomainList
  dsimp only
  split
  next hlisted =>
    have hsame : Edit.apply L s.state.config (.updateDomainList host target) = s.state.config := if_pos hlisted
    exact .edits _ hcall h hsame.symm rfl rfl
  next =>
    split
    · exact effect_fail _
    next hvalid =>
      split
      · exact effect_fail _
      next state hbuild =>
        obtain ⟨hconfig, hcons, -, -⟩ := buildConfigState_ok hbuild
        refine effect_setStage ⟨_, hcall, (sound_of_build hvalid hbuild).carry _ _, hcons, hconfig⟩ rfl

theorem effect_readMode {mode} (hcall : t.call = .edit (.setNetworkMode mode)) :
    Effect L s i t (s.readMode L i t mode) := by
  unfold readMode
  split
  · exact effect_fail _
  next hvalid => exact effect_setStage ⟨mode, s.state.config, hcall, hvalid⟩ rfl

theorem madeEdit_of_call {call} (h : ∀ edit, call ≠ .edit edit) (stage : Stage Hook) :
    ({ call, stage } : Task Hook).madeEdit = none := by
  unfold Task.madeEdit
  split
  next edit _ hcall => exact absurd hcall (h edit)
  next => rfl

theorem effect_reloaderAnswers {answer}
    (hans : Action.Sound L (.reloaderAnswers i answer)) (hstage : t.stage.Sound L t.call) :
    s.reloaderAnswers i t answer = s ∨ Effect L s i t (s.reloaderAnswers i t answer) := by
  unfold reloaderAnswers
  split
  · exact .inr (effect_fail _)
  · exact .inr (effect_setStage trivial rfl)
  · split
    · exact .inr (effect_setStage hans rfl)
    · exact .inr (effect_fail _)
  · exact .inr (effect_fail _)
  next hnow =>
    rw [hnow] at hstage
    split
    · exact .inr (effect_setStage ⟨hans, hstage⟩ rfl)
    · exact .inr (effect_fail _)
  · exact .inl rfl

/-! ## Whole runs -/

variable (L) in
/-- What holds of a proxy that began with a configuration, at any time. -/
structure Inv (config : NetworkProxyConfig Hook) (s : Proxy Hook) : Prop where
  sound : s.state.Sound L
  tasks : ∀ t ∈ s.tasks, t.Sound L
  config : s.state.config = replay L config s.changes
  edits : ∀ i, editsOf i s.changes = (s.tasks[i]?.bind Task.madeEdit).toList

variable {config : NetworkProxyConfig Hook}

theorem Inv.spawn (h : Inv L config s) {call stage} (ht : Task.Sound L { call, stage })
    (hmade : ({ call, stage } : Task Hook).madeEdit = none) : Inv L config (s.spawn call stage) := by
  refine ⟨h.sound, fun t ht' => ?_, h.config, fun i => ?_⟩
  · rcases List.mem_append.1 ht' with ht' | ht'
    · exact h.tasks t ht'
    · rw [List.mem_singleton.1 ht']
      exact ht
  · rw [show (s.spawn call stage).changes = s.changes from rfl, h.edits i]
    unfold Proxy.spawn
    rw [List.getElem?_append]
    split
    · rfl
    next hlt =>
      rw [List.getElem?_eq_none (Nat.le_of_not_lt hlt)]
      cases hn : i - s.tasks.length with
      | zero => rw [List.getElem?_cons_zero, Option.bind_some, hmade, Option.bind_none]
      | succ n => rfl

theorem edits_set (h : Inv L config s) (ht : s.tasks[i]? = some t) (hnone : t.madeEdit = none) (stage : Stage Hook)
    (changes : List (Change Hook))
    (hself : editsOf i changes = (({ t with stage } : Task Hook).madeEdit).toList)
    (hother : ∀ j, j ≠ i → editsOf j changes = []) (j : Nat) :
    editsOf j (s.changes ++ changes) = ((s.tasks.set i { t with stage })[j]?.bind Task.madeEdit).toList := by
  have happend : editsOf j (s.changes ++ changes) = editsOf j s.changes ++ editsOf j changes := List.filterMap_append
  rw [happend, h.edits j, List.getElem?_set]
  split
  next heq =>
    subst heq
    rw [ht, Option.bind_some, hnone, if_pos (List.getElem?_eq_some_iff.1 ht).1, Option.bind_some, hself, Option.toList_none,
      List.nil_append]
  next hne => rw [hother j (Ne.symm hne), List.append_nil]

theorem Inv.effect {s'} (h : Inv L config s) (ht : s.tasks[i]? = some t) (hnone : t.madeEdit = none)
    (heffect : Effect L s i t s') : Inv L config s' := by
  have hcall := (h.tasks t (List.mem_of_getElem? ht)).call
  have htasks {stage : Stage Hook} (hsound : stage.Sound L t.call) : ∀ u ∈ s.tasks.set i { t with stage }, u.Sound L := by
    intro u hu
    rcases List.mem_or_eq_of_mem_set hu with hu | rfl
    · exact h.tasks u hu
    · exact ⟨hcall, hsound⟩
  cases heffect with
  | quiet stage blocked total state tasks changes sound unmade =>
    refine ⟨state ▸ h.sound.carry blocked total, tasks ▸ htasks sound, ?_, fun j => ?_⟩
    · rw [state, changes]
      exact h.config
    · have hset := edits_set h ht hnone stage [] (by rw [unmade]; rfl) (fun _ _ => rfl) j
      rw [List.append_nil] at hset
      rw [changes, tasks, hset]
  | loads stage state tasks changes sound unmade =>
    refine ⟨state, tasks ▸ htasks sound, ?_, fun j => ?_⟩
    · rw [changes, replay_concat]
      rfl
    · rw [changes, tasks]
      exact edits_set h ht hnone _ _ (by rw [unmade]; rfl) (fun _ _ => rfl) j
  | edits edit call state config' tasks changes =>
    refine ⟨state, tasks ▸ htasks trivial, ?_, fun j => ?_⟩
    · rw [changes, replay_concat, config', h.config]
      rfl
    · rw [changes, tasks]
      refine edits_set h ht hnone _ _ ?_ (fun j hj => ?_) j
      · simp [editsOf, Task.madeEdit, call]
      · simp [editsOf, hj.symm]

theorem madeEdit_of_open (h : ¬ ∃ result, t.stage = .finished result) : t.madeEdit = none := by
  unfold Task.madeEdit
  split
  next hfin _ => exact absurd ⟨_, hfin⟩ h
  next => rfl

variable [DecidableEq Hook]

theorem effect_proceed (h : s.state.Sound L) (ht : t.Sound L) (hopen : ∀ result, t.stage ≠ .finished result)
    (mitm : Except Text Unit) : s.proceed L i t mitm = s ∨ Effect L s i t (s.proceed L i t mitm) := by
  obtain ⟨call, stage⟩ := t
  obtain ⟨hcall, hstage⟩ := ht
  cases stage with
  | ready =>
    right
    cases call with
    | edit edit =>
      cases edit with
      | updateDomainList host target => exact effect_readDomainList h rfl mitm
      | setNetworkMode mode => exact effect_readMode rfl
    | recordBlocked entry => exact .quiet .observing _ _ rfl rfl rfl (fun _ => nofun) rfl
    | replaceConfigState state =>
      unfold proceed proceedReady
      dsimp only
      split
      · exact .loads _ ((hcall state rfl).carry _ _) rfl rfl trivial rfl
      · exact effect_fail _
    | forceReload => exact effect_setStage (fun _ => nofun) rfl
    | reloadIfNeeded => exact effect_setStage trivial rfl
  | reloadRead state => exact .inr (effect_setStage (hstage.carry _ _) rfl)
  | reloadWrite state => exact .inr (.loads .ready hstage rfl rfl trivial rfl)
  | forceWrite state =>
    exact .inr (.loads _ (hstage.1.carryBlocked _) rfl rfl trivial (madeEdit_of_call hstage.2 _))
  | domainWrite previous constraints state =>
    obtain ⟨edit, rfl, hsound, hcons, hconfig⟩ := hstage
    right
    unfold proceed writeDomain
    dsimp only
    split
    · exact effect_setStage trivial rfl
    next hsame =>
      have hprevious : s.state.config = previous := not_not.1 (not_or.1 hsame).2
      exact .edits edit rfl hsound (by rw [hprevious]; exact hconfig) rfl rfl
  | modeWrite constraints =>
    obtain ⟨mode, config, rfl, hvalid⟩ := hstage
    right
    unfold proceed writeMode
    dsimp only
    split
    · exact effect_setStage trivial rfl
    next hsame =>
      have hcons : s.state.constraints = constraints := not_not.1 hsame
      rw [← hcons] at hvalid
      exact .edits _ rfl ⟨validatePolicy_mode h.valid hvalid, h.denySet, h.allowSet⟩ rfl rfl rfl
  | observing => exact .inr (effect_setStage trivial (madeEdit_of_call hstage _))
  | maybeReload | reloadNow => exact .inl rfl
  | finished result => exact absurd rfl (hopen result)

theorem Inv.step (h : Inv L config s) {a} (ha : a.Sound L) : Inv L config (step L s a) := by
  cases a with
  | addDomain host target =>
    unfold Proxy.step
    dsimp only
    split <;> exact h.spawn ⟨fun _ => nofun, trivial⟩ rfl
  | setNetworkMode | recordBlocked | forceReload | reloadIfNeeded => exact h.spawn ⟨fun _ => nofun, trivial⟩ rfl
  | replaceConfigState state =>
    exact h.spawn ⟨fun other hother => by cases hother; exact ha, trivial⟩ rfl
  | reloaderAnswers i answer =>
    unfold Proxy.step
    dsimp only
    split
    · exact h
    next t ht =>
      by_cases hopen : ∃ result, t.stage = .finished result
      · obtain ⟨result, hfin⟩ := hopen
        have hsame : s.reloaderAnswers i t answer = s := by
          unfold Proxy.reloaderAnswers
          rw [hfin]
        rw [hsame]
        exact h
      · rcases effect_reloaderAnswers (s := s) (i := i) ha (h.tasks t (List.mem_of_getElem? ht)).stage with hs | heffect
        · rw [hs]
          exact h
        · exact h.effect ht (madeEdit_of_open hopen) heffect
  | proceed i mitm =>
    unfold Proxy.step
    dsimp only
    split
    · exact h
    next t ht =>
      by_cases hopen : ∃ result, t.stage = .finished result
      · obtain ⟨result, hfin⟩ := hopen
        have hsame : s.proceed L i t mitm = s := by
          unfold Proxy.proceed
          rw [hfin]
        rw [hsame]
        exact h
      · rcases effect_proceed h.sound (h.tasks t (List.mem_of_getElem? ht)) (not_exists.1 hopen) mitm with hs | heffect
        · rw [hs]
          exact h
        · exact h.effect ht (madeEdit_of_open hopen) heffect

theorem inv_run (h : state.Sound L) {actions} (ha : ∀ a ∈ actions, a.Sound L) :
    Inv L state.config (run (Proxy.step L) (launch state) actions) := by
  induction actions using List.reverseRecOn with
  | nil => exact ⟨h, fun t ht => (by cases ht), rfl, fun i => rfl⟩
  | append_singleton before a ih =>
    rw [run_concat]
    exact (ih fun b hb => ha b (List.mem_append_left _ hb)).step (ha a (List.mem_append_right _ (List.mem_singleton_self a)))

end Proxy

/-! ## Managed denials -/

variable (L) in
/-- A managed denied pattern admits the host, or the address in it. -/
def DeniedByManaged (constraints : NetworkProxyConstraints) (host : Text) : Prop :=
  ∃ managed, constraints.deniedDomains = some managed ∧ ∃ pattern ∈ managed,
    PatternMatches L pattern host ∨ ∃ ip, unscopedIpLiteral L host = some ip ∧ PatternMatches L pattern ip

theorem denySet_matches (h : state.Sound L) {managed}
    (hmanaged : state.constraints.deniedDomains = some managed) {pattern : Text} (hp : pattern ∈ managed)
    (hmatch : PatternMatches L pattern host) : state.denySet.isMatch L host = true := by
  obtain ⟨entry, hentry, hcase⟩ := denied_of_validate h.valid hmanaged hp
  refine (isMatch_compileGlobset h.denySet host).2 ⟨entry, hentry, ?_⟩
  unfold PatternMatches
  rw [normalizePattern_congr hcase]
  exact hmatch

theorem hostBlocked_denied (h : state.Sound L) {input : Text}
    (hhost : Host.parse L input = some host) (hdenied : DeniedByManaged L state.constraints host) (resolvesNonPublic : Bool) :
    hostBlocked L resolvesNonPublic state input = .blocked .denied := by
  obtain ⟨managed, hmanaged, pattern, hp, hmatch⟩ := hdenied
  have hset : globsetMatchesHostOrUnscoped L state.denySet host = true := by
    unfold globsetMatchesHostOrUnscoped
    rw [Bool.or_eq_true]
    rcases hmatch with hmatch | ⟨ip, hip, hmatch⟩
    · exact .inl (denySet_matches h hmanaged hp hmatch)
    · right
      rw [hip]
      exact denySet_matches h hmanaged hp hmatch
  unfold hostBlocked
  rw [hhost]
  dsimp only
  rw [if_pos hset]

/-- **Runtime edits keep the policy within its constraints**, from a sound state and with sound states from the
reloader; and the configuration is what the calls that succeeded make of the first one. -/
theorem edits_keep_policy [DecidableEq Hook] (L : Libraries Hook) {state : ConfigState Hook} (h : state.Sound L)
    {actions : List (Action Hook)} (ha : ∀ a ∈ actions, a.Sound L) {s : Proxy Hook}
    (hs : s = run (Proxy.step L) (Proxy.launch state) actions) :
    s.state.Sound L ∧ s.state.config = replay L state.config s.changes ∧
      (∀ i, editsOf i s.changes = (s.tasks[i]?.bind Task.madeEdit).toList) ∧
      ∀ input host, Host.parse L input = some host → DeniedByManaged L s.state.constraints host →
        ∀ resolvesNonPublic, hostBlocked L resolvesNonPublic s.state input = .blocked .denied := by
  have hinv := hs ▸ Proxy.inv_run h ha
  exact ⟨hinv.sound, hinv.config, hinv.edits, fun input host hhost hdenied => hostBlocked_denied hinv.sound hhost hdenied⟩

/-- A denied host is managed, in another case than the configuration has it. -/
def managedState : ConfigState Unit where
  config := { domains := some [⟨"evil.com".toList, .deny⟩, ⟨"good.com".toList, .allow⟩] }
  allowSet := ⟨["good.com".toList]⟩
  denySet := ⟨["evil.com".toList]⟩
  constraints := { deniedDomains := some ["Evil.com".toList] }

/-- A domain is added while the mode is set: the domain edit has to begin again. -/
def concurrentEdits : List (Action Unit) :=
  [.addDomain "a.io".toList .allow, .setNetworkMode .limited, .reloaderAnswers 0 (.ok none), .reloaderAnswers 1 (.ok none),
    .proceed 0 (.ok ()), .proceed 1 (.ok ()), .proceed 1 (.ok ()), .proceed 0 (.ok ()),
    .reloaderAnswers 0 (.ok none), .proceed 0 (.ok ()), .proceed 0 (.ok ())]

theorem managedState_sound : managedState.Sound plainLibraries := by
  obtain ⟨hvalid, hdeny, hallow⟩ :
      validatePolicyAgainstConstraints plainLibraries managedState.config managedState.constraints = .ok () ∧
      compileDenylistGlobset plainLibraries (managedState.config.deniedDomains.getD []) = .ok managedState.denySet ∧
      compileAllowlistGlobset plainLibraries (managedState.config.allowedDomains.getD []) = .ok managedState.allowSet := by
    decide +kernel
  exact ⟨hvalid, hdeny, hallow⟩

theorem edits_keep_policy_concurrent :
    (run (Proxy.step plainLibraries) (Proxy.launch managedState) concurrentEdits).state.config =
      replay plainLibraries managedState.config
        [.edited 1 (.setNetworkMode .limited), .edited 0 (.updateDomainList "a.io".toList .allow)] ∧
    hostBlocked plainLibraries false (run (Proxy.step plainLibraries) (Proxy.launch managedState) concurrentEdits).state
      "EVIL.com".toList = .blocked .denied := by
  have hquiet : ∀ a ∈ concurrentEdits, a.Sound plainLibraries := by
    unfold concurrentEdits
    simp [Action.Sound]
  obtain ⟨-, hconfig, -, hdenied⟩ := edits_keep_policy plainLibraries managedState_sound hquiet rfl
  obtain ⟨hhost, hmatch, hcons⟩ : Host.parse plainLibraries "EVIL.com".toList = some "evil.com".toList ∧
      (∃ g ∈ expandDomainPattern (normalizePattern plainLibraries "Evil.com".toList),
        plainLibraries.globMatch g "evil.com".toList = true) ∧
      (run (Proxy.step plainLibraries) (Proxy.launch managedState) concurrentEdits).state.constraints.deniedDomains =
        some ["Evil.com".toList] := by
    decide +kernel
  exact ⟨hconfig, hdenied _ _ hhost ⟨_, hcons, _, List.mem_singleton.2 rfl, .inl hmatch⟩ false⟩

end Codex.NetworkProxy
