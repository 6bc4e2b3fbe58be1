/-
One engine per grant.

The acts of a coordinator are read as a log: which engines live, and whether the lock is held, after
each act.  The handle is the only engine that lives, as long as nothing spawns over a handle that is
set; a verdict that comes back from its wait does so when another engine was spawned meanwhile.
-/
import Pgxsinkit.Placement.Coordinator

namespace Placement

open CoordinatorState

variable {options : CoordinatorOptions}

/-! ### Reading the log -/

/-- The engines that were spawned and not terminated. -/
def live (acts : List Act) : List ℕ :=
  acts.foldl (fun engines act =>
    match act with
    | .spawned engine => engines ++ [engine]
    | .terminated engine _ => engines.filter (· ≠ engine)
    | _ => engines) []

def lockHeld (acts : List Act) : Bool :=
  acts.foldl (fun held act =>
    match act with
    | .granted _ => true
    | .settled _ => false
    | _ => held) false

/-- The engine that an error or a verdict was about. -/
def Cause.about : Cause → Option ℕ
  | .error engine | .verdict engine => some engine
  | .retirement => none

def Terminated (acts : List Act) (engine : ℕ) : Prop := ∃ cause, Act.terminated engine cause ∈ acts

/-- What one grant, one engine means for the acts of a coordinator. -/
structure OneEngine (acts : List Act) : Prop where
  /-- after each act one engine lives at most, and only under the lock -/
  one : ∀ moment, moment <+: acts →
    (live moment).length ≤ 1 ∧ (live moment ≠ [] → lockHeld moment = true)
  /-- an error or a verdict terminates no other engine than its own -/
  own : ∀ engine cause blamed, Act.terminated engine cause ∈ acts → cause.about = some blamed →
    engine = blamed
  /-- `retireEngine` resolves behind the termination of the engine it found -/
  awaited : ∀ before engine after, acts = before ++ .retireResolved engine :: after →
    Terminated before engine

/-- The event is about the engine that runs, and comes while nothing else replaces it. -/
def Timely (s : CoordinatorState) : CoordinatorEvent → Prop
  | .engineError engine => s.isLeader = true → ∀ current, s.engineHandle = some current →
    current = engine
  | .swMessage port (.engineRetiring identity) engine =>
    port = s.swPort → s.isLeader = true → s.currentIdentity = some identity → ∀ current,
      s.engineHandle = some current → current = engine
  | .verdictResumes => s.isLeader = true → s.engineHandle = none
  | .retireEngine => s.isLeader = true → s.engineHandle.isSome → s.retiring = false
  | _ => True

/-! ### One act more -/

theorem live_snoc_spawned (acts : List Act) (engine : ℕ) :
    live (acts ++ [.spawned engine]) = live acts ++ [engine] := by
  rw [live, List.foldl_append]
  rfl

theorem live_snoc_terminated (acts : List Act) (engine : ℕ) (cause : Cause) :
    live (acts ++ [.terminated engine cause]) = (live acts).filter (· ≠ engine) := by
  rw [live, List.foldl_append]
  rfl

theorem oneEngine_nil : OneEngine [] := by
  constructor
  · intro moment hmoment
    rw [List.prefix_nil.1 hmoment]
    exact ⟨Nat.zero_le _, fun hlive => absurd rfl hlive⟩
  · exact fun _ _ _ hmem => nomatch hmem
  · exact fun before _ _ heq => absurd heq.symm (by simp)

theorem Terminated.mono {acts acts' : List Act} {engine : ℕ} (h : Terminated acts engine)
    (hgrown : acts <+: acts') : Terminated acts' engine := by
  obtain ⟨cause, hmem⟩ := h
  exact ⟨cause, hgrown.subset hmem⟩

theorem OneEngine.snoc {acts : List Act} (h : OneEngine acts) (act : Act)
    (hone : (live (acts ++ [act])).length ≤ 1)
    (hheld : live (acts ++ [act]) ≠ [] → lockHeld (acts ++ [act]) = true)
    (hown : ∀ engine cause blamed, act = .terminated engine cause → cause.about = some blamed →
      engine = blamed)
    (hawaited : ∀ engine, act = .retireResolved engine → Terminated acts engine) :
    OneEngine (acts ++ [act]) := by
  constructor
  · intro moment hmoment
    obtain rfl | hmoment := List.prefix_concat_iff.1 hmoment
    · exact ⟨hone, hheld⟩
    · exact h.one moment hmoment
  · intro engine cause blamed hmem habout
    obtain hmem | hmem := List.mem_append.1 hmem
    · exact h.own engine cause blamed hmem habout
    · exact hown engine cause blamed (List.mem_singleton.1 hmem).symm habout
  · intro before engine after heq
    obtain rfl | ⟨after', last, rfl⟩ := after.eq_nil_or_concat
    · obtain ⟨rfl, hlast⟩ := List.append_inj' heq rfl
      exact hawaited engine (List.cons.inj hlast).1
    · rw [List.concat_eq_append, ← List.cons_append, ← List.append_assoc] at heq
      exact h.awaited before engine after' (List.append_inj' heq rfl).1

/-! ### The invariant -/

/-- The handle is the engine that lives, and it lives under the grant. -/
structure Tended (s : CoordinatorState) : Prop where
  live_eq : live s.acts = s.engineHandle.toList
  held_iff : lockHeld s.acts = true ↔ s.lockState = .granted
  request_iff : s.request.isSome ↔ s.lockState = .queued
  grant_iff : s.grantSettle.isSome ↔ s.lockState = .granted
  leads : s.engineHandle.isSome → s.lockState = .granted
  retiring : s.retiring = true → s.lockState = .granted
  /-- a call of `retireEngine` whose retirement is over found an engine that is gone -/
  calls_over : ∀ call ∈ s.retireCalls, call.retiring = false → Terminated s.acts call.engine
  calls_wait : ∀ call ∈ s.retireCalls, call.retiring = true → s.retiring = true ∧
    (s.engineHandle = some call.engine ∨ Terminated s.acts call.engine)
  one : OneEngine s.acts

theorem tended_initial : Tended .initial := by
  constructor
  case one => exact oneEngine_nil
  all_goals simp [CoordinatorState.initial, live, lockHeld]

/-- What the invariant reads. -/
structure SameEngine (s s' : CoordinatorState) : Prop where
  engineHandle : s'.engineHandle = s.engineHandle
  lockState : s'.lockState = s.lockState
  request : s'.request = s.request
  grantSettle : s'.grantSettle = s.grantSettle
  retiring : s'.retiring = s.retiring
  retireCalls : s'.retireCalls = s.retireCalls
  acts : s'.acts = s.acts

theorem SameEngine.refl (s : CoordinatorState) : SameEngine s s :=
  ⟨rfl, rfl, rfl, rfl, rfl, rfl, rfl⟩

theorem Tended.congr {s s' : CoordinatorState} (h : Tended s) (hsame : SameEngine s s') :
    Tended s' := by
  obtain ⟨hhandle, hlock, hrequest, hgrant, hretiring, hcalls, hacts⟩ := hsame
  constructor
  · rw [hacts, hhandle]
    exact h.live_eq
  · rw [hacts, hlock]
    exact h.held_iff
  · rw [hrequest, hlock]
    exact h.request_iff
  · rw [hgrant, hlock]
    exact h.grant_iff
  · rw [hhandle, hlock]
    exact h.leads
  · rw [hretiring, hlock]
    exact h.retiring
  · rw [hcalls, hacts]
    exact h.calls_over
  · rw [hcalls, hretiring, hhandle, hacts]
    exact h.calls_wait
  · rw [hacts]
    exact h.one

/-! ### The moves -/

/-- An engine is terminated and its handle dropped. -/
theorem Tended.drop {s : CoordinatorState} (h : Tended s) (cause : Cause)
    (hown : ∀ current blamed, s.engineHandle = some current → cause.about = some blamed →
      current = blamed) :
    Tended { s.terminateEngine cause with engineHandle := none } ∧
      ∀ call ∈ s.retireCalls, Terminated (s.terminateEngine cause).acts call.engine := by
  cases hhandle : s.engineHandle with
  | none =>
    have hacts : (s.terminateEngine cause).acts = s.acts := by
      rw [terminateEngine, hhandle]
      exact List.append_nil _
    refine ⟨h.congr ⟨hhandle.symm, rfl, rfl, rfl, rfl, rfl, hacts⟩, fun call hcall => ?_⟩
    rw [hacts]
    cases hretiring : call.retiring with
    | false => exact h.calls_over call hcall hretiring
    | true =>
      obtain hcurrent | hgone := (h.calls_wait call hcall hretiring).2
      · rw [hhandle] at hcurrent
        cases hcurrent
      · exact hgone
  | some current =>
    have hacts : (s.terminateEngine cause).acts = s.acts ++ [.terminated current cause] := by
      rw [terminateEngine, hhandle]
      rfl
    have hlive : live (s.acts ++ [.terminated current cause]) = [] := by
      rw [live_snoc_terminated, h.live_eq, hhandle]
      simp
    have hheld : lockHeld (s.acts ++ [.terminated current cause]) = lockHeld s.acts := by
      rw [lockHeld, List.foldl_append]
      rfl
    have hgone : ∀ call ∈ s.retireCalls,
        Terminated (s.acts ++ [.terminated current cause]) call.engine := by
      intro call hcall
      cases hretiring : call.retiring with
      | false => exact (h.calls_over call hcall hretiring).mono (List.prefix_append _ _)
      | true =>
        obtain hcurrent | hgone := (h.calls_wait call hcall hretiring).2
        · obtain rfl := Option.some.inj (hhandle.symm.trans hcurrent)
          exact ⟨cause, List.mem_append_right _ (List.mem_singleton_self _)⟩
        · exact hgone.mono (List.prefix_append _ _)
    rw [hacts]
    refine ⟨?_, hgone⟩
    constructor
    · exact (congrArg live hacts).trans hlive
    · change lockHeld (s.terminateEngine cause).acts = true ↔ _
      rw [hacts, hheld]
      exact h.held_iff
    · exact h.request_iff
    · exact h.grant_iff
    · exact fun hnone => nomatch hnone
    · exact h.retiring
    · intro call hcall _
      exact hacts ▸ hgone call hcall
    · intro call hcall hretiring
      exact ⟨(h.calls_wait call hcall hretiring).1, Or.inr (hacts ▸ hgone call hcall)⟩
    · change OneEngine (s.terminateEngine cause).acts
      rw [hacts]
      refine h.one.snoc _ ?_ (fun hne => absurd hlive hne) ?_ (fun _ heq => nomatch heq)
      · rw [hlive]
        exact Nat.zero_le _
      · rintro engine cause' blamed heq habout
        cases heq
        exact hown current blamed hhandle habout

/-- An engine is spawned under the grant, where none was. -/
theorem Tended.spawn {s : CoordinatorState} (h : Tended s) (hnone : s.engineHandle = none)
    (hgranted : s.lockState = .granted) : Tended s.spawnEngine := by
  have hacts : s.spawnEngine.acts = s.acts ++ [.spawned s.engineSeq] := rfl
  have hlive : live (s.acts ++ [.spawned s.engineSeq]) = [s.engineSeq] := by
    rw [live_snoc_spawned, h.live_eq, hnone]
    rfl
  have hheld : lockHeld (s.acts ++ [.spawned s.engineSeq]) = lockHeld s.acts := by
    rw [lockHeld, List.foldl_append]
    rfl
  have hgrown : s.acts <+: s.spawnEngine.acts := List.prefix_append _ _
  constructor
  · exact hlive
  · rw [hacts, hheld]
    exact h.held_iff
  · exact h.request_iff
  · exact h.grant_iff
  · exact fun _ => hgranted
  · exact h.retiring
  · exact fun call hcall hretiring => (h.calls_over call hcall hretiring).mono hgrown
  · intro call hcall hretiring
    obtain ⟨hflag, hcurrent | hgone⟩ := h.calls_wait call hcall hretiring
    · rw [hnone] at hcurrent
      cases hcurrent
    · exact ⟨hflag, Or.inr (hgone.mono hgrown)⟩
  · refine h.one.snoc _ ?_ (fun _ => ?_) (fun _ _ _ heq => nomatch heq) (fun _ heq => nomatch heq)
    · rw [hlive]
      exact le_rfl
    · rw [hheld]
      exact h.held_iff.2 hgranted

/-- The lock is asked for, or given back unheld. -/
theorem Tended.relock {s : CoordinatorState} (h : Tended s) {lock : LockState}
    {request : Option ℕ} {requestSeq : ℕ} (hold : s.lockState ≠ .granted) (hnew : lock ≠ .granted)
    (hrequest : request.isSome ↔ lock = .queued) :
    Tended { s with lockState := lock, request := request, requestSeq := requestSeq } := by
  constructor
  · exact h.live_eq
  · exact h.held_iff.trans ⟨fun hgranted => absurd hgranted hold, fun hgranted => absurd hgranted hnew⟩
  · exact hrequest
  · exact h.grant_iff.trans
      ⟨fun hgranted => absurd hgranted hold, fun hgranted => absurd hgranted hnew⟩
  · exact fun hsome => absurd (h.leads hsome) hold
  · exact fun hretiring => absurd (h.retiring hretiring) hold
  · exact h.calls_over
  · exact h.calls_wait
  · exact h.one

theorem Tended.queueLock {s : CoordinatorState} (h : Tended s) : Tended s.queueLock := by
  unfold CoordinatorState.queueLock
  split
  case isTrue hidle =>
    refine h.relock ?_ (fun hgranted => nomatch hgranted) ⟨fun _ => rfl, fun _ => rfl⟩
    rw [hidle]
    exact fun hgranted => nomatch hgranted
  case isFalse => exact h

/-- The grant is settled with no engine left. -/
theorem Tended.settle {s : CoordinatorState} (h : Tended s) (hgranted : s.lockState = .granted)
    (hnone : s.engineHandle = none) (hretiring : s.retiring = false) : Tended s.settleGrant := by
  obtain ⟨grant, hgrant⟩ := Option.isSome_iff_exists.1 (h.grant_iff.2 hgranted)
  have hacts : s.settleGrant.acts = s.acts ++ [.settled grant] := by
    rw [settleGrant, hgrant]
    rfl
  have hlive : live (s.acts ++ [.settled grant]) = [] := by
    rw [live, List.foldl_append]
    exact h.live_eq.trans (by rw [hnone]; rfl)
  have hheld : lockHeld (s.acts ++ [.settled grant]) = false := by
    rw [lockHeld, List.foldl_append]
    rfl
  have hgrown : s.acts <+: s.settleGrant.acts := hacts ▸ List.prefix_append _ _
  have hrequest : ¬s.request.isSome = true := by
    rw [h.request_iff, hgranted]
    exact fun hqueued => nomatch hqueued
  constructor
  · have hhandle : s.settleGrant.engineHandle = none := hnone
    rw [hacts, hlive, hhandle]
    rfl
  · rw [hacts, hheld]
    exact ⟨(fun hfalse => nomatch hfalse), fun hidle => nomatch hidle⟩
  · exact ⟨fun hsome => absurd hsome hrequest, fun hidle => nomatch hidle⟩
  · exact ⟨(fun hsome => nomatch hsome), fun hidle => nomatch hidle⟩
  · intro hsome
    have hhandle : s.settleGrant.engineHandle = none := hnone
    rw [hhandle] at hsome
    cases hsome
  · intro hflag
    cases hretiring.symm.trans hflag
  · exact fun call hcall hover => (h.calls_over call hcall hover).mono hgrown
  · intro call hcall hwait
    cases hretiring.symm.trans (h.calls_wait call hcall hwait).1
  · rw [hacts]
    refine h.one.snoc _ ?_ (fun hne => absurd hlive hne) (fun _ _ _ heq => nomatch heq)
      (fun _ heq => nomatch heq)
    rw [hlive]
    exact Nat.zero_le _

/-- The lock request is granted. -/
theorem Tended.grant {s : CoordinatorState} (h : Tended s) {request : ℕ}
    (hrequest : s.request = some request) :
    Tended (act { s with request := none, lockState := .granted, grantSettle := some request }
      [.granted request]) := by
  have hqueued : s.lockState = .queued := h.request_iff.1 (by rw [hrequest]; rfl)
  have hnone : s.engineHandle = none := by
    refine Option.not_isSome_iff_eq_none.1 fun hsome => ?_
    have hgranted := h.leads hsome
    rw [hqueued] at hgranted
    cases hgranted
  have hlive : live (s.acts ++ [.granted request]) = [] := by
    rw [live, List.foldl_append]
    exact h.live_eq.trans (by rw [hnone]; rfl)
  have hheld : lockHeld (s.acts ++ [.granted request]) = true := by
    rw [lockHeld, List.foldl_append]
    rfl
  constructor
  · exact hlive.trans (by change [] = s.engineHandle.toList; rw [hnone]; rfl)
  · exact ⟨fun _ => rfl, fun _ => hheld⟩
  · exact ⟨(fun hsome => nomatch hsome), fun hgranted => nomatch hgranted⟩
  · exact ⟨fun _ => rfl, fun _ => rfl⟩
  · exact fun _ => rfl
  · exact fun _ => rfl
  · exact fun call hcall hover => (h.calls_over call hcall hover).mono (List.prefix_append _ _)
  · intro call hcall hwait
    obtain ⟨hflag, hcurrent | hgone⟩ := h.calls_wait call hcall hwait
    · exact ⟨hflag, Or.inl hcurrent⟩
    · exact ⟨hflag, Or.inr (hgone.mono (List.prefix_append _ _))⟩
  · refine h.one.snoc _ ?_ (fun _ => hheld) (fun _ _ _ heq => nomatch heq) (fun _ heq => nomatch heq)
    rw [hlive]
    exact Nat.zero_le _

theorem sameEngine_runRetirement (s : CoordinatorState) :
    SameEngine { s with retiring := true } s.runRetirement := by
  unfold CoordinatorState.runRetirement
  split
  case isTrue hretiring =>
    rw [← hretiring]
    exact SameEngine.refl s
  case isFalse => exact ⟨rfl, rfl, rfl, rfl, rfl, rfl, rfl⟩

theorem Tended.runRetirement {s : CoordinatorState} (h : Tended s)
    (hgranted : s.lockState = .granted) : Tended s.runRetirement := by
  have hflag : Tended { s with retiring := true } :=
    { h with
      retiring := fun _ => hgranted
      calls_wait := fun call hcall hwait => ⟨rfl, (h.calls_wait call hcall hwait).2⟩ }
  exact hflag.congr (sameEngine_runRetirement s)

/-! ### Handlers -/

theorem Tended.addClaim {s : CoordinatorState} (h : Tended s) : Tended s.addClaim := by
  have hsame : Tended { s with
      claimCount := s.claimCount + 1, claims := s.claims ++ [s.claimSeq], claimSeq := s.claimSeq + 1 } :=
    h.congr ⟨rfl, rfl, rfl, rfl, rfl, rfl, rfl⟩
  unfold CoordinatorState.addClaim
  dsimp only
  split
  · exact hsame.queueLock
  · exact hsame

theorem Tended.release {s : CoordinatorState} (h : Tended s) (claim : ℕ) :
    Tended (s.release claim) := by
  unfold CoordinatorState.release CoordinatorState.releaseClaim
  split
  case isFalse => exact h
  case isTrue =>
    dsimp only
    split
    · exact h.congr ⟨rfl, rfl, rfl, rfl, rfl, rfl, rfl⟩
    have hsame : Tended { s with
        claims := s.claims.erase claim, claimCount := s.claimCount - 1 } :=
      h.congr ⟨rfl, rfl, rfl, rfl, rfl, rfl, rfl⟩
    split
    · exact hsame
    split
    case h_1 hqueued =>
      refine hsame.relock ?_ (fun hgranted => nomatch hgranted)
        ⟨(fun hnone => nomatch hnone), fun hidle => nomatch hidle⟩
      exact hqueued ▸ fun hgranted => nomatch hgranted
    case h_2 hgranted => exact hsame.runRetirement hgranted
    case h_3 => exact hsame

theorem Tended.onLock {s : CoordinatorState} (h : Tended s) {request : ℕ}
    (hrequest : s.request = some request) : Tended (s.onLock request) := by
  have hqueued : s.lockState = .queued := h.request_iff.1 (by rw [hrequest]; rfl)
  have hnone : s.engineHandle = none := by
    refine Option.not_isSome_iff_eq_none.1 fun hsome => ?_
    have hgranted := h.leads hsome
    rw [hqueued] at hgranted
    cases hgranted
  have hretiring : s.retiring = false := by
    by_contra hretiring
    have hgranted := h.retiring (by simpa using hretiring)
    rw [hqueued] at hgranted
    cases hgranted
  have hgrant := h.grant hrequest
  unfold CoordinatorState.onLock
  dsimp only
  split
  · exact hgrant.settle rfl hnone hretiring
  · have hposted : Tended (CoordinatorState.post (act { s with
        request := none, lockState := .granted, grantSettle := some request } [.granted request])
        .leaderGranted) := hgrant.congr ⟨rfl, rfl, rfl, rfl, rfl, rfl, rfl⟩
    exact (hposted.spawn hnone rfl).congr ⟨rfl, rfl, rfl, rfl, rfl, rfl, rfl⟩

theorem isLeader_iff {s : CoordinatorState} : s.isLeader = true ↔ s.lockState = .granted := by
  rw [CoordinatorState.isLeader, decide_eq_true_iff]

theorem Tended.onEngineError {s : CoordinatorState} (h : Tended s) {engine : ℕ}
    (htimely : Timely s (.engineError engine)) : Tended (s.onEngineError engine) := by
  unfold CoordinatorState.onEngineError
  split
  case isFalse => exact h
  case isTrue hleader =>
    have hdrop := (h.drop (.error engine) fun current blamed hcurrent hblamed => by
      cases hblamed
      exact htimely hleader current hcurrent).1
    exact (hdrop.spawn rfl (isLeader_iff.1 hleader)).congr ⟨rfl, rfl, rfl, rfl, rfl, rfl, rfl⟩

theorem Tended.handleControlMessage {s : CoordinatorState} (h : Tended s) {port : ℕ}
    {message : EngineControlMessage} {engine : ℕ} (hport : port = s.swPort)
    (htimely : Timely s (.swMessage port message engine)) :
    Tended (s.handleControlMessage message engine) := by
  unfold CoordinatorState.handleControlMessage
  split
  case h_1 =>
    split
    · exact h.congr ⟨rfl, rfl, rfl, rfl, rfl, rfl, rfl⟩
    split
    · exact h.congr ⟨rfl, rfl, rfl, rfl, rfl, rfl, rfl⟩
    · exact h
  case h_2 identity =>
    split
    case isTrue hverdict =>
      have hdrop := (h.drop (.verdict engine) fun current blamed hcurrent hblamed => by
        cases hblamed
        exact htimely hport hverdict.1 hverdict.2 current hcurrent).1
      exact hdrop.congr ⟨rfl, rfl, rfl, rfl, rfl, rfl, rfl⟩
    case isFalse => exact h
  case h_3 => exact h.congr ⟨rfl, rfl, rfl, rfl, rfl, rfl, rfl⟩
  case h_4 => exact h.congr ⟨rfl, rfl, rfl, rfl, rfl, rfl, rfl⟩
  case h_5 => exact h

theorem Tended.keepaliveTick {s : CoordinatorState} (h : Tended s) :
    Tended (s.keepaliveTick options) := by
  unfold CoordinatorState.keepaliveTick CoordinatorState.onKeepaliveThreshold
  dsimp only
  split
  · split
    · exact h.congr ⟨rfl, rfl, rfl, rfl, rfl, rfl, rfl⟩
    · exact h.congr ⟨rfl, rfl, rfl, rfl, rfl, rfl, rfl⟩
  · exact h.congr ⟨rfl, rfl, rfl, rfl, rfl, rfl, rfl⟩

theorem Tended.finishRetirement {s : CoordinatorState} (h : Tended s) (hretiring : s.retiring = true) :
    Tended s.finishRetirement := by
  obtain ⟨hdrop, hgone⟩ := h.drop .retirement fun _ _ _ habout => nomatch habout
  -- the calls are released before the grant is settled, which commutes
  have hreleased : Tended { s.terminateEngine .retirement with
      engineHandle := none
      currentIdentity := none
      retiring := false
      retireCalls := s.retireCalls.map fun call => { call with retiring := false } } :=
    { hdrop with
      retiring := fun hflag => nomatch hflag
      calls_over := by
        intro call hcall _
        obtain ⟨call', hcall', rfl⟩ := List.mem_map.1 hcall
        exact hgone call' hcall'
      calls_wait := by
        intro call hcall hwait
        obtain ⟨call', hcall', rfl⟩ := List.mem_map.1 hcall
        cases hwait }
  exact (hreleased.settle (h.retiring hretiring) rfl rfl).congr ⟨rfl, rfl, rfl, rfl, rfl, rfl, rfl⟩

theorem Tended.finishVerdict {s : CoordinatorState} (h : Tended s)
    (htimely : Timely s .verdictResumes) : Tended s.finishVerdict := by
  unfold CoordinatorState.finishVerdict
  dsimp only
  split
  case isTrue hleader =>
    have hsame : Tended { s with verdicts := s.verdicts - 1 } :=
      h.congr ⟨rfl, rfl, rfl, rfl, rfl, rfl, rfl⟩
    exact (hsame.spawn (htimely hleader) (isLeader_iff.1 hleader)).congr
      ⟨rfl, rfl, rfl, rfl, rfl, rfl, rfl⟩
  case isFalse => exact h.congr ⟨rfl, rfl, rfl, rfl, rfl, rfl, rfl⟩

theorem Tended.onPageHide {s : CoordinatorState} (h : Tended s) (persisted : Bool) :
    Tended (s.onPageHide persisted) := by
  unfold CoordinatorState.onPageHide
  split
  case isFalse => exact h
  case isTrue =>
    dsimp only
    split
    case isTrue hgranted =>
      have hsame : Tended { s with frozen := true, bfcacheSuspended := true } :=
        h.congr ⟨rfl, rfl, rfl, rfl, rfl, rfl, rfl⟩
      exact hsame.runRetirement hgranted
    case isFalse => exact h.congr ⟨rfl, rfl, rfl, rfl, rfl, rfl, rfl⟩

theorem Tended.onPageShow {s : CoordinatorState} (h : Tended s) : Tended s.onPageShow := by
  unfold CoordinatorState.onPageShow
  dsimp only
  split
  case isFalse => exact h.congr ⟨rfl, rfl, rfl, rfl, rfl, rfl, rfl⟩
  case isTrue =>
    have hsame : Tended { s with frozen := false, bfcacheSuspended := false } :=
      h.congr ⟨rfl, rfl, rfl, rfl, rfl, rfl, rfl⟩
    split
    · exact hsame.queueLock
    · exact hsame

theorem Tended.retireEngine {s : CoordinatorState} (h : Tended s)
    (htimely : Timely s .retireEngine) : Tended s.retireEngine := by
  unfold CoordinatorState.retireEngine
  split
  case h_2 => exact h
  case h_1 engine hleader hhandle =>
    have hretiring : s.retiring = false := htimely hleader (by rw [hhandle]; rfl)
    have hgranted := isLeader_iff.1 hleader
    have hflag : Tended { s with
        retireCalls := s.retireCalls ++ [⟨engine, !s.retiring⟩], retiring := true } :=
      { h with
        retiring := fun _ => hgranted
        calls_over := by
          intro call hcall hover
          obtain hcall | hcall := List.mem_append.1 hcall
          · exact h.calls_over call hcall hover
          · rw [List.mem_singleton.1 hcall, hretiring] at hover
            cases hover
        calls_wait := by
          intro call hcall hwait
          obtain hcall | hcall := List.mem_append.1 hcall
          · exact ⟨rfl, (h.calls_wait call hcall hwait).2⟩
          · rw [List.mem_singleton.1 hcall]
            exact ⟨rfl, Or.inl hhandle⟩ }
    exact hflag.congr (sameEngine_runRetirement
      { s with retireCalls := s.retireCalls ++ [⟨engine, !s.retiring⟩] })

/-- A call that waits no longer resolves. -/
theorem Tended.retireResumes {s : CoordinatorState} (h : Tended s) {index engine : ℕ}
    (hcall : s.retireCalls[index]? = some ⟨engine, false⟩) :
    Tended (act { s with retireCalls := s.retireCalls.eraseIdx index } [.retireResolved engine]) := by
  have hmem : ⟨engine, false⟩ ∈ s.retireCalls := List.mem_of_getElem? hcall
  have hlive : live (s.acts ++ [.retireResolved engine]) = live s.acts := by
    rw [live, List.foldl_append]
    rfl
  have hheld : lockHeld (s.acts ++ [.retireResolved engine]) = lockHeld s.acts := by
    rw [lockHeld, List.foldl_append]
    rfl
  have hsub : ∀ call ∈ s.retireCalls.eraseIdx index, call ∈ s.retireCalls :=
    fun call hin => List.mem_of_mem_eraseIdx hin
  have hgrown : s.acts <+: s.acts ++ [.retireResolved engine] := List.prefix_append _ _
  constructor
  · exact hlive.trans h.live_eq
  · exact (iff_of_eq (congrArg (· = true) hheld)).trans h.held_iff
  · exact h.request_iff
  · exact h.grant_iff
  · exact h.leads
  · exact h.retiring
  · exact fun call hin hover => (h.calls_over call (hsub call hin) hover).mono hgrown
  · intro call hin hwait
    obtain ⟨hflag, hcurrent | hgone⟩ := h.calls_wait call (hsub call hin) hwait
    · exact ⟨hflag, Or.inl hcurrent⟩
    · exact ⟨hflag, Or.inr (hgone.mono hgrown)⟩
  · have hnow := h.one.one s.acts List.prefix_rfl
    refine h.one.snoc _ ?_ (fun hne => ?_) (fun _ _ _ heq => nomatch heq) fun engine' heq => ?_
    · rw [hlive]
      exact hnow.1
    · rw [hheld]
      exact hnow.2 (hlive ▸ hne)
    · obtain rfl := Act.retireResolved.inj heq
      exact h.calls_over _ hmem rfl

/-! ### Runs -/

theorem Tended.step {s s' : CoordinatorState} {event : CoordinatorEvent} (h : Tended s)
    (htimely : Timely s event) (hstep : s.step options event = some s') : Tended s' := by
  cases event with
  | claim =>
    obtain rfl := Option.some.inj hstep
    exact h.addClaim
  | release claim =>
    obtain rfl := Option.some.inj hstep
    exact h.release claim
  | lockGranted =>
    rw [CoordinatorState.step] at hstep
    split at hstep
    · rename_i request hrequest _
      obtain rfl := Option.some.inj hstep
      exact h.onLock hrequest
    · cases hstep
  | engineError engine =>
    obtain rfl := Option.some.inj hstep
    exact h.onEngineError htimely
  | swMessage port message engine =>
    obtain rfl := Option.some.inj hstep
    split
    case isTrue hport => exact h.handleControlMessage hport htimely
    case isFalse => exact h
  | keepaliveTimer =>
    rw [CoordinatorState.step] at hstep
    split at hstep
    · obtain rfl := Option.some.inj hstep
      exact h.keepaliveTick
    · cases hstep
  | teardownTimeout =>
    rw [CoordinatorState.step] at hstep
    split at hstep
    · cases hstep
    · obtain rfl := Option.some.inj hstep
      exact h.congr ⟨rfl, rfl, rfl, rfl, rfl, rfl, rfl⟩
  | retirementResumes =>
    rw [CoordinatorState.step] at hstep
    split at hstep
    case isTrue hready =>
      obtain rfl := Option.some.inj hstep
      exact h.finishRetirement hready.1
    case isFalse => cases hstep
  | verdictResumes =>
    rw [CoordinatorState.step] at hstep
    split at hstep
    · obtain rfl := Option.some.inj hstep
      exact h.finishVerdict htimely
    · cases hstep
  | pageHide persisted =>
    obtain rfl := Option.some.inj hstep
    exact h.onPageHide persisted
  | pageShow =>
    obtain rfl := Option.some.inj hstep
    exact h.onPageShow
  | retireEngine =>
    obtain rfl := Option.some.inj hstep
    exact h.retireEngine htimely
  | retireResumes call =>
    rw [CoordinatorState.step] at hstep
    split at hstep
    · rename_i engine hcall
      obtain rfl := Option.some.inj hstep
      exact h.retireResumes hcall
    · cases hstep

/-! ### Main results -/

/-- In a run of timely events there is one engine per grant. -/
theorem one_engine_of_timely (options : CoordinatorOptions) (events : List CoordinatorEvent)
    (s : CoordinatorState)
    (htimely : Runs.Meets (CoordinatorState.step options) Timely .initial events)
    (hrun : Runs.run (CoordinatorState.step options) .initial events = some s) : OneEngine s.acts :=
  (Runs.invariant (fun _ _ _ h hok hstep => h.step hok hstep) tended_initial htimely hrun).one

/-- An engine that dies and is spawned again, and the retirement of its successor. -/
def respawnedRun : List CoordinatorEvent :=
  [.claim, .lockGranted, .engineError 0, .retireEngine, .teardownTimeout, .retirementResumes,
    .retireResumes 0]

theorem one_engine_of_timely_respawned :
    ∃ s, Runs.run (CoordinatorState.step ⟨2, true⟩) .initial respawnedRun = some s ∧
      OneEngine s.acts := by
  refine ⟨_, rfl, one_engine_of_timely ⟨2, true⟩ respawnedRun _ ?_ rfl⟩
  refine Runs.meets_cons trivial rfl (Runs.meets_cons trivial rfl ?_)
  refine Runs.meets_cons (fun _ current hcurrent => (Option.some.inj hcurrent).symm) rfl ?_
  refine Runs.meets_cons (fun _ _ => rfl) rfl (Runs.meets_cons trivial rfl ?_)
  exact Runs.meets_cons trivial rfl (Runs.meets_cons trivial rfl trivial)

/-- A verdict terminates the engine and awaits the ownership release; an error that the engine raised
before arrives meanwhile. -/
def lateErrorRun : List CoordinatorEvent :=
  [.claim, .lockGranted, .swMessage 0 (.engineReady ⟨"sw", 0⟩) 0,
    .swMessage 0 (.engineRetiring ⟨"sw", 0⟩) 0, .engineError 0, .verdictResumes]

/-- Both spawn, and two engines live. -/
theorem late_error_spawns_two :
    ¬∀ (options : CoordinatorOptions) (events : List CoordinatorEvent) (s : CoordinatorState),
      Runs.run (CoordinatorState.step options) .initial events = some s → OneEngine s.acts := by
  intro hall
  have hone := (hall ⟨2, true⟩ lateErrorRun _ rfl).one _ List.prefix_rfl
  exact absurd hone.1 (by decide)

end Placement
