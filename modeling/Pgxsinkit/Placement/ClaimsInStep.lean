/-
Claims and the lock request stay in step.

`queueLock` asks only when the lock is idle, and a retirement keeps it granted until it ends.  So
the one way out of step is a retirement that ends while a claim is unreleased on a page that is not
suspended; every other handler keeps `InStep`.
-/
import Pgxsinkit.Placement.Coordinator

namespace Placement

open CoordinatorState

variable {options : CoordinatorOptions}

/-- Outside of a retirement, a claim on a page that is not frozen has its request queued or granted,
and without a claim the lock is neither queued nor held. -/
def Heard (s : CoordinatorState) : Prop :=
  s.retiring = false →
    (s.claims ≠ [] → s.frozen = false → s.request.isSome ∨ s.grantSettle.isSome) ∧
    (s.claims = [] → s.request = none ∧ s.grantSettle = none)

/-- The retirement that ends leaves no claim behind, or `pageshow` will ask again. -/
def EndsQuiet (s : CoordinatorState) : CoordinatorEvent → Prop
  | .retirementResumes => s.claimCount = 0 ∨ s.bfcacheSuspended = true
  | .retireEngine => False
  | _ => True

/-! ### The invariant -/

structure InStep (s : CoordinatorState) : Prop where
  count : s.claimCount = s.claims.length
  request_iff : s.request.isSome ↔ s.lockState = .queued
  grant_iff : s.grantSettle.isSome ↔ s.lockState = .granted
  suspended : s.bfcacheSuspended = true → s.frozen = true
  retiring : s.retiring = true → s.lockState = .granted
  idle : s.claimCount = 0 → s.retiring = false → s.lockState = .idle
  asked : 0 < s.claimCount → s.retiring = false → s.bfcacheSuspended = false → s.lockState ≠ .idle

theorem inStep_initial : InStep .initial := by
  constructor <;> simp [CoordinatorState.initial]

theorem InStep.heard {s : CoordinatorState} (h : InStep s) : Heard s := by
  intro hretiring
  refine ⟨fun hclaims hfrozen => ?_, fun hclaims => ?_⟩
  · have hcount : 0 < s.claimCount := by
      rw [h.count]
      exact List.length_pos_iff.2 hclaims
    have hsuspended : s.bfcacheSuspended = false := by
      by_contra hsuspended
      rw [h.suspended (by simpa using hsuspended)] at hfrozen
      cases hfrozen
    have hasked := h.asked hcount hretiring hsuspended
    cases hlock : s.lockState with
    | idle => exact absurd hlock hasked
    | queued => exact Or.inl (h.request_iff.2 hlock)
    | granted => exact Or.inr (h.grant_iff.2 hlock)
  · have hidle := h.idle (by rw [h.count, hclaims]; rfl) hretiring
    constructor
    · refine Option.not_isSome_iff_eq_none.1 fun hrequest => ?_
      have hqueued := h.request_iff.1 hrequest
      rw [hidle] at hqueued
      cases hqueued
    · refine Option.not_isSome_iff_eq_none.1 fun hgrant => ?_
      have hgranted := h.grant_iff.1 hgrant
      rw [hidle] at hgranted
      cases hgranted

/-! ### What touches neither claims nor lock -/

structure SameLock (s s' : CoordinatorState) : Prop where
  claimCount : s'.claimCount = s.claimCount
  claims : s'.claims = s.claims
  lockState : s'.lockState = s.lockState
  request : s'.request = s.request
  grantSettle : s'.grantSettle = s.grantSettle
  retiring : s'.retiring = s.retiring
  bfcacheSuspended : s'.bfcacheSuspended = s.bfcacheSuspended
  frozen : s'.frozen = s.frozen

theorem SameLock.refl (s : CoordinatorState) : SameLock s s := ⟨rfl, rfl, rfl, rfl, rfl, rfl, rfl, rfl⟩

theorem InStep.congr {s s' : CoordinatorState} (h : InStep s) (hsame : SameLock s s') : InStep s' := by
  constructor
  · rw [hsame.claimCount, hsame.claims]
    exact h.count
  · rw [hsame.request, hsame.lockState]
    exact h.request_iff
  · rw [hsame.grantSettle, hsame.lockState]
    exact h.grant_iff
  · rw [hsame.bfcacheSuspended, hsame.frozen]
    exact h.suspended
  · rw [hsame.retiring, hsame.lockState]
    exact h.retiring
  · rw [hsame.claimCount, hsame.retiring, hsame.lockState]
    exact h.idle
  · rw [hsame.claimCount, hsame.retiring, hsame.bfcacheSuspended, hsame.lockState]
    exact h.asked

theorem sameLock_onEngineError (s : CoordinatorState) (engine : ℕ) :
    SameLock s (s.onEngineError engine) := by
  unfold CoordinatorState.onEngineError
  split
  · exact ⟨rfl, rfl, rfl, rfl, rfl, rfl, rfl, rfl⟩
  · exact SameLock.refl s

theorem sameLock_finishVerdict (s : CoordinatorState) : SameLock s s.finishVerdict := by
  unfold CoordinatorState.finishVerdict
  dsimp only
  split
  · exact ⟨rfl, rfl, rfl, rfl, rfl, rfl, rfl, rfl⟩
  · exact ⟨rfl, rfl, rfl, rfl, rfl, rfl, rfl, rfl⟩

theorem sameLock_handleControlMessage (s : CoordinatorState) (message : EngineControlMessage)
    (engine : ℕ) : SameLock s (s.handleControlMessage message engine) := by
  unfold CoordinatorState.handleControlMessage
  split
  case h_1 =>
    split
    · exact ⟨rfl, rfl, rfl, rfl, rfl, rfl, rfl, rfl⟩
    split
    · exact ⟨rfl, rfl, rfl, rfl, rfl, rfl, rfl, rfl⟩
    · exact SameLock.refl s
  case h_2 =>
    split
    · exact ⟨rfl, rfl, rfl, rfl, rfl, rfl, rfl, rfl⟩
    · exact SameLock.refl s
  case h_3 => exact ⟨rfl, rfl, rfl, rfl, rfl, rfl, rfl, rfl⟩
  case h_4 => exact ⟨rfl, rfl, rfl, rfl, rfl, rfl, rfl, rfl⟩
  case h_5 => exact SameLock.refl s

theorem sameLock_keepaliveTick (s : CoordinatorState) : SameLock s (s.keepaliveTick options) := by
  unfold CoordinatorState.keepaliveTick CoordinatorState.onKeepaliveThreshold
  dsimp only
  split
  · split
    · exact ⟨rfl, rfl, rfl, rfl, rfl, rfl, rfl, rfl⟩
    · exact ⟨rfl, rfl, rfl, rfl, rfl, rfl, rfl, rfl⟩
  · exact ⟨rfl, rfl, rfl, rfl, rfl, rfl, rfl, rfl⟩

/-! ### What moves them -/

/-- `runRetirement` sets the flag, and touches nothing else of the lock. -/
theorem sameLock_runRetirement (s : CoordinatorState) :
    SameLock { s with retiring := true } s.runRetirement := by
  unfold CoordinatorState.runRetirement
  split
  case isTrue hretiring =>
    rw [← hretiring]
    exact SameLock.refl s
  case isFalse => exact ⟨rfl, rfl, rfl, rfl, rfl, rfl, rfl, rfl⟩

/-- A retirement may begin under the grant, whatever the claims. -/
theorem inStep_runRetirement {s : CoordinatorState} (hcount : s.claimCount = s.claims.length)
    (hrequest : s.request.isSome ↔ s.lockState = .queued)
    (hgrant : s.grantSettle.isSome ↔ s.lockState = .granted)
    (hsuspended : s.bfcacheSuspended = true → s.frozen = true) (hgranted : s.lockState = .granted) :
    InStep s.runRetirement := by
  have hflag : InStep { s with retiring := true } :=
    { count := hcount
      request_iff := hrequest
      grant_iff := hgrant
      suspended := hsuspended
      retiring := fun _ => hgranted
      idle := fun _ hretiring => nomatch hretiring
      asked := fun _ hretiring => nomatch hretiring }
  exact hflag.congr (sameLock_runRetirement s)

theorem InStep.addClaim {s : CoordinatorState} (h : InStep s) : InStep s.addClaim := by
  have hcount : s.claimCount + 1 = (s.claims ++ [s.claimSeq]).length := by
    rw [List.length_append, h.count]
    rfl
  unfold CoordinatorState.addClaim CoordinatorState.queueLock
  dsimp only
  split
  case isFalse hmore =>
    refine ⟨hcount, h.request_iff, h.grant_iff, h.suspended, h.retiring, ?_, fun _ => h.asked ?_⟩
    · exact fun hzero => absurd hzero (Nat.succ_ne_zero _)
    · exact Nat.pos_of_ne_zero fun hzero => hmore (by rw [hzero])
  case isTrue hfirst =>
    split
    case isTrue hidle =>
      have hno : ¬s.grantSettle.isSome = true := by
        rw [h.grant_iff, hidle]
        exact fun hgranted => nomatch hgranted
      refine ⟨hcount, ⟨fun _ => rfl, fun _ => rfl⟩, ⟨fun hgrant => absurd hgrant hno, ?_⟩,
        h.suspended, fun hretiring => ?_, fun hzero => ?_, fun _ _ _ hqueued => nomatch hqueued⟩
      · exact fun hgranted => nomatch hgranted
      · have hgranted := h.retiring hretiring
        rw [hidle] at hgranted
        cases hgranted
      · exact absurd hzero (Nat.succ_ne_zero _)
    case isFalse hnot =>
      exact ⟨hcount, h.request_iff, h.grant_iff, h.suspended, h.retiring,
        fun hzero => absurd hzero (Nat.succ_ne_zero _), fun _ _ _ => hnot⟩

theorem InStep.release {s : CoordinatorState} (h : InStep s) (claim : ℕ) :
    InStep (s.release claim) := by
  unfold CoordinatorState.release CoordinatorState.releaseClaim
  split
  case isFalse => exact h
  case isTrue hmem =>
    have hlength := List.length_erase_of_mem hmem
    have hpos : 0 < s.claims.length := List.length_pos_of_mem hmem
    have hcount : s.claimCount - 1 = (s.claims.erase claim).length := by rw [h.count, hlength]
    dsimp only
    rw [if_neg (by rw [h.count]; omega)]
    split
    case isTrue hleft =>
      exact ⟨hcount, h.request_iff, h.grant_iff, h.suspended, h.retiring,
        fun hzero => absurd hzero hleft.ne', fun _ => h.asked (by omega)⟩
    case isFalse hlast =>
      split
      case h_1 hqueued =>
        have hno : ¬s.grantSettle.isSome = true := by
          rw [h.grant_iff, hqueued]
          exact fun hgranted => nomatch hgranted
        refine ⟨hcount, ⟨(fun hnone => nomatch hnone), fun hidle => nomatch hidle⟩,
          ⟨fun hgrant => absurd hgrant hno, fun hidle => nomatch hidle⟩, h.suspended,
          fun hretiring => ?_, fun _ _ => rfl, fun hmore => absurd hmore hlast⟩
        have hgranted := h.retiring hretiring
        rw [hqueued] at hgranted
        cases hgranted
      case h_2 hgranted =>
        exact inStep_runRetirement hcount h.request_iff h.grant_iff h.suspended hgranted
      case h_3 hidle =>
        exact ⟨hcount, h.request_iff, h.grant_iff, h.suspended, h.retiring, fun _ _ => hidle,
          fun hmore => absurd hmore hlast⟩

theorem InStep.onLock {s : CoordinatorState} (h : InStep s) {request : ℕ}
    (hrequest : s.request = some request) : InStep (s.onLock request) := by
  have hqueued : s.lockState = .queued := h.request_iff.1 (by rw [hrequest]; rfl)
  have hretiring : s.retiring = false := by
    by_contra hretiring
    have hgranted := h.retiring (by simpa using hretiring)
    rw [hqueued] at hgranted
    cases hgranted
  unfold CoordinatorState.onLock
  dsimp only
  split
  case isTrue hzero =>
    have hidle := h.idle hzero hretiring
    rw [hqueued] at hidle
    cases hidle
  case isFalse hclaims =>
    exact ⟨h.count, ⟨(fun hnone => nomatch hnone), fun hgranted => nomatch hgranted⟩,
      ⟨fun _ => rfl, fun _ => rfl⟩, h.suspended, fun _ => rfl, fun hzero => absurd hzero hclaims,
      fun _ _ _ hidle => nomatch hidle⟩

theorem InStep.finishRetirement {s : CoordinatorState} (h : InStep s) (hretiring : s.retiring = true)
    (hquiet : s.claimCount = 0 ∨ s.bfcacheSuspended = true) : InStep s.finishRetirement := by
  have hno : ¬s.request.isSome = true := by
    rw [h.request_iff, h.retiring hretiring]
    exact fun hqueued => nomatch hqueued
  refine ⟨h.count, ⟨fun hrequest => absurd hrequest hno, fun hidle => nomatch hidle⟩,
    ⟨(fun hnone => nomatch hnone), fun hidle => nomatch hidle⟩, h.suspended,
    (fun hflag => nomatch hflag), fun _ _ => rfl, fun hclaims _ hsuspended => ?_⟩
  obtain hzero | htrue := hquiet
  · exact absurd hzero hclaims.ne'
  · cases hsuspended.symm.trans htrue

theorem InStep.onPageHide {s : CoordinatorState} (h : InStep s) (persisted : Bool) :
    InStep (s.onPageHide persisted) := by
  unfold CoordinatorState.onPageHide
  split
  case isFalse => exact h
  case isTrue =>
    dsimp only
    split
    case isTrue hgranted =>
      exact inStep_runRetirement h.count h.request_iff h.grant_iff (fun _ => rfl) hgranted
    case isFalse =>
      exact ⟨h.count, h.request_iff, h.grant_iff, fun _ => rfl, h.retiring, h.idle, h.asked⟩

theorem InStep.onPageShow {s : CoordinatorState} (h : InStep s) : InStep s.onPageShow := by
  unfold CoordinatorState.onPageShow CoordinatorState.queueLock
  dsimp only
  split
  case isFalse hsuspended =>
    exact ⟨h.count, h.request_iff, h.grant_iff, fun htrue => absurd htrue hsuspended, h.retiring,
      h.idle, h.asked⟩
  case isTrue =>
    split
    case isFalse hnone =>
      exact ⟨h.count, h.request_iff, h.grant_iff, (fun hfalse => nomatch hfalse), h.retiring, h.idle,
        fun hclaims => absurd hclaims hnone⟩
    case isTrue hclaims =>
      split
      case isTrue hidle =>
        have hno : ¬s.grantSettle.isSome = true := by
          rw [h.grant_iff, hidle]
          exact fun hgranted => nomatch hgranted
        refine ⟨h.count, ⟨fun _ => rfl, fun _ => rfl⟩, ⟨fun hgrant => absurd hgrant hno, ?_⟩,
          (fun hfalse => nomatch hfalse), fun hretiring => ?_, fun hzero => absurd hzero hclaims.ne',
          fun _ _ _ hqueued => nomatch hqueued⟩
        · exact fun hgranted => nomatch hgranted
        · have hgranted := h.retiring hretiring
          rw [hidle] at hgranted
          cases hgranted
      case isFalse hnot =>
        exact ⟨h.count, h.request_iff, h.grant_iff, (fun hfalse => nomatch hfalse), h.retiring, h.idle,
          fun _ _ _ => hnot⟩

/-! ### Runs -/

theorem InStep.step {s s' : CoordinatorState} {event : CoordinatorEvent} (h : InStep s)
    (hquiet : EndsQuiet s event) (hstep : s.step options event = some s') : InStep s' := by
  cases event with
  | claim =>
    obtain rfl := Option.some.inj hstep
    exact h.addClaim
  | release claim =>
    obtain rfl := Option.some.inj hstep
    exact h.release claim
  | lockGranted =>
    rw [CoordinatorState.step] at hstep
    split at hstep
    · rename_i request hrequest _
      obtain rfl := Option.some.inj hstep
      exact h.onLock hrequest
    · cases hstep
  | engineError engine =>
    obtain rfl := Option.some.inj hstep
    exact h.congr (sameLock_onEngineError s engine)
  | swMessage port message engine =>
    obtain rfl := Option.some.inj hstep
    split
    · exact h.congr (sameLock_handleControlMessage s message engine)
    · exact h
  | keepaliveTimer =>
    rw [CoordinatorState.step] at hstep
    split at hstep
    · obtain rfl := Option.some.inj hstep
      exact h.congr (sameLock_keepaliveTick s)
    · cases hstep
  | teardownTimeout =>
    rw [CoordinatorState.step] at hstep
    split at hstep
    · cases hstep
    · obtain rfl := Option.some.inj hstep
      exact h.congr ⟨rfl, rfl, rfl, rfl, rfl, rfl, rfl, rfl⟩
  | retirementResumes =>
    rw [CoordinatorState.step] at hstep
    split at hstep
    case isTrue hready =>
      obtain rfl := Option.some.inj hstep
      exact h.finishRetirement hready.1 hquiet
    case isFalse => cases hstep
  | verdictResumes =>
    rw [CoordinatorState.step] at hstep
    split at hstep
    · obtain rfl := Option.some.inj hstep
      exact h.congr (sameLock_finishVerdict s)
    · cases hstep
  | pageHide persisted =>
    obtain rfl := Option.some.inj hstep
    exact h.onPageHide persisted
  | pageShow =>
    obtain rfl := Option.some.inj hstep
    exact h.onPageShow
  | retireEngine => exact absurd hquiet id
  | retireResumes call =>
    rw [CoordinatorState.step] at hstep
    split at hstep
    · obtain rfl := Option.some.inj hstep
      exact h.congr ⟨rfl, rfl, rfl, rfl, rfl, rfl, rfl, rfl⟩
    · cases hstep

/-! ### Main results -/

/-- In a run whose retirements end with no claim left behind, or on a suspended page, claims and lock
are in step in every state. -/
theorem heard_of_endsQuiet (options : CoordinatorOptions) (events : List CoordinatorEvent)
    (s : CoordinatorState)
    (hquiet : Runs.Meets (CoordinatorState.step options) EndsQuiet .initial events)
    (hrun : Runs.run (CoordinatorState.step options) .initial events = some s) : Heard s :=
  (Runs.invariant (fun _ _ _ h hok hstep => h.step hok hstep) inStep_initial hquiet hrun).heard

/-- A tab whose only claim is released while its engine runs. -/
def releasedRun : List CoordinatorEvent :=
  [.claim, .lockGranted, .swMessage 0 (.engineReady ⟨"sw", 0⟩) 0, .release 0,
    .swMessage 0 (.controlAck ⟨"sw", 0⟩ (-1)) 0, .retirementResumes]

theorem heard_of_endsQuiet_released :
    ∃ s, Runs.run (CoordinatorState.step ⟨2, true⟩) .initial releasedRun = some s ∧ Heard s := by
  refine ⟨_, rfl, heard_of_endsQuiet ⟨2, true⟩ releasedRun _ ?_ rfl⟩
  refine Runs.meets_cons trivial rfl (Runs.meets_cons trivial rfl ?_)
  refine Runs.meets_cons trivial rfl (Runs.meets_cons trivial rfl ?_)
  exact Runs.meets_cons trivial rfl (Runs.meets_cons (Or.inl rfl) rfl trivial)

/-- The same tab, which claims again before the teardown is acknowledged. -/
def reclaimedRun : List CoordinatorEvent :=
  [.claim, .lockGranted, .swMessage 0 (.engineReady ⟨"sw", 0⟩) 0, .release 0, .claim,
    .swMessage 0 (.controlAck ⟨"sw", 0⟩ (-1)) 0, .retirementResumes]

/-- The new claim is stranded: its tab neither holds the lock nor asks for it. -/
theorem reclaim_is_stranded :
    ¬∀ (options : CoordinatorOptions) (events : List CoordinatorEvent) (s : CoordinatorState),
      CoordinatorEvent.retireEngine ∉ events →
      Runs.run (CoordinatorState.step options) .initial events = some s → Heard s := by
  intro hall
  have hcall : CoordinatorEvent.retireEngine ∉ reclaimedRun := by simp [reclaimedRun]
  obtain hrequest | hgrant := (hall ⟨2, true⟩ reclaimedRun _ hcall rfl rfl).1 (by decide) rfl
  · cases hrequest
  · cases hgrant

end Placement
