/-
Teardown acks are genuine.

An ack of an engine names the identity it was assigned, and its number tells a teardown's ack from a
probe's.  The router relays what it does not recognise, the coordinator compares the identity alone;
so a wait ends by a teardown's ack as long as every probe ack is recognised and the wait is for the
identity of the engine that is retired.
-/
import Pgxsinkit.Placement.Network
import Pgxsinkit.Placement.Pipes

namespace Placement

open RouterState

/-! ### Where a post of the router comes from -/

/-- Neither an ack nor a ping, and no identity is assigned with it. -/
def Post.quiet (post : Post) : Prop :=
  match post.message with
  | .controlAck _ _ | .controlPing _ _ | .assignIdentity _ => False
  | _ => True

def AddsQuiet (s s' : RouterState) : Prop := ∀ post ∈ s'.posts, post ∈ s.posts ∨ post.quiet

inductive Origin (options : EngineRouterOptions) (s : RouterState) (event : RouterEvent)
    (post : Post) : Prop where
  | quiet (h : post.quiet)
  /-- the answer to a ping of a tab -/
  | echoed {tab : ℕ} {identity : EngineIdentity} {pingId : ℤ}
      (hevent : event = .tabMessage tab (.controlPing identity pingId))
      (hmessage : post.message = .controlAck identity pingId)
  /-- an ack of the engine that the probe did not wait for -/
  | relayed {port : ℕ} {identity : EngineIdentity} {pingId : ℤ}
      (hevent : event = .controlMessage port (.controlAck identity pingId))
      (hport : s.controlPort = some port)
      (hother : ¬(s.currentIdentity = some identity ∧ s.pendingPingId = some pingId))
      (hmessage : post.message = .controlAck identity pingId)
  | probe {identity : EngineIdentity} {pingId : ℤ} (hpos : 1 ≤ pingId)
      (hmessage : post.message = .controlPing identity pingId)
  | assigned {port : ℕ} (hevent : event = .announceEngine port)
      (hpost : post =
        ⟨.engine port, .assignIdentity (mintEngineIdentity options.swInstanceId s.lastMinted), none⟩)

variable {options : EngineRouterOptions}

theorem AddsQuiet.refl (s : RouterState) : AddsQuiet s s := fun _ hpost => Or.inl hpost

theorem AddsQuiet.trans {s s' s'' : RouterState} (h : AddsQuiet s s') (h' : AddsQuiet s' s'') :
    AddsQuiet s s'' := by
  intro post hpost
  obtain hpost | hquiet := h' post hpost
  · exact h post hpost
  · exact Or.inr hquiet

theorem addsQuiet_post (s : RouterState) {posts : List Post} (hquiet : ∀ post ∈ posts, post.quiet) :
    AddsQuiet s (s.post posts) := by
  intro post hpost
  obtain hpost | hpost := List.mem_append.1 hpost
  · exact Or.inl hpost
  · exact Or.inr (hquiet post hpost)

theorem addsQuiet_fanToTabs (s : RouterState) {message : EngineControlMessage}
    (hquiet : ∀ tab, (⟨.tab tab, message, none⟩ : Post).quiet) : AddsQuiet s (s.fanToTabs message) := by
  refine addsQuiet_post s fun post hpost => ?_
  obtain ⟨tab, -, rfl⟩ := List.mem_map.1 hpost
  exact hquiet tab

theorem addsQuiet_retireCurrentEngine (s : RouterState) : AddsQuiet s s.retireCurrentEngine := by
  unfold RouterState.retireCurrentEngine
  split
  · exact AddsQuiet.refl s
  · exact addsQuiet_fanToTabs s.clearEngine fun _ => trivial

theorem addsQuiet_deliverPipe (s : RouterState) (tab : ℕ) :
    AddsQuiet s (s.deliverPipe options tab) := by
  unfold RouterState.deliverPipe
  split
  case h_2 => exact AddsQuiet.refl s
  case h_1 identity port hidentity hport =>
    have hposts : ∀ post ∈ [(⟨.engine port, .connectPort identity, some s.pipeSeq⟩ : Post),
        ⟨.tab tab, .connectPort identity, some s.pipeSeq⟩], post.quiet := by
      intro post hpost
      obtain rfl | rfl := List.mem_pair.1 hpost
      · exact trivial
      · exact trivial
    dsimp only
    split
    · exact addsQuiet_post s hposts
    · exact addsQuiet_post s hposts

theorem addsQuiet_foldl (s : RouterState) (tabs : List ℕ) :
    AddsQuiet s (tabs.foldl (deliverPipe options) s) := by
  induction tabs generalizing s with
  | nil => exact AddsQuiet.refl s
  | cons tab tabs ih => exact (addsQuiet_deliverPipe s tab).trans (ih _)

theorem startProbe_posts (s : RouterState) : s.startProbe.posts = s.posts := by
  unfold RouterState.startProbe
  split
  · rfl
  · rfl

theorem origin_onTabMessage (s : RouterState) (tab : ℕ) (message : EngineControlMessage) :
    ∀ post ∈ (s.onTabMessage options tab message).posts,
      post ∈ s.posts ∨ Origin options s (.tabMessage tab message) post := by
  have hquiet : ∀ {s'}, AddsQuiet s s' → ∀ post ∈ s'.posts,
      post ∈ s.posts ∨ Origin options s (.tabMessage tab message) post :=
    fun h post hpost => (h post hpost).imp_right Origin.quiet
  unfold RouterState.onTabMessage
  split
  case h_1 identity pingId =>
    intro post hpost
    obtain hpost | hpost := List.mem_append.1 hpost
    · exact Or.inl hpost
    · exact Or.inr (.echoed rfl (by rw [List.mem_singleton.1 hpost]))
  case h_2 identity =>
    split
    · intro post hpost
      rw [startProbe_posts] at hpost
      exact Or.inl hpost
    · exact hquiet (AddsQuiet.refl s)
  case h_3 identity =>
    split
    · refine hquiet (addsQuiet_post s fun post hpost => ?_)
      obtain ⟨port, -, rfl⟩ := List.mem_map.1 hpost
      exact trivial
    · exact hquiet (AddsQuiet.refl s)
  case h_4 => exact hquiet fun post hpost => Or.inl hpost
  case h_5 => exact hquiet (AddsQuiet.refl s)

theorem origin_onControlMessage {s : RouterState} {port : ℕ} (hport : s.controlPort = some port)
    (message : EngineControlMessage) :
    ∀ post ∈ (s.onControlMessage options message).posts,
      post ∈ s.posts ∨ Origin options s (.controlMessage port message) post := by
  have hquiet : ∀ {s'}, AddsQuiet s s' → ∀ post ∈ s'.posts,
      post ∈ s.posts ∨ Origin options s (.controlMessage port message) post :=
    fun h post hpost => (h post hpost).imp_right Origin.quiet
  unfold RouterState.onControlMessage
  split
  case h_1 identity =>
    split
    · exact hquiet (addsQuiet_foldl { s with engineReady := true } s.tabs)
    · exact hquiet (AddsQuiet.refl s)
  case h_2 identity =>
    split
    · exact hquiet fun post hpost => Or.inl hpost
    · exact hquiet (AddsQuiet.refl s)
  case h_3 identity pingId =>
    split
    · exact hquiet fun post hpost => Or.inl hpost
    case isFalse hother =>
      intro post hpost
      obtain hpost | hpost := List.mem_append.1 hpost
      · exact Or.inl hpost
      · obtain ⟨tab, -, rfl⟩ := List.mem_map.1 hpost
        refine Or.inr (.relayed rfl hport (fun hboth => hother ⟨?_, hboth.2⟩) rfl)
        simpa [shouldApplyControlMessage] using hboth.1
  case h_4 => exact hquiet (AddsQuiet.refl s)

theorem origin_probeTick (s : RouterState) (event : RouterEvent) :
    ∀ post ∈ (s.probeTick options).posts, post ∈ s.posts ∨ Origin options s event post := by
  have hquiet : ∀ {s'}, AddsQuiet s s' → ∀ post ∈ s'.posts,
      post ∈ s.posts ∨ Origin options s event post :=
    fun h post hpost => (h post hpost).imp_right Origin.quiet
  unfold RouterState.probeTick
  split
  case h_2 => exact hquiet fun post hpost => Or.inl hpost
  case h_1 identity port hidentity hport =>
    dsimp only
    generalize (if s.pendingPingId.isSome then s.missCount + 1 else s.missCount) = missCount
    by_cases hverdict : s.pendingPingId.isSome ∧ options.probeMissThreshold ≤ missCount
    · rw [if_pos hverdict]
      exact hquiet (addsQuiet_retireCurrentEngine s.resetProbe)
    · rw [if_neg hverdict]
      intro post hpost
      obtain hpost | hpost := List.mem_append.1 hpost
      · exact Or.inl hpost
      · have hpos : 1 ≤ ((s.pingSeq + 1 : ℕ) : ℤ) := by
          exact_mod_cast Nat.succ_le_succ (Nat.zero_le _)
        refine Or.inr (@Origin.probe _ _ _ _ identity _ hpos ?_)
        rw [List.mem_singleton.1 hpost]

theorem origin_step (s : RouterState) (event : RouterEvent) :
    ∀ post ∈ (s.step options event).posts, post ∈ s.posts ∨ Origin options s event post := by
  have hquiet : ∀ {s'}, AddsQuiet s s' → ∀ post ∈ s'.posts,
      post ∈ s.posts ∨ Origin options s event post :=
    fun h post hpost => (h post hpost).imp_right Origin.quiet
  cases event with
  | attachTab =>
    rw [RouterState.step, RouterState.attachTab]
    dsimp only
    split
    · exact hquiet (addsQuiet_deliverPipe
        { s with tabs := s.tabs ++ [s.tabSeq], tabSeq := s.tabSeq + 1 } s.tabSeq)
    · exact hquiet fun post hpost => Or.inl hpost
  | unregisterTab tab => exact hquiet fun post hpost => Or.inl hpost
  | tabMessage tab message =>
    rw [RouterState.step]
    split
    · exact origin_onTabMessage s tab message
    · exact hquiet (AddsQuiet.refl s)
  | announceEngine port =>
    intro post hpost
    obtain hpost | hpost := List.mem_append.1 hpost
    · exact Or.inl hpost
    · exact Or.inr (.assigned rfl (List.mem_singleton.1 hpost))
  | controlMessage port message =>
    rw [RouterState.step]
    split
    case isTrue hport => exact origin_onControlMessage hport message
    case isFalse => exact hquiet (AddsQuiet.refl s)
  | controlClose port announced =>
    rw [RouterState.step, RouterState.onControlPortClose]
    split
    · exact hquiet (AddsQuiet.refl s)
    split
    · exact hquiet (AddsQuiet.refl s)
    split
    · exact hquiet fun post hpost => Or.inl hpost
    · exact hquiet (addsQuiet_retireCurrentEngine s)
  | openHandoff reason =>
    cases reason with
    | leaderGranted => exact hquiet (addsQuiet_fanToTabs s.clearEngine fun _ => trivial)
    | engineRetiring => exact hquiet (addsQuiet_retireCurrentEngine s)
  | connectAckExpires =>
    rw [RouterState.step]
    split
    · exact hquiet (AddsQuiet.refl s)
    dsimp only
    split
    · intro post hpost
      rw [startProbe_posts] at hpost
      exact Or.inl hpost
    · exact hquiet fun post hpost => Or.inl hpost
  | probeTimer =>
    rw [RouterState.step]
    split
    · intro post hpost
      obtain hpost | horigin := origin_probeTick { s with probeArmed := false } .probeTimer post hpost
      · exact Or.inl hpost
      · right
        cases horigin with
        | quiet h => exact .quiet h
        | probe hpos hmessage => exact .probe hpos hmessage
        | echoed hevent hmessage => cases hevent
        | relayed hevent hport hother hmessage => cases hevent
        | assigned hevent hpost => cases hevent
    · exact hquiet (AddsQuiet.refl s)

/-- An identity is minted by an announcement alone. -/
theorem lastMinted_step (s : RouterState) {event : RouterEvent}
    (hevent : ∀ port, event ≠ .announceEngine port) :
    (s.step options event).lastMinted = s.lastMinted := by
  have houtcome := outcome_step options s event
  generalize s.step options event = s' at houtcome ⊢
  cases houtcome with
  | kept hkept => exact hkept.minted
  | @noticed _ t hkept htabs hposts => exact (lastMinted_retireCurrentEngine t).1.trans hkept.minted
  | tornDown hcurrent hforwarded => rfl
  | announced port => exact absurd rfl (hevent port)
  | granted => rfl

/-! ### How a coordinator moves -/

/-- The event begins the retirement of the engine that is held. -/
def BeginsRetirement (s : CoordinatorState) : CoordinatorEvent → Prop
  | .release claim => s.retiring = false ∧ s.lockState = .granted ∧ claim ∈ s.claims ∧ s.claimCount = 1
  | .pageHide persisted => s.retiring = false ∧ s.lockState = .granted ∧ persisted = true
  | .retireEngine => s.retiring = false ∧ s.lockState = .granted ∧ s.engineHandle.isSome
  | _ => False

/-- No wait begins, and no ping but of the keepalive is posted. -/
structure Grows (s s' : CoordinatorState) : Prop where
  channels : s.channels <+: s'.channels
  pings : ∀ post ∈ s'.posts, post ∈ s.posts ∨
    ∀ identity pingId, post.message = .controlPing identity pingId → identity = KEEPALIVE_IDENTITY
  waits : ∀ identity, s'.teardownWait = some identity →
    s.teardownWait = some identity ∧ (s.retiring = true → s'.retiring = true)

/-- An event keeps what a coordinator waits for, or begins a retirement. -/
inductive Moved (s : CoordinatorState) (event : CoordinatorEvent) : CoordinatorState → Prop where
  | grows {s'} (h : Grows s s') : Moved s event s'
  | begins {t} (h : Grows s t) (hretiring : t.retiring = false)
      (hidentity : t.currentIdentity = s.currentIdentity) (hbegins : BeginsRetirement s event) :
      Moved s event t.runRetirement

theorem Grows.refl (s : CoordinatorState) : Grows s s :=
  ⟨List.prefix_rfl, fun _ hpost => Or.inl hpost, fun _ hwait => ⟨hwait, id⟩⟩

theorem Grows.trans {s s' s'' : CoordinatorState} (h : Grows s s') (h' : Grows s' s'') :
    Grows s s'' := by
  refine ⟨h.channels.trans h'.channels, fun post hpost => ?_, fun identity hwait => ?_⟩
  · obtain hpost | hping := h'.pings post hpost
    · exact h.pings post hpost
    · exact Or.inr hping
  · obtain ⟨hwait', hretiring'⟩ := h'.waits identity hwait
    obtain ⟨hwait, hretiring⟩ := h.waits identity hwait'
    exact ⟨hwait, fun hflag => hretiring' (hretiring hflag)⟩

/-- Nothing was posted, announced or waited for. -/
theorem Grows.of_eq {s s' : CoordinatorState} (hchannels : s'.channels = s.channels)
    (hposts : s'.posts = s.posts) (hwait : s'.teardownWait = s.teardownWait)
    (hretiring : s'.retiring = s.retiring) : Grows s s' := by
  refine ⟨hchannels ▸ List.prefix_rfl, fun post hpost => Or.inl (hposts ▸ hpost), ?_⟩
  intro identity hsome
  exact ⟨hwait ▸ hsome, fun hflag => hretiring.trans hflag⟩

theorem Grows.post {s t : CoordinatorState} (h : Grows s t) {message : EngineControlMessage}
    (hping : ∀ identity pingId, message = .controlPing identity pingId → identity = KEEPALIVE_IDENTITY) :
    Grows s (t.post message) := by
  refine h.trans ⟨List.prefix_rfl, fun post hpost => ?_, fun _ hwait => ⟨hwait, id⟩⟩
  obtain hpost | hpost := List.mem_append.1 hpost
  · exact Or.inl hpost
  · rw [List.mem_singleton.1 hpost]
    exact Or.inr hping

theorem Grows.announce {s t : CoordinatorState} (h : Grows s t) : Grows s t.announce := by
  refine h.trans ⟨List.prefix_append _ _, fun post hpost => ?_, fun _ hwait => ⟨hwait, id⟩⟩
  obtain hpost | hpost := List.mem_append.1 hpost
  · exact Or.inl hpost
  · rw [List.mem_singleton.1 hpost]
    exact Or.inr fun _ _ heq => nomatch heq

theorem Grows.startKeepalive {s t : CoordinatorState} (h : Grows s t) : Grows s t.startKeepalive :=
  h.trans (Grows.of_eq rfl rfl rfl rfl)

theorem Grows.queueLock {s t : CoordinatorState} (h : Grows s t) : Grows s t.queueLock := by
  unfold CoordinatorState.queueLock
  split
  · exact h.trans (Grows.of_eq rfl rfl rfl rfl)
  · exact h

theorem runRetirement_of_retiring {s : CoordinatorState} (h : s.retiring = true) :
    s.runRetirement = s := if_pos h

theorem moved_runRetirement {s t : CoordinatorState} {event : CoordinatorEvent} (h : Grows s t)
    (hretiring : t.retiring = s.retiring) (hidentity : t.currentIdentity = s.currentIdentity)
    (hbegins : s.retiring = false → BeginsRetirement s event) : Moved s event t.runRetirement := by
  cases hflag : s.retiring with
  | true =>
    rw [runRetirement_of_retiring (hretiring.trans hflag)]
    exact .grows h
  | false => exact .begins h (hretiring.trans hflag) hidentity (hbegins hflag)

theorem moved_release (s : CoordinatorState) (claim : ℕ) :
    Moved s (.release claim) (s.release claim) := by
  unfold CoordinatorState.release CoordinatorState.releaseClaim
  split
  case isFalse => exact .grows (Grows.refl s)
  case isTrue hmem =>
    dsimp only
    split
    · exact .grows (Grows.of_eq rfl rfl rfl rfl)
    case isFalse hpos =>
      split
      · exact .grows (Grows.of_eq rfl rfl rfl rfl)
      case isFalse hlast =>
        split
        · exact .grows (Grows.of_eq rfl rfl rfl rfl)
        case h_2 hgranted =>
          exact moved_runRetirement (Grows.of_eq rfl rfl rfl rfl) rfl rfl
            fun hflag => ⟨hflag, hgranted, hmem, by omega⟩
        · exact .grows (Grows.of_eq rfl rfl rfl rfl)

theorem grows_handleControlMessage (s : CoordinatorState) (message : EngineControlMessage)
    (engine : ℕ) : Grows s (s.handleControlMessage message engine) := by
  unfold CoordinatorState.handleControlMessage
  split
  case h_1 =>
    split
    · exact ⟨List.prefix_rfl, fun _ hpost => Or.inl hpost, fun _ hwait => nomatch hwait⟩
    split
    · exact Grows.of_eq rfl rfl rfl rfl
    · exact Grows.refl s
  case h_2 =>
    split
    · exact Grows.of_eq rfl rfl rfl rfl
    · exact Grows.refl s
  case h_3 => exact Grows.of_eq rfl rfl rfl rfl
  case h_4 => exact Grows.of_eq rfl rfl rfl rfl
  case h_5 => exact Grows.refl s

theorem grows_keepaliveTick {options : CoordinatorOptions} (s : CoordinatorState) :
    Grows s (s.keepaliveTick options) := by
  have hping : Grows s (CoordinatorState.post { s with
      keepaliveArmed := false
      pingSeq := s.pingSeq + 1
      pendingKeepalivePingId := some (s.pingSeq + 1 : ℕ) }
      (.controlPing KEEPALIVE_IDENTITY (s.pingSeq + 1 : ℕ))) := by
    refine Grows.post ?_ fun _ _ heq => ?_
    · exact Grows.of_eq rfl rfl rfl rfl
    · exact (EngineControlMessage.controlPing.inj heq).1.symm
  unfold CoordinatorState.keepaliveTick CoordinatorState.onKeepaliveThreshold
  dsimp only
  split
  · split
    · refine Grows.startKeepalive (Grows.announce ?_)
      exact hping.trans (Grows.of_eq rfl rfl rfl rfl)
    · exact hping.trans (Grows.of_eq rfl rfl rfl rfl)
  · exact hping.trans (Grows.of_eq rfl rfl rfl rfl)

theorem grows_onLock (s : CoordinatorState) (request : ℕ) : Grows s (s.onLock request) := by
  unfold CoordinatorState.onLock
  dsimp only
  split
  · exact Grows.of_eq rfl rfl rfl rfl
  · have hgranted : Grows s (CoordinatorState.post (CoordinatorState.act { s with
        request := none, lockState := .granted, grantSettle := some request } [.granted request])
        .leaderGranted) := by
      refine Grows.post ?_ fun _ _ heq => ?_
      · exact Grows.of_eq rfl rfl rfl rfl
      · cases heq
    refine Grows.startKeepalive (Grows.announce ?_)
    exact hgranted.trans (Grows.of_eq rfl rfl rfl rfl)

theorem moved_step {options : CoordinatorOptions} {s s' : CoordinatorState}
    {event : CoordinatorEvent} (hstep : s.step options event = some s') : Moved s event s' := by
  cases event with
  | claim =>
    obtain rfl := Option.some.inj hstep
    unfold CoordinatorState.addClaim
    dsimp only
    split
    · exact .grows (Grows.queueLock (Grows.of_eq rfl rfl rfl rfl))
    · exact .grows (Grows.of_eq rfl rfl rfl rfl)
  | release claim =>
    obtain rfl := Option.some.inj hstep
    exact moved_release s claim
  | lockGranted =>
    rw [CoordinatorState.step] at hstep
    split at hstep
    · obtain rfl := Option.some.inj hstep
      exact .grows (grows_onLock s _)
    · cases hstep
  | engineError engine =>
    obtain rfl := Option.some.inj hstep
    unfold CoordinatorState.onEngineError
    split
    · exact .grows (Grows.announce (Grows.of_eq rfl rfl rfl rfl))
    · exact .grows (Grows.refl s)
  | swMessage port message engine =>
    obtain rfl := Option.some.inj hstep
    split
    · exact .grows (grows_handleControlMessage s message engine)
    · exact .grows (Grows.refl s)
  | keepaliveTimer =>
    rw [CoordinatorState.step] at hstep
    split at hstep
    · obtain rfl := Option.some.inj hstep
      exact .grows (grows_keepaliveTick s)
    · cases hstep
  | teardownTimeout =>
    rw [CoordinatorState.step] at hstep
    split at hstep
    · cases hstep
    · obtain rfl := Option.some.inj hstep
      exact .grows ⟨List.prefix_rfl, fun _ hpost => Or.inl hpost, fun _ hwait => nomatch hwait⟩
  | retirementResumes =>
    rw [CoordinatorState.step] at hstep
    split at hstep
    case isTrue hready =>
      obtain rfl := Option.some.inj hstep
      refine .grows ⟨List.prefix_rfl, fun _ hpost => Or.inl hpost, fun identity hwait => ?_⟩
      cases hready.2.symm.trans hwait
    case isFalse => cases hstep
  | verdictResumes =>
    rw [CoordinatorState.step] at hstep
    split at hstep
    · obtain rfl := Option.some.inj hstep
      unfold CoordinatorState.finishVerdict
      dsimp only
      split
      · exact .grows (Grows.announce (Grows.of_eq rfl rfl rfl rfl))
      · exact .grows (Grows.of_eq rfl rfl rfl rfl)
    · cases hstep
  | pageHide persisted =>
    obtain rfl := Option.some.inj hstep
    unfold CoordinatorState.onPageHide
    split
    case isFalse => exact .grows (Grows.refl s)
    case isTrue hpersisted =>
      dsimp only
      split
      case isTrue hgranted =>
        exact moved_runRetirement (Grows.of_eq rfl rfl rfl rfl) rfl rfl
          fun hflag => ⟨hflag, hgranted, hpersisted⟩
      case isFalse => exact .grows (Grows.of_eq rfl rfl rfl rfl)
  | pageShow =>
    obtain rfl := Option.some.inj hstep
    unfold CoordinatorState.onPageShow
    dsimp only
    split
    · split
      · exact .grows (Grows.queueLock (Grows.of_eq rfl rfl rfl rfl))
      · exact .grows (Grows.of_eq rfl rfl rfl rfl)
    · exact .grows (Grows.of_eq rfl rfl rfl rfl)
  | retireEngine =>
    obtain rfl := Option.some.inj hstep
    unfold CoordinatorState.retireEngine
    split
    case h_1 engine hleader hhandle =>
      exact moved_runRetirement (Grows.of_eq rfl rfl rfl rfl) rfl rfl
        fun hflag => ⟨hflag, of_decide_eq_true hleader, by rw [hhandle]; rfl⟩
    case h_2 => exact .grows (Grows.refl s)
  | retireResumes call =>
    rw [CoordinatorState.step] at hstep
    split at hstep
    · obtain rfl := Option.some.inj hstep
      exact .grows (Grows.of_eq rfl rfl rfl rfl)
    · cases hstep

/-! ### The invariant -/

variable {options : NetworkOptions}

/-- The router has assigned the identity on the control channel. -/
def AssignedTo (router : RouterState) (port : ℕ) (identity : EngineIdentity) : Prop :=
  ∃ pipe, ⟨.engine port, .assignIdentity identity, pipe⟩ ∈ router.posts

/-- The engine that the control channel was delivered to has processed a teardown. -/
def PortTornDown (w : Network) (port : ℕ) : Prop :=
  ∃ tab channel engine, port = controlPort tab channel ∧
    (w.tabs tab).channels[channel]? = some (some engine) ∧ (tab, engine) ∈ w.tornDown

/-- A tab that waits waits for the identity of the engine it retires. -/
def WaitsForOwn (w : Network) (tab : ℕ) (identity : EngineIdentity) : Prop :=
  ∃ engine channel, w.retiringEngine tab = some engine ∧
    (w.tabs tab).channels[channel]? = some (some engine) ∧
    AssignedTo w.router (controlPort tab channel) identity

structure Genuine (options : NetworkOptions) (w : Network) : Prop where
  sound : Sound options.router w.router
  last_nonneg : ∀ last, w.router.lastMinted = some last → 0 ≤ last.generation
  assigned_le : ∀ port identity, AssignedTo w.router port identity →
    identity.swInstanceId = options.router.swInstanceId ∧ 0 ≤ identity.generation ∧
      ∃ last, w.router.lastMinted = some last ∧ identity.generation ≤ last.generation
  assigned_port : ∀ port port' identity, AssignedTo w.router port identity →
    AssignedTo w.router port' identity → port = port'
  probes : ∀ post ∈ w.router.posts, ∀ identity pingId,
    post.message = .controlPing identity pingId → 1 ≤ pingId
  pings : ∀ tab, ∀ post ∈ (w.tabs tab).posts, ∀ identity pingId,
    post.message = .controlPing identity pingId → identity = KEEPALIVE_IDENTITY
  planes : ∀ port identity, (w.planes port).assigned = some identity →
    AssignedTo w.router port identity
  /-- an ack of a teardown comes from an engine that processed it -/
  acks : ∀ port identity, .controlAck identity (-1) ∈ (w.planes port).out →
    AssignedTo w.router port identity ∧ PortTornDown w port
  relayed : ∀ post ∈ w.router.posts, ∀ identity pingId, post.message = .controlAck identity pingId →
    identity = KEEPALIVE_IDENTITY ∨
      (pingId = -1 ∧ ∃ port, AssignedTo w.router port identity ∧ PortTornDown w port)
  waits : ∀ tab identity, (w.tabs tab).teardownWait = some identity →
    (w.tabs tab).retiring = true ∧ WaitsForOwn w tab identity

theorem genuine_initial : Genuine options .initial := by
  constructor
  case sound => exact sound_initial
  all_goals simp [Network.initial, RouterState.initial, CoordinatorState.initial, AssignedTo]

/-- The invariant reads nothing of what was read, nor of the entries. -/
theorem Genuine.congr {w w' : Network} (h : Genuine options w) (hrouter : w'.router = w.router)
    (htabs : w'.tabs = w.tabs) (hplanes : w'.planes = w.planes)
    (hretiring : w'.retiringEngine = w.retiringEngine) (htorn : w'.tornDown = w.tornDown) :
    Genuine options w' := by
  obtain ⟨router, tabs, entries, planes, retiringEngine, tornDown, _, _, _, _⟩ := w
  obtain ⟨router', tabs', entries', planes', retiringEngine', tornDown', _, _, _, _⟩ := w'
  obtain rfl : router' = router := hrouter
  obtain rfl : tabs' = tabs := htabs
  obtain rfl : planes' = planes := hplanes
  obtain rfl : retiringEngine' = retiringEngine := hretiring
  obtain rfl : tornDown' = tornDown := htorn
  exact ⟨h.sound, h.last_nonneg, h.assigned_le, h.assigned_port, h.probes, h.pings, h.planes,
    h.acks, h.relayed, h.waits⟩

/-! ### The router moves -/

theorem AssignedTo.mono {router router' : RouterState} {port : ℕ} {identity : EngineIdentity}
    (h : AssignedTo router port identity) (hposts : router.posts <+: router'.posts) :
    AssignedTo router' port identity := by
  obtain ⟨pipe, hmem⟩ := h
  exact ⟨pipe, hposts.subset hmem⟩

/-- An identity is assigned by the announcement that mints it, and by no other event. -/
theorem assignedTo_step {router : RouterState} {event : RouterEvent} {port : ℕ}
    {identity : EngineIdentity} (h : AssignedTo (router.step options.router event) port identity) :
    AssignedTo router port identity ∨ event = .announceEngine port ∧
      identity = mintEngineIdentity options.router.swInstanceId router.lastMinted := by
  obtain ⟨pipe, hmem⟩ := h
  obtain hold | horigin := origin_step router event _ hmem
  · exact Or.inl ⟨pipe, hold⟩
  · cases horigin with
    | quiet h => exact absurd h id
    | echoed hevent hmessage => cases hmessage
    | relayed hevent hport hother hmessage => cases hmessage
    | probe hpos hmessage => cases hmessage
    | assigned hevent hpost =>
      cases hpost
      exact Or.inr ⟨hevent, rfl⟩

/-- The identity of the next announcement. -/
def nextIdentity (options : NetworkOptions) (router : RouterState) : EngineIdentity :=
  mintEngineIdentity options.router.swInstanceId router.lastMinted

theorem Genuine.nextIdentity_eq {w : Network} (h : Genuine options w) :
    (nextIdentity options w.router).swInstanceId = options.router.swInstanceId ∧
      0 ≤ (nextIdentity options w.router).generation ∧
      ∀ last, w.router.lastMinted = some last →
        last.generation < (nextIdentity options w.router).generation := by
  cases hlast : w.router.lastMinted with
  | none =>
    have hnext : nextIdentity options w.router = ⟨options.router.swInstanceId, 0⟩ := by
      rw [nextIdentity, hlast, mintEngineIdentity]
    rw [hnext]
    exact ⟨rfl, le_rfl, fun last hnone => absurd hnone.symm (Option.some_ne_none last)⟩
  | some last =>
    have hnext : nextIdentity options w.router =
        ⟨options.router.swInstanceId, last.generation + 1⟩ := by
      rw [nextIdentity, hlast, mintEngineIdentity, if_pos (h.sound.instance_eq last hlast)]
    have hnonneg := h.last_nonneg last hlast
    rw [hnext]
    refine ⟨rfl, Int.add_nonneg hnonneg zero_le_one, fun last' hlast' => ?_⟩
    obtain rfl := Option.some.inj hlast'
    exact Int.lt_succ _

theorem Genuine.assigned_lt {w : Network} (h : Genuine options w) {port : ℕ}
    {identity : EngineIdentity} (hassigned : AssignedTo w.router port identity) :
    identity.generation < (nextIdentity options w.router).generation := by
  obtain ⟨-, -, last, hlast, hle⟩ := h.assigned_le port identity hassigned
  exact hle.trans_lt (h.nextIdentity_eq.2.2 last hlast)

theorem getElem?_of_prefix {α : Type*} {l l' : List α} (h : l <+: l') {i : ℕ} {a : α}
    (ha : l[i]? = some a) : l'[i]? = some a := by
  obtain ⟨more, rfl⟩ := h
  obtain ⟨hi, -⟩ := List.getElem?_eq_some_iff.1 ha
  rw [List.getElem?_append_left hi]
  exact ha

theorem WaitsForOwn.mono {w w' : Network} {tab : ℕ} {identity : EngineIdentity}
    (h : WaitsForOwn w tab identity) (hposts : w.router.posts <+: w'.router.posts)
    (hchannels : (w.tabs tab).channels <+: (w'.tabs tab).channels)
    (hretiring : w'.retiringEngine tab = w.retiringEngine tab) : WaitsForOwn w' tab identity := by
  obtain ⟨engine, channel, hengine, hchannel, hassigned⟩ := h
  refine ⟨engine, channel, hretiring.trans hengine, ?_, hassigned.mono hposts⟩
  exact getElem?_of_prefix hchannels hchannel

theorem PortTornDown.mono {w w' : Network} {port : ℕ} (h : PortTornDown w port)
    (hchannels : ∀ tab, (w.tabs tab).channels <+: (w'.tabs tab).channels)
    (htorn : w.tornDown <+: w'.tornDown) : PortTornDown w' port := by
  obtain ⟨tab, channel, engine, hport, hchannel, hmem⟩ := h
  exact ⟨tab, channel, engine, hport, getElem?_of_prefix (hchannels tab) hchannel,
    htorn.subset hmem⟩

/-- The router takes an event: a ping it answers is the keepalive's, and an ack it relays is of an
engine that processed a teardown. -/
theorem Genuine.route {w : Network} (h : Genuine options w) {event : RouterEvent}
    (hecho : ∀ tab identity pingId, event = .tabMessage tab (.controlPing identity pingId) →
      identity = KEEPALIVE_IDENTITY)
    (hrelay : ∀ port identity pingId, event = .controlMessage port (.controlAck identity pingId) →
      w.router.controlPort = some port →
      ¬(w.router.currentIdentity = some identity ∧ w.router.pendingPingId = some pingId) →
      pingId = -1 ∧ ∃ port, AssignedTo w.router port identity ∧ PortTornDown w port) :
    Genuine options (w.route options event) := by
  have hposts : w.router.posts <+: (w.router.step options.router event).posts :=
    (led_step _ event).initial
  obtain ⟨hinstance, hnonneg, habove⟩ := h.nextIdentity_eq
  -- what is minted last: the new identity, or what it was
  have hlast : (∃ port, event = .announceEngine port) ∧
      (w.router.step options.router event).lastMinted = some (nextIdentity options w.router) ∨
      (∀ port, event ≠ .announceEngine port) ∧
        (w.router.step options.router event).lastMinted = w.router.lastMinted := by
    by_cases hevent : ∃ port, event = .announceEngine port
    · obtain ⟨port, rfl⟩ := hevent
      exact Or.inl ⟨⟨port, rfl⟩, rfl⟩
    · exact Or.inr ⟨fun port heq => hevent ⟨port, heq⟩,
        lastMinted_step w.router fun port heq => hevent ⟨port, heq⟩⟩
  constructor
  case sound => exact h.sound.step event
  case last_nonneg =>
    intro last hsome
    change (w.router.step options.router event).lastMinted = some last at hsome
    obtain ⟨-, hminted⟩ | ⟨-, hsame⟩ := hlast
    · rw [hminted] at hsome
      obtain rfl := Option.some.inj hsome
      exact hnonneg
    · exact h.last_nonneg last (hsame ▸ hsome)
  case assigned_le =>
    intro port identity hassigned
    change _ ∧ _ ∧ ∃ last, (w.router.step options.router event).lastMinted = some last ∧ _
    obtain hold | ⟨rfl, rfl⟩ := assignedTo_step hassigned
    · obtain ⟨hname, hpos, last, hsome, hle⟩ := h.assigned_le port identity hold
      refine ⟨hname, hpos, ?_⟩
      obtain ⟨-, hminted⟩ | ⟨-, hsame⟩ := hlast
      · exact ⟨_, hminted, (h.assigned_lt hold).le⟩
      · exact ⟨last, hsame.trans hsome, hle⟩
    · exact ⟨hinstance, hnonneg, _, rfl, le_rfl⟩
  case assigned_port =>
    intro port port' identity hassigned hassigned'
    obtain hold | ⟨hevent, rfl⟩ := assignedTo_step hassigned
    · obtain hold' | ⟨-, rfl⟩ := assignedTo_step hassigned'
      · exact h.assigned_port port port' identity hold hold'
      · exact absurd (h.assigned_lt hold) (lt_irrefl _)
    · obtain hold' | ⟨hevent', -⟩ := assignedTo_step hassigned'
      · exact absurd (h.assigned_lt hold') (lt_irrefl _)
      · rw [hevent] at hevent'
        exact RouterEvent.announceEngine.inj hevent'
  case probes =>
    intro post hpost identity pingId hmessage
    obtain hold | horigin := origin_step w.router event post hpost
    · exact h.probes post hold identity pingId hmessage
    · cases horigin with
      | quiet hquiet =>
        rw [Post.quiet, hmessage] at hquiet
        exact absurd hquiet id
      | echoed hevent hack => cases hack.symm.trans hmessage
      | relayed hevent hport hother hack => cases hack.symm.trans hmessage
      | probe hpos hping =>
        cases hping.symm.trans hmessage
        exact hpos
      | assigned hevent hassign =>
        rw [hassign] at hmessage
        cases hmessage
  case pings => exact h.pings
  case planes => exact fun port identity hassigned => (h.planes port identity hassigned).mono hposts
  case acks =>
    intro port identity hmem
    obtain ⟨hassigned, htorn⟩ := h.acks port identity hmem
    exact ⟨hassigned.mono hposts, htorn.mono (fun _ => List.prefix_rfl) List.prefix_rfl⟩
  case relayed =>
    intro post hpost identity pingId hmessage
    have hmono : ∀ port, AssignedTo w.router port identity ∧ PortTornDown w port →
        AssignedTo (w.route options event).router port identity ∧
          PortTornDown (w.route options event) port :=
      fun port hboth => ⟨hboth.1.mono hposts,
        hboth.2.mono (fun _ => List.prefix_rfl) List.prefix_rfl⟩
    obtain hold | horigin := origin_step w.router event post hpost
    · obtain hkeepalive | ⟨hnumber, port, hboth⟩ := h.relayed post hold identity pingId hmessage
      · exact Or.inl hkeepalive
      · exact Or.inr ⟨hnumber, port, hmono port hboth⟩
    · cases horigin with
      | quiet hquiet =>
        rw [Post.quiet, hmessage] at hquiet
        exact absurd hquiet id
      | @echoed tab _ _ hevent hack =>
        cases hack.symm.trans hmessage
        exact Or.inl (hecho tab identity pingId hevent)
      | @relayed port _ _ hevent hport hother hack =>
        cases hack.symm.trans hmessage
        obtain ⟨hnumber, port', hboth⟩ := hrelay port identity pingId hevent hport hother
        exact Or.inr ⟨hnumber, port', hmono port' hboth⟩
      | probe hpos hping => cases hping.symm.trans hmessage
      | assigned hevent hassign =>
        rw [hassign] at hmessage
        cases hmessage
  case waits =>
    intro tab identity hwait
    obtain ⟨hretiring, hown⟩ := h.waits tab identity hwait
    exact ⟨hretiring, hown.mono hposts List.prefix_rfl rfl⟩

/-! ### A tab moves -/

/-- The tab knows the identity of the engine it holds. -/
def KnowsOwn (w : Network) (tab : ℕ) : Prop :=
  ∃ engine identity channel, (w.tabs tab).engineHandle = some engine ∧
    (w.tabs tab).currentIdentity = some identity ∧
    (w.tabs tab).channels[channel]? = some (some engine) ∧
    AssignedTo w.router (controlPort tab channel) identity

theorem not_retiring_of_begins {s : CoordinatorState} {event : CoordinatorEvent}
    (h : BeginsRetirement s event) : s.retiring = false := by
  cases event with
  | release claim => exact h.1
  | pageHide persisted => exact h.1
  | retireEngine => exact h.1
  | _ => exact absurd h id

theorem runRetirement_of_not {t : CoordinatorState} (h : t.retiring = false) :
    t.runRetirement.retiring = true ∧
      t.runRetirement.teardownWait = some (t.currentIdentity.getD RETIRE_UNKNOWN_IDENTITY) ∧
      t.runRetirement.channels = t.channels ∧
      ∀ post ∈ t.runRetirement.posts, post ∈ t.posts ∨
        ∀ identity pingId, post.message ≠ .controlPing identity pingId := by
  rw [CoordinatorState.runRetirement, if_neg (by rw [h]; exact Bool.false_ne_true)]
  refine ⟨rfl, rfl, rfl, fun post hpost => ?_⟩
  obtain hpost | hpost := List.mem_append.1 hpost
  · obtain hpost | hpost := List.mem_append.1 hpost
    · exact Or.inl hpost
    · rw [List.mem_singleton.1 hpost]
      exact Or.inr fun _ _ heq => nomatch heq
  · rw [List.mem_singleton.1 hpost]
    exact Or.inr fun _ _ heq => nomatch heq

/-- What a move leaves of the channels and the posts of a tab. -/
theorem Moved.kept {s s' : CoordinatorState} {event : CoordinatorEvent} (h : Moved s event s') :
    s.channels <+: s'.channels ∧ ∀ post ∈ s'.posts, post ∈ s.posts ∨
      ∀ identity pingId, post.message = .controlPing identity pingId →
        identity = KEEPALIVE_IDENTITY := by
  cases h with
  | grows h => exact ⟨h.channels, h.pings⟩
  | @begins t h hretiring hidentity hbegins =>
    obtain ⟨-, -, hchannels, hposts⟩ := runRetirement_of_not hretiring
    refine ⟨hchannels ▸ h.channels, fun post hpost => ?_⟩
    obtain hpost | hping := hposts post hpost
    · exact h.pings post hpost
    · exact Or.inr fun identity pingId heq => absurd heq (hping identity pingId)

theorem Genuine.setTab {w : Network} (h : Genuine options w) {tab : ℕ} {s : CoordinatorState}
    (event : CoordinatorEvent) (hmoved : Moved (w.tabs tab) event s)
    (hknows : BeginsRetirement (w.tabs tab) event → KnowsOwn w tab) :
    Genuine options (w.setTab tab s) := by
  obtain ⟨hchannels, hpings⟩ := hmoved.kept
  have hself : (w.setTab tab s).tabs tab = s := Function.update_self ..
  have hother : ∀ other, other ≠ tab → (w.setTab tab s).tabs other = w.tabs other :=
    fun other hne => Function.update_of_ne hne ..
  have hgrown : ∀ other, (w.tabs other).channels <+: ((w.setTab tab s).tabs other).channels := by
    intro other
    by_cases heq : other = tab
    · subst heq
      rw [hself]
      exact hchannels
    · rw [hother other heq]
  constructor
  case sound => exact h.sound
  case last_nonneg => exact h.last_nonneg
  case assigned_le => exact h.assigned_le
  case assigned_port => exact h.assigned_port
  case probes => exact h.probes
  case pings =>
    intro other post hpost identity pingId hmessage
    by_cases heq : other = tab
    · subst heq
      rw [hself] at hpost
      obtain hold | hping := hpings post hpost
      · exact h.pings other post hold identity pingId hmessage
      · exact hping identity pingId hmessage
    · rw [hother other heq] at hpost
      exact h.pings other post hpost identity pingId hmessage
  case planes => exact h.planes
  case acks =>
    intro port identity hmem
    obtain ⟨hassigned, htorn⟩ := h.acks port identity hmem
    exact ⟨hassigned, htorn.mono hgrown List.prefix_rfl⟩
  case relayed =>
    intro post hpost identity pingId hmessage
    obtain hkeepalive | ⟨hnumber, port, hassigned, htorn⟩ :=
      h.relayed post hpost identity pingId hmessage
    · exact Or.inl hkeepalive
    · exact Or.inr ⟨hnumber, port, hassigned, htorn.mono hgrown List.prefix_rfl⟩
  case waits =>
    intro other identity hwait
    by_cases heq : other = tab
    · subst heq
      rw [hself] at hwait ⊢
      cases hmoved with
      | grows hgrows =>
        obtain ⟨hold, hkept⟩ := hgrows.waits identity hwait
        obtain ⟨hretiring, hown⟩ := h.waits other identity hold
        refine ⟨hkept hretiring, hown.mono List.prefix_rfl (hgrown other) ?_⟩
        -- a retirement is in progress, so none begins
        have hno : ¬((w.tabs other).retiring = false ∧ s.retiring = true) := by
          rw [hretiring]
          exact fun hboth => nomatch hboth.1
        exact congrFun (if_neg hno) other
      | @begins t hgrows hretiring hidentity hbegins =>
        obtain ⟨hflag, hwaits, hsame, -⟩ := runRetirement_of_not hretiring
        obtain ⟨engine, own, channel, hengine, hown, hchannel, hassigned⟩ := hknows hbegins
        rw [hwaits, hidentity, hown] at hwait
        obtain rfl := Option.some.inj hwait
        refine ⟨hflag, engine, channel, ?_, getElem?_of_prefix (hgrown other) hchannel, hassigned⟩
        have hyes : (w.tabs other).retiring = false ∧ t.runRetirement.retiring = true :=
          ⟨not_retiring_of_begins hbegins, hflag⟩
        exact (congrFun (if_pos hyes) other).trans ((Function.update_self ..).trans hengine)
    · rw [hother other heq] at hwait
      obtain ⟨hretiring, hown⟩ := h.waits other identity hwait
      rw [hother other heq]
      refine ⟨hretiring, hown.mono List.prefix_rfl (hgrown other) ?_⟩
      change (if _ then Function.update w.retiringEngine tab _ else w.retiringEngine) other = _
      split
      · exact Function.update_of_ne heq ..
      · rfl

/-! ### An engine moves -/

theorem channel_of_listener {w : Network} {tab channel engine : ℕ}
    (h : w.listener tab channel = some engine) :
    (w.tabs tab).channels[channel]? = some (some engine) := by
  unfold Network.listener at h
  split at h
  · rename_i found hfound
    split at h
    · rw [← h]
      exact hfound
    · cases h
  · cases h

theorem assigned_receive {plane : EnginePlane} {message : EngineControlMessage}
    {identity : EngineIdentity} (h : (plane.receive message).assigned = some identity) :
    plane.assigned = some identity ∨ message = .assignIdentity identity := by
  unfold EnginePlane.receive at h
  split at h
  · obtain rfl := Option.some.inj h
    exact Or.inr rfl
  · exact Or.inl h
  · split at h
    · exact Or.inl h
    · exact Or.inl h
  · split at h
    · exact Or.inl h
    · exact Or.inl h
  · exact Or.inl h

theorem mem_out_post {plane : EnginePlane} {message ack : EngineControlMessage}
    (h : ack ∈ (plane.post message).out) : ack ∈ plane.out ∨ ack = message := by
  obtain h | h := List.mem_append.1 h
  · exact Or.inl h
  · exact Or.inr (List.mem_singleton.1 h)

/-- An ack numbered as a teardown's answers a teardown, or a ping with that number. -/
theorem ack_receive {plane : EnginePlane} {message : EngineControlMessage}
    {identity : EngineIdentity} (h : .controlAck identity (-1) ∈ (plane.receive message).out) :
    .controlAck identity (-1) ∈ plane.out ∨
      (message = .engineTeardown identity ∧ plane.assigned = some identity) ∨
      ∃ pinged, message = .controlPing pinged (-1) := by
  unfold EnginePlane.receive at h
  split at h
  · obtain h | h := mem_out_post h
    · exact Or.inl h
    · cases h
  case h_2 pinged pingId =>
    obtain h | h := mem_out_post h
    · exact Or.inl h
    · obtain ⟨-, rfl⟩ := EngineControlMessage.controlAck.inj h
      exact Or.inr (Or.inr ⟨pinged, rfl⟩)
  · split at h
    · obtain h | h := mem_out_post h
      · exact Or.inl h
      · cases h
    · exact Or.inl h
  · split at h
    case isTrue happlied =>
      obtain h | h := mem_out_post h
      · exact Or.inl h
      · obtain ⟨rfl, -⟩ := EngineControlMessage.controlAck.inj h
        exact Or.inr (Or.inl ⟨rfl, of_decide_eq_true happlied⟩)
    case isFalse => exact Or.inl h
  · exact Or.inl h

/-- A message of the router reaches the engine that listens. -/
theorem Genuine.toEngine {w : Network} (h : Genuine options w) {tab channel engine : ℕ}
    {message : EngineControlMessage} {pipe : Option ℕ}
    (hlistener : w.listener tab channel = some engine)
    (hpost : ⟨.engine (controlPort tab channel), message, pipe⟩ ∈ w.router.posts) :
    Genuine options (w.readRouterPost tab channel engine message) := by
  have hchannel := channel_of_listener hlistener
  have hself : (w.readRouterPost tab channel engine message).planes (controlPort tab channel) =
      (w.planes (controlPort tab channel)).receive message := Function.update_self ..
  have hother : ∀ port, port ≠ controlPort tab channel →
      (w.readRouterPost tab channel engine message).planes port = w.planes port :=
    fun port hne => Function.update_of_ne hne ..
  have htorn : w.tornDown <+: (w.readRouterPost tab channel engine message).tornDown := by
    unfold Network.readRouterPost
    dsimp only
    split
    · exact List.prefix_append _ _
    · exact List.prefix_rfl
  have hdown : ∀ port, PortTornDown w port →
      PortTornDown (w.readRouterPost tab channel engine message) port :=
    fun port hdown => hdown.mono (fun _ => List.prefix_rfl) htorn
  constructor
  case sound => exact h.sound
  case last_nonneg => exact h.last_nonneg
  case assigned_le => exact h.assigned_le
  case assigned_port => exact h.assigned_port
  case probes => exact h.probes
  case pings => exact h.pings
  case planes =>
    intro port identity hassigned
    by_cases heq : port = controlPort tab channel
    · subst heq
      rw [hself] at hassigned
      obtain hold | rfl := assigned_receive hassigned
      · exact h.planes _ identity hold
      · exact ⟨pipe, hpost⟩
    · rw [hother port heq] at hassigned
      exact h.planes port identity hassigned
  case acks =>
    intro port identity hmem
    have hold : .controlAck identity (-1) ∈ (w.planes port).out → AssignedTo w.router port identity ∧
        PortTornDown (w.readRouterPost tab channel engine message) port :=
      fun hmem => (h.acks port identity hmem).imp_right (hdown port)
    by_cases heq : port = controlPort tab channel
    · subst heq
      rw [hself] at hmem
      obtain hmem | ⟨rfl, hassigned⟩ | ⟨pinged, rfl⟩ := ack_receive hmem
      · exact hold hmem
      · refine ⟨h.planes _ identity hassigned, tab, channel, engine, rfl, hchannel, ?_⟩
        have htears : (w.planes (controlPort tab channel)).tearsDown (.engineTeardown identity) =
            true := decide_eq_true hassigned
        have hnow : (w.readRouterPost tab channel engine (.engineTeardown identity)).tornDown =
            w.tornDown ++ [(tab, engine)] := if_pos htears
        rw [hnow]
        exact List.mem_append_right _ (List.mem_singleton_self _)
      · exact absurd (h.probes _ hpost pinged (-1) rfl) (by decide)
    · rw [hother port heq] at hmem
      exact hold hmem
  case relayed =>
    intro post hpost identity pingId hmessage
    obtain hkeepalive | ⟨hnumber, port, hassigned, hport⟩ :=
      h.relayed post hpost identity pingId hmessage
    · exact Or.inl hkeepalive
    · exact Or.inr ⟨hnumber, port, hassigned, hdown port hport⟩
  case waits => exact h.waits

/-! ### Runs -/

/-- A retirement begins with the identity of the engine known, and an ack of a probe reaches the
router while it is the one that the probe waits for. -/
def Answerable (w : Network) : NetworkEvent → Prop
  | .coordinator tab event => BeginsRetirement (w.tabs tab) event → KnowsOwn w tab
  | .fromEngine port => ∀ identity pingId, w.nextOfPlane port = some (.controlAck identity pingId) →
    pingId ≠ -1 → w.router.controlPort = some port →
    w.router.currentIdentity = some identity ∧ w.router.pendingPingId = some pingId
  | _ => True

/-- An ack that would end a wait, when the tab reads it next, is a teardown's, and the engine that the
tab retires has processed a teardown. -/
def AcksGenuine (w : Network) : Prop :=
  ∀ entry tab port post identity pingId, w.entries[entry]? = some (tab, port) →
    w.nextOfEntry entry = some post → post.message = .controlAck identity pingId →
    port = (w.tabs tab).swPort → (w.tabs tab).teardownAckMatches identity = true →
    pingId = -1 ∧ ∃ engine, w.retiringEngine tab = some engine ∧ (tab, engine) ∈ w.tornDown

theorem mem_of_nextOfEntry {w : Network} {entry : ℕ} {post : Post}
    (h : w.nextOfEntry entry = some post) : post ∈ w.router.posts :=
  List.mem_of_mem_filter (List.mem_of_getElem? h)

theorem mem_of_nextOfRouter {w : Network} {port : ℕ} {post : Post}
    (h : w.nextOfRouter port = some post) : post ∈ w.router.posts ∧ post.dest = .engine port := by
  obtain ⟨hmem, hdest⟩ := List.mem_filter.1 (List.mem_of_getElem? h)
  exact ⟨hmem, of_decide_eq_true hdest⟩

theorem Genuine.acksGenuine {w : Network} (h : Genuine options w)
    (hinstance : options.router.swInstanceId ≠ KEEPALIVE_IDENTITY.swInstanceId) : AcksGenuine w := by
  intro entry tab port post identity pingId _ hnext hmessage _ hmatches
  have hpost := mem_of_nextOfEntry hnext
  cases hwait : (w.tabs tab).teardownWait with
  | none =>
    rw [CoordinatorState.teardownAckMatches, hwait] at hmatches
    cases hmatches
  | some waited =>
    obtain ⟨-, engine, channel, hengine, hchannel, hassigned⟩ := h.waits tab waited hwait
    obtain ⟨hname, hnonneg, -⟩ := h.assigned_le _ waited hassigned
    rw [CoordinatorState.teardownAckMatches, hwait] at hmatches
    have hsame : waited = identity := by
      obtain hunknown | hsame := of_decide_eq_true hmatches
      · rw [hunknown] at hnonneg
        exact absurd hnonneg (by decide)
      · exact hsame
    subst hsame
    obtain rfl | ⟨hnumber, port', hassigned', hdown⟩ := h.relayed post hpost waited pingId hmessage
    · exact absurd hname.symm hinstance
    · refine ⟨hnumber, engine, hengine, ?_⟩
      obtain ⟨tab', channel', engine', hport, hchannel', hmem⟩ := hdown
      have hports := h.assigned_port _ _ waited hassigned hassigned'
      rw [hport] at hports
      obtain ⟨rfl, rfl⟩ := Nat.pair_eq_pair.1 hports
      obtain rfl := Option.some.inj (Option.some.inj (hchannel.symm.trans hchannel'))
      exact hmem

theorem Genuine.readTabPost {w : Network} (h : Genuine options w) (entry : ℕ) {tab : ℕ}
    {post : SwPost} (hpost : post ∈ (w.tabs tab).posts) :
    Genuine options (w.readTabPost options entry tab post) := by
  unfold Network.readTabPost
  split
  · exact h.route (fun _ _ _ heq => nomatch heq) fun _ _ _ heq => nomatch heq
  · exact h.route (fun _ _ _ heq => nomatch heq) fun _ _ _ heq => nomatch heq
  · exact h
  · refine h.route (fun _ identity pingId heq => ?_) fun _ _ _ heq => nomatch heq
    exact h.pings tab post hpost identity pingId (RouterEvent.tabMessage.inj heq).2

theorem Genuine.step {w w' : Network} {event : NetworkEvent} (h : Genuine options w)
    (hanswerable : Answerable w event) (hstep : w.step options event = some w') :
    Genuine options w' := by
  have hquiet : ∀ {w : Network} {routed : RouterEvent}, Genuine options w →
      (∀ tab message, routed ≠ .tabMessage tab message) →
      (∀ port message, routed ≠ .controlMessage port message) →
      Genuine options (w.route options routed) :=
    fun h htab hcontrol => h.route (fun _ _ _ heq => absurd heq (htab _ _))
      fun _ _ _ heq => absurd heq (hcontrol _ _)
  cases event with
  | coordinator tab event =>
    unfold Network.step at hstep
    dsimp only at hstep
    split at hstep
    · cases hstep
    · obtain ⟨s, hs, rfl⟩ := Option.map_eq_some_iff.1 hstep
      exact h.setTab _ (moved_step hs) hanswerable
  | overdueDispatch tab identity =>
    obtain rfl := Option.some.inj hstep
    refine h.setTab .claim (.grows (Grows.post (Grows.refl _) ?_)) fun hno => absurd hno id
    exact fun _ _ heq => nomatch heq
  | tabDetach tab =>
    obtain rfl := Option.some.inj hstep
    refine h.setTab .claim (.grows (Grows.post (Grows.refl _) ?_)) fun hno => absurd hno id
    exact fun _ _ heq => nomatch heq
  | attach tab port =>
    rw [Network.step] at hstep
    split at hstep
    · obtain rfl := Option.some.inj hstep
      have hrouted : Genuine options (w.route options .attachTab) :=
        hquiet h (fun _ _ heq => nomatch heq) fun _ _ heq => nomatch heq
      exact hrouted.congr rfl rfl rfl rfl rfl
    · cases hstep
  | closeEntry entry =>
    obtain rfl := Option.some.inj hstep
    exact hquiet h (fun _ _ heq => nomatch heq) fun _ _ heq => nomatch heq
  | toRouter entry =>
    rw [Network.step] at hstep
    split at hstep
    · cases hstep
    · obtain ⟨post, hnext, rfl⟩ := Option.map_eq_some_iff.1 hstep
      refine Genuine.readTabPost ?_ entry ?_
      · exact h.congr rfl rfl rfl rfl rfl
      · exact List.mem_of_mem_filter (List.mem_of_getElem? hnext)
  | toTab entry =>
    rw [Network.step] at hstep
    split at hstep
    · obtain ⟨s, hs, rfl⟩ := Option.map_eq_some_iff.1 hstep
      refine Genuine.setTab ?_ _ (moved_step hs) fun hno => absurd hno id
      exact h.congr rfl rfl rfl rfl rfl
    · cases hstep
  | toEngine tab channel =>
    rw [Network.step] at hstep
    split at hstep
    case h_1 engine post hlistener hnext =>
      obtain rfl := Option.some.inj hstep
      obtain ⟨hmem, hdest⟩ := mem_of_nextOfRouter hnext
      obtain ⟨dest, message, pipe⟩ := post
      obtain rfl : dest = .engine (controlPort tab channel) := hdest
      refine Genuine.toEngine ?_ hlistener hmem
      exact h.congr rfl rfl rfl rfl rfl
    case h_2 => cases hstep
  | fromEngine port =>
    obtain ⟨message, hnext, rfl⟩ := Option.map_eq_some_iff.1 hstep
    refine Genuine.route ?_ (fun _ _ _ heq => nomatch heq) ?_
    · exact h.congr rfl rfl rfl rfl rfl
    intro port' identity pingId heq hport hother
    obtain ⟨rfl, rfl⟩ := RouterEvent.controlMessage.inj heq
    have hnumber : pingId = -1 := by
      by_contra hne
      exact hother (hanswerable identity pingId hnext hne hport)
    subst hnumber
    exact ⟨rfl, port, h.acks port identity (List.mem_of_getElem? hnext)⟩
  | closeEngine port announced =>
    obtain rfl := Option.some.inj hstep
    exact hquiet h (fun _ _ heq => nomatch heq) fun _ _ heq => nomatch heq
  | connectAckExpires =>
    obtain rfl := Option.some.inj hstep
    exact hquiet h (fun _ _ heq => nomatch heq) fun _ _ heq => nomatch heq
  | probeTimer =>
    obtain rfl := Option.some.inj hstep
    exact hquiet h (fun _ _ heq => nomatch heq) fun _ _ heq => nomatch heq

/-! ### Main results -/

/-- In a run of answerable events an ack that ends a wait is genuine, in every state. -/
theorem acks_genuine_of_answerable (options : NetworkOptions) (events : List NetworkEvent)
    (w : Network) (hinstance : options.router.swInstanceId ≠ KEEPALIVE_IDENTITY.swInstanceId)
    (hanswerable : Runs.Meets (Network.step options) Answerable .initial events)
    (hrun : Runs.run (Network.step options) .initial events = some w) : AcksGenuine w :=
  (Runs.invariant (fun _ _ _ h hok hstep => h.step hok hstep) genuine_initial hanswerable
    hrun).acksGenuine hinstance

def oneRouter : NetworkOptions := ⟨⟨"sw", false, 2⟩, fun _ => ⟨2, true⟩⟩

/-- One tab gets its engine, learns its identity and retires it; the engine acks the teardown. -/
def retiredRun : List NetworkEvent :=
  [.coordinator 0 .claim, .coordinator 0 .lockGranted, .attach 0 0, .toRouter 0, .toRouter 0,
    .toEngine 0 0, .fromEngine 0, .toTab 0, .toTab 0, .coordinator 0 (.release 0), .toRouter 0,
    .toRouter 0, .toEngine 0 0, .toEngine 0 0, .fromEngine 0, .fromEngine 0]

theorem acks_genuine_of_answerable_retired :
    ∃ w, Runs.run (Network.step oneRouter) .initial retiredRun = some w ∧
      w.nextOfEntry 0 = some ⟨.tab 0, .controlAck ⟨"sw", 0⟩ (-1), none⟩ ∧ AcksGenuine w := by
  refine ⟨_, rfl, rfl, acks_genuine_of_answerable oneRouter retiredRun _ (by decide) ?_ rfl⟩
  refine Runs.meets_cons (fun hno => absurd hno id) rfl ?_
  refine Runs.meets_cons (fun hno => absurd hno id) rfl ?_
  refine Runs.meets_cons trivial rfl (Runs.meets_cons trivial rfl ?_)
  refine Runs.meets_cons trivial rfl (Runs.meets_cons trivial rfl ?_)
  refine Runs.meets_cons (fun _ _ hnext => nomatch hnext) rfl ?_
  refine Runs.meets_cons trivial rfl (Runs.meets_cons trivial rfl ?_)
  refine Runs.meets_cons (fun _ => ⟨0, ⟨"sw", 0⟩, 0, rfl, rfl, rfl, none, ?_⟩) rfl ?_
  · decide
  refine Runs.meets_cons trivial rfl (Runs.meets_cons trivial rfl ?_)
  refine Runs.meets_cons trivial rfl (Runs.meets_cons trivial rfl ?_)
  refine Runs.meets_cons (fun _ _ hnext => nomatch hnext) rfl ?_
  refine Runs.meets_cons (fun _ _ hnext hne => ?_) rfl trivial
  cases hnext
  exact absurd rfl hne

/-- A tab whose keepalive ping was answered retires an engine whose identity it never learned. -/
def keepaliveRun : List NetworkEvent :=
  [.coordinator 0 .claim, .coordinator 0 .lockGranted, .attach 0 0, .coordinator 0 .keepaliveTimer,
    .toRouter 0, .toRouter 0, .toRouter 0, .coordinator 0 (.release 0), .toTab 0]

/-- The answer to the ping ends the wait, and the engine has processed nothing. -/
theorem keepalive_ack_ends_wait :
    ¬∀ (options : NetworkOptions) (events : List NetworkEvent) (w : Network),
      options.router.swInstanceId ≠ KEEPALIVE_IDENTITY.swInstanceId →
      Runs.run (Network.step options) .initial events = some w → AcksGenuine w := by
  intro hall
  have hack := hall oneRouter keepaliveRun _ (by decide) rfl 0 0 0
    ⟨.tab 0, .controlAck KEEPALIVE_IDENTITY 1, none⟩ KEEPALIVE_IDENTITY 1 rfl rfl rfl rfl rfl
  exact absurd hack.1 (by decide)

end Placement
