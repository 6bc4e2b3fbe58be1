/-
Pipes follow the current engine.

Every handler is made of a few moves: quiet posts, a delivered pipe, the end of the registration
with or without notice, and an announcement.  Each keeps the invariant `Sound`: an identity is
minted once and never current again after it was given up, so a notice of retirement goes out once,
after every pipe of its engine and before any of a successor.
-/
import Pgxsinkit.Placement.Router

namespace Placement

open RouterState

variable {options : EngineRouterOptions}

/-! ### Posts -/

/-- A pipe end handed to a tab. -/
def handed (tab : ℕ) (identity : EngineIdentity) (pipe : ℕ) : Post :=
  ⟨.tab tab, .connectPort identity, some pipe⟩

/-- The other end, handed to the engine behind a control port. -/
def accepted (port : ℕ) (identity : EngineIdentity) (pipe : ℕ) : Post :=
  ⟨.engine port, .connectPort identity, some pipe⟩

/-- The notice to a tab that the engine is going. -/
def notice (tab : ℕ) (identity : EngineIdentity) : Post := ⟨.tab tab, .engineRetiring identity, none⟩

/-- The engine of an identity that a pipe or a notice names. -/
def Post.names (post : Post) : Option EngineIdentity :=
  match post.message with
  | .connectPort identity | .engineRetiring identity => some identity
  | _ => none

/-- The tab holds a pipe to the engine behind the port, under its identity. -/
def Holds (s : RouterState) (tab port : ℕ) (identity : EngineIdentity) : Prop :=
  ∃ pipe, handed tab identity pipe ∈ s.posts ∧ accepted port identity pipe ∈ s.posts

/-- Posts were added, and the pipes handed out with them lead to the current engine. -/
def Led (posts : List Post) (s' : RouterState) : Prop :=
  ∃ new, s'.posts = posts ++ new ∧
    ∀ tab identity pipe, handed tab identity pipe ∈ new → s'.currentIdentity = some identity ∧
      ∃ port, s'.controlPort = some port ∧ accepted port identity pipe ∈ new

/-- A notice never follows a pipe of a successor. -/
def Ordered (before after : Post) : Prop :=
  ∀ identity later, after.message = .engineRetiring identity →
    before.message = .connectPort later → later.generation ≤ identity.generation

/-! ### The invariant -/

structure Sound (options : EngineRouterOptions) (s : RouterState) : Prop where
  tabs_nodup : s.tabs.Nodup
  tabs_lt : ∀ tab ∈ s.tabs, tab < s.tabSeq
  /-- the current identity is the last that was minted -/
  minted : ∀ identity, s.currentIdentity = some identity → s.lastMinted = some identity
  instance_eq : ∀ last, s.lastMinted = some last → last.swInstanceId = options.swInstanceId
  port_iff : s.currentIdentity.isSome = s.controlPort.isSome
  /-- the engine behind the control port was told its identity -/
  assigned : ∀ identity port, s.currentIdentity = some identity → s.controlPort = some port →
    ⟨.engine port, .assignIdentity identity, none⟩ ∈ s.posts
  /-- what is named was minted -/
  named : ∀ post ∈ s.posts, ∀ identity, post.names = some identity →
    ∃ last, s.lastMinted = some last ∧ identity.generation ≤ last.generation
  /-- an engine whose retirement was noticed is not current -/
  retired : ∀ tab identity, notice tab identity ∈ s.posts → s.currentIdentity ≠ some identity
  once : ∀ tab identity, s.posts.count (notice tab identity) ≤ 1
  ordered : s.posts.Pairwise Ordered
  /-- a teardown that is remembered was forwarded -/
  forwarded : ∀ identity, s.teardownForwarded = some identity → s.currentIdentity = some identity →
    ∃ port, ⟨.engine port, .engineTeardown identity, none⟩ ∈ s.posts

/-- Once the engine is ready, every tab holds a pipe to it. -/
def AllPiped (s : RouterState) : Prop :=
  s.engineReady = true → ∀ identity port, s.currentIdentity = some identity →
    s.controlPort = some port → ∀ tab ∈ s.tabs, Holds s tab port identity

theorem sound_initial : Sound options .initial := by
  constructor <;> simp [RouterState.initial]

/-- The invariant reads nothing of the timers. -/
theorem Sound.congr {s s' : RouterState} (h : Sound options s) (htabs : s'.tabs = s.tabs)
    (hseq : s'.tabSeq = s.tabSeq) (hcurrent : s'.currentIdentity = s.currentIdentity)
    (hminted : s'.lastMinted = s.lastMinted) (hport : s'.controlPort = s.controlPort)
    (hforwarded : s'.teardownForwarded = s.teardownForwarded) (hposts : s'.posts = s.posts) :
    Sound options s' := by
  constructor
  · rw [htabs]
    exact h.tabs_nodup
  · rw [htabs, hseq]
    exact h.tabs_lt
  · rw [hcurrent, hminted]
    exact h.minted
  · rw [hminted]
    exact h.instance_eq
  · rw [hcurrent, hport]
    exact h.port_iff
  · rw [hcurrent, hport, hposts]
    exact h.assigned
  · rw [hposts, hminted]
    exact h.named
  · rw [hposts, hcurrent]
    exact h.retired
  · rw [hposts]
    exact h.once
  · rw [hposts]
    exact h.ordered
  · rw [hforwarded, hcurrent, hposts]
    exact h.forwarded

/-! ### The moves -/

theorem Led.initial {s : RouterState} {posts : List Post} (h : Led posts s) : posts <+: s.posts := by
  obtain ⟨new, hnew, -⟩ := h
  exact ⟨new, hnew.symm⟩

theorem Led.refl (s : RouterState) : Led s.posts s :=
  ⟨[], (List.append_nil _).symm, fun _ _ _ hmem => nomatch hmem⟩

/-- Posts that hand out no pipe. -/
theorem led_of_names {s : RouterState} {posts : List Post} (new : List Post)
    (hposts : s.posts = posts ++ new)
    (hnames : ∀ post ∈ new, ∀ identity, post.message ≠ .connectPort identity) : Led posts s :=
  ⟨new, hposts, fun _ identity _ hmem => absurd rfl (hnames _ hmem identity)⟩

theorem Led.trans {s s' : RouterState} {posts : List Post} (h : Led posts s) (h' : Led s.posts s')
    (hcurrent : s'.currentIdentity = s.currentIdentity) (hport : s'.controlPort = s.controlPort) :
    Led posts s' := by
  obtain ⟨first, hfirst, hleads⟩ := h
  obtain ⟨second, hsecond, hleads'⟩ := h'
  refine ⟨first ++ second, by rw [hsecond, hfirst, List.append_assoc], ?_⟩
  intro tab identity pipe hmem
  obtain hmem | hmem := List.mem_append.1 hmem
  · obtain ⟨hidentity, port, hport', haccepted⟩ := hleads tab identity pipe hmem
    exact ⟨hcurrent.trans hidentity, port, hport.trans hport', List.mem_append_left _ haccepted⟩
  · obtain ⟨hidentity, port, hport', haccepted⟩ := hleads' tab identity pipe hmem
    exact ⟨hidentity, port, hport', List.mem_append_right _ haccepted⟩

/-- Posts that are no notices, and name no engine but the current one. -/
theorem Sound.post {s : RouterState} (h : Sound options s) {posts : List Post}
    (hnames : ∀ post ∈ posts, ∀ identity, post.names = some identity →
      post.message = .connectPort identity ∧ s.currentIdentity = some identity) :
    Sound options (s.post posts) := by
  have hnotice : ∀ tab identity, notice tab identity ∉ posts := by
    intro tab identity hmem
    cases (hnames _ hmem identity rfl).1
  constructor
  · exact h.tabs_nodup
  · exact h.tabs_lt
  · exact h.minted
  · exact h.instance_eq
  · exact h.port_iff
  · exact fun identity port hid hport => List.mem_append_left _ (h.assigned identity port hid hport)
  · intro post hpost identity hidentity
    obtain hpost | hpost := List.mem_append.1 hpost
    · exact h.named post hpost identity hidentity
    · exact ⟨identity, h.minted identity (hnames post hpost identity hidentity).2, le_rfl⟩
  · intro tab identity hmem
    obtain hmem | hmem := List.mem_append.1 hmem
    · exact h.retired tab identity hmem
    · exact absurd hmem (hnotice tab identity)
  · intro tab identity
    rw [RouterState.post, List.count_append, List.count_eq_zero_of_not_mem (hnotice tab identity)]
    exact h.once tab identity
  · refine List.pairwise_append.2 ⟨h.ordered, List.pairwise_of_forall_mem_list ?_, ?_⟩
    all_goals
      intro before hbefore after hafter identity later hretiring
      have hname : after.names = some identity := by rw [Post.names, hretiring]
      have hconnect := (hnames after hafter identity hname).1
      rw [hretiring] at hconnect
      cases hconnect
  · intro identity hidentity hcurrent
    obtain ⟨port, hport⟩ := h.forwarded identity hidentity hcurrent
    exact ⟨port, List.mem_append_left _ hport⟩

theorem Sound.clearEngine {s : RouterState} (h : Sound options s) : Sound options s.clearEngine := by
  constructor
  · exact h.tabs_nodup
  · exact h.tabs_lt
  · exact fun identity hidentity => nomatch hidentity
  · exact h.instance_eq
  · rfl
  · exact fun identity port hidentity => nomatch hidentity
  · exact h.named
  · exact fun tab identity hmem hidentity => nomatch hidentity
  · exact h.once
  · exact h.ordered
  · exact fun identity hidentity => nomatch hidentity

/-- The registration ends and the notice goes out to every tab. -/
theorem Sound.retireCurrentEngine {s : RouterState} (h : Sound options s) :
    Sound options s.retireCurrentEngine := by
  unfold RouterState.retireCurrentEngine
  cases hcurrent : s.currentIdentity with
  | none => exact h.clearEngine
  | some identity =>
    have hnew : ∀ tab, notice tab identity ∉ s.posts := fun tab hmem =>
      h.retired tab identity hmem hcurrent
    have hclear := h.clearEngine
    have hmem : ∀ {post}, post ∈ s.tabs.map (fun tab => notice tab identity) →
        ∃ tab ∈ s.tabs, post = notice tab identity := by
      intro post hpost
      obtain ⟨tab, htab, rfl⟩ := List.mem_map.1 hpost
      exact ⟨tab, htab, rfl⟩
    have hinj : Function.Injective fun tab => notice tab identity := by
      intro tab tab' heq
      exact Dest.tab.inj (Post.mk.inj heq).1
    dsimp only
    constructor
    · exact h.tabs_nodup
    · exact h.tabs_lt
    · exact hclear.minted
    · exact h.instance_eq
    · rfl
    · exact fun identity port hidentity => nomatch hidentity
    · intro post hpost identity' hidentity
      obtain hpost | hpost := List.mem_append.1 hpost
      · exact h.named post hpost identity' hidentity
      · obtain ⟨tab, -, rfl⟩ := hmem hpost
        obtain rfl := Option.some.inj hidentity
        exact ⟨identity, h.minted identity hcurrent, le_rfl⟩
    · exact fun tab identity' _ hidentity => nomatch hidentity
    · intro tab identity'
      rw [RouterState.fanToTabs, RouterState.post, List.count_append]
      by_cases hsame : identity' = identity
      · subst hsame
        have hzero : s.clearEngine.posts.count (notice tab identity') = 0 :=
          List.count_eq_zero_of_not_mem (hnew tab)
        rw [hzero, Nat.zero_add]
        exact List.nodup_iff_count_le_one.1 (h.tabs_nodup.map hinj) _
      · have hzero : (s.clearEngine.tabs.map fun tab =>
            (⟨.tab tab, .engineRetiring identity, none⟩ : Post)).count (notice tab identity') = 0 := by
          refine List.count_eq_zero_of_not_mem fun hin => ?_
          obtain ⟨tab', -, heq⟩ := hmem hin
          exact hsame (EngineControlMessage.engineRetiring.inj (Post.mk.inj heq).2.1)
        rw [hzero]
        exact h.once tab identity'
    · refine List.pairwise_append.2 ⟨h.ordered, List.pairwise_of_forall_mem_list ?_, ?_⟩
      · intro before hbefore after hafter identity' later hretiring hconnect
        obtain ⟨tab, -, rfl⟩ := hmem hbefore
        cases hconnect
      · intro before hbefore after hafter identity' later hretiring hconnect
        obtain ⟨tab, -, rfl⟩ := hmem hafter
        obtain rfl : identity = identity' := EngineControlMessage.engineRetiring.inj hretiring
        obtain ⟨last, hlast, hle⟩ := h.named before hbefore later (by rw [Post.names, hconnect])
        obtain rfl := Option.some.inj ((h.minted identity hcurrent).symm.trans hlast)
        exact hle
    · exact fun identity' hidentity => nomatch hidentity

theorem Sound.removeTab {s : RouterState} (h : Sound options s) (tab : ℕ) :
    Sound options (s.removeTab tab) := by
  constructor
  · exact h.tabs_nodup.filter _
  · exact fun other hother => h.tabs_lt other (List.mem_of_mem_filter hother)
  · exact h.minted
  · exact h.instance_eq
  · exact h.port_iff
  · exact h.assigned
  · exact h.named
  · exact h.retired
  · exact h.once
  · exact h.ordered
  · exact h.forwarded

/-! ### Delivered pipes -/

theorem deliverPipe_of_current (options : EngineRouterOptions) {s : RouterState} {identity : EngineIdentity} {port : ℕ}
    (hidentity : s.currentIdentity = some identity) (hport : s.controlPort = some port) (tab : ℕ) :
    ∃ window, s.deliverPipe options tab =
      { { s with pipeSeq := s.pipeSeq + 1, connectAckWindow := window } with
        posts := s.posts ++ [accepted port identity s.pipeSeq, handed tab identity s.pipeSeq] } := by
  unfold RouterState.deliverPipe
  rw [hidentity, hport]
  dsimp only
  split
  · exact ⟨some identity, rfl⟩
  · exact ⟨s.connectAckWindow, rfl⟩

theorem Sound.deliverPipe {s : RouterState} (h : Sound options s) (tab : ℕ) :
    Sound options (s.deliverPipe options tab) := by
  cases hidentity : s.currentIdentity with
  | none =>
    unfold RouterState.deliverPipe
    rw [hidentity]
    exact h
  | some identity =>
    obtain ⟨port, hport⟩ := Option.isSome_iff_exists.1
      (h.port_iff.symm.trans (by rw [hidentity]; rfl))
    obtain ⟨window, hdeliver⟩ := deliverPipe_of_current options hidentity hport tab
    rw [hdeliver]
    have hposts : Sound options
        (s.post [accepted port identity s.pipeSeq, handed tab identity s.pipeSeq]) := by
      refine h.post fun post hpost named hnamed => ?_
      obtain rfl | rfl := List.mem_pair.1 hpost
      · obtain rfl := Option.some.inj hnamed
        exact ⟨rfl, hidentity⟩
      · obtain rfl := Option.some.inj hnamed
        exact ⟨rfl, hidentity⟩
    exact hposts.congr rfl rfl rfl rfl rfl rfl rfl

/-- What delivering pipes leaves alone. -/
structure Delivered (s s' : RouterState) : Prop where
  tabs : s'.tabs = s.tabs
  currentIdentity : s'.currentIdentity = s.currentIdentity
  lastMinted : s'.lastMinted = s.lastMinted
  controlPort : s'.controlPort = s.controlPort
  engineReady : s'.engineReady = s.engineReady
  posts : Led s.posts s'

theorem delivered_deliverPipe (options : EngineRouterOptions) (s : RouterState) (tab : ℕ) :
    Delivered s (s.deliverPipe options tab) := by
  cases hidentity : s.currentIdentity with
  | none =>
    have hsame : s.deliverPipe options tab = s := by
      unfold RouterState.deliverPipe
      rw [hidentity]
    rw [hsame]
    exact ⟨rfl, rfl, rfl, rfl, rfl, Led.refl s⟩
  | some identity =>
    cases hport : s.controlPort with
    | none =>
      have hsame : s.deliverPipe options tab = s := by
        unfold RouterState.deliverPipe
        rw [hidentity, hport]
      rw [hsame]
      exact ⟨rfl, rfl, rfl, rfl, rfl, Led.refl s⟩
    | some port =>
      obtain ⟨window, hdeliver⟩ := deliverPipe_of_current options hidentity hport tab
      rw [hdeliver]
      refine ⟨rfl, rfl, rfl, rfl, rfl, _, rfl, fun tab' identity' pipe hmem => ?_⟩
      obtain heq | heq := List.mem_pair.1 hmem
      · cases heq
      · cases heq
        exact ⟨hidentity, port, hport, List.mem_pair.2 (Or.inl rfl)⟩

theorem Delivered.trans {s s' s'' : RouterState} (h : Delivered s s') (h' : Delivered s' s'') :
    Delivered s s'' :=
  ⟨h'.tabs.trans h.tabs, h'.currentIdentity.trans h.currentIdentity,
    h'.lastMinted.trans h.lastMinted, h'.controlPort.trans h.controlPort,
    h'.engineReady.trans h.engineReady, h.posts.trans h'.posts h'.currentIdentity h'.controlPort⟩

theorem Holds.mono {s s' : RouterState} {tab port : ℕ} {identity : EngineIdentity}
    (h : Holds s tab port identity) (hposts : s.posts <+: s'.posts) : Holds s' tab port identity := by
  obtain ⟨pipe, hhanded, haccepted⟩ := h
  exact ⟨pipe, hposts.subset hhanded, hposts.subset haccepted⟩

theorem holds_deliverPipe {s : RouterState} {identity : EngineIdentity} {port : ℕ}
    (hidentity : s.currentIdentity = some identity) (hport : s.controlPort = some port) (tab : ℕ) :
    Holds (s.deliverPipe options tab) tab port identity := by
  obtain ⟨window, hdeliver⟩ := deliverPipe_of_current options hidentity hport tab
  rw [hdeliver]
  exact ⟨s.pipeSeq, by simp, by simp⟩

/-- The loop of `engine-ready` pipes every tab it goes over. -/
theorem delivered_foldl (options : EngineRouterOptions) (s : RouterState) (tabs : List ℕ) :
    Delivered s (tabs.foldl (deliverPipe options) s) ∧
      (Sound options s → Sound options (tabs.foldl (deliverPipe options) s)) ∧
      ∀ identity port, s.currentIdentity = some identity → s.controlPort = some port →
        ∀ tab ∈ tabs, Holds (tabs.foldl (deliverPipe options) s) tab port identity := by
  induction tabs generalizing s with
  | nil => exact ⟨⟨rfl, rfl, rfl, rfl, rfl, Led.refl s⟩, id, fun _ _ _ _ tab htab => nomatch htab⟩
  | cons tab tabs ih =>
    have hfirst := delivered_deliverPipe options s tab
    obtain ⟨hrest, hsound, hholds⟩ := ih (s.deliverPipe options tab)
    refine ⟨hfirst.trans hrest, fun h => hsound (h.deliverPipe tab), ?_⟩
    intro identity port hidentity hport other hother
    obtain rfl | hother := List.mem_cons.1 hother
    · exact (holds_deliverPipe hidentity hport other).mono hrest.posts.initial
    · exact hholds identity port (hfirst.currentIdentity.trans hidentity)
        (hfirst.controlPort.trans hport) other hother

/-! ### What each event does -/

theorem AllPiped.mono {s s' : RouterState} (h : AllPiped s) (hd : Delivered s s') : AllPiped s' := by
  intro hready identity port hidentity hport tab htab
  rw [hd.engineReady] at hready
  rw [hd.currentIdentity] at hidentity
  rw [hd.controlPort] at hport
  rw [hd.tabs] at htab
  exact (h hready identity port hidentity hport tab htab).mono hd.posts.initial

theorem allPiped_of_not_ready {s : RouterState} (h : s.engineReady = false) : AllPiped s := by
  intro hready
  rw [h] at hready
  cases hready

/-- A state that differs in the timers and in posts that hand out no pipe. -/
theorem delivered_of_eq {s s' : RouterState} (htabs : s'.tabs = s.tabs)
    (hcurrent : s'.currentIdentity = s.currentIdentity) (hminted : s'.lastMinted = s.lastMinted)
    (hport : s'.controlPort = s.controlPort) (hready : s'.engineReady = s.engineReady)
    {posts : List Post} (hposts : s'.posts = s.posts ++ posts)
    (hnames : ∀ post ∈ posts, post.names = none) : Delivered s s' := by
  refine ⟨htabs, hcurrent, hminted, hport, hready, led_of_names _ hposts ?_⟩
  intro post hpost identity hmessage
  have hnone := hnames post hpost
  rw [Post.names, hmessage] at hnone
  cases hnone

/-- A state that differs in the timers alone. -/
theorem delivered_of_timers {s s' : RouterState} (htabs : s'.tabs = s.tabs)
    (hcurrent : s'.currentIdentity = s.currentIdentity) (hminted : s'.lastMinted = s.lastMinted)
    (hport : s'.controlPort = s.controlPort) (hready : s'.engineReady = s.engineReady)
    (hposts : s'.posts = s.posts) : Delivered s s' :=
  delivered_of_eq htabs hcurrent hminted hport hready
    (hposts.trans (List.append_nil _).symm) fun _ hpost => nomatch hpost

theorem startProbe_quiet (options : EngineRouterOptions) (s : RouterState) :
    Delivered s s.startProbe ∧ (Sound options s → Sound options s.startProbe) := by
  unfold RouterState.startProbe
  split
  · exact ⟨delivered_of_timers rfl rfl rfl rfl rfl rfl, id⟩
  · exact ⟨delivered_of_timers rfl rfl rfl rfl rfl rfl, fun h => h.congr rfl rfl rfl rfl rfl rfl rfl⟩

/-- Every event but an announcement or the end of a registration keeps the current engine. -/
structure Kept (options : EngineRouterOptions) (s s' : RouterState) : Prop where
  current : s'.currentIdentity = s.currentIdentity
  minted : s'.lastMinted = s.lastMinted
  port : s'.controlPort = s.controlPort
  ready : s.engineReady = true → s'.engineReady = true
  sound : Sound options s → Sound options s'
  piped : AllPiped s → AllPiped s'
  posts : Led s.posts s'

theorem Kept.of_delivered {s s' : RouterState} (hd : Delivered s s')
    (hsound : Sound options s → Sound options s') : Kept options s s' :=
  ⟨hd.currentIdentity, hd.lastMinted, hd.controlPort, hd.engineReady.trans, hsound, (·.mono hd),
    hd.posts⟩

theorem Kept.refl (s : RouterState) : Kept options s s :=
  Kept.of_delivered ⟨rfl, rfl, rfl, rfl, rfl, Led.refl s⟩ id

theorem Kept.trans {s s' s'' : RouterState} (h : Kept options s s') (h' : Kept options s' s'') :
    Kept options s s'' :=
  ⟨h'.current.trans h.current, h'.minted.trans h.minted, h'.port.trans h.port,
    fun hready => h'.ready (h.ready hready), fun hsound => h'.sound (h.sound hsound),
    fun hpiped => h'.piped (h.piped hpiped), h.posts.trans h'.posts h'.current h'.port⟩

/-- A timer was armed or cleared. -/
theorem Kept.of_timers {s s' : RouterState} (hd : Delivered s s') (hseq : s'.tabSeq = s.tabSeq)
    (hforwarded : s'.teardownForwarded = s.teardownForwarded) (hposts : s'.posts = s.posts) :
    Kept options s s' :=
  Kept.of_delivered hd fun h =>
    h.congr hd.tabs hseq hd.currentIdentity hd.lastMinted hd.controlPort hforwarded hposts

theorem kept_post (options : EngineRouterOptions) (s : RouterState) {posts : List Post} (hnames : ∀ post ∈ posts, post.names = none) :
    Kept options s (s.post posts) := by
  refine Kept.of_delivered (delivered_of_eq rfl rfl rfl rfl rfl rfl hnames) fun h => h.post ?_
  intro post hpost identity hidentity
  rw [hnames post hpost] at hidentity
  cases hidentity

theorem kept_removeTab (s : RouterState) (tab : ℕ) : Kept options s (s.removeTab tab) := by
  refine ⟨rfl, rfl, rfl, id, fun h => h.removeTab tab, fun h => ?_, Led.refl s⟩
  intro hready identity port hidentity hport other hother
  exact h hready identity port hidentity hport other (List.mem_of_mem_filter hother)

theorem kept_attachTab (s : RouterState) : Kept options s (s.attachTab options) := by
  -- the new entry, before it is piped
  let added : RouterState := { s with tabs := s.tabs ++ [s.tabSeq], tabSeq := s.tabSeq + 1 }
  have hsound : Sound options s → Sound options added := by
    intro h
    constructor
    · refine List.nodup_append.2 ⟨h.tabs_nodup, List.nodup_singleton _, fun tab htab other hother => ?_⟩
      rw [List.mem_singleton.1 hother]
      exact (h.tabs_lt tab htab).ne
    · intro tab htab
      obtain htab | htab := List.mem_append.1 htab
      · exact (h.tabs_lt tab htab).trans (Nat.lt_succ_self _)
      · rw [List.mem_singleton.1 htab]
        exact Nat.lt_succ_self _
    · exact h.minted
    · exact h.instance_eq
    · exact h.port_iff
    · exact h.assigned
    · exact h.named
    · exact h.retired
    · exact h.once
    · exact h.ordered
    · exact h.forwarded
  have hattach : s.attachTab options =
      if s.currentIdentity.isSome ∧ s.engineReady then added.deliverPipe options s.tabSeq
      else added := rfl
  rw [hattach]
  split
  case isTrue hready =>
    have hd := delivered_deliverPipe options added s.tabSeq
    refine ⟨hd.currentIdentity, hd.lastMinted, hd.controlPort, hd.engineReady.trans,
      fun h => (hsound h).deliverPipe _, fun hpiped => ?_, hd.posts⟩
    intro _ identity port hidentity hport tab htab
    rw [hd.currentIdentity] at hidentity
    rw [hd.controlPort] at hport
    rw [hd.tabs] at htab
    obtain htab | htab := List.mem_append.1 htab
    · exact (hpiped hready.2 identity port hidentity hport tab htab).mono hd.posts.initial
    · rw [List.mem_singleton.1 htab]
      exact holds_deliverPipe (s := added) hidentity hport s.tabSeq
  case isFalse hnot =>
    refine ⟨rfl, rfl, rfl, id, hsound, fun _ => ?_, Led.refl s⟩
    intro hready identity port hidentity hport tab htab
    exact absurd ⟨by rw [show s.currentIdentity = some identity from hidentity]; rfl, hready⟩ hnot

theorem kept_onTabMessage (s : RouterState) (tab : ℕ) (message : EngineControlMessage) :
    Kept options s (s.onTabMessage options tab message) := by
  unfold RouterState.onTabMessage
  split
  case h_1 identity pingId =>
    exact kept_post _ s fun post hpost => by rw [List.mem_singleton.1 hpost]; rfl
  case h_2 identity =>
    split
    · obtain ⟨hd, hsound⟩ := startProbe_quiet options s
      exact Kept.of_delivered hd hsound
    · exact Kept.refl s
  case h_3 identity =>
    split
    case isFalse => exact Kept.refl s
    case isTrue hcurrent =>
      have hcurrent : s.currentIdentity = some identity := by
        simpa [shouldApplyControlMessage] using hcurrent
      have hnames : ∀ post ∈ s.controlPort.toList.map
          fun port => (⟨.engine port, .engineTeardown identity, none⟩ : Post), post.names = none := by
        intro post hpost
        obtain ⟨port, -, rfl⟩ := List.mem_map.1 hpost
        rfl
      refine Kept.of_delivered (delivered_of_eq rfl rfl rfl rfl rfl rfl hnames) fun h => ?_
      have hposts := (kept_post options s hnames).sound h
      obtain ⟨port, hport⟩ := Option.isSome_iff_exists.1
        (h.port_iff.symm.trans (by rw [hcurrent]; rfl))
      refine { hposts with forwarded := fun identity' hforwarded _ => ?_ }
      obtain rfl : identity = identity' := Option.some.inj hforwarded
      refine ⟨port, List.mem_append_right _ ?_⟩
      rw [hport]
      exact List.mem_singleton_self _
  case h_4 => exact kept_removeTab s tab
  case h_5 => exact Kept.refl s

theorem kept_onControlMessage (s : RouterState) (message : EngineControlMessage) :
    Kept options s (s.onControlMessage options message) := by
  unfold RouterState.onControlMessage
  split
  case h_1 identity =>
    split
    case isFalse => exact Kept.refl s
    case isTrue =>
      obtain ⟨hd, hsound, hholds⟩ :=
        delivered_foldl options { s with engineReady := true } s.tabs
      refine ⟨hd.currentIdentity, hd.lastMinted, hd.controlPort, fun _ => hd.engineReady,
        fun h => hsound (h.congr rfl rfl rfl rfl rfl rfl rfl), fun _ => ?_, hd.posts⟩
      intro _ identity port hidentity hport tab htab
      rw [hd.currentIdentity] at hidentity
      rw [hd.controlPort] at hport
      rw [hd.tabs] at htab
      exact hholds identity port hidentity hport tab htab
  case h_2 identity =>
    split
    · exact Kept.of_timers (delivered_of_timers rfl rfl rfl rfl rfl rfl) rfl rfl rfl
    · exact Kept.refl s
  case h_3 identity pingId =>
    split
    · exact Kept.of_timers (delivered_of_timers rfl rfl rfl rfl rfl rfl) rfl rfl rfl
    · exact kept_post _ s fun post hpost => by
        obtain ⟨tab, -, rfl⟩ := List.mem_map.1 hpost
        rfl
  case h_4 => exact Kept.refl s

/-- A tick of the probe keeps the registration, or ends it with notice. -/
theorem probeTick_cases (options : EngineRouterOptions) (s : RouterState) :
    Kept options s (s.probeTick options) ∨ s.probeTick options = s.resetProbe.retireCurrentEngine := by
  have hreset : Kept options s s.resetProbe :=
    Kept.of_timers (delivered_of_timers rfl rfl rfl rfl rfl rfl) rfl rfl rfl
  unfold RouterState.probeTick
  split
  case h_2 => exact Or.inl hreset
  case h_1 identity port hidentity hport =>
    dsimp only
    generalize (if s.pendingPingId.isSome then s.missCount + 1 else s.missCount) = missCount
    by_cases hverdict : s.pendingPingId.isSome ∧ options.probeMissThreshold ≤ missCount
    · exact Or.inr (if_pos hverdict)
    · left
      rw [if_neg hverdict]
      have hping : Kept options s
          (s.post [⟨.engine port, .controlPing identity (s.pingSeq + 1 : ℕ), none⟩]) :=
        kept_post _ s fun post hpost => by
          rw [List.mem_singleton.1 hpost]
          rfl
      exact hping.trans (Kept.of_timers (delivered_of_timers rfl rfl rfl rfl rfl rfl) rfl rfl rfl)

/-- The five things an event can do to the registration. -/
inductive Outcome (options : EngineRouterOptions) (s : RouterState) :
    RouterEvent → RouterState → Prop where
  | kept {event s'} (h : Kept options s s') : Outcome options s event s'
  /-- the engine is given up with notice -/
  | noticed {event t} (h : Kept options s t) (htabs : t.tabs = s.tabs) (hposts : t.posts = s.posts) :
      Outcome options s event t.retireCurrentEngine
  /-- the engine closed after the teardown that was requested of it -/
  | tornDown {port identity} (hcurrent : s.currentIdentity = some identity)
      (hforwarded : s.teardownForwarded = some identity) :
      Outcome options s (.controlClose port identity) s.clearEngine
  | announced (port : ℕ) : Outcome options s (.announceEngine port) (s.announceEngine options port)
  | granted : Outcome options s (.openHandoff .leaderGranted) (s.clearEngine.fanToTabs .leaderGranted)

theorem outcome_step (options : EngineRouterOptions) (s : RouterState) (event : RouterEvent) :
    Outcome options s event (s.step options event) := by
  cases event with
  | attachTab => exact .kept (kept_attachTab s)
  | unregisterTab tab => exact .kept (kept_removeTab s tab)
  | tabMessage tab message =>
    rw [RouterState.step]
    split
    · exact .kept (kept_onTabMessage s tab message)
    · exact .kept (Kept.refl s)
  | announceEngine port => exact .announced port
  | controlMessage port message =>
    rw [RouterState.step]
    split
    · exact .kept (kept_onControlMessage s message)
    · exact .kept (Kept.refl s)
  | controlClose port identity =>
    rw [RouterState.step, RouterState.onControlPortClose]
    split
    · exact .kept (Kept.refl s)
    split
    · exact .kept (Kept.refl s)
    case isFalse hcurrent =>
      split
      case isTrue hforwarded => exact .tornDown (not_not.1 hcurrent) hforwarded
      case isFalse => exact .noticed (Kept.refl s) rfl rfl
  | openHandoff reason =>
    cases reason with
    | leaderGranted => exact .granted
    | engineRetiring => exact .noticed (Kept.refl s) rfl rfl
  | connectAckExpires =>
    rw [RouterState.step]
    split
    · exact .kept (Kept.refl s)
    case h_2 armedFor harmed =>
      have hcleared : Kept options s { s with connectAckWindow := none } :=
        Kept.of_timers (delivered_of_timers rfl rfl rfl rfl rfl rfl) rfl rfl rfl
      dsimp only
      split
      · obtain ⟨hd, hsound⟩ :=
          startProbe_quiet options { s with connectAckWindow := none }
        exact .kept (hcleared.trans (Kept.of_delivered hd hsound))
      · exact .kept hcleared
  | probeTimer =>
    rw [RouterState.step]
    split
    case isFalse => exact .kept (Kept.refl s)
    case isTrue =>
      have hfired : Kept options s { s with probeArmed := false } :=
        Kept.of_timers (delivered_of_timers rfl rfl rfl rfl rfl rfl) rfl rfl rfl
      obtain htick | htick := probeTick_cases options { s with probeArmed := false }
      · exact .kept (hfired.trans htick)
      · rw [htick]
        exact .noticed (Kept.of_timers (delivered_of_timers rfl rfl rfl rfl rfl rfl) rfl rfl rfl)
          rfl rfl

/-! ### Whole runs -/

theorem generation_mint {s : RouterState} (h : Sound options s) {last : EngineIdentity}
    (hlast : s.lastMinted = some last) :
    (mintEngineIdentity options.swInstanceId s.lastMinted).generation = last.generation + 1 := by
  rw [hlast, mintEngineIdentity, if_pos (h.instance_eq last hlast)]

theorem Sound.announceEngine {s : RouterState} (h : Sound options s) (port : ℕ) :
    Sound options (s.announceEngine options port) := by
  have hminted : (mintEngineIdentity options.swInstanceId s.lastMinted).swInstanceId =
      options.swInstanceId := by
    unfold mintEngineIdentity
    split
    · rfl
    · split
      · rfl
      · rfl
  -- the new generation is above every one that was named
  have hnew : ∀ post ∈ s.posts, ∀ identity, post.names = some identity →
      identity.generation < (mintEngineIdentity options.swInstanceId s.lastMinted).generation := by
    intro post hpost identity hidentity
    obtain ⟨last, hlast, hle⟩ := h.named post hpost identity hidentity
    rw [generation_mint h hlast]
    omega
  have hold : ∀ post, post.names.isSome → post ∈ (s.announceEngine options port).posts →
      post ∈ s.posts := by
    intro post hname hpost
    obtain hpost | hpost := List.mem_append.1 hpost
    · exact hpost
    · rw [List.mem_singleton.1 hpost] at hname
      cases hname
  have hassign : ∀ tab identity, notice tab identity ∉ [(⟨.engine port, .assignIdentity
      (mintEngineIdentity options.swInstanceId s.lastMinted), none⟩ : Post)] := by
    intro tab identity hmem
    cases List.mem_singleton.1 hmem
  constructor
  · exact h.tabs_nodup
  · exact h.tabs_lt
  · exact fun identity hidentity => hidentity
  · intro last hlast
    obtain rfl := Option.some.inj hlast
    exact hminted
  · rfl
  · intro identity port' hidentity hport
    obtain rfl := Option.some.inj hidentity
    obtain rfl := Option.some.inj hport
    exact List.mem_append_right _ (List.mem_singleton_self _)
  · intro post hpost identity hidentity
    have hmem := hold post (by rw [hidentity]; rfl) hpost
    exact ⟨_, rfl, (hnew post hmem identity hidentity).le⟩
  · intro tab identity hmem hidentity
    obtain rfl := Option.some.inj hidentity
    exact lt_irrefl _ (hnew _ (hold _ rfl hmem) _ rfl)
  · intro tab identity
    have hcount := @List.count_append _ _ (notice tab identity) s.posts
      [⟨.engine port, .assignIdentity
        (mintEngineIdentity options.swInstanceId s.lastMinted), none⟩]
    rw [List.count_eq_zero_of_not_mem (hassign tab identity)] at hcount
    exact hcount.trans_le (h.once tab identity)
  · refine List.pairwise_append.2 ⟨h.ordered, List.pairwise_singleton _ _, ?_⟩
    intro before hbefore after hafter identity later hretiring
    rw [List.mem_singleton.1 hafter] at hretiring
    cases hretiring
  · exact fun identity hforwarded => nomatch hforwarded

theorem Sound.step {s : RouterState} (h : Sound options s) (event : RouterEvent) :
    Sound options (s.step options event) := by
  have houtcome := outcome_step options s event
  generalize s.step options event = s' at houtcome ⊢
  cases houtcome with
  | kept hkept => exact hkept.sound h
  | noticed hkept htabs hposts => exact (hkept.sound h).retireCurrentEngine
  | tornDown hcurrent hforwarded => exact h.clearEngine
  | announced port => exact h.announceEngine port
  | granted =>
    refine ((kept_post options s.clearEngine ?_).sound h.clearEngine)
    intro post hpost
    obtain ⟨tab, -, rfl⟩ := List.mem_map.1 hpost
    rfl

theorem AllPiped.step {s : RouterState} (h : AllPiped s) (event : RouterEvent) :
    AllPiped (s.step options event) := by
  have houtcome := outcome_step options s event
  generalize s.step options event = s' at houtcome ⊢
  cases houtcome with
  | kept hkept => exact hkept.piped h
  | noticed hkept htabs hposts =>
    refine allPiped_of_not_ready ?_
    unfold RouterState.retireCurrentEngine
    split
    · rfl
    · rfl
  | tornDown hcurrent hforwarded => exact allPiped_of_not_ready rfl
  | announced port => exact allPiped_of_not_ready rfl
  | granted => exact allPiped_of_not_ready rfl

theorem run_append (events later : List RouterEvent) :
    RouterState.run options (events ++ later) =
      later.foldl (RouterState.step options) (RouterState.run options events) :=
  List.foldl_append ..

theorem sound_foldl {s : RouterState} (h : Sound options s) (events : List RouterEvent) :
    Sound options (events.foldl (RouterState.step options) s) := by
  induction events generalizing s with
  | nil => exact h
  | cons event events ih => exact ih (h.step event)

theorem sound_run (options : EngineRouterOptions) (events : List RouterEvent) : Sound options (RouterState.run options events) :=
  sound_foldl sound_initial events

theorem allPiped_foldl {s : RouterState} (h : AllPiped s) (events : List RouterEvent) :
    AllPiped (events.foldl (RouterState.step options) s) := by
  induction events generalizing s with
  | nil => exact h
  | cons event events ih => exact ih (h.step event)

theorem allPiped_run (options : EngineRouterOptions) (events : List RouterEvent) : AllPiped (RouterState.run options events) :=
  allPiped_foldl (allPiped_of_not_ready rfl) events

/-! ### An engine that was given up -/

/-- The identity was minted and is not current. -/
def Passed (identity : EngineIdentity) (s : RouterState) : Prop :=
  s.currentIdentity ≠ some identity ∧
    ∃ last, s.lastMinted = some last ∧ identity.generation ≤ last.generation

theorem lastMinted_retireCurrentEngine (s : RouterState) :
    s.retireCurrentEngine.lastMinted = s.lastMinted ∧
      s.retireCurrentEngine.currentIdentity = none := by
  unfold RouterState.retireCurrentEngine
  split
  · exact ⟨rfl, rfl⟩
  · exact ⟨rfl, rfl⟩

theorem current_ne_announced {s : RouterState} (h : Sound options s) (port : ℕ)
    {identity last : EngineIdentity} (hlast : s.lastMinted = some last)
    (hle : identity.generation ≤ last.generation) :
    (s.announceEngine options port).currentIdentity ≠ some identity := by
  intro hcurrent
  obtain rfl := Option.some.inj hcurrent
  have hgeneration := generation_mint h hlast
  change (mintEngineIdentity options.swInstanceId s.lastMinted).generation ≤ _ at hle
  omega

/-- A minted identity is kept, or passed for good. -/
theorem kept_or_passed {s : RouterState} (h : Sound options s) {identity : EngineIdentity}
    (hminted : ∃ last, s.lastMinted = some last ∧ identity.generation ≤ last.generation)
    (event : RouterEvent) :
    Kept options s (s.step options event) ∨ Passed identity (s.step options event) := by
  obtain ⟨last, hlast, hle⟩ := hminted
  have houtcome := outcome_step options s event
  generalize s.step options event = s' at houtcome ⊢
  cases houtcome with
  | kept hkept => exact Or.inl hkept
  | @noticed _ t hkept htabs hposts =>
    obtain ⟨hsame, hnone⟩ := lastMinted_retireCurrentEngine t
    refine Or.inr ⟨?_, last, hsame.trans (hkept.minted.trans hlast), hle⟩
    rw [hnone]
    exact fun hcurrent => nomatch hcurrent
  | tornDown hcurrent hforwarded =>
    exact Or.inr ⟨(fun hcurrent => nomatch hcurrent), last, hlast, hle⟩
  | announced port =>
    refine Or.inr ⟨current_ne_announced h port hlast hle, _, rfl, ?_⟩
    have hgeneration := generation_mint h hlast
    change _ ≤ (mintEngineIdentity options.swInstanceId s.lastMinted).generation
    omega
  | granted => exact Or.inr ⟨(fun hcurrent => nomatch hcurrent), last, hlast, hle⟩

theorem Passed.foldl {s : RouterState} (h : Sound options s) {identity : EngineIdentity}
    (hpassed : Passed identity s) (events : List RouterEvent) :
    Passed identity (events.foldl (RouterState.step options) s) := by
  induction events generalizing s with
  | nil => exact hpassed
  | cons event events ih =>
    refine ih (h.step event) ?_
    obtain hkept | hpassed' := kept_or_passed h hpassed.2 event
    · obtain ⟨hcurrent, hminted⟩ := hpassed
      refine ⟨by rwa [hkept.current], ?_⟩
      rwa [hkept.minted]
    · exact hpassed'

/-- While the engine stays current, so do its port and what it reported. -/
theorem kept_foldl {s : RouterState} (h : Sound options s) {identity : EngineIdentity}
    (hcurrent : s.currentIdentity = some identity) (events : List RouterEvent)
    (hend : (events.foldl (RouterState.step options) s).currentIdentity = some identity) :
    Kept options s (events.foldl (RouterState.step options) s) := by
  induction events generalizing s with
  | nil => exact Kept.refl s
  | cons event events ih =>
    obtain hkept | hpassed :=
      kept_or_passed h ⟨identity, h.minted identity hcurrent, le_rfl⟩ event
    · exact hkept.trans (ih (h.step event) (hkept.current.trans hcurrent) hend)
    · exact absurd hend (hpassed.foldl (h.step event) events).1

/-! ### Main results -/

/-- The engine was given up as its own requested teardown, or for a successor. -/
def ByRequest (s : RouterState) (identity : EngineIdentity) : RouterEvent → Prop
  | .announceEngine _ | .openHandoff .leaderGranted => True
  | .controlClose _ announced =>
    announced = identity ∧ ∃ port, ⟨.engine port, .engineTeardown identity, none⟩ ∈ s.posts
  | _ => False

/-- What a run of the router keeps of its pipes and its notices. -/
structure PipesFollow (options : EngineRouterOptions) (events : List RouterEvent) : Prop where
  /-- a pipe handed to a tab has its other end at the current engine, under its identity -/
  handed_to_current : ∀ event,
    let s' := RouterState.run options (events ++ [event])
    ∃ new, s'.posts = (RouterState.run options events).posts ++ new ∧
      ∀ tab identity pipe, handed tab identity pipe ∈ new →
        s'.currentIdentity = some identity ∧ ∃ port, s'.controlPort = some port ∧
          accepted port identity pipe ∈ new ∧
          ⟨.engine port, .assignIdentity identity, none⟩ ∈ s'.posts
  /-- a tab attached while an engine that has reported ready is current holds a pipe to it -/
  ready_holds : ∀ before port identity after,
    events = before ++ .controlMessage port (.engineReady identity) :: after →
    (RouterState.run options before).currentIdentity = some identity →
    (RouterState.run options before).controlPort = some port →
    (RouterState.run options events).currentIdentity = some identity →
    ∀ tab ∈ (RouterState.run options events).tabs,
      Holds (RouterState.run options events) tab port identity
  /-- an engine given up otherwise is noticed to every tab, under its identity -/
  noticed : ∀ event identity,
    let s := RouterState.run options events
    let s' := RouterState.run options (events ++ [event])
    s.currentIdentity = some identity → s'.currentIdentity ≠ some identity →
    ¬ByRequest s identity event →
    s'.posts = s.posts ++ s.tabs.map fun tab => notice tab identity
  notice_once : ∀ tab identity, (RouterState.run options events).posts.count (notice tab identity) ≤ 1
  /-- no notice follows a pipe of a successor -/
  notice_first : (RouterState.run options events).posts.Pairwise Ordered

theorem run_snoc (events : List RouterEvent) (event : RouterEvent) :
    RouterState.run options (events ++ [event]) = (RouterState.run options events).step options event :=
  run_append events [event]

theorem led_step (options : EngineRouterOptions) {s : RouterState} (event : RouterEvent) : Led s.posts (s.step options event) := by
  have hquiet : ∀ (message : EngineControlMessage), (∀ identity, message ≠ .connectPort identity) →
      ∀ (t : RouterState), ∀ post ∈ t.tabs.map fun tab => (⟨.tab tab, message, none⟩ : Post),
        ∀ identity, post.message ≠ .connectPort identity := by
    intro message hmessage t post hpost identity
    obtain ⟨tab, -, rfl⟩ := List.mem_map.1 hpost
    exact hmessage identity
  have houtcome := outcome_step options s event
  generalize s.step options event = s' at houtcome ⊢
  cases houtcome with
  | kept hkept => exact hkept.posts
  | @noticed _ t hkept htabs hposts =>
    unfold RouterState.retireCurrentEngine
    split
    · exact led_of_names [] (hposts.trans (List.append_nil _).symm)
        fun _ hmem => nomatch hmem
    · rename_i identity hcurrent
      refine led_of_names _ ?_ (hquiet (.engineRetiring identity) (fun _ h => nomatch h) t)
      rw [← hposts]
      rfl
  | tornDown hcurrent hforwarded =>
    exact led_of_names [] (List.append_nil _).symm fun _ hmem => nomatch hmem
  | announced port =>
    refine led_of_names _ rfl fun post hpost identity => ?_
    rw [List.mem_singleton.1 hpost]
    exact fun h => nomatch h
  | granted => exact led_of_names _ rfl (hquiet .leaderGranted (fun _ h => nomatch h) s)

/-- Pipes follow the current engine. -/
theorem pipes_follow_the_current_engine (options : EngineRouterOptions) (events : List RouterEvent) :
    PipesFollow options events := by
  have hsound := sound_run options events
  constructor
  case handed_to_current =>
    intro event
    have hsound' := sound_run options (events ++ [event])
    obtain ⟨new, hnew, hleads⟩ := led_step options
      (s := RouterState.run options events) event
    rw [← run_snoc] at hnew hleads
    refine ⟨new, hnew, fun tab identity pipe hmem => ?_⟩
    obtain ⟨hcurrent, port, hport, haccepted⟩ := hleads tab identity pipe hmem
    exact ⟨hcurrent, port, hport, haccepted, hsound'.assigned identity port hcurrent hport⟩
  case ready_holds =>
    intro before port identity after hevents hcurrent hport hend tab htab
    have hpiped := allPiped_run options events
    subst hevents
    rw [run_append] at hend htab hpiped ⊢
    have hbefore := sound_run options before
    rw [List.foldl_cons] at hend htab hpiped ⊢
    have hready : ((RouterState.run options before).step options
        (.controlMessage port (.engineReady identity))).engineReady = true ∧
        ((RouterState.run options before).step options
          (.controlMessage port (.engineReady identity))).currentIdentity = some identity ∧
        ((RouterState.run options before).step options
          (.controlMessage port (.engineReady identity))).controlPort = some port := by
      rw [RouterState.step, if_pos hport, RouterState.onControlMessage,
        if_pos (show shouldApplyControlMessage _ (.engineReady identity) = true from
          decide_eq_true hcurrent)]
      obtain ⟨hd, -, -⟩ := delivered_foldl options
        { RouterState.run options before with engineReady := true }
        (RouterState.run options before).tabs
      exact ⟨hd.engineReady, hd.currentIdentity.trans hcurrent, hd.controlPort.trans hport⟩
    have hkept := kept_foldl (hbefore.step _) hready.2.1 after hend
    exact hpiped (hkept.ready hready.1) identity port hend (hkept.port.trans hready.2.2) tab htab
  case noticed =>
    intro event identity s s' hcurrent hgone hrequest
    have hstep : s' = s.step options event := run_snoc events event
    rw [hstep] at hgone ⊢
    generalize hs' : s.step options event = t at hgone ⊢
    have houtcome := outcome_step options s event
    rw [hs'] at houtcome
    cases houtcome with
    | kept hkept => exact absurd (hkept.current.trans hcurrent) hgone
    | @noticed _ t hkept htabs hposts =>
      unfold RouterState.retireCurrentEngine
      rw [hkept.current, hcurrent, ← htabs, ← hposts]
      rfl
    | @tornDown port announced hannounced hforwarded =>
      obtain rfl := Option.some.inj (hannounced.symm.trans hcurrent)
      exact absurd ⟨rfl, hsound.forwarded announced hforwarded hannounced⟩ hrequest
    | announced port => exact absurd trivial hrequest
    | granted => exact absurd trivial hrequest
  case notice_once => exact hsound.once
  case notice_first => exact hsound.ordered

end Placement
