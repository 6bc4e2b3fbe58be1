/-
The authority of a store over all its boots.

The invariant of a store path is kept by every effect that the boots and the destruction perform,
in the order in which they perform them, so a crash between any two of them leaves it behind.  It
does not survive a boot that holds OPFS access, finds the deletion marker and cannot settle it: that
boot goes on to open or to mint in OPFS with the marker standing.
-/
import Pgxsinkit.Lib.Runs
import Pgxsinkit.Stores.Coherent

namespace Stores

open Crash

/-! ### What the boots owe a store -/

/-- The data that an exposed store stands for. -/
def Disk.contents (s : Disk) : ResolvedStorageBackend → Option ℕ
  | .opfsRepacked => s.storeDirectory.join
  | .idbfs => s.idbDatabase

structure Authority (s : Disk) : Prop where
  /-- nobody deletes the data of an exposed store -/
  kept : ∀ backend store, s.exposed = some (backend, store) → s.contents backend = some store
  /-- every opening so far was proper -/
  openings : ∀ o ∈ s.openings, o.Proper
  /-- no record stands for destroyed data -/
  opfs : ∀ store, s.record = some .opfsCommitted → s.contents .opfsRepacked = some store →
    store ∉ s.destroyed
  idb : ∀ store, s.record = some .idbAuthoritative → s.contents .idbfs = some store →
    store ∉ s.destroyed

/-- The boot goes to IndexedDB whatever OPFS shows. -/
def Disk.LandsOnIdb (s : Disk) : Prop :=
  s.record = some .idbAuthoritative ∨
    (s.record = none ∧ s.idbDatabase.isSome = true ∧ s.sentinel = false)

/-- The answers to the settlement of the marker: the namespace can be observed, and the root does
not reject in the two deletions. -/
def OpfsAnswers (answers : List Answer) : Prop :=
  (answers[1]? = none ∨ answers[1]? = some .ok) ∧
    answers[2]? ≠ some .rootRejects ∧ answers[3]? ≠ some .rootRejects

/-- A boot with OPFS access settles the marker it finds, or goes to IndexedDB anyway; a destruction
without the OPFS API leaves no data in OPFS behind, or finds the marker already set. -/
def Settleable (s : Disk) : StoreEvent → Prop
  | .boot .granted answers =>
    s.opfsDeletionPending = true → s.LandsOnIdb ∨ OpfsAnswers answers
  | .boot (.denied _) _ => True
  | .destroy opfsApi _ =>
    opfsApi = false →
      s.opfsDeletionPending = true ∨ (s.sentinel = false ∧ s.storeDirectory.join = none)

theorem Coherent.authority (h : Coherent s) : Authority s where
  kept backend store hexposed := by
    cases backend with
    | opfsRepacked =>
      rw [Disk.contents, (h.exposed_opfs store hexposed).2]
      rfl
    | idbfs => exact (h.exposed_idb store hexposed).2
  openings := h.openings
  opfs store hrecord hcontents := by
    obtain ⟨n, hdir, hclean⟩ := (h.committed hrecord).2
    obtain rfl : n = store :=
      Option.some.inj (Option.some.inj (hdir.symm.trans (Option.join_eq_some_iff.1 hcontents)))
    exact hclean
  idb store hrecord hcontents hmem :=
    nomatch hrecord.symm.trans (h.database store hcontents hmem)

/-! ### The effects -/

variable {s : Disk} {exc : StoreError → Disk → Prop}

theorem sound_performs {f : Disk → Disk} {post : Unit → Disk → Prop} (hs : Coherent s)
    (hexc : ∀ error, exc error s) (hok : post () (f s)) :
    Sound Coherent (performs f) post exc s := by
  refine sound_effect hs fun answer => ?_
  cases answer with
  | ok => exact hok
  | rootRejects | owned | fails => exact hexc _

theorem sound_reads {α : Type} {f : Disk → α} {post : α → Disk → Prop} (hs : Coherent s)
    (hexc : ∀ error, exc error s) (hok : post (f s) s) :
    Sound Coherent (reads f) post exc s := by
  refine sound_effect hs fun answer => ?_
  cases answer with
  | ok => exact hok
  | rootRejects | owned | fails => exact hexc _

theorem sound_removes {f : Disk → Disk} {post : Unit → Disk → Prop} (hs : Coherent s)
    (hexc : ∀ error, exc error s) (hok : post () (f s)) :
    Sound Coherent (removes f) post exc s := by
  refine sound_effect hs fun answer => ?_
  cases answer with
  | ok => exact hok
  | rootRejects | owned | fails => exact hexc _

theorem sound_observe {opfsApi : Bool} {post : Option CommitmentNamespace → Disk → Prop}
    (hs : Coherent s) (hnone : post none s)
    (hsome : opfsApi = true → post (some ⟨s.sentinel, s.storeDirectory.isSome⟩) s) :
    Sound Coherent (observeCommitmentNamespace opfsApi) post exc s := by
  cases opfsApi with
  | false => exact sound_pure hnone
  | true =>
    refine sound_effect hs fun answer => ?_
    cases answer with
    | ok => exact hsome rfl
    | rootRejects | owned | fails => exact hnone

/-! ### The settlement -/

/-- The stores and the record are as they were. -/
structure SameStores (s s' : Disk) : Prop where
  coherent : Coherent s'
  record : s'.record = s.record
  database : s'.idbDatabase = s.idbDatabase
  sentinel : s.sentinel = false → s'.sentinel = false

theorem SameStores.refl (hs : Coherent s) : SameStores s s := ⟨hs, rfl, rfl, id⟩

theorem sound_deleteOpfsSide (hs : Coherent s) (hrecord : s.record ≠ some .opfsCommitted) :
    Sound Coherent (deleteOpfsSide true)
      (fun reached s' => SameStores s s' ∧ s'.opfsDeletionPending = s.opfsDeletionPending ∧
        (reached = true → s'.sentinel = false ∧ s'.storeDirectory.join = none))
      (fun _ => Coherent) s := by
  have hcaught : ∀ error s', SameStores s s' → s'.opfsDeletionPending = s.opfsDeletionPending →
      Sound Coherent
        (if isOpfsRootUnavailableError error then pure false else Prog.throw error : Io Bool)
        (fun reached s' => SameStores s s' ∧ s'.opfsDeletionPending = s.opfsDeletionPending ∧
          (reached = true → s'.sentinel = false ∧ s'.storeDirectory.join = none))
        (fun _ => Coherent) s' := by
    intro error s' hsame hpending
    split
    · exact sound_pure ⟨hsame, hpending, fun hreached => nomatch hreached⟩
    · exact sound_throw hsame.coherent
  have hsentinel : SameStores s { s with sentinel := false } :=
    ⟨hs.withoutSentinel, rfl, rfl, fun _ => rfl⟩
  have hboth : SameStores s { s with sentinel := false, storeDirectory := none } :=
    ⟨hsentinel.coherent.withoutDirectory hrecord, rfl, rfl, fun _ => rfl⟩
  refine sound_tryCatch (sound_bind (sound_removes hs (fun error => ?_) ?_))
  · exact hcaught error s (SameStores.refl hs) rfl
  · refine sound_bind (sound_removes hsentinel.coherent (fun error => ?_) ?_)
    · exact hcaught error _ hsentinel rfl
    · exact sound_pure ⟨hboth, rfl, fun _ => ⟨rfl, rfl⟩⟩

structure Settled (s : Disk) (outcome : PendingOpfsDeletionOutcome) (s' : Disk) : Prop where
  same : SameStores s s'
  stands : s'.opfsDeletionPending = true ↔ outcome = .stillPending
  unmarked : s.opfsDeletionPending = false → outcome ≠ .stillPending

theorem sound_settlePendingOpfsDeletion (hs : Coherent s) (opfsApi : Bool) :
    Sound Coherent (settlePendingOpfsDeletion opfsApi) (Settled s) (fun _ => Coherent) s := by
  refine sound_bind (sound_reads hs (fun _ => hs) ?_)
  cases hpending : s.opfsDeletionPending with
  | false =>
    refine sound_pure ⟨SameStores.refl hs, ?_, fun _ h => nomatch h⟩
    simp [hpending]
  | true =>
    have hmarked : ∀ {outcome : PendingOpfsDeletionOutcome},
        s.opfsDeletionPending = false → outcome ≠ .stillPending :=
      fun hunmarked => nomatch hpending.symm.trans hunmarked
    refine sound_bind (sound_observe hs ?_ fun happi => ?_)
    · exact sound_pure ⟨SameStores.refl hs, iff_of_true hpending rfl, hmarked⟩
    subst happi
    have hrecord : s.record ≠ some .opfsCommitted := fun hcommitted =>
      nomatch hpending.symm.trans (hs.committed hcommitted).1
    refine sound_bind ((sound_deleteOpfsSide hs hrecord).weaken fun reached s' h => ?_)
    obtain ⟨hsame, hstands, hreached⟩ := h
    cases reached with
    | false => exact sound_pure ⟨hsame, iff_of_true (hstands.trans hpending) rfl, hmarked⟩
    | true =>
      refine sound_bind (sound_performs hsame.coherent (fun _ => hsame.coherent) ?_)
      have hcleared := hsame.coherent.settled fun _ => hreached rfl
      refine sound_pure ⟨⟨hcleared, hsame.record, hsame.database, hsame.sentinel⟩, ?_, hmarked⟩
      exact iff_of_false (fun h => nomatch h) fun h => nomatch h

theorem reaches_deleteOpfsSide {answers : List Answer} (hfirst : answers[0]? ≠ some .rootRejects)
    (hsecond : answers[1]? ≠ some .rootRejects) (s : Disk) :
    (deleteOpfsSide true answers s).Meets (fun _ => True) (fun reached _ => reached = true)
      (fun _ _ => True) := by
  obtain _ | ⟨first, _ | ⟨second, answers⟩⟩ := answers
  · exact trivial
  · cases first with
    | rootRejects => exact absurd rfl hfirst
    | ok | owned | fails => exact trivial
  · cases first with
    | rootRejects => exact absurd rfl hfirst
    | owned | fails => exact trivial
    | ok =>
      cases second with
      | rootRejects => exact absurd rfl hsecond
      | owned | fails => exact trivial
      | ok => exact rfl

/-- With OPFS within reach the settlement does not leave the marker. -/
theorem settles_of_opfsAnswers {answers : List Answer} (h : OpfsAnswers answers) (s : Disk) :
    (settlePendingOpfsDeletion true answers s).Meets (fun _ => True)
      (fun outcome _ => outcome ≠ .stillPending) (fun _ _ => True) := by
  obtain _ | ⟨marker, answers⟩ := answers
  · exact trivial
  cases marker with
  | rootRejects | owned | fails => exact trivial
  | ok =>
    refine Ending.Meets.bind_effect ?_
    change Ending.Meets _ _ _ ((if s.opfsDeletionPending = true then _ else _ : Io _) answers s)
    cases s.opfsDeletionPending with
    | false => exact fun hstill => nomatch hstill
    | true =>
      obtain _ | ⟨observed, answers⟩ := answers
      · exact trivial
      obtain rfl : observed = .ok := by simpa using h.1
      refine Ending.Meets.bind_effect ?_
      refine Ending.Meets.bind ((reaches_deleteOpfsSide h.2.1 h.2.2 s).mono ?_ fun _ _ h => h)
      rintro reached s' rfl
      refine sound_bind (sound_effect trivial fun answer => ?_)
      cases answer with
      | ok => exact sound_pure fun hstill => nomatch hstill
      | rootRejects | owned | fails => exact trivial

/-! ### The denied boot -/

/-- IndexedDB may be opened: nothing else has authority. -/
structure OnIdb (s : Disk) : Prop where
  coherent : Coherent s
  record : s.record = none ∨ s.record = some .idbAuthoritative

theorem sound_resolveDeniedBootAuthority (hs : Coherent s) (opfsApi : Bool) :
    Sound Coherent (resolveDeniedBootAuthority opfsApi) (fun _ => OnIdb) (fun _ => Coherent) s := by
  refine sound_bind ((sound_settlePendingOpfsDeletion hs opfsApi).weaken ?_)
  rintro outcome t ⟨⟨ht, -, -, -⟩, hstands, -⟩
  refine sound_bind (sound_reads ht (fun _ => ht) ?_)
  cases hrecord : t.record with
  | none => exact sound_pure ⟨ht, .inl hrecord⟩
  | some phase =>
    cases phase with
    | idbAuthoritative => exact sound_pure ⟨ht, .inr hrecord⟩
    | opfsCommitted => exact sound_throw ht
    | opfsCandidate =>
      have hne : t.record ≠ some .opfsCommitted := by simp [hrecord]
      refine sound_bind (sound_observe ht (sound_throw ht) fun happi => ?_)
      subst happi
      refine sound_bind (sound_removes ht (fun _ => ht) ?_)
      have ht := ht.withoutSentinel
      refine sound_bind (sound_removes ht (fun _ => ht) ?_)
      have ht := ht.withoutDirectory hne
      refine sound_bind (sound_performs ht (fun _ => ht) (sound_pure ⟨?_, .inr rfl⟩))
      exact ht.idbAuthoritative hne fun n hdb hmem =>
        nomatch hrecord.symm.trans (ht.database n hdb hmem)
    | deleting =>
      have hne : t.record ≠ some .opfsCommitted := by simp [hrecord]
      refine sound_bind (sound_observe ht ?_ fun happi => ?_)
      · -- the namespace cannot be observed: only a standing marker lets the boot go on
        by_cases hstill : outcome = .stillPending
        · subst hstill
          refine sound_bind (sound_performs ht (fun _ => ht) ?_)
          have ht := ht.withoutDatabase hrecord
          refine sound_bind (sound_performs ht (fun _ => ht) (sound_pure ⟨?_, .inl rfl⟩))
          refine ht.withoutRecord hne (fun hpending => ?_) fun n hdb => nomatch hdb
          exact nomatch hpending.symm.trans (hstands.2 rfl)
        · simp only [hstill, and_false, if_false]
          exact sound_throw ht
      · subst happi
        refine sound_bind (sound_performs ht (fun _ => ht) ?_)
        have ht := ht.withoutDatabase hrecord
        refine sound_bind (sound_removes ht (fun _ => ht) ?_)
        have ht := ht.withoutSentinel
        refine sound_bind (sound_removes ht (fun _ => ht) ?_)
        have ht := ht.withoutDirectory hne
        refine sound_bind (sound_performs ht (fun _ => ht) (sound_pure ⟨?_, .inr rfl⟩))
        exact ht.idbAuthoritative hne fun n hdb => nomatch hdb

/-! ### The boot with OPFS access -/

/-- The phase that a resolved boot leaves the record in. -/
def StoreBootResolution.phase (resolution : StoreBootResolution) : StoreMetaPhase :=
  match resolution.storageBackend with
  | .idbfs => .idbAuthoritative
  | .opfsRepacked =>
    if verdictNeedsCommitmentBarrier resolution then .opfsCandidate else .opfsCommitted

structure Resolved (resolution : StoreBootResolution) (s : Disk) : Prop where
  coherent : Coherent s
  record : s.record = some resolution.phase

/-- What the classification rests on: no marker stands, unless the boot goes to IndexedDB. -/
structure Classifiable (s : Disk) : Prop where
  coherent : Coherent s
  ready : s.opfsDeletionPending = false ∨ s.LandsOnIdb

theorem sound_finishVirginCreate (hs : Classifiable s) (hrecord : s.record = none)
    (hdb : s.idbDatabase = none) (hasOpfsSyncAccess : Bool) :
    Sound Coherent (finishVirginCreate hasOpfsSyncAccess .virginCreate) Resolved
      (fun _ => Coherent) s := by
  have hpending : s.opfsDeletionPending = false := by
    obtain hready | hidb | ⟨-, hsome, -⟩ := hs.ready
    · exact hready
    · exact nomatch hrecord.symm.trans hidb
    · rw [hdb] at hsome
      exact nomatch hsome
  have hs := hs.coherent
  cases hasOpfsSyncAccess with
  | true =>
    refine sound_bind (sound_bind (sound_performs hs (fun _ => hs) ?_))
    have hs := hs.opfsCandidate hrecord hpending hdb
    refine sound_performs hs (fun _ => hs) (sound_pure ⟨?_, rfl⟩)
    exact hs.withDirectory rfl
  | false =>
    refine sound_bind (sound_performs hs (fun _ => hs) (sound_pure ⟨?_, rfl⟩))
    exact hs.idbAuthoritative (by simp [hrecord]) fun n hmem => nomatch hdb.symm.trans hmem

/-- The candidate's directory goes, and the record with it. -/
theorem sound_retire (hs : Classifiable s) (hne : s.record ≠ some .opfsCommitted)
    (hidb : s.record ≠ some .idbAuthoritative) (hdeleting : s.record ≠ some .deleting)
    {rest : Io StoreBootResolution}
    (hrest : ∀ s', Classifiable s' → Sound Coherent rest Resolved (fun _ => Coherent) s') :
    Sound Coherent
      (do
        deleteSentinel true
        deleteStoreDirectory true
        deleteStoreMetaRecord
        rest)
      Resolved (fun _ => Coherent) s := by
  have ht := hs.coherent
  refine sound_bind (sound_removes ht (fun _ => ht) ?_)
  have ht := ht.withoutSentinel
  refine sound_bind (sound_removes ht (fun _ => ht) ?_)
  have ht := ht.withoutDirectory hne
  refine sound_bind (sound_performs ht (fun _ => ht) ?_)
  have ht := ht.withoutRecord hne (fun _ => ⟨rfl, rfl⟩) fun n hdb hmem =>
    hdeleting (ht.database n hdb hmem)
  refine hrest _ ⟨ht, ?_⟩
  obtain hready | hauthority | ⟨-, hsome, -⟩ := hs.ready
  · exact .inl hready
  · exact absurd hauthority hidb
  · exact .inr (.inr ⟨rfl, hsome, rfl⟩)

/-- The destruction that the boot inherited is finished, and nothing is left under the path. -/
theorem sound_resume (hs : Coherent s) (hrecord : s.record = some .deleting)
    (hpending : s.opfsDeletionPending = false) {setPhase : StoreMetaPhase → Io Unit}
    {rest : Io StoreBootResolution}
    (hrest : ∀ s', Classifiable s' → Sound Coherent rest Resolved (fun _ => Coherent) s') :
    Sound Coherent
      (do
        resumeDeletion {
          setPhase := setPhase
          deleteSentinel := deleteSentinel true
          deleteBackendStore := do
            deleteStoreDirectory true
            deleteIdbDatabase
          deleteMetaRecord := deleteStoreMetaRecord }
        rest)
      Resolved (fun _ => Coherent) s := by
  have hne : s.record ≠ some .opfsCommitted := by simp [hrecord]
  refine sound_bind (sound_bind (sound_removes hs (fun _ => hs) ?_))
  have hs := hs.withoutSentinel
  refine sound_bind (sound_bind (sound_removes hs (fun _ => hs) ?_))
  have hs := hs.withoutDirectory hne
  refine sound_performs hs (fun _ => hs) ?_
  have hs := hs.withoutDatabase hrecord
  refine sound_performs hs (fun _ => hs) (hrest _ ⟨?_, .inl hpending⟩)
  exact hs.withoutRecord hne (fun _ => ⟨rfl, rfl⟩) fun n hdb => nomatch hdb

theorem sound_classifyAndExecute (hasOpfsSyncAccess : Bool) (iterations : ℕ) :
    ∀ s, Classifiable s → Sound Coherent (classifyAndExecute hasOpfsSyncAccess iterations)
      Resolved (fun _ => Coherent) s := by
  induction iterations with
  | zero => exact fun s hs => sound_throw hs.coherent
  | succ iterations ih =>
    intro s hs
    have ht := hs.coherent
    refine sound_bind (sound_reads ht (fun _ => ht) ?_)
    cases hrecord : s.record with
    | none =>
      have hsentinel : s.sentinel = false := by
        obtain hready | hidb | ⟨-, -, hsentinel⟩ := hs.ready
        · exact (ht.recordless hrecord hready).1
        · exact nomatch hrecord.symm.trans hidb
        · exact hsentinel
      have hidb : Coherent { s with record := some .idbAuthoritative } :=
        ht.idbAuthoritative (by simp [hrecord]) fun n hdb hmem =>
          nomatch hrecord.symm.trans (ht.database n hdb hmem)
      refine sound_bind (sound_observe ht ?_ fun _ => ?_)
      · refine sound_bind (sound_reads ht (fun _ => ht) ?_)
        cases hdb : s.idbDatabase with
        | none => exact sound_finishVirginCreate hs hrecord hdb hasOpfsSyncAccess
        | some n => exact sound_bind (sound_performs ht (fun _ => ht) (sound_pure ⟨hidb, rfl⟩))
      · refine sound_bind (sound_reads ht (fun _ => ht) ?_)
        rw [hsentinel]
        cases hdir : s.storeDirectory with
        | some contents =>
          exact sound_retire hs (by simp [hrecord]) (by simp [hrecord]) (by simp [hrecord]) ih
        | none =>
          cases hdb : s.idbDatabase with
          | none => exact sound_finishVirginCreate hs hrecord hdb hasOpfsSyncAccess
          | some n => exact sound_bind (sound_performs ht (fun _ => ht) (sound_pure ⟨hidb, rfl⟩))
    | some phase =>
      cases phase with
      | opfsCommitted => exact sound_pure ⟨ht, hrecord⟩
      | idbAuthoritative =>
        refine sound_bind (sound_observe ht ?_ fun _ => ?_) <;>
          exact sound_bind (sound_reads ht (fun _ => ht) (sound_pure ⟨ht, hrecord⟩))
      | opfsCandidate =>
        have hretire := sound_retire hs (by simp [hrecord]) (by simp [hrecord])
          (by simp [hrecord]) ih
        refine sound_bind (sound_observe ht ?_ fun _ => ?_) <;>
          exact sound_bind (sound_reads ht (fun _ => ht) hretire)
      | deleting =>
        have hpending : s.opfsDeletionPending = false := by
          obtain hready | hidb | ⟨hnone, -⟩ := hs.ready
          · exact hready
          · exact nomatch hrecord.symm.trans hidb
          · exact nomatch hrecord.symm.trans hnone
        refine sound_bind (sound_observe ht ?_ fun _ => ?_) <;>
          exact sound_bind (sound_reads ht (fun _ => ht) (sound_resume ht hrecord hpending ih))

theorem meets_resolveStoreBoot (hs : Coherent s) {answers : List Answer}
    (hsettleable : s.opfsDeletionPending = true → s.LandsOnIdb ∨ OpfsAnswers answers)
    (hasOpfsSyncAccess : Bool) :
    (resolveStoreBoot hasOpfsSyncAccess answers s).Meets Coherent Resolved fun _ => Coherent := by
  have hclassify : ∀ {outcome : PendingOpfsDeletionOutcome} {s' : Disk}, Settled s outcome s' →
      (outcome ≠ .stillPending ∨ s.LandsOnIdb) →
      Sound Coherent (classifyAndExecute hasOpfsSyncAccess maxDeletionReclassify) Resolved
        (fun _ => Coherent) s' := by
    intro outcome s' hsettled hor
    refine sound_classifyAndExecute hasOpfsSyncAccess _ s' ⟨hsettled.same.coherent, ?_⟩
    obtain hne | hidb | ⟨hnone, hsome, hsentinel⟩ := hor
    · exact .inl (Bool.eq_false_iff.2 fun hpending => hne (hsettled.stands.1 hpending))
    · exact .inr (.inl (hsettled.same.record.trans hidb))
    · refine .inr (.inr ⟨hsettled.same.record.trans hnone, ?_, hsettled.same.sentinel hsentinel⟩)
      rw [hsettled.same.database]
      exact hsome
  have hsettle := sound_settlePendingOpfsDeletion hs true
  refine Ending.Meets.bind ?_
  cases hpending : s.opfsDeletionPending with
  | false =>
    refine (hsettle answers).mono (fun outcome s' hsettled => ?_) fun _ _ h => h
    exact hclassify hsettled (.inl (hsettled.unmarked hpending))
  | true =>
    obtain hidb | hanswers := hsettleable hpending
    · exact (hsettle answers).mono (fun outcome s' hsettled => hclassify hsettled (.inr hidb))
        fun _ _ h => h
    · refine ((hsettle answers).and (settles_of_opfsAnswers hanswers s)).mono ?_ fun _ _ h => h
      exact fun outcome s' h => hclassify h.1 (.inl h.2)

/-! ### The client's boot -/

theorem sound_openOpfs (hs : Coherent s)
    (hrecord : s.record = some .opfsCandidate ∨ s.record = some .opfsCommitted) :
    Sound Coherent openOpfs
      (fun store s' => Coherent s' ∧ s'.record = s.record ∧
        s'.storeDirectory = some (some store))
      (fun _ s' => s' = s) s := by
  refine sound_effect hs fun answer => ?_
  cases answer with
  | ok => exact ⟨hs.openedOpfs hrecord, rfl, rfl⟩
  | rootRejects | owned | fails => exact rfl

/-- The gate runs before every mint on IndexedDB. -/
theorem sound_createIdb (hs : Coherent s) (opfsApi : Bool) :
    Sound Coherent (createPgwasmClient opfsApi .idbfs)
      (fun store s' => OnIdb s' ∧ s'.idbDatabase = some store) (fun _ => Coherent) s := by
  refine sound_bind ((sound_resolveDeniedBootAuthority hs opfsApi).weaken fun _ t ht => ?_)
  refine sound_effect ht.coherent fun answer => ?_
  cases answer with
  | ok => exact ⟨⟨ht.coherent.openedIdb ht.record, ht.record⟩, rfl⟩
  | rootRejects | owned | fails => exact ht.coherent

/-- The store that was opened is the one its record stands for. -/
inductive Owned (s : Disk) : OwnedStore → Prop
  | candidate (store : ℕ) : s.record = some .opfsCandidate →
    s.storeDirectory = some (some store) → Owned s ⟨.opfsRepacked, store, true⟩
  | committed (store : ℕ) : s.record = some .opfsCommitted →
    s.storeDirectory = some (some store) → Owned s ⟨.opfsRepacked, store, false⟩
  | idb (store : ℕ) : (s.record = none ∨ s.record = some .idbAuthoritative) →
    s.idbDatabase = some store → Owned s ⟨.idbfs, store, false⟩

theorem sound_fallback (hs : Coherent s) (hrecord : s.record = some .opfsCandidate) :
    Sound Coherent fallbackVirginCandidateToIdb (fun _ => Coherent) (fun _ => Coherent) s := by
  have hne : s.record ≠ some .opfsCommitted := by simp [hrecord]
  refine sound_bind (sound_removes hs (fun _ => hs) ?_)
  have hs := hs.withoutSentinel
  refine sound_bind (sound_removes hs (fun _ => hs) ?_)
  have hs := hs.withoutDirectory hne
  refine sound_performs hs (fun _ => hs) ?_
  exact hs.idbAuthoritative hne fun n hdb hmem =>
    nomatch hrecord.symm.trans (hs.database n hdb hmem)

theorem sound_openIdb (hs : Coherent s) (opfsApi : Bool) :
    Sound Coherent
      (do
        let store ← createPgwasmClient opfsApi .idbfs
        pure ⟨.idbfs, store, false⟩)
      (fun owned s' => Coherent s' ∧ Owned s' owned) (fun _ => Coherent) s := by
  refine sound_bind ((sound_createIdb hs opfsApi).weaken ?_)
  rintro store t ⟨ht, hdb⟩
  exact sound_pure ⟨ht.coherent, .idb store ht.record hdb⟩

theorem meets_openOwnedStore (hs : Coherent s) {home : EngineHome} {answers : List Answer}
    (hsettleable : Settleable s (.boot home answers)) :
    (openOwnedStore home answers s).Meets Coherent
      (fun owned s' => Coherent s' ∧ Owned s' owned) fun _ => Coherent := by
  cases home with
  | denied opfsApi =>
    refine sound_bind ((sound_resolveDeniedBootAuthority hs opfsApi).weaken ?_) answers
    exact fun _ t ht => sound_openIdb ht.coherent opfsApi
  | granted =>
    refine Ending.Meets.bind ((meets_resolveStoreBoot hs hsettleable true).mono ?_ fun _ _ h => h)
    rintro ⟨backend, verdict⟩ t ⟨ht, hrecord⟩
    cases backend with
    | idbfs => exact sound_openIdb ht true
    | opfsRepacked =>
      cases hneeds : verdictNeedsCommitmentBarrier ⟨.opfsRepacked, verdict⟩ with
      | false =>
        have hcommitted : t.record = some .opfsCommitted := by
          simpa [StoreBootResolution.phase, hneeds] using hrecord
        refine sound_bind ((sound_openOpfs ht (.inr hcommitted)).mono ?_ ?_)
        · rintro store t' ⟨ht', hsame, hdir⟩
          exact sound_pure ⟨ht', .committed store (hsame.trans hcommitted) hdir⟩
        · rintro _ _ rfl
          exact ht
      | true =>
        have hcandidate : t.record = some .opfsCandidate := by
          simpa [StoreBootResolution.phase, hneeds] using hrecord
        refine sound_tryCatch (sound_bind ((sound_openOpfs ht (.inl hcandidate)).mono ?_ ?_))
        · rintro store t' ⟨ht', hsame, hdir⟩
          exact sound_pure ⟨ht', .candidate store (hsame.trans hcandidate) hdir⟩
        · rintro _ _ rfl
          refine sound_bind ((sound_fallback ht hcandidate).weaken fun _ t' ht' => ?_)
          exact sound_openIdb ht' true

theorem sound_expose {owned : OwnedStore} (hs : Coherent s) (howned : Owned s owned)
    (hpending : owned.commitmentBarrierPending = false) :
    Sound Coherent (expose owned.backend owned.store) (fun _ => Coherent) (fun _ => Coherent)
      s := by
  refine sound_effect hs fun _ => ?_
  cases howned with
  | candidate => exact nomatch hpending
  | committed store hrecord hdir => exact hs.exposedOpfs hrecord hdir
  | idb store hrecord hdb => exact hs.exposedIdb hrecord hdb

/-- What is handed out is committed, or recorded nowhere but in IndexedDB. -/
theorem meets_createSyncClient (hs : Coherent s) {home : EngineHome} {answers : List Answer}
    (hsettleable : Settleable s (.boot home answers)) :
    (createSyncClient home answers s).Meets Coherent (fun _ => Coherent) fun _ => Coherent := by
  refine Ending.Meets.bind ((meets_openOwnedStore hs hsettleable).mono ?_ fun _ _ h => h)
  rintro ⟨backend, store, commitmentBarrierPending⟩ t ⟨ht, howned⟩
  cases commitmentBarrierPending with
  | false => exact sound_expose ht howned rfl
  | true =>
    cases howned with
    | candidate _ hrecord hdir =>
      refine sound_bind (sound_bind (sound_performs ht (fun _ => ht) ?_))
      refine sound_bind (sound_performs ht (fun _ => ht) ?_)
      have ht := ht.withSentinel hrecord
      refine sound_performs ht (fun _ => ht) ?_
      have ht := ht.opfsCommitted hrecord hdir
      exact @sound_expose _ ⟨.opfsRepacked, store, false⟩ ht (.committed store rfl hdir) rfl

/-! ### The destruction -/

/-- What OPFS had is gone, or the marker stands for it. -/
def OpfsGone (s : Disk) : Prop :=
  s.opfsDeletionPending = true ∨ (s.sentinel = false ∧ s.storeDirectory.join = none)

/-- The destruction is past its sentinel step. -/
structure Destroying (opfsApi : Bool) (s : Disk) : Prop where
  coherent : Coherent s
  record : s.record = some .deleting
  sentinel : s.opfsDeletionPending = true ∨ s.sentinel = false
  api : opfsApi = false → OpfsGone s

theorem OpfsGone.sentinel (h : OpfsGone s) : s.opfsDeletionPending = true ∨ s.sentinel = false :=
  h.imp_right And.left

/-- A deletion in OPFS happens, or the marker is set in its place. -/
theorem sound_deleteOpfsOrRecordPending {f : Disk → Disk} {post : Unit → Disk → Prop}
    (hs : Coherent s) (hexc : ∀ error, exc error s) (hdone : post () (f s))
    (hmarked : post () { s with opfsDeletionPending := true }) :
    Sound Coherent (deleteOpfsOrRecordPending (removes f)) post exc s := by
  refine sound_tryCatch (sound_removes hs (fun error => ?_) hdone)
  split
  · exact sound_performs hs (fun _ => hexc _) hmarked
  · exact sound_throw (hexc error)

theorem sound_deleteSentinel (hs : Coherent s) (hrecord : s.record = some .deleting)
    {opfsApi : Bool} (hgone : opfsApi = false → OpfsGone s) :
    Sound Coherent (createStoreDestructionEffects opfsApi).deleteSentinel
      (fun _ => Destroying opfsApi) (fun _ => Coherent) s := by
  cases opfsApi with
  | false => exact fun _ => ⟨hs, hrecord, (hgone rfl).sentinel, hgone⟩
  | true =>
    refine sound_deleteOpfsOrRecordPending hs (fun _ => hs) ?_ ?_
    · exact ⟨hs.withoutSentinel, hrecord, .inr rfl, fun h => nomatch h⟩
    · exact ⟨hs.pending hrecord, hrecord, .inl rfl, fun h => nomatch h⟩

theorem sound_deleteBackendStore {opfsApi : Bool} (hs : Destroying opfsApi s) :
    Sound Coherent (createStoreDestructionEffects opfsApi).deleteBackendStore
      (fun _ s' => Destroying opfsApi s' ∧ OpfsGone s' ∧ s'.idbDatabase = none)
      (fun _ => Destroying opfsApi) s := by
  have hdatabase : ∀ {t : Disk}, Destroying opfsApi t → OpfsGone t →
      Sound Coherent deleteIdbDatabase
        (fun _ s' => Destroying opfsApi s' ∧ OpfsGone s' ∧ s'.idbDatabase = none)
        (fun _ => Destroying opfsApi) t := by
    intro t ht hgone
    refine sound_performs ht.coherent (fun _ => ht) ⟨?_, hgone, rfl⟩
    exact ⟨ht.coherent.withoutDatabase ht.record, ht.record, ht.sentinel, ht.api⟩
  have hne : s.record ≠ some .opfsCommitted := by simp [hs.record]
  refine sound_bind ?_
  cases opfsApi with
  | false => exact fun _ => hdatabase hs (hs.api rfl)
  | true =>
    refine sound_deleteOpfsOrRecordPending hs.coherent (fun _ => hs) ?_ ?_
    · have ht : Destroying true { s with storeDirectory := none } :=
        ⟨hs.coherent.withoutDirectory hne, hs.record, hs.sentinel, fun h => nomatch h⟩
      exact hdatabase ht (hs.sentinel.imp_right fun hsentinel => ⟨hsentinel, rfl⟩)
    · have ht : Destroying true { s with opfsDeletionPending := true } :=
        ⟨hs.coherent.pending hs.record, hs.record, .inl rfl, fun h => nomatch h⟩
      exact hdatabase ht (.inl rfl)

theorem sound_retryOwnership {opfsApi : Bool} (retries : ℕ) :
    ∀ s, Destroying opfsApi s →
      Sound Coherent
        (retryOwnership (createStoreDestructionEffects opfsApi).deleteBackendStore retries)
        (fun _ s' => Destroying opfsApi s' ∧ OpfsGone s' ∧ s'.idbDatabase = none)
        (fun _ => Coherent) s := by
  induction retries with
  | zero =>
    exact fun s hs => (sound_deleteBackendStore hs).mono (fun _ _ h => h) fun _ _ h => h.coherent
  | succ retries ih =>
    intro s hs
    refine sound_tryCatch ((sound_deleteBackendStore hs).mono (fun _ _ h => h) ?_)
    intro error s' hs'
    split
    · exact ih s' hs'
    · exact sound_throw hs'.coherent

theorem sound_runStoreDestruction (hs : Coherent s) {opfsApi : Bool}
    (hgone : opfsApi = false → OpfsGone s) :
    Sound Coherent (runStoreDestruction (createStoreDestructionEffects opfsApi))
      (fun _ => Coherent) (fun _ => Coherent) s := by
  refine sound_bind (sound_performs hs (fun _ => hs) ?_)
  have hs := hs.authorized
  refine sound_bind ((sound_deleteSentinel hs rfl hgone).weaken fun _ t ht => ?_)
  refine sound_bind ((sound_retryOwnership maxOwnershipRetries t ht).weaken ?_)
  rintro _ t ⟨ht, hopfs, hdb⟩
  refine sound_performs ht.coherent (fun _ => ht.coherent) ?_
  refine ht.coherent.withoutRecord (by simp [ht.record]) (fun hpending => ?_) fun n hmem =>
    nomatch hdb.symm.trans hmem
  obtain hmarked | hgone := hopfs
  · exact nomatch hpending.symm.trans hmarked
  · exact hgone

/-! ### All boots -/

/-- Whatever the environment answers to a step, and wherever it cuts it off. -/
theorem Coherent.step {s' : Disk} {event : StoreEvent} (hs : Coherent s)
    (hsettleable : Settleable s event) (hstep : s.step event = some s') : Coherent s' := by
  cases event with
  | boot home answers =>
    obtain rfl := Option.some.inj hstep
    exact (meets_createSyncClient hs hsettleable).state
  | destroy opfsApi answers =>
    obtain rfl := Option.some.inj hstep
    exact (sound_runStoreDestruction hs hsettleable).state answers

/-- Along every run whose boots settle the markers they find, the exposed store keeps its data,
nothing else is opened in its place, and no destroyed store is opened or adopted. -/
theorem authority_of_settleable {events : List StoreEvent} {s : Disk}
    (hmeets : Runs.Meets Disk.step Settleable Disk.virgin events)
    (hrun : Runs.run Disk.step Disk.virgin events = some s) : Authority s := by
  have hstep : ∀ s event s', Coherent s → Settleable s event → s.step event = some s' →
      Coherent s' := fun s event s' hs hsettleable => hs.step hsettleable
  exact (Runs.invariant hstep Coherent.virgin hmeets hrun).authority

/-- A context whose every effect succeeds. -/
def oks : List Answer := List.replicate 20 .ok

/-- A boot, a destruction where the root rejects, the boot that settles the marker, and another. -/
def destroyedElsewhere : List StoreEvent :=
  [.boot .granted oks, .destroy true (.ok :: .rootRejects :: .ok :: .rootRejects :: oks),
    .boot .granted oks, .boot .granted oks]

theorem authority_of_settleable_destroyed :
    ∃ s, Runs.run Disk.step Disk.virgin destroyedElsewhere = some s ∧
      s.exposed = some (.opfsRepacked, 1) ∧ s.destroyed = [0] ∧ Authority s := by
  have hrun : Runs.run Disk.step Disk.virgin destroyedElsewhere = some _ := rfl
  refine ⟨_, hrun, rfl, rfl, authority_of_settleable ?_ hrun⟩
  refine Runs.meets_cons (fun h => nomatch h) rfl ?_
  refine Runs.meets_cons (fun h => nomatch h) rfl ?_
  refine Runs.meets_cons (fun _ => .inr ⟨.inr rfl, by decide, by decide⟩) rfl ?_
  exact Runs.meets_cons (fun h => nomatch h) rfl trivial

/-- The settlement's observation fails once.  The boot then sees the sentinel of the destroyed store
and reopens it; or it sees nothing, mints under the marker, and the next boot deletes what it
exposed. -/
theorem unsettled_marker_resurrects_and_wipes :
    (∃ s, Runs.run Disk.step Disk.virgin
      [.boot .granted oks, .destroy true (.ok :: .rootRejects :: .ok :: .rootRejects :: oks),
        .boot .granted (.ok :: .fails :: oks)] = some s ∧ ∃ o ∈ s.openings, o.store ∈ o.destroyed) ∧
    ∃ s, Runs.run Disk.step Disk.virgin
      [.destroy true (.ok :: .rootRejects :: .ok :: .rootRejects :: oks),
        .boot .granted (.ok :: .fails :: oks), .boot .granted (List.replicate 4 .ok)] = some s ∧
      s.exposed = some (.opfsRepacked, 0) ∧ s.contents .opfsRepacked = none := by
  refine ⟨⟨_, rfl, ?_⟩, ⟨_, rfl, rfl, rfl⟩⟩
  exact ⟨_, List.mem_cons_self, by decide⟩

end Stores
