/-
Runs over one base of the metadata log: sessions that commit, sync and are cut off, and stores opened again.

`log_recovers`: whatever is committed and wherever the writes stop, a terminated session can be opened again, at a
state that it had since its last sync, or that its failed commit was about to leave.
`live_replays`: as long as a store has not failed, its file replays to the live state, but for the record held back.
`commit_keeps`: a commit changes the live state all or nothing, and only the file can make it fail once it is admitted.
-/
import Pgxsinkit.Opfs.LogCommit
import Pgxsinkit.Opfs.MetadataRun

namespace Opfs

open Bytes Checked DurableFile DurableLog FramedLog

def StoreResult.store : StoreResult → LogStore
  | .ok _ store => store
  | .error _ store => store

/-- The state that a commit has begun to log: the one it leaves, or the one whose frame could not be written whole. -/
def begun (store : LogStore) (record : TxnRecord) : StoreResult → List VfsState
  | .ok _ store' => [store'.state]
  | .error _ store' =>
    if store.failed = false ∧ store'.failed = true ∧ store'.pendingResizeCommit = none then
      (acceptTxn store.state record).toList
    else []

/-- A session with the states that its file may come to hold, or the file that is left of one. -/
inductive World
  | running (store : LogStore) (seen : List VfsState)
  | ended (image : List UInt8) (seen : List VfsState)

/-- A session is terminated with any of the images that a crash can leave, so also one from within an operation. -/
inductive Step (base : ActiveBase) : World → World → Prop
  | commit {store : LogStore} {seen : List VfsState} {call : PlannerCall} {record : TxnRecord}
      (pendingStops frameStops : Option Nat) : call.plan store.state = .ok record →
      (∀ name ∈ recordNames record, NoMark name) →
      Step base (.running store seen)
        (.running (StoreResult.store (store.commit record pendingStops frameStops))
          (begun store record (store.commit record pendingStops frameStops) ++ seen))
  | materialize {store : LogStore} {seen : List VfsState} (stops : Option Nat) : store.failed = false →
      Step base (.running store seen) (.running (StoreResult.store (store.materializePendingResize stops)) seen)
  | synced {store store' : LogStore} {seen : List VfsState} {arenaThrows metadataThrows : Bool} {pendingStops : Option Nat} :
      store.strictSync arenaThrows pendingStops metadataThrows = .ok () store' →
      Step base (.running store seen) (.running store' [store'.state])
  | syncFailed {store store' : LogStore} {seen : List VfsState} {arenaThrows metadataThrows : Bool}
      {pendingStops : Option Nat} {e : StoreError} :
      store.strictSync arenaThrows pendingStops metadataThrows = .error e store' →
      Step base (.running store seen) (.running store' seen)
  | terminate {store : LogStore} {seen : List VfsState} {image : List UInt8} : store.file.Survives 0 image →
      Step base (.running store seen) (.ended image seen)
  | reopen {store : LogStore} {seen : List VfsState} {image : List UInt8} : recoverLog base image = .ok store →
      Step base (.ended image seen) (.running store [store.state])

variable {base : ActiveBase} {seen : List VfsState} {store store' : LogStore} {image : List UInt8}

/-! ### Opening -/

/-- The image holds a log that leads to a known state. -/
def Recoverable (base : ActiveBase) (seen : List VfsState) (image : List UInt8) : Prop := ∃ kept mid garbage,
  image = base.bytes ++ (logFrames base kept ++ garbage) ∧
  Longest (logFormat base.state.generation) acceptTxn logStart base.state (logFrames base kept ++ garbage) kept mid garbage ∧
  Known seen mid ∧ image.length ≤ maxSafeInteger

/-- What is opened is what can be recovered. -/
theorem recoverable_of_recoverLog (hbase : base.bytes <+: image) (hlength : image.length ≤ maxSafeInteger)
    (hopen : recoverLog base image = .ok store) : Recoverable base [store.state] image := by
  obtain ⟨log, rfl⟩ := hbase
  have hbase : base.bytes.length ≤ (base.bytes ++ log).length := by
    rw [List.length_append]
    exact Nat.le_add_right _ _
  obtain ⟨kept, mid, garbage, hlongest⟩ := exists_longest base.wellFormed.toBalanced hlength base.bytes.length
  obtain ⟨hmid, hreplay⟩ := replayLog_of_longest base.wellFormed.toBalanced hlength hbase hlongest
  rw [List.drop_left] at hlongest
  have hbytes := hlongest.reads.1.bytes_eq
  rw [recoverLog, hreplay] at hopen
  cases hvalid : validateState mid with
  | error e =>
    rw [hvalid] at hopen
    cases hopen
  | ok u =>
    rw [hvalid] at hopen
    obtain rfl := Except.ok.inj hopen
    refine ⟨kept, mid, garbage, by rw [hbytes]; rfl, ?_, ⟨validateState_eq_ok_iff.mp hvalid, List.mem_cons_self⟩, hlength⟩
    rw [hbytes] at hlongest
    exact hlongest

theorem reads_generation {generation : Nat} {place : Place} {state final : VfsState} {bytes rest : List UInt8}
    {records : List TxnRecord} (h : Balanced state)
    (hread : Reads (logFormat generation) acceptTxn place state bytes records final rest) :
    final.generation = state.generation := by
  induction hread with
  | nil place state rest => rfl
  | cons hfits haccept _ ih =>
    obtain ⟨hnext, hgeneration⟩ := h.accepts haccept
    exact (ih hnext).trans hgeneration

/-- The file that a store is opened over. -/
theorem discardSuffix_spec {kept : List TxnRecord} {mid : VfsState} {garbage : List UInt8}
    (hlongest : Longest (logFormat base.state.generation) acceptTxn logStart base.state (logFrames base kept ++ garbage)
      kept mid garbage) (hknown : Known seen mid) :
    ∃ file, discardSuffix (base.bytes ++ (logFrames base kept ++ garbage)) (base.bytes.length + (logFrames base kept).length) =
        file ∧ Session (logFormat base.state.generation) acceptTxn 0 base.bytes logStart base.state file (Known seen)
          kept mid garbage [] mid ∧ file.content 0 = base.bytes ++ logFrames base kept ∧
      (¬ base.bytes.length + (logFrames base kept).length < (base.bytes ++ (logFrames base kept ++ garbage)).length →
        file.effects = []) := by
  have hopened := Session.opened 0 base.bytes hlongest hknown
  refine ⟨_, rfl, ?_⟩
  unfold discardSuffix
  by_cases hdirty : base.bytes.length + (logFrames base kept).length <
      (base.bytes ++ (logFrames base kept ++ garbage)).length
  · rw [if_pos hdirty]
    refine ⟨hopened.discard, ?_, fun hclean => absurd hdirty hclean⟩
    rw [content_add]
    show truncateTo _ (base.bytes ++ (logFrames base kept ++ garbage)) _ = _
    rw [truncateTo_of_le hdirty.le, ← List.append_assoc, ← List.length_append]
    exact List.take_left
  · -- nothing stands behind the log
    have hgarbage : garbage = [] := by
      simp only [List.length_append] at hdirty
      exact List.length_eq_zero_iff.mp (by omega)
    rw [if_neg hdirty]
    refine ⟨hopened, ?_, fun _ => rfl⟩
    rw [hgarbage, List.append_nil]
    rfl

/-- The store is opened, and its file holds the log again. -/
theorem Recoverable.recoverLog (h : Recoverable base seen image) : ∃ store, recoverLog base image = .ok store ∧
    store.state ∈ seen ∧ store.failed = false ∧ Logged base [store.state] store := by
  obtain ⟨kept, mid, garbage, rfl, hlongest, ⟨hwf, hmem⟩, hlength⟩ := h
  have hdrop : Longest (logFormat base.state.generation) acceptTxn logStart base.state
      ((base.bytes ++ (logFrames base kept ++ garbage)).drop base.bytes.length) kept mid garbage := by
    rw [List.drop_left]
    exact hlongest
  obtain ⟨-, hreplay⟩ := replayLog_of_longest base.wellFormed.toBalanced hlength
    (by rw [List.length_append]; exact Nat.le_add_right _ _) hdrop
  rw [validateState_eq_ok_iff.mpr hwf, ok_bind] at hreplay
  have hknown : Known [mid] mid := ⟨hwf, List.mem_cons_self⟩
  obtain ⟨file, hfile, hsession, hcontent, hclean⟩ := discardSuffix_spec hlongest hknown
  have hgeneration := reads_generation base.wellFormed.toBalanced hlongest.reads.1
  unfold Opfs.recoverLog
  rw [hreplay, ok_bind]
  refine ⟨_, rfl, hmem, rfl, kept, mid, garbage, [], mid, ⟨?_, ?_⟩, ?_⟩
  · show Session _ _ _ _ _ _ (discardSuffix _ (base.bytes.length + (logFrames base kept).length)) _ _ _ _ _ _
    rw [hfile]
    exact hsession
  · rw [← List.length_append]
    exact hlength
  · rw [List.append_nil]
    refine Live.of_settled rfl ?_ rfl ?_ ?_ rfl hgeneration hknown ?_
    · show (discardSuffix _ (base.bytes.length + (logFrames base kept).length)).content 0 = _
      rw [hfile]
      exact hcontent
    · exact Nat.add_sub_cancel_left _ _
    · exact Nat.add_sub_cancel_left _ _
    · intro hdirty
      show (discardSuffix _ (base.bytes.length + (logFrames base kept).length)).effects = []
      rw [hfile]
      exact hclean (of_decide_eq_false hdirty)

/-! ### One step -/

/-- The invariant of the runs. -/
def LogInv (base : ActiveBase) : World → Prop
  | .running store seen => Tracked base seen store.file ∧ (store.failed = false → Logged base seen store)
  | .ended image seen => Recoverable base seen image

theorem Tracked.recoverable (h : Tracked base seen store.file) (hsurvives : store.file.Survives 0 image) :
    Recoverable base seen image := by
  obtain ⟨kept, mid, garbage, added, final, hsession, hlength⟩ := h
  obtain ⟨kept', mid', garbage', rfl, hlongest, hknown, hle⟩ :=
    hsession.reopen (fun _ _ => frameImage_ne_nil _) hsurvives
  refine ⟨kept', mid', garbage', rfl, hlongest, hknown, ?_⟩
  -- what was appended is within the cap of the log
  have hcap := (reads_offset_le hsession.whole ⟨Nat.zero_le _, Nat.le_add_left _ _⟩).1
  rw [offset_logPlace] at hcap
  have hbase := base.length_le
  have hsafe : metadataHeaderBytes + maxMetadataBaseReaderBytes + maxActiveLogBytes ≤ maxSafeInteger := by decide
  rw [List.length_append]
  change _ ≤ max (logFrames base kept ++ garbage).length (logFrames base (kept ++ added)).length at hle
  omega

/-- Once the file is flushed, the live state is the only one that a crash can leave. -/
theorem Logged.flush (h : Logged base seen store) (hnone : store.pendingResizeCommit = none) :
    Logged base [store.state] { store with file := store.file.flush 0, metadataDirtySinceFlush := false } := by
  obtain ⟨kept, mid, garbage, added, final, ⟨hsession, hlength⟩, hlive⟩ := h
  obtain rfl := hlive.state_eq hnone
  obtain ⟨hbytes, hcount, hnext⟩ := hlive.settled hnone
  have hknown : Known [store.state] store.state := ⟨hlive.known.1, List.mem_cons_self⟩
  have hflush := hsession.flush hlive.content hknown (fun _ _ => frameImage_ne_nil _)
  have hcap := (reads_offset_le hsession.whole ⟨Nat.zero_le _, Nat.le_add_left _ _⟩).1
  rw [offset_logPlace] at hcap
  have hbase := base.length_le
  have hsafe : metadataHeaderBytes + maxMetadataBaseReaderBytes + maxActiveLogBytes ≤ maxSafeInteger := by decide
  refine ⟨kept ++ added, store.state, [], [], store.state, ⟨hflush, ?_⟩, ?_⟩
  · rw [List.append_nil]
    omega
  · rw [List.append_nil]
    exact Live.of_settled hnone hlive.content hlive.logEnd hbytes hcount hnext hlive.generation hknown fun _ => rfl

/-- A sync that returns has flushed the log and nothing is held back. -/
theorem strictSync_spec (h : Logged base seen store) (hhealthy : store.failed = false) (arenaThrows : Bool)
    (pendingStops : Option Nat) (metadataThrows : Bool) :
    (∃ store', store.strictSync arenaThrows pendingStops metadataThrows = .ok () store' ∧ store'.state = store.state ∧
      Logged base [store'.state] store') ∨
    (∃ e store', store.strictSync arenaThrows pendingStops metadataThrows = .error e store' ∧ store'.failed = true ∧
      Tracked base seen store'.file) := by
  unfold LogStore.strictSync LogStore.assertOpen
  rw [throwIf, if_neg (by rw [hhealthy]; exact Bool.false_ne_true)]
  dsimp only
  by_cases harena : arenaThrows = true
  · rw [if_pos harena]
    exact .inr ⟨_, _, rfl, rfl, h.tracked⟩
  rw [if_neg harena]
  rcases materializePendingResize_spec h pendingStops with
    ⟨settled, hsettle, hlogged, hsettles⟩ | ⟨-, e, store', hstop, hfailed, -, -, htracked⟩
  · rw [hsettle]
    dsimp only [andThen]
    have hflush := hlogged.flush hsettles.none
    by_cases hdirty : settled.metadataDirtySinceFlush = true
    · rw [if_pos hdirty]
      by_cases hthrows : metadataThrows = true
      · rw [if_pos hthrows]
        exact .inr ⟨_, _, rfl, rfl, hlogged.tracked⟩
      · rw [if_neg hthrows]
        exact .inl ⟨_, rfl, hsettles.state, hflush⟩
    · -- nothing was written since the last flush, so another would change nothing
      rw [if_neg hdirty]
      obtain ⟨kept, mid, garbage, added, final, -, hlive⟩ := hlogged
      have hclean := eq_false_of_ne_true hdirty
      rw [flush_eq (hlive.clean hclean), ← hclean] at hflush
      exact .inl ⟨settled, rfl, hsettles.state, hflush⟩
  · rw [hstop]
    exact .inr ⟨e, store', rfl, hfailed, htracked⟩

theorem strictSync_refused (hfailed : store.failed = true) (arenaThrows : Bool) (pendingStops : Option Nat)
    (metadataThrows : Bool) : store.strictSync arenaThrows pendingStops metadataThrows = .error .storeFailed store := by
  unfold LogStore.strictSync LogStore.assertOpen
  rw [throwIf, if_pos hfailed]

theorem commit_refused (hfailed : store.failed = true) (record : TxnRecord) (pendingStops frameStops : Option Nat) :
    store.commit record pendingStops frameStops = .error .storeFailed store := by
  unfold LogStore.commit LogStore.preflightCommit LogStore.assertOpen
  rw [throwIf, if_pos hfailed]
  rfl

theorem LogInv.commit (h : LogInv base (.running store seen)) {call : PlannerCall} {record : TxnRecord}
    (hplan : call.plan store.state = .ok record) (hmark : ∀ name ∈ recordNames record, NoMark name)
    (pendingStops frameStops : Option Nat) :
    LogInv base (.running (StoreResult.store (store.commit record pendingStops frameStops))
      (begun store record (store.commit record pendingStops frameStops) ++ seen)) := by
  obtain ⟨htracked, hlogged⟩ := h
  by_cases hfailed : store.failed = true
  · rw [commit_refused hfailed, begun, if_neg (fun hbegun => by rw [hfailed] at hbegun; exact absurd hbegun.1 (by decide))]
    exact ⟨htracked, hlogged⟩
  have hstore := hlogged (eq_false_of_ne_true hfailed)
  have hwf : WellFormed store.state := by
    obtain ⟨kept, mid, garbage, added, final, -, hlive⟩ := hstore
    exact hlive.known.1
  have hspec := commit_spec hstore (PlannerCall.planned hwf hplan) hmark pendingStops frameStops
  generalize store.commit record pendingStops frameStops = result at hspec ⊢
  cases hspec with
  | refused hpreflight =>
    rw [begun, if_neg (fun hbegun => hfailed hbegun.2.1)]
    exact ⟨htracked, hlogged⟩
  | done haccept hlogged' hkept => exact ⟨hlogged'.tracked, fun _ => hlogged'⟩
  | pendingStopped hstops hfailed' hstate hpending htracked' =>
    rw [begun, if_neg (fun hbegun => hpending hbegun.2.2)]
    exact ⟨htracked', fun hhealthy => absurd (hfailed'.symm.trans hhealthy) (by decide)⟩
  | frameStopped hstops hhealthy hfailed' hstate hpending haccept htracked' =>
    rw [begun, if_pos ⟨hhealthy, hfailed', hpending⟩, haccept]
    exact ⟨htracked', fun hhealthy => absurd (hfailed'.symm.trans hhealthy) (by decide)⟩

theorem LogInv.step {world world' : World} (h : LogInv base world) (hstep : Step base world world') : LogInv base world' := by
  cases hstep with
  | commit pendingStops frameStops hplan hmark => exact h.commit hplan hmark pendingStops frameStops
  | materialize stops hhealthy =>
    rcases materializePendingResize_spec (h.2 hhealthy) stops with
      ⟨settled, hsettle, hlogged, -⟩ | ⟨-, e, store', hstop, hfailed, -, -, htracked⟩
    · rw [hsettle]
      exact ⟨hlogged.tracked, fun _ => hlogged⟩
    · rw [hstop]
      exact ⟨htracked, fun hhealthy => absurd (hfailed.symm.trans hhealthy) (by decide)⟩
  | @synced store store' seen arenaThrows metadataThrows pendingStops hsync =>
    by_cases hfailed : store.failed = true
    · rw [strictSync_refused hfailed] at hsync
      cases hsync
    · have hhealthy := eq_false_of_ne_true hfailed
      rcases strictSync_spec (h.2 hhealthy) hhealthy arenaThrows pendingStops metadataThrows with
        ⟨store'', hsync', -, hlogged⟩ | ⟨e, store'', hsync', -, -⟩
      · rw [hsync'] at hsync
        cases hsync
        exact ⟨hlogged.tracked, fun _ => hlogged⟩
      · rw [hsync'] at hsync
        cases hsync
  | @syncFailed store store' seen arenaThrows metadataThrows pendingStops e hsync =>
    by_cases hfailed : store.failed = true
    · rw [strictSync_refused hfailed] at hsync
      cases hsync
      exact h
    · have hhealthy := eq_false_of_ne_true hfailed
      rcases strictSync_spec (h.2 hhealthy) hhealthy arenaThrows pendingStops metadataThrows with
        ⟨store'', hsync', -, -⟩ | ⟨e', store'', hsync', hfailed', htracked⟩
      · rw [hsync'] at hsync
        cases hsync
      · rw [hsync'] at hsync
        cases hsync
        exact ⟨htracked, fun hhealthy => absurd (hfailed'.symm.trans hhealthy) (by decide)⟩
  | terminate hsurvives => exact h.1.recoverable hsurvives
  | reopen hopen =>
    obtain ⟨store', hopen', -, -, hlogged⟩ := Recoverable.recoverLog h
    obtain rfl := Except.ok.inj (hopen.symm.trans hopen')
    exact ⟨hlogged.tracked, fun _ => hlogged⟩

/-! ### Runs -/

theorem LogInv.run {world world' : World} (h : LogInv base world) (hrun : Relation.ReflTransGen (Step base) world world') :
    LogInv base world' := by
  induction hrun with
  | refl => exact h
  | tail _ hstep ih => exact ih.step hstep

/-- The base of an empty store, and the store that is opened over it. -/
def emptyBase : ActiveBase where
  bytes := []
  state := initialState 65536
  valid := validateState_eq_ok_iff.mpr (initialState_wellFormed (by decide))
  length_le := Nat.zero_le _

def emptyStore : LogStore := ⟨initialState 65536, 0, 1, 0, 0, none, false, false, ⟨[], []⟩⟩

theorem recoverLog_empty : recoverLog emptyBase [] = .ok emptyStore := rfl

/-- `mkdir("/a")`. -/
def mkdirA : TxnRecord := .createDirectories [⟨1, [97], 2, 0o40777, 5, 5, 5⟩]

theorem plan_mkdirA : (PlannerCall.mkdir [slash, 97] ⟨false, none, 5⟩).plan emptyStore.state = .ok mkdirA := rfl

theorem run_mkdirA (frameStops : Option Nat) : Relation.ReflTransGen (Step emptyBase) (.ended [] [emptyStore.state])
    (.running (StoreResult.store (emptyStore.commit mkdirA none frameStops))
      (begun emptyStore mkdirA (emptyStore.commit mkdirA none frameStops) ++ [emptyStore.state])) :=
  .tail (.single (.reopen recoverLog_empty)) (.commit none frameStops plan_mkdirA (by decide))

/-- In every run from a file that can be opened, whatever is committed, wherever a write stops or a flush throws and
whatever a crash leaves of the file, it can be opened again, at a state that the session had since it was opened or
last synced, or that the commit it failed in was about to leave. -/
theorem log_recovers (base : ActiveBase) {image left : List UInt8} {store : LogStore} {seen : List VfsState}
    (hbase : base.bytes <+: image) (hlength : image.length ≤ maxSafeInteger) (hopen : recoverLog base image = .ok store)
    (hrun : Relation.ReflTransGen (Step base) (.ended image [store.state]) (.ended left seen)) :
    ∃ store', recoverLog base left = .ok store' ∧ store'.state ∈ seen := by
  have hinv : LogInv base (.ended image [store.state]) := recoverable_of_recoverLog hbase hlength hopen
  obtain ⟨store', hopen', hmem, -, -⟩ := Recoverable.recoverLog (hinv.run hrun)
  exact ⟨store', hopen', hmem⟩

/-- The frame of the directory is torn after one byte. -/
theorem log_recovers_mkdir :
    ∃ store', recoverLog emptyBase ((StoreResult.store (emptyStore.commit mkdirA none (some 1))).file.content 0) = .ok store' ∧
      store'.state ∈ begun emptyStore mkdirA (emptyStore.commit mkdirA none (some 1)) ++ [emptyStore.state] :=
  log_recovers emptyBase List.nil_prefix (Nat.zero_le _) recoverLog_empty
    (.tail (run_mkdirA (some 1)) (.terminate (survives_content _)))

/-- In every run, a commit of a planned record is refused before it changes anything, or does what the record says
to the live state, or fails the store because a write has stopped, with the live state as it was: what the preflight
admitted is never refused later. -/
theorem commit_keeps (base : ActiveBase) {image : List UInt8} {opened store : LogStore} {seen : List VfsState}
    (hbase : base.bytes <+: image) (hlength : image.length ≤ maxSafeInteger) (hopen : recoverLog base image = .ok opened)
    (hrun : Relation.ReflTransGen (Step base) (.ended image [opened.state]) (.running store seen)) {call : PlannerCall}
    {record : TxnRecord} (hplan : call.plan store.state = .ok record) (hmark : ∀ name ∈ recordNames record, NoMark name)
    (pendingStops frameStops : Option Nat) :
    (∃ e, store.preflightCommit record = .error e ∧ store.commit record pendingStops frameStops = .error e store) ∨
    (∃ store', store.commit record pendingStops frameStops = .ok () store' ∧ store'.failed = false ∧
      applyTxn store.state record none = .ok () store'.state) ∨
    ((pendingStops ≠ none ∨ frameStops ≠ none) ∧ ∃ e store', store.commit record pendingStops frameStops = .error e store' ∧
      store'.failed = true ∧ store'.state = store.state) := by
  have hinv : LogInv base (.ended image [opened.state]) := recoverable_of_recoverLog hbase hlength hopen
  by_cases hfailed : store.failed = true
  · refine .inl ⟨.storeFailed, ?_, commit_refused hfailed _ _ _⟩
    rw [LogStore.preflightCommit, LogStore.assertOpen, throwIf, if_pos hfailed]
    rfl
  have hhealthy := eq_false_of_ne_true hfailed
  have hlogged := (hinv.run hrun).2 hhealthy
  have hwf : WellFormed store.state := by
    obtain ⟨kept, mid, garbage, added, final, -, hlive⟩ := hlogged
    exact hlive.known.1
  have hspec := commit_spec hlogged (PlannerCall.planned hwf hplan) hmark pendingStops frameStops
  generalize store.commit record pendingStops frameStops = result at hspec ⊢
  cases hspec with
  | refused hpreflight => exact .inl ⟨_, hpreflight, rfl⟩
  | done haccept _ hkept => exact .inr (.inl ⟨_, rfl, hkept.trans hhealthy, acceptTxn_eq_some.mp haccept⟩)
  | pendingStopped hstops hfailed' hstate _ _ => exact .inr (.inr ⟨.inl hstops, _, _, rfl, hfailed', hstate⟩)
  | frameStopped hstops _ hfailed' hstate _ _ _ => exact .inr (.inr ⟨.inr hstops, _, _, rfl, hfailed', hstate⟩)

theorem commit_keeps_mkdir : ∃ store', emptyStore.commit mkdirA none none = .ok () store' ∧ store'.failed = false ∧
    applyTxn emptyStore.state mkdirA none = .ok () store'.state := by
  rcases commit_keeps emptyBase List.nil_prefix (Nat.zero_le _) recoverLog_empty (.single (.reopen recoverLog_empty))
    plan_mkdirA (by decide) none none with ⟨e, hrefused, -⟩ | hdone | ⟨hstops, -⟩
  · have hadmitted : (emptyStore.preflightCommit mkdirA).toOption.isSome = true := by decide +kernel
    rw [hrefused] at hadmitted
    cases hadmitted
  · exact hdone
  · exact absurd hstops (by decide)

end Opfs
