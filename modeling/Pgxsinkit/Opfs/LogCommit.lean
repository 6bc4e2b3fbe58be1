/-
What a commit does to the log.

A commit that the limits admit either leaves the store logged, with the record in the log or held back, or a
write has stopped and the store has failed; then a crash leaves a state from before it, or the one it was going to.
The branches of `#commit` that find the preflight out of date are never taken.
-/
import Pgxsinkit.Opfs.LogSession
import Pgxsinkit.Opfs.Planned

namespace Opfs

open Bytes Checked DurableFile DurableLog FramedLog

variable {base : ActiveBase} {seen : List VfsState} {store store' : LogStore} {record : TxnRecord} {resize : ResizeFileRecord}
  {prepared : LogStore.PreparedCommit}

/-! ### The record held back -/

/-- Nothing is held back any more, and the log alone leads to the live state. -/
structure Settles (store store' : LogStore) : Prop where
  state : store'.state = store.state
  none : store'.pendingResizeCommit = none
  next : store'.nextSequence = store.nextSequence
  bytes : store'.activeLogBytes = store.activeLogBytes
  count : store'.activeLogFrames = store.activeLogFrames
  failed : store'.failed = store.failed

theorem heldBack_none (h : store.pendingResizeCommit = none) : store.heldBack = [] := by
  rw [LogStore.heldBack, h]
  rfl

theorem heldBack_some {pending : PendingResizeCommit} (h : store.pendingResizeCommit = some pending) :
    store.heldBack = [.resizeFile pending.record] := by
  rw [LogStore.heldBack, h]
  rfl

/-- When nothing is held back, the log leads to the live state. -/
theorem Live.state_eq {records : List TxnRecord} {final : VfsState} (h : Live base seen store records final)
    (hnone : store.pendingResizeCommit = none) : final = store.state := by
  have hfold := h.held.foldlM
  rw [heldBack_none hnone] at hfold
  exact Option.some.inj hfold

theorem Live.of_settled {records : List TxnRecord} (hnone : store.pendingResizeCommit = none)
    (hcontent : store.file.content 0 = base.bytes ++ logFrames base records)
    (hlogEnd : store.activeLogEnd = base.bytes.length + (logFrames base records).length)
    (hbytes : store.activeLogBytes = (logFrames base records).length) (hcount : store.activeLogFrames = records.length)
    (hnext : store.nextSequence = 1 + records.length) (hgeneration : store.state.generation = base.state.generation)
    (hknown : Known seen store.state) (hclean : store.metadataDirtySinceFlush = false → store.file.effects = []) :
    Live base seen store records store.state := by
  have hheld := heldBack_none hnone
  refine ⟨hcontent, hlogEnd, hheld ▸ .nil _ _ [], fun pending hpending => ?_, ?_, ?_, ?_, hgeneration, hknown, hclean⟩
  · rw [hnone] at hpending
    cases hpending
  · rw [hheld, List.append_nil, hbytes]
  · rw [hheld, List.append_nil, hcount]
  · rw [hheld, List.append_nil, hnext]

theorem Live.of_held {records : List TxnRecord} {final : VfsState} {pending : PendingResizeCommit}
    (hpending : store.pendingResizeCommit = some pending)
    (hcontent : store.file.content 0 = base.bytes ++ logFrames base records)
    (hlogEnd : store.activeLogEnd = base.bytes.length + (logFrames base records).length)
    (hfits : FitsLog base.state.generation (logPlace base records) (.resizeFile pending.record))
    (haccept : acceptTxn final (.resizeFile pending.record) = some store.state) (hlengthens : Lengthens final pending.record)
    (hsequence : pending.sequence = (logPlace base records).number)
    (hlength : pending.frameBytes = (nextFrame base records (.resizeFile pending.record)).length)
    (hbytes : store.activeLogBytes = (logFrames base records).length + pending.frameBytes)
    (hcount : store.activeLogFrames = records.length + 1) (hnext : store.nextSequence = 1 + records.length + 1)
    (hgeneration : store.state.generation = base.state.generation) (hknown : Known seen store.state)
    (hclean : store.metadataDirtySinceFlush = false → store.file.effects = []) : Live base seen store records final := by
  have hheld := heldBack_some hpending
  refine ⟨hcontent, hlogEnd, ?_, fun pending' hpending' => ?_, ?_, ?_, ?_, hgeneration, hknown, hclean⟩
  · rw [hheld]
    exact Reads.of_single hfits haccept
  · obtain rfl := Option.some.inj (hpending.symm.trans hpending')
    exact ⟨hlengthens, hsequence, hlength⟩
  · rw [hheld, logFrames_concat, List.length_append, hbytes, hlength]
  · rw [hheld, List.length_append, hcount, List.length_singleton]
  · rw [hheld, List.length_append, hnext, List.length_singleton, Nat.add_assoc]

theorem materializePendingResize_spec (h : Logged base seen store) (stops : Option Nat) :
    (∃ store', store.materializePendingResize stops = .ok () store' ∧ Logged base seen store' ∧ Settles store store') ∨
    (stops ≠ none ∧ ∃ e store', store.materializePendingResize stops = .error e store' ∧ store'.failed = true ∧
      store'.state = store.state ∧ store'.pendingResizeCommit ≠ none ∧ Tracked base seen store'.file) := by
  obtain ⟨kept, mid, garbage, added, final, htracks, hlive⟩ := h
  unfold LogStore.materializePendingResize
  cases hpending : store.pendingResizeCommit with
  | none => exact .inl ⟨store, rfl, ⟨kept, mid, garbage, added, final, htracks, hlive⟩, rfl, hpending, rfl, rfl, rfl, rfl⟩
  | some pending =>
    have hheld := heldBack_some hpending
    obtain ⟨-, hsequence, hlength⟩ := hlive.pending pending hpending
    obtain ⟨hfits, haccept⟩ := Reads.single (hheld ▸ hlive.held)
    have hencode : encodeTxnFrame ⟨store.state.generation, pending.sequence, .resizeFile pending.record⟩ =
        .ok (nextFrame base (kept ++ added) (.resizeFile pending.record)) := by
      rw [hlive.generation, hsequence]
      exact encodeTxnFrame_eq hfits.encodable
    dsimp only
    rw [hencode]
    dsimp only
    rw [if_neg (fun hne => hne hlength.symm)]
    rcases appendFrame_tracks htracks hlive.content hlive.logEnd hfits haccept hlive.known stops with
      ⟨file, happend, htracks', hcontent⟩ | ⟨hstops, file, happend, htracked⟩
    · left
      rw [happend]
      refine ⟨_, rfl, ⟨kept, mid, garbage, _, store.state, htracks', ?_⟩, rfl, rfl, rfl, rfl, rfl, rfl⟩
      have hbytes := hlive.bytes
      have hcount := hlive.count
      have hnext := hlive.next
      rw [hheld, List.append_assoc] at hbytes hcount hnext
      rw [List.append_assoc] at hcontent
      refine Live.of_settled rfl hcontent ?_ hbytes hcount hnext hlive.generation hlive.known nofun
      rw [← List.append_assoc]
    · right
      rw [happend]
      exact ⟨hstops, _, _, rfl, rfl, rfl, hpending ▸ nofun, htracked⟩

/-! ### What the preflight has checked -/

theorem isDeferrableResize_eq_some : store.isDeferrableResize record = some resize ↔
    record = .resizeFile resize ∧ resize.operation = .write ∧ Lengthens store.state resize := by
  unfold LogStore.isDeferrableResize Lengthens
  cases record with
  | resizeFile resize' =>
    dsimp only
    constructor
    · intro h
      split at h
      · rename_i size extents hoperation hbody
        obtain ⟨inode, hinode, hfile⟩ := Option.map_eq_some_iff.mp hbody
        split at h
        · rename_i hlt
          obtain rfl := Option.some.inj h
          exact ⟨rfl, hoperation, inode, size, extents, hinode, hfile, hlt⟩
        · cases h
      · cases h
    · rintro ⟨heq, hoperation, inode, size, extents, hinode, hfile, hlt⟩
      obtain rfl := TxnRecord.resizeFile.inj heq
      rw [hoperation, hinode, Option.map_some, hfile]
      exact if_pos hlt
  | _ => simp

theorem replacedPending_eq_some {pending : PendingResizeCommit} : store.replacedPending record = some (pending, resize) ↔
    store.isDeferrableResize record = some resize ∧ store.pendingResizeCommit = some pending ∧
      pending.record.inodeId = resize.inodeId := by
  unfold LogStore.replacedPending
  cases hresize : store.isDeferrableResize record with
  | none => simp
  | some resize' =>
    cases hpending : store.pendingResizeCommit with
    | none => simp
    | some pending' =>
      simp only [Option.ite_none_right_eq_some, Option.some.injEq, Prod.mk.injEq]
      constructor
      · rintro ⟨hid, rfl, rfl⟩
        exact ⟨rfl, rfl, hid⟩
      · rintro ⟨rfl, rfl, hid⟩
        exact ⟨hid, rfl, rfl⟩

/-- The parts of a preflight. -/
structure Preflighted (store : LogStore) (record : TxnRecord) (prepared : LogStore.PreparedCommit) : Prop where
  healthy : store.failed = false
  projection : prepareTxnProjection store.state record = .ok prepared.projection
  frameBytes : txnFrameBytes (store.materializedRecord record) = .ok prepared.frameBytes
  frame : store.isDeferrableResize record = none → ∃ frame, prepared.frame = some frame ∧
    encodeTxnFrame ⟨store.state.generation, ((store.replacedPending record).map fun p => p.1.sequence).getD store.nextSequence,
      store.materializedRecord record⟩ = .ok frame
  materialized : prepared.materializedRecord = store.materializedRecord record
  defers : prepared.deferResize = (store.isDeferrableResize record).isSome
  replaces : prepared.replacesPendingResize = (store.replacedPending record).isSome
  frames_lt : store.replacedPending record = none → store.activeLogFrames < maxActiveLogFrames
  bytes_le : store.activeLogBytes - ((store.replacedPending record).map fun p => p.1.frameBytes).getD 0 +
    prepared.frameBytes ≤ maxActiveLogBytes

theorem preflightCommit_ok (h : store.preflightCommit record = .ok prepared) : Preflighted store record prepared := by
  simp only [LogStore.preflightCommit, LogStore.assertOpen, bind_eq_ok, throwIf_eq_ok, pure_eq_ok, not_or, not_and,
    not_le, gt_iff_lt, ge_iff_le, not_lt] at h
  obtain ⟨-, hhealthy, projection, hprojection, bytes, hbytes, frame, hframe, -, ⟨hframes, hle⟩, rfl⟩ := h
  refine ⟨eq_false_of_ne_true hhealthy, hprojection, hbytes, fun hnone => ?_, rfl, rfl, rfl, hframes, hle⟩
  rw [LogStore.preflightFrame, hnone, Option.isSome_none, if_neg Bool.false_ne_true] at hframe
  obtain ⟨image, himage, hsome⟩ := bind_eq_ok.mp hframe
  exact ⟨image, (Except.ok.inj hsome).symm, himage⟩

/-- What is checked of a record that does not replace the one held back. -/
structure Ready (store : LogStore) (record : TxnRecord) (prepared : LogStore.PreparedCommit) : Prop where
  projection : prepareTxnProjection store.state record = .ok prepared.projection
  frameBytes : txnFrameBytes record = .ok prepared.frameBytes
  frames_lt : store.activeLogFrames < maxActiveLogFrames
  bytes_le : store.activeLogBytes + prepared.frameBytes ≤ maxActiveLogBytes

theorem Preflighted.ready (h : Preflighted store record prepared) (hnone : store.replacedPending record = none)
    (hsettles : Settles store store') : Ready store' record prepared := by
  have hbytes := h.frameBytes
  have hle := h.bytes_le
  rw [LogStore.materializedRecord, hnone] at hbytes
  rw [hnone] at hle
  refine ⟨?_, hbytes, ?_, ?_⟩
  · rw [hsettles.state]
    exact h.projection
  · rw [hsettles.count]
    exact h.frames_lt hnone
  · rw [hsettles.bytes]
    exact hle

theorem Planned.accepts {state : VfsState} (h : WellFormed state) (hp : Planned state record) :
    ∃ target, acceptTxn state record = some target ∧ WellFormed target ∧ target.generation = state.generation := by
  obtain ⟨target, happly, hwf⟩ := hp.applyTxn h
  have haccept := acceptTxn_eq_some.mpr happly
  exact ⟨target, haccept, hwf, (h.toBalanced.accepts haccept).2⟩

theorem applyOrPoison_eq {state target : VfsState} {projection : PreparedTxnProjection}
    (hprojection : prepareTxnProjection state record = .ok projection) (haccept : acceptTxn state record = some target)
    (store : LogStore) (hstate : store.state = state) :
    store.applyOrPoison record projection = .ok () { store with state := target } := by
  rw [LogStore.applyOrPoison, hstate, applyTxn_prepared hprojection, acceptTxn_eq_some.mp haccept]

/-! ### The branches of a commit -/

theorem ActiveBase.wellFormed (base : ActiveBase) : WellFormed base.state := validateState_eq_ok_iff.mp base.valid

/-- The running numbers when nothing is held back. -/
theorem Live.settled {records : List TxnRecord} {final : VfsState} (h : Live base seen store records final)
    (hnone : store.pendingResizeCommit = none) : store.activeLogBytes = (logFrames base records).length ∧
      store.activeLogFrames = records.length ∧ store.nextSequence = 1 + records.length := by
  have hbytes := h.bytes
  have hcount := h.count
  have hnext := h.next
  rw [heldBack_none hnone, List.append_nil] at hbytes hcount hnext
  exact ⟨hbytes, hcount, hnext⟩

/-- A record that passed the preflight can stand behind the log. -/
theorem Live.fits {records : List TxnRecord} {final : VfsState} (h : Live base seen store records final)
    (hnone : store.pendingResizeCommit = none) (hready : Ready store record prepared) (hp : Planned store.state record)
    (hmark : ∀ name ∈ recordNames record, NoMark name) :
    FitsLog base.state.generation (logPlace base records) record ∧
      prepared.frameBytes = (nextFrame base records record).length := by
  obtain ⟨hbytes, hcount, -⟩ := h.settled hnone
  have hroom := hready.bytes_le
  have hframes := hready.frames_lt
  refine hp.fits h.known.1.sound hmark ?_ hready.frameBytes ?_ base.wellFormed.sound.generation_le
  · rw [number_logPlace]
    omega
  · rw [offset_logPlace]
    omega

/-- A record that replaces the one held back is merged with it. -/
theorem replacePendingResize_spec (h : Logged base seen store) (hready : Preflighted store record prepared)
    {pending : PendingResizeCommit} (hreplaced : store.replacedPending record = some (pending, resize))
    (hp : Planned store.state record) : ∃ store', store.replacePendingResize record prepared = .ok () store' ∧
      Logged base (store'.state :: seen) store' ∧ acceptTxn store.state record = some store'.state ∧
      store'.failed = store.failed := by
  obtain ⟨hresize, hpending, hid⟩ := replacedPending_eq_some.mp hreplaced
  obtain ⟨rfl, -, hlengthens⟩ := isDeferrableResize_eq_some.mp hresize
  obtain ⟨kept, mid, garbage, added, final, htracks, hlive⟩ := h
  have hfinal : WellFormed final := htracks.session.passed_final.1
  have hheld := heldBack_some hpending
  obtain ⟨hlengthens', hsequence, hlength⟩ := hlive.pending pending hpending
  obtain ⟨hfits, haccept⟩ := Reads.single (hheld ▸ hlive.held)
  obtain ⟨target, htarget, hwf, hgeneration⟩ := hp.accepts hlive.known.1
  -- the merged record takes the log to where the two records take it
  have hmaterialized : store.materializedRecord (.resizeFile resize) =
      .resizeFile (mergedResize pending.record resize) := by
    rw [LogStore.materializedRecord, hreplaced]
    rfl
  have hbytes := hready.frameBytes
  rw [hmaterialized] at hbytes
  obtain ⟨hmerged, hlengthened⟩ := applyTxn_merged hfinal.toBalanced hid (acceptTxn_eq_some.mp haccept) hlengthens'
    (acceptTxn_eq_some.mp htarget) hlengthens hbytes
  have hplanned : Planned final (.resizeFile (mergedResize pending.record resize)) := by
    obtain ⟨projected, applied, hpre, hrecord, -⟩ := applyTxn_eq_ok.mp hmerged
    exact ⟨⟨projected, hpre⟩, ⟨applied, hrecord⟩, .of_no_entries rfl⟩
  have hactive := hlive.bytes
  rw [hheld, logFrames_concat, List.length_append, ← hlength] at hactive
  have hcount := hlive.count
  rw [hheld, List.length_append, List.length_singleton] at hcount
  have hnext := hlive.next
  rw [hheld, List.length_append, List.length_singleton, ← Nat.add_assoc] at hnext
  have hroom := hready.bytes_le
  rw [hreplaced, Option.map_some, Option.getD_some, hactive, Nat.add_sub_cancel] at hroom
  obtain ⟨hfits', hlength'⟩ := hplanned.fits hfinal.sound nofun hfits.number hbytes
    (by rw [offset_logPlace]; exact hroom) base.wellFormed.sound.generation_le
  refine ⟨{ store with
    state := target
    activeLogBytes := store.activeLogBytes + prepared.frameBytes - pending.frameBytes
    pendingResizeCommit := some ⟨mergedResize pending.record resize, prepared.frameBytes, pending.sequence⟩ },
    ?_, ⟨kept, mid, garbage, added, final, htracks.mono (List.subset_cons_self _ _), ?_⟩, htarget, rfl⟩
  · rw [LogStore.replacePendingResize, hpending, hready.materialized, hmaterialized]
    dsimp only
    rw [applyOrPoison_eq hready.projection htarget _ rfl]
    rfl
  · refine Live.of_held rfl hlive.content hlive.logEnd hfits' (acceptTxn_eq_some.mpr hmerged) hlengthened hsequence hlength'
      ?_ hcount hnext (hgeneration.trans hlive.generation) ⟨hwf, List.mem_cons_self⟩ hlive.clean
    show store.activeLogBytes + prepared.frameBytes - pending.frameBytes = _ + prepared.frameBytes
    omega

/-- A record is held back when nothing is. -/
theorem deferCommit_spec (h : Logged base seen store) (hnone : store.pendingResizeCommit = none)
    (hready : Ready store (.resizeFile resize) prepared) (hp : Planned store.state (.resizeFile resize))
    (hlengthens : Lengthens store.state resize) :
    ∃ store', store.deferCommit (.resizeFile resize) resize prepared = .ok () store' ∧
      Logged base (store'.state :: seen) store' ∧ acceptTxn store.state (.resizeFile resize) = some store'.state ∧
      store'.failed = store.failed := by
  obtain ⟨kept, mid, garbage, added, final, htracks, hlive⟩ := h
  obtain rfl := hlive.state_eq hnone
  obtain ⟨target, htarget, hwf, hgeneration⟩ := hp.accepts hlive.known.1
  obtain ⟨hactive, hcount, hnext⟩ := hlive.settled hnone
  obtain ⟨hfits, hlength⟩ := hlive.fits hnone hready hp nofun
  refine ⟨{ store with
    state := target
    pendingResizeCommit := some ⟨resize, prepared.frameBytes, store.nextSequence⟩
    activeLogBytes := store.activeLogBytes + prepared.frameBytes
    activeLogFrames := store.activeLogFrames + 1
    nextSequence := store.nextSequence + 1 },
    ?_, ⟨kept, mid, garbage, added, store.state, htracks.mono (List.subset_cons_self _ _), ?_⟩, htarget, rfl⟩
  · rw [LogStore.deferCommit, applyOrPoison_eq hready.projection htarget _ rfl]
    rfl
  · refine Live.of_held rfl hlive.content hlive.logEnd hfits htarget hlengthens ?_ hlength ?_ ?_ ?_
      (hgeneration.trans hlive.generation) ⟨hwf, List.mem_cons_self⟩ hlive.clean
    · show store.nextSequence = _
      rw [number_logPlace, hnext]
    · show store.activeLogBytes + prepared.frameBytes = _
      rw [hactive]
    · show store.activeLogFrames + 1 = _
      rw [hcount]
    · show store.nextSequence + 1 = _
      rw [hnext]

/-- The frame of a record is written, or the write stops in it. -/
theorem appendCommit_spec (h : Logged base seen store) (hnone : store.pendingResizeCommit = none)
    (hready : Ready store record prepared) (hp : Planned store.state record) (hmark : ∀ name ∈ recordNames record, NoMark name)
    {frame : List UInt8} (hframe : prepared.frame = some frame)
    (hencode : encodeTxnFrame ⟨store.state.generation, store.nextSequence, record⟩ = .ok frame) (stops : Option Nat) :
    ∃ target, acceptTxn store.state record = some target ∧
      ((∃ store', store.appendCommit record prepared stops = .ok () store' ∧ Logged base (target :: seen) store' ∧
          store'.state = target ∧ store'.failed = store.failed) ∨
        (stops ≠ none ∧ ∃ e store', store.appendCommit record prepared stops = .error e store' ∧ store'.failed = true ∧
          store'.state = store.state ∧ store'.pendingResizeCommit = none ∧ Tracked base (target :: seen) store'.file)) := by
  obtain ⟨kept, mid, garbage, added, final, htracks, hlive⟩ := h
  obtain rfl := hlive.state_eq hnone
  obtain ⟨target, htarget, hwf, hgeneration⟩ := hp.accepts hlive.known.1
  obtain ⟨hactive, hcount, hnext⟩ := hlive.settled hnone
  obtain ⟨hfits, hlength⟩ := hlive.fits hnone hready hp hmark
  have himage : frame = nextFrame base (kept ++ added) record := by
    have hplace : store.nextSequence = (logPlace base (kept ++ added)).number := by rw [hnext, number_logPlace]
    rw [hlive.generation, hplace, encodeTxnFrame_eq hfits.encodable] at hencode
    exact (Except.ok.inj hencode).symm
  have hknown : Known (target :: seen) target := ⟨hwf, List.mem_cons_self⟩
  refine ⟨target, htarget, ?_⟩
  rw [LogStore.appendCommit, hframe, himage]
  dsimp only
  rcases appendFrame_tracks (htracks.mono (List.subset_cons_self target seen)) hlive.content hlive.logEnd hfits htarget
    hknown stops with ⟨file, happend, htracks', hcontent⟩ | ⟨hstops, file, happend, htracked⟩
  · left
    rw [happend]
    dsimp only [andThen]
    rw [applyOrPoison_eq hready.projection htarget]
    · refine ⟨_, rfl, ⟨kept, mid, garbage, _, target, htracks', ?_⟩, rfl, rfl⟩
      rw [← List.append_assoc]
      refine Live.of_settled hnone hcontent rfl ?_ ?_ ?_ (hgeneration.trans hlive.generation) hknown nofun
      · show store.activeLogBytes + prepared.frameBytes = _
        rw [logFrames_concat, List.length_append, hactive, hlength]
      · show store.activeLogFrames + 1 = _
        rw [List.length_append, hcount]
        rfl
      · show store.nextSequence + 1 = _
        rw [List.length_append, hnext, ← Nat.add_assoc]
        rfl
    · rfl
  · right
    rw [happend]
    exact ⟨hstops, _, _, rfl, rfl, rfl, hnone, htracked⟩

/-! ### A commit -/

/-- How a commit ends: refused with nothing changed, done, or stopped in the frame of the record that was held back
or in its own. -/
inductive Committed (base : ActiveBase) (seen : List VfsState) (store : LogStore) (record : TxnRecord)
    (pendingStops frameStops : Option Nat) : StoreResult → Prop
  | refused {e : StoreError} : store.preflightCommit record = .error e →
      Committed base seen store record pendingStops frameStops (.error e store)
  | done {store' : LogStore} : acceptTxn store.state record = some store'.state →
      Logged base (store'.state :: seen) store' → store'.failed = store.failed →
      Committed base seen store record pendingStops frameStops (.ok () store')
  | pendingStopped {e : StoreError} {store' : LogStore} : pendingStops ≠ none → store'.failed = true →
      store'.state = store.state → store'.pendingResizeCommit ≠ none → Tracked base seen store'.file →
      Committed base seen store record pendingStops frameStops (.error e store')
  | frameStopped {e : StoreError} {store' : LogStore} {target : VfsState} : frameStops ≠ none → store.failed = false →
      store'.failed = true → store'.state = store.state → store'.pendingResizeCommit = none →
      acceptTxn store.state record = some target → Tracked base (target :: seen) store'.file →
      Committed base seen store record pendingStops frameStops (.error e store')

theorem commit_spec (h : Logged base seen store) (hp : Planned store.state record)
    (hmark : ∀ name ∈ recordNames record, NoMark name) (pendingStops frameStops : Option Nat) :
    Committed base seen store record pendingStops frameStops (store.commit record pendingStops frameStops) := by
  unfold LogStore.commit
  cases hpreflight : store.preflightCommit record with
  | error e => exact .refused hpreflight
  | ok prepared =>
    have hready := preflightCommit_ok hpreflight
    dsimp only
    rw [hready.replaces]
    cases hreplaced : store.replacedPending record with
    | some replaced =>
      obtain ⟨pending, resize⟩ := replaced
      obtain ⟨store', hreplace, hlogged, haccept, hfailed⟩ := replacePendingResize_spec h hready hreplaced hp
      rw [Option.isSome_some, if_pos rfl, hreplace]
      exact .done haccept hlogged hfailed
    | none =>
      rw [Option.isSome_none, if_neg Bool.false_ne_true]
      have hmaterialized : prepared.materializedRecord = record := by
        rw [hready.materialized, LogStore.materializedRecord, hreplaced]
      rcases materializePendingResize_spec h pendingStops with
        ⟨settled, hsettle, hlogged, hsettles⟩ | ⟨hstops, e, store', hstop, hfailed, hstate, hpending, htracked⟩
      · rw [hsettle, andThen, hready.defers, hmaterialized]
        have hready' := hready.ready hreplaced hsettles
        have hp' : Planned settled.state record := hsettles.state ▸ hp
        cases hresize : store.isDeferrableResize record with
        | some resize =>
          obtain ⟨rfl, -, hlengthens⟩ := isDeferrableResize_eq_some.mp hresize
          obtain ⟨store', hdefer, hlogged', haccept, hfailed⟩ := deferCommit_spec hlogged hsettles.none hready' hp'
            (hsettles.state ▸ hlengthens)
          show Committed _ _ _ _ _ _ (settled.deferCommit _ _ _)
          rw [hdefer]
          exact .done (hsettles.state ▸ haccept) hlogged' (hfailed.trans hsettles.failed)
        | none =>
          obtain ⟨frame, hframe, hencode⟩ := hready.frame hresize
          rw [hreplaced, LogStore.materializedRecord, hreplaced, Option.map_none, Option.getD_none, ← hsettles.state,
            ← hsettles.next] at hencode
          show Committed _ _ _ _ _ _ (settled.appendCommit _ _ _)
          obtain ⟨target, haccept, ⟨store', happend, hlogged', hstate, hfailed⟩ |
            ⟨hstops, e, store', happend, hfailed, hstate, hpending, htracked⟩⟩ :=
              appendCommit_spec hlogged hsettles.none hready' hp' hmark hframe hencode frameStops
          · subst hstate
            rw [happend]
            exact .done (hsettles.state ▸ haccept) hlogged' (hfailed.trans hsettles.failed)
          · rw [happend]
            exact .frameStopped hstops hready.healthy hfailed (hstate.trans hsettles.state) hpending (hsettles.state ▸ haccept)
              htracked
      · rw [hstop]
        exact .pendingStopped hstops hfailed hstate hpending htracked

end Opfs
