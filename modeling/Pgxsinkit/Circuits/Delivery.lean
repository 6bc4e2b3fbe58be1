/-
A delivery and its commit, as far as they do not depend on what the tables hold.

`commitHeld_cases` and `commitHeld_errors` say what the attempts of a commit can leave,
`deliver_cases` what a delivery can.  `Continues` is the invariant of one shape's inbox:
what is held continues a position of the stream up to where it has been read.  Every
delivery keeps it, and a commit starts it again at the reader.
-/
import Pgxsinkit.Circuits.CommitSpec

namespace Circuits

open Checked

variable {S V : Type} [LinearOrder S]

/-! ### The attempts of a commit -/

/-- Flags that are on after are on before. -/
def FlagsBelow (bulk bulk' : S → Bool) : Prop := ∀ name, bulk name = true → bulk' name = true

theorem runCommit_ok {group : SyncGroup S V} {engine : Engine S V} {store : Store S V}
    {fault : Option Nat} {tables : S → Table S V}
    (h : (runCommit group engine store fault).2 = .ok tables) :
    (commitShapes group engine.truncateNeeded engine.inbox.peekAll group.shapes.entries
      engine.useBulkBackfill store.tables) = ((runCommit group engine store fault).1, .ok tables) := by
  cases fault with
  | none => exact Prod.ext rfl h
  | some after =>
    exfalso
    simp only [runCommit] at h
    cases hc : (commitShapes group engine.truncateNeeded engine.inbox.peekAll
      (group.shapes.entries.take after) engine.useBulkBackfill store.tables).2 with
    | error e => rw [hc] at h; cases h
    | ok _ => rw [hc] at h; cases h

theorem runCommit_flags (group : SyncGroup S V) (engine : Engine S V) (store : Store S V)
    (fault : Option Nat) : FlagsBelow (runCommit group engine store fault).1 engine.useBulkBackfill := by
  intro name h
  cases fault with
  | none => exact commitShapes_flag h
  | some after => exact commitShapes_flag h

/-- What a `commitHeld` can leave behind. -/
theorem commitHeld_cases (group : SyncGroup S V) (remaining : Nat) (faults : List (Option Nat))
    (engine : Engine S V) (store : Store S V) :
    ((commitHeld group remaining faults engine store).store = store ∧
      ∃ bulk, (commitHeld group remaining faults engine store).engine =
        { engine with useBulkBackfill := bulk, degraded := true }) ∨
    ∃ bulk bulk' tables, FlagsBelow bulk engine.useBulkBackfill ∧
      commitShapes group engine.truncateNeeded engine.inbox.peekAll group.shapes.entries bulk
        store.tables = (bulk', .ok tables) ∧
      (commitHeld group remaining faults engine store).engine = engine.committed bulk' ∧
      (commitHeld group remaining faults engine store).store =
        ⟨tables, some (pendingCursors group engine)⟩ := by
  induction remaining generalizing faults engine with
  | zero => exact Or.inl ⟨rfl, engine.useBulkBackfill, rfl⟩
  | succ remaining ih =>
    rw [commitHeld]
    split
    · rename_i bulk tables hrun
      have hok := runCommit_ok (by rw [hrun])
      rw [hrun] at hok
      exact Or.inr ⟨engine.useBulkBackfill, bulk, tables, fun _ h => h, hok, rfl, rfl⟩
    · rename_i bulk e hrun
      have hflags : FlagsBelow bulk engine.useBulkBackfill := by
        have := runCommit_flags group engine store (faults.head?.getD none)
        rwa [hrun] at this
      rcases ih faults.tail { engine with useBulkBackfill := bulk } with
        ⟨hstore, b, hengine⟩ | ⟨b, b', tables, hb, hcommit, hengine, hstore⟩
      · exact Or.inl ⟨hstore, b, hengine⟩
      · exact Or.inr ⟨b, b', tables, fun n hn => hflags n (hb n hn), hcommit, hengine, hstore⟩

/-- Two engines that have read the same, on the same streams. -/
structure SameReading (engine engine' : Engine S V) : Prop where
  streamUrls : engine'.streamUrls = engine.streamUrls
  batches : engine'.inbox.batches = engine.inbox.batches
  appliedOffsets : engine'.inbox.appliedOffsets = engine.inbox.appliedOffsets
  currentlyUpToDate : engine'.inbox.currentlyUpToDate = engine.inbox.currentlyUpToDate
  truncateNeeded : engine'.truncateNeeded = engine.truncateNeeded

theorem SameReading.refl (engine : Engine S V) : SameReading engine engine :=
  ⟨rfl, rfl, rfl, rfl, rfl⟩

theorem SameReading.peekAll {engine engine' : Engine S V} (h : SameReading engine engine')
    (name : S) : engine'.inbox.peekAll name = engine.inbox.peekAll name := by
  rw [StreamInbox.peekAll, StreamInbox.peekAll, h.batches]

theorem gateOpen_sameReading (group : SyncGroup S V) (engine : Engine S V)
    (barrier : Option ConvergenceBarrier) :
    SameReading engine (gateOpen group engine barrier).1 := by
  unfold gateOpen
  split
  · exact .refl engine
  · split
    · exact .refl engine
    · split
      · exact .refl engine
      · split
        · exact .refl engine
        · split
          · exact ⟨rfl, rfl, rfl, rfl, rfl⟩
          · split
            · exact .refl engine
            · exact ⟨rfl, rfl, rfl, rfl, rfl⟩

/-- The gate opens with every shape of the group drained. -/
theorem gateOpen_upToDate {group : SyncGroup S V} {name : S} {engine : Engine S V} {barrier : Option ConvergenceBarrier}
    (h : (gateOpen group engine barrier).2 = true) (hname : name ∈ group.shapeNames) :
    (gateOpen group engine barrier).1.inbox.currentlyUpToDate name = true := by
  have hdrained : engine.inbox.isGroupUpToDate group.shapeNames = true →
      engine.inbox.currentlyUpToDate name = true := fun hg => List.all_eq_true.1 hg name hname
  unfold gateOpen at h ⊢
  split at h
  · cases h
  · rename_i hg
    have hup := hdrained (by simpa using hg)
    rw [if_neg hg]
    split at h
    · rename_i ha
      rw [if_pos ha]
      exact hup
    · rename_i ha
      rw [if_neg ha]
      split at h
      · cases h
      · rename_i hr
        rw [if_neg hr]
        cases barrier with
        | none => cases h
        | some b =>
          dsimp only at h ⊢
          split at h
          · cases h
          · rename_i hf
            rw [if_neg hf]
            split at h
            · cases h
            · rename_i hp
              rw [if_neg hp]
              exact hup

/-- The engine with a delivery in its inbox. -/
def Engine.ingested (engine : Engine S V) (shapeName : S) (changes : List (SyncChange S V))
    (offset : S) (upToDate : Bool) : Engine S V :=
  { engine with inbox := engine.inbox.ingestBatch shapeName changes offset upToDate }

/-- The engine a delivery takes into `commitHeld`, when it gets there. -/
def Engine.committing (group : SyncGroup S V) (engine : Engine S V) (shapeName : S)
    (changes : List (SyncChange S V)) (offset : S) (upToDate : Bool)
    (barrier : Option ConvergenceBarrier) : Option (Engine S V) :=
  let ingested := engine.ingested shapeName changes offset upToDate
  let gate := gateOpen group ingested barrier
  if !ingested.degraded && gate.2 then some gate.1 else none

/-- A delivery commits the engine it takes to the gate, or leaves the store alone. -/
theorem deliver_cases (group : SyncGroup S V) (engine : Engine S V) (store : Store S V)
    (shapeName : S) (changes : List (SyncChange S V)) (offset : S) (upToDate : Bool)
    (barrier : Option ConvergenceBarrier) (faults : List (Option Nat)) :
    (∃ committing, engine.committing group shapeName changes offset upToDate barrier =
        some committing ∧
      SameReading (engine.ingested shapeName changes offset upToDate) committing ∧
      (∀ name ∈ group.shapeNames, committing.inbox.currentlyUpToDate name = true) ∧
      deliver group engine store shapeName changes offset upToDate barrier faults =
        commitHeld group (max group.maxCommitRetries 1) faults committing store) ∨
    ∃ engine', SameReading (engine.ingested shapeName changes offset upToDate) engine' ∧
      deliver group engine store shapeName changes offset upToDate barrier faults =
        ⟨engine', store, []⟩ := by
  have hgate := gateOpen_sameReading group (engine.ingested shapeName changes offset upToDate)
    barrier
  by_cases hdegraded : engine.degraded = true
  · exact Or.inr ⟨_, .refl _, by rw [deliver, if_pos hdegraded]; rfl⟩
  · cases hopen : (gateOpen group (engine.ingested shapeName changes offset upToDate)
      barrier).2 with
    | true =>
      refine Or.inl ⟨_, ?_, hgate, fun name hname => gateOpen_upToDate hopen hname, ?_⟩
      · rw [Engine.committing, if_pos]
        change (!engine.degraded && (gateOpen group
          (engine.ingested shapeName changes offset upToDate) barrier).2) = true
        rw [hopen, Bool.and_true, Bool.not_eq_true']
        exact Bool.eq_false_of_not_eq_true hdegraded
      · rw [deliver, if_neg hdegraded]
        exact if_pos hopen
    | false =>
      refine Or.inr ⟨_, hgate, ?_⟩
      rw [deliver, if_neg hdegraded]
      exact if_neg fun h => Bool.false_ne_true (hopen.symm.trans h)

/-- What the delivery step of a run does. -/
theorem step_deliver {group : SyncGroup S V} {streams : S → ShapeStream S V} {w w' : World S V}
    {shapeName : S} {start stop : Nat} {upToDate : Bool} {barrier : Option ConvergenceBarrier}
    {faults : List (Option Nat)}
    (h : step group streams w (.deliver shapeName start stop upToDate barrier faults) = some w') :
    ∃ engine outcome, w.engine = some engine ∧
      mayDeliver (streams (engine.streamUrls shapeName)) engine shapeName (w.reader shapeName)
        start stop = true ∧
      outcome = deliver group engine w.store shapeName
        ((streams (engine.streamUrls shapeName)).slice start stop)
        ((streams (engine.streamUrls shapeName)).offset stop) upToDate barrier faults ∧
      w' = ⟨outcome.store, some outcome.engine,
        Function.update w.reader shapeName (max (w.reader shapeName) stop),
        w.errors ++ outcome.errors⟩ := by
  rw [step] at h
  split at h
  · cases h
  · rename_i engine hengine
    dsimp only at h
    split at h
    · rename_i hmay
      rw [Bool.and_eq_true] at hmay
      exact ⟨engine, _, hengine, hmay.2, rfl, (Option.some.inj h).symm⟩
    · cases h

/-! ### The inbox of one shape -/

namespace ShapeStream

variable (stream : ShapeStream S V)

/-- A delivery that starts at or before what was read continues it. -/
theorem lastChange_slice {start at_ stop : Nat} (hs : start ≤ at_) (ha : at_ ≤ stop) (key : S) :
    lastChange key (stream.changes.take at_ ++ stream.slice start stop) =
      lastChange key (stream.changes.take stop) := by
  have htake : stream.changes.take stop = stream.changes.take start ++ stream.slice start stop := by
    have := List.take_append_drop start (stream.changes.take stop)
    rw [List.take_take, Nat.min_eq_left (hs.trans ha)] at this
    exact this.symm
  have hread : stream.changes.take at_ = stream.changes.take start ++ stream.slice start at_ := by
    have := List.take_append_drop start (stream.changes.take at_)
    rw [List.take_take, Nat.min_eq_left hs] at this
    exact this.symm
  rw [htake, hread, lastChange_append, lastChange_append, lastChange_append]
  cases hl : lastChange key (stream.slice start stop) with
  | some c => rfl
  | none =>
    -- what was read past `start` is part of the delivery, which does not mention the key
    have hnone : lastChange key (stream.slice start at_) = none := by
      rw [lastChange_eq_none] at hl ⊢
      intro c hc
      refine hl c ?_
      have hinit : stream.changes.take at_ = (stream.changes.take stop).take at_ := by
        rw [List.take_take, Nat.min_eq_left ha]
      rw [slice, hinit] at hc
      exact ((List.take_sublist _ _).drop _).subset hc
    rw [hnone]
    rfl

theorem mem_of_mem_slice {start stop : Nat} {change : SyncChange S V}
    (h : change ∈ stream.slice start stop) : change ∈ stream.changes :=
  ((List.drop_sublist _ _).trans (List.take_sublist _ _)).subset h

end ShapeStream

section

variable (streams : S → ShapeStream S V) (name : S) (cols : List S)

/-- The upserts of a stream are full rows of the columns `cols`. -/
def FullRows (url : S) : Prop := ∀ change ∈ (streams url).changes, FullRow cols change

/-- The inbox continues position `n` of the stream up to the reader. -/
structure Continues (engine : Engine S V) (reader n : Nat) : Prop where
  le_reader : n ≤ reader
  reader_le : reader ≤ (streams (engine.streamUrls name)).changes.length
  applied : engine.inbox.appliedOffsets name = none ∨
    engine.inbox.appliedOffsets name = some ((streams (engine.streamUrls name)).offset n)
  held : ∀ key,
    lastChange key ((streams (engine.streamUrls name)).changes.take n ++
        engine.inbox.peekAll name) =
      lastChange key ((streams (engine.streamUrls name)).changes.take reader)
  heldFull : ∀ change ∈ engine.inbox.peekAll name, FullRow cols change
  offset : (engine.inbox.batches name = [] ∧ reader = n) ∨
    (engine.inbox.batches name).getLast?.map BufferedBatch.offset =
      some ((streams (engine.streamUrls name)).offset reader)
  upToDate : engine.inbox.currentlyUpToDate name = true →
    engine.inbox.batches name ≠ [] ∨ engine.inbox.appliedOffsets name ≠ none

end

section

variable {streams : S → ShapeStream S V} {name : S} {cols : List S}

theorem Continues.congr {engine engine' : Engine S V} {reader n : Nat}
    (h : Continues streams name cols engine reader n) (hsame : SameReading engine engine') :
    Continues streams name cols engine' reader n := by
  refine ⟨h.le_reader, ?_, ?_, ?_, ?_, ?_, ?_⟩
  · rw [hsame.streamUrls]
    exact h.reader_le
  · rw [hsame.streamUrls, hsame.appliedOffsets]
    exact h.applied
  · rw [hsame.streamUrls, hsame.peekAll]
    exact h.held
  · rw [hsame.peekAll]
    exact h.heldFull
  · rw [hsame.streamUrls, hsame.batches]
    exact h.offset
  · rw [hsame.batches, hsame.appliedOffsets, hsame.currentlyUpToDate]
    exact h.upToDate

/-- A fresh inbox continues whatever position the subscription starts from. -/
theorem subscribe_continues (group : SyncGroup S V) (store : Store S V) {streamUrls : S → S}
    {n : Nat} (hn : n ≤ (streams (streamUrls name)).changes.length) :
    Continues streams name cols (subscribe group store streamUrls) n n := by
  refine ⟨le_rfl, hn, Or.inl rfl, fun key => ?_, fun c hc => ?_, Or.inl ⟨rfl, rfl⟩, fun h => ?_⟩
  · simp [subscribe, StreamInbox.peekAll, StreamInbox.new]
  · cases hc
  · cases h

theorem peekAll_ingestBatch (inbox : StreamInbox S V) (shapeName : S)
    (changes : List (SyncChange S V)) (offset : S) (upToDate : Bool) :
    (inbox.ingestBatch shapeName changes offset upToDate).peekAll shapeName =
      if inbox.isApplied shapeName offset then inbox.peekAll shapeName
      else inbox.peekAll shapeName ++ changes := by
  rw [StreamInbox.peekAll, StreamInbox.ingestBatch]
  simp only [Function.update_self]
  split
  · rfl
  · simp [StreamInbox.peekAll]

/-- A delivery of the shape itself. -/
theorem Continues.ingested {engine : Engine S V} {reader n start stop : Nat} {upToDate : Bool}
    (h : Continues streams name cols engine reader n)
    (hfull : FullRows streams cols (engine.streamUrls name))
    (hmay : mayDeliver (streams (engine.streamUrls name)) engine name reader start stop = true) :
    Continues streams name cols
      (engine.ingested name ((streams (engine.streamUrls name)).slice start stop)
        ((streams (engine.streamUrls name)).offset stop) upToDate) (max reader stop) n := by
  set stream := streams (engine.streamUrls name) with hstream
  rw [mayDeliver, Bool.and_eq_true, Bool.or_eq_true, Bool.and_eq_true, decide_eq_true_eq,
    decide_eq_true_eq, decide_eq_true_eq] at hmay
  obtain ⟨hlen, hmay⟩ := hmay
  cases happlied : engine.inbox.isApplied name (stream.offset stop) with
  | true =>
    -- at or below the applied offset: dropped, and the reader is past it already
    obtain ⟨hsome, hstop⟩ : engine.inbox.appliedOffsets name = some (stream.offset n) ∧ stop ≤ n := by
      rw [StreamInbox.isApplied] at happlied
      rcases h.applied with hnone | hsome
      · simp [hnone] at happlied
      · rw [hsome] at happlied
        exact ⟨hsome, stream.offset_strictMono.le_iff_le.1 (by simpa using happlied)⟩
    have hmax : max reader stop = reader := max_eq_left (hstop.trans h.le_reader)
    have hbatches : (engine.inbox.ingestBatch name (stream.slice start stop) (stream.offset stop)
        upToDate).batches name = engine.inbox.batches name := by
      simp [StreamInbox.ingestBatch, happlied]
    have hpeek : (engine.inbox.ingestBatch name (stream.slice start stop) (stream.offset stop)
        upToDate).peekAll name = engine.inbox.peekAll name := by
      rw [peekAll_ingestBatch, if_pos happlied]
    rw [hmax]
    refine ⟨h.le_reader, h.reader_le, h.applied, ?_, ?_, ?_, fun _ => Or.inr ?_⟩
    · intro key
      rw [Engine.ingested, hpeek]
      exact h.held key
    · rw [Engine.ingested, hpeek]
      exact h.heldFull
    · rw [Engine.ingested, hbatches]
      exact h.offset
    · show engine.inbox.appliedOffsets name ≠ none
      rw [hsome]
      exact Option.some_ne_none _
  | false =>
    have hread : start ≤ reader ∧ reader ≤ stop := by
      rcases hmay with hmay | hmay
      · exact hmay
      · rw [happlied] at hmay
        cases hmay
    have hbatches : (engine.inbox.ingestBatch name (stream.slice start stop) (stream.offset stop)
        upToDate).batches name =
          engine.inbox.batches name ++ [⟨stream.slice start stop, stream.offset stop⟩] := by
      simp [StreamInbox.ingestBatch, happlied]
    have hpeek : (engine.inbox.ingestBatch name (stream.slice start stop) (stream.offset stop)
        upToDate).peekAll name = engine.inbox.peekAll name ++ stream.slice start stop := by
      rw [peekAll_ingestBatch, if_neg (by simp [happlied])]
    rw [max_eq_right hread.2]
    refine ⟨h.le_reader.trans hread.2, hlen, h.applied, fun key => ?_, fun c hc => ?_, Or.inr ?_,
      fun _ => Or.inl ?_⟩
    · rw [Engine.ingested, hpeek, ← List.append_assoc, lastChange_append]
      show (lastChange key (stream.slice start stop)).or
        (lastChange key (stream.changes.take n ++ engine.inbox.peekAll name)) = _
      rw [h.held key, ← lastChange_append, stream.lastChange_slice hread.1 hread.2]
    · rw [Engine.ingested, hpeek] at hc
      rcases List.mem_append.1 hc with hc | hc
      · exact h.heldFull c hc
      · exact hfull c (stream.mem_of_mem_slice hc)
    · rw [Engine.ingested, hbatches, List.getLast?_concat]
      rfl
    · rw [Engine.ingested, hbatches]
      exact List.append_ne_nil_of_right_ne_nil _ (List.cons_ne_nil _ _)

/-- A delivery of another shape. -/
theorem Continues.ingested_other {engine : Engine S V} {reader n : Nat} {shapeName : S}
    (hne : shapeName ≠ name) {changes : List (SyncChange S V)} {offset : S} {upToDate : Bool}
    (h : Continues streams name cols engine reader n) :
    Continues streams name cols (engine.ingested shapeName changes offset upToDate) reader n := by
  have hbatches : (engine.ingested shapeName changes offset upToDate).inbox.batches name =
      engine.inbox.batches name := Function.update_of_ne (Ne.symm hne) _ _
  have hpeek : (engine.ingested shapeName changes offset upToDate).inbox.peekAll name =
      engine.inbox.peekAll name := by
    rw [StreamInbox.peekAll, hbatches]
    rfl
  refine ⟨h.le_reader, h.reader_le, h.applied, ?_, ?_, ?_, fun hup => ?_⟩
  · rw [hpeek]
    exact h.held
  · rw [hpeek]
    exact h.heldFull
  · rw [hbatches]
    exact h.offset
  · change Function.update engine.inbox.currentlyUpToDate shapeName upToDate name = true at hup
    rw [Function.update_of_ne (Ne.symm hne)] at hup
    rw [hbatches]
    exact h.upToDate hup

/-- What a commit persists for a drained shape is the offset of the reader. -/
theorem Continues.pendingOffsets {engine : Engine S V} {reader n : Nat}
    (h : Continues streams name cols engine reader n)
    (hup : engine.inbox.currentlyUpToDate name = true) :
    engine.inbox.pendingOffsets name =
      some ((streams (engine.streamUrls name)).offset reader) := by
  rw [StreamInbox.pendingOffsets]
  rcases h.offset with ⟨hempty, rfl⟩ | hlast
  · rw [hempty]
    rcases h.applied with hnone | hsome
    · exact absurd hnone ((h.upToDate hup).resolve_left fun hne => hne hempty)
    · exact hsome
  · rw [hlast]
    rfl

theorem Continues.pendingCursors {group : SyncGroup S V} {engine : Engine S V} {reader n : Nat}
    (h : Continues streams name cols engine reader n)
    (hup : engine.inbox.currentlyUpToDate name = true) (hname : name ∈ group.shapeNames) :
    pendingCursors group engine name = some ⟨engine.streamUrls name,
      (streams (engine.streamUrls name)).offset reader⟩ := by
  rw [Circuits.pendingCursors, if_pos (by simpa using hname), h.pendingOffsets hup]
  rfl

/-- After a commit nothing is held, and the inbox continues the reader. -/
theorem Continues.committed {engine : Engine S V} {reader n : Nat}
    (h : Continues streams name cols engine reader n)
    (hup : engine.inbox.currentlyUpToDate name = true) (bulk : S → Bool) :
    Continues streams name cols (engine.committed bulk) reader reader := by
  have hack : (engine.committed bulk).inbox.batches name = [] ∧
      (engine.committed bulk).inbox.appliedOffsets name = engine.inbox.pendingOffsets name := by
    simp [Engine.committed, StreamInbox.ackAll]
  have happlied : (engine.committed bulk).inbox.appliedOffsets name =
      some ((streams (engine.streamUrls name)).offset reader) := hack.2.trans (h.pendingOffsets hup)
  have hpeek : (engine.committed bulk).inbox.peekAll name = [] := by
    rw [StreamInbox.peekAll, hack.1]
    rfl
  refine ⟨le_rfl, h.reader_le, Or.inr happlied, fun key => ?_, fun c hm => ?_,
    Or.inl ⟨hack.1, rfl⟩, fun _ => Or.inr ?_⟩
  · rw [hpeek, List.append_nil]
  · rw [hpeek] at hm
    cases hm
  · rw [happlied]
    exact Option.some_ne_none _

end

end Circuits
