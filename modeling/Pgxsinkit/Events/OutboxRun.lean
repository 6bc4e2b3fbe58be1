/-
What every run of the Event lane keeps.

A staged event waits in the Outbox until a verdict for it arrives, is not posted once its verdict is
settled, and a stamped row leaves by the sweep no sooner than the retention in force, rounded to
whole milliseconds, allows.  One invariant (`Lane.Sound`) carries all three: it says what the rows,
the history and the stage of the running pass have to do with each other.
-/
import Pgxsinkit.Events.Outbox

namespace Events

/-! ### The properties -/

/-- The row holds the event that `staged` was appended as. -/
def OutboxRow.SameEvent (row staged : OutboxRow) : Prop :=
  row.stream = staged.stream ∧ row.eventId = staged.eventId ∧
    row.occurredAtUs = staged.occurredAtUs ∧ row.payload = staged.payload

/-- A request that carried the event was answered by a verdict that settles it. -/
def Answered (history : List Observation) (eventId : Text) : Prop :=
  ∃ batch acks, .received batch acks ∈ history ∧ (∃ row ∈ batch, row.eventId = eventId) ∧
    ∃ ack ∈ acks, ack.eventId = eventId ∧ ack.status ≠ .deferred

namespace Lane

/-- A staged event is pending, unchanged, until a request that carried it is answered by an acked,
refused or rejected verdict. -/
def KeepsPending (lane : Lane) : Prop :=
  ∀ staged, .appended staged ∈ lane.history → Answered lane.history staged.eventId ∨
    ∃ row ∈ lane.outbox, row.SameEvent staged ∧ row.ackedAtUs = none

/-- Whatever the sweep removes was stamped before, `age` of the retention in force ago or more; the
times are in microseconds. -/
def SweepsAfter (age : Retention → ℚ) (lane : Lane) : Prop :=
  ∀ before row (nowUs : ℤ) retention after,
    lane.history = before ++ .swept row nowUs retention :: after →
    ∃ ids, ∃ atUs : ℤ, .stamped ids atUs ∈ before ∧ row.eventId ∈ ids ∧ row.ackedAtUs = some atUs ∧
      (atUs : ℚ) + age retention ≤ nowUs

/-! ### The invariant -/

/-- Its verdict is not settled. -/
def Open (lane : Lane) (eventId : Text) : Prop :=
  eventId ∈ lane.issued ∧ ∀ ids, .settled ids ∈ lane.history → eventId ∉ ids

end Lane

/-- The ids to be settled are those of answered events. -/
def Settlement.Sound (lane : Lane) (sorted : Settlement) : Prop :=
  ∀ id, id ∈ sorted.deletable ∨ id ∈ sorted.stampable →
    id ∈ lane.issued ∧ Answered lane.history id

/-- What the stage of the running pass has to do with the rows and the history. -/
def PassStage.Sound (lane : Lane) : PassStage → Prop
  | .sending batch _ _ | .awaiting batch _ _ => ∀ row ∈ batch, lane.Open row.eventId
  | .settling batch acks sorted _ => (∀ row ∈ batch, row.eventId ∈ lane.issued) ∧
      (∃ all, .received batch all ∈ lane.history ∧ ∀ ack ∈ acks, ack ∈ all) ∧ sorted.Sound lane
  | .deleting sorted _ | .stamping sorted _ => sorted.Sound lane
  | _ => True

/-- The age the sweep goes by. -/
def wholeAge (retention : Retention) : ℚ := roundHalfUp retention.ms * 1000

/-- A settled verdict's event is not in a later post. -/
def NotAgain (earlier later : Observation) : Prop :=
  ∀ ids batch, earlier = .settled ids → later = .posted batch → ∀ row ∈ batch, row.eventId ∉ ids

namespace Lane

/-- A pending row's verdict is not settled, and a stamped row was seen to be stamped. -/
def RowSound (lane : Lane) (row : OutboxRow) : Prop :=
  match row.ackedAtUs with
  | none => lane.Open row.eventId
  | some atUs => row.eventId ∈ lane.issued ∧
      ∃ ids, .stamped ids atUs ∈ lane.history ∧ row.eventId ∈ ids

structure Sound (lane : Lane) : Prop where
  rows : ∀ row ∈ lane.outbox, lane.RowSound row
  kept : lane.KeepsPending
  settled : ∀ ids, .settled ids ∈ lane.history → ∀ id ∈ ids, id ∈ lane.issued
  once : lane.history.Pairwise NotAgain
  swept : lane.SweepsAfter wholeAge
  stage : ∀ stage, lane.pass = some stage → stage.Sound lane

end Lane

/-! ### Growing histories -/

variable {lane lane' : Lane} {options : LaneOptions}

theorem Answered.mono {history new : List Observation} {eventId : Text}
    (h : Answered history eventId) : Answered (history ++ new) eventId := by
  obtain ⟨batch, acks, hmem, rest⟩ := h
  exact ⟨batch, acks, List.mem_append_left _ hmem, rest⟩

theorem Settlement.Sound.mono {sorted : Settlement} {new : List Observation}
    (h : sorted.Sound lane) (hissued : ∀ id ∈ lane.issued, id ∈ lane'.issued)
    (hhistory : lane'.history = lane.history ++ new) : sorted.Sound lane' := by
  intro id hid
  rw [hhistory]
  exact ⟨hissued id (h id hid).1, (h id hid).2.mono⟩

/-- No id of the lane is settled by these observations. -/
def SettlesNothing (new : List Observation) : Prop := ∀ ids, .settled ids ∉ new

theorem Lane.Open.mono {eventId : Text} (h : lane.Open eventId) (new : List Observation)
    (hissued : ∀ id ∈ lane.issued, id ∈ lane'.issued)
    (hhistory : lane'.history = lane.history ++ new) (hnew : SettlesNothing new) :
    lane'.Open eventId := by
  refine ⟨hissued _ h.1, fun ids hids => ?_⟩
  rw [hhistory] at hids
  rcases List.mem_append.1 hids with hids | hids
  · exact h.2 ids hids
  · exact absurd hids (hnew ids)

theorem PassStage.Sound.mono {stage : PassStage} {new : List Observation} (h : stage.Sound lane)
    (hissued : ∀ id ∈ lane.issued, id ∈ lane'.issued)
    (hhistory : lane'.history = lane.history ++ new) (hnew : SettlesNothing new) :
    stage.Sound lane' := by
  cases stage with
  | sending batch refreshed deferred =>
    exact fun row hrow => (h row hrow).mono _ hissued hhistory hnew
  | awaiting batch refreshed deferred =>
    exact fun row hrow => (h row hrow).mono _ hissued hhistory hnew
  | settling batch acks sorted deferred =>
    obtain ⟨hbatch, ⟨all, hall, hacks⟩, hsorted⟩ := h
    refine ⟨fun row hrow => hissued _ (hbatch row hrow), ⟨all, ?_, hacks⟩,
      hsorted.mono hissued hhistory⟩
    rw [hhistory]
    exact List.mem_append_left _ hall
  | deleting sorted deferred => exact Settlement.Sound.mono h hissued hhistory
  | stamping sorted deferred => exact Settlement.Sound.mono h hissued hhistory
  | sweeping => trivial
  | gating => trivial
  | reading deferred => trivial

/-- A history that grows by sweeps of rows it saw stamped still sweeps late. -/
theorem sweepsAfter_append {age : Retention → ℚ} {new : List Observation}
    (h : lane.SweepsAfter age) (hhistory : lane'.history = lane.history ++ new)
    (hnew : ∀ row (nowUs : ℤ) retention, .swept row nowUs retention ∈ new →
      ∃ ids, ∃ atUs : ℤ, .stamped ids atUs ∈ lane.history ∧ row.eventId ∈ ids ∧
        row.ackedAtUs = some atUs ∧ (atUs : ℚ) + age retention ≤ nowUs) :
    lane'.SweepsAfter age := by
  intro before row nowUs retention after heq
  rw [hhistory] at heq
  rcases List.append_eq_append_iff.1 heq with ⟨more, rfl, hmore⟩ | ⟨rest, hrest, hafter⟩
  · obtain ⟨ids, atUs, hmem, hids⟩ := hnew row nowUs retention
      (hmore ▸ List.mem_append_right _ List.mem_cons_self)
    exact ⟨ids, atUs, List.mem_append_left _ hmem, hids⟩
  · cases rest with
    | nil =>
      obtain ⟨ids, atUs, hmem, hids⟩ := hnew row nowUs retention
        ((List.nil_append new ▸ hafter) ▸ List.mem_cons_self)
      rw [hrest, List.append_nil] at hmem
      exact ⟨ids, atUs, hmem, hids⟩
    | cons first rest =>
      obtain ⟨rfl, -⟩ := List.cons.inj hafter
      exact h before row nowUs retention rest hrest

theorem Lane.RowSound.mono {row : OutboxRow} {new : List Observation} (h : lane.RowSound row)
    (hissued : ∀ id ∈ lane.issued, id ∈ lane'.issued)
    (hhistory : lane'.history = lane.history ++ new) (hnew : SettlesNothing new) :
    lane'.RowSound row := by
  unfold Lane.RowSound at h ⊢
  cases hacked : row.ackedAtUs with
  | none =>
    rw [hacked] at h
    exact Lane.Open.mono h _ hissued hhistory hnew
  | some atUs =>
    rw [hacked] at h
    obtain ⟨hid, ids, hmem, hin⟩ := h
    refine ⟨hissued _ hid, ids, ?_, hin⟩
    rw [hhistory]
    exact List.mem_append_left _ hmem

theorem Lane.RowSound.issued {row : OutboxRow} (h : lane.RowSound row) :
    row.eventId ∈ lane.issued := by
  unfold Lane.RowSound at h
  split at h
  · exact h.1
  · exact h.1

/-- Observations that post only what is open, and nothing beside a settlement. -/
theorem once_append {new : List Observation} (h : lane.Sound)
    (hnew : ∀ batch, .posted batch ∈ new →
      SettlesNothing new ∧ ∀ row ∈ batch, lane.Open row.eventId) :
    (lane.history ++ new).Pairwise NotAgain := by
  refine List.pairwise_append.2 ⟨h.once, List.pairwise_of_forall_mem_list ?_, ?_⟩
  · rintro _ ha _ hb ids batch rfl rfl
    exact absurd ha ((hnew batch hb).1 ids)
  · rintro _ ha _ hb ids batch rfl rfl row hrow
    exact ((hnew batch hb).2 row hrow).2 ids ha

/-- A step that observes neither a settlement nor a sweep. -/
theorem Lane.Sound.grow (h : lane.Sound) (new : List Observation)
    (hissued : ∀ id ∈ lane.issued, id ∈ lane'.issued)
    (hhistory : lane'.history = lane.history ++ new) (hquiet : SettlesNothing new)
    (hsweeps : ∀ row nowUs retention, .swept row nowUs retention ∉ new)
    (hposts : ∀ batch, .posted batch ∈ new → ∀ row ∈ batch, lane.Open row.eventId)
    (hrows : ∀ row ∈ lane'.outbox, row ∈ lane.outbox ∨ lane'.RowSound row)
    (hkept : lane'.KeepsPending)
    (hstage : ∀ stage, lane'.pass = some stage → lane.pass = some stage ∨ stage.Sound lane') :
    lane'.Sound where
  rows row hrow := (hrows row hrow).elim
    (fun hold => (h.rows row hold).mono hissued hhistory hquiet) id
  kept := hkept
  settled ids hids := by
    rw [hhistory] at hids
    rcases List.mem_append.1 hids with hids | hids
    · exact fun id hid => hissued id (h.settled ids hids id hid)
    · exact absurd hids (hquiet ids)
  once := by
    rw [hhistory]
    exact once_append h fun batch hbatch => ⟨hquiet, hposts batch hbatch⟩
  swept := sweepsAfter_append h.swept hhistory fun row nowUs retention hmem =>
    absurd hmem (hsweeps row nowUs retention)
  stage stage hs := (hstage stage hs).elim
    (fun hold => (h.stage stage hold).mono hissued hhistory hquiet) id

/-- A step that touches neither the rows nor the history. -/
theorem Lane.Sound.of_frame (h : lane.Sound) (houtbox : lane'.outbox = lane.outbox)
    (hissued : lane'.issued = lane.issued) (hhistory : lane'.history = lane.history)
    (hstage : ∀ stage, lane'.pass = some stage → lane.pass = some stage ∨ stage.Sound lane') :
    lane'.Sound := by
  refine h.grow [] (fun id hid => hissued ▸ hid) ?_ (fun _ => List.not_mem_nil)
    (fun _ _ _ => List.not_mem_nil) (fun _ hmem => absurd hmem List.not_mem_nil)
    (fun row hrow => .inl (houtbox ▸ hrow)) ?_ hstage
  · rw [hhistory, List.append_nil]
  · unfold Lane.KeepsPending
    rw [houtbox, hhistory]
    exact h.kept

/-! ### The statements -/

/-- A statement that settles answered ids and leaves no pending row of theirs. -/
theorem Lane.Sound.settle (h : lane.Sound) (new : List Observation) {ids : List Text}
    (hissued : lane'.issued = lane.issued) (hhistory : lane'.history = lane.history ++ new)
    (hnew : ∀ seen ∈ new, seen = .settled ids ∨ ∃ atUs, seen = .stamped ids atUs)
    (hids : ∀ id ∈ ids, id ∈ lane.issued ∧ Answered lane.history id)
    (hrows : ∀ row ∈ lane'.outbox, (row ∈ lane.outbox ∧ row.eventId ∉ ids) ∨
      row.eventId ∈ ids ∧ ∃ atUs, row.ackedAtUs = some atUs ∧ .stamped ids atUs ∈ new)
    (hrest : ∀ row ∈ lane.outbox, row.eventId ∉ ids → row ∈ lane'.outbox)
    (hstage : ∀ stage, lane'.pass = some stage → stage.Sound lane') : lane'.Sound := by
  refine ⟨fun row hrow => ?_, fun staged hstaged => ?_, fun ids' hids' => ?_, ?_, ?_, hstage⟩
  · rcases hrows row hrow with ⟨hold, hout⟩ | ⟨hin, atUs, hacked, hmem⟩
    · have hsound := h.rows row hold
      unfold Lane.RowSound at hsound ⊢
      cases hacked : row.ackedAtUs with
      | none =>
        rw [hacked] at hsound
        refine ⟨hissued ▸ hsound.1, fun ids' hids' => ?_⟩
        rw [hhistory] at hids'
        rcases List.mem_append.1 hids' with hids' | hids'
        · exact hsound.2 ids' hids'
        rcases hnew _ hids' with heq | ⟨_, heq⟩
        · exact Observation.settled.inj heq ▸ hout
        · cases heq
      | some atUs =>
        rw [hacked] at hsound
        obtain ⟨hid, ids', hmem, hin⟩ := hsound
        refine ⟨hissued ▸ hid, ids', ?_, hin⟩
        rw [hhistory]
        exact List.mem_append_left _ hmem
    · unfold Lane.RowSound
      rw [hacked, hissued, hhistory]
      exact ⟨(hids _ hin).1, ids, List.mem_append_right _ hmem, hin⟩
  · rw [hhistory] at hstaged ⊢
    have hold : .appended staged ∈ lane.history := by
      rcases List.mem_append.1 hstaged with hold | hseen
      · exact hold
      · rcases hnew _ hseen with heq | ⟨_, heq⟩
        · cases heq
        · cases heq
    rcases h.kept staged hold with hanswered | ⟨row, hrow, hsame, hpending⟩
    · exact .inl hanswered.mono
    by_cases hin : staged.eventId ∈ ids
    · exact .inl (hids _ hin).2.mono
    · exact .inr ⟨row, hrest row hrow (hsame.2.1 ▸ hin), hsame, hpending⟩
  · rw [hissued]
    rw [hhistory] at hids'
    rcases List.mem_append.1 hids' with hids' | hids'
    · exact h.settled ids' hids'
    rcases hnew _ hids' with heq | ⟨_, heq⟩
    · obtain rfl := Observation.settled.inj heq
      exact fun id hid => (hids id hid).1
    · cases heq
  · rw [hhistory]
    refine once_append h fun batch hbatch => ?_
    rcases hnew _ hbatch with heq | ⟨_, heq⟩
    · cases heq
    · cases heq
  · refine sweepsAfter_append h.swept hhistory fun row nowUs retention hmem => ?_
    rcases hnew _ hmem with heq | ⟨_, heq⟩
    · cases heq
    · cases heq

theorem Lane.Sound.enter {stage : PassStage} (h : lane.Sound) (hstage : stage.Sound lane) :
    (lane.enter stage).Sound := by
  refine h.of_frame rfl rfl rfl fun stage' hs => .inr ?_
  obtain rfl := Option.some.inj hs
  exact hstage.mono (fun id hid => hid) (List.append_nil _).symm fun _ => List.not_mem_nil

theorem Lane.Sound.done (h : lane.Sound) : lane.done.Sound :=
  h.of_frame rfl rfl rfl fun _ hs => nomatch hs

/-- A step that ends the pass, or leaves it where nothing is posted or settled. -/
theorem Lane.Sound.quiet (h : lane.Sound) (houtbox : lane'.outbox = lane.outbox)
    (hissued : lane'.issued = lane.issued) (hhistory : lane'.history = lane.history)
    (hstage : ∀ stage, lane'.pass = some stage → lane.pass = some stage ∨ stage = .sweeping ∨
      stage = .gating) : lane'.Sound := by
  refine h.of_frame houtbox hissued hhistory fun stage hs => ?_
  rcases hstage stage hs with hold | rfl | rfl
  · exact .inl hold
  · exact .inr trivial
  · exact .inr trivial

end Events
