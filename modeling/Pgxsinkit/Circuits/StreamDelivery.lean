/-
What a caller of the stream reader can rely on.

The batches, the ends and the retries that a history shows, from what each observation has before it.
-/
import Pgxsinkit.Circuits.StreamSourceRun

namespace Circuits.StreamSource

open Runs

variable {E : Type} {options : StreamSourceOptions E} {w w' : Reader E} {history past : List (Observation E)}

/-! ### The chain of a read -/

/-- Each request asks for the offset of the answer before it, and the batches are the answers in their order, one at
`onBatch` and one ahead of it at most. -/
structure Delivered (options : StreamSourceOptions E) (history : List (Observation E)) : Prop where
  offsets : ((requests history).map ReadPosition.offset).reverse <+:
    options.start.offset :: ((answers history).map ReadResponse.offset).reverse
  batches : (batches history).reverse <+: ((answers history).map ReadResponse.batch).reverse
  ahead : (answers history).length ≤ (StreamSource.batches history).length + 1
  settled : settles history ≤ (StreamSource.batches history).length
  one : (StreamSource.batches history).length ≤ settles history + 1

theorem Delivered.asked (hi : Delivered options past) {position : ReadPosition}
    (h : Allowed options (.asked position) past) : Delivered options (.asked position :: past) := by
  refine ⟨?_, hi.batches, hi.ahead, hi.settled, hi.one⟩
  obtain ⟨-, hlength, hposition⟩ := h
  have hoffsets := hi.offsets
  show (position.offset :: (requests past).map ReadPosition.offset).reverse <+: _
  rw [List.reverse_cons]
  show _ <+: options.start.offset :: ((answers past).map ReadResponse.offset).reverse
  cases hanswers : answers past with
  | nil =>
    rw [hanswers] at hlength hposition
    rw [List.eq_nil_of_length_eq_zero hlength, show position = options.start from hposition]
    exact List.prefix_rfl
  | cons response older =>
    -- the requests so far are one for each answer, and the last answer names the next offset
    rw [hanswers] at hlength hposition hoffsets
    have hchain : options.start.offset :: ((response :: older).map ReadResponse.offset).reverse =
        (options.start.offset :: (older.map ReadResponse.offset).reverse) ++ [response.offset] := by
      rw [List.map_cons, List.reverse_cons, List.cons_append]
    rw [hchain] at hoffsets ⊢
    have hbegins := List.prefix_of_prefix_length_le hoffsets (List.prefix_append _ [response.offset]) (by
      simpa using hlength.le)
    rw [hbegins.eq_of_length_le (by simpa using hlength.ge), hposition.2.2.1]

theorem Delivered.answered (hi : Delivered options past) {response : ReadResponse E}
    (h : Allowed options (.answered response) past) : Delivered options (.answered response :: past) := by
  obtain ⟨hbatches, -⟩ := h
  refine ⟨?_, ?_, ?_, hi.settled, hi.one⟩
  · show _ <+: options.start.offset :: (response.offset :: (answers past).map ReadResponse.offset).reverse
    rw [List.reverse_cons, ← List.cons_append]
    exact hi.offsets.trans (List.prefix_append _ _)
  · show _ <+: (response.batch :: (answers past).map ReadResponse.batch).reverse
    rw [List.reverse_cons]
    exact hi.batches.trans (List.prefix_append _ _)
  · show (answers past).length + 1 ≤ (StreamSource.batches past).length + 1
    rw [hbatches, List.length_map]

theorem Delivered.handed (hi : Delivered options past) {batch : StreamBatch E}
    (h : Allowed options (.handed batch) past) : Delivered options (.handed batch :: past) := by
  obtain ⟨hbatches, hsettled, -⟩ := h
  have hlength : (answers past).length = (StreamSource.batches past).length + 1 := by
    have := congrArg List.length hbatches
    simpa using this.symm
  refine ⟨hi.offsets, ?_, ?_, ?_, ?_⟩
  · show (batch :: StreamSource.batches past).reverse <+: ((answers past).map ReadResponse.batch).reverse
    rw [hbatches]
  · show (answers past).length ≤ (StreamSource.batches past).length + 1 + 1
    omega
  · show settles past ≤ (StreamSource.batches past).length + 1
    omega
  · show (StreamSource.batches past).length + 1 ≤ settles past + 1
    omega

theorem Delivered.settles (hi : Delivered options past) (h : Allowed options .settled past) :
    Delivered options (.settled :: past) := by
  have hsettled : StreamSource.settles past + 1 = (StreamSource.batches past).length := h
  refine ⟨hi.offsets, hi.batches, hi.ahead, ?_, ?_⟩
  · show StreamSource.settles past + 1 ≤ (StreamSource.batches past).length
    omega
  · show (StreamSource.batches past).length ≤ StreamSource.settles past + 1 + 1
    omega

theorem delivered_of_admits (h : Admits (Allowed options) history) : Delivered options history := by
  induction history with
  | nil => exact ⟨List.nil_prefix, List.prefix_rfl, Nat.zero_le _, le_refl 0, Nat.zero_le _⟩
  | cons o past ih =>
    have hi := ih h.2
    cases o with
    | asked position => exact hi.asked h.1
    | answered response => exact hi.answered h.1
    | handed batch => exact hi.handed h.1
    | settled => exact hi.settles h.1
    | _ => exact ⟨hi.offsets, hi.batches, hi.ahead, hi.settled, hi.one⟩

/-! ### What a step shows -/

/-- The answer that `deliver` goes on with, and the call of the token thunk it may make. -/
def Reader.takes (w : Reader E) : ReaderEvent → Option (ReadResponse E × ThunkCall)
  | .deliver thunk =>
    match w.stage with
    | .opened first => some (first, thunk)
    | _ => none
  | .next thunk =>
    match w.stage, w.request with
    | .awaiting, .settled (.ok (some response)) => some (response, thunk)
    | _, _ => none
  | _ => none

/-- The token thunk that `deliver` calls for the request ahead does not close the subscription before it returns. -/
def ClosesAtAwaits (options : StreamSourceOptions E) (w : Reader E) (event : ReaderEvent) : Prop :=
  ∀ p ∈ w.takes event, w.aborted = false → options.isLast p.1 = false → p.2.closes = false

instance (options : StreamSourceOptions E) (w : Reader E) (event : ReaderEvent) :
    Decidable (ClosesAtAwaits options w event) :=
  inferInstanceAs (Decidable (∀ p ∈ w.takes event, w.aborted = false → options.isLast p.1 = false → p.2.closes = false))

def Observation.IsBatch : Observation E → Prop
  | .handed _ => True
  | _ => False

/-- What a step adds to the history. -/
inductive Shows (options : StreamSourceOptions E) (w w' : Reader E) (event : ReaderEvent) : Prop
  | quiet (new : List (Observation E)) (history : w'.history = new ++ w.history) (batches : ∀ o ∈ new, ¬ o.IsBatch)
      (takes : ∀ p ∈ w.takes event, w.aborted = true)
  | last (p : ReadResponse E × ThunkCall) (takes : w.takes event = some p) (aborted : w.aborted = false)
      (isLast : options.isLast p.1 = true) (history : w'.history = .handed p.1.batch :: w.history)
  | ahead (p : ReadResponse E × ThunkCall) (takes : w.takes event = some p) (aborted : w.aborted = false)
      (isLast : options.isLast p.1 = false) (position : ReadPosition) (stops : List (Observation E))
      (isStop : ∀ o ∈ stops, o.IsStop) (closes : Observation.closed ∈ stops ↔ p.2.closes = true)
      (history : w'.history = .handed p.1.batch :: (stops ++ .asked position :: w.history))

theorem round_shows {p : ReadResponse E × ThunkCall} {event : ReaderEvent} (h : w.takes event = some p) :
    Shows options w (w.round options p.1 p.2) event := by
  unfold Reader.round
  split
  · rename_i haborted
    exact .quiet [] rfl nofun fun _ _ => haborted
  split
  · rename_i haborted hlast
    exact .last p h (by simpa using haborted) hlast rfl
  · rename_i haborted hlast
    obtain ⟨stops, hstops, hcloses⟩ := called_stopsTo (w.asks (options.after w.position p.1)) p.2
    have hhistory : ((w.asks (options.after w.position p.1)).called p.2).history =
        stops ++ .asked (options.after w.position p.1) :: w.history := hstops.history
    exact .ahead p h (by simpa using haborted) (by simpa using hlast) (options.after w.position p.1) stops
      hstops.isStop hcloses (congrArg (List.cons (Observation.handed p.1.batch)) hhistory)

/-- A request shows no batch. -/
theorem requestStep_shows {q : Request} {event : RequestEvent} (h : w.requestStep options q event = some w') :
    ∃ new, w'.history = new ++ w.history ∧ ∀ o ∈ new, ¬ o.IsBatch := by
  have hcaught : ∀ error, (w.caught q error).history = w.history := by
    intro error
    unfold Reader.caught
    split
    · rfl
    split <;> rfl
  have hone : ∀ {o : Observation E}, ¬ o.IsBatch → ∀ o' ∈ [o], ¬ o'.IsBatch := by
    intro o ho o' ho'
    rwa [List.mem_singleton.1 ho']
  unfold Reader.requestStep at h
  split at h
  · obtain rfl := Option.some.inj h
    refine ⟨[.sent _, .minted _], rfl, fun o ho => ?_⟩
    rcases List.mem_pair.1 ho with rfl | rfl <;> exact id
  · obtain rfl := Option.some.inj h
    exact ⟨[], rfl, nofun⟩
  · split at h
    · obtain rfl := Option.some.inj h
      exact ⟨[], rfl, nofun⟩
    · split at h
      · obtain rfl := Option.some.inj h
        exact ⟨[], rfl, nofun⟩
      · obtain rfl := Option.some.inj h
        exact ⟨[.refused], rfl, hone id⟩
      · obtain rfl := Option.some.inj h
        exact ⟨[], rfl, nofun⟩
  · obtain rfl := Option.some.inj h
    exact ⟨[], hcaught _, nofun⟩
  · split at h
    · obtain rfl := Option.some.inj h
      exact ⟨[.answered _], rfl, hone id⟩
    · obtain rfl := Option.some.inj h
      exact ⟨[], hcaught _, nofun⟩
    · obtain rfl := Option.some.inj h
      exact ⟨[], hcaught _, nofun⟩
  · obtain rfl := Option.some.inj h
    exact ⟨[], rfl, nofun⟩
  · obtain rfl := Option.some.inj h
    unfold Reader.attempt
    split
    · exact ⟨[], rfl, nofun⟩
    · exact ⟨[], rfl, nofun⟩
  · dsimp only at h
    split at h
    · obtain rfl := Option.some.inj h
      exact ⟨[], rfl, nofun⟩
    · obtain rfl := Option.some.inj h
      exact ⟨[], rfl, nofun⟩
  · split at h
    · obtain rfl := Option.some.inj h
      exact ⟨[], rfl, nofun⟩
    · obtain rfl := Option.some.inj h
      unfold Reader.attempt
      split
      · exact ⟨[.minted _], rfl, hone id⟩
      · refine ⟨[.sent _, .minted _], rfl, fun o ho => ?_⟩
        rcases List.mem_pair.1 ho with rfl | rfl <;> exact id
  · obtain rfl := Option.some.inj h
    exact ⟨[], rfl, nofun⟩
  · cases h

theorem step_shows {event : ReaderEvent} (h : w.step options event = some w') : Shows options w w' event := by
  have hsilent : ∀ {event : ReaderEvent} {u : Reader E}, w.takes event = none → u.history = w.history →
      Shows options w u event := by
    intro event u htakes hhistory
    refine .quiet [] hhistory (fun o ho => absurd ho List.not_mem_nil) fun p hp => ?_
    rw [htakes] at hp
    cases hp
  have hone : ∀ {event : ReaderEvent} {u : Reader E} (o : Observation E), ¬ o.IsBatch → w.takes event = none →
      u.history = o :: w.history → Shows options w u event := by
    intro event u o ho htakes hhistory
    refine .quiet [o] hhistory (fun o' ho' => ?_) fun p hp => ?_
    · rwa [List.mem_singleton.1 ho']
    · rw [htakes] at hp
      cases hp
  have hfailed : ∀ (u : Reader E) error, (u.failed error).history = u.history := by
    intro u error
    unfold Reader.failed
    split
    · rfl
    split <;> rfl
  cases event with
  | request event =>
    simp only [Reader.step] at h
    split at h
    · obtain ⟨new, hhistory, hnew⟩ := requestStep_shows h
      exact .quiet new hhistory hnew fun p hp => by cases hp
    · cases h
  | «open» =>
    simp only [Reader.step] at h
    split at h
    · exact hsilent rfl (Option.some.inj h ▸ rfl)
    · exact hsilent rfl (Option.some.inj h ▸ rfl)
    · exact hsilent rfl (Option.some.inj h ▸ rfl)
    · cases h
  | deliver thunk =>
    simp only [Reader.step] at h
    split at h
    · rename_i first hstage
      obtain rfl := Option.some.inj h
      refine round_shows (p := (first, thunk)) ?_
      simp only [Reader.takes, hstage]
    · cases h
  | applied =>
    simp only [Reader.step] at h
    split at h
    · exact hone .settled id rfl (Option.some.inj h ▸ rfl)
    · cases h
  | applyThrew error =>
    simp only [Reader.step] at h
    split at h
    · obtain rfl := Option.some.inj h
      exact hone .settled id rfl (hfailed _ _)
    · cases h
  | next thunk =>
    simp only [Reader.step] at h
    split at h
    · rename_i response hstage hrequest
      obtain rfl := Option.some.inj h
      refine round_shows (p := (response, thunk)) ?_
      simp only [Reader.takes, hstage, hrequest]
    · rename_i hstage hrequest
      obtain rfl := Option.some.inj h
      refine hsilent ?_ rfl
      simp only [Reader.takes, hstage, hrequest]
    · rename_i error hstage hrequest
      obtain rfl := Option.some.inj h
      refine hsilent ?_ (hfailed _ _)
      simp only [Reader.takes, hstage, hrequest]
    · cases h
  | report =>
    simp only [Reader.step] at h
    split at h
    · obtain rfl := Option.some.inj h
      unfold Reader.reportEnd
      dsimp only
      split
      · exact hsilent rfl rfl
      · exact hone (.ended _) id rfl rfl
    · cases h
  | close =>
    simp only [Reader.step] at h
    split at h
    · cases h
    · cases h
    · obtain rfl := Option.some.inj h
      exact hone .closed id rfl rfl
  | abort =>
    simp only [Reader.step] at h
    split at h
    · cases h
    · obtain rfl := Option.some.inj h
      exact hone .signalled id rfl rfl

theorem Shows.suffix {event : ReaderEvent} (h : Shows options w w' event) : w.history <:+ w'.history := by
  cases h with
  | quiet new hhistory => exact ⟨new, hhistory.symm⟩
  | last p _ _ _ hhistory => exact ⟨[.handed p.1.batch], hhistory.symm⟩
  | ahead p _ _ _ position stops _ _ hhistory =>
    refine ⟨.handed p.1.batch :: (stops ++ [.asked position]), ?_⟩
    rw [hhistory, List.cons_append, List.append_assoc]
    rfl

/-! ### The caller's stop -/

theorem admits_beforeClose_append {new : List (Observation E)} (hnew : ∀ o ∈ new, ¬ o.IsBatch)
    (h : Admits BeforeClose past) : Admits BeforeClose (new ++ past) := by
  induction new with
  | nil => exact h
  | cons o new ih =>
    refine ⟨?_, ih fun o' ho' => hnew o' (List.mem_cons_of_mem _ ho')⟩
    rintro batch rfl
    exact absurd trivial (hnew _ List.mem_cons_self)

/-- A step hands a batch over after `close` exactly when the thunk it calls closes the subscription. -/
theorem beforeClose_step (hi : w.Inv options) (hg : Admits BeforeClose w.history) {event : ReaderEvent}
    (h : w.step options event = some w') : Admits BeforeClose w'.history ↔ ClosesAtAwaits options w event := by
  have hopen : w.aborted = false → .closed ∉ w.history := by
    intro haborted hclosed
    have hhalted := hi.closes (hi.closed.1 hclosed)
    rw [haborted] at hhalted
    cases hhalted
  cases step_shows h with
  | quiet new hhistory hbatches htakes =>
    rw [hhistory]
    refine iff_of_true (admits_beforeClose_append hbatches hg) fun p hp haborted => ?_
    rw [htakes p hp] at haborted
    cases haborted
  | last p htakes haborted hlast hhistory =>
    rw [hhistory]
    refine iff_of_true ⟨fun _ _ => hopen haborted, hg⟩ fun p' hp' _ hnotLast => ?_
    obtain rfl := Option.some.inj (htakes.symm.trans hp')
    rw [hlast] at hnotLast
    cases hnotLast
  | ahead p htakes haborted hlast position stops hstops hcloses hhistory =>
    rw [hhistory]
    have hasked : Admits BeforeClose (.asked position :: w.history) := ⟨nofun, hg⟩
    have hquiet : ∀ o ∈ stops, ¬ o.IsBatch := by
      intro o ho hbatch
      have hstop := hstops o ho
      cases o with
      | handed _ => exact hstop
      | _ => exact hbatch
    have hmem : .closed ∈ stops ++ .asked position :: w.history ↔ p.2.closes = true := by
      rw [List.mem_append, hcloses]
      exact or_iff_left fun hclosed => hopen haborted ((List.mem_cons.1 hclosed).resolve_left nofun)
    constructor
    · rintro ⟨hbefore, -⟩ p' hp' - -
      obtain rfl := Option.some.inj (htakes.symm.trans hp')
      have hnot := hbefore _ rfl
      rw [hmem] at hnot
      simpa using hnot
    · intro hawaits
      refine ⟨fun _ _ => ?_, admits_beforeClose_append hquiet hasked⟩
      rw [hmem, hawaits p htakes haborted hlast]
      exact Bool.false_ne_true

/-! ### Every run -/

/-- In every run the batches are the answers of one chain of requests, each handed over once, in order and after the one
before it has settled, with one answer ahead at most and none after the end; and none is handed over after `close`
exactly when no token thunk that `deliver` calls closes the subscription before it returns. -/
theorem reader_delivers (options : StreamSourceOptions E) (signalAborted : Bool) {events : List ReaderEvent}
    (hr : run (Reader.step options) (.initial options signalAborted) events = some w) :
    Delivered options w.history ∧
      Admits (fun o past => ∀ batch error, o = .handed batch → .ended error ∉ past) w.history ∧
      (Admits BeforeClose w.history ↔
        Meets (Reader.step options) (ClosesAtAwaits options) (.initial options signalAborted) events) := by
  have hadmits := (inv_run hr).admits
  refine ⟨delivered_of_admits hadmits, hadmits.mono ?_, ?_⟩
  · rintro _ past hallowed batch error rfl
    exact hallowed.2.2 error
  · have hinv : ∀ s e s', s.Inv options → Reader.step options s e = some s' → s'.Inv options :=
      fun _ _ _ hi hs => hi.step hs
    have hstart : Admits BeforeClose (Reader.initial options signalAborted).history := by
      cases signalAborted with
      | false => exact ⟨nofun, trivial⟩
      | true => exact ⟨nofun, nofun, trivial⟩
    exact holds_iff_meets hinv (fun _ _ _ hs hg => hg.suffix (step_shows hs).suffix)
      (fun _ _ _ hi hg hs => beforeClose_step hi hg hs) (inv_initial options signalAborted) hstart hr

/-! ### A read of two answers -/

def twoAnswers : StreamSourceOptions Unit := ⟨[], none, none, true, ReadPosition.offset, fun _ => some [()]⟩

def refusedOnce : List ReaderEvent :=
  [.request (.tokenGiven [0x74]), .request (.responded ⟨401, none, false, none, none⟩), .request (.reasonRead (some [])),
    .request (.reminted (some [0x75]))]

def answeredAt (offset : UInt16) (closed : Option Text) : List ReaderEvent :=
  [.request (.responded ⟨200, some [offset], true, none, closed⟩), .request (.bodyRead (some [0x5b, 0x5d]))]

/-- The second answer, which closes the stream, arrives while the first is applied. -/
def readToTheEnd : List ReaderEvent :=
  refusedOnce ++ answeredAt 0x41 none ++ [.open, .deliver ⟨false, false⟩, .request (.tokenGiven [0x76])] ++
    answeredAt 0x42 (some [0x54, 0x72, 0x75, 0x65]) ++ [.applied, .next ⟨false, false⟩, .applied, .report]

theorem reader_delivers_two : ∃ w, run (Reader.step twoAnswers) (.initial twoAnswers false) readToTheEnd = some w ∧
    (batches w.history).map StreamBatch.offset = [[0x42], [0x41]] ∧ Delivered twoAnswers w.history ∧
    (Admits BeforeClose w.history ↔
      Meets (Reader.step twoAnswers) (ClosesAtAwaits twoAnswers) (.initial twoAnswers false) readToTheEnd) := by
  refine ⟨_, rfl, rfl, ?_⟩
  have hdelivers := reader_delivers twoAnswers false (show run _ _ readToTheEnd = some _ from rfl)
  exact ⟨hdelivers.1, hdelivers.2.2⟩

/-- In every run the end is reported once at most, not after `close`, and as `null` without the caller's signal only
when the batch of a last response has settled, which in a live read is a closed one. -/
theorem reader_ends (options : StreamSourceOptions E) (signalAborted : Bool) {events : List ReaderEvent}
    (hr : run (Reader.step options) (.initial options signalAborted) events = some w) :
    Admits (fun o past => ∀ error, o = .ended error → .closed ∉ past ∧ (∀ error, .ended error ∉ past) ∧
      (error = none → .signalled ∉ past → ∃ response older, answers past = response :: older ∧
        (response.closed = true ∨ options.isLive = false ∧ response.upToDate = true) ∧
        batches past = (answers past).map ReadResponse.batch ∧ settles past = (batches past).length)) w.history := by
  refine (inv_run hr).admits.mono ?_
  rintro _ past hallowed error rfl
  obtain ⟨honce, hclosed, hnull⟩ := hallowed
  refine ⟨hclosed, honce, fun hnone hsignalled => ?_⟩
  obtain ⟨⟨response, hhead, hlast, hbatches⟩, hsettled⟩ := hnull hnone hsignalled
  obtain ⟨older, hanswers⟩ : ∃ older, answers past = response :: older := by
    cases hlist : answers past with
    | nil =>
      rw [hlist] at hhead
      cases hhead
    | cons first older =>
      rw [hlist] at hhead
      obtain rfl := Option.some.inj hhead
      exact ⟨older, rfl⟩
  refine ⟨response, older, hanswers, ?_, hbatches, hsettled⟩
  simpa [StreamSourceOptions.isLast] using hlast

theorem reader_ends_two : ∃ w past, run (Reader.step twoAnswers) (.initial twoAnswers false) readToTheEnd = some w ∧
    w.history = .ended none :: past ∧ .closed ∉ past ∧ ∀ error, .ended error ∉ past := by
  refine ⟨_, _, rfl, rfl, ?_⟩
  have hends := reader_ends twoAnswers false (show run _ _ readToTheEnd = some _ from rfl)
  exact ⟨(hends.1 none rfl).1, (hends.1 none rfl).2.1⟩

/-- In every run a request goes out with a token it has been given for that, and not after two refusals; and no answer
is taken that brings nothing, stays at its offset and is not at the tail, which the next request would ask for again. -/
theorem reader_retries (options : StreamSourceOptions E) (signalAborted : Bool) {events : List ReaderEvent}
    (hr : run (Reader.step options) (.initial options signalAborted) events = some w) :
    Admits (fun o past => (∀ authorization, o = .sent authorization → refusals past ≤ 1 ∧
        ∃ token, past.head? = some (.minted token) ∧ authorization = bearer token) ∧
      ∀ response, o = .answered response → ∀ position ∈ (requests past).head?, response.envelopes ≠ [] ∨
        response.offset ≠ position.offset ∨ response.upToDate = true ∨ response.closed = true) w.history := by
  refine (inv_run hr).admits.mono ?_
  intro o past hallowed
  constructor
  · rintro authorization rfl
    exact hallowed
  · rintro response rfl
    exact hallowed.2.2

theorem reader_retries_once : ∃ w past, run (Reader.step twoAnswers) (.initial twoAnswers false) refusedOnce = some w ∧
    w.history = .sent (bearer [0x75]) :: past ∧ refusals past ≤ 1 := by
  refine ⟨_, _, rfl, rfl, ?_⟩
  have hretries := reader_retries twoAnswers false (show run _ _ refusedOnce = some _ from rfl)
  exact (hretries.1.1 _ rfl).1

end Circuits.StreamSource
