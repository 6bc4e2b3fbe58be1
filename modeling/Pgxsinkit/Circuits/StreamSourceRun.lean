/-
What a run of the stream reader shows.

`Allowed` says of each observation what came before it.  The invariant ties the two processes to the history: the
batches handed over are those of the answers, but for one that has been fetched ahead.
-/
import Pgxsinkit.Circuits.StreamSource

namespace Circuits.StreamSource

open Runs

variable {E : Type}

/-! ### Histories -/

/-- The requests, the latest first. -/
def requests : List (Observation E) → List ReadPosition
  | [] => []
  | .asked position :: past => position :: requests past
  | _ :: past => requests past

def answers : List (Observation E) → List (ReadResponse E)
  | [] => []
  | .answered response :: past => response :: answers past
  | _ :: past => answers past

def batches : List (Observation E) → List (StreamBatch E)
  | [] => []
  | .handed batch :: past => batch :: batches past
  | _ :: past => batches past

/-- The batches that `onBatch` is done with. -/
def settles : List (Observation E) → ℕ
  | [] => 0
  | .settled :: past => settles past + 1
  | _ :: past => settles past

/-- The token rejections of the last request. -/
def refusals : List (Observation E) → ℕ
  | [] => 0
  | .asked _ :: _ => 0
  | .refused :: past => refusals past + 1
  | _ :: past => refusals past

variable (options : StreamSourceOptions E)

/-- The last batch of the read has been handed over. -/
def Exhausted (past : List (Observation E)) : Prop :=
  ∃ response ∈ (answers past).head?, options.isLast response = true ∧ batches past = (answers past).map ReadResponse.batch

/-- What comes before an observation. -/
def Allowed : Observation E → List (Observation E) → Prop
  | .asked position, past =>
    settles past = (batches past).length ∧ (requests past).length = (answers past).length ∧
      match answers past with
      | [] => position = options.start
      | response :: older => batches past = older.map ReadResponse.batch ∧ options.isLast response = false ∧
          position.offset = response.offset ∧ position.longPoll = (options.isLive && response.upToDate)
  | .sent authorization, past =>
    refusals past ≤ 1 ∧ ∃ token, past.head? = some (.minted token) ∧ authorization = bearer token
  | .answered response, past =>
    batches past = (answers past).map ReadResponse.batch ∧ (requests past).length = (answers past).length + 1 ∧
      ∀ position ∈ (requests past).head?, response.envelopes ≠ [] ∨ response.offset ≠ position.offset ∨
        response.upToDate = true ∨ response.closed = true
  | .handed batch, past =>
    batch :: batches past = (answers past).map ReadResponse.batch ∧ settles past = (batches past).length ∧
      ∀ error, .ended error ∉ past
  | .settled, past => settles past + 1 = (batches past).length
  | .ended error, past =>
    (∀ error, .ended error ∉ past) ∧ .closed ∉ past ∧
      (error = none → .signalled ∉ past → Exhausted options past ∧ settles past = (batches past).length)
  | _, _ => True

/-- The batch is not handed over after `close`. -/
def BeforeClose (observation : Observation E) (past : List (Observation E)) : Prop :=
  ∀ batch, observation = .handed batch → .closed ∉ past

/-! ### The invariant -/

/-- The rejections of a request are as many as its place in the loop admits. -/
def Request.Refused (request : Request) (refusals : ℕ) : Prop :=
  match request.point with
  | .failing response =>
    refusals ≤ request.recovering.toNat + if classifyStatus response.status = .tokenRejected then 1 else 0
  | .reminting _ => refusals ≤ 1 ∧ request.recovering = true
  | _ => refusals ≤ request.recovering.toNat

/-- Of the request that began last: it is the next of the chain, or it has been answered. -/
def RequestState.Follows (request : RequestState E) (history : List (Observation E)) : Prop :=
  match request with
  | .running request => (requests history).head? = some request.position ∧
      (requests history).length = (answers history).length + 1 ∧
      batches history = (answers history).map ReadResponse.batch ∧ request.Refused (refusals history)
  | .settled (.ok (some response)) => (requests history).length = (answers history).length ∧
      (answers history).head? = some response
  | .settled _ => (requests history).length = (answers history).length + 1 ∧
      batches history = (answers history).map ReadResponse.batch

/-- A response that has arrived ahead is the one answer that is not handed over. -/
def Fetched (request : RequestState E) (history : List (Observation E)) : Prop :=
  ∀ response, request = .settled (.ok (some response)) → ∃ older, answers history = response :: older ∧
    batches history = older.map ReadResponse.batch

def Stopped (history : List (Observation E)) : Prop := .closed ∈ history ∨ .signalled ∈ history

def Stage.Follows (request : RequestState E) (history : List (Observation E)) : Stage E → Prop
  | .opening => Fetched request history ∧ batches history = [] ∧ settles history = 0
  | .opened first => Fetched request history ∧ request = .settled (.ok (some first)) ∧ batches history = [] ∧
      settles history = 0
  | .rejected _ => (∃ outcome, request = .settled outcome) ∧ batches history = [] ∧ settles history = 0
  | .applying response ahead => settles history + 1 = (batches history).length ∧
      if ahead then Fetched request history
      else request = .settled (.ok (some response)) ∧ options.isLast response = true ∧
        batches history = (answers history).map ReadResponse.batch
  | .awaiting => Fetched request history ∧ settles history = (batches history).length
  | .returning error => settles history = (batches history).length ∧
      (error = none → Stopped history ∨ ∃ response, request = .settled (.ok (some response)) ∧
        options.isLast response = true ∧ batches history = (answers history).map ReadResponse.batch)
  | .finished => settles history = (batches history).length

/-- A stage after which `deliver` does nothing more. -/
def Stage.IsDone : Stage E → Prop
  | .returning (some _) | .finished => True
  | _ => False

structure Reader.Inv (w : Reader E) : Prop where
  admits : Admits (Allowed options) w.history
  request : w.request.Follows w.history
  stage : w.stage.Follows options w.request w.history
  closed : .closed ∈ w.history ↔ w.closedByCaller = true
  ended : (∃ error, .ended error ∈ w.history) ↔ w.endReported = true
  last : w.endReported = true → w.stage = .finished
  aborted : w.aborted = true → Stopped w.history ∨ w.stage.IsDone
  closes : w.closedByCaller = true → w.aborted = true
  stopped : w.request = .settled (.ok none) → w.aborted = true

/-! ### Observations that a process leaves alone -/

variable {options} {w w' : Reader E} {history past new : List (Observation E)}

/-- What only a request shows, but for an answer. -/
def Observation.IsAttempt : Observation E → Prop
  | .minted _ | .sent _ | .refused => True
  | _ => False

def Observation.IsStop : Observation E → Prop
  | .closed | .signalled => True
  | _ => False

/-- Observations that no list of a history has. -/
def Silent (new : List (Observation E)) : Prop := ∀ o ∈ new, o.IsAttempt ∨ o.IsStop

theorem Silent.lists (h : Silent new) (past : List (Observation E)) :
    requests (new ++ past) = requests past ∧ answers (new ++ past) = answers past ∧
      batches (new ++ past) = batches past ∧ settles (new ++ past) = settles past := by
  induction new with
  | nil => exact ⟨rfl, rfl, rfl, rfl⟩
  | cons o new ih =>
    have hrest := ih fun o' ho' => h o' (List.mem_cons_of_mem _ ho')
    cases o with
    | minted _ => exact hrest
    | sent _ => exact hrest
    | refused => exact hrest
    | closed => exact hrest
    | signalled => exact hrest
    | _ => exact absurd (h _ List.mem_cons_self) (by simp [Observation.IsAttempt, Observation.IsStop])

theorem silent_nil : Silent ([] : List (Observation E)) := nofun

theorem silent_attempt {o : Observation E} (h : o.IsAttempt) : Silent [o] := by
  intro o' ho'
  obtain rfl := List.mem_singleton.1 ho'
  exact .inl h

/-! ### Steps of a request -/

theorem Stage.Follows.of_running {stage : Stage E} {q : Request} {request : RequestState E}
    (hs : stage.Follows options (.running q) past) (hb : batches history = batches past)
    (hsettles : settles history = settles past) (hstops : Stopped past → Stopped history)
    (hfetched : Fetched request history) : stage.Follows options request history := by
  cases stage with
  | opening => exact ⟨hfetched, hb ▸ hs.2.1, hsettles ▸ hs.2.2⟩
  | opened first => exact absurd hs.2.1 nofun
  | rejected error =>
    obtain ⟨outcome, houtcome⟩ := hs.1
    cases houtcome
  | applying response ahead =>
    cases ahead with
    | true => exact ⟨by rw [hsettles, hb]; exact hs.1, hfetched⟩
    | false => exact absurd hs.2.1 nofun
  | awaiting => exact ⟨hfetched, by rw [hsettles, hb]; exact hs.2⟩
  | returning error =>
    refine ⟨by rw [hsettles, hb]; exact hs.1, fun hnone => ?_⟩
    rcases hs.2 hnone with hstopped | ⟨response, hsettled, -⟩
    · exact .inl (hstops hstopped)
    · cases hsettled
  | finished =>
    show settles history = (batches history).length
    rw [hsettles, hb]
    exact hs

theorem mem_append_of_ne {o : Observation E} (hne : ∀ o' ∈ new, o' ≠ o) : o ∈ new ++ past ↔ o ∈ past := by
  rw [List.mem_append]
  exact ⟨fun h => h.elim (fun h => absurd rfl (hne o h)) id, .inr⟩

/-- A request goes on, and what it shows ends nothing. -/
theorem Reader.Inv.of_request (hi : w.Inv options) {q : Request} (hrun : w.request = .running q)
    {request : RequestState E} (new : List (Observation E))
    (hnew : ∀ o ∈ new, o.IsAttempt ∨ ∃ response, o = .answered response)
    (hadmits : Admits (Allowed options) (new ++ w.history)) (hfollows : request.Follows (new ++ w.history))
    (hfetched : Fetched request (new ++ w.history)) (hstopped : request = .settled (.ok none) → w.aborted = true) :
    ({ w with request, history := new ++ w.history } : Reader E).Inv options := by
  have hlists : batches (new ++ w.history) = batches w.history ∧ settles (new ++ w.history) = settles w.history := by
    clear hadmits hfollows hfetched
    induction new with
    | nil => exact ⟨rfl, rfl⟩
    | cons o new ih =>
      have hrest := ih fun o' ho' => hnew o' (List.mem_cons_of_mem _ ho')
      rcases hnew o List.mem_cons_self with ho | ⟨response, rfl⟩
      · cases o with
        | minted _ => exact hrest
        | sent _ => exact hrest
        | refused => exact hrest
        | _ => exact absurd ho id
      · exact hrest
  have hne : ∀ o ∈ new, o ≠ .closed ∧ o ≠ .signalled ∧ ∀ error, o ≠ .ended error := by
    intro o ho
    rcases hnew o ho with hattempt | ⟨response, rfl⟩
    · refine ⟨?_, ?_, fun error => ?_⟩ <;> rintro rfl <;> exact hattempt
    · exact ⟨nofun, nofun, nofun⟩
  have hclosed : .closed ∈ new ++ w.history ↔ .closed ∈ w.history := mem_append_of_ne fun o ho => (hne o ho).1
  have hsignalled : .signalled ∈ new ++ w.history ↔ .signalled ∈ w.history :=
    mem_append_of_ne fun o ho => (hne o ho).2.1
  have hstops : Stopped w.history → Stopped (new ++ w.history) := Or.imp hclosed.2 hsignalled.2
  refine ⟨hadmits, hfollows, ?_, hclosed.trans hi.closed, ?_, hi.last, ?_, hi.closes, hstopped⟩
  · have hs := hi.stage
    rw [hrun] at hs
    exact hs.of_running hlists.1 hlists.2 hstops hfetched
  · rw [← hi.ended]
    exact exists_congr fun error => mem_append_of_ne fun o ho => (hne o ho).2.2 error
  · intro haborted
    exact (hi.aborted haborted).imp_left hstops

theorem fetched_running {q : Request} : Fetched (.running q) history := nofun

theorem fetched_of_running {request : RequestState E} {q : Request} (h : request = .running q) :
    Fetched request history := h ▸ fetched_running

/-- A request stays in its loop. -/
theorem Reader.Inv.goes_on (hi : w.Inv options) {q q' : Request} (hrun : w.request = .running q)
    (hposition : q'.position = q.position) (new : List (Observation E)) (hnew : ∀ o ∈ new, o.IsAttempt)
    (hadmits : Admits (Allowed options) w.history → Admits (Allowed options) (new ++ w.history))
    (hrefused : q.Refused (refusals w.history) → q'.Refused (refusals (new ++ w.history))) :
    ({ w with request := .running q', history := new ++ w.history } : Reader E).Inv options := by
  have hfollows := hi.request
  rw [hrun] at hfollows
  obtain ⟨hhead, hlength, hb, hrefusals⟩ := hfollows
  obtain ⟨hr, ha, hb', -⟩ := Silent.lists (fun o ho => .inl (hnew o ho)) w.history
  refine hi.of_request hrun new (fun o ho => .inl (hnew o ho)) (hadmits hi.admits) ?_ fetched_running nofun
  refine ⟨?_, ?_, ?_, hrefused hrefusals⟩
  · rw [hr, hhead, hposition]
  · rw [hr, ha, hlength]
  · rw [hb', ha, hb]

/-- A request is over without an answer. -/
theorem Reader.Inv.gives_up (hi : w.Inv options) {q : Request} (hrun : w.request = .running q)
    (outcome : Except Thrown (Option (ReadResponse E))) (new : List (Observation E)) (hnew : ∀ o ∈ new, o.IsAttempt)
    (hadmits : Admits (Allowed options) w.history → Admits (Allowed options) (new ++ w.history))
    (hnone : ∀ response, outcome ≠ .ok (some response)) (hstopped : outcome = .ok none → w.aborted = true) :
    ({ w with request := .settled outcome, history := new ++ w.history } : Reader E).Inv options := by
  have hfollows := hi.request
  rw [hrun] at hfollows
  obtain ⟨-, hlength, hb, -⟩ := hfollows
  obtain ⟨hr, ha, hb', -⟩ := Silent.lists (fun o ho => .inl (hnew o ho)) w.history
  have hlist : (requests (new ++ w.history)).length = (answers (new ++ w.history)).length + 1 ∧
      batches (new ++ w.history) = (answers (new ++ w.history)).map ReadResponse.batch := by
    rw [hr, ha, hb']
    exact ⟨hlength, hb⟩
  refine hi.of_request hrun new (fun o ho => .inl (hnew o ho)) (hadmits hi.admits) ?_ ?_ ?_
  · cases outcome with
    | error error => exact hlist
    | ok answer =>
      cases answer with
      | none => exact hlist
      | some response => exact absurd rfl (hnone response)
  · intro response hresponse
    exact absurd (RequestState.settled.inj hresponse) (hnone response)
  · intro h
    exact hstopped (RequestState.settled.inj h)

/-- The head of the loop: the reader has been stopped, or the request asks for a token or goes out with the one it
was handed. -/
theorem Reader.Inv.attempt (hi : w.Inv options) {q : Request} (hrun : w.request = .running q)
    (hq : ∀ n, q.Refused n → n ≤ q.recovering.toNat) : (w.attempt q none).Inv options := by
  unfold Reader.attempt
  split
  · rename_i haborted
    exact hi.gives_up hrun (.ok none) [] nofun id nofun fun _ => haborted
  · refine hi.goes_on hrun ?_ [] nofun id fun hrefused => hq _ hrefused
    rfl

theorem Reader.Inv.caught (hi : w.Inv options) {q : Request} (hrun : w.request = .running q)
    (hq : ∀ n, q.Refused n → n ≤ q.recovering.toNat) (error : Option StreamReadError) :
    (w.caught q error).Inv options := by
  unfold Reader.caught
  split
  · rename_i haborted
    exact hi.gives_up hrun (.ok none) [] nofun id nofun fun _ => haborted
  · cases error with
    | some error => exact hi.gives_up hrun (.error (.streamRead error)) [] nofun id nofun nofun
    | none =>
      refine hi.goes_on hrun ?_ [] nofun id fun hrefused => hq _ hrefused
      rfl

theorem isAttempt_of_mem {o : Observation E} (h : o.IsAttempt) : ∀ o' ∈ [o], o'.IsAttempt := by
  intro o' ho'
  rwa [List.mem_singleton.1 ho']

/-- A request goes out with the token it has just been given. -/
theorem admits_sent {token : Text} (hrefusals : refusals history ≤ 1) (h : Admits (Allowed options) history) :
    Admits (Allowed options) (.sent (bearer token) :: .minted token :: history) :=
  ⟨⟨hrefusals, token, rfl, rfl⟩, trivial, h⟩

theorem Request.Refused.le {q : Request} {n : ℕ} (h : q.Refused n) (hpoint : ∀ response, q.point ≠ .failing response) :
    n ≤ 1 := by
  have hflag : q.recovering.toNat ≤ 1 := Bool.toNat_le _
  unfold Request.Refused at h
  split at h
  · rename_i response hfailing
    exact absurd hfailing (hpoint response)
  · exact h.1
  · exact h.trans hflag

/-- A retry with the token that `onTokenRejected` answered with. -/
theorem Reader.Inv.retries (hi : w.Inv options) {q : Request} (hrun : w.request = .running q) {failure : StreamReadError}
    (hpoint : q.point = .reminting failure) (token : Text) :
    ((w.record (.minted token)).attempt q (some (bearer token))).Inv options := by
  have hrefused := hi.request
  rw [hrun] at hrefused
  have hrefusals : q.Refused (refusals w.history) := hrefused.2.2.2
  have hle : refusals w.history ≤ 1 := hrefusals.le (by rw [hpoint]; exact nofun)
  unfold Reader.attempt
  split
  · rename_i haborted
    exact hi.gives_up hrun (.ok none) [.minted token] (isAttempt_of_mem trivial) (fun h => ⟨trivial, h⟩) nofun
      fun _ => haborted
  · refine hi.goes_on hrun ?_ [.sent (bearer token), .minted token] ?_ (admits_sent hle) fun hrefused => ?_
    · rfl
    · intro o ho
      rcases List.mem_pair.1 ho with rfl | rfl <;> trivial
    · have hflag : q.recovering = true := by
        rw [Request.Refused, hpoint] at hrefused
        exact hrefused.2
      show refusals w.history ≤ q.recovering.toNat
      rw [hflag]
      exact hle

/-- An answer comes to the request that was sent last, and is one ahead. -/
theorem Reader.Inv.answer (hi : w.Inv options) {q : Request} (hrun : w.request = .running q)
    {response : Response} {body : Option Text} {answer : ReadResponse E}
    (hread : readResponse options.jsonArray response body (options.requestUrl q.position) q.position.offset =
      .ok answer) : ((w.settle (.ok (some answer))).record (.answered answer)).Inv options := by
  have hfollows := hi.request
  rw [hrun] at hfollows
  obtain ⟨hhead, hlength, hb, -⟩ := hfollows
  have hmoves := (readResponse_moves hread).2
  refine hi.of_request hrun [.answered answer] (fun o ho => .inr ⟨answer, List.mem_singleton.1 ho⟩) ?_ ?_ ?_ nofun
  · refine ⟨⟨hb, hlength, fun position hposition => ?_⟩, hi.admits⟩
    obtain rfl := Option.some.inj (hhead.symm.trans hposition)
    exact hmoves
  · exact ⟨hlength, rfl⟩
  · intro other hother
    obtain rfl := Option.some.inj (Except.ok.inj (RequestState.settled.inj hother))
    exact ⟨answers w.history, rfl, hb⟩

theorem Reader.Inv.requestStep (hi : w.Inv options) {q : Request} (hrun : w.request = .running q)
    {event : RequestEvent} (h : w.requestStep options q event = some w') : w'.Inv options := by
  have hrefused : q.Refused (refusals w.history) := by
    have hfollows := hi.request
    rw [hrun] at hfollows
    exact hfollows.2.2.2
  unfold Reader.requestStep at h
  split at h
  · -- the token thunk has answered
    rename_i token hpoint
    obtain rfl := Option.some.inj h
    refine hi.goes_on hrun ?_ [.sent (bearer token), .minted token] ?_
      (admits_sent (hrefused.le (by rw [hpoint]; exact nofun))) fun hrefused => ?_
    · rfl
    · intro o ho
      rcases List.mem_pair.1 ho with rfl | rfl <;> trivial
    · rw [Request.Refused, hpoint] at hrefused
      exact hrefused
  · obtain rfl := Option.some.inj h
    exact hi.gives_up hrun (.error _) [] nofun id nofun nofun
  · rename_i response hpoint
    rw [Request.Refused, hpoint] at hrefused
    split at h
    · obtain rfl := Option.some.inj h
      refine hi.goes_on hrun ?_ [] nofun id fun _ => hrefused
      rfl
    · -- a refusal counts before the handler is asked about it
      split at h
      · obtain rfl := Option.some.inj h
        refine hi.goes_on hrun ?_ [] nofun id fun _ => hrefused
        rfl
      · rename_i hverdict
        obtain rfl := Option.some.inj h
        refine hi.goes_on hrun ?_ [.refused] (isAttempt_of_mem trivial) (fun h => ⟨trivial, h⟩) fun _ => ?_
        · rfl
        · show refusals w.history + 1 ≤ _
          rw [if_pos hverdict]
          exact Nat.add_le_add_right hrefused 1
      · obtain rfl := Option.some.inj h
        refine hi.goes_on hrun ?_ [] nofun id fun _ => ?_
        · rfl
        · exact hrefused.trans (Nat.le_add_right _ _)
  · rename_i error hpoint
    obtain rfl := Option.some.inj h
    refine hi.caught hrun (fun n hn => ?_) _
    rwa [Request.Refused, hpoint] at hn
  · rename_i response body hpoint
    have hloop : ∀ n, q.Refused n → n ≤ q.recovering.toNat := by
      intro n hn
      rwa [Request.Refused, hpoint] at hn
    split at h
    · rename_i answer hread
      obtain rfl := Option.some.inj h
      exact hi.answer hrun hread
    · obtain rfl := Option.some.inj h
      exact hi.caught hrun hloop _
    · obtain rfl := Option.some.inj h
      exact hi.caught hrun hloop _
  · rename_i hpoint
    obtain rfl := Option.some.inj h
    rw [Request.Refused, hpoint] at hrefused
    refine hi.goes_on hrun ?_ [] nofun id fun _ => hrefused
    rfl
  · rename_i hpoint
    obtain rfl := Option.some.inj h
    refine hi.attempt hrun fun n hn => ?_
    rwa [Request.Refused, hpoint] at hn
  · rename_i response body hpoint
    dsimp only at h
    split at h
    · -- the handler asks, which it does once
      rename_i hasks
      obtain rfl := Option.some.inj h
      simp only [asksForToken, Bool.and_eq_true, Bool.not_eq_true', decide_eq_true_eq] at hasks
      refine hi.goes_on hrun ?_ [] nofun id fun _ => ⟨?_, rfl⟩
      · rfl
      · rw [Request.Refused, hpoint] at hrefused
        simpa [hasks.2.2, hasks.1.1] using hrefused
    · obtain rfl := Option.some.inj h
      exact hi.gives_up hrun (.error _) [] nofun id nofun nofun
  · rename_i failure token hpoint
    split at h
    · obtain rfl := Option.some.inj h
      exact hi.gives_up hrun (.error _) [] nofun id nofun nofun
    · obtain rfl := Option.some.inj h
      exact hi.retries hrun hpoint _
  · obtain rfl := Option.some.inj h
    exact hi.gives_up hrun (.error _) [] nofun id nofun nofun
  · cases h

/-! ### Stops -/

/-- The stops that a stretch of code takes in, and what they leave. -/
structure StopsTo (w w' : Reader E) (stops : List (Observation E)) : Prop where
  history : w'.history = stops ++ w.history
  isStop : ∀ o ∈ stops, o.IsStop
  position : w'.position = w.position
  request : w'.request = w.request
  stage : w'.stage = w.stage
  endReported : w'.endReported = w.endReported
  closed : w'.closedByCaller = true ↔ Observation.closed ∈ stops ∨ w.closedByCaller = true
  aborted : w'.aborted = true → stops ≠ [] ∨ w.aborted = true
  stays : w.aborted = true → w'.aborted = true
  halts : Observation.closed ∈ stops → w'.aborted = true

theorem StopsTo.refl (w : Reader E) : StopsTo w w [] where
  history := rfl
  isStop := nofun
  position := rfl
  request := rfl
  stage := rfl
  endReported := rfl
  closed := by simp
  aborted := .inr
  stays := id
  halts := nofun

theorem StopsTo.trans {w'' : Reader E} {stops stops' : List (Observation E)} (h : StopsTo w w' stops)
    (h' : StopsTo w' w'' stops') : StopsTo w w'' (stops' ++ stops) where
  history := by rw [h'.history, h.history, List.append_assoc]
  isStop o ho := (List.mem_append.1 ho).elim (h'.isStop o) (h.isStop o)
  position := h'.position.trans h.position
  request := h'.request.trans h.request
  stage := h'.stage.trans h.stage
  endReported := h'.endReported.trans h.endReported
  closed := by rw [h'.closed, h.closed, List.mem_append, or_assoc]
  aborted haborted := by
    rcases h'.aborted haborted with hne | haborted
    · exact .inl (List.append_ne_nil_of_left_ne_nil hne _)
    · exact (h.aborted haborted).imp_left fun hne => List.append_ne_nil_of_right_ne_nil _ hne
  stays := h'.stays ∘ h.stays
  halts h'' := (List.mem_append.1 h'').elim h'.halts fun hclosed => h'.stays (h.halts hclosed)

theorem close_stopsTo (w : Reader E) : StopsTo w w.close [.closed] where
  history := rfl
  isStop o ho := by
    obtain rfl := List.mem_singleton.1 ho
    trivial
  position := rfl
  request := rfl
  stage := rfl
  endReported := rfl
  closed := iff_of_true rfl (.inl List.mem_cons_self)
  aborted _ := .inl (List.cons_ne_nil _ _)
  stays _ := rfl
  halts _ := rfl

theorem abortSignal_stopsTo (w : Reader E) : StopsTo w w.abortSignal [.signalled] where
  history := rfl
  isStop o ho := by
    obtain rfl := List.mem_singleton.1 ho
    trivial
  position := rfl
  request := rfl
  stage := rfl
  endReported := rfl
  closed := by simp [Reader.abortSignal, Reader.record]
  aborted _ := .inl (List.cons_ne_nil _ _)
  stays h := by simp [Reader.abortSignal, Reader.record, h]
  halts h := by simp at h

/-- The thunk closes the subscription, aborts the signal, does both or neither. -/
theorem called_stopsTo (w : Reader E) (thunk : ThunkCall) :
    ∃ stops, StopsTo w (w.called thunk) stops ∧ (Observation.closed ∈ stops ↔ thunk.closes = true) := by
  unfold Reader.called
  by_cases haborts : (thunk.aborts && !w.signalAborted) = true
  · have habort := abortSignal_stopsTo w
    by_cases hcloses : thunk.closes = true
    · refine ⟨_, by simpa [haborts, hcloses] using habort.trans (close_stopsTo _), by simp [hcloses]⟩
    · refine ⟨_, by simpa [haborts, hcloses] using habort, by simp [hcloses]⟩
  · by_cases hcloses : thunk.closes = true
    · refine ⟨_, by simpa [haborts, hcloses] using close_stopsTo w, by simp [hcloses]⟩
    · refine ⟨_, by simpa [haborts, hcloses] using StopsTo.refl w, by simp [hcloses]⟩

theorem silent_stops (h : ∀ o ∈ new, o.IsStop) : Silent new := fun o ho => .inr (h o ho)

theorem stopped_of_stops {stops : List (Observation E)} (h : ∀ o ∈ stops, o.IsStop) (hne : stops ≠ []) :
    Stopped (stops ++ past) := by
  obtain ⟨o, ho⟩ := List.exists_mem_of_ne_nil stops hne
  have hmem : o ∈ stops ++ past := List.mem_append_left _ ho
  have hstop := h o ho
  cases o with
  | closed => exact .inl hmem
  | signalled => exact .inr hmem
  | _ => exact absurd hstop id

theorem ended_stops {stops : List (Observation E)} (h : ∀ o ∈ stops, o.IsStop) {error : Option Thrown} :
    .ended error ∈ stops ++ past ↔ .ended error ∈ past :=
  mem_append_of_ne fun o ho hended => by
    have hstop := h o ho
    rw [hended] at hstop
    exact hstop

theorem admits_stops {stops : List (Observation E)} (h : ∀ o ∈ stops, o.IsStop) (hpast : Admits (Allowed options) past) :
    Admits (Allowed options) (stops ++ past) := by
  induction stops with
  | nil => exact hpast
  | cons o stops ih =>
    refine ⟨?_, ih fun o' ho' => h o' (List.mem_cons_of_mem _ ho')⟩
    have hstop := h o List.mem_cons_self
    cases o with
    | closed => trivial
    | signalled => trivial
    | _ => exact absurd hstop id

theorem refusals_stops {stops : List (Observation E)} (h : ∀ o ∈ stops, o.IsStop) :
    refusals (stops ++ past) = refusals past := by
  induction stops with
  | nil => rfl
  | cons o stops ih =>
    have hstop := h o List.mem_cons_self
    have hrest := ih fun o' ho' => h o' (List.mem_cons_of_mem _ ho')
    cases o with
    | closed => exact hrest
    | signalled => exact hrest
    | _ => exact absurd hstop id

theorem Stopped.append (h : Stopped past) (new : List (Observation E)) : Stopped (new ++ past) :=
  h.imp (List.mem_append_right _) (List.mem_append_right _)

theorem RequestState.Follows.stops {request : RequestState E} {stops : List (Observation E)}
    (h : ∀ o ∈ stops, o.IsStop) (hf : request.Follows past) : request.Follows (stops ++ past) := by
  obtain ⟨hr, ha, hb, -⟩ := Silent.lists (silent_stops h) past
  cases request with
  | running q =>
    obtain ⟨hhead, hlength, hbatches, hrefused⟩ := hf
    exact ⟨by rw [hr, hhead], by rw [hr, ha, hlength], by rw [hb, ha, hbatches], by rwa [refusals_stops h]⟩
  | settled outcome =>
    cases outcome with
    | error error => exact ⟨by rw [hr, ha]; exact hf.1, by rw [hb, ha]; exact hf.2⟩
    | ok answer =>
      cases answer with
      | none => exact ⟨by rw [hr, ha]; exact hf.1, by rw [hb, ha]; exact hf.2⟩
      | some response => exact ⟨by rw [hr, ha]; exact hf.1, by rw [ha]; exact hf.2⟩

theorem Stage.Follows.stops {stage : Stage E} {request : RequestState E} {stops : List (Observation E)}
    (h : ∀ o ∈ stops, o.IsStop) (hs : stage.Follows options request past) :
    stage.Follows options request (stops ++ past) := by
  obtain ⟨-, ha, hb, hsettles⟩ := Silent.lists (silent_stops h) past
  have hfetched : Fetched request past → Fetched request (stops ++ past) := by
    unfold Fetched
    rw [ha, hb]
    exact id
  cases stage with
  | opening => exact ⟨hfetched hs.1, hb ▸ hs.2.1, hsettles ▸ hs.2.2⟩
  | opened first => exact ⟨hfetched hs.1, hs.2.1, hb ▸ hs.2.2.1, hsettles ▸ hs.2.2.2⟩
  | rejected error => exact ⟨hs.1, hb ▸ hs.2.1, hsettles ▸ hs.2.2⟩
  | applying response ahead =>
    refine ⟨by rw [hsettles, hb]; exact hs.1, ?_⟩
    cases ahead with
    | true => exact hfetched hs.2
    | false => exact ⟨hs.2.1, hs.2.2.1, by rw [hb, ha]; exact hs.2.2.2⟩
  | awaiting => exact ⟨hfetched hs.1, by rw [hsettles, hb]; exact hs.2⟩
  | returning error =>
    refine ⟨by rw [hsettles, hb]; exact hs.1, fun hnone => ?_⟩
    rcases hs.2 hnone with hstopped | ⟨response, hsettled, hlast, hbatches⟩
    · exact .inl (hstopped.append stops)
    · exact .inr ⟨response, hsettled, hlast, by rw [hb, ha, hbatches]⟩
  | finished =>
    show settles (stops ++ past) = (batches (stops ++ past)).length
    rw [hsettles, hb]
    exact hs

theorem Reader.Inv.stops (hi : w.Inv options) {stops : List (Observation E)} (h : StopsTo w w' stops) :
    w'.Inv options := by
  refine ⟨?_, ?_, ?_, ?_, ?_, ?_, ?_, ?_, ?_⟩
  · rw [h.history]
    exact admits_stops h.isStop hi.admits
  · rw [h.history, h.request]
    exact hi.request.stops h.isStop
  · rw [h.history, h.request, h.stage]
    exact hi.stage.stops h.isStop
  · rw [h.history, h.closed, List.mem_append, hi.closed]
  · rw [h.history, h.endReported, ← hi.ended]
    exact exists_congr fun error => ended_stops h.isStop
  · rw [h.endReported, h.stage]
    exact hi.last
  · intro haborted
    rw [h.history, h.stage]
    rcases h.aborted haborted with hne | haborted
    · exact .inl (stopped_of_stops h.isStop hne)
    · exact (hi.aborted haborted).imp_left fun hstopped => hstopped.append stops
  · rw [h.closed]
    exact fun hclosed => hclosed.elim h.halts fun hclosed => h.stays (hi.closes hclosed)
  · rw [h.request]
    exact fun hsettled => h.stays (hi.stopped hsettled)

/-! ### Steps of the delivery -/

theorem closed_mem_cons {o : Observation E} (hne : o ≠ .closed) : .closed ∈ o :: past ↔ .closed ∈ past :=
  List.mem_cons.trans (or_iff_right hne.symm)

/-- What holds while `deliver` runs, with no batch at `onBatch`. -/
structure Reader.Delivering (options : StreamSourceOptions E) (w : Reader E) : Prop where
  admits : Admits (Allowed options) w.history
  request : w.request.Follows w.history
  settled : settles w.history = (batches w.history).length
  closed : .closed ∈ w.history ↔ w.closedByCaller = true
  unended : ∀ error, .ended error ∉ w.history
  unreported : w.endReported = false
  aborted : w.aborted = true → Stopped w.history
  closes : w.closedByCaller = true → w.aborted = true
  stopped : w.request = .settled (.ok none) → w.aborted = true

theorem Reader.Inv.unreported (hi : w.Inv options) (h : w.stage ≠ .finished) : w.endReported = false := by
  by_contra hreported
  exact h (hi.last (by simpa using hreported))

theorem Reader.Inv.unended (hi : w.Inv options) (h : w.stage ≠ .finished) (error : Option Thrown) :
    .ended error ∉ w.history := by
  intro hended
  have hreported := hi.ended.1 ⟨error, hended⟩
  rw [hi.unreported h] at hreported
  cases hreported

theorem Reader.Inv.delivering (hi : w.Inv options) (hsettled : settles w.history = (batches w.history).length)
    (hstage : ¬ w.stage.IsDone) : w.Delivering options := by
  have hfinished : w.stage ≠ .finished := by
    intro h
    rw [h] at hstage
    exact hstage trivial
  exact ⟨hi.admits, hi.request, hsettled, hi.closed, hi.unended hfinished, hi.unreported hfinished,
    fun haborted => (hi.aborted haborted).resolve_right hstage, hi.closes, hi.stopped⟩

/-- `onBatch` is done, one way or the other. -/
theorem Reader.Inv.settles (hi : w.Inv options) {response : ReadResponse E} {ahead : Bool}
    (hstage : w.stage = .applying response ahead) : (w.record .settled).Delivering options := by
  have hs := hi.stage
  rw [hstage] at hs
  have hfinished : w.stage ≠ .finished := by
    rw [hstage]
    exact nofun
  refine ⟨⟨hs.1, hi.admits⟩, ?_, hs.1, ?_, ?_, hi.unreported hfinished, ?_, hi.closes, hi.stopped⟩
  · have hfollows := hi.request
    unfold RequestState.Follows at hfollows ⊢
    exact hfollows
  · show .closed ∈ .settled :: w.history ↔ _
    exact (closed_mem_cons (o := .settled) nofun).trans hi.closed
  · intro error hended
    rcases List.mem_cons.1 hended with hended | hended
    · cases hended
    · exact hi.unended hfinished error hended
  · intro haborted
    have hdone : ¬ w.stage.IsDone := by
      rw [hstage]
      exact id
    exact ((hi.aborted haborted).resolve_right hdone).append [.settled]

variable {stage : Stage E}

/-- `deliver` goes where its stage is true of the history. -/
theorem Reader.Delivering.at_stage (hd : w.Delivering options) (hs : stage.Follows options w.request w.history) :
    ({ w with stage } : Reader E).Inv options := by
  refine ⟨hd.admits, hd.request, hs, hd.closed, ?_, ?_, fun haborted => .inl (hd.aborted haborted), hd.closes, hd.stopped⟩
  · show (∃ error, .ended error ∈ w.history) ↔ w.endReported = true
    rw [hd.unreported]
    exact iff_of_false (fun ⟨error, hended⟩ => hd.unended error hended) Bool.false_ne_true
  · intro hreported
    exact absurd (hd.unreported.symm.trans hreported) Bool.false_ne_true

theorem Reader.Delivering.unheard (hd : w.Delivering options) :
    ({ w with listening := false } : Reader E).Delivering options :=
  ⟨hd.admits, hd.request, hd.settled, hd.closed, hd.unended, hd.unreported, hd.aborted, hd.closes, hd.stopped⟩

theorem Reader.Delivering.failed (hd : w.Delivering options) (error : Thrown) : (w.failed error).Inv options := by
  unfold Reader.failed
  split
  · rename_i haborted
    exact hd.at_stage ⟨hd.settled, fun _ => .inl (hd.aborted haborted)⟩
  · -- the abort of the request ahead is the reader's own
    have hreported : w.endReported = true → False := by
      rw [hd.unreported]
      exact Bool.false_ne_true
    have hended : (∃ error, .ended error ∈ w.history) ↔ w.endReported = true :=
      iff_of_false (fun ⟨error, hended⟩ => hd.unended error hended) hreported
    split
    · exact ⟨hd.admits, hd.request, ⟨hd.settled, nofun⟩, hd.closed, hended, fun h => absurd h hreported,
        fun _ => .inr trivial, fun _ => rfl, fun _ => rfl⟩
    · exact ⟨hd.admits, hd.request, hd.settled, hd.closed, hended, fun _ => rfl, fun _ => .inr trivial, fun _ => rfl,
        fun _ => rfl⟩

/-- A round hands over the answer that has arrived, in front of which it asks for the next. -/
theorem Reader.Delivering.round (hd : w.Delivering options) {response : ReadResponse E} {older : List (ReadResponse E)}
    (hrequest : w.request = .settled (.ok (some response))) (hanswers : answers w.history = response :: older)
    (hbatches : batches w.history = older.map ReadResponse.batch) (thunk : ThunkCall) :
    (w.round options response thunk).Inv options := by
  have hlength : (requests w.history).length = (answers w.history).length := by
    have hfollows := hd.request
    rw [hrequest] at hfollows
    exact hfollows.1
  have hreported : w.endReported = true → False := by
    rw [hd.unreported]
    exact Bool.false_ne_true
  have hhanded : response.batch :: batches w.history = (answers w.history).map ReadResponse.batch := by
    rw [hanswers, hbatches, List.map_cons]
  unfold Reader.round
  split
  · rename_i haborted
    exact hd.at_stage ⟨hd.settled, fun _ => .inl (hd.aborted haborted)⟩
  split
  · rename_i hlast
    refine ⟨⟨⟨hhanded, hd.settled, hd.unended⟩, hd.admits⟩, ?_, ⟨?_, ?_, hlast, hhanded⟩, ?_, ?_, ?_, ?_, hd.closes, hd.stopped⟩
    · show RequestState.Follows w.request (.handed response.batch :: w.history)
      rw [hrequest]
      exact ⟨hlength, congrArg List.head? hanswers⟩
    · exact congrArg (· + 1) hd.settled
    · exact hrequest
    · show .closed ∈ .handed response.batch :: w.history ↔ _
      exact (closed_mem_cons (o := .handed response.batch) nofun).trans hd.closed
    · refine iff_of_false (fun ⟨error, hended⟩ => ?_) hreported
      exact hd.unended error ((List.mem_cons.1 hended).resolve_left nofun)
    · exact fun h => absurd h hreported
    · exact fun haborted => .inl ((hd.aborted haborted).append [.handed response.batch])
  · rename_i haborted hlast
    set position := options.after w.position response
    obtain ⟨stops, hstops, -⟩ := called_stopsTo (w.asks position) thunk
    obtain ⟨hr, ha, hb, hsettles⟩ := Silent.lists (silent_stops hstops.isStop) (.asked position :: w.history)
    have hasked : Allowed options (.asked position) w.history := by
      refine ⟨hd.settled, hlength, ?_⟩
      rw [hanswers]
      exact ⟨hbatches, by simpa using hlast, rfl, rfl⟩
    have hended : ∀ error, .ended error ∉ stops ++ .asked position :: w.history := by
      intro error hended
      rw [ended_stops hstops.isStop] at hended
      exact hd.unended error ((List.mem_cons.1 hended).resolve_left nofun)
    have hhistory : (Reader.called _ thunk).history = stops ++ .asked position :: w.history := hstops.history
    refine ⟨?_, ?_, ⟨?_, fetched_of_running hstops.request⟩, ?_, ?_, ?_, ?_, ?_, ?_⟩
    · show Admits (Allowed options) (.handed response.batch :: _)
      rw [hhistory]
      refine ⟨⟨?_, ?_, hended⟩, admits_stops hstops.isStop ⟨hasked, hd.admits⟩⟩
      · rw [hb, ha]
        exact hhanded
      · rw [hb, hsettles]
        exact hd.settled
    · show RequestState.Follows _ (.handed response.batch :: _)
      rw [hhistory]
      show RequestState.Follows (Reader.called _ thunk).request _
      rw [hstops.request]
      refine ⟨?_, ?_, ?_, ?_⟩
      · show (requests (stops ++ _)).head? = _
        rw [hr]
        rfl
      · show (requests (stops ++ _)).length = (answers (stops ++ _)).length + 1
        rw [hr, ha]
        exact congrArg (· + 1) hlength
      · show response.batch :: batches (stops ++ _) = (answers (stops ++ _)).map _
        rw [hb, ha]
        exact hhanded
      · show refusals (stops ++ .asked position :: w.history) ≤ 0
        rw [refusals_stops hstops.isStop]
        exact le_refl 0
    · show settles (_ :: _) + 1 = (batches (_ :: _)).length
      rw [hhistory]
      show settles (stops ++ _) + 1 = (batches (stops ++ _)).length + 1
      rw [hsettles, hb]
      exact congrArg (· + 1) hd.settled
    · show .closed ∈ .handed response.batch :: (Reader.called _ thunk).history ↔ (Reader.called _ thunk).closedByCaller = true
      rw [hhistory, hstops.closed, List.mem_cons, List.mem_append, List.mem_cons]
      have hclosed : Observation.closed ∈ w.history ↔ w.closedByCaller = true := hd.closed
      simp [hclosed, Reader.asks, Reader.record]
    · show (∃ error, .ended error ∈ .handed response.batch :: (Reader.called _ thunk).history) ↔
        (Reader.called _ thunk).endReported = true
      rw [hhistory, hstops.endReported]
      refine iff_of_false (fun ⟨error, hmem⟩ => ?_) hreported
      exact hended error ((List.mem_cons.1 hmem).resolve_left nofun)
    · show (Reader.called _ thunk).endReported = true → _
      rw [hstops.endReported]
      exact fun h => absurd h hreported
    · intro hafter
      have hne := (hstops.aborted hafter).resolve_right haborted
      show Stopped (.handed response.batch :: (Reader.called _ thunk).history) ∨ _
      rw [hhistory]
      exact .inl ((stopped_of_stops hstops.isStop hne).append [.handed response.batch])
    · show (Reader.called _ thunk).closedByCaller = true → (Reader.called _ thunk).aborted = true
      rw [hstops.closed]
      exact fun hclosed => hclosed.elim hstops.halts fun hclosed => absurd (hd.closes hclosed) haborted
    · intro hsettled
      cases hstops.request.symm.trans hsettled

theorem Reader.Inv.abort_close (hi : w.Inv options) : w.close.Inv options ∧ w.abortSignal.Inv options :=
  ⟨hi.stops (close_stopsTo w), hi.stops (abortSignal_stopsTo w)⟩

/-- The report, of an end that the history bears out. -/
theorem Reader.Inv.report (hi : w.Inv options) {error : Option Thrown} (hstage : w.stage = .returning error) :
    ({ w.reportEnd error with stage := .finished } : Reader E).Inv options := by
  have hs := hi.stage
  rw [hstage] at hs
  have hfinished : w.stage ≠ .finished := by
    rw [hstage]
    exact nofun
  have hreported := hi.unreported hfinished
  unfold Reader.reportEnd
  by_cases hclosed : w.closedByCaller = true
  · simp only [hclosed, Bool.or_true, if_true]
    refine ⟨hi.admits, hi.request, hs.1, hi.closed.trans (by rw [hclosed]), hi.ended, fun _ => rfl, fun _ => .inr trivial,
      fun _ => hi.closes hclosed, hi.stopped⟩
  · have hnotClosed : .closed ∉ w.history := fun h => hclosed (hi.closed.1 h)
    simp only [hreported, hclosed, Bool.or_self, Bool.false_eq_true, if_false]
    refine ⟨⟨⟨hi.unended hfinished, hnotClosed, ?_⟩, hi.admits⟩, ?_, hs.1, ?_, ?_, fun _ => rfl, fun _ => .inr trivial,
      nofun, hi.stopped⟩
    · rintro rfl hsignalled
      obtain ⟨response, hrequest, hlast, hbatches⟩ := (hs.2 rfl).resolve_left fun h => h.elim hnotClosed hsignalled
      have hfollows := hi.request
      rw [hrequest] at hfollows
      exact ⟨⟨response, hfollows.2, hlast, hbatches⟩, hs.1⟩
    · have hfollows := hi.request
      unfold RequestState.Follows at hfollows ⊢
      exact hfollows
    · exact iff_of_false (fun h => hnotClosed ((closed_mem_cons (o := .ended error) nofun).1 h)) Bool.false_ne_true
    · exact iff_of_true ⟨error, List.mem_cons_self⟩ rfl

theorem Reader.Inv.step (hi : w.Inv options) {event : ReaderEvent} (h : w.step options event = some w') :
    w'.Inv options := by
  have hs := hi.stage
  cases event with
  | request event =>
    simp only [Reader.step] at h
    split at h
    · rename_i hrun
      exact hi.requestStep hrun h
    · cases h
  | «open» =>
    simp only [Reader.step] at h
    split at h
    · -- the call resolves
      rename_i first hstage hrequest
      obtain rfl := Option.some.inj h
      rw [hstage] at hs
      have hd := hi.delivering (by rw [hs.2.1, hs.2.2]; rfl) (by rw [hstage]; exact id)
      exact hd.at_stage ⟨hs.1, hrequest, hs.2⟩
    · rename_i hstage hrequest
      obtain rfl := Option.some.inj h
      rw [hstage] at hs
      have hd := hi.delivering (by rw [hs.2.1, hs.2.2]; rfl) (by rw [hstage]; exact id)
      refine hd.unheard.at_stage ?_
      exact ⟨⟨_, hrequest⟩, hs.2⟩
    · rename_i error hstage hrequest
      obtain rfl := Option.some.inj h
      rw [hstage] at hs
      have hd := hi.delivering (by rw [hs.2.1, hs.2.2]; rfl) (by rw [hstage]; exact id)
      refine hd.unheard.at_stage ?_
      exact ⟨⟨_, hrequest⟩, hs.2⟩
    · cases h
  | deliver thunk =>
    simp only [Reader.step] at h
    split at h
    · rename_i first hstage
      obtain rfl := Option.some.inj h
      rw [hstage] at hs
      obtain ⟨older, hanswers, hbatches⟩ := hs.1 first hs.2.1
      have hd := hi.delivering (by rw [hs.2.2.1, hs.2.2.2]; rfl) (by rw [hstage]; exact id)
      exact hd.round hs.2.1 hanswers hbatches thunk
    · cases h
  | applied =>
    simp only [Reader.step] at h
    split at h
    · rename_i response ahead hstage
      obtain rfl := Option.some.inj h
      rw [hstage] at hs
      have hd := hi.settles hstage
      cases ahead with
      | true => exact hd.at_stage ⟨hs.2, hd.settled⟩
      | false => exact hd.at_stage ⟨hd.settled, fun _ => .inr ⟨response, hs.2⟩⟩
    · cases h
  | applyThrew error =>
    simp only [Reader.step] at h
    split at h
    · rename_i response ahead hstage
      obtain rfl := Option.some.inj h
      exact (hi.settles hstage).failed error
    · cases h
  | next thunk =>
    simp only [Reader.step] at h
    split at h
    · rename_i response hstage hrequest
      obtain rfl := Option.some.inj h
      rw [hstage] at hs
      obtain ⟨older, hanswers, hbatches⟩ := hs.1 response hrequest
      exact (hi.delivering hs.2 (by rw [hstage]; exact id)).round hrequest hanswers hbatches thunk
    · -- the request ahead was stopped
      rename_i hstage hrequest
      obtain rfl := Option.some.inj h
      rw [hstage] at hs
      have hd := hi.delivering hs.2 (by rw [hstage]; exact id)
      exact hd.at_stage ⟨hs.2, fun _ => .inl (hd.aborted (hd.stopped hrequest))⟩
    · rename_i error hstage hrequest
      obtain rfl := Option.some.inj h
      rw [hstage] at hs
      exact (hi.delivering hs.2 (by rw [hstage]; exact id)).failed error
    · cases h
  | report =>
    simp only [Reader.step] at h
    split at h
    · rename_i error hstage
      obtain rfl := Option.some.inj h
      exact hi.report hstage
    · cases h
  | close =>
    simp only [Reader.step] at h
    split at h
    · cases h
    · cases h
    · obtain rfl := Option.some.inj h
      exact hi.abort_close.1
  | abort =>
    simp only [Reader.step] at h
    split at h
    · cases h
    · obtain rfl := Option.some.inj h
      exact hi.abort_close.2

theorem inv_initial (options : StreamSourceOptions E) (signalAborted : Bool) :
    (Reader.initial options signalAborted).Inv options := by
  cases signalAborted with
  | false =>
    refine ⟨⟨⟨rfl, rfl, rfl⟩, trivial⟩, ⟨rfl, rfl, rfl, le_refl 0⟩, ⟨nofun, rfl, rfl⟩, ?_, ?_, nofun, nofun, nofun, nofun⟩
    · exact iff_of_false (by simp [Reader.initial]) Bool.false_ne_true
    · exact iff_of_false (by simp [Reader.initial]) Bool.false_ne_true
  | true =>
    refine ⟨⟨⟨rfl, rfl, rfl⟩, trivial, trivial⟩, ⟨rfl, rfl⟩, ⟨nofun, rfl, rfl⟩, ?_, ?_, nofun, fun _ => ?_, nofun, fun _ => rfl⟩
    · exact iff_of_false (by simp [Reader.initial]) Bool.false_ne_true
    · exact iff_of_false (by simp [Reader.initial]) Bool.false_ne_true
    · exact .inl (.inr (List.mem_cons_of_mem _ List.mem_cons_self))

theorem inv_run {signalAborted : Bool} {events : List ReaderEvent}
    (hr : run (Reader.step options) (Reader.initial options signalAborted) events = some w) : w.Inv options :=
  invariant_all (fun _ _ _ hi hs => hi.step hs) (inv_initial options signalAborted) hr

end Circuits.StreamSource
