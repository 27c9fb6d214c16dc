import AttemptLedger.Channel
import AttemptLedger.Proofs.Outcome
import Mathlib.Data.List.Nodup

/-!
# Runs of a client

A client builds batches, changes its options, submits the batch it holds and receives replies, in any
order. Of each step the run keeps an event. The engine is called for the submissions that fit the limit
of their time, once each and in order, and for nothing else; what it answers does not change what is
called, and what is received depends on the bytes and the limit for receiving only.
-/

namespace AttemptLedger

/-! ### Batches of requests -/

namespace Submission

/-- What a batch can be built from: neither it nor a request is without an id, and ids are distinct. -/
structure CanBeBuilt (id : String) (requests : List Request) : Prop where
  named : id ≠ ""
  requestsNamed : ∀ request ∈ requests, request.id ≠ ""
  distinct : (requests.map (·.id)).Nodup

variable {id : String} {seen : List String} {requests : List Request} {submission : Submission}

theorem checkIds_eq_ok_iff :
    checkIds id seen requests = .ok () ↔ (∀ request ∈ requests, request.id ≠ "")
      ∧ (∀ request ∈ requests, request.id ∉ seen) ∧ (requests.map (·.id)).Nodup := by
  induction requests generalizing seen with
  | nil => simp [checkIds]
  | cons request requests ih =>
    rw [checkIds]
    split
    · next hempty => simp [hempty]
    · next hnamed =>
      split
      · next hseen => simp [hseen]
      · next hnew =>
        have hrest : (∀ other ∈ requests, other.id ∉ request.id :: seen)
            ↔ (∀ other ∈ requests, other.id ∉ seen) ∧ request.id ∉ requests.map (·.id) := by
          simp only [List.mem_cons, not_or, List.mem_map, not_exists, not_and, forall_and]
          tauto
        rw [ih, hrest, List.map_cons, List.nodup_cons, List.forall_mem_cons, List.forall_mem_cons]
        tauto

theorem checkIds_error {e : Error} (h : checkIds id seen requests = .error e) :
    ∃ cause, e = .invalidParameter cause := by
  induction requests generalizing seen with
  | nil => cases h
  | cons request requests ih =>
    rw [checkIds] at h
    split at h
    · cases h
      exact ⟨_, rfl⟩
    · split at h
      · cases h
        exact ⟨_, rfl⟩
      · exact ih h

theorem build_eq_ok_iff :
    build id requests = .ok submission ↔ CanBeBuilt id requests ∧ submission = ⟨id, requests⟩ := by
  rw [build]
  split
  · next hempty =>
    constructor
    · intro h
      cases h
    · rintro ⟨h, -⟩
      exact absurd hempty h.named
  · next hnamed =>
    rw [map_eq_ok_iff]
    constructor
    · rintro ⟨⟨⟩, hchecked, rfl⟩
      obtain ⟨hrequests, -, hdistinct⟩ := checkIds_eq_ok_iff.1 hchecked
      exact ⟨⟨hnamed, hrequests, hdistinct⟩, rfl⟩
    · rintro ⟨h, rfl⟩
      exact ⟨(), checkIds_eq_ok_iff.2 ⟨h.requestsNamed, by simp, h.distinct⟩, rfl⟩

theorem build_error {e : Error} (h : build id requests = .error e) :
    ∃ cause, e = .invalidParameter cause := by
  rw [build] at h
  split at h
  · cases h
    exact ⟨_, rfl⟩
  · cases hchecked : checkIds id [] requests with
    | ok _ =>
      rw [hchecked] at h
      cases h
    | error fault =>
      rw [hchecked] at h
      cases h
      exact checkIds_error hchecked

end Submission

/-! ### Calls of an engine -/

section

variable {σ : Type} {engine : Engine σ} {options : ChannelOptions} {submission : Submission} {state : σ}

theorem send_of_le (h : (Wire.encodeSubmission submission).length ≤ options.maxSend) :
    send options engine submission state = engine submission state := if_neg (Nat.not_lt.2 h)

theorem send_of_lt (h : options.maxSend < (Wire.encodeSubmission submission).length) :
    send options engine submission state = (.error (.invalidParameter
      (.overSendLimit submission.id (Wire.encodeSubmission submission).length options.maxSend)), state) :=
  if_pos h

/-- The state of an engine after some calls. -/
def Engine.after (engine : Engine σ) (state : σ) (calls : List Submission) : σ :=
  calls.foldl (fun state submission => (engine submission state).2) state

theorem Engine.after_append (engine : Engine σ) (state : σ) (first second : List Submission) :
    engine.after state (first ++ second) = engine.after (engine.after state first) second :=
  List.foldl_append

theorem Engine.logged_after (engine : Engine σ) (state : σ) (log : ServiceLog)
    (calls : List Submission) :
    engine.logged.after (state, log) calls = (engine.after state calls, log ++ calls.map (·.id)) := by
  induction calls generalizing state log with
  | nil => rw [List.map_nil, List.append_nil]; rfl
  | cons submission calls ih =>
    have hstep : engine.logged.after (state, log) (submission :: calls)
        = engine.logged.after ((engine submission state).2, log ++ [submission.id]) calls := rfl
    rw [hstep, ih, List.append_assoc]
    rfl

end

/-! ### Steps and events -/

structure Client where
  submission : Submission := {}
  options : ChannelOptions

namespace Client

inductive Step
  | build (id : String) (requests : List Request)
  | configure (options : ChannelOptions)
  | submit
  | receive (payload : Bytes)

inductive Outcome
  | built (outcome : Except Error Submission)
  | configured
  | answered (outcome : Except Error Batch)

/-- A step that a client made, and what came of it. -/
structure Event where
  client : Client
  step : Step
  outcome : Outcome

variable {σ : Type}

def step (engine : Engine σ) (client : Client) (state : σ) : Step → Outcome × Client × σ
  | .build id requests =>
    match Submission.build id requests with
    | .ok submission => (.built (.ok submission), { client with submission := submission }, state)
    | .error e => (.built (.error e), client, state)
  | .configure options => (.configured, { client with options := options }, state)
  | .submit =>
    let (answer, next) := send client.options engine client.submission state
    (.answered answer, client, next)
  | .receive payload => (.answered (AttemptLedger.receive client.options payload), client, state)

def run (engine : Engine σ) : Client → σ → List Step → List Event × Client × σ
  | client, state, [] => ([], client, state)
  | client, state, action :: actions =>
    let (outcome, next, reached) := step engine client state action
    let (events, last) := run engine next reached actions
    (⟨client, action, outcome⟩ :: events, last)

/-! ### What events say -/

def Event.built? (event : Event) : Option Submission :=
  match event.outcome with
  | .built (.ok submission) => some submission
  | _ => none

def Event.configured? (event : Event) : Option ChannelOptions :=
  match event.step with
  | .configure options => some options
  | _ => none

/-- The batch of a submission whose bytes fit the limit of its time. -/
def Event.call? (event : Event) : Option Submission :=
  match event.step with
  | .submit =>
    if (Wire.encodeSubmission event.client.submission).length ≤ event.client.options.maxSend then
      some event.client.submission
    else none
  | _ => none

def calls (events : List Event) : List Submission := events.filterMap Event.call?

/-- The client after some events: it holds the batch built last and the options set last. -/
def after (client : Client) (events : List Event) : Client where
  submission := (events.filterMap Event.built?).getLast?.getD client.submission
  options := (events.filterMap Event.configured?).getLast?.getD client.options

/-- What may come of a step that a client makes when the engine is in some state. -/
inductive Event.Follows (engine : Engine σ) (client : Client) (state : σ) : Event → Prop
  | built {id : String} {requests : List Request} : Submission.CanBeBuilt id requests →
    Follows engine client state ⟨client, .build id requests, .built (.ok ⟨id, requests⟩)⟩
  | notBuilt {id : String} {requests : List Request} {cause : Refusal} :
    ¬Submission.CanBeBuilt id requests →
    Follows engine client state
      ⟨client, .build id requests, .built (.error (.invalidParameter cause))⟩
  | configured {options : ChannelOptions} :
    Follows engine client state ⟨client, .configure options, .configured⟩
  | sent : (Wire.encodeSubmission client.submission).length ≤ client.options.maxSend →
    Follows engine client state ⟨client, .submit, .answered (engine client.submission state).1⟩
  | notSent : client.options.maxSend < (Wire.encodeSubmission client.submission).length →
    Follows engine client state ⟨client, .submit, .answered (.error (.invalidParameter
      (.overSendLimit client.submission.id (Wire.encodeSubmission client.submission).length
        client.options.maxSend)))⟩
  | received {payload : Bytes} : payload.length ≤ client.options.maxReceive →
    Follows engine client state ⟨client, .receive payload, .answered (Batch.ofBytes payload)⟩
  | notReceived {payload : Bytes} : client.options.maxReceive < payload.length →
    Follows engine client state ⟨client, .receive payload, .answered (.error (.invalidParameter
      (.overReceiveLimit payload.length client.options.maxReceive)))⟩

variable {engine : Engine σ} {client : Client} {state : σ}

theorem after_calls_cons (engine : Engine σ) (state : σ) (event : Event) (events : List Event) :
    engine.after state (calls (event :: events))
      = engine.after (engine.after state (calls [event])) (calls events) := by
  rw [← Engine.after_append, calls, calls, calls, ← List.filterMap_append]
  rfl

theorem calls_submit_of_le {outcome : Outcome}
    (h : (Wire.encodeSubmission client.submission).length ≤ client.options.maxSend) :
    calls [⟨client, .submit, outcome⟩] = [client.submission] := by
  simp [calls, Event.call?, h]

theorem calls_submit_of_lt {outcome : Outcome}
    (h : client.options.maxSend < (Wire.encodeSubmission client.submission).length) :
    calls [⟨client, .submit, outcome⟩] = [] := by
  simp [calls, Event.call?, Nat.not_le.2 h]

theorem after_cons (client : Client) (event : Event) (events : List Event) :
    client.after (event :: events) = (client.after [event]).after events := by
  have hlast : ∀ {α : Type} (f : Event → Option α) (default : α),
      ((event :: events).filterMap f).getLast?.getD default
        = (events.filterMap f).getLast?.getD (([event].filterMap f).getLast?.getD default) := by
    intro α f default
    cases hf : f event <;> simp [hf, List.getLast?_cons]
  rw [after, after, hlast, hlast]
  rfl

/-- What one step does: its event follows, and the client and the engine go on as the event says. -/
theorem exists_step_eq (engine : Engine σ) (client : Client) (state : σ) (action : Step) :
    ∃ outcome, Event.Follows engine client state ⟨client, action, outcome⟩
      ∧ step engine client state action = (outcome, client.after [⟨client, action, outcome⟩],
        engine.after state (calls [⟨client, action, outcome⟩])) := by
  cases action with
  | build id requests =>
    cases hbuild : Submission.build id requests with
    | ok submission =>
      obtain ⟨hcan, rfl⟩ := Submission.build_eq_ok_iff.1 hbuild
      exact ⟨_, .built hcan, by rw [step, hbuild]; rfl⟩
    | error e =>
      obtain ⟨cause, rfl⟩ := Submission.build_error hbuild
      refine ⟨_, .notBuilt fun hcan => ?_, by rw [step, hbuild]; rfl⟩
      rw [Submission.build_eq_ok_iff.2 ⟨hcan, rfl⟩] at hbuild
      cases hbuild
  | configure options => exact ⟨_, .configured, rfl⟩
  | submit =>
    rcases Nat.lt_or_ge client.options.maxSend (Wire.encodeSubmission client.submission).length
      with hlong | hfits
    · refine ⟨_, .notSent hlong, ?_⟩
      rw [step, send_of_lt hlong, calls_submit_of_lt hlong]
      rfl
    · refine ⟨_, .sent hfits, ?_⟩
      rw [step, send_of_le hfits, calls_submit_of_le hfits]
      rfl
  | receive payload =>
    rcases Nat.lt_or_ge client.options.maxReceive payload.length with hlong | hfits
    · refine ⟨_, .notReceived hlong, ?_⟩
      rw [step, receive, if_pos hlong]
      rfl
    · refine ⟨_, .received hfits, ?_⟩
      rw [step, receive, if_neg (Nat.not_lt.2 hfits)]
      rfl

theorem run_cons {action : Step} {actions : List Step} {outcome : Outcome} {next : Client} {reached : σ}
    (h : step engine client state action = (outcome, next, reached)) :
    run engine client state (action :: actions)
      = (⟨client, action, outcome⟩ :: (run engine next reached actions).1,
        (run engine next reached actions).2) := by
  rw [run, h]

/-- What a run comes to: an event for each step, which follows from the events in front of it. -/
structure IsRun (engine : Engine σ) (client : Client) (state : σ) (actions : List Step)
    (result : List Event × Client × σ) : Prop where
  steps : result.1.map Event.step = actions
  last : result.2.1 = client.after result.1
  reached : result.2.2 = engine.after state (calls result.1)
  follows : ∀ before event after, result.1 = before ++ event :: after →
    event.Follows engine (client.after before) (engine.after state (calls before))

theorem isRun_run (engine : Engine σ) (client : Client) (state : σ) (actions : List Step) :
    IsRun engine client state actions (run engine client state actions) := by
  induction actions generalizing client state with
  | nil => exact ⟨rfl, rfl, rfl, by simp [run]⟩
  | cons action actions ih =>
    obtain ⟨outcome, hfollows, hstep⟩ := exists_step_eq engine client state action
    obtain ⟨hsteps, hlast, hreached, hrest⟩ := ih (client.after [⟨client, action, outcome⟩])
      (engine.after state (calls [⟨client, action, outcome⟩]))
    rw [run_cons hstep]
    refine ⟨congrArg (action :: ·) hsteps, hlast.trans (after_cons _ _ _).symm,
      hreached.trans (after_calls_cons _ _ _ _).symm, ?_⟩
    intro before event after hsplit
    cases before with
    | nil =>
      cases hsplit
      exact hfollows
    | cons first before =>
      obtain ⟨rfl, htail⟩ := List.cons.inj hsplit
      rw [after_cons, after_calls_cons]
      exact hrest before event after htail

theorem Event.Follows.of_logged {log : ServiceLog} {event : Event}
    (h : event.Follows engine.logged client (state, log)) : event.Follows engine client state := by
  cases h with
  | built hcan => exact .built hcan
  | notBuilt hnot => exact .notBuilt hnot
  | configured => exact .configured
  | sent hfits => exact .sent hfits
  | notSent hlong => exact .notSent hlong
  | received hfits => exact .received hfits
  | notReceived hlong => exact .notReceived hlong

/-- A run from the empty batch over any engine that keeps a log. Every step has an event that follows
from what was built, set and called before it; the engine has been called for the submissions that fit,
once each and in order, and the log has their ids. -/
theorem run_respects_limits (engine : Engine σ) (options : ChannelOptions) (state : σ)
    (actions : List Step) :
    let start : Client := { options := options }
    ∃ events, run engine.logged start (state, []) actions
        = (events, start.after events, engine.after state (calls events), (calls events).map (·.id))
      ∧ events.map Event.step = actions
      ∧ ∀ before event after, events = before ++ event :: after →
        event.Follows engine (start.after before) (engine.after state (calls before)) := by
  intro start
  have hrun := isRun_run engine.logged start (state, []) actions
  refine ⟨_, ?_, hrun.steps, ?_⟩
  · refine Prod.ext rfl (Prod.ext hrun.last ?_)
    rw [hrun.reached, Engine.logged_after]
    rfl
  · intro before event after hsplit
    have hfollows := hrun.follows before event after hsplit
    rw [Engine.logged_after] at hfollows
    exact hfollows.of_logged

end Client

end AttemptLedger
