import AttemptLedger.Encoding
import AttemptLedger.Settings
import AttemptLedger.Wire.Encode

/-!
# The channel to the engine

Batches are built from requests with distinct ids and submitted once; messages in both directions
have a size limit. An engine answers a submission with a batch or an error, and a log keeps the ids
of the submissions it was called with.
-/

namespace AttemptLedger

structure ChannelOptions where
  address : String
  maxSend : Nat
  maxReceive : Nat
  deriving DecidableEq, Repr

def ChannelOptions.ofEnvironment (environment : Environment) : ChannelOptions where
  address := environment.engineAddress
  maxSend := environment.messageLimit
  maxReceive := environment.messageLimit

namespace Submission

/-- Checks that request ids are neither empty nor repeated; `seen` holds the ids met so far. -/
def checkIds (batchId : String) : (seen : List String) → List Request → Except Error Unit
  | _, [] => .ok ()
  | seen, request :: requests =>
    if request.id = "" then .error (.invalidParameter .emptyRequestId)
    else if request.id ∈ seen then
      .error (.invalidParameter (.repeatedRequestId request.id batchId))
    else checkIds batchId (request.id :: seen) requests

/-- Builds a submission of checked requests (`build_batch`). -/
def build (id : String) (requests : List Request) : Except Error Submission :=
  if id = "" then .error (.invalidParameter .emptyBatchId)
  else (checkIds id [] requests).map fun _ => ⟨id, requests⟩

/-- The length of a submission on the wire. -/
def size (submission : Submission) : Nat := (Wire.encodeSubmission submission).length

end Submission

/-- What answers submissions (`batch_translate`), over a state of its own. -/
abbrev Engine (σ : Type) := Submission → σ → Except Error Batch × σ

/-- Sends a batch (`submit_batch`): the engine is called once if the batch fits, and its answer is the
answer. -/
def send {σ : Type} (options : ChannelOptions) (engine : Engine σ) (submission : Submission)
    (state : σ) : Except Error Batch × σ :=
  if options.maxSend < submission.size then
    (.error (.invalidParameter (.overSendLimit submission.id submission.size options.maxSend)), state)
  else engine submission state

abbrev ServiceLog := List String

def Engine.logged {σ : Type} (engine : Engine σ) : Engine (σ × ServiceLog) :=
  fun submission (state, log) =>
    let (answer, next) := engine submission state
    (answer, next, log ++ [submission.id])

abbrev Service := Submission → Except Error Batch

/-- Submits a batch to a service whose answers do not depend on earlier calls. -/
def submit (options : ChannelOptions) (service : Service) (submission : Submission)
    (log : ServiceLog) : Except Error Batch × ServiceLog :=
  let engine : Engine Unit := fun submission _ => (service submission, ())
  let (answer, _, log) := send options engine.logged submission ((), log)
  (answer, log)

/-- Takes a reply that came in as bytes (`receive_batch`). -/
def receive (options : ChannelOptions) (payload : Bytes) : Except Error Batch :=
  if options.maxReceive < payload.length then
    .error (.invalidParameter (.overReceiveLimit payload.length options.maxReceive))
  else Batch.ofBytes payload

end AttemptLedger
