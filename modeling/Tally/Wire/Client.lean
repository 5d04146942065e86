import Tally.Lib.Dict
import Tally.Lib.Json
import Tally.Lib.Lines
import Tally.Lib.Result

/-!
# The client of the socket

Calls on clones of one client share a connection (`tally-client`). A call writes its frame under the
lock of the writer, in as many pieces as the socket takes, and then waits for the response with its
id; one task reads the responses. A deadline drops a call wherever it is, and a write may fail. If neither
happens to a call in the middle of its frame, the bytes on the socket are frames, one after the other
(`frames_never_interleave`).
-/

namespace Tally.Wire

open Tally.Lib

inductive RequestId
  | string (text : String)
  | number (value : Int)
  deriving DecidableEq

inductive WireErrorCode
  | unsupportedProtocol
  | invalidParams
  | invalidFrame
  | frameTooLarge
  | unknownMethod
  | notFound
  | unsupported
  | internal
  | timeout
  | epochChanged
  | dedupKeyConflict
  | flowNodeCap
  | flowLineageConflict
  | flowLineageUnusable
  | storageBudgetExceeded
  | storageMonitorUnavailable
  | preLaunchRefusal
  deriving DecidableEq

/-- The names of the codes on the wire. -/
def WireErrorCode.names : List (String × WireErrorCode) :=
  [("unsupported_protocol", unsupportedProtocol), ("invalid_params", invalidParams),
    ("invalid_frame", invalidFrame), ("frame_too_large", frameTooLarge),
    ("unknown_method", unknownMethod), ("not_found", notFound), ("unsupported", unsupported),
    ("internal", internal), ("timeout", timeout), ("epoch_changed", epochChanged),
    ("dedup-key-conflict", dedupKeyConflict), ("flow-node-cap", flowNodeCap),
    ("flow-lineage-conflict", flowLineageConflict), ("flow-lineage-unusable", flowLineageUnusable),
    ("storage-budget-exceeded", storageBudgetExceeded),
    ("storage-monitor-unavailable", storageMonitorUnavailable),
    ("pre-launch-refusal", preLaunchRefusal)]

structure WireError where
  code : WireErrorCode
  message : String
  data : Option Value
  deriving DecidableEq

inductive ClientReadFailure
  | frameTooLarge (limit : Nat)
  | closed
  | io (message : String)
  | json (message : String)
  | invalidResponse (message : String)
  deriving DecidableEq

inductive WireIoError
  | io (message : String)
  | json (message : String)
  | frameTooLarge (limit : Nat)
  | closed
  | invalidResponse (message : String)
  | deadlineExceeded (method : String)
  | rpc (error : WireError)
  deriving DecidableEq

def ClientReadFailure.intoWireError : ClientReadFailure → WireIoError
  | frameTooLarge limit => .frameTooLarge limit
  | closed => .closed
  | io message => .io message
  | json message => .invalidResponse ("response is not valid JSON: " ++ message)
  | invalidResponse message => .invalidResponse message

/-! ## Frames -/

/-- The id of the call with a number. -/
def requestId (n : Nat) : String := "cli-" ++ n.repr

def requestFrame (n : Nat) (method : String) (params : Option Value) : Value :=
  .object ([("id", .string (requestId n)), ("method", .string method)] ++
    (params.map fun params => ("params", params)).toList)

/-- The derived decoder of an id. -/
def decodeRequestId : Value → Option RequestId
  | .string text => some (.string text)
  | .number n =>
    if n.chars.all Char.isDigit then
      let value := Nat.ofDigitChars 10 n.chars 0
      if value < 2 ^ 63 then some (.number value) else none
    else match n.chars with
      | '-' :: digits =>
        let value := Nat.ofDigitChars 10 digits 0
        if digits.all Char.isDigit ∧ value ≤ 2 ^ 63 then some (.number (-value)) else none
      | _ => none
  | _ => none

/-- The id that a response carries. -/
def responseId (response : Value) : Except String RequestId :=
  match response with
  | .object fields => do
    let id ← orError (Fields.get? fields "id") "response has no id"
    orError (decodeRequestId id)
      "response has an invalid id: data did not match any variant of untagged enum RequestId"
  | _ => .error "response has no id"

def decodeWireError : Value → Except String WireError
  | .object fields => do
    let code ← match Fields.get? fields "code" with
      | some (.string name) => orError (WireErrorCode.names.lookup name) "unknown variant"
      | some _ => .error "invalid type: expected a string"
      | none => .error "missing field `code`"
    let message ← match Fields.get? fields "message" with
      | some (.string message) => .ok message
      | some _ => .error "invalid type: expected a string"
      | none => .error "missing field `message`"
    let data := match Fields.get? fields "data" with
      | none | some .null => none
      | some data => some data
    return { code, message, data }
  | _ => .error "invalid type: expected struct WireError"

/-- What a call makes of its response. -/
def resultOf : Value → Except WireIoError Value
  | .object fields =>
    match Fields.get? fields "result" with
    | some result => .ok result
    | none =>
      match Fields.get? fields "error" with
      | some error =>
        match decodeWireError error with
        | .ok error => .error (.rpc error)
        | .error message => .error (.json message)
      | none => .error (.invalidResponse "response has neither result nor error")
  | _ => .error (.invalidResponse "response is not an object")

/-! ## Calls -/

/-- Where a call is. -/
inductive Phase
  /-- The id is taken, and not registered yet. -/
  | issued
  | queued
  | writing (accepted : Nat)
  | awaiting
  /-- The exchange is over, and the id is still to be removed. -/
  | failed (error : WireIoError)
  | finished (outcome : Except WireIoError Value)
  deriving DecidableEq

structure Call where
  number : Nat
  method : String
  params : Option Value
  deadline : Bool
  phase : Phase := .issued
  /-- What the reader has sent. -/
  channel : Option (Except ClientReadFailure Value) := none
  deriving DecidableEq

def Call.id (call : Call) : RequestId := .string (requestId call.number)

def encodeRequest (n : Nat) (method : String) (params : Option Value) : Bytes :=
  encode (render (requestFrame n method params))

def Call.frame (call : Call) : Bytes :=
  encodeRequest call.number call.method call.params ++ [lf]

structure Client where
  maxFrameBytes : Nat
  nextId : Nat := 1
  pending : Dict RequestId Nat := ∅
  failure : Option ClientReadFailure := none
  /-- The call that holds the lock of the writer. -/
  writer : Option Nat := none
  socket : Bytes := []
  calls : List Call := []

namespace Client

/-- The beginning of a call: its id and its frame. -/
def issue (client : Client) (method : String) (params : Option Value) (deadline : Bool) :
    Except WireIoError Call × Client :=
  if client.nextId = u64Max then
    (.error (.invalidResponse "RPC request ID counter overflowed"), client)
  else
    let number := client.nextId
    let client := { client with nextId := number + 1 }
    if (encodeRequest number method params).length + 1 > client.maxFrameBytes then
      (.error (.frameTooLarge client.maxFrameBytes), client)
    else
      let call : Call := { number, method, params, deadline }
      (.ok call, { client with calls := client.calls ++ [call] })

def update (client : Client) (index : Nat) (change : Call → Call) : Client :=
  { client with calls := client.calls.modify index change }

/-- A call gets a place for its response, unless the reader has failed. -/
def register (client : Client) (index : Nat) : Client :=
  match client.calls[index]? with
  | none => client
  | some call =>
    if call.phase = .issued then
      match client.failure with
      | some failure =>
        client.update index fun call =>
          { call with phase := .finished (.error failure.intoWireError) }
      | none =>
        { client with pending := client.pending.insert call.id index }.update index fun call =>
          { call with phase := .queued }
    else client

/-- Every waiting call is told, and later ones are refused. -/
def fail (client : Client) (failure : ClientReadFailure) : Client :=
  { client with
    failure := some (client.failure.getD failure)
    pending := ∅
    calls := client.calls.mapIdx fun index call =>
      if index ∈ client.pending.values then { call with channel := some (.error failure) } else call }

/-- One line of the reader, or the end of its reading. -/
def receive (client : Client) : Except ClientReadFailure Value → Client
  | .error failure => client.fail failure
  | .ok response =>
    match responseId response with
    | .error message => client.fail (.invalidResponse message)
    | .ok id =>
      match client.pending.get? id with
      | none =>
        let shown := match id with
          | .string text => "String(" ++ debugText text ++ ")"
          | .number value => "Number(" ++ value.repr ++ ")"
        client.fail (.invalidResponse ("response id " ++ shown ++ " has no pending request"))
      | some index =>
        { client with pending := client.pending.erase id }.update index fun call =>
          { call with channel := some (.ok response) }

/-- The socket takes bytes of the frame that is being written. -/
def accept (client : Client) (index bytes : Nat) : Client :=
  match client.calls[index]? with
  | none => client
  | some call =>
    match call.phase with
    | .writing accepted =>
      if 0 < bytes ∧ accepted + bytes ≤ call.frame.length then
        let client := { client with
          socket := client.socket ++ (call.frame.drop accepted).take bytes }
        if accepted + bytes = call.frame.length then
          { client with writer := none }.update index fun call => { call with phase := .awaiting }
        else client.update index fun call => { call with phase := .writing (accepted + bytes) }
      else client
    | _ => client

/-- A call with a deadline is dropped, and with it its lock. -/
def expire (client : Client) (index : Nat) : Client :=
  match client.calls[index]? with
  | none => client
  | some call =>
    let failed : Call → Call := fun call =>
      { call with phase := .failed (.deadlineExceeded call.method) }
    if call.deadline then
      match call.phase with
      | .queued | .awaiting => client.update index failed
      | .writing _ => { client with writer := none }.update index failed
      | .issued | .failed _ | .finished _ => client
    else client

/-- The socket refuses what is left of a frame, and the lock is released. -/
def failWrite (client : Client) (index : Nat) (message : String) : Client :=
  match client.calls[index]? with
  | none => client
  | some call =>
    match call.phase with
    | .writing _ =>
      { client with writer := none }.update index fun call =>
        { call with phase := .failed (.io message) }
    | _ => client

/-- A call takes the response that was sent to it. -/
def takeResponse (client : Client) (index : Nat) : Client :=
  match client.calls[index]? with
  | none => client
  | some call =>
    match call.phase, call.channel with
    | .awaiting, some (.ok response) =>
      client.update index fun call => { call with phase := .finished (resultOf response) }
    | .awaiting, some (.error failure) =>
      client.update index fun call => { call with phase := .failed failure.intoWireError }
    | _, _ => client

/-- A call that has failed removes its id. -/
def removeId (client : Client) (index : Nat) : Client :=
  match client.calls[index]? with
  | none => client
  | some call =>
    match call.phase with
    | .failed error =>
      { client with pending := client.pending.erase call.id }.update index
        fun call => { call with phase := .finished (.error error) }
    | _ => client

/-- A call that waits for the writer gets it. -/
def lock (client : Client) (index : Nat) : Client :=
  match client.calls[index]? with
  | none => client
  | some call =>
    if client.writer = none ∧ call.phase = .queued then
      { client with writer := some index }.update index fun call => { call with phase := .writing 0 }
    else client

end Client

inductive Act
  | call (method : String) (params : Option Value) (deadline : Bool)
  | register (index : Nat)
  | lock (index : Nat)
  | accept (index bytes : Nat)
  | expire (index : Nat)
  | failWrite (index : Nat) (message : String)
  | receive (line : Except ClientReadFailure Value)
  | takeResponse (index : Nat)
  | removeId (index : Nat)

namespace Client

def step (client : Client) : Act → Client
  | .call method params deadline => (client.issue method params deadline).2
  | .register index => client.register index
  | .lock index => client.lock index
  | .accept index bytes => client.accept index bytes
  | .expire index => client.expire index
  | .failWrite index message => client.failWrite index message
  | .receive line => if client.failure = none then client.receive line else client
  | .takeResponse index => client.takeResponse index
  | .removeId index => client.removeId index

def run (client : Client) (acts : List Act) : Client := acts.foldl step client

end Client

end Tally.Wire
