import Tally.Wire.Client

/-!
# What the client puts on the socket

A step of the client is one of the turns of `Turn`. Two invariants follow the turns: the bytes on the
socket are whole frames and the accepted part of the frame whose call holds the writer (`Written`),
and a response is sent to the call that has its id (`Routed`). The first needs that no call whose frame is
partly written is dropped by a deadline or by a write that fails (`Undisturbed`).
-/

namespace Tally.Wire

open Tally.Lib

theorem requestId_inj {a b : Nat} : requestId a = requestId b ↔ a = b := by
  refine ⟨fun h => ?_, fun h => by rw [h]⟩
  have hlist := congrArg String.toList h
  simp only [requestId, String.toList_append, List.append_cancel_left_eq, Nat.toList_repr] at hlist
  have hdigits := congrArg (Nat.ofDigitChars 10 · 0) hlist
  simpa [Nat.ofDigitChars_toDigits] using hdigits

theorem Call.id_inj {a b : Call} : a.id = b.id ↔ a.number = b.number := by
  rw [Call.id, Call.id, RequestId.string.injEq, requestId_inj]

/-- A frame has one line feed, at its end. -/
theorem lf_not_mem_encodeRequest (n : Nat) (method : String) (params : Option Value) :
    lf ∉ encodeRequest n method params :=
  lf_not_mem_encode (newline_not_mem_render _)

/-- A registered call whose exchange goes on. -/
def Phase.Live : Phase → Prop
  | .queued | .writing _ | .awaiting => True
  | .issued | .failed _ | .finished _ => False

/-- How much of the frame the socket has taken, while it is being written. -/
def Phase.accepted : Phase → Nat
  | .writing accepted => accepted
  | _ => 0

/-! ## Turns -/

namespace Client

/-- What a step does, case by case. -/
inductive Turn (client : Client) : Act → Client → Prop
  | idle (act : Act) : Turn client act client
  | skipped (method : String) (params : Option Value) (deadline : Bool) :
    Turn client (.call method params deadline) { client with nextId := client.nextId + 1 }
  | issued (method : String) (params : Option Value) (deadline : Bool) :
    Turn client (.call method params deadline)
      { client with
        nextId := client.nextId + 1
        calls := client.calls ++ [{ number := client.nextId, method, params, deadline }] }
  | refused {index : Nat} {call : Call} {failure : ClientReadFailure}
    (hcall : client.calls[index]? = some call) (hphase : call.phase = .issued) :
    Turn client (.register index) (client.update index fun call =>
      { call with phase := .finished (.error failure.intoWireError) })
  | registered {index : Nat} {call : Call}
    (hcall : client.calls[index]? = some call) (hphase : call.phase = .issued) :
    Turn client (.register index)
      ({ client with pending := client.pending.insert call.id index }.update index fun call =>
        { call with phase := .queued })
  | locked {index : Nat} {call : Call}
    (hcall : client.calls[index]? = some call) (hphase : call.phase = .queued)
    (hfree : client.writer = none) :
    Turn client (.lock index)
      ({ client with writer := some index }.update index fun call =>
        { call with phase := .writing 0 })
  | accepted {index bytes n : Nat} {call : Call}
    (hcall : client.calls[index]? = some call) (hphase : call.phase = .writing n)
    (hlen : n + bytes < call.frame.length) :
    Turn client (.accept index bytes)
      ({ client with socket := client.socket ++ (call.frame.drop n).take bytes }.update index
        fun call => { call with phase := .writing (n + bytes) })
  | written {index bytes n : Nat} {call : Call}
    (hcall : client.calls[index]? = some call) (hphase : call.phase = .writing n)
    (hlen : n + bytes = call.frame.length) :
    Turn client (.accept index bytes)
      ({ client with
          socket := client.socket ++ (call.frame.drop n).take bytes
          writer := none }.update index fun call => { call with phase := .awaiting })
  | dropped {index : Nat} {call : Call}
    (hcall : client.calls[index]? = some call)
    (hphase : call.phase = .queued ∨ call.phase = .awaiting) :
    Turn client (.expire index) (client.update index fun call =>
      { call with phase := .failed (.deadlineExceeded call.method) })
  | torn {index n : Nat} {call : Call}
    (hcall : client.calls[index]? = some call) (hphase : call.phase = .writing n) :
    Turn client (.expire index)
      ({ client with writer := none }.update index fun call =>
        { call with phase := .failed (.deadlineExceeded call.method) })
  | broken {index n : Nat} {message : String} {call : Call}
    (hcall : client.calls[index]? = some call) (hphase : call.phase = .writing n) :
    Turn client (.failWrite index message)
      ({ client with writer := none }.update index fun call =>
        { call with phase := .failed (.io message) })
  | told (line : Except ClientReadFailure Value) (failure : ClientReadFailure) :
    Turn client (.receive line) (client.fail failure)
  | delivered {response : Value} {id : RequestId} {index : Nat}
    (hid : responseId response = .ok id) (hpending : client.pending.get? id = some index) :
    Turn client (.receive (.ok response))
      ({ client with pending := client.pending.erase id }.update index fun call =>
        { call with channel := some (.ok response) })
  | taken {index : Nat} {call : Call} {response : Value}
    (hcall : client.calls[index]? = some call) (hphase : call.phase = .awaiting)
    (hchannel : call.channel = some (.ok response)) :
    Turn client (.takeResponse index) (client.update index fun call =>
      { call with phase := .finished (resultOf response) })
  | missed {index : Nat} {call : Call} {failure : ClientReadFailure}
    (hcall : client.calls[index]? = some call) (hphase : call.phase = .awaiting) :
    Turn client (.takeResponse index) (client.update index fun call =>
      { call with phase := .failed failure.intoWireError })
  | removed {index : Nat} {call : Call} {error : WireIoError}
    (hcall : client.calls[index]? = some call) (hphase : call.phase = .failed error) :
    Turn client (.removeId index)
      ({ client with pending := client.pending.erase call.id }.update index fun call =>
        { call with phase := .finished (.error error) })

theorem turn_receive (client : Client) (line : Except ClientReadFailure Value) :
    Turn client (.receive line) (client.receive line) := by
  cases line with
  | error failure => exact .told _ failure
  | ok response =>
    rw [receive]
    split
    · exact .told _ _
    · next id hid =>
      split
      · exact .told _ _
      · next index hpending => exact .delivered hid hpending

theorem turn_step (client : Client) (act : Act) : Turn client act (client.step act) := by
  cases act with
  | call method params deadline =>
    rw [step, issue]
    split
    · exact .idle _
    · dsimp only
      split
      · exact .skipped ..
      · exact .issued ..
  | register index =>
    rw [step, register]
    split
    · exact .idle _
    · next call hcall =>
      split
      · next hphase =>
        split
        · exact .refused hcall hphase
        · exact .registered hcall hphase
      · exact .idle _
  | lock index =>
    rw [step, lock]
    split
    · exact .idle _
    · next call hcall =>
      split
      · next h => exact .locked hcall h.2 h.1
      · exact .idle _
  | accept index bytes =>
    rw [step, accept]
    split
    · exact .idle _
    · next call hcall =>
      split
      · next n hphase =>
        split
        · next h =>
          dsimp only
          split
          · next hlen => exact .written hcall hphase hlen
          · next hlen => exact .accepted hcall hphase (by omega)
        · exact .idle _
      · exact .idle _
  | expire index =>
    rw [step, expire]
    split
    · exact .idle _
    · next call hcall =>
      dsimp only
      split
      · split
        · next hphase => exact .dropped hcall (.inl hphase)
        · next hphase => exact .dropped hcall (.inr hphase)
        · next n hphase => exact .torn hcall hphase
        all_goals exact .idle _
      · exact .idle _
  | failWrite index message =>
    rw [step, failWrite]
    split
    · exact .idle _
    · next call hcall =>
      split
      · next n hphase => exact .broken hcall hphase
      · exact .idle _
  | receive line =>
    rw [step]
    split
    · exact turn_receive client line
    · exact .idle _
  | takeResponse index =>
    rw [step, takeResponse]
    split
    · exact .idle _
    · next call hcall =>
      split
      · next hphase hchannel => exact .taken hcall hphase hchannel
      · next hphase hchannel => exact .missed hcall hphase
      · exact .idle _
  | removeId index =>
    rw [step, removeId]
    split
    · exact .idle _
    · next call hcall =>
      split
      · next hphase => exact .removed hcall hphase
      · exact .idle _

end Client

/-! ## The writer -/

/-- What the writer sees of a call: its frame, and how much of it the socket has taken. -/
def Call.lane (call : Call) : Bytes × Option Nat :=
  (call.frame, match call.phase with
    | .writing accepted => some accepted
    | _ => none)

/-- The socket has whole frames, and the accepted part of the frame of the call that holds the
writer. -/
structure Written (writer : Option Nat) (socket : Bytes) (lanes : List (Bytes × Option Nat)) :
    Prop where
  held : ∀ {i : Nat} {frame : Bytes} {n : Nat}, lanes[i]? = some (frame, some n) → writer = some i
  split : ∃ frames : List Bytes, (∀ frame ∈ frames, frame ∈ lanes.map Prod.fst) ∧
    (writer = none → socket = frames.flatten) ∧
    ∀ i, writer = some i → ∃ frame n, lanes[i]? = some (frame, some n) ∧ n < frame.length ∧
      socket = frames.flatten ++ frame.take n

namespace Written

variable {writer : Option Nat} {socket : Bytes} {lanes : List (Bytes × Option Nat)}
  {i n bytes : Nat} {frame : Bytes} {m? : Option Nat}

theorem empty : Written none [] [] := by
  refine ⟨by simp, [], by simp, fun _ => rfl, ?_⟩
  intro i hi
  cases hi

/-- A lane keeps its frame. -/
theorem frames_set (hlane : lanes[i]? = some (frame, m?)) (n? : Option Nat) :
    (lanes.set i (frame, n?)).map Prod.fst = lanes.map Prod.fst := by
  rw [List.map_set]
  apply List.ext_getElem?
  intro j
  rw [List.getElem?_set]
  split
  · next hij =>
    subst hij
    obtain ⟨hlt, hget⟩ := List.getElem?_eq_some_iff.mp hlane
    simp [hlt, hget]
  · rfl

theorem getElem?_set_lane (hlane : lanes[i]? = some (frame, m?)) (n? : Option Nat) :
    (lanes.set i (frame, n?))[i]? = some (frame, n?) :=
  List.getElem?_set_self (List.getElem?_eq_some_iff.mp hlane).1

/-- Only the lane that has moved can be a new holder. -/
theorem held_set (h : Written writer socket lanes) {n? : Option Nat} {j k : Nat} {other : Bytes}
    (hj : (lanes.set i (frame, n?))[j]? = some (other, some k)) : writer = some j ∨ i = j ∧ n? = some k := by
  rw [List.getElem?_set] at hj
  split at hj
  · next hij =>
    split at hj
    · simp only [Option.some.injEq, Prod.mk.injEq] at hj
      exact .inr ⟨hij, hj.2⟩
    · cases hj
  · exact .inl (h.held hj)

theorem concat (h : Written writer socket lanes) (frame : Bytes) :
    Written writer socket (lanes ++ [(frame, none)]) := by
  obtain ⟨frames, hframes, hfree, hheld⟩ := h.split
  refine ⟨?_, frames, ?_, hfree, ?_⟩
  · intro i other n hi
    rw [List.getElem?_append] at hi
    split at hi
    · exact h.held hi
    · rw [List.getElem?_singleton] at hi
      split at hi <;> simp at hi
  · intro f hf
    rw [List.map_append]
    exact List.mem_append_left _ (hframes f hf)
  · intro i hi
    obtain ⟨f, n, hlane, hn, hsocket⟩ := hheld i hi
    exact ⟨f, n, by rw [List.getElem?_append_left (List.getElem?_eq_some_iff.mp hlane).1, hlane],
      hn, hsocket⟩

theorem lock (h : Written none socket lanes) (hlane : lanes[i]? = some (frame, m?))
    (hframe : 0 < frame.length) : Written (some i) socket (lanes.set i (frame, some 0)) := by
  obtain ⟨frames, hframes, hfree, -⟩ := h.split
  refine ⟨?_, frames, ?_, nofun, ?_⟩
  · intro j other k hj
    rcases h.held_set hj with hwriter | ⟨hij, -⟩
    · cases hwriter
    · rw [hij]
  · rwa [frames_set hlane]
  · intro j hj
    cases hj
    exact ⟨frame, 0, getElem?_set_lane hlane _, hframe, by simpa using hfree rfl⟩

/-- The lane of the holder, and the frames before its own. -/
theorem holder (h : Written writer socket lanes) (hlane : lanes[i]? = some (frame, some n)) :
    writer = some i ∧ n < frame.length ∧
      ∃ frames : List Bytes, (∀ frame ∈ frames, frame ∈ lanes.map Prod.fst) ∧
        socket = frames.flatten ++ frame.take n := by
  obtain ⟨frames, hframes, -, hheld⟩ := h.split
  obtain ⟨frame', n', hlane', hn, hsocket⟩ := hheld i (h.held hlane)
  rw [hlane] at hlane'
  cases hlane'
  exact ⟨h.held hlane, hn, frames, hframes, hsocket⟩

/-- After the holder has released the writer, no lane is being written. -/
theorem not_held_set_none (h : Written writer socket lanes)
    (hlane : lanes[i]? = some (frame, some n)) {j k : Nat} {other : Bytes} :
    (lanes.set i (frame, none))[j]? ≠ some (other, some k) := by
  intro hj
  rcases h.held_set hj with hwriter | ⟨-, hnone⟩
  · rw [(h.holder hlane).1] at hwriter
    cases hwriter
    rw [getElem?_set_lane hlane] at hj
    cases hj
  · cases hnone

theorem accept (h : Written writer socket lanes) (hlane : lanes[i]? = some (frame, some n))
    (hlen : n + bytes < frame.length) :
    Written writer (socket ++ (frame.drop n).take bytes) (lanes.set i (frame, some (n + bytes))) := by
  obtain ⟨hwriter, -, frames, hframes, hsocket⟩ := h.holder hlane
  refine ⟨?_, frames, ?_, ?_, ?_⟩
  · intro j other k hj
    rcases h.held_set hj with hj' | ⟨hij, -⟩
    · exact hj'
    · rw [hwriter, hij]
  · rwa [frames_set hlane]
  · intro hnone
    rw [hwriter] at hnone
    cases hnone
  · intro j hj
    rw [hwriter] at hj
    cases hj
    refine ⟨frame, n + bytes, getElem?_set_lane hlane _, hlen, ?_⟩
    rw [hsocket, List.append_assoc, List.take_add]

theorem finish (h : Written writer socket lanes) (hlane : lanes[i]? = some (frame, some n))
    (hlen : n + bytes = frame.length) :
    Written none (socket ++ (frame.drop n).take bytes) (lanes.set i (frame, none)) := by
  obtain ⟨hwriter, -, frames, hframes, hsocket⟩ := h.holder hlane
  refine ⟨fun hj => absurd hj (h.not_held_set_none hlane), frames ++ [frame], ?_, ?_, nofun⟩
  · intro f hf
    rw [frames_set hlane]
    rcases List.mem_append.mp hf with hf | hf
    · exact hframes f hf
    · rw [List.mem_singleton.mp hf]
      exact List.mem_map.mpr ⟨_, List.mem_of_getElem? hlane, rfl⟩
  · intro _
    rw [hsocket, List.append_assoc, ← List.take_add, hlen]
    simp

/-- A holder of which nothing was accepted leaves nothing behind. -/
theorem abandon (h : Written writer socket lanes) (hlane : lanes[i]? = some (frame, some 0)) :
    Written none socket (lanes.set i (frame, none)) := by
  obtain ⟨hwriter, -, frames, hframes, hsocket⟩ := h.holder hlane
  refine ⟨fun hj => absurd hj (h.not_held_set_none hlane), frames, ?_, ?_, nofun⟩
  · rwa [frames_set hlane]
  · intro _
    simpa using hsocket

end Written

section Calls

variable {calls : List Call} {index : Nat} {call : Call} {change : Call → Call}

theorem getElem?_modify_call (calls : List Call) (index i : Nat) (change : Call → Call) :
    (calls.modify index change)[i]? = if index = i then calls[i]?.map change else calls[i]? := by
  rw [List.getElem?_modify]
  split <;> simp

theorem lanes_modify (hcall : calls[index]? = some call) (change : Call → Call) :
    (calls.modify index change).map Call.lane = (calls.map Call.lane).set index (change call).lane := by
  apply List.ext_getElem?
  intro i
  rw [List.getElem?_map, getElem?_modify_call, List.getElem?_set]
  split
  · next hi =>
    subst hi
    obtain ⟨hlt, hget⟩ := List.getElem?_eq_some_iff.mp hcall
    simp [hlt, hget]
  · rw [List.getElem?_map]

theorem getElem?_lanes (hcall : calls[index]? = some call) :
    (calls.map Call.lane)[index]? = some call.lane := by
  rw [List.getElem?_map, hcall, Option.map_some]

/-- A change that the writer does not see. -/
theorem lanes_modify_of_eq (h : ∀ call, calls[index]? = some call → (change call).lane = call.lane) :
    (calls.modify index change).map Call.lane = calls.map Call.lane := by
  apply List.ext_getElem?
  intro i
  rw [List.getElem?_map, getElem?_modify_call, List.getElem?_map]
  split
  · next hi =>
    subst hi
    cases hcall : calls[index]? with
    | none => rfl
    | some call => simp [h call hcall]
  · rfl

theorem getElem?_lanes_writing {n : Nat} (hcall : calls[index]? = some call)
    (hphase : call.phase = .writing n) :
    (calls.map Call.lane)[index]? = some (call.frame, some n) := by
  rw [getElem?_lanes hcall, Call.lane, hphase]

theorem Call.frame_ne_nil (call : Call) : 0 < call.frame.length := by simp [Call.frame]

end Calls

namespace Client

def Writes (client : Client) : Prop :=
  Written client.writer client.socket (client.calls.map Call.lane)

variable {client client' : Client} {act : Act}

theorem lanes_fail (client : Client) (failure : ClientReadFailure) :
    (client.fail failure).calls.map Call.lane = client.calls.map Call.lane := by
  apply List.ext_getElem?
  intro i
  rw [List.getElem?_map, List.getElem?_map, fail, List.getElem?_mapIdx, Option.map_map]
  congr 1
  funext call
  rw [Function.comp]
  split <;> rfl

/-- The step drops no call whose frame is partly written, by a deadline or by a write that fails. -/
def Undisturbs (client : Client) : Act → Prop
  | .expire index | .failWrite index _ => ∀ call ∈ client.calls[index]?, call.phase.accepted = 0
  | _ => True

instance (client : Client) : (act : Act) → Decidable (client.Undisturbs act)
  | .expire index | .failWrite index _ =>
    inferInstanceAs (Decidable (∀ call ∈ client.calls[index]?, call.phase.accepted = 0))
  | .call .. | .register _ | .lock _ | .accept .. | .receive _ | .takeResponse _ | .removeId _ =>
    inferInstanceAs (Decidable True)

theorem Writes.turn (h : client.Writes) (hturn : Turn client act client')
    (hundisturbed : client.Undisturbs act) : client'.Writes := by
  cases hturn with
  | idle | skipped => exact h
  | issued method params deadline =>
    rw [Writes, List.map_append]
    exact h.concat _
  | told line failure =>
    rw [Writes, lanes_fail]
    exact h
  | locked hcall hphase hfree =>
    rw [Writes, update, lanes_modify hcall]
    rw [Writes, hfree] at h
    have hlane := getElem?_lanes hcall
    exact h.lock hlane (Call.frame_ne_nil _)
  | accepted hcall hphase hlen =>
    rw [Writes, update, lanes_modify hcall]
    exact Written.accept h (getElem?_lanes_writing hcall hphase) hlen
  | written hcall hphase hlen =>
    rw [Writes, update, lanes_modify hcall]
    exact Written.finish h (getElem?_lanes_writing hcall hphase) hlen
  | torn hcall hphase | broken hcall hphase =>
    rw [Writes, update, lanes_modify hcall]
    have hzero := hundisturbed _ hcall
    rw [hphase, Phase.accepted] at hzero
    subst hzero
    have hlane := getElem?_lanes_writing hcall hphase
    exact Written.abandon h hlane
  | delivered hid hpending =>
    rw [Writes, update, lanes_modify_of_eq]
    · exact h
    · intro call _
      rfl
  | dropped hcall hphase =>
    rw [Writes, update, lanes_modify_of_eq]
    · exact h
    · intro call hcall'
      cases hcall.symm.trans hcall'
      rcases hphase with hphase | hphase <;> simp [Call.lane, Call.frame, hphase]
  | refused hcall hphase | registered hcall hphase | taken hcall hphase | missed hcall hphase
    | removed hcall hphase =>
    rw [Writes, update, lanes_modify_of_eq]
    · exact h
    · intro call hcall'
      cases hcall.symm.trans hcall'
      simp [Call.lane, Call.frame, hphase]

/-! ## Responses -/

/-- What was sent to a call carries its id, and a live call to which nothing was sent has its
place among the waiting ones. -/
structure Served (place : Option Nat) (index : Nat) (call : Call) : Prop where
  unsent : call.phase = .issued → call.channel = none
  live : call.phase.Live → call.channel = none → place = some index
  carried : ∀ response, call.channel = some (.ok response) → responseId response = .ok call.id
  answered : ∀ value, call.phase = .finished (.ok value) →
    ∃ response, call.channel = some (.ok response) ∧ resultOf response = .ok value

/-- The ids of the calls differ, and a place among the waiting ones is that of a call which has the
id and waits. -/
structure Routed (client : Client) : Prop where
  fresh : ∀ (i : Nat) (call : Call), client.calls[i]? = some call → call.number < client.nextId
  distinct : ∀ (i j : Nat) (a b : Call), client.calls[i]? = some a → client.calls[j]? = some b →
    a.number = b.number → i = j
  waiting : ∀ (id : RequestId) (i : Nat), client.pending.get? id = some i →
    ∃ call, client.calls[i]? = some call ∧ id = call.id ∧ call.channel = none ∧ call.phase ≠ .issued
  served : ∀ (i : Nat) (call : Call), client.calls[i]? = some call →
    Served (client.pending.get? call.id) i call

namespace Routed

variable {index : Nat} {call : Call} {phase : Call → Phase}

theorem empty (maxFrameBytes : Nat) : Routed { maxFrameBytes } := by
  constructor <;> simp

theorem eq_of_id_eq (h : Routed client) {i j : Nat} {a b : Call} (hi : client.calls[i]? = some a)
    (hj : client.calls[j]? = some b) (hid : a.id = b.id) : i = j :=
  h.distinct i j a b hi hj (Call.id_inj.mp hid)

theorem getElem?_modify_phase {calls : List Call} {i : Nat} {after : Call}
    (h : (calls.modify index fun call => { call with phase := phase call })[i]? = some after) :
    ∃ before, calls[i]? = some before ∧
      after = { before with phase := if index = i then phase before else before.phase } := by
  rw [getElem?_modify_call] at h
  split at h
  · next hi =>
    obtain ⟨before, hbefore, rfl⟩ := Option.map_eq_some_iff.mp h
    exact ⟨before, hbefore, by rw [if_pos hi]⟩
  · next hi => exact ⟨after, h, by rw [if_neg hi]⟩

/-- The places are kept for another one of the calls, or taken from it; the others keep theirs. -/
theorem update (h : Routed client) (hcall : client.calls[index]? = some call)
    (pending : Dict RequestId Nat) (writer : Option Nat) (socket : Bytes)
    (hothers : ∀ id, id ≠ call.id → pending.get? id = client.pending.get? id)
    (hown : ∀ i, pending.get? call.id = some i → i = index ∧ call.channel = none)
    (hissued : phase call ≠ .issued)
    (hlive : (phase call).Live → call.channel = none → pending.get? call.id = some index)
    (hanswer : ∀ value, phase call = .finished (.ok value) →
      ∃ response, call.channel = some (.ok response) ∧ resultOf response = .ok value) :
    Routed ({ client with pending, writer, socket }.update index fun call =>
      { call with phase := phase call }) where
  fresh i after hi := by
    obtain ⟨before, hbefore, rfl⟩ := getElem?_modify_phase hi
    exact h.fresh i before hbefore
  distinct i j a b hi hj hab := by
    obtain ⟨a', ha, rfl⟩ := getElem?_modify_phase hi
    obtain ⟨b', hb, rfl⟩ := getElem?_modify_phase hj
    exact h.distinct i j a' b' ha hb hab
  waiting id i hi := by
    by_cases hid : id = call.id
    · subst hid
      obtain ⟨rfl, hchannel⟩ := hown i hi
      refine ⟨{ call with phase := phase call }, ?_, rfl, hchannel, hissued⟩
      exact (getElem?_modify_call ..).trans (by rw [if_pos rfl, hcall, Option.map_some])
    · obtain ⟨other, hother, rfl, hchannel, hphase⟩ := h.waiting id i ((hothers id hid).symm.trans hi)
      have hne : index ≠ i := by
        rintro rfl
        rw [hcall] at hother
        cases hother
        exact hid rfl
      exact ⟨other, (getElem?_modify_call ..).trans (by rw [if_neg hne, hother]), rfl, hchannel, hphase⟩
  served i after hi := by
    obtain ⟨before, hbefore, rfl⟩ := getElem?_modify_phase hi
    by_cases hindex : index = i
    · subst hindex
      rw [hcall] at hbefore
      cases hbefore
      rw [if_pos rfl]
      exact ⟨fun hphase => absurd hphase hissued, hlive, (h.served _ _ hcall).carried, hanswer⟩
    · rw [if_neg hindex]
      have hid : before.id ≠ call.id := fun hid => hindex (h.eq_of_id_eq hbefore hcall hid).symm
      have hserved := h.served i before hbefore
      rw [← hothers _ hid] at hserved
      exact hserved

/-- A step of a call that leaves the places as they are. -/
theorem move (h : Routed client) (hcall : client.calls[index]? = some call)
    (writer : Option Nat) (socket : Bytes) (hissued : phase call ≠ .issued)
    (hlive : (phase call).Live → call.phase.Live)
    (hanswer : ∀ value, phase call = .finished (.ok value) →
      ∃ response, call.channel = some (.ok response) ∧ resultOf response = .ok value) :
    Routed ({ client with writer, socket }.update index fun call =>
      { call with phase := phase call }) := by
  refine h.update hcall client.pending writer socket (fun _ _ => rfl) ?_ hissued ?_ hanswer
  · intro i hi
    obtain ⟨other, hother, hid, hchannel, -⟩ := h.waiting _ i hi
    have hi := h.eq_of_id_eq hother hcall hid.symm
    subst hi
    rw [hcall] at hother
    cases hother
    exact ⟨rfl, hchannel⟩
  · intro hphase hchannel
    exact (h.served _ _ hcall).live (hlive hphase) hchannel

theorem skip (h : Routed client) : Routed { client with nextId := client.nextId + 1 } where
  fresh i call hi := Nat.lt_succ_of_lt (h.fresh i call hi)
  distinct := h.distinct
  waiting := h.waiting
  served := h.served

theorem issue (h : Routed client) (hnumber : call.number = client.nextId)
    (hphase : call.phase = .issued) (hchannel : call.channel = none) :
    Routed { client with nextId := client.nextId + 1, calls := client.calls ++ [call] } := by
  -- a call of the list after the step is an old one, or the new one at the end
  have hcases : ∀ (i : Nat) (other : Call), (client.calls ++ [call])[i]? = some other →
      client.calls[i]? = some other ∨ i = client.calls.length ∧ other = call := by
    intro i other hi
    rw [List.getElem?_append] at hi
    split at hi
    · exact .inl hi
    · next hlen =>
      rw [List.getElem?_singleton] at hi
      split at hi
      · next hzero => exact .inr ⟨by omega, by cases hi; rfl⟩
      · cases hi
  refine ⟨?_, ?_, ?_, ?_⟩
  · intro i other hi
    rcases hcases i other hi with hold | ⟨-, rfl⟩
    · exact Nat.lt_succ_of_lt (h.fresh i other hold)
    · exact Nat.lt_succ_of_le hnumber.le
  · intro i j a b hi hj hab
    rcases hcases i a hi with ha | ⟨rfl, rfl⟩ <;> rcases hcases j b hj with hb | ⟨rfl, rfl⟩
    · exact h.distinct i j a b ha hb hab
    · have := h.fresh i a ha
      omega
    · have := h.fresh j b hb
      omega
    · rfl
  · intro id i hi
    obtain ⟨other, hother, hrest⟩ := h.waiting id i hi
    refine ⟨other, ?_, hrest⟩
    exact (List.getElem?_append_left (List.getElem?_eq_some_iff.mp hother).1).trans hother
  · intro i other hi
    rcases hcases i other hi with hold | ⟨rfl, rfl⟩
    · exact h.served i other hold
    · refine ⟨fun _ => hchannel, ?_, ?_, ?_⟩ <;> simp [hphase, hchannel, Phase.Live]

theorem deliver (h : Routed client) {response : Value} {id : RequestId}
    (hid : responseId response = .ok id) (hpending : client.pending.get? id = some index) :
    Routed ({ client with pending := client.pending.erase id }.update index fun call =>
      { call with channel := some (.ok response) }) := by
  obtain ⟨receiver, hreceiver, rfl, hchannel, hissued⟩ := h.waiting id index hpending
  have hcases : ∀ (i : Nat) (after : Call), (client.calls.modify index fun call =>
      { call with channel := some (.ok response) })[i]? = some after →
      i ≠ index ∧ client.calls[i]? = some after ∨
        i = index ∧ after = { receiver with channel := some (.ok response) } := by
    intro i after hi
    rw [getElem?_modify_call] at hi
    split at hi
    · next hindex =>
      subst hindex
      rw [hreceiver] at hi
      cases hi
      exact .inr ⟨rfl, rfl⟩
    · next hindex => exact .inl ⟨Ne.symm hindex, hi⟩
  -- its number is that of the call before it
  have hbefore : ∀ (i : Nat) (after : Call), (client.calls.modify index fun call =>
      { call with channel := some (.ok response) })[i]? = some after →
      ∃ before, client.calls[i]? = some before ∧ after.number = before.number := by
    intro i after hi
    rcases hcases i after hi with ⟨-, hold⟩ | ⟨rfl, rfl⟩
    · exact ⟨after, hold, rfl⟩
    · exact ⟨receiver, hreceiver, rfl⟩
  refine ⟨?_, ?_, ?_, ?_⟩
  · intro i after hi
    obtain ⟨before, hold, hnumber⟩ := hbefore i after hi
    rw [hnumber]
    exact h.fresh i before hold
  · intro i j a b hi hj hab
    obtain ⟨a', ha, hanumber⟩ := hbefore i a hi
    obtain ⟨b', hb, hbnumber⟩ := hbefore j b hj
    exact h.distinct i j a' b' ha hb (by omega)
  · intro other i hi
    rw [Client.update, Dict.get?_erase] at hi
    split at hi
    · cases hi
    · next hne =>
      obtain ⟨call, hcall, rfl, hrest⟩ := h.waiting other i hi
      have hindex : index ≠ i := by
        rintro rfl
        rw [hreceiver] at hcall
        cases hcall
        exact hne rfl
      exact ⟨call, (getElem?_modify_call ..).trans (by rw [if_neg hindex, hcall]), rfl, hrest⟩
  · intro i after hi
    rcases hcases i after hi with ⟨hindex, hold⟩ | ⟨rfl, rfl⟩
    · have hne : after.id ≠ receiver.id := fun hid => hindex (h.eq_of_id_eq hold hreceiver hid)
      have hserved := h.served i after hold
      rw [← Dict.get?_erase_ne client.pending hne] at hserved
      exact hserved
    · refine ⟨fun hphase => absurd hphase hissued, fun _ h => (by cases h), ?_, ?_⟩
      · intro other hother
        cases hother
        exact hid
      · intro value hvalue
        obtain ⟨other, hother, -⟩ := (h.served _ _ hreceiver).answered value hvalue
        rw [hchannel] at hother
        cases hother

theorem fail (h : Routed client) (failure : ClientReadFailure) : Routed (client.fail failure) := by
  -- a call is told if it had a place, and else it stays as it was
  have hcases : ∀ (i : Nat) (after : Call), (client.fail failure).calls[i]? = some after →
      ∃ before, client.calls[i]? = some before ∧ after.number = before.number ∧
        after.phase = before.phase ∧
        (client.pending.get? before.id = some i ∧ after.channel = some (.error failure) ∧
            before.channel = none ∧ before.phase ≠ .issued ∨
          client.pending.get? before.id ≠ some i ∧ after.channel = before.channel) := by
    intro i after hi
    rw [Client.fail, List.getElem?_mapIdx] at hi
    obtain ⟨before, hbefore, rfl⟩ := Option.map_eq_some_iff.mp hi
    refine ⟨before, hbefore, ?_⟩
    split
    · next hmem =>
      obtain ⟨id, hid⟩ := (Dict.mem_values_iff _).mp hmem
      obtain ⟨call, hcall, rfl, hchannel, hissued⟩ := h.waiting id i hid
      rw [hbefore] at hcall
      cases hcall
      exact ⟨rfl, rfl, .inl ⟨hid, rfl, hchannel, hissued⟩⟩
    · next hmem =>
      refine ⟨rfl, rfl, .inr ⟨fun hid => hmem ?_, rfl⟩⟩
      exact (Dict.mem_values_iff _).mpr ⟨_, hid⟩
  refine ⟨?_, ?_, fun _ _ h => (by cases h), ?_⟩
  · intro i after hi
    obtain ⟨before, hbefore, hnumber, -⟩ := hcases i after hi
    rw [hnumber]
    exact h.fresh i before hbefore
  · intro i j a b hi hj hab
    obtain ⟨a', ha, hanumber, -⟩ := hcases i a hi
    obtain ⟨b', hb, hbnumber, -⟩ := hcases j b hj
    exact h.distinct i j a' b' ha hb (by omega)
  · intro i after hi
    obtain ⟨before, hbefore, hnumber, hphase, htold⟩ := hcases i after hi
    have hserved := h.served i before hbefore
    rcases htold with ⟨-, hafter, hnone, hissued⟩ | ⟨hplace, hchannel⟩
    · refine ⟨?_, ?_, ?_, ?_⟩
      · intro h'
        exact absurd (hphase ▸ h') hissued
      · intro _ h'
        rw [hafter] at h'
        cases h'
      · intro response h'
        rw [hafter] at h'
        cases h'
      · intro value h'
        obtain ⟨response, hresponse, -⟩ := hserved.answered value (hphase ▸ h')
        rw [hnone] at hresponse
        cases hresponse
    · rw [Call.id, hnumber, ← Call.id]
      refine ⟨?_, ?_, ?_, ?_⟩
      · intro h'
        rw [hchannel]
        exact hserved.unsent (hphase ▸ h')
      · intro hlive hnone
        exact absurd (hserved.live (hphase ▸ hlive) (hchannel ▸ hnone)) hplace
      · intro response h'
        rw [Call.id, hnumber]
        exact hserved.carried response (hchannel ▸ h')
      · intro value h'
        rw [hchannel]
        exact hserved.answered value (hphase ▸ h')

theorem turn (h : Routed client) (hturn : Turn client act client') : Routed client' := by
  cases hturn with
  | idle => exact h
  | skipped => exact h.skip
  | issued => exact h.issue rfl rfl rfl
  | told line failure => exact h.fail failure
  | delivered hid hpending => exact h.deliver hid hpending
  | @registered index call hcall hphase =>
    refine h.update hcall _ client.writer client.socket ?_ ?_ nofun ?_ nofun
    · intro id hid
      rw [Dict.get?_insert_ne _ _ hid]
    · intro i hi
      rw [Dict.get?_insert_self, Option.some.injEq] at hi
      exact ⟨hi.symm, (h.served _ _ hcall).unsent hphase⟩
    · intro _ _
      rw [Dict.get?_insert_self]
  | @removed index call error hcall hphase =>
    refine h.update hcall _ client.writer client.socket ?_ ?_ nofun nofun nofun
    · intro id hid
      rw [Dict.get?_erase_ne _ hid]
    · intro i hi
      rw [Dict.get?_erase_self] at hi
      cases hi
  | locked hcall hphase hfree | accepted hcall hphase hlen | written hcall hphase hlen =>
    exact h.move hcall _ _ nofun (by simp [hphase, Phase.Live]) nofun
  | refused hcall hphase | dropped hcall hphase | missed hcall hphase | torn hcall hphase
    | broken hcall hphase =>
    exact h.move hcall _ _ nofun nofun nofun
  | taken hcall hphase hchannel =>
    refine h.move hcall client.writer client.socket nofun nofun ?_
    intro value hvalue
    exact ⟨_, hchannel, Phase.finished.inj hvalue⟩

end Routed

/-! ## Runs -/

/-- No step of the run drops a call whose frame is partly written. -/
def Undisturbed : Client → List Act → Prop
  | _, [] => True
  | client, act :: acts => client.Undisturbs act ∧ Undisturbed (client.step act) acts

instance : (client : Client) → (acts : List Act) → Decidable (Undisturbed client acts)
  | _, [] => inferInstanceAs (Decidable True)
  | client, act :: acts =>
    have := instDecidableUndisturbed (client.step act) acts
    inferInstanceAs (Decidable (client.Undisturbs act ∧ Undisturbed (client.step act) acts))

/-- The bytes on the socket are frames of calls, which are lines, and at most one proper part of the
frame of a call that is writing it. -/
def Framed (client : Client) : Prop :=
  ∃ (frames : List Bytes) (torn : Bytes), client.socket = frames.flatten ++ torn ∧
    (∀ frame ∈ frames, (∃ call ∈ client.calls, frame = call.frame) ∧
      ∃ body, frame = body ++ [lf] ∧ lf ∉ body) ∧
    (torn = [] ∨ ∃ call ∈ client.calls, call.phase = .writing torn.length ∧ torn <+: call.frame ∧
      torn ≠ call.frame)

/-- What was sent to a call, and what it has returned, comes from a response with its id, which is
the id of no other call. -/
def Addressed (client : Client) : Prop :=
  ∀ (i : Nat) (call : Call), client.calls[i]? = some call →
    (∀ (j : Nat) (other : Call), client.calls[j]? = some other → other.id = call.id → j = i) ∧
    (∀ response, call.channel = some (.ok response) → responseId response = .ok call.id) ∧
    ∀ value, call.phase = .finished (.ok value) →
      ∃ response, responseId response = .ok call.id ∧ resultOf response = .ok value

/-- A response with the id of a live call that has none yet is sent to this call, and nothing is sent
to another one. -/
def Delivers (client : Client) : Prop :=
  ∀ (i : Nat) (call : Call) (response : Value), client.calls[i]? = some call → call.phase.Live →
    call.channel = none → client.failure = none → responseId response = .ok call.id →
    (client.step (.receive (.ok response))).calls =
      client.calls.set i { call with channel := some (.ok response) }

theorem run_cons (client : Client) (act : Act) (acts : List Act) :
    client.run (act :: acts) = (client.step act).run acts := rfl

theorem invariants_run (hwrites : client.Writes) (hrouted : Routed client) (acts : List Act)
    (hundisturbed : Undisturbed client acts) :
    (client.run acts).Writes ∧ Routed (client.run acts) := by
  induction acts generalizing client with
  | nil => exact ⟨hwrites, hrouted⟩
  | cons act acts ih =>
    rw [run_cons]
    obtain ⟨hstep, hrest⟩ := hundisturbed
    have hturn := turn_step client act
    exact ih (hwrites.turn hturn hstep) (hrouted.turn hturn) hrest

theorem Writes.framed (h : client.Writes) : Framed client := by
  obtain ⟨frames, hframes, hfree, hheld⟩ := h.split
  have hcalls : ∀ frame ∈ frames, (∃ call ∈ client.calls, frame = call.frame) ∧
      ∃ body, frame = body ++ [lf] ∧ lf ∉ body := by
    intro frame hframe
    obtain ⟨lane, hlane, rfl⟩ := List.mem_map.mp (hframes frame hframe)
    obtain ⟨call, hcall, rfl⟩ := List.mem_map.mp hlane
    exact ⟨⟨call, hcall, rfl⟩, _, rfl, lf_not_mem_encodeRequest _ _ _⟩
  cases hwriter : client.writer with
  | none => exact ⟨frames, [], by simpa using hfree hwriter, hcalls, .inl rfl⟩
  | some i =>
    obtain ⟨frame, n, hlane, hn, hsocket⟩ := hheld i hwriter
    rw [List.getElem?_map] at hlane
    obtain ⟨call, hcall, hlane⟩ := Option.map_eq_some_iff.mp hlane
    rw [Call.lane, Prod.mk.injEq] at hlane
    obtain ⟨rfl, hphase⟩ := hlane
    have hlen : (call.frame.take n).length = n := by
      rw [List.length_take]
      omega
    refine ⟨frames, call.frame.take n, hsocket, hcalls, .inr ⟨call, List.mem_of_getElem? hcall, ?_⟩⟩
    rw [hlen]
    refine ⟨?_, List.take_prefix .., ?_⟩
    · split at hphase
      · next hwriting =>
        cases hphase
        exact hwriting
      · cases hphase
    · intro heq
      rw [heq] at hlen
      omega

theorem Routed.addressed (h : Routed client) : Addressed client := by
  intro i call hcall
  have hserved := h.served i call hcall
  refine ⟨fun j other hother hid => h.eq_of_id_eq hother hcall hid, hserved.carried, ?_⟩
  intro value hvalue
  obtain ⟨response, hchannel, hresult⟩ := hserved.answered value hvalue
  exact ⟨response, hserved.carried response hchannel, hresult⟩

theorem Routed.delivers (h : Routed client) : Delivers client := by
  intro i call response hcall hlive hchannel hfailure hid
  have hplace := (h.served i call hcall).live hlive hchannel
  rw [step, if_pos hfailure, receive, hid]
  dsimp only
  rw [hplace]
  apply List.ext_getElem?
  intro j
  refine (getElem?_modify_call ..).trans ?_
  rw [List.getElem?_set]
  split
  · next hij =>
    subst hij
    rw [hcall, if_pos (List.getElem?_eq_some_iff.mp hcall).1, Option.map_some]
  · rfl

/-- Whatever the calls on clones of a client are, however the socket cuts or refuses what they write, and
whenever their deadlines pass: if no call whose frame is partly written is dropped, then the socket has
one frame after the other, and the responses go to the calls with their ids. -/
theorem frames_never_interleave (maxFrameBytes : Nat) (acts : List Act)
    (hundisturbed : Undisturbed { maxFrameBytes } acts) :
    Framed (run { maxFrameBytes } acts) ∧ Addressed (run { maxFrameBytes } acts) ∧
      Delivers (run { maxFrameBytes } acts) := by
  have hstart : Writes { maxFrameBytes } := Written.empty
  obtain ⟨hwrites, hrouted⟩ := invariants_run hstart (Routed.empty maxFrameBytes) acts hundisturbed
  exact ⟨hwrites.framed, hrouted.addressed, hrouted.delivers⟩

/-- One call writes its frame in two pieces while another one waits and is dropped; the response to
the first arrives. -/
def twoCalls : List Act :=
  [.call "ping" none false, .register 0, .lock 0, .accept 0 6, .call "stop" none true, .register 1,
    .lock 1, .expire 1, .accept 0 25, .removeId 1,
    .receive (.ok (.object [("id", .string "cli-1"), ("result", .null)])), .takeResponse 0]

theorem frames_never_interleave_two : Undisturbed { maxFrameBytes := 64 } twoCalls ∧
    Framed (run { maxFrameBytes := 64 } twoCalls) ∧
    Addressed (run { maxFrameBytes := 64 } twoCalls) ∧
    Delivers (run { maxFrameBytes := 64 } twoCalls) ∧
    (run { maxFrameBytes := 64 } twoCalls).calls.map Call.phase =
      [.finished (.ok .null), .finished (.error (.deadlineExceeded "stop"))] :=
  have hundisturbed : Undisturbed { maxFrameBytes := 64 } twoCalls := by decide +kernel
  have h := frames_never_interleave 64 twoCalls hundisturbed
  ⟨hundisturbed, h.1, h.2.1, h.2.2, by decide +kernel⟩

/-- The deadline of one call passes in the middle of its frame, and another one writes its own. -/
def tornCall : List Act :=
  [.call "ping" none true, .register 0, .call "stop" none false, .register 1, .lock 0, .accept 0 6,
    .expire 0, .removeId 0, .lock 1, .accept 1 31]

theorem torn_frame : ¬ Framed (run { maxFrameBytes := 64 } tornCall) := by
  rintro ⟨frames, torn, hsocket, hframes, htorn⟩
  -- no call is being written any more, and no frame of a call begins the socket
  have hphase : ∀ call ∈ (run { maxFrameBytes := 64 } tornCall).calls, ∀ n,
      call.phase ≠ .writing n := by
    have hcalls : ∀ call ∈ (run { maxFrameBytes := 64 } tornCall).calls,
        call.phase = .awaiting ∨ call.phase = .finished (.error (.deadlineExceeded "ping")) := by
      decide +kernel
    intro call hcall n hwriting
    rcases hcalls call hcall with h | h <;> rw [hwriting] at h <;> cases h
  have hbegins : ∀ call ∈ (run { maxFrameBytes := 64 } tornCall).calls,
      ¬ call.frame <+: (run { maxFrameBytes := 64 } tornCall).socket := by decide +kernel
  have hsome : (run { maxFrameBytes := 64 } tornCall).socket ≠ [] := by decide +kernel
  obtain rfl : torn = [] := by
    rcases htorn with htorn | ⟨call, hcall, hwriting, -⟩
    · exact htorn
    · exact absurd hwriting (hphase call hcall _)
  cases frames with
  | nil => exact hsome hsocket
  | cons frame rest =>
    obtain ⟨⟨call, hcall, rfl⟩, -⟩ := hframes frame (List.mem_cons_self ..)
    refine hbegins call hcall ?_
    rw [hsocket, List.flatten_cons, List.append_assoc]
    exact List.prefix_append ..

end Client

end Tally.Wire
