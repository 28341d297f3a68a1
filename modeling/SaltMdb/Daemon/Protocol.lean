import SaltMdb.Library.Framing
import Mathlib

/-! The frames between the daemon and its clients: a length of four bytes, the most significant first, and a JSON object. -/

namespace SaltMdb

open Framing

/-- The error codes of the protocol. -/
inductive RpcCode where
  | authFailed
  | unknownMethod
  | unknownTool
  | malformedRequest
  | internalError
  | daemonShuttingDown
  | callerSessionInvalid
deriving DecidableEq

abbrev Byte := UInt8

/-- `DAEMON_RPC_MAX_MESSAGE_BYTES`. -/
def daemonRpcMaxMessageBytes : Nat := 33554432

inductive FrameError where
  | closed
  | outgoing (size : Nat)
  | incoming (length : Nat)
  | malformed (reason : String)
  | notAnObject
deriving DecidableEq

def FrameError.message : FrameError → String
  | .closed => "connection closed before a complete frame was received"
  | .outgoing size => s!"outgoing frame ({size} bytes) exceeds DAEMON_RPC_MAX_MESSAGE_BYTES"
  | .incoming length => s!"incoming frame length {length} exceeds DAEMON_RPC_MAX_MESSAGE_BYTES"
  | .malformed reason => s!"malformed JSON frame body: {reason}"
  | .notAnObject => "frame body is not a JSON object"

/-- The JSON codec: `dumps` is `none` where it raises, `loads` gives the text of its `ValueError` or `RecursionError`. -/
structure JsonCodec (Object Value : Type) where
  dumps : Object → Option (List Byte)
  loads : List Byte → Except String Value
  /-- `isinstance(obj, dict)`. -/
  asObject : Value → Option Object

def JsonCodec.RoundTrips {Object Value : Type} (codec : JsonCodec Object Value) : Prop :=
  ∀ obj body, codec.dumps obj = some body → ∃ value, codec.loads body = .ok value ∧ codec.asObject value = some obj

/-- `struct.Struct(">I").pack`. -/
def packLength (n : Nat) : List Byte :=
  [.ofNat (n / 2 ^ 24), .ofNat (n / 2 ^ 16), .ofNat (n / 2 ^ 8), .ofNat n]

/-- `struct.Struct(">I").unpack`, of a header of four bytes. -/
def unpackLength (header : List Byte) : Nat := header.foldl (fun high byte => high * 2 ^ 8 + byte.toNat) 0

theorem unpackLength_packLength {n : Nat} (small : n < 2 ^ 32) : unpackLength (packLength n) = n := by
  simp only [packLength, unpackLength, List.foldl_cons, List.foldl_nil, UInt8.toNat_ofNat']
  omega

section

variable {Object Value : Type} (codec : JsonCodec Object Value)

/-- `send_frame`: the bytes it hands to the socket; `none` where `json.dumps` raises. -/
def sendFrame (obj : Object) : Option (Except FrameError (List Byte)) :=
  (codec.dumps obj).map fun body =>
    if daemonRpcMaxMessageBytes < body.length then .error (.outgoing body.length)
    else .ok (packLength body.length ++ body)

def readExact (n : Nat) (pieces : List (Piece Byte)) : Except FrameError (List Byte × List (Piece Byte)) :=
  match receiveExact n pieces with
  | none => .error .closed
  | some got => .ok got

def parseBody (body : List Byte) : Except FrameError Object :=
  match codec.loads body with
  | .error reason => .error (.malformed reason)
  | .ok value =>
    match codec.asObject value with
    | none => .error .notAnObject
    | some obj => .ok obj

/-- `recv_frame`, and what it leaves in the socket. -/
def recvFrame (pieces : List (Piece Byte)) : Except FrameError (Object × List (Piece Byte)) := do
  let (header, afterHeader) ← readExact 4 pieces
  let length := unpackLength header
  if daemonRpcMaxMessageBytes < length then throw (.incoming length)
  let (body, afterBody) ← readExact length afterHeader
  let obj ← parseBody codec body
  return (obj, afterBody)

/-- So many calls of `recv_frame`, up to the first that raises. -/
def recvFrames : Nat → List (Piece Byte) → List Object × Option FrameError
  | 0, _ => ([], none)
  | calls + 1, pieces =>
    match recvFrame codec pieces with
    | .error e => ([], some e)
    | .ok (obj, rest) => (obj :: (recvFrames calls rest).1, (recvFrames calls rest).2)

/-! ### The frames as a language of bytes -/

/-- What `recv_frame` makes of the bytes, whatever the pieces they come in. -/
def parseFrame (bytes : List Byte) : Except FrameError (Object × List Byte) :=
  match splitExact 4 bytes with
  | none => .error .closed
  | some (header, afterHeader) =>
    if daemonRpcMaxMessageBytes < unpackLength header then .error (.incoming (unpackLength header))
    else
      match splitExact (unpackLength header) afterHeader with
      | none => .error .closed
      | some (body, afterBody) => (parseBody codec body).map fun obj => (obj, afterBody)

def parseFrames : Nat → List Byte → List Object × Option FrameError
  | 0, _ => ([], none)
  | calls + 1, bytes =>
    match parseFrame codec bytes with
    | .error e => ([], some e)
    | .ok (obj, rest) => (obj :: (parseFrames calls rest).1, (parseFrames calls rest).2)

theorem readExact_content (n : Nat) (pieces : List (Piece Byte)) :
    (readExact n pieces).map (fun got => (got.1, content got.2)) =
      match splitExact n (content pieces) with
      | none => .error .closed
      | some got => .ok got := by
  rw [← receiveExact_content, readExact]
  cases receiveExact n pieces <;> rfl

/-- The pieces do not matter. -/
theorem recvFrame_content (pieces : List (Piece Byte)) :
    (recvFrame codec pieces).map (fun got => (got.1, content got.2)) = parseFrame codec (content pieces) := by
  unfold recvFrame parseFrame readExact
  cases read : receiveExact 4 pieces with
  | none =>
    rw [receiveExact_eq_none.mp read]
    rfl
  | some got =>
    obtain ⟨header, afterHeader⟩ := got
    rw [splitExact_of_receiveExact read]
    by_cases tooLong : daemonRpcMaxMessageBytes < unpackLength header
    · simp [bind, Except.bind, tooLong, throw, throwThe, MonadExceptOf.throw, Except.map]
    · cases body : receiveExact (unpackLength header) afterHeader with
      | none =>
        simp only [tooLong, if_false, receiveExact_eq_none.mp body]
        simp [bind, Except.bind, body, tooLong, Except.map]
      | some rest =>
        simp only [tooLong, if_false, splitExact_of_receiveExact body]
        simp only [bind, Except.bind, body, tooLong, if_false, pure, Except.pure]
        cases parseBody codec rest.1 <;> rfl

theorem recvFrames_content (calls : Nat) (pieces : List (Piece Byte)) :
    recvFrames codec calls pieces = parseFrames codec calls (content pieces) := by
  induction calls generalizing pieces with
  | zero => rfl
  | succ calls ih =>
    rw [recvFrames, parseFrames, ← recvFrame_content]
    cases recvFrame codec pieces with
    | error e => rfl
    | ok got => simp only [Except.map, ih]

variable {codec}

theorem sendFrame_ok {obj : Object} {frame : List Byte} (sent : sendFrame codec obj = some (.ok frame)) :
    ∃ body, codec.dumps obj = some body ∧ body.length ≤ daemonRpcMaxMessageBytes ∧ frame = packLength body.length ++ body := by
  unfold sendFrame at sent
  obtain ⟨body, dumped, sent⟩ := Option.map_eq_some_iff.mp sent
  split at sent
  · cases sent
  · rename_i fits
    exact ⟨body, dumped, Nat.not_lt.mp fits, (Except.ok.inj sent).symm⟩

theorem parseBody_dumps (roundTrips : codec.RoundTrips) {obj : Object} {body : List Byte} (dumped : codec.dumps obj = some body) :
    parseBody codec body = .ok obj := by
  obtain ⟨value, loaded, dict⟩ := roundTrips obj body dumped
  simp [parseBody, loaded, dict]

theorem unpackLength_body {body : List Byte} (fits : body.length ≤ daemonRpcMaxMessageBytes) :
    unpackLength (packLength body.length) = body.length := by
  apply unpackLength_packLength
  simp only [daemonRpcMaxMessageBytes] at fits
  omega

/-- A frame that was sent is read back, whatever follows it. -/
theorem parseFrame_sent (roundTrips : codec.RoundTrips) {obj : Object} {frame : List Byte}
    (sent : sendFrame codec obj = some (.ok frame)) (rest : List Byte) : parseFrame codec (frame ++ rest) = .ok (obj, rest) := by
  obtain ⟨body, dumped, fits, rfl⟩ := sendFrame_ok sent
  have header : splitExact 4 (packLength body.length ++ body ++ rest) = some (packLength body.length, body ++ rest) := by
    rw [List.append_assoc]
    exact splitExact_self (packLength body.length) _
  have whole : splitExact body.length (body ++ rest) = some (body, rest) := splitExact_self body rest
  simp only [parseFrame, header, unpackLength_body fits, Nat.not_lt.mpr fits, if_false, whole, parseBody_dumps roundTrips dumped]
  rfl

/-- A frame that was cut is no frame. -/
theorem parseFrame_cut {obj : Object} {frame : List Byte} (sent : sendFrame codec obj = some (.ok frame)) {k : Nat}
    (cut : k < frame.length) : parseFrame codec (frame.take k) = .error .closed := by
  obtain ⟨body, dumped, fits, rfl⟩ := sendFrame_ok sent
  have size : (packLength body.length).length = 4 := rfl
  rw [List.length_append, size] at cut
  by_cases short : k < 4
  · have nothing : splitExact 4 ((packLength body.length ++ body).take k) = none := by
      apply if_neg
      rw [List.length_take]
      omega
    simp only [parseFrame, nothing]
  · have header : splitExact 4 ((packLength body.length ++ body).take k) = some (packLength body.length, body.take (k - 4)) := by
      rw [List.take_append, List.take_of_length_le (by omega), size]
      exact splitExact_self (packLength body.length) _
    have missing : splitExact body.length (body.take (k - 4)) = none := by
      apply if_neg
      rw [List.length_take]
      omega
    simp only [parseFrame, header, unpackLength_body fits, Nat.not_lt.mpr fits, if_false, missing]

/-- How many of the frames lie wholly in the first `k` bytes. -/
def wholeFrames : List (List Byte) → Nat → Nat
  | [], _ => 0
  | frame :: rest, k => if frame.length ≤ k then wholeFrames rest (k - frame.length) + 1 else 0

theorem parseFrames_cut (roundTrips : codec.RoundTrips) {objs : List Object} {frames : List (List Byte)}
    (sent : List.Forall₂ (fun obj frame => sendFrame codec obj = some (.ok frame)) objs frames) (k calls : Nat) :
    parseFrames codec calls (frames.flatten.take k) =
      if calls ≤ wholeFrames frames k then (objs.take calls, none) else (objs.take (wholeFrames frames k), some .closed) := by
  induction sent generalizing k calls with
  | nil =>
    cases calls with
    | zero => rfl
    | succ calls => simp [parseFrames, parseFrame, splitExact, wholeFrames]
  | @cons obj frame objs frames first later ih =>
    cases calls with
    | zero => simp [parseFrames]
    | succ calls =>
      rw [List.flatten_cons, parseFrames, wholeFrames]
      by_cases whole : frame.length ≤ k
      · rw [List.take_append, List.take_of_length_le whole, parseFrame_sent roundTrips first]
        simp only [ih, if_pos whole, Nat.add_le_add_iff_right]
        split <;> rfl
      · have cut : k < frame.length := Nat.not_le.mp whole
        rw [List.take_append_of_le_length (Nat.le_of_lt cut), parseFrame_cut first cut]
        simp [whole]

theorem wholeFrames_spec (frames : List (List Byte)) (k : Nat) :
    (frames.take (wholeFrames frames k)).flatten.length ≤ k ∧
      (wholeFrames frames k < frames.length → k < (frames.take (wholeFrames frames k + 1)).flatten.length) := by
  induction frames generalizing k with
  | nil => simp [wholeFrames]
  | cons frame rest ih =>
    rw [wholeFrames]
    split
    · obtain ⟨inside, outside⟩ := ih (k - frame.length)
      simp only [List.take_succ_cons, List.flatten_cons, List.length_append, List.length_cons]
      refine ⟨by omega, fun more => ?_⟩
      have beyond := outside (by omega)
      omega
    · simp only [List.take_zero, List.flatten_nil, List.length_nil, List.take_succ_cons, List.flatten_cons, List.length_append]
      omega

theorem wholeFrames_le (frames : List (List Byte)) (k : Nat) : wholeFrames frames k ≤ frames.length := by
  induction frames generalizing k with
  | nil => simp [wholeFrames]
  | cons frame rest ih =>
    rw [wholeFrames, List.length_cons]
    have later := ih (k - frame.length)
    split <;> omega

theorem wholeFrames_cut {frames : List (List Byte)} {k : Nat} (cut : k < frames.flatten.length) :
    wholeFrames frames k < frames.length := by
  refine Nat.lt_of_le_of_ne (wholeFrames_le frames k) fun all => ?_
  have inside := (wholeFrames_spec frames k).1
  rw [all, List.take_length] at inside
  omega

theorem wholeFrames_all (frames : List (List Byte)) : wholeFrames frames frames.flatten.length = frames.length := by
  refine Nat.le_antisymm (wholeFrames_le _ _) (Nat.not_lt.mp fun fewer => ?_)
  have outside := (wholeFrames_spec frames frames.flatten.length).2 fewer
  have part : (frames.take (wholeFrames frames frames.flatten.length + 1)).flatten.length ≤ frames.flatten.length :=
    ((List.take_sublist _ frames).flatten).length_le
  omega

/-- The reads of a stream that ends after `whole` of the objects: these, in order, and then the end. -/
def ReadsOnly (codec : JsonCodec Object Value) (pieces : List (Piece Byte)) (objs : List Object) (whole : Nat) : Prop :=
  ∀ calls, recvFrames codec calls pieces =
    if calls ≤ whole then (objs.take calls, none) else (objs.take whole, some .closed)

/-- What was sent is what is read, object by object, whatever the pieces; a cut loses the objects it reaches and raises; a
size over the limit raises; no size that was sent does. -/
theorem frames_round_trip (roundTrips : codec.RoundTrips) (objs : List Object) (frames : List (List Byte))
    (sent : List.Forall₂ (fun obj frame => sendFrame codec obj = some (.ok frame)) objs frames) :
    (∀ pieces, content pieces = frames.flatten → ReadsOnly codec pieces objs objs.length) ∧
    (∀ k < frames.flatten.length, ∀ pieces, content pieces = frames.flatten.take k → ∃ whole < objs.length,
      (frames.take whole).flatten.length ≤ k ∧ k < (frames.take (whole + 1)).flatten.length ∧
        ReadsOnly codec pieces objs whole) ∧
    (∀ obj frame, sendFrame codec obj = some (.ok frame) → ∀ pieces rest, content pieces = frame ++ rest →
      ∃ left, recvFrame codec pieces = .ok (obj, left) ∧ content left = rest) ∧
    ∀ header rest pieces, content pieces = header ++ rest → header.length = 4 →
      daemonRpcMaxMessageBytes < unpackLength header →
        recvFrame codec pieces = .error (.incoming (unpackLength header)) := by
  have same := sent.length_eq
  refine ⟨fun pieces whole calls => ?_, fun k cut pieces short => ?_, fun obj frame accepted pieces rest holds => ?_,
    fun header rest pieces holds size excess => ?_⟩
  · have all := parseFrames_cut roundTrips sent frames.flatten.length calls
    rw [List.take_length, wholeFrames_all, ← same] at all
    rw [recvFrames_content, whole, all]
  · have some_left := wholeFrames_cut cut
    obtain ⟨inside, outside⟩ := wholeFrames_spec frames k
    refine ⟨wholeFrames frames k, by rwa [same], inside, outside some_left, fun calls => ?_⟩
    rw [recvFrames_content, short, parseFrames_cut roundTrips sent]
  · have read := recvFrame_content codec pieces
    rw [holds, parseFrame_sent roundTrips accepted] at read
    cases received : recvFrame codec pieces with
    | error e => simp [received, Except.map] at read
    | ok got =>
      obtain ⟨first, left⟩ := got
      simp only [received, Except.map, Except.ok.injEq, Prod.mk.injEq] at read
      exact ⟨left, by rw [read.1], read.2⟩
  · have read := recvFrame_content codec pieces
    have split : splitExact 4 (content pieces) = some (header, rest) := by
      rw [holds, ← size]
      exact splitExact_self header rest
    simp only [parseFrame, split, excess, if_true] at read
    cases received : recvFrame codec pieces with
    | error e => simpa [received, Except.map] using read
    | ok got => simp [received, Except.map] at read

/-- The texts `{}` and `{"id": null}`, and what `json` makes of them. -/
def smallTexts : JsonCodec Bool Bool where
  dumps obj := some (if obj then [123, 34, 105, 100, 34, 58, 32, 110, 117, 108, 108, 125] else [123, 125])
  loads body :=
    if body = [123, 34, 105, 100, 34, 58, 32, 110, 117, 108, 108, 125] then .ok true
    else if body = [123, 125] then .ok false
    else .error "Expecting value"
  asObject := some

theorem smallTexts_round_trip :
    ReadsOnly smallTexts [⟨[0, 0], by simp⟩, ⟨[0, 2, 123, 125, 0, 0], by simp⟩,
      ⟨[0, 12, 123, 34, 105, 100, 34, 58, 32, 110, 117, 108, 108, 125], by simp⟩] [false, true] 2 :=
  (frames_round_trip (fun obj body dumped => by
      obtain rfl := Option.some.inj dumped
      cases obj
      · exact ⟨false, by decide, rfl⟩
      · exact ⟨true, by decide, rfl⟩)
    [false, true]
    [[0, 0, 0, 2, 123, 125], [0, 0, 0, 12, 123, 34, 105, 100, 34, 58, 32, 110, 117, 108, 108, 125]]
    (.cons (by decide) (.cons (by decide) .nil))).1 _ (by decide)

end

end SaltMdb
