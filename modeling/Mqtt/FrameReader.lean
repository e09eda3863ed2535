import Mqtt.Packet.Decode

/-!
A frame is read byte by byte until its length is known, then in pieces; each single read has a
time limit of its own. What arrives just when the time is up comes too late.
-/
namespace Mqtt

inductive FramePhase where
  | length (reader : LengthReader)
  | body (left : Nat)
  deriving Repr, DecidableEq

/-- A frame that is being read, with its bytes so far. -/
structure FrameReader where
  frame : Octets
  phase : FramePhase
  deriving Repr, DecidableEq

namespace FrameReader

/-- The most bytes that one read of a body takes. -/
def chunk : Nat := 4096

def start (first : UInt8) : FrameReader :=
  { frame := [first], phase := .length {} }

def isDone (r : FrameReader) : Bool :=
  r.phase == .body 0

/-- One read from the bytes at hand; also returns what it leaves. -/
def read (r : FrameReader) (inbox : Octets) : Except PacketError (FrameReader × Octets) :=
  match r.phase, inbox with
  | .length _, [] => .ok (r, [])
  | .length reader, b :: rest =>
    match reader.push b with
    | .error e => .error e
    | .ok (reader', none) => .ok ({ frame := r.frame ++ [b], phase := .length reader' }, rest)
    | .ok (_, some left) => .ok ({ frame := r.frame ++ [b], phase := .body left }, rest)
  | .body left, inbox =>
    let piece := inbox.take (min left chunk)
    .ok ({ frame := r.frame ++ piece, phase := .body (left - piece.length) },
      inbox.drop piece.length)

/-- Reads until the frame is done or nothing is at hand, and returns what is left then; `fuel`
bounds the bytes at hand. A read that fails has taken the byte that it fails at. -/
def drain : (fuel : Nat) → FrameReader → Octets → Except PacketError FrameReader × Octets
  | 0, r, inbox => (.ok r, inbox)
  | fuel + 1, r, inbox =>
    if r.isDone ∨ inbox = [] then (.ok r, inbox)
    else
      match r.read inbox with
      | .error e => (.error e, inbox.tail)
      | .ok (r', rest) => drain fuel r' rest

end FrameReader

/-- When which bytes of a stream arrive, in order, and when the stream ends, if ever. -/
structure Inflow where
  pieces : List (Nat × Octets)
  ends : Option Nat
  deriving Repr, DecidableEq

structure FrameReading where
  result : Except PacketError Octets
  time : Nat
  left : Octets := []
  later : List (Nat × Octets) := []

namespace FrameReader

/-- Reads a frame from `inbox` and the pieces behind it; the read that waits ends at `deadline`. -/
def await (timeout : Nat) (r : FrameReader) (inbox : Octets) (now deadline : Nat) :
    (pieces : List (Nat × Octets)) → (ends : Option Nat) → FrameReading
  | pieces, ends =>
    match drain inbox.length r inbox with
    | (.error e, left) => { result := .error e, time := now, left, later := pieces }
    | (.ok r', left) =>
      if r'.isDone then { result := .ok r'.frame, time := now, left, later := pieces }
      else
        let deadline := if inbox = [] then deadline else now + timeout
        match pieces with
        | (time, bytes) :: later =>
          if time < deadline then await timeout r' bytes (max now time) deadline later ends
          else { result := .error .timedOut, time := deadline, later := pieces }
        | [] =>
          match ends with
          | some time =>
            if time < deadline then
              { result := .error .connectionClosed, time := max now time }
            else { result := .error .timedOut, time := deadline }
          | none => { result := .error .timedOut, time := deadline }

end FrameReader

def Inflow.readFrame (inflow : Inflow) (first : UInt8) (timeout : Nat) : FrameReading :=
  FrameReader.await timeout (.start first) [] 0 timeout inflow.pieces inflow.ends

def Inflow.readPacket (inflow : Inflow) (first : UInt8) (timeout : Nat) :
    Except PacketError Packet :=
  (inflow.readFrame first timeout).result.bind Packet.ofFrame

structure InflowStep where
  send : Octets := []
  wait : Nat := 0
  close : Bool := false
  deriving Repr, DecidableEq

/-- The inflow that steps produce from time `now` on; a closed stream carries no more. -/
def Inflow.ofSteps (now : Nat) : List InflowStep → Inflow
  | [] => { pieces := [], ends := none }
  | s :: rest =>
    if s.close then { pieces := [(now, s.send)], ends := some (now + s.wait) }
    else
      let inflow := ofSteps (now + s.wait) rest
      { inflow with pieces := (now, s.send) :: inflow.pieces }

end Mqtt
