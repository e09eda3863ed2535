import Mqtt.PacketBuffer
import Mqtt.Proofs.Packet.Extension
import Mathlib.Data.List.Forall2

/-!
A stream cut into pieces. Pieces come as they come: one may end inside a length, a string or a
character, and what is drained in the end is the same.
-/
namespace Mqtt

namespace Packet

variable {version : UInt8} {bytes : Octets}

theorem decodeFor_append_of_complete {p : Packet} {size : Nat}
    (h : decodeFor version bytes = .ok (.complete p size)) (rest : Octets) :
    decodeFor version (bytes ++ rest) = .ok (.complete p size) := by
  unfold decodeFor at h ⊢
  split at h
  next hversion =>
    rw [if_pos hversion]
    exact decode_append_of_complete h rest
  next => cases h

theorem decodeFor_append_of_error {e : PacketError} (h : decodeFor version bytes = .error e)
    (hne : bytes ≠ []) (rest : Octets) : decodeFor version (bytes ++ rest) = .error e := by
  unfold decodeFor at h ⊢
  split at h
  next hversion =>
    rw [if_pos hversion]
    exact decode_append_of_error h hne rest
  next hversion =>
    rw [if_neg hversion]
    exact h

/-- Bytes that are one packet and nothing else. -/
structure Frame (version : UInt8) (p : Packet) (frame : Octets) : Prop where
  decoded : decodeFor version frame = .ok (.complete p frame.length)
  two_le : 2 ≤ frame.length

theorem decodeFor_complete_split {p : Packet} {size : Nat}
    (h : decodeFor version bytes = .ok (.complete p size)) :
    ∃ frame, Frame version p frame ∧ frame.length = size ∧
      bytes = frame ++ bytes.drop size := by
  unfold decodeFor at h
  split at h
  next hversion =>
    obtain ⟨htwo, hle, htake⟩ := two_le_of_complete h
    have hlength := List.length_take_of_le hle
    refine ⟨bytes.take size, ⟨?_, ?_⟩, hlength, (List.take_append_drop size bytes).symm⟩
    · rw [decodeFor, if_pos hversion]
      exact htake
    · rw [hlength]
      exact htwo
  next => cases h

end Packet

namespace PacketBuffer

variable {b b' : PacketBuffer} {p : Packet} {e : PacketError}

@[simp] theorem feed_nil (b : PacketBuffer) : b.feed [] = b := by
  simp [feed]

theorem feed_append (b : PacketBuffer) (data more : Octets) :
    b.feed (data ++ more) = (b.feed data).feed more := by
  simp [feed]

theorem next_eq_some_iff : b.next = .ok (some (p, b')) ↔
    b.bytes ≠ [] ∧ ∃ size, Packet.decodeFor b.version b.bytes = .ok (.complete p size) ∧
      b' = { b with bytes := b.bytes.drop size } := by
  unfold next
  split
  next hnil => simp [hnil]
  next hne =>
    cases hdecode : Packet.decodeFor b.version b.bytes with
    | error e => simp
    | ok decoded => cases decoded <;> simp [hne, eq_comm, and_assoc]

theorem next_eq_error_iff : b.next = .error e ↔
    b.bytes ≠ [] ∧ Packet.decodeFor b.version b.bytes = .error e := by
  unfold next
  split
  next hnil => simp [hnil]
  next hne =>
    cases hdecode : Packet.decodeFor b.version b.bytes with
    | error e => simp [hne]
    | ok decoded => cases decoded <;> simp

/-- A packet takes its own frame off the buffer, and no other byte. -/
theorem next_eq_some_split (h : b.next = .ok (some (p, b'))) :
    b'.version = b.version ∧ ∃ frame, Packet.Frame b.version p frame ∧
      b.bytes = frame ++ b'.bytes := by
  obtain ⟨-, size, hdecode, rfl⟩ := next_eq_some_iff.mp h
  obtain ⟨frame, hframe, -, hbytes⟩ := Packet.decodeFor_complete_split hdecode
  exact ⟨rfl, frame, hframe, hbytes⟩

theorem length_lt_of_next (h : b.next = .ok (some (p, b'))) :
    b'.bytes.length < b.bytes.length := by
  obtain ⟨-, frame, hframe, hbytes⟩ := next_eq_some_split h
  have hlength := congrArg List.length hbytes
  rw [List.length_append] at hlength
  have htwo := hframe.two_le
  omega

theorem next_feed_of_some (h : b.next = .ok (some (p, b'))) (data : Octets) :
    (b.feed data).next = .ok (some (p, b'.feed data)) := by
  obtain ⟨hne, size, hdecode, rfl⟩ := next_eq_some_iff.mp h
  obtain ⟨frame, -, rfl, hbytes⟩ := Packet.decodeFor_complete_split hdecode
  have hle : frame.length ≤ b.bytes.length := by
    have hlength := congrArg List.length hbytes
    rw [List.length_append] at hlength
    omega
  apply next_eq_some_iff.mpr
  refine ⟨List.append_ne_nil_of_left_ne_nil hne data, frame.length,
    Packet.decodeFor_append_of_complete hdecode data, ?_⟩
  simp only [feed, List.drop_append_of_le_length hle]

theorem next_feed_of_error (h : b.next = .error e) (data : Octets) :
    (b.feed data).next = .error e := by
  obtain ⟨hne, hdecode⟩ := next_eq_error_iff.mp h
  exact next_eq_error_iff.mpr ⟨List.append_ne_nil_of_left_ne_nil hne data,
    Packet.decodeFor_append_of_error hdecode hne data⟩

/-- What a buffer has given so far: its packets, the error it stopped at, and what is left. -/
structure Drained where
  packets : List Packet := []
  error : Option PacketError := none
  buffer : PacketBuffer

def Drained.outcome (d : Drained) : Except PacketError (Option (Packet × PacketBuffer)) :=
  match d.error with
  | none => .ok none
  | some e => .error e

def drain (b : PacketBuffer) : Drained :=
  match h : b.next with
  | .error e => { error := some e, buffer := b }
  | .ok none => { buffer := b }
  | .ok (some (packet, b')) =>
    have := length_lt_of_next h
    { b'.drain with packets := packet :: b'.drain.packets }
termination_by b.bytes.length

/-- One more piece comes in, and the buffer is asked until it has nothing to give. -/
def Drained.feed (d : Drained) (data : Octets) : Drained :=
  let more := (d.buffer.feed data).drain
  { more with packets := d.packets ++ more.packets }

theorem drain_of_error (h : b.next = .error e) : b.drain = { error := some e, buffer := b } := by
  rw [drain]
  split <;> simp_all

theorem drain_of_none (h : b.next = .ok none) : b.drain = { buffer := b } := by
  rw [drain]
  split <;> simp_all

theorem drain_of_some (h : b.next = .ok (some (p, b'))) :
    b.drain = { b'.drain with packets := p :: b'.drain.packets } := by
  rw [drain]
  split <;> simp_all

theorem next_induction {motive : PacketBuffer → Prop}
    (error : ∀ b e, b.next = .error e → motive b)
    (none : ∀ b, b.next = .ok none → motive b)
    (some : ∀ b p b', b.next = .ok (some (p, b')) → motive b' → motive b) (b : PacketBuffer) :
    motive b := by
  induction hlength : b.bytes.length using Nat.strongRecOn generalizing b with
  | _ n ih =>
    subst hlength
    cases hnext : b.next with
    | error e => exact error b e hnext
    | ok result =>
      cases result with
      | none => exact none b hnext
      | some taken =>
        obtain ⟨p, b'⟩ := taken
        exact some b p b' hnext (ih _ (length_lt_of_next hnext) b' rfl)

theorem next_drain (b : PacketBuffer) : b.drain.buffer.next = b.drain.outcome := by
  induction b using next_induction with
  | error b e hnext =>
    rw [drain_of_error hnext]
    exact hnext
  | none b hnext =>
    rw [drain_of_none hnext]
    exact hnext
  | some b p b' hnext ih =>
    rw [drain_of_some hnext]
    exact ih

/-- What has been drained before the rest arrives is not drained otherwise after it. -/
theorem drain_feed (b : PacketBuffer) (data : Octets) :
    (b.feed data).drain = b.drain.feed data := by
  induction b using next_induction with
  | error b e hnext =>
    rw [drain_of_error hnext, Drained.feed, List.nil_append]
  | none b hnext =>
    rw [drain_of_none hnext, Drained.feed, List.nil_append]
  | some b p b' hnext ih =>
    rw [drain_of_some hnext, drain_of_some (next_feed_of_some hnext data), ih]
    rfl

theorem drain_split (b : PacketBuffer) :
    ∃ frames, List.Forall₂ (Packet.Frame b.version) b.drain.packets frames ∧
      b.bytes = frames.flatten ++ b.drain.buffer.bytes := by
  induction b using next_induction with
  | error b e hnext =>
    rw [drain_of_error hnext]
    exact ⟨[], .nil, rfl⟩
  | none b hnext =>
    rw [drain_of_none hnext]
    exact ⟨[], .nil, rfl⟩
  | some b p b' hnext ih =>
    obtain ⟨hversion, frame, hframe, hbytes⟩ := next_eq_some_split hnext
    obtain ⟨frames, hframes, hbytes'⟩ := ih
    rw [drain_of_some hnext]
    rw [hversion] at hframes
    refine ⟨frame :: frames, .cons hframe hframes, ?_⟩
    rw [List.flatten_cons, List.append_assoc, ← hbytes']
    exact hbytes

theorem foldl_feed (pieces : List Octets) (b : PacketBuffer) :
    pieces.foldl Drained.feed b.drain = (b.feed pieces.flatten).drain := by
  induction pieces generalizing b with
  | nil => simp
  | cons piece pieces ih =>
    rw [List.foldl_cons, ← drain_feed, ih, List.flatten_cons, feed_append]

/-- However a stream is cut, the buffer gives the same packets, stops at the same error or at none,
and keeps the same bytes as if the stream had come in one piece. Whatever it stopped at it says
again, an error also when more bytes come. Each packet takes its own frame off the front, here and
from any buffer. -/
theorem foldl_feed_eq_drain (version : UInt8) (pieces : List Octets) :
    let fresh : PacketBuffer := { version }
    let all := (fresh.feed pieces.flatten).drain
    pieces.foldl Drained.feed { buffer := fresh } = all ∧
    all.buffer.next = all.outcome ∧
    (∀ e, all.error = some e → ∀ data, (all.buffer.feed data).next = .error e) ∧
    (∃ frames, List.Forall₂ (Packet.Frame version) all.packets frames ∧
      pieces.flatten = frames.flatten ++ all.buffer.bytes) ∧
    ∀ (b b' : PacketBuffer) (p : Packet), b.next = .ok (some (p, b')) →
      ∃ frame, Packet.Frame b.version p frame ∧ b.bytes = frame ++ b'.bytes := by
  intro fresh all
  have hfresh : fresh.drain = { buffer := fresh } := drain_of_none rfl
  have hall : pieces.foldl Drained.feed { buffer := fresh } = all := by
    rw [← hfresh]
    exact foldl_feed pieces fresh
  have hnext : all.buffer.next = all.outcome := next_drain _
  have hrepeats : ∀ e, all.error = some e → ∀ data, (all.buffer.feed data).next = .error e := by
    intro e he data
    apply next_feed_of_error
    rw [hnext, Drained.outcome, he]
  exact ⟨hall, hnext, hrepeats, drain_split (fresh.feed pieces.flatten),
    fun _ _ _ h => (next_eq_some_split h).2⟩

end PacketBuffer
end Mqtt
