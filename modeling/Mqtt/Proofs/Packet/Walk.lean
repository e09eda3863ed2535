import Mqtt.Proofs.Packet.Truncation
import Mqtt.Proofs.Packet.Walk.Body

/-!
Walks over a whole buffer. They read a remaining length, which may run up to the fifth byte, and
then the packet, as soon as that is all there; past its end they never look.
-/
namespace Mqtt

open Walk

variable {bytes : Octets} {reach : Nat} {p : Part}

namespace LengthReader

variable {r r' : LengthReader} {b : UInt8} {value size : Nat}

theorem taken_of_push {result : Option Nat} (h : r.push b = .ok (r', result)) :
    r'.taken = r.taken + 1 ∧ (result = none → r.taken ≠ 3) := by
  unfold push at h
  rw [ite_error_eq_ok_iff] at h
  obtain ⟨hlast, h⟩ := h
  simp only [Except.ok.injEq, Prod.mk.injEq] at h
  obtain ⟨rfl, rfl⟩ := h
  refine ⟨rfl, fun hnone hthree => hlast ⟨hthree, ?_⟩⟩
  split at hnone
  next => cases hnone
  next hgroup => exact Nat.le_of_not_lt hgroup

theorem taken_lt_of_read (h : r.read bytes = .ok (value, size)) :
    r.taken < size ∧ size ≤ r.taken + bytes.length := by
  induction bytes generalizing r with
  | nil => cases h
  | cons b bytes ih =>
    unfold read at h
    rw [List.length_cons]
    split at h
    next => cases h
    next r' n hpush =>
      have htaken := (taken_of_push hpush).1
      cases h
      omega
    next r' hpush =>
      have htaken := (taken_of_push hpush).1
      obtain ⟨hlt, hle⟩ := ih h
      omega

end LengthReader

def RemainingLength.span (bytes : Octets) : Nat :=
  match decode bytes with
  | .ok (_, size) => size
  | .error _ => min 4 bytes.length

theorem RemainingLength.span_le (bytes : Octets) : span bytes ≤ min 4 bytes.length := by
  unfold span
  split
  next n size hdecode =>
    obtain ⟨len, rest, rfl, _, rfl, hle⟩ := decode_eq_ok_iff.mp hdecode
    rw [List.length_append]
    omega
  next => exact Nat.le_refl _

/-- How far reading may go: to the end of the packet, and as long as that is not there, over the
first byte and the four of the longest length. -/
def Packet.extent (bytes : Octets) : Nat :=
  match FixedHeader.read bytes with
  | .ok (some h) => h.total
  | _ => min 5 bytes.length

namespace Packet

theorem extent_of_complete {h : FixedHeader} (hread : FixedHeader.read bytes = .ok (some h)) :
    extent bytes = h.total := by
  rw [extent, hread]

theorem extent_le_length (bytes : Octets) : extent bytes ≤ bytes.length := by
  unfold extent
  split
  next h hread =>
    obtain ⟨len, body, rest, rfl, _, _, hsize, hremaining⟩ :=
      FixedHeader.read_eq_ok_some_iff.mp hread
    simp only [FixedHeader.total, List.length_cons, List.length_append]
    omega
  next => exact Nat.min_le_right _ _

theorem span_lt_extent (first : UInt8) (rest : Octets) :
    RemainingLength.span rest < extent (first :: rest) := by
  unfold extent
  split
  next h hread =>
    obtain ⟨len, body, behind, hsplit, hnumeral, hle, hsize, _⟩ :=
      FixedHeader.read_eq_ok_some_iff.mp hread
    obtain ⟨rfl, rfl⟩ := List.cons.inj hsplit
    have hdecode : RemainingLength.decode (len ++ (body ++ behind)) = .ok (body.length, len.length) :=
      RemainingLength.decode_eq_ok_iff.mpr ⟨len, _, rfl, hnumeral, rfl, hle⟩
    rw [RemainingLength.span, hdecode]
    dsimp only [FixedHeader.total]
    omega
  next =>
    have hspan := RemainingLength.span_le rest
    rw [List.length_cons]
    omega

end Packet

namespace Part

theorem readLength_follows {r : LengthReader} {place : Nat} (hr : r.taken ≤ 3)
    (hok : ∀ value size, r.read bytes = .ok (value, size) → place + size ≤ reach + r.taken)
    (herror : ∀ e, r.read bytes = .error e → place + min (4 - r.taken) bytes.length ≤ reach) :
    (readLength r place bytes).Follows reach Eq (r.read bytes) := by
  induction bytes generalizing r place with
  | nil => exact .fail _
  | cons b bytes ih =>
    have hplace : place < reach := by
      cases hread : r.read (b :: bytes) with
      | error e =>
        have h := herror e hread
        rw [List.length_cons] at h
        omega
      | ok result =>
        have hlt := (LengthReader.taken_lt_of_read hread).1
        have h := hok result.1 result.2 hread
        omega
    refine .step (.note ⟨Nat.le_succ place, hplace⟩) ?_
    unfold LengthReader.read at hok herror ⊢
    cases hpush : r.push b with
    | error e => exact .fail e
    | ok result =>
      obtain ⟨r', value⟩ := result
      obtain ⟨htaken, hlast⟩ := LengthReader.taken_of_push hpush
      rw [hpush] at hok herror
      refine .step (.lift _) ?_
      cases value with
      | some value => exact .pure rfl
      | none =>
        have hthree := hlast rfl
        refine ih (by omega) (fun value size hread => ?_) fun e hread => ?_
        · have h := hok value size hread
          omega
        · have h := herror e hread
          rw [List.length_cons] at h
          omega

theorem remainingLength_follows (hreach : p.start + RemainingLength.span p.bytes ≤ reach) :
    p.remainingLength.Follows reach Eq (RemainingLength.decode p.bytes) := by
  obtain ⟨start, bytes⟩ := p
  cases bytes with
  | nil => exact .fail _
  | cons b bytes =>
    unfold RemainingLength.span RemainingLength.decode at hreach
    dsimp only at hreach
    refine readLength_follows (Nat.zero_le 3) (fun value size hread => ?_) fun e hread => ?_
    · rw [hread] at hreach
      exact hreach
    · rw [hread] at hreach
      exact hreach

/-! The start of a packet. -/

section Start

variable {start : Nat} {first : UInt8} {rest : Octets}
  (hreach : start + Packet.extent (first :: rest) ≤ reach)

include hreach

theorem first_follows : (Part.byte ⟨start, first :: rest⟩ 0).Follows reach Eq (.ok first) := by
  have hspan := Packet.span_lt_extent first rest
  exact byte_follows rfl (by dsimp only; omega)

theorem onward_one_follows :
    (Part.onward ⟨start, first :: rest⟩ 1).Follows reach Eq (.ok ⟨start + 1, rest⟩) := by
  have hspan := Packet.span_lt_extent first rest
  exact onward_follows (Nat.le_add_left 1 _) (by dsimp only; omega)

theorem attempt_length_follows :
    (Part.remainingLength ⟨start + 1, rest⟩).attempt.Follows reach Eq
      (.ok (RemainingLength.decode rest)) := by
  have hspan := Packet.span_lt_extent first rest
  exact (remainingLength_follows (by dsimp only; omega)).attempt

end Start

theorem leadingCode_follows (hreach : p.start + Packet.extent p.bytes ≤ reach) :
    p.leadingCode.Follows reach Eq (Packet.leadingCode p.bytes) := by
  obtain ⟨start, bytes⟩ := p
  cases bytes with
  | nil => exact .fail _
  | cons first rest => exact .step (first_follows hreach) (.pure rfl)

theorem checkFirst_follows (hreach : p.start + Packet.extent p.bytes ≤ reach) (type : PacketType) :
    (p.checkFirst type).Follows reach Eq (Packet.checkFirst type p.bytes) := by
  have hcode := leadingCode_follows hreach
  obtain ⟨start, bytes⟩ := p
  unfold checkFirst
  cases bytes with
  | nil => exact .ite (fun _ => .pure rfl) fun _ => hcode.bind_error
  | cons first rest =>
    dsimp only [Packet.checkFirst]
    by_cases hconnect : type = .connect
    · subst hconnect
      exact .pure rfl
    · rw [if_neg hconnect]
      refine .step hcode ?_
      by_cases htype : first.toNat / 16 = type.code
      · rw [if_neg (not_not_intro htype),
          if_neg fun h : type ≠ .connect ∧ first.toNat / 16 ≠ type.code => h.2 htype]
        refine .ite (fun _ => ?_) fun _ => .pure rfl
        refine .step (first_follows hreach) ?_
        exact (Follows.lift _).map fun _ _ _ => rfl
      · rw [if_pos htype, if_pos (And.intro hconnect htype)]
        exact .fail _

theorem fixedHeader_follows (hreach : p.start + Packet.extent p.bytes ≤ reach) :
    p.fixedHeader.Follows reach Eq (FixedHeader.read p.bytes) := by
  obtain ⟨start, bytes⟩ := p
  cases bytes with
  | nil => exact .pure rfl
  | cons first rest =>
    refine .step (onward_one_follows hreach) (.step (attempt_length_follows hreach) ?_)
    unfold FixedHeader.read
    dsimp only
    cases hdecode : RemainingLength.decode rest with
    | error e =>
      obtain rfl | ⟨hint, text, rfl⟩ | ⟨defect, rfl⟩ := RemainingLength.decode_error_cases hdecode
      · exact .pure rfl
      · exact .pure rfl
      · exact .fail _
    | ok result =>
      obtain ⟨remaining, size⟩ := result
      dsimp only
      have hlong : (first :: rest).length < 1 + size + remaining ↔ rest.length < size + remaining := by
        rw [List.length_cons]
        omega
      simp only [length, hlong]
      refine .ite (fun _ => .pure rfl) fun _ => ?_
      exact .step (first_follows hreach) (.pure (by rw [Nat.add_comm 1 size]))

/-- Nothing is taken off too small a number: bytes are missing only when there are too few. -/
theorem missing_follows (hreach : p.start + Packet.extent p.bytes ≤ reach)
    (hnone : FixedHeader.read p.bytes = .ok none) :
    p.missing.Follows reach Eq (.ok (FixedHeader.missing p.bytes)) := by
  obtain ⟨start, bytes⟩ := p
  cases bytes with
  | nil => exact .pure rfl
  | cons first rest =>
    refine .step (onward_one_follows hreach) (.step (attempt_length_follows hreach) ?_)
    unfold FixedHeader.read at hnone
    unfold FixedHeader.missing
    dsimp only at hnone ⊢
    cases hdecode : RemainingLength.decode rest with
    | error e => exact .pure rfl
    | ok result =>
      obtain ⟨remaining, size⟩ := result
      rw [hdecode] at hnone
      dsimp only at hnone
      split at hnone
      next hlong =>
        refine .subtract ?_
        rw [length, List.length_cons]
        omega
      next => cases hnone

theorem decodeAs_follows (hreach : p.start + Packet.extent p.bytes ≤ reach) (type : PacketType) :
    (p.decodeAs type).Follows reach Eq (Packet.decodeAs type p.bytes) := by
  refine .bind (checkFirst_follows hreach type) fun _ _ _ => ?_
  have hheader := fixedHeader_follows hreach
  cases hread : FixedHeader.read p.bytes with
  | error e =>
    rw [hread] at hheader
    exact hheader.bind_error
  | ok header =>
    rw [hread] at hheader
    refine .step hheader ?_
    cases header with
    | none => exact .step (missing_follows hreach hread) (.pure rfl)
    | some h =>
      have hstop := Packet.extent_le_length p.bytes
      rw [Packet.extent_of_complete hread] at hreach hstop
      rw [ok_bind]
      refine .bind (.lift _) fun _ _ _ => ?_
      have hbody : h.body p.bytes = (p.bytes.take (h.size + h.remaining)).drop h.size := by
        rw [List.drop_take, Nat.add_sub_cancel_left, FixedHeader.body]
      rw [hbody]
      exact .bind (packet_follows hstop hreach type h.flags) fun _ _ hpacket => .pure (hpacket ▸ rfl)

theorem decode_follows (hreach : p.start + Packet.extent p.bytes ≤ reach) :
    p.decode.Follows reach Eq (Packet.decode p.bytes) := by
  refine .bind (leadingCode_follows hreach) ?_
  rintro code _ rfl
  cases PacketType.ofCode? code with
  | none => exact .fail _
  | some type => exact decodeAs_follows hreach type

end Part

/-- Whatever bytes stand in a buffer, the walk of every reader comes out as reading does, so without
a crash: no look at what the buffer does not have, nothing taken off too small a number, and no loop
that stands still or runs past its packet. It looks at the packet only: what is marked off with an
end ends there, what is marked off without an end begins there, and what is read lies there. As long
as the packet is not all there, at most five bytes are read. -/
theorem Packet.walk_within_extent (bytes : Octets) :
    (extent bytes ≤ bytes.length ∧
      ∀ h, FixedHeader.read bytes = .ok (some h) → extent bytes = h.size + h.remaining) ∧
    (∀ type, (walkAs type bytes).outcome = .ofExcept (decodeAs type bytes) ∧
      ∀ look ∈ (walkAs type bytes).looks, look.Within (extent bytes)) ∧
    (walk bytes).outcome = .ofExcept (decode bytes) ∧
      ∀ look ∈ (walk bytes).looks, look.Within (extent bytes) := by
  have hreach : (Part.mk 0 bytes).start + extent (Part.mk 0 bytes).bytes ≤ extent bytes :=
    Nat.le_of_eq (Nat.zero_add _)
  refine ⟨⟨extent_le_length bytes, fun h => extent_of_complete⟩, fun type => ?_, ?_⟩
  · have hwalk := Part.decodeAs_follows hreach type
    exact ⟨Outcome.agrees_eq_iff.mp hwalk.agrees, hwalk.within⟩
  · have hwalk := Part.decode_follows hreach
    exact ⟨Outcome.agrees_eq_iff.mp hwalk.agrees, hwalk.within⟩

/-- The type is looked at twice, and nothing behind the identifier. -/
example : (Packet.walk [0x40, 2, 0, 1, 0xFF]).looks =
    [.read 0 1, .read 0 1, .onward 1, .read 1 2, .read 0 1, .onward 2, .read 2 3, .read 3 4] := by
  rfl

end Mqtt
