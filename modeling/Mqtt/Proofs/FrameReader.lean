import Mqtt.FrameReader
import Mqtt.Proofs.Packet.Extension
import Mqtt.Proofs.Packet.Fault
import Mathlib.Tactic.Ring

/-!
Reading from a stream agrees with decoding a buffer. However the bytes come, what is read is the
front that the buffer begins with, and no byte behind it.
-/
namespace Mqtt

open RemainingLength

structure Framed (front : Octets) : Prop where
  split : ∃ len body, front = len ++ body ∧ Numeral len body.length ∧ len.length ≤ 4

/-- Four bytes of a length, of which the last is not the last. -/
structure Overlong (front : Octets) : Prop where
  length_eq : front.length = 4
  goesOn : ∀ b ∈ front, 128 ≤ b.toNat

/-- The bytes begin with all of a frame, or with a length that goes on too long. -/
def Settled (bytes : Octets) : Prop :=
  ∃ front, front <+: bytes ∧ (Framed front ∨ Overlong front)

def Inflow.bytes (inflow : Inflow) : Octets :=
  inflow.pieces.flatMap Prod.snd

/-- What is left for the next packet. -/
def FrameReading.rest (reading : FrameReading) : Octets :=
  reading.left ++ reading.later.flatMap Prod.snd

/-- As long as `sofar` settles nothing, the next piece, or the end, comes before the read that waits
for it gives up. A piece without bytes ends no read. -/
def ServedFrom (timeout : Nat) (sofar : Octets) (now deadline : Nat) :
    List (Nat × Octets) → Option Nat → Prop
  | [], ends => Settled sofar ∨ ∃ time, ends = some time ∧ time < deadline
  | (time, bytes) :: later, ends => Settled sofar ∨ time < deadline ∧
      ServedFrom timeout (sofar ++ bytes) (max now time)
        (if bytes = [] then deadline else max now time + timeout) later ends

/-- Every read of a frame is served in time. -/
def Inflow.Served (inflow : Inflow) (timeout : Nat) : Prop :=
  ServedFrom timeout [] 0 timeout inflow.pieces inflow.ends

section Fronts

variable {front front' rest rest' bytes len : Octets} {n : Nat}

theorem RemainingLength.Numeral.exists_last (h : Numeral len n) : ∃ b ∈ len, b.toNat < 128 := by
  induction h with
  | @last b final => exact ⟨b, List.mem_singleton_self b, final⟩
  | @more b bytes n _ _ ih =>
    obtain ⟨c, hc, hlt⟩ := ih
    exact ⟨c, List.mem_cons_of_mem b hc, hlt⟩

theorem RemainingLength.Numeral.eq_of_append {other : Octets} {m : Nat} (h : Numeral len n)
    (hle : len.length ≤ 4) (h' : Numeral other m) (hle' : other.length ≤ 4)
    (hsplit : len ++ rest = other ++ rest') : len = other ∧ n = m := by
  have hread : decode (len ++ rest) = .ok (n, len.length) :=
    decode_eq_ok_iff.mpr ⟨len, rest, rfl, h, rfl, hle⟩
  have hread' : decode (other ++ rest') = .ok (m, other.length) :=
    decode_eq_ok_iff.mpr ⟨other, rest', rfl, h', rfl, hle'⟩
  rw [hsplit, hread'] at hread
  simp only [Except.ok.injEq, Prod.mk.injEq] at hread
  exact ⟨(List.append_inj hsplit hread.2.symm).1, hread.1.symm⟩

theorem RemainingLength.Numeral.not_overlong (h : Numeral len n) (hle : len.length ≤ 4)
    (hoverlong : Overlong front) (hsplit : len ++ rest = front ++ rest') : False := by
  obtain ⟨b, hb, hlt⟩ := h.exists_last
  have hbegins : len <+: front :=
    List.prefix_of_prefix_length_le (List.prefix_append len rest)
      (hsplit ▸ List.prefix_append front rest') (hoverlong.length_eq ▸ hle)
  have hgoesOn := hoverlong.goesOn b (hbegins.subset hb)
  omega

theorem Framed.not_overlong (hframed : Framed front) (hoverlong : Overlong front')
    (hsplit : front ++ rest = front' ++ rest') : False := by
  obtain ⟨len, body, rfl, hnumeral, hle⟩ := hframed.split
  rw [List.append_assoc] at hsplit
  exact hnumeral.not_overlong hle hoverlong hsplit

/-- Bytes begin with one frame only. -/
theorem Framed.eq (hframed : Framed front) (hframed' : Framed front')
    (hsplit : front ++ rest = front' ++ rest') : front = front' := by
  obtain ⟨len, body, rfl, hnumeral, hle⟩ := hframed.split
  obtain ⟨len', body', rfl, hnumeral', hle'⟩ := hframed'.split
  have hsplit' := hsplit
  rw [List.append_assoc, List.append_assoc] at hsplit'
  obtain ⟨rfl, hbody⟩ := hnumeral.eq_of_append hle hnumeral' hle' hsplit'
  have hlength : (len ++ body).length = (len ++ body').length := by
    rw [List.length_append, List.length_append, hbody]
  exact (List.append_inj hsplit hlength).1

theorem Overlong.eq (hoverlong : Overlong front) (hoverlong' : Overlong front')
    (hsplit : front ++ rest = front' ++ rest') : front = front' :=
  (List.append_inj hsplit (hoverlong.length_eq.trans hoverlong'.length_eq.symm)).1

end Fronts

namespace FrameReader

variable {first : UInt8} {sofar inbox : Octets} {r : FrameReader}

/-- The reader that has read `sofar` behind the first byte. -/
inductive Behind (first : UInt8) : Octets → FrameReader → Prop where
  | length {sofar : Octets} {value : Nat} (short : sofar.length ≤ 3)
      (goesOn : ∀ b ∈ sofar, 128 ≤ b.toNat) (small : value < 128 ^ sofar.length)
      (counts : ∀ len n, Numeral len n →
        Numeral (sofar ++ len) (value + n * 128 ^ sofar.length)) :
      Behind first sofar
        { frame := first :: sofar, phase := .length (.behind sofar.length value) }
  | body {len part : Octets} {n : Nat} (numeral : Numeral len n) (short : len.length ≤ 4)
      (fits : part.length ≤ n) :
      Behind first (len ++ part)
        { frame := first :: (len ++ part), phase := .body (n - part.length) }

theorem Behind.start (first : UInt8) : Behind first [] (.start first) := by
  have hcounts : ∀ len n, Numeral len n →
      Numeral ([] ++ len) (0 + n * 128 ^ ([] : Octets).length) := by
    intro len n h
    simpa using h
  exact .length (by simp) (by simp) (by simp) hcounts

theorem Behind.frame_eq (h : Behind first sofar r) : r.frame = first :: sofar := by
  cases h <;> rfl

theorem Behind.framed_of_isDone (h : Behind first sofar r) (hdone : r.isDone = true) :
    Framed sofar := by
  cases h with
  | length => simp [isDone] at hdone
  | @body len part n numeral short fits =>
    have hleft : n - part.length = 0 := by simpa [isDone] using hdone
    have hn : n = part.length := by omega
    exact ⟨len, part, rfl, hn ▸ numeral, short⟩

theorem Behind.not_settled (h : Behind first sofar r) (hdone : r.isDone = false) :
    ¬ Settled sofar := by
  rintro ⟨front, hbegins, hfront⟩
  cases h with
  | length short goesOn _ _ =>
    obtain hframed | hoverlong := hfront
    · obtain ⟨len, body, rfl, hnumeral, -⟩ := hframed.split
      obtain ⟨b, hb, hlt⟩ := hnumeral.exists_last
      have hmem := goesOn b (hbegins.subset (List.mem_append_left body hb))
      omega
    · have hle := hbegins.length_le
      rw [hoverlong.length_eq] at hle
      omega
  | @body len part n numeral short fits =>
    have hmore : n - part.length ≠ 0 := by simpa [isDone] using hdone
    obtain ⟨tail, htail⟩ := hbegins
    obtain hframed | hoverlong := hfront
    · obtain ⟨len', body, rfl, hnumeral, hle⟩ := hframed.split
      rw [List.append_assoc] at htail
      obtain ⟨rfl, rfl⟩ := hnumeral.eq_of_append hle numeral short htail
      have hpart := congrArg List.length (List.append_cancel_left htail)
      rw [List.length_append] at hpart
      omega
    · exact numeral.not_overlong short hoverlong htail.symm

theorem counts_append {value : Nat} {b : UInt8} (hb : 128 ≤ b.toNat)
    (counts : ∀ len n, Numeral len n → Numeral (sofar ++ len) (value + n * 128 ^ sofar.length))
    (len : Octets) (n : Nat) (h : Numeral len n) :
    Numeral (sofar ++ [b] ++ len)
      (value + b.toNat % 128 * 128 ^ sofar.length + n * 128 ^ (sofar ++ [b]).length) := by
  have hmore := counts (b :: len) _ (.more hb h)
  have hvalue : value + (b.toNat % 128 + 128 * n) * 128 ^ sofar.length =
      value + b.toNat % 128 * 128 ^ sofar.length + n * 128 ^ (sofar ++ [b]).length := by
    rw [List.length_append, List.length_singleton]
    ring
  rw [hvalue] at hmore
  rwa [List.append_assoc, List.singleton_append]

/-- A read fails at the byte that makes a length too long, or goes on behind what it takes. -/
theorem Behind.read (h : Behind first sofar r) (hdone : r.isDone = false) (hinbox : inbox ≠ []) :
    (r.read inbox = .error (.malformed .lengthOverrun) ∧
      ∃ b, inbox = b :: inbox.tail ∧ Overlong (sofar ++ [b])) ∨
    ∃ piece rest r', inbox = piece ++ rest ∧ piece ≠ [] ∧ r.read inbox = .ok (r', rest) ∧
      Behind first (sofar ++ piece) r' := by
  cases h with
  | @length sofar value short goesOn small counts =>
    obtain ⟨b, rest, rfl⟩ := List.exists_cons_of_ne_nil hinbox
    have hgoesOn (hb : ¬ b.toNat < 128) : ∀ c ∈ sofar ++ [b], 128 ≤ c.toNat := by
      intro c hc
      obtain hc | hc := List.mem_append.mp hc
      · exact goesOn c hc
      · rw [List.mem_singleton.mp hc]
        omega
    have hlength : (sofar ++ [b]).length = sofar.length + 1 := by simp
    by_cases hfull : sofar.length = 3 ∧ 128 ≤ b.toNat
    · left
      refine ⟨?_, b, rfl, ⟨by omega, hgoesOn (by omega)⟩⟩
      simp only [FrameReader.read]
      rw [LengthReader.push_behind short small, if_pos hfull]
    right
    by_cases hlast : b.toNat < 128
    · have hnumeral := counts [b] b.toNat (.last hlast)
      have hbody : Behind first (sofar ++ [b] ++ []) _ :=
        .body hnumeral (by omega) (Nat.zero_le _)
      rw [List.append_nil] at hbody
      refine ⟨[b], rest, _, rfl, by simp, ?_, hbody⟩
      simp only [FrameReader.read]
      rw [LengthReader.push_behind short small, if_neg hfull, if_pos hlast, Nat.mod_eq_of_lt hlast]
      rfl
    · have hmore : Behind first (sofar ++ [b]) _ :=
        .length (by omega) (hgoesOn hlast) (hlength ▸ LengthReader.add_group_lt small b)
          (counts_append (by omega) counts)
      refine ⟨[b], rest, _, rfl, by simp, ?_, hmore⟩
      simp only [FrameReader.read]
      rw [LengthReader.push_behind short small, if_neg hfull, if_neg hlast, hlength]
      rfl
  | @body len part n numeral short fits =>
    right
    have hleft : n - part.length ≠ 0 := by simpa [isDone] using hdone
    obtain ⟨piece, hpiece⟩ : ∃ piece, piece = inbox.take (min (n - part.length) chunk) := ⟨_, rfl⟩
    have hlength : piece.length = min (min (n - part.length) chunk) inbox.length := by
      rw [hpiece, List.length_take]
    have hne : piece ≠ [] := by
      have hpos := List.length_pos_iff.mpr hinbox
      apply List.length_pos_iff.mp
      rw [hlength]
      unfold chunk
      omega
    have hsplit : piece ++ inbox.drop piece.length = inbox :=
      List.prefix_iff_eq_append.mp (hpiece ▸ List.take_prefix _ inbox)
    have hfits : (part ++ piece).length ≤ n := by
      rw [List.length_append]
      omega
    have hbody : Behind first (len ++ (part ++ piece)) _ := .body numeral short hfits
    rw [List.length_append, ← Nat.sub_sub, ← List.append_assoc] at hbody
    refine ⟨piece, inbox.drop piece.length, _, hsplit.symm, hne, ?_, hbody⟩
    rw [hpiece]
    rfl

/-- What a reader behind `sofar` makes of the bytes at hand, and what it leaves of them. -/
inductive Drained (first : UInt8) (sofar : Octets) :
    Octets → Except PacketError FrameReader × Octets → Prop where
  | error {piece rest : Octets} (overlong : Overlong (sofar ++ piece)) :
      Drained first sofar (piece ++ rest) (.error (.malformed .lengthOverrun), rest)
  | ok {piece rest : Octets} {r : FrameReader} (behind : Behind first (sofar ++ piece) r)
      (exhausted : r.isDone = false → rest = []) :
      Drained first sofar (piece ++ rest) (.ok r, rest)

theorem Drained.stay (h : Behind first sofar r) (exhausted : r.isDone = false → inbox = []) :
    Drained first sofar inbox (.ok r, inbox) := by
  have hsame : Behind first (sofar ++ []) r := by rwa [List.append_nil]
  exact .ok hsame exhausted

theorem Drained.prepend {piece : Octets} {result : Except PacketError FrameReader × Octets}
    (h : Drained first (sofar ++ piece) inbox result) :
    Drained first sofar (piece ++ inbox) result := by
  cases h with
  | error overlong =>
    rw [List.append_assoc] at overlong
    rw [← List.append_assoc]
    exact .error overlong
  | ok behind exhausted =>
    rw [List.append_assoc] at behind
    rw [← List.append_assoc]
    exact .ok behind exhausted

theorem Behind.drain {fuel : Nat} (h : Behind first sofar r) (hfuel : inbox.length ≤ fuel) :
    Drained first sofar inbox (r.drain fuel inbox) := by
  induction fuel generalizing r sofar inbox with
  | zero =>
    have hnil := List.eq_nil_of_length_eq_zero (Nat.le_zero.mp hfuel)
    exact Drained.stay h fun _ => hnil
  | succ fuel ih =>
    unfold FrameReader.drain
    by_cases hstop : r.isDone = true ∨ inbox = []
    · rw [if_pos hstop]
      refine Drained.stay h fun hdone => ?_
      simpa [hdone] using hstop
    · rw [if_neg hstop]
      rw [not_or, Bool.not_eq_true] at hstop
      obtain ⟨hread, b, hinbox, hoverlong⟩ | ⟨piece, rest, r', rfl, hne, hread, hbehind⟩ :=
        h.read hstop.1 hstop.2
      · rw [hread]
        have herror : Drained first sofar ([b] ++ inbox.tail) _ := .error hoverlong
        rwa [List.singleton_append, ← hinbox] at herror
      · rw [hread]
        have hpos := List.length_pos_iff.mpr hne
        rw [List.length_append] at hfuel
        exact (ih hbehind (by omega)).prepend

/-- How reading a frame can come out: with a frame, at a length that is too long, at the end of the
stream before either, or too late. -/
inductive Outcome (first : UInt8) (served : Prop) (bytes : Octets) (reading : FrameReading) :
    Prop where
  | frame {front : Octets} (split : bytes = front ++ reading.rest) (framed : Framed front)
      (result : reading.result = .ok (first :: front))
  | overlong {front : Octets} (split : bytes = front ++ reading.rest) (overlong : Overlong front)
      (result : reading.result = .error (.malformed .lengthOverrun))
  | closed (unsettled : ¬ Settled bytes) (rest : reading.rest = [])
      (result : reading.result = .error .connectionClosed)
  | late (late : ¬ served) (result : reading.result = .error .timedOut)

theorem Outcome.mono {served served' : Prop} {bytes : Octets} {reading : FrameReading}
    (himp : served' → served) (h : Outcome first served bytes reading) :
    Outcome first served' bytes reading := by
  cases h with
  | frame split framed result => exact .frame split framed result
  | overlong split overlong result => exact .overlong split overlong result
  | closed unsettled rest result => exact .closed unsettled rest result
  | late late result => exact .late (fun h => late (himp h)) result

/-- A reader that is done, or fails, waits for nothing. -/
theorem Drained.outcome {served : Prop} {now : Nat} {pieces : List (Nat × Octets)}
    {wait : FrameReader → FrameReading} {result : Except PacketError FrameReader × Octets}
    (hwait : ∀ r', Behind first (sofar ++ inbox) r' → ¬ Settled (sofar ++ inbox) →
      Outcome first served (sofar ++ inbox ++ pieces.flatMap Prod.snd) (wait r')) :
    Drained first sofar inbox result →
    Outcome first served (sofar ++ inbox ++ pieces.flatMap Prod.snd)
      (match result with
      | (.error e, left) => { result := .error e, time := now, left, later := pieces }
      | (.ok r', left) =>
        if r'.isDone then { result := .ok r'.frame, time := now, left, later := pieces }
        else wait r') := by
  intro h
  cases h with
  | @error piece rest overlong => exact .overlong (by simp [FrameReading.rest]) overlong rfl
  | @ok piece rest r' behind exhausted =>
    by_cases hdone : r'.isDone = true
    · dsimp only
      rw [if_pos hdone]
      exact .frame (by simp [FrameReading.rest]) (behind.framed_of_isDone hdone)
        (congrArg Except.ok behind.frame_eq)
    · dsimp only
      rw [if_neg hdone]
      rw [Bool.not_eq_true] at hdone
      rw [exhausted hdone, List.append_nil] at hwait ⊢
      exact hwait r' behind (behind.not_settled hdone)

/-- Whatever comes when: the bytes read and the bytes left are the bytes of the stream. -/
theorem Behind.await {timeout now deadline : Nat} {pieces : List (Nat × Octets)}
    {ends : Option Nat} (h : Behind first sofar r) :
    Outcome first
      (ServedFrom timeout (sofar ++ inbox) now (if inbox = [] then deadline else now + timeout)
        pieces ends)
      (sofar ++ inbox ++ pieces.flatMap Prod.snd)
      (r.await timeout inbox now deadline pieces ends) := by
  induction pieces generalizing r sofar inbox now deadline with
  | nil =>
    unfold FrameReader.await
    refine Drained.outcome (fun r' _ hunsettled => ?_) (h.drain (Nat.le_refl inbox.length))
    dsimp only
    generalize (if inbox = [] then deadline else now + timeout) = deadline'
    cases ends with
    | none => exact .late (by simp [ServedFrom, hunsettled]) rfl
    | some time =>
      dsimp only
      split
      next htime => exact .closed (by simpa using hunsettled) rfl rfl
      next htime => exact .late (by simp [ServedFrom, hunsettled, htime]) rfl
  | cons next later ih =>
    obtain ⟨time, bytes⟩ := next
    unfold FrameReader.await
    refine Drained.outcome (fun r' hbehind hunsettled => ?_) (h.drain (Nat.le_refl inbox.length))
    dsimp only
    generalize (if inbox = [] then deadline else now + timeout) = deadline'
    split
    next htime =>
      rw [List.flatMap_cons, ← List.append_assoc]
      refine (ih hbehind).mono fun hserved => ?_
      exact (hserved.resolve_left hunsettled).2
    next htime => exact .late (by simp [ServedFrom, hunsettled, htime]) rfl

end FrameReader

theorem Inflow.outcome_readFrame (inflow : Inflow) (first : UInt8) (timeout : Nat) :
    FrameReader.Outcome first (inflow.Served timeout) inflow.bytes
      (inflow.readFrame first timeout) :=
  (FrameReader.Behind.start first).await

namespace Packet

variable {first : UInt8} {front : Octets}

theorem read_framed (hframed : Framed front) (first : UInt8) :
    ∃ h, FixedHeader.read (first :: front) = .ok (some h) ∧ h.total = 1 + front.length := by
  obtain ⟨len, body, rfl, hnumeral, hle⟩ := hframed.split
  refine ⟨⟨first, len.length + 1, body.length⟩,
    FixedHeader.read_eq_ok_some_iff.mpr ⟨len, body, [], by simp, hnumeral, hle, rfl, rfl⟩, ?_⟩
  simp only [FixedHeader.total, List.length_append]
  omega

theorem decodeAs_framed (hframed : Framed front) (first : UInt8) (type : PacketType) :
    (∃ p, decodeAs type (first :: front) = .ok (.complete p (1 + front.length))) ∨
      ∃ e, decodeAs type (first :: front) = .error e := by
  obtain ⟨h, hread, htotal⟩ := read_framed hframed first
  unfold decodeAs
  rw [hread, ok_bind, ← htotal]
  cases checkFirst type (first :: front) with
  | error e => exact .inr ⟨e, rfl⟩
  | ok _ =>
    dsimp only
    cases checkFlags type h.flags with
    | error e => exact .inr ⟨e, rfl⟩
    | ok _ =>
      cases ofBody type h.flags (h.body (first :: front)) with
      | error e => exact .inr ⟨e, rfl⟩
      | ok p => exact .inl ⟨p, rfl⟩

/-- A frame is a packet or bad, but never the start of a packet. -/
theorem decode_framed (hframed : Framed front) (first : UInt8) :
    (∃ p, decode (first :: front) = .ok (.complete p (1 + front.length))) ∨
      ∃ e, decode (first :: front) = .error e := by
  unfold decode
  rw [leadingCode, ok_bind]
  cases PacketType.ofCode? (first.toNat / 16) with
  | none => exact .inr ⟨_, rfl⟩
  | some type => exact decodeAs_framed hframed first type

/-- What a buffer that begins with a frame says, the frame says, and never that it is our fault. -/
theorem ofFrame_framed (hframed : Framed front) (first : UInt8) (rest : Octets) :
    Blameless (ofFrame (first :: front)) ∧
    ((∃ p, decode (first :: (front ++ rest)) = .ok (.complete p (1 + front.length)) ∧
      ofFrame (first :: front) = .ok p) ∨
    ∃ e, decode (first :: (front ++ rest)) = .error e ∧ ofFrame (first :: front) = .error e) := by
  have hblameless := blameless_decode (first :: front)
  unfold ofFrame
  obtain ⟨p, hdecode⟩ | ⟨e, hdecode⟩ := decode_framed hframed first
  · have hmore := decode_append_of_complete hdecode rest
    rw [hdecode, ok_bind]
    exact ⟨blameless_pure p, .inl ⟨p, hmore, rfl⟩⟩
  · have hmore := decode_append_of_error hdecode (List.cons_ne_nil first front) rest
    rw [hdecode] at hblameless ⊢
    exact ⟨blameless_error_iff.mpr (blameless_error_iff.mp hblameless), .inr ⟨e, hmore, rfl⟩⟩

end Packet

namespace Inflow

variable {inflow : Inflow} {timeout : Nat} {front rest : Octets}

theorem framed_of_readFrame {first : UInt8} {frame : Octets}
    (h : (inflow.readFrame first timeout).result = .ok frame) :
    ∃ front, Framed front ∧ frame = first :: front := by
  cases inflow.outcome_readFrame first timeout with
  | @frame front _ framed result =>
    rw [result] at h
    exact ⟨front, framed, (Except.ok.inj h).symm⟩
  | overlong _ _ result | closed _ _ result | late _ result =>
    rw [result] at h
    cases h

theorem readPacket_of_error {first : UInt8} {e : PacketError}
    (h : (inflow.readFrame first timeout).result = .error e) :
    inflow.readPacket first timeout = .error e := by
  rw [readPacket, h]
  rfl

theorem readFrame_of_framed (hserved : inflow.Served timeout)
    (hsplit : inflow.bytes = front ++ rest) (hframed : Framed front) (first : UInt8) :
    (inflow.readFrame first timeout).result = .ok (first :: front) ∧
      (inflow.readFrame first timeout).rest = rest := by
  cases inflow.outcome_readFrame first timeout with
  | @frame front' split framed result =>
    rw [hsplit] at split
    obtain rfl := hframed.eq framed split
    exact ⟨result, (List.append_cancel_left split).symm⟩
  | overlong split overlong _ =>
    rw [hsplit] at split
    exact (hframed.not_overlong overlong split).elim
  | closed unsettled _ _ =>
    exact absurd ⟨front, ⟨rest, hsplit.symm⟩, .inl hframed⟩ unsettled
  | late late _ => exact absurd hserved late

theorem readFrame_of_overlong (hserved : inflow.Served timeout)
    (hsplit : inflow.bytes = front ++ rest) (hoverlong : Overlong front) (first : UInt8) :
    (inflow.readFrame first timeout).result = .error (.malformed .lengthOverrun) ∧
      (inflow.readFrame first timeout).rest = rest := by
  cases inflow.outcome_readFrame first timeout with
  | frame split framed _ =>
    rw [hsplit] at split
    exact (framed.not_overlong hoverlong split.symm).elim
  | overlong split overlong result =>
    rw [hsplit] at split
    obtain rfl := hoverlong.eq overlong split
    exact ⟨result, (List.append_cancel_left split).symm⟩
  | closed unsettled _ _ =>
    exact absurd ⟨front, ⟨rest, hsplit.symm⟩, .inr hoverlong⟩ unsettled
  | late late _ => exact absurd hserved late

theorem readFrame_of_not_settled (hserved : inflow.Served timeout)
    (hunsettled : ¬ Settled inflow.bytes) (first : UInt8) :
    (inflow.readFrame first timeout).result = .error .connectionClosed ∧
      (inflow.readFrame first timeout).rest = [] := by
  cases inflow.outcome_readFrame first timeout with
  | frame split framed _ => exact absurd ⟨_, ⟨_, split.symm⟩, .inl framed⟩ hunsettled
  | overlong split overlong _ => exact absurd ⟨_, ⟨_, split.symm⟩, .inr overlong⟩ hunsettled
  | closed _ rest result => exact ⟨result, rest⟩
  | late late _ => exact absurd hserved late

/-- However the bytes of a stream come, as long as every read is served in time: a frame at the
front gives what decoding the whole buffer gives, and takes no byte behind it; a length that goes
on too long fails behind its fourth byte; anything else ends with the stream. And no frame that was
read, in time or not, is found to lack bytes. -/
theorem readPacket_eq_decode (inflow : Inflow) (first : UInt8) (timeout : Nat) :
    let reading := inflow.readFrame first timeout
    let result := inflow.readPacket first timeout
    let buffer := first :: inflow.bytes
    (∀ frame text, reading.result = .ok frame → Packet.ofFrame frame ≠ .error (.internal text)) ∧
    (inflow.Served timeout →
      (∀ front rest, inflow.bytes = front ++ rest → Framed front → reading.rest = rest ∧
        ((∃ p, Packet.decode buffer = .ok (.complete p (1 + front.length)) ∧ result = .ok p) ∨
          ∃ e, Packet.decode buffer = .error e ∧ result = .error e)) ∧
      (∀ front rest, inflow.bytes = front ++ rest → Overlong front →
        reading.rest = rest ∧ result = .error (.malformed .lengthOverrun)) ∧
      (¬ Settled inflow.bytes → reading.rest = [] ∧ result = .error .connectionClosed)) := by
  intro reading result buffer
  refine ⟨?_, fun hserved => ⟨?_, ?_, ?_⟩⟩
  · intro frame text hframe
    obtain ⟨front, hframed, rfl⟩ := framed_of_readFrame hframe
    exact (Packet.ofFrame_framed hframed first []).1 text
  · intro front rest hsplit hframed
    obtain ⟨hresult, hrest⟩ := readFrame_of_framed hserved hsplit hframed first
    have hread : result = Packet.ofFrame (first :: front) := by
      change (inflow.readFrame first timeout).result.bind Packet.ofFrame = _
      rw [hresult]
      rfl
    refine ⟨hrest, ?_⟩
    rw [hread]
    change (∃ p, Packet.decode (first :: inflow.bytes) = _ ∧ _) ∨
      ∃ e, Packet.decode (first :: inflow.bytes) = _ ∧ _
    rw [hsplit]
    exact (Packet.ofFrame_framed hframed first rest).2
  · intro front rest hsplit hoverlong
    obtain ⟨hresult, hrest⟩ := readFrame_of_overlong hserved hsplit hoverlong first
    exact ⟨hrest, readPacket_of_error hresult⟩
  · intro hunsettled
    obtain ⟨hresult, hrest⟩ := readFrame_of_not_settled hserved hunsettled first
    exact ⟨hrest, readPacket_of_error hresult⟩

/-- A PUBACK in three pieces, the last of which also brings a PINGREQ. -/
def threefold : Inflow :=
  { pieces := [(0, [2]), (3, []), (4, [0]), (8, [7, 192, 0])], ends := some 12 }

theorem readPacket_eq_decode_of_threefold :
    threefold.Served 5 ∧ Framed [2, 0, 7] ∧ (threefold.readFrame 0x40 5).rest = [192, 0] ∧
      ∃ p, Packet.decode (0x40 :: threefold.bytes) = .ok (.complete p 4) ∧
        threefold.readPacket 0x40 5 = .ok p := by
  have hframed : Framed [2, 0, 7] := ⟨[2], [0, 7], rfl, .last (by decide), by decide⟩
  have hsettled : Settled [2, 0, 7, 192, 0] := ⟨[2, 0, 7], ⟨[192, 0], rfl⟩, .inl hframed⟩
  have hserved : threefold.Served 5 :=
    .inr ⟨by decide, .inr ⟨by decide, .inr ⟨by decide, .inr ⟨by decide, .inl hsettled⟩⟩⟩⟩
  obtain ⟨hrest, hresult⟩ :=
    ((readPacket_eq_decode threefold 0x40 5).2 hserved).1 [2, 0, 7] [192, 0] rfl hframed
  refine ⟨hserved, hframed, hrest, hresult.resolve_right ?_⟩
  rintro ⟨e, hdecode, -⟩
  have hpacket : Packet.decode (0x40 :: threefold.bytes) = .ok (.complete (.pubAck 7) 4) := by
    decide +kernel
  rw [hpacket] at hdecode
  cases hdecode

end Inflow
end Mqtt
