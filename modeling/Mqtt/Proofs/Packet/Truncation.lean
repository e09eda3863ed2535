import Mqtt.Proofs.Packet.Extension
import Mqtt.Proofs.Packet.Typed

/-!
A packet cut short is the start of a packet, and the number of bytes it asks for never goes past the
packet's end.
-/
namespace Mqtt

variable {bytes len : Octets} {k n : Nat}

namespace RemainingLength

theorem decode_take (hnumeral : Numeral len n) (hle : len.length ≤ 4) (hk : k < len.length) :
    decode (len.take k) = .error .bufferTooShort ∨
      ∃ hint text, decode (len.take k) = .error (.needMore hint text) := by
  have hshort : (len.take k).length < 4 := by
    rw [List.length_take]
    omega
  have hmore : ∀ b ∈ (len.take k).take 4, 128 ≤ b.toNat := fun b hb =>
    hnumeral.forall_take hk b (List.mem_of_mem_take hb)
  have herror := decode_eq_error_iff.mpr ⟨hmore, rfl⟩
  rw [if_pos hshort] at herror
  split_ifs at herror
  · exact .inl herror
  · exact .inr ⟨_, _, herror⟩

end RemainingLength

namespace FixedHeader

theorem read_take {h : FixedHeader} (hread : read bytes = .ok (some h)) (hpos : 0 < k)
    (hk : k < h.total) :
    read (bytes.take k) = .ok none ∧
      missing (bytes.take k) = if h.size ≤ k then h.total - k else 1 := by
  obtain ⟨len, body, rest, rfl, hnumeral, hle, hsize, hremaining⟩ := read_eq_ok_some_iff.mp hread
  obtain ⟨j, rfl⟩ := Nat.exists_eq_add_one.mpr hpos
  unfold total at hk
  rw [List.take_succ_cons]
  by_cases hj : len.length ≤ j
  · have htail : (len ++ (body ++ rest)).take j = len ++ (body ++ rest).take (j - len.length) := by
      rw [List.take_append, List.take_of_length_le hj]
    have hlength : ((len ++ (body ++ rest)).take j).length = j := by
      rw [List.length_take, List.length_append, List.length_append]
      omega
    have hdecode : RemainingLength.decode ((len ++ (body ++ rest)).take j) =
        .ok (body.length, len.length) := by
      rw [htail]
      exact RemainingLength.decode_eq_ok_iff.mpr ⟨len, _, rfl, hnumeral, rfl, hle⟩
    simp only [read, missing, hdecode, List.length_cons, hlength, total]
    rw [if_pos (by omega), if_pos (by omega)]
    exact ⟨rfl, by omega⟩
  · have htail : (len ++ (body ++ rest)).take j = len.take j := by
      rw [List.take_append_of_le_length (by omega)]
    rw [htail, if_neg (by omega)]
    obtain hdecode | ⟨hint, text, hdecode⟩ := RemainingLength.decode_take hnumeral hle
      (Nat.lt_of_not_le hj)
    · simp [read, missing, hdecode]
    · simp [read, missing, hdecode]

end FixedHeader

namespace Packet

variable {p : Packet}

theorem decodeAs_take {type : PacketType} (h : decodeAs type bytes = .ok (.complete p n))
    (hpos : 0 < k) (hk : k < n) :
    ∃ header, FixedHeader.read bytes = .ok (some header) ∧ header.total = n ∧
      decodeAs type (bytes.take k) =
        .ok (.incomplete (if header.size ≤ k then n - k else 1)) := by
  unfold decodeAs at h
  obtain ⟨_, hfirst, h⟩ := exists_of_bind_eq_ok h
  obtain ⟨header, hread, h⟩ := exists_of_bind_eq_ok h
  cases header with
  | none => cases h
  | some header =>
    obtain ⟨_, _, h⟩ := exists_of_bind_eq_ok h
    obtain ⟨packet, _, h⟩ := exists_of_bind_eq_ok h
    cases h
    obtain ⟨hnone, hmissing⟩ := FixedHeader.read_take hread hpos hk
    have hne : bytes.take k ≠ [] := by
      obtain ⟨_, _, _, rfl, _⟩ := FixedHeader.read_eq_ok_some_iff.mp hread
      simp [Nat.pos_iff_ne_zero.mp hpos]
    have hsame : checkFirst type (bytes.take k) = .ok () := by
      rw [← checkFirst_append hne (bytes.drop k), List.take_append_drop]
      exact hfirst
    refine ⟨header, hread, rfl, ?_⟩
    unfold decodeAs
    rw [hsame, ok_bind, hnone, ok_bind]
    dsimp only
    rw [hmissing]
    rfl

/-- The start of a packet asks for bytes of the packet only: for all that are missing once its length
is there, for one byte before. -/
theorem decode_take (h : decode bytes = .ok (.complete p n)) :
    ∃ len body, bytes.take n = p.first :: (len ++ body) ∧
      RemainingLength.Numeral len body.length ∧
      ∀ k, 0 < k → k < n →
        decode (bytes.take k) = .ok (.incomplete (if 1 + len.length ≤ k then n - k else 1)) := by
  obtain ⟨_, len, body, rest, hbody, rfl, hnumeral, hle, rfl⟩ := decode_eq_complete_iff.mp h
  have hcode : ∀ tail : Octets, leadingCode (p.first :: tail) = .ok p.type.code := fun tail => by
    rw [leadingCode, ((eq_first_iff (flags_lt hbody)).mp rfl).1]
  refine ⟨len, body, ?_, hnumeral, fun k hpos hk => ?_⟩
  · rw [Nat.add_assoc, Nat.add_comm, List.take_succ_cons, ← List.append_assoc,
      ← List.length_append, List.take_left]
  · rw [decode_eq_decodeAs (hcode _)] at h
    obtain ⟨header, hread, _, htake⟩ := decodeAs_take h hpos hk
    have hsize : header.size = 1 + len.length := by
      have hwhole := (FixedHeader.read_eq_ok_some_iff
        (h := ⟨p.first, 1 + len.length, body.length⟩)).mpr
        ⟨len, body, rest, rfl, hnumeral, hle, Nat.add_comm _ _, rfl⟩
      rw [hwhole] at hread
      cases hread
      rfl
    obtain ⟨j, rfl⟩ := Nat.exists_eq_add_one.mpr hpos
    rw [hsize] at htake
    rw [← htake]
    exact decode_eq_decodeAs (hcode _)

/-- How many bytes are held, having begun with some and then waited each time for as many more as
were asked for. -/
inductive Fed (bytes : Octets) (start : Nat) : Nat → Prop where
  | start : Fed bytes start start
  | more {k hint : Nat} (held : Fed bytes start k)
      (asked : decode (bytes.take k) = .ok (.incomplete hint)) : Fed bytes start (k + hint)

theorem fed_of_complete {start : Nat} (h : decode bytes = .ok (.complete p n)) (hpos : 0 < start)
    (hle : start ≤ n) : (∀ k, Fed bytes start k → start ≤ k ∧ k ≤ n) ∧ Fed bytes start n := by
  obtain ⟨len, body, _, _, hshort⟩ := decode_take h
  have hwhole := (two_le_of_complete h).2.2
  have hwithin : ∀ k, Fed bytes start k → start ≤ k ∧ k ≤ n := by
    intro k hfed
    induction hfed with
    | start => exact ⟨Nat.le_refl start, hle⟩
    | @more k hint _ asked ih =>
      have hk : k < n := by
        refine Nat.lt_of_le_of_ne ih.2 fun hend => ?_
        rw [hend, hwhole] at asked
        cases asked
      rw [hshort k (by omega) hk] at asked
      cases asked
      split <;> omega
  refine ⟨hwithin, ?_⟩
  -- each time at least one byte fewer is missing
  have hreach : ∀ missing k, Fed bytes start k → n - k = missing → Fed bytes start n := by
    intro missing
    induction missing using Nat.strongRecOn with
    | _ missing ih =>
      intro k hfed hmissing
      obtain ⟨hstart, hk⟩ := hwithin k hfed
      rcases Nat.lt_or_eq_of_le hk with hk | rfl
      · have hmore := hfed.more (hshort k (by omega) hk)
        refine ih _ ?_ _ hmore rfl
        split <;> omega
      · exact hfed
  exact hreach _ start .start rfl

/-- More bytes behind a packet or behind an error change nothing. A packet that is cut short is
waited for: one byte at a time until its length is there, then all that is missing, so that going by
what is asked for one comes to the packet's end and never past it. -/
theorem decode_append_and_take (hne : bytes ≠ []) :
    (∀ e, decode bytes = .error e → ∀ rest, decode (bytes ++ rest) = .error e) ∧
    ∀ p n, decode bytes = .ok (.complete p n) →
      (∀ rest, decode (bytes ++ rest) = .ok (.complete p n)) ∧
      (2 ≤ n ∧ n ≤ bytes.length) ∧
      (∃ len body, bytes.take n = p.first :: (len ++ body) ∧
        RemainingLength.Numeral len body.length ∧
        ∀ k, 0 < k → k < n →
          ∃ hint, decode (bytes.take k) = .ok (.incomplete hint) ∧ 1 ≤ hint ∧ hint ≤ n - k ∧
            (1 + len.length ≤ k → hint = n - k)) ∧
      ∀ start, 0 < start → start ≤ n →
        (∀ k, Fed bytes start k → k ≤ n) ∧ Fed bytes start n := by
  refine ⟨fun e herror rest => decode_append_of_error herror hne rest, fun p n h => ?_⟩
  obtain ⟨htwo, hle, _⟩ := two_le_of_complete h
  obtain ⟨len, body, htake, hnumeral, hshort⟩ := decode_take h
  refine ⟨decode_append_of_complete h, ⟨htwo, hle⟩, ⟨len, body, htake, hnumeral, ?_⟩, ?_⟩
  · intro k hpos hk
    refine ⟨_, hshort k hpos hk, ?_, ?_, fun hlen => if_pos hlen⟩
    · split <;> omega
    · split <;> omega
  · intro start hpos hstart
    obtain ⟨hwithin, hend⟩ := fed_of_complete h hpos hstart
    exact ⟨fun k hfed => (hwithin k hfed).2, hend⟩

/-- A length of 3 in two bytes: the PUBLISH asks for one byte until both are there, and then for
three. Bad flags stay bad. -/
theorem decode_append_and_take_of_padded :
    let bytes : Octets := [0x30, 0x83, 0, 0, 1, 97, 255]
    let p : Packet := .publish ⟨false, 0, false, "a", none, []⟩
    decode bytes = .ok (.complete p 6) ∧ decode (bytes ++ [1]) = .ok (.complete p 6) ∧
      (∃ hint, decode [0x30, 0x83] = .ok (.incomplete hint) ∧ 1 ≤ hint ∧ hint ≤ 4) ∧
      Fed bytes 1 6 ∧
      ∀ rest, decode ([0xC1, 0] ++ rest) = .error (.malformed (.wrongFlags .pingReq)) := by
  intro bytes p
  have hdecode : decode bytes = .ok (.complete p 6) := by rfl
  have herror : decode [0xC1, 0] = .error (.malformed (.wrongFlags .pingReq)) := by rfl
  have hne : bytes ≠ [] := List.cons_ne_nil _ _
  obtain ⟨happend, _, ⟨_, _, _, _, hshort⟩, hfed⟩ := (decode_append_and_take hne).2 p 6 hdecode
  obtain ⟨hint, hasked, hpos, hle, _⟩ := hshort 2 (by decide) (by decide)
  exact ⟨hdecode, happend [1], ⟨hint, hasked, hpos, hle⟩, (hfed 1 (by decide) (by decide)).2,
    (decode_append_and_take (by decide)).1 _ herror⟩

end Packet
end Mqtt
