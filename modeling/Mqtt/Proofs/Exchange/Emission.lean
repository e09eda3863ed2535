import Mqtt.Proofs.Exchange.Sound
import Mqtt.Proofs.Slot.Emission
import Mathlib.Data.List.DropRight

/-!
What goes over the wire for a message of our own: copies of it, all but the first marked as
duplicates, and from the PUBREC on only PUBRELs, on one connection or many.
-/
namespace Mqtt

namespace Slot

variable {p : Publish} {id : UInt16} {x y : Slot} {ms : List (Packet × Delivery)}
  {sent since : List Packet}

theorem Emits.turn {σ : Settings} {e : Entry} (h : x.Emits p id ms sent since) (hq : p.qos ≠ 0)
    (ht : x.Turn σ ⟨id, .outgoing⟩ e y) (ho : x.Owned ⟨id, .outgoing⟩)
    (hm : x.Mirrored ⟨id, .outgoing⟩) (hissue : e.issues id = false) :
    y.Emits p id (ms ++ e.found ⟨id, .outgoing⟩) (sent ++ e.sent ⟨id, .outgoing⟩)
        (if e.isReconnect then [] else since ++ e.sent ⟨id, .outgoing⟩) ∧
      Sends p id ms since (e.found ⟨id, .outgoing⟩) (e.work.of ⟨id, .outgoing⟩) := by
  have hnothing : Sends p id ms since [] {} := ⟨by simp, by simp, by simp⟩
  cases ht with
  | idle hidle =>
    have hsame : e.isReconnect = false := by
      cases e with
      | reconnected => exact absurd trivial hidle
      | _ => rfl
    rw [Entry.found_of_not_concerns hidle, Entry.sent_of_not_concerns hidle,
      Entry.work_of_not_concerns hidle, hsame]
    simpa using ⟨h, hnothing⟩
  | issue hk =>
    obtain rfl := congrArg Key.id hk
    simp [Entry.issues] at hissue
  | arrive hk | repeated hk => cases congrArg Key.direction hk
  | @pass acks now answered work hanswered hwork =>
    have hpass := h.pass hq ho σ acks now
    rw [← hwork, ← hanswered] at hpass
    exact hpass
  | reconnect =>
    have hrewound := h.rewound hq hm ho
    simp only [Entry.sent, Entry.found, Entry.work, Entry.answered, Entry.isReconnect,
      Work.of_empty, List.filter_nil, List.append_nil, if_true]
    exact ⟨hrewound, hnothing⟩

end Slot

namespace Entry

def current (t : List Entry) : List Entry :=
  t.rtakeWhile fun e => !e.isReconnect

theorem flatMap_current_concat (f : Entry → List Packet) (t : List Entry) (e : Entry) :
    (current (t ++ [e])).flatMap f =
      if e.isReconnect then [] else (current t).flatMap f ++ f e := by
  cases h : e.isReconnect with
  | true =>
    rw [current, List.rtakeWhile_concat_neg _ _ _ (by simp [h])]
    simp
  | false =>
    rw [current, List.rtakeWhile_concat_pos _ _ _ (by simp [h])]
    simp [current]

end Entry

namespace Exchange

variable {σ : Settings} {s : Session} {x y : Exchange} {p : Publish} {id : UInt16}

theorem Run.emits {own : List Entry} (h : Run σ x own y) (hx : x.Sound σ) (hid : id ≠ 0)
    (hq : p.qos ≠ 0) (hstart : (x.slot ⟨id, .outgoing⟩).Emits p id [] [] [])
    (hown : ∀ e ∈ own, e.issues id = false) :
    (y.slot ⟨id, .outgoing⟩).Emits p id (own.flatMap (Entry.found ⟨id, .outgoing⟩))
      (own.flatMap (Entry.sent ⟨id, .outgoing⟩))
      ((Entry.current own).flatMap (Entry.sent ⟨id, .outgoing⟩)) := by
  induction h with
  | nil => simpa [Entry.current] using hstart
  | @snoc t e y z run step ih =>
    have hy := run.sound hx
    have hemits := ih fun f hf => hown f (List.mem_append_left _ hf)
    have hz := (hemits.turn hq (step.turn hy hid) (hy.owned _) (hy.mirrored _ hid)
      (hown e (by simp))).1
    rw [Entry.flatMap_current_concat]
    simpa using hz

/-- What is sent for a message above quality 0: copies of it, the first as it was issued and the
others marked as duplicates, then PUBRELs. No PUBREL is sent before a PUBREC is matched and no copy
from then on, on any connection. Success is reported for the last answer only, and only if the
present connection has carried what is answered. -/
theorem publish_trace {early late : List Entry}
    (h : Run σ (start σ s) (early ++ .issued (.publish p) id :: late) x) (hq : p.qos ≠ 0)
    (hdup : p.dup = false) :
    let key : Key := ⟨id, .outgoing⟩
    let own := late.takeWhile fun e => !e.issues id
    (∃ n m, own.flatMap (Entry.sent key) = p.copies id n ++ List.replicate m (.pubRel id) ∧
        (p.qos = 1 → m = 0)) ∧
      ∀ a e b, own = a ++ e :: b →
        Slot.Sends p id (a.flatMap (Entry.found key))
          ((Entry.current a).flatMap (Entry.sent key)) (e.found key) (e.work.of key) := by
  intro key own
  obtain ⟨x₀, hearly, h⟩ := h.of_append
  obtain ⟨x₁, step, hlate⟩ := h.of_cons
  have hx₀ := hearly.sound (sound_start σ s)
  have hx₁ := step.sound hx₀
  obtain ⟨hid, _, hqueued⟩ := step.issued hx₀
  have hown : ∀ e ∈ own, e.issues id = false :=
    fun e he => by simpa using List.mem_takeWhile_imp he
  have hstart : (x₁.slot key).Emits p id [] [] [] := by
    have hstage : Stage.ofQos p.qos = .queued1 ∨ Stage.ofQos p.qos = .queued2 := by
      unfold Stage.ofQos
      rw [if_neg hq]
      split <;> simp
    have hpacket : (Delivery.publish id p).packet = p.copy id (0 != 0) := by
      simp [Delivery.publish, Publish.copy, hq, hdup]
    exact .ready (n := 0) hqueued hstage hpacket (by simp [Slot.Released])
  obtain ⟨z, hz, _⟩ := hlate.window fun e => !e.issues id
  refine ⟨?_, fun a e b hsplit => ?_⟩
  · have hemits := hz.emits hx₁ hid hq hstart hown
    exact hemits.shape hq ((hz.sound hx₁).owned key)
  · change Run σ x₁ own z at hz
    rw [hsplit] at hz hown
    obtain ⟨y, ha, hrest⟩ := hz.of_append
    obtain ⟨y', step', _⟩ := hrest.of_cons
    have hy := ha.sound hx₁
    have hemits := ha.emits hx₁ hid hq hstart fun f hf => hown f (List.mem_append_left _ hf)
    exact (hemits.turn hq (step'.turn hy hid) (hy.owned key) (hy.mirrored key hid)
      (hown e (by simp))).2

/-- The PUBREL of a message is repeated on a second connection and completed there. -/
theorem publish_trace_of_resumed :
    ∃ x, Run {} (start {} { clientId := "c" })
        ([] ++ .issued (.publish ⟨false, 2, false, "a", none, []⟩) 1 ::
          [.passed [] 0 [] { outgoing := [.publish ⟨false, 2, false, "a", some 1, []⟩] },
            .passed [.pubRec 1] 1
              [(.pubRec 1, ⟨.publish ⟨false, 2, false, "a", some 1, []⟩, .awaitPubrec, .outgoing, 1,
                1, some 0⟩)] { outgoing := [.pubRel 1] },
            .reconnected 1,
            .passed [] 2 [] { outgoing := [.pubRel 1] },
            .passed [.pubComp 1] 3
              [(.pubComp 1, ⟨.publish ⟨false, 2, false, "a", some 1, []⟩, .awaitPubcomp, .outgoing,
                1, 1, some 2⟩)] { events := [.published 1 true] }]) x ∧
      Slot.Acknowledged ⟨false, 2, false, "a", none, []⟩ 1 [.pubRel 1]
        [(.pubComp 1, ⟨.publish ⟨false, 2, false, "a", some 1, []⟩, .awaitPubcomp, .outgoing,
          1, 1, some 2⟩)] := by
  refine ⟨_, (and_iff_left_of_imp fun h => ?_).mpr
    (.cons (.issue rfl) (.cons (.pass rfl) (.cons (.pass rfl) (.cons (.reconnect rfl)
      (.cons (.pass rfl) (.cons (.pass rfl) .nil))))))⟩
  exact ((publish_trace h (by decide) rfl).2 [_, _, _, _] _ [] rfl).success (by decide)

end Exchange
end Mqtt
