import Mqtt.Packet.Walk
import Mqtt.Proofs.Outcome

/-!
What it means that a walk over a buffer follows a reader that is handed its bytes: it looks at no
other bytes, it does not crash, and it comes out the same way.
-/
namespace Mqtt

/-- A look stays in the first `reach` bytes of the buffer. What is marked off without an end begins
there. -/
def Look.Within (reach : Nat) : Look → Prop
  | .part start stop => start ≤ stop ∧ stop ≤ reach
  | .onward start => start ≤ reach
  | .read start stop => start ≤ stop ∧ stop ≤ reach

namespace Walk

variable {α α' β β' : Type}

def Outcome.ofExcept : Except PacketError α → Outcome α
  | .ok value => .done value
  | .error error => .failed error

/-- The same failure, or values that `R` relates. -/
def Outcome.Agrees (R : α → β → Prop) : Outcome α → Except PacketError β → Prop
  | .done a, .ok b => R a b
  | .failed e, .error e' => e = e'
  | _, _ => False

theorem Outcome.agrees_eq_iff {o : Outcome α} {x : Except PacketError α} :
    o.Agrees Eq x ↔ o = .ofExcept x := by
  cases o <;> cases x <;> simp [Agrees, ofExcept]

/-- The walk looks at the first `reach` bytes only and comes out as `x` does, up to `R`. -/
structure Follows (reach : Nat) (R : α → β → Prop) (w : Walk α) (x : Except PacketError β) :
    Prop where
  within : ∀ look ∈ w.looks, look.Within reach
  agrees : w.outcome.Agrees R x

namespace Follows

variable {reach : Nat} {R : α → β → Prop} {S : α' → β' → Prop} {w : Walk α}
  {x : Except PacketError β} {a : α} {b : β}

theorem pure (h : R a b) : Follows reach R (Pure.pure a : Walk α) (.ok b) :=
  ⟨fun _ hlook => absurd hlook List.not_mem_nil, h⟩

theorem fail (e : PacketError) : Follows reach R (Walk.fail e) (.error e) :=
  ⟨fun _ hlook => absurd hlook List.not_mem_nil, rfl⟩

theorem lift (x : Except PacketError α) : Follows reach Eq (Walk.lift x) x := by
  cases x with
  | ok a => exact pure rfl
  | error e => exact fail e

theorem note {look : Look} (h : look.Within reach) :
    Follows reach Eq (Walk.note look) (.ok ()) :=
  ⟨fun _ hlook => List.mem_singleton.mp hlook ▸ h, rfl⟩

theorem mono {S : α → β → Prop} (hw : Follows reach R w x) (h : ∀ a b, R a b → S a b) :
    Follows reach S w x := by
  obtain ⟨looks, outcome⟩ := w
  obtain ⟨hwithin, hagrees⟩ := hw
  refine ⟨hwithin, ?_⟩
  cases outcome with
  | done a =>
    cases x with
    | error e => exact hagrees
    | ok b => exact h a b hagrees
  | failed e => cases x <;> exact hagrees
  | crashed crash => cases x <;> exact hagrees

theorem ite {c : Prop} [Decidable c] {w' : Walk α} {x' : Except PacketError β}
    (ht : c → Follows reach R w x) (hf : ¬ c → Follows reach R w' x') :
    Follows reach R (if c then w else w') (if c then x else x') := by
  by_cases h : c
  · rw [if_pos h, if_pos h]
    exact ht h
  · rw [if_neg h, if_neg h]
    exact hf h

theorem relate (hw : Follows reach Eq w (.ok a)) (h : R a b) : Follows reach R w (.ok b) := by
  obtain ⟨looks, outcome⟩ := w
  obtain ⟨hwithin, hagrees⟩ := hw
  obtain rfl := Outcome.agrees_eq_iff.mp hagrees
  exact ⟨hwithin, h⟩

theorem bind_error {f : α → Walk α'} {e : PacketError} (hw : Follows reach R w (.error e)) :
    Follows reach S (w >>= f) (.error e) := by
  obtain ⟨looks, outcome⟩ := w
  obtain ⟨hwithin, hagrees⟩ := hw
  cases outcome with
  | done a => exact hagrees.elim
  | failed e' => exact ⟨hwithin, hagrees⟩
  | crashed crash => exact hagrees.elim

theorem bind_ok {f : α → Walk α'} {y : Except PacketError β'} (hw : Follows reach R w (.ok b))
    (hf : ∀ a, R a b → Follows reach S (f a) y) : Follows reach S (w >>= f) y := by
  obtain ⟨looks, outcome⟩ := w
  obtain ⟨hwithin, hagrees⟩ := hw
  cases outcome with
  | done a =>
    obtain ⟨hnext, hresult⟩ := hf a hagrees
    exact ⟨fun look hlook => (List.mem_append.mp hlook).elim (hwithin look) (hnext look), hresult⟩
  | failed e => exact hagrees.elim
  | crashed crash => exact hagrees.elim

theorem bind {f : α → Walk α'} {g : β → Except PacketError β'} (hw : Follows reach R w x)
    (hf : ∀ a b, R a b → Follows reach S (f a) (g b)) :
    Follows reach S (w >>= f) (x >>= g) := by
  cases x with
  | ok b => exact hw.bind_ok fun a h => hf a b h
  | error e => exact hw.bind_error

/-- A step that only the walk takes, before the rest of it. -/
theorem step {f : α → Walk α'} {y : Except PacketError β'} (hw : Follows reach Eq w (.ok a))
    (hf : Follows reach S (f a) y) : Follows reach S (w >>= f) y :=
  hw.bind_ok fun _ h => h ▸ hf

/-- What only the walk does with a value, after the rest of it. -/
theorem after {f : α → Walk α'} {S : α' → β → Prop} (hw : Follows reach R w x)
    (hf : ∀ a b, R a b → Follows reach S (f a) (.ok b)) : Follows reach S (w >>= f) x := by
  have h := hw.bind hf
  cases x <;> exact h

theorem map {f : α → α'} {g : β → β'} (hw : Follows reach R w x)
    (hf : ∀ a b, R a b → S (f a) (g b)) : Follows reach S (f <$> w) (x.map g) := by
  have h := hw.bind (f := fun a => Pure.pure (f a)) (g := fun b => .ok (g b)) fun a b hab =>
    pure (hf a b hab)
  cases x <;> exact h

theorem attempt {w : Walk α} {x : Except PacketError α} (hw : Follows reach Eq w x) :
    Follows reach Eq w.attempt (.ok x) := by
  obtain ⟨looks, outcome⟩ := w
  obtain ⟨hwithin, hagrees⟩ := hw
  obtain rfl := Outcome.agrees_eq_iff.mp hagrees
  cases x <;> exact ⟨hwithin, rfl⟩

theorem subtract {n m : Nat} (h : m ≤ n) :
    Follows reach Eq (Walk.subtract n m) (.ok (n - m)) := by
  rw [Walk.subtract, if_pos h]
  exact pure rfl

end Follows
end Walk

namespace Part

open Walk

variable {p : Part} {reach start stop offset : Nat}

theorem between_follows (hle : start ≤ stop) (hstop : stop ≤ p.length)
    (hreach : p.start + stop ≤ reach) :
    (p.between start stop).Follows reach Eq
      (.ok ⟨p.start + start, (p.bytes.take stop).drop start⟩) := by
  unfold between
  rw [if_pos (And.intro hle hstop)]
  exact .step (.note ⟨Nat.add_le_add_left hle _, hreach⟩) (.pure rfl)

theorem onward_follows (hle : start ≤ p.length) (hreach : p.start + start ≤ reach) :
    (p.onward start).Follows reach Eq (.ok ⟨p.start + start, p.bytes.drop start⟩) := by
  unfold onward
  rw [if_pos hle]
  exact .step (.note hreach) (.pure rfl)

theorem byte_follows {b : UInt8} (hbyte : p.bytes[offset]? = some b)
    (hreach : p.start + offset < reach) : (p.byte offset).Follows reach Eq (.ok b) := by
  unfold byte
  rw [hbyte]
  exact .step (.note ⟨Nat.le_succ _, hreach⟩) (.pure rfl)

theorem all_follows (hreach : p.start + p.length ≤ reach) :
    p.all.Follows reach Eq (.ok p.bytes) :=
  .step (.note ⟨Nat.le_add_right _ _, hreach⟩) (.pure rfl)

/-! Fields at the front of a part. -/

/-- The walk takes `n` bytes off the front of the part, two of them at least, and a value; the other
reader leaves what is behind them. -/
def Took {α : Type} (p : Part) : α × Nat → α × Octets → Prop
  | (a, n), (b, rest) => a = b ∧ 2 ≤ n ∧ n ≤ p.length ∧ rest = p.bytes.drop n

/-- The readers of a field do the same, and none looks at what is not in the part. -/
def Reader {α : Type} (read : Part → Walk (α × Nat))
    (field : Octets → Except PacketError (α × Octets)) : Prop :=
  ∀ {reach : Nat} (p : Part), p.start + p.length ≤ reach →
    (read p).Follows reach p.Took (field p.bytes)

theorem word_follows (hreach : p.start + min 2 p.length ≤ reach) :
    p.word.Follows reach (fun r r' => r.2 = 2 ∧ p.Took r r') (Field.word p.bytes) := by
  obtain ⟨start, bytes⟩ := p
  unfold word length at *
  match bytes with
  | [] => exact .fail _
  | [_] => exact .fail _
  | high :: low :: rest =>
    simp only [List.length_cons] at hreach ⊢
    rw [if_neg (by omega)]
    refine .step (byte_follows (b := high) rfl (by dsimp only; omega)) ?_
    refine .step (byte_follows (b := low) rfl (by dsimp only; omega)) (.pure ?_)
    exact ⟨rfl, rfl, Nat.le_refl 2, Nat.le_add_left 2 _, rfl⟩

theorem reader_word : Reader word Field.word :=
  fun p hreach => (word_follows (by omega)).mono fun _ _ h => h.2

theorem reader_binary : Reader binary Field.binary := by
  intro reach p hreach
  refine .bind (word_follows (p := p) (by omega)) ?_
  rintro ⟨count, _⟩ ⟨_, rest⟩ ⟨rfl, rfl, _, htwo, rfl⟩
  dsimp only
  have hrest : (p.bytes.drop 2).length = p.length - 2 := List.length_drop
  by_cases hlong : p.length < 2 + count.toNat
  · rw [if_pos hlong, if_pos (by rw [List.length_take]; omega)]
    exact .fail _
  · rw [if_neg hlong, if_neg (by rw [List.length_take]; omega)]
    have hdata : (p.bytes.take (2 + count.toNat)).drop 2 = (p.bytes.drop 2).take count.toNat := by
      rw [List.drop_take, Nat.add_sub_cancel_left]
    have hend : p.start + 2 + ((p.bytes.drop 2).take count.toNat).length ≤ reach := by
      rw [List.length_take]
      omega
    refine .step (between_follows (Nat.le_add_right 2 _) (by omega) (by omega)) ?_
    rw [hdata]
    refine .step (all_follows hend) (.pure ⟨rfl, Nat.le_add_right 2 _, by omega, ?_⟩)
    rw [List.drop_drop]

theorem reader_text : Reader text Field.text := by
  intro reach p hreach
  refine .bind (reader_binary p hreach) ?_
  rintro ⟨data, n⟩ ⟨_, rest⟩ ⟨rfl, htook⟩
  dsimp only
  cases Utf8.decode data with
  | ok value => exact .pure ⟨rfl, htook⟩
  | error fault => exact .fail _

end Part
end Mqtt
