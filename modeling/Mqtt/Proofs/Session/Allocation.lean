import Mqtt.Proofs.Session.Table

/-!
Identifiers are given out in turn. The 65535 of them are tried in a ring, each once, from the one
behind the last that was given out.
-/
namespace Mqtt.Session

/-- The identifier that counting up reaches `n` places behind the successor of `last`. From 65535 it
goes on with 1. -/
def behind (last : UInt16) (n : Nat) : UInt16 :=
  .ofNat ((last.toNat + n) % 65535 + 1)

variable {isFree : UInt16 → Bool} {last id : UInt16} {n tries : Nat}

theorem toNat_behind (last : UInt16) (n : Nat) :
    (behind last n).toNat = (last.toNat + n) % 65535 + 1 := by
  have hlt : (last.toNat + n) % 65535 < 65535 := Nat.mod_lt _ (by decide)
  unfold behind
  rw [UInt16.toNat_ofNat']
  omega

theorem toNat_succId (id : UInt16) : (succId id).toNat = id.toNat % 65535 + 1 := by
  have hlt := id.toNat_lt
  unfold succId
  split
  next h =>
    subst h
    rfl
  next h =>
    have hne : id.toNat ≠ 65535 := fun hn => h (UInt16.toNat_inj.mp hn)
    simp only [UInt16.toNat_add, UInt16.reduceToNat]
    omega

theorem behind_zero (last : UInt16) : behind last 0 = succId last := by
  rw [← UInt16.toNat_inj, toNat_behind, toNat_succId]
  omega

theorem behind_succId (last : UInt16) (n : Nat) : behind (succId last) n = behind last (n + 1) := by
  rw [← UInt16.toNat_inj, toNat_behind, toNat_behind, toNat_succId]
  omega

theorem behind_succ (last : UInt16) (n : Nat) : behind last (n + 1) = succId (behind last n) := by
  rw [← UInt16.toNat_inj, toNat_succId, toNat_behind, toNat_behind]
  omega

theorem behind_ne_zero (last : UInt16) (n : Nat) : behind last n ≠ 0 := by
  intro h
  have hzero := congrArg UInt16.toNat h
  rw [toNat_behind] at hzero
  cases hzero

/-- One turn of the ring meets every identifier. -/
theorem exists_behind_eq (last : UInt16) (h : id ≠ 0) : ∃ n < 65535, behind last n = id := by
  have hpos : id.toNat ≠ 0 := fun hn => h (UInt16.toNat_inj.mp hn)
  have hid := id.toNat_lt
  have hlast := last.toNat_lt
  refine ⟨(id.toNat + 65534 - last.toNat % 65535) % 65535, Nat.mod_lt _ (by decide), ?_⟩
  rw [← UInt16.toNat_inj, toNat_behind]
  omega

/-- One turn of the ring meets no identifier twice. -/
theorem behind_inj {m : Nat} (hm : m < 65535) (hn : n < 65535)
    (h : behind last m = behind last n) : m = n := by
  have heq := congrArg UInt16.toNat h
  rw [toNat_behind, toNat_behind] at heq
  omega

theorem searchId_eq_find? (isFree : UInt16 → Bool) (tries : Nat) (last : UInt16) :
    searchId isFree tries last = ((List.range tries).map (behind last)).find? isFree := by
  induction tries generalizing last with
  | zero => rfl
  | succ tries ih =>
    have hrest : (fun n => behind (succId last) n) = behind last ∘ Nat.succ := by
      funext n
      exact behind_succId last n
    unfold searchId
    rw [List.range_succ_eq_map, List.map_cons, List.map_map, List.find?_cons, behind_zero, ih,
      ← hrest]
    cases isFree (succId last) <;> rfl

/-- The search finds the first free identifier that it meets. -/
theorem searchId_eq_some_iff :
    searchId isFree tries last = some id ↔
      ∃ n < tries, id = behind last n ∧ isFree id = true ∧
        ∀ m < n, isFree (behind last m) = false := by
  rw [searchId_eq_find?, List.find?_map, Option.map_eq_some_iff]
  simp only [List.find?_range_eq_some, List.mem_range, Function.comp_apply, Bool.not_eq_true']
  constructor
  · rintro ⟨n, ⟨hfree, hlt, hfirst⟩, rfl⟩
    exact ⟨n, hlt, rfl, hfree, hfirst⟩
  · rintro ⟨n, hlt, rfl, hfree, hfirst⟩
    exact ⟨n, ⟨hfree, hlt, hfirst⟩, rfl⟩

theorem searchId_eq_none_iff :
    searchId isFree 65535 last = none ↔ ∀ id, id ≠ 0 → isFree id = false := by
  rw [searchId_eq_find?]
  simp only [List.find?_eq_none, List.forall_mem_map, List.mem_range, Bool.not_eq_true]
  constructor
  · intro h id hid
    obtain ⟨n, hn, rfl⟩ := exists_behind_eq last hid
    exact h n hn
  · exact fun h n _ => h _ (behind_ne_zero last n)

/-- An identifier that the session gives out if it meets it. -/
def Free (s : Session) (busy : UInt16 → Bool) (id : UInt16) : Prop :=
  (∀ d ∈ s.deliveries, d.direction = .outgoing → d.id ≠ id) ∧ busy id = false

theorem free_iff {s : Session} {busy : UInt16 → Bool} :
    s.Free busy id ↔ (!s.contains ⟨id, .outgoing⟩ && !busy id) = true := by
  have hkey : ∀ d : Delivery, d.key = ⟨id, .outgoing⟩ ↔ d.id = id ∧ d.direction = .outgoing := by
    intro d
    simp [Delivery.key]
  simp [Free, contains, hkey, imp_not_comm]

theorem nextId_eq_some_iff {s t : Session} {busy : UInt16 → Bool} :
    s.nextId busy = some (id, t) ↔
      t = { s with lastId := id } ∧ ∃ n < 65535, id = behind s.lastId n ∧ s.Free busy id ∧
        ∀ m < n, ¬ s.Free busy (behind s.lastId m) := by
  unfold nextId
  simp only [Option.map_eq_some_iff, Prod.mk.injEq, searchId_eq_some_iff, free_iff,
    Bool.not_eq_true]
  constructor
  · rintro ⟨_, hfound, rfl, rfl⟩
    exact ⟨rfl, hfound⟩
  · rintro ⟨rfl, hfound⟩
    exact ⟨id, hfound, rfl, rfl⟩

theorem nextId_eq_none_iff {s : Session} {busy : UInt16 → Bool} :
    s.nextId busy = none ↔ ∀ id, id ≠ 0 → ¬ s.Free busy id := by
  unfold nextId
  simp only [Option.map_eq_none_iff, searchId_eq_none_iff, free_iff, Bool.not_eq_true]

/-- An identifier is given out exactly if one is free, and then the first free one behind the last,
with no other change than that it is the last now. On the way there every identifier from 1 to
65535 is met once, and the messages of the broker that are stored do not matter. -/
theorem nextId_first_free (s : Session) (busy : UInt16 → Bool) :
    ((∃ r, s.nextId busy = some r) ↔ ∃ id, id ≠ 0 ∧ s.Free busy id) ∧
    (∀ id t, s.nextId busy = some (id, t) ↔
      t = { s with lastId := id } ∧ ∃ n < 65535, id = behind s.lastId n ∧ s.Free busy id ∧
        ∀ m < n, ¬ s.Free busy (behind s.lastId m)) ∧
    (behind s.lastId 0 = (if s.lastId = 65535 then 1 else s.lastId + 1) ∧
      (∀ n, behind s.lastId (n + 1) =
        if behind s.lastId n = 65535 then 1 else behind s.lastId n + 1) ∧
      ∀ id, id ≠ 0 → ∃! n, n < 65535 ∧ behind s.lastId n = id) ∧
    (Session.nextId { s with deliveries := s.deliveries.filter fun d => d.direction = .outgoing }
      busy).map Prod.fst = (s.nextId busy).map Prod.fst := by
  refine ⟨?_, fun _ _ => nextId_eq_some_iff, ⟨behind_zero _, behind_succ _, fun id hid => ?_⟩, ?_⟩
  · rw [← Option.isSome_iff_exists, ← Option.ne_none_iff_isSome, ne_eq, nextId_eq_none_iff]
    push Not
    rfl
  · obtain ⟨n, hn, hmeet⟩ := exists_behind_eq s.lastId hid
    exact ⟨n, ⟨hn, hmeet⟩, fun m ⟨hm, hmeet'⟩ => behind_inj hm hn (hmeet'.trans hmeet.symm)⟩
  · have hours : ∀ id, Session.contains
        { s with deliveries := s.deliveries.filter fun d => d.direction = .outgoing }
          ⟨id, .outgoing⟩ = s.contains ⟨id, .outgoing⟩ := by
      intro id
      simp only [contains, List.any_filter]
      congr 1
      funext d
      by_cases hd : d.direction = .outgoing <;> simp [Delivery.key, hd]
    simp only [nextId, hours, Option.map_map]
    rfl

/-- Behind 65534 stands 65535, which a message of our own holds, and then 1, which one of the broker
holds. -/
example :
    (Session.nextId
      { clientId := "c", lastId := 65534
        deliveries :=
          [.publish 65535 ⟨false, 1, false, "a", none, []⟩,
            .received ⟨false, 2, false, "a", some 1, []⟩] }
      fun _ => false).map Prod.fst = some 1 := by
  decide

end Mqtt.Session
