import Mqtt.Proofs.Session.Table
import Mathlib.Data.List.DropRight

/-!
What a session stores is read off the operations on it: the last version that was put under each
key, in the order in which the keys came to stay.
-/
namespace Mqtt

namespace Delivery

/-- How a delivery is taken up on a new connection. What is sent again has not been sent yet. -/
inductive Restart (d : Delivery) : Delivery → Prop where
  | publish1 (hd : d.direction = .outgoing) (hs : d.stage = .awaitPuback) :
    Restart d { d.withDup true with stage := .queued1, attempts := 0, sentAt := none }
  | publish2 (hd : d.direction = .outgoing) (hs : d.stage = .awaitPubrec) :
    Restart d { d.withDup true with stage := .queued2, attempts := 0, sentAt := none }
  | release (hd : d.direction = .outgoing) (hs : d.stage = .awaitPubcomp) :
    Restart d { d.withDup false with stage := .sendPubrel, attempts := 0, sentAt := none }
  | same (h : d.direction = .outgoing → d.stage ∉ [.awaitPuback, .awaitPubrec, .awaitPubcomp]) :
    Restart d { d with attempts := 0, sentAt := none }

theorem withDup_unsent (d : Delivery) (dup : Bool) :
    Delivery.withDup { d with attempts := 0, sentAt := none } dup =
      { d.withDup dup with attempts := 0, sentAt := none } := by
  obtain ⟨packet, stage, direction, id, attempts, sentAt⟩ := d
  cases packet <;> rfl

theorem restart_rewound (d : Delivery) : d.Restart d.rewound := by
  unfold rewound
  dsimp only
  split
  next hd hs => exact withDup_unsent d true ▸ .publish1 hd hs
  next hd hs => exact withDup_unsent d true ▸ .publish2 hd hs
  next hd hs => exact withDup_unsent d false ▸ .release hd hs
  next h1 h2 h3 =>
    refine .same fun hd => ?_
    simp only [List.mem_cons, List.not_mem_nil, or_false, not_or]
    exact ⟨h1 hd, h2 hd, h3 hd⟩

theorem Restart.eq {d r r' : Delivery} (h : d.Restart r) (h' : d.Restart r') : r = r' := by
  cases h <;> cases h' <;> simp_all

theorem Restart.eq_rewound {d r : Delivery} (h : d.Restart r) : r = d.rewound :=
  h.eq d.restart_rewound

/-- A delivery that has been taken up is taken up as it stands. -/
@[simp] theorem rewound_rewound (d : Delivery) : d.rewound.rewound = d.rewound := by
  have h := d.restart_rewound
  generalize d.rewound = r at h ⊢
  refine (Restart.eq_rewound ?_).symm
  cases h with
  | publish1 | publish2 | release => exact .same (by simp)
  | same h => exact .same h

end Delivery

inductive Upkeep where
  | put (d : Delivery)
  | erase (key : Key)
  | clear
  | nextId (busy : UInt16 → Bool)
  | restore (clean : Bool)

namespace Upkeep

def run (s : Session) : Upkeep → Session
  | .put d => s.put d
  | .erase key => s.erase key
  | .clear => s.clear
  | .nextId busy => (s.nextId busy).elim s Prod.snd
  | .restore clean => (s.restore clean).2

/-- The operation leaves nothing under the key. -/
def drops (key : Key) : Upkeep → Bool
  | .erase other => other = key
  | .clear | .restore true => true
  | _ => false

/-- The version that is put under the key. -/
def put? (key : Key) : Upkeep → Option Delivery
  | .put d => if d.key = key then some d else none
  | _ => none

/-- What the key has gone through since it was last taken out. -/
def since (key : Key) (t : List Upkeep) : List Upkeep :=
  t.rtakeWhile fun u => !u.drops key

/-- The version that was put under the key last, if it has not been taken out. -/
def latest (key : Key) (t : List Upkeep) : Option Delivery :=
  ((since key t).filterMap (put? key)).getLast?

/-- The place of the operation that brought the key in, the first one since it was taken out. -/
def storedAt (key : Key) (t : List Upkeep) : Nat :=
  t.length - (since key t).length + (since key t).findIdx fun u => (u.put? key).isSome

variable {key : Key} {t : List Upkeep} {u : Upkeep} {d : Delivery} {s : Session}

theorem put?_eq_none_of_drops (h : u.drops key = true) : u.put? key = none := by
  cases u <;> first | rfl | cases h

theorem since_concat (key : Key) (t : List Upkeep) (u : Upkeep) :
    since key (t ++ [u]) = if u.drops key then [] else since key t ++ [u] := by
  unfold since
  rw [List.rtakeWhile_concat]
  cases u.drops key <;> rfl

theorem length_since_le (key : Key) (t : List Upkeep) : (since key t).length ≤ t.length :=
  (List.rtakeWhile_suffix _ _).length_le

theorem latest_concat (key : Key) (t : List Upkeep) (u : Upkeep) :
    latest key (t ++ [u]) = if u.drops key then none else (u.put? key).or (latest key t) := by
  unfold latest
  rw [since_concat]
  split
  next => rfl
  next =>
    rw [List.filterMap_append, List.getLast?_append]
    cases hu : u.put? key <;> simp [hu]

theorem latest_isSome_iff :
    (latest key t).isSome ↔ ∃ u ∈ since key t, (u.put? key).isSome = true := by
  simp [latest, Option.isSome_iff_ne_none]

theorem findIdx_since_lt (h : (latest key t).isSome) :
    (since key t).findIdx (fun u => (u.put? key).isSome) < (since key t).length :=
  List.findIdx_lt_length.mpr (latest_isSome_iff.mp h)

theorem storedAt_lt (h : (latest key t).isSome) : storedAt key t < t.length := by
  have hfound := findIdx_since_lt h
  have hle := length_since_le key t
  unfold storedAt
  omega

theorem storedAt_concat (hu : u.drops key = false) (h : (latest key t).isSome) :
    storedAt key (t ++ [u]) = storedAt key t := by
  have hle := length_since_le key t
  unfold storedAt
  rw [since_concat, hu, if_neg (by decide), List.findIdx_append, if_pos (findIdx_since_lt h),
    List.length_append, List.length_append]
  simp only [List.length_singleton]
  omega

/-- A key that was not there comes in behind all others. -/
theorem storedAt_concat_new (hu : (u.put? key).isSome) (h : latest key t = none) :
    storedAt key (t ++ [u]) = t.length := by
  have hnew : ¬ (since key t).findIdx (fun u => (u.put? key).isSome) < (since key t).length := by
    rw [List.findIdx_lt_length, ← latest_isSome_iff, h]
    decide
  have hdrops : u.drops key = false := by
    rw [← Bool.not_eq_true]
    intro hd
    rw [put?_eq_none_of_drops hd] at hu
    cases hu
  have hle := length_since_le key t
  unfold storedAt
  rw [since_concat, hdrops, if_neg (by decide), List.findIdx_append, if_neg hnew,
    List.length_append, List.length_append, List.findIdx_singleton, hu]
  simp only [List.length_singleton, if_true]
  omega

theorem deliveries_nextId (s : Session) (busy : UInt16 → Bool) :
    (Upkeep.run s (.nextId busy)).deliveries = s.deliveries := by
  show ((s.nextId busy).elim s Prod.snd).deliveries = s.deliveries
  cases hn : s.nextId busy with
  | none => rfl
  | some r =>
    obtain ⟨id, t⟩ := r
    obtain ⟨-, -, -, rfl⟩ := Session.nextId_spec hn
    rfl

/-- What an operation leaves under a key, up to the rewinding. -/
theorem get?_run (s : Session) (u : Upkeep) (key : Key) :
    ((u.run s).get? key).map Delivery.rewound =
      if u.drops key then none
      else ((u.put? key).or (s.get? key)).map Delivery.rewound := by
  cases u with
  | put d =>
    show ((s.put d).get? key).map _ = ((if d.key = key then some d else none).or _).map _
    rw [Session.get?_put]
    by_cases hk : key = d.key
    · simp [hk]
    · simp [hk, Ne.symm hk]
  | erase other =>
    show ((s.erase other).get? key).map _ = if decide (other = key) = true then _ else _
    rw [Session.get?_erase]
    by_cases hk : key = other
    · simp [hk]
    · simp [hk, Ne.symm hk, put?]
  | clear => rfl
  | nextId busy =>
    simp [Session.get?, deliveries_nextId, drops, put?]
  | restore clean =>
    cases clean with
    | true => rfl
    | false =>
      show (Session.get? { s with deliveries := s.deliveries.map Delivery.rewound } key).map _ = _
      rw [Session.get?_map_rewound]
      simp [drops, put?, Function.comp_def]

/-- The keys that an operation brings in. -/
def fresh (s : Session) : Upkeep → List Key
  | .put d => if s.contains d.key then [] else [d.key]
  | _ => []

theorem mem_fresh (h : key ∈ u.fresh s) : (u.put? key).isSome ∧ s.get? key = none := by
  cases u with
  | put d =>
    obtain ⟨hc, hk⟩ := List.mem_ite_nil_left.mp h
    obtain rfl := List.mem_singleton.mp hk
    refine ⟨by simp [put?], ?_⟩
    rwa [← Session.contains_eq_false_iff, ← Bool.not_eq_true]
  | _ => cases h

theorem keys_run (s : Session) (u : Upkeep) :
    (u.run s).deliveries.map Delivery.key =
      (s.deliveries.map Delivery.key).filter (fun key => !u.drops key) ++ u.fresh s := by
  cases u with
  | put d =>
    show (s.put d).deliveries.map _ = _ ++ if s.contains d.key then [] else [d.key]
    rw [Session.keys_put]
    simp [drops]
  | erase other =>
    show (s.deliveries.filter _).map _ = _
    simp [drops, fresh, List.filter_map, Function.comp_def, eq_comm]
  | clear => simp [run, Session.clear, drops, fresh]
  | nextId busy =>
    rw [deliveries_nextId]
    simp [drops, fresh]
  | restore clean =>
    cases clean with
    | true => simp [run, Session.restore, Session.clear, drops, fresh]
    | false => simp [run, Session.restore, drops, fresh, Function.comp_def]

def after (clientId : String) (t : List Upkeep) : Session :=
  t.foldl run { clientId }

variable {clientId : String}

@[simp] theorem after_concat (clientId : String) (t : List Upkeep) (u : Upkeep) :
    after clientId (t ++ [u]) = u.run (after clientId t) := by
  simp [after]

theorem get?_after (clientId : String) (t : List Upkeep) (key : Key) :
    ((after clientId t).get? key).map Delivery.rewound =
      (latest key t).map Delivery.rewound := by
  induction t using List.reverseRecOn with
  | nil => rfl
  | append_singleton t u ih =>
    rw [after_concat, get?_run, latest_concat]
    split
    next => rfl
    next =>
      cases u.put? key with
      | none => exact ih
      | some d => rfl

theorem isSome_latest_iff :
    (latest key t).isSome ↔ key ∈ (after clientId t).deliveries.map Delivery.key := by
  rw [← Option.isSome_map (f := Delivery.rewound), ← get?_after clientId, Option.isSome_map,
    ← Session.contains_eq_isSome]
  simp [Session.contains]

/-- Places that the keys keep, with the next one for what comes in, are in order. -/
theorem pairwise_run {place place' : Key → Nat} {n : Nat}
    (h : (s.deliveries.map Delivery.key).Pairwise fun k k' => place k < place k')
    (hlt : ∀ k ∈ s.deliveries.map Delivery.key, place k < n)
    (hkept : ∀ k ∈ s.deliveries.map Delivery.key, u.drops k = false → place' k = place k)
    (hfresh : ∀ k ∈ u.fresh s, place' k = n) :
    ((u.run s).deliveries.map Delivery.key).Pairwise fun k k' => place' k < place' k' := by
  have hkept : ∀ k ∈ (s.deliveries.map Delivery.key).filter (!u.drops ·),
      place' k = place k ∧ place k < n := by
    intro k hk
    obtain ⟨hk, hu⟩ := List.mem_filter.mp hk
    exact ⟨hkept k hk (by simpa using hu), hlt k hk⟩
  rw [keys_run]
  refine List.pairwise_append.mpr ⟨?_, ?_, ?_⟩
  · refine (h.filter _).imp_of_mem fun hk hk' hlt => ?_
    rwa [(hkept _ hk).1, (hkept _ hk').1]
  · cases u <;> simp only [fresh, List.Pairwise.nil]
    split <;> simp
  · intro k hk k' hk'
    rw [(hkept k hk).1, hfresh k' hk']
    exact (hkept k hk).2

/-- The deliveries stand in the order in which their keys came in. -/
theorem pairwise_storedAt (clientId : String) (t : List Upkeep) :
    ((after clientId t).deliveries.map Delivery.key).Pairwise
      fun k k' => storedAt k t < storedAt k' t := by
  induction t using List.reverseRecOn with
  | nil => exact .nil
  | append_singleton t u ih =>
    rw [after_concat]
    refine pairwise_run ih (fun k hk => storedAt_lt (isSome_latest_iff.mpr hk))
      (fun k hk hu => storedAt_concat hu (isSome_latest_iff.mpr hk)) fun k hk => ?_
    obtain ⟨hput, hnone⟩ := mem_fresh hk
    refine storedAt_concat_new hput ?_
    simpa [hnone] using (get?_after clientId t k).symm

theorem keyed_after (clientId : String) (t : List Upkeep) : (after clientId t).Keyed :=
  (pairwise_storedAt clientId t).imp fun hlt heq => absurd hlt (by simp [heq])

end Upkeep
end Mqtt
