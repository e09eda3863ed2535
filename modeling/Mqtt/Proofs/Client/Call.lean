import Mqtt.Client.Caller
import Mqtt.Proofs.Exchange
import Mqtt.Proofs.Packet.Agreement

/-!
A call that queues something is a check of its arguments and a request. The arguments that pass make
a packet that can be written, unless one of its texts is too long for a count of two bytes: no check
looks at that.
-/
namespace Mqtt

/-! Fields one behind the other can be written when each of them can. -/

theorem Field.exists_ofText_iff {value : String} :
    (∃ bytes, ofText value = .ok bytes) ↔ (Utf8.encode value).length ≤ 65535 := by
  simp only [ofText, ofBinary_eq_ok_iff, exists_and_left, exists_eq, and_true]

theorem Field.exists_flatMapM_iff {α : Type} {write : α → Except PacketError Octets}
    {values : List α} :
    (∃ bytes, values.flatMapM write = .ok bytes) ↔
      ∀ value ∈ values, ∃ bytes, write value = .ok bytes := by
  induction values with
  | nil => exact iff_of_true ⟨[], List.flatMapM_nil⟩ (by simp)
  | cons value values ih =>
    rw [List.forall_mem_cons, ← ih]
    simp only [flatMapM_cons_eq_ok_iff]
    constructor
    · rintro ⟨_, first, rest, hfirst, hrest, _⟩
      exact ⟨⟨first, hfirst⟩, rest, hrest⟩
    · rintro ⟨⟨first, hfirst⟩, rest, hrest⟩
      exact ⟨first ++ rest, first, rest, hfirst, hrest, rfl⟩

theorem Subscribe.exists_ofSubscription_iff {s : Subscription} (hqos : s.qos.toNat ≤ 2) :
    (∃ bytes, ofSubscription s = .ok bytes) ↔ (Utf8.encode s.filter).length ≤ 65535 := by
  have hlevel : Field.checkQos s.qos = .ok s.qos := Field.checkQos_eq_ok_iff.mpr ⟨hqos, rfl⟩
  unfold ofSubscription
  rw [hlevel, ← Field.exists_ofText_iff]
  exact exists_bind_eq_ok_iff fun filter _ => ⟨filter ++ [s.qos], rfl⟩

/-- With the identifier that its quality of service asks for, only the topic matters. -/
theorem Publish.exists_header_iff {p : Publish} (hqos : p.qos.toNat ≤ 2)
    (hid : p.qos ≠ 0 → ∃ id, p.id = some id ∧ id ≠ 0) :
    (∃ header, p.header = .ok header) ↔ (Utf8.encode p.topic).length ≤ 65535 := by
  rw [← Field.exists_ofText_iff]
  constructor
  · rintro ⟨header, h⟩
    obtain ⟨_, topic, htopic, _⟩ := header_eq_ok_iff.mp h
    exact ⟨topic, htopic⟩
  · rintro ⟨topic, htopic⟩
    by_cases hq : p.qos = 0
    · exact ⟨topic, header_eq_ok_iff.mpr ⟨hqos, topic, htopic, .inl ⟨hq, rfl⟩⟩⟩
    · obtain ⟨id, hsome, hne⟩ := hid hq
      exact ⟨topic ++ Octets.ofUInt16 id, header_eq_ok_iff.mpr
        ⟨hqos, topic, htopic, .inr ⟨hq, id, hsome, hne, rfl⟩⟩⟩

namespace Request

def texts : Request → List String
  | .publish message => [message.topic]
  | .subscribe subscriptions => subscriptions.map Subscription.filter
  | .unsubscribe filters => filters

def Short (r : Request) : Prop :=
  ∀ text ∈ r.texts, (Utf8.encode text).length ≤ 65535

/-- What is left to the checks of a call: a quality of service is one of three, and there is at
least one filter. -/
def Checked : Request → Prop
  | .publish message => message.qos.toNat ≤ 2
  | .subscribe subscriptions => subscriptions ≠ [] ∧ ∀ s ∈ subscriptions, s.qos.toNat ≤ 2
  | .unsubscribe filters => filters ≠ []

variable {r : Request} {id : UInt16}

theorem Checked.exists_body_iff (h : r.Checked) (hid : id ≠ 0) (dup : Bool) :
    (∃ body, ((r.delivery id).withDup dup).packet.body = .ok body) ↔ r.Short := by
  cases r with
  | publish message =>
    have hheader := Publish.exists_header_iff
      (p := { message with dup, id := if message.qos = 0 then none else some id }) h
      fun hq => ⟨id, if_neg hq, hid⟩
    simp only [Short, texts, List.mem_singleton, forall_eq, ← hheader]
    exact exists_bind_eq_ok_iff fun header _ => ⟨header ++ message.payload, rfl⟩
  | subscribe subscriptions =>
    obtain ⟨hne, hqos⟩ := h
    have hpayload : (∃ payload, Subscribe.payload ⟨id, subscriptions⟩ = .ok payload) ↔
        ∀ s ∈ subscriptions, (Utf8.encode s.filter).length ≤ 65535 := by
      simp only [Subscribe.payload_eq_ok_iff, and_iff_right hne]
      rw [Field.exists_flatMapM_iff]
      exact forall₂_congr fun s hs => Subscribe.exists_ofSubscription_iff (hqos s hs)
    simp only [Short, texts, List.forall_mem_map, ← hpayload]
    exact exists_bind_eq_ok_iff fun payload _ => ⟨Octets.ofUInt16 id ++ payload, rfl⟩
  | unsubscribe filters =>
    have hpayload : (∃ payload, filters.flatMapM Field.ofText = .ok payload) ↔
        ∀ text ∈ filters, (Utf8.encode text).length ≤ 65535 := by
      rw [Field.exists_flatMapM_iff]
      exact forall₂_congr fun _ _ => Field.exists_ofText_iff
    simp only [Short, texts, ← hpayload]
    exact exists_bind_eq_ok_iff fun payload _ => ⟨Octets.ofUInt16 id ++ payload, rfl⟩

theorem Checked.filled (h : r.Checked) (hid : id ≠ 0) (dup : Bool) :
    ((r.delivery id).withDup dup).packet.Filled := by
  cases r with
  | publish message => exact ⟨fun hp => absurd rfl hp, fun u hu => by cases hu⟩
  | subscribe subscriptions =>
    exact ⟨fun _ _ hz => hid (Option.some.inj hz), fun u hu => by cases hu⟩
  | unsubscribe filters =>
    refine ⟨fun _ _ hz => hid (Option.some.inj hz), fun u hu => ?_⟩
    obtain rfl := Packet.unsubscribe.inj hu
    exact h

/-- The duplicate flag stands in the first byte. -/
theorem body_withDup (r : Request) (id : UInt16) (dup : Bool) :
    ((r.delivery id).withDup dup).packet.body = (r.delivery id).packet.body := by
  cases r <;> rfl

/-- A checked request whose packet is not too long as a whole can be written, at first and as a
duplicate, exactly if no text in it is too long. -/
theorem Checked.writable_iff (h : r.Checked) (hid : id ≠ 0) (dup : Bool)
    (hfits : (r.delivery id).packet.Fits) :
    ((r.delivery id).withDup dup).packet.Writable ↔ r.Short := by
  rw [Packet.writable_iff, and_iff_right (h.filled hid dup), ← h.exists_body_iff hid dup]
  refine exists_congr fun body => and_iff_left_of_imp fun hbody => hfits body ?_
  rw [← body_withDup r id dup]
  exact hbody

end Request

namespace Client

inductive Call where
  | publish (topic : String) (payload : Octets) (qos : UInt8) (retain : Bool)
  | subscribe (topics : List String) (levels : List UInt8)
  | unsubscribe (topics : List String)
  deriving Repr, DecidableEq

def call (c : Client) : Call → Except ClientError (UInt16 × Client)
  | .publish topic payload qos retain => c.publish topic payload qos retain
  | .subscribe topics levels => c.subscribe topics levels
  | .unsubscribe topics => c.unsubscribe topics

def Call.request : Call → Except ClientError Request
  | .publish topic payload qos retain => do
    checkTopicArgument "topic" (Topic.checkName topic)
    checkQosArgument "qos" qos
    return .publish { dup := false, qos, retain, topic, id := none, payload }
  | .subscribe topics levels => do
    if topics = [] then throw noFilters
    if topics.length ≠ levels.length then
      throw (.invalidArgument "qos_levels"
        s!"{topics.length} topic filters but {levels.length} QoS levels")
    return .subscribe (← checkSubscriptions topics levels)
  | .unsubscribe topics => do
    if topics = [] then throw noFilters
    for topic in topics do
      checkTopicArgument "topics" (Topic.checkFilter topic)
    return .unsubscribe topics

/-- Only the arguments decide what is asked for, and only the client whether it is queued. -/
theorem call_eq (c : Client) (call : Call) :
    c.call call = call.request >>= fun r => c.enqueue r.delivery := by
  cases call with
  | publish topic payload qos retain =>
    simp only [Client.call, publish, Call.request, bind_assoc, pure_bind]
    rfl
  | subscribe topics levels =>
    simp only [Client.call, subscribe, Call.request]
    split
    next => rfl
    next =>
      split
      next => rfl
      next =>
        cases checkSubscriptions topics levels <;> rfl
  | unsubscribe topics =>
    simp only [Client.call, unsubscribe, Call.request]
    split
    next => rfl
    next =>
      rw [bind_assoc]
      rfl

theorem checkQosArgument_eq_ok {name : String} {qos : UInt8} {u : Unit}
    (h : checkQosArgument name qos = .ok u) : qos.toNat ≤ 2 := by
  unfold checkQosArgument at h
  split at h
  next => cases h
  next hle => omega

theorem checkSubscriptions_spec {topics : List String} {levels : List UInt8}
    {subscriptions : List Subscription} (h : checkSubscriptions topics levels = .ok subscriptions)
    (hlength : topics.length = levels.length) :
    subscriptions.map Subscription.filter = topics ∧ ∀ s ∈ subscriptions, s.qos.toNat ≤ 2 := by
  induction topics generalizing levels subscriptions with
  | nil =>
    cases h
    simp
  | cons topic topics ih =>
    cases levels with
    | nil => cases hlength
    | cons qos levels =>
      obtain ⟨_, _, h⟩ := exists_of_bind_eq_ok h
      obtain ⟨_, hqos, h⟩ := exists_of_bind_eq_ok h
      obtain ⟨rest, hrest, h⟩ := exists_of_bind_eq_ok h
      cases h
      obtain ⟨hfilters, hle⟩ := ih hrest (Nat.succ.inj hlength)
      refine ⟨by rw [List.map_cons, hfilters], ?_⟩
      rw [List.forall_mem_cons]
      exact ⟨checkQosArgument_eq_ok hqos, hle⟩

theorem Call.checked {call : Call} {r : Request} (h : call.request = .ok r) : r.Checked := by
  cases call with
  | publish topic payload qos retain =>
    obtain ⟨_, _, h⟩ := exists_of_bind_eq_ok h
    obtain ⟨_, hqos, h⟩ := exists_of_bind_eq_ok h
    cases h
    exact checkQosArgument_eq_ok hqos
  | subscribe topics levels =>
    simp only [request] at h
    split at h
    next => cases h
    next hne =>
      split at h
      next => cases h
      next hlength =>
        obtain ⟨subscriptions, hsubscriptions, h⟩ := exists_of_bind_eq_ok h
        cases h
        obtain ⟨hfilters, hqos⟩ :=
          checkSubscriptions_spec hsubscriptions (Decidable.not_not.mp hlength)
        refine ⟨fun hempty => hne ?_, hqos⟩
        rw [← hfilters, hempty, List.map_nil]
  | unsubscribe topics =>
    simp only [request] at h
    split at h
    next => cases h
    next hne =>
      obtain ⟨_, _, h⟩ := exists_of_bind_eq_ok h
      cases h
      exact hne

end Client
end Mqtt
