import Mqtt.Proofs.Client.Flow
import Mqtt.Proofs.Client.Writers

/-!
What the line of a connection carries. Five tasks hand packets to one line, which may take each of
them in pieces. Whole packets reach it, in the order in which they were handed over, and then at
most a part of one more; nothing follows a part that was given up.
-/
namespace Mqtt

namespace Client

def submits (c : Client) : Action → Option Packet
  | .connect options _ =>
    match options.check with
    | .ok _ => if c.established then none else some options.packet
    | .error _ => none
  | .disconnect => if c.isActive then some .disconnect else none
  | .run .caller =>
    match c.caller with
    | .joining options _ => some options.packet
    | _ => none
  | .run .receiver =>
    match c.connection.receiver with
    | .routing (.pubRel id) =>
      if c.connection.connack = .awaited ∨ c.connection.queue.awaits (.pubRel id) then none
      else some (.pubComp id)
    | _ => none
  | .run .worker =>
    match c.connection.worker with
    | .writing (packet :: _) _ => some packet
    | _ => none
  | .run .keeper =>
    match c.connection.keeper with
    | .checking period => if c.now < c.connection.lastSent + period then none else some .pingReq
    | _ => none
  | _ => none

def submitted : Client → List Action → List Packet :=
  trace fun c a => (c.submits a).toList

/-- The bytes of those packets that can be written at all. -/
def encodings (packets : List Packet) : List Octets :=
  packets.filterMap fun p => p.encode.toOption

def pending (c : Client) : List Octets :=
  c.connection.writes.map Write.left

def canWrite (c : Client) : Bool :=
  !c.connection.closing && !c.connection.line.broken

/-- Nothing is written any more on this connection. -/
def Silent (c : Client) : Prop :=
  ∀ actions d, c.acts actions = some d → (∀ line, .opened line ∉ c.milestones actions) →
    d.connection.line.written = c.connection.line.written

variable {c d e : Client} {a : Action} {u actions : List Action}

@[simp] theorem encodings_nil : encodings [] = [] := rfl

theorem encodings_append (ps qs : List Packet) :
    encodings (ps ++ qs) = encodings ps ++ encodings qs :=
  List.filterMap_append

theorem encodings_of_ok {p : Packet} {bytes : Octets} (h : p.encode = .ok bytes) :
    encodings [p] = [bytes] := by
  simp [encodings, h, Except.toOption]

theorem encodings_of_error {p : Packet} {e : PacketError} (h : p.encode = .error e) :
    encodings [p] = [] := by
  simp [encodings, h, Except.toOption]

theorem submitted_cons {v : List Action} (h : c.act a = some d) :
    c.submitted (a :: v) = (c.submits a).toList ++ d.submitted v :=
  trace_cons _ h

theorem submitted_concat (hu : c.acts u = some d) (h : d.act a = some e) :
    c.submitted (u ++ [a]) = c.submitted u ++ (d.submits a).toList :=
  trace_concat _ hu h

theorem canWrite_iff :
    c.canWrite = true ↔ c.connection.closing = false ∧ c.connection.line.broken = false := by
  simp [canWrite]

theorem canWrite_ne_of_closing (h : c.connection.closing = true) : c.canWrite ≠ true := by
  simp [canWrite, h]

theorem canWrite_ne_of_broken (h : c.connection.line.broken = true) : c.canWrite ≠ true := by
  simp [canWrite, h]

/-! What an action does to the line. -/

/-- The packet that an action hands over goes behind the others; otherwise the first one goes on, or
nothing is written. What is given up is given up for good. -/
inductive Ships (c : Client) : Option Packet → Client → Prop where
  | still {d : Client} (hwritten : d.connection.line.written = c.connection.line.written)
      (hgoing : d.canWrite = true → c.canWrite = true ∧ d.pending = c.pending) : Ships c none d
  | submitted {d : Client} {p : Packet} {bytes : Octets} (hbytes : p.encode = .ok bytes)
      (hwritten : d.connection.line.written = c.connection.line.written)
      (hgoing : d.canWrite = true → c.canWrite = true ∧ d.pending = c.pending ++ [bytes]) :
      Ships c (some p) d
  | unsendable {d : Client} {p : Packet} {e : PacketError} (herror : p.encode = .error e)
      (hwritten : d.connection.line.written = c.connection.line.written)
      (hgoing : d.canWrite = true → c.canWrite = true ∧ d.pending = c.pending) :
      Ships c (some p) d
  | continued {d : Client} {sent left : Octets} {rest : List Octets} (hwhole : c.canWrite = true)
      (hfirst : c.pending = (sent ++ left) :: rest) (hmore : left ≠ [])
      (hwritten : d.connection.line.written = c.connection.line.written ++ sent)
      (hpending : d.pending = left :: rest) : Ships c none d
  | finished {d : Client} {left : Octets} {rest : List Octets} (hwhole : c.canWrite = true)
      (hfirst : c.pending = left :: rest)
      (hwritten : d.connection.line.written = c.connection.line.written ++ left)
      (hpending : d.pending = rest) : Ships c none d

/-- What calls and the other end do hands nothing over, but for a new connection and DISCONNECT. -/
theorem submits_of_asked (hasked : a.isOwn = false) (hcall : a ≠ .disconnect)
    (hsame : ∀ line, c.milestone a ≠ some (.opened line)) : c.submits a = none := by
  cases a with
  | connect options line =>
    cases hcheck : options.check with
    | error e => simp [submits, hcheck]
    | ok u =>
      cases hestablished : c.established with
      | true => simp [submits, hcheck, hestablished]
      | false => exact absurd (by simp [milestone, hcheck, hestablished]) (hsame line)
  | disconnect => exact absurd rfl hcall
  | run | stop | expire => cases hasked
  | _ => rfl

theorem submits_of_isSending {task : Task} (h : c.isSending task = true) :
    c.submits (.run task) = none := by
  cases task with
  | caller => cases hcaller : c.caller <;> simp [isSending, submits, hcaller] at h ⊢
  | receiver =>
    cases hreceiver : c.connection.receiver <;> simp [isSending, submits, hreceiver] at h ⊢
  | worker => cases hworker : c.connection.worker <;> simp [isSending, submits, hworker] at h ⊢
  | keeper => cases hkeeper : c.connection.keeper <;> simp [isSending, submits, hkeeper] at h ⊢
  | dispatcher => rfl

/-- A step that neither hands over a packet nor touches those that were. -/
theorem Ships.idle (hnone : c.submits a = none)
    (hwritten : d.connection.line.written = c.connection.line.written)
    (hgoing : d.canWrite = true → c.canWrite = true ∧ d.pending = c.pending) :
    c.Ships (c.submits a) d := by
  rw [hnone]
  exact .still hwritten hgoing

theorem Ships.ending (hnone : c.submits a = none)
    (hwritten : d.connection.line.written = c.connection.line.written)
    (hclosing : d.connection.closing = true) : c.Ships (c.submits a) d :=
  .idle hnone hwritten fun hgoing => absurd hgoing (canWrite_ne_of_closing hclosing)

theorem CallerStep.ships (step : c.CallerStep a d) (hcall : a ≠ .disconnect)
    (hsame : ∀ line, c.milestone a ≠ some (.opened line)) : c.Ships (c.submits a) d := by
  cases step with
  | joined hcaller => exact absurd (milestone_of_joining hcaller) (hsame _)
  | asked _ hvalid hfree => exact absurd (milestone_of_connect hvalid hfree) (hsame _)
  | departed | dismissed => exact absurd rfl hcall
  | replaced => exact .idle (submits_of_asked rfl hcall hsame) rfl fun h => ⟨h, rfl⟩
  | declined _ hasked | issued _ _ _ hasked | unissued _ hasked =>
    exact .idle (submits_of_asked hasked hcall hsame) rfl fun h => ⟨h, rfl⟩
  | finished | signalled => exact .still rfl fun h => ⟨h, rfl⟩
  | accepted hcaller | resumed hcaller | released hcaller | opened hcaller | cleared hcaller
  | failed hcaller | ended hcaller =>
    exact .idle (by simp [submits, hcaller]) rfl fun h => ⟨h, rfl⟩
  | refused hcaller | unanswered hcaller | left hcaller =>
    exact .ending (by simp [submits, hcaller]) rfl rfl

theorem ships_of_disconnect (hact : c.act .disconnect = some d) :
    c.Ships (c.submits .disconnect) d := by
  obtain ⟨-, rfl⟩ := free_spec hact
  unfold disconnect
  cases hestablished : c.established with
  | false =>
    have hinactive : c.isActive = false := by simp [isActive, hestablished]
    exact .idle (by simp [submits, hinactive]) rfl fun h => ⟨h, rfl⟩
  | true =>
    cases hactive : c.isActive with
    | false =>
      simp only [beginClose_eq]
      exact .ending (by simp [submits, hactive]) rfl rfl
    | true =>
      have hbytes : Packet.disconnect.encode = .ok [224, 0] := by decide +kernel
      have hsome : c.submits .disconnect = some .disconnect := by simp [submits, hactive]
      rw [hsome]
      simp only [post, hbytes]
      exact .submitted hbytes rfl fun h => ⟨h, List.map_append⟩

theorem ReceiverStep.ships (step : c.ReceiverStep a d) : c.Ships (c.submits a) d := by
  cases step with
  | read hreceiver | received hreceiver | faulted hreceiver | acknowledged hreceiver
  | answered hreceiver | unsolicited hreceiver | taken hreceiver | resumed hreceiver
  | woke hreceiver =>
    exact .idle (by simp [submits, hreceiver]) rfl fun h => ⟨h, rfl⟩
  | failed hreceiver => exact .ending (by simp [submits, hreceiver]) rfl rfl
  | @violated p text hreceiver _ _ hanswered =>
    have hnone : c.submits (.run .receiver) = none := by
      by_cases hconnack : c.connection.connack = .awaited
      · cases p <;> simp [submits, hreceiver, hconnack]
      · cases p with
        | pubRel id => exact absurd rfl ((hanswered hconnack).2 id)
        | _ => simp [submits, hreceiver]
    exact .idle hnone rfl fun h => ⟨h, rfl⟩
  | @kept ack hreceiver hconnack hawaited =>
    have hnone : c.submits (.run .receiver) = none := by
      cases ack with
      | pubRel id => simp [submits, hreceiver, hawaited]
      | _ => simp [submits, hreceiver]
    exact .idle hnone rfl fun h => ⟨h, rfl⟩
  | @stale ack hreceiver _ _ hanswered =>
    have hnone : c.submits (.run .receiver) = none := by
      cases ack with
      | pubRel id => exact absurd rfl (hanswered id)
      | _ => simp [submits, hreceiver]
    exact .idle hnone rfl fun h => ⟨h, rfl⟩
  | @released id bytes hreceiver hconnack hstale hbytes =>
    have hsome : c.submits (.run .receiver) = some (.pubComp id) := by
      simp [submits, hreceiver, hconnack, hstale]
    rw [hsome]
    exact .submitted hbytes rfl fun h => ⟨h, List.map_append⟩
  | @unreleased id e hreceiver hconnack hstale herror =>
    have hsome : c.submits (.run .receiver) = some (.pubComp id) := by
      simp [submits, hreceiver, hconnack, hstale]
    rw [hsome]
    exact .unsendable herror rfl fun h => ⟨h, rfl⟩
  | broken hclosing => exact .still rfl fun h => ⟨h, rfl⟩
  | brokenOff hclosing => exact .still rfl fun h => absurd h (canWrite_ne_of_closing hclosing)

theorem WorkerStep.ships (step : c.WorkerStep a d) : c.Ships (c.submits a) d := by
  cases step with
  | rested hworker | woken hworker | overdue hworker | expired hworker | passed hworker
  | finished hworker | unreported hworker | reported hworker | signalled hworker | settled hworker =>
    exact .idle (by simp [submits, hworker]) rfl fun h => ⟨h, rfl⟩
  | failed hworker => exact .ending (by simp [submits, hworker]) rfl rfl
  | @took p rest events bytes hworker hbytes =>
    have hsome : c.submits (.run .worker) = some p := by simp [submits, hworker]
    rw [hsome]
    exact .submitted hbytes rfl fun h => ⟨h, List.map_append⟩
  | @unsendable p rest events e hworker herror =>
    have hsome : c.submits (.run .worker) = some p := by simp [submits, hworker]
    rw [hsome]
    exact .unsendable herror rfl fun h => ⟨h, rfl⟩
  | broken => exact .still rfl fun h => ⟨h, rfl⟩

theorem KeeperStep.ships (step : c.KeeperStep a d) : c.Ships (c.submits a) d := by
  cases step with
  | rested hkeeper | woken hkeeper | answered hkeeper | abandoned hkeeper | unanswered hkeeper =>
    exact .idle (by simp [submits, hkeeper]) rfl fun h => ⟨h, rfl⟩
  | spared hkeeper hrecent =>
    exact .idle (by simp [submits, hkeeper, hrecent]) rfl fun h => ⟨h, rfl⟩
  | failed hkeeper => exact .ending (by simp [submits, hkeeper]) rfl rfl
  | @asked period bytes hkeeper hquiet hbytes =>
    have hsome : c.submits (.run .keeper) = some .pingReq := by
      simp [submits, hkeeper, Nat.not_lt.mpr hquiet]
    rw [hsome]
    exact .submitted hbytes rfl fun h => ⟨h, List.map_append⟩
  | broken => exact .still rfl fun h => ⟨h, rfl⟩
  | brokenOff hclosing => exact .still rfl fun h => absurd h (canWrite_ne_of_closing hclosing)

theorem DispatcherStep.ships (step : c.DispatcherStep a d) : c.Ships (c.submits a) d := by
  cases step <;> exact .still rfl fun h => ⟨h, rfl⟩

theorem Heeds.line {outcome : Except ClientError Unit} {task : Task}
    (h : c.Heeds outcome task d) : d.connection.line = c.connection.line := by
  cases h <;> rfl

theorem Heeds.canWrite {outcome : Except ClientError Unit} {task : Task}
    (h : c.Heeds outcome task d) (hgoing : d.canWrite = true) : c.canWrite = true := by
  cases h with
  | ungreeted => cases hgoing
  | _ => exact hgoing

/-- Whatever an action does beside the beginning of a connection. -/
theorem ships_of_act (hact : c.act a = some d)
    (hsame : ∀ line, c.milestone a ≠ some (.opened line)) : c.Ships (c.submits a) d := by
  by_cases hcall : a = .disconnect
  · subst hcall
    exact ships_of_disconnect hact
  · cases Step.of_act hact with
    | caller step => exact step.ships hcall hsame
    | receiver step => exact step.ships
    | worker step => exact step.ships
    | keeper step => exact step.ships
    | dispatcher step => exact step.ships
    | @withdrawn task _ hclosing hsending hheeds =>
      have hline : d.connection.line = c.connection.line := hheeds.line
      refine .idle (submits_of_isSending hsending) (by rw [hline]) fun hgoing => ?_
      exact absurd (hheeds.canWrite hgoing) (canWrite_ne_of_closing hclosing)
    | @written count w rest _ hwrites hopen hwhole _ hheeds =>
      have hline : d.connection.line = c.connection.line.write c.now w.left := hheeds.line
      have hrest : d.connection.writes = rest := hheeds.writes
      have hwritten : d.connection.line.written = c.connection.line.written ++ w.left := by
        rw [hline, Line.written_write]
      apply Ships.finished (canWrite_iff.mpr ⟨hopen, hwhole⟩) _ hwritten
      · rw [pending, hrest]
      · rw [pending, hwrites, List.map_cons]
    | lost _ _ hbroken hheeds =>
      have hline : d.connection.line = c.connection.line := hheeds.line
      refine .still (by rw [hline]) fun hgoing => ?_
      exact absurd (hheeds.canWrite hgoing) (canWrite_ne_of_broken hbroken)
    | @continued count w rest sent left hwrites hopen hwhole hleft hmore =>
      have hwritten := Line.written_write c.connection.line c.now sent
      apply Ships.continued (canWrite_iff.mpr ⟨hopen, hwhole⟩) _ hmore hwritten
      · rfl
      · rw [pending, hwrites, List.map_cons, hleft]
    | @carried _ line hother hwritten hbroken =>
      have hline : line.written = c.connection.line.written := by
        rw [Line.written, hwritten, ← Line.written]
      refine .idle (submits_of_asked hother hcall hsame) hline fun hgoing => ?_
      obtain ⟨hopen, hwhole⟩ := canWrite_iff.mp hgoing
      have hbefore : c.connection.line.broken = false := by
        cases hb : c.connection.line.broken with
        | false => rfl
        | true => exact absurd (hbroken hb) (by rw [show line.broken = false from hwhole]; simp)
      exact ⟨canWrite_iff.mpr ⟨hopen, hbefore⟩, rfl⟩
    | elapsed => exact .still rfl fun h => ⟨h, rfl⟩

/-! What the line has carried, and what is on its way. -/

/-- What is still to be written makes up the rest of the packets, once the part of the first one
that is on the line is put back in front of it. -/
def Completes (cut : Octets) : (pending rest : List Octets) → Prop
  | [], rest => rest = [] ∧ cut = []
  | left :: others, rest => rest = (cut ++ left) :: others

/-- Of the packets handed over the line carries some whole and then a part `cut` of the next one. As
long as anything can be written, the others are on their way. -/
structure Carried (earlier : Octets) (packets whole rest : List Octets) (cut : Octets)
    (c : Client) : Prop where
  packets : packets = whole ++ rest
  written : c.connection.line.written = earlier ++ whole.flatten ++ cut
  part : cut = [] ∨ ∃ next later, rest = next :: later ∧ cut <+: next ∧ cut ≠ next
  going : c.canWrite = true → Completes cut c.pending rest

variable {earlier cut : Octets} {packets whole rest : List Octets}

theorem Completes.append {pending : List Octets} (h : Completes cut pending rest)
    (bytes : Octets) : Completes cut (pending ++ [bytes]) (rest ++ [bytes]) := by
  cases pending with
  | nil =>
    obtain ⟨rfl, rfl⟩ := h
    rfl
  | cons left others =>
    obtain rfl : rest = (cut ++ left) :: others := h
    rfl

/-- A packet that is behind all others is on its way from its first byte. -/
theorem completes_refl (packets : List Octets) : Completes [] packets packets := by
  cases packets with
  | nil => exact ⟨rfl, rfl⟩
  | cons => rfl

theorem Carried.submit (h : Carried earlier packets whole rest cut c) {bytes : Octets}
    (hwritten : d.connection.line.written = c.connection.line.written)
    (hgoing : d.canWrite = true → c.canWrite = true ∧ d.pending = c.pending ++ [bytes]) :
    Carried earlier (packets ++ [bytes]) whole (rest ++ [bytes]) cut d := by
  have hpart : cut = [] ∨
      ∃ next later, rest ++ [bytes] = next :: later ∧ cut <+: next ∧ cut ≠ next := by
    rcases h.part with hnone | ⟨next, later, hnext, hprefix, hproper⟩
    · exact .inl hnone
    · exact .inr ⟨next, later ++ [bytes], by rw [hnext, List.cons_append], hprefix, hproper⟩
  refine ⟨by rw [h.packets, List.append_assoc], hwritten.trans h.written, hpart, fun hopen => ?_⟩
  obtain ⟨hbefore, hpending⟩ := hgoing hopen
  rw [hpending]
  exact (h.going hbefore).append bytes

theorem Carried.still (h : Carried earlier packets whole rest cut c)
    (hwritten : d.connection.line.written = c.connection.line.written)
    (hgoing : d.canWrite = true → c.canWrite = true ∧ d.pending = c.pending) :
    Carried earlier packets whole rest cut d := by
  refine ⟨h.packets, hwritten.trans h.written, h.part, fun hopen => ?_⟩
  obtain ⟨hbefore, hpending⟩ := hgoing hopen
  rw [hpending]
  exact h.going hbefore

theorem Carried.continue (h : Carried earlier packets whole rest cut c) {sent left : Octets}
    {others : List Octets} (hwhole : c.canWrite = true)
    (hfirst : c.pending = (sent ++ left) :: others) (hmore : left ≠ [])
    (hwritten : d.connection.line.written = c.connection.line.written ++ sent)
    (hpending : d.pending = left :: others) :
    Carried earlier packets whole rest (cut ++ sent) d := by
  have hgoing := h.going hwhole
  rw [hfirst] at hgoing
  have hrest : rest = (cut ++ sent ++ left) :: others := by
    rw [List.append_assoc]
    exact hgoing
  refine ⟨h.packets, ?_, ?_, fun _ => ?_⟩
  · rw [hwritten, h.written, List.append_assoc]
  · have hproper : cut ++ sent ≠ cut ++ sent ++ left := by
      intro heq
      exact hmore (List.self_eq_append_right.mp heq)
    exact .inr ⟨_, _, hrest, List.prefix_append _ _, hproper⟩
  · rw [hpending]
    exact hrest

theorem Carried.finish (h : Carried earlier packets whole rest cut c) {left : Octets}
    {others : List Octets} (hwhole : c.canWrite = true) (hfirst : c.pending = left :: others)
    (hwritten : d.connection.line.written = c.connection.line.written ++ left)
    (hpending : d.pending = others) :
    Carried earlier packets (whole ++ [cut ++ left]) others [] d := by
  have hgoing := h.going hwhole
  rw [hfirst] at hgoing
  have hrest : rest = (cut ++ left) :: others := hgoing
  refine ⟨?_, ?_, .inl rfl, fun _ => ?_⟩
  · rw [h.packets, hrest, List.append_assoc, List.singleton_append]
  · simp [hwritten, h.written]
  · rw [hpending]
    exact completes_refl others

/-- One action hands over a packet at most, and the first one goes on at most. -/
theorem Carried.ships (h : Carried earlier packets whole rest cut c) {submitted : Option Packet}
    (hships : c.Ships submitted d) : ∃ whole' rest' cut',
      Carried earlier (packets ++ encodings submitted.toList) whole' rest' cut' d := by
  cases hships with
  | still hwritten hgoing =>
    have hd := h.still hwritten hgoing
    exact ⟨whole, rest, cut, by simpa using hd⟩
  | @submitted _ p bytes hbytes hwritten hgoing =>
    have hd := h.submit hwritten hgoing
    exact ⟨whole, rest ++ [bytes], cut, by simpa [encodings_of_ok hbytes] using hd⟩
  | @unsendable _ p e herror hwritten hgoing =>
    have hd := h.still hwritten hgoing
    exact ⟨whole, rest, cut, by simpa [encodings_of_error herror] using hd⟩
  | continued hwhole hfirst hmore hwritten hpending =>
    have hd := h.continue hwhole hfirst hmore hwritten hpending
    exact ⟨_, _, _, by simpa using hd⟩
  | finished hwhole hfirst hwritten hpending =>
    have hd := h.finish hwhole hfirst hwritten hpending
    exact ⟨_, _, _, by simpa using hd⟩

theorem carried_of_opened {line : Line} (hact : c.act a = some d)
    (hopened : c.milestone a = some (.opened line)) : ∃ whole rest cut,
      Carried line.written (encodings (c.submits a).toList) whole rest cut d := by
  have hgreets {options : ConnectOptions} (hsubmits : c.submits a = some options.packet)
      (hgreets : c.Greets options line d) : ∃ whole rest cut,
        Carried line.written (encodings (c.submits a).toList) whole rest cut d := by
    rw [hsubmits, Option.toList_some]
    cases hgreets with
    | @posted bytes hbytes =>
      exact ⟨[], [bytes], [], encodings_of_ok hbytes, by simp, .inl rfl, fun _ => rfl⟩
    | @unsendable e herror =>
      exact ⟨[], [], [], encodings_of_error herror, by simp, .inl rfl, fun _ => ⟨rfl, rfl⟩⟩
  rcases opened_cases hact hopened with
    ⟨options, rfl, -, hvalid, hfree, rfl⟩ | ⟨options, rfl, hcaller, -, rfl⟩
  · exact hgreets (by simp [submits, hvalid, hfree]) (.of_greet c options line)
  · exact hgreets (by simp [submits, hcaller]) (.of_greet c options line)

theorem Ships.of_closed {submitted : Option Packet} (h : c.Ships submitted d)
    (hclosed : c.canWrite ≠ true) :
    d.canWrite ≠ true ∧ d.connection.line.written = c.connection.line.written := by
  cases h with
  | still hwritten hgoing | submitted _ hwritten hgoing | unsendable _ hwritten hgoing =>
    exact ⟨fun hopen => hclosed (hgoing hopen).1, hwritten⟩
  | continued hwhole | finished hwhole => exact absurd hwhole hclosed

theorem silent_of_closed (h : c.canWrite ≠ true) : c.Silent := by
  intro actions d hacts hsame
  have hkept : d.canWrite ≠ true ∧ d.connection.line.written = c.connection.line.written := by
    apply connection_induction
      (motive := fun _ d => d.canWrite ≠ true ∧
        d.connection.line.written = c.connection.line.written) ⟨h, rfl⟩ _ hacts hsame
    intro u d e a _ ⟨hclosed, hwritten⟩ hact hsame
    obtain ⟨hstill, hsilent⟩ := (ships_of_act hact hsame).of_closed hclosed
    exact ⟨hstill, hsilent.trans hwritten⟩
  exact hkept.2

/-- What is on the line of a part goes on, or nothing does. -/
theorem Carried.truncated (h : Carried earlier packets whole rest cut c) :
    cut = [] ∨ ∃ next later, rest = next :: later ∧ cut <+: next ∧ cut ≠ next ∧
      (c.Silent ∨ ∃ w others, c.connection.writes = w :: others ∧ next = cut ++ w.left) := by
  rcases h.part with hnone | ⟨next, later, hrest, hprefix, hproper⟩
  · exact .inl hnone
  · refine .inr ⟨next, later, hrest, hprefix, hproper, ?_⟩
    by_cases hopen : c.canWrite = true
    · right
      have hgoing := h.going hopen
      cases hwrites : c.connection.writes with
      | nil =>
        rw [pending, hwrites] at hgoing
        cases hrest.symm.trans hgoing.1
      | cons w others =>
        rw [pending, hwrites] at hgoing
        exact ⟨w, others, rfl, (List.cons.inj (hrest.symm.trans hgoing)).1⟩
    · exact .inl (silent_of_closed hopen)

/-- Of one connection, whichever way its senders take turns: the line carries, behind what was on it
before, the packets that were handed to it as whole encodings and in the order in which they were
handed over, and then at most a part of the next one. Such a part is still going on, as the first
packet on its way, or no byte will follow it; and nothing is written any more once the connection is
to be taken down or the line is broken. -/
theorem whole_packets {c' : Client} {line : Line} (hact : c.act a = some c')
    (hopened : c.milestone a = some (.opened line)) (hacts : c'.acts actions = some d)
    (hsame : ∀ l, .opened l ∉ c'.milestones actions) :
    ∃ whole rest cut, encodings (c.submitted (a :: actions)) = whole ++ rest ∧
      d.connection.line.written = line.written ++ whole.flatten ++ cut ∧
      (cut = [] ∨ ∃ next later, rest = next :: later ∧ cut <+: next ∧ cut ≠ next ∧
        (d.Silent ∨ ∃ w others, d.connection.writes = w :: others ∧ next = cut ++ w.left)) ∧
      (d.connection.closing = true ∨ d.connection.line.broken = true → d.Silent) := by
  obtain ⟨whole, rest, cut, hcarried⟩ : ∃ whole rest cut, Carried line.written
      (encodings ((c.submits a).toList ++ c'.submitted actions)) whole rest cut d := by
    apply connection_induction
      (motive := fun u d => ∃ whole rest cut, Carried line.written
        (encodings ((c.submits a).toList ++ c'.submitted u)) whole rest cut d) _ _ hacts hsame
    · have hnone : c'.submitted [] = [] := rfl
      rw [hnone, List.append_nil]
      exact carried_of_opened hact hopened
    · intro u d e b hu ⟨whole, rest, cut, hcarried⟩ hact hsame
      have hnext := hcarried.ships (ships_of_act hact hsame)
      rw [submitted_concat hu hact, ← List.append_assoc, encodings_append]
      exact hnext
  have hpackets : encodings (c.submitted (a :: actions)) = whole ++ rest := by
    rw [submitted_cons hact]
    exact hcarried.packets
  have hclosed (hdown : d.connection.closing = true ∨ d.connection.line.broken = true) :
      d.Silent := by
    rcases hdown with hclosing | hbroken
    · exact silent_of_closed (canWrite_ne_of_closing hclosing)
    · exact silent_of_closed (canWrite_ne_of_broken hbroken)
  exact ⟨whole, rest, cut, hpackets, hcarried.written, hcarried.truncated, hclosed⟩

/-- CONNECT has been written, and three bytes of a PUBLISH, when the line breaks. -/
theorem whole_packets_of_broken :
    let options : ConnectOptions := { clientId := "c", keepAlive := 0 }
    let actions := (Action.opening options).tail ++ [.publish "a" [42] 0 false, .signal] ++
      Action.working ++ [.write 3, .vanish]
    let greeting : Octets := [16, 13, 0, 4, 77, 81, 84, 84, 4, 2, 0, 0, 0, 1, 99]
    ∃ c d, newcomer.act (.connect options {}) = some c ∧
      newcomer.milestone (.connect options {}) = some (.opened {}) ∧
      c.acts actions = some d ∧ (∀ l, .opened l ∉ c.milestones actions) ∧
      encodings (newcomer.submitted (.connect options {} :: actions)) =
        [greeting, [48, 4, 0, 1, 97, 42]] ∧
      d.connection.line.written = greeting ++ [48, 4, 0] ∧ d.Silent := by
  intro options actions greeting
  let c := newcomer.greet options {}
  have hact : newcomer.act (.connect options {}) = some c := rfl
  have hopened : newcomer.milestone (.connect options {}) = some (.opened {}) := rfl
  obtain ⟨d, hacts, hline⟩ : ∃ d, c.acts actions = some d ∧
      (d.connection.line.written, d.connection.line.broken) = (greeting ++ [48, 4, 0], true) := by
    apply Option.map_eq_some_iff.mp
    dsimp only [actions, c, options, greeting]
    rfl
  obtain ⟨hwritten, hbroken⟩ := Prod.mk.inj hline
  have hsame : ∀ l, .opened l ∉ c.milestones actions := by
    have hmilestones : c.milestones actions =
        [.written .caller options.packet, .issued (.publish ⟨false, 0, false, "a", none, [42]⟩) 1,
          .passed ((DeliveryQueue.ofSettings {}).enqueue
            (.publish 1 ⟨false, 0, false, "a", none, [42]⟩)) ⟨"c", [], 1⟩ [] 0,
          .taken (.publish ⟨false, 0, false, "a", none, [42]⟩)] := by
      dsimp only [actions, c, options]
      rfl
    simp [hmilestones]
  have hsubmitted : encodings (newcomer.submitted (.connect options {} :: actions)) =
      [greeting, [48, 4, 0, 1, 97, 42]] := by
    dsimp only [actions, greeting, options]
    rfl
  obtain ⟨_, _, _, -, -, -, hclosed⟩ := whole_packets hact hopened hacts hsame
  exact ⟨c, d, hact, hopened, hacts, hsame, hsubmitted, hwritten, hclosed (.inr hbroken)⟩

end Client
end Mqtt
