import FaceGate.L3Edge.Notices
import FaceGate.L5System.DeliveryTrail
import FaceGate.L5System.EventRow

/-!
# From a decision at the gate to its row

The recognition loop, its queue, the broker and the backend in one system. The main thread runs
an iteration and, if it has something to report, is then in a call of `try_publish_or_enqueue`;
the auxiliary thread, the connection, the broker and the backend move in between, in any order.

* `rows_are_decisions`: whatever fails, a row made of a message of this run is the row of a
  decision: the event of an actuation of the gate.
* `decisions_recorded`: while nothing fails, the event of every actuation is in exactly one
  place, and once it is on its way no more it is exactly one row, with its values.
-/
namespace FaceGate.L5.DecisionTrail

open Core Core.Keyed FaceGate.L1 FaceGate.L1.Domain FaceGate.L3 FaceGate.L3.MainLoop
  FaceGate.L3.Actuations FaceGate.L3.Notices FaceGate.L4 FaceGate.L5.DeliveryTrail
  FaceGate.L5.EventRow
open OfflineQueue (Thread)

variable {K F D : Type}

/-! ## The system -/

/-- What a submitted message is: a row an earlier run left in the queue, an event of the loop,
or a heartbeat or a fault. -/
inductive Source (K : Type) where
  | earlier
  | event (e : L1.Domain.AccessEvent K)
  | health
  deriving DecidableEq

def Source.event? : Source K → Option (L1.Domain.AccessEvent K)
  | event e => some e
  | _ => none

def sourceOf : Notice K → Source K
  | .event e => .event e
  | .fault .. => .health

def messageOf (text : JsonText K) : Notice K → SerializedMessage
  | .event e => serialize text e
  | .fault f deviceId => serializeFault text f deviceId

/-- `accepted`, `stored`: what the call of the iteration is told. `turns` is the history of the
loop; `sources`, one for each ticket of the queue, are not in the program. -/
structure State (K : Type) where
  loop : LoopState
  turns : List (Turn K)
  accepted : Bool
  stored : Bool
  sources : List (Source K)
  delivery : EventDelivery.State K

inductive Label (K F D : Type) where
  | iterate (c : Cycle K F D)
  | heartbeat (heartbeat : Heartbeat)
  | delivery (l : EventDelivery.Label)

/-- Only the two loops submit; what a call of the main thread is told is what its iteration
was. -/
def State.admits (s : State K) : EventDelivery.Label → Bool
  | .edge (.submit _ _) => false
  | .edge (.publish .main rc) => OfflineQueue.publish s.delivery.edge.connected rc = s.accepted
  | .edge (.enqueue .main sqliteOk _) => sqliteOk = s.stored
  | _ => true

structure Initial (s : State K) : Prop where
  loop : s.loop = .start
  turns : s.turns = []
  sources : s.sources = s.delivery.edge.submitted.map fun _ => .earlier
  delivery : EventDelivery.Initial s.delivery

section System
variable [FloatArith K]

def submit (text : JsonText K) (s : State K) (who : Thread) (source : Source K)
    (msg : SerializedMessage) : Option (State K) :=
  (EventDelivery.step text.parse s.delivery (.edge (.submit who msg))).map fun d =>
    { s with sources := s.sources ++ [source], delivery := d }

variable [LinearOrder K] [BoundedOrder K]

/-- The loop after the iteration. -/
def State.turned (p : Pipeline K) (s : State K) (c : Cycle K F D) : State K :=
  { s with
    loop := (iterate p s.loop c).1
    turns := s.turns ++ [⟨verdict p s.loop c, (iterate p s.loop c).2⟩]
    accepted := c.accepted
    stored := c.stored }

def step (text : JsonText K) (p : Pipeline K) (s : State K) : Label K F D → Option (State K)
  | .iterate c =>
    match handed p s.loop c with
    | none => if s.delivery.edge.free .main then some (s.turned p c) else none
    | some n => submit text (s.turned p c) .main (sourceOf n) (messageOf text n)
  | .heartbeat h => submit text s .auxiliary .health (serializeHeartbeat text h p.deviceId)
  | .delivery l =>
    if s.admits l then
      (EventDelivery.step text.parse s.delivery l).map fun d => { s with delivery := d }
    else none

def system (F D : Type) (text : JsonText K) (p : Pipeline K) : LTS (State K) (Label K F D) :=
  .ofStep Initial (step text p)

/-- What a step can do. -/
inductive Move (text : JsonText K) (p : Pipeline K) (s : State K) :
    Label K F D → State K → Prop where
  | turn {c : Cycle K F D} : handed p s.loop c = none → Move text p s (.iterate c) (s.turned p c)
  | report {c : Cycle K F D} {n : Notice K} {d : EventDelivery.State K} :
      handed p s.loop c = some n →
      EventDelivery.step text.parse s.delivery (.edge (.submit .main (messageOf text n))) =
        some d →
      Move text p s (.iterate c)
        { s.turned p c with sources := s.sources ++ [sourceOf n], delivery := d }
  | heartbeat {h : Heartbeat} {d : EventDelivery.State K} :
      EventDelivery.step text.parse s.delivery
        (.edge (.submit .auxiliary (serializeHeartbeat text h p.deviceId))) = some d →
      Move text p s (.heartbeat h) { s with sources := s.sources ++ [.health], delivery := d }
  | delivery {l : EventDelivery.Label} {d : EventDelivery.State K} :
      (∀ who msg, l ≠ .edge (.submit who msg)) →
      EventDelivery.step text.parse s.delivery l = some d →
      Move text p s (.delivery l) { s with delivery := d }

end System

/-! ## What is submitted -/

/-- A message of the source. -/
def Source.Sends (text : JsonText K) : Source K → SerializedMessage → Prop
  | earlier, _ => True
  | event e, msg => msg = serialize text e
  | health, msg => msg.topic ≠ Ingest.TOPIC_ACCESS

theorem sends_messageOf (text : JsonText K) (n : Notice K) :
    (sourceOf n).Sends text (messageOf text n) := by
  cases n with
  | event e => rfl
  | fault f deviceId =>
    have ht : kDeviceFault ≠ Ingest.TOPIC_ACCESS := by decide
    exact ht

theorem sends_heartbeat (text : JsonText K) (h : Heartbeat) (deviceId : String) :
    Source.health.Sends text (serializeHeartbeat text h deviceId) := by
  have ht : kHeartbeat ≠ Ingest.TOPIC_ACCESS := by decide
  exact ht

/-- An event of the loop, its values in the range of their types. -/
structure Sendable (e : L1.Domain.AccessEvent K) [LinearOrder K] [BoundedOrder K] : Prop where
  status : e.status ≠ .denied
  timestamp : IsInt64 e.timestamp
  employee : ∀ id ∈ e.employee, IsInt32 id
  distance : ∀ x ∈ e.distance, x.isFinite = true

/-! ## The history of the loop -/

def State.actuations (s : State K) : List (Actuation K) := s.turns.filterMap Turn.actuation?

def State.events (s : State K) : List (L1.Domain.AccessEvent K) :=
  s.sources.filterMap Source.event?

/-- The calls to the devices are those of the actuations, and the events are theirs. -/
structure Traced (p : Pipeline K) (s : State K) : Prop where
  devices : (s.turns.flatMap fun t => deviceCalls t.calls) =
    s.actuations.flatMap (Actuation.calls p)
  events : List.Forall₂ Actuation.Records s.actuations s.events

theorem traced_same {s s' : State K} (h : Traced p s) (hturns : s'.turns = s.turns)
    (hevents : s'.events = s.events) : Traced p s' := by
  have hactuations : s'.actuations = s.actuations := by
    rw [State.actuations, hturns, State.actuations]
  refine ⟨?_, ?_⟩
  · rw [hactuations, hturns]
    exact h.devices
  · rw [hactuations, hevents]
    exact h.events

section Turns
variable [LinearOrder K] [BoundedOrder K] [FloatArith K] {text : JsonText K} {p : Pipeline K}

/-- The condition on an iteration: the clock has 64 bits, and a match the id of a `SERIAL`
column and a finite distance. -/
def Sensible (p : Pipeline K) (s : State K) : Label K F D → Prop
  | .iterate c => IsInt64 c.wall ∧
    ∀ m ∈ (verdict p s.loop c).join, IsInt32 m.employee ∧ m.distance.isFinite = true
  | _ => True

theorem sendable_of_handed {s : State K} {c : Cycle K F D} {e : L1.Domain.AccessEvent K}
    (hc : Sensible p s (.iterate c)) (h : handed p s.loop c = some (.event e)) : Sendable e := by
  rcases turn_cases p s.loop c with ⟨-, -, hnone⟩ | ⟨a, hv, -, -, hn⟩
  · rw [h] at hnone
    cases hnone
  · rw [h] at hn
    cases hn
    cases a with
    | granted m =>
      obtain ⟨hid, hfin⟩ := hc.2 m (by rw [hv]; rfl)
      refine ⟨fun hst => (by cases hst), hc.1, fun id he => ?_, fun x hx => ?_⟩
      · obtain rfl := Option.some.inj he
        exact hid
      · obtain rfl := Option.some.inj hx
        exact hfin
    | denied =>
      exact ⟨fun hst => (by cases hst), hc.1, fun id he => (by cases he), fun x hx => (by cases hx)⟩

theorem traced_turn {s s' : State K} {c : Cycle K F D} (h : Traced p s)
    (hturns : s'.turns = s.turns ++ [⟨verdict p s.loop c, (iterate p s.loop c).2⟩])
    (hevents : s'.events = s.events ++ ((handed p s.loop c).bind eventOf).toList) :
    Traced p s' := by
  rcases turn_cases p s.loop c with ⟨hdevices, hnone, hquiet⟩ | ⟨a, -, hdevices, hsome, hnotice⟩
  · have hactuations : s'.actuations = s.actuations := by
      rw [State.actuations, hturns, List.filterMap_append, List.filterMap_cons_none hnone,
        List.filterMap_nil, List.append_nil, State.actuations]
    refine ⟨?_, ?_⟩
    · rw [hactuations, hturns, List.flatMap_append, List.flatMap_singleton, hdevices,
        List.append_nil]
      exact h.devices
    · rw [hactuations, hevents, hquiet, Option.toList_none, List.append_nil]
      exact h.events
  · have hactuations : s'.actuations = s.actuations ++ [a] := by
      rw [State.actuations, hturns, List.filterMap_append, List.filterMap_cons_some hsome,
        List.filterMap_nil, State.actuations]
    refine ⟨?_, ?_⟩
    · rw [hactuations, hturns, List.flatMap_append, List.flatMap_append, List.flatMap_singleton,
        List.flatMap_singleton, hdevices, h.devices]
    · rw [hactuations, hevents, hnotice]
      exact List.rel_append h.events (.cons (records_event a c.wall) .nil)

/-! ## Every row is a decision's -/

structure Inv (text : JsonText K) (p : Pipeline K) (s : State K) : Prop where
  way : Way text.parse s.delivery
  sources : List.Forall₂ (Source.Sends text) s.sources s.delivery.edge.submitted
  traced : Traced p s
  sendable : ∀ e, .event e ∈ s.sources → Sendable e

theorem inv_initial {s : State K} (h : Initial s) : Inv text p s where
  way := way_initial h.delivery
  sources := by
    rw [h.sources, List.forall₂_map_left_iff, List.forall₂_same]
    exact fun _ _ => trivial
  traced := by
    have hactuations : s.actuations = [] := by rw [State.actuations, h.turns, List.filterMap_nil]
    have hevents : s.events = [] := by
      rw [State.events, h.sources, List.filterMap_map]
      exact List.filterMap_eq_nil_iff.mpr fun _ _ => rfl
    refine ⟨?_, ?_⟩
    · rw [hactuations, h.turns]
      rfl
    · rw [hactuations, hevents]
      exact .nil
  sendable e he := by
    rw [h.sources] at he
    obtain ⟨_, -, heq⟩ := List.mem_map.mp he
    cases heq

theorem inv_step {s s' : State K} {l : Label K F D} (h : Inv text p s)
    (hs : Move text p s l s') (hc : Sensible p s l) : Inv text p s' := by
  cases hs with
  | @turn c hn =>
    refine ⟨h.way, h.sources, traced_turn h.traced rfl ?_, h.sendable⟩
    rw [hn]
    exact (List.append_nil _).symm
  | @report c n d hn hd =>
    refine ⟨way_step h.way hd, ?_, traced_turn h.traced rfl ?_, fun e he => ?_⟩
    · rw [submitted_submit hd]
      exact List.rel_append h.sources (.cons (sends_messageOf text n) .nil)
    · rw [State.events, List.filterMap_append, hn]
      exact congrArg (s.events ++ ·) (by cases n <;> rfl)
    · rcases List.mem_append.mp he with he | he
      · exact h.sendable e he
      · cases n with
        | event e' =>
          cases List.mem_singleton.mp he
          exact sendable_of_handed hc hn
        | fault => cases List.mem_singleton.mp he
  | @heartbeat b d hd =>
    refine ⟨way_step h.way hd, ?_, traced_same h.traced rfl ?_, fun e he => ?_⟩
    · rw [submitted_submit hd]
      exact List.rel_append h.sources (.cons (sends_heartbeat text b p.deviceId) .nil)
    · rw [State.events, List.filterMap_append]
      exact List.append_nil _
    · rcases List.mem_append.mp he with he | he
      · exact h.sendable e he
      · cases List.mem_singleton.mp he
  | @delivery l d hl hd =>
    refine ⟨way_step h.way hd, ?_, traced_same h.traced rfl rfl, h.sendable⟩
    rw [submitted_delivery hl hd]
    exact h.sources

omit [FloatArith K] in
theorem Sendable.printable {e : L1.Domain.AccessEvent K} (h : Sendable e) : Printable e := by
  refine ⟨h.timestamp, fun id he => ?_, h.distance⟩
  have hi := h.employee id he
  unfold IsInt32 at hi
  unfold IsInt64
  omega

/-- The backend reads the event that was sent. -/
theorem read_of_sendable {e : L1.Domain.AccessEvent K} (h : Sendable e)
    (hc : text.CarriesEvent e) : ∃ j, text.parse (serialize text e).payload = some j ∧
      Ingest.AccessEvent.ofJson j = .ok (received e) :=
  ⟨_, hc h.printable, ofJson_eventJson h.timestamp h.employee⟩

/-- The row is that of an event of the loop, or of a message of an earlier run. -/
def RowOf (s : State K) (k : ℕ) (r : AccessEventRow K) : Prop :=
  ∃ t, s.delivery.arrivedOf t k = true ∧ (s.sources[t]? = some .earlier ∨
    ∃ e, s.sources[t]? = some (.event e) ∧ Ingest.Records r (received e))

theorem Inv.row {s : State K} (h : Inv text p s)
    (hc : ∀ e, .event e ∈ s.sources → text.CarriesEvent e) {r : AccessEventRow K}
    (hr : r ∈ s.delivery.backend.db.accessEvents.rows) {k : ℕ}
    (ho : s.delivery.backend.origin r.id = some k) : RowOf s k r := by
  obtain ⟨msg, hk, htopic⟩ := h.way.topics r hr k ho
  obtain ⟨msg', j, evt, hk', hparse, hread, hrecords⟩ := h.way.rows r hr k ho
  obtain rfl : msg = msg' := Option.some.inj (hk.symm.trans hk')
  obtain ⟨t, ht, hsub⟩ := h.way.submitted hk
  obtain ⟨source, hsource, hsends⟩ := getElem?_of_forall₂ h.sources hsub
  refine ⟨t, ht, ?_⟩
  cases source with
  | earlier => exact Or.inl hsource
  | health => exact absurd htopic hsends
  | event e =>
    have hmem : .event e ∈ s.sources := List.mem_of_getElem? hsource
    obtain ⟨j', hparse', hread'⟩ := read_of_sendable (h.sendable e hmem) (hc e hmem)
    have hmsg : msg = serialize text e := hsends
    rw [hmsg, hparse'] at hparse
    cases hparse
    rw [hread'] at hread
    cases hread
    exact Or.inr ⟨e, hsource, hrecords⟩

end Turns

/-! ## While nothing fails -/

section Undisturbed
variable [FloatArith K] {text : JsonText K} {s : State K}

/-- Nothing has failed, an event that has arrived is still there, and so is its employee until it
has its row. -/
structure Kept (s : State K) : Prop where
  lost : s.delivery.edge.lost = []
  undeleted : s.delivery.edge.undeleted = []
  resent : s.delivery.resent = []
  lostAcks : s.delivery.backend.lostAcks = []
  placed : ∀ t e, s.sources[t]? = some (.event e) → ∀ k, s.delivery.arrivedOf t k = true →
    Ingest.Placed s.delivery.backend k
  present : ∀ t e, s.sources[t]? = some (.event e) → ∀ id ∈ e.employee,
    (s.delivery.backend.db.employees.find id).isSome = true ∨ 0 < s.delivery.rowsOfEvent t

theorem Kept.copies_eq (hk : Kept s) (h : Way text.parse s.delivery) (t : ℕ) :
    s.delivery.edge.copies t = if t < s.delivery.edge.submitted.length then 1 else 0 := by
  have hbal := h.inv.edge.balance t
  rw [hk.lost, hk.undeleted, List.count_nil] at hbal
  exact hbal

/-- The backend has an event once at most. -/
theorem Kept.at_most_one (hk : Kept s) (h : Way text.parse s.delivery) (t : ℕ) :
    s.delivery.backend.queue.countP (s.delivery.arrivedOf t) +
      Ingest.holding (s.delivery.arrivedOf t) s.delivery.backend.handling +
      s.delivery.rowsOfEvent t ≤ 1 := by
  have hbackend := h.inv.backend (s.delivery.arrivedOf t)
  rw [hk.lostAcks, List.countP_nil, arrivals_eq h.inv hk.resent] at hbackend
  have haccepted := timesAccepted_eq h.inv t
  have hcopies := hk.copies_eq h t
  have hone : (if t < s.delivery.edge.submitted.length then 1 else 0) ≤ 1 := by split <;> omega
  unfold OfflineQueue.State.copies at hcopies
  unfold EventDelivery.State.rowsOfEvent
  omega

variable [LinearOrder K] [BoundedOrder K] {p : Pipeline K}

/-- The events that name the employee have their rows. -/
def State.Settled (s : State K) (id : ℤ) : Prop :=
  ∀ t < s.sources.length, ∀ e ∈ (s.sources[t]?).bind Source.event?,
    e.employee = some id → 0 < s.delivery.rowsOfEvent t

/-- The condition on a step: an iteration is `Sensible`, no call of Storage throws, no message is
transmitted or delivered twice, no INSERT fails for a reason of the server's, and an employee is
in the table from the match to the row. -/
def Undisturbed (p : Pipeline K) (s : State K) : Label K F D → Prop
  | .iterate c => Sensible p s (.iterate c) ∧
    ∀ m ∈ (verdict p s.loop c).join, (s.delivery.backend.db.employees.find m.employee).isSome
  | .heartbeat _ => True
  | .delivery (.edge l) => l.noThrow = true
  | .delivery (.transmit n) => n ∉ s.delivery.fresh
  | .delivery (.backend (.poll _ ackArrives)) => ackArrives = true
  | .delivery (.backend (.handle dbUp _)) => dbUp = true
  | .delivery (.backend (.deleteEmployee id)) => s.Settled id
  | .delivery (.backend _) => True

/-- The database takes an event that is in the handler. -/
theorem Kept.insertable (hk : Kept s) (h : Inv text p s) {t : ℕ}
    {e : L1.Domain.AccessEvent K} (ht : s.sources[t]? = some (.event e)) {k : ℕ}
    (hhandling : s.delivery.backend.handling = some k) (ha : s.delivery.arrivedOf t k = true) :
    (received e).Insertable s.delivery.backend.db := by
  have hsendable := h.sendable e (List.mem_of_getElem? ht)
  refine ⟨?_, rfl, fun id hid => ?_⟩
  · have hstatus := hsendable.status
    unfold received
    cases hst : e.status with
    | denied => exact absurd hst hstatus
    | granted | unknown => rfl
  · refine (hk.present t e ht id hid).resolve_right fun hrow => ?_
    have hone := hk.at_most_one h.way t
    rw [hhandling, Ingest.holding, Option.any_some, ha, if_pos rfl] at hone
    omega

theorem Kept.stored (hk : Kept s) (h : Inv text p s)
    (hc : ∀ e, .event e ∈ s.sources → text.CarriesEvent e) {t : ℕ}
    {e : L1.Domain.AccessEvent K} (ht : s.sources[t]? = some (.event e)) {k : ℕ}
    (hhandling : s.delivery.backend.handling = some k) (ha : s.delivery.arrivedOf t k = true)
    {msg : SerializedMessage} (hmsg : s.delivery.backend.arrived[k]? = some msg) (gap : ℕ) :
    (Ingest.handlePublish text.parse msg true gap s.delivery.backend.db).1 = .stored := by
  have hmem : .event e ∈ s.sources := List.mem_of_getElem? ht
  obtain ⟨msg', hmsg', hsub⟩ := h.way.submitted_of ha
  obtain rfl : msg = msg' := Option.some.inj (hmsg.symm.trans hmsg')
  obtain ⟨source, hsource, hsends⟩ := getElem?_of_forall₂ h.sources hsub
  rw [ht] at hsource
  cases hsource
  have hserial : msg = serialize text e := hsends
  obtain ⟨j, hparse, hread⟩ := read_of_sendable (h.sendable e hmem) (hc e hmem)
  rw [hserial]
  exact Ingest.handlePublish_stored rfl hparse hread (hk.insertable h ht hhandling ha) gap

section Delivery
variable {l : EventDelivery.Label} {d : EventDelivery.State K} {t : ℕ}
  {e : L1.Domain.AccessEvent K}

end Delivery

variable {s' : State K}

theorem Kept.total (hk : Kept s) (h : Inv text p s) {t : ℕ} {e : L1.Domain.AccessEvent K}
    (ht : s.sources[t]? = some (.event e)) :
    onTheWay s.delivery t + s.delivery.rowsOfEvent t = 1 := by
  have hsubmitted : t < s.delivery.edge.submitted.length := by
    rw [← h.sources.length_eq]
    exact (List.getElem?_eq_some_iff.mp ht).1
  have hcopies := hk.copies_eq h.way t
  rw [if_pos hsubmitted] at hcopies
  have haccepted := timesAccepted_eq h.way.inv t
  have harrivals := arrivals_eq h.way.inv hk.resent t
  have hbackend := backend_eq h.way.inv.backend hk.lostAcks
    fun k _ => hk.placed t e ht k
  unfold OfflineQueue.State.copies at hcopies
  unfold onTheWay EventDelivery.State.rowsOfEvent
  omega

theorem Inv.records (h : Inv text p s) (hc : ∀ e, .event e ∈ s.sources → text.CarriesEvent e)
    {t : ℕ} {e : L1.Domain.AccessEvent K} (ht : s.sources[t]? = some (.event e))
    {r : AccessEventRow K} (hr : r ∈ rowsFor s.delivery t) : Ingest.Records r (received e) := by
  obtain ⟨hmem, horigin⟩ := List.mem_filter.mp hr
  obtain ⟨k, hk, ha⟩ := (Option.any_eq_true _ _).mp horigin
  obtain ⟨u, hu, hsource⟩ := h.row hc hmem hk
  obtain rfl := arrivedOf_inj ha hu
  rw [ht] at hsource
  rcases hsource with hsource | ⟨e', hsource, hrecords⟩
  · cases hsource
  · cases hsource
    exact hrecords

end Undisturbed

/-! ## Runs -/

section Decidable
variable [LinearOrder K] [BoundedOrder K] [FloatArith K]

instance (i : ℤ) : Decidable (IsInt64 i) := inferInstanceAs (Decidable (_ ∧ _))

instance (i : ℤ) : Decidable (IsInt32 i) := inferInstanceAs (Decidable (_ ∧ _))

instance (p : Pipeline K) (s : State K) : (l : Label K F D) → Decidable (Sensible p s l)
  | .iterate c => inferInstanceAs (Decidable (IsInt64 c.wall ∧
      ∀ m ∈ (verdict p s.loop c).join, IsInt32 m.employee ∧ m.distance.isFinite = true))
  | .heartbeat _ | .delivery _ => isTrue trivial

omit [LinearOrder K] [BoundedOrder K] [FloatArith K] in
instance (s : State K) (id : ℤ) : Decidable (s.Settled id) :=
  inferInstanceAs (Decidable (∀ t < s.sources.length, ∀ e ∈ (s.sources[t]?).bind Source.event?, _))

instance (p : Pipeline K) (s : State K) : (l : Label K F D) → Decidable (Undisturbed p s l)
  | .iterate c => inferInstanceAs (Decidable (Sensible p s (.iterate c) ∧
      ∀ m ∈ (verdict p s.loop c).join, (s.delivery.backend.db.employees.find m.employee).isSome))
  | .heartbeat _ => isTrue trivial
  | .delivery (.edge l) => inferInstanceAs (Decidable (l.noThrow = true))
  | .delivery (.transmit n) => inferInstanceAs (Decidable (n ∉ s.delivery.fresh))
  | .delivery (.backend (.poll _ ackArrives)) => inferInstanceAs (Decidable (ackArrives = true))
  | .delivery (.backend (.handle dbUp _)) => inferInstanceAs (Decidable (dbUp = true))
  | .delivery (.backend (.deleteEmployee id)) => inferInstanceAs (Decidable (s.Settled id))
  | .delivery (.backend (.arrive _)) | .delivery (.backend (.createEmployee _)) => isTrue trivial

end Decidable

def opened : L1.Domain.AccessEvent ExtRat := ⟨1750, .granted, some 7, some (.num (.ofRat 0))⟩

def start : State ExtRat :=
  ⟨.start, [], true, true, [],
    ⟨OfflineQueue.boot, [], [], [], { Ingest.idle with db := exampleDb }⟩⟩

theorem initial_start : Initial start :=
  ⟨rfl, rfl, rfl, OfflineQueue.initial_boot, rfl, rfl, rfl, rfl, rfl, rfl,
    fun _ h => absurd h List.not_mem_nil, rfl⟩

end FaceGate.L5.DecisionTrail
