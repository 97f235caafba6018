import IndustrialIot.Core.EventGroup
import IndustrialIot.Core.Machine
import Mathlib.Data.List.Induction

/-!
# The node's Wi-Fi manager

`WifiManager` owns one event group for each instance, but the handle is a single
static that every constructor overwrites and every destructor deletes through.
The handlers registered by a constructor are never taken back. One machine
interleaves the constructors, `connect()` calls and destructors of any number of
instances, statement by statement, with the event task that runs the handler.
-/

namespace IndustrialIot.Edge.Wifi

open EventGroup (Live bitsOf)

/-- What is posted to the default event loop. -/
inductive Event
  /-- `WIFI_EVENT_STA_START` -/
  | staStart
  /-- `WIFI_EVENT_STA_DISCONNECTED` -/
  | staDisconnected
  /-- A `WIFI_EVENT` of any other id. -/
  | otherWifi
  /-- `IP_EVENT_STA_GOT_IP` -/
  | staGotIp
  deriving DecidableEq, Repr

/-- `WifiManager::CONNECTED_BIT` -/
def connectedBit : UInt32 := 1

/-- `WifiManager::FAIL_BIT` -/
def failBit : UInt32 := 2

/-- A zeroed array of `size` bytes that receives at most `size - 1` bytes of a string. -/
def copyField (size : Nat) (s : List UInt8) : List UInt8 :=
  let copied := s.take (size - 1)
  copied ++ List.replicate (size - copied.length) 0

/-- A copied field has its size and is terminated. -/
theorem copyField_spec {size : Nat} (h : 0 < size) (s : List UInt8) :
    (copyField size s).length = size ∧ 0 ∈ copyField size s := by
  have hle : (s.take (size - 1)).length ≤ size - 1 := List.length_take_le ..
  constructor
  · rw [copyField, List.length_append, List.length_replicate]
    omega
  · rw [copyField, List.mem_append, List.mem_replicate]
    exact .inr ⟨by omega, rfl⟩

/-- The station part of `wifi_config_t`. -/
structure StaConfig where
  ssid : List UInt8
  password : List UInt8
  ssid_spec : ssid.length = 32 ∧ 0 ∈ ssid
  password_spec : password.length = 64 ∧ 0 ∈ password

/-- What `connect()` copies out of the two strings. -/
def staConfig (ssid password : List UInt8) : StaConfig where
  ssid := copyField 32 ssid
  password := copyField 64 password
  ssid_spec := copyField_spec (by decide) ssid
  password_spec := copyField_spec (by decide) password

/-- The calls of the Wi-Fi driver. -/
inductive DriverCall
  | init
  | setMode
  | setConfig (config : StaConfig)
  | start
  | connect
  | stop
  | deinit

/-- The statement an instance executes next. -/
inductive Point
  /-- The constructor: NVS, the interface, the event loop and `esp_wifi_init`. -/
  | initialise
  /-- The constructor: `xEventGroupCreate`. -/
  | createGroup
  /-- The constructor: the two registrations. -/
  | registerWifi
  | registerIp
  /-- The constructor: `esp_wifi_set_mode`. -/
  | setMode
  /-- Between two calls. -/
  | idle
  /-- `connect()`: `esp_wifi_set_config`. -/
  | setConfig
  /-- `connect()`: `esp_wifi_start`. -/
  | start
  /-- `connect()`: the call of `xEventGroupWaitBits`. -/
  | wait
  /-- `connect()`: blocked on a group. -/
  | blocked (handle : Nat)
  /-- `connect()`: released with these bits. -/
  | returning (bits : UInt32)
  /-- The destructor: `esp_wifi_stop`. -/
  | stop
  /-- The destructor: `esp_wifi_deinit`. -/
  | deinit
  /-- The destructor: `vEventGroupDelete`. -/
  | deleteGroup
  | destroyed
  deriving DecidableEq, Repr

/-- An instance. -/
structure Instance where
  ssid : List UInt8
  password : List UInt8
  point : Point
  /-- How many events had been handled when the last `connect()` began. -/
  begun : Nat
  deriving DecidableEq, Repr

/-- A `connect()` call that has returned. -/
structure Return where
  /-- How many events had been handled when it began, and when it returned. -/
  begun : Nat
  ended : Nat
  value : Bool
  deriving DecidableEq, Repr

structure State where
  instances : List Instance
  groups : List EventGroup.Group
  /-- The static `wifi_event_group_`, null before the first constructor. -/
  wifiEventGroup : Option Nat
  /-- How often the handler is registered for `WIFI_EVENT` and for the IP event. -/
  wifiHandlers : Nat
  ipHandlers : Nat
  /-- Posted events, oldest first. -/
  queue : List Event
  /-- What the event task has still to run for the event it took last. -/
  pending : List Event
  driver : List DriverCall
  /-- The events `event_handler` has handled, oldest first. -/
  handled : List Event
  returns : List Return

/-- Before the first constructor. -/
def State.initial : State := ⟨[], [], none, 0, 0, [], [], [], [], []⟩

/-- A call by a task, the next statement of a call, or a move of the event system. -/
inductive Label
  | construct (ssid password : List UInt8)
  | connect (i : Nat)
  | destroy (i : Nat)
  /-- The next statement of the constructor, `connect()` or destructor of an instance. -/
  | run (i : Nat)
  /-- The driver or the IP stack posts an event. -/
  | post (event : Event)
  /-- The event task takes the oldest event. -/
  | dispatch
  /-- The event task runs one registered handler. -/
  | handle
  deriving DecidableEq, Repr

/-- A task blocked on a group is released with the bits that are reported. -/
def Instance.release (handle : Nat) (bits : UInt32) (inst : Instance) : Instance :=
  if inst.point = .blocked handle then { inst with point := .returning bits } else inst

/-- `xEventGroupSetBits` -/
def State.setGroupBits (s : State) (handle : Nat) (bits : UInt32) : State :=
  let groups := EventGroup.setBits s.groups handle bits
  { s with
    groups
    instances := s.instances.map (Instance.release handle (bitsOf groups handle)) }

/-- `vEventGroupDelete`: tasks blocked on the group are released with no bits. -/
def State.deleteGroup (s : State) (handle : Nat) : State :=
  { s with
    groups := EventGroup.delete s.groups handle
    instances := s.instances.map (Instance.release handle 0) }

/-- A call of the driver. -/
def State.call (s : State) (call : DriverCall) : State := { s with driver := s.driver ++ [call] }

/-- The handler runs once for each registration that matches the event. -/
def State.handlers (s : State) : Event → Nat
  | .staGotIp => s.ipHandlers
  | _ => s.wifiHandlers

/-- Note a handled event. -/
def State.log (s : State) (event : Event) : State := { s with handled := s.handled ++ [event] }

/-- `WifiManager::event_handler` -/
def State.eventHandler (s : State) (event : Event) : State :=
  match event with
  | .staStart | .staDisconnected => (s.log event).call .connect
  | .staGotIp => match s.wifiEventGroup with
    | some handle => (s.log event).setGroupBits handle connectedBit
    | none => s.log event
  | .otherWifi => s.log event

/-- Move an instance to its next statement. -/
def State.goto (s : State) (i : Nat) (inst : Instance) (point : Point) : State :=
  { s with instances := s.instances.set i { inst with point } }

/-- One statement of `WifiManager::WifiManager`, `WifiManager::connect` or
`WifiManager::~WifiManager`. -/
def runInstance (s : State) (i : Nat) (inst : Instance) : Option State :=
  match inst.point with
  | .initialise => some ((s.call .init).goto i inst .createGroup)
  | .createGroup =>
    let created : State := { s with
      groups := EventGroup.create s.groups
      wifiEventGroup := some s.groups.length }
    some (created.goto i inst .registerWifi)
  | .registerWifi =>
    let registered : State := { s with wifiHandlers := s.wifiHandlers + 1 }
    some (registered.goto i inst .registerIp)
  | .registerIp =>
    let registered : State := { s with ipHandlers := s.ipHandlers + 1 }
    some (registered.goto i inst .setMode)
  | .setMode => some ((s.call .setMode).goto i inst .idle)
  | .setConfig =>
    some ((s.call (.setConfig (staConfig inst.ssid inst.password))).goto i inst .start)
  | .start => some ((s.call .start).goto i inst .wait)
  | .wait => s.wifiEventGroup.map fun handle =>
    let bits := bitsOf s.groups handle
    -- Either bit is enough, and neither is cleared on the way out.
    if bits &&& (connectedBit ||| failBit) ≠ 0 then s.goto i inst (.returning bits)
    else s.goto i inst (.blocked handle)
  | .returning bits =>
    let value := bits &&& connectedBit != 0
    let returned : State :=
      { s with returns := s.returns ++ [⟨inst.begun, s.handled.length, value⟩] }
    some (returned.goto i inst .idle)
  | .stop => some ((s.call .stop).goto i inst .deinit)
  | .deinit => some ((s.call .deinit).goto i inst .deleteGroup)
  | .deleteGroup => s.wifiEventGroup.map fun handle =>
    (s.deleteGroup handle).goto i inst .destroyed
  | .idle | .blocked _ | .destroyed => none

/-- One step of the tasks, the driver or the event system. -/
def step (s : State) : Label → Option State
  | .construct ssid password => some { s with
      instances := s.instances ++ [⟨ssid, password, .initialise, 0⟩] }
  | .connect i => s.instances[i]?.bind fun inst =>
    if inst.point = .idle then
      some (s.goto i { inst with begun := s.handled.length } .setConfig)
    else none
  | .destroy i => s.instances[i]?.bind fun inst =>
    if inst.point = .idle then some (s.goto i inst .stop) else none
  | .run i => s.instances[i]?.bind fun inst => runInstance s i inst
  | .post event => some { s with queue := s.queue ++ [event] }
  | .dispatch => match s.pending, s.queue with
    | [], event :: queue => some { s with
        queue, pending := List.replicate (s.handlers event) event }
    | _, _ => none
  | .handle => match s.pending with
    | event :: pending => some ({ s with pending }.eventHandler event)
    | [] => none

/-- The Wi-Fi manager's runs. -/
def machine : Machine State Label := ⟨.initial, step⟩

/-! ## What a step can do -/

/-- The instance has its group: `xEventGroupCreate` has run. -/
def Point.created : Point → Bool
  | initialise | createGroup => false
  | _ => true

/-- The handler is registered at least for `WIFI_EVENT`. -/
def Point.registered : Point → Bool
  | initialise | createGroup | registerWifi => false
  | _ => true

/-- The statements that only call the driver, with the statement after each. -/
def driverPoints : List (Point × Point) :=
  [(.initialise, .createGroup), (.setMode, .idle), (.setConfig, .start), (.start, .wait),
    (.stop, .deinit), (.deinit, .deleteGroup)]

/-- Everything a step can do. -/
inductive Step (s : State) : Label → State → Prop
  | construct (ssid password : List UInt8) :
    Step s (.construct ssid password)
      { s with instances := s.instances ++ [⟨ssid, password, .initialise, 0⟩] }
  | connect (i : Nat) (inst : Instance) (hi : s.instances[i]? = some inst)
    (hp : inst.point = .idle) :
    Step s (.connect i) (s.goto i { inst with begun := s.handled.length } .setConfig)
  | destroy (i : Nat) (inst : Instance) (hi : s.instances[i]? = some inst)
    (hp : inst.point = .idle) : Step s (.destroy i) (s.goto i inst .stop)
  | driver (i : Nat) (inst : Instance) (call : DriverCall) (next : Point)
    (hi : s.instances[i]? = some inst) (hp : (inst.point, next) ∈ driverPoints) :
    Step s (.run i) ((s.call call).goto i inst next)
  | createGroup (i : Nat) (inst : Instance) (hi : s.instances[i]? = some inst)
    (hp : inst.point = .createGroup) :
    Step s (.run i) ({ s with
      groups := EventGroup.create s.groups
      wifiEventGroup := some s.groups.length : State }.goto i inst .registerWifi)
  | registerWifi (i : Nat) (inst : Instance) (hi : s.instances[i]? = some inst)
    (hp : inst.point = .registerWifi) :
    Step s (.run i)
      ({ s with wifiHandlers := s.wifiHandlers + 1 : State }.goto i inst .registerIp)
  | registerIp (i : Nat) (inst : Instance) (hi : s.instances[i]? = some inst)
    (hp : inst.point = .registerIp) :
    Step s (.run i) ({ s with ipHandlers := s.ipHandlers + 1 : State }.goto i inst .setMode)
  | waitSet (i : Nat) (inst : Instance) (handle : Nat) (hi : s.instances[i]? = some inst)
    (hp : inst.point = .wait) (hg : s.wifiEventGroup = some handle)
    (hb : bitsOf s.groups handle &&& (connectedBit ||| failBit) ≠ 0) :
    Step s (.run i) (s.goto i inst (.returning (bitsOf s.groups handle)))
  | block (i : Nat) (inst : Instance) (handle : Nat) (hi : s.instances[i]? = some inst)
    (hp : inst.point = .wait) (hg : s.wifiEventGroup = some handle) :
    Step s (.run i) (s.goto i inst (.blocked handle))
  | leave (i : Nat) (inst : Instance) (bits : UInt32) (hi : s.instances[i]? = some inst)
    (hp : inst.point = .returning bits) :
    Step s (.run i) ({ s with
      returns := s.returns ++
        [⟨inst.begun, s.handled.length, bits &&& connectedBit != 0⟩] : State }.goto i inst .idle)
  | deleteGroup (i : Nat) (inst : Instance) (handle : Nat) (hi : s.instances[i]? = some inst)
    (hp : inst.point = .deleteGroup) (hg : s.wifiEventGroup = some handle) :
    Step s (.run i) ((s.deleteGroup handle).goto i inst .destroyed)
  | post (event : Event) : Step s (.post event) { s with queue := s.queue ++ [event] }
  | dispatch (event : Event) (queue : List Event) (hp : s.pending = [])
    (hq : s.queue = event :: queue) :
    Step s .dispatch { s with queue, pending := List.replicate (s.handlers event) event }
  | handle (event : Event) (pending : List Event) (hp : s.pending = event :: pending) :
    Step s .handle ({ s with pending : State }.eventHandler event)

private theorem runInstance_spec {s t : State} {i : Nat} {inst : Instance}
    (hi : s.instances[i]? = some inst) (h : runInstance s i inst = some t) :
    Step s (.run i) t := by
  cases hp : inst.point with
  | createGroup =>
    simp only [runInstance, hp, Option.some.injEq] at h
    exact h ▸ .createGroup i inst hi hp
  | registerWifi =>
    simp only [runInstance, hp, Option.some.injEq] at h
    exact h ▸ .registerWifi i inst hi hp
  | registerIp =>
    simp only [runInstance, hp, Option.some.injEq] at h
    exact h ▸ .registerIp i inst hi hp
  | wait =>
    simp only [runInstance, hp, Option.map_eq_some_iff] at h
    obtain ⟨handle, hg, rfl⟩ := h
    split
    · exact .waitSet i inst handle hi hp hg ‹_›
    · exact .block i inst handle hi hp hg
  | returning bits =>
    simp only [runInstance, hp, Option.some.injEq] at h
    exact h ▸ .leave i inst bits hi hp
  | deleteGroup =>
    simp only [runInstance, hp, Option.map_eq_some_iff] at h
    obtain ⟨handle, hg, rfl⟩ := h
    exact .deleteGroup i inst handle hi hp hg
  | idle => simp [runInstance, hp] at h
  | blocked handle => simp [runInstance, hp] at h
  | destroyed => simp [runInstance, hp] at h
  | _ =>
    -- What is left only calls the driver.
    simp only [runInstance, hp, Option.some.injEq] at h
    exact h ▸ .driver i inst _ _ hi (by simp [hp, driverPoints])

theorem step_spec {s t : State} {a : Label} (h : step s a = some t) : Step s a t := by
  cases a with
  | construct ssid password =>
    cases h
    exact .construct ssid password
  | connect i =>
    obtain ⟨inst, hi, ht⟩ := Option.bind_eq_some_iff.mp h
    simp only [Option.ite_none_right_eq_some, Option.some.injEq] at ht
    exact ht.2 ▸ .connect i inst hi ht.1
  | destroy i =>
    obtain ⟨inst, hi, ht⟩ := Option.bind_eq_some_iff.mp h
    simp only [Option.ite_none_right_eq_some, Option.some.injEq] at ht
    exact ht.2 ▸ .destroy i inst hi ht.1
  | run i =>
    obtain ⟨inst, hi, ht⟩ := Option.bind_eq_some_iff.mp h
    exact runInstance_spec hi ht
  | post event =>
    cases h
    exact .post event
  | dispatch =>
    cases hp : s.pending with
    | cons event pending => simp [step, hp] at h
    | nil =>
      cases hq : s.queue with
      | nil => simp [step, hp, hq] at h
      | cons event queue =>
        simp only [step, hp, hq, Option.some.injEq] at h
        exact h ▸ .dispatch event queue hp hq
  | handle =>
    cases hp : s.pending with
    | nil => simp [step, hp] at h
    | cons event pending =>
      simp only [step, hp, Option.some.injEq] at h
      exact h ▸ .handle event pending hp

/-- The handler logs the event; a new address also sets the bit in the group the static
handle names, and no other event touches a group. -/
theorem eventHandler_spec (s : State) (event : Event) :
    (∃ handle, event = .staGotIp ∧ s.wifiEventGroup = some handle ∧
      s.eventHandler event = (s.log event).setGroupBits handle connectedBit) ∨
    (event = .staGotIp → s.wifiEventGroup = none) ∧
      ∃ calls, s.eventHandler event = { s.log event with driver := calls } := by
  cases event with
  | staStart => exact .inr ⟨by simp, _, rfl⟩
  | staDisconnected => exact .inr ⟨by simp, _, rfl⟩
  | otherWifi => exact .inr ⟨by simp, _, rfl⟩
  | staGotIp =>
    cases hg : s.wifiEventGroup with
    | none => exact .inr ⟨fun _ => rfl, s.driver, by simp [State.eventHandler, hg, State.log]⟩
    | some handle => exact .inl ⟨handle, rfl, rfl, by simp [State.eventHandler, hg]⟩

/-! ## The handle -/

/-- `event_handler` is registered with the default event loop. -/
def Registered (s : State) : Prop := 0 < s.wifiHandlers + s.ipHandlers

/-- The static handle names a group that has been created and not deleted. -/
def NamesLive (s : State) : Prop :=
  ∃ handle, s.wifiEventGroup = some handle ∧ Live s.groups handle

/-- The step calls `xEventGroupSetBits` in the handler or `xEventGroupWaitBits` in `connect()`. -/
def UsesGroup (s : State) : Label → Prop
  | .handle => s.pending.head? = some .staGotIp
  | .run i => s.instances[i]?.map Instance.point = some .wait
  | _ => False

/-- The handle is live while the handler is registered and whenever it is used. -/
def HandleSound (s : State) (a : Label) : Prop :=
  (Registered s → NamesLive s) ∧ (UsesGroup s a → NamesLive s)

/-- The step is not a destructor's `vEventGroupDelete`. -/
def KeepsGroup (s : State) : Label → Prop
  | .run i => s.instances[i]?.map Instance.point ≠ some .deleteGroup
  | _ => True

@[simp] theorem goto_groups (s : State) (i : Nat) (inst : Instance) (p : Point) :
    (s.goto i inst p).groups = s.groups := rfl

theorem mem_goto {s : State} {i : Nat} {inst other : Instance} {p : Point}
    (h : other ∈ (s.goto i inst p).instances) :
    other ∈ s.instances ∨ other = { inst with point := p } :=
  List.mem_or_eq_of_mem_set h

theorem release_created (handle : Nat) (bits : UInt32) (inst : Instance) :
    (inst.release handle bits).point.created = inst.point.created := by
  rw [Instance.release]
  split
  case isTrue h => rw [h]; rfl
  case isFalse => rfl

theorem release_registered (handle : Nat) (bits : UInt32) (inst : Instance) :
    (inst.release handle bits).point.registered = inst.point.registered := by
  rw [Instance.release]
  split
  case isTrue h => rw [h]; rfl
  case isFalse => rfl

/-- How the instances, the registrations and the handle fit together. -/
structure Coherent (s : State) : Prop where
  created : ∀ inst ∈ s.instances, inst.point.created = true → s.wifiEventGroup ≠ none
  registered : ∀ inst ∈ s.instances, inst.point.registered = true → Registered s
  handlers : Registered s → s.wifiEventGroup ≠ none
  pending : s.pending ≠ [] → Registered s
  handle_lt : ∀ handle, s.wifiEventGroup = some handle → handle < s.groups.length

namespace Coherent

variable {s : State} (hs : Coherent s)
include hs

theorem goto (i : Nat) (inst : Instance) {p : Point}
    (hc : p.created = true → s.wifiEventGroup ≠ none) (hr : p.registered = true → Registered s) :
    Coherent (s.goto i inst p) where
  created other ho := by
    rcases mem_goto ho with ho | rfl
    · exact hs.created other ho
    · exact hc
  registered other ho := by
    rcases mem_goto ho with ho | rfl
    · exact hs.registered other ho
    · exact hr
  handlers := hs.handlers
  pending := hs.pending
  handle_lt := hs.handle_lt

/-- Changing the groups and releasing tasks keeps the fit. -/
theorem release (handle : Nat) (bits : UInt32) {groups : List EventGroup.Group}
    (hl : groups.length = s.groups.length) :
    Coherent { s with groups, instances := s.instances.map (Instance.release handle bits) } where
  created other ho := by
    obtain ⟨inst, hi, rfl⟩ := List.mem_map.mp ho
    rw [release_created]
    exact hs.created inst hi
  registered other ho := by
    obtain ⟨inst, hi, rfl⟩ := List.mem_map.mp ho
    rw [release_registered]
    exact hs.registered inst hi
  handlers := hs.handlers
  pending := hs.pending
  handle_lt h hh := hl ▸ hs.handle_lt h hh

theorem eventHandler (event : Event) : Coherent (s.eventHandler event) := by
  have hlog : Coherent (s.log event) :=
    ⟨hs.created, hs.registered, hs.handlers, hs.pending, hs.handle_lt⟩
  rcases eventHandler_spec s event with ⟨handle, -, -, ht⟩ | ⟨-, calls, ht⟩
  · rw [ht]
    exact hlog.release handle _ (List.length_modify ..)
  · rw [ht]
    exact ⟨hs.created, hs.registered, hs.handlers, hs.pending, hs.handle_lt⟩

end Coherent

theorem driverPoints_spec {p q : Point} (h : (p, q) ∈ driverPoints) :
    q.created = p.created ∧ q.registered = p.registered ∧ p ≠ .deleteGroup ∧ p ≠ .wait ∧
      (∀ bits, p ≠ .returning bits) ∧ ∀ bits, q ≠ .returning bits := by
  simp only [driverPoints, List.mem_cons, Prod.mk.injEq, List.not_mem_nil, or_false] at h
  rcases h with ⟨rfl, rfl⟩ | ⟨rfl, rfl⟩ | ⟨rfl, rfl⟩ | ⟨rfl, rfl⟩ | ⟨rfl, rfl⟩ | ⟨rfl, rfl⟩ <;>
    simp [Point.created, Point.registered]

private theorem Coherent.at {s : State} (hs : Coherent s) {i : Nat} {inst : Instance}
    (hi : s.instances[i]? = some inst) :
    (inst.point.created = true → s.wifiEventGroup ≠ none) ∧
      (inst.point.registered = true → Registered s) :=
  ⟨hs.created inst (List.mem_of_getElem? hi), hs.registered inst (List.mem_of_getElem? hi)⟩

/-- An instance that is past its registrations can go anywhere. -/
private theorem Coherent.goto_registered {s : State} (hs : Coherent s) {i : Nat}
    {inst : Instance} (hi : s.instances[i]? = some inst) (hp : inst.point.registered = true)
    (moved : Instance) (p : Point) : Coherent (s.goto i moved p) := by
  have hr := (hs.at hi).2 hp
  exact hs.goto i moved (fun _ => hs.handlers hr) fun _ => hr

/-- One more registration of an instance that has its group. -/
private theorem Coherent.register {s : State} (hs : Coherent s) {i : Nat} {inst : Instance}
    (hi : s.instances[i]? = some inst) (hp : inst.point.created = true) {wifi ip : Nat}
    (hmore : 0 < wifi + ip) (p : Point) :
    Coherent ({ s with wifiHandlers := wifi, ipHandlers := ip : State }.goto i inst p) := by
  have hset := (hs.at hi).1 hp
  have hregistered : Coherent { s with wifiHandlers := wifi, ipHandlers := ip } :=
    ⟨hs.created, fun _ _ _ => hmore, fun _ => hset, fun _ => hmore, hs.handle_lt⟩
  exact hregistered.goto i inst (fun _ => hset) fun _ => hmore

private theorem coherent_step {s t : State} {a : Label} (hs : Coherent s)
    (h : step s a = some t) : Coherent t := by
  cases step_spec h with
  | construct ssid password =>
    refine ⟨?_, ?_, hs.handlers, hs.pending, hs.handle_lt⟩
    · intro inst hi hc
      rcases List.mem_append.mp hi with hi | hi
      · exact hs.created inst hi hc
      · simp [List.mem_singleton.mp hi, Point.created] at hc
    · intro inst hi hr
      rcases List.mem_append.mp hi with hi | hi
      · exact hs.registered inst hi hr
      · simp [List.mem_singleton.mp hi, Point.registered] at hr
  | connect i inst hi hp => exact hs.goto_registered hi (by simp [hp, Point.registered]) _ _
  | destroy i inst hi hp => exact hs.goto_registered hi (by simp [hp, Point.registered]) _ _
  | driver i inst call next hi hp =>
    obtain ⟨hc, hr⟩ := hs.at hi
    obtain ⟨hcreated, hregistered, _⟩ := driverPoints_spec hp
    have hcall : Coherent (s.call call) :=
      ⟨hs.created, hs.registered, hs.handlers, hs.pending, hs.handle_lt⟩
    exact hcall.goto i inst (hcreated ▸ hc) (hregistered ▸ hr)
  | createGroup i inst hi hp =>
    have hcreated : Coherent { s with
        groups := EventGroup.create s.groups, wifiEventGroup := some s.groups.length } := by
      refine ⟨fun _ _ _ => by simp, hs.registered, fun _ => by simp, hs.pending, ?_⟩
      intro handle hh
      cases hh
      simp [EventGroup.create]
    exact hcreated.goto i inst (fun _ => by simp) (by simp [Point.registered])
  | registerWifi i inst hi hp =>
    exact hs.register hi (by simp [hp, Point.created]) (by omega) _
  | registerIp i inst hi hp => exact hs.register hi (by simp [hp, Point.created]) (by omega) _
  | waitSet i inst handle hi hp hg hb =>
    exact hs.goto_registered hi (by simp [hp, Point.registered]) _ _
  | block i inst handle hi hp hg =>
    exact hs.goto_registered hi (by simp [hp, Point.registered]) _ _
  | leave i inst bits hi hp =>
    have hlogged : Coherent { s with
        returns := s.returns ++ [⟨inst.begun, s.handled.length, bits &&& connectedBit != 0⟩] } :=
      ⟨hs.created, hs.registered, hs.handlers, hs.pending, hs.handle_lt⟩
    exact hlogged.goto_registered hi (by simp [hp, Point.registered]) _ _
  | deleteGroup i inst handle hi hp hg =>
    obtain ⟨hc, hr⟩ := hs.at hi
    have hdeleted : Coherent (s.deleteGroup handle) :=
      hs.release handle 0 (List.length_modify ..)
    exact hdeleted.goto i inst (fun _ => hc (by simp [hp, Point.created]))
      fun _ => hr (by simp [hp, Point.registered])
  | post event => exact ⟨hs.created, hs.registered, hs.handlers, hs.pending, hs.handle_lt⟩
  | dispatch event queue hp hq =>
    refine ⟨hs.created, hs.registered, hs.handlers, ?_, hs.handle_lt⟩
    intro hpending
    have hpos : s.handlers event ≠ 0 := by
      intro h
      simp [h] at hpending
    have hle : s.handlers event ≤ s.wifiHandlers + s.ipHandlers := by
      cases event <;> simp [State.handlers]
    exact Nat.lt_of_lt_of_le (Nat.pos_of_ne_zero hpos) hle
  | handle event pending hp =>
    have hrest : Coherent { s with pending } :=
      ⟨hs.created, hs.registered, hs.handlers, fun _ => hs.pending (by simp [hp]), hs.handle_lt⟩
    exact hrest.eventHandler event

theorem coherent_of_reachable {s : State} (h : machine.Reachable s) : Coherent s := by
  apply h.invariant
  · exact ⟨by simp [machine, State.initial], by simp [machine, State.initial],
      by simp [machine, State.initial, Registered], by simp [machine, State.initial],
      by simp [machine, State.initial]⟩
  · intro s a t _ hs ht
    exact coherent_step hs ht

/-! ## No destructor, no dead handle -/

/-- Every group that was ever created is live. -/
def AllLive (s : State) : Prop := ∀ handle < s.groups.length, Live s.groups handle

private theorem allLive_step {s t : State} {a : Label} (hs : AllLive s) (hq : KeepsGroup s a)
    (h : step s a = some t) : AllLive t := by
  cases step_spec h with
  | createGroup i inst hi hp =>
    intro handle hlt
    simp only [goto_groups, EventGroup.create, List.length_append, List.length_singleton] at hlt ⊢
    rcases Nat.lt_succ_iff_lt_or_eq.mp hlt with hlt | rfl
    · exact (hs handle hlt).create
    · exact EventGroup.live_create s.groups
  | deleteGroup i inst handle hi hp hg => simp [KeepsGroup, hi, hp] at hq
  | handle event pending hp =>
    rcases eventHandler_spec { s with pending } event with ⟨handle, -, -, ht⟩ | ⟨-, calls, ht⟩
    · rw [ht]
      intro other hlt
      apply (EventGroup.live_setBits connectedBit).mpr
      apply hs other
      simpa [State.setGroupBits, EventGroup.setBits, State.log] using hlt
    · rw [ht]
      exact hs
  | _ => exact hs

/-- Without a deletion every group of a run stays live. -/
theorem allLive_of_stepsMeet {as : List Label} {s : State}
    (hq : machine.StepsMeet KeepsGroup machine.init as)
    (h : machine.exec machine.init as = some s) : AllLive s :=
  Machine.exec_invariant_of_stepsMeet (P := AllLive)
    (fun _ _ _ hs hq ht => allLive_step hs hq ht) (fun _ hlt => absurd hlt (Nat.not_lt_zero _))
    hq h

private theorem registered_of_usesGroup {s : State} {a : Label} (hs : Coherent s)
    (h : UsesGroup s a) : Registered s := by
  cases a with
  | handle =>
    apply hs.pending
    intro hp
    simp [UsesGroup, hp] at h
  | run i =>
    obtain ⟨inst, hi, hp⟩ := Option.map_eq_some_iff.mp h
    exact (hs.at hi).2 (by simp [hp, Point.registered])
  | _ => exact h.elim

private theorem namesLive_of_allLive {s : State} (hs : Coherent s) (hl : AllLive s)
    (hr : Registered s) : NamesLive s := by
  obtain ⟨handle, hg⟩ := Option.ne_none_iff_exists'.mp (hs.handlers hr)
  exact ⟨handle, hg, hl handle (hs.handle_lt handle hg)⟩

/-- A deletion leaves the registered handler with a dead group. -/
private theorem dead_of_deletes {s t : State} {a : Label} (hs : Coherent s)
    (hq : ¬ KeepsGroup s a) (h : step s a = some t) : Registered t ∧ ¬ NamesLive t := by
  cases step_spec h with
  | deleteGroup i inst handle hi hp hg =>
    refine ⟨(hs.at hi).2 (by simp [hp, Point.registered]), ?_⟩
    rintro ⟨other, ho, hlive⟩
    cases hg.symm.trans ho
    exact (EventGroup.live_delete.mp hlive).2 rfl
  | driver i inst call next hi hp =>
    simp [KeepsGroup, hi, (driverPoints_spec hp).2.2.1] at hq
  | _ => simp_all [KeepsGroup]

/-- Exactly when the event handler never meets a dead group: in every state of a
run the static handle is live while the handler is registered, and so at every
use of it, if and only if no destructor of the run reaches `vEventGroupDelete`. -/
theorem handle_sound_iff {as : List Label} {s : State}
    (h : machine.exec machine.init as = some s) :
    (machine.StepsMeet HandleSound machine.init as ∧ (Registered s → NamesLive s)) ↔
      machine.StepsMeet KeepsGroup machine.init as := by
  induction as using List.reverseRecOn generalizing s with
  | nil =>
    cases h
    simp [machine, State.initial, Registered]
  | append_singleton as a ih =>
    obtain ⟨r, hr, hs⟩ := machine.exec_snoc_eq_some.mp h
    have hcoherent := coherent_of_reachable ⟨as, hr⟩
    rw [Machine.stepsMeet_snoc_of_exec hr, Machine.stepsMeet_snoc_of_exec hr]
    constructor
    · rintro ⟨⟨hsound, hlast⟩, hend⟩
      refine ⟨(ih hr).mp ⟨hsound, hlast.1⟩, ?_⟩
      by_contra hdelete
      obtain ⟨hreg, hdead⟩ := dead_of_deletes hcoherent hdelete hs
      exact hdead (hend hreg)
    · rintro ⟨hkeeps, hlast⟩
      have hlive := namesLive_of_allLive hcoherent (allLive_of_stepsMeet hkeeps hr)
      have hkeeps' : machine.StepsMeet KeepsGroup machine.init (as ++ [a]) :=
        (Machine.stepsMeet_snoc_of_exec hr).mpr ⟨hkeeps, hlast⟩
      refine ⟨⟨((ih hr).mpr hkeeps).1, hlive, ?_⟩, ?_⟩
      · intro huse
        exact hlive (registered_of_usesGroup hcoherent huse)
      · exact namesLive_of_allLive (coherent_of_reachable ⟨_, h⟩)
          (allLive_of_stepsMeet hkeeps' h)

instance (s : State) : Decidable (Registered s) := inferInstanceAs (Decidable (0 < _))

instance (s : State) : Decidable (NamesLive s) :=
  match h : s.wifiEventGroup with
  | none => isFalse (by simp [NamesLive, h])
  | some handle => decidable_of_iff (Live s.groups handle) (by simp [NamesLive, h])

instance (s : State) : ∀ a, Decidable (KeepsGroup s a)
  | .run _ => inferInstanceAs (Decidable (_ ≠ _))
  | .construct _ _ | .connect _ | .destroy _ | .post _ | .dispatch | .handle => isTrue trivial

/-- A constructor from its call to its end. -/
def constructing (i : Nat) : List Label :=
  .construct [0x46] [0x31] :: List.replicate 5 (.run i)

/-- A call of `connect()` up to the wait. -/
def connecting (i : Nat) : List Label := .connect i :: List.replicate 3 (.run i)

/-- A destructor from its call to its end. -/
def destroying (i : Nat) : List Label := .destroy i :: List.replicate 3 (.run i)

/-- An event from its post to its handler. -/
def delivering (event : Event) : List Label := [.post event, .dispatch, .handle]

/-- A manager that gets its address. -/
def addressed : List Label :=
  constructing 0 ++ connecting 0 ++ delivering .staStart ++ delivering .staGotIp ++ [.run 0]

theorem handle_sound_iff_addressed :
    ∃ s, machine.exec machine.init addressed = some s ∧ Registered s ∧ NamesLive s ∧
      ((machine.StepsMeet HandleSound machine.init addressed ∧ (Registered s → NamesLive s)) ↔
        machine.StepsMeet KeepsGroup machine.init addressed) :=
  ⟨_, rfl, by decide, by decide, handle_sound_iff rfl⟩

/-- An address arrives while the destructor runs and is handled after it. -/
def lateAddress : List Label :=
  constructing 0 ++ [.post .staGotIp] ++ destroying 0 ++ [.dispatch]

/-- The first of two managers is destroyed and the second connects. -/
def overlapping : List Label :=
  constructing 0 ++ constructing 1 ++ destroying 0 ++ [.connect 1, .run 1, .run 1]

/-- After one destructor the handler that is still registered is about to set a bit in the
deleted group; and with two managers the live one is about to wait on it. -/
theorem destroyed_group_used :
    (∃ s, machine.exec machine.init lateAddress = some s ∧ Registered s ∧ ¬ NamesLive s ∧
      UsesGroup s .handle ∧ (step s .handle).isSome = true) ∧
    ∃ s, machine.exec machine.init overlapping = some s ∧ Registered s ∧ ¬ NamesLive s ∧
      UsesGroup s (.run 1) ∧ (step s (.run 1)).isSome = true :=
  ⟨⟨_, rfl, by decide, by decide, rfl, rfl⟩, ⟨_, rfl, by decide, by decide, rfl, rfl⟩⟩

/-! ## What `connect()` answers -/

/-- The node has its address: one was obtained and the link not lost since. -/
def hasAddress (events : List Event) : Bool :=
  events.foldl (fun held event => match event with
    | .staGotIp => true
    | .staDisconnected => false
    | _ => held) false

/-- An answer `true` has an address behind it that came no earlier than the last loss of
the link before the call. -/
def Truthful (events : List Event) (r : Return) : Prop :=
  r.value = true → ∃ k < r.ended, events[k]? = some .staGotIp ∧
    ∀ j < r.begun, events[j]? = some .staDisconnected → j ≤ k

/-- The step is no return from a `connect()` that began with a lost address and saw no
new one. -/
def FreshReturn (s : State) : Label → Prop
  | .run i => ∀ inst bits, s.instances[i]? = some inst → inst.point = .returning bits →
    .staGotIp ∈ s.handled.drop inst.begun ∨ .staGotIp ∉ s.handled.take inst.begun ∨
      hasAddress (s.handled.take inst.begun) = true
  | _ => True

theorem hasAddress_append (events : List Event) (event : Event) :
    hasAddress (events ++ [event]) = match event with
      | .staGotIp => true
      | .staDisconnected => false
      | _ => hasAddress events := by
  cases event <;> simp [hasAddress]

/-- The address is held exactly when it came after every loss. -/
theorem hasAddress_iff (events : List Event) :
    hasAddress events = true ↔ ∃ k : Nat, events[k]? = some .staGotIp ∧
      ∀ j : Nat, events[j]? = some .staDisconnected → j ≤ k := by
  induction events using List.reverseRecOn with
  | nil => simp [hasAddress]
  | append_singleton events event ih =>
    have hlast : (events ++ [event])[events.length]? = some event := List.getElem?_concat_length
    have hget : ∀ {k : Nat} {e : Event}, (events ++ [event])[k]? = some e →
        events[k]? = some e ∨ k = events.length ∧ event = e := by
      intro k e hk
      rw [List.getElem?_append] at hk
      split at hk
      · exact .inl hk
      · obtain ⟨hlt, he⟩ := List.getElem?_eq_some_iff.mp hk
        simp only [List.length_singleton, Nat.lt_one_iff] at hlt
        exact .inr ⟨by omega, by simpa [hlt] using he⟩
    have hlt : ∀ {k : Nat} {e : Event}, events[k]? = some e → k < events.length :=
      fun hk => (List.getElem?_eq_some_iff.mp hk).1
    -- An event of another kind moves neither side.
    have hother : event ≠ .staGotIp → event ≠ .staDisconnected →
        (hasAddress events = true ↔ ∃ k : Nat, (events ++ [event])[k]? = some .staGotIp ∧
          ∀ j : Nat, (events ++ [event])[j]? = some .staDisconnected → j ≤ k) := by
      intro hgot hlost
      rw [ih]
      constructor
      · rintro ⟨k, hk, hle⟩
        refine ⟨k, by rw [List.getElem?_append_left (hlt hk), hk], ?_⟩
        intro j hj
        rcases hget hj with hj | ⟨-, he⟩
        · exact hle j hj
        · exact absurd he hlost
      · rintro ⟨k, hk, hle⟩
        rcases hget hk with hk | ⟨-, he⟩
        · refine ⟨k, hk, ?_⟩
          intro j hj
          exact hle j (by rw [List.getElem?_append_left (hlt hj), hj])
        · exact absurd he hgot
    rw [hasAddress_append]
    cases event with
    | staStart => exact hother (by simp) (by simp)
    | otherWifi => exact hother (by simp) (by simp)
    | staGotIp =>
      refine iff_of_true rfl ⟨events.length, hlast, ?_⟩
      intro j hj
      rcases hget hj with hj | ⟨-, he⟩
      · exact Nat.le_of_lt (hlt hj)
      · cases he
    | staDisconnected =>
      refine iff_of_false (by simp) ?_
      rintro ⟨k, hk, hle⟩
      have hafter := hle _ hlast
      rcases hget hk with hk | ⟨-, he⟩
      · exact absurd (hlt hk) (Nat.not_lt.mpr hafter)
      · cases he

/-- Behind an address there is one no older than the last loss before the call, unless the
only ones came before it and were lost again. -/
theorem exists_recent_iff {before during : List Event} (h : .staGotIp ∈ before ++ during) :
    (∃ k : Nat, (before ++ during)[k]? = some .staGotIp ∧
      ∀ j < before.length, (before ++ during)[j]? = some .staDisconnected → j ≤ k) ↔
    .staGotIp ∈ during ∨ .staGotIp ∉ before ∨ hasAddress before = true := by
  constructor
  · rintro ⟨k, hk, hle⟩
    by_cases hlt : k < before.length
    · rw [List.getElem?_append_left hlt] at hk
      refine .inr (.inr ((hasAddress_iff before).mpr ⟨k, hk, ?_⟩))
      intro j hj
      have hjlt := (List.getElem?_eq_some_iff.mp hj).1
      exact hle j hjlt (by rw [List.getElem?_append_left hjlt, hj])
    · rw [List.getElem?_append_right (Nat.not_lt.mp hlt)] at hk
      exact .inl (List.mem_of_getElem? hk)
  · have hduring : .staGotIp ∈ during → ∃ k : Nat, (before ++ during)[k]? = some .staGotIp ∧
        ∀ j < before.length, (before ++ during)[j]? = some .staDisconnected → j ≤ k := by
      intro hmem
      obtain ⟨k, hk⟩ := List.mem_iff_getElem?.mp hmem
      refine ⟨before.length + k, ?_, ?_⟩
      · rwa [List.getElem?_append_right (Nat.le_add_right ..), Nat.add_sub_cancel_left]
      intro j hj _
      omega
    rintro (hmem | hnone | hheld)
    · exact hduring hmem
    · exact hduring ((List.mem_append.mp h).resolve_left hnone)
    · obtain ⟨k, hk, hle⟩ := (hasAddress_iff before).mp hheld
      have hlt := (List.getElem?_eq_some_iff.mp hk).1
      refine ⟨k, by rw [List.getElem?_append_left hlt, hk], ?_⟩
      intro j hj hlost
      exact hle j (by rwa [List.getElem?_append_left hj] at hlost)

/-- Where the answers come from while no group is deleted: a bit is set only by an address,
and a call is released only with that bit. -/
structure Signalled (s : State) : Prop where
  bits : ∀ handle, bitsOf s.groups handle = 0 ∨
    bitsOf s.groups handle = connectedBit ∧ .staGotIp ∈ s.handled
  returning : ∀ inst ∈ s.instances, ∀ bits, inst.point = .returning bits →
    bits = connectedBit ∧ .staGotIp ∈ s.handled
  begun : ∀ inst ∈ s.instances, inst.begun ≤ s.handled.length
  returns : ∀ r ∈ s.returns, r.begun ≤ r.ended ∧ r.ended ≤ s.handled.length

namespace Signalled

variable {s : State} (hs : Signalled s)
include hs

theorem goto (i : Nat) {inst : Instance} {p : Point} (hi : inst.begun ≤ s.handled.length)
    (hp : ∀ bits, p = .returning bits → bits = connectedBit ∧ .staGotIp ∈ s.handled) :
    Signalled (s.goto i inst p) where
  bits := hs.bits
  returning other ho := by
    rcases mem_goto ho with ho | rfl
    · exact hs.returning other ho
    · exact hp
  begun other ho := by
    rcases mem_goto ho with ho | rfl
    · exact hs.begun other ho
    · exact hi
  returns := hs.returns

theorem register (wifi ip : Nat) :
    Signalled { s with wifiHandlers := wifi, ipHandlers := ip } :=
  ⟨hs.bits, hs.returning, hs.begun, hs.returns⟩

theorem log (event : Event) : Signalled (s.log event) where
  bits handle := (hs.bits handle).imp_right fun h => ⟨h.1, List.mem_append_left _ h.2⟩
  returning inst hi bits hp :=
    have h := hs.returning inst hi bits hp
    ⟨h.1, List.mem_append_left _ h.2⟩
  begun inst hi := Nat.le_trans (hs.begun inst hi) (by simp [State.log])
  returns r hr :=
    ⟨(hs.returns r hr).1, Nat.le_trans (hs.returns r hr).2 (by simp [State.log])⟩

/-- Setting the bit once an address has been logged. -/
theorem setGroupBits {handle : Nat} (hlt : handle < s.groups.length)
    (hmem : .staGotIp ∈ s.handled) : Signalled (s.setGroupBits handle connectedBit) := by
  have hset : ∀ other, bitsOf (EventGroup.setBits s.groups handle connectedBit) other =
      bitsOf s.groups other ∨
      bitsOf (EventGroup.setBits s.groups handle connectedBit) other = connectedBit := by
    intro other
    rw [EventGroup.bitsOf_setBits]
    split
    · rcases hs.bits other with h | ⟨h, -⟩ <;> rw [h] <;> exact .inr (by decide)
    · exact .inl rfl
  have hnamed : bitsOf (EventGroup.setBits s.groups handle connectedBit) handle =
      connectedBit := by
    rw [EventGroup.bitsOf_setBits, if_pos ⟨rfl, hlt⟩]
    rcases hs.bits handle with h | ⟨h, -⟩ <;> rw [h] <;> decide
  refine ⟨?_, ?_, ?_, hs.returns⟩
  · intro other
    rcases hset other with h | h
    · rw [State.setGroupBits, h]
      exact hs.bits other
    · exact .inr ⟨h, hmem⟩
  · intro released ho bits hp
    obtain ⟨inst, hi, rfl⟩ := List.mem_map.mp ho
    rw [Instance.release] at hp
    split at hp
    · cases hp
      exact ⟨hnamed, hmem⟩
    · exact hs.returning inst hi bits hp
  · intro released ho
    obtain ⟨inst, hi, rfl⟩ := List.mem_map.mp ho
    rw [Instance.release]
    split <;> exact hs.begun inst hi

end Signalled

private theorem signalled_step {s t : State} {a : Label} (hc : Coherent s) (hs : Signalled s)
    (hq : KeepsGroup s a) (h : step s a = some t) : Signalled t := by
  have hbegun : ∀ {i : Nat} {inst : Instance}, s.instances[i]? = some inst →
      inst.begun ≤ s.handled.length := fun hi => hs.begun _ (List.mem_of_getElem? hi)
  cases step_spec h with
  | construct ssid password =>
    refine ⟨hs.bits, ?_, ?_, hs.returns⟩
    · intro inst hi bits hp
      rcases List.mem_append.mp hi with hi | hi
      · exact hs.returning inst hi bits hp
      · simp [List.mem_singleton.mp hi] at hp
    · intro inst hi
      rcases List.mem_append.mp hi with hi | hi
      · exact hs.begun inst hi
      · simp [List.mem_singleton.mp hi]
  | connect i inst hi hp => exact hs.goto i (Nat.le_refl _) (by simp)
  | destroy i inst hi hp => exact hs.goto i (hbegun hi) (by simp)
  | driver i inst call next hi hp =>
    have hcall : Signalled (s.call call) := ⟨hs.bits, hs.returning, hs.begun, hs.returns⟩
    exact hcall.goto i (hbegun hi) fun bits hn => absurd hn ((driverPoints_spec hp).2.2.2.2.2 bits)
  | createGroup i inst hi hp =>
    have hcreated : Signalled { s with
        groups := EventGroup.create s.groups, wifiEventGroup := some s.groups.length } := by
      refine ⟨?_, hs.returning, hs.begun, hs.returns⟩
      intro handle
      rw [EventGroup.bitsOf_create]
      exact hs.bits handle
    exact hcreated.goto i (hbegun hi) (by simp)
  | registerWifi i inst hi hp => exact (hs.register _ _).goto i (hbegun hi) (by simp)
  | registerIp i inst hi hp => exact (hs.register _ _).goto i (hbegun hi) (by simp)
  | waitSet i inst handle hi hp hg hb =>
    refine hs.goto i (hbegun hi) ?_
    intro bits hbits
    cases hbits
    rcases hs.bits handle with hz | hset
    · rw [hz] at hb
      exact absurd (by decide) hb
    · exact hset
  | block i inst handle hi hp hg => exact hs.goto i (hbegun hi) (by simp)
  | leave i inst bits hi hp =>
    have hlogged : Signalled { s with
        returns := s.returns ++
          [⟨inst.begun, s.handled.length, bits &&& connectedBit != 0⟩] } := by
      refine ⟨hs.bits, hs.returning, hs.begun, ?_⟩
      intro r hr
      rcases List.mem_append.mp hr with hr | hr
      · exact hs.returns r hr
      · rw [List.mem_singleton.mp hr]
        exact ⟨hbegun hi, Nat.le_refl _⟩
    exact hlogged.goto i (hbegun hi) (by simp)
  | deleteGroup i inst handle hi hp hg => simp [KeepsGroup, hi, hp] at hq
  | post event => exact ⟨hs.bits, hs.returning, hs.begun, hs.returns⟩
  | dispatch event queue hp hq => exact ⟨hs.bits, hs.returning, hs.begun, hs.returns⟩
  | handle event pending hp =>
    have hrest : Signalled { s with pending } := ⟨hs.bits, hs.returning, hs.begun, hs.returns⟩
    rcases eventHandler_spec { s with pending } event with ⟨handle, rfl, hg, ht⟩ | ⟨-, calls, ht⟩
    · rw [ht]
      exact (hrest.log .staGotIp).setGroupBits (hc.handle_lt handle hg) (by simp [State.log])
    · rw [ht]
      have hlog := hrest.log event
      exact ⟨hlog.bits, hlog.returning, hlog.begun, hlog.returns⟩

theorem signalled_of_stepsMeet {as : List Label} {s : State}
    (hq : machine.StepsMeet KeepsGroup machine.init as)
    (h : machine.exec machine.init as = some s) : Signalled s := by
  have hboth : Coherent s ∧ Signalled s :=
    Machine.exec_invariant_of_stepsMeet (P := fun s => Coherent s ∧ Signalled s)
      (fun _ _ _ hs hq ht => ⟨coherent_step hs.1 ht, signalled_step hs.1 hs.2 hq ht⟩)
      ⟨coherent_of_reachable machine.reachable_init, by
        constructor <;> simp [machine, State.initial, bitsOf]⟩ hq h
  exact hboth.2

/-- Later events do not change what an answer was worth. -/
private theorem truthful_append {events : List Event} (more : List Event) {r : Return}
    (hle : r.begun ≤ r.ended) (hlen : r.ended ≤ events.length) :
    Truthful (events ++ more) r ↔ Truthful events r := by
  have hget : ∀ k < r.ended, (events ++ more)[k]? = events[k]? :=
    fun k hk => List.getElem?_append_left (Nat.lt_of_lt_of_le hk hlen)
  apply imp_congr_right
  intro _
  apply exists_congr
  intro k
  apply and_congr_right
  intro hk
  rw [hget k hk]
  apply and_congr_right
  intro _
  apply forall₂_congr
  intro j hj
  rw [hget j (Nat.lt_of_lt_of_le hj hle)]

private theorem freshReturn_of_ne {s : State} {i : Nat} {inst : Instance}
    (hi : s.instances[i]? = some inst) (hp : ∀ bits, inst.point ≠ .returning bits) :
    FreshReturn s (.run i) := by
  intro other bits ho hr
  cases hi.symm.trans ho
  exact absurd hr (hp bits)

/-- The answer of a released call is worth something exactly when the return is fresh. -/
private theorem truthful_leave {s : State} (hs : Signalled s) {i : Nat} {inst : Instance}
    {bits : UInt32} (hi : s.instances[i]? = some inst) (hp : inst.point = .returning bits) :
    Truthful s.handled ⟨inst.begun, s.handled.length, bits &&& connectedBit != 0⟩ ↔
      FreshReturn s (.run i) := by
  obtain ⟨rfl, hmem⟩ := hs.returning inst (List.mem_of_getElem? hi) bits hp
  have hlen := hs.begun inst (List.mem_of_getElem? hi)
  have hlength : (s.handled.take inst.begun).length = inst.begun := List.length_take_of_le hlen
  have hsplit : .staGotIp ∈ s.handled.take inst.begun ++ s.handled.drop inst.begun := by
    rwa [List.take_append_drop]
  have hrecent := exists_recent_iff hsplit
  rw [List.take_append_drop, hlength] at hrecent
  have hfresh : FreshReturn s (.run i) ↔ (.staGotIp ∈ s.handled.drop inst.begun ∨
      .staGotIp ∉ s.handled.take inst.begun ∨
        hasAddress (s.handled.take inst.begun) = true) := by
    constructor
    · intro h
      exact h inst connectedBit hi hp
    · intro h other bits ho _
      cases hi.symm.trans ho
      exact h
  rw [hfresh, ← hrecent]
  constructor
  · intro h
    obtain ⟨k, -, hk⟩ := h (show (connectedBit &&& connectedBit != 0) = true by decide)
    exact ⟨k, hk⟩
  · rintro ⟨k, hk⟩ -
    exact ⟨k, (List.getElem?_eq_some_iff.mp hk.1).1, hk⟩

private theorem truthful_step {s t : State} {a : Label} (hs : Signalled s)
    (h : step s a = some t) :
    (∀ r ∈ t.returns, Truthful t.handled r) ↔
      (∀ r ∈ s.returns, Truthful s.handled r) ∧ FreshReturn s a := by
  cases step_spec h with
  | leave i inst bits hi hp =>
    rw [← truthful_leave hs hi hp]
    exact List.forall_mem_append.trans (and_congr_right fun _ => List.forall_mem_singleton)
  | handle event pending hp =>
    have hlog : ∀ r ∈ s.returns, Truthful (s.handled ++ [event]) r ↔ Truthful s.handled r :=
      fun r hr => truthful_append [event] (hs.returns r hr).1 (hs.returns r hr).2
    rcases eventHandler_spec { s with pending } event with ⟨handle, -, -, ht⟩ | ⟨-, calls, ht⟩ <;>
      rw [ht] <;> exact (forall₂_congr hlog).trans (and_iff_left trivial).symm
  | driver i inst call next hi hp =>
    exact (and_iff_left (freshReturn_of_ne hi (driverPoints_spec hp).2.2.2.2.1)).symm
  | createGroup _ _ hi hp | registerWifi _ _ hi hp | registerIp _ _ hi hp
  | waitSet _ _ _ hi hp | block _ _ _ hi hp | deleteGroup _ _ _ hi hp =>
    exact (and_iff_left (freshReturn_of_ne hi (by simp [hp]))).symm
  | _ => exact (and_iff_left trivial).symm

/-- Exactly when `connect()` is truthful: in a run that deletes no group, every answer has a
recent address behind it if and only if no call returns that began after the address had been
lost, with none obtained during the call. -/
theorem connect_truthful_iff {as : List Label} {s : State}
    (hkeeps : machine.StepsMeet KeepsGroup machine.init as)
    (h : machine.exec machine.init as = some s) :
    (∀ r ∈ s.returns, Truthful s.handled r) ↔
      machine.StepsMeet FreshReturn machine.init as := by
  induction as using List.reverseRecOn generalizing s with
  | nil =>
    cases h
    simp [machine, State.initial]
  | append_singleton as a ih =>
    obtain ⟨r, hr, hs⟩ := machine.exec_snoc_eq_some.mp h
    obtain ⟨hkeeps, -⟩ := (Machine.stepsMeet_snoc_of_exec hr).mp hkeeps
    rw [Machine.stepsMeet_snoc_of_exec hr, ← ih hkeeps hr]
    exact truthful_step (signalled_of_stepsMeet hkeeps hr) hs

/-- The link is lost and comes back before the node connects again. -/
def reconnected : List Label :=
  addressed ++ delivering .staDisconnected ++ delivering .staGotIp ++ connecting 0 ++
    [.run 0]

theorem connect_truthful_iff_reconnected :
    ∃ s, machine.exec machine.init reconnected = some s ∧
      s.returns = [⟨0, 2, true⟩, ⟨4, 4, true⟩] ∧
      ((∀ r ∈ s.returns, Truthful s.handled r) ↔
        machine.StepsMeet FreshReturn machine.init reconnected) :=
  ⟨_, rfl, rfl, connect_truthful_iff (by decide) rfl⟩

/-- The link is lost and the node connects again without it. -/
def lostLink : List Label := addressed ++ delivering .staDisconnected ++ connecting 0 ++ [.run 0]

/-- The bit of the first connection answers for the second, which has no address. -/
theorem lostLink_connects :
    ∃ s, machine.exec machine.init lostLink = some s ∧
      s.handled = [.staStart, .staGotIp, .staDisconnected] ∧ ⟨3, 3, true⟩ ∈ s.returns ∧
      ¬ Truthful s.handled ⟨3, 3, true⟩ := by
  refine ⟨_, rfl, rfl, by decide, ?_⟩
  intro h
  obtain ⟨k, hk, hgot, hlost⟩ := h rfl
  have hafter : 2 ≤ k := hlost 2 (by decide) rfl
  have hbefore : k < 3 := hk
  obtain rfl : k = 2 := by omega
  cases hgot

end IndustrialIot.Edge.Wifi
