import IndustrialIot.Core.StoreForward
import Mathlib.Data.List.Basic

/-!
# The MQTT client's outbox

The outbox is a tail queue of packets awaiting their handshake. Lookups by message id
act on the first match, and an item handle is the item's position. The `record` of an
item is no field of the source: it names the publish call whose data the packet carries.
-/

namespace IndustrialIot.Edge.Mqtt

open StoreForward (Phase Entry)

/-- How far the handshake of an item has come. -/
inductive PendingState where
  | queued
  | transmitted
  | acknowledged
  | confirmed
  deriving DecidableEq, Repr

/-- `outbox_item_t`. -/
structure OutboxItem where
  buffer : List UInt8
  msgId : UInt16
  msgType : Nat
  msgQos : Nat
  tick : Nat
  pending : PendingState
  record : Nat
  deriving DecidableEq, Repr

abbrev Outbox := List OutboxItem

/-- `outbox_message_t`, with `remaining` for the data that did not fit the buffer. -/
structure OutboxMessage where
  data : List UInt8
  msgId : UInt16
  msgQos : Nat
  msgType : Nat
  remaining : List UInt8
  record : Nat
  deriving DecidableEq, Repr

/-- Append a copy of the message, or fail without a change when an allocation fails. -/
def outboxEnqueue (outbox : Outbox) (message : OutboxMessage) (tick : Nat) (alloc : Bool) :
    Option Outbox :=
  if alloc then
    some (outbox ++ [{
      buffer := message.data ++ message.remaining
      msgId := message.msgId
      msgType := message.msgType
      msgQos := message.msgQos
      tick := tick
      pending := .queued
      record := message.record }])
  else none

/-- The first item in a pending state, with its position. -/
def outboxDequeue (outbox : Outbox) (pending : PendingState) : Option (OutboxItem × Nat) :=
  outbox.zipIdx.find? fun x => decide (x.1.pending = pending)

/-- Delete the first item with this id and type; the flag tells whether there was one. -/
def outboxDelete (outbox : Outbox) (msgId : UInt16) (msgType : Nat) : Bool × Outbox :=
  let found := fun item : OutboxItem => decide (item.msgId = msgId ∧ item.msgType % 256 = msgType)
  (outbox.any found, outbox.eraseP found)

/-- Delete the item behind a handle. -/
def outboxDeleteItem (outbox : Outbox) (handle : Nat) : Outbox := outbox.eraseIdx handle

/-- Change the first item with an id, as `outbox_get` finds it. -/
def outboxUpdate (msgId : UInt16) (f : OutboxItem → OutboxItem) : Outbox → Outbox
  | [] => []
  | item :: rest =>
    if item.msgId = msgId then f item :: rest else item :: outboxUpdate msgId f rest

def outboxSetPending (outbox : Outbox) (msgId : UInt16) (pending : PendingState) : Outbox :=
  outboxUpdate msgId (fun item => { item with pending := pending }) outbox

def outboxSetTick (outbox : Outbox) (msgId : UInt16) (tick : Nat) : Outbox :=
  outboxUpdate msgId (fun item => { item with tick := tick }) outbox

/-- Delete every item whose age is over the timeout. -/
def outboxDeleteExpired (outbox : Outbox) (currentTick timeout : Nat) : Outbox :=
  outbox.filter fun item => decide (currentTick - item.tick ≤ timeout)

/-- The items that `outboxDeleteExpired` deletes. -/
def outboxExpired (outbox : Outbox) (currentTick timeout : Nat) : Outbox :=
  outbox.filter fun item => !decide (currentTick - item.tick ≤ timeout)

/-! ## The outbox as a store of numbered records -/

/-- The phase an item stands for. -/
def PendingState.phase : PendingState → Phase
  | .queued => .queued
  | .transmitted => .transmitted
  | .acknowledged | .confirmed => .released

/-- The entry an item stands for. -/
def OutboxItem.entry (item : OutboxItem) : Entry UInt16 where
  key := item.msgId
  record := item.record
  phase := item.pending.phase
  stamp := item.tick

/-- The entries of an outbox. -/
def Outbox.entries (outbox : Outbox) : List (Entry UInt16) := outbox.map OutboxItem.entry

/-- The records stored in an outbox. -/
def Outbox.records (outbox : Outbox) : List Nat := outbox.map OutboxItem.record

@[simp] theorem PendingState.phase_eq_queued {p : PendingState} :
    p.phase = .queued ↔ p = .queued := by
  cases p <;> simp [PendingState.phase]

@[simp] theorem PendingState.phase_eq_transmitted {p : PendingState} :
    p.phase = .transmitted ↔ p = .transmitted := by
  cases p <;> simp [PendingState.phase]

theorem map_record_entries (outbox : Outbox) :
    outbox.entries.map Entry.record = outbox.records := by
  simp only [Outbox.entries, Outbox.records, List.map_map]
  rfl

/-- Updates commute with the abstraction. -/
theorem entries_outboxUpdate (msgId : UInt16) (f : OutboxItem → OutboxItem)
    (g : Entry UInt16 → Entry UInt16) (h : ∀ item, (f item).entry = g item.entry)
    (outbox : Outbox) :
    (outboxUpdate msgId f outbox).entries = StoreForward.updateFirst msgId g outbox.entries := by
  induction outbox with
  | nil => rfl
  | cons item rest ih =>
    unfold outboxUpdate
    split
    · rename_i hid
      have hkey : item.entry.key = msgId := hid
      simp only [Outbox.entries, List.map_cons, StoreForward.updateFirst, hkey, if_true, h]
    · rename_i hid
      have hkey : item.entry.key ≠ msgId := hid
      simpa [Outbox.entries, StoreForward.updateFirst, hkey] using ih

theorem entries_outboxSetPending (outbox : Outbox) (msgId : UInt16) (pending : PendingState) :
    (outboxSetPending outbox msgId pending).entries =
      StoreForward.setPhase msgId pending.phase outbox.entries :=
  entries_outboxUpdate msgId _ _ (fun _ => rfl) outbox

/-- A new tick and the mark as transmitted. -/
theorem entries_setTick_setPending (outbox : Outbox) (msgId : UInt16) (tick : Nat) :
    (outboxSetPending (outboxSetTick outbox msgId tick) msgId .transmitted).entries =
      StoreForward.markSent msgId tick outbox.entries := by
  rw [entries_outboxSetPending, outboxSetTick,
    entries_outboxUpdate msgId _ (fun e => { e with stamp := tick }) (fun _ => rfl)]
  exact StoreForward.updateFirst_updateFirst msgId (fun e => { e with phase := .transmitted })
    (fun e => { e with stamp := tick }) (fun _ => rfl) outbox.entries

/-- An update does not show where the change does not. -/
theorem map_outboxUpdate {β : Type*} (msgId : UInt16) (f : OutboxItem → OutboxItem)
    (g : OutboxItem → β) (h : ∀ item, g (f item) = g item) (outbox : Outbox) :
    (outboxUpdate msgId f outbox).map g = outbox.map g := by
  induction outbox with
  | nil => rfl
  | cons item rest ih =>
    unfold outboxUpdate
    split
    · simp [h]
    · simp [ih]

/-- Replacing the bytes of an item does not show where they are not looked at. -/
theorem map_modify_buffer {β : Type*} (g : OutboxItem → β)
    (h : ∀ item buffer, g { item with buffer := buffer } = g item) (outbox : Outbox)
    (handle : Nat) (f : List UInt8 → List UInt8) :
    (outbox.modify handle fun item => { item with buffer := f item.buffer }).map g =
      outbox.map g := by
  induction outbox generalizing handle with
  | nil => cases handle <;> rfl
  | cons item rest ih =>
    cases handle with
    | zero => simp [h]
    | succ k => simpa using ih k

theorem entries_outboxDeleteExpired (outbox : Outbox) (currentTick timeout : Nat) :
    (outboxDeleteExpired outbox currentTick timeout).entries =
      outbox.entries.filter fun e => decide (currentTick - e.stamp ≤ timeout) := by
  simp only [outboxDeleteExpired, Outbox.entries, List.filter_map]
  rfl

theorem entries_outboxExpired (outbox : Outbox) (currentTick timeout : Nat) :
    (outboxExpired outbox currentTick timeout).entries =
      outbox.entries.filter fun e => !decide (currentTick - e.stamp ≤ timeout) := by
  simp only [outboxExpired, Outbox.entries, List.filter_map]
  rfl

/-- Where all items have the type, deleting by id and type is deleting by id. -/
theorem entries_outboxDelete {outbox : Outbox} {msgType : Nat}
    (h : ∀ item ∈ outbox, item.msgType % 256 = msgType) (msgId : UInt16) :
    (outboxDelete outbox msgId msgType).2.entries =
      StoreForward.removeFirst msgId outbox.entries := by
  induction outbox with
  | nil => rfl
  | cons item rest ih =>
    have htype := h item List.mem_cons_self
    have hrest := ih fun x hx => h x (List.mem_cons_of_mem item hx)
    simp only [outboxDelete, StoreForward.removeFirst, Outbox.entries] at hrest ⊢
    by_cases hid : item.msgId = msgId
    · have hkey : item.entry.key = msgId := hid
      simp [hid, htype, hkey]
    · have hkey : item.entry.key ≠ msgId := hid
      simpa [hid, hkey] using hrest

/-- Where no item has the type, deleting does nothing. -/
theorem outboxDelete_of_type_ne {outbox : Outbox} {msgType : Nat}
    (h : ∀ item ∈ outbox, item.msgType % 256 ≠ msgType) (msgId : UInt16) :
    outboxDelete outbox msgId msgType = (false, outbox) := by
  have hnone : ∀ item ∈ outbox,
      ¬ decide (item.msgId = msgId ∧ item.msgType % 256 = msgType) = true := by
    intro item hitem
    simpa using fun _ => h item hitem
  exact Prod.ext (List.any_eq_false.mpr hnone) (List.eraseP_of_forall_not hnone)

/-- What is dequeued is the first entry in that phase. -/
theorem firstIn_of_outboxDequeue {pending : PendingState} {phase : Phase}
    (hphase : ∀ p : PendingState, p.phase = phase ↔ p = pending) (outbox : Outbox) :
    StoreForward.firstIn phase outbox.entries =
      (outboxDequeue outbox pending).map fun x => x.1.entry := by
  have hfst : outbox.entries = outbox.zipIdx.map fun x => x.1.entry := by
    calc outbox.entries = (outbox.zipIdx.map Prod.fst).map OutboxItem.entry := by
          rw [List.zipIdx_map_fst, Outbox.entries]
      _ = outbox.zipIdx.map fun x => x.1.entry := List.map_map
  rw [hfst, StoreForward.firstIn, List.find?_map, outboxDequeue]
  congr 2
  ext x
  exact decide_eq_decide.mpr (hphase x.1.pending)

theorem mem_of_outboxDequeue {outbox : Outbox} {pending : PendingState} {item : OutboxItem}
    {handle : Nat} (h : outboxDequeue outbox pending = some (item, handle)) :
    item ∈ outbox ∧ item.pending = pending := by
  have hmem := List.mem_of_find?_eq_some h
  have hpending := List.find?_some h
  exact ⟨List.fst_mem_of_mem_zipIdx hmem, by simpa using hpending⟩

end IndustrialIot.Edge.Mqtt
