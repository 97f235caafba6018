import IndustrialIot.Core.Machine
import Mathlib.Data.List.Nodup

/-!
# Store and forward with acknowledgement

A store keeps numbered records under keys until the receiver has acknowledged
them. A record may be sent at once or from the store, again and again; keys are
looked up by first match, and old entries expire. The state also carries what an
observer on the line has seen: every complete transmission, and the copies the
receiver has not yet answered.

Every submitted record stays accounted for. In runs whose steps meet a condition
no entry is removed by an answer to another one, or a record is sent before
another one that was submitted later.
-/

namespace IndustrialIot.StoreForward

universe u

/-- How far an entry has come. -/
inductive Phase where
  /-- Not marked as sent. -/
  | queued
  /-- Marked as sent and waiting for an answer. -/
  | transmitted
  /-- Answered by a receipt that keeps the entry. -/
  | released
  deriving DecidableEq, Repr

/-- A stored record. -/
structure Entry (κ : Type u) where
  key : κ
  record : Nat
  phase : Phase
  /-- When it was stored or sent directly. -/
  stamp : Nat
  deriving DecidableEq, Repr

/-- A record dropped because of its age. -/
structure Expiry where
  record : Nat
  stamp : Nat
  time : Nat
  deriving DecidableEq, Repr

/-- The store and what was seen on the line. -/
structure State (κ : Type u) where
  /-- The stored entries, oldest first. -/
  entries : List (Entry κ)
  /-- The records ever stored. -/
  submitted : List Nat
  /-- The records of all complete transmissions, in order. -/
  sent : List Nat
  /-- The transmissions on the current link that are not answered yet. -/
  onWire : List (κ × Nat)
  acked : List Nat
  expired : List Expiry
  wiped : List Nat
  /-- The records removed by a reply that was not to a transmission of them. -/
  misanswered : List Nat
  deriving DecidableEq, Repr

/-- What can happen to the store. -/
inductive Action (κ : Type u) where
  /-- Store a record. -/
  | submit (key : κ) (record stamp : Nat)
  /-- Store a record and send it at once, without a mark. -/
  | submitSent (key : κ) (record stamp : Nat)
  /-- Mark the first entry with a key as transmitted. -/
  | mark (key : κ) (stamp : Nat)
  /-- Send the first queued entry. -/
  | resend
  /-- Send the first transmitted entry again. -/
  | retransmit
  /-- Drop the entries older than a limit. -/
  | expire (now limit : Nat)
  /-- An acknowledgement of a key arrives. -/
  | answer (key : κ)
  /-- A receipt of a key arrives that keeps the entry. -/
  | release (key : κ)
  /-- A reply of another kind removes the first entry with a key. -/
  | discard (key : κ)
  /-- A new link is made. -/
  | link
  /-- Drop everything. -/
  | wipe
  deriving DecidableEq, Repr

section Entries

variable {κ : Type u} [DecidableEq κ]

/-- Change the first entry with a key. -/
def updateFirst (key : κ) (f : Entry κ → Entry κ) : List (Entry κ) → List (Entry κ)
  | [] => []
  | e :: es => if e.key = key then f e :: es else e :: updateFirst key f es

/-- Mark the first entry with a key. -/
def setPhase (key : κ) (phase : Phase) : List (Entry κ) → List (Entry κ) :=
  updateFirst key fun e => { e with phase := phase }

/-- Mark the first entry with a key as transmitted at a time. -/
def markSent (key : κ) (stamp : Nat) : List (Entry κ) → List (Entry κ) :=
  updateFirst key fun e => { e with phase := .transmitted, stamp := stamp }

/-- Remove the first entry with a key. -/
def removeFirst (key : κ) (entries : List (Entry κ)) : List (Entry κ) :=
  entries.eraseP fun e => decide (e.key = key)

/-- The record stored first under a key. -/
def matched (key : κ) (entries : List (Entry κ)) : Option Nat :=
  (entries.find? fun e => decide (e.key = key)).map Entry.record

/-- The record of the first unanswered transmission with a key. -/
def answered (key : κ) (onWire : List (κ × Nat)) : Option Nat :=
  (onWire.find? fun w => decide (w.1 = key)).map Prod.snd

/-- The first entry in a phase. -/
def firstIn (phase : Phase) (entries : List (Entry κ)) : Option (Entry κ) :=
  entries.find? fun e => decide (e.phase = phase)

/-- The identity of an entry, which marks and stamps do not touch. -/
def Entry.tag (e : Entry κ) : κ × Nat := (e.key, e.record)

/-- Changing an entry does not show where the change does not. -/
theorem map_updateFirst {β : Type*} (key : κ) (f : Entry κ → Entry κ) (g : Entry κ → β)
    (h : ∀ e, g (f e) = g e) (entries : List (Entry κ)) :
    (updateFirst key f entries).map g = entries.map g := by
  induction entries with
  | nil => rfl
  | cons e es ih =>
    rw [updateFirst]
    split
    · simp [h]
    · simp [ih]

@[simp] theorem map_tag_setPhase (key : κ) (phase : Phase) (entries : List (Entry κ)) :
    (setPhase key phase entries).map Entry.tag = entries.map Entry.tag :=
  map_updateFirst key (fun e => { e with phase := phase }) Entry.tag (fun _ => rfl) entries

@[simp] theorem map_record_setPhase (key : κ) (phase : Phase) (entries : List (Entry κ)) :
    (setPhase key phase entries).map Entry.record = entries.map Entry.record :=
  map_updateFirst key (fun e => { e with phase := phase }) Entry.record (fun _ => rfl) entries

@[simp] theorem map_tag_markSent (key : κ) (stamp : Nat) (entries : List (Entry κ)) :
    (markSent key stamp entries).map Entry.tag = entries.map Entry.tag :=
  map_updateFirst key (fun e => { e with phase := .transmitted, stamp := stamp }) Entry.tag
    (fun _ => rfl) entries

@[simp] theorem map_record_markSent (key : κ) (stamp : Nat) (entries : List (Entry κ)) :
    (markSent key stamp entries).map Entry.record = entries.map Entry.record :=
  map_updateFirst key (fun e => { e with phase := .transmitted, stamp := stamp }) Entry.record
    (fun _ => rfl) entries

/-- Two changes of the first match are one. -/
theorem updateFirst_updateFirst (key : κ) (f g : Entry κ → Entry κ) (hg : ∀ e, (g e).key = e.key)
    (entries : List (Entry κ)) :
    updateFirst key f (updateFirst key g entries) = updateFirst key (fun e => f (g e)) entries := by
  induction entries with
  | nil => rfl
  | cons e es ih =>
    by_cases hk : e.key = key
    · simp only [updateFirst, hk, if_true, hg]
    · simp only [updateFirst, hk, if_false, ih]

/-- An entry after a change is an old one, or the changed first match. -/
theorem mem_updateFirst {key : κ} {f : Entry κ → Entry κ} {entries : List (Entry κ)}
    {e : Entry κ} (h : e ∈ updateFirst key f entries) :
    e ∈ entries ∨ ∃ e₀, entries.find? (fun x => decide (x.key = key)) = some e₀ ∧ e = f e₀ := by
  induction entries with
  | nil => exact Or.inl h
  | cons x xs ih =>
    rw [updateFirst] at h
    split at h
    · rename_i hx
      rcases List.mem_cons.mp h with rfl | hm
      · exact Or.inr ⟨x, by simp [hx], rfl⟩
      · exact Or.inl (List.mem_cons_of_mem x hm)
    · rename_i hx
      rcases List.mem_cons.mp h with rfl | hm
      · exact Or.inl List.mem_cons_self
      · rcases ih hm with hold | ⟨e₀, hfind, he⟩
        · exact Or.inl (List.mem_cons_of_mem x hold)
        · exact Or.inr ⟨e₀, by simp [hx, hfind], he⟩

end Entries

variable {κ : Type u} [DecidableEq κ]

/-- The effect of an action. Records are submitted in increasing order. -/
def step (s : State κ) : Action κ → Option (State κ)
  | .submit key record stamp =>
    if ∀ r ∈ s.submitted, r < record then
      some { s with
        entries := s.entries ++ [⟨key, record, .queued, stamp⟩]
        submitted := s.submitted ++ [record] }
    else none
  | .submitSent key record stamp =>
    if ∀ r ∈ s.submitted, r < record then
      some { s with
        entries := s.entries ++ [⟨key, record, .queued, stamp⟩]
        submitted := s.submitted ++ [record]
        sent := s.sent ++ [record]
        onWire := s.onWire ++ [(key, record)] }
    else none
  | .mark key stamp =>
    some { s with entries := markSent key stamp s.entries }
  | .resend =>
    (firstIn .queued s.entries).map fun e =>
      { s with
        entries := setPhase e.key .transmitted s.entries
        sent := s.sent ++ [e.record]
        onWire := s.onWire ++ [e.tag] }
  | .retransmit =>
    (firstIn .transmitted s.entries).map fun e =>
      { s with sent := s.sent ++ [e.record], onWire := s.onWire ++ [e.tag] }
  | .expire now limit =>
    some { s with
      entries := s.entries.filter fun e => decide (now - e.stamp ≤ limit)
      expired := s.expired ++
        (s.entries.filter fun e => !decide (now - e.stamp ≤ limit)).map
          fun e => ⟨e.record, e.stamp, now⟩ }
  | .answer key =>
    some { s with
      entries := removeFirst key s.entries
      onWire := s.onWire.eraseP fun w => decide (w.1 = key)
      acked := s.acked ++ (answered key s.onWire).toList
      misanswered := s.misanswered ++
        if matched key s.entries = answered key s.onWire then []
        else (matched key s.entries).toList }
  | .release key => some { s with entries := setPhase key .released s.entries }
  | .discard key =>
    some { s with
      entries := removeFirst key s.entries
      misanswered := s.misanswered ++ (matched key s.entries).toList }
  | .link => some { s with onWire := [] }
  | .wipe => some { s with entries := [], wiped := s.wiped ++ s.entries.map Entry.record }

theorem step_submit {s : State κ} {key : κ} {record stamp : Nat}
    (h : ∀ r ∈ s.submitted, r < record) :
    step s (.submit key record stamp) =
      some { s with
        entries := s.entries ++ [⟨key, record, .queued, stamp⟩]
        submitted := s.submitted ++ [record] } := if_pos h

theorem step_submitSent {s : State κ} {key : κ} {record stamp : Nat}
    (h : ∀ r ∈ s.submitted, r < record) :
    step s (.submitSent key record stamp) =
      some { s with
        entries := s.entries ++ [⟨key, record, .queued, stamp⟩]
        submitted := s.submitted ++ [record]
        sent := s.sent ++ [record]
        onWire := s.onWire ++ [(key, record)] } := if_pos h

/-- An empty store. -/
def start : State κ := ⟨[], [], [], [], [], [], [], []⟩

/-- All runs of the store. -/
def machine (κ : Type u) [DecidableEq κ] : Machine (State κ) (Action κ) := ⟨start, step⟩

/-- What one action does, one constructor for each branch of `step`. -/
inductive Step (s : State κ) : Action κ → State κ → Prop
  | submit (key record stamp) (h : ∀ r ∈ s.submitted, r < record) :
      Step s (.submit key record stamp)
        { s with
          entries := s.entries ++ [⟨key, record, .queued, stamp⟩]
          submitted := s.submitted ++ [record] }
  | submitSent (key record stamp) (h : ∀ r ∈ s.submitted, r < record) :
      Step s (.submitSent key record stamp)
        { s with
          entries := s.entries ++ [⟨key, record, .queued, stamp⟩]
          submitted := s.submitted ++ [record]
          sent := s.sent ++ [record]
          onWire := s.onWire ++ [(key, record)] }
  | mark (key stamp) : Step s (.mark key stamp) { s with entries := markSent key stamp s.entries }
  | resend (e) (h : firstIn .queued s.entries = some e) :
      Step s .resend
        { s with
          entries := setPhase e.key .transmitted s.entries
          sent := s.sent ++ [e.record]
          onWire := s.onWire ++ [e.tag] }
  | retransmit (e) (h : firstIn .transmitted s.entries = some e) :
      Step s .retransmit { s with sent := s.sent ++ [e.record], onWire := s.onWire ++ [e.tag] }
  | expire (now limit) :
      Step s (.expire now limit)
        { s with
          entries := s.entries.filter fun e => decide (now - e.stamp ≤ limit)
          expired := s.expired ++
            (s.entries.filter fun e => !decide (now - e.stamp ≤ limit)).map
              fun e => ⟨e.record, e.stamp, now⟩ }
  | answer (key) :
      Step s (.answer key)
        { s with
          entries := removeFirst key s.entries
          onWire := s.onWire.eraseP fun w => decide (w.1 = key)
          acked := s.acked ++ (answered key s.onWire).toList
          misanswered := s.misanswered ++
            if matched key s.entries = answered key s.onWire then []
            else (matched key s.entries).toList }
  | release (key) : Step s (.release key) { s with entries := setPhase key .released s.entries }
  | discard (key) :
      Step s (.discard key)
        { s with
          entries := removeFirst key s.entries
          misanswered := s.misanswered ++ (matched key s.entries).toList }
  | link : Step s .link { s with onWire := [] }
  | wipe :
      Step s .wipe { s with entries := [], wiped := s.wiped ++ s.entries.map Entry.record }

/-- Every action that takes place is one of the listed ones. -/
theorem step_spec {s t : State κ} {a : Action κ} (h : step s a = some t) : Step s a t := by
  cases a with
  | submit key record stamp =>
    obtain ⟨hnew, h⟩ := Option.ite_none_right_eq_some.mp h
    cases h
    exact .submit key record stamp hnew
  | submitSent key record stamp =>
    obtain ⟨hnew, h⟩ := Option.ite_none_right_eq_some.mp h
    cases h
    exact .submitSent key record stamp hnew
  | mark key stamp => cases h; exact .mark key stamp
  | resend =>
    obtain ⟨e, he, rfl⟩ := Option.map_eq_some_iff.mp h
    exact .resend e he
  | retransmit =>
    obtain ⟨e, he, rfl⟩ := Option.map_eq_some_iff.mp h
    exact .retransmit e he
  | expire now limit => cases h; exact .expire now limit
  | answer key => cases h; exact .answer key
  | release key => cases h; exact .release key
  | discard key => cases h; exact .discard key
  | link => cases h; exact .link
  | wipe => cases h; exact .wipe

/-- The keys and records of the stored entries. -/
def State.tags (s : State κ) : List (κ × Nat) := s.entries.map Entry.tag

/-! ## No silent loss -/

/-- The record is stored, acknowledged, dropped for its age, gone with the whole store, or
removed by a reply to something else. -/
def Accounted (s : State κ) (record : Nat) : Prop :=
  record ∈ s.entries.map Entry.record ∨ record ∈ s.acked ∨
    record ∈ s.expired.map Expiry.record ∨ record ∈ s.wiped ∨ record ∈ s.misanswered

/-- A stored record survives a removal by key unless the key matched it. -/
theorem mem_removeFirst_or (key : κ) {entries : List (Entry κ)} {r : Nat}
    (h : r ∈ entries.map Entry.record) :
    r ∈ (removeFirst key entries).map Entry.record ∨ matched key entries = some r := by
  induction entries with
  | nil => simp at h
  | cons e es ih =>
    by_cases hk : e.key = key
    · rcases List.mem_cons.mp h with rfl | hr
      · exact Or.inr (by simp [matched, hk])
      · exact Or.inl (by simpa [removeFirst, hk] using hr)
    · have hcons : removeFirst key (e :: es) = e :: removeFirst key es := by
        simp [removeFirst, hk]
      have hmatch : matched key (e :: es) = matched key es := by simp [matched, hk]
      rw [hcons, hmatch, List.map_cons, List.mem_cons]
      rcases List.mem_cons.mp h with rfl | hr
      · exact Or.inl (Or.inl rfl)
      · rcases ih hr with hold | hm
        · exact Or.inl (Or.inr hold)
        · exact Or.inr hm

omit [DecidableEq κ] in
/-- An account stays good when what is stored is kept or noted, and the ledgers only grow. -/
private theorem Accounted.mono {s t : State κ} {r : Nat} (h : Accounted s r)
    (hstored : r ∈ s.entries.map Entry.record → Accounted t r)
    (hacked : s.acked ⊆ t.acked) (hexpired : s.expired ⊆ t.expired) (hwiped : s.wiped ⊆ t.wiped)
    (hmis : s.misanswered ⊆ t.misanswered) : Accounted t r := by
  rcases h with hs | ha | hx | hw | hm
  · exact hstored hs
  · exact Or.inr (Or.inl (hacked ha))
  · exact Or.inr (Or.inr (Or.inl (List.map_subset _ hexpired hx)))
  · exact Or.inr (Or.inr (Or.inr (Or.inl (hwiped hw))))
  · exact Or.inr (Or.inr (Or.inr (Or.inr (hmis hm))))

omit [DecidableEq κ] in
/-- Steps that keep every stored record, and the ledgers, keep every account. -/
private theorem Accounted.keep {s t : State κ} {r : Nat} (h : Accounted s r)
    (hstored : r ∈ s.entries.map Entry.record → r ∈ t.entries.map Entry.record)
    (hrest : t.acked = s.acked ∧ t.expired = s.expired ∧ t.wiped = s.wiped ∧
      t.misanswered = s.misanswered) : Accounted t r := by
  obtain ⟨ha, hx, hw, hm⟩ := hrest
  exact h.mono (fun hs => Or.inl (hstored hs)) (by rw [ha]; exact List.Subset.refl _)
    (by rw [hx]; exact List.Subset.refl _) (by rw [hw]; exact List.Subset.refl _)
    (by rw [hm]; exact List.Subset.refl _)

omit [DecidableEq κ] in
/-- Storing one more record. -/
private theorem accounted_store {s t : State κ} {key : κ} {record stamp : Nat}
    (h : ∀ r ∈ s.submitted, Accounted s r)
    (hentries : t.entries = s.entries ++ [⟨key, record, .queued, stamp⟩])
    (hrest : t.acked = s.acked ∧ t.expired = s.expired ∧ t.wiped = s.wiped ∧
      t.misanswered = s.misanswered) :
    ∀ r ∈ s.submitted ++ [record], Accounted t r := by
  intro r hr
  rcases List.mem_append.mp hr with hr | hr
  · refine (h r hr).keep ?_ hrest
    intro hs
    rw [hentries, List.map_append]
    exact List.mem_append_left _ hs
  · exact Or.inl (by simp [hentries, List.mem_singleton.mp hr])

/-- Every step keeps all submitted records accounted for. -/
theorem accounted_step {s t : State κ} {a : Action κ}
    (h : ∀ r ∈ s.submitted, Accounted s r) (ht : step s a = some t) :
    ∀ r ∈ t.submitted, Accounted t r := by
  cases step_spec ht with
  | submit key record stamp => exact accounted_store h rfl ⟨rfl, rfl, rfl, rfl⟩
  | submitSent key record stamp => exact accounted_store h rfl ⟨rfl, rfl, rfl, rfl⟩
  | mark | resend | release =>
    intro r hr
    exact (h r hr).keep (fun hs => by simpa using hs) ⟨rfl, rfl, rfl, rfl⟩
  | retransmit | link =>
    intro r hr
    exact (h r hr).keep id ⟨rfl, rfl, rfl, rfl⟩
  | expire now limit =>
    intro r hr
    refine (h r hr).mono ?_ (List.Subset.refl _) (List.subset_append_left _ _)
      (List.Subset.refl _) (List.Subset.refl _)
    intro hs
    obtain ⟨e, he, rfl⟩ := List.mem_map.mp hs
    by_cases hage : now - e.stamp ≤ limit
    · exact Or.inl (List.mem_map_of_mem (List.mem_filter.mpr ⟨he, decide_eq_true hage⟩))
    · refine Or.inr (Or.inr (Or.inl ?_))
      rw [List.map_append, List.mem_append, List.map_map]
      refine Or.inr (List.mem_map.mpr ⟨e, List.mem_filter.mpr ⟨he, ?_⟩, rfl⟩)
      rw [decide_eq_false hage]
      rfl
  | answer key =>
    intro r hr
    refine (h r hr).mono ?_ (List.subset_append_left _ _) (List.Subset.refl _)
      (List.Subset.refl _) (List.subset_append_left _ _)
    intro hs
    rcases mem_removeFirst_or key hs with hold | hm
    · exact Or.inl hold
    · by_cases hsame : matched key s.entries = answered key s.onWire
      · exact Or.inr (Or.inl (by simp [← hsame, hm]))
      · rw [hm] at hsame
        exact Or.inr (Or.inr (Or.inr (Or.inr (by simp [hm, hsame]))))
  | discard key =>
    intro r hr
    refine (h r hr).mono ?_ (List.Subset.refl _) (List.Subset.refl _)
      (List.Subset.refl _) (List.subset_append_left _ _)
    intro hs
    rcases mem_removeFirst_or key hs with hold | hm
    · exact Or.inl hold
    · exact Or.inr (Or.inr (Or.inr (Or.inr (by simp [hm]))))
  | wipe =>
    intro r hr
    refine (h r hr).mono ?_ (List.Subset.refl _) (List.Subset.refl _)
      (List.subset_append_left _ _) (List.Subset.refl _)
    intro hs
    exact Or.inr (Or.inr (Or.inr (Or.inl (List.mem_append_right _ hs))))

/-- In every run every submitted record is accounted for. -/
theorem accounted_of_exec {s : State κ} {as : List (Action κ)}
    (h : (machine κ).exec start as = some s) : ∀ r ∈ s.submitted, Accounted s r :=
  Machine.exec_invariant (P := fun s => ∀ r ∈ s.submitted, Accounted s r)
    (fun _ _ _ hs ht => accounted_step hs ht) (by simp [start]) h

/-! ## Replies reach the entries they are for -/

/-- The condition on one step: a new record gets a key that is neither stored nor
awaiting an answer, the receiver acknowledges only keys of which it has an
unanswered transmission, and no other reply matches a stored key. -/
def Faithful (s : State κ) : Action κ → Prop
  | .submit key _ _ | .submitSent key _ _ =>
    key ∉ s.entries.map Entry.key ∧ key ∉ s.onWire.map Prod.fst
  | .answer key => key ∈ s.onWire.map Prod.fst
  | .discard key => key ∉ s.entries.map Entry.key
  | _ => True

/-- Keys identify the stored records, on the line as well. -/
structure Identified (s : State κ) : Prop where
  nodup : (s.tags.map Prod.fst).Nodup
  wire : ∀ w ∈ s.onWire, ∀ t ∈ s.tags, w.1 = t.1 → w = t
  answers : s.misanswered = []

omit [DecidableEq κ] in
private theorem keys_eq (s : State κ) : s.entries.map Entry.key = s.tags.map Prod.fst := by
  simp [State.tags, Entry.tag]

omit [DecidableEq κ] in
/-- Two stored entries with one key are the same entry. -/
theorem Identified.tag_inj {s : State κ} (h : Identified s) {t t' : κ × Nat} (ht : t ∈ s.tags)
    (ht' : t' ∈ s.tags) (hkey : t.1 = t'.1) : t = t' :=
  List.inj_on_of_nodup_map h.nodup ht ht' hkey

omit [DecidableEq κ] in
/-- Storing a record under a fresh key. -/
private theorem Identified.store {s t : State κ} {key : κ} (record : Nat) (h : Identified s)
    (hfresh : key ∉ s.entries.map Entry.key ∧ key ∉ s.onWire.map Prod.fst)
    (htags : t.tags = s.tags ++ [(key, record)])
    (hwire : t.onWire = s.onWire ∨ t.onWire = s.onWire ++ [(key, record)])
    (hmis : t.misanswered = s.misanswered) : Identified t := by
  obtain ⟨hkey, hline⟩ := hfresh
  rw [keys_eq] at hkey
  have hmem : ∀ w, w ∈ t.onWire → w ∈ s.onWire ∨ w = (key, record) := by
    intro w hw
    rcases hwire with he | he
    · exact Or.inl (he ▸ hw)
    · simpa [he] using hw
  refine ⟨?_, ?_, hmis.trans h.answers⟩
  · rw [htags, List.map_append, List.nodup_append]
    refine ⟨h.nodup, by simp, ?_⟩
    rintro x hx y hy rfl
    have : x = key := by simpa using hy
    exact hkey (this ▸ hx)
  · intro w hw u hu he
    rw [htags, List.mem_append, List.mem_singleton] at hu
    rcases hmem w hw with hw | rfl <;> rcases hu with hu | rfl
    · exact h.wire w hw u hu he
    · exact absurd (List.mem_map.mpr ⟨w, hw, he⟩) hline
    · exact absurd (List.mem_map.mpr ⟨u, hu, he.symm⟩) hkey
    · rfl

omit [DecidableEq κ] in
/-- Sending a stored entry. -/
private theorem Identified.send {s t : State κ} {u : κ × Nat} (h : Identified s)
    (hu : u ∈ s.tags) (htags : t.tags = s.tags) (hwire : t.onWire = s.onWire ++ [u])
    (hmis : t.misanswered = s.misanswered) : Identified t := by
  refine ⟨htags ▸ h.nodup, ?_, hmis.trans h.answers⟩
  intro w hw v hv he
  rw [hwire, List.mem_append, List.mem_singleton] at hw
  rw [htags] at hv
  rcases hw with hw | rfl
  · exact h.wire w hw v hv he
  · exact h.tag_inj hu hv he

omit [DecidableEq κ] in
/-- Dropping entries and answers. -/
private theorem Identified.drop {s t : State κ} (h : Identified s)
    (htags : t.tags.Sublist s.tags) (hwire : t.onWire ⊆ s.onWire)
    (hmis : t.misanswered = []) : Identified t :=
  ⟨h.nodup.sublist (htags.map _),
    fun w hw u hu he => h.wire w (hwire hw) u (htags.subset hu) he, hmis⟩

omit [DecidableEq κ] in
private theorem tag_mem_of_firstIn {s : State κ} {phase : Phase} {e : Entry κ}
    (h : firstIn phase s.entries = some e) : e.tag ∈ s.tags :=
  List.mem_map_of_mem (List.mem_of_find?_eq_some h)

/-- A key that is not stored matches nothing. -/
theorem matched_eq_none {key : κ} {entries : List (Entry κ)}
    (h : key ∉ entries.map Entry.key) : matched key entries = none := by
  rw [matched, Option.map_eq_none_iff, List.find?_eq_none]
  intro e he
  simpa using fun hk : e.key = key => h (hk ▸ List.mem_map_of_mem he)

/-- An answer to a transmission matches that record or nothing. -/
private theorem Identified.matched_answered {s : State κ} {key : κ} (h : Identified s)
    (hkey : key ∈ s.onWire.map Prod.fst) :
    matched key s.entries = answered key s.onWire ∨ matched key s.entries = none := by
  by_cases hstored : key ∈ s.entries.map Entry.key
  · left
    obtain ⟨w, hw⟩ : ∃ w, s.onWire.find? (fun w => decide (w.1 = key)) = some w := by
      rw [← Option.isSome_iff_exists, List.find?_isSome]
      obtain ⟨w, hw, hk⟩ := List.mem_map.mp hkey
      exact ⟨w, hw, by simpa using hk⟩
    obtain ⟨e, he⟩ : ∃ e, s.entries.find? (fun e => decide (e.key = key)) = some e := by
      rw [← Option.isSome_iff_exists, List.find?_isSome]
      obtain ⟨e, he, hk⟩ := List.mem_map.mp hstored
      exact ⟨e, he, by simpa using hk⟩
    have hwk : w.1 = key := by simpa using List.find?_some hw
    have hek : e.key = key := by simpa using List.find?_some he
    have hsame := h.wire w (List.mem_of_find?_eq_some hw) e.tag
      (List.mem_map_of_mem (List.mem_of_find?_eq_some he)) (hwk.trans hek.symm)
    simp [matched, answered, hw, he, hsame, Entry.tag]
  · exact Or.inr (matched_eq_none hstored)

/-- Every step that meets the condition keeps keys and records together. -/
theorem Identified.step {s t : State κ} {a : Action κ} (h : Identified s) (hq : Faithful s a)
    (ht : step s a = some t) : Identified t := by
  cases step_spec ht with
  | submit key record stamp =>
    exact h.store record hq (by simp [State.tags, Entry.tag]) (Or.inl rfl) rfl
  | submitSent key record stamp =>
    exact h.store record hq (by simp [State.tags, Entry.tag]) (Or.inr rfl) rfl
  | mark | release => exact h.drop (by simp [State.tags]) (List.Subset.refl _) h.answers
  | resend e he => exact h.send (tag_mem_of_firstIn he) (by simp [State.tags]) rfl rfl
  | retransmit e he => exact h.send (tag_mem_of_firstIn he) rfl rfl rfl
  | expire now limit =>
    exact h.drop (List.filter_sublist.map _) (List.Subset.refl _) h.answers
  | answer key =>
    refine h.drop (List.eraseP_sublist.map _) List.eraseP_subset ?_
    rcases h.matched_answered hq with hm | hm <;> simp [h.answers, hm]
  | discard key =>
    refine h.drop (List.eraseP_sublist.map _) (List.Subset.refl _) ?_
    simp [h.answers, matched_eq_none hq]
  | link => exact h.drop (List.Sublist.refl _) (List.nil_subset _) h.answers
  | wipe => exact h.drop (List.nil_sublist _) (List.Subset.refl _) h.answers

omit [DecidableEq κ] in
theorem identified_start : Identified (start : State κ) :=
  ⟨List.nodup_nil, by simp [start], rfl⟩

/-- In a run whose steps meet the condition keys and records stay together. -/
theorem identified_of_stepsMeet {s t : State κ} {as : List (Action κ)} (h : Identified s)
    (hq : (machine κ).StepsMeet Faithful s as) (ht : (machine κ).exec s as = some t) :
    Identified t :=
  Machine.exec_invariant_of_stepsMeet (fun _ _ _ hs hq ht => hs.step hq ht) h hq ht

/-! ## Ages of the expired records -/

/-- The age of every expired record was over the limit of the pass that dropped it. -/
theorem expired_step {s t : State κ} {a : Action κ} {bound : Nat}
    (hq : ∀ now limit, a = .expire now limit → bound ≤ limit)
    (h : ∀ x ∈ s.expired, x.stamp + bound < x.time) (ht : step s a = some t) :
    ∀ x ∈ t.expired, x.stamp + bound < x.time := by
  cases step_spec ht with
  | expire now limit =>
    have hle := hq now limit rfl
    intro x hx
    rcases List.mem_append.mp hx with hx | hx
    · exact h x hx
    · obtain ⟨e, he, rfl⟩ := List.mem_map.mp hx
      have hage : limit + e.stamp < now := by simpa using (List.mem_filter.mp he).2
      show e.stamp + bound < now
      omega
  | _ => exact h

/-! ## First transmissions follow the order of submission -/

/-- What is stored or sent has been submitted. -/
structure Recorded (s : State κ) : Prop where
  stored : ∀ r ∈ s.entries.map Entry.record, r ∈ s.submitted
  sent : ∀ r ∈ s.sent, r ∈ s.submitted

omit [DecidableEq κ] in
/-- Storing a new record, and perhaps sending it. -/
private theorem Recorded.store {s t : State κ} {record : Nat} (h : Recorded s)
    (hstored : ∀ r ∈ t.entries.map Entry.record, r ∈ s.entries.map Entry.record ∨ r = record)
    (hsent : ∀ r ∈ t.sent, r ∈ s.sent ∨ r = record)
    (hsub : t.submitted = s.submitted ++ [record]) : Recorded t := by
  constructor <;> intro r hr <;> rw [hsub, List.mem_append, List.mem_singleton]
  · exact (hstored r hr).imp_left (h.stored r)
  · exact (hsent r hr).imp_left (h.sent r)

omit [DecidableEq κ] in
/-- Keeping what is stored, or less, and sending of it. -/
private theorem Recorded.keep {s t : State κ} (h : Recorded s)
    (hstored : t.entries.map Entry.record ⊆ s.entries.map Entry.record)
    (hsent : ∀ r ∈ t.sent, r ∈ s.sent ∨ r ∈ s.entries.map Entry.record)
    (hsub : t.submitted = s.submitted) : Recorded t := by
  constructor <;> intro r hr <;> rw [hsub]
  · exact h.stored r (hstored hr)
  · exact (hsent r hr).elim (h.sent r) (h.stored r)

omit [DecidableEq κ] in
/-- Sending a stored record. -/
private theorem Recorded.send {s t : State κ} {phase : Phase} {e : Entry κ} (h : Recorded s)
    (he : firstIn phase s.entries = some e)
    (hstored : t.entries.map Entry.record ⊆ s.entries.map Entry.record)
    (hsent : t.sent = s.sent ++ [e.record]) (hsub : t.submitted = s.submitted) : Recorded t := by
  refine h.keep hstored ?_ hsub
  intro r hr
  rw [hsent, List.mem_append, List.mem_singleton] at hr
  rcases hr with hr | rfl
  · exact Or.inl hr
  · exact Or.inr (List.mem_map_of_mem (List.mem_of_find?_eq_some he))

/-- Every step keeps the submissions on record. -/
theorem Recorded.step {s t : State κ} {a : Action κ} (h : Recorded s)
    (ht : StoreForward.step s a = some t) : Recorded t := by
  cases step_spec ht with
  | submit key record stamp => exact h.store (by simp) (fun r hr => Or.inl hr) rfl
  | submitSent key record stamp => exact h.store (by simp) (by simp) rfl
  | resend e he => exact h.send he (by simp) rfl rfl
  | retransmit e he => exact h.send he (List.Subset.refl _) rfl rfl
  | mark | release => exact h.keep (by simp) (fun r hr => Or.inl hr) rfl
  | expire now limit =>
    exact h.keep (List.filter_sublist.map _).subset (fun r hr => Or.inl hr) rfl
  | answer | discard =>
    exact h.keep (List.eraseP_sublist.map _).subset (fun r hr => Or.inl hr) rfl
  | link => exact h.keep (List.Subset.refl _) (fun r hr => Or.inl hr) rfl
  | wipe => exact h.keep (List.nil_subset _) (fun r hr => Or.inl hr) rfl

omit [DecidableEq κ] in
theorem recorded_start : Recorded (start : State κ) := ⟨by simp [start], by simp [start]⟩

/-- In every run what is stored or sent has been submitted. -/
theorem recorded_of_exec {s : State κ} {as : List (Action κ)}
    (h : (machine κ).exec start as = some s) : Recorded s :=
  Machine.exec_invariant (fun _ _ _ hs ht => hs.step ht) recorded_start h

/-- The first `i` comes before the first `j`, where both occur. -/
def Before (i j : Nat) (sent : List Nat) : Prop :=
  i ∈ sent → j ∈ sent → sent.idxOf i < sent.idxOf j

/-- One more transmission keeps the order unless it is an `i` that `j` has passed. -/
theorem Before.append {i j r : Nat} {sent : List Nat} (h : Before i j sent) (hij : i ≠ j)
    (hr : r = i → j ∈ sent → i ∈ sent) : Before i j (sent ++ [r]) := by
  intro hi hj
  rw [List.mem_append, List.mem_singleton] at hi hj
  by_cases hold : i ∈ sent
  · rw [List.idxOf_append_of_mem hold]
    by_cases hpassed : j ∈ sent
    · rw [List.idxOf_append_of_mem hpassed]
      exact h hold hpassed
    · rw [List.idxOf_append_of_notMem hpassed]
      exact Nat.lt_of_lt_of_le (List.idxOf_lt_length_of_mem hold) (Nat.le_add_right ..)
  · have hri : i = r := hi.resolve_left hold
    have hpassed : j ∈ sent := hj.resolve_right fun hjr => hij (hri.trans hjr.symm)
    exact absurd (hr hri.symm hpassed) hold

/-- What comes first at the end came first before. -/
theorem first_of_grown {i j : Nat} {sent more : List Nat} (hgrown : sent <+: more)
    (h : j ∈ more → i ∈ more ∧ more.idxOf i < more.idxOf j) :
    j ∈ sent → i ∈ sent ∧ sent.idxOf i < sent.idxOf j := by
  intro hj
  obtain ⟨rest, rfl⟩ := hgrown
  obtain ⟨_, hlt⟩ := h (List.mem_append_left _ hj)
  rw [List.idxOf_append_of_mem hj] at hlt
  by_cases hi : i ∈ sent
  · rw [List.idxOf_append_of_mem hi] at hlt
    exact ⟨hi, hlt⟩
  · rw [List.idxOf_append_of_notMem hi] at hlt
    have := List.idxOf_lt_length_of_mem hj
    omega

/-- The condition on one step: a new key is not that of a stored record that has never been
sent, `j` is not sent directly while `i` is such a record, and a mark is for a sent one. -/
def InTurn (i j : Nat) (s : State κ) : Action κ → Prop
  | .submit key _ _ => ∀ e ∈ s.entries, e.record ∉ s.sent → e.key ≠ key
  | .submitSent key record _ =>
    (∀ e ∈ s.entries, e.record ∉ s.sent → e.key ≠ key) ∧
      (record = j → i ∈ s.entries.map Entry.record → i ∈ s.sent)
  | .mark key _ =>
    ∀ e, s.entries.find? (fun e => decide (e.key = key)) = some e → e.record ∈ s.sent
  | _ => True

/-- The mark of an entry is true, and an `i` that `j` has passed will not be sent any more. -/
def InPlace (i j : Nat) (sent : List Nat) (e : Entry κ) : Prop :=
  (e.phase = .transmitted → e.record ∈ sent) ∧
    (e.record = i → j ∈ sent → i ∈ sent ∨ e.phase = .released)

/-- Entries are in order, the unsent ones have keys that no later entry has, and `i` is sent
before `j` or not at all. -/
structure Sequenced (i j : Nat) (s : State κ) : Prop where
  sorted : (s.entries.map Entry.record).Pairwise (· < ·)
  distinct : s.tags.Pairwise fun t u => t.2 ∉ s.sent → t.1 ≠ u.1
  inPlace : ∀ e ∈ s.entries, InPlace i j s.sent e
  before : Before i j s.sent

section

variable {i j : Nat}

omit [DecidableEq κ] in
theorem InPlace.of_sent {sent : List Nat} {e : Entry κ} (h : e.record ∈ sent) :
    InPlace i j sent e :=
  ⟨fun _ => h, fun he _ => Or.inl (he ▸ h)⟩

omit [DecidableEq κ] in
/-- Sending something keeps an entry in place unless it takes `j` past it. -/
theorem InPlace.append {sent : List Nat} {e : Entry κ} {r : Nat} (h : InPlace i j sent e)
    (hr : r = j → e.record = i → i ∈ sent ∨ e.phase = .released) :
    InPlace i j (sent ++ [r]) e := by
  refine ⟨fun hp => List.mem_append_left _ (h.1 hp), ?_⟩
  intro he hj
  rw [List.mem_append, List.mem_singleton] at hj
  exact (hj.elim (h.2 he) fun hjr => hr hjr.symm he).imp_left (List.mem_append_left _)

/-- What holds of all entries and of the changed first match holds after the change. -/
theorem forall_updateFirst {P : Entry κ → Prop} {key : κ} {f : Entry κ → Entry κ}
    {entries : List (Entry κ)} (h : ∀ e ∈ entries, P e)
    (hkey : ∀ e, entries.find? (fun e => decide (e.key = key)) = some e → P (f e)) :
    ∀ e ∈ updateFirst key f entries, P e := by
  intro e he
  rcases mem_updateFirst he with hold | ⟨e₀, hfind, rfl⟩
  · exact h e hold
  · exact hkey e₀ hfind

omit [DecidableEq κ] in
/-- Sending a record leaves the keys as distinct as they were. -/
private theorem Sequenced.distinct_append {s : State κ} (h : Sequenced i j s) (r : Nat) :
    s.tags.Pairwise fun t u => t.2 ∉ s.sent ++ [r] → t.1 ≠ u.1 :=
  h.distinct.imp fun hne hunsent => hne fun hm => hunsent (List.mem_append_left _ hm)

/-- The first entry under the key of a stored one is that entry, or it has been sent. -/
private theorem Sequenced.sent_of_match {s : State κ} {e e₀ : Entry κ} (h : Sequenced i j s)
    (he : e ∈ s.entries)
    (hfind : s.entries.find? (fun x => decide (x.key = e.key)) = some e₀) :
    e₀ = e ∨ e₀.record ∈ s.sent := by
  obtain ⟨hkey, first, rest, hsplit, hfirst⟩ := List.find?_eq_some_iff_append.mp hfind
  have hdistinct := h.distinct
  rw [State.tags, hsplit, List.map_append, List.map_cons, List.pairwise_append,
    List.pairwise_cons] at hdistinct
  rw [hsplit, List.mem_append, List.mem_cons] at he
  rcases he with he | rfl | he
  · exact absurd (hfirst e he) (by simp)
  · exact Or.inl rfl
  · by_cases hsent : e₀.record ∈ s.sent
    · exact Or.inr hsent
    · have hne := hdistinct.2.1.1 e.tag (List.mem_map_of_mem he) hsent
      exact absurd (of_decide_eq_true hkey) hne

omit [DecidableEq κ] in
/-- Keeping some of the entries. -/
private theorem Sequenced.drop {s t : State κ} (h : Sequenced i j s)
    (hentries : t.entries.Sublist s.entries) (hsent : t.sent = s.sent) : Sequenced i j t where
  sorted := h.sorted.sublist (hentries.map _)
  distinct := by
    rw [hsent]
    exact h.distinct.sublist (hentries.map _)
  inPlace e he := hsent ▸ h.inPlace e (hentries.subset he)
  before := hsent ▸ h.before

omit [DecidableEq κ] in
/-- Whatever is stored before the first queued entry is not queued. -/
private theorem phase_of_lt_firstIn {entries : List (Entry κ)} {e e' : Entry κ}
    (hsorted : (entries.map Entry.record).Pairwise (· < ·))
    (he : firstIn .queued entries = some e) (he' : e' ∈ entries) (hlt : e'.record < e.record) :
    e'.phase ≠ .queued := by
  obtain ⟨_, first, rest, hsplit, hfirst⟩ := List.find?_eq_some_iff_append.mp he
  rw [hsplit] at he' hsorted
  rw [List.map_append, List.map_cons, List.pairwise_append, List.pairwise_cons] at hsorted
  rcases List.mem_append.mp he' with hm | hm
  · simpa using hfirst e' hm
  · rcases List.mem_cons.mp hm with rfl | hm
    · exact absurd hlt (Nat.lt_irrefl _)
    · have := hsorted.2.1.1 e'.record (List.mem_map_of_mem hm)
      omega

/-- Sending the first queued entry. -/
private theorem Sequenced.resend {s : State κ} {e : Entry κ} (hij : i < j)
    (h : Sequenced i j s) (he : firstIn .queued s.entries = some e) :
    Sequenced i j { s with
      entries := setPhase e.key .transmitted s.entries
      sent := s.sent ++ [e.record]
      onWire := s.onWire ++ [e.tag] } := by
  have hmem := List.mem_of_find?_eq_some he
  have hqueued : e.phase = .queued := by simpa using List.find?_some he
  refine ⟨by simpa using h.sorted, ?_, ?_, ?_⟩
  · simpa [State.tags] using h.distinct_append e.record
  · apply forall_updateFirst
    · -- An `i` that is passed now is no longer queued.
      intro x hx
      apply (h.inPlace x hx).append
      intro hej hxi
      have hp := phase_of_lt_firstIn h.sorted he hx (by omega)
      cases hphase : x.phase with
      | queued => exact absurd hphase hp
      | transmitted => exact Or.inl (hxi ▸ (h.inPlace x hx).1 hphase)
      | released => exact Or.inr rfl
    · intro e₀ hfind
      apply InPlace.of_sent
      rcases h.sent_of_match hmem hfind with rfl | hsent
      · exact List.mem_append_right _ (List.mem_singleton.mpr rfl)
      · exact List.mem_append_left _ hsent
  · apply h.before.append (Nat.ne_of_lt hij)
    intro hei hj
    rcases (h.inPlace e hmem).2 hei hj with hi | hp
    · exact hi
    · simp [hqueued] at hp

omit [DecidableEq κ] in
/-- Storing a new record. -/
private theorem Sequenced.submit {s : State κ} {key : κ} {record : Nat} (stamp : Nat)
    (hij : i < j) (h : Sequenced i j s) (hrec : Recorded s) (hnew : ∀ r ∈ s.submitted, r < record)
    (hkey : ∀ e ∈ s.entries, e.record ∉ s.sent → e.key ≠ key) :
    Sequenced i j { s with
      entries := s.entries ++ [⟨key, record, .queued, stamp⟩]
      submitted := s.submitted ++ [record] } where
  sorted := by
    rw [List.map_append, List.pairwise_append]
    refine ⟨h.sorted, List.pairwise_singleton _ _, ?_⟩
    intro r hr r' hr'
    rw [List.mem_singleton.mp hr']
    exact hnew r (hrec.stored r hr)
  distinct := by
    rw [State.tags, List.map_append, List.pairwise_append]
    refine ⟨h.distinct, List.pairwise_singleton _ _, ?_⟩
    intro t ht u hu hunsent
    obtain ⟨e, he, rfl⟩ := List.mem_map.mp ht
    rw [List.mem_singleton.mp hu]
    exact hkey e he hunsent
  inPlace e he := by
    rw [List.mem_append, List.mem_singleton] at he
    rcases he with he | rfl
    · exact h.inPlace e he
    · -- What has been sent is below the new record.
      refine ⟨fun hp => absurd hp (by simp), ?_⟩
      intro hri hj
      have hlt := hnew j (hrec.sent j hj)
      simp only at hri
      omega
  before := h.before

omit [DecidableEq κ] in
/-- A direct transmission of the record stored last. -/
private theorem Sequenced.sendLast {s t : State κ} {record : Nat} (hij : i < j)
    (h : Sequenced i j t) (hentries : ∀ e ∈ t.entries, e ∈ s.entries ∨ e.record = record)
    (hsent : t.sent = s.sent) (hnew : ∀ r ∈ s.sent, r < record)
    (hturn : record = j → i ∈ s.entries.map Entry.record → i ∈ s.sent) (w : List (κ × Nat)) :
    Sequenced i j { t with sent := t.sent ++ [record], onWire := w } where
  sorted := h.sorted
  distinct := h.distinct_append record
  inPlace e he := by
    rcases hentries e he with hold | hrecord
    · refine (h.inPlace e he).append fun hrj hei => Or.inl ?_
      rw [hsent]
      exact hturn hrj (hei ▸ List.mem_map_of_mem hold)
    · exact InPlace.of_sent (List.mem_append_right _ (List.mem_singleton.mpr hrecord))
  before := by
    apply h.before.append (Nat.ne_of_lt hij)
    intro hri hj
    have hlt := hnew j (hsent ▸ hj)
    omega

/-- Every step that meets the condition keeps the order of `i` and `j`. -/
theorem Sequenced.step {s t : State κ} {a : Action κ} (hij : i < j) (h : Sequenced i j s)
    (hrec : Recorded s) (hq : InTurn i j s a) (ht : StoreForward.step s a = some t) :
    Sequenced i j t := by
  cases step_spec ht with
  | submit key record stamp hnew => exact h.submit stamp hij hrec hnew hq
  | submitSent key record stamp hnew =>
    refine (h.submit stamp hij hrec hnew hq.1).sendLast hij (s := s) ?_ rfl
      (fun r hr => hnew r (hrec.sent r hr)) hq.2 _
    intro e he
    rw [List.mem_append, List.mem_singleton] at he
    exact he.imp_right fun he => by rw [he]
  | mark key stamp =>
    refine ⟨by simpa using h.sorted, by simpa [State.tags] using h.distinct, ?_, h.before⟩
    exact forall_updateFirst h.inPlace fun e he => InPlace.of_sent (hq e he)
  | resend e he => exact h.resend hij he
  | retransmit e he =>
    have hmem := List.mem_of_find?_eq_some he
    have hphase : e.phase = .transmitted := by simpa using List.find?_some he
    have hsent := (h.inPlace e hmem).1 hphase
    refine ⟨h.sorted, h.distinct_append e.record, ?_, ?_⟩
    · intro x hx
      exact (h.inPlace x hx).append fun hej hxi => (h.inPlace x hx).2 hxi (hej ▸ hsent)
    · apply h.before.append (Nat.ne_of_lt hij)
      intro hei _
      exact hei ▸ hsent
  | release key =>
    refine ⟨by simpa using h.sorted, by simpa [State.tags] using h.distinct, ?_, h.before⟩
    exact forall_updateFirst h.inPlace fun e _ =>
      ⟨fun hp => absurd hp (by simp), fun _ _ => Or.inr rfl⟩
  | expire now limit => exact h.drop List.filter_sublist rfl
  | answer | discard => exact h.drop List.eraseP_sublist rfl
  | link => exact h.drop (List.Sublist.refl _) rfl
  | wipe => exact h.drop (List.nil_sublist _) rfl

omit [DecidableEq κ] in
theorem sequenced_start : Sequenced i j (start : State κ) :=
  ⟨List.Pairwise.nil, List.Pairwise.nil, by simp [start], by simp [Before, start]⟩

/-- In a run whose steps meet the condition `i` is sent before `j`. -/
theorem before_of_stepsMeet {s : State κ} {as : List (Action κ)} (hij : i < j)
    (hq : (machine κ).StepsMeet (InTurn i j) start as) (hs : (machine κ).exec start as = some s) :
    Before i j s.sent :=
  (Machine.exec_invariant_of_stepsMeet (P := fun s : State κ => Recorded s ∧ Sequenced i j s)
    (fun _ _ _ h hq ht => ⟨h.1.step ht, h.2.step hij h.1 hq ht⟩) ⟨recorded_start, sequenced_start⟩
    hq hs).2.before

end

/-- Transmissions are only ever added. -/
theorem sent_prefix_step {s t : State κ} {a : Action κ} (ht : step s a = some t) :
    s.sent <+: t.sent := by
  cases step_spec ht with
  | submitSent | resend | retransmit => exact List.prefix_append _ _
  | _ => exact List.prefix_refl _

theorem sent_prefix_of_exec {s t : State κ} {as : List (Action κ)}
    (ht : (machine κ).exec s as = some t) : s.sent <+: t.sent :=
  Machine.exec_invariant (P := fun t : State κ => s.sent <+: t.sent)
    (fun _ _ _ hs ht => hs.trans (sent_prefix_step ht)) (List.prefix_refl _) ht

/-! ## Keys that wait for their first transmission -/

omit [DecidableEq κ] in
/-- The keys of the queued entries. -/
def waiting (entries : List (Entry κ)) : List κ :=
  (entries.filter fun e => decide (e.phase = .queued)).map Entry.key

omit [DecidableEq κ] in
theorem mem_waiting {key : κ} {entries : List (Entry κ)} :
    key ∈ waiting entries ↔ ∃ e ∈ entries, e.phase = .queued ∧ e.key = key := by
  simp only [waiting, List.mem_map, List.mem_filter, decide_eq_true_eq, and_assoc]

omit [DecidableEq κ] in
theorem waiting_sublist {entries entries' : List (Entry κ)} (h : entries'.Sublist entries) :
    waiting entries' ⊆ waiting entries :=
  ((h.filter _).map _).subset

/-- A mark takes no entry back to the queue. -/
theorem waiting_updateFirst_subset {key : κ} {f : Entry κ → Entry κ}
    (hf : ∀ e, (f e).phase ≠ .queued) (entries : List (Entry κ)) :
    waiting (updateFirst key f entries) ⊆ waiting entries := by
  intro k hk
  obtain ⟨e, he, hphase, hkey⟩ := mem_waiting.mp hk
  rcases mem_updateFirst he with hold | ⟨e₀, _, rfl⟩
  · exact mem_waiting.mpr ⟨e, hold, hphase, hkey⟩
  · exact absurd hphase (hf e₀)

/-- Where the keys differ, a marked key does not wait. -/
theorem not_mem_waiting_updateFirst {key : κ} {f : Entry κ → Entry κ}
    (hf : ∀ e, (f e).phase ≠ .queued) {entries : List (Entry κ)}
    (hkeys : (entries.map Entry.key).Nodup) : key ∉ waiting (updateFirst key f entries) := by
  induction entries with
  | nil => exact List.not_mem_nil
  | cons x xs ih =>
    rw [List.map_cons, List.nodup_cons] at hkeys
    intro hmem
    obtain ⟨e, he, hphase, hkey⟩ := mem_waiting.mp hmem
    rw [updateFirst] at he
    split at he
    · rename_i hx
      rcases List.mem_cons.mp he with rfl | hrest
      · exact hf x hphase
      · exact hkeys.1 (hx.trans hkey.symm ▸ List.mem_map_of_mem hrest)
    · rename_i hx
      rcases List.mem_cons.mp he with rfl | hrest
      · exact hx hkey
      · exact ih hkeys.2 (mem_waiting.mpr ⟨e, hrest, hphase, hkey⟩)

/-- An action that stores nothing and receives no receipt that keeps an entry. -/
def Drains (_ : State κ) : Action κ → Prop
  | .submit .. | .submitSent .. | .release _ => False
  | _ => True

/-- What waits after such actions has waited before, and none of it is released. -/
theorem drains_step {s t : State κ} {a : Action κ} (hq : Drains s a) (ht : step s a = some t) :
    waiting t.entries ⊆ waiting s.entries ∧
      ((∀ e ∈ s.entries, e.phase ≠ .released) → ∀ e ∈ t.entries, e.phase ≠ .released) := by
  have hsub : ∀ {fewer : List (Entry κ)}, fewer.Sublist s.entries →
      waiting fewer ⊆ waiting s.entries ∧
        ((∀ e ∈ s.entries, e.phase ≠ .released) → ∀ e ∈ fewer, e.phase ≠ .released) :=
    fun h => ⟨waiting_sublist h, fun hall e he => hall e (h.subset he)⟩
  have hmark : ∀ (key : κ) (f : Entry κ → Entry κ), (∀ e, (f e).phase = .transmitted) →
      waiting (updateFirst key f s.entries) ⊆ waiting s.entries ∧
        ((∀ e ∈ s.entries, e.phase ≠ .released) →
          ∀ e ∈ updateFirst key f s.entries, e.phase ≠ .released) := by
    intro key f hf
    refine ⟨waiting_updateFirst_subset (fun e => by simp [hf e]) s.entries, fun hall e he => ?_⟩
    rcases mem_updateFirst he with hold | ⟨e₀, _, rfl⟩
    · exact hall e hold
    · simp [hf e₀]
  cases step_spec ht with
  | submit | submitSent | release => exact hq.elim
  | mark key stamp => exact hmark key _ fun _ => rfl
  | resend e => exact hmark e.key _ fun _ => rfl
  | retransmit | link => exact hsub (.refl _)
  | expire => exact hsub List.filter_sublist
  | answer | discard => exact hsub List.eraseP_sublist
  | wipe => exact hsub (List.nil_sublist _)

/-- What a run of such actions keeps. -/
theorem drains_of_stepsMeet {s t : State κ} {as : List (Action κ)}
    (hq : (machine κ).StepsMeet Drains s as) (ht : (machine κ).exec s as = some t) :
    waiting t.entries ⊆ waiting s.entries ∧
      ((∀ e ∈ s.entries, e.phase ≠ .released) → ∀ e ∈ t.entries, e.phase ≠ .released) :=
  Machine.exec_invariant_of_stepsMeet (M := machine κ)
    (P := fun t : State κ => waiting t.entries ⊆ waiting s.entries ∧
      ((∀ e ∈ s.entries, e.phase ≠ .released) → ∀ e ∈ t.entries, e.phase ≠ .released))
    (fun _ _ _ h hq ht => ⟨List.Subset.trans (drains_step hq ht).1 h.1, fun hall =>
      (drains_step hq ht).2 (h.2 hall)⟩)
    ⟨List.Subset.refl _, id⟩ hq ht

/-- The entry of a key, as long as it is stored, is the first one, and marked as sent. -/
def Leads (key : κ) (entries : List (Entry κ)) : Prop :=
  key ∈ entries.map Entry.key → ∃ e ∈ entries.head?, e.key = key ∧ e.phase = .transmitted

instance (key : κ) (entries : List (Entry κ)) : Decidable (Leads key entries) :=
  inferInstanceAs (Decidable (_ → _))

omit [DecidableEq κ] in
theorem Leads.of_cons {key : κ} {e : Entry κ} {rest : List (Entry κ)} (hkey : e.key = key)
    (hphase : e.phase = .transmitted) : Leads key (e :: rest) :=
  fun _ => ⟨e, rfl, hkey, hphase⟩

omit [DecidableEq κ] in
theorem Leads.exists_cons {key : κ} {entries : List (Entry κ)} (h : Leads key entries)
    (hkey : key ∈ entries.map Entry.key) :
    ∃ e rest, entries = e :: rest ∧ e.key = key ∧ e.phase = .transmitted := by
  obtain ⟨e, he, hfirst⟩ := h hkey
  obtain ⟨rest, hentries⟩ := List.head?_eq_some_iff.mp he
  exact ⟨e, rest, hentries, hfirst⟩

omit [DecidableEq κ] in
theorem Leads.sublist {key : κ} {entries fewer : List (Entry κ)} (h : Leads key entries)
    (hkeys : (entries.map Entry.key).Nodup) (hsub : fewer.Sublist entries) : Leads key fewer := by
  intro hmem
  obtain ⟨e, rest, rfl, hkey, hphase⟩ := h.exists_cons ((hsub.map _).subset hmem)
  rw [List.map_cons, List.nodup_cons] at hkeys
  cases hsub with
  | cons _ hrest => exact absurd ((hrest.map _).subset hmem) (hkey ▸ hkeys.1)
  | cons_cons _ hrest => exact ⟨e, rfl, hkey, hphase⟩

omit [DecidableEq κ] in
theorem Leads.append {key : κ} {entries : List (Entry κ)} (h : Leads key entries)
    (hkey : key ∈ entries.map Entry.key) (more : List (Entry κ)) : Leads key (entries ++ more) := by
  obtain ⟨e, rest, rfl, he, hphase⟩ := h.exists_cons hkey
  exact .of_cons he hphase

theorem Leads.updateFirst {key other : κ} {f : Entry κ → Entry κ} {entries : List (Entry κ)}
    (h : Leads key entries) (hkey : ∀ e, (f e).key = e.key)
    (hphase : ∀ e, (f e).phase = .transmitted) : Leads key (updateFirst other f entries) := by
  intro hmem
  rw [map_updateFirst other f Entry.key hkey] at hmem
  obtain ⟨e, rest, rfl, he, hsent⟩ := h.exists_cons hmem
  unfold StoreForward.updateFirst
  split
  · exact ⟨f e, rfl, (hkey e).trans he, hphase e⟩
  · exact ⟨e, rfl, he, hsent⟩

/-- Where nothing is stored, the first entry stays the first until it is removed. -/
theorem leads_step {key : κ} {s t : State κ} {a : Action κ}
    (h : (s.entries.map Entry.key).Nodup ∧ Leads key s.entries) (hq : Drains s a)
    (ht : step s a = some t) : (t.entries.map Entry.key).Nodup ∧ Leads key t.entries := by
  have hsub : ∀ {fewer : List (Entry κ)}, fewer.Sublist s.entries →
      (fewer.map Entry.key).Nodup ∧ Leads key fewer :=
    fun hfewer => ⟨h.1.sublist (hfewer.map _), h.2.sublist h.1 hfewer⟩
  have hmark : ∀ (other : κ) (f : Entry κ → Entry κ), (∀ e, (f e).key = e.key) →
      (∀ e, (f e).phase = .transmitted) →
      ((updateFirst other f s.entries).map Entry.key).Nodup ∧
        Leads key (updateFirst other f s.entries) := by
    intro other f hkey hphase
    rw [map_updateFirst other f Entry.key hkey]
    exact ⟨h.1, h.2.updateFirst hkey hphase⟩
  cases step_spec ht with
  | submit | submitSent | release => exact hq.elim
  | mark other stamp => exact hmark other _ (fun _ => rfl) fun _ => rfl
  | resend e => exact hmark e.key _ (fun _ => rfl) fun _ => rfl
  | retransmit | link => exact hsub (.refl _)
  | expire => exact hsub List.filter_sublist
  | answer | discard => exact hsub List.eraseP_sublist
  | wipe => exact hsub (List.nil_sublist _)

theorem leads_of_stepsMeet {key : κ} {s t : State κ} {as : List (Action κ)}
    (hkeys : (s.entries.map Entry.key).Nodup) (h : Leads key s.entries)
    (hq : (machine κ).StepsMeet Drains s as) (ht : (machine κ).exec s as = some t) :
    Leads key t.entries :=
  (Machine.exec_invariant_of_stepsMeet (M := machine κ)
    (P := fun t : State κ => (t.entries.map Entry.key).Nodup ∧ Leads key t.entries)
    (fun _ _ _ h hq ht => leads_step h hq ht) ⟨hkeys, h⟩ hq ht).2

end IndustrialIot.StoreForward
