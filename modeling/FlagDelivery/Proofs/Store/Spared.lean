import FlagDelivery.Proofs.Store.BrokenOff
import FlagDelivery.Proofs.Store.LocalCopy
import Mathlib.Logic.Relation

/-!
# Backends that are spared

A read is an operation of a backend too, and something may befall the backend before it, but the read itself changes
nothing: the backend `Disturbed.Lapses`. A layered store passes a write on only if its mode allows it and the data is to
be written through. So a call that is not persisted, or any call of a store that may only read, spares the backend
beneath, `Stack.spares_call`, and so does every check of the shared store, `Stack.spares_check`. Whatever is called,
what befalls the backend stays what it was, `Stack.steady_call`; if that is nothing but outages, a backend that is
spared holds what it held, `Stack.Holds.of_spares`.
-/

namespace FlagDelivery

namespace Disturbed

variable {β α : Type}

/-- The backend after an operation that changes nothing: only what comes before the operation has happened. -/
def lapse (d : Disturbed β) : Disturbed β := ⟨d.before d.operations d.backend, d.operations + 1, d.before⟩

/-- Operations that change nothing lead from one moment to another. -/
def Lapses : Disturbed β → Disturbed β → Prop := Relation.ReflTransGen fun d d' => d' = d.lapse

/-- What comes before one operation is a lapse. -/
theorem lapses_lapse (d : Disturbed β) : d.Lapses d.lapse := .single rfl

/-- An operation that by itself leaves every backend as it is. -/
theorem disturb_snd {op : StoreM β α} (hop : ∀ b, (op.run b).2 = b) (d : Disturbed β) : ((disturb op).run d).2 = d.lapse :=
  congrArg (Disturbed.mk · (d.operations + 1) d.before) (hop _)

variable (d : Disturbed SharedMemory)

/-- A look-up changes nothing on the backend. -/
theorem get?_snd (space key : String) :
    ((Backend.get? space key : StoreM (Disturbed SharedMemory) (Option String)).run d).2 = d.lapse := by
  refine disturb_snd (fun b => ?_) d
  rw [SharedMemory.get?_run]
  split <;> rfl

theorem all_snd (space : String) :
    ((Backend.all space : StoreM (Disturbed SharedMemory) (List (String × String))).run d).2 = d.lapse := by
  refine disturb_snd (fun b => ?_) d
  rw [SharedMemory.all_run]
  split <;> rfl

theorem marked_snd : ((Backend.marked : StoreM (Disturbed SharedMemory) Bool).run d).2 = d.lapse := by
  refine disturb_snd (fun b => ?_) d
  rw [SharedMemory.marked_run]
  split <;> rfl

/-- Where nothing but outages befalls a backend, it holds what it held. -/
theorem Lapses.same {d d' : Disturbed SharedMemory} (h : d.Lapses d')
    (hbefore : ∀ n (b : SharedMemory), b.Same (d.before n b)) :
    d.backend.Same d'.backend := by
  have hall : d.backend.Same d'.backend ∧ d'.before = d.before := by
    induction h with
    | refl => exact ⟨⟨_, rfl⟩, rfl⟩
    | @tail mid _ _ hlast ih =>
      obtain ⟨hsame, hb⟩ := ih
      subst hlast
      refine ⟨hsame.trans ?_, hb⟩
      rw [lapse, hb]
      exact hbefore mid.operations mid.backend
  exact hall.1

end Disturbed

/-- A guarded store over a backend in memory to which something may be done before each operation. -/
abbrev Exposed := Guarded (Disturbed SharedMemory)

namespace Guarded

/-! ## Reads of a guarded store -/

section

variable (s : Exposed) (kind : Kind) (key : String)

/-- Looking up an item makes one operation, which changes nothing. -/
theorem backend_find? :
    ((SharedStore.find? kind key : StoreM Exposed (Option Stored)).run s).2.backend = s.backend.lapse := by
  refine (congrArg Guarded.backend (StoreM.bind_run_snd (fun found s => ?_) _ s)).trans (s.backend.get?_snd kind.space key)
  cases found with
  | none => rfl
  | some text => rw [StoreM.map_run, StoreM.ofExcept_run]

/-- Reading all items of a kind makes one operation, which changes nothing. -/
theorem backend_items :
    ((SharedStore.items kind : StoreM Exposed (List (String × Stored))).run s).2.backend = s.backend.lapse :=
  (congrArg Guarded.backend (StoreM.bind_run_snd (fun _ _ => rfl) _ s)).trans (s.backend.all_snd kind.space)

/-- Asking whether the store answers makes one operation, which changes nothing. -/
theorem backend_answers : ((SharedStore.answers : StateM Exposed Bool) s).2.backend = s.backend.lapse := s.backend.marked_snd

/-- To ask whether the store was filled is to look for the mark. -/
theorem isFilled_snd {β : Type} [Backend β] (s : Guarded β) : ((SharedStore.isFilled : StateM (Guarded β) Bool) s).2 =
    ((onBackend Backend.marked : StoreM (Guarded β) Bool).run s).2 := by
  simp only [SharedStore.isFilled, StoreM.bind_apply]
  cases ((onBackend Backend.marked : StoreM (Guarded β) Bool).run s).1 <;> rfl

theorem backend_isFilled : ((SharedStore.isFilled : StateM Exposed Bool) s).2.backend = s.backend.lapse :=
  (congrArg Guarded.backend (isFilled_snd s)).trans s.backend.marked_snd

end

/-! ## Whatever is done with a guarded store -/

variable {β α : Type} {before : Nat → β → β}

/-- No other writer acts during an attempt, and what comes before the operations of the backend is as told. -/
structure Steady (before : Nat → β → β) (s : Guarded (Disturbed β)) : Prop where
  rival : s.rival = fun _ b => b
  before : s.backend.before = before

/-- An operation after which this is so if it was before. -/
abbrev Steadily (before : Nat → β → β) (op : StoreM (Guarded (Disturbed β)) α) : Prop :=
  op.Leads fun s s' => s.Steady before → s'.Steady before

/-- A result that is there keeps a store steady. -/
theorem steadily_pure (a : α) : Steadily before (pure a : StoreM (Guarded (Disturbed β)) α) := fun _ => id

/-- Two operations that each keep a store steady do so one after the other. -/
theorem Steadily.bind {γ : Type} {op : StoreM (Guarded (Disturbed β)) α} {f : α → StoreM (Guarded (Disturbed β)) γ}
    (h : Steadily before op) (hf : ∀ a, Steadily before (f a)) : Steadily before (op >>= f) :=
  StoreM.Leads.bind (R := fun s s' => Steady before s → Steady before s') (fun h h' => h' ∘ h) h hf

/-- Every operation of the backend keeps a store steady. -/
theorem steadily_disturb (op : StoreM β α) : Steadily before (onBackend (Disturbed.disturb op)) :=
  fun _ h => ⟨h.rival, h.before⟩

/-- The pause of an attempt, in which nobody acts, keeps a store steady. -/
theorem steadily_interlude (space key : String) :
    Steadily before (interlude space key : StoreM (Guarded (Disturbed β)) Unit) := by
  intro s h
  refine ⟨h.rival, ?_⟩
  have hsame : s.rival s.attempts.length s.backend = s.backend := by rw [h.rival]
  exact (congrArg Disturbed.before hsame).trans h.before

variable [Backend β]

/-- An attempt to write keeps a store steady. -/
theorem steadily_attempt (space key : String) (item : Stored) :
    Steadily before (attempt space key item : StoreM (Guarded (Disturbed β)) (Option Bool)) := by
  refine (steadily_disturb (Backend.watch space)).bind fun revision => ?_
  refine (steadily_interlude space key).bind fun _ => ?_
  refine (steadily_disturb (Backend.get? space key)).bind fun held => ?_
  refine Steadily.bind (fun _ => id) fun newer => ?_
  cases newer with
  | false => exact steadily_pure (some false)
  | true =>
    refine (steadily_disturb (Backend.commit revision space key (item.textFor key))).bind fun written => ?_
    cases written with
    | false => exact steadily_pure none
    | true => exact steadily_pure (some true)

/-- Attempts one after the other keep a store steady. -/
theorem steadily_attemptFrom (space key : String) (item : Stored) (fuel made : Nat) :
    Steadily before (attemptFrom space key item fuel made : StoreM (Guarded (Disturbed β)) Bool) := by
  induction fuel generalizing made with
  | zero => exact fun _ => id
  | succ fuel ih =>
    refine (steadily_attempt space key item).bind fun outcome => ?_
    cases outcome with
    | some written => exact steadily_pure written
    | none =>
      refine Steadily.bind (fun _ => id) fun s => ?_
      split
      · exact ih (made + 1)
      · exact fun _ => id

/-- A guarded write keeps a store steady. -/
theorem steadily_upsert (kind : Kind) (key : String) (item : Stored) :
    Steadily before (upsert kind key item : StoreM (Guarded (Disturbed β)) Bool) :=
  Steadily.bind (fun _ => id) fun s => steadily_attemptFrom kind.space key item (attemptLimit s.retry) 0

end Guarded

namespace Attached

/-! ## Calls and checks of an attached store -/

variable {π : Type} [SharedStore π] (site : Site (Attached π))

/-- A call leads the shared store to a related one if all that it asks of that store does. -/
theorem related_call {R : π → π → Prop} (hrefl : ∀ p, R p p) {c : Access} (hasked : (asked c).Leads R)
    (hfilled : ∀ p, R p ((SharedStore.isFilled : StateM π Bool) p).2) :
    R site.store.shared ((c.run : StoreM (Site (Attached π)) Unit).run site).2.store.shared := by
  by_cases hc : c = .isInitialized
  · subst hc
    have hrun : ((Access.isInitialized.run : StoreM (Site (Attached π)) Unit).run site).2 = (isInitialized site).2 := rfl
    rw [hrun]
    obtain h | h := shared_isInitialized site <;> rw [h]
    · exact hrefl _
    · exact hfilled _
  · rw [shared_call site hc]
    exact hasked _

/-- A call that writes nothing asks for nothing but a read. -/
theorem lapses_asked {c : Access} (hc : c.request? = none) :
    (asked c : StoreM Exposed Unit).Leads fun p p' => p.backend.Lapses p'.backend := by
  cases c with
  | write r => cases hc
  | find? kind key => exact .discard fun p => (Guarded.backend_find? p kind key).symm ▸ Disturbed.lapses_lapse _
  | items kind => exact .discard fun p => (Guarded.backend_items p kind).symm ▸ Disturbed.lapses_lapse _
  | isInitialized => exact fun _ => .refl

section

variable {β : Type} [Backend β] {before : Nat → β → β}

theorem steadily_askAll (es : List (Kind × String × Item)) :
    Guarded.Steadily before (askAll es : StoreM (Guarded (Disturbed β)) Unit) := by
  induction es with
  | nil => exact fun _ => id
  | cons e es ih => exact .bind (.discard (Guarded.steadily_upsert _ _ _)) fun _ => ih

/-- Whatever a call asks of the shared store keeps it steady. -/
theorem steadily_asked (c : Access) : Guarded.Steadily before (asked c : StoreM (Guarded (Disturbed β)) Unit) := by
  cases c with
  | write r =>
    cases r with
    | init d => exact Guarded.steadily_disturb (Backend.replaceAll _)
    | apply b =>
      rw [asked]
      cases b.extent with
      | full => exact Guarded.steadily_disturb (Backend.replaceAll _)
      | incremental => exact steadily_askAll b.data.entries
      | none => exact fun _ => id
    | upsert kind key item => exact .discard (Guarded.steadily_upsert kind key (.ofItem item))
  | find? kind key =>
    refine .discard ((Guarded.steadily_disturb (Backend.get? kind.space key)).bind fun found => ?_)
    cases found with
    | none => exact fun _ => id
    | some text =>
      intro s h
      rwa [StoreM.map_run, StoreM.ofExcept_run]
  | items kind => exact .discard ((Guarded.steadily_disturb (Backend.all kind.space)).bind fun _ _ => id)
  | isInitialized => exact fun _ => id

end

end Attached

namespace Stack

/-! ## Calls and checks of a stack -/

variable {β : Type} {R : Guarded β → Guarded β → Prop}

/-- From one moment of a stack to another the mode has stayed, and the shared store has come to be one that is related
to what it was. -/
structure Relates (R : Guarded β → Guarded β → Prop) (s s' : Stack β) : Prop where
  mode : s'.store.mode = s.store.mode
  shared : ∀ a, s.store.beneath = some a → ∃ a', s'.store.beneath = some a' ∧ R a.shared a'.shared

theorem Relates.refl (hrefl : ∀ p, R p p) (s : Stack β) : s.Relates R s := ⟨rfl, fun a ha => ⟨a, ha, hrefl _⟩⟩

theorem Relates.trans (htrans : ∀ {p p' p''}, R p p' → R p' p'' → R p p'') {s s' s'' : Stack β} (h : s.Relates R s')
    (h' : s'.Relates R s'') : s.Relates R s'' := by
  refine ⟨h'.mode.trans h.mode, fun a ha => ?_⟩
  obtain ⟨a', ha', hrelated⟩ := h.shared a ha
  obtain ⟨a'', ha'', hrelated'⟩ := h'.shared a' ha'
  exact ⟨a'', ha'', htrans hrelated hrelated'⟩

variable [Backend β] {s : Stack β}

/-- A call relates a stack as what it asks of the shared store does. -/
theorem relates_call (hrefl : ∀ p, R p p) {c : Access}
    (h : ∀ a, s.store.passes c = some a → (Attached.asked c : StoreM (Guarded β) Unit).Leads R)
    (hfilled : ∀ p, R p ((SharedStore.isFilled : StateM (Guarded β) Bool) p).2) :
    s.Relates R ((c.run : StoreM (Stack β) Unit).run s).2 := by
  have hmode : (s.store.kept c).mode = s.store.mode := by cases c <;> rfl
  have hbeneath : (s.store.kept c).beneath = s.store.beneath := by cases c <;> rfl
  rw [Layered.call_run]
  cases hp : s.store.passes c with
  | none => exact ⟨hmode, fun a ha => ⟨a, hbeneath.trans ha, hrefl _⟩⟩
  | some a =>
    refine ⟨hmode, fun a' ha' => ⟨_, rfl, ?_⟩⟩
    obtain rfl : a = a' := Option.some.inj ((Layered.beneath_of_passes hp).symm.trans ha')
    exact Attached.related_call ⟨a, s.board⟩ hrefl (h a hp) hfilled

omit [Backend β] in
/-- An operation on the attached store relates a stack as what it does to the shared one. -/
theorem relates_under (hrefl : ∀ p, R p p) {α : Type} {op : StateM (Site (Attached (Guarded β))) α}
    (hop : ∀ site : Site (Attached (Guarded β)), R site.store.shared (op site).2.store.shared) :
    s.Relates R (Tiers.under op s) := by
  unfold Tiers.under
  cases hb : s.store.beneath with
  | none => exact .refl hrefl s
  | some a =>
    refine ⟨rfl, fun a' ha' => ⟨_, rfl, ?_⟩⟩
    obtain rfl : a = a' := Option.some.inj (hb.symm.trans ha')
    exact hop ⟨a, s.board⟩

theorem relates_check (hrefl : ∀ p, R p p) (hanswers : ∀ p, R p ((SharedStore.answers : StateM (Guarded β) Bool) p).2)
    {i : Incident (Guarded β)} (h : i.Checks) : s.Relates R (Tiers.step s i) := by
  cases i with
  | recover => exact relates_under hrefl fun site => (Attached.shared_recover site).symm ▸ hanswers _
  | check => exact relates_under hrefl fun site => (Attached.shared_check site).symm ▸ hanswers _
  | settle =>
    refine relates_under hrefl fun site => ?_
    obtain h | h := Attached.shared_settle site <;> rw [h]
    · exact hrefl _
    · exact hanswers _
  | _ => exact h.elim

/-! ## What is spared -/

/-- The mode of a stack has stayed, and nothing was written to the backend. -/
abbrev Spares : Stack (Disturbed SharedMemory) → Stack (Disturbed SharedMemory) → Prop :=
  Relates fun p p' => p.backend.Lapses p'.backend

/-- The backend is connected or cut off before each operation. -/
abbrev outages (reachable : Nat → Bool) : Nat → SharedMemory → SharedMemory := fun n b => b.setReachable (reachable n)

/-- The stack is over a backend that nothing but outages befalls. -/
def Steady (s : Stack (Disturbed SharedMemory)) (reachable : Nat → Bool) : Prop :=
  ∃ a, s.store.beneath = some a ∧ Guarded.Steady (outages reachable) a.shared

/-- The backend beneath holds what is held here: the same texts, each space at the same revision, and the same mark. It
may be reached or not. -/
def Holds (b : SharedMemory) (s : Stack (Disturbed SharedMemory)) : Prop :=
  ∃ a, s.store.beneath = some a ∧ b.Same a.shared.backend.backend

variable {s s' : Stack (Disturbed SharedMemory)}

/-- A call writes to the backend only if it is persisted and the mode allows it. -/
theorem spares_call {c : Access} (h : s.store.mode = .readOnly ∨ ¬c.Persisted) :
    s.Spares ((c.run : StoreM (Stack (Disturbed SharedMemory)) Unit).run s).2 := by
  refine relates_call (fun _ => .refl) (fun a ha => Attached.lapses_asked ?_)
    fun p => (Guarded.backend_isFilled p).symm ▸ Disturbed.lapses_lapse _
  cases c with
  | write r =>
    obtain ⟨-, hwrites, hpersisted⟩ := Layered.beneath_of_passes_write ha
    rcases h with h | h
    · cases h.symm.trans hwrites
    · exact absurd hpersisted h
  | _ => rfl

/-- A check spares the backend. -/
theorem spares_check {i : Incident Exposed} (h : i.Checks) : s.Spares (Tiers.step s i) :=
  relates_check (fun _ => .refl) (fun p => (Guarded.backend_answers p).symm ▸ Disturbed.lapses_lapse _) h

section

variable {reachable : Nat → Bool}

/-- A stack stays steady if the shared store does. -/
theorem Steady.of_relates (h : s.Steady reachable)
    (hrelates : s.Relates (fun p p' => Guarded.Steady (outages reachable) p → Guarded.Steady (outages reachable) p') s') :
    s'.Steady reachable := by
  obtain ⟨a, ha, hsteady⟩ := h
  obtain ⟨a', ha', hrelated⟩ := hrelates.shared a ha
  exact ⟨a', ha', hrelated hsteady⟩

/-- Whatever is called, no more befalls the backend than did before. -/
theorem steady_call (h : s.Steady reachable) (c : Access) :
    Steady ((c.run : StoreM (Stack (Disturbed SharedMemory)) Unit).run s).2 reachable := by
  refine h.of_relates (relates_call (fun _ => id) (fun a ha => Attached.steadily_asked c) fun p hp => ?_)
  rw [Guarded.isFilled_snd]
  exact ⟨hp.rival, hp.before⟩

theorem steady_check (h : s.Steady reachable) {i : Incident Exposed} (hi : i.Checks) : Steady (Tiers.step s i) reachable :=
  h.of_relates (relates_check (fun _ => id) (fun _ hp => ⟨hp.rival, hp.before⟩) hi)

/-- A backend that is spared holds what it held, as long as nothing but outages befalls it. -/
theorem Holds.of_spares {b : SharedMemory} (h : s.Holds b) (hsteady : s.Steady reachable) (hspares : s.Spares s') :
    s'.Holds b := by
  obtain ⟨a, ha, hsame⟩ := h
  obtain ⟨a', ha', hlapses⟩ := hspares.shared a ha
  obtain ⟨a'', ha'', hs⟩ := hsteady
  obtain rfl : a = a'' := Option.some.inj (ha.symm.trans ha'')
  refine ⟨a', ha', hsame.trans (hlapses.same fun n c => ?_)⟩
  rw [hs.before]
  exact ⟨_, rfl⟩

end

end Stack

end FlagDelivery
