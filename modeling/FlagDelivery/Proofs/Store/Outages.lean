import FlagDelivery.Proofs.Store.Agreement
import FlagDelivery.Store.Disturbed

/-!
# Layered stores over a backend with outages

A layered store writes through to a backend that can be reached at some of its operations and not at others. What it
makes of a `Turn`, a call or a check, is what a mirror makes of some moves, so that memory and backend agree whenever
its board says so: `Mirror.backend_agrees`.
-/

namespace FlagDelivery

namespace Disturbed

/-- A backend in memory that can be reached at its operations as told. -/
def withOutages (b : SharedMemory) (reachable : Nat → Bool) : Disturbed SharedMemory :=
  .ofBackend b fun n b => b.setReachable (reachable n)

variable {β : Type} [Backend β]

/-- An operation of a writer is one on what the backend has become. -/
theorem act_disturbed (w : Writer) (d : Disturbed β) :
    ∃ b, (b = d.backend ∨ b = d.before d.operations d.backend) ∧ ∃ n,
      w.act d = ((w.act b).1, (⟨(w.act b).2, n, d.before⟩ : Disturbed β)) := by
  cases hs : w.stage with
  | watching =>
    refine ⟨_, .inr rfl, d.operations + 1, ?_⟩
    rw [Writer.act_watching hs, Writer.act_watching hs]
    rfl
  | reading revision =>
    refine ⟨_, .inr rfl, d.operations + 1, ?_⟩
    rw [Writer.act_reading hs, Writer.act_reading hs]
    rfl
  | committing revision held =>
    refine ⟨_, .inr rfl, d.operations + 1, ?_⟩
    rw [Writer.act_committing hs, Writer.act_committing hs]
    rfl
  | done result =>
    refine ⟨_, .inl rfl, d.operations, ?_⟩
    rw [Writer.act_done hs, Writer.act_done hs]

end Disturbed

namespace Mirror

/-- The mirror over another backend. -/
def onto {β γ : Type} (m : Mirror β) (b : γ) : Mirror γ := ⟨m.memory, b, m.retry, m.board, m.work, m.filled, m.missed⟩

/-- The mirror over what the backend has become. -/
def bare {β : Type} (m : Mirror (Disturbed β)) : Mirror β := m.onto m.backend.backend

/-- A mirror takes the result of a write in the same way with and without outages. -/
theorem bare_wrote {β : Type} (m : Mirror (Disturbed β)) (w : Writer) (rest : Option (List (Kind × String × Item))) :
    (m.wrote w rest).bare = m.bare.wrote w rest ∧ (m.wrote w rest).backend = m.backend := by
  unfold wrote failed
  rcases w.stage with _ | _ | _ | ⟨_ | _⟩ <;> exact ⟨rfl, rfl⟩

/-- A mirror begins a call in the same way with and without outages. -/
theorem bare_call {β : Type} (m : Mirror (Disturbed β)) (r : Request) :
    (m.call r).bare = m.bare.call r ∧ (m.call r).backend = m.backend := by
  cases r <;> exact ⟨rfl, rfl⟩

variable {β : Type} [Backend β]

/-- The next operation of a call is one on what the backend has become. -/
theorem go_disturbed (m : Mirror (Disturbed β)) :
    ∃ b, (b = m.backend.backend ∨ b = m.backend.before m.backend.operations m.backend.backend) ∧
      m.go.bare = (m.onto b).go ∧ m.go.backend.before = m.backend.before := by
  have hwork : ∀ b : β, (m.onto b).work = m.work := fun _ => rfl
  cases hw : m.work with
  | idle answer =>
    refine ⟨_, .inl rfl, ?_⟩
    rw [go_idle hw, go_idle ((hwork _).trans hw)]
    exact ⟨rfl, rfl⟩
  | fill texts =>
    refine ⟨_, .inr rfl, ?_⟩
    have hrun : (Backend.replaceAll texts : StoreM (Disturbed β) Unit).run m.backend =
        let out := (Backend.replaceAll texts : StoreM β Unit).run (m.backend.before m.backend.operations m.backend.backend)
        (out.1, ⟨out.2, m.backend.operations + 1, m.backend.before⟩) := rfl
    rw [go_fill hw, hrun, go_fill ((hwork _).trans hw)]
    simp only [onto]
    rcases (Backend.replaceAll texts : StoreM β Unit).run (m.backend.before m.backend.operations m.backend.backend)
      with ⟨_ | _, b⟩ <;> exact ⟨rfl, rfl⟩
  | clear =>
    refine ⟨_, .inl rfl, ?_⟩
    rw [go_clear hw, go_clear ((hwork _).trans hw)]
    exact ⟨rfl, rfl⟩
  | write w rest =>
    obtain ⟨b, hb, n, hact⟩ := Disturbed.act_disturbed w m.backend
    refine ⟨b, hb, ?_⟩
    rw [go_write hw, hact, go_write ((hwork _).trans hw)]
    obtain ⟨hbare, hbackend⟩ := bare_wrote { m with backend := ⟨(w.act b).2, n, m.backend.before⟩ } (w.act b).1 rest
    exact ⟨hbare, by rw [hbackend]⟩
  | mark e =>
    refine ⟨_, .inl rfl, ?_⟩
    rw [go_mark hw, go_mark ((hwork _).trans hw)]
    exact ⟨rfl, rfl⟩

/-- The start of a recovery asks the backend as the outage before it leaves it. -/
theorem recover_disturbed (m : Mirror (Disturbed β)) :
    m.recover.bare = (m.onto (m.backend.before m.backend.operations m.backend.backend)).recover ∧
    m.recover.backend.before = m.backend.before := by
  have hrun : (Backend.marked : StoreM (Disturbed β) Bool).run m.backend =
      let out := (Backend.marked : StoreM β Bool).run (m.backend.before m.backend.operations m.backend.backend)
      (out.1, ⟨out.2, m.backend.operations + 1, m.backend.before⟩) := rfl
  simp only [recover, hrun, onto]
  rcases (Backend.marked : StoreM β Bool).run (m.backend.before m.backend.operations m.backend.backend)
    with ⟨_ | _, b⟩ <;> exact ⟨rfl, rfl⟩

/-- A check asks the backend as the outage before it leaves it. -/
theorem check_disturbed (m : Mirror (Disturbed β)) :
    m.check.bare = (m.onto (m.backend.before m.backend.operations m.backend.backend)).check ∧
    m.check.backend.before = m.backend.before := by
  have hrun : (Backend.marked : StoreM (Disturbed β) Bool).run m.backend =
      let out := (Backend.marked : StoreM β Bool).run (m.backend.before m.backend.operations m.backend.backend)
      (out.1, ⟨out.2, m.backend.operations + 1, m.backend.before⟩) := rfl
  simp only [check, hrun, onto]
  rcases (Backend.marked : StoreM β Bool).run (m.backend.before m.backend.operations m.backend.backend)
    with ⟨_ | _, b⟩ <;> exact ⟨rfl, rfl⟩

/-! ## Turns are made of moves -/

/-- What has been made of a mirror whose backend has outages is made by moves. -/
structure Follows (first : Mirror SharedMemory) (reachable : Nat → Bool) (m : Mirror (Disturbed SharedMemory)) : Prop where
  before : m.backend.before = fun n b => b.setReachable (reachable n)
  moves : ∃ moves, m.bare = first.run moves

namespace Follows

variable {first : Mirror SharedMemory} {reachable : Nat → Bool} {m m' : Mirror (Disturbed SharedMemory)}

/-- A move on what the backend has become. -/
theorem step (h : Follows first reachable m) (move : Move) {b : SharedMemory}
    (hb : b = m.backend.backend ∨ b = m.backend.before m.backend.operations m.backend.backend)
    (hm : m'.bare = (m.onto b).step move)
    (hbefore : m'.backend.before = m.backend.before) : Follows first reachable m' := by
  refine ⟨hbefore.trans h.before, ?_⟩
  obtain ⟨moves, hmoves⟩ := h.moves
  rcases hb with rfl | rfl
  · refine ⟨moves ++ [move], ?_⟩
    rw [hm, Mirror.run, List.foldl_append]
    exact congrArg (Mirror.step · move) hmoves
  · refine ⟨moves ++ [.reach (reachable m.backend.operations), move], ?_⟩
    rw [hm, Mirror.run, List.foldl_append, h.before]
    exact congrArg (fun m => Mirror.step (Mirror.step m (.reach (reachable _))) move) hmoves

/-- The next operation of the work under way is made by moves. -/
theorem go (h : Follows first reachable m) : Follows first reachable m.go := by
  obtain ⟨b, hb, hm, hbefore⟩ := go_disturbed m
  exact h.step .go hb hm hbefore

theorem goes (h : Follows first reachable m) (n : Nat) : Follows first reachable (Mirror.goes n m) := by
  induction n generalizing m with
  | zero => exact h
  | succ n ih => exact ih h.go

/-- The beginning of a call is made by moves. -/
theorem call (h : Follows first reachable m) {answer : Option (Except StoreError Bool)} (hw : m.work = .idle answer)
    {r : Request} (hr : r.Sound) : Follows first reachable (m.call r) := by
  obtain ⟨hbare, hbackend⟩ := bare_call m r
  refine h.step (.call r hr) (.inl rfl) ?_ (by rw [hbackend])
  have hstep : m.bare.step (.call r hr) = m.bare.call r := by
    have hb : m.bare.work = .idle answer := hw
    simp only [Mirror.step, hb]
  exact hbare.trans hstep.symm

/-- The start of a recovery is made by moves. -/
theorem recover (h : Follows first reachable m) : Follows first reachable m.recover := by
  obtain ⟨hm, hbefore⟩ := recover_disturbed m
  exact h.step .recover (.inr rfl) hm hbefore

theorem check (h : Follows first reachable m) : Follows first reachable m.check := by
  obtain ⟨hm, hbefore⟩ := check_disturbed m
  exact h.step .check (.inr rfl) hm hbefore

end Follows

end Mirror

/-! ## Layered stores -/

/-- What is done with a layered store: a call, or a check of the store beneath. -/
inductive Turn where
  | call (r : Request) (sound : r.Sound)
  | recover
  | check

/-- A layered store that writes through to a backend. -/
abbrev Stack (β : Type) := Site (Layered (Attached (Guarded β)))

namespace Stack

variable {β : Type}

/-- The store over a backend, before anything is done with it. -/
def ofBackend (b : β) (retry recovery : Policy) : Stack β :=
  ⟨.above (.ofShared (.ofBackend b retry) recovery) .readWrite, .initial true⟩

variable [Backend β]

/-- One turn. -/
def turn (s : Stack β) : Turn → Stack β
  | .call r _ => (r.run.run s).2
  | .recover => match s.store.beneath with
    | some a => (Layered.onBeneath a Attached.recover s).2
    | none => s
  | .check => match s.store.beneath with
    | some a => (Layered.onBeneath a Attached.check s).2
    | none => s

/-- Turns one after the other. -/
def turns (s : Stack β) (ts : List Turn) : Stack β := ts.foldl turn s

/-- Some call that replaces all data was accepted. -/
def Filled (s : Stack β) (ts : List Turn) : Prop :=
  ∃ before r sound after, ts = before ++ .call r sound :: after ∧ r.Fills ∧ (r.run.run (s.turns before)).1 = .ok true

end Stack

/-- A call whose data can be written through is to be persisted. -/
theorem Request.Sound.persisted {r : Request} (h : r.Sound) : r.Persisted := by
  cases r with
  | init d => exact h.1
  | apply b => exact h.1
  | upsert kind key item => trivial

namespace Mirror

/-- A mirror that shows a layered store between turns. -/
structure Reflects (first : Mirror SharedMemory) (reachable : Nat → Bool) (m : Mirror (Disturbed SharedMemory))
    (s : Stack (Disturbed SharedMemory)) : Prop where
  shows : m.Shows s
  idle : ∃ answer, m.work = .idle answer
  follows : Follows first reachable m

variable {first : Mirror SharedMemory} {reachable : Nat → Bool} {m : Mirror (Disturbed SharedMemory)}
  {s : Stack (Disturbed SharedMemory)}

/-- A new mirror shows a new store over the same backend, with the same outages to come. -/
theorem reflects_ofBackend (b : SharedMemory) (retry recovery : Policy) (reachable : Nat → Bool) :
    Reflects (.ofBackend b retry) reachable (.ofBackend (.withOutages b reachable) retry)
      (.ofBackend (.withOutages b reachable) retry recovery) :=
  ⟨⟨rfl, rfl, _, rfl, [], recovery, false, rfl⟩, ⟨none, rfl⟩, rfl, [], rfl⟩

/-! ### All data stays replaced -/

section

variable {β : Type} {m : Mirror β}

/-- The beginning of a call does not tell whether all data was replaced. -/
theorem filled_call (m : Mirror β) (r : Request) : (m.call r).filled = m.filled := by cases r <;> rfl

theorem filled_wrote (m : Mirror β) (w : Writer) (rest : Option (List (Kind × String × Item))) :
    (m.wrote w rest).filled = m.filled := by
  unfold wrote
  split <;> rfl

variable [Backend β]

/-- Once the mirror knows that all data was replaced, no operation makes it forget this. -/
theorem filled_go (h : m.filled = true) : m.go.filled = true := by
  cases hw : m.work with
  | idle answer => rwa [go_idle hw]
  | fill texts =>
    rw [go_fill hw]
    split <;> exact h
  | clear => rw [go_clear hw]
  | write w rest => rwa [go_write hw, filled_wrote]
  | mark e => rwa [go_mark hw]

theorem filled_goes (h : m.filled = true) (n : Nat) : (goes n m).filled = true := by
  induction n generalizing m with
  | zero => exact h
  | succ n ih => exact ih (filled_go h)

end

/-! ### Turns -/

/-- A turn is made of moves. -/
theorem Reflects.turn (h : Reflects first reachable m s) (t : Turn) :
    ∃ m', Reflects first reachable m' (s.turn t) ∧ (m.filled = true → m'.filled = true) := by
  obtain ⟨answer, hidle⟩ := h.idle
  cases t with
  | call r hr =>
    obtain ⟨n, hn⟩ := answers_call h.shows hr.persisted
    exact ⟨_, ⟨hn.shows, ⟨_, hn.work⟩, (h.follows.call hidle hr).goes n⟩, fun hf => filled_goes (by rwa [filled_call]) n⟩
  | recover =>
    obtain ⟨hmemory, hmode, a, ha, hshows⟩ := h.shows
    obtain ⟨hmem, hwork, hfilled⟩ := recover_frame m
    have hturn : s.turn .recover = (Layered.onBeneath a Attached.recover s).2 := by simp only [Stack.turn, ha]
    refine ⟨m.recover, ⟨?_, ⟨answer, hwork.trans hidle⟩, h.follows.recover⟩, hfilled.trans⟩
    rw [hturn]
    exact shows_onBeneath _ (hmem.trans hmemory.symm) hmode (shows_recover hshows)
  | check =>
    obtain ⟨hmemory, hmode, a, ha, hshows⟩ := h.shows
    obtain ⟨hmem, hwork, hfilled⟩ := check_frame m
    have hturn : s.turn .check = (Layered.onBeneath a Attached.check s).2 := by simp only [Stack.turn, ha]
    refine ⟨m.check, ⟨?_, ⟨answer, hwork.trans hidle⟩, h.follows.check⟩, hfilled.trans⟩
    rw [hturn]
    exact shows_onBeneath _ (hmem.trans hmemory.symm) hmode (shows_check hshows)

/-- A mirror shows a layered store all along its turns. -/
theorem Reflects.turns (h : Reflects first reachable m s) (ts : List Turn) :
    ∃ m', Reflects first reachable m' (s.turns ts) ∧ (m.filled = true → m'.filled = true) := by
  induction ts generalizing m s with
  | nil => exact ⟨m, h, id⟩
  | cons t ts ih =>
    obtain ⟨m₁, h₁, hf₁⟩ := h.turn t
    obtain ⟨m₂, h₂, hf₂⟩ := ih h₁
    exact ⟨m₂, h₂, hf₂ ∘ hf₁⟩

/-- Once a call that replaces all data was accepted, the mirror knows. -/
theorem Reflects.filled (h : Reflects first reachable m s) {ts : List Turn} (hs : s.Filled ts) :
    ∃ m', Reflects first reachable m' (s.turns ts) ∧ m'.filled = true := by
  obtain ⟨before, r, hr, after, rfl, hfills, hok⟩ := hs
  obtain ⟨m₁, h₁, -⟩ := h.turns before
  obtain ⟨answer, hidle⟩ := h₁.idle
  obtain ⟨n, hn⟩ := answers_call h₁.shows hr.persisted
  have h₂ : Reflects first reachable (goes n (m₁.call r)) ((s.turns before).turn (.call r hr)) :=
    ⟨hn.shows, ⟨_, hn.work⟩, (h₁.follows.call hidle hr).goes n⟩
  obtain ⟨m₃, h₃, hfilled⟩ := h₂.turns after
  have hturns : s.turns (before ++ .call r hr :: after) = ((s.turns before).turn (.call r hr)).turns after := by
    rw [Stack.turns, List.foldl_append]
    rfl
  rw [hturns]
  exact ⟨m₃, h₃, hfilled (hn.filled hfills hok)⟩

/-- **Memory and backend agree**, in two parts. In both, it is assumed that all data was replaced by some call that was
accepted, and that the board shows good health.
1. Over every run of a mirror, whatever moves come between two operations, they agree whenever no call is under way.
2. A layered store whose backend can be reached at some operations and not at others, in whatever pattern, leaves after
   any turns a memory and a backend that agree. -/
theorem backend_agrees (b : SharedMemory) (retry recovery : Policy) :
    (∀ moves, let m := (ofBackend b retry).run moves
      (∃ answer, m.work = .idle answer) → m.filled = true → m.board.health = .good → Agree m.memory m.backend) ∧
    (∀ reachable ts, let first := Stack.ofBackend (Disturbed.withOutages b reachable) retry recovery
      let s := first.turns ts
      first.Filled ts → s.board.health = .good →
        ∃ a, s.store.beneath = some a ∧ Agree s.store.memory a.shared.backend.backend) := by
  constructor
  · intro moves m
    rintro ⟨answer, hw⟩ hfilled hgood
    exact ((kept_ofBackend b retry).run moves).agree hw hfilled hgood
  · intro reachable ts first s hs hgood
    obtain ⟨m, hm, hfilled⟩ := (reflects_ofBackend b retry recovery reachable).filled hs
    obtain ⟨answer, hidle⟩ := hm.idle
    obtain ⟨hmemory, -, a, ha, log, recovery', polling, hsite⟩ := hm.shows
    obtain ⟨-, moves, hmoves⟩ := hm.follows
    have hboard : s.board = m.board := congrArg Site.board hsite
    have hbackend : a.shared.backend = m.backend := congrArg (fun site => site.store.shared.backend) hsite
    have hkept : m.bare.Kept := hmoves ▸ (kept_ofBackend b retry).run moves
    refine ⟨a, ha, ?_⟩
    have hagree : Agree m.memory m.backend.backend := hkept.agree hidle hfilled (hboard ▸ hgood)
    rwa [← hmemory, ← hbackend] at hagree

/-! ### An outage that ends -/

/-- A flag that says nothing but its key. -/
def plainFlag (version : Int) : Item := ⟨version, some (.obj [("key", .str "a")])⟩

/-- A plain flag is kept faithfully. -/
theorem faithful_plainFlag {version : Int} (h : Json.IsVersion version) (h₀ : 0 ≤ version) :
    (plainFlag version).Faithful := by
  have hcontent : (Json.obj [("key", .str "a")]).WellFormed := ⟨by simp [Fields.Ascending], trivial, trivial⟩
  refine ⟨⟨h, ?_⟩, h₀, ?_, ?_⟩
  · rintro _ ⟨⟩
    exact ⟨_, rfl, hcontent, by decide⟩
  · rintro _ ⟨⟩
    rfl
  · rintro _ ⟨⟩
    rfl

/-- All data is one flag. -/
def plainData (version : Int) : DataSet Item := ⟨[(.features, [("a", plainFlag version)]), (.segments, [])], true⟩

theorem sound_plainData {version : Int} (h : Json.IsVersion version) (h₀ : 0 ≤ version) :
    (Request.init (plainData version)).Sound := by
  refine ⟨rfl, fun kind => by cases kind <;> rfl, fun e he => ?_⟩
  obtain rfl : e = (.features, "a", plainFlag version) := by simpa [plainData, Groups.entries] using he
  exact faithful_plainFlag h h₀

/-- All data is written, the next write meets an outage, and after a check all data is written again. -/
def outage : List Turn :=
  [.call (.init (plainData 1)) (sound_plainData (by decide) (by decide)),
    .call (.upsert .features "a" (plainFlag 2)) (faithful_plainFlag (by decide) (by decide)),
    .recover,
    .call (.init (plainData 3)) (sound_plainData (by decide) (by decide))]

/-- After the outage memory and backend agree. -/
theorem backend_agrees_after_outage :
    let s := (Stack.ofBackend (Disturbed.withOutages .empty (· ≠ 1)) .unbounded .unbounded).turns outage
    s.board.health = .good ∧ ∃ a, s.store.beneath = some a ∧ Agree s.store.memory a.shared.backend.backend := by
  intro s
  have hgood : s.board.health = .good := rfl
  have hfilled : (Stack.ofBackend (Disturbed.withOutages .empty (· ≠ 1)) .unbounded .unbounded).Filled outage :=
    ⟨[], _, _, _, rfl, trivial, rfl⟩
  exact ⟨hgood, (backend_agrees .empty .unbounded .unbounded).2 (· ≠ 1) outage hfilled hgood⟩

end Mirror

end FlagDelivery
