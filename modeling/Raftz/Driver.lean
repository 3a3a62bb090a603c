import Mathlib.Logic.Relation
import Raftz.RawNode

/-! # A node and its driver

The application's side of a node, as `ready_processor.zig` runs it: it takes a
batch from the `RawNode`, writes its snapshot, entries and hard state to the
storage, and reports back.  `Driver.Step` is everything that can happen to a
node between two crashes: calls of the public operations with any arguments
(those that fail included; a call that aborts ends the process and is not a
step), batches, reports, and storage events that do not come from the node.

The storage may change behind the node's back as long as it holds the same
data (`drift`: whether a read succeeds is not a function of the data), and it
may be compacted up to what has been handed out and persisted while no batch is
open. -/

open Base

namespace Raftz

/-- A node together with the batch its driver is working on. -/
structure Driver (σ : Type) where
  raw : RawNode σ
  /-- The batch that has been taken and written, until it is reported back. -/
  pending : Option Ready := none

namespace Ready

variable {σ : Type} [WritableStorage σ] (rd : Ready)

/-- Write the snapshot of a batch. -/
def writeSnapshot (store : σ) : Except Err σ :=
  match rd.snapshot with
  | some snap => WritableStorage.applySnapshot store snap
  | none => .ok store

/-- Write the entries of a batch. -/
def writeEntries (store : σ) : Except Err σ :=
  if rd.entries = [] then .ok store else WritableStorage.append store rd.entries

/-- Write the hard state of a batch. -/
def writeHardState (store : σ) : Except Err σ :=
  match rd.hs with
  | some hs => WritableStorage.setHardState store hs
  | none => .ok store

/-- Write a batch: snapshot, entries, hard state. -/
def write (store : σ) : Except Err σ := do
  let store ← rd.writeSnapshot store
  let store ← rd.writeEntries store
  rd.writeHardState store

end Ready

namespace RawNode

variable {σ : Type}

/-- The storage of a node. -/
def store (n : RawNode σ) : σ := n.raft.raftLog.store

/-- The node over another storage. -/
def setStore (n : RawNode σ) (store : σ) : RawNode σ :=
  { n with raft := { n.raft with raftLog := { n.raft.raftLog with store := store } } }

end RawNode

/-- The operations of the consensus state machine that a driver or an application may call. -/
inductive RaftCall
  | step (m : Message)
  | tick
  | ping
  | requestSnapshot
  | setPriority (p : ℤ)
  | applyConfChange (cc : ConfChangeV2)
  | commitApply (applied : ℕ)
  | onPersistEntries (index term : ℕ)
  | onPersistSnapshot (index : ℕ)
  | restoreSnapshot (snap : Snapshot)

/-- The computation of a call; its result is not looked at. -/
def RaftCall.run {σ : Type} [Storage σ] : RaftCall → RaftM σ Unit
  | .step m => Raft.step m
  | .tick => Raft.tick >>= fun _ => pure ()
  | .ping => Raft.ping
  | .requestSnapshot => Raft.requestSnapshot
  | .setPriority p => Raft.setPriority p
  | .applyConfChange cc => Raft.applyConfChange cc >>= fun _ => pure ()
  | .commitApply applied => Raft.commitApply applied
  | .onPersistEntries index term => Raft.onPersistEntries index term
  | .onPersistSnapshot index => Raft.onPersistSnapshot index
  | .restoreSnapshot snap => Raft.restoreSnapshot snap >>= fun _ => pure ()

/-- A configuration change is applied when an entry has been committed. -/
def RaftCall.Fits {σ : Type} (r : Raft σ) : RaftCall → Prop
  | .applyConfChange _ => 0 < r.raftLog.committed
  | _ => True

instance {σ : Type} (r : Raft σ) : ∀ x : RaftCall, Decidable (x.Fits r)
  | .applyConfChange _ => inferInstanceAs (Decidable (0 < r.raftLog.committed))
  | .step _ | .tick | .ping | .requestSnapshot | .setPriority _ | .commitApply _
  | .onPersistEntries _ _ | .onPersistSnapshot _ | .restoreSnapshot _ => inferInstanceAs (Decidable True)

/-- The state a computation leaves, whether it returned or failed. -/
def Outcome.Leaves {ε τ α : Type} (o : Outcome ε τ α) (s : τ) : Prop :=
  (∃ a, o = .ok a s) ∨ ∃ e, o = .err e s

theorem Outcome.Leaves.of_wp {ε τ α : Type} {x : Act ε τ α} {s s' : τ} (hl : Outcome.Leaves (x s) s')
    {Q : τ → Prop} (h : x.wp (fun _ => Q) (fun _ => Q) s) : Q s' := by
  rcases hl with ⟨a, hl⟩ | ⟨e, hl⟩
  · unfold Act.wp at h
    rwa [hl] at h
  · unfold Act.wp at h
    rwa [hl] at h

/-- What a step of a driver shows to the outside. -/
inductive Event
  | none
  /-- A call of the consensus state machine. -/
  | call (x : RaftCall)
  /-- A batch was handed out and written. -/
  | ready (rd : Ready)
  /-- A light batch was handed out. -/
  | light (l : LightReady)

namespace Driver

variable {σ : Type} [WritableStorage σ]

/-- Everything that can happen to a node between two crashes. -/
inductive Step (SameData : σ → σ → Prop) : Driver σ → Event → Driver σ → Prop
  | call (d : Driver σ) (x : RaftCall) (r : Raft σ) (hf : x.Fits d.raw.raft)
      (h : Outcome.Leaves (x.run d.raw.raft) r) :
      Step SameData d (.call x) { d with raw := { d.raw with raft := r } }
  | ready (d : Driver σ) (rd : Ready) (raw : RawNode σ) (store : σ)
      (h : RawNode.getReady d.raw = .ok rd raw) (hw : rd.write raw.store = .ok store) :
      Step SameData d (.ready rd) ⟨raw.setStore store, some rd⟩
  | failedReady (d : Driver σ) (e : Err) (raw : RawNode σ) (h : RawNode.getReady d.raw = .err e raw) :
      Step SameData d .none { d with raw := raw }
  | advanceAppendAsync (d : Driver σ) (rd : Ready) (raw : RawNode σ) (hp : d.pending = some rd)
      (h : Outcome.Leaves (RawNode.advanceAppendAsync rd d.raw) raw) :
      Step SameData d .none ⟨raw, Option.none⟩
  | onPersistReady (d : Driver σ) (number : ℕ) (raw : RawNode σ)
      (h : Outcome.Leaves (RawNode.onPersistReady number d.raw) raw) :
      Step SameData d .none { d with raw := raw }
  | advanceAppend (d : Driver σ) (rd : Ready) (l : LightReady) (raw : RawNode σ)
      (hp : d.pending = some rd) (h : RawNode.advanceAppend rd d.raw = .ok l raw) :
      Step SameData d (.light l) ⟨raw, Option.none⟩
  | failedAdvance (d : Driver σ) (rd : Ready) (e : Err) (raw : RawNode σ)
      (hp : d.pending = some rd) (h : RawNode.advanceAppend rd d.raw = .err e raw) :
      Step SameData d .none ⟨raw, Option.none⟩
  | advanceApply (d : Driver σ) (raw : RawNode σ)
      (h : Outcome.Leaves (RawNode.advanceApply d.raw) raw) :
      Step SameData d .none { d with raw := raw }
  | compact (d : Driver σ) (snap : Snapshot) (rs : RaftState) (store : σ)
      (hp : d.pending = Option.none) (hi : snap.metadata.index ≤ d.raw.commitSinceIndex)
      (hd : snap.metadata.index ≤ d.raw.raft.raftLog.persisted)
      (ht : Storage.term d.raw.store snap.metadata.index = .ok snap.metadata.term)
      (hs : Storage.initialState d.raw.store = .ok rs)
      (hc : snap.metadata.confState = rs.confState)
      (h : WritableStorage.applyLocalSnapshot d.raw.store snap = .ok store) :
      Step SameData d .none { d with raw := d.raw.setStore store }
  | drift (d : Driver σ) (store : σ) (h : SameData d.raw.store store) :
      Step SameData d .none { d with raw := d.raw.setStore store }

/-- A node that has just been started from a storage. -/
def Starts (config : Config) (prng : List ℕ) (store : σ) (d : Driver σ) : Prop :=
  RawNode.init config prng store = .ok d.raw () ∧ d.pending = Option.none

/-- Any number of steps. -/
abbrev Steps (SameData : σ → σ → Prop) : Driver σ → Driver σ → Prop :=
  Relation.ReflTransGen fun d d' => ∃ ev, Step SameData d ev d'

/-- A run with its events and the states they leave. -/
inductive Run (SameData : σ → σ → Prop) : Driver σ → List (Event × Driver σ) → Driver σ → Prop
  | nil (d : Driver σ) : Run SameData d [] d
  | cons {d d1 d2 : Driver σ} {ev : Event} {trace : List (Event × Driver σ)}
      (h : Step SameData d ev d1) (ht : Run SameData d1 trace d2) :
      Run SameData d ((ev, d1) :: trace) d2

theorem Run.steps {SameData : σ → σ → Prop} {d d' : Driver σ} {trace : List (Event × Driver σ)}
    (h : Run SameData d trace d') : Steps SameData d d' := by
  induction h with
  | nil d => exact .refl
  | cons hstep _ ih => exact .head ⟨_, hstep⟩ ih

/-! ### Scripts -/

/-- What a driver does next. -/
inductive Op
  | call (x : RaftCall)
  | ready
  | advanceAppend
  | advanceAppendAsync
  | onPersistReady (number : ℕ)
  | advanceApply

/-- The state that a computation leaves when it does not abort. -/
def left? {α τ : Type} : Outcome Err τ α → Option τ
  | .ok _ s => some s
  | .err _ s => some s
  | .panic => Option.none

theorem leaves_of_left? {α τ : Type} {o : Outcome Err τ α} {s : τ} (h : left? o = some s) :
    Outcome.Leaves o s := by
  cases o with
  | ok a s' =>
      cases h
      exact Or.inl ⟨a, rfl⟩
  | err e s' =>
      cases h
      exact Or.inr ⟨e, rfl⟩
  | panic => cases h

/-- Do it, if it can be done. -/
def exec (d : Driver σ) : Op → Option (Event × Driver σ)
  | .call x =>
      if x.Fits d.raw.raft then
        (left? (x.run d.raw.raft)).map fun r => (.call x, { d with raw := { d.raw with raft := r } })
      else Option.none
  | .ready => match RawNode.getReady d.raw with
      | .ok rd raw => match rd.write raw.store with
          | .ok store => some (.ready rd, ⟨raw.setStore store, some rd⟩)
          | .error _ => Option.none
      | _ => Option.none
  | .advanceAppend => match d.pending with
      | some rd => match RawNode.advanceAppend rd d.raw with
          | .ok l raw => some (.light l, ⟨raw, Option.none⟩)
          | _ => Option.none
      | Option.none => Option.none
  | .advanceAppendAsync => match d.pending with
      | some rd =>
          (left? (RawNode.advanceAppendAsync rd d.raw)).map fun raw => (.none, ⟨raw, Option.none⟩)
      | Option.none => Option.none
  | .onPersistReady number =>
      (left? (RawNode.onPersistReady number d.raw)).map fun raw => (.none, { d with raw := raw })
  | .advanceApply =>
      (left? (RawNode.advanceApply d.raw)).map fun raw => (.none, { d with raw := raw })

/-- Carry out a script. -/
def play : List Op → Driver σ → Option (List (Event × Driver σ) × Driver σ)
  | [], d => some ([], d)
  | op :: ops, d => (d.exec op).bind fun t => (play ops t.2).map fun p => (t :: p.1, p.2)

/-- Start a node and carry out a script. -/
def playFrom (config : Config) (prng : List ℕ) (store : σ) (ops : List Op) :
    Option (List (Event × Driver σ) × Driver σ) :=
  match RawNode.init config prng store with
  | .ok raw _ => play ops ⟨raw, Option.none⟩
  | _ => Option.none

theorem exec_step {SameData : σ → σ → Prop} {d : Driver σ} {t : Event × Driver σ} {op : Op}
    (h : d.exec op = some t) : Step SameData d t.1 t.2 := by
  cases op with
  | call x =>
      unfold exec at h
      dsimp only at h
      split at h
      · rename_i hf
        obtain ⟨r, hr, rfl⟩ := Option.map_eq_some_iff.mp h
        exact .call d x r hf (leaves_of_left? hr)
      · cases h
  | ready =>
      unfold exec at h
      dsimp only at h
      split at h
      · rename_i rd raw hready
        split at h
        · rename_i store hw
          cases h
          exact .ready d rd raw store hready hw
        · cases h
      · cases h
  | advanceAppend =>
      unfold exec at h
      dsimp only at h
      split at h
      · rename_i rd hp
        split at h
        · rename_i l raw hadv
          cases h
          exact .advanceAppend d rd l raw hp hadv
        · cases h
      · cases h
  | advanceAppendAsync =>
      unfold exec at h
      dsimp only at h
      split at h
      · rename_i rd hp
        obtain ⟨raw, hr, rfl⟩ := Option.map_eq_some_iff.mp h
        exact .advanceAppendAsync d rd raw hp (leaves_of_left? hr)
      · cases h
  | onPersistReady number =>
      obtain ⟨raw, hr, rfl⟩ := Option.map_eq_some_iff.mp h
      exact .onPersistReady d number raw (leaves_of_left? hr)
  | advanceApply =>
      obtain ⟨raw, hr, rfl⟩ := Option.map_eq_some_iff.mp h
      exact .advanceApply d raw (leaves_of_left? hr)

theorem play_run {SameData : σ → σ → Prop} {ops : List Op} {d : Driver σ}
    {p : List (Event × Driver σ) × Driver σ} (h : play ops d = some p) : Run SameData d p.1 p.2 := by
  induction ops generalizing d p with
  | nil =>
      cases h
      exact .nil d
  | cons op ops ih =>
      obtain ⟨t, h1, h2⟩ := Option.bind_eq_some_iff.mp h
      obtain ⟨q, h3, rfl⟩ := Option.map_eq_some_iff.mp h2
      exact .cons (exec_step h1) (ih h3)

/-- A script that runs through is a run of the driver. -/
theorem playFrom_run (SameData : σ → σ → Prop) {config : Config} {prng : List ℕ} {store : σ}
    {ops : List Op} {p : List (Event × Driver σ) × Driver σ}
    (h : playFrom config prng store ops = some p) :
    ∃ d0, Starts config prng store d0 ∧ Run SameData d0 p.1 p.2 := by
  unfold playFrom at h
  split at h
  · rename_i raw _ hinit
    exact ⟨⟨raw, Option.none⟩, ⟨hinit, rfl⟩, play_run h⟩
  · cases h

end Driver

end Raftz
