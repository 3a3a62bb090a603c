import Mathlib.Data.List.Sort
import Mathlib.Data.List.Count
import Mathlib.Data.Nat.ModEq

/-! # The scheduler of a host

A host drives many groups from one event loop (`MultiRaftHost.drive` of `multi_raft.zig`): first the
groups that somebody has woken, then a few of all the groups, in turn.  Other threads wake groups
while the loop runs, in two steps: they raise the flag of the group, and then they queue its wake.

What a tick or a poll of a group comes to is chosen from outside (`Polled`).  Groups come and go
between two drives only. -/

namespace Raftz

namespace Scheduler

/-- Where a group is in its life. -/
inductive GroupLifecycle
  | active
  | retryableError
  | terminal
  | stopping
  deriving DecidableEq, Repr

/-- A queued wake of a group. -/
structure GroupWake where
  groupId : ℕ
  generation : ℕ
  deriving DecidableEq, Repr

/-- A group, as far as the scheduler knows it. -/
structure Group where
  id : ℕ
  generation : ℕ
  lifecycle : GroupLifecycle := .active
  localMembershipSeen : Bool := false
  locallyRetired : Bool := false
  wakeQueued : Bool := false
  deriving DecidableEq, Repr

/-- What a tick or a poll comes to: it succeeds, and the membership of the group, if it has one, lists this
node or does not, or it fails, for good or not. -/
inductive Polled
  | worked (member : Option Bool)
  | retryable
  | terminal

namespace Group

/-- Is the group never driven again? -/
def stopped (g : Group) : Bool := g.lifecycle = .terminal || g.lifecycle = .stopping

def markActive (g : Group) : Group := if g.lifecycle = .stopping then g else { g with lifecycle := .active }

def markRetryable (g : Group) : Group :=
  if g.lifecycle = .stopping then g else { g with lifecycle := .retryableError }

def markTerminal (g : Group) : Group := if g.lifecycle = .stopping then g else { g with lifecycle := .terminal }

def markStopping (g : Group) : Group := { g with lifecycle := .stopping }

def observeLocalMembership (g : Group) : Option Bool → Group
  | none => g
  | some true => { g with localMembershipSeen := true }
  | some false => if g.localMembershipSeen = true then { g with locallyRetired := true } else g

/-- Drive a group once. -/
def driveGroup (g : Group) : Polled → Group
  | .worked member => (g.observeLocalMembership member).markActive
  | .terminal => g.markTerminal
  | .retryable => g.markRetryable

def wake (g : Group) : GroupWake := ⟨g.id, g.generation⟩

/-- The flag of a group comes down. -/
def lowerWake (g : Group) : Group := { g with wakeQueued := false }

/-- The group is the same but for how it is doing. -/
def Same (g g' : Group) : Prop := g'.id = g.id ∧ g'.generation = g.generation ∧ g'.wakeQueued = g.wakeQueued

theorem Same.trans {g g' g'' : Group} (h : g.Same g') (h' : g'.Same g'') : g.Same g'' :=
  ⟨h'.1.trans h.1, h'.2.1.trans h.2.1, h'.2.2.trans h.2.2⟩

theorem same_markActive (g : Group) : g.Same g.markActive := by
  unfold markActive
  split <;> exact ⟨rfl, rfl, rfl⟩

theorem same_observeLocalMembership (g : Group) (member : Option Bool) :
    g.Same (g.observeLocalMembership member) := by
  unfold observeLocalMembership
  split
  · exact ⟨rfl, rfl, rfl⟩
  · exact ⟨rfl, rfl, rfl⟩
  · split <;> exact ⟨rfl, rfl, rfl⟩

theorem same_driveGroup (g : Group) (p : Polled) : g.Same (g.driveGroup p) := by
  cases p with
  | worked member => exact (g.same_observeLocalMembership member).trans (same_markActive _)
  | terminal =>
      show g.Same g.markTerminal
      unfold markTerminal
      split <;> exact ⟨rfl, rfl, rfl⟩
  | retryable =>
      show g.Same g.markRetryable
      unfold markRetryable
      split <;> exact ⟨rfl, rfl, rfl⟩

end Group

/-- Why a group is not added or not removed. -/
inductive HostErr
  | groupAlreadyExists
  | groupLimitReached
  | groupNotFound
  | createFailed
  deriving DecidableEq, Repr

structure HostConfig where
  groupDriveBudget : ℕ := 64
  priorityPollBudget : ℕ := 64
  maxGroups : ℕ := 1024
  maxQueuedGroupWakes : ℕ := 4096

/-- Where the event loop is: between two drives, with so many wakes left to look at, or with so many groups
of so many driven in turn. -/
inductive Phase
  | idle
  | priority (left : ℕ)
  | roundRobin (offset driveCount : ℕ)
  deriving DecidableEq, Repr

/-- The host.  `requests` are the wakes of threads, the event loop among them, that have raised a flag and have
yet to queue. -/
structure Host where
  config : HostConfig
  groups : ℕ → Option Group := fun _ => none
  groupIds : List ℕ := []
  groupWakes : List GroupWake := []
  nextGroupGeneration : ℕ := 0
  roundRobinCursor : ℕ := 0
  requests : List GroupWake := []
  phase : Phase := .idle

namespace Host

def put (h : Host) (g : Group) : Host := { h with groups := Function.update h.groups g.id (some g) }

/-- `GroupWakeQueue.push`. -/
def pushWake (h : Host) (w : GroupWake) : Option Host :=
  if h.config.maxQueuedGroupWakes ≤ h.groupWakes.length then none
  else some { h with groupWakes := h.groupWakes ++ [w] }

/-- The first half of `requestGroupWake`: raise the flag. -/
def raiseWake (h : Host) (g : Group) : Host :=
  if h.config.priorityPollBudget = 0 then h
  else if g.wakeQueued = true then h
  else { h.put { g with wakeQueued := true } with requests := h.requests ++ [g.wake] }

/-- The second half: queue the wake, or lower the flag again. -/
def queueWake (h : Host) (w : GroupWake) : Host :=
  let h := { h with requests := h.requests.erase w }
  match h.pushWake w with
  | some h' => h'
  | none =>
      match h.groups w.groupId with
      | some g => if g.generation = w.generation then h.put g.lowerWake else h
      | none => h

/-- The generation of the next group; zero is never used. -/
def nextGeneration (h : Host) : ℕ :=
  if (h.nextGroupGeneration + 1) % 2 ^ 64 = 0 then 1 else (h.nextGroupGeneration + 1) % 2 ^ 64

/-- Add a group, whose creation may fail; `create` says whether its membership lists this node.  The wake that
is requested last is queued later. -/
def addGroupOwned (h : Host) (groupId : ℕ) (create : Option Bool) : Host × Option HostErr :=
  if (h.groups groupId).isSome = true then (h, some .groupAlreadyExists)
  else if h.config.maxGroups ≤ h.groupIds.length then (h, some .groupLimitReached)
  else
    let h := { h with nextGroupGeneration := h.nextGeneration }
    match create with
    | none => (h, some .createFailed)
    | some seen =>
        let g : Group := { id := groupId, generation := h.nextGroupGeneration, localMembershipSeen := seen }
        let h := { h.put g with groupIds := (h.groupIds ++ [groupId]).insertionSort (· ≤ ·) }
        (h.raiseWake g, none)

def removeGroupId (h : Host) (groupId : ℕ) : Host :=
  if groupId ∈ h.groupIds then
    let ids := h.groupIds.erase groupId
    let cursor := if ids.length = 0 then 0 else
      if ids.length ≤ h.roundRobinCursor then h.roundRobinCursor % ids.length else h.roundRobinCursor
    { h with groupIds := ids, roundRobinCursor := cursor }
  else h

def removeGroupInternal (h : Host) (groupId : ℕ) : Host × Option HostErr :=
  match h.groups groupId with
  | none => (h, some .groupNotFound)
  | some _ => ({ h with groups := Function.update h.groups groupId none }.removeGroupId groupId, none)

/-- One look at the queue of wakes: the group that is driven, if there is one. -/
def pollWake (h : Host) (wake : GroupWake) (p : Polled) : Host × Option ℕ :=
  match h.groups wake.groupId with
  | none => (h, none)
  | some selected =>
      if selected.generation = wake.generation ∧ selected.wakeQueued = true then
        if selected.lowerWake.stopped = true then (h.put selected.lowerWake, none)
        else (h.put (selected.lowerWake.driveGroup p), some selected.id)
      else (h, none)

/-- The number of groups that are driven in turn. -/
def driveCount (h : Host) : ℕ := min h.config.groupDriveBudget h.groupIds.length

/-- The turn of one group; none where the code fails, as the group it looks for is not there. -/
def turn (h : Host) (offset : ℕ) (p : Polled) : Option (Host × Option ℕ) :=
  (h.groupIds[(h.roundRobinCursor + offset) % h.groupIds.length]?).bind fun groupId =>
    (h.groups groupId).map fun group =>
      if group.stopped = true then (h, none)
      else (h.put (group.lowerWake.driveGroup p), some group.id)

/-- Stop a group that this node has been removed from. -/
def retire (h : Host) (groupId : ℕ) : Host :=
  match h.groups groupId with
  | none => h
  | some group =>
      if group.locallyRetired = true ∧ group.stopped = false then
        h.put group.markStopping.lowerWake
      else h

def stopLocallyRetiredGroups (h : Host) : Host := h.groupIds.foldl retire h

def moveCursor (h : Host) (count : ℕ) : Host :=
  if h.groupIds.length = 0 then h
  else { h with roundRobinCursor := (h.roundRobinCursor + count) % h.groupIds.length }

/-- The end of a drive. -/
def finish (h : Host) (count : ℕ) : Host :=
  { (h.moveCursor count).stopLocallyRetiredGroups with phase := .idle }

/-! ### Runs -/

/-- What a step shows. -/
inductive Label
  | quiet
  | driven (groupId : ℕ)
  | finished
  | changed
  deriving DecidableEq

/-- A group is driven, or it is not. -/
def Label.ofDriven : Option ℕ → Label
  | none => .quiet
  | some id => .driven id

/-- A step of the event loop or of a thread that wakes a group. -/
inductive Step : Host → Label → Host → Prop
  | raiseWake (h : Host) (id : ℕ) (g : Group) (hg : h.groups id = some g) : Step h .quiet (h.raiseWake g)
  | queueWake (h : Host) (w : GroupWake) (hw : w ∈ h.requests) : Step h .quiet (h.queueWake w)
  | begin (h : Host) (hp : h.phase = .idle) :
      Step h .quiet { h with phase := .priority h.config.priorityPollBudget }
  | pollWake (h : Host) (left : ℕ) (wake : GroupWake) (rest : List GroupWake) (p : Polled)
      (hp : h.phase = .priority (left + 1)) (hw : h.groupWakes = wake :: rest) :
      Step h (Label.ofDriven ({ h with groupWakes := rest, phase := .priority left }.pollWake wake p).2)
        ({ h with groupWakes := rest, phase := .priority left }.pollWake wake p).1
  | polled (h : Host) (left : ℕ) (hp : h.phase = .priority left) (hleft : left = 0 ∨ h.groupWakes = []) :
      Step h .quiet { h with phase := .roundRobin 0 h.driveCount }
  | turn (h : Host) (offset count : ℕ) (p : Polled) (r : Host × Option ℕ)
      (hp : h.phase = .roundRobin offset count) (hlt : offset < count) (hr : h.turn offset p = some r) :
      Step h (Label.ofDriven r.2) { r.1 with phase := .roundRobin (offset + 1) count }
  | finish (h : Host) (count : ℕ) (hp : h.phase = .roundRobin count count) : Step h .finished (h.finish count)
  | add (h : Host) (hp : h.phase = .idle) (groupId : ℕ) (create : Option Bool) :
      Step h .changed (h.addGroupOwned groupId create).1
  | remove (h : Host) (hp : h.phase = .idle) (hreq : h.requests = []) (groupId : ℕ) :
      Step h .changed (h.removeGroupInternal groupId).1

/-- A run and what it shows. -/
inductive Run : Host → List Label → Host → Prop
  | nil (h : Host) : Run h [] h
  | snoc {h h1 h2 : Host} {ls : List Label} {l : Label} (hrun : Run h ls h1) (hstep : Step h1 l h2) :
      Run h (ls ++ [l]) h2

/-- A step by name. -/
inductive Move
  | raiseWake (id : ℕ)
  | queueWake (w : GroupWake)
  | begin
  | pollWake (p : Polled)
  | polled
  | turn (p : Polled)
  | finish
  | add (groupId : ℕ) (create : Option Bool)
  | remove (groupId : ℕ)

/-- Take the step, if it can be taken. -/
def exec (h : Host) : Move → Option (Label × Host)
  | .raiseWake id => (h.groups id).map fun g => (.quiet, h.raiseWake g)
  | .queueWake w => if w ∈ h.requests then some (.quiet, h.queueWake w) else none
  | .begin => if h.phase = .idle then some (.quiet, { h with phase := .priority h.config.priorityPollBudget }) else none
  | .pollWake p =>
      match h.phase, h.groupWakes with
      | .priority (left + 1), wake :: rest =>
          let r := { h with groupWakes := rest, phase := .priority left }.pollWake wake p
          some (Label.ofDriven r.2, r.1)
      | _, _ => none
  | .polled =>
      match h.phase with
      | .priority left =>
          if left = 0 ∨ h.groupWakes = [] then some (.quiet, { h with phase := .roundRobin 0 h.driveCount }) else none
      | _ => none
  | .turn p =>
      match h.phase with
      | .roundRobin offset count =>
          if offset < count then (h.turn offset p).map fun r =>
            (Label.ofDriven r.2, { r.1 with phase := .roundRobin (offset + 1) count })
          else none
      | _ => none
  | .finish =>
      match h.phase with
      | .roundRobin offset count => if offset = count then some (.finished, h.finish count) else none
      | _ => none
  | .add groupId create => if h.phase = .idle then some (.changed, (h.addGroupOwned groupId create).1) else none
  | .remove groupId =>
      if h.phase = .idle ∧ h.requests = [] then some (.changed, (h.removeGroupInternal groupId).1) else none

/-- Take steps one after another. -/
def play : List Move → Host → Option (List Label × Host)
  | [], h => some ([], h)
  | a :: as, h => (h.exec a).bind fun r => (play as r.2).map fun s => (r.1 :: s.1, s.2)

theorem exec_step {h : Host} {a : Move} {r : Label × Host} (hr : h.exec a = some r) : Step h r.1 r.2 := by
  cases a with
  | raiseWake id =>
      obtain ⟨g, hg, rfl⟩ := Option.map_eq_some_iff.mp hr
      exact .raiseWake h id g hg
  | queueWake w =>
      obtain ⟨hw, heq⟩ := Option.ite_none_right_eq_some.mp hr
      cases heq
      exact .queueWake h w hw
  | begin =>
      obtain ⟨hp, heq⟩ := Option.ite_none_right_eq_some.mp hr
      cases heq
      exact .begin h hp
  | pollWake p =>
      simp only [exec] at hr
      split at hr
      · rename_i left wake rest hp hw
        cases hr
        exact .pollWake h left wake rest p hp hw
      · cases hr
  | polled =>
      simp only [exec] at hr
      split at hr
      · rename_i left hp
        obtain ⟨hleft, heq⟩ := Option.ite_none_right_eq_some.mp hr
        cases heq
        exact .polled h left hp hleft
      · cases hr
  | turn p =>
      simp only [exec] at hr
      split at hr
      · rename_i offset count hp
        obtain ⟨hlt, hr⟩ := Option.ite_none_right_eq_some.mp hr
        obtain ⟨t, ht, rfl⟩ := Option.map_eq_some_iff.mp hr
        exact .turn h offset count p t hp hlt ht
      · cases hr
  | finish =>
      simp only [exec] at hr
      split at hr
      · rename_i offset count hp
        obtain ⟨rfl, heq⟩ := Option.ite_none_right_eq_some.mp hr
        cases heq
        exact .finish h offset hp
      · cases hr
  | add groupId create =>
      obtain ⟨hp, heq⟩ := Option.ite_none_right_eq_some.mp hr
      cases heq
      exact .add h hp groupId create
  | remove groupId =>
      obtain ⟨⟨hp, hreq⟩, heq⟩ := Option.ite_none_right_eq_some.mp hr
      cases heq
      exact .remove h hp hreq groupId

theorem play_run {as : List Move} {h0 h : Host} {ls : List Label} (hrun : Run h0 ls h) {r : List Label × Host}
    (hr : play as h = some r) : Run h0 (ls ++ r.1) r.2 := by
  induction as generalizing ls h r with
  | nil =>
      cases hr
      rw [List.append_nil]
      exact hrun
  | cons a as ih =>
      obtain ⟨r1, h1, h2⟩ := Option.bind_eq_some_iff.mp hr
      obtain ⟨r2, hplay, rfl⟩ := Option.map_eq_some_iff.mp h2
      have hrest := ih (hrun.snoc (exec_step h1)) hplay
      rw [List.append_assoc] at hrest
      exact hrest

/-! ### The groups -/

/-- Every group is listed once, under its id, and the cursor stands at one of them. -/
structure Sound (h : Host) : Prop where
  sorted : h.groupIds.Pairwise (· < ·)
  isSome : ∀ id, id ∈ h.groupIds ↔ (h.groups id).isSome = true
  ids : ∀ id g, h.groups id = some g → g.id = id
  cursor : h.roundRobinCursor ≤ h.groupIds.length - 1
  le : h.groupIds.length ≤ h.config.maxGroups
  turns : ∀ offset count, h.phase = .roundRobin offset count → offset ≤ count ∧ count = h.driveCount

/-- The groups stay, and so does the order in which they are driven. -/
structure Keeps (h h' : Host) : Prop where
  config : h'.config = h.config
  groupIds : h'.groupIds = h.groupIds
  cursor : h'.roundRobinCursor = h.roundRobinCursor
  phase : h'.phase = h.phase
  none : ∀ id, h.groups id = Option.none → h'.groups id = Option.none
  some : ∀ id g, h.groups id = Option.some g → ∃ g', h'.groups id = Option.some g' ∧ g'.id = g.id ∧
    (g.stopped = true → g'.stopped = true)

variable {h h' h'' : Host}

theorem Keeps.refl (h : Host) : Keeps h h :=
  ⟨rfl, rfl, rfl, rfl, fun _ hn => hn, fun _ g hg => ⟨g, hg, rfl, id⟩⟩

theorem Keeps.trans (h1 : Keeps h h') (h2 : Keeps h' h'') : Keeps h h'' where
  config := h2.config.trans h1.config
  groupIds := h2.groupIds.trans h1.groupIds
  cursor := h2.cursor.trans h1.cursor
  phase := h2.phase.trans h1.phase
  none id hn := h2.none id (h1.none id hn)
  some id g hg := by
    obtain ⟨g', hg', hid, hs⟩ := h1.some id g hg
    obtain ⟨g'', hg'', hid', hs'⟩ := h2.some id g' hg'
    exact ⟨g'', hg'', hid'.trans hid, fun h => hs' (hs h)⟩

theorem groups_put (h : Host) (g : Group) (id : ℕ) :
    (h.put g).groups id = if id = g.id then some g else h.groups id := Function.update_apply _ _ _ _

/-- Another state of a group that is there. -/
theorem keeps_put {g g' : Group} {id : ℕ} (hg : h.groups id = some g) (hid : g.id = id) (hid' : g'.id = g.id)
    (hs : g.stopped = true → g'.stopped = true) : Keeps h (h.put g') where
  config := rfl
  groupIds := rfl
  cursor := rfl
  phase := rfl
  none i hn := by
    have hne : i ≠ g'.id := by
      rintro rfl
      rw [hid', hid, hg] at hn
      cases hn
    rw [groups_put, if_neg hne]
    exact hn
  some i g0 hg0 := by
    rw [groups_put]
    by_cases hi : i = g'.id
    · subst hi
      rw [hid', hid, hg] at hg0
      cases hg0
      exact ⟨g', if_pos rfl, hid', hs⟩
    · exact ⟨g0, if_neg hi ▸ hg0, rfl, fun h => h⟩

/-- A wake leads to the group that it is about. -/
theorem Sound.wake (hs : Sound h) {id : ℕ} {g : Group} (hg : h.groups id = some g) :
    h.groups g.wake.groupId = some g := by
  rw [show g.wake.groupId = id from hs.ids id g hg]
  exact hg

theorem Sound.keeps (hs : Sound h) (hk : Keeps h h') : Sound h' where
  sorted := hk.groupIds ▸ hs.sorted
  isSome id := by
    rw [hk.groupIds, hs.isSome id]
    cases hg : h.groups id with
    | none => rw [hk.none id hg]
    | some g =>
        obtain ⟨g', hg', -⟩ := hk.some id g hg
        rw [hg']
        exact Iff.rfl
  ids id g hg := by
    cases hg0 : h.groups id with
    | none => rw [hk.none id hg0] at hg; cases hg
    | some g0 =>
        obtain ⟨g', hg', hid, -⟩ := hk.some id g0 hg0
        rw [hg] at hg'
        cases hg'
        exact hid.trans (hs.ids id g0 hg0)
  cursor := by
    rw [hk.cursor, hk.groupIds]
    exact hs.cursor
  le := by
    rw [hk.config, hk.groupIds]
    exact hs.le
  turns offset count hp := by
    have hturns := hs.turns offset count (hk.phase ▸ hp)
    unfold driveCount at *
    rw [hk.config, hk.groupIds]
    exact hturns

theorem keeps_raiseWake (hs : Sound h) {id : ℕ} {g : Group} (hg : h.groups id = some g) :
    Keeps h (h.raiseWake g) := by
  unfold raiseWake
  split
  · exact .refl h
  · split
    · exact .refl h
    · have hk : Keeps h (h.put { g with wakeQueued := true }) := keeps_put hg (hs.ids id g hg) rfl fun h => h
      exact hk.trans { Keeps.refl _ with }

theorem keeps_queueWake (hs : Sound h) (w : GroupWake) : Keeps h (h.queueWake w) := by
  have herase : Keeps h { h with requests := h.requests.erase w } := { Keeps.refl h with }
  unfold queueWake pushWake
  dsimp only
  split
  · rename_i h1 hpush
    split at hpush
    · cases hpush
    · cases hpush
      exact { Keeps.refl h with }
  · split
    · rename_i g hg
      split
      · exact herase.trans (keeps_put hg (hs.ids _ g hg) rfl fun h => h)
      · exact herase
    · exact herase

theorem keeps_pollWake (hs : Sound h) (wake : GroupWake) (p : Polled) : Keeps h (h.pollWake wake p).1 := by
  unfold pollWake
  split
  · exact .refl h
  · rename_i g hg
    split
    · split
      · exact keeps_put hg (hs.ids _ g hg) rfl fun h => h
      · rename_i hstop
        have hsame := Group.same_driveGroup g.lowerWake p
        exact keeps_put hg (hs.ids _ g hg) hsame.1 fun h => absurd h hstop
    · exact .refl h

theorem keeps_turn (hs : Sound h) {offset : ℕ} {p : Polled} {r : Host × Option ℕ}
    (hr : h.turn offset p = some r) : Keeps h r.1 := by
  obtain ⟨id, -, hr⟩ := Option.bind_eq_some_iff.mp hr
  obtain ⟨g, hg, rfl⟩ := Option.map_eq_some_iff.mp hr
  split
  · exact .refl h
  · rename_i hstop
    have hsame := Group.same_driveGroup g.lowerWake p
    exact keeps_put hg (hs.ids _ g hg) hsame.1 fun h => absurd h hstop

theorem keeps_retire (hs : Sound h) (id : ℕ) : Keeps h (h.retire id) := by
  unfold retire
  split
  · exact .refl h
  · rename_i g hg
    split
    · exact keeps_put hg (hs.ids _ g hg) rfl fun _ => rfl
    · exact .refl h

theorem keeps_stopLocallyRetiredGroups (hs : Sound h) : Keeps h h.stopLocallyRetiredGroups := by
  unfold stopLocallyRetiredGroups
  generalize h.groupIds = ids
  induction ids generalizing h with
  | nil => exact .refl h
  | cons id ids ih =>
      have hk := keeps_retire hs id
      exact hk.trans (ih (hs.keeps hk))

theorem Sound.move (hs : Sound h) {phase : Phase}
    (hturns : ∀ offset count, phase = .roundRobin offset count → offset ≤ count ∧ count = h.driveCount)
    (wakes : List GroupWake) : Sound { h with groupWakes := wakes, phase := phase } :=
  { hs with turns := hturns }

theorem Sound.nodup (hs : Sound h) : h.groupIds.Nodup := hs.sorted.imp Nat.ne_of_lt

/-- Somebody's turn comes: the code finds the group that it looks for. -/
theorem Sound.turn (hs : Sound h) {offset count : ℕ} (hp : h.phase = .roundRobin offset count) (hlt : offset < count)
    (p : Polled) : ∃ id g, h.groupIds[(h.roundRobinCursor + offset) % h.groupIds.length]? = some id ∧
      h.groups id = some g ∧ h.turn offset p = some (if g.stopped = true then (h, none)
        else (h.put (g.lowerWake.driveGroup p), some g.id)) := by
  obtain ⟨-, hcount⟩ := hs.turns offset count hp
  have hpos : 0 < h.groupIds.length := by
    have hle : h.driveCount ≤ h.groupIds.length := min_le_right _ _
    omega
  have hidx : (h.roundRobinCursor + offset) % h.groupIds.length < h.groupIds.length := Nat.mod_lt _ hpos
  have hget := List.getElem?_eq_getElem hidx
  obtain ⟨g, hg⟩ := Option.isSome_iff_exists.mp ((hs.isSome _).mp (List.getElem_mem hidx))
  refine ⟨_, g, hget, hg, ?_⟩
  unfold Host.turn
  rw [hget, Option.bind_some, hg, Option.map_some]

theorem Sound.moveCursor (hs : Sound h) (count : ℕ) : Sound (h.moveCursor count) := by
  unfold Host.moveCursor
  split
  · exact hs
  · rename_i hlen
    have hlt := Nat.mod_lt (h.roundRobinCursor + count) (Nat.pos_of_ne_zero hlen)
    exact { hs with cursor := Nat.le_sub_one_of_lt hlt }

theorem Sound.finish (hs : Sound h) (count : ℕ) : Sound (h.finish count) := by
  have hmoved := hs.moveCursor count
  exact (hmoved.keeps (keeps_stopLocallyRetiredGroups hmoved)).move (by rintro _ _ ⟨⟩) _

/-- What the end of a drive leaves. -/
structure Ended (h : Host) (count : ℕ) (h' : Host) : Prop where
  config : h'.config = h.config
  groupIds : h'.groupIds = h.groupIds
  cursor : 0 < h.groupIds.length → h'.roundRobinCursor = (h.roundRobinCursor + count) % h.groupIds.length
  stays : h.groupIds.length = 0 → h'.roundRobinCursor = h.roundRobinCursor
  stopped : ∀ id g, h.groups id = some g → g.stopped = true → ∃ g', h'.groups id = some g' ∧ g'.stopped = true

theorem ended_finish (hs : Sound h) (count : ℕ) : Ended h count (h.finish count) := by
  have hk := keeps_stopLocallyRetiredGroups (hs.moveCursor count)
  have hgroups : (h.moveCursor count).groups = h.groups := by
    unfold Host.moveCursor
    split <;> rfl
  refine ⟨hk.config.trans ?_, hk.groupIds.trans ?_, fun hpos => hk.cursor.trans ?_, fun hlen => hk.cursor.trans ?_,
    fun id g hg hstop => ?_⟩
  · unfold Host.moveCursor
    split <;> rfl
  · unfold Host.moveCursor
    split <;> rfl
  · unfold Host.moveCursor
    rw [if_neg hpos.ne']
  · unfold Host.moveCursor
    rw [if_pos hlen]
  · obtain ⟨g', hg', -, hs'⟩ := hk.some id g (hgroups ▸ hg)
    exact ⟨g', hg', hs' hstop⟩

/-- A group with a new id. -/
theorem Sound.insert (hs : Sound h) (hp : h.phase = .idle) {g : Group} (hnew : h.groups g.id = none)
    (hroom : h.groupIds.length < h.config.maxGroups) (n : ℕ) :
    Sound { h.put g with
      groupIds := (h.groupIds ++ [g.id]).insertionSort (· ≤ ·), nextGroupGeneration := n } := by
  have hnotmem : g.id ∉ h.groupIds := fun hmem => by
    have hsome := (hs.isSome g.id).mp hmem
    rw [hnew] at hsome
    cases hsome
  have hlen : ((h.groupIds ++ [g.id]).insertionSort (· ≤ ·)).length = h.groupIds.length + 1 := by
    rw [List.length_insertionSort, List.length_append, List.length_singleton]
  have hcursor := hs.cursor
  exact {
    sorted := by
      have hnodup : ((h.groupIds ++ [g.id]).insertionSort (· ≤ ·)).Nodup := by
        rw [(List.perm_insertionSort _ _).nodup_iff]
        exact hs.nodup.append (List.nodup_singleton _) (List.disjoint_singleton.mpr hnotmem)
      exact ((List.pairwise_insertionSort (· ≤ ·) _).and hnodup).imp fun h => lt_of_le_of_ne h.1 h.2
    isSome := fun id => by
      show id ∈ (h.groupIds ++ [g.id]).insertionSort (· ≤ ·) ↔ ((h.put g).groups id).isSome = true
      rw [List.mem_insertionSort, List.mem_append, List.mem_singleton, groups_put]
      by_cases hid : id = g.id
      · simp [hid]
      · rw [if_neg hid, hs.isSome id]
        simp [hid]
    ids := fun id g0 hg0 => by
      have hg0 : (h.put g).groups id = some g0 := hg0
      rw [groups_put] at hg0
      split at hg0
      · rename_i hid
        cases hg0
        exact hid.symm
      · exact hs.ids id g0 hg0
    cursor := by
      show h.roundRobinCursor ≤ _
      rw [hlen]
      omega
    le := by
      rw [hlen]
      exact hroom
    turns := fun offset count hr => by cases hp.symm.trans hr }

theorem Sound.add (hs : Sound h) (hp : h.phase = .idle) (groupId : ℕ) (create : Option Bool) :
    Sound (h.addGroupOwned groupId create).1 := by
  unfold addGroupOwned
  split
  · exact hs
  · rename_i hnew
    split
    · exact hs
    · rename_i hroom
      cases create with
      | none => exact { hs with }
      | some seen =>
          have hnone : h.groups groupId = none := Option.not_isSome_iff_eq_none.mp hnew
          have hins := hs.insert hp (g := ⟨groupId, h.nextGeneration, .active, seen, false, false⟩) hnone
            (lt_of_not_ge hroom) h.nextGeneration
          exact hins.keeps (keeps_raiseWake hins ((groups_put h _ groupId).trans (if_pos rfl)))

theorem Sound.remove (hs : Sound h) (hp : h.phase = .idle) (groupId : ℕ) :
    Sound (h.removeGroupInternal groupId).1 := by
  unfold removeGroupInternal
  split
  · exact hs
  · rename_i g hg
    have hmem : groupId ∈ h.groupIds := (hs.isSome groupId).mpr (by rw [hg]; rfl)
    dsimp only [removeGroupId]
    rw [if_pos hmem]
    exact {
      sorted := hs.sorted.sublist List.erase_sublist
      isSome := fun id => by
        dsimp only
        rw [hs.nodup.mem_erase_iff, Function.update_apply]
        by_cases hid : id = groupId
        · simp [hid]
        · rw [if_neg hid]
          exact ⟨fun h => (hs.isSome id).mp h.2, fun h => ⟨hid, (hs.isSome id).mpr h⟩⟩
      ids := fun id g hg => by
        dsimp only at hg
        rw [Function.update_apply] at hg
        split at hg
        · cases hg
        · exact hs.ids id g hg
      cursor := by
        dsimp only
        split
        · exact Nat.zero_le _
        · rename_i hlen
          split
          · exact Nat.le_sub_one_of_lt (Nat.mod_lt _ (Nat.pos_of_ne_zero hlen))
          · omega
      le := (List.length_erase_le).trans hs.le
      turns := fun offset count hr => by cases hp.symm.trans hr }

theorem Sound.step {l : Label} (hs : Sound h) (hstep : Step h l h') : Sound h' := by
  cases hstep with
  | raiseWake id g hg => exact hs.keeps (keeps_raiseWake hs hg)
  | queueWake w hw => exact hs.keeps (keeps_queueWake hs w)
  | begin hp => exact hs.move (by rintro _ _ ⟨⟩) _
  | pollWake left wake rest p hp hw =>
      have hs1 : Sound { h with groupWakes := rest, phase := .priority left } := hs.move (by rintro _ _ ⟨⟩) _
      exact hs1.keeps (keeps_pollWake hs1 wake p)
  | polled left hp hleft =>
      refine hs.move ?_ _
      rintro _ _ ⟨⟩
      exact ⟨Nat.zero_le _, rfl⟩
  | turn offset count p r hp hlt hr =>
      have hk := keeps_turn hs hr
      obtain ⟨-, hcount⟩ := hs.turns offset count hp
      refine (hs.keeps hk).move ?_ _
      rintro _ _ ⟨⟩
      refine ⟨hlt, hcount.trans ?_⟩
      unfold driveCount
      rw [hk.config, hk.groupIds]
  | finish count hp => exact hs.finish count
  | add hp groupId create => exact hs.add hp groupId create
  | remove hp hreq groupId => exact hs.remove hp groupId

/-! ### Wakes -/

/-- The wake of a group whose flag is up is in the queue, or a thread is about to put it there. -/
structure Wakes (h : Host) : Prop where
  queued : ∀ id g, h.groups id = some g → g.wakeQueued = true → g.wake ∈ h.groupWakes ∨ g.wake ∈ h.requests
  le : h.groupWakes.length ≤ h.config.maxQueuedGroupWakes

/-- A group whose flag is down. -/
theorem Wakes.put (hw : Wakes h) {g : Group} (hg : g.wakeQueued = false) : Wakes (h.put g) where
  queued id g0 hg0 hflag := by
    rw [groups_put] at hg0
    split at hg0
    · cases hg0
      rw [hg] at hflag
      cases hflag
    · exact hw.queued id g0 hg0 hflag
  le := hw.le

theorem Wakes.raiseWake (hw : Wakes h) (g : Group) : Wakes (h.raiseWake g) := by
  unfold Host.raiseWake
  split
  · exact hw
  · split
    · exact hw
    · refine ⟨fun id g0 hg0 hflag => ?_, hw.le⟩
      have hg0 : (h.put { g with wakeQueued := true }).groups id = some g0 := hg0
      rw [groups_put] at hg0
      split at hg0
      · cases hg0
        exact Or.inr (List.mem_append_right _ (List.mem_singleton.mpr rfl))
      · exact (hw.queued id g0 hg0 hflag).imp_right (List.mem_append_left _)

theorem Wakes.queueWake (hs : Sound h) (hw : Wakes h) (w : GroupWake) : Wakes (h.queueWake w) := by
  have hlt : ∀ g : Group, g.wake ∈ h.requests → g.wake = w ∨ g.wake ∈ h.requests.erase w := by
    intro g hg
    by_cases hgw : g.wake = w
    · exact Or.inl hgw
    · exact Or.inr ((List.mem_erase_of_ne hgw).mpr hg)
  unfold Host.queueWake pushWake
  dsimp only
  by_cases hfull : h.config.maxQueuedGroupWakes ≤ h.groupWakes.length
  · rw [if_pos hfull]
    dsimp only
    -- the flag is lowered again, so nobody misses the wake
    have hrest : ∀ id g, h.groups id = some g → g.wakeQueued = true → g.wake ≠ w →
        g.wake ∈ h.groupWakes ∨ g.wake ∈ h.requests.erase w := fun id g hg hflag hne =>
      (hw.queued id g hg hflag).imp_right fun hmem => (hlt g hmem).resolve_left hne
    cases hg : h.groups w.groupId with
    | none =>
        dsimp only
        refine ⟨fun id g hg1 hflag => hrest id g hg1 hflag ?_, hw.le⟩
        rintro rfl
        rw [hs.wake hg1] at hg
        cases hg
    | some g =>
        dsimp only
        have hgid := hs.ids _ g hg
        split
        · refine ⟨fun id g1 hg1 hflag => ?_, hw.le⟩
          rw [groups_put] at hg1
          split at hg1
          · cases hg1
            cases hflag
          · rename_i hne
            refine hrest id g1 hg1 hflag ?_
            rintro rfl
            exact hne ((hs.ids id g1 hg1).symm.trans hgid.symm)
        · rename_i hgen
          refine ⟨fun id g1 hg1 hflag => hrest id g1 hg1 hflag ?_, hw.le⟩
          rintro rfl
          rw [hs.wake hg1] at hg
          cases hg
          exact hgen rfl
  · rw [if_neg hfull]
    dsimp only
    refine ⟨fun id g hg hflag => ?_, ?_⟩
    · rcases hw.queued id g hg hflag with hmem | hmem
      · exact Or.inl (List.mem_append_left _ hmem)
      · rcases hlt g hmem with rfl | hmem
        · exact Or.inl (List.mem_append_right _ (List.mem_singleton.mpr rfl))
        · exact Or.inr hmem
    · show (h.groupWakes ++ [w]).length ≤ h.config.maxQueuedGroupWakes
      rw [List.length_append, List.length_singleton]
      omega

theorem Wakes.pollWake (hs : Sound h) {left : ℕ} {wake : GroupWake} {rest : List GroupWake}
    (hq : h.groupWakes = wake :: rest) (hw : Wakes h) (p : Polled) :
    Wakes ({ h with groupWakes := rest, phase := .priority left }.pollWake wake p).1 := by
  have hle : rest.length ≤ h.config.maxQueuedGroupWakes := by
    have hlen := hw.le
    rw [hq, List.length_cons] at hlen
    omega
  have hrest : ∀ id g, h.groups id = some g → g.wakeQueued = true → g.wake ≠ wake →
      g.wake ∈ rest ∨ g.wake ∈ h.requests := by
    intro id g hg hflag hne
    have hor := hw.queued id g hg hflag
    rw [hq] at hor
    exact hor.imp_left fun hmem => (List.mem_cons.mp hmem).resolve_left hne
  unfold Host.pollWake
  dsimp only
  cases hg : h.groups wake.groupId with
  | none =>
      refine ⟨fun id g hg1 hflag => hrest id g hg1 hflag ?_, hle⟩
      rintro rfl
      rw [hs.wake hg1] at hg
      cases hg
  | some g =>
      dsimp only
      -- the group that the wake is about has its flag down afterwards
      have hlowered : ∀ g' : Group, g'.id = g.id → g'.wakeQueued = false →
          Wakes ({ h with groupWakes := rest, phase := .priority left }.put g') := by
        refine fun g' hid hdown => ⟨fun id g1 hg1 hflag => ?_, hle⟩
        rw [groups_put] at hg1
        split at hg1
        · cases hg1
          rw [hdown] at hflag
          cases hflag
        · rename_i hne
          refine hrest id g1 hg1 hflag ?_
          rintro rfl
          rw [hs.wake hg1] at hg
          cases hg
          exact hne ((hs.ids id _ hg1).symm.trans hid.symm)
      split
      · split
        · exact hlowered _ rfl rfl
        · have hsame := Group.same_driveGroup g.lowerWake p
          exact hlowered _ hsame.1 hsame.2.2
      · rename_i hstale
        refine ⟨fun id g1 hg1 hflag => hrest id g1 hg1 hflag ?_, hle⟩
        rintro rfl
        rw [hs.wake hg1] at hg
        cases hg
        exact hstale ⟨rfl, hflag⟩

theorem Wakes.turn (hw : Wakes h) {offset : ℕ} {p : Polled} {r : Host × Option ℕ}
    (hr : h.turn offset p = some r) : Wakes r.1 := by
  obtain ⟨id, -, hr⟩ := Option.bind_eq_some_iff.mp hr
  obtain ⟨g, -, rfl⟩ := Option.map_eq_some_iff.mp hr
  split
  · exact hw
  · exact hw.put (Group.same_driveGroup g.lowerWake p).2.2

theorem Wakes.retire (hw : Wakes h) (id : ℕ) : Wakes (h.retire id) := by
  unfold Host.retire
  split
  · exact hw
  · split
    · exact hw.put rfl
    · exact hw

theorem Wakes.finish (hw : Wakes h) (count : ℕ) : Wakes (h.finish count) := by
  have hstop : ∀ (ids : List ℕ) {h : Host}, Wakes h → Wakes (ids.foldl Host.retire h) := by
    intro ids
    induction ids with
    | nil => exact fun hw => hw
    | cons id ids ih => exact fun hw => ih (hw.retire id)
  have hmoved : Wakes (h.moveCursor count) := by
    unfold Host.moveCursor
    split
    · exact hw
    · exact { hw with }
  exact { hstop _ hmoved with }

theorem Wakes.add (hw : Wakes h) (groupId : ℕ) (create : Option Bool) :
    Wakes (h.addGroupOwned groupId create).1 := by
  unfold addGroupOwned
  split
  · exact hw
  · split
    · exact hw
    · cases create with
      | none => exact { hw with }
      | some seen =>
          refine Wakes.raiseWake ?_ _
          have hput := hw.put (g := ⟨groupId, h.nextGeneration, .active, seen, false, false⟩) rfl
          exact { hput with }

theorem Wakes.remove (hw : Wakes h) (groupId : ℕ) : Wakes (h.removeGroupInternal groupId).1 := by
  unfold removeGroupInternal
  split
  · exact hw
  · have hgone : Wakes { h with groups := Function.update h.groups groupId none } := by
      refine ⟨fun id g hg hflag => ?_, hw.le⟩
      dsimp only at hg
      rw [Function.update_apply] at hg
      split at hg
      · cases hg
      · exact hw.queued id g hg hflag
    dsimp only [removeGroupId]
    split
    · exact { hgone with }
    · exact hgone

theorem Wakes.step {l : Label} (hs : Sound h) (hw : Wakes h) (hstep : Step h l h') : Wakes h' := by
  cases hstep with
  | raiseWake id g hg => exact hw.raiseWake g
  | queueWake w hmem => exact hw.queueWake hs w
  | begin hp => exact { hw with }
  | pollWake left wake rest p hp hq => exact hw.pollWake hs hq p
  | polled left hp hleft => exact { hw with }
  | turn offset count p r hp hlt hr => exact { hw.turn hr with }
  | finish count hp => exact hw.finish count
  | add hp groupId create => exact hw.add groupId create
  | remove hp hreq groupId => exact hw.remove groupId

theorem sound_create (config : HostConfig) : Sound { config := config } where
  sorted := .nil
  isSome := fun _ => ⟨nofun, nofun⟩
  ids := nofun
  cursor := Nat.le_refl 0
  le := Nat.zero_le _
  turns := nofun

theorem wakes_create (config : HostConfig) : Wakes { config := config } where
  queued := nofun
  le := Nat.zero_le _

theorem Step.config {l : Label} (hs : Sound h) (hstep : Step h l h') : h'.config = h.config := by
  cases hstep with
  | raiseWake id g hg => exact (keeps_raiseWake hs hg).config
  | queueWake w hmem => exact (keeps_queueWake hs w).config
  | begin hp => rfl
  | pollWake left wake rest p hp hq =>
      have hs1 : Sound { h with groupWakes := rest, phase := .priority left } := hs.move (by rintro _ _ ⟨⟩) _
      exact (keeps_pollWake hs1 wake p).config
  | polled left hp hleft => rfl
  | turn offset count p r hp hlt hr => exact (keeps_turn hs hr).config
  | finish count hp => exact (ended_finish hs count).config
  | add hp groupId create =>
      unfold addGroupOwned Host.raiseWake
      dsimp only
      repeat' split
      all_goals rfl
  | remove hp hreq groupId =>
      unfold removeGroupInternal removeGroupId
      dsimp only
      repeat' split
      all_goals rfl

theorem Run.sound {ls : List Label} (hrun : Run h ls h') (hs : Sound h) (hw : Wakes h) :
    Sound h' ∧ Wakes h' ∧ h'.config = h.config := by
  induction hrun with
  | nil => exact ⟨hs, hw, rfl⟩
  | snoc hrun hstep ih =>
      obtain ⟨hs', hw', hc⟩ := ih
      exact ⟨hs'.step hstep, hw'.step hs' hstep, (hstep.config hs').trans hc⟩

/-- **No wake is lost, and no turn fails.**  Whoever wakes groups while the host drives them, and however groups
come and go: a raised flag has its wake in the queue, or the thread that raised it is about to put it there;
the queue keeps its bound; and the group whose turn it is is there. -/
theorem wakes_kept {config : HostConfig} {ls : List Label} (hrun : Run { config := config } ls h) :
    (∀ id g, h.groups id = some g → g.wakeQueued = true → g.wake ∈ h.groupWakes ∨ g.wake ∈ h.requests) ∧
      h.groupWakes.length ≤ config.maxQueuedGroupWakes ∧
      ∀ offset count p, h.phase = .roundRobin offset count → offset < count → (h.turn offset p).isSome = true := by
  obtain ⟨hs, hw, hc⟩ := hrun.sound (sound_create config) (wakes_create config)
  refine ⟨hw.queued, ?_, fun offset count p hp hlt => ?_⟩
  · have hle := hw.le
    rw [hc] at hle
    exact hle
  · obtain ⟨id, g, -, -, hturn⟩ := hs.turn hp hlt p
    rw [hturn]
    rfl

/-- Two groups, the second at the second attempt. -/
def twoGroups : List Move := [.add 4 (some true), .add 2 none, .add 2 (some false)]

/-- The flag of a new group is up, and its wake is queued. -/
theorem wakes_kept_two : ∃ ls h, Run { config := {} } ls h ∧ (∃ g, h.groups 4 = some g ∧ g.wakeQueued = true ∧
    (g.wake ∈ h.groupWakes ∨ g.wake ∈ h.requests)) := by
  have hplay : (play (twoGroups ++ [.queueWake ⟨4, 1⟩]) { config := {} }).bind
      (fun r => (r.2.groups 4).map Group.wakeQueued) = some true := by
    decide
  obtain ⟨⟨ls, h⟩, hr, hg⟩ := Option.bind_eq_some_iff.mp hplay
  obtain ⟨g, hg, hflag⟩ := Option.map_eq_some_iff.mp hg
  have hrun := play_run (.nil _) hr
  exact ⟨_, h, hrun, g, hg, hflag, (wakes_kept hrun).1 4 g hg hflag⟩

/-! ### Turns -/

/-- How far the event loop is through the groups of a drive. -/
def offset (h : Host) : ℕ :=
  match h.phase with
  | .roundRobin offset _ => offset
  | _ => 0

/-- The group at a position has been driven since `h0`, or it is stopped. -/
def Turned (h0 : Host) (ls : List Label) (h : Host) (i : ℕ) : Prop :=
  ∀ id, h0.groupIds[i]? = some id → .driven id ∈ ls ∨ ∃ g, h.groups id = some g ∧ g.stopped = true

/-- Since `h0` the turn has come to so many groups, one after another. -/
structure Progress (h0 : Host) (ls : List Label) (h : Host) : Prop where
  config : h.config = h0.config
  groupIds : h.groupIds = h0.groupIds
  cursor : h.roundRobinCursor =
    (h0.roundRobinCursor + ls.count .finished * h0.driveCount) % h0.groupIds.length
  turned : ∀ k < ls.count .finished * h0.driveCount + h.offset,
    Turned h0 ls h ((h0.roundRobinCursor + k) % h0.groupIds.length)

variable {h0 : Host} {ls : List Label}

theorem Turned.mono {i : ℕ} (ht : Turned h0 ls h i) (l : Label)
    (hstop : ∀ id g, h.groups id = some g → g.stopped = true → ∃ g', h'.groups id = some g' ∧ g'.stopped = true) :
    Turned h0 (ls ++ [l]) h' i := by
  intro id hid
  rcases ht id hid with hmem | ⟨g, hg, hs⟩
  · exact Or.inl (List.mem_append_left _ hmem)
  · exact Or.inr (hstop id g hg hs)

/-- A step that finishes no drive and gives nobody a turn. -/
theorem Progress.keeps (hp : Progress h0 ls h) {l : Label} (hl : l ≠ .finished) (hk : Keeps h h')
    {h'' : Host} (hsame : (h''.config, h''.groupIds, h''.roundRobinCursor, h''.groups) =
      (h'.config, h'.groupIds, h'.roundRobinCursor, h'.groups)) (hoff : h''.offset = h.offset) :
    Progress h0 (ls ++ [l]) h'' := by
  simp only [Prod.mk.injEq] at hsame
  obtain ⟨hc, hids, hcur, hgroups⟩ := hsame
  have hcount : (ls ++ [l]).count .finished = ls.count .finished := by
    rw [List.count_append, List.count_singleton, if_neg (by simpa using hl), Nat.add_zero]
  refine ⟨(hc.trans hk.config).trans hp.config, (hids.trans hk.groupIds).trans hp.groupIds, ?_, ?_⟩
  · rw [hcount]
    exact (hcur.trans hk.cursor).trans hp.cursor
  · rw [hcount, hoff]
    refine fun k hlt => (hp.turned k hlt).mono l fun id g hg hs => ?_
    obtain ⟨g', hg', -, hs'⟩ := hk.some id g hg
    rw [hgroups]
    exact ⟨g', hg', hs' hs⟩

/-- The next group has its turn. -/
theorem Progress.turn (hs : Sound h) (hp : Progress h0 ls h) {count k : ℕ} {p : Polled} {r : Host × Option ℕ}
    (hphase : h.phase = .roundRobin k count) (hlt : k < count) (hr : h.turn k p = some r) :
    Progress h0 (ls ++ [Label.ofDriven r.2]) { r.1 with phase := .roundRobin (k + 1) count } := by
  obtain ⟨id, g, hid, hg, hturn⟩ := hs.turn hphase hlt p
  have hk := keeps_turn hs hr
  have hr : r = _ := Option.some.inj (hr.symm.trans hturn)
  have hl : Label.ofDriven r.2 ≠ .finished := by
    cases r.2 <;> exact nofun
  have hcount : (ls ++ [Label.ofDriven r.2]).count .finished = ls.count .finished := by
    rw [List.count_append, List.count_singleton, if_neg (by simpa using hl), Nat.add_zero]
  have hoff : h.offset = k := by
    unfold offset
    rw [hphase]
  have hstop : ∀ id g, h.groups id = some g → g.stopped = true → ∃ g', r.1.groups id = some g' ∧ g'.stopped = true := by
    intro id g hg hs
    obtain ⟨g', hg', -, hs'⟩ := hk.some id g hg
    exact ⟨g', hg', hs' hs⟩
  refine ⟨hk.config.trans hp.config, hk.groupIds.trans hp.groupIds, ?_, fun j hj => ?_⟩
  · rw [hcount]
    exact hk.cursor.trans hp.cursor
  rw [hcount] at hj
  have hj : j ≤ ls.count .finished * h0.driveCount + k := Nat.le_of_lt_succ hj
  rcases lt_or_eq_of_le hj with hj | rfl
  · exact (hp.turned j (hoff ▸ hj)).mono _ hstop
  · -- the position of the group that has its turn
    have hpos : (h0.roundRobinCursor + (ls.count .finished * h0.driveCount + k)) % h0.groupIds.length =
        (h.roundRobinCursor + k) % h.groupIds.length := by
      rw [hp.groupIds, hp.cursor, Nat.mod_add_mod, Nat.add_assoc]
    intro id' hid'
    rw [hpos, ← hp.groupIds, hid] at hid'
    cases hid'
    by_cases hstopped : g.stopped = true
    · exact Or.inr (hstop id g hg hstopped)
    · rw [if_neg hstopped] at hr
      rw [hr]
      refine Or.inl (List.mem_append_right _ ?_)
      show Label.driven id ∈ [Label.driven g.id]
      rw [hs.ids id g hg]
      exact List.mem_singleton.mpr rfl

/-- A drive is over. -/
theorem Progress.finish (hs : Sound h) (hp : Progress h0 ls h) {count : ℕ}
    (hphase : h.phase = .roundRobin count count) : Progress h0 (ls ++ [.finished]) (h.finish count) := by
  have he := ended_finish hs count
  have hcount : count = h0.driveCount := by
    rw [(hs.turns count count hphase).2]
    unfold driveCount
    rw [hp.config, hp.groupIds]
  have hfinished : (ls ++ [Label.finished]).count .finished = ls.count .finished + 1 := by
    rw [List.count_append, List.count_singleton_self]
  have hoff : h.offset = count := by
    unfold offset
    rw [hphase]
  have hsum : (ls.count .finished + 1) * h0.driveCount = ls.count .finished * h0.driveCount + count := by
    rw [Nat.succ_mul, hcount]
  refine ⟨he.config.trans hp.config, he.groupIds.trans hp.groupIds, ?_, fun j hj => ?_⟩
  · rw [hfinished, hsum]
    rcases Nat.eq_zero_or_pos h.groupIds.length with hlen | hlen
    · have hzero : count = 0 := by
        have hle : h0.driveCount ≤ h0.groupIds.length := min_le_right _ _
        rw [← hp.groupIds] at hle
        omega
      rw [he.stays hlen, hp.cursor, hzero, Nat.add_zero]
    · rw [he.cursor hlen, hp.cursor, hp.groupIds, Nat.mod_add_mod, Nat.add_assoc]
  · rw [hfinished, hsum] at hj
    have hj : j < ls.count .finished * h0.driveCount + h.offset := by
      rw [hoff]
      exact hj
    exact (hp.turned j hj).mono _ he.stopped

theorem Progress.step (hs : Sound h) (hp : Progress h0 ls h) {l : Label} (hl : l ≠ .changed) (hstep : Step h l h') :
    Progress h0 (ls ++ [l]) h' := by
  cases hstep with
  | raiseWake id g hg =>
      have hk := keeps_raiseWake hs hg
      refine hp.keeps (l := .quiet) nofun hk rfl ?_
      unfold offset
      rw [hk.phase]
  | queueWake w hmem =>
      have hk := keeps_queueWake hs w
      refine hp.keeps (l := .quiet) nofun hk rfl ?_
      unfold offset
      rw [hk.phase]
  | begin hphase =>
      refine hp.keeps (l := .quiet) nofun (.refl h) rfl ?_
      unfold offset
      rw [hphase]
  | pollWake left wake rest p hphase hq =>
      have hs1 : Sound { h with groupWakes := rest, phase := .priority left } := hs.move (by rintro _ _ ⟨⟩) _
      have hk := keeps_pollWake hs1 wake p
      have hp1 : Progress h0 ls { h with groupWakes := rest, phase := .priority left } :=
        ⟨hp.config, hp.groupIds, hp.cursor, fun k hlt => hp.turned k (lt_of_lt_of_le hlt (Nat.le_add_right _ _))⟩
      refine hp1.keeps ?_ hk rfl ?_
      · generalize ({ h with groupWakes := rest, phase := .priority left }.pollWake wake p).2 = d
        cases d <;> exact nofun
      · unfold offset
        rw [hk.phase]
  | polled left hphase hleft =>
      refine hp.keeps (l := .quiet) nofun (.refl h) rfl ?_
      unfold offset
      rw [hphase]
  | turn k count p r hphase hlt hr => exact hp.turn hs hphase hlt hr
  | finish count hphase => exact hp.finish hs hphase
  | add => exact absurd rfl hl
  | remove => exact absurd rfl hl

theorem Progress.run (hs : Sound h0) (hw : Wakes h0) (hidle : h0.phase = .idle) (hrun : Run h0 ls h)
    (hl : Label.changed ∉ ls) : Progress h0 ls h := by
  induction hrun with
  | nil =>
      refine ⟨rfl, rfl, ?_, fun k hk => ?_⟩
      · rw [List.count_nil, Nat.zero_mul, Nat.add_zero]
        have hle := hs.cursor
        rcases Nat.eq_zero_or_pos h0.groupIds.length with hlen | hlen
        · rw [hlen, Nat.mod_zero]
        · exact (Nat.mod_eq_of_lt (by omega)).symm
      · unfold offset at hk
        rw [hidle, List.count_nil, Nat.zero_mul] at hk
        cases hk
  | snoc hrun hstep ih =>
      have hls := fun hmem => hl (List.mem_append_left _ hmem)
      have hne := fun heq => hl (List.mem_append_right _ (List.mem_singleton.mpr heq))
      obtain ⟨hs', -, -⟩ := hrun.sound hs hw
      exact (ih hls).step hs' (fun heq => hne heq.symm) hstep

/-- Every position comes after the cursor, if one goes all the way round. -/
theorem reached_of_cursor {n i : ℕ} (hi : i < n) (c : ℕ) : ∃ k < n, (c + k) % n = i := by
  have hpos : 0 < n := Nat.zero_lt_of_lt hi
  refine ⟨(i + (n - c % n)) % n, Nat.mod_lt _ hpos, ?_⟩
  have hc := Nat.mod_lt c hpos
  calc (c + (i + (n - c % n)) % n) % n = (c % n + (i + (n - c % n))) % n := by
        rw [Nat.add_mod_mod, Nat.mod_add_mod]
    _ = (i + n) % n := by congr 1; omega
    _ = i := by rw [Nat.add_mod_right, Nat.mod_eq_of_lt hi]

/-- **Everybody has a turn.**  While no group comes or goes, drives that are long enough together to go round once
drive every group that is not stopped, whoever wakes groups meanwhile, and whatever their ticks come to. -/
theorem every_group_driven {config : HostConfig} {ls0 : List Label} (hreach : Run { config := config } ls0 h0)
    (hidle : h0.phase = .idle) (hrun : Run h0 ls h) (hl : Label.changed ∉ ls)
    (hround : h0.groupIds.length ≤ ls.count .finished * min config.groupDriveBudget h0.groupIds.length) :
    ∀ id ∈ h0.groupIds, .driven id ∈ ls ∨ ∃ g, h.groups id = some g ∧ g.stopped = true := by
  obtain ⟨hs, hw, hc⟩ := hreach.sound (sound_create config) (wakes_create config)
  have hp := Progress.run hs hw hidle hrun hl
  have hcount : h0.driveCount = min config.groupDriveBudget h0.groupIds.length := by
    unfold driveCount
    rw [hc]
  rw [← hcount] at hround
  intro id hid
  obtain ⟨i, hi, rfl⟩ := List.getElem_of_mem hid
  obtain ⟨k, hk, hki⟩ := reached_of_cursor hi h0.roundRobinCursor
  have hturned := hp.turned k (by omega)
  rw [hki] at hturned
  exact hturned _ (List.getElem?_eq_getElem hi)

/-- One drive, in which nobody is woken and one group has its turn. -/
def oneTurn : List Move := [.begin, .polled, .turn (.worked none), .finish]

/-- With one turn a drive, two drives reach both groups. -/
theorem every_group_driven_two : ∃ (h0 h : Host) (ls : List Label),
    Run h0 ls h ∧ h0.groupIds = [2, 4] ∧ ls.count .finished = 2 ∧ Label.driven 4 ∈ ls := by
  have hplay : ((play twoGroups { config := { groupDriveBudget := 1, priorityPollBudget := 0 } }).bind fun r0 =>
      (play (oneTurn ++ oneTurn) r0.2).map fun r => decide (r0.2.phase = .idle ∧ r0.2.groupIds = [2, 4] ∧
        r.1.count Label.finished = 2 ∧ Label.changed ∉ r.1 ∧
        (r.2.groups 4).map Group.stopped = some false)) = some true := by
    decide
  obtain ⟨⟨ls0, h0⟩, hr0, hr⟩ := Option.bind_eq_some_iff.mp hplay
  obtain ⟨⟨ls, h⟩, hr, heq⟩ := Option.map_eq_some_iff.mp hr
  obtain ⟨hidle, hids, hcount, hl, hactive⟩ := of_decide_eq_true heq
  have hreach := play_run (.nil _) hr0
  have hrun : Run h0 ls h := play_run (.nil _) hr
  have hids : h0.groupIds = [2, 4] := hids
  have hcount : ls.count Label.finished = 2 := hcount
  have hturn := every_group_driven hreach hidle hrun hl (by rw [hids, hcount]; decide) 4 (by rw [hids]; decide)
  refine ⟨h0, h, ls, hrun, hids, hcount, hturn.resolve_right ?_⟩
  rintro ⟨g, hg, hs⟩
  have hactive : (h.groups 4).map Group.stopped = some false := hactive
  rw [hg, Option.map_some, hs] at hactive
  cases hactive

end Host

end Scheduler

end Raftz
