import Mathlib.Data.Finset.Basic
import Raftz.Mailboxes

/-! # The inbox of a group

The messages of a group on a host wait in its `GroupTransport` (`multi_raft.zig`): ordinary messages
in order, within two bounds, and at most one message with a snapshot, the latest.  Counters say how
much waits and how much was dropped; they are machine integers that other threads read.

The sizes of the structures in memory are the compiler's (`Sizes`). -/

open Base

namespace Raftz

namespace GroupInbox

open Mailboxes (PeerEvent maxUsize)

/-- The sizes of a message and of an entry in memory. -/
structure Sizes where
  message : ℕ
  entry : ℕ

def retainedAdd (left right : ℕ) : ℕ := if left + right ≤ maxUsize then left + right else maxUsize

def retainedMultiply (left right : ℕ) : ℕ := if left * right ≤ maxUsize then left * right else maxUsize

/-- The bytes that a snapshot adds to a total. -/
def retainedSnapshotBytes (total : ℕ) (s : Snapshot) : ℕ :=
  let conf := s.metadata.confState
  [s.data.length, s.membership.length, retainedMultiply conf.voters.length 8, retainedMultiply conf.learners.length 8,
    retainedMultiply conf.votersOutgoing.length 8, retainedMultiply conf.learnersNext.length 8].foldl retainedAdd total

def retainedMessageBytes (sizes : Sizes) (m : Message) : ℕ :=
  let total := retainedAdd sizes.message (retainedMultiply m.entries.length sizes.entry)
  let total := retainedAdd total m.context.length
  let total := m.entries.foldl (fun t e => retainedAdd (retainedAdd t e.data.length) e.context.length) total
  (m.snapshot.map (retainedSnapshotBytes total)).getD total

/-- `fetchAdd` and `fetchSub` of a counter. -/
def fetchAdd (counter n : ℕ) : ℕ := (counter + n) % 2 ^ 64

def fetchSub (counter n : ℕ) : ℕ := (counter + (2 ^ 64 - n % 2 ^ 64)) % 2 ^ 64

theorem fetchAdd_mod (a n : ℕ) : fetchAdd (a % 2 ^ 64) n = (a + n) % 2 ^ 64 := Nat.mod_add_mod _ _ _

theorem fetchSub_mod (a n : ℕ) : fetchSub ((a + n) % 2 ^ 64) n = a % 2 ^ 64 := by
  unfold fetchSub
  omega

/-- The transport of a group; `identity` is the node that the shared transport speaks for. -/
structure GroupTransport where
  identity : Option ℕ
  maxInboxMessages : ℕ
  maxInboxBytes : ℕ
  maxPeerEvents : ℕ
  peers : Finset ℕ := ∅
  inbox : List Message := []
  snapshotInbox : Option Message := none
  peerEvents : List PeerEvent := []
  pendingMessages : ℕ := 0
  pendingMessageBytes : ℕ := 0
  pendingPeerEvents : ℕ := 0
  droppedMessages : ℕ := 0
  droppedMessageBytes : ℕ := 0
  droppedPeerEvents : ℕ := 0
  stopped : Bool := false

/-- What an operation shows. -/
inductive Shown
  | stored (m : Message)
  | refused (m : Message)
  | delivered (m : Message)
  | event (e : PeerEvent)
  | quiet

/-- An operation of the host or of the group. -/
inductive Op
  | enqueueMessage (m : Message)
  | enqueuePeerEvent (e : PeerEvent)
  | pollOne (messageCallback peerEventCallback : Bool)
  | setLimits (maxInboxMessages maxInboxBytes maxPeerEvents : ℕ)
  | setPeers (peers : Finset ℕ)
  | stop

namespace GroupTransport

/-- Does a message come from a node that the group knows? -/
def validSource (t : GroupTransport) (m : Message) : Bool :=
  match t.identity with
  | none => true
  | some nodeId =>
      if m.msgType = .transferLeader then decide (m.sender = nodeId ∨ m.sender ∈ t.peers)
      else decide (m.sender ∈ t.peers)

/-- A message with a snapshot takes the place of the one that waits. -/
def storeSnapshot (sizes : Sizes) (t : GroupTransport) (m : Message) : GroupTransport :=
  match t.snapshotInbox with
  | some previous =>
      let previousBytes := retainedMessageBytes sizes previous
      { t with
        snapshotInbox := some m
        pendingMessageBytes := fetchAdd (fetchSub t.pendingMessageBytes previousBytes) (retainedMessageBytes sizes m)
        droppedMessages := fetchAdd t.droppedMessages 1
        droppedMessageBytes := fetchAdd t.droppedMessageBytes previousBytes }
  | none =>
      { t with
        snapshotInbox := some m
        pendingMessages := fetchAdd t.pendingMessages 1
        pendingMessageBytes := fetchAdd t.pendingMessageBytes (retainedMessageBytes sizes m) }

def enqueueMessage (sizes : Sizes) (t : GroupTransport) (m : Message) : Shown × GroupTransport :=
  if t.validSource m = false then (.quiet, t)
  else if t.stopped = true then (.quiet, t)
  else if m.msgType = .snapshot then (.stored m, t.storeSnapshot sizes m)
  else if t.maxInboxMessages ≤ t.inbox.length ∨
      t.maxInboxBytes - t.pendingMessageBytes < retainedMessageBytes sizes m then
    (.refused m, { t with
      droppedMessages := fetchAdd t.droppedMessages 1
      droppedMessageBytes := fetchAdd t.droppedMessageBytes (retainedMessageBytes sizes m) })
  else (.stored m, { t with
    inbox := t.inbox ++ [m]
    pendingMessages := fetchAdd t.pendingMessages 1
    pendingMessageBytes := fetchAdd t.pendingMessageBytes (retainedMessageBytes sizes m) })

def enqueuePeerEvent (t : GroupTransport) (e : PeerEvent) : Shown × GroupTransport :=
  if t.stopped = true then (.quiet, t)
  else if t.maxPeerEvents ≤ t.peerEvents.length then
    (.quiet, { t with droppedPeerEvents := fetchAdd t.droppedPeerEvents 1 })
  else (.quiet, { t with
    peerEvents := t.peerEvents ++ [e]
    pendingPeerEvents := fetchAdd t.pendingPeerEvents 1 })

/-- Take an event, if there is one and somebody to take it. -/
def pollEvent (t : GroupTransport) (peerEventCallback : Bool) : Shown × GroupTransport :=
  match t.peerEvents with
  | [] => (.quiet, t)
  | e :: rest =>
      if peerEventCallback = true then
        (.event e, { t with peerEvents := rest, pendingPeerEvents := fetchSub t.pendingPeerEvents 1 })
      else (.quiet, t)

def pollOne (sizes : Sizes) (t : GroupTransport) (messageCallback peerEventCallback : Bool) : Shown × GroupTransport :=
  if t.stopped = true then (.quiet, t)
  else
    match t.snapshotInbox, t.inbox with
    | some m, _ =>
        if messageCallback = true then
          (.delivered m, { t with
            snapshotInbox := none
            pendingMessages := fetchSub t.pendingMessages 1
            pendingMessageBytes := fetchSub t.pendingMessageBytes (retainedMessageBytes sizes m) })
        else (.quiet, t)
    | none, m :: rest =>
        if messageCallback = true then
          (.delivered m, { t with
            inbox := rest
            pendingMessages := fetchSub t.pendingMessages 1
            pendingMessageBytes := fetchSub t.pendingMessageBytes (retainedMessageBytes sizes m) })
        else (.quiet, t)
    | none, [] => t.pollEvent peerEventCallback

def exec (sizes : Sizes) (t : GroupTransport) : Op → Shown × GroupTransport
  | .enqueueMessage m => t.enqueueMessage sizes m
  | .enqueuePeerEvent e => t.enqueuePeerEvent e
  | .pollOne messageCallback peerEventCallback => t.pollOne sizes messageCallback peerEventCallback
  | .setLimits maxInboxMessages maxInboxBytes maxPeerEvents =>
      (.quiet, { t with
        maxInboxMessages := maxInboxMessages
        maxInboxBytes := maxInboxBytes
        maxPeerEvents := maxPeerEvents })
  | .setPeers peers => (.quiet, { t with peers := peers })
  | .stop => (.quiet, { t with stopped := true })

/-- Operations one after another, with what they show. -/
def run (sizes : Sizes) : List Op → GroupTransport → List Shown × GroupTransport
  | [], t => ([], t)
  | op :: ops, t =>
      let r := t.exec sizes op
      let s := run sizes ops r.2
      (r.1 :: s.1, s.2)

/-- What waits. -/
def waiting (t : GroupTransport) : List Message := t.snapshotInbox.toList ++ t.inbox

end GroupTransport

/-! ### Accounts -/

namespace Shown

/-- The ordinary messages that were stored, and those that were delivered. -/
def storedOrdinary : Shown → Option Message
  | .stored m => if m.msgType = .snapshot then none else some m
  | _ => none

def deliveredOrdinary : Shown → Option Message
  | .delivered m => if m.msgType = .snapshot then none else some m
  | _ => none

/-- Was a message offered that the group took note of, or delivered? -/
def isOffered : Shown → Bool
  | .stored _ => true
  | .refused _ => true
  | _ => false

def isDelivered : Shown → Bool
  | .delivered _ => true
  | _ => false

end Shown

open GroupTransport

/-- What a run with these outcomes leaves: the counters count, and ordinary messages wait in the order in which
they were stored. -/
structure Accounts (sizes : Sizes) (shown : List Shown) (t : GroupTransport) : Prop where
  fifo : shown.filterMap Shown.storedOrdinary = shown.filterMap Shown.deliveredOrdinary ++ t.inbox
  ordinary : ∀ m ∈ t.inbox, m.msgType ≠ .snapshot
  snapshot : ∀ m, t.snapshotInbox = some m → m.msgType = .snapshot
  pending : t.pendingMessages = t.waiting.length % 2 ^ 64
  bytes : t.pendingMessageBytes = (t.waiting.map (retainedMessageBytes sizes)).sum % 2 ^ 64
  dropped : (t.droppedMessages + shown.countP Shown.isDelivered + t.waiting.length) % 2 ^ 64 =
    shown.countP Shown.isOffered % 2 ^ 64

variable {sizes : Sizes} {shown : List Shown} {t : GroupTransport}

/-- An operation that shows nothing and leaves the messages alone. -/
theorem Accounts.quiet (h : Accounts sizes shown t) {x : Shown} (hx : x = .quiet ∨ ∃ e, x = .event e)
    {t' : GroupTransport}
    (hsame : (t'.inbox, t'.snapshotInbox, t'.pendingMessages, t'.pendingMessageBytes, t'.droppedMessages) =
      (t.inbox, t.snapshotInbox, t.pendingMessages, t.pendingMessageBytes, t.droppedMessages)) :
    Accounts sizes (shown ++ [x]) t' := by
  simp only [Prod.mk.injEq] at hsame
  obtain ⟨hin, hsnap, hpend, hbytes, hdrop⟩ := hsame
  have hwait : t'.waiting = t.waiting := by
    unfold waiting
    rw [hin, hsnap]
  refine ⟨?_, hin ▸ h.ordinary, hsnap ▸ h.snapshot, ?_, ?_, ?_⟩
  · rw [List.filterMap_append, List.filterMap_append, hin]
    rcases hx with rfl | ⟨e, rfl⟩
    all_goals
      simp only [List.filterMap_cons, List.filterMap_nil, Shown.storedOrdinary, Shown.deliveredOrdinary, List.append_nil]
      exact h.fifo
  · rw [hpend, hwait]
    exact h.pending
  · rw [hbytes, hwait]
    exact h.bytes
  · rw [hdrop, hwait, List.countP_append, List.countP_append]
    rcases hx with rfl | ⟨e, rfl⟩
    all_goals exact h.dropped

/-- A snapshot is stored. -/
theorem Accounts.storeSnapshot (h : Accounts sizes shown t) {m : Message} (hm : m.msgType = .snapshot) :
    Accounts sizes (shown ++ [.stored m]) (t.storeSnapshot sizes m) := by
  have hfifo : (shown ++ [Shown.stored m]).filterMap Shown.storedOrdinary =
      (shown ++ [Shown.stored m]).filterMap Shown.deliveredOrdinary ++ t.inbox := by
    rw [List.filterMap_append, List.filterMap_append]
    simp only [List.filterMap_cons, List.filterMap_nil, Shown.storedOrdinary, Shown.deliveredOrdinary, hm, if_true,
      List.append_nil]
    exact h.fifo
  have hcount : (shown ++ [Shown.stored m]).countP Shown.isDelivered = shown.countP Shown.isDelivered := by
    rw [List.countP_append]
    rfl
  have hoffered : (shown ++ [Shown.stored m]).countP Shown.isOffered = shown.countP Shown.isOffered + 1 := by
    rw [List.countP_append]
    rfl
  have hpending := h.pending
  have hbytes := h.bytes
  have hdropped := h.dropped
  have hsnap : ∀ m', some m = some m' → m'.msgType = .snapshot := by
    rintro m' ⟨⟩
    exact hm
  unfold waiting at hpending hbytes hdropped
  unfold GroupTransport.storeSnapshot
  cases hs : t.snapshotInbox with
  | none =>
      rw [hs] at hpending hbytes hdropped
      refine ⟨hfifo, h.ordinary, hsnap, ?_, ?_, ?_⟩
      · show fetchAdd t.pendingMessages 1 = _
        rw [hpending, fetchAdd_mod]
        rfl
      · show fetchAdd t.pendingMessageBytes _ = _
        rw [hbytes, fetchAdd_mod, Nat.add_comm]
        rfl
      · rw [hcount, hoffered]
        show (t.droppedMessages + _ + (t.inbox.length + 1)) % 2 ^ 64 = _
        have hdropped : (t.droppedMessages + shown.countP Shown.isDelivered + t.inbox.length) % 2 ^ 64 = _ := hdropped
        omega
  | some previous =>
      rw [hs] at hpending hbytes hdropped
      refine ⟨hfifo, h.ordinary, hsnap, hpending, ?_, ?_⟩
      · show fetchAdd (fetchSub t.pendingMessageBytes (retainedMessageBytes sizes previous)) _ = _
        have hsum : (([previous] ++ t.inbox).map (retainedMessageBytes sizes)).sum =
            (t.inbox.map (retainedMessageBytes sizes)).sum + retainedMessageBytes sizes previous := Nat.add_comm _ _
        rw [hbytes, show (some previous).toList = [previous] from rfl, hsum, fetchSub_mod, fetchAdd_mod, Nat.add_comm]
        rfl
      · rw [hcount, hoffered]
        show (fetchAdd t.droppedMessages 1 + _ + (t.inbox.length + 1)) % 2 ^ 64 = _
        have hdropped : (t.droppedMessages + shown.countP Shown.isDelivered + (t.inbox.length + 1)) % 2 ^ 64 = _ :=
          hdropped
        unfold fetchAdd
        omega

/-- A message is offered to the group. -/
theorem Accounts.enqueueMessage (h : Accounts sizes shown t) (m : Message) :
    Accounts sizes (shown ++ [(t.enqueueMessage sizes m).1]) (t.enqueueMessage sizes m).2 := by
  unfold GroupTransport.enqueueMessage
  split
  · exact h.quiet (Or.inl rfl) rfl
  split
  · exact h.quiet (Or.inl rfl) rfl
  split
  · rename_i hm
    exact h.storeSnapshot hm
  rename_i hm
  have hdropped := h.dropped
  split
  · refine ⟨?_, h.ordinary, h.snapshot, h.pending, h.bytes, ?_⟩
    · rw [List.filterMap_append, List.filterMap_append]
      simp only [List.filterMap_cons, List.filterMap_nil, Shown.storedOrdinary, Shown.deliveredOrdinary, List.append_nil]
      exact h.fifo
    · rw [List.countP_append, List.countP_append]
      show (fetchAdd t.droppedMessages 1 + (shown.countP Shown.isDelivered + 0) + t.waiting.length) % 2 ^ 64 =
        (shown.countP Shown.isOffered + 1) % 2 ^ 64
      unfold fetchAdd
      omega
  · have hwait : ({ t with
        inbox := t.inbox ++ [m]
        pendingMessages := fetchAdd t.pendingMessages 1
        pendingMessageBytes := fetchAdd t.pendingMessageBytes (retainedMessageBytes sizes m) } :
          GroupTransport).waiting = t.waiting ++ [m] := (List.append_assoc _ _ _).symm
    refine ⟨?_, ?_, h.snapshot, ?_, ?_, ?_⟩
    · rw [List.filterMap_append, List.filterMap_append]
      simp only [List.filterMap_cons, List.filterMap_nil, Shown.storedOrdinary, Shown.deliveredOrdinary, hm, if_false,
        List.append_nil]
      rw [h.fifo, List.append_assoc]
    · intro x hx
      rcases List.mem_append.mp hx with hx | hx
      · exact h.ordinary x hx
      · cases List.mem_singleton.mp hx
        exact hm
    · rw [hwait, List.length_append]
      show fetchAdd t.pendingMessages 1 = _
      rw [h.pending, fetchAdd_mod]
      rfl
    · rw [hwait, List.map_append, List.sum_append]
      show fetchAdd t.pendingMessageBytes _ = _
      rw [h.bytes, fetchAdd_mod]
      rfl
    · rw [hwait, List.length_append, List.countP_append, List.countP_append]
      show (t.droppedMessages + (shown.countP Shown.isDelivered + 0) + (t.waiting.length + 1)) % 2 ^ 64 =
        (shown.countP Shown.isOffered + 1) % 2 ^ 64
      omega

/-- A message that waits is delivered. -/
theorem Accounts.deliver (h : Accounts sizes shown t) {m : Message} {rest : List Message} {t' : GroupTransport}
    (hwait : t.waiting = m :: rest) (hrest : t'.waiting = rest)
    (hordinary : ∀ m ∈ t'.inbox, m.msgType ≠ .snapshot)
    (hsnapshot : ∀ m, t'.snapshotInbox = some m → m.msgType = .snapshot)
    (hfifo : t.inbox = (Shown.deliveredOrdinary (.delivered m)).toList ++ t'.inbox)
    (hpending : t'.pendingMessages = fetchSub t.pendingMessages 1)
    (hbytes : t'.pendingMessageBytes = fetchSub t.pendingMessageBytes (retainedMessageBytes sizes m))
    (hdropped : t'.droppedMessages = t.droppedMessages) : Accounts sizes (shown ++ [.delivered m]) t' := by
  have hp := h.pending
  have hb := h.bytes
  have hd := h.dropped
  rw [hwait] at hp hb hd
  refine ⟨?_, hordinary, hsnapshot, ?_, ?_, ?_⟩
  · rw [List.filterMap_append, List.filterMap_append, List.append_assoc]
    have hone : [Shown.delivered m].filterMap Shown.deliveredOrdinary =
        (Shown.deliveredOrdinary (.delivered m)).toList := by
      rw [List.filterMap_cons]
      cases Shown.deliveredOrdinary (.delivered m) <;> rfl
    rw [hone, ← hfifo, show [Shown.delivered m].filterMap Shown.storedOrdinary = [] from rfl, List.append_nil]
    exact h.fifo
  · rw [hpending, hp, hrest, List.length_cons, fetchSub_mod]
  · rw [hbytes, hb, hrest, List.map_cons, List.sum_cons, Nat.add_comm, fetchSub_mod]
  · rw [hdropped, hrest, List.countP_append, List.countP_append]
    show (t.droppedMessages + (shown.countP Shown.isDelivered + 1) + rest.length) % 2 ^ 64 =
      (shown.countP Shown.isOffered + 0) % 2 ^ 64
    rw [List.length_cons] at hd
    omega

theorem Accounts.pollOne (h : Accounts sizes shown t) (messageCallback peerEventCallback : Bool) :
    Accounts sizes (shown ++ [(t.pollOne sizes messageCallback peerEventCallback).1])
      (t.pollOne sizes messageCallback peerEventCallback).2 := by
  unfold GroupTransport.pollOne
  split
  · exact h.quiet (Or.inl rfl) rfl
  cases hs : t.snapshotInbox with
  | some m =>
      dsimp only
      split
      · have hm := h.snapshot m hs
        refine h.deliver (m := m) ?_ rfl h.ordinary nofun ?_ rfl rfl rfl
        · unfold waiting
          rw [hs]
          rfl
        · simp only [Shown.deliveredOrdinary, hm, if_true, Option.toList_none, List.nil_append]
      · exact h.quiet (Or.inl rfl) rfl
  | none =>
      cases hin : t.inbox with
      | cons m rest =>
          dsimp only
          split
          · have hm := h.ordinary m (by rw [hin]; exact List.mem_cons_self)
            have hwait : t.waiting = m :: rest := by
              unfold waiting
              rw [hs, hin]
              rfl
            refine h.deliver hwait rfl (fun x hx => h.ordinary x ?_) nofun ?_ rfl rfl rfl
            · rw [hin]
              exact List.mem_cons_of_mem _ hx
            · simp only [Shown.deliveredOrdinary, hm, if_false, Option.toList_some]
              exact hin
          · exact h.quiet (Or.inl rfl) rfl
      | nil =>
          dsimp only [pollEvent]
          split
          · exact h.quiet (Or.inl rfl) rfl
          · split
            · exact h.quiet (Or.inr ⟨_, rfl⟩) rfl
            · exact h.quiet (Or.inl rfl) rfl

theorem Accounts.exec (h : Accounts sizes shown t) (op : Op) :
    Accounts sizes (shown ++ [(t.exec sizes op).1]) (t.exec sizes op).2 := by
  cases op with
  | enqueueMessage m => exact h.enqueueMessage m
  | enqueuePeerEvent e =>
      show Accounts sizes (shown ++ [(t.enqueuePeerEvent e).1]) (t.enqueuePeerEvent e).2
      unfold GroupTransport.enqueuePeerEvent
      split
      · exact h.quiet (Or.inl rfl) rfl
      · split <;> exact h.quiet (Or.inl rfl) rfl
  | pollOne messageCallback peerEventCallback => exact h.pollOne messageCallback peerEventCallback
  | setLimits maxInboxMessages maxInboxBytes maxPeerEvents => exact h.quiet (Or.inl rfl) rfl
  | setPeers peers => exact h.quiet (Or.inl rfl) rfl
  | stop => exact h.quiet (Or.inl rfl) rfl

theorem Accounts.run (h : Accounts sizes shown t) (ops : List Op) :
    Accounts sizes (shown ++ (GroupTransport.run sizes ops t).1) (GroupTransport.run sizes ops t).2 := by
  induction ops generalizing shown t with
  | nil =>
      rw [show (GroupTransport.run sizes [] t).1 = [] from rfl, List.append_nil]
      exact h
  | cons op ops ih =>
      have hrest := ih (h.exec op)
      rw [List.append_assoc] at hrest
      exact hrest

/-- A new transport of a group. -/
def GroupTransport.init (identity : Option ℕ) (maxInboxMessages maxInboxBytes maxPeerEvents : ℕ) : GroupTransport where
  identity := identity
  maxInboxMessages := maxInboxMessages
  maxInboxBytes := maxInboxBytes
  maxPeerEvents := maxPeerEvents

/-- **No message is lost or counted wrong.**  Whatever the host and the group do with a new transport: ordinary
messages are delivered in the order in which they were stored, and the rest of them wait; the counters of what
waits are its number and its bytes; and every message that the group took note of is delivered, waits, or is
counted as dropped. -/
theorem messages_accounted (sizes : Sizes) (identity : Option ℕ) (maxInboxMessages maxInboxBytes maxPeerEvents : ℕ)
    (ops : List Op) :
    Accounts sizes (run sizes ops (.init identity maxInboxMessages maxInboxBytes maxPeerEvents)).1
      (run sizes ops (.init identity maxInboxMessages maxInboxBytes maxPeerEvents)).2 := by
  have hinit : Accounts sizes [] (.init identity maxInboxMessages maxInboxBytes maxPeerEvents) :=
    ⟨rfl, nofun, nofun, rfl, rfl, rfl⟩
  have h := hinit.run ops
  rw [List.nil_append] at h
  exact h

end GroupInbox

end Raftz
