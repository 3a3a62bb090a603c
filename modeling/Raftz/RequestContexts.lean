import Raftz.Base.Versioned
import Raftz.DiskFormats
import Raftz.Requests

/-! # Request contexts

A request is known by its context: the node, the incarnation of the node, a sequence
number and the caller's suffix (`request_context.zig`).  The incarnation is taken from the
metadata of the log, one up each time a driver starts (`reserveIncarnation` of `wal.zig`);
the sequence number from a counter that all callers share.

A node is followed through crashes and restarts over one log.  Of the log only the
metadata file matters here, and it is kept as the metadata it encodes.  A caller is
between two of its accesses to the counter, or holds its context; the size of a request
is checked when it is submitted, although the driver checks it first.  A failing step
of `save` stands for a crash at that point as well. -/

open Base

namespace Raftz

namespace RequestContexts

open Requests DiskFormats

/-! ### Contexts -/

/-- The characters `RZCX`. -/
def magic : Bytes := [0x52, 0x5A, 0x43, 0x58]

/-- Version of the format. -/
def version : UInt8 := 1

/-- What a context is for. -/
inductive Kind
  | proposal
  | readIndex
  deriving DecidableEq, Repr

/-- The byte of a kind. -/
def Kind.toByte : Kind → UInt8
  | .proposal => 1
  | .readIndex => 2

/-- The kind with a byte. -/
def Kind.ofByte (b : UInt8) : Option Kind :=
  if b = 1 then some .proposal else if b = 2 then some .readIndex else none

/-- The fixed part of a context. -/
structure Header where
  kind : Kind
  nodeId : ℕ
  incarnation : ℕ
  sequence : ℕ
  deriving DecidableEq, Repr

/-- A context: its header and the suffix. -/
def contextOf (h : Header) (suffix : Bytes) : Bytes :=
  magic ++ ([version, h.kind.toByte, 0, 0] ++ (leBytes h.nodeId 8 ++ (leBytes h.incarnation 8 ++
    (leBytes h.sequence 8 ++ suffix))))

/-- Read the header of a context. -/
def decode (context : Bytes) : Option Header :=
  if context.length < headerSize then none
  else if context.take 4 ≠ magic then none
  else if intAt context 4 1 ≠ version.toNat ∨ intAt context 6 1 ≠ 0 ∨ intAt context 7 1 ≠ 0 then none
  else
    match context[5]?.bind Kind.ofByte with
    | none => none
    | some kind => some ⟨kind, intAt context 8 8, intAt context 16 8, intAt context 24 8⟩

/-- The suffix of a context. -/
def suffix (context : Bytes) : Option Bytes := (decode context).map fun _ => context.drop headerSize

/-- The numbers of a header fit their fields. -/
structure Header.Fits (h : Header) : Prop where
  nodeId : h.nodeId ≤ maxU64
  incarnation : h.incarnation ≤ maxU64
  sequence : h.sequence ≤ maxU64

theorem lt_of_le_maxU64 {n : ℕ} (h : n ≤ maxU64) : n < 256 ^ 8 := by
  unfold maxU64 at h
  omega

/-- The incarnation and the sequence number of a context. -/
theorem stamp_contextOf {h : Header} (suffix : Bytes) (hi : h.incarnation ≤ maxU64) (hs : h.sequence ≤ maxU64) :
    intAt (contextOf h suffix) 16 8 = h.incarnation ∧ intAt (contextOf h suffix) 24 8 = h.sequence := by
  constructor
  · have hsplit : contextOf h suffix = (magic ++ ([version, h.kind.toByte, 0, 0] ++ leBytes h.nodeId 8)) ++
        (leBytes h.incarnation 8 ++ (leBytes h.sequence 8 ++ suffix)) := by
      simp [contextOf]
    rw [hsplit]
    exact intAt_append_leBytes (by simp [magic]) (lt_of_le_maxU64 hi)
  · have hsplit : contextOf h suffix =
        (magic ++ ([version, h.kind.toByte, 0, 0] ++ (leBytes h.nodeId 8 ++ leBytes h.incarnation 8))) ++
          (leBytes h.sequence 8 ++ suffix) := by
      simp [contextOf]
    rw [hsplit]
    exact intAt_append_leBytes (by simp [magic]) (lt_of_le_maxU64 hs)

/-- A context is read back. -/
theorem decode_contextOf {h : Header} (hf : h.Fits) (suffix : Bytes) : decode (contextOf h suffix) = some h := by
  obtain ⟨hinc, hseq⟩ := stamp_contextOf suffix hf.incarnation hf.sequence
  have hlen : ¬ (contextOf h suffix).length < headerSize := by
    simp [contextOf, magic, headerSize]
    omega
  have hmagic : (contextOf h suffix).take 4 = magic := rfl
  have hnode : intAt (contextOf h suffix) 8 8 = h.nodeId := by
    have hsplit : contextOf h suffix = (magic ++ [version, h.kind.toByte, 0, 0]) ++
        (leBytes h.nodeId 8 ++ (leBytes h.incarnation 8 ++ (leBytes h.sequence 8 ++ suffix))) := by
      simp [contextOf]
    rw [hsplit]
    exact intAt_append_leBytes (by simp [magic]) (lt_of_le_maxU64 hf.nodeId)
  have hbytes : intAt (contextOf h suffix) 4 1 = version.toNat ∧ intAt (contextOf h suffix) 6 1 = 0 ∧
      intAt (contextOf h suffix) 7 1 = 0 := ⟨rfl, rfl, rfl⟩
  have hkind : (contextOf h suffix)[5]?.bind Kind.ofByte = some h.kind := by
    show Kind.ofByte h.kind.toByte = some h.kind
    cases h.kind <;> rfl
  unfold decode
  rw [if_neg hlen, if_neg (not_not.mpr hmagic), if_neg (by simp [hbytes]), hkind, hnode, hinc, hseq]

theorem suffix_contextOf {h : Header} (hf : h.Fits) (s : Bytes) : suffix (contextOf h s) = some s := by
  unfold suffix
  rw [decode_contextOf hf]
  show some ((contextOf h s).drop headerSize) = some s
  have hsplit : contextOf h s = (magic ++ ([version, h.kind.toByte, 0, 0] ++ (leBytes h.nodeId 8 ++
      (leBytes h.incarnation 8 ++ leBytes h.sequence 8)))) ++ s := by
    simp [contextOf]
  rw [hsplit, List.drop_left' (by simp [magic, headerSize])]

/-! ### The generator -/

/-- What the callers of a driver share. -/
structure Generator where
  nodeId : ℕ
  incarnation : ℕ
  sequence : ℕ := 0
  deriving DecidableEq, Repr

/-- A request of a caller. -/
inductive Request
  | propose (data : Bytes)
  | readIndex (context : Bytes)
  deriving DecidableEq, Repr

namespace Request

/-- What the context of a request is for. -/
def kind : Request → Kind
  | propose _ => .proposal
  | readIndex _ => .readIndex

/-- The suffix of the context of a request. -/
def suffix : Request → Bytes
  | propose _ => []
  | readIndex context => context

/-- Submit a request with its context. -/
def submit (r : Raftor) (context : Except RequestErr Bytes) (oom : Bool) (callback : ℕ) :
    Request → Except RequestErr Raftor
  | propose data => r.propose data context oom callback
  | readIndex suffix => r.readIndex suffix context oom callback

end Request

/-- Where a caller is: in the loop of `nextSequence`, with the value it has last read, or out of
`next`. -/
inductive Caller
  | counting (request : Request) (current : ℕ)
  | holding (request : Request) (context : Except RequestErr Bytes)

/-- The context that a caller has got. -/
def Caller.context? : Caller → Option Bytes
  | .holding _ (.ok context) => some context
  | _ => none

namespace Generator

/-- The weak compare-and-swap, which may fail for no reason; it returns the value in the way. -/
def compareExchange (g : Generator) (current next : ℕ) (spurious : Bool) : Generator × Option ℕ :=
  if g.sequence = current ∧ spurious = false then ({ g with sequence := next }, none)
  else (g, some g.sequence)

/-- Once around the loop of `nextSequence`; when a number is taken, the context is built. -/
def next (g : Generator) (request : Request) (current : ℕ) (spurious oom : Bool) : Generator × Caller :=
  if current = maxU64 then (g, .holding request (.error .contextSequenceExhausted))
  else
    match g.compareExchange current (current + 1) spurious with
    | (g, some actual) => (g, .counting request actual)
    | (g, none) =>
        if oom then (g, .holding request (.error .outOfMemory))
        else (g, .holding request (.ok
          (contextOf ⟨request.kind, g.nodeId, g.incarnation, current⟩ request.suffix)))

end Generator

/-! ### The log -/

/-- What a call on the log reports. -/
inductive LogErr
  | incarnationExhausted
  | fatal
  | fileSystem
  deriving DecidableEq, Repr

/-- Where `save` fails: before the new file takes the name, or when the directory is synced. -/
inductive SaveFault
  | prepare
  | syncDir
  deriving DecidableEq, Repr

/-- The incarnation of a log, and its metadata file. -/
structure Log where
  incarnation : ℕ := 0
  metadata : Versioned (Option Metadata) := ⟨none, []⟩

/-- Replace the metadata file. -/
def save (m : Metadata) (fault : Option SaveFault) : Act LogErr (Versioned (Option Metadata)) Unit :=
  if fault = some .prepare then Act.throw .fileSystem
  else do
    Act.modify (fun f => f.write (some m))
    if fault = some .syncDir then Act.throw .fileSystem
    else Act.modify Versioned.sync

/-- The incarnation in the metadata, 0 when there is none. -/
def incarnationIn (m : Option Metadata) : ℕ := (m.map Metadata.incarnation).getD 0

namespace Log

/-- Save the state of the log; `m` has what the other fields of the log say. -/
def persistMetadataState (m : Metadata) (incarnation : ℕ) (fault : Option SaveFault) : Act LogErr Log Unit :=
  Act.zoom metadata (fun w f => { w with metadata := f }) (save { m with incarnation := incarnation } fault)

/-- Take the next incarnation.  The segments may fail to sync, or the first entry may have none. -/
def reserveIncarnation (m : Metadata) (unsynced lost : Bool) (fault : Option SaveFault) : Act LogErr Log ℕ := do
  let w ← Act.get
  if maxU64 ≤ w.incarnation then Act.throw .incarnationExhausted
  else if unsynced then Act.throw .fileSystem
  else if lost then Act.throw .fatal
  else do
    persistMetadataState m (w.incarnation + 1) fault
    Act.modify (fun w' => { w' with incarnation := w.incarnation + 1 })
    return w.incarnation + 1

/-- The log is opened: the incarnation is the one in the metadata. -/
def recover (w : Log) : Log := { w with incarnation := incarnationIn w.metadata.current }

end Log

/-! ### A node -/

/-- A driver that runs: what its callers share, its requests, its callers, and what has happened to its reads. -/
structure Process where
  generator : Generator
  system : System
  callers : ℕ → Option Caller := fun _ => none
  /-- The context of each call. -/
  own : ℕ → Option Bytes := fun _ => none
  /-- The indices that Raft has returned for a context, since its read was registered. -/
  returned : Bytes → List ℕ := fun _ => []

/-- What a node does. -/
inductive Stage
  | down
  | opened
  | running (p : Process)

/-- A node over its history: every context ever produced, and those of the earlier drivers. -/
structure Node where
  nodeId : ℕ
  log : Log := {}
  stage : Stage := .down
  produced : List Bytes := []
  earlier : List Bytes := []

namespace Process

/-- The reads that wait. -/
def reads (p : Process) : ContextMap PendingRead := p.system.raftor.proposalTracker.reads

/-- The indices returned so far, once the first read of the queue is registered. -/
def returnedOnDrain (p : Process) : Bytes → List ℕ :=
  match p.system.raftor.readIndexQueue.items with
  | [] => p.returned
  | item :: _ => if item.ctx ∈ p.reads then p.returned else Function.update p.returned item.ctx []

/-- A caller starts `propose` or `readIndex`; a proposal is copied first. -/
def enter (p : Process) (t : ℕ) (request : Request) (oom : Bool) : Process :=
  { p with callers := Function.update p.callers t (some
    (if oom then .holding request (.error .outOfMemory) else .counting request p.generator.sequence)) }

/-- A caller goes once around the loop of `nextSequence`. -/
def count (p : Process) (t : ℕ) (request : Request) (current : ℕ) (spurious oom : Bool) : Process :=
  { p with
    generator := (p.generator.next request current spurious oom).1
    callers := Function.update p.callers t (some (p.generator.next request current spurious oom).2) }

/-- A caller that is out of `next` submits its request. -/
def call (p : Process) (t : ℕ) (request : Request) (context : Except RequestErr Bytes) (oom : Bool) : Process :=
  { p with
    system := p.system.returned (request.submit p.system.raftor context oom p.system.calls)
    callers := Function.update p.callers t none
    own := Function.update p.own p.system.calls context.toOption }

/-- Raft returns an index for a context. -/
def answer (p : Process) (ctx : Bytes) (index : ℕ) : Process :=
  { p with
    system := p.system.markReadReady ctx index
    returned := Function.update p.returned ctx (p.returned ctx ++ [index]) }

end Process

/-- One step of a node. -/
inductive Step : Node → Node → Prop
  | crash {n : Node} {f : Versioned (Option Metadata)} (hf : n.log.metadata.Crash f) :
      Step n { n with log := { n.log with metadata := f }, stage := .down }
  | recover {n : Node} (hn : n.stage = .down) : Step n { n with log := n.log.recover, stage := .opened }
  /-- The log saves its metadata, at any other time. -/
  | persist {n : Node} {log : Log} (hn : n.stage ≠ .down) (m : Metadata) (fault : Option SaveFault)
      (hrun : Log.persistMetadataState m n.log.incarnation fault n.log = .ok () log ∨
        ∃ e, Log.persistMetadataState m n.log.incarnation fault n.log = .err e log) : Step n { n with log := log }
  | start {n : Node} {log : Log} {i : ℕ} (hn : n.stage = .opened) (m : Metadata) (unsynced lost : Bool)
      (fault : Option SaveFault) (config : RaftorConfig)
      (hrun : Log.reserveIncarnation m unsynced lost fault n.log = .ok i log) :
      Step n { n with
        log := log
        stage := .running { generator := { nodeId := n.nodeId, incarnation := i }, system := { raftor := .init config } }
        earlier := n.produced }
  | startFails {n : Node} {log : Log} {e : LogErr} (hn : n.stage = .opened) (m : Metadata) (unsynced lost : Bool)
      (fault : Option SaveFault) (hrun : Log.reserveIncarnation m unsynced lost fault n.log = .err e log) :
      Step n { n with log := log }
  /-- The driver ends, the log stays open. -/
  | close {n : Node} {p : Process} (hn : n.stage = .running p) : Step n { n with stage := .opened }
  | enter {n : Node} {p : Process} (hn : n.stage = .running p) (t : ℕ) (ht : p.callers t = none)
      (request : Request) (oom : Bool) : Step n { n with stage := .running (p.enter t request oom) }
  | count {n : Node} {p : Process} (hn : n.stage = .running p) (t : ℕ) {request : Request} {current : ℕ}
      (ht : p.callers t = some (.counting request current)) (spurious oom : Bool) :
      Step n { n with
        stage := .running (p.count t request current spurious oom)
        produced := n.produced ++ (p.generator.next request current spurious oom).2.context?.toList }
  | call {n : Node} {p : Process} (hn : n.stage = .running p) (t : ℕ) {request : Request}
      {context : Except RequestErr Bytes} (ht : p.callers t = some (.holding request context)) (oom : Bool) :
      Step n { n with stage := .running (p.call t request context oom) }
  | drainRead {n : Node} {p : Process} (hn : n.stage = .running p) (idle : p.system.loop = []) (oom : Bool) :
      Step n { n with
        stage := .running { p with system := p.system.drainRead oom, returned := p.returnedOnDrain } }
  /-- Raft returns any index for any context. -/
  | answer {n : Node} {p : Process} (hn : n.stage = .running p) (idle : p.system.loop = []) (ctx : Bytes)
      (index : ℕ) : Step n { n with stage := .running (p.answer ctx index) }
  /-- Every other section: it takes no call, and adds or changes no waiting read. -/
  | other {n : Node} {p : Process} {s : System} (hn : n.stage = .running p) (hs : System.Step p.system s)
      (hcalls : s.calls = p.system.calls)
      (hreads : ∀ ctx q, s.raftor.proposalTracker.reads.lookup ctx = some q → p.reads.lookup ctx = some q) :
      Step n { n with stage := .running { p with system := s } }

/-! ### Incarnations -/

/-- A file in which every incarnation is at least `i`. -/
def AtLeast (i : ℕ) (f : Versioned (Option Metadata)) : Prop := f.All fun m => i ≤ incarnationIn m

section log
variable {w w' : Log} {i : ℕ}

/-- What saving the metadata leaves in the file. -/
theorem wp_save (m : Metadata) (fault : Option SaveFault) (f : Versioned (Option Metadata)) :
    (save m fault).wp (fun _ f' => f' = (f.write (some m)).sync)
      (fun _ f' => f' = f ∨ f' = f.write (some m)) f := by
  unfold save
  rw [Act.wp_ite]
  refine ⟨fun _ => .inl rfl, fun _ => ?_⟩
  rw [Act.wp_bind, Act.wp_modify, Act.wp_ite]
  exact ⟨fun _ => .inr rfl, fun _ => rfl⟩

/-- A save keeps the incarnations of the file above what the saved one is above. -/
theorem wp_persistMetadataState (m : Metadata) (incarnation : ℕ) (fault : Option SaveFault) (w : Log)
    {P : ℕ → Prop} (hf : w.metadata.All fun m => P (incarnationIn m)) (hi : P incarnation) :
    (Log.persistMetadataState m incarnation fault).wp
      (fun _ w' => w'.incarnation = w.incarnation ∧ w'.metadata.All fun m => P (incarnationIn m))
      (fun _ w' => w'.incarnation = w.incarnation ∧ w'.metadata.All fun m => P (incarnationIn m)) w := by
  unfold Log.persistMetadataState
  rw [Act.wp_zoom]
  have hnew : (w.metadata.write (some { m with incarnation := incarnation })).All fun m => P (incarnationIn m) :=
    Versioned.All.write hf (show P (incarnationIn (some { m with incarnation := incarnation })) from hi)
  refine Act.wp_mono (wp_save _ fault w.metadata) (fun _ f hsaved => ?_) fun _ f hsaved => ?_
  · subst hsaved
    exact ⟨rfl, hnew.sync⟩
  · rcases hsaved with rfl | rfl
    · exact ⟨rfl, hf⟩
    · exact ⟨rfl, hnew⟩

/-- A reserved incarnation is the next one, and a crash does not lose it. -/
theorem reserveIncarnation_ok {m : Metadata} {unsynced lost : Bool} {fault : Option SaveFault}
    (h : Log.reserveIncarnation m unsynced lost fault w = .ok i w') :
    i = w.incarnation + 1 ∧ i ≤ maxU64 ∧ w'.incarnation = i ∧ w'.metadata.All fun m => incarnationIn m = i := by
  have hwp : (Log.reserveIncarnation m unsynced lost fault).wp (fun i w' => i = w.incarnation + 1 ∧ i ≤ maxU64 ∧
      w'.incarnation = i ∧ w'.metadata.All fun m => incarnationIn m = i) (fun _ _ => True) w := by
    unfold Log.reserveIncarnation
    rw [Act.wp_bind, Act.wp_get, Act.wp_ite]
    refine ⟨fun _ => trivial, fun hlt => ?_⟩
    rw [Act.wp_ite]
    refine ⟨fun _ => trivial, fun _ => ?_⟩
    rw [Act.wp_ite]
    refine ⟨fun _ => trivial, fun _ => ?_⟩
    unfold Log.persistMetadataState
    rw [Act.wp_bind, Act.wp_zoom]
    refine Act.wp_mono (wp_save _ fault w.metadata) (fun _ f hsaved => ?_) fun _ _ _ => trivial
    subst hsaved
    exact ⟨rfl, by omega, rfl, Versioned.all_synced rfl⟩
  have hdone := Act.wp_ok hwp h
  exact hdone

/-- A failing reservation leaves the incarnation of the log. -/
theorem reserveIncarnation_err {m : Metadata} {unsynced lost : Bool} {fault : Option SaveFault} {e : LogErr}
    {P : ℕ → Prop} (hf : w.metadata.All fun m => P (incarnationIn m))
    (hi : w.incarnation + 1 ≤ maxU64 → P (w.incarnation + 1))
    (h : Log.reserveIncarnation m unsynced lost fault w = .err e w') :
    w'.incarnation = w.incarnation ∧ w'.metadata.All fun m => P (incarnationIn m) := by
  have hwp : (Log.reserveIncarnation m unsynced lost fault).wp (fun _ _ => True)
      (fun _ w' => w'.incarnation = w.incarnation ∧ w'.metadata.All fun m => P (incarnationIn m)) w := by
    unfold Log.reserveIncarnation
    rw [Act.wp_bind, Act.wp_get, Act.wp_ite]
    refine ⟨fun _ => ⟨rfl, hf⟩, fun hlt => ?_⟩
    rw [Act.wp_ite]
    refine ⟨fun _ => ⟨rfl, hf⟩, fun _ => ?_⟩
    rw [Act.wp_ite]
    refine ⟨fun _ => ⟨rfl, hf⟩, fun _ => ?_⟩
    rw [Act.wp_bind]
    exact Act.wp_mono (wp_persistMetadataState m _ fault w hf (hi (by omega))) (fun _ _ _ => trivial)
      fun _ _ hw => hw
  have hdone := Act.wp_err hwp h
  exact hdone

end log

/-! ### Sections of the driver -/

section sections
variable {s s' : System}

/-- A popped read leaves the others. -/
theorem mem_tryPop {α : Type} {q q' : Queue α} {itemBytes : α → ℕ} {item x : α}
    (h : q.tryPop itemBytes = some (item, q')) (hx : x ∈ q'.items) : x ∈ q.items := by
  rw [System.tryPop_some h]
  exact List.mem_cons_of_mem _ hx

/-- What a section that takes no call does to the reads: none comes into the queue, and one is
completed only when its index is applied. -/
structure Quiet (s s' : System) : Prop where
  queue : ∀ item ∈ s'.raftor.readIndexQueue.items, item ∈ s.raftor.readIndexQueue.items
  applied : s'.raftor.appliedIndex = s.raftor.appliedIndex ∨ s'.loop = []
  loop : ∀ c, (c, .ok none) ∈ s'.loop → (c, .ok none) ∈ s.loop ∨
    ∃ ctx q i, s.raftor.proposalTracker.reads.lookup ctx = some q ∧ q.callback = c ∧ q.readyIndex = some i ∧
      i ≤ s.raftor.appliedIndex
  shutdown : ∀ c, (c, .ok none) ∈ s'.shutdown → (c, .ok none) ∈ s.shutdown

/-- No read is completed by errors. -/
theorem quiet_errors {l : List Answer} (h : ∀ a ∈ l, ∃ e, a.2 = .err e) (c : ℕ) : (c, .ok none) ∉ l := by
  intro hc
  obtain ⟨e, he⟩ := h _ hc
  cases he

theorem detachAll_errors (t : ProposalTracker) (e e' : RequestErr) : ∀ a ∈ t.detachAll e e', ∃ e, a.2 = .err e := by
  intro a ha
  unfold ProposalTracker.detachAll at ha
  rcases List.mem_append.mp ha with ha | ha
  · obtain ⟨x, -, rfl⟩ := List.mem_map.mp ha
    exact ⟨e, rfl⟩
  · obtain ⟨x, -, rfl⟩ := List.mem_map.mp ha
    exact ⟨e', rfl⟩

theorem detachRequests_errors (r : Raftor) (e e' : RequestErr) :
    ∀ a ∈ r.detachRequests e e', ∃ e, a.2 = .err e := by
  intro a ha
  unfold Raftor.detachRequests at ha
  rcases List.mem_append.mp ha with ha | ha
  · rcases List.mem_append.mp ha with ha | ha
    · obtain ⟨x, -, rfl⟩ := List.mem_map.mp ha
      exact ⟨e, rfl⟩
    · obtain ⟨x, -, rfl⟩ := List.mem_map.mp ha
      exact ⟨e', rfl⟩
  · exact detachAll_errors _ _ _ a ha

theorem Quiet.refl (s : System) : Quiet s s := ⟨fun _ h => h, .inl rfl, fun _ h => .inl h, fun _ h => h⟩

/-- A section that answers no read with success. -/
theorem Quiet.of_loop (hq : ∀ item ∈ s'.raftor.readIndexQueue.items, item ∈ s.raftor.readIndexQueue.items)
    (ha : s'.raftor.appliedIndex = s.raftor.appliedIndex) (hl : ∀ c, (c, .ok none) ∉ s'.loop)
    (hs : s'.shutdown = s.shutdown) : Quiet s s' :=
  ⟨hq, .inl ha, fun c hc => absurd hc (hl c), fun _ hc => hs ▸ hc⟩

theorem quiet_answerProposal (ctx : Bytes) {r : RequestResult} (hr : r ≠ .ok none) :
    Quiet s (s.answerProposal ctx r) := by
  unfold System.answerProposal
  split
  · exact Quiet.refl s
  · refine Quiet.of_loop (fun _ h => h) rfl (fun c hc => ?_) rfl
    rw [List.mem_singleton] at hc
    cases hc
    exact hr rfl

theorem quiet_answerRead (ctx : Bytes) {r : RequestResult} (hr : r ≠ .ok none) : Quiet s (s.answerRead ctx r) := by
  unfold System.answerRead
  split
  · exact Quiet.refl s
  · refine Quiet.of_loop (fun _ h => h) rfl (fun c hc => ?_) rfl
    rw [List.mem_singleton] at hc
    cases hc
    exact hr rfl

theorem quiet_drainProposal (oom : Bool) : Quiet s (s.drainProposal oom) := by
  unfold System.drainProposal
  split
  · exact Quiet.refl s
  · split
    · exact Quiet.refl s
    · split
      · exact ⟨fun _ h => h, .inl rfl, fun _ h => .inl h, fun _ h => h⟩
      · exact Quiet.of_loop (fun _ h => h) rfl (fun c hc => by simp at hc) rfl

theorem quiet_drainRead (oom : Bool) : Quiet s (s.drainRead oom) := by
  unfold System.drainRead
  split
  · exact Quiet.refl s
  · split
    · exact Quiet.refl s
    · rename_i item q hpop
      split
      · exact ⟨fun _ h => mem_tryPop hpop h, .inl rfl, fun _ h => .inl h, fun _ h => h⟩
      · exact Quiet.of_loop (fun _ h => mem_tryPop hpop h) rfl (fun c hc => by simp at hc) rfl

theorem quiet_markReadReady (ctx : Bytes) (index : ℕ) : Quiet s (s.markReadReady ctx index) :=
  ⟨fun _ h => h, .inl rfl, fun _ h => .inl h, fun _ h => h⟩

/-- A shutdown empties the queue, and answers with errors only. -/
theorem quiet_detached {r : Raftor} {e e' : RequestErr} {lifecycle : Lifecycle}
    (ha : r.appliedIndex = s.raftor.appliedIndex) :
    Quiet s { s with raftor := r.detached lifecycle, shutdown := s.raftor.detachRequests e e' } :=
  ⟨fun _ h => (List.not_mem_nil h).elim, .inl ha, fun _ h => .inl h,
    fun c h => absurd h (quiet_errors (detachRequests_errors _ _ _) c)⟩

/-- A read is completed when the index that it waits for is applied. -/
theorem quiet_completeReadyRead {ctx : Bytes} {q : PendingRead} {index : ℕ}
    (hq : s.raftor.proposalTracker.reads.lookup ctx = some q) (hi : q.readyIndex = some index)
    (hready : index ≤ s.raftor.appliedIndex) : Quiet s (s.answerRead ctx (.ok none)) := by
  unfold System.answerRead
  rw [hq]
  refine ⟨fun _ h => h, .inl rfl, fun c hc => .inr ?_, fun _ h => h⟩
  rw [List.mem_singleton] at hc
  cases hc
  exact ⟨ctx, q, index, hq, rfl, hi, hready⟩

/-- A call is counted. -/
theorem returned_calls_ne (result : Except RequestErr Raftor) : (s.returned result).calls ≠ s.calls := by
  cases result <;> simp [System.returned]

theorem quiet_step (hs : System.Step s s') (hcalls : s'.calls = s.calls) : Quiet s s' := by
  cases hs with
  | propose data context oom => exact absurd hcalls (returned_calls_ne _)
  | readIndex suffix context oom => exact absurd hcalls (returned_calls_ne _)
  | tick idle => exact ⟨fun _ h => h, .inl rfl, fun _ h => .inl h, fun _ h => h⟩
  | drainProposal idle oom => exact quiet_drainProposal oom
  | drainRead idle oom => exact quiet_drainRead oom
  | complete idle ctx response => exact quiet_answerProposal ctx (by simp)
  | fail idle ctx e => exact quiet_answerProposal ctx (by simp)
  | failRead idle ctx e => exact quiet_answerRead ctx (by simp)
  | apply idle index => exact ⟨fun _ h => h, .inr idle, fun _ h => .inl h, fun _ h => h⟩
  | markReadReady idle ctx index => exact quiet_markReadReady ctx index
  | completeReadyRead idle ctx hp hi hready => exact quiet_completeReadyRead hp hi hready
  | expireProposal idle ctx hp hexpired => exact quiet_answerProposal ctx (by simp)
  | expireRead idle ctx hp hexpired => exact quiet_answerRead ctx (by simp)
  | checkLeadershipChange idle =>
      exact Quiet.of_loop (fun _ h => h) rfl (quiet_errors (detachAll_errors _ _ _)) rfl
  | enterTerminal idle e =>
      unfold System.enterTerminal
      dsimp only
      split
      · exact quiet_detached rfl
      · exact ⟨fun _ h => h, .inl rfl, fun _ h => .inl h, fun _ h => h⟩
  | stop =>
      unfold System.stop
      split
      · exact quiet_detached rfl
      · exact Quiet.refl s
  | invokeLoop h =>
      exact ⟨fun _ h => h, .inl rfl, fun _ hc => .inl (h ▸ List.mem_cons_of_mem _ hc), fun _ h => h⟩
  | invokeShutdown h =>
      exact ⟨fun _ h => h, .inl rfl, fun _ h => .inl h, fun _ hc => h ▸ List.mem_cons_of_mem _ hc⟩
  | finishShutdown h =>
      unfold System.finishShutdown
      split <;> exact ⟨fun _ h => h, .inl rfl, fun _ h => .inl h, fun _ h => h⟩

end sections

/-! ### What holds of a node -/

/-- The incarnation in a context. -/
def incarnationOf (ctx : Bytes) : ℕ := intAt ctx 16 8

/-- The sequence number in a context. -/
def sequenceOf (ctx : Bytes) : ℕ := intAt ctx 24 8

/-- The index that a read waits for is the highest that Raft has returned. -/
def Latest (ready : Option ℕ) (indices : List ℕ) : Prop :=
  match ready with
  | none => indices = []
  | some i => i ∈ indices ∧ ∀ j ∈ indices, j ≤ i

theorem latest_append {ready : Option ℕ} {indices : List ℕ} (index : ℕ) : Latest ready indices →
    Latest (match ready with
      | some current => some (max current index)
      | none => some index) (indices ++ [index]) := by
  intro h
  cases ready with
  | none =>
      have hnil : indices = [] := h
      subst hnil
      simp [Latest]
  | some i =>
      obtain ⟨hmem, hle⟩ := h
      constructor
      · rcases le_total i index with hi | hi
        · simp [max_eq_right hi]
        · simp [max_eq_left hi, hmem]
      · intro j hj
        rcases List.mem_append.mp hj with hj | hj
        · exact (hle j hj).trans (le_max_left _ _)
        · rw [List.mem_singleton.mp hj]
          exact le_max_right _ _

/-- The calls of a driver have their own contexts, and its reads wait for what Raft returns for them. -/
structure Process.Sound (produced : List Bytes) (p : Process) : Prop where
  held : ∀ t a ctx, p.callers t = some a → a.context? = some ctx →
    (ctx ∈ produced ∧ incarnationOf ctx = p.generator.incarnation) ∧ (∀ c, p.own c ≠ some ctx) ∧
      ∀ t' a', p.callers t' = some a' → a'.context? = some ctx → t' = t
  own : ∀ c ctx, p.own c = some ctx → (ctx ∈ produced ∧ incarnationOf ctx = p.generator.incarnation) ∧
    c < p.system.calls ∧ ∀ c', p.own c' = some ctx → c' = c
  queued : ∀ item ∈ p.system.raftor.readIndexQueue.items, p.own item.callback = some item.ctx
  tracked : ∀ ctx q, p.reads.lookup ctx = some q →
    p.own q.callback = some ctx ∧ Latest q.readyIndex (p.returned ctx)
  answered : ∀ c, (c, .ok none) ∈ p.system.loop → ∃ ctx, p.own c = some ctx ∧ p.returned ctx ≠ [] ∧
    ∀ i ∈ p.returned ctx, i ≤ p.system.raftor.appliedIndex
  shutdown : ∀ c, (c, .ok none) ∉ p.system.shutdown

/-- A driver that runs has its own incarnation. -/
structure Current (n : Node) (p : Process) : Prop where
  durable : AtLeast p.generator.incarnation n.log.metadata
  memory : p.generator.incarnation ≤ n.log.incarnation
  incarnation : p.generator.incarnation ≤ maxU64
  sequence : p.generator.sequence ≤ maxU64
  counted : ∀ ctx ∈ n.produced, ctx ∈ n.earlier ∨
    (incarnationOf ctx = p.generator.incarnation ∧ sequenceOf ctx < p.generator.sequence)
  before : ∀ ctx ∈ n.earlier, incarnationOf ctx < p.generator.incarnation
  sound : p.Sound n.produced

/-- No context is produced twice, and no incarnation of a context is lost. -/
structure Inv (n : Node) : Prop where
  nodup : n.produced.Nodup
  stamped : ∀ ctx ∈ n.produced, AtLeast (incarnationOf ctx) n.log.metadata ∧
    (n.stage ≠ .down → incarnationOf ctx ≤ n.log.incarnation)
  running : ∀ p, n.stage = .running p → Current n p

section process
variable {p : Process} {produced produced' : List Bytes}

/-- What going around the loop of `nextSequence` does: a context gets the next sequence number. -/
structure Counted (g : Generator) (r : Generator × Caller) : Prop where
  incarnation : r.1.incarnation = g.incarnation
  le : g.sequence ≤ r.1.sequence
  bounded : g.sequence ≤ maxU64 → r.1.sequence ≤ maxU64
  context : g.incarnation ≤ maxU64 → g.sequence ≤ maxU64 → ∀ ctx, r.2.context? = some ctx →
    incarnationOf ctx = g.incarnation ∧ sequenceOf ctx = g.sequence ∧ r.1.sequence = g.sequence + 1

theorem counted_next (g : Generator) (request : Request) (current : ℕ) (spurious oom : Bool) :
    Counted g (g.next request current spurious oom) := by
  unfold Generator.next
  by_cases hmax : current = maxU64
  · rw [if_pos hmax]
    exact ⟨rfl, le_rfl, id, fun _ _ _ hctx => by cases hctx⟩
  rw [if_neg hmax]
  unfold Generator.compareExchange
  by_cases htaken : g.sequence = current ∧ spurious = false
  · rw [if_pos htaken]
    obtain ⟨rfl, -⟩ := htaken
    have hle : g.sequence ≤ maxU64 → g.sequence + 1 ≤ maxU64 := fun hle => by omega
    cases oom with
    | true => exact ⟨rfl, Nat.le_succ _, hle, fun _ _ _ hctx => by cases hctx⟩
    | false =>
        refine ⟨rfl, Nat.le_succ _, hle, fun hi hs ctx hctx => ?_⟩
        cases hctx
        obtain ⟨hinc, hseq⟩ := @stamp_contextOf ⟨request.kind, g.nodeId, g.incarnation, g.sequence⟩ request.suffix hi hs
        exact ⟨hinc, hseq, rfl⟩
  · rw [if_neg htaken]
    exact ⟨rfl, le_rfl, id, fun _ _ _ hctx => by cases hctx⟩

/-- A caller gets a context that has not been there before, or none. -/
theorem Process.Sound.setCaller (hs : p.Sound produced) (t : ℕ) (a : Caller) {g : Generator}
    (hg : g.incarnation = p.generator.incarnation) (hsub : ∀ ctx ∈ produced, ctx ∈ produced')
    (hnew : ∀ ctx, a.context? = some ctx → ctx ∈ produced' ∧ ctx ∉ produced ∧
      incarnationOf ctx = p.generator.incarnation) :
    ({ p with generator := g, callers := Function.update p.callers t (some a) } : Process).Sound produced' where
  held := by
    intro t' a' ctx ht ha
    dsimp only at ht ⊢
    rw [hg]
    by_cases htt : t' = t
    · subst htt
      rw [Function.update_self] at ht
      cases ht
      obtain ⟨hin, hout, hinc⟩ := hnew ctx ha
      refine ⟨⟨hin, hinc⟩, fun c hc => hout (hs.own c ctx hc).1.1, fun t2 a2 ht2 ha2 => ?_⟩
      by_contra hne
      rw [Function.update_of_ne hne] at ht2
      exact hout (hs.held t2 a2 ctx ht2 ha2).1.1
    · rw [Function.update_of_ne htt] at ht
      obtain ⟨⟨hin, hinc⟩, hown, hone⟩ := hs.held t' a' ctx ht ha
      refine ⟨⟨hsub ctx hin, hinc⟩, hown, fun t2 a2 ht2 ha2 => ?_⟩
      by_cases h2 : t2 = t
      · subst h2
        rw [Function.update_self] at ht2
        cases ht2
        exact absurd hin (hnew ctx ha2).2.1
      · rw [Function.update_of_ne h2] at ht2
        exact hone t2 a2 ht2 ha2
  own := by
    intro c ctx hc
    obtain ⟨⟨hin, hinc⟩, hrest⟩ := hs.own c ctx hc
    exact ⟨⟨hsub ctx hin, hinc.trans hg.symm⟩, hrest⟩
  queued := hs.queued
  tracked := hs.tracked
  answered := hs.answered
  shutdown := hs.shutdown

/-- What a submitted request changes. -/
structure Submitted (s s' : System) (context : Except RequestErr Bytes) : Prop where
  calls : s'.calls = s.calls + 1
  reads : s'.raftor.proposalTracker = s.raftor.proposalTracker
  applied : s'.raftor.appliedIndex = s.raftor.appliedIndex
  loop : s'.loop = s.loop
  shutdown : s'.shutdown = s.shutdown
  queue : ∀ item ∈ s'.raftor.readIndexQueue.items, item ∈ s.raftor.readIndexQueue.items ∨
    ∃ ctx, context = .ok ctx ∧ item = ⟨ctx, s.calls⟩

theorem submitted_submit (s : System) (request : Request) (context : Except RequestErr Bytes) (oom : Bool) :
    Submitted s (s.returned (request.submit s.raftor context oom s.calls)) context := by
  cases hr : request.submit s.raftor context oom s.calls with
  | error e => exact ⟨rfl, rfl, rfl, rfl, rfl, fun _ h => .inl h⟩
  | ok r =>
      cases request with
      | propose data =>
          obtain ⟨_, -, hr⟩ := bind_eq_ok.mp hr
          obtain ⟨ctx, -, hr⟩ := bind_eq_ok.mp hr
          obtain ⟨_, -, hr⟩ := bind_eq_ok.mp hr
          obtain ⟨q, -, hr⟩ := bind_eq_ok.mp hr
          cases hr
          exact ⟨rfl, rfl, rfl, rfl, rfl, fun _ h => .inl h⟩
      | readIndex suffix =>
          obtain ⟨_, -, hr⟩ := bind_eq_ok.mp hr
          obtain ⟨ctx, hctx, hr⟩ := bind_eq_ok.mp hr
          obtain ⟨_, -, hr⟩ := bind_eq_ok.mp hr
          obtain ⟨q, hpush, hr⟩ := bind_eq_ok.mp hr
          cases hr
          refine ⟨rfl, rfl, rfl, rfl, rfl, fun item hitem => ?_⟩
          have hitems : item ∈ s.raftor.readIndexQueue.items ++ [⟨ctx, s.calls⟩] := System.push_ok hpush ▸ hitem
          rcases List.mem_append.mp hitems with hold | hnew
          · exact .inl hold
          · exact .inr ⟨ctx, hctx, List.mem_singleton.mp hnew⟩

theorem Process.Sound.call (hs : p.Sound produced) {t : ℕ} {request : Request} {context : Except RequestErr Bytes}
    (ht : p.callers t = some (.holding request context)) (oom : Bool) :
    (p.call t request context oom).Sound produced := by
  have hsub := submitted_submit p.system request context oom
  have hheld : ∀ ctx, context.toOption = some ctx → (ctx ∈ produced ∧ incarnationOf ctx = p.generator.incarnation) ∧
      (∀ c, p.own c ≠ some ctx) ∧ ∀ t' a', p.callers t' = some a' → a'.context? = some ctx → t' = t := by
    intro ctx hctx
    cases context with
    | error e => cases hctx
    | ok ctx' =>
        cases hctx
        exact hs.held t _ ctx ht rfl
  -- the call has a new number, so the contexts of the others stay
  have hold : ∀ c ctx, p.own c = some ctx → (p.call t request context oom).own c = some ctx := by
    intro c ctx hc
    have hne : c ≠ p.system.calls := (hs.own c ctx hc).2.1.ne
    exact (Function.update_of_ne hne _ _).trans hc
  have hown : ∀ c ctx, (p.call t request context oom).own c = some ctx →
      c = p.system.calls ∧ context.toOption = some ctx ∨ c ≠ p.system.calls ∧ p.own c = some ctx := by
    intro c ctx hc
    by_cases hnew : c = p.system.calls
    · subst hnew
      exact .inl ⟨rfl, (Function.update_self _ _ _ : (p.call t request context oom).own _ = _).symm.trans hc⟩
    · exact .inr ⟨hnew, (Function.update_of_ne hnew _ _ : (p.call t request context oom).own c = _).symm.trans hc⟩
  constructor
  · intro t' a ctx ht' ha
    have hne : t' ≠ t := by
      rintro rfl
      have hnone : (p.call t' request context oom).callers t' = none := Function.update_self _ _ _
      rw [hnone] at ht'
      cases ht'
    have hbefore : ∀ t2, t2 ≠ t → (p.call t request context oom).callers t2 = p.callers t2 := fun t2 h2 =>
      Function.update_of_ne h2 _ _
    rw [hbefore t' hne] at ht'
    obtain ⟨hin, hnot, hone⟩ := hs.held t' a ctx ht' ha
    refine ⟨hin, fun c hc => ?_, fun t2 a2 ht2 ha2 => ?_⟩
    · rcases hown c ctx hc with ⟨-, hctx⟩ | ⟨-, hc⟩
      · exact hne ((hheld ctx hctx).2.2 t' a ht' ha)
      · exact hnot c hc
    · by_cases h2 : t2 = t
      · subst h2
        have hnone : (p.call t2 request context oom).callers t2 = none := Function.update_self _ _ _
        rw [hnone] at ht2
        cases ht2
      · rw [hbefore t2 h2] at ht2
        exact hone t2 a2 ht2 ha2
  · intro c ctx hc
    rcases hown c ctx hc with ⟨rfl, hctx⟩ | ⟨hne, hc⟩
    · obtain ⟨hin, hnot, -⟩ := hheld ctx hctx
      refine ⟨hin, ?_, fun c' hc' => ?_⟩
      · show p.system.calls < (System.returned _ _).calls
        rw [hsub.calls]
        exact Nat.lt_succ_self _
      · rcases hown c' ctx hc' with ⟨rfl, -⟩ | ⟨-, hc'⟩
        · rfl
        · exact absurd hc' (hnot c')
    · obtain ⟨hin, hlt, hone⟩ := hs.own c ctx hc
      refine ⟨hin, ?_, fun c' hc' => ?_⟩
      · show c < (System.returned _ _).calls
        rw [hsub.calls]
        omega
      · rcases hown c' ctx hc' with ⟨-, hctx⟩ | ⟨-, hc'⟩
        · exact absurd hc ((hheld ctx hctx).2.1 c)
        · exact hone c' hc'
  · intro item hitem
    rcases hsub.queue item hitem with hitem | ⟨ctx, hctx, rfl⟩
    · exact hold _ _ (hs.queued item hitem)
    · subst hctx
      exact Function.update_self _ _ _
  · intro ctx q hq
    have hreads : (p.call t request context oom).reads = p.reads := congrArg ProposalTracker.reads hsub.reads
    rw [hreads] at hq
    obtain ⟨hq1, hq2⟩ := hs.tracked ctx q hq
    exact ⟨hold _ _ hq1, hq2⟩
  · intro c hc
    have hloop : (p.call t request context oom).system.loop = p.system.loop := hsub.loop
    rw [hloop] at hc
    obtain ⟨ctx, hctx, hret, hle⟩ := hs.answered c hc
    refine ⟨ctx, hold c ctx hctx, hret, fun i hi => ?_⟩
    have happlied : (p.call t request context oom).system.raftor.appliedIndex = p.system.raftor.appliedIndex :=
      hsub.applied
    rw [happlied]
    exact hle i hi
  · intro c hc
    have hshut : (p.call t request context oom).system.shutdown = p.system.shutdown := hsub.shutdown
    rw [hshut] at hc
    exact hs.shutdown c hc

/-- A read that comes out of the queue is registered without an index. -/
theorem lookup_drainRead {s : System} {oom : Bool} {ctx : Bytes} {q : PendingRead}
    (h : (s.drainRead oom).raftor.proposalTracker.reads.lookup ctx = some q) :
    s.raftor.proposalTracker.reads.lookup ctx = some q ∨
      ∃ item rest, s.raftor.readIndexQueue.items = item :: rest ∧ item.ctx = ctx ∧
        ctx ∉ s.raftor.proposalTracker.reads ∧ q.callback = item.callback ∧ q.readyIndex = none := by
  unfold System.drainRead at h
  split at h
  · exact .inl h
  · split at h
    · exact .inl h
    · rename_i item queue hpop
      split at h
      · rename_i t htrack
        obtain ⟨_, hnew, htrack⟩ := bind_eq_ok.mp htrack
        obtain ⟨_, -, htrack⟩ := bind_eq_ok.mp htrack
        cases htrack
        dsimp only at h
        by_cases hctx : ctx = item.ctx
        · subst hctx
          rw [AList.lookup_insert] at h
          cases h
          exact .inr ⟨item, queue.items, System.tryPop_some hpop, rfl, ensure_eq_ok.mp hnew, rfl, rfl⟩
        · rw [AList.lookup_insert_ne hctx] at h
          exact .inl h
      · exact .inl h

theorem Process.Sound.drainRead (hs : p.Sound produced) (idle : p.system.loop = []) (oom : Bool) :
    ({ p with system := p.system.drainRead oom, returned := p.returnedOnDrain } : Process).Sound produced := by
  have hquiet := @quiet_drainRead p.system oom
  have hcalls : (p.system.drainRead oom).calls = p.system.calls := by
    unfold System.drainRead
    split
    · rfl
    · split
      · rfl
      · split <;> rfl
  have hloop : ∀ c, (c, .ok none) ∉ (p.system.drainRead oom).loop := by
    intro c hc
    unfold System.drainRead at hc
    split at hc
    · simp [idle] at hc
    · split at hc
      · simp [idle] at hc
      · split at hc
        · simp [idle] at hc
        · simp at hc
  -- a read that waits already keeps what has been returned for it
  have hkeep : ∀ ctx, ctx ∈ p.reads → p.returnedOnDrain ctx = p.returned ctx := by
    intro ctx hctx
    unfold Process.returnedOnDrain
    cases p.system.raftor.readIndexQueue.items with
    | nil => rfl
    | cons item rest =>
        dsimp only
        split_ifs with hin
        · rfl
        · refine Function.update_of_ne ?_ _ _
          rintro rfl
          exact hin hctx
  refine ⟨hs.held, fun c ctx hc => ?_, fun item hitem => hs.queued item (hquiet.queue item hitem), fun ctx q hq => ?_,
    fun c hc => absurd hc (hloop c), fun c hc => hs.shutdown c (hquiet.shutdown c hc)⟩
  · dsimp only
    rw [hcalls]
    exact hs.own c ctx hc
  · rcases lookup_drainRead hq with hold | ⟨item, rest, hitems, rfl, hnew, hcallback, hready⟩
    · obtain ⟨hown, hlatest⟩ := hs.tracked ctx q hold
      dsimp only
      rw [hkeep ctx (AList.lookup_isSome.mp (by rw [Process.reads, hold]; rfl))]
      exact ⟨hown, hlatest⟩
    · have hnil : p.returnedOnDrain item.ctx = [] := by
        unfold Process.returnedOnDrain
        rw [hitems]
        have hnew : item.ctx ∉ p.reads := hnew
        dsimp only
        rw [if_neg hnew, Function.update_self]
      dsimp only
      rw [hnil, hready, hcallback]
      exact ⟨hs.queued item (by rw [hitems]; exact List.mem_cons_self), rfl⟩

theorem Process.Sound.answer (hs : p.Sound produced) (idle : p.system.loop = []) (ctx : Bytes) (index : ℕ) :
    (p.answer ctx index).Sound produced := by
  have hloop : (p.answer ctx index).system.loop = [] := idle
  refine ⟨hs.held, hs.own, hs.queued, fun ctx' q hq => ?_, fun c hc => ?_, hs.shutdown⟩
  · have hupdate : (p.answer ctx index).returned ctx' = if ctx' = ctx then p.returned ctx ++ [index]
        else p.returned ctx' := Function.update_apply _ _ _ _
    have hreads : (p.answer ctx index).reads = (p.system.raftor.proposalTracker.markReadReady ctx index).reads := rfl
    rw [hreads] at hq
    rw [hupdate]
    unfold ProposalTracker.markReadReady at hq
    split at hq
    · rename_i hnone
      have hne : ctx' ≠ ctx := by
        rintro rfl
        rw [hnone] at hq
        cases hq
      rw [if_neg hne]
      exact hs.tracked ctx' q hq
    · rename_i w hw
      dsimp only at hq
      by_cases hctx : ctx' = ctx
      · subst hctx
        rw [AList.lookup_insert] at hq
        cases hq
        rw [if_pos rfl]
        obtain ⟨hown, hlatest⟩ := hs.tracked ctx' w hw
        exact ⟨hown, latest_append index hlatest⟩
      · rw [AList.lookup_insert_ne hctx] at hq
        rw [if_neg hctx]
        exact hs.tracked ctx' q hq
  · rw [hloop] at hc
    cases hc

theorem Process.Sound.other (hs : p.Sound produced) {s : System} (hstep : System.Step p.system s)
    (hcalls : s.calls = p.system.calls)
    (hreads : ∀ ctx q, s.raftor.proposalTracker.reads.lookup ctx = some q → p.reads.lookup ctx = some q) :
    ({ p with system := s } : Process).Sound produced := by
  have hquiet := quiet_step hstep hcalls
  refine ⟨hs.held, fun c ctx hc => ?_, fun item hitem => hs.queued item (hquiet.queue item hitem),
    fun ctx q hq => hs.tracked ctx q (hreads ctx q hq), fun c hc => ?_,
    fun c hc => hs.shutdown c (hquiet.shutdown c hc)⟩
  · dsimp only
    rw [hcalls]
    exact hs.own c ctx hc
  · have happlied : s.raftor.appliedIndex = p.system.raftor.appliedIndex := by
      rcases hquiet.applied with happlied | hnil
      · exact happlied
      · dsimp only at hc
        rw [hnil] at hc
        cases hc
    dsimp only
    rw [happlied]
    rcases hquiet.loop c hc with hold | ⟨ctx, q, i, hq, rfl, hi, hle⟩
    · exact hs.answered c hold
    · obtain ⟨hown, hlatest⟩ := hs.tracked ctx q hq
      rw [hi] at hlatest
      exact ⟨ctx, hown, List.ne_nil_of_mem hlatest.1, fun j hj => (hlatest.2 j hj).trans hle⟩

end process

/-! ### Histories of a node -/

section histories
variable {n n' : Node} {p : Process}

theorem inv_start (nodeId : ℕ) : Inv { nodeId := nodeId } :=
  ⟨List.nodup_nil, fun _ h => absurd h List.not_mem_nil, fun _ h => by cases h⟩

/-- A step of the driver that leaves the log. -/
theorem Inv.process (hi : Inv n) (hn : n.stage = .running p) {p' : Process}
    (hg : p'.generator = p.generator) (hs : p'.Sound n.produced) : Inv { n with stage := .running p' } := by
  have hc := hi.running p hn
  refine ⟨hi.nodup, fun ctx hctx => ⟨(hi.stamped ctx hctx).1, fun _ => ?_⟩, fun q hq => ?_⟩
  · exact (hi.stamped ctx hctx).2 (by simp [hn])
  · cases hq
    refine ⟨?_, ?_, ?_, ?_, ?_, ?_, hs⟩ <;> rw [hg]
    · exact hc.durable
    · exact hc.memory
    · exact hc.incarnation
    · exact hc.sequence
    · exact hc.counted
    · exact hc.before

/-- A change of the log that keeps its incarnation, and saves it or a higher one. -/
theorem Inv.logged (hi : Inv n) (hn : n.stage ≠ .down) {log : Log} (hinc : log.incarnation = n.log.incarnation)
    (hfile : ∀ i, AtLeast i n.log.metadata → i ≤ n.log.incarnation → AtLeast i log.metadata) :
    Inv { n with log := log } := by
  refine ⟨hi.nodup, fun ctx hctx => ?_, fun p hp => ?_⟩
  · obtain ⟨hstamp, hmem⟩ := hi.stamped ctx hctx
    exact ⟨hfile _ hstamp (hmem hn), fun _ => (hmem hn).trans hinc.ge⟩
  · have hc := hi.running p hp
    exact ⟨hfile _ hc.durable hc.memory, hc.memory.trans hinc.ge, hc.incarnation, hc.sequence, hc.counted, hc.before,
      hc.sound⟩

/-- A caller that goes around the loop. -/
theorem Inv.count (hi : Inv n) (hn : n.stage = .running p) (t : ℕ) (request : Request) (current : ℕ)
    (spurious oom : Bool) : Inv { n with
      stage := .running (p.count t request current spurious oom)
      produced := n.produced ++ (p.generator.next request current spurious oom).2.context?.toList } := by
  have hc := hi.running p hn
  have hnext := counted_next p.generator request current spurious oom
  have hstamp := hnext.context hc.incarnation hc.sequence
  have hfresh : ∀ ctx, (p.generator.next request current spurious oom).2.context? = some ctx → ctx ∉ n.produced := by
    intro ctx hctx hin
    obtain ⟨hinc, hseq, -⟩ := hstamp ctx hctx
    rcases hc.counted ctx hin with hbefore | ⟨-, hlt⟩
    · exact absurd (hc.before ctx hbefore) (by omega)
    · omega
  have hcases : ∀ ctx ∈ n.produced ++ (p.generator.next request current spurious oom).2.context?.toList,
      ctx ∈ n.produced ∨ (p.generator.next request current spurious oom).2.context? = some ctx := by
    intro ctx hctx
    rcases List.mem_append.mp hctx with hold | hnew
    · exact .inl hold
    · exact .inr (Option.mem_toList.mp hnew)
  refine ⟨?_, fun ctx hctx => ?_, fun q hq => ?_⟩
  · refine List.nodup_append.mpr ⟨hi.nodup, ?_, fun a ha b hb => ?_⟩
    · cases (p.generator.next request current spurious oom).2.context? <;> simp
    · rintro rfl
      exact hfresh a (Option.mem_toList.mp hb) ha
  · rcases hcases ctx hctx with hold | hnew
    · exact ⟨(hi.stamped ctx hold).1, fun _ => (hi.stamped ctx hold).2 (by simp [hn])⟩
    · obtain ⟨hinc, -, -⟩ := hstamp ctx hnew
      rw [hinc]
      exact ⟨hc.durable, fun _ => hc.memory⟩
  · cases hq
    have hgen : (p.count t request current spurious oom).generator.incarnation = p.generator.incarnation :=
      hnext.incarnation
    refine ⟨hgen ▸ hc.durable, hgen.le.trans hc.memory, hgen.le.trans hc.incarnation, hnext.bounded hc.sequence,
      fun ctx hctx => ?_, fun ctx hctx => hgen ▸ hc.before ctx hctx, ?_⟩
    · rw [hgen]
      rcases hcases ctx hctx with hold | hnew
      · rcases hc.counted ctx hold with hbefore | ⟨hinc, hlt⟩
        · exact .inl hbefore
        · exact .inr ⟨hinc, hlt.trans_le hnext.le⟩
      · obtain ⟨hinc, hseq, hsucc⟩ := hstamp ctx hnew
        have hlt : sequenceOf ctx < (p.generator.next request current spurious oom).1.sequence := by omega
        exact .inr ⟨hinc, hlt⟩
    · refine hc.sound.setCaller t _ hnext.incarnation (fun ctx hctx => List.mem_append_left _ hctx) fun ctx hctx => ?_
      exact ⟨List.mem_append_right _ (Option.mem_toList.mpr hctx), hfresh ctx hctx, (hstamp ctx hctx).1⟩

/-- A driver starts with an incarnation above those of all contexts. -/
theorem Inv.start (hi : Inv n) (hn : n.stage = .opened) {log : Log} {i : ℕ} {m : Metadata} {unsynced lost : Bool}
    {fault : Option SaveFault} (config : RaftorConfig)
    (hrun : Log.reserveIncarnation m unsynced lost fault n.log = .ok i log) : Inv { n with
      log := log
      stage := .running { generator := { nodeId := n.nodeId, incarnation := i }, system := { raftor := .init config } }
      earlier := n.produced } := by
  obtain ⟨hnext, hmax, hinc, hfile⟩ := reserveIncarnation_ok hrun
  have hbelow : ∀ ctx ∈ n.produced, incarnationOf ctx < i := by
    intro ctx hctx
    have hle := (hi.stamped ctx hctx).2 (by simp [hn])
    omega
  have hall : ∀ j ≤ i, AtLeast j log.metadata := fun j hj => hfile.mono fun m hm => hm ▸ hj
  refine ⟨hi.nodup, fun ctx hctx => ⟨hall _ (hbelow ctx hctx).le, fun _ => hinc ▸ (hbelow ctx hctx).le⟩, fun q hq => ?_⟩
  cases hq
  refine ⟨hall i le_rfl, hinc.ge, hmax, Nat.zero_le _, fun ctx hctx => .inl hctx, hbelow, ?_⟩
  constructor
  · intro t a ctx ht
    cases ht
  · intro c ctx hc
    cases hc
  · intro item hitem
    cases hitem
  · intro ctx q hq
    cases hq
  · intro c hc
    cases hc
  · intro c hc
    cases hc

/-- Every step keeps the contexts apart. -/
theorem Inv.step (hi : Inv n) (hs : Step n n') : Inv n' := by
  cases hs with
  | crash hf =>
      exact ⟨hi.nodup, fun ctx hctx => ⟨(hi.stamped ctx hctx).1.crash hf, fun h => absurd rfl h⟩, fun _ h => by cases h⟩
  | recover hn =>
      exact ⟨hi.nodup, fun ctx hctx => ⟨(hi.stamped ctx hctx).1, fun _ => (hi.stamped ctx hctx).1.current⟩,
        fun _ h => by cases h⟩
  | persist hn m fault hrun =>
      have hfile := fun (i : ℕ) (hf : AtLeast i n.log.metadata) (hle : i ≤ n.log.incarnation) =>
        @wp_persistMetadataState m n.log.incarnation fault n.log (i ≤ ·) hf hle
      have hzero : AtLeast 0 n.log.metadata := fun _ _ => Nat.zero_le _
      rcases hrun with hrun | ⟨e, hrun⟩
      · exact hi.logged hn (Act.wp_ok (hfile 0 hzero (Nat.zero_le _)) hrun).1 fun i hf hle =>
          (Act.wp_ok (hfile i hf hle) hrun).2
      · exact hi.logged hn (Act.wp_err (hfile 0 hzero (Nat.zero_le _)) hrun).1 fun i hf hle =>
          (Act.wp_err (hfile i hf hle) hrun).2
  | start hn m unsynced lost fault config hrun => exact hi.start hn config hrun
  | startFails hn m unsynced lost fault hrun =>
      have hzero : AtLeast 0 n.log.metadata := fun _ _ => Nat.zero_le _
      refine hi.logged (by simp [hn]) ?_ fun i hf hle => ?_
      · exact (@reserveIncarnation_err _ _ _ _ _ _ _ (0 ≤ ·) hzero (fun _ => Nat.zero_le _) hrun).1
      · exact (@reserveIncarnation_err _ _ _ _ _ _ _ (i ≤ ·) hf (fun _ => hle.trans (Nat.le_succ _)) hrun).2
  | close hn =>
      exact ⟨hi.nodup, fun ctx hctx => ⟨(hi.stamped ctx hctx).1, fun _ => (hi.stamped ctx hctx).2 (by simp [hn])⟩,
        fun _ h => by cases h⟩
  | enter hn t ht request oom =>
      refine hi.process hn rfl ?_
      refine (hi.running _ hn).sound.setCaller t _ rfl (fun _ h => h) fun ctx hctx => ?_
      cases oom <;> cases hctx
  | count hn t ht spurious oom => exact hi.count hn t _ _ spurious oom
  | call hn t ht oom => exact hi.process hn rfl ((hi.running _ hn).sound.call ht oom)
  | drainRead hn idle oom => exact hi.process hn rfl ((hi.running _ hn).sound.drainRead idle oom)
  | answer hn idle ctx index => exact hi.process hn rfl ((hi.running _ hn).sound.answer idle ctx index)
  | other hn hs hcalls hreads => exact hi.process hn rfl ((hi.running _ hn).sound.other hs hcalls hreads)

theorem inv_run {nodeId : ℕ} (hrun : Relation.ReflTransGen Step { nodeId := nodeId } n) : Inv n := by
  induction hrun with
  | refl => exact inv_start nodeId
  | tail _ hs ih => exact ih.step hs

/-- An answered read leaves the others. -/
theorem lookup_answerRead {s : System} {ctx ctx' : Bytes} {r : RequestResult} {q : PendingRead}
    (h : (s.answerRead ctx r).raftor.proposalTracker.reads.lookup ctx' = some q) :
    s.raftor.proposalTracker.reads.lookup ctx' = some q := by
  unfold System.answerRead at h
  split at h
  · exact h
  · by_cases hctx : ctx' = ctx
    · subst hctx
      have hnone := AList.lookup_erase ctx' s.raftor.proposalTracker.reads
      rw [hnone] at h
      cases h
    · rwa [AList.lookup_erase_ne hctx] at h

/-- Every section of a driver that runs is a step of its node. -/
theorem step_of_section (hn : n.stage = .running p) {s : System} (hs : System.Step p.system s)
    (hcalls : s.calls = p.system.calls) : ∃ n' p', Step n n' ∧ n'.stage = .running p' ∧ p'.system = s := by
  -- a section that keeps or drops the reads that wait
  have hother : (∀ ctx q, s.raftor.proposalTracker.reads.lookup ctx = some q → p.reads.lookup ctx = some q) →
      ∃ n' p', Step n n' ∧ n'.stage = .running p' ∧ p'.system = s := fun hreads =>
    ⟨_, _, .other hn hs hcalls hreads, rfl, rfl⟩
  have hread : ∀ ctx r, s = p.system.answerRead ctx r → ∃ n' p', Step n n' ∧ n'.stage = .running p' ∧ p'.system = s := by
    rintro ctx r rfl
    exact hother fun _ _ hq => lookup_answerRead hq
  have hproposal : ∀ ctx r, s = p.system.answerProposal ctx r →
      ∃ n' p', Step n n' ∧ n'.stage = .running p' ∧ p'.system = s := by
    rintro ctx r rfl
    refine hother fun ctx' q hq => ?_
    unfold System.answerProposal at hq
    split at hq <;> exact hq
  have hempty : s.raftor.proposalTracker.reads = ∅ → ∃ n' p', Step n n' ∧ n'.stage = .running p' ∧ p'.system = s := by
    intro hnil
    refine hother fun ctx' q hq => ?_
    rw [hnil] at hq
    cases hq
  cases hs with
  | propose data context oom => exact absurd hcalls (returned_calls_ne _)
  | readIndex suffix context oom => exact absurd hcalls (returned_calls_ne _)
  | drainRead idle oom => exact ⟨_, _, .drainRead hn idle oom, rfl, rfl⟩
  | markReadReady idle ctx index => exact ⟨_, _, .answer hn idle ctx index, rfl, rfl⟩
  | drainProposal idle oom =>
      refine hother fun ctx q hq => ?_
      unfold System.drainProposal at hq
      split at hq
      · exact hq
      · split at hq
        · exact hq
        · split at hq
          · rename_i t htrack
            obtain ⟨_, -, htrack⟩ := bind_eq_ok.mp htrack
            obtain ⟨_, -, htrack⟩ := bind_eq_ok.mp htrack
            cases htrack
            exact hq
          · exact hq
  | complete idle ctx response => exact hproposal ctx _ rfl
  | fail idle ctx e => exact hproposal ctx _ rfl
  | failRead idle ctx e => exact hread ctx _ rfl
  | completeReadyRead idle ctx hp hi hready => exact hread ctx _ rfl
  | expireProposal idle ctx hp hexpired => exact hproposal ctx _ rfl
  | expireRead idle ctx hp hexpired => exact hread ctx _ rfl
  | checkLeadershipChange idle => exact hempty rfl
  | enterTerminal idle e =>
      by_cases hactive : p.system.raftor.lifecycle = .active
      · refine hempty ?_
        simp [System.enterTerminal, hactive, Raftor.detached]
      · refine hother fun ctx q hq => ?_
        simp only [System.enterTerminal, if_neg hactive] at hq
        exact hq
  | stop =>
      by_cases hactive : p.system.raftor.lifecycle = .active
      · refine hempty ?_
        simp [System.stop, hactive, Raftor.detached]
      · refine hother fun ctx q hq => ?_
        simp only [System.stop, if_neg hactive] at hq
        exact hq
  | finishShutdown h =>
      refine hother fun ctx q hq => ?_
      unfold System.finishShutdown at hq
      split at hq <;> exact hq
  | tick idle => exact hother fun _ _ hq => hq
  | apply idle index => exact hother fun _ _ hq => hq
  | invokeLoop h => exact hother fun _ _ hq => hq
  | invokeShutdown h => exact hother fun _ _ hq => hq

end histories

end RequestContexts

open RequestContexts in
/-- No context is produced twice.  A read is completed only when every index that Raft has returned for its own
context is applied, and there is one; no other call has this context, and no context of an earlier driver is it. -/
theorem contexts_unique (nodeId : ℕ) (n : Node) (hrun : Relation.ReflTransGen Step { nodeId := nodeId } n) :
    n.produced.Nodup ∧ ∀ p, n.stage = .running p →
      ∀ c, (c, .ok none) ∈ p.system.loop ++ p.system.shutdown →
        ∃ ctx, p.own c = some ctx ∧ ctx ∈ n.produced ∧ ctx ∉ n.earlier ∧ (∀ c', p.own c' = some ctx → c' = c) ∧
          p.returned ctx ≠ [] ∧ ∀ i ∈ p.returned ctx, i ≤ p.system.raftor.appliedIndex := by
  have hi := inv_run hrun
  refine ⟨hi.nodup, fun p hp c hc => ?_⟩
  have hcur := hi.running p hp
  rcases List.mem_append.mp hc with hc | hc
  · obtain ⟨ctx, hown, hret, hle⟩ := hcur.sound.answered c hc
    obtain ⟨⟨hin, hinc⟩, -, hone⟩ := hcur.sound.own c ctx hown
    exact ⟨ctx, hown, hin, fun hearlier => (hcur.before ctx hearlier).ne hinc, hone, hret, hle⟩
  · exact absurd hc (hcur.sound.shutdown c)

open RequestContexts in
/-- A read of a first driver whose index, 3, is applied. -/
theorem contexts_unique_read : ∃ (n : Node) (p : Process), n.stage = .running p ∧
    (0, .ok none) ∈ p.system.loop ++ p.system.shutdown ∧ n.produced.Nodup ∧
      ∃ ctx, p.own 0 = some ctx ∧ ctx ∈ n.produced ∧ ∀ i ∈ p.returned ctx, i ≤ p.system.raftor.appliedIndex := by
  have hrun : ∃ (n : Node) (p : Process), Relation.ReflTransGen Step { nodeId := 1 } n ∧ n.stage = .running p ∧
      (0, .ok none) ∈ p.system.loop ++ p.system.shutdown := by
    refine ⟨_, _, .tail (.tail (.tail (.tail (.tail (.tail (.tail (.tail (.tail .refl (.recover rfl))
        (.start rfl {} false false none ⟨9, 999, 9, 999, 0, 0⟩ rfl))
        (.enter rfl 0 rfl (.readIndex [7]) false))
        (.count rfl 0 rfl false false))
        (.call rfl 0 rfl false))
        (.drainRead rfl rfl false))
        (.answer rfl rfl (contextOf ⟨.readIndex, 1, 1, 0⟩ [7]) 3))
        (.other rfl (.apply rfl 3) rfl fun _ _ hq => hq))
        (.other rfl (.completeReadyRead rfl (contextOf ⟨.readIndex, 1, 1, 0⟩ [7]) rfl rfl le_rfl) rfl ?_), rfl, ?_⟩
    · exact fun _ _ hq => lookup_answerRead hq
    · exact List.mem_cons_self
  obtain ⟨n, p, hrun, hp, hc⟩ := hrun
  obtain ⟨hnodup, hreads⟩ := contexts_unique 1 n hrun
  obtain ⟨ctx, hown, hin, -, -, -, hle⟩ := hreads p hp 0 hc
  exact ⟨n, p, hp, hc, hnodup, ctx, hown, hin, hle⟩

end Raftz
