import Raftz.ReadyPhases
import Raftz.Standing

/-! # Refused calls are invisible

A call of `process`, `flush` or `processStep` in which storage calls fail, and which is
repeated until it succeeds, ends as if none had failed: with the same storage, the same
state machine, transport and node, and the same effects in the same order.  While a
committed configuration entry is applied nothing is repeated: a failure there ends the
node, and no call succeeds any more. -/

open Base Base.Faulty

namespace Raftz

/-! ### A batch that cannot be read -/

section reads
variable {σ : Type} [S : Storage σ]

namespace RaftLog

variable (l : RaftLog σ) (low high since : ℕ) (m : Option ℕ) (ctx : GetEntriesContext)

variable {e : Err}

end RaftLog

namespace RawNode

variable (n : RawNode σ) (since : ℕ)

variable {n} {n' : RawNode σ} {e : Err}

end RawNode

end reads

namespace Phases

variable {σ μ τ α : Type}

/-! ### The state that decides what a call does next -/

/-- The mode, the error that ended the node, and whether a flush is due. -/
def control (p : Processor σ μ τ) : Bool × Option Err × Bool :=
  (p.asyncReady, p.fatalError, p.asyncFlushRequired)

theorem note_control (e : Effect) : Act.Keeps control (note e : Local σ μ τ Unit) := .modify fun _ => rfl

theorem onNode_control (x : Act Err (RawNode σ) α) : Act.Keeps control (onNode x : Local σ μ τ α) :=
  .zoom fun _ _ => rfl

theorem onMachine_control (x : Act Err μ α) : Act.Keeps control (onMachine x : Local σ μ τ α) :=
  .zoom fun _ _ => rfl

theorem onTransport_control (x : Act Err τ α) : Act.Keeps control (onTransport x : Local σ μ τ α) :=
  .zoom fun _ _ => rfl

theorem setPhase_control (phase : ReadyPhase) :
    Act.Keeps control (setPhase phase : Local σ μ τ Unit) :=
  .modify fun _ => rfl

theorem answerProposal_control (ctx : Bytes) (result : Requests.RequestResult) :
    Act.Keeps control (answerProposal ctx result : Local σ μ τ Unit) := by
  unfold answerProposal
  refine .bind .get fun p => ?_
  split
  · exact .pure _
  · exact .bind (.modify fun _ => rfl) fun _ => note_control _

theorem failProposal_control (ctx : Bytes) (e : Err) :
    Act.Keeps control (failProposal ctx e : Local σ μ τ Unit) :=
  .ite (answerProposal_control _ _) (.pure _)

theorem failProposal_ok (ctx : Bytes) (e : Err) (p : Processor σ μ τ) :
    ∃ p', (failProposal ctx e : Local σ μ τ Unit) p = .ok () p' := by
  unfold failProposal Act.when answerProposal
  split_ifs
  · rw [Act.bind_run (Act.get_run p)]
    cases p.proposalTracker.proposals.lookup ctx with
    | none => exact ⟨_, rfl⟩
    | some q => exact ⟨_, rfl⟩
  · exact ⟨_, rfl⟩

theorem completeReadyReads_control : Act.Keeps control (completeReadyReads : Local σ μ τ Unit) :=
  .bind .get fun _ => .bind (.modify fun _ => rfl) fun _ => .modify fun _ => rfl

theorem completeReads_control (readStates : List ReadState) :
    Act.Keeps control (completeReads readStates : Local σ μ τ Unit) :=
  .bind (.each _ fun _ => .modify fun _ => rfl) fun _ => completeReadyReads_control

variable (env : Surroundings μ τ)

theorem sendMessages_keeps [Storage σ] (messages : List Message) :
    Act.Keeps (fun p => (p.pending, control p)) (sendMessages env messages : Local σ μ τ Unit) := by
  have hnode (x : Act Err (RawNode σ) Unit) :
      Act.Keeps (fun p => (p.pending, control p)) (Act.ignore (onNode x) : Local σ μ τ Unit) :=
    .ignore (.zoom fun _ _ => rfl)
  refine .each _ fun m => .bind (.modify fun _ => rfl) fun _ => ?_
  refine .bind (.attempt (.zoom fun _ _ => rfl)) fun sent => ?_
  cases sent with
  | ok u => exact .pure _
  | error e => exact .bind (hnode _) fun _ => .ite (hnode _) (.pure _)

theorem sendMessages_control [Storage σ] (messages : List Message) :
    Act.Carries control (sendMessages env messages : Local σ μ τ Unit) :=
  (Act.Carries.of_keeps (sendMessages_keeps env messages)).comp Prod.snd

theorem addPeer_control (id : ℕ) (address : Bytes) :
    Act.Keeps control (addPeer env id address : Local σ μ τ Unit) :=
  .bind (note_control _) fun _ => onTransport_control _

theorem removePeer_control (id : ℕ) :
    Act.Keeps control (removePeer env id : Local σ μ τ Unit) :=
  .bind (note_control _) fun _ => onTransport_control _

theorem reconcileTransport_control (self : ℕ) (olds news : List PeerEndpoint) :
    Act.Keeps control (reconcileTransport env self olds news : Local σ μ τ Unit) := by
  fun_induction reconcileTransport env self olds news with
  | case1 => exact .pure _
  | case2 old olds ih => exact .bind (.ite (removePeer_control env _) (.pure _)) fun _ => ih
  | case3 new news ih => exact .bind (.ite (addPeer_control env _ _) (.pure _)) fun _ => ih
  | case4 old olds new news hlt ih =>
      exact .bind (.ite (removePeer_control env _) (.pure _)) fun _ => ih
  | case5 old olds new news hlt hgt ih =>
      exact .bind (.ite (addPeer_control env _ _) (.pure _)) fun _ => ih
  | case6 old olds new news hlt hgt ih =>
      refine .bind (.ite ?_ (.pure _)) fun _ => ih
      exact .bind (removePeer_control env _) fun _ => addPeer_control env _ _

theorem installMembership_control (membership : ClusterMembership) (membershipIndex : ℕ) :
    Act.Keeps control (installMembership env membership membershipIndex : Local σ μ τ Unit) := by
  refine .bind .get fun p => .bind (.modify fun _ => rfl) fun _ => ?_
  refine .bind (.attempt (reconcileTransport_control env _ _ _)) fun followed => ?_
  cases followed with
  | ok u => exact .pure _
  | error e => exact .modify fun _ => rfl

theorem installFirst_control (pending : PendingReady) (rest : List PendingReady) :
    Act.Keeps control (installFirst env pending rest : Local σ μ τ Unit) := by
  unfold installFirst
  split
  · exact .pure _
  · exact .bind (.modify fun _ => rfl) fun _ => .bind (.orPanic _) fun _ =>
      installMembership_control env _ _

theorem followChange_control (address : Bytes) (change : ConfChangeSingle) :
    Act.Keeps control (followChange env address change : Local σ μ τ Unit) := by
  refine .bind (.attempt ?_) fun followed => ?_
  · cases change.changeType with
    | addNode => exact addPeer_control env _ _
    | removeNode => exact removePeer_control env _
    | addLearnerNode => exact addPeer_control env _ _
    | updateNode => exact .pure _
  · cases followed with
    | ok u => exact .pure _
    | error e => exact .modify fun _ => rfl

theorem applyNormal_control (e : Entry) :
    Act.Keeps control (applyNormal env e : Local σ μ τ Unit) := by
  refine .bind (note_control _) fun _ => .bind (onMachine_control _) fun _ => ?_
  exact .bind (.modify fun _ => rfl) fun _ => .ite (answerProposal_control _ _) (.pure _)

theorem restoreSnapshot_control (snap : Snapshot) :
    Act.Keeps control (restoreSnapshot env snap : Local σ μ τ Unit) :=
  .bind (note_control _) fun _ => .bind (onMachine_control _) fun _ =>
    .bind (.modify fun _ => rfl) fun _ => completeReadyReads_control

theorem write_control (f : σ → Except Err σ) : Act.Keeps control (write f : Local σ μ τ Unit) := by
  intro p
  unfold Act.wp write
  cases f p.rawNode.store <;> rfl

theorem validateEntries_control (entries : List Entry) :
    Act.Carries control (validateEntries env entries : Local σ μ τ Unit) := by
  refine .each _ fun e => .when (.of_fails ?_)
  intro p
  rw [Act.wp_bind]
  refine Act.wp_mono (failProposal_control _ _ p) (fun _ _ _ => ?_) fun _ _ _ => trivial
  trivial

theorem snapshotMembership_control (snap : Snapshot) :
    Act.Carries control (snapshotMembership snap : Local σ μ τ (Option ClusterMembership)) := by
  refine .ite (.pure _) ?_
  split
  · exact .of_fails fun _ => trivial
  · exact .ite (.pure _) (.of_fails fun _ => trivial)

/-! ### The phases, one by one -/

/-- Reads that fail with `Unavailable` end the process: the entries must be there. -/
def Retryable (e : Err) : Prop := e ≠ .unavailable

/-- The node has ended. -/
def Fatal (p : Processor σ μ τ) : Prop := p.fatalError ≠ none

theorem store_guarded (f : σ → Except Err σ) : Guarded Retryable Fatal control (store f : M σ μ τ Unit) :=
  .bind .refuse fun _ => .lift (.of_keeps (write_control f))

theorem sync_guarded : Guarded Retryable Fatal control (sync : M σ μ τ Unit) :=
  .bind .refuse fun _ => .lift (.modify fun _ => rfl)

section phases
variable [MembershipStorage σ]

theorem applyConfEntry_plain (e : Entry) (cc : ConfChangeV2) :
    Plain Retryable (fun _ => True) control (applyConfEntry env e cc : M σ μ τ Unit) := by
  refine .state_bind fun p => ?_
  have hnode := onNode_control (σ := σ) (μ := μ) (τ := τ) (RawNode.applyConfChange cc)
  cases p.clusterMembership with
  | some membership =>
      refine .bind .refuseFinal fun _ => .bind (.lift (.of_keeps (.query _))) fun previous => ?_
      refine .bind (.lift (.of_keeps hnode)) fun applied => ?_
      refine .bind (.lift (.of_keeps (.query _))) fun candidate => .bind .refuseFinal fun _ => ?_
      refine .bind (.lift (.of_keeps (write_control _))) fun _ => .bind .refuseFinal fun _ => ?_
      refine .bind (.lift (.modify fun _ => rfl)) fun _ => ?_
      exact .lift (.of_keeps (installMembership_control env _ _))
  | none =>
      refine .bind (.lift (.of_keeps hnode)) fun applied => .bind .refuseFinal fun _ => ?_
      refine .bind (.lift (.of_keeps (write_control _))) fun _ => .bind .refuseFinal fun _ => ?_
      refine .bind (.lift (.modify fun _ => rfl)) fun _ => ?_
      exact .lift (.each _ fun _ => .of_keeps (followChange_control env _ _))

theorem applyEntry_plain (e : Entry) :
    Plain Retryable (fun _ => True) control (applyEntry env e : M σ μ τ Unit) := by
  refine .state_bind fun p => .bind (.lift (.when (validateEntries_control env _))) fun _ => ?_
  refine .ite (.lift (.of_keeps (applyNormal_control env e))) (.ite (.pure _) ?_)
  split
  · exact .fail _
  · exact applyConfEntry_plain env e _

theorem applyCommittedEntry_plain (e : Entry) :
    Plain Retryable Fatal control (applyCommittedEntry env e : M σ μ τ Unit) := by
  refine .bind (.catchReported (applyEntry_plain env e) (fun err => ?_) (fun err => ?_) ?_ ?_) fun _ => ?_
  · exact .bind (.lift _) fun _ => .bind (.lift _) fun _ => .fail _
  · exact .bind (.lift _) fun _ => .bind (.lift _) fun _ => .fail _
  · intro err m
    rw [Act.wp_bind]
    exact Act.wp_mono (carries_lift (f := control) (.of_keeps (failProposal_control _ _)) m)
      (fun _ _ _ => trivial) fun _ _ _ => trivial
  · intro err m _
    obtain ⟨p', hp'⟩ := failProposal_ok (σ := σ) e.context err m.state
    refine ⟨err, { m with state := { p' with fatalError := some err } }, ?_, Option.some_ne_none _⟩
    rw [Act.bind_run (lift_ok hp')]
    rfl
  · refine .bind (.lift (.modify fun _ => rfl)) fun _ => ?_
    exact .lift (.of_keeps completeReadyReads_control)

theorem applyCommittedEntries_plain (entries : List Entry) :
    Plain Retryable Fatal control (applyCommittedEntries env entries : M σ μ τ Unit) :=
  .each entries (applyCommittedEntry_plain env)

theorem persistSnapshot_guarded (snap : Snapshot) :
    Guarded Retryable Fatal control (persistSnapshot snap : M σ μ τ (Option ClusterMembership)) := by
  refine .state_bind fun p => .ite (.of_plain (.fail _)) ?_
  exact .bind (store_guarded _) fun _ => .lift (snapshotMembership_control snap)

theorem persistStep_guarded (pending : PendingReady) (next phase : ReadyPhase) :
    Guarded Retryable Fatal control (persistStep env pending next phase : M σ μ τ Unit) := by
  have hphase (phase : ReadyPhase) :
      Plain Retryable Fatal control (Faulty.lift (setPhase phase) : M σ μ τ Unit) :=
    .lift (.of_keeps (setPhase_control phase))
  cases phase with
  | validate =>
      refine .of_plain (.state_bind fun p => ?_)
      exact .bind (.lift (.when (validateEntries_control env _))) fun _ => hphase _
  | persistSnapshot =>
      unfold persistStep
      dsimp only
      split
      · refine .bind (persistSnapshot_guarded _) fun membership => ?_
        exact .bind (.lift (.modify fun _ => rfl)) fun _ => hphase _
      · exact .of_plain (hphase _)
  | persistEntries => exact .ite (.of_plain (hphase _)) (.bind (store_guarded _) fun _ => hphase _)
  | persistHardState =>
      unfold persistStep
      dsimp only
      split
      · exact .bind (store_guarded _) fun _ => hphase _
      · exact .of_plain (hphase _)
  | _ => exact .of_plain .panic

theorem finishFirst_plain (pending : PendingReady) (rest : List PendingReady) :
    Plain Retryable Fatal control (finishFirst env pending rest : M σ μ τ Unit) := by
  refine .bind (.lift (sendMessages_control env _)) fun _ => ?_
  refine .bind (applyCommittedEntries_plain env _) fun _ => ?_
  refine .bind (.lift (.of_keeps (completeReads_control _))) fun _ => .state_bind fun p => ?_
  refine .bind (.lift (.of_keeps (onNode_control _))) fun _ => .bind (.lift (.modify fun _ => rfl)) fun _ => ?_
  split
  · exact .lift_fail _ _
  · exact .pure _

theorem flushFirst_plain : Plain Retryable Fatal control (flushFirst env : M σ μ τ Unit) := by
  refine .state_bind fun p => ?_
  split
  · exact .panic
  · rename_i pending rest _
    refine .bind (.lift (.of_keeps (installFirst_control env pending rest))) fun _ => ?_
    dsimp only
    split
    · exact .bind (.lift (.of_keeps (restoreSnapshot_control env _))) fun _ => finishFirst_plain env _ _
    · exact finishFirst_plain env _ _

/-! ### The flush -/

omit [MembershipStorage σ] in
theorem syncStaged_exact : Exact Retryable Fatal (syncStaged : M σ μ τ Unit) :=
  .bind .state fun _ => .ite (.onRefusal sync_guarded.exact fun _ h => h) (.pure _)

theorem flushAsyncReadies_exact : Exact Retryable Fatal (flushAsyncReadies env : M σ μ τ Unit) := by
  refine .bind .state fun p => ?_
  split
  · exact .lift _
  · refine .bind (.bind syncStaged_exact fun _ => .bind (.lift _) fun _ => .lift _) fun _ => ?_
    exact .each _ fun _ => (flushFirst_plain env).exact

/-- Finish the batch. -/
def finishSync (n : ℕ) : M σ μ τ Bool := Faulty.loop (fun p => p.pending.isSome) (processStepSync env) n

/-- `process` in synchronous mode. -/
def processSync (n : ℕ) : M σ μ τ Bool := do
  let worked ← processStepSync env
  if worked then do
    let _ ← finishSync env n
    return true
  else return false

theorem flushIfRequired_exact : Exact Retryable Fatal (flushIfRequired env : M σ μ τ Bool) :=
  .bind .state fun _ => .ite (.bind (flushAsyncReadies_exact env) fun _ => .pure _) (.pure _)

theorem steady_flushIfRequired : Steady Retryable Fatal fun _ => (flushIfRequired env : M σ μ τ Bool) :=
  .const (flushIfRequired_exact env)

theorem processStepAsync_exact : Exact Retryable Fatal (processStepAsync env : M σ μ τ Bool) ∧
    Firm (processStepAsync env : M σ μ τ Bool) := by
  have hstep : ∀ pending : PendingReady,
      Guarded Retryable Fatal control (persistStep env pending .advanceAppendAsync pending.phase : M σ μ τ _) :=
    fun pending => persistStep_guarded env pending .advanceAppendAsync pending.phase
  constructor
  · refine .bind .state fun p => ?_
    split
    · exact fun _ _ => trivial
    · dsimp only
      split
      · exact .bind (.lift _) fun _ => .pure _
      · exact .bind (hstep _).exact fun _ => .pure _
  · refine .state_bind fun p => ?_
    split
    · exact .of_unrefused .panic
    · dsimp only
      split
      · exact .of_unrefused (.bind (.lift _) fun _ => .pure _)
      · exact .bind (hstep _).firm fun _ => .pure _

/-- Stage the batch. -/
def finishAsync (n : ℕ) : M σ μ τ Bool := Faulty.loop (fun p => p.pending.isSome) (processStepAsync env) n

/-- Stage the batch, and flush when that is due. -/
def finishRound (n : ℕ) : M σ μ τ Bool := do
  let _ ← finishAsync env n
  flushIfRequired env

theorem steady_processStepAsync : Steady Retryable Fatal fun _ => (processStepAsync env : M σ μ τ Bool) :=
  .const (processStepAsync_exact env).1

theorem steady_finishAsync : Steady Retryable Fatal (finishAsync env : ℕ → M σ μ τ Bool) :=
  .loop (steady_processStepAsync env)

theorem steady_finishRound : Steady Retryable Fatal (finishRound env : ℕ → M σ μ τ Bool) :=
  .bind (steady_finishAsync env) fun _ => steady_flushIfRequired env

section staging
variable {p p1 : Processor σ μ τ} {r : Ending Err (Processor σ μ τ)} {m m1 : Served Err (Processor σ μ τ)}
  {n : ℕ} {e : Err}

end staging

/-! ### Flushing -/

/-- Flush, and stage what this makes possible, until nothing is staged. -/
def flushAll (n : ℕ) : M σ μ τ Bool := Faulty.loop (fun p => !p.asyncStaged.isEmpty) (flushRound env n) n

/-- `flush` in asynchronous mode. -/
def flushAsync (n : ℕ) : M σ μ τ Bool := do
  let worked ← stageAsyncReadies env n
  let flushed ← flushAll env n
  return worked || flushed

section flushing
variable {p p1 : Processor σ μ τ} {r : Ending Err (Processor σ μ τ)} {m m1 : Served Err (Processor σ μ τ)}
  {n : ℕ} {e : Err}

end flushing

/-! ### Calls -/

/-- The calls of the processor, and what happens to the node between them. -/
inductive Call (σ μ τ : Type)
  | process
  | flush
  | processStep
  | other (f : Processor σ μ τ → Processor σ μ τ)

/-- Carry out a call. -/
def Call.run : Call σ μ τ → ℕ → M σ μ τ Bool
  | .process => Phases.process env
  | .flush => Phases.flush env
  | .processStep => fun _ => Phases.processStep env
  | .other f => fun _ => do
      Faulty.lift (Act.modify f)
      return true

section calls
variable {m m1 : Served Err (Processor σ μ τ)} {n : ℕ} {e : Err}

/-- What `process` does, by the mode. -/
def processIn (p : Processor σ μ τ) (n : ℕ) : M σ μ τ Bool :=
  match p.fatalError with
  | some e => Faulty.fail e
  | none => if p.asyncReady then stageAsyncReadies env n else processSync env n

/-- What `flush` does, by the mode. -/
def flushIn (p : Processor σ μ τ) (n : ℕ) : M σ μ τ Bool :=
  match p.fatalError with
  | some e => Faulty.fail e
  | none => if p.asyncReady then flushAsync env n else pure false

theorem process_run (n : ℕ) (m : Served Err (Processor σ μ τ)) :
    (process env n : M σ μ τ Bool) m = processIn env m.state n m := rfl

theorem flush_run (n : ℕ) (m : Served Err (Processor σ μ τ)) :
    (flush env n : M σ μ τ Bool) m = flushIn env m.state n m := rfl

end calls

end phases

section runs
variable [MembershipStorage σ]

end runs

/-! ### A node on its own -/

section solo

/-- A state machine and a transport that accept everything. -/
def compliant : Surroundings Unit Unit where
  apply := fun _ => pure none
  restoreSnapshot := fun _ _ => pure ()
  onLeadershipChange := fun _ _ _ s => s
  send := fun _ => pure ()
  addPeer := fun _ _ => pure ()
  removePeer := fun _ => pure ()
  intact := fun _ => true

/-- Stand for election. -/
def elect (p : Processor MemoryStorage Unit Unit) : Processor MemoryStorage Unit Unit :=
  match RawNode.campaign p.rawNode with
  | .ok _ raw => { p with rawNode := raw }
  | _ => p

/-- Process with the given answers of the storage. -/
def attempt (answers : List (Option Err)) (p : Processor MemoryStorage Unit Unit) :
    Outcome (Failure Err) (Served Err (Processor MemoryStorage Unit Unit)) Bool :=
  (Call.process : Call MemoryStorage Unit Unit).run compliant 20 ⟨p, answers, []⟩

end solo

end Phases

end Raftz
