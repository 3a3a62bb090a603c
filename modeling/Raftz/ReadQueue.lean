import Raftz.Driver

/-! # The order of reads

A pending read is in the queue and in the map of `ReadOnly`, under its context.  A
`ReadHistory` numbers the requests by their arrival and remembers which are waiting and
which were released, so that "each once, in the order of arrival" is a property of a
list of numbers.  Every call of the consensus state machine does to its reads what some
steps of a history do (`Raft.Change.reads`): the log is committed further, a request comes in
at the commit index, acknowledgements are counted, a prefix of the queue is released, and
a change of role forgets the queue. -/

open Base

namespace Raftz

/-- The context a request is known by. -/
def requestCtx (req : Message) : Option Bytes := req.entries.head?.map Entry.data

namespace ReadOnly

/-- The request under a context, with the index it came at. -/
def claim (ro : ReadOnly) (ctx : Bytes) : Option (Message × ℕ) :=
  (ro.pending.lookup ctx).map fun st => (st.req, st.index)

/-- The pending requests, oldest first. -/
def held (ro : ReadOnly) : List (Message × ℕ) := ro.queue.filterMap ro.claim

/-- The queue and the map agree. -/
structure Agrees (ro : ReadOnly) : Prop where
  nodup : ro.queue.Nodup
  keys : ∀ ctx, ctx ∈ ro.queue ↔ ctx ∈ ro.pending
  named : ∀ ctx x, ro.claim ctx = some x → requestCtx x.1 = some ctx

variable {ro : ReadOnly}

theorem Agrees.claim_isSome (h : ro.Agrees) {ctx : Bytes} (hc : ctx ∈ ro.queue) : (ro.claim ctx).isSome = true := by
  rw [claim, Option.isSome_map, AList.lookup_isSome]
  exact (h.keys ctx).mp hc

theorem claim_eq_none {ctx : Bytes} (hc : ctx ∉ ro.pending) : ro.claim ctx = none := by
  rw [claim, AList.lookup_eq_none.mpr hc]
  rfl

theorem agrees_init (option : ReadOnlyOption) : (init option).Agrees where
  nodup := List.nodup_nil
  keys := by
    intro ctx
    simp [init]
  named := by
    intro ctx x hx
    simp [init, claim] at hx

@[simp] theorem held_init (option : ReadOnlyOption) : (init option).held = [] := rfl

/-- Where every member has a value, the values of a prefix are a prefix of the values. -/
theorem filterMap_take_drop {α β : Type} {f : α → Option β} {l : List α} (h : ∀ a ∈ l, (f a).isSome = true)
    (n : ℕ) : (l.take n).filterMap f = (l.filterMap f).take n ∧ (l.drop n).filterMap f = (l.filterMap f).drop n := by
  induction l generalizing n with
  | nil => simp
  | cons a l ih =>
      obtain ⟨b, hb⟩ := Option.isSome_iff_exists.mp (h a List.mem_cons_self)
      cases n with
      | zero => simp
      | succ n => simpa [hb] using ih (fun x hx => h x (List.mem_cons_of_mem a hx)) n

/-! ### Registration -/

/-- A request is registered when its context is new. -/
def Registers (ro : ReadOnly) (req : Message) (ctx : Bytes) : Prop := requestCtx req = some ctx ∧ ctx ∉ ro.queue

theorem addRequest_registers (h : ro.Agrees) {req : Message} {ctx : Bytes} (hr : ro.Registers req ctx)
    (index selfId : ℕ) : (ro.addRequest index req selfId).queue = ro.queue ++ [ctx] ∧
      (ro.addRequest index req selfId).held = ro.held ++ [(req, index)] ∧
      (ro.addRequest index req selfId).Agrees := by
  obtain ⟨hctx, hnew⟩ := hr
  have hpend : ctx ∉ ro.pending := fun hp => hnew ((h.keys ctx).mpr hp)
  have heq : ro.addRequest index req selfId = { ro with
      queue := ro.queue ++ [ctx]
      pending := ro.pending.insert ctx ⟨req, index, IdSet.add ∅ selfId⟩ } := by
    unfold addRequest
    split
    · rename_i hnil
      simp [requestCtx, hnil] at hctx
    · rename_i e es hcons
      have hdata : e.data = ctx := by simpa [requestCtx, hcons] using hctx
      rw [hdata, if_neg hpend]
  rw [heq]
  have hclaim : ∀ k ∈ ro.queue, (ro.pending.insert ctx ⟨req, index, IdSet.add ∅ selfId⟩).lookup k =
      ro.pending.lookup k := by
    intro k hk
    refine AList.lookup_insert_ne ?_
    rintro rfl
    exact hnew hk
  refine ⟨rfl, ?_, ?_, ?_, ?_⟩
  · unfold held
    dsimp only
    rw [List.filterMap_append]
    congr 1
    · refine List.filterMap_congr fun k hk => ?_
      simp only [claim, hclaim k hk]
    · simp [claim]
  · dsimp only
    rw [List.nodup_append]
    refine ⟨h.nodup, List.nodup_singleton _, ?_⟩
    rintro k hk _ hk' rfl
    rw [List.mem_singleton] at hk'
    subst hk'
    exact hnew hk
  · intro k
    dsimp only
    rw [List.mem_append, List.mem_singleton, AList.mem_insert, h.keys k, or_comm]
  · intro k x hx
    unfold claim at hx
    dsimp only at hx
    by_cases hk : k = ctx
    · subst hk
      rw [AList.lookup_insert] at hx
      cases hx
      exact hctx
    · rw [AList.lookup_insert_ne hk] at hx
      exact h.named k x hx

theorem addRequest_ignored (h : ro.Agrees) {req : Message} (hr : ∀ ctx, ¬ ro.Registers req ctx)
    (index selfId : ℕ) : ro.addRequest index req selfId = ro := by
  unfold addRequest
  split
  · rfl
  · rename_i e es hcons
    have hctx : requestCtx req = some e.data := by simp [requestCtx, hcons]
    have hin : e.data ∈ ro.pending := by
      rw [← h.keys]
      by_contra hnot
      exact hr e.data ⟨hctx, hnot⟩
    rw [if_pos hin]

/-! ### Acknowledgements -/

/-- An acknowledgement changes only who has acknowledged. -/
theorem recvACK_spec (h : ro.Agrees) (id : ℕ) (ctx : Bytes) :
    (ro.recvACK id ctx).1.queue = ro.queue ∧ (ro.recvACK id ctx).1.held = ro.held ∧
      (ro.recvACK id ctx).1.Agrees := by
  unfold recvACK
  split
  · exact ⟨rfl, rfl, h⟩
  · rename_i st hst
    have hclaim : ∀ k, ((ro.pending.insert ctx { st with acks := st.acks.add id }).lookup k).map
        (fun st => (st.req, st.index)) = ro.claim k := by
      intro k
      by_cases hk : k = ctx
      · subst hk
        rw [AList.lookup_insert, claim, hst]
        rfl
      · rw [AList.lookup_insert_ne hk]
        rfl
    have hmem : ctx ∈ ro.pending := by
      rw [← AList.lookup_isSome, hst]
      rfl
    refine ⟨rfl, List.filterMap_congr fun k _ => hclaim k, h.nodup, fun k => ?_, fun k x hx => ?_⟩
    · rw [h.keys k, AList.mem_insert]
      constructor
      · exact Or.inr
      · rintro (rfl | hk)
        · exact hmem
        · exact hk
    · exact h.named k x ((hclaim k).symm.trans hx)

/-! ### Release -/

theorem lookup_foldl_erase (l : List Bytes) (m : AList (fun _ : Bytes => ReadIndexStatus)) (k : Bytes) :
    (l.foldl (fun m key => m.erase key) m).lookup k = if k ∈ l then none else m.lookup k := by
  induction l generalizing m with
  | nil => simp
  | cons a l ih =>
      rw [List.foldl_cons, ih]
      by_cases hk : k = a
      · subst hk
        simp
      · simp [hk, AList.lookup_erase_ne hk]

/-- A release never fails: it takes the requests up to the context, in their order. -/
theorem advance_spec (h : ro.Agrees) (ctx : Bytes) : ∃ ro' released, ro.advance ctx = .ok (ro', released) ∧
    released.map (fun st => (st.req, st.index)) = ro.held.take (ro.upTo ctx) ∧
    released.length = ro.upTo ctx ∧ ro'.queue = ro.queue.drop (ro.upTo ctx) ∧
    ro'.held = ro.held.drop (ro.upTo ctx) ∧ ro'.option = ro.option ∧ ro'.Agrees := by
  unfold advance upTo
  by_cases hc : ctx ∈ ro.queue
  · rw [if_pos hc, if_pos hc]
    generalize hn : ro.queue.idxOf ctx + 1 = n
    have hle : n ≤ ro.queue.length := by
      have hlt := List.idxOf_lt_length_of_mem hc
      omega
    have hall : ((ro.queue.take n).all fun key => decide (key ∈ ro.pending)) = true := by
      rw [List.all_eq_true]
      intro key hkey
      simpa using (h.keys key).mp (List.mem_of_mem_take hkey)
    dsimp only
    rw [if_pos hall]
    have hsome : ∀ k ∈ ro.queue, (ro.pending.lookup k).isSome = true := fun k hk =>
      AList.lookup_isSome.mpr ((h.keys k).mp hk)
    have hmap : ∀ l : List Bytes, (l.filterMap fun key => ro.pending.lookup key).map
        (fun st => (st.req, st.index)) = l.filterMap ro.claim := by
      intro l
      rw [List.map_filterMap]
      rfl
    have hlook : ∀ k, ((ro.queue.take n).foldl (fun m key => m.erase key) ro.pending).lookup k =
        if k ∈ ro.queue.take n then none else ro.pending.lookup k := lookup_foldl_erase _ _
    have hapart : ∀ k ∈ ro.queue.drop n, k ∉ ro.queue.take n := by
      intro k hk hk'
      have hnodup := h.nodup
      rw [← List.take_append_drop n ro.queue, List.nodup_append] at hnodup
      exact hnodup.2.2 k hk' k hk rfl
    refine ⟨_, _, rfl, ?_, ?_, rfl, ?_, rfl, ?_, ?_, ?_⟩
    · rw [hmap]
      exact (filterMap_take_drop (fun k hk => h.claim_isSome hk) n).1
    · have hlen : ((ro.queue.filterMap fun key => ro.pending.lookup key).take n).length = n := by
        have hfull : (ro.queue.filterMap fun key => ro.pending.lookup key).length = ro.queue.length := by
          rw [List.length_filterMap_eq_countP, List.countP_eq_length]
          exact hsome
        rw [List.length_take, hfull]
        omega
      rw [← (filterMap_take_drop hsome n).1] at hlen
      exact hlen
    · unfold held
      dsimp only
      rw [← (filterMap_take_drop (fun k hk => h.claim_isSome hk) n).2]
      refine List.filterMap_congr fun k hk => ?_
      simp only [claim, hlook k, if_neg (hapart k hk)]
    · exact h.nodup.sublist (List.drop_sublist n ro.queue)
    · intro k
      dsimp only
      rw [← AList.lookup_isSome, hlook k]
      constructor
      · intro hk
        rw [if_neg (hapart k hk)]
        exact hsome k (List.mem_of_mem_drop hk)
      · intro hk
        by_cases hin : k ∈ ro.queue.take n
        · rw [if_pos hin] at hk
          cases hk
        rw [if_neg hin] at hk
        have hq := (h.keys k).mpr (AList.lookup_isSome.mp hk)
        rw [← List.take_append_drop n ro.queue, List.mem_append] at hq
        exact hq.resolve_left hin
    · intro k x hx
      unfold claim at hx
      dsimp only at hx
      rw [hlook k] at hx
      by_cases hin : k ∈ ro.queue.take n
      · rw [if_pos hin] at hx
        cases hx
      · rw [if_neg hin] at hx
        exact h.named k x hx
  · rw [if_neg hc, if_neg hc]
    exact ⟨ro, [], rfl, rfl, rfl, rfl, rfl, rfl, h⟩

/-- A release of an unknown context is nothing. -/
theorem advance_unknown {ctx : Bytes} (hc : ctx ∉ ro.queue) : ro.advance ctx = .ok (ro, []) := by
  unfold advance
  rw [if_neg hc]

end ReadOnly

/-! ### The history of the requests -/

/-- The queue of a node with the requests that ever came in, by number those that wait and those that
were released, in this order. -/
structure ReadHistory where
  queue : ReadOnly
  committed : ℕ
  arrived : List (Message × ℕ) := []
  waiting : List ℕ := []
  released : List ℕ := []

namespace ReadHistory

/-- Register a request at the commit index; one that is ignored does not arrive. -/
def register (h : ReadHistory) (req : Message) (selfId : ℕ) : ReadHistory :=
  let ro := h.queue.addRequest h.committed req selfId
  if ro.queue = h.queue.queue then { h with queue := ro }
  else { h with
    queue := ro
    arrived := h.arrived ++ [(req, h.committed)]
    waiting := h.waiting ++ [h.arrived.length] }

/-- What happens to the reads of a node. -/
inductive ReadStep : ReadHistory → ReadHistory → Prop
  | register (h : ReadHistory) (req : Message) (selfId : ℕ) : ReadStep h (h.register req selfId)
  | acknowledge (h : ReadHistory) (id : ℕ) (ctx : Bytes) :
      ReadStep h { h with queue := (h.queue.recvACK id ctx).1 }
  | advance (h : ReadHistory) (ctx : Bytes) (ro : ReadOnly) (sts : List ReadIndexStatus)
      (ha : h.queue.advance ctx = .ok (ro, sts)) : ReadStep h { h with
        queue := ro
        waiting := h.waiting.drop sts.length
        released := h.released ++ h.waiting.take sts.length }
  | reset (h : ReadHistory) : ReadStep h { h with queue := ReadOnly.init h.queue.option, waiting := [] }
  | commit (h : ReadHistory) (i : ℕ) (hi : h.committed ≤ i) : ReadStep h { h with committed := i }

/-- Any number of steps. -/
abbrev Steps : ReadHistory → ReadHistory → Prop := Relation.ReflTransGen ReadStep

/-- The state of the reads is sound, and its requests are those that wait, in the order of arrival. -/
structure Inv (h : ReadHistory) : Prop where
  sound : h.queue.Agrees
  waiting : h.queue.held.map some = h.waiting.map fun t => h.arrived[t]?
  order : (h.released ++ h.waiting).Pairwise (· < ·)
  known : ∀ t ∈ h.released ++ h.waiting, t < h.arrived.length
  indexes : (h.queue.held.map Prod.snd).Pairwise (· ≤ ·)
  committed : ∀ x ∈ h.queue.held, x.2 ≤ h.committed

/-- No request yet. -/
def start (option : ReadOnlyOption) (committed : ℕ) : ReadHistory where
  queue := ReadOnly.init option
  committed := committed

theorem inv_start (option : ReadOnlyOption) (committed : ℕ) : (start option committed).Inv where
  sound := ReadOnly.agrees_init option
  waiting := rfl
  order := List.Pairwise.nil
  known := by
    intro t ht
    cases ht
  indexes := List.Pairwise.nil
  committed := by
    intro x hx
    cases hx

variable {h h' : ReadHistory}

theorem Inv.register (hinv : h.Inv) (req : Message) (selfId : ℕ) : (h.register req selfId).Inv := by
  unfold ReadHistory.register
  dsimp only
  by_cases hr : ∃ ctx, h.queue.Registers req ctx
  · obtain ⟨ctx, hr⟩ := hr
    obtain ⟨hqueue, hheld, hsound⟩ := ReadOnly.addRequest_registers hinv.sound hr h.committed selfId
    have hne : ¬ (h.queue.addRequest h.committed req selfId).queue = h.queue.queue := by
      rw [hqueue]
      simp
    rw [if_neg hne]
    refine ⟨hsound, ?_, ?_, ?_, ?_, ?_⟩
    · dsimp only
      rw [hheld, List.map_append, List.map_append, hinv.waiting]
      congr 1
      · refine List.map_congr_left fun t ht => ?_
        have hlt := hinv.known t (List.mem_append_right _ ht)
        rw [List.getElem?_append_left hlt]
      · simp
    · dsimp only
      rw [← List.append_assoc, List.pairwise_append]
      refine ⟨hinv.order, List.pairwise_singleton _ _, fun t ht t' ht' => ?_⟩
      rw [List.mem_singleton] at ht'
      rw [ht']
      exact hinv.known t ht
    · intro t ht
      dsimp only at ht ⊢
      rw [← List.append_assoc, List.mem_append, List.mem_singleton] at ht
      rw [List.length_append, List.length_singleton]
      rcases ht with ht | ht
      · have hlt := hinv.known t ht
        omega
      · omega
    · dsimp only
      rw [hheld, List.map_append, List.pairwise_append]
      refine ⟨hinv.indexes, List.pairwise_singleton _ _, fun i hi j hj => ?_⟩
      obtain ⟨x, hx, rfl⟩ := List.mem_map.mp hi
      rw [List.map_singleton, List.mem_singleton] at hj
      rw [hj]
      exact hinv.committed x hx
    · intro x hx
      dsimp only at hx ⊢
      rw [hheld, List.mem_append, List.mem_singleton] at hx
      rcases hx with hx | rfl
      · exact hinv.committed x hx
      · exact le_rfl
  · have hsame := ReadOnly.addRequest_ignored hinv.sound (fun ctx hc => hr ⟨ctx, hc⟩) h.committed selfId
    rw [hsame, if_pos rfl]
    exact hinv

/-- The requests and their numbers stay in step. -/
theorem Inv.length_waiting (hinv : h.Inv) : h.waiting.length = h.queue.held.length := by
  have hlen := congrArg List.length hinv.waiting
  simpa using hlen.symm

theorem Inv.step (hinv : h.Inv) (hs : ReadStep h h') : h'.Inv := by
  cases hs with
  | register req selfId => exact hinv.register req selfId
  | acknowledge id ctx =>
      obtain ⟨-, hheld, hsound⟩ := ReadOnly.recvACK_spec hinv.sound id ctx
      refine ⟨hsound, ?_, hinv.order, hinv.known, ?_, ?_⟩
      · dsimp only
        rw [hheld, hinv.waiting]
      · dsimp only
        rw [hheld]
        exact hinv.indexes
      · dsimp only
        rw [hheld]
        exact hinv.committed
  | advance ctx ro sts ha =>
      obtain ⟨ro', sts', ha', -, hlen, -, hheld, -, hsound⟩ := ReadOnly.advance_spec hinv.sound ctx
      rw [ha] at ha'
      cases ha'
      refine ⟨hsound, ?_, ?_, ?_, ?_, ?_⟩
      · dsimp only
        rw [hheld, hlen, List.map_drop, List.map_drop, hinv.waiting]
      · dsimp only
        rw [List.append_assoc, List.take_append_drop]
        exact hinv.order
      · dsimp only
        rw [List.append_assoc, List.take_append_drop]
        exact hinv.known
      · dsimp only
        rw [hheld, List.map_drop]
        exact hinv.indexes.sublist (List.drop_sublist _ _)
      · intro x hx
        dsimp only at hx
        rw [hheld] at hx
        exact hinv.committed x (List.mem_of_mem_drop hx)
  | reset =>
      refine ⟨ReadOnly.agrees_init _, rfl, ?_, ?_, List.Pairwise.nil, fun x hx => by cases hx⟩
      · dsimp only
        rw [List.append_nil]
        exact (List.pairwise_append.mp hinv.order).1
      · intro t ht
        dsimp only at ht
        rw [List.append_nil] at ht
        exact hinv.known t (List.mem_append_left _ ht)
  | commit i hi =>
      exact ⟨hinv.sound, hinv.waiting, hinv.order, hinv.known, hinv.indexes,
        fun x hx => (hinv.committed x hx).trans hi⟩

theorem Inv.steps (hinv : h.Inv) (hs : Steps h h') : h'.Inv := by
  induction hs with
  | refl => exact hinv
  | tail _ hstep ih => exact ih.step hstep

end ReadHistory

end Raftz
