import Raftz.Completeness

/-! # What the nodes apply

A node applies what it is handed out: the committed entries of its batches.  What is handed out is
in the log that the step leaves, up to its commit index, and therefore the same at every node, at
every moment of a run. -/

open Base

namespace Raftz

variable {σ : Type} [LawfulStorage σ]

/-- The log of a node holds an entry, and the node has committed it. -/
structure Driver.Committed (d : Driver σ) (e : Entry) : Prop where
  base_lt : d.raw.raft.raftLog.log.base < e.index
  le : e.index ≤ d.raw.raft.raftLog.committed
  entryAt : d.raw.raft.raftLog.log.entryAt e.index = some e

namespace Log

/-- Entries cut from a log are in it. -/
theorem entryAt_of_slice {l : Log} (hc : l.Contiguous) {lo hi : ℕ} (hlo : l.base < lo) {es : List Entry}
    (h : es <+: l.slice lo (hi + 1)) {e : Entry} (he : e ∈ es) :
    l.base < e.index ∧ e.index ≤ hi ∧ l.entryAt e.index = some e := by
  obtain ⟨hcons, hbound⟩ := RawNode.handedOut_of_slice hc hlo h
  obtain ⟨hle, hhi⟩ := hbound e he
  refine ⟨by omega, hhi, ?_⟩
  obtain ⟨k, hk, rfl⟩ := List.getElem_of_mem he
  have hidx : es[k].index = lo + k := consecutive_iff.mp hcons k hk
  have hget : (l.slice lo (hi + 1))[k]? = _ := slice_prefix_getElem? hlo
  rw [if_pos (by omega), ← hidx] at hget
  rw [← hget]
  exact List.prefix_iff_getElem?.mp h k hk

end Log

namespace Driver

/-- What a step hands out is committed in the log that it leaves. -/
theorem committed_of_step {SameData : σ → σ → Prop} {d d' : Driver σ} {ev : Event}
    (hstep : Step SameData d ev d') (hs : d.Sound) {e : Entry} (he : e ∈ ev.entries) : d'.Committed e := by
  cases hstep with
  | ready rd raw store hr hw =>
      have hn := readied hs (Act.wp_ok (RawNode.wp_getReady hs.raft) hr) hw
      obtain ⟨hi, hhi, hes⟩ := hn.entries
      obtain ⟨hbase, hle, hat⟩ := Log.entryAt_of_slice hs.raft.log.contiguous (by omega) hes he
      have hceil : d.raw.ceiling ≤ d.raw.raft.raftLog.committed := min_le_left _ _
      refine ⟨?_, ?_, ?_⟩
      · rw [hn.log]
        exact hbase
      · rw [hn.committed]
        omega
      · rw [hn.log]
        exact hat
  | advanceAppend rd l raw hp hr =>
      have hb := hs.batch rd hp
      obtain ⟨n1, n2, n3, h1, h2, h3, prev, rfl⟩ := (Act.wp_ok (RawNode.wp_advanceAppend hs.raft
        hb.written hb.snapshot_term hb.record) hr).result
      have hcont : n2.raft.raftLog.log.Contiguous := ((hs.reported h1).persisted h2).raft.log.contiguous
      obtain ⟨u, hu⟩ := h3.raft
      obtain ⟨hi, hhi, hes⟩ := h3.entries
      obtain ⟨hbase, hle, hat⟩ := Log.entryAt_of_slice hcont (by omega) hes he
      have hceil : n2.ceiling ≤ n2.raft.raftLog.committed := min_le_left _ _
      have hlog : n3.raft.raftLog = n2.raft.raftLog := by rw [hu]
      refine ⟨?_, ?_, ?_⟩
      · show n3.raft.raftLog.log.base < _
        rw [hlog]
        exact hbase
      · show _ ≤ n3.raft.raftLog.committed
        rw [hlog]
        omega
      · show n3.raft.raftLog.log.entryAt _ = _
        rw [hlog]
        exact hat
  | _ => cases he

end Driver

/-! ### Whole runs -/

namespace Network

variable {ι : Type} [DecidableEq ι] {ids : ι → ℕ} {SameData : σ → σ → Prop} {cs : ConfState}
  {c0 c : Network ι σ} {es : List Entry}

/-- A run in which messages come from nodes and no snapshot is installed, with all that its nodes hand out
on the way. -/
inductive Hands (ids : ι → ℕ) (SameData : σ → σ → Prop) (c0 : Network ι σ) : List Entry → Network ι σ → Prop
  | refl : Hands ids SameData c0 [] c0
  | tail {es : List Entry} {c c' : Network ι σ} {ev : Event} (h : Hands ids SameData c0 es c)
      (hstep : Plain ids SameData c ev c') : Hands ids SameData c0 (es ++ ev.entries) c'

theorem Hands.steps (h : Hands ids SameData c0 es c) : PlainSteps ids SameData c0 c := by
  induction h with
  | refl => exact .refl
  | tail h hstep ih => exact ih.tail ⟨_, hstep⟩

/-- What a step hands out is committed at the node that takes it. -/
theorem Plain.committed (hinv : Inv cs ids c) {c' : Network ι σ} {ev : Event} (hstep : Plain ids SameData c ev c')
    {e : Entry} (he : e ∈ ev.entries) : ∃ i, (c'.nodes i).Committed e := by
  cases hstep with
  | act i ev d hd hcall hready =>
      refine ⟨i, ?_⟩
      dsimp only
      rw [Function.update_self]
      exact Driver.committed_of_step hd (hinv.votes i).sound he
  | restart i config prng d hid hres hd => cases he

/-- An entry was committed at some moment of a run that has got as far as `c`. -/
def Settled (ids : ι → ℕ) (SameData : σ → σ → Prop) (c0 c : Network ι σ) (e : Entry) : Prop :=
  ∃ c1 i, PlainSteps ids SameData c0 c1 ∧ PlainSteps ids SameData c1 c ∧ (c1.nodes i).Committed e

theorem Settled.step {c' : Network ι σ} {e : Entry} (h : Settled ids SameData c0 c e)
    {ev : Event} (hstep : Plain ids SameData c ev c') : Settled ids SameData c0 c' e := by
  obtain ⟨c1, i, h0, h1, hrest⟩ := h
  exact ⟨c1, i, h0, h1.tail ⟨ev, hstep⟩, hrest⟩

section runs
variable (hids : Function.Injective ids) (hsame : Driver.Faithful SameData) (hstart : Starts ids cs c0)
include hids hsame hstart

/-- What has been handed out was committed when it was. -/
theorem Hands.settled (h : Hands ids SameData c0 es c) : ∀ e ∈ es, Settled ids SameData c0 c e := by
  induction h with
  | refl => exact nofun
  | tail h hstep ih =>
      intro e he
      rcases List.mem_append.mp he with he | he
      · exact (ih e he).step hstep
      · have hinv := (inv_of_starts hstart).steps hids hsame h.steps.steps
        obtain ⟨i, hi⟩ := hstep.committed hinv he
        exact ⟨_, i, h.steps.tail ⟨_, hstep⟩, .refl, hi⟩

variable (hcs : cs.Plural) (hfresh : c0.Fresh)
include hcs hfresh

/-- An entry that was committed is the one that is committed now. -/
theorem Settled.unique {e e' : Entry} (h : Settled ids SameData c0 c e) {j : ι} (hj : (c.nodes j).Committed e')
    (hindex : e.index = e'.index) : e = e' := by
  obtain ⟨c1, i, h1, h2, hi⟩ := h
  have hle' := hj.le
  have hlt' := hj.base_lt
  have hat' := hj.entryAt
  rw [← hindex] at hle' hlt' hat'
  have hagree := committed_agree hids hsame hcs hstart hfresh h1 h2 hi.le hle' hi.base_lt hlt'
  exact Option.some.inj ((hi.entryAt.symm.trans hagree).trans hat')

/-- **What is applied is agreed on.**  Whatever is lost, repeated, delayed or reordered, and however often
nodes compact their logs, crash and are started again: all that the nodes hand out for an index in a run
is the same entry. -/
theorem applied_agree (h : Hands ids SameData c0 es c) : ∀ e ∈ es, ∀ e' ∈ es, e.index = e'.index → e = e' := by
  induction h with
  | refl => exact nofun
  | tail h hstep ih =>
      have hinv := (inv_of_starts hstart).steps hids hsame h.steps.steps
      have hall := (h.tail hstep).settled hids hsame hstart
      intro e he e' he' hindex
      rcases List.mem_append.mp he with hold | hnew
      · rcases List.mem_append.mp he' with hold' | hnew
        · exact ih e hold e' hold' hindex
        · obtain ⟨i, hi⟩ := hstep.committed hinv hnew
          exact (hall e he).unique hids hsame hstart hcs hfresh hi hindex
      · obtain ⟨i, hi⟩ := hstep.committed hinv hnew
        exact ((hall e' he').unique hids hsame hstart hcs hfresh hi hindex.symm).symm

end runs

theorem playPlain_hands (SameData : σ → σ → Prop) {as : List (Cluster.Move ι)} {r : List Entry × Network ι σ}
    (hc : Hands ids SameData c0 es c) (h : playPlain ids as c = some r) :
    Hands ids SameData c0 (es ++ r.1) r.2 := by
  induction as generalizing es c r with
  | nil =>
      cases h
      rw [List.append_nil]
      exact hc
  | cons a as ih =>
      obtain ⟨r1, h1, h2⟩ := Option.bind_eq_some_iff.mp h
      obtain ⟨r2, hplay, rfl⟩ := Option.map_eq_some_iff.mp h2
      have hrest := ih (hc.tail (execPlain_plain SameData h1)) hplay
      rw [List.append_assoc] at hrest
      exact hrest

/-- The entry of node 1 is committed, and nodes 1 and 2 apply it. -/
def applies : List (Cluster.Move (Fin 3)) :=
  commits ++ [.own 0 .ready, .own 0 .advanceAppend, .deliver 1 6, .own 1 .ready]

/-- Two nodes hand out the first entry. -/
theorem applied_agree_three : ∃ (c0 c : Network (Fin 3) MemoryStorage) (a b : Entry),
    Starts Cluster.threeIds threeVoters c0 ∧ Hands Cluster.threeIds Eq c0 [a, b] c ∧ a.index = 1 ∧ a = b := by
  have hrun : (three.bind fun c0 => (playPlain Cluster.threeIds applies c0).map fun r =>
      r.1.map Entry.index) = some [1, 1] := by
    decide +kernel
  obtain ⟨c0, hc0, hrun⟩ := Option.bind_eq_some_iff.mp hrun
  obtain ⟨⟨es, c⟩, hc, hes⟩ := Option.map_eq_some_iff.mp hrun
  obtain ⟨a, b, rfl⟩ := List.length_eq_two.mp ((List.length_map _).symm.trans (congrArg List.length hes))
  have hindex : [a.index, b.index] = [1, 1] := hes
  simp only [List.cons.injEq, and_true] at hindex
  obtain ⟨ha, hb⟩ := hindex
  have hids : Function.Injective Cluster.threeIds := fun a b hab => Fin.ext (Nat.succ.inj hab)
  have hhands : Hands Cluster.threeIds Eq c0 [a, b] c := playPlain_hands Eq .refl hc
  exact ⟨c0, c, a, b, starts_three hc0, hhands, ha, applied_agree hids Driver.faithful_eq (starts_three hc0)
    plural_three (fresh_three hc0) hhands a (by simp) b (by simp) (ha.trans hb.symm)⟩

end Network

end Raftz
