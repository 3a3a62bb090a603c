import Raftz.ConfSets
import Raftz.Membership

/-! # What a derivation of a membership does

`deriveClusterMembership` walks over sorted ids, changes and endpoints and may stop
at each.  A membership is valid for a configuration when it has the properties of
`ValidFor`; a derivation succeeds exactly under the conditions of `Derivable`, and
then the final validation cannot fail.  Along a chain of derivations the retired
ids only grow, and none becomes a member again (`Derives`).

A change that names node 0 is passed over, and an address that comes without the
magic belongs to the one addition of the change, however often others name its node. -/

open Base

namespace Raftz

namespace ClusterMembership

variable {current m : ClusterMembership} {previous new cs : ConfState} {cc : ConfChangeV2}
  {endpoints : List PeerEndpoint}

/-! ### Validation -/

theorem validateEndpoints_eq_ok {q : Option ℕ} {ps : List PeerEndpoint} :
    validateEndpoints q ps = .ok () ↔ (∀ p ∈ ps, p.nodeId ≠ 0 ∧ p.address ≠ []) ∧
      (q.toList ++ ps.map PeerEndpoint.nodeId).IsChain (· < ·) := by
  induction ps generalizing q with
  | nil => cases q <;> simp [validateEndpoints]
  | cons p ps ih =>
      have hstep : validateEndpoints q (p :: ps) = .ok () ↔ p.nodeId ≠ 0 ∧ p.address ≠ [] ∧
          (∀ i ∈ q, i < p.nodeId) ∧ validateEndpoints (some p.nodeId) ps = .ok () := by
        constructor
        · intro h
          obtain ⟨_, h0, h⟩ := bind_eq_ok.mp h
          obtain ⟨_, ha, h⟩ := bind_eq_ok.mp h
          obtain ⟨_, -, h⟩ := bind_eq_ok.mp h
          obtain ⟨_, hq, h⟩ := bind_eq_ok.mp h
          exact ⟨ensure_eq_ok.mp h0, ensure_eq_ok.mp ha, ensure_eq_ok.mp hq, h⟩
        · rintro ⟨h0, ha, hq, h⟩
          have hne : q ≠ some p.nodeId := fun hs => lt_irrefl _ (hq p.nodeId hs)
          refine bind_eq_ok.mpr ⟨(), ensure_of h0, bind_eq_ok.mpr ⟨(), ensure_of ha, ?_⟩⟩
          exact bind_eq_ok.mpr ⟨(), ensure_of hne, bind_eq_ok.mpr ⟨(), ensure_of hq, h⟩⟩
      rw [hstep, ih]
      cases q with
      | none => simp [and_assoc]
      | some i =>
          simp only [Option.mem_some, forall_eq', Option.toList_some, List.singleton_append, List.map_cons,
            List.isChain_cons_cons, List.mem_cons, forall_eq_or_imp]
          tauto

theorem validateRetired_eq_ok {q : Option ℕ} {is : List ℕ} :
    validateRetired q is = .ok () ↔ (∀ i ∈ is, i ≠ 0) ∧ (q.toList ++ is).IsChain (· < ·) := by
  induction is generalizing q with
  | nil => cases q <;> simp [validateRetired]
  | cons i is ih =>
      have hstep : validateRetired q (i :: is) = .ok () ↔ i ≠ 0 ∧ (∀ j ∈ q, j < i) ∧
          validateRetired (some i) is = .ok () := by
        constructor
        · intro h
          obtain ⟨_, h0, h⟩ := bind_eq_ok.mp h
          obtain ⟨_, -, h⟩ := bind_eq_ok.mp h
          obtain ⟨_, hq, h⟩ := bind_eq_ok.mp h
          exact ⟨ensure_eq_ok.mp h0, ensure_eq_ok.mp hq, h⟩
        · rintro ⟨h0, hq, h⟩
          have hne : q ≠ some i := fun hs => lt_irrefl _ (hq i hs)
          refine bind_eq_ok.mpr ⟨(), ensure_of h0, bind_eq_ok.mpr ⟨(), ensure_of hne, ?_⟩⟩
          exact bind_eq_ok.mpr ⟨(), ensure_of hq, h⟩
      rw [hstep, ih]
      cases q with
      | none => simp [and_assoc]
      | some j =>
          simp only [Option.mem_some, forall_eq', Option.toList_some, List.singleton_append,
            List.isChain_cons_cons, List.mem_cons, forall_eq_or_imp]
          tauto

/-- The walk over two sorted lists finds a common id. -/
theorem overlaps_eq_false {as rs : List ℕ} (ha : as.Pairwise (· < ·)) (hr : rs.Pairwise (· < ·)) :
    overlaps as rs = false ↔ ∀ i ∈ as, i ∉ rs := by
  fun_induction overlaps as rs with
  | case1 => simp
  | case2 => simp
  | case3 a as r rs h ih =>
      rw [ih ha.of_cons hr]
      have ha' : a ∉ r :: rs := by
        rw [List.mem_cons, not_or]
        refine ⟨by omega, fun hmem => ?_⟩
        have hlt := List.rel_of_pairwise_cons hr hmem
        omega
      rw [List.forall_mem_cons]
      exact ⟨fun hall => ⟨ha', hall⟩, And.right⟩
  | case4 a as r rs h h' ih =>
      rw [ih ha hr.of_cons]
      have hr' : ∀ i ∈ a :: as, i ≠ r := by
        intro i hi
        rcases List.mem_cons.mp hi with rfl | hi
        · omega
        · have hlt := List.rel_of_pairwise_cons ha hi
          omega
      constructor
      · intro hall i hi hmem
        rcases List.mem_cons.mp hmem with rfl | hmem
        · exact hr' i hi rfl
        · exact hall i hi hmem
      · intro hall i hi hmem
        exact hall i hi (List.mem_cons_of_mem _ hmem)
  | case5 a as r rs h h' =>
      have heq : a = r := by omega
      subst heq
      simp

theorem checkMembers_eq_ok {ids : List ℕ} :
    m.checkMembers ids = .ok () ↔ ∀ i ∈ ids, i ≠ 0 ∧ i ∈ m.peers.map PeerEndpoint.nodeId := by
  induction ids with
  | nil => simp [checkMembers]
  | cons i ids ih =>
      rw [List.forall_mem_cons, ← ih]
      constructor
      · intro h
        obtain ⟨_, h0, h⟩ := bind_eq_ok.mp h
        obtain ⟨_, hi, h⟩ := bind_eq_ok.mp h
        exact ⟨⟨ensure_eq_ok.mp h0, ensure_eq_ok.mp hi⟩, h⟩
      · rintro ⟨⟨h0, hi⟩, h⟩
        exact bind_eq_ok.mpr ⟨(), ensure_of h0, bind_eq_ok.mpr ⟨(), ensure_of hi, h⟩⟩

/-- The record belongs to a configuration. -/
structure ValidFor (m : ClusterMembership) (cs : ConfState) : Prop where
  clusterId : m.clusterId.val ≠ List.replicate 16 0
  addresses : ∀ p ∈ m.peers, p.address ≠ []
  sorted : (m.peers.map PeerEndpoint.nodeId).Pairwise (· < ·)
  retired : m.retiredNodeIds.Pairwise (· < ·)
  nonzero : ∀ i ∈ m.retiredNodeIds, i ≠ 0
  peers : ∀ id, id ∈ m.peers.map PeerEndpoint.nodeId ↔ id ∈ members cs
  active : ∀ id ∈ members cs, id ≠ 0 ∧ id ∉ m.retiredNodeIds

theorem validateStructure_eq_ok : m.validateStructure = .ok () ↔
    m.clusterId.val ≠ List.replicate 16 0 ∧ (∀ p ∈ m.peers, p.nodeId ≠ 0 ∧ p.address ≠ []) ∧
      (m.peers.map PeerEndpoint.nodeId).Pairwise (· < ·) ∧ (∀ i ∈ m.retiredNodeIds, i ≠ 0) ∧
      m.retiredNodeIds.Pairwise (· < ·) ∧ ∀ p ∈ m.peers, p.nodeId ∉ m.retiredNodeIds := by
  constructor
  · intro h
    obtain ⟨_, hid, h⟩ := bind_eq_ok.mp h
    obtain ⟨_, hpeers, h⟩ := bind_eq_ok.mp h
    obtain ⟨_, hret, h⟩ := bind_eq_ok.mp h
    obtain ⟨hp, hsorted⟩ := validateEndpoints_eq_ok.mp hpeers
    obtain ⟨h0, hr⟩ := validateRetired_eq_ok.mp hret
    have hsorted := List.isChain_iff_pairwise.mp hsorted
    have hr := List.isChain_iff_pairwise.mp hr
    have hapart := (overlaps_eq_false hsorted hr).mp (ensure_eq_ok.mp h)
    refine ⟨ensure_eq_ok.mp hid, hp, hsorted, h0, hr, fun p hpm => hapart _ (List.mem_map_of_mem hpm)⟩
  · rintro ⟨hid, hp, hsorted, h0, hr, hapart⟩
    refine bind_eq_ok.mpr ⟨(), ensure_of hid, ?_⟩
    refine bind_eq_ok.mpr ⟨(), validateEndpoints_eq_ok.mpr ⟨hp, List.isChain_iff_pairwise.mpr hsorted⟩, ?_⟩
    refine bind_eq_ok.mpr ⟨(), validateRetired_eq_ok.mpr ⟨h0, List.isChain_iff_pairwise.mpr hr⟩, ?_⟩
    refine ensure_of ((overlaps_eq_false hsorted hr).mpr fun i hi => ?_)
    obtain ⟨p, hpm, rfl⟩ := List.mem_map.mp hi
    exact hapart p hpm

theorem validate_eq_ok : m.validate cs = .ok () ↔ m.ValidFor cs := by
  constructor
  · intro h
    obtain ⟨_, hstruct, h⟩ := bind_eq_ok.mp h
    obtain ⟨_, hpeers, hmembers⟩ := bind_eq_ok.mp h
    obtain ⟨hid, hp, hsorted, h0, hr, hapart⟩ := validateStructure_eq_ok.mp hstruct
    have hpeers := ensure_eq_ok.mp hpeers
    have hmembers := checkMembers_eq_ok.mp hmembers
    refine ⟨hid, fun p hpm => (hp p hpm).2, hsorted, hr, h0, fun id => ⟨fun hmem => ?_, fun hmem => ?_⟩,
      fun id hmem => ⟨(hmembers id hmem).1, ?_⟩⟩
    · obtain ⟨p, hpm, rfl⟩ := List.mem_map.mp hmem
      exact hpeers p hpm
    · exact (hmembers id hmem).2
    · obtain ⟨p, hpm, rfl⟩ := List.mem_map.mp (hmembers id hmem).2
      exact hapart p hpm
  · intro h
    have hmem : ∀ p ∈ m.peers, p.nodeId ∈ members cs := fun p hp =>
      (h.peers p.nodeId).mp (List.mem_map_of_mem hp)
    have hstruct : m.validateStructure = .ok () := validateStructure_eq_ok.mpr
      ⟨h.clusterId, fun p hp => ⟨(h.active _ (hmem p hp)).1, h.addresses p hp⟩, h.sorted, h.nonzero,
        h.retired, fun p hp => (h.active _ (hmem p hp)).2⟩
    refine bind_eq_ok.mpr ⟨(), hstruct, bind_eq_ok.mpr ⟨(), ensure_of hmem, ?_⟩⟩
    exact checkMembers_eq_ok.mpr fun id hid => ⟨(h.active id hid).1, (h.peers id).mpr hid⟩

/-! ### The checks of a derivation -/

theorem checkActive_eq_ok {retired ids : List ℕ} :
    checkActive retired ids = .ok () ↔ ∀ i ∈ ids, i ≠ 0 ∧ i ∉ retired := by
  induction ids with
  | nil => simp [checkActive]
  | cons i ids ih =>
      rw [List.forall_mem_cons, ← ih]
      constructor
      · intro h
        obtain ⟨_, h0, h⟩ := bind_eq_ok.mp h
        obtain ⟨_, hi, h⟩ := bind_eq_ok.mp h
        exact ⟨⟨ensure_eq_ok.mp h0, ensure_eq_ok.mp hi⟩, h⟩
      · rintro ⟨⟨h0, hi⟩, h⟩
        exact bind_eq_ok.mpr ⟨(), ensure_of h0, bind_eq_ok.mpr ⟨(), ensure_of hi, h⟩⟩

theorem checkRetired_eq_ok {retired : List ℕ} {changes : List ConfChangeSingle} :
    checkRetired retired changes = .ok () ↔
      ∀ c ∈ changes, c.nodeId = 0 ∨ c.changeType = .removeNode ∨ c.nodeId ∉ retired := by
  induction changes with
  | nil => simp [checkRetired]
  | cons c changes ih =>
      rw [List.forall_mem_cons, ← ih]
      constructor
      · intro h
        obtain ⟨_, hc, h⟩ := bind_eq_ok.mp h
        exact ⟨ensure_eq_ok.mp hc, h⟩
      · rintro ⟨hc, h⟩
        exact bind_eq_ok.mpr ⟨(), ensure_of hc, h⟩

theorem checkJoining_eq_ok {previousIds ids : List ℕ} :
    checkJoining previousIds endpoints ids = .ok () ↔
      ∀ i ∈ ids, i ∈ previousIds ∨ addressIn endpoints i ≠ none := by
  induction ids with
  | nil => simp [checkJoining]
  | cons i ids ih =>
      rw [List.forall_mem_cons, ← ih]
      constructor
      · intro h
        obtain ⟨_, hi, h⟩ := bind_eq_ok.mp h
        exact ⟨ensure_eq_ok.mp hi, h⟩
      · rintro ⟨hi, h⟩
        exact bind_eq_ok.mpr ⟨(), ensure_of hi, h⟩

theorem checkExpected_eq_ok {previousIds newIds : List ℕ} :
    checkExpected cc previousIds newIds endpoints = .ok () ↔ ∀ p ∈ endpoints,
      (p.nodeId ∉ previousIds ∧ p.nodeId ∈ newIds) ∨
        (countChanges cc .updateNode p.nodeId = 1 ∧ p.nodeId ∈ previousIds ∧ p.nodeId ∈ newIds) := by
  induction endpoints with
  | nil => simp [checkExpected]
  | cons p ps ih =>
      rw [List.forall_mem_cons, ← ih]
      constructor
      · intro h
        obtain ⟨_, hp, h⟩ := bind_eq_ok.mp h
        exact ⟨ensure_eq_ok.mp hp, h⟩
      · rintro ⟨hp, h⟩
        exact bind_eq_ok.mpr ⟨(), ensure_of hp, h⟩

/-- The change is an update of a node. -/
def updates (c : ConfChangeSingle) : Bool := c.changeType == .updateNode && c.nodeId != 0

/-- The nodes that changes update. -/
def updatedIds (changes : List ConfChangeSingle) : List ℕ :=
  (changes.filter updates).map ConfChangeSingle.nodeId

theorem updates_iff {c : ConfChangeSingle} : updates c = true ↔ c.changeType = .updateNode ∧ c.nodeId ≠ 0 := by
  simp [updates]

theorem mem_updatedIds {changes : List ConfChangeSingle} {id : ℕ} :
    id ∈ updatedIds changes ↔ ∃ c ∈ changes, c.changeType = .updateNode ∧ c.nodeId ≠ 0 ∧ c.nodeId = id := by
  simp [updatedIds, updates_iff, and_assoc]

/-- An update of the first change, if it is one, and the updates of the others. -/
theorem updatedIds_cons {c : ConfChangeSingle} {changes : List ConfChangeSingle} :
    updatedIds (c :: changes) = (if updates c then [c.nodeId] else []) ++ updatedIds changes := by
  unfold updatedIds
  rw [List.filter_cons]
  split_ifs <;> rfl

theorem checkUpdates_eq_ok {previousIds newIds : List ℕ} {before changes : List ConfChangeSingle} :
    checkUpdates previousIds newIds endpoints before changes = .ok () ↔
      (updatedIds changes).Nodup ∧ (∀ id ∈ updatedIds changes, id ∉ updatedIds before) ∧
      ∀ id ∈ updatedIds changes, (id ∈ previousIds ∧ id ∈ newIds) ∧ addressIn endpoints id ≠ none := by
  induction changes generalizing before with
  | nil => simp [checkUpdates, updatedIds]
  | cons c changes ih =>
      have hbefore : ∀ id, id ∈ updatedIds (before ++ [c]) ↔ id ∈ updatedIds before ∨ updates c = true ∧ id = c.nodeId := by
        intro id
        have happ : updatedIds (before ++ [c]) = updatedIds before ++ updatedIds [c] := by
          simp [updatedIds]
        rw [happ, List.mem_append, updatedIds_cons]
        by_cases hu : updates c = true <;> simp [hu, updatedIds]
      by_cases hu : updates c = true
      · have hup := updates_iff.mp hu
        have hstep : checkUpdates previousIds newIds endpoints before (c :: changes) = .ok () ↔
            c.nodeId ∉ updatedIds before ∧ (c.nodeId ∈ previousIds ∧ c.nodeId ∈ newIds) ∧
              addressIn endpoints c.nodeId ≠ none ∧
              checkUpdates previousIds newIds endpoints (before ++ [c]) changes = .ok () := by
          have hseen : (∀ b ∈ before, ¬ (b.changeType = .updateNode ∧ b.nodeId = c.nodeId)) ↔
              c.nodeId ∉ updatedIds before := by
            rw [mem_updatedIds]
            constructor
            · rintro hall ⟨b, hb, ht, -, hn⟩
              exact hall b hb ⟨ht, hn⟩
            · rintro hnot b hb ⟨ht, hn⟩
              exact hnot ⟨b, hb, ht, hn ▸ hup.2, hn⟩
          rw [checkUpdates, if_pos hup]
          constructor
          · intro h
            obtain ⟨_, h1, h⟩ := bind_eq_ok.mp h
            obtain ⟨_, h2, h⟩ := bind_eq_ok.mp h
            obtain ⟨_, h3, h⟩ := bind_eq_ok.mp h
            exact ⟨hseen.mp (ensure_eq_ok.mp h1), ensure_eq_ok.mp h2, ensure_eq_ok.mp h3, h⟩
          · rintro ⟨h1, h2, h3, h⟩
            refine bind_eq_ok.mpr ⟨(), ensure_of (hseen.mpr h1), bind_eq_ok.mpr ⟨(), ensure_of h2, ?_⟩⟩
            exact bind_eq_ok.mpr ⟨(), ensure_of h3, h⟩
        rw [hstep, ih, updatedIds_cons, if_pos hu]
        simp only [hbefore, hu, true_and, not_or, List.singleton_append, List.nodup_cons, List.forall_mem_cons]
        constructor
        · rintro ⟨h1, h2, h3, hnodup, hapart, hall⟩
          refine ⟨⟨fun hmem => (hapart _ hmem).2 rfl, hnodup⟩, ⟨h1, fun id hid => (hapart id hid).1⟩, ⟨h2, h3⟩, hall⟩
        · rintro ⟨⟨hnot, hnodup⟩, ⟨h1, hapart⟩, ⟨h2, h3⟩, hall⟩
          refine ⟨h1, h2, h3, hnodup, fun id hid => ⟨hapart id hid, ?_⟩, hall⟩
          rintro rfl
          exact hnot hid
      · have hup : ¬ (c.changeType = .updateNode ∧ c.nodeId ≠ 0) := fun hc => hu (updates_iff.mpr hc)
        have hstep : checkUpdates previousIds newIds endpoints before (c :: changes) =
            checkUpdates previousIds newIds endpoints (before ++ [c]) changes := by
          rw [checkUpdates, if_neg hup]
        rw [hstep, ih, updatedIds_cons, if_neg hu]
        simp only [hbefore, hu, Bool.false_eq_true, false_and, or_false, List.nil_append]

/-- Without repetitions, the nodes counted once are those updated. -/
theorem countChanges_eq_one {id : ℕ} (hnodup : (updatedIds cc.changes).Nodup) (h0 : id ≠ 0) :
    countChanges cc .updateNode id = 1 ↔ id ∈ updatedIds cc.changes := by
  have hcount : countChanges cc .updateNode id = (updatedIds cc.changes).count id := by
    unfold countChanges updatedIds List.count
    rw [List.countP_map, List.countP_filter]
    refine List.countP_congr fun c _ => ?_
    simp only [updates, Bool.and_eq_true, beq_iff_eq, Function.comp_apply, bne_iff_ne]
    constructor
    · rintro ⟨ht, rfl⟩
      exact ⟨rfl, ht, h0⟩
    · rintro ⟨rfl, ht, -⟩
      exact ⟨ht, rfl⟩
  rw [hcount]
  constructor
  · intro h
    exact List.count_pos_iff.mp (by omega)
  · intro h
    exact List.count_eq_one_of_mem hnodup h

theorem addressIn_ne_none {id : ℕ} : addressIn endpoints id ≠ none ↔ id ∈ endpoints.map PeerEndpoint.nodeId := by
  unfold addressIn
  rw [Ne, Option.map_eq_none_iff, List.find?_eq_none]
  simp

/-! ### The exact condition -/

/-- The endpoints that a change brings. -/
inductive Supplied (cc : ConfChangeV2) : List PeerEndpoint → Prop
  | none (h : cc.context = []) : Supplied cc []
  | context {endpoints : List PeerEndpoint} (hp : contextMagic.isPrefixOf cc.context = true)
      (h : decodeMembershipContext cc.context = .ok endpoints) : Supplied cc endpoints
  | legacy {c : ConfChangeSingle} (hp : contextMagic.isPrefixOf cc.context = false) (h : cc.context ≠ [])
      (hc : (cc.changes.filter fun c => c.changeType == .addNode || c.changeType == .addLearnerNode) = [c])
      (h0 : c.nodeId ≠ 0) : Supplied cc [⟨c.nodeId, cc.context⟩]

theorem contextEndpoints_eq_ok : contextEndpoints cc = .ok endpoints ↔ Supplied cc endpoints := by
  constructor
  · intro h
    unfold contextEndpoints at h
    split at h
    · rename_i hp
      split at h
      · rename_i ps hdec
        cases h
        exact .context hp hdec
      · cases h
      · cases h
    · rename_i hp
      split at h
      · rename_i hnil
        cases h
        exact .none hnil
      · rename_i hnil
        split at h
        · rename_i c hc
          split at h
          · cases h
          · rename_i h0
            cases h
            exact .legacy (Bool.eq_false_iff.mpr hp) hnil hc h0
        · cases h
  · intro h
    unfold contextEndpoints
    cases h with
    | none h =>
        have hp : contextMagic.isPrefixOf cc.context = false := by
          rw [h]
          rfl
        rw [if_neg (by simp [hp]), if_pos h]
    | context hp h =>
        rw [if_pos hp, h]
    | legacy hp h hc h0 =>
        rw [if_neg (by simp [hp]), if_neg h, hc]
        dsimp only
        rw [if_neg h0]

/-- Supplied endpoints have addresses. -/
theorem Supplied.addresses (h : Supplied cc endpoints) : ∀ p ∈ endpoints, p.address ≠ [] := by
  cases h with
  | none h => simp
  | context hp h =>
      obtain ⟨_, -, h⟩ := bind_eq_ok.mp h
      obtain ⟨_, -, h⟩ := bind_eq_ok.mp h
      obtain ⟨_, -, h⟩ := bind_eq_ok.mp h
      obtain ⟨_, -, h⟩ := bind_eq_ok.mp h
      obtain ⟨_, -, h⟩ := bind_eq_ok.mp h
      obtain ⟨_, -, h⟩ := bind_eq_ok.mp h
      obtain ⟨_, -, h⟩ := bind_eq_ok.mp h
      obtain ⟨_, -, h⟩ := bind_eq_ok.mp h
      obtain ⟨_, hvalid, h⟩ := bind_eq_ok.mp h
      cases h
      exact fun p hp => ((validateEndpoints_eq_ok.mp hvalid).1 p hp).2
  | legacy hp h hc h0 => simpa using h

/-- When a change can be derived from, with the endpoints it brings. -/
structure Derivable (current : ClusterMembership) (previous new : ConfState) (cc : ConfChangeV2)
    (endpoints : List PeerEndpoint) : Prop where
  active : ∀ id ∈ members new, id ≠ 0 ∧ id ∉ current.retiredNodeIds
  revived : ∀ c ∈ cc.changes, c.changeType ≠ .removeNode → c.nodeId ∉ current.retiredNodeIds
  supplied : Supplied cc endpoints
  once : (updatedIds cc.changes).Nodup
  kept : ∀ id ∈ updatedIds cc.changes, id ∈ members previous ∧ id ∈ members new
  exactly : ∀ id, id ∈ endpoints.map PeerEndpoint.nodeId ↔
    (id ∉ members previous ∧ id ∈ members new) ∨ id ∈ updatedIds cc.changes

/-- What is derived: the record of the new configuration, with the addresses of the members that
stay; the others that were there are retired. -/
structure Derived (current : ClusterMembership) (previous new : ConfState) (cc : ConfChangeV2)
    (endpoints : List PeerEndpoint) (m : ClusterMembership) : Prop where
  clusterId : m.clusterId = current.clusterId
  valid : m.ValidFor new
  supplied : ∀ p ∈ m.peers, p.nodeId ∈ endpoints.map PeerEndpoint.nodeId →
    addressIn endpoints p.nodeId = some p.address
  others : ∀ p ∈ m.peers, p.nodeId ∉ endpoints.map PeerEndpoint.nodeId →
    addressIn current.peers p.nodeId = some p.address
  retired : ∀ id, id ∈ m.retiredNodeIds ↔
    id ∈ current.retiredNodeIds ∨ (id ∈ members previous ∧ id ∉ members new)

/-- The record that is built after the checks. -/
def derivedRecord (current : ClusterMembership) (previous new : ConfState) (cc : ConfChangeV2)
    (endpoints : List PeerEndpoint) : ClusterMembership where
  clusterId := current.clusterId
  peers := (collectEffectiveMemberIds new).map fun id => ⟨id, addressAfter current cc endpoints id⟩
  retiredNodeIds := (current.retiredNodeIds ++ (collectEffectiveMemberIds previous).filter
    (· ∉ collectEffectiveMemberIds new)).insertionSort (· ≤ ·)

theorem pairwise_collectEffectiveMemberIds : (collectEffectiveMemberIds cs).Pairwise (· < ·) := by
  have hle : (collectEffectiveMemberIds cs).Pairwise (· ≤ ·) :=
    (List.pairwise_insertionSort (· ≤ ·) (members cs)).sublist (List.dedup_sublist _)
  exact (hle.and (List.nodup_dedup _)).imp fun ⟨h, hne⟩ => lt_of_le_of_ne h hne

/-- A member of the new configuration has an address, and which. -/
theorem Derivable.address (h : Derivable current previous new cc endpoints) (hv : current.ValidFor previous)
    {id : ℕ} (hid : id ∈ members new) :
    (id ∈ endpoints.map PeerEndpoint.nodeId →
      addressIn endpoints id = some (addressAfter current cc endpoints id)) ∧
    (id ∉ endpoints.map PeerEndpoint.nodeId →
      addressIn current.peers id = some (addressAfter current cc endpoints id)) := by
  have hcount := countChanges_eq_one h.once (h.active id hid).1
  unfold addressAfter
  constructor
  · intro hmem
    obtain ⟨a, ha⟩ := Option.ne_none_iff_exists'.mp (addressIn_ne_none.mpr hmem)
    by_cases hup : id ∈ updatedIds cc.changes
    · rw [if_pos (hcount.mpr hup), ha]
      rfl
    · have hnew := ((h.exactly id).mp hmem).resolve_right hup
      have hnone : addressIn current.peers id = none := by
        by_contra hne
        exact hnew.1 ((hv.peers id).mp (addressIn_ne_none.mp hne))
      rw [if_neg fun hc => hup (hcount.mp hc), hnone, ha]
      rfl
  · intro hmem
    have hnot := fun hor => hmem ((h.exactly id).mpr hor)
    have hprev : id ∈ members previous := by
      by_contra hp
      exact hnot (.inl ⟨hp, hid⟩)
    obtain ⟨a, ha⟩ := Option.ne_none_iff_exists'.mp (addressIn_ne_none.mpr ((hv.peers id).mpr hprev))
    rw [if_neg fun hc => hnot (.inr (hcount.mp hc)), ha]
    rfl

theorem addressIn_mem {id : ℕ} {a : Bytes} (h : addressIn endpoints id = some a) :
    ⟨id, a⟩ ∈ endpoints := by
  obtain ⟨p, hp, rfl⟩ := Option.map_eq_some_iff.mp h
  have hid : p.nodeId = id := by simpa using List.find?_some hp
  rw [← hid]
  exact List.mem_of_find?_eq_some hp

/-- What is built after the checks is valid. -/
theorem Derivable.derived (h : Derivable current previous new cc endpoints)
    (hv : current.ValidFor previous) :
    Derived current previous new cc endpoints (derivedRecord current previous new cc endpoints) := by
  have hids : (derivedRecord current previous new cc endpoints).peers.map PeerEndpoint.nodeId =
      collectEffectiveMemberIds new := by
    simp [derivedRecord, Function.comp_def]
  have hret : ∀ id, id ∈ (derivedRecord current previous new cc endpoints).retiredNodeIds ↔
      id ∈ current.retiredNodeIds ∨ (id ∈ members previous ∧ id ∉ members new) := by
    intro id
    simp [derivedRecord, mem_collectEffectiveMemberIds]
  have hpeer : ∀ p ∈ (derivedRecord current previous new cc endpoints).peers, p.nodeId ∈ members new ∧
      p.address = addressAfter current cc endpoints p.nodeId := by
    intro p hp
    obtain ⟨id, hid, rfl⟩ := List.mem_map.mp hp
    exact ⟨mem_collectEffectiveMemberIds.mp hid, rfl⟩
  have hsorted : (derivedRecord current previous new cc endpoints).retiredNodeIds.Pairwise (· < ·) := by
    have hnodup : (current.retiredNodeIds ++ (collectEffectiveMemberIds previous).filter
        (· ∉ collectEffectiveMemberIds new)).Nodup := by
      refine List.Nodup.append (hv.retired.imp fun h => h.ne)
        ((pairwise_collectEffectiveMemberIds.imp fun h => h.ne).filter _) fun id hid hid' => ?_
      have hprev := mem_collectEffectiveMemberIds.mp (List.mem_filter.mp hid').1
      exact (hv.active id hprev).2 hid
    have hperm := (List.perm_insertionSort (· ≤ ·) (current.retiredNodeIds ++
      (collectEffectiveMemberIds previous).filter (· ∉ collectEffectiveMemberIds new)))
    have hle := List.pairwise_insertionSort (· ≤ ·) (current.retiredNodeIds ++
      (collectEffectiveMemberIds previous).filter (· ∉ collectEffectiveMemberIds new))
    exact (hle.and (hperm.nodup_iff.mpr hnodup)).imp fun ⟨h, hne⟩ => lt_of_le_of_ne h hne
  refine ⟨rfl, ⟨hv.clusterId, ?_, ?_, hsorted, ?_, ?_, ?_⟩, ?_, ?_, hret⟩
  · intro p hp
    obtain ⟨hnew, haddr⟩ := hpeer p hp
    obtain ⟨hin, hout⟩ := h.address hv hnew
    rw [haddr]
    by_cases hmem : p.nodeId ∈ endpoints.map PeerEndpoint.nodeId
    · exact h.supplied.addresses _ (addressIn_mem (hin hmem))
    · exact hv.addresses _ (addressIn_mem (hout hmem))
  · rw [hids]
    exact pairwise_collectEffectiveMemberIds
  · intro id hid
    rcases (hret id).mp hid with hold | ⟨hprev, -⟩
    · exact hv.nonzero id hold
    · exact (hv.active id hprev).1
  · intro id
    rw [hids, mem_collectEffectiveMemberIds]
  · intro id hid
    refine ⟨(h.active id hid).1, fun hmem => ?_⟩
    rcases (hret id).mp hmem with hold | ⟨-, hnew⟩
    · exact (h.active id hid).2 hold
    · exact hnew hid
  · intro p hp hmem
    obtain ⟨hnew, haddr⟩ := hpeer p hp
    rw [haddr]
    exact (h.address hv hnew).1 hmem
  · intro p hp hmem
    obtain ⟨hnew, haddr⟩ := hpeer p hp
    rw [haddr]
    exact (h.address hv hnew).2 hmem

/-- A derivation succeeds under the conditions of `Derivable`, and then with one record. -/
theorem derive_eq_ok (hv : current.validate previous = .ok ()) :
    current.deriveClusterMembership previous new cc = .ok m ↔
      ∃ endpoints, Derivable current previous new cc endpoints ∧
        m = derivedRecord current previous new cc endpoints := by
  have hvalid := validate_eq_ok.mp hv
  have hok : (current.validate previous).isOk = true := by
    rw [hv]
    rfl
  constructor
  · intro h
    obtain ⟨_, -, h⟩ := bind_eq_ok.mp h
    obtain ⟨_, hactive, h⟩ := bind_eq_ok.mp h
    obtain ⟨_, hrevived, h⟩ := bind_eq_ok.mp h
    obtain ⟨endpoints, hcontext, h⟩ := bind_eq_ok.mp h
    obtain ⟨_, hupdates, h⟩ := bind_eq_ok.mp h
    obtain ⟨_, hjoining, h⟩ := bind_eq_ok.mp h
    obtain ⟨_, hexpected, h⟩ := bind_eq_ok.mp h
    obtain ⟨_, -, h⟩ := bind_eq_ok.mp h
    cases h
    have hactive := checkActive_eq_ok.mp hactive
    have hrevived := checkRetired_eq_ok.mp hrevived
    have hsupplied := contextEndpoints_eq_ok.mp hcontext
    obtain ⟨honce, -, hkept⟩ := checkUpdates_eq_ok.mp hupdates
    have hjoining := checkJoining_eq_ok.mp hjoining
    have hexpected := checkExpected_eq_ok.mp hexpected
    simp only [mem_collectEffectiveMemberIds, addressIn_ne_none] at hactive hkept hjoining hexpected
    refine ⟨endpoints, ⟨hactive, ?_, hsupplied, honce, fun id hid => (hkept id hid).1, ?_⟩, rfl⟩
    · intro c hc hremove hret
      rcases hrevived c hc with h0 | h0 | h0
      · exact hvalid.nonzero _ hret h0
      · exact hremove h0
      · exact h0 hret
    · intro id
      constructor
      · intro hmem
        obtain ⟨p, hp, rfl⟩ := List.mem_map.mp hmem
        rcases hexpected p hp with hnew | ⟨hcount, -, hnew⟩
        · exact .inl hnew
        · exact .inr ((countChanges_eq_one honce (hactive _ hnew).1).mp hcount)
      · rintro (⟨hprev, hnew⟩ | hup)
        · exact (hjoining id hnew).resolve_left hprev
        · exact (hkept id hup).2
  · rintro ⟨endpoints, hd, rfl⟩
    have hresult := validate_eq_ok.mpr (hd.derived hvalid).valid
    have hrevived : ∀ c ∈ cc.changes, c.nodeId = 0 ∨ c.changeType = .removeNode ∨
        c.nodeId ∉ current.retiredNodeIds := by
      intro c hc
      by_cases hremove : c.changeType = .removeNode
      · exact .inr (.inl hremove)
      · exact .inr (.inr (hd.revived c hc hremove))
    have hupdates : checkUpdates (collectEffectiveMemberIds previous) (collectEffectiveMemberIds new)
        endpoints [] cc.changes = .ok () := checkUpdates_eq_ok.mpr ⟨hd.once, fun _ _ => List.not_mem_nil, fun id hid => by
        rw [mem_collectEffectiveMemberIds, mem_collectEffectiveMemberIds, addressIn_ne_none]
        exact ⟨hd.kept id hid, (hd.exactly id).mpr (.inr hid)⟩⟩
    refine bind_eq_ok.mpr ⟨(), ensure_of hok, ?_⟩
    refine bind_eq_ok.mpr ⟨(), checkActive_eq_ok.mpr fun id hid => ?_, ?_⟩
    · exact hd.active id (mem_collectEffectiveMemberIds.mp hid)
    refine bind_eq_ok.mpr ⟨(), checkRetired_eq_ok.mpr hrevived, ?_⟩
    refine bind_eq_ok.mpr ⟨endpoints, contextEndpoints_eq_ok.mpr hd.supplied, ?_⟩
    refine bind_eq_ok.mpr ⟨(), hupdates, ?_⟩
    refine bind_eq_ok.mpr ⟨(), checkJoining_eq_ok.mpr fun id hid => ?_, ?_⟩
    · rw [mem_collectEffectiveMemberIds, addressIn_ne_none]
      rw [mem_collectEffectiveMemberIds] at hid
      by_cases hprev : id ∈ members previous
      · exact .inl hprev
      · exact .inr ((hd.exactly id).mpr (.inl ⟨hprev, hid⟩))
    refine bind_eq_ok.mpr ⟨(), checkExpected_eq_ok.mpr fun p hp => ?_, ?_⟩
    · rw [mem_collectEffectiveMemberIds, mem_collectEffectiveMemberIds]
      rcases (hd.exactly p.nodeId).mp (List.mem_map_of_mem hp) with hnew | hup
      · exact .inl hnew
      · obtain ⟨hprev, hnew⟩ := hd.kept _ hup
        exact .inr ⟨(countChanges_eq_one hd.once (hd.active _ hnew).1).mpr hup, hprev, hnew⟩
    refine bind_eq_ok.mpr ⟨(), ensure_of ?_, rfl⟩
    show ((derivedRecord current previous new cc endpoints).validate new).isOk = true
    rw [hresult]
    rfl

/-- One derivation of a chain; the configurations are those before and after. -/
def Derives (a b : ClusterMembership × ConfState) : Prop :=
  ∃ cc, a.1.deriveClusterMembership a.2 b.2 cc = .ok b.1

/-- A derivation starts from a valid record. -/
theorem Derives.validate {a b : ClusterMembership × ConfState} (h : Derives a b) : a.1.validate a.2 = .ok () := by
  obtain ⟨cc, h⟩ := h
  obtain ⟨_, hok, -⟩ := bind_eq_ok.mp h
  have hok := ensure_eq_ok.mp hok
  cases hval : a.1.validate a.2 with
  | ok _ => rfl
  | error e =>
      rw [hval] at hok
      cases hok

/-- Along a chain the record stays valid and the retired ids grow. -/
theorem chain_retired {a b : ClusterMembership × ConfState} (hv : a.1.ValidFor a.2)
    (h : Relation.ReflTransGen Derives a b) :
    b.1.ValidFor b.2 ∧ a.1.retiredNodeIds ⊆ b.1.retiredNodeIds := by
  induction h with
  | refl => exact ⟨hv, fun _ h => h⟩
  | tail _ hstep ih =>
      obtain ⟨cc, hd⟩ := id hstep
      obtain ⟨endpoints, hd, heq⟩ := (derive_eq_ok hstep.validate).mp hd
      have hderived := hd.derived ih.1
      rw [← heq] at hderived
      exact ⟨hderived.valid, fun id hid => (hderived.retired id).mpr (.inl (ih.2 hid))⟩

/-- A derivation is exact: it succeeds under the conditions of `Derivable` and has the result of
`Derived`; along every chain of derivations the retired ids grow, sorted and without repetitions, and
none is ever a member again. -/
theorem derivation_exact :
    (∀ (current : ClusterMembership) (previous new : ConfState) (cc : ConfChangeV2),
      current.validate previous = .ok () →
      ((∃ m, current.deriveClusterMembership previous new cc = .ok m) ↔
        ∃ endpoints, Derivable current previous new cc endpoints) ∧
      ∀ m, current.deriveClusterMembership previous new cc = .ok m →
        m.validate new = .ok () ∧ ∃ endpoints, Derivable current previous new cc endpoints ∧
          Derived current previous new cc endpoints m) ∧
    ∀ a b : ClusterMembership × ConfState, a.1.validate a.2 = .ok () → Relation.ReflTransGen Derives a b →
      a.1.retiredNodeIds ⊆ b.1.retiredNodeIds ∧ b.1.retiredNodeIds.Pairwise (· < ·) ∧
        ∀ id ∈ a.1.retiredNodeIds, id ∉ members b.2 := by
  constructor
  · intro current previous new cc hv
    constructor
    · constructor
      · rintro ⟨m, h⟩
        obtain ⟨endpoints, hd, -⟩ := (derive_eq_ok hv).mp h
        exact ⟨endpoints, hd⟩
      · rintro ⟨endpoints, hd⟩
        exact ⟨_, (derive_eq_ok hv).mpr ⟨endpoints, hd, rfl⟩⟩
    · intro m h
      obtain ⟨endpoints, hd, rfl⟩ := (derive_eq_ok hv).mp h
      have hderived := hd.derived (validate_eq_ok.mp hv)
      exact ⟨validate_eq_ok.mpr hderived.valid, endpoints, hd, hderived⟩
  · intro a b hv h
    obtain ⟨hvalid, hsub⟩ := chain_retired (validate_eq_ok.mp hv) h
    exact ⟨hsub, hvalid.retired, fun id hid hmem => (hvalid.active id hmem).2 (hsub hid)⟩

/-- A change that updates node 0, which is no member, is derived from. -/
theorem derivation_of_node_zero :
    ∃ (current : ClusterMembership) (sets : ConfSets) (cc : ConfChangeV2),
      current.validate sets.toConfState = .ok () ∧ sets.change cc = .ok sets ∧
      current.deriveClusterMembership sets.toConfState sets.toConfState cc = .ok current ∧
      ∃ c ∈ cc.changes, c.changeType = .updateNode ∧ c.nodeId ∉ members sets.toConfState := by
  let current : ClusterMembership := { clusterId := ⟨List.replicate 16 1, rfl⟩, peers := [⟨1, [97]⟩] }
  let sets : ConfSets := { incoming := {1} }
  let cc : ConfChangeV2 := { changes := [⟨.updateNode, 0⟩] }
  have hcs : sets.toConfState = { voters := [1] } := by
    simp [sets, ConfSets.toConfState]
  have hvalid : current.ValidFor { voters := [1] } := by
    refine ⟨by decide, by decide, by decide, by decide, by decide, fun id => ?_, by decide⟩
    simp [current, members]
  have hval := validate_eq_ok.mpr hvalid
  have hd : Derivable current { voters := [1] } { voters := [1] } cc [] := by
    refine ⟨by decide, by decide, .none rfl, by decide, by decide, fun id => ?_⟩
    simp [cc, updatedIds, updates]
  refine ⟨current, sets, cc, hcs ▸ hval, rfl, ?_, ⟨.updateNode, 0⟩, by simp [cc], rfl, ?_⟩
  · rw [hcs]
    exact (derive_eq_ok hval).mpr ⟨[], hd, rfl⟩
  · rw [hcs]
    decide

end ClusterMembership

end Raftz
