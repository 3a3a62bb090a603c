import Raftz.MessageCodec

/-! # Configuration changes survive their encoding

`decodeConfChangeV2` accepts exactly the byte strings that `encodeConfChangeV2`
writes: a change whose ids are 64-bit numbers and whose lists are short enough for
their length fields is read back from its encoding, and what is decoded from a
byte string has that string as its encoding (`confChangeV2_bijection`). -/

namespace Raftz

theorem ConfChangeTransition.ofByte_toByte (t : ConfChangeTransition) : ofByte t.toByte = some t := by
  cases t <;> decide

theorem ConfChangeTransition.toByte_of_ofByte {b : UInt8} {t : ConfChangeTransition}
    (h : ofByte b = some t) : t.toByte = b := by
  unfold ofByte at h
  split at h
  · cases h
    exact (by assumption : b = 0).symm
  · split at h
    · cases h
      exact (by assumption : b = 1).symm
    · split at h
      · cases h
        exact (by assumption : b = 2).symm
      · cases h

theorem ConfChangeType.ofByte_toByte (t : ConfChangeType) : ofByte t.toByte = some t := by
  cases t <;> decide

theorem ConfChangeType.toByte_of_ofByte {b : UInt8} {t : ConfChangeType} (h : ofByte b = some t) :
    t.toByte = b := by
  unfold ofByte at h
  split at h
  · cases h
    exact (by assumption : b = 0).symm
  · split at h
    · cases h
      exact (by assumption : b = 1).symm
    · split at h
      · cases h
        exact (by assumption : b = 2).symm
      · split at h
        · cases h
          exact (by assumption : b = 3).symm
        · cases h

/-! ### The changes -/

@[simp] theorem length_encodeChange (c : ConfChangeSingle) : (encodeChange c).length = 9 := by
  simp [encodeChange]

@[simp] theorem length_flatMap_encodeChange (cs : List ConfChangeSingle) :
    (cs.flatMap encodeChange).length = cs.length * 9 := by
  induction cs with
  | nil => rfl
  | cons c cs ih =>
      rw [List.flatMap_cons, List.length_append, length_encodeChange, ih, List.length_cons]
      omega

/-- The changes are read back, and what follows them is left. -/
theorem decodeChanges_encode {cs : List ConfChangeSingle} {rest : Bytes}
    (h : ∀ c ∈ cs, c.nodeId < 2 ^ 64) :
    decodeChanges cs.length (cs.flatMap encodeChange ++ rest) = some (cs, rest) := by
  induction cs with
  | nil => rfl
  | cons c cs ih =>
      have hid : c.nodeId < 256 ^ 8 := (h c List.mem_cons_self).trans_eq (by norm_num)
      have htail := ih fun c' hc' => h c' (List.mem_cons_of_mem _ hc')
      rw [List.flatMap_cons, List.length_cons, List.append_assoc]
      have hc : encodeChange c = c.changeType.toByte :: leBytes c.nodeId 8 := rfl
      rw [hc, List.cons_append, decodeChanges, List.drop_left' (length_leBytes _ 8),
        List.take_left' (length_leBytes _ 8), htail, ConfChangeType.ofByte_toByte, ofLeBytes_leBytes hid]
      rfl

/-- Nine bytes for each change are taken, and they are its encoding. -/
theorem decodeChanges_ok {n : ℕ} {bs rest : Bytes} {cs : List ConfChangeSingle}
    (hlen : n * 9 ≤ bs.length) (h : decodeChanges n bs = some (cs, rest)) :
    bs = cs.flatMap encodeChange ++ rest ∧ cs.length = n := by
  induction n generalizing bs cs with
  | zero =>
      cases h
      exact ⟨rfl, rfl⟩
  | succ n ih =>
      cases bs with
      | nil => cases h
      | cons b bs =>
          rw [List.length_cons] at hlen
          obtain ⟨t, ht, h⟩ := Option.bind_eq_some_iff.mp h
          obtain ⟨⟨cs', rest'⟩, hcs, h⟩ := Option.bind_eq_some_iff.mp h
          cases h
          obtain ⟨hbs, hn⟩ := ih (by rw [List.length_drop]; omega) hcs
          have hid : (bs.take 8).length = 8 := by
            rw [List.length_take]
            omega
          have hword := leBytes_ofLeBytes (bs.take 8)
          rw [hid] at hword
          refine ⟨?_, by rw [List.length_cons, hn]⟩
          show b :: bs = (t.toByte :: leBytes (ofLeBytes (bs.take 8)) 8) ++ cs'.flatMap encodeChange ++ rest
          rw [ConfChangeType.toByte_of_ofByte ht, hword, List.append_assoc, ← hbs, List.cons_append,
            List.take_append_drop]

/-! ### The record -/

/-- The bytes the encoder writes, in the order the decoder looks at them. -/
theorem encodeConfChangeV2_ok {cc : ConfChangeV2} (hn : cc.changes.length < 2 ^ 16)
    (hc : cc.context.length < 2 ^ 32) :
    encodeConfChangeV2 cc = .ok (ccMagic ++ ccVersion :: cc.transition.toByte ::
      (leBytes cc.changes.length 2 ++ (cc.changes.flatMap encodeChange ++
        (leBytes cc.context.length 4 ++ cc.context)))) := by
  unfold encodeConfChangeV2
  rw [if_neg (by omega), if_neg (by omega)]
  simp only [List.append_assoc, List.cons_append, List.nil_append]

/-- The parts of the header the decoder looks at. -/
theorem header_eq {bs : Bytes} (h : 12 ≤ bs.length) :
    bs = bs.take 4 ++ bs.getD 4 0 :: bs.getD 5 0 :: ((bs.drop 6).take 2 ++ bs.drop 8) := by
  have h8 : bs.drop 8 = (bs.drop 6).drop 2 := by rw [List.drop_drop]
  have h4 : bs.getD 4 0 :: bs.getD 5 0 :: bs.drop 6 = bs.drop 4 := by
    rw [List.drop_eq_getElem_cons (show 4 < bs.length by omega),
      List.drop_eq_getElem_cons (show 5 < bs.length by omega)]
    simp only [List.getD_eq_getElem?_getD, List.getElem?_eq_getElem (show 4 < bs.length by omega),
      List.getElem?_eq_getElem (show 5 < bs.length by omega), Option.getD_some]
  rw [h8, List.take_append_drop, h4, List.take_append_drop]

theorem decodeConfChangeV2_encode {cc : ConfChangeV2} {bs : Bytes}
    (hids : ∀ c ∈ cc.changes, c.nodeId < 2 ^ 64) (hn : cc.changes.length < 2 ^ 16)
    (hc : cc.context.length < 2 ^ 32) (h : encodeConfChangeV2 cc = .ok bs) :
    decodeConfChangeV2 bs = .ok cc := by
  rw [encodeConfChangeV2_ok hn hc] at h
  cases h
  have hn' : cc.changes.length < 256 ^ 2 := hn.trans_eq (by norm_num)
  have hc' : cc.context.length < 256 ^ 4 := hc.trans_eq (by norm_num)
  -- the count is that of the two bytes after the header, the body what follows them
  have hcount : ∀ body : Bytes, ((ccMagic ++ ccVersion :: cc.transition.toByte ::
      (leBytes cc.changes.length 2 ++ body)).drop 6).take 2 = leBytes cc.changes.length 2 :=
    fun body => List.take_left' (length_leBytes _ 2)
  have hbody : ∀ body : Bytes, (ccMagic ++ ccVersion :: cc.transition.toByte ::
      (leBytes cc.changes.length 2 ++ body)).drop 8 = body := by
    intro body
    show (leBytes cc.changes.length 2 ++ body).drop 2 = body
    exact List.drop_left' (length_leBytes _ 2)
  have htransition : ∀ body : Bytes,
      (ccMagic ++ ccVersion :: cc.transition.toByte :: body).getD 5 0 = cc.transition.toByte :=
    fun _ => rfl
  unfold decodeConfChangeV2
  dsimp only
  rw [hcount, hbody, ofLeBytes_leBytes hn', decodeChanges_encode hids]
  rw [if_neg (by simp [ccMagic]; omega), if_neg (by simp [ccMagic]), if_neg (by simp [ccMagic]),
    if_neg (by simp [ccMagic]; omega)]
  rw [htransition, ConfChangeTransition.ofByte_toByte]
  dsimp only
  rw [List.take_left' (length_leBytes _ 4), List.drop_left' (length_leBytes _ 4), ofLeBytes_leBytes hc',
    if_neg (by simp)]

theorem encodeConfChangeV2_decode {cc : ConfChangeV2} {bs : Bytes} (h : decodeConfChangeV2 bs = .ok cc) :
    encodeConfChangeV2 cc = .ok bs := by
  unfold decodeConfChangeV2 at h
  split at h
  · cases h
  rename_i hlen
  split at h
  · cases h
  rename_i hmagic
  split at h
  · cases h
  rename_i hversion
  dsimp only at h
  split at h
  · cases h
  rename_i hlong
  split at h
  swap
  · cases h
  rename_i transition changes rest ht hchanges
  split at h
  · cases h
  rename_i hrest
  cases h
  rw [not_ne_iff] at hmagic hversion hrest
  obtain ⟨hbody, hcount⟩ := decodeChanges_ok (by rw [List.length_drop]; omega) hchanges
  have htwo : ((bs.drop 6).take 2).length = 2 := by
    rw [List.length_take, List.length_drop]
    omega
  have hfour : (rest.take 4).length = 4 := by
    rw [List.length_take]
    omega
  have hn : changes.length < 256 ^ 2 := by
    rw [hcount]
    exact (ofLeBytes_lt _).trans_eq (by rw [htwo])
  have hc : ofLeBytes (rest.take 4) < 256 ^ 4 := by
    exact (ofLeBytes_lt _).trans_eq (by rw [hfour])
  have hcontext : (rest.drop 4).length = ofLeBytes (rest.take 4) := by
    rw [List.length_drop]
    omega
  have hcountBytes : leBytes changes.length 2 = (bs.drop 6).take 2 := by
    have := leBytes_ofLeBytes ((bs.drop 6).take 2)
    rwa [htwo, ← hcount] at this
  have hlenBytes : leBytes (rest.drop 4).length 4 = rest.take 4 := by
    have := leBytes_ofLeBytes (rest.take 4)
    rwa [hfour, ← hcontext] at this
  rw [encodeConfChangeV2_ok (hn.trans_eq (by norm_num)) (by
    show (rest.drop 4).length < _
    exact hcontext.trans_lt (hc.trans_eq (by norm_num)))]
  dsimp only
  rw [ConfChangeTransition.toByte_of_ofByte ht, hlenBytes, List.take_append_drop, ← hbody, hcountBytes,
    ← hversion, ← hmagic, ← header_eq (by omega)]

/-- A change is read back from its encoding, and every byte string that decodes is the encoding of
what it decodes to: no two strings decode to the same change. -/
theorem confChangeV2_bijection :
    (∀ cc : ConfChangeV2, (∀ c ∈ cc.changes, c.nodeId < 2 ^ 64) → cc.changes.length < 2 ^ 16 →
      cc.context.length < 2 ^ 32 →
        ∃ bs, encodeConfChangeV2 cc = .ok bs ∧ decodeConfChangeV2 bs = .ok cc) ∧
      (∀ (bs : Bytes) (cc : ConfChangeV2), decodeConfChangeV2 bs = .ok cc →
        encodeConfChangeV2 cc = .ok bs) ∧
      ∀ (bs bs' : Bytes) (cc : ConfChangeV2), decodeConfChangeV2 bs = .ok cc →
        decodeConfChangeV2 bs' = .ok cc → bs = bs' := by
  refine ⟨fun cc hids hn hc => ?_, fun bs cc h => encodeConfChangeV2_decode h, fun bs bs' cc h h' => ?_⟩
  · exact ⟨_, encodeConfChangeV2_ok hn hc,
      decodeConfChangeV2_encode hids hn hc (encodeConfChangeV2_ok hn hc)⟩
  · have heq := (encodeConfChangeV2_decode h).symm.trans (encodeConfChangeV2_decode h')
    exact Except.ok.inj heq

theorem confChangeV2_bijection_addLearner :
    ∃ bs, encodeConfChangeV2 ⟨.explicit, [⟨.addLearnerNode, 2⟩, ⟨.removeNode, 1⟩], [0x68, 0x69]⟩ = .ok bs ∧
      decodeConfChangeV2 bs = .ok ⟨.explicit, [⟨.addLearnerNode, 2⟩, ⟨.removeNode, 1⟩], [0x68, 0x69]⟩ :=
  confChangeV2_bijection.1 _ (by decide) (by decide) (by decide)

end Raftz
