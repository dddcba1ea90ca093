import Libp2px.Vtcp.SendBuf

/-!
# The loop that skips SACKed ranges

`RetransmitData` (`vtcp/sendbuf.go`) moves its position to the right edge of a block for as long as some block covers
it, and the blocks are the peer's.  `Acknowledge` and `MarkSACKed` keep only blocks whose right edge is after `una`:
measured from `una`, every move then goes forward and ends before `2^31`, whatever the left edges are.
-/

namespace Libp2px.Vtcp.SendBuf

inductive Op
  | write (p : List Byte)
  | advanceSent (n : Nat)
  | acknowledge (ack : BitVec 32)
  | markSACKed (blocks : List SACKBlock)

def apply (s : SendBuf) : Op → SendBuf
  | .write p => (s.write p).1
  | .advanceSent n => s.advanceSent n
  | .acknowledge ack => (s.acknowledge ack).1
  | .markSACKed blocks => s.markSACKed blocks

def EndsAhead (s : SendBuf) : Prop := ∀ b ∈ s.sacked, seqAfter b.right s.una = true

theorem EndsAhead.pruneSACK (s : SendBuf) : s.pruneSACK.EndsAhead := fun _ hb => (List.mem_filter.1 hb).2

theorem EndsAhead.apply {s : SendBuf} (h : s.EndsAhead) (op : Op) : (s.apply op).EndsAhead := by
  cases op with
  | write p =>
    show (s.write p).1.EndsAhead
    rw [write_eq]
    exact h
  | advanceSent n => exact h
  | acknowledge ack =>
    show (s.acknowledge ack).1.EndsAhead
    unfold SendBuf.acknowledge
    split
    · exact h
    · exact EndsAhead.pruneSACK _
  | markSACKed blocks =>
    show (s.markSACKed blocks).EndsAhead
    unfold SendBuf.markSACKed
    split
    · exact h
    · intro b hb
      have hkept := (List.mem_filter.1 hb).2
      simp only [Bool.and_eq_true] at hkept
      exact hkept.1

theorem EndsAhead.foldl {s : SendBuf} (h : s.EndsAhead) (ops : List Op) : (ops.foldl SendBuf.apply s).EndsAhead := by
  induction ops generalizing s with
  | nil => exact h
  | cons op ops ih => exact ih (h.apply op)

section pass

variable {una seq r : BitVec 32} {blocks : List SACKBlock}

theorem toNat_sub_lt_of_seqAfter (h : seqAfter r una = true) : (r - una).toNat < 2 ^ 31 := by
  simp only [seqAfter, decide_eq_true_eq] at h
  rw [BitVec.toInt_eq_toNat_cond] at h
  split at h <;> omega

theorem seqBefore_iff (hs : (seq - una).toNat < 2 ^ 31) (hr : (r - una).toNat < 2 ^ 31) :
    seqBefore seq r = true ↔ (seq - una).toNat < (r - una).toNat := by
  rw [← Serial.place_toNat_sub una seq, ← Serial.place_toNat_sub una r, seqBefore_place, decide_eq_true_eq,
    Serial.place_toNat_sub, Serial.place_toNat_sub]
  all_goals omega

theorem skipPass_cases (hb : ∀ b ∈ blocks, seqAfter b.right una = true) (hs : (seq - una).toNat < 2 ^ 31) :
    skipChanged blocks seq = false ∧ skipPass blocks seq = seq ∨
      (seq - una).toNat < (skipPass blocks seq - una).toNat ∧ ∃ b ∈ blocks, skipPass blocks seq = b.right := by
  induction blocks generalizing seq with
  | nil => exact .inl ⟨rfl, rfl⟩
  | cons b bs ih =>
    rw [List.forall_mem_cons] at hb
    by_cases hc : covers b seq = true
    · have hr := toNat_sub_lt_of_seqAfter hb.1
      have hlt : (seq - una).toNat < (b.right - una).toNat := by
        simp only [covers, Bool.and_eq_true] at hc
        exact (seqBefore_iff hs hr).1 hc.2
      have hpass : skipPass (b :: bs) seq = skipPass bs b.right := by simp [skipPass, hc]
      rw [hpass]
      right
      rcases ih hb.2 hr with ⟨-, heq⟩ | ⟨hmore, b', hmem, heq⟩
      · rw [heq]
        exact ⟨hlt, b, List.mem_cons_self, rfl⟩
      · exact ⟨hlt.trans hmore, b', List.mem_cons_of_mem b hmem, heq⟩
    · have hpass : skipPass (b :: bs) seq = skipPass bs seq := by simp [skipPass, hc]
      have hchanged : skipChanged (b :: bs) seq = skipChanged bs seq := by simp [skipChanged, hc]
      rw [hpass, hchanged]
      rcases ih hb.2 hs with hsame | ⟨hmore, b', hmem, heq⟩
      · exact .inl hsame
      · exact .inr ⟨hmore, b', List.mem_cons_of_mem b hmem, heq⟩

/-- How far after `una` the right edges beyond the position are: what the loop has left to visit. -/
def edgesBeyond (blocks : List SACKBlock) (una seq : BitVec 32) : Finset Nat :=
  (blocks.map fun b => (b.right - una).toNat).toFinset.filter fun d => (seq - una).toNat < d

theorem edgesBeyond_ssubset {b : SACKBlock} (hmem : b ∈ blocks) (hlt : (seq - una).toNat < (b.right - una).toNat) :
    edgesBeyond blocks una b.right ⊂ edgesBeyond blocks una seq := by
  refine Finset.ssubset_iff_of_subset (fun d hd => ?_) |>.2 ⟨(b.right - una).toNat, ?_, ?_⟩
  · rw [edgesBeyond, Finset.mem_filter] at hd ⊢
    exact ⟨hd.1, hlt.trans hd.2⟩
  · rw [edgesBeyond, Finset.mem_filter, List.mem_toFinset]
    exact ⟨List.mem_map_of_mem hmem, hlt⟩
  · simp [edgesBeyond]

theorem skipSACKed_isSome (hb : ∀ b ∈ blocks, seqAfter b.right una = true) (hs : (seq - una).toNat < 2 ^ 31)
    {fuel : Nat} (hf : (edgesBeyond blocks una seq).card < fuel) : (skipSACKed blocks fuel seq).isSome = true := by
  induction fuel generalizing seq with
  | zero => cases hf
  | succ fuel ih =>
    unfold skipSACKed
    split
    · rename_i hchanged
      rcases skipPass_cases hb hs with ⟨hsame, -⟩ | ⟨hlt, b, hmem, heq⟩
      · cases hsame.symm.trans hchanged
      · rw [heq] at hlt ⊢
        have hcard := Finset.card_lt_card (edgesBeyond_ssubset hmem hlt)
        exact ih (toNat_sub_lt_of_seqAfter (hb b hmem)) (by omega)
    · rfl

theorem card_edgesBeyond_le : (edgesBeyond blocks una seq).card ≤ blocks.length := by
  refine (Finset.card_filter_le _ _).trans ((List.toFinset_card_le _).trans ?_)
  rw [List.length_map]

end pass

/-- The loop of `RetransmitData` ends after at most one pass more than there are blocks; so `RetransmitData` returns.
-/
theorem skip_loop_ends (capacity : Nat) (initialSeq : BitVec 32) (ops : List Op) :
    let s := ops.foldl apply (newSendBuf capacity initialSeq)
    (skipSACKed s.sacked (s.sacked.length + 1) s.una).isSome = true ∧ ∀ n, (s.retransmitData n).isSome = true := by
  intro s
  have hahead : s.EndsAhead := EndsAhead.foldl (fun b hb => by cases hb) ops
  have hends : ∀ fuel, s.sacked.length < fuel → (skipSACKed s.sacked fuel s.una).isSome = true := by
    intro fuel hf
    refine skipSACKed_isSome hahead (by simp) (lt_of_le_of_lt card_edgesBeyond_le hf)
  refine ⟨hends _ (Nat.lt_succ_self _), fun n => ?_⟩
  obtain ⟨seq, hseq⟩ := Option.isSome_iff_exists.1 (hends (s.sacked.length + 2) (by omega))
  unfold retransmitData
  simp only [hseq]
  split
  · rfl
  · split
    · rfl
    · split <;> split <;> rfl

end Libp2px.Vtcp.SendBuf
