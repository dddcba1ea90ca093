import Libp2px.Vtcp.Upkeep

/-!
# Timestamps and reordering

`updateTimestamp` records the TSval of every segment that passes PAWS, also of one that lies beyond the next expected
number.  So when a segment overtakes an earlier one, and the peer's clock has ticked between the two, the earlier one is
discarded although it brings the bytes that are missing.  Nothing else is discarded: a segment of an honest peer fails
PAWS exactly when the timestamp on record is that of a later segment.
-/

namespace Libp2px.Vtcp

open Transition

/-- A peer that sends timestamps. Its clock never goes back and advances by less than `2^31`. -/
structure Peer where
  seg : Nat → Segment
  base : BitVec 32
  tick : Nat → Nat
  mono : Monotone tick
  bound : ∀ i, tick i < 2 ^ 31
  stamped : ∀ i, ∃ ecr, getTimestamp (seg i).options = some (Serial.place base (tick i), ecr)

namespace Peer

variable {σ : Type} [CongestionController σ] (p : Peer)

/-- What arrives was sent by the peer; it may be reordered, repeated or lost. -/
def Delivers (_ : Host σ) (e : Event) : Prop := ∀ seg ∈ e.delivered, ∃ i, seg = p.seg i

/-- The timestamp on record is of a segment sent after segment `i`, with a later TSval. -/
def Overtaken (h : Host σ) (i : Nat) : Prop :=
  h.conn.tsRecent ≠ 0 ∧
    ∃ j, i < j ∧ p.tick i < p.tick j ∧ p.seg j ∈ h.received ∧ h.conn.tsRecent = Serial.place p.base (p.tick j)

variable {p}

theorem received_sent {h : Host σ} (hr : (Host.system σ).Reach p.Delivers h) : ∀ seg ∈ h.received, ∃ j, seg = p.seg j := by
  refine hr.invariant (I := fun g => ∀ seg ∈ g.received, ∃ j, seg = p.seg j) ?_ ?_
  · rintro g ⟨cfg, now, rfl⟩ seg hmem
    cases hmem
  · intro g e g' _ ih he hn seg hmem
    rw [(Host.next_upkeep hn).received] at hmem
    rcases List.mem_append.1 hmem with hmem | hmem
    · exact ih seg hmem
    · exact he seg hmem

theorem older_iff (p : Peer) (i j : Nat) :
    (Serial.place p.base (p.tick i) - Serial.place p.base (p.tick j)).toInt < 0 ↔ p.tick i < p.tick j := by
  have hi := p.bound i
  have hj := p.bound j
  rw [Serial.toInt_place_sub (by omega) (by omega)]
  omega

theorem recorded {h : Host σ} (hr : (Host.system σ).Reach p.Delivers h) (hts : h.conn.tsOK = true) :
    ∃ j, p.seg j ∈ h.received ∧ h.conn.tsRecent = Serial.place p.base (p.tick j) := by
  obtain ⟨seg, hmem, ecr, hget⟩ := Host.recorded_received hr hts
  obtain ⟨j, rfl⟩ := received_sent hr seg hmem
  obtain ⟨ecr', hj⟩ := p.stamped j
  refine ⟨j, hmem, ?_⟩
  rw [hget] at hj
  exact congrArg Prod.fst (Option.some.inj hj)

omit [CongestionController σ] in
theorem pawsOK_iff {c : Conn σ} (hts : c.tsOK = true) {j : Nat} (hrec : c.tsRecent = Serial.place p.base (p.tick j))
    (i : Nat) : c.pawsOK (p.seg i).options = true ↔ ¬(c.tsRecent ≠ 0 ∧ p.tick i < p.tick j) := by
  obtain ⟨ecr, hget⟩ := p.stamped i
  have hold := p.older_iff i j
  rw [← hrec] at hold
  unfold Conn.pawsOK
  simp only [hts, hget, Bool.not_eq_true', Bool.and_eq_false_iff, bne_eq_false_iff_eq, decide_eq_false_iff_not, hold]
  tauto

/-- With an honest peer, PAWS lets a segment pass if and only if it was not overtaken across a tick by the segment
whose timestamp is on record; a segment that fails is answered by an ACK and has no other effect. -/
theorem paws_passes_iff {h : Host σ} (hr : (Host.system σ).Reach p.Delivers h) (hts : h.conn.tsOK = true) (i : Nat) :
    (h.conn.pawsOK (p.seg i).options = true ↔ ¬p.Overtaken h i) ∧
      (p.Overtaken h i → ∀ now, Conn.handleDataState now (p.seg i) h.conn = Conn.queueACK now h.conn) := by
  obtain ⟨j, hmem, hrec⟩ := recorded hr hts
  have hiff : h.conn.pawsOK (p.seg i).options = true ↔ ¬p.Overtaken h i := by
    rw [pawsOK_iff hts hrec i]
    apply not_congr
    constructor
    · rintro ⟨hne, hlt⟩
      refine ⟨hne, j, ?_, hlt, hmem, hrec⟩
      by_contra hle
      exact absurd (p.mono (Nat.le_of_not_lt hle)) (Nat.not_le_of_lt hlt)
    · rintro ⟨hne, k, -, hlt, -, hrec'⟩
      refine ⟨hne, ?_⟩
      have hj := p.bound j
      have hk := p.bound k
      have hsame : p.tick j = p.tick k := (Serial.place_inj (by omega) (by omega)).1 (hrec.symm.trans hrec')
      omega
  refine ⟨hiff, ?_⟩
  intro hover now
  apply Conn.handleDataState_of_paws
  exact Bool.eq_false_of_not_eq_true fun hpaws => hiff.1 hpaws hover

end Peer

def tickingPeer : Peer where
  seg
    | 0 => { srcPort := 0, dstPort := 0, seq := 700, ack := 101, flags := flagSYN ||| flagACK, window := 1000
             options := [timestampOption 1000 0] }
    | 1 => { srcPort := 0, dstPort := 0, seq := 701, ack := 101, flags := flagACK, window := 1000, payload := [1]
             options := [timestampOption 1001 0] }
    | _ => { srcPort := 0, dstPort := 0, seq := 702, ack := 101, flags := flagACK, window := 1000, payload := [2]
             options := [timestampOption 1002 0] }
  base := 1000
  tick i := min i 2
  mono := fun _ _ hij => min_le_min_right 2 hij
  bound := fun i => lt_of_le_of_lt (min_le_right i 2) (by decide)
  stamped
    | 0 => ⟨0, rfl⟩
    | 1 => ⟨0, rfl⟩
    | i + 2 => ⟨0, by
        have htwo : min (i + 2) 2 = 2 := by omega
        rw [htwo]
        rfl⟩

def afterArrivals (is : List Nat) : Host SmallController :=
  (Host.fresh { enableTimestamps := true } 0).run (.connect 0 100 :: is.map fun i => .segment 0 (tickingPeer.seg i))

theorem reach_afterArrivals (is : List Nat)
    (hs : (exec Host.next (Host.fresh { enableTimestamps := true } 0 : Host SmallController)
      (.connect 0 100 :: is.map fun i => .segment 0 (tickingPeer.seg i))).isSome = true) :
    (Host.system SmallController).Reach tickingPeer.Delivers (afterArrivals is) := by
  refine Host.run_reach hs (execMeets_of_forall ?_ _)
  intro e he g seg hseg
  rcases List.mem_cons.1 he with rfl | he
  · cases hseg
  · obtain ⟨i, -, rfl⟩ := List.mem_map.1 he
    exact ⟨i, List.mem_singleton.1 hseg⟩

theorem paws_passes_inOrder : (afterArrivals [0, 1]).conn.pawsOK (tickingPeer.seg 2).options = true := by
  refine (Peer.paws_passes_iff (reach_afterArrivals [0, 1] (by decide +kernel)) (by decide +kernel) 2).1.2 ?_
  rintro ⟨-, j, -, hlt, -⟩
  exact absurd hlt (Nat.not_lt_of_le (min_le_right j 2))

/-- The second byte overtakes the first, and the first one is discarded: `RCV.NXT` still waits for it. -/
theorem paws_discards_reordered :
    ∃ h h' : Host SmallController, (Host.system SmallController).Reach tickingPeer.Delivers h ∧ h.conn.tsOK = true ∧
      h.conn.state = .established ∧ (tickingPeer.seg 1).seq = h.conn.recvBuf.nxt ∧ (tickingPeer.seg 1).payload = [1] ∧
      h.conn.pawsOK (tickingPeer.seg 1).options = false ∧ h.next (.segment 0 (tickingPeer.seg 1)) = some h' ∧
      h'.conn.recvBuf = h.conn.recvBuf := by
  refine ⟨afterArrivals [0, 2], (afterArrivals [0, 2]).run [.segment 0 (tickingPeer.seg 1)], ?_, ?_, ?_, ?_, rfl, ?_, ?_, ?_⟩
  · exact reach_afterArrivals [0, 2] (by decide +kernel)
  · decide +kernel
  · decide +kernel
  · decide +kernel
  · decide +kernel
  · exact Host.next_run (by decide +kernel)
  · decide +kernel

end Libp2px.Vtcp
