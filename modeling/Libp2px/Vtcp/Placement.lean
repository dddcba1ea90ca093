import Libp2px.Vtcp.Advertise

/-!
# Where payload and FIN land

What `HandleSegment` and `AcceptSYN` put into the receive stream, and at which sequence numbers.  A SYN takes a number of
its own, so the payload that comes with it begins one number later.  The openings and the data states count that number;
SYN-RECEIVED hands a SYN-ACK to the handler of the data states, which does not.
-/

namespace Libp2px.Vtcp

/-- Where payload and FIN go: the receive buffer and the FIN that waits for its turn. -/
structure Intake where
  recvBuf : RecvBuf
  finPending : Bool
  pendingFinSeq : BitVec 32
  deriving DecidableEq, Repr

namespace Intake

/-- Payload is taken in from the number `first` on; a deferred FIN that is next then is consumed. -/
def data (first : BitVec 32) (payload : List Byte) (x : Intake) : Intake :=
  if payload = [] then x
  else
    let r := (x.recvBuf.insert first payload).1
    if x.finPending && decide (x.pendingFinSeq = r.nxt) then { x with recvBuf := r.consumeFIN, finPending := false }
    else { x with recvBuf := r }

/-- A FIN with the number `num` is consumed if it is next, and deferred otherwise. -/
def fin (num : BitVec 32) (x : Intake) : Intake :=
  if num = x.recvBuf.nxt then { x with recvBuf := x.recvBuf.consumeFIN }
  else { x with finPending := true, pendingFinSeq := num }

end Intake

/-- Where a call puts the payload and the FIN of a segment: their numbers, the second one if the call looks at the
FIN. An opening call creates the buffer for the payload. -/
structure Placement where
  opens : Bool
  dataAt : BitVec 32
  finAt : Option (BitVec 32)
  deriving DecidableEq, Repr

def Placement.take (p : Placement) (size : Nat) (seg : Segment) (x : Intake) : Intake :=
  if p.opens then { x with recvBuf := ((newRecvBuf (seg.seq + 1) size).insert p.dataAt seg.payload).1 }
  else
    let x := x.data p.dataAt seg.payload
    match p.finAt with
    | some num => x.fin num
    | none => x

namespace Segment

def byteSeq (seg : Segment) (i : Nat) : BitVec 32 :=
  seg.seq + (if seg.hasFlag flagSYN then 1 else 0) + BitVec.ofNat 32 i

def finSeq (seg : Segment) : BitVec 32 := seg.seq + seg.segLen - 1

theorem finSeq_of_fin {seg : Segment} (hfin : seg.hasFlag flagFIN = true) :
    seg.finSeq = seg.seq + seg.dataLen + (if seg.hasFlag flagSYN then 1 else 0) := by
  unfold finSeq segLen dataLen
  simp only [hfin, if_true]
  split <;> bv_omega

end Segment

def Placement.Agrees (p : Placement) (seg : Segment) : Prop :=
  (∀ i < seg.payload.length, p.dataAt + BitVec.ofNat 32 i = seg.byteSeq i) ∧
    (seg.hasFlag flagFIN = true → p.finAt = some seg.finSeq)

theorem Placement.bytes_iff (p : Placement) (seg : Segment) :
    (∀ i < seg.payload.length, p.dataAt + BitVec.ofNat 32 i = seg.byteSeq i) ↔
      seg.payload = [] ∨ p.dataAt = seg.seq + (if seg.hasFlag flagSYN then 1 else 0) := by
  constructor
  · intro h
    by_cases hp : seg.payload = []
    · exact .inl hp
    · have hfirst := h 0 (List.length_pos_iff.2 hp)
      unfold Segment.byteSeq at hfirst
      exact .inr (by simpa using hfirst)
  · rintro (h | h) i hi
    · rw [h] at hi
      cases hi
    · rw [h]
      rfl

theorem Placement.agrees_opening (seg : Segment) :
    Placement.Agrees ⟨true, seg.seq + 1, none⟩ seg ↔
      seg.hasFlag flagFIN = false ∧ (seg.payload ≠ [] → seg.hasFlag flagSYN = true) := by
  have hsyn : seg.seq + 1 = seg.seq + (if seg.hasFlag flagSYN then 1 else 0) ↔ seg.hasFlag flagSYN = true := by
    cases seg.hasFlag flagSYN <;> simp
  unfold Agrees
  rw [bytes_iff, hsyn, ← or_iff_not_imp_left]
  simp [and_comm]

theorem Placement.agrees_data (seg : Segment) :
    Placement.Agrees ⟨false, seg.seq, if seg.hasFlag flagFIN then some (seg.seq + seg.dataLen) else none⟩ seg ↔
      (seg.hasFlag flagSYN = true → seg.payload = [] ∧ seg.hasFlag flagFIN = false) := by
  have hsyn : seg.seq = seg.seq + (if seg.hasFlag flagSYN then 1 else 0) ↔ seg.hasFlag flagSYN = false := by
    cases seg.hasFlag flagSYN <;> simp
  have hfin : (seg.hasFlag flagFIN = true →
      (if seg.hasFlag flagFIN then some (seg.seq + seg.dataLen) else none) = some seg.finSeq) ↔
      (seg.hasFlag flagSYN = true → seg.hasFlag flagFIN = false) := by
    cases hf : seg.hasFlag flagFIN with
    | false => simp
    | true =>
      rw [Segment.finSeq_of_fin hf]
      cases seg.hasFlag flagSYN <;> simp
  unfold Agrees
  rw [bytes_iff, hsyn, hfin]
  cases seg.hasFlag flagSYN <;> simp

namespace Conn

variable {σ : Type}

def intake (c : Conn σ) : Intake := ⟨c.recvBuf, c.finPending, c.pendingFinSeq⟩

/-- Where `HandleSegment` puts a segment; `none` when it takes neither payload nor FIN from it. -/
def placement (seg : Segment) (c : Conn σ) : Option Placement :=
  match c.state with
  | .synSent => if c.takesWindow seg then some ⟨true, seg.seq + 1, none⟩ else none
  | .synReceived | .established | .finWait1 | .finWait2 =>
    if c.takesACK seg then
      some ⟨false, seg.seq, if seg.hasFlag flagFIN then some (seg.seq + seg.dataLen) else none⟩
    else none
  | _ => none

/-- Payload and FIN land where they belong: a segment that opens the connection is a SYN without FIN, and a SYN that
arrives in SYN-RECEIVED carries neither payload nor FIN. -/
def Straight (seg : Segment) (c : Conn σ) : Prop :=
  match c.state with
  | .synReceived => seg.hasFlag flagSYN = true → seg.payload = [] ∧ seg.hasFlag flagFIN = false
  | .established | .finWait1 | .finWait2 => True
  | _ => seg.hasFlag flagFIN = false ∧ (seg.payload ≠ [] → seg.hasFlag flagSYN = true)

instance (seg : Segment) (c : Conn σ) : Decidable (c.Straight seg) := by
  unfold Straight
  exact match c.state with
    | .synReceived => inferInstanceAs (Decidable (_ → _ ∧ _))
    | .established | .finWait1 | .finWait2 => inferInstanceAs (Decidable True)
    | .closed | .listen | .synSent | .closeWait | .closing | .lastAck | .timeWait =>
      inferInstanceAs (Decidable (_ ∧ (_ → _)))

/-! ### The intake of the handlers -/

theorem intake_congr {c d : Conn σ} (hbuf : d.recvBuf = c.recvBuf) (hfin : d.finPending = c.finPending)
    (hseq : d.pendingFinSeq = c.pendingFinSeq) : d.intake = c.intake := by
  unfold intake
  rw [hbuf, hfin, hseq]

theorem intake_safeCloseFinRecvd (c : Conn σ) : c.safeCloseFinRecvd.intake = c.intake := by
  rw [safeCloseFinRecvd_frame]
  exact intake_congr rfl rfl rfl

theorem intake_processFINStateTransition (c : Conn σ) : c.processFINStateTransition.intake = c.intake := by
  rw [processFINStateTransition_frame]
  exact intake_congr rfl rfl rfl

variable {seg : Segment} {c : Conn σ}

theorem intake_processData (c : Conn σ) (hp : seg.payload ≠ []) :
    (processData seg c).intake = c.intake.data seg.seq seg.payload := by
  have hwake : ∀ (n : Nat) (d : Conn σ), (if n > 0 then d.broadcastRecv else d).intake = d.intake := by
    intro n d
    split
    · exact intake_congr rfl rfl rfl
    · rfl
  have hdata : c.intake.data seg.seq seg.payload =
      if c.finPending && decide (c.pendingFinSeq = (c.recvBuf.insert seg.seq seg.payload).1.nxt) then
        ⟨(c.recvBuf.insert seg.seq seg.payload).1.consumeFIN, false, c.pendingFinSeq⟩
      else ⟨(c.recvBuf.insert seg.seq seg.payload).1, c.finPending, c.pendingFinSeq⟩ := by
    unfold Intake.data
    rw [if_neg hp]
    rfl
  rw [hdata]
  unfold processData
  by_cases hready : (c.finPending && decide (c.pendingFinSeq = (c.recvBuf.insert seg.seq seg.payload).1.nxt)) = true
  · simp only [hready, if_true]
    rw [intake_processFINStateTransition, hwake]
    rfl
  · simp only [hready, Bool.false_eq_true, if_false]
    rw [hwake]
    rfl

theorem intake_processFIN (seg : Segment) (c : Conn σ) :
    (processFIN seg c).intake = c.intake.fin (seg.seq + seg.dataLen) := by
  unfold processFIN Intake.fin
  simp only
  by_cases hnum : seg.seq + seg.dataLen = c.recvBuf.nxt
  · have hnum' : seg.seq + seg.dataLen = c.intake.recvBuf.nxt := hnum
    rw [if_pos hnum, if_pos hnum', intake_processFINStateTransition]
    rfl
  · have hnum' : seg.seq + seg.dataLen ≠ c.intake.recvBuf.nxt := hnum
    rw [if_neg hnum, if_neg hnum']
    rfl

theorem intake_dataAndFIN (size : Nat) (seg : Segment) (c : Conn σ) :
    (dataAndFIN seg c).intake =
      Placement.take ⟨false, seg.seq, if seg.hasFlag flagFIN then some (seg.seq + seg.dataLen) else none⟩ size seg
        c.intake := by
  have hdata : (if seg.payload ≠ [] then processData seg c else c).intake = c.intake.data seg.seq seg.payload := by
    by_cases hp : seg.payload = []
    · rw [if_neg (not_not.2 hp), hp]
      rfl
    · rw [if_pos hp]
      exact intake_processData c hp
  unfold dataAndFIN Placement.take
  simp only [Bool.false_eq_true, if_false]
  rw [← hdata]
  generalize (if seg.payload ≠ [] then processData seg c else c) = d
  by_cases hf : seg.hasFlag flagFIN = true
  · simp only [hf, if_true]
    exact intake_processFIN seg d
  · simp only [hf, Bool.false_eq_true, if_false]
    split <;> rfl

variable (now : Int)

theorem intake_queueACK (c : Conn σ) : (queueACK now c).intake = c.intake := intake_congr rfl rfl rfl

theorem intake_recordTimestamp (opts : List TcpOption) (c : Conn σ) : (c.recordTimestamp opts).intake = c.intake := by
  obtain ⟨ts, h⟩ := recordTimestamp_eq opts c
  rw [h]
  exact intake_congr rfl rfl rfl

set_option linter.unusedSectionVars false

variable [CongestionController σ]

theorem intake_flushSendQueue (c : Conn σ) : (flushSendQueue now c).intake = c.intake := by
  rw [flushSendQueue_frame]
  exact intake_congr rfl rfl rfl

theorem intake_processSegACK (seg : Segment) (c : Conn σ) : (processSegACK now seg c).intake = c.intake := by
  rw [processSegACK_frame]
  exact intake_congr rfl rfl rfl

theorem intake_handleDataState (size : Nat) (hpaws : c.pawsOK seg.options = true) :
    (handleDataState now seg c).intake =
      Placement.take ⟨false, seg.seq, if seg.hasFlag flagFIN then some (seg.seq + seg.dataLen) else none⟩ size seg
        c.intake := by
  have hparts := intake_dataAndFIN size seg (processSegACK now seg (c.recordTimestamp seg.options))
  rw [intake_processSegACK, intake_recordTimestamp] at hparts
  rw [handleDataState_eq now hpaws]
  split
  · rw [intake_queueACK]
    exact hparts
  · exact hparts

/-! ### The intake of the openings -/

theorem intake_options (opts : List TcpOption) (c : Conn σ) :
    (negotiateOptions opts (narrowMSS opts c)).intake = c.intake ∧
      (negotiateOptions opts (narrowMSS opts c)).recvBufCap = c.recvBufCap := by
  have hcore := coreWith_negotiate { conn := c } c opts
  exact ⟨congrArg (fun s : Core => Intake.mk s.recvBuf s.finPending s.pendingFinSeq) hcore,
    congrArg Core.recvBufCap hcore⟩

theorem intake_completeActiveOpen (seg : Segment) (c : Conn σ) :
    (completeActiveOpen now seg c).intake =
      Placement.take ⟨true, seg.seq + 1, none⟩ c.recvBufCap seg c.intake := by
  obtain ⟨rc, hopen⟩ := completeActiveOpen_frame now seg c
  have hflush : (completeActiveOpen now seg c).intake =
      (flushSendQueue now (queueACK now (c.synAcked now seg rc))).intake := by
    rw [hopen]
    exact intake_congr rfl rfl rfl
  rw [hflush, intake_flushSendQueue, intake_queueACK]
  rfl

theorem intake_simultaneousOpen (seg : Segment) (c : Conn σ) :
    (simultaneousOpen now seg c).intake =
      Placement.take ⟨true, seg.seq + 1, none⟩ c.recvBufCap seg c.intake := rfl

theorem intake_acceptSYN (iss : BitVec 32) (syn : Segment) (hst : c.state = .closed ∨ c.state = .listen) :
    (c.acceptSYN now iss syn).intake = Placement.take ⟨true, syn.seq + 1, none⟩ c.recvBufCap syn c.intake := by
  have hno : ¬(c.state ≠ .closed ∧ c.state ≠ .listen) := by tauto
  obtain ⟨hin, hcap⟩ := intake_options syn.options c
  unfold acceptSYN
  rw [if_neg hno, ← hin, ← hcap]
  generalize negotiateOptions syn.options (narrowMSS syn.options c) = d
  rfl

theorem intake_completePassiveOpen (seg : Segment) (c : Conn σ) :
    (completePassiveOpen seg c).intake = c.intake ∧ (completePassiveOpen seg c).tsOK = c.tsOK ∧
      (completePassiveOpen seg c).tsRecent = c.tsRecent := by
  rw [completePassiveOpen_eq]
  exact ⟨intake_congr rfl rfl rfl, rfl, rfl⟩

theorem Leaves.placement (h : c.Leaves seg) : c.placement seg = none := by
  unfold Conn.placement
  split
  · rw [h.takesWindow]
    rfl
  iterate 4
    · rw [h.ack]
      rfl
  · rfl

theorem Handled.intake {now : Int} {d : Conn σ} (h : Handled now seg c d) :
    d.intake = match c.placement seg with
      | some p => p.take c.recvBufCap seg c.intake
      | none => c.intake := by
  have hopens {d : Conn σ} (hst : c.state = .synSent) (ht : c.takesWindow seg = true) (hd : d.intake =
      Placement.take ⟨true, seg.seq + 1, none⟩ (negotiateOptions seg.options (narrowMSS seg.options c)).recvBufCap seg
        (negotiateOptions seg.options (narrowMSS seg.options c)).intake) : d.intake = match c.placement seg with
      | some p => p.take c.recvBufCap seg c.intake
      | none => c.intake := by
    obtain ⟨hin, hcap⟩ := intake_options seg.options c
    rw [hd, hin, hcap, placement, hst]
    simp only [ht, if_true]
  cases h with
  | ignored ht => rw [ht.placement]
  | answered ht | refused ht | closing ht | timeWait ht | lastAck ht =>
    rw [ht.placement]
    exact intake_congr rfl rfl rfl
  | reset ht =>
    rw [ht.placement, resetTeardown_frame]
    exact intake_congr rfl rfl rfl
  | refusedOpen ht =>
    rw [ht.placement, intake_safeCloseFinRecvd]
    exact intake_congr rfl rfl rfl
  | synAck hst hsyn hrst hack hlo hhi =>
    refine hopens hst ?_ (intake_completeActiveOpen now seg _)
    rw [takesWindow_synSent seg hst, hsyn, hrst, hack, hlo, hhi]
    rfl
  | syn hst hsyn hrst hack =>
    refine hopens hst ?_ (intake_simultaneousOpen now seg _)
    rw [takesWindow_synSent seg hst, hsyn, hrst, hack]
    rfl
  | passive hst hp hack =>
    obtain ⟨hopen, htsOK, htsRecent⟩ := intake_completePassiveOpen seg c
    have hpaws' := pawsOK_congr (c := c) htsOK htsRecent seg.options
    have ht := hp.takesACK_eq
    rw [hst, decide_eq_true hack, Bool.true_and] at ht
    rw [placement, hst]
    cases hpaws : c.pawsOK seg.options with
    | true =>
      rw [hpaws] at ht hpaws'
      simp only [ht, if_true]
      rw [intake_handleDataState now c.recvBufCap hpaws', hopen]
    | false =>
      rw [hpaws] at ht hpaws'
      simp only [ht, Bool.false_eq_true, if_false]
      rw [handleDataState_of_paws now hpaws', intake_queueACK, hopen]
  | data hst hp ht hpaws =>
    rw [intake_handleDataState now c.recvBufCap hpaws, placement]
    rcases hst with hst | hst | hst <;> rw [hst] <;> simp only [ht, if_true]
  | closeWait hst =>
    rw [intake_processSegACK, placement, hst]

theorem intake_handleSegment {p : Placement}
    (hp : c.placement seg = some p) : (c.handleSegment now seg).intake = p.take c.recvBufCap seg c.intake := by
  have h := (handled now seg c).intake
  have hp' : (c.touch now).placement seg = some p := hp
  rw [hp'] at h
  exact h

theorem intake_handleSegment_of_none (hp : c.placement seg = none) :
    (c.handleSegment now seg).intake = c.intake := by
  have h := (handled now seg c).intake
  have hp' : (c.touch now).placement seg = none := hp
  rw [hp'] at h
  exact h

theorem agrees_placement_iff {p : Placement} (hp : c.placement seg = some p) :
    p.Agrees seg ↔ c.Straight seg := by
  have hdata : c.state ≠ .synReceived →
      (if c.takesACK seg then
        some (⟨false, seg.seq, if seg.hasFlag flagFIN then some (seg.seq + seg.dataLen) else none⟩ : Placement)
      else none) = some p → p.Agrees seg := by
    intro hst hp
    split at hp
    · rename_i ht
      cases hp
      have hsyn : seg.hasFlag flagSYN = false := (Passes.of_takesACK ht).syn.resolve_right hst
      refine (Placement.agrees_data seg).2 fun h => ?_
      cases h.symm.trans hsyn
    · cases hp
  unfold placement at hp
  unfold Straight
  split at hp
  · rename_i hst
    simp only [hst]
    split at hp
    · cases hp
      exact Placement.agrees_opening seg
    · cases hp
  · rename_i hst
    simp only [hst]
    split at hp
    · cases hp
      exact Placement.agrees_data seg
    · cases hp
  · rename_i hst
    simp only [hst, iff_true]
    exact hdata (by rw [hst]; decide) hp
  · rename_i hst
    simp only [hst, iff_true]
    exact hdata (by rw [hst]; decide) hp
  · rename_i hst
    simp only [hst, iff_true]
    exact hdata (by rw [hst]; decide) hp
  · cases hp

end Conn

namespace Host

open Transition

variable {σ : Type} [CongestionController σ]

/-- The segment that an event takes payload and FIN from, and where they are put. -/
def placement (h : Host σ) : Event → Option (Segment × Placement)
  | .segment _ seg => (h.conn.placement seg).map fun p => (seg, p)
  | .acceptSYN _ _ syn =>
    if h.conn.state = .closed ∨ h.conn.state = .listen then some (syn, ⟨true, syn.seq + 1, none⟩) else none
  | _ => none

/-- Payload and FIN land where `placement` says. These are the numbers that the segment itself gives them exactly if
it is straight. -/
theorem lands_at_numbers_iff {h h' : Host σ} {e : Event} {seg : Segment} {p : Placement} (hn : h.next e = some h')
    (hp : h.placement e = some (seg, p)) :
    h'.conn.intake = p.take h.conn.recvBufCap seg h.conn.intake ∧ (p.Agrees seg ↔ h.conn.Straight seg) := by
  cases e with
  | segment now s =>
    obtain ⟨q, hq, heq⟩ := Option.map_eq_some_iff.1 hp
    cases heq
    refine ⟨?_, Conn.agrees_placement_iff hq⟩
    rw [conn_segment hn]
    exact Conn.intake_handleSegment now hq
  | acceptSYN now iss syn =>
    simp only [placement] at hp
    split at hp
    · rename_i hst
      cases hp
      have hconn : h'.conn = { h.conn.acceptSYN now iss seg with outgoing := [] } := by
        rw [← Option.some.inj (apply_of_next hn).1]
        rfl
      constructor
      · rw [hconn]
        exact Conn.intake_acceptSYN now iss seg hst
      · rw [Placement.agrees_opening]
        unfold Conn.Straight
        rcases hst with hst | hst <;> simp only [hst]
    · cases hp
  | _ => cases hp

/-- A connection that another one calls while it is calling itself. -/
def crossing : Host SmallController :=
  (fresh {} 0).run
    [.connect 0 100, .segment 0 { srcPort := 0, dstPort := 0, seq := 700, flags := flagSYN, window := 1000 }]

/-- A SYN-ACK with payload that answers the SYN with number 100. -/
def fullSYNACK : Segment where
  srcPort := 0
  dstPort := 0
  seq := 700
  ack := 101
  flags := flagSYN ||| flagACK
  window := 1000
  payload := [1, 2]

/-- In SYN-SENT the payload of the SYN-ACK lands after the number of the SYN. -/
theorem lands_at_numbers_synSent :
    let h : Host SmallController := (fresh {} 0).run [.connect 0 100]
    (h.run [.segment 0 fullSYNACK]).conn.intake =
        Placement.take ⟨true, 701, none⟩ h.conn.recvBufCap fullSYNACK h.conn.intake ∧
      (Placement.Agrees ⟨true, 701, none⟩ fullSYNACK ↔ h.conn.Straight fullSYNACK) ∧
      (h.run [.segment 0 fullSYNACK]).conn.recvBuf.buf = [1, 2] := by
  intro h
  have hn : h.next (.segment 0 fullSYNACK) = some (h.run [.segment 0 fullSYNACK]) := next_run (by decide +kernel)
  have hp : h.placement (.segment 0 fullSYNACK) = some (fullSYNACK, ⟨true, 701, none⟩) := by decide +kernel
  obtain ⟨hin, hiff⟩ := lands_at_numbers_iff hn hp
  exact ⟨hin, hiff, by decide +kernel⟩

/-- In SYN-RECEIVED the payload of the same SYN-ACK is counted from the number of the SYN: its first byte counts as a
duplicate and is lost. -/
theorem lands_early_synReceived :
    (system SmallController).Reach anyStep crossing ∧ crossing.conn.state = .synReceived ∧
      crossing.next (.segment 0 fullSYNACK) = some (crossing.run [.segment 0 fullSYNACK]) ∧
      crossing.placement (.segment 0 fullSYNACK) = some (fullSYNACK, ⟨false, 700, none⟩) ∧
      ¬Placement.Agrees ⟨false, 700, none⟩ fullSYNACK ∧
      (crossing.run [.segment 0 fullSYNACK]).conn.recvBuf.buf = [2] := by
  refine ⟨run_reach (by decide +kernel) (execMeets_anyStep _ _ _), by decide +kernel, next_run (by decide +kernel),
    by decide +kernel, ?_, by decide +kernel⟩
  intro h
  exact absurd (h.1 0 (by decide)) (by decide)

end Host

end Libp2px.Vtcp
