import Libp2px.Vtcp.Assembly
import Libp2px.Vtcp.Bounds
import Libp2px.Vtcp.RightEdge
import Libp2px.Vtcp.Stream

/-!
# How much a receiver holds

`Insert` cuts a segment at `nxt + windowSize`, wherever `nxt` is, and `segmentAcceptable` measures the full capacity from
`nxt` on purpose: the bytes that wait for a `Read` do not count.  A peer that keeps to the free space that `Window`
reports never makes the buffer hold more than its size.  One that does not can add a full window after each `nxt`, and
nothing bounds what is held.

What a segment adds is at most its bytes between `nxt` and the right edge (`held_insert_le`): merging entries only
removes duplicates.
-/

namespace Libp2px.Vtcp

open Transition

namespace RecvBuf

def held (r : RecvBuf) : Nat := r.buf.length + heldBytes r.ooo

def fresh (r : RecvBuf) (seq : BitVec 32) (data : List Byte) : Nat :=
  data.length - (if seqBefore seq r.nxt then (r.nxt - seq).toNat else 0) -
    (if r.Overruns seq data then (seq + BitVec.ofNat 32 data.length - r.rightEdge).toNat else 0)

/-! ### Out-of-order entries -/

/-- The bytes that the loop of `insertOOO` has put together so far. -/
def OooAcc.bytes (a : OooAcc) : Nat := heldBytes a.merged + if a.inserted then 0 else a.data.length

theorem heldBytes_append (es fs : List OooEntry) : heldBytes (es ++ fs) = heldBytes es + heldBytes fs := by
  simp [heldBytes]

theorem heldBytes_cons (e : OooEntry) (es : List OooEntry) : heldBytes (e :: es) = e.data.length + heldBytes es := by
  simp [heldBytes]

theorem heldBytes_nil : heldBytes [] = 0 := rfl

theorem length_le_heldBytes {e : OooEntry} {es : List OooEntry} (he : e ∈ es) : e.data.length ≤ heldBytes es := by
  obtain ⟨fs, gs, rfl⟩ := List.append_of_mem he
  rw [heldBytes_append, heldBytes_cons]
  omega

theorem cut_le_cut {start seq stop : BitVec 32} (hlen : (stop - seq).toNat ≤ 2 ^ 31)
    (hbefore : seqBefore start seq = true) (hstart : ¬seqAfterEq start stop = true) :
    (seq - start).toNat ≤ (stop - start).toNat := by
  simp only [seqBefore, seqAfterEq, decide_eq_true_eq, not_le] at hbefore hstart
  obtain ⟨h1, h2⟩ := toNat_sub_of_before hbefore
  obtain ⟨h3, h4⟩ := toNat_sub_of_before hstart
  have hsum : (stop - start).toNat = ((stop - seq).toNat + (seq - start).toNat) % 2 ^ 32 := by
    rw [← BitVec.toNat_add]
    congr 1
    bv_omega
  omega

theorem extends_le {a : OooAcc} {e : OooEntry} (hlen : (a.endSeq - a.seq).toNat ≤ 2 ^ 31)
    (hbefore : seqBefore e.seq a.seq = true) (hstart : ¬seqAfterEq e.seq a.endSeq = true) :
    (e.data.take (a.seq - e.seq).toNat).length + (e.data.drop (a.endSeq - e.seq).toNat).length ≤ e.data.length := by
  have hcut := cut_le_cut hlen hbefore hstart
  rw [List.length_take, List.length_drop]
  omega

theorem insertOOOStep_held {a : OooAcc} {e : OooEntry} (hlen : (a.endSeq - a.seq).toNat ≤ 2 ^ 31)
    (he : e.data.length ≤ 2 ^ 31) :
    ((insertOOOStep a e).endSeq - (insertOOOStep a e).seq).toNat ≤ 2 ^ 31 ∧
      (insertOOOStep a e).bytes ≤ a.bytes + e.data.length := by
  have hentry : (e.endSeq - e.seq).toNat ≤ 2 ^ 31 := by
    have hsub : e.endSeq - e.seq = BitVec.ofNat 32 e.data.length := by
      unfold OooEntry.endSeq
      bv_omega
    rw [hsub, BitVec.toNat_ofNat]
    exact le_trans (Nat.mod_le _ _) he
  have hbytes : ∀ (m : List OooEntry) (seq stop : BitVec 32) (d : List Byte), m = a.merged →
      d.length ≤ a.data.length + e.data.length →
      (OooAcc.mk seq d stop m a.inserted).bytes ≤ a.bytes + e.data.length := by
    rintro m seq stop d rfl hd
    unfold OooAcc.bytes
    simp only
    split <;> omega
  unfold insertOOOStep
  split
  · -- the entry is after the piece
    split
    · rename_i hin
      refine ⟨hlen, ?_⟩
      simp only [OooAcc.bytes, hin, heldBytes_append, heldBytes_cons, heldBytes_nil, if_true]
      omega
    · rename_i hin
      refine ⟨hlen, ?_⟩
      simp only [OooAcc.bytes, hin, heldBytes_append, heldBytes_cons, heldBytes_nil, if_true, Bool.false_eq_true,
        if_false]
      omega
  · rename_i hstart
    split
    · -- the entry is before the piece
      refine ⟨hlen, ?_⟩
      simp only [OooAcc.bytes, heldBytes_append, heldBytes_cons, heldBytes_nil]
      omega
    · rename_i hend
      have hend' : (e.endSeq - a.seq).toNat ≤ 2 ^ 31 := by
        simp only [seqAfterEq, decide_eq_true_eq, not_le] at hend
        exact (toNat_sub_of_before hend).2
      have hstart' : (a.endSeq - e.seq).toNat ≤ 2 ^ 31 := by
        simp only [seqAfterEq, decide_eq_true_eq, not_le] at hstart
        exact (toNat_sub_of_before hstart).2
      by_cases hleft : seqBefore e.seq a.seq = true
      · have hext := extends_le hlen hleft hstart
        simp only [hleft, if_true]
        split
        · refine ⟨hentry, hbytes _ _ _ _ rfl ?_⟩
          simp only [List.length_append]
          omega
        · refine ⟨hstart', hbytes _ _ _ _ rfl ?_⟩
          simp only [List.length_append]
          omega
      · simp only [hleft, Bool.false_eq_true, if_false]
        split
        · refine ⟨hend', hbytes _ _ _ _ rfl ?_⟩
          simp only [List.length_append, List.length_drop]
          omega
        · exact ⟨hlen, hbytes _ _ _ _ rfl (Nat.le_add_right _ _)⟩

theorem foldl_insertOOOStep_held {es : List OooEntry} {a : OooAcc} (hlen : (a.endSeq - a.seq).toNat ≤ 2 ^ 31)
    (hes : ∀ e ∈ es, e.data.length ≤ 2 ^ 31) : (es.foldl insertOOOStep a).bytes ≤ a.bytes + heldBytes es := by
  induction es generalizing a with
  | nil => exact le_rfl
  | cons e es ih =>
    obtain ⟨hlen', hstep⟩ := insertOOOStep_held hlen (hes e (by simp))
    have hrest := ih hlen' fun e' he' => hes e' (by simp [he'])
    rw [List.foldl_cons, heldBytes_cons]
    omega

variable {r : RecvBuf} {data : List Byte}

theorem held_insertOOO_le (seq : BitVec 32) (hsize : r.held + data.length ≤ 2 ^ 31) :
    (insertOOO r seq data).held ≤ r.held + data.length := by
  have hlen : (seq + BitVec.ofNat 32 data.length - seq).toNat ≤ 2 ^ 31 := by
    have hsub : seq + BitVec.ofNat 32 data.length - seq = BitVec.ofNat 32 data.length := by bv_omega
    rw [hsub, BitVec.toNat_ofNat]
    exact le_trans (Nat.mod_le _ _) (by omega)
  have hes : ∀ e ∈ r.ooo, e.data.length ≤ 2 ^ 31 := by
    intro e he
    have := length_le_heldBytes he
    unfold held at hsize
    omega
  have hfold := foldl_insertOOOStep_held
    (a := { seq := seq, data := data, endSeq := seq + BitVec.ofNat 32 data.length }) hlen hes
  have hstart : OooAcc.bytes { seq := seq, data := data, endSeq := seq + BitVec.ofNat 32 data.length } = data.length :=
    Nat.zero_add _
  rw [hstart] at hfold
  unfold held insertOOO
  simp only
  unfold OooAcc.bytes at hfold
  split
  · rename_i hin
    rw [if_pos hin] at hfold
    omega
  · rename_i hin
    rw [if_neg hin] at hfold
    simp only [heldBytes_append, heldBytes_cons, heldBytes_nil]
    omega

/-! ### What a segment adds -/

theorem held_mergeOOO_le (r : RecvBuf) : r.mergeOOO.held ≤ r.held := mergeLoop_held _ r

theorem held_place_le (seq endSeq : BitVec 32)
    (hsize : r.held + data.length ≤ 2 ^ 31) : (place r seq data endSeq).1.held ≤ r.held + data.length := by
  unfold place
  split
  · refine le_trans (held_mergeOOO_le _) ?_
    unfold held
    simp only [List.length_append]
    omega
  · split
    · exact held_insertOOO_le seq hsize
    · exact Nat.le_add_right _ _

theorem held_trimRight_le {d : List Byte} (start seq : BitVec 32) (data : List Byte)
    {n : Nat} (hsize : r.held + n ≤ 2 ^ 31)
    (hn : d.length -
      (if r.Overruns seq data then (seq + BitVec.ofNat 32 data.length - r.rightEdge).toNat else 0) ≤ n) :
    (trimRight r start d (seq + BitVec.ofNat 32 data.length)).1.held ≤ r.held + n := by
  unfold trimRight
  simp only
  split
  · rename_i hover
    have hover' : r.Overruns seq data := hover
    rw [if_pos hover'] at hn
    split
    · exact Nat.le_add_right _ _
    · rename_i hbeyond
      have hlen : (d.take (BitVec.ofNat 32 d.length -
          (seq + BitVec.ofNat 32 data.length - (r.nxt + BitVec.ofNat 32 r.windowSize))).toNat).length ≤ n := by
        have hmod := Nat.mod_le d.length (2 ^ 32)
        rw [List.length_take, BitVec.toNat_sub_of_le (BitVec.le_of_lt (BitVec.not_le.1 hbeyond)), BitVec.toNat_ofNat]
        unfold rightEdge at hn
        omega
      exact le_trans (held_place_le _ _ (by omega)) (by omega)
  · rename_i hover
    have hover' : ¬r.Overruns seq data := hover
    rw [if_neg hover'] at hn
    exact le_trans (held_place_le _ _ (by omega)) (by omega)

theorem held_insert_le {seq : BitVec 32} (hsize : r.held + r.fresh seq data ≤ 2 ^ 31) :
    (r.insert seq data).1.held ≤ r.held + r.fresh seq data := by
  unfold insert
  split
  · exact Nat.le_add_right _ _
  · simp only
    split
    · rename_i hbefore
      split
      · exact Nat.le_add_right _ _
      · refine held_trimRight_le _ seq data hsize ?_
        rw [fresh, if_pos hbefore, List.length_drop]
    · rename_i hbefore
      refine held_trimRight_le _ seq data hsize ?_
      rw [fresh, if_neg hbefore, Nat.sub_zero]

theorem held_insert_of_fits {seq : BitVec 32} (hpos : 0 < r.windowSize)
    (hmax : r.windowSize ≤ 2 ^ 31) (hheld : r.held ≤ r.windowSize) (hfits : r.fresh seq data ≤ r.window.toNat) :
    (r.insert seq data).1.held ≤ r.windowSize := by
  have hwindow : r.window.toNat = r.windowSize - r.held := by
    have hused : r.held = r.buf.length + (r.ooo.map fun e => e.data.length).sum := rfl
    unfold window
    simp only
    rw [if_neg (by omega), ← hused, if_neg (by omega), BitVec.toNat_ofNat, Nat.mod_eq_of_lt (by omega)]
  have hadd : (r.insert seq data).1.held ≤ r.held + r.fresh seq data := held_insert_le (by omega)
  omega

theorem held_read_le (r : RecvBuf) (n : Nat) : (r.read n).1.held ≤ r.held := by
  unfold held read
  simp only [List.length_drop]
  omega

end RecvBuf

theorem Intake.held_fin (num : BitVec 32) (x : Intake) : (x.fin num).recvBuf.held = x.recvBuf.held := by
  unfold Intake.fin
  split <;> rfl

theorem Intake.held_data (first : BitVec 32) (payload : List Byte) (x : Intake) :
    (x.data first payload).recvBuf.held = (x.recvBuf.insert first payload).1.held := by
  unfold Intake.data
  split
  · rename_i hnil
    rw [hnil]
    rfl
  · simp only
    split <;> rfl

def Placement.target (p : Placement) (size : Nat) (seg : Segment) (r : RecvBuf) : RecvBuf :=
  if p.opens then newRecvBuf (seg.seq + 1) size else r

theorem Placement.held_take (p : Placement) (size : Nat) (seg : Segment) (x : Intake) :
    (p.take size seg x).recvBuf.held = ((p.target size seg x.recvBuf).insert p.dataAt seg.payload).1.held := by
  unfold Placement.take Placement.target
  split
  · rfl
  · simp only
    split
    · rw [Intake.held_fin, Intake.held_data]
    · rw [Intake.held_data]

theorem Conn.recvBuf_acceptCookie {σ : Type} (remoteSeq ourISS : BitVec 32) (mss : BitVec 16) (data : List Byte)
    {c : Conn σ} (hst : c.state = .closed ∨ c.state = .listen) :
    (c.acceptCookie remoteSeq ourISS mss data).recvBuf =
      ((newRecvBuf remoteSeq c.recvBufCap).insert remoteSeq data).1 := by
  obtain ⟨m, kt, pt, pb, hcookie⟩ := acceptCookie_frame remoteSeq ourISS mss data hst
  rw [hcookie]
  rfl

namespace Host

variable {σ : Type} [CongestionController σ]

def payloadIn (h : Host σ) : Event → Option (RecvBuf × BitVec 32 × List Byte)
  | .segment _ seg =>
    (h.conn.placement seg).map fun p => (p.target h.conn.recvBufCap seg h.conn.recvBuf, p.dataAt, seg.payload)
  | .acceptSYN _ _ syn =>
    if h.conn.state = .closed ∨ h.conn.state = .listen then
      some (newRecvBuf (syn.seq + 1) h.conn.recvBufCap, syn.seq + 1, syn.payload)
    else none
  | .acceptCookie remoteSeq _ _ data =>
    if h.conn.state = .closed ∨ h.conn.state = .listen then
      some (newRecvBuf remoteSeq h.conn.recvBufCap, remoteSeq, data)
    else none
  | _ => none

/-- Of the payload no more lies between `nxt` and the right edge of the window than the free space that `Window`
reports. -/
def Fits (h : Host σ) (e : Event) : Prop :=
  h.conn.recvBufCap ≤ 2 ^ 31 ∧ ∀ x ∈ h.payloadIn e, x.1.fresh x.2.1 x.2.2 ≤ x.1.window.toNat

instance (h : Host σ) (e : Event) : Decidable (h.Fits e) := inferInstanceAs (Decidable (_ ∧ _))

variable {e : Event}

theorem held_payloadIn {h h' : Host σ} {r : RecvBuf} {seq : BitVec 32} {data : List Byte}
    (hn : h.next e = some h') (hin : h.payloadIn e = some (r, seq, data)) :
    h'.conn.recvBuf.held = (r.insert seq data).1.held := by
  cases e with
  | segment now seg =>
    obtain ⟨p, hp, heq⟩ := Option.map_eq_some_iff.1 hin
    cases heq
    have htake := Conn.intake_handleSegment now hp
    rw [conn_segment hn]
    exact (congrArg (fun x : Intake => x.recvBuf.held) htake).trans (p.held_take _ seg h.conn.intake)
  | acceptSYN now iss syn =>
    simp only [payloadIn] at hin
    split at hin
    · rename_i hst
      cases hin
      rw [← Option.some.inj (apply_of_next hn).1]
      exact congrArg (fun x : Intake => x.recvBuf.held) (Conn.intake_acceptSYN now iss syn hst)
    · cases hin
  | acceptCookie remoteSeq ourISS mss initial =>
    simp only [payloadIn] at hin
    split at hin
    · rename_i hst
      cases hin
      rw [← Option.some.inj (apply_of_next hn).1]
      exact congrArg RecvBuf.held (Conn.recvBuf_acceptCookie seq ourISS mss data hst)
    · cases hin
  | _ => cases hin

theorem held_of_no_payload {h h' : Host σ} (hn : h.next e = some h') (hin : h.payloadIn e = none) :
    h'.conn.recvBuf.held ≤ h.conn.recvBuf.held := by
  have hrest : (∀ now seg, e ≠ .segment now seg) → (∀ now iss syn, e ≠ .acceptSYN now iss syn) →
      (∀ seq iss mss data, e ≠ .acceptCookie seq iss mss data) → h'.conn.recvBuf.held ≤ h.conn.recvBuf.held := by
    intro hseg hsyn hcookie
    refine (next_core hn).induction (I := fun s => s.recvBuf.held ≤ h.conn.recvBuf.held) ?_ ?_
    · cases e <;> exact le_rfl
    · intro s t hs hst
      cases hst with
      | connect | setup => exact Nat.zero_le _
      | acceptSYN _ he => exact absurd he (hsyn _ _ _)
      | acceptCookie _ _ he => exact absurd he (hcookie _ _ _ _)
      | synAckIn he | synIn he | insert he | finIn he | finDeferred he => exact absurd he (hseg _ _)
      | read => exact le_trans (RecvBuf.held_read_le _ _) hs
      | _ => exact hs
  cases e with
  | segment now seg =>
    have hkeep := Conn.intake_handleSegment_of_none now (Option.map_eq_none_iff.1 hin)
    rw [conn_segment hn]
    exact le_of_eq (congrArg (fun x : Intake => x.recvBuf.held) hkeep)
  | acceptSYN now iss syn =>
    simp only [payloadIn] at hin
    split at hin
    · cases hin
    · rename_i hst
      rw [← Option.some.inj (apply_of_next hn).1]
      have hsame : h.conn.acceptSYN now iss syn = h.conn := if_pos (not_or.1 hst)
      simp only [finish, hsame]
      exact le_rfl
  | acceptCookie remoteSeq ourISS mss initial =>
    simp only [payloadIn] at hin
    split at hin
    · cases hin
    · rename_i hst
      rw [← Option.some.inj (apply_of_next hn).1]
      have hsame : h.conn.acceptCookie remoteSeq ourISS mss initial = h.conn := if_pos (not_or.1 hst)
      simp only [finish, hsame]
      exact le_rfl
  | _ => exact hrest (fun _ _ he => by cases he) (fun _ _ _ he => by cases he) (fun _ _ _ _ he => by cases he)

theorem payloadIn_sized {P : Host σ → Event → Prop} {h : Host σ} {r : RecvBuf} {seq : BitVec 32}
    {data : List Byte} (hr : (system σ).Reach P h) (hheld : h.conn.recvBuf.held ≤ h.conn.recvBufCap)
    (hin : h.payloadIn e = some (r, seq, data)) :
    r.windowSize = h.conn.recvBufCap ∧ r.held ≤ h.conn.recvBufCap := by
  cases e with
  | segment now seg =>
    obtain ⟨p, hp, heq⟩ := Option.map_eq_some_iff.1 hin
    cases heq
    unfold Placement.target
    split
    · exact ⟨rfl, Nat.zero_le _⟩
    · rename_i hopens
      refine ⟨windowSize_eq hr ?_, hheld⟩
      by_contra ho
      have hclosed : h.conn.state = .closed := (send_inv hr).1.unopened (Bool.eq_false_of_not_eq_true ho)
      unfold Conn.placement at hp
      rw [hclosed] at hp
      cases hp
  | acceptSYN now iss syn =>
    simp only [payloadIn] at hin
    split at hin
    · cases hin
      exact ⟨rfl, Nat.zero_le _⟩
    · cases hin
  | acceptCookie remoteSeq ourISS mss initial =>
    simp only [payloadIn] at hin
    split at hin
    · cases hin
      exact ⟨rfl, Nat.zero_le _⟩
    · cases hin
  | _ => cases hin

theorem held_next {P : Host σ → Event → Prop} {h h' : Host σ} (hr : (system σ).Reach P h)
    (hpos : 0 < h.conn.recvBufCap) (hheld : h.conn.recvBuf.held ≤ h.conn.recvBufCap) (hfits : h.Fits e)
    (hn : h.next e = some h') : h'.conn.recvBuf.held ≤ h.conn.recvBufCap := by
  cases hin : h.payloadIn e with
  | none => exact le_trans (held_of_no_payload hn hin) hheld
  | some x =>
    obtain ⟨r, seq, data⟩ := x
    obtain ⟨hsize, hroom⟩ := payloadIn_sized hr hheld hin
    have hfit := hfits.2 _ hin
    rw [held_payloadIn hn hin, ← hsize]
    exact RecvBuf.held_insert_of_fits (by rw [hsize]; exact hpos) (by rw [hsize]; exact hfits.1)
      (by rw [hsize]; exact hroom) hfit

/-- As long as the peer keeps to the free space that `Window` reports, a connection never holds more received bytes
than the size of its receive buffer. -/
theorem receive_memory_bounded {cfg : ConnConfig} {now : Int} {h : Host σ}
    (hrun : (system σ).Steps Fits (fresh cfg now) h) : h.conn.recvBuf.held ≤ cfg.effRecvBuf := by
  have hpos : 0 < cfg.effRecvBuf := by
    unfold ConnConfig.effRecvBuf
    split
    · omega
    · decide
  have hinv : (system σ).Reach Fits h ∧ h.conn.recvBufCap = cfg.effRecvBuf ∧
      h.conn.recvBuf.held ≤ cfg.effRecvBuf := by
    refine hrun.induction (I := fun g => (system σ).Reach Fits g ∧ g.conn.recvBufCap = cfg.effRecvBuf ∧
      g.conn.recvBuf.held ≤ cfg.effRecvBuf) ⟨System.Reach.init ⟨cfg, now, rfl⟩, rfl, Nat.zero_le _⟩ ?_
    rintro g e g' ⟨hr, hcap, hheld⟩ hfits hn
    refine ⟨hr.step hfits hn, (recvBufCap_next hn).trans hcap, ?_⟩
    rw [← hcap] at hpos hheld ⊢
    exact held_next hr hpos hheld hfits hn
  exact hinv.2.2

/-- Five bytes for a buffer of eight, a `Read` of three, then two pieces of two bytes, the later one first. -/
theorem receive_memory_bounded_read :
    let h : Host SmallController := (fresh { recvBufSize := 8 } 0).run
      (opening ++ [dataFrom 701 5, .read 1 3, dataFrom 708 2, dataFrom 706 2])
    h.conn.recvBuf.held = 6 ∧ h.conn.recvBuf.held ≤ 8 := by
  intro h
  have hrun : (system SmallController).Steps Fits (fresh { recvBufSize := 8 } 0) h :=
    run_steps (by decide +kernel) (by decide +kernel)
  exact ⟨by decide +kernel, receive_memory_bounded hrun⟩

/-- Nobody reads, and a peer that ignores the window puts 16 bytes into a buffer of eight. -/
theorem receive_memory_exceeded :
    let h : Host SmallController := (fresh { recvBufSize := 8 } 0).run (opening ++ [dataFrom 701 8, dataFrom 709 8])
    (system SmallController).Reach anyStep h ∧ h.conn.state = .established ∧ h.conn.recvBufCap = 8 ∧
      h.conn.recvBuf.held = 16 := by
  exact ⟨run_reach (by decide +kernel) (execMeets_anyStep _ _ _), by decide +kernel, by decide +kernel,
    by decide +kernel⟩

end Host

end Libp2px.Vtcp
