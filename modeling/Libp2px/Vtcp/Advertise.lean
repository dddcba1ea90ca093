import Libp2px.Vtcp.Handshake
import Libp2px.Vtcp.Window

/-!
# Advertised windows

What the window field of a segment says about the receive buffer of its sender, and what the peer makes of it.  A segment
that acknowledges something is built after the shifts have been exchanged: its window is scaled down by the sender and
up by the receiver, and never exceeds the free space.  The window of a bare SYN is not scaled down, but a simultaneous
open scales it up.
-/

namespace Libp2px.Vtcp

open Transition

/-! ### The window field -/

theorem toNat_window_shiftLeft (w : BitVec 16) {k : Nat} (hk : k ≤ 14) :
    ((w.zeroExtend 32) <<< k).toNat = w.toNat * 2 ^ k := by
  have hw := w.isLt
  have hpow : 2 ^ k ≤ 2 ^ 14 := Nat.pow_le_pow_right (by decide) hk
  have hlt : w.toNat * 2 ^ k < 2 ^ 32 := by
    calc w.toNat * 2 ^ k < 2 ^ 16 * 2 ^ k := Nat.mul_lt_mul_of_pos_right hw (Nat.two_pow_pos k)
      _ ≤ 2 ^ 16 * 2 ^ 14 := Nat.mul_le_mul_left _ hpow
      _ < 2 ^ 32 := by decide
  have hmod : w.toNat % 2 ^ 32 = w.toNat := Nat.mod_eq_of_lt (by omega)
  rw [BitVec.toNat_shiftLeft, BitVec.zeroExtend, BitVec.toNat_setWidth, hmod, Nat.shiftLeft_eq, Nat.mod_eq_of_lt hlt]

theorem scaled_le_iff {w space k : Nat} (hw : w = 0 ∨ w = min 65535 space) :
    w * 2 ^ k ≤ space ↔ w = 0 ∨ k = 0 ∨ 65535 * 2 ^ k ≤ space := by
  rcases hw with rfl | hw
  · simp
  · rcases Nat.eq_zero_or_pos k with rfl | hk
    · simp only [pow_zero, Nat.mul_one, true_or, or_true, iff_true]
      omega
    · have htwo : 2 ≤ 2 ^ k := Nat.le_self_pow (by omega) 2
      by_cases hs : space < 65535
      · have hws : w = space := by omega
        constructor
        · intro h
          left
          by_contra hne
          have : w * 2 ≤ w * 2 ^ k := Nat.mul_le_mul_left w htwo
          omega
        · rintro (h | h | h)
          · rw [h]
            omega
          · omega
          · have : 65535 * 1 ≤ 65535 * 2 ^ k := Nat.mul_le_mul_left _ (by omega)
            omega
      · have hws : w = 65535 := by omega
        rw [hws]
        constructor
        · intro h
          exact .inr (.inr h)
        · rintro (h | h | h)
          · omega
          · omega
          · exact h

namespace Core

/-- The threshold of the silly-window rule: a smaller free space is advertised as none. -/
def swsThresh (s : Core) : Nat :=
  let size := if s.recvBufCap > 0 then s.recvBufCap else defaultRecvBuf
  if size / 2 < s.mss then size / 2 else s.mss

def openSpace (s : Core) : Nat := if s.freeSpace < s.swsThresh then 0 else s.freeSpace

def windowShift (s : Core) : Nat := if s.wscaleOK then s.rcvWndShift else 0

theorem openSpace_le (s : Core) : s.openSpace ≤ s.freeSpace := by
  unfold openSpace
  split <;> omega

theorem toNat_rcvWindow (s : Core) : s.rcvWindow.toNat = min 65535 (s.openSpace / 2 ^ s.windowShift) := by
  have hshift : (if s.wscaleOK then s.openSpace >>> s.rcvWndShift else s.openSpace) =
      s.openSpace / 2 ^ s.windowShift := by
    unfold windowShift
    split
    · exact Nat.shiftRight_eq_div_pow _ _
    · simp
  show (BitVec.ofNat 16 (if (if s.wscaleOK then s.openSpace >>> s.rcvWndShift else s.openSpace) > 65535 then 65535
    else if s.wscaleOK then s.openSpace >>> s.rcvWndShift else s.openSpace)).toNat = _
  rw [hshift, BitVec.toNat_ofNat]
  split <;> omega

variable {s : Core}

theorem rcvWindow_scaled (hws : s.wscaleOK = true) :
    s.rcvWindow.toNat * 2 ^ s.rcvWndShift ≤ s.freeSpace := by
  have hshift : s.windowShift = s.rcvWndShift := if_pos hws
  rw [toNat_rcvWindow, hshift]
  calc min 65535 (s.openSpace / 2 ^ s.rcvWndShift) * 2 ^ s.rcvWndShift
      ≤ s.openSpace / 2 ^ s.rcvWndShift * 2 ^ s.rcvWndShift := Nat.mul_le_mul_right _ (Nat.min_le_right _ _)
    _ ≤ s.openSpace := Nat.div_mul_le_self _ _
    _ ≤ s.freeSpace := s.openSpace_le

theorem rcvWindow_unscaled (hws : s.wscaleOK = false) :
    s.rcvWindow = 0 ∨ s.rcvWindow.toNat = min 65535 s.freeSpace := by
  have hshift : s.windowShift = 0 := if_neg (by rw [hws]; decide)
  have hw := toNat_rcvWindow s
  rw [hshift, pow_zero, Nat.div_one] at hw
  unfold openSpace at hw
  split at hw
  · left
    apply BitVec.eq_of_toNat_eq
    rw [hw]
    rfl
  · exact .inr hw

/-! ### The packets of one end -/

structure WindowReport (cfg : ConnConfig) (p : Packet) : Prop where
  scaled : p.seg.hasFlag flagRST = false → p.seg.hasFlag flagACK = true →
    p.seg.window.toNat * 2 ^ cfg.wndShift ≤ p.space
  bare : p.seg.hasFlag flagSYN = true → p.seg.hasFlag flagACK = false →
    p.seg.window = 0 ∨ p.seg.window.toNat = min 65535 p.space
  wscale : p.seg.hasFlag flagSYN = true → getWScale p.seg.options = some (BitVec.ofNat 8 cfg.wndShift)

/-- One end: it scales its windows down exactly from the time on when it knows the shift of its peer. -/
structure ScaleInv (me peer : ConnConfig) (s : Core) : Prop where
  unopened : s.opened = false → s.state = .closed
  wndShift : s.rcvWndShift = me.wndShift
  early : s.opened = false ∨ s.state = .synSent → s.wscaleOK = false
  late : s.state.synchronized = true → s.wscaleOK = true ∧ s.sndWndShift = peer.wndShift
  reports : ∀ p ∈ s.emitted, WindowReport me p

def PeerScale (peer : ConnConfig) : Event → Prop
  | .segment _ seg => seg.hasFlag flagSYN = true → getWScale seg.options = some (BitVec.ofNat 8 peer.wndShift)
  | .acceptSYN _ _ seg => getWScale seg.options = some (BitVec.ofNat 8 peer.wndShift)
  | .acceptCookie _ _ _ _ => False
  | .setupForHandshake _ => False
  | _ => True

variable {me peer : ConnConfig}

theorem IsSyn.getWScale {seg : Segment} (h : IsSyn s seg) :
    Vtcp.getWScale seg.options = some (BitVec.ofNat 8 s.rcvWndShift) := by
  obtain ⟨ts, hopts⟩ := h.options
  rw [hopts]
  rfl

theorem windowReport_syn {s t : Core} {seg : Segment} (h : IsSyn t seg) (hrep : s.Reports seg)
    (hshift : t.rcvWndShift = me.wndShift) (hws : s.wscaleOK = false) (hflag : seg.hasFlag flagACK = false) (x : Nat) :
    WindowReport me ⟨seg, x, s.freeSpace⟩ := by
  refine ⟨?_, ?_, ?_⟩
  · intro _ hack
    cases hflag.symm.trans hack
  · intro _ _
    rw [hrep.window h.rst]
    exact rcvWindow_unscaled hws
  · intro _
    rw [h.getWScale, hshift]

theorem windowReport_synAck {s t : Core} {seg : Segment} (h : IsSyn t seg) (hrep : s.Reports seg)
    (hshift : t.rcvWndShift = me.wndShift) (hshift' : s.rcvWndShift = me.wndShift) (hws : s.wscaleOK = true)
    (hflag : seg.hasFlag flagACK = true) (x : Nat) : WindowReport me ⟨seg, x, s.freeSpace⟩ := by
  refine ⟨?_, ?_, ?_⟩
  · intro _ _
    rw [hrep.window h.rst, ← hshift']
    exact rcvWindow_scaled hws
  · intro _ hno
    cases hflag.symm.trans hno
  · intro _
    rw [h.getWScale, hshift]

theorem windowReport_queues {p : Packet} (h : s.Queues p) (hshift : s.rcvWndShift = me.wndShift)
    (hws : p.seg.hasFlag flagRST = false → s.wscaleOK = true) : WindowReport me p := by
  refine ⟨?_, ?_, ?_⟩
  · intro hrst _
    rw [h.reports.window hrst, h.space, ← hshift]
    exact rcvWindow_scaled (hws hrst)
  · intro hsyn
    cases h.syn.symm.trans hsyn
  · intro hsyn
    cases h.syn.symm.trans hsyn

theorem negotiate_scale {opts : List TcpOption} (ho : Vtcp.getWScale opts = some (BitVec.ofNat 8 peer.wndShift)) :
    (s.negotiate opts).wscaleOK = true ∧ (s.negotiate opts).sndWndShift = peer.wndShift := by
  have hle := peer.wndShift_le
  refine ⟨by simp [negotiate, ho], ?_⟩
  simp only [negotiate, ho, BitVec.toNat_ofNat]
  rw [Nat.mod_eq_of_lt (by omega), if_neg (by omega)]

theorem ScaleInv.step {e : Event} {o : Occasion} {s t : Core} (h : ScaleInv me peer s) (hsend : s.SendInv)
    (hst : CoreStep e o s t) (hp : PeerScale peer e) (honce : s.OpensOnce e) : ScaleInv me peer t := by
  have hun := hst.unopened h.unopened
  have hopen : s.state ≠ .closed → s.opened = true := by
    intro hs
    by_contra ho
    exact hs (h.unopened (by simpa using ho))
  rcases handshake_cases hst with hk | hstep
  · -- the step has nothing to do with the handshake
    obtain ⟨-, -, -, hws, hshift⟩ := hk.negotiated
    refine ⟨hun, hk.switches.1.trans h.wndShift, ?_, ?_, ?_⟩
    · rw [hk.numbers.1, hws]
      rintro (ho | hs)
      · exact h.early (.inl ho)
      · rcases hk.state with hst | ⟨hne, -⟩
        · exact h.early (.inr (hst ▸ hs))
        · exact absurd hs hne
    · rw [hws, hshift]
      intro hs
      refine h.late ?_
      rcases hk.state with hst | ⟨-, -, hag⟩
      · exact hst ▸ hs
      · exact hag hs
    · intro p hp
      rcases hk.emitted p hp with hold | hnew
      · exact h.reports p hold
      · refine windowReport_queues hnew h.wndShift fun hrst => ?_
        rcases hnew.late with hlate | hlate | ⟨hbuf, hlive⟩
        · cases hrst.symm.trans hlate
        · exact (h.late hlate).1
        · -- data is buffered only from ESTABLISHED on
          refine (h.late ?_).1
          by_contra hsync
          refine hbuf (hsend.buf_eq_nil hlive ?_)
          revert hsync
          cases s.state <;> decide
  cases hstep with
  | @connect now iss syn cap he hs hsyn hseq hrep hflag =>
    have ho := honce.unopened (by rw [he]; rfl) (.inl hs)
    have hws := h.early (.inl ho)
    refine ⟨hun, h.wndShift, fun _ => hws, (fun hs => by cases hs), ?_⟩
    intro p hp
    rcases List.mem_append.1 hp with hp | hp
    · exact h.reports p hp
    · rw [List.mem_singleton] at hp
      rw [hp]
      exact windowReport_syn hsyn hrep h.wndShift hws hflag _
  | @acceptSYN now iss seg syn cap he hs hsyn hseq hrep hflag =>
    rw [he] at hp
    obtain ⟨hws, hshift⟩ := negotiate_scale (s := s) hp
    refine ⟨hun, h.wndShift, ?_, fun _ => ⟨hws, hshift⟩, ?_⟩
    · rintro (ho | hs) <;> cases ‹_›
    · intro p hp
      rcases List.mem_append.1 hp with hp | hp
      · exact h.reports p hp
      · rw [List.mem_singleton] at hp
        rw [hp]
        exact windowReport_synAck hsyn hrep h.wndShift h.wndShift hws hflag _
  | acceptCookie he => rw [he] at hp; exact hp.elim
  | setup he => rw [he] at hp; exact hp.elim
  | @synIn _ now seg he hs hsyn ht hneg hnxt =>
    rw [he] at hp
    obtain ⟨hws, hshift⟩ := negotiate_scale (s := s) (hp hsyn)
    have hop : t.opened = true := by
      rw [hneg]
      exact hopen (by rw [hs]; decide)
    refine ⟨hun, by rw [hneg]; exact h.wndShift, ?_, fun _ => by rw [hneg]; exact ⟨hws, hshift⟩, ?_⟩
    · rintro (ho | hst)
      · cases hop.symm.trans ho
      · rcases ht with ht | ⟨ht, -⟩ <;> cases ht.symm.trans hst
    · intro p hp
      rw [hneg] at hp
      exact h.reports p hp
  | @syn seg hs hsyn hseq hrep hflag =>
    refine ⟨hun, h.wndShift, h.early, h.late, ?_⟩
    intro p hp
    rcases List.mem_append.1 hp with hp | hp
    · exact h.reports p hp
    · rw [List.mem_singleton] at hp
      rw [hp]
      rcases hs with hs | hs
      · exact windowReport_syn hsyn hrep h.wndShift (h.early (.inr hs)) (by rw [hflag, hs]; rfl) _
      · exact windowReport_synAck hsyn hrep h.wndShift h.wndShift (h.late (by rw [hs]; rfl)).1 (by rw [hflag, hs]; rfl) _

end Core

set_option linter.unusedSectionVars false

variable {σ : Type} [CongestionController σ]

open CongestionController

/-! ### What the peer makes of a window -/

namespace Conn

def takesWindow (seg : Segment) (c : Conn σ) : Bool :=
  match c.state with
  | .synSent =>
    seg.hasFlag flagSYN && !seg.hasFlag flagRST &&
      (!seg.hasFlag flagACK || !seqBeforeEq seg.ack c.sendBuf.una && !seqAfter seg.ack c.sendBuf.nxt)
  | .synReceived =>
    (c.segmentAcceptable seg || c.synRcvdOK seg) && !seg.hasFlag flagRST && seg.hasFlag flagACK &&
      decide (seg.ack = c.sendBuf.nxt)
  | _ => c.takesACK seg

/-- The shift that `HandleSegment` scales the window of a segment up by: a SYN in SYN-SENT brings it along. -/
def segShift (seg : Segment) (c : Conn σ) : Nat :=
  match c.state, getWScale seg.options with
  | .synSent, some ws => if ws.toNat > 14 then 14 else ws.toNat
  | _, _ => c.sndWndShift

variable {seg : Segment} {c : Conn σ}

theorem sndWnd_processSegACK (now : Int) (hack : seg.hasFlag flagACK = true) :
    (processSegACK now seg c).sndWnd = c.scaledWindow seg := by
  rw [processSegACK_of_ack now hack, (processACK_frame now seg.ack seg.options c).1]
  rfl

theorem sndWnd_handleDataState (now : Int) (hack : seg.hasFlag flagACK = true) :
    (handleDataState now seg c).sndWnd = if c.pawsOK seg.options then c.scaledWindow seg else c.sndWnd := by
  by_cases hp : c.pawsOK seg.options = true
  · obtain ⟨ts, hts⟩ := recordTimestamp_eq seg.options c
    have hwnd := sndWnd_processSegACK (c := c.recordTimestamp seg.options) now hack
    rw [if_pos hp, handleDataState_eq now hp]
    generalize processSegACK now seg (c.recordTimestamp seg.options) = d at hwnd
    have hsame := (sameSending_dataAndFIN seg d).sndWnd
    have hscaled : (c.recordTimestamp seg.options).scaledWindow seg = c.scaledWindow seg := by
      rw [hts]
      rfl
    split
    · exact hsame.trans (hwnd.trans hscaled)
    · exact hsame.trans (hwnd.trans hscaled)
  · rw [if_neg hp, handleDataState, if_pos (by simpa using hp)]
    rfl

theorem sndWnd_completeActiveOpen (now : Int) (seg : Segment) (c : Conn σ) :
    (completeActiveOpen now seg c).sndWnd = c.scaledWindow seg := by
  obtain ⟨rc, hopen⟩ := completeActiveOpen_frame now seg c
  rw [hopen, flushSendQueue_frame]
  rfl

theorem sndWnd_handleDataState_passive (now : Int) (hack : seg.hasFlag flagACK = true) :
    (handleDataState now seg (completePassiveOpen seg c)).sndWnd = c.scaledWindow seg := by
  rw [sndWnd_handleDataState now hack, completePassiveOpen_eq]
  exact ite_self _

theorem Passes.of_takesWindow (hsync : c.state.synchronized = true)
    (ht : c.takesWindow seg = true) : c.Passes seg := by
  unfold takesWindow at ht
  split at ht
  · rename_i hst
    rw [hst] at hsync
    cases hsync
  · rename_i hst
    simp only [Bool.and_eq_true, Bool.not_eq_true'] at ht
    obtain ⟨⟨⟨hacc, hrst⟩, hack⟩, -⟩ := ht
    exact ⟨hacc, hrst, .inr hst, hack⟩
  · exact .of_takesACK ht

theorem takesWindow_synSent (seg : Segment) (hst : c.state = .synSent) : c.takesWindow seg = (seg.hasFlag flagSYN &&
    !seg.hasFlag flagRST &&
      (!seg.hasFlag flagACK || !seqBeforeEq seg.ack c.sendBuf.una && !seqAfter seg.ack c.sendBuf.nxt)) := by
  unfold takesWindow
  rw [hst]

theorem Leaves.takesWindow (h : c.Leaves seg) : c.takesWindow seg = false := by
  unfold Conn.takesWindow
  split
  · rename_i hst
    exact h.syn hst
  · rename_i hst
    by_contra ht
    simp only [Bool.not_eq_false, Bool.and_eq_true, Bool.not_eq_true', decide_eq_true_eq] at ht
    obtain ⟨⟨⟨hacc, hrst⟩, hack⟩, hnxt⟩ := ht
    exact h.passive hst ⟨hacc, hrst, .inr hst, hack⟩ hnxt
  · exact h.ack

theorem segShift_of_synchronized (hsync : c.state.synchronized = true) (seg : Segment) :
    c.segShift seg = c.sndWndShift := by
  unfold segShift
  split
  · rename_i hst _
    rw [hst] at hsync
    cases hsync
  · rfl

theorem scaledWindow_negotiateOptions (seg : Segment) (hst : c.state = .synSent) :
    (negotiateOptions seg.options (narrowMSS seg.options c)).scaledWindow seg =
      (seg.window.zeroExtend 32) <<< c.segShift seg := by
  obtain ⟨ts, -, h⟩ := negotiate_eq seg.options c
  rw [h]
  unfold segShift scaledWindow
  rw [hst]
  cases getWScale seg.options <;> rfl

theorem sndWnd_handleSegment (now : Int) (seg : Segment) (c : Conn σ) :
    (c.handleSegment now seg).sndWnd =
      if c.takesWindow seg then (seg.window.zeroExtend 32) <<< c.segShift seg else c.sndWnd := by
  have htouch : (c.touch now).takesWindow seg = c.takesWindow seg := rfl
  have hkeep {d : Conn σ} (ht : (c.touch now).Leaves seg) (hd : d.sndWnd = c.sndWnd) : d.sndWnd =
      if c.takesWindow seg then (seg.window.zeroExtend 32) <<< c.segShift seg else c.sndWnd := by
    rw [← htouch, ht.takesWindow, hd]
    rfl
  have htake {d : Conn σ} (ht : c.takesWindow seg = true) (hsync : c.state.synchronized = true)
      (hd : d.sndWnd = c.scaledWindow seg) : d.sndWnd =
      if c.takesWindow seg then (seg.window.zeroExtend 32) <<< c.segShift seg else c.sndWnd := by
    rw [if_pos ht, segShift_of_synchronized hsync, hd]
    rfl
  have h := handled now seg c
  generalize c.handleSegment now seg = d at h ⊢
  cases h with
  | ignored ht | answered ht | refused ht | closing ht | timeWait ht | lastAck ht => exact hkeep ht rfl
  | reset ht =>
    rw [resetTeardown_frame]
    exact hkeep ht rfl
  | refusedOpen ht =>
    rw [safeCloseFinRecvd_frame]
    exact hkeep ht rfl
  | synAck hst hsyn hrst hack hlo hhi =>
    have ht : c.takesWindow seg = true := by
      rw [← htouch, takesWindow_synSent seg hst, hsyn, hrst, hack, hlo, hhi]
      rfl
    rw [if_pos ht, sndWnd_completeActiveOpen]
    exact scaledWindow_negotiateOptions seg hst
  | syn hst hsyn hrst hack =>
    have ht : c.takesWindow seg = true := by
      rw [← htouch, takesWindow_synSent seg hst, hsyn, hrst, hack]
      rfl
    rw [if_pos ht]
    exact scaledWindow_negotiateOptions seg hst
  | passive hst hp hack =>
    have hst' : c.state = .synReceived := hst
    refine htake ?_ (by rw [hst']; rfl) (sndWnd_handleDataState_passive now hp.ack)
    rw [← htouch, Conn.takesWindow, hst, hp.acceptable, hp.rst, hp.ack, hack]
    simp
  | data hst hp ht hpaws =>
    have hst' : c.state = .established ∨ c.state = .finWait1 ∨ c.state = .finWait2 := hst
    refine htake ?_ (by rcases hst' with h | h | h <;> rw [h] <;> rfl) ?_
    · rw [← htouch, Conn.takesWindow]
      rcases hst with h | h | h <;> rw [h] <;> exact ht
    · rw [sndWnd_handleDataState now hp.ack, if_pos hpaws]
      rfl
  | closeWait hst hp ht =>
    have hst' : c.state = .closeWait := hst
    refine htake ?_ (by rw [hst']; rfl) (sndWnd_processSegACK now hp.ack)
    rw [← htouch, Conn.takesWindow, hst]
    exact ht

end Conn

/-! ### Two ends -/

namespace Network

structure ScaleInv (cfg : Side → ConnConfig) (n : Network σ) : Prop where
  syn : ∀ s, (n.endpoint s).syn = none
  ends : ∀ s, Core.ScaleInv (cfg s) (cfg s.other) (n.host s).core

variable {cfg : Side → ConnConfig}

theorem ScaleInv.windowReport {n : Network σ} (h : ScaleInv cfg n)
    (hsent : ∀ s, (n.host s).core.emitted = (n.host s).sent) {s : Side} {p : Packet}
    (hp : p ∈ (n.endpoint s.other).inFlight) : Core.WindowReport (cfg s.other) p := by
  refine (h.ends s.other).reports p ?_
  rw [hsent]
  rw [Endpoint.inFlight, h.syn s.other] at hp
  exact hp

theorem ScaleInv.peerScale {n : Network σ} (h : ScaleInv cfg n)
    (hsent : ∀ s, (n.host s).core.emitted = (n.host s).sent) {a : Action} (hal : n.allows a = true)
    (hP : n.ConnectOrAccept a) : Core.PeerScale (cfg a.side.other) a.event := by
  cases a with
  | call s e =>
    cases e with
    | segment | acceptSYN | acceptCookie | setupForHandshake => cases hal
    | _ => trivial
  | deliver s now p => exact (h.windowReport hsent (of_decide_eq_true hal)).wscale
  | accept s now iss p =>
    simp only [allows, Bool.and_eq_true, decide_eq_true_eq] at hal
    exact (h.windowReport hsent hal.1.1.1).wscale hal.1.1.2
  | setup => exact hP.elim

theorem ScaleInv.step {n n' : Network σ} {a : Action} (h : ScaleInv cfg n)
    (hr : ∀ s, (Host.system σ).Reach anyStep (n.host s)) (hP : n.ConnectOrAccept a) (hn : n.next a = some n') :
    ScaleInv cfg n' := by
  obtain ⟨hal, hstep, hsyn, hother⟩ := of_next hn
  have hscale := h.peerScale (fun s => Host.emitted_core (hr s)) hal hP
  have hend : Core.ScaleInv (cfg a.side) (cfg a.side.other) (n'.host a.side).core := by
    have hinv := h.ends a.side
    have honce := opensOnce hal
    refine (Host.next_induction (hr a.side) hstep
      (I := fun s => Core.ScaleInv (cfg a.side) (cfg a.side.other) s ∧ s.OpensOnce a.event) ?_ ?_).1
    · revert honce
      cases a.event <;>
        exact fun honce => ⟨{ hinv with }, honce⟩
    · rintro s t hsend ⟨hs, ho⟩ hst
      exact ⟨hs.step hsend hst hscale ho, hst.opensOnce ho⟩
  refine ⟨?_, ?_⟩
  · intro s
    rcases Side.eq_or_eq_other a.side s with rfl | rfl
    · have hsynA : synAfter (n.endpoint a.side) a = (n.endpoint a.side).syn := by
        cases a with
        | setup => exact hP.elim
        | _ => rfl
      rw [hsyn, hsynA, h.syn]
    · rw [hother, h.syn]
  · intro s
    rcases Side.eq_or_eq_other a.side s with rfl | rfl
    · exact hend
    · have hhost : n'.host a.side.other = n.host a.side.other := by rw [host, host, hother]
      rw [hhost]
      exact h.ends _

theorem scale_inv {n : Network σ} (hr : (system σ cfg).Reach ConnectOrAccept n) :
    ScaleInv cfg n := by
  refine hr.invariant (I := ScaleInv cfg) ?_ ?_
  · intro m hm
    refine ⟨fun s => ?_, fun s => ?_⟩
    · obtain ⟨now, hnow⟩ := hm s
      rw [hnow]
    · obtain ⟨now, hnow⟩ := hm s
      rw [host, hnow]
      exact ⟨fun _ => rfl, rfl, fun _ => rfl, (fun hs => by cases hs), fun p hp => by cases hp⟩
  · intro m a m' hm ih hP hn
    exact ih.step (fun s => reach_host hm s fun _ _ _ _ => trivial) hP hn

/-- The window that a segment sets is within the free space that the peer had when it built the segment, except after
a simultaneous open with a peer that scales its windows: the SYN carries its window unscaled. -/
theorem window_within_space_iff {n n' : Network σ} {s : Side} {now : Int} {p : Packet}
    (hr : (system σ cfg).Reach ConnectOrAccept n) (hn : n.next (.deliver s now p) = some n')
    (ht : (n.conn s).takesWindow p.seg = true) :
    (n'.conn s).sndWnd.toNat ≤ p.space ↔
      ((n.conn s).state = .synSent → p.seg.hasFlag flagACK = false →
        p.seg.window = 0 ∨ (cfg s.other).wndShift = 0 ∨ 65535 * 2 ^ (cfg s.other).wndShift ≤ p.space) := by
  have hinv := scale_inv hr
  obtain ⟨hal, hstep, -, -⟩ := of_next hn
  have hrep := hinv.windowReport
    (fun s => Host.emitted_core (reach_host hr s (Q := anyStep) fun _ _ _ _ => trivial)) (of_decide_eq_true hal)
  have hle := (cfg s.other).wndShift_le
  -- in every state the window is scaled up by the shift of the peer
  have hshift : (n.conn s).segShift p.seg = (cfg s.other).wndShift ∧ p.seg.hasFlag flagRST = false ∧
      ((n.conn s).state = .synSent ∧ p.seg.hasFlag flagSYN = true ∨
        (n.conn s).state ≠ .synSent ∧ p.seg.hasFlag flagACK = true) := by
    by_cases hst : (n.conn s).state = .synSent
    · unfold Conn.takesWindow at ht
      rw [hst] at ht
      simp only [Bool.and_eq_true, Bool.not_eq_true'] at ht
      obtain ⟨⟨hsyn, hrst⟩, -⟩ := ht
      refine ⟨?_, hrst, .inl ⟨hst, hsyn⟩⟩
      unfold Conn.segShift
      rw [hst, hrep.wscale hsyn]
      simp only [BitVec.toNat_ofNat]
      rw [Nat.mod_eq_of_lt (by omega), if_neg (by omega)]
    · have hsync : (n.conn s).state.synchronized = true := by
        by_contra hsync
        unfold Conn.takesWindow Conn.takesACK at ht
        revert hst hsync ht
        cases (n.conn s).state <;> simp [State.synchronized]
      obtain ⟨-, hrst, -, hack⟩ := Conn.Passes.of_takesWindow hsync ht
      refine ⟨?_, hrst, .inr ⟨hst, hack⟩⟩
      rw [Conn.segShift_of_synchronized hsync]
      exact ((hinv.ends s).late hsync).2
  obtain ⟨hshift, hrst, hcases⟩ := hshift
  have hwnd : (n'.conn s).sndWnd.toNat = p.seg.window.toNat * 2 ^ (cfg s.other).wndShift := by
    have hconn : (n'.host s).conn = _ := Host.conn_segment hstep
    have hw := Conn.sndWnd_handleSegment now p.seg (n.conn s)
    rw [if_pos ht, hshift] at hw
    rw [conn, hconn]
    show ((n.conn s).handleSegment now p.seg).sndWnd.toNat = _
    rw [hw, toNat_window_shiftLeft _ hle]
  rw [hwnd]
  by_cases hack : p.seg.hasFlag flagACK = true
  · refine ⟨?_, fun _ => hrep.scaled hrst hack⟩
    intro _ _ hno
    cases hack.symm.trans hno
  · have hack' : p.seg.hasFlag flagACK = false := by simpa using hack
    rcases hcases with ⟨hst, hsyn⟩ | ⟨-, h⟩
    · have hzero : p.seg.window.toNat = 0 ↔ p.seg.window = 0 := BitVec.toNat_eq (y := 0) |>.symm
      rw [scaled_le_iff ((hrep.bare hsyn hack').imp_left hzero.2), hzero]
      exact ⟨fun h _ _ => h, fun h => h hst hack'⟩
    · exact absurd h hack

end Network

def simultaneousConnect : List Network.Action := [.call .left (.connect 0 100), .call .right (.connect 0 700)]

def simultaneousSYN : Packet where
  seg := { srcPort := 0, dstPort := 0, seq := 700, flags := flagSYN, window := 65535
           options := [mssOption 500, wscaleOption 5, sackPermOption, timestampOption 0 0] }
  pos := 0
  space := 1048576

/-- The SYN-ACK of the right end when it has accepted the SYN of the left one. -/
def acceptedSYNACK : Packet where
  seg := { srcPort := 0, dstPort := 0, seq := 700, ack := 101, flags := flagSYN ||| flagACK, window := 32768
           options := [mssOption 500, wscaleOption 5, sackPermOption, timestampOption 0 0] }
  pos := 0
  space := 1048576

theorem window_within_space_synAck :
    let n := (Network.fresh unequalConfigs 0 : Network SmallController).run (repeatedSYN.take 3)
    ((n.run [.deliver .left 3 acceptedSYNACK]).conn .left).sndWnd.toNat ≤ acceptedSYNACK.space := by
  have hr : (Network.system SmallController unequalConfigs).Reach Network.ConnectOrAccept
      ((Network.fresh unequalConfigs 0).run (repeatedSYN.take 3)) :=
    Network.run_reach (by decide +kernel) (by decide +kernel)
  refine (Network.window_within_space_iff hr (Network.next_run (by decide +kernel)) (by decide +kernel)).2 ?_
  intro _ hno
  cases hno

/-- After a simultaneous open the peer is taken to have more room than its whole buffer. -/
theorem window_beyond_space :
    let n := (Network.fresh unequalConfigs 0 : Network SmallController).run simultaneousConnect
    simultaneousSYN ∈ (n.endpoint .right).inFlight ∧ (n.conn .left).takesWindow simultaneousSYN.seg = true ∧
      simultaneousSYN.space < ((n.run [.deliver .left 1 simultaneousSYN]).conn .left).sndWnd.toNat := by
  decide +kernel

end Libp2px.Vtcp
