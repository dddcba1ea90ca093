import Libp2px.Vtcp.Network

/-!
# Agreement of the handshake

Whatever happens to the segments of the handshake, each end takes the options of exactly one SYN of the other end, and
every SYN an end sends says the same, except that its MSS may already be the smaller one.  So the two ends agree on
everything they negotiate.
-/

namespace Libp2px.Vtcp

open Transition

/-- The window shift that `NewConn` chooses. -/
def ConnConfig.wndShift (cfg : ConnConfig) : Nat := if cfg.noWindowScaling then 0 else autoWndShift cfg.effRecvBuf

theorem ConnConfig.wndShift_le (cfg : ConnConfig) : cfg.wndShift ≤ 14 := by
  unfold wndShift autoWndShift
  split
  · exact Nat.zero_le _
  · generalize hf : (List.range 15).find? (fun s => cfg.effRecvBuf >>> s ≤ 65535) = r
    cases r with
    | none => exact le_rfl
    | some s =>
      have hmem := List.mem_range.1 (List.mem_of_find?_eq_some hf)
      simp only [Option.getD_some]
      omega

theorem ConnConfig.effMSS_pos (cfg : ConnConfig) : 0 < cfg.effMSS := by
  unfold effMSS
  split
  · omega
  · decide

/-! ### The options of a SYN -/

structure SynOptions (me peer : ConnConfig) (opts : List TcpOption) : Prop where
  mss : (getMSS opts).toNat = me.effMSS ∨ (getMSS opts).toNat = min me.effMSS peer.effMSS
  wscale : getWScale opts = some (BitVec.ofNat 8 me.wndShift)
  sack : hasSACKPerm opts = me.enableSACK
  ts : (getTimestamp opts).isSome = me.enableTimestamps

theorem uint16_putUint16 (x : BitVec 16) : uint16 (putUint16 x) = x := by
  have hx := x.isLt
  apply BitVec.eq_of_toNat_eq
  simp only [uint16, putUint16, List.getD_cons_zero, List.getD_cons_succ, BitVec.toNat_ofNat]
  omega

namespace Core

variable {me peer : ConnConfig} {s : Core} {seg : Segment}

theorem IsSyn.synOptions (h : IsSyn s seg) (hws : s.rcvWndShift = me.wndShift) (hsack : s.sackEnabled = me.enableSACK)
    (hts : s.tsEnabled = me.enableTimestamps) (hmss : s.mss = me.effMSS ∨ s.mss = min me.effMSS peer.effMSS)
    (hmax : me.effMSS ≤ 65535) : SynOptions me peer seg.options := by
  obtain ⟨ts, hopts⟩ := h.options
  have hlt : s.mss < 2 ^ 16 := by omega
  have hget : (getMSS seg.options).toNat = s.mss := by
    rw [hopts]
    show (uint16 (putUint16 (BitVec.ofNat 16 s.mss))).toNat = s.mss
    rw [uint16_putUint16, BitVec.toNat_ofNat, Nat.mod_eq_of_lt hlt]
  refine ⟨?_, ?_, ?_, ?_⟩
  · rw [hget]
    exact hmss
  · rw [hopts, ← hws]
    rfl
  · rw [hopts, hsack]
    cases me.enableSACK <;> cases s.tsEnabled <;> rfl
  · rw [hopts, hts]
    cases me.enableTimestamps <;> cases s.sackEnabled <;> rfl

/-! ### One end -/

/-- The states of a connection that has taken the options of its peer. -/
def agrees (st : State) : Bool := !(st == .closed || st == .listen || st == .synSent)

/-- What an end has taken from its peer, whose initial sequence number is `irs`. -/
structure Agreed (me peer : ConnConfig) (irs : Option (BitVec 32)) (s : Core) : Prop where
  irs : irs = some (s.recvBuf.initialNxt - 1)
  mss : s.mss = min me.effMSS peer.effMSS
  sackOK : s.sackOK = (me.enableSACK && peer.enableSACK)
  tsOK : s.tsOK = (me.enableTimestamps && peer.enableTimestamps)
  wscaleOK : s.wscaleOK = true
  sndWndShift : s.sndWndShift = peer.wndShift

/-- One end of a handshake: its switches are as configured, its SYNs carry them and its initial number, and it has
taken nothing of its peer, or what it agreed upon. -/
structure HandshakeInv (me peer : ConnConfig) (irs : Option (BitVec 32)) (s : Core) : Prop where
  unopened : s.opened = false → s.state = .closed
  wndShift : s.rcvWndShift = me.wndShift
  sackEnabled : s.sackEnabled = me.enableSACK
  tsEnabled : s.tsEnabled = me.enableTimestamps
  una : s.state = .synSent ∨ s.state = .synReceived → s.sendBuf.una = s.iss
  fresh : s.opened = false ∨ s.state = .synSent → s.mss = me.effMSS ∧ s.sackOK = false ∧ s.tsOK = false
  syns : ∀ p ∈ s.emitted, p.seg.hasFlag flagSYN = true →
    s.opened = true ∧ p.seg.seq = s.iss ∧ SynOptions me peer p.seg.options
  agreed : agrees s.state = true → Agreed me peer irs s

def PeerSyn (me peer : ConnConfig) (irs : Option (BitVec 32)) : Event → Prop
  | .segment _ seg => seg.hasFlag flagSYN = true → irs = some seg.seq ∧ SynOptions peer me seg.options
  | .acceptSYN _ _ seg => irs = some seg.seq ∧ SynOptions peer me seg.options
  | .acceptCookie _ _ _ _ => False
  | .setupForHandshake _ => False
  | _ => True

variable {irs : Option (BitVec 32)}

theorem negotiate_agreed {opts : List TcpOption} (ho : SynOptions peer me opts) (hsack : s.sackEnabled = me.enableSACK)
    (hts : s.tsEnabled = me.enableTimestamps) (hfresh : s.mss = me.effMSS ∧ s.sackOK = false ∧ s.tsOK = false) :
    (s.negotiate opts).mss = min me.effMSS peer.effMSS ∧
      (s.negotiate opts).sackOK = (me.enableSACK && peer.enableSACK) ∧
      (s.negotiate opts).tsOK = (me.enableTimestamps && peer.enableTimestamps) ∧
      (s.negotiate opts).wscaleOK = true ∧ (s.negotiate opts).sndWndShift = peer.wndShift := by
  obtain ⟨hmss, hs, ht⟩ := hfresh
  have hme := me.effMSS_pos
  have hpeer := peer.effMSS_pos
  refine ⟨?_, ?_, ?_, ?_, ?_⟩
  · simp only [negotiate, hmss]
    rcases ho.mss with h | h <;> rw [h] <;> split <;> omega
  · simp [negotiate, hs, hsack, ho.sack]
  · simp [negotiate, ht, hts, ho.ts]
  · simp [negotiate, ho.wscale]
  · have hle := peer.wndShift_le
    simp only [negotiate, ho.wscale, BitVec.toNat_ofNat]
    rw [Nat.mod_eq_of_lt (by omega), if_neg (by omega)]

/-- A queued segment without SYN reports the state, and is a reset, or the state is a synchronized one, or there is
data to send. -/
structure Queues (s : Core) (p : Packet) : Prop where
  syn : p.seg.hasFlag flagSYN = false
  space : p.space = s.freeSpace
  reports : s.Reports p.seg
  late : p.seg.hasFlag flagRST = true ∨ s.state.synchronized = true ∨
    s.sendBuf.buf ≠ [] ∧ (s.closed = false ∨ s.state ≠ .closed)

structure KeepsHandshake (s t : Core) : Prop where
  switches : t.rcvWndShift = s.rcvWndShift ∧ t.sackEnabled = s.sackEnabled ∧ t.tsEnabled = s.tsEnabled
  negotiated : t.mss = s.mss ∧ t.sackOK = s.sackOK ∧ t.tsOK = s.tsOK ∧ t.wscaleOK = s.wscaleOK ∧
    t.sndWndShift = s.sndWndShift
  numbers : t.opened = s.opened ∧ t.iss = s.iss ∧ t.recvBuf.initialNxt = s.recvBuf.initialNxt
  una : t.state = .synSent ∨ t.state = .synReceived → t.sendBuf.una = s.sendBuf.una
  state : t.state = s.state ∨
    t.state ≠ .synSent ∧ t.state ≠ .synReceived ∧ (agrees t.state = true → agrees s.state = true)
  emitted : ∀ p ∈ t.emitted, p ∈ s.emitted ∨ s.Queues p

variable {s t : Core} {e : Event}

theorem Agreed.congr (h : Agreed me peer irs s) (hirs : t.recvBuf.initialNxt = s.recvBuf.initialNxt)
    (hneg : t.mss = s.mss ∧ t.sackOK = s.sackOK ∧ t.tsOK = s.tsOK ∧ t.wscaleOK = s.wscaleOK ∧
      t.sndWndShift = s.sndWndShift) : Agreed me peer irs t := by
  obtain ⟨h1, h2, h3, h4, h5⟩ := hneg
  exact ⟨by rw [hirs]; exact h.irs, h1.trans h.mss, h2.trans h.sackOK, h3.trans h.tsOK, h4.trans h.wscaleOK,
    h5.trans h.sndWndShift⟩

theorem HandshakeInv.keeps (h : HandshakeInv me peer irs s)
    (hun : t.opened = false → t.state = .closed) (hk : KeepsHandshake s t) : HandshakeInv me peer irs t := by
  obtain ⟨hsw1, hsw2, hsw3⟩ := hk.switches
  obtain ⟨hop, hiss, hirs⟩ := hk.numbers
  have hneg := hk.negotiated
  refine ⟨hun, hsw1.trans h.wndShift, hsw2.trans h.sackEnabled, hsw3.trans h.tsEnabled, ?_, ?_, ?_, ?_⟩
  · intro hs
    rw [hk.una hs, hiss]
    rcases hk.state with hst | ⟨h1, h2, -⟩
    · exact h.una (hst ▸ hs)
    · exact absurd hs (not_or.2 ⟨h1, h2⟩)
  · intro hs
    rw [hneg.1, hneg.2.1, hneg.2.2.1]
    refine h.fresh ?_
    rcases hs with hs | hs
    · exact .inl (hop ▸ hs)
    · rcases hk.state with hst | ⟨h1, -, -⟩
      · exact .inr (hst ▸ hs)
      · exact absurd hs h1
  · intro p hp hsyn
    rcases hk.emitted p hp with hold | hnew
    · rw [hop, hiss]
      exact h.syns p hold hsyn
    · cases hnew.syn.symm.trans hsyn
  · intro hs
    refine (h.agreed ?_).congr hirs hneg
    rcases hk.state with hst | ⟨-, -, h3⟩
    · exact hst ▸ hs
    · exact h3 hs

theorem mem_emit {s : Core} {seg : Segment} {p : Packet} (hp : p ∈ (s.emit seg).emitted) :
    p ∈ s.emitted ∨ p.seg = seg := by
  rcases List.mem_append.1 hp with hp | hp
  · exact .inl hp
  · rw [List.mem_singleton] at hp
    exact .inr (by rw [hp])

theorem keepsHandshake_consumeFIN (s : Core) : KeepsHandshake s s.consumeFIN := by
  unfold consumeFIN
  simp only
  split
  · rename_i ha
    refine ⟨⟨rfl, rfl, rfl⟩, ⟨rfl, rfl, rfl, rfl, rfl⟩, ⟨rfl, rfl, rfl⟩, fun _ => rfl, .inr ?_, fun p hp => .inl hp⟩
    simp only [awaitsFIN, Bool.or_eq_true, beq_iff_eq] at ha
    have hag : agrees s.state = true := by
      rcases ha with (ha | ha) | ha <;> rw [ha] <;> rfl
    refine ⟨?_, ?_, fun _ => hag⟩
    all_goals
      show afterFIN _ s.state ≠ _
      rcases ha with (ha | ha) | ha <;> rw [ha] <;> simp only [afterFIN] <;> try split
      all_goals decide
  · exact ⟨⟨rfl, rfl, rfl⟩, ⟨rfl, rfl, rfl, rfl, rfl⟩, ⟨rfl, rfl, rfl⟩, fun _ => rfl, .inl rfl, fun p hp => .inl hp⟩

inductive HandshakeStep (e : Event) : Core → Core → Prop
  | connect {s : Core} {now iss syn} (cap : Nat) (he : e = .connect now iss) (hs : s.state = .closed)
      (hsyn : IsSyn s syn) (hseq : syn.seq = iss) (hrep : ((s.openBufs cap iss 0 1).setState .synSent).Reports syn)
      (hflag : syn.hasFlag flagACK = false) : HandshakeStep e s (((s.openBufs cap iss 0 1).setState .synSent).emit syn)
  | acceptSYN {s : Core} {now iss seg syn} (cap : Nat) (he : e = .acceptSYN now iss seg)
      (hs : s.state = .closed ∨ s.state = .listen) (hsyn : IsSyn (s.negotiate seg.options) syn) (hseq : syn.seq = iss)
      (hrep : (((s.negotiate seg.options).openBufs cap iss (seg.seq + 1) 1).setState .synReceived).Reports syn)
      (hflag : syn.hasFlag flagACK = true) :
      HandshakeStep e s (((((s.negotiate seg.options).openBufs cap iss (seg.seq + 1) 1).setState .synReceived).emit
        syn).insert (seg.seq + 1) seg.payload)
  | acceptCookie {s t : Core} {remoteSeq ourISS mss data} (he : e = .acceptCookie remoteSeq ourISS mss data) :
      HandshakeStep e s t
  | setup {s t : Core} {iss} (he : e = .setupForHandshake iss) : HandshakeStep e s t
  | synIn {s t : Core} {now seg} (he : e = .segment now seg) (hs : s.state = .synSent)
      (hsyn : seg.hasFlag flagSYN = true)
      (ht : t.state = .established ∨ t.state = .synReceived ∧ t.sendBuf = s.sendBuf)
      (hneg : t = { s.negotiate seg.options with
        state := t.state, entered := t.entered, sendBuf := t.sendBuf, recvBuf := t.recvBuf })
      (hnxt : t.recvBuf.initialNxt = seg.seq + 1) : HandshakeStep e s t
  | syn {s : Core} {seg} (hs : s.state = .synSent ∨ s.state = .synReceived) (hsyn : IsSyn s seg)
      (hseq : seg.seq = s.sendBuf.una) (hrep : s.Reports seg)
      (hflag : seg.hasFlag flagACK = decide (s.state = .synReceived)) : HandshakeStep e s (s.emit seg)

theorem Queues.emit {s : Core} {seg : Segment} (hsyn : seg.hasFlag flagSYN = false) (hrep : s.Reports seg)
    (hlate : seg.hasFlag flagRST = true ∨ s.state.synchronized = true ∨
      s.sendBuf.buf ≠ [] ∧ (s.closed = false ∨ s.state ≠ .closed)) :
    ∀ p ∈ (s.emit seg).emitted, p ∈ s.emitted ∨ s.Queues p := by
  intro p hp
  rcases List.mem_append.1 hp with hp | hp
  · exact .inl hp
  · rw [List.mem_singleton] at hp
    rw [hp]
    exact .inr ⟨hsyn, rfl, hrep, hlate⟩

theorem KeepsHandshake.of_eq
    (ht : t = { s with state := t.state, entered := t.entered, closed := t.closed, established := t.established
                       finRecvd := t.finRecvd, sendBuf := t.sendBuf, recvBuf := t.recvBuf
                       finPending := t.finPending, pendingFinSeq := t.pendingFinSeq, accepted := t.accepted
                       returned := t.returned, emitted := t.emitted, received := t.received })
    (hirs : t.recvBuf.initialNxt = s.recvBuf.initialNxt)
    (huna : t.state = .synSent ∨ t.state = .synReceived → t.sendBuf.una = s.sendBuf.una)
    (hstate : t.state = s.state ∨
      t.state ≠ .synSent ∧ t.state ≠ .synReceived ∧ (agrees t.state = true → agrees s.state = true))
    (hem : ∀ p ∈ t.emitted, p ∈ s.emitted ∨ s.Queues p) : KeepsHandshake s t := by
  refine ⟨?_, ?_, ?_, huna, hstate, hem⟩
  · rw [ht]
    exact ⟨rfl, rfl, rfl⟩
  · rw [ht]
    exact ⟨rfl, rfl, rfl, rfl, rfl⟩
  · refine ⟨?_, ?_, hirs⟩ <;> rw [ht]

theorem handshake_cases {o : Occasion} (h : CoreStep e o s t) :
    KeepsHandshake s t ∨ HandshakeStep e s t := by
  have hold : ∀ p ∈ s.emitted, p ∈ s.emitted ∨ s.Queues p := fun p hp => .inl hp
  cases h with
  | connect cap he hs hsyn hseq hrep hflag => exact .inr (.connect cap he hs hsyn hseq hrep hflag)
  | acceptSYN cap he hs hsyn hseq hrep hflag => exact .inr (.acceptSYN cap he hs hsyn hseq hrep hflag)
  | acceptCookie cap m he => exact .inr (.acceptCookie he)
  | setup cap he => exact .inr (.setup he)
  | synAckIn he hs hsyn =>
    exact .inr (.synIn he hs hsyn (.inl rfl) rfl (RecvBuf.insert_extends _ _ _).initialNxt)
  | synIn he hs hsyn =>
    exact .inr (.synIn he hs hsyn (.inr ⟨rfl, rfl⟩) rfl (RecvBuf.insert_extends _ _ _).initialNxt)
  | syn hs hsyn hseq hrep hflag => exact .inr (.syn hs hsyn hseq hrep hflag)
  | synRcvdAck he hs =>
    refine .inl (.of_eq rfl rfl ?_ (.inr ⟨?_, ?_, ?_⟩) hold)
    · rintro (hs | hs) <;> cases hs
    · simp [setState]
    · simp [setState]
    · intro _
      rw [hs]
      rfl
  | finIn => exact .inl (keepsHandshake_consumeFIN s)
  | finDeferred =>
    have hk := keepsHandshake_consumeFIN s
    exact .inl { hk with }
  | control hc hrep hs =>
    exact .inl (.of_eq rfl rfl (fun _ => rfl) (.inl rfl) (Queues.emit hc.syn hrep (hs.imp And.left fun h => .inl h.2)))
  | chunk hs hp hd hrep =>
    refine .inl (.of_eq rfl rfl (fun _ => rfl) (.inl rfl) (Queues.emit hd.syn hrep (.inr (.inr ⟨?_, hs⟩))))
    intro hnil
    rw [SendBuf.pending, hnil] at hp
    simp at hp
    omega
  | rexmit hs _ hdata hd hrep =>
    refine .inl (.of_eq rfl rfl (fun _ => rfl) (.inl rfl) (Queues.emit hd.syn hrep (.inr (.inr ⟨?_, hs⟩))))
    intro hnil
    have hlen := (SendBuf.retransmitData_length hdata).2
    rw [hnil] at hlen
    exact hd.nonempty (List.length_eq_zero_iff.1 (Nat.le_zero.1 hlen))
  | refin _ _ hs _ hf hrep =>
    refine .inl (.of_eq rfl rfl (fun _ => rfl) (.inl rfl) (Queues.emit hf.syn hrep (.inr (.inl ?_))))
    rcases hs with hs | hs <;> rw [hs] <;> rfl
  | fin _ _ hs _ hf hrep =>
    refine .inl (.of_eq rfl rfl (fun _ => rfl) (.inr ?_) (Queues.emit hf.syn hrep (.inr (.inl ?_))))
    · rcases hs with ⟨hs, rfl⟩ | ⟨hs, rfl⟩ | ⟨hs, rfl⟩ <;> rw [hs] <;>
        exact ⟨by simp [emit, setState], by simp [emit, setState], fun _ => rfl⟩
    · rcases hs with ⟨hs, -⟩ | ⟨hs, -⟩ | ⟨hs, -⟩ <;> rw [hs] <;> rfl
  | ack _ hs =>
    refine .inl (.of_eq rfl rfl ?_ (.inl rfl) hold)
    intro hs'
    have hs'' : s.state = .synSent ∨ s.state = .synReceived := hs'
    rcases hs'' with h' | h' <;> rw [h'] at hs <;> cases hs
  | sack => exact .inl (.of_eq rfl rfl (fun _ => SendBuf.markSACKed_una _ _) (.inl rfl) hold)
  | write =>
    refine .inl (.of_eq rfl rfl (fun _ => ?_) (.inl rfl) hold)
    simp only [SendBuf.write_eq]
  | insert =>
    exact .inl (.of_eq rfl (RecvBuf.insert_extends _ _ _).initialNxt (fun _ => rfl) (.inl rfl) hold)
  | finAcked _ hs | closingAcked _ hs =>
    refine .inl (.of_eq rfl rfl (fun _ => rfl) (.inr ?_) hold)
    rw [hs]
    exact ⟨by simp [setState], by simp [setState], fun _ => rfl⟩
  | shut =>
    refine .inl (.of_eq rfl rfl (fun _ => rfl) (.inr ?_) hold)
    exact ⟨by simp [Core.shut, setState], by simp [Core.shut, setState], fun ha => by cases ha⟩
  | establish | finDefer | read => exact .inl (.of_eq rfl rfl (fun _ => rfl) (.inl rfl) hold)

theorem HandshakeInv.take {opts : List TcpOption} {seq : BitVec 32} (h : HandshakeInv me peer irs s)
    (hfresh : s.opened = false ∨ s.state = .synSent) (hopts : irs = some seq ∧ SynOptions peer me opts)
    (hsw : t.rcvWndShift = s.rcvWndShift ∧ t.sackEnabled = s.sackEnabled ∧ t.tsEnabled = s.tsEnabled)
    (hneg : t.mss = (s.negotiate opts).mss ∧ t.sackOK = (s.negotiate opts).sackOK ∧
      t.tsOK = (s.negotiate opts).tsOK ∧ t.wscaleOK = (s.negotiate opts).wscaleOK ∧
      t.sndWndShift = (s.negotiate opts).sndWndShift)
    (hnums : t.opened = true ∧ t.recvBuf.initialNxt = seq + 1) (hst : t.state ≠ .synSent)
    (huna : t.state = .synReceived → t.sendBuf.una = t.iss)
    (hsyns : ∀ p ∈ t.emitted, p.seg.hasFlag flagSYN = true →
      p.seg.seq = t.iss ∧ SynOptions me peer p.seg.options) : HandshakeInv me peer irs t := by
  obtain ⟨hsw1, hsw2, hsw3⟩ := hsw
  obtain ⟨n1, n2, n3, n4, n5⟩ := negotiate_agreed hopts.2 h.sackEnabled h.tsEnabled (h.fresh hfresh)
  obtain ⟨t1, t2, t3, t4, t5⟩ := hneg
  have hopened : t.opened = false → t.state = .closed := by
    intro ho
    cases hnums.1.symm.trans ho
  refine ⟨hopened, hsw1.trans h.wndShift, hsw2.trans h.sackEnabled, hsw3.trans h.tsEnabled, ?_, ?_, ?_, ?_⟩
  · rintro (hs | hs)
    · exact absurd hs hst
    · exact huna hs
  · rintro (hs | hs)
    · cases hnums.1.symm.trans hs
    · exact absurd hs hst
  · intro p hp hsyn
    exact ⟨hnums.1, hsyns p hp hsyn⟩
  · intro _
    refine ⟨?_, t1.trans n1, t2.trans n2, t3.trans n3, t4.trans n4, t5.trans n5⟩
    rw [hopts.1, hnums.2, BitVec.add_sub_cancel]

theorem OpensOnce.unopened {s : Core} (honce : s.OpensOnce e) (he : e.opens = true)
    (hs : s.state = .closed ∨ s.state = .listen) : s.opened = false := by
  by_contra ho
  have hne := honce he (by simpa using ho)
  exact absurd hs (not_or.2 hne)

theorem HandshakeInv.step {o : Occasion} (h : HandshakeInv me peer irs s)
    (hmax : me.effMSS ≤ 65535) (hst : CoreStep e o s t) (hp : PeerSyn me peer irs e) (honce : s.OpensOnce e) :
    HandshakeInv me peer irs t := by
  have hun := hst.unopened h.unopened
  have hnosyn : s.opened = false → ∀ p ∈ s.emitted, p.seg.hasFlag flagSYN = true → False := by
    intro ho p hp hsyn
    cases ho.symm.trans (h.syns p hp hsyn).1
  have hopen : s.state ≠ .closed → s.opened = true := by
    intro hs
    by_contra ho
    exact hs (h.unopened (by simpa using ho))
  rcases handshake_cases hst with hk | hstep
  · exact h.keeps hun hk
  cases hstep with
  | @connect now iss syn cap he hs hsyn hseq =>
    have ho := honce.unopened (by rw [he]; rfl) (.inl hs)
    have hfresh := h.fresh (.inl ho)
    refine ⟨hun, h.wndShift, h.sackEnabled, h.tsEnabled, fun _ => rfl, fun _ => hfresh, ?_, fun hs => by cases hs⟩
    intro p hp hflag
    rcases mem_emit hp with hp | hp
    · exact (hnosyn ho p hp hflag).elim
    · rw [hp]
      exact ⟨rfl, hseq, hsyn.synOptions h.wndShift h.sackEnabled h.tsEnabled (.inl hfresh.1) hmax⟩
  | @acceptSYN now iss seg syn cap he hs hsyn hseq =>
    have ho := honce.unopened (by rw [he]; rfl) hs
    rw [he] at hp
    have hneg := negotiate_agreed hp.2 h.sackEnabled h.tsEnabled (h.fresh (.inl ho))
    refine h.take (.inl ho) hp ⟨rfl, rfl, rfl⟩ ⟨rfl, rfl, rfl, rfl, rfl⟩ ⟨rfl, ?_⟩ (by simp [Core.insert, emit, setState])
      (fun _ => rfl) ?_
    · exact (RecvBuf.insert_extends _ _ _).initialNxt
    · intro p hp hflag
      rcases List.mem_append.1 hp with hp | hp
      · exact (hnosyn ho p hp hflag).elim
      · rw [List.mem_singleton] at hp
        rw [hp]
        exact ⟨hseq, hsyn.synOptions h.wndShift h.sackEnabled h.tsEnabled (.inr hneg.1) hmax⟩
  | acceptCookie he => rw [he] at hp; exact hp.elim
  | setup he => rw [he] at hp; exact hp.elim
  | @synIn _ now seg he hs hsyn ht hneg hnxt =>
    rw [he] at hp
    have hop : t.opened = true := by
      rw [hneg]
      exact hopen (by rw [hs]; decide)
    have hiss : t.iss = s.iss := by
      rw [hneg]
      rfl
    refine h.take (.inr hs) (hp hsyn) (by rw [hneg]; exact ⟨rfl, rfl, rfl⟩)
      (by rw [hneg]; exact ⟨rfl, rfl, rfl, rfl, rfl⟩) ⟨hop, hnxt⟩ ?_ ?_ ?_
    · rcases ht with ht | ⟨ht, -⟩ <;> rw [ht] <;> decide
    · intro hrcvd
      rcases ht with ht | ⟨-, hsb⟩
      · cases ht.symm.trans hrcvd
      · rw [hsb, hiss]
        exact h.una (.inl hs)
    · intro p hp hflag
      rw [hiss]
      rw [hneg] at hp
      exact (h.syns p hp hflag).2
  | @syn seg hs hsyn hseq =>
    refine { h with unopened := hun, syns := ?_, agreed := fun hs => (h.agreed hs).congr rfl ⟨rfl, rfl, rfl, rfl, rfl⟩ }
    intro p hp hflag
    rcases mem_emit hp with hp | hp
    · exact h.syns p hp hflag
    · rw [hp]
      have hmss : s.mss = me.effMSS ∨ s.mss = min me.effMSS peer.effMSS := by
        rcases hs with hs | hs
        · exact .inl (h.fresh (.inr hs)).1
        · exact .inr (h.agreed (by rw [hs]; rfl)).mss
      have hop : s.opened = true := hopen (by rcases hs with hs | hs <;> rw [hs] <;> decide)
      exact ⟨hop, hseq.trans (h.una hs), hsyn.synOptions h.wndShift h.sackEnabled h.tsEnabled hmss hmax⟩

theorem HandshakeInv.peer_opens {s : Core} (h : HandshakeInv me peer none s) : HandshakeInv me peer irs s := by
  refine { h with agreed := ?_ }
  intro hs
  cases (h.agreed hs).irs

theorem HandshakeInv.fresh_conn {σ : Type} [CongestionController σ] (cfg peer : ConnConfig) (now : Int) :
    HandshakeInv cfg peer irs (Host.fresh cfg now : Host σ).core := by
  refine ⟨fun _ => rfl, rfl, rfl, rfl, ?_, fun _ => ⟨rfl, rfl, rfl⟩, ?_, fun hs => by cases hs⟩
  · rintro (hs | hs) <;> cases hs
  · intro p hp
    cases hp

theorem HandshakeInv.steps {o : Occasion} (h : HandshakeInv me peer irs s)
    (hmax : me.effMSS ≤ 65535) (hst : CoreSteps e o (s.receive e) t) (hp : PeerSyn me peer irs e)
    (honce : s.OpensOnce e) : HandshakeInv me peer irs t ∧ (s.opened = true → t.opened = true ∧ t.iss = s.iss) := by
  have hrec : HandshakeInv me peer irs (s.receive e) ∧ (s.receive e).OpensOnce e ∧
      (s.opened = true → (s.receive e).opened = true ∧ (s.receive e).iss = s.iss) := by
    have hk : KeepsHandshake s (s.receive e) ∧ (s.receive e).opened = s.opened ∧ (s.receive e).state = s.state ∧
        (s.receive e).iss = s.iss := by
      cases e <;> exact ⟨⟨⟨rfl, rfl, rfl⟩, ⟨rfl, rfl, rfl, rfl, rfl⟩, ⟨rfl, rfl, rfl⟩, fun _ => rfl, .inl rfl,
        fun p hp => .inl hp⟩, rfl, rfl, rfl⟩
    obtain ⟨hk, ho, hs, hi⟩ := hk
    refine ⟨h.keeps (by rw [ho, hs]; exact h.unopened) hk, ?_, ?_⟩
    · rw [OpensOnce, ho, hs]
      exact honce
    · rw [ho, hi]
      exact fun ho => ⟨ho, rfl⟩
  have key := hst.induction (I := fun t => HandshakeInv me peer irs t ∧ t.OpensOnce e ∧
    (s.opened = true → t.opened = true ∧ t.iss = s.iss)) hrec ?_
  · exact ⟨key.1, key.2.2⟩
  · rintro u v ⟨hu, honce, hiss⟩ huv
    refine ⟨hu.step hmax huv hp honce, huv.opensOnce honce, fun ho => ?_⟩
    obtain ⟨ho', hi⟩ := hiss ho
    obtain ⟨ho'', hi'⟩ := huv.iss honce ho'
    exact ⟨ho'', hi'.trans hi⟩

end Core

/-! ### Both ends -/

namespace Network

variable {σ : Type} [CongestionController σ]

def ConnectOrAccept (_ : Network σ) : Action → Prop
  | .setup _ _ => False
  | _ => True

instance (n : Network σ) (a : Action) : Decidable (n.ConnectOrAccept a) :=
  match a with
  | .setup _ _ => inferInstanceAs (Decidable False)
  | .call _ _ | .deliver _ _ _ | .accept _ _ _ _ => inferInstanceAs (Decidable True)

def irs (n : Network σ) (s : Side) : Option (BitVec 32) :=
  if (n.conn s.other).opened then some (n.conn s.other).iss else none

omit [CongestionController σ] in
theorem irs_of_opened {n : Network σ} {s : Side} (ho : (n.conn s.other).opened = true) :
    n.irs s = some (n.conn s.other).iss :=
  if_pos ho

structure HandshakeInv (cfg : Side → ConnConfig) (n : Network σ) : Prop where
  syn : ∀ s, (n.endpoint s).syn = none
  ends : ∀ s, Core.HandshakeInv (cfg s) (cfg s.other) (n.irs s) (n.host s).core

variable {cfg : Side → ConnConfig}

omit [CongestionController σ] in
theorem HandshakeInv.peerSyn {n : Network σ} (h : HandshakeInv cfg n)
    (hsent : ∀ s, (n.host s).core.emitted = (n.host s).sent) {a : Action} (hal : n.allows a = true)
    (hP : n.ConnectOrAccept a) :
    Core.PeerSyn (cfg a.side) (cfg a.side.other) (n.irs a.side) a.event := by
  have hflight : ∀ s p, p ∈ (n.endpoint s.other).inFlight → p.seg.hasFlag flagSYN = true →
      n.irs s = some p.seg.seq ∧ SynOptions (cfg s.other) (cfg s) p.seg.options := by
    intro s p hp hsyn
    rw [Endpoint.inFlight, h.syn s.other] at hp
    have hp' : p ∈ (n.host s.other).core.emitted := by
      rw [hsent]
      exact hp
    obtain ⟨ho, hseq, hopts⟩ := (h.ends s.other).syns p hp' hsyn
    rw [Side.other_other] at hopts
    refine ⟨?_, hopts⟩
    rw [irs_of_opened ho, hseq]
    rfl
  cases a with
  | call s e =>
    cases e with
    | segment | acceptSYN | acceptCookie | setupForHandshake => cases hal
    | _ => trivial
  | deliver s now p => exact hflight s p (of_decide_eq_true hal)
  | accept s now iss p =>
    simp only [allows, Bool.and_eq_true, decide_eq_true_eq] at hal
    exact hflight s p hal.1.1.1 hal.1.1.2
  | setup => exact hP.elim

theorem HandshakeInv.step (hmax : ∀ s, (cfg s).effMSS ≤ 65535) {n n' : Network σ} {a : Action}
    (h : HandshakeInv cfg n) (hsent : ∀ s, (n.host s).core.emitted = (n.host s).sent) (hP : n.ConnectOrAccept a)
    (hn : n.next a = some n') : HandshakeInv cfg n' := by
  obtain ⟨hal, hstep, hsyn, hother⟩ := of_next hn
  have hsynA : synAfter (n.endpoint a.side) a = (n.endpoint a.side).syn := by
    cases a with
    | setup => exact hP.elim
    | _ => rfl
  obtain ⟨hend, hiss⟩ := (h.ends a.side).steps (hmax a.side) (Host.next_core hstep) (h.peerSyn hsent hal hP)
    (opensOnce hal)
  have hhost : n'.host a.side.other = n.host a.side.other := by rw [host, host, hother]
  have hconn : n'.conn a.side.other = n.conn a.side.other := by rw [conn, conn, hhost]
  refine ⟨?_, ?_⟩
  · intro s
    rcases Side.eq_or_eq_other a.side s with rfl | rfl
    · rw [hsyn, hsynA, h.syn]
    · rw [hother, h.syn]
  · intro s
    rcases Side.eq_or_eq_other a.side s with rfl | rfl
    · have hirs : n'.irs a.side = n.irs a.side := by rw [irs, irs, hconn]
      rw [hirs]
      exact hend
    · rw [hhost]
      -- the peer may have been opened by the step
      by_cases ho : (n.conn a.side).opened = true
      · obtain ⟨ho', hi⟩ := hiss ho
        have hirs : n'.irs a.side.other = n.irs a.side.other := by
          have h₁ : n.irs a.side.other = _ := irs_of_opened (by rw [Side.other_other]; exact ho)
          have h₂ : n'.irs a.side.other = _ := irs_of_opened (by rw [Side.other_other]; exact ho')
          rw [h₁, h₂, Side.other_other]
          exact congrArg some hi
        rw [hirs]
        exact h.ends a.side.other
      · have hnone : n.irs a.side.other = none := by
          rw [irs, Side.other_other, if_neg ho]
        have hpeer := h.ends a.side.other
        rw [hnone] at hpeer
        exact hpeer.peer_opens

/-- Whenever both ends are in ESTABLISHED they agree: on the sequence numbers, the MSS, the options and the shifts. -/
theorem handshake_agrees (hmax : ∀ s, (cfg s).effMSS ≤ 65535) {n : Network σ}
    (hr : (system σ cfg).Reach ConnectOrAccept n) (hest : ∀ s, (n.conn s).state = .established) (s : Side) :
    (n.conn s).recvBuf.initialNxt = (n.conn s.other).iss + 1 ∧
      (n.conn s).mss = min (cfg s).effMSS (cfg s.other).effMSS ∧
      (n.conn s).sackOK = (n.conn s.other).sackOK ∧ (n.conn s).tsOK = (n.conn s.other).tsOK ∧
      (n.conn s).wscaleOK = (n.conn s.other).wscaleOK ∧
      (n.conn s).sndWndShift = (n.conn s.other).rcvWndShift := by
  have hinv : HandshakeInv cfg n := by
    refine hr.invariant (I := HandshakeInv cfg) ?_ ?_
    · intro m hm
      refine ⟨fun s => ?_, fun s => ?_⟩
      · obtain ⟨now, hnow⟩ := hm s
        rw [hnow]
      · obtain ⟨now, hnow⟩ := hm s
        rw [host, hnow]
        exact Core.HandshakeInv.fresh_conn _ _ _
    · intro m a m' hm ih hP hn
      exact ih.step hmax (fun s => Host.emitted_core (reach_host hm s (Q := anyStep) fun _ _ _ _ => trivial)) hP hn
  have hag : ∀ s, Core.Agreed (cfg s) (cfg s.other) (n.irs s) (n.host s).core := by
    intro s
    refine (hinv.ends s).agreed ?_
    show Core.agrees (n.conn s).state = true
    rw [hest s]
    rfl
  have hme := hag s
  have hpeer := hag s.other
  rw [Side.other_other] at hpeer
  refine ⟨?_, hme.mss, ?_, ?_, ?_, ?_⟩
  · have hirs := hme.irs
    rw [irs] at hirs
    split at hirs
    · rw [Option.some.inj hirs]
      show (n.conn s).recvBuf.initialNxt = (n.conn s).recvBuf.initialNxt - 1 + 1
      rw [BitVec.sub_add_cancel]
    · cases hirs
  · exact (hme.sackOK.trans (Bool.and_comm _ _)).trans hpeer.sackOK.symm
  · exact (hme.tsOK.trans (Bool.and_comm _ _)).trans hpeer.tsOK.symm
  · exact hme.wscaleOK.trans hpeer.wscaleOK.symm
  · exact hme.sndWndShift.trans (hinv.ends s.other).wndShift.symm

end Network

/-- Two configurations that differ in their MSS and in timestamps. -/
def unequalConfigs : Side → ConnConfig
  | .left => { mss := 1000, enableSACK := true }
  | .right => { mss := 500, enableSACK := true, enableTimestamps := true }

def repeatedSYN : List Network.Action :=
  let syn : Segment :=
    { srcPort := 0, dstPort := 0, seq := 100, flags := flagSYN, window := 65535
      options := [mssOption 1000, wscaleOption 5, sackPermOption] }
  let synAck : Segment :=
    { srcPort := 0, dstPort := 0, seq := 700, ack := 101, flags := flagSYN ||| flagACK, window := 32768
      options := [mssOption 500, wscaleOption 5, sackPermOption, timestampOption 0 0] }
  let ack : Segment := { srcPort := 0, dstPort := 0, seq := 101, ack := 701, flags := flagACK, window := 32768 }
  [.call .left (.connect 0 100), .call .left (.rto 1), .accept .right 2 700 ⟨syn, 0, 1048576⟩,
    .deliver .left 3 ⟨synAck, 0, 1048576⟩, .deliver .right 4 ⟨syn, 0, 1048576⟩, .deliver .right 5 ⟨ack, 1, 1048576⟩]

theorem handshake_agrees_repeatedSYN :
    ((Network.fresh unequalConfigs 0 : Network SmallController).run repeatedSYN).left.host.conn.mss = 500 ∧
      ((Network.fresh unequalConfigs 0 : Network SmallController).run repeatedSYN).left.host.conn.tsOK =
        ((Network.fresh unequalConfigs 0 : Network SmallController).run repeatedSYN).right.host.conn.tsOK := by
  have hr : (Network.system SmallController unequalConfigs).Reach Network.ConnectOrAccept
      ((Network.fresh unequalConfigs 0).run repeatedSYN) :=
    Network.run_reach (by decide +kernel) (by decide +kernel)
  have hmax : ∀ s, (unequalConfigs s).effMSS ≤ 65535 := by
    intro s
    cases s <;> decide
  have hest : ∀ s, (((Network.fresh unequalConfigs 0).run repeatedSYN : Network SmallController).conn s).state =
      .established := by
    intro s
    cases s <;> decide +kernel
  have hagree := Network.handshake_agrees hmax hr hest .left
  exact ⟨hagree.2.1, hagree.2.2.2.1⟩

end Libp2px.Vtcp
