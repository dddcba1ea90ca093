import Libp2px.Iroh.Wire

/-!
# One endpoint and its streams to a peer

The stream objects, the `peerStreamManager` of one peer and the accept queue of `p2put/irohrelay.go`.  A stream object
outlives its entry in a manager, and a manager its entry in `pmap`, so both are kept by number: the handle of a stream
and the number of a manager.

Each stream carries a label that the code does not have: the frames of a stream carry the label of the stream they
were written on, and a stream that a frame makes takes the label of the frame.

A frame of an unknown stream makes the stream, but its data is not given to it: what the first frame of a stream
carries is lost.
-/

namespace Libp2px.Iroh

variable {γ : Type}

def streamIDBase : Nat := 1000

def acceptCap : Nat := 64

/-! ### Streams -/

structure Stream (γ : Type) where
  id : Nat
  rxBuf : List Byte
  closed : Bool
  reset : Bool
  label : γ

def newStream (id : Nat) (label : γ) : Stream γ := ⟨id, [], false, false, label⟩

def Stream.dispatch (s : Stream γ) (flags : Byte) (data : List Byte) : Stream γ :=
  if flags = flagRESET then { s with reset := true, rxBuf := [] }
  else if flags = flagCLOSE then { s with closed := true }
  else if flags = flagDATA then { s with rxBuf := s.rxBuf ++ data }
  else s

@[simp] theorem Stream.id_dispatch (s : Stream γ) (flags : Byte) (data : List Byte) :
    (s.dispatch flags data).id = s.id := by
  unfold Stream.dispatch
  split_ifs <;> rfl

@[simp] theorem Stream.label_dispatch (s : Stream γ) (flags : Byte) (data : List Byte) :
    (s.dispatch flags data).label = s.label := by
  unfold Stream.dispatch
  split_ifs <;> rfl

theorem Stream.rxBuf_dispatch_data (s : Stream γ) (data : List Byte) :
    (s.dispatch flagDATA data).rxBuf = s.rxBuf ++ data := rfl

/-! ### Managers -/

/-- The order of `bytes.Compare`. -/
def bytesLess : List Byte → List Byte → Bool
  | _, [] => false
  | [], _ :: _ => true
  | x :: xs, y :: ys => decide (x.toNat < y.toNat) || (decide (x = y) && bytesLess xs ys)

/-- The lowest bit of the ids that an endpoint gives. -/
def oddBit (localPub remotePub : Pubkey) : Nat := if bytesLess localPub.bytes remotePub.bytes then 1 else 0

theorem bytesLess_total {x y : List Byte} (h : x ≠ y) : bytesLess x y = !bytesLess y x := by
  induction x generalizing y with
  | nil =>
    cases y with
    | nil => exact absurd rfl h
    | cons b ys => rfl
  | cons a xs ih =>
    cases y with
    | nil => rfl
    | cons b ys =>
      by_cases hab : a = b
      · subst hab
        have htail := ih (y := ys) (by rintro rfl; exact h rfl)
        simpa [bytesLess] using htail
      · have hne : a.toNat ≠ b.toNat := fun heq => hab (BitVec.eq_of_toNat_eq heq)
        have hba : b ≠ a := fun heq => hab heq.symm
        simp only [bytesLess, hab, hba, decide_false, Bool.false_and, Bool.or_false]
        rw [← decide_not]
        apply decide_eq_decide.2
        omega

theorem oddBit_ne {a b : Pubkey} (h : a ≠ b) : oddBit a b + oddBit b a = 1 := by
  have hbytes : a.bytes ≠ b.bytes := by
    intro heq
    obtain ⟨x, hx⟩ := a
    obtain ⟨y, hy⟩ := b
    cases heq
    exact h rfl
  have htotal := bytesLess_total hbytes
  unfold oddBit
  cases hba : bytesLess b.bytes a.bytes with
  | true => simp [htotal, hba]
  | false => simp [htotal, hba]

/-- A `peerStreamManager`: the counter, and the handles of the streams that it knows by their id. -/
structure Manager where
  nextID : Nat
  streams : Nat → Option Nat

def newPeerStreamManager : Manager := ⟨streamIDBase, fun _ => none⟩

/-- `allocID`: the id, and the manager afterwards. -/
def Manager.allocID (m : Manager) (odd : Nat) : Nat × Manager :=
  let next := (m.nextID + 2) % 2 ^ 64
  ((next + (2 ^ 64 - 2)) % 2 ^ 64 ||| odd, { m with nextID := next })

def Manager.set (m : Manager) (sid : Nat) (h : Option Nat) : Manager :=
  { m with streams := Function.update m.streams sid h }

/-- The id that the `k`-th call of `OpenStream` gets from a manager. -/
def streamID (odd k : Nat) : Nat := streamIDBase + 2 * k + odd

theorem Manager.allocID_eq {m : Manager} {odd k : Nat} (hodd : odd ≤ 1) (hk : k < 2 ^ 62)
    (hm : m.nextID = streamIDBase + 2 * k) :
    (m.allocID odd).1 = streamID odd k ∧ (m.allocID odd).2.nextID = streamIDBase + 2 * (k + 1) ∧
      (m.allocID odd).2.streams = m.streams := by
  have hbase : streamIDBase = 1000 := rfl
  have hnext : (m.nextID + 2) % 2 ^ 64 = streamIDBase + 2 * (k + 1) := by omega
  have hid : (streamIDBase + 2 * (k + 1) + (2 ^ 64 - 2)) % 2 ^ 64 = 2 ^ 1 * (500 + k) := by omega
  refine ⟨?_, hnext, rfl⟩
  simp only [Manager.allocID, hnext, hid]
  rw [← Nat.two_pow_add_eq_or_of_lt (by omega), streamID]
  omega

theorem streamID_inj {odd odd' k k' : Nat} (hodd : odd ≤ 1) (hodd' : odd' ≤ 1)
    (h : streamID odd k = streamID odd' k') : odd = odd' ∧ k = k' := by
  unfold streamID at h
  omega

/-! ### Endpoints -/

/-- An endpoint as far as one peer goes: its streams by handle, its managers by number and the one in `pmap`; the
accept queue; and the streams that `AcceptStream` has returned. -/
structure Endpoint (γ : Type) where
  streams : Nat → Option (Stream γ)
  made : Nat
  managers : Nat → Manager
  gen : Nat
  pmap : Option Nat
  acceptCh : List Nat
  accepted : List Nat

namespace Endpoint

def start : Endpoint γ := ⟨fun _ => none, 0, fun _ => newPeerStreamManager, 0, none, [], []⟩

def manager (e : Endpoint γ) : Endpoint γ × Nat :=
  match e.pmap with
  | some i => (e, i)
  | none =>
    ({ e with
        managers := Function.update e.managers e.gen newPeerStreamManager
        gen := e.gen + 1
        pmap := some e.gen }, e.gen)

def setManager (e : Endpoint γ) (i : Nat) (m : Manager) : Endpoint γ :=
  { e with managers := Function.update e.managers i m }

def addStream (e : Endpoint γ) (s : Stream γ) : Endpoint γ :=
  { e with streams := Function.update e.streams e.made (some s), made := e.made + 1 }

def setStream (e : Endpoint γ) (h : Nat) (s : Stream γ) : Endpoint γ :=
  { e with streams := Function.update e.streams h (some s) }

def lookup (e : Endpoint γ) (sid : Nat) : Option Nat := e.pmap.bind fun i => (e.managers i).streams sid

/-- `OpenStream` with the manager `i` that it took: the id, and the stream is made and known. -/
def openStream (e : Endpoint γ) (i odd : Nat) (label : γ) : Endpoint γ :=
  let (sid, m) := (e.managers i).allocID odd
  (e.setManager i (m.set sid (some e.made))).addStream (newStream sid label)

/-- A frame of an unknown stream makes the stream and offers it to `AcceptStream`. -/
def offerStream (e : Endpoint γ) (i sid : Nat) (label : γ) : Endpoint γ :=
  { (e.setManager i ((e.managers i).set sid (some e.made))).addStream (newStream sid label) with
    acceptCh := e.acceptCh ++ [e.made] }

/-- `peerStreamManager.dispatch` by the manager `i`, and whether the accept queue was full, so that a RESET will be
sent. -/
def dispatch (e : Endpoint γ) (i : Nat) (f : Frame) (label : γ) : Endpoint γ × Bool :=
  match (e.managers i).streams f.sid with
  | some h =>
    match e.streams h with
    | some s => (e.setStream h (s.dispatch f.flags f.data), false)
    | none => (e, false)
  | none =>
    if f.flags ≠ flagDATA then (e, false)
    else if e.acceptCh.length < acceptCap then (e.offerStream i f.sid label, false)
    else (e, true)

def dispatchStreamFrame (e : Endpoint γ) (f : Frame) (label : γ) : Endpoint γ × Bool :=
  let (e, i) := e.manager
  e.dispatch i f label

def removeStream (e : Endpoint γ) (sid : Nat) : Endpoint γ :=
  match e.pmap with
  | none => e
  | some i => e.setManager i ((e.managers i).set sid none)

/-- `peerGone`: the manager leaves `pmap`, and the streams that it knows are reset. -/
def peerGone (e : Endpoint γ) : Endpoint γ :=
  match e.pmap with
  | none => e
  | some i =>
    { e with
      pmap := none
      managers := Function.update e.managers i { e.managers i with streams := fun _ => none }
      streams := fun h => (e.streams h).map fun st =>
        if (e.managers i).streams st.id = some h then st.dispatch flagRESET [] else st }

def acceptStream (e : Endpoint γ) : Option (Endpoint γ) :=
  match e.acceptCh with
  | [] => none
  | h :: rest => some { e with acceptCh := rest, accepted := e.accepted ++ [h] }

/-! ### What stays of the streams -/

def ident (e : Endpoint γ) (h : Nat) : Option (Nat × γ) := (e.streams h).map fun st => (st.id, st.label)

def WF (e : Endpoint γ) : Prop :=
  ∀ i sid h, (e.managers i).streams sid = some h → h < e.made ∧ ∃ c, e.ident h = some (sid, c)

variable {e : Endpoint γ} {sid : Nat}

theorem ident_setStream {h : Nat} {st st' : Stream γ} (hst : e.streams h = some st)
    (hid : st'.id = st.id) (hlabel : st'.label = st.label) : (e.setStream h st').ident = e.ident := by
  funext h'
  by_cases hh : h' = h
  · subst hh
    simp [ident, setStream, hst, hid, hlabel]
  · simp [ident, setStream, hh]

theorem ident_addStream_self (e : Endpoint γ) (st : Stream γ) :
    (e.addStream st).ident e.made = some (st.id, st.label) := by
  simp [ident, addStream]

theorem ident_addStream_of_ne (e : Endpoint γ) (st : Stream γ) {h : Nat} (hne : h ≠ e.made) :
    (e.addStream st).ident h = e.ident h := by
  simp [ident, addStream, hne]

theorem ident_peerGone (e : Endpoint γ) : e.peerGone.ident = e.ident := by
  unfold peerGone
  split
  · rfl
  · funext h
    simp only [ident, Option.map_map]
    congr 1
    funext st
    simp only [Function.comp_apply]
    split
    · simp
    · rfl

theorem manager_frame (e : Endpoint γ) :
    e.manager.1.streams = e.streams ∧ e.manager.1.made = e.made ∧ e.manager.1.acceptCh = e.acceptCh ∧
      e.manager.1.accepted = e.accepted ∧ e.manager.1.pmap = some e.manager.2 ∧
      (∀ sid, e.manager.1.lookup sid = e.lookup sid) ∧
      ∀ i, e.manager.1.managers i = e.managers i ∨ e.manager.1.managers i = newPeerStreamManager := by
  unfold manager
  split
  · rename_i i hi
    exact ⟨rfl, rfl, rfl, rfl, hi, fun _ => rfl, fun _ => .inl rfl⟩
  · rename_i hnone
    refine ⟨rfl, rfl, rfl, rfl, rfl, ?_, ?_⟩
    · intro sid
      simp [lookup, hnone, newPeerStreamManager]
    · intro i
      by_cases hi : i = e.gen
      · exact .inr (by simp [hi])
      · exact .inl (by simp [hi])

theorem WF.manager (h : e.WF) : e.manager.1.WF := by
  obtain ⟨hstreams, hmade, -, -, -, -, hmgr⟩ := e.manager_frame
  intro i sid k hk
  have hident : e.manager.1.ident = e.ident := by
    funext k
    simp only [ident, hstreams]
  rw [hmade, hident]
  rcases hmgr i with hsame | hnew
  · rw [hsame] at hk
    exact h i sid k hk
  · rw [hnew] at hk
    cases hk

theorem WF.addStream (h : e.WF) (i : Nat) (m : Manager) (st : Stream γ) (hm : m.streams = (e.managers i).streams) :
    ((e.setManager i (m.set st.id (some e.made))).addStream st).WF := by
  intro i' sid k hk
  have hold : (e.managers i').streams sid = some k →
      k < e.made + 1 ∧ ∃ c, ((e.setManager i (m.set st.id (some e.made))).addStream st).ident k = some (sid, c) := by
    intro hk
    obtain ⟨hlt, c, hc⟩ := h i' sid k hk
    exact ⟨by omega, c, (ident_addStream_of_ne _ st (Nat.ne_of_lt hlt)).trans hc⟩
  by_cases hi : i' = i
  · subst hi
    by_cases hsid : sid = st.id
    · subst hsid
      have : k = e.made := by simpa [Endpoint.addStream, setManager, Manager.set] using hk.symm
      subst this
      exact ⟨Nat.lt_succ_self _, st.label, ident_addStream_self _ st⟩
    · have hk' : (e.managers i').streams sid = some k := by
        simpa [Endpoint.addStream, setManager, Manager.set, hsid, hm] using hk
      exact hold hk'
  · have hk' : (e.managers i').streams sid = some k := by
      simpa [Endpoint.addStream, setManager, hi] using hk
    exact hold hk'

theorem WF.forget {e e' : Endpoint γ} (h : e.WF) (hident : e'.ident = e.ident) (hmade : e'.made = e.made)
    (hmgr : ∀ i sid k, (e'.managers i).streams sid = some k → (e.managers i).streams sid = some k) : e'.WF := by
  intro i sid k hk
  rw [hident, hmade]
  exact h i sid k (hmgr i sid k hk)

def counter (e : Endpoint γ) : Option (Nat × Nat) := e.pmap.map fun i => (i, (e.managers i).nextID)

theorem counter_manager (e : Endpoint γ) :
    e.manager.1.counter = e.counter ∧ e.counter = some (e.manager.2, (e.manager.1.managers e.manager.2).nextID) ∨
      e.counter = none ∧ e.manager.1.counter = some (e.manager.2, streamIDBase) := by
  unfold manager
  split
  · rename_i i hi
    exact .inl ⟨rfl, by simp [counter, hi]⟩
  · rename_i hnone
    exact .inr ⟨by simp [counter, hnone], by simp [counter, newPeerStreamManager]⟩

theorem counter_offerStream (e : Endpoint γ) (i sid : Nat) (c : γ) : (e.offerStream i sid c).counter = e.counter := by
  simp only [counter, offerStream, addStream, setManager]
  congr 1
  funext j
  by_cases hj : j = i
  · subst hj
    simp [Manager.set]
  · simp [hj]

theorem counter_removeStream (e : Endpoint γ) (sid : Nat) : (e.removeStream sid).counter = e.counter := by
  unfold removeStream
  split
  · rfl
  · rename_i i hi
    simp [counter, setManager, hi, Manager.set]

theorem dispatchStreamFrame_cases (h : e.WF) (f : Frame) (c : γ) :
    (∃ k st, e.lookup f.sid = some k ∧ e.streams k = some st ∧
      e.dispatchStreamFrame f c = (e.setStream k (st.dispatch f.flags f.data), false)) ∨
    (e.lookup f.sid = none ∧ f.flags = flagDATA ∧ e.acceptCh.length < acceptCap ∧
      e.dispatchStreamFrame f c = (e.manager.1.offerStream e.manager.2 f.sid c, false)) ∨
    (e.lookup f.sid = none ∧ (e.dispatchStreamFrame f c).1 = e.manager.1) := by
  obtain ⟨-, -, hqueue, -, hpmap, hlookup, -⟩ := e.manager_frame
  have hstreams : (e.manager.1.managers e.manager.2).streams f.sid = e.lookup f.sid := by
    rw [← hlookup, lookup, hpmap]
    rfl
  cases hk : e.lookup f.sid with
  | some k =>
    obtain ⟨i, hi, hknown⟩ := Option.bind_eq_some_iff.1 hk
    obtain ⟨-, c', hident⟩ := h i f.sid k hknown
    obtain ⟨st, hst, -⟩ := Option.map_eq_some_iff.1 hident
    refine .inl ⟨k, st, rfl, hst, ?_⟩
    simp only [dispatchStreamFrame, manager, hi, dispatch, hknown, hst]
  | none =>
    rw [hk] at hstreams
    refine .inr ?_
    by_cases hdata : f.flags = flagDATA
    · by_cases hroom : e.acceptCh.length < acceptCap
      · refine .inl ⟨rfl, hdata, hroom, ?_⟩
        simp [dispatchStreamFrame, dispatch, hstreams, hdata, hqueue, hroom]
      · refine .inr ⟨rfl, ?_⟩
        simp [dispatchStreamFrame, dispatch, hstreams, hdata, hqueue, hroom]
    · refine .inr ⟨rfl, ?_⟩
      simp [dispatchStreamFrame, dispatch, hstreams, hdata]

/-! ### What the peer reads of a stream -/

def receive (e : Endpoint γ) (label : γ) (frames : List Frame) : Endpoint γ :=
  frames.foldl (fun e f => (e.dispatchStreamFrame f label).1) e

def readable (e : Endpoint γ) (sid : Nat) : List Byte :=
  match (e.lookup sid).bind e.streams with
  | some s => s.rxBuf
  | none => []

theorem dispatch_known {sid h : Nat} {s : Stream γ} (label : γ) (data : List Byte)
    (hlookup : e.lookup sid = some h) (hs : e.streams h = some s) :
    (e.dispatchStreamFrame ⟨sid, flagDATA, data⟩ label).1.lookup sid = some h ∧
      (e.dispatchStreamFrame ⟨sid, flagDATA, data⟩ label).1.streams h = some (s.dispatch flagDATA data) := by
  obtain ⟨i, hi, hknown⟩ := Option.bind_eq_some_iff.1 hlookup
  have hdispatch : e.dispatchStreamFrame ⟨sid, flagDATA, data⟩ label =
      (e.setStream h (s.dispatch flagDATA data), false) := by
    simp only [dispatchStreamFrame, manager, hi, dispatch, hknown, hs]
  rw [hdispatch]
  exact ⟨hlookup, Function.update_self ..⟩

theorem dispatch_first (label : γ) (data : List Byte) (hlookup : e.lookup sid = none)
    (hroom : e.acceptCh.length < acceptCap) :
    (e.dispatchStreamFrame ⟨sid, flagDATA, data⟩ label).1.lookup sid = some e.made ∧
      (e.dispatchStreamFrame ⟨sid, flagDATA, data⟩ label).1.streams e.made = some (newStream sid label) := by
  have hmanager : e.manager.1.pmap = some e.manager.2 ∧ (e.manager.1.managers e.manager.2).streams sid = none ∧
      e.manager.1.made = e.made ∧ e.manager.1.acceptCh = e.acceptCh := by
    unfold manager
    split
    · rename_i i hi
      rw [lookup, hi] at hlookup
      exact ⟨hi, hlookup, rfl, rfl⟩
    · exact ⟨rfl, by simp [newPeerStreamManager], rfl, rfl⟩
  obtain ⟨hpmap, hunknown, hmade, hqueue⟩ := hmanager
  simp only [dispatchStreamFrame, dispatch, hunknown, ne_eq, not_true_eq_false, if_false, hqueue, if_pos hroom]
  constructor
  · simp [lookup, offerStream, addStream, setManager, hpmap, Manager.set, hmade]
  · simp [offerStream, addStream, setManager, hmade]

theorem readable_receive_known {sid h : Nat} {s : Stream γ} (label : γ) (chunks : List (List Byte))
    (hlookup : e.lookup sid = some h) (hs : e.streams h = some s) :
    (e.receive label (chunks.map fun chunk => ⟨sid, flagDATA, chunk⟩)).readable sid = s.rxBuf ++ chunks.flatten := by
  induction chunks generalizing e s with
  | nil => simp [receive, readable, hlookup, hs]
  | cons chunk chunks ih =>
    obtain ⟨hlookup', hs'⟩ := dispatch_known label chunk hlookup hs
    have htail := ih hlookup' hs'
    rw [Stream.rxBuf_dispatch_data, List.append_assoc] at htail
    exact htail

theorem readable_receive (label : γ) (chunks : List (List Byte))
    (hlookup : e.lookup sid = none) (hroom : e.acceptCh.length < acceptCap) :
    (e.receive label (chunks.map fun chunk => ⟨sid, flagDATA, chunk⟩)).readable sid = chunks.tail.flatten := by
  cases chunks with
  | nil => simp [receive, readable, hlookup]
  | cons chunk chunks =>
    obtain ⟨hlookup', hs'⟩ := dispatch_first label chunk hlookup hroom
    have htail := readable_receive_known label chunks hlookup' hs'
    exact htail

/-- The frames of calls of `Write`, as they arrive from the endpoint `src` through the relay. -/
def arriving (src dst : Pubkey) (sid : Nat) (writes : List (List Byte)) : List Frame :=
  (writes.flatMap (writeFrames sid)).filterMap fun f =>
    (readDatagram (relay src (sendDatagram dst f.bytes))).map (·.2)

theorem arriving_eq (src dst : Pubkey) (hsid : sid < 2 ^ 64) (writes : List (List Byte)) :
    arriving src dst sid writes = (writes.flatMap pieces).map fun chunk => ⟨sid, flagDATA, chunk⟩ := by
  have hframes : writes.flatMap (writeFrames sid) =
      (writes.flatMap pieces).map fun chunk => ⟨sid, flagDATA, chunk⟩ := by
    rw [List.map_flatMap]
    rfl
  rw [arriving, hframes, List.filterMap_map]
  have hsome : ((fun f : Frame => (readDatagram (relay src (sendDatagram dst f.bytes))).map (·.2)) ∘
      fun chunk => (⟨sid, flagDATA, chunk⟩ : Frame)) = some ∘ fun chunk => ⟨sid, flagDATA, chunk⟩ := by
    funext chunk
    simp only [Function.comp_apply, readDatagram_relay src dst (f := ⟨sid, flagDATA, chunk⟩) hsid, Option.map_some]
  rw [hsome, List.filterMap_eq_map]

theorem flatten_flatMap_pieces (writes : List (List Byte)) : (writes.flatMap pieces).flatten = writes.flatten := by
  induction writes with
  | nil => rfl
  | cons b writes ih =>
    rw [List.flatMap_cons, List.flatten_append, (pieces_spec b).1, ih, List.flatten_cons]

/-- The bytes that were written on a new stream can be read at the other side, from the first one on, if and only if
none was written. -/
theorem readable_eq_written_iff {e : Endpoint γ} (src dst : Pubkey) {sid : Nat} (hsid : sid < 2 ^ 64) (label : γ)
    (writes : List (List Byte)) (hlookup : e.lookup sid = none) (hroom : e.acceptCh.length < acceptCap) :
    (e.receive label (arriving src dst sid writes)).readable sid = writes.flatten ↔ ∀ b ∈ writes, b = [] := by
  rw [arriving_eq src dst hsid, readable_receive label _ hlookup hroom, ← flatten_flatMap_pieces writes]
  have hne : ∀ chunk ∈ writes.flatMap pieces, chunk ≠ [] := by
    intro chunk hchunk
    obtain ⟨b, -, hmem⟩ := List.mem_flatMap.1 hchunk
    exact (pieces_spec b).2 chunk hmem
  have hempty : (∀ b ∈ writes, b = []) ↔ writes.flatMap pieces = [] := by
    rw [List.flatMap_eq_nil_iff]
    constructor
    · intro h b hb
      rw [h b hb, pieces_nil]
    · intro h b hb
      rw [← (pieces_spec b).1, h b hb]
      rfl
  rw [hempty]
  generalize writes.flatMap pieces = chunks at hne ⊢
  cases chunks with
  | nil => exact iff_of_true rfl rfl
  | cons chunk chunks =>
    refine iff_of_false ?_ (List.cons_ne_nil _ _)
    intro heq
    have hlen := congrArg List.length heq
    rw [List.tail_cons, List.flatten_cons, List.length_append] at hlen
    have hpos := List.length_pos_iff.2 (hne chunk List.mem_cons_self)
    omega

def zeroKey : Pubkey := ⟨List.replicate 32 0, by decide⟩

def oneKey : Pubkey := ⟨List.replicate 32 1, by decide⟩

theorem readable_eq_written_empty :
    ((Endpoint.start (γ := Unit)).receive () (arriving zeroKey oneKey 1001 [[], []])).readable 1001 = [] :=
  (readable_eq_written_iff zeroKey oneKey (by decide) () [[], []] rfl (by decide)).2 (by decide)

/-- One byte is written on a new stream, and the other side can read nothing. -/
theorem first_byte_lost :
    ((Endpoint.start (γ := Unit)).receive () (arriving zeroKey oneKey 1001 [[7]])).readable 1001 = [] ∧
      [[(7 : Byte)]].flatten ≠ [] := by
  refine ⟨?_, by decide⟩
  rw [arriving_eq zeroKey oneKey (by decide), readable_receive () _ rfl (by decide), List.flatMap_singleton,
    pieces_of_ne_nil (by decide)]
  simp [maxDatagramPayload, pieces_nil]

end Endpoint

end Libp2px.Iroh
