import Libp2px.Lib.Slices
import Libp2px.Lib.Transition
import Libp2px.Iroh.Wire

/-!
# The relay client and what the relay server sends

`connect` of `p2put/irohrelay.go` and what it starts: `handshake` reads two messages of the server, and `readLoop` takes
frames until the connection ends.  Every index and every slice expression of the code is checked here, as Go does; an
expression out of range is a panic.

The frames of `readLoop` are safe, and its datagrams are those of the plain model (`handleRecvDatagram?_eq`).  `handshake` is not: the
text of its first error indexes a message that may be empty, and a denial is cut at a length that the server chooses
(`no_crash_iff`).
-/

namespace Libp2px.Iroh.Client

open Slices Transition

abbrev Message := Slice Byte

def hsServerChallenge : Byte := 0

def hsClientAuth : Byte := 1

def hsServerConfirmsAuth : Byte := 2

def hsServerDeniesAuth : Byte := 3

def frameEndpointGone : Byte := 8

def framePing : Byte := 9

def framePong : Byte := 10

def frameHealth : Byte := 11

def frameRestarting : Byte := 12

def frameStatus : Byte := 13

def statusHealthy : Byte := 0

def statusSameEndpointIdConnected : Byte := 1

/-! ### LEB128 -/

def appendLEB128 (buf : List Byte) (v : BitVec 64) : List Byte :=
  let b := (v &&& 0x7F).setWidth 8
  if v >>> 7 = 0 then buf ++ [b] else appendLEB128 (buf ++ [b ||| 0x80]) (v >>> 7)
termination_by v.toNat
decreasing_by
  rename_i hne
  have hshift : (v >>> 7).toNat = v.toNat / 2 ^ 7 := by
    rw [BitVec.toNat_ushiftRight, Nat.shiftRight_eq_div_pow]
  have hpos : (v >>> 7).toNat ≠ 0 := fun h => hne (BitVec.eq_of_toNat_eq h)
  omega

/-- The loop of `consumeLEB128`. -/
def consumeFrom (v : BitVec 64) (i : Nat) : List Byte → Option (BitVec 64 × Nat)
  | [] => none
  | b :: buf =>
    let v := v ||| ((b &&& 0x7F).setWidth 64) <<< (7 * i)
    if b &&& 0x80 = 0 then some (v, i + 1) else consumeFrom v (i + 1) buf

/-- `consumeLEB128`: the number and how many bytes it takes. -/
def consumeLEB128 (buf : List Byte) : Option (BitVec 64 × Nat) := consumeFrom 0 0 buf

/-- The encoding of `v`: appended to any buffer, read from any group on, and no number without its last byte. -/
structure Encodes (v : BitVec 64) (enc : List Byte) : Prop where
  append : ∀ buf, appendLEB128 buf v = buf ++ enc
  consume : ∀ acc i tail, consumeFrom acc i (enc ++ tail) = some (acc ||| v <<< (7 * i), i + enc.length)
  short : ∀ acc i p, p <+: enc → p ≠ enc → consumeFrom acc i p = none

theorem groups_eq (v : BitVec 64) : (v &&& (0x7F : BitVec 64)) ||| (v >>> 7) <<< 7 = v := by
  ext k hk
  interval_cases k <;> simp

theorem exists_encodes (v : BitVec 64) : ∃ enc, Encodes v enc := by
  -- on the loop of `appendLEB128`, whose buffer plays no part
  induction ([] : List Byte), v using appendLEB128.induct with
  | case1 _ v h =>
    have hlow : (v &&& 0x7F).setWidth 8 &&& 0x80 = (0 : Byte) := by
      ext k hk
      interval_cases k <;> simp
    have hbits : ((v &&& 0x7F).setWidth 8 &&& (0x7F : Byte)).setWidth 64 = v := by
      conv_rhs => rw [← groups_eq v, h]
      ext k hk
      interval_cases k <;> simp
    refine ⟨[(v &&& 0x7F).setWidth 8], fun buf => by rw [appendLEB128, if_pos h], fun acc i tail => ?_, fun acc i p hp hne => ?_⟩
    · rw [List.singleton_append, consumeFrom, if_pos hlow, hbits, List.length_singleton]
    · obtain rfl : p = [] := by grind [List.prefix_cons_iff]
      rfl
  | case2 _ v b h ih =>
    obtain ⟨enc, hi⟩ := ih
    have hhigh : (b ||| 0x80) &&& 0x80 ≠ 0 := by
      intro hz
      have := congrArg (·.getLsbD 7) hz
      simp at this
    have hbits : ((b ||| 0x80) &&& 0x7F).setWidth 64 = v &&& 0x7F := by
      ext k hk
      interval_cases k <;> simp [b]
    refine ⟨(b ||| 0x80) :: enc, fun buf => ?_, fun acc i tail => ?_, fun acc i p hp hne => ?_⟩
    · rw [appendLEB128, if_neg h, hi.append, List.append_assoc, List.singleton_append]
    · rw [List.cons_append, consumeFrom, if_neg hhigh, hi.consume, hbits, BitVec.or_assoc, Nat.mul_succ, Nat.add_comm _ 7,
        BitVec.shiftLeft_add, ← BitVec.shiftLeft_or_distrib, groups_eq, List.length_cons, Nat.add_right_comm, Nat.add_assoc]
    · cases p with
      | nil => rfl
      | cons a p =>
        obtain ⟨rfl, hp'⟩ := List.cons_prefix_cons.mp hp
        rw [consumeFrom, if_neg hhigh]
        exact hi.short _ _ _ hp' fun heq => hne (by rw [heq])

/-- A number is read back with the length of its encoding, whatever follows; a proper prefix is no number. -/
theorem consumeLEB128_appendLEB128 (v : BitVec 64) (tail : List Byte) :
    consumeLEB128 (appendLEB128 [] v ++ tail) = some (v, (appendLEB128 [] v).length) ∧
      ∀ p, p <+: appendLEB128 [] v → p ≠ appendLEB128 [] v → consumeLEB128 p = none := by
  obtain ⟨enc, h⟩ := exists_encodes v
  rw [h.append, List.nil_append]
  refine ⟨?_, h.short 0 0⟩
  simp [consumeLEB128, h.consume]

/-! ### The handshake -/

inductive HandshakeError
  | readChallenge (err : String)
  | expectedChallenge (type : Byte) (len : Nat)
  | sendAuth (err : String)
  | readResponse (err : String)
  | emptyResponse
  | parseDenial
  | denied (reason : List Byte)
  | unexpected (type : Byte)
  deriving DecidableEq, Repr

def utf8 (s : String) : List Byte := s.toUTF8.toList.map UInt8.toBitVec

def HandshakeError.text : HandshakeError → List Byte
  | readChallenge err => utf8 ("read ServerChallenge: " ++ err)
  | expectedChallenge type len => utf8 s!"expected ServerChallenge, got type {type.toNat} len {len}"
  | sendAuth err => utf8 ("send ClientAuth: " ++ err)
  | readResponse err => utf8 ("read auth response: " ++ err)
  | emptyResponse => utf8 "empty auth response"
  | parseDenial => utf8 "parse denial: unexpected EOF"
  | denied reason => utf8 "server denied auth: " ++ reason
  | unexpected type => utf8 s!"unexpected auth response type {type.toNat}"

/-- The key of the client, and the signature of what it derives of a challenge. -/
structure Identity where
  localPub : Pubkey
  sign : List Byte → List Byte

/-- The first message of the server: its challenge. -/
def serverChallenge (msg : Message) : Except Panic (Except HandshakeError (List Byte)) := do
  let other ← if msg.len < 17 then pure true else (msg.index 0).map (· != hsServerChallenge)
  if other then return .error (.expectedChallenge (← msg.index 0) msg.len)
  let challenge ← msg.sub 1 17
  return .ok challenge.elems

/-- The message that answers a challenge. -/
def Identity.clientAuth (id : Identity) (challenge : List Byte) : List Byte :=
  appendLEB128 ([hsClientAuth] ++ id.localPub.bytes) 64 ++ id.sign challenge

/-- The second message of the server. -/
def authResponse (msg : Message) : Except Panic (Except HandshakeError Unit) := do
  if msg.len = 0 then return .error .emptyResponse
  let type ← msg.index 0
  if type = hsServerConfirmsAuth then return .ok ()
  else if type = hsServerDeniesAuth then
    let rest ← msg.drop 1
    match consumeLEB128 rest.elems with
    | none => return .error .parseDenial
    | some (reasonLen, n) =>
      -- `int(reasonLen)` and the sum are numbers of 64 bits with a sign
      let reason ← msg.sub (1 + n) (1 + BitVec.ofNat 64 n + reasonLen).toInt
      return .error (.denied reason.elems)
  else return .error (.unexpected type)

/-! ### The frames of `readLoop` -/

inductive Status
  | healthy
  | sameEndpointIdConnected
  | unknown (discriminant : Byte)
  deriving DecidableEq, Repr

/-- What the client does: it writes a message, passes a datagram or the end of a peer to the pool, or logs. -/
inductive Effect
  | write (msg : List Byte)
  | datagram (src : List Byte) (f : Frame)
  | peerGone (pub : List Byte)
  | health (text : List Byte)
  | restarting (reconnectIn tryFor : Nat)
  | status (s : Status)
  | unknownFrame (frameType : Byte)
  deriving DecidableEq, Repr

/-- Where the connection is; it ends in `handshake` with an error, and in `readLoop` without one. -/
inductive Phase
  | down (err : Option HandshakeError)
  | challenge
  | response
  | reading
  deriving DecidableEq, Repr

structure State where
  phase : Phase
  pendingPing : Nat
  lastRecv : Int
  lastPong : Int
  pongCnt : Nat
  effects : List Effect
  deriving DecidableEq, Repr

def State.emit (c : State) (e : Effect) : State := { c with effects := c.effects ++ [e] }

def uint64? (b : Message) : Except Panic Nat := do
  let _ ← b.index 7
  return uint64 (b.elems.take 8)

def uint32? (b : Message) : Except Panic Nat := do
  let _ ← b.index 3
  return BigEndian.decode (b.elems.take 4)

def handleRecvDatagram? (body : Message) : Except Panic (Option (List Byte × Frame)) := do
  if body.len < 33 then return none
  let src ← body.sub 0 32
  let payload ← body.drop 33
  if payload.len < 9 then return none
  let sid ← uint64? (← payload.sub 0 8)
  let flags ← payload.index 8
  let data ← payload.drop 9
  return some (src.elems, ⟨sid, flags, data.elems⟩)

/-- What `readLoop` does with a message; a pong that cannot be sent ends it. -/
def readFrame (c : State) (msg : Message) (now : Int) (sent : Bool) : Except Panic State := do
  if msg.len = 0 then return c
  let c := { c with lastRecv := now }
  let frameType ← msg.index 0
  let body ← msg.drop 1
  if frameType = framePing then
    let c := c.emit (.write (framePong :: body.elems))
    return if sent then c else { c with phase := .down none }
  else if frameType = framePong then
    if body.len < 8 then return c
    let seq ← uint64? (← body.sub 0 8)
    let c := if seq = c.pendingPing then { c with pendingPing := 0 } else c
    return { c with lastPong := now, pongCnt := c.pongCnt + 1 }
  else if frameType = frameRelayToClientDatagram ∨ frameType = frameRelayToClientDatagramBatch then
    match ← handleRecvDatagram? body with
    | none => return c
    | some (src, f) => return c.emit (.datagram src f)
  else if frameType = frameEndpointGone then
    if body.len < 32 then return c
    let gonePub ← body.sub 0 32
    return c.emit (.peerGone gonePub.elems)
  else if frameType = frameHealth then return c.emit (.health body.elems)
  else if frameType = frameRestarting then
    if body.len < 8 then return c
    let reconnectIn ← uint32? (← body.sub 0 4)
    let tryFor ← uint32? (← body.sub 4 8)
    return c.emit (.restarting reconnectIn tryFor)
  else if frameType = frameStatus then
    if body.len < 1 then return c
    let s ← body.index 0
    return c.emit (.status (if s = statusHealthy then .healthy
      else if s = statusSameEndpointIdConnected then .sameEndpointIdConnected else .unknown s))
  else return c.emit (.unknownFrame frameType)

/-! ### A client -/

/-- What happens to a client: a dial; a message that is read at some time, and what is written in answer may meet an
error; `ReadMessage` fails; and `readLoop` finds that it is to stop. -/
inductive Input
  | connect
  | message (msg : Message) (now : Int) (writeErr : Option String)
  | readErr (err : String)
  | stop

def State.fail (c : State) (e : HandshakeError) : State := { c with phase := .down (some e) }

/-- A step of a client; nobody reads a connection that is down. -/
def step (id : Identity) (c : State) : Input → Except Panic State
  | .connect =>
    match c.phase with
    | .down _ => .ok { c with phase := .challenge }
    | _ => .ok c
  | .message msg now writeErr =>
    match c.phase with
    | .challenge => do
      match ← serverChallenge msg with
      | .error e => return c.fail e
      | .ok challenge =>
        let c := c.emit (.write (id.clientAuth challenge))
        match writeErr with
        | some err => return c.fail (.sendAuth err)
        | none => return { c with phase := .response }
    | .response => do
      match ← authResponse msg with
      | .error e => return c.fail e
      | .ok () => return { c with phase := .reading, lastRecv := now }
    | .reading => readFrame c msg now writeErr.isNone
    | .down _ => .ok c
  | .readErr err =>
    match c.phase with
    | .challenge => .ok (c.fail (.readChallenge err))
    | .response => .ok (c.fail (.readResponse err))
    | .reading => .ok { c with phase := .down none }
    | .down _ => .ok c
  | .stop =>
    match c.phase with
    | .reading => .ok { c with phase := .down none }
    | _ => .ok c

def run (id : Identity) (c : State) (ins : List Input) : Except Panic State := ins.foldlM (step id) c

/-- The reason of a denial ends within the message's capacity. -/
def DenialFits (msg : Message) : Prop :=
  ∀ rest reasonLen n, msg.elems = hsServerDeniesAuth :: rest → consumeLEB128 rest = some (reasonLen, n) →
    1 + n + reasonLen.toNat ≤ msg.cap

/-- The first message of the handshake is not empty, and the second one is no denial with a reason that is too long. -/
def Harmless (c : State) : Input → Prop
  | .message msg _ _ => (c.phase = .challenge → msg.elems ≠ []) ∧ (c.phase = .response → DenialFits msg)
  | _ => True

/-! ### What panics -/

variable {msg body : Message}

theorem consumeFrom_bounds {v w : BitVec 64} {i n : Nat} {buf : List Byte} (h : consumeFrom v i buf = some (w, n)) :
    i < n ∧ n ≤ i + buf.length := by
  induction buf generalizing v i with
  | nil => cases h
  | cons b buf ih =>
    simp only [consumeFrom] at h
    rw [List.length_cons]
    split at h
    · cases h
      omega
    · have := ih h
      omega

theorem index_zero {a : Byte} {rest : List Byte} (h : msg.elems = a :: rest) : msg.index 0 = .ok a := by
  have hlen : msg.len = rest.length + 1 := by simp [Slice.len, h]
  obtain ⟨b, hb, hget⟩ := Slice.index_eq (s := msg) (Int.le_refl 0) (by omega)
  have hba : a = b := by simpa [h] using hget
  rw [hb, hba]

theorem isOk_serverChallenge_iff (msg : Message) : (∃ r, serverChallenge msg = .ok r) ↔ msg.elems ≠ [] := by
  constructor
  · rintro ⟨r, hr⟩ hnil
    have hlen : msg.len = 0 := by simp [Slice.len, hnil]
    have hindex : msg.index 0 = .error (.index 0 msg.len) := Slice.index_error (by omega)
    simp [serverChallenge, hlen, hindex, bind, Except.bind, pure, Except.pure] at hr
  · intro hne
    obtain ⟨a, rest, helems⟩ := List.exists_cons_of_ne_nil hne
    have hindex := index_zero helems
    by_cases hlen : msg.len < 17
    · simp [serverChallenge, hlen, hindex, bind, Except.bind, pure, Except.pure]
    · obtain ⟨t, ht, -⟩ := msg.sub_eq 1 17 (by omega) (by omega) (by omega)
      by_cases ha : a = hsServerChallenge <;>
        simp [serverChallenge, hlen, hindex, ht, ha, bind, Except.bind, pure, Except.pure, Except.map]

theorem reason_bounds_iff {n : Nat} (cap : Nat) (len : BitVec 64) (hn : 1 + n ≤ cap) (hcap : cap < 2 ^ 63) :
    ((1 + n : Int) ≤ (1 + BitVec.ofNat 64 n + len).toInt ∧ (1 + BitVec.ofNat 64 n + len).toInt ≤ cap) ↔
      1 + n + len.toNat ≤ cap := by
  have hlen := len.isLt
  have hsum : (1 + BitVec.ofNat 64 n + len).toNat = (1 + n + len.toNat) % 2 ^ 64 := by
    have hone : (1 : BitVec 64).toNat = 1 := rfl
    simp only [BitVec.toNat_add, BitVec.toNat_ofNat, hone]
    omega
  rw [BitVec.toInt_eq_toNat_cond, hsum]
  split <;> omega

theorem denialFits_of_ne {a : Byte} {rest : List Byte} (h : msg.elems = a :: rest) (ha : a ≠ hsServerDeniesAuth) :
    DenialFits msg := by
  intro rest' reasonLen n h'
  rw [h] at h'
  exact absurd (List.cons.inj h').1 ha

theorem denialFits_iff {rest : List Byte} (h : msg.elems = hsServerDeniesAuth :: rest) :
    DenialFits msg ↔
      ∀ reasonLen n, consumeLEB128 rest = some (reasonLen, n) → 1 + n + reasonLen.toNat ≤ msg.cap := by
  constructor
  · intro hfits reasonLen n hleb
    exact hfits rest reasonLen n h hleb
  · rintro hfits rest' reasonLen n h' hleb
    obtain rfl : rest = rest' := (List.cons.inj (h.symm.trans h')).2
    exact hfits reasonLen n hleb

theorem isOk_authResponse_iff (msg : Message) : (∃ r, authResponse msg = .ok r) ↔ DenialFits msg := by
  rcases helems : msg.elems with _ | ⟨a, rest⟩
  · have hlen : msg.len = 0 := by simp [Slice.len, helems]
    simp [authResponse, DenialFits, hlen, helems, pure, Except.pure]
  have hlen : msg.len = rest.length + 1 := by simp [Slice.len, helems]
  have hindex := index_zero helems
  by_cases hdeny : a = hsServerDeniesAuth
  · subst hdeny
    obtain ⟨t, ht, htelems⟩ := msg.drop_eq 1 (by omega) (by omega)
    have htelems : t.elems = rest := by rw [htelems, helems]; rfl
    rw [denialFits_iff helems]
    have hne : hsServerDeniesAuth ≠ hsServerConfirmsAuth := by decide
    rcases hleb : consumeLEB128 rest with _ | ⟨reasonLen, n⟩
    · simp [authResponse, hlen, hindex, ht, htelems, hleb, hne, bind, Except.bind, pure, Except.pure]
    · have hn := consumeFrom_bounds hleb
      have hle := msg.len_le_cap
      have hsub := msg.isOk_sub_iff (1 + n) (1 + BitVec.ofNat 64 n + reasonLen).toInt
      rw [reason_bounds_iff msg.cap reasonLen (by omega) msg.cap_lt, and_iff_right (by omega)] at hsub
      simp only [authResponse, hlen, hindex, ht, htelems, hleb, if_neg hne, if_true, Nat.succ_ne_zero, if_false, bind,
        Except.bind, pure, Except.pure]
      generalize msg.sub (1 + n) (1 + BitVec.ofNat 64 n + reasonLen).toInt = cut at hsub ⊢
      rcases cut with p | s <;> simpa using hsub
  · refine iff_of_true ?_ (denialFits_of_ne helems hdeny)
    by_cases hconfirm : a = hsServerConfirmsAuth <;>
      simp [authResponse, hlen, hindex, hconfirm, hdeny, bind, Except.bind, pure, Except.pure]

theorem uint64?_eq {b : Message} (h : 8 ≤ b.len) : uint64? b = .ok (uint64 (b.elems.take 8)) := by
  obtain ⟨a, ha, -⟩ := Slice.index_eq (s := b) (i := 7) (by omega) (by omega)
  simp [uint64?, ha, bind, Except.bind, pure, Except.pure]

theorem uint32?_eq {b : Message} (h : 4 ≤ b.len) : uint32? b = .ok (BigEndian.decode (b.elems.take 4)) := by
  obtain ⟨a, ha, -⟩ := Slice.index_eq (s := b) (i := 3) (by omega) (by omega)
  simp [uint32?, ha, bind, Except.bind, pure, Except.pure]

theorem len_sub {b : Message} {lo hi : Int} (h : b.elems = (body.elems.take hi.toNat).drop lo.toNat) (hhi : hi ≤ body.len) :
    b.len = hi.toNat - lo.toNat := by
  simp only [Slice.len] at hhi ⊢
  rw [h, List.length_drop, List.length_take]
  omega

theorem handleRecvDatagram?_eq (body : Message) : handleRecvDatagram? body = .ok (handleRecvDatagram body.elems) := by
  have hbody : body.len = body.elems.length := rfl
  by_cases hlen : body.elems.length < 33
  · simp [handleRecvDatagram?, handleRecvDatagram, hbody, hlen, pure, Except.pure]
  obtain ⟨src, hsrc, hsrcElems⟩ := body.sub_eq 0 32 (by omega) (by omega) (by omega)
  obtain ⟨payload, hpayload, helems⟩ := body.drop_eq 33 (by omega) (by omega)
  have hplen : payload.len = body.elems.length - 33 := by simp [Slice.len, helems]
  by_cases hshort : body.elems.length - 33 < 9
  · simp [handleRecvDatagram?, handleRecvDatagram, hbody, hlen, hsrc, hpayload, hplen, hshort, bind, Except.bind, pure,
      Except.pure]
  obtain ⟨b, hb, hbElems⟩ := payload.sub_eq 0 8 (by omega) (by omega) (by omega)
  obtain ⟨data, hdata, hdataElems⟩ := payload.drop_eq 9 (by omega) (by omega)
  have hblen := len_sub hbElems (by omega)
  obtain ⟨flags, hflags, hget⟩ := Slice.index_eq (s := payload) (i := 8) (by omega) (by omega)
  have hflags' : (body.elems.drop 33).getD 8 0 = flags := by
    rw [helems] at hget
    rw [List.getD_eq_getElem?_getD]
    exact congrArg (Option.getD · 0) hget
  simp only [handleRecvDatagram?, handleRecvDatagram, hbody, hlen, hsrc, hpayload, hplen, List.length_drop, hshort, hb,
    uint64?_eq (b := b) (by rw [hblen]; decide), hflags, hdata, hflags', hsrcElems, hbElems, hdataElems, helems, if_false,
    bind, Except.bind, pure, Except.pure]
  simp [List.take_take]

theorem isOk_readFrame (c : State) (msg : Message) (now : Int) (sent : Bool) :
    ∃ c', readFrame c msg now sent = .ok c' := by
  rcases helems : msg.elems with _ | ⟨frameType, rest⟩
  · have hlen : msg.len = 0 := by simp [Slice.len, helems]
    simp [readFrame, hlen, pure, Except.pure]
  have hlen : msg.len = rest.length + 1 := by simp [Slice.len, helems]
  obtain ⟨body, hbody, hbelems⟩ := msg.drop_eq 1 (by omega) (by omega)
  unfold readFrame
  simp only [hlen, index_zero helems, hbody, bind, Except.bind, pure, Except.pure, Nat.succ_ne_zero, if_false,
    handleRecvDatagram?_eq]
  split
  · exact ⟨_, rfl⟩
  split
  · split
    · exact ⟨_, rfl⟩
    · obtain ⟨b, hb, hbE⟩ := body.sub_eq 0 8 (by omega) (by omega) (by omega)
      have hblen := len_sub hbE (by omega)
      simp [hb, uint64?_eq (b := b) (by rw [hblen]; decide)]
  split
  · split <;> exact ⟨_, rfl⟩
  split
  · split
    · exact ⟨_, rfl⟩
    · obtain ⟨b, hb, -⟩ := body.sub_eq 0 32 (by omega) (by omega) (by omega)
      simp [hb]
  split
  · exact ⟨_, rfl⟩
  split
  · split
    · exact ⟨_, rfl⟩
    · obtain ⟨b, hb, hbE⟩ := body.sub_eq 0 4 (by omega) (by omega) (by omega)
      obtain ⟨d, hd, hdE⟩ := body.sub_eq 4 8 (by omega) (by omega) (by omega)
      have hblen := len_sub hbE (by omega)
      have hdlen := len_sub hdE (by omega)
      simp [hb, hd, uint32?_eq (b := b) (by rw [hblen]; decide), uint32?_eq (b := d) (by rw [hdlen]; decide)]
  split
  · split
    · exact ⟨_, rfl⟩
    · obtain ⟨s, hs, -⟩ := Slice.index_eq (s := body) (i := 0) (by omega) (by omega)
      simp [hs]
  · exact ⟨_, rfl⟩

theorem isOk_step_iff (id : Identity) (c : State) (i : Input) : (∃ c', step id c i = .ok c') ↔ Harmless c i := by
  cases i with
  | connect => cases hc : c.phase <;> simp [step, Harmless, hc]
  | readErr err => cases hc : c.phase <;> simp [step, Harmless, hc]
  | stop => cases hc : c.phase <;> simp [step, Harmless, hc]
  | message msg now writeErr =>
    have hchallenge := isOk_serverChallenge_iff msg
    have hresponse := isOk_authResponse_iff msg
    cases hc : c.phase with
    | down err => simp [step, Harmless, hc]
    | challenge =>
      simp only [step, Harmless, hc, forall_const, reduceCtorEq, IsEmpty.forall_iff, and_true, bind, Except.bind]
      rw [← hchallenge]
      rcases serverChallenge msg with p | e | challenge
      · simp
      · simp [pure, Except.pure]
      · cases writeErr <;> simp [pure, Except.pure]
    | response =>
      simp only [step, Harmless, hc, forall_const, reduceCtorEq, IsEmpty.forall_iff, true_and, bind, Except.bind]
      rw [← hresponse]
      rcases authResponse msg with p | e | u <;> simp [pure, Except.pure]
    | reading =>
      have hread := isOk_readFrame c msg now writeErr.isNone
      simpa [step, Harmless, hc] using hread

/-- A run panics nowhere exactly if the handshakes in it are harmless. -/
theorem no_crash_iff (id : Identity) (c : State) (ins : List Input) :
    (∃ c', run id c ins = .ok c') ↔ execMeets (fun c i => (step id c i).toOption) Harmless c ins := by
  induction ins generalizing c with
  | nil => simp [run, execMeets, pure, Except.pure]
  | cons i ins ih =>
    have hiff := isOk_step_iff id c i
    rcases hstep : step id c i with p | c'
    · have hno : ¬ Harmless c i := by simp [← hiff, hstep]
      simp [run, execMeets, hstep, hno, bind, Except.bind]
    · have hyes : Harmless c i := hiff.1 ⟨c', hstep⟩
      simpa [run, execMeets, hstep, hyes, bind, Except.bind, Except.toOption] using ih c'

def plain (elems : List Byte) (h : elems.length + 0 < 2 ^ 63) : Message := ⟨elems, [], h⟩

def start : State :=
  { phase := .down none, pendingPing := 0, lastRecv := 0, lastPong := 0, pongCnt := 0, effects := [] }

/-- An empty first message, and a denial of two bytes whose reason is said to have five. -/
theorem handshake_crashes :
    (∀ id, run id start [.connect, .message (plain [] (by decide)) 0 none] = .error (.index 0 0)) ∧
      ∀ id, run id start [.connect, .message (plain (List.replicate 17 0) (by decide)) 0 none,
        .message (plain [hsServerDeniesAuth, 5] (by decide)) 0 none] = .error (.bounds 2 7 2) := by
  constructor <;> exact fun _ => rfl

end Libp2px.Iroh.Client
