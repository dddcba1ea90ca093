import Libp2px.RelayFile.Frame

/-!
# Datagrams over a stream

The UDP tunnel of `pbtunnel/pbtunnel.go`: `p2pUdpConn.Write` puts each datagram on a stream as two bytes of length
and the datagram, and three readers take the datagrams from such a stream: the loop of `handleUDPTunnel`, the one of
a `DriftServer` session, and `p2pUdpConn.implRead`.  The length is written as an `uint16` without a check, so a
datagram of 65536 bytes or more is announced with the rest of its length modulo `2 ^ 16`.

A stream is the list of the bytes that it took; what its environment decides is an argument.
-/

namespace Libp2px.Tunnel

open RelayFile (Byte ReadError readFull readFull_append)

abbrev Datagram := List Byte

/-! ### Writing -/

/-- The two bytes of header and the datagram, as `implWrite` hands them to `writen`. -/
def packet (buf : Datagram) : List Byte := BigEndian.encode 2 buf.length ++ buf

/-- The stream takes all the bytes of a `writen`, or some and fails, with the text "stream reset" in its error or
without. -/
inductive Outcome
  | all
  | cut (wn : Nat) (reset : Bool)
  deriving DecidableEq, Repr

inductive WriteError
  | closed
  | connect
  | stream (reset : Bool)
  deriving DecidableEq, Repr

/-- A `p2pUdpConn`: the bytes on the stream of its holder, and its `closed` flag, which is set whenever the holder is
cleared. -/
structure Conn where
  holder : Option (List Byte)
  closed : Bool
  closed_of_none : holder = none → closed = true

namespace Conn

/-- `DialUDP`, once it has its stream. -/
def dialUDP : Conn where
  holder := some []
  closed := false
  closed_of_none := nofun

def withStream (s : List Byte) (closed : Bool) : Conn where
  holder := some s
  closed := closed
  closed_of_none := nofun

def dropped : Conn where
  holder := none
  closed := true
  closed_of_none := fun _ => rfl

/-- `getStream`; `connects` says whether `connectOverStream` succeeds. -/
def getStream (c : Conn) (connects : Bool) : Conn × Except WriteError (List Byte) :=
  match c.holder with
  | some s => (c, .ok s)
  | none =>
    if c.closed then (c, .error .closed)
    else if connects then (withStream [] false, .ok [])
    else (dropped, .error .connect)

def implWrite (c : Conn) (connects : Bool) (out : Outcome) (buf : Datagram) : Conn × Except WriteError Nat :=
  match c.getStream connects with
  | (c, .error e) => (c, .error e)
  | (c, .ok s) =>
    match out with
    | .all => (withStream (s ++ packet buf) c.closed, .ok buf.length)
    | .cut wn reset => (withStream (s ++ (packet buf).take wn) c.closed, .error (.stream reset))

end Conn

/-- A call of `Write`: its datagram, and what happens in the first and the second `implWrite`. -/
structure Call where
  buf : Datagram
  connects : Bool
  out : Outcome
  connects' : Bool
  out' : Outcome

/-- `Write`: after a reset the holder is dropped and the datagram written again. -/
def Conn.write (c : Conn) (call : Call) : Conn × Except WriteError Nat :=
  match c.implWrite call.connects call.out call.buf with
  | (_, .error (.stream true)) => Conn.dropped.implWrite call.connects' call.out' call.buf
  | r => r

def Conn.writes (c : Conn) : List Call → Option Conn
  | [] => some c
  | call :: calls =>
    match c.write call with
    | (c, .ok _) => c.writes calls
    | (_, .error _) => none

variable {s : List Byte} {r : Reader} {i : Nat}

theorem Conn.write_ok {c c' : Conn} {call : Call} {n : Nat} (hs : c.holder = some s)
    (h : c.write call = (c', .ok n)) : c'.holder = some (s ++ packet call.buf) := by
  unfold Conn.write Conn.implWrite Conn.getStream at h
  rw [hs] at h
  cases hout : call.out with
  | all =>
    rw [hout] at h
    obtain ⟨rfl, -⟩ := Prod.mk.inj h
    rfl
  | cut wn reset =>
    rw [hout] at h
    cases reset with
    | true => cases h
    | false => cases h

theorem Conn.holder_of_writes {c c' : Conn} {calls : List Call} (hs : c.holder = some s)
    (h : c.writes calls = some c') : c'.holder = some (s ++ (calls.map (·.buf)).flatMap packet) := by
  induction calls generalizing c s with
  | nil =>
    cases h
    simpa using hs
  | cons call calls ih =>
    rw [Conn.writes] at h
    rcases hw : c.write call with ⟨c₁, e | n⟩
    · rw [hw] at h
      cases h
    · rw [hw] at h
      have hc₁ := Conn.write_ok hs hw
      rw [ih hc₁ h, List.map_cons, List.flatMap_cons, List.append_assoc]

/-! ### Reading -/

/-- What each reader does first: two bytes, and as many bytes as they say. -/
def readDatagram (s : List Byte) : Except ReadError (Datagram × List Byte) :=
  match readFull 2 s with
  | .error e => .error e
  | .ok (hdr, s) => readFull (BigEndian.decode hdr) s

/-- A buffer given to `Read`: the array behind it, as long as its capacity, and its length. -/
structure Buffer where
  array : List Byte
  len : Nat
  len_le : len ≤ array.length

/-- What `implRead` leaves in the array: `copy` moves at most the length of the buffer, and the caller is told the
length of the datagram. With less capacity than that it panics. -/
def Buffer.copy (b : Buffer) (buf2 : Datagram) : Option Datagram :=
  if b.array.length < buf2.length then none
  else some ((buf2.take b.len ++ b.array.drop (min b.len buf2.length)).take buf2.length)

/-- The two loops pass each datagram to a socket, whose `i`-th write succeeds or ends the loop; the `i`-th `implRead`
has a buffer of its caller. -/
inductive Reader
  | handleUDPTunnel (socket : Nat → Datagram → Bool)
  | driftSession (socket : Nat → Datagram → Bool)
  | implRead (buffer : Nat → Buffer)

/-- What a reader makes of the `i`-th datagram that it reads; with `none` it reads no further. -/
def Reader.give : Reader → Nat → Datagram → Option Datagram
  | handleUDPTunnel socket, i, buf => if socket i buf then some buf else none
  | driftSession socket, i, buf => if socket i buf then some buf else none
  | implRead buffer, i, buf => (buffer i).copy buf

theorem readFull_ok {n : Nat} {s a rest : List Byte} (h : readFull n s = .ok (a, rest)) :
    a.length = n ∧ s = a ++ rest := by
  unfold readFull at h
  split at h
  · rename_i hle
    obtain ⟨rfl, rfl⟩ := Prod.mk.inj (Except.ok.inj h)
    exact ⟨by simpa using hle, (List.take_append_drop n s).symm⟩
  · split at h <;> cases h

theorem readDatagram_ok {s rest : List Byte} {buf : Datagram} (h : readDatagram s = .ok (buf, rest)) :
    buf.length < 2 ^ 16 ∧ rest.length < s.length := by
  unfold readDatagram at h
  rcases hhdr : readFull 2 s with e | ⟨hdr, s'⟩
  · rw [hhdr] at h
    cases h
  · rw [hhdr] at h
    obtain ⟨hlen, hs⟩ := readFull_ok hhdr
    obtain ⟨hbuf, hs'⟩ := readFull_ok h
    have hdec := BigEndian.decode_lt hdr
    rw [hlen] at hdec
    refine ⟨by omega, ?_⟩
    rw [hs, hs', List.length_append, List.length_append]
    omega

/-- A reader on a stream that ends: the datagrams that it gives on, from number `i` on. -/
def Reader.read (r : Reader) (i : Nat) (s : List Byte) : List Datagram :=
  match _h : readDatagram s with
  | .error _ => []
  | .ok (buf, rest) =>
    match r.give i buf with
    | none => []
    | some d => d :: r.read (i + 1) rest
termination_by s.length
decreasing_by exact (readDatagram_ok ‹_›).2

/-! ### The datagrams that come out -/

theorem Buffer.length_copy {b : Buffer} {buf2 d : Datagram} (h : b.copy buf2 = some d) : d.length = buf2.length := by
  unfold Buffer.copy at h
  split at h
  · cases h
  · rename_i hcap
    cases h
    have hlen := b.len_le
    simp only [List.length_take, List.length_append, List.length_drop]
    omega

theorem Reader.length_give {buf d : Datagram} (h : r.give i buf = some d) :
    d.length = buf.length := by
  cases r with
  | handleUDPTunnel socket =>
    simp only [Reader.give, Option.ite_none_right_eq_some] at h
    rw [Option.some.inj h.2]
  | driftSession socket =>
    simp only [Reader.give, Option.ite_none_right_eq_some] at h
    rw [Option.some.inj h.2]
  | implRead buffer => exact Buffer.length_copy h

theorem Reader.read_error {e : ReadError} (h : readDatagram s = .error e) :
    r.read i s = [] := by
  rw [Reader.read]
  split
  · rfl
  · rename_i h'
    rw [h] at h'
    cases h'

theorem Reader.read_ok {s rest : List Byte} {buf : Datagram} (h : readDatagram s = .ok (buf, rest)) :
    r.read i s = match r.give i buf with
      | none => []
      | some d => d :: r.read (i + 1) rest := by
  rw [Reader.read]
  split
  · rename_i h'
    rw [h] at h'
    cases h'
  · rename_i h'
    rw [h] at h'
    cases h'
    rfl

theorem Reader.length_lt_of_mem_read {d : Datagram} (hd : d ∈ r.read i s) :
    d.length < 2 ^ 16 := by
  induction hs : s.length using Nat.strong_induction_on generalizing s i with
  | _ n ih =>
    rcases hread : readDatagram s with e | ⟨buf, rest⟩
    · rw [Reader.read_error hread] at hd
      cases hd
    · obtain ⟨hlt, hrest⟩ := readDatagram_ok hread
      rw [Reader.read_ok hread] at hd
      rcases hgive : r.give i buf with _ | d₀
      · rw [hgive] at hd
        cases hd
      · rw [hgive] at hd
        rcases List.mem_cons.1 hd with rfl | hmem
        · rwa [Reader.length_give hgive]
        · exact ih rest.length (hs ▸ hrest) hmem rfl

theorem readDatagram_packet {buf : Datagram} (rest : List Byte) (h : buf.length < 2 ^ 16) :
    readDatagram (packet buf ++ rest) = .ok (buf, rest) := by
  have hhdr := readFull_append (BigEndian.encode 2 buf.length) (buf ++ rest)
  rw [BigEndian.length_encode] at hhdr
  unfold readDatagram packet
  rw [List.append_assoc, hhdr]
  simp only [BigEndian.decode_encode_of_lt (w := 2) h]
  exact readFull_append buf rest

theorem Reader.read_packets {ds : List Datagram} (hshort : ∀ d ∈ ds, d.length < 2 ^ 16) :
    r.read i (ds.flatMap packet) = ds ↔ ∀ j d, ds[j]? = some d → r.give (i + j) d = some d := by
  induction ds generalizing i with
  | nil =>
    rw [List.flatMap_nil, Reader.read_error (e := .eof) rfl]
    simp
  | cons d ds ih =>
    rw [List.flatMap_cons, Reader.read_ok (readDatagram_packet _ (hshort d List.mem_cons_self))]
    have ih := ih (i := i + 1) (fun d' hd' => hshort d' (List.mem_cons_of_mem d hd'))
    constructor
    · intro h j d' hj
      rcases hgive : r.give i d with _ | d₀
      · rw [hgive] at h
        cases h
      · rw [hgive] at h
        obtain ⟨rfl, htail⟩ := List.cons.inj h
        cases j with
        | zero =>
          cases hj
          exact hgive
        | succ j =>
          rw [show i + (j + 1) = i + 1 + j by omega]
          exact ih.1 htail j d' hj
    · intro h
      have hhead : r.give i d = some d := h 0 d rfl
      have htail := ih.2 (fun j d' hj => by
        rw [show i + 1 + j = i + (j + 1) by omega]
        exact h (j + 1) d' hj)
      rw [hhead, htail]

/-- A reader gives its `i`-th datagram on as read: the socket takes it, or the buffer has the capacity for it and,
past its length, already its bytes. -/
def Reader.Takes : Reader → Nat → Datagram → Prop
  | handleUDPTunnel socket, i, d => socket i d = true
  | driftSession socket, i, d => socket i d = true
  | implRead buffer, i, d =>
    d.length ≤ (buffer i).array.length ∧ d.drop (buffer i).len = ((buffer i).array.take d.length).drop (buffer i).len

theorem Buffer.copy_eq_iff (b : Buffer) (d : Datagram) :
    b.copy d = some d ↔ d.length ≤ b.array.length ∧ d.drop b.len = (b.array.take d.length).drop b.len := by
  unfold Buffer.copy
  by_cases hcap : b.array.length < d.length
  · simp [hcap]
  rw [if_neg hcap, Option.some_inj]
  have hlen := b.len_le
  by_cases hd : d.length ≤ b.len
  · simp only [List.take_of_length_le hd, Nat.min_eq_right hd, List.take_left', List.drop_of_length_le hd,
      true_iff]
    refine ⟨by omega, (List.drop_of_length_le ?_).symm⟩
    rw [List.length_take]
    omega
  · have htake : (d.take b.len).length = b.len := by
      rw [List.length_take]
      omega
    rw [Nat.min_eq_left (by omega), List.take_append, htake, List.take_of_length_le (by omega), List.drop_take]
    constructor
    · intro h
      refine ⟨by omega, ?_⟩
      conv_lhs => rw [← h]
      rw [List.drop_left' htake]
    · rintro ⟨-, h⟩
      rw [← h, List.take_append_drop]

theorem Reader.give_eq_iff (r : Reader) (i : Nat) (d : Datagram) : r.give i d = some d ↔ r.Takes i d := by
  cases r with
  | handleUDPTunnel socket => simp [Reader.give, Reader.Takes]
  | driftSession socket => simp [Reader.give, Reader.Takes]
  | implRead buffer => exact Buffer.copy_eq_iff (buffer i) d

/-- The datagrams of calls of `Write` without an error come out at a reader, all, in order and unchanged, if and only
if each is shorter than 65536 bytes and the reader takes it. -/
theorem datagrams_recovered_iff {calls : List Call} {c : Conn} (h : Conn.dialUDP.writes calls = some c) (r : Reader) :
    r.read 0 (c.holder.getD []) = calls.map (·.buf) ↔
      ∀ i d, (calls.map (·.buf))[i]? = some d → d.length < 2 ^ 16 ∧ r.Takes i d := by
  have hholder : c.holder = some ((calls.map (·.buf)).flatMap packet) := Conn.holder_of_writes (s := []) rfl h
  rw [hholder, Option.getD_some]
  generalize calls.map (·.buf) = ds
  constructor
  · intro hread
    have hshort : ∀ d ∈ ds, d.length < 2 ^ 16 := by
      intro d hd
      rw [← hread] at hd
      exact Reader.length_lt_of_mem_read hd
    intro i d hi
    have hgive := (Reader.read_packets hshort).1 hread i d hi
    rw [Nat.zero_add] at hgive
    exact ⟨hshort d (List.mem_of_getElem? hi), (r.give_eq_iff i d).1 hgive⟩
  · intro hall
    have hshort : ∀ d ∈ ds, d.length < 2 ^ 16 := by
      intro d hd
      obtain ⟨i, hi⟩ := List.mem_iff_getElem?.1 hd
      exact (hall i d hi).1
    apply (Reader.read_packets hshort).2
    intro j d hj
    rw [Nat.zero_add]
    exact (r.give_eq_iff j d).2 (hall j d hj).2

def plainCall (buf : Datagram) : Call where
  buf := buf
  connects := true
  out := .all
  connects' := true
  out' := .all

theorem datagrams_recovered_two :
    Conn.dialUDP.writes [plainCall [1, 2], plainCall []] = some (.withStream [0, 2, 1, 2, 0, 0] false) ∧
      (Reader.handleUDPTunnel fun _ _ => true).read 0 [0, 2, 1, 2, 0, 0] = [[1, 2], []] := by
  have hwrites : Conn.dialUDP.writes [plainCall [1, 2], plainCall []] =
      some (.withStream [0, 2, 1, 2, 0, 0] false) := rfl
  refine ⟨hwrites, (datagrams_recovered_iff hwrites (.handleUDPTunnel fun _ _ => true)).2 ?_⟩
  intro i d hi
  refine ⟨?_, rfl⟩
  have hmem : d ∈ [[1, 2], ([] : Datagram)] := List.mem_of_getElem? hi
  clear hi
  revert d
  decide

/-- A datagram of 65536 bytes is written without an error and does not come out. -/
theorem long_datagram_lost :
    ∃ c, Conn.dialUDP.writes [plainCall (List.replicate 65536 7)] = some c ∧
      (Reader.handleUDPTunnel fun _ _ => true).read 0 (c.holder.getD []) ≠ [List.replicate 65536 7] := by
  refine ⟨_, rfl, ?_⟩
  intro hread
  have hlt := Reader.length_lt_of_mem_read (hread ▸ List.mem_singleton_self (List.replicate 65536 (7 : Byte)))
  rw [List.length_replicate] at hlt
  omega

end Libp2px.Tunnel
