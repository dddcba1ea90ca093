import Libp2px.Events.Hub
import Mathlib

/-!
# Forwarded messages

`isMsgSeen` and `handlePubSubFwdStream` (`p2put/pso_pubsub.go`, and `p2put/pso_nopubsub.go` for the build without pubsub).
The ids seen are forgotten after `dedupTTL`, and an `int32` counts them; a message is used as `json.Unmarshal` left it.
-/

namespace Libp2px.Events

/-- `dedupTTL`: ten minutes, in nanoseconds. -/
def dedupTTL : Int := 600000000000

def dedupMaxSize : Int := 2000

/-- `seenMsgIDs`, with the times, and `dedupCount`. -/
structure Dedup (ι : Type) where
  seen : List (ι × Int) := []
  count : BitVec 32 := 0

namespace Dedup

variable {ι : Type} [DecidableEq ι]

/-- `isMsgSeen` at the time `now`. -/
def isMsgSeen (d : Dedup ι) (id : ι) (now : Int) : Dedup ι × Bool :=
  if id ∈ d.seen.map (·.1) then (d, true)
  else
    let seen := d.seen ++ [(id, now)]
    if (d.count + 1).toInt ≥ dedupMaxSize then
      let kept := seen.filter fun e => ¬now - e.2 > dedupTTL
      (⟨kept, BitVec.ofNat 32 kept.length⟩, false)
    else (⟨seen, d.count + 1⟩, false)

/-- The ids and times of calls, the latest one first. -/
def after : List (ι × Int) → Dedup ι
  | [] => {}
  | c :: calls => ((after calls).isMsgSeen c.1 c.2).1

def result (calls : List (ι × Int)) (c : ι × Int) : Bool := ((after calls).isMsgSeen c.1 c.2).2

variable {d : Dedup ι} {id : ι} {now : Int} {e : ι × Int} {calls : List (ι × Int)}

theorem mem_isMsgSeen (he : e ∈ d.seen) (hage : now - e.2 ≤ dedupTTL) : e ∈ (d.isMsgSeen id now).1.seen := by
  unfold isMsgSeen
  split
  · exact he
  · simp only
    split
    · exact List.mem_filter.2 ⟨List.mem_append_left _ he, by simpa using hage⟩
    · exact List.mem_append_left _ he

theorem isMsgSeen_new (h : (d.isMsgSeen id now).2 = false) : (id, now) ∈ (d.isMsgSeen id now).1.seen := by
  unfold isMsgSeen at h ⊢
  split at h
  · cases h
  · rename_i hno
    rw [if_neg hno]
    simp only
    split
    · exact List.mem_filter.2 ⟨by simp, by simp [dedupTTL]⟩
    · simp

theorem mem_after {between : List (ι × Int)} (he : e ∈ (after calls).seen) (hage : ∀ c ∈ between, c.2 - e.2 ≤ dedupTTL) :
    e ∈ (after (between ++ calls)).seen := by
  induction between with
  | nil => exact he
  | cons c between ih =>
    rw [List.forall_mem_cons] at hage
    exact mem_isMsgSeen (ih hage.2) hage.1

theorem count_isMsgSeen (hcount : d.count.toInt = d.seen.length) (hlen : (d.isMsgSeen id now).1.seen.length < 2 ^ 31) :
    (d.isMsgSeen id now).1.count.toInt = (d.isMsgSeen id now).1.seen.length := by
  unfold isMsgSeen at hlen ⊢
  split
  · exact hcount
  · rename_i hno
    rw [if_neg hno] at hlen
    simp only at hlen ⊢
    split at hlen
    · rename_i hfull
      simp only at hlen
      rw [if_pos hfull, BitVec.toInt_ofNat', Int.bmod_eq_of_le_mul_two (by omega) (by omega)]
    · rename_i hroom
      rw [if_neg hroom]
      simp only [List.length_append, List.length_singleton] at hlen ⊢
      rw [BitVec.toInt_add, hcount]
      exact Int.bmod_eq_of_le_mul_two (by simp; omega) (by simp; omega)

/-- Calls with the same id that both return false are more than `dedupTTL` apart.  After every call the counter is the
number of ids, exactly if there are never `2^31` of them. -/
theorem dedup_counts_iff (calls : List (ι × Int)) (htimes : calls.Pairwise (·.2 ≥ ·.2)) :
    (∀ later between earlier first second, calls = later ++ second :: (between ++ first :: earlier) →
        first.1 = second.1 → result earlier first = false → result (between ++ first :: earlier) second = false →
        second.2 - first.2 > dedupTTL) ∧
      ((∀ made, made <:+ calls → (after made).count.toInt = (after made).seen.length) ↔
        ∀ made, made <:+ calls → (after made).seen.length < 2 ^ 31) := by
  refine ⟨?_, fun h made hmade => ?_, fun h made hmade => ?_⟩
  · rintro later between earlier first second rfl hid hfirst hsecond
    by_contra hnear
    have hin : first ∈ (after (between ++ first :: earlier)).seen := by
      refine mem_after (isMsgSeen_new hfirst) fun c hc => ?_
      have hle := (List.pairwise_cons.1 (List.pairwise_append.1 htimes).2.1).1 c (List.mem_append_left _ hc)
      omega
    have hknown : second.1 ∈ (after (between ++ first :: earlier)).seen.map (·.1) := hid ▸ List.mem_map_of_mem hin
    simp [result, isMsgSeen, hknown] at hsecond
  · have hlt := BitVec.toInt_lt (x := (after made).count)
    have heq := h made hmade
    omega
  · induction made with
    | nil => rfl
    | cons c made ih => exact count_isMsgSeen (ih ((List.suffix_cons c made).trans hmade)) (h (c :: made) hmade)

theorem dedup_counts_one : (after [("a", 0)]).count.toInt = (after [("a", (0 : Int))]).seen.length :=
  (dedup_counts_iff [("a", 0)] (by simp)).2.2 (by
    intro made hmade
    rcases List.suffix_cons_iff.1 hmade with rfl | hmade
    · decide
    · rw [List.suffix_nil.1 hmade]
      decide) _ (List.suffix_refl _)

def distinct : Nat → List (Nat × Int)
  | 0 => []
  | n + 1 => (n, 0) :: distinct n

theorem seen_distinct (n : Nat) :
    (after (distinct n)).seen.length = n ∧ ∀ e ∈ (after (distinct n)).seen, e.1 < n ∧ e.2 = 0 := by
  induction n with
  | zero => exact ⟨rfl, by simp [distinct, after]⟩
  | succ n ih =>
    have hnew : n ∉ (after (distinct n)).seen.map (·.1) := by
      intro hmem
      obtain ⟨e, he, heq⟩ := List.mem_map.1 hmem
      have := (ih.2 e he).1
      omega
    have hseen : (after (distinct (n + 1))).seen = (after (distinct n)).seen ++ [(n, 0)] := by
      show ((after (distinct n)).isMsgSeen n 0).1.seen = _
      rw [isMsgSeen, if_neg hnew]
      simp only
      split
      · refine List.filter_eq_self.2 fun e he => ?_
        have hzero : e.2 = 0 := by
          rcases List.mem_append.1 he with he | he
          · exact (ih.2 e he).2
          · rw [List.mem_singleton.1 he]
        simp [hzero, dedupTTL]
      · rfl
    rw [hseen]
    refine ⟨by simp [ih.1], fun e he => ?_⟩
    rcases List.mem_append.1 he with he | he
    · exact ⟨(ih.2 e he).1.trans (Nat.lt_succ_self n), (ih.2 e he).2⟩
    · rw [List.mem_singleton.1 he]
      exact ⟨Nat.lt_succ_self n, rfl⟩

theorem times_distinct (n : Nat) : ∀ c ∈ distinct n, c.2 = 0 := by
  induction n with
  | zero => simp [distinct]
  | succ n ih => simpa [distinct] using ih

theorem count_overflows :
    (distinct (2 ^ 31)).Pairwise (·.2 ≥ ·.2) ∧
      (after (distinct (2 ^ 31))).count.toInt ≠ (after (distinct (2 ^ 31))).seen.length := by
  refine ⟨?_, ?_⟩
  · refine List.pairwise_of_forall_mem_list fun a ha b hb => ?_
    rw [times_distinct _ a ha, times_distinct _ b hb]
  · rw [(seen_distinct _).1]
    exact ne_of_lt BitVec.toInt_lt

end Dedup

/-! ### What a peer sends -/

/-- The message as `json.Unmarshal` left it; a slice that is nil has no bytes. -/
structure Decoded where
  sender : List UInt8 := []
  data : List UInt8 := []
  seqno : List UInt8 := []
  topic : Option String := none

inductive Panic
  | nilPointer
  | indexOutOfRange

/-- `pubsub.DefaultMsgIdFn`, with its getters for a nil message, and `fwdMsgID`. -/
def msgID (msg : Option Decoded) : List UInt8 := (msg.map (·.sender)).getD [] ++ (msg.map (·.seqno)).getD []

/-- The conversions to a text: `string` and `base64.StdEncoding.EncodeToString`. -/
structure Encoding where
  string : List UInt8 → String
  base64 : List UInt8 → String

/-- `handlePubSubFwdStream` from the decoded message on: what it puts on `rawChan`, unless it panics. -/
def forwardDecoded (enc : Encoding) (d : Dedup (List UInt8)) (now : Int) (pid : String) (msg : Option Decoded) :
    Except Panic (Option (Raw PubsubEvent)) :=
  if (d.isMsgSeen (msgID msg) now).2 then .ok none
  else
    match msg with
    | none => .error .nilPointer
    | some m =>
      -- `binary.BigEndian.Uint64`
      if m.seqno.length < 8 then .error .indexOutOfRange
      else
        match m.topic with
        | none => .error .nilPointer
        | some topic =>
          .ok (some (.event ⟨0, "pubsub", topic, ⟨enc.string m.sender, enc.string m.data, enc.base64 m.seqno, topic, pid⟩⟩))

/-- The handler of the build without pubsub, where the message and its topic are always there. -/
def forwardStub (enc : Encoding) (d : Dedup (List UInt8)) (now : Int) (pid : String) (m : Decoded) (topic : String) :
    Except Panic (Option (Raw PubsubEvent)) :=
  forwardDecoded enc d now pid (some { m with topic := some topic })

/-- A message does no harm exactly if it has been seen, or it is there with a topic and eight bytes of sequence number. -/
theorem forward_safe_iff (enc : Encoding) (d : Dedup (List UInt8)) (now : Int) (pid : String) :
    (∀ msg, (∃ r, forwardDecoded enc d now pid msg = .ok r) ↔ ((d.isMsgSeen (msgID msg) now).2 = false →
        ∃ m, msg = some m ∧ 8 ≤ m.seqno.length ∧ m.topic.isSome = true)) ∧
      ∀ m topic, (∃ r, forwardStub enc d now pid m topic = .ok r) ↔
        ((d.isMsgSeen (m.sender ++ m.seqno) now).2 = false → 8 ≤ m.seqno.length) := by
  have hsafe : ∀ msg, (∃ r, forwardDecoded enc d now pid msg = .ok r) ↔ ((d.isMsgSeen (msgID msg) now).2 = false →
      ∃ m, msg = some m ∧ 8 ≤ m.seqno.length ∧ m.topic.isSome = true) := by
    intro msg
    unfold forwardDecoded
    cases hseen : (d.isMsgSeen (msgID msg) now).2 with
    | true => simp
    | false =>
      cases msg with
      | none => simp
      | some m =>
        by_cases hlen : m.seqno.length < 8
        · simp [hlen]
        · cases htopic : m.topic <;> simp [hlen, htopic, not_lt.1 hlen]
  refine ⟨hsafe, fun m topic => ?_⟩
  rw [forwardStub, hsafe]
  simp [msgID]

/-- A nil message, and the one that `{}` leaves without a sequence number. -/
theorem forward_crashes :
    (∀ enc, forwardDecoded enc {} 0 "p" none = .error .nilPointer) ∧
      (∀ enc, forwardDecoded enc {} 0 "p" (some {}) = .error .indexOutOfRange) ∧
      ∀ enc, forwardStub enc {} 0 "p" {} "t" = .error .indexOutOfRange :=
  ⟨fun _ => rfl, fun _ => rfl, fun _ => rfl⟩

end Libp2px.Events
