import Libp2px.Events.Hub
import Mathlib.Algebra.Order.Group.Int
import Mathlib.Data.List.Induction

/-!
# The event buffer

The ids of an `eventBuffer` (`p2put/utapi.go`) come from the clock, are repaired when the clock does not advance, and
are `int64`s.  Until the largest `int64` has been given out they increase, the buffer holds the last 128 events, and a
client that asks for what comes after the last id it knows gets what was pushed since.
-/

namespace Libp2px.Events.EventBuffer

variable {V : Type}

/-- The id that `push` gives at the clock reading `now`. -/
def nextID (lastID : Int) (now : BitVec 64) : Int :=
  if now.toInt ≤ lastID then (BitVec.ofInt 64 (lastID + 1)).toInt else now.toInt

/-- The end of `push`: old events are cut off. -/
def cut {α : Type} (cap : Nat) (events : List α) : List α :=
  if events.length > cap then events.drop (events.length - cap) else events

/-- `push` with the id as an `int64`. -/
def push64 (eb : EventBuffer V) (now : BitVec 64) (evt : Event V) : EventBuffer V where
  events := cut eventBufCap (eb.events ++ [{ evt with eventID := nextID eb.lastID now }])
  lastID := nextID eb.lastID now

/-- The buffer after some pushes. -/
def after (pushes : List (BitVec 64 × Event V)) : EventBuffer V :=
  pushes.foldl (fun eb p => eb.push64 p.1 p.2) empty

/-- What the buffer would be if no event were dropped. -/
def history (pushes : List (BitVec 64 × Event V)) : EventBuffer V :=
  pushes.foldl (fun eb p =>
    ⟨eb.events ++ [{ p.2 with eventID := nextID eb.lastID p.1 }], nextID eb.lastID p.1⟩) empty

/-- An event without its id. -/
def body (e : Event V) : Event V := { e with eventID := 0 }

def maxInt64 : Int := 2 ^ 63 - 1

/-- The ids increase, the buffer holds the last events in order, and `replay` from the last event of an earlier replay
gives the events pushed since. -/
structure Lawful (pushes : List (BitVec 64 × Event V)) : Prop where
  increasing : (after pushes).events.Pairwise (·.eventID < ·.eventID)
  latest : (after pushes).events.map body =
    (pushes.map fun p => body p.2).drop (pushes.length - min pushes.length eventBufCap)
  replay : ∀ afterID, (after pushes).replay afterID = (after pushes).events.filter fun e => e.eventID > afterID
  cursor : ∀ old new afterID e, pushes = old ++ new → new.length ≤ eventBufCap →
    e ∈ ((after old).replay afterID).getLast? → ((after pushes).replay e.eventID).map body = new.map fun p => body p.2

variable {pushes old new : List (BitVec 64 × Event V)} {p : BitVec 64 × Event V}

theorem history_append (pushes : List (BitVec 64 × Event V)) (p : BitVec 64 × Event V) :
    history (pushes ++ [p]) = ⟨(history pushes).events ++ [{ p.2 with eventID := nextID (history pushes).lastID p.1 }],
      nextID (history pushes).lastID p.1⟩ := by
  simp [history]

theorem map_body_history (pushes : List (BitVec 64 × Event V)) :
    (history pushes).events.map body = pushes.map fun p => body p.2 := by
  induction pushes using List.reverseRecOn with
  | nil => rfl
  | append_singleton pushes p ih => simp [history_append, ih, body]

theorem length_history (pushes : List (BitVec 64 × Event V)) : (history pushes).events.length = pushes.length := by
  simpa using congrArg List.length (map_body_history pushes)

theorem cut_append {α : Type} (cap : Nat) (l : List α) (x : α) :
    cut cap (l.drop (l.length - cap) ++ [x]) = (l ++ [x]).drop (l.length + 1 - cap) := by
  rw [← List.drop_append_of_le_length (by omega), cut, List.length_drop, List.length_append, List.length_singleton]
  split
  · rw [List.drop_drop]
    congr 1
    omega
  · congr 1
    omega

/-- The buffer is the end of the history. -/
theorem after_eq (pushes : List (BitVec 64 × Event V)) :
    after pushes = ⟨(history pushes).events.drop (pushes.length - eventBufCap), (history pushes).lastID⟩ := by
  induction pushes using List.reverseRecOn with
  | nil => simp [after, history, empty]
  | append_singleton pushes p ih =>
    have happ : after (pushes ++ [p]) = (after pushes).push64 p.1 p.2 := by simp [after]
    rw [happ, ih, push64, history_append, List.length_append, List.length_singleton, ← length_history, cut_append]

theorem events_after (pushes : List (BitVec 64 × Event V)) :
    (after pushes).events = (history pushes).events.drop (pushes.length - eventBufCap) := by
  rw [after_eq]

/-- The ids so far increase and are at most `lastID`, which is an `int64`. -/
structure Ascends (eb : EventBuffer V) : Prop where
  increasing : eb.events.Pairwise (·.eventID < ·.eventID)
  below : ∀ e ∈ eb.events, e.eventID ≤ eb.lastID
  range : -2 ^ 63 ≤ eb.lastID ∧ eb.lastID < 2 ^ 63

theorem nextID_range (lastID : Int) (now : BitVec 64) : -2 ^ 63 ≤ nextID lastID now ∧ nextID lastID now < 2 ^ 63 := by
  unfold nextID
  split <;> exact ⟨BitVec.le_toInt _, BitVec.toInt_lt⟩

theorem lt_nextID {lastID : Int} (now : BitVec 64) (hr : -2 ^ 63 ≤ lastID ∧ lastID < 2 ^ 63) (hne : lastID ≠ maxInt64) :
    lastID < nextID lastID now := by
  unfold nextID maxInt64 at *
  split
  · rw [BitVec.toInt_ofInt, Int.bmod_eq_of_le_mul_two (by omega) (by omega)]
    omega
  · omega

theorem Ascends.push (h : (history pushes).Ascends) (hne : (history pushes).lastID ≠ maxInt64)
    (p : BitVec 64 × Event V) : (history (pushes ++ [p])).Ascends := by
  have hlt := lt_nextID p.1 h.range hne
  rw [history_append]
  refine ⟨List.pairwise_append.2 ⟨h.increasing, List.pairwise_singleton _ _, ?_⟩, ?_, nextID_range _ _⟩
  · intro a ha b hb
    rw [List.mem_singleton.1 hb]
    exact lt_of_le_of_lt (h.below a ha) hlt
  · intro e he
    rcases List.mem_append.1 he with he | he
    · exact (h.below e he).trans hlt.le
    · rw [List.mem_singleton.1 he]

theorem ascends_history (h : ∀ old p, old ++ [p] <+: pushes → (after old).lastID ≠ maxInt64) :
    (history pushes).Ascends := by
  induction pushes using List.reverseRecOn with
  | nil => exact ⟨List.Pairwise.nil, by simp [history, empty], by simp [history, empty]⟩
  | append_singleton pushes p ih =>
    have hlast := h pushes p (List.prefix_refl _)
    rw [after_eq] at hlast
    exact (ih fun old q hq => h old q (hq.trans (List.prefix_append _ _))).push hlast p

theorem history_prefix (old new : List (BitVec 64 × Event V)) :
    (history old).events <+: (history (old ++ new)).events := by
  induction new using List.reverseRecOn with
  | nil => simp
  | append_singleton new p ih =>
    rw [← List.append_assoc, history_append]
    exact ih.trans (List.prefix_append _ _)

theorem le_getLast {l : List (Event V)} (h : l.Pairwise (·.eventID < ·.eventID)) {e : Event V} (he : e ∈ l.getLast?) :
    ∀ a ∈ l, a.eventID ≤ e.eventID := by
  obtain ⟨pre, rfl⟩ := List.getLast?_eq_some_iff.1 he
  intro a ha
  rcases List.mem_append.1 ha with ha | ha
  · exact ((List.pairwise_append.1 h).2.2 a ha e (List.mem_singleton_self e)).le
  · rw [List.mem_singleton.1 ha]

theorem lawful_of_ascends (h : ∀ old, old <+: pushes → (history old).Ascends) : Lawful pushes := by
  have hbuf : ∀ old, old <+: pushes → (after old).events.Pairwise (·.eventID < ·.eventID) := by
    intro old hold
    rw [events_after]
    exact (h old hold).increasing.sublist (List.drop_sublist _ _)
  refine ⟨hbuf pushes (List.prefix_refl _), ?_, fun afterID => by rw [EventBuffer.replay], ?_⟩
  · have hmin : pushes.length - min pushes.length eventBufCap = pushes.length - eventBufCap := by omega
    rw [events_after, List.map_drop, map_body_history, hmin]
  · rintro old new afterID e rfl hnew he
    have hprefix := List.prefix_append old new
    obtain ⟨added, hadded⟩ := history_prefix old new
    have hbody : added.map body = new.map fun p => body p.2 := by
      have hall := map_body_history (old ++ new)
      rw [← hadded, List.map_append, List.map_append, map_body_history] at hall
      exact List.append_cancel_left hall
    -- what is left of the old events has been replayed, and the new ones come after it
    have hsplit : (after (old ++ new)).events = (history old).events.drop ((old ++ new).length - eventBufCap) ++ added := by
      rw [events_after, ← hadded, List.drop_append_of_le_length]
      rw [length_history, List.length_append]
      omega
    have hmem := List.mem_filter.1 (List.mem_of_getLast? he)
    have hold : ∀ a ∈ (history old).events.drop ((old ++ new).length - eventBufCap), ¬a.eventID > e.eventID := by
      intro a ha hgt
      have ha' : a ∈ (after old).replay afterID := by
        rw [EventBuffer.replay, List.mem_filter, events_after]
        refine ⟨(List.drop_sublist_drop_left _ ?_).subset ha, decide_eq_true ((of_decide_eq_true hmem.2).trans hgt)⟩
        rw [List.length_append]
        omega
      exact absurd (le_getLast ((hbuf old hprefix).filter _) he a ha') (not_le.2 hgt)
    have hnew' : ∀ a ∈ added, a.eventID > e.eventID := by
      intro a ha
      have hpair := (h _ (List.prefix_refl _)).increasing
      rw [← hadded] at hpair
      have he' : e ∈ (history old).events := by
        have hin := hmem.1
        rw [events_after] at hin
        exact List.mem_of_mem_drop hin
      exact (List.pairwise_append.1 hpair).2.2 e he' a ha
    rw [EventBuffer.replay, hsplit, List.filter_append, List.filter_eq_nil_iff.2 (by simpa using hold),
      List.filter_eq_self.2 (by simpa using hnew'), List.nil_append, hbody]

/-- The buffer is lawful at all times exactly if no event is pushed after one with the largest `int64` as its id. -/
theorem lawful_iff (pushes : List (BitVec 64 × Event V)) :
    (∀ old, old <+: pushes → Lawful old) ↔ ∀ old p, old ++ [p] <+: pushes → (after old).lastID ≠ maxInt64 := by
  constructor
  · intro h old p hp hmax
    have hinc := (h _ hp).increasing
    rcases List.eq_nil_or_concat old with rfl | ⟨old, q, rfl⟩
    · cases hmax
    · rw [List.concat_eq_append] at hmax hinc
      rw [after_eq, history_append] at hmax
      simp only at hmax
      have hcap : eventBufCap = 128 := rfl
      -- the buffer ends with the event of the largest id and the one after it
      have hle : (old ++ [q] ++ [p]).length - eventBufCap ≤ (history old).events.length := by
        simp only [List.length_append, List.length_singleton, length_history, hcap]
        omega
      rw [events_after] at hinc
      generalize (old ++ [q] ++ [p]).length - eventBufCap = k at hinc hle
      rw [history_append, history_append] at hinc
      simp only [List.append_assoc, List.drop_append_of_le_length hle] at hinc
      have hlt := List.rel_of_pairwise_cons (List.pairwise_append.1 hinc).2.1 (List.mem_singleton_self _)
      have hrange := nextID_range (nextID (history old).lastID q.1) p.1
      simp only [hmax, maxInt64] at hlt hrange
      omega
  · intro h old hold
    exact lawful_of_ascends fun old' hold' => ascends_history fun o p ho => h o p (ho.trans (hold'.trans hold))

/-- An event at the largest clock reading, and one more. -/
theorem ids_wrap :
    let evt : Event Unit := ⟨0, "", "", ()⟩
    (after [(BitVec.ofInt 64 maxInt64, evt), (0, evt)]).events.map (·.eventID) = [2 ^ 63 - 1, -2 ^ 63] := by
  decide +kernel

end Libp2px.Events.EventBuffer
