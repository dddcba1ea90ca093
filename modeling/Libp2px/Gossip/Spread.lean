import Libp2px.Lib.Transition
import Libp2px.Gossip.PeerDB

/-!
# Records that travel between nodes

Any number of nodes that share a clock push to each other: the pusher sends its own record, the server stores it with
the time and answers with its records that are not too old, and the pusher stores those with the times that they
have, in whole milliseconds.  A node also stores the time of a peer that answers its ping.

No exchange makes a record younger than the last contact with the peer itself, so a peer that is gone disappears from
all lists after `ttl`.  The clock is past the first millisecond of 1970, since a time of zero stands for none.
-/

namespace Libp2px.Gossip

open Transition

variable {ι : Type} [DecidableEq ι]

def toUnixMilli (t : Int) : Int := t / 10 ^ 6

/-- The databases of the nodes; the requests stored and not yet answered, each with its server and its pusher; the
peers of responses still to be stored; and the last contact with each peer: a push that a server took, or an answered
ping. -/
structure Net (ι : Type) where
  clock : Int
  db : ι → PeerDB ι
  answering : List (ι × ι)
  responses : List (ι × List (PeerInfo ι))
  contact : ι → Option Int

inductive Exchange (ι : Type)
  | wait (delay : Nat)
  | push (pusher server : ι) (addrs : List String)
  | answer (k : Nat)
  | receive (k : Nat)
  | ping (node pid : ι) (addrs : List String)
  | cleanup (node : ι)

namespace Net

/-- What `HandlePushStream` answers: all but itself and the pusher. -/
def response (s : Net ι) (server pusher : ι) : List (PeerInfo ι) :=
  (((s.db server).list s.clock).filter fun e => decide (e.1 ≠ server ∧ e.1 ≠ pusher)).map fun e =>
    ⟨some e.1, e.2.addrs, toUnixMilli e.2.seenAt⟩

def setDB (s : Net ι) (node : ι) (db : PeerDB ι) : Net ι := { s with db := Function.update s.db node db }

def store (s : Net ι) (node pid : ι) (addrs : List String) (seenAt : Int) : Net ι :=
  s.setDB node ((s.db node).update pid addrs seenAt)

def touch (s : Net ι) (pid : ι) : Net ι := { s with contact := Function.update s.contact pid (some s.clock) }

/-- A peer of a response is stored by the pusher, unless it is the pusher. -/
def storePeer (s : Net ι) (node : ι) (p : PeerInfo ι) : Net ι :=
  match p.id with
  | none => s
  | some pid => if pid = node then s else s.store node pid p.addrs (p.time s.clock)

def next (s : Net ι) : Exchange ι → Option (Net ι)
  | .wait delay => some { s with clock := s.clock + delay }
  | .push pusher server addrs =>
    if pusher = server then none
    else
      some { (s.touch pusher).store server pusher addrs s.clock with
        answering := s.answering ++ [(server, pusher)] }
  | .answer k =>
    (s.answering[k]?).map fun (server, pusher) =>
      { s with
        answering := s.answering.eraseIdx k
        responses := s.responses ++ [(pusher, s.response server pusher)] }
  | .receive k =>
    match s.responses[k]? with
    | some (node, p :: rest) => some { s.storePeer node p with responses := s.responses.set k (node, rest) }
    | _ => none
  | .ping node pid addrs => if node = pid then none else some ((s.touch pid).store node pid addrs s.clock)
  | .cleanup node => some (s.setDB node ((s.db node).cleanup s.clock))

/-- Nodes with empty databases, at a time past the first millisecond of 1970. -/
def Start (ttl : Int) (s : Net ι) : Prop :=
  10 ^ 6 ≤ s.clock ∧ (∀ n, s.db n = .new ttl) ∧ s.answering = [] ∧ s.responses = [] ∧ ∀ p, s.contact p = none

def system (ttl : Int) : System (Net ι) (Exchange ι) := .ofNext (Start ttl) next

def SeenSince (s : Net ι) (pid : ι) (t : Int) : Prop := ∃ last, s.contact pid = some last ∧ t ≤ last

/-- No record, in a database or on its way, is younger than the last contact with its peer. -/
structure Aged (ttl : Int) (s : Net ι) : Prop where
  clock : 10 ^ 6 ≤ s.clock
  contact : ∀ pid t, s.contact pid = some t → t ≤ s.clock
  ttl : ∀ n, (s.db n).ttl = ttl
  record : ∀ n pid r, (s.db n).peers.lookup pid = some r → 10 ^ 6 ≤ r.seenAt ∧ s.SeenSince pid r.seenAt
  response : ∀ e ∈ s.responses, ∀ p ∈ e.2, ∀ pid, p.id = some pid →
    p.seenAt > 0 ∧ s.SeenSince pid (unixMilli p.seenAt)

theorem unixMilli_toUnixMilli_le (t : Int) : unixMilli (toUnixMilli t) ≤ t := by
  unfold unixMilli toUnixMilli
  omega

theorem contact_touch_self (s : Net ι) (pid : ι) : (s.touch pid).contact pid = some s.clock :=
  Function.update_self ..

theorem contact_touch_of_ne (s : Net ι) {pid q : ι} (h : q ≠ pid) : (s.touch pid).contact q = s.contact q :=
  Function.update_of_ne h ..

theorem db_setDB_self (s : Net ι) (node : ι) (db : PeerDB ι) : (s.setDB node db).db node = db :=
  Function.update_self ..

theorem db_setDB_of_ne (s : Net ι) {node n : ι} (db : PeerDB ι) (h : n ≠ node) : (s.setDB node db).db n = s.db n :=
  Function.update_of_ne h ..

variable {s : Net ι} {ttl : Int}

theorem SeenSince.touch (h : s.Aged ttl) {pid : ι} {t : Int} (hseen : s.SeenSince pid t)
    (q : ι) : (s.touch q).SeenSince pid t := by
  obtain ⟨last, hlast, hle⟩ := hseen
  by_cases hq : pid = q
  · subst hq
    have := h.contact pid last hlast
    exact ⟨s.clock, s.contact_touch_self pid, by omega⟩
  · exact ⟨last, by rw [s.contact_touch_of_ne hq, hlast], hle⟩

theorem Aged.touch (h : s.Aged ttl) (pid : ι) : (s.touch pid).Aged ttl where
  clock := h.clock
  contact q t hq := by
    by_cases hpid : q = pid
    · subst hpid
      rw [s.contact_touch_self] at hq
      cases hq
      exact le_rfl
    · rw [s.contact_touch_of_ne hpid] at hq
      exact h.contact q t hq
  ttl := h.ttl
  record n q r hr := ⟨(h.record n q r hr).1, (h.record n q r hr).2.touch h pid⟩
  response e he p hp q hq := ⟨(h.response e he p hp q hq).1, (h.response e he p hp q hq).2.touch h pid⟩

theorem touch_seenSince (s : Net ι) (pid : ι) : (s.touch pid).SeenSince pid s.clock :=
  ⟨s.clock, s.contact_touch_self pid, le_rfl⟩

theorem Aged.setDB (h : s.Aged ttl) {node : ι} {db : PeerDB ι} (httl : db.ttl = ttl)
    (hdb : ∀ pid r, db.peers.lookup pid = some r → 10 ^ 6 ≤ r.seenAt ∧ s.SeenSince pid r.seenAt) :
    (s.setDB node db).Aged ttl where
  clock := h.clock
  contact := h.contact
  ttl n := by
    by_cases hn : n = node
    · subst hn
      rwa [s.db_setDB_self]
    · rw [s.db_setDB_of_ne db hn]
      exact h.ttl n
  record n q r hr := by
    by_cases hn : n = node
    · subst hn
      rw [s.db_setDB_self] at hr
      exact hdb q r hr
    · rw [s.db_setDB_of_ne db hn] at hr
      exact h.record n q r hr
  response := h.response

theorem Aged.store (h : s.Aged ttl) (node : ι) {pid : ι} (addrs : List String) {seenAt : Int}
    (hms : 10 ^ 6 ≤ seenAt) (hseen : s.SeenSince pid seenAt) : (s.store node pid addrs seenAt).Aged ttl := by
  refine h.setDB (by rw [PeerDB.ttl_update, h.ttl]) ?_
  intro q r hr
  rcases PeerDB.lookup_update hr with ⟨rfl, -, rfl⟩ | hold
  · exact ⟨hms, hseen⟩
  · exact h.record node q r hold

theorem Aged.storePeer (h : s.Aged ttl) (node : ι) {p : PeerInfo ι}
    (hp : ∀ pid, p.id = some pid → p.seenAt > 0 ∧ s.SeenSince pid (unixMilli p.seenAt)) :
    (s.storePeer node p).Aged ttl := by
  unfold Net.storePeer
  split
  · exact h
  · rename_i pid hid
    obtain ⟨hpos, hseen⟩ := hp pid hid
    split
    · exact h
    · -- the response gives a time, so the clock of the pusher does not come in
      rw [PeerInfo.time, if_pos hpos]
      refine h.store node p.addrs ?_ hseen
      unfold unixMilli
      omega

theorem Aged.of_mem_response (h : s.Aged ttl) {server pusher pid : ι} {p : PeerInfo ι}
    (hp : p ∈ s.response server pusher) (hid : p.id = some pid) :
    p.seenAt > 0 ∧ s.SeenSince pid (unixMilli p.seenAt) := by
  obtain ⟨⟨q, r⟩, hmem, rfl⟩ := List.mem_map.1 hp
  obtain rfl : q = pid := Option.some.inj hid
  have hget := PeerDB.mem_list.1 (List.mem_filter.1 hmem).1
  have hlookup : (s.db server).peers.lookup q = some r := (Option.filter_eq_some_iff.1 hget).1
  obtain ⟨hms, last, hlast, hle⟩ := h.record server q r hlookup
  have hcut := unixMilli_toUnixMilli_le r.seenAt
  refine ⟨?_, last, hlast, le_trans hcut hle⟩
  show toUnixMilli r.seenAt > 0
  unfold toUnixMilli
  omega

theorem Aged.next {s s' : Net ι} {a : Exchange ι} (h : s.Aged ttl) (hnext : s.next a = some s') :
    s'.Aged ttl := by
  cases a with
  | wait delay =>
    cases hnext
    have hclock := h.clock
    exact { h with
      clock := by simp only; omega
      contact := fun pid t ht => by have := h.contact pid t ht; simp only; omega }
  | push pusher server addrs =>
    simp only [Net.next, Option.ite_none_left_eq_some] at hnext
    obtain ⟨-, hnext⟩ := hnext
    cases hnext
    have hstored := (h.touch pusher).store server addrs h.clock (s.touch_seenSince pusher)
    exact { hstored with }
  | answer k =>
    simp only [Net.next, Option.map_eq_some_iff] at hnext
    obtain ⟨⟨server, pusher⟩, -, rfl⟩ := hnext
    refine { h with response := ?_ }
    intro e he p hp pid hid
    rcases List.mem_append.1 he with hold | hnew
    · exact h.response e hold p hp pid hid
    · rw [List.mem_singleton.1 hnew] at hp
      exact h.of_mem_response hp hid
  | receive k =>
    simp only [Net.next] at hnext
    split at hnext
    · rename_i node p rest hk
      cases hnext
      have hmem := List.mem_of_getElem? hk
      have hstored := h.storePeer node fun pid hid => h.response _ hmem p List.mem_cons_self pid hid
      refine { hstored with response := ?_ }
      intro e he q hq pid hid
      have hsame : (s.storePeer node p).contact = s.contact := by
        unfold Net.storePeer
        split
        · rfl
        · split <;> rfl
      have hold : q.seenAt > 0 ∧ s.SeenSince pid (unixMilli q.seenAt) := by
        rcases List.mem_or_eq_of_mem_set he with hold | rfl
        · exact h.response e hold q hq pid hid
        · exact h.response _ hmem q (List.mem_cons_of_mem p hq) pid hid
      rw [SeenSince, ← hsame] at hold
      exact hold
    · cases hnext
  | ping node pid addrs =>
    simp only [Net.next, Option.ite_none_left_eq_some] at hnext
    obtain ⟨-, hnext⟩ := hnext
    cases hnext
    exact (h.touch pid).store node addrs h.clock (s.touch_seenSince pid)
  | cleanup node =>
    cases hnext
    exact h.setDB (h.ttl node) fun pid r hr => h.record node pid r (PeerDB.lookup_cleanup hr)

/-- Each record of a peer, at whichever node, has a time no later than the last push or answered ping of that peer
itself; so once more than `ttl` has passed since then, no node returns or lists the peer. -/
theorem dead_peers_age_out {ttl : Int} {s : Net ι} (h : (system ttl).Reach anyStep s) :
    (∀ n pid r, (s.db n).peers.lookup pid = some r → ∃ last, s.contact pid = some last ∧ r.seenAt ≤ last) ∧
      ∀ n pid, (∀ last, s.contact pid = some last → s.clock > last + ttl) →
        (s.db n).get pid s.clock = none ∧ ∀ r, (pid, r) ∉ (s.db n).list s.clock := by
  have haged : s.Aged ttl := by
    refine h.invariant (I := Aged ttl) ?_ ?_
    · rintro s ⟨hclock, hdb, -, hresponses, hcontact⟩
      refine ⟨hclock, fun pid t ht => ?_, fun n => by rw [hdb]; rfl, fun n pid r hr => ?_, fun e he => ?_⟩
      · rw [hcontact] at ht
        cases ht
      · rw [hdb] at hr
        cases hr
      · rw [hresponses] at he
        cases he
    · intro s a s' _ hs _ hnext
      exact hs.next hnext
  refine ⟨fun n pid r hr => (haged.record n pid r hr).2, fun n pid hgone => ?_⟩
  have hget : (s.db n).get pid s.clock = none := by
    rw [PeerDB.get, Option.filter_eq_none_iff]
    intro r hr
    obtain ⟨-, last, hlast, hle⟩ := haged.record n pid r hr
    have := hgone last hlast
    have httl := haged.ttl n
    simp only [PeerDB.expired, Bool.not_eq_true, Bool.not_eq_false', decide_eq_true_eq]
    omega
  refine ⟨hget, fun r hmem => ?_⟩
  rw [PeerDB.mem_list, hget] at hmem
  cases hmem

def gossipOnce : List (Exchange Nat) :=
  [.push 1 0 ["a"], .push 2 0 ["b"], .answer 1, .receive 0, .wait 60000000001]

theorem dead_peers_age_out_once :
    ∃ s : Net Nat, (system 60000000000).Reach anyStep s ∧ ((s.db 2).peers.lookup 1).isSome = true ∧
      (s.db 2).get 1 s.clock = none := by
  have hreach : (system 60000000000).Reach anyStep _ :=
    ⟨(⟨10 ^ 6, fun _ => .new 60000000000, [], [], fun _ => none⟩ : Net Nat),
      ⟨le_rfl, fun _ => rfl, rfl, rfl, fun _ => rfl⟩,
      exec_steps_getD (show (exec next _ gossipOnce).isSome = true by decide +kernel) (execMeets_anyStep _ _ _)⟩
  refine ⟨_, hreach, by decide +kernel, ((dead_peers_age_out hreach).2 2 1 ?_).1⟩
  intro last hlast
  have hone : last = 10 ^ 6 := by
    have : some last = some ((10 : Int) ^ 6) := hlast.symm.trans (by decide +kernel)
    exact Option.some.inj this
  rw [hone]
  decide +kernel

end Net

end Libp2px.Gossip
