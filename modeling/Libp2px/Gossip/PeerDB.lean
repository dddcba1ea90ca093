import Mathlib.Data.List.AList
import Mathlib.Tactic.Linarith

/-!
# The peer database

`PeerDB` of `p2put/peerdb.go`, and what one node stores in it: the peers of a push request and its own pings with the
local time, and the peers of a push response with the time that the response gives (`p2put/pushid.go`,
`p2put/mydiscovery.go`).  A newer record replaces an older one, and a record is hidden once it is older than `ttl`.

The time in a response is whatever the other side sends.  A record with a time in the future is neither hidden in
time nor replaced by a direct contact.

Times are nanoseconds since 1970; a clock reading is an argument.  An id that does not decode is `none`, and the
addresses of a peer are those that parse.
-/

namespace Libp2px.Gossip

variable {ι : Type}

structure PeerRecord where
  addrs : List String
  seenAt : Int
  deriving DecidableEq, Repr

structure PeerDB (ι : Type) where
  peers : AList fun _ : ι => PeerRecord
  ttl : Int

namespace PeerDB

def new (ttl : Int) : PeerDB ι := ⟨∅, ttl⟩

def expired (db : PeerDB ι) (now : Int) (r : PeerRecord) : Bool := decide (now - r.seenAt > db.ttl)

def list (db : PeerDB ι) (now : Int) : List (ι × PeerRecord) :=
  (db.peers.entries.filter fun e => !db.expired now e.2).map fun e => (e.1, e.2)

/-- One turn of `cleanup`. -/
def cleanup (db : PeerDB ι) (now : Int) : PeerDB ι where
  peers := ⟨db.peers.entries.filter fun e => !db.expired now e.2, db.peers.nodupKeys.sublist List.filter_sublist⟩
  ttl := db.ttl

theorem list_cleanup {db : PeerDB ι} {now t : Int} (h : now ≤ t) : (db.cleanup now).list t = db.list t := by
  have hexpired : ∀ r, (!db.expired t r && !db.expired now r) = !db.expired t r := by
    intro r
    grind [expired]
  simp only [list, cleanup, List.filter_filter]
  exact congrArg _ (List.filter_congr fun e _ => hexpired e.2)

variable [DecidableEq ι]

/-- Whether `Update` stores a record with this time: it has no record of the peer, or an older one. -/
def stores (db : PeerDB ι) (pid : ι) (seenAt : Int) : Bool :=
  match db.peers.lookup pid with
  | some existing => decide (seenAt > existing.seenAt)
  | none => true

def update (db : PeerDB ι) (pid : ι) (addrs : List String) (seenAt : Int) : PeerDB ι :=
  if db.stores pid seenAt then { db with peers := db.peers.insert pid ⟨addrs, seenAt⟩ } else db

def get (db : PeerDB ι) (pid : ι) (now : Int) : Option PeerRecord :=
  (db.peers.lookup pid).filter fun r => !db.expired now r

variable {db : PeerDB ι} {pid : ι} {addrs : List String} {seenAt : Int} {r : PeerRecord}

theorem lookup_update_self
    (h : db.stores pid seenAt = true) : (db.update pid addrs seenAt).peers.lookup pid = some ⟨addrs, seenAt⟩ := by
  rw [update, if_pos h]
  exact AList.lookup_insert _

theorem lookup_update_ne {pid pid' : ι} (h : pid' ≠ pid) :
    (db.update pid addrs seenAt).peers.lookup pid' = db.peers.lookup pid' := by
  unfold update
  split
  · exact AList.lookup_insert_ne h
  · rfl

theorem stores_eq_false (h : db.stores pid seenAt = false) :
    ∃ r, db.peers.lookup pid = some r ∧ seenAt ≤ r.seenAt := by
  unfold stores at h
  split at h
  · rename_i r hr
    exact ⟨r, hr, by simpa using h⟩
  · cases h

theorem stores_eq_true (hr : db.peers.lookup pid = some r) : db.stores pid seenAt = true ↔ r.seenAt < seenAt := by
  unfold stores
  rw [hr]
  simp

theorem lookup_update {pid pid' : ι} (h : (db.update pid addrs seenAt).peers.lookup pid' = some r) :
    (pid' = pid ∧ db.stores pid seenAt = true ∧ r = ⟨addrs, seenAt⟩) ∨ db.peers.lookup pid' = some r := by
  by_cases hstores : db.stores pid seenAt = true
  · by_cases hpid : pid' = pid
    · subst hpid
      rw [lookup_update_self hstores] at h
      exact .inl ⟨rfl, hstores, (Option.some.inj h).symm⟩
    · rw [lookup_update_ne hpid] at h
      exact .inr h
  · rw [update, if_neg hstores] at h
    exact .inr h

@[simp] theorem ttl_update (db : PeerDB ι) (pid : ι) (addrs : List String) (seenAt : Int) :
    (db.update pid addrs seenAt).ttl = db.ttl := by
  unfold update
  split <;> rfl

theorem mem_list {now : Int} :
    (pid, r) ∈ db.list now ↔ db.get pid now = some r := by
  simp only [list, List.mem_map, List.mem_filter, get, Option.filter_eq_some_iff]
  constructor
  · rintro ⟨⟨pid', r'⟩, ⟨hmem, hnot⟩, heq⟩
    obtain ⟨rfl, rfl⟩ := Prod.mk.inj heq
    exact ⟨AList.mem_lookup_iff.2 hmem, hnot⟩
  · rintro ⟨hlookup, hnot⟩
    exact ⟨⟨pid, r⟩, ⟨AList.mem_lookup_iff.1 hlookup, hnot⟩, rfl⟩

theorem lookup_cleanup {now : Int}
    (h : (db.cleanup now).peers.lookup pid = some r) : db.peers.lookup pid = some r := by
  have hmem := AList.mem_lookup_iff.1 h
  exact AList.mem_lookup_iff.2 (List.mem_filter.1 hmem).1

/-- What `Get` finds after an `Update` depends on what it would have found before, and not on the records that it hides. -/
theorem get_update (db : PeerDB ι) (pid p : ι) (addrs : List String) (seenAt t : Int) :
    (db.update p addrs seenAt).get pid t =
      if pid = p then
        match db.get p t with
        | some r => if seenAt > r.seenAt then some ⟨addrs, seenAt⟩ else some r
        | none => if t - seenAt > db.ttl then none else some ⟨addrs, seenAt⟩
      else db.get pid t := by
  by_cases hp : pid = p
  · subst hp
    cases hr : db.peers.lookup pid with
    | none => grind [get, update, stores, expired, AList.lookup_insert, Option.filter]
    | some r => grind [get, update, stores, expired, AList.lookup_insert, Option.filter]
  · rw [if_neg hp, get, lookup_update_ne hp, get]
    simp [expired]

/-- A call of `Update`, or a turn of `cleanup`. -/
inductive Op (ι : Type)
  | update (pid : ι) (addrs : List String) (seenAt : Int)
  | cleanup (now : Int)

def Op.apply (db : PeerDB ι) : Op ι → PeerDB ι
  | .update pid addrs seenAt => db.update pid addrs seenAt
  | .cleanup now => db.cleanup now

/-- Databases that answer alike at `t` still do after the same calls of `Update`, also if only one is cleaned up. -/
theorem get_foldl (db db' : PeerDB ι) {ops : List (Op ι)} {t : Int} (ht : ∀ now, .cleanup now ∈ ops → now ≤ t)
    (httl : db.ttl = db'.ttl) (hget : ∀ pid, db.get pid t = db'.get pid t) (pid : ι) :
    (ops.foldl Op.apply db).get pid t = ((ops.filter (· matches .update ..)).foldl Op.apply db').get pid t := by
  induction ops generalizing db db' with
  | nil => exact hget pid
  | cons op ops ih =>
    have hops := fun now hnow => ht now (List.mem_cons_of_mem _ hnow)
    cases op with
    | update p addrs seenAt =>
      refine ih (db.update p addrs seenAt) (db'.update p addrs seenAt) hops (by simp [httl]) fun q => ?_
      rw [get_update, get_update, hget, hget, httl]
    | cleanup now =>
      refine ih (db.cleanup now) db' hops httl fun q => ?_
      rw [← hget]
      ext r
      rw [← mem_list, ← mem_list, list_cleanup (ht now List.mem_cons_self)]

/-- Cleaning up is never seen: after any calls, `List` gives the peers that it would give without the turns of `cleanup`. -/
theorem cleanup_unseen (db : PeerDB ι) (ops : List (Op ι)) {t : Int} (ht : ∀ now, .cleanup now ∈ ops → now ≤ t)
    (e : ι × PeerRecord) :
    e ∈ (ops.foldl Op.apply db).list t ↔
      e ∈ ((ops.filter (· matches .update ..)).foldl Op.apply db).list t := by
  rw [mem_list, mem_list, get_foldl db db ht rfl fun _ => rfl]

theorem cleanup_unseen_once :
    (1, ⟨[], 5⟩) ∈ ([Op.update 1 [] 5, .cleanup 7].foldl Op.apply (.new 10 : PeerDB Nat)).list 9 :=
  (cleanup_unseen _ [Op.update 1 [] 5, .cleanup 7] (by simp) _).2 (by decide)

end PeerDB

/-! ### What a node stores -/

variable [DecidableEq ι]

/-- A peer in a push message; `seenAt` is in milliseconds. -/
structure PeerInfo (ι : Type) where
  id : Option ι
  addrs : List String
  seenAt : Int

def unixMilli (ms : Int) : Int := ms * 10 ^ 6

/-- The time that `PushToPeer` stores for a peer of the response. -/
def PeerInfo.time (p : PeerInfo ι) (now : Int) : Int := if p.seenAt > 0 then unixMilli p.seenAt else now

/-- A node: its id, its database, its clock, and for each peer when the last record was stored. -/
structure Node (ι : Type) where
  self : ι
  db : PeerDB ι
  clock : Int
  storedAt : ι → Int
  storedAt_le : ∀ pid, storedAt pid ≤ clock

/-- What changes the database: a peer of a push request, or of the response to `PushToPeer`, an answered ping, or a
turn of `cleanup`. -/
inductive Act (ι : Type)
  | request (p : PeerInfo ι)
  | response (p : PeerInfo ι)
  | ping (pid : ι) (addrs : List String)
  | cleanup

/-- A response to the node `self` gives no time later than `now` for a peer that is stored. -/
def PastTime (self : ι) (now : Int) : Act ι → Prop
  | .response p => (∃ pid, p.id = some pid ∧ pid ≠ self) → p.seenAt > 0 → unixMilli p.seenAt ≤ now
  | _ => True

/-- No response of these steps, each with its delay, gives a time in the future of the node. -/
def PastTimes (self : ι) : Int → List (Nat × Act ι) → Prop
  | _, [] => True
  | clock, (delay, a) :: as => PastTime self (clock + delay) a ∧ PastTimes self (clock + delay) as

namespace Node

def new (self : ι) (ttl clock : Int) : Node ι where
  self := self
  db := .new ttl
  clock := clock
  storedAt := fun _ => clock
  storedAt_le := fun _ => le_refl clock

def wait (n : Node ι) (delay : Nat) : Node ι where
  self := n.self
  db := n.db
  clock := n.clock + delay
  storedAt := n.storedAt
  storedAt_le := fun pid => by have := n.storedAt_le pid; omega

/-- An `Update` at the node's time. -/
def store (n : Node ι) (pid : ι) (addrs : List String) (seenAt : Int) : Node ι where
  self := n.self
  db := n.db.update pid addrs seenAt
  clock := n.clock
  storedAt := fun p => if p = pid ∧ n.db.stores pid seenAt = true then n.clock else n.storedAt p
  storedAt_le := fun p => by
    split
    · exact le_rfl
    · exact n.storedAt_le p

/-- A peer of a message is stored, unless its id does not decode or is the node's own. -/
def storePeer (n : Node ι) (p : PeerInfo ι) (seenAt : Int) : Node ι :=
  match p.id with
  | none => n
  | some pid => if pid = n.self then n else n.store pid p.addrs seenAt

def apply (n : Node ι) : Act ι → Node ι
  | .request p => n.storePeer p n.clock
  | .response p => n.storePeer p (p.time n.clock)
  | .ping pid addrs => n.store pid addrs n.clock
  | .cleanup => { n with db := n.db.cleanup n.clock }

/-- Each record is hidden once `ttl` has passed since it was stored, and replaced by each later direct contact. -/
def Fresh (n : Node ι) : Prop :=
  ∀ pid r, n.db.peers.lookup pid = some r →
    (∀ t, t > n.storedAt pid + n.db.ttl → n.db.get pid t = none ∧ ∀ r', (pid, r') ∉ n.db.list t) ∧
      ∀ t addrs, t > n.storedAt pid → (n.db.update pid addrs t).peers.lookup pid = some ⟨addrs, t⟩

/-- The node is in order at the start and after each of these steps, each with its delay. -/
def FreshThrough (n : Node ι) : List (Nat × Act ι) → Prop
  | [] => n.Fresh
  | (delay, a) :: as => n.Fresh ∧ ((n.wait delay).apply a).FreshThrough as

theorem fresh_iff (n : Node ι) :
    n.Fresh ↔ ∀ pid r, n.db.peers.lookup pid = some r → r.seenAt ≤ n.storedAt pid := by
  constructor
  · intro h pid r hr
    by_contra hlate
    -- a contact one tick after the record was stored would have to replace it
    have hcontact := (h pid r hr).2 (n.storedAt pid + 1) ("" :: r.addrs) (by omega)
    have hkept : n.db.stores pid (n.storedAt pid + 1) = false := by
      rw [← Bool.not_eq_true, PeerDB.stores_eq_true hr]
      omega
    rw [PeerDB.update, hkept, if_neg Bool.false_ne_true, hr] at hcontact
    have haddrs := congrArg (fun o => (o.map fun r => r.addrs.length)) hcontact
    simp at haddrs
  · intro h pid r hr
    have hle := h pid r hr
    refine ⟨fun t ht => ?_, fun t addrs ht => ?_⟩
    · have hget : n.db.get pid t = none := by
        simp only [PeerDB.get, hr, Option.filter_eq_none_iff, PeerDB.expired]
        rintro r' hr'
        cases hr'
        simp only [Bool.not_eq_true, Bool.not_eq_false', decide_eq_true_eq]
        omega
      refine ⟨hget, fun r' hmem => ?_⟩
      rw [PeerDB.mem_list, hget] at hmem
      cases hmem
    · exact PeerDB.lookup_update_self ((PeerDB.stores_eq_true hr).2 (by omega))

variable {n : Node ι}

theorem Fresh.wait (delay : Nat) : (n.wait delay).Fresh ↔ n.Fresh := by
  rw [fresh_iff, fresh_iff]
  rfl

theorem Fresh.store_iff (h : n.Fresh) (pid : ι) (addrs : List String) (seenAt : Int) :
    (n.store pid addrs seenAt).Fresh ↔ seenAt ≤ n.clock := by
  rw [fresh_iff] at h ⊢
  constructor
  · intro hstored
    by_cases hstores : n.db.stores pid seenAt = true
    · have := hstored pid _ (PeerDB.lookup_update_self hstores)
      simpa [Node.store, hstores] using this
    · -- an older time than the record that is there
      obtain ⟨r, hr, hle⟩ := PeerDB.stores_eq_false (by simpa using hstores)
      have := h pid r hr
      have := n.storedAt_le pid
      omega
  · intro htime pid' r hr
    simp only [Node.store]
    rcases PeerDB.lookup_update hr with ⟨rfl, hstores, rfl⟩ | hold
    · rwa [if_pos ⟨rfl, hstores⟩]
    · have := h pid' r hold
      have := n.storedAt_le pid'
      split <;> omega

theorem Fresh.storePeer_iff (h : n.Fresh) (p : PeerInfo ι) (seenAt : Int) :
    (n.storePeer p seenAt).Fresh ↔ ((∃ pid, p.id = some pid ∧ pid ≠ n.self) → seenAt ≤ n.clock) := by
  unfold Node.storePeer
  cases hid : p.id with
  | none => simp [h]
  | some pid =>
    by_cases hself : pid = n.self
    · simp [hself, h]
    · simp [hself, h.store_iff]

theorem Fresh.apply_iff (h : n.Fresh) (a : Act ι) : (n.apply a).Fresh ↔ PastTime n.self n.clock a := by
  cases a with
  | request p => exact iff_of_true ((h.storePeer_iff p n.clock).2 fun _ => le_rfl) trivial
  | response p =>
    rw [Node.apply, h.storePeer_iff, PastTime]
    by_cases hpos : p.seenAt > 0
    · rw [PeerInfo.time, if_pos hpos]
      exact ⟨fun hle hid _ => hle hid, fun hle hid => hle hid hpos⟩
    · rw [PeerInfo.time, if_neg hpos]
      exact iff_of_true (fun _ => le_rfl) fun _ hpos' => absurd hpos' hpos
  | ping pid addrs => exact iff_of_true ((h.store_iff pid addrs n.clock).2 le_rfl) trivial
  | cleanup =>
    refine iff_of_true ?_ trivial
    rw [fresh_iff] at h ⊢
    intro pid r hr
    exact h pid r (PeerDB.lookup_cleanup hr)

theorem apply_frame (n : Node ι) (a : Act ι) : (n.apply a).self = n.self ∧ (n.apply a).clock = n.clock := by
  have hpeer : ∀ p seenAt, (n.storePeer p seenAt).self = n.self ∧ (n.storePeer p seenAt).clock = n.clock := by
    intro p seenAt
    unfold Node.storePeer
    split
    · exact ⟨rfl, rfl⟩
    · split <;> exact ⟨rfl, rfl⟩
  cases a with
  | request p => exact hpeer p n.clock
  | response p => exact hpeer p (p.time n.clock)
  | ping pid addrs => exact ⟨rfl, rfl⟩
  | cleanup => exact ⟨rfl, rfl⟩

theorem Fresh.through_iff (h : n.Fresh) (as : List (Nat × Act ι)) :
    n.FreshThrough as ↔ PastTimes n.self n.clock as := by
  induction as generalizing n with
  | nil => exact iff_of_true h trivial
  | cons d as ih =>
    obtain ⟨delay, a⟩ := d
    have hwait := (Fresh.wait delay).2 h
    have hstep := hwait.apply_iff a
    obtain ⟨hself, hclock⟩ := (n.wait delay).apply_frame a
    constructor
    · rintro ⟨-, hthrough⟩
      -- the node is in order right after the step, so the step is no response from the future
      have hafter : ((n.wait delay).apply a).Fresh := by
        cases as with
        | nil => exact hthrough
        | cons d as => exact hthrough.1
      have htail := (ih hafter).1 hthrough
      rw [hself, hclock] at htail
      exact ⟨hstep.1 hafter, htail⟩
    · rintro ⟨hpast, htail⟩
      have hafter := hstep.2 hpast
      refine ⟨h, (ih hafter).2 ?_⟩
      rw [hself, hclock]
      exact htail

/-- In each state on the way every record is hidden once `ttl` has passed since it was stored and is replaced by each
later direct contact, if and only if no response gives a stored peer a time in the node's future. -/
theorem gossip_cannot_pin_iff (self : ι) (ttl clock : Int) (as : List (Nat × Act ι)) :
    (new self ttl clock).FreshThrough as ↔ PastTimes self clock as :=
  Fresh.through_iff (n := new self ttl clock) (fun pid r hr => by cases hr) as

/-- A record with a time a year after the node's clock is still there after `ttl`, and a direct contact does not
replace it. -/
theorem future_record_pinned :
    ∃ n : Node Nat, n = ((new 0 36000000000000 0).wait 0).apply (.response ⟨some 1, [], 31536000000⟩) ∧
      n.storedAt 1 = 0 ∧ ¬n.Fresh ∧ n.db.get 1 (n.storedAt 1 + n.db.ttl + 1) ≠ none ∧
      (n.db.update 1 ["a"] 1).peers.lookup 1 = some ⟨[], 31536000000000000⟩ := by
  refine ⟨_, rfl, by decide, ?_, by decide, by decide⟩
  rw [fresh_iff]
  intro h
  have := h 1 ⟨[], 31536000000000000⟩ (by decide)
  revert this
  decide

end Node

end Libp2px.Gossip
