import Mathlib

/-!
# Saving the peerstore

`savePeerstore` (`p2put/libp2p_bs.go`) skips a write if the checksum of the contents is that of the last attempt.  The
checksum is remembered before the write, so a write that fails is not repeated until the contents change.
-/

namespace Libp2px.Node.Peerstore

def minPeerCount : Nat := 16

/-- A multiaddr: its text, and whether `extractIPFromAddr` finds an address that is loopback or private. -/
structure Addr where
  text : List Char
  isLocal : Bool

def Addr.isSkipped (a : Addr) : Bool :=
  a.isLocal || ["/ip6/", "/udp/", "/quic", "webrtc", "/dns/"].any fun s => s.toList <:+: a.text

/-- The map that is saved; the peerstore lists a peer once. -/
def savedMap (peers : List (String × List Addr)) : List (String × List (List Char)) :=
  (peers.filter (·.2.length ≠ 0)).map fun p => (p.1, (p.2.filter fun a => ¬a.isSkipped).map (·.text))

/-- `json.Marshal` of the map, which does not fail, and the checksum, which has no collisions. -/
structure Codec (S : Type) where
  json : List (String × List (List Char)) → List UInt8
  sum : List UInt8 → S
  sum_injective : Function.Injective sum

/-- `savedPeerstoreSum` and the file. Ghost: the last write failed and left something else. -/
structure Store (S : Type) where
  savedSum : Option S := none
  file : Option (List UInt8)
  lost : Bool := false

inductive SaveError
  | notReady
  | write

/-- A call: whether there is a host, its peerstore, and what a write leaves in the file if it fails. -/
structure Call where
  ready : Bool
  peers : List (String × List Addr)
  failure : Option (Option (List UInt8))

variable {S : Type} [DecidableEq S] (C : Codec S)

/-- `savePeerstore` from the checksum on. -/
def saveRaw (s : Store S) (raw : List UInt8) (failure : Option (Option (List UInt8))) : Store S × Except SaveError Unit :=
  if some (C.sum raw) = s.savedSum then (s, .ok ())
  else
    match failure with
    | some file => (⟨some (C.sum raw), file, decide (file ≠ some raw)⟩, .error .write)
    | none => (⟨some (C.sum raw), some raw, false⟩, .ok ())

def savePeerstore (s : Store S) (c : Call) : Store S × Except SaveError Unit :=
  if c.ready then
    if (savedMap c.peers).length < minPeerCount then (s, .ok ())
    else saveRaw C s (C.json (savedMap c.peers)) c.failure
  else (s, .error .notReady)

def after (file : Option (List UInt8)) : List Call → Store S
  | [] => { file := file }
  | c :: calls => (savePeerstore C (after file calls) c).1

variable {C} {s : Store S}

/-- The file holds the contents with the remembered checksum, unless their write failed. -/
def Kept (C : Codec S) (s : Store S) : Prop :=
  ∀ raw, some (C.sum raw) = s.savedSum → (s.file = some raw ↔ s.lost = false)

theorem Kept.saveRaw (h : Kept C s) (raw : List UInt8) (failure : Option (Option (List UInt8))) :
    Kept C (saveRaw C s raw failure).1 := by
  unfold Peerstore.saveRaw
  split
  · exact h
  · cases failure with
    | none =>
      intro raw' hsum
      rw [C.sum_injective (Option.some.inj hsum)]
      simp
    | some left =>
      intro raw' hsum
      rw [C.sum_injective (Option.some.inj hsum)]
      simp

theorem kept_after (file : Option (List UInt8)) (calls : List Call) : Kept C (after C file calls) := by
  induction calls with
  | nil => exact fun raw hsum => by cases hsum
  | cons c calls ih =>
    unfold after savePeerstore
    split
    · split
      · exact ih
      · exact ih.saveRaw _ _
    · exact ih

/-- A call with enough peers that returns nil leaves the JSON of its map in the file, exactly if it is not the case that
the last write was for the same contents and failed. -/
theorem saved_iff (C : Codec S) (file : Option (List UInt8)) (calls : List Call) (c : Call)
    (hfull : minPeerCount ≤ (savedMap c.peers).length) (hok : (savePeerstore C (after C file calls) c).2 = .ok ()) :
    (after C file (c :: calls)).file = some (C.json (savedMap c.peers)) ↔
      ¬((after C file calls).savedSum = some (C.sum (C.json (savedMap c.peers))) ∧ (after C file calls).lost = true) := by
  have hkept := kept_after (C := C) file calls
  rw [after]
  unfold savePeerstore at hok ⊢
  split at hok
  · rename_i hready
    rw [if_neg (not_lt.2 hfull)] at hok
    rw [if_pos hready, if_neg (not_lt.2 hfull)]
    unfold saveRaw at hok ⊢
    split
    · rename_i hskip
      rw [hkept _ hskip]
      simp [← hskip]
    · rename_i hnew
      rw [if_neg hnew] at hok
      cases hf : c.failure with
      | none => simp [Ne.symm hnew]
      | some left =>
        rw [hf] at hok
        cases hok
  · cases hok

def sixteen : List (String × List Addr) := (List.range 16).map fun i => (toString i, [⟨"/ip4/1.2.3.4/tcp/1".toList, false⟩])

def plain : Codec (List UInt8) := ⟨fun _ => [1], id, Function.injective_id⟩

theorem saved_iff_first : (after plain none [⟨true, sixteen, none⟩]).file = some [1] :=
  (saved_iff plain none [] ⟨true, sixteen, none⟩ (by decide) rfl).2 (by simp [after])

/-- The write fails and the file stays empty; the next call with the same peers returns nil and writes nothing. -/
theorem failed_save_forgotten :
    (savePeerstore plain (after plain none [⟨true, sixteen, some none⟩]) ⟨true, sixteen, none⟩).2 = .ok () ∧
      (after plain none [⟨true, sixteen, none⟩, ⟨true, sixteen, some none⟩]).file = none :=
  ⟨rfl, rfl⟩

end Libp2px.Node.Peerstore
