import Libp2px.RelayFile.Transfer

/-!
# Sender and receiver in step

`SendFile` stops after eight chunks, counted from the offset that was accepted, and waits for an ACK.  `receiveLoop` sends
one when the first gap of its bitmap has moved by eight, or when there is no gap.  The two coincide: the ACK is sent for
the last chunk of the batch and for no other, so neither side waits for the other in vain.
-/

namespace Libp2px.RelayFile

open Chunks Transition Session

variable {env : Env} {src : Source} {pay : Payloads env src}

namespace Link

/-- What is known of every stream: INIT comes first, and the session is the one that it describes. -/
structure Known (pay : Payloads env src) (l : Link) : Prop where
  unread : l.session = none → l.toReceiver = [] ∨
    ∃ offset, (-2 ^ 63 ≤ offset ∧ offset < 2 ^ 63) ∧ l.toReceiver = [⟨frameTypeInit, pay.init offset⟩]
  ours : ∀ s, l.session = some s → s.Ours env src

/-- The session expects the chunk `a`, those up to `q` are on their way, and `base` were acknowledged when the sender
last looked. -/
structure Serves (env : Env) (src : Source) (l : Link) (s : Session) (base q a : Nat) : Prop where
  session : l.session = some s
  expects : s.Expects src a
  le : base ≤ a ∧ a ≤ q
  queue : l.toReceiver = src.frames env a q
  acked : base < a ∧ a = min (base + ackBatch) src.totalChunks → s.lastAck = a ∧ l.toSender = [.ack (a - 1)]
  pending : ¬(base < a ∧ a = min (base + ackBatch) src.totalChunks) → s.lastAck = base ∧ l.toSender = []

/-- The session has given up; it may have sent the ACK before. -/
structure Lost (src : Source) (l : Link) (base q : Nat) : Prop where
  session : ∃ s, l.session = some s ∧ s.stage.dead = true
  replies : ∃ errors, Errors errors ∧ (l.toSender = errors ∨
    (base < q ∧ q = min (base + ackBatch) src.totalChunks) ∧ l.toSender = .ack (q - 1) :: errors)

/-- A stream on which `q` chunks were sent, counted from the first of the file, and `base` of them acknowledged. -/
def Linked (env : Env) (src : Source) (l : Link) (base q : Nat) : Prop :=
  (q = base ∨ q ≤ min (base + ackBatch) src.totalChunks) ∧
    ((∃ s a, l.Serves env src s base q a) ∨ l.Lost src base q)

def Opens (src : Source) (l : Link) : Prop :=
  (l.session = none ∧ l.toSender = []) ∨
    ∃ s, l.session = some s ∧ l.toReceiver = [] ∧
      ((s.Opening src ∧ l.toSender = []) ∨
        (∃ k : Nat, s.Expects src k ∧ s.lastAck = k ∧ l.toSender = [.accept k]) ∨
        (s.stage.dead = true ∧ (l.toSender = [] ∨ l.toSender = [.reject] ∨ ∃ k : Nat, l.toSender = [.accept k])))

variable {l : Link} {s : Session}

variable {rest : List Frame} {a : Act} {base q : Nat} {r : FS × Session × List Reply}

theorem input_recv {f : Frame} {io : DataIO} (h : l.input (.recv f io) = some rest) :
    l.toReceiver = f :: rest := by
  simp only [input] at h
  split at h
  · rename_i f' rest' hqueue
    split at h
    · rename_i hf
      rw [hqueue, hf, Option.some.inj h]
    · cases h
  · cases h

theorem input_eq (h : l.input a = some rest) (ha : ∀ f io, a ≠ .recv f io) :
    l.toReceiver = rest := by
  cases a with
  | recv f io => exact absurd rfl (ha f io)
  | _ => exact Option.some.inj h

theorem Lost.serve (h : l.Lost src base q) (hs : l.session = some s) {fs : FS}
    (hstep : s.step env fs a = some r) (rest : List Frame) :
    Lost src ⟨rest, l.toSender ++ r.2.2, some r.2.1⟩ base q := by
  obtain ⟨s', hs', hdead⟩ := h.session
  cases hs.symm.trans hs'
  obtain ⟨hdead', hreplies, -⟩ := dead_step hdead hstep
  refine ⟨⟨_, rfl, hdead'⟩, ?_⟩
  rw [hreplies, List.append_nil]
  exact h.replies

theorem Linked.serve (h : l.Linked env src base q) (hk : l.Known pay) (hs : l.session = some s)
    (hz : env.zstd.Lawful) (hF : src.data.length < 2 ^ 63) {fs : FS}
    (hinput : l.input a = some rest) (hstep : s.step env fs a = some r) :
    Linked env src ⟨rest, l.toSender ++ r.2.2, some r.2.1⟩ base q := by
  have hn := src.totalChunks_lt hF
  have hours := hk.ours s hs
  refine ⟨h.1, ?_⟩
  rcases h.2 with ⟨s', k, hserves⟩ | hlost
  · cases hs.symm.trans hserves.session
    have hle := hserves.le
    rcases hserves.expects.step_cases hstep with ⟨f, io, rfl, rfl⟩ | ⟨rfl, rfl⟩
    · have hqueue := input_recv hinput
      rw [hserves.queue] at hqueue
      have hkq : k < q := by
        by_contra hge
        rw [src.frames_of_le env (by omega)] at hqueue
        cases hqueue
      rw [src.frames_cons env hkq] at hqueue
      obtain ⟨hf, hrest⟩ := List.cons_eq_cons.1 hqueue
      have hq : q ≤ min (base + ackBatch) src.totalChunks := by
        rcases h.1 with heq | hle'
        · omega
        · exact hle'
      have hopen : ¬(base < k ∧ k = min (base + ackBatch) src.totalChunks) := by omega
      obtain ⟨hack, hsent⟩ := hserves.pending hopen
      have hreceive := hserves.expects.receive hours hz (by omega) (by omega) hack (by omega) fs io
      rw [hf] at hreceive
      obtain ⟨-, ⟨hfailed, herrors⟩ | ⟨hexpects, hlast, hreply⟩⟩ := hreceive
      · right
        refine ⟨⟨_, rfl, by rw [hfailed]; rfl⟩, _, herrors, .inl ?_⟩
        rw [hsent, List.nil_append]
      · left
        have hdue : due src base k ↔ base < k + 1 ∧ k + 1 = min (base + ackBatch) src.totalChunks := by
          unfold due
          omega
        refine ⟨_, k + 1, rfl, hexpects, by omega, hrest.symm, fun hfull => ?_, fun hpart => ?_⟩
        · rw [hlast, if_pos (hdue.2 hfull), hreply, if_pos (hdue.2 hfull), hsent]
          refine ⟨rfl, ?_⟩
          simp
        · rw [hlast, if_neg fun hd => hpart (hdue.1 hd), hreply, if_neg fun hd => hpart (hdue.1 hd), hsent]
          exact ⟨rfl, rfl⟩
    · right
      refine ⟨⟨_, rfl, rfl⟩, [], by simp [Errors], ?_⟩
      simp only [List.append_nil]
      by_cases hfull : base < k ∧ k = min (base + ackBatch) src.totalChunks
      · right
        have hkq : k = q := by
          rcases h.1 with heq | hle'
          · omega
          · omega
        rw [← hkq]
        exact ⟨hfull, (hserves.acked hfull).2⟩
      · exact .inl (hserves.pending hfull).2
  · exact .inr (hlost.serve hs hstep rest)

theorem input_nil (hnil : l.toReceiver = []) (h : l.input a = some rest) :
    rest = [] ∧ ∀ f io, a ≠ .recv f io := by
  have hother : ∀ f io, a ≠ .recv f io := by
    rintro f io rfl
    have hqueue := input_recv h
    rw [hnil] at hqueue
    cases hqueue
  exact ⟨(input_eq h hother).symm.trans hnil, hother⟩

theorem Opens.serve (h : l.Opens src) (hk : l.Known pay) (hs : l.session = some s) (hF : src.data.length < 2 ^ 63)
    {fs : FS} (hinput : l.input a = some rest)
    (hstep : s.step env fs a = some r) : Opens src ⟨rest, l.toSender ++ r.2.2, some r.2.1⟩ := by
  rcases h with ⟨hnone, -⟩ | ⟨s', hs', hqueue, hcase⟩
  · rw [hs] at hnone
    cases hnone
  · cases hs.symm.trans hs'
    obtain ⟨rfl, hother⟩ := input_nil hqueue hinput
    refine .inr ⟨_, rfl, rfl, ?_⟩
    rcases hcase with ⟨hopening, hsent⟩ | ⟨k, hexpects, hack, hsent⟩ | ⟨hdead, hsent⟩
    · rw [hsent, List.nil_append]
      rcases hopening.step (hk.ours s hs) hF hstep with hstill | ⟨hdead, hreply⟩ | ⟨k, hexpects, hack, hreply⟩
      · exact .inl hstill
      · exact .inr (.inr ⟨hdead, hreply.imp_right .inl⟩)
      · exact .inr (.inl ⟨k, hexpects, hack, hreply⟩)
    · rcases hexpects.step_cases hstep with ⟨f, io, rfl, -⟩ | ⟨-, rfl⟩
      · exact absurd rfl (hother f io)
      · refine .inr (.inr ⟨rfl, .inr (.inr ⟨k, ?_⟩)⟩)
        rw [hsent]
        rfl
    · obtain ⟨hdead', hreply, -⟩ := dead_step hdead hstep
      rw [hreply, List.append_nil]
      exact .inr (.inr ⟨hdead', hsent⟩)

theorem Linked.push (h : l.Linked env src base q) (hq : q < min (base + ackBatch) src.totalChunks) :
    Linked env src { l with toReceiver := l.toReceiver ++ [src.frame env q] } base (q + 1) := by
  refine ⟨.inr hq, ?_⟩
  rcases h.2 with ⟨s, a, hserves⟩ | hlost
  · left
    have hle := hserves.le
    refine ⟨s, a, hserves.session, hserves.expects, by omega, ?_, hserves.acked, hserves.pending⟩
    rw [src.frames_concat env hle.2, hserves.queue]
  · right
    obtain ⟨errors, herrors, hsent | ⟨hfull, -⟩⟩ := hlost.replies
    · exact ⟨hlost.session, errors, herrors, .inl hsent⟩
    · omega

theorem Linked.ack (h : l.Linked env src base q) {cs : Int} {rest : List Reply}
    (hread : l.toSender = .ack cs :: rest) : cs = q - 1 ∧ Linked env src { l with toSender := rest } q q := by
  rcases h.2 with ⟨s, a, hserves⟩ | hlost
  · have hle := hserves.le
    by_cases hfull : base < a ∧ a = min (base + ackBatch) src.totalChunks
    · obtain ⟨hlast, hsent⟩ := hserves.acked hfull
      have haq : a = q := by
        rcases h.1 with heq | hle'
        · omega
        · omega
      subst haq
      rw [hread] at hsent
      obtain ⟨hcs, hrest⟩ := List.cons_eq_cons.1 hsent
      refine ⟨Reply.ack.inj hcs, .inl rfl, .inl ⟨s, a, hserves.session, hserves.expects, ⟨le_rfl, le_rfl⟩,
        hserves.queue, fun hlt => absurd hlt.1 (Nat.lt_irrefl _), fun _ => ⟨hlast, hrest⟩⟩⟩
    · rw [(hserves.pending hfull).2] at hread
      cases hread
  · obtain ⟨errors, herrors, hsent | ⟨-, hsent⟩⟩ := hlost.replies
    · obtain ⟨why, hwhy⟩ := herrors (.ack cs) (by rw [← hsent, hread]; exact List.mem_cons_self)
      cases hwhy
    · rw [hread] at hsent
      obtain ⟨hcs, hrest⟩ := List.cons_eq_cons.1 hsent
      refine ⟨Reply.ack.inj hcs, .inl rfl, .inr ⟨hlost.session, errors, herrors, .inl hrest⟩⟩

theorem Opens.accept (env : Env) (h : l.Opens src) {k : Int} {rest : List Reply} (hread : l.toSender = .accept k :: rest) :
    ∃ q : Nat, k = q ∧ Linked env src { l with toSender := rest } q q := by
  rcases h with ⟨-, hsent⟩ | ⟨s, hs, hqueue, ⟨-, hsent⟩ | ⟨q, hexpects, hack, hsent⟩ | ⟨hdead, hsent | hsent | ⟨q, hsent⟩⟩⟩ <;>
    rw [hread] at hsent
  · cases hsent
  · cases hsent
  · obtain ⟨hk, hrest⟩ := List.cons_eq_cons.1 hsent
    refine ⟨q, Reply.accept.inj hk, .inl rfl, .inl ⟨s, q, hs, hexpects, ⟨le_rfl, le_rfl⟩, ?_,
      fun hlt => absurd hlt.1 (Nat.lt_irrefl _), fun _ => ⟨hack, hrest⟩⟩⟩
    rw [src.frames_of_le env le_rfl]
    exact hqueue
  · cases hsent
  · cases hsent
  · obtain ⟨hk, hrest⟩ := List.cons_eq_cons.1 hsent
    exact ⟨q, Reply.accept.inj hk, .inl rfl, .inr ⟨⟨s, hs, hdead⟩, [], by simp [Errors], .inl hrest⟩⟩

theorem read_some {r : Reply} {l' : Link} (h : l.read (some r) = some l') :
    ∃ rest, l.toSender = r :: rest ∧ l' = { l with toSender := rest } := by
  simp only [read] at h
  split at h
  · rename_i r' rest hsent
    split at h
    · rename_i hr
      exact ⟨rest, by rw [hsent, hr], (Option.some.inj h).symm⟩
    · cases h
  · cases h

theorem read_eq {x : Option Reply} {l' : Link} (h : l.read x = some l') :
    l'.toReceiver = l.toReceiver ∧ l'.session = l.session ∧ l'.toSender ⊆ l.toSender := by
  cases x with
  | none =>
    cases Option.some.inj h
    exact ⟨rfl, rfl, List.Subset.refl _⟩
  | some r =>
    obtain ⟨rest, hsent, rfl⟩ := read_some h
    exact ⟨rfl, rfl, hsent ▸ List.subset_cons_self r rest⟩

end Link

namespace Sender

theorem stage_of_step {s s' : Sender} {a : SendAct} {frames : List Frame} (h : step pay s a = some (s', frames)) :
    (s'.stage = .connect → s.stage = .ack ∧ s'.seq = s.seq ∧ frames = []) ∧
      (s'.stage = .init → s.stage = .connect ∧ s'.offset = s.seq) := by
  cases stepped h with
  | connected hstage => exact ⟨SendStage.noConfusion, fun _ => ⟨hstage, rfl⟩⟩
  | lost hstage => exact ⟨fun _ => ⟨hstage, rfl, rfl⟩, SendStage.noConfusion⟩
  | entered _ heq =>
    unfold enter at heq
    split at heq
    · split at heq <;> cases heq <;> exact ⟨SendStage.noConfusion, SendStage.noConfusion⟩
    · cases heq
      exact ⟨SendStage.noConfusion, SendStage.noConfusion⟩
  | @chunk e _ _ hstage heq =>
    have hsame : s'.stage = .batch e ∨ s'.stage = .ack ∨ s'.stage = .returning false := by
      unfold sendChunk at heq
      simp only at heq
      split_ifs at heq <;> cases heq <;> simp [hstage]
    rcases hsame with hst | hst | hst <;> rw [hst] <;> exact ⟨SendStage.noConfusion, SendStage.noConfusion⟩
  | init | accepted | acked | fin | done | deleted | notConnected | notInit | notAccepted | notFin | notDone =>
    exact ⟨SendStage.noConfusion, SendStage.noConfusion⟩

theorem step_of_idle {s s' : Sender} {a : SendAct} {frames : List Frame} (h : step pay s a = some (s', frames))
    (ha : a ≠ .connect true) (hs : s.stage = .connect ∨ s.stage = .returning false ∨ s.stage = .returned false) :
    s'.stage = .connect ∨ s'.stage = .returning false ∨ s'.stage = .returned false := by
  unfold step at h
  rcases hs with hstage | hstage | hstage <;> rw [hstage] at h
  · cases a with
    | connect ok =>
      cases ok with
      | true => exact absurd rfl ha
      | false =>
        cases h
        exact .inr (.inl rfl)
    | _ => cases h
  · cases a with
    | delete =>
      cases h
      exact .inr (.inr rfl)
    | _ => cases h
  · cases a with
    | _ => cases h

/-- The sender is about to send the chunk `q`, if there is one. -/
structure At (src : Source) (s : Sender) (q : Nat) : Prop where
  seq : s.seq = q
  cursor : q < src.totalChunks → s.cursor = q * chunkSize

theorem seek_eq (hF : src.data.length < 2 ^ 63) (cursor : Nat) {q : Nat} (hq : q < src.totalChunks) :
    seek cursor q = q * chunkSize := by
  have hlt := (lt_count_iff (by decide)).1 hq
  have hwrap : wrap64 ((q : Int) * chunkSize) = q * chunkSize :=
    wrap64_of_lt (by omega) (by exact_mod_cast hlt.trans hF)
  unfold seek
  simp only [hwrap]
  rw [if_neg (by omega)]
  omega

theorem At.fileRead {s : Sender} {q : Nat} (h : s.At src q) (hq : q < src.totalChunks) :
    Sender.fileRead src s.cursor = src.chunk q ∧ src.chunk q ≠ [] := by
  refine ⟨?_, chunk_ne_nil (by decide) hq⟩
  rw [h.cursor hq]
  rfl

theorem sendChunk_eq (pay : Payloads env src) {s : Sender} {q : Nat} (h : s.At src q)
    (hF : src.data.length < 2 ^ 63) (hq : q < src.totalChunks) {batchEnd : Int} (hlt : (q : Int) < batchEnd) :
    sendChunk pay s batchEnd .ok =
        ({ s with seq := (q + 1 : Nat), cursor := s.cursor + (src.chunk q).length }, [src.frame env q]) ∧
      At src { s with seq := (q + 1 : Nat), cursor := s.cursor + (src.chunk q).length } (q + 1) := by
  have hn := src.totalChunks_lt hF
  obtain ⟨hread, hne⟩ := h.fileRead hq
  have hwrap : wrap64 ((q : Int) + 1) = (q + 1 : Nat) := by
    rw [wrap64_of_lt (by omega) (by omega)]
    rfl
  refine ⟨?_, rfl, fun hlt' => ?_⟩
  · unfold sendChunk
    simp only [h.seq, if_pos hlt, hread, if_neg hne, hwrap]
    rfl
  · have hlen : (src.chunk q).length = chunkSize := length_chunk_of_lt (by decide) hlt'
    simp only
    rw [h.cursor hq, hlen, Nat.add_mul, Nat.one_mul]

end Sender

/-- The sender and its newest stream. -/
def Phase (env : Env) (src : Source) (snd : Sender) (l : Link) : Prop :=
  match snd.stage with
  | .init => l = {}
  | .accept => l.Opens src
  | .top => ∃ q, snd.At src q ∧ l.Linked env src q q
  | .batch e => ∃ base q, snd.At src q ∧ e = (min (base + ackBatch) src.totalChunks : Nat) ∧ base < src.totalChunks ∧
      base ≤ q ∧ q ≤ min (base + ackBatch) src.totalChunks ∧ l.Linked env src base q
  | .ack => ∃ base q, snd.At src q ∧ base < q ∧ q = min (base + ackBatch) src.totalChunks ∧ l.Linked env src base q
  | .fin => ∃ q, src.totalChunks ≤ q ∧ l.Linked env src q q
  | _ => True

variable {snd snd' : Sender} {l : Link}

theorem Phase.enter {cancelled : Bool} {frames : List Frame}
    (h : Phase env src snd l) (hF : src.data.length < 2 ^ 63) (hstage : snd.stage = .top)
    (heq : Sender.enter pay snd cancelled = (snd', frames)) :
    Phase env src snd' { l with toReceiver := l.toReceiver ++ frames } := by
  have hn := src.totalChunks_lt hF
  unfold Phase at h
  rw [hstage] at h
  obtain ⟨q, hat, hlinked⟩ := h
  have hseq := hat.seq
  unfold Sender.enter at heq
  split at heq
  · rename_i hlt
    split at heq
    · cases heq
      trivial
    · have hwrap : wrap64 (snd.seq + ackBatch) = (q + ackBatch : Nat) := by
        rw [hseq, wrap64_of_lt (by omega) (by omega)]
        rfl
      have hend : (if wrap64 (snd.seq + ackBatch) > src.totalChunks then (src.totalChunks : Int)
          else wrap64 (snd.seq + ackBatch)) = (min (q + ackBatch) src.totalChunks : Nat) := by
        rw [hwrap]
        split <;> omega
      simp only [hend] at heq
      cases heq
      refine ⟨q, q, ⟨hat.seq, hat.cursor⟩, rfl, by omega, le_rfl, ?_, ?_⟩
      · unfold ackBatch
        omega
      · rw [List.append_nil]
        exact hlinked
  · cases heq
    refine ⟨q, by omega, ?_⟩
    rw [List.append_nil]
    exact hlinked

theorem Phase.chunk {e : Int} {io : ChunkIO} {frames : List Frame}
    (h : Phase env src snd l) (hF : src.data.length < 2 ^ 63) (hstage : snd.stage = .batch e)
    (heq : Sender.sendChunk pay snd e io = (snd', frames)) :
    Phase env src snd' { l with toReceiver := l.toReceiver ++ frames } := by
  unfold Phase at h
  rw [hstage] at h
  obtain ⟨base, q, hat, rfl, hbase, hle, hq, hlinked⟩ := h
  by_cases hlt : q < min (base + ackBatch) src.totalChunks
  · have hseq : snd.seq < (min (base + ackBatch) src.totalChunks : Nat) := by
      rw [hat.seq]
      exact Int.ofNat_lt.2 hlt
    cases io with
    | ok =>
      obtain ⟨hsend, hat'⟩ := Sender.sendChunk_eq pay hat hF (by omega) (Int.ofNat_lt.2 hlt)
      rw [hsend] at heq
      cases heq
      unfold Phase
      simp only [hstage]
      exact ⟨base, q + 1, ⟨hat'.seq, hat'.cursor⟩, rfl, hbase, by omega, hlt, hlinked.push hlt⟩
    | readFails =>
      have hsend : Sender.sendChunk pay snd (min (base + ackBatch) src.totalChunks : Nat) .readFails =
          ({ snd with stage := .returning false }, [⟨frameTypeCancel, pay.cancel "read error"⟩]) := by
        unfold Sender.sendChunk
        rw [if_pos hseq, if_pos rfl]
      rw [hsend] at heq
      cases heq
      trivial
    | writeFails =>
      obtain ⟨hfile, hne⟩ := hat.fileRead (by omega)
      have hsend : Sender.sendChunk pay snd (min (base + ackBatch) src.totalChunks : Nat) .writeFails =
          ({ snd with stage := .returning false }, []) := by
        unfold Sender.sendChunk
        simp only [if_pos hseq, hfile, if_neg hne]
        rfl
      rw [hsend] at heq
      cases heq
      trivial
  · have hend : ¬snd.seq < (min (base + ackBatch) src.totalChunks : Nat) := by
      rw [hat.seq]
      omega
    have hsend : Sender.sendChunk pay snd (min (base + ackBatch) src.totalChunks : Nat) io =
        ({ snd with stage := .ack }, []) := by
      unfold Sender.sendChunk
      rw [if_neg hend]
    rw [hsend] at heq
    cases heq
    refine ⟨base, q, ⟨hat.seq, hat.cursor⟩, ?_, by omega, ?_⟩
    · unfold ackBatch at hlt
      omega
    · rw [List.append_nil]
      exact hlinked

theorem Phase.send {l l' : Link} {a : SendAct} {frames : List Frame} (h : Phase env src snd l)
    (hF : src.data.length < 2 ^ 63) (hstep : Sender.step pay snd a = some (snd', frames))
    (hread : l.read a.reads = some l') (ha : a ≠ .connect true) :
    Phase env src snd' { l' with toReceiver := l'.toReceiver ++ frames } := by
  have hn := src.totalChunks_lt hF
  cases Sender.stepped hstep with
  | connected => exact absurd rfl ha
  | init hstage =>
    cases Option.some.inj hread
    unfold Phase at h
    rw [hstage] at h
    rw [h]
    exact .inl ⟨rfl, rfl⟩
  | accepted k hstage =>
    obtain ⟨rest, hsent, rfl⟩ := Link.read_some hread
    unfold Phase at h
    rw [hstage] at h
    obtain ⟨q, rfl, hlinked⟩ := h.accept env hsent
    refine ⟨q, ⟨rfl, fun hq => ?_⟩, ?_⟩
    · rw [← Sender.seek_eq hF snd.cursor hq]
    · rw [List.append_nil]
      exact hlinked
  | entered hstage heq =>
    cases Option.some.inj hread
    exact h.enter hF hstage heq
  | chunk hstage heq =>
    cases Option.some.inj hread
    exact h.chunk hF hstage heq
  | acked cs hstage =>
    obtain ⟨rest, hsent, rfl⟩ := Link.read_some hread
    unfold Phase at h
    rw [hstage] at h
    obtain ⟨base, q, hat, hlt, hq, hlinked⟩ := h
    obtain ⟨rfl, hlinked'⟩ := hlinked.ack hsent
    have hwrap : wrap64 ((q : Int) - 1 + 1) = q := by
      rw [Int.sub_add_cancel, wrap64_of_lt (by omega) (by omega)]
    refine ⟨q, ⟨hwrap, ?_⟩, ?_⟩
    · intro hq'
      rw [hwrap, ← Sender.seek_eq hF snd.cursor hq']
    · rw [List.append_nil]
      exact hlinked'
  | lost | fin | done | deleted | notConnected | notInit | notAccepted | notFin | notDone => trivial

theorem Phase.serve {snd : Sender} {s : Session} {a : Act} {fs : FS} {rest : List Frame}
    {r : FS × Session × List Reply} (h : Phase env src snd l) (hk : l.Known pay) (hs : l.session = some s)
    (hz : env.zstd.Lawful) (hF : src.data.length < 2 ^ 63) (hinput : l.input a = some rest)
    (hstep : s.step env fs a = some r) : Phase env src snd ⟨rest, l.toSender ++ r.2.2, some r.2.1⟩ := by
  unfold Phase at h ⊢
  split at h
  · rw [h] at hs
    cases hs
  · exact h.serve hk hs hF hinput hstep
  · obtain ⟨q, hat, hlinked⟩ := h
    exact ⟨q, hat, hlinked.serve hk hs hz hF hinput hstep⟩
  · obtain ⟨base, q, hat, he, hbase, hle, hq, hlinked⟩ := h
    exact ⟨base, q, hat, he, hbase, hle, hq, hlinked.serve hk hs hz hF hinput hstep⟩
  · obtain ⟨base, q, hat, hlt, hq, hlinked⟩ := h
    exact ⟨base, q, hat, hlt, hq, hlinked.serve hk hs hz hF hinput hstep⟩
  · obtain ⟨q, hq, hlinked⟩ := h
    exact ⟨q, hq, hlinked.serve hk hs hz hF hinput hstep⟩
  · trivial

theorem Link.Linked.session_ne_none {base q : Nat} (h : l.Linked env src base q) : l.session ≠ none := by
  rcases h.2 with ⟨s, a, hserves⟩ | hlost
  · rw [hserves.session]
    simp
  · obtain ⟨s, hs, -⟩ := hlost.session
    rw [hs]
    simp

theorem Phase.readInit {snd : Sender} {f : Frame} {rest : List Frame} {init : Init}
    (h : Phase env src snd l) (hk : l.Known pay) (hs : l.session = none) (hf : l.toReceiver = f :: rest) :
    Phase env src snd ⟨rest, l.toSender, some { init }⟩ := by
  unfold Phase at h ⊢
  split at h
  · rw [h] at hf
    cases hf
  · rcases h with ⟨-, hsent⟩ | ⟨s, hs', -⟩
    · refine .inr ⟨_, rfl, ?_, .inl ⟨trivial, hsent⟩⟩
      rcases hk.unread hs with hnil | ⟨offset, -, hqueue⟩
      · rw [hnil] at hf
        cases hf
      · rw [hqueue] at hf
        exact (List.cons_eq_cons.1 hf).2.symm
    · rw [hs] at hs'
      cases hs'
  · obtain ⟨q, -, hlinked⟩ := h
    exact absurd hs hlinked.session_ne_none
  · obtain ⟨base, q, -, -, -, -, -, hlinked⟩ := h
    exact absurd hs hlinked.session_ne_none
  · obtain ⟨base, q, -, -, -, hlinked⟩ := h
    exact absurd hs hlinked.session_ne_none
  · obtain ⟨q, -, hlinked⟩ := h
    exact absurd hs hlinked.session_ne_none
  · trivial

theorem Phase.frames {a : SendAct} {frames : List Frame} (h : Phase env src snd l)
    (hstep : Sender.step pay snd a = some (snd', frames)) :
    frames = [] ∨ (snd.stage = .init ∧ l = {} ∧ frames = [⟨frameTypeInit, pay.init snd.offset⟩]) ∨ l.session ≠ none := by
  cases Sender.stepped hstep with
  | init hstage =>
    unfold Phase at h
    rw [hstage] at h
    exact .inr (.inl ⟨hstage, h, rfl⟩)
  | entered hstage | fin hstage =>
    unfold Phase at h
    rw [hstage] at h
    obtain ⟨q, -, hlinked⟩ := h
    exact .inr (.inr hlinked.session_ne_none)
  | chunk hstage =>
    unfold Phase at h
    rw [hstage] at h
    obtain ⟨base, q, -, -, -, -, -, hlinked⟩ := h
    exact .inr (.inr hlinked.session_ne_none)
  | connected | accepted | acked | lost | done | deleted | notConnected | notInit | notAccepted | notFin | notDone =>
    exact .inl rfl

namespace Transfer

structure Sync (pay : Payloads env src) (t : Transfer) : Prop where
  known : ∀ l ∈ t.links, l.Known pay
  seq : t.sender.stage = .connect → -2 ^ 63 ≤ t.sender.seq ∧ t.sender.seq < 2 ^ 63
  offset : t.sender.stage = .init → -2 ^ 63 ≤ t.sender.offset ∧ t.sender.offset < 2 ^ 63
  phase : ∀ l rest, t.links = l :: rest → Phase env src t.sender l
  empty : t.links = [] → t.sender.stage = .connect ∨ t.sender.stage = .returning false ∨ t.sender.stage = .returned false

variable {t t' : Transfer}

theorem Sync.start {offset : Int} (h : -2 ^ 63 ≤ offset ∧ offset < 2 ^ 63) (fs : FS) : Sync pay (start offset fs) :=
  ⟨fun _ hl => absurd hl List.not_mem_nil, fun _ => h, fun hst => SendStage.noConfusion hst,
    fun _ _ hl => absurd hl.symm (List.cons_ne_nil _ _), fun _ => .inl rfl⟩

theorem Sync.seq_send (h : Sync pay t) (hF : src.data.length < 2 ^ 63) {a : SendAct} {snd : Sender} {frames : List Frame}
    (hstep : Sender.step pay t.sender a = some (snd, frames)) :
    (snd.stage = .connect → -2 ^ 63 ≤ snd.seq ∧ snd.seq < 2 ^ 63) ∧
      (snd.stage = .init → -2 ^ 63 ≤ snd.offset ∧ snd.offset < 2 ^ 63) := by
  have hn := src.totalChunks_lt hF
  obtain ⟨hconnect, hinit⟩ := Sender.stage_of_step hstep
  refine ⟨fun hst => ?_, fun hst => ?_⟩
  · obtain ⟨hstage, hseq, -⟩ := hconnect hst
    rw [hseq]
    cases hlinks : t.links with
    | nil =>
      have hempty := h.empty hlinks
      rw [hstage] at hempty
      simp at hempty
    | cons l rest =>
      have hphase := h.phase l rest hlinks
      unfold Phase at hphase
      rw [hstage] at hphase
      obtain ⟨base, q, hat, -, hq, -⟩ := hphase
      rw [hat.seq]
      omega
  · obtain ⟨hstage, hoffset⟩ := hinit hst
    rw [hoffset]
    exact h.seq hstage

theorem Sync.send (h : Sync pay t) (hF : src.data.length < 2 ^ 63) {a : SendAct} (hstep : send pay t a = some t') :
    Sync pay t' := by
  obtain ⟨snd, frames, hsnd, ⟨rfl, rfl⟩ | ⟨ha, hnil, rfl⟩ | ⟨ha, l, rest, l', hlinks, hread, rfl⟩⟩ := send_cases hstep
  · obtain ⟨hseq, hoffset⟩ := h.seq_send hF hsnd
    obtain ⟨hstage⟩ := Sender.stepped hsnd
    refine ⟨fun l hl => ?_, hseq, hoffset, fun l rest hl => ?_, fun hl => by cases hl⟩
    · rcases List.mem_cons.1 hl with rfl | hl
      · exact ⟨fun _ => .inl rfl, fun s hs => by cases hs⟩
      · exact h.known l hl
    · cases hl
      rfl
  · obtain ⟨hseq, hoffset⟩ := h.seq_send hF hsnd
    refine ⟨h.known, hseq, hoffset, fun l rest hl => ?_, fun _ => ?_⟩
    · rw [hnil] at hl
      cases hl
    · exact Sender.step_of_idle hsnd ha (h.empty hnil)
  · obtain ⟨hseq, hoffset⟩ := h.seq_send hF hsnd
    have hphase := h.phase l rest hlinks
    have hknown := h.known l (by rw [hlinks]; exact List.mem_cons_self)
    obtain ⟨hqueue, hsession, -⟩ := Link.read_eq hread
    refine ⟨fun l₁ hl₁ => ?_, hseq, hoffset, fun l₁ rest₁ hl₁ => ?_, fun hl => by cases hl⟩
    · rcases List.mem_cons.1 hl₁ with rfl | hl₁
      · refine ⟨fun hnone => ?_, fun s hs => hknown.ours s (hsession ▸ hs)⟩
        rw [hsession] at hnone
        rw [hqueue]
        rcases hphase.frames hsnd with rfl | ⟨hstage, rfl, rfl⟩ | hsome
        · rw [List.append_nil]
          exact hknown.unread hnone
        · exact .inr ⟨_, h.offset hstage, rfl⟩
        · exact absurd hnone hsome
      · exact h.known l₁ (by rw [hlinks]; exact List.mem_cons_of_mem _ hl₁)
    · cases hl₁
      exact hphase.send hF hsnd hread ha

theorem Sync.set (h : Sync pay t) {j : Nat} {l l' : Link} (hl : t.links[j]? = some l) (hknown : l'.Known pay)
    (hphase : Phase env src t.sender l → Phase env src t.sender l') (fs : FS) (dones : List (Option (List Byte))) :
    Sync pay { t with fs, links := t.links.set j l', dones } := by
  refine ⟨fun l₁ hl₁ => ?_, h.seq, h.offset, fun l₁ rest hl₁ => ?_, fun hnil => h.empty ?_⟩
  · rcases List.mem_or_eq_of_mem_set hl₁ with hl₁ | rfl
    · exact h.known l₁ hl₁
    · exact hknown
  · cases hlinks : t.links with
    | nil =>
      rw [hlinks] at hl
      cases hl
    | cons l₀ rest₀ =>
      simp only [hlinks] at hl hl₁
      cases j with
      | zero =>
        cases hl
        cases hl₁
        exact hphase (h.phase _ _ hlinks)
      | succ j =>
        cases hl₁
        exact h.phase _ _ hlinks
  · exact (List.set_eq_nil_iff _ _).1 hnil

theorem Sync.readInit (h : Sync pay t) {j : Nat} (hstep : readInit env t j = some t') : Sync pay t' := by
  obtain ⟨f, rest, toSender, init, hl, hinit, rfl⟩ := readInit_cases hstep
  have hknown := h.known _ (List.mem_of_getElem? hl)
  have hours : Ours env src { init := init } := by
    rcases hknown.unread rfl with hnil | ⟨offset, hfits, hqueue⟩
    · cases hnil
    · cases hqueue
      rw [pay.init_read offset hfits.1 hfits.2] at hinit
      exact ⟨offset, (Option.some.inj hinit).symm⟩
  refine h.set hl ⟨fun hnone => absurd hnone (Option.some_ne_none _), fun s hs => ?_⟩
    (fun hphase => hphase.readInit hknown rfl rfl) t.fs t.dones
  cases hs
  exact hours

theorem Sync.serve (h : Sync pay t) (hz : env.zstd.Lawful) (hF : src.data.length < 2 ^ 63) {j : Nat} {a : Act}
    (hstep : serve env t j a = some t') : Sync pay t' := by
  obtain ⟨l, s, rest, r, hl, hs, hinput, hses, rfl⟩ := serve_cases hstep
  have hknown := h.known l (List.mem_of_getElem? hl)
  refine h.set hl ⟨fun hnone => absurd hnone (Option.some_ne_none _), fun s' hs' => ?_⟩
    (fun hphase => hphase.serve hknown hs hz hF hinput hses) _ _
  cases hs'
  obtain ⟨offset, hinit⟩ := hknown.ours s hs
  exact ⟨offset, (init_step hses).trans hinit⟩

theorem sync_reach {offset : Int} {fs : FS} (hz : env.zstd.Lawful) (hF : src.data.length < 2 ^ 63)
    (hoffset : -2 ^ 63 ≤ offset ∧ offset < 2 ^ 63) (h : (system pay offset fs).Reach anyStep t) : Sync pay t := by
  refine h.invariant (I := Sync pay) ?_ ?_
  · rintro _ rfl
    exact Sync.start hoffset fs
  · intro t m t' _ ht _ hstep
    cases m with
    | send a => exact ht.send hF hstep
    | readInit j => exact ht.readInit hstep
    | serve j a => exact ht.serve hz hF hstep

/-- The sender waits for an ACK, the session for a frame, and nothing is on its way. -/
def Deadlocked (t : Transfer) : Prop :=
  t.sender.stage = .ack ∧ ∃ l rest s, t.links = l :: rest ∧ l.session = some s ∧ s.stage = .loop ∧ l.toReceiver = [] ∧
    l.toSender = []

/-- Every ACK that the sender can read names the chunks it has sent. -/
def AcksInStep (t : Transfer) : Prop :=
  t.sender.stage = .ack → ∀ l rest cs replies, t.links = l :: rest → l.toSender = .ack cs :: replies →
    cs + 1 = t.sender.seq

/-- Sender and receiver stay in step, from every offset and with every `.part` file. -/
theorem sender_receiver_in_step {offset : Int} {fs : FS} (hz : env.zstd.Lawful) (hF : src.data.length < 2 ^ 63)
    (hoffset : -2 ^ 63 ≤ offset ∧ offset < 2 ^ 63) (h : (system pay offset fs).Reach anyStep t) :
    ¬t.Deadlocked ∧ t.AcksInStep := by
  have hsync := sync_reach hz hF hoffset h
  refine ⟨?_, ?_⟩
  · rintro ⟨hstage, l, rest, s, hlinks, hs, hloop, hqueue, hsent⟩
    have hphase := hsync.phase l rest hlinks
    unfold Phase at hphase
    rw [hstage] at hphase
    obtain ⟨base, q, hat, hlt, hq, -, ⟨s', a, hserves⟩ | hlost⟩ := hphase
    · have hle := hserves.le
      have haq : a = q := by
        by_contra hne
        have hframes := hserves.queue
        rw [hqueue, src.frames_cons env (by omega)] at hframes
        cases hframes
      have hack := (hserves.acked ⟨by omega, by omega⟩).2
      rw [hsent] at hack
      cases hack
    · obtain ⟨s', hs', hdead⟩ := hlost.session
      cases hs.symm.trans hs'
      rw [hloop] at hdead
      cases hdead
  · intro hstage l rest cs replies hlinks hread
    have hphase := hsync.phase l rest hlinks
    unfold Phase at hphase
    rw [hstage] at hphase
    obtain ⟨base, q, hat, -, -, hlinked⟩ := hphase
    rw [(hlinked.ack hread).1, hat.seq]
    omega

/-! ### A run -/

def byteSource : Source := ⟨"a", [7], .none⟩

def identityHash (bytes : List Byte) : String := .ofList (bytes.map fun b => Char.ofNat b.toNat)

/-- A receiver of `byteSource`; INIT carries the offset only. -/
def byteEnv : Env where
  zstd := storing
  json :=
    { init := fun p => some { name := "a", size := 1, chunkSize := chunkSize, totalChunks := 1
                              checksum := .sha256 (identityHash [7])
                              offset := (BitVec.ofNat 64 (BigEndian.decode p)).toInt, compression := "none" }
      finChecksum := fun _ => .sha256 (identityHash [7])
      init_fits := fun p i h => by
        cases h
        simp only [Init.Fits, chunkSize]
        have hlo := BitVec.le_toInt (BitVec.ofNat 64 (BigEndian.decode p))
        have hhi := BitVec.toInt_lt (x := BitVec.ofNat 64 (BigEndian.decode p))
        omega }
  sha256 := identityHash
  finalPath := id

def bytePayloads : Payloads byteEnv byteSource where
  init offset := BigEndian.encode 8 (BitVec.ofInt 64 offset).toNat
  fin := []
  cancel _ := []
  init_read offset hlo hhi := by
    have hback := decode_encode_seq ⟨hlo, hhi⟩
    simp only [byteEnv, hback]
    rfl
  fin_read := rfl

def untilAck : List Move :=
  [.send (.connect true), .send (.writeInit true), .readInit 0, .serve 0 (.begin true true), .serve 0 (.prepare true),
    .serve 0 (.accept true), .send (.readAccept (some (.accept 0))), .send (.enter false), .send (.chunk .ok),
    .send (.chunk .ok)]

theorem in_step_of_byte :
    ∃ t, (system bytePayloads 0 (.ofFiles fun _ => none)).Reach anyStep t ∧ t.sender.stage = .ack ∧ ¬t.Deadlocked ∧
      t.AcksInStep := by
  have hreach : (system bytePayloads 0 (.ofFiles fun _ => none)).Reach anyStep _ :=
    ⟨_, rfl, exec_steps_getD
      (show (exec (next bytePayloads) (start 0 (.ofFiles fun _ => none)) untilAck).isSome = true by decide +kernel)
      (execMeets_anyStep _ _ _)⟩
  exact ⟨_, hreach, by decide +kernel, sender_receiver_in_step storing_lawful (by decide) (by decide) hreach⟩

end Transfer

end Libp2px.RelayFile
