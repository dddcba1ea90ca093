import Mathlib.Data.List.Nodup
import Libp2px.RelayFile.Receive

/-!
# Chunks in any order

`receiveLoop` marks a chunk under its number and writes it at the cursor, so the chunks lie in `.part` in the order of
their first arrival.  An ACK names the first chunk that is missing.  It is right as long as the chunks below that number
came in order.  When a chunk came too early, no ACK may follow that reaches beyond its place, and one does follow unless
a chunk of the running batch of eight never comes.
-/

namespace Libp2px.RelayFile

open Chunks

/-! ### First arrivals -/

/-- The numbers in the order of their first arrival. -/
def arrivals (l : List Nat) : List Nat := l.foldl (fun acc j => if j ∈ acc then acc else acc ++ [j]) []

theorem arrivals_append (l : List Nat) (j : Nat) :
    arrivals (l ++ [j]) = if j ∈ arrivals l then arrivals l else arrivals l ++ [j] := by
  unfold arrivals
  rw [List.foldl_append]
  rfl

variable {l : List Nat}

theorem mem_arrivals {m : Nat} : m ∈ arrivals l ↔ m ∈ l := by
  induction l using List.reverseRecOn with
  | nil => rfl
  | append_singleton l j ih =>
    rw [arrivals_append]
    split
    · rename_i hj
      rw [ih, List.mem_append, List.mem_singleton]
      exact ⟨.inl, fun h => h.elim id fun hm => hm ▸ ih.1 (hm ▸ hj)⟩
    · rw [List.mem_append, List.mem_append, ih]

theorem arrivals_nodup (l : List Nat) : (arrivals l).Nodup := by
  induction l using List.reverseRecOn with
  | nil => exact List.nodup_nil
  | append_singleton l j ih =>
    rw [arrivals_append]
    split
    · exact ih
    · rename_i hj
      exact List.nodup_append_comm.1 (List.nodup_cons.2 ⟨hj, ih⟩)

theorem arrivals_isPrefix (l post : List Nat) : arrivals l <+: arrivals (l ++ post) := by
  induction post using List.reverseRecOn with
  | nil => exact ⟨[], by rw [List.append_nil, List.append_nil]⟩
  | append_singleton post j ih =>
    rw [← List.append_assoc, arrivals_append]
    split
    · exact ih
    · exact ih.trans (List.prefix_append _ _)

/-- The first `j` chunks come in order from `k` on, and the next one is another. -/
def Misplaced (k : Nat) (l : List Nat) (j : Nat) : Prop :=
  (arrivals l).take j = List.range' k j ∧ ∃ a, (arrivals l)[j]? = some a ∧ a ≠ k + j

theorem Misplaced.append {k j : Nat} (h : Misplaced k l j) (post : List Nat) :
    Misplaced k (l ++ post) j := by
  obtain ⟨htake, a, ha, hne⟩ := h
  obtain ⟨t, ht⟩ := arrivals_isPrefix l post
  have hj : j < (arrivals l).length := (List.getElem?_eq_some_iff.1 ha).1
  rw [Misplaced, ← ht, List.take_append_of_le_length hj.le, List.getElem?_append_left hj]
  exact ⟨htake, a, ha, hne⟩

theorem inOrder_or_misplaced (k : Nat) (l : List Nat) :
    arrivals l = List.range' k (arrivals l).length ∨ ∃ j, Misplaced k l j := by
  have key : ∀ n ≤ (arrivals l).length, (arrivals l).take n = List.range' k n ∨ ∃ j, Misplaced k l j := by
    intro n
    induction n with
    | zero => exact fun _ => .inl rfl
    | succ n ih =>
      intro hn
      rcases ih (by omega) with htake | hmis
      · have hget := List.getElem?_eq_getElem (l := arrivals l) (i := n) (by omega)
        by_cases heq : (arrivals l)[n] = k + n
        · left
          rw [List.take_add_one, htake, hget, heq, List.range'_concat]
          simp
        · exact .inr ⟨n, htake, _, hget, heq⟩
      · exact .inr hmis
  rcases key _ le_rfl with htake | hmis
  · rw [List.take_length] at htake
    exact .inl htake
  · exact .inr hmis

/-! ### When an ACK is sent -/

/-- The end of the batch in which the chunk out of place came. -/
def batchEnd (k n j : Nat) : Nat := min (k + ackBatch * (j / ackBatch) + ackBatch) n

/-- The last ACK after the chunks `l` of `n`: in order, or with a chunk of the batch still missing. -/
structure AckState (k n : Nat) (l : List Nat) (last : Nat) : Prop where
  inOrder : arrivals l = List.range' k (arrivals l).length →
    last = if k + (arrivals l).length = n then n else k + ackBatch * ((arrivals l).length / ackBatch)
  misplaced : ∀ j, Misplaced k l j → (∃ m, k ≤ m ∧ m < batchEnd k n j ∧ m ∉ l) → last = k + ackBatch * (j / ackBatch)

theorem AckState.nil {k n : Nat} (hk : k < n) : AckState k n [] k := by
  have hlen : (arrivals []).length = 0 := rfl
  refine ⟨fun _ => ?_, fun i hmis => ?_⟩
  · rw [hlen, if_neg (by omega)]
    rfl
  · obtain ⟨-, a, ha, -⟩ := hmis
    cases ha

/-- The first number that is missing among `n`, when those below `k` are there. -/
structure Gap (k n : Nat) (l : List Nat) (r : Nat) : Prop where
  le : r ≤ n
  below : ∀ m < r, m < k ∨ m ∈ l
  missing : r < n → ¬(r < k ∨ r ∈ l)

theorem Gap.inOrder {k n r : Nat} (h : Gap k n l r) (hl : ∀ j ∈ l, k ≤ j ∧ j < n) (hk : k ≤ n)
    (hord : arrivals l = List.range' k (arrivals l).length) : r = k + (arrivals l).length := by
  have hmem : ∀ m, m ∈ l ↔ k ≤ m ∧ m < k + (arrivals l).length := by
    intro m
    rw [← mem_arrivals, hord, List.mem_range'_1, List.length_range']
  have hle : k + (arrivals l).length ≤ n := by
    by_contra hgt
    have hpos : 0 < (arrivals l).length := by omega
    have hlast := (hl _ ((hmem (k + (arrivals l).length - 1)).2 ⟨by omega, by omega⟩)).2
    omega
  rcases Nat.lt_trichotomy r (k + (arrivals l).length) with hlt | heq | hgt
  · refine absurd ?_ (h.missing (by omega))
    by_cases hrk : r < k
    · exact .inl hrk
    · exact .inr ((hmem r).2 ⟨by omega, hlt⟩)
  · exact heq
  · rcases h.below _ hgt with hm | hm
    · omega
    · have := ((hmem _).1 hm).2
      omega

theorem Gap.lt_of_missing {k n r b : Nat} (h : Gap k n l r) (hm : ∃ m, k ≤ m ∧ m < b ∧ m ∉ l) : r < b := by
  obtain ⟨m, hkm, hmb, hml⟩ := hm
  by_contra hge
  rcases h.below m (by omega) with hlt | hmem
  · omega
  · exact hml hmem

theorem AckState.step {k n j last r : Nat} (h : AckState k n l last)
    (hl : ∀ i ∈ l ++ [j], k ≤ i ∧ i < n) (hk : k ≤ n) (hr : Gap k n (l ++ [j]) r) :
    AckState k n (l ++ [j]) (if (last + ackBatch ≤ r ∨ r = n) ∧ last < r then r else last) := by
  have hj := hl j (by simp)
  have hmem : j ∈ arrivals l ↔ j ∈ l := mem_arrivals
  refine ⟨fun hord => ?_, fun i hmis hmiss => ?_⟩
  · have hgap := hr.inOrder hl hk hord
    rw [arrivals_append] at hord hgap ⊢
    by_cases hdup : j ∈ arrivals l
    · rw [if_pos hdup] at hord hgap ⊢
      have hlast := h.inOrder hord
      rw [hgap]
      unfold ackBatch at hlast ⊢
      split_ifs at hlast ⊢ <;> omega
    · rw [if_neg hdup] at hord hgap ⊢
      rw [List.length_append, List.length_singleton] at hord hgap ⊢
      have hsplit : arrivals l = List.range' k (arrivals l).length ∧ j = k + (arrivals l).length := by
        rw [List.range'_concat, Nat.one_mul] at hord
        have hinj := List.append_inj hord (by rw [List.length_range'])
        exact ⟨hinj.1, List.singleton_inj.1 hinj.2⟩
      have hlast := h.inOrder hsplit.1
      rw [hgap]
      unfold ackBatch at hlast ⊢
      split_ifs at hlast ⊢ <;> omega
  · have hlt := hr.lt_of_missing hmiss
    have hmiss' : ∃ m, k ≤ m ∧ m < batchEnd k n i ∧ m ∉ l := by
      obtain ⟨m, h1, h2, h3⟩ := hmiss
      exact ⟨m, h1, h2, fun hm => h3 (List.mem_append_left _ hm)⟩
    have hlast : last = k + ackBatch * (i / ackBatch) := by
      by_cases hold : Misplaced k l i
      · exact h.misplaced i hold hmiss'
      · -- the new chunk is the one out of place
        obtain ⟨htake, a, ha, hne⟩ := hmis
        rw [arrivals_append] at htake ha
        split at htake
        · rename_i hdup
          rw [if_pos hdup] at ha
          exact absurd ⟨htake, a, ha, hne⟩ hold
        · rename_i hnew
          rw [if_neg hnew] at ha
          have hlen : i = (arrivals l).length := by
            have hi := (List.getElem?_eq_some_iff.1 ha).1
            rw [List.length_append, List.length_singleton] at hi
            by_contra hne'
            have hi' : i < (arrivals l).length := by omega
            rw [List.take_append_of_le_length hi'.le] at htake
            rw [List.getElem?_append_left hi'] at ha
            exact hold ⟨htake, a, ha, hne⟩
          rw [hlen, List.take_left] at htake
          have haj : a = j := by
            rw [hlen, List.getElem?_append_right le_rfl, Nat.sub_self] at ha
            exact (Option.some.inj ha).symm
          have hfree : j ∉ List.range' k (arrivals l).length := by
            rw [← htake]
            exact hnew
          rw [List.mem_range'_1] at hfree
          have hlast := h.inOrder htake
          rw [if_neg (by omega)] at hlast
          rw [hlast, hlen]
    unfold batchEnd ackBatch at hlt
    unfold ackBatch at hlast ⊢
    rw [if_neg (by omega)]
    exact hlast

/-! ### Sessions -/

/-- A session that accepted the offset `k` for the file `F`, with the chunks below `k` in `.part`. -/
structure Accepted (env : Env) (F : List Byte) (c k : Nat) (fs : FS) (s : Session) : Prop where
  stage : s.stage = .loop
  total : s.init.totalChunks = count c F.length
  marks : Marks s.bitmap (count c F.length) fun m => m < k ∧ m < count c F.length
  ack : s.lastAck = k
  part : ∃ i cursor, fs.dir (s.tmpPath env) = some i ∧ s.tmpFile = some ⟨i, cursor⟩ ∧
    (k < count c F.length → fs.content i = F.take (k * c) ∧ cursor = k * c)

/-- `receiveLoop` on frames, as far as it goes on. -/
def feed (env : Env) (fs : FS) (s : Session) : List Frame → FS × Session
  | [] => (fs, s)
  | f :: rest =>
    if s.stage = .loop then feed env (s.receive env fs f .ok).1 (s.receive env fs f .ok).2.1 rest else (fs, s)

/-- Every ACK is right: the bytes of the chunks it covers are in `.part` when it is sent. -/
def AcksRight (env : Env) (F : List Byte) (c : Nat) (fs : FS) (s : Session) (frames : List Frame) : Prop :=
  ∀ pre f post, frames = pre ++ f :: post →
    let x := feed env fs s pre
    ∀ cs, .ack cs ∈ (x.2.receive env x.1 f .ok).2.2 →
      ∃ content, (x.2.receive env x.1 f .ok).1.read (s.tmpPath env) = some content ∧
        F.take ((cs + 1).toNat * c) <+: content

/-- The condition: a chunk that came too early is covered by no ACK, since one of its batch never comes. -/
def NeverAcked (k n : Nat) (l : List Nat) : Prop :=
  ∀ j, Misplaced k l j → ∃ m, k ≤ m ∧ m < batchEnd k n j ∧ m ∉ l

/-- The session `s₀` after the chunks `l`: they lie in `.part` as they came. -/
structure Fed (env : Env) (F : List Byte) (c k : Nat) (s₀ : Session) (fs : FS) (s : Session) (l : List Nat)
    (last : Nat) : Prop where
  stage : s.stage = .loop
  init : s.init = s₀.init
  marks : Marks s.bitmap (count c F.length) fun m => m < k ∨ m ∈ l
  ack : s.lastAck = last
  le : last ≤ count c F.length
  part : ∃ i, fs.dir (s₀.tmpPath env) = some i ∧
    fs.content i = F.take (k * c) ++ (arrivals l).flatMap (chunk c F) ∧
    s.tmpFile = some ⟨i, (fs.content i).length⟩

section

variable {env : Env} {F : List Byte} {c k : Nat} {s₀ : Session}

theorem Accepted.fed {fs : FS} (h : Accepted env F c k fs s₀) (hk : k < count c F.length) (hc : 0 < c) :
    Fed env F c k s₀ fs s₀ [] k := by
  obtain ⟨i, cursor, hdir, hfile, hpart⟩ := h.part
  obtain ⟨hcontent, hcursor⟩ := hpart hk
  have hlen := (lt_count_iff hc).1 hk
  refine ⟨h.stage, rfl, h.marks.congr fun m => by simp; omega, h.ack, hk.le, i, hdir, ?_, ?_⟩
  · rw [hcontent]
    simp [arrivals]
  · rw [hfile, hcontent, hcursor, List.length_take, Nat.min_eq_left hlen.le]

theorem Fed.acknowledge {fs : FS} {s : Session} {l : List Nat} {last : Nat} (h : Fed env F c k s₀ fs s l last)
    (htotal : s₀.init.totalChunks = count c F.length) (hn : count c F.length < 2 ^ 63) :
    ∃ r : Nat, Gap k (count c F.length) l r ∧
      let due := (last + ackBatch ≤ r ∨ r = count c F.length) ∧ last < r
      Fed env F c k s₀ (s.acknowledge fs .ok).1 (s.acknowledge fs .ok).2.1 l (if due then r else last) ∧
        (s.acknowledge fs .ok).2.2 = if due then [.ack (r - 1)] else [] := by
  have hle := h.le
  obtain ⟨r, hr, hbelow, hmissing, heq⟩ := Session.acknowledge_of_marks fs .ok h.marks
    ((congrArg Init.totalChunks h.init).trans htotal) h.ack hn (by omega)
  refine ⟨r, ⟨hr, hbelow, hmissing⟩, ?_⟩
  rw [heq]
  by_cases hdue : (last + ackBatch ≤ r ∨ r = count c F.length) ∧ last < r
  · simp only [if_pos hdue, reduceCtorEq, if_false]
    exact ⟨{ h with ack := rfl, le := hr }, trivial⟩
  · simp only [if_neg hdue]
    exact ⟨h, trivial⟩

theorem Fed.receive {fs : FS} {s : Session} {l : List Nat} {last j : Nat} {f : Frame}
    (h : Fed env F c k s₀ fs s l last) (htotal : s₀.init.totalChunks = count c F.length)
    (hn : count c F.length < 2 ^ 63) (hf : s₀.Carries env f j (chunk c F j)) (hj : k ≤ j ∧ j < count c F.length) :
    ∃ r : Nat, Gap k (count c F.length) (l ++ [j]) r ∧
      let due := (last + ackBatch ≤ r ∨ r = count c F.length) ∧ last < r
      Fed env F c k s₀ (s.receive env fs f .ok).1 (s.receive env fs f .ok).2.1 (l ++ [j]) (if due then r else last) ∧
        (s.receive env fs f .ok).2.2 = if due then [.ack (r - 1)] else [] := by
  have hcomp : s.compression = s₀.compression := by
    unfold Session.compression
    rw [h.init]
  have hcarries : s.Carries env f j (chunk c F j) := ⟨hf.typ, hcomp ▸ hf.unpack⟩
  rw [Session.receive_eq fs .ok hcarries]
  by_cases hold : bits s.bitmap j = true
  · -- a duplicate changes nothing
    rw [if_pos hold]
    have hmem : j ∈ l := by
      rcases (h.marks.mem j).1 hold with hlt | hmem
      · omega
      · exact hmem
    have hsame : arrivals (l ++ [j]) = arrivals l := by
      rw [arrivals_append, if_pos (mem_arrivals.2 hmem)]
    have hfed : Fed env F c k s₀ fs s (l ++ [j]) last := by
      refine { h with marks := h.marks.congr fun m => ?_, part := ?_ }
      · rw [List.mem_append, List.mem_singleton]
        exact or_congr_right ⟨.inl, fun hm => hm.elim id fun heq => heq ▸ hmem⟩
      · rw [hsame]
        exact h.part
    exact hfed.acknowledge htotal hn
  · rw [if_neg hold]
    obtain ⟨i, hdir, hcontent, hfile⟩ := h.part
    have hio : ∀ m, DataIO.ok ≠ .writeFails m := fun m => by simp
    obtain ⟨b, hb, hstore⟩ := Session.store_eq fs (chunk c F j) hio h.marks hj.2 hfile
    rw [hstore]
    have hnew : j ∉ arrivals l := fun hmem => hold ((h.marks.mem j).2 (.inr (mem_arrivals.1 hmem)))
    have hfed : Fed env F c k s₀ (fs.write i (fs.content i).length (chunk c F j))
        { s with tmpFile := some ⟨i, (fs.content i).length + (chunk c F j).length⟩, bitmap := b
                 doneBytes := s.doneBytes + (chunk c F j).length } (l ++ [j]) last := by
      refine ⟨h.stage, h.init, hb.congr fun m => ?_, h.ack, h.le, i, hdir, ?_, ?_⟩
      · rw [List.mem_append, List.mem_singleton, or_assoc]
      · rw [Files.System.content_write, Files.overwrite_length, hcontent, arrivals_append, if_neg hnew,
          List.flatMap_append, List.append_assoc]
        simp
      · rw [Files.System.content_write, Files.overwrite_length, List.length_append]
    exact hfed.acknowledge htotal hn

theorem Fed.feed (htotal : s₀.init.totalChunks = count c F.length) (hn : count c F.length < 2 ^ 63) {frames : List Frame}
    {seqs : List Nat} (hframes : List.Forall₂ (fun f j => s₀.Carries env f j (chunk c F j)) frames seqs) :
    ∀ {fs : FS} {s : Session} {l : List Nat} {last : Nat}, (∀ j ∈ l ++ seqs, k ≤ j ∧ j < count c F.length) →
      k ≤ count c F.length → AckState k (count c F.length) l last → Fed env F c k s₀ fs s l last →
      ∃ last', AckState k (count c F.length) (l ++ seqs) last' ∧
        Fed env F c k s₀ (RelayFile.feed env fs s frames).1 (RelayFile.feed env fs s frames).2 (l ++ seqs) last' := by
  induction hframes with
  | nil =>
    intro fs s l last hl hk hack h
    rw [List.append_nil]
    exact ⟨last, hack, h⟩
  | @cons f j frames seqs hf hrest ih =>
    intro fs s l last hl hk hack h
    have happend : l ++ j :: seqs = (l ++ [j]) ++ seqs := by simp
    rw [happend] at hl ⊢
    obtain ⟨r, hr, hfed, -⟩ := h.receive htotal hn hf (hl j (by simp))
    have hstep := hack.step (fun i hi => hl i (List.mem_append_left _ hi)) hk hr
    unfold RelayFile.feed
    rw [if_pos h.stage]
    exact ih hl hk hstep hfed

theorem Accepted.receive (hc : 0 < c) (hn : count c F.length < 2 ^ 63) {fs : FS} (h : Accepted env F c k fs s₀)
    {pre : List Frame} {f : Frame} {l : List Nat} {j : Nat} (hl : ∀ i ∈ l ++ [j], k ≤ i ∧ i < count c F.length)
    (hpre : List.Forall₂ (fun f j => s₀.Carries env f j (chunk c F j)) pre l) (hf : s₀.Carries env f j (chunk c F j)) :
    let x := RelayFile.feed env fs s₀ pre
    ∃ last r, AckState k (count c F.length) l last ∧ Gap k (count c F.length) (l ++ [j]) r ∧
      ((x.2.receive env x.1 f .ok).1.read (s₀.tmpPath env) =
        some (F.take (k * c) ++ (arrivals (l ++ [j])).flatMap (chunk c F))) ∧
      (x.2.receive env x.1 f .ok).2.2 =
        if (last + ackBatch ≤ r ∨ r = count c F.length) ∧ last < r then [.ack (r - 1)] else [] := by
  have hj := hl j (by simp)
  have hk : k < count c F.length := by omega
  obtain ⟨last, hack, hfed⟩ := Fed.feed h.total hn hpre (fun i hi => hl i (List.mem_append_left _ hi)) hk.le
    (AckState.nil hk) (h.fed hk hc)
  rw [List.nil_append] at hack hfed
  obtain ⟨r, hr, hfed', hreply⟩ := hfed.receive h.total hn hf hj
  obtain ⟨i, hdir, hcontent, -⟩ := hfed'.part
  refine ⟨last, r, hack, hr, ?_, hreply⟩
  unfold Files.System.read
  rw [hdir, ← hcontent]
  rfl

end

theorem take_append_flatMap_range (c : Nat) (F : List Byte) (k m : Nat) :
    F.take (k * c) ++ (List.range' k m).flatMap (chunk c F) = F.take ((k + m) * c) := by
  induction m with
  | zero => simp
  | succ m ih =>
    rw [List.range'_concat, List.flatMap_append, ← List.append_assoc, ih, Nat.one_mul, List.flatMap_singleton,
      take_append_chunk, Nat.add_assoc]

variable {l : List Nat}

theorem Misplaced.isPrefix {k j : Nat} (h : Misplaced k l j) (c : Nat) (F : List Byte) {r : Nat}
    (hr : r ≤ k + j) : F.take (r * c) <+: F.take (k * c) ++ (arrivals l).flatMap (chunk c F) := by
  have hsplit := List.take_append_drop j (arrivals l)
  rw [← hsplit, h.1, List.flatMap_append, ← List.append_assoc, take_append_flatMap_range]
  exact (List.take_prefix_take_left (Nat.mul_le_mul_right c hr)).trans (List.prefix_append _ _)

theorem NeverAcked.isPrefix {k n j last r : Nat} {l post : List Nat} (h : NeverAcked k n (l ++ j :: post))
    (hl : ∀ i ∈ l ++ [j], k ≤ i ∧ i < n) (hk : k ≤ n) (hack : AckState k n l last) (hr : Gap k n (l ++ [j]) r)
    (hdue : (last + ackBatch ≤ r ∨ r = n) ∧ last < r) (c : Nat) (F : List Byte) :
    F.take (r * c) <+: F.take (k * c) ++ (arrivals (l ++ [j])).flatMap (chunk c F) := by
  rcases inOrder_or_misplaced k (l ++ [j]) with hord | ⟨i, hmis⟩
  · refine ⟨[], ?_⟩
    rw [List.append_nil, hord, take_append_flatMap_range, hr.inOrder hl hk hord]
  · have happend : l ++ j :: post = (l ++ [j]) ++ post := by simp
    rw [happend] at h
    obtain ⟨m, hkm, hmb, hml⟩ := h i (hmis.append post)
    have hlast := (hack.step hl hk hr).misplaced i hmis ⟨m, hkm, hmb, fun hm => hml (List.mem_append_left _ hm)⟩
    rw [if_pos hdue] at hlast
    refine hmis.isPrefix c F ?_
    have hdiv := Nat.mul_div_le i ackBatch
    omega

/-! ### The ACK that covers a chunk out of place -/

theorem exists_first {P : List Nat → Prop} (h0 : ¬P []) (h : P l) :
    ∃ pre j post, l = pre ++ j :: post ∧ ¬P pre ∧ P (pre ++ [j]) := by
  induction l using List.reverseRecOn with
  | nil => exact absurd h h0
  | append_singleton l j ih =>
    by_cases hl : P l
    · obtain ⟨pre, i, post, rfl, hpre, hi⟩ := ih hl
      exact ⟨pre, i, post ++ [j], by simp, hpre, hi⟩
    · exact ⟨l, j, [], rfl, hl, h⟩

theorem Misplaced.lt {k n i : Nat} (h : Misplaced k l i) (hl : ∀ m ∈ l, k ≤ m ∧ m < n) : k + i < n := by
  obtain ⟨htake, a, ha, hne⟩ := h
  have hmem : a ∈ l := mem_arrivals.1 (List.mem_of_getElem? ha)
  obtain ⟨hi, hget⟩ := List.getElem?_eq_some_iff.1 ha
  have hfree : a ∉ List.range' k i := by
    rw [← htake]
    intro hin
    obtain ⟨m, hm, hget'⟩ := List.mem_take_iff_getElem.1 hin
    have heq := List.Nodup.getElem_inj_iff (arrivals_nodup l) |>.1 (hget'.trans hget.symm)
    omega
  rw [List.mem_range'_1] at hfree
  have := hl a hmem
  omega

theorem Misplaced.acked {k n i : Nat} (h : Misplaced k l i) (hl : ∀ m ∈ l, k ≤ m ∧ m < n)
    (hall : ∀ m, k ≤ m → m < batchEnd k n i → m ∈ l) :
    ∃ pre j post, l = pre ++ j :: post ∧ Misplaced k (pre ++ [j]) i ∧
      ∀ last r, AckState k n pre last → Gap k n (pre ++ [j]) r →
        ((last + ackBatch ≤ r ∨ r = n) ∧ last < r) ∧ k + i < r := by
  have hlt := h.lt hl
  have hin : k + i < batchEnd k n i := by
    unfold batchEnd ackBatch
    omega
  obtain ⟨pre, j, post, rfl, hpre, hfull⟩ := exists_first (P := fun l => ∀ m, k ≤ m → m < batchEnd k n i → m ∈ l)
    (fun hnil => by cases hnil (k + i) (by omega) hin) hall
  push Not at hpre
  obtain ⟨htake, a, ha, hne⟩ := h
  -- the chunk that came too early is among those before the batch is complete
  have hlong : i < (arrivals pre).length := by
    by_contra hge
    obtain ⟨t, ht⟩ := arrivals_isPrefix (pre ++ [j]) post
    have happend : pre ++ [j] ++ post = pre ++ j :: post := by simp
    rw [happend] at ht
    have hlen : (arrivals (pre ++ [j])).length ≤ i + 1 := by
      rw [arrivals_append]
      split
      · omega
      · rw [List.length_append, List.length_singleton]
        omega
    obtain ⟨m, hm⟩ := List.getElem?_of_mem (mem_arrivals.2 (hfull (k + i) (by omega) hin))
    have hmlt := (List.getElem?_eq_some_iff.1 hm).1
    have hat : (arrivals (pre ++ [j]) ++ t)[m]? = some (k + i) := (List.getElem?_append_left hmlt).trans hm
    rw [ht] at hat
    rcases Nat.lt_or_ge m i with hmi | hmi
    · rw [← List.getElem?_take_of_lt hmi, htake] at hat
      have := List.mem_range'_1.1 (List.mem_of_getElem? hat)
      omega
    · have hmi' : m = i := by omega
      rw [hmi', ha] at hat
      exact hne (Option.some.inj hat)
  have hmis : Misplaced k pre i := by
    obtain ⟨t, ht⟩ := arrivals_isPrefix pre (j :: post)
    rw [← ht, List.take_append_of_le_length hlong.le] at htake
    rw [← ht, List.getElem?_append_left hlong] at ha
    exact ⟨htake, a, ha, hne⟩
  refine ⟨pre, j, post, rfl, hmis.append [j], fun last r hack hr => ?_⟩
  have hlast := hack.misplaced i hmis hpre
  have hge : batchEnd k n i ≤ r := by
    by_contra hgt
    have hrn : r < n := by
      have : batchEnd k n i ≤ n := Nat.min_le_right _ _
      omega
    refine hr.missing hrn ?_
    by_cases hrk : r < k
    · exact .inl hrk
    · exact .inr (hfull r (by omega) (by omega))
  have hrn := hr.le
  unfold batchEnd ackBatch at hge
  unfold ackBatch at hlast ⊢
  omega

def spike (n p : Nat) : List Byte := (List.range n).map fun i => if i = p then 1 else 0

theorem getElem?_spike {n i : Nat} (p : Nat) (h : i < n) : (spike n p)[i]? = some (if i = p then 1 else 0) := by
  unfold spike
  rw [List.getElem?_map, List.getElem?_range h]
  rfl

theorem length_spike (n p : Nat) : (spike n p).length = n := by
  unfold spike
  rw [List.length_map, List.length_range]

theorem Misplaced.not_isPrefix {k c i r n : Nat} (hc : 0 < c) (h : Misplaced k l i)
    (hl : ∀ m ∈ l, k ≤ m ∧ m < count c n) (hr : k + i < r) :
    ¬(spike n ((k + i) * c)).take (r * c) <+:
      (spike n ((k + i) * c)).take (k * c) ++ (arrivals l).flatMap (chunk c (spike n ((k + i) * c))) := by
  have hpos := (lt_count_iff hc).1 (h.lt hl)
  obtain ⟨htake, a, ha, hne⟩ := h
  have hapos := (lt_count_iff hc).1 (hl a (mem_arrivals.1 (List.mem_of_getElem? ha))).2
  obtain ⟨t, ht⟩ : ∃ t, arrivals l = List.range' k i ++ a :: t := by
    refine ⟨(arrivals l).drop (i + 1), ?_⟩
    rw [← htake]
    have hdrop := List.drop_eq_getElem_cons (List.getElem?_eq_some_iff.1 ha).1
    rw [(List.getElem?_eq_some_iff.1 ha).2] at hdrop
    rw [← hdrop, List.take_append_drop]
  generalize hF : spike n ((k + i) * c) = F
  have hlen : F.length = n := by rw [← hF, length_spike]
  intro hstart
  have hleft : (F.take (r * c))[(k + i) * c]? = some 1 := by
    rw [List.getElem?_take_of_lt (Nat.mul_lt_mul_of_pos_right hr hc), ← hF, getElem?_spike _ hpos, if_pos rfl]
  have hright : (F.take (k * c) ++ (arrivals l).flatMap (chunk c F))[(k + i) * c]? = some 0 := by
    have hfull : (F.take ((k + i) * c)).length = (k + i) * c := by
      rw [List.length_take, hlen, Nat.min_eq_left hpos.le]
    rw [ht, List.flatMap_append, ← List.append_assoc, take_append_flatMap_range, List.flatMap_cons,
      List.getElem?_append_right hfull.le, hfull, Nat.sub_self]
    have hhead : (chunk c F a)[0]? = some 0 := by
      unfold chunk
      rw [List.getElem?_take_of_lt hc, List.getElem?_drop, Nat.add_zero, ← hF, getElem?_spike _ hapos, if_neg]
      intro heq
      exact hne (Nat.eq_of_mul_eq_mul_right hc heq)
    rw [List.getElem?_append_left (List.getElem?_eq_some_iff.1 hhead).1, hhead]
  obtain ⟨u, hu⟩ := hstart
  rw [← hu, List.getElem?_append_left (List.getElem?_eq_some_iff.1 hleft).1, hleft] at hright
  exact absurd (Option.some.inj hright) (by decide)

/-! ### How a session starts -/

/-- The session has sent ACCEPT with the offset `k` and opened or created its `.part` file. -/
structure Started (env : Env) (fs₀ : FS) (s₀ : Session) (openable : Bool) (c n : Nat) (fs : FS) (s : Session)
    (k : Nat) : Prop where
  stage : s.stage = .loop
  init : s.init = s₀.init
  marks : Marks s.bitmap n fun m => m < k ∧ m < n
  ack : s.lastAck = k
  part : ∃ i cursor, fs.dir (s.tmpPath env) = some i ∧ s.tmpFile = some ⟨i, cursor⟩ ∧
    ((s₀.init.offset > 0 ∧ openable = true) ∧ fs = fs₀ ∧ k = count c (fs.content i).length ∧
        cursor = (wrap64 (k * c)).toNat ∨
      (¬(s₀.init.offset > 0 ∧ openable = true) ∨ fs₀.dir (s.tmpPath env) = none) ∧ fs.content i = [] ∧ k = 0 ∧ cursor = 0)

theorem started_of_steps {env : Env} {c n : Nat} {fs₀ : FS} {s₀ : Session} {openable created : Bool}
    {x y z : FS × Session × List Reply} (hc : 0 < c) (hn : n < 2 ^ 63) (hchunk : s₀.init.chunkSize = c)
    (htotal : s₀.init.totalChunks.toNat = n) (hbegin : s₀.step env fs₀ (.begin true openable) = some x)
    (hprepare : x.2.1.step env x.1 (.prepare created) = some y)
    (haccept : y.2.1.step env y.1 (.accept true) = some z) :
    ∃ k : Nat, z.2.2 = [.accept k] ∧ Started env fs₀ s₀ openable c n z.1 z.2.1 k := by
  obtain ⟨file, hfile, hy⟩ := Session.step_prepare hprepare
  obtain ⟨hready, hz⟩ : y.2.1.stage = .ready ∧
      z = (y.1, { y.2.1 with stage := .loop, registered := true }, [.accept y.2.1.startSeq]) := by
    cases Session.stepped haccept with
    | accepted hst => exact ⟨hst, rfl⟩
  obtain ⟨hfs, hinit, hmarks, hstage⟩ : x.1 = fs₀ ∧ x.2.1.init = s₀.init ∧ Marks x.2.1.bitmap n (fun _ => False) ∧
      x.2.1.stage = .opened (if s₀.init.offset > 0 ∧ openable = true then fs₀.dir (s₀.tmpPath env) else none) := by
    cases Session.stepped hbegin with
    | noBitmap => cases hfile
    | opened _ hb => exact ⟨rfl, rfl, htotal ▸ Session.makeBitmap_marks (by omega) hb, rfl⟩
  generalize x.2.1 = s₁ at *
  rw [hfs] at hy
  rw [← hinit] at htotal hchunk
  have htmp : s₀.tmpPath env = s₁.tmpPath env := by
    unfold Session.tmpPath Session.savePath
    rw [hinit]
  have hopened := Stage.opened.inj (hstage.symm.trans hfile)
  rw [htmp] at hopened
  cases file with
  | some i =>
    split at hopened
    · rename_i hresume
      obtain ⟨b', hb', hprep⟩ := Session.prepare_opened env fs₀ i created hc hchunk htotal hmarks rfl
      rw [hz, hy, hprep]
      exact ⟨_, rfl, rfl, hinit, hb', rfl, i, _, hopened, rfl, .inl ⟨hresume, rfl, rfl, rfl⟩⟩
    · cases hopened
  | none =>
    cases created with
    | false =>
      rw [hy] at hready
      cases hready
    | true =>
      rw [hz, hy, Session.prepare_created env fs₀ htotal hmarks]
      refine ⟨0, rfl, rfl, hinit, hmarks.congr fun m => by simp, rfl, _, _, Files.System.dir_create fs₀ _, rfl,
        .inr ⟨?_, Files.System.content_create fs₀ _, rfl, rfl⟩⟩
      split at hopened
      · exact .inr hopened
      · rename_i hfresh
        exact .inl hfresh

theorem Started.accepted {env : Env} {F : List Byte} {c k : Nat} {fs₀ fs : FS} {s₀ s : Session} {openable : Bool}
    (h : Started env fs₀ s₀ openable c (count c F.length) fs s k) (hc : 0 < c) (hn : F.length < 2 ^ 63)
    (htotal : s₀.init.totalChunks = count c F.length)
    (hpart : ∃ content, fs.read (s.tmpPath env) = some content ∧ F.take (k * c) <+: content) :
    Accepted env F c k fs s := by
  obtain ⟨i, cursor, hdir, hfile, hwhere⟩ := h.part
  refine ⟨h.stage, (congrArg Init.totalChunks h.init).trans htotal, h.marks, h.ack, i, cursor, hdir, hfile, fun hlt => ?_⟩
  rcases hwhere with ⟨-, -, hk, hcursor⟩ | ⟨-, hcontent, rfl, hcursor⟩
  · obtain ⟨content, hread, hstart⟩ := hpart
    have hcontent : content = fs.content i := by
      unfold Files.System.read at hread
      rw [hdir] at hread
      exact (Option.some.inj hread).symm
    rw [hcontent] at hstart
    -- the file ends with the last chunk that is there
    have hend := (lt_count_iff hc).1 hlt
    have hupper := le_count_mul hc (fs.content i).length
    rw [← hk] at hupper
    have hlen : (F.take (k * c)).length = k * c := by rw [List.length_take, Nat.min_eq_left hend.le]
    refine ⟨(hstart.eq_of_length_le (by omega)).symm, ?_⟩
    rw [hcursor, wrap64_of_lt (by omega) (by exact_mod_cast hend.trans hn)]
    omega
  · rw [hcontent, hcursor, Nat.zero_mul]
    exact ⟨rfl, rfl⟩

/-! ### The result -/

def plainEnv : Env where
  zstd := storing
  json := { init := fun _ => none, finChecksum := fun _ => .other "", init_fits := fun _ _ h => by cases h }
  sha256 := fun _ => ""
  finalPath := id

def plainInit (F : List Byte) (c : Nat) : Init :=
  { name := "a", size := F.length, chunkSize := c, totalChunks := count c F.length, checksum := .other "", offset := 1
    compression := "none" }

/-- A file system where every file holds the chunks below `k`. -/
def partFiles (F : List Byte) (c k : Nat) : FS := .ofFiles fun _ => some (F.take (k * c))

def plainFrame (F : List Byte) (c j : Nat) : Frame := ⟨frameTypeData, packDataFrame storing j (chunk c F j) .none⟩

theorem exists_accepted (F : List Byte) (c k : Nat) :
    ∃ s, Accepted plainEnv F c k (partFiles F c k) s ∧
      ∀ j, j < 2 ^ 63 → s.Carries plainEnv (plainFrame F c j) j (chunk c F j) := by
  obtain ⟨b, -, hb⟩ := (Marks.replicate_zero (count c F.length)).setFirst k
  refine ⟨{ init := plainInit F c, stage := .loop, bitmap := b, lastAck := k
            tmpFile := some ⟨("a.relayfile.part", 0), k * c⟩ },
    ⟨rfl, rfl, hb, rfl, _, _, rfl, rfl, fun _ => ⟨rfl, rfl⟩⟩, fun j hj => ⟨rfl, ?_⟩⟩
  exact unpackDataFrame_packDataFrame_none storing (chunk c F j) ⟨by omega, by exact_mod_cast hj⟩

/-- The ACKs are right, whatever the file, exactly if no chunk that came too early is covered by an ACK. -/
theorem acks_right_iff {c n k : Nat} {seqs : List Nat} (hc : 0 < c) (hn : n < 2 ^ 63)
    (hseqs : ∀ j ∈ seqs, k ≤ j ∧ j < count c n) :
    (∀ (env : Env) (F : List Byte) (fs : FS) (s : Session) (frames : List Frame), F.length = n →
        Accepted env F c k fs s → List.Forall₂ (fun f j => s.Carries env f j (chunk c F j)) frames seqs →
        AcksRight env F c fs s frames) ↔
      NeverAcked k (count c n) seqs := by
  have hcount : count c n < 2 ^ 63 := (count_le hc n).trans_lt hn
  constructor
  · intro hright j hmis
    by_contra hall
    push Not at hall
    obtain ⟨pre, i, post, rfl, hmis', hdue⟩ := hmis.acked hseqs hall
    have hl : ∀ m ∈ pre ++ [i], k ≤ m ∧ m < count c n := fun m hm => hseqs m (by simp at hm ⊢; tauto)
    have hlen := length_spike n ((k + j) * c)
    obtain ⟨s, hs, hcarries⟩ := exists_accepted (spike n ((k + j) * c)) c k
    have hframes : ∀ l : List Nat, (∀ m ∈ l, m < 2 ^ 63) →
        List.Forall₂ (fun f j' => s.Carries plainEnv f j' (chunk c (spike n ((k + j) * c)) j'))
          (l.map (plainFrame (spike n ((k + j) * c)) c)) l := by
      intro l hl
      rw [List.forall₂_map_left_iff, List.forall₂_same]
      exact fun m hm => hcarries m (hl m hm)
    have hsmall : ∀ m ∈ pre ++ i :: post, m < 2 ^ 63 := fun m hm => (hseqs m hm).2.trans hcount
    obtain ⟨last, r, hack, hgap, hread, hreply⟩ := hs.receive hc (hlen.symm ▸ hcount) (hlen.symm ▸ hl)
      (hframes pre fun m hm => hsmall m (List.mem_append_left _ hm)) (hcarries i (hsmall i (by simp)))
    rw [hlen] at hack hgap hreply
    obtain ⟨hsent, hbeyond⟩ := hdue last r hack hgap
    rw [if_pos hsent] at hreply
    obtain ⟨content, hcontent, hstart⟩ := hright plainEnv _ _ s _ hlen hs (hframes _ hsmall) _ _ _
      (List.map_append.trans (congrArg _ List.map_cons)) (r - 1) (by rw [hreply]; exact List.mem_singleton_self _)
    rw [hread] at hcontent
    have hr : ((r : Int) - 1 + 1).toNat = r := by omega
    rw [hr, ← Option.some.inj hcontent] at hstart
    exact hmis'.not_isPrefix hc hl hbeyond hstart
  · rintro hnever env F fs s frames rfl hs hframes pre f post rfl
    have hpre := List.forall₂_take pre.length hframes
    have hrest := List.forall₂_drop pre.length hframes
    rw [List.take_left] at hpre
    rw [List.drop_left] at hrest
    obtain ⟨j, rest, hf, -, hdrop⟩ := List.forall₂_cons_left_iff.1 hrest
    have hsplit := List.take_append_drop pre.length seqs
    rw [hdrop] at hsplit
    generalize seqs.take pre.length = l at hpre hsplit
    rw [← hsplit] at hseqs hnever
    have hl : ∀ m ∈ l ++ [j], k ≤ m ∧ m < count c F.length := fun m hm => hseqs m (by simp at hm ⊢; tauto)
    have hj := hl j (by simp)
    obtain ⟨last, r, hack, hgap, hread, hreply⟩ := hs.receive hc hcount hl hpre hf
    intro x cs hcs
    rw [hreply] at hcs
    split at hcs
    · rename_i hdue
      have hr : ((r : Int) - 1 + 1).toNat = r := by omega
      rw [Reply.ack.inj (List.mem_singleton.1 hcs), hr]
      exact ⟨_, hread, hnever.isPrefix hl (by omega) hack hgap hdue c F⟩
    · cases hcs

theorem acks_right_iff_two :
    NeverAcked 0 2 [0, 1] ∧
      ∀ (env : Env) (F : List Byte) (fs : FS) (s : Session) (frames : List Frame), F.length = 2 →
        Accepted env F 1 0 fs s → List.Forall₂ (fun f j => s.Carries env f j (chunk 1 F j)) frames [0, 1] →
        AcksRight env F 1 fs s frames := by
  have hnever : NeverAcked 0 2 [0, 1] := by
    intro j hmis
    obtain ⟨-, a, ha, hne⟩ := hmis
    match j with
    | 0 => exact absurd (Option.some.inj ha).symm hne
    | 1 => exact absurd (Option.some.inj ha).symm hne
    | j + 2 => cases ha
  exact ⟨hnever, (acks_right_iff (k := 0) (by decide) (by decide) (by decide)).2 hnever⟩

def swapped : Session :=
  { init := plainInit [1, 2] 1, stage := .loop, bitmap := [0], tmpFile := some ⟨("a.relayfile.part", 0), 0⟩ }

/-- A file of two bytes, the second one first: the ACK for both comes when they lie the wrong way round. -/
theorem ack_of_swapped_chunks :
    Accepted plainEnv [1, 2] 1 0 (partFiles [1, 2] 1 0) swapped ∧
      List.Forall₂ (fun f j => swapped.Carries plainEnv f j (chunk 1 [1, 2] j))
        [plainFrame [1, 2] 1 1, plainFrame [1, 2] 1 0] [1, 0] ∧
      ¬AcksRight plainEnv [1, 2] 1 (partFiles [1, 2] 1 0) swapped [plainFrame [1, 2] 1 1, plainFrame [1, 2] 1 0] := by
  refine ⟨⟨rfl, rfl, (Marks.replicate_zero 2).congr fun m => by simp, rfl, _, _, rfl, rfl, fun _ => ⟨rfl, rfl⟩⟩, ?_, ?_⟩
  · exact .cons ⟨rfl, rfl⟩ (.cons ⟨rfl, rfl⟩ .nil)
  · intro hright
    obtain ⟨content, hcontent, hstart⟩ := hright [plainFrame [1, 2] 1 1] (plainFrame [1, 2] 1 0) [] rfl 1 (by decide +kernel)
    have hread : content = [2, 1] := (Option.some.inj hcontent).symm
    rw [hread] at hstart
    exact absurd hstart (by decide)

end Libp2px.RelayFile
