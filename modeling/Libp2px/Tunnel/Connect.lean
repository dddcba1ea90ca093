import Mathlib

/-!
# CONNECT

The dial function of `NewHttpClient` in `pbtunnel/pbtunnel.go`: it asks the proxy at the other end of a stream for a
connection and reads the answer byte by byte, up to the end of a header block.  It takes any header block with the text
`200` somewhere in it for a success, and gives up after 9999 bytes without closing the stream, also if the block ends with
this byte.  `establishes_iff` says for which answers the dial is right nevertheless.
-/

namespace Libp2px.Tunnel.Connect

abbrev Byte := BitVec 8

def crlfcrlf : List Byte := [13, 10, 13, 10]

def ok200 : List Byte := [50, 48, 48]

variable {ε : Type}

inductive DialError (ε : Type)
  | dial (err : ε)
  | send (err : ε)
  | response (err : ε)
  | no200 (cnter : Nat)
  | failed (text : List Byte)
  deriving DecidableEq, Repr

/-- What the dial returns, and whether it has closed its stream. -/
structure Dialed (ε : Type) where
  err : Option (DialError ε)
  closed : Bool
  deriving DecidableEq, Repr

/-- The read loop: the counter and the buffer, or `none` for an error of `Read`. -/
def readHeader (cnter : Nat) (buf : List Byte) : List Byte → Option (Nat × List Byte)
  | [] => if cnter < 9999 then none else some (cnter, buf)
  | b :: rest =>
    if cnter < 9999 then
      let buf := buf ++ [b]
      if 4 ≤ buf.length ∧ crlfcrlf <:+ buf then some (cnter + 1, buf) else readHeader (cnter + 1) buf rest
    else some (cnter, buf)

/-- `DialContext`: the proxy answers with `resp`, after which `Read` fails. -/
def dialContext (dial send : Option ε) (resp : List Byte) (readErr : ε) : Dialed ε :=
  match dial, send with
  | some err, _ => ⟨some (.dial err), false⟩
  | none, some err => ⟨some (.send err), true⟩
  | none, none =>
    match readHeader 0 [] resp with
    | none => ⟨some (.response readErr), true⟩
    | some (cnter, buf) =>
      if 9999 ≤ cnter then ⟨some (.no200 cnter), false⟩
      else if ok200 <:+: buf then ⟨none, false⟩
      else ⟨some (.failed (buf.rdropWhile fun b => b = 13 ∨ b = 10)), true⟩

/-- The header block of an answer: its bytes up to the first empty line. -/
structure IsHeader (h resp : List Byte) : Prop where
  pre : h <+: resp
  ends : crlfcrlf <:+ h
  first : ∀ l, l <+: h → crlfcrlf <:+ l → l = h

/-- The code in the status line: what stands between its first two blanks. -/
def statusCode (h : List Byte) : List Byte :=
  (((h.takeWhile (· ≠ 13)).dropWhile (· ≠ 32)).drop 1).takeWhile (· ≠ 32)

/-- A connection for a header block within the limit with the code 200, and the stream closed otherwise. -/
def Establishes (send : Option ε) (resp : List Byte) (d : Dialed ε) : Prop :=
  (d.err = none ↔ send = none ∧ ∃ h, IsHeader h resp ∧ h.length ≤ 9999 ∧ statusCode h = ok200) ∧
    (d.err ≠ none → d.closed = true)

/-- The answer or its header block ends before byte 9999, and the block has the text 200 only with the code 200. -/
def Plain (resp : List Byte) : Prop :=
  (resp.length < 9999 ∨ ∃ h, IsHeader h resp ∧ h.length < 9999) ∧
    ∀ h, IsHeader h resp → h.length < 9999 → (ok200 <:+: h ↔ statusCode h = ok200)

variable {h h' resp : List Byte}

theorem IsHeader.unique (hh : IsHeader h resp) (hh' : IsHeader h' resp) : h = h' := by
  rcases List.prefix_or_prefix_of_prefix hh.pre hh'.pre with hp | hp
  · exact hh'.first h hp hh.ends
  · exact (hh.first h' hp hh'.ends).symm

/-- The loop, from a buffer without an empty line on: it ends with the header block or after 9999 bytes without one; and
it fails if the answer is shorter and has none. -/
theorem readHeader_spec (buf rest : List Byte) (hbuf : ∀ l, l <+: buf → ¬ crlfcrlf <:+ l) (hle : buf.length ≤ 9999) :
    (∃ h, readHeader buf.length buf rest = some (h.length, h) ∧ h.length ≤ 9999 ∧ IsHeader h (buf ++ rest)) ∨
    (∃ h, readHeader buf.length buf rest = some (9999, h) ∧ 9999 ≤ (buf ++ rest).length ∧
      ∀ g, IsHeader g (buf ++ rest) → 9999 < g.length) ∨
    (readHeader buf.length buf rest = none ∧ (buf ++ rest).length < 9999 ∧ ∀ g, ¬ IsHeader g (buf ++ rest)) := by
  induction rest generalizing buf with
  | nil =>
    have hno : ∀ g, ¬ IsHeader g (buf ++ []) := fun g hg => hbuf g (by simpa using hg.pre) hg.ends
    by_cases hlt : buf.length < 9999
    · exact .inr (.inr ⟨by simp [readHeader, hlt], by simpa using hlt, hno⟩)
    · have heq : buf.length = 9999 := by omega
      exact .inr (.inl ⟨buf, by simp [readHeader, heq], by simp [heq], fun g hg => absurd hg (hno g)⟩)
  | cons b rest ih =>
    by_cases hlt : buf.length < 9999
    · have hlen : (buf ++ [b]).length = buf.length + 1 := by simp
      have hsplit : buf ++ b :: rest = buf ++ [b] ++ rest := by simp
      have hprefix : ∀ l, l <+: buf ++ [b] → l = buf ++ [b] ∨ l <+: buf := fun l hl => by
        simpa [List.prefix_concat_iff] using hl
      by_cases hend : crlfcrlf <:+ buf ++ [b]
      · have hfour : 4 ≤ (buf ++ [b]).length := hend.length_le
        refine .inl ⟨buf ++ [b], by simp [readHeader, hlt, hend, hlen ▸ hfour], by omega, ?_, hend, ?_⟩
        · rw [hsplit]
          exact List.prefix_append _ _
        · intro l hl hle
          rcases hprefix l hl with rfl | hl
          · rfl
          · exact absurd hle (hbuf l hl)
      · have hrec : readHeader buf.length buf (b :: rest) = readHeader (buf ++ [b]).length (buf ++ [b]) rest := by
          simp [readHeader, hlt, hend]
        rw [hrec, hsplit]
        refine ih _ ?_ (by omega)
        intro l hl
        rcases hprefix l hl with rfl | hl
        · exact hend
        · exact hbuf l hl
    · have heq : buf.length = 9999 := by omega
      refine .inr (.inl ⟨buf, by simp [readHeader, heq], by simp; omega, ?_⟩)
      intro g hg
      by_contra hshort
      exact hbuf g (List.prefix_of_prefix_length_le hg.pre (List.prefix_append _ _) (by omega)) hg.ends

/-- The dial does what it should if and only if the request could not be sent or the answer is plain. -/
theorem establishes_iff (send : Option ε) (resp : List Byte) (readErr : ε) :
    Establishes send resp (dialContext none send resp readErr) ↔ (send = none → Plain resp) := by
  rcases send with _ | err
  swap
  · simp [Establishes, dialContext]
  have hspec := readHeader_spec [] resp (by simp [crlfcrlf]) (by simp)
  simp only [List.nil_append, List.length_nil] at hspec
  rcases hspec with ⟨h, hread, hle, hh⟩ | ⟨h, hread, hlen, hno⟩ | ⟨hread, hlen, hno⟩
  · have hex : ∀ P : List Byte → Prop, (∃ g, IsHeader g resp ∧ P g) ↔ P h := fun P =>
      ⟨fun ⟨g, hg, hP⟩ => hh.unique hg ▸ hP, fun hP => ⟨h, hh, hP⟩⟩
    have hall : (∀ g, IsHeader g resp → g.length < 9999 → (ok200 <:+: g ↔ statusCode g = ok200)) ↔
        (h.length < 9999 → (ok200 <:+: h ↔ statusCode h = ok200)) :=
      ⟨fun hg => hg h hh, fun hg g hgg => hh.unique hgg ▸ hg⟩
    have hresp := hh.pre.length_le
    by_cases hlast : 9999 ≤ h.length
    · simp [Establishes, Plain, dialContext, hread, hlast, hex]
      omega
    · by_cases h200 : ok200 <:+: h <;>
        simp [Establishes, Plain, dialContext, hread, hlast, h200, hex, hall, hle, Nat.lt_of_not_le hlast]
  · have hnot : ¬ (resp.length < 9999 ∨ ∃ h, IsHeader h resp ∧ h.length < 9999) := by
      rintro (hshort | ⟨g, hg, hshort⟩)
      · omega
      · have := hno g hg
        omega
    simp [Establishes, Plain, dialContext, hread, hnot]
  · simp [Establishes, Plain, dialContext, hread, hno, hlen]

theorem dialContext_zeros {n : Nat} (hn : 9999 ≤ n) (readErr : ε) :
    dialContext none none (List.replicate n 0) readErr = ⟨some (.no200 9999), false⟩ := by
  have hno : ∀ l, ¬ IsHeader l (List.replicate n 0) := by
    intro l hl
    have hmem := hl.pre.subset (hl.ends.subset (show (13 : Byte) ∈ crlfcrlf by decide))
    exact absurd (List.eq_of_mem_replicate hmem) (by decide)
  have hspec := readHeader_spec [] (List.replicate n 0) (by simp [crlfcrlf]) (by simp)
  simp only [List.nil_append, List.length_nil] at hspec
  rcases hspec with ⟨h, -, -, hh⟩ | ⟨h, hread, -⟩ | ⟨-, hlen, -⟩
  · exact absurd hh (hno h)
  · simp only [dialContext, hread, le_refl, if_true]
  · rw [List.length_replicate] at hlen
    omega

/-- The status line "HTTP/1.1 404 No" with a header "A: 200" gives a connection; after 9999 bytes without an empty line the
stream stays open. -/
theorem not_establishes :
    dialContext none (none : Option Unit) ([72, 84, 84, 80, 47, 49, 46, 49, 32, 52, 48, 52, 32, 78, 111, 13, 10, 65, 58, 32] ++
      ok200 ++ crlfcrlf) () = ⟨none, false⟩ ∧
    dialContext none (none : Option Unit) (List.replicate 9999 0) () = ⟨some (.no200 9999), false⟩ :=
  ⟨by decide +kernel, dialContext_zeros (Nat.le_refl 9999) ()⟩

end Libp2px.Tunnel.Connect
