import Libp2px.Node.Protocols
import Mathlib.Algebra.Order.Ring.Int

/-!
# The target of a tunnel

`targetAddr` of `pbtunnel/pbtunnel.go` reads a port off the protocol id of a stream.  The wildcards that `init` registers
accept every id that begins with `/d2hub/tunnel/` or `/d2hub/udptunnel/`.  The version and the number that `targetAddr` then
looks for are the choice of the peer that opens the stream.
-/

namespace Libp2px.Tunnel.Target

open Node.Protocols

def tunnelProto : List Char := "tunnel/1.0".toList

def udpTunnelProto : List Char := "udptunnel/1.0".toList

/-- The registrations of `init`. -/
def pbtunnel : List (Call Unit) := [⟨tunnelProto, (), true⟩, ⟨udpTunnelProto, (), true⟩]

/-- The text behind the first `sub`, where `strings.Index` finds one. -/
def after (sub : List Char) : List Char → Option (List Char)
  | [] => if sub = [] then some [] else none
  | c :: s => if sub.isPrefixOf (c :: s) then some ((c :: s).drop sub.length) else after sub s

def value (digits : List Char) : Nat := digits.foldl (fun n c => 10 * n + (c.toNat - '0'.toNat)) 0

/-- The digits of `strconv.Atoi` behind the sign. -/
def atoiDigits (negative : Bool) (digits : List Char) : Option Int :=
  if digits ≠ [] ∧ digits.all Char.isDigit then
    let n : Int := if negative then -value digits else value digits
    if -2 ^ 63 ≤ n ∧ n < 2 ^ 63 then some n else none
  else none

/-- A number without its plus. -/
def unsigned : List Char → List Char
  | '+' :: digits => digits
  | digits => digits

/-- `strconv.Atoi`; `none` is its error. -/
def atoi : List Char → Option Int
  | '-' :: digits => atoiDigits true digits
  | s => atoiDigits false (unsigned s)

/-- The two calls of `log.Panicln`. -/
inductive Panic
  | missingTunnelProto (proto : ID)
  | badPortSuffix (suffix : List Char) (proto : ID)
  deriving DecidableEq

/-- The configured text, or `127.0.0.1` with a port. -/
inductive Addr
  | target (text : List Char)
  | localhost (port : Int)
  deriving DecidableEq

/-- The number behind the last colon. -/
def Addr.port : Addr → Option Int
  | target text => atoi (text.rtakeWhile (· ≠ ':'))
  | localhost port => some port

def targetAddr (tunnelTarget : List Char) (tunnelPort : Int) (proto : Option ID) : Except Panic Addr :=
  if tunnelTarget ≠ [] then .ok (.target tunnelTarget)
  else
    match proto with
    | none => .ok (.localhost tunnelPort)
    | some proto =>
      match after tunnelProto proto with
      | none => .error (.missingTunnelProto proto)
      | some suffix =>
        if suffix = [] ∨ suffix = ['0'] then .ok (.localhost tunnelPort)
        else
          match atoi suffix with
          | none => .error (.badPortSuffix suffix proto)
          | some n => .ok (.localhost n)

def IsPort (n : Int) : Prop := 1 ≤ n ∧ n ≤ 65535

/-- An address without a panic, and with a port that exists. -/
def Fine (r : Except Panic Addr) : Prop := ∃ addr, r = .ok addr ∧ ∃ n, addr.port = some n ∧ IsPort n

/-- Digits, perhaps behind a plus, that name a port. -/
def NamesPort (s : List Char) : Prop := (unsigned s).all Char.isDigit ∧ IsPort (value (unsigned s))

/-- What `targetAddr` takes for the port when `rest` stands behind the accepted prefix: the text behind the version
`1.0`, or behind a later `tunnelProto`. -/
def Follows (rest suffix : List Char) : Prop :=
  rest = "1.0".toList ++ suffix ∨ ¬ "1.0".toList <+: rest ∧ after tunnelProto rest = some suffix

variable {suffix rest digits : List Char} {c : Call Unit}

theorem atoiDigits_isPort_iff : (∃ n, atoiDigits false digits = some n ∧ IsPort n) ↔
    digits.all Char.isDigit ∧ IsPort (value digits) := by
  constructor
  · rintro ⟨n, h, hport⟩
    unfold atoiDigits at h
    grind
  · rintro ⟨hall, hport⟩
    have hne : digits ≠ [] := by
      rintro rfl
      exact absurd hport.1 (by decide)
    refine ⟨value digits, ?_, hport⟩
    unfold IsPort at hport
    simp only [atoiDigits, hne, hall, ne_eq, not_false_eq_true, and_self, ↓reduceIte, Bool.false_eq_true]
    rw [if_pos (by omega)]

theorem atoi_isPort_iff (s : List Char) : (∃ n, atoi s = some n ∧ IsPort n) ↔ NamesPort s := by
  unfold atoi
  split
  · -- a minus leads to no port, and is no digit
    constructor
    · rintro ⟨n, h, hport⟩
      grind [atoiDigits, IsPort]
    · rintro ⟨hall, -⟩
      cases hall
  · exact atoiDigits_isPort_iff

/-- The prefix that a wildcard accepts lacks the version of `tunnelProto`. -/
theorem after_pid (hc : c ∈ pbtunnel) : after tunnelProto (c.pid ++ rest) = some suffix ↔ Follows rest suffix := by
  have hpid : after tunnelProto (c.pid ++ rest) =
      if "1.0".toList.isPrefixOf rest then some (rest.drop 3) else after tunnelProto rest := by
    simp only [pbtunnel, List.mem_cons, List.not_mem_nil, or_false] at hc
    rcases hc with rfl | rfl
    · rfl
    · rfl
  rw [hpid, Follows]
  split
  · rename_i h
    obtain ⟨t, rfl⟩ := List.isPrefixOf_iff_prefix.1 h
    simp
  · rename_i h
    rw [List.isPrefixOf_iff_prefix] at h
    grind

/-- `targetAddr` gives an address whose port exists in these cases only: the configured target has such a port; or the id
has no number or a zero behind its version, and the configured port exists; or the number there is a port. -/
theorem fine_iff (hc : c ∈ pbtunnel) (tunnelTarget : List Char) (tunnelPort : Int) (rest : List Char) :
    Fine (targetAddr tunnelTarget tunnelPort (some (c.pid ++ rest))) ↔
      (tunnelTarget ≠ [] ∧ NamesPort (tunnelTarget.rtakeWhile (· ≠ ':'))) ∨
      (tunnelTarget = [] ∧ ∃ suffix, Follows rest suffix ∧
        if suffix = [] ∨ suffix = ['0'] then IsPort tunnelPort else NamesPort suffix) := by
  unfold targetAddr
  by_cases htarget : tunnelTarget = []
  · simp only [htarget, ne_eq, not_true_eq_false, ↓reduceIte, false_and, true_and, false_or, ← after_pid hc]
    cases h : after tunnelProto (c.pid ++ rest) with
    | none => simp [Fine]
    | some suffix =>
      simp only [Option.some.injEq, exists_eq_left']
      split
      · simp [Fine, Addr.port]
      · rw [← atoi_isPort_iff]
        cases atoi suffix with
        | none => simp [Fine]
        | some n => simp [Fine, Addr.port]
  · simp [htarget, Fine, Addr.port, ← atoi_isPort_iff]

theorem fine_with_port : Fine (targetAddr [] 9229 (some "/d2hub/tunnel/1.09339".toList)) :=
  (fine_iff (c := ⟨tunnelProto, (), true⟩) List.mem_cons_self [] 9229 "1.09339".toList).2
    (.inr ⟨rfl, "9339".toList, .inl rfl, by decide, by decide, by decide⟩)

/-- Ids that a wildcard accepts: another version and a suffix that is no number panic; some numbers are no ports. -/
theorem accepted_not_fine :
    (∀ rest ∈ ["2.0", "1.0x", "1.099999", "1.0-5"], ∃ c ∈ pbtunnel, c.pid <+: "/d2hub/tunnel/".toList ++ rest.toList) ∧
    ["2.0", "1.0x", "1.099999", "1.0-5"].map
        (fun rest => targetAddr [] 9229 (some ("/d2hub/tunnel/".toList ++ rest.toList))) =
      [.error (.missingTunnelProto "/d2hub/tunnel/2.0".toList),
        .error (.badPortSuffix "x".toList "/d2hub/tunnel/1.0x".toList),
        .ok (.localhost 99999), .ok (.localhost (-5))] := by
  decide

end Libp2px.Tunnel.Target
