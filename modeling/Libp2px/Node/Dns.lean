import Mathlib.Order.WellFounded
import Mathlib.Data.Finite.Prod

/-!
# Resolving DNS addresses

`resolveDNSAddrFully` (`p2put/multidns.go`) resolves an address and then, recursively, every result that still needs
DNS.  The records decide how deep that goes: it ends for every address exactly if no record leads back to itself.
-/

namespace Libp2px.Node

/-- `multiaddr.NewMultiaddr` and `String`, `madns.Resolve` with its results and its error, `madns.Matches`, and the
names of `Protocols`. -/
structure Resolver (A : Type) where
  parse : String → Except String A
  string : A → String
  resolve : A → List A × Option String
  isMatch : A → Bool
  protocols : A → List String

namespace Resolver

variable {A : Type} (R : Resolver A)

def hasDNSComponent (r : A) : Bool :=
  (R.protocols r).any fun p => p == "dns4" || p == "dns6" || p == "dns" || p == "dnsaddr"

/-- The loop over the results; `sub` is the recursive call. -/
def collect (sub : String → Option (List String × List String)) :
    List A → List String → List String → Option (List String × List String)
  | [], resolved, errs => some (resolved, errs)
  | r :: rs, resolved, errs =>
    if R.isMatch r then
      (sub (R.string r)).bind fun s => collect sub rs (resolved ++ s.1) (errs ++ s.2)
    else if R.hasDNSComponent r then
      (sub (R.string r)).bind fun s =>
        collect sub rs (resolved ++ if s.1.length > 0 then s.1 else [R.string r]) (errs ++ s.2)
    else collect sub rs (resolved ++ [R.string r]) errs

/-- `resolveDNSAddrFully`: the addresses and the errors; `none` when the calls are nested deeper than `fuel`. -/
def resolveDNSAddrFully : Nat → String → Option (List String × List String)
  | 0, _ => none
  | fuel + 1, addrStr =>
    match R.parse addrStr with
    | .error err => some ([], ["parse multiaddr: " ++ err])
    | .ok maddr =>
      R.collect (resolveDNSAddrFully fuel) (R.resolve maddr).1 []
        ((R.resolve maddr).2.toList.map ("dnsaddr resolve: " ++ ·))

def Terminates (addrStr : String) : Prop := ∃ fuel, (R.resolveDNSAddrFully fuel addrStr).isSome = true

def Follows (next maddr : A) : Prop :=
  ∃ r ∈ (R.resolve maddr).1, (R.isMatch r || R.hasDNSComponent r) = true ∧ R.parse (R.string r) = .ok next

variable {R}

theorem isSome_collect {sub : String → Option (List String × List String)} {rs : List A} {resolved errs : List String} :
    (R.collect sub rs resolved errs).isSome = true ↔
      ∀ r ∈ rs, (R.isMatch r || R.hasDNSComponent r) = true → (sub (R.string r)).isSome = true := by
  induction rs generalizing resolved errs with
  | nil => simp [collect]
  | cons r rs ih =>
    rw [List.forall_mem_cons, collect]
    by_cases hm : R.isMatch r = true
    · cases hsub : sub (R.string r) <;> simp [hm, ih]
    · by_cases hd : R.hasDNSComponent r = true
      · cases hsub : sub (R.string r) <;> simp [hm, hd, ih]
      · simp [hm, hd, ih]

theorem isSome_succ {fuel : Nat} {addrStr : String} :
    (R.resolveDNSAddrFully (fuel + 1) addrStr).isSome = true ↔ ∀ maddr, R.parse addrStr = .ok maddr →
      ∀ r ∈ (R.resolve maddr).1, (R.isMatch r || R.hasDNSComponent r) = true →
        (R.resolveDNSAddrFully fuel (R.string r)).isSome = true := by
  rw [resolveDNSAddrFully]
  cases R.parse addrStr with
  | error err => simp
  | ok maddr => simp [isSome_collect]

theorem isSome_mono {fuel fuel' : Nat} {addrStr : String} (hle : fuel ≤ fuel')
    (h : (R.resolveDNSAddrFully fuel addrStr).isSome = true) : (R.resolveDNSAddrFully fuel' addrStr).isSome = true := by
  induction fuel generalizing fuel' addrStr with
  | zero => cases h
  | succ fuel ih =>
    obtain ⟨k, rfl⟩ : ∃ k, fuel' = k + 1 := ⟨fuel' - 1, by omega⟩
    rw [isSome_succ] at h ⊢
    exact fun maddr hp r hr hf => ih (by omega) (h maddr hp r hr hf)

theorem common_fuel (l : List String) (h : ∀ s ∈ l, R.Terminates s) :
    ∃ fuel, ∀ s ∈ l, (R.resolveDNSAddrFully fuel s).isSome = true := by
  induction l with
  | nil => exact ⟨0, by simp⟩
  | cons s l ih =>
    rw [List.forall_mem_cons] at h
    obtain ⟨f, hf⟩ := h.1
    obtain ⟨f', hf'⟩ := ih h.2
    refine ⟨max f f', ?_⟩
    rw [List.forall_mem_cons]
    exact ⟨isSome_mono (le_max_left _ _) hf, fun s hs => isSome_mono (le_max_right _ _) (hf' s hs)⟩

theorem terminates_of_acc {addrStr : String} (h : ∀ maddr, R.parse addrStr = .ok maddr → Acc R.Follows maddr) :
    R.Terminates addrStr := by
  cases hp : R.parse addrStr with
  | error err => exact ⟨1, isSome_succ.2 fun maddr hm => by rw [hp] at hm; cases hm⟩
  | ok maddr =>
    have hacc := h maddr hp
    clear h
    induction hacc generalizing addrStr with
    | intro maddr _ ih =>
      obtain ⟨fuel, hfuel⟩ := R.common_fuel (((R.resolve maddr).1.filter
        fun r => R.isMatch r || R.hasDNSComponent r).map R.string) fun s hs => by
          obtain ⟨r, hr, rfl⟩ := List.mem_map.1 hs
          obtain ⟨hr, hf⟩ := List.mem_filter.1 hr
          cases hnext : R.parse (R.string r) with
          | error err => exact ⟨1, isSome_succ.2 fun m hm => by rw [hnext] at hm; cases hm⟩
          | ok next => exact ih next ⟨r, hr, hf, hnext⟩ hnext
      refine ⟨fuel + 1, isSome_succ.2 fun m hm r hr hf => hfuel _ ?_⟩
      rw [hp] at hm
      cases hm
      exact List.mem_map_of_mem (List.mem_filter.2 ⟨hr, hf⟩)

theorem acc_of_terminates {addrStr : String} {maddr : A} (h : R.Terminates addrStr) (hp : R.parse addrStr = .ok maddr) :
    Acc R.Follows maddr := by
  obtain ⟨fuel, h⟩ := h
  induction fuel generalizing addrStr maddr with
  | zero => cases h
  | succ fuel ih =>
    refine ⟨_, fun next hnext => ?_⟩
    obtain ⟨r, hr, hf, hparse⟩ := hnext
    exact ih hparse (isSome_succ.1 h maddr hp r hr hf)

/-- Over finitely many addresses, resolution ends for every address exactly if no address leads back to itself. -/
theorem terminates_iff_acyclic [Finite A] (R : Resolver A) :
    (∀ addrStr, R.Terminates addrStr) ↔ ∀ maddr, ¬Relation.TransGen R.Follows maddr maddr := by
  constructor
  · intro h maddr hcycle
    obtain ⟨_, ⟨r, -, -, hparse⟩, -⟩ := Relation.TransGen.head'_iff.1 hcycle
    have hacc := (acc_of_terminates (h (R.string r)) hparse).transGen
    induction hacc with
    | intro x _ ih => exact ih x hcycle hcycle hparse
  · intro h addrStr
    have hirrefl : Std.Irrefl (Relation.TransGen R.Follows) := ⟨h⟩
    have hwf := Finite.wellFounded_of_trans_of_irrefl (Relation.TransGen R.Follows)
    exact terminates_of_acc fun maddr _ => acc_transGen_iff.1 (hwf.apply maddr)

theorem terminates_iff_acyclic_leaf :
    (⟨fun _ => .ok (), fun _ => "/dnsaddr/a", fun _ => ([], none), fun _ => true, fun _ => []⟩ :
      Resolver Unit).Terminates "/dnsaddr/a" :=
  (terminates_iff_acyclic _).2 (fun maddr h => by
    obtain ⟨_, ⟨r, hr, -⟩, -⟩ := Relation.TransGen.head'_iff.1 h
    cases hr) "/dnsaddr/a"

/-- A record that names its own address. -/
def selfRecord : Resolver Unit where
  parse _ := .ok ()
  string _ := "/dnsaddr/a"
  resolve _ := ([()], none)
  isMatch _ := true
  protocols _ := ["dnsaddr"]

theorem selfRecord_never_ends : ¬selfRecord.Terminates "/dnsaddr/a" := by
  rintro ⟨fuel, h⟩
  induction fuel with
  | zero => cases h
  | succ fuel ih => exact ih (isSome_succ.1 h () rfl () (by simp [selfRecord]) rfl)

end Resolver

end Libp2px.Node
