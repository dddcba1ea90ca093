import Mathlib.Data.List.Basic

/-!
# Unix paths

`Base`, `Clean` and `Join` as the Go package `path/filepath` documents them for Unix.  They look at nothing but the text
of a path.  What a path says is whether it is rooted, and the names that are left when empty elements and dots are
removed and two dots cancel the name before them (`names`); a cleaned path says the same (`names_clean`).
-/

namespace Paths

abbrev Name := List Char

def dot : Name := ['.']
def dotdot : Name := ['.', '.']

/-- One more element of a path; the names so far come with the last one first. -/
def push (rooted : Bool) (stack : List Name) (e : Name) : List Name :=
  if e = [] ∨ e = dot then stack
  else if e = dotdot then
    match stack with
    | [] => if rooted then [] else [dotdot]
    | t :: rest => if t = dotdot then dotdot :: t :: rest else rest
  else e :: stack

def rooted (p : List Char) : Bool := p.head? == some '/'

def names (p : List Char) : List Name := ((List.splitOn '/' p).foldl (push (rooted p)) []).reverse

def render (rooted : Bool) (names : List Name) : List Char :=
  if rooted then '/' :: ['/'].intercalate names
  else if names = [] then dot
  else ['/'].intercalate names

/-- `Clean`: the shortest path that says the same. -/
def clean (p : List Char) : List Char := render (rooted p) (names p)

/-- `Join`: empty elements are ignored, and the result is cleaned. -/
def join (elems : List (List Char)) : List Char :=
  let elems := elems.filter (· ≠ [])
  if elems = [] then [] else clean (['/'].intercalate elems)

/-- `Base`: the last element, without the slashes at the end. -/
def base (p : List Char) : List Char :=
  if p = [] then dot
  else
    let last := ((p.reverse.dropWhile (· = '/')).takeWhile (· ≠ '/')).reverse
    if last = [] then ['/'] else last

/-- The name of a file: not empty, without a slash, and neither one dot nor two. -/
def Proper (n : Name) : Prop := n ≠ [] ∧ '/' ∉ n ∧ n ≠ dot ∧ n ≠ dotdot

instance (n : Name) : Decidable (Proper n) := inferInstanceAs (Decidable (_ ∧ _))

/-- The path names the entry `n` of the directory. -/
def IsChild (dir p : List Char) (n : Name) : Prop := Proper n ∧ rooted p = rooted dir ∧ names p = names dir ++ [n]

/-! ### Elements -/

variable {e : Name} {r : Bool} {stack : List Name}

theorem not_mem_of_mem_splitOn {p : List Char} (h : e ∈ List.splitOn '/' p) : '/' ∉ e := by
  induction p generalizing e with
  | nil =>
    rw [List.splitOn_nil, List.mem_singleton] at h
    rw [h]
    exact List.not_mem_nil
  | cons c p ih =>
    unfold List.splitOn at h ih
    rw [List.splitOnP_cons_eq_if_modifyHead] at h
    split at h
    · rcases List.mem_cons.1 h with rfl | h
      · exact List.not_mem_nil
      · exact ih h
    · rename_i hc
      cases hsplit : List.splitOnP (· == '/') p with
      | nil => exact absurd hsplit (List.splitOnP_ne_nil _ _)
      | cons a rest =>
        rw [hsplit] at h ih
        rcases List.mem_cons.1 h with rfl | h
        · intro hmem
          rcases List.mem_cons.1 hmem with heq | hmem
          · exact hc (by rw [← heq]; rfl)
          · exact ih List.mem_cons_self hmem
        · exact ih (List.mem_cons_of_mem a h)

theorem splitOn_append_sep (d n : List Char) :
    List.splitOn '/' (d ++ '/' :: n) = List.splitOn '/' d ++ List.splitOn '/' n :=
  List.splitOnP_append_cons d n rfl

theorem rooted_append {d : List Char} (hd : d ≠ []) (n : List Char) : rooted (d ++ n) = rooted d := by
  unfold rooted
  rw [List.head?_append_of_ne_nil d hd]

theorem names_append {d : List Char} (hd : d ≠ []) (n : List Char) :
    names (d ++ '/' :: n) = ((List.splitOn '/' n).foldl (push (rooted d)) (names d).reverse).reverse := by
  unfold names
  rw [rooted_append hd, splitOn_append_sep, List.foldl_append, List.reverse_reverse]

/-! ### Normal names -/

/-- The names of a cleaned path, with the last one first: read again, they are the same. -/
structure Normal (rooted : Bool) (stack : List Name) : Prop where
  fixed : stack.reverse.foldl (push rooted) [] = stack
  elements : ∀ n ∈ stack, n ≠ [] ∧ '/' ∉ n ∧ n ≠ dot

theorem push_skip (h : e = [] ∨ e = dot) : push r stack e = stack := if_pos h

theorem push_proper (h : Proper e) : push r stack e = e :: stack := by
  unfold push
  rw [if_neg (not_or.2 ⟨h.1, h.2.2.1⟩), if_neg h.2.2.2]

theorem eq_dotdot_of_push {n : Name} (h : push r stack dotdot = n :: stack) : n = dotdot := by
  have hother : ¬(dotdot = [] ∨ dotdot = dot) := by decide
  unfold push at h
  rw [if_neg hother, if_pos rfl] at h
  cases stack with
  | nil =>
    cases r with
    | true => cases h
    | false => exact (List.cons.inj h).1.symm
  | cons t rest =>
    simp only at h
    split at h
    · exact (List.cons.inj h).1.symm
    · have := congrArg List.length h
      simp only [List.length_cons] at this
      omega

theorem Normal.cons (h : Normal r stack) (hpush : push r stack e = e :: stack)
    (he : e ≠ [] ∧ '/' ∉ e ∧ e ≠ dot) : Normal r (e :: stack) := by
  refine ⟨?_, List.forall_mem_cons.2 ⟨he, h.elements⟩⟩
  rw [List.reverse_cons, List.foldl_append, h.fixed]
  exact hpush

theorem Normal.tail {t : Name} (h : Normal r (t :: stack)) (ht : t ≠ dotdot) :
    Normal r stack := by
  obtain ⟨⟨hne, hsep, hdot⟩, hrest⟩ := List.forall_mem_cons.1 h.elements
  refine ⟨?_, hrest⟩
  have hfixed := h.fixed
  rw [List.reverse_cons, List.foldl_append] at hfixed
  exact (List.cons.inj ((push_proper ⟨hne, hsep, hdot, ht⟩).symm.trans hfixed)).2

theorem Normal.push (h : Normal r stack) (he : '/' ∉ e) :
    Normal r (push r stack e) := by
  by_cases hskip : e = [] ∨ e = dot
  · rw [push_skip hskip]
    exact h
  · obtain ⟨hne, hdot⟩ := not_or.1 hskip
    by_cases hup : e = dotdot
    · have hnorm : dotdot ≠ [] ∧ '/' ∉ dotdot ∧ dotdot ≠ dot := by decide
      subst hup
      unfold Paths.push
      rw [if_neg hskip, if_pos rfl]
      cases stack with
      | nil =>
        cases r with
        | true => exact h
        | false => exact h.cons rfl hnorm
      | cons t rest =>
        simp only
        split
        · rename_i ht
          exact h.cons (by rw [ht]; rfl) hnorm
        · rename_i ht
          exact h.tail ht
    · rw [push_proper ⟨hne, he, hdot, hup⟩]
      exact h.cons (push_proper ⟨hne, he, hdot, hup⟩) ⟨hne, he, hdot⟩

theorem normal_names (p : List Char) : Normal (rooted p) (names p).reverse := by
  unfold names
  rw [List.reverse_reverse]
  refine List.foldlRecOn (motive := Normal (rooted p)) _ _ ⟨rfl, by simp⟩ ?_
  intro stack h e he
  exact h.push (not_mem_of_mem_splitOn he)

/-! ### Cleaned paths -/

theorem head?_intercalate {n : Name} (hn : n ≠ []) (ns : List Name) : (['/'].intercalate (n :: ns)).head? = n.head? := by
  cases ns with
  | nil => simp [List.intercalate]
  | cons m ns =>
    rw [List.intercalate_cons_cons, List.append_assoc, List.head?_append_of_ne_nil n hn]

theorem names_render {ns : List Name} (h : Normal r ns.reverse) :
    rooted (render r ns) = r ∧ names (render r ns) = ns := by
  have hfixed := h.fixed
  rw [List.reverse_reverse] at hfixed
  have hsep : ∀ n ∈ ns, '/' ∉ n := fun n hn => (h.elements n (List.mem_reverse.2 hn)).2.1
  have hroot : rooted (render r ns) = r := by
    unfold render
    cases r with
    | true => rfl
    | false =>
      cases ns with
      | nil => rfl
      | cons n ns =>
        obtain ⟨hne, hno, -⟩ := h.elements n (List.mem_reverse.2 List.mem_cons_self)
        unfold rooted
        simp only [Bool.false_eq_true, if_false, List.cons_ne_nil, head?_intercalate hne]
        cases n with
        | nil => exact absurd rfl hne
        | cons c n =>
          have hc : c ≠ '/' := fun heq => hno (heq ▸ List.mem_cons_self)
          simpa using hc
  refine ⟨hroot, ?_⟩
  unfold names
  rw [hroot]
  unfold render
  have hsplit : ns ≠ [] → List.splitOn '/' (['/'].intercalate ns) = ns := List.splitOn_intercalate '/' hsep
  by_cases hns : ns = []
  · subst hns
    cases r <;> rfl
  · cases r with
    | true =>
      have hcons : List.splitOn '/' ('/' :: ['/'].intercalate ns) = [] :: ns := by
        rw [← List.nil_append ('/' :: _), splitOn_append_sep, hsplit hns]
        rfl
      rw [if_pos rfl, hcons, List.foldl_cons]
      exact (congrArg List.reverse hfixed).trans (List.reverse_reverse ns)
    | false =>
      rw [if_neg (by simp), if_neg hns, hsplit hns, hfixed, List.reverse_reverse]

theorem names_clean (p : List Char) : rooted (clean p) = rooted p ∧ names (clean p) = names p :=
  names_render (normal_names p)

example : clean "/a/../../b//./c/".toList = "/b/c".toList := by decide

theorem join_two {d n : List Char} (hd : d ≠ []) (hn : n ≠ []) : join [d, n] = clean (d ++ '/' :: n) := by
  unfold join
  simp [hd, hn, List.intercalate]

theorem render_append (r : Bool) (ns : List Name) (n s : List Char) :
    render r (ns ++ [n]) ++ s = render r (ns ++ [n ++ s]) := by
  have hinter : ['/'].intercalate (ns ++ [n]) ++ s = ['/'].intercalate (ns ++ [n ++ s]) := by
    induction ns with
    | nil => simp [List.intercalate]
    | cons m ns ih =>
      cases ns with
      | nil => simp [List.intercalate]
      | cons m' ns =>
        simp only [List.cons_append, List.intercalate_cons_cons, List.append_assoc] at ih ⊢
        rw [ih]
  unfold render
  cases r with
  | true => simp [hinter]
  | false => simp [hinter]

/-! ### Directories -/

theorem base_cases (p : List Char) : base p = ['/'] ∨ base p ≠ [] ∧ '/' ∉ base p := by
  unfold base
  split
  · exact .inr (by decide)
  · simp only
    split
    · exact .inl rfl
    · rename_i hne
      refine .inr ⟨hne, fun hmem => ?_⟩
      rw [List.mem_reverse] at hmem
      have hno := List.all_eq_true.1 List.all_takeWhile _ hmem
      simp at hno

theorem names_append_proper {d n : List Char} (hd : d ≠ []) (hn : Proper n) : names (d ++ '/' :: n) = names d ++ [n] := by
  rw [names_append hd, List.splitOn_eq_singleton hn.2.1, List.foldl_cons, List.foldl_nil, push_proper hn,
    List.reverse_cons, List.reverse_reverse]

theorem isChild_join_base {d : List Char} (hd : d ≠ []) (p : List Char) :
    (∃ n, IsChild d (join [d, base p]) n) ↔ Proper (base p) := by
  have hne : base p ≠ [] := by
    rcases base_cases p with h | h
    · rw [h]
      exact List.cons_ne_nil _ _
    · exact h.1
  obtain ⟨hroot, hnames⟩ := names_clean (d ++ '/' :: base p)
  unfold IsChild
  rw [join_two hd hne, hroot, hnames, rooted_append hd]
  constructor
  · rintro ⟨n, hn, -, heq⟩
    rw [names_append hd] at heq
    rcases base_cases p with h | ⟨-, hsep⟩
    · -- two empty elements
      have hempty : List.splitOn '/' ['/'] = [[], []] := rfl
      rw [h, hempty, List.foldl_cons, List.foldl_cons, List.foldl_nil, push_skip (.inl rfl), push_skip (.inl rfl),
        List.reverse_reverse] at heq
      simp at heq
    · rw [List.splitOn_eq_singleton hsep, List.foldl_cons, List.foldl_nil] at heq
      refine ⟨hne, hsep, fun hdot => ?_, fun hup => ?_⟩
      · rw [push_skip (.inr hdot), List.reverse_reverse] at heq
        simp at heq
      · have hpush := List.reverse_eq_iff.1 heq
        rw [hup, List.reverse_append, List.reverse_singleton] at hpush
        exact hn.2.2.2 (eq_dotdot_of_push hpush)
  · intro h
    exact ⟨base p, h, rfl, names_append_proper hd h⟩

theorem isChild_append {d n s : List Char} (hd : d ≠ []) (hn : Proper n) (hs : Proper (n ++ s)) :
    IsChild d (join [d, n] ++ s) (n ++ s) := by
  have hnormal : Normal (rooted d) (names d ++ [n ++ s]).reverse := by
    rw [List.reverse_append, List.reverse_singleton]
    exact (normal_names d).cons (push_proper hs) ⟨hs.1, hs.2.1, hs.2.2.1⟩
  rw [join_two hd hn.1, clean, rooted_append hd, names_append_proper hd hn, render_append]
  exact ⟨hs, names_render hnormal⟩

end Paths
