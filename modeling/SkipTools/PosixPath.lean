import Mathlib.Data.List.Basic

/-! Python strings and the `os.path` functions the harness calls, on a POSIX host
without symbolic links or hard links. A string is its list of characters. A path
resolves to the list of its components below `/`, the way `os.path.realpath`
resolves it there, and two names denote one file exactly when they resolve alike. -/

namespace SkipTools

/-- A Python `str`, as its characters. -/
abbrev PyStr := List Char

/-- A resolved path: its components below the root. -/
abbrev Comps := List PyStr

/-- `str.endswith`. -/
def endswith (s t : PyStr) : Bool := t.isSuffixOf s

/-- `str.startswith`. -/
def startswith (s t : PyStr) : Bool := t.isPrefixOf s

/-- `'/'.join(parts)`, which is also `os.path.join(*parts)` for relative parts. -/
def joinSlash : Comps → PyStr
  | [] => []
  | [n] => n
  | n :: ns => n ++ '/' :: joinSlash ns

/-- `os.path.join(a, b)` of `posixpath`. -/
def join (a b : PyStr) : PyStr :=
  if b.head? = some '/' then b
  else if a = [] ∨ a.getLast? = some '/' then a ++ b
  else a ++ '/' :: b

/-- `os.path.commonprefix` of two sequences, compared item by item. -/
def commonPrefix {α : Type} [DecidableEq α] : List α → List α → List α
  | a :: as, b :: bs => if a = b then a :: commonPrefix as bs else []
  | _, _ => []

theorem commonPrefix_eq_self_iff {α : Type} [DecidableEq α] (a b : List α) :
    commonPrefix a b = a ↔ a <+: b := by
  induction a generalizing b with
  | nil => cases b <;> simp [commonPrefix]
  | cons x xs ih =>
    cases b with
    | nil => simp [commonPrefix]
    | cons y ys =>
      by_cases hxy : x = y
      · simp [commonPrefix, hxy, ih]
      · simp [commonPrefix, hxy]

theorem commonPrefix_prefix {α : Type} [DecidableEq α] (a b : List α) :
    commonPrefix a b <+: a ∧ commonPrefix a b <+: b := by
  induction a generalizing b with
  | nil => simp [commonPrefix]
  | cons x xs ih =>
    cases b with
    | nil => simp [commonPrefix]
    | cons y ys =>
      by_cases hxy : x = y
      · subst hxy
        simpa [commonPrefix] using ih ys
      · simp [commonPrefix, hxy]

/-! ### `os.path.splitext` -/

/-- The scan of `genericpath._splitext`. `seen` records whether the current file
name has had a character other than a dot. The extension starts at the last dot
that has no `/` after it and a non-dot character of its own name before it. -/
def splitextGo (seen : Bool) : PyStr → PyStr × PyStr
  | [] => ([], [])
  | c :: cs =>
    if c = '.' ∧ seen = true ∧ '.' ∉ cs ∧ '/' ∉ cs then ([], c :: cs)
    else
      let r := splitextGo (if c = '/' then false else seen || decide (c ≠ '.')) cs
      (c :: r.1, r.2)

/-- `os.path.splitext`: the root and the extension. -/
def splitext (p : PyStr) : PyStr × PyStr := splitextGo false p

/-- The flag `splitextGo` holds after scanning `r`. -/
def seenAfter (seen : Bool) : PyStr → Bool
  | [] => seen
  | c :: cs => seenAfter (if c = '/' then false else seen || decide (c ≠ '.')) cs

theorem splitextGo_append (seen : Bool) (p : PyStr) :
    (splitextGo seen p).1 ++ (splitextGo seen p).2 = p := by
  induction p generalizing seen with
  | nil => rfl
  | cons c cs ih =>
    unfold splitextGo
    split <;> simp [ih]

/-- The extension is cut exactly where `genericpath._splitext` cuts it. -/
theorem splitextGo_ext (seen : Bool) (r s : PyStr) (hd : '.' ∉ s) (hs : '/' ∉ s)
    (hr : seenAfter seen r = true) : splitextGo seen (r ++ '.' :: s) = (r, '.' :: s) := by
  induction r generalizing seen with
  | nil => simp_all [splitextGo, seenAfter]
  | cons c cs ih =>
    rw [List.cons_append, splitextGo, if_neg (by simp),
      ih (if c = '/' then false else seen || decide (c ≠ '.')) hr]

theorem splitextGo_ext_spec (seen : Bool) (p : PyStr) (h : (splitextGo seen p).2 ≠ []) :
    ∃ s, (splitextGo seen p).2 = '.' :: s ∧ '.' ∉ s ∧ '/' ∉ s ∧
      seenAfter seen (splitextGo seen p).1 = true := by
  induction p generalizing seen with
  | nil => exact absurd rfl h
  | cons c cs ih =>
    unfold splitextGo at h ⊢
    split
    · next hc =>
      obtain ⟨rfl, hseen, hd, hs⟩ := hc
      exact ⟨cs, rfl, hd, hs, hseen⟩
    · next hc =>
      simp only [hc, if_false] at h
      exact ih _ h

theorem seenAfter_append_slash (seen : Bool) (r q : PyStr) :
    seenAfter seen (r ++ '/' :: q) = seenAfter false q := by
  induction r generalizing seen with
  | nil => simp [seenAfter]
  | cons c cs ih => exact ih _

theorem seenAfter_of_no_slash (seen : Bool) (r : PyStr) (hs : '/' ∉ r) :
    seenAfter seen r = (seen || r.any (· ≠ '.')) := by
  induction r generalizing seen with
  | nil => simp [seenAfter]
  | cons c cs ih =>
    simp only [List.mem_cons, not_or] at hs
    simp only [seenAfter, if_neg (Ne.symm hs.1), ih _ hs.2, List.any_cons, Bool.or_assoc]

/-- A name with no `/` splits at a dot-free extension exactly when what stands
before it has a character other than a dot. -/
theorem splitext_name_eq_iff (name root s : PyStr) (hn : '/' ∉ name) (hd : '.' ∉ s)
    (hs : '/' ∉ s) :
    splitext name = (root, '.' :: s) ↔ name = root ++ '.' :: s ∧ ∃ c ∈ root, c ≠ '.' := by
  constructor
  · intro h
    have happ := splitextGo_append false name
    obtain ⟨-, -, -, -, hseen⟩ := splitextGo_ext_spec false name (by
      simp only [splitext] at h; simp [h])
    simp only [splitext] at h
    rw [h] at happ hseen
    have hr : '/' ∉ root := fun hm => hn (happ ▸ List.mem_append_left _ hm)
    rw [seenAfter_of_no_slash _ _ hr] at hseen
    exact ⟨happ.symm, by simpa using hseen⟩
  · rintro ⟨rfl, hc⟩
    have hr : '/' ∉ root := fun hm => hn (List.mem_append_left _ hm)
    exact splitextGo_ext false root s hd hs (by
      rw [seenAfter_of_no_slash _ _ hr]; simpa using hc)

/-! ### Resolution -/

/-- A component that names an entry: not empty, not `.` or `..`, and free of `/`. -/
def IsName (n : PyStr) : Prop := n ≠ [] ∧ n ≠ ['.'] ∧ n ≠ ['.', '.'] ∧ '/' ∉ n

instance (n : PyStr) : Decidable (IsName n) := inferInstanceAs (Decidable (_ ∧ _))

/-- No component of `p` is `..`. The kernel resolves `d/..` through the directory `d`,
which must exist, where `resolve` drops both lexically: the two agree on paths
without `..`. -/
def NoDotDot (p : PyStr) : Prop := ['.', '.'] ∉ p.splitOn '/'

instance (p : PyStr) : Decidable (NoDotDot p) := inferInstanceAs (Decidable (_ ∉ _))

/-- `List.concat_inj` for lists written with `++ [a]`. -/
theorem append_singleton_inj {α : Type} {l l' : List α} {a b : α} (h : l ++ [a] = l' ++ [b]) :
    l = l' ∧ a = b :=
  ⟨List.append_inj_left' h rfl, List.singleton_inj.mp (List.append_inj_right' h rfl)⟩

/-- One component of a path: empty components and `.` stay, `..` climbs (the root
is its own parent), a name descends. -/
def resolveStep (cs : Comps) (name : PyStr) : Comps :=
  if name = [] ∨ name = ['.'] then cs
  else if name = ['.', '.'] then cs.dropLast
  else cs ++ [name]

/-- The scan of a path: the components so far and the component being read. -/
def resolveChar (st : Comps × PyStr) (c : Char) : Comps × PyStr :=
  if c = '/' then (resolveStep st.1 st.2, []) else (st.1, st.2 ++ [c])

/-- The components `os.path.realpath` gives for `p` on a host without symbolic
links; a relative path starts from the working directory `cwd`. -/
def resolve (cwd : Comps) (p : PyStr) : Comps :=
  let st := p.foldl resolveChar (if p.head? = some '/' then [] else cwd, [])
  resolveStep st.1 st.2

/-- The string `realpath` returns for resolved components. -/
def render (cs : Comps) : PyStr := '/' :: joinSlash cs

/-- `os.path.realpath` on a host without symbolic links. -/
def realpath (cwd : Comps) (p : PyStr) : PyStr := render (resolve cwd p)

/-- `os.path.relpath(path, start)`: both resolved, the common leading components
dropped, one `..` for each component of `start` left over. -/
def relpath (cwd : Comps) (path start : PyStr) : PyStr :=
  let s := resolve cwd start
  let p := resolve cwd path
  let i := (commonPrefix s p).length
  let rel := List.replicate (s.length - i) ['.', '.'] ++ p.drop i
  if rel = [] then ['.'] else joinSlash rel

theorem resolveStep_cases (cs : Comps) (n : PyStr) :
    resolveStep cs n = cs ∨ resolveStep cs n = cs.dropLast ∨ resolveStep cs n = cs ++ [n] := by
  unfold resolveStep
  split
  · exact Or.inl rfl
  · split
    · exact Or.inr (Or.inl rfl)
    · exact Or.inr (Or.inr rfl)

@[simp] theorem resolveStep_nil (cs : Comps) : resolveStep cs [] = cs := by
  simp [resolveStep]

theorem resolveStep_name (cs : Comps) (n : PyStr) (h : IsName n) :
    resolveStep cs n = cs ++ [n] := by
  obtain ⟨h0, h1, h2, -⟩ := h
  simp [resolveStep, h0, h1, h2]

theorem foldl_resolveChar_of_no_slash (st : Comps × PyStr) (n : PyStr) (h : '/' ∉ n) :
    n.foldl resolveChar st = (st.1, st.2 ++ n) := by
  induction n generalizing st with
  | nil => simp
  | cons c cs ih =>
    simp only [List.mem_cons, not_or] at h
    simp only [List.foldl_cons, resolveChar, if_neg (Ne.symm h.1), ih _ h.2,
      List.append_assoc, List.singleton_append]

/-- Scanning `'/'.join(cs)` from a fresh component appends the names `cs`. -/
theorem foldl_resolveChar_joinSlash (acc : Comps) (cs : Comps) (h : ∀ n ∈ cs, IsName n) :
    let st := (joinSlash cs).foldl resolveChar (acc, [])
    resolveStep st.1 st.2 = acc ++ cs := by
  induction cs generalizing acc with
  | nil => simp [joinSlash, resolveStep]
  | cons n ns ih =>
    have hn : IsName n := h n (List.mem_cons_self _ _)
    cases ns with
    | nil =>
      simp only [joinSlash, foldl_resolveChar_of_no_slash _ _ hn.2.2.2]
      exact resolveStep_name _ _ hn
    | cons m ms =>
      simp only [joinSlash, List.foldl_append, foldl_resolveChar_of_no_slash _ _ hn.2.2.2,
        List.foldl_cons, resolveChar, if_true, List.nil_append]
      rw [resolveStep_name _ _ hn]
      simpa using ih (acc ++ [n]) (fun x hx => h x (List.mem_cons_of_mem _ hx))

/-- A rendered path resolves back to its components. -/
theorem resolve_render (cwd : Comps) (cs : Comps) (h : ∀ n ∈ cs, IsName n) :
    resolve cwd (render cs) = cs := by
  simpa [resolve, render, resolveChar, resolveStep] using
    foldl_resolveChar_joinSlash [] cs h

/-- The directory part of a scan: the components read from `d` before its last
component, starting where `resolve` starts. -/
def dirComps (cwd : Comps) (d : PyStr) : Comps :=
  (d.foldl resolveChar (if d.head? = some '/' then [] else cwd, [])).1

theorem foldl_resolveChar_slash (st : Comps × PyStr) (d : PyStr) :
    ((d ++ ['/']).foldl resolveChar st).2 = [] := by
  simp [resolveChar]

/-- A last component `m` with no `/` after a directory part `d` (empty or ending in
`/`) is resolved against the components of `d`. -/
theorem resolve_dir_append (cwd : Comps) (d m : PyStr) (hd : d = [] ∨ d.getLast? = some '/')
    (hm : '/' ∉ m) : resolve cwd (d ++ m) = resolveStep (dirComps cwd d) m := by
  have hhead : (d ++ m).head? = some '/' ↔ d.head? = some '/' := by
    cases d with
    | nil =>
      cases m with
      | nil => simp
      | cons c cs => simp only [List.mem_cons, not_or] at hm; simp [Ne.symm hm.1]
    | cons c cs => simp
  have hcur : (d.foldl resolveChar (if d.head? = some '/' then [] else cwd, [])).2 = [] := by
    rcases hd with rfl | hl
    · rfl
    · obtain ⟨d', rfl⟩ := List.getLast?_eq_some_iff.mp hl
      exact foldl_resolveChar_slash _ _
  simp only [resolve, hhead, List.foldl_append, foldl_resolveChar_of_no_slash _ _ hm, hcur,
    List.nil_append, dirComps]

theorem resolveStep_names (cs : Comps) (n : PyStr) (hcs : ∀ x ∈ cs, IsName x) (hn : '/' ∉ n) :
    ∀ x ∈ resolveStep cs n, IsName x := by
  unfold resolveStep
  split
  · exact hcs
  · split
    · exact fun x hx => hcs x (List.dropLast_subset _ hx)
    · intro x hx
      rcases List.mem_append.mp hx with hx | hx
      · exact hcs x hx
      · simp only [List.mem_singleton] at hx
        subst hx
        simp_all [IsName]

theorem foldl_resolveChar_names (st : Comps × PyStr) (p : PyStr)
    (h1 : ∀ x ∈ st.1, IsName x) (h2 : '/' ∉ st.2) :
    (∀ x ∈ (p.foldl resolveChar st).1, IsName x) ∧ '/' ∉ (p.foldl resolveChar st).2 := by
  induction p generalizing st with
  | nil => exact ⟨h1, h2⟩
  | cons c cs ih =>
    apply ih
    · unfold resolveChar
      split
      · exact resolveStep_names _ _ h1 h2
      · exact h1
    · unfold resolveChar
      split
      · simp
      · next hc => simpa [Ne.symm hc] using h2

/-- Resolution yields names only, when the working directory is made of names. -/
theorem resolve_names (cwd : Comps) (p : PyStr) (hcwd : ∀ x ∈ cwd, IsName x) :
    ∀ x ∈ resolve cwd p, IsName x := by
  have h := foldl_resolveChar_names (if p.head? = some '/' then [] else cwd, []) p
    (by split <;> simp_all) (by simp)
  exact resolveStep_names _ _ h.1 h.2

theorem joinSlash_cons_of_ne_nil (n : PyStr) (ns : Comps) (h : ns ≠ []) :
    joinSlash (n :: ns) = n ++ '/' :: joinSlash ns := by
  cases ns with
  | nil => exact absurd rfl h
  | cons m ms => rfl

theorem joinSlash_append (a b : Comps) (ha : a ≠ []) (hb : b ≠ []) :
    joinSlash (a ++ b) = joinSlash a ++ '/' :: joinSlash b := by
  induction a with
  | nil => exact absurd rfl ha
  | cons x xs ih =>
    rcases List.eq_nil_or_concat xs with rfl | ⟨ys, y, rfl⟩
    · exact joinSlash_cons_of_ne_nil x b hb
    · rw [List.cons_append, joinSlash_cons_of_ne_nil _ _ (by simp),
        joinSlash_cons_of_ne_nil _ _ (by simp), ih (by simp), List.append_assoc]
      rfl

/-- Extending the last component of a rendered path extends the path. -/
theorem render_append_last (cs : Comps) (n x : PyStr) :
    render (cs ++ [n]) ++ x = render (cs ++ [n ++ x]) := by
  suffices h : joinSlash (cs ++ [n]) ++ x = joinSlash (cs ++ [n ++ x]) by
    simp [render, h]
  induction cs with
  | nil => rfl
  | cons c cs ih =>
    rw [List.cons_append, List.cons_append, joinSlash_cons_of_ne_nil _ _ (by simp),
      joinSlash_cons_of_ne_nil _ _ (by simp), List.append_assoc, List.cons_append, ih]

/-- `render (cs ++ [n])` is `render cs`, a slash, and `n`. -/
theorem render_append_single (cs : Comps) (n : PyStr) (h : cs ≠ []) :
    render (cs ++ [n]) = render cs ++ '/' :: n := by
  simp only [render, joinSlash_append cs [n] h (by simp), List.cons_append]
  rfl

theorem joinSlash_head (n : PyStr) (ns : Comps) (hn : n ≠ []) :
    (joinSlash (n :: ns)).head? = n.head? := by
  cases ns with
  | nil => rfl
  | cons m ms =>
    obtain ⟨c, cs, rfl⟩ := List.exists_cons_of_ne_nil hn
    rfl

/-- A rendered path of names ends with the last character of its last name. -/
theorem render_getLast (cs : Comps) (n : PyStr) (hn : n ≠ []) :
    (render (cs ++ [n])).getLast? = n.getLast? := by
  have h : render (cs ++ [n]) = (if cs = [] then ['/'] else render cs ++ ['/']) ++ n := by
    split
    · subst_vars; rfl
    · next hcs => rw [render_append_single _ _ hcs]; simp
  rw [h, List.getLast?_append_of_ne_nil _ hn]

/-- `os.path.join(render a, '/'.join(b))` for names is the rendering of `a ++ b`. -/
theorem join_render (a b : Comps) (ha : a ≠ []) (hb : b ≠ []) (han : ∀ x ∈ a, IsName x)
    (hbn : ∀ x ∈ b, IsName x) : join (render a) (joinSlash b) = render (a ++ b) := by
  obtain ⟨m, ms, rfl⟩ := List.exists_cons_of_ne_nil hb
  obtain ⟨as, l, rfl⟩ : ∃ as l, a = as ++ [l] :=
    ⟨_, _, (List.dropLast_append_getLast ha).symm⟩
  have hm := hbn m (List.mem_cons_self _ _)
  have hl := han l (by simp)
  have hhead : (joinSlash (m :: ms)).head? ≠ some '/' := by
    rw [joinSlash_head m ms hm.1]
    intro h
    obtain ⟨ys, rfl⟩ := List.head?_eq_some_iff.mp h
    exact hm.2.2.2 (List.mem_cons_self _ _)
  have hlast : ¬(render (as ++ [l]) = [] ∨ (render (as ++ [l])).getLast? = some '/') := by
    rw [render_getLast _ _ hl.1]
    exact fun h => h.elim (by simp [render]) (fun h => hl.2.2.2 (List.mem_of_getLast?_eq_some h))
  rw [join, if_neg hhead, if_neg hlast]
  simp only [render, List.cons_append]
  rw [joinSlash_append (as ++ [l]) (m :: ms) (by simp) (by simp)]

/-- `relpath` of a path below `start` is the part below `start`. -/
theorem relpath_of_below (cwd : Comps) (path start : PyStr) (rest : Comps) (hr : rest ≠ [])
    (h : resolve cwd path = resolve cwd start ++ rest) :
    relpath cwd path start = joinSlash rest := by
  have hc : commonPrefix (resolve cwd start) (resolve cwd start ++ rest) = resolve cwd start :=
    (commonPrefix_eq_self_iff _ _).mpr (List.prefix_append _ _)
  simp only [relpath, h, hc]
  simp [hr]

/-! ### Reading back `relpath` -/

/-- Scanning `'/'.join(cs)` from a fresh component takes one step of `resolveStep` per
component, `..` and `.` included. -/
theorem foldl_resolveChar_joinSlash_steps (cs : Comps) (h : ∀ n ∈ cs, '/' ∉ n) (acc : Comps) :
    let st := (joinSlash cs).foldl resolveChar (acc, [])
    resolveStep st.1 st.2 = cs.foldl resolveStep acc := by
  induction cs generalizing acc with
  | nil => simp [joinSlash]
  | cons n ns ih =>
    have hn := h n (List.mem_cons_self _ _)
    cases ns with
    | nil => simp only [joinSlash, foldl_resolveChar_of_no_slash _ _ hn]; rfl
    | cons m ms =>
      simp only [joinSlash, List.foldl_append, foldl_resolveChar_of_no_slash _ _ hn,
        List.foldl_cons, resolveChar, if_true, List.nil_append]
      exact ih (fun x hx => h x (List.mem_cons_of_mem _ hx)) _

theorem foldl_resolveStep_parent : ∀ (k : Nat) (cs : Comps),
    (List.replicate k ['.', '.']).foldl resolveStep cs = cs.take (cs.length - k)
  | 0, cs => by simp
  | k + 1, cs => by
    rw [List.replicate_succ, List.foldl_cons, foldl_resolveStep_parent k]
    simp [resolveStep, List.dropLast_eq_take, List.take_take]
    omega

theorem foldl_resolveStep_names : ∀ (ns cs : Comps), (∀ n ∈ ns, IsName n) →
    ns.foldl resolveStep cs = cs ++ ns
  | [], cs, _ => by simp
  | n :: ns, cs, h => by
    rw [List.foldl_cons, resolveStep_name _ _ (h n (List.mem_cons_self _ _)),
      foldl_resolveStep_names ns _ fun x hx => h x (List.mem_cons_of_mem _ hx)]
    simp

/-- A joined path starts with its first component. -/
theorem head_joinSlash {n : PyStr} (hn : n ≠ []) (ns : Comps) :
    (joinSlash (n :: ns)).head? = n.head? := by
  obtain ⟨c, cs, rfl⟩ := List.exists_cons_of_ne_nil hn
  cases ns <;> rfl

theorem resolve_joinSlash (cwd : Comps) {n : PyStr} (hn : n ≠ []) (ns : Comps)
    (h : ∀ m ∈ n :: ns, '/' ∉ m) : resolve cwd (joinSlash (n :: ns)) = (n :: ns).foldl resolveStep cwd := by
  have hhead : (joinSlash (n :: ns)).head? ≠ some '/' := by
    rw [head_joinSlash hn]
    obtain ⟨c, cs, rfl⟩ := List.exists_cons_of_ne_nil hn
    exact fun hc => h _ (List.mem_cons_self _ _) (by simp at hc; simp [hc])
  simp only [resolve, if_neg hhead]
  exact foldl_resolveChar_joinSlash_steps _ h cwd

/-- Resolved from `start`, `relpath(path, start)` names `path` again: the `..`
components climb from `start` to the common prefix, and the names below it lead down to
`path`. -/
theorem resolve_relpath (cwd : Comps) (hcwd : ∀ x ∈ cwd, IsName x) (path start : PyStr) :
    resolve (resolve cwd start) (relpath cwd path start) = resolve cwd path := by
  have hp := resolve_names cwd path hcwd
  unfold relpath
  dsimp only
  obtain ⟨⟨t1, ht1⟩, ⟨t2, ht2⟩⟩ := commonPrefix_prefix (resolve cwd start) (resolve cwd path)
  generalize resolve cwd start = s at ht1 ht2 ⊢
  generalize resolve cwd path = p at ht1 ht2 hp ⊢
  generalize commonPrefix s p = c at ht1 ht2 ⊢
  subst ht1 ht2
  simp only [List.length_append, Nat.add_sub_cancel_left, List.drop_left]
  split
  · next hrel =>
    obtain ⟨h1, rfl⟩ := List.append_eq_nil.1 hrel
    rw [List.replicate_eq_nil_iff] at h1
    rw [List.length_eq_zero.1 h1]
    simp [resolve, resolveChar, resolveStep]
  · next hrel =>
    have hcomp : ∀ m ∈ List.replicate t1.length ['.', '.'] ++ t2, m ≠ [] ∧ '/' ∉ m := by
      intro m hm
      rcases List.mem_append.1 hm with hm | hm
      · rw [(List.mem_replicate.1 hm).2]; decide
      · exact ⟨(hp m (List.mem_append_right _ hm)).1, (hp m (List.mem_append_right _ hm)).2.2.2⟩
    obtain ⟨n, ns, hnns⟩ := List.exists_cons_of_ne_nil hrel
    rw [hnns, resolve_joinSlash _ (hcomp n (hnns ▸ List.mem_cons_self _ _)).1 ns
      fun m hm => (hcomp m (hnns ▸ hm)).2, ← hnns, List.foldl_append, foldl_resolveStep_parent,
      foldl_resolveStep_names _ _ fun m hm => hp m (List.mem_append_right _ hm)]
    simp

/-- On names, `realpath` gives back the rendering. -/
theorem realpath_render (cwd cs : Comps) (h : ∀ n ∈ cs, IsName n) :
    realpath cwd (render cs) = render cs := by
  rw [realpath, resolve_render cwd cs h]

/-! ### `os.path.dirname` -/

/-- `p[:p.rfind('/') + 1]`: everything up to the last `/`. -/
def dirPart (p : PyStr) : PyStr := (p.reverse.dropWhile (· ≠ '/')).reverse

/-- What follows the last `/`. -/
def lastSeg (p : PyStr) : PyStr := (p.reverse.takeWhile (· ≠ '/')).reverse

/-- `os.path.dirname`: the head, with trailing slashes stripped unless it is all
slashes. -/
def dirname (p : PyStr) : PyStr :=
  let head := dirPart p
  if head ≠ [] ∧ ∃ c ∈ head, c ≠ '/' then (head.reverse.dropWhile (· = '/')).reverse else head

theorem dirPart_append_lastSeg (p : PyStr) : dirPart p ++ lastSeg p = p := by
  simp only [dirPart, lastSeg, ← List.reverse_append, List.takeWhile_append_dropWhile,
    List.reverse_reverse]

theorem slash_not_mem_lastSeg (p : PyStr) : '/' ∉ lastSeg p := by
  intro h
  simpa using List.mem_takeWhile_imp (List.mem_reverse.mp h)

theorem dirPart_cases (p : PyStr) : dirPart p = [] ∨ (dirPart p).getLast? = some '/' := by
  unfold dirPart
  rw [List.getLast?_reverse]
  have hw : ∀ w, (p.reverse.dropWhile (· ≠ '/')).head w = '/' := fun w => by
    simpa using List.head_dropWhile_not (fun x => decide (x ≠ '/')) p.reverse w
  cases h : p.reverse.dropWhile (· ≠ '/') with
  | nil => exact Or.inl rfl
  | cons c cs =>
    have := hw (by rw [h]; exact List.cons_ne_nil _ _)
    simp only [h, List.head_cons] at this
    simp [this]

/-- Appending a slash-free suffix of three or more characters to a path extends
its last name. -/
theorem resolve_append_suffix (cwd : Comps) (p x : PyStr) (hx : '/' ∉ x) (hl : 3 ≤ x.length) :
    resolve cwd (p ++ x) = dirComps cwd (dirPart p) ++ [lastSeg p ++ x] := by
  have hname : IsName (lastSeg p ++ x) := by
    refine ⟨?_, ?_, ?_, by simp [hx, slash_not_mem_lastSeg]⟩ <;> intro h <;>
      have := congrArg List.length h <;> simp only [List.length_append, List.length_cons,
        List.length_nil] at this <;> omega
  conv_lhs => rw [← dirPart_append_lastSeg p, List.append_assoc]
  rw [resolve_dir_append _ _ _ (dirPart_cases p) hname.2.2.2, resolveStep_name _ _ hname]

/-- A trailing slash does not change what a non-empty path resolves to. -/
theorem resolve_append_slash (cwd : Comps) (q : PyStr) (hq : q ≠ []) :
    resolve cwd (q ++ ['/']) = resolve cwd q := by
  simp only [resolve, List.head?_append_of_ne_nil _ hq, List.foldl_append, List.foldl_cons,
    List.foldl_nil, resolveChar, if_true, resolveStep_nil]

theorem resolve_append_slashes (cwd : Comps) (q : PyStr) (hq : q ≠ []) (k : Nat) :
    resolve cwd (q ++ List.replicate k '/') = resolve cwd q := by
  induction k with
  | zero => simp
  | succ k ih =>
    rw [List.replicate_succ', ← List.append_assoc,
      resolve_append_slash _ _ (by simp [hq]), ih]

/-- A path ending in a slash resolves to the directory part of its scan. -/
theorem resolve_of_getLast_slash (cwd : Comps) (d : PyStr) (h : d.getLast? = some '/') :
    resolve cwd d = dirComps cwd d := by
  obtain ⟨d', rfl⟩ := List.getLast?_eq_some_iff.mp h
  simp only [resolve, dirComps, foldl_resolveChar_slash, resolveStep_nil]

/-- `os.path.dirname` of a path resolves to the directory part `resolve` scans. -/
theorem resolve_dirname (cwd : Comps) (p : PyStr) :
    resolve cwd (dirname p) = dirComps cwd (dirPart p) := by
  have hlast : dirPart p ≠ [] → resolve cwd (dirPart p) = dirComps cwd (dirPart p) :=
    fun hne => resolve_of_getLast_slash _ _ ((dirPart_cases p).resolve_left hne)
  simp only [dirname]
  split_ifs with hh
  · have hT : ((dirPart p).reverse.takeWhile (· = '/')).reverse =
        List.replicate ((dirPart p).reverse.takeWhile (· = '/')).length '/' := by
      refine List.eq_replicate_iff.mpr ⟨by simp, fun b hb => ?_⟩
      simpa using List.mem_takeWhile_imp (List.mem_reverse.mp hb)
    have hsplit : dirPart p = ((dirPart p).reverse.dropWhile (· = '/')).reverse ++
        List.replicate ((dirPart p).reverse.takeWhile (· = '/')).length '/' := by
      rw [← hT, ← List.reverse_append, List.takeWhile_append_dropWhile, List.reverse_reverse]
    have hne : ((dirPart p).reverse.dropWhile (· = '/')).reverse ≠ [] := by
      intro h0
      obtain ⟨c, hc, hc'⟩ := hh.2
      rw [hsplit, h0, List.nil_append] at hc
      exact hc' (List.eq_of_mem_replicate hc)
    rw [← resolve_append_slashes cwd _ hne, ← hsplit, hlast hh.1]
  · by_cases hd : dirPart p = []
    · rw [hd]
      simp [resolve, dirComps]
    · exact hlast hd

/-- Two paths whose slash-free suffixes end in different characters resolve to
different files. -/
theorem resolve_append_ne (cwd : Comps) (p q x y : PyStr) (hx : '/' ∉ x) (hlx : 3 ≤ x.length)
    (hy : '/' ∉ y) (hly : 3 ≤ y.length) (hxy : x.getLast? ≠ y.getLast?) :
    resolve cwd (p ++ x) ≠ resolve cwd (q ++ y) := by
  rw [resolve_append_suffix _ _ _ hx hlx, resolve_append_suffix _ _ _ hy hly]
  intro h
  have hl := congrArg List.getLast? (append_singleton_inj h).2
  rw [List.getLast?_append_of_ne_nil _ (List.ne_nil_of_length_pos (by omega)),
    List.getLast?_append_of_ne_nil _ (List.ne_nil_of_length_pos (by omega))] at hl
  exact hxy hl

/-- A path with a slash-free suffix is never one of the directories above it. -/
theorem resolve_append_not_prefix (cwd : Comps) (p x : PyStr) (hx : '/' ∉ x) (hl : 3 ≤ x.length) :
    ¬ resolve cwd (p ++ x) <+: dirComps cwd (dirPart p) := by
  rw [resolve_append_suffix _ _ _ hx hl]
  intro h
  have := h.length_le
  simp only [List.length_append, List.length_singleton] at this
  omega

end SkipTools
