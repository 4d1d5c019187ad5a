import SkipTools.PosixPath
import Mathlib.Data.List.Nodup

/-! `list_test_files` and `files_with_ext` of tests/src/frontend/verify.py: the walk
that collects the `.sk` tests below a path, pruning `disabled`, `failing` and `todo`
and every entry disabled by a sibling with the disabled extension. -/

namespace SkipTools

mutual
/-- A node below the root of a test walk, as `os.path.isfile`, `isdir` and `islink`
tell them apart: a regular file, a directory with its entries in `os.listdir`
order, or a dangling link. -/
inductive Tree where
  | file
  | dir (entries : Entries)
  | link
/-- The entries of a directory, each a name and the node it names. -/
inductive Entries where
  | nil
  | cons (name : PyStr) (t : Tree) (rest : Entries)
end

def Entries.toList : Entries → List (PyStr × Tree)
  | .nil => []
  | .cons name t rest => (name, t) :: rest.toList

/-- `os.listdir(root)`. -/
def Entries.names (es : Entries) : List PyStr := es.toList.map Prod.fst

mutual
/-- Every name is a file name and the names of a directory are distinct. -/
def Tree.wf : Tree → Bool
  | .dir es => es.wf && es.names.Nodup
  | _ => true
def Entries.wf : Entries → Bool
  | .nil => true
  | .cons name t rest => decide (IsName name) && t.wf && rest.wf
end

/-- `files_with_ext(files, ext)`: the roots of the names whose extension is `ext`. -/
def filesWithExt (files : List PyStr) (ext : PyStr) : List PyStr :=
  files.filterMap fun f => if (splitext f).2 = ext then some (splitext f).1 else none

def reservedNames : List PyStr := ["disabled".toList, "failing".toList, "todo".toList]

mutual
/-- `list_test_files(root, disabled_ext)` on the node at `root`. -/
def listTestFiles (ext root : PyStr) : Tree → List PyStr
  | .file => if endswith root ".sk".toList then [root] else []
  | .dir es => listEntries ext root (filesWithExt es.names ext) es
  | .link => []
/-- The loop of `list_test_files` over the children of a directory. -/
def listEntries (ext root : PyStr) (disabled : List PyStr) : Entries → List PyStr
  | .nil => []
  | .cons child t rest =>
    (if child ∈ reservedNames then []
      else if child ∈ disabled then []
      else listTestFiles ext (join root child) t) ++ listEntries ext root disabled rest
end

theorem mem_listEntries (ext root : PyStr) (disabled : List PyStr) :
    ∀ (es : Entries) (p : PyStr), p ∈ listEntries ext root disabled es ↔
      ∃ name t, (name, t) ∈ es.toList ∧ name ∉ reservedNames ∧ name ∉ disabled ∧
        p ∈ listTestFiles ext (join root name) t
  | .nil, p => by simp [listEntries, Entries.toList]
  | .cons child t rest, p => by
    rw [listEntries, List.mem_append, mem_listEntries ext root disabled rest p]
    simp only [Entries.toList, List.mem_cons, Prod.mk.injEq]
    constructor
    · rintro (h | ⟨name, t', hm, hr, hd, hp⟩)
      · split_ifs at h with h1 h2
        · simp at h
        · simp at h
        · exact ⟨child, t, Or.inl ⟨rfl, rfl⟩, h1, h2, h⟩
      · exact ⟨name, t', Or.inr hm, hr, hd, hp⟩
    · rintro ⟨name, t', ⟨rfl, rfl⟩ | hm, hr, hd, hp⟩
      · left
        rw [if_neg hr, if_neg hd]
        exact hp
      · exact Or.inr ⟨name, t', hm, hr, hd, hp⟩

/-- With a dot-free extension, a name is disabled exactly when the name followed by
the extension is a sibling and the name has a character other than a dot: the
leading dots of a name never start its extension. -/
theorem mem_filesWithExt (files : List PyStr) (hf : ∀ f ∈ files, '/' ∉ f) (s : PyStr)
    (hs : '.' ∉ s) (child : PyStr) :
    child ∈ filesWithExt files ('.' :: s) ↔ child ++ '.' :: s ∈ files ∧ ∃ c ∈ child, c ≠ '.' := by
  have hsplit : ∀ f, (if (splitext f).2 = '.' :: s then some (splitext f).1 else none) =
      some child ↔ splitext f = (child, '.' :: s) := fun f => by
    split_ifs with h
    · simp only [Option.some_inj, Prod.ext_iff, h, and_true]
    · simp only [reduceCtorEq, false_iff]
      exact fun h' => h (by rw [h'])
  simp only [filesWithExt, List.mem_filterMap, hsplit]
  by_cases hsl : '/' ∈ s
  · refine ⟨fun ⟨f, _, h⟩ => ?_, fun h => absurd (List.mem_append_right _
      (List.mem_cons_of_mem _ hsl)) (hf _ h.1)⟩
    obtain ⟨s', hs', -, hsl', -⟩ := splitextGo_ext_spec false f (by
      simp only [splitext] at h; simp [h])
    simp only [splitext] at h
    rw [h, List.cons.injEq] at hs'
    exact absurd (hs'.2 ▸ hsl) hsl'
  · constructor
    · rintro ⟨f, hm, h⟩
      obtain ⟨rfl, hc⟩ := (splitext_name_eq_iff f child s (hf f hm) hs hsl).mp h
      exact ⟨hm, hc⟩
    · rintro ⟨hm, hc⟩
      exact ⟨_, hm, (splitext_name_eq_iff _ child s (hf _ hm) hs hsl).mpr ⟨rfl, hc⟩⟩

/-- The path `list_test_files` builds for the entry reached by `path` from `root`. -/
def joinAll (root : PyStr) (path : List PyStr) : PyStr := path.foldl join root

/-- The name of the entry reached by `path` from `root`: its last name, or `root`. -/
def lastName : PyStr → List PyStr → PyStr
  | root, [] => root
  | _, name :: path => lastName name path

/-- A walk from a node to a regular file that `list_test_files` enters: it passes no
entry named `disabled`, `failing` or `todo`, and no entry with a character other
than a dot whose name followed by `ext` is a sibling. -/
inductive Picks (ext : PyStr) : Tree → List PyStr → Prop
  | file : Picks ext .file []
  | enter {es : Entries} {name : PyStr} {t : Tree} {path : List PyStr} :
      (name, t) ∈ es.toList → name ∉ reservedNames →
      ¬ (name ++ ext ∈ es.names ∧ ∃ c ∈ name, c ≠ '.') → Picks ext t path →
      Picks ext (.dir es) (name :: path)

theorem Entries.wf_of_mem : ∀ (es : Entries), es.wf = true → ∀ name t, (name, t) ∈ es.toList →
    IsName name ∧ t.wf = true
  | .nil, _, _, _, h => by simp [Entries.toList] at h
  | .cons n t rest, hwf, name, t', h => by
    simp only [Entries.wf, Bool.and_eq_true, decide_eq_true_eq] at hwf
    rcases List.mem_cons.mp h with h | h
    · obtain ⟨rfl, rfl⟩ := Prod.mk.inj h
      exact ⟨hwf.1.1, hwf.1.2⟩
    · exact Entries.wf_of_mem rest hwf.2 name t' h

/-- `os.path.join` onto a file name appends the name to the directory part,
which is empty or ends in a slash. -/
theorem join_of_name (r n : PyStr) (hn : IsName n) : join r n = join r [] ++ n := by
  have : n.head? ≠ some '/' := by
    cases n with
    | nil => simp
    | cons c cs =>
      simp only [List.head?_cons, ne_eq, Option.some.injEq]
      exact fun h => hn.2.2.2 (h ▸ List.mem_cons_self _ _)
  unfold join
  simp only [this, if_false, List.head?_nil, reduceCtorEq]
  split_ifs <;> simp

theorem join_nil_cases (r : PyStr) : join r [] = [] ∨ (join r []).getLast? = some '/' := by
  unfold join
  split_ifs with h1 h2 <;> simp_all

/-- A name ends in a suffix with no slash exactly when the path joining it to any
directory does. -/
theorem endswith_join (r n t : PyStr) (hn : IsName n) (ht : '/' ∉ t) :
    endswith (join r n) t = endswith n t := by
  rw [join_of_name r n hn]
  unfold endswith
  rw [Bool.eq_iff_iff, List.isSuffixOf_iff_suffix, List.isSuffixOf_iff_suffix]
  refine ⟨fun ⟨u, hu⟩ => ?_, fun h => h.trans (List.suffix_append _ _)⟩
  rcases List.append_eq_append_iff.mp hu with ⟨a, h1, h2⟩ | ⟨c, -, h2⟩
  · rcases List.eq_nil_or_concat a with rfl | ⟨a', x, rfl⟩
    · simp [h2]
    · have hx : (join r []).getLast? = some x := by rw [h1]; simp
      rcases join_nil_cases r with hR | hR
      · simp [hR] at hx
      · rw [hR, Option.some_inj] at hx
        subst hx
        exact absurd (h2 ▸ by simp) ht
  · exact ⟨c, h2.symm⟩

theorem endswith_lastName_join (r n t : PyStr) (path : List PyStr) (hn : IsName n)
    (ht : '/' ∉ t) : endswith (lastName (join r n) path) t = endswith (lastName n path) t := by
  cases path with
  | nil => exact endswith_join r n t hn ht
  | cons m path => rfl

mutual
/-- The paths `list_test_files` returns are those of the files a walk picks whose
name ends in `.sk`. -/
theorem mem_listTestFiles (s : PyStr) (hs : '.' ∉ s) :
    ∀ (root : PyStr) (t : Tree), t.wf = true → ∀ p : PyStr,
      p ∈ listTestFiles ('.' :: s) root t ↔
        ∃ path, Picks ('.' :: s) t path ∧ endswith (lastName root path) ".sk".toList = true ∧
          p = joinAll root path
  | root, .file, _, p => by
    simp only [listTestFiles]
    constructor
    · intro h
      split_ifs at h with he
      · exact ⟨[], .file, he, List.mem_singleton.mp h⟩
      · simp at h
    · rintro ⟨path, hpk, he, rfl⟩
      cases hpk
      rw [if_pos (show endswith root ".sk".toList = true from he)]
      exact List.mem_singleton_self _
  | root, .link, _, p => by
    simp only [listTestFiles, List.not_mem_nil, false_iff, not_exists, not_and]
    intro path hpk
    cases hpk
  | root, .dir es, hwf, p => by
    simp only [Tree.wf, Bool.and_eq_true] at hwf
    have hnames : ∀ f ∈ es.names, '/' ∉ f := fun f hf => by
      obtain ⟨⟨n, t⟩, hm, rfl⟩ := List.mem_map.mp hf
      exact (Entries.wf_of_mem es hwf.1 n t hm).1.2.2.2
    rw [listTestFiles, mem_listEntries]
    constructor
    · rintro ⟨name, t, hm, hr, hd, hp⟩
      have hn := (Entries.wf_of_mem es hwf.1 name t hm).1
      obtain ⟨path, hpk, he, rfl⟩ :=
        (children_mem s hs es hwf.1 name t hm (join root name) p).mp hp
      refine ⟨name :: path,
        .enter hm hr (fun h => hd ((mem_filesWithExt _ hnames s hs name).mpr h)) hpk, ?_, rfl⟩
      rwa [endswith_lastName_join root name _ path hn (by decide)] at he
    · rintro ⟨path, hpk, he, rfl⟩
      cases hpk with
      | @enter _ name t path' hm hr hd hpk' =>
        have hn := (Entries.wf_of_mem es hwf.1 name t hm).1
        refine ⟨name, t, hm, hr, fun h => hd ((mem_filesWithExt _ hnames s hs _).mp h),
          (children_mem s hs es hwf.1 _ _ hm _ _).mpr ⟨path', hpk', ?_, rfl⟩⟩
        rwa [endswith_lastName_join root name _ path' hn (by decide)]

/-- `mem_listTestFiles` for every node of a directory. -/
theorem children_mem (s : PyStr) (hs : '.' ∉ s) :
    ∀ (es : Entries), es.wf = true → ∀ name t, (name, t) ∈ es.toList → ∀ (root p : PyStr),
      p ∈ listTestFiles ('.' :: s) root t ↔
        ∃ path, Picks ('.' :: s) t path ∧ endswith (lastName root path) ".sk".toList = true ∧
          p = joinAll root path
  | .nil, _, _, _, h, _, _ => by simp [Entries.toList] at h
  | .cons n t rest, hwf, name, t', h, root, p => by
    simp only [Entries.wf, Bool.and_eq_true] at hwf
    rcases List.mem_cons.mp h with h | h
    · rw [(Prod.mk.inj h).2]
      exact mem_listTestFiles s hs root t hwf.1.2 p
    · exact children_mem s hs rest hwf.2 name t' h root p
end

theorem Picks.names {ext : PyStr} {t : Tree} {path : List PyStr} (h : Picks ext t path)
    (hwf : t.wf = true) : ∀ x ∈ path, IsName x := by
  induction h with
  | file => simp
  | @enter es name t path hm _ _ _ ih =>
    simp only [Tree.wf, Bool.and_eq_true] at hwf
    obtain ⟨hn, ht⟩ := Entries.wf_of_mem es hwf.1 name t hm
    intro x hx
    rcases List.mem_cons.mp hx with rfl | hx
    exacts [hn, ih ht x hx]

theorem join_join_nil (r n : PyStr) (hn : IsName n) : join (join r n) [] = join r n ++ ['/'] := by
  have hlast : (join r n).getLast? = n.getLast? := by
    rw [join_of_name r n hn, List.getLast?_append_of_ne_nil _ hn.1]
  have hne : join r n ≠ [] := by rw [join_of_name r n hn]; simp [hn.1]
  have hsl : n.getLast? ≠ some '/' := fun h => hn.2.2.2 (List.mem_of_getLast?_eq_some h)
  unfold join
  simp only [List.head?_nil, reduceCtorEq, if_false]
  rw [if_neg (by rw [← join, hlast]; exact not_or.mpr ⟨hne, hsl⟩)]

/-- The path to an entry below `r` is the directory part of `r`, the entry's name,
and then nothing or a slash. -/
theorem joinAll_cons (r n : PyStr) (path : List PyStr) (hn : IsName n)
    (hp : ∀ x ∈ path, IsName x) :
    ∃ S, joinAll r (n :: path) = join r [] ++ n ++ S ∧ (S = [] ∨ S.head? = some '/') := by
  induction path generalizing r n with
  | nil => exact ⟨[], by simp [joinAll, join_of_name r n hn]⟩
  | cons m path ih =>
    have hm := hp m (List.mem_cons_self _ _)
    obtain ⟨S, hS, -⟩ := ih (join r n) m hm (fun x hx => hp x (List.mem_cons_of_mem _ hx))
    refine ⟨'/' :: m ++ S, ?_, by simp⟩
    have : joinAll r (n :: m :: path) = joinAll (join r n) (m :: path) := rfl
    rw [this, hS, join_join_nil r n hn, join_of_name r n hn]
    simp

theorem name_append_inj (n n' S S' : PyStr) (hn : '/' ∉ n) (hn' : '/' ∉ n')
    (hS : S = [] ∨ S.head? = some '/') (hS' : S' = [] ∨ S'.head? = some '/')
    (h : n ++ S = n' ++ S') : n = n' := by
  have hstop : ∀ T : PyStr, (T = [] ∨ T.head? = some '/') → T.takeWhile (· ≠ '/') = [] := by
    rintro (_ | ⟨c, T⟩) hT
    · rfl
    · simp only [List.head?_cons, Option.some.injEq, reduceCtorEq, false_or] at hT
      simp [hT]
  have hall : ∀ m : PyStr, '/' ∉ m → ∀ a ∈ m, decide (a ≠ '/') = true :=
    fun m hm a ha => decide_eq_true fun h => hm (h ▸ ha)
  have := congrArg (List.takeWhile (· ≠ '/')) h
  rwa [List.takeWhile_append_of_pos (hall n hn), List.takeWhile_append_of_pos (hall n' hn'),
    hstop S hS, hstop S' hS', List.append_nil, List.append_nil] at this

theorem length_le_join_nil (r : PyStr) : r.length ≤ (join r []).length := by
  unfold join
  split_ifs <;> simp_all

/-- Different walks of names give different paths. -/
theorem joinAll_inj : ∀ (r : PyStr) (p p' : List PyStr), (∀ x ∈ p, IsName x) →
    (∀ x ∈ p', IsName x) → joinAll r p = joinAll r p' → p = p'
  | _, [], [], _, _, _ => rfl
  | r, [], n :: q, _, hp', h => by
    obtain ⟨S, hS, -⟩ := joinAll_cons r n q (hp' n (List.mem_cons_self _ _))
      (fun x hx => hp' x (List.mem_cons_of_mem _ hx))
    have hlen := length_le_join_nil r
    have := congrArg List.length (h.trans hS)
    simp only [joinAll, List.foldl_nil, List.length_append] at this
    have := (hp' n (List.mem_cons_self _ _)).1
    have := List.length_pos.mpr this
    omega
  | r, n :: q, [], hp, _, h => by
    obtain ⟨S, hS, -⟩ := joinAll_cons r n q (hp n (List.mem_cons_self _ _))
      (fun x hx => hp x (List.mem_cons_of_mem _ hx))
    have hlen := length_le_join_nil r
    have := congrArg List.length (h.symm.trans hS)
    simp only [joinAll, List.foldl_nil, List.length_append] at this
    have := List.length_pos.mpr (hp n (List.mem_cons_self _ _)).1
    omega
  | r, n :: q, n' :: q', hp, hp', h => by
    have hn := hp n (List.mem_cons_self _ _)
    have hn' := hp' n' (List.mem_cons_self _ _)
    obtain ⟨S, hS, hS0⟩ := joinAll_cons r n q hn (fun x hx => hp x (List.mem_cons_of_mem _ hx))
    obtain ⟨S', hS', hS0'⟩ := joinAll_cons r n' q' hn'
      (fun x hx => hp' x (List.mem_cons_of_mem _ hx))
    have hnn : n = n' := by
      rw [hS, hS', List.append_assoc, List.append_assoc] at h
      exact name_append_inj n n' S S' hn.2.2.2 hn'.2.2.2 hS0 hS0' (List.append_cancel_left h)
    subst hnn
    rw [joinAll_inj (join r n) q q' (fun x hx => hp x (List.mem_cons_of_mem _ hx))
      (fun x hx => hp' x (List.mem_cons_of_mem _ hx)) h]

mutual
theorem listTestFiles_nodup (s : PyStr) (hs : '.' ∉ s) :
    ∀ (root : PyStr) (t : Tree), t.wf = true → (listTestFiles ('.' :: s) root t).Nodup
  | root, .file, _ => by
    simp only [listTestFiles]
    split_ifs
    exacts [List.nodup_singleton _, List.nodup_nil]
  | _, .link, _ => List.nodup_nil
  | root, .dir es, hwf => by
    simp only [Tree.wf, Bool.and_eq_true, decide_eq_true_eq] at hwf
    exact listEntries_nodup s hs root _ es hwf.1 hwf.2

/-- Entries with different names contribute different paths. -/
theorem listEntries_nodup (s : PyStr) (hs : '.' ∉ s) :
    ∀ (root : PyStr) (disabled : List PyStr) (es : Entries), es.wf = true → es.names.Nodup →
      (listEntries ('.' :: s) root disabled es).Nodup
  | _, _, .nil, _, _ => List.nodup_nil
  | root, disabled, .cons n t rest, hwf, hnd => by
    simp only [Entries.wf, Bool.and_eq_true, decide_eq_true_eq] at hwf
    simp only [Entries.names, Entries.toList, List.map_cons, List.nodup_cons] at hnd
    have hA := listTestFiles_nodup s hs (join root n) t hwf.1.2
    rw [listEntries, List.nodup_append]
    refine ⟨by split_ifs <;> simp [hA], listEntries_nodup s hs root disabled rest hwf.2 hnd.2, ?_⟩
    intro p hpA hpB
    have hpA' : p ∈ listTestFiles ('.' :: s) (join root n) t := by
      split_ifs at hpA <;> first | exact hpA | exact absurd hpA (List.not_mem_nil p)
    obtain ⟨path, hpk, -, rfl⟩ := (mem_listTestFiles s hs _ t hwf.1.2 p).mp hpA'
    obtain ⟨n', t', hm', -, -, hpB'⟩ := (mem_listEntries _ root disabled rest _).mp hpB
    obtain ⟨hn', ht'⟩ := Entries.wf_of_mem rest hwf.2 n' t' hm'
    obtain ⟨path', hpk', -, hp'⟩ := (mem_listTestFiles s hs _ t' ht' _).mp hpB'
    have heq := joinAll_inj root (n :: path) (n' :: path')
      (List.forall_mem_cons.mpr ⟨hwf.1.1, hpk.names hwf.1.2⟩)
      (List.forall_mem_cons.mpr ⟨hn', hpk'.names ht'⟩) hp'
    rw [(List.cons.inj heq).1] at hnd
    exact hnd.1 (List.mem_map_of_mem Prod.fst hm')
end

/-- `list_test_files(root, '.' + s)` on a tree with a dot-free `s` lists, once each,
the paths of the regular files a walk picks whose name ends in `.sk`. -/
theorem list_test_files_exact (s : PyStr) (hs : '.' ∉ s) (root : PyStr) (t : Tree)
    (hwf : t.wf = true) :
    (listTestFiles ('.' :: s) root t).Nodup ∧
    (∀ path path', Picks ('.' :: s) t path → Picks ('.' :: s) t path' →
      joinAll root path = joinAll root path' → path = path') ∧
    ∀ p, p ∈ listTestFiles ('.' :: s) root t ↔
      ∃ path, Picks ('.' :: s) t path ∧ endswith (lastName root path) ".sk".toList = true ∧
        p = joinAll root path :=
  ⟨listTestFiles_nodup s hs root t hwf,
    fun path path' h h' => joinAll_inj root path path' (h.names hwf) (h'.names hwf),
    mem_listTestFiles s hs root t hwf⟩

/-- A suite with a disabled test and a pruned `todo` directory. -/
def sampleSuite : Tree :=
  .dir (.cons "a.sk".toList .file (.cons "a.sk.no_typecheck".toList .file
    (.cons "b.sk".toList .file (.cons "todo".toList (.dir (.cons "c.sk".toList .file .nil))
      .nil))))

example : listTestFiles ".no_typecheck".toList "t".toList sampleSuite = ["t/b.sk".toList] := by
  decide

theorem sample_suite_listed :
    '.' ∉ "no_typecheck".toList ∧ sampleSuite.wf = true ∧
    ((listTestFiles ('.' :: "no_typecheck".toList) "t".toList sampleSuite).Nodup ∧
    (∀ path path', Picks ('.' :: "no_typecheck".toList) sampleSuite path →
      Picks ('.' :: "no_typecheck".toList) sampleSuite path' →
      joinAll "t".toList path = joinAll "t".toList path' → path = path') ∧
    ∀ p, p ∈ listTestFiles ('.' :: "no_typecheck".toList) "t".toList sampleSuite ↔
      ∃ path, Picks ('.' :: "no_typecheck".toList) sampleSuite path ∧
        endswith (lastName "t".toList path) ".sk".toList = true ∧ p = joinAll "t".toList path) :=
  ⟨by decide, by decide, list_test_files_exact _ (by decide) _ _ (by decide)⟩

/-- A directory named `...` next to `....no_typecheck`: the name followed by the
extension is a sibling, yet `splitext('....no_typecheck')` has no extension, so the
test below it is listed. -/
theorem dot_name_not_disabled :
    "...".toList ++ ".no_typecheck".toList = "....no_typecheck".toList ∧
    listTestFiles ".no_typecheck".toList "t".toList
      (.dir (.cons "...".toList (.dir (.cons "a.sk".toList .file .nil))
        (.cons "....no_typecheck".toList .file .nil))) = ["t/.../a.sk".toList] := by
  decide

end SkipTools
