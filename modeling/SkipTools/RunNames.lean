import SkipTools.PosixPath

/-! The artifact names of `RunCommand` in common.py: the checkout layout of the
module constants, `backendName`, `_computeDstWithoutExt` and the five names of
`_computeFilenames`. -/

namespace SkipTools

/-- The host a harness process runs on: the module constants of common.py, all
derived from `source_dir` (three levels above common.py), and the working
directory. -/
structure Host where
  source : Comps
  cwd : Comps
  source_names : ∀ n ∈ source, IsName n
  cwd_names : ∀ n ∈ cwd, IsName n

namespace Host

def sourceDir (H : Host) : PyStr := render H.source

/-- `phase = os.path.basename(source_dir)`. -/
def phase (H : Host) : PyStr := H.source.getLast?.getD []

/-- `build_dir = normpath(source_dir + '/../build')`. -/
def build (H : Host) : Comps := H.source.dropLast ++ ["build".toList]

/-- `binary_dir = normpath(join(build_dir, phase))`. -/
def binary (H : Host) : Comps := if H.phase = [] then H.build else H.build ++ [H.phase]

def binaryDir (H : Host) : PyStr := render H.binary

end Host

/-- The host of a common.py whose `__file__` resolves to `file`. -/
def hostOf (file cwd : Comps) (h : ∀ n ∈ file, IsName n) (hc : ∀ n ∈ cwd, IsName n) : Host :=
  ⟨file.dropLast.dropLast.dropLast, cwd, fun n hn =>
    h n (List.dropLast_subset _ (List.dropLast_subset _ (List.dropLast_subset _ hn))), hc⟩

/-- `backendName(name, ext, backend)`; a falsy backend (`None` or `''`) is `[]`. -/
def backendName (name ext backend : PyStr) : PyStr :=
  if backend = [] then name ++ '.' :: ext else name ++ '.' :: backend ++ '.' :: ext

/-- `sourceRelativePath(path)`. -/
def sourceRelativePath (H : Host) (path : PyStr) : PyStr :=
  relpath H.cwd (realpath H.cwd path) (realpath H.cwd H.sourceDir)

/-- The test of `_computeDstWithoutExt` for a test already in the binary
directory: `os.path.commonprefix((binReal, testReal)) == binReal`. -/
def inBinaryDir (H : Host) (test : PyStr) : Bool :=
  commonPrefix (realpath H.cwd H.binaryDir) (realpath H.cwd test) = realpath H.cwd H.binaryDir

/-- `RunCommand._computeDstWithoutExt(test)`. -/
def computeDstWithoutExt (H : Host) (test : PyStr) : PyStr :=
  let path := if inBinaryDir H test then test
    else join H.binaryDir (sourceRelativePath H test)
  (splitext path).1

/-- The five artifact names `_computeFilenames` derives from the destination. -/
structure ArtifactNames where
  res : PyStr
  stdout : PyStr
  stderr : PyStr
  testok : PyStr
  failing : PyStr
  deriving DecidableEq, Repr

def artifactNames (H : Host) (test backend : PyStr) : ArtifactNames :=
  let dstWe := computeDstWithoutExt H test
  { res := backendName dstWe "res".toList backend
    stdout := backendName dstWe "out".toList backend
    stderr := backendName dstWe "err".toList backend
    testok := backendName dstWe "testok".toList backend
    failing := backendName dstWe "testfail".toList backend }

def ArtifactNames.toList (a : ArtifactNames) : List PyStr :=
  [a.res, a.stdout, a.stderr, a.testok, a.failing]

/-- The extensions of the five artifacts, in `_computeFilenames` order. -/
def artifactExts : List PyStr := ["res".toList, "out".toList, "err".toList,
  "testok".toList, "testfail".toList]

theorem artifactNames_toList (H : Host) (test backend : PyStr) :
    (artifactNames H test backend).toList =
      artifactExts.map (backendName (computeDstWithoutExt H test) · backend) := rfl

theorem backendName_eq_append (name ext backend : PyStr) :
    backendName name ext backend = name ++ backendName [] ext backend := by
  unfold backendName
  split <;> simp

theorem backendName_eq_append_ext (name ext backend : PyStr) :
    backendName name ext backend = backendName name [] backend ++ ext := by
  unfold backendName
  split <;> simp

/-- A path with a slash-free suffix is not an artifact when the suffix ends in
another character than the artifact's extension. -/
theorem resolve_ne_backendName (cwd : Comps) (p x name e backend : PyStr) (hx : '/' ∉ x)
    (hlx : 3 ≤ x.length) (he : '/' ∉ e) (hle : 3 ≤ e.length) (hxe : x.getLast? ≠ e.getLast?) :
    resolve cwd (p ++ x) ≠ resolve cwd (backendName name e backend) := by
  rw [backendName_eq_append_ext]
  exact resolve_append_ne cwd _ _ _ _ hx hlx he hle hxe

/-- A list that gains `x` at the end and `y` at the front is constant, so `x = y`. -/
theorem append_singleton_eq_cons {α : Type} (l : List α) (x y : α) (h : l ++ [x] = y :: l) :
    x = y := by
  induction l generalizing y with
  | nil => simpa using h
  | cons a l ih =>
    obtain ⟨rfl, h'⟩ := List.cons_eq_cons.mp h
    exact ih a h'

/-! ### The layout -/

namespace Host

theorem phase_name (H : Host) (h : H.phase ≠ []) : IsName H.phase := by
  unfold phase at h ⊢
  cases hs : H.source.getLast? with
  | none => simp [hs] at h
  | some l => exact H.source_names l (List.mem_of_getLast?_eq_some hs)

theorem binary_names (H : Host) : ∀ n ∈ H.binary, IsName n := by
  have hb : ∀ n ∈ H.build, IsName n := by
    intro n hn
    rcases List.mem_append.mp hn with hn | hn
    · exact H.source_names n (List.dropLast_subset _ hn)
    · simp only [List.mem_singleton] at hn
      subst hn
      decide
  unfold binary
  split
  · exact hb
  · next hp =>
    intro n hn
    rcases List.mem_append.mp hn with hn | hn
    · exact hb n hn
    · simp only [List.mem_singleton] at hn
      exact hn ▸ H.phase_name hp

theorem binary_ne_nil (H : Host) : H.binary ≠ [] := by
  unfold binary build
  split <;> simp

/-- The binary directory by the shape of `source_dir`: `build` in place of its last
name, followed by that name. -/
theorem binary_cases (H : Host) : (H.source = [] ∧ H.binary = ["build".toList]) ∨
    ∃ S p, H.source = S ++ [p] ∧ H.binary = S ++ ["build".toList, p] := by
  unfold binary build phase
  rcases List.eq_nil_or_concat H.source with h | ⟨S, p, h⟩
  · simp [h]
  · rw [List.concat_eq_append] at h
    have hp : p ≠ [] := (H.source_names p (by rw [h]; simp)).1
    exact Or.inr ⟨S, p, h, by simp [h, hp]⟩

theorem binary_length (H : Host) : H.binary.length = H.source.length + 1 := by
  rcases H.binary_cases with ⟨h, hb⟩ | ⟨S, p, h, hb⟩ <;> simp [h, hb]

/-- A path below `source_dir` is never the same depth below `binary_dir`: that would
need a last name `build`. -/
theorem source_append_ne_binary (H : Host) (D : Comps) (z : PyStr) (hz : z ≠ "build".toList) :
    H.source ++ (D ++ [z]) ≠ H.binary ++ D := by
  intro he
  rcases H.binary_cases with ⟨h, hb⟩ | ⟨S, p, h, hb⟩ <;> rw [h, hb] at he
  · exact hz (append_singleton_eq_cons D z _ (by simpa using he))
  · simp only [List.append_assoc, List.append_cancel_left_eq, List.singleton_append,
      List.cons_append, List.cons.injEq] at he
    obtain ⟨rfl, he⟩ := he
    exact hz (append_singleton_eq_cons D z _ he)

end Host

/-! ### Artifacts of a test -/

/-- A test path: its file name ends in `.sk` after at least one character that is
not a dot, so that `splitext` cuts exactly the `.sk`. -/
def IsTestPath (t : PyStr) : Prop :=
  ∃ d n, t = d ++ n ++ ".sk".toList ∧ (d = [] ∨ d.getLast? = some '/') ∧ '/' ∉ n ∧
    ∃ c ∈ n, c ≠ '.'

/-- A path whose real path lies strictly below `source_dir`. -/
def BelowSource (H : Host) (t : PyStr) : Prop :=
  ∃ rest, rest ≠ [] ∧ resolve H.cwd t = H.source ++ rest

theorem seenAfter_dir (d n : PyStr) (hd : d = [] ∨ d.getLast? = some '/') :
    seenAfter false (d ++ n) = seenAfter false n := by
  rcases hd with rfl | hl
  · rfl
  · obtain ⟨d', rfl⟩ := List.getLast?_eq_some_iff.mp hl
    simpa using seenAfter_append_slash false d' n

theorem splitext_test (d n : PyStr) (hd : d = [] ∨ d.getLast? = some '/') (hn : '/' ∉ n)
    (hc : ∃ c ∈ n, c ≠ '.') : splitext (d ++ n ++ ".sk".toList) = (d ++ n, ".sk".toList) :=
  splitextGo_ext false (d ++ n) "sk".toList (by decide) (by decide) (by
    rw [seenAfter_dir d n hd, seenAfter_of_no_slash _ _ hn]
    simpa using hc)

theorem name_append_ext (n e : PyStr) (hn : '/' ∉ n) (he : '/' ∉ e) (hl : 3 ≤ e.length) :
    IsName (n ++ e) := by
  refine ⟨?_, ?_, ?_, by simp [hn, he]⟩ <;> intro h <;>
    have := congrArg List.length h <;> simp only [List.length_append, List.length_cons,
      List.length_nil] at this <;> omega

theorem name_append_artifact (n backend e : PyStr) (hn : '/' ∉ n) (hb : '/' ∉ backend)
    (he : e ∈ artifactExts) : IsName (n ++ backendName [] e backend) := by
  have he' : '/' ∉ e ∧ 3 ≤ e.length := by
    simp only [artifactExts, List.mem_cons, List.mem_singleton, List.not_mem_nil,
      or_false] at he
    rcases he with rfl | rfl | rfl | rfl | rfl <;> decide
  apply name_append_ext n _ hn
  · unfold backendName; split <;> simp [hb, he'.1]
  · unfold backendName; split <;> simp <;> omega

/-- A file name with a slash-free suffix resolves against its directory part. -/
theorem resolve_dir_name (cwd : Comps) (d n x : PyStr) (hd : d = [] ∨ d.getLast? = some '/')
    (hn : '/' ∉ n) (hx : '/' ∉ x) (hl : 3 ≤ x.length) :
    resolve cwd (d ++ n ++ x) = dirComps cwd d ++ [n ++ x] := by
  rw [List.append_assoc, resolve_dir_append cwd d _ hd (by simp [hn, hx]),
    resolveStep_name _ _ (name_append_ext n _ hn hx hl)]

/-- A test path resolves to its directory part and its file name. -/
theorem resolve_test (cwd : Comps) (d n : PyStr) (hd : d = [] ∨ d.getLast? = some '/')
    (hn : '/' ∉ n) : resolve cwd (d ++ n ++ ".sk".toList) = dirComps cwd d ++ [n ++ ".sk".toList] :=
  resolve_dir_name cwd d n _ hd hn (by decide) (by decide)

theorem computeDst_binary (H : Host) (d n : PyStr) (hd : d = [] ∨ d.getLast? = some '/')
    (hn : '/' ∉ n) (hc : ∃ c ∈ n, c ≠ '.') (hin : inBinaryDir H (d ++ n ++ ".sk".toList) = true) :
    computeDstWithoutExt H (d ++ n ++ ".sk".toList) = d ++ n := by
  simp only [computeDstWithoutExt, hin, if_true, splitext_test d n hd hn hc]

/-- Outside the binary directory, a test below `source_dir` is mirrored below
`binary_dir`. -/
theorem computeDst_mirror (H : Host) (t n : PyStr) (rest : Comps) (hn : '/' ∉ n)
    (hc : ∃ c ∈ n, c ≠ '.') (hin : inBinaryDir H t = false)
    (ht : resolve H.cwd t = H.source ++ (rest ++ [n ++ ".sk".toList])) :
    computeDstWithoutExt H t = render (H.binary ++ rest ++ [n]) := by
  have hnames := resolve_names H.cwd t H.cwd_names
  have hrest : ∀ x ∈ rest ++ [n ++ ".sk".toList], IsName x :=
    fun x hx => hnames x (ht ▸ List.mem_append_right _ hx)
  have hrel : sourceRelativePath H t = joinSlash (rest ++ [n ++ ".sk".toList]) := by
    apply relpath_of_below _ _ _ _ (by simp)
    rw [realpath, resolve_render _ _ hnames, Host.sourceDir, realpath_render _ _ H.source_names,
      resolve_render _ _ H.source_names, ht]
  have hpath : join H.binaryDir (sourceRelativePath H t) =
      (render (H.binary ++ rest) ++ ['/']) ++ n ++ ".sk".toList := by
    rw [hrel, Host.binaryDir, join_render _ _ H.binary_ne_nil (by simp) H.binary_names hrest,
      ← List.append_assoc, render_append_single _ _ (by simp [H.binary_ne_nil])]
    simp
  have hsplit := splitext_test (render (H.binary ++ rest) ++ ['/']) n (by simp) hn hc
  simp only [computeDstWithoutExt, hin, Bool.false_eq_true, if_false, hpath, hsplit]
  rw [render_append_single _ _ (by simp [H.binary_ne_nil])]
  simp

/-- In the mirror branch a sibling of the destination lies below `binary_dir`, in
the directory `ensureDirPathExists` makes. -/
theorem resolve_mirror_sibling (H : Host) (t n : PyStr) (rest : Comps) (hn : '/' ∉ n)
    (hc : ∃ c ∈ n, c ≠ '.') (hin : inBinaryDir H t = false)
    (ht : resolve H.cwd t = H.source ++ (rest ++ [n ++ ".sk".toList])) (x : PyStr)
    (hx : '/' ∉ x) (hl : 3 ≤ x.length) :
    resolve H.cwd (computeDstWithoutExt H t ++ x) = H.binary ++ rest ++ [n ++ x] ∧
      dirComps H.cwd (dirPart (computeDstWithoutExt H t)) = H.binary ++ rest := by
  have hnames := resolve_names H.cwd t H.cwd_names
  rw [ht] at hnames
  have hall : ∀ y ∈ H.binary ++ rest ++ [n ++ x], IsName y := by
    intro y hy
    simp only [List.mem_append, List.mem_singleton] at hy
    rcases hy with (hy | hy) | rfl
    · exact H.binary_names y hy
    · exact hnames y (by simp [hy])
    · exact name_append_ext n x hn hx hl
  have h2 : resolve H.cwd (computeDstWithoutExt H t ++ x) = H.binary ++ rest ++ [n ++ x] := by
    rw [computeDst_mirror H t n rest hn hc hin ht, render_append_last, resolve_render _ _ hall]
  have h1 := resolve_append_suffix H.cwd (computeDstWithoutExt H t) x hx hl
  exact ⟨h2, (append_singleton_inj (h1.symm.trans h2)).1⟩

theorem resolve_artifact_binary (H : Host) (d n backend e : PyStr)
    (hd : d = [] ∨ d.getLast? = some '/') (hn : '/' ∉ n) (hb : '/' ∉ backend)
    (he : e ∈ artifactExts) :
    resolve H.cwd (backendName (d ++ n) e backend) =
      dirComps H.cwd d ++ [n ++ backendName [] e backend] := by
  rw [backendName_eq_append, List.append_assoc,
    resolve_dir_append _ d _ hd (name_append_artifact n backend e hn hb he).2.2.2,
    resolveStep_name _ _ (name_append_artifact n backend e hn hb he)]

theorem resolve_artifact_mirror (H : Host) (cs : Comps) (n backend e : PyStr)
    (hcs : ∀ x ∈ cs, IsName x) (hn : '/' ∉ n) (hb : '/' ∉ backend) (he : e ∈ artifactExts) :
    resolve H.cwd (backendName (render (cs ++ [n])) e backend) =
      cs ++ [n ++ backendName [] e backend] := by
  rw [backendName_eq_append, render_append_last, resolve_render]
  intro x hx
  rcases List.mem_append.mp hx with hx | hx
  · exact hcs x hx
  · exact (List.mem_singleton.mp hx) ▸ name_append_artifact n backend e hn hb he

/-- The five artifact extensions end in five different characters, so the
artifact suffix determines the file name in front of it. -/
theorem artifact_suffix_inj (n1 n2 backend e1 e2 : PyStr) (he1 : e1 ∈ artifactExts)
    (he2 : e2 ∈ artifactExts)
    (h : n1 ++ backendName [] e1 backend = n2 ++ backendName [] e2 backend) :
    e1 = e2 ∧ n1 = n2 := by
  have hne : ∀ e ∈ artifactExts, e ≠ [] := by decide
  have hlast : e1.getLast? = e2.getLast? := by
    have := congrArg List.getLast? h
    unfold backendName at this
    split at this <;> simpa [List.getLast?_append, hne e1 he1, hne e2 he2,
      List.getLast?_eq_getLast] using this
  have he : e1 = e2 := by
    simp only [artifactExts, List.mem_cons, List.mem_singleton, List.not_mem_nil,
      or_false] at he1 he2
    rcases he1 with rfl | rfl | rfl | rfl | rfl <;> rcases he2 with rfl | rfl | rfl | rfl | rfl <;>
      first | rfl | exact absurd hlast (by decide)
  subst he
  exact ⟨rfl, List.append_cancel_right h⟩

/-- How a test and its artifacts resolve: one directory part `base` and one file
name `n`, below `pre` for the test and below `pre'` for the artifacts. -/
def ArtifactShape (H : Host) (t backend : PyStr) (pre pre' : Comps) : Prop :=
  ∃ base n, resolve H.cwd t = pre ++ base ++ [n ++ ".sk".toList] ∧
    ∀ e ∈ artifactExts, resolve H.cwd (backendName (computeDstWithoutExt H t) e backend) =
      pre' ++ base ++ [n ++ backendName [] e backend]

theorem shape_binary (H : Host) (t backend : PyStr) (hb : '/' ∉ backend) (ht : IsTestPath t)
    (hin : inBinaryDir H t = true) : ArtifactShape H t backend [] [] := by
  obtain ⟨d, n, rfl, hd, hn, hc⟩ := ht
  refine ⟨dirComps H.cwd d, n, (resolve_test H.cwd d n hd hn).trans (by simp), fun e he => ?_⟩
  rw [computeDst_binary H d n hd hn hc hin, resolve_artifact_binary H d n backend e hd hn hb he]
  rfl

theorem shape_mirror (H : Host) (t backend : PyStr) (hb : '/' ∉ backend) (ht : IsTestPath t)
    (hin : inBinaryDir H t = false) (hs : BelowSource H t) :
    ArtifactShape H t backend H.source H.binary := by
  obtain ⟨d, n, rfl, hd, hn, hc⟩ := ht
  obtain ⟨rest, hr, hres⟩ := hs
  obtain ⟨rest', l, rfl⟩ : ∃ rest' l, rest = rest' ++ [l] :=
    ⟨_, _, (List.dropLast_append_getLast hr).symm⟩
  have hl : l = n ++ ".sk".toList := by
    have := congrArg List.getLast? (hres.symm.trans (resolve_test H.cwd d n hd hn))
    simpa [← List.append_assoc] using this
  subst hl
  have hnames := resolve_names H.cwd (d ++ n ++ ".sk".toList) H.cwd_names
  rw [hres] at hnames
  refine ⟨rest', n, by rw [hres, List.append_assoc], fun e he => ?_⟩
  rw [computeDst_mirror H _ n rest' hn hc hin hres, resolve_artifact_mirror H _ n backend e
    (fun x hx => ?_) hn hb he]
  rcases List.mem_append.mp hx with hx | hx
  · exact H.binary_names x hx
  · exact hnames x (by simp [hx])

theorem disjoint_of_shape (H : Host) (t1 t2 backend : PyStr) (pre pre' : Comps)
    (h1 : ArtifactShape H t1 backend pre pre') (h2 : ArtifactShape H t2 backend pre pre')
    (hne : resolve H.cwd t1 ≠ resolve H.cwd t2) :
    ∀ a1 ∈ (artifactNames H t1 backend).toList, ∀ a2 ∈ (artifactNames H t2 backend).toList,
      resolve H.cwd a1 ≠ resolve H.cwd a2 := by
  obtain ⟨b1, n1, ht1, ha1⟩ := h1
  obtain ⟨b2, n2, ht2, ha2⟩ := h2
  simp only [artifactNames_toList, List.mem_map]
  rintro _ ⟨e1, he1, rfl⟩ _ ⟨e2, he2, rfl⟩ h
  rw [ha1 e1 he1, ha2 e2 he2, List.append_assoc, List.append_assoc] at h
  obtain ⟨hb, hn⟩ := append_singleton_inj (List.append_cancel_left h)
  obtain ⟨-, rfl⟩ := artifact_suffix_inj n1 n2 backend e1 e2 he1 he2 hn
  exact hne (by rw [ht1, ht2, hb])

/-- Distinct test files get disjoint artifact files when both take the same
branch of `_computeDstWithoutExt`: both inside `binary_dir` by its character-wise
test, or neither and both below `source_dir`. -/
theorem artifacts_disjoint_of_same_branch (H : Host) (backend t1 t2 : PyStr)
    (hb : '/' ∉ backend) (h1 : IsTestPath t1) (h2 : IsTestPath t2)
    (hne : resolve H.cwd t1 ≠ resolve H.cwd t2)
    (hbranch : (inBinaryDir H t1 = true ∧ inBinaryDir H t2 = true) ∨
      (inBinaryDir H t1 = false ∧ inBinaryDir H t2 = false ∧
        BelowSource H t1 ∧ BelowSource H t2)) :
    ∀ a1 ∈ (artifactNames H t1 backend).toList, ∀ a2 ∈ (artifactNames H t2 backend).toList,
      resolve H.cwd a1 ≠ resolve H.cwd a2 := by
  rcases hbranch with ⟨hi1, hi2⟩ | ⟨hi1, hi2, hs1, hs2⟩
  · exact disjoint_of_shape H t1 t2 backend [] [] (shape_binary H t1 backend hb h1 hi1)
      (shape_binary H t2 backend hb h2 hi2) hne
  · exact disjoint_of_shape H t1 t2 backend H.source H.binary
      (shape_mirror H t1 backend hb h1 hi1 hs1) (shape_mirror H t2 backend hb h2 hi2 hs2) hne

/-- The host of a checkout at `/r/src`, whose binary directory is `/r/build/src`. -/
def checkoutHost : Host :=
  hostOf (["r", "src", "runtime", "tools", "common.py"].map String.toList) [] (by decide)
    (by decide)

theorem artifacts_disjoint_two_sources :
    '/' ∉ "native".toList ∧ IsTestPath "/r/src/a.sk".toList ∧ IsTestPath "/r/src/b.sk".toList ∧
      resolve checkoutHost.cwd "/r/src/a.sk".toList ≠ resolve checkoutHost.cwd "/r/src/b.sk".toList ∧
      (∀ a1 ∈ (artifactNames checkoutHost "/r/src/a.sk".toList "native".toList).toList,
        ∀ a2 ∈ (artifactNames checkoutHost "/r/src/b.sk".toList "native".toList).toList,
          resolve checkoutHost.cwd a1 ≠ resolve checkoutHost.cwd a2) := by
  have ha : IsTestPath "/r/src/a.sk".toList :=
    ⟨"/r/src/".toList, "a".toList, rfl, by decide, by decide, by decide⟩
  have hb : IsTestPath "/r/src/b.sk".toList :=
    ⟨"/r/src/".toList, "b".toList, rfl, by decide, by decide, by decide⟩
  refine ⟨by decide, ha, hb, by decide, artifacts_disjoint_of_same_branch checkoutHost _ _ _
    (by decide) ha hb (by decide) (Or.inr ⟨by decide, by decide, ?_, ?_⟩)⟩
  · exact ⟨["a.sk".toList], by decide, by decide⟩
  · exact ⟨["b.sk".toList], by decide, by decide⟩

/-- A test under `source_dir` and a test at its mirror place under `binary_dir`
share every artifact file. -/
theorem artifacts_collide_source_and_mirror :
    endswith "/r/src/a.sk".toList ".sk".toList ∧ endswith "/r/build/src/a.sk".toList ".sk".toList ∧
      resolve checkoutHost.cwd "/r/src/a.sk".toList ≠
        resolve checkoutHost.cwd "/r/build/src/a.sk".toList ∧
      resolve checkoutHost.cwd (artifactNames checkoutHost "/r/src/a.sk".toList "native".toList).res =
        resolve checkoutHost.cwd
          (artifactNames checkoutHost "/r/build/src/a.sk".toList "native".toList).res := by
  decide

end SkipTools
