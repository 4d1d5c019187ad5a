import SkipTools.FileSystem
import SkipTools.WorkerPool

/-! The parallel driver of tests/src/frontend/verify.py: `check_result`, the `run` of
`run_test_program`, whose futures the thread pool of `SkipTools.WorkerPool` runs, and
`record_failures`, which writes each failure's output and diff next to its test. The
Python text functions they call are modelled first: `str.rstrip`, `str.replace`, the
newline translation of text mode and `re.sub('\.sk$', ...)`. -/

namespace SkipTools

/-! ### Python's text functions -/

/-- The characters `str.isspace` holds of, which `str.rstrip()` removes. -/
def isPySpace (c : Char) : Bool :=
  let n := c.toNat
  (0x09 ≤ n && n ≤ 0x0D) || (0x1C ≤ n && n ≤ 0x20) || n == 0x85 || n == 0xA0 || n == 0x1680 ||
    (0x2000 ≤ n && n ≤ 0x200A) || n == 0x2028 || n == 0x2029 || n == 0x202F || n == 0x205F ||
    n == 0x3000

/-- `s.rstrip()`. -/
def pyRstrip : PyStr → PyStr
  | [] => []
  | c :: s => if (pyRstrip s).isEmpty && isPySpace c then [] else c :: pyRstrip s

/-- The newline translation of text mode, as `universal_newlines=True` applies it to
a child's output and `open(p, 'rt')` to a file: `\r\n` and a lone `\r` read as `\n`. -/
def universalNewlines : PyStr → PyStr
  | [] => []
  | '\r' :: '\n' :: s => '\n' :: universalNewlines s
  | '\r' :: s => '\n' :: universalNewlines s
  | c :: s => c :: universalNewlines s

/-- `s.replace(old, new)` for `old = o :: os`, scanning from the left: at an
occurrence `new` is written and the `skip` characters after its first are passed
over, so the scan resumes after the occurrence it replaced. -/
def replaceFrom (o : Char) (os new : PyStr) : Nat → PyStr → PyStr
  | _, [] => []
  | skip + 1, _ :: s => replaceFrom o os new skip s
  | 0, c :: s =>
    if (o :: os).isPrefixOf (c :: s) then new ++ replaceFrom o os new os.length s
    else c :: replaceFrom o os new 0 s

/-- `s.replace(old, new)`; an empty `old` matches before every character and at the
end. -/
def pyReplace (s old new : PyStr) : PyStr :=
  match old with
  | [] => new ++ s.flatMap (· :: new)
  | o :: os => replaceFrom o os new 0 s

/-- `re.sub('\.sk$', repl, s)`: `$` matches at the end and before a final newline, so
there is at most one match. `re.sub` reads the backslash escapes of `repl` (a doubled
backslash is one, backslash-n a newline); `repl` is inserted as it stands, which is
what `re.sub` does for a `repl` without a backslash (`IsExt`). -/
def reSubSk (s repl : PyStr) : PyStr :=
  if endswith s ".sk".toList then s.take (s.length - 3) ++ repl
  else if endswith s ".sk\n".toList then s.take (s.length - 4) ++ repl ++ ['\n']
  else s

/-! ### The driver -/

/-- `Failure(fname, expected, output)`. -/
structure Failure where
  fname : PyStr
  expected : PyStr
  output : PyStr
  deriving DecidableEq, Repr

/-- What `subprocess.check_output` gives `run(f)`: the child's combined output,
decoded, whatever its exit status (`CalledProcessError.output` on a non-zero one), or
an exception it raises otherwise (`OSError` from the launch, or an output that does not
decode). -/
inductive ChildOut
  | output (text : PyStr)
  | raises
  deriving DecidableEq, Repr

/-- The exceptions of `run_test_program` the model distinguishes. -/
inductive VerifyExc
  | child
  | io (e : PyExc)
  | maxWorkers
  deriving DecidableEq, Repr

/-- `os.path.abspath('skip/')`, the text `run(f)` replaces by `<<root>>`. -/
def rootText (H : Host) : PyStr := render (H.cwd ++ ["skip".toList])

/-- The `try` block of `check_result`: the expectation read in text mode with trailing
whitespace stripped, or `''` when there is no such file. -/
def readExpectation (fs : FileSys) (H : Host) (path : PyStr) : Except VerifyExc PyStr :=
  match fs.readText H path with
  | .ok s => .ok (pyRstrip (universalNewlines s))
  | .error .fileNotFound => .ok []
  | .error e => .error (.io e)

/-- `check_result(fname, expect_exp, out)`: a `Failure` when the expectation next to
the test is not `out`. -/
def checkResult (fs : FileSys) (H : Host) (fname expectExt out : PyStr) :
    Except VerifyExc (Option Failure) :=
  (readExpectation fs H (reSubSk fname expectExt)).map fun exp =>
    if exp = out then none else some ⟨fname, exp, out⟩

/-- The text `run(f)` compares: the output with the root replaced and trailing
whitespace stripped. -/
def normalizeOutput (H : Host) (text : PyStr) : PyStr :=
  pyRstrip (pyReplace (universalNewlines text) (rootText H) "<<root>>".toList)

/-- `run(f)`: the program run on the test's name in the test's directory (the child's
output is given for `os.path.split(f)`), then checked. -/
def runTest (fs : FileSys) (H : Host) (child : PyStr × PyStr → ChildOut) (expectExt f : PyStr) :
    Except VerifyExc (Option Failure) :=
  match child (dirname f, lastSeg f) with
  | .output text => checkResult fs H f expectExt (normalizeOutput H text)
  | .raises => .error .child

/-- `run_test_program(files, ...)` under one interleaving `sched` of its pool: `none`
while the collecting loop has not ended, then the failures in submission order or the
exception that ended the loop. `ThreadPoolExecutor` raises `ValueError` for a
`max_workers` that is not positive. -/
def runTestProgram (fs : FileSys) (H : Host) (child : PyStr × PyStr → ChildOut)
    (expectExt : PyStr) (maxWorkers : Int) (files : List PyStr) (sched : List PoolEvent) :
    Option (Except VerifyExc (List Failure)) :=
  if maxWorkers ≤ 0 then some (.error .maxWorkers)
  else (((Pool.init files.length).run maxWorkers.toNat
      (files.map (runTest fs H child expectExt)) sched).outcome).map fun o =>
    o.map (List.filterMap id)

/-- The plain loop `run_test_program` stands for: each file run in turn, stopping at the
first exception. -/
def runTestLoop (fs : FileSys) (H : Host) (child : PyStr × PyStr → ChildOut)
    (expectExt : PyStr) (maxWorkers : Int) (files : List PyStr) :
    Except VerifyExc (List Failure) :=
  if maxWorkers ≤ 0 then .error .maxWorkers
  else (seqCollect (files.map (runTest fs H child expectExt))).map (List.filterMap id)

/-- `record_failures(failures, out_ext, diff_ext)`: for each failure its output, then the
text `''.join(get_diff(failure))` (`ndiff`, a function of the expected and actual
texts), written next to the test. -/
def recordFailures (fs : FileSys) (H : Host) (ndiff : PyStr → PyStr → PyStr)
    (outExt diffExt : PyStr) : List Failure → Except PyExc FileSys
  | [] => .ok fs
  | fl :: rest => do
    let fs ← fs.write H (reSubSk fl.fname outExt) (.text fl.output)
    let fs ← fs.write H (reSubSk fl.fname diffExt) (.text (ndiff fl.expected fl.output))
    recordFailures fs H ndiff outExt diffExt rest

/-! ### What the text functions keep -/

theorem mem_of_mem_pyRstrip {c : Char} : ∀ {s : PyStr}, c ∈ pyRstrip s → c ∈ s
  | [], h => h
  | d :: s, h => by
    rw [pyRstrip] at h
    split at h
    · cases h
    · rcases List.mem_cons.mp h with rfl | h
      · exact List.mem_cons_self _ _
      · exact List.mem_cons_of_mem _ (mem_of_mem_pyRstrip h)

@[simp] theorem pyRstrip_pyRstrip : ∀ s : PyStr, pyRstrip (pyRstrip s) = pyRstrip s
  | [] => rfl
  | c :: s => by
    rw [pyRstrip]
    split
    · rfl
    · next h => rw [pyRstrip, pyRstrip_pyRstrip s, if_neg h]

theorem cr_not_mem_universalNewlines (s : PyStr) : '\r' ∉ universalNewlines s := by
  induction s using universalNewlines.induct with
  | case1 => exact List.not_mem_nil _
  | case2 s ih =>
    rw [universalNewlines.eq_2]
    exact List.not_mem_cons_of_ne_of_not_mem (by decide) ih
  | case3 s h ih =>
    rw [universalNewlines.eq_3 s h]
    exact List.not_mem_cons_of_ne_of_not_mem (by decide) ih
  | case4 c s h1 h2 ih =>
    rw [universalNewlines.eq_4 c s h1 h2]
    exact List.not_mem_cons_of_ne_of_not_mem (fun h => h2 h.symm) ih

theorem universalNewlines_of_cr_not_mem (s : PyStr) (h : '\r' ∉ s) : universalNewlines s = s := by
  induction s using universalNewlines.induct with
  | case1 => rfl
  | case2 s _ => exact absurd (List.mem_cons_self _ _) h
  | case3 s _ _ => exact absurd (List.mem_cons_self _ _) h
  | case4 c s h1 h2 ih =>
    rw [universalNewlines.eq_4 c s h1 h2, ih fun hs => h (List.mem_cons_of_mem _ hs)]

example : universalNewlines "a\r\r\nb\r".toList = "a\n\nb\n".toList := by decide

theorem mem_of_mem_replaceFrom {o c : Char} {os new : PyStr} :
    ∀ (skip : Nat) (s : PyStr), c ∈ replaceFrom o os new skip s → c ∈ s ∨ c ∈ new
  | _, [], h => by simp [replaceFrom] at h
  | skip + 1, d :: s, h => by
    rw [replaceFrom] at h
    exact (mem_of_mem_replaceFrom skip s h).imp_left (List.mem_cons_of_mem _)
  | 0, d :: s, h => by
    rw [replaceFrom] at h
    split at h
    · rcases List.mem_append.mp h with h | h
      · exact .inr h
      · exact (mem_of_mem_replaceFrom _ s h).imp_left (List.mem_cons_of_mem _)
    · rcases List.mem_cons.mp h with rfl | h
      · exact .inl (List.mem_cons_self _ _)
      · exact (mem_of_mem_replaceFrom 0 s h).imp_left (List.mem_cons_of_mem _)

/-- Every character `s.replace(old, new)` holds comes from `s` or from `new`. -/
theorem mem_of_mem_pyReplace {s old new : PyStr} {c : Char} (h : c ∈ pyReplace s old new) :
    c ∈ s ∨ c ∈ new := by
  cases old with
  | nil =>
    rcases List.mem_append.mp h with h | h
    · exact .inr h
    · obtain ⟨d, hd, h⟩ := List.mem_flatMap.mp h
      rcases List.mem_cons.mp h with rfl | h
      · exact .inl hd
      · exact .inr h
  | cons o os => exact mem_of_mem_replaceFrom 0 s h

example : pyReplace "/x/skip/a.sk: /x/skipper".toList "/x/skip".toList "<<root>>".toList =
    "<<root>>/a.sk: <<root>>per".toList := by decide

theorem cr_not_mem_normalizeOutput (H : Host) (text : PyStr) : '\r' ∉ normalizeOutput H text :=
  fun h => (mem_of_mem_pyReplace (mem_of_mem_pyRstrip h)).elim
    (cr_not_mem_universalNewlines text) (by decide)

/-- A normalised output read back in text mode and stripped is itself: it has no `\r`
and no trailing whitespace. -/
theorem pyRstrip_universalNewlines_normalizeOutput (H : Host) (text : PyStr) :
    pyRstrip (universalNewlines (normalizeOutput H text)) = normalizeOutput H text := by
  rw [universalNewlines_of_cr_not_mem _ (cr_not_mem_normalizeOutput H text), normalizeOutput,
    pyRstrip_pyRstrip]

/-! ### The names `re.sub('\.sk$', ext, f)` gives -/

/-- An extension as verify.py's options give them (`.exp`, `.out`, `.diff`): a dot and
a non-empty run of characters with neither a dot nor a slash, nor a backslash, which
`re.sub` would read as an escape. -/
def IsExt (e : PyStr) : Prop := ∃ d, e = '.' :: d ∧ d ≠ [] ∧ '.' ∉ d ∧ '/' ∉ d ∧ '\\' ∉ d

theorem isExt_sk : IsExt ".sk".toList :=
  ⟨"sk".toList, rfl, by decide, by decide, by decide, by decide⟩

/-- A name is split at its last dot. -/
theorem append_dot_inj {a b d1 d2 : PyStr} (h1 : '.' ∉ d1) (h2 : '.' ∉ d2)
    (h : a ++ '.' :: d1 = b ++ '.' :: d2) : a = b ∧ d1 = d2 := by
  rcases List.append_eq_append_iff.mp h with ⟨a', rfl, h'⟩ | ⟨c', rfl, h'⟩
  · cases a' with
    | nil => exact ⟨(List.append_nil a).symm, (List.cons.inj h').2⟩
    | cons x a' => exact absurd ((List.cons.inj h').2 ▸ List.mem_append_right _
        (List.mem_cons_self _ _)) h1
  · cases c' with
    | nil => exact ⟨List.append_nil b, (List.cons.inj h').2.symm⟩
    | cons x c' => exact absurd ((List.cons.inj h').2 ▸ List.mem_append_right _
        (List.mem_cons_self _ _)) h2

/-- A path with an extension appended resolves to a new last name in the directory of
the path. -/
theorem resolve_append_ext (cwd : Comps) (p e : PyStr) (he : IsExt e) :
    resolve cwd (p ++ e) = dirComps cwd (dirPart p) ++ [lastSeg p ++ e] := by
  obtain ⟨d, rfl, hd, hdot, hsl, -⟩ := he
  obtain ⟨x, hx⟩ := List.exists_mem_of_ne_nil d hd
  have hxd : x ∈ lastSeg p ++ '.' :: d := List.mem_append_right _ (List.mem_cons_of_mem _ hx)
  have hname : IsName (lastSeg p ++ '.' :: d) := by
    refine ⟨by simp, fun h => ?_, fun h => ?_, by simp [hsl, slash_not_mem_lastSeg]⟩
    · have := congrArg List.length h
      simp only [List.length_append, List.length_cons, List.length_nil] at this
      exact hd (List.length_eq_zero.mp (by omega))
    · rw [h] at hxd
      simp only [List.mem_cons, List.mem_singleton, or_self, List.not_mem_nil, or_false] at hxd
      exact hdot (hxd ▸ hx)
  conv_lhs => rw [← dirPart_append_lastSeg p, List.append_assoc]
  rw [resolve_dir_append _ _ _ (dirPart_cases p) hname.2.2.2, resolveStep_name _ _ hname]

/-- Two paths with extensions appended name one file only when the extensions are the
same and so are the files the paths name with any other extension. -/
theorem resolve_append_ext_inj {cwd : Comps} {p q e1 e2 : PyStr} (h1 : IsExt e1) (h2 : IsExt e2)
    (h : resolve cwd (p ++ e1) = resolve cwd (q ++ e2)) :
    e1 = e2 ∧ ∀ e, IsExt e → resolve cwd (p ++ e) = resolve cwd (q ++ e) := by
  rw [resolve_append_ext _ _ _ h1, resolve_append_ext _ _ _ h2] at h
  obtain ⟨hdir, hlast⟩ := append_singleton_inj h
  obtain ⟨d1, rfl, -, hd1, -, -⟩ := h1
  obtain ⟨d2, rfl, -, hd2, -, -⟩ := h2
  obtain ⟨hseg, rfl⟩ := append_dot_inj hd1 hd2 hlast
  exact ⟨rfl, fun e he => by rw [resolve_append_ext _ _ _ he, resolve_append_ext _ _ _ he, hdir, hseg]⟩

/-- A test path ending in `.sk` is its stem followed by `.sk`, and `re.sub` puts the
extension in place of the `.sk`. -/
theorem reSubSk_of_endswith {f : PyStr} (h : endswith f ".sk".toList = true) (e : PyStr) :
    f = f.take (f.length - 3) ++ ".sk".toList ∧ reSubSk f e = f.take (f.length - 3) ++ e := by
  obtain ⟨u, rfl⟩ := List.isSuffixOf_iff_suffix.mp h
  have hu : (u ++ ".sk".toList).take ((u ++ ".sk".toList).length - 3) = u :=
    List.take_left' (by simp)
  rw [reSubSk, if_pos h, hu]
  exact ⟨rfl, rfl⟩

/-- Two tests' names with extensions resolve to one file only for one extension and
one test file. -/
theorem resolve_reSubSk_inj {cwd : Comps} {f g e1 e2 : PyStr} (hf : endswith f ".sk".toList = true)
    (hg : endswith g ".sk".toList = true) (h1 : IsExt e1) (h2 : IsExt e2)
    (h : resolve cwd (reSubSk f e1) = resolve cwd (reSubSk g e2)) :
    e1 = e2 ∧ resolve cwd f = resolve cwd g := by
  obtain ⟨hf', hfe⟩ := reSubSk_of_endswith hf e1
  obtain ⟨hg', hge⟩ := reSubSk_of_endswith hg e2
  rw [hfe, hge] at h
  obtain ⟨rfl, hcongr⟩ := resolve_append_ext_inj h1 h2 h
  exact ⟨rfl, by rw [hf', hg']; exact hcongr _ isExt_sk⟩

/-! ### A run of the driver -/

theorem readExpectation_congr {fs fs' : FileSys} {H : Host} {p : PyStr}
    (h : fs'.node (resolve H.cwd p) = fs.node (resolve H.cwd p)) :
    readExpectation fs' H p = readExpectation fs H p := by
  simp only [readExpectation, FileSys.readText, FileSys.readData, FileSys.get, h]

theorem readExpectation_text {fs : FileSys} {H : Host} {p s : PyStr}
    (h : fs.node (resolve H.cwd p) = some (.file (.text s))) :
    readExpectation fs H p = .ok (pyRstrip (universalNewlines s)) := by
  simp only [readExpectation, FileSys.readText, FileSys.readData, FileSys.get, h]
  rfl

/-- A failure names the test it was found for and holds the output that was checked. -/
theorem checkResult_eq_some {fs : FileSys} {H : Host} {fname expectExt out : PyStr} {fl : Failure}
    (h : checkResult fs H fname expectExt out = .ok (some fl)) :
    fl.fname = fname ∧ fl.output = out := by
  unfold checkResult at h
  cases hr : readExpectation fs H (reSubSk fname expectExt) with
  | error e => rw [hr] at h; cases h
  | ok exp =>
    rw [hr] at h
    simp only [Except.map, Except.ok.injEq] at h
    split_ifs at h
    cases h
    exact ⟨rfl, rfl⟩

/-- A run that returned checked the child's output. -/
theorem runTest_eq_ok {fs : FileSys} {H : Host} {child : PyStr × PyStr → ChildOut}
    {expectExt f : PyStr} {r : Option Failure} (h : runTest fs H child expectExt f = .ok r) :
    ∃ text, child (dirname f, lastSeg f) = .output text ∧
      checkResult fs H f expectExt (normalizeOutput H text) = .ok r := by
  unfold runTest at h
  split at h
  · exact ⟨_, ‹_›, h⟩
  · cases h

section Loop

variable {fs : FileSys} {H : Host} {child : PyStr × PyStr → ChildOut} {expectExt : PyStr}
  {maxWorkers : Int} {files : List PyStr} {fails : List Failure}

/-- What a loop that returned did: every file's run returned, and the failures are
those some file's run returned. -/
theorem runTestLoop_eq_ok (h : runTestLoop fs H child expectExt maxWorkers files = .ok fails) :
    0 < maxWorkers ∧
      (∀ f ∈ files, ∃ r, runTest fs H child expectExt f = .ok r ∧ ∀ fl, r = some fl → fl ∈ fails) ∧
      ∀ fl ∈ fails, ∃ f ∈ files, runTest fs H child expectExt f = .ok (some fl) := by
  unfold runTestLoop at h
  split at h
  · cases h
  · next hw =>
    cases hs : seqCollect (files.map (runTest fs H child expectExt)) with
    | error e => rw [hs] at h; cases h
    | ok rs =>
      rw [hs] at h
      cases h
      have hmap := (seqCollect_eq_ok_iff _ _).mp hs
      refine ⟨by omega, fun f hf => ?_, fun fl hfl => ?_⟩
      · obtain ⟨r, hr, hfr⟩ := List.mem_map.mp (hmap ▸ List.mem_map_of_mem _ hf)
        exact ⟨r, hfr.symm, fun fl hfl => List.mem_filterMap.mpr ⟨r, hr, hfl⟩⟩
      · obtain ⟨r, hr, rfl⟩ := List.mem_filterMap.mp hfl
        obtain ⟨f, hf, hfr⟩ := List.mem_map.mp (hmap.symm ▸ List.mem_map_of_mem Except.ok hr)
        exact ⟨f, hf, hfr⟩

/-- Loops whose runs agree on every file agree. -/
theorem runTestLoop_congr {fs' : FileSys}
    (h : ∀ f ∈ files, runTest fs' H child expectExt f = runTest fs H child expectExt f) :
    runTestLoop fs' H child expectExt maxWorkers files =
      runTestLoop fs H child expectExt maxWorkers files := by
  simp only [runTestLoop, List.map_congr_left h]

/-- A loop whose every run finds nothing to report reports no failure. -/
theorem runTestLoop_eq_nil (hw : 0 < maxWorkers)
    (h : ∀ f ∈ files, runTest fs H child expectExt f = .ok none) :
    runTestLoop fs H child expectExt maxWorkers files = .ok [] := by
  have hmap : files.map (runTest fs H child expectExt) =
      (files.map fun _ => (none : Option Failure)).map .ok := by
    rw [List.map_map]
    exact List.map_congr_left h
  rw [runTestLoop, if_neg (by omega), hmap, (seqCollect_eq_ok_iff _ _).mpr rfl]
  simp [Except.map]

end Loop

/-- `run_test_program` under every interleaving of its thread pool: no more than
`max_workers` children run at any point, a collecting loop that has ended returned what
the plain loop over the files returns (the failures in the order of the files, or the
exception of the first file in that order whose run raised), and from every point of
the interleaving the loop can still end so. -/
theorem run_test_program_refines_loop (fs : FileSys) (H : Host) (child : PyStr × PyStr → ChildOut)
    (expectExt : PyStr) (maxWorkers : Int) (files : List PyStr) (sched : List PoolEvent) :
    ((Pool.init files.length : Pool VerifyExc (Option Failure)).run maxWorkers.toNat
        (files.map (runTest fs H child expectExt)) sched).busy ≤ maxWorkers.toNat ∧
      (∀ o, runTestProgram fs H child expectExt maxWorkers files sched = some o →
        o = runTestLoop fs H child expectExt maxWorkers files) ∧
      ∃ sched', runTestProgram fs H child expectExt maxWorkers files (sched ++ sched') =
        some (runTestLoop fs H child expectExt maxWorkers files) := by
  have hlen : (files.map (runTest fs H child expectExt)).length = files.length := List.length_map _ _
  have hinv := hlen ▸ (Pool.inv_init maxWorkers.toNat (files.map (runTest fs H child expectExt))).run sched
  by_cases hw : maxWorkers ≤ 0
  · refine ⟨hinv.bound, fun o h => ?_, [], ?_⟩
    · simp only [runTestProgram, if_pos hw, Option.some.injEq] at h
      rw [← h, runTestLoop, if_pos hw]
    · rw [runTestProgram, if_pos hw, runTestLoop, if_pos hw]
  · have hN : 0 < maxWorkers.toNat := by omega
    obtain ⟨hb, hout, sched', hend⟩ := hlen ▸
      @Pool.run_init_refines _ _ _ (files.map (runTest fs H child expectExt)) hN sched
    refine ⟨hb, fun o h => ?_, sched', ?_⟩
    · simp only [runTestProgram, if_neg hw, Option.map_eq_some'] at h
      obtain ⟨o', ho', rfl⟩ := h
      rw [hout o' ho', runTestLoop, if_neg hw]
    · rw [runTestProgram, if_neg hw, Pool.run_append, hend, runTestLoop, if_neg hw]
      rfl

/-! ### What `record_failures` writes -/

/-- After `record_failures`, a file holds what it held before, when no failure's output
or diff is written to it, or what the last write to it wrote. -/
theorem recordFailures_node {fs fs' : FileSys} {H : Host} {ndiff : PyStr → PyStr → PyStr}
    {outExt diffExt : PyStr} {fails : List Failure}
    (h : recordFailures fs H ndiff outExt diffExt fails = .ok fs') (cs : Comps) :
    (fs'.node cs = fs.node cs ∧ ∀ fl ∈ fails, resolve H.cwd (reSubSk fl.fname outExt) ≠ cs ∧
        resolve H.cwd (reSubSk fl.fname diffExt) ≠ cs) ∨
      ∃ fl ∈ fails,
        (resolve H.cwd (reSubSk fl.fname outExt) = cs ∧ fs'.node cs = some (.file (.text fl.output))) ∨
        (resolve H.cwd (reSubSk fl.fname diffExt) = cs ∧
          fs'.node cs = some (.file (.text (ndiff fl.expected fl.output)))) := by
  induction fails generalizing fs with
  | nil =>
    cases h
    exact .inl ⟨rfl, fun _ h => absurd h (List.not_mem_nil _)⟩
  | cons fl rest ih =>
    simp only [recordFailures] at h
    cases h1 : fs.write H (reSubSk fl.fname outExt) (.text fl.output) with
    | error e => rw [h1] at h; cases h
    | ok fs1 =>
      rw [h1] at h
      cases h2 : fs1.write H (reSubSk fl.fname diffExt) (.text (ndiff fl.expected fl.output)) with
      | error e => simp only [bind, Except.bind, h2] at h; cases h
      | ok fs2 =>
        simp only [bind, Except.bind, h2] at h
        rw [FileSys.write_ok h1] at h2
        rw [FileSys.write_ok h2] at h
        rcases ih h with ⟨hn, hrest⟩ | ⟨fl', hm, hw⟩
        · by_cases hd : resolve H.cwd (reSubSk fl.fname diffExt) = cs
          · subst hd
            exact .inr ⟨fl, List.mem_cons_self _ _, .inr ⟨rfl, by rw [hn, FileSys.set_node_self]⟩⟩
          · rw [FileSys.set_node_of_ne _ _ _ _ (Ne.symm hd)] at hn
            by_cases ho : resolve H.cwd (reSubSk fl.fname outExt) = cs
            · subst ho
              exact .inr ⟨fl, List.mem_cons_self _ _, .inl ⟨rfl, by rw [hn, FileSys.set_node_self]⟩⟩
            · rw [FileSys.set_node_of_ne _ _ _ _ (Ne.symm ho)] at hn
              refine .inl ⟨hn, fun fl' hm => ?_⟩
              rcases List.mem_cons.mp hm with rfl | hm
              exacts [⟨ho, hd⟩, hrest fl' hm]
        · exact .inr ⟨fl', List.mem_cons_of_mem _ hm, hw⟩

section Rerun

variable {fs fs' : FileSys} {H : Host} {child : PyStr × PyStr → ChildOut}
  {ndiff : PyStr → PyStr → PyStr} {expectExt outExt diffExt : PyStr} {maxWorkers : Int}
  {files : List PyStr} {fails : List Failure}

/-- `record_failures` with output and diff extensions other than the expectation's writes
no test's expectation, so a second run of the same tests with the same outputs reports
the same failures. -/
theorem rerun_reports_same_failures (hsk : ∀ f ∈ files, endswith f ".sk".toList = true)
    (hexp : IsExt expectExt) (hout : IsExt outExt) (hdiff : IsExt diffExt)
    (hoe : outExt ≠ expectExt) (hde : diffExt ≠ expectExt)
    (hrun : runTestLoop fs H child expectExt maxWorkers files = .ok fails)
    (hrec : recordFailures fs H ndiff outExt diffExt fails = .ok fs') :
    runTestLoop fs' H child expectExt maxWorkers files = .ok fails := by
  obtain ⟨-, -, hfails⟩ := runTestLoop_eq_ok hrun
  have hsk' : ∀ fl ∈ fails, endswith fl.fname ".sk".toList = true := fun fl hfl => by
    obtain ⟨f, hf, hr⟩ := hfails fl hfl
    obtain ⟨text, -, hc⟩ := runTest_eq_ok hr
    rw [(checkResult_eq_some hc).1]
    exact hsk f hf
  rw [← hrun]
  refine runTestLoop_congr fun f hf => ?_
  have hnode : fs'.node (resolve H.cwd (reSubSk f expectExt)) =
      fs.node (resolve H.cwd (reSubSk f expectExt)) := by
    rcases recordFailures_node hrec (resolve H.cwd (reSubSk f expectExt)) with ⟨hn, -⟩ | ⟨fl, hfl, hw⟩
    · exact hn
    · rcases hw with ⟨hw, -⟩ | ⟨hw, -⟩
      · exact absurd (resolve_reSubSk_inj (hsk' fl hfl) (hsk f hf) hout hexp hw).1 hoe
      · exact absurd (resolve_reSubSk_inj (hsk' fl hfl) (hsk f hf) hdiff hexp hw).1 hde
  simp only [runTest, checkResult, readExpectation_congr hnode]

/-- Two tests in `/r/t`: `a.sk` prints what `a.exp` holds, up to a trailing newline;
`b.sk` prints `3` where `b.exp` holds `2`. -/
def verifyFs : FileSys := FileSys.ofList
  [([], .dir), (["r".toList], .dir), (["r".toList, "t".toList], .dir),
   (["r".toList, "t".toList, "a.sk".toList], .file (.text [])),
   (["r".toList, "t".toList, "a.exp".toList], .file (.text "1\n".toList)),
   (["r".toList, "t".toList, "b.sk".toList], .file (.text [])),
   (["r".toList, "t".toList, "b.exp".toList], .file (.text "2".toList))]

def verifyFiles : List PyStr := ["/r/t/a.sk".toList, "/r/t/b.sk".toList]

def verifyChild : PyStr × PyStr → ChildOut
  | (_, n) => if n = "a.sk".toList then .output "1\n".toList else .output "3".toList

def verifyFailure : Failure := ⟨"/r/t/b.sk".toList, "2".toList, "3".toList⟩

/-- `verifyFs` once `b.out` and `b.diff` are written. -/
def verifyFsOut : FileSys :=
  (verifyFs.set ["r".toList, "t".toList, "b.out".toList] (.file (.text "3".toList))).set
    ["r".toList, "t".toList, "b.diff".toList] (.file (.text "23".toList))

theorem rerun_sample_same_failures :
    runTestLoop verifyFs checkoutHost verifyChild ".exp".toList 48 verifyFiles = .ok [verifyFailure] ∧
      recordFailures verifyFs checkoutHost (· ++ ·) ".out".toList ".diff".toList [verifyFailure] =
        .ok verifyFsOut ∧
      runTestLoop verifyFsOut checkoutHost verifyChild ".exp".toList 48 verifyFiles =
        .ok [verifyFailure] := by
  have hrun : runTestLoop verifyFs checkoutHost verifyChild ".exp".toList 48 verifyFiles =
      .ok [verifyFailure] := rfl
  have hrec : recordFailures verifyFs checkoutHost (· ++ ·) ".out".toList ".diff".toList
      [verifyFailure] = .ok verifyFsOut := rfl
  exact ⟨hrun, hrec, rerun_reports_same_failures (by decide)
    ⟨"exp".toList, rfl, by decide, by decide, by decide, by decide⟩
    ⟨"out".toList, rfl, by decide, by decide, by decide, by decide⟩
    ⟨"diff".toList, rfl, by decide, by decide, by decide, by decide⟩ (by decide) (by decide) hrun hrec⟩

/-- `record_failures` with the output extension equal to the expectation's is a baseline
update: each failing test's expectation becomes its output, which text mode reads back
as it was written, so a second run of the same tests with the same outputs reports no
failure. -/
theorem rerun_after_recorded_baseline (hsk : ∀ f ∈ files, endswith f ".sk".toList = true)
    (hinj : ∀ f ∈ files, ∀ g ∈ files, resolve H.cwd f = resolve H.cwd g → f = g)
    (hexp : IsExt expectExt) (hdiff : IsExt diffExt) (hde : diffExt ≠ expectExt)
    (hrun : runTestLoop fs H child expectExt maxWorkers files = .ok fails)
    (hrec : recordFailures fs H ndiff expectExt diffExt fails = .ok fs') :
    runTestLoop fs' H child expectExt maxWorkers files = .ok [] := by
  obtain ⟨hw, hruns, hfails⟩ := runTestLoop_eq_ok hrun
  have hown : ∀ fl ∈ fails, fl.fname ∈ files ∧
      runTest fs H child expectExt fl.fname = .ok (some fl) := fun fl hfl => by
    obtain ⟨f, hf, hr⟩ := hfails fl hfl
    obtain ⟨text, -, hc⟩ := runTest_eq_ok hr
    rw [(checkResult_eq_some hc).1]
    exact ⟨hf, hr⟩
  refine runTestLoop_eq_nil hw fun f hf => ?_
  obtain ⟨r, hr, hrf⟩ := hruns f hf
  obtain ⟨text, htext, hc⟩ := runTest_eq_ok hr
  -- the only failure written to the expectation of `f` is the failure of `f`
  have hwriter : ∀ fl ∈ fails, resolve H.cwd (reSubSk fl.fname expectExt) =
      resolve H.cwd (reSubSk f expectExt) → runTest fs H child expectExt f = .ok (some fl) :=
    fun fl hfl heq => by
      have := hinj _ (hown fl hfl).1 f hf
        (resolve_reSubSk_inj (hsk _ (hown fl hfl).1) (hsk f hf) hexp hexp heq).2
      rw [← this]
      exact (hown fl hfl).2
  have hnodiff : ∀ fl ∈ fails, resolve H.cwd (reSubSk fl.fname diffExt) ≠
      resolve H.cwd (reSubSk f expectExt) := fun fl hfl heq =>
    hde (resolve_reSubSk_inj (hsk _ (hown fl hfl).1) (hsk f hf) hdiff hexp heq).1
  rcases recordFailures_node hrec (resolve H.cwd (reSubSk f expectExt)) with
    ⟨hn, hfree⟩ | ⟨fl, hfl, ⟨heq, hn⟩ | ⟨heq, -⟩⟩
  · -- nothing was written there: `f` passed, and passes again
    cases r with
    | none => simp only [runTest, checkResult, readExpectation_congr hn] at hr ⊢; exact hr
    | some fl =>
      have hfl := hrf fl rfl
      exact absurd ((checkResult_eq_some hc).1 ▸ rfl) ((hfree fl hfl).1)
  · -- the failure of `f` wrote its own output there, which reads back as it was
    have hfl' := hwriter fl hfl heq
    rw [hr] at hfl'
    cases hfl'
    simp only [runTest, htext]
    rw [checkResult, readExpectation_text hn, (checkResult_eq_some hc).2,
      pyRstrip_universalNewlines_normalizeOutput]
    simp [Except.map]
  · exact absurd heq (hnodiff fl hfl)

/-- `verifyFs` once `b.exp` holds the output of `b.sk` and `b.diff` is written. -/
def verifyFsBaseline : FileSys :=
  (verifyFs.set ["r".toList, "t".toList, "b.exp".toList] (.file (.text "3".toList))).set
    ["r".toList, "t".toList, "b.diff".toList] (.file (.text "23".toList))

theorem rerun_sample_baseline :
    runTestLoop verifyFs checkoutHost verifyChild ".exp".toList 48 verifyFiles = .ok [verifyFailure] ∧
      recordFailures verifyFs checkoutHost (· ++ ·) ".exp".toList ".diff".toList [verifyFailure] =
        .ok verifyFsBaseline ∧
      runTestLoop verifyFsBaseline checkoutHost verifyChild ".exp".toList 48 verifyFiles = .ok [] := by
  have hrun : runTestLoop verifyFs checkoutHost verifyChild ".exp".toList 48 verifyFiles =
      .ok [verifyFailure] := rfl
  have hrec : recordFailures verifyFs checkoutHost (· ++ ·) ".exp".toList ".diff".toList
      [verifyFailure] = .ok verifyFsBaseline := rfl
  exact ⟨hrun, hrec, rerun_after_recorded_baseline (by decide) (by decide)
    ⟨"exp".toList, rfl, by decide, by decide, by decide, by decide⟩
    ⟨"diff".toList, rfl, by decide, by decide, by decide, by decide⟩ (by decide) hrun hrec⟩

end Rerun

end SkipTools
