import SkipTools.RunCommand

/-! `RunCommand.report_diff` and `diff_file` of common.py: the comparison with the
baseline, and the update mode that rewrites the baseline from the captures. -/

namespace SkipTools

/-- `re.match(pattern, text, flags=re.DOTALL + re.MULTILINE)`: whether it
matches, `none` when the pattern does not compile. The engine is a parameter. -/
abbrev ReMatch := PyStr → PyStr → Option Bool

/-- `diff -u expected actual` exits non-zero unless both are files with the same
bytes, and `check_output` then raises `CalledProcessError`. -/
def FileSys.diffU (fs : FileSys) (H : Host) (expected actual : PyStr) : Bool :=
  match fs.readData H expected, fs.readData H actual with
  | .ok a, .ok b => a.bytes != b.bytes
  | _, _ => true

/-- `RunCommand.error()`: the `testfail` marker is written. -/
def RunCommand.markFailed (c : RunCommand) (H : Host) (fs : FileSys) : Except PyExc FileSys :=
  fs.write H c.names.failing (.text "fail\n".toList)

/-- `diff_file(actual, expected)`: whether they differ. A regex expectation is
matched first; a failed match falls through to `diff`. -/
def RunCommand.diffFile (c : RunCommand) (H : Host) (re : ReMatch) (fs : FileSys)
    (actual expected : PyStr) : Except PyExc (Bool × FileSys) := do
  let matched ← if startswith (splitext expected).2 ".expectregex".toList then do
      let pat ← fs.readText H expected
      let text ← fs.readText H actual
      match re pat text with
      | none => throw .reError
      | some m => pure m
    else pure false
  if matched then pure (false, fs)
  else if fs.diffU H expected actual then do
    let fs ← c.markFailed H fs
    pure (true, fs)
  else pure (false, fs)

def RunCommand.errName (c : RunCommand) : PyStr := c.expName ++ "_err".toList

/-- The update branch of `report_diff`: the captures are copied over the baseline,
stderr only when it is not empty. -/
def RunCommand.refreshBaseline (c : RunCommand) (H : Host) (fs : FileSys) :
    Except PyExc (Bool × FileSys) := do
  let fs ← fs.copyfile H c.names.stdout c.expName
  let err ← fs.readText H c.names.stderr
  let fs ← if err.isEmpty then pure fs else fs.copyfile H c.names.stderr c.errName
  pure (false, fs)

/-- The comparing branch of `report_diff`, once the expectation exists: stdout
against it, then stderr against the `_err` sidecar, or stderr must be empty. -/
def RunCommand.compareBaseline (c : RunCommand) (H : Host) (re : ReMatch) (fs : FileSys) :
    Except PyExc (Bool × FileSys) :=
  match c.diffFile H re fs c.names.stdout c.expName with
  | .error e => .error e
  | .ok (true, fs) => .ok (true, fs)
  | .ok (false, fs) =>
    if fs.exists H c.errName then c.diffFile H re fs c.names.stderr c.errName
    else (fs.readText H c.names.stderr).map fun content => (!content.isEmpty, fs)

/-- `report_diff()`: `true` when the output differs from the baseline. -/
def RunCommand.reportDiff (c : RunCommand) (H : Host) (args : Args) (re : ReMatch)
    (fs : FileSys) : Except PyExc (Bool × FileSys) :=
  if c.testReportsOk then .ok (false, fs)
  else if !c.testHasExpect then .ok (false, fs)
  else if !fs.exists H c.names.stdout then .ok (true, fs)
  else if args.updateBaseline && !c.manualUpdateBaseline &&
      !endswith c.expName ".expectregex".toList then c.refreshBaseline H fs
  else if !fs.exists H c.expName then .ok (true, fs)
  else c.compareBaseline H re fs

/-! ### The refresh law -/

/-- A sibling named by appending `_err` is never the file itself. -/
theorem resolve_errName_ne (cwd : Comps) (p : PyStr) :
    resolve cwd (p ++ "_err".toList) ≠ resolve cwd p := by
  have h1 := resolve_append_suffix cwd p "_err".toList (by decide) (by decide)
  have h2 : resolve cwd p = resolveStep (dirComps cwd (dirPart p)) (lastSeg p) := by
    conv_lhs => rw [← dirPart_append_lastSeg p]
    exact resolve_dir_append _ _ _ (dirPart_cases p) (slash_not_mem_lastSeg p)
  rw [h1, h2]
  intro h
  rcases resolveStep_cases (dirComps cwd (dirPart p)) (lastSeg p) with h3 | h3 | h3 <;>
    rw [h3] at h
  · simpa using congrArg List.length h
  · have := congrArg List.length h
    simp at this
    omega
  · simpa using congrArg List.length (append_singleton_inj h).2

theorem resolve_errName_ne_expName (c : RunCommand) (cwd : Comps) :
    resolve cwd c.errName ≠ resolve cwd c.expName :=
  resolve_errName_ne cwd c.expName

theorem diffFile_same_data (c : RunCommand) (H : Host) (re : ReMatch) (fs : FileSys)
    (actual expected : PyStr) (d d' : FileData)
    (hre : startswith (splitext expected).2 ".expectregex".toList = false)
    (he : fs.readData H expected = .ok d) (ha : fs.readData H actual = .ok d')
    (hb : d.bytes = d'.bytes) : c.diffFile H re fs actual expected = .ok (false, fs) := by
  simp only [RunCommand.diffFile, hre, Bool.false_eq_true, if_false, FileSys.diffU, he, ha, hb,
    bne_self_eq_false]
  rfl

/-- What a successful refresh did: it copied stdout over the expectation, read
stderr back, and copied it to the `_err` sidecar exactly when it was not empty. -/
theorem refreshBaseline_ok {c : RunCommand} {H : Host} {fs : FileSys} {r : Bool × FileSys}
    (h : c.refreshBaseline H fs = .ok r) : r.1 = false ∧ ∃ fsA,
      fs.copyfile H c.names.stdout c.expName = .ok fsA ∧ ∃ s,
      fsA.readText H c.names.stderr = .ok s ∧
      (s = [] ∧ r.2 = fsA ∨ s ≠ [] ∧ fsA.copyfile H c.names.stderr c.errName = .ok r.2) := by
  unfold RunCommand.refreshBaseline at h
  cases h1 : fs.copyfile H c.names.stdout c.expName with
  | error e => rw [h1] at h; cases h
  | ok fsA =>
    rw [h1] at h
    cases h2 : fsA.readText H c.names.stderr with
    | error e => simp only [bind, Except.bind, h2] at h; cases h
    | ok s =>
      simp only [bind, Except.bind, h2] at h
      by_cases hs : s = []
      · subst hs
        cases h
        exact ⟨rfl, fsA, rfl, [], h2, Or.inl ⟨rfl, rfl⟩⟩
      · simp only [List.isEmpty_iff, hs, if_false] at h
        cases h3 : fsA.copyfile H c.names.stderr c.errName with
        | error e => rw [h3] at h; cases h
        | ok fs1 =>
          rw [h3] at h
          cases h
          exact ⟨rfl, fsA, rfl, s, h2, Or.inr ⟨hs, h3⟩⟩

/-- The comparison accepts when stdout has the expectation's bytes and stderr is
empty with no sidecar, or has the sidecar's bytes. -/
theorem compareBaseline_accepts (c : RunCommand) (H : Host) (re : ReMatch) (fs : FileSys)
    (d d' : FileData) (hre : startswith (splitext c.expName).2 ".expectregex".toList = false)
    (hre' : startswith (splitext c.errName).2 ".expectregex".toList = false)
    (hexp : fs.readData H c.expName = .ok d) (hout : fs.readData H c.names.stdout = .ok d')
    (hb : d.bytes = d'.bytes)
    (hside : (fs.get H c.errName = none ∧ fs.readText H c.names.stderr = .ok []) ∨
      ∃ e e', fs.readData H c.errName = .ok e ∧ fs.readData H c.names.stderr = .ok e' ∧
        e.bytes = e'.bytes) :
    c.compareBaseline H re fs = .ok (false, fs) := by
  unfold RunCommand.compareBaseline
  rw [diffFile_same_data c H re fs _ _ d d' hre hexp hout hb]
  dsimp only
  rcases hside with ⟨hnone, hempty⟩ | ⟨e, e', he, he', heb⟩
  · rw [if_neg (by simp [FileSys.exists, hnone]), hempty]
    rfl
  · rw [if_pos (FileSys.exists_of_readData_ok he)]
    exact diffFile_same_data c H re fs _ _ e e' hre' he he' heb

/-- A refresh leaves stdout and the expectation holding the same data. -/
theorem refresh_saves_stdout {c : RunCommand} {H : Host} {fs fs1 : FileSys} {b : Bool}
    (hok : c.refreshBaseline H fs = .ok (b, fs1))
    (hso : resolve H.cwd c.errName ≠ resolve H.cwd c.names.stdout) :
    ∃ d, fs1.readData H c.expName = .ok d ∧ fs1.readData H c.names.stdout = .ok d := by
  obtain ⟨-, fsA, h1, s, -, h3⟩ := refreshBaseline_ok hok
  obtain ⟨hne, d, hd, rfl⟩ := FileSys.copyfile_ok h1
  have hexp := FileSys.readData_set fs H c.expName (resolve H.cwd c.expName) d
  have hout := FileSys.readData_set fs H c.names.stdout (resolve H.cwd c.expName) d
  rw [if_pos rfl] at hexp
  rw [if_neg hne, hd] at hout
  rcases h3 with ⟨-, rfl⟩ | ⟨-, h4⟩
  · exact ⟨d, hexp, hout⟩
  · obtain ⟨-, e, -, rfl⟩ := FileSys.copyfile_ok h4
    refine ⟨d, ?_, ?_⟩
    · rw [FileSys.readData_set, if_neg (Ne.symm (resolve_errName_ne_expName c H.cwd)), hexp]
    · rw [FileSys.readData_set, if_neg (Ne.symm hso), hout]

/-- After a refresh the `_err` sidecar agrees with stderr, unless one was there
before and the refreshed stderr is empty. -/
theorem refresh_sidecar {c : RunCommand} {H : Host} {fs fs1 : FileSys} {b : Bool}
    (hok : c.refreshBaseline H fs = .ok (b, fs1))
    (hclean : fs.get H c.errName = none ∨ fs1.readText H c.names.stderr ≠ .ok []) :
    (fs1.get H c.errName = none ∧ fs1.readText H c.names.stderr = .ok []) ∨
      ∃ e, fs1.readData H c.errName = .ok e ∧ fs1.readData H c.names.stderr = .ok e := by
  obtain ⟨-, fsA, h1, s, h2, h3⟩ := refreshBaseline_ok hok
  obtain ⟨-, d, -, rfl⟩ := FileSys.copyfile_ok h1
  rcases h3 with ⟨rfl, rfl⟩ | ⟨-, h4⟩
  · refine Or.inl ⟨?_, h2⟩
    rw [FileSys.get_set, if_neg (resolve_errName_ne_expName c H.cwd)]
    exact hclean.resolve_right (not_not.mpr h2)
  · obtain ⟨hne, e, he, rfl⟩ := FileSys.copyfile_ok h4
    refine Or.inr ⟨e, ?_, ?_⟩
    · rw [FileSys.readData_set, if_pos rfl]
    · rw [FileSys.readData_set, if_neg hne, he]

/-- `report_diff` in update mode followed by `report_diff` comparing accepts the
captures the first one saved, unless a `_err` sidecar was there before and the
refreshed stderr is empty. -/
theorem report_diff_accepts_refreshed (c : RunCommand) (H : Host) (re : ReMatch)
    (fs fs1 : FileSys) (b : Bool) (sb sb' : PyStr)
    (hE : c.testHasExpect = true) (hR : c.testReportsOk = false)
    (hM : c.manualUpdateBaseline = false) (hX : endswith c.expName ".expectregex".toList = false)
    (hout : fs.exists H c.names.stdout = true)
    (hok : c.reportDiff H ⟨true, sb⟩ re fs = .ok (b, fs1))
    (hre : startswith (splitext c.expName).2 ".expectregex".toList = false)
    (hre' : startswith (splitext c.errName).2 ".expectregex".toList = false)
    (hso : resolve H.cwd c.errName ≠ resolve H.cwd c.names.stdout)
    (hclean : fs.get H c.errName = none ∨ fs1.readText H c.names.stderr ≠ .ok []) :
    c.reportDiff H ⟨false, sb'⟩ re fs1 = .ok (false, fs1) := by
  have href : c.refreshBaseline H fs = .ok (b, fs1) := by
    simpa only [RunCommand.reportDiff, hR, hE, hout, hM, hX, Bool.not_true, Bool.not_false,
      Bool.and_self, Bool.false_eq_true, if_true, if_false] using hok
  obtain ⟨d, hexp, hstd⟩ := refresh_saves_stdout href hso
  have hacc : c.compareBaseline H re fs1 = .ok (false, fs1) := by
    rcases refresh_sidecar href hclean with h | ⟨e, he, he'⟩
    · exact compareBaseline_accepts c H re fs1 d d hre hre' hexp hstd rfl (Or.inl h)
    · exact compareBaseline_accepts c H re fs1 d d hre hre' hexp hstd rfl
        (Or.inr ⟨e, e, he, he', rfl⟩)
  simp [RunCommand.reportDiff, hE, hR, FileSys.exists_of_readData_ok hexp,
    FileSys.exists_of_readData_ok hstd, hacc]

/-- A refresh that found stderr empty leaves a `_err` sidecar that was there before;
the comparing `report_diff` that follows then finds a difference whenever that sidecar
is not empty, and writes the `testfail` marker. -/
theorem report_diff_rejects_stale_err (c : RunCommand) (H : Host) (re : ReMatch)
    (fs fs1 : FileSys) (b : Bool) (sb sb' : PyStr)
    (hE : c.testHasExpect = true) (hR : c.testReportsOk = false)
    (hM : c.manualUpdateBaseline = false) (hX : endswith c.expName ".expectregex".toList = false)
    (hout : fs.exists H c.names.stdout = true)
    (hok : c.reportDiff H ⟨true, sb⟩ re fs = .ok (b, fs1))
    (hre : startswith (splitext c.expName).2 ".expectregex".toList = false)
    (hre' : startswith (splitext c.errName).2 ".expectregex".toList = false)
    (hso : resolve H.cwd c.errName ≠ resolve H.cwd c.names.stdout)
    {e : FileData} (hstale : fs.readData H c.errName = .ok e) (hne : e.bytes ≠ [])
    (hempty : fs1.readText H c.names.stderr = .ok []) :
    c.reportDiff H ⟨false, sb'⟩ re fs1 = (c.markFailed H fs1).map fun fs2 => (true, fs2) := by
  have href : c.refreshBaseline H fs = .ok (b, fs1) := by
    simpa only [RunCommand.reportDiff, hR, hE, hout, hM, hX, Bool.not_true, Bool.not_false,
      Bool.and_self, Bool.false_eq_true, if_true, if_false] using hok
  obtain ⟨d, hexp, hstd⟩ := refresh_saves_stdout href hso
  obtain ⟨-, fsA, h1, s, h2, h3⟩ := refreshBaseline_ok href
  obtain ⟨-, d', -, rfl⟩ := FileSys.copyfile_ok h1
  -- stderr was empty, so the refresh copied stdout only and the sidecar is the old one
  have hfs1 : fs1 = fs.set (resolve H.cwd c.expName) (.file d') := by
    rcases h3 with ⟨-, rfl⟩ | ⟨hs, h4⟩
    · rfl
    · obtain ⟨hne', e', -, rfl⟩ := FileSys.copyfile_ok h4
      rw [FileSys.readText, FileSys.readData_set, if_neg hne', ← FileSys.readText, h2] at hempty
      exact absurd (Except.ok.inj hempty) hs
  subst hfs1
  have hside : (fs.set (resolve H.cwd c.expName) (.file d')).readData H c.errName = .ok e := by
    rw [FileSys.readData_set, if_neg (resolve_errName_ne_expName c H.cwd), hstale]
  obtain ⟨e', he', hb'⟩ : ∃ e', (fs.set (resolve H.cwd c.expName) (.file d')).readData H
      c.names.stderr = .ok e' ∧ e'.bytes = [] := by
    revert hempty
    rw [FileSys.readText]
    cases (fs.set (resolve H.cwd c.expName) (.file d')).readData H c.names.stderr with
    | error _ => intro h; cases h
    | ok e' => intro h; exact ⟨e', rfl, Except.ok.inj h⟩
  simp only [RunCommand.reportDiff, hE, hR, FileSys.exists_of_readData_ok hstd,
    FileSys.exists_of_readData_ok hexp, Bool.not_true, Bool.not_false, Bool.false_and,
    Bool.false_eq_true, if_false, RunCommand.compareBaseline,
    diffFile_same_data c H re _ _ _ d d hre hexp hstd rfl, FileSys.exists_of_readData_ok hside,
    if_true]
  simp only [RunCommand.diffFile, hre', FileSys.diffU, hside, he', hb', Bool.false_eq_true,
    if_false, pure_bind, bne_iff_ne, ne_eq, hne, not_false_eq_true, if_true]
  rfl

/-- A checkout whose last run of `a.sk` printed to stdout only, while an older run
left `a.exp_err` next to the expectation. -/
def staleFs : FileSys := FileSys.ofList
  [([], .dir), (["r".toList], .dir), (["r".toList, "src".toList], .dir),
   (["r".toList, "build".toList], .dir), (["r".toList, "build".toList, "src".toList], .dir),
   (["r".toList, "build".toList, "src".toList, "a.native.out".toList], .file (.text "a\n".toList)),
   (["r".toList, "build".toList, "src".toList, "a.native.err".toList], .file (.text [])),
   (["r".toList, "src".toList, "a.exp".toList], .file (.text "old\n".toList)),
   (["r".toList, "src".toList, "a.exp_err".toList], .file (.text "old err\n".toList))]

def staleCmd : RunCommand :=
  RunCommand.create staleFs checkoutHost ⟨true, []⟩
    { test := "/r/src/a.sk".toList, hasCmd := false, backend := "native".toList }

/-- The update run accepts and rewrites `a.exp`, but leaves the stale `a.exp_err`;
the next comparing run then reports a difference on the very same captures. -/
theorem refresh_then_compare_rejects_stale_err :
    staleCmd.testHasExpect = true ∧ staleCmd.testReportsOk = false ∧
    staleCmd.manualUpdateBaseline = false ∧
    staleFs.exists checkoutHost staleCmd.names.stdout = true ∧
    staleFs.exists checkoutHost staleCmd.names.stderr = true ∧
    endswith staleCmd.expName ".expectregex".toList = false ∧
    (staleCmd.reportDiff checkoutHost ⟨true, []⟩ (fun _ _ => none) staleFs).toOption.map
      Prod.fst = some false ∧
    ((staleCmd.reportDiff checkoutHost ⟨true, []⟩ (fun _ _ => none) staleFs).toOption.bind
      fun r => (staleCmd.reportDiff checkoutHost ⟨false, []⟩ (fun _ _ => none) r.2).toOption.map
        Prod.fst) = some true := by
  have hok : staleCmd.reportDiff checkoutHost ⟨true, []⟩ (fun _ _ => none) staleFs =
      .ok (false, staleFs.set (resolve checkoutHost.cwd staleCmd.expName)
        (.file (.text "a\n".toList))) := rfl
  have hrej := report_diff_rejects_stale_err staleCmd checkoutHost (fun _ _ => none) staleFs _
    false [] [] rfl rfl rfl rfl rfl hok rfl rfl (by decide) rfl (by decide) rfl
  refine ⟨rfl, rfl, rfl, rfl, rfl, rfl, by rw [hok]; rfl, ?_⟩
  rw [hok]
  show (staleCmd.reportDiff checkoutHost ⟨false, []⟩ (fun _ _ => none)
    (staleFs.set (resolve checkoutHost.cwd staleCmd.expName) (.file (.text "a\n".toList)))).toOption.map
      Prod.fst = some true
  rw [hrej]
  rfl

end SkipTools
