import SkipTools.RunCommand

/-! The ledger `.res` of one test across runs, and `fromArtifacts`, which reads it
back. `__init__` truncates the ledger when it opens it and fills it only after the
child has exited, so a run cut short in between leaves a text `json.load` rejects. -/

namespace SkipTools

/-- What the ledger path may hold: nothing, a record of `done`, or a text `json.load`
rejects. -/
def LedgerOk (done : List RunRecord) : Option Node → Prop
  | some (.file (.record r)) => r ∈ done
  | some (.file (.text s)) => decodeFails s = true
  | some .dir => False
  | none => True

instance (done : List RunRecord) : ∀ n, Decidable (LedgerOk done n)
  | none => inferInstanceAs (Decidable True)
  | some .dir => inferInstanceAs (Decidable False)
  | some (.file (.text s)) => inferInstanceAs (Decidable (decodeFails s = true))
  | some (.file (.record r)) => inferInstanceAs (Decidable (r ∈ done))

theorem LedgerOk.mono {done done' : List RunRecord} {n : Option Node} (h : LedgerOk done n)
    (hs : done ⊆ done') : LedgerOk done' n := by
  rcases n with _ | _ | _ | r
  all_goals first | trivial | exact h | exact hs h

/-- The record a run given a command leaves whole in the ledger. -/
def runRecord (c : RunCommand) (s : RunSpec) (child : ChildRun)
    (result : Except PyExc RunCommand) : List RunRecord :=
  if s.hasCmd then c.written child result else []

/-- The states of the file system along runs made one after the other, each from
the state the previous one left. -/
def runSeq (H : Host) (args : Args) : FileSys → List (RunSpec × ChildRun) → List FileSys
  | _, [] => []
  | fs, (s, child) :: runs =>
    let r := RunCommand.init fs H args s child
    r.1 ++ runSeq H args (r.1.getLast?.getD fs) runs

/-- The records the runs of `runSeq` write whole to the ledger. -/
def writtenRecords (H : Host) (args : Args) : FileSys → List (RunSpec × ChildRun) →
    List RunRecord
  | _, [] => []
  | fs, (s, child) :: runs =>
    let r := RunCommand.init fs H args s child
    runRecord (RunCommand.create fs H args s) s child r.2 ++
      writtenRecords H args (r.1.getLast?.getD fs) runs

/-! ### One run -/

section Ledger

variable (H : Host) (args : Args) (t b : PyStr)

/-- The ledger of `test` for the backend `b` as `RunCommand` names it. -/
def ledgerPath : Comps := resolve H.cwd (artifactNames H t (args.backendOr b)).res

/-- The ledger is neither a directory `ensureDirPathExists` makes nor a capture. -/
theorem ledger_apart (hb : '/' ∉ args.backendOr b) :
    let names := artifactNames H t (args.backendOr b)
    ¬ (resolve H.cwd names.res <+: dirComps H.cwd (dirPart (computeDstWithoutExt H t)) ∧
      0 < (resolve H.cwd names.res).length) ∧
    resolve H.cwd names.res ≠ resolve H.cwd names.stdout ∧
    resolve H.cwd names.res ≠ resolve H.cwd names.stderr := by
  have hres : (artifactNames H t (args.backendOr b)).res =
      computeDstWithoutExt H t ++ backendName [] "res".toList (args.backendOr b) :=
    backendName_eq_append _ _ _
  have hres' : (artifactNames H t (args.backendOr b)).res =
      backendName (computeDstWithoutExt H t) [] (args.backendOr b) ++ "res".toList :=
    backendName_eq_append_ext _ _ _
  refine ⟨fun h => ?_, ?_, ?_⟩
  · rw [hres] at h
    refine resolve_append_not_prefix H.cwd _ _ ?_ ?_ h.1 <;> unfold backendName <;> split <;>
      simp [hb]
  all_goals
    rw [hres']
    exact resolve_ne_backendName _ _ _ _ _ _ (by decide) (by decide) (by decide) (by decide)
      (by decide)

variable {H args t b}

/-- One run keeps the ledger readable: at every point it is as before, a text
`json.load` rejects, or the record this run wrote whole. -/
theorem ledgerOk_init (hb : '/' ∉ args.backendOr b) (done : List RunRecord) (fs : FileSys)
    (s : RunSpec) (child : ChildRun) (hs : s.test = t ∧ s.backend = b)
    (h0 : LedgerOk done (fs.node (ledgerPath H args t b))) :
    ∀ fs' ∈ fs :: (RunCommand.init fs H args s child).1,
      LedgerOk (done ++ runRecord (RunCommand.create fs H args s) s child
          (RunCommand.init fs H args s child).2)
        (fs'.node (ledgerPath H args t b)) := by
  obtain ⟨rfl, rfl⟩ := hs
  set c := RunCommand.create fs H args s
  have hR : ledgerPath H args s.test s.backend = resolve H.cwd c.names.res := rfl
  rw [hR] at h0 ⊢
  intro fs' hmem
  rcases List.mem_cons.mp hmem with rfl | hmem
  · exact h0.mono (List.subset_append_left _ _)
  by_cases hcmd : s.hasCmd = true
  · have hinit : RunCommand.init fs H args s child = c.execute H child fs := if_pos hcmd
    rw [hinit] at hmem ⊢
    obtain ⟨hd, hso, hse⟩ := ledger_apart H args s.test s.backend hb
    rcases execute_ledger c H child fs hd hso hse fs' hmem with h | ⟨_, h, hdec⟩ | ⟨r, hr, h⟩ <;>
      rw [h]
    · exact h0.mono (List.subset_append_left _ _)
    · exact hdec
    · simp only [LedgerOk, runRecord, hcmd, if_true]
      exact List.mem_append_right _ hr
  · have hinit : RunCommand.init fs H args s child = ([], .ok c) := if_neg hcmd
    rw [hinit] at hmem
    cases hmem

/-! ### Runs after runs -/

/-- Along any sequence of runs of one test, the ledger is at every point absent, a
record there at the start or written whole by a run, or a text `json.load` rejects. -/
theorem ledgerOk_runSeq (hb : '/' ∉ args.backendOr b) :
    ∀ (runs : List (RunSpec × ChildRun)) (done : List RunRecord) (fs : FileSys),
      (∀ r ∈ runs, r.1.test = t ∧ r.1.backend = b) →
      LedgerOk done (fs.node (ledgerPath H args t b)) →
      ∀ fs' ∈ fs :: runSeq H args fs runs,
        LedgerOk (done ++ writtenRecords H args fs runs) (fs'.node (ledgerPath H args t b))
  | [], done, fs, _, h0 => by
    intro fs' hmem
    simp only [runSeq, List.mem_singleton] at hmem
    simpa only [hmem, writtenRecords, List.append_nil] using h0
  | (s, child) :: runs, done, fs, hruns, h0 => by
    have hstep := ledgerOk_init hb done fs s child (hruns _ (List.mem_cons_self _ _)) h0
    set r := RunCommand.init fs H args s child
    have hnext : r.1.getLast?.getD fs ∈ fs :: r.1 := by
      cases hl : r.1.getLast? with
      | none => exact List.mem_cons_self _ _
      | some x => exact List.mem_cons_of_mem _ (List.mem_of_getLast?_eq_some hl)
    have ih := ledgerOk_runSeq hb runs _ _ (fun x hx => hruns x (List.mem_cons_of_mem _ hx))
      (hstep _ hnext)
    intro fs' hmem
    simp only [runSeq, writtenRecords, List.mem_cons, List.mem_append] at hmem ⊢
    rw [← List.append_assoc]
    rcases hmem with rfl | hmem | hmem
    · exact (hstep _ (List.mem_cons_self _ _)).mono (List.subset_append_left _ _)
    · exact (hstep _ (List.mem_cons_of_mem _ hmem)).mono (List.subset_append_left _ _)
    · exact ih _ (List.mem_cons_of_mem _ hmem)

/-- `fromArtifacts` on a readable ledger: `returncode` 127 when it is absent, the
fields of a record of `done`, or `JSONDecodeError` on a text. -/
theorem fromArtifacts_of_ledgerOk (done : List RunRecord) (fs : FileSys)
    (h : LedgerOk done (fs.node (ledgerPath H args t b))) :
    (∃ c, RunCommand.fromArtifacts fs H args t b = .ok c ∧ c.returncode = 127) ∨
    (∃ r ∈ done, ∃ c, RunCommand.fromArtifacts fs H args t b = .ok c ∧
      c.returncode = r.returncode ∧ c.timeTaken = r.timeTaken ∧
      c.expectError = r.expectError ∧ c.testReportsOk = r.testReportsOk) ∨
    RunCommand.fromArtifacts fs H args t b = .error .jsonDecode := by
  unfold ledgerPath at h
  simp only [RunCommand.fromArtifacts, RunCommand.create_names, FileSys.isfile,
    FileSys.readData, FileSys.get]
  cases hn : fs.node (resolve H.cwd (artifactNames H t (args.backendOr b)).res) with
  | none => exact Or.inl ⟨_, rfl, rfl⟩
  | some n =>
    rw [hn] at h
    rcases n with _ | s | r
    · exact h.elim
    · exact Or.inr (Or.inr (if_pos h))
    · exact Or.inr (Or.inl ⟨r, h, _, rfl, rfl, rfl, rfl, rfl⟩)

/-- The record of an earlier run of `/r/src/a.sk`. -/
def sampleRecord : RunRecord := ⟨0, some ⟨"0.5".toList, rfl⟩, false, false, some true⟩

/-- The checkout at `/r` after a completed run of `/r/src/a.sk` on the native backend. -/
def sampleFs : FileSys := FileSys.ofList
  [([], .dir), (["r".toList], .dir), (["r".toList, "src".toList], .dir),
   (["r".toList, "build".toList], .dir), (["r".toList, "build".toList, "src".toList], .dir),
   (["r".toList, "build".toList, "src".toList, "a.native.res".toList],
     .file (.record sampleRecord))]

def sampleArgs : Args := ⟨false, "native".toList⟩

def sampleSpec : RunSpec :=
  { test := "/r/src/a.sk".toList, hasCmd := true, backend := "native".toList }

/-- A run whose command cannot be started, then one that completes. -/
def sampleRuns : List (RunSpec × ChildRun) :=
  [(sampleSpec, .spawnFails), (sampleSpec, .exits "ok\n".toList [] 0 ⟨"0.7".toList, rfl⟩)]

/-- `_computeFilenames` reads the file system only through the existence of its
four candidate expectations. -/
theorem computeExpName_congr (fs fs' : FileSys) (H : Host) (test ext : PyStr)
    (h : ∀ x ∈ [ext, ".expectregex".toList], ∀ p ∈ [computeDstWithoutExt H test, (splitext test).1],
      fs'.exists H (p ++ x) = fs.exists H (p ++ x)) :
    computeExpName fs' H test ext = computeExpName fs H test ext := by
  have h1 := h ext (by simp) (computeDstWithoutExt H test) (by simp)
  have h2 := h ext (by simp) (splitext test).1 (by simp)
  have h3 := h ".expectregex".toList (by simp) (computeDstWithoutExt H test) (by simp)
  have h4 := h ".expectregex".toList (by simp) (splitext test).1 (by simp)
  simp only [computeExpName, List.foldl_cons, List.foldl_nil, h1, h2, h3, h4]

theorem expectation_ext_facts (x : PyStr) (hx : x ∈ [".exp".toList, ".expectregex".toList]) :
    '/' ∉ x ∧ 3 ≤ x.length ∧ x.getLast? ≠ "build".toList.getLast? ∧
      ∀ e ∈ ["out".toList, "err".toList, "res".toList], x.getLast? ≠ e.getLast? := by
  simp only [List.mem_cons, List.mem_singleton, List.not_mem_nil, or_false] at hx
  rcases hx with rfl | rfl <;> decide

/-- An expectation candidate is none of the captures and not the ledger. -/
theorem expectation_not_artifact (H : Host) (t backend p x : PyStr)
    (hx : x ∈ [".exp".toList, ".expectregex".toList]) :
    let names := artifactNames H t backend
    resolve H.cwd (p ++ x) ≠ resolve H.cwd names.stdout ∧
      resolve H.cwd (p ++ x) ≠ resolve H.cwd names.stderr ∧
      resolve H.cwd (p ++ x) ≠ resolve H.cwd names.res := by
  obtain ⟨hs, hl, -, he⟩ := expectation_ext_facts x hx
  refine ⟨?_, ?_, ?_⟩ <;>
    exact resolve_ne_backendName _ _ _ _ _ _ hs hl (by decide) (by decide) (he _ (by simp))

/-- In the mirror branch an expectation next to the source is not a directory that
`ensureDirPathExists` makes below `binary_dir`. -/
theorem source_expectation_not_dir (H : Host) (t x : PyStr) (ht : IsTestPath t)
    (hin : inBinaryDir H t = false) (hs : BelowSource H t)
    (hx : x ∈ [".exp".toList, ".expectregex".toList]) :
    ¬ resolve H.cwd ((splitext t).1 ++ x) <+: dirComps H.cwd (dirPart (computeDstWithoutExt H t)) := by
  obtain ⟨hxs, hxl, hxb, -⟩ := expectation_ext_facts x hx
  obtain ⟨d, n, rfl, hd, hn, hc⟩ := ht
  obtain ⟨rest, hr, hres⟩ := hs
  obtain ⟨rest', l, rfl⟩ : ∃ rest' l, rest = rest' ++ [l] :=
    ⟨_, _, (List.dropLast_append_getLast hr).symm⟩
  have htest := hres.symm.trans (resolve_test H.cwd d n hd hn)
  rw [← List.append_assoc] at htest
  obtain ⟨hdc, hl⟩ := append_singleton_inj htest
  subst hl
  rw [splitext_test d n hd hn hc, resolve_dir_name H.cwd d n x hd hn hxs hxl, ← hdc,
    (resolve_mirror_sibling H _ n rest' hn hc hin hres x hxs hxl).2, List.append_assoc]
  intro hp
  refine H.source_append_ne_binary rest' (n ++ x) (fun hz => hxb ?_) (hp.eq_of_length ?_)
  · rw [← hz, List.getLast?_append_of_ne_nil _ (List.ne_nil_of_length_pos (by omega))]
  · simp only [List.length_append, List.length_singleton, H.binary_length]
    omega

/-- A run leaves each expectation candidate `_computeFilenames` looks for as it
found it: none is a capture, the ledger, or a directory the run makes. -/
theorem execute_keeps_expectations (fs fs' : FileSys) (H : Host) (args : Args) (s : RunSpec)
    (child : ChildRun) (ht : IsTestPath s.test)
    (hbranch : inBinaryDir H s.test = true ∨ BelowSource H s.test)
    (hmem : fs' ∈ ((RunCommand.create fs H args s).execute H child fs).1) :
    ∀ x ∈ [".exp".toList, ".expectregex".toList],
      ∀ p ∈ [computeDstWithoutExt H s.test, (splitext s.test).1],
        fs'.exists H (p ++ x) = fs.exists H (p ++ x) := by
  have hdst : ∀ x ∈ [".exp".toList, ".expectregex".toList],
      ¬ resolve H.cwd (computeDstWithoutExt H s.test ++ x) <+:
        dirComps H.cwd (dirPart (computeDstWithoutExt H s.test)) := fun x hx =>
    resolve_append_not_prefix _ _ _ (expectation_ext_facts x hx).1
      (expectation_ext_facts x hx).2.1
  have hsrc : ∀ x ∈ [".exp".toList, ".expectregex".toList],
      ¬ resolve H.cwd ((splitext s.test).1 ++ x) <+:
        dirComps H.cwd (dirPart (computeDstWithoutExt H s.test)) := by
    intro x hx
    cases hin : inBinaryDir H s.test
    · exact source_expectation_not_dir H _ x ht hin (hbranch.resolve_left (by simp [hin])) hx
    · obtain ⟨d, n, hdn, hd, hn, hc⟩ := ht
      have hsplit : (splitext s.test).1 = computeDstWithoutExt H s.test := by
        rw [hdn, splitext_test d n hd hn hc, computeDst_binary H d n hd hn hc (hdn ▸ hin)]
      rw [hsplit]
      exact hdst x hx
  intro x hx p hp
  have hdir : ¬ resolve H.cwd (p ++ x) <+:
      dirComps H.cwd (dirPart (computeDstWithoutExt H s.test)) := by
    simp only [List.mem_cons, List.mem_singleton, List.not_mem_nil, or_false] at hp
    rcases hp with rfl | rfl
    exacts [hdst x hx, hsrc x hx]
  obtain ⟨h1, h2, h3⟩ := expectation_not_artifact H s.test (args.backendOr s.backend) p x hx
  simp only [FileSys.exists, FileSys.get]
  rw [execute_frame _ H child fs fs' hmem _
    (by simp only [RunCommand.Touches, not_or]; exact ⟨fun h => hdir h.1, h1, h2, h3⟩)]

/-- After a run of a test with the default `expectedExtension` and
`manualUpdateBaseline` completes, `fromArtifacts` on the file system it leaves
rebuilds the very object that ran. The test path has no `..`, so that the files the
model reaches by `resolve` are the ones `os.stat` and `open` reach. -/
theorem fromArtifacts_after_run (fs : FileSys) (H : Host) (args : Args) (s : RunSpec)
    (child : ChildRun) (c' : RunCommand) (ht : IsTestPath s.test) (_hdots : NoDotDot s.test)
    (hbranch : inBinaryDir H s.test = true ∨ BelowSource H s.test) (hcmd : s.hasCmd = true)
    (hext : s.expectedExtension = ".exp".toList) (hman : s.manualUpdateBaseline = false)
    (hok : (RunCommand.init fs H args s child).2 = .ok c') :
    ∃ fs', (RunCommand.init fs H args s child).1.getLast? = some fs' ∧
      RunCommand.fromArtifacts fs' H args s.test s.backend = .ok c' := by
  set c := RunCommand.create fs H args s
  have hinit : RunCommand.init fs H args s child = c.execute H child fs := if_pos hcmd
  rw [hinit] at hok ⊢
  obtain ⟨⟨rc, tt, rfl⟩, fsL, hlast, hres⟩ := execute_ok c H child fs c' hok
  refine ⟨fsL, hlast, ?_⟩
  have hcand := execute_keeps_expectations fs fsL H args s child ht hbranch
    (List.mem_of_getLast?_eq_some hlast)
  have hexp : computeExpName fsL H s.test ".exp".toList = c.expName := by
    rw [← hext] at hcand ⊢
    exact computeExpName_congr fs fsL H s.test _ hcand
  simp only [RunCommand.fromArtifacts, RunCommand.create_names, FileSys.isfile,
    FileSys.readData, FileSys.get]
  rw [show resolve H.cwd (artifactNames H s.test (args.backendOr s.backend)).res =
    resolve H.cwd c.names.res from rfl, hres]
  simp only [if_true]
  refine congrArg Except.ok ?_
  simp only [RunCommand.mk.injEq]
  exact ⟨rfl, rfl, rfl, rfl, hman.symm, rfl, rfl, hext.symm, rfl, rfl, hexp⟩

/-- The object of the completed run of `sampleSpec`. -/
def sampleDone : RunCommand :=
  { RunCommand.create sampleFs checkoutHost sampleArgs sampleSpec with
    returncode := 0, timeTaken := some ⟨"0.7".toList, rfl⟩ }

theorem sample_run_read_back :
    IsTestPath sampleSpec.test ∧ NoDotDot sampleSpec.test ∧
    (inBinaryDir checkoutHost sampleSpec.test = true ∨ BelowSource checkoutHost sampleSpec.test) ∧
    sampleSpec.hasCmd = true ∧ sampleSpec.expectedExtension = ".exp".toList ∧
    sampleSpec.manualUpdateBaseline = false ∧
    (RunCommand.init sampleFs checkoutHost sampleArgs sampleSpec
      (.exits [] [] 0 ⟨"0.7".toList, rfl⟩)).2 = .ok sampleDone ∧
    ∃ fs', (RunCommand.init sampleFs checkoutHost sampleArgs sampleSpec
        (.exits [] [] 0 ⟨"0.7".toList, rfl⟩)).1.getLast? = some fs' ∧
      RunCommand.fromArtifacts fs' checkoutHost sampleArgs sampleSpec.test sampleSpec.backend =
        .ok sampleDone := by
  have ht : IsTestPath sampleSpec.test :=
    ⟨"/r/src/".toList, "a".toList, rfl, by decide, by decide, by decide⟩
  have hbr : inBinaryDir checkoutHost sampleSpec.test = true ∨
      BelowSource checkoutHost sampleSpec.test := Or.inr ⟨["a.sk".toList], by decide, by decide⟩
  have hok : (RunCommand.init sampleFs checkoutHost sampleArgs sampleSpec
      (.exits [] [] 0 ⟨"0.7".toList, rfl⟩)).2 = .ok sampleDone := rfl
  exact ⟨ht, by decide, hbr, rfl, rfl, rfl, hok,
    fromArtifacts_after_run sampleFs checkoutHost sampleArgs sampleSpec _ _ ht (by decide) hbr rfl rfl
      rfl hok⟩

/-- With another `expectedExtension` the run compares against `a.txt`, while the
object `fromArtifacts` rebuilds looks for `a.exp`. -/
theorem reload_forgets_expected_extension :
    ((RunCommand.init sampleFs checkoutHost sampleArgs
        { sampleSpec with expectedExtension := ".txt".toList }
        (.exits [] [] 0 ⟨"0.7".toList, rfl⟩)).2.toOption.map RunCommand.expName) =
      some "/r/src/a.txt".toList ∧
    ((RunCommand.init sampleFs checkoutHost sampleArgs
        { sampleSpec with expectedExtension := ".txt".toList }
        (.exits [] [] 0 ⟨"0.7".toList, rfl⟩)).1.getLast?.bind fun fs =>
      (RunCommand.fromArtifacts fs checkoutHost sampleArgs sampleSpec.test
        sampleSpec.backend).toOption.map RunCommand.expName) = some "/r/src/a.exp".toList := by
  decide

end Ledger

end SkipTools
