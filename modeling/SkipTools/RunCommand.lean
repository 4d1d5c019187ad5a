import SkipTools.FileSystem

/-! `RunCommand` of common.py: the object's fields, `_computeFilenames`, the run in
`__init__` as the file-system states it passes through, `fromArtifacts` and
`checkReturnCode`. The child process is the environment: how it ends is an input. -/

namespace SkipTools

/-- The parts of `ARGS` that `RunCommand` reads; `shortBackend` is what
`getShortBackend()` returns, `[]` for `None`. -/
structure Args where
  updateBaseline : Bool
  shortBackend : PyStr

/-- `backend or getShortBackend()`. -/
def Args.backendOr (args : Args) (backend : PyStr) : PyStr :=
  if backend = [] then args.shortBackend else backend

/-- The arguments of `RunCommand(test, cmd, ...)`; `hasCmd` is the truth of `cmd`. -/
structure RunSpec where
  test : PyStr
  hasCmd : Bool
  testReportsOk : Bool := false
  expectError : Bool := false
  testHasExpect : Bool := true
  backend : PyStr := []
  expectedExtension : PyStr := ".exp".toList
  manualUpdateBaseline : Bool := false

/-- The attributes of a `RunCommand` object. -/
structure RunCommand where
  test : PyStr
  testReportsOk : Bool
  expectError : Bool
  testHasExpect : Bool
  manualUpdateBaseline : Bool
  backend : PyStr
  returncode : Int
  expectedExtension : PyStr
  timeTaken : Option PyFloat
  names : ArtifactNames
  expName : PyStr
  deriving DecidableEq, Repr

/-- The expectation path of `_computeFilenames`: by default the expected extension
next to the source; for each extension in turn the first existing of the
destination and the source path replaces it, so `.expectregex` wins. -/
def computeExpName (fs : FileSys) (H : Host) (test ext : PyStr) : PyStr :=
  let dstWe := computeDstWithoutExt H test
  let src := (splitext test).1
  let pick (acc e : PyStr) : PyStr :=
    if fs.exists H (dstWe ++ e) then dstWe ++ e
    else if fs.exists H (src ++ e) then src ++ e else acc
  [ext, ".expectregex".toList].foldl pick (src ++ ext)

/-- `__init__` up to `if not cmd: return`: the attributes, `_computeFilenames` and
the `_failure` marker. -/
def RunCommand.create (fs : FileSys) (H : Host) (args : Args) (s : RunSpec) : RunCommand :=
  let backend := args.backendOr s.backend
  let expName := computeExpName fs H s.test s.expectedExtension
  { test := s.test
    testReportsOk := s.testReportsOk
    expectError := s.expectError || fs.exists H (expName ++ "_failure".toList)
    testHasExpect := s.testHasExpect && !s.testReportsOk
    manualUpdateBaseline := s.manualUpdateBaseline
    backend := backend
    returncode := 1
    expectedExtension := s.expectedExtension
    timeTaken := none
    names := artifactNames H s.test backend
    expName := expName }

@[simp] theorem RunCommand.create_names (fs : FileSys) (H : Host) (args : Args) (s : RunSpec) :
    (RunCommand.create fs H args s).names = artifactNames H s.test (args.backendOr s.backend) :=
  rfl

/-- How the child run by `__init__` behaves, as far as the harness observes it:
`Popen` raises; an exception arrives during `p.wait()`; the child exits; or it
exits and an exception arrives once `json.dump` has written the first `cut`
characters of the record (the file is flushed when the `with` block closes it).
`out` and `err` are what the captures hold. -/
inductive ChildRun
  | spawnFails
  | interrupted (out err : PyStr)
  | exits (out err : PyStr) (rc : Int) (elapsed : PyFloat)
  | dumpInterrupted (out err : PyStr) (rc : Int) (elapsed : PyFloat) (cut : Nat)

/-- The record `json.dump` writes at the end of `__init__`. -/
def RunCommand.record (c : RunCommand) : RunRecord :=
  ⟨c.returncode, c.timeTaken, c.expectError, c.testReportsOk, some c.testHasExpect⟩

/-- What the ledger holds once `json.dump` of `r` has written its first `cut`
characters: a torn text, or the record when it got to the end. -/
def dumpedPart (r : RunRecord) (cut : Nat) : FileData :=
  if cut < r.json.length then .text (r.json.take cut) else .record r

/-- The captures after the child has written `out` and `err` to them. -/
def FileSys.capture (fs : FileSys) (H : Host) (c : RunCommand) (out err : PyStr) : FileSys :=
  (fs.set (resolve H.cwd c.names.stdout) (.file (.text out))).set
    (resolve H.cwd c.names.stderr) (.file (.text err))

/-- The rest of `__init__` when `cmd` is given: the file-system state after each
step, and the object or the exception that ends it. -/
def RunCommand.execute (c : RunCommand) (H : Host) (child : ChildRun) (fs : FileSys) :
    List FileSys × Except PyExc RunCommand :=
  match fs.ensureDirPathExists H (dirname (computeDstWithoutExt H c.test)) with
  | (fs1, some e) => ([fs1], .error e)
  | (fs1, none) =>
    match fs1.write H c.names.stdout (.text []) with
    | .error e => ([fs1], .error e)
    | .ok fs2 =>
      match fs2.write H c.names.stderr (.text []) with
      | .error e => ([fs1, fs2], .error e)
      | .ok fs3 =>
        match fs3.write H c.names.res (.text []) with
        | .error e => ([fs1, fs2, fs3], .error e)
        | .ok fs4 =>
          match child with
          | .spawnFails => ([fs1, fs2, fs3, fs4], .error .fileNotFound)
          | .interrupted out err =>
            ([fs1, fs2, fs3, fs4, fs4.capture H c out err], .error .interrupted)
          | .exits out err rc t =>
            let c' := { c with returncode := rc, timeTaken := some t }
            let fs5 := fs4.capture H c out err
            ([fs1, fs2, fs3, fs4, fs5,
              fs5.set (resolve H.cwd c.names.res) (.file (.record c'.record))], .ok c')
          | .dumpInterrupted out err rc t cut =>
            let c' := { c with returncode := rc, timeTaken := some t }
            let fs5 := fs4.capture H c out err
            ([fs1, fs2, fs3, fs4, fs5,
              fs5.set (resolve H.cwd c.names.res) (.file (dumpedPart c'.record cut))],
              .error .interrupted)

/-- `RunCommand(...)`: the states it passes through and how it ends. -/
def RunCommand.init (fs : FileSys) (H : Host) (args : Args) (s : RunSpec) (child : ChildRun) :
    List FileSys × Except PyExc RunCommand :=
  let c := RunCommand.create fs H args s
  if s.hasCmd then c.execute H child fs else ([], .ok c)

/-- The record a run writes whole into the ledger: that of the object it returns, or,
when an exception arrives only once `json.dump` has written all of it, that of the
object it had filled in. No open raises `interrupted`. -/
def RunCommand.written (c : RunCommand) (child : ChildRun) :
    Except PyExc RunCommand → List RunRecord
  | .ok c' => [c'.record]
  | .error .interrupted =>
    match child with
    | .dumpInterrupted _ _ rc t cut =>
      let r := ({ c with returncode := rc, timeTaken := some t } : RunCommand).record
      if cut < r.json.length then [] else [r]
    | _ => []
  | .error _ => []

/-- `RunCommand.fromArtifacts(test, backend)`. `json.load` gives back a record
`json.dump` wrote whole and raises `JSONDecodeError` on a text it cannot read; what
`fromArtifacts` does with a text it can read is not followed. -/
def RunCommand.fromArtifacts (fs : FileSys) (H : Host) (args : Args) (test backend : PyStr) :
    Except PyExc RunCommand :=
  let c := RunCommand.create fs H args { test := test, hasCmd := false, backend := backend }
  if fs.isfile H c.names.res then
    match fs.readData H c.names.res with
    | .ok (.record r) =>
      .ok { c with testReportsOk := r.testReportsOk, expectError := r.expectError,
                   testHasExpect := r.testHasExpect.getD !r.testReportsOk,
                   returncode := r.returncode, timeTaken := r.timeTaken }
    | .ok (.text s) => if decodeFails s then .error .jsonDecode else .error .notRecord
    | .error e => .error e
  else .ok { c with returncode := 127 }

/-- The verdict of `checkReturnCode()`: success XOR an expected error. -/
def RunCommand.checkReturnCode (c : RunCommand) : Bool :=
  (c.returncode == 0) != c.expectError

/-! ### What a run does to the file system -/

/-- The nodes a run may change: the directories `ensureDirPathExists` makes and
the three files `__init__` opens for writing. -/
def RunCommand.Touches (c : RunCommand) (H : Host) (cs : Comps) : Prop :=
  (cs <+: dirComps H.cwd (dirPart (computeDstWithoutExt H c.test)) ∧ 0 < cs.length) ∨
    cs = resolve H.cwd c.names.stdout ∨ cs = resolve H.cwd c.names.stderr ∨
    cs = resolve H.cwd c.names.res

theorem ensure_dst_node (c : RunCommand) (H : Host) (fs fs1 : FileSys) (e : Option PyExc)
    (cs : Comps) (he : fs.ensureDirPathExists H (dirname (computeDstWithoutExt H c.test)) = (fs1, e))
    (h : ¬ (cs <+: dirComps H.cwd (dirPart (computeDstWithoutExt H c.test)) ∧ 0 < cs.length)) :
    fs1.node cs = fs.node cs := by
  have := fs.ensureDirPathExists_node H _ cs (by rwa [resolve_dirname])
  rwa [he] at this

/-- A run changes nothing outside the nodes it touches, at any point. -/
theorem execute_frame (c : RunCommand) (H : Host) (child : ChildRun) (fs : FileSys) :
    ∀ fs' ∈ (c.execute H child fs).1, ∀ cs, ¬ c.Touches H cs → fs'.node cs = fs.node cs := by
  intro fs' hmem cs hcs
  simp only [RunCommand.Touches, not_or] at hcs
  obtain ⟨hd, hso, hse, hres⟩ := hcs
  have hset : ∀ (g : FileSys) p n, cs ≠ resolve H.cwd p → g.node cs = fs.node cs →
      (g.set (resolve H.cwd p) n).node cs = fs.node cs := fun g p n hp hg => by
    rw [FileSys.set_node_of_ne _ _ _ _ hp, hg]
  unfold RunCommand.execute at hmem
  split at hmem
  · next fs1 e he =>
    simp only [List.mem_singleton] at hmem
    exact hmem ▸ ensure_dst_node c H fs fs1 _ cs he hd
  · next fs1 he =>
    have e1 := ensure_dst_node c H fs fs1 _ cs he hd
    split at hmem
    · simp only [List.mem_singleton] at hmem; exact hmem ▸ e1
    · next fs2 hw2 =>
      have e2 := FileSys.write_ok hw2 ▸ hset fs1 _ _ hso e1
      split at hmem
      · simp only [List.mem_cons, List.mem_singleton, List.not_mem_nil, or_false] at hmem
        rcases hmem with rfl | rfl <;> assumption
      · next fs3 hw3 =>
        have e3 := FileSys.write_ok hw3 ▸ hset fs2 _ _ hse e2
        split at hmem
        · simp only [List.mem_cons, List.mem_singleton, List.not_mem_nil, or_false] at hmem
          rcases hmem with rfl | rfl | rfl <;> assumption
        · next fs4 hw4 =>
          have e4 := FileSys.write_ok hw4 ▸ hset fs3 _ _ hres e3
          have e5 : ∀ out err, (fs4.capture H c out err).node cs = fs.node cs := fun out err =>
            hset _ _ _ hse (hset _ _ _ hso e4)
          cases child with
          | spawnFails =>
            simp only [List.mem_cons, List.mem_singleton, List.not_mem_nil, or_false] at hmem
            rcases hmem with rfl | rfl | rfl | rfl
            exacts [e1, e2, e3, e4]
          | interrupted out err =>
            simp only [List.mem_cons, List.mem_singleton, List.not_mem_nil, or_false] at hmem
            rcases hmem with rfl | rfl | rfl | rfl | rfl
            exacts [e1, e2, e3, e4, e5 out err]
          | exits out err rc t =>
            simp only [List.mem_cons, List.mem_singleton, List.not_mem_nil, or_false] at hmem
            rcases hmem with rfl | rfl | rfl | rfl | rfl | rfl
            exacts [e1, e2, e3, e4, e5 out err, hset _ _ _ hres (e5 out err)]
          | dumpInterrupted out err rc t cut =>
            simp only [List.mem_cons, List.mem_singleton, List.not_mem_nil, or_false] at hmem
            rcases hmem with rfl | rfl | rfl | rfl | rfl | rfl
            exacts [e1, e2, e3, e4, e5 out err, hset _ _ _ hres (e5 out err)]

/-- At every point of a run the ledger is as before, a text `json.load` rejects
(`open(res_name, 'w')` emptied it, or `json.dump` was cut short), or the record the run
wrote whole. -/
theorem execute_ledger (c : RunCommand) (H : Host) (child : ChildRun) (fs : FileSys)
    (hR : ¬ (resolve H.cwd c.names.res <+: dirComps H.cwd (dirPart (computeDstWithoutExt H c.test)) ∧
      0 < (resolve H.cwd c.names.res).length))
    (hso : resolve H.cwd c.names.res ≠ resolve H.cwd c.names.stdout)
    (hse : resolve H.cwd c.names.res ≠ resolve H.cwd c.names.stderr) :
    ∀ fs' ∈ (c.execute H child fs).1, fs'.node (resolve H.cwd c.names.res) =
        fs.node (resolve H.cwd c.names.res) ∨
      (∃ s, fs'.node (resolve H.cwd c.names.res) = some (.file (.text s)) ∧ decodeFails s = true) ∨
      ∃ r ∈ c.written child (c.execute H child fs).2,
        fs'.node (resolve H.cwd c.names.res) = some (.file (.record r)) := by
  intro fs' hmem
  unfold RunCommand.execute at hmem ⊢
  split at hmem
  · next fs1 e he =>
    simp only [List.mem_singleton] at hmem
    exact Or.inl (hmem ▸ ensure_dst_node c H fs fs1 _ _ he hR)
  · next fs1 he =>
    have e1 := ensure_dst_node c H fs fs1 _ _ he hR
    split at hmem
    · simp only [List.mem_singleton] at hmem; exact Or.inl (hmem ▸ e1)
    · next fs2 hw2 =>
      have e2 : fs2.node (resolve H.cwd c.names.res) = fs.node (resolve H.cwd c.names.res) := by
        rw [FileSys.write_ok hw2, FileSys.set_node_of_ne _ _ _ _ hso, e1]
      split at hmem
      · simp only [List.mem_cons, List.mem_singleton, List.not_mem_nil, or_false] at hmem
        rcases hmem with rfl | rfl
        exacts [Or.inl e1, Or.inl e2]
      · next fs3 hw3 =>
        have e3 : fs3.node (resolve H.cwd c.names.res) = fs.node (resolve H.cwd c.names.res) := by
          rw [FileSys.write_ok hw3, FileSys.set_node_of_ne _ _ _ _ hse, e2]
        split at hmem
        · simp only [List.mem_cons, List.mem_singleton, List.not_mem_nil, or_false] at hmem
          rcases hmem with rfl | rfl | rfl
          exacts [Or.inl e1, Or.inl e2, Or.inl e3]
        · next fs4 hw4 =>
          have e4 : fs4.node (resolve H.cwd c.names.res) = some (.file (.text [])) := by
            rw [FileSys.write_ok hw4, FileSys.set_node_self]
          have e5 : ∀ out err, (fs4.capture H c out err).node (resolve H.cwd c.names.res) =
              some (.file (.text [])) := fun out err => by
            rw [FileSys.capture, FileSys.set_node_of_ne _ _ _ _ hse,
              FileSys.set_node_of_ne _ _ _ _ hso, e4]
          cases child with
          | spawnFails =>
            simp only [List.mem_cons, List.mem_singleton, List.not_mem_nil, or_false] at hmem
            rcases hmem with rfl | rfl | rfl | rfl
            exacts [Or.inl e1, Or.inl e2, Or.inl e3, Or.inr (Or.inl ⟨_, e4, rfl⟩)]
          | interrupted out err =>
            simp only [List.mem_cons, List.mem_singleton, List.not_mem_nil, or_false] at hmem
            rcases hmem with rfl | rfl | rfl | rfl | rfl
            exacts [Or.inl e1, Or.inl e2, Or.inl e3, Or.inr (Or.inl ⟨_, e4, rfl⟩),
              Or.inr (Or.inl ⟨_, e5 out err, rfl⟩)]
          | exits out err rc t =>
            simp only [List.mem_cons, List.mem_singleton, List.not_mem_nil, or_false] at hmem
            rcases hmem with rfl | rfl | rfl | rfl | rfl | rfl
            exacts [Or.inl e1, Or.inl e2, Or.inl e3, Or.inr (Or.inl ⟨_, e4, rfl⟩),
              Or.inr (Or.inl ⟨_, e5 out err, rfl⟩),
              Or.inr (Or.inr ⟨_, List.mem_singleton_self _, FileSys.set_node_self _ _ _⟩)]
          | dumpInterrupted out err rc t cut =>
            simp only [List.mem_cons, List.mem_singleton, List.not_mem_nil, or_false] at hmem
            rcases hmem with rfl | rfl | rfl | rfl | rfl | rfl
            · exact Or.inl e1
            · exact Or.inl e2
            · exact Or.inl e3
            · exact Or.inr (Or.inl ⟨_, e4, rfl⟩)
            · exact Or.inr (Or.inl ⟨_, e5 out err, rfl⟩)
            · rw [FileSys.set_node_self, dumpedPart]
              split
              · next hcut =>
                exact Or.inr (Or.inl ⟨_, rfl, decodeFails_of_prefix _ (List.take_prefix _ _)
                  (by rw [List.length_take]; omega)⟩)
              · next hcut =>
                refine Or.inr (Or.inr ⟨_, ?_, rfl⟩)
                show _ ∈ c.written (.dumpInterrupted out err rc t cut) (.error .interrupted)
                simp only [RunCommand.written, if_neg hcut, List.mem_singleton]

/-- A run that completes ends with its record in the ledger; the object is the
one `__init__` set up, with the exit status and the elapsed time. -/
theorem execute_ok (c : RunCommand) (H : Host) (child : ChildRun) (fs : FileSys)
    (c' : RunCommand) (h : (c.execute H child fs).2 = .ok c') :
    (∃ rc t, c' = { c with returncode := rc, timeTaken := some t }) ∧
      ∃ fs', (c.execute H child fs).1.getLast? = some fs' ∧
        fs'.node (resolve H.cwd c.names.res) = some (.file (.record c'.record)) := by
  unfold RunCommand.execute at h ⊢
  split at h
  · cases h
  · split at h
    · cases h
    · split at h
      · cases h
      · split at h
        · cases h
        · cases child with
          | exits out err rc t =>
            cases h
            exact ⟨⟨rc, t, rfl⟩, _, rfl, FileSys.set_node_self _ _ _⟩
          | _ => cases h

end SkipTools
