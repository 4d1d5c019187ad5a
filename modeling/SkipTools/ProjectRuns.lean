import SkipTools.ProjectFile

/-! Runs of tools/generate_project_json.py on one project directory, one process after
another. What the project file is for is a table: a version and the program units by
name. Against that table each run that returns sets the version and its own unit, and
either every run raises and leaves the file system as it was, or every run returns. -/

namespace SkipTools

/-- The arguments `main` passes to one `generate_project` call. -/
structure UnitCall where
  unitName : PyStr
  sources : List PyStr
  kind : PyStr
  references : List PyStr
  version : PyStr
  deriving DecidableEq, Repr

/-- The unit body the call writes. -/
def UnitCall.body (c : UnitCall) : PyJson := unitBody c.kind c.sources c.references

/-- The project the call writes after reading `project`. -/
def applyCall (project : List (PyStr × PyJson)) (c : UnitCall) : List (PyStr × PyJson) :=
  updatedProject project c.unitName c.body c.version

/-- Runs of the script on the directory `dir`, one after another: each starts on the file
system the one before left, whether that one returned or raised. The device takes every
write whole (`generateProject`'s `room` is left at no limit), so a run raises only in
`json.loads`, at a dict, or at an open. -/
def generateRuns (fs : FileSys) (H : Host) (dir : PyStr) :
    List UnitCall → FileSys × List (Except ProjectExc Unit)
  | [] => (fs, [])
  | c :: cs =>
    let r := generateProject fs H dir c.unitName c.sources c.kind c.references c.version
    let rest := generateRuns r.1 H dir cs
    (rest.1, r.2 :: rest.2)

/-- `programUnits` is a dict or missing: the projects on which `add_program_unit` does
not raise. -/
def unitsAreDict (project : List (PyStr × PyJson)) : Bool :=
  match dictGet project "programUnits".toList with
  | some (.dict _) | none => true
  | some _ => false

/-! ### What the project file is for -/

/-- A project as a table: its version, its program units by name, and the values of its
other keys (`variables`). -/
@[ext]
structure ProjectTable where
  version : Option PyJson
  units : PyStr → Option PyJson
  other : PyStr → Option PyJson

/-- A run as the table sees it: the version set, and one unit. -/
def ProjectTable.add (t : ProjectTable) (c : UnitCall) : ProjectTable :=
  { t with version := some (.str c.version), units := Function.update t.units c.unitName (some c.body) }

/-- The table a project dict stands for. -/
def ProjectTable.ofDict (project : List (PyStr × PyJson)) : ProjectTable where
  version := dictGet project "skipVersion".toList
  units := dictGet (unitsOf project)
  other k := if k = "skipVersion".toList ∨ k = "programUnits".toList then none else dictGet project k

theorem dictGet_dictSet {α : Type} (d : List (PyStr × α)) (k k' : PyStr) (v : α) :
    dictGet (dictSet d k v) k' = if k' = k then some v else dictGet d k' := by
  split
  · next h => rw [h, dictGet_dictSet_self]
  · next h => exact dictGet_dictSet_of_ne h v d

/-- The dict a run writes stands for the table it read with the run added. -/
theorem ofDict_applyCall (project : List (PyStr × PyJson)) (c : UnitCall) :
    ProjectTable.ofDict (applyCall project c) = (ProjectTable.ofDict project).add c := by
  ext1
  · exact version_updatedProject ..
  · funext n
    simp only [ProjectTable.ofDict, ProjectTable.add, applyCall, unitsOf_updatedProject,
      dictGet_dictSet, Function.update_apply]
  · funext k
    simp only [ProjectTable.ofDict, ProjectTable.add]
    split
    · rfl
    · next h =>
      rw [not_or] at h
      rw [applyCall, updatedProject, dictGet_dictSet_of_ne h.2, dictGet_dictSet_of_ne h.1]

theorem ofDict_foldl (project : List (PyStr × PyJson)) (cs : List UnitCall) :
    ProjectTable.ofDict (cs.foldl applyCall project) =
      cs.foldl ProjectTable.add (ProjectTable.ofDict project) := by
  induction cs generalizing project with
  | nil => rfl
  | cons c cs ih => rw [List.foldl_cons, List.foldl_cons, ih, ofDict_applyCall]

/-- After the runs, a unit is the body of the last run that names it, or what it was. -/
theorem units_foldl_add (t : ProjectTable) (cs : List UnitCall) (n : PyStr) :
    (cs.foldl ProjectTable.add t).units n =
      ((cs.reverse.find? fun c => c.unitName = n).map UnitCall.body).or (t.units n) := by
  induction cs generalizing t with
  | nil => rfl
  | cons c cs ih =>
    rw [List.foldl_cons, ih, List.reverse_cons, List.find?_append, List.find?_singleton]
    simp only [ProjectTable.add, Function.update_apply, decide_eq_true_eq, eq_comm (a := n)]
    cases cs.reverse.find? fun c => c.unitName = n <;> split <;> rfl

/-- After the runs, the version is the last run's, or what it was. -/
theorem version_foldl_add (t : ProjectTable) (cs : List UnitCall) :
    (cs.foldl ProjectTable.add t).version =
      (cs.getLast?.map fun c => PyJson.str c.version).or t.version := by
  induction cs generalizing t with
  | nil => rfl
  | cons c cs ih =>
    rw [List.foldl_cons, ih, List.getLast?_cons]
    cases cs.getLast? <;> rfl

/-! ### The file across runs -/

/-- The project file of `dir` holds `project` as `write_project_file` writes it, in a
directory that exists, so that writing it again changes nothing. `project` has no float,
holds each key once in every dict, and its units are a dict or missing. -/
structure Stored (fs : FileSys) (H : Host) (dir : PyStr) (project : List (PyStr × PyJson)) :
    Prop where
  written : fs.write H (projectFilePath H dir) (.text (dumps (.dict project))) = .ok fs
  wf : (PyJson.dict project).wf
  units : unitsAreDict project = true

theorem unitsAreDict_applyCall (project : List (PyStr × PyJson)) (c : UnitCall) :
    unitsAreDict (applyCall project c) = true := by
  rw [unitsAreDict, applyCall, updatedProject, dictGet_dictSet_self]

section Runs

variable {fs fs₁ fs' : FileSys} {H : Host} {dir : PyStr} {kvs : List (PyStr × PyJson)}

theorem Stored.read (hs : Stored fs H dir kvs) (createDefault : Bool) :
    readProjectFile fs H dir createDefault = (fs, .ok (.dict kvs)) :=
  readProjectFile_write hs.written hs.wf createDefault

/-- A run after a read that gave a project whose units are a dict writes the updated
project where the read left the file system. -/
theorem generateProject_of_units (hr : readProjectFile fs H dir true = (fs₁, .ok (.dict kvs)))
    (hu : unitsAreDict kvs = true) (c : UnitCall) :
    generateProject fs H dir c.unitName c.sources c.kind c.references c.version =
      let w := writeProjectFile fs₁ H dir (some (applyCall kvs c))
      (w.1, w.2.map fun _ => ()) := by
  rw [generateProject_of_read hr]
  cases h : dictGet kvs "programUnits".toList with
  | none => rfl
  | some x => cases x <;> first | rfl | (rw [unitsAreDict, h] at hu; cases hu)

/-- The run returns when the write succeeds, and the file then holds the updated project. -/
theorem generateProject_stored (hr : readProjectFile fs H dir true = (fs₁, .ok (.dict kvs)))
    (hwf : (PyJson.dict kvs).wf) (hu : unitsAreDict kvs = true) (c : UnitCall)
    (hw : fs₁.write H (projectFilePath H dir) (.text (dumps (.dict (applyCall kvs c)))) = .ok fs') :
    generateProject fs H dir c.unitName c.sources c.kind c.references c.version = (fs', .ok ()) ∧
      Stored fs' H dir (applyCall kvs c) := by
  refine ⟨?_, write_same hw, updatedProject_wf hwf _ (unitBody_wf _ _ _) _,
    unitsAreDict_applyCall kvs c⟩
  have hne : applyCall kvs c ≠ [] := updatedProject_ne_nil _ _ _ _
  rw [generateProject_of_units hr hu, writeProjectFile_of_write hne hw]
  rfl

/-- The run raises when the write fails, and changes nothing the read did not. -/
theorem generateProject_write_error (hr : readProjectFile fs H dir true = (fs₁, .ok (.dict kvs)))
    (hu : unitsAreDict kvs = true) (c : UnitCall) {e : PyExc}
    (hw : fs₁.write H (projectFilePath H dir) (.text (dumps (.dict (applyCall kvs c)))) = .error e) :
    ∃ e', generateProject fs H dir c.unitName c.sources c.kind c.references c.version =
      (fs₁, .error e') := by
  obtain ⟨h1, msg, h2⟩ := writeProjectFile_of_open_error (some (applyCall kvs c)) none hw
  rw [generateProject_of_units hr hu]
  exact ⟨_, Prod.ext h1 (by simp only [h2]; rfl)⟩

/-- From a stored project every run returns, and the file holds the project with each run
applied in turn; no other path changes. -/
theorem Stored.runs (hs : Stored fs H dir kvs) (cs : List UnitCall) :
    (generateRuns fs H dir cs).2 = cs.map (fun _ => .ok ()) ∧
      Stored (generateRuns fs H dir cs).1 H dir (cs.foldl applyCall kvs) ∧
      ∀ p ≠ resolve H.cwd (projectFilePath H dir), (generateRuns fs H dir cs).1.node p = fs.node p := by
  induction cs generalizing fs kvs with
  | nil => exact ⟨rfl, hs, fun _ _ => rfl⟩
  | cons c cs ih =>
    obtain ⟨hg, hs'⟩ := generateProject_stored (hs.read true) hs.wf hs.units c
      (write_write hs.written _)
    obtain ⟨h1, h2, h3⟩ := ih hs'
    simp only [generateRuns, hg, List.map_cons, List.foldl_cons]
    exact ⟨congrArg _ h1, h2, fun p hp => by rw [h3 p hp, FileSys.set_node_of_ne _ _ _ _ hp]⟩

/-- When the project file cannot be written, every run after a read that changed nothing
raises and changes nothing. -/
theorem generateRuns_of_write_error (hr : readProjectFile fs H dir true = (fs, .ok (.dict kvs)))
    (hu : unitsAreDict kvs = true) {e : PyExc}
    (he : ∀ d, fs.write H (projectFilePath H dir) d = .error e) (cs : List UnitCall) :
    (generateRuns fs H dir cs).1 = fs ∧ ∀ r ∈ (generateRuns fs H dir cs).2, ∃ e', r = .error e' := by
  induction cs with
  | nil => exact ⟨rfl, fun _ h => absurd h (List.not_mem_nil _)⟩
  | cons c cs ih =>
    obtain ⟨e', hg⟩ := generateProject_write_error hr hu c (he _)
    simp only [generateRuns, hg, List.mem_cons]
    exact ⟨ih.1, fun r hr' => hr'.elim (fun h => ⟨e', h⟩) (ih.2 r)⟩

/-- A read changes no path but the project file. -/
theorem readProjectFile_frame {createDefault : Bool}
    {r : Except ProjectExc PyJson} (hr : readProjectFile fs H dir createDefault = (fs₁, r)) :
    ∀ p ≠ resolve H.cwd (projectFilePath H dir), fs₁.node p = fs.node p := by
  intro p hp
  rcases readProjectFile_cases fs H dir createDefault with h | ⟨-, -, h⟩ <;> simp only [hr] at h
  · rw [h]
  · rw [FileSys.write_ok h, FileSys.set_node_of_ne _ _ _ _ hp]

/-- After a read that gave a project, when the file can be written every run returns. -/
theorem generateRuns_of_writable (hr : readProjectFile fs H dir true = (fs₁, .ok (.dict kvs)))
    (hwf : (PyJson.dict kvs).wf) (hu : unitsAreDict kvs = true)
    (hw : ∀ d, ∃ fs', fs₁.write H (projectFilePath H dir) d = .ok fs')
    (c : UnitCall) (cs : List UnitCall) :
    (generateRuns fs H dir (c :: cs)).2 = (c :: cs).map (fun _ => .ok ()) ∧
      Stored (generateRuns fs H dir (c :: cs)).1 H dir ((c :: cs).foldl applyCall kvs) ∧
      ∀ p ≠ resolve H.cwd (projectFilePath H dir),
        (generateRuns fs H dir (c :: cs)).1.node p = fs.node p := by
  obtain ⟨fs', hw'⟩ := hw (.text (dumps (.dict (applyCall kvs c))))
  obtain ⟨hg, hs⟩ := generateProject_stored hr hwf hu c hw'
  obtain ⟨h1, h2, h3⟩ := hs.runs cs
  simp only [generateRuns, hg, List.map_cons, List.foldl_cons]
  exact ⟨congrArg _ h1, h2, fun p hp => by
    rw [h3 p hp, FileSys.write_ok hw', FileSys.set_node_of_ne _ _ _ _ hp, readProjectFile_frame hr p hp]⟩

theorem resolve_projectFilePath (H : Host) (dir : PyStr) :
    resolve H.cwd (projectFilePath H dir) = resolve H.cwd dir ++ ["skip.project.json".toList] := by
  have hn := resolve_names H.cwd dir H.cwd_names
  have hname : IsName "skip.project.json".toList := by decide
  have hpath : projectFilePath H dir = render (resolve H.cwd dir ++ ["skip.project.json".toList]) := by
    rw [projectFilePath, realpath]
    cases h : resolve H.cwd dir with
    | nil => rfl
    | cons x xs =>
      exact join_render (x :: xs) ["skip.project.json".toList] (List.cons_ne_nil _ _)
        (List.cons_ne_nil _ _) (h ▸ hn) fun y hy => (List.mem_singleton.mp hy) ▸ hname
  rw [hpath, resolve_render _ _ fun x hx => (List.mem_append.mp hx).elim (hn x)
    fun h => (List.mem_singleton.mp h) ▸ hname]

/-- In a directory that exists, a missing project file can be written. -/
theorem write_of_missing (hm : fs.get H (projectFilePath H dir) = none)
    (hdir : fs.node (resolve H.cwd dir) = some .dir) (d : FileData) :
    fs.write H (projectFilePath H dir) d =
      .ok (fs.set (resolve H.cwd (projectFilePath H dir)) (.file d)) := by
  have hp : (resolve H.cwd (projectFilePath H dir)).dropLast = resolve H.cwd dir := by
    rw [resolve_projectFilePath, List.dropLast_concat]
  unfold FileSys.write
  simp only [FileSys.get] at hm
  simp only [hm, hp, hdir]

/-- In a directory that exists, reading a missing project file writes the default project. -/
theorem readProjectFile_missing (hm : fs.get H (projectFilePath H dir) = none)
    (hdir : fs.node (resolve H.cwd dir) = some .dir) :
    readProjectFile fs H dir true = (fs.set (resolve H.cwd (projectFilePath H dir))
      (.file (.text (dumps defaultProject))), .ok (.dict defaultMembers)) := by
  have hr : fs.readText H (projectFilePath H dir) = .error .fileNotFound := by
    simp only [FileSys.readText, FileSys.readData, hm]
    rfl
  rw [readProjectFile, hr]
  dsimp only
  rw [if_pos rfl, writeProjectFile_none]
  exact writeProjectFile_of_write (List.cons_ne_nil _ _) (write_of_missing hm hdir _)

/-- From a project file that reads as a project without floats, holding each key once and
with its units a dict or missing, the runs either all raise and change nothing, or all
return: the file then stands for the table the first read gave with every run added in
turn, and no other path has changed. -/
theorem generate_runs_all_or_none {cs : List UnitCall}
    (hr : readProjectFile fs H dir true = (fs₁, .ok (.dict kvs))) (hwf : (PyJson.dict kvs).wf)
    (hu : unitsAreDict kvs = true) :
    ((generateRuns fs H dir cs).1 = fs ∧ ∀ r ∈ (generateRuns fs H dir cs).2, ∃ e, r = .error e) ∨
      ((generateRuns fs H dir cs).2 = cs.map (fun _ => .ok ()) ∧
        (∃ kvs', readProjectFile (generateRuns fs H dir cs).1 H dir false =
            ((generateRuns fs H dir cs).1, .ok (.dict kvs')) ∧
          ProjectTable.ofDict kvs' = cs.foldl ProjectTable.add (ProjectTable.ofDict kvs)) ∧
        ∀ p ≠ resolve H.cwd (projectFilePath H dir), (generateRuns fs H dir cs).1.node p = fs.node p) := by
  cases cs with
  | nil => exact .inl ⟨rfl, fun _ h => absurd h (List.not_mem_nil _)⟩
  | cons c cs =>
    rcases FileSys.write_cases fs₁ H (projectFilePath H dir) with ⟨e, he⟩ | hw
    · -- the read wrote nothing: a file it wrote would take the second write
      have hfs : fs₁ = fs := by
        rcases readProjectFile_cases fs H dir true with h | ⟨-, -, h⟩ <;> simp only [hr] at h
        · exact h
        · cases (write_write h (.text [])).symm.trans (he _)
      subst hfs
      exact .inl (generateRuns_of_write_error hr hu he _)
    · obtain ⟨h1, hs, h3⟩ := generateRuns_of_writable hr hwf hu (fun d => ⟨_, hw d⟩) c cs
      exact .inr ⟨h1, ⟨_, hs.read false, ofDict_foldl kvs _⟩, h3⟩

/-- Two runs for the unit `app`, with a run for `lib` between them. -/
def sampleCalls : List UnitCall :=
  [⟨"lib".toList, ["lib.sk".toList], "Library".toList, [], "0.2".toList⟩,
   ⟨"app".toList, ["main.sk".toList, "lib/util.sk".toList], "Program".toList, ["/prelude".toList],
     "0.3".toList⟩]

theorem generate_runs_sample_all_or_none :
    readProjectFile projectFs checkoutHost "/p".toList true =
        (projectFsDefault, .ok (.dict defaultMembers)) ∧
      (PyJson.dict defaultMembers).wf ∧ unitsAreDict defaultMembers = true ∧
      (((generateRuns projectFs checkoutHost "/p".toList sampleCalls).1 = projectFs ∧
          ∀ r ∈ (generateRuns projectFs checkoutHost "/p".toList sampleCalls).2, ∃ e, r = .error e) ∨
        ((generateRuns projectFs checkoutHost "/p".toList sampleCalls).2 =
            sampleCalls.map (fun _ => .ok ()) ∧
          (∃ kvs', readProjectFile (generateRuns projectFs checkoutHost "/p".toList sampleCalls).1
              checkoutHost "/p".toList false =
                ((generateRuns projectFs checkoutHost "/p".toList sampleCalls).1, .ok (.dict kvs')) ∧
            ProjectTable.ofDict kvs' =
              sampleCalls.foldl ProjectTable.add (ProjectTable.ofDict defaultMembers)) ∧
          ∀ p ≠ resolve checkoutHost.cwd (projectFilePath checkoutHost "/p".toList),
            (generateRuns projectFs checkoutHost "/p".toList sampleCalls).1.node p = projectFs.node p)) :=
  have hr : readProjectFile projectFs checkoutHost "/p".toList true =
      (projectFsDefault, .ok (.dict defaultMembers)) := rfl
  have hwf : (PyJson.dict defaultMembers).wf := rfl
  have hu : unitsAreDict defaultMembers = true := rfl
  ⟨hr, hwf, hu, generate_runs_all_or_none hr hwf hu⟩

/-- In a project directory without a project file, every run returns, and the file then
lists exactly the units the runs named, each with the body the last run naming it wrote,
under the version of the last run. -/
theorem generate_runs_new_project {c : UnitCall} {cs : List UnitCall}
    (hm : fs.get H (projectFilePath H dir) = none) (hdir : fs.node (resolve H.cwd dir) = some .dir) :
    (generateRuns fs H dir (c :: cs)).2 = (c :: cs).map (fun _ => .ok ()) ∧
      ∃ kvs', readProjectFile (generateRuns fs H dir (c :: cs)).1 H dir false =
          ((generateRuns fs H dir (c :: cs)).1, .ok (.dict kvs')) ∧
        dictGet kvs' "skipVersion".toList = (c :: cs).getLast?.map (fun c => .str c.version) ∧
        ∀ n, dictGet (unitsOf kvs') n =
          ((c :: cs).reverse.find? fun c => c.unitName = n).map UnitCall.body := by
  obtain ⟨h1, hs, -⟩ := generateRuns_of_writable (readProjectFile_missing hm hdir) rfl rfl
    (fun d => ⟨_, write_write (write_of_missing hm hdir _) d⟩) c cs
  have ht := ofDict_foldl defaultMembers (c :: cs)
  refine ⟨h1, _, hs.read false, ?_, fun n => ?_⟩
  · have hv := congrArg ProjectTable.version ht
    rw [version_foldl_add, List.getLast?_cons, Option.map_some', Option.or_some] at hv
    rw [List.getLast?_cons, Option.map_some']
    exact hv
  · have hn := congrFun (congrArg ProjectTable.units ht) n
    rw [units_foldl_add] at hn
    exact hn.trans Option.or_none

theorem generate_runs_sample_new_project :
    projectFs.get checkoutHost (projectFilePath checkoutHost "/p".toList) = none ∧
      projectFs.node (resolve checkoutHost.cwd "/p".toList) = some .dir ∧
      (generateRuns projectFs checkoutHost "/p".toList sampleCalls).2 = [.ok (), .ok ()] ∧
      ∃ kvs', readProjectFile (generateRuns projectFs checkoutHost "/p".toList sampleCalls).1
          checkoutHost "/p".toList false =
            ((generateRuns projectFs checkoutHost "/p".toList sampleCalls).1, .ok (.dict kvs')) ∧
        dictGet kvs' "skipVersion".toList = sampleCalls.getLast?.map (fun c => .str c.version) ∧
        ∀ n, dictGet (unitsOf kvs') n =
          (sampleCalls.reverse.find? fun c => c.unitName = n).map UnitCall.body :=
  have hm : projectFs.get checkoutHost (projectFilePath checkoutHost "/p".toList) = none := rfl
  have hdir : projectFs.node (resolve checkoutHost.cwd "/p".toList) = some .dir := rfl
  ⟨hm, hdir, generate_runs_new_project hm hdir⟩

end Runs

end SkipTools
