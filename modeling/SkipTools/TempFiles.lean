import SkipTools.FileSystem
import Mathlib.Data.List.Nodup

/-! `tmpfile`, `tmpdir` and `ExitStack` of common.py. The two temporaries are
`@contextlib.contextmanager` generators whose clean-up follows their `yield` with
no `try`, and `ExitStack.__exit__` calls the contexts' `__exit__` in the order
they were entered. -/

namespace SkipTools

inductive TempKind
  | file
  | dir
  deriving DecidableEq, Repr

/-- The temporary files and directories on disk. -/
abbrev TempDisk := List (PyStr × TempKind)

/-- How the body of `with ExitStack()` ends: normally, by an exception, or by
`SystemExit`, which `callHelper` raises through `sys.exit`. -/
inductive BlockEnd
  | normal
  | raised (e : PyExc)
  | systemExit (code : Int)
  deriving DecidableEq, Repr

/-- `os.unlink(f.name)` and `shutil.rmtree(dir)` on a temporary: a missing one
raises `FileNotFoundError`. -/
def removeTemp (kind : TempKind) (name : PyStr) (disk : TempDisk) : Except PyExc TempDisk :=
  if (name, kind) ∈ disk then .ok (disk.erase (name, kind)) else .error .fileNotFound

/-- The code after the `yield` of a temporary: `if not ARGS.keep_temp:` remove it. -/
def tempAfter (kind : TempKind) (keepTemp : Bool) (name : PyStr) (disk : TempDisk) :
    Except PyExc TempDisk :=
  if keepTemp then .ok disk else removeTemp kind name disk

/-- The code after `yield f` in `tmpfile`. -/
def tmpfileAfter (keepTemp : Bool) (name : PyStr) (disk : TempDisk) : Except PyExc TempDisk :=
  tempAfter .file keepTemp name disk

/-- The code after `yield dir` in `tmpdir`. -/
def tmpdirAfter (keepTemp : Bool) (name : PyStr) (disk : TempDisk) : Except PyExc TempDisk :=
  tempAfter .dir keepTemp name disk

/-- What entering a temporary creates: `NamedTemporaryFile(delete=False)` a file,
`mkdtemp` a directory, under a fresh name. -/
def enterTemp (ctx : TempKind × PyStr) (disk : TempDisk) : TempDisk := (ctx.2, ctx.1) :: disk

/-- `__exit__` of a `contextmanager` generator suspended at its `yield`: a normal
exit resumes it and runs `after`; an exception is thrown in at the `yield`, where
nothing catches it, so `after` never runs and `__exit__` returns `False`. -/
def contextExit (after : TempDisk → Except PyExc TempDisk) (ending : BlockEnd)
    (disk : TempDisk) : Except PyExc TempDisk :=
  match ending with
  | .normal => after disk
  | _ => .ok disk

/-- The clean-up of an entered temporary. -/
def tempExit (keepTemp : Bool) (ending : BlockEnd) : TempKind × PyStr → TempDisk →
    Except PyExc TempDisk
  | (.file, name) => contextExit (tmpfileAfter keepTemp name) ending
  | (.dir, name) => contextExit (tmpdirAfter keepTemp name) ending

/-- `ExitStack.__exit__`: each context's `__exit__` in the order of `enter_context`;
one that raises ends the loop and its exception leaves `__exit__`. -/
def exitStackExit (keepTemp : Bool) (ending : BlockEnd) :
    List (TempKind × PyStr) → TempDisk → TempDisk × Option PyExc
  | [], disk => (disk, none)
  | ctx :: objs, disk =>
    match tempExit keepTemp ending ctx disk with
    | .ok disk' => exitStackExit keepTemp ending objs disk'
    | .error e => (disk, some e)

/-- `with ExitStack() as stack:` whose body enters the temporaries `objs`, acts on
the disk as `body`, and ends as `ending`. -/
def withExitStack (keepTemp : Bool) (objs : List (TempKind × PyStr))
    (body : TempDisk → TempDisk) (ending : BlockEnd) (disk : TempDisk) :
    TempDisk × Option PyExc :=
  exitStackExit keepTemp ending objs (body (objs.foldl (fun d o => enterTemp o d) disk))

/-- When the body raises, no temporary's clean-up runs: `__exit__` changes nothing
on disk. -/
theorem exitStackExit_of_raise (keepTemp : Bool) (ending : BlockEnd) (hend : ending ≠ .normal) :
    ∀ (objs : List (TempKind × PyStr)) (disk : TempDisk),
      exitStackExit keepTemp ending objs disk = (disk, none)
  | [], _ => rfl
  | (kind, name) :: objs, disk => by
    have hctx : tempExit keepTemp ending (kind, name) disk = .ok disk := by
      cases kind <;> cases ending <;> first | exact absurd rfl hend | rfl
    rw [exitStackExit, hctx]
    exact exitStackExit_of_raise keepTemp ending hend objs disk

theorem tempExit_normal (ctx : TempKind × PyStr) (disk : TempDisk) :
    tempExit false .normal ctx disk = removeTemp ctx.1 ctx.2 disk := by
  obtain ⟨_ | _, name⟩ := ctx <;> rfl

/-- On a normal exit with `keep_temp` off, `__exit__` raises nothing and removes
every temporary the stack entered, and nothing else, when all are still on disk. -/
theorem exitStackExit_normal :
    ∀ (objs : List (TempKind × PyStr)) (disk : TempDisk), disk.Nodup →
      (∀ o ∈ objs, (o.2, o.1) ∈ disk) → objs.Nodup →
      (exitStackExit false .normal objs disk).2 = none ∧
        ∀ e, e ∈ (exitStackExit false .normal objs disk).1 ↔ e ∈ disk ∧ (e.2, e.1) ∉ objs
  | [], disk, _, _, _ => by simp [exitStackExit]
  | (kind, name) :: objs, disk, hd, hin, hnd => by
    have hmem := hin _ (List.mem_cons_self _ _)
    have hne : ∀ o ∈ objs, o ≠ (kind, name) := fun o ho h =>
      (List.nodup_cons.mp hnd).1 (h ▸ ho)
    have hin' : ∀ o ∈ objs, (o.2, o.1) ∈ disk.erase (name, kind) := fun o ho => by
      refine (List.mem_erase_of_ne fun h => hne o ho ?_).mpr (hin o (List.mem_cons_of_mem _ ho))
      obtain ⟨k, n⟩ := o
      simp only [Prod.mk.injEq] at h ⊢
      exact ⟨h.2, h.1⟩
    rw [exitStackExit, tempExit_normal]
    simp only [removeTemp, if_pos hmem]
    obtain ⟨hnone, hm⟩ := exitStackExit_normal objs _ (hd.erase _) hin' (List.nodup_cons.mp hnd).2
    refine ⟨hnone, fun e => ?_⟩
    rw [hm, hd.mem_erase_iff]
    rcases e with ⟨n, k⟩
    simp only [ne_eq, Prod.mk.injEq, List.mem_cons, not_or]
    tauto

theorem foldl_enterTemp (objs : List (TempKind × PyStr)) (disk : TempDisk) :
    objs.foldl (fun d o => enterTemp o d) disk = (objs.map fun o => (o.2, o.1)).reverse ++ disk := by
  induction objs generalizing disk with
  | nil => rfl
  | cons o objs ih =>
    rw [List.foldl_cons, ih]
    simp [enterTemp]

/-- A block that enters fresh temporaries and ends normally with them in place
leaves the disk as it found it. -/
theorem withExitStack_normal (objs : List (TempKind × PyStr)) (disk : TempDisk)
    (hdisk : disk.Nodup) (hnd : objs.Nodup) (hfresh : ∀ o ∈ objs, (o.2, o.1) ∉ disk) :
    (withExitStack false objs id .normal disk).2 = none ∧
      ∀ e, e ∈ (withExitStack false objs id .normal disk).1 ↔ e ∈ disk := by
  have hswap : ∀ e : PyStr × TempKind, e ∈ (objs.map fun o => (o.2, o.1)) ↔ (e.2, e.1) ∈ objs := by
    rintro ⟨n, k⟩
    simp only [List.mem_map, Prod.mk.injEq, Prod.exists]
    exact ⟨fun ⟨a, b, h, hb, ha⟩ => hb ▸ ha ▸ h, fun h => ⟨k, n, h, rfl, rfl⟩⟩
  have hcreated : ((objs.map fun o => (o.2, o.1)).reverse ++ disk).Nodup := by
    refine List.Nodup.append (List.nodup_reverse.mpr (hnd.map fun a b h => ?_)) hdisk ?_
    · obtain ⟨k, n⟩ := a
      obtain ⟨k', n'⟩ := b
      simp only [Prod.mk.injEq] at h ⊢
      exact ⟨h.2, h.1⟩
    · intro e he hd
      exact hfresh _ ((hswap e).mp (List.mem_reverse.mp he)) hd
  unfold withExitStack
  rw [id, foldl_enterTemp]
  obtain ⟨hnone, hm⟩ := exitStackExit_normal objs _ hcreated (fun o ho => List.mem_append_left _
    (List.mem_reverse.mpr ((hswap (o.2, o.1)).mpr ho))) hnd
  refine ⟨hnone, fun e => ?_⟩
  rw [hm, List.mem_append, List.mem_reverse, hswap]
  constructor
  · rintro ⟨h | h, hn⟩
    exacts [absurd h hn, h]
  · intro h
    exact ⟨Or.inr h, fun ho => hfresh _ ho h⟩

/-- A file and a directory entered on an empty disk, then a normal exit. -/
def sampleTemps : List (TempKind × PyStr) := [(.file, "/tmp/tmpa".toList), (.dir, "/tmp/tmpb".toList)]

theorem sample_temps_removed :
    ([] : TempDisk).Nodup ∧ sampleTemps.Nodup ∧ (∀ o ∈ sampleTemps, (o.2, o.1) ∉ ([] : TempDisk)) ∧
      ((withExitStack false sampleTemps id .normal []).2 = none ∧
        ∀ e, e ∈ (withExitStack false sampleTemps id .normal []).1 ↔ e ∈ ([] : TempDisk)) :=
  ⟨List.nodup_nil, by decide, by simp, withExitStack_normal sampleTemps [] List.nodup_nil (by decide) (by simp)⟩

/-- When the body raises, every temporary it did not remove itself is still on disk
after `__exit__`. -/
theorem withExitStack_of_raise (keepTemp : Bool) (objs : List (TempKind × PyStr))
    (body : TempDisk → TempDisk) (ending : BlockEnd) (hend : ending ≠ .normal)
    (disk : TempDisk) :
    withExitStack keepTemp objs body ending disk =
      (body ((objs.map fun o => (o.2, o.1)).reverse ++ disk), none) := by
  rw [withExitStack, foldl_enterTemp, exitStackExit_of_raise keepTemp ending hend]

/-- `sys.exit(1)` from `callHelper` in a block holding one `tmpfile()`: after
`ExitStack.__exit__` the temporary file is still there. -/
theorem system_exit_leaves_temp_file :
    withExitStack false [(.file, "/tmp/tmpa".toList)] id (.systemExit 1) [] =
      ([("/tmp/tmpa".toList, .file)], none) :=
  withExitStack_of_raise false _ id _ (by decide) []

end SkipTools
