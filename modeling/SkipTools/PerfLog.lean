import SkipTools.FileSystem
import Mathlib.Data.List.Nodup

/-! `_writeToPerfLog` of common.py, which every harness process with a profile
path registers with `atexit`. It makes the profile's directory, reads the profile,
writes the whole new array to its own temporary file `profile.<pid>`, and renames
that over the profile. The steps of different processes interleave freely, so a
writer can rename over an array that it did not read: samples can be lost, but
never duplicated. -/

namespace SkipTools

/-- One entry `logPerfData` appends: `{'sample_name': label, 'value': value}`. -/
structure Sample where
  sampleName : PyStr
  value : PyFloat
  deriving DecidableEq, Repr

/-- Where a process is in `_writeToPerfLog`: before reading, holding `obj` after
`obj += logged_data`, after `json.dump` to its temporary file, after the rename. -/
inductive PerfPc
  | start
  | loaded (obj : List Sample)
  | written
  | renamed
  deriving DecidableEq, Repr

/-- The profile (absent, or the array `json.load` reads back), each process's
temporary file, and each process's place in `_writeToPerfLog`. -/
structure PerfState where
  profile : Option (List Sample)
  temp : Nat → Option (List Sample)
  pc : Nat → PerfPc

/-- The next step of process `pid`, whose `logged_data` is `samples pid`. Its first
step is `ensureDirPathExists(os.path.dirname(ARGS.profile))` and the read; `dirErr`
is what that call raises, the same in every process, since the directories it makes
stay and the processes write only the profile and its siblings. A process that
raises, there or at a rename whose temporary file is missing, stops. -/
def perfStep (dirErr : Option PyExc) (samples : Nat → List Sample) (st : PerfState)
    (pid : Nat) : PerfState :=
  match st.pc pid with
  | .start =>
    match dirErr with
    | some _ => st
    | none =>
      { st with pc := Function.update st.pc pid (.loaded (st.profile.getD [] ++ samples pid)) }
  | .loaded obj =>
    { st with temp := Function.update st.temp pid (some obj),
              pc := Function.update st.pc pid .written }
  | .written =>
    match st.temp pid with
    | some obj =>
      { profile := some obj, temp := Function.update st.temp pid none,
        pc := Function.update st.pc pid .renamed }
    | none => st
  | .renamed => st

/-- The processes' steps in the order `schedule` interleaves them, from a profile
`start` and no temporary file. -/
def perfRun (dirErr : Option PyExc) (samples : Nat → List Sample)
    (start : Option (List Sample)) (schedule : List Nat) : PerfState :=
  schedule.foldl (perfStep dirErr samples) ⟨start, fun _ => none, fun _ => .start⟩

section Invariant

variable (samples : Nat → List Sample) (start : Option (List Sample))

/-- The array the writers `ps` leave behind, one after the other, over `start`. -/
def appended (ps : List Nat) : List Sample :=
  start.getD [] ++ (ps.map samples).flatten

/-- `ps` are distinct processes that have all renamed. -/
def Renamed (st : PerfState) (ps : List Nat) : Prop :=
  ps.Nodup ∧ ∀ q ∈ ps, st.pc q = .renamed

/-- An array a process may hold: some renamed writers' samples over `start`, then
its own. -/
def Snapshot (st : PerfState) (p : Nat) (obj : List Sample) : Prop :=
  ∃ ps, Renamed st ps ∧ obj = appended samples start ps ++ samples p

/-- What holds at every point of every interleaving. -/
structure PerfInv (st : PerfState) : Prop where
  profile : st.profile = start ∨
    ∃ ps, Renamed st ps ∧ st.profile = some (appended samples start ps)
  loaded : ∀ p obj, st.pc p = .loaded obj → Snapshot samples start st p obj
  written : ∀ p, st.pc p = .written → ∃ obj, st.temp p = some obj ∧ Snapshot samples start st p obj

theorem appended_snoc (ps : List Nat) (p : Nat) :
    appended samples start (ps ++ [p]) = appended samples start ps ++ samples p := by
  simp [appended]

variable {samples start} {dirErr : Option PyExc} {st : PerfState} {p : Nat}

theorem perfStep_of_start (h : st.pc p = .start) :
    perfStep none samples st p =
      { st with pc := Function.update st.pc p (.loaded (st.profile.getD [] ++ samples p)) } := by
  simp only [perfStep, h]

/-- A process whose `ensureDirPathExists` raises stops before its read. -/
theorem perfStep_of_dirErr {e : PyExc} (h : st.pc p = .start) :
    perfStep (some e) samples st p = st := by
  simp only [perfStep, h]

theorem perfStep_of_loaded {obj : List Sample} (h : st.pc p = .loaded obj) :
    perfStep dirErr samples st p =
      { st with temp := Function.update st.temp p (some obj),
                pc := Function.update st.pc p .written } := by
  simp only [perfStep, h]

theorem perfStep_of_written {obj : List Sample} (h : st.pc p = .written)
    (ht : st.temp p = some obj) :
    perfStep dirErr samples st p =
      { profile := some obj, temp := Function.update st.temp p none,
        pc := Function.update st.pc p .renamed } := by
  simp only [perfStep, h, ht]

theorem perfStep_of_renamed (h : st.pc p = .renamed) : perfStep dirErr samples st p = st := by
  simp only [perfStep, h]

theorem perfStep_frame {q : Nat} (hqp : q ≠ p) :
    (perfStep dirErr samples st p).pc q = st.pc q ∧
      (perfStep dirErr samples st p).temp q = st.temp q := by
  unfold perfStep
  split
  · split
    · exact ⟨rfl, rfl⟩
    · exact ⟨Function.update_noteq hqp _ _, rfl⟩
  · exact ⟨Function.update_noteq hqp _ _, Function.update_noteq hqp _ _⟩
  · split
    · exact ⟨Function.update_noteq hqp _ _, Function.update_noteq hqp _ _⟩
    · exact ⟨rfl, rfl⟩
  · exact ⟨rfl, rfl⟩

theorem perfStep_keeps_renamed (q : Nat) (h : st.pc q = .renamed) :
    (perfStep dirErr samples st p).pc q = .renamed := by
  by_cases hqp : q = p
  · subst hqp
    rw [perfStep_of_renamed h, h]
  · rw [(perfStep_frame hqp).1, h]

/-- Renamed writers stay renamed, so what a snapshot or the profile owes to them
is never taken back by a later step's bookkeeping. -/
theorem Renamed.mono {st' : PerfState} {ps : List Nat} (h : Renamed st ps)
    (hm : ∀ q, st.pc q = .renamed → st'.pc q = .renamed) : Renamed st' ps :=
  ⟨h.1, fun q hq => hm q (h.2 q hq)⟩

theorem Snapshot.mono {st' : PerfState} {q : Nat} {obj : List Sample}
    (h : Snapshot samples start st q obj)
    (hm : ∀ q, st.pc q = .renamed → st'.pc q = .renamed) :
    Snapshot samples start st' q obj :=
  let ⟨ps, hr, he⟩ := h
  ⟨ps, hr.mono hm, he⟩

theorem perfInv_init : PerfInv samples start ⟨start, fun _ => none, fun _ => .start⟩ :=
  ⟨Or.inl rfl, fun _ _ h => PerfPc.noConfusion h, fun _ h => PerfPc.noConfusion h⟩

/-- The profile before a read, with the reader's samples after it, is a snapshot. -/
theorem PerfInv.read_snapshot (hI : PerfInv samples start st) (p : Nat) :
    Snapshot samples start st p (st.profile.getD [] ++ samples p) := by
  rcases hI.profile with h | ⟨ps, hr, h⟩
  · exact ⟨[], ⟨List.nodup_nil, by simp⟩, by simp [appended, h]⟩
  · exact ⟨ps, hr, by rw [h, Option.getD_some]⟩

/-- Only a read leaves a process holding an array: the profile it read, then its
own samples. -/
theorem perfStep_loaded_self {obj : List Sample}
    (h : (perfStep dirErr samples st p).pc p = .loaded obj) :
    st.pc p = .start ∧ obj = st.profile.getD [] ++ samples p := by
  cases hp : st.pc p with
  | start =>
    cases dirErr with
    | some e => rw [perfStep_of_dirErr hp, hp] at h; cases h
    | none => rw [perfStep_of_start hp] at h; simpa [eq_comm] using h
  | loaded o => rw [perfStep_of_loaded hp] at h; simp at h
  | written =>
    cases ht : st.temp p with
    | some o => rw [perfStep_of_written hp ht] at h; simp at h
    | none => simp [perfStep, hp, ht] at h
  | renamed => rw [perfStep_of_renamed hp, hp] at h; cases h

/-- A process is left at its rename by a write, which puts what it held in its
file, or by a rename whose file is missing, which changes nothing. -/
theorem perfStep_written_self (h : (perfStep dirErr samples st p).pc p = .written) :
    (∃ obj, st.pc p = .loaded obj ∧ (perfStep dirErr samples st p).temp p = some obj) ∨
      perfStep dirErr samples st p = st := by
  cases hp : st.pc p with
  | start =>
    cases dirErr with
    | some e => exact Or.inr (perfStep_of_dirErr hp)
    | none => rw [perfStep_of_start hp] at h; simp at h
  | loaded o => exact Or.inl ⟨o, rfl, by rw [perfStep_of_loaded hp]; simp⟩
  | written =>
    cases ht : st.temp p with
    | some o => rw [perfStep_of_written hp ht] at h; simp at h
    | none => right; simp [perfStep, hp, ht]
  | renamed => rw [perfStep_of_renamed hp, hp] at h; cases h

/-- A rename is the only step that changes the profile: it puts the file of a
process at its rename there. -/
theorem perfStep_profile :
    (perfStep dirErr samples st p).profile = st.profile ∨
      ∃ obj, st.pc p = .written ∧ st.temp p = some obj ∧
        (perfStep dirErr samples st p).profile = some obj ∧
          (perfStep dirErr samples st p).pc p = .renamed := by
  cases hp : st.pc p with
  | start =>
    cases dirErr with
    | some e => rw [perfStep_of_dirErr hp]; exact Or.inl rfl
    | none => rw [perfStep_of_start hp]; exact Or.inl rfl
  | loaded o => rw [perfStep_of_loaded hp]; exact Or.inl rfl
  | written =>
    cases ht : st.temp p with
    | some o => rw [perfStep_of_written hp ht]; exact Or.inr ⟨o, rfl, rfl, rfl, by simp⟩
    | none => left; simp [perfStep, hp, ht]
  | renamed => rw [perfStep_of_renamed hp]; exact Or.inl rfl

/-- A renamed snapshot never holds its writer's samples twice: the writers it
carries had renamed before, and its own had not. -/
theorem Snapshot.renamed {st' : PerfState} {obj : List Sample}
    (hs : Snapshot samples start st p obj) (hp : st.pc p = .written)
    (hm : ∀ q, st.pc q = .renamed → st'.pc q = .renamed) (hp' : st'.pc p = .renamed) :
    ∃ ps, Renamed st' ps ∧ obj = appended samples start ps := by
  obtain ⟨ps, ⟨hd, hps⟩, rfl⟩ := hs
  have hnot : p ∉ ps := fun hm => PerfPc.noConfusion (hp.symm.trans (hps p hm))
  refine ⟨ps ++ [p], ⟨hd.append (List.nodup_singleton p) (List.disjoint_singleton.mpr hnot), ?_⟩,
    (appended_snoc samples start ps p).symm⟩
  intro q hq
  rcases List.mem_append.mp hq with hq | hq
  · exact hm q (hps q hq)
  · rwa [List.mem_singleton.mp hq]

/-- One step of any process keeps the invariant. -/
theorem PerfInv.step (hI : PerfInv samples start st) (p : Nat) :
    PerfInv samples start (perfStep dirErr samples st p) := by
  have hm := fun q => @perfStep_keeps_renamed samples dirErr st p q
  refine ⟨?_, fun q obj hq => ?_, fun q hq => ?_⟩
  · rcases @perfStep_profile samples dirErr st p with h | ⟨obj, hp, ht, h, hp'⟩
    · rw [h]
      exact hI.profile.imp_right fun ⟨ps, hr, h⟩ => ⟨ps, hr.mono hm, h⟩
    · obtain ⟨obj', ht', hs⟩ := hI.written p hp
      obtain rfl : obj' = obj := Option.some.inj (ht'.symm.trans ht)
      obtain ⟨ps, hr, rfl⟩ := hs.renamed hp hm hp'
      exact Or.inr ⟨ps, hr, h⟩
  · by_cases hqp : q = p
    · subst hqp
      obtain ⟨_, rfl⟩ := perfStep_loaded_self hq
      exact (hI.read_snapshot q).mono hm
    · rw [(perfStep_frame hqp).1] at hq
      exact (hI.loaded q obj hq).mono hm
  · by_cases hqp : q = p
    · subst hqp
      rcases perfStep_written_self hq with ⟨obj, hp, ht⟩ | h
      · exact ⟨obj, ht, (hI.loaded q obj hp).mono hm⟩
      · rw [h] at hq ⊢
        exact hI.written q hq
    · rw [(perfStep_frame hqp).1] at hq
      obtain ⟨obj, ht, hs⟩ := hI.written q hq
      exact ⟨obj, (perfStep_frame hqp).2.trans ht, hs.mono hm⟩

theorem perfInv_foldl (schedule : List Nat) (hI : PerfInv samples start st) :
    PerfInv samples start (schedule.foldl (perfStep dirErr samples) st) := by
  induction schedule generalizing st with
  | nil => exact hI
  | cons p schedule ih => exact ih (hI.step p)

end Invariant

/-- Whatever the interleaving, and whether or not the processes could make the
profile's directory, the profile is the one the processes started from, or the
starting array followed by the samples of distinct processes that have renamed,
each process's samples once and whole. -/
theorem profile_holds_distinct_writers (dirErr : Option PyExc) (samples : Nat → List Sample)
    (start : Option (List Sample)) (schedule : List Nat) :
    (perfRun dirErr samples start schedule).profile = start ∨
      ∃ ps : List Nat, ps.Nodup ∧
        (∀ p ∈ ps, (perfRun dirErr samples start schedule).pc p = .renamed) ∧
        (perfRun dirErr samples start schedule).profile =
          some (start.getD [] ++ (ps.map samples).flatten) :=
  (perfInv_foldl schedule (@perfInv_init samples start)).profile.imp_right
    fun ⟨ps, ⟨hd, hr⟩, h⟩ => ⟨ps, hd, hr, h⟩

/-- Two writers of one sample each, over a profile of one sample. -/
def twoWriters : Nat → List Sample
  | 1 => [⟨"one".toList, ⟨"1.0".toList, rfl⟩⟩]
  | 2 => [⟨"two".toList, ⟨"2.0".toList, rfl⟩⟩]
  | _ => []

def startSample : Sample := ⟨"start".toList, ⟨"0.5".toList, rfl⟩⟩

/-- Both writers read before either renames: the second rename puts back the
array it read, without the first writer's sample. -/
theorem overlapping_writers_lose_update :
    (perfRun none twoWriters (some [startSample]) [1, 2, 1, 1, 2, 2]).profile =
      some (startSample :: twoWriters 2) := by
  decide

/-- When `ensureDirPathExists` raises, no process gets past its first step, and
the profile is never touched. -/
theorem perfRun_of_dirErr (e : PyExc) (samples : Nat → List Sample)
    (start : Option (List Sample)) (schedule : List Nat) :
    perfRun (some e) samples start schedule = ⟨start, fun _ => none, fun _ => .start⟩ :=
  List.foldl_fixed' (fun _ => perfStep_of_dirErr rfl) schedule

/-- A profile with no directory part, such as `--profile prof.json`: every
process's `os.makedirs('')` raises `FileNotFoundError`, so no sample is written. -/
theorem bare_profile_writes_nothing (fs : FileSys) (H : Host) (profile : PyStr)
    (h : dirname profile = []) (samples : Nat → List Sample) (start : Option (List Sample))
    (schedule : List Nat) :
    (perfRun (fs.ensureDirPathExists H (dirname profile)).2 samples start schedule).profile =
      start := by
  rw [h, FileSys.ensureDirPathExists, if_pos rfl, perfRun_of_dirErr]

example : dirname "prof.json".toList = [] := by decide

/-- Three steps of one process, when no other runs in between. -/
theorem perfStep_run_alone {samples : Nat → List Sample} {st : PerfState} {p : Nat}
    (h : st.pc p = .start) :
    [p, p, p].foldl (perfStep none samples) st =
      { profile := some (st.profile.getD [] ++ samples p),
        temp := Function.update st.temp p none,
        pc := Function.update st.pc p .renamed } := by
  simp [perfStep_of_start h, perfStep_of_loaded, perfStep_of_written]

theorem perfRun_sequential_foldl (samples : Nat → List Sample) (pids : List Nat)
    (hd : pids.Nodup) (st : PerfState) (hs : ∀ p ∈ pids, st.pc p = .start) :
    ((pids.flatMap fun p => [p, p, p]).foldl (perfStep none samples) st).profile =
      if pids = [] then st.profile
      else some (st.profile.getD [] ++ (pids.map samples).flatten) := by
  induction pids generalizing st with
  | nil => rfl
  | cons p pids ih =>
    have hp := List.nodup_cons.mp hd
    rw [List.flatMap_cons, List.foldl_append, perfStep_run_alone (hs p (List.mem_cons_self p pids))]
    rw [ih hp.2 _ fun q hq => ?_]
    · split <;> simp_all
    · have hqp : q ≠ p := fun e => hp.1 (e ▸ hq)
      simpa [Function.update_noteq hqp] using hs q (List.mem_cons_of_mem p hq)

/-- A file system with only the directory `/tmp`. -/
def tmpFs : FileSys := FileSys.ofList [([], .dir), (["tmp".toList], .dir)]

end SkipTools
