import SkipTools.RunNames
import SkipTools.Json

/-! The file system the harness reads and writes. Paths are resolved by
`resolve` against the host's working directory; a node is a directory or a
regular file. Only what the modelled functions read and write is kept: regular
file contents, and the ledgers `json.dump` writes. -/

namespace SkipTools

/-- A character of the text `json.dump` writes for a float: `float.__repr__` of a finite
float (digits, a sign, a point, an exponent), or `Infinity`, `-Infinity` and `NaN`. -/
def floatChar (c : Char) : Bool := c.isDigit || "+-.eInfinityNa".toList.contains c

/-- A Python float, known by the text `json.dump` writes for it; `float(repr(x)) == x`,
so `json.dump` followed by `json.load` gives it back. -/
structure PyFloat where
  repr : PyStr
  repr_chars : repr.all floatChar = true
  deriving DecidableEq, Repr

/-- The dictionary `RunCommand.__init__` dumps as the ledger `.res`, as `json.load`
gives it back. `testHasExpect` is absent in ledgers written by older harnesses. -/
structure RunRecord where
  returncode : Int
  timeTaken : Option PyFloat
  expectError : Bool
  testReportsOk : Bool
  testHasExpect : Option Bool
  deriving DecidableEq, Repr

def jsonBool (b : Bool) : PyStr := if b then "true".toList else "false".toList

/-- The members of a record as `json.dump` writes them, with Python's default
separators. -/
def RunRecord.members (r : RunRecord) : PyStr :=
  "\"returncode\": ".toList ++ intText r.returncode ++
  ", \"time_taken\": ".toList ++ (r.timeTaken.map PyFloat.repr).getD "null".toList ++
  ", \"expectError\": ".toList ++ jsonBool r.expectError ++
  ", \"testReportsOk\": ".toList ++ jsonBool r.testReportsOk ++
  (match r.testHasExpect with
    | some b => ", \"testHasExpect\": ".toList ++ jsonBool b
    | none => [])

/-- The text `json.dump` writes for a record. -/
def RunRecord.json (r : RunRecord) : PyStr := '\x7b' :: r.members ++ ['\x7d']

/-- A character that neither closes an object nor starts an escape. -/
def plainChar (c : Char) : Bool := c != '\x7d' && c != '\\'

theorem plainChar_of_isDigit {c : Char} (h : c.isDigit) : plainChar c = true := by
  simp [plainChar, ne_of_isDigit h (show ('\x7d' : Char).isDigit = false from rfl),
    ne_of_isDigit h (show ('\\' : Char).isDigit = false from rfl)]

theorem all_plainChar_intText (n : Int) : (intText n).all plainChar = true := by
  obtain ⟨d, ds, hm, hd, -, -, hds, -⟩ := natText_shape n.natAbs
  have hnat : (natText n.natAbs).all plainChar = true := by
    simp only [hm, List.all_cons, plainChar_of_isDigit hd, Bool.true_and, List.all_eq_true]
    exact fun c hc => plainChar_of_isDigit (hds c hc)
  unfold intText
  split
  · simpa only [List.all_cons, Bool.and_eq_true] using ⟨rfl, hnat⟩
  · exact hnat

theorem all_plainChar_repr (f : PyFloat) : f.repr.all plainChar = true := by
  refine List.all_eq_true.mpr fun c hc => ?_
  have h := List.all_eq_true.mp f.repr_chars c hc
  simp only [floatChar, Bool.or_eq_true] at h
  rcases h with h | h
  · exact plainChar_of_isDigit h
  · exact (by decide : ∀ c ∈ "+-.eInfinityNa".toList, plainChar c = true) c (List.elem_iff.mp h)

/-- No character between a record's braces closes an object or starts an escape. -/
theorem RunRecord.members_plain (r : RunRecord) : r.members.all plainChar = true := by
  have hb : ∀ b, (jsonBool b).all plainChar = true := by decide
  have ht : ((r.timeTaken.map PyFloat.repr).getD "null".toList).all plainChar = true := by
    cases r.timeTaken with
    | none => rfl
    | some f => exact all_plainChar_repr f
  simp only [RunRecord.members, List.all_append, Bool.and_eq_true, all_plainChar_intText, hb, ht]
  cases r.testHasExpect <;> simp only [List.all_append, hb] <;> decide

/-- `json.load` rejects every text that stops short of the end of a record's text: the
empty text, and an object never closed. -/
theorem decodeFails_of_prefix (r : RunRecord) {s : PyStr} (hp : s <+: r.json)
    (hl : s.length < r.json.length) : decodeFails s = true := by
  rcases s with _ | ⟨c, t⟩
  · rfl
  · obtain ⟨rfl, ht⟩ := List.cons_prefix_cons.mp hp
    have htm : t <+: r.members :=
      List.prefix_of_prefix_length_le ht (List.prefix_append _ _)
        (by simp only [RunRecord.json, List.length_cons, List.length_append, List.length_nil] at hl
            omega)
    have hplain : ∀ c ∈ t, c ≠ '\x7d' ∧ c ≠ '\\' := fun c hc => by
      simpa [plainChar] using List.all_eq_true.mp r.members_plain c (htm.subset hc)
    rw [decodeFails, loads_unclosed (fun h => (hplain _ h).1 rfl) (fun h => (hplain _ h).2 rfl)]

/-- The contents of a regular file: bytes, or the JSON text of a record written by
`json.dump`. -/
inductive FileData
  | text (s : PyStr)
  | record (r : RunRecord)
  deriving DecidableEq, Repr

def FileData.bytes : FileData → PyStr
  | .text s => s
  | .record r => r.json

inductive Node
  | dir
  | file (d : FileData)
  deriving DecidableEq, Repr

/-- The exceptions of the harness that the model distinguishes. -/
inductive PyExc
  | fileNotFound
  | isADirectory
  | notADirectory
  | sameFile
  | jsonDecode
  | reError
  | interrupted
  /-- `ENOSPC`: the device took only part of a write. -/
  | noSpace
  /-- `json.load` read a value that is not a record: `fromArtifacts` then raises
  `KeyError` or `TypeError`, or keeps values of other types, which the model does not
  follow. -/
  | notRecord
  deriving DecidableEq, Repr

/-- What each resolved path holds. -/
structure FileSys where
  node : Comps → Option Node

namespace FileSys

/-- A file system given by its entries, for concrete runs. -/
def ofList (l : List (Comps × Node)) : FileSys := ⟨fun cs => l.lookup cs⟩

def set (fs : FileSys) (cs : Comps) (n : Node) : FileSys :=
  ⟨Function.update fs.node cs (some n)⟩

@[simp] theorem set_node_self (fs : FileSys) (cs : Comps) (n : Node) :
    (fs.set cs n).node cs = some n := by simp [set]

@[simp] theorem set_node_of_ne (fs : FileSys) (cs cs' : Comps) (n : Node) (h : cs' ≠ cs) :
    (fs.set cs n).node cs' = fs.node cs' := by simp [set, h]

/-- A second `set` of one path replaces the first. -/
theorem set_set (fs : FileSys) (cs : Comps) (n n' : Node) : (fs.set cs n).set cs n' = fs.set cs n' := by
  simp [set, Function.update_idem]

/-- The node `os.stat` and `open` reach at `p`. `resolve` reads `..` lexically, where
the host follows the directory the component before it names: the two agree when that
directory exists, which the claims about run artifacts ask by taking paths without `..`. -/
def get (fs : FileSys) (H : Host) (p : PyStr) : Option Node := fs.node (resolve H.cwd p)

/-- `os.path.exists`. -/
def «exists» (fs : FileSys) (H : Host) (p : PyStr) : Bool := (fs.get H p).isSome

/-- `os.path.isfile`. -/
def isfile (fs : FileSys) (H : Host) (p : PyStr) : Bool :=
  match fs.get H p with
  | some (.file _) => true
  | _ => false

/-- The data of a regular file opened for reading, or the error `open` raises. -/
def readData (fs : FileSys) (H : Host) (p : PyStr) : Except PyExc FileData :=
  match fs.get H p with
  | some (.file d) => .ok d
  | some .dir => .error .isADirectory
  | none => .error .fileNotFound

/-- `open(p, 'r').read()`. -/
def readText (fs : FileSys) (H : Host) (p : PyStr) : Except PyExc PyStr :=
  (fs.readData H p).map FileData.bytes

/-- `open(p, 'w')` followed by writing `d` and closing: the parent must be a
directory and `p` must not be one. -/
def write (fs : FileSys) (H : Host) (p : PyStr) (d : FileData) : Except PyExc FileSys :=
  let cs := resolve H.cwd p
  match fs.node cs with
  | some .dir => .error .isADirectory
  | _ =>
    match fs.node cs.dropLast with
    | some .dir => .ok (fs.set cs (.file d))
    | some (.file _) => .error .notADirectory
    | none => .error .fileNotFound

/-- `shutil.copyfile(src, dst)`. -/
def copyfile (fs : FileSys) (H : Host) (src dst : PyStr) : Except PyExc FileSys :=
  if resolve H.cwd src = resolve H.cwd dst then .error .sameFile
  else do
    let d ← fs.readData H src
    fs.write H dst d

/-- `os.makedirs` on the components below `pre`: a missing directory is made, an
existing last component is `EEXIST`, which `ensureDirPathExists` swallows, and a
file in the middle is `ENOTDIR`. Directories made before an error stay. -/
def makedirs (fs : FileSys) (pre : Comps) : Comps → FileSys × Option PyExc
  | [] => (fs, none)
  | c :: rest =>
    match fs.node (pre ++ [c]) with
    | none => makedirs (fs.set (pre ++ [c]) .dir) (pre ++ [c]) rest
    | some .dir => makedirs fs (pre ++ [c]) rest
    | some (.file _) => (fs, if rest = [] then none else some .notADirectory)

/-- `ensureDirPathExists(path)`; `os.makedirs('')` raises `FileNotFoundError`. -/
def ensureDirPathExists (fs : FileSys) (H : Host) (p : PyStr) : FileSys × Option PyExc :=
  if p = [] then (fs, some .fileNotFound) else makedirs fs [] (resolve H.cwd p)

/-- `makedirs` below `pre` changes no node other than the prefixes of `pre ++ rest`
longer than `pre`. -/
theorem makedirs_node (fs : FileSys) (pre rest cs : Comps)
    (h : ¬ (cs <+: pre ++ rest ∧ pre.length < cs.length)) :
    (fs.makedirs pre rest).1.node cs = fs.node cs := by
  induction rest generalizing fs pre with
  | nil => rfl
  | cons c rest ih =>
    have hne : cs ≠ pre ++ [c] := by
      rintro rfl
      exact h ⟨⟨rest, by simp⟩, by simp⟩
    have h' : ¬ (cs <+: (pre ++ [c]) ++ rest ∧ (pre ++ [c]).length < cs.length) := by
      rintro ⟨hp, hl⟩
      exact h ⟨by simpa using hp, by simp at hl; omega⟩
    unfold makedirs
    split
    · rw [ih _ _ h', set_node_of_ne _ _ _ _ hne]
    · exact ih _ _ h'
    · rfl

/-- `ensureDirPathExists p` changes no node but the non-empty prefixes of what `p`
resolves to. -/
theorem ensureDirPathExists_node (fs : FileSys) (H : Host) (p : PyStr) (cs : Comps)
    (h : ¬ (cs <+: resolve H.cwd p ∧ 0 < cs.length)) :
    (fs.ensureDirPathExists H p).1.node cs = fs.node cs := by
  unfold ensureDirPathExists
  split
  · rfl
  · exact makedirs_node _ _ _ _ (by simpa using h)

theorem get_set (fs : FileSys) (H : Host) (p : PyStr) (cs : Comps) (n : Node) :
    (fs.set cs n).get H p = if resolve H.cwd p = cs then some n else fs.get H p := by
  unfold get
  split
  · next h => rw [h, set_node_self]
  · next h => exact set_node_of_ne _ _ _ _ h

theorem write_ok {fs fs' : FileSys} {H : Host} {p : PyStr} {d : FileData}
    (h : fs.write H p d = .ok fs') : fs' = fs.set (resolve H.cwd p) (.file d) := by
  simp only [write] at h
  split at h
  · cases h
  · split at h
    · exact (Except.ok.inj h).symm
    all_goals cases h

/-- A copy that succeeds read a file from `src`, which is not `dst`, and wrote its
data to `dst`. -/
theorem copyfile_ok {fs fs' : FileSys} {H : Host} {src dst : PyStr}
    (h : fs.copyfile H src dst = .ok fs') : resolve H.cwd src ≠ resolve H.cwd dst ∧
      ∃ d, fs.readData H src = .ok d ∧ fs' = fs.set (resolve H.cwd dst) (.file d) := by
  unfold copyfile at h
  split at h
  · cases h
  · next hne =>
    refine ⟨hne, ?_⟩
    cases hr : fs.readData H src with
    | error e => simp [hr] at h; cases h
    | ok d =>
      simp only [hr] at h
      exact ⟨d, rfl, write_ok h⟩

/-- Whether opening a path for writing succeeds depends on the file system alone, not on
the data. -/
theorem write_cases (fs : FileSys) (H : Host) (p : PyStr) :
    (∃ e, ∀ d, fs.write H p d = .error e) ∨
      ∀ d, fs.write H p d = .ok (fs.set (resolve H.cwd p) (.file d)) := by
  unfold FileSys.write
  rcases h1 : fs.node (resolve H.cwd p) with _ | _ | _ <;>
    rcases h2 : fs.node (resolve H.cwd p).dropLast with _ | _ | _ <;>
    simp [h1, h2] <;> exact .inl ⟨_, fun _ => rfl⟩

/-- `open(p, 'w+')`, then `f.write(t)` and the close. The open makes the file or empties
it, and the device takes at most `room` characters into it (`none`: no limit): a text
longer than that leaves the part the device took, and raises `ENOSPC`. An error of the
open changes nothing. -/
def openWrite (fs : FileSys) (H : Host) (p t : PyStr) (room : Option Nat) :
    FileSys × Option PyExc :=
  let short := room.filter (· < t.length)
  let kept := match short with
    | some n => t.take n
    | none => t
  match fs.write H p (.text kept) with
  | .ok fs' => (fs', if short.isSome then some .noSpace else none)
  | .error e => (fs, some e)

section OpenWrite

variable {fs fs' : FileSys} {H : Host} {p t : PyStr} {room : Option Nat}

/-- An `open` for writing fails only for a directory or a missing or non-directory
parent, never for room. -/
theorem write_ne_noSpace {d : FileData} : fs.write H p d ≠ .error .noSpace := by
  intro h
  simp only [write] at h
  split at h <;> (try split at h) <;> cases h

theorem openWrite_of_write_error {d : FileData} {e : PyExc} (h : fs.write H p d = .error e) :
    fs.openWrite H p t room = (fs, some e) := by
  rcases fs.write_cases H p with ⟨e', he⟩ | hw
  · rw [he] at h
    cases h
    simp only [openWrite, he]
  · rw [hw] at h
    cases h

/-- With no limit, the open and the write are one `write`. -/
theorem openWrite_of_write_ok (h : fs.write H p (.text t) = .ok fs') :
    fs.openWrite H p t none = (fs', none) := by
  simp [openWrite, h]

/-- A write that raises nothing has written the whole text. -/
theorem openWrite_ok (h : (fs.openWrite H p t room).2 = none) :
    fs.write H p (.text t) = .ok (fs.openWrite H p t room).1 := by
  rcases fs.write_cases H p with ⟨e', he⟩ | hw
  · simp [openWrite, he] at h
  · cases hf : room.filter (· < t.length) with
    | none => simp only [openWrite, hw, hf]
    | some n => simp [openWrite, hw, hf] at h

/-- A write that raises anything but `ENOSPC` could not open the file, and changed
nothing. -/
theorem openWrite_of_ne_noSpace {e : PyExc} (h : (fs.openWrite H p t room).2 = some e)
    (he : e ≠ .noSpace) : (fs.openWrite H p t room).1 = fs ∧ ∀ d, fs.write H p d = .error e := by
  rcases fs.write_cases H p with ⟨e', he'⟩ | hw
  · simp only [openWrite, he', Option.some.injEq] at h
    subst h
    exact ⟨by simp only [openWrite, he'], he'⟩
  · cases hf : room.filter (· < t.length) with
    | none => simp [openWrite, hw, hf] at h
    | some n => simp only [openWrite, hw, hf, Option.isSome_some, if_true, Option.some.injEq] at h
                exact absurd h.symm he

/-- A write the device cannot take whole leaves the file holding a part of the text it
began with, and no other path changed. -/
theorem openWrite_noSpace (h : (fs.openWrite H p t room).2 = some .noSpace) :
    ∃ kept, kept <+: t ∧ kept.length < t.length ∧
      (fs.openWrite H p t room).1 = fs.set (resolve H.cwd p) (.file (.text kept)) := by
  rcases fs.write_cases H p with ⟨e', he⟩ | hw
  · simp only [openWrite, he, Option.some.injEq] at h
    exact absurd (h ▸ he (.text [])) write_ne_noSpace
  · cases hf : room.filter (· < t.length) with
    | none => simp [openWrite, hw, hf] at h
    | some n =>
      have hn : n < t.length := by simpa using (Option.filter_eq_some.mp hf).2
      simp only [openWrite, hw, hf]
      exact ⟨_, List.take_prefix n t, by rw [List.length_take]; omega, rfl⟩

end OpenWrite

theorem readData_set (fs : FileSys) (H : Host) (p : PyStr) (cs : Comps) (d : FileData) :
    (fs.set cs (.file d)).readData H p =
      if resolve H.cwd p = cs then .ok d else fs.readData H p := by
  by_cases hp : resolve H.cwd p = cs
  · simp [readData, get, hp]
  · simp only [readData, get_set, hp, if_false]

theorem exists_of_readData_ok {fs : FileSys} {H : Host} {p : PyStr} {d : FileData}
    (h : fs.readData H p = .ok d) : fs.exists H p = true := by
  unfold readData at h
  unfold «exists»
  split at h <;> simp_all

end FileSys

end SkipTools
