import SkipTools.Json
import SkipTools.Verify

/-! tools/generate_project_json.py: `init_project`, `write_project_file`,
`read_project_file`, `add_program_unit`, `check_kind` and `generate_project`, over the
file system of the harness. The project file `dir/skip.project.json` is a store of
program units: `generate_project` reads it (or writes the default project when it
cannot be opened), sets the version and one unit, and writes it back with
`json.dumps`. -/

namespace SkipTools

/-- The exceptions of the script: those of `json.loads`, the `TypeError` of `x[k]` or
`k in x` on a value that does not take them, and `exit(msg)` after an `IOError`, with
the text before `str(e)` and the error. -/
inductive ProjectExc
  | json (e : JsonExc)
  | typeError
  | exit (msg : PyStr) (e : PyExc)
  deriving DecidableEq, Repr

/-- `d[k]` on a dict, `None` for a missing key. -/
def dictGet {α : Type} : List (PyStr × α) → PyStr → Option α
  | [], _ => none
  | (k', v) :: d, k => if k' = k then some v else dictGet d k

/-- `k in x`: a key of a dict, an item of a list, a substring of a str; other values
raise `TypeError`. -/
def pyContains (x : PyJson) (k : PyStr) : Except ProjectExc Bool :=
  match x with
  | .dict kvs => .ok (kvs.any (·.1 = k))
  | .list xs => .ok (xs.any fun | .str s => s = k | _ => false)
  | .str s => .ok (decide (k <:+: s))
  | _ => .error .typeError

/-- `x[k] = v` with a str key: only a dict takes it. -/
def pySetItem (x : PyJson) (k : PyStr) (v : PyJson) : Except ProjectExc (List (PyStr × PyJson)) :=
  match x with
  | .dict kvs => .ok (dictSet kvs k v)
  | _ => .error .typeError

/-- `os.path.join(os.path.abspath(dir), 'skip.project.json')`. -/
def projectFilePath (H : Host) (dir : PyStr) : PyStr :=
  join (realpath H.cwd dir) "skip.project.json".toList

/-- `init_project(version, program_units, variables)`: a missing or empty dict of units
or variables is `{}`. -/
def initProject (version : PyStr) (programUnits «variables» : Option (List (PyStr × PyJson))) :
    PyJson :=
  .dict [("skipVersion".toList, .str version), ("variables".toList, .dict («variables».getD [])),
    ("programUnits".toList, .dict (programUnits.getD []))]

/-- `write_project_file(dir, project)`: a missing or empty project is `init_project()`.
The file is opened with `'w+'`, which empties it, on a device that takes `room`
characters into it (`none`: no limit). The file system after it, and the dict written or
`exit` when the open or the write raised. -/
def writeProjectFile (fs : FileSys) (H : Host) (dir : PyStr)
    (project : Option (List (PyStr × PyJson))) (room : Option Nat := none) :
    FileSys × Except ProjectExc PyJson :=
  let projectDict := match project with
    | some (kv :: kvs) => .dict (kv :: kvs)
    | _ => initProject "1.0".toList none none
  match fs.openWrite H (projectFilePath H dir) (dumps projectDict) room with
  | (fs', none) => (fs', .ok projectDict)
  | (fs', some e) => (fs', .error (.exit ("Error while opening directory \"".toList ++ dir ++
      "\". Make sure you are properly specifying your project directory. Full error:\n".toList) e))

/-- `read_project_file(dir, create_default)`: the value `json.loads` reads from the file
opened in text mode; an `IOError` writes the default project when `create_default`,
and exits otherwise. -/
def readProjectFile (fs : FileSys) (H : Host) (dir : PyStr) (createDefault : Bool)
    (room : Option Nat := none) : FileSys × Except ProjectExc PyJson :=
  match fs.readText H (projectFilePath H dir) with
  | .ok text => (fs, (loads (universalNewlines text)).mapError .json)
  | .error e =>
    if createDefault then writeProjectFile fs H dir none room
    else (fs, .error (.exit "Error while opening skip.project.json: ".toList e))

/-- `add_program_unit(project, unit_name, unit_body, erase_existing)`: `programUnits`
is added as `{}` when missing, and the unit is set unless `erase_existing` is false
and the name is already `in` the units. -/
def addProgramUnit (project : List (PyStr × PyJson)) (unitName : PyStr) (unitBody : PyJson)
    (eraseExisting : Bool) : Except ProjectExc (List (PyStr × PyJson)) := do
  let project := if project.any (·.1 = "programUnits".toList) then project
    else dictSet project "programUnits".toList (.dict [])
  let units := (dictGet project "programUnits".toList).getD (.dict [])
  let put ← if eraseExisting then pure true else (!·) <$> pyContains units unitName
  if put then
    let units ← pySetItem units unitName unitBody
    pure (dictSet project "programUnits".toList (.dict units))
  else pure project

/-- The `unit_body` of `generate_project`. -/
def unitBody (kind : PyStr) (sources references : List PyStr) : PyJson :=
  .dict [("kind".toList, .str kind), ("sources".toList, .list (sources.map .str)),
    ("references".toList, .list (references.map fun ref => .dict [("path".toList, .str ref)]))]

/-- `unit_kinds`. -/
def unitKinds : List PyStr := ["program".toList, "library".toList]

/-- `check_kind(kind)`, the type of `--kind`: the kind in lower case must be a unit kind,
and is given back capitalised; otherwise `ArgumentTypeError` with its message.
`str.lower` is taken on ASCII letters: no other letter lowers to a letter of `program`
or `library`. -/
def checkKind (kind : PyStr) : Except PyStr PyStr :=
  let k := kind.map Char.toLower
  if k ∈ unitKinds then .ok (match k with | c :: cs => c.toUpper :: cs | [] => [])
  else .error ("Kind must be one of the following: ".toList ++ ", ".toList.intercalate unitKinds)

/-- `generate_project(dir, unit_name, sources, kind, references, version)`, with its two
writes on a device that takes `room` characters into the file: the file system after
it, and whether it raised. -/
def generateProject (fs : FileSys) (H : Host) (dir unitName : PyStr) (sources : List PyStr)
    (kind : PyStr) (references : List PyStr) (version : PyStr) (room : Option Nat := none) :
    FileSys × Except ProjectExc Unit :=
  match readProjectFile fs H dir true room with
  | (fs, .error e) => (fs, .error e)
  | (fs, .ok project) =>
    match pySetItem project "skipVersion".toList (.str version) >>= fun project =>
        addProgramUnit project unitName (unitBody kind sources references) true with
    | .error e => (fs, .error e)
    | .ok project =>
      match writeProjectFile fs H dir (some project) room with
      | (fs, r) => (fs, r.map fun _ => ())

/-- The project directory of `main`: `os.path.abspath(args.dir or
os.path.dirname(args.sources[0]))`, an empty `--dir` counting as missing. -/
def mainDir (H : Host) (dirArg : Option PyStr) (firstSource : PyStr) : PyStr :=
  realpath H.cwd (match dirArg with
    | some d => if d = [] then dirname firstSource else d
    | none => dirname firstSource)

/-- The unit name of `main`: `args.name or
os.path.splitext(os.path.basename(args.sources[0]))[0]`. -/
def mainName (nameArg : Option PyStr) (firstSource : PyStr) : PyStr :=
  match nameArg with
  | some n => if n = [] then (splitext (lastSeg firstSource)).1 else n
  | none => (splitext (lastSeg firstSource)).1

/-- `main` once `parse_args` has given `--dir`, `--name`, the sources (at least one,
`nargs='+'`), the kind `check_kind` returned, the references and the version: the
sources and references are made relative to the project directory. -/
def projectMain (fs : FileSys) (H : Host) (dirArg nameArg : Option PyStr) (firstSource : PyStr)
    (moreSources : List PyStr) (kind : PyStr) (references : List PyStr) (version : PyStr) :
    FileSys × Except ProjectExc Unit :=
  let dir := mainDir H dirArg firstSource
  generateProject fs H dir (mainName nameArg firstSource)
    ((firstSource :: moreSources).map fun src => relpath H.cwd src dir) kind
    (references.map fun ref => relpath H.cwd ref dir) version

/-! ### Dicts -/

section Dict

variable {α : Type} {d : List (PyStr × α)} {k k' : PyStr} {v w : α}

@[simp] theorem dictGet_dictSet_self (k : PyStr) (v : α) :
    ∀ d : List (PyStr × α), dictGet (dictSet d k v) k = some v
  | [] => by simp [dictSet, dictGet]
  | (k', v') :: d => by
    by_cases h : k' = k
    · simp [dictSet, dictGet, h]
    · simp [dictSet, dictGet, h, dictGet_dictSet_self k v d]

theorem dictGet_dictSet_of_ne (h : k' ≠ k) (v : α) :
    ∀ d : List (PyStr × α), dictGet (dictSet d k v) k' = dictGet d k'
  | [] => by simp [dictSet, dictGet, Ne.symm h]
  | (k'', v') :: d => by
    by_cases hk : k'' = k
    · subst hk; simp [dictSet, dictGet, Ne.symm h]
    · simp [dictSet, dictGet, hk, dictGet_dictSet_of_ne h v d]

theorem keys_dictSet (k : PyStr) (v : α) : ∀ d : List (PyStr × α),
    (dictSet d k v).map Prod.fst = if k ∈ d.map Prod.fst then d.map Prod.fst else d.map Prod.fst ++ [k]
  | [] => rfl
  | (k', v') :: d => by
    by_cases h : k' = k
    · subst h
      rw [dictSet, if_pos rfl, List.map_cons, List.map_cons, if_pos (List.mem_cons_self _ _)]
    · rw [dictSet, if_neg h, List.map_cons, keys_dictSet k v d]
      simp only [List.map_cons, List.mem_cons, Ne.symm h, false_or]
      split <;> rfl

theorem nodup_keys_dictSet (h : (d.map Prod.fst).Nodup) (k : PyStr) (v : α) :
    ((dictSet d k v).map Prod.fst).Nodup := by
  rw [keys_dictSet]
  split
  · exact h
  · rename_i hk
    exact h.append (List.nodup_singleton k) (List.disjoint_singleton.2 hk)

theorem dictSet_eq_self (k : PyStr) (v : α) :
    ∀ {d : List (PyStr × α)}, dictGet d k = some v → dictSet d k v = d
  | [], h => by simp [dictGet] at h
  | (k', v') :: d, h => by
    by_cases hk : k' = k
    · simp_all [dictGet, dictSet]
    · simp only [dictGet, hk, if_false] at h
      simp [dictSet, hk, dictSet_eq_self k v h]

theorem dictSet_dictSet (k : PyStr) (v w : α) :
    ∀ d : List (PyStr × α), dictSet (dictSet d k v) k w = dictSet d k w
  | [] => by simp [dictSet]
  | (k', v') :: d => by
    by_cases hk : k' = k
    · simp [dictSet, hk]
    · simp [dictSet, hk, dictSet_dictSet k v w d]

theorem any_key_eq_isSome (k : PyStr) :
    ∀ d : List (PyStr × α), d.any (·.1 = k) = (dictGet d k).isSome
  | [] => rfl
  | (k', v) :: d => by by_cases h : k' = k <;> simp [dictGet, h, any_key_eq_isSome k d]

theorem dictSet_ne_nil (k : PyStr) (v : α) : ∀ d : List (PyStr × α), dictSet d k v ≠ []
  | [] => List.cons_ne_nil _ _
  | (k', v') :: d => by unfold dictSet; split <;> exact List.cons_ne_nil _ _

theorem mem_dictSet {kv : PyStr × α} (k : PyStr) (v : α) :
    ∀ {d : List (PyStr × α)}, kv ∈ dictSet d k v → kv ∈ d ∨ kv = (k, v)
  | [], h => by simp [dictSet] at h; exact .inr h
  | (k', v') :: d, h => by
    unfold dictSet at h
    split at h
    · rcases List.mem_cons.1 h with h | h
      · exact .inr h
      · exact .inl (List.mem_cons_of_mem _ h)
    · rcases List.mem_cons.1 h with h | h
      · exact .inl (h ▸ List.mem_cons_self _ _)
      · exact (mem_dictSet k v h).imp_left (List.mem_cons_of_mem _)

end Dict

/-! ### What `json.loads` reads -/

/-- A value whose dicts, at every depth, hold each key once. -/
inductive DistinctKeys : PyJson → Prop
  | null : DistinctKeys .null
  | bool (b : Bool) : DistinctKeys (.bool b)
  | int (n : Int) : DistinctKeys (.int n)
  | float (lit : PyStr) : DistinctKeys (.float lit)
  | str (s : PyStr) : DistinctKeys (.str s)
  | list (xs : List PyJson) : (∀ x ∈ xs, DistinctKeys x) → DistinctKeys (.list xs)
  | dict (kvs : List (PyStr × PyJson)) : (kvs.map Prod.fst).Nodup → (∀ kv ∈ kvs, DistinctKeys kv.2) →
      DistinctKeys (.dict kvs)

theorem distinctKeys_of_scanNumber {s r : PyStr} {v : PyJson} (h : scanNumber s = .ok (v, r)) :
    DistinctKeys v := by
  unfold scanNumber at h
  split at h
  · cases h
  · dsimp only at h
    split_ifs at h <;> (cases h; constructor)

theorem eq_or_of_ite_ok {c : Prop} [Decidable c] {x v : PyJson} {t r : PyStr}
    {b : Except JsonExc (PyJson × PyStr)} (h : (if c then .ok (x, t) else b) = .ok (v, r)) :
    x = v ∨ b = .ok (v, r) := by
  by_cases hc : c
  · rw [if_pos hc] at h; cases h; exact .inl rfl
  · rw [if_neg hc] at h; exact .inr h

/-- A constant is a scalar, and so is a number. -/
theorem distinctKeys_of_scanConst {s r : PyStr} {v : PyJson} (h : scanConst s = .ok (v, r)) :
    DistinctKeys v := by
  rw [scanConst] at h
  iterate 6 (rcases eq_or_of_ite_ok h with rfl | h; · constructor)
  exact distinctKeys_of_scanNumber h

/-- The dicts `scan_once` builds hold each key once: a key read again replaces its value in
place, so every accumulator of `_parse_object` keeps its keys distinct. -/
theorem distinctKeys_of_scan : ∀ n : Nat,
    (∀ s v r, scanOnce n s = .ok (v, r) → DistinctKeys v) ∧
    (∀ acc s v r, (∀ x ∈ acc, DistinctKeys x) → scanItems n acc s = .ok (v, r) → DistinctKeys v) ∧
    (∀ acc s v r, (acc.map Prod.fst).Nodup → (∀ kv ∈ acc, DistinctKeys kv.2) →
      scanMembers n acc s = .ok (v, r) → DistinctKeys v)
  | 0 => ⟨fun _ _ _ h => by simp [scanOnce] at h, fun _ _ _ _ _ h => by simp [scanItems] at h,
      fun _ _ _ _ _ _ h => by simp [scanMembers] at h⟩
  | n + 1 => by
    obtain ⟨ihOnce, ihItems, ihMembers⟩ := distinctKeys_of_scan n
    refine ⟨fun s v r h => ?_, fun acc s v r hacc h => ?_, fun acc s v r hkeys hacc h => ?_⟩
    · rcases s with _ | ⟨c, s⟩
      · simp [scanOnce] at h
      rw [scanOnce] at h
      split_ifs at h
      · cases hs : scanString s with
        | error e => rw [hs] at h; cases h
        | ok p => rw [hs] at h; cases h; exact .str _
      · split at h
        · cases h; exact .dict [] List.nodup_nil (by simp)
        · exact ihMembers [] _ v r List.nodup_nil (by simp) h
      · split at h
        · cases h; exact .list [] (by simp)
        · exact ihItems [] _ v r (by simp) h
      · exact distinctKeys_of_scanConst h
    · rw [scanItems] at h
      split at h
      · cases h
      · next v' r' hv' =>
        have hacc' : ∀ x ∈ acc ++ [v'], DistinctKeys x := fun x hx => by
          rcases List.mem_append.1 hx with hx | hx
          · exact hacc x hx
          · rw [List.mem_singleton.1 hx]; exact ihOnce _ _ _ hv'
        split at h
        · cases h; exact .list _ hacc'
        · exact ihItems _ _ _ _ hacc' h
        · cases h
    · rcases s with _ | ⟨c, s⟩
      · simp [scanMembers] at h
      by_cases hc : c = '"'
      · subst hc
        rw [scanMembers] at h
        split at h
        · cases h
        · next k r' _ =>
          split at h
          · split at h
            · cases h
            · next v' r'' hv' =>
              have hkeys' := nodup_keys_dictSet hkeys k v'
              have hacc' : ∀ kv ∈ dictSet acc k v', DistinctKeys kv.2 := fun kv hkv => by
                rcases mem_dictSet k v' hkv with hkv | rfl
                · exact hacc kv hkv
                · exact ihOnce _ _ _ hv'
              split at h
              · cases h; exact .dict _ hkeys' hacc'
              · exact ihMembers _ _ _ _ hkeys' hacc' h
              · cases h
          · cases h
      · simp [scanMembers, hc] at h
/-- Every dict `json.loads` returns, at any depth, holds each key once. -/
theorem loads_distinct_keys {s : PyStr} {v : PyJson} (h : loads s = .ok v) : DistinctKeys v := by
  unfold loads at h
  split at h
  · cases h
  · split at h
    · cases h
    · next v' r hv =>
      split_ifs at h
      cases h
      exact (distinctKeys_of_scan _).1 _ _ _ hv

-- A key read twice keeps its first place and its last value.
example : loads "\x7b\"a\": 1, \"b\": [], \"a\": 2\x7d".toList =
    .ok (.dict [("a".toList, .int 2), ("b".toList, .list [])]) := rfl


/-! ### Values the script writes -/

theorem itemsWf_map {β : Type} (f : β → PyJson) (hf : ∀ b, (f b).wf) :
    ∀ l : List β, itemsWf (l.map f)
  | [] => rfl
  | b :: l => by simp [itemsWf, hf b, itemsWf_map f hf l]

theorem membersWf_dictSet {v : PyJson} (hv : v.wf) (k : PyStr) :
    ∀ d : List (PyStr × PyJson), membersWf d → membersWf (dictSet d k v)
  | [], _ => by simp [dictSet, membersWf, hv]
  | (k', v') :: d, hd => by
    simp only [membersWf, Bool.and_eq_true] at hd
    by_cases h : k' = k
    · simp [dictSet, membersWf, h, hv, hd.2]
    · simp [dictSet, membersWf, h, hd.1, membersWf_dictSet hv k d hd.2]

theorem wf_dictSet {d : List (PyStr × PyJson)} {v : PyJson} (hd : (PyJson.dict d).wf) (hv : v.wf)
    (k : PyStr) : (PyJson.dict (dictSet d k v)).wf := by
  simp only [PyJson.wf, Bool.and_eq_true, decide_eq_true_eq] at hd ⊢
  exact ⟨nodup_keys_dictSet hd.1 k v, membersWf_dictSet hv k d hd.2⟩

theorem wf_of_dictGet {k : PyStr} {x : PyJson} :
    ∀ {d : List (PyStr × PyJson)}, membersWf d → dictGet d k = some x → x.wf
  | [], _, h => by simp [dictGet] at h
  | (k', v) :: d, hd, h => by
    simp only [membersWf, Bool.and_eq_true] at hd
    unfold dictGet at h
    split at h
    · exact Option.some.inj h ▸ hd.1
    · exact wf_of_dictGet hd.2 h

theorem unitBody_wf (kind : PyStr) (sources references : List PyStr) :
    (unitBody kind sources references).wf := by
  simp [unitBody, PyJson.wf, membersWf]
  refine ⟨itemsWf_map _ ?_ _, itemsWf_map _ ?_ _⟩ <;> intro <;> rfl

/-! ### The project file as a store -/

/-- The units of a project: the dict under `programUnits`, `{}` when it is missing. -/
def unitsOf (project : List (PyStr × PyJson)) : List (PyStr × PyJson) :=
  match dictGet project "programUnits".toList with
  | some (.dict u) => u
  | _ => []

/-- What a run of `generate_project` makes of the project it read: the version set, and
the unit set among the units already there. -/
def updatedProject (project : List (PyStr × PyJson)) (unitName : PyStr) (body : PyJson)
    (version : PyStr) : List (PyStr × PyJson) :=
  dictSet (dictSet project "skipVersion".toList (.str version)) "programUnits".toList
    (.dict (dictSet (unitsOf project) unitName body))

/-- The project `write_project_file(dir)` writes when it has none. -/
def defaultProject : PyJson := initProject "1.0".toList none none

/-- The members of the default project. -/
def defaultMembers : List (PyStr × PyJson) :=
  [("skipVersion".toList, .str "1.0".toList), ("variables".toList, .dict []),
    ("programUnits".toList, .dict [])]

theorem unitsOf_wf {kvs : List (PyStr × PyJson)} (h : (PyJson.dict kvs).wf) :
    (PyJson.dict (unitsOf kvs)).wf := by
  simp only [PyJson.wf, Bool.and_eq_true] at h
  unfold unitsOf
  split
  · next hu => exact wf_of_dictGet h.2 hu
  · rfl

theorem updatedProject_wf {kvs : List (PyStr × PyJson)} (h : (PyJson.dict kvs).wf)
    (unitName : PyStr) {body : PyJson} (hb : body.wf) (version : PyStr) :
    (PyJson.dict (updatedProject kvs unitName body version)).wf :=
  wf_dictSet (wf_dictSet h (show (PyJson.str version).wf from rfl) _)
    (wf_dictSet (unitsOf_wf h) hb _) _

/-- With `erase_existing`, `add_program_unit` sets the unit among the units, which are
`{}` when `programUnits` is missing; units that are not a dict raise `TypeError`. -/
theorem addProgramUnit_erase (project : List (PyStr × PyJson)) (unitName : PyStr)
    (body : PyJson) : addProgramUnit project unitName body true =
      match dictGet project "programUnits".toList with
      | some (.dict _) | none =>
        .ok (dictSet project "programUnits".toList (.dict (dictSet (unitsOf project) unitName body)))
      | some _ => .error .typeError := by
  unfold addProgramUnit unitsOf
  rw [any_key_eq_isSome]
  cases h : dictGet project "programUnits".toList with
  | none => simp [pySetItem, dictSet_dictSet]
  | some x =>
    simp only [Option.isSome_some, ↓reduceIte, h, Option.getD_some]
    cases x <;> simp [pySetItem]

theorem updatedProject_ne_nil (kvs : List (PyStr × PyJson)) (unitName : PyStr) (body : PyJson)
    (version : PyStr) : updatedProject kvs unitName body version ≠ [] :=
  dictSet_ne_nil _ _ _

theorem unitsOf_updatedProject (kvs : List (PyStr × PyJson)) (unitName : PyStr) (body : PyJson)
    (version : PyStr) :
    unitsOf (updatedProject kvs unitName body version) = dictSet (unitsOf kvs) unitName body := by
  rw [unitsOf, updatedProject, dictGet_dictSet_self]

theorem version_updatedProject (kvs : List (PyStr × PyJson)) (unitName : PyStr) (body : PyJson)
    (version : PyStr) :
    dictGet (updatedProject kvs unitName body version) "skipVersion".toList = some (.str version) := by
  rw [updatedProject, dictGet_dictSet_of_ne (by decide), dictGet_dictSet_self]

theorem updatedProject_idem (kvs : List (PyStr × PyJson)) (unitName : PyStr) (body : PyJson)
    (version : PyStr) :
    updatedProject (updatedProject kvs unitName body version) unitName body version =
      updatedProject kvs unitName body version := by
  have hu : dictGet (updatedProject kvs unitName body version) "programUnits".toList =
      some (.dict (dictSet (unitsOf kvs) unitName body)) := dictGet_dictSet_self _ _ _
  rw [updatedProject, unitsOf_updatedProject, dictSet_dictSet,
    dictSet_eq_self _ _ (version_updatedProject ..), dictSet_eq_self _ _ hu]

/-! ### Writing and reading the file -/

section Store

variable {fs fs' fs₁ : FileSys} {H : Host} {dir : PyStr} {kvs : List (PyStr × PyJson)}
  {unitName kind version : PyStr} {sources references : List PyStr} {room : Option Nat}

/-- A path written once takes a second write, which replaces the data: the parent is
still a directory, and the path is now a file. -/
theorem write_write {p : PyStr} {d : FileData} (h : fs.write H p d = .ok fs') (d' : FileData) :
    fs'.write H p d' = .ok (fs.set (resolve H.cwd p) (.file d')) := by
  have hfs := FileSys.write_ok h
  simp only [FileSys.write] at h ⊢
  split at h
  · cases h
  · next hnd =>
    split at h
    · next hpar =>
      have hne : (resolve H.cwd p).dropLast ≠ resolve H.cwd p := fun he =>
        hnd (he ▸ hpar)
      rw [hfs, FileSys.set_node_self, FileSys.set_node_of_ne _ _ _ _ hne, hpar]
      simp [FileSys.set, Function.update_idem]
    all_goals cases h

theorem write_same {p : PyStr} {d : FileData} (h : fs.write H p d = .ok fs') :
    fs'.write H p d = .ok fs' := by
  rw [write_write h, FileSys.write_ok h]

/-- What `write_project_file` wrote, `read_project_file` reads back in text mode: the
text has no carriage return, and `json.loads` reads back what `json.dumps` writes. -/
theorem readProjectFile_write {v : PyJson} (hw : fs.write H (projectFilePath H dir) (.text (dumps v)) = .ok fs')
    (hv : v.wf) (createDefault : Bool) : readProjectFile fs' H dir createDefault = (fs', .ok v) := by
  rw [readProjectFile, FileSys.readText, FileSys.write_ok hw, FileSys.readData_set, if_pos rfl]
  dsimp only [Except.map, FileData.bytes]
  rw [universalNewlines_of_cr_not_mem _ (show '\r' ∉ dumps v from cr_not_mem_dumpsAt 0 v hv),
    loads_dumps v hv]
  rfl

theorem writeProjectFile_value {project : List (PyStr × PyJson)} {v : PyJson} {room : Option Nat}
    (hp : project ≠ []) (h : (writeProjectFile fs H dir (some project) room).2 = .ok v) :
    v = .dict project := by
  obtain ⟨kv, kvs, rfl⟩ := List.exists_cons_of_ne_nil hp
  unfold writeProjectFile at h
  dsimp only at h
  split at h
  · exact (Except.ok.inj h).symm
  · cases h

/-- With no project, `write_project_file` writes the default one. -/
theorem writeProjectFile_none (room : Option Nat) :
    writeProjectFile fs H dir none room = writeProjectFile fs H dir (some defaultMembers) room :=
  rfl

theorem writeProjectFile_of_write {project : List (PyStr × PyJson)} (hp : project ≠ [])
    (hw : fs.write H (projectFilePath H dir) (.text (dumps (.dict project))) = .ok fs') :
    writeProjectFile fs H dir (some project) = (fs', .ok (.dict project)) := by
  obtain ⟨kv, kvs, rfl⟩ := List.exists_cons_of_ne_nil hp
  unfold writeProjectFile
  dsimp only
  rw [FileSys.openWrite_of_write_ok hw]

/-- When the file cannot be opened, `write_project_file` exits with the open's error and
changes nothing. -/
theorem writeProjectFile_of_open_error (project : Option (List (PyStr × PyJson)))
    (room : Option Nat) {d : FileData} {x : PyExc}
    (hw : fs.write H (projectFilePath H dir) d = .error x) :
    (writeProjectFile fs H dir project room).1 = fs ∧
      ∃ msg, (writeProjectFile fs H dir project room).2 = .error (.exit msg x) := by
  unfold writeProjectFile
  dsimp only
  rw [FileSys.openWrite_of_write_error hw]
  exact ⟨rfl, _, rfl⟩

theorem writeProjectFile_write {project : Option (List (PyStr × PyJson))} {v : PyJson}
    {room : Option Nat} (h : writeProjectFile fs H dir project room = (fs', .ok v)) :
    fs.write H (projectFilePath H dir) (.text (dumps v)) = .ok fs' := by
  unfold writeProjectFile at h
  dsimp only at h
  split at h
  · next hw =>
    simp only [Prod.mk.injEq, Except.ok.injEq] at h
    have hok := FileSys.openWrite_ok (show (fs.openWrite _ _ _ room).2 = none by rw [hw])
    rw [hw] at hok
    rw [← h.1, ← h.2, hok]
  · cases h

/-- A `write_project_file` that raises anything but `ENOSPC` could not open the file: it
changed nothing, and no write to the file can succeed. -/
theorem writeProjectFile_error {project : Option (List (PyStr × PyJson))} {room : Option Nat}
    {e : ProjectExc} (h : (writeProjectFile fs H dir project room).2 = .error e)
    (he : ∀ msg, e ≠ .exit msg .noSpace) :
    (writeProjectFile fs H dir project room).1 = fs ∧
      ∃ x, ∀ d, fs.write H (projectFilePath H dir) d = .error x := by
  rcases hw : writeProjectFile fs H dir project room with ⟨fs₂, r⟩
  rw [hw] at h
  subst h
  unfold writeProjectFile at hw
  dsimp only at hw
  split at hw
  · cases hw
  · next fs₃ x hopen =>
    simp only [Prod.mk.injEq, Except.error.injEq] at hw
    obtain ⟨rfl, rfl⟩ := hw
    obtain ⟨h1, h2⟩ := FileSys.openWrite_of_ne_noSpace
      (show (fs.openWrite _ _ _ room).2 = some x by rw [hopen]) fun hx => he _ (by rw [hx])
    rw [hopen] at h1
    exact ⟨h1, x, h2⟩

/-- A call of `read_project_file` either leaves the file system as it was, or could not open the
file, wrote the default project and returns it. -/
theorem readProjectFile_cases (fs : FileSys) (H : Host) (dir : PyStr) (createDefault : Bool) :
    (readProjectFile fs H dir createDefault).1 = fs ∨
      (createDefault = true ∧ (readProjectFile fs H dir createDefault).2 = .ok defaultProject ∧
        fs.write H (projectFilePath H dir) (.text (dumps defaultProject)) =
          .ok (readProjectFile fs H dir createDefault).1) := by
  unfold readProjectFile
  split
  · exact .inl rfl
  · split
    · next hb =>
      rw [writeProjectFile_none]
      rcases FileSys.write_cases fs H (projectFilePath H dir) with ⟨x, hx⟩ | hw
      · exact .inl (writeProjectFile_of_open_error _ _ (hx (.text []))).1
      · rw [writeProjectFile_of_write (show defaultMembers ≠ [] from List.cons_ne_nil _ _) (hw _)]
        exact .inr ⟨hb, rfl, hw _⟩
    · exact .inl rfl

/-- A read that raises anything but `ENOSPC` changed nothing. -/
theorem readProjectFile_error {createDefault : Bool} {room : Option Nat} {e : ProjectExc}
    (h : (readProjectFile fs H dir createDefault room).2 = .error e)
    (he : ∀ msg, e ≠ .exit msg .noSpace) : (readProjectFile fs H dir createDefault room).1 = fs := by
  revert h
  unfold readProjectFile
  split
  · exact fun _ => rfl
  · split
    · exact fun h => (writeProjectFile_error h he).1
    · exact fun _ => rfl

/-- A read that gives a value read the file, or could not open it and wrote the default
project. -/
theorem readProjectFile_ok {createDefault : Bool} {room : Option Nat} {v : PyJson}
    (h : readProjectFile fs H dir createDefault room = (fs₁, .ok v)) :
    fs₁ = fs ∨
      (v = defaultProject ∧ fs.write H (projectFilePath H dir) (.text (dumps v)) = .ok fs₁) := by
  revert h
  unfold readProjectFile
  split
  · exact fun h => .inl (congrArg Prod.fst h).symm
  · split
    · intro h
      rw [writeProjectFile_none] at h
      exact .inr ⟨writeProjectFile_value (show defaultMembers ≠ [] from List.cons_ne_nil _ _) (congrArg Prod.snd h),
        writeProjectFile_write h⟩
    · exact fun h => .inl (congrArg Prod.fst h).symm

theorem defaultProject_units : dictGet defaultMembers "programUnits".toList = some (.dict []) :=
  rfl

/-- A run after a read that gave the dict `kvs`: the edit of the project, then its write. -/
theorem generateProject_of_read (hr : readProjectFile fs H dir true room = (fs₁, .ok (.dict kvs)))
    (unitName : PyStr) (sources : List PyStr) (kind : PyStr) (references : List PyStr) (version : PyStr) :
    generateProject fs H dir unitName sources kind references version room =
      match dictGet kvs "programUnits".toList with
      | some (.dict _) | none =>
        let w := writeProjectFile fs₁ H dir
          (some (updatedProject kvs unitName (unitBody kind sources references) version)) room
        (w.1, w.2.map fun _ => ())
      | some _ => (fs₁, .error .typeError) := by
  have hne : "skipVersion".toList ≠ "programUnits".toList := by decide
  have hunits : unitsOf (dictSet kvs "skipVersion".toList (.str version)) = unitsOf kvs := by
    rw [unitsOf, unitsOf, dictGet_dictSet_of_ne (Ne.symm hne)]
  rw [generateProject, hr]
  dsimp only [pySetItem, bind, Except.bind]
  rw [addProgramUnit_erase, dictGet_dictSet_of_ne (Ne.symm hne), hunits]
  cases dictGet kvs "programUnits".toList with
  | none => rfl
  | some x => cases x <;> rfl

/-- A run that succeeds after reading the dict `kvs` wrote the updated project where the
read left the file system. -/
theorem generateProject_write (hr : readProjectFile fs H dir true = (fs₁, .ok (.dict kvs)))
    (hg : generateProject fs H dir unitName sources kind references version = (fs', .ok ())) :
    fs₁.write H (projectFilePath H dir) (.text (dumps
      (.dict (updatedProject kvs unitName (unitBody kind sources references) version)))) = .ok fs' := by
  have hw : ∃ v, writeProjectFile fs₁ H dir
      (some (updatedProject kvs unitName (unitBody kind sources references) version)) = (fs', .ok v) := by
    rw [generateProject_of_read hr] at hg
    split at hg
    all_goals first
      | cases hg
      | simp only [Prod.mk.injEq] at hg
        cases hw : (writeProjectFile fs₁ H dir _).2 with
        | ok v => exact ⟨v, Prod.ext hg.1 hw⟩
        | error e => rw [hw] at hg; cases hg.2
  obtain ⟨v, hv⟩ := hw
  have hwrite := writeProjectFile_write hv
  rwa [writeProjectFile_value (updatedProject_ne_nil _ _ _ _) (congrArg Prod.snd hv)] at hwrite

/-- A checkout with the empty directory `/p` and the directory `/q`, whose project file
holds a list. -/
def projectFs : FileSys := FileSys.ofList
  [([], .dir), (["p".toList], .dir), (["q".toList], .dir),
   (["q".toList, "skip.project.json".toList], .file (.text "[]".toList))]

/-- The checkout `projectFs` once the default project is written to `/p`. -/
def projectFsDefault : FileSys :=
  projectFs.set ["p".toList, "skip.project.json".toList] (.file (.text (dumps defaultProject)))

/-- What `write_project_file` writes, `read_project_file` gives back as it was: a project
without floats, each dict holding a key once, survives the file in text mode. -/
theorem project_file_round_trip {project : Option (List (PyStr × PyJson))} {v : PyJson}
    (hw : writeProjectFile fs H dir project = (fs', .ok v)) (hv : v.wf) (createDefault : Bool) :
    readProjectFile fs' H dir createDefault = (fs', .ok v) :=
  readProjectFile_write (writeProjectFile_write hw) hv createDefault

theorem project_file_sample_round_trip :
    writeProjectFile projectFs checkoutHost "/p".toList none = (projectFsDefault, .ok defaultProject) ∧
      defaultProject.wf ∧ readProjectFile projectFsDefault checkoutHost "/p".toList false =
        (projectFsDefault, .ok defaultProject) :=
  have hw : writeProjectFile projectFs checkoutHost "/p".toList none =
      (projectFsDefault, .ok defaultProject) := rfl
  ⟨hw, rfl, project_file_round_trip hw (by rfl) false⟩

/-- A successful run changes no file but the project file, and reading that file back
gives the project the run read, with the version set and the unit set among the other
units. -/
theorem generate_project_reads_back
    (hr : readProjectFile fs H dir true = (fs₁, .ok (.dict kvs))) (hwf : (PyJson.dict kvs).wf)
    (hg : generateProject fs H dir unitName sources kind references version = (fs', .ok ())) :
    readProjectFile fs' H dir false =
        (fs', .ok (.dict (updatedProject kvs unitName (unitBody kind sources references) version))) ∧
      ∀ cs ≠ resolve H.cwd (projectFilePath H dir), fs'.node cs = fs.node cs := by
  have hw := generateProject_write hr hg
  refine ⟨readProjectFile_write hw (updatedProject_wf hwf _ (unitBody_wf _ _ _) _) false,
    fun cs hcs => ?_⟩
  rw [FileSys.write_ok hw, FileSys.set_node_of_ne _ _ _ _ hcs]
  rcases readProjectFile_cases fs H dir true with h | ⟨-, -, h⟩ <;> simp only [hr] at h
  · rw [h]
  · rw [FileSys.write_ok h, FileSys.set_node_of_ne _ _ _ _ hcs]

/-- The checkout `projectFsDefault` once the unit `app` of `main.sk` is written, for version 0.2. -/
def projectFsRun : FileSys :=
  projectFsDefault.set ["p".toList, "skip.project.json".toList] (.file (.text (dumps (.dict
    (updatedProject defaultMembers "app".toList
      (unitBody "Program".toList ["main.sk".toList] ["/prelude".toList]) "0.2".toList)))))

/-- The checkout `projectFsDefault` once `main` has written the unit of
`/p/main.sk` and `/p/lib/util.sk`, with `/prelude` as reference. -/
def projectFsMain : FileSys :=
  projectFsDefault.set ["p".toList, "skip.project.json".toList] (.file (.text (dumps (.dict
    (updatedProject defaultMembers "main".toList (unitBody "Program".toList
      ["main.sk".toList, "lib/util.sk".toList] ["../prelude".toList]) "1.0".toList)))))


theorem generate_project_sample_reads_back :
    readProjectFile projectFs checkoutHost "/p".toList true =
        (projectFsDefault, .ok (.dict defaultMembers)) ∧
      generateProject projectFs checkoutHost "/p".toList "app".toList ["main.sk".toList]
        "Program".toList ["/prelude".toList] "0.2".toList = (projectFsRun, .ok ()) ∧
      readProjectFile projectFsRun checkoutHost "/p".toList false = (projectFsRun, .ok (.dict
        (updatedProject defaultMembers "app".toList
          (unitBody "Program".toList ["main.sk".toList] ["/prelude".toList]) "0.2".toList))) :=
  have hr : readProjectFile projectFs checkoutHost "/p".toList true =
      (projectFsDefault, .ok (.dict defaultMembers)) := rfl
  have hg : generateProject projectFs checkoutHost "/p".toList "app".toList ["main.sk".toList]
      "Program".toList ["/prelude".toList] "0.2".toList = (projectFsRun, .ok ()) := rfl
  ⟨hr, hg, (generate_project_reads_back hr (by rfl) hg).1⟩

/-- Running `generate_project` again with the same arguments after a run that succeeded
succeeds and leaves every file as it was. -/
theorem generate_project_idempotent
    (hr : readProjectFile fs H dir true = (fs₁, .ok (.dict kvs))) (hwf : (PyJson.dict kvs).wf)
    (hg : generateProject fs H dir unitName sources kind references version = (fs', .ok ())) :
    generateProject fs' H dir unitName sources kind references version = (fs', .ok ()) := by
  have hw := generateProject_write hr hg
  have hr' := readProjectFile_write hw (updatedProject_wf hwf _ (unitBody_wf _ _ _) _) true
  have hu : dictGet (updatedProject kvs unitName (unitBody kind sources references) version)
      "programUnits".toList =
      some (.dict (dictSet (unitsOf kvs) unitName (unitBody kind sources references))) :=
    dictGet_dictSet_self _ _ _
  rw [generateProject_of_read hr', hu]
  dsimp only
  rw [updatedProject_idem, writeProjectFile_of_write (updatedProject_ne_nil _ _ _ _) (write_same hw)]
  rfl

theorem generate_project_sample_idempotent :
    generateProject projectFs checkoutHost "/p".toList "app".toList ["main.sk".toList]
        "Program".toList ["/prelude".toList] "0.2".toList = (projectFsRun, .ok ()) ∧
      generateProject projectFsRun checkoutHost "/p".toList "app".toList ["main.sk".toList]
        "Program".toList ["/prelude".toList] "0.2".toList = (projectFsRun, .ok ()) :=
  have hr : readProjectFile projectFs checkoutHost "/p".toList true =
      (projectFsDefault, .ok (.dict defaultMembers)) := rfl
  have hg : generateProject projectFs checkoutHost "/p".toList "app".toList ["main.sk".toList]
      "Program".toList ["/prelude".toList] "0.2".toList = (projectFsRun, .ok ()) := rfl
  ⟨hg, generate_project_idempotent hr (by rfl) hg⟩

/-- A run that raises anything but `ENOSPC` (an error of `json.loads`, a `TypeError`, or
`exit` after an open that failed) leaves the file system as it was. The default project
the read writes when the file cannot be opened leads to no such error: it holds a dict
of units, and the file just written opens again. -/
theorem generate_project_failure_atomic (room : Option Nat) {e : ProjectExc}
    (h : (generateProject fs H dir unitName sources kind references version room).2 = .error e)
    (he : ∀ msg, e ≠ .exit msg .noSpace) :
    (generateProject fs H dir unitName sources kind references version room).1 = fs := by
  rcases hR : readProjectFile fs H dir true room with ⟨fs₁, e' | project⟩
  · -- the read raised, and the run with it
    rw [generateProject, hR] at h ⊢
    cases h
    have := readProjectFile_error (show (readProjectFile fs H dir true room).2 = .error e by
      rw [hR]) he
    rwa [hR] at this
  rcases readProjectFile_ok hR with rfl | ⟨rfl, hw⟩
  · -- the read changed nothing: the edit raised, or the write could not open the file
    revert h
    rw [generateProject, hR]
    dsimp only
    split
    · exact fun _ => rfl
    · next p _ =>
      intro h
      cases hw : (writeProjectFile fs₁ H dir (some p) room).2 with
      | ok v => simp [hw, Except.map] at h
      | error x =>
        simp only [hw, Except.map, Except.error.injEq] at h
        exact (writeProjectFile_error hw (h ▸ he)).1
  · -- the read wrote the default project: the edit succeeds, and the file opens again
    have hr : readProjectFile fs H dir true room = (fs₁, .ok (.dict defaultMembers)) := hR
    rw [generateProject_of_read hr, defaultProject_units] at h
    dsimp only at h
    cases hw2 : (writeProjectFile fs₁ H dir (some (updatedProject defaultMembers unitName
        (unitBody kind sources references) version)) room).2 with
    | ok v => simp [hw2, Except.map] at h
    | error x =>
      simp only [hw2, Except.map, Except.error.injEq] at h
      obtain ⟨-, y, hy⟩ := writeProjectFile_error hw2 (h ▸ he)
      cases (write_write hw (.text [])).symm.trans (hy _)

theorem generate_project_sample_failure :
    (generateProject projectFs checkoutHost "/q".toList "app".toList ["main.sk".toList]
        "Program".toList ["/prelude".toList] "0.2".toList (some 0)).2 = .error .typeError ∧
      (∀ msg, ProjectExc.typeError ≠ .exit msg .noSpace) ∧
      (generateProject projectFs checkoutHost "/q".toList "app".toList ["main.sk".toList]
        "Program".toList ["/prelude".toList] "0.2".toList (some 0)).1 = projectFs :=
  have h : (generateProject projectFs checkoutHost "/q".toList "app".toList ["main.sk".toList]
      "Program".toList ["/prelude".toList] "0.2".toList (some 0)).2 = .error .typeError := rfl
  ⟨h, fun _ h => ProjectExc.noConfusion h,
    generate_project_failure_atomic (some 0) h fun _ h => ProjectExc.noConfusion h⟩

-- On a device that takes three characters, the default project the read writes to `/p`
-- is cut short, and the run exits with the file holding what the device took.
example : (generateProject projectFs checkoutHost "/p".toList "app".toList ["main.sk".toList]
      "Program".toList ["/prelude".toList] "0.2".toList (some 3)).1.get checkoutHost
        "/p/skip.project.json".toList = some (.file (.text "\x7b\n ".toList)) ∧
    (generateProject projectFs checkoutHost "/p".toList "app".toList ["main.sk".toList]
      "Program".toList ["/prelude".toList] "0.2".toList (some 3)).2 =
        .error (.exit ("Error while opening directory \"/p\". Make sure you are properly ".toList ++
          "specifying your project directory. Full error:\n".toList) .noSpace) :=
  ⟨rfl, rfl⟩

/-- After `main` succeeds, reading the project file gives the unit it wrote, whose
sources and references, resolved from the project directory, name the files the
arguments named from the working directory. -/
theorem project_main_paths_resolve {dirArg nameArg : Option PyStr} {first : PyStr}
    {more : List PyStr}
    (hr : readProjectFile fs H (mainDir H dirArg first) true = (fs₁, .ok (.dict kvs)))
    (hwf : (PyJson.dict kvs).wf)
    (hg : projectMain fs H dirArg nameArg first more kind references version = (fs', .ok ())) :
    ∃ srcs refs, readProjectFile fs' H (mainDir H dirArg first) false = (fs', .ok (.dict
        (updatedProject kvs (mainName nameArg first) (unitBody kind srcs refs) version))) ∧
      srcs.map (resolve (resolve H.cwd (mainDir H dirArg first))) = (first :: more).map (resolve H.cwd) ∧
      refs.map (resolve (resolve H.cwd (mainDir H dirArg first))) = references.map (resolve H.cwd) := by
  refine ⟨_, _, readProjectFile_write (generateProject_write hr hg)
    (updatedProject_wf hwf _ (unitBody_wf _ _ _) _) false, ?_, ?_⟩ <;>
  simp only [List.map_map, Function.comp_def, resolve_relpath H.cwd H.cwd_names]

theorem project_main_sample_paths :
    ∃ srcs refs, readProjectFile projectFsMain checkoutHost "/p".toList false =
        (projectFsMain, .ok (.dict (updatedProject defaultMembers "main".toList
          (unitBody "Program".toList srcs refs) "1.0".toList))) ∧
      srcs.map (resolve ["p".toList]) = ["/p/main.sk".toList, "/p/lib/util.sk".toList].map
        (resolve checkoutHost.cwd) ∧
      refs.map (resolve ["p".toList]) = ["/prelude".toList].map (resolve checkoutHost.cwd) := by
  have hr : readProjectFile projectFs checkoutHost (mainDir checkoutHost none "/p/main.sk".toList)
      true = (projectFsDefault, .ok (.dict defaultMembers)) := rfl
  have hg : projectMain projectFs checkoutHost none none "/p/main.sk".toList
      ["/p/lib/util.sk".toList] "Program".toList ["/prelude".toList] "1.0".toList =
      (projectFsMain, .ok ()) := rfl
  exact project_main_paths_resolve hr (by rfl) hg

end Store

end SkipTools
