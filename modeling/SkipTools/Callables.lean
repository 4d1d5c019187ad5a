import SkipTools.MakeCallables
import SkipTools.Shell
import Mathlib.Data.List.Sort
import Mathlib.Data.List.Lex
import Mathlib.Data.Prod.Lex
import Mathlib.Data.Char

/-! The generator of src/native/make_callables.py: `Callable.__init__`, `sortKey` and
`write`, and the script's loop over the callables sorted by their key, which opens a
`module M;` block whenever the module changes and closes the one before. For every table
whose class names all name a module, the file has one block per module, in the order of
the names, holding that module's callables in key order. -/

namespace SkipTools

/-- The `retType` of a `Callable`: `None`, `False` (the call does not return), or a type
text. -/
inductive RetType
  | none
  | false
  | str (t : PyStr)
  deriving DecidableEq, Repr

/-- A `Callable` with the attributes `write` reads. -/
structure Callable where
  name : PyStr
  className : PyStr
  moduleName : PyStr
  targs : List PyStr
  args : List PyStr
  intrinsic : Bool
  namedCall : Bool
  canThrow : Bool
  allocAmount : Option PyStr
  retType : RetType
  returns : Bool
  deriving DecidableEq, Repr

/-- The exceptions of `Callable.__init__`: `className[0]` of an empty class name, and
`'NamedCalls cannot have targs'`. -/
inductive CallableExc
  | indexError
  | assertionError
  deriving DecidableEq, Repr

/-- `className.split('.', 1)` as `__init__` reads it: the module before the first dot
and the class after it, or no module. -/
def splitModule (s : PyStr) : PyStr × PyStr :=
  match s.span (· ≠ '.') with
  | (m, _ :: c) => (m, c)
  | (c, []) => ([], c)

/-- `Callable.__init__`. A missing or empty `name` defaults to the module, a dot and the
class name with its first letter lowered (`str.lower` of an ASCII letter). -/
def Callable.init (className : PyStr) (name : Option PyStr) (targs args : List PyStr)
    (retType : RetType) (intrinsic namedCall canThrow : Bool) (allocAmount : Option PyStr) :
    Except CallableExc Callable := do
  let (moduleName, className) := splitModule className
  let name ← match name, className with
    | some (n :: ns), _ => pure (n :: ns)
    | _, c :: rest => pure (moduleName ++ '.' :: c.toLower :: rest)
    | _, [] => throw .indexError
  if namedCall && !targs.isEmpty then throw .assertionError
  pure { name, className, moduleName, targs, args, intrinsic, namedCall, canThrow, allocAmount,
         retType, returns := retType != .false }

/-- `sortKey()`: `(moduleName, className, name)`, compared as Python compares tuples of
strings, code point by code point with a prefix first. -/
def Callable.sortKey (c : Callable) : Lex (PyStr × Lex (PyStr × PyStr)) :=
  toLex (c.moduleName, toLex (c.className, c.name))

/-- The type text `if self.retType:` accepts: a non-empty string. -/
def RetType.text : RetType → Option PyStr
  | .str (t :: ts) => some (t :: ts)
  | _ => Option.none

/-- An f-string of a value that is `None` or a string. -/
def fmtOpt : Option PyStr → PyStr
  | some s => s
  | none => "None".toList

/-- `', '.join(xs)`. -/
def commaJoin (xs : List PyStr) : PyStr := ", ".toList.intercalate xs

/-- `write(out)`: the lines printed, one per call of `out`, and the exception of
`parseType` that stopped it. The first `parseType` runs once the signature of `call` is
printed, the second after the `_ = ` line of `request`. -/
def Callable.write (c : Callable) : List PyStr × Option ParseExc :=
  let returns := c.retType.text.isSome
  let head := ["class ".toList ++ c.className ++ (if c.intrinsic then [] else "()".toList) ++
      " extends O.CallableIntrinsic \x7b".toList,
    "  const name: String = \"".toList ++ c.name ++ "\";".toList, [],
    "  static fun call(".toList, "    fs: mutable O.FunSpecializer,".toList] ++
    c.targs.map (fun t => "    ".toList ++ t ++ ": Type,".toList) ++
    c.args.map (fun a => "    ".toList ++ a ++ ": O.MaybeExists<O.InstrTree>,".toList) ++
    ["    pos: Pos,".toList, "  ): ".toList ++
      (if returns then "O.MaybeExists<O.InstrTree>".toList else "void".toList) ++ " \x7b".toList]
  let ret : Except ParseExc PyStr := match c.retType.text with
    | some t => fmtOpt <$> parseType t false
    | none => .ok "tVoid".toList
  match ret with
  | .error e => (head, some e)
  | .ok ret =>
    let body := ["    ".toList ++ (if returns then [] else "_ = ".toList) ++ "static::".toList ++
        (if c.namedCall then "emitNamedCall".toList else "emitCallFunction".toList) ++ "\x7b".toList,
      "      fs,".toList,
      "      ".toList ++ (if c.namedCall then "retType".toList else "typ".toList) ++ " => ".toList ++
        ret ++ ",".toList] ++
      (if c.targs.isEmpty then [] else ["      targs => Array[".toList ++ commaJoin c.targs ++ "],".toList]) ++
      ["      args => Array[".toList ++ commaJoin c.args ++ "],".toList, "      pos,".toList] ++
      (match c.allocAmount with
        | some (a :: as) => ["      allocAmount => ".toList ++ (a :: as) ++ ",".toList]
        | _ => []) ++
      (if c.returns then [] else ["      returns => false,".toList]) ++
      (if c.canThrow then [] else ["      canThrow => false,".toList]) ++
      ["    \x7d".toList, "  \x7d".toList, [],
       "  static fun request(s: mutable O.Specializer".toList ++
         (c.targs.map fun x => ", ".toList ++ x ++ ": Tclass".toList).flatten ++ "): void \x7b".toList,
       "    _ = s;".toList] ++
      (if c.namedCall then []
       else ["    s.requestFunction(static::funName(), Array[".toList ++ commaJoin c.targs ++ "]);".toList])
    let tail := ["  \x7d".toList, "\x7d".toList, []]
    match c.retType.text with
    | none => (head ++ body ++ tail, none)
    | some t =>
      match parseType t true with
      | .error e => (head ++ body ++ ["    _ = ".toList], some e)
      | .ok r => (head ++ body ++ ["    _ = ".toList, fmtOpt r, ";".toList] ++ tail, none)

/-! ### The script's loop -/

/-- A piece of the generated file: a module opened, the module before it closed, or a
callable's class. -/
inductive Chunk
  | enter (m : PyStr)
  | leave
  | callable (c : Callable)
  deriving DecidableEq, Repr

/-- The lines of a chunk, and the exception that stops it. -/
def Chunk.lines : Chunk → List PyStr × Option ParseExc
  | .enter m => (["module ".toList ++ m ++ ";".toList, []], none)
  | .leave => (["module end;".toList, []], none)
  | .callable c => c.write

/-- The loop `for intrinsic in sorted(...)`: `currentModule` starts as `None`, a new
module is entered whenever the module changes, and the one before is left first unless
it is falsy (`if currentModule:`, so a module that is the empty text is never left). -/
def moduleChunks (current : Option PyStr) : List Callable → List Chunk
  | [] => []
  | c :: cs =>
    (if some c.moduleName = current then []
     else (if current.any (· ≠ []) then [.leave] else []) ++ [.enter c.moduleName]) ++
      .callable c :: moduleChunks (some c.moduleName) cs

/-- What the chunks print, up to the first exception. -/
def renderChunks : List Chunk → List PyStr × Option ParseExc
  | [] => ([], none)
  | k :: ks =>
    match k.lines with
    | (ls, some e) => (ls, some e)
    | (ls, none) => ((ls ++ (renderChunks ks).1), (renderChunks ks).2)

/-- The order of `sortKey`. -/
def keyLe (a b : Callable) : Prop := a.sortKey ≤ b.sortKey

instance : DecidableRel keyLe := fun a b => inferInstanceAs (Decidable (a.sortKey ≤ b.sortKey))

instance : IsTotal Callable keyLe := ⟨fun a b => le_total a.sortKey b.sortKey⟩

instance : IsTrans Callable keyLe := ⟨fun _ _ _ => le_trans⟩

/-- `sorted(callables, key=Callable.sortKey)`, a stable sort. -/
def sortCallables (table : List Callable) : List Callable := table.insertionSort keyLe

/-- The text the script writes to callables.sk before the pretty-printer runs, with
`argv` its `sys.argv`, and the exception that stopped it, if any. -/
def generateCallables (argv : List PyStr) (table : List Callable) : List PyStr × Option ParseExc :=
  let r := renderChunks (moduleChunks none (sortCallables table))
  (["// AUTOGENERATED FILE - DO NOT EDIT".toList, "// Generated with: python3 ".toList ++ quoteCommand argv, [],
    "module alias O = OuterIstToIR;".toList, []] ++ r.1, r.2)

/-! ### One block per module -/

/-- The block the loop writes for module `m`: `module m;`, then the class of each callable
of `m` in `l`, in the order of `l`. -/
def moduleBlock (l : List Callable) (m : PyStr) : List Chunk :=
  .enter m :: (l.filter fun c => c.moduleName = m).map .callable

private theorem intercalate_cons {α : Type} [DecidableEq α] (sep a : List α) (l : List (List α)) :
    sep.intercalate (a :: l) = a ++ if l = [] then [] else sep ++ sep.intercalate l := by
  cases l <;> simp [List.intercalate]

section Grouping

variable {m : PyStr} {l : List Callable}

/-- Inside module `m`, the loop writes the classes of `m`'s callables, and at the first
callable of a later module it leaves `m` and goes on as from `None`. -/
theorem moduleChunks_some (hm : m ≠ []) (hs : l.Sorted fun a b => a.moduleName ≤ b.moduleName)
    (hge : ∀ c ∈ l, m ≤ c.moduleName) :
    moduleChunks (some m) l = (l.filter fun c => c.moduleName = m).map .callable ++
      (if l.filter (fun c => c.moduleName ≠ m) = [] then []
       else .leave :: moduleChunks none (l.filter fun c => c.moduleName ≠ m)) := by
  induction l with
  | nil => rfl
  | cons d ds ih =>
    rw [List.sorted_cons] at hs
    by_cases hd : d.moduleName = m
    · simp [moduleChunks, hd, ih hs.2 fun c hc => hge c (.tail _ hc)]
    · have hlt : m < d.moduleName := lt_of_le_of_ne (hge d (.head _)) (Ne.symm hd)
      have hds : ∀ e ∈ ds, e.moduleName ≠ m := fun e he => (lt_of_lt_of_le hlt (hs.1 e he)).ne'
      have h1 : (ds.filter fun c => c.moduleName = m) = [] :=
        List.filter_eq_nil_iff.2 fun e he => by simpa using hds e he
      have h2 : (ds.filter fun c => !decide (c.moduleName = m)) = ds :=
        List.filter_eq_self.2 fun e he => by simpa using hds e he
      simp [moduleChunks, hd, hm, h1, h2]

/-- For callables in module order, all in named modules, the loop writes one block per
module, the modules in increasing order, and `module end;` between two blocks. -/
theorem moduleChunks_none_of_sorted : ∀ (l : List Callable),
    (l.Sorted fun a b => a.moduleName ≤ b.moduleName) → (∀ c ∈ l, c.moduleName ≠ []) →
    ∃ ms : List PyStr, ms.Sorted (· < ·) ∧ (∀ m, m ∈ ms ↔ ∃ c ∈ l, c.moduleName = m) ∧
      moduleChunks none l = [Chunk.leave].intercalate (ms.map (moduleBlock l))
  | [], _, _ => ⟨[], .nil, by simp, rfl⟩
  | c :: cs, hs, hne => by
    rw [List.sorted_cons] at hs
    obtain ⟨ms, hms, hmem, heq⟩ := moduleChunks_none_of_sorted
      (cs.filter fun d => d.moduleName ≠ c.moduleName) (hs.2.filter _)
      fun d hd => hne d (.tail _ (List.mem_of_mem_filter hd))
    have hlt : ∀ m ∈ ms, c.moduleName < m := by
      intro m hm
      obtain ⟨d, hd, rfl⟩ := (hmem m).1 hm
      rw [List.mem_filter] at hd
      exact lt_of_le_of_ne (hs.1 d hd.1) (Ne.symm (by simpa using hd.2))
    have hblock : ∀ m ∈ ms, moduleBlock (c :: cs) m =
        moduleBlock (cs.filter fun d => d.moduleName ≠ c.moduleName) m := by
      intro m hm
      simp only [moduleBlock, List.filter_cons, (hlt m hm).ne, decide_False, List.filter_filter]
      congr 2
      exact List.filter_congr fun d _ => by by_cases h : d.moduleName = m <;> simp [h, (hlt m hm).ne']
    have hnil : (cs.filter fun d => d.moduleName ≠ c.moduleName) = [] ↔ ms = [] := by
      simp only [List.eq_nil_iff_forall_not_mem, hmem]
      exact ⟨fun h m ⟨d, hd, _⟩ => h d hd, fun h d hd => h _ ⟨d, hd, rfl⟩⟩
    refine ⟨c.moduleName :: ms, List.sorted_cons.2 ⟨hlt, hms⟩, fun m => ?_, ?_⟩
    · simp only [List.mem_cons, hmem, List.mem_filter]
      constructor
      · rintro (rfl | ⟨d, ⟨hd, -⟩, rfl⟩)
        · exact ⟨c, .inl rfl, rfl⟩
        · exact ⟨d, .inr hd, rfl⟩
      · rintro ⟨d, rfl | hd, rfl⟩
        · exact .inl rfl
        · by_cases h : d.moduleName = c.moduleName
          · exact .inl h
          · exact .inr ⟨d, ⟨hd, by simpa using h⟩, rfl⟩
    · have h0 : moduleChunks none (c :: cs) =
          .enter c.moduleName :: .callable c :: moduleChunks (some c.moduleName) cs := by
        simp [moduleChunks]
      rw [h0, moduleChunks_some (hne c (.head _)) hs.2 hs.1, heq, List.map_cons, intercalate_cons,
        List.map_congr_left hblock]
      simp only [hnil, List.map_eq_nil_iff]
      simp [moduleBlock]
termination_by l _ _ => l.length
decreasing_by exact Nat.lt_succ_of_le (List.length_filter_le _ _)

end Grouping

/-- `sorted` by `sortKey` puts the callables in module order. -/
theorem sortCallables_sorted_moduleName (table : List Callable) :
    (sortCallables table).Sorted fun a b => a.moduleName ≤ b.moduleName :=
  (List.sorted_insertionSort keyLe table).imp fun h => by
    rcases (Prod.Lex.le_iff _ _).1 h with h | h
    · exact le_of_lt h
    · exact le_of_eq h.1

/-! ### The text of the blocks -/

/-- A callable with no type text prints its class whole: `parseType` never runs. -/
theorem Callable.write_of_text_none {c : Callable} (h : c.retType.text = none) :
    c.write.2 = none := by
  simp [Callable.write, h]

/-- Chunks none of which raises print their lines one after the other. -/
theorem renderChunks_of_no_exc : ∀ ks : List Chunk, (∀ k ∈ ks, k.lines.2 = none) →
    renderChunks ks = (ks.flatMap fun k => k.lines.1, none)
  | [], _ => rfl
  | k :: ks, h => by
    have hk := h k (.head _)
    rcases hl : k.lines with ⟨ls, _ | e⟩
    · simp [renderChunks, hl, renderChunks_of_no_exc ks fun k' hk' => h k' (.tail _ hk')]
    · rw [hl] at hk
      cases hk

/-- The loop writes a class only for a callable of the list. -/
theorem mem_of_callable_mem_moduleChunks {c : Callable} :
    ∀ {cur : Option PyStr} {l : List Callable}, Chunk.callable c ∈ moduleChunks cur l → c ∈ l
  | _, [], h => by cases h
  | _, d :: ds, h => by
    simp only [moduleChunks, List.mem_append, List.mem_cons] at h
    rcases h with h | h | h
    · split at h <;> simp at h
    · exact Chunk.callable.inj h ▸ .head _
    · exact .tail _ (mem_of_callable_mem_moduleChunks h)

private theorem flatMap_intercalate_singleton {α β : Type} [DecidableEq α] (f : α → List β)
    (s : α) (bs : List (List α)) :
    ([s].intercalate bs).flatMap f = (f s).intercalate (bs.map fun b => b.flatMap f) := by
  induction bs with
  | nil => rfl
  | cons b bs ih => cases bs <;> simp_all [List.intercalate]

/-- The modules of the file the script writes, for a table whose class names all name a
module: one block per module of the table, in code-point order of the modules, with
`module end;` between two blocks and none after the last; the block of `m` holds the
classes of exactly the callables of `m`, in key order. -/
theorem callables_grouped_by_module (table : List Callable)
    (hne : ∀ c ∈ table, c.moduleName ≠ []) (hw : ∀ c ∈ table, c.write.2 = none) :
    ∃ ms : List PyStr, ms.Sorted (· < ·) ∧ (∀ m, m ∈ ms ↔ ∃ c ∈ table, c.moduleName = m) ∧
      renderChunks (moduleChunks none (sortCallables table)) =
        (["module end;".toList, []].intercalate (ms.map fun m =>
          ("module ".toList ++ m ++ ";".toList) :: [] ::
            ((sortCallables table).filter fun c => c.moduleName = m).flatMap
              fun c => c.write.1), none) ∧
      ∀ m, ((sortCallables table).filter fun c => c.moduleName = m).Sorted keyLe ∧
        ((sortCallables table).filter fun c => c.moduleName = m).Perm
          (table.filter fun c => c.moduleName = m) := by
  have hperm := List.perm_insertionSort keyLe table
  obtain ⟨ms, hms, hmem, heq⟩ := moduleChunks_none_of_sorted (sortCallables table)
    (sortCallables_sorted_moduleName table) fun c hc => hne c (hperm.subset hc)
  have hexc : ∀ k ∈ moduleChunks none (sortCallables table), k.lines.2 = none
    | .enter _, _ => rfl
    | .leave, _ => rfl
    | .callable c, hk => hw c (hperm.subset (mem_of_callable_mem_moduleChunks hk))
  refine ⟨ms, hms, fun m => (hmem m).trans ⟨?_, ?_⟩, ?_, fun m =>
    ⟨(List.sorted_insertionSort keyLe table).filter _, hperm.filter _⟩⟩
  · exact fun ⟨c, hc, h⟩ => ⟨c, hperm.subset hc, h⟩
  · exact fun ⟨c, hc, h⟩ => ⟨c, hperm.symm.subset hc, h⟩
  · rw [renderChunks_of_no_exc _ hexc, heq, flatMap_intercalate_singleton, List.map_map]
    simp [moduleBlock, Chunk.lines, List.flatMap_map, Function.comp_def]

/-- Three callables of two modules, out of key order. -/
def callablesSample : List Callable :=
  [⟨"vector.push".toList, "Push".toList, "Vector".toList, [], ["v".toList], false, false, true,
      none, .none, true⟩,
    ⟨"array.get".toList, "Get".toList, "Array".toList, [], ["a".toList], false, false, true,
      none, .none, true⟩,
    ⟨"vector.pop".toList, "Pop".toList, "Vector".toList, [], ["v".toList], false, false, true,
      none, .none, true⟩]

example : moduleChunks none (sortCallables callablesSample) =
    match callablesSample with
    | [push, get, pop] => [.enter "Array".toList, .callable get, .leave,
        .enter "Vector".toList, .callable pop, .callable push]
    | _ => [] := by
  decide

theorem callables_sample_grouped :
    (∀ c ∈ callablesSample, c.moduleName ≠ []) ∧ (∀ c ∈ callablesSample, c.write.2 = none) ∧
    ∃ ms : List PyStr, ms.Sorted (· < ·) ∧ (∀ m, m ∈ ms ↔ ∃ c ∈ callablesSample, c.moduleName = m) ∧
      renderChunks (moduleChunks none (sortCallables callablesSample)) =
        (["module end;".toList, []].intercalate (ms.map fun m =>
          ("module ".toList ++ m ++ ";".toList) :: [] ::
            ((sortCallables callablesSample).filter fun c => c.moduleName = m).flatMap
              fun c => c.write.1), none) ∧
      ∀ m, ((sortCallables callablesSample).filter fun c => c.moduleName = m).Sorted keyLe ∧
        ((sortCallables callablesSample).filter fun c => c.moduleName = m).Perm
          (callablesSample.filter fun c => c.moduleName = m) :=
  ⟨by decide, fun c hc => Callable.write_of_text_none (by revert c; decide),
    callables_grouped_by_module callablesSample (by decide)
      fun c hc => Callable.write_of_text_none (by revert c; decide)⟩

/-! ### The header -/

/-- The second line of callables.sk names the command that wrote it: the shell reads the
text after `// Generated with: ` as `python3` with the script's arguments. -/
theorem callables_header_reruns (argv : List PyStr) (table : List Callable)
    (h0 : ∀ w ∈ argv, '\x00' ∉ w) :
    ∃ line, (generateCallables argv table).1[1]? = some ("// Generated with: ".toList ++ line) ∧
      shRun line = some ["python3".toList :: argv] := by
  refine ⟨"python3 ".toList ++ quoteCommand argv, by simp [generateCallables], ?_⟩
  obtain ⟨st, h1, h2, h3⟩ := foldlM_quoteCommand argv [.word "python3".toList true] h0
  have hlex : shLex ("python3 ".toList ++ quoteCommand argv) =
      some (.word "python3".toList true :: argv.map quotedTok) := by
    rw [shLex, show "python3 ".toList = ["python3".toList].flatMap (· ++ [' ']) from rfl,
      List.foldlM_append, foldlM_bare_words _ [] (by simp; decide)]
    simp only [List.nil_append, List.map_cons, List.map_nil, Option.bind_eq_bind, Option.some_bind,
      h1, h2, h3, if_true, List.singleton_append]
  rw [shRun, hlex, Option.bind_eq_bind, Option.some_bind, shCommands, shCommands_words,
    List.nil_append, List.singleton_append, shCommands_nil_cons,
    simpleCommand_of_name fun _ => ⟨by decide, by decide⟩]
  simp [Function.comp_def]

theorem callables_sample_header :
    ∃ line, (generateCallables ["src/native/make_callables.py".toList] callablesSample).1[1]? =
        some ("// Generated with: ".toList ++ line) ∧
      shRun line = some [["python3".toList, "src/native/make_callables.py".toList]] :=
  callables_header_reruns _ _ (by decide)

end SkipTools
