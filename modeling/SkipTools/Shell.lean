import SkipTools.Verify
import SkipTools.Json

/-! `shlex.quote` (also `pipes.quote`), with which the scripts write a command as one
line: lkg/runtime/tools/unittest.py hands `ulimit -t timeout ; ` and the quoted command
to `/bin/sh`, and make_callables.py writes the command that generated callables.sk into
its header. The shell's side is the token recognition and quote removal of POSIX `sh`
on the characters these lines hold: blanks, `;`, single and double quotes, backslashes
and the characters `quote` leaves bare, which the shell reads literally. Any other
character outside quotes, an unterminated quote and a NUL are outside this reading. -/

namespace SkipTools

/-! ### `shlex.quote` -/

/-- The characters `_find_unsafe` does not match: ASCII letters and digits, and
`_ @ % + = : , . / -`. -/
def isSafe (c : Char) : Bool :=
  c.isAlphanum || "_@%+=:,./-".toList.contains c

/-- `shlex.quote(s)`: `''` for the empty string, the string itself when every character
is safe, and otherwise the string in single quotes, each `'` written `'"'"'`. -/
def shQuote (s : PyStr) : PyStr :=
  if s = [] then ['\'', '\'']
  else if s.all isSafe then s
  else '\'' :: pyReplace s ['\''] "'\"'\"'".toList ++ ['\'']

/-- `' '.join(map(shlex.quote, cmd))`. -/
def quoteCommand (cmd : List PyStr) : PyStr := " ".toList.intercalate (cmd.map shQuote)

/-! ### The shell's reading of a line -/

/-- A token of a line: a word after quote removal, with whether it held no quoting
character, or the operator `;`. -/
inductive ShTok
  | word (w : PyStr) (bare : Bool)
  | semi
  deriving DecidableEq, Repr

/-- Where the scan of a line is: outside quotes, inside `'...'`, inside `"..."`, after a
backslash outside quotes, or after a backslash inside double quotes. -/
inductive ShMode
  | plain
  | single
  | double
  | escape
  | doubleEscape
  deriving DecidableEq, Repr

/-- The tokens read so far, the word being read (its characters after quote removal and
whether it is bare so far), and the mode. -/
structure ShState where
  toks : List ShTok
  word : Option (PyStr × Bool)
  mode : ShMode
  deriving DecidableEq, Repr

namespace ShState

/-- The tokens with the word being read delimited. -/
def flush (st : ShState) : List ShTok :=
  match st.word with
  | some (w, b) => st.toks ++ [.word w b]
  | none => st.toks

/-- A character joins the word being read, or starts one. -/
def push (st : ShState) (c : Char) (bare : Bool) : ShState :=
  { st with word := some (match st.word with
    | some (w, b) => (w ++ [c], b && bare)
    | none => ([c], bare)) }

/-- A quoting character: the word exists from here on, even if empty, and is not bare. -/
def quote (st : ShState) (m : ShMode) : ShState :=
  { st with word := some (match st.word with
    | some (w, _) => (w, false)
    | none => ([], false)), mode := m }

end ShState

/-- One character of the line. Inside single quotes every character but `'` is literal;
inside double quotes `$` and a backquote would expand, and a backslash keeps its meaning
before `$`, a backquote, `"`, a backslash and a newline; outside quotes a blank or `;`
delimits the word, and a safe character is literal. -/
def shStep (st : ShState) (c : Char) : Option ShState :=
  if c = '\x00' then none else
  match st.mode with
  | .single => if c = '\'' then some { st with mode := .plain } else some (st.push c false)
  | .double =>
    if c = '"' then some { st with mode := .plain }
    else if c = '\\' then some { st with mode := .doubleEscape }
    else if c = '$' ∨ c = '\x60' then none
    else some (st.push c false)
  | .doubleEscape =>
    if c = '$' ∨ c = '\x60' ∨ c = '"' ∨ c = '\\' then some { st.push c false with mode := .double }
    else if c = '\n' then some { st with mode := .double }
    else some { (st.push '\\' false).push c false with mode := .double }
  | .escape =>
    if c = '\n' then some { st with mode := .plain }
    else some { st.push c false with mode := .plain }
  | .plain =>
    if c = ' ' ∨ c = '\t' then some ⟨st.flush, none, .plain⟩
    else if c = ';' then some ⟨st.flush ++ [.semi], none, .plain⟩
    else if c = '\'' then some (st.quote .single)
    else if c = '"' then some (st.quote .double)
    else if c = '\\' then some { st with mode := .escape }
    else if isSafe c then some (st.push c true)
    else none

/-- The tokens of a line, if every quote is closed. -/
def shLex (line : PyStr) : Option (List ShTok) :=
  match line.foldlM shStep ⟨[], none, .plain⟩ with
  | some st => if st.mode = .plain then some st.flush else none
  | none => none

/-- The words the shell takes as reserved in the first place of a command. -/
def reservedWords : List PyStr :=
  ["!", "\x7b", "\x7d", "case", "do", "done", "elif", "else", "esac", "fi", "for", "if", "in",
    "then", "until", "while"].map String.toList

/-- A name of the shell: a letter or `_`, then letters, digits and `_`. -/
def isShName : PyStr → Bool
  | [] => false
  | c :: cs => (c.isAlpha || c = '_') && cs.all fun c => c.isAlphanum || c = '_'

/-- A word `name=value`, which the shell takes as an assignment before the command. -/
def isAssignment (w : PyStr) : Bool :=
  match w.span (· ≠ '=') with
  | (name, '=' :: _) => isShName name
  | _ => false

/-- The argument vector of a simple command. A bare first word that is reserved or an
assignment would make the shell read something other than a command, and an empty
command before `;` is a syntax error. -/
def simpleCommand : List (PyStr × Bool) → Option (List PyStr)
  | [] => none
  | (w, b) :: ws =>
    if b && (reservedWords.contains w || isAssignment w) then none else some (w :: ws.map Prod.fst)

/-- The commands of a list of tokens, `cur` the words of the command being read. -/
def shCommands : List ShTok → List (PyStr × Bool) → Option (List (List PyStr))
  | [], [] => some []
  | [], cur => (simpleCommand cur).map ([·])
  | .semi :: ts, cur => do
    let c ← simpleCommand cur
    let cs ← shCommands ts []
    pure (c :: cs)
  | .word w b :: ts, cur => shCommands ts (cur ++ [(w, b)])

/-- The argument vectors of the commands `sh -c line` runs one after another. -/
def shRun (line : PyStr) : Option (List (List PyStr)) :=
  shLex line >>= fun ts => shCommands ts []

/-! ### Reading back a quoted word -/

/-- The token the shell reads from `quote(w)`: the word, bare when `quote` left it as it
was. -/
def quotedTok (w : PyStr) : ShTok := .word w (!w.isEmpty && w.all isSafe)

/-- How `quote` writes a character inside single quotes. -/
def quoteChar (c : Char) : PyStr := if c = '\'' then "'\"'\"'".toList else [c]

theorem replaceFrom_single (o : Char) (new : PyStr) :
    ∀ s : PyStr, replaceFrom o [] new 0 s = s.flatMap fun c => if c = o then new else [c]
  | [] => rfl
  | c :: s => by
    by_cases h : c = o
    · subst h
      simp [replaceFrom, List.isPrefixOf, replaceFrom_single c new s]
    · simp [replaceFrom, List.isPrefixOf, Ne.symm h, h, replaceFrom_single o new s]

theorem shQuote_quoted {w : PyStr} (hw : w ≠ []) (hs : w.all isSafe = false) :
    shQuote w = '\'' :: w.flatMap quoteChar ++ ['\''] := by
  simp only [shQuote, if_neg hw, hs, Bool.false_eq_true, if_false, pyReplace, replaceFrom_single]
  rfl

theorem ne_of_isSafe {c : Char} (h : isSafe c) :
    c ≠ '\x00' ∧ c ≠ ' ' ∧ c ≠ '\t' ∧ c ≠ ';' ∧ c ≠ '\'' ∧ c ≠ '"' ∧ c ≠ '\\' := by
  refine ⟨?_, ?_, ?_, ?_, ?_, ?_, ?_⟩ <;> rintro rfl <;> revert h <;> decide

section Lex

variable {toks : List ShTok} {p : PyStr}

theorem shStep_single {c : Char} (h0 : c ≠ '\x00') (hq : c ≠ '\'') :
    shStep ⟨toks, some (p, false), .single⟩ c = some ⟨toks, some (p ++ [c], false), .single⟩ := by
  simp [shStep, h0, hq, ShState.push]

theorem shStep_safe {c : Char} (h : isSafe c) (w : Option (PyStr × Bool)) :
    shStep ⟨toks, w, .plain⟩ c = some (ShState.push ⟨toks, w, .plain⟩ c true) := by
  obtain ⟨h0, hb, ht, hs, hq, hd, he⟩ := ne_of_isSafe h
  simp [shStep, h0, hb, ht, hs, hq, hd, he, h]

/-- Inside single quotes, the text `quote` writes for `w` reads back as `w`: a quote
written `'"'"'` closes the single quotes, reads `'` in double quotes and opens them again. -/
theorem foldlM_quoteChar (toks : List ShTok) :
    ∀ (w p : PyStr), '\x00' ∉ w → (w.flatMap quoteChar).foldlM shStep ⟨toks, some (p, false), .single⟩ =
      some ⟨toks, some (p ++ w, false), .single⟩
  | [], p, _ => by simp
  | c :: w, p, h => by
    have h0 : c ≠ '\x00' := fun hc => h (hc ▸ List.mem_cons_self _ _)
    rw [List.flatMap_cons, List.foldlM_append]
    have hc : (quoteChar c).foldlM shStep ⟨toks, some (p, false), .single⟩ =
        some ⟨toks, some (p ++ [c], false), .single⟩ := by
      by_cases hq : c = '\''
      · subst hq; rfl
      · simp [quoteChar, hq, shStep_single h0 hq]
    rw [hc]
    simpa using foldlM_quoteChar toks w (p ++ [c]) (fun hw => h (List.mem_cons_of_mem _ hw))

theorem foldlM_safe (toks : List ShTok) :
    ∀ (w p : PyStr) (b : Bool), (∀ c ∈ w, isSafe c) →
      w.foldlM shStep ⟨toks, some (p, b), .plain⟩ = some ⟨toks, some (p ++ w, b), .plain⟩
  | [], p, b, _ => by simp
  | c :: w, p, b, h => by
    rw [List.foldlM_cons, shStep_safe (h c (List.mem_cons_self _ _))]
    simpa [ShState.push] using
      foldlM_safe toks w (p ++ [c]) b fun d hd => h d (List.mem_cons_of_mem _ hd)

/-- From outside a word, the shell reads `quote(w)` as the word `w`. -/
theorem foldlM_shQuote (w : PyStr) (h0 : '\x00' ∉ w) :
    (shQuote w).foldlM shStep ⟨toks, none, .plain⟩ =
      some ⟨toks, some (w, !w.isEmpty && w.all isSafe), .plain⟩ := by
  rcases w with _ | ⟨c, w⟩
  · rfl
  · cases hs : (c :: w).all isSafe
    · rw [shQuote_quoted (List.cons_ne_nil _ _) hs, List.foldlM_append, List.foldlM_cons]
      have hopen : shStep ⟨toks, none, .plain⟩ '\'' = some ⟨toks, some ([], false), .single⟩ := rfl
      simp only [hopen, Option.bind_eq_bind, Option.some_bind, foldlM_quoteChar toks (c :: w) [] h0]
      rfl
    · have hsafe : ∀ d ∈ c :: w, isSafe d := by simpa using hs
      rw [shQuote, if_neg (List.cons_ne_nil _ _), if_pos hs, List.foldlM_cons,
        shStep_safe (hsafe c (List.mem_cons_self _ _))]
      simpa [ShState.push] using foldlM_safe toks w [c] true fun d hd => hsafe d (List.mem_cons_of_mem _ hd)

theorem foldlM_safe_blank (w : PyStr) (hw : w ≠ []) (hs : ∀ c ∈ w, isSafe c) :
    (w ++ [' ']).foldlM shStep ⟨toks, none, .plain⟩ = some ⟨toks ++ [.word w true], none, .plain⟩ := by
  obtain ⟨c, w, rfl⟩ := List.exists_cons_of_ne_nil hw
  rw [List.cons_append, List.foldlM_cons, shStep_safe (hs c (List.mem_cons_self _ _))]
  simp only [ShState.push, Option.bind_eq_bind, Option.some_bind, List.foldlM_append,
    foldlM_safe toks w [c] true fun d hd => hs d (List.mem_cons_of_mem _ hd)]
  rfl

/-- Bare words, each followed by a blank, read as those words. -/
theorem foldlM_bare_words : ∀ (ws : List PyStr) (toks : List ShTok),
    (∀ w ∈ ws, w ≠ [] ∧ ∀ c ∈ w, isSafe c) →
    (ws.flatMap (· ++ [' '])).foldlM shStep ⟨toks, none, .plain⟩ =
      some ⟨toks ++ ws.map (.word · true), none, .plain⟩
  | [], toks, _ => by simp
  | w :: ws, toks, h => by
    obtain ⟨hne, hs⟩ := h w (List.mem_cons_self _ _)
    rw [List.flatMap_cons, List.foldlM_append, foldlM_safe_blank w hne hs, Option.bind_eq_bind,
      Option.some_bind, foldlM_bare_words ws _ fun v hv => h v (List.mem_cons_of_mem _ hv)]
    simp

theorem quoteCommand_singleton (w : PyStr) : quoteCommand [w] = shQuote w := by
  simp [quoteCommand, List.intercalate]

theorem quoteCommand_cons_cons (w v : PyStr) (ws : List PyStr) :
    quoteCommand (w :: v :: ws) = shQuote w ++ ' ' :: quoteCommand (v :: ws) := by
  simp [quoteCommand, List.intercalate]

/-- From outside a word, the shell reads `' '.join(map(quote, ws))` as the words `ws`. -/
theorem foldlM_quoteCommand : ∀ (ws : List PyStr) (toks : List ShTok), (∀ w ∈ ws, '\x00' ∉ w) →
    ∃ st : ShState, (quoteCommand ws).foldlM shStep ⟨toks, none, .plain⟩ = some st ∧
      st.mode = .plain ∧ st.flush = toks ++ ws.map quotedTok
  | [], toks, _ => ⟨_, rfl, rfl, by simp [ShState.flush]⟩
  | [w], toks, h => by
    refine ⟨⟨toks, some (w, !w.isEmpty && w.all isSafe), .plain⟩, ?_, rfl, rfl⟩
    rw [quoteCommand_singleton]
    exact foldlM_shQuote w (h w (List.mem_singleton_self w))
  | w :: v :: ws, toks, h => by
    obtain ⟨st, h1, h2, h3⟩ := foldlM_quoteCommand (v :: ws) (toks ++ [quotedTok w])
      fun u hu => h u (List.mem_cons_of_mem _ hu)
    refine ⟨st, ?_, h2, by simpa using h3⟩
    rw [quoteCommand_cons_cons, List.foldlM_append, foldlM_shQuote w (h w (List.mem_cons_self _ _))]
    exact h1

end Lex

theorem shLex_quoteCommand (ws : List PyStr) (h : ∀ w ∈ ws, '\x00' ∉ w) :
    shLex (quoteCommand ws) = some (ws.map quotedTok) := by
  obtain ⟨st, h1, h2, h3⟩ := foldlM_quoteCommand ws [] h
  simp [shLex, h1, h2, h3]

theorem shCommands_words :
    ∀ (ws : List PyStr) (cur : List (PyStr × Bool)), shCommands (ws.map quotedTok) cur =
      shCommands [] (cur ++ ws.map fun w => (w, !w.isEmpty && w.all isSafe))
  | [], cur => by simp
  | w :: ws, cur => by simp [quotedTok, shCommands, shCommands_words ws]

theorem shCommands_nil_cons (a : PyStr × Bool) (l : List (PyStr × Bool)) :
    shCommands [] (a :: l) = (simpleCommand (a :: l)).map ([·]) := rfl

theorem simpleCommand_of_name {w : PyStr} {b : Bool}
    (hname : b = true → w ∉ reservedWords ∧ isAssignment w = false) (l : List (PyStr × Bool)) :
    simpleCommand ((w, b) :: l) = some (w :: l.map Prod.fst) := by
  cases b
  · rfl
  · simp [simpleCommand, hname rfl]

/-- The shell reads the line `' '.join(map(quote, cmd))` as the one command \"cmd\", for
every command without a NUL whose name, when \"quote\" leaves it bare, is neither a
reserved word nor an assignment. -/
theorem shell_reads_quoted_command (name : PyStr) (args : List PyStr)
    (h0 : ∀ w ∈ name :: args, '\x00' ∉ w)
    (hname : (!name.isEmpty && name.all isSafe) = true →
      name ∉ reservedWords ∧ isAssignment name = false) :
    shRun (quoteCommand (name :: args)) = some [name :: args] := by
  rw [shRun, shLex_quoteCommand _ h0, Option.bind_eq_bind, Option.some_bind, shCommands_words,
    List.nil_append, List.map_cons, shCommands_nil_cons, simpleCommand_of_name hname]
  simp [Function.comp_def]

theorem shell_reads_sample_command :
    shRun (quoteCommand ["/tmp/x".toList, "it's".toList, [], "a b".toList, "$HOME".toList]) =
      some [["/tmp/x".toList, "it's".toList, [], "a b".toList, "$HOME".toList]] :=
  shell_reads_quoted_command _ _ (by decide) (by decide)

/-! ### The line unittest.py runs -/

/-- The line `main` of lkg/runtime/tools/unittest.py hands to `sh` for the native back
end: `ulimit -t timeout ; ` before the quoted command, which is the test binary, then
`--watch` if asked, then the arguments after `--`. -/
def nativeTestLine (timeout : Int) (binary : PyStr) (watch : Bool) (remainder : List PyStr) :
    PyStr :=
  "ulimit -t ".toList ++ intText timeout ++ " ; ".toList ++
    quoteCommand (binary :: ((if watch then ["--watch".toList] else []) ++ remainder))

theorem intText_safe (t : Int) : intText t ≠ [] ∧ ∀ c ∈ intText t, isSafe c := by
  obtain ⟨c, cs, hm, hd, -, -, hcs, -⟩ := natText_shape t.natAbs
  have hsafe : ∀ x ∈ c :: cs, isSafe x := fun x hx => by
    have : x.isDigit := by
      rcases List.mem_cons.1 hx with rfl | hx
      · exact hd
      · exact hcs x hx
    simp [isSafe, Char.isAlphanum, this]
  unfold intText
  split
  · refine ⟨List.cons_ne_nil _ _, fun x hx => ?_⟩
    rw [hm] at hx
    rcases List.mem_cons.1 hx with rfl | hx
    · decide
    · exact hsafe x hx
  · exact ⟨by simp [hm], hm ▸ hsafe⟩

theorem absolute_path_name {w : PyStr} (h : w.head? = some '/') :
    w ∉ reservedWords ∧ isAssignment w = false := by
  obtain ⟨r, rfl⟩ : ∃ r, w = '/' :: r := by
    cases w with
    | nil => cases h
    | cons c r => exact ⟨r, by simp at h; rw [h]⟩
  refine ⟨by simp [reservedWords], ?_⟩
  unfold isAssignment
  rw [List.span_eq_take_drop, List.takeWhile_cons_of_pos (by decide)]
  split
  · next name rest heq => simp only [Prod.mk.injEq] at heq; rw [← heq.1]; rfl
  · rfl

/-- Whatever characters its arguments hold, the shell runs `ulimit -t timeout`, then the
test binary with the arguments unittest.py gave it, if the binary's path is absolute and
no argument holds a NUL, which `subprocess` refuses. -/
theorem native_test_line_runs (timeout : Int) (binary : PyStr) (watch : Bool)
    (remainder : List PyStr) (habs : binary.head? = some '/')
    (h0 : ∀ w ∈ binary :: remainder, '\x00' ∉ w) :
    shRun (nativeTestLine timeout binary watch remainder) =
      some [["ulimit".toList, "-t".toList, intText timeout],
        binary :: ((if watch then ["--watch".toList] else []) ++ remainder)] := by
  have h0' : ∀ w ∈ binary :: ((if watch then ["--watch".toList] else []) ++ remainder), '\x00' ∉ w := by
    cases watch
    · simpa using h0
    · simp only [if_true, List.cons_append, List.singleton_append, List.mem_cons,
        forall_eq_or_imp]
      exact ⟨h0 binary (List.mem_cons_self _ _), by decide,
        fun w hw => h0 w (List.mem_cons_of_mem _ hw)⟩
  have hpre : "ulimit -t ".toList ++ intText timeout ++ " ; ".toList =
      ["ulimit".toList, "-t".toList, intText timeout].flatMap (· ++ [' ']) ++ [';', ' '] := by simp
  obtain ⟨st, h1, h2, h3⟩ := foldlM_quoteCommand _
    ([.word "ulimit".toList true, .word "-t".toList true, .word (intText timeout) true] ++ [.semi]) h0'
  have hlex : shLex (nativeTestLine timeout binary watch remainder) = some
      ([.word "ulimit".toList true, .word "-t".toList true, .word (intText timeout) true, .semi] ++
        (binary :: ((if watch then ["--watch".toList] else []) ++ remainder)).map quotedTok) := by
    rw [shLex, nativeTestLine, hpre, List.foldlM_append, List.foldlM_append,
      foldlM_bare_words _ [] fun w hw => by
        simp only [List.mem_cons, List.mem_singleton, List.not_mem_nil, or_false] at hw
        rcases hw with rfl | rfl | rfl
        · exact ⟨by decide, by decide⟩
        · exact ⟨by decide, by decide⟩
        · exact intText_safe timeout]
    have hsemi : ∀ T, List.foldlM shStep ⟨T, none, .plain⟩ [';', ' '] =
        some ⟨T ++ [.semi], none, .plain⟩ := fun _ => rfl
    simp only [List.nil_append, List.map_cons, List.map_nil, Option.bind_eq_bind, Option.some_bind,
      hsemi, h1]
    simp [h2, h3]
  rw [shRun, hlex, Option.bind_eq_bind, Option.some_bind]
  simp only [List.cons_append, List.nil_append, shCommands]
  rw [simpleCommand_of_name (fun _ => ⟨by decide, by decide⟩), shCommands_words,
    List.singleton_append, shCommands_nil_cons, simpleCommand_of_name fun _ => absolute_path_name habs]
  simp [Function.comp_def]

theorem native_test_sample_runs :
    shRun (nativeTestLine 300 "/tmp/tmp.gen_binary.x1".toList true ["it's a test".toList, []]) =
      some [["ulimit".toList, "-t".toList, intText 300],
        ["/tmp/tmp.gen_binary.x1".toList, "--watch".toList, "it's a test".toList, []]] :=
  native_test_line_runs 300 _ true _ rfl (by decide)

end SkipTools
