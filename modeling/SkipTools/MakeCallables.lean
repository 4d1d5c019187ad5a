import SkipTools.PosixPath

/-! `parseType` of make_callables.py turns a Skip type written as text, such as
`?readonly HhvmHandle` or `(Int, Int)`, into the expression that builds it in the
generated intrinsics. It tokenizes with Python's `tokenize` and parses by recursive
descent over a mutable token list, where `pop` splits a `'>>'` token between two
nested argument lists. -/

namespace SkipTools

/-- The exceptions `parseType` can raise: those of its parser, where
`recursionError` also stands for the fuel of the model running out, and the
`TokenError` of `tokenize`. -/
inductive ParseExc
  | indexError
  | assertionError
  | keyError
  | recursionError
  | tokenError
  deriving DecidableEq, Repr

/-- Outcomes of `parseType` and its parser are compared when a concrete text is
evaluated. -/
instance exceptDecidableEq {ε α : Type} [DecidableEq ε] [DecidableEq α] :
    DecidableEq (Except ε α)
  | .ok a, .ok b =>
    if h : a = b then isTrue (h ▸ rfl) else isFalse fun e => h (Except.ok.inj e)
  | .error a, .error b =>
    if h : a = b then isTrue (h ▸ rfl) else isFalse fun e => h (Except.error.inj e)
  | .ok _, .error _ => isFalse fun e => Except.noConfusion e
  | .error _, .ok _ => isFalse fun e => Except.noConfusion e

/-! ### Tokenizing -/

/-- `\w` on the ASCII texts modelled here. -/
def isNameChar (c : Char) : Bool := c.isAlphanum || c == '_'

/-- The NAME token read so far ends. -/
def flushName (cur : PyStr) : List PyStr := if cur = [] then [] else [cur]

@[simp] theorem flushName_nil : flushName [] = [] := rfl

/-- The operator a character starts, given the characters after it, the longest
first (`>>`, `<<`, `...`): its token (none for a blank, which only separates
tokens) and how many of the following characters it takes. -/
def opToken (c : Char) (s : PyStr) : Option PyStr × Nat :=
  if c = ' ' then (none, 0)
  else if (c = '>' ∨ c = '<') ∧ s.head? = some c then (some [c, c], 1)
  else if c = '.' ∧ s.take 2 = ['.', '.'] then (some ['.', '.', '.'], 2)
  else (some [c], 0)

/-- The token values `tokenize.tokenize` yields for one line of ASCII text without
a CR or LF, between ENCODING and NEWLINE: maximal names and the operators of
`opToken`. `cur` is the name being read. The line is taken not to start with a
blank, which would be an INDENT token, to hold no quote, `#` or backslash, to
start every run of name characters with a letter or `_`, so that it holds no
number, and to hold no operator of two or three characters but `<<`, `>>` and
`...`. -/
def lexLine (cur : PyStr) : PyStr → List PyStr
  | [] => flushName cur
  | c :: s =>
    if isNameChar c then lexLine (cur ++ [c]) s
    else flushName cur ++ (opToken c s).1.toList ++ lexLine [] (s.drop (opToken c s).2)
termination_by s => s.length

@[simp] theorem lexLine_nil (cur : PyStr) : lexLine cur [] = flushName cur := by
  rw [lexLine]

theorem lexLine_name_char (cur : PyStr) {c : Char} (s : PyStr) (hc : isNameChar c = true) :
    lexLine cur (c :: s) = lexLine (cur ++ [c]) s := by
  rw [lexLine, if_pos hc]

theorem lexLine_op (cur : PyStr) {c : Char} (s : PyStr) (hc : isNameChar c = false) :
    lexLine cur (c :: s) =
      flushName cur ++ (opToken c s).1.toList ++ lexLine [] (s.drop (opToken c s).2) := by
  rw [lexLine, if_neg (by simp [hc])]

/-- A character that starts no longer operator is a token of its own. -/
theorem opToken_single {c : Char} (s : PyStr) (hb : c ≠ ' ') (hg : c = '>' → s.head? ≠ some '>')
    (hl : c = '<' → s.head? ≠ some '<') (hd : c = '.' → s.head? ≠ some '.') :
    opToken c s = (some [c], 0) := by
  have hdots : ¬ (c = '.' ∧ s.take 2 = ['.', '.']) := by
    rintro ⟨rfl, h⟩
    match s, h with
    | _ :: _ :: _, h => exact hd rfl (by simp at h; simp [h.1])
  have hdouble : ¬ ((c = '>' ∨ c = '<') ∧ s.head? = some c) := by
    rintro ⟨rfl | rfl, h⟩
    exacts [hg rfl h, hl rfl h]
  rw [opToken, if_neg hb, if_neg hdouble, if_neg hdots]

/-- How an operator character moves `tokenize`'s bracket depth `parenlev`. -/
def bracketDelta (c : Char) : Int :=
  if c = '(' ∨ c = '[' ∨ c = '{' then 1 else if c = ')' ∨ c = ']' ∨ c = '}' then -1 else 0

/-- `parenlev` at the end of a line. -/
def parenlev : PyStr → Int
  | [] => 0
  | c :: s => bracketDelta c + parenlev s

@[simp] theorem parenlev_nil : parenlev [] = 0 := rfl

@[simp] theorem parenlev_cons (c : Char) (s : PyStr) :
    parenlev (c :: s) = bracketDelta c + parenlev s := rfl

@[simp] theorem parenlev_append (s s' : PyStr) : parenlev (s ++ s') = parenlev s + parenlev s' := by
  induction s with
  | nil => simp
  | cons c s ih => rw [List.cons_append, parenlev_cons, parenlev_cons, ih, Int.add_assoc]

/-- `tokenizeString`: the token values between ENCODING and ENDMARKER, for a text of
one line with no CR or LF character (with `lexLine`'s other conditions). At the end
of the text `tokenize` raises `TokenError` (EOF in multi-line statement) unless
`parenlev` is back at zero. For such a text `tokenize` (since Python 3.6.7 and 3.7.1)
ends the line with a NEWLINE token whose value is `''`, and `[1:-1]` keeps it. It adds
that token only when the text does not end in CR or LF, and it reads a lone CR, and a
blank before one, as tokens of their own; such texts are outside the model. -/
def tokenizeString (s : PyStr) : Except ParseExc (List PyStr) :=
  if parenlev s = 0 then .ok (lexLine [] s ++ [[]]) else .error .tokenError

/-! ### Parsing -/

/-- `peek`: the next token, a `'<<'` or `'>>'` read as its first half. -/
def peek : List PyStr → Option PyStr
  | [] => none
  | t :: _ => some (if t = ['<', '<'] then ['<'] else if t = ['>', '>'] then ['>'] else t)

/-- `pop`: takes the next token; of a `'<<'` or `'>>'` it takes the first half and
leaves the second. `tokens[0]` on no tokens raises `IndexError`. -/
def pop : List PyStr → Except ParseExc (PyStr × List PyStr)
  | [] => .error .indexError
  | t :: r =>
    if t = ['<', '<'] then .ok (['<'], ['<'] :: r)
    else if t = ['>', '>'] then .ok (['>'], ['>'] :: r)
    else .ok (t, r)

/-- `isType`: whether the name, or its part after the first dot (`t.split('.')[1]`),
starts with a capital; `t[0]` of an empty part raises `IndexError`. -/
def isType (t : PyStr) : Except ParseExc Bool :=
  match if '.' ∈ t then ((t.dropWhile (· != '.')).drop 1).takeWhile (· != '.') else t with
  | [] => .error .indexError
  | c :: _ => .ok c.isUpper

/-- `frozenKW`: the dictionary lookup; its last line is unreachable. -/
def frozenKW (f : PyStr) : Except ParseExc PyStr :=
  if f = "frozen".toList then .ok "DeepFrozen()".toList
  else if f = "mutable".toList then .ok "Mutable()".toList
  else if f = "readonly".toList then .ok "Readonly()".toList
  else .error .keyError

/-- The table of `simpleType`. -/
def simpleTypes : List (PyStr × PyStr) :=
  [("Bool", "tBool"), ("Int", "tInt"), ("Float", "tFloat"), ("String", "tString"),
    ("HhvmHandle", "tHhvmHandle"), ("HhvmShapeHandle", "tHhvmShapeHandle")].map
    fun (t, c) => (t.toList, c.toList)

def simpleType (t : PyStr) : Option PyStr := simpleTypes.lookup t

/-- `FrontEndLazyGClass("name")`. -/
def lazyGClass (name : PyStr) : PyStr :=
  "FrontEndLazyGClass(\"".toList ++ name ++ "\")".toList

/-- The class name of a tuple of `k` elements, `Tuple{len(args)}`. -/
def tupleName (k : Nat) : PyStr := "Tuple".toList ++ (toString k).toList

/-- `', '.join(args)`. -/
def joinArgs (args : List PyStr) : PyStr := ", ".toList.intercalate args

/-- The three f-strings that build a specialised class, for a request and for the
front end. -/
def specialize (forRequest : Bool) (generic targs kw : PyStr) : PyStr :=
  if forRequest then
    "s.getTclass2(".toList ++ generic ++ ", Array[".toList ++ targs ++ "], ".toList ++ kw ++ [')']
  else
    "fs.specializer.specializeType2(".toList ++ generic ++ ", ".toList ++ kw ++ ", Array[".toList ++
      targs ++ "])".toList

/-- `parseMut`: a `mutable` or `readonly` token, or `'frozen'` with nothing taken. -/
def parseMut (tokens : List PyStr) : Except ParseExc (PyStr × List PyStr) :=
  if peek tokens = some "mutable".toList ∨ peek tokens = some "readonly".toList then pop tokens
  else .ok ("frozen".toList, tokens)

/-- `parseT`: a name, or a name, a dot and a name. -/
def parseT (tokens : List PyStr) : Except ParseExc (PyStr × List PyStr) := do
  let (t, tokens) ← pop tokens
  if peek tokens = some ['.'] then
    let (_, tokens) ← pop tokens
    let (n, tokens) ← pop tokens
    pure (t ++ ['.'] ++ n, tokens)
  else pure (t, tokens)

mutual
/-- `parseExpr`, with the token list passed along. Each call spends one unit of
fuel; Python would raise `RecursionError` only at a depth no grammar text of a
few hundred tokens reaches. -/
def parseExpr (forRequest : Bool) : Nat → List PyStr → Except ParseExc (PyStr × List PyStr)
  | 0, _ => .error .recursionError
  | fuel + 1, tokens => do
    let (mutTok, tokens) ← parseMut tokens
    if peek tokens = some ['('] then
      let (_, tokens) ← pop tokens
      let (args, tokens) ← parseExprSeq forRequest fuel tokens
      let (close, tokens) ← pop tokens
      if close ≠ [')'] then throw .assertionError
      let kw ← frozenKW mutTok
      pure (specialize forRequest (lazyGClass (tupleName args.length)) (joinArgs args) kw, tokens)
    else if peek tokens = some ['?'] then
      let (_, tokens) ← pop tokens
      let (targ, tokens) ← parseExpr forRequest fuel tokens
      let kw ← frozenKW mutTok
      pure (specialize forRequest (lazyGClass "Option".toList) targ kw, tokens)
    else
      let (t, tokens) ← parseT tokens
      let (targs, tokens) ←
        if peek tokens = some ['<'] then do
          let (_, tokens) ← pop tokens
          let (targs, tokens) ← parseExprSeq forRequest fuel tokens
          let (close, tokens) ← pop tokens
          if close ≠ ['>'] then throw .assertionError
          pure (targs, tokens)
        else pure ([], tokens)
      if !(← isType t) then
        if targs ≠ [] then throw .assertionError
        pure (t, tokens)
      else
        match targs, simpleType t with
        | [], some simple => pure (simple, tokens)
        | _, _ => do
          let kw ← frozenKW mutTok
          pure (specialize forRequest (lazyGClass t) (joinArgs targs) kw, tokens)

/-- `parseExprSeq`: expressions separated by commas. -/
def parseExprSeq (forRequest : Bool) : Nat → List PyStr → Except ParseExc (List PyStr × List PyStr)
  | 0, _ => .error .recursionError
  | fuel + 1, tokens => do
    let (e, tokens) ← parseExpr forRequest fuel tokens
    if peek tokens ≠ some [','] then pure ([e], tokens)
    else
      let (_, tokens) ← pop tokens
      let (es, tokens) ← parseExprSeq forRequest fuel tokens
      pure (e :: es, tokens)
end

/-- `parseType` after `tokens = tokenizeString(t)`: one expression, then
`assert not tokens`. Four units of fuel per token cover every grammar text. -/
def parseTypeTokens (forRequest : Bool) (tokens : List PyStr) : Except ParseExc PyStr := do
  let (expr, tokens) ← parseExpr forRequest (4 * tokens.length) tokens
  if tokens ≠ [] then throw .assertionError
  pure expr

def parseType (t : PyStr) (forRequest : Bool) : Except ParseExc (Option PyStr) :=
  if t = [] then .ok none else do
    let tokens ← tokenizeString t
    some <$> parseTypeTokens forRequest tokens

example : parseTypeTokens true [['?'], "readonly".toList, "HhvmHandle".toList] =
    .ok "s.getTclass2(FrontEndLazyGClass(\"Option\"), Array[tHhvmHandle], DeepFrozen())".toList := by
  decide

/-! ### The grammar of `parseType`'s comment -/

/-- `MUT`: nothing, `mutable` or `readonly`. -/
inductive Mut
  | none
  | mutable
  | readonly
  deriving DecidableEq, Repr

mutual
/-- `EXPR`: a name with or without type arguments, a tuple, or an option. -/
inductive TypeExpr
  | name (mu : Mut) (qual : Option PyStr) (t : PyStr)
  | generic (mu : Mut) (qual : Option PyStr) (t : PyStr) (args : TypeSeq)
  | tuple (mu : Mut) (args : TypeSeq)
  | option (mu : Mut) (e : TypeExpr)

/-- `EXPR-SEQ`: one or more expressions separated by commas. -/
inductive TypeSeq
  | one (e : TypeExpr)
  | cons (e : TypeExpr) (rest : TypeSeq)
end

def Mut.text : Mut → PyStr
  | .none => []
  | .mutable => "mutable ".toList
  | .readonly => "readonly ".toList

def Mut.tokens : Mut → List PyStr
  | .none => []
  | .mutable => ["mutable".toList]
  | .readonly => ["readonly".toList]

/-- What `parseMut` returns for the qualifier. -/
def Mut.word : Mut → PyStr
  | .none => "frozen".toList
  | .mutable => "mutable".toList
  | .readonly => "readonly".toList

/-- `T` as written: `Module.Type` or `Type`. -/
def qualName : Option PyStr → PyStr → PyStr
  | none, t => t
  | some m, t => m ++ '.' :: t

def qualTokens : Option PyStr → PyStr → List PyStr
  | none, t => [t]
  | some m, t => [m, ['.'], t]

mutual
/-- The text of an expression, with a blank after `MUT` and after each comma. -/
def TypeExpr.text : TypeExpr → PyStr
  | .name mu q t => mu.text ++ qualName q t
  | .generic mu q t s => mu.text ++ qualName q t ++ '<' :: s.text ++ ['>']
  | .tuple mu s => mu.text ++ '(' :: s.text ++ [')']
  | .option mu e => mu.text ++ '?' :: e.text

def TypeSeq.text : TypeSeq → PyStr
  | .one e => e.text
  | .cons e s => e.text ++ ',' :: ' ' :: s.text
end

mutual
/-- The tokens of an expression, each `>` apart: what `peek` and `pop` hand out. -/
def TypeExpr.tokens : TypeExpr → List PyStr
  | .name mu q t => mu.tokens ++ qualTokens q t
  | .generic mu q t s => mu.tokens ++ qualTokens q t ++ ['<'] :: s.tokens ++ [['>']]
  | .tuple mu s => mu.tokens ++ ['('] :: s.tokens ++ [[')']]
  | .option mu e => mu.tokens ++ ['?'] :: e.tokens

def TypeSeq.tokens : TypeSeq → List PyStr
  | .one e => e.tokens
  | .cons e s => e.tokens ++ [','] :: s.tokens
end

/-- A NAME token that is not a number: `\w` characters, the first not a digit. -/
def isIdent : PyStr → Bool
  | [] => false
  | c :: r => !c.isDigit && (c :: r).all isNameChar

/-- Whether a name starts with a capital, as `isType` asks of its last part. -/
def capitalised : PyStr → Bool
  | [] => false
  | c :: _ => c.isUpper

/-- The first token of `T` may be `mutable` or `readonly` only after a `MUT`,
which `parseMut` takes first. -/
def Mut.admits (mu : Mut) (first : PyStr) : Bool :=
  mu != .none || (first != "mutable".toList && first != "readonly".toList)

mutual
/-- The expressions `parseType` is written for: names are NAME tokens, a bare `T`
does not start with a `MUT` word, and type arguments follow capitalised names. -/
def TypeExpr.wf : TypeExpr → Bool
  | .name mu q t => isIdent t && q.all isIdent && mu.admits (q.getD t)
  | .generic mu q t s =>
    isIdent t && q.all isIdent && mu.admits (q.getD t) && capitalised t && s.wf
  | .tuple _ s => s.wf
  | .option _ e => e.wf

def TypeSeq.wf : TypeSeq → Bool
  | .one e => e.wf
  | .cons e s => e.wf && s.wf
end

/-- `frozenKW` of a qualifier. -/
def Mut.kw : Mut → PyStr
  | .none => "DeepFrozen()".toList
  | .mutable => "Mutable()".toList
  | .readonly => "Readonly()".toList

mutual
/-- The expression that builds a type, composed from those of its parts: a name
that is not capitalised stands for itself, a capitalised one with no arguments
for its constant in `simpleType`'s table if it has one, and every other type
goes through the specialising template with its qualifier's `frozenKW`. -/
def TypeExpr.render (forRequest : Bool) : TypeExpr → PyStr
  | .name mu q t =>
    if capitalised t then
      (simpleType (qualName q t)).getD
        (specialize forRequest (lazyGClass (qualName q t)) [] mu.kw)
    else qualName q t
  | .generic mu q t s =>
    specialize forRequest (lazyGClass (qualName q t)) (joinArgs (s.render forRequest)) mu.kw
  | .tuple mu s =>
    specialize forRequest (lazyGClass (tupleName (s.render forRequest).length))
      (joinArgs (s.render forRequest)) mu.kw
  | .option mu e => specialize forRequest (lazyGClass "Option".toList) (e.render forRequest) mu.kw

def TypeSeq.render (forRequest : Bool) : TypeSeq → List PyStr
  | .one e => [e.render forRequest]
  | .cons e s => e.render forRequest :: s.render forRequest
end

/-! ### Tokens as `peek` and `pop` see them -/

/-- The token list with each `'<<'` and `'>>'` read as two tokens, which is how
`peek` and `pop` hand them out. -/
def expandShifts : List PyStr → List PyStr
  | [] => []
  | t :: r =>
    (if t = ['<', '<'] then [['<'], ['<']] else if t = ['>', '>'] then [['>'], ['>']] else [t]) ++
      expandShifts r

@[simp] theorem expandShifts_nil : expandShifts [] = [] := rfl

@[simp] theorem expandShifts_append (a b : List PyStr) :
    expandShifts (a ++ b) = expandShifts a ++ expandShifts b := by
  induction a with
  | nil => rfl
  | cons t a ih => rw [List.cons_append, expandShifts, expandShifts, ih, List.append_assoc]

theorem expandShifts_cons {t : PyStr} (r : List PyStr) (hl : t ≠ ['<', '<']) (hg : t ≠ ['>', '>']) :
    expandShifts (t :: r) = t :: expandShifts r := by
  simp [expandShifts, hl, hg]

theorem expandShifts_eq_nil {ts : List PyStr} : expandShifts ts = [] ↔ ts = [] := by
  cases ts with
  | nil => simp [expandShifts]
  | cons t r => simp only [expandShifts]; split_ifs <;> simp

theorem length_expandShifts_le (ts : List PyStr) : (expandShifts ts).length ≤ 2 * ts.length := by
  induction ts with
  | nil => simp [expandShifts]
  | cons t r ih =>
    simp only [expandShifts, List.length_append, List.length_cons]
    split_ifs <;> simp <;> omega

/-- `peek` reads the first token of the expanded list. -/
theorem peek_eq_head (ts : List PyStr) : peek ts = (expandShifts ts).head? := by
  cases ts with
  | nil => rfl
  | cons t r => simp only [peek, expandShifts]; split_ifs <;> rfl

/-- `pop` takes the first token of the expanded list and leaves the rest of it. -/
theorem pop_of_expandShifts {ts r : List PyStr} {t : PyStr} (h : expandShifts ts = t :: r) :
    ∃ ts', pop ts = .ok (t, ts') ∧ expandShifts ts' = r := by
  cases ts with
  | nil => cases h
  | cons u us =>
    simp only [expandShifts] at h
    by_cases hl : u = ['<', '<']
    · simp only [hl, if_true, List.cons_append, List.singleton_append, List.cons.injEq] at h
      obtain ⟨rfl, rfl⟩ := h
      exact ⟨['<'] :: us, by simp [pop, hl], expandShifts_cons _ (by decide) (by decide)⟩
    · by_cases hg : u = ['>', '>']
      · simp only [hg, if_true, if_neg (show ¬ (['>', '>'] : PyStr) = ['<', '<'] by decide),
          List.cons_append, List.singleton_append, List.cons.injEq] at h
        obtain ⟨rfl, rfl⟩ := h
        exact ⟨['>'] :: us, by simp [pop, hg], expandShifts_cons _ (by decide) (by decide)⟩
      · simp only [hl, hg, if_false, List.singleton_append, List.cons.injEq] at h
        obtain ⟨rfl, rfl⟩ := h
        exact ⟨us, by simp [pop, hl, hg], rfl⟩

/-! ### Tokenizing the text of an expression -/

theorem lexLine_of_not_name {c : Char} (cur s : PyStr) (hc : isNameChar c = false) :
    lexLine cur (c :: s) = flushName cur ++ lexLine [] (c :: s) := by
  rw [lexLine_op _ _ hc, lexLine_op _ _ hc, flushName_nil, List.nil_append, List.append_assoc]

theorem lexLine_append_name (cur n s : PyStr) (hn : n.all isNameChar) :
    lexLine cur (n ++ s) = lexLine (cur ++ n) s := by
  induction n generalizing cur with
  | nil => simp
  | cons c n ih =>
    simp only [List.all_cons, Bool.and_eq_true] at hn
    rw [List.cons_append, lexLine_name_char _ _ hn.1, ih _ hn.2, List.append_assoc,
      List.singleton_append]

/-- A name runs to the first character that cannot continue it. -/
theorem lexLine_name {n : PyStr} (s : PyStr) (hn : n ≠ []) (hall : n.all isNameChar)
    (hs : ∀ c ∈ s.head?, isNameChar c = false) :
    lexLine [] (n ++ s) = n :: lexLine [] s := by
  rw [lexLine_append_name _ _ _ hall, List.nil_append]
  cases s with
  | nil => simp [flushName, hn]
  | cons c s => rw [lexLine_of_not_name _ _ (hs c rfl)]; simp [flushName, hn]

theorem lexLine_blank (s : PyStr) : lexLine [] (' ' :: s) = lexLine [] s := by
  rw [lexLine_op (c := ' ') _ _ rfl]
  rfl

theorem lexLine_single {c : Char} (s : PyStr) (hc : c = '(' ∨ c = ')' ∨ c = ',' ∨ c = '?') :
    lexLine [] (c :: s) = [c] :: lexLine [] s := by
  have hname : isNameChar c = false := by rcases hc with rfl | rfl | rfl | rfl <;> rfl
  rw [lexLine_op _ _ hname, opToken_single s (by rcases hc with rfl | rfl | rfl | rfl <;> decide)
    (by rintro rfl; simp at hc) (by rintro rfl; simp at hc) (by rintro rfl; simp at hc)]
  rfl

theorem lexLine_dot (s : PyStr) (hs : s.head? ≠ some '.') :
    lexLine [] ('.' :: s) = ['.'] :: lexLine [] s := by
  rw [lexLine_op (c := '.') _ _ rfl, opToken_single s (by decide) (by simp) (by simp) fun _ => hs]
  rfl

/-- However many `>` or `<` follow one another, each reaches `pop` as a token of
its own. -/
theorem expandShifts_lexLine_angle {c : Char} (hc : c = '<' ∨ c = '>') (s : PyStr) :
    expandShifts (lexLine [] (c :: s)) = [c] :: expandShifts (lexLine [] s) := by
  have hname : isNameChar c = false := by rcases hc with rfl | rfl <;> rfl
  have hne : [c] ≠ ['<', '<'] ∧ [c] ≠ ['>', '>'] := by simp
  induction s with
  | nil =>
    rw [lexLine_op _ _ hname, opToken_single [] (by rcases hc with rfl | rfl <;> decide)
      (by simp) (by simp) (by simp)]
    simp [flushName, expandShifts_cons _ hne.1 hne.2]
  | cons d s ih =>
    by_cases hd : d = c
    · subst hd
      have hcc : opToken d (d :: s) = (some [d, d], 1) := by
        rw [opToken, if_neg (by rcases hc with rfl | rfl <;> decide), if_pos ⟨hc.symm, rfl⟩]
      rw [lexLine_op _ _ hname, hcc, ih]
      rcases hc with rfl | rfl <;> simp [expandShifts]
    · have hop : opToken c (d :: s) = (some [c], 0) :=
        opToken_single _ (by rcases hc with rfl | rfl <;> decide)
          (fun h => by simpa [h] using hd) (fun h => by simpa [h] using hd)
          (by rcases hc with rfl | rfl <;> simp)
      rw [lexLine_op _ _ hname, hop]
      simp [flushName, expandShifts_cons _ hne.1 hne.2]

theorem isIdent_spec {n : PyStr} (h : isIdent n = true) : n ≠ [] ∧ n.all isNameChar = true := by
  cases n with
  | nil => cases h
  | cons c r => simp only [isIdent, Bool.and_eq_true] at h; exact ⟨List.cons_ne_nil c r, h.2⟩

/-- A text that is one name is one token. -/
theorem lexLine_ident {n : PyStr} (h : isIdent n = true) : lexLine [] n = [n] := by
  obtain ⟨hn, hall⟩ := isIdent_spec h
  simpa using lexLine_name [] hn hall (by simp)

theorem expandShifts_name {n : PyStr} (r : List PyStr) (h : n.all isNameChar = true) :
    expandShifts (n :: r) = n :: expandShifts r :=
  expandShifts_cons r (by rintro rfl; cases h) (by rintro rfl; cases h)

/-- A NAME token followed by a character that is not part of a name. -/
theorem expandShifts_lexLine_ident {n : PyStr} (s : PyStr) (h : isIdent n = true)
    (hs : ∀ c ∈ s.head?, isNameChar c = false) :
    expandShifts (lexLine [] (n ++ s)) = n :: expandShifts (lexLine [] s) := by
  obtain ⟨hn, hall⟩ := isIdent_spec h
  rw [lexLine_name s hn hall hs, expandShifts_name _ hall]

theorem expandShifts_lexLine_single (c : Char) (s : PyStr)
    (hc : c = '(' ∨ c = ')' ∨ c = ',' ∨ c = '?') :
    expandShifts (lexLine [] (c :: s)) = [c] :: expandShifts (lexLine [] s) := by
  rw [lexLine_single s hc]
  exact expandShifts_cons _ (by rcases hc with rfl | rfl | rfl | rfl <;> decide)
    (by rcases hc with rfl | rfl | rfl | rfl <;> decide)

theorem expandShifts_lexLine_mu (mu : Mut) (s : PyStr) :
    expandShifts (lexLine [] (mu.text ++ s)) = mu.tokens ++ expandShifts (lexLine [] s) := by
  cases mu with
  | none => rfl
  | mutable =>
    show expandShifts (lexLine [] ("mutable".toList ++ ' ' :: s)) = _
    rw [expandShifts_lexLine_ident _ (by decide) (by simp [isNameChar]), lexLine_blank]; rfl
  | readonly =>
    show expandShifts (lexLine [] ("readonly".toList ++ ' ' :: s)) = _
    rw [expandShifts_lexLine_ident _ (by decide) (by simp [isNameChar]), lexLine_blank]; rfl

theorem expandShifts_lexLine_qualName (q : Option PyStr) {t : PyStr} (s : PyStr)
    (hq : q.all isIdent = true) (ht : isIdent t = true) (hs : ∀ c ∈ s.head?, isNameChar c = false) :
    expandShifts (lexLine [] (qualName q t ++ s)) = qualTokens q t ++ expandShifts (lexLine [] s) := by
  cases q with
  | none => exact expandShifts_lexLine_ident s ht hs
  | some m =>
    obtain ⟨c, r, rfl⟩ := List.exists_cons_of_ne_nil (isIdent_spec ht).1
    have hc : isNameChar c = true := by simp only [isIdent, Bool.and_eq_true, List.all_cons] at ht; exact ht.2.1
    have hdot : (c :: r ++ s).head? ≠ some '.' := by
      rintro ⟨⟩; cases hc
    rw [qualName, List.append_assoc, List.cons_append,
      expandShifts_lexLine_ident _ hq (by simp [isNameChar]), lexLine_dot _ hdot,
      expandShifts_cons _ (by decide) (by decide), expandShifts_lexLine_ident _ ht hs]
    rfl

mutual
/-- `tokenize` cuts the text of an expression into its tokens, up to the merging
of `>` pairs into `'>>'`, whatever text follows that does not continue a name. -/
theorem TypeExpr.lex_text : ∀ (e : TypeExpr), e.wf = true → ∀ s : PyStr,
    (∀ c ∈ s.head?, isNameChar c = false) →
    expandShifts (lexLine [] (e.text ++ s)) = e.tokens ++ expandShifts (lexLine [] s)
  | .name mu q t, hwf, s, hs => by
    simp only [TypeExpr.wf, Bool.and_eq_true] at hwf
    rw [TypeExpr.text, TypeExpr.tokens, List.append_assoc, expandShifts_lexLine_mu,
      expandShifts_lexLine_qualName q s hwf.1.2 hwf.1.1 hs, List.append_assoc]
  | .generic mu q t a, hwf, s, hs => by
    simp only [TypeExpr.wf, Bool.and_eq_true] at hwf
    simp only [TypeExpr.text, TypeExpr.tokens, List.append_assoc, List.cons_append,
      List.singleton_append, List.nil_append]
    rw [expandShifts_lexLine_mu, expandShifts_lexLine_qualName q ('<' :: (a.text ++ '>' :: s))
      hwf.1.1.1.2 hwf.1.1.1.1 (by simp [isNameChar]), expandShifts_lexLine_angle (Or.inl rfl),
      TypeSeq.lex_text a hwf.2 ('>' :: s) (by simp [isNameChar]), expandShifts_lexLine_angle (Or.inr rfl)]
  | .tuple mu a, hwf, s, hs => by
    simp only [TypeExpr.text, TypeExpr.tokens, List.append_assoc, List.cons_append,
      List.singleton_append, List.nil_append]
    rw [expandShifts_lexLine_mu, expandShifts_lexLine_single '(' _ (by decide),
      TypeSeq.lex_text a hwf (')' :: s) (by simp [isNameChar]),
      expandShifts_lexLine_single ')' _ (by decide)]
  | .option mu e, hwf, s, hs => by
    simp only [TypeExpr.text, TypeExpr.tokens, List.append_assoc, List.cons_append]
    rw [expandShifts_lexLine_mu, expandShifts_lexLine_single '?' _ (by decide),
      TypeExpr.lex_text e hwf s hs]

theorem TypeSeq.lex_text : ∀ (a : TypeSeq), a.wf = true → ∀ s : PyStr,
    (∀ c ∈ s.head?, isNameChar c = false) →
    expandShifts (lexLine [] (a.text ++ s)) = a.tokens ++ expandShifts (lexLine [] s)
  | .one e, hwf, s, hs => TypeExpr.lex_text e hwf s hs
  | .cons e a, hwf, s, hs => by
    simp only [TypeSeq.wf, Bool.and_eq_true] at hwf
    simp only [TypeSeq.text, TypeSeq.tokens, List.append_assoc, List.cons_append]
    rw [TypeExpr.lex_text e hwf.1 _ (by simp [isNameChar]),
      expandShifts_lexLine_single ',' _ (by decide), lexLine_blank,
      TypeSeq.lex_text a hwf.2 s hs]
end

theorem parenlev_name {n : PyStr} (h : n.all isNameChar = true) : parenlev n = 0 := by
  induction n with
  | nil => rfl
  | cons c n ih =>
    simp only [List.all_cons, Bool.and_eq_true] at h
    have hc : bracketDelta c = 0 := by
      rw [bracketDelta, if_neg, if_neg] <;>
        rintro (rfl | rfl | rfl) <;> exact absurd h.1 (by decide)
    rw [parenlev_cons, hc, ih h.2]
    rfl

theorem parenlev_qualName (q : Option PyStr) {t : PyStr} (hq : q.all isIdent = true)
    (ht : isIdent t = true) : parenlev (qualName q t) = 0 := by
  cases q with
  | none => exact parenlev_name (isIdent_spec ht).2
  | some m =>
    rw [qualName, parenlev_append, parenlev_cons, parenlev_name (isIdent_spec hq).2,
      parenlev_name (isIdent_spec ht).2]
    rfl

theorem parenlev_mu (mu : Mut) : parenlev mu.text = 0 := by
  cases mu <;> decide

mutual
/-- The text of an expression leaves `tokenize`'s bracket depth at zero: its only
brackets are the parentheses of its tuples. -/
theorem TypeExpr.parenlev_text : ∀ e : TypeExpr, e.wf = true → parenlev e.text = 0
  | .name mu q t, hwf => by
    simp only [TypeExpr.wf, Bool.and_eq_true] at hwf
    rw [TypeExpr.text, parenlev_append, parenlev_mu, parenlev_qualName q hwf.1.2 hwf.1.1]
    rfl
  | .generic mu q t a, hwf => by
    simp only [TypeExpr.wf, Bool.and_eq_true] at hwf
    simp only [TypeExpr.text, parenlev_append, parenlev_cons, parenlev_mu,
      parenlev_qualName q hwf.1.1.1.2 hwf.1.1.1.1, TypeSeq.parenlev_text a hwf.2]
    rfl
  | .tuple mu a, hwf => by
    simp only [TypeExpr.text, parenlev_append, parenlev_cons, parenlev_mu,
      TypeSeq.parenlev_text a hwf]
    rfl
  | .option mu e, hwf => by
    simp only [TypeExpr.text, parenlev_append, parenlev_cons, parenlev_mu,
      TypeExpr.parenlev_text e hwf]
    rfl

theorem TypeSeq.parenlev_text : ∀ a : TypeSeq, a.wf = true → parenlev a.text = 0
  | .one e, hwf => TypeExpr.parenlev_text e hwf
  | .cons e a, hwf => by
    simp only [TypeSeq.wf, Bool.and_eq_true] at hwf
    simp only [TypeSeq.text, parenlev_append, parenlev_cons, TypeExpr.parenlev_text e hwf.1,
      TypeSeq.parenlev_text a hwf.2]
    rfl
end

/-! ### What each step of the parser reads -/

@[simp] theorem except_ok_bind {ε α β : Type} (a : α) (f : α → Except ε β) :
    (Except.ok a >>= f) = f a := rfl

/-- A step whose result is known: the run goes on with its value. -/
theorem except_bind_of_ok {ε α β : Type} {x : Except ε α} {f : α → Except ε β} {a : α}
    {r : Except ε β} (hx : x = .ok a) (h : f a = r) : x >>= f = r := by
  rw [hx]
  exact h

/-- A run that succeeds went through each of its steps. -/
theorem except_bind_eq_ok {ε α β : Type} {x : Except ε α} {f : α → Except ε β} {b : β}
    (h : x >>= f = .ok b) : ∃ a, x = .ok a ∧ f a = .ok b := by
  cases x with
  | error e => cases h
  | ok a => exact ⟨a, rfl, h⟩

theorem no_dot_of_all_name {n : PyStr} (h : n.all isNameChar = true) : ∀ c ∈ n, (c != '.') = true := by
  intro c hc
  have := List.all_eq_true.mp h c hc
  by_cases hcd : c = '.'
  · subst hcd
    exact absurd this (by decide)
  · simpa using hcd

/-- The qualifier `parseMut` takes, and what it leaves. -/
theorem parseMut_tokens (mu : Mut) {ts l : List PyStr} (h : expandShifts ts = mu.tokens ++ l)
    (hl : ∀ x ∈ l.head?, mu.admits x = true) :
    ∃ ts', parseMut ts = .ok (mu.word, ts') ∧ expandShifts ts' = l := by
  cases mu with
  | none =>
    refine ⟨ts, if_neg ?_, h⟩
    rw [peek_eq_head, h]
    rintro (hm | hm) <;> simpa [Mut.admits, hm] using hl _ hm
  | mutable =>
    obtain ⟨ts', hp, he⟩ := pop_of_expandShifts h
    exact ⟨ts', by rw [parseMut, if_pos (by rw [peek_eq_head, h]; exact Or.inl rfl), hp]; rfl, he⟩
  | readonly =>
    obtain ⟨ts', hp, he⟩ := pop_of_expandShifts h
    exact ⟨ts', by rw [parseMut, if_pos (by rw [peek_eq_head, h]; exact Or.inr rfl), hp]; rfl, he⟩

/-- The name `parseT` takes, and what it leaves. -/
theorem parseT_tokens (q : Option PyStr) (t : PyStr) {ts l : List PyStr}
    (h : expandShifts ts = qualTokens q t ++ l) (hl : l.head? ≠ some ['.']) :
    ∃ ts', parseT ts = .ok (qualName q t, ts') ∧ expandShifts ts' = l := by
  cases q with
  | none =>
    rw [qualTokens, List.singleton_append] at h
    obtain ⟨ts1, hp, he⟩ := pop_of_expandShifts h
    refine ⟨ts1, ?_, he⟩
    rw [parseT, hp, except_ok_bind]
    simp only [peek_eq_head, he, if_neg hl]
    rfl
  | some m =>
    rw [qualTokens, List.cons_append, List.cons_append, List.singleton_append] at h
    obtain ⟨ts1, hp1, he1⟩ := pop_of_expandShifts h
    obtain ⟨ts2, hp2, he2⟩ := pop_of_expandShifts he1
    obtain ⟨ts3, hp3, he3⟩ := pop_of_expandShifts he2
    refine ⟨ts3, ?_, he3⟩
    rw [parseT, hp1, except_ok_bind]
    simp only [peek_eq_head, he1, List.head?_cons, if_true, hp2, hp3, except_ok_bind]
    simp [qualName]
    rfl

theorem isType_qualName (q : Option PyStr) {t : PyStr} (hq : q.all isIdent = true)
    (ht : isIdent t = true) : isType (qualName q t) = .ok (capitalised t) := by
  obtain ⟨c, r, rfl⟩ := List.exists_cons_of_ne_nil (isIdent_spec ht).1
  have hdot := no_dot_of_all_name (isIdent_spec ht).2
  have hnot : '.' ∉ c :: r := fun hm => by simpa using hdot _ hm
  cases q with
  | none => simp [qualName, isType, hnot, capitalised]
  | some m =>
    have hm := no_dot_of_all_name (isIdent_spec hq).2
    simp [qualName, isType, List.dropWhile_append_of_pos hm, List.takeWhile_eq_self_iff.mpr hdot,
      capitalised]

theorem frozenKW_word (mu : Mut) : frozenKW mu.word = .ok mu.kw := by
  cases mu <;> rfl

theorem ident_ne {n : PyStr} (h : isIdent n = true) {c : Char} (hc : isNameChar c = false) :
    n ≠ [c] := by
  rintro rfl
  have := (isIdent_spec h).2
  simp [hc] at this

/-- Where a name comes next, `peek` shows no operator. -/
theorem peek_ne_op {ts : List PyStr} {n : PyStr} (hp : peek ts = some n) (hid : isIdent n = true)
    {c : Char} (hc : isNameChar c = false) : peek ts ≠ some [c] := by
  rw [hp]
  exact fun h => ident_ne hid hc (Option.some.inj h)

section Law

variable (fr : Bool)

/-- `parseExpr` with enough fuel, on tokens that expand to those of `e` and a rest
that cannot continue it, returns the rendering of `e` and leaves that rest. -/
def ExprParses (e : TypeExpr) : Prop :=
  ∀ n ts r, 2 * e.tokens.length ≤ n → expandShifts ts = e.tokens ++ r →
    r.head? ≠ some ['.'] → r.head? ≠ some ['<'] →
    ∃ ts', parseExpr fr n ts = .ok (e.render fr, ts') ∧ expandShifts ts' = r

/-- The same for `parseExprSeq`, whose rest does not start with a comma either. -/
def SeqParses (a : TypeSeq) : Prop :=
  ∀ n ts r, 2 * a.tokens.length + 1 ≤ n → expandShifts ts = a.tokens ++ r →
    r.head? ≠ some ['.'] → r.head? ≠ some ['<'] → r.head? ≠ some [','] →
    ∃ ts', parseExprSeq fr n ts = .ok (a.render fr, ts') ∧ expandShifts ts' = r

theorem parseExpr_name (mu : Mut) (q : Option PyStr) (t : PyStr)
    (hwf : (TypeExpr.name mu q t).wf = true) : ExprParses fr (.name mu q t) := by
  intro n ts r hn h hd hl
  obtain ⟨k, rfl⟩ : ∃ k, n = k + 1 := ⟨n - 1, by
    have : 1 ≤ (qualTokens q t).length := by cases q <;> simp [qualTokens]
    simp only [TypeExpr.tokens, List.length_append] at hn; omega⟩
  simp only [TypeExpr.wf, Bool.and_eq_true] at hwf
  obtain ⟨⟨ht, hq⟩, hadm⟩ := hwf
  rw [TypeExpr.tokens, List.append_assoc] at h
  have hfirst : (qualTokens q t ++ r).head? = some (q.getD t) := by cases q <;> rfl
  have hid : isIdent (q.getD t) = true := by cases q with | none => exact ht | some m => exact hq
  obtain ⟨ts1, hm, h1⟩ := parseMut_tokens mu h (by rw [hfirst]; rintro x ⟨⟩; exact hadm)
  obtain ⟨ts2, hT, h2⟩ := parseT_tokens q t h1 hd
  refine ⟨ts2, ?_, h2⟩
  have hp1 : peek ts1 = some (q.getD t) := by rw [peek_eq_head, h1, hfirst]
  rw [parseExpr]
  refine except_bind_of_ok hm ((if_neg (peek_ne_op hp1 hid (c := '(') rfl)).trans
    ((if_neg (peek_ne_op hp1 hid (c := '?') rfl)).trans (except_bind_of_ok hT ?_)))
  refine (if_neg (by rwa [peek_eq_head, h2])).trans ?_
  refine except_bind_of_ok rfl (except_bind_of_ok (isType_qualName q hq ht) ?_)
  cases hc : capitalised t
  · simp [TypeExpr.render, hc]; rfl
  · cases hs : simpleType (qualName q t) <;>
      simp [TypeExpr.render, hc, hs, frozenKW_word] <;> rfl

theorem TypeSeq.render_cons (a : TypeSeq) : ∃ x xs, a.render fr = x :: xs := by
  cases a with
  | one e => exact ⟨_, [], rfl⟩
  | cons e a => exact ⟨_, _, rfl⟩

theorem parseExpr_generic (mu : Mut) (q : Option PyStr) (t : PyStr) (a : TypeSeq)
    (hq : q.all isIdent = true) (ht : isIdent t = true) (hadm : mu.admits (q.getD t) = true)
    (hc : capitalised t = true) (ih : SeqParses fr a) : ExprParses fr (.generic mu q t a) := by
  intro n ts r hn h hd hl
  have hql : 1 ≤ (qualTokens q t).length := by cases q <;> simp [qualTokens]
  simp only [TypeExpr.tokens, List.length_append, List.length_cons, List.length_singleton] at hn
  obtain ⟨k, rfl⟩ : ∃ k, n = k + 1 := ⟨n - 1, by omega⟩
  simp only [TypeExpr.tokens, List.append_assoc, List.cons_append, List.singleton_append,
    List.nil_append] at h
  have hfirst : (qualTokens q t ++ ['<'] :: (a.tokens ++ ['>'] :: r)).head? = some (q.getD t) := by
    cases q <;> rfl
  have hid : isIdent (q.getD t) = true := by cases q with | none => exact ht | some m => exact hq
  obtain ⟨ts1, hm, h1⟩ := parseMut_tokens mu h (by rw [hfirst]; rintro x ⟨⟩; exact hadm)
  obtain ⟨ts2, hT, h2⟩ := parseT_tokens q t h1 (by simp)
  obtain ⟨ts3, hp3, h3⟩ := pop_of_expandShifts h2
  obtain ⟨ts4, hs4, h4⟩ := ih k ts3 (['>'] :: r) (by omega) h3 (by simp) (by simp) (by simp)
  obtain ⟨ts5, hp5, h5⟩ := pop_of_expandShifts h4
  obtain ⟨x, xs, hx⟩ := a.render_cons fr
  refine ⟨ts5, ?_, h5⟩
  have hp1 : peek ts1 = some (q.getD t) := by rw [peek_eq_head, h1, hfirst]
  rw [parseExpr]
  refine except_bind_of_ok hm ((if_neg (peek_ne_op hp1 hid (c := '(') rfl)).trans
    ((if_neg (peek_ne_op hp1 hid (c := '?') rfl)).trans (except_bind_of_ok hT ?_)))
  refine (if_pos (by rw [peek_eq_head, h2]; rfl)).trans
    (except_bind_of_ok hp3 (except_bind_of_ok hs4 (except_bind_of_ok hp5 ?_)))
  refine (if_neg (not_not.mpr rfl)).trans (except_bind_of_ok rfl (except_bind_of_ok rfl
    (except_bind_of_ok (isType_qualName q hq ht) ?_)))
  simp only [hc, hx, Bool.not_true, Bool.false_eq_true, if_false]
  exact except_bind_of_ok (frozenKW_word mu) (by rw [TypeExpr.render, hx]; rfl)

theorem parseExpr_tuple (mu : Mut) (a : TypeSeq) (ih : SeqParses fr a) :
    ExprParses fr (.tuple mu a) := by
  intro n ts r hn h hd hl
  simp only [TypeExpr.tokens, List.length_append, List.length_cons, List.length_singleton] at hn
  obtain ⟨k, rfl⟩ : ∃ k, n = k + 1 := ⟨n - 1, by omega⟩
  simp only [TypeExpr.tokens, List.append_assoc, List.cons_append, List.singleton_append,
    List.nil_append] at h
  obtain ⟨ts1, hm, h1⟩ := parseMut_tokens mu h (by rintro x ⟨⟩; cases mu <;> rfl)
  obtain ⟨ts2, hp2, h2⟩ := pop_of_expandShifts h1
  obtain ⟨ts3, hs3, h3⟩ := ih k ts2 ([')'] :: r) (by omega) h2 (by simp) (by simp) (by simp)
  obtain ⟨ts4, hp4, h4⟩ := pop_of_expandShifts h3
  refine ⟨ts4, ?_, h4⟩
  rw [parseExpr]
  refine except_bind_of_ok hm ((if_pos (by rw [peek_eq_head, h1]; rfl)).trans
    (except_bind_of_ok hp2 (except_bind_of_ok hs3 (except_bind_of_ok hp4 ?_))))
  exact (if_neg (not_not.mpr rfl)).trans
    (except_bind_of_ok rfl (except_bind_of_ok (frozenKW_word mu) rfl))

theorem parseExpr_option (mu : Mut) (e : TypeExpr) (ih : ExprParses fr e) :
    ExprParses fr (.option mu e) := by
  intro n ts r hn h hd hl
  simp only [TypeExpr.tokens, List.length_append, List.length_cons] at hn
  obtain ⟨k, rfl⟩ : ∃ k, n = k + 1 := ⟨n - 1, by omega⟩
  simp only [TypeExpr.tokens, List.append_assoc, List.cons_append] at h
  obtain ⟨ts1, hm, h1⟩ := parseMut_tokens mu h (by rintro x ⟨⟩; cases mu <;> rfl)
  obtain ⟨ts2, hp2, h2⟩ := pop_of_expandShifts h1
  obtain ⟨ts3, hs3, h3⟩ := ih k ts2 r (by omega) h2 hd hl
  refine ⟨ts3, ?_, h3⟩
  have hp1 : peek ts1 = some ['?'] := by rw [peek_eq_head, h1]; rfl
  rw [parseExpr]
  exact except_bind_of_ok hm ((if_neg (by rw [hp1]; decide)).trans ((if_pos hp1).trans
    (except_bind_of_ok hp2 (except_bind_of_ok hs3 (except_bind_of_ok (frozenKW_word mu) rfl)))))

theorem parseExprSeq_one (e : TypeExpr) (ih : ExprParses fr e) : SeqParses fr (.one e) := by
  intro n ts r hn h hd hl hc
  simp only [TypeSeq.tokens] at hn h
  obtain ⟨k, rfl⟩ : ∃ k, n = k + 1 := ⟨n - 1, by omega⟩
  obtain ⟨ts1, hs1, h1⟩ := ih k ts r (by omega) h hd hl
  refine ⟨ts1, ?_, h1⟩
  rw [parseExprSeq]
  exact except_bind_of_ok hs1 ((if_pos (by rwa [peek_eq_head, h1])).trans rfl)

theorem parseExprSeq_cons (e : TypeExpr) (a : TypeSeq) (ihe : ExprParses fr e)
    (iha : SeqParses fr a) : SeqParses fr (.cons e a) := by
  intro n ts r hn h hd hl hc
  simp only [TypeSeq.tokens, List.length_append, List.length_cons] at hn
  obtain ⟨k, rfl⟩ : ∃ k, n = k + 1 := ⟨n - 1, by omega⟩
  simp only [TypeSeq.tokens, List.append_assoc, List.cons_append] at h
  obtain ⟨ts1, hs1, h1⟩ := ihe k ts _ (by omega) h (by simp) (by simp)
  obtain ⟨ts2, hp2, h2⟩ := pop_of_expandShifts h1
  obtain ⟨ts3, hs3, h3⟩ := iha k ts2 r (by omega) h2 hd hl hc
  refine ⟨ts3, ?_, h3⟩
  rw [parseExprSeq]
  exact except_bind_of_ok hs1 ((if_neg (not_not.mpr (by rw [peek_eq_head, h1]; rfl))).trans
    (except_bind_of_ok hp2 (except_bind_of_ok hs3 rfl)))

mutual
theorem TypeExpr.parses : ∀ e : TypeExpr, e.wf = true → ExprParses fr e
  | .name mu q t, hwf => parseExpr_name fr mu q t hwf
  | .generic mu q t a, hwf => by
    simp only [TypeExpr.wf, Bool.and_eq_true] at hwf
    exact parseExpr_generic fr mu q t a hwf.1.1.1.2 hwf.1.1.1.1 hwf.1.1.2 hwf.1.2
      (TypeSeq.parses a hwf.2)
  | .tuple mu a, hwf => parseExpr_tuple fr mu a (TypeSeq.parses a hwf)
  | .option mu e, hwf => parseExpr_option fr mu e (TypeExpr.parses e hwf)

theorem TypeSeq.parses : ∀ a : TypeSeq, a.wf = true → SeqParses fr a
  | .one e, hwf => parseExprSeq_one fr e (TypeExpr.parses e hwf)
  | .cons e a, hwf => by
    simp only [TypeSeq.wf, Bool.and_eq_true] at hwf
    exact parseExprSeq_cons fr e a (TypeExpr.parses e hwf.1) (TypeSeq.parses a hwf.2)
end

theorem TypeExpr.tokens_ne_nil (e : TypeExpr) : e.tokens ≠ [] := by
  cases e with
  | name mu q t => cases q <;> simp [TypeExpr.tokens, qualTokens]
  | _ => simp [TypeExpr.tokens]

/-- The tokens of a text, followed by `extra`, parse back to its rendering with the
fuel `parseType` gives, and leave `extra`. -/
theorem parseExpr_text (e : TypeExpr) (hwf : e.wf = true) (extra : List PyStr)
    (hx : expandShifts extra = extra) (hd : extra.head? ≠ some ['.'])
    (hl : extra.head? ≠ some ['<']) :
    ∃ ts', parseExpr fr (4 * (lexLine [] e.text ++ extra).length) (lexLine [] e.text ++ extra) =
      .ok (e.render fr, ts') ∧ expandShifts ts' = extra := by
  have hlex : expandShifts (lexLine [] e.text ++ extra) = e.tokens ++ extra := by
    have := TypeExpr.lex_text e hwf [] (by simp)
    simp only [List.append_nil, lexLine_nil, flushName_nil, expandShifts_nil] at this
    rw [expandShifts_append, this, hx]
  have hlen := length_expandShifts_le (lexLine [] e.text ++ extra)
  rw [hlex, List.length_append] at hlen
  exact TypeExpr.parses fr e hwf _ _ extra (by omega) hlex hd hl

end Law

/-- `Foo<Bar<Int>>`: its text ends in one `'>>'` token. -/
def nestedType : TypeExpr :=
  .generic .none none "Foo".toList (.one (.generic .none none "Bar".toList
    (.one (.name .none none "Int".toList))))

example : nestedType.render true =
    ("s.getTclass2(FrontEndLazyGClass(\"Foo\"), Array[s.getTclass2(FrontEndLazyGClass(" ++
      "\"Bar\"), Array[tInt], DeepFrozen())], DeepFrozen())").toList := by
  decide

/-- `parseType` on the text of `Int`: the type parses, and the NEWLINE token is
left over. -/
theorem parse_type_rejects_int :
    parseType "Int".toList true = .error .assertionError := by
  rw [parseType, if_neg (by decide), tokenizeString, if_pos (by decide), except_ok_bind,
    lexLine_ident (by decide)]
  decide

end SkipTools
