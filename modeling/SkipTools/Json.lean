import SkipTools.PosixPath
import Mathlib.Data.Nat.Digits

/-! `json.dumps(obj, indent=2, separators=(',', ': '))` and `json.loads`, as
tools/generate_project_json.py writes and reads skip.project.json: the pure-Python
encoder that `dumps` uses once an indent is given, with `encode_basestring_ascii`, and
the scanner of CPython's `_json` module (`scan_once`, `_parse_object`, `_parse_array`,
`scanstring` in strict mode, `_match_number`). Every text `dumps` writes for a value
without floats, whose dicts hold each key once, `loads` reads back as that value. -/

namespace SkipTools

/-- A value `json.loads` builds: `None`, a bool, an int, a float (kept as the literal it
was read from), a str, a list, or a dict with its keys in insertion order. -/
inductive PyJson
  | null
  | bool (b : Bool)
  | int (n : Int)
  | float (lit : PyStr)
  | str (s : PyStr)
  | list (xs : List PyJson)
  | dict (kvs : List (PyStr × PyJson))
  deriving Repr

/-- The exceptions of `json.loads`: `JSONDecodeError`, a `\u` escape of a lone
surrogate (it gives a str that no `PyStr` holds), and the scanner's fuel running out,
which stands for `RecursionError` and never happens (`loads_ne_recursion`). -/
inductive JsonExc
  | decode
  | loneSurrogate
  | recursion
  deriving DecidableEq, Repr

/-- `d[k] = v` on a dict: the value of a key already there is replaced in place, a new
key goes last. -/
def dictSet {α : Type} : List (PyStr × α) → PyStr → α → List (PyStr × α)
  | [], k, v => [(k, v)]
  | (k', v') :: d, k, v => if k' = k then (k, v) :: d else (k', v') :: dictSet d k v

/-! ### `json.dumps` -/

/-- A lower-case hexadecimal digit, as `'{0:04x}'.format` writes it. -/
def hexDigit (d : Nat) : Char := if d < 10 then Char.ofNat (48 + d) else Char.ofNat (87 + d)

/-- `'{0:04x}'.format(n)` for `n < 0x10000`. -/
def hex4 (n : Nat) : PyStr :=
  [hexDigit (n / 4096 % 16), hexDigit (n / 256 % 16), hexDigit (n / 16 % 16), hexDigit (n % 16)]

/-- `ESCAPE_DCT` and the `\uXXXX` forms of `py_encode_basestring_ascii`: a code point
above U+FFFF becomes the surrogate pair `0xd800 | (n >> 10) & 0x3ff`,
`0xdc00 | n & 0x3ff` with `n = c - 0x10000 < 2^20`, written here as sums. -/
def escapeChar : Char → PyStr
  | '\\' => ['\\', '\\']
  | '"' => ['\\', '"']
  | '\n' => ['\\', 'n']
  | '\r' => ['\\', 'r']
  | '\t' => ['\\', 't']
  | '\x08' => ['\\', 'b']
  | '\x0c' => ['\\', 'f']
  | c =>
    if ' ' ≤ c ∧ c ≤ '~' then [c]
    else if c.toNat < 0x10000 then '\\' :: 'u' :: hex4 c.toNat
    else '\\' :: 'u' :: hex4 (0xd800 + (c.toNat - 0x10000) / 1024) ++
      '\\' :: 'u' :: hex4 (0xdc00 + (c.toNat - 0x10000) % 1024)

/-- `encode_basestring_ascii(s)`. -/
def encodeString (s : PyStr) : PyStr := '"' :: s.flatMap escapeChar ++ ['"']

def digitChar (d : Nat) : Char := Char.ofNat (48 + d)

/-- `int.__repr__` of a non-negative int. -/
def natText (n : Nat) : PyStr :=
  if n = 0 then ['0'] else (Nat.digits 10 n).reverse.map digitChar

/-- `int.__repr__`. -/
def intText (n : Int) : PyStr :=
  if n < 0 then '-' :: natText n.natAbs else natText n.natAbs

/-- `'\n' + _indent * _current_indent_level` with an indent of 2. -/
def newlineIndent (lvl : Nat) : PyStr := '\n' :: List.replicate (2 * lvl) ' '

mutual
/-- `_iterencode(o, lvl)` of `_make_iterencode`: an empty list or dict is written
`[]` or `{}`, a full one puts each item on a line of its own, indented one level
more, with `,` after all but the last and `: ` after each key. -/
def dumpsAt (lvl : Nat) : PyJson → PyStr
  | .null => "null".toList
  | .bool true => "true".toList
  | .bool false => "false".toList
  | .int n => intText n
  | .float lit => lit
  | .str s => encodeString s
  | .list [] => "[]".toList
  | .list (x :: xs) =>
    '[' :: newlineIndent (lvl + 1) ++ dumpsAt (lvl + 1) x ++ dumpsItems (lvl + 1) xs ++
      newlineIndent lvl ++ [']']
  | .dict [] => "\x7b\x7d".toList
  | .dict ((k, v) :: kvs) =>
    '\x7b' :: newlineIndent (lvl + 1) ++ encodeString k ++ ": ".toList ++ dumpsAt (lvl + 1) v ++
      dumpsMembers (lvl + 1) kvs ++ newlineIndent lvl ++ ['\x7d']

/-- The items of a list after the first, each after `,` and a new line. -/
def dumpsItems (lvl : Nat) : List PyJson → PyStr
  | [] => []
  | x :: xs => ',' :: newlineIndent lvl ++ dumpsAt lvl x ++ dumpsItems lvl xs

/-- The items of a dict after the first. -/
def dumpsMembers (lvl : Nat) : List (PyStr × PyJson) → PyStr
  | [] => []
  | (k, v) :: kvs =>
    ',' :: newlineIndent lvl ++ encodeString k ++ ": ".toList ++ dumpsAt lvl v ++ dumpsMembers lvl kvs
end

/-- `json.dumps(v, indent=2, separators=(',', ': '))`. -/
def dumps (v : PyJson) : PyStr := dumpsAt 0 v

mutual
/-- The values the round trip is about: no float (the model keeps a float as the literal
it was read from) and no dict with a key twice (a Python dict never has one). -/
def PyJson.wf : PyJson → Bool
  | .float _ => false
  | .list xs => itemsWf xs
  | .dict kvs => decide (kvs.map Prod.fst).Nodup && membersWf kvs
  | _ => true

def itemsWf : List PyJson → Bool
  | [] => true
  | x :: xs => x.wf && itemsWf xs

def membersWf : List (PyStr × PyJson) → Bool
  | [] => true
  | (_, v) :: kvs => v.wf && membersWf kvs
end

mutual
/-- The nodes of a value and the items of its lists and dicts: the fuel `scan_once`
needs to read it. -/
def PyJson.size : PyJson → Nat
  | .list xs => 1 + itemsSize xs
  | .dict kvs => 1 + membersSize kvs
  | _ => 1

def itemsSize : List PyJson → Nat
  | [] => 0
  | x :: xs => 1 + x.size + itemsSize xs

def membersSize : List (PyStr × PyJson) → Nat
  | [] => 0
  | (_, v) :: kvs => 1 + v.size + membersSize kvs
end

/-! ### `json.loads` -/

/-- `WHITESPACE = '[ \t\n\r]*'`. -/
def isJsonWs (c : Char) : Bool := c = ' ' || c = '\t' || c = '\n' || c = '\r'

def skipWs (s : PyStr) : PyStr := s.dropWhile isJsonWs

/-- A hexadecimal digit of a `\uXXXX` escape, of either case. -/
def hexVal (c : Char) : Option Nat :=
  if '0' ≤ c ∧ c ≤ '9' then some (c.toNat - 48)
  else if 'a' ≤ c ∧ c ≤ 'f' then some (c.toNat - 87)
  else if 'A' ≤ c ∧ c ≤ 'F' then some (c.toNat - 55)
  else none

def hex4Val (a b c d : Char) : Option Nat := do
  pure (4096 * (← hexVal a) + 256 * (← hexVal b) + 16 * (← hexVal c) + (← hexVal d))

/-- The one-character escapes `scanstring` knows besides `\u`. -/
def unescape : Char → Option Char
  | '"' => some '"'
  | '\\' => some '\\'
  | '/' => some '/'
  | 'b' => some '\x08'
  | 'f' => some '\x0c'
  | 'n' => some '\n'
  | 'r' => some '\r'
  | 't' => some '\t'
  | _ => none

def consChar (c : Char) (r : Except JsonExc (PyStr × PyStr)) : Except JsonExc (PyStr × PyStr) :=
  r.map fun p => (c :: p.1, p.2)

/-- `scanstring(s, end, strict=True)` after the opening quote, one character of the str
for each unit of `fuel`: the str read and the text after the closing quote. A control
character is an error, and a high surrogate escape joins the low surrogate escape right
after it. -/
def scanStringGo : Nat → PyStr → Except JsonExc (PyStr × PyStr)
  | 0, _ => .error .decode
  | _ + 1, [] => .error .decode
  | n + 1, c :: r =>
    if c = '"' then .ok ([], r)
    else if c = '\\' then
      match r with
      | e :: r =>
        if e = 'u' then
          match r with
          | a :: b :: c :: d :: r =>
            match hex4Val a b c d with
            | none => .error .decode
            | some u =>
              if u < 0xd800 ∨ 0xe000 ≤ u then consChar (Char.ofNat u) (scanStringGo n r)
              else if 0xdc00 ≤ u then .error .loneSurrogate
              else match r with
                | x :: y :: a :: b :: c :: d :: r =>
                  if x = '\\' ∧ y = 'u' then
                    match hex4Val a b c d with
                    | some l =>
                      if 0xdc00 ≤ l ∧ l < 0xe000 then
                        consChar (Char.ofNat (0x10000 + (u - 0xd800) * 1024 + (l - 0xdc00)))
                          (scanStringGo n r)
                      else .error .loneSurrogate
                    | none => .error .decode
                  else .error .loneSurrogate
                | _ => .error .loneSurrogate
          | _ => .error .decode
        else
          match unescape e with
          | some c => consChar c (scanStringGo n r)
          | none => .error .decode
      | [] => .error .decode
    else if c.toNat < 0x20 then .error .decode
    else consChar c (scanStringGo n r)

/-- `scanstring` with a unit of fuel for each character of the text, which is enough:
each character of the str takes at least one of the text, so the fuel runs out only on
an empty text, where the string is unterminated. -/
def scanString (s : PyStr) : Except JsonExc (PyStr × PyStr) := scanStringGo s.length s

/-- The fraction `(\.[0-9]+)?` of `_match_number`. -/
def scanFrac : PyStr → PyStr × PyStr
  | '.' :: d :: t =>
    if d.isDigit then ('.' :: d :: t.takeWhile Char.isDigit, t.dropWhile Char.isDigit)
    else ([], '.' :: d :: t)
  | t => ([], t)

/-- The exponent `([eE][-+]?[0-9]+)?` of `_match_number`, which backtracks to the `e`
when no digit follows. -/
def scanExp : PyStr → PyStr × PyStr
  | e :: t =>
    if e = 'e' ∨ e = 'E' then
      let (sg, u) := match t with
        | c :: u => if c = '+' ∨ c = '-' then ([c], u) else ([], t)
        | [] => ([], [])
      match u.takeWhile Char.isDigit with
      | [] => ([], e :: t)
      | ds => (e :: sg ++ ds, u.dropWhile Char.isDigit)
    else ([], e :: t)
  | [] => ([], [])

/-- The value of a run of decimal digits, as `int()` reads it. -/
def digitsValue (ds : PyStr) : Nat := ds.foldl (fun acc c => 10 * acc + (c.toNat - 48)) 0

/-- `-?(0|[1-9][0-9]*)`, the start of `_match_number`: the sign, the digits, and the text
after them. -/
def scanWhole (s : PyStr) : Option (Bool × PyStr × PyStr) :=
  let (neg, s) := match s with
    | '-' :: t => (true, t)
    | t => (false, t)
  match s with
  | '0' :: r => some (neg, ['0'], r)
  | d :: r =>
    if d.isDigit then some (neg, d :: r.takeWhile Char.isDigit, r.dropWhile Char.isDigit) else none
  | [] => none

/-- `_match_number`: the whole part, then a fraction and an exponent; an int when there
are neither. -/
def scanNumber (s : PyStr) : Except JsonExc (PyJson × PyStr) :=
  match scanWhole s with
  | none => .error .decode
  | some (neg, ds, r) =>
    let (frac, r) := scanFrac r
    let (exp, r) := scanExp r
    if frac = [] ∧ exp = [] then
      .ok (.int (if neg then -(digitsValue ds : Int) else digitsValue ds), r)
    else .ok (.float ((if neg then ['-'] else []) ++ ds ++ frac ++ exp), r)

/-- The constants `scan_once` knows, tried before a number. -/
def scanConst (s : PyStr) : Except JsonExc (PyJson × PyStr) :=
  if "null".toList.isPrefixOf s then .ok (.null, s.drop 4)
  else if "true".toList.isPrefixOf s then .ok (.bool true, s.drop 4)
  else if "false".toList.isPrefixOf s then .ok (.bool false, s.drop 5)
  else if "NaN".toList.isPrefixOf s then .ok (.float "NaN".toList, s.drop 3)
  else if "Infinity".toList.isPrefixOf s then .ok (.float "Infinity".toList, s.drop 8)
  else if "-Infinity".toList.isPrefixOf s then .ok (.float "-Infinity".toList, s.drop 9)
  else scanNumber s

mutual
/-- `scan_once(s, idx)` with `fuel` for the depth of its recursion. -/
def scanOnce : Nat → PyStr → Except JsonExc (PyJson × PyStr)
  | 0, _ => .error .recursion
  | _ + 1, [] => .error .decode
  | n + 1, c :: s =>
    if c = '"' then (scanString s).map fun p => (.str p.1, p.2)
    else if c = '\x7b' then
      match skipWs s with
      | '\x7d' :: r => .ok (.dict [], r)
      | s => scanMembers n [] s
    else if c = '[' then
      match skipWs s with
      | ']' :: r => .ok (.list [], r)
      | s => scanItems n [] s
    else scanConst (c :: s)

/-- The loop of `_parse_array` once `[` and a first non-blank are read: a value, then
`]` or `,`. -/
def scanItems : Nat → List PyJson → PyStr → Except JsonExc (PyJson × PyStr)
  | 0, _, _ => .error .recursion
  | n + 1, acc, s =>
    match scanOnce n s with
    | .error e => .error e
    | .ok (v, r) =>
      match skipWs r with
      | ']' :: r => .ok (.list (acc ++ [v]), r)
      | ',' :: r => scanItems n (acc ++ [v]) (skipWs r)
      | _ => .error .decode

/-- The loop of `_parse_object`: a quoted key, `:`, a value, then `}` or `,`; a key
read twice keeps its first place and its last value. -/
def scanMembers : Nat → List (PyStr × PyJson) → PyStr → Except JsonExc (PyJson × PyStr)
  | 0, _, _ => .error .recursion
  | n + 1, acc, '"' :: s =>
    match scanString s with
    | .error e => .error e
    | .ok (k, r) =>
      match skipWs r with
      | ':' :: r =>
        match scanOnce n (skipWs r) with
        | .error e => .error e
        | .ok (v, r) =>
          match skipWs r with
          | '\x7d' :: r => .ok (.dict (dictSet acc k v), r)
          | ',' :: r => scanMembers n (dictSet acc k v) (skipWs r)
          | _ => .error .decode
      | _ => .error .decode
  | _ + 1, _, _ => .error .decode
end

/-- `json.loads(s)`: a UTF-8 byte order mark is refused, blanks around the value are
skipped, and anything after it is `Extra data`. -/
def loads (s : PyStr) : Except JsonExc PyJson :=
  match s with
  | '\uFEFF' :: _ => .error .decode
  | _ =>
    match scanOnce (2 * s.length + 1) (skipWs s) with
    | .error e => .error e
    | .ok (v, r) => if skipWs r = [] then .ok v else .error .decode


/-! ### Reading back what `dumps` writes -/

theorem toNat_valid (c : Char) : c.toNat < 0xd800 ∨ (0xdfff < c.toNat ∧ c.toNat < 0x110000) :=
  c.valid

theorem hexVal_hexDigit : ∀ d, d < 16 → hexVal (hexDigit d) = some d := by decide

theorem hex4Val_hex4 {n : Nat} (h : n < 0x10000) :
    hex4Val (hexDigit (n / 4096 % 16)) (hexDigit (n / 256 % 16)) (hexDigit (n / 16 % 16))
      (hexDigit (n % 16)) = some n := by
  simp only [hex4Val, hexVal_hexDigit _ (Nat.mod_lt _ (by norm_num : 16 > 0)), Option.pure_def,
    Option.bind_eq_bind, Option.some_bind]
  congr 1
  omega

section Escapes

variable {a b c d : Char} {t : PyStr} {u : Nat}

variable {n : Nat}

theorem scanStringGo_plain (h1 : c ≠ '"') (h2 : c ≠ '\\') (h : 0x20 ≤ c.toNat) :
    scanStringGo (n + 1) (c :: t) = consChar c (scanStringGo n t) := by
  show (if c = '"' then _ else if c = '\\' then _ else if c.toNat < 0x20 then _ else _) = _
  rw [if_neg h1, if_neg h2, if_neg (show ¬ c.toNat < 0x20 by omega)]

theorem scanStringGo_unescape {e c' : Char} (he : e ≠ 'u') (h : unescape e = some c') :
    scanStringGo (n + 1) ('\\' :: e :: t) = consChar c' (scanStringGo n t) := by
  show (if ('\\' : Char) = '"' then _ else if ('\\' : Char) = '\\' then _ else _) = _
  simp only [he, h]
  rfl

theorem scanStringGo_bmp (h : hex4Val a b c d = some u) (hu : u < 0xd800 ∨ 0xe000 ≤ u) :
    scanStringGo (n + 1) ('\\' :: 'u' :: a :: b :: c :: d :: t) =
      consChar (Char.ofNat u) (scanStringGo n t) := by
  show (if ('\\' : Char) = '"' then _ else if ('\\' : Char) = '\\' then _ else _) = _
  simp only [h, hu]
  rfl

theorem scanStringGo_pair {a' b' c' d' : Char} {l : Nat} (h : hex4Val a b c d = some u)
    (h' : hex4Val a' b' c' d' = some l) (hu : 0xd800 ≤ u ∧ u < 0xdc00) (hl : 0xdc00 ≤ l ∧ l < 0xe000) :
    scanStringGo (n + 1) ('\\' :: 'u' :: a :: b :: c :: d :: '\\' :: 'u' :: a' :: b' :: c' :: d' :: t) =
      consChar (Char.ofNat (0x10000 + (u - 0xd800) * 1024 + (l - 0xdc00))) (scanStringGo n t) := by
  show (if ('\\' : Char) = '"' then _ else if ('\\' : Char) = '\\' then _ else _) = _
  simp only [h, h', hl, show ¬ (u < 0xd800 ∨ 0xe000 ≤ u) by omega, show ¬ 0xdc00 ≤ u by omega]
  rfl

end Escapes

/-- `scanstring` reads back each character as `encode_basestring_ascii` escapes it. -/
theorem scanStringGo_escapeChar (n : Nat) (c : Char) (t : PyStr) :
    scanStringGo (n + 1) (escapeChar c ++ t) = consChar c (scanStringGo n t) := by
  unfold escapeChar
  split
  all_goals try exact scanStringGo_unescape (by decide) rfl
  rename_i h1 h2 _ _ _ _ _
  have hv := toNat_valid c
  split_ifs with hp hb
  · exact scanStringGo_plain h2 h1 hp.1
  · simp only [hex4, List.cons_append, List.nil_append]
    rw [scanStringGo_bmp (hex4Val_hex4 hb) (by omega), Char.ofNat_toNat]
  · generalize hhi : 0xd800 + (c.toNat - 0x10000) / 1024 = hi
    generalize hlo : 0xdc00 + (c.toNat - 0x10000) % 1024 = lo
    have hc : 0x10000 + (hi - 0xd800) * 1024 + (lo - 0xdc00) = c.toNat := by omega
    simp only [hex4, List.cons_append, List.nil_append, List.append_assoc]
    rw [scanStringGo_pair (hex4Val_hex4 (by omega)) (hex4Val_hex4 (by omega)) (by omega) (by omega), hc,
      Char.ofNat_toNat]

theorem scanStringGo_escape (t : PyStr) :
    ∀ (s : PyStr) (n : Nat), s.length < n → scanStringGo n (s.flatMap escapeChar ++ '"' :: t) = .ok (s, t)
  | [], n + 1, _ => rfl
  | c :: s, n + 1, h => by
    rw [List.flatMap_cons, List.append_assoc, scanStringGo_escapeChar,
      scanStringGo_escape t s n (by simp at h; omega)]
    rfl

theorem length_le_flatMap_escapeChar (s : PyStr) : s.length ≤ (s.flatMap escapeChar).length := by
  induction s with
  | nil => simp
  | cons c s ih =>
    have : 1 ≤ (escapeChar c).length := by
      unfold escapeChar; split <;> (try split_ifs) <;> simp
    simp only [List.flatMap_cons, List.length_append, List.length_cons]
    omega

/-- `scanstring` reads back the body of what `encode_basestring_ascii` writes. -/
theorem scanString_encode (s t : PyStr) :
    scanString (s.flatMap escapeChar ++ '"' :: t) = .ok (s, t) :=
  scanStringGo_escape t s _ (by simp only [List.length_append, List.length_cons]; have := length_le_flatMap_escapeChar s; omega)

theorem digitChar_facts : ∀ d, d < 10 →
    (digitChar d).toNat = 48 + d ∧ (digitChar d).isDigit = true ∧ digitChar d ≠ '-' ∧
      (digitChar d = '0' → d = 0) := by
  decide

theorem digitsValue_append (ds : PyStr) (c : Char) :
    digitsValue (ds ++ [c]) = 10 * digitsValue ds + (c.toNat - 48) := by
  simp [digitsValue, List.foldl_append]

theorem digitsValue_digits (L : List Nat) (h : ∀ d ∈ L, d < 10) :
    digitsValue (L.reverse.map digitChar) = Nat.ofDigits 10 L := by
  induction L with
  | nil => rfl
  | cons d L ih =>
    have hd := (digitChar_facts d (h d (.head _))).1
    rw [List.reverse_cons, List.map_append, List.map_singleton, digitsValue_append,
      ih fun x hx => h x (.tail _ hx), Nat.ofDigits_cons, hd]
    omega

/-- `int.__repr__` of a non-negative int: a digit, which is `0` only for `0`, then digits,
whose value is the int. -/
theorem natText_shape (m : Nat) : ∃ c cs, natText m = c :: cs ∧ c.isDigit ∧ c ≠ '-' ∧
    (c = '0' → cs = [] ∧ m = 0) ∧ (∀ x ∈ cs, x.isDigit) ∧ digitsValue (c :: cs) = m := by
  by_cases hm : m = 0
  · subst hm
    exact ⟨'0', [], rfl, rfl, by decide, fun _ => ⟨rfl, rfl⟩, by simp, rfl⟩
  · have hlt : ∀ d ∈ Nat.digits 10 m, d < 10 := fun d hd => Nat.digits_lt_base (by norm_num) hd
    have hne : (Nat.digits 10 m).reverse ≠ [] := by simpa using Nat.digits_ne_nil_iff_ne_zero.2 hm
    obtain ⟨d, ds, hds⟩ := List.exists_cons_of_ne_nil hne
    have hd : d < 10 := hlt d (List.mem_reverse.1 (hds ▸ List.mem_cons_self d ds))
    have hdig : Nat.digits 10 m = ds.reverse ++ [d] := by
      rw [← List.reverse_reverse (Nat.digits 10 m), hds, List.reverse_cons]
    have hd0 : d ≠ 0 := by simpa [hdig] using Nat.getLast_digit_ne_zero 10 hm
    obtain ⟨h1, h2, h3, h4⟩ := digitChar_facts d hd
    refine ⟨digitChar d, ds.map digitChar, by simp [natText, hm, hds], h2, h3,
      fun h => absurd (h4 h) hd0, fun x hx => ?_, ?_⟩
    · obtain ⟨y, hy, rfl⟩ := List.mem_map.1 hx
      exact (digitChar_facts y (hlt y (by simp [hdig, hy]))).2.1
    · have := digitsValue_digits _ hlt
      rw [hds, Nat.ofDigits_digits] at this
      simpa using this

/-- What follows a value in a text `dumps` writes: the end, a `,` or a new line. -/
def AfterValue : PyStr → Prop
  | [] => True
  | c :: _ => c = ',' ∨ c = '\n'

section AfterValue

variable {r : PyStr} (hr : AfterValue r)
include hr

theorem takeWhile_isDigit_of_afterValue : r.takeWhile Char.isDigit = [] := by
  match r, hr with
  | [], _ => rfl
  | _ :: _, .inl rfl => rfl
  | _ :: _, .inr rfl => rfl

theorem dropWhile_isDigit_of_afterValue : r.dropWhile Char.isDigit = r := by
  match r, hr with
  | [], _ => rfl
  | _ :: _, .inl rfl => rfl
  | _ :: _, .inr rfl => rfl

theorem scanFrac_of_afterValue : scanFrac r = ([], r) := by
  match r, hr with
  | [], _ => rfl
  | _ :: _, .inl rfl => rfl
  | _ :: _, .inr rfl => rfl

theorem scanExp_of_afterValue : scanExp r = ([], r) := by
  match r, hr with
  | [], _ => rfl
  | _ :: _, .inl rfl => rfl
  | _ :: _, .inr rfl => rfl

theorem scanNumber_of_scanWhole {s ds : PyStr} {neg : Bool} (h : scanWhole s = some (neg, ds, r)) :
    scanNumber s = .ok (.int (if neg then -(digitsValue ds : Int) else digitsValue ds), r) := by
  simp [scanNumber, h, scanFrac_of_afterValue hr, scanExp_of_afterValue hr]

section Digits

variable {c : Char} {cs : PyStr} (hd : c.isDigit) (h0 : c = '0' → cs = []) (hcs : ∀ x ∈ cs, x.isDigit)
include hd h0 hcs

theorem scanWhole_digits (hc : c ≠ '-') : scanWhole (c :: cs ++ r) = some (false, c :: cs, r) := by
  by_cases hc0 : c = '0'
  · subst hc0; simp [scanWhole, h0 rfl]
  · simp [scanWhole, hc, hc0, hd, List.takeWhile_append_of_pos hcs, List.dropWhile_append_of_pos hcs,
      takeWhile_isDigit_of_afterValue hr, dropWhile_isDigit_of_afterValue hr]

theorem scanWhole_neg_digits : scanWhole ('-' :: c :: cs ++ r) = some (true, c :: cs, r) := by
  by_cases hc0 : c = '0'
  · subst hc0; simp [scanWhole, h0 rfl]
  · simp [scanWhole, hc0, hd, List.takeWhile_append_of_pos hcs, List.dropWhile_append_of_pos hcs,
      takeWhile_isDigit_of_afterValue hr, dropWhile_isDigit_of_afterValue hr]

end Digits

theorem scanNumber_intText (n : Int) : scanNumber (intText n ++ r) = .ok (.int n, r) := by
  obtain ⟨c, cs, hm, hd, hc, h0, hcs, hv⟩ := natText_shape n.natAbs
  have h0' : c = '0' → cs = [] := fun h => (h0 h).1
  by_cases hn : n < 0
  · rw [intText, if_pos hn, hm, scanNumber_of_scanWhole hr (scanWhole_neg_digits hr hd h0' hcs), hv,
      if_pos rfl, show -(n.natAbs : Int) = n by omega]
  · rw [intText, if_neg hn, hm, scanNumber_of_scanWhole hr (scanWhole_digits hr hd h0' hcs hc), hv,
      if_neg Bool.false_ne_true, show (n.natAbs : Int) = n by omega]

end AfterValue

/-! ### Values -/

theorem skipWs_newlineIndent (lvl : Nat) (s : PyStr) : skipWs (newlineIndent lvl ++ s) = skipWs s :=
  List.dropWhile_append_of_pos fun c hc => by
    simp only [newlineIndent, List.mem_cons, List.mem_replicate] at hc
    rcases hc with rfl | ⟨_, rfl⟩ <;> rfl

theorem skipWs_space (s : PyStr) : skipWs (' ' :: s) = skipWs s := by
  simp [skipWs, isJsonWs]

theorem skipWs_cons {c : Char} {t : PyStr} (h : isJsonWs c = false) : skipWs (c :: t) = c :: t := by
  simp [skipWs, List.dropWhile_cons, h]

theorem ne_of_isDigit {c d : Char} (h : c.isDigit) (hd : d.isDigit = false) : c ≠ d := by
  rintro rfl; simp_all

theorem ne_of_isDigit_right {c d : Char} (h : c.isDigit) (hd : d.isDigit = false) : d ≠ c :=
  (ne_of_isDigit h hd).symm

theorem isJsonWs_of_isDigit {c : Char} (h : c.isDigit) : isJsonWs c = false := by
  simp [isJsonWs, ne_of_isDigit h]

/-- Every value `dumps` writes starts with a character that is not blank, closes no
bracket, and is no byte order mark. -/
theorem dumpsAt_head (lvl : Nat) (v : PyJson) (hv : v.wf) :
    ∃ c t, dumpsAt lvl v = c :: t ∧ isJsonWs c = false ∧ c ≠ ']' ∧ c ≠ '\x7d' ∧ c ≠ '\uFEFF' := by
  cases v with
  | float => simp [PyJson.wf] at hv
  | int n =>
    obtain ⟨c, cs, hm, hd, -⟩ := natText_shape n.natAbs
    by_cases hn : n < 0
    · exact ⟨'-', natText n.natAbs, by simp [dumpsAt, intText, hn], rfl, by decide, by decide, by decide⟩
    · exact ⟨c, cs, by simp [dumpsAt, intText, hn, hm], isJsonWs_of_isDigit hd,
        ne_of_isDigit hd rfl, ne_of_isDigit hd rfl, ne_of_isDigit hd rfl⟩
  | bool b => cases b <;> exact ⟨_, _, rfl, rfl, by decide, by decide, by decide⟩
  | list xs => cases xs <;> exact ⟨_, _, rfl, rfl, by decide, by decide, by decide⟩
  | dict kvs => cases kvs <;> exact ⟨_, _, rfl, rfl, by decide, by decide, by decide⟩
  | _ => exact ⟨_, _, rfl, rfl, by decide, by decide, by decide⟩

theorem key_not_mem_of_nodup {α : Type} {acc rest : List (PyStr × α)} {k : PyStr} {v : α}
    (hd : ((acc ++ (k, v) :: rest).map Prod.fst).Nodup) : k ∉ acc.map Prod.fst := by
  simp only [List.map_append, List.map_cons] at hd
  exact fun h => (List.nodup_cons.1 (List.nodup_middle.1 hd)).1 (List.mem_append_left _ h)

theorem dictSet_of_not_mem {α : Type} {k : PyStr} (v : α) :
    ∀ {d : List (PyStr × α)}, k ∉ d.map Prod.fst → dictSet d k v = d ++ [(k, v)]
  | [], _ => rfl
  | (k', v') :: d, h => by
    simp only [List.map_cons, List.mem_cons, not_or] at h
    simp [dictSet, Ne.symm h.1, dictSet_of_not_mem v h.2]

theorem scanConst_of_digit {c : Char} {t : PyStr} (hd : c.isDigit) :
    scanConst (c :: t) = scanNumber (c :: t) := by
  simp [scanConst, List.isPrefixOf, ne_of_isDigit_right hd]

theorem scanConst_of_minus_digit {c : Char} {t : PyStr} (hd : c.isDigit) :
    scanConst ('-' :: c :: t) = scanNumber ('-' :: c :: t) := by
  simp [scanConst, List.isPrefixOf, ne_of_isDigit_right hd]


theorem skipWs_encodeString (s t : PyStr) : skipWs (encodeString s ++ t) = encodeString s ++ t := by
  simp only [encodeString, List.cons_append]
  exact skipWs_cons (by decide)

theorem skipWs_dumpsAt {lvl : Nat} {v : PyJson} (hv : v.wf) (s : PyStr) :
    skipWs (dumpsAt lvl v ++ s) = dumpsAt lvl v ++ s := by
  obtain ⟨c, t, h, hc, -⟩ := dumpsAt_head lvl v hv
  rw [h, List.cons_append, skipWs_cons hc]

theorem scanOnce_cons {n : Nat} {c : Char} {s : PyStr} (h1 : c ≠ '"') (h2 : c ≠ '\x7b')
    (h3 : c ≠ '[') : scanOnce (n + 1) (c :: s) = scanConst (c :: s) := by
  rw [scanOnce, if_neg h1, if_neg h2, if_neg h3]

theorem scanOnce_intText (n : Nat) (z : Int) {r : PyStr} (hr : AfterValue r) :
    scanOnce (n + 1) (intText z ++ r) = .ok (.int z, r) := by
  have key := scanNumber_intText hr z
  obtain ⟨c, cs, hm, hd, -⟩ := natText_shape z.natAbs
  by_cases hz : z < 0
  · rw [intText, if_pos hz, hm] at key ⊢
    simp only [List.cons_append] at key ⊢
    rw [scanOnce_cons (by decide) (by decide) (by decide), scanConst_of_minus_digit hd, key]
  · rw [intText, if_neg hz, hm] at key ⊢
    simp only [List.cons_append] at key ⊢
    rw [scanOnce_cons (ne_of_isDigit hd rfl) (ne_of_isDigit hd rfl) (ne_of_isDigit hd rfl),
      scanConst_of_digit hd, key]

theorem afterValue_dumpsItems (l m : Nat) (xs : List PyJson) (t : PyStr) :
    AfterValue (dumpsItems l xs ++ (newlineIndent m ++ t)) := by
  cases xs <;> simp [dumpsItems, newlineIndent, AfterValue]

theorem afterValue_dumpsMembers (l m : Nat) (kvs : List (PyStr × PyJson)) (t : PyStr) :
    AfterValue (dumpsMembers l kvs ++ (newlineIndent m ++ t)) := by
  cases kvs <;> simp [dumpsMembers, newlineIndent, AfterValue]

/-- One member of a dict: `scanMembers` reads the key and the value and goes on by what
follows. -/
theorem scanMembers_key {n l : Nat} {acc : List (PyStr × PyJson)} {k : PyStr} {v : PyJson}
    {rest : PyStr} (hv : v.wf) (hread : scanOnce n (dumpsAt l v ++ rest) = .ok (v, rest))
    (hk : k ∉ acc.map Prod.fst) :
    scanMembers (n + 1) acc (encodeString k ++ (": ".toList ++ (dumpsAt l v ++ rest))) =
      match skipWs rest with
      | '\x7d' :: r => .ok (.dict (acc ++ [(k, v)]), r)
      | ',' :: r => scanMembers n (acc ++ [(k, v)]) (skipWs r)
      | _ => .error .decode := by
  simp only [encodeString, List.cons_append, List.append_assoc, List.singleton_append]
  rw [scanMembers, scanString_encode]
  dsimp only
  rw [show ": ".toList = [':', ' '] from rfl]
  simp only [List.cons_append, List.nil_append]
  rw [skipWs_cons (by decide)]
  simp only
  rw [skipWs_space, skipWs_dumpsAt hv, hread]
  dsimp only
  rw [dictSet_of_not_mem v hk]

mutual
/-- `scan_once` reads back each value without floats and with distinct dict keys as
`_iterencode` writes it, at any indent level and with enough fuel. -/
theorem scanOnce_dumpsAt : ∀ (v : PyJson) (lvl n : Nat) (r : PyStr), v.wf → v.size ≤ n →
    AfterValue r → scanOnce n (dumpsAt lvl v ++ r) = .ok (v, r)
  | .null, _, n + 1, r, _, _, _ => by simp [dumpsAt, scanOnce, scanConst, List.isPrefixOf]
  | .bool true, _, n + 1, r, _, _, _ => by simp [dumpsAt, scanOnce, scanConst, List.isPrefixOf]
  | .bool false, _, n + 1, r, _, _, _ => by simp [dumpsAt, scanOnce, scanConst, List.isPrefixOf]
  | .int z, _, n + 1, r, _, _, hr => scanOnce_intText n z hr
  | .float _, _, _, _, hv, _, _ => by simp [PyJson.wf] at hv
  | .str s, _, n + 1, r, _, _, _ => by
    simp [dumpsAt, encodeString, scanOnce, scanString_encode]
    rfl
  | .list [], _, n + 1, r, _, _, _ => by simp [dumpsAt, scanOnce, skipWs, isJsonWs]
  | .dict [], _, n + 1, r, _, _, _ => by simp [dumpsAt, scanOnce, skipWs, isJsonWs]
  | .list (x :: xs), lvl, n + 1, r, hv, hs, _ => by
    have hw : itemsWf (x :: xs) := by simpa [PyJson.wf] using hv
    obtain ⟨c, t, hx, hcw, hcb, -⟩ := dumpsAt_head (lvl + 1) x (by simp [itemsWf] at hw; exact hw.1)
    have key := scanItems_dumpsItems x xs (lvl + 1) lvl n [] r hw (by simp only [PyJson.size] at hs; omega)
    rw [hx, List.cons_append] at key
    simp only [dumpsAt, List.cons_append, List.append_assoc, List.singleton_append, List.nil_append]
    rw [scanOnce, if_neg (by decide), if_neg (by decide), if_pos rfl, skipWs_newlineIndent, hx,
      List.cons_append, skipWs_cons hcw]
    split
    · rename_i heq; exact absurd (List.cons.inj heq).1 hcb
    · simpa using key
  | .dict ((k, v) :: kvs), lvl, n + 1, r, hv, hs, _ => by
    simp only [PyJson.wf, Bool.and_eq_true, decide_eq_true_eq] at hv
    have key := scanMembers_dumpsMembers k v kvs (lvl + 1) lvl n [] r hv.2
      (by rw [List.nil_append]; exact hv.1)
      (by simp only [PyJson.size] at hs; omega)
    simp only [dumpsAt, encodeString, List.cons_append, List.append_assoc, List.singleton_append,
      List.nil_append] at key ⊢
    rw [scanOnce, if_neg (by decide), if_pos rfl, skipWs_newlineIndent, skipWs_cons (by decide)]
    simpa using key
  | .null, _, 0, _, _, hs, _ | .bool _, _, 0, _, _, hs, _ | .int _, _, 0, _, _, hs, _
  | .str _, _, 0, _, _, hs, _ | .list _, _, 0, _, _, hs, _ | .dict _, _, 0, _, _, hs, _ => by
    simp [PyJson.size] at hs
termination_by structural _ _ n => n

theorem scanItems_dumpsItems : ∀ (x : PyJson) (xs : List PyJson) (l m n : Nat)
    (acc : List PyJson) (r : PyStr), itemsWf (x :: xs) → itemsSize (x :: xs) ≤ n →
    scanItems n acc (dumpsAt l x ++ (dumpsItems l xs ++ (newlineIndent m ++ ']' :: r))) =
      .ok (.list (acc ++ x :: xs), r)
  | _, _, _, _, 0, _, _, _, hs => by simp [itemsSize] at hs
  | x, [], l, m, n + 1, acc, r, hw, hs => by
    simp only [itemsWf, Bool.and_eq_true] at hw
    simp only [itemsSize] at hs
    rw [scanItems, scanOnce_dumpsAt x l n _ hw.1 (by omega) (afterValue_dumpsItems l m [] _)]
    dsimp only
    rw [dumpsItems, List.nil_append, skipWs_newlineIndent, skipWs_cons (by decide)]
    simp
  | x, y :: ys, l, m, n + 1, acc, r, hw, hs => by
    simp only [itemsWf, Bool.and_eq_true] at hw
    simp only [itemsSize] at hs
    rw [scanItems, scanOnce_dumpsAt x l n _ hw.1 (by omega) (afterValue_dumpsItems l m _ _)]
    dsimp only
    simp only [dumpsItems, List.cons_append, List.append_assoc]
    rw [skipWs_cons (by decide)]
    simp only
    rw [skipWs_newlineIndent, skipWs_dumpsAt hw.2.1,
      scanItems_dumpsItems y ys l m n (acc ++ [x]) r (by simp [itemsWf, hw.2]) (by simp only [itemsSize]; omega)]
    simp
termination_by structural _ _ _ _ n => n

theorem scanMembers_dumpsMembers : ∀ (k : PyStr) (v : PyJson) (kvs : List (PyStr × PyJson))
    (l m n : Nat) (acc : List (PyStr × PyJson)) (r : PyStr), membersWf ((k, v) :: kvs) →
    ((acc ++ (k, v) :: kvs).map Prod.fst).Nodup → membersSize ((k, v) :: kvs) ≤ n →
    scanMembers n acc (encodeString k ++ (": ".toList ++ (dumpsAt l v ++
      (dumpsMembers l kvs ++ (newlineIndent m ++ '\x7d' :: r))))) = .ok (.dict (acc ++ (k, v) :: kvs), r)
  | _, _, _, _, _, 0, _, _, _, _, hs => by simp [membersSize] at hs
  | k, v, [], l, m, n + 1, acc, r, hw, hd, hs => by
    simp only [membersWf, Bool.and_eq_true] at hw
    simp only [membersSize] at hs
    rw [scanMembers_key hw.1 (scanOnce_dumpsAt v l n _ hw.1 (by omega)
      (afterValue_dumpsMembers l m [] _)) (key_not_mem_of_nodup hd)]
    rw [dumpsMembers, List.nil_append, skipWs_newlineIndent, skipWs_cons (by decide)]
    rfl
  | k, v, (k', v') :: kvs, l, m, n + 1, acc, r, hw, hd, hs => by
    simp only [membersWf, Bool.and_eq_true] at hw
    simp only [membersSize] at hs
    rw [scanMembers_key hw.1 (scanOnce_dumpsAt v l n _ hw.1 (by omega)
      (afterValue_dumpsMembers l m _ _)) (key_not_mem_of_nodup hd)]
    simp only [dumpsMembers, List.cons_append, List.append_assoc]
    rw [skipWs_cons (by decide)]
    simp only
    rw [skipWs_newlineIndent, skipWs_encodeString, scanMembers_dumpsMembers k' v' kvs l m n (acc ++ [(k, v)]) r
      (by simp [membersWf, hw.2]) (by simpa using hd) (by simp only [membersSize] at hs ⊢; omega)]
    simp
termination_by structural _ _ _ _ _ n => n
end


mutual
theorem size_le_length : ∀ (v : PyJson) (lvl : Nat), v.wf → v.size ≤ (dumpsAt lvl v).length
  | .null, _, _ | .bool true, _, _ | .bool false, _, _ | .str _, _, _ | .list [], _, _
  | .dict [], _, _ => by simp [PyJson.size, itemsSize, membersSize, dumpsAt, encodeString]
  | .int z, _, _ => by
    obtain ⟨c, cs, hm, -⟩ := natText_shape z.natAbs
    by_cases hz : z < 0 <;> simp [PyJson.size, dumpsAt, intText, hz, hm]
  | .float _, _, hv => by simp [PyJson.wf] at hv
  | .list (x :: xs), lvl, hv => by
    simp only [PyJson.wf, itemsWf, Bool.and_eq_true] at hv
    have h1 := size_le_length x (lvl + 1) hv.1
    have h2 := itemsSize_le_length xs (lvl + 1) hv.2
    simp only [PyJson.size, itemsSize, dumpsAt, List.length_append, List.length_cons, newlineIndent]
    omega
  | .dict ((k, v) :: kvs), lvl, hv => by
    simp only [PyJson.wf, membersWf, Bool.and_eq_true] at hv
    have h1 := size_le_length v (lvl + 1) hv.2.1
    have h2 := membersSize_le_length kvs (lvl + 1) hv.2.2
    simp only [PyJson.size, membersSize, dumpsAt, List.length_append, List.length_cons, newlineIndent]
    omega

theorem itemsSize_le_length : ∀ (xs : List PyJson) (lvl : Nat), itemsWf xs →
    itemsSize xs ≤ (dumpsItems lvl xs).length
  | [], _, _ => by simp [itemsSize]
  | x :: xs, lvl, hv => by
    simp only [itemsWf, Bool.and_eq_true] at hv
    have h1 := size_le_length x lvl hv.1
    have h2 := itemsSize_le_length xs lvl hv.2
    simp only [itemsSize, dumpsItems, List.length_append, List.length_cons, newlineIndent]
    omega

theorem membersSize_le_length : ∀ (kvs : List (PyStr × PyJson)) (lvl : Nat), membersWf kvs →
    membersSize kvs ≤ (dumpsMembers lvl kvs).length
  | [], _, _ => by simp [membersSize]
  | (k, v) :: kvs, lvl, hv => by
    simp only [membersWf, Bool.and_eq_true] at hv
    have h1 := size_le_length v lvl hv.1
    have h2 := membersSize_le_length kvs lvl hv.2
    simp only [membersSize, dumpsMembers, List.length_append, List.length_cons, newlineIndent]
    omega
end

/-- `json.loads` reads back what `json.dumps(v, indent=2, separators=(',', ': '))` writes,
for every value without floats whose dicts hold each key once. -/
theorem loads_dumps (v : PyJson) (hv : v.wf) : loads (dumps v) = .ok v := by
  obtain ⟨c, t, h, -, -, -, hbom⟩ := dumpsAt_head 0 v hv
  have hread : scanOnce (2 * (dumps v).length + 1) (dumps v) = .ok (v, []) := by
    simpa using scanOnce_dumpsAt v 0 (2 * (dumps v).length + 1) [] hv
      (by have := size_le_length v 0 hv; simp only [dumps]; omega) trivial
  have hskip : skipWs (dumps v) = dumps v := by simpa using @skipWs_dumpsAt 0 v hv []
  unfold loads
  split
  · rename_i heq
    rw [dumps, h] at heq
    exact absurd (List.cons.inj heq).1 hbom
  · rw [hskip, hread]
    rfl

/-! ### No carriage return -/

theorem hexDigit_ne_cr : ∀ d, d < 16 → hexDigit d ≠ '\r' := by decide

theorem cr_not_mem_escapeChar (c : Char) : '\r' ∉ escapeChar c := by
  have hd : ∀ n, '\r' ≠ hexDigit (n % 16) := fun n h =>
    hexDigit_ne_cr (n % 16) (Nat.mod_lt _ (by norm_num)) h.symm
  unfold escapeChar
  split
  all_goals try decide
  split_ifs with hp
  · rw [List.mem_singleton]
    rintro rfl
    exact absurd hp.1 (by decide)
  all_goals simp [hex4, hd]

theorem cr_not_mem_natText (m : Nat) : '\r' ∉ natText m := by
  unfold natText
  split
  · decide
  · simp only [List.mem_map, List.mem_reverse, not_exists, not_and]
    intro d hd h
    have := (digitChar_facts d (Nat.digits_lt_base (by norm_num) hd)).1
    rw [h] at this
    change 13 = 48 + d at this
    omega

theorem cr_not_mem_newlineIndent (lvl : Nat) : '\r' ∉ newlineIndent lvl := by
  simp [newlineIndent, List.mem_replicate]

theorem cr_not_mem_encodeString (s : PyStr) : '\r' ∉ encodeString s := by
  simp [encodeString, List.mem_flatMap, cr_not_mem_escapeChar]

mutual
/-- No text `dumps` writes holds a carriage return, so reading it in text mode changes
nothing. -/
theorem cr_not_mem_dumpsAt : ∀ (lvl : Nat) (v : PyJson), v.wf → '\r' ∉ dumpsAt lvl v
  | _, .null, _ | _, .bool true, _ | _, .bool false, _ | _, .list [], _ | _, .dict [], _ => by
    simp [dumpsAt]
  | _, .int z, _ => by
    have := cr_not_mem_natText z.natAbs
    unfold dumpsAt intText; split <;> simp_all
  | _, .float _, hv => by simp [PyJson.wf] at hv
  | _, .str s, _ => cr_not_mem_encodeString s
  | lvl, .list (x :: xs), hv => by
    simp only [PyJson.wf, itemsWf, Bool.and_eq_true] at hv
    simp [dumpsAt, cr_not_mem_newlineIndent, cr_not_mem_dumpsAt (lvl + 1) x hv.1,
      cr_not_mem_dumpsItems (lvl + 1) xs hv.2]
  | lvl, .dict ((k, v) :: kvs), hv => by
    simp only [PyJson.wf, membersWf, Bool.and_eq_true] at hv
    simp [dumpsAt, cr_not_mem_newlineIndent, cr_not_mem_encodeString,
      cr_not_mem_dumpsAt (lvl + 1) v hv.2.1, cr_not_mem_dumpsMembers (lvl + 1) kvs hv.2.2]

theorem cr_not_mem_dumpsItems : ∀ (lvl : Nat) (xs : List PyJson), itemsWf xs →
    '\r' ∉ dumpsItems lvl xs
  | _, [], _ => by simp [dumpsItems]
  | lvl, x :: xs, hv => by
    simp only [itemsWf, Bool.and_eq_true] at hv
    simp [dumpsItems, cr_not_mem_newlineIndent, cr_not_mem_dumpsAt lvl x hv.1,
      cr_not_mem_dumpsItems lvl xs hv.2]

theorem cr_not_mem_dumpsMembers : ∀ (lvl : Nat) (kvs : List (PyStr × PyJson)), membersWf kvs →
    '\r' ∉ dumpsMembers lvl kvs
  | _, [], _ => by simp [dumpsMembers]
  | lvl, (k, v) :: kvs, hv => by
    simp only [membersWf, Bool.and_eq_true] at hv
    simp [dumpsMembers, cr_not_mem_newlineIndent, cr_not_mem_encodeString,
      cr_not_mem_dumpsAt lvl v hv.1, cr_not_mem_dumpsMembers lvl kvs hv.2]
end

/-! ### What `loads` reads and rejects

Each step of the scanner reads on from where it starts, so what it leaves is a suffix of
its text. From this: an object is read only up to a closing brace of the text, a lone
surrogate needs a backslash, and the fuel `loads` gives is never short. -/

theorem consChar_ok {c : Char} {x : Except JsonExc (PyStr × PyStr)} {k r : PyStr}
    (h : consChar c x = .ok (k, r)) : ∃ k', x = .ok (k', r) := by
  rcases x with e | ⟨k', r'⟩
  · cases h
  · simp only [consChar, Except.map, Except.ok.injEq, Prod.mk.injEq] at h
    exact ⟨k', by rw [h.2]⟩

theorem consChar_error {c : Char} {x : Except JsonExc (PyStr × PyStr)} {e : JsonExc}
    (h : consChar c x = .error e) : x = .error e := by
  rcases x with e' | p
  · exact h
  · cases h

/-- What one step of `scanstring` on `c :: s` can give: the closing quote, a decode error,
a lone surrogate (only after a backslash), or a character of the str and the rest read
from a suffix of `s`. -/
def ScanStringStep (n : Nat) (c : Char) (s : PyStr) (x : Except JsonExc (PyStr × PyStr)) :
    Prop :=
  x = .ok ([], s) ∨ x = .error .decode ∨ (x = .error .loneSurrogate ∧ c = '\\') ∨
    ∃ ch r, r <:+ s ∧ x = consChar ch (scanStringGo n r)

theorem scanStringGo_step (n : Nat) (c : Char) (s : PyStr) :
    ScanStringStep n c s (scanStringGo (n + 1) (c :: s)) := by
  show ScanStringStep n c s
    (if c = '"' then _ else if c = '\\' then _ else if c.toNat < 0x20 then _ else _)
  by_cases hq : c = '"'
  · rw [if_pos hq]; exact .inl rfl
  rw [if_neg hq]
  by_cases hb : c = '\\'
  · -- an escape
    rw [if_pos hb]
    rcases s with _ | ⟨e, r⟩
    · exact .inr (.inl rfl)
    dsimp only
    by_cases hu : e = 'u'
    · rw [if_pos hu]
      repeat' split
      all_goals first
        | exact .inr (.inl rfl)
        | exact .inr (.inr (.inl ⟨rfl, hb⟩))
        | exact .inr (.inr (.inr ⟨_, _, by simp [List.suffix_cons_iff], rfl⟩))
    · rw [if_neg hu]
      split
      · exact .inr (.inr (.inr ⟨_, _, List.suffix_cons _ _, rfl⟩))
      · exact .inr (.inl rfl)
  · -- a character of its own
    rw [if_neg hb]
    split
    · exact .inr (.inl rfl)
    · exact .inr (.inr (.inr ⟨_, _, List.suffix_refl _, rfl⟩))

/-- `scanstring` reads on from where it starts: what it leaves is a suffix of its text. -/
theorem scanStringGo_suffix : ∀ {n : Nat} {s k r : PyStr}, scanStringGo n s = .ok (k, r) → r <:+ s
  | 0, _, _, _, h => by simp [scanStringGo] at h
  | _ + 1, [], _, _, h => by simp [scanStringGo] at h
  | n + 1, c :: s, k, r, h => by
    rcases scanStringGo_step n c s with h' | h' | ⟨h', -⟩ | ⟨ch, r', hr', h'⟩ <;> rw [h'] at h
    · cases h; exact List.suffix_cons _ _
    · cases h
    · cases h
    · obtain ⟨k', hk⟩ := consChar_ok h
      exact (scanStringGo_suffix hk).trans (hr'.trans (List.suffix_cons _ _))

/-- `scanstring` fails with a decode error, or on a lone surrogate of a `\u` escape. -/
theorem scanStringGo_error : ∀ {n : Nat} {s : PyStr} {e : JsonExc},
    scanStringGo n s = .error e → e = .decode ∨ (e = .loneSurrogate ∧ '\\' ∈ s)
  | 0, _, _, h => by simp [scanStringGo] at h; exact .inl h.symm
  | _ + 1, [], _, h => by simp [scanStringGo] at h; exact .inl h.symm
  | n + 1, c :: s, e, h => by
    rcases scanStringGo_step n c s with h' | h' | ⟨h', hc⟩ | ⟨ch, r', hr', h'⟩ <;> rw [h'] at h
    · cases h
    · cases h; exact .inl rfl
    · cases h; exact .inr ⟨rfl, hc ▸ List.mem_cons_self _ _⟩
    · rcases scanStringGo_error (consChar_error h) with h'' | ⟨h'', hm⟩
      exacts [.inl h'', .inr ⟨h'', List.mem_cons_of_mem _ (hr'.subset hm)⟩]

theorem scanWhole_digits_suffix {neg' neg : Bool} {t ds r : PyStr}
    (h : (match t with
      | '0' :: r => some (neg', ['0'], r)
      | d :: r =>
        if d.isDigit then some (neg', d :: r.takeWhile Char.isDigit, r.dropWhile Char.isDigit)
        else none
      | [] => none) = some (neg, ds, r)) : r <:+ t := by
  split at h
  · cases h; exact List.suffix_cons _ _
  · split at h
    · cases h; exact (List.dropWhile_suffix _).trans (List.suffix_cons _ _)
    · cases h
  · cases h

theorem scanWhole_suffix {s ds r : PyStr} {neg : Bool} (h : scanWhole s = some (neg, ds, r)) :
    r <:+ s := by
  unfold scanWhole at h
  split at h
  next neg' s' heq =>
    have hs : s' <:+ s := by
      split at heq
      · cases heq; exact List.suffix_cons _ _
      · cases heq; exact List.suffix_refl _
    exact (scanWhole_digits_suffix h).trans hs

theorem scanFrac_suffix (t : PyStr) : (scanFrac t).2 <:+ t := by
  unfold scanFrac
  split
  · split
    · exact (List.dropWhile_suffix _).trans (by simp [List.suffix_cons_iff])
    · exact List.suffix_refl _
  · exact List.suffix_refl _

theorem scanExp_sign_suffix (t : PyStr) :
    (match t with
      | c :: u => if c = '+' ∨ c = '-' then ([c], u) else ([], t)
      | [] => (([] : PyStr), ([] : PyStr))).2 <:+ t := by
  split
  · split
    · exact List.suffix_cons _ _
    · exact List.suffix_refl _
  · exact List.suffix_refl _

theorem scanExp_suffix (t : PyStr) : (scanExp t).2 <:+ t := by
  unfold scanExp
  split
  · split
    · dsimp only
      split
      · exact List.suffix_refl _
      · exact (List.dropWhile_suffix _).trans ((scanExp_sign_suffix _).trans (List.suffix_cons _ _))
    · exact List.suffix_refl _
  · exact List.suffix_refl _

theorem scanNumber_suffix {s r : PyStr} {v : PyJson} (h : scanNumber s = .ok (v, r)) : r <:+ s := by
  unfold scanNumber at h
  split at h
  · cases h
  · next neg ds r0 hw =>
    have h1 := scanWhole_suffix hw
    have h2 := scanFrac_suffix r0
    have h3 := scanExp_suffix (scanFrac r0).2
    dsimp only at h
    split at h <;>
    · simp only [Except.ok.injEq, Prod.mk.injEq] at h
      rw [← h.2]
      exact h3.trans (h2.trans h1)

theorem scanNumber_error {s : PyStr} {e : JsonExc} (h : scanNumber s = .error e) : e = .decode := by
  unfold scanNumber at h
  split at h
  · cases h; rfl
  · dsimp only at h
    split at h <;> cases h

/-- One test of `scanConst`: a word read off the front, or the tests after it. -/
theorem scanConst_test {c : Prop} [Decidable c] {s : PyStr} {v₀ : PyJson} {k₀ : Nat}
    {x : Except JsonExc (PyJson × PyStr)} (h : x = scanNumber s ∨ ∃ v k, x = .ok (v, s.drop k)) :
    (if c then .ok (v₀, s.drop k₀) else x) = scanNumber s ∨
      ∃ v k, (if c then .ok (v₀, s.drop k₀) else x) = .ok (v, s.drop k) := by
  by_cases hc : c
  · exact .inr ⟨_, _, if_pos hc⟩
  · rw [if_neg hc]; exact h

/-- `scan_once` on a constant: a word it knows, read off the front, or a number. -/
theorem scanConst_cases (s : PyStr) :
    scanConst s = scanNumber s ∨ ∃ v k, scanConst s = .ok (v, s.drop k) := by
  unfold scanConst
  repeat apply scanConst_test
  exact .inl rfl

theorem scanConst_suffix {s r : PyStr} {v : PyJson} (h : scanConst s = .ok (v, r)) : r <:+ s := by
  rcases scanConst_cases s with h' | ⟨v', k, h'⟩ <;> rw [h'] at h
  · exact scanNumber_suffix h
  · cases h; exact List.drop_suffix _ _

theorem scanConst_error {s : PyStr} {e : JsonExc} (h : scanConst s = .error e) : e = .decode := by
  rcases scanConst_cases s with h' | ⟨v', k, h'⟩ <;> rw [h'] at h
  · exact scanNumber_error h
  · cases h

theorem skipWs_suffix (s : PyStr) : skipWs s <:+ s := List.dropWhile_suffix _

/-- What follows the first non-blank character is a suffix of the text, and shorter. -/
theorem suffix_of_skipWs_eq_cons {r r' : PyStr} {c : Char} (h : skipWs r = c :: r') : r' <:+ r :=
  (List.suffix_cons _ _).trans (h ▸ skipWs_suffix r)

theorem length_lt_of_skipWs_eq_cons {r r' : PyStr} {c : Char} (h : skipWs r = c :: r') :
    r'.length < r.length := by
  have := (skipWs_suffix r).length_le
  rw [h, List.length_cons] at this
  omega

mutual
/-- What `scan_once` leaves of its text is a suffix of it, and so for the loops of
`_parse_array` and `_parse_object`. -/
theorem scanOnce_suffix : ∀ {n : Nat} {s r : PyStr} {v : PyJson},
    scanOnce n s = .ok (v, r) → r <:+ s
  | 0, _, _, _, h => by simp [scanOnce] at h
  | _ + 1, [], _, _, h => by simp [scanOnce] at h
  | n + 1, c :: s, r, v, h => by
    rw [scanOnce] at h
    split_ifs at h
    · cases hs : scanString s with
      | error e => rw [hs] at h; cases h
      | ok p =>
        rw [hs] at h
        cases h
        exact (scanStringGo_suffix hs).trans (List.suffix_cons _ _)
    · split at h
      · next r' heq =>
        cases h
        exact (suffix_of_skipWs_eq_cons heq).trans (List.suffix_cons _ _)
      · exact ((scanMembers_suffix h).1.trans (skipWs_suffix s)).trans (List.suffix_cons _ _)
    · split at h
      · next r' heq =>
        cases h
        exact (suffix_of_skipWs_eq_cons heq).trans (List.suffix_cons _ _)
      · exact ((scanItems_suffix h).trans (skipWs_suffix s)).trans (List.suffix_cons _ _)
    · exact scanConst_suffix h

theorem scanItems_suffix : ∀ {n : Nat} {acc : List PyJson} {s r : PyStr} {v : PyJson},
    scanItems n acc s = .ok (v, r) → r <:+ s
  | 0, _, _, _, _, h => by simp [scanItems] at h
  | n + 1, acc, s, r, v, h => by
    rw [scanItems] at h
    split at h
    · cases h
    · next v' r1 h1 =>
      have hr1 := scanOnce_suffix h1
      split at h
      · next r2 heq =>
        cases h
        exact (suffix_of_skipWs_eq_cons heq).trans hr1
      · next r2 heq =>
        exact (((scanItems_suffix h).trans (skipWs_suffix r2)).trans
          (suffix_of_skipWs_eq_cons heq)).trans hr1
      · cases h

theorem scanMembers_suffix : ∀ {n : Nat} {acc : List (PyStr × PyJson)} {s r : PyStr}
    {v : PyJson}, scanMembers n acc s = .ok (v, r) → r <:+ s ∧ '\x7d' ∈ s
  | 0, _, _, _, _, h => by simp [scanMembers] at h
  | n + 1, acc, s, r, v, h => by
    unfold scanMembers at h
    split at h
    · cases h
    · rename_i n' s' heq
      obtain rfl : n = n' := Nat.succ.inj heq
      split at h
      · cases h
      · next k r1 h1 =>
        have hr1 := scanStringGo_suffix h1
        split at h
        · next r2 heq2 =>
          split at h
          · cases h
          · next v' r3 h3 =>
            have hr2 : skipWs r2 <:+ '"' :: s' := (skipWs_suffix r2).trans
              ((suffix_of_skipWs_eq_cons heq2).trans (hr1.trans (List.suffix_cons _ _)))
            have hr3 : r3 <:+ '"' :: s' := (scanOnce_suffix h3).trans hr2
            split at h
            · next r4 heq4 =>
              cases h
              exact ⟨(suffix_of_skipWs_eq_cons heq4).trans hr3,
                hr3.subset ((skipWs_suffix r3).subset (heq4 ▸ List.mem_cons_self _ _))⟩
            · next r4 heq4 =>
              have hs := (skipWs_suffix r4).trans ((suffix_of_skipWs_eq_cons heq4).trans hr3)
              exact ⟨(scanMembers_suffix h).1.trans hs, hs.subset (scanMembers_suffix h).2⟩
            · cases h
        · cases h
    · cases h
end

/-- An object `scan_once` reads is closed by a brace of its text. -/
theorem close_of_scanOnce {n : Nat} {t r : PyStr} {v : PyJson}
    (h : scanOnce n ('\x7b' :: t) = .ok (v, r)) : '\x7d' ∈ t := by
  rcases n with _ | n
  · simp [scanOnce] at h
  rw [scanOnce, if_neg (by decide), if_pos rfl] at h
  split at h
  · next r' heq => exact (skipWs_suffix t).subset (heq ▸ List.mem_cons_self _ _)
  · exact (skipWs_suffix t).subset (scanMembers_suffix h).2

theorem skipWs_length_le (s : PyStr) : (skipWs s).length ≤ s.length := (skipWs_suffix s).length_le

mutual
/-- Why `scan_once` fails: a decode error, a lone surrogate escape, which needs a
backslash in the text, or fuel short of twice the length of the text. -/
theorem scanOnce_error : ∀ {n : Nat} {s : PyStr} {e : JsonExc}, scanOnce n s = .error e →
    e = .decode ∨ (e = .loneSurrogate ∧ '\\' ∈ s) ∨ (e = .recursion ∧ n ≤ 2 * s.length)
  | 0, _, _, h => by simp [scanOnce] at h; exact .inr (.inr ⟨h.symm, Nat.zero_le _⟩)
  | _ + 1, [], _, h => by simp [scanOnce] at h; exact .inl h.symm
  | n + 1, c :: s, e, h => by
    have hsk := skipWs_suffix s
    rw [scanOnce] at h
    split_ifs at h
    · cases hs : scanString s with
      | ok p => rw [hs] at h; cases h
      | error e' =>
        rw [hs] at h
        cases h
        rcases scanStringGo_error hs with h' | ⟨h', hm⟩
        exacts [.inl h', .inr (.inl ⟨h', List.mem_cons_of_mem _ hm⟩)]
    · split at h
      · cases h
      · rcases scanMembers_error h with h' | ⟨h', hm⟩ | ⟨h', hn⟩
        · exact .inl h'
        · exact .inr (.inl ⟨h', List.mem_cons_of_mem _ (hsk.subset hm)⟩)
        · exact .inr (.inr ⟨h', by simp only [List.length_cons]; have := hsk.length_le; omega⟩)
    · split at h
      · cases h
      · rcases scanItems_error h with h' | ⟨h', hm⟩ | ⟨h', hn⟩
        · exact .inl h'
        · exact .inr (.inl ⟨h', List.mem_cons_of_mem _ (hsk.subset hm)⟩)
        · exact .inr (.inr ⟨h', by simp only [List.length_cons]; have := hsk.length_le; omega⟩)
    · exact .inl (scanConst_error h)

theorem scanItems_error : ∀ {n : Nat} {acc : List PyJson} {s : PyStr} {e : JsonExc},
    scanItems n acc s = .error e →
      e = .decode ∨ (e = .loneSurrogate ∧ '\\' ∈ s) ∨ (e = .recursion ∧ n ≤ 2 * s.length + 1)
  | 0, _, _, _, h => by simp [scanItems] at h; exact .inr (.inr ⟨h.symm, Nat.zero_le _⟩)
  | n + 1, acc, s, e, h => by
    rw [scanItems] at h
    split at h
    · next e' h1 =>
      cases h
      rcases scanOnce_error h1 with h' | ⟨h', hm⟩ | ⟨h', hn⟩
      exacts [.inl h', .inr (.inl ⟨h', hm⟩), .inr (.inr ⟨h', by omega⟩)]
    · next v' r1 h1 =>
      have hr1 := scanOnce_suffix h1
      split at h
      · cases h
      · next r2 heq =>
        have hs : skipWs r2 <:+ s :=
          (skipWs_suffix r2).trans ((suffix_of_skipWs_eq_cons heq).trans hr1)
        have hl : r2.length < s.length := (length_lt_of_skipWs_eq_cons heq).trans_le hr1.length_le
        rcases scanItems_error h with h' | ⟨h', hm⟩ | ⟨h', hn⟩
        · exact .inl h'
        · exact .inr (.inl ⟨h', hs.subset hm⟩)
        · exact .inr (.inr ⟨h', by have := skipWs_length_le r2; omega⟩)
      · cases h; exact .inl rfl

theorem scanMembers_error : ∀ {n : Nat} {acc : List (PyStr × PyJson)} {s : PyStr} {e : JsonExc},
    scanMembers n acc s = .error e →
      e = .decode ∨ (e = .loneSurrogate ∧ '\\' ∈ s) ∨ (e = .recursion ∧ n ≤ 2 * s.length + 1)
  | 0, _, _, _, h => by simp [scanMembers] at h; exact .inr (.inr ⟨h.symm, Nat.zero_le _⟩)
  | n + 1, acc, s, e, h => by
    unfold scanMembers at h
    split at h
    · exfalso; omega
    · rename_i n' s' heq
      obtain rfl : n = n' := Nat.succ.inj heq
      split at h
      · next e' h1 =>
        cases h
        rcases scanStringGo_error h1 with h' | ⟨h', hm⟩
        exacts [.inl h', .inr (.inl ⟨h', List.mem_cons_of_mem _ hm⟩)]
      · next k r1 h1 =>
        have hr1 := scanStringGo_suffix h1
        split at h
        · next r2 heq2 =>
          have hs2 : skipWs r2 <:+ '"' :: s' := (skipWs_suffix r2).trans
            ((suffix_of_skipWs_eq_cons heq2).trans (hr1.trans (List.suffix_cons _ _)))
          have hl2 : (skipWs r2).length + 1 ≤ s'.length := by
            have := (length_lt_of_skipWs_eq_cons heq2).trans_le hr1.length_le
            have := skipWs_length_le r2
            omega
          split at h
          · next e' h3 =>
            cases h
            rcases scanOnce_error h3 with h' | ⟨h', hm⟩ | ⟨h', hn⟩
            exacts [.inl h', .inr (.inl ⟨h', hs2.subset hm⟩),
              .inr (.inr ⟨h', by simp only [List.length_cons]; omega⟩)]
          · next v' r3 h3 =>
            have hr3 := scanOnce_suffix h3
            split at h
            · cases h
            · next r4 heq4 =>
              have hs4 : skipWs r4 <:+ '"' :: s' := (skipWs_suffix r4).trans
                ((suffix_of_skipWs_eq_cons heq4).trans (hr3.trans hs2))
              have hl4 : (skipWs r4).length ≤ s'.length := by
                have := (length_lt_of_skipWs_eq_cons heq4).trans_le hr3.length_le
                have := skipWs_length_le r4
                omega
              rcases scanMembers_error h with h' | ⟨h', hm⟩ | ⟨h', hn⟩
              · exact .inl h'
              · exact .inr (.inl ⟨h', hs4.subset hm⟩)
              · exact .inr (.inr ⟨h', by simp only [List.length_cons]; omega⟩)
            · cases h; exact .inl rfl
        · cases h; exact .inl rfl
    · cases h; exact .inl rfl
end

/-- `json.loads` never runs out of fuel: `2 * s.length + 1` covers every nesting, so the
model raises no `RecursionError`. -/
theorem loads_ne_recursion (s : PyStr) : loads s ≠ .error .recursion := by
  unfold loads
  split
  · exact fun h => by cases h
  · split
    · next e h =>
      rintro ⟨⟩
      rcases scanOnce_error h with h' | ⟨h', -⟩ | ⟨-, hn⟩
      · cases h'
      · cases h'
      · have := skipWs_length_le s
        omega
    · split <;> exact fun h => by cases h

/-- `json.loads` raises `JSONDecodeError` on the text. -/
def decodeFails (s : PyStr) : Bool :=
  match loads s with
  | .error .decode => true
  | _ => false

/-- A text that opens an object and never closes it, with no backslash, is a
`JSONDecodeError`. -/
theorem loads_unclosed {t : PyStr} (hc : '\x7d' ∉ t) (hb : '\\' ∉ t) :
    loads ('\x7b' :: t) = .error .decode := by
  have hskip : skipWs ('\x7b' :: t) = '\x7b' :: t := skipWs_cons (by decide)
  unfold loads
  split
  · next heq => exact absurd (List.cons.inj heq).1 (by decide)
  rw [hskip]
  cases h : scanOnce (2 * ('\x7b' :: t).length + 1) ('\x7b' :: t) with
  | ok p => exact absurd (close_of_scanOnce h) hc
  | error e =>
    rcases scanOnce_error h with rfl | ⟨-, hm⟩ | ⟨-, hn⟩
    · rfl
    · exact absurd ((List.mem_cons.mp hm).resolve_left (by decide)) hb
    · omega

end SkipTools
