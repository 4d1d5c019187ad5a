import SkipTools.MakeCallables

/-! What `parseType` does on any text, not only on those of its grammar: its
recursion ends, as the token measure bounds it, and on Pythons since 3.6.7 it
raises on every text but the empty one, since no successful parse takes the
NEWLINE token that `tokenizeString` keeps. -/

namespace SkipTools

/-! ### The measure -/

/-- The measure of the tokens left: the sum, over them, of two for a `'<<'` or
`'>>'`, which `pop` hands out in two halves, and one for any other token. -/
def tokenWeight : List PyStr → Nat
  | [] => 0
  | t :: r => (if t = ['<', '<'] ∨ t = ['>', '>'] then 2 else 1) + tokenWeight r

theorem tokenWeight_eq_length (ts : List PyStr) : tokenWeight ts = (expandShifts ts).length := by
  induction ts with
  | nil => rfl
  | cons t r ih =>
    rw [tokenWeight, ih, expandShifts, List.length_append]
    by_cases hl : t = ['<', '<']
    · simp [hl]
    · by_cases hg : t = ['>', '>'] <;> simp [hl, hg]

theorem tokenWeight_le (ts : List PyStr) : tokenWeight ts ≤ 2 * ts.length := by
  rw [tokenWeight_eq_length]
  exact length_expandShifts_le ts

/-- `pop` hands out the head of the expanded tokens and leaves the rest. -/
theorem expandShifts_of_pop {ts ts' : List PyStr} {t : PyStr} (h : pop ts = .ok (t, ts')) :
    expandShifts ts = t :: expandShifts ts' := by
  cases ts with
  | nil => cases h
  | cons u us =>
    simp only [pop] at h
    split_ifs at h with hl hg <;> cases h
    · simp [expandShifts, hl]
    · simp [expandShifts, hg]
    · simp [expandShifts, hl, hg]

/-- Every `pop` takes one off the measure, also on a `'<<'` or `'>>'`, which it
rewrites in place. -/
theorem tokenWeight_pop {ts ts' : List PyStr} {t : PyStr} (h : pop ts = .ok (t, ts')) :
    tokenWeight ts = tokenWeight ts' + 1 := by
  rw [tokenWeight_eq_length, tokenWeight_eq_length, expandShifts_of_pop h]
  rfl

/-- What `pop` takes is what `peek` showed. -/
theorem peek_of_pop {ts ts' : List PyStr} {t : PyStr} (h : pop ts = .ok (t, ts')) :
    peek ts = some t := by
  rw [peek_eq_head, expandShifts_of_pop h]
  rfl

/-! ### Tokens that end in NEWLINE -/

/-- A token with no dot, or of dots only: what `isType` reads no part from once a
dot follows it. Every token of a line is one. -/
def LineToken (t : PyStr) : Prop := '.' ∈ t → ∀ c ∈ t, c = '.'

/-- The tokens `tokenizeString` hands the parser, as `pop` hands them out: tokens
of the line, then the NEWLINE token `''`. -/
def EndsInNewline (ts : List PyStr) : Prop :=
  ∃ vs, expandShifts ts = vs ++ [[]] ∧ ∀ t ∈ vs, LineToken t

theorem EndsInNewline.ne_nil {ts : List PyStr} (h : EndsInNewline ts) : ts ≠ [] := by
  rintro rfl
  obtain ⟨vs, hv, -⟩ := h
  simp [expandShifts] at hv

/-- `pop` takes a token of the line, or the NEWLINE token, after which nothing is
left. -/
theorem EndsInNewline.pop {ts ts' : List PyStr} {t : PyStr} (hn : EndsInNewline ts)
    (h : pop ts = .ok (t, ts')) : (LineToken t ∧ EndsInNewline ts') ∨ (t = [] ∧ ts' = []) := by
  obtain ⟨vs, hv, hvs⟩ := hn
  rw [expandShifts_of_pop h] at hv
  cases vs with
  | nil =>
    simp only [List.nil_append, List.cons.injEq] at hv
    exact .inr ⟨hv.1, expandShifts_eq_nil.mp hv.2⟩
  | cons v vs =>
    simp only [List.cons_append, List.cons.injEq] at hv
    obtain ⟨rfl, hv⟩ := hv
    exact .inl ⟨hvs _ (List.mem_cons_self _ _), vs, hv, fun x hx => hvs x (List.mem_cons_of_mem _ hx)⟩

/-- After a dot, `isType` finds no part to read in a line token. -/
theorem isType_dot {t : PyStr} (ht : LineToken t) : isType (t ++ ['.']) = .error .indexError := by
  have hpart : (((t ++ ['.']).dropWhile (· != '.')).drop 1).takeWhile (· != '.') = [] := by
    by_cases hd : '.' ∈ t
    · obtain ⟨c, r, rfl⟩ := List.exists_cons_of_ne_nil (List.ne_nil_of_mem hd)
      have hc : c = '.' := ht hd c (List.mem_cons_self _ _)
      subst hc
      have hr : ∀ x ∈ r ++ ['.'], x = '.' := fun x hx => by
        rcases List.mem_append.mp hx with hx | hx
        · exact ht hd x (List.mem_cons_of_mem _ hx)
        · simpa using hx
      obtain ⟨d, r', hd'⟩ := List.exists_cons_of_ne_nil (show r ++ ['.'] ≠ [] by simp)
      simp [hd', hr d (hd' ▸ List.mem_cons_self _ _)]
    · have hne : ∀ x ∈ t, (x != '.') = true := fun x hx => bne_iff_ne.mpr fun h => hd (h ▸ hx)
      rw [List.dropWhile_append_of_pos hne]
      rfl
  simp only [isType, if_pos (List.mem_append_right t (List.mem_singleton_self '.')), hpart]

/-! ### What each step leaves -/

/-- The tokens after a step: the measure is lower and the NEWLINE token still
ends them. -/
def Consumes (ts ts' : List PyStr) : Prop :=
  tokenWeight ts' < tokenWeight ts ∧ (EndsInNewline ts → EndsInNewline ts')

theorem Consumes.trans {a b c : List PyStr} (hab : Consumes a b) (hbc : Consumes b c) :
    Consumes a c :=
  ⟨hbc.1.trans hab.1, fun h => hbc.2 (hab.2 h)⟩

theorem consumes_of_pop {ts ts' : List PyStr} {t : PyStr} (h : pop ts = .ok (t, ts'))
    (ht : t ≠ []) : Consumes ts ts' := by
  refine ⟨by rw [tokenWeight_pop h]; omega, fun hn => ?_⟩
  rcases hn.pop h with ⟨-, h'⟩ | ⟨rfl, -⟩
  exacts [h', absurd rfl ht]

/-- `parseMut` takes a `mutable` or `readonly` token, or nothing. -/
theorem parseMut_ok {ts ts' : List PyStr} {m : PyStr} (h : parseMut ts = .ok (m, ts')) :
    (m = "frozen".toList ∧ ts' = ts) ∨
      ((m = "mutable".toList ∨ m = "readonly".toList) ∧ pop ts = .ok (m, ts')) := by
  unfold parseMut at h
  split_ifs at h with hp
  · refine .inr ⟨?_, h⟩
    have := peek_of_pop h
    rcases hp with hp | hp <;> rw [hp, Option.some.injEq] at this <;> simp [← this]
  · cases h
    exact .inl ⟨rfl, rfl⟩

/-- The qualifier `parseMut` returns is one `frozenKW` knows. -/
theorem frozenKW_of_parseMut {ts ts' : List PyStr} {m : PyStr} (h : parseMut ts = .ok (m, ts')) :
    ∃ kw, frozenKW m = .ok kw := by
  rcases parseMut_ok h with ⟨rfl, -⟩ | ⟨rfl | rfl, -⟩ <;> exact ⟨_, rfl⟩

theorem parseMut_weight {ts ts' : List PyStr} {m : PyStr} (h : parseMut ts = .ok (m, ts')) :
    tokenWeight ts' ≤ tokenWeight ts ∧ (EndsInNewline ts → EndsInNewline ts') := by
  rcases parseMut_ok h with ⟨-, rfl⟩ | ⟨hm, hp⟩
  · exact ⟨le_rfl, id⟩
  · exact (consumes_of_pop hp (by rcases hm with rfl | rfl <;> decide)).imp_left le_of_lt

/-- What follows `parseMut` still consumes from where `parseMut` started. -/
theorem Consumes.of_parseMut {ts t1 t2 : List PyStr} {m : PyStr} (hm : parseMut ts = .ok (m, t1))
    (h : Consumes t1 t2) : Consumes ts t2 :=
  ⟨lt_of_lt_of_le h.1 (parseMut_weight hm).1, fun hn => h.2 ((parseMut_weight hm).2 hn)⟩

/-- A `pop` of the token `peek` showed, which is not the NEWLINE token. -/
theorem consumes_of_peek {ts ts' : List PyStr} {t x : PyStr} (hpk : peek ts = some x)
    (hx : x ≠ []) (h : pop ts = .ok (t, ts')) : Consumes ts ts' := by
  rw [peek_of_pop h, Option.some.injEq] at hpk
  exact consumes_of_pop h (hpk ▸ hx)

/-- `parseT` takes at least one token. It takes the NEWLINE token only where
`isType` then fails on the name it returns. -/
theorem parseT_ok {ts ts' : List PyStr} {t : PyStr} (h : parseT ts = .ok (t, ts')) :
    tokenWeight ts' < tokenWeight ts ∧
      (EndsInNewline ts → EndsInNewline ts' ∨ (ts' = [] ∧ isType t = .error .indexError)) := by
  unfold parseT at h
  obtain ⟨⟨t1, ts1⟩, h1, h⟩ := except_bind_eq_ok h
  have hw1 := tokenWeight_pop h1
  dsimp only at h
  split_ifs at h with hd
  · obtain ⟨⟨d, ts2⟩, h2, h⟩ := except_bind_eq_ok h
    obtain ⟨⟨n, ts3⟩, h3, h⟩ := except_bind_eq_ok h
    dsimp only at h h3
    cases h
    have hw2 := tokenWeight_pop h2
    have hw3 := tokenWeight_pop h3
    refine ⟨by omega, fun hn => ?_⟩
    rcases hn.pop h1 with ⟨ht1, hn1⟩ | ⟨-, rfl⟩
    · rcases ((consumes_of_peek hd (by decide) h2).2 hn1).pop h3 with ⟨-, hn3⟩ | ⟨rfl, rfl⟩
      · exact .inl hn3
      · exact .inr ⟨rfl, by simpa using isType_dot ht1⟩
    · cases hd
  · cases h
    refine ⟨by omega, fun hn => ?_⟩
    rcases hn.pop h1 with ⟨-, hn1⟩ | ⟨rfl, rfl⟩
    · exact .inl hn1
    · exact .inr ⟨rfl, rfl⟩

/-- A name after which the tokens are not used up, or one `isType` reads: then
`parseT` has not taken the NEWLINE token. -/
theorem parseT_consumes {ts ts' : List PyStr} {t : PyStr} (h : parseT ts = .ok (t, ts'))
    (hr : ts' ≠ [] ∨ ∃ b, isType t = .ok b) : Consumes ts ts' := by
  obtain ⟨hw, hn⟩ := parseT_ok h
  refine ⟨hw, fun h' => (hn h').resolve_right ?_⟩
  rintro ⟨rfl, hi⟩
  rcases hr with hr | ⟨b, hb⟩
  · exact hr rfl
  · rw [hi] at hb
    cases hb

/-! ### Runs once the fuel suffices -/

/-- A result that is a value or an exception Python raises there: `IndexError` or
`AssertionError`, and not the fuel of the model running out. -/
def Settled {α : Type} (r : Except ParseExc α) : Prop :=
  ∀ e, r = .error e → e = .indexError ∨ e = .assertionError

theorem Settled.ok {α : Type} (a : α) : Settled (Except.ok a : Except ParseExc α) :=
  fun _ h => nomatch h

theorem Settled.assertion {α : Type} : Settled (throw .assertionError : Except ParseExc α) :=
  fun _ h => by cases h; exact .inr rfl

theorem Settled.bind {α β : Type} {x : Except ParseExc α} {f : α → Except ParseExc β}
    (hx : Settled x) (hf : ∀ a, x = .ok a → Settled (f a)) : Settled (x >>= f) := by
  cases x with
  | error e => exact fun _ h => by cases h; exact hx e rfl
  | ok a => exact hf a rfl

theorem settled_pop (ts : List PyStr) : Settled (pop ts) := by
  cases ts with
  | nil => exact fun _ h => by cases h; exact .inl rfl
  | cons t r => simp only [pop]; split_ifs <;> exact Settled.ok _

theorem settled_parseMut (ts : List PyStr) : Settled (parseMut ts) := by
  unfold parseMut
  split_ifs
  exacts [settled_pop ts, Settled.ok _]

theorem settled_parseT (ts : List PyStr) : Settled (parseT ts) := by
  unfold parseT
  refine Settled.bind (settled_pop ts) fun ⟨_, t1⟩ _ => ?_
  dsimp only
  split_ifs
  · exact Settled.bind (settled_pop t1) fun ⟨_, t2⟩ _ =>
      Settled.bind (settled_pop t2) fun _ _ => Settled.ok _
  · exact Settled.ok _

theorem settled_isType (t : PyStr) : Settled (isType t) := by
  unfold isType
  split
  · exact fun _ h => by cases h; exact .inl rfl
  · exact Settled.ok _

/-- A settled result whose success leaves tokens that `Q` describes. -/
def Outcome {α : Type} (Q : List PyStr → Prop) (r : Except ParseExc (α × List PyStr)) : Prop :=
  Settled r ∧ ∀ v ts', r = .ok (v, ts') → Q ts'

theorem Outcome.bind {α β : Type} {Q : List PyStr → Prop} {x : Except ParseExc α}
    {f : α → Except ParseExc (β × List PyStr)} (hx : Settled x)
    (hf : ∀ a, x = .ok a → Outcome Q (f a)) : Outcome Q (x >>= f) := by
  cases x with
  | error e => exact ⟨fun _ h => by cases h; exact hx e rfl, fun _ _ h => nomatch h⟩
  | ok a => exact hf a rfl

theorem Outcome.pure {α : Type} {Q : List PyStr → Prop} (v : α) {ts : List PyStr} (h : Q ts) :
    Outcome Q (Pure.pure (v, ts)) :=
  ⟨Settled.ok _, fun _ _ h' => by cases h'; exact h⟩

theorem Outcome.ite {α : Type} {Q : List PyStr → Prop} {c : Prop} [Decidable c]
    {a b : Except ParseExc (α × List PyStr)} (ha : c → Outcome Q a) (hb : ¬ c → Outcome Q b) :
    Outcome Q (if c then a else b) := by
  split
  exacts [ha ‹_›, hb ‹_›]

theorem Outcome.assertion {α β : Type} {Q : List PyStr → Prop} (f : α → Except ParseExc (β × List PyStr)) :
    Outcome Q (throw .assertionError >>= f) :=
  Outcome.bind Settled.assertion fun _ h => nomatch h

variable (fr : Bool)

/-- With fuel above twice the measure, a parse raises only `IndexError`
or `AssertionError`, and a success has taken tokens and left the NEWLINE token
at the end. -/
theorem parse_outcome : ∀ n,
    (∀ ts, 2 * tokenWeight ts + 1 ≤ n → Outcome (Consumes ts) (parseExpr fr n ts)) ∧
    (∀ ts, 2 * tokenWeight ts + 2 ≤ n → Outcome (Consumes ts) (parseExprSeq fr n ts))
  | 0 => ⟨fun _ h => absurd h (by omega), fun _ h => absurd h (by omega)⟩
  | k + 1 => by
    have ih := parse_outcome k
    refine ⟨fun ts hn => ?_, fun ts hn => ?_⟩
    · rw [parseExpr]
      refine Outcome.bind (settled_parseMut ts) fun ⟨m, t1⟩ hm => ?_
      have hw1 := (parseMut_weight hm).1
      obtain ⟨kw, hkw⟩ := frozenKW_of_parseMut hm
      refine Outcome.ite (fun hpk => ?_) fun _ => Outcome.ite (fun hpk => ?_) fun _ => ?_
      · -- a tuple
        refine Outcome.bind (settled_pop t1) fun ⟨_, t2⟩ hp => ?_
        have h12 := consumes_of_peek hpk (by decide) hp
        have hs := ih.2 t2 (by have := h12.1; omega)
        refine Outcome.bind hs.1 fun ⟨args, t3⟩ h3 => Outcome.bind (settled_pop t3) fun ⟨c, t4⟩ hc => ?_
        refine Outcome.ite (fun _ => Outcome.assertion _) fun hcl => ?_
        have h34 := consumes_of_pop hc (by rintro rfl; exact hcl (by decide))
        exact Outcome.bind (Settled.ok _) fun _ _ => Outcome.bind (hkw ▸ Settled.ok _) fun _ _ =>
          Outcome.pure _ ((h12.trans ((hs.2 _ _ h3).trans h34)).of_parseMut hm)
      · -- an option
        refine Outcome.bind (settled_pop t1) fun ⟨_, t2⟩ hp => ?_
        have h12 := consumes_of_peek hpk (by decide) hp
        have he := ih.1 t2 (by have := h12.1; omega)
        exact Outcome.bind he.1 fun ⟨targ, t3⟩ h3 => Outcome.bind (hkw ▸ Settled.ok _) fun _ _ =>
          Outcome.pure _ ((h12.trans (he.2 _ _ h3)).of_parseMut hm)
      · -- a name, with or without arguments
        refine Outcome.bind (settled_parseT t1) fun ⟨t, t2⟩ hT => Outcome.ite (fun hpk => ?_) fun _ => ?_
        on_goal 1 =>
          have h12 : Consumes t1 t2 := parseT_consumes hT (.inl (by rintro rfl; cases hpk))
          refine Outcome.bind (settled_pop t2) fun ⟨_, t3⟩ hp => ?_
          have h23 := consumes_of_peek hpk (by decide) hp
          have hs := ih.2 t3 (by have := h12.1; have := h23.1; omega)
          refine Outcome.bind hs.1 fun ⟨targs, t4⟩ h4 => Outcome.bind (settled_pop t4) fun ⟨c, t5⟩ hc => ?_
          refine Outcome.ite (fun _ => Outcome.assertion _) fun hcl => ?_
          have hrest : ∀ b, isType t = .ok b → Consumes ts t5 := fun _ _ =>
            (h12.trans (h23.trans ((hs.2 _ _ h4).trans
              (consumes_of_pop hc (by rintro rfl; exact hcl (by decide)))))).of_parseMut hm
          refine Outcome.bind (Settled.ok _) fun _ _ => ?_
        on_goal 2 =>
          have hrest : ∀ b, isType t = .ok b → Consumes ts t2 := fun b hb =>
            (parseT_consumes hT (.inr ⟨b, hb⟩)).of_parseMut hm
        all_goals
          refine Outcome.bind (Settled.ok _) fun _ hy => Outcome.bind (settled_isType t) fun b hb => ?_
          cases hy
          refine Outcome.ite (fun _ => Outcome.ite (fun _ => Outcome.assertion _) fun _ =>
            Outcome.bind (Settled.ok _) fun _ _ => Outcome.pure _ (hrest b hb)) fun _ => ?_
          split
          · exact Outcome.pure _ (hrest b hb)
          · exact Outcome.bind (hkw ▸ Settled.ok _) fun _ _ => Outcome.pure _ (hrest b hb)
    · rw [parseExprSeq]
      have he := ih.1 ts (by omega)
      refine Outcome.bind he.1 fun ⟨e, t1⟩ h1 => ?_
      have h01 := he.2 _ _ h1
      refine Outcome.ite (fun _ => Outcome.pure _ h01) fun hpk =>
        Outcome.bind (settled_pop t1) fun ⟨_, t2⟩ hp => ?_
      have h12 := consumes_of_peek (not_not.mp hpk) (by decide) hp
      have hs := ih.2 t2 (by have := h01.1; have := h12.1; omega)
      exact Outcome.bind hs.1 fun ⟨es, t3⟩ h3 =>
        Outcome.pure _ (h01.trans (h12.trans (hs.2 _ _ h3)))

/-! ### More fuel changes nothing that did not run out -/

/-- `r` is `r'`, unless it is the model's fuel running out. -/
def Refines {α : Type} (r r' : Except ParseExc α) : Prop := r = .error .recursionError ∨ r = r'

theorem Refines.refl {α : Type} (r : Except ParseExc α) : Refines r r := .inr rfl

theorem Refines.trans {α : Type} {a b c : Except ParseExc α} (hab : Refines a b)
    (hbc : Refines b c) : Refines a c := by
  rcases hab with h | rfl
  · exact .inl h
  · exact hbc

theorem Refines.eq {α : Type} {r r' : Except ParseExc α} (h : Refines r r') (hs : Settled r) :
    r = r' :=
  h.resolve_left fun hr => by rcases hs _ hr with h | h <;> cases h

theorem Refines.bind {α β : Type} {x x' : Except ParseExc α} {f f' : α → Except ParseExc β}
    (hx : Refines x x') (hf : ∀ a, Refines (f a) (f' a)) : Refines (x >>= f) (x' >>= f') := by
  rcases hx with rfl | rfl
  · exact .inl rfl
  · cases x with
    | error e => exact .inr rfl
    | ok a => exact hf a

theorem Refines.ite {α : Type} {c : Prop} [Decidable c] {a a' b b' : Except ParseExc α}
    (ha : c → Refines a a') (hb : ¬ c → Refines b b') :
    Refines (if c then a else b) (if c then a' else b') := by
  split
  exacts [ha ‹_›, hb ‹_›]

/-- One more unit of fuel changes no result that did not run out: the recursive
calls are the only places the fuel is read. -/
theorem parse_refines_succ : ∀ n ts,
    Refines (parseExpr fr n ts) (parseExpr fr (n + 1) ts) ∧
      Refines (parseExprSeq fr n ts) (parseExprSeq fr (n + 1) ts)
  | 0, _ => ⟨.inl rfl, .inl rfl⟩
  | k + 1, ts => by
    have ih := parse_refines_succ k
    constructor
    · rw [parseExpr, parseExpr]
      refine Refines.bind (.refl _) fun ⟨m, t1⟩ =>
        Refines.ite (fun _ => ?_) fun _ => Refines.ite (fun _ => ?_) fun _ => ?_
      · exact Refines.bind (.refl _) fun ⟨_, t2⟩ => Refines.bind (ih t2).2 fun _ => .refl _
      · exact Refines.bind (.refl _) fun ⟨_, t2⟩ => Refines.bind (ih t2).1 fun _ => .refl _
      · refine Refines.bind (.refl _) fun ⟨t, t2⟩ => Refines.ite (fun _ => ?_) fun _ => .refl _
        exact Refines.bind (.refl _) fun ⟨_, t3⟩ => Refines.bind (ih t3).2 fun _ => .refl _
    · rw [parseExprSeq, parseExprSeq]
      exact Refines.bind (ih ts).1 fun ⟨e, t1⟩ => Refines.ite (fun _ => .refl _) fun _ =>
        Refines.bind (.refl _) fun ⟨_, t2⟩ => Refines.bind (ih t2).2 fun _ => .refl _

theorem parse_refines_add (n : Nat) (ts : List PyStr) : ∀ d,
    Refines (parseExpr fr n ts) (parseExpr fr (n + d) ts) ∧
      Refines (parseExprSeq fr n ts) (parseExprSeq fr (n + d) ts)
  | 0 => ⟨.refl _, .refl _⟩
  | d + 1 =>
    ⟨(parse_refines_add n ts d).1.trans (parse_refines_succ fr (n + d) ts).1,
      (parse_refines_add n ts d).2.trans (parse_refines_succ fr (n + d) ts).2⟩

/-- A parse that succeeds, with any fuel, has taken tokens. -/
theorem parse_ok_consumes (n : Nat) (ts : List PyStr) :
    (∀ v ts', parseExpr fr n ts = .ok (v, ts') → Consumes ts ts') ∧
      ∀ vs ts', parseExprSeq fr n ts = .ok (vs, ts') → Consumes ts ts' := by
  have hr := parse_refines_add fr n ts (2 * tokenWeight ts + 2)
  have ho := parse_outcome fr (n + (2 * tokenWeight ts + 2))
  refine ⟨fun v ts' h => (ho.1 ts (by omega)).2 v ts' ?_, fun vs ts' h => (ho.2 ts (by omega)).2 vs ts' ?_⟩
  · rcases hr.1 with h' | h'
    · rw [h] at h'; cases h'
    · rw [← h', h]
  · rcases hr.2 with h' | h'
    · rw [h] at h'; cases h'
    · rw [← h', h]

/-! ### `parseType` on any text -/

theorem lineToken_of_forall_eq {t : PyStr} {c : Char} (h : ∀ x ∈ t, x = c) : LineToken t :=
  fun hd x hx => (h x hx).trans (h '.' hd).symm

theorem flushName_lineToken {cur : PyStr} (hcur : '.' ∉ cur) : ∀ t ∈ flushName cur, LineToken t := by
  intro t ht
  rw [flushName] at ht
  split_ifs at ht
  · cases ht
  · exact List.mem_singleton.mp ht ▸ fun h => absurd h hcur

/-- An operator is one character, or one character repeated. -/
theorem opToken_lineToken (c : Char) (s : PyStr) : ∀ t ∈ (opToken c s).1, LineToken t := by
  intro t ht
  rw [opToken] at ht
  split_ifs at ht <;> simp at ht <;> subst ht
  · exact lineToken_of_forall_eq (c := c) (by simp)
  · exact lineToken_of_forall_eq (c := '.') (by simp)
  · exact lineToken_of_forall_eq (c := c) (by simp)

/-- Every token `lexLine` makes, from a name read so far without a dot, is a line
token: a name, or an operator. -/
theorem lexLine_lineToken (cur s : PyStr) (hcur : '.' ∉ cur) : ∀ t ∈ lexLine cur s, LineToken t := by
  induction cur, s using lexLine.induct with
  | case1 cur => rw [lexLine_nil]; exact flushName_lineToken hcur
  | case2 cur c s hc ih =>
    rw [lexLine_name_char _ _ hc]
    refine ih fun h => (List.mem_append.mp h).elim hcur fun h => ?_
    rw [← List.mem_singleton.mp h] at hc
    cases hc
  | case3 cur c s hc ih =>
    rw [lexLine_op _ _ (by simpa using hc)]
    intro t ht
    simp only [List.mem_append, Option.mem_toList] at ht
    rcases ht with (ht | ht) | ht
    exacts [flushName_lineToken hcur t ht, opToken_lineToken c s t ht, ih (List.not_mem_nil _) t ht]

/-- The tokens of a line, as `pop` hands them out, are line tokens. -/
theorem lineToken_of_mem_expandShifts {ts : List PyStr} (h : ∀ t ∈ ts, LineToken t) :
    ∀ t ∈ expandShifts ts, LineToken t := by
  induction ts with
  | nil => simp
  | cons u us ih =>
    intro t ht
    simp only [expandShifts, List.mem_append] at ht
    rcases ht with ht | ht
    · split_ifs at ht <;> simp only [List.mem_cons, List.not_mem_nil, or_false, or_self] at ht <;>
        subst ht
      · exact lineToken_of_forall_eq (c := '<') (by simp)
      · exact lineToken_of_forall_eq (c := '>') (by simp)
      · exact h _ (List.mem_cons_self _ _)
    · exact ih (fun x hx => h x (List.mem_cons_of_mem _ hx)) t ht

/-- What `tokenizeString` hands the parser ends in the NEWLINE token. -/
theorem endsInNewline_lexLine (s : PyStr) : EndsInNewline (lexLine [] s ++ [[]]) :=
  ⟨expandShifts (lexLine [] s), by rw [expandShifts_append]; rfl,
    lineToken_of_mem_expandShifts (lexLine_lineToken [] s (List.not_mem_nil _))⟩

/-- The fuel `parseTypeTokens` gives covers twice the measure of a token list that
ends in the NEWLINE token. -/
theorem fuel_covers_newline (us : List PyStr) :
    2 * tokenWeight (us ++ [[]]) + 1 ≤ 4 * (us ++ [[]]).length := by
  have h := tokenWeight_le us
  have h1 : (expandShifts [[]]).length = 1 := rfl
  rw [tokenWeight_eq_length] at h ⊢
  rw [expandShifts_append, List.length_append, List.length_append, h1, List.length_singleton]
  omega

/-- On tokens that end in the NEWLINE token, `parseTypeTokens` raises: the parse
fails, or leaves the NEWLINE token to `assert not tokens`. -/
theorem parseTypeTokens_raises (fr : Bool) {us : List PyStr} (hn : EndsInNewline (us ++ [[]])) :
    parseTypeTokens fr (us ++ [[]]) = .error .assertionError ∨
      parseTypeTokens fr (us ++ [[]]) = .error .indexError := by
  have ho := (parse_outcome fr _).1 _ (fuel_covers_newline us)
  unfold parseTypeTokens
  cases h : parseExpr fr (4 * (us ++ [[]]).length) (us ++ [[]]) with
  | error e =>
    rcases ho.1 e h with rfl | rfl
    exacts [.inr rfl, .inl rfl]
  | ok r =>
    obtain ⟨v, rest⟩ := r
    have hne := ((ho.2 v rest h).2 hn).ne_nil
    exact .inl (by simp [hne]; rfl)

/-- `parseType` returns on no text but the empty one, whether or not its tokens
derive from the grammar: it raises `TokenError` where the brackets do not
balance, and `AssertionError` or `IndexError` everywhere else. -/
theorem parse_type_raises (fr : Bool) (t : PyStr) (ht : t ≠ []) :
    (parenlev t ≠ 0 → parseType t fr = .error .tokenError) ∧
      (parenlev t = 0 →
        parseType t fr = .error .assertionError ∨ parseType t fr = .error .indexError) := by
  refine ⟨fun hp => by rw [parseType, if_neg ht, tokenizeString, if_neg hp]; rfl, fun hp => ?_⟩
  rw [parseType, if_neg ht, tokenizeString, if_pos hp, except_ok_bind]
  rcases parseTypeTokens_raises fr (endsInNewline_lexLine t) with h | h <;> rw [h]
  exacts [.inl rfl, .inr rfl]

/-- `Foo<,>`: a comma where `T` is required. -/
theorem comma_type_raises :
    "Foo<,>".toList ≠ [] ∧
      (parenlev "Foo<,>".toList ≠ 0 → parseType "Foo<,>".toList true = .error .tokenError) ∧
      (parenlev "Foo<,>".toList = 0 → parseType "Foo<,>".toList true = .error .assertionError ∨
        parseType "Foo<,>".toList true = .error .indexError) :=
  ⟨by decide, parse_type_raises true _ (by decide)⟩

/-- The empty text returns `None`; a lone bracket raises `TokenError`; and with the
tokens Pythons before 3.6.7 gave, which stop before NEWLINE, a lone comma is
taken for a name and returned. -/
theorem malformed_types_not_rejected :
    parseType [] true = .ok none ∧ parseType ['('] true = .error .tokenError ∧
      parseTypeTokens true (lexLine [] [',']) = .ok [','] := by
  refine ⟨rfl, by decide, ?_⟩
  rw [lexLine_single [] (by decide), lexLine_nil, flushName_nil]
  decide

-- A bare name `mutable`, which the grammar's `T` allows, is taken by `parseMut`, and
-- `parseT` finds no token left, even with the tokens before NEWLINE.
example : parseTypeTokens true (lexLine [] "mutable".toList) = .error .indexError := by
  rw [lexLine_ident (by decide)]
  decide

/-- `parseType` ends on every text. `pop` takes one off the measure, a split
`'<<'` or `'>>'` included; a call of `parseExpr` or `parseExprSeq` that returns
has popped; so a fuel of twice the measure is never used up, more fuel changes
nothing, and `parseType` never runs out of it. -/
theorem parse_type_terminates (fr : Bool) :
    (∀ ts t ts', pop ts = .ok (t, ts') → tokenWeight ts' < tokenWeight ts) ∧
    (∀ n ts v ts', parseExpr fr n ts = .ok (v, ts') → tokenWeight ts' < tokenWeight ts) ∧
    (∀ n ts vs ts', parseExprSeq fr n ts = .ok (vs, ts') → tokenWeight ts' < tokenWeight ts) ∧
    (∀ n ts, 2 * tokenWeight ts + 1 ≤ n → parseExpr fr n ts ≠ .error .recursionError ∧
      ∀ m, n ≤ m → parseExpr fr m ts = parseExpr fr n ts) ∧
    ∀ s, parseType s fr ≠ .error .recursionError := by
  refine ⟨fun ts t ts' h => by rw [tokenWeight_pop h]; omega,
    fun n ts v ts' h => ((parse_ok_consumes fr n ts).1 v ts' h).1,
    fun n ts vs ts' h => ((parse_ok_consumes fr n ts).2 vs ts' h).1,
    fun n ts hn => ⟨fun h => ?_, fun m hm => ?_⟩, fun s => ?_⟩
  · rcases ((parse_outcome fr n).1 ts hn).1 _ h with h' | h' <;> cases h'
  · obtain ⟨d, rfl⟩ := Nat.exists_eq_add_of_le hm
    exact ((parse_refines_add fr n ts d).1.eq ((parse_outcome fr n).1 ts hn).1).symm
  · rw [parseType, tokenizeString]
    split_ifs with hs hp
    · rintro ⟨⟩
    · rw [except_ok_bind]
      rcases parseTypeTokens_raises fr (endsInNewline_lexLine s) with h | h <;> rw [h] <;> rintro ⟨⟩
    · rintro ⟨⟩

end SkipTools
