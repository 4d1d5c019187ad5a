import Mathlib.Data.List.Basic

/-! The `ThreadPoolExecutor` that `run_test_program` of tests/src/frontend/verify.py
submits every test to, and the loop `[f.result() for f in futures]` that collects the
futures. Idle workers take work items oldest first, at most `max_workers` of them run
at once, and tasks finish in any order; the main thread waits on the futures in the
order they were submitted. Over every interleaving the collecting loop ends as the
plain loop over the tasks would, and from every point it can still end. -/

namespace SkipTools

/-- A future of the pool: its work item still queued, taken by a worker, or its task
finished with a value or an exception. -/
inductive FutureState (ε α : Type)
  | pending
  | running
  | finished (r : Except ε α)

namespace FutureState

variable {ε α : Type}

def isPending : FutureState ε α → Bool
  | .pending => true
  | _ => false

def isRunning : FutureState ε α → Bool
  | .running => true
  | _ => false

end FutureState

/-- The pool and the main thread: the state of each future in submission order, what
`f.result()` has returned so far, and how the collecting loop ended. -/
structure Pool (ε α : Type) where
  futures : List (FutureState ε α)
  collected : List α
  outcome : Option (Except ε (List α))

/-- One step of an interleaving: an idle worker takes the oldest queued work item, a
worker finishes the task of a future, or the main thread calls `result()` on the
next future (or leaves the loop after the last one). -/
inductive PoolEvent
  | take
  | finish (i : Nat)
  | result

variable {ε α : Type}

namespace Pool

/-- Right after `executor.submit(run, f)` for each of the `n` files. -/
def init (n : Nat) : Pool ε α := ⟨List.replicate n .pending, [], none⟩

/-- The number of tasks the workers are running. -/
def busy (p : Pool ε α) : Nat := p.futures.countP FutureState.isRunning

section Step

variable (maxWorkers : Nat) (results : List (Except ε α))

/-- One event, with `results` the outcome of each task; an event that is not enabled
(no idle worker or no queued item, a task that is not running, a future that is not
done) leaves the state as it is. -/
def step (p : Pool ε α) : PoolEvent → Pool ε α
  | .take =>
    match p.futures.findIdx? FutureState.isPending with
    | some i => if p.busy < maxWorkers then { p with futures := p.futures.set i .running } else p
    | none => p
  | .finish i =>
    match p.futures[i]?, results[i]? with
    | some .running, some r => { p with futures := p.futures.set i (.finished r) }
    | _, _ => p
  | .result =>
    match p.outcome, p.futures[p.collected.length]? with
    | some _, _ => p
    | none, none => { p with outcome := some (.ok p.collected) }
    | none, some (.finished (.ok a)) => { p with collected := p.collected ++ [a] }
    | none, some (.finished (.error e)) => { p with outcome := some (.error e) }
    | none, some _ => p

def run (p : Pool ε α) (evs : List PoolEvent) : Pool ε α := evs.foldl (step maxWorkers results) p

@[simp] theorem run_nil (p : Pool ε α) : p.run maxWorkers results [] = p := rfl

@[simp] theorem run_cons (p : Pool ε α) (ev : PoolEvent) (evs : List PoolEvent) :
    p.run maxWorkers results (ev :: evs) = (p.step maxWorkers results ev).run maxWorkers results evs :=
  rfl

theorem run_append (p : Pool ε α) (evs evs' : List PoolEvent) :
    p.run maxWorkers results (evs ++ evs') =
      (p.run maxWorkers results evs).run maxWorkers results evs' :=
  List.foldl_append _ _ _ _

end Step

end Pool

/-- The plain loop over the tasks: their values in order, or the exception of the
first task, in submission order, that raised. -/
def seqCollect : List (Except ε α) → Except ε (List α)
  | [] => .ok []
  | .ok a :: rs => (seqCollect rs).map (a :: ·)
  | .error e :: _ => .error e

theorem seqCollect_append_ok (l : List α) (rs : List (Except ε α)) :
    seqCollect (l.map .ok ++ rs) = (seqCollect rs).map (l ++ ·) := by
  induction l with
  | nil => rw [List.map_nil, List.nil_append]; cases seqCollect rs <;> rfl
  | cons a l ih =>
    rw [List.map_cons, List.cons_append, seqCollect, ih]
    cases seqCollect rs <;> rfl

theorem seqCollect_eq_ok_iff (rs : List (Except ε α)) (l : List α) :
    seqCollect rs = .ok l ↔ rs = l.map .ok := by
  induction rs generalizing l with
  | nil => cases l <;> simp [seqCollect]
  | cons r rs ih =>
    cases r with
    | error e => cases l <;> simp [seqCollect]
    | ok a =>
      rw [seqCollect]
      cases l with
      | nil => cases seqCollect rs <;> simp [Except.map]
      | cons b l =>
        rw [List.map_cons, List.cons.injEq, Except.ok.injEq, ← ih]
        cases seqCollect rs <;> simp [Except.map]

/-- `List.countP_set` without the truncated subtraction. -/
theorem countP_set_add {β : Type} (q : β → Bool) (l : List β) (i : Nat) (a : β)
    (hi : i < l.length) :
    (l.set i a).countP q + (if q l[i] then 1 else 0) = l.countP q + (if q a then 1 else 0) := by
  have hle : (if q l[i] then 1 else 0) ≤ l.countP q := by
    split
    · exact List.countP_pos_iff.mpr ⟨_, List.getElem_mem hi, ‹_›⟩
    · exact Nat.zero_le _
  rw [List.countP_set _ _ _ _ hi]
  omega

namespace Pool

section Inv

variable (maxWorkers : Nat) (results : List (Except ε α))

/-- What holds at every point of an interleaving: a finished future holds its own
task's outcome, the main thread has collected the values of the first tasks in
order, a loop that ended ended as the plain loop does, and no more than
`maxWorkers` tasks run. -/
structure Inv (p : Pool ε α) : Prop where
  length : p.futures.length = results.length
  finished : ∀ (i : Nat) (r : Except ε α), p.futures[i]? = some (.finished r) → results[i]? = some r
  collected : results.take p.collected.length = p.collected.map .ok
  outcome : ∀ o, p.outcome = some o → o = seqCollect results
  bound : p.busy ≤ maxWorkers

theorem inv_init : (init results.length : Pool ε α).Inv maxWorkers results where
  length := List.length_replicate _ _
  finished i r h := by
    rw [init, List.getElem?_replicate] at h
    split at h <;> cases h
  collected := rfl
  outcome o h := by cases h
  bound := by simp [busy, init, List.countP_replicate, FutureState.isRunning]

variable {maxWorkers results}

theorem Inv.step_take {p : Pool ε α} (hp : p.Inv maxWorkers results) :
    (p.step maxWorkers results .take).Inv maxWorkers results := by
  simp only [step]
  split
  · next i hi =>
    split
    · next hb =>
      obtain ⟨hlt, hpend, -⟩ := List.findIdx?_eq_some_iff_getElem.mp hi
      refine ⟨by simp [hp.length], fun j r h => ?_, hp.collected, hp.outcome, ?_⟩
      · rw [List.getElem?_set] at h
        split_ifs at h with hij
        · cases h
        · exact hp.finished j r h
      · have h := countP_set_add FutureState.isRunning p.futures i .running hlt
        have hnr : p.futures[i].isRunning = false := by
          revert hpend; cases p.futures[i] <;> simp [FutureState.isPending, FutureState.isRunning]
        simp only [hnr, FutureState.isRunning, if_true, Bool.false_eq_true, if_false] at h
        simp only [busy] at hb ⊢
        omega
    · exact hp
  · exact hp

theorem Inv.step_finish {p : Pool ε α} (hp : p.Inv maxWorkers results) (i : Nat) :
    (p.step maxWorkers results (.finish i)).Inv maxWorkers results := by
  simp only [step]
  split
  · next r hf hr =>
    have hlt : i < p.futures.length := (List.getElem?_eq_some_iff.mp hf).1
    refine ⟨by simp [hp.length], fun j r' h => ?_, hp.collected, hp.outcome, ?_⟩
    · rw [List.getElem?_set] at h
      split_ifs at h with hij
      · cases h; subst hij; exact hr
      · exact hp.finished j r' h
    · have h := countP_set_add FutureState.isRunning p.futures i (.finished r) hlt
      have hle := hp.bound
      simp only [FutureState.isRunning, Bool.false_eq_true, if_false] at h
      simp only [busy] at hle ⊢
      omega
  · exact hp

theorem Inv.step_result {p : Pool ε α} (hp : p.Inv maxWorkers results) :
    (p.step maxWorkers results .result).Inv maxWorkers results := by
  have hsplit := List.take_append_drop p.collected.length results
  rw [hp.collected] at hsplit
  simp only [step]
  split
  · exact hp
  · next hnone =>
    refine { hp with outcome := fun o h => ?_ }
    cases h
    have hdrop : results.drop p.collected.length = [] := by
      rw [List.drop_eq_nil_iff, ← hp.length]
      simpa using hnone
    rw [← hsplit, hdrop, List.append_nil, (seqCollect_eq_ok_iff _ _).mpr rfl]
  · next a hfin =>
    have hr := hp.finished _ _ hfin
    refine { hp with collected := ?_ }
    rw [List.length_append, List.length_singleton, List.take_succ, hp.collected, hr]
    simp
  · next e hfin =>
    have hr := hp.finished _ _ hfin
    refine { hp with outcome := fun o h => ?_ }
    cases h
    rw [← hsplit, List.drop_eq_getElem_cons (List.getElem?_eq_some_iff.mp hr).1,
      (List.getElem?_eq_some_iff.mp hr).2, seqCollect_append_ok]
    rfl
  · exact hp

theorem Inv.step {p : Pool ε α} (hp : p.Inv maxWorkers results) (ev : PoolEvent) :
    (p.step maxWorkers results ev).Inv maxWorkers results := by
  cases ev with
  | take => exact hp.step_take
  | finish i => exact hp.step_finish i
  | result => exact hp.step_result

theorem Inv.run {p : Pool ε α} (hp : p.Inv maxWorkers results) (evs : List PoolEvent) :
    (p.run maxWorkers results evs).Inv maxWorkers results := by
  induction evs generalizing p with
  | nil => exact hp
  | cons ev evs ih => exact ih (hp.step ev)

end Inv

/-! ### Progress -/

section Progress

variable {maxWorkers : Nat} {results : List (Except ε α)}

/-- Two for a queued item, one for a running task, one for each future the main
thread has not collected, and one while the loop has not ended. -/
def measure (p : Pool ε α) : Nat :=
  2 * p.futures.countP FutureState.isPending + p.busy + (p.futures.length - p.collected.length) +
    if p.outcome.isNone then 1 else 0

/-- A worker taking an item, or finishing a task, lowers the measure. -/
theorem measure_set_lt {p : Pool ε α} {i : Nat} (hi : i < p.futures.length) (s : FutureState ε α)
    (h : 2 * (if s.isPending then 1 else 0) + (if s.isRunning then 1 else 0) <
      2 * (if p.futures[i].isPending then 1 else 0) + (if p.futures[i].isRunning then 1 else 0)) :
    ({ p with futures := p.futures.set i s } : Pool ε α).measure < p.measure := by
  have h1 := countP_set_add FutureState.isPending p.futures i s hi
  have h2 := countP_set_add FutureState.isRunning p.futures i s hi
  simp only [measure, busy, List.length_set]
  omega

/-- While the loop has not ended, some event makes progress: the main thread can take
a done future or leave the loop, a worker can finish the task the main thread waits
on, or the oldest queued item can be taken, or, with every worker busy, one of their
tasks can finish. -/
theorem exists_step_lt (hN : 0 < maxWorkers) {p : Pool ε α} (hp : p.Inv maxWorkers results)
    (ho : p.outcome = none) : ∃ ev, (p.step maxWorkers results ev).measure < p.measure := by
  have hres : ∀ j (hj : j < results.length), results[j]? = some results[j] := fun j hj =>
    List.getElem?_eq_getElem hj
  cases hk : p.futures[p.collected.length]? with
  | none =>
    refine ⟨.result, ?_⟩
    simp only [step, ho, hk, measure, busy, Option.isNone_some, Option.isNone_none, if_true,
      Bool.false_eq_true, if_false]
    omega
  | some s =>
    obtain ⟨hkl, hks⟩ := List.getElem?_eq_some_iff.mp hk
    cases s with
    | finished r =>
      refine ⟨.result, ?_⟩
      cases r with
      | ok a =>
        simp only [step, ho, hk, measure, busy, List.length_append, List.length_singleton]
        omega
      | error e =>
        simp only [step, ho, hk, measure, busy, Option.isNone_some, Option.isNone_none, if_true,
          Bool.false_eq_true, if_false]
        omega
    | running =>
      refine ⟨.finish p.collected.length, ?_⟩
      simp only [step, hk, hres _ (hp.length ▸ hkl)]
      exact measure_set_lt hkl _ (by simp [hks, FutureState.isPending, FutureState.isRunning])
    | pending =>
      by_cases hb : p.busy < maxWorkers
      · obtain ⟨i, hi⟩ : ∃ i, p.futures.findIdx? FutureState.isPending = some i :=
          Option.isSome_iff_exists.mp (List.findIdx?_isSome.trans
            (List.any_eq_true.mpr ⟨_, List.getElem_mem hkl, by rw [hks]; rfl⟩))
        obtain ⟨hil, hpend, -⟩ := List.findIdx?_eq_some_iff_getElem.mp hi
        have hnr : p.futures[i].isRunning = false := by
          revert hpend; cases p.futures[i] <;> simp [FutureState.isPending, FutureState.isRunning]
        refine ⟨.take, ?_⟩
        simp only [step, hi, if_pos hb]
        exact measure_set_lt hil _ (by simp only [hpend, hnr]; simp [FutureState.isPending, FutureState.isRunning])
      · obtain ⟨x, hx, hrun⟩ := List.countP_pos_iff.mp (show 0 < p.busy by omega)
        obtain ⟨j, hj, rfl⟩ := List.getElem_of_mem hx
        have hfj : p.futures[j]? = some .running := by
          rw [List.getElem?_eq_getElem hj]
          revert hrun; cases p.futures[j] <;> simp [FutureState.isRunning]
        refine ⟨.finish j, ?_⟩
        simp only [step, hfj, hres _ (hp.length ▸ hj)]
        rw [List.getElem?_eq_getElem hj, Option.some_inj] at hfj
        exact measure_set_lt hj _ (by simp [hfj, FutureState.isPending, FutureState.isRunning])

/-- From every point of every interleaving the collecting loop can still end, and it
ends as the plain loop does. -/
theorem exists_run_outcome (hN : 0 < maxWorkers) {p : Pool ε α} (hp : p.Inv maxWorkers results) :
    ∃ evs, (p.run maxWorkers results evs).outcome = some (seqCollect results) := by
  obtain ⟨n, hn⟩ : ∃ n, p.measure = n := ⟨_, rfl⟩
  induction n using Nat.strong_induction_on generalizing p with
  | _ n ih =>
    cases ho : p.outcome with
    | some o => exact ⟨[], by rw [run_nil, ho, hp.outcome o ho]⟩
    | none =>
      obtain ⟨ev, hlt⟩ := exists_step_lt hN hp ho
      obtain ⟨evs, hevs⟩ := ih _ (hn ▸ hlt) (hp.step ev) rfl
      exact ⟨ev :: evs, hevs⟩

/-- Every interleaving from the submission of the tasks: no more than `maxWorkers`
tasks run at any point, a collecting loop that has ended ended as the plain loop
over the tasks does, and from every point it can still end so. -/
theorem run_init_refines (hN : 0 < maxWorkers) (evs : List PoolEvent) :
    let p := (init results.length : Pool ε α).run maxWorkers results evs
    p.busy ≤ maxWorkers ∧ (∀ o, p.outcome = some o → o = seqCollect results) ∧
      ∃ evs', (p.run maxWorkers results evs').outcome = some (seqCollect results) :=
  have hp := (inv_init maxWorkers results).run evs
  ⟨hp.bound, hp.outcome, exists_run_outcome hN hp⟩

end Progress

end Pool

end SkipTools
