import Mathlib.Data.List.Basic

/-! `StreamTee.run` of common.py, the thread that copies the child's stdout to the
console and to the capture file. Which write or flush raises is an input; the
loop stops at the first that does, as its `except Exception: break` says. -/

namespace SkipTools

abbrev Bytes := List UInt8

/-- Which calls on a sink raise, by loop iteration. -/
structure SinkFaults where
  write : Nat → Bool
  flush : Nat → Bool

/-- What `run` leaves: the chunks each writer took, the chunks left in the pipe,
and whether the loop ended on end of file. -/
structure TeeResult where
  console : List Bytes
  capture : List Bytes
  unread : List Bytes
  atEof : Bool
  deriving DecidableEq, Repr

/-- `StreamTee.run` from iteration `k`, the reader returning `reads` and then
`b''`. A chunk counts as taken by a writer once its `write` returned. -/
def teeRun (w1 w2 : SinkFaults) (k : Nat) : List Bytes → TeeResult
  | [] => ⟨[], [], [], true⟩
  | read :: rest =>
    if read = [] then ⟨[], [], rest, true⟩
    else if w1.write k then ⟨[], [], rest, false⟩
    else if w1.flush k then ⟨[read], [], rest, false⟩
    else if w2.write k then ⟨[read], [], rest, false⟩
    else if w2.flush k then ⟨[read], [read], rest, false⟩
    else
      let r := teeRun w1 w2 (k + 1) rest
      ⟨read :: r.console, read :: r.capture, r.unread, r.atEof⟩

/-- Whether some write or flush of iteration `k` raises. -/
def faulty (w1 w2 : SinkFaults) (k : Nat) : Bool :=
  w1.write k || w1.flush k || w2.write k || w2.flush k

theorem teeRun_clean (w1 w2 : SinkFaults) (k : Nat) (read : Bytes) (rest : List Bytes)
    (hr : read ≠ []) (hk : faulty w1 w2 k = false) :
    teeRun w1 w2 k (read :: rest) =
      let r := teeRun w1 w2 (k + 1) rest
      ⟨read :: r.console, read :: r.capture, r.unread, r.atEof⟩ := by
  simp only [faulty, Bool.or_eq_false_iff] at hk
  simp [teeRun, hr, hk]

/-- With no failing call the loop copies every chunk to both writers and reads to
end of file. -/
theorem teeRun_of_no_fault (w1 w2 : SinkFaults) :
    ∀ (k : Nat) (reads : List Bytes), (∀ c ∈ reads, c ≠ []) →
      (∀ i < reads.length, faulty w1 w2 (k + i) = false) →
      teeRun w1 w2 k reads = ⟨reads, reads, [], true⟩
  | _, [], _, _ => rfl
  | k, read :: rest, hne, hf => by
    have h0 := hf 0 (by simp)
    rw [Nat.add_zero] at h0
    rw [teeRun_clean w1 w2 k read rest (hne read (List.mem_cons_self _ _)) h0,
      teeRun_of_no_fault w1 w2 (k + 1) rest (fun c hc => hne c (List.mem_cons_of_mem _ hc))
        (fun i hi => by simpa [Nat.add_assoc, Nat.add_comm 1 i] using hf (i + 1) (by simpa using hi))]

/-- At the first failing call the loop stops: the capture holds the chunks of the
earlier iterations, and the current one only when the capture's flush failed, and
the rest of the stream stays in the pipe. -/
theorem teeRun_of_fault (w1 w2 : SinkFaults) :
    ∀ (k j : Nat) (reads : List Bytes), (∀ c ∈ reads, c ≠ []) → j < reads.length →
      (∀ i < j, faulty w1 w2 (k + i) = false) → faulty w1 w2 (k + j) = true →
      (teeRun w1 w2 k reads).capture = reads.take j ++
          (if w1.write (k + j) || w1.flush (k + j) || w2.write (k + j) then []
            else reads.drop j |>.take 1) ∧
        (teeRun w1 w2 k reads).unread = reads.drop (j + 1) ∧
        (teeRun w1 w2 k reads).atEof = false
  | _, _, [], _, hj, _, _ => absurd hj (Nat.not_lt_zero _)
  | k, 0, read :: rest, hne, _, _, hf => by
    have hr := hne read (List.mem_cons_self _ _)
    simp only [faulty, Nat.add_zero] at hf ⊢
    simp only [teeRun, hr, if_false]
    by_cases h1 : w1.write k <;> by_cases h2 : w1.flush k <;> by_cases h3 : w2.write k <;>
      by_cases h4 : w2.flush k <;> simp_all
  | k, j + 1, read :: rest, hne, hj, hbefore, hf => by
    have h0 := hbefore 0 (Nat.succ_pos j)
    rw [Nat.add_zero] at h0
    rw [teeRun_clean w1 w2 k read rest (hne read (List.mem_cons_self _ _)) h0]
    have hb' : ∀ i < j, faulty w1 w2 (k + 1 + i) = false := fun i hi => by
      rw [show k + 1 + i = k + (i + 1) by omega]
      exact hbefore (i + 1) (by omega)
    have hf' : faulty w1 w2 (k + 1 + j) = true := by rwa [show k + 1 + j = k + (j + 1) by omega]
    have ih := teeRun_of_fault w1 w2 (k + 1) j rest
      (fun c hc => hne c (List.mem_cons_of_mem _ hc)) (by simpa using hj) hb' hf'
    rw [show k + 1 + j = k + (j + 1) by omega] at ih
    simp only [List.take_succ_cons, List.drop_succ_cons, List.cons_append, ih]
    exact ⟨trivial, trivial, trivial⟩

/-- With non-empty reads, `run` reads to end of file and hands the capture the
whole stream in order when no write or flush of either writer raises; at the
first that raises it stops, with the rest of the stream left in the pipe. -/
theorem stream_tee_delivery (w1 w2 : SinkFaults) (reads : List Bytes)
    (hne : ∀ c ∈ reads, c ≠ []) :
    ((∀ i < reads.length, faulty w1 w2 i = false) →
      teeRun w1 w2 0 reads = ⟨reads, reads, [], true⟩) ∧
    ∀ j < reads.length, (∀ i < j, faulty w1 w2 i = false) → faulty w1 w2 j = true →
      (teeRun w1 w2 0 reads).capture = reads.take j ++
          (if w1.write j || w1.flush j || w2.write j then [] else (reads.drop j).take 1) ∧
        (teeRun w1 w2 0 reads).unread = reads.drop (j + 1) ∧
        (teeRun w1 w2 0 reads).atEof = false := by
  refine ⟨fun h => teeRun_of_no_fault w1 w2 0 reads hne (by simpa using h),
    fun j hj hb hf => ?_⟩
  simpa using teeRun_of_fault w1 w2 0 j reads hne hj (by simpa using hb) (by simpa using hf)

/-- A sink whose calls all return. -/
def quietSink : SinkFaults := ⟨fun _ => false, fun _ => false⟩

/-- Two reads of the child's output. -/
def sampleReads : List Bytes := [[1], [2, 3]]

theorem quiet_tee_copies_all :
    (∀ c ∈ sampleReads, c ≠ []) ∧
    (((∀ i < sampleReads.length, faulty quietSink quietSink i = false) →
      teeRun quietSink quietSink 0 sampleReads = ⟨sampleReads, sampleReads, [], true⟩) ∧
    ∀ j < sampleReads.length, (∀ i < j, faulty quietSink quietSink i = false) →
      faulty quietSink quietSink j = true →
      (teeRun quietSink quietSink 0 sampleReads).capture = sampleReads.take j ++
          (if quietSink.write j || quietSink.flush j || quietSink.write j then []
            else (sampleReads.drop j).take 1) ∧
        (teeRun quietSink quietSink 0 sampleReads).unread = sampleReads.drop (j + 1) ∧
        (teeRun quietSink quietSink 0 sampleReads).atEof = false) :=
  ⟨by decide, stream_tee_delivery quietSink quietSink sampleReads (by decide)⟩

/-- A console whose first write raises: the capture, whose calls all return, gets
nothing, and the second chunk stays in the pipe. -/
theorem console_failure_leaves_pipe :
    teeRun ⟨fun k => k == 0, fun _ => false⟩ quietSink 0 sampleReads =
      ⟨[], [], [[2, 3]], false⟩ := by
  decide

end SkipTools
