/-
# Lines of bounded length in a stream

A stream is cut into segments at a separator.  A segment shorter than `limit` is a line once it
is terminated; a segment that reaches `limit` is over-long at that element, whether it ever ends
or not.  `frames` says this of a whole stream, segment by segment.

`run` does the same element by element, with the segment that is not terminated yet as its
state, so a stream can be fed to it in any pieces (`run_append`).  `run_start` ties the two
together, and the lemmas in front of it say what a piece without a separator does.
-/
import Mathlib.Data.List.Basic

namespace Framing

variable {α : Type*}

/-! ## 1. The frames of a stream -/

inductive Frame (α : Type*)
  | line (segment : List α)
  | overlong
  deriving DecidableEq, Repr

section Frames

variable [DecidableEq α] (sep : α) (limit : Nat)

/-- A terminated segment. -/
def closed (segment : List α) : Frame α :=
  if segment.length < limit then .line segment else .overlong

/-- The segment behind the last separator. -/
def unclosed (segment : List α) : List (Frame α) :=
  if segment.length < limit then [] else [.overlong]

/-- **The frames of a stream**: of every terminated segment, and of the rest. -/
def frames (stream : List α) : List (Frame α) :=
  (stream.splitOn sep).dropLast.map (closed limit)
    ++ unclosed limit ((stream.splitOn sep).getLastD [])

theorem frames_of_not_mem {stream : List α} (h : sep ∉ stream) :
    frames sep limit stream = unclosed limit stream := by
  unfold frames
  rw [List.splitOn_eq_singleton h]
  rfl

theorem frames_cons {segment : List α} (h : sep ∉ segment) (rest : List α) :
    frames sep limit (segment ++ sep :: rest)
      = closed limit segment :: frames sep limit rest := by
  unfold frames
  rw [List.splitOn_append_cons_self_of_not_mem h]
  obtain ⟨s, ss, hs⟩ := List.exists_cons_of_ne_nil (List.splitOn_ne_nil sep rest)
  rw [hs]
  rfl

/-! ## 2. Element by element -/

/-- The segment that is not terminated yet, empty once it is too long. -/
structure State (α : Type*) where
  pending : List α
  discarding : Bool
  deriving DecidableEq, Repr

/-- At the start of a segment. -/
def start : State α := { pending := [], discarding := false }

def step (s : State α) (a : α) : State α × List (Frame α) :=
  if a = sep then (start, if s.discarding then [] else [.line s.pending])
  else if s.discarding then (s, [])
  else if s.pending.length + 1 < limit then ({ s with pending := s.pending ++ [a] }, [])
  else ({ pending := [], discarding := true }, [.overlong])

def run (s : State α) : List α → State α × List (Frame α)
  | [] => (s, [])
  | a :: as =>
    ((run (step sep limit s a).1 as).1,
      (step sep limit s a).2 ++ (run (step sep limit s a).1 as).2)

/-- **A stream may come in pieces.** -/
theorem run_append (s : State α) (as bs : List α) :
    run sep limit s (as ++ bs) =
      ((run sep limit (run sep limit s as).1 bs).1,
        (run sep limit s as).2 ++ (run sep limit (run sep limit s as).1 bs).2) := by
  induction as generalizing s with
  | nil => rfl
  | cons a as ih =>
    rw [List.cons_append, run, run, ih, List.append_assoc]

variable {sep limit}

/-- The rest of a segment that is too long is dropped. -/
theorem run_discarding {s : State α} (hs : s.discarding = true) {as : List α} (h : sep ∉ as) :
    run sep limit s as = (s, []) := by
  induction as with
  | nil => rfl
  | cons a as ih =>
    rw [List.mem_cons, not_or] at h
    have hstep : step sep limit s a = (s, []) := by
      unfold step
      rw [if_neg (Ne.symm h.1), if_pos hs]
    rw [run, hstep, ih h.2]
    rfl

/-- A piece that stays within the limit is kept. -/
theorem run_pending {p as : List α} (h : sep ∉ as) (hlen : p.length + as.length < limit) :
    run sep limit { pending := p, discarding := false } as
      = ({ pending := p ++ as, discarding := false }, []) := by
  induction as generalizing p with
  | nil => rw [run, List.append_nil]
  | cons a as ih =>
    rw [List.mem_cons, not_or] at h
    rw [List.length_cons] at hlen
    have hstep : step sep limit { pending := p, discarding := false } a
        = ({ pending := p ++ [a], discarding := false }, []) := by
      unfold step
      rw [if_neg (Ne.symm h.1)]
      exact if_pos (show p.length + 1 < limit by omega)
    rw [run, hstep]
    dsimp only
    rw [ih h.2 (by rw [List.length_append, List.length_singleton]; omega), List.append_assoc]
    rfl

/-- A piece that reaches the limit is over-long once. -/
theorem run_full {p as : List α} (h : sep ∉ as) (hp : p.length < limit)
    (hlen : limit ≤ p.length + as.length) :
    run sep limit { pending := p, discarding := false } as
      = ({ pending := [], discarding := true }, [.overlong]) := by
  induction as generalizing p with
  | nil =>
    rw [List.length_nil] at hlen
    omega
  | cons a as ih =>
    rw [List.mem_cons, not_or] at h
    rw [List.length_cons] at hlen
    by_cases hfit : p.length + 1 < limit
    · have hstep : step sep limit { pending := p, discarding := false } a
          = ({ pending := p ++ [a], discarding := false }, []) := by
        unfold step
        rw [if_neg (Ne.symm h.1)]
        exact if_pos hfit
      rw [run, hstep]
      dsimp only
      rw [ih h.2 (by rw [List.length_append, List.length_singleton]; omega)
        (by rw [List.length_append, List.length_singleton]; omega)]
      rfl
    · have hstep : step sep limit { pending := p, discarding := false } a
          = ({ pending := [], discarding := true }, [.overlong]) := by
        unfold step
        rw [if_neg (Ne.symm h.1)]
        exact if_neg hfit
      rw [run, hstep]
      dsimp only
      rw [run_discarding rfl h.2]
      rfl

/-- A terminated segment, from its start. -/
theorem run_segment {segment : List α} (h : sep ∉ segment) (hlimit : 0 < limit)
    (rest : List α) :
    run sep limit start (segment ++ sep :: rest) =
      ((run sep limit start rest).1, closed limit segment :: (run sep limit start rest).2) := by
  rw [run_append, run]
  unfold closed
  by_cases hlen : segment.length < limit
  · have hrun := run_pending (p := []) h (by simpa using hlen)
    rw [show (start : State α) = { pending := [], discarding := false } from rfl, hrun,
      if_pos hlen]
    simp [step, start]
  · have hrun := run_full (p := []) h hlimit (by simpa using hlen)
    rw [show (start : State α) = { pending := [], discarding := false } from rfl, hrun,
      if_neg hlen]
    simp [step, start]

/-- The rest of a segment that is too long, with its end. -/
theorem run_resync {segment : List α} (h : sep ∉ segment) {s : State α}
    (hs : s.discarding = true) (rest : List α) :
    run sep limit s (segment ++ sep :: rest) = run sep limit start rest := by
  rw [run_append, run_discarding hs h, run]
  simp [step, hs]

/-- **Element by element, a stream gives its frames.** -/
theorem run_start (hlimit : 0 < limit) (stream : List α) :
    (run sep limit start stream).2 = frames sep limit stream := by
  by_cases h : sep ∈ stream
  · obtain ⟨segment, rest, hstream, hseg⟩ := List.eq_append_cons_of_mem h
    rw [hstream, run_segment hseg hlimit, frames_cons sep limit hseg]
    have hlt : rest.length < stream.length := by
      rw [hstream, List.length_append, List.length_cons]
      omega
    exact congrArg _ (run_start hlimit rest)
  · rw [frames_of_not_mem sep limit h]
    unfold unclosed
    by_cases hlen : stream.length < limit
    · rw [if_pos hlen]
      exact congrArg Prod.snd (run_pending (p := []) h (by simpa using hlen))
    · rw [if_neg hlen]
      exact congrArg Prod.snd (run_full (p := []) h hlimit (by simpa using hlen))
termination_by stream.length

/-- The frames of a first part come first. -/
theorem frames_prefix (hlimit : 0 < limit) (as bs : List α) :
    frames sep limit as <+: frames sep limit (as ++ bs) := by
  rw [← run_start hlimit, ← run_start hlimit, run_append]
  exact List.prefix_append _ _

end Frames

/-! ## 3. A buffer cut line by line

A program that reads into a buffer cuts off the segments that have ended and goes on with the
rest.  `Continues` says what such a cut has come to. -/

section Buffer

variable [DecidableEq α] {sep : α} {limit : Nat}

/-- At the start of a segment, or in the rest of one that is too long. -/
def resume (discarding : Bool) : State α := { pending := [], discarding := discarding }

/-- The segment that has not ended, as a buffer and a flag hold it. -/
def held (discarding : Bool) (buffer : List α) : State α :=
  { pending := if discarding then [] else buffer, discarding := discarding }

variable (sep limit) in
/-- Reading `input` comes to the frames `frs`, and goes on with `rest`. -/
def Continues (d : Bool) (input : List α) (frs : List (Frame α)) (d' : Bool) (rest : List α) :
    Prop :=
  run sep limit (resume d) input =
    ((run sep limit (resume d') rest).1, frs ++ (run sep limit (resume d') rest).2)

theorem Continues.refl (d : Bool) (input : List α) : Continues sep limit d input [] d input := rfl

theorem Continues.trans {d d' d'' : Bool} {input rest rest' : List α} {frs frs' : List (Frame α)}
    (h : Continues sep limit d input frs d' rest)
    (h' : Continues sep limit d' rest frs' d'' rest') :
    Continues sep limit d input (frs ++ frs') d'' rest' := by
  unfold Continues at *
  rw [h, h', List.append_assoc]

/-- A line. -/
theorem continues_line {segment : List α} (h : sep ∉ segment) (hlen : segment.length < limit)
    (rest : List α) :
    Continues sep limit false (segment ++ sep :: rest) [.line segment] false rest := by
  refine (run_segment h (Nat.zero_lt_of_lt hlen) rest).trans ?_
  rw [closed, if_pos hlen]
  rfl

/-- The end of a segment that was too long. -/
theorem continues_resync {segment : List α} (h : sep ∉ segment) (rest : List α) :
    Continues sep limit true (segment ++ sep :: rest) [] false rest := run_resync h rfl rest

/-- A buffer that has not ended, read again from the start of its segment. -/
theorem run_held {buffer : List α} (h : sep ∉ buffer) (hlen : buffer.length < limit) (d : Bool)
    (got : List α) :
    run sep limit (held d buffer) got = run sep limit (resume d) (buffer ++ got) := by
  have hrun : run sep limit (resume d) buffer = (held d buffer, []) := by
    cases d with
    | true => exact run_discarding rfl h
    | false => exact run_pending h (by simpa using hlen)
  rw [run_append, hrun]
  rfl

/-- What is behind the last separator is kept, or is too long once. -/
theorem run_tail {tail : List α} (h : sep ∉ tail) (hlimit : 0 < limit) (d : Bool) :
    run sep limit (resume d) tail =
      if limit ≤ tail.length then (resume true, if d then [] else [.overlong])
      else (held d tail, []) := by
  cases d with
  | true =>
    rw [run_discarding rfl h]
    split <;> rfl
  | false =>
    split
    · rename_i hlen
      exact run_full h hlimit (by simpa using hlen)
    · rename_i hlen
      exact run_pending h (by simpa using Nat.lt_of_not_le hlen)

end Buffer

/-! ## 4. Lines one after another -/

section Lines

variable (sep : α)

/-- The stream that these lines make. -/
def joined (lines : List (List α)) : List α := lines.flatMap fun l => l ++ [sep]

theorem joined_append (l m : List (List α)) : joined sep (l ++ m) = joined sep l ++ joined sep m :=
  List.flatMap_append

theorem joined_cons (line : List α) (lines : List (List α)) :
    joined sep (line :: lines) = line ++ sep :: joined sep lines := by
  unfold joined
  rw [List.flatMap_cons, List.append_assoc]
  rfl

variable {sep}

/-- A first part of a stream of lines: some of the lines, and a first part of the next. -/
theorem prefix_joined {lines : List (List α)} (h : ∀ l ∈ lines, sep ∉ l) {s : List α}
    (hs : s <+: joined sep lines) : ∃ done rest tail, lines = done ++ rest ∧
      s = joined sep done ++ tail ∧ sep ∉ tail ∧ (tail = [] ∨ ∃ l ∈ rest, tail <+: l) := by
  induction lines generalizing s with
  | nil => exact ⟨[], [], [], rfl, List.prefix_nil.mp hs, by simp, .inl rfl⟩
  | cons line lines ih =>
    rw [joined_cons] at hs
    have hline := h line List.mem_cons_self
    rcases List.prefix_or_prefix_of_prefix hs (List.prefix_append line _) with hshort | ⟨s', rfl⟩
    · refine ⟨[], line :: lines, s, rfl, rfl, fun hmem => hline (hshort.subset hmem), .inr ?_⟩
      exact ⟨line, List.mem_cons_self, hshort⟩
    · rw [List.prefix_append_right_inj] at hs
      cases s' with
      | nil =>
        exact ⟨[], line :: lines, line ++ [], rfl, rfl, by simpa using hline,
          .inr ⟨line, List.mem_cons_self, by simp⟩⟩
      | cons a s' =>
        obtain ⟨rfl, hs'⟩ := List.cons_prefix_cons.mp hs
        obtain ⟨done, rest, tail, rfl, rfl, htail, hnext⟩ :=
          ih (fun l hl => h l (List.mem_cons_of_mem _ hl)) hs'
        refine ⟨line :: done, rest, tail, rfl, ?_, htail, hnext⟩
        rw [joined_cons, List.append_assoc, List.cons_append]

variable [DecidableEq α]

/-- **Cutting a stream of lines gives the lines** and the rest. -/
theorem splitOn_joined {lines : List (List α)} (h : ∀ l ∈ lines, sep ∉ l) {tail : List α}
    (ht : sep ∉ tail) : (joined sep lines ++ tail).splitOn sep = lines ++ [tail] := by
  induction lines with
  | nil => exact List.splitOn_eq_singleton ht
  | cons line lines ih =>
    rw [joined_cons, List.append_assoc, List.cons_append,
      List.splitOn_append_cons_self_of_not_mem (h line List.mem_cons_self),
      ih fun l hl => h l (List.mem_cons_of_mem _ hl)]
    rfl

/-- Lines and a rest are cut in one way only. -/
theorem joined_inj {lines lines' : List (List α)} (h : ∀ l ∈ lines, sep ∉ l)
    (h' : ∀ l ∈ lines', sep ∉ l) {tail tail' : List α} (ht : sep ∉ tail) (ht' : sep ∉ tail')
    (heq : joined sep lines ++ tail = joined sep lines' ++ tail') :
    lines = lines' ∧ tail = tail' := by
  have hsplit := splitOn_joined h ht
  rw [heq, splitOn_joined h' ht'] at hsplit
  obtain ⟨hlines, htail⟩ := List.append_inj' hsplit rfl
  exact ⟨hlines.symm, (List.cons.inj htail).1.symm⟩

/-- **Every stream is lines and a rest.** -/
theorem exists_joined (stream : List α) : ∃ lines tail, stream = joined sep lines ++ tail ∧
    (∀ l ∈ lines, sep ∉ l) ∧ sep ∉ tail := by
  by_cases h : sep ∈ stream
  · obtain ⟨line, rest, rfl, hline⟩ := List.eq_append_cons_of_mem h
    have hlt : rest.length < (line ++ sep :: rest).length := by
      rw [List.length_append, List.length_cons]
      omega
    obtain ⟨lines, tail, rfl, hlines, htail⟩ := exists_joined rest
    refine ⟨line :: lines, tail, ?_, ?_, htail⟩
    · rw [joined_cons, List.append_assoc, List.cons_append]
    · rintro l hl
      rcases List.mem_cons.mp hl with rfl | hl
      · exact hline
      · exact hlines l hl
  · exact ⟨[], stream, rfl, by simp, h⟩
termination_by stream.length

/-- The frames of a stream that begins with these lines. -/
theorem frames_joined_append (limit : Nat) {lines : List (List α)} (h : ∀ l ∈ lines, sep ∉ l)
    (rest : List α) : frames sep limit (joined sep lines ++ rest)
      = lines.map (closed limit) ++ frames sep limit rest := by
  induction lines with
  | nil => rfl
  | cons line lines ih =>
    rw [joined_cons, List.append_assoc, List.cons_append,
      frames_cons sep limit (h line List.mem_cons_self),
      ih fun l hl => h l (List.mem_cons_of_mem _ hl)]
    rfl

/-- **The frames of a stream of lines** are the lines. -/
theorem frames_joined (limit : Nat) {lines : List (List α)} (h : ∀ l ∈ lines, sep ∉ l)
    (hlimit : 0 < limit) : frames sep limit (joined sep lines) = lines.map (closed limit) := by
  have hsplit : (joined sep lines ++ []).splitOn sep = lines ++ [[]] := splitOn_joined h (by simp)
  have hempty : unclosed limit ([] : List α) = [] := if_pos hlimit
  rw [List.append_nil] at hsplit
  rw [frames, hsplit, List.dropLast_concat, List.getLastD_concat, hempty, List.append_nil]

end Lines

/-! ## 5. Up to a stop -/

/-- A list up to the first element that stops, and with it. -/
def through (stop : α → Bool) : List α → List α
  | [] => []
  | a :: as => if stop a then [a] else a :: through stop as

/-- Nothing stops. -/
theorem through_of_none {stop : α → Bool} {as : List α} (h : ∀ a ∈ as, stop a = false)
    (bs : List α) : through stop (as ++ bs) = as ++ through stop bs := by
  induction as with
  | nil => rfl
  | cons a as ih =>
    rw [List.cons_append, through, h a List.mem_cons_self, if_neg Bool.false_ne_true,
      ih fun b hb => h b (List.mem_cons_of_mem _ hb)]
    rfl

/-- What is behind a stop does not matter. -/
theorem through_of_stop {stop : α → Bool} {as : List α} (h : ∃ a ∈ as, stop a = true)
    (bs : List α) : through stop (as ++ bs) = through stop as := by
  induction as with
  | nil => simp at h
  | cons a as ih =>
    rw [List.cons_append, through, through]
    by_cases ha : stop a = true
    · rw [if_pos ha, if_pos ha]
    · obtain ⟨b, hb, hstop⟩ := h
      rcases List.mem_cons.mp hb with rfl | hb
      · exact absurd hstop ha
      · rw [if_neg ha, if_neg ha, ih ⟨b, hb, hstop⟩]

/-- A first part of a list has a first part of what comes before the stop. -/
theorem through_prefix (stop : α → Bool) (as bs : List α) :
    through stop as <+: through stop (as ++ bs) := by
  induction as with
  | nil => exact List.nil_prefix
  | cons a as ih =>
    rw [List.cons_append, through, through]
    split
    · exact List.prefix_rfl
    · exact List.cons_prefix_cons.mpr ⟨rfl, ih⟩

theorem mem_of_mem_through {stop : α → Bool} {a : α} : ∀ {as : List α}, a ∈ through stop as → a ∈ as
  | [], h => h
  | b :: as, h => by
    rw [through] at h
    split at h
    · rw [List.mem_singleton.mp h]
      exact List.mem_cons_self
    · rcases List.mem_cons.mp h with rfl | h
      · exact List.mem_cons_self
      · exact List.mem_cons_of_mem _ (mem_of_mem_through h)

end Framing
