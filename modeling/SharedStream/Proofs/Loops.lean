import SharedStream.Cursor.Draining
import SharedStream.Proofs.Resuming
/-!
The loops of reads come to an end. A read that succeeds short of the end delivers a byte, so the
loop that reads to the end makes no more of them than there are bytes to come, whatever the stores
do. The loop that reads exactly so many bytes also tries again when it is interrupted; there each
further round costs either a byte or an interruption. The loops are described here without a bound
on their rounds, step by step, and the bounded ones are shown to come to the same.
-/

namespace SharedStream

namespace Pool

variable {σ : Type} [Store σ]

/-- The cursor can be read: it is sound, and the books have every child that it sees. -/
structure Serves (pool : Pool σ) (cursor : Cursor) : Prop where
  sound : cursor.Sound
  shows : pool.ledger.Shows cursor.block cursor.extent

/-- How a read with room for `capacity` bytes may go, whatever the stores do. -/
inductive ReadStep (pool : Pool σ) (cursor : Cursor) (capacity : Nat) :
    Except Failure (ReadResult × Cursor) × Pool σ → Prop where
  | atEnd (hend : cursor.remaining = 0) :
      ReadStep pool cursor capacity (.ok (.atEnd, cursor), pool)
  | served {bytes : List UInt8} {next : Pool σ} (hsome : 0 < bytes.length)
      (hless : bytes.length ≤ min capacity cursor.remaining)
      (hserves : next.Serves (cursor.advance bytes.length)) :
      ReadStep pool cursor capacity (.ok (.read bytes, cursor.advance bytes.length), next)
  | failed {error : Failure} {next : Pool σ} (hblames : error.blamesStore = true)
      (hserves : next.Serves cursor) :
      ReadStep pool cursor capacity (.error error, next)

theorem read_step {pool : Pool σ} {cursor : Cursor} {capacity : Nat} (h : pool.Serves cursor)
    (hcapacity : 0 < capacity) : pool.ReadStep cursor capacity (pool.read cursor capacity) := by
  by_cases hend : cursor.remaining = 0
  · simp only [read, Cursor.through_eq, Cursor.wanted_none hcapacity hend]
    exact .atEnd hend
  · have hwanted := Cursor.wanted_eq hcapacity (Nat.pos_of_ne_zero hend)
    have hpos := (View.wanted_some hwanted).1
    obtain ⟨hanswer, -, -, -⟩ := readBlock_gathered h.sound h.shows hpos (Nat.min_le_right _ _)
    simp only [read, Cursor.through_eq, hwanted]
    cases hread : pool.backend.readBlock pool.ledger cursor.block cursor.view.current
        (min capacity cursor.remaining) with
    | mk answer backend =>
        rw [hread] at hanswer
        cases answer with
        | error error =>
            obtain ⟨-, hfailure⟩ := Gathered.remarks_of_error hanswer.symm
            exact .failed (gathered_blames hfailure) ⟨h.sound, h.shows⟩
        | ok bytes =>
            obtain ⟨hsome, hless⟩ := Backend.readBlock_length hpos hread
            exact .served hsome hless ⟨h.sound.advance (by omega), h.shows⟩

end Pool

/-- What a loop that reads to the end returns: the number of its bytes, or the failure. -/
def Drained.answer (drained : Drained) : Except Failure Nat :=
  match drained.failure with
  | none => .ok drained.bytes.length
  | some error => .error error

namespace Pool

variable {σ : Type} [Store σ]

section Draining

/-- How far the loop that reads to the end has come: how many reads have delivered bytes, what `out`
holds by now, and what the count of bytes has come to. -/
inductive Drains (pool : Pool σ) (cursor : Cursor) (before : List UInt8) :
    (reads : Nat) → (out : List UInt8) → (total : Nat) → Cursor → Pool σ → Prop where
  | start : Drains pool cursor before 0 before 0 cursor pool
  | more {reads total : Nat} {out bytes : List UInt8} {moved further : Cursor}
    {next after : Pool σ}
      (h : Drains pool cursor before reads out total moved next)
      (hread : next.read moved drainChunk = (.ok (.read bytes, further), after)) :
      Drains pool cursor before (reads + 1) (out ++ bytes) (total + bytes.length) further after

/-- How the loop that reads to the end ends, and what it returns. -/
inductive DrainEnds (pool : Pool σ) (cursor : Cursor) (before : List UInt8) :
    Except Failure Nat → (reads : Nat) → (out : List UInt8) → Cursor → Pool σ →
    Prop where
  | atEnd {reads total : Nat} {out : List UInt8} {moved last : Cursor} {next after : Pool σ}
      (h : Drains pool cursor before reads out total moved next)
      (hread : next.read moved drainChunk = (.ok (.atEnd, last), after)) :
      DrainEnds pool cursor before (.ok total) reads out last after
  | failed {reads total : Nat} {out : List UInt8} {moved : Cursor} {next after : Pool σ}
      {error : Failure} (h : Drains pool cursor before reads out total moved next)
      (hread : next.read moved drainChunk = (.error error, after)) :
      DrainEnds pool cursor before (.error error) reads out moved after

variable {pool : Pool σ} {cursor : Cursor} {before : List UInt8}

/-- Each read so far has delivered a byte, and the cursor has moved over all of them. -/
theorem Drains.account {reads total : Nat} {out : List UInt8} {moved : Cursor} {next : Pool σ}
    (hserves : pool.Serves cursor) (h : pool.Drains cursor before reads out total moved next) :
    next.Serves moved ∧ ∃ bytes, out = before ++ bytes ∧ total = bytes.length ∧
      moved = cursor.advance bytes.length ∧ reads ≤ bytes.length ∧
      bytes.length ≤ cursor.remaining := by
  induction h with
  | start => exact ⟨hserves, [], by simp, rfl, rfl, Nat.le_refl _, Nat.zero_le _⟩
  | @more reads total out chunk moved further next after h hread ih =>
      obtain ⟨hnext, bytes, rfl, rfl, rfl, hreads, hless⟩ := ih
      have hstep := read_step hnext (show 0 < drainChunk by decide)
      rw [hread] at hstep
      have hleft := hserves.sound.remaining_advance bytes.length
      cases hstep with
      | served hsome hmore hlater =>
          refine ⟨hlater, bytes ++ chunk, by simp, by simp, ?_, ?_, ?_⟩
          · rw [Cursor.advance_advance, List.length_append]
          · rw [List.length_append]
            omega
          · rw [List.length_append]
            omega

/-- At its end the loop has run out of bytes, or a store is to blame. -/
theorem DrainEnds.account {answer : Except Failure Nat} {reads : Nat} {out : List UInt8}
    {last : Cursor} {after : Pool σ} (hserves : pool.Serves cursor)
    (h : pool.DrainEnds cursor before answer reads out last after) :
    ∃ bytes, out = before ++ bytes ∧ last = cursor.advance bytes.length ∧
      reads ≤ bytes.length ∧ bytes.length ≤ cursor.remaining ∧
      (answer = .ok bytes.length ∧ last.remaining = 0 ∨
        ∃ error, answer = .error error ∧ error.blamesStore = true) := by
  cases h with
  | atEnd h hread =>
      obtain ⟨hnext, bytes, rfl, rfl, rfl, hreads, hless⟩ := h.account hserves
      have hstep := read_step hnext (show 0 < drainChunk by decide)
      rw [hread] at hstep
      cases hstep with
      | atEnd hend => exact ⟨bytes, rfl, rfl, hreads, hless, Or.inl ⟨rfl, hend⟩⟩
  | failed h hread =>
      obtain ⟨hnext, bytes, rfl, -, rfl, hreads, hless⟩ := h.account hserves
      have hstep := read_step hnext (show 0 < drainChunk by decide)
      rw [hread] at hstep
      cases hstep with
      | failed hblames => exact ⟨bytes, rfl, rfl, hreads, hless, Or.inr ⟨_, rfl, hblames⟩⟩

/-- A bounded loop does what the loop has done so far, and goes on from there. -/
theorem Drains.run {reads total : Nat} {out : List UInt8} {moved : Cursor} {next : Pool σ}
    (h : pool.Drains cursor before reads out total moved next) :
    ∃ chunks : List (List UInt8), reads = chunks.length ∧ out = before ++ chunks.flatten ∧
      total = chunks.flatten.length ∧
      ∀ {rounds rest last}, next.drainWithin moved drainChunk rounds = (rest, last) →
        pool.drainWithin cursor drainChunk (reads + rounds) =
          (⟨chunks ++ rest.chunks, rest.failure⟩, last) := by
  induction h with
  | start => exact ⟨[], rfl, by simp, rfl, fun hrest => by simpa using hrest⟩
  | @more reads total out chunk moved further next after h hread ih =>
      obtain ⟨chunks, rfl, rfl, rfl, hrun⟩ := ih
      refine ⟨chunks ++ [chunk], by simp, by simp, by simp, ?_⟩
      intro rounds rest last hrest
      have hnext : next.drainWithin moved drainChunk (rounds + 1) =
          (⟨chunk :: rest.chunks, rest.failure⟩, last) := by
        simp only [drainWithin, hread, hrest]
      rw [Nat.add_right_comm, Nat.add_assoc, hrun hnext, List.append_assoc,
        List.singleton_append]

/-- With rounds to spare, the bounded loop comes to where the loop ends. -/
theorem DrainEnds.run {answer : Except Failure Nat} {reads : Nat} {out : List UInt8} {last : Cursor}
    {after : Pool σ} (h : pool.DrainEnds cursor before answer reads out last after) {rounds : Nat}
    (hrounds : reads < rounds) :
    let whole := pool.drainWithin cursor drainChunk rounds
    answer = whole.1.answer ∧ reads = whole.1.chunks.length ∧ out = before ++ whole.1.bytes ∧
      last = whole.2.1 ∧ after = whole.2.2 := by
  obtain ⟨spare, rfl⟩ := Nat.exists_eq_add_of_lt hrounds
  cases h with
  | atEnd h hread =>
      obtain ⟨chunks, rfl, rfl, rfl, hrun⟩ := h.run
      rw [Nat.add_assoc, hrun (show _ = (⟨[], none⟩, last, after) by
        simp only [drainWithin, hread]), List.append_nil]
      exact ⟨rfl, rfl, rfl, rfl, rfl⟩
  | @failed _ _ _ _ _ _ error h hread =>
      obtain ⟨chunks, rfl, rfl, -, hrun⟩ := h.run
      rw [Nat.add_assoc, hrun (show _ = (⟨[], some error⟩, last, after) by
        simp only [drainWithin, hread]), List.append_nil]
      exact ⟨rfl, rfl, rfl, rfl, rfl⟩

/-- From any point on, the loop ends within one round for each byte to come and one more. -/
theorem Drains.ends {rounds : Nat} : ∀ {reads total : Nat} {out : List UInt8} {moved : Cursor}
    {next : Pool σ}, pool.Serves cursor →
      pool.Drains cursor before reads out total moved next →
    moved.remaining < rounds →
    ∃ answer reads out last after, pool.DrainEnds cursor before answer reads out last after := by
  induction rounds with
  | zero => exact fun _ _ hrounds => absurd hrounds (Nat.not_lt_zero _)
  | succ rounds ih =>
      intro reads total out moved next hserves h hrounds
      have hnext := (h.account hserves).1
      have hstep := read_step hnext (show 0 < drainChunk by decide)
      generalize hread : next.read moved drainChunk = got at hstep
      cases hstep with
      | atEnd hend => exact ⟨_, _, _, _, _, .atEnd h hread⟩
      | failed hblames hlater => exact ⟨_, _, _, _, _, .failed h hread⟩
      | served hsome hless hlater =>
          refine ih hserves (.more h hread) ?_
          rw [hnext.sound.remaining_advance]
          omega

/-- What the loop to the end comes to. It ends in one way only, after no more reads than there were
bytes to come; all bytes are kept, and the cursor has moved over them and no further. -/
structure DrainsTo (pool : Pool σ) (cursor : Cursor)
    (run : Drained × Cursor × Pool σ) : Prop where
  ends : ∀ before answer reads out last after,
    pool.DrainEnds cursor before answer reads out last after ↔
      answer = run.1.answer ∧ reads = run.1.chunks.length ∧ out = before ++ run.1.bytes ∧
        last = run.2.1 ∧ after = run.2.2
  reads_le : run.1.chunks.length ≤ cursor.remaining
  moved : run.2.1 = cursor.advance run.1.bytes.length
  position : run.2.1.position = cursor.position + run.1.bytes.length
  finished : run.1.failure = none → run.2.1.remaining = 0
  blames : ∀ error, run.1.failure = some error → error.blamesStore = true

theorem drainsTo (h : pool.Serves cursor) : pool.DrainsTo cursor (pool.readToEnd cursor) := by
  have hrun : ∀ {before answer reads out last after},
      pool.DrainEnds cursor before answer reads out last after →
        answer = (pool.readToEnd cursor).1.answer ∧
          reads = (pool.readToEnd cursor).1.chunks.length ∧
          out = before ++ (pool.readToEnd cursor).1.bytes ∧
          last = (pool.readToEnd cursor).2.1 ∧ after = (pool.readToEnd cursor).2.2 := by
    intro before answer reads out last after hend
    refine hend.run (Nat.lt_succ_of_le ?_)
    cases hend with
    | atEnd hsofar | failed hsofar =>
        obtain ⟨-, bytes, -, -, -, hreads, hless⟩ := hsofar.account h
        exact Nat.le_trans hreads hless
  have hend : ∀ before, pool.DrainEnds cursor before (pool.readToEnd cursor).1.answer
      (pool.readToEnd cursor).1.chunks.length (before ++ (pool.readToEnd cursor).1.bytes)
      (pool.readToEnd cursor).2.1 (pool.readToEnd cursor).2.2 := by
    intro before
    obtain ⟨answer, reads, out, last, after, hend⟩ :=
      (Drains.start : pool.Drains cursor before 0 before 0 cursor pool).ends h (Nat.lt_succ_self _)
    obtain ⟨rfl, rfl, rfl, rfl, rfl⟩ := hrun hend
    exact hend
  obtain ⟨bytes, hout, hmoved, hreads, hless, hanswer⟩ := (hend []).account h
  obtain rfl := List.append_cancel_left hout
  refine ⟨fun before answer reads out last after => ⟨hrun, ?_⟩,
    Nat.le_trans hreads hless, hmoved, ?_, fun hnone => ?_, fun error hsome => ?_⟩
  · rintro ⟨rfl, rfl, rfl, rfl, rfl⟩
    exact hend before
  · rw [hmoved, h.sound.position_advance hless]
  · rcases hanswer with ⟨-, hend⟩ | ⟨error, hfailed, -⟩
    · exact hend
    · simp [Drained.answer, hnone] at hfailed
  · rcases hanswer with ⟨hdone, -⟩ | ⟨other, hfailed, hblames⟩
    · simp [Drained.answer, hsome] at hdone
    · simp only [Drained.answer, hsome, Except.error.injEq] at hfailed
      rwa [hfailed]

end Draining

section Taking

/-- How far the loop that reads exactly `wanted` bytes has come: how many interruptions it has put
up with, and the bytes that it has taken. -/
inductive Takes (pool : Pool σ) (cursor : Cursor) (wanted : Nat) :
    (interruptions : Nat) → (bytes : List UInt8) → Cursor → Pool σ → Prop where
  | start : Takes pool cursor wanted 0 [] cursor pool
  | interrupted {interruptions : Nat} {bytes : List UInt8} {moved : Cursor} {next after : Pool σ}
      {error : Failure} (h : Takes pool cursor wanted interruptions bytes moved next)
      (hwanted : bytes.length < wanted)
      (hcall : next.readBytes moved (wanted - bytes.length) = (.error error, after))
      (hkind : error.ioKind = .interrupted) :
      Takes pool cursor wanted (interruptions + 1) bytes moved after
  | more {interruptions : Nat} {bytes chunk : List UInt8} {moved further : Cursor}
      {next after : Pool σ} (h : Takes pool cursor wanted interruptions bytes moved next)
      (hwanted : bytes.length < wanted)
      (hcall : next.readBytes moved (wanted - bytes.length) = (.ok (chunk, further), after))
      (hsome : chunk ≠ []) :
      Takes pool cursor wanted interruptions (bytes ++ chunk) further after

/-- How the loop that reads exactly `wanted` bytes ends. -/
inductive TakeEnds (pool : Pool σ) (cursor : Cursor) (wanted : Nat) :
    (interruptions : Nat) → ExactRead × Cursor × Pool σ → Prop where
  | filled {interruptions : Nat} {bytes : List UInt8} {moved : Cursor} {next : Pool σ}
      (h : Takes pool cursor wanted interruptions bytes moved next)
      (hfull : wanted ≤ bytes.length) :
      TakeEnds pool cursor wanted interruptions (⟨bytes, .filled⟩, moved, next)
  | endReached {interruptions : Nat} {bytes : List UInt8} {moved last : Cursor}
      {next after : Pool σ} (h : Takes pool cursor wanted interruptions bytes moved next)
      (hwanted : bytes.length < wanted)
      (hcall : next.readBytes moved (wanted - bytes.length) = (.ok ([], last), after)) :
      TakeEnds pool cursor wanted interruptions (⟨bytes, .endReached⟩, last, after)
  | failed {interruptions : Nat} {bytes : List UInt8} {moved : Cursor} {next after : Pool σ}
      {error : Failure} (h : Takes pool cursor wanted interruptions bytes moved next)
      (hwanted : bytes.length < wanted)
      (hcall : next.readBytes moved (wanted - bytes.length) = (.error error, after))
      (hkind : error.ioKind ≠ .interrupted) :
      TakeEnds pool cursor wanted interruptions (⟨bytes, .failed error⟩, moved, after)

variable {pool : Pool σ} {cursor : Cursor} {wanted : Nat}

/-- How a call of the plain byte reader with room for `capacity` bytes may go. Only at the end does
it give no bytes. -/
inductive CallStep (pool : Pool σ) (cursor : Cursor) (capacity : Nat) :
    Except Failure (List UInt8 × Cursor) × Pool σ → Prop where
  | gave {bytes : List UInt8} {next : Pool σ}
    (hless : bytes.length ≤ min capacity cursor.remaining)
      (hend : bytes = [] → cursor.remaining = 0)
      (hserves : next.Serves (cursor.advance bytes.length)) :
      CallStep pool cursor capacity (.ok (bytes, cursor.advance bytes.length), next)
  | failed {error : Failure} {next : Pool σ} (hblames : error.blamesStore = true)
      (hserves : next.Serves cursor) : CallStep pool cursor capacity (.error error, next)

theorem readBytes_step (h : pool.Serves cursor) {capacity : Nat} (hcapacity : 0 < capacity) :
    pool.CallStep cursor capacity (pool.readBytes cursor capacity) := by
  have hstep := read_step h hcapacity
  rw [readBytes, if_neg (Nat.ne_of_gt hcapacity)]
  generalize pool.read cursor capacity = got at hstep ⊢
  cases hstep with
  | atEnd hend => exact .gave (Nat.zero_le _) (fun _ => hend) h
  | served hsome hless hlater =>
      refine .gave hless (fun hnone => ?_) hlater
      exact absurd hnone (List.length_pos_iff.mp hsome)
  | failed hblames hlater => exact .failed hblames hlater

/-- The bytes that are taken are consumed, and no others. -/
theorem Takes.account {interruptions : Nat} {bytes : List UInt8} {moved : Cursor} {next : Pool σ}
    (hserves : pool.Serves cursor)
    (h : pool.Takes cursor wanted interruptions bytes moved next) :
    next.Serves moved ∧ moved = cursor.advance bytes.length ∧
      bytes.length ≤ min wanted cursor.remaining := by
  induction h with
  | start => exact ⟨hserves, rfl, Nat.zero_le _⟩
  | @interrupted interruptions bytes moved next after error h hwanted hcall hkind ih =>
      obtain ⟨hnext, hmoved, hless⟩ := ih
      have hstep := readBytes_step hnext (show 0 < wanted - bytes.length by omega)
      rw [hcall] at hstep
      cases hstep with
      | failed hblames hlater => exact ⟨hlater, hmoved, hless⟩
  | @more interruptions bytes chunk moved further next after h hwanted hcall hsome ih =>
      obtain ⟨hnext, rfl, hless⟩ := ih
      have hleft := hserves.sound.remaining_advance bytes.length
      have hstep := readBytes_step hnext (show 0 < wanted - bytes.length by omega)
      rw [hcall] at hstep
      cases hstep with
      | gave hmore hend hlater =>
          rw [Cursor.advance_advance] at hlater ⊢
          rw [List.length_append]
          exact ⟨hlater, rfl, by omega⟩

/-- How an attempt to read exactly `wanted` bytes ended, and what that means. -/
def ExactMeans (wanted : Nat) (got : ExactRead) (last : Cursor) : Prop :=
  match got.outcome with
  | .filled => got.bytes.length = wanted
  | .endReached => got.bytes.length < wanted ∧ last.remaining = 0
  | .failed error => error.ioKind ≠ .interrupted ∧ error.blamesStore = true
  | .brokenOff => False

theorem TakeEnds.account {interruptions : Nat} {got : ExactRead} {last : Cursor} {after : Pool σ}
    (hserves : pool.Serves cursor)
    (h : pool.TakeEnds cursor wanted interruptions (got, last, after)) :
    last = cursor.advance got.bytes.length ∧ got.bytes.length ≤ min wanted cursor.remaining ∧
      ExactMeans wanted got last := by
  cases h with
  | filled h hfull =>
      obtain ⟨-, hmoved, hless⟩ := h.account hserves
      exact ⟨hmoved, hless, Nat.le_antisymm (Nat.le_trans hless (Nat.min_le_left _ _)) hfull⟩
  | endReached h hwanted hcall =>
      obtain ⟨hnext, rfl, hless⟩ := h.account hserves
      have hstep := readBytes_step hnext (Nat.sub_pos_of_lt hwanted)
      rw [hcall] at hstep
      cases hstep with
      | gave hmore hend hlater => exact ⟨rfl, hless, hwanted, hend rfl⟩
  | failed h hwanted hcall hkind =>
      obtain ⟨hnext, hmoved, hless⟩ := h.account hserves
      have hstep := readBytes_step hnext (Nat.sub_pos_of_lt hwanted)
      rw [hcall] at hstep
      cases hstep with
      | failed hblames => exact ⟨hmoved, hless, hkind, hblames⟩

/-- A bounded loop does what the loop has done so far, and goes on from there. It takes no more
rounds for that than there were interruptions and bytes. -/
theorem Takes.run {interruptions : Nat} {bytes : List UInt8} {moved : Cursor} {next : Pool σ}
    (h : pool.Takes cursor wanted interruptions bytes moved next) :
    ∃ used, used ≤ interruptions + bytes.length ∧ ∀ {rounds rest last},
      next.readExactWithin moved (wanted - bytes.length) rounds = (rest, last) →
        pool.readExactWithin cursor wanted (used + rounds) =
          (⟨bytes ++ rest.bytes, rest.outcome⟩, last) := by
  induction h with
  | start => exact ⟨0, Nat.le_refl _, fun hrest => by simpa using hrest⟩
  | @interrupted interruptions bytes moved next after error h hwanted hcall hkind ih =>
      obtain ⟨used, hused, hrun⟩ := ih
      refine ⟨used + 1, by omega, fun {rounds rest last} hrest => ?_⟩
      rw [Nat.add_right_comm, Nat.add_assoc]
      apply hrun
      rw [readExactWithin, if_neg (by omega)]
      simp only [hcall, hkind, if_true, hrest]
  | @more interruptions bytes chunk moved further next after h hwanted hcall hsome ih =>
      obtain ⟨used, hused, hrun⟩ := ih
      have hpos := List.length_pos_iff.mpr hsome
      refine ⟨used + 1, by rw [List.length_append]; omega, fun {rounds rest last} hrest => ?_⟩
      rw [List.length_append, ← Nat.sub_sub] at hrest
      have hnext : next.readExactWithin moved (wanted - bytes.length) (rounds + 1) =
          (⟨chunk ++ rest.bytes, rest.outcome⟩, last) := by
        rw [readExactWithin, if_neg (by omega)]
        cases chunk with
        | nil => exact absurd rfl hsome
        | cons byte chunk => simp only [hcall, hrest]
      rw [Nat.add_right_comm, Nat.add_assoc, hrun hnext, List.append_assoc]

/-- With an allowance for its interruptions, the bounded loop comes to where the loop ends. -/
theorem TakeEnds.run {interruptions allowance : Nat} {got : ExactRead} {last : Cursor × Pool σ}
    (hserves : pool.Serves cursor) (h : pool.TakeEnds cursor wanted interruptions (got, last))
    (hallowance : interruptions ≤ allowance) :
    pool.readExact cursor wanted allowance = (got, last) := by
  have hfinish : ∀ {bytes : List UInt8} {moved : Cursor} {next : Pool σ} {outcome : ExactEnd},
      pool.Takes cursor wanted interruptions bytes moved next →
      (∀ rounds, next.readExactWithin moved (wanted - bytes.length) (rounds + 1) =
        (⟨[], outcome⟩, last)) →
      pool.readExact cursor wanted allowance = (⟨bytes, outcome⟩, last) := by
    intro bytes moved next outcome hsofar hlast
    obtain ⟨-, -, hless⟩ := hsofar.account hserves
    obtain ⟨used, hused, hrun⟩ := hsofar.run
    obtain ⟨spare, hspare⟩ :=
      Nat.exists_eq_add_of_lt (show used < wanted + allowance + 1 by omega)
    rw [readExact, hspare, Nat.add_assoc, hrun (hlast spare), List.append_nil]
  cases h with
  | filled h hfull =>
      refine hfinish h fun rounds => ?_
      rw [readExactWithin, if_pos (Nat.sub_eq_zero_of_le hfull)]
  | endReached h hwanted hcall =>
      refine hfinish h fun rounds => ?_
      rw [readExactWithin, if_neg (by omega), hcall]
  | failed h hwanted hcall hkind =>
      refine hfinish h fun rounds => ?_
      rw [readExactWithin, if_neg (by omega)]
      simp only [hcall, hkind, if_false]

/-- Where a bounded loop is not broken off, the loop ends. -/
theorem Takes.ends {rounds : Nat} : ∀ {interruptions : Nat} {bytes : List UInt8} {moved : Cursor}
    {next : Pool σ} {rest : ExactRead} {last : Cursor × Pool σ},
    pool.Takes cursor wanted interruptions bytes moved next →
    next.readExactWithin moved (wanted - bytes.length) rounds = (rest, last) →
    rest.outcome ≠ .brokenOff →
    ∃ interruptions,
      pool.TakeEnds cursor wanted interruptions
        (⟨bytes ++ rest.bytes, rest.outcome⟩, last) := by
  induction rounds with
  | zero =>
      intro interruptions bytes moved next rest last h hrest hunbroken
      rw [readExactWithin] at hrest
      obtain ⟨rfl, rfl⟩ := Prod.mk.inj hrest
      by_cases hfull : wanted - bytes.length = 0
      · rw [if_pos hfull] at hunbroken ⊢
        rw [List.append_nil]
        exact ⟨_, .filled h (Nat.le_of_sub_eq_zero hfull)⟩
      · rw [if_neg hfull] at hunbroken
        exact absurd rfl hunbroken
  | succ rounds ih =>
      intro interruptions bytes moved next rest last h hrest hunbroken
      rw [readExactWithin] at hrest
      by_cases hfull : wanted - bytes.length = 0
      · rw [if_pos hfull] at hrest
        obtain ⟨rfl, rfl⟩ := Prod.mk.inj hrest
        rw [List.append_nil]
        exact ⟨_, .filled h (Nat.le_of_sub_eq_zero hfull)⟩
      · rw [if_neg hfull] at hrest
        have hwanted : bytes.length < wanted := by omega
        generalize hcall : next.readBytes moved (wanted - bytes.length) = call at hrest
        match call with
        | (.error error, after) =>
            by_cases hkind : error.ioKind = .interrupted
            · simp only [hkind, if_true] at hrest
              exact ih (.interrupted h hwanted hcall hkind) hrest hunbroken
            · simp only [hkind, if_false] at hrest
              obtain ⟨rfl, rfl⟩ := Prod.mk.inj hrest
              rw [List.append_nil]
              exact ⟨_, .failed h hwanted hcall hkind⟩
        | (.ok ([], further), after) =>
            obtain ⟨rfl, rfl⟩ := Prod.mk.inj hrest
            rw [List.append_nil]
            exact ⟨_, .endReached h hwanted hcall⟩
        | (.ok (byte :: chunk, further), after) =>
            have hmore : after.readExactWithin further
                (wanted - (bytes ++ byte :: chunk).length) rounds =
                after.readExactWithin further (wanted - bytes.length - (byte :: chunk).length)
                  rounds := by
              rw [List.length_append, Nat.sub_sub]
            obtain ⟨rfl, rfl⟩ := Prod.mk.inj hrest
            rw [← List.append_assoc]
            exact ih (.more h hwanted hcall (List.cons_ne_nil _ _)) hmore hunbroken

/-- What the loop for exactly `wanted` bytes comes to, whatever the stores do. For no bytes it does
nothing at all. Wherever it ends, the bytes that it has taken are consumed and no others, and the
bounded loop ends there too if it has an allowance for the interruptions. A failure of another kind
ends it. -/
structure TakesTo (pool : Pool σ) (cursor : Cursor) (wanted : Nat) : Prop where
  nothing : wanted = 0 → ∀ allowance,
    pool.readExact cursor wanted allowance = (⟨[], .filled⟩, cursor, pool)
  ends : ∀ got last,
    (∃ interruptions, pool.TakeEnds cursor wanted interruptions (got, last)) ↔
    ∃ allowance, pool.readExact cursor wanted allowance = (got, last) ∧
      got.outcome ≠ .brokenOff
  account : ∀ interruptions got last after,
    pool.TakeEnds cursor wanted interruptions (got, last, after) →
      last = cursor.advance got.bytes.length ∧ ExactMeans wanted got last
  failed : ∀ interruptions bytes moved next error after,
    pool.Takes cursor wanted interruptions bytes moved next → bytes.length < wanted →
    next.readBytes moved (wanted - bytes.length) = (.error error, after) →
    error.ioKind ≠ .interrupted →
      moved = cursor.advance bytes.length ∧ ∀ allowance, interruptions ≤ allowance →
        pool.readExact cursor wanted allowance = (⟨bytes, .failed error⟩, moved, after)

theorem takesTo (h : pool.Serves cursor) (wanted : Nat) : pool.TakesTo cursor wanted where
  nothing hnothing allowance := by rw [readExact, readExactWithin, if_pos hnothing]
  ends got last := by
    constructor
    · rintro ⟨interruptions, hend⟩
      obtain ⟨-, -, hmeans⟩ := hend.account h
      refine ⟨interruptions, hend.run h (Nat.le_refl _), fun hbroken => ?_⟩
      rw [ExactMeans, hbroken] at hmeans
      exact hmeans
    · rintro ⟨allowance, hrun, hunbroken⟩
      exact Takes.start.ends hrun hunbroken
  account interruptions got last after hend := by
    obtain ⟨hmoved, -, hmeans⟩ := hend.account h
    exact ⟨hmoved, hmeans⟩
  failed interruptions bytes moved next error after hsofar hwanted hcall hkind :=
    ⟨(hsofar.account h).2.1,
      fun _ hallowance => (TakeEnds.failed hsofar hwanted hcall hkind).run h hallowance⟩

end Taking

end Pool

/-- The failure with which a store answered. -/
def Event.refusal? : Event → Option StoreFailure
  | .storeRead _ _ _ (.error failure) => some failure
  | _ => none

namespace Pool

variable {σ : Type} [Store σ]

/-- The failures with which stores have answered so far. -/
def refusals (pool : Pool σ) : List StoreFailure :=
  pool.backend.requests.filterMap Event.refusal?

/-- From `pool` to `after` the stores have failed `most` times at most, and whenever they did they
were interrupted. -/
def Stumbles (pool after : Pool σ) (most : Nat) : Prop :=
  ∃ failures, after.refusals = pool.refusals ++ failures ∧ failures.length ≤ most ∧
    ∀ failure ∈ failures, failure.kind = .cancelled

/-- The same books over stores that have the same bytes and never fail. -/
def faultless [FaithfulStore σ] (pool : Pool σ) : Pool MemoryStore :=
  ⟨pool.ledger, ⟨pool.backend.memory, #[]⟩⟩

theorem refusals_of_quiet {pool next : Pool σ} (h : pool.backend.Quiet next.backend) :
    ∃ more, next.refusals = pool.refusals ++ more := by
  obtain ⟨more, hmore⟩ := h.requests
  exact ⟨more.filterMap Event.refusal?, by
    rw [refusals, hmore, List.filterMap_append, refusals]⟩

/-- The failures up to a later state are those up to a state in between and some more. -/
theorem refusals_between {pool next after : Pool σ} {failures first : List StoreFailure}
    (hquiet : next.backend.Quiet after.backend) (hall : after.refusals = pool.refusals ++ failures)
    (hfirst : next.refusals = pool.refusals ++ first) :
    ∃ more, failures = first ++ more ∧ after.refusals = next.refusals ++ more := by
  obtain ⟨more, hmore⟩ := refusals_of_quiet hquiet
  refine ⟨more, ?_, hmore⟩
  rw [hmore, hfirst, List.append_assoc] at hall
  exact (List.append_cancel_left hall).symm

theorem readExactWithin_quiet (rounds : Nat) : ∀ (pool : Pool σ) (cursor : Cursor)
    (wanted : Nat), pool.backend.Quiet (pool.readExactWithin cursor wanted rounds).2.2.backend := by
  induction rounds with
  | zero => exact fun _ _ _ => .refl _
  | succ rounds ih =>
      intro pool cursor wanted
      rw [readExactWithin]
      split
      · exact .refl _
      · rename_i hwanted
        have hread := pool.read_quiet cursor wanted
        have hcall : pool.backend.Quiet (pool.readBytes cursor wanted).2.backend := by
          rw [readBytes, if_neg hwanted]
          generalize pool.read cursor wanted = got at hread ⊢
          obtain ⟨answer, next⟩ := got
          cases answer <;> exact hread
        split
        · rename_i hmade
          rw [hmade] at hcall
          split
          · exact hcall.trans (ih _ _ _)
          · exact hcall
        · rename_i hmade
          rw [hmade] at hcall
          exact hcall
        · rename_i hmade
          rw [hmade] at hcall
          exact hcall.trans (ih _ _ _)

end Pool

namespace World

variable {σ : Type} [Store σ]

theorem apply_read_eq {world : World σ} {id : String} {cursor : Cursor}
    (hfind : world.find? id = some cursor) (capacity : Nat) :
    world.apply (.read id capacity) =
      match world.pool.read cursor capacity with
      | (.error error, pool) => (.error error, world.withPool pool)
      | (.ok (result, moved), pool) =>
          (.ok (.read result), (world.withPool pool).update id moved) := by
  cases hread : world.pool.read cursor capacity with
  | mk answer pool => cases answer <;> simp only [apply, withCursor, hfind, hread]

section Faithful

variable [FaithfulStore σ] {past : Pool σ} {world : World σ} {id : String} {cursor : Cursor}

/-- The bytes that a cursor has not read yet. -/
def ahead (world : World σ) (cursor : Cursor) : List UInt8 :=
  (world.visible cursor).drop cursor.offset

theorem length_ahead (hbacked : cursor.Backed world.pool.backend.memory) :
    (world.ahead cursor).length = cursor.remaining := by
  have hfirst := hbacked.sound.placed.view.first_le
  rw [ahead, List.length_drop, visible, hbacked.fits.length_content, Cursor.pieces,
    Block.total_pieces]
  simp only [Cursor.offset, Cursor.remaining, View.remaining]
  omega

/-- What is delivered is no longer ahead, and the rest still is. -/
theorem Delivers.ahead {next : World σ} {bytes : List UInt8} (hsound : cursor.Sound)
    (h : world.Delivers next id cursor bytes) :
    world.ahead cursor = bytes ++ next.ahead (cursor.advance bytes.length) := by
  obtain ⟨rest, hrest⟩ := h.front
  have hlater : next.ahead (cursor.advance bytes.length) =
      ((world.visible cursor).drop cursor.offset).drop bytes.length := by
    rw [World.ahead, visible, h.memory, hsound.offset_advance, List.drop_drop]
    rfl
  rw [hlater, World.ahead, ← hrest, List.drop_left]

/-- The cursor of this name can be read, now and after reading. -/
structure Reads (past : Pool σ) (world : World σ) (id : String) (cursor : Cursor) : Prop where
  ordered : Ordered past world
  provided : world.Provided
  found : world.find? id = some cursor

theorem Reads.backed (h : world.Reads past id cursor) :
    cursor.Backed world.pool.backend.memory :=
  h.provided _ (mem_of_find? h.found)

theorem Reads.serves (h : world.Reads past id cursor) : world.pool.Serves cursor :=
  ⟨h.backed.sound, h.ordered.shows h.found⟩

/-- How a call of the plain byte reader may go over faithful stores. What it gives is what was
ahead, and it is refused with the one failure of a store. -/
inductive CallGives (past : Pool σ) (world : World σ) (id : String) (cursor : Cursor)
    (wanted : Nat) : Except Failure (List UInt8 × Cursor) × Pool σ → Prop where
  | atEnd (hend : cursor.remaining = 0) :
      CallGives past world id cursor wanted (.ok ([], cursor), world.pool)
  | gave {bytes : List UInt8} {next : World σ} (hsome : bytes ≠ [])
      (hless : bytes.length ≤ min wanted cursor.remaining)
      (hreads : next.Reads past id (cursor.advance bytes.length))
      (hahead : world.ahead cursor = bytes ++ next.ahead (cursor.advance bytes.length))
      {failures : List StoreFailure}
      (hrefusals : next.pool.refusals = world.pool.refusals ++ failures) :
      CallGives past world id cursor wanted (.ok (bytes, cursor.advance bytes.length), next.pool)
  | refused {failure : StoreFailure} {next : World σ} (hreads : next.Reads past id cursor)
      (hahead : world.ahead cursor = next.ahead cursor)
      (hrefusals : next.pool.refusals = world.pool.refusals ++ [failure]) :
      CallGives past world id cursor wanted (.error (.store failure), next.pool)

theorem readBytes_gives (h : world.Reads past id cursor) {wanted : Nat} (hwanted : 0 < wanted) :
    world.CallGives past id cursor wanted (world.pool.readBytes cursor wanted) := by
  have hstep := Pool.read_step h.serves hwanted
  have hends := read_ends h.ordered h.provided h.found hwanted
  have hdelivers := read_delivers h.ordered h.provided h.found wanted
  have hordered := (apply_lands h.ordered (.read id wanted)).ordered
  have hprovided := apply_provided h.ordered h.provided (.read id wanted)
  obtain ⟨failures, hfailures⟩ :=
    Pool.refusals_of_quiet (world.pool.read_quiet cursor wanted)
  rw [apply_read_eq h.found] at hends hdelivers hordered hprovided
  rw [Pool.readBytes, if_neg (Nat.ne_of_gt hwanted)]
  generalize world.pool.read cursor wanted = got
    at hstep hends hdelivers hordered hprovided hfailures ⊢
  cases hstep with
  | atEnd hend => exact .atEnd hend
  | @served bytes next hsome hless hserves =>
      exact .gave (List.length_pos_iff.mp hsome) hless ⟨hordered, hprovided, hdelivers.moved⟩
        (hdelivers.ahead h.backed.sound) hfailures
  | @failed error next hblames hserves =>
      cases hends with
      | failed hnext hcursors hledger hrequests hwarnings =>
          refine .refused ⟨hordered, hprovided, h.found⟩ (hdelivers.ahead h.backed.sound) ?_
          have hlines : next.backend.requests = world.pool.backend.requests ++ _ := hrequests
          simp only [Pool.refusals, withPool, hlines, List.filterMap_append]
          rfl

/-- What was got are the bytes ahead, as many as were wanted or as there are. -/
def Fills (world : World σ) (cursor : Cursor) (wanted : Nat) (got : ExactRead) : Prop :=
  got.bytes = (world.ahead cursor).take wanted ∧
    got.outcome = if wanted ≤ cursor.remaining then .filled else .endReached

theorem Fills.at_end (h : world.Reads past id cursor) (hend : cursor.remaining = 0) {wanted : Nat}
    (hwanted : 0 < wanted) : world.Fills cursor wanted ⟨[], .endReached⟩ := by
  have hnone := List.length_eq_zero_iff.mp ((length_ahead h.backed).trans hend)
  rw [Fills, hnone, hend, List.take_nil, if_neg (by omega)]
  exact ⟨rfl, rfl⟩

/-- Some bytes, and then what is still wanted after them. -/
theorem Fills.after {next : World σ} {bytes : List UInt8} {wanted : Nat} {rest : ExactRead}
    (hsound : cursor.Sound)
    (hahead : world.ahead cursor = bytes ++ next.ahead (cursor.advance bytes.length))
    (hless : bytes.length ≤ min wanted cursor.remaining)
    (h : next.Fills (cursor.advance bytes.length) (wanted - bytes.length) rest) :
    world.Fills cursor wanted ⟨bytes ++ rest.bytes, rest.outcome⟩ := by
  have hleft := hsound.remaining_advance bytes.length
  obtain ⟨hbytes, houtcome⟩ := h
  constructor
  · rw [hbytes, hahead, List.take_append,
      List.take_of_length_le (show bytes.length ≤ wanted by omega)]
  · rw [houtcome]
    exact if_congr (by omega) rfl rfl

/-- Over faithful stores that fail no more often than there are rounds for it, and only when they
are interrupted, a bounded loop gives the bytes ahead. Each round costs a byte or a failure. -/
theorem readExactWithin_fills (rounds : Nat) : ∀ {world : World σ} {cursor last : Cursor}
    {wanted : Nat} {got : ExactRead} {after : Pool σ} {failures : List StoreFailure},
    world.Reads past id cursor →
    world.pool.readExactWithin cursor wanted rounds = (got, last, after) →
    after.refusals = world.pool.refusals ++ failures →
    (∀ failure ∈ failures, failure.kind = .cancelled) → wanted + failures.length < rounds →
    world.Fills cursor wanted got := by
  induction rounds with
  | zero => exact fun _ _ _ _ hrounds => absurd hrounds (Nat.not_lt_zero _)
  | succ rounds ih =>
      intro world cursor last wanted got after failures h hrun hfailures hcancelled hrounds
      rw [Pool.readExactWithin] at hrun
      by_cases hwanted : wanted = 0
      · rw [if_pos hwanted] at hrun
        obtain ⟨rfl, -⟩ := Prod.mk.inj hrun
        simp [Fills, hwanted]
      · rw [if_neg hwanted] at hrun
        have hcall := readBytes_gives h (Nat.pos_of_ne_zero hwanted)
        generalize world.pool.readBytes cursor wanted = call at hcall hrun
        cases hcall with
        | atEnd hend =>
            obtain ⟨rfl, -⟩ := Prod.mk.inj hrun
            exact Fills.at_end h hend (Nat.pos_of_ne_zero hwanted)
        | @gave bytes next hsome hless hreads hahead first hfirst =>
            have hpos := List.length_pos_iff.mpr hsome
            cases bytes with
            | nil => exact absurd rfl hsome
            | cons byte bytes =>
                have hquiet := next.pool.readExactWithin_quiet rounds
                  (cursor.advance (byte :: bytes).length) (wanted - (byte :: bytes).length)
                cases hrest : next.pool.readExactWithin (cursor.advance (byte :: bytes).length)
                    (wanted - (byte :: bytes).length) rounds with
                | mk rest ended =>
                    obtain ⟨moved, later⟩ := ended
                    simp only [hrest] at hrun hquiet
                    obtain ⟨rfl, hended⟩ := Prod.mk.inj hrun
                    obtain ⟨rfl, rfl⟩ := Prod.mk.inj hended
                    obtain ⟨more, rfl, hmore⟩ := Pool.refusals_between hquiet hfailures hfirst
                    rw [List.length_append] at hrounds
                    exact Fills.after h.backed.sound hahead hless (ih hreads hrest hmore
                      (fun failure hmem => hcancelled failure (List.mem_append_right _ hmem))
                      (by omega))
        | @refused failure next hreads hahead hfirst =>
            by_cases hinterrupted : (Failure.store failure).ioKind = .interrupted
            · simp only [hinterrupted, if_true] at hrun
              have hquiet := next.pool.readExactWithin_quiet rounds cursor wanted
              rw [hrun] at hquiet
              obtain ⟨more, rfl, hmore⟩ := Pool.refusals_between hquiet hfailures hfirst
              rw [List.length_append, List.length_singleton] at hrounds
              rw [Fills, hahead]
              exact ih hreads hrun hmore
                (fun failure hmem => hcancelled failure (List.mem_append_right _ hmem)) (by omega)
            · simp only [hinterrupted, if_false] at hrun
              obtain ⟨-, hlast⟩ := Prod.mk.inj hrun
              obtain ⟨-, rfl⟩ := Prod.mk.inj hlast
              rw [hfirst] at hfailures
              obtain rfl := List.append_cancel_left hfailures
              have hkind : failure.kind = .cancelled :=
                hcancelled failure (List.mem_singleton_self _)
              refine absurd ?_ hinterrupted
              simp only [Failure.ioKind, Failure.kind, hkind, IoKind.ofKind]

/-- Stores that never fail give all bytes of an exact read at once. -/
theorem readBytes_faultless (h : world.Reads past id cursor) {wanted : Nat}
    (hwanted : wanted ≤ cursor.remaining) :
    (world.pool.faultless.readBytes cursor wanted).1 =
      .ok ((world.ahead cursor).take wanted, cursor.advance wanted) := by
  by_cases hnothing : wanted = 0
  · subst hnothing
    rfl
  · have hpos := Nat.pos_of_ne_zero hnothing
    have hasks := Cursor.wanted_eq hpos (Nat.lt_of_lt_of_le hpos hwanted)
    rw [Nat.min_eq_left hwanted] at hasks
    have hbacked : cursor.Backed world.pool.faultless.backend.stores := h.backed
    have hread := Pool.read_memory hbacked h.serves.shows hasks
    have hahead :
        (cursor.stretch world.pool.faultless.backend.stores).ahead = world.ahead cursor := by
      have hoffset : (cursor.stretch world.pool.faultless.backend.stores).position -
          (cursor.stretch world.pool.faultless.backend.stores).first = cursor.offset :=
        hbacked.offset
      rw [Stretch.ahead, hoffset]
      rfl
    rw [hahead] at hread
    rw [Pool.readBytes, if_neg hnothing]
    generalize world.pool.faultless.read cursor wanted = got at hread
    obtain ⟨answer, after⟩ := got
    obtain rfl : answer = _ := hread
    rfl

/-- What the loop for exactly `wanted` bytes comes to over faithful stores, if they do not fail more
often than is allowed for, and only when they are interrupted. -/
def FillsTo (world : World σ) (cursor : Cursor) (wanted allowance : Nat) : Prop :=
  let run := world.pool.readExact cursor wanted allowance
  world.pool.Stumbles run.2.2 allowance →
    if wanted ≤ cursor.remaining then
      run.1.outcome = .filled ∧
        (world.pool.faultless.readBytes cursor wanted).1 = .ok (run.1.bytes, run.2.1)
    else
      run.1.outcome = .endReached ∧ run.1.bytes = world.ahead cursor ∧
        run.2.1 = cursor.advance cursor.remaining ∧ run.2.1.remaining = 0

theorem fillsTo (h : world.Reads past id cursor) (wanted allowance : Nat) :
    world.FillsTo cursor wanted allowance := by
  unfold FillsTo
  cases hrun : world.pool.readExact cursor wanted allowance with
  | mk got rest =>
  obtain ⟨last, after⟩ := rest
  dsimp only
  rintro ⟨failures, hfailures, hmost, hcancelled⟩
  obtain ⟨hbytes, houtcome⟩ := readExactWithin_fills (wanted + allowance + 1) h hrun hfailures
    hcancelled (by omega)
  have hunbroken : got.outcome ≠ .brokenOff := by
    rw [houtcome]
    split <;> exact ExactEnd.noConfusion
  obtain ⟨interruptions, hend⟩ :=
    ((Pool.takesTo h.serves wanted).ends got (last, after)).mpr ⟨allowance, hrun, hunbroken⟩
  obtain ⟨hmoved, -, -⟩ := hend.account h.serves
  have hlength := length_ahead h.backed
  have htaken : got.bytes.length = min wanted cursor.remaining := by
    rw [hbytes, List.length_take, hlength]
  split
  · rename_i hfits
    rw [if_pos hfits] at houtcome
    rw [hmoved, hbytes, readBytes_faultless h hfits, List.length_take, hlength,
      Nat.min_eq_left hfits]
    exact ⟨houtcome, rfl⟩
  · rename_i hover
    rw [if_neg hover] at houtcome
    have hall : got.bytes = world.ahead cursor := by
      rw [hbytes, List.take_of_length_le (by omega)]
    have hend : last = cursor.advance cursor.remaining := by rw [hmoved, hall, hlength]
    refine ⟨houtcome, hall, hend, ?_⟩
    rw [hend, h.backed.sound.remaining_advance, Nat.sub_self]

end Faithful

/-- For every reachable cursor, whatever the stores do: the loop that reads to the end comes to an
end and keeps account of every byte, and so does the loop that reads exactly so many bytes, as long
as it is not interrupted for ever. Over stores that deliver some of their bytes or are interrupted,
the latter gives what a read of stores that never fail gives, or all that is left. -/
theorem reading_loops_account (operations : List (Operation σ)) {id : String} {cursor : Cursor}
    (hfind : (run {} operations).find? id = some cursor) :
    let world := run {} operations
    world.pool.DrainsTo cursor (world.pool.readToEnd cursor) ∧
      ∀ wanted, world.pool.TakesTo cursor wanted ∧
        ∀ [FaithfulStore σ] (allowance : Nat), world.FillsTo cursor wanted allowance := by
  intro world
  have h : Ordered {} world := run_empty_ordered operations
  have hserves : world.pool.Serves cursor := ⟨(h.focus hfind).1, h.shows hfind⟩
  refine ⟨Pool.drainsTo hserves, fun wanted => ⟨Pool.takesTo hserves wanted, ?_⟩⟩
  intro faithful allowance
  exact fillsTo ⟨h, run_empty_provided operations, hfind⟩ wanted allowance

/-- Two stores end to end. The first one delivers two of its four bytes, and then is interrupted
twice. -/
def hesitant : List (Operation FaithfulScript) :=
  let interrupted : ReadAction := .fail ⟨.cancelled, "interrupted", none⟩
  let first : ScriptStore :=
    { name := "left", label := "left", data := .cyclic 4,
      reads := [.short 2, interrupted, interrupted] }
  let second : ScriptStore := { name := "right", label := "right", data := .cyclic 3 }
  let plan (store : FaithfulScript) : Blueprint FaithfulScript := { store, settings := .compact }
  [.build "a" (plan ⟨first, by decide⟩), .build "b" (plan ⟨second, by decide⟩),
    .concat "a" "b" none]

theorem reading_loops_account_hesitant :
    let world := run {} hesitant
    ∃ cursor, world.find? "a" = some cursor ∧
      (world.pool.readToEnd cursor).1.chunks = [[0, 1]] ∧
      world.pool.DrainsTo cursor (world.pool.readToEnd cursor) ∧
      world.pool.TakesTo cursor 6 ∧
      world.pool.Stumbles (world.pool.readExact cursor 6 2).2.2 2 ∧
      (world.pool.readExact cursor 6 2).1.outcome = .filled ∧
      (world.pool.faultless.readBytes cursor 6).1 =
        .ok ([0, 1, 2, 3, 0, 1], (world.pool.readExact cursor 6 2).2.1) := by
  intro world
  obtain ⟨cursor, hfind⟩ :=
    Option.isSome_iff_exists.mp (show (world.find? "a").isSome = true by decide)
  obtain ⟨hdrains, hexact⟩ := reading_loops_account hesitant hfind
  obtain ⟨htakes, hfills⟩ := hexact 6
  have hread : (world.find? "a").elim false (fun cursor =>
      decide ((world.pool.readToEnd cursor).1.chunks = [[0, 1]] ∧
        world.pool.refusals = [] ∧
        (world.pool.readExact cursor 6 2).2.2.refusals =
          List.replicate 2 ⟨.cancelled, "interrupted", none⟩ ∧
        (world.pool.readExact cursor 6 2).1.bytes = [0, 1, 2, 3, 0, 1] ∧
        6 ≤ cursor.remaining)) = true := by
    decide +kernel
  rw [hfind, Option.elim_some, decide_eq_true_eq] at hread
  obtain ⟨hchunks, hbefore, hafter, hbytes, hfits⟩ := hread
  have hstumbles : world.pool.Stumbles (world.pool.readExact cursor 6 2).2.2 2 := by
    refine ⟨_, by rw [hbefore, hafter, List.nil_append], by simp, fun failure hmem => ?_⟩
    rw [List.eq_of_mem_replicate hmem]
  have hfilled := hfills 2 hstumbles
  rw [if_pos hfits, hbytes] at hfilled
  exact ⟨cursor, hfind, hchunks, hdrains, htakes, hstumbles, hfilled⟩

end World

end SharedStream
