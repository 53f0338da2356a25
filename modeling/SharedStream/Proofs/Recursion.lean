import SharedStream.Cursor.Reading
/-!
A composition read by recursion on its tree: the left child's part first, and the right child's part
only after every byte of the left one is in hand. The reader of the library keeps a list of pending
parts instead. Both ask the stores for the same bytes in the same order and deliver the same, since
taking a range apart puts its parts where the range stood in the list.
-/

namespace SharedStream

/-- The event is a request to a store for bytes. -/
def Event.isRequest : Event → Bool
  | storeRead _ _ _ _ => true
  | _ => false

/-- What a reader answers: bytes in hand are a success, even if a failure came after them. -/
def Gathered.answer (got : Gathered) : Except Failure (List UInt8) :=
  match got.failure with
  | none => .ok got.bytes
  | some error => if got.bytes.isEmpty then .error error else .ok got.bytes

namespace Backend

variable {σ : Type}

/-- The requests for bytes, with what the stores answered. -/
def requests (backend : Backend σ) : List Event :=
  backend.journal.toList.filter Event.isRequest

/-- Two backends with the same stores, one of which was asked `earlier` in addition. -/
structure Alike (earlier : List Event) (backend other : Backend σ) : Prop where
  stores : backend.stores = other.stores
  requests : backend.requests = earlier ++ other.requests

namespace Alike

variable {earlier : List Event} {backend other : Backend σ}

theorem refl (backend : Backend σ) : Alike [] backend backend := ⟨rfl, rfl⟩

theorem bare (backend : Backend σ) : Alike backend.requests backend ⟨backend.stores, #[]⟩ :=
  ⟨rfl, by simp [Backend.requests]⟩

theorem log (h : Alike earlier backend other) {event : Event} (hevent : event.isRequest = false) :
    Alike earlier (backend.log event) other := by
  refine ⟨h.stores, ?_⟩
  rw [← h.requests]
  simp [Backend.requests, Backend.log, hevent]

theorem noteCrossing (h : Alike earlier backend other) (joint : Joint) (position length : Nat) :
    Alike earlier (backend.noteCrossing joint position length) other := by
  unfold Backend.noteCrossing
  split
  · exact h.log rfl
  · exact h

theorem settle (h : Alike earlier backend other) (got : Gathered) :
    (backend.settle got).1 = got.answer ∧ Alike earlier (backend.settle got).2 other := by
  unfold Backend.settle Gathered.answer
  cases got.failure with
  | none => exact ⟨rfl, h⟩
  | some error =>
      cases got.bytes.isEmpty with
      | true => exact ⟨rfl, h⟩
      | false => exact ⟨rfl, h.log rfl⟩

variable [Store σ]

theorem read (h : Alike earlier backend other) (store : StoreRef) (position length : Nat) :
    (backend.read store position length).1 = (other.read store position length).1 ∧
      Alike earlier (backend.read store position length).2
        (other.read store position length).2 := by
  unfold Backend.read
  rw [h.stores]
  split
  · exact ⟨rfl, h⟩
  · refine ⟨rfl, rfl, ?_⟩
    have hrequests := h.requests
    simp only [Backend.requests] at hrequests
    simp [Backend.requests, List.filter_append, hrequests]

theorem fill (h : Alike earlier backend other) (store : StoreRef) (position length : Nat) :
    (backend.fill store position length).1 = (other.fill store position length).1 ∧
      Alike earlier (backend.fill store position length).2
        (other.fill store position length).2 := by
  induction length using Nat.strongRecOn generalizing backend other position with
  | ind length ih =>
      obtain ⟨hanswer, hafter⟩ := h.read store position length
      rw [Backend.fill, Backend.fill]
      split
      · exact ⟨rfl, h⟩
      · rename_i hlength
        generalize hread : backend.read store position length = got at hanswer hafter
        generalize hread' : other.read store position length = got' at hanswer hafter
        obtain ⟨answer, after⟩ := got
        obtain ⟨answer', after'⟩ := got'
        obtain rfl : answer = answer' := hanswer
        cases answer with
        | error failure => exact ⟨rfl, hafter⟩
        | ok reply =>
            simp only
            split
            · exact ⟨rfl, hafter⟩
            · rename_i hcount
              obtain ⟨hrest, hlast⟩ :=
                ih (length - min reply.count length) (by omega) hafter
                  (position + min reply.count length)
              exact ⟨by rw [hrest], hlast⟩

end Alike

/-- Continue with `next` once all bytes are in hand, and keep the bytes before it. -/
def andThen (got : Gathered × Backend σ) (next : Backend σ → Gathered × Backend σ) :
    Gathered × Backend σ :=
  match got.1.failure with
  | some _ => got
  | none => (⟨got.1.bytes ++ (next got.2).1.bytes, (next got.2).1.failure⟩, (next got.2).2)

@[simp] theorem nothing_andThen (backend : Backend σ)
    (next : Backend σ → Gathered × Backend σ) :
    andThen (⟨[], none⟩, backend) next = next backend := by
  simp [andThen]

@[simp] theorem andThen_nothing (got : Gathered × Backend σ) :
    andThen got (fun backend => (⟨[], none⟩, backend)) = got := by
  obtain ⟨⟨bytes, failure⟩, backend⟩ := got
  cases failure <;> simp [andThen]

theorem andThen_assoc (got : Gathered × Backend σ)
    (next last : Backend σ → Gathered × Backend σ) :
    andThen (andThen got next) last = andThen got fun backend => andThen (next backend) last := by
  obtain ⟨⟨bytes, failure⟩, backend⟩ := got
  cases failure with
  | some error => rfl
  | none =>
      rcases hnext : next backend with ⟨⟨more, failure⟩, after⟩
      cases failure <;> simp [andThen, hnext]

/-- A reader that goes on from `filled` either stops with what was got, or continues with `next`
after it. -/
def Continues (earlier : List Event) (run : Gathered × Backend σ) (filled : List UInt8)
    (got : Gathered × Backend σ)
    (next : Backend σ → List UInt8 → Gathered × Backend σ) : Prop :=
  match got.1.failure with
  | some error => run.1 = ⟨filled ++ got.1.bytes, some error⟩ ∧ Alike earlier run.2 got.2
  | none => ∃ after, Alike earlier after got.2 ∧ run = next after (filled ++ got.1.bytes)

namespace Continues

variable {earlier : List Event} {run got : Gathered × Backend σ} {filled : List UInt8}
  {next : Backend σ → List UInt8 → Gathered × Backend σ}

theorem andThen {middle : Backend σ → List UInt8 → Gathered × Backend σ}
    {more : Backend σ → Gathered × Backend σ}
    (hfirst : Continues earlier run filled got middle)
    (hsecond : ∀ {after}, Alike earlier after got.2 →
      Continues earlier (middle after (filled ++ got.1.bytes)) (filled ++ got.1.bytes)
        (more got.2) next) :
    Continues earlier run filled (Backend.andThen got more) next := by
  unfold Continues at hfirst
  unfold Continues Backend.andThen
  cases hfailure : got.1.failure with
  | some error => simpa [hfailure] using hfirst
  | none =>
      rw [hfailure] at hfirst
      obtain ⟨after, halike, rfl⟩ := hfirst
      have hnext := hsecond halike
      unfold Continues at hnext
      simpa [List.append_assoc] using hnext

end Continues

/-- Either everything is in hand, or reading failed before the end. -/
def Fills (length : Nat) (got : Gathered) : Prop :=
  (got.failure = none ∧ got.bytes.length = length) ∨
    ∃ error, got.failure = some error ∧ got.bytes.length < length

theorem andThen_fills {got : Gathered × Backend σ} {next : Backend σ → Gathered × Backend σ}
    {first second : Nat} (hfirst : Fills first got.1)
    (hsecond : Fills second (next got.2).1) : Fills (first + second) (andThen got next).1 := by
  unfold andThen
  rcases hfirst with ⟨hnone, hall⟩ | ⟨error, hsome, hless⟩
  · simp only [hnone]
    rcases hsecond with ⟨hnone', hall'⟩ | ⟨error, hsome, hless⟩
    · exact Or.inl ⟨hnone', by simp only [List.length_append]; omega⟩
    · exact Or.inr ⟨error, hsome, by simp only [List.length_append]; omega⟩
  · simp only [hsome]
    exact Or.inr ⟨error, hsome, by omega⟩

/-- Once a child has answered, both recursions know the same of it. -/
theorem answer_of_fills {length : Nat} {got : Gathered} (hfills : Fills length got) :
    (got.answer = .ok got.bytes ∧ (got.failure = none ↔ got.bytes.length = length)) ∨
      ∃ error, got.answer = .error error ∧ got.failure = some error ∧ got.bytes = [] := by
  unfold Gathered.answer
  rcases hfills with ⟨hnone, hall⟩ | ⟨error, hsome, hless⟩
  · exact Or.inl ⟨by rw [hnone], by simp [hnone, hall]⟩
  · rw [hsome]
    cases hbytes : got.bytes with
    | nil => exact Or.inr ⟨error, by simp, rfl, rfl⟩
    | cons byte bytes =>
        rw [hbytes] at hless
        exact Or.inl ⟨by simp, by simp; simp at hless; omega⟩

theorem length_of_answer {length : Nat} {got : Gathered} {bytes : List UInt8}
    (hfills : Fills length got) (hlength : 0 < length) (hanswer : got.answer = .ok bytes) :
    0 < bytes.length ∧ bytes.length ≤ length := by
  unfold Gathered.answer at hanswer
  rcases hfills with ⟨hnone, hall⟩ | ⟨error, hsome, hless⟩
  · rw [hnone] at hanswer
    obtain rfl := Except.ok.inj hanswer
    omega
  · rw [hsome] at hanswer
    cases hbytes : got.bytes with
    | nil => simp [hbytes] at hanswer
    | cons byte rest =>
        rw [hbytes] at hanswer hless
        obtain rfl := Except.ok.inj hanswer
        exact ⟨Nat.succ_pos _, Nat.le_of_lt hless⟩

/-- A failure of the second reading is forgotten, since there are bytes from the first. -/
theorem answer_andThen {first : Gathered × Backend σ}
    {next : Backend σ → Gathered × Backend σ}
    {length : Nat} (hfirst : Fills length first.1) (hlength : 0 < length) :
    ((andThen first next).1.answer, (andThen first next).2) =
      match first.1.answer with
      | .error error => (.error error, first.2)
      | .ok bytes =>
          if bytes.length = length then
            match (next first.2).1.answer with
            | .error _ => (.ok bytes, (next first.2).2)
            | .ok more => (.ok (bytes ++ more), (next first.2).2)
          else (.ok bytes, first.2) := by
  unfold andThen
  rcases answer_of_fills hfirst with ⟨hok, hnone⟩ | ⟨error, herror, hsome, -⟩
  · rw [hok]
    by_cases hall : first.1.bytes.length = length
    · have hsome : first.1.bytes.isEmpty = false := by
        cases hbytes : first.1.bytes with
        | nil =>
            rw [hbytes] at hall
            exact absurd hlength (by rw [← hall]; exact Nat.lt_irrefl 0)
        | cons byte bytes => rfl
      simp only [hnone.mpr hall, hall, if_true, Gathered.answer]
      cases (next first.2).1.failure with
      | none => rfl
      | some error => cases hmore : (next first.2).1.bytes <;> simp_all
    · cases hfailure : first.1.failure with
      | none => exact absurd (hnone.mp hfailure) hall
      | some error => simp [hok, hall]
  · rw [herror]
    simp [hsome, herror]

variable [Store σ]

theorem fill_fills (backend : Backend σ) (store : StoreRef) (position length : Nat) :
    Fills length (backend.fill store position length).1 := by
  fun_induction Backend.fill backend store position length with
  | case1 => exact Or.inl ⟨rfl, rfl⟩
  | case2 backend position length hlength failure after hread =>
      exact Or.inr ⟨_, rfl, Nat.pos_of_ne_zero hlength⟩
  | case3 backend position length hlength reply after hread hcount =>
      exact Or.inr ⟨_, rfl, Nat.pos_of_ne_zero hlength⟩
  | case4 backend position length hlength reply after hread hcount taken rest last hrest ih =>
      rw [hrest] at ih
      have hbytes : (reply.front taken ++ rest.bytes).length = taken + rest.bytes.length := by
        rw [List.length_append, Reply.length_front]
      rcases ih with ⟨hnone, hall⟩ | ⟨error, hsome, hless⟩
      · exact Or.inl ⟨hnone, by dsimp only at hall ⊢; omega⟩
      · exact Or.inr ⟨error, hsome, by dsimp only at hless ⊢; omega⟩

/-- Read a part of a composition through the child on one side, if it is still there and shows
it. -/
def throughChild {α : Type} (backend : Backend σ) (ledger : Ledger) (number : Nat) (side : Side)
    (child : Cursor) (position length : Nat) (fail : Fault → α)
    (read : (start : Nat) → α × Backend σ) : α × Backend σ :=
  if ledger.attached number side then
    match child.locate position length with
    | .ok start => read start
    | .error fault => (fail fault, backend)
  else (fail (.childRetired side), backend)

/-- The bytes of a block from an inner position on, gathered by recursion on its tree until a
failure. -/
def collect (backend : Backend σ) (ledger : Ledger) :
    Block → (position length : Nat) → Gathered × Backend σ
  | .source _ store, position, length => backend.fill store position length
  | .composed header joint left right, position, length =>
      let stop := position + length
      let leftLength := min stop joint.boundary - position
      let rightStart := max position joint.boundary
      let first : Gathered × Backend σ :=
        if position < joint.boundary then
          throughChild backend ledger header.number .left (joint.child left right .left) position
            leftLength (fun fault => ⟨[], some fault⟩)
            fun start => backend.collect ledger left start leftLength
        else (⟨[], none⟩, backend)
      andThen first fun backend =>
        if joint.boundary < stop then
          throughChild backend ledger header.number .right (joint.child left right .right)
            rightStart (stop - rightStart) (fun fault => ⟨[], some fault⟩)
            fun start => backend.collect ledger right start (stop - rightStart)
        else (⟨[], none⟩, backend)

/-- Read a block by recursion on its tree. What a child could read before it failed is a success of
that child; the right child is asked only if the left one delivered everything. -/
def readRecursively (backend : Backend σ) (ledger : Ledger) :
    Block → (position length : Nat) → Except Failure (List UInt8) × Backend σ
  | .source _ store, position, length =>
      ((backend.fill store position length).1.answer, (backend.fill store position length).2)
  | .composed header joint left right, position, length =>
      let stop := position + length
      if position < joint.boundary then
        let leftLength := min stop joint.boundary - position
        match throughChild backend ledger header.number .left (joint.child left right .left)
            position leftLength (fun fault => .error (.fault fault))
            (fun start => backend.readRecursively ledger left start leftLength) with
        | (.error error, backend) => (.error error, backend)
        | (.ok bytes, backend) =>
            if bytes.length = leftLength ∧ joint.boundary < stop then
              match throughChild backend ledger header.number .right
                  (joint.child left right .right) joint.boundary (stop - joint.boundary)
                  (fun fault => .error (.fault fault))
                  (fun start =>
                    backend.readRecursively ledger right start (stop - joint.boundary)) with
              | (.error _, backend) => (.ok bytes, backend)
              | (.ok more, backend) => (.ok (bytes ++ more), backend)
            else (.ok bytes, backend)
      else
        throughChild backend ledger header.number .right (joint.child left right .right) position
          length (fun fault => .error (.fault fault))
          fun start => backend.readRecursively ledger right start length

/-- Collect a part of a composition through one child. -/
def collectThrough (backend : Backend σ) (ledger : Ledger) (number : Nat) (side : Side)
    (child : Cursor) (position length : Nat) : Gathered × Backend σ :=
  throughChild backend ledger number side child position length (fun fault => ⟨[], some fault⟩)
    fun start => backend.collect ledger child.block start length

/-- Read a part of a composition recursively through one child. -/
def readThrough (backend : Backend σ) (ledger : Ledger) (number : Nat) (side : Side)
    (child : Cursor) (position length : Nat) : Except Failure (List UInt8) × Backend σ :=
  throughChild backend ledger number side child position length
    (fun fault => .error (.fault fault))
    fun start => backend.readRecursively ledger child.block start length

theorem collect_composed (backend : Backend σ) (ledger : Ledger) (header : Header) (joint : Joint)
    (left right : Block) (position length : Nat) :
    backend.collect ledger (.composed header joint left right) position length =
      andThen
        (if position < joint.boundary then
          backend.collectThrough ledger header.number .left (joint.child left right .left) position
            (min (position + length) joint.boundary - position)
        else (⟨[], none⟩, backend))
        fun backend =>
          if joint.boundary < position + length then
            backend.collectThrough ledger header.number .right (joint.child left right .right)
              (max position joint.boundary) (position + length - max position joint.boundary)
          else (⟨[], none⟩, backend) := rfl

variable {earlier : List Event} {backend other : Backend σ} {ledger : Ledger}

/-- The first pending part, as long as the rest of the list is left alone by it. -/
theorem gather_part (number : Nat) (side : Side) (child : Cursor) (position length : Nat)
    (filled : List UInt8) (parts : List Part) (h : Alike earlier backend other)
    (hchild : ∀ start, child.locate position length = .ok start →
      Continues earlier (backend.gather ledger filled (.range child position length :: parts))
        filled (other.collect ledger child.block start length)
        fun backend filled => backend.gather ledger filled parts) :
    Continues earlier
      (backend.gather ledger filled (ledger.part number side child position length :: parts))
      filled
      (other.collectThrough ledger number side child position length)
      fun backend filled => backend.gather ledger filled parts := by
  unfold collectThrough throughChild Ledger.part
  cases hattached : ledger.attached number side with
  | false =>
      simp only [Bool.false_eq_true, if_false]
      rw [gather]
      exact ⟨by simp, h⟩
  | true =>
      simp only [if_true]
      cases hlocate : child.locate position length with
      | ok start => exact hchild start hlocate
      | error fault =>
          obtain ⟨block, view⟩ := child
          rw [gather]
          simp only [hlocate]
          exact ⟨by simp, h⟩

theorem gather_side (needed : Prop) [Decidable needed] (number : Nat) (side : Side) (child : Cursor)
    (position length : Nat) (filled : List UInt8) (parts : List Part)
    (h : Alike earlier backend other)
    (hchild : ∀ start, child.locate position length = .ok start →
      Continues earlier (backend.gather ledger filled (.range child position length :: parts))
        filled (other.collect ledger child.block start length)
        fun backend filled => backend.gather ledger filled parts) :
    Continues earlier
      (backend.gather ledger filled
        ((if needed then [ledger.part number side child position length] else []) ++ parts))
      filled
      (if needed then other.collectThrough ledger number side child position length
        else (⟨[], none⟩, other))
      fun backend filled => backend.gather ledger filled parts := by
  by_cases hneeded : needed
  · simp only [hneeded, if_true]
    exact gather_part number side child position length filled parts h hchild
  · simp only [hneeded, if_false]
    exact ⟨backend, h, by simp⟩

/-- The pending list reads a range of the block exactly as the recursion does, and goes on with the
rest. -/
def Follows (σ : Type) [Store σ] (ledger : Ledger) (block : Block) : Prop :=
  ∀ {earlier : List Event} {backend other : Backend σ} (view : View)
    (position length start : Nat) (filled : List UInt8) (parts : List Part),
    Alike earlier backend other → Cursor.locate ⟨block, view⟩ position length = .ok start →
    Continues earlier
      (backend.gather ledger filled (.range ⟨block, view⟩ position length :: parts))
      filled (other.collect ledger block start length)
      fun backend filled => backend.gather ledger filled parts

theorem gather_parts {left right : Block} (ihleft : Follows σ ledger left)
    (ihright : Follows σ ledger right) (header : Header) (joint : Joint) (start length : Nat)
    (filled : List UInt8) (parts : List Part) (h : Alike earlier backend other) :
    Continues earlier
      (backend.gather ledger filled
        (ledger.parts header.number joint left right start length ++ parts))
      filled (other.collect ledger (.composed header joint left right) start length)
      fun backend filled => backend.gather ledger filled parts := by
  rw [collect_composed]
  simp only [Ledger.parts, List.append_assoc]
  have hleft := gather_side (start < joint.boundary) header.number .left
    (joint.child left right .left) start (min (start + length) joint.boundary - start) filled
    ((if joint.boundary < start + length then
        [ledger.part header.number .right (joint.child left right .right)
          (max start joint.boundary) (start + length - max start joint.boundary)]
      else []) ++ parts) h
    fun inner => ihleft joint.leftView start _ inner filled _ h
  refine hleft.andThen fun hafter => ?_
  exact gather_side (joint.boundary < start + length) header.number .right
    (joint.child left right .right) (max start joint.boundary)
    (start + length - max start joint.boundary) _ parts hafter
    fun inner => ihright joint.rightView _ _ inner _ parts hafter

theorem gather_range (block : Block) : Follows σ ledger block := by
  induction block with
  | source header store =>
      intro earlier backend other view position length start filled parts h hlocate
      obtain ⟨hgot, hafter⟩ := h.fill store start length
      rw [gather]
      simp only [hlocate, collect]
      unfold Continues
      cases hfailure : (other.fill store start length).1.failure with
      | some error =>
          rw [← hgot] at hfailure ⊢
          simp only [hfailure]
          exact ⟨trivial, hafter⟩
      | none =>
          rw [← hgot] at hfailure ⊢
          simp only [hfailure]
          exact ⟨_, hafter, rfl⟩
  | composed header joint left right ihleft ihright =>
      intro earlier backend other view position length start filled parts h hlocate
      rw [gather]
      simp only [hlocate]
      exact gather_parts ihleft ihright header joint start length filled parts
        (h.noteCrossing joint start length)

/-- The pending list gathers what the recursion collects. -/
theorem gather_collect (h : Alike earlier backend other) (header : Header) (joint : Joint)
    (left right : Block) (position length : Nat) :
    let run := gather (backend.noteCrossing joint position length) ledger []
      (ledger.parts header.number joint left right position length)
    let got := other.collect ledger (.composed header joint left right) position length
    run.1 = got.1 ∧ Alike earlier run.2 got.2 := by
  intro run got
  have hgather := @gather_parts _ _ _ _ _ ledger _ _ (gather_range left) (gather_range right) header
    joint position length [] [] (h.noteCrossing joint position length)
  rw [List.append_nil] at hgather
  change Continues earlier run [] got _ at hgather
  unfold Continues at hgather
  cases hfailure : got.1.failure with
  | some error =>
      rw [hfailure] at hgather
      obtain ⟨hrun, halike⟩ := hgather
      rw [List.nil_append, ← hfailure] at hrun
      exact ⟨hrun, halike⟩
  | none =>
      rw [hfailure] at hgather
      obtain ⟨after, halike, hrun⟩ := hgather
      change run = gather after ledger ([] ++ got.1.bytes) [] at hrun
      rw [gather, List.nil_append, ← hfailure] at hrun
      rw [hrun]
      exact ⟨rfl, halike⟩

/-- The reader of the library answers what the recursion collects. -/
theorem readComposed_collect (h : Alike earlier backend other) (header : Header) (joint : Joint)
    (left right : Block) (position length : Nat) :
    (backend.readComposed ledger header joint left right position length).1 =
        (other.collect ledger (.composed header joint left right) position length).1.answer ∧
      Alike earlier (backend.readComposed ledger header joint left right position length).2
        (other.collect ledger (.composed header joint left right) position length).2 := by
  obtain ⟨hgot, halike⟩ :=
    @gather_collect _ _ _ _ _ ledger h header joint left right position length
  rw [← hgot]
  exact halike.settle _

theorem collectThrough_fills {number : Nat} {side : Side} {child : Cursor} {position length : Nat}
    (hlength : 0 < length)
    (hchild : ∀ start, Fills length (other.collect ledger child.block start length).1) :
    Fills length (other.collectThrough ledger number side child position length).1 := by
  unfold collectThrough throughChild
  split
  · split
    · exact hchild _
    · exact Or.inr ⟨_, rfl, hlength⟩
  · exact Or.inr ⟨_, rfl, hlength⟩

theorem side_fills (needed : Prop) [Decidable needed] {number : Nat} {side : Side} {child : Cursor}
    {position length : Nat} (hneeded : needed ↔ 0 < length)
    (hchild : ∀ (backend : Backend σ) start, 0 < length →
      Fills length (backend.collect ledger child.block start length).1) :
    Fills length
      (if needed then other.collectThrough ledger number side child position length
        else (⟨[], none⟩, other)).1 := by
  by_cases hlength : 0 < length
  · rw [if_pos (hneeded.mpr hlength)]
    exact collectThrough_fills hlength fun start => hchild other start hlength
  · rw [if_neg fun h => hlength (hneeded.mp h)]
    exact Or.inl ⟨rfl, (Nat.eq_zero_of_not_pos hlength).symm⟩

/-- The lengths of the two parts add up to that of the whole, wherever the boundary lies. -/
theorem collect_fills (block : Block) : ∀ (backend : Backend σ) (position : Nat) {length : Nat},
    0 < length → Fills length (backend.collect ledger block position length).1 := by
  induction block with
  | source header store =>
      intro backend position length _
      exact backend.fill_fills store position length
  | composed header joint left right ihleft ihright =>
      intro backend position length hlength
      have hsplit : (min (position + length) joint.boundary - position) +
          (position + length - max position joint.boundary) = length := by omega
      suffices hfills : Fills ((min (position + length) joint.boundary - position) +
          (position + length - max position joint.boundary))
          (backend.collect ledger (.composed header joint left right) position length).1 by
        rwa [hsplit] at hfills
      rw [collect_composed]
      exact andThen_fills
        (side_fills (position < joint.boundary) (by omega) fun backend start =>
          ihleft backend start)
        (side_fills (joint.boundary < position + length) (by omega)
          fun backend start => ihright backend start)

theorem readThrough_eq {number : Nat} {side : Side} {child : Cursor} {position length : Nat}
    (hchild : ∀ start, other.readRecursively ledger child.block start length =
      ((other.collect ledger child.block start length).1.answer,
        (other.collect ledger child.block start length).2)) :
    other.readThrough ledger number side child position length =
      ((other.collectThrough ledger number side child position length).1.answer,
        (other.collectThrough ledger number side child position length).2) := by
  unfold readThrough collectThrough throughChild
  split
  · split
    · exact hchild _
    · rfl
  · rfl

/-- Both recursions do the same. The one keeps a failure beside the bytes before it, the other
forgets it as soon as there are any; but then too few bytes are in hand, and nothing more is
read. -/
theorem readRecursively_eq (block : Block) : ∀ (backend : Backend σ) (position : Nat)
    {length : Nat}, 0 < length →
    backend.readRecursively ledger block position length =
      ((backend.collect ledger block position length).1.answer,
        (backend.collect ledger block position length).2) := by
  induction block with
  | source header store =>
      intro backend position length _
      rfl
  | composed header joint left right ihleft ihright =>
      intro backend position length hlength
      have hreadLeft : ∀ (backend : Backend σ) (position : Nat) {part : Nat},
        0 < part → _ = _ :=
        fun backend position part hpart =>
          @readThrough_eq _ _ backend ledger header.number .left (joint.child left right .left)
            position part fun start => ihleft backend start hpart
      have hreadRight : ∀ (backend : Backend σ) (position : Nat) {part : Nat},
        0 < part → _ = _ :=
        fun backend position part hpart =>
          @readThrough_eq _ _ backend ledger header.number .right (joint.child left right .right)
            position part fun start => ihright backend start hpart
      simp only [readThrough, Joint.block_child_left, Joint.block_child_right]
        at hreadLeft hreadRight
      rw [collect_composed]
      simp only [readRecursively]
      by_cases hleft : position < joint.boundary
      · have hpos : 0 < min (position + length) joint.boundary - position := by omega
        have hfirst := @collectThrough_fills _ _ backend ledger header.number .left
          (joint.child left right .left) position _ hpos
          fun start => collect_fills left backend start hpos
        have hstart : max position joint.boundary = joint.boundary := by omega
        rw [if_pos hleft, if_pos hleft, answer_andThen hfirst hpos, hreadLeft backend position hpos,
          hstart]
        generalize backend.collectThrough ledger header.number .left _ position _ = got
        obtain ⟨got, after⟩ := got
        cases got.answer with
        | error error => rfl
        | ok bytes =>
            by_cases hright : joint.boundary < position + length
            · have hpart : 0 < position + length - joint.boundary := by omega
              simp only [hreadRight after joint.boundary hpart, hright, and_true, if_true]
              split
              · split <;> rename_i heq <;> simp only [Prod.mk.injEq] at heq <;>
                  simp [heq.1, heq.2]
              · rfl
            · simp [hright, Gathered.answer]
      · have hright : joint.boundary < position + length := by omega
        have hstart : max position joint.boundary = position := by omega
        rw [if_neg hleft, if_neg hleft, hreadRight backend position hlength, hstart]
        simp [andThen, hright]

/-- The reader of the library and the recursion give the same answer, leave the stores in the same
state and ask them the same. -/
theorem readComposed_eq (backend : Backend σ) (ledger : Ledger) (header : Header) (joint : Joint)
    (left right : Block) (position : Nat) {length : Nat} (hlength : 0 < length) :
    let run := backend.readComposed ledger header joint left right position length
    let spec := backend.readRecursively ledger (.composed header joint left right) position length
    run.1 = spec.1 ∧ run.2.stores = spec.2.stores ∧ run.2.requests = spec.2.requests := by
  intro run spec
  obtain ⟨hanswer, halike⟩ := @readComposed_collect _ _ _ _ _ ledger (Alike.refl backend) header
    joint left right position length
  have hspec : spec = _ :=
    readRecursively_eq (.composed header joint left right) backend position hlength
  rw [hspec]
  exact ⟨hanswer, halike.stores, halike.requests⟩

end Backend

end SharedStream
