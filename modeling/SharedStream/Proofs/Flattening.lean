import SharedStream.Proofs.Pieces
import SharedStream.Proofs.Worlds
/-!
The shape of a composition does not matter to its readers. What a live cursor over a composition
reads is settled by the pieces of stores in its window: two such cursors with the same pieces, as
`(a + b) + c` and `a + (b + c)` have, read the same from the same stores, request by request.
-/

namespace SharedStream

/-- The pieces of stores in the window of a cursor. -/
def Cursor.pieces (cursor : Cursor) : List Piece :=
  cursor.block.pieces cursor.view.first (cursor.view.stop - cursor.view.first)

/-- The pieces that are left to be read. -/
def Cursor.ahead (cursor : Cursor) : List Piece :=
  cursor.block.pieces cursor.view.current cursor.remaining

/-- How far into its window a cursor stands. -/
def Cursor.offset (cursor : Cursor) : Nat := cursor.view.current - cursor.view.first

namespace Cursor

variable {cursor : Cursor}

/-- The pieces of a narrower window are cut out of those of the whole. -/
theorem Sound.pieces_window (h : cursor.Sound) {first stop : Nat}
    (hfirst : cursor.view.first ≤ first) (hstop : stop ≤ cursor.view.stop) :
    cursor.block.pieces first (stop - first) =
      Piece.clip cursor.pieces (first - cursor.view.first) (stop - first) := by
  have horder := Nat.le_trans h.placed.view.first_le h.placed.view.current_le
  have hcovers : cursor.block.Covers ⟨cursor.view.first,
      cursor.view.first + (cursor.view.stop - cursor.view.first)⟩ := by
    rw [Nat.add_sub_cancel' horder]
    exact h.placed.covered
  rw [pieces, Block.clip_pieces cursor.block _ _ h.block hcovers]
  congr 1
  · omega
  · omega

theorem Sound.pieces_ahead (h : cursor.Sound) {wanted : Nat}
    (hwanted : wanted ≤ cursor.remaining) : cursor.block.pieces cursor.view.current wanted =
      Piece.clip cursor.pieces cursor.offset wanted := by
  have hcurrent := h.placed.view.current_le
  simp only [remaining, View.remaining] at hwanted
  have hwindow := h.pieces_window h.placed.view.first_le
    (show cursor.view.current + wanted ≤ cursor.view.stop by omega)
  rw [Nat.add_sub_cancel_left] at hwindow
  exact hwindow

theorem Sound.joined_offset (h : cursor.Sound) (other : Cursor) (header : Header) :
    (cursor.joined other header).offset = cursor.offset := by
  have hfirst := h.placed.view.firstPosition_eq h.limit_le
  have hposition := h.placed.view.position_eq h.limit_le
  simp only [offset, joined, position]
  omega

/-- From any position of the head on, a concatenation has what the head has, and then what is ahead
of the other side. -/
theorem Sound.pieces_joined (h : cursor.Sound) (other : Cursor) (header : Header)
    {position inner : Nat} (hinner : (inner : Int) + cursor.view.shift.amount = position)
    (hstop : inner ≤ cursor.view.stop) :
    (cursor.joined other header).block.pieces position
        ((cursor.joined other header).view.stop - position) =
      cursor.block.pieces inner (cursor.view.stop - inner) ++ other.ahead := by
  have hname := h.placed.view.stopPosition_eq h.limit_le
  simp only [joined, Block.pieces, ahead]
  congr 1
  · congr 1
    · simp only [Shift.inner]
      omega
    · omega
  · congr 1
    · simp only [Shift.inner, Shift.placing]
      omega
    · omega

theorem Sound.joined_pieces (h : cursor.Sound) (other : Cursor) (header : Header) :
    (cursor.joined other header).pieces = cursor.pieces ++ other.ahead :=
  h.pieces_joined other header (h.placed.view.firstPosition_eq h.limit_le).symm
    (Nat.le_trans h.placed.view.first_le h.placed.view.current_le)

theorem Sound.joined_ahead (h : cursor.Sound) (other : Cursor) (header : Header) :
    (cursor.joined other header).ahead = cursor.ahead ++ other.ahead :=
  h.pieces_joined other header (h.placed.view.position_eq h.limit_le).symm
    h.placed.view.current_le

/-- However three cursors are grouped, the pieces are the same. -/
theorem Sound.joined_assoc {other last : Cursor} {inner outer inner' outer' : Header}
    (h : cursor.Sound) (hother : other.Sound) (hjoined : (cursor.joined other inner).Sound) :
    ((cursor.joined other inner).joined last outer).pieces =
        (cursor.joined (other.joined last inner') outer').pieces ∧
      ((cursor.joined other inner).joined last outer).offset =
        (cursor.joined (other.joined last inner') outer').offset := by
  constructor
  · rw [hjoined.joined_pieces, h.joined_pieces, h.joined_pieces, hother.joined_ahead,
      List.append_assoc]
  · rw [hjoined.joined_offset, h.joined_offset, h.joined_offset]

end Cursor

namespace Pool

variable {σ : Type} [Store σ]

/-- A composed read answers what is collected by recursion on the tree. -/
theorem read_collect {pool : Pool σ} {cursor : Cursor} {earlier : List Event} {other : Backend σ}
    (h : Backend.Alike earlier pool.backend other) (hcomposed : cursor.block.isComposed = true)
    {capacity wanted : Nat} (hwanted : cursor.view.wanted capacity = .ok (some wanted)) :
    let got := other.collect pool.ledger cursor.block cursor.view.current wanted
    (pool.read cursor capacity).1 =
        got.1.answer.map (fun bytes => (.read bytes, cursor.advance bytes.length)) ∧
      Backend.Alike earlier (pool.read cursor capacity).2.backend got.2 := by
  intro got
  have hpos := (View.wanted_some hwanted).1
  obtain ⟨block, view⟩ := cursor
  cases block with
  | source header store => cases hcomposed
  | composed header joint left right =>
      have hfills : Backend.Fills wanted got.1 := Backend.collect_fills _ other view.current hpos
      obtain ⟨hanswer, halike⟩ :=
        @Backend.readComposed_collect _ _ _ _ _ pool.ledger h header joint
        left right view.current wanted
      change _ = got.1.answer at hanswer
      change Backend.Alike earlier _ got.2 at halike
      simp only [read, Cursor.through_eq, hwanted, Backend.readBlock]
      generalize pool.backend.readComposed pool.ledger header joint left right view.current wanted =
        run at hanswer halike
      obtain ⟨answer, backend⟩ := run
      change answer = got.1.answer at hanswer
      rw [← hanswer]
      cases answer with
      | error error => exact ⟨rfl, halike⟩
      | ok bytes =>
          have hsome : bytes.isEmpty = false := by
            have hlength := (Backend.length_of_answer hfills hpos hanswer.symm).1
            exact List.isEmpty_eq_false_iff.mpr (List.length_pos_iff.mp hlength)
          simp only [hsome, Bool.false_eq_true, if_false]
          exact ⟨rfl, halike.log rfl⟩

/-- In sight, that is filling the pieces ahead. -/
theorem read_pieces {pool : Pool σ} {cursor : Cursor} {earlier : List Event} {other : Backend σ}
    (h : Backend.Alike earlier pool.backend other) (hsound : cursor.Sound)
    (hshows : pool.ledger.Shows cursor.block cursor.extent)
    (hcomposed : cursor.block.isComposed = true) {capacity wanted : Nat}
    (hwanted : cursor.view.wanted capacity = .ok (some wanted)) :
    let got := other.fillAll (cursor.block.pieces cursor.view.current wanted)
    (pool.read cursor capacity).1 =
        got.1.answer.map (fun bytes => (.read bytes, cursor.advance bytes.length)) ∧
      Backend.Alike earlier (pool.read cursor capacity).2.backend got.2 := by
  obtain ⟨hpos, hless⟩ := View.wanted_some hwanted
  have hcurrent := hsound.placed.view.current_le
  have hwithin : Extent.Within ⟨cursor.view.current, cursor.view.current + wanted⟩
      cursor.extent := by
    refine ⟨hsound.placed.view.first_le, ?_⟩
    simp only [View.remaining] at hless
    simp only [Cursor.extent, View.extent]
    omega
  have hcollect := Backend.collect_pieces _ other cursor.view.current hsound.block hpos
    (hshows.mono hwithin) (hsound.placed.covered.mono hwithin)
  rw [← hcollect]
  exact read_collect h hcomposed hwanted

end Pool

namespace World

variable {σ : Type} [Store σ]

/-- What a live cursor sees is held at every level below. -/
theorem Ordered.shows {past : Pool σ} {world : World σ} {id : String} {cursor : Cursor}
    (h : Ordered past world) (hfind : world.find? id = some cursor) :
    world.pool.ledger.Shows cursor.block cursor.extent := by
  apply h.kept.balanced.shows
  exact Or.inl (List.mem_map.mpr ⟨_, mem_of_find? hfind, rfl⟩)

/-- The answers to operations, one after another. -/
def answers (world : World σ) : List (Operation σ) → List (Except Refusal Answer)
  | [] => []
  | operation :: operations =>
      (world.apply operation).1 :: (world.apply operation).2.answers operations

/-- The requests for bytes that were made so far. -/
def requests (world : World σ) : List Event := world.pool.backend.requests

/-- Two cursors over compositions that stand at the same point of the same pieces, in two worlds
with the same stores. -/
structure Twins (world other : World σ) (cursor twin : Cursor) : Prop where
  stores : world.pool.backend.stores = other.pool.backend.stores
  composed : cursor.block.isComposed = true
  composed' : twin.block.isComposed = true
  pieces : cursor.pieces = twin.pieces
  offset : cursor.offset = twin.offset

namespace Twins

variable {past past' : Pool σ} {world other : World σ} {id id' : String} {cursor twin : Cursor}

omit [Store σ] in
theorem remaining (h : Twins world other cursor twin) (hsound : cursor.Sound)
    (hsound' : twin.Sound) : cursor.remaining = twin.remaining := by
  have hfirst := hsound.placed.view.first_le
  have hfirst' := hsound'.placed.view.first_le
  have htotal := congrArg Piece.total h.pieces
  have hoffset := h.offset
  simp only [Cursor.pieces, Block.total_pieces, Cursor.offset] at htotal hoffset
  simp only [Cursor.remaining, View.remaining]
  omega

omit [Store σ] in
theorem wanted (h : Twins world other cursor twin) (hsound : cursor.Sound)
    (hsound' : twin.Sound) (capacity : Nat) :
    cursor.view.wanted capacity = twin.view.wanted capacity := by
  have hremaining := h.remaining hsound hsound'
  simp only [Cursor.remaining] at hremaining
  have hend :
      cursor.view.stop ≤ cursor.view.current ↔ twin.view.stop ≤ twin.view.current := by
    simp only [View.remaining] at hremaining
    omega
  simp only [View.wanted, hremaining, hend]

/-- One read of twins: the same answer, the same requests, and twins again. -/
theorem read (h : Twins world other cursor twin) (hordered : Ordered past world)
    (hordered' : Ordered past' other) (hfind : world.find? id = some cursor)
    (hfind' : other.find? id' = some twin) (capacity : Nat) :
    (world.apply (.read id capacity)).1 = (other.apply (.read id' capacity)).1 ∧
      ∃ calls cursor' twin',
        (world.apply (.read id capacity)).2.requests = world.requests ++ calls ∧
        (other.apply (.read id' capacity)).2.requests = other.requests ++ calls ∧
        (world.apply (.read id capacity)).2.find? id = some cursor' ∧
        (other.apply (.read id' capacity)).2.find? id' = some twin' ∧
        Twins (world.apply (.read id capacity)).2 (other.apply (.read id' capacity)).2
          cursor' twin' := by
  obtain ⟨hsound, hkept⟩ := hordered.focus hfind
  obtain ⟨hsound', hkept'⟩ := hordered'.focus hfind'
  have hwanted := h.wanted hsound hsound' capacity
  simp only [apply, withCursor, hfind, hfind']
  cases hcase : twin.view.wanted capacity with
  | error fault =>
      rw [hcase] at hwanted
      simp only [Pool.read, Cursor.through_eq, hwanted, hcase]
      exact ⟨trivial, [], cursor, twin, by simp [requests, withPool],
        by simp [requests, withPool], hfind, hfind',
        ⟨h.stores, h.composed, h.composed', h.pieces, h.offset⟩⟩
  | ok wanted =>
      rw [hcase] at hwanted
      cases wanted with
      | none =>
          simp only [Pool.read, Cursor.through_eq, hwanted, hcase]
          exact ⟨trivial, [], cursor, twin, by simp [requests, withPool, update],
            by simp [requests, withPool, update], find?_update hfind cursor,
            find?_update hfind' twin, ⟨h.stores, h.composed, h.composed', h.pieces, h.offset⟩⟩
      | some wanted =>
          have hless := (View.wanted_some hwanted).2
          have hless' := (View.wanted_some hcase).2
          have hread := Pool.read_pieces (Backend.Alike.bare world.pool.backend) hsound
            (hordered.shows hfind) h.composed hwanted
          have hread' := Pool.read_pieces (Backend.Alike.bare other.pool.backend) hsound'
            (hordered'.shows hfind') h.composed' hcase
          rw [hsound.pieces_ahead (by simp only [Cursor.remaining]; omega), h.pieces, h.offset,
            h.stores] at hread
          rw [hsound'.pieces_ahead (by simp only [Cursor.remaining]; omega)] at hread'
          generalize @Backend.fillAll σ _ _ _ = got at hread hread'
          obtain ⟨hanswer, halike⟩ := hread
          obtain ⟨hanswer', halike'⟩ := hread'
          generalize world.pool.read cursor capacity = run at hanswer halike
          generalize other.pool.read twin capacity = run' at hanswer' halike'
          obtain ⟨made, pool⟩ := run
          obtain ⟨made', pool'⟩ := run'
          change made = _ at hanswer
          change made' = _ at hanswer'
          subst hanswer hanswer'
          have hstores := halike.stores.trans halike'.stores.symm
          cases got.1.answer with
          | error error =>
              exact ⟨rfl, got.2.requests, cursor, twin, halike.requests, halike'.requests,
                hfind, hfind', ⟨hstores, h.composed, h.composed', h.pieces, h.offset⟩⟩
          | ok bytes =>
              refine ⟨rfl, got.2.requests, cursor.advance bytes.length, twin.advance bytes.length,
                halike.requests, halike'.requests, find?_update hfind _, find?_update hfind' _,
                ⟨hstores, h.composed, h.composed', h.pieces, ?_⟩⟩
              have hfirst := hsound.placed.view.first_le
              have hfirst' := hsound'.placed.view.first_le
              have hoffset := h.offset
              simp only [Cursor.offset, Cursor.advance, Cursor.withView] at hoffset ⊢
              omega

theorem reads (h : Twins world other cursor twin) (hordered : Ordered past world)
    (hordered' : Ordered past' other) (hfind : world.find? id = some cursor)
    (hfind' : other.find? id' = some twin) (capacities : List Nat) :
    world.answers (capacities.map (.read id)) = other.answers (capacities.map (.read id')) ∧
      ∃ calls, (world.run (capacities.map (.read id))).requests = world.requests ++ calls ∧
        (other.run (capacities.map (.read id'))).requests = other.requests ++ calls := by
  induction capacities generalizing world other cursor twin with
  | nil => exact ⟨rfl, [], by simp [run], by simp [run]⟩
  | cons capacity capacities ih =>
      obtain ⟨hanswer, calls, cursor', twin', hcalls, hcalls', hmoved, hmoved', htwins⟩ :=
        h.read hordered hordered' hfind hfind' capacity
      have hnext := (apply_lands hordered (.read id capacity)).ordered
      have hnext' := (apply_lands hordered' (.read id' capacity)).ordered
      obtain ⟨hrest, more, hmore, hmore'⟩ := ih htwins hnext hnext' hmoved hmoved'
      refine ⟨?_, calls ++ more, ?_, ?_⟩
      · simp only [List.map_cons, answers, hanswer, hrest]
      · rw [hcalls] at hmore
        simpa [run] using hmore
      · rw [hcalls'] at hmore'
        simpa [run] using hmore'

end Twins

/-- The pieces of a concatenation are those of the head, and then those ahead of the tail. -/
theorem concat_pieces {past : Pool σ} {world next : World σ} {id other : String}
    {head tail : Cursor} {hook : Option Hook} {answer : Answer} (h : Ordered past world)
    (hfind : world.find? id = some head) (hother : world.find? other = some tail)
    (hconcat : world.apply (.concat id other hook) = (.ok answer, next)) :
    ∃ cursor, next.find? id = some cursor ∧ cursor.offset = head.offset ∧
      cursor.pieces = head.pieces ++ tail.ahead ∧ cursor.ahead = head.ahead ++ tail.ahead := by
  obtain ⟨hhead, -⟩ := h.focus hfind
  obtain ⟨htail, -⟩ := h.focus hother
  simp only [apply, withCursor, hfind, hother] at hconcat
  split at hconcat
  · cases hconcat
  · cases hmade : world.pool.concat head tail hook with
    | mk made pool =>
        rw [hmade] at hconcat
        cases made with
        | error fault => cases hconcat
        | ok cursor =>
            obtain ⟨-, -, number, rfl⟩ := Pool.concat_ok hmade
            obtain rfl := (Prod.mk.inj hconcat).2
            exact ⟨_, find?_update hfind _, hhead.joined_offset tail _,
              hhead.joined_pieces tail _, hhead.joined_ahead tail _⟩

/-- What a read through a composition answers, if it is done by recursion on the tree. -/
def recursiveRead (world : World σ) (cursor : Cursor) (capacity : Nat) :
    Except Refusal Answer × Backend σ :=
  let got := world.pool.backend.readRecursively world.pool.ledger cursor.block cursor.view.current
    (min capacity cursor.remaining)
  (match got.1 with
    | .ok bytes => .ok (.read (.read bytes))
    | .error error => .error error, got.2)

/-- A read of a live cursor over a composition is the recursive read. -/
theorem apply_read_composed (world : World σ) {id : String} {cursor : Cursor}
    (hfind : world.find? id = some cursor) (hcomposed : cursor.block.isComposed = true)
    {capacity : Nat} (hcapacity : 0 < capacity) (hremaining : 0 < cursor.remaining) :
    let next := (world.apply (.read id capacity)).2
    let spec := world.recursiveRead cursor capacity
    (world.apply (.read id capacity)).1 = spec.1 ∧
      next.pool.backend.stores = spec.2.stores ∧ next.requests = spec.2.requests := by
  have hwanted : cursor.view.wanted capacity = .ok (some (min capacity cursor.remaining)) := by
    simp only [Cursor.remaining, View.remaining] at hremaining ⊢
    simp only [View.wanted, View.remaining]
    rw [if_neg (by omega), if_neg (by omega)]
  have hpos := (View.wanted_some hwanted).1
  have hread := Pool.read_collect (Backend.Alike.refl world.pool.backend) hcomposed hwanted
  simp only [recursiveRead, apply, withCursor, hfind]
  rw [Backend.readRecursively_eq cursor.block world.pool.backend cursor.view.current hpos]
  generalize Backend.collect world.pool.backend _ _ _ _ = got at hread ⊢
  generalize world.pool.read cursor capacity = run at hread ⊢
  obtain ⟨made, pool⟩ := run
  obtain ⟨hanswer, halike⟩ := hread
  change made = _ at hanswer
  subst hanswer
  cases got.1.answer with
  | error error => exact ⟨rfl, halike.stores, halike.requests⟩
  | ok bytes => exact ⟨rfl, halike.stores, halike.requests⟩

/-- Reading through compositions, whatever the stores answer. The pending list asks the stores for
the same bytes in the same order as the recursion on the tree, and gives the same answer, for any
range and for every read of a live cursor. Hence the tree's shape does not matter: from equal
stores, cursors at the same point of the same pieces read the same from the same requests; and a
concatenation only puts the pieces of its two sides in a row, so it does not matter how several are
grouped. -/
theorem reads_follow_pieces :
    (∀ (backend : Backend σ) (ledger : Ledger) (header : Header) (joint : Joint)
      (left right : Block) (position length : Nat), 0 < length →
      let got := backend.readComposed ledger header joint left right position length
      let spec := backend.readRecursively ledger (.composed header joint left right) position
        length
      got.1 = spec.1 ∧ got.2.stores = spec.2.stores ∧ got.2.requests = spec.2.requests) ∧
    (∀ (operations : List (Operation σ)) (id : String) (cursor : Cursor) (capacity : Nat),
      let world := run {} operations
      world.find? id = some cursor → cursor.block.isComposed = true → 0 < capacity →
      0 < cursor.remaining →
      let next := (world.apply (.read id capacity)).2
      let spec := world.recursiveRead cursor capacity
      (world.apply (.read id capacity)).1 = spec.1 ∧
        next.pool.backend.stores = spec.2.stores ∧ next.requests = spec.2.requests) ∧
    (∀ (operations operations' : List (Operation σ)) (id id' : String) (cursor twin : Cursor),
      let world := run {} operations
      let other := run {} operations'
      world.find? id = some cursor → other.find? id' = some twin →
      Twins world other cursor twin → ∀ capacities : List Nat,
        world.answers (capacities.map (.read id)) = other.answers (capacities.map (.read id')) ∧
        ∃ calls, (world.run (capacities.map (.read id))).requests = world.requests ++ calls ∧
          (other.run (capacities.map (.read id'))).requests = other.requests ++ calls) ∧
    (∀ (operations : List (Operation σ)) (id other : String) (head tail : Cursor)
      (hook : Option Hook) (answer : Answer) (next : World σ),
      let world := run {} operations
      world.find? id = some head → world.find? other = some tail →
      world.apply (.concat id other hook) = (.ok answer, next) →
      ∃ cursor, next.find? id = some cursor ∧ cursor.offset = head.offset ∧
        cursor.pieces = head.pieces ++ tail.ahead ∧ cursor.ahead = head.ahead ++ tail.ahead) := by
  refine ⟨?_, ?_, ?_, ?_⟩
  · intro backend ledger header joint left right position length hlength
    exact backend.readComposed_eq ledger header joint left right position hlength
  · intro operations id cursor capacity world hfind hcomposed hcapacity hremaining
    exact world.apply_read_composed hfind hcomposed hcapacity hremaining
  · intro operations operations' id id' cursor twin world other hfind hfind' htwins capacities
    exact htwins.reads (run_empty_ordered operations) (run_empty_ordered operations') hfind hfind'
      capacities
  · intro operations id other head tail hook answer next world hfind hother hconcat
    exact concat_pieces (run_empty_ordered operations) hfind hother hconcat

end World

end SharedStream
