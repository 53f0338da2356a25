import SharedStream.Proofs.Content
import SharedStream.Proofs.Flattening
import SharedStream.Proofs.Plain
/-!
Over stores in memory, a cursor stands for a plain list of bytes, whatever blocks it shares and
however deep the compositions below it are. One lemma for each operation: on cursors it comes to
what it comes to on the lists that they stand for.
-/

namespace SharedStream

/-- The list of bytes that a cursor stands for. -/
def Cursor.stretch (stores : Array MemoryStore) (cursor : Cursor) : Stretch :=
  ⟨cursor.view.firstPosition, cursor.position, Piece.content stores cursor.pieces,
    cursor.block.settings.limit⟩

theorem Cursor.stretch_limit (stores : Array MemoryStore) (cursor : Cursor) :
    (cursor.stretch stores).limit = cursor.block.settings.limit := rfl

/-- A sound cursor with all of its bytes in the stores. -/
structure Cursor.Backed (stores : Array MemoryStore) (cursor : Cursor) : Prop where
  sound : cursor.Sound
  fits : Piece.AllFit stores cursor.pieces

/-- The cursor is backed, and stands for this list. -/
def Cursor.StandsFor (stores : Array MemoryStore) (cursor : Cursor) (stretch : Stretch) : Prop :=
  cursor.Backed stores ∧ cursor.stretch stores = stretch

namespace Cursor.Backed

variable {stores after : Array MemoryStore} {cursor : Cursor}

theorem extend (h : cursor.Backed stores) (hextends : Extends stores after) :
    cursor.StandsFor after (cursor.stretch stores) := by
  obtain ⟨hfits, hcontent⟩ := h.fits.extend hextends
  refine ⟨⟨h.sound, hfits⟩, ?_⟩
  rw [stretch, hcontent]
  rfl

theorem length_bytes (h : cursor.Backed stores) :
    (cursor.stretch stores).bytes.length = cursor.view.stop - cursor.view.first := by
  rw [stretch, h.fits.length_content, pieces, Block.total_pieces]

theorem names (h : cursor.Backed stores) :
    ((cursor.stretch stores).first : Int) = cursor.view.first + cursor.view.shift.amount ∧
      ((cursor.stretch stores).position : Int) =
        cursor.view.current + cursor.view.shift.amount ∧
      ((cursor.stretch stores).stop : Int) = cursor.view.stop + cursor.view.shift.amount := by
  have hview := h.sound.placed.view
  have hfirst := hview.firstPosition_eq h.sound.limit_le
  have hposition := hview.position_eq h.sound.limit_le
  have horder := Nat.le_trans hview.first_le hview.current_le
  refine ⟨hfirst, hposition, ?_⟩
  rw [Stretch.stop, h.length_bytes]
  simp only [stretch]
  omega

theorem remaining (h : cursor.Backed stores) :
    (cursor.stretch stores).remaining = cursor.remaining := by
  obtain ⟨-, hposition, hstop⟩ := h.names
  have hcurrent := h.sound.placed.view.current_le
  simp only [Stretch.remaining, Cursor.remaining, View.remaining]
  omega

theorem placed (h : cursor.Backed stores) : (cursor.stretch stores).Placed := by
  obtain ⟨hfirst, hposition, hstop⟩ := h.names
  have hview := h.sound.placed.view
  have hbefore := hview.first_le
  have hafter := hview.current_le
  have hhigh := hview.high
  refine ⟨by omega, by omega, ?_⟩
  change _ ≤ cursor.block.settings.limit
  omega

/-- What a narrower window shows is a part of what the cursor shows. -/
theorem window (h : cursor.Backed stores) {first stop : Nat} (hfirst : cursor.view.first ≤ first)
    (hstop : stop ≤ cursor.view.stop) :
    Piece.AllFit stores (cursor.block.pieces first (stop - first)) ∧
      Piece.content stores (cursor.block.pieces first (stop - first)) =
        ((cursor.stretch stores).bytes.drop (first - cursor.view.first)).take (stop - first) := by
  rw [h.sound.pieces_window hfirst hstop]
  exact h.fits.clip _ _

theorem withView (h : cursor.Backed stores) {view : View}
    (hplaced : view.Placed cursor.block.settings.limit)
    (hwithin : view.extent.Within cursor.extent) :
    (cursor.withView view).StandsFor stores
      ⟨view.firstPosition, view.position,
        ((cursor.stretch stores).bytes.drop (view.first - cursor.view.first)).take
          (view.stop - view.first), cursor.block.settings.limit⟩ := by
  obtain ⟨hfits, hcontent⟩ := h.window hwithin.1 hwithin.2
  simp only [View.extent] at hfits hcontent
  refine ⟨⟨h.sound.withView hplaced hwithin, hfits⟩, ?_⟩
  rw [← hcontent]
  rfl

theorem standing (h : cursor.Backed stores) {inner : Nat} (hfirst : cursor.view.first ≤ inner)
    (hstop : inner ≤ cursor.view.stop) {position : Nat}
    (hposition : (position : Int) = inner + cursor.view.shift.amount) :
    (cursor.withView { cursor.view with current := inner }).StandsFor stores
      { cursor.stretch stores with position } := by
  let view : View := { cursor.view with current := inner }
  have hplaced : view.Placed cursor.block.settings.limit :=
    h.sound.placed.view.standing hfirst hstop
  obtain ⟨hbacked, hstretch⟩ := h.withView hplaced (Extent.Within.refl _)
  refine ⟨hbacked, ?_⟩
  have hname : (view.position : Int) = inner + cursor.view.shift.amount :=
    hplaced.position_eq h.sound.limit_le
  have hsame : view.position = position := by omega
  have hlength := h.length_bytes
  rw [hstretch, hsame]
  simp only [view, Nat.sub_self, List.drop_zero]
  rw [List.take_of_length_le (by omega)]
  rfl

theorem offset (h : cursor.Backed stores) :
    (cursor.stretch stores).position - (cursor.stretch stores).first =
      cursor.view.current - cursor.view.first := by
  obtain ⟨hfirst, hposition, -⟩ := h.names
  omega

theorem ahead (h : cursor.Backed stores) :
    ((cursor.stretch stores).bytes.drop (cursor.view.current - cursor.view.first)).take
      (cursor.view.stop - cursor.view.current) = (cursor.stretch stores).ahead := by
  have hbefore := h.sound.placed.view.first_le
  rw [Stretch.ahead, h.offset]
  apply List.take_of_length_le
  rw [List.length_drop, h.length_bytes]
  omega

end Cursor.Backed

theorem Cursor.StandsFor.extend {stores after : Array MemoryStore} {cursor : Cursor}
    {stretch : Stretch} (h : cursor.StandsFor stores stretch) (hextends : Extends stores after) :
    cursor.StandsFor after stretch := by
  obtain ⟨hbacked, rfl⟩ := h
  exact hbacked.extend hextends

/-- Both are granted, with results that agree, or both are refused, for an allowed reason. -/
def Agree {ε α β : Type} (kind : ε → FailureKind) (same : α → β → Prop) :
    Except ε α → Except (List FailureKind) β → Prop
  | .ok actual, .ok expected => same actual expected
  | .error error, .error kinds => kind error ∈ kinds
  | _, _ => False

theorem Agree.outcomes {ε α β : Type} {kind : ε → FailureKind} {same : α → β → Prop}
    {actual : Except ε α} {expected : Except (List FailureKind) β}
    (h : Agree kind same actual expected) :
    (∃ error kinds, actual = .error error ∧ expected = .error kinds ∧
      kind error ∈ kinds) ∨
      ∃ got wanted, actual = .ok got ∧ expected = .ok wanted ∧ same got wanted := by
  cases actual with
  | error error =>
      cases expected with
      | error kinds => exact Or.inl ⟨error, kinds, rfl, rfl, h⟩
      | ok wanted => exact h.elim
  | ok got =>
      cases expected with
      | error kinds => exact h.elim
      | ok wanted => exact Or.inr ⟨got, wanted, rfl, rfl, h⟩

theorem Agree.later {ε : Type} {kind : ε → FailureKind} {stores after : Array MemoryStore}
    {actual : Except ε Cursor} {expected : Except (List FailureKind) Stretch}
    (h : Agree kind (Cursor.StandsFor stores) actual expected) (hextends : Extends stores after) :
    Agree kind (Cursor.StandsFor after) actual expected := by
  rcases h.outcomes with ⟨error, kinds, rfl, rfl, hkind⟩ |
    ⟨cursor, stretch, rfl, rfl, hsame⟩
  · exact hkind
  · exact hsame.extend hextends

namespace Cursor.Backed

variable {stores : Array MemoryStore} {cursor : Cursor}

theorem seek (h : cursor.Backed stores) (pool : Pool MemoryStore) (position : Nat) :
    Agree Fault.kind (StandsFor stores) (pool.seek cursor position).1
      ((cursor.stretch stores).seek position) := by
  obtain ⟨hfirst, -, hstop⟩ := h.names
  have hview := h.sound.placed.view
  unfold Stretch.seek
  split
  · let inner := cursor.view.first + (position - (cursor.stretch stores).first)
    have hinner : (inner : Int) + cursor.view.shift.amount = position := by omega
    rw [pool.seek_eq (hview.inner?_eq_some hinner (by omega)) (by omega) (by omega)]
    exact h.standing (by omega) (by omega) hinner.symm
  · rename_i houtside
    simp only [Pool.seek, Cursor.through_eq]
    cases hseek : cursor.view.seek position with
    | error fault =>
        obtain rfl := View.seek_error hseek
        exact List.mem_singleton.mpr rfl
    | ok view =>
        obtain ⟨inner, hinner, hlow, hhigh, -⟩ := View.seek_ok hseek
        obtain ⟨hname, -⟩ := (Shift.inner?_eq_some_iff ..).mp hinner
        omega

theorem reset (h : cursor.Backed stores) :
    Agree Fault.kind (StandsFor stores) cursor.reset (cursor.stretch stores).reset := by
  obtain ⟨hfirst, -, -⟩ := h.names
  have hlength := h.length_bytes
  have hview := h.sound.placed.view
  have horder := Nat.le_trans hview.first_le hview.current_le
  rw [Cursor.reset, Cursor.through_eq, View.reset, Stretch.reset]
  by_cases hempty : cursor.view.first = cursor.view.stop
  · have hnone : (cursor.stretch stores).bytes = [] := List.length_eq_zero_iff.mp (by omega)
    rw [if_pos hempty, if_pos hnone]
    exact List.mem_singleton.mpr rfl
  · have hsome : (cursor.stretch stores).bytes ≠ [] := List.length_pos_iff.mp (by omega)
    rw [if_neg hempty, if_neg hsome]
    exact h.standing (Nat.le_refl _) horder hfirst

theorem release (h : cursor.Backed stores) (pool : Pool MemoryStore) (position : Nat) :
    Agree Fault.kind (StandsFor stores) (pool.release cursor position).1
      ((cursor.stretch stores).release position) := by
  obtain ⟨hfirst, hposition, -⟩ := h.names
  have hview := h.sound.placed.view
  have hbefore := hview.first_le
  rw [Pool.release, Cursor.through_eq, Stretch.release]
  by_cases hahead : (cursor.stretch stores).position ≤ position
  · rw [if_pos hahead]
    cases hkept : cursor.view.firstKept position with
    | error fault =>
        rcases View.firstKept_error hkept with rfl | ⟨-, hgone⟩
        · exact List.mem_singleton.mpr rfl
        · omega
    | ok first =>
        obtain ⟨inner, hinner, -, hpassed, -⟩ := View.firstKept_ok hkept
        obtain ⟨hname, -⟩ := (Shift.inner?_eq_some_iff ..).mp hinner
        omega
  · rw [if_neg hahead]
    by_cases hgone : position < (cursor.stretch stores).first
    · rw [if_pos hgone]
      cases hkept : cursor.view.firstKept position with
      | error fault =>
          rcases View.firstKept_error hkept with rfl | ⟨rfl, -⟩ <;> simp [Agree, Fault.kind]
      | ok first =>
          obtain ⟨inner, hinner, hthere, -, -⟩ := View.firstKept_ok hkept
          obtain ⟨hname, -⟩ := (Shift.inner?_eq_some_iff ..).mp hinner
          omega
    · rw [if_neg hgone]
      let inner := cursor.view.first + (position - (cursor.stretch stores).first)
      have hinner : (inner : Int) + cursor.view.shift.amount = position := by omega
      have hcurrent := hview.current_le
      have hkept : cursor.view.firstKept position = .ok (inner + 1) := by
        simp only [View.firstKept, hview.inner?_eq_some hinner (by omega)]
        rw [if_pos (by omega), if_neg (by omega)]
      obtain ⟨hplaced, hwithin⟩ := hview.release hkept
      obtain ⟨hbacked, hstretch⟩ := h.withView hplaced hwithin
      simp only [hkept]
      refine ⟨hbacked, hstretch.trans ?_⟩
      have hlength := h.length_bytes
      have hname := hplaced.firstPosition_eq h.sound.limit_le
      dsimp only at hname
      have hskip : position + 1 - (cursor.stretch stores).first =
          inner + 1 - cursor.view.first := by omega
      have hall : (((cursor.stretch stores).bytes.drop (inner + 1 - cursor.view.first)).take
          (cursor.view.stop - (inner + 1))) =
          (cursor.stretch stores).bytes.drop (inner + 1 - cursor.view.first) := by
        apply List.take_of_length_le
        rw [List.length_drop]
        omega
      rw [hskip, hall]
      congr 1
      omega

theorem cloneAt (h : cursor.Backed stores) (pool : Pool MemoryStore) (offset : Nat) :
    Agree Fault.kind (StandsFor stores) (pool.cloneAt cursor offset).1
      ((cursor.stretch stores).cloneAt offset) := by
  have hremaining : (cursor.stretch stores).remaining = cursor.view.remaining := h.remaining
  rw [Stretch.cloneAt, hremaining, stretch_limit]
  by_cases hfits : offset + cursor.view.remaining ≤ cursor.block.settings.limit
  · let view : View := ⟨.placing cursor.view.current offset, cursor.view.current,
      cursor.view.current, cursor.view.stop⟩
    have hclone : cursor.view.cloneAt cursor.block.settings.limit offset = .ok view := if_pos hfits
    obtain ⟨hplaced, hwithin⟩ := h.sound.placed.view.cloneAt hclone
    obtain ⟨hbacked, hstretch⟩ := h.withView hplaced hwithin
    have hfirst : (view.firstPosition : Int) =
        cursor.view.current + ((offset : Int) - cursor.view.current) :=
      hplaced.firstPosition_eq h.sound.limit_le
    have hname : view.firstPosition = offset := by omega
    rw [pool.cloneAt_eq hfits, if_pos hfits]
    refine ⟨hbacked, hstretch.trans ?_⟩
    rw [show view.position = view.firstPosition from rfl, hname, h.ahead]
  · rw [if_neg hfits, Pool.cloneAt, Cursor.through_eq, View.cloneAt, if_neg hfits]
    exact List.mem_singleton.mpr rfl

theorem joined_fits {other : Cursor} (h : cursor.Backed stores) (hother : other.Backed stores)
    (header : Header) : Piece.AllFit stores (cursor.joined other header).pieces := by
  rw [h.sound.joined_pieces other header]
  exact h.fits.append (hother.window hother.sound.placed.view.first_le (Nat.le_refl _)).1

theorem joined {other : Cursor} (h : cursor.Backed stores) (hother : other.Backed stores)
    {header : Header} (hsettings : header.settings = cursor.block.settings)
    (hlimit : cursor.view.stopPosition + other.remaining ≤ cursor.block.settings.limit)
    (hfits : cursor.view.stopPosition + other.remaining ≤ other.block.settings.limit) :
    (cursor.joined other header).StandsFor stores
      { cursor.stretch stores with
          bytes := (cursor.stretch stores).bytes ++ (other.stretch stores).ahead } := by
  have hsound := Cursor.joined_sound h.sound hother.sound hsettings hlimit hfits
  have hpieces := h.sound.joined_pieces other header
  obtain ⟨-, hcontent⟩ := hother.window hother.sound.placed.view.first_le (Nat.le_refl _)
  rw [hother.ahead] at hcontent
  have hfirst : ((cursor.joined other header).view.firstPosition : Int) =
      cursor.view.firstPosition + 0 := hsound.placed.view.firstPosition_eq hsound.limit_le
  have hposition : ((cursor.joined other header).position : Int) = cursor.position + 0 :=
    hsound.placed.view.position_eq hsound.limit_le
  have hsame : (cursor.joined other header).view.firstPosition = cursor.view.firstPosition := by
    omega
  have hstays : (cursor.joined other header).position = cursor.position := by omega
  refine ⟨⟨hsound, h.joined_fits hother header⟩, ?_⟩
  rw [stretch, hsame, hstays, hpieces, Piece.content_append,
    show (cursor.joined other header).block.settings = _ from hsettings, ← hcontent]
  rfl

theorem concat {other : Cursor} (h : cursor.Backed stores) (hother : other.Backed stores)
    (pool : Pool MemoryStore) (hook : Option Hook) :
    Agree Fault.kind (StandsFor stores) (pool.concat cursor other hook).1
      ((cursor.stretch stores).concat (other.stretch stores)) := by
  have hstop : (cursor.stretch stores).stop = cursor.view.stopPosition := by
    obtain ⟨-, -, hstop⟩ := h.names
    have hname := h.sound.placed.view.stopPosition_eq h.sound.limit_le
    omega
  rw [Stretch.concat, hstop, hother.remaining, stretch_limit, stretch_limit]
  cases hconcat : pool.concat cursor other hook with
  | mk made next =>
      cases made with
      | error fault =>
          have hjoin := (pool.concat_eq cursor other hook).1
          rw [hconcat] at hjoin
          rcases Pool.join_error hjoin.symm with ⟨rfl, hover⟩ | ⟨rfl, -, hover⟩
          · rw [if_neg (by omega)]
            exact List.mem_singleton.mpr rfl
          · rw [if_neg (by omega)]
            exact List.mem_singleton.mpr rfl
      | ok joined =>
          obtain ⟨hlimit, hfits, number, rfl⟩ := Pool.concat_ok hconcat
          rw [if_pos ⟨hlimit, hfits⟩]
          exact h.joined hother rfl hlimit hfits

/-- The two cursors that a split gives stand for the two halves of the bytes. -/
theorem halves (h : cursor.Backed stores) {position inner : Nat}
    (hinner : (inner : Int) + cursor.view.shift.amount = position)
    (hafter : cursor.view.current < inner) (hbefore : inner < cursor.view.stop)
    (hhead : (cursor.withView { cursor.view with stop := inner }).Sound)
    (htail :
      (cursor.withView ⟨.placing inner position, inner, inner, cursor.view.stop⟩).Sound) :
    (cursor.withView { cursor.view with stop := inner }).StandsFor stores
        { cursor.stretch stores with
            bytes := (cursor.stretch stores).bytes.take
              (position - (cursor.stretch stores).first) } ∧
      (cursor.withView ⟨.placing inner position, inner, inner, cursor.view.stop⟩).StandsFor
        stores ⟨position, position,
          (cursor.stretch stores).bytes.drop (position - (cursor.stretch stores).first),
          (cursor.stretch stores).limit⟩ := by
  obtain ⟨hfirst, -, -⟩ := h.names
  have horder := h.sound.placed.view.first_le
  have hcut : position - (cursor.stretch stores).first = inner - cursor.view.first := by omega
  rw [hcut]
  constructor
  · let front : View := { cursor.view with stop := inner }
    have hfront : front.Placed cursor.block.settings.limit := hhead.placed.view
    obtain ⟨hbacked, hstretch⟩ := h.withView hfront ⟨Nat.le_refl _, Nat.le_of_lt hbefore⟩
    refine ⟨hbacked, hstretch.trans ?_⟩
    simp only [front, Nat.sub_self, List.drop_zero]
    rfl
  · let back : View := ⟨.placing inner position, inner, inner, cursor.view.stop⟩
    have hback : back.Placed cursor.block.settings.limit := htail.placed.view
    obtain ⟨hbacked, hstretch⟩ :=
      h.withView hback ⟨Nat.le_trans horder (Nat.le_of_lt hafter), Nat.le_refl _⟩
    have hname : (back.firstPosition : Int) = inner + ((position : Int) - inner) :=
      hback.firstPosition_eq h.sound.limit_le
    have hplace : back.firstPosition = position := by omega
    have hlength := h.length_bytes
    have hall : ((cursor.stretch stores).bytes.drop (back.first - cursor.view.first)).take
        (back.stop - back.first) =
        (cursor.stretch stores).bytes.drop (inner - cursor.view.first) := by
      apply List.take_of_length_le
      rw [List.length_drop]
      simp only [back]
      omega
    refine ⟨hbacked, hstretch.trans ?_⟩
    rw [hall, show back.position = back.firstPosition from rfl, hplace, stretch_limit]

theorem splitCheck (h : cursor.Backed stores) (position : Nat) :
    cursor.view.splitCheck position =
      if position = (cursor.stretch stores).position ∨
          position = (cursor.stretch stores).stop then
        .error (.emptyHalf position (cursor.stretch stores).position (cursor.stretch stores).stop)
      else if position < (cursor.stretch stores).position ∨
          (cursor.stretch stores).stop < position then
        .error
          (.splitOutside position (cursor.stretch stores).position (cursor.stretch stores).stop)
      else .ok () := by
  obtain ⟨-, hposition, hstop⟩ := h.names
  have hview := h.sound.placed.view
  have hcurrent := hview.current_le
  have hhigh := hview.high
  have hlimit := h.sound.limit_le
  have hend : cursor.view.position + cursor.view.remaining = (cursor.stretch stores).stop := by
    have hname := hview.position_eq hlimit
    simp only [View.remaining]
    omega
  unfold View.splitCheck
  dsimp only
  rw [hend, if_neg (by omega)]
  rfl

end Cursor.Backed

/-- A new cursor over a store has all bytes of the store. -/
theorem Cursor.whole_fits {stores : Array MemoryStore} {header : Header} {store : StoreRef}
    {memory : MemoryStore} (hstored : stores[store.number]? = some memory)
    (hpos : 0 < memory.data.length) :
    Piece.AllFit stores
      (Cursor.pieces ⟨.source header store, View.whole memory.data.length⟩) := by
  have hpieces : Cursor.pieces ⟨.source header store, View.whole memory.data.length⟩ =
      [⟨store, 0, memory.data.length⟩] := Block.pieces_source header store 0 hpos
  rw [hpieces]
  intro piece hmem
  obtain rfl := List.mem_singleton.mp hmem
  exact ⟨memory, hstored, Nat.le_of_eq (Nat.zero_add _)⟩

theorem MemoryStore.length_eq (store : MemoryStore) : Store.length store = store.data.length := rfl

theorem Pool.build_agrees (pool : Pool MemoryStore) (plan : Blueprint MemoryStore) :
    Agree Fault.kind (Cursor.StandsFor (pool.build plan).2.backend.stores) (pool.build plan).1
      (Stretch.build plan) := by
  rw [Stretch.build]
  unfold Pool.build
  cases hcheck : plan.check with
  | error fault =>
      obtain ⟨hfault, hbounds⟩ := Blueprint.check_error hcheck
      rw [MemoryStore.length_eq] at hbounds
      rw [if_neg hbounds]
      rcases hfault with rfl | rfl | rfl <;> exact List.mem_singleton.mpr rfl
  | ok length =>
      obtain ⟨hlength, hpos, hlimit⟩ := Blueprint.check_ok hcheck
      rw [MemoryStore.length_eq] at hlength
      rw [← hlength, if_pos ⟨Nat.lt_of_lt_of_le hpos hlimit, hpos, hlimit⟩]
      let store : StoreRef := ⟨pool.backend.stores.size, Store.name plan.store⟩
      let header : Header := ⟨pool.ledger.fresh, plan.settings, plan.dataHook, plan.blockHook⟩
      have hplaced := View.whole_placed hlimit plan.settings.limit_le
      have hfirst : ((View.whole length).firstPosition : Int) = (0 : Nat) + 0 :=
        hplaced.firstPosition_eq plan.settings.limit_le
      have hname : (View.whole length).firstPosition = 0 := by omega
      have hpieces : Cursor.pieces ⟨.source header store, View.whole length⟩ =
          [⟨store, 0, length⟩] := Block.pieces_source header store 0 hpos
      have hstored : (pool.backend.stores.push plan.store)[store.number]? = some plan.store :=
        Array.getElem?_push_size
      subst hlength
      refine ⟨⟨⟨trivial, hplaced, trivial⟩, Cursor.whole_fits hstored hpos⟩, ?_⟩
      have hbytes : Piece.content (pool.backend.stores.push plan.store)
          [⟨store, 0, plan.store.data.length⟩] = plan.store.data.toList := by
        rw [Piece.content_cons, Piece.content_nil, List.append_nil, Piece.bytes]
        simp only [hstored]
        rfl
      rw [Cursor.stretch, hpieces, hname, show Cursor.position _ = View.firstPosition _ from rfl,
        hname]
      exact congrArg (fun bytes => Stretch.mk 0 0 bytes plan.settings.limit) hbytes

namespace Pool

variable {pool : Pool MemoryStore} {cursor : Cursor}

/-- A read of memory delivers the bytes ahead, as many as it asks for. -/
theorem read_memory (h : cursor.Backed pool.backend.stores)
    (hshows : pool.ledger.Shows cursor.block cursor.extent) {capacity wanted : Nat}
    (hwanted : cursor.view.wanted capacity = .ok (some wanted)) :
    (pool.read cursor capacity).1 =
      .ok (.read ((cursor.stretch pool.backend.stores).ahead.take wanted),
        cursor.advance wanted) := by
  obtain ⟨hpos, hless⟩ := View.wanted_some hwanted
  have hcurrent := h.sound.placed.view.current_le
  simp only [View.remaining] at hless
  obtain ⟨hfits, hcontent⟩ := h.window h.sound.placed.view.first_le
    (show cursor.view.current + wanted ≤ cursor.view.stop by omega)
  rw [Nat.add_sub_cancel_left] at hfits hcontent
  rw [← h.offset, ← Stretch.ahead] at hcontent
  have hlength := hfits.length_content
  rw [Block.total_pieces] at hlength
  rw [← hcontent]
  obtain ⟨block, view⟩ := cursor
  cases block with
  | source header store =>
      rw [Block.pieces_source header store view.current hpos] at hfits hlength ⊢
      have hanswer := Backend.ask_fits hfits.head hpos
      rw [Piece.content_cons, Piece.content_nil, List.append_nil] at hlength ⊢
      simp only [read, Cursor.through_eq, hwanted, Backend.readBlock]
      generalize pool.backend.ask store view.current wanted = got at hanswer
      obtain ⟨answer, after⟩ := got
      change answer = _ at hanswer
      subst hanswer
      simp only [hlength]
  | composed header joint left right =>
      obtain ⟨hanswer, -⟩ := read_pieces (Backend.Alike.refl pool.backend) h.sound hshows rfl
        hwanted
      rw [hanswer, (Backend.fillAll_fits hfits).1]
      simp only [Gathered.answer, Except.map, hlength]

theorem read_agrees (h : cursor.Backed pool.backend.stores)
    (hshows : pool.ledger.Shows cursor.block cursor.extent) (capacity : Nat) :
    Agree Failure.kind
      (fun (actual : ReadResult × Cursor) (expected : ReadResult × Stretch) =>
        actual.1 = expected.1 ∧ actual.2.StandsFor pool.backend.stores expected.2)
      (pool.read cursor capacity).1
      ((cursor.stretch pool.backend.stores).read capacity) := by
  obtain ⟨-, hposition, hstop⟩ := h.names
  have hcurrent := h.sound.placed.view.current_le
  have hbefore := h.sound.placed.view.first_le
  rw [Stretch.read]
  by_cases hroom : capacity = 0
  · rw [if_pos hroom, read, Cursor.through_eq, View.wanted, if_pos hroom]
    exact List.mem_singleton.mpr rfl
  · rw [if_neg hroom]
    by_cases hend : (cursor.stretch pool.backend.stores).position =
        (cursor.stretch pool.backend.stores).stop
    · rw [if_pos hend, read, Cursor.through_eq, View.wanted, if_neg hroom, if_pos (by omega)]
      exact ⟨rfl, h, rfl⟩
    · have hwanted : cursor.view.wanted capacity = .ok (some (min capacity cursor.remaining)) := by
        rw [View.wanted, if_neg hroom, if_neg (by omega)]
        rfl
      have hless := (View.wanted_some hwanted).2
      simp only [View.remaining] at hless
      rw [if_neg hend, read_memory h hshows hwanted, h.remaining]
      refine ⟨rfl, h.standing (by omega) (by omega) ?_⟩
      omega

/-- A split also keeps the pool. -/
theorem split_agrees {past : Pool MemoryStore} {rest : List Hold}
    (h : cursor.Backed pool.backend.stores) (hkept : past.Kept pool (cursor.hold :: rest))
    (position : Nat) :
    Agree Fault.kind
        (fun (actual : Cursor × Cursor) (expected : Stretch × Stretch) =>
          actual.1.StandsFor pool.backend.stores expected.1 ∧
            actual.2.StandsFor pool.backend.stores expected.2)
        (pool.split cursor position).1
        ((cursor.stretch pool.backend.stores).split position) ∧
      past.backend.Evolves (pool.split cursor position).2.backend := by
  have hcheck := h.splitCheck position
  rw [Stretch.split]
  by_cases hempty : position = (cursor.stretch pool.backend.stores).position ∨
      position = (cursor.stretch pool.backend.stores).stop
  · rw [if_pos hempty] at hcheck ⊢
    rw [split, Cursor.through_eq, Cursor.through_eq, hcheck]
    exact ⟨List.mem_singleton.mpr rfl, hkept.since.stores⟩
  · rw [if_neg hempty] at hcheck ⊢
    by_cases houtside : position < (cursor.stretch pool.backend.stores).position ∨
        (cursor.stretch pool.backend.stores).stop < position
    · rw [if_pos houtside] at hcheck ⊢
      rw [split, Cursor.through_eq, Cursor.through_eq, hcheck]
      exact ⟨List.mem_singleton.mpr rfl, hkept.since.stores⟩
    · rw [if_neg houtside] at hcheck ⊢
      obtain ⟨inner, head, tail, next, hinner, hafter, hbefore, rfl, rfl, hsplit, hhead, htail,
        hnext⟩ := hkept.split h.sound hcheck
      rw [hsplit]
      exact ⟨h.halves hinner hafter hbefore hhead htail, hnext.since.stores⟩

end Pool

end SharedStream
