import SharedStream.Proofs.Reads
import SharedStream.Proofs.Worlds
/-!
What an operation leaves alone. It touches the cursors that it moves, makes or ends, and looks at no
others but the one it appends; every other cursor stays as it is. Blocks are made one at a time, by
a concatenation that is granted, and stores are only taken in to be built upon.
-/

namespace SharedStream

namespace Operation

variable {σ : Type}

/-- The cursors that an operation moves, makes or ends. -/
@[simp] def touched : Operation σ → List String
  | build id _ | position id | remaining id | refs id | setPosition id _ | reset id | read id _
  | release id _ | concat id _ _ | dispose id => [id]
  | cloneAt id target _ | clone id target | split id target _ => [id, target]

/-- The cursors that an operation touches or looks at. -/
@[simp] def names : Operation σ → List String
  | concat id other _ => [id, other]
  | operation => operation.touched

theorem mem_names_of_touched {operation : Operation σ} {id : String}
    (h : id ∈ operation.touched) : id ∈ operation.names := by
  cases operation with
  | concat head other hook => exact List.mem_cons.mpr (Or.inl (List.mem_singleton.mp h))
  | _ => exact h

/-- An operation on bytes that live cursors see: it takes no store in, and does not ask how many
others there are. -/
def onBytes : Operation σ → Bool
  | build _ _ | refs _ => false
  | _ => true

/-- How many blocks an operation made, judging by its answer. -/
def blocksMade : Operation σ → Except Refusal Answer → Nat
  | concat _ _ _, .ok _ => 1
  | _, _ => 0

end Operation

namespace World

variable {σ : Type}

variable [Store σ] {world : World σ} {id name : String}

omit [Store σ] in
theorem find?_settleNew (hne : name ≠ id) (outcome : Except Fault Cursor × Pool σ) :
    (world.settleNew id outcome).2.find? name = world.find? name :=
  settleNew_cases (motive := fun outcome => outcome.2.find? name = world.find? name)
    (fun _ _ => rfl) fun cursor _ => by
      rw [find?_add_eq, if_neg hne, Option.or_none]
      rfl

omit [Store σ] in
theorem find?_settleMoved (hne : name ≠ id) (outcome : Except Fault Cursor × Pool σ) :
    (world.settleMoved id outcome).2.find? name = world.find? name :=
  settleMoved_cases (motive := fun outcome => outcome.2.find? name = world.find? name)
    (fun _ _ => rfl) fun cursor _ => by
      rw [find?_update_eq, if_neg hne]
      rfl

/-- An operation leaves alone the cursors that it does not touch. -/
theorem find?_apply_of_not_touched (operation : Operation σ)
    (hother : name ∉ operation.touched) :
    (world.apply operation).2.find? name = world.find? name := by
  let Spared (outcome : Except Refusal Answer × World σ) : Prop :=
    outcome.2.find? name = world.find? name
  cases operation with
  | build id plan =>
      exact claiming_cases (motive := Spared) rfl fun _ => find?_settleNew (by simpa using hother) _
  | position id =>
      refine withCursor_cases (motive := Spared) rfl fun cursor _ => ?_
      rw [Cursor.through_eq]
  | remaining id =>
      refine withCursor_cases (motive := Spared) rfl fun cursor _ => ?_
      rw [Cursor.through_eq]
  | refs id => exact withCursor_cases (motive := Spared) rfl fun _ _ => rfl
  | setPosition id position =>
      exact withCursor_cases (motive := Spared) rfl fun _ _ =>
        find?_settleMoved (by simpa using hother) _
  | reset id =>
      exact withCursor_cases (motive := Spared) rfl fun _ _ =>
        find?_settleMoved (by simpa using hother) _
  | read id capacity =>
      refine withCursor_cases (motive := Spared) rfl fun cursor _ => ?_
      split
      · rfl
      · change World.find? (World.update _ id _) name = _
        rw [find?_update_eq, if_neg (by simpa using hother)]
        rfl
  | release id position =>
      exact withCursor_cases (motive := Spared) rfl fun _ _ =>
        find?_settleMoved (by simpa using hother) _
  | cloneAt id target offset =>
      obtain ⟨-, htarget⟩ : name ≠ id ∧ name ≠ target := by simpa using hother
      exact claiming_cases (motive := Spared) rfl fun _ =>
        withCursor_cases (motive := Spared) rfl fun _ _ => find?_settleNew htarget _
  | clone id target =>
      obtain ⟨-, htarget⟩ : name ≠ id ∧ name ≠ target := by simpa using hother
      exact claiming_cases (motive := Spared) rfl fun _ =>
        withCursor_cases (motive := Spared) rfl fun _ _ => find?_settleNew htarget _
  | split id target position =>
      obtain ⟨hid, htarget⟩ : name ≠ id ∧ name ≠ target := by simpa using hother
      refine claiming_cases (motive := Spared) rfl fun _ =>
        withCursor_cases (motive := Spared) rfl fun cursor _ => ?_
      split
      · rfl
      · change World.find? (World.add _ target _) name = _
        rw [find?_add_eq, if_neg htarget, Option.or_none, find?_update_eq, if_neg hid]
        rfl
  | concat id other hook =>
      refine withCursor_cases (motive := Spared) rfl fun head _ => ?_
      split
      · rfl
      · exact withCursor_cases (motive := Spared) rfl fun _ _ =>
          find?_settleMoved (by simpa using hother) _
  | dispose id =>
      refine withCursor_cases (motive := Spared) rfl fun cursor _ => ?_
      rw [Pool.tryDispose_eq]
      change World.find? (World.remove _ id) name = _
      rw [find?_remove_eq, if_neg (by simpa using hother)]
      rfl

end World

/-- Whether all positions of two cursors end to end are allowed. The head is asked first. -/
def Cursor.joinCheck (head other : Cursor) : Except Fault Unit :=
  if head.view.stopPosition + other.remaining ≤ head.block.settings.limit then
    (other.view.cloneAt other.block.settings.limit head.view.stopPosition).map fun _ => ()
  else
    .error (.concatOverflow head.view.stopPosition other.remaining head.block.settings.limit)

namespace Pool

variable {σ : Type} [Store σ]

/-- So many blocks were made, and no store was taken in. -/
structure Grows (blocks : Nat) (before after : Pool σ) : Prop where
  fresh : after.ledger.fresh = before.ledger.fresh + blocks
  stores : after.backend.stores.size = before.backend.stores.size

namespace Grows

variable {before middle after : Pool σ} {blocks more : Nat}

omit [Store σ] in
theorem refl (pool : Pool σ) : pool.Grows 0 pool := ⟨rfl, rfl⟩

omit [Store σ] in
theorem trans (hfirst : before.Grows blocks middle) (hsecond : middle.Grows more after) :
    before.Grows (blocks + more) after := by
  have hfresh := hfirst.fresh
  have hfresh' := hsecond.fresh
  exact ⟨by omega, hsecond.stores.trans hfirst.stores⟩

omit [Store σ] in
theorem log (h : before.Grows blocks after) (event : Event) :
    before.Grows blocks (after.log event) :=
  ⟨h.fresh, h.stores⟩

omit [Store σ] in
theorem modify (pool : Pool σ) (number : Nat) (change : Page → Page) {backend : Backend σ}
    (hstores : backend.stores.size = pool.backend.stores.size) :
    pool.Grows 0 ⟨pool.ledger.modify number change, backend⟩ :=
  ⟨by simp [Ledger.fresh, Ledger.modify], hstores⟩

end Grows

section Retirement

variable (pool : Pool σ) (block : Block) (before after : Extent)

theorem recountSlot_grows (header : Header) (joint : Joint) (side : Side) :
    pool.Grows 0 (pool.recountSlot header joint before after side).1 := by
  have hsize := (@recountSlot_writes _ _ (fun _ => true) pool header joint before after side
    (fun _ => rfl) rfl).size
  cases hpage : pool.ledger.get? header.number with
  | none => simpa only [recountSlot, hpage] using Grows.refl pool
  | some page =>
      have hledger := (recountSlot_of_page joint before after side hpage).1
      exact ⟨by rw [hledger]; simp [Ledger.fresh, Ledger.modify], hsize⟩

theorem recount_grows : pool.Grows 0 (pool.recount block before after).1 := by
  cases block with
  | source header store => exact Grows.refl pool
  | composed header joint left right =>
      exact (pool.recountSlot_grows before after header joint .right).trans
        (recountSlot_grows _ before after header joint .left)

theorem unhold_grows : pool.Grows 0 (pool.unhold block).1 := by
  unfold unhold
  split
  · exact Grows.refl pool
  · rename_i page _
    split
    · have hledger := Kept.free_ledger pool block page
      exact ⟨by rw [hledger]; simp [Ledger.fresh, Ledger.modify],
        Kept.free_size pool block page⟩
    · exact Grows.modify pool _ _ rfl

theorem disposeAll_grows (children : List Cursor) : pool.Grows 0 (pool.disposeAll children) := by
  refine disposeAll_induction (motive := fun next _ => pool.Grows 0 next) ?_ pool children
    (Grows.refl pool)
  intro next child children hnext
  simp only [disposeOne, detach_eq]
  exact hnext.trans ((recount_grows next _ _ _).trans (unhold_grows _ _))

theorem resize_grows : pool.Grows 0 (pool.resize block before after) :=
  (pool.recount_grows block before after).trans (disposeAll_grows _ _)

theorem letGo_grows : pool.Grows 0 (pool.letGo block) :=
  (pool.unhold_grows block).trans (disposeAll_grows _ _)

theorem dispose_grows (cursor : Cursor) : pool.Grows 0 (pool.dispose cursor) :=
  (pool.resize_grows ..).trans (letGo_grows _ _)

end Retirement

section Operations

variable (pool : Pool σ) (cursor : Cursor) (position : Nat)

omit [Store σ] in
theorem seek_grows : pool.Grows 0 (pool.seek cursor position).2 := by
  simp only [seek, Cursor.through_eq]
  split
  · exact Grows.refl pool
  · exact (Grows.refl pool).log _

theorem release_grows : pool.Grows 0 (pool.release cursor position).2 := by
  simp only [release, Cursor.through_eq]
  split
  · exact Grows.refl pool
  · rename_i first _
    obtain ⟨hledger, hadvice⟩ :=
      pool.adviseBelow_advises cursor.block ⟨cursor.view.first, first⟩
    have hadvised : pool.Grows 0 (pool.adviseBelow cursor.block ⟨cursor.view.first, first⟩) :=
      ⟨by rw [hledger]; rfl, hadvice.size⟩
    exact hadvised.trans (resize_grows ..)

theorem cloneAt_grows : pool.Grows 0 (pool.cloneAt cursor position).2 := by
  simp only [cloneAt, Cursor.through_eq]
  split
  · exact Grows.refl pool
  · exact (Grows.modify pool _ _ rfl).trans (resize_grows ..)

theorem read_grows (capacity : Nat) : pool.Grows 0 (pool.read cursor capacity).2 := by
  refine ⟨?_, (pool.read_quiet cursor capacity).size⟩
  simp only [read, Cursor.through_eq]
  split
  · rfl
  · rfl
  · split <;> rfl

theorem disposeClone_grows (made : Except Fault Cursor) :
    pool.Grows 0 (pool.disposeClone made) := by
  cases made with
  | error fault => exact Grows.refl pool
  | ok clone => exact pool.dispose_grows clone

theorem cutHead_grows (tail : Cursor) : pool.Grows 0 (pool.cutHead cursor tail position).2 := by
  simp only [cutHead, Cursor.through_eq]
  split
  · exact pool.dispose_grows tail
  · split
    · exact pool.dispose_grows tail
    · exact (pool.resize_grows ..).log _

theorem split_grows : pool.Grows 0 (pool.split cursor position).2 := by
  simp only [split, Cursor.through_eq]
  split
  · exact Grows.refl pool
  · have hseek := pool.seek_grows cursor position
    split
    · rename_i hmoved
      rw [hmoved] at hseek
      exact hseek
    · rename_i moved there hmoved
      rw [hmoved] at hseek
      have hclone := hseek.trans (there.cloneAt_grows moved position)
      have hback := hclone.trans (seek_grows _ moved cursor.position)
      split
      · rename_i hwalked
        rw [hwalked] at hback
        exact hback.trans (disposeClone_grows _ _)
      · rename_i hwalked _
        rw [hwalked] at hback
        exact hback
      · rename_i hwalked _
        rw [hwalked] at hback
        exact hback.trans (cutHead_grows ..)

theorem keepIf_grows (needed : Bool) (child : Cursor) :
    pool.Grows 0 (pool.keepIf needed child) := by
  unfold keepIf
  split
  · exact Grows.refl pool
  · rw [abandon_eq]
    exact pool.dispose_grows child

/-- The new block gets the next number. -/
theorem compose_grows (head tail : Cursor) (joint : Joint) (hook : Option Hook) :
    pool.Grows 1 (pool.compose head tail joint hook).2 ∧
      (pool.compose head tail joint hook).1.block.number = pool.ledger.fresh := by
  have hkept := (pool.keepIf_grows (joint.whole.overlaps (joint.range .left)) head).trans
    (keepIf_grows _ (joint.whole.overlaps (joint.range .right)) tail)
  have hfresh := hkept.fresh
  constructor
  · refine hkept.trans (?_ : Grows 1 _ _)
    exact ⟨by simp [compose, Ledger.fresh, Ledger.add], rfl⟩
  · exact hfresh

end Operations

section Concat

variable (pool : Pool σ) {head other : Cursor} (hook : Option Hook)

theorem join_refused {fault : Fault} (hcheck : head.joinCheck other = .error fault) :
    (pool.join head other hook).1 = .error fault ∧
      pool.Grows 0 (pool.join head other hook).2 := by
  simp only [Cursor.joinCheck] at hcheck
  simp only [join, Cursor.through_eq]
  split at hcheck
  · rename_i hlimit
    rw [if_pos hlimit]
    have hclone := pool.cloneAt_grows other head.view.stopPosition
    simp only [cloneAt, Cursor.through_eq] at hclone ⊢
    cases hview : other.view.cloneAt other.block.settings.limit head.view.stopPosition with
    | error fault' =>
        rw [hview] at hcheck hclone
        obtain rfl := Except.error.inj hcheck
        exact ⟨rfl, hclone⟩
    | ok view =>
        rw [hview] at hcheck
        cases hcheck
  · rename_i hlimit
    rw [if_neg hlimit]
    obtain rfl := Except.error.inj hcheck
    exact ⟨rfl, Grows.refl pool⟩

theorem join_granted (hcheck : head.joinCheck other = .ok ()) :
    (pool.join head other hook).1 =
        .ok (head.joined other ⟨pool.ledger.fresh, head.block.settings, none, hook⟩) ∧
      pool.Grows 1 (pool.join head other hook).2 := by
  simp only [Cursor.joinCheck] at hcheck
  split at hcheck
  · rename_i hlimit
    cases hview : other.view.cloneAt other.block.settings.limit head.view.stopPosition with
    | error fault =>
        rw [hview] at hcheck
        cases hcheck
    | ok view =>
        obtain ⟨hfits, rfl⟩ := View.cloneAt_ok hview
        have hclone := pool.cloneAt_grows other head.view.stopPosition
        simp only [join, Cursor.through_eq, if_pos hlimit]
        have hmade := pool.cloneAt_eq hfits
        generalize pool.cloneAt other head.view.stopPosition = cloned at hclone hmade ⊢
        obtain ⟨made, cloned⟩ := cloned
        obtain rfl : made = _ := hmade
        let tail := other.withView ⟨.placing other.view.current head.view.stopPosition,
          other.view.current, other.view.current, other.view.stop⟩
        let joint : Joint := ⟨head.view.firstPosition, head.view.stopPosition,
          head.view.stopPosition + other.remaining, head.view, tail.view⟩
        obtain ⟨hgrows, hnumber⟩ := cloned.compose_grows head tail joint hook
        have hfresh : cloned.ledger.fresh = pool.ledger.fresh := hclone.fresh
        refine ⟨?_, (hclone.trans hgrows).log _⟩
        rw [← hfresh, ← hnumber]
        rfl
  · cases hcheck

omit [Store σ] in
theorem retain_grows (number : Nat) :
    pool.Grows 0 { pool with ledger := pool.ledger.retain number } :=
  Grows.modify pool _ _ rfl

theorem concat_refused {fault : Fault} (hcheck : head.joinCheck other = .error fault) :
    (pool.concat head other hook).1 = .error fault ∧
      pool.Grows 0 (pool.concat head other hook).2 := by
  obtain ⟨hmade, hpool⟩ := pool.concat_eq head other hook
  have hcopied := pool.retain_grows head.block.number
  obtain ⟨hfault, hgrows⟩ := join_refused { pool with ledger := _ } hook hcheck
  rw [hmade, hpool]
  exact ⟨hfault, hcopied.trans (hgrows.trans (letGo_grows _ _))⟩

theorem concat_granted (hcheck : head.joinCheck other = .ok ()) :
    (pool.concat head other hook).1 =
        .ok (head.joined other ⟨pool.ledger.fresh, head.block.settings, none, hook⟩) ∧
      pool.Grows 1 (pool.concat head other hook).2 := by
  obtain ⟨hmade, hpool⟩ := pool.concat_eq head other hook
  have hcopied := pool.retain_grows head.block.number
  have hfresh : (pool.ledger.retain head.block.number).fresh = pool.ledger.fresh := hcopied.fresh
  obtain ⟨hjoined, hgrows⟩ := join_granted { pool with ledger := _ } hook hcheck
  rw [hmade, hpool, hjoined, hfresh]
  exact ⟨rfl, hcopied.trans (hgrows.trans (letGo_grows _ _))⟩

end Concat

end Pool

namespace World

variable {σ : Type} [Store σ] {world : World σ} {id : String}

omit [Store σ] in
theorem settleNew_grows {outcome : Except Fault Cursor × Pool σ}
    (h : world.pool.Grows 0 outcome.2) : world.pool.Grows 0 (world.settleNew id outcome).2.pool :=
  settleNew_cases (motive := fun outcome => world.pool.Grows 0 outcome.2.pool) (fun _ _ => h)
    fun _ _ => h

omit [Store σ] in
theorem settleMoved_grows {outcome : Except Fault Cursor × Pool σ}
    (h : world.pool.Grows 0 outcome.2) : world.pool.Grows 0 (world.settleMoved id outcome).2.pool :=
  settleMoved_cases (motive := fun outcome => world.pool.Grows 0 outcome.2.pool) (fun _ _ => h)
    fun _ _ => h

/-- A concatenation that is granted binds the cursor to a block with the next number. -/
theorem concat_joined {other : String} {hook : Option Hook} {next : World σ} {answer : Answer}
    (hconcat : world.apply (.concat id other hook) = (.ok answer, next)) :
    ∃ head tail : Cursor, next.find? id =
      some (head.joined tail ⟨world.pool.ledger.fresh, head.block.settings, none, hook⟩) := by
  simp only [apply, withCursor] at hconcat
  split at hconcat
  · cases hconcat
  · rename_i head hhead
    split at hconcat
    · cases hconcat
    · split at hconcat
      · cases hconcat
      · rename_i tail _
        cases hcheck : head.joinCheck tail with
        | error fault =>
            have hmade := (world.pool.concat_refused hook hcheck).1
            generalize world.pool.concat head tail hook = outcome at hmade hconcat
            obtain ⟨made, pool⟩ := outcome
            obtain rfl : made = _ := hmade
            cases hconcat
        | ok _ =>
            have hmade := (world.pool.concat_granted hook hcheck).1
            generalize world.pool.concat head tail hook = outcome at hmade hconcat
            obtain ⟨made, pool⟩ := outcome
            obtain rfl : made = _ := hmade
            obtain rfl := (Prod.mk.inj hconcat).2
            exact ⟨head, tail, find?_update hhead _⟩

/-- What an operation on bytes makes can be told from its answer. -/
theorem apply_grows (world : World σ) {operation : Operation σ}
    (hbytes : operation.onBytes = true) :
    world.pool.Grows (operation.blocksMade (world.apply operation).1)
      (world.apply operation).2.pool := by
  have hnone := Pool.Grows.refl world.pool
  let Idle (outcome : Except Refusal Answer × World σ) : Prop := world.pool.Grows 0 outcome.2.pool
  cases operation with
  | build id plan => cases hbytes
  | refs id => cases hbytes
  | position id =>
      refine withCursor_cases (motive := Idle) hnone fun cursor _ => ?_
      rw [Cursor.through_eq]
      exact hnone
  | remaining id =>
      refine withCursor_cases (motive := Idle) hnone fun cursor _ => ?_
      rw [Cursor.through_eq]
      exact hnone
  | setPosition id position =>
      exact withCursor_cases (motive := Idle) hnone fun cursor _ =>
        settleMoved_grows (world.pool.seek_grows cursor position)
  | reset id =>
      exact withCursor_cases (motive := Idle) hnone fun _ _ => settleMoved_grows hnone
  | read id capacity =>
      refine withCursor_cases (motive := Idle) hnone fun cursor _ => ?_
      have hread := world.pool.read_grows cursor capacity
      split
      · rename_i hmade
        rw [hmade] at hread
        exact hread
      · rename_i hmade
        rw [hmade] at hread
        exact hread
  | release id position =>
      exact withCursor_cases (motive := Idle) hnone fun cursor _ =>
        settleMoved_grows (world.pool.release_grows cursor position)
  | cloneAt id target offset =>
      exact claiming_cases (motive := Idle) hnone fun _ =>
        withCursor_cases (motive := Idle) hnone fun cursor _ =>
          settleNew_grows (world.pool.cloneAt_grows cursor offset)
  | clone id target =>
      refine claiming_cases (motive := Idle) hnone fun _ =>
        withCursor_cases (motive := Idle) hnone fun cursor _ => ?_
      rw [Pool.clone_eq]
      exact settleNew_grows (world.pool.cloneAt_grows cursor cursor.position)
  | split id target position =>
      refine claiming_cases (motive := Idle) hnone fun _ =>
        withCursor_cases (motive := Idle) hnone fun cursor _ => ?_
      have hsplit := world.pool.split_grows cursor position
      split
      · rename_i hmade
        rw [hmade] at hsplit
        exact hsplit
      · rename_i hmade
        rw [hmade] at hsplit
        exact hsplit
  | concat id other hook =>
      let Joined (outcome : Except Refusal Answer × World σ) : Prop :=
        world.pool.Grows ((Operation.concat id other hook : Operation σ).blocksMade outcome.1)
          outcome.2.pool
      refine withCursor_cases (motive := Joined) hnone fun head _ => ?_
      split
      · exact hnone
      · refine withCursor_cases (motive := Joined) hnone fun tail _ => ?_
        cases hcheck : head.joinCheck tail with
        | error fault =>
            obtain ⟨hmade, hgrows⟩ := world.pool.concat_refused hook hcheck
            refine settleMoved_cases (motive := Joined) (fun _ _ => hgrows) fun cursor hcursor => ?_
            rw [hmade] at hcursor
            cases hcursor
        | ok _ =>
            obtain ⟨hmade, hgrows⟩ := world.pool.concat_granted hook hcheck
            refine settleMoved_cases (motive := Joined) (fun fault hfault => ?_) fun _ _ => hgrows
            rw [hmade] at hfault
            cases hfault
  | dispose id =>
      refine withCursor_cases (motive := Idle) hnone fun cursor _ => ?_
      rw [Pool.tryDispose_eq]
      exact world.pool.dispose_grows cursor

end World

end SharedStream
