import SharedStream.Proofs.Confinement
import SharedStream.Proofs.Flattening
import SharedStream.Proofs.Renumbering
import SharedStream.Store.Panel
/-!
An operation sees nothing but the cursors that it names. In two worlds where these are the same, and
where the stores would answer the same, it gives the same answer and does the same to them, up to
the number of the block that it makes. What the books say in the one world or the other has no
influence.
-/

namespace SharedStream

variable {σ : Type} [Store σ]

/-- The answers to reads depend on position and length only: nothing that the store is asked or told
changes them. -/
def Store.Steady (state : σ) : Prop :=
  ∀ {later : σ}, Store.Evolves state later → ∀ position length,
    (Store.readAt later position length).1 = (Store.readAt state position length).1

/-- A panel store keeps account of what it is asked and told, but that does not change its
answers. -/
theorem PanelStore.steady (state : PanelStore) : Store.Steady state := by
  have hgauges : ∀ {later : PanelStore}, Store.Evolves state later →
      ∃ reads hints dropped, later = { state with panel := { state.panel with
        reads, hints, dropped } } := by
    intro later hlater
    induction hlater with
    | refl => exact ⟨_, _, _, rfl⟩
    | read _ position length ih =>
        obtain ⟨reads, hints, dropped, rfl⟩ := ih
        simp only [Store.readAt, PanelStore.readAt]
        split
        · exact ⟨_, _, _, rfl⟩
        · exact ⟨_, _, _, rfl⟩
    | release _ position ih =>
        obtain ⟨reads, hints, dropped, rfl⟩ := ih
        exact ⟨_, _, _, rfl⟩
    | drop _ ih =>
        obtain ⟨reads, hints, dropped, rfl⟩ := ih
        exact ⟨_, _, _, rfl⟩
  intro later hlater position length
  obtain ⟨reads, hints, dropped, rfl⟩ := hgauges hlater
  have hread : PanelStore.read { state with panel := { state.panel with reads, hints, dropped } }
      position length = state.read position length := rfl
  simp only [Store.readAt, PanelStore.readAt, hread]
  cases state.read position length <;> rfl

namespace Backend

/-- The same stores, as far evolved as they may be. -/
structure Succeeds (origin backend : Backend σ) : Prop where
  size : backend.stores.size = origin.stores.size
  stores : origin.Evolves backend

variable {origin backend other : Backend σ}

theorem Succeeds.refl (backend : Backend σ) : backend.Succeeds backend := ⟨rfl, .refl backend⟩

theorem Succeeds.writes {kind : Event → Bool} (h : origin.Succeeds backend)
    (hwrites : backend.Writes kind other) : origin.Succeeds other :=
  ⟨hwrites.size.trans h.size, h.stores.trans hwrites.stores⟩

section Steady

variable (hsteady : ∀ state ∈ origin.stores, Store.Steady state) (store : StoreRef)

include hsteady

theorem read_steady (h : origin.Succeeds backend) (position length : Nat) :
    (backend.read store position length).1 = (origin.read store position length).1 := by
  cases hstate : origin.stores[store.number]? with
  | none =>
      have hnone : backend.stores[store.number]? = none := by
        rw [Array.getElem?_eq_none_iff] at hstate ⊢
        rw [h.size]
        exact hstate
      simp only [read, hstate, hnone]
  | some state =>
      obtain ⟨later, hlater, hevolves⟩ := h.stores.found hstate
      simp only [read, hstate, hlater]
      exact hsteady state (Array.mem_of_getElem? hstate) hevolves position length

/-- Two readers that ask the same of the same stores get the same bytes, wherever they end up. -/
theorem fill_steady (h : origin.Succeeds backend) (h' : origin.Succeeds other)
    (position length : Nat) :
    (backend.fill store position length).1 = (other.fill store position length).1 := by
  induction length using Nat.strongRecOn generalizing backend other position with
  | ind length ih =>
      have hread := (read_steady hsteady store h position length).trans
        (read_steady hsteady store h' position length).symm
      have hafter := h.writes (backend.read_asks store position length)
      have hafter' := h'.writes (other.read_asks store position length)
      rw [fill, fill]
      generalize backend.read store position length = asked at hread hafter
      generalize other.read store position length = asked' at hread hafter'
      obtain ⟨answer, after⟩ := asked
      obtain ⟨answer', after'⟩ := asked'
      obtain rfl : answer = answer' := hread
      split
      · rfl
      · cases answer with
        | error failure => rfl
        | ok reply =>
            by_cases hcount : reply.count = 0
            · simp only [dif_pos hcount]
            · have hrest := ih (length - min reply.count length) (by omega) hafter hafter'
                (position + min reply.count length)
              simp only [dif_neg hcount, hrest]

theorem ask_steady (h : origin.Succeeds backend) (h' : origin.Succeeds other)
    (position wanted : Nat) :
    (backend.ask store position wanted).1 = (other.ask store position wanted).1 := by
  have hread := (read_steady hsteady store h position wanted).trans
    (read_steady hsteady store h' position wanted).symm
  unfold ask
  generalize backend.read store position wanted = asked at hread
  generalize other.read store position wanted = asked' at hread
  obtain ⟨answer, after⟩ := asked
  obtain ⟨answer', after'⟩ := asked'
  obtain rfl : answer = answer' := hread
  cases answer with
  | error failure => rfl
  | ok reply => by_cases hcount : reply.count = 0 ∨ wanted < reply.count <;> simp [hcount]

omit store in
theorem fillAll_steady (pieces : List Piece) (h : origin.Succeeds backend)
    (h' : origin.Succeeds other) : (backend.fillAll pieces).1 = (other.fillAll pieces).1 := by
  induction pieces generalizing backend other with
  | nil => rfl
  | cons piece pieces ih =>
      have hfill := fill_steady hsteady piece.store h h' piece.start piece.length
      have hrest := ih (h.writes (backend.fill_asks piece.store piece.start piece.length))
        (h'.writes (other.fill_asks piece.store piece.start piece.length))
      rw [fillAll, fillAll, andThen, andThen, hfill, hrest]
      split
      · exact hfill
      · rfl

end Steady

end Backend

namespace Pool

/-- What a read gives depends on the cursor and its stores, if the pool keeps what the cursor
sees. -/
theorem read_steady {origin : Backend σ} {pool other : Pool σ} {cursor : Cursor}
    (hsteady : ∀ state ∈ origin.stores, Store.Steady state)
    (h : origin.Succeeds pool.backend) (h' : origin.Succeeds other.backend) (hsound : cursor.Sound)
    (hshows : pool.ledger.Shows cursor.block cursor.extent)
    (hshows' : other.ledger.Shows cursor.block cursor.extent) (capacity : Nat) :
    (pool.read cursor capacity).1 = (other.read cursor capacity).1 := by
  cases hwanted : cursor.view.wanted capacity with
  | error fault => simp only [read, Cursor.through_eq, hwanted]
  | ok wanted =>
      cases wanted with
      | none => simp only [read, Cursor.through_eq, hwanted]
      | some wanted =>
          have hgathered : (pool.gathered cursor wanted).1 = (other.gathered cursor wanted).1 := by
            obtain ⟨block, view⟩ := cursor
            cases block with
            | source header store =>
                have hask := Backend.ask_steady hsteady store h h' view.current wanted
                simp only [gathered]
                generalize pool.backend.ask store view.current wanted = asked at hask
                generalize other.backend.ask store view.current wanted = asked' at hask
                obtain ⟨answer, after⟩ := asked
                obtain ⟨answer', after'⟩ := asked'
                obtain rfl : answer = answer' := hask
                cases answer <;> rfl
            | composed header joint left right => exact Backend.fillAll_steady hsteady _ h h'
          rw [(read_gathered hsound hshows hwanted).1, (read_gathered hsound hshows' hwanted).1,
            hgathered]

end Pool

namespace Cursor

variable {ρ : Renumbering} {cursor other : Cursor}

theorem renumber_withView (hblock : cursor.block.renumber ρ = cursor.block) (view : View) :
    (cursor.withView view).renumber ρ = cursor.withView view := by
  simp only [renumber, withView, hblock]

theorem renumber_joined (hhead : cursor.block.renumber ρ = cursor.block)
    (hother : other.block.renumber ρ = other.block) (header : Header) :
    (cursor.joined other header).renumber ρ =
      cursor.joined other { header with number := ρ header.number } := by
  simp only [renumber, joined, Block.renumber, hhead, hother]

end Cursor

namespace Pool

variable {ρ : Renumbering} (pool other : Pool σ) {cursor : Cursor}
  (hblock : cursor.block.renumber ρ = cursor.block)

/-- A cursor that stays on its block is not affected by a renumbering of other blocks. -/
theorem made_renumber {made made' : Except Fault Cursor} (hsame : made' = made)
    (hstays : ∀ moved, made = .ok moved → ∃ view, moved = cursor.withView view)
    (hblock : cursor.block.renumber ρ = cursor.block) : made' = made.map (Cursor.renumber ρ) := by
  subst hsame
  cases made' with
  | error fault => rfl
  | ok moved =>
      obtain ⟨view, rfl⟩ := hstays moved rfl
      rw [Except.map, Cursor.renumber_withView hblock]

include hblock

omit [Store σ] in
theorem seek_made (position : Nat) :
    (other.seek cursor position).1 = (pool.seek cursor position).1.map (Cursor.renumber ρ) := by
  refine made_renumber ?_ (fun moved hmoved => ?_) hblock
  · simp only [seek, Cursor.through_eq]
    split <;> rfl
  · obtain ⟨view, -, rfl⟩ := seek_ok hmoved
    exact ⟨view, rfl⟩

theorem release_made (position : Nat) :
    (other.release cursor position).1 =
      (pool.release cursor position).1.map (Cursor.renumber ρ) := by
  refine made_renumber ?_ (fun moved hmoved => ?_) hblock
  · simp only [release, Cursor.through_eq]
    split <;> rfl
  · obtain ⟨first, -, rfl⟩ := release_ok hmoved
    exact ⟨_, rfl⟩

theorem cloneAt_made (offset : Nat) :
    (other.cloneAt cursor offset).1 = (pool.cloneAt cursor offset).1.map (Cursor.renumber ρ) := by
  refine made_renumber ?_ (fun clone hclone => ?_) hblock
  · simp only [cloneAt, Cursor.through_eq]
    split <;> rfl
  · obtain ⟨-, rfl⟩ := cloneAt_ok (Prod.ext hclone rfl)
    exact ⟨_, rfl⟩

/-- The new block has the next number in either pool. -/
theorem concat_made {tail : Cursor} (htail : tail.block.renumber ρ = tail.block)
    (hook : Option Hook)
    (hnew : cursor.joinCheck tail = .ok () → ρ pool.ledger.fresh = other.ledger.fresh) :
    (other.concat cursor tail hook).1 =
      (pool.concat cursor tail hook).1.map (Cursor.renumber ρ) := by
  cases hcheck : cursor.joinCheck tail with
  | error fault =>
      rw [(other.concat_refused hook hcheck).1, (pool.concat_refused hook hcheck).1]
      rfl
  | ok _ =>
      rw [(other.concat_granted hook hcheck).1, (pool.concat_granted hook hcheck).1, Except.map,
        Cursor.renumber_joined hblock htail, hnew hcheck]

end Pool

namespace World

variable {ρ : Renumbering}

/-- The same answer, and the same cursors up to the numbers of their blocks. -/
structure Echoes (ρ : Renumbering) (names : List String)
    (outcome other : Except Refusal Answer × World σ) : Prop where
  answer : other.1 = outcome.1
  cursors : ∀ name ∈ names, other.2.find? name = (outcome.2.find? name).map (Cursor.renumber ρ)

namespace Echoes

variable {world other : World σ} {id : String} {names : List String}
  (hsame : ∀ name ∈ names, other.find? name = (world.find? name).map (Cursor.renumber ρ))

include hsame

omit [Store σ]

theorem same (answer : Except Refusal Answer) (pool pool' : Pool σ) :
    Echoes ρ names (answer, world.withPool pool) (answer, other.withPool pool') :=
  ⟨rfl, hsame⟩

theorem withCursor (hid : other.find? id = world.find? id)
    {act act' : Cursor → Except Refusal Answer × World σ}
    (hact : ∀ cursor, world.find? id = some cursor → other.find? id = some cursor →
      Echoes ρ names (act cursor) (act' cursor)) :
    Echoes ρ names (world.withCursor id act) (other.withCursor id act') := by
  unfold World.withCursor
  rw [hid]
  cases hfind : world.find? id with
  | none => exact same hsame _ world.pool other.pool
  | some cursor => exact hact cursor hfind (hid.trans hfind)

theorem claiming (hid : other.find? id = world.find? id)
    {act act' : Except Refusal Answer × World σ} (hact : Echoes ρ names act act') :
    Echoes ρ names (world.claiming id act) (other.claiming id act') := by
  unfold World.claiming isLive
  rw [hid]
  split
  · exact same hsame _ world.pool other.pool
  · exact hact

theorem update (hmem : id ∈ names) (answer : Except Refusal Answer) (pool pool' : Pool σ)
    (next : Cursor) :
    Echoes ρ names (answer, (world.withPool pool).update id next)
      (answer, (other.withPool pool').update id (next.renumber ρ)) := by
  refine ⟨rfl, fun name hname => ?_⟩
  have hid := hsame id hmem
  have hother := hsame name hname
  change World.find? (World.update _ _ _) _ = Option.map _ (World.find? (World.update _ _ _) _)
  rw [find?_update_eq, find?_update_eq]
  change (if name = id then (other.find? id).map _ else other.find? name) =
    Option.map _ (if name = id then (world.find? id).map _ else world.find? name)
  rw [hid, hother]
  split
  · rw [Option.map_map, Option.map_map]
    rfl
  · rfl

theorem add (answer : Except Refusal Answer) (pool pool' : Pool σ) (next : Cursor) :
    Echoes ρ names (answer, (world.withPool pool).add id next)
      (answer, (other.withPool pool').add id (next.renumber ρ)) := by
  refine ⟨rfl, fun name hname => ?_⟩
  have hother := hsame name hname
  change World.find? (World.add _ _ _) _ = Option.map _ (World.find? (World.add _ _ _) _)
  rw [find?_add_eq, find?_add_eq]
  change (other.find? name).or _ = Option.map _ ((world.find? name).or _)
  rw [hother]
  cases world.find? name with
  | none =>
      simp only [Option.map_none, Option.none_or]
      split <;> rfl
  | some cursor => rfl

theorem remove (answer : Except Refusal Answer) (pool pool' : Pool σ) :
    Echoes ρ names (answer, (world.withPool pool).remove id)
      (answer, (other.withPool pool').remove id) := by
  refine ⟨rfl, fun name hname => ?_⟩
  have hother := hsame name hname
  change World.find? (World.remove _ _) _ = Option.map _ (World.find? (World.remove _ _) _)
  rw [find?_remove_eq, find?_remove_eq]
  split
  · rfl
  · exact hother

theorem settleMoved (hmem : id ∈ names) {outcome outcome' : Except Fault Cursor × Pool σ}
    (hmade : outcome'.1 = outcome.1.map (Cursor.renumber ρ)) :
    Echoes ρ names (world.settleMoved id outcome) (other.settleMoved id outcome') := by
  obtain ⟨made, pool⟩ := outcome
  obtain ⟨made', pool'⟩ := outcome'
  obtain rfl : made' = _ := hmade
  cases made with
  | error fault => exact same hsame _ pool pool'
  | ok cursor => exact update hsame hmem _ pool pool' cursor

theorem settleNew {outcome outcome' : Except Fault Cursor × Pool σ}
    (hmade : outcome'.1 = outcome.1.map (Cursor.renumber ρ)) :
    Echoes ρ names (world.settleNew id outcome) (other.settleNew id outcome') := by
  obtain ⟨made, pool⟩ := outcome
  obtain ⟨made', pool'⟩ := outcome'
  obtain rfl : made' = _ := hmade
  cases made with
  | error fault => exact same hsame _ pool pool'
  | ok cursor => exact add hsame _ pool pool' cursor

end Echoes

variable {past past' : Pool σ} {world other : World σ} {operation : Operation σ}

/-- Bound to blocks that were there before, cursors have nothing to do with the numbers of
others. -/
theorem Ordered.renumber_eq {id : String} {cursor : Cursor} (h : Ordered past world)
    (hfixed : ∀ number < world.pool.ledger.fresh, ρ number = number)
    (hfind : world.find? id = some cursor) : cursor.block.renumber ρ = cursor.block :=
  h.kept.balanced.renumber_eq hfixed cursor.block (h.knows hfind)

section Cases

variable {id : String} {names : List String} (h : Ordered past world) (h' : Ordered past' other)
  (hfixed : ∀ number < world.pool.ledger.fresh, ρ number = number)
  (hsame : ∀ name ∈ names, other.find? name = (world.find? name).map (Cursor.renumber ρ))
  (hmem : id ∈ names) (hid : other.find? id = world.find? id)

include h hfixed hsame hmem hid

theorem concat_echoes {third : String} (hthird : other.find? third = world.find? third)
    (hook : Option Hook)
    (hnew : (Operation.concat id third hook : Operation σ).blocksMade
        (world.apply (.concat id third hook)).1 = 1 →
      ρ world.pool.ledger.fresh = other.pool.ledger.fresh) :
    Echoes ρ names (world.apply (.concat id third hook))
      (other.apply (.concat id third hook)) := by
  refine Echoes.withCursor hsame hid fun head hfind _ => ?_
  split
  · exact Echoes.same hsame _ world.pool other.pool
  · rename_i hne
    refine Echoes.withCursor hsame hthird fun tail htail _ => Echoes.settleMoved hsame hmem ?_
    refine Pool.concat_made _ _ (h.renumber_eq hfixed hfind) (h.renumber_eq hfixed htail) hook
      fun hcheck => hnew ?_
    have hmade := (world.pool.concat_granted hook hcheck).1
    simp only [apply, World.withCursor, hfind, htail, if_neg hne]
    generalize world.pool.concat head tail hook = outcome at hmade
    obtain ⟨made, pool⟩ := outcome
    obtain rfl : made = _ := hmade
    rfl

include h'

theorem read_echoes (hsteady : ∀ state ∈ world.pool.backend.stores, Store.Steady state)
    (hstores : world.pool.backend.Succeeds other.pool.backend) (capacity : Nat) :
    Echoes ρ names (world.apply (.read id capacity)) (other.apply (.read id capacity)) := by
  refine Echoes.withCursor hsame hid fun cursor hfind hfind' => ?_
  have hread := Pool.read_steady hsteady (.refl _) hstores (h.focus hfind).1 (h.shows hfind)
    (h'.shows hfind') capacity
  cases hmade : world.pool.read cursor capacity with
  | mk made pool =>
      cases hmade' : other.pool.read cursor capacity with
      | mk made' pool' =>
          rw [hmade, hmade'] at hread
          obtain rfl : made = made' := hread
          cases made with
          | error error => exact Echoes.same hsame _ pool pool'
          | ok moved =>
              obtain ⟨result, moved⟩ := moved
              obtain ⟨rfl, -⟩ := Pool.read_ok hmade
              have hupdate := Echoes.update hsame hmem (.ok (.read result)) pool pool'
                (cursor.advance result.bytes.length)
              rwa [Cursor.advance, Cursor.renumber_withView (h.renumber_eq hfixed hfind)]
                at hupdate

theorem split_echoes {target : String} (htarget : other.find? target = world.find? target)
    (position : Nat) :
    Echoes ρ names (world.apply (.split id target position))
      (other.apply (.split id target position)) := by
  refine Echoes.claiming hsame htarget (Echoes.withCursor hsame hid fun cursor hfind hfind' => ?_)
  obtain ⟨hsound, hkept⟩ := h.focus hfind
  cases hcheck : cursor.view.splitCheck position with
  | error fault =>
      simp only [Pool.split, Cursor.through_eq, hcheck]
      exact Echoes.same hsame _ world.pool other.pool
  | ok _ =>
      -- The cut is named in the cursor's own terms, so it is at the same place in both worlds.
      obtain ⟨inner, _, _, pool, hinner, -, -, rfl, rfl, hsplit, -⟩ := hkept.split hsound hcheck
      obtain ⟨inner', _, _, pool', hinner', -, -, rfl, rfl, hsplit', -⟩ :=
        (h'.focus hfind').2.split hsound hcheck
      obtain rfl : inner = inner' := by omega
      have hblock := h.renumber_eq hfixed hfind
      let head := cursor.withView { cursor.view with stop := inner }
      let tail := cursor.withView ⟨.placing inner position, inner, inner, cursor.view.stop⟩
      have hhead := Echoes.update hsame hmem (.ok .done) pool pool' head
      have htail : Echoes ρ _ (.ok .done, World.add _ target tail)
          (.ok .done, World.add _ target (tail.renumber ρ)) :=
        Echoes.add hhead.cursors (.ok .done) pool pool' tail
      simp only [hsplit, hsplit']
      rwa [Cursor.renumber_withView hblock, Cursor.renumber_withView hblock] at htail

end Cases

/-- In two worlds with the same cursors under the names that it looks at, and the same steady
stores, an operation comes to the same, but for the number of the block that it may make. -/
theorem apply_echoes (h : Ordered past world) (h' : Ordered past' other)
    (hbytes : operation.onBytes = true)
    (hfixed : ∀ number < world.pool.ledger.fresh, ρ number = number)
    (hagree : ∀ name ∈ operation.names, other.find? name = world.find? name)
    (hnew : operation.blocksMade (world.apply operation).1 = 1 →
      ρ world.pool.ledger.fresh = other.pool.ledger.fresh)
    (hsteady : ∀ state ∈ world.pool.backend.stores, Store.Steady state)
    (hstores : world.pool.backend.Succeeds other.pool.backend) :
    Echoes ρ operation.names (world.apply operation) (other.apply operation) := by
  have hsame : ∀ name ∈ operation.names,
      other.find? name = (world.find? name).map (Cursor.renumber ρ) := by
    intro name hname
    rw [hagree name hname]
    cases hfind : world.find? name with
    | none => rfl
    | some cursor => rw [Option.map_some, Cursor.renumber, h.renumber_eq hfixed hfind]
  cases operation with
  | build id plan => cases hbytes
  | refs id => cases hbytes
  | position id =>
      refine Echoes.withCursor hsame (hagree id (by simp)) fun cursor _ _ => ?_
      rw [Cursor.through_eq, Cursor.through_eq]
      exact Echoes.same hsame _ world.pool other.pool
  | remaining id =>
      refine Echoes.withCursor hsame (hagree id (by simp)) fun cursor _ _ => ?_
      rw [Cursor.through_eq, Cursor.through_eq]
      exact Echoes.same hsame _ world.pool other.pool
  | setPosition id position =>
      exact Echoes.withCursor hsame (hagree id (by simp)) fun cursor hfind _ =>
        Echoes.settleMoved hsame (by simp)
          (Pool.seek_made _ _ (h.renumber_eq hfixed hfind) position)
  | reset id =>
      refine Echoes.withCursor hsame (hagree id (by simp)) fun cursor hfind _ =>
        Echoes.settleMoved hsame (by simp)
          (Pool.made_renumber rfl (fun moved hmoved => ?_) (h.renumber_eq hfixed hfind))
      obtain ⟨view, -, rfl⟩ := Cursor.reset_ok hmoved
      exact ⟨view, rfl⟩
  | read id capacity =>
      exact read_echoes h h' hfixed hsame (by simp) (hagree id (by simp)) hsteady hstores capacity
  | release id position =>
      exact Echoes.withCursor hsame (hagree id (by simp)) fun cursor hfind _ =>
        Echoes.settleMoved hsame (by simp)
          (Pool.release_made _ _ (h.renumber_eq hfixed hfind) position)
  | cloneAt id target offset =>
      exact Echoes.claiming hsame (hagree target (by simp)) <|
        Echoes.withCursor hsame (hagree id (by simp)) fun cursor hfind _ =>
          Echoes.settleNew hsame (Pool.cloneAt_made _ _ (h.renumber_eq hfixed hfind) offset)
  | clone id target =>
      refine Echoes.claiming hsame (hagree target (by simp)) <|
        Echoes.withCursor hsame (hagree id (by simp)) fun cursor hfind _ => ?_
      rw [Pool.clone_eq, Pool.clone_eq]
      exact Echoes.settleNew hsame
        (Pool.cloneAt_made _ _ (h.renumber_eq hfixed hfind) cursor.position)
  | split id target position =>
      exact split_echoes h h' hfixed hsame (by simp) (hagree id (by simp)) (hagree target (by simp))
        position
  | concat id third hook =>
      exact concat_echoes h hfixed hsame (by simp) (hagree id (by simp)) (hagree third (by simp))
        hook hnew
  | dispose id =>
      refine Echoes.withCursor hsame (hagree id (by simp)) fun cursor _ _ => ?_
      rw [Pool.tryDispose_eq, Pool.tryDispose_eq]
      exact Echoes.remove hsame _ _ _

end World

end SharedStream
