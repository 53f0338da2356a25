import SharedStream.Proofs.Worlds
/-!
Where cursors come from. After any operation, a live cursor shows a part of what one showed before,
or joins two that were there before, or stands at the start of a block that was just made over a new
store. Whatever these three ways preserve holds of every cursor in every reachable world.
-/

namespace SharedStream.World

variable {σ : Type} [Store σ]

/-- The ways in which a cursor comes from those of the world before; `stores` are those after. -/
inductive Descends (world : World σ) (stores : Array σ) : Cursor → Prop where
  | narrowed {id : String} {cursor : Cursor} {view : View} (hmem : (id, cursor) ∈ world.cursors)
      (hplaced : view.Placed cursor.block.settings.limit)
      (hwithin : view.extent.Within cursor.extent) : Descends world stores (cursor.withView view)
  | joined {id other : String} {head tail : Cursor} {header : Header}
      (hhead : (id, head) ∈ world.cursors) (htail : (other, tail) ∈ world.cursors)
      (hsound : (head.joined tail header).Sound) : Descends world stores (head.joined tail header)
  | built {plan : Blueprint σ} {header : Header} {store : StoreRef} {length : Nat}
      (hcheck : plan.check = .ok length) (hstored : stores[store.number]? = some plan.store)
      (hsound : Cursor.Sound ⟨.source header store, View.whole length⟩) :
      Descends world stores ⟨.source header store, View.whole length⟩

variable {past pool : Pool σ} {world next : World σ} {id : String} {cursor : Cursor}
  {stores : Array σ}

theorem Descends.same (hmem : (id, cursor) ∈ world.cursors) (hsound : cursor.Sound) :
    Descends world stores cursor :=
  .narrowed hmem hsound.placed.view (Extent.Within.refl _)

/-- Every cursor of the world `next` comes from the cursors of the world before. -/
def Begets (world next : World σ) : Prop :=
  ∀ entry ∈ next.cursors, Descends world next.pool.backend.stores entry.2

namespace Begets

theorem same (h : Ordered past world) (hcursors : next.cursors = world.cursors) :
    Begets world next := by
  intro entry hmem
  rw [hcursors] at hmem
  exact .same hmem (h.sound entry hmem)

theorem withCursor {act : Cursor → Except Refusal Answer × World σ} (h : Ordered past world)
    (hact : ∀ cursor, world.find? id = some cursor → Begets world (act cursor).2) :
    Begets world (world.withCursor id act).2 :=
  withCursor_cases (motive := fun outcome => Begets world outcome.2) (same h rfl) hact

theorem claiming {act : Except Refusal Answer × World σ} (h : Ordered past world)
    (hact : Begets world act.2) : Begets world (world.claiming id act).2 :=
  claiming_cases (motive := fun outcome => Begets world outcome.2) (same h rfl) fun _ => hact

theorem add (h : Begets world next)
    (hmade : Descends world next.pool.backend.stores cursor) :
    Begets world (next.add id cursor) := by
  intro entry hmem
  rcases List.mem_append.mp hmem with hold | hnew
  · exact h entry hold
  · obtain rfl := List.mem_singleton.mp hnew
    exact hmade

theorem update (h : Begets world next)
    (hmade : Descends world next.pool.backend.stores cursor) :
    Begets world (next.update id cursor) := by
  intro entry hmem
  obtain ⟨old, hold, rfl⟩ := List.mem_map.mp hmem
  split
  · exact hmade
  · exact h old hold

theorem settleNew {outcome : Except Fault Cursor × Pool σ} (h : Ordered past world)
    (hmade : ∀ cursor, outcome.1 = .ok cursor →
      Descends world outcome.2.backend.stores cursor) :
    Begets world (world.settleNew id outcome).2 := by
  have hsame : Begets world (world.withPool outcome.2) := same h rfl
  exact settleNew_cases (motive := fun outcome => Begets world outcome.2) (fun _ _ => hsame)
    fun cursor hcursor => hsame.add (hmade cursor hcursor)

theorem settleMoved {outcome : Except Fault Cursor × Pool σ} (h : Ordered past world)
    (hmade : ∀ cursor, outcome.1 = .ok cursor →
      Descends world outcome.2.backend.stores cursor) :
    Begets world (world.settleMoved id outcome).2 := by
  have hsame : Begets world (world.withPool outcome.2) := same h rfl
  exact settleMoved_cases (motive := fun outcome => Begets world outcome.2) (fun _ _ => hsame)
    fun cursor hcursor => hsame.update (hmade cursor hcursor)

end Begets

theorem cloneAt_descends (h : Ordered past world) (hfind : world.find? id = some cursor)
    {offset : Nat} {clone : Cursor} (hclone : (world.pool.cloneAt cursor offset).1 = .ok clone) :
    Descends world stores clone := by
  obtain ⟨hfits, rfl⟩ := Pool.cloneAt_ok (Prod.ext hclone rfl)
  have hview : cursor.view.cloneAt cursor.block.settings.limit offset = .ok _ := if_pos hfits
  obtain ⟨hplaced, hwithin⟩ := (h.focus hfind).1.placed.view.cloneAt hview
  exact .narrowed (mem_of_find? hfind) hplaced hwithin

theorem build_descends {plan : Blueprint σ} (hbuild : (world.pool.build plan).1 = .ok cursor) :
    Descends world (world.pool.build plan).2.backend.stores cursor := by
  unfold Pool.build at hbuild ⊢
  cases hcheck : plan.check with
  | error fault => simp [hcheck] at hbuild
  | ok length =>
      obtain ⟨-, -, hlimit⟩ := Blueprint.check_ok hcheck
      simp only [hcheck] at hbuild ⊢
      obtain rfl := Except.ok.inj hbuild
      exact .built hcheck Array.getElem?_push_size
        ⟨trivial, View.whole_placed hlimit plan.settings.limit_le, trivial⟩

/-- Every cursor comes from those before, one way or another. -/
theorem apply_begets (h : Ordered past world) (operation : Operation σ) :
    Begets world (world.apply operation).2 := by
  cases operation with
  | build id plan =>
      exact Begets.claiming h (Begets.settleNew h fun _ hmade => build_descends hmade)
  | position id =>
      refine Begets.withCursor h fun cursor _ => ?_
      rw [Cursor.through_eq]
      exact Begets.same h rfl
  | remaining id =>
      refine Begets.withCursor h fun cursor _ => ?_
      rw [Cursor.through_eq]
      exact Begets.same h rfl
  | refs id => exact Begets.withCursor h fun _ _ => Begets.same h rfl
  | setPosition id position =>
      refine Begets.withCursor h fun cursor hfind => Begets.settleMoved h fun moved hmade => ?_
      obtain ⟨view, hseek, rfl⟩ := Pool.seek_ok hmade
      obtain ⟨hplaced, hextent⟩ := (h.focus hfind).1.placed.view.seek hseek
      exact .narrowed (mem_of_find? hfind) hplaced (.of_eq hextent)
  | reset id =>
      refine Begets.withCursor h fun cursor hfind => Begets.settleMoved h fun moved hmade => ?_
      obtain ⟨view, hreset, rfl⟩ := Cursor.reset_ok hmade
      obtain ⟨hplaced, hextent⟩ := (h.focus hfind).1.placed.view.reset hreset
      exact .narrowed (mem_of_find? hfind) hplaced (.of_eq hextent)
  | read id capacity =>
      refine Begets.withCursor h fun cursor hfind => ?_
      cases hread : world.pool.read cursor capacity with
      | mk made pool =>
          cases made with
          | error error => exact Begets.same h rfl
          | ok moved =>
              obtain ⟨result, moved⟩ := moved
              obtain ⟨rfl, hless⟩ := Pool.read_ok hread
              have hsame : Begets world (world.withPool pool) := Begets.same h rfl
              exact hsame.update (.narrowed (mem_of_find? hfind)
                ((h.focus hfind).1.advance hless).placed.view (Extent.Within.refl _))
  | release id position =>
      refine Begets.withCursor h fun cursor hfind => Begets.settleMoved h fun moved hmade => ?_
      obtain ⟨first, hkept, rfl⟩ := Pool.release_ok hmade
      obtain ⟨hplaced, hwithin⟩ := (h.focus hfind).1.placed.view.release hkept
      exact .narrowed (mem_of_find? hfind) hplaced hwithin
  | cloneAt id target offset =>
      exact Begets.claiming h (Begets.withCursor h fun cursor hfind =>
        Begets.settleNew h fun _ hmade => cloneAt_descends h hfind hmade)
  | clone id target =>
      refine Begets.claiming h (Begets.withCursor h fun cursor hfind => ?_)
      rw [Pool.clone_eq]
      exact Begets.settleNew h fun _ hmade => cloneAt_descends h hfind hmade
  | split id target position =>
      refine Begets.claiming h (Begets.withCursor h fun cursor hfind => ?_)
      obtain ⟨hsound, hkept⟩ := h.focus hfind
      cases hcheck : cursor.view.splitCheck position with
      | error fault =>
          simp only [Pool.split, Cursor.through_eq, hcheck]
          exact Begets.same h rfl
      | ok _ =>
          obtain ⟨inner, head, tail, pool, -, hafter, hbefore, rfl, rfl, hsplit, hhead,
            htail, -⟩ :=
            hkept.split hsound hcheck
          have hfirst := hsound.placed.view.first_le
          have hmem := mem_of_find? hfind
          have hsame : Begets world (world.withPool pool) := Begets.same h rfl
          simp only [hsplit]
          refine (hsame.update ?head).add ?tail
          case head =>
            exact .narrowed hmem hhead.placed.view ⟨Nat.le_refl _, Nat.le_of_lt hbefore⟩
          case tail =>
            exact .narrowed hmem htail.placed.view
              ⟨Nat.le_trans hfirst (Nat.le_of_lt hafter), Nat.le_refl _⟩
  | concat id other hook =>
      refine Begets.withCursor h fun head hfind => ?_
      split
      · exact Begets.same h rfl
      · refine Begets.withCursor h fun tail htail => Begets.settleMoved h fun joined hmade => ?_
        obtain ⟨hlimit, hfits, number, rfl⟩ := Pool.concat_ok (Prod.ext hmade rfl)
        exact .joined (mem_of_find? hfind) (mem_of_find? htail)
          (Cursor.joined_sound (h.focus hfind).1 (h.focus htail).1 rfl hlimit hfits)
  | dispose id =>
      refine Begets.withCursor h fun cursor _ => ?_
      rw [Pool.tryDispose_eq]
      intro entry hmem
      have hold := (List.mem_filter.mp hmem).1
      exact .same hold (h.sound entry hold)

end SharedStream.World
