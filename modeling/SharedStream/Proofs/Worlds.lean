import SharedStream.Proofs.Operations
import SharedStream.World
/-!
A world in good order: its names are different, its cursors are sound, and its pool is kept for
what they hold. Every operation keeps this, and so does every run. An operation that is refused
leaves the cursors and the pages alone.
-/

namespace SharedStream

namespace World

variable {σ : Type}

/-- What the live cursors hold. -/
def holds (world : World σ) : List Hold := world.cursors.map fun entry => entry.2.hold

/-- What the live cursors hold, without one of them. -/
def others (world : World σ) (id : String) : List Hold := (world.remove id).holds

/-- The cursors by themselves are in order. -/
structure Arranged (cursors : List (String × Cursor)) : Prop where
  named : (cursors.map Prod.fst).Nodup
  sound : ∀ entry ∈ cursors, entry.2.Sound

section Cursors

variable {world : World σ} {id : String} {cursor : Cursor}

theorem find?_split (hnamed : (world.cursors.map Prod.fst).Nodup)
    (hfind : world.find? id = some cursor) :
    ∃ front back, world.cursors = front ++ (id, cursor) :: back ∧
      (∀ entry ∈ front, entry.1 ≠ id) ∧ ∀ entry ∈ back, entry.1 ≠ id := by
  obtain ⟨front, back, hsplit, hfront⟩ := List.lookup_eq_some_iff.mp hfind
  refine ⟨front, back, hsplit, ?_, ?_⟩
  · intro entry hmem heq
    have hne := hfront entry hmem
    simp [heq] at hne
  · intro entry hmem heq
    rw [hsplit, List.map_append, List.map_cons, List.nodup_append] at hnamed
    obtain ⟨-, hback, -⟩ := hnamed
    exact (List.nodup_cons.mp hback).1 (List.mem_map.mpr ⟨entry, hmem, heq⟩)

theorem mem_of_find? (hfind : world.find? id = some cursor) : (id, cursor) ∈ world.cursors := by
  obtain ⟨front, back, hsplit, -⟩ := List.lookup_eq_some_iff.mp hfind
  rw [hsplit]
  simp

theorem cursors_remove {front back : List (String × Cursor)}
    (hsplit : world.cursors = front ++ (id, cursor) :: back)
    (hfront : ∀ entry ∈ front, entry.1 ≠ id) (hback : ∀ entry ∈ back, entry.1 ≠ id) :
    (world.remove id).cursors = front ++ back := by
  have hkeep : ∀ part : List (String × Cursor), (∀ entry ∈ part, entry.1 ≠ id) →
      part.filter (fun entry => entry.1 ≠ id) = part := by
    intro part hpart
    exact List.filter_eq_self.mpr fun entry hmem => by simpa using hpart entry hmem
  simp only [remove, hsplit, List.filter_append, List.filter_cons, hkeep front hfront,
    hkeep back hback]
  simp

theorem cursors_update {front back : List (String × Cursor)}
    (hsplit : world.cursors = front ++ (id, cursor) :: back)
    (hfront : ∀ entry ∈ front, entry.1 ≠ id) (hback : ∀ entry ∈ back, entry.1 ≠ id)
    (next : Cursor) : (world.update id next).cursors = front ++ (id, next) :: back := by
  have hkeep : ∀ part : List (String × Cursor), (∀ entry ∈ part, entry.1 ≠ id) →
      part.map (fun entry => if entry.1 = id then (id, next) else entry) = part := by
    intro part hpart
    refine (List.map_congr_left fun entry hmem => ?_).trans (List.map_id part)
    rw [if_neg (hpart entry hmem)]
    rfl
  simp only [update, hsplit, List.map_append, List.map_cons, hkeep front hfront,
    hkeep back hback, if_true]

theorem holds_perm (hnamed : (world.cursors.map Prod.fst).Nodup)
    (hfind : world.find? id = some cursor) :
    world.holds.Perm (cursor.hold :: world.others id) := by
  obtain ⟨front, back, hsplit, hfront, hback⟩ := find?_split hnamed hfind
  rw [others, holds, holds, cursors_remove hsplit hfront hback, hsplit, List.map_append,
    List.map_append]
  exact List.perm_middle

theorem mem_others {other : String} (hfind : world.find? other = some cursor) (hne : other ≠ id) :
    cursor.hold ∈ world.others id :=
  List.mem_map.mpr ⟨(other, cursor),
    List.mem_filter.mpr ⟨mem_of_find? hfind, by simpa using hne⟩, rfl⟩

theorem holds_update (hnamed : (world.cursors.map Prod.fst).Nodup)
    (hfind : world.find? id = some cursor) (next : Cursor) :
    (world.update id next).holds.Perm (next.hold :: world.others id) := by
  obtain ⟨front, back, hsplit, hfront, hback⟩ := find?_split hnamed hfind
  rw [others, holds, holds, cursors_remove hsplit hfront hback,
    cursors_update hsplit hfront hback, List.map_append, List.map_append]
  exact List.perm_middle

theorem holds_add (world : World σ) (id : String) (next : Cursor) :
    (world.add id next).holds.Perm (next.hold :: world.holds) := by
  rw [holds, add, List.map_append]
  exact List.perm_append_comm

theorem names_update (world : World σ) (id : String) (next : Cursor) :
    (world.update id next).cursors.map Prod.fst = world.cursors.map Prod.fst := by
  simp only [update, List.map_map]
  refine List.map_congr_left fun entry _ => ?_
  simp only [Function.comp]
  split
  · rename_i heq
    exact heq.symm
  · rfl

theorem not_mem_of_not_isLive (hfree : world.isLive id = false) :
    id ∉ world.cursors.map Prod.fst := by
  intro hmem
  obtain ⟨entry, hentry, heq⟩ := List.mem_map.mp hmem
  have hlive : (world.cursors.lookup id).isSome = true :=
    List.lookup_isSome_iff.mpr ⟨entry, hentry, by simp [heq]⟩
  rw [isLive, find?, hlive] at hfree
  cases hfree

theorem find?_of_mem (hnamed : (world.cursors.map Prod.fst).Nodup)
    (hmem : (id, cursor) ∈ world.cursors) : world.find? id = some cursor := by
  obtain ⟨front, back, hsplit⟩ := List.append_of_mem hmem
  refine List.lookup_eq_some_iff.mpr ⟨front, back, hsplit, fun entry hentry => ?_⟩
  rw [hsplit, List.map_append, List.nodup_append] at hnamed
  have hne := hnamed.2.2 entry.1 (List.mem_map_of_mem hentry) id (by simp)
  exact bne_iff_ne.mpr (Ne.symm hne)

end Cursors

section Names

private theorem lookup_cons_eq_ite (name key : String) (cursor : Cursor)
    (entries : List (String × Cursor)) : List.lookup name ((key, cursor) :: entries) =
      if name = key then some cursor else List.lookup name entries := by
  by_cases hname : name = key
  · simp [hname]
  · rw [List.lookup_cons, beq_eq_false_iff_ne.mpr hname, if_neg hname]

variable (world : World σ) (id name : String) (next : Cursor)

theorem find?_update_eq : (world.update id next).find? name =
    if name = id then (world.find? id).map fun _ => next else world.find? name := by
  obtain ⟨pool, cursors⟩ := world
  simp only [find?, update]
  induction cursors with
  | nil => simp
  | cons entry entries ih =>
      obtain ⟨key, cursor⟩ := entry
      by_cases hkey : key = id
      · subst hkey
        simp only [List.map_cons, if_true, lookup_cons_eq_ite, ih]
        split <;> simp_all
      · simp only [List.map_cons, if_neg hkey, lookup_cons_eq_ite, ih, if_neg (Ne.symm hkey)]
        split <;> split <;> simp_all

theorem find?_add_eq : (world.add id next).find? name =
    (world.find? name).or (if name = id then some next else none) := by
  simp only [find?, add, List.lookup_append, lookup_cons_eq_ite, List.lookup_nil]

theorem find?_remove_eq : (world.remove id).find? name =
    if name = id then none else world.find? name := by
  obtain ⟨pool, cursors⟩ := world
  simp only [find?, remove]
  induction cursors with
  | nil => simp
  | cons entry entries ih =>
      obtain ⟨key, cursor⟩ := entry
      by_cases hkey : key = id
      · subst hkey
        rw [List.filter_cons_of_neg (by simp), ih, lookup_cons_eq_ite]
        split <;> simp_all
      · rw [List.filter_cons_of_pos (by simpa using hkey), lookup_cons_eq_ite, ih,
          lookup_cons_eq_ite]
        split <;> split <;> simp_all

end Names

section Cursors

variable {world : World σ} {id : String} {cursor : Cursor}

theorem find?_add (hfree : world.isLive id = false) (next : Cursor) :
    (world.add id next).find? id = some next := by
  have hnone : world.find? id = none := by simpa [isLive] using hfree
  simp [find?_add_eq, hnone]

theorem find?_update (hfind : world.find? id = some cursor) (next : Cursor) :
    (world.update id next).find? id = some next := by
  simp [find?_update_eq, hfind]

/-- A cursor that is replaced by two is found as the one, and a new name finds the other. -/
theorem find?_divide {target : String} (hfind : world.find? id = some cursor)
    (hfree : world.isLive target = false) (head tail : Cursor) :
    ((world.update id head).add target tail).find? id = some head ∧
      ((world.update id head).add target tail).find? target = some tail := by
  have hnone : world.find? target = none := by simpa [isLive] using hfree
  have hne : target ≠ id := by
    rintro rfl
    cases hfind.symm.trans hnone
  constructor
  · rw [find?_add_eq, find?_update hfind, Option.some_or]
  · rw [find?_add_eq, find?_update_eq, if_neg hne, hnone, if_pos rfl, Option.none_or]

end Cursors

section Cases

variable {world : World σ} {id : String} {α : Type}

/-- What holds of a refusal for want of the cursor, and of what is done with the cursor, holds in
any case. -/
theorem withCursor_cases {motive : Except Refusal α × World σ → Prop}
    {act : Cursor → Except Refusal α × World σ} (hnone : motive (.error .noSuchCursor, world))
    (hact : ∀ cursor, world.find? id = some cursor → motive (act cursor)) :
    motive (world.withCursor id act) := by
  unfold World.withCursor
  split
  · exact hnone
  · rename_i cursor hfind
    exact hact cursor hfind

theorem claiming_cases {motive : Except Refusal α × World σ → Prop}
    {act : Except Refusal α × World σ} (hused : motive (.error .idInUse, world))
    (hact : world.isLive id = false → motive act) : motive (world.claiming id act) := by
  unfold World.claiming
  split
  · exact hused
  · rename_i hlive
    exact hact (Bool.eq_false_iff.mpr hlive)

theorem settleNew_cases {motive : Except Refusal Answer × World σ → Prop}
    {outcome : Except Fault Cursor × Pool σ}
    (hfault : ∀ fault, outcome.1 = .error fault →
      motive (.error (fault : Refusal), world.withPool outcome.2))
    (hmade : ∀ cursor, outcome.1 = .ok cursor →
      motive (.ok .done, (world.withPool outcome.2).add id cursor)) :
    motive (world.settleNew id outcome) := by
  obtain ⟨made, pool⟩ := outcome
  cases made with
  | error fault => exact hfault fault rfl
  | ok cursor => exact hmade cursor rfl

theorem settleMoved_cases {motive : Except Refusal Answer × World σ → Prop}
    {outcome : Except Fault Cursor × Pool σ}
    (hfault : ∀ fault, outcome.1 = .error fault →
      motive (.error (fault : Refusal), world.withPool outcome.2))
    (hmade : ∀ cursor, outcome.1 = .ok cursor →
      motive (.ok .done, (world.withPool outcome.2).update id cursor)) :
    motive (world.settleMoved id outcome) := by
  obtain ⟨made, pool⟩ := outcome
  cases made with
  | error fault => exact hfault fault rfl
  | ok cursor => exact hmade cursor rfl

end Cases

namespace Arranged

variable {world : World σ} {id : String} {next : Cursor}

theorem update (h : Arranged world.cursors) (hsound : next.Sound) :
    Arranged (world.update id next).cursors where
  named := by
    rw [names_update]
    exact h.named
  sound := by
    intro entry hmem
    obtain ⟨old, hold, rfl⟩ := List.mem_map.mp hmem
    split
    · exact hsound
    · exact h.sound old hold

theorem add (h : Arranged world.cursors) (hfree : id ∉ world.cursors.map Prod.fst)
    (hsound : next.Sound) : Arranged (world.add id next).cursors where
  named := by
    simp only [World.add, List.map_append, List.map_cons, List.map_nil]
    refine List.nodup_append.mpr ⟨h.named, by simp, ?_⟩
    rintro name hname _ hid rfl
    obtain rfl := List.mem_singleton.mp hid
    exact hfree hname
  sound := by
    intro entry hmem
    rcases List.mem_append.mp hmem with hold | hnew
    · exact h.sound entry hold
    · obtain rfl := List.mem_singleton.mp hnew
      exact hsound

theorem remove (h : Arranged world.cursors) (id : String) :
    Arranged (world.remove id).cursors where
  named := h.named.sublist (List.filter_sublist.map Prod.fst)
  sound entry hmem := h.sound entry (List.mem_filter.mp hmem).1

end Arranged

variable [Store σ]

structure Ordered (past : Pool σ) (world : World σ) : Prop extends Arranged world.cursors where
  kept : past.Kept world.pool world.holds

theorem empty_ordered : Ordered {} ({} : World σ) where
  named := List.nodup_nil
  sound entry hmem := by cases hmem
  kept := ⟨Ledger.empty_balanced, Pool.empty_told, Pool.Since.refl _⟩

namespace Ordered

variable {past pool : Pool σ} {world : World σ} {id : String} {cursor next : Cursor}

theorem focus (h : Ordered past world) (hfind : world.find? id = some cursor) :
    cursor.Sound ∧ past.Kept world.pool (cursor.hold :: world.others id) :=
  ⟨h.sound _ (mem_of_find? hfind), h.kept.perm (holds_perm h.named hfind)⟩

theorem knows (h : Ordered past world) (hfind : world.find? id = some cursor) :
    world.pool.ledger.Knows cursor.block :=
  h.kept.balanced.known cursor.hold (List.mem_map.mpr ⟨_, mem_of_find? hfind, rfl⟩)

theorem update (h : Ordered past world) (hfind : world.find? id = some cursor)
    (hsound : next.Sound) (hkept : past.Kept pool (next.hold :: world.others id)) :
    Ordered past ((world.withPool pool).update id next) :=
  ⟨h.toArranged.update hsound, hkept.perm (holds_update h.named hfind next).symm⟩

theorem add (h : Ordered past world) (hfree : world.isLive id = false) (hsound : next.Sound)
    (hkept : past.Kept pool (next.hold :: world.holds)) :
    Ordered past ((world.withPool pool).add id next) :=
  ⟨h.toArranged.add (not_mem_of_not_isLive hfree) hsound,
    hkept.perm (holds_add world id next).symm⟩

/-- Both at once, as a split needs it. -/
theorem divide {target : String} {head tail : Cursor} (h : Ordered past world)
    (hfind : world.find? id = some cursor) (hfree : world.isLive target = false)
    (hhead : head.Sound) (htail : tail.Sound)
    (hkept : past.Kept pool (head.hold :: tail.hold :: world.others id)) :
    Ordered past (((world.withPool pool).update id head).add target tail) := by
  have hnew : target ∉ (world.update id head).cursors.map Prod.fst := by
    rw [names_update]
    exact not_mem_of_not_isLive hfree
  refine ⟨Arranged.add (h.toArranged.update hhead) hnew htail, hkept.perm ?_⟩
  have hadd := holds_add (world.update id head) target tail
  have hupdate := holds_update h.named hfind head
  exact (hadd.trans ((hupdate.cons _).trans (List.Perm.swap ..))).symm

theorem remove (h : Ordered past world) (hkept : past.Kept pool (world.others id)) :
    Ordered past ((world.withPool pool).remove id) :=
  ⟨h.toArranged.remove id, hkept⟩

theorem withPool (h : Ordered past world) (hkept : past.Kept pool world.holds) :
    Ordered past (world.withPool pool) :=
  ⟨⟨h.named, h.sound⟩, hkept⟩

theorem restart (h : Ordered past world) : Ordered world.pool world :=
  ⟨h.toArranged, h.kept.restart⟩

end Ordered

/-- What an operation on a world comes to: a world in good order, with the same cursors and pages if
the operation was refused. -/
def Lands {α : Type} (past : Pool σ) (world : World σ) : Except Refusal α × World σ → Prop
  | (.error _, next) =>
      Ordered past next ∧ next.cursors = world.cursors ∧ next.pool.ledger = world.pool.ledger
  | (.ok _, next) => Ordered past next

namespace Lands

variable {past : Pool σ} {world : World σ} {id : String} {cursor : Cursor}

theorem ordered {α : Type} {outcome : Except Refusal α × World σ}
    (h : Lands past world outcome) : Ordered past outcome.2 := by
  obtain ⟨answer, next⟩ := outcome
  cases answer with
  | error refusal => exact h.1
  | ok answer => exact h

theorem refuse {α : Type} (h : Ordered past world) (refusal : Refusal) :
    Lands past world ((.error refusal, world) : Except Refusal α × World σ) :=
  ⟨h, rfl, rfl⟩

theorem withCursor {α : Type} (h : Ordered past world)
    {act : Cursor → Except Refusal α × World σ}
    (hact : ∀ cursor, world.find? id = some cursor → Lands past world (act cursor)) :
    Lands past world (world.withCursor id act) :=
  withCursor_cases (motive := Lands past world) (refuse h _) hact

theorem claiming {α : Type} (h : Ordered past world) {act : Except Refusal α × World σ}
    (hact : world.isLive id = false → Lands past world act) :
    Lands past world (world.claiming id act) :=
  claiming_cases (motive := Lands past world) (refuse h _) hact

theorem settleNew (h : Ordered past world) (hfree : world.isLive id = false)
    {outcome : Except Fault Cursor × Pool σ}
    (hgrants : past.Grants world.pool.ledger world.holds world.holds outcome) :
    Lands past world (world.settleNew id outcome) := by
  obtain ⟨made, pool⟩ := outcome
  cases made with
  | error fault => exact ⟨h.withPool hgrants.1, rfl, hgrants.2⟩
  | ok cursor => exact h.add hfree hgrants.1 hgrants.2

theorem settleMoved (h : Ordered past world) (hfind : world.find? id = some cursor)
    {outcome : Except Fault Cursor × Pool σ}
    (hgrants : past.Grants world.pool.ledger (cursor.hold :: world.others id) (world.others id)
      outcome) : Lands past world (world.settleMoved id outcome) := by
  obtain ⟨made, pool⟩ := outcome
  cases made with
  | error fault =>
      have hkept := hgrants.1.perm (holds_perm h.named hfind).symm
      exact ⟨h.withPool hkept, rfl, hgrants.2⟩
  | ok next => exact h.update hfind hgrants.1 hgrants.2

end Lands

variable {past : Pool σ} {world : World σ}

/-- Every operation leaves a world in good order. -/
theorem apply_lands (h : Ordered past world) (operation : Operation σ) :
    Lands past world (world.apply operation) := by
  cases operation with
  | build id plan =>
      exact Lands.claiming h fun hfree => Lands.settleNew h hfree (h.kept.build plan)
  | position id =>
      refine Lands.withCursor h fun cursor _ => ?_
      rw [Cursor.through_eq]
      exact h
  | remaining id =>
      refine Lands.withCursor h fun cursor _ => ?_
      rw [Cursor.through_eq]
      exact h
  | refs id => exact Lands.withCursor h fun _ _ => h
  | setPosition id position =>
      refine Lands.withCursor h fun cursor hfind => ?_
      obtain ⟨hsound, hkept⟩ := h.focus hfind
      exact Lands.settleMoved h hfind (hkept.seek hsound position)
  | reset id =>
      refine Lands.withCursor h fun cursor hfind => ?_
      obtain ⟨hsound, hkept⟩ := h.focus hfind
      exact Lands.settleMoved h hfind (hkept.reset hsound)
  | read id capacity =>
      refine Lands.withCursor h fun cursor hfind => ?_
      obtain ⟨hsound, hkept⟩ := h.focus hfind
      have hread := hkept.read hsound capacity
      cases hmade : world.pool.read cursor capacity with
      | mk made pool =>
          rw [hmade] at hread
          cases made with
          | error error =>
              have hback := hread.1.perm (holds_perm h.named hfind).symm
              exact ⟨h.withPool hback, rfl, hread.2⟩
          | ok moved => exact h.update hfind hread.1 hread.2
  | release id position =>
      refine Lands.withCursor h fun cursor hfind => ?_
      obtain ⟨hsound, hkept⟩ := h.focus hfind
      exact Lands.settleMoved h hfind (hkept.release hsound position)
  | cloneAt id target offset =>
      refine Lands.claiming h fun hfree => Lands.withCursor h fun cursor hfind => ?_
      obtain ⟨hsound, -⟩ := h.focus hfind
      have hmem := (holds_perm h.named hfind).mem_iff.mpr (List.mem_cons_self ..)
      exact Lands.settleNew h hfree (h.kept.cloneAt hmem hsound offset)
  | clone id target =>
      refine Lands.claiming h fun hfree => Lands.withCursor h fun cursor hfind => ?_
      obtain ⟨hsound, -⟩ := h.focus hfind
      have hmem := (holds_perm h.named hfind).mem_iff.mpr (List.mem_cons_self ..)
      rw [Pool.clone_eq]
      exact Lands.settleNew h hfree (h.kept.cloneAt hmem hsound cursor.position)
  | split id target position =>
      refine Lands.claiming h fun hfree => Lands.withCursor h fun cursor hfind => ?_
      obtain ⟨hsound, hkept⟩ := h.focus hfind
      cases hcheck : cursor.view.splitCheck position with
      | error fault =>
          simp only [Pool.split, Cursor.through_eq, hcheck]
          exact ⟨h, rfl, rfl⟩
      | ok _ =>
          obtain ⟨inner, head, tail, next, -, -, -, -, -, hsplit, hhead, htail, hnext⟩ :=
            hkept.split hsound hcheck
          simp only [hsplit]
          exact h.divide hfind hfree hhead htail hnext
  | concat id other hook =>
      refine Lands.withCursor h fun head hfind => ?_
      split
      · exact Lands.refuse h _
      · rename_i hne
        refine Lands.withCursor h fun tail htail => ?_
        obtain ⟨hsound, hkept⟩ := h.focus hfind
        obtain ⟨htailSound, -⟩ := h.focus htail
        have hmem := mem_others htail (Ne.symm hne)
        exact Lands.settleMoved h hfind (hkept.concat hsound hmem htailSound hook)
  | dispose id =>
      refine Lands.withCursor h fun cursor hfind => ?_
      rw [Pool.tryDispose_eq]
      exact h.remove (h.focus hfind).2.dispose

theorem apply_since (h : Ordered past world) (operation : Operation σ) :
    world.pool.Since (world.apply operation).2.pool :=
  (apply_lands h.restart operation).ordered.kept.since

theorem run_ordered (h : Ordered past world) (operations : List (Operation σ)) :
    Ordered past (world.run operations) := by
  induction operations generalizing world with
  | nil => exact h
  | cons operation operations ih => exact ih (apply_lands h operation).ordered

theorem run_since (h : Ordered past world) (operations : List (Operation σ)) :
    world.pool.Since (world.run operations).pool :=
  (run_ordered h.restart operations).kept.since

theorem run_empty_ordered (operations : List (Operation σ)) :
    Ordered {} (run {} operations) :=
  run_ordered empty_ordered operations

end World

end SharedStream
