import SharedStream.Proofs.Simulation
/-!
A world over memory stores behaves like a plain world, in which every cursor has its own list of
bytes: after any run the cursors stand for the lists that the same run gives there, and every
operation comes to what it comes to there.
-/

namespace SharedStream

namespace World

variable {world : World MemoryStore} {pool : Pool MemoryStore} {id : String} {cursor : Cursor}

/-- The lists of bytes that the live cursors stand for. -/
def plain (world : World MemoryStore) : Plain :=
  ⟨world.cursors.map fun entry => (entry.1, entry.2.stretch world.pool.backend.stores)⟩

/-- Every live cursor has its bytes. -/
def Backed (world : World MemoryStore) : Prop :=
  ∀ entry ∈ world.cursors, entry.2.Backed world.pool.backend.stores

theorem find?_plain (world : World MemoryStore) (id : String) :
    world.plain.find? id =
      (world.find? id).map (Cursor.stretch world.pool.backend.stores) := by
  simp only [plain, Plain.find?, find?]
  induction world.cursors with
  | nil => rfl
  | cons entry entries ih =>
      obtain ⟨name, cursor⟩ := entry
      simp only [List.map_cons, List.lookup_cons]
      split
      · rfl
      · exact ih

theorem plain_add (world : World MemoryStore) (id : String) (cursor : Cursor) :
    (world.add id cursor).plain =
      world.plain.add id (cursor.stretch world.pool.backend.stores) := by
  simp [plain, add, Plain.add]

theorem plain_update (world : World MemoryStore) (id : String) (cursor : Cursor) :
    (world.update id cursor).plain =
      world.plain.update id (cursor.stretch world.pool.backend.stores) := by
  simp only [plain, update, Plain.update, List.map_map, Plain.mk.injEq]
  apply List.map_congr_left
  intro entry _
  simp only [Function.comp]
  split <;> rfl

theorem plain_remove (world : World MemoryStore) (id : String) :
    (world.remove id).plain = world.plain.remove id := by
  simp only [plain, remove, Plain.remove, List.filter_map, Plain.mk.injEq]
  rfl

namespace Backed

theorem add (h : world.Backed) (hcursor : cursor.Backed world.pool.backend.stores) :
    (world.add id cursor).Backed := by
  intro entry hmem
  rcases List.mem_append.mp hmem with hold | hnew
  · exact h entry hold
  · obtain rfl := List.mem_singleton.mp hnew
    exact hcursor

theorem update (h : world.Backed) (hcursor : cursor.Backed world.pool.backend.stores) :
    (world.update id cursor).Backed := by
  intro entry hmem
  obtain ⟨old, hold, rfl⟩ := List.mem_map.mp hmem
  split
  · exact hcursor
  · exact h old hold

theorem remove (h : world.Backed) (id : String) : (world.remove id).Backed :=
  fun entry hmem => h entry (List.mem_filter.mp hmem).1

theorem withPool (h : world.Backed)
    (hextends : Extends world.pool.backend.stores pool.backend.stores) :
    (world.withPool pool).Backed ∧ (world.withPool pool).plain = world.plain := by
  refine ⟨fun entry hmem => ((h entry hmem).extend hextends).1, ?_⟩
  simp only [plain, World.withPool, Plain.mk.injEq]
  apply List.map_congr_left
  intro entry hmem
  rw [((h entry hmem).extend hextends).2]

end Backed

/-- An operation comes to what the plain one comes to: an allowed answer, the same lists of bytes,
and every cursor has its bytes. -/
structure Mirrors (outcome : Except Refusal Answer × World MemoryStore)
    (expected : Verdict × Plain) : Prop where
  allowed : expected.1.Allows outcome.1
  plain : outcome.2.plain = expected.2
  backed : outcome.2.Backed

namespace Mirrors

variable {past : Pool MemoryStore}

theorem stay (h : world.Backed) {answer : Except Refusal Answer} {verdict : Verdict}
    (hallowed : verdict.Allows answer) : Mirrors (answer, world) (verdict, world.plain) :=
  ⟨hallowed, rfl, h⟩

theorem withCursor (h : world.Backed) {act : Cursor → Except Refusal Answer × World MemoryStore}
    {act' : Stretch → Verdict × Plain}
    (hact : ∀ cursor, world.find? id = some cursor →
      Mirrors (act cursor) (act' (cursor.stretch world.pool.backend.stores))) :
    Mirrors (world.withCursor id act) (world.plain.withCursor id act') := by
  unfold World.withCursor Plain.withCursor
  rw [find?_plain]
  cases hfind : world.find? id with
  | none => exact stay h rfl
  | some cursor => exact hact cursor hfind

theorem claiming (h : world.Backed) {act : Except Refusal Answer × World MemoryStore}
    {act' : Verdict × Plain} (hact : world.isLive id = false → Mirrors act act') :
    Mirrors (world.claiming id act) (world.plain.claiming id act') := by
  have hlive : (world.plain.find? id).isSome = world.isLive id := by
    rw [find?_plain, isLive, Option.isSome_map]
  unfold World.claiming Plain.claiming
  rw [hlive]
  split
  · exact stay h rfl
  · rename_i hfree
    exact hact (Bool.eq_false_iff.mpr hfree)

theorem settleNew (h : world.Backed) {outcome : Except Fault Cursor × Pool MemoryStore}
    {expected : Except (List FailureKind) Stretch}
    (hevolves : world.pool.backend.Evolves outcome.2.backend)
    (hagree : Agree Fault.kind (Cursor.StandsFor outcome.2.backend.stores) outcome.1 expected) :
    Mirrors (world.settleNew id outcome) (world.plain.settleNew id expected) := by
  obtain ⟨made, pool⟩ := outcome
  obtain ⟨hbacked, hplain⟩ := h.withPool hevolves.extends
  rcases hagree.outcomes with ⟨fault, kinds, rfl, rfl, hkind⟩ | ⟨cursor, _, rfl, rfl, hsame⟩
  · exact ⟨hkind, hplain, hbacked⟩
  · obtain ⟨hcursor, rfl⟩ := hsame
    refine ⟨rfl, ?_, hbacked.add hcursor⟩
    exact (plain_add _ id cursor).trans (by rw [hplain]; rfl)

theorem settleMoved (h : world.Backed) {outcome : Except Fault Cursor × Pool MemoryStore}
    {expected : Except (List FailureKind) Stretch}
    (hevolves : world.pool.backend.Evolves outcome.2.backend)
    (hagree : Agree Fault.kind (Cursor.StandsFor outcome.2.backend.stores) outcome.1 expected) :
    Mirrors (world.settleMoved id outcome) (world.plain.settleMoved id expected) := by
  obtain ⟨made, pool⟩ := outcome
  obtain ⟨hbacked, hplain⟩ := h.withPool hevolves.extends
  rcases hagree.outcomes with ⟨fault, kinds, rfl, rfl, hkind⟩ | ⟨cursor, _, rfl, rfl, hsame⟩
  · exact ⟨hkind, hplain, hbacked⟩
  · obtain ⟨hcursor, rfl⟩ := hsame
    refine ⟨rfl, ?_, hbacked.update hcursor⟩
    exact (plain_update _ id cursor).trans (by rw [hplain]; rfl)

end Mirrors

theorem apply_read_mirrors (hordered : Ordered world.pool world) (h : world.Backed) (id : String)
    (capacity : Nat) : Mirrors (world.apply (.read id capacity))
      (world.plain.apply (.read id capacity)) := by
  apply Mirrors.withCursor h
  intro cursor hfind
  obtain ⟨hsound, hkept⟩ := hordered.focus hfind
  have hcursor := h _ (mem_of_find? hfind)
  have hevolves := (hkept.read hsound capacity).evolves
  have hagree := Pool.read_agrees hcursor (hordered.shows hfind) capacity
  obtain ⟨hbacked, hplain⟩ := h.withPool hevolves.extends
  dsimp only at hevolves hagree
  generalize (cursor.stretch world.pool.backend.stores).read capacity = expected at hagree ⊢
  generalize world.pool.read cursor capacity = run at hevolves hagree hbacked hplain ⊢
  obtain ⟨made, pool⟩ := run
  rcases hagree.outcomes with ⟨error, kinds, rfl, rfl, hkind⟩ |
    ⟨⟨result, next⟩, ⟨_, stretch⟩, rfl, rfl, rfl, hsame⟩
  · exact ⟨hkind, hplain, hbacked⟩
  · obtain ⟨hnext, rfl⟩ := hsame.extend hevolves.extends
    refine ⟨rfl, ?_, hbacked.update hnext⟩
    exact (plain_update _ id next).trans (by rw [hplain]; rfl)

theorem apply_split_mirrors (hordered : Ordered world.pool world) (h : world.Backed)
    (id target : String) (position : Nat) : Mirrors (world.apply (.split id target position))
      (world.plain.apply (.split id target position)) := by
  apply Mirrors.claiming h
  intro hfree
  apply Mirrors.withCursor h
  intro cursor hfind
  obtain ⟨-, hkept⟩ := hordered.focus hfind
  obtain ⟨hagree, hevolves⟩ := Pool.split_agrees (h _ (mem_of_find? hfind)) hkept position
  obtain ⟨hbacked, hplain⟩ := h.withPool hevolves.extends
  generalize (cursor.stretch world.pool.backend.stores).split position = expected at hagree ⊢
  generalize world.pool.split cursor position = run at hevolves hagree hbacked hplain ⊢
  obtain ⟨made, pool⟩ := run
  rcases hagree.outcomes with ⟨fault, kinds, rfl, rfl, hkind⟩ |
    ⟨⟨head, tail⟩, ⟨front, back⟩, rfl, rfl, hfront, hback⟩
  · exact ⟨hkind, hplain, hbacked⟩
  · obtain ⟨hhead, rfl⟩ := hfront.extend hevolves.extends
    obtain ⟨htail, rfl⟩ := hback.extend hevolves.extends
    refine ⟨rfl, ?_, (hbacked.update hhead).add htail⟩
    refine (plain_add _ target tail).trans ?_
    rw [plain_update, hplain]
    rfl

/-- Every operation does on shared blocks what it does on plain lists. -/
theorem apply_mirrors {past : Pool MemoryStore} (hordered : Ordered past world)
    (h : world.Backed) (operation : Operation MemoryStore) :
    Mirrors (world.apply operation) (world.plain.apply operation) := by
  have hnow := hordered.restart
  cases operation with
  | build id plan =>
      apply Mirrors.claiming h
      intro _
      have hgrants := hnow.kept.build plan
      exact Mirrors.settleNew h hgrants.evolves (world.pool.build_agrees plan)
  | position id =>
      apply Mirrors.withCursor h
      intro cursor hfind
      rw [Cursor.through_eq]
      exact Mirrors.stay h rfl
  | remaining id =>
      apply Mirrors.withCursor h
      intro cursor hfind
      have hcursor := h _ (mem_of_find? hfind)
      rw [Cursor.through_eq]
      apply Mirrors.stay h
      simp only [Verdict.Allows, hcursor.remaining]
  | refs id =>
      apply Mirrors.withCursor h
      intro cursor hfind
      exact Mirrors.stay h trivial
  | setPosition id position =>
      apply Mirrors.withCursor h
      intro cursor hfind
      obtain ⟨hsound, hkept⟩ := hnow.focus hfind
      have hevolves := (hkept.seek hsound position).evolves
      have hagree := (h _ (mem_of_find? hfind)).seek world.pool position
      exact Mirrors.settleMoved h hevolves (hagree.later hevolves.extends)
  | reset id =>
      apply Mirrors.withCursor h
      intro cursor hfind
      obtain ⟨hsound, hkept⟩ := hnow.focus hfind
      have hevolves := (hkept.reset hsound).evolves
      exact Mirrors.settleMoved h hevolves (h _ (mem_of_find? hfind)).reset
  | read id capacity => exact apply_read_mirrors hnow h id capacity
  | release id position =>
      apply Mirrors.withCursor h
      intro cursor hfind
      obtain ⟨hsound, hkept⟩ := hnow.focus hfind
      have hevolves := (hkept.release hsound position).evolves
      have hagree := (h _ (mem_of_find? hfind)).release world.pool position
      exact Mirrors.settleMoved h hevolves (hagree.later hevolves.extends)
  | cloneAt id target offset =>
      apply Mirrors.claiming h
      intro _
      apply Mirrors.withCursor h
      intro cursor hfind
      obtain ⟨hsound, -⟩ := hnow.focus hfind
      have hmem := (holds_perm hnow.named hfind).mem_iff.mpr (List.mem_cons_self ..)
      have hevolves := (hnow.kept.cloneAt hmem hsound offset).evolves
      have hagree := (h _ (mem_of_find? hfind)).cloneAt world.pool offset
      exact Mirrors.settleNew h hevolves (hagree.later hevolves.extends)
  | clone id target =>
      apply Mirrors.claiming h
      intro _
      apply Mirrors.withCursor h
      intro cursor hfind
      obtain ⟨hsound, -⟩ := hnow.focus hfind
      have hmem := (holds_perm hnow.named hfind).mem_iff.mpr (List.mem_cons_self ..)
      have hevolves := (hnow.kept.cloneAt hmem hsound cursor.position).evolves
      have hagree := (h _ (mem_of_find? hfind)).cloneAt world.pool cursor.position
      rw [Pool.clone_eq]
      exact Mirrors.settleNew h hevolves (hagree.later hevolves.extends)
  | split id target position => exact apply_split_mirrors hnow h id target position
  | concat id other hook =>
      apply Mirrors.withCursor h
      intro head hfind
      split
      · exact Mirrors.stay h rfl
      · rename_i hne
        apply Mirrors.withCursor h
        intro tail htail
        obtain ⟨hsound, hkept⟩ := hnow.focus hfind
        obtain ⟨htailSound, -⟩ := hnow.focus htail
        have hmem := mem_others htail (Ne.symm hne)
        have hevolves := (hkept.concat hsound hmem htailSound hook).evolves
        have hagree := (h _ (mem_of_find? hfind)).concat (h _ (mem_of_find? htail)) world.pool hook
        exact Mirrors.settleMoved h hevolves (hagree.later hevolves.extends)
  | dispose id =>
      apply Mirrors.withCursor h
      intro cursor hfind
      have hevolves := (hnow.focus hfind).2.dispose.since.stores
      obtain ⟨hbacked, hplain⟩ := h.withPool hevolves.extends
      rw [Pool.tryDispose_eq]
      refine ⟨rfl, ?_, hbacked.remove id⟩
      exact (plain_remove _ id).trans (by rw [hplain])

theorem run_mirrors {past : Pool MemoryStore} (hordered : Ordered past world) (h : world.Backed)
    (operations : List (Operation MemoryStore)) :
    (world.run operations).plain = world.plain.run operations ∧
    (world.run operations).Backed := by
  induction operations generalizing world with
  | nil => exact ⟨rfl, h⟩
  | cons operation operations ih =>
      have hstep := apply_mirrors hordered h operation
      have hnext := (apply_lands hordered operation).ordered
      obtain ⟨hplain, hbacked⟩ := ih hnext hstep.backed
      refine ⟨hplain.trans ?_, hbacked⟩
      rw [hstep.plain]
      rfl

/-- Nobody who uses cursors over memory can tell them from plain lists of bytes. After any run, the
live cursors stand for the lists that the same run gives in a plain world, their positions are in
order, and whatever is asked next comes to what it comes to there. -/
theorem refines_plain (operations : List (Operation MemoryStore)) :
    let world := run {} operations
    world.plain = Plain.run {} operations ∧
      (∀ entry ∈ world.plain.cursors, entry.2.Placed) ∧
      ∀ operation, (world.plain.apply operation).1.Allows (world.apply operation).1 ∧
        (world.apply operation).2.plain = (world.plain.apply operation).2 := by
  intro world
  have hordered : Ordered {} world := run_empty_ordered operations
  have hempty : Backed {} := fun entry hmem => by cases hmem
  obtain ⟨hplain, hbacked⟩ := run_mirrors empty_ordered hempty operations
  refine ⟨hplain, ?_, ?_⟩
  · intro entry hmem
    obtain ⟨old, hold, rfl⟩ := List.mem_map.mp hmem
    exact (hbacked old hold).placed
  · intro operation
    have hmirrors := apply_mirrors hordered hbacked operation
    exact ⟨hmirrors.allowed, hmirrors.plain⟩

end World

end SharedStream
