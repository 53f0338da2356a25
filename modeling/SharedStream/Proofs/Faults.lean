import SharedStream.Proofs.Loops
import SharedStream.Proofs.Probes
/-!
Reads in a world of stores behind fault panels. The panels may be set between any two operations,
and whatever has been done to the cursors and to the panels, the next read of a cursor stops at the
first byte that is made to fail. Once the fault is called off, reading on from there brings the
rest.
-/

namespace SharedStream

/-- The first of the pieces that are wanted. -/
theorem Cursor.Sound.clip_ahead {cursor : Cursor} (h : cursor.Sound) {wanted count : Nat}
    (hwanted : wanted ≤ cursor.remaining) (hcount : count ≤ wanted) :
    Piece.clip (cursor.block.pieces cursor.view.current wanted) 0 count =
      cursor.block.pieces cursor.view.current count := by
  have hfirst := h.placed.view.first_le
  have hcurrent := h.placed.view.current_le
  have hcovers : cursor.block.Covers ⟨cursor.view.current, cursor.view.current + wanted⟩ := by
    refine h.placed.covered.mono ⟨hfirst, ?_⟩
    simp only [Cursor.remaining, View.remaining] at hwanted
    simp only [Cursor.extent, View.extent]
    omega
  rw [Block.clip_pieces cursor.block 0 count h.block hcovers, Nat.add_zero, Nat.sub_zero,
    Nat.min_eq_left hcount]

/-- What can happen: an operation, or a hand on the panel of a store. -/
inductive Turn where
  | operation (operation : Operation Probe)
  | adjust (number : Nat) (change : Session.PanelChange)

/-- Other states of the stores that are there make no difference to what is gone. -/
theorem Pool.Told.restock {σ : Type} {pool : Pool σ} (h : pool.Told) {stores : Array σ}
    (hsize : stores.size = pool.backend.stores.size) :
    Pool.Told { pool with backend := { pool.backend with stores } } where
  numbered := h.numbered
  ends := h.ends
  owned hblock hstore := by
    rw [hsize]
    exact h.owned hblock hstore
  apart := h.apart
  accounted event hmem hending := by
    rw [hsize]
    exact h.accounted event hmem hending
  discarded store hstored := by
    rw [hsize] at hstored
    exact h.discarded store hstored
  raised := h.raised

namespace World

def adjust (world : World Probe) (number : Nat) (change : Session.PanelChange) : World Probe :=
  let backend := world.pool.backend
  let stores := backend.stores.modify number fun probe => probe.change change
  world.withPool { world.pool with backend := { backend with stores } }

def turn (world : World Probe) : Turn → World Probe
  | .operation operation => (world.apply operation).2
  | .adjust number change => world.adjust number change

def play (world : World Probe) (turns : List Turn) : World Probe := turns.foldl turn world

variable {past : Pool Probe} {world : World Probe} {id : String} {cursor : Cursor}

theorem memory_adjust (world : World Probe) (number : Nat) (change : Session.PanelChange) :
    (world.adjust number change).pool.backend.memory = world.pool.backend.memory := by
  apply Array.ext_getElem?
  intro other
  simp only [adjust, withPool, Backend.memory, Array.getElem?_map, Array.getElem?_modify]
  split
  · rw [Option.map_map]
    rfl
  · rfl

/-- A hand on a panel leaves the books and the bytes as they are. -/
theorem adjust_reads (h : Ordered past world) (hprovided : world.Provided) (number : Nat)
    (change : Session.PanelChange) :
    Ordered (world.adjust number change).pool (world.adjust number change) ∧
      (world.adjust number change).Provided := by
  refine ⟨⟨h.toArranged, h.kept.balanced, h.kept.told.restock (Array.size_modify ..),
    .refl _⟩, ?_⟩
  intro entry hmem
  rw [memory_adjust]
  exact hprovided entry hmem

theorem play_reads (turns : List Turn) : ∀ {past : Pool Probe} {world : World Probe},
    Ordered past world → world.Provided →
    ∃ past, Ordered past (world.play turns) ∧ (world.play turns).Provided := by
  induction turns with
  | nil => exact fun h hprovided => ⟨_, h, hprovided⟩
  | cons turn turns ih =>
      intro past world h hprovided
      cases turn with
      | operation operation =>
          exact ih (apply_lands h operation).ordered (apply_provided h hprovided operation)
      | adjust number change =>
          obtain ⟨hordered, hstill⟩ := adjust_reads h hprovided number change
          exact ih hordered hstill

/-- What a read comes to that gets so many bytes with so many requests. Without a byte it fails for
the next one. -/
structure ReadsTo (world : World Probe) (id : String) (cursor : Cursor) (count : Nat)
    (calls : Nat → Nat) (outcome : Except Refusal Answer × World Probe) : Prop where
  brought : 0 < count → outcome.1 = .ok (.read (.read ((world.ahead cursor).take count)))
  refused : count = 0 → ∃ store position, cursor.next? = some (store, position) ∧
    outcome.1 = .error (.failed (.store (injectedFailure position)))
  moved : outcome.2.find? id = some (cursor.advance count)
  counted : world.pool.backend.Counted outcome.2.pool.backend calls

/-- A read warns once if it is cut short, of the failure for the first byte that is missing. -/
structure Warns (world : World Probe) (cursor : Cursor) (wanted count : Nat)
    (next : World Probe) : Prop where
  cut : 0 < count → count < wanted → ∃ store position,
    (cursor.advance count).next? = some (store, position) ∧
      next.warnings = world.warnings ++ [.partialRead count (.store (injectedFailure position))]
  quiet : count = 0 ∨ count = wanted → next.warnings = world.warnings

/-- What there is to be had for a cursor makes the answer: some of the bytes ahead, or the failure
for the next one. -/
theorem readsTo_of_gathered (h : world.Reads past id cursor) (calls : Nat → Nat)
    {capacity count : Nat} (hcapacity : 0 < capacity) (hahead : 0 < cursor.remaining)
    (hcount : count ≤ cursor.remaining)
    (hbytes : (world.pool.gathered cursor (min capacity cursor.remaining)).1.bytes =
      (world.ahead cursor).take count)
    (hnone : count = 0 → ∃ store position, cursor.next? = some (store, position) ∧
      (world.pool.gathered cursor (min capacity cursor.remaining)).1.failure =
        some (.store (injectedFailure position)))
    (hcounted : world.pool.backend.Counted
      (world.pool.gathered cursor (min capacity cursor.remaining)).2 calls) :
    world.ReadsTo id cursor count calls (world.apply (.read id capacity)) ∧
      (world.apply (.read id capacity)).2.warnings = world.warnings ++
        (world.pool.gathered cursor (min capacity cursor.remaining)).1.remarks := by
  have hsound := h.backed.sound
  have hwanted := Cursor.wanted_eq hcapacity hahead
  have hwarnings := Pool.read_warnings hsound h.serves.shows hwanted
  obtain ⟨hanswer, -, hstores, -⟩ := Pool.read_gathered hsound h.serves.shows hwanted
  have hlength := congrArg List.length hbytes
  rw [List.length_take, length_ahead h.backed, Nat.min_eq_left hcount] at hlength
  rw [apply_read_eq h.found]
  generalize world.pool.gathered cursor (min capacity cursor.remaining) = got
    at hanswer hstores hwarnings hbytes hnone hcounted hlength ⊢
  generalize world.pool.read cursor capacity = run at hanswer hstores hwarnings
  obtain ⟨made, pool⟩ := run
  have hcalls : world.pool.backend.Counted pool.backend calls := by
    intro number
    rw [show pool.backend.stores = got.2.stores from hstores]
    exact hcounted number
  obtain rfl | hsome := Nat.eq_zero_or_pos count
  · obtain ⟨store, position, hnext, hfailure⟩ := hnone rfl
    obtain ⟨hgot, -⟩ := Gathered.answer_of_refused hfailure (List.length_eq_zero_iff.mp hlength)
    rw [hgot] at hanswer
    obtain rfl : made = .error (.store (injectedFailure position)) := hanswer
    exact ⟨⟨fun hsome => absurd hsome (Nat.lt_irrefl 0), fun _ =>
      ⟨store, position, hnext, rfl⟩, h.found, hcalls⟩, hwarnings⟩
  · have hgot : got.1.answer = .ok got.1.bytes := by
      cases hfailure : got.1.failure with
      | none => exact (Gathered.answer_of_done hfailure).1
      | some error => exact (Gathered.answer_of_cut hfailure (hlength ▸ hsome)).1
    rw [hgot, Except.map, hlength, hbytes] at hanswer
    obtain rfl : made = .ok (.read _, cursor.advance count) := hanswer
    exact ⟨⟨fun _ => rfl, fun hzero => absurd hzero (Nat.ne_of_gt hsome),
      find?_update h.found _, hcalls⟩, hwarnings⟩

/-- The bytes that a read wants lie in its stores. -/
theorem pieces_wanted (h : world.Reads past id cursor) {wanted : Nat}
    (hless : wanted ≤ cursor.remaining) :
    Piece.AllFit world.pool.backend.memory (cursor.block.pieces cursor.view.current wanted) ∧
      Piece.content world.pool.backend.memory (cursor.block.pieces cursor.view.current wanted) =
        (world.ahead cursor).take wanted := by
  rw [h.backed.sound.pieces_ahead hless]
  exact h.backed.fits.clip _ _

/-- What there is to be had through a composition: the bytes before the first one that fails, and
the failure for that one. -/
theorem gathered_composed (h : world.Reads past id cursor)
    (hcomposed : cursor.block.isComposed = true) {wanted : Nat}
    (hless : wanted ≤ cursor.remaining) :
    let backend := world.pool.backend
    let reach := backend.reach (cursor.block.pieces cursor.view.current wanted)
    let got := world.pool.gathered cursor wanted
    reach ≤ wanted ∧ got.1.bytes = (world.ahead cursor).take reach ∧
      (reach = wanted → got.1.failure = none) ∧
      (reach < wanted → ∃ store position,
        (cursor.advance reach).next? = some (store, position) ∧
        got.1.failure = some (.store (injectedFailure position))) ∧
      backend.Counted got.2 (backend.calls (cursor.block.pieces cursor.view.current reach)) := by
  intro backend reach got
  have hsound := h.backed.sound
  have hgot : got = backend.fillAll (cursor.block.pieces cursor.view.current wanted) := by
    obtain ⟨block, view⟩ := cursor
    cases block with
    | source header store => cases hcomposed
    | composed header joint left right => rfl
  obtain ⟨hfits, hcontent⟩ := pieces_wanted h hless
  obtain ⟨hbytes, hwhole, hbroken, hcounted⟩ := Backend.fillAll_reached hfits
  have htotal := backend.reach_le_total (cursor.block.pieces cursor.view.current wanted)
  rw [Block.total_pieces] at hwhole hbroken htotal
  rw [hsound.clip_ahead hless htotal, ← hgot] at hcounted
  rw [hcontent, List.take_take, Nat.min_eq_left htotal, ← hgot] at hbytes
  rw [← hgot] at hwhole hbroken
  refine ⟨htotal, hbytes, hwhole, fun hpart => ?_, hcounted⟩
  obtain ⟨store, position, hspot, hfailure⟩ := hbroken hpart
  exact ⟨store, position, hsound.spot?_ahead hless hpart ▸ hspot, hfailure⟩

/-- Through a composition, a read gets the bytes before the first one that fails. -/
theorem read_composed (h : world.Reads past id cursor) (hcomposed : cursor.block.isComposed = true)
    {capacity : Nat} (hcapacity : 0 < capacity) (hahead : 0 < cursor.remaining) :
    let wanted := min capacity cursor.remaining
    let backend := world.pool.backend
    let reach := backend.reach (cursor.block.pieces cursor.view.current wanted)
    let outcome := world.apply (.read id capacity)
    world.ReadsTo id cursor reach
        (backend.calls (cursor.block.pieces cursor.view.current reach)) outcome ∧
      world.Warns cursor wanted reach outcome.2 := by
  intro wanted backend reach outcome
  have hless : wanted ≤ cursor.remaining := Nat.min_le_right _ _
  obtain ⟨hreach, hbytes, hwhole, hnext, hcounted⟩ := gathered_composed h hcomposed hless
  obtain ⟨hreads, hwarnings⟩ := readsTo_of_gathered h _ hcapacity hahead
    (Nat.le_trans hreach hless) hbytes
    (fun hnone => by
      have hfirst := hnext (by omega)
      rwa [hnone] at hfirst)
    hcounted
  have hlength := congrArg List.length hbytes
  rw [List.length_take, length_ahead h.backed, Nat.min_eq_left (Nat.le_trans hreach hless)]
    at hlength
  refine ⟨hreads, fun hsome hpart => ?_, fun hquiet => ?_⟩
  · obtain ⟨store, position, hspot, hfailure⟩ := hnext hpart
    obtain ⟨-, hremarks⟩ := Gathered.answer_of_cut hfailure (hlength ▸ hsome)
    rw [hremarks, hlength] at hwarnings
    exact ⟨store, position, hspot, hwarnings⟩
  · have hremarks : (world.pool.gathered cursor wanted).1.remarks = [] := by
      obtain hdone | hpart := Nat.eq_or_lt_of_le hreach
      · exact (Gathered.answer_of_done (hwhole hdone)).2
      · obtain ⟨store, position, -, hfailure⟩ := hnext hpart
        have hnone := hlength.trans (hquiet.resolve_right (Nat.ne_of_lt hpart))
        exact (Gathered.answer_of_refused hfailure (List.length_eq_zero_iff.mp hnone)).2
    rwa [hremarks, List.append_nil] at hwarnings

theorem next?_source (hsound : cursor.Sound) {header : Header} {store : StoreRef}
    (hblock : cursor.block = .source header store) (hahead : 0 < cursor.remaining) :
    cursor.next? = some (store, cursor.view.current) := by
  have hspot := hsound.spot?_ahead (Nat.le_refl _) hahead
  rw [hblock, Block.pieces_source header store _ hahead, Piece.spot?_singleton hahead] at hspot
  exact hspot.symm

/-- What there is to be had from a store is one chunk at most, or the failure for its first byte. -/
theorem gathered_source (h : world.Reads past id cursor) {header : Header} {store : StoreRef}
    (hblock : cursor.block = .source header store) {wanted : Nat} (hpos : 0 < wanted)
    (hless : wanted ≤ cursor.remaining) :
    ∃ probe, world.pool.backend.stores[store.number]? = some probe ∧
      let count := min wanted
        (min (probe.panel.failFrom - cursor.view.current) probe.panel.chunkLimit)
      (world.pool.gathered cursor wanted).1 =
          (if 0 < count then ⟨(world.ahead cursor).take count, none⟩
            else ⟨[], some (.store (injectedFailure cursor.view.current))⟩) ∧
        world.pool.backend.Counted (world.pool.gathered cursor wanted).2
          fun number => if number = store.number ∧ 0 < count then 1 else 0 := by
  obtain ⟨hfits, hcontent⟩ := pieces_wanted h hless
  rw [hblock, Block.pieces_source header store _ hpos] at hfits hcontent
  obtain ⟨probe, hstate, hbound, hslice⟩ := Backend.probe_of_fits hfits.head
  rw [Piece.content_cons, Piece.content_nil, List.append_nil, hslice] at hcontent
  refine ⟨probe, hstate, ?_⟩
  intro count
  have hpart : count ≤ wanted := Nat.min_le_left _ _
  have hbytes : probe.data.slice cursor.view.current count = (world.ahead cursor).take count := by
    rw [probe.data.slice_of_le cursor.view.current hpart]
    dsimp only at hcontent
    rw [hcontent, List.take_take, Nat.min_eq_left hpart]
  obtain ⟨after, hask, hcounted⟩ := Backend.ask_probe hstate hbound hpos
  change world.pool.backend.ask store cursor.view.current wanted =
    (if 0 < count then .ok (probe.data.slice cursor.view.current count) else _, after) at hask
  have hgathered : world.pool.gathered cursor wanted =
      (if 0 < count then ⟨(world.ahead cursor).take count, none⟩
        else ⟨[], some (.store (injectedFailure cursor.view.current))⟩, after) := by
    simp only [Pool.gathered, hblock, hask, ← hbytes]
    by_cases hsome : 0 < count <;> simp only [hsome, if_true, if_false]
  rw [hgathered]
  exact ⟨rfl, hcounted⟩

/-- A cursor over a store gets one chunk at most, and never warns. -/
theorem read_direct (h : world.Reads past id cursor) {header : Header} {store : StoreRef}
    (hblock : cursor.block = .source header store) {capacity : Nat} (hcapacity : 0 < capacity)
    (hahead : 0 < cursor.remaining) :
    ∃ probe, world.pool.backend.stores[store.number]? = some probe ∧
      let outcome := world.apply (.read id capacity)
      let count := min (min capacity cursor.remaining)
        (min (probe.panel.failFrom - cursor.view.current) probe.panel.chunkLimit)
      world.ReadsTo id cursor count
          (fun number => if number = store.number ∧ 0 < count then 1 else 0) outcome ∧
        outcome.2.warnings = world.warnings := by
  have hless : min capacity cursor.remaining ≤ cursor.remaining := Nat.min_le_right _ _
  obtain ⟨probe, hstate, hgot, hcounted⟩ := gathered_source h hblock (by omega) hless
  refine ⟨probe, hstate, ?_⟩
  intro outcome count
  have hpart : count ≤ cursor.remaining := Nat.le_trans (Nat.min_le_left _ _) hless
  have hreads := readsTo_of_gathered h
    (fun number => if number = store.number ∧ 0 < count then 1 else 0) hcapacity hahead hpart
  rw [hgot] at hreads
  obtain hnone | hsome := Nat.eq_zero_or_pos count
  · rw [if_neg (Nat.not_lt_of_le (Nat.le_of_eq hnone))] at hreads
    have hfirst := next?_source h.backed.sound hblock hahead
    obtain ⟨hreads, hwarnings⟩ :=
      hreads (by rw [hnone]; rfl) (fun _ => ⟨store, _, hfirst, rfl⟩) hcounted
    exact ⟨hreads, hwarnings.trans (List.append_nil _)⟩
  · rw [if_pos hsome] at hreads
    obtain ⟨hreads, hwarnings⟩ :=
      hreads rfl (fun hnone => absurd hnone (Nat.ne_of_gt hsome)) hcounted
    exact ⟨hreads, hwarnings.trans (List.append_nil _)⟩

/-! ### Reading on -/

/-- No byte ahead of the cursor lies at or past the failure point of its store. -/
def Intact (world : World Probe) (cursor : Cursor) : Prop :=
  ∀ skip < cursor.remaining, ∀ spot, (cursor.advance skip).next? = some spot →
    world.pool.backend.intact spot = true

/-- Several changes to panels, one after another. -/
def adjustAll (world : World Probe) (changes : List (Nat × Session.PanelChange)) : World Probe :=
  changes.foldl (fun world change => world.adjust change.1 change.2) world

/-- Every failure is called off. -/
def heal (world : World Probe) : World Probe :=
  world.adjustAll ((List.range world.pool.backend.stores.size).map fun number =>
    (number, { heal := true }))

theorem ReadsTo.received_length {count : Nat} {calls : Nat → Nat}
    {outcome : Except Refusal Answer × World Probe}
    (h : world.ReadsTo id cursor count calls outcome)
    (hcount : count ≤ (world.ahead cursor).length) : (received outcome.1).length = count := by
  obtain hnone | hsome := Nat.eq_zero_or_pos count
  · obtain ⟨store, position, -, hanswer⟩ := h.refused hnone
    rw [hanswer, hnone]
    rfl
  · rw [h.brought hsome, received, ReadResult.bytes, List.length_take, Nat.min_eq_left hcount]

/-- Reads of any sizes, as many as there are bytes ahead, get these bytes. -/
def ReadsOn (world : World Probe) (id : String) (cursor : Cursor) (bytes : List UInt8) : Prop :=
  ∀ capacities : List Nat, (∀ capacity ∈ capacities, 0 < capacity) →
    cursor.remaining ≤ capacities.length →
    (world.answers (capacities.map (.read id))).flatMap received = bytes

/-- Short of its end, a cursor with nothing but intact bytes ahead gets a byte from each read. -/
theorem received_pos (h : world.Reads past id cursor) (hintact : world.Intact cursor)
    {capacity : Nat} (hcapacity : 0 < capacity) (hahead : 0 < cursor.remaining) :
    let outcome := world.apply (.read id capacity)
    0 < (received outcome.1).length ∧
      outcome.2.pool.backend.intact = world.pool.backend.intact := by
  intro outcome
  have hsound := h.backed.sound
  have hlength := length_ahead h.backed
  have hfirst := hintact 0 hahead
  cases hblock : cursor.block with
  | source header store =>
      obtain ⟨probe, hstate, hreads, -⟩ := read_direct h hblock hcapacity hahead
      have hchunk := probe.chunk_pos
      have hspot := hfirst _ (next?_source hsound hblock hahead)
      simp only [Backend.intact, hstate, Option.any_some, decide_eq_true_eq] at hspot
      rw [hreads.received_length (by omega)]
      exact ⟨by omega, hreads.counted.intact⟩
  | composed header joint left right =>
      have hcomposed : cursor.block.isComposed = true := by rw [hblock]; rfl
      obtain ⟨hreads, -⟩ := read_composed h hcomposed hcapacity hahead
      have hwanted : 0 < min capacity cursor.remaining := by omega
      have htotal := cursor.block.total_pieces cursor.view.current (min capacity cursor.remaining)
      have hreach := world.pool.backend.reach_le_total
        (cursor.block.pieces cursor.view.current (min capacity cursor.remaining))
      obtain ⟨spot, hspot⟩ :=
        Option.isSome_iff_exists.mp (Piece.isSome_spot?_iff.mpr (htotal.symm ▸ hwanted))
      have hnext := hsound.spot?_ahead (Nat.min_le_right _ _) hwanted
      rw [hreads.received_length (by omega)]
      exact ⟨Backend.reach_pos hspot (hfirst spot (hnext.symm.trans hspot)),
        hreads.counted.intact⟩

/-- Reading on without a failure ahead gets every byte that is left. Each read gets one at least. -/
theorem Intact.readsOn (h : world.Reads past id cursor) (hintact : world.Intact cursor) :
    world.ReadsOn id cursor (world.ahead cursor) := by
  intro capacities hpositive hlength
  induction capacities generalizing past world cursor with
  | nil =>
      have hnone := length_ahead h.backed
      exact (List.length_eq_zero_iff.mp (by simp only [List.length_nil] at hlength; omega)).symm
  | cons capacity capacities ih =>
      rw [List.forall_mem_cons] at hpositive
      have hsound := h.backed.sound
      have hdelivers := read_delivers h.ordered h.provided h.found capacity
      have hnext : (world.apply (.read id capacity)).2.Reads past id
          (cursor.advance (received (world.apply (.read id capacity)).1).length) :=
        ⟨(apply_lands h.ordered (.read id capacity)).ordered,
          apply_provided h.ordered h.provided (.read id capacity), hdelivers.moved⟩
      have hleft := hsound.remaining_advance (received (world.apply (.read id capacity)).1).length
      have hmore : 0 < cursor.remaining →
          0 < (received (world.apply (.read id capacity)).1).length ∧
            (world.apply (.read id capacity)).2.pool.backend.intact = world.pool.backend.intact :=
        received_pos h hintact hpositive.1
      rw [List.map_cons, answers, List.flatMap_cons, hdelivers.ahead hsound]
      congr 1
      refine ih hnext (fun skip hskip spot hspot => ?_) hpositive.2 ?_
      · rw [(hmore (by omega)).2]
        rw [Cursor.advance_advance] at hspot
        exact hintact _ (by omega) spot hspot
      · simp only [List.length_cons] at hlength
        by_cases hend : cursor.remaining = 0
        · omega
        · have hsome := (hmore (Nat.pos_of_ne_zero hend)).1
          omega

theorem adjustAll_reads (changes : List (Nat × Session.PanelChange)) :
    ∀ {past : Pool Probe} {world : World Probe}, world.Reads past id cursor →
    ∃ past, (world.adjustAll changes).Reads past id cursor ∧
      (world.adjustAll changes).ahead cursor = world.ahead cursor := by
  induction changes with
  | nil => exact fun h => ⟨_, h, rfl⟩
  | cons change changes ih =>
      intro past world h
      obtain ⟨hordered, hprovided⟩ := adjust_reads h.ordered h.provided change.1 change.2
      obtain ⟨past, hreads, hahead⟩ := ih ⟨hordered, hprovided, h.found⟩
      refine ⟨past, hreads, hahead.trans ?_⟩
      rw [ahead, visible, memory_adjust, ahead, visible]

/-- The store of this number does not fail, if there is one. -/
def Healed (world : World Probe) (number : Nat) : Prop :=
  ∀ probe, world.pool.backend.stores[number]? = some probe → probe.panel.failFrom = maxOffset

theorem adjust_healed {number other : Nat} (h : number = other ∨ world.Healed other) :
    (world.adjust number { heal := true }).Healed other := by
  intro probe hstate
  simp only [adjust, withPool, Array.getElem?_modify] at hstate
  split at hstate
  · obtain ⟨before, -, rfl⟩ := Option.map_eq_some_iff.mp hstate
    rfl
  · exact h.resolve_left ‹_› probe hstate

theorem adjustAll_healed (numbers : List Nat) : ∀ {world : World Probe} {number : Nat},
    number ∈ numbers ∨ world.Healed number →
    (world.adjustAll (numbers.map fun number => (number, { heal := true }))).Healed number := by
  induction numbers with
  | nil => exact fun h => h.resolve_left List.not_mem_nil
  | cons first numbers ih =>
      intro world number h
      apply ih
      rw [List.mem_cons, or_assoc, or_left_comm] at h
      exact h.imp_right fun h => adjust_healed (h.imp_left Eq.symm)

theorem size_adjustAll (changes : List (Nat × Session.PanelChange)) : ∀ (world : World Probe),
    (world.adjustAll changes).pool.backend.stores.size = world.pool.backend.stores.size := by
  induction changes with
  | nil => exact fun world => rfl
  | cons change changes ih => exact fun world => (ih _).trans (Array.size_modify ..)

/-- Once every failure is called off, every byte ahead is intact. -/
theorem heal_intact (h : world.heal.Reads past id cursor) : world.heal.Intact cursor := by
  intro skip hskip spot hspot
  obtain ⟨store, position⟩ := spot
  obtain ⟨memory, hmemory, hbyte⟩ := h.backed.fits.byte hspot
  obtain ⟨probe, hstate, hdata⟩ := Backend.probe_of_memory hmemory
  rw [hdata] at hbyte
  have hlength := probe.length_le
  obtain ⟨hstored, -⟩ := Array.getElem?_eq_some_iff.mp hstate
  rw [heal, size_adjustAll] at hstored
  have hhealed := adjustAll_healed _ (Or.inl (List.mem_range.mpr hstored)) probe hstate
  simp only [Backend.intact, hstate, Option.any_some, decide_eq_true_eq, hhealed]
  exact Nat.lt_of_lt_of_le hbyte hlength

/-- After a read the cursor is where the bytes that it got end, whatever is done to the panels, and
reading on from there gets the rest as soon as no failure is ahead. -/
theorem read_then_heal (h : world.Reads past id cursor) (capacity : Nat)
    (changes : List (Nat × Session.PanelChange)) :
    let outcome := world.apply (.read id capacity)
    let later := outcome.2.adjustAll changes
    let moved := cursor.advance (received outcome.1).length
    let rest := (world.ahead cursor).drop (received outcome.1).length
    later.find? id = some moved ∧ (later.Intact moved → later.ReadsOn id moved rest) ∧
      later.heal.ReadsOn id moved rest := by
  intro outcome later moved rest
  have hdelivers : world.Delivers outcome.2 id cursor (received outcome.1) :=
    read_delivers h.ordered h.provided h.found capacity
  have hnext : outcome.2.Reads past id moved :=
    ⟨(apply_lands h.ordered (.read id capacity)).ordered,
      apply_provided h.ordered h.provided (.read id capacity), hdelivers.moved⟩
  have hrest : rest = outcome.2.ahead moved := by
    simp only [rest]
    rw [hdelivers.ahead h.backed.sound, List.drop_left]
  obtain ⟨_, hlater, hsame⟩ := adjustAll_reads changes hnext
  obtain ⟨_, hhealed, hstill⟩ := adjustAll_reads _ hlater
  have hall := (heal_intact hhealed).readsOn hhealed
  refine ⟨hlater.found, fun hintact => ?_, ?_⟩
  · rw [hrest, ← hsame]
    exact hintact.readsOn hlater
  · rw [hrest, ← hsame, ← hstill]
    exact hall

/-- In every world that operations and hands on panels lead to, a read stops where a store is made
to fail. Through a composition it gets all bytes before the first one that lies at or past the
failure point of its store, with one request for each chunk of each piece, and warns once if that is
fewer than were wanted; a cursor over a store gets one chunk at most. Without a byte the answer is
the failure. As soon as no failure is ahead any more, reading on gets the rest. -/
theorem reads_stop_at_faults (turns : List Turn) {id : String} {cursor : Cursor}
    (hfind : (play {} turns).find? id = some cursor) {capacity : Nat} (hcapacity : 0 < capacity)
    (hahead : 0 < cursor.remaining) :
    let world := play {} turns
    let backend := world.pool.backend
    let wanted := min capacity cursor.remaining
    let outcome := world.apply (.read id capacity)
    (match cursor.block with
      | .composed _ _ _ _ =>
          let reach := backend.reach (cursor.block.pieces cursor.view.current wanted)
          world.ReadsTo id cursor reach
              (backend.calls (cursor.block.pieces cursor.view.current reach)) outcome ∧
            world.Warns cursor wanted reach outcome.2
      | .source _ store => ∃ probe, backend.stores[store.number]? = some probe ∧
          let count := min wanted
            (min (probe.panel.failFrom - cursor.view.current) probe.panel.chunkLimit)
          world.ReadsTo id cursor count
              (fun number => if number = store.number ∧ 0 < count then 1 else 0) outcome ∧
            outcome.2.warnings = world.warnings) ∧
      ∀ changes : List (Nat × Session.PanelChange),
        let later := outcome.2.adjustAll changes
        let moved := cursor.advance (received outcome.1).length
        let rest := (world.ahead cursor).drop (received outcome.1).length
        later.find? id = some moved ∧ (later.Intact moved → later.ReadsOn id moved rest) ∧
          later.heal.ReadsOn id moved rest := by
  intro world backend wanted outcome
  obtain ⟨past, hordered, hprovided⟩ :=
    play_reads turns empty_ordered (fun entry hmem => by cases hmem)
  have h : world.Reads past id cursor := ⟨hordered, hprovided, hfind⟩
  constructor
  · cases hblock : cursor.block with
    | source header store => exact read_direct h hblock hcapacity hahead
    | composed header joint left right =>
        have hcomposed : cursor.block.isComposed = true := by rw [hblock]; rfl
        have hreads := read_composed h hcomposed hcapacity hahead
        rw [hblock] at hreads
        exact hreads
  · exact fun changes => read_then_heal h capacity changes

/-- Two stores end to end, both with small chunks. The second one fails before its last byte. -/
def faulty : List Turn :=
  let probe (length : Nat) (h : length ≤ maxOffset) : Probe :=
    ⟨⟨.cyclic length, {}⟩, h, show 0 < maxOffset by decide⟩
  let plan (store : Probe) : Blueprint Probe := { store, settings := .compact }
  [.operation (.build "a" (plan (probe 5 (by decide)))),
    .operation (.build "b" (plan (probe 4 (by decide)))), .operation (.concat "a" "b" none),
    .adjust 0 { chunkLimit := some 2 }, .adjust 1 { failFrom := some 3, chunkLimit := some 0 }]

theorem reads_stop_at_faults_faulty :
    let world := play {} faulty
    let outcome := world.apply (.read "a" 20)
    ∃ cursor, world.find? "a" = some cursor ∧
      outcome.1 = .ok (.read (.read [0, 1, 2, 3, 4, 0, 1, 2])) ∧
      outcome.2.warnings = [.partialRead 8 (.store (injectedFailure 3))] ∧
      outcome.2.pool.backend.stores.map (fun probe => probe.panel.reads) = #[3, 3] ∧
      outcome.2.heal.ReadsOn "a" (cursor.advance 8) [3] := by
  intro world outcome
  obtain ⟨cursor, hfind⟩ :=
    Option.isSome_iff_exists.mp (show (world.find? "a").isSome = true by decide)
  have hread : (world.find? "a").elim false (fun cursor =>
      decide (0 < cursor.remaining ∧ (received outcome.1).length = 8 ∧
        (world.ahead cursor).drop 8 = [3])) = true := by
    decide +kernel
  rw [hfind, Option.elim_some, decide_eq_true_eq] at hread
  obtain ⟨hahead, hlength, hrest⟩ := hread
  obtain ⟨-, hlater⟩ := reads_stop_at_faults faulty hfind (show 0 < 20 by decide) hahead
  obtain ⟨-, -, hreads⟩ := hlater []
  refine ⟨cursor, hfind, by decide +kernel, by decide +kernel, by decide +kernel, ?_⟩
  rw [← hrest, ← hlength]
  exact hreads

end World

end SharedStream
