import SharedStream.Proofs.Descent
import SharedStream.Proofs.Faithful
import SharedStream.Proofs.Simulation
/-!
Reading on after a failure. Over faithful stores, a read delivers the next bytes that its cursor
shows, as many as it says, and leaves the cursor at the first byte that it did not deliver. If a
store failed on the way, that is the byte for which it failed, and the next read begins by asking
for it again. So however reads of one cursor are sized, and wherever stores fail, what they deliver
put together is what the cursor shows.
-/

namespace SharedStream

/-- Where the next byte of a cursor lies: its store, and its position there. -/
def Cursor.next? (cursor : Cursor) : Option (StoreRef × Nat) :=
  Piece.spot? cursor.pieces cursor.offset

/-- The log reports the event as a warning. -/
def Event.isWarning (event : Event) : Bool :=
  decide (event.record?.map LogRecord.level = some .warn)

theorem Event.not_isWarning_of_isAsking {event : Event} (h : event.isAsking = true) :
    event.isWarning = false := by
  cases event <;> simp_all [isAsking, isWarning, record?]

namespace Gathered

variable {got : Gathered} {error : Failure}

theorem answer_of_done (hfailure : got.failure = none) :
    got.answer = .ok got.bytes ∧ got.remarks = [] := by
  simp [answer, remarks, hfailure]

theorem answer_of_refused (hfailure : got.failure = some error) (hnone : got.bytes = []) :
    got.answer = .error error ∧ got.remarks = [] := by
  simp [answer, remarks, hfailure, hnone]

theorem answer_of_cut (hfailure : got.failure = some error) (hsome : 0 < got.bytes.length) :
    got.answer = .ok got.bytes ∧ got.remarks = [.partialRead got.bytes.length error] := by
  have hfull : got.bytes.isEmpty = false :=
    List.isEmpty_eq_false_iff.mpr (List.length_pos_iff.mp hsome)
  simp [answer, remarks, hfailure, hfull]

theorem eq_of_answer {bytes : List UInt8} (h : got.answer = .ok bytes) : bytes = got.bytes := by
  unfold answer at h
  split at h
  · exact (Except.ok.inj h).symm
  · split at h
    · cases h
    · exact (Except.ok.inj h).symm

theorem filter_remarks (got : Gathered) : got.remarks.filter Event.isWarning = got.remarks := by
  apply List.filter_eq_self.mpr
  intro event hmem
  obtain ⟨error, -, rfl⟩ := Gathered.mem_remarks hmem
  rfl

end Gathered

namespace Cursor

variable {cursor : Cursor}

theorem filter_readNotes (cursor : Cursor) (answer : Except Failure (List UInt8)) :
    (cursor.readNotes answer).filter Event.isWarning = [] := by
  cases answer with
  | error error => rfl
  | ok bytes =>
      simp only [readNotes]
      cases cursor.block <;> rfl

theorem Sound.offset_advance (h : cursor.Sound) (count : Nat) :
    (cursor.advance count).offset = cursor.offset + count := by
  have hfirst := h.placed.view.first_le
  simp only [offset, Cursor.advance, Cursor.withView]
  omega

/-- The bytes ahead of a cursor lie where the cursor shows them. -/
theorem Sound.spot?_ahead (h : cursor.Sound) {share skip : Nat}
    (hshare : share ≤ cursor.remaining) (hskip : skip < share) :
    Piece.spot? (cursor.block.pieces cursor.view.current share) skip =
      (cursor.advance skip).next? := by
  rw [h.pieces_ahead hshare, Piece.spot?_clip _ _ _ _ hskip, next?, h.offset_advance]
  rfl

/-- A cursor with a byte to come is not at its end. -/
theorem Sound.remaining_pos (h : cursor.Sound) {spot : StoreRef × Nat}
    (hnext : cursor.next? = some spot) : 0 < cursor.remaining := by
  have hless := Piece.lt_total_of_spot? hnext
  have hfirst := h.placed.view.first_le
  simp only [offset, pieces, Block.total_pieces] at hless
  simp only [remaining, View.remaining]
  omega

theorem wanted_none {capacity : Nat} (hcapacity : 0 < capacity) (hend : cursor.remaining = 0) :
    cursor.view.wanted capacity = .ok none := by
  simp only [remaining, View.remaining] at hend
  rw [View.wanted, if_neg (by omega), if_pos (by omega)]

theorem wanted_eq {capacity : Nat} (hcapacity : 0 < capacity) (hremaining : 0 < cursor.remaining) :
    cursor.view.wanted capacity = .ok (some (min capacity cursor.remaining)) := by
  simp only [remaining, View.remaining] at hremaining
  rw [View.wanted, if_neg (by omega), if_neg (by omega)]
  rfl

end Cursor

variable {σ : Type} [Store σ]

namespace Pool

/-- A read warns of a failure that it passes over, and of nothing else. -/
theorem read_warnings {pool : Pool σ} {cursor : Cursor} (hsound : cursor.Sound)
    (hshows : pool.ledger.Shows cursor.block cursor.extent) {capacity wanted : Nat}
    (hwanted : cursor.view.wanted capacity = .ok (some wanted)) :
    (pool.read cursor capacity).2.backend.journal.toList.filter Event.isWarning =
      pool.backend.journal.toList.filter Event.isWarning ++
        (pool.gathered cursor wanted).1.remarks := by
  obtain ⟨-, -, -, -, asked, hasked, hjournal⟩ := read_gathered hsound hshows hwanted
  have hsilent : asked.filter Event.isWarning = [] := List.filter_eq_nil_iff.mpr
    fun event hmem => by simp [Event.not_isWarning_of_isAsking (hasked event hmem)]
  rw [hjournal, List.filter_append, List.filter_append, List.filter_append, hsilent,
    Gathered.filter_remarks, Cursor.filter_readNotes, List.append_nil, List.append_nil]

/-- A read begins with a request for the next byte. -/
theorem gathered_asks_first {pool : Pool σ} {cursor : Cursor} (hsound : cursor.Sound)
    {store : StoreRef} {position wanted : Nat} (hnext : cursor.next? = some (store, position))
    (hstored : store.number < pool.backend.stores.size) (hpos : 0 < wanted)
    (hless : wanted ≤ cursor.remaining) :
    ∃ length answer more, (pool.gathered cursor wanted).2.requests =
      pool.backend.requests ++ .storeRead store.number position length answer :: more := by
  have hspot := hsound.spot?_ahead hless hpos
  rw [show (cursor.advance 0).next? = some (store, position) from hnext] at hspot
  obtain ⟨block, view⟩ := cursor
  cases block with
  | source header source =>
      rw [Block.pieces_source header source view.current hpos, Piece.spot?_singleton hpos] at hspot
      obtain ⟨rfl, rfl⟩ := Prod.mk.inj (Option.some.inj hspot)
      rw [(pool.gathered_source header source view wanted).1, Backend.ask_backend,
        Backend.read_requests hstored]
      exact ⟨wanted, _, [], rfl⟩
  | composed header joint left right => exact Backend.fillAll_asks_first hspot hstored

variable [FaithfulStore σ]

/-- Over faithful stores, a read comes to fetching a share of the pieces ahead. Through a
composition, that is all that was wanted; a store under a cursor is only asked once. -/
theorem gathered_fetched {pool : Pool σ} {cursor : Cursor}
    (hbacked : cursor.Backed pool.backend.memory) {wanted : Nat} (hpos : 0 < wanted)
    (hless : wanted ≤ cursor.remaining) :
    ∃ share, 0 < share ∧ share ≤ wanted ∧
      pool.backend.Fetched (cursor.block.pieces cursor.view.current share)
        (pool.gathered cursor wanted) ∧
      (cursor.block.isComposed = true ∧ share = wanted ∨
        cursor.block.isComposed = false ∧ ((pool.gathered cursor wanted).1.failure = none ∨
          (pool.gathered cursor wanted).1.bytes = [])) := by
  have hfits : Piece.AllFit pool.backend.memory
      (cursor.block.pieces cursor.view.current wanted) := by
    rw [hbacked.sound.pieces_ahead hless]
    exact (hbacked.fits.clip _ _).1
  obtain ⟨block, view⟩ := cursor
  cases block with
  | source header store =>
      rw [Block.pieces_source header store view.current hpos] at hfits
      simp only [gathered, Backend.ask]
      cases hread : pool.backend.read store view.current wanted with
      | mk answer after =>
          cases answer with
          | error failure =>
              refine ⟨wanted, hpos, Nat.le_refl _, ?_, Or.inr ⟨rfl, Or.inr rfl⟩⟩
              rw [Block.pieces_source header store view.current hpos]
              exact Backend.read_failed hfits.head hpos hread
          | ok reply =>
              obtain ⟨hsome, hcount, hfetched⟩ := Backend.read_fetched hfits.head hpos hread
              simp only
              rw [if_neg (by omega)]
              refine ⟨reply.count, hsome, hcount, ?_, Or.inr ⟨rfl, Or.inl rfl⟩⟩
              rw [Block.pieces_source header store view.current hsome]
              exact hfetched
  | composed header joint left right =>
      exact ⟨wanted, hpos, Nat.le_refl _, Backend.fillAll_fetched hfits, Or.inl ⟨rfl, rfl⟩⟩

end Pool

namespace World

/-- The warnings in the journal. -/
def warnings (world : World σ) : List Event :=
  world.pool.backend.journal.toList.filter Event.isWarning

/-- The bytes that an answer brings. -/
def received : Except Refusal Answer → List UInt8
  | .ok (.read result) => result.bytes
  | _ => []

variable [FaithfulStore σ]

/-- The bytes that a cursor shows. -/
def visible (world : World σ) (cursor : Cursor) : List UInt8 :=
  Piece.content world.pool.backend.memory cursor.pieces

/-- Every live cursor has its bytes in the stores. -/
def Provided (world : World σ) : Prop :=
  ∀ entry ∈ world.cursors, entry.2.Backed world.pool.backend.memory

variable {past : Pool σ} {world : World σ} {id : String} {cursor : Cursor}

theorem apply_provided (h : Ordered past world) (hprovided : world.Provided)
    (operation : Operation σ) : (world.apply operation).2.Provided := by
  have hevolves : world.pool.backend.Evolves (world.apply operation).2.pool.backend :=
    (apply_since h operation).stores
  have hextends : Extends world.pool.backend.memory (world.apply operation).2.pool.backend.memory :=
    hevolves.memory
  have hbegets := apply_begets h operation
  intro entry hmem
  obtain ⟨name, made⟩ := entry
  cases hbegets _ hmem with
  | narrowed hold hplaced hwithin =>
      exact (((hprovided _ hold).withView hplaced hwithin).extend hextends).1
  | @joined _ _ head tail header hhead htail hsound =>
      have hfits := (hprovided _ hhead).joined_fits (hprovided _ htail) header
      exact ⟨hsound, (hfits.extend hextends).1⟩
  | @built plan header store length hcheck hstored hsound =>
      obtain ⟨hlength, hpos, -⟩ := Blueprint.check_ok hcheck
      rw [FaithfulStore.length_eq] at hlength
      subst hlength
      exact ⟨hsound, Cursor.whole_fits (Backend.memory_of_stored hstored) hpos⟩

theorem run_provided (h : Ordered past world) (hprovided : world.Provided)
    (operations : List (Operation σ)) : (world.run operations).Provided := by
  induction operations generalizing world with
  | nil => exact hprovided
  | cons operation operations ih =>
      exact ih (apply_lands h operation).ordered (apply_provided h hprovided operation)

theorem run_empty_provided (operations : List (Operation σ)) : (run {} operations).Provided :=
  run_provided empty_ordered (fun entry hmem => by cases hmem) operations

/-- How a read with room for `capacity` bytes may end over faithful stores. Through a composition it
brings all bytes that it wanted, or fails before the first one, or is cut short with a warning. -/
inductive ReadEnds (world : World σ) (id : String) (cursor : Cursor) (capacity : Nat) :
    Except Refusal Answer × World σ → Prop where
  | atEnd {next : World σ} (hend : cursor.remaining = 0) (hmoved : next.find? id = some cursor)
      (hrequests : next.requests = world.requests) (hwarnings : next.warnings = world.warnings) :
      ReadEnds world id cursor capacity (.ok (.read .atEnd), next)
  | served {next : World σ} {bytes : List UInt8} (hsome : 0 < bytes.length)
      (hless : bytes.length ≤ min capacity cursor.remaining)
      (hfull : cursor.block.isComposed = true → bytes.length = min capacity cursor.remaining)
      (hwarnings : next.warnings = world.warnings) :
      ReadEnds world id cursor capacity (.ok (.read (.read bytes)), next)
  | failed {next : World σ} {failure : StoreFailure} {store : StoreRef} {position length : Nat}
      (hnext : cursor.next? = some (store, position))
      (hcursors : next.cursors = world.cursors) (hledger : next.pool.ledger = world.pool.ledger)
      (hrequests : next.requests =
        world.requests ++ [.storeRead store.number position length (.error failure)])
      (hwarnings : next.warnings = world.warnings) :
      ReadEnds world id cursor capacity (.error (.failed (.store failure)), next)
  | cut {next : World σ} {bytes : List UInt8} {calls : List Event} {failure : StoreFailure}
      {store : StoreRef} {position length : Nat} (hcomposed : cursor.block.isComposed = true)
      (hsome : 0 < bytes.length) (hless : bytes.length < min capacity cursor.remaining)
      (hwarnings : next.warnings =
        world.warnings ++ [.partialRead bytes.length (.store failure)])
      (hrequests : next.requests =
        world.requests ++ calls ++ [.storeRead store.number position length (.error failure)])
      (hmoved : next.find? id = some (cursor.advance bytes.length))
      (hnext : (cursor.advance bytes.length).next? = some (store, position))
      (hresumes : ∀ capacity, 0 < capacity → ∃ length answer more,
        (next.apply (.read id capacity)).2.requests =
          next.requests ++ .storeRead store.number position length answer :: more) :
      ReadEnds world id cursor capacity (.ok (.read (.read bytes)), next)

/-- A read of a live cursor first asks for the next byte. -/
theorem read_asks_first (h : Ordered past world) (hprovided : world.Provided)
    (hfind : world.find? id = some cursor) {store : StoreRef} {position capacity : Nat}
    (hnext : cursor.next? = some (store, position)) (hcapacity : 0 < capacity) :
    ∃ length answer more, (world.apply (.read id capacity)).2.requests =
      world.requests ++ .storeRead store.number position length answer :: more := by
  have hsound := (h.focus hfind).1
  have hremaining := hsound.remaining_pos hnext
  have hstored : store.number < world.pool.backend.stores.size := by
    have hlt := (hprovided _ (mem_of_find? hfind)).fits.spot? hnext
    simpa [Backend.memory] using hlt
  obtain ⟨length, answer, more, hfirst⟩ := Pool.gathered_asks_first hsound hnext hstored
    (show 0 < min capacity cursor.remaining by omega) (Nat.min_le_right _ _)
  obtain ⟨-, -, -, hrequests, -⟩ := Pool.read_gathered hsound (h.shows hfind)
    (Cursor.wanted_eq hcapacity hremaining)
  rw [hfirst] at hrequests
  refine ⟨length, answer, more, ?_⟩
  simp only [apply, withCursor, hfind]
  generalize world.pool.read cursor capacity = run at hrequests
  obtain ⟨made, pool⟩ := run
  cases made <;> exact hrequests

theorem read_ends (h : Ordered past world) (hprovided : world.Provided)
    (hfind : world.find? id = some cursor) {capacity : Nat} (hcapacity : 0 < capacity) :
    world.ReadEnds id cursor capacity (world.apply (.read id capacity)) := by
  have hsound := (h.focus hfind).1
  have hlater := apply_provided h hprovided (.read id capacity)
  have hordered := (apply_lands h (.read id capacity)).ordered
  simp only [apply, withCursor, hfind] at hlater hordered ⊢
  by_cases hend : cursor.remaining = 0
  · simp only [Pool.read, Cursor.through_eq, Cursor.wanted_none hcapacity hend]
    exact .atEnd hend (find?_update hfind cursor) rfl rfl
  · have hpos : 0 < min capacity cursor.remaining := by omega
    have hwanted := Cursor.wanted_eq hcapacity (Nat.pos_of_ne_zero hend)
    have hwarnings := Pool.read_warnings hsound (h.shows hfind) hwanted
    obtain ⟨hanswer, hledger, -, hrequests, -⟩ :=
      Pool.read_gathered hsound (h.shows hfind) hwanted
    obtain ⟨share, hsome, hshare, ⟨-, -, calls, hcalls, hended⟩, hkind⟩ :=
      Pool.gathered_fetched (hprovided _ (mem_of_find? hfind)) hpos (Nat.min_le_right _ _)
    have hahead : ∀ {skip : Nat}, skip < share →
        Piece.spot? (cursor.block.pieces cursor.view.current share) skip =
          (cursor.advance skip).next? :=
      fun hskip => hsound.spot?_ahead (Nat.le_trans hshare (Nat.min_le_right _ _)) hskip
    rw [hcalls] at hrequests
    generalize world.pool.read cursor capacity = run
      at hanswer hledger hrequests hwarnings hlater hordered ⊢
    generalize (world.pool.gathered cursor (min capacity cursor.remaining)).1 = got
      at hanswer hwarnings hended hkind
    obtain ⟨made, pool⟩ := run
    cases hended with
    | full hnone hlength hquiet =>
        obtain ⟨hgot, hremarks⟩ := Gathered.answer_of_done hnone
        rw [Block.total_pieces] at hlength
        rw [hremarks, List.append_nil] at hwarnings
        rw [hgot] at hanswer
        obtain rfl : made = .ok (.read got.bytes, cursor.advance got.bytes.length) := hanswer
        refine .served (by omega) (by omega) (fun hcomposed => ?_) hwarnings
        rcases hkind with ⟨-, hall⟩ | ⟨hsource, -⟩
        · omega
        · rw [hsource] at hcomposed
          cases hcomposed
    | @failed earlier failure store position length hfailure hspot hearlier =>
        have hless := Piece.lt_total_of_spot? hspot
        rw [Block.total_pieces] at hless
        rw [hahead hless] at hspot
        -- With no byte in hand the failure is the answer; with some it is passed over.
        by_cases hempty : got.bytes = []
        · obtain ⟨hgot, hremarks⟩ := Gathered.answer_of_refused hfailure hempty
          rw [hremarks, List.append_nil] at hwarnings
          rw [hgot] at hanswer
          obtain rfl : made = .error (.store failure) := hanswer
          rw [hempty] at hspot
          rw [hearlier hempty] at hrequests
          exact .failed hspot rfl hledger hrequests hwarnings
        · have hbytes := List.length_pos_iff.mpr hempty
          obtain ⟨hgot, hremarks⟩ := Gathered.answer_of_cut hfailure hbytes
          rw [hremarks] at hwarnings
          rw [hgot] at hanswer
          obtain rfl : made = .ok (.read got.bytes, cursor.advance got.bytes.length) := hanswer
          -- A store that is asked only once cannot fail after some bytes.
          have hcomposed : cursor.block.isComposed = true := by
            rcases hkind with ⟨hcomposed, -⟩ | ⟨-, hnone | hnone⟩
            · exact hcomposed
            · rw [hfailure] at hnone
              cases hnone
            · exact absurd hnone hempty
          rw [← List.append_assoc] at hrequests
          exact .cut hcomposed hbytes (by omega) hwarnings hrequests (find?_update hfind _) hspot
            fun _ hroom => read_asks_first hordered hlater (find?_update hfind _) hspot hroom

/-- What came of reads of a cursor, between two worlds: the cursor moved over the bytes, and they
are the next ones that it shows. -/
structure Delivers (world next : World σ) (id : String) (cursor : Cursor) (bytes : List UInt8) :
    Prop where
  moved : next.find? id = some (cursor.advance bytes.length)
  fits : bytes.length ≤ cursor.remaining
  front : bytes <+: (world.visible cursor).drop cursor.offset
  memory : next.pool.backend.memory = world.pool.backend.memory

theorem Delivers.none {next : World σ} (hfind : next.find? id = some cursor)
    (hmemory : next.pool.backend.memory = world.pool.backend.memory) :
    world.Delivers next id cursor [] :=
  ⟨hfind, Nat.zero_le _, List.nil_prefix, hmemory⟩

theorem Delivers.trans {middle next : World σ} {bytes more : List UInt8} (hsound : cursor.Sound)
    (hfirst : world.Delivers middle id cursor bytes)
    (hsecond : middle.Delivers next id (cursor.advance bytes.length) more) :
    world.Delivers next id cursor (bytes ++ more) where
  moved := by
    rw [hsecond.moved, Cursor.advance_advance, List.length_append]
  fits := by
    have hfits := hfirst.fits
    have hmore := hsecond.fits
    rw [hsound.remaining_advance] at hmore
    rw [List.length_append]
    omega
  front := by
    have hmore : more <+: ((world.visible cursor).drop cursor.offset).drop bytes.length := by
      have hfront := hsecond.front
      rw [visible, hfirst.memory, hsound.offset_advance] at hfront
      rw [List.drop_drop]
      exact hfront
    obtain ⟨rest, hrest⟩ := hfirst.front
    rw [← hrest, List.drop_left] at hmore
    rw [← hrest]
    exact (List.prefix_append_right_inj _).mpr hmore
  memory := hsecond.memory.trans hfirst.memory

/-- One read, whatever it answers. -/
theorem read_delivers (h : Ordered past world) (hprovided : world.Provided)
    (hfind : world.find? id = some cursor) (capacity : Nat) :
    world.Delivers (world.apply (.read id capacity)).2 id cursor
      (received (world.apply (.read id capacity)).1) := by
  have hsound := (h.focus hfind).1
  have hbacked := hprovided _ (mem_of_find? hfind)
  simp only [apply, withCursor, hfind]
  cases hwanted : cursor.view.wanted capacity with
  | error fault =>
      simp only [Pool.read, Cursor.through_eq, hwanted]
      exact .none hfind rfl
  | ok wanted =>
      cases wanted with
      | none =>
          simp only [Pool.read, Cursor.through_eq, hwanted]
          exact .none (find?_update hfind cursor) rfl
      | some wanted =>
          obtain ⟨hpos, hleast⟩ := View.wanted_some hwanted
          have hless : wanted ≤ cursor.remaining := by
            simp only [Cursor.remaining]
            omega
          obtain ⟨hanswer, -, hstores, -⟩ := Pool.read_gathered hsound (h.shows hfind) hwanted
          obtain ⟨share, -, hshare, ⟨hmemory, hfront, -⟩, -⟩ :=
            Pool.gathered_fetched hbacked hpos hless
          rw [hsound.pieces_ahead (Nat.le_trans hshare hless), (hbacked.fits.clip _ _).2] at hfront
          generalize world.pool.gathered cursor wanted = got at hanswer hstores hmemory hfront
          generalize world.pool.read cursor capacity = run at hanswer hstores ⊢
          obtain ⟨made, pool⟩ := run
          have hsame : pool.backend.memory = world.pool.backend.memory := by
            rw [Backend.memory, hstores]
            exact hmemory
          cases hgot : got.1.answer with
          | error error =>
              rw [hgot] at hanswer
              obtain rfl : made = .error error := hanswer
              exact .none hfind hsame
          | ok bytes =>
              obtain rfl := Gathered.eq_of_answer hgot
              rw [hgot] at hanswer
              obtain rfl : made =
                  .ok (.read got.1.bytes, cursor.advance got.1.bytes.length) := hanswer
              have hfits : got.1.bytes.length ≤ cursor.remaining := by
                have hcount := hfront.length_le
                rw [List.length_take] at hcount
                omega
              exact ⟨find?_update hfind _, hfits, hfront.trans (List.take_prefix _ _), hsame⟩

/-- Any number of reads, one after another. -/
theorem reads_deliver (h : Ordered past world) (hprovided : world.Provided)
    (hfind : world.find? id = some cursor) (capacities : List Nat) :
    world.Delivers (world.run (capacities.map (.read id))) id cursor
      ((world.answers (capacities.map (.read id))).flatMap received) := by
  induction capacities generalizing world cursor with
  | nil => exact .none hfind rfl
  | cons capacity capacities ih =>
      have hfirst := read_delivers h hprovided hfind capacity
      have hrest := ih (apply_lands h (.read id capacity)).ordered
        (apply_provided h hprovided (.read id capacity)) hfirst.moved
      rw [List.map_cons, answers, List.flatMap_cons]
      exact hfirst.trans (h.focus hfind).1 hrest

/-- In any reachable world over faithful stores, whatever sizes a cursor is read in and wherever
stores fail on the way: the bytes of all answers put together are what the cursor shows between the
position where it stood and the one where it stands afterwards. Each single read ends in one of the
ways above: what it answers, asks for and warns of, and where it leaves the cursor. -/
theorem reads_resume (operations : List (Operation σ)) {id : String} {cursor : Cursor}
    (hfind : (run {} operations).find? id = some cursor) :
    let world := run {} operations
    (∀ capacities : List Nat,
      let reads := capacities.map (.read id)
      let bytes := (world.answers reads).flatMap received
      let moved := cursor.advance bytes.length
      (world.run reads).find? id = some moved ∧
        moved.position = cursor.position + bytes.length ∧
        moved.remaining + bytes.length = cursor.remaining ∧
        (world.run reads).visible moved = world.visible cursor ∧
        bytes = ((world.visible cursor).drop (cursor.position - cursor.view.firstPosition)).take
          (moved.position - cursor.position)) ∧
    ∀ capacity, 0 < capacity →
      world.ReadEnds id cursor capacity (world.apply (.read id capacity)) := by
  intro world
  have h : Ordered {} world := run_empty_ordered operations
  have hprovided : world.Provided := run_empty_provided operations
  refine ⟨fun capacities => ?_, fun capacity hcapacity => read_ends h hprovided hfind hcapacity⟩
  intro reads bytes moved
  have hsound := (h.focus hfind).1
  have hbacked := hprovided _ (mem_of_find? hfind)
  have hdelivers : world.Delivers (world.run reads) id cursor bytes :=
    reads_deliver h hprovided hfind capacities
  have hposition := hsound.position_advance hdelivers.fits
  have hremaining : moved.remaining = cursor.remaining - bytes.length :=
    hsound.remaining_advance bytes.length
  have hfits := hdelivers.fits
  have hoffset : cursor.position - cursor.view.firstPosition = cursor.offset := hbacked.offset
  refine ⟨hdelivers.moved, hposition, by omega, ?_, ?_⟩
  · rw [visible, hdelivers.memory]
    rfl
  · rw [hoffset, hposition, Nat.add_sub_cancel_left]
    exact List.prefix_iff_eq_take.mp hdelivers.front

/-- Two stores end to end. The first one delivers two of its four bytes, and then is busy once. -/
def stumbling : List (Operation FaithfulScript) :=
  let first : ScriptStore :=
    { name := "first", label := "first", data := .cyclic 4,
      reads := [.short 2, .fail ⟨.busy, "not now", none⟩] }
  let second : ScriptStore := { name := "second", label := "second", data := .cyclic 3 }
  let plan (store : FaithfulScript) : Blueprint FaithfulScript := { store, settings := .compact }
  [.build "a" (plan ⟨first, by decide⟩), .build "b" (plan ⟨second, by decide⟩),
    .concat "a" "b" none]

theorem reads_resume_stumbling :
    let world := run {} stumbling
    let reads := [5, 5, 5].map (Operation.read "a")
    ∃ cursor, world.find? "a" = some cursor ∧
      (world.answers reads).map received = [[0, 1], [2, 3, 0, 1, 2], []] ∧
      [0, 1, 2, 3, 0, 1, 2] =
        ((world.visible cursor).drop (cursor.position - cursor.view.firstPosition)).take 7 ∧
      (world.apply (.read "a" 5)).2.warnings =
        [.partialRead 2 (.store ⟨.busy, "not now", none⟩)] ∧
      world.ReadEnds "a" cursor 5 (world.apply (.read "a" 5)) := by
  intro world reads
  obtain ⟨cursor, hfind⟩ :=
    Option.isSome_iff_exists.mp (show (world.find? "a").isSome = true by decide)
  obtain ⟨hreads, hends⟩ := reads_resume stumbling hfind
  obtain ⟨-, hposition, -, -, hbytes⟩ := hreads [5, 5, 5]
  have hanswers : (world.answers reads).map received = [[0, 1], [2, 3, 0, 1, 2], []] := by
    decide +kernel
  have hreceived : (world.answers reads).flatMap received = [0, 1, 2, 3, 0, 1, 2] := by
    rw [List.flatMap_def, hanswers]
    rfl
  have hseven : ((world.answers reads).flatMap received).length = 7 := by rw [hreceived]; rfl
  rw [hposition, Nat.add_sub_cancel_left] at hbytes
  refine ⟨cursor, hfind, hanswers, ?_, by decide +kernel, hends 5 (by decide)⟩
  rw [← hseven, ← hreceived]
  exact hbytes

end World

end SharedStream
