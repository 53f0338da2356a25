import SharedStream.Proofs.Requests
/-!
How the answers of stores are judged. A cursor right over a store takes neither a count of nothing
nor one beyond what it asked for, and fails. A read through a composition judges a count of nothing
alike, but cuts the other one down to what it asked for and reads on. So it comes to the same as if
every answer were judged as under a cursor right over the store, until an answer claims too much.
-/

namespace SharedStream

/-- The store claims to have delivered more than it was asked for. -/
def Event.overclaims : Event → Bool
  | storeRead _ _ length (.ok count) => decide (length < count)
  | _ => false

variable {σ : Type}

namespace Backend

/-- A reading beside the judged one of the same bytes. Either no answer claims too much, and the two
are alike but for the words of a failure. Or the judged one ends with the first answer that does,
and the other one has more bytes. -/
inductive Compares (backend : Backend σ) (run judged : Gathered × Backend σ) :
    (calls : List Event) → Prop where
  | alike {calls : List Event} (hrequests : run.2.requests = backend.requests ++ calls)
      (hclaims : ∀ call ∈ calls, call.overclaims = false)
      (haccepted : run.1.bytes.length = sumOver Event.accepted calls)
      (hafter : judged.2 = run.2) (hbytes : judged.1.bytes = run.1.bytes)
      (hfailure : judged.1.failure.map Failure.kind = run.1.failure.map Failure.kind) :
      Compares backend run judged calls
  | ahead {before after : List Event} {call : Event} {more : List UInt8} {error : Failure}
      (hrequests : run.2.requests = backend.requests ++ (before ++ call :: after))
      (hclaims : ∀ earlier ∈ before, earlier.overclaims = false)
        (hcall : call.overclaims = true)
      (hjudged : judged.2.requests = backend.requests ++ (before ++ [call]))
      (haccepted : judged.1.bytes.length = sumOver Event.accepted before)
      (hfailure : judged.1.failure = some error) (hkind : error.kind = .system)
      (hbytes : run.1.bytes = judged.1.bytes ++ more) (hmore : more ≠ []) :
      Compares backend run judged (before ++ call :: after)

namespace Compares

theorem nothing (backend : Backend σ) :
    backend.Compares (⟨[], none⟩, backend) (⟨[], none⟩, backend) [] :=
  .alike (by simp) (by simp) rfl rfl rfl rfl

/-- What comes after a reading is compared as long as the judged one goes on. -/
theorem andThen {backend : Backend σ} {run judged : Gathered × Backend σ} {calls : List Event}
    {next judgedNext : Backend σ → Gathered × Backend σ}
    (h : backend.Compares run judged calls)
    (hgrows : ∀ backend, ∃ more, (next backend).2.requests = backend.requests ++ more)
    (hnext : judged.1.failure = none →
      ∃ more, run.2.Compares (next run.2) (judgedNext run.2) more) :
    ∃ all, backend.Compares (Backend.andThen run next)
    (Backend.andThen judged judgedNext) all := by
  unfold Backend.andThen
  cases h with
  | alike hrequests hclaims haccepted hafter hbytes hfailure =>
      cases hrun : run.1.failure with
      | some error =>
          rw [hrun] at hfailure
          obtain ⟨failure, hjudged, -⟩ := Option.map_eq_some_iff.mp hfailure
          simp only [hjudged]
          exact ⟨calls, .alike hrequests hclaims haccepted hafter hbytes
            (by rw [hrun, hfailure])⟩
      | none =>
          rw [hrun] at hfailure
          have hjudged : judged.1.failure = none := Option.map_eq_none_iff.mp hfailure
          obtain ⟨more, hmore⟩ := hnext hjudged
          simp only [hjudged, hafter, hbytes]
          cases hmore with
          | alike hrequests' hclaims' haccepted' hafter' hbytes' hfailure' =>
              refine ⟨calls ++ more, .alike ?_ ?_ ?_ hafter' ?_ hfailure'⟩
              · rw [hrequests', hrequests, List.append_assoc]
              · intro call hmem
                exact (List.mem_append.mp hmem).elim (hclaims call) (hclaims' call)
              · simp [haccepted, haccepted']
              · rw [hbytes']
          | @ahead before after call extra error hrequests' hclaims' hcall hjudged' haccepted'
              hfailure' hkind hbytes' hextra =>
              refine ⟨(calls ++ before) ++ call :: after,
                .ahead ?_ ?_ hcall ?_ ?_ hfailure' hkind ?_ hextra⟩
              · rw [hrequests', hrequests, List.append_assoc, List.append_assoc]
              · intro call hmem
                exact (List.mem_append.mp hmem).elim (hclaims call) (hclaims' call)
              · rw [hjudged', hrequests, List.append_assoc, List.append_assoc]
              · simp [haccepted, haccepted']
              · simp [hbytes', List.append_assoc]
  | @ahead before after call extra error hrequests hclaims hcall hjudged haccepted hfailure hkind
      hbytes hextra =>
      simp only [hfailure]
      cases run.1.failure with
      | some failure =>
          exact ⟨_, .ahead hrequests hclaims hcall hjudged haccepted hfailure hkind
            hbytes hextra⟩
      | none =>
          obtain ⟨more, hmore⟩ := hgrows run.2
          have hmoreBytes : run.1.bytes ++ (next run.2).1.bytes =
              judged.1.bytes ++ (extra ++ (next run.2).1.bytes) := by
            rw [hbytes, List.append_assoc]
          refine ⟨before ++ call :: (after ++ more),
            .ahead ?_ hclaims hcall hjudged haccepted hfailure
            hkind hmoreBytes (by simp [hextra])⟩
          simp [hmore, hrequests]

end Compares

variable [Store σ]

/-- A request on behalf of a cursor right over the store: it delivers something, and not more than
was asked for. -/
theorem ask_length {backend after : Backend σ} {store : StoreRef} {position length : Nat}
    {bytes : List UInt8} (hask : backend.ask store position length = (.ok bytes, after)) :
    0 < bytes.length ∧ bytes.length ≤ length := by
  simp only [ask] at hask
  split at hask
  · cases (Prod.mk.inj hask).1
  · split at hask
    · cases (Prod.mk.inj hask).1
    · obtain rfl := Except.ok.inj (Prod.mk.inj hask).1
      rw [Reply.length_front]
      omega

/-- Fill a range from one store as a composed read does, but judge every answer as a cursor right
over the store does. -/
def fillJudged (backend : Backend σ) (store : StoreRef) (position length : Nat) :
    Gathered × Backend σ :=
  if length = 0 then (⟨[], none⟩, backend)
  else
    match _h : backend.ask store position length with
    | (.error error, backend) => (⟨[], some error⟩, backend)
    | (.ok bytes, backend) =>
        let (rest, backend) :=
          backend.fillJudged store (position + bytes.length) (length - bytes.length)
        (⟨bytes ++ rest.bytes, rest.failure⟩, backend)
termination_by length
decreasing_by
  have hlength := ask_length _h
  omega

section Judged

variable {backend after : Backend σ} {store : StoreRef} {position length : Nat}

theorem fillJudged_error {error : Failure} (hpos : length ≠ 0)
    (hask : backend.ask store position length = (.error error, after)) :
    backend.fillJudged store position length = (⟨[], some error⟩, after) := by
  rw [fillJudged, if_neg hpos]
  split
  · rename_i hmade
    rw [hask] at hmade
    obtain ⟨hsame, rfl⟩ := Prod.mk.inj hmade
    obtain rfl := Except.error.inj hsame
    rfl
  · rename_i hmade
    rw [hask] at hmade
    cases (Prod.mk.inj hmade).1

theorem fillJudged_ok {bytes : List UInt8} (hpos : length ≠ 0)
    (hask : backend.ask store position length = (.ok bytes, after)) :
    backend.fillJudged store position length = andThen (⟨bytes, none⟩, after) fun backend =>
      backend.fillJudged store (position + bytes.length) (length - bytes.length) := by
  rw [fillJudged, if_neg hpos]
  split
  · rename_i hmade
    rw [hask] at hmade
    cases (Prod.mk.inj hmade).1
  · rename_i hmade
    rw [hask] at hmade
    obtain ⟨hsame, rfl⟩ := Prod.mk.inj hmade
    obtain rfl := Except.ok.inj hsame
    rfl

end Judged

/-- Fill the pieces one after another, judging every answer, until one fails. -/
def fillAllJudged (backend : Backend σ) : List Piece → Gathered × Backend σ
  | [] => (⟨[], none⟩, backend)
  | piece :: pieces =>
      andThen (backend.fillJudged piece.store piece.start piece.length) fun backend =>
        backend.fillAllJudged pieces

/-- Filling asks for bytes and for nothing else. -/
theorem fillAll_grows (backend : Backend σ) (pieces : List Piece) :
    ∃ more, (backend.fillAll pieces).2.requests = backend.requests ++ more :=
  (fillAll_asks pieces backend).requests

/-- What a request leaves behind. A store that does not exist delivers nothing, and nothing is
noted. -/
theorem read_noted {backend after : Backend σ} {store : StoreRef} {position length : Nat}
    {answer : Except StoreFailure Reply}
    (hread : backend.read store position length = (answer, after)) :
    ∃ calls, after.requests = backend.requests ++ calls ∧
      ((calls = [] ∧ answer = .ok (Reply.honest [])) ∨
        calls = [.storeRead store.number position length (answer.map Reply.count)]) := by
  by_cases hstored : store.number < backend.stores.size
  · have hrequests := read_requests hstored position length
    rw [hread] at hrequests
    exact ⟨_, hrequests, Or.inr rfl⟩
  · have hnone : backend.stores[store.number]? = none :=
      Array.getElem?_eq_none (Nat.le_of_not_lt hstored)
    simp only [read, hnone] at hread
    obtain ⟨rfl, rfl⟩ := Prod.mk.inj hread
    exact ⟨[], by simp, Or.inl ⟨rfl, rfl⟩⟩

/-- The two ways to fill a range, from one store. -/
theorem fill_compares (backend : Backend σ) (store : StoreRef) (position length : Nat) :
    ∃ calls, backend.Compares (backend.fill store position length)
      (backend.fillJudged store position length) calls := by
  fun_induction fill backend store position length with
  | case1 =>
      rw [fillJudged, if_pos rfl]
      exact ⟨[], .nothing _⟩
  | case2 backend position length hpos failure after hread =>
      obtain ⟨calls, hrequests, hcalls⟩ := read_noted hread
      have hask : backend.ask store position length = (.error failure, after) := by
        simp only [ask, hread]
      rw [fillJudged_error hpos hask]
      obtain ⟨-, hnone⟩ | rfl := hcalls
      · cases hnone
      · exact ⟨_, .alike hrequests (by simp [Event.overclaims, Except.map]) rfl rfl rfl rfl⟩
  | case3 backend position length hpos reply after hread hcount =>
      obtain ⟨calls, hrequests, hcalls⟩ := read_noted hread
      have hask : backend.ask store position length =
          (.error (Fault.badCount store.name reply.count length), after) := by
        simp only [ask, hread]
        rw [if_pos (Or.inl hcount)]
      rw [fillJudged_error hpos hask]
      refine ⟨calls, .alike hrequests ?_ ?_ rfl rfl rfl⟩
      · obtain ⟨rfl, -⟩ | rfl := hcalls <;> simp [Event.overclaims, Except.map, hcount]
      · obtain ⟨rfl, -⟩ | rfl := hcalls <;> simp [Event.accepted, Except.map, hcount]
  | case4 backend position length hpos reply after hread hcount taken rest last hrest ih =>
      obtain ⟨calls, hrequests, hcalls⟩ := read_noted hread
      obtain ⟨-, hnone⟩ | rfl := hcalls
      · exact absurd (congrArg Reply.count (Except.ok.inj hnone)) hcount
      · by_cases hover : length < reply.count
        · have hask : backend.ask store position length =
              (.error (Fault.badCount store.name reply.count length), after) := by
            simp only [ask, hread]
            rw [if_pos (Or.inr hover)]
          obtain ⟨more, hmore⟩ :=
            (after.fill_asks store (position + taken) (length - taken)).requests
          rw [hrest] at hmore
          have hsome : reply.front taken ++ rest.bytes ≠ [] := by
            apply List.ne_nil_of_length_pos
            rw [List.length_append, Reply.length_front]
            omega
          rw [fillJudged_error hpos hask]
          exact ⟨[] ++ _ :: more, .ahead (by rw [hmore, hrequests]; simp) (by simp)
            (by simpa [Event.overclaims, Except.map] using hover) hrequests rfl rfl rfl rfl hsome⟩
        · have htaken : taken = reply.count := Nat.min_eq_left (Nat.le_of_not_lt hover)
          have hask : backend.ask store position length = (.ok (reply.front taken), after) := by
            simp only [ask, hread]
            rw [if_neg (by omega), htaken]
          have hfirst : backend.Compares (⟨reply.front taken, none⟩, after)
              (⟨reply.front taken, none⟩, after)
              [.storeRead store.number position length (.ok reply.count)] := by
            refine .alike hrequests ?_ ?_ rfl rfl rfl
            · simpa [Event.overclaims] using hover
            · simp [Event.accepted, htaken]
              omega
          have hrun : (⟨reply.front taken ++ rest.bytes, rest.failure⟩, last) =
              andThen (⟨reply.front taken, none⟩, after) fun backend =>
                backend.fill store (position + taken) (length - taken) := by
            simp only [andThen, hrest]
          rw [fillJudged_ok hpos hask, Reply.length_front, hrun]
          exact hfirst.andThen
            (fun backend => (backend.fill_asks store (position + taken) (length - taken)).requests)
            fun _ => ih

/-- The two ways to fill pieces, from any number of stores. -/
theorem fillAll_compares (backend : Backend σ) (pieces : List Piece) :
    ∃ calls, backend.Compares (backend.fillAll pieces) (backend.fillAllJudged pieces) calls := by
  induction pieces generalizing backend with
  | nil => exact ⟨[], .nothing backend⟩
  | cons piece pieces ih =>
      obtain ⟨calls, hfirst⟩ := backend.fill_compares piece.store piece.start piece.length
      exact hfirst.andThen (fun backend => backend.fillAll_grows pieces) fun _ => ih _

end Backend

/-- Bytes in hand are answered, whatever came after them. -/
theorem Gathered.answer_of_bytes {got : Gathered} (hsome : got.bytes ≠ []) :
    got.answer = .ok got.bytes := by
  unfold answer
  cases got.failure with
  | none => rfl
  | some error => simp [hsome]

/-- Readings that are alike but for the words of a failure are answered alike. -/
theorem Gathered.answer_alike {got other : Gathered} (hbytes : other.bytes = got.bytes)
    (hfailure : other.failure.map Failure.kind = got.failure.map Failure.kind) :
    match other.answer with
    | .ok bytes => got.answer = .ok bytes
    | .error error => ∃ failure : Failure, got.answer = .error failure ∧
      failure.kind = error.kind := by
  unfold answer
  rw [hbytes]
  cases hother : other.failure with
  | none =>
      rw [hother] at hfailure
      rw [Option.map_eq_none_iff.mp hfailure.symm]
  | some error =>
      rw [hother] at hfailure
      obtain ⟨failure, hgot, hkind⟩ := Option.map_eq_some_iff.mp hfailure.symm
      rw [hgot]
      cases got.bytes.isEmpty with
      | true => exact ⟨failure, rfl, hkind⟩
      | false => rfl

variable [Store σ]

/-- What there is to be had for a cursor over a composition, if every answer of a store is judged as
under a cursor right over the store. -/
def Pool.judged (pool : Pool σ) (cursor : Cursor) (wanted : Nat) : Gathered × Backend σ :=
  pool.backend.fillAllJudged (cursor.block.pieces cursor.view.current wanted)

namespace World

/-- A read comes to what was gathered: the bytes before a failure, if there are any, or a failure of
the same kind, which moves nothing. -/
def ReadsAs (got : Gathered) (id : String) (cursor : Cursor)
    (outcome : Except Refusal Answer × World σ) : Prop :=
  match got.answer with
  | .ok bytes =>
      outcome.1 = .ok (.read (.read bytes)) ∧
        outcome.2.find? id = some (cursor.advance bytes.length)
  | .error error =>
      (∃ failure : Failure, outcome.1 = .error failure ∧ failure.kind = error.kind) ∧
        outcome.2.find? id = some cursor

variable {past : Pool σ} {world : World σ} {id : String} {cursor : Cursor}

/-- One read through a composition is what its pieces are filled with. -/
theorem apply_read_gathered (h : Ordered past world) (hfind : world.find? id = some cursor)
    (hcomposed : cursor.block.isComposed = true) {capacity : Nat} (hcapacity : 0 < capacity)
    (hahead : 0 < cursor.remaining) :
    let outcome := world.apply (.read id capacity)
    let got := world.pool.backend.fillAll
      (cursor.block.pieces cursor.view.current (min capacity cursor.remaining))
    outcome.2.requests = got.2.requests ∧
      match got.1.answer with
      | .ok bytes =>
          outcome.1 = .ok (.read (.read bytes)) ∧
            outcome.2.find? id = some (cursor.advance bytes.length)
      | .error error => outcome.1 = .error error ∧ outcome.2.find? id = some cursor := by
  have hsound := (h.focus hfind).1
  have hread := Pool.read_pieces (Backend.Alike.refl world.pool.backend) hsound (h.shows hfind)
    hcomposed (Cursor.wanted_eq hcapacity hahead)
  simp only [apply, withCursor, hfind]
  generalize world.pool.backend.fillAll _ = got at hread
  generalize world.pool.read cursor capacity = run at hread
  obtain ⟨made, pool⟩ := run
  obtain ⟨hanswer, halike⟩ := hread
  change made = _ at hanswer
  subst hanswer
  cases got.1.answer with
  | error error => exact ⟨halike.requests, rfl, hfind⟩
  | ok bytes => exact ⟨halike.requests, rfl, find?_update hfind _⟩

/-- The judged reading ends with the first answer that claims too much, and with a failure of the
system; the read that is made delivers more bytes than were in hand before that answer. -/
def Overruns (world : World σ) (judged : Gathered × Backend σ)
    (outcome : Except Refusal Answer × World σ) (calls : List Event) : Prop :=
  ∃ before call after error more, calls = before ++ call :: after ∧
    (∀ earlier ∈ before, earlier.overclaims = false) ∧ call.overclaims = true ∧
    judged.2.requests = world.requests ++ (before ++ [call]) ∧
    judged.1.bytes.length = sumOver Event.accepted before ∧
    judged.1.failure = some error ∧ error.kind = .system ∧
    more ≠ [] ∧ outcome.1 = .ok (.read (.read (judged.1.bytes ++ more)))

omit [Store σ] in
theorem Overruns.not_readsAs {judged : Gathered × Backend σ}
    {outcome : Except Refusal Answer × World σ} {calls : List Event}
    (h : world.Overruns judged outcome calls) : ¬ ReadsAs judged.1 id cursor outcome := by
  obtain ⟨before, call, after, error, more, -, -, -, -, -, -, -, hmore, hanswer⟩ := h
  intro hreads
  unfold ReadsAs at hreads
  cases hjudged : judged.1.answer with
  | ok bytes =>
      rw [hjudged] at hreads
      obtain rfl := Gathered.eq_of_answer hjudged
      have hsame := hanswer.symm.trans hreads.1
      simp [hmore] at hsame
  | error error =>
      rw [hjudged] at hreads
      obtain ⟨⟨failure, hfailed, -⟩, -⟩ := hreads
      rw [hanswer] at hfailed
      cases hfailed

/-- The judged reading of a composition beside the read that is made. -/
theorem read_compares (h : Ordered past world) (hfind : world.find? id = some cursor)
    (hcomposed : cursor.block.isComposed = true) {capacity : Nat} (hcapacity : 0 < capacity)
    (hahead : 0 < cursor.remaining) :
    let outcome := world.apply (.read id capacity)
    let judged := world.pool.judged cursor (min capacity cursor.remaining)
    ∃ calls, outcome.2.requests = world.requests ++ calls ∧
      ((∀ call ∈ calls, call.overclaims = false) ∧ ReadsAs judged.1 id cursor outcome ∧
          judged.2.requests = outcome.2.requests ∨
        world.Overruns judged outcome calls) := by
  intro outcome judged
  obtain ⟨hrequests, hanswer⟩ := apply_read_gathered h hfind hcomposed hcapacity hahead
  obtain ⟨calls, hcompares⟩ := world.pool.backend.fillAll_compares
    (cursor.block.pieces cursor.view.current (min capacity cursor.remaining))
  generalize world.pool.backend.fillAll _ = got at hrequests hanswer hcompares
  change Backend.Compares _ got judged calls at hcompares
  refine ⟨calls, ?_, ?_⟩
  · rw [hrequests]
    cases hcompares <;> assumption
  · cases hcompares with
    | alike _ hclaims _ hafter hbytes hfailure =>
        refine Or.inl ⟨hclaims, ?_, by rw [hafter, hrequests]⟩
        have hsame := Gathered.answer_alike hbytes hfailure
        unfold ReadsAs
        cases hjudged : judged.1.answer with
        | ok bytes =>
            rw [hjudged] at hsame
            rw [show got.1.answer = .ok bytes from hsame] at hanswer
            exact hanswer
        | error error =>
            rw [hjudged] at hsame
            obtain ⟨failure, hgot, hkind⟩ := hsame
            rw [hgot] at hanswer
            exact ⟨⟨failure, hanswer.1, hkind⟩, hanswer.2⟩
    | @ahead before after call more error _ hclaims hcall hjudged haccepted hfailure hkind hbytes
        hmore =>
        refine Or.inr ⟨before, call, after, error, more, rfl, hclaims, hcall, hjudged, haccepted,
          hfailure, hkind, hmore, ?_⟩
        have hsome : got.1.bytes ≠ [] := by simp [hbytes, hmore]
        rw [Gathered.answer_of_bytes hsome, hbytes] at hanswer
        exact hanswer.1

/-- A cursor right over a store asks once, and its read comes to what is judged of the answer. -/
theorem read_source_judged (h : Ordered past world) (hfind : world.find? id = some cursor)
    {header : Header} {store : StoreRef} (hsource : cursor.block = .source header store)
    {capacity : Nat} (hcapacity : 0 < capacity) (hahead : 0 < cursor.remaining) :
    let asked := world.pool.backend.ask store cursor.view.current (min capacity cursor.remaining)
    match asked.1 with
    | .ok bytes =>
        (world.apply (.read id capacity)).1 = .ok (.read (.read bytes)) ∧
          (world.apply (.read id capacity)).2.find? id = some (cursor.advance bytes.length)
    | .error error =>
        (world.apply (.read id capacity)).1 = .error error ∧
          (world.apply (.read id capacity)).2.find? id = some cursor := by
  have hsound := (h.focus hfind).1
  obtain ⟨hanswer, -⟩ :=
    Pool.read_gathered hsound (h.shows hfind) (Cursor.wanted_eq hcapacity hahead)
  have hasked : (world.pool.gathered cursor (min capacity cursor.remaining)).1.answer =
      (world.pool.backend.ask store cursor.view.current (min capacity cursor.remaining)).1 := by
    obtain ⟨block, view⟩ := cursor
    obtain rfl : block = .source header store := hsource
    exact (world.pool.gathered_source header store view _).2
  rw [hasked] at hanswer
  simp only [apply, withCursor, hfind]
  generalize world.pool.backend.ask store _ _ = asked at hanswer
  generalize world.pool.read cursor capacity = run at hanswer
  obtain ⟨made, pool⟩ := run
  change made = _ at hanswer
  subst hanswer
  cases asked.1 with
  | error error => exact ⟨rfl, hfind⟩
  | ok bytes => exact ⟨rfl, find?_update hfind _⟩

/-- In any reachable world, and whatever the stores answer. A read of a cursor right over a store
delivers what the store answers, or fails with a count of nothing or of too much. A read through a
composition comes to the same as if every answer were judged like that, in its bytes, in the kind of
its failure and in where it leaves the cursor, if and only if no answer claims more than was asked
for. The first one that does would end the judged reading with the bytes before it and a failure of
the system; the read takes it for a full answer and delivers more. -/
theorem composed_reads_judge (operations : List (Operation σ)) :
    let world := run {} operations
    (∀ id cursor header store capacity, world.find? id = some cursor →
      cursor.block = .source header store → 0 < capacity → 0 < cursor.remaining →
      let outcome := world.apply (.read id capacity)
      match (world.pool.backend.ask store cursor.view.current (min capacity cursor.remaining)).1
        with
      | .ok bytes =>
          outcome.1 = .ok (.read (.read bytes)) ∧
            outcome.2.find? id = some (cursor.advance bytes.length)
      | .error error => outcome.1 = .error error ∧ outcome.2.find? id = some cursor) ∧
    (∀ id cursor capacity, world.find? id = some cursor → cursor.block.isComposed = true →
      0 < capacity → 0 < cursor.remaining →
      let outcome := world.apply (.read id capacity)
      let judged := world.pool.judged cursor (min capacity cursor.remaining)
      ∃ calls, outcome.2.requests = world.requests ++ calls ∧
        (ReadsAs judged.1 id cursor outcome ↔ ∀ call ∈ calls, call.overclaims = false) ∧
        (ReadsAs judged.1 id cursor outcome → judged.2.requests = outcome.2.requests) ∧
        (¬ ReadsAs judged.1 id cursor outcome → world.Overruns judged outcome calls)) := by
  intro world
  have h : Ordered {} world := run_empty_ordered operations
  constructor
  · intro id cursor header store capacity hfind hsource hcapacity hahead
    exact read_source_judged h hfind hsource hcapacity hahead
  · intro id cursor capacity hfind hcomposed hcapacity hahead outcome judged
    obtain ⟨calls, hrequests, ⟨hclaims, hreads, hsame⟩ | hover⟩ :=
      read_compares h hfind hcomposed hcapacity hahead
    · exact ⟨calls, hrequests, iff_of_true hreads hclaims, fun _ => hsame,
        fun hnot => absurd hreads hnot⟩
    · have hnot : ¬ ReadsAs judged.1 id cursor outcome := hover.not_readsAs
      refine ⟨calls, hrequests, iff_of_false hnot ?_, fun hreads => absurd hreads hnot,
        fun _ => hover⟩
      obtain ⟨before, call, after, error, more, rfl, -, hcall, -⟩ := hover
      intro hclaims
      have hhonest := hclaims call (by simp)
      rw [hcall] at hhonest
      cases hhonest

/-- Two stores end to end. The first one claims two bytes more than it is asked for. A third one,
with a cursor of its own, claims as much. -/
def boasting : List (Operation ScriptStore) :=
  let plan (name : String) (reads : List ReadAction) : Blueprint ScriptStore :=
    { store := { name, label := name, data := .cyclic 10, reads }, settings := .compact }
  [.build "a" (plan "first" [.over 2]), .build "b" (plan "second" []),
    .build "c" (plan "third" [.over 2]), .concat "a" "b" none]

/-- The same answer fails a direct read with nothing in hand, and passes in a composed one. -/
theorem composed_reads_judge_boasting :
    let world := run {} boasting
    ∃ cursor, world.find? "a" = some cursor ∧ cursor.block.isComposed = true ∧
      (world.apply (.read "a" 4)).1 = .ok (.read (.read [0, 1, 2, 3])) ∧
      (world.apply (.read "c" 4)).1 = .error (Fault.badCount "third" 6 4) ∧
      (world.pool.judged cursor 4).1 = ⟨[], some (Fault.badCount "first" 6 4)⟩ ∧
      ¬ ReadsAs (world.pool.judged cursor 4).1 "a" cursor (world.apply (.read "a" 4)) := by
  intro world
  have hfound : ((run {} boasting).find? "a").map (fun cursor =>
      let judged := ((run {} boasting).pool.judged cursor 4).1
      (cursor.block.isComposed, judged.bytes, judged.failure)) =
      some (true, [], some (.fault (.badCount "first" 6 4))) := by decide +kernel
  have hread : ((run {} boasting).apply (.read "a" 4)).1 = .ok (.read (.read [0, 1, 2, 3])) := by
    decide +kernel
  have hdirect : ((run {} boasting).apply (.read "c" 4)).1 =
      .error (Fault.badCount "third" 6 4) := by decide +kernel
  obtain ⟨cursor, hfind, hjudged⟩ := Option.map_eq_some_iff.mp hfound
  obtain ⟨hcomposed, hbytes, hfailure⟩ := by simpa only [Prod.mk.injEq] using hjudged
  have hgot : (world.pool.judged cursor 4).1 = ⟨[], some (Fault.badCount "first" 6 4)⟩ :=
    congrArg₂ Gathered.mk hbytes hfailure
  refine ⟨cursor, hfind, hcomposed, hread, hdirect, hgot, ?_⟩
  rw [hgot]
  rintro ⟨⟨failure, hfailed, -⟩, -⟩
  rw [hread] at hfailed
  cases hfailed

end World

end SharedStream
