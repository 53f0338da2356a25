import Mathlib.Data.List.Induction
import SharedStream.Proofs.Probes
/-!
A store behind a fault panel as a stand-in for the same bytes in memory. Once every injected failure
is called off, reads of the two agree up to the chunk limit, at every position but the largest one.
That position doubles as the mark for no failure, so that a read there always fails as an injected
one.
-/

namespace SharedStream

namespace PanelStore

/-- What can be done to the panel of a store, and to the store. -/
inductive Handling where
  | breakFrom (position : Nat)
  | heal
  | setChunk (limit : Nat)
  | read (position length : Nat)
  | release (position : Nat)

def handle (store : PanelStore) : Handling → PanelStore
  | .breakFrom position => { store with panel := store.panel.breakFrom position }
  | .heal => { store with panel := store.panel.heal }
  | .setChunk limit => { store with panel := store.panel.setChunk limit }
  | .read position length => (Store.readAt store position length).2
  | .release position => (Store.release store position).2

/-- What a history makes of a new store. -/
def after (data : Data) (history : List Handling) : PanelStore := history.foldl handle { data }

/-- No failure was injected that was not called off later. -/
def Mended (history : List Handling) : Prop :=
  ∀ before position later, history = before ++ .breakFrom position :: later → .heal ∈ later

/-- The chunk limit that was set last, if there is one. A limit of zero counts as one. -/
def limit? (history : List Handling) : Option Nat :=
  history.reverse.findSome? fun
    | .setChunk limit => some (max limit 1)
    | _ => none

/-- An answer that stands in for another under a chunk limit: the same bytes and count where the
limit does not bind, as many bytes as it allows where it does, and no position at which only one of
the two finds nothing. -/
inductive StandsIn (limit : Option Nat) :
    (plain answer : Except StoreFailure Reply) → Prop where
  | whole {reply : Reply} (hloose : ∀ chunk, limit = some chunk → reply.count ≤ chunk) :
      StandsIn limit (.ok reply) (.ok reply)
  | chunk {reply : Reply} {chunk : Nat} (hlimit : limit = some chunk)
      (hbinds : chunk < reply.count) :
      StandsIn limit (.ok reply) (.ok ⟨reply.bytes.take chunk, chunk⟩)
  | refused {failure other : StoreFailure} (hkind : failure.kind = .notFound)
      (hother : other.kind = .notFound) : StandsIn limit (.error failure) (.error other)

variable {store : PanelStore} {data : Data} {history : List Handling} {position length : Nat}

/-! ### Histories -/

theorem after_append_singleton (data : Data) (history : List Handling) (handling : Handling) :
    after data (history ++ [handling]) = (after data history).handle handling := by
  simp only [after, List.foldl_append, List.foldl_cons, List.foldl_nil]

/-- The last handling of a history that is split at an earlier one, or there. -/
theorem split_append_singleton {before later : List Handling} {last middle : Handling}
    (h : history ++ [last] = before ++ middle :: later) :
    (later = [] ∧ last = middle) ∨
      ∃ init, later = init ++ [last] ∧ history = before ++ middle :: init := by
  obtain rfl | ⟨init, final, rfl⟩ := List.eq_nil_or_concat later
  · obtain ⟨-, hlast⟩ := List.append_inj' h rfl
    exact .inl ⟨rfl, List.singleton_inj.mp hlast⟩
  · rw [List.concat_eq_append, ← List.cons_append, ← List.append_assoc] at h
    obtain ⟨hinit, hlast⟩ := List.append_inj' h rfl
    obtain rfl := List.singleton_inj.mp hlast
    exact .inr ⟨init, List.concat_eq_append, hinit⟩

theorem Mended.nil : Mended [] := by
  intro before position later hsplit
  cases before <;> cases hsplit

/-- Calling off mends whatever was done before. -/
theorem Mended.heal (history : List Handling) : Mended (history ++ [.heal]) := by
  intro before position later hsplit
  obtain ⟨-, hlast⟩ | ⟨init, rfl, -⟩ := split_append_singleton hsplit
  · cases hlast
  · exact List.mem_append_right _ (List.mem_singleton_self _)

theorem Mended.append_singleton {last : Handling} (h : Mended history)
    (hlast : ∀ position, last ≠ .breakFrom position) : Mended (history ++ [last]) := by
  intro before position later hsplit
  obtain ⟨-, hbroken⟩ | ⟨init, rfl, hinit⟩ := split_append_singleton hsplit
  · exact absurd hbroken (hlast position)
  · exact List.mem_append_left _ (h before position init hinit)

/-- What was called off was so before the last handling, if that one calls nothing off. -/
theorem Mended.init {last : Handling} (h : Mended (history ++ [last])) (hlast : last ≠ .heal) :
    Mended history := by
  intro before position later hsplit
  have hcalled : .heal ∈ later ++ [last] := h before position (later ++ [last]) (by simp [hsplit])
  simp only [List.mem_append, List.mem_singleton] at hcalled
  exact hcalled.resolve_right hlast.symm

theorem failFrom_readAt (store : PanelStore) (position length : Nat) :
    (store.readAt position length).2.panel.failFrom = store.panel.failFrom := by
  rw [readAt]
  split <;> rfl

theorem data_after (data : Data) (history : List Handling) : (after data history).data = data := by
  induction history using List.reverseRecOn with
  | nil => rfl
  | append_singleton history handling ih =>
      rw [after_append_singleton]
      cases handling with
      | read position length => exact (data_readAt ..).trans ih
      | breakFrom position => exact ih
      | heal => exact ih
      | setChunk limit => exact ih
      | release position => exact ih

/-- A mended store carries the mark for no failure. The induction is on the history from its end: a
last handling either calls off every failure or leaves the failure point where it was. -/
theorem failFrom_after (data : Data) (h : Mended history) :
    (after data history).panel.failFrom = maxOffset := by
  induction history using List.reverseRecOn with
  | nil => rfl
  | append_singleton history handling ih =>
      rw [after_append_singleton]
      cases handling with
      | breakFrom position => exact absurd (h history position [] rfl) List.not_mem_nil
      | heal => rfl
      | setChunk limit => exact ih (h.init nofun)
      | read position length => exact (failFrom_readAt ..).trans (ih (h.init nofun))
      | release position => exact ih (h.init nofun)

theorem limit?_append_singleton (history : List Handling) (handling : Handling) :
    limit? (history ++ [handling]) =
      match handling with
      | .setChunk limit => some (max limit 1)
      | _ => limit? history := by
  rw [limit?, List.reverse_append, List.reverse_singleton, List.singleton_append,
    List.findSome?_cons]
  cases handling <;> rfl

theorem chunkLimit_after (data : Data) (history : List Handling) :
    (after data history).panel.chunkLimit = (limit? history).getD maxOffset := by
  induction history using List.reverseRecOn with
  | nil => rfl
  | append_singleton history handling ih =>
      rw [after_append_singleton, limit?_append_singleton]
      cases handling with
      | setChunk limit => rfl
      | read position length => exact (chunkLimit_readAt ..).trans ih
      | breakFrom position => exact ih
      | heal => exact ih
      | release position => exact ih

/-! ### Single reads -/

/-- A read that fails is not counted. -/
theorem readAt_of_error {failure : StoreFailure}
    (h : (store.readAt position length).1 = .error failure) :
    (store.readAt position length).2 = store := by
  rw [readAt] at h ⊢
  cases hread : store.read position length with
  | error failure => rfl
  | ok reply =>
      rw [hread] at h
      cases h

/-- Of what is wanted and there, a healthy store gives one chunk. -/
theorem readAt_inside (hhealthy : store.panel.failFrom = maxOffset)
    (hlength : store.data.length ≤ maxOffset) (hposition : position < maxOffset)
    (hinside : position ≤ store.data.length) :
    (store.readAt position length).1 =
      .ok (.honest ((store.data.slice position length).take store.panel.chunkLimit)) := by
  have hbytes : store.data.slice position
        (min length (min (maxOffset - position) store.panel.chunkLimit)) =
      (store.data.slice position length).take store.panel.chunkLimit := by
    rw [store.data.slice_of_le position (Nat.min_le_left ..), List.take_eq_take_iff,
      Data.length_slice]
    omega
  rw [readAt_intact hinside hlength (hhealthy ▸ hposition), hhealthy, hbytes]

theorem readAt_beyond (hhealthy : store.panel.failFrom = maxOffset)
    (hposition : position < maxOffset) (hbeyond : store.data.length < position) (length : Nat) :
    (store.readAt position length).1 =
      .error ⟨.notFound, s!"ProbeStore::read_at position {position} out of range", none⟩ := by
  have hstop : store.readStop position length < position := by
    simp only [readStop]
    omega
  rw [readAt, read, hhealthy, if_neg (Nat.not_le_of_lt hposition), if_pos hstop]

/-- One chunk of an honest answer stands in for it. -/
theorem StandsIn.ofChunk {limit : Option Nat} {bytes : List UInt8}
    (hlength : bytes.length ≤ maxOffset) :
    StandsIn limit (.ok (.honest bytes)) (.ok (.honest (bytes.take (limit.getD maxOffset)))) := by
  cases limit with
  | none =>
      rw [Option.getD_none, List.take_of_length_le hlength]
      exact .whole nofun
  | some chunk =>
      rw [Option.getD_some]
      obtain hbinds | hloose := Nat.lt_or_ge chunk bytes.length
      · have hcount : (bytes.take chunk).length = chunk :=
          List.length_take_of_le (Nat.le_of_lt hbinds)
        rw [Reply.honest, Reply.honest, hcount]
        exact .chunk rfl hbinds
      · rw [List.take_of_length_le hloose]
        exact .whole fun other hother => Option.some.inj hother ▸ hloose

theorem StandsIn.kind_eq {limit : Option Nat} {plain : Except StoreFailure Reply}
    {failure : StoreFailure} (h : StandsIn limit plain (.error failure)) :
    failure.kind = .notFound := by
  cases h with
  | refused _ hother => exact hother

/-- Below the largest position a healthy store stands in for its bytes in memory. -/
theorem standsIn_of_lt (hdata : store.data.length ≤ maxOffset)
    (hhealthy : store.panel.failFrom = maxOffset) {limit : Option Nat}
    (hlimit : store.panel.chunkLimit = limit.getD maxOffset) (hposition : position < maxOffset) :
    StandsIn limit (Store.readAt (⟨store.data⟩ : MemoryStore) position length).1
      (Store.readAt store position length).1 := by
  change StandsIn limit ((⟨store.data⟩ : MemoryStore).read position length)
    (store.readAt position length).1
  rw [MemoryStore.read]
  split
  · rename_i hbeyond
    rw [readAt_beyond hhealthy hposition hbeyond]
    exact .refused rfl rfl
  · rename_i hinside
    have hbytes : (store.data.slice position length).length ≤ maxOffset := by
      rw [Data.length_slice]
      omega
    rw [readAt_inside hhealthy hdata hposition (Nat.le_of_not_lt hinside), hlimit]
    exact .ofChunk hbytes

/-- After any history, a read that fails leaves the store as it is, its count of reads included. If
every failure was called off, then below the largest position a read comes to what the same bytes in
memory give: as much of it as the chunk limit allows, and nothing found exactly where nothing is. At
the largest position it fails as if a failure were injected there, and stands in for nothing. -/
theorem healthy_reads (data : Data) (hlength : data.length ≤ maxOffset)
    (history : List Handling) :
    let store := after data history
    (∀ position length failure, (Store.readAt store position length).1 = .error failure →
      (Store.readAt store position length).2 = store) ∧
    (Mended history → ∀ position ≤ maxOffset, ∀ length,
      let plain := (Store.readAt (⟨data⟩ : MemoryStore) position length).1
      let answer := (Store.readAt store position length).1
      (StandsIn (limit? history) plain answer ↔ position < maxOffset) ∧
        (position = maxOffset → answer = .error (injectedFailure position))) := by
  intro store
  refine ⟨fun position length failure herror => readAt_of_error herror, ?_⟩
  intro hmended position hposition length plain answer
  have hdata : store.data = data := data_after data history
  have hhealthy : store.panel.failFrom = maxOffset := failFrom_after data hmended
  have htop : position = maxOffset → answer = .error (injectedFailure position) := by
    intro htop
    have hfaulty : store.panel.failFrom ≤ position := by omega
    exact congrArg Prod.fst (readAt_faulty hfaulty length)
  refine ⟨⟨fun hstands => ?_, fun hbelow => ?_⟩, htop⟩
  · by_contra hnot
    rw [htop (by omega)] at hstands
    cases hstands.kind_eq
  · have hstands : StandsIn (limit? history)
        (Store.readAt (⟨store.data⟩ : MemoryStore) position length).1 answer :=
      standsIn_of_lt (hdata ▸ hlength) hhealthy (chunkLimit_after data history) hbelow
    rwa [hdata] at hstands

/-- A failure that was injected and met, and then called off. -/
def mending : List Handling := [.breakFrom 3, .read 5 4, .heal]

theorem mending_mended : Mended mending := Mended.heal [.breakFrom 3, .read 5 4]

/-- Afterwards two bytes at a time stand in for five. -/
theorem healthy_reads_mended :
    let data := Data.cyclic 10
    let history := mending ++ [.setChunk 2]
    data.length ≤ maxOffset ∧ Mended history ∧
      (Store.readAt (⟨data⟩ : MemoryStore) 4 5).1 = .ok (.honest [4, 5, 6, 7, 8]) ∧
      (Store.readAt (after data history) 4 5).1 = .ok (.honest [4, 5]) ∧
      StandsIn (some 2) (.ok (.honest [4, 5, 6, 7, 8])) (.ok (.honest [4, 5])) := by
  intro data history
  have hlength : data.length ≤ maxOffset := by decide
  have hmended : Mended history := mending_mended.append_singleton nofun
  obtain ⟨-, hreads⟩ := healthy_reads data hlength history
  obtain ⟨hstands, -⟩ := hreads hmended 4 (by decide) 5
  have hbelow : 4 < maxOffset := by decide
  exact ⟨hlength, hmended, rfl, rfl, hstands.mpr hbelow⟩

/-- At the largest position ten bytes in memory have nothing to be found, but behind a panel there
is a failure, though none was injected, or none that was not called off. -/
theorem healthy_reads_topmost :
    let data := Data.cyclic 10
    ∀ history ∈ [[], mending],
      let plain := (Store.readAt (⟨data⟩ : MemoryStore) maxOffset 1).1
      let answer := (Store.readAt (after data history) maxOffset 1).1
      Mended history ∧
        plain.mapError StoreFailure.kind = .error .notFound ∧
        answer = .error (injectedFailure maxOffset) ∧
        ¬ StandsIn (limit? history) plain answer := by
  intro data history hmem
  have hmended : Mended history := by
    simp only [List.mem_cons, List.not_mem_nil, or_false] at hmem
    rcases hmem with rfl | rfl
    · exact Mended.nil
    · exact mending_mended
  have hanswer : (Store.readAt (after data history) maxOffset 1).1 =
      .error (injectedFailure maxOffset) := by
    have hhealthy := failFrom_after data hmended
    exact congrArg Prod.fst (readAt_faulty (Nat.le_of_eq hhealthy) 1)
  refine ⟨hmended, rfl, hanswer, ?_⟩
  rw [hanswer]
  intro hstands
  cases hstands.kind_eq

end PanelStore

end SharedStream
