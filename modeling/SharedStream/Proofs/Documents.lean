import Mathlib.Data.List.Nodup
import SharedStream.Toml.Document
/-!
What a text of TOML can say. Whatever the scanners read and however the statements of a document
build on each other, no table has a key twice and every integer fits into 64 bits. With that, the
library that scans texts in this way keeps the rules of a library.
-/

namespace SharedStream.Toml

namespace Keyed

variable {α : Type} {entries : List (String × α)} {key : String} {item : α}

theorem nil : Keyed ([] : List (String × α)) := List.nodup_nil

theorem append_new (h : Keyed entries) (hnew : entries.lookup key = none) :
    Keyed (entries ++ [(key, item)]) := by
  rw [Keyed, List.map_append, List.map_singleton, List.nodup_append]
  refine ⟨h, List.nodup_singleton _, fun other hmem single hsingle heq => ?_⟩
  obtain ⟨entry, hentry, rfl⟩ := List.mem_map.mp hmem
  have hkey : key = entry.1 := (List.mem_singleton.mp hsingle).symm.trans heq.symm
  have hdiffers := List.lookup_eq_none_iff.mp hnew entry hentry
  simp [hkey] at hdiffers

theorem of_cons (h : Keyed ((key, item) :: entries)) :
    entries.lookup key = none ∧ Keyed entries := by
  obtain ⟨hfresh, hrest⟩ := List.nodup_cons.mp h
  refine ⟨List.lookup_eq_none_iff.mpr fun entry hmem => bne_iff_ne.mpr fun heq => ?_, hrest⟩
  subst heq
  exact hfresh (List.mem_map.mpr ⟨entry, hmem, rfl⟩)

theorem mem_of_lookup (h : entries.lookup key = some item) : (key, item) ∈ entries := by
  obtain ⟨before, after, rfl, -⟩ := List.lookup_eq_some_iff.mp h
  exact List.mem_append_right _ List.mem_cons_self

theorem lookup_of_mem (h : Keyed entries) (hmem : (key, item) ∈ entries) :
    entries.lookup key = some item := by
  induction entries with
  | nil => cases hmem
  | cons entry entries ih =>
      obtain ⟨hnone, hrest⟩ := h.of_cons
      rw [List.lookup_cons]
      cases hmem with
      | head => rw [beq_self_eq_true]
      | tail _ hmem =>
          have hfound := ih hrest hmem
          have hother : key ≠ entry.1 := by
            rintro rfl
            rw [hnone] at hfound
            cases hfound
          rw [beq_eq_false_iff_ne.mpr hother]
          exact hfound

end Keyed

theorem Value.WellFormed.lookup {entries : Table} {key : String} {value : Value}
    (h : (Value.table entries).WellFormed) (hlookup : entries.lookup key = some value) :
    value.WellFormed := by
  cases h with
  | table _ hvalues => exact hvalues _ (Keyed.mem_of_lookup hlookup)

/-- What every step keeps, a fold that comes to its end keeps. -/
theorem foldlM_keeps {α β : Type} {step : β → α → Option β} (holds : β → Prop)
    {items : List α}
    (hstep : ∀ before item after,
      item ∈ items → holds before → step before item = some after → holds after) :
    ∀ {before after : β}, holds before → items.foldlM step before = some after →
      holds after := by
  induction items with
  | nil =>
      intro before after h hafter
      cases hafter
      exact h
  | cons item items ih =>
      intro before after h hafter
      rw [List.foldlM_cons] at hafter
      obtain ⟨next, hnext, hrest⟩ := Option.bind_eq_some_iff.mp hafter
      exact ih (fun before item after hmem => hstep before item after (.tail _ hmem))
        (hstep _ _ _ List.mem_cons_self h hnext) hrest

/-! ### Scanners -/

namespace Scan

/-- Whatever the scanner takes off the front of an input has the property. -/
def Yields {α : Type} (piece : Scan α) (holds : α → Prop) : Prop :=
  ∀ input rest result, piece input = some (result, rest) → holds result

namespace Yields

variable {α β : Type} {piece other : Scan α} {holds : α → Prop} {becomes : β → Prop}

theorem of_pure {result : α} (h : holds result) : (pure result : Scan α).Yields holds := by
  intro input rest got hgot
  cases hgot
  exact h

theorem of_failure : (failure : Scan α).Yields holds := by
  intro input rest got hgot
  cases hgot

theorem bind {next : α → Scan β} (h : piece.Yields holds)
    (hnext : ∀ result, holds result → (next result).Yields becomes) :
    (piece >>= next).Yields becomes := by
  intro input rest got hgot
  obtain ⟨⟨first, middle⟩, hfirst, hsecond⟩ := Option.bind_eq_some_iff.mp hgot
  exact hnext first (h _ _ _ hfirst) _ _ _ hsecond

/-- What comes first may be anything. -/
theorem andThen {next : α → Scan β} (hnext : ∀ result, (next result).Yields becomes) :
    (piece >>= next).Yields becomes :=
  bind (fun _ _ _ _ => trivial : piece.Yields fun _ => True) fun result _ => hnext result

theorem map {f : α → β} (h : piece.Yields holds)
    (hf : ∀ result, holds result → becomes (f result)) : (f <$> piece).Yields becomes := by
  intro input rest got hgot
  obtain ⟨⟨first, middle⟩, hfirst, hmapped⟩ := Option.bind_eq_some_iff.mp hgot
  cases hmapped
  exact hf first (h _ _ _ hfirst)

theorem before {after : Scan β} (h : piece.Yields holds) : (piece <* after).Yields holds :=
  bind h fun _ hresult => andThen fun _ => of_pure hresult

theorem after {before : Scan β} (h : piece.Yields holds) : (before *> piece).Yields holds :=
  andThen fun _ => h

theorem orElse (h : piece.Yields holds) (hother : other.Yields holds) :
    (piece <|> other).Yields holds := by
  intro input rest got hgot
  cases hpiece : piece input with
  | some taken =>
      have heq : (piece <|> other) input = some taken := by
        show (piece input <|> other input) = some taken
        rw [hpiece]
        rfl
      rw [heq] at hgot
      cases hgot
      exact h _ _ _ hpiece
  | none =>
      have heq : (piece <|> other) input = other input := by
        show (piece input <|> other input) = other input
        rw [hpiece]
        rfl
      exact hother _ _ _ (heq ▸ hgot)

theorem filter {convert : α → Option β}
    (h : ∀ {result value}, convert result = some value → becomes value) :
    (Scan.filter piece convert).Yields becomes := by
  refine andThen fun result => ?_
  cases hconvert : convert result with
  | some value => exact of_pure (h hconvert)
  | none => exact of_failure

theorem manyWithin (h : piece.Yields holds) (rounds : Nat) :
    (Scan.manyWithin piece rounds).Yields fun results => ∀ result ∈ results, holds result := by
  induction rounds with
  | zero => exact of_pure (List.forall_mem_nil _)
  | succ rounds ih =>
      refine orElse (bind h fun first hfirst => bind ih fun others hothers => ?_)
        (of_pure (List.forall_mem_nil _))
      exact of_pure (List.forall_mem_cons.mpr ⟨hfirst, hothers⟩)

theorem many (h : piece.Yields holds) :
    (Scan.many piece).Yields fun results => ∀ result ∈ results, holds result :=
  fun input => manyWithin h input.length input

theorem separated1 {separator : Scan β} (h : piece.Yields holds) :
    (Scan.separated1 piece separator).Yields fun results => ∀ result ∈ results, holds result :=
  bind h fun _ hfirst => bind (many (after h)) fun _ hothers =>
    of_pure (List.forall_mem_cons.mpr ⟨hfirst, hothers⟩)

theorem separated {separator : Scan β} (h : piece.Yields holds) :
    (Scan.separated piece separator).Yields fun results => ∀ result ∈ results, holds result :=
  orElse (separated1 h) (of_pure (List.forall_mem_nil _))

end Yields

end Scan

/-! ### Tables under construction -/

/-- What a node will stand for can be a value, and no key of it stands twice. -/
inductive Node.WellFormed : Node → Prop
  | leaf {value : Value} : value.WellFormed → WellFormed (.leaf value)
  | table {origin : Origin} {entries : Entries} :
      Keyed entries → (∀ entry ∈ entries, entry.2.WellFormed) →
      WellFormed (.table origin entries)
  | tables {elements : List Entries} :
      (∀ entries ∈ elements, Keyed entries) →
      (∀ entries ∈ elements, ∀ entry ∈ entries, entry.2.WellFormed) →
      WellFormed (.tables elements)

namespace Entries

/-- No key stands twice, and every node is well formed. -/
structure WellFormed (entries : Entries) : Prop where
  keyed : Keyed entries
  nodes : ∀ entry ∈ entries, entry.2.WellFormed

namespace WellFormed

variable {entries inner : Entries} {key : String} {node : Node} {origin : Origin}
  {elements : List Entries}

theorem nil : WellFormed [] := ⟨Keyed.nil, List.forall_mem_nil _⟩

theorem as_node (h : entries.WellFormed) : (Node.table origin entries).WellFormed :=
  .table h.keyed h.nodes

theorem of_node (h : (Node.table origin entries).WellFormed) : entries.WellFormed := by
  cases h with
  | table hkeyed hnodes => exact ⟨hkeyed, hnodes⟩

theorem as_nodes (h : ∀ entries ∈ elements, entries.WellFormed) :
    (Node.tables elements).WellFormed :=
  .tables (fun entries hmem => (h entries hmem).keyed) fun entries hmem => (h entries hmem).nodes

theorem of_nodes (h : (Node.tables elements).WellFormed) :
    ∀ entries ∈ elements, entries.WellFormed := by
  cases h with
  | tables hkeyed hnodes => exact fun entries hmem => ⟨hkeyed entries hmem, hnodes entries hmem⟩

theorem lookup (h : entries.WellFormed) (hlookup : entries.lookup key = some node) :
    node.WellFormed :=
  h.nodes _ (Keyed.mem_of_lookup hlookup)

theorem append_new (h : entries.WellFormed) (hnew : entries.lookup key = none)
    (hnode : node.WellFormed) : WellFormed (entries ++ [(key, node)]) :=
  ⟨h.keyed.append_new hnew,
    List.forall_mem_append.mpr ⟨h.nodes, List.forall_mem_singleton.mpr hnode⟩⟩

theorem replace (h : entries.WellFormed) (hnode : node.WellFormed) :
    (entries.replace key node).WellFormed := by
  refine ⟨?_, fun entry hmem => ?_⟩
  · have hkeys : (entries.replace key node).map Prod.fst = entries.map Prod.fst := by
      rw [Entries.replace, List.map_map]
      refine List.map_congr_left fun entry _ => ?_
      by_cases hkey : entry.1 = key <;> simp [hkey]
    exact (congrArg List.Nodup hkeys).mpr h.keyed
  · obtain ⟨before, hbefore, rfl⟩ := List.mem_map.mp hmem
    by_cases hkey : before.1 = key
    · rwa [if_pos hkey]
    · rw [if_neg hkey]
      exact h.nodes before hbefore

/-- A change at the end of a path that keeps tables well formed does so from the top. By induction
on the path: on the way, the table below replaces the one that stood there. -/
theorem descend {dotted : Bool} {change : Origin → Entries → Option Entries}
    (hchange : ∀ origin before after, Entries.WellFormed before →
      change origin before = some after → after.WellFormed) (path : List String) :
    ∀ {origin : Origin} {before after : Entries}, before.WellFormed →
      Entries.descend dotted change path origin before = some after → after.WellFormed := by
  induction path with
  | nil => exact fun h hafter => hchange _ _ _ h hafter
  | cons key path ih =>
      intro origin before after h hafter
      rw [Entries.descend] at hafter
      split at hafter
      · rename_i hnew
        obtain ⟨inner, hinner, rfl⟩ := Option.map_eq_some_iff.mp hafter
        exact h.append_new hnew (ih nil hinner).as_node
      · cases hafter
      · rename_i elements hfound
        have helements := of_nodes (h.lookup hfound)
        split at hafter
        · cases hafter
        · rename_i last hlast
          obtain ⟨inner, hinner, rfl⟩ := Option.map_eq_some_iff.mp hafter
          refine h.replace (as_nodes (List.forall_mem_append.mpr ⟨fun entries hmem => ?_, ?_⟩))
          · exact helements entries ((List.dropLast_sublist _).subset hmem)
          · have hwas := helements last (List.mem_of_getLast? hlast)
            exact List.forall_mem_singleton.mpr (ih hwas hinner)
      · rename_i hfound
        split at hafter
        · cases hafter
        · obtain ⟨inner, hinner, rfl⟩ := Option.map_eq_some_iff.mp hafter
          exact h.replace (ih (of_node (h.lookup hfound)) hinner).as_node

theorem insert {place keys : List String} {value : Value} {after : Entries}
    (h : entries.WellFormed) (hvalue : value.WellFormed)
    (hafter : entries.insert place keys value = some after) : after.WellFormed := by
  unfold Entries.insert at hafter
  split at hafter
  · cases hafter
  · refine descend (fun _ _ _ hbefore =>
      descend (fun origin before after hbefore hadd => ?_) _ hbefore) place h hafter
    split at hadd
    · cases hadd
    · split at hadd
      · cases hadd
      · rename_i hnew
        cases hadd
        exact hbefore.append_new (Option.not_isSome_iff_eq_none.mp hnew) (.leaf hvalue)

theorem openTable {place : List String} {after : Entries} (h : entries.WellFormed)
    (hafter : entries.openTable place = some after) : after.WellFormed := by
  unfold Entries.openTable at hafter
  split at hafter
  · cases hafter
  · refine descend (fun _ before after hbefore hopen => ?_) _ h hafter
    split at hopen
    · rename_i hnew
      cases hopen
      exact hbefore.append_new hnew nil.as_node
    · rename_i hfound
      cases hopen
      exact hbefore.replace (of_node (hbefore.lookup hfound)).as_node
    · cases hopen

theorem openElement {place : List String} {after : Entries} (h : entries.WellFormed)
    (hafter : entries.openElement place = some after) : after.WellFormed := by
  unfold Entries.openElement at hafter
  split at hafter
  · cases hafter
  · refine descend (fun _ before after hbefore hopen => ?_) _ h hafter
    split at hopen
    · rename_i hnew
      cases hopen
      exact hbefore.append_new hnew (as_nodes (List.forall_mem_singleton.mpr nil))
    · rename_i hfound
      cases hopen
      exact hbefore.replace (as_nodes (List.forall_mem_append.mpr
        ⟨of_nodes (hbefore.lookup hfound), List.forall_mem_singleton.mpr nil⟩))
    · cases hopen

end WellFormed

end Entries

theorem entryValues_eq_map (entries : Entries) :
    entryValues entries = entries.map fun entry => (entry.1, entry.2.value) := by
  induction entries with
  | nil => rfl
  | cons entry entries ih => rw [entryValues, ih, List.map_cons]

theorem elementValues_eq_map (elements : List Entries) :
    elementValues elements = elements.map fun entries => .table (entryValues entries) := by
  induction elements with
  | nil => rfl
  | cons entries elements ih => rw [elementValues, ih, List.map_cons]

theorem Keyed.entryValues {entries : Entries} (h : Keyed entries) :
    Keyed (entryValues entries) := by
  rw [entryValues_eq_map, Keyed, List.map_map]
  exact h

/-- What has been put together without a key given twice stands for a value. -/
theorem Node.WellFormed.value {node : Node} (h : node.WellFormed) : node.value.WellFormed := by
  induction h with
  | leaf hvalue => rwa [Node.value]
  | table hkeyed _ ih =>
      rw [Node.value]
      refine .table hkeyed.entryValues fun entry hmem => ?_
      rw [entryValues_eq_map] at hmem
      obtain ⟨before, hbefore, rfl⟩ := List.mem_map.mp hmem
      exact ih before hbefore
  | tables hkeyed _ ih =>
      rw [Node.value, elementValues_eq_map]
      refine .array fun element hmem => ?_
      obtain ⟨entries, hentries, rfl⟩ := List.mem_map.mp hmem
      refine .table (hkeyed entries hentries).entryValues fun entry hmem => ?_
      rw [entryValues_eq_map] at hmem
      obtain ⟨before, hbefore, rfl⟩ := List.mem_map.mp hmem
      exact ih entries hentries before hbefore

/-! ### Values and statements -/

namespace Scan

theorem integer_yields : integer.Yields fun value =>
    -0x8000000000000000 ≤ value ∧ value < 0x8000000000000000 := by
  refine .filter fun {value kept} hkept => ?_
  split at hkept
  · rename_i hfits
    cases hkept
    exact hfits
  · cases hkept

theorem scalar_yields : scalar.Yields Value.WellFormed := by
  have hany {α : Type} (piece : Scan α) : piece.Yields fun _ => True := fun _ _ _ _ => trivial
  refine .orElse (.map (hany string) fun text _ => .string text) (.orElse ?_ (.orElse ?_
    (.orElse ?_ (.orElse ?_ ?_))))
  · exact .map (hany dateTime) fun lexeme _ => .dateTime lexeme
  · exact .map (hany float) fun lexeme _ => .float lexeme
  · exact .map integer_yields fun value hfits => .integer hfits.1 hfits.2
  · exact .after (.of_pure (.boolean true))
  · exact .after (.of_pure (.boolean false))

variable {element : Scan Value}

theorem array_yields (h : element.Yields Value.WellFormed) :
    (array element).Yields Value.WellFormed := by
  have helements : Yields (do
      let elements ← separated1 (gap *> element <* gap) (char ',')
      let _ ← optional (char ',')
      return elements) fun elements => ∀ element ∈ elements, element.WellFormed :=
    .bind (.separated1 (.before (.after h))) fun _ hall => .andThen fun _ => .of_pure hall
  exact .andThen fun _ => .bind (.orElse helements (.of_pure (List.forall_mem_nil _)))
    fun _ hall => .andThen fun _ => .andThen fun _ => .of_pure (.array hall)

/-- An inline table is put together like a table of the document. -/
theorem inlineTable_yields (h : element.Yields Value.WellFormed) :
    (inlineTable element).Yields Value.WellFormed := by
  have hpair : Yields (do
      let keys ← path
      let _ ← char '='
      blanks
      let value ← element
      blanks
      return (keys, value)) fun pair => pair.2.WellFormed :=
    .andThen fun _ => .andThen fun _ => .andThen fun _ => .bind h fun _ hvalue =>
      .andThen fun _ => .of_pure hvalue
  refine .andThen fun _ => .bind (.separated hpair) fun pairs hpairs =>
    .andThen fun _ => .andThen fun _ => ?_
  dsimp only
  split
  · rename_i entries hentries
    refine .of_pure (Entries.WellFormed.as_node ?_).value
    exact foldlM_keeps Entries.WellFormed
      (fun before pair after hmem hbefore => hbefore.insert (hpairs pair hmem)) .nil hentries
  · exact .of_failure

theorem value_yields (depth : Nat) : (value depth).Yields Value.WellFormed := by
  induction depth with
  | zero => exact scalar_yields
  | succ depth ih => exact .orElse (array_yields ih) (.orElse (inlineTable_yields ih) scalar_yields)

end Scan

/-- What the statement gives is well formed. -/
inductive Statement.WellFormed : Statement → Prop
  | blank : WellFormed .blank
  | pair (keys : List String) {value : Value} : value.WellFormed → WellFormed (.pair keys value)
  | header (place : List String) : WellFormed (.header place)
  | element (place : List String) : WellFormed (.element place)

namespace Scan

theorem statement_yields : statement.Yields Statement.WellFormed := by
  refine .orElse (.after (.of_pure .blank)) (.orElse ?_ (.orElse ?_ ?_))
  · exact .andThen fun _ => .andThen fun place => .andThen fun _ => .andThen fun _ =>
      .of_pure (.element place)
  · exact .andThen fun _ => .andThen fun place => .andThen fun _ => .andThen fun _ =>
      .of_pure (.header place)
  · exact .andThen fun keys => .andThen fun _ => .andThen fun _ => .bind (value_yields _)
      fun _ hvalue => .andThen fun _ => .of_pure (.pair keys hvalue)

theorem statements_yields :
    statements.Yields fun all => ∀ statement ∈ all, statement.WellFormed :=
  .andThen fun _ => .andThen fun _ => .bind (.many (.before statement_yields)) fun _ hall =>
    .andThen fun _ => .of_pure hall

end Scan

theorem Entries.WellFormed.add {draft after : Draft} {statement : Statement}
    (h : draft.entries.WellFormed) (hstatement : statement.WellFormed)
    (hafter : draft.add statement = some after) : after.entries.WellFormed := by
  cases hstatement with
  | blank => cases hafter; exact h
  | pair keys hvalue =>
      obtain ⟨entries, hentries, rfl⟩ := Option.map_eq_some_iff.mp hafter
      exact h.insert hvalue hentries
  | header place =>
      obtain ⟨entries, hentries, rfl⟩ := Option.map_eq_some_iff.mp hafter
      exact h.openTable hentries
  | element place =>
      obtain ⟨entries, hentries, rfl⟩ := Option.map_eq_some_iff.mp hafter
      exact h.openElement hentries

/-- What a text stands for has no key twice in any table, and no integer beyond 64 bits. -/
theorem parse_wellFormed {text : String} {document : Table} (h : parse text = some document) :
    (Value.table document).WellFormed := by
  obtain ⟨⟨statements, rest⟩, hscanned, h⟩ := Option.bind_eq_some_iff.mp h
  obtain ⟨draft, hdraft, h⟩ := Option.bind_eq_some_iff.mp h
  cases h
  have hstatements := Scan.statements_yields _ _ _ hscanned
  have hentries : draft.entries.WellFormed :=
    foldlM_keeps (fun draft => draft.entries.WellFormed)
      (fun before statement after hmem hbefore => hbefore.add (hstatements statement hmem))
      .nil hdraft
  have hnode : (Node.table .header draft.entries).value.WellFormed := hentries.as_node.value
  rwa [Node.value] at hnode

theorem word_eq_some_iff {value : Value} {n : Fin (maxOffset + 1)} :
    word value = some n ↔ value = .integer n.val := by
  constructor
  · intro h
    cases value with
    | integer i =>
        rw [word] at h
        split at h
        · rename_i hfits
          cases h
          exact congrArg Value.integer (Int.toNat_of_nonneg hfits.1).symm
        · cases h
    | _ => cases h
  · rintro rfl
    have hlt := n.isLt
    rw [word, dif_pos ⟨Int.natCast_nonneg _, by omega⟩]
    exact congrArg some (Fin.ext (Int.toNat_natCast _))

theorem boolean_eq_some_iff {value : Value} {b : Bool} :
    boolean value = some b ↔ value = .boolean b := by
  constructor
  · intro h
    cases value with
    | boolean c => cases h; rfl
    | _ => cases h
  · rintro rfl
    rfl

theorem library_lawful : library.Lawful where
  parse_wellFormed := parse_wellFormed
  word_eq_some_iff := word_eq_some_iff
  boolean_eq_some_iff := boolean_eq_some_iff
  record_table _ _ _ _ := rfl
  record_array _ _ _ := rfl
  record_other _ _ value htable harray := by
    cases value with
    | table entries => exact absurd rfl (htable entries)
    | array elements => exact absurd rfl (harray elements)
    | _ => rfl
  form_table _ _ _ _ := rfl
  untagged_eq _ _ := rfl

end SharedStream.Toml
