import SharedStream.Proofs.Documents
import SharedStream.Settings
/-!
Which documents are settings. A document may hold the fields under `stream` or at its top; which of
the two it is, the presence of that key alone decides, although the one is only tried after the
other, and the fields are judged afterwards. All of this follows from the rules that a library
keeps.
-/

namespace SharedStream

namespace Settings

/-! ### Fields -/

/-- The limit in a field: an integer from zero on, or the one that is meant without the field. -/
inductive LimitIn (without : Nat) : Option Toml.Value → Nat → Prop
  | missing : LimitIn without none without
  | given (limit : Nat) : LimitIn without (some (.integer limit)) limit

/-- The hints in a field: a truth value, or the one that is meant without the field. -/
inductive HintsIn (without : Bool) : Option Toml.Value → Bool → Prop
  | missing : HintsIn without none without
  | given (hints : Bool) : HintsIn without (some (.boolean hints)) hints

/-- The settings that a value stands for, as a table without further keys or as an array of the
fields in order. -/
inductive Decodes : Toml.Value → Settings → Prop
  | table {entries : Toml.Table} {settings : Settings} :
      (∀ entry ∈ entries, entry.1 = "max_position" ∨ entry.1 = "forward_release_hints") →
      LimitIn maxOffset (entries.lookup "max_position") settings.limit →
      HintsIn true (entries.lookup "forward_release_hints") settings.hints →
      Decodes (.table entries) settings
  | array {elements : List Toml.Value} {settings : Settings} :
      elements.length ≤ 2 →
      LimitIn maxOffset elements[0]? settings.limit →
      HintsIn true elements[1]? settings.hints →
      Decodes (.array elements) settings

variable {library : Toml.Library} {before after settings : Settings} {value : Toml.Value}
  {limit without : Nat} {hints otherwise : Bool}

theorem limitIn_none_iff : LimitIn without none limit ↔ limit = without :=
  ⟨fun h => by cases h; rfl, fun h => h ▸ .missing⟩

theorem limitIn_some_iff : LimitIn without (some value) limit ↔ value = .integer limit :=
  ⟨fun h => by cases h; rfl, fun h => h ▸ .given limit⟩

theorem hintsIn_none_iff : HintsIn otherwise none hints ↔ hints = otherwise :=
  ⟨fun h => by cases h; rfl, fun h => h ▸ .missing⟩

theorem hintsIn_some_iff : HintsIn otherwise (some value) hints ↔ value = .boolean hints :=
  ⟨fun h => by cases h; rfl, fun h => h ▸ .given hints⟩

theorem eq_of_fields (hlimit : before.limit = after.limit) (hhints : before.hints = after.hints) :
    before = after := by
  cases before
  cases after
  cases hlimit
  cases hhints
  rfl

theorem limitField_set_iff (lawful : library.Lawful) :
    (limitField library).set before value = some after ↔
      value = .integer after.limit ∧ after.hints = before.hints := by
  simp only [limitField, Toml.Field.of, Option.map_eq_some_iff, lawful.word_eq_some_iff]
  constructor
  · rintro ⟨limit, rfl, rfl⟩
    exact ⟨rfl, rfl⟩
  · rintro ⟨rfl, hhints⟩
    exact ⟨⟨after.limit, Nat.lt_succ_of_le after.limit_le⟩, rfl,
      eq_of_fields rfl hhints.symm⟩

theorem hintsField_set_iff (lawful : library.Lawful) :
    (hintsField library).set before value = some after ↔
      value = .boolean after.hints ∧ after.limit = before.limit := by
  simp only [hintsField, Toml.Field.of, Option.map_eq_some_iff, lawful.boolean_eq_some_iff]
  constructor
  · rintro ⟨hints, rfl, rfl⟩
    exact ⟨rfl, rfl⟩
  · rintro ⟨rfl, hlimit⟩
    exact ⟨after.hints, rfl, eq_of_fields hlimit.symm rfl⟩

/-- A key that stands once is set once: of each field the fold sees the value a lookup finds. -/
theorem foldlM_setNamed_eq_some_iff (lawful : library.Lawful) {entries : Toml.Table}
    (hkeyed : Toml.Keyed entries) : ∀ {before : Settings},
    entries.foldlM (Toml.Field.setNamed (fields library)) before = some after ↔
      (∀ entry ∈ entries, entry.1 = "max_position" ∨ entry.1 = "forward_release_hints") ∧
      LimitIn before.limit (entries.lookup "max_position") after.limit ∧
      HintsIn before.hints (entries.lookup "forward_release_hints") after.hints := by
  induction entries with
  | nil =>
      intro before
      simp only [List.foldlM_nil, List.lookup_nil, limitIn_none_iff, hintsIn_none_iff]
      constructor
      · rintro ⟨⟩
        exact ⟨List.forall_mem_nil _, rfl, rfl⟩
      · rintro ⟨-, hlimit, hhints⟩
        exact congrArg some (eq_of_fields hlimit.symm hhints.symm)
  | cons entry entries ih =>
      intro before
      obtain ⟨key, value⟩ := entry
      obtain ⟨hnone, hrest⟩ := hkeyed.of_cons
      have ih := @ih hrest
      simp only [List.foldlM_cons, Option.bind_eq_bind, Option.bind_eq_some_iff, ih,
        List.forall_mem_cons, List.lookup_cons]
      by_cases hlimit : key = "max_position"
      · subst hlimit
        have hset {next : Settings} :
            Toml.Field.setNamed (fields library) before ("max_position", value) = some next ↔
              value = .integer next.limit ∧ next.hints = before.hints :=
          limitField_set_iff lawful
        simp only [hset, hnone, limitIn_none_iff, limitIn_some_iff, beq_self_eq_true, true_or,
          true_and]
        constructor
        · rintro ⟨next, ⟨hvalue, hhints⟩, hkeys, hkept, hlater⟩
          exact ⟨hkeys, hkept ▸ hvalue, hhints ▸ hlater⟩
        · rintro ⟨hkeys, hvalue, hlater⟩
          exact ⟨{ before with limit := after.limit, limit_le := after.limit_le },
            ⟨hvalue, rfl⟩, hkeys, rfl, hlater⟩
      by_cases hhints : key = "forward_release_hints"
      · subst hhints
        have hset {next : Settings} :
            Toml.Field.setNamed (fields library) before ("forward_release_hints", value) =
                some next ↔
              value = .boolean next.hints ∧ next.limit = before.limit :=
          hintsField_set_iff lawful
        simp only [hset, hnone, hintsIn_none_iff, hintsIn_some_iff, beq_self_eq_true, or_true,
          true_and]
        constructor
        · rintro ⟨next, ⟨hvalue, hlimit⟩, hkeys, hlater, hkept⟩
          exact ⟨hkeys, hlimit ▸ hlater, hkept ▸ hvalue⟩
        · rintro ⟨hkeys, hlater, hvalue⟩
          exact ⟨{ before with hints := after.hints }, ⟨hvalue, rfl⟩, hkeys, hlater, rfl⟩
      · have hnot : Toml.Field.setNamed (fields library) before (key, value) = none := by
          simp [Toml.Field.setNamed, fields, limitField, hintsField, Toml.Field.of,
            Ne.symm hlimit, Ne.symm hhints]
        simp [hnot, hlimit, hhints]

theorem decodes_table_iff {entries : Toml.Table} : Decodes (.table entries) settings ↔
    (∀ entry ∈ entries, entry.1 = "max_position" ∨ entry.1 = "forward_release_hints") ∧
      LimitIn maxOffset (entries.lookup "max_position") settings.limit ∧
      HintsIn true (entries.lookup "forward_release_hints") settings.hints :=
  ⟨fun | .table hkeys hlimit hhints => ⟨hkeys, hlimit, hhints⟩,
    fun ⟨hkeys, hlimit, hhints⟩ => .table hkeys hlimit hhints⟩

theorem decodes_array_iff {elements : List Toml.Value} : Decodes (.array elements) settings ↔
    elements.length ≤ 2 ∧ LimitIn maxOffset elements[0]? settings.limit ∧
      HintsIn true elements[1]? settings.hints :=
  ⟨fun | .array hlength hlimit hhints => ⟨hlength, hlimit, hhints⟩,
    fun ⟨hlength, hlimit, hhints⟩ => .array hlength hlimit hhints⟩

/-- The fields in order, of which any number may be left out from the end. -/
theorem reader_array_eq_some_iff (lawful : library.Lawful) {elements : List Toml.Value} :
    reader library (.array elements) = some settings ↔ Decodes (.array elements) settings := by
  rw [reader, lawful.record_array, decodes_array_iff]
  have hlimit {next : Settings} {value : Toml.Value} :
      Toml.Field.setPaired {} (limitField library, value) = some next ↔
        value = .integer next.limit ∧ next.hints = true :=
    limitField_set_iff lawful
  have hhints {before next : Settings} {value : Toml.Value} :
      Toml.Field.setPaired before (hintsField library, value) = some next ↔
        value = .boolean next.hints ∧ next.limit = before.limit :=
    hintsField_set_iff lawful
  match elements with
  | [] =>
      simp only [fields, List.length_nil, Nat.zero_le, if_true, List.zip_nil_right,
        List.foldlM_nil, List.getElem?_nil, limitIn_none_iff, hintsIn_none_iff]
      constructor
      · rintro ⟨⟩
        exact ⟨trivial, rfl, rfl⟩
      · rintro ⟨-, hlimit, hhints⟩
        exact congrArg some (eq_of_fields hlimit.symm hhints.symm)
  | [limit] =>
      simp [fields, hlimit, limitIn_some_iff, hintsIn_none_iff]
  | [limit, hints] =>
      simp only [fields, List.length_cons, List.length_nil, Nat.le_refl, if_true,
        List.zip_cons_cons, List.zip_nil_right, List.foldlM_cons, List.foldlM_nil,
        Option.bind_eq_bind, Option.bind_eq_some_iff, hlimit, hhints, List.getElem?_cons_zero,
        List.getElem?_cons_succ, limitIn_some_iff, hintsIn_some_iff, true_and]
      constructor
      · rintro ⟨next, ⟨hlimit, -⟩, last, ⟨hhints, hkept⟩, ⟨⟩⟩
        exact ⟨hkept ▸ hlimit, hhints⟩
      · rintro ⟨hlimit, hhints⟩
        exact ⟨{ limit := settings.limit, limit_le := settings.limit_le }, ⟨hlimit, rfl⟩,
          settings, ⟨hhints, rfl⟩, rfl⟩
  | _ :: _ :: _ :: _ =>
      simp [fields]

/-- What is read from a value is what it stands for in one of the two forms. -/
theorem reader_eq_some_iff (lawful : library.Lawful) (hvalue : value.WellFormed) :
    reader library value = some settings ↔ Decodes value settings := by
  cases hvalue with
  | table hkeyed hvalues =>
      rw [reader, lawful.record_table _ _ hkeyed, foldlM_setNamed_eq_some_iff lawful hkeyed,
        decodes_table_iff]
  | array helements => exact reader_array_eq_some_iff lawful
  | _ =>
      rw [reader, lawful.record_other _ _ (by simp) (by simp)]
      exact ⟨nofun, nofun⟩

/-! ### Documents -/

/-- The answer to a document whose fields stand in this value. -/
structure Answers (value : Toml.Value) (answer : Except Fault Settings) : Prop where
  /-- Fields that allow a position are taken as they stand. -/
  accepts : ∀ settings, Decodes value settings → 0 < settings.limit → answer = .ok settings
  /-- Fields that allow none are refused for themselves. -/
  rejects : ∀ settings, Decodes value settings → settings.limit = 0 →
    ∃ fault, answer = .error fault ∧ fault.kind = .illegalArgument ∧ fault.cause = none
  /-- A value that holds no fields is refused with a cause. -/
  refuses : (∀ settings, ¬ Decodes value settings) →
    ∃ fault, answer = .error fault ∧ fault.kind = .illegalArgument ∧ fault.cause.isSome
  valid : ∀ settings, answer = .ok settings → settings.validate = .ok ()

/-- What becomes of a document whose value has been decoded: the settings are judged, whatever form
they had. -/
def judge : Option Settings → Except Fault Settings
  | none => .error .unfitDocument
  | some settings => settings.validate.map fun () => settings

theorem judge_of_zero (h : settings.limit = 0) : judge (some settings) = .error .zeroLimit := by
  simp [judge, validate, h, Except.map]

theorem judge_of_pos (h : 0 < settings.limit) : judge (some settings) = .ok settings := by
  rw [judge, (validate_eq_ok_iff settings).mpr h]
  rfl

theorem judge_answers (lawful : library.Lawful) (hvalue : value.WellFormed) :
    Answers value (judge (reader library value)) := by
  cases hread : reader library value with
  | none =>
      have hnone : ∀ settings, ¬ Decodes value settings := fun settings h => by
        rw [← reader_eq_some_iff lawful hvalue, hread] at h
        cases h
      exact {
        accepts := fun settings h => absurd h (hnone settings)
        rejects := fun settings h => absurd h (hnone settings)
        refuses := fun _ => ⟨_, rfl, rfl, rfl⟩
        valid := nofun }
  | some settings =>
      have hdecodes := (reader_eq_some_iff lawful hvalue).mp hread
      have hunique {other : Settings} (h : Decodes value other) : settings = other :=
        Option.some.inj (hread.symm.trans ((reader_eq_some_iff lawful hvalue).mpr h))
      constructor
      · intro other h hpositive
        cases hunique h
        exact judge_of_pos hpositive
      · intro other h hzero
        cases hunique h
        exact ⟨.zeroLimit, judge_of_zero hzero, rfl, rfl⟩
      · exact fun hnone => absurd hdecodes (hnone settings)
      · intro other h
        obtain hzero | hpositive := Nat.eq_zero_or_pos settings.limit
        · rw [judge_of_zero hzero] at h
          cases h
        · rw [judge_of_pos hpositive] at h
          cases h
          exact (validate_eq_ok_iff settings).mpr hpositive

theorem ofToml_eq_judge {text : String} {document : Toml.Table}
    (hparse : library.parse text = some document) :
    ofToml library text = judge (documentReader library (.table document)) := by
  rw [ofToml, hparse]
  cases hread : documentReader library (.table document) <;> simp only [hread, judge]

theorem Decodes.keys {entries : Toml.Table} (h : Decodes (.table entries) settings) :
    ∀ entry ∈ entries, entry.1 = "max_position" ∨ entry.1 = "forward_release_hints" := by
  cases h with
  | table hkeys _ _ => exact hkeys

theorem Decodes.lookup_stream {entries : Toml.Table} (h : Decodes (.table entries) settings) :
    entries.lookup "stream" = none := by
  refine List.lookup_eq_none_iff.mpr fun entry hmem => bne_iff_ne.mpr fun heq => ?_
  have hkey := h.keys entry hmem
  rw [← heq] at hkey
  exact absurd hkey (by decide)

variable {document : Toml.Table}

/-- A document with a key `stream` does not hold the fields itself, so the second form never helps
where the first one fails. -/
theorem reader_eq_none_of_stream (lawful : library.Lawful)
    (hdocument : (Toml.Value.table document).WellFormed)
    (hstream : document.lookup "stream" = some value) :
    reader library (.table document) = none := by
  refine Option.eq_none_iff_forall_ne_some.mpr fun settings hread => ?_
  have hnone := ((reader_eq_some_iff lawful hdocument).mp hread).lookup_stream
  rw [hstream] at hnone
  cases hnone

theorem documentReader_eq (lawful : library.Lawful)
    (hdocument : (Toml.Value.table document).WellFormed) :
    documentReader library (.table document) =
      ((document.lookup "stream").bind (reader library)).or (reader library (.table document)) := by
  cases hdocument with
  | table hkeyed _ =>
      rw [documentReader, lawful.untagged_eq, List.findSome?_cons, lawful.form_table _ _ hkeyed]
      cases (document.lookup "stream").bind (reader library) with
      | none => simp
      | some settings => rfl

/-- The value that a document is judged by: what stands under `stream`, or else the document. -/
theorem documentReader_of_stream (lawful : library.Lawful)
    (hdocument : (Toml.Value.table document).WellFormed)
    (hstream : document.lookup "stream" = some value) :
    documentReader library (.table document) = reader library value := by
  rw [documentReader_eq lawful hdocument, reader_eq_none_of_stream lawful hdocument hstream,
    hstream, Option.bind_some, Option.or_none]

theorem documentReader_of_none (lawful : library.Lawful)
    (hdocument : (Toml.Value.table document).WellFormed)
    (hstream : document.lookup "stream" = none) :
    documentReader library (.table document) = reader library (.table document) := by
  rw [documentReader_eq lawful hdocument, hstream, Option.bind_none, Option.none_or]

/-- The ways to write down both fields: in any order at the top or under `stream`, or there in an
array. -/
inductive Writes (limit : Nat) (hints : Bool) : Toml.Table → Prop
  | flat {document : Toml.Table} :
      document.Perm [("max_position", .integer limit),
        ("forward_release_hints", .boolean hints)] →
      Writes limit hints document
  | under {document fields : Toml.Table} :
      document.lookup "stream" = some (.table fields) →
      fields.Perm [("max_position", .integer limit), ("forward_release_hints", .boolean hints)] →
      Writes limit hints document
  | listed {document : Toml.Table} :
      document.lookup "stream" = some (.array [.integer limit, .boolean hints]) →
      Writes limit hints document

theorem decodes_of_perm {fields : Toml.Table}
    (h : fields.Perm [("max_position", .integer settings.limit),
      ("forward_release_hints", .boolean settings.hints)]) :
    Decodes (.table fields) settings := by
  have hkeyed : Toml.Keyed fields := (h.map Prod.fst).nodup_iff.mpr (by simp)
  refine .table (fun entry hmem => ?_) ?_ ?_
  · have hpair := h.mem_iff.mp hmem
    simp only [List.mem_cons, List.not_mem_nil, or_false] at hpair
    exact hpair.imp (congrArg Prod.fst) (congrArg Prod.fst)
  · rw [hkeyed.lookup_of_mem (h.mem_iff.mpr List.mem_cons_self)]
    exact .given _
  · rw [hkeyed.lookup_of_mem (h.mem_iff.mpr (.tail _ List.mem_cons_self))]
    exact .given _

/-- However the two fields are written down, they are what is read. -/
theorem Writes.documentReader_eq (lawful : library.Lawful)
    (hdocument : (Toml.Value.table document).WellFormed)
    (h : Writes settings.limit settings.hints document) :
    documentReader library (.table document) = some settings := by
  cases h with
  | flat hfields =>
      have hdecodes := decodes_of_perm hfields
      rw [documentReader_of_none lawful hdocument hdecodes.lookup_stream]
      exact (reader_eq_some_iff lawful hdocument).mpr hdecodes
  | under hstream hfields =>
      rw [documentReader_of_stream lawful hdocument hstream]
      exact (reader_eq_some_iff lawful (hdocument.lookup hstream)).mpr (decodes_of_perm hfields)
  | listed hstream =>
      rw [documentReader_of_stream lawful hdocument hstream]
      exact (reader_eq_some_iff lawful (hdocument.lookup hstream)).mpr
        (.array (Nat.le_refl _) (.given _) (.given _))

/-- Which texts are settings, whatever library reads them. A text that is no document is refused
with a cause. Of a document, what stands under `stream` decides, and without such a key the document
does; and the same two fields are the same settings in each form. -/
theorem ofToml_answers (library : Toml.Library) (lawful : library.Lawful) (text : String) :
    (library.parse text = none → ∃ fault, ofToml library text = .error fault ∧
      fault.kind = .illegalArgument ∧ fault.cause.isSome) ∧
    ∀ document, library.parse text = some document →
      (∀ value, document.lookup "stream" = some value → Answers value (ofToml library text)) ∧
      (document.lookup "stream" = none → Answers (.table document) (ofToml library text)) ∧
      ∀ settings : Settings, Writes settings.limit settings.hints document →
        ofToml library text = settings.validate.map fun () => settings := by
  constructor
  · intro hparse
    exact ⟨.malformedDocument, by rw [ofToml, hparse], rfl, rfl⟩
  · intro document hparse
    have hdocument := lawful.parse_wellFormed hparse
    rw [ofToml_eq_judge hparse]
    refine ⟨fun value hstream => ?_, fun hstream => ?_, fun settings hwrites => ?_⟩
    · rw [documentReader_of_stream lawful hdocument hstream]
      exact judge_answers lawful (hdocument.lookup hstream)
    · rw [documentReader_of_none lawful hdocument hstream]
      exact judge_answers lawful hdocument
    · rw [hwrites.documentReader_eq lawful hdocument, judge]

/-- Beside `stream` any other key is passed over, even one that would be a field. -/
theorem ofToml_answers_beside :
    let text := "max_position = 0\nstream = [5, false]"
    let settings : Settings := { limit := 5, hints := false }
    Toml.library.Lawful ∧
      (∃ document value, Toml.library.parse text = some document ∧
        document.lookup "stream" = some value ∧ Decodes value settings) ∧
      ofToml Toml.library text = .ok settings := by
  intro text settings
  have hfound : ((Toml.library.parse text).bind fun document =>
      (document.lookup "stream").bind (reader Toml.library)) = some settings := by
    decide +kernel
  obtain ⟨document, hparse, hfound⟩ := Option.bind_eq_some_iff.mp hfound
  obtain ⟨value, hstream, hread⟩ := Option.bind_eq_some_iff.mp hfound
  have hdocument := Toml.library_lawful.parse_wellFormed hparse
  have hdecodes :=
    (reader_eq_some_iff Toml.library_lawful (hdocument.lookup hstream)).mp hread
  have hanswers := (ofToml_answers Toml.library Toml.library_lawful text).2 document hparse
  exact ⟨Toml.library_lawful, ⟨document, value, hparse, hstream, hdecodes⟩,
    (hanswers.1 value hstream).accepts settings hdecodes (by decide)⟩

end Settings

end SharedStream
