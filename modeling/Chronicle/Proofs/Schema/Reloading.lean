import Chronicle.Proofs.Schema.Ordering
import Chronicle.Proofs.Schema.Substitution
import Chronicle.Proofs.Schema.Written

/-!
# Schemas survive being written

The schema of a document has its references replaced and is sound. Written as a document without
definitions it loads again and comes to the same schema (`Document.survives`): it is read as it is
written, there is nothing left to be replaced, and the check asks nothing that it has not let
through before.

What is written does not say everything.

* The locations of a table have no order, so they are written in any.
* Of a pattern the text is written. A pattern that was made of a text is made again; one that was
  not, such as the exact pattern `a*`, comes back as the pattern of its text.
* A definition that gives a text such as `$A` leaves a reference behind, which would be looked for
  again, so such definitions are left aside.
-/

namespace Chronicle

namespace Handler

variable {t : Table} {d : Definitions} {h : Handler}

/-- A handler that is sound stays sound when its pattern is made of its text. -/
theorem check_respelled (hh : h.check t = .ok ()) : h.respelled.check t = .ok () := by
  obtain ⟨hpattern, hchanges⟩ := check_eq_ok_iff.mp hh
  refine check_eq_ok_iff.mpr ⟨fun hempty => hpattern ?_, hchanges⟩
  have htext : h.pattern.text = "" := by
    rw [← Pattern.text_ofText h.pattern.text]
    exact congrArg Pattern.text hempty
  cases hp : h.pattern with
  | exact name =>
      rw [hp] at htext
      exact congrArg _ htext
  | stem start =>
      rw [hp] at htext
      simp [Pattern.text] at htext

theorem substitute_respelled (hh : h.substitute d = .ok h) :
    h.respelled.substitute d = .ok h.respelled := by
  simp only [substitute, bind_eq_ok_iff, pure_eq_ok_iff] at hh
  obtain ⟨changes, hchanges, heq⟩ := hh
  obtain rfl : changes = h.changes := congrArg Handler.changes heq
  simp only [substitute, respelled, hchanges]
  rfl

end Handler

/-- A schema is sound in whatever order its locations stand, and with its patterns made of their
texts. -/
theorem Schema.check_respelled {schema : Schema} {table : Table} (h : schema.check = .ok ())
    (htable : table.locations.Perm schema.table.locations) :
    (⟨schema.handlers.map Handler.respelled, table⟩ : Schema).check = .ok () := by
  obtain ⟨ht, hhandlers⟩ := check_eq_ok_iff.mp h
  refine check_eq_ok_iff.mpr ⟨Table.check_of_perm htable ht, ?_⟩
  rw [List.forall_mem_map]
  intro handler hmem
  rw [Handler.check_congr (Table.defines_of_perm htable)]
  exact Handler.check_respelled (hhandlers handler hmem)

namespace Document

variable {d : Document} {schema : Schema}

theorem toSchema_eq_ok_iff : d.toSchema = .ok schema ↔ ∃ locations,
    d.locations.mapM (Location.substitute d.definitions) = .ok locations ∧
      d.handlers.mapM (Handler.substitute d.definitions) = .ok schema.handlers ∧
      schema.table = Table.ofList locations ∧ schema.check = .ok () := by
  simp only [toSchema, Document.substitute, bind_eq_ok_iff, pure_eq_ok_iff, Schema.make_eq_ok_iff]
  constructor
  · rintro ⟨parts, ⟨locations, hlocations, handlers, hhandlers, rfl⟩, rfl, hcheck⟩
    exact ⟨locations, hlocations, hhandlers, rfl, hcheck⟩
  · rintro ⟨locations, hlocations, hhandlers, htable, hcheck⟩
    refine ⟨_, ⟨locations, hlocations, _, hhandlers, rfl⟩, ?_, hcheck⟩
    simp only [← htable]

/-- In the schema of a document with plain definitions nothing is left to be replaced. -/
theorem substitute_of_toSchema (hd : d.toSchema = .ok schema) (hplain : d.definitions.Plain)
    (d' : Definitions) : (∀ l ∈ schema.table.locations, l.substitute d' = .ok l) ∧
      ∀ h ∈ schema.handlers, h.substitute d' = .ok h := by
  obtain ⟨locations, hlocations, hhandlers, htable, -⟩ := toSchema_eq_ok_iff.mp hd
  refine ⟨fun l hl => ?_, fun h hh => ?_⟩
  · rw [htable] at hl
    obtain ⟨m, -, hm⟩ := exists_of_mem_mapM hlocations l (Table.mem_of_mem_ofList hl)
    exact Location.substitute_substituted hplain d' hm
  · obtain ⟨g, -, hg⟩ := exists_of_mem_mapM hhandlers h hh
    exact Handler.substitute_substituted hplain d' hg

/-- Substitution leaves patterns alone. -/
theorem handlers_respelled (hd : d.toSchema = .ok schema) (hspelled : d.Spelled) :
    schema.handlers.map Handler.respelled = schema.handlers := by
  obtain ⟨-, -, hhandlers, -⟩ := toSchema_eq_ok_iff.mp hd
  rw [List.map_congr_left (g := id), List.map_id]
  intro h hh
  obtain ⟨g, hg, hgh⟩ := exists_of_mem_mapM hhandlers h hh
  obtain ⟨text, htext⟩ := hspelled g hg
  exact Handler.respelled_of_ofText ((Handler.pattern_of_substitute hgh).trans htext)

/-- The schema of a document survives being written, without definitions and with its locations in
the order of `table`, in a text.

* `loads`: the text holds a document, and its schema has the handlers of the first, with their
  patterns made of their texts, and its locations.
* `handlers`: these are the same handlers in the same order, if the patterns of the document were
  made of texts.
* `spelled`: so they were if the document was read.
* `locations`: the same locations are found. -/
structure Survives (d : Document) (schema : Schema) (table : Table) (text : String) : Prop where
  loads : (read? text).map toSchema = some (.ok ⟨schema.handlers.map Handler.respelled, table⟩)
  handlers : d.Spelled → schema.handlers.map Handler.respelled = schema.handlers
  spelled : ∀ source, read? source = some d → d.Spelled
  locations : ∀ name, table.find? name = schema.table.find? name

/-- **A schema survives being written.** If no definition of a document gives a text that is a
reference itself, the schema of the document may be written without definitions, and loading what
was written comes to the same schema. -/
theorem survives (hd : d.toSchema = .ok schema) (hplain : d.definitions.Plain) {table : Table}
    (htable : table.locations.Perm schema.table.locations) {text : String}
    (htext : Json.read? text = some (Schema.toJson ⟨schema.handlers, table⟩)) :
    d.Survives schema table text := by
  obtain ⟨hparse, hsound⟩ := Json.read?_eq_some_iff.mp htext
  obtain ⟨-, -, -, -, hcheck⟩ := toSchema_eq_ok_iff.mp hd
  obtain ⟨hlocations, hhandlers⟩ := substitute_of_toSchema hd hplain {}
  have hread : read? text = some (Schema.document ⟨schema.handlers, table⟩) := by
    rw [read?, hparse]
    exact ofJson?_toJson hsound
  have hschema : (Schema.document ⟨schema.handlers, table⟩).toSchema =
      .ok ⟨schema.handlers.map Handler.respelled, table⟩ := by
    refine toSchema_eq_ok_iff.mpr ⟨table.locations, ?_, ?_, ?_, ?_⟩
    · exact mapM_eq_self fun l hl => hlocations l (htable.mem_iff.mp hl)
    · refine mapM_eq_self ?_
      rw [Schema.document, List.forall_mem_map]
      exact fun h hh => Handler.substitute_respelled (hhandlers h hh)
    · -- Locations of a table have different names, so none is put in the place of another.
      exact (Table.ofList_locations table).symm
    · exact Schema.check_respelled hcheck htable
  refine ⟨?_, handlers_respelled hd, fun _ => spelled_of_read?, Table.find?_of_perm htable⟩
  rw [hread, Option.map_some, hschema]

/-- The written text has the locations the other way round, and a seven in the place of `$SLOT`. -/
theorem survives_of_slot :
    let d : Document := {
      definitions := ⟨[("SLOT", .long 7)]⟩
      locations := [⟨"Top", [.constant "T"]⟩, ⟨"Slot", [.constant "$SLOT"]⟩]
      handlers := [⟨.ofText "io**", [.assign [.location "Slot"] ⟨.literal .null, false, .push⟩]⟩] }
    let schema : Schema := {
      handlers := d.handlers
      table := .ofList [⟨"Top", [.constant "T"]⟩, ⟨"Slot", [.constant "7"]⟩] }
    let table : Table := .ofList [⟨"Slot", [.constant "7"]⟩, ⟨"Top", [.constant "T"]⟩]
    let text :=
      "\x7b\"locations\":[\x7b\"name\":\"Slot\",\"path\":[\x7b\"type\":\"constant\"," ++
      "\"name\":\"7\"\x7d]\x7d,\x7b\"name\":\"Top\",\"path\":[\x7b\"type\":\"constant\"," ++
      "\"name\":\"T\"\x7d]\x7d],\"handlers\":[\x7b\"event\":\"io**\",\"state_changes\":[" ++
      "\x7b\"type\":\"assign\",\"path\":[\x7b\"type\":\"location\",\"name\":\"Slot\"\x7d]," ++
      "\"value\":\x7b\"value\":\x7b\"type\":\"literal\",\"value\":\"null\"\x7d," ++
      "\"increment\":false,\"stack\":\"push\"\x7d\x7d]\x7d]\x7d"
    d.toSchema = .ok schema ∧ d.definitions.Plain ∧
      table.locations.Perm schema.table.locations ∧
      Json.read? text = some (Schema.toJson ⟨schema.handlers, table⟩) ∧
      d.Survives schema table text ∧ d.Spelled := by
  intro d schema table text
  have hd : d.toSchema = .ok schema := by rfl
  have hplain : d.definitions.Plain := by
    intro entry hentry s hs
    obtain rfl := List.mem_singleton.mp hentry
    cases hs
  have htable : table.locations.Perm schema.table.locations := .swap _ _ _
  have htext : Json.read? text = some (Schema.toJson ⟨schema.handlers, table⟩) := by
    unfold Json.read? Json.parse
    dsimp only [text]
    repeat rw [String.toList_append]
    repeat rw [String.toList_ofList]
    decide +kernel
  have hspelled : d.Spelled := fun h hh => ⟨"io**", by rw [List.mem_singleton.mp hh]⟩
  exact ⟨hd, hplain, htable, htext, survives hd hplain htable htext, hspelled⟩

end Document
end Chronicle
